import PotatoDB.Routines

/-!
# Statements that end

Where the definitions in play lead back nowhere, `execute` returns after as many nested executions
as the rank of the text. A trigger that fires itself is run at every depth there is.
-/

namespace PotatoDB.Routines

open Nesting

variable {δ : Type}

/-! ## What a text can lead to -/

/-- The texts, functions and definitions in play. -/
structure Universe where
  text : String → Prop
  functions : Map UdfDef → Prop
  trigger : TriggerDef → Prop
  procedure : String → String → Prop
  template : String → String → Prop
  migration : String → Prop

/-- The table and the event on which a statement fires triggers. -/
def RoutineStatement.fires : RoutineStatement → Option (String × String)
  | .insert table false => some (table, "INSERT")
  | .update table => some (table, "UPDATE")
  | .delete table => some (table, "DELETE")
  | _ => none

/-- The statement can hand the text on. -/
inductive RoutineStatement.Leads (U : Universe) : RoutineStatement → String → Prop
  | trigger {statement : RoutineStatement} {table event : String} {g : TriggerDef}
    (hfires : statement.fires = some (table, event)) (hg : U.trigger g) (ht : g.table = table) (he : g.event = event) :
    Leads U statement g.body
  | call {name body : String} {stmt : List Char} (hp : U.procedure name body) (hs : stmt ∈ splitSqlStatements body.toList) :
    Leads U (.call name) (String.ofList stmt)
  | doBlock {stmts : List String} {stmt : String} (hs : stmt ∈ stmts) : Leads U (.doBlock stmts) stmt
  | migrate {target : Option Nat} {sql : String} (hm : U.migration sql) : Leads U (.migrate target) sql
  | prepared {name template : String} {parameters : List (List Char)} (ht : U.template name template) :
    Leads U (.executePrepared name parameters) (String.ofList (substituteParameters template.toList parameters))

/-- The definition that a statement makes is in play. -/
def RoutineStatement.Defines (U : Universe) : RoutineStatement → Prop
  | .createTrigger g => U.trigger g
  | .createFunction udf => ∀ f, U.functions f → U.functions (f.insert udf.name udf)
  | .dropFunction name _ => ∀ f, U.functions f → U.functions (f.erase name)
  | .createProcedure name body => U.procedure name body
  | .createMigration m => U.migration m.sql
  | .prepare name template => U.template name template
  | _ => True

/-- The texts in play lead to texts of a lower rank, and make definitions in play only. -/
structure Acyclic (env : RoutineEnv δ) (U : Universe) (rank : String → Nat) : Prop where
  leads : ∀ {a b : String} {f : Map UdfDef} {statement : RoutineStatement}, U.text a → U.functions f →
    env.parse f a = .ok statement → statement.Leads U b → U.text b ∧ rank b < rank a
  defines : ∀ {a : String} {f : Map UdfDef} {statement : RoutineStatement}, U.text a → U.functions f →
    env.parse f a = .ok statement → statement.Defines U

/-- The routines of a catalog are in play. -/
structure RoutineCatalog.Within (U : Universe) (c : RoutineCatalog) : Prop where
  triggers : ∀ name g, c.triggers.lookup name = some g → U.trigger g
  functions : U.functions c.udfs
  migrations : ∀ m ∈ c.migrations, U.migration m.sql

/-- Every routine that the engine has, or can go back to, is in play. -/
structure Within (U : Universe) (s : RoutineDb δ) : Prop where
  catalog : s.catalog.Within U
  snapshots : ∀ txn ∈ s.activeTxn, txn.catalogSnapshot.Within U ∧ ∀ sp ∈ txn.savepoints, sp.2.Within U
  procedures : ∀ name body, s.procedures.lookup name = some body → U.procedure name body
  templates : ∀ name template, s.preparedStatements.lookup name = some template → U.template name template

/-! ## What keeps the definitions in play -/

section
variable {env : RoutineEnv δ} {U : Universe} {exec exec' : String → N δ String} {text : String}

theorem alike_run (text : String) (phase : Phase) : Alike (Within U) (run env text phase) (run env text phase) := by
  refine alike_of_keeps fun s hs => ?_
  unfold run
  split
  · exact ⟨hs.catalog, hs.snapshots, hs.procedures, hs.templates⟩
  · exact ⟨hs.catalog, hs.snapshots, hs.procedures, hs.templates⟩

theorem alike_changeCatalog {f : RoutineCatalog → RoutineCatalog} (h : ∀ c, c.Within U → (f c).Within U) :
    Alike (Within (δ := δ) U) (changeCatalog f) (changeCatalog f) :=
  alike_of_keeps fun _ hs => ⟨h _ hs.catalog, hs.snapshots, hs.procedures, hs.templates⟩

theorem alike_set {s : RoutineDb δ} (h : Within U s) : Alike (Within U) (set s : N δ Unit) (set s) :=
  alike_of_keeps fun _ _ => h

theorem alike_runTriggers {table event timing : String}
    (h : ∀ g, U.trigger g → g.table = table → g.event = event → Alike (Within U) (exec g.body) (exec' g.body)) :
    Alike (Within U) (runTriggers exec table event timing) (runTriggers exec' table event timing) := by
  refine Alike.get_bind fun s hs => alike_each fun body hbody => ?_
  obtain ⟨g, hg, rfl⟩ := List.mem_map.mp hbody
  obtain ⟨hvalue, hmatch⟩ := List.mem_filter.mp hg
  simp only [Bool.and_eq_true, decide_eq_true_eq] at hmatch
  obtain ⟨name, hname⟩ := Map.mem_values hvalue
  exact (h g (hs.catalog.triggers name g hname) hmatch.1.1 hmatch.1.2).attempt.bind fun _ => alike_pure _

theorem alike_runAll {stmts : List String} (h : ∀ stmt ∈ stmts, Alike (Within U) (exec stmt) (exec' stmt)) :
    Alike (Within U) (runAll exec stmts) (runAll exec' stmts) :=
  alike_each fun stmt hs => (h stmt hs).bind fun _ => alike_pure _

theorem within_recordApplied {c : RoutineCatalog} (h : c.Within U) (version : Nat) (nowMs : Int) :
    (c.recordApplied version nowMs).Within U := by
  refine ⟨h.triggers, h.functions, fun m hm => ?_⟩
  unfold RoutineCatalog.recordApplied at hm
  dsimp only at hm
  split at hm
  · obtain ⟨i, hi, rfl⟩ := List.mem_iff_getElem.mp hm
    have hold : U.migration (c.migrations.get ⟨i, List.length_modify _ _ _ ▸ hi⟩).sql := h.migrations _ (List.getElem_mem _)
    rw [List.getElem_modify]
    split
    · exact hold
    · exact hold
  · exact h.migrations m hm

theorem sql_pendingMigrations {c : RoutineCatalog} (h : c.Within U) {target : Option Nat} {m : MigrationRecord}
    (hm : m ∈ c.pendingMigrations target) : U.migration m.sql := by
  unfold RoutineCatalog.pendingMigrations at hm
  cases target with
  | none => exact h.migrations m (List.mem_filter.mp hm).1
  | some t => exact h.migrations m (List.mem_filter.mp (List.mem_filter.mp hm).1).1

theorem within_findSavepoint {txn : RoutineTxn} {name : String} {c : RoutineCatalog} {idx : Nat}
    (h : ∀ sp ∈ txn.savepoints, sp.2.Within U) (hf : findSavepoint txn.savepoints name = some (c, idx)) : c.Within U := by
  obtain ⟨p, hp, hc⟩ := Option.map_eq_some_iff.mp hf
  obtain ⟨rfl, -⟩ := Prod.mk.inj hc
  have hmem := List.mem_reverse.mp (List.mem_of_find?_eq_some hp)
  exact h _ (List.fst_mem_of_mem_zipIdx hmem)

/-! ## One statement -/

/-- A statement asks for the texts that it leads to, and keeps the definitions in play. -/
theorem alike_handle {statement : RoutineStatement} (hdef : statement.Defines U)
    (h : ∀ u, statement.Leads U u → Alike (Within U) (exec u) (exec' u)) :
    Alike (Within U) (handle env exec text statement) (handle env exec' text statement) := by
  have hfire : ∀ {table event timing : String}, statement.fires = some (table, event) →
      Alike (Within U) (runTriggers exec table event timing) (runTriggers exec' table event timing) := fun hf =>
    alike_runTriggers fun g hg ht he => h _ (.trigger hf hg ht he)
  cases statement with
  | insert table onConflict =>
    unfold handle handleInsert
    cases onConflict with
    | true => exact alike_run _ _
    | false =>
      exact (hfire rfl).bind fun _ => (alike_run _ _).bind fun _ => (hfire rfl).bind fun _ => alike_run _ _
  | update table => exact (hfire rfl).bind fun _ => alike_run _ _
  | delete table =>
    exact (hfire rfl).bind fun _ => (alike_run _ _).bind fun _ => (hfire rfl).bind fun _ => alike_pure _
  | createTrigger g =>
    refine Alike.bind (alike_changeCatalog fun c hc => ⟨fun name g' hg' => ?_, hc.functions, hc.migrations⟩) fun _ => alike_run _ _
    by_cases hn : name = g.name
    · subst hn
      rw [AList.lookup_insert] at hg'
      cases hg'
      exact hdef
    · rw [AList.lookup_insert_ne hn] at hg'
      exact hc.triggers name g' hg'
  | dropTrigger name =>
    refine Alike.bind (alike_changeCatalog fun c hc => ⟨fun n g hg => ?_, hc.functions, hc.migrations⟩) fun _ => alike_run _ _
    by_cases hn : n = name
    · subst hn
      rw [AList.lookup_erase] at hg
      cases hg
    · rw [AList.lookup_erase_ne hn] at hg
      exact hc.triggers n g hg
  | createFunction udf =>
    refine (alike_run _ _).bind fun _ => Alike.bind (alike_changeCatalog fun c hc => ?_) fun _ => alike_pure _
    exact ⟨hc.triggers, hdef _ hc.functions, hc.migrations⟩
  | dropFunction name ifExists =>
    refine Alike.get_bind fun s hs => ?_
    split
    · refine (alike_run _ _).bind fun _ => Alike.bind (alike_changeCatalog fun c hc => ?_) fun _ => alike_pure _
      exact ⟨hc.triggers, hdef _ hc.functions, hc.migrations⟩
    · split
      · exact alike_pure _
      · exact alike_throw _
  | createProcedure name body =>
    refine Alike.bind (alike_of_keeps fun s hs => ⟨hs.catalog, hs.snapshots, fun n b hb => ?_, hs.templates⟩) fun _ => alike_pure _
    have hb : (s.procedures.insert name body).lookup n = some b := hb
    by_cases hn : n = name
    · subst hn
      rw [AList.lookup_insert] at hb
      cases hb
      exact hdef
    · rw [AList.lookup_insert_ne hn] at hb
      exact hs.procedures n b hb
  | call name =>
    refine Alike.get_bind fun s hs => ?_
    cases hp : s.procedures.lookup name with
    | none => exact alike_throw _
    | some body =>
      refine (alike_runAll fun stmt hstmt => ?_).bind fun _ => alike_pure _
      obtain ⟨cs, hcs, rfl⟩ := List.mem_map.mp hstmt
      exact h _ (.call (hs.procedures name body hp) hcs)
  | doBlock stmts => exact (alike_runAll fun stmt hstmt => h _ (.doBlock hstmt)).bind fun _ => alike_pure _
  | createMigration m =>
    refine Alike.get_bind fun s hs => ?_
    split
    · exact alike_throw _
    · refine Alike.bind (alike_changeCatalog fun c hc => ⟨hc.triggers, hc.functions, fun m' hm' => ?_⟩) fun _ => alike_pure _
      rcases List.mem_append.mp ((Sorting.perm_sortBy _ _).mem_iff.mp hm') with hm' | hm'
      · exact hc.migrations m' hm'
      · rw [List.mem_singleton.mp hm']
        exact hdef
  | migrate target =>
    refine Alike.get_bind fun s hs => (alike_each fun m hm => ?_).bind fun _ => Alike.get_bind fun t ht => alike_pure _
    exact (h _ (.migrate (sql_pendingMigrations hs.catalog hm))).bind fun _ => Alike.get_bind fun t ht =>
      alike_changeCatalog fun c hc => within_recordApplied hc _ _
  | prepare name template =>
    refine Alike.bind (alike_of_keeps fun s hs => ⟨hs.catalog, hs.snapshots, hs.procedures, fun n b hb => ?_⟩) fun _ => alike_pure _
    have hb : (s.preparedStatements.insert name template).lookup n = some b := hb
    by_cases hn : n = name
    · subst hn
      rw [AList.lookup_insert] at hb
      cases hb
      exact hdef
    · rw [AList.lookup_insert_ne hn] at hb
      exact hs.templates n b hb
  | executePrepared name parameters =>
    refine Alike.get_bind fun s hs => ?_
    cases hp : s.preparedStatements.lookup name with
    | none => exact alike_throw _
    | some template =>
      have hexec := h _ (.prepared (hs.templates name template hp))
      dsimp only
      split
      · refine (alike_run _ _).attempt.bind fun planned => ?_
        cases planned with
        | ok answer => exact alike_pure _
        | error e => exact hexec
      · exact hexec
  | startTransaction =>
    refine Alike.get_bind fun s hs => ?_
    split
    · exact alike_throw _
    · refine Alike.bind (alike_set ⟨hs.catalog, fun txn ht => ?_, hs.procedures, hs.templates⟩) fun _ => alike_pure _
      cases ht
      exact ⟨hs.catalog, nofun⟩
  | commit =>
    refine (alike_run _ _).bind fun _ => Alike.get_bind fun s hs => ?_
    cases s.activeTxn with
    | none => exact alike_throw _
    | some txn => exact Alike.bind (alike_set ⟨hs.catalog, nofun, hs.procedures, hs.templates⟩) fun _ => alike_run _ _
  | rollback =>
    refine Alike.get_bind fun s hs => ?_
    cases ht : s.activeTxn with
    | none => exact alike_throw _
    | some txn =>
      exact Alike.bind (alike_set ⟨(hs.snapshots txn ht).1, nofun, hs.procedures, hs.templates⟩) fun _ => alike_run _ _
  | savepoint name =>
    refine Alike.get_bind fun s hs => ?_
    cases ht : s.activeTxn with
    | none => exact alike_throw _
    | some txn =>
      refine Alike.bind (alike_set ⟨hs.catalog, fun txn' ht' => ?_, hs.procedures, hs.templates⟩) fun _ => alike_run _ _
      cases ht'
      obtain ⟨hsnap, hsps⟩ := hs.snapshots txn ht
      refine ⟨hsnap, fun sp hsp => ?_⟩
      rcases List.mem_append.mp hsp with hsp | hsp
      · exact hsps sp hsp
      · rw [List.mem_singleton.mp hsp]
        exact hs.catalog
  | rollbackTo name =>
    refine Alike.get_bind fun s hs => ?_
    cases ht : s.activeTxn with
    | none => exact alike_throw _
    | some txn =>
      obtain ⟨hsnap, hsps⟩ := hs.snapshots txn ht
      dsimp only
      cases hf : findSavepoint txn.savepoints name with
      | none => exact alike_throw _
      | some found =>
        obtain ⟨c, idx⟩ := found
        have hc := within_findSavepoint hsps hf
        refine Alike.bind (alike_set ⟨hc, fun txn' ht' => ?_, hs.procedures, hs.templates⟩) fun _ => alike_run _ _
        cases ht'
        exact ⟨hc, fun sp hsp => hsps sp (List.mem_of_mem_take hsp)⟩
  | release name =>
    refine Alike.get_bind fun s hs => ?_
    cases ht : s.activeTxn with
    | none => exact alike_throw _
    | some txn =>
      obtain ⟨hsnap, hsps⟩ := hs.snapshots txn ht
      dsimp only
      cases findSavepoint txn.savepoints name with
      | none => exact alike_throw _
      | some found =>
        refine Alike.bind (alike_set ⟨hs.catalog, fun txn' ht' => ?_, hs.procedures, hs.templates⟩) fun _ => alike_pure _
        cases ht'
        exact ⟨hsnap, fun sp hsp => hsps sp (List.mem_of_mem_take hsp)⟩
  | other => exact alike_run _ _

end

/-! ## Every statement -/

section
variable {env : RoutineEnv δ} {U : Universe} {rank : String → Nat}

theorem alike_step (h : Acyclic env U rank) (exec exec' : String → N δ String) (text : String) (ht : U.text text)
    (hexec : ∀ u, U.text u → rank u < rank text → Alike (Within U) (exec u) (exec' u)) :
    Alike (Within U) (step env exec text) (step env exec' text) := by
  refine (alike_run _ _).bind fun _ => Alike.get_bind fun s hs => ?_
  cases hp : env.parse s.catalog.udfs text with
  | error e => exact alike_throw _
  | ok statement =>
    have hhandle : Alike (Within U) (handle env exec text statement) (handle env exec' text statement) := by
      refine alike_handle (h.defines ht hs.catalog.functions hp) fun u hu => ?_
      obtain ⟨hu, hlt⟩ := h.leads ht hs.catalog.functions hp hu
      exact hexec u hu hlt
    refine (alike_run _ _).bind fun _ => hhandle.attempt.bind fun result => (alike_run _ _).bind fun _ => ?_
    cases result with
    | ok answer => exact alike_pure _
    | error e => exact alike_throw _

/-- **A text in play is executed with as many nested executions as its rank**, and more depth changes nothing. -/
theorem execute_returns (h : Acyclic env U rank) {text : String} (ht : U.text text) {s : RoutineDb δ} (hs : Within U s) :
    Settles (step env) (rank text + 1) text s ∧ ∀ k, execute env (rank text + 1 + k) text s = execute env (rank text + 1) text s := by
  have hsettles := settles_of_rank (alike_step h) ht hs
  exact ⟨hsettles, fun k => hsettles.add k _⟩

end

/-! ## A procedure that fires a trigger -/

def selfInsert : String := "INSERT INTO t VALUES (1)"

def chainTrigger : TriggerDef := ⟨"g", "t", "INSERT", "AFTER", "UPDATE u SET a = 1"⟩

/-- A CALL of `p`, an INSERT into `t` and an UPDATE of `u`; nothing else happens. -/
def chainEnv : RoutineEnv Nat where
  parse := fun _ text =>
    if text = "CALL p" then .ok (.call "p") else if text = selfInsert then .ok (.insert "t" false) else .ok (.update "u")
  work := fun _ _ d => (.ok "", d)
  nowMs := fun _ => 0

/-- The procedure `p` inserts into `t`, whose trigger updates `u`. -/
def chainDb : RoutineDb Nat where
  catalog := ⟨AList.insert "g" chainTrigger ∅, ∅, [], 0⟩
  activeTxn := none
  procedures := AList.insert "p" selfInsert ∅
  preparedStatements := ∅
  data := 0

def chainUniverse : Universe where
  text := fun text => text ∈ ["CALL p", selfInsert, "UPDATE u SET a = 1"]
  functions := fun f => f = ∅
  trigger := fun g => g = chainTrigger
  procedure := fun name body => name = "p" ∧ body = selfInsert
  template := fun _ _ => False
  migration := fun _ => False

def chainRank (text : String) : Nat := if text = "CALL p" then 2 else if text = selfInsert then 1 else 0

theorem within_chainDb : Within chainUniverse chainDb where
  catalog := by
    refine ⟨fun name g hg => ?_, rfl, nofun⟩
    by_cases hn : name = "g"
    · subst hn
      exact (Option.some.inj hg).symm
    · rw [show chainDb.catalog.triggers = AList.insert "g" chainTrigger ∅ from rfl, AList.lookup_insert_ne hn] at hg
      cases hg
  snapshots := nofun
  procedures := fun name body hb => by
    by_cases hn : name = "p"
    · subst hn
      exact ⟨rfl, (Option.some.inj hb).symm⟩
    · rw [show chainDb.procedures = AList.insert "p" selfInsert ∅ from rfl, AList.lookup_insert_ne hn] at hb
      cases hb
  templates := nofun

theorem parse_chain {a : String} {f : Map UdfDef} {statement : RoutineStatement} (ha : chainUniverse.text a)
    (h : chainEnv.parse f a = .ok statement) : a = "CALL p" ∧ .call "p" = statement ∨
      a = selfInsert ∧ .insert "t" false = statement ∨ a = "UPDATE u SET a = 1" ∧ .update "u" = statement := by
  have ha : a = "CALL p" ∨ a = selfInsert ∨ a = "UPDATE u SET a = 1" := by simpa [chainUniverse] using ha
  rcases ha with rfl | rfl | rfl
  · exact .inl ⟨rfl, by simpa [chainEnv] using h⟩
  · exact .inr (.inl ⟨rfl, by simpa [chainEnv, selfInsert] using h⟩)
  · exact .inr (.inr ⟨rfl, by simpa [chainEnv, selfInsert] using h⟩)

theorem acyclic_chain : Acyclic chainEnv chainUniverse chainRank where
  leads := by
    intro a b f statement ha _ hparse hleads
    rcases parse_chain ha hparse with ⟨rfl, rfl⟩ | ⟨rfl, rfl⟩ | ⟨rfl, rfl⟩
    · cases hleads with
      | trigger hfires => cases hfires
      | call hp hs =>
        obtain ⟨-, rfl⟩ := hp
        have hsplit : splitSqlStatements selfInsert.toList = [selfInsert.toList] := by decide +kernel
        rw [hsplit, List.mem_singleton] at hs
        rw [hs, String.ofList_toList]
        exact ⟨by simp [chainUniverse], by decide +kernel⟩
    · cases hleads with
      | trigger hfires hg =>
        rw [show _ = chainTrigger from hg]
        exact ⟨by simp [chainUniverse, chainTrigger], by decide +kernel⟩
    · cases hleads with
      | trigger hfires hg ht =>
        rw [show _ = chainTrigger from hg] at ht
        cases hfires
        exact absurd ht (by decide)
  defines := by
    intro a f statement ha _ hparse
    rcases parse_chain ha hparse with ⟨rfl, rfl⟩ | ⟨rfl, rfl⟩ | ⟨rfl, rfl⟩ <;> trivial

/-- The CALL needs three levels. -/
theorem chain_returns : Settles (step chainEnv) 3 "CALL p" chainDb ∧
    ∀ k, execute chainEnv (3 + k) "CALL p" chainDb = execute chainEnv 3 "CALL p" chainDb :=
  execute_returns acyclic_chain (by simp [chainUniverse]) within_chainDb

/-! ## A trigger that fires itself -/

/-- Where a step ends in the state in which a nested execution of the text ends, there is no depth that is enough. -/
theorem never_settles {step : (String → N δ String) → String → N δ String} {text : String} {s t : RoutineDb δ} (hne : t ≠ s)
    (h : ∀ exec, stop (step exec text s) = stop (exec text s)) (n : Nat) : ¬ Settles step n text s := by
  have hstop : ∀ (below : String → N δ String) (n : Nat), stop (nested step n below text s) = stop (below text s) := by
    intro below n
    induction n with
    | zero => rfl
    | succ n ih => rw [nested, h, ih]
  intro hsettles
  have hsame := congrArg stop (hsettles (fun _ _ => .ok "" s) fun _ _ => .ok "" t)
  exact hne ((hstop _ n).symm.trans (hsame.symm.trans (hstop _ n)))

/-- An INSERT into `t`, or a CALL of `p`; nothing else happens. -/
def selfEnv : RoutineEnv Nat where
  parse := fun _ text => if text = selfInsert then .ok (.insert "t" false) else .ok (.call "p")
  work := fun _ _ d => (.ok "", d)
  nowMs := fun _ => 0

/-- The table `t` has a trigger that inserts into it, and the procedure `p` calls itself. -/
def selfDb : RoutineDb Nat where
  catalog := ⟨AList.insert "g" ⟨"g", "t", "INSERT", "AFTER", selfInsert⟩ ∅, ∅, [], 0⟩
  activeTxn := none
  procedures := AList.insert "p" "CALL p" ∅
  preparedStatements := ∅
  data := 0

theorem bind_ok {α β : Type} {p : N δ α} {f : α → N δ β} {s t : RoutineDb δ} {a : α} (h : p s = .ok a t) :
    (p >>= f) s = f a t := by
  show EStateM.bind p f s = _
  unfold EStateM.bind
  rw [h]

theorem attempt_ok {α : Type} (p : N δ α) (s : RoutineDb δ) : ∃ r, attempt p s = .ok r (stop (p s)) := by
  unfold attempt
  cases p s with
  | ok a t => exact ⟨_, rfl⟩
  | error e t => exact ⟨_, rfl⟩

/-- Where nothing but routines changes, a step ends where its handler does. -/
theorem stop_step {env : RoutineEnv δ} (hwork : ∀ text phase d, env.work text phase d = (.ok "", d))
    {exec : String → N δ String} {text : String} {s : RoutineDb δ} {statement : RoutineStatement}
    (hparse : env.parse s.catalog.udfs text = .ok statement) :
    stop (step env exec text s) = stop (handle env exec text statement s) := by
  have hrun : ∀ phase t, run env text phase t = .ok "" t := by
    intro phase t
    unfold run
    rw [hwork]
  obtain ⟨result, hresult⟩ := attempt_ok (handle env exec text statement) s
  unfold step
  rw [bind_ok (hrun _ _)]
  rw [bind_ok (show (get : N δ (RoutineDb δ)) s = .ok s s from rfl), hparse]
  dsimp only
  rw [bind_ok (hrun _ _), bind_ok hresult, bind_ok (hrun _ _)]
  cases result with
  | ok answer => rfl
  | error e => rfl

theorem runTriggers_none {exec : String → N δ String} {s : RoutineDb δ} {table event timing : String}
    (h : s.catalog.triggersOn table event timing = []) : runTriggers exec table event timing s = .ok () s := by
  show each _ (s.catalog.triggersOn table event timing) s = _
  rw [h]
  rfl

theorem runTriggers_one {exec : String → N δ String} {s : RoutineDb δ} {table event timing body : String}
    (h : s.catalog.triggersOn table event timing = [body]) :
    runTriggers exec table event timing s = .ok () (stop (exec body s)) := by
  obtain ⟨r, hr⟩ := attempt_ok (exec body) s
  show each _ (s.catalog.triggersOn table event timing) s = _
  rw [h, each, @bind_ok δ Unit Unit _ _ s (stop (exec body s)) ()]
  · rfl
  · exact bind_ok hr

theorem stop_call {exec : String → N δ String} {s : RoutineDb δ} {name body stmt : String}
    (hbody : s.procedures.lookup name = some body) (hsplit : (splitSqlStatements body.toList).map String.ofList = [stmt]) :
    stop (handleCallProcedure exec name s) = stop (exec stmt s) := by
  unfold handleCallProcedure
  rw [bind_ok (show (get : N δ (RoutineDb δ)) s = .ok s s from rfl), hbody]
  dsimp only
  rw [hsplit]
  show stop (EStateM.bind (EStateM.bind (EStateM.bind (exec stmt) fun _ => pure ()) fun _ => pure ()) (fun _ => pure _) s) = _
  unfold EStateM.bind
  cases exec stmt s with
  | ok a t => rfl
  | error e t => rfl

theorem stop_selfInsert (exec : String → N Nat String) :
    stop (step selfEnv exec selfInsert selfDb) = stop (exec selfInsert selfDb) := by
  have hbefore : runTriggers exec "t" "INSERT" "BEFORE" selfDb = .ok () selfDb := runTriggers_none (by decide +kernel)
  have hafter : runTriggers exec "t" "INSERT" "AFTER" selfDb = .ok () (stop (exec selfInsert selfDb)) :=
    runTriggers_one (by decide +kernel)
  have hparse : selfEnv.parse selfDb.catalog.udfs selfInsert = .ok (.insert "t" false) := by
    simp [selfEnv]
  rw [stop_step (fun _ _ _ => rfl) hparse]
  show stop (handleInsert selfEnv exec selfInsert "t" false selfDb) = _
  unfold handleInsert
  rw [if_neg (by decide), bind_ok hbefore]
  rw [bind_ok (show run selfEnv selfInsert .change selfDb = .ok "" selfDb from rfl), bind_ok hafter]
  rfl

theorem stop_selfCall (exec : String → N Nat String) :
    stop (step selfEnv exec "CALL p" selfDb) = stop (exec "CALL p" selfDb) := by
  have hbody : selfDb.procedures.lookup "p" = some "CALL p" := by decide +kernel
  have hsplit : (splitSqlStatements "CALL p".toList).map String.ofList = ["CALL p"] := by decide +kernel
  have hparse : selfEnv.parse selfDb.catalog.udfs "CALL p" = .ok (.call "p") := by
    simp [selfEnv, selfInsert]
  rw [stop_step (fun _ _ _ => rfl) hparse]
  exact stop_call hbody hsplit

/-- **Neither an INSERT that fires itself nor a procedure that calls itself has a depth.** -/
theorem self_trigger_never_returns :
    (∀ n, ¬ Settles (step selfEnv) n selfInsert selfDb) ∧ ∀ n, ¬ Settles (step selfEnv) n "CALL p" selfDb := by
  have hne : ({ selfDb with data := 1 } : RoutineDb Nat) ≠ selfDb := by
    intro h
    exact absurd (congrArg RoutineDb.data h) (by decide)
  exact ⟨never_settles hne stop_selfInsert, never_settles hne stop_selfCall⟩

end PotatoDB.Routines
