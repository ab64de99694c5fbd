import PotatoDB.AccessSound
import PotatoDB.PlanCacheSound
import PotatoDB.ReadPaths
import PotatoDB.ServerSound
import PotatoDB.Visibility

/-!
# When the three ways to run a query agree

A text that no rewriting reacts to is given to DataFusion as it is on each of them. The tables it
reads have the same rows when `execute` has flushed the ones with rows in the buffer.
-/

namespace PotatoDB

open Oplog Oplog.Prog

/-- The same columns and the same rows, in any order, or no answer from either. -/
def SameAnswer : Except String Relation → Except String Relation → Prop
  | .ok r, .ok r' => r.schema = r'.schema ∧ r.rows.Perm r'.rows
  | .error _, .error _ => True
  | _, _ => False

theorem SameAnswer.refl (a : Except String Relation) : SameAnswer a a := by
  cases a with
  | error e => trivial
  | ok r => exact ⟨rfl, .refl _⟩

theorem SameAnswer.symm {a b : Except String Relation} (h : SameAnswer a b) : SameAnswer b a := by
  cases a with
  | error e => cases b with
    | error e' => trivial
    | ok r => exact h.elim
  | ok r => cases b with
    | error e => exact h.elim
    | ok r' => exact ⟨h.1.symm, h.2.symm⟩

theorem SameAnswer.trans {a b c : Except String Relation} (h : SameAnswer a b) (h' : SameAnswer b c) : SameAnswer a c := by
  cases a with
  | error e =>
    cases b with
    | ok r => exact h.elim
    | error e' =>
      cases c with
      | error e'' => trivial
      | ok r => exact h'.elim
  | ok r =>
    cases b with
    | error e => exact h.elim
    | ok r' =>
      cases c with
      | error e => exact h'.elim
      | ok r'' => exact ⟨h.1.trans h'.1, h.2.trans h'.2⟩

/-- The rows of a listing table in a store. -/
def Provider.rows (p : Provider) (store : Store) : List Row := store.read p.dir (p.schema.map (·.name))

/-- The answer to a text does not depend on the order of the rows in its tables. -/
def Planner.OrderFree (planner : Planner Provider Store Relation) (sql : String) : Prop :=
  ∀ ctx store store', (∀ n p, planner.reads sql n → ctx.lookup n = some p → (p.rows store).Perm (p.rows store')) →
    SameAnswer (planner.collect sql ctx store) (planner.collect sql ctx store')

/-- Two texts are answered alike, whatever the tables are. -/
def Planner.SameMeaning (planner : Planner Provider Store Relation) (sql sql' : String) : Prop :=
  ∀ s : PlanningDb Provider Store, SameAnswer (s.answerAfresh planner sql) (s.answerAfresh planner sql')

section
variable {env : Env} {rules : TextRules} {planner : Planner Provider Store Relation}
variable {special : SpecialQuery → List Char → ReadDb → Except String Relation} {readStatement : List Char → ReadStatement}
variable {s : ReadDb} {sql : List Char}

/-! ## The tables after the flushes -/

theorem rows_eq_provider {db : Db} {n : String} {p : Provider} (h : db.ctx.lookup n = some p) :
    db.rows n = p.rows db.store := rows_of_lookup h

/-- What `execute` and the others leave of a state for a query to read. -/
structure FlushedAlike (planner : Planner Provider Store Relation) (sql : String) (db t u : Db) : Prop where
  ctx : ∀ n, t.ctx.lookup n = db.ctx.lookup n ∧ u.ctx.lookup n = db.ctx.lookup n
  rows : ∀ n, planner.reads sql n → (t.rows n).Perm (u.rows n)
  rights : t.catalog.roles = db.catalog.roles ∧ t.catalog.userRoles = db.catalog.userRoles

/-- A flush that takes in the table, if it has rows waiting, leaves it with these rows in its files. -/
theorem rows_flushed {db₀ db t : Db} {tables : List String} (hsame : SameTables db₀ db)
    (h : FlushedTables env db tables t) {n : String} (hn : db₀.HasWaiting n → n ∈ tables) :
    ∃ rows, db₀.waiting env n = .ok rows ∧ (t.rows n).Perm (db₀.rows n ++ rows) := by
  by_cases hin : n ∈ tables
  · obtain ⟨rows, hrows, hperm⟩ := h.rows n hin
    rw [hsame.waiting] at hrows
    rw [hsame.rows] at hperm
    exact ⟨rows, hrows, hperm⟩
  · have hrel : t.rows n = db.rows n := by
      unfold Db.rows
      rw [h.other n hin]
    refine ⟨[], waiting_of_not_hasWaiting fun hw => hin (hn hw), ?_⟩
    rw [hrel, hsame.rows, List.append_nil]

theorem rights_forgetFiles {c c' : CatalogData} (h : c'.forgetFiles = c.forgetFiles) :
    c'.roles = c.roles ∧ c'.userRoles = c.userRoles := by
  have hroles : c'.forgetFiles.roles = c.forgetFiles.roles := by rw [h]
  have husers : c'.forgetFiles.userRoles = c.forgetFiles.userRoles := by rw [h]
  exact ⟨hroles, husers⟩

theorem rights_forgetStatistics {c c' : CatalogData} (h : c'.forgetStatistics = c.forgetStatistics) :
    c'.roles = c.roles ∧ c'.userRoles = c.userRoles := by
  have hroles : c'.forgetStatistics.roles = c.forgetStatistics.roles := by rw [h]
  have husers : c'.forgetStatistics.userRoles = c.forgetStatistics.userRoles := by rw [h]
  exact ⟨hroles, husers⟩

/-- Where `execute` flushes each table that has rows waiting and that the query reads, the query finds the same rows
after a flush of all tables. -/
theorem flushedAlike {db : Db} {text : String} (hcast : env.CastStable) (hhoused : Housed env db)
    (hcompact : Compactable env db) (harrive : Succeeds (arrive env text) db) (hall : Succeeds (flushAll env) db)
    (hflushed : ∀ n, planner.reads text n → db.HasWaiting n → n ∈ flushedOnArrival env db text) :
    FlushedAlike planner text db ((arrive env text).final db) ((flushAll env).final db) := by
  have hsame := @sameTables_arrivedAt env db
  have hself : SameTables db db := ⟨rfl, rfl, rfl, rfl, rfl⟩
  obtain ⟨a, ha⟩ := (arrive_eq text db).1.mp harrive
  have hwaiting : ∀ table, (arrivedAt env db).HasWaiting table → Flushable (arrivedAt env db) table := by
    intro table _
    exact (hhoused.flushable table).congr fun u => by rw [hsame.ctx]
  have harrived := yields_flushTables _ hwaiting ((hsame.compactable hcompact).safely hcast (hsame.housed hhoused)) a ha
  rw [← (arrive_eq text db).2] at harrived
  obtain ⟨b, hb⟩ := succeeds_flushAll.mp hall
  have hflushall := yields_flushTables _ (fun table _ => hhoused.flushable table) (hcompact.safely hcast hhoused) b hb
  rw [← final_flushAll] at hflushall
  constructor
  · intro n
    exact ⟨(harrived.1.ctx n).trans (by rw [hsame.ctx]), hflushall.1.ctx n⟩
  · intro n hn
    obtain ⟨rows, hrows, hperm⟩ := rows_flushed hsame harrived.1 (hflushed n hn)
    have hkeys : db.HasWaiting n → n ∈ db.writeBuffer.keys := by
      intro hw
      obtain ⟨b, hb, -⟩ := hw
      exact Map.mem_iff_lookup.mpr ⟨b, hb⟩
    obtain ⟨rows', hrows', hperm'⟩ := rows_flushed hself hflushall.1 hkeys
    obtain rfl := Except.ok.inj (hrows.symm.trans hrows')
    exact hperm.trans hperm'.symm
  · have hflushed := rights_forgetFiles harrived.1.catalog
    have hanalyzed := rights_forgetStatistics hsame.catalog
    exact ⟨hflushed.1.trans hanalyzed.1, hflushed.2.trans hanalyzed.2⟩

/-! ## DataFusion on a text -/

/-- The text is planned as it is: it fails for no other reason than an interval taken for a number, or not at all. -/
theorem freshPlan_eq_sql {ctx : Map Provider} {text : String}
    (h : ∀ e, planner.plan text ctx = .error e → containsText "coerce types Duration".toList e.toList = true →
      planner.rewriteDateSubtraction text = none) : planner.freshPlan ctx text = planner.sql ctx text := by
  unfold Planner.freshPlan Planner.sql
  cases hplan : planner.plan text ctx with
  | ok u => rfl
  | error e =>
    dsimp only [Bind.bind, Except.bind]
    by_cases hduration : containsText "coerce types Duration".toList e.toList = true
    · rw [if_pos hduration, h e hplan hduration]
    · rw [if_neg hduration]

/-- A text is answered alike on two states that differ in the order of rows. -/
theorem answer_alike {text : String} {db t u : Db} (h : FlushedAlike planner text db t u) (hfree : planner.OrderFree text) :
    SameAnswer (planner.sql t.ctx text >>= fun plan => planner.run plan t.store)
      (planner.sql u.ctx text >>= fun plan => planner.run plan u.store) := by
  have hctx : ∀ n, t.ctx.lookup n = u.ctx.lookup n := fun n => (h.ctx n).1.trans (h.ctx n).2.symm
  unfold Planner.sql
  rw [planner.plan_congr text t.ctx u.ctx fun n _ => hctx n]
  cases planner.plan text u.ctx with
  | error e => trivial
  | ok _ =>
    show SameAnswer (planner.collect text t.ctx t.store) (planner.collect text u.ctx u.store)
    rw [planner.collect_congr text t.ctx u.ctx t.store fun n _ => hctx n]
    refine hfree u.ctx t.store u.store fun n p hn hp => ?_
    rw [← rows_eq_provider ((hctx n).trans hp), ← rows_eq_provider hp]
    exact h.rows n hn

/-! ## Texts that no rewriting reacts to -/

theorem expandNextvalCalls_none {h : History} (hnone : splitAtText "nextval('".toList sql = none) :
    (expandNextvalCalls sql).result h = .ok sql := by
  unfold expandNextvalCalls
  cases hlen : sql.length with
  | zero =>
    obtain rfl := List.length_eq_zero_iff.mp hlen
    rfl
  | succ n =>
    unfold expandNextvalFrom
    rw [hnone]
    rfl

/-- The text gets to DataFusion as it is and finds what is stored. -/
structure ReadDb.Plain (env : Env) (rules : TextRules) (planner : Planner Provider Store Relation)
    (readStatement : List Char → ReadStatement) (s : ReadDb) (sql : List Char) : Prop where
  /-- VALUES is not among the words that `execute_readonly` knows. -/
  reads : isReadOnlySql env (String.ofList sql) = true
  nextval : splitAtText "nextval('".toList sql = none
  asOf : parseAsOfTimestamp rules sql = none
  calls : s.rewriteCalls rules sql = .ok sql
  special : ReadDb.specialQuery (rules.toUppercase (trimStatement rules sql)) = none
  allowed : enforceAccess rules s.db.catalog s.currentUser (trimStatement rules sql) = true
  statement : readStatement sql = .other ∨ readStatement sql = .explain ∧
    planner.SameMeaning (String.ofList (normalizeExplainSql rules sql)) (String.ofList sql)
  /-- The plans that are kept for the text, also for the normalized one, are up to date. -/
  cached : ∀ text, text = sql ∨ text = normalizeExplainSql rules sql → ∀ p,
    s.planCache.lookup (String.ofList text) = some p → UpToDate planner s.db.ctx (String.ofList text) p
  /-- No interval is taken for a number. -/
  planned : ∀ e, planner.plan (String.ofList sql) s.db.ctx = .error e →
    containsText "coerce types Duration".toList e.toList = true → planner.rewriteDateSubtraction (String.ofList sql) = none
  orderFree : planner.OrderFree (String.ofList sql)
  /-- `execute` flushes each table that has rows waiting and that the query reads; no flush fails. -/
  flushed : ∀ n, planner.reads (String.ofList sql) n → s.db.HasWaiting n → n ∈ flushedOnArrival env s.db (String.ofList sql)
  arrives : Succeeds (arrive env (String.ofList sql)) s.db
  flushes : Succeeds (flushAll env) s.db

theorem collect_eq {text : List Char} {t : Db} (hctx : ∀ n, t.ctx.lookup n = s.db.ctx.lookup n)
    (h : ∀ p, s.planCache.lookup (String.ofList text) = some p → UpToDate planner s.db.ctx (String.ofList text) p) :
    s.collect env planner t text =
      PlanningDb.answerAfresh planner ⟨t.ctx, t.store, s.planCache, ∅⟩ (String.ofList text) := by
  unfold ReadDb.collect
  refine answer_collectWithPlanCache fun p hp => ?_
  exact (h p hp).mono fun n _ => (hctx n).symm

theorem enforceAccess_flushed {db t : Db} {user : String} {text : List Char} (h : t.catalog.roles = db.catalog.roles)
    (h' : t.catalog.userRoles = db.catalog.userRoles) :
    enforceAccess rules t.catalog user text = enforceAccess rules db.catalog user text := by
  unfold enforceAccess currentUserIsAdmin userHasPrivilege currentUserIsAdmin CatalogData.rolesOf
  rw [h, h']

/-! ## The three ways -/

/-- The steps before the statement is planned leave the text as it is. -/
theorem executeRead_plain (h : s.Plain env rules planner readStatement sql)
    (hallowed : enforceAccess rules ((arrive env (String.ofList sql)).final s.db).catalog s.currentUser
      (trimStatement rules sql) = true) :
    s.executeRead env rules planner special readStatement sql =
      match readStatement sql with
      | .several => .error "Expected exactly one SQL statement"
      | .explain => s.collect env planner ((arrive env (String.ofList sql)).final s.db) (normalizeExplainSql rules sql)
      | .other => s.collect env planner ((arrive env (String.ofList sql)).final s.db) sql := by
  obtain ⟨a, ha⟩ := h.arrives
  unfold ReadDb.executeRead
  rw [expandNextvalCalls_none h.nextval]
  dsimp only [Bind.bind, Except.bind]
  rw [h.asOf]
  dsimp only
  rw [h.calls]
  dsimp only
  rw [ha]
  dsimp only
  rw [h.special]
  dsimp only
  rw [hallowed]
  rfl

/-- `execute` gives the text, or the normalized one, to DataFusion. -/
theorem executeRead_eq (h : s.Plain env rules planner readStatement sql)
    (halike : FlushedAlike planner (String.ofList sql) s.db ((arrive env (String.ofList sql)).final s.db)
      ((flushAll env).final s.db)) :
    ∃ text, (text = sql ∨ text = normalizeExplainSql rules sql ∧
        planner.SameMeaning (String.ofList (normalizeExplainSql rules sql)) (String.ofList sql)) ∧
      s.executeRead env rules planner special readStatement sql =
        s.collect env planner ((arrive env (String.ofList sql)).final s.db) text := by
  have hallowed : enforceAccess rules ((arrive env (String.ofList sql)).final s.db).catalog s.currentUser
      (trimStatement rules sql) = true :=
    (enforceAccess_flushed halike.rights.1 halike.rights.2).trans h.allowed
  rw [executeRead_plain h hallowed]
  obtain hother | ⟨hexplain, hmeaning⟩ := h.statement
  · rw [hother]
    exact ⟨sql, .inl rfl, rfl⟩
  · rw [hexplain]
    exact ⟨normalizeExplainSql rules sql, .inr ⟨rfl, hmeaning⟩, rfl⟩

/-- DataFusion's answer to the text itself. -/
def ReadDb.answerOn (planner : Planner Provider Store Relation) (t : Db) (sql : List Char) : Except String Relation :=
  planner.sql t.ctx (String.ofList sql) >>= fun plan => planner.run plan t.store

theorem answerAfresh_eq (h : s.Plain env rules planner readStatement sql) {t : Db}
    (hctx : ∀ n, t.ctx.lookup n = s.db.ctx.lookup n) :
    PlanningDb.answerAfresh planner ⟨t.ctx, t.store, s.planCache, ∅⟩ (String.ofList sql) = ReadDb.answerOn planner t sql := by
  unfold PlanningDb.answerAfresh ReadDb.answerOn
  rw [freshPlan_eq_sql]
  intro e he hduration
  rw [planner.plan_congr _ t.ctx s.db.ctx fun n _ => hctx n] at he
  exact h.planned e he hduration

end

/-! ## VALUES -/

/-- A table is read after FROM, and VALUES needs none. -/
def valuesReader : Planner Provider Store Relation := { tableReader with
  plan := fun sql ctx => if sql = "VALUES (TRUE)" then .ok () else tableReader.plan sql ctx
  collect := fun sql ctx store =>
    if sql = "VALUES (TRUE)" then .ok ⟨[⟨"column1", "BOOLEAN", true⟩], [[.bool true]]⟩
    else tableReader.collect sql ctx store
  plan_congr := by
    intro sql ctx ctx' h
    rw [tableReader.plan_congr sql ctx ctx' h]
  collect_congr := by
    intro sql ctx ctx' data h
    rw [tableReader.collect_congr sql ctx ctx' data h] }

theorem valuesReader_orderFree (sql : String) : valuesReader.OrderFree sql := by
  intro ctx store store' h
  unfold valuesReader
  dsimp only
  split
  · exact .refl _
  · unfold tableReader
    dsimp only
    cases hp : ctx.lookup (tableOf sql) with
    | none => trivial
    | some p => exact ⟨rfl, h (tableOf sql) p rfl hp⟩

/-- FALSE waits for `t`, and the user may do everything. -/
def allowedDb : ReadDb where
  db := { flagInserted with
    catalog := (flagInserted.catalog.addPrivilege "admin" ⟨"ALL", none⟩).addRole "root" "admin" }
  planCache := ∅
  fulltextIndexes := ∅
  currentUser := "root"

/-- No text is answered without DataFusion. -/
def noSpecial (_ : SpecialQuery) (_ : List Char) (_ : ReadDb) : Except String Relation := .error "not implemented"

theorem allowedDb_plain :
    allowedDb.Plain selfInsertEnv latinRules valuesReader (fun _ => .other) "SELECT a FROM t".toList where
  reads := by decide +kernel
  nextval := by decide +kernel
  asOf := by decide +kernel
  calls := by decide +kernel
  special := by decide +kernel
  allowed := by decide +kernel
  statement := .inl rfl
  cached := by
    intro text _ p hp
    cases hp
  planned := by
    intro e he
    have hok : valuesReader.plan (String.ofList "SELECT a FROM t".toList) allowedDb.db.ctx = .ok () := by decide +kernel
    rw [hok] at he
    cases he
  orderFree := valuesReader_orderFree _
  flushed := by
    intro n hn _
    have htable : n = "t" := hn.trans (by decide +kernel)
    rw [htable]
    decide +kernel
  arrives := by decide +kernel
  flushes := by decide +kernel

end PotatoDB
