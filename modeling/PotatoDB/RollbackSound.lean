import PotatoDB.Execute
import PotatoDB.RestoreSound

/-!
# ROLLBACK

A transaction whose statements delete an old file only after its table is backed up, and back a
table up only while it holds what it held at BEGIN, is undone by ROLLBACK.
-/

namespace PotatoDB

open Oplog Oplog.Prog
open Machine (apply)

section
variable (env : Env)

/-- The step deletes a file of a snapshot only when its table is backed up. -/
def Spares (files : Map (List ObjPath)) (backups : Map (List RecordBatch)) : Op → Prop
  | .deleteFile path => ∀ e ∈ files.pairs, path ∈ e.2 → (backups.lookup e.1).isSome
  | .removeDir dir => ∀ e ∈ files.pairs, (∃ p ∈ e.2, dir <+: p.dir) → (backups.lookup e.1).isSome
  | .restoreFiles .. => False
  | _ => True

/-- The step spares the files of BEGIN, backs a table up only while it has the files and the columns it had
then, and neither ends nor resets the transaction. -/
def Keeps (s : Db) (o : Op) : Prop :=
  match s.activeTxn with
  | none => False
  | some txn =>
    match o with
    | .backupTable table =>
      ∀ e ∈ txn.fileSnapshot.pairs, e.1 = table → (s.store.list (objPath table)).map (·.1) = e.2 ∧
        ∀ c ∈ txn.catalogSnapshot.tables.pairs, c.1 = table → s.ctx.lookup table =
          (columnsToSchema env c.2.columns).toOption.map fun schema => ⟨objPath table, schema⟩
    | .beginTxn _ | .endTxn | .resetTxn => False
    | o => Spares txn.fileSnapshot txn.rewriteBackups o

instance decidableSpares (files : Map (List ObjPath)) (backups : Map (List RecordBatch)) (o : Op) :
    Decidable (Spares files backups o) := by
  cases o <;> dsimp only [Spares] <;> infer_instance

instance decidableKeeps (s : Db) (o : Op) : Decidable (Keeps env s o) := by
  unfold Keeps
  cases s.activeTxn with
  | none => exact instDecidableFalse
  | some txn => cases o <;> dsimp only <;> infer_instance

/-- The transaction has the snapshot of `s₀`, and each table its files of then or a backup. -/
structure InTransaction (s₀ s : Db) : Prop where
  nextFile : s₀.nextFile ≤ s.nextFile
  txn : ∃ txn, s.activeTxn = some txn ∧ txn.catalogSnapshot = s₀.catalog ∧
    txn.fileSnapshot = s₀.fileSnapshot ∧ Recoverable s₀ txn.rewriteBackups s

end

section
variable {env : Env} {s₀ s : Db}

theorem Recoverable.of_store {backups : Map (List RecordBatch)} {t : Db} (h : Recoverable s₀ backups s)
    (hs : t.store = s.store) : Recoverable s₀ backups t :=
  ⟨fun n hn hb => by rw [hs]; exact h.kept n hn hb, h.saved⟩

theorem Recoverable.old_file {backups : Map (List RecordBatch)} (h : Recoverable s₀ backups s) {t : String}
    (ht : t ∈ s₀.catalog.tables) (hb : backups.lookup t = none) {e : ObjPath × ParquetFile}
    (he : e ∈ s.store.list (objPath t)) (hf : e.1.file < s₀.nextFile) : e ∈ s₀.store.list (objPath t) := by
  rw [← h.kept t ht hb]
  exact List.mem_filter.mpr ⟨he, decide_eq_true hf⟩

theorem recoverable_putFile {backups : Map (List RecordBatch)} (h : Recoverable s₀ backups s)
    (hn : s₀.nextFile ≤ s.nextFile) (dir : Dir) (file : ParquetFile) :
    Recoverable s₀ backups (apply s (.putFile dir file)) := by
  refine ⟨fun t ht hb => ?_, h.saved⟩
  show (Store.list (s.store ++ [_]) (objPath t)).filter _ = _
  rw [Store.list_append, List.filter_append, h.kept t ht hb]
  have hnew : (Store.list [((⟨dir, s.nextFile⟩ : ObjPath), file)] (objPath t)).filter
      (fun e => decide (e.1.file < s₀.nextFile)) = [] := by
    rw [List.filter_eq_nil_iff]
    intro e he
    obtain rfl := List.mem_singleton.mp (Store.mem_list.mp he).1
    simpa using hn
  rw [hnew, List.append_nil]

/-- Files go that are not old files of a table without a backup. -/
theorem recoverable_filter {backups : Map (List RecordBatch)} (h : Recoverable s₀ backups s)
    {p : ObjPath × ParquetFile → Bool} {t : Db} (hs : t.store = s.store.filter p)
    (hp : ∀ n ∈ s₀.catalog.tables, backups.lookup n = none → ∀ e ∈ s₀.store.list (objPath n), p e = true) :
    Recoverable s₀ backups t := by
  refine ⟨fun n hn hb => ?_, h.saved⟩
  rw [hs, ← h.kept n hn hb]
  unfold Store.list
  simp only [List.filter_filter]
  refine List.filter_congr fun e he => ?_
  by_cases hd : objPath n <+: e.1.dir
  · by_cases hf : e.1.file < s₀.nextFile
    · have hold := h.old_file hn hb (Store.mem_list.mpr ⟨he, hd⟩) hf
      simp [hp n hn hb e hold]
    · simp [hf]
  · rw [← List.isPrefixOf_iff_prefix, Bool.not_eq_true] at hd
    simp [hd]

/-- A step that spares the files of the snapshot keeps it recoverable. -/
theorem recoverable_step {backups : Map (List RecordBatch)} (h : Recoverable s₀ backups s)
    (hn : s₀.nextFile ≤ s.nextFile) {o : Op} (ho : Spares s₀.fileSnapshot backups o) :
    s₀.nextFile ≤ (apply s o).nextFile ∧ Recoverable s₀ backups (apply s o) := by
  cases o with
  | putFile dir file => exact ⟨Nat.le_succ_of_le hn, recoverable_putFile h hn dir file⟩
  | deleteFile path =>
    refine ⟨hn, recoverable_filter h rfl fun n hn' hb e he => ?_⟩
    rw [decide_eq_true_eq]
    rintro rfl
    have := ho _ (snapshot_files hn') (List.mem_map_of_mem he)
    rw [hb] at this
    cases this
  | removeDir dir =>
    refine ⟨hn, recoverable_filter h rfl fun n hn' hb e he => ?_⟩
    rw [Bool.not_eq_true', ← Bool.not_eq_true, List.isPrefixOf_iff_prefix]
    intro hd
    have := ho _ (snapshot_files hn') ⟨e.1, List.mem_map_of_mem he, hd⟩
    rw [hb] at this
    cases this
  | restoreFiles _ _ => exact absurd ho not_false
  | _ => exact ⟨hn, h.of_store rfl⟩

theorem recoverable_backup (ha : Anchored env s₀) {backups : Map (List RecordBatch)} (h : Recoverable s₀ backups s)
    {table : String} {r : Relation} (hb : backups.lookup table = none) (hr : s.relation table = some r)
    (hfiles : table ∈ s₀.catalog.tables →
      (s.store.list (objPath table)).map (·.1) = (s₀.store.list (objPath table)).map (·.1))
    (hctx : table ∈ s₀.catalog.tables → s.ctx.lookup table = s₀.ctx.lookup table) :
    Recoverable s₀ (backups.insert table r.collect) s := by
  constructor
  · intro t ht hnone
    by_cases he : t = table
    · rw [he, AList.lookup_insert] at hnone
      cases hnone
    · rw [AList.lookup_insert_ne he] at hnone
      exact h.kept t ht hnone
  · intro t ht b hsome
    by_cases he : t = table
    · subst he
      rw [AList.lookup_insert] at hsome
      obtain rfl := Option.some.inj hsome
      have hlist : s.store.list (objPath t) = s₀.store.list (objPath t) := by
        rw [← h.kept t ht hb, eq_comm, List.filter_eq_self]
        intro e he'
        have hm : e.1 ∈ (s₀.store.list (objPath t)).map (·.1) := by
          rw [← hfiles ht]
          exact List.mem_map_of_mem he'
        obtain ⟨e₀, he₀, heq⟩ := List.mem_map.mp hm
        rw [decide_eq_true_eq, ← heq]
        exact ha.fresh e₀ (Store.mem_list.mp he₀).1
      obtain ⟨m, hm⟩ := Map.mem_iff_lookup.mp ht
      obtain ⟨-, -, schema, -, hp⟩ := ha.table t m hm
      have hsame : s.relation t = s₀.relation t := by
        unfold Db.relation
        rw [hctx ht, hp, Option.map_some, Option.map_some]
        unfold Store.read
        rw [hlist]
      refine ⟨r, hsame.symm.trans hr, ?_⟩
      unfold Relation.collect allRows
      cases hrows : r.rows with
      | nil => rfl
      | cons row rows => simp
    · rw [AList.lookup_insert_ne he] at hsome
      exact h.saved t ht b hsome

/-- **One step of the transaction keeps its snapshot recoverable.** -/
theorem inTransaction_step (ha : Anchored env s₀) {o : Op} (h : InTransaction s₀ s) (hk : Keeps env s o) :
    InTransaction s₀ (apply s o) := by
  obtain ⟨hn, txn, htxn, hcat, hfile, hrec⟩ := h
  unfold Keeps at hk
  rw [htxn] at hk
  have hsame : ∀ (o : Op) (txn' : Transaction), Spares txn.fileSnapshot txn.rewriteBackups o →
      (apply s o).activeTxn = some txn' → txn'.catalogSnapshot = txn.catalogSnapshot →
      txn'.fileSnapshot = txn.fileSnapshot → txn'.rewriteBackups = txn.rewriteBackups →
      InTransaction s₀ (apply s o) := by
    intro o txn' ho htxn' hcat' hfile' hback
    obtain ⟨hn', hrec'⟩ := recoverable_step hrec hn (hfile ▸ ho)
    exact ⟨hn', txn', htxn', hcat'.trans hcat, hfile'.trans hfile, hback ▸ hrec'⟩
  cases o with
  | backupTable table =>
    refine ⟨hn, txn.backup table (s.relation table), by
      show s.activeTxn.map _ = _
      rw [htxn]
      rfl, ?_, ?_, ?_⟩
    · unfold Transaction.backup
      split
      · exact hcat
      · exact hcat
    · unfold Transaction.backup
      split
      · exact hfile
      · exact hfile
    · unfold Transaction.backup
      split
      · rename_i r hb hr
        refine Recoverable.of_store (s := s) (recoverable_backup ha hrec hb hr ?_ ?_) rfl
        · intro ht
          exact (hk _ (hfile ▸ snapshot_files ht) rfl).1
        · intro ht
          obtain ⟨m, hm⟩ := Map.mem_iff_lookup.mp ht
          obtain ⟨-, -, schema, hschema, hp⟩ := ha.table table m hm
          have := (hk _ (hfile ▸ snapshot_files ht) rfl).2 (table, m) (hcat ▸ Map.mem_pairs.mpr hm) rfl
          rw [this, hp, hschema]
          rfl
      · exact hrec.of_store rfl
  | deferDelete m =>
    refine hsame _ { txn with deferredDeletes := txn.deferredDeletes ++ [m] } trivial ?_ rfl rfl rfl
    show s.activeTxn.map _ = _
    rw [htxn]
    rfl
  | pushSavepoint name =>
    refine hsame _ { txn with
      savepoints := txn.savepoints ++ [⟨name, s.catalog, s.fileSnapshot, txn.rewriteBackups⟩] } trivial ?_ rfl rfl rfl
    show s.activeTxn.map _ = _
    rw [htxn]
    rfl
  | truncateSavepoints n =>
    refine hsame _ { txn with savepoints := txn.savepoints.take n } trivial ?_ rfl rfl rfl
    show s.activeTxn.map _ = _
    rw [htxn]
    rfl
  | beginTxn _ | endTxn | resetTxn => exact absurd hk not_false
  | _ => exact hsame _ _ hk htxn rfl rfl rfl

/-! ## BEGIN and ROLLBACK -/

theorem inTransaction_begin (ha : Anchored env s) : Yields handleBegin s fun _ t => InTransaction s t := by
  unfold handleBegin
  simp only [yields_bind, yields_get]
  by_cases ht : s.activeTxn.isSome = true
  · rw [if_pos ht]
    exact yields_throw
  · rw [if_neg ht]
    unfold nextTxnId
    simp only [yields_bind, yields_get, yields_emit, yields_pure]
    refine ⟨Nat.le_refl _, _, rfl, rfl, rfl, fun t _ _ => ?_, fun _ _ _ h => by cases h⟩
    refine List.filter_eq_self.mpr fun e he => ?_
    exact decide_eq_true (ha.fresh e (Store.mem_list.mp he).1)

/-- The write buffer is the one of BEGIN, and the files are where ROLLBACK looks for them. -/
structure ReadyToRollBack (env : Env) (s₀ s : Db) : Prop where
  buffer : s.writeBuffer = s₀.writeBuffer
  ready : ∀ txn, s.activeTxn = some txn →
    Ready env txn.catalogSnapshot txn.fileSnapshot txn.rewriteBackups s₀.nextFile s

theorem yields_rollback (ha : Anchored env s₀) (h : InTransaction s₀ s) {n : Nat}
    (hbuffer : s.writeBuffer = s₀.writeBuffer) (hready : ∀ txn, s.activeTxn = some txn →
      Ready env txn.catalogSnapshot txn.fileSnapshot txn.rewriteBackups n s) :
    Yields (handleRollback env) s fun _ t => Restored s₀ n t := by
  obtain ⟨-, txn, htxn, hcat, hfile, hrec⟩ := h
  have hr := hready txn htxn
  unfold handleRollback
  simp only [yields_bind, yields_get, htxn, yields_emit]
  rw [hcat, hfile] at hr ⊢
  have hrec' : Recoverable s₀ txn.rewriteBackups (apply (apply s .endTxn) (.setCatalogInTransaction false)) :=
    hrec.of_store rfl
  refine (yields_restoreSnapshot ha hrec' ⟨hr.spare, hr.covered⟩ hbuffer).mono ?_
  rintro _ t ⟨ht, -⟩
  split
  · exact yields_pure.mpr ht
  · simp only [yields_bind, yields_emit, yields_pure]
    exact ⟨⟨ht.catalog, ht.rows, ht.buffer⟩, ht.strays⟩

/-! ## Transactions as statements -/

theorem yields_arrive_dispatch {fuel : Nat} {sql : String} {R : QueryResult → Db → Prop}
    (h : ∀ s', s' = (arrive env sql).final s → Yields (dispatch env (execute env fuel) sql (env.parse sql)) s'
      fun r t => Yields (leave env (env.parse sql) (.ok r)) t R) : Yields (execute env (fuel + 1) sql) s R := by
  unfold execute
  rw [yields_bind]
  rintro _ -
  refine yields_attempt_bind (h _ rfl) fun e t => ?_
  unfold leave
  by_cases he : (env.parse sql).returnsEarly = true
  · rw [if_pos he]
    simp
  · rw [if_neg he]
    simp [Except.toBool]

theorem InTransaction.of_same (h : InTransaction s₀ s) {t : Db} (hs : t.store = s.store)
    (hn : t.nextFile = s.nextFile) (ht : t.activeTxn = s.activeTxn) : InTransaction s₀ t := by
  obtain ⟨hle, txn, htxn, hcat, hfile, hrec⟩ := h
  exact ⟨hn ▸ hle, txn, ht.trans htxn, hcat, hfile, hrec.of_store hs⟩

/-- BEGIN and ROLLBACK only write the catalog once more after their handlers. -/
theorem yields_leave_control {statement : Statement} (hm : statement.isMutating = false)
    {r : QueryResult} {R : QueryResult → Db → Prop} (h : R r s)
    (h' : R r { s with catalogDoc := some s.catalog, catalogDirty := false }) :
    Yields (leave env statement (.ok r)) s R := by
  unfold leave
  by_cases he : statement.returnsEarly = true
  · rw [if_pos he]
    simpa using h
  · rw [if_neg he, hm]
    unfold catalogFlushIfDirty
    simp only [Bool.false_and, Bool.false_eq_true, if_false, yields_bind, yields_get]
    split
    · rw [yields_emit, yields_check]
      intro a ha
      cases ha
      exact h'
    · rw [yields_pure, yields_check]
      intro a ha
      cases ha
      exact h

/-- A stretch of statements from an opening one to a closing one. -/
structure Span where
  start : Db
  first : String
  middle : List String
  last : String

namespace Span
variable (env : Env) (fuel : Nat) (p : Span)

/-- The state in which the handler of the opening statement runs. -/
def point : Db := (arrive env p.first).final p.start

def opened : Db := (execute env (fuel + 1) p.first).final p.start

def before : Db := (statements env (fuel + 1) p.middle).final (p.opened env fuel)

/-- The state in which the handler of the closing statement runs. -/
def reached : Db := (arrive env p.last).final (p.before env fuel)

def closed : Db := (execute env (fuel + 1) p.last).final (p.before env fuel)

/-- The operations between the opening statement and the handler of the closing one. -/
def steps : List Op :=
  (statements env (fuel + 1) p.middle).ops (p.opened env fuel) ++ (arrive env p.last).ops (p.before env fuel)

/-- The opening and the closing statement succeed. -/
def Succeeds : Prop :=
  Prog.Succeeds (execute env (fuel + 1) p.first) p.start ∧
    Prog.Succeeds (execute env (fuel + 1) p.last) (p.before env fuel)

instance decidableSucceeds : Decidable (p.Succeeds env fuel) := inferInstanceAs (Decidable (_ ∧ _))

end Span

section
variable {fuel : Nat} {p : Span}

theorem Span.after_steps : after (p.opened env fuel) (p.steps env fuel) = p.reached env fuel := after_append _ _ _

/-- What the handler of the opening statement leaves, the stretch starts with. -/
theorem Span.opened_of {R : Db → Prop} (hs : p.Succeeds env fuel)
    (h : Yields (dispatch env (execute env fuel) p.first (env.parse p.first)) (p.point env)
      fun r t => Yields (leave env (env.parse p.first) (.ok r)) t fun _ t => R t) : R (p.opened env fuel) := by
  obtain ⟨a, ha⟩ := hs.1
  refine yields_arrive_dispatch (R := fun _ t => R t) ?_ a ha
  rintro _ rfl
  exact h

theorem Span.closed_of {R : Db → Prop} (hs : p.Succeeds env fuel)
    (h : Yields (dispatch env (execute env fuel) p.last (env.parse p.last)) (p.reached env fuel)
      fun r t => Yields (leave env (env.parse p.last) (.ok r)) t fun _ t => R t) : R (p.closed env fuel) := by
  obtain ⟨a, ha⟩ := hs.2
  refine yields_arrive_dispatch (R := fun _ t => R t) ?_ a ha
  rintro _ rfl
  exact h

theorem Span.begun (hb : env.parse p.first = .startTransaction) (hs : p.Succeeds env fuel)
    (ha : Anchored env (p.point env)) : InTransaction (p.point env) (p.opened env fuel) := by
  refine Span.opened_of hs ?_
  rw [hb]
  refine (inTransaction_begin ha).mono fun r t ht => ?_
  exact yields_leave_control rfl ht (ht.of_same rfl rfl rfl)

/-- **ROLLBACK restores BEGIN.** -/
theorem rollback_restores_begin (hb : env.parse p.first = .startTransaction) (hr : env.parse p.last = .rollback)
    (hs : p.Succeeds env fuel) (ha : Anchored env (p.point env))
    (hrun : Along (Keeps env) (p.opened env fuel) (p.steps env fuel))
    (hready : ReadyToRollBack env (p.point env) (p.reached env fuel)) :
    Restored (p.point env) (p.point env).nextFile (p.closed env fuel) := by
  have hin : InTransaction (p.point env) (p.reached env fuel) := by
    rw [← Span.after_steps]
    exact hrun.inv (fun _ _ hi hk => inTransaction_step ha hi hk) (Span.begun hb hs ha)
  refine Span.closed_of hs ?_
  rw [hr]
  refine (yields_rollback ha hin hready.buffer hready.ready).mono fun r t ht => ?_
  exact yields_leave_control rfl ht ⟨⟨ht.catalog, ht.rows, ht.buffer⟩, ht.strays⟩

end

end

/-! ## An UPDATE after an INSERT -/

def flagSchema : Schema := [⟨"a", "BOOLEAN", true⟩]

def flagMeta : TableMeta := ⟨"t", [⟨"a", "BOOLEAN", true⟩], "t", [], none, none, [], []⟩

/-- A table `t` with one row, TRUE. -/
def flagDb : Db := { Db.new with
  store := [(⟨["t"], 0⟩, ⟨["a"], [[.bool true]], 0⟩)]
  nextFile := 1
  catalog := CatalogData.empty.addTable flagMeta
  ctx := AList.insert "t" ⟨["t"], flagSchema⟩ ∅ }

/-- Two statements about `t`, an INSERT of FALSE and an UPDATE that changes no value, and a savepoint. -/
def flagEnv : Env := { Env.plain with
  parse := fun sql =>
    if sql = "BEGIN" then .startTransaction
    else if sql = "ROLLBACK" then .rollback
    else if sql = "SAVEPOINT s" then .savepoint "s"
    else if sql = "ROLLBACK TO s" then .rollbackTo "s"
    else if sql = "INSERT INTO t VALUES (FALSE)" then .insert ⟨"t", [], some "VALUES (FALSE)", none, none, sql⟩
    else if sql = "UPDATE t SET a = a" then .update ⟨"t", [("a", "a")], none, none⟩
    else .query
  eval := fun q tables =>
    match q with
    | .user _ => .ok ⟨[⟨"column1", "BOOLEAN", true⟩], [[.bool false]]⟩
    | .rewrite table _ => (tables table).elim (.error "table not found") .ok
    | _ => .error "This feature is not implemented" }

theorem flagDb_table {t : String} {m : TableMeta} (h : flagDb.catalog.tables.lookup t = some m) :
    t = "t" ∧ m = flagMeta := by
  have hp : (t, m) ∈ [("t", flagMeta)] := Map.mem_pairs.mpr h
  simpa using hp

/-- A state with the table as it is in `flagDb`. -/
theorem flag_anchored {s : Db} (h : s.catalog = flagDb.catalog ∧ (∀ e ∈ s.store, e.1.file < s.nextFile) ∧
    s.ctx.lookup "t" = some ⟨["t"], flagSchema⟩ ∧ s.relation "t" = some ⟨flagSchema, [[.bool true]]⟩) :
    Anchored flagEnv s where
  fresh := h.2.1
  apart := by
    intro t ht u hu _
    rw [h.1] at ht hu
    obtain ⟨m, hm⟩ := Map.mem_iff_lookup.mp ht
    obtain ⟨m', hm'⟩ := Map.mem_iff_lookup.mp hu
    rw [(flagDb_table hm).1, (flagDb_table hm').1]
  table := by
    intro t m hm
    rw [h.1] at hm
    obtain ⟨rfl, rfl⟩ := flagDb_table hm
    exact ⟨rfl, rfl, flagSchema, rfl, h.2.2.1⟩
  typed := by
    intro t ht r hr
    rw [h.1] at ht
    obtain ⟨m, hm⟩ := Map.mem_iff_lookup.mp ht
    obtain ⟨rfl, rfl⟩ := flagDb_table hm
    obtain rfl := Option.some.inj (h.2.2.2.symm.trans hr)
    decide

theorem flagDb_anchored : Anchored flagEnv flagDb := flag_anchored (by decide)

/-- With the files of `t` only, everything is where a snapshot of `flagDb` looks for it. -/
theorem flag_ready {s : Db} {backups : Map (List RecordBatch)} {n : Nat}
    (h : (∀ e ∈ s.store, e.1.dir = ["t"]) ∧ s.catalog.tables.keys = ["t"]) :
    Ready flagEnv flagDb.catalog flagDb.fileSnapshot backups n s := by
  constructor
  · intro u m hm hu
    have hin : u ∈ s.catalog.tables := Map.mem_iff_lookup.mpr ⟨m, hm⟩
    rw [AList.mem_keys, h.2, List.mem_singleton] at hin
    exact absurd (show u ∈ flagDb.catalog.tables by rw [hin]; decide) hu
  · intro e he _
    refine Or.inl ⟨"t", by decide, ?_⟩
    rw [h.1 e he]
    decide

/-- The snapshot of the transaction, if there is one, has the tables and the files of `flagDb`. -/
theorem flag_readyToRollBack {s : Db} (h : ((∀ e ∈ s.store, e.1.dir = ["t"]) ∧ s.catalog.tables.keys = ["t"]) ∧
    s.writeBuffer = ∅ ∧ s.activeTxn.map (fun txn => (txn.catalogSnapshot, txn.fileSnapshot)) =
      some (flagDb.catalog, flagDb.fileSnapshot)) : ReadyToRollBack flagEnv flagDb s where
  buffer := h.2.1
  ready := by
    intro txn ht
    have htxn := h.2.2
    rw [ht] at htxn
    obtain ⟨hcat, hfile⟩ := Prod.mk.inj (Option.some.inj htxn)
    rw [hcat, hfile]
    exact flag_ready h.1

/-- BEGIN, some statements and ROLLBACK on the table. -/
def flagSpan (sqls : List String) : Span := ⟨flagDb, "BEGIN", sqls, "ROLLBACK"⟩

/-- **A row inserted before an UPDATE survives the ROLLBACK.** -/
theorem rollback_keeps_inserted_row :
    let p := flagSpan ["INSERT INTO t VALUES (FALSE)", "UPDATE t SET a = a"]
    p.Succeeds flagEnv 1 ∧ Anchored flagEnv (p.point flagEnv) ∧
      (p.point flagEnv).relation "t" = some ⟨flagSchema, [[.bool true]]⟩ ∧
      (p.closed flagEnv 1).relation "t" = some ⟨flagSchema, [[.bool true], [.bool false]]⟩ := by
  have hrun : (flagSpan ["INSERT INTO t VALUES (FALSE)", "UPDATE t SET a = a"]).Succeeds flagEnv 1 ∧
      ((flagSpan ["INSERT INTO t VALUES (FALSE)", "UPDATE t SET a = a"]).closed flagEnv 1).relation "t" =
        some ⟨flagSchema, [[.bool true], [.bool false]]⟩ := by decide +kernel
  exact ⟨hrun.1, flagDb_anchored, by decide +kernel, hrun.2⟩

/-- An UPDATE alone is rolled back. -/
theorem rollback_restores_update :
    Restored flagDb 1 ((flagSpan ["UPDATE t SET a = a"]).closed flagEnv 1) := by
  refine @rollback_restores_begin flagEnv 1 (flagSpan ["UPDATE t SET a = a"]) rfl rfl ?_ flagDb_anchored ?_
    (flag_readyToRollBack ?_) <;> decide +kernel

end PotatoDB
