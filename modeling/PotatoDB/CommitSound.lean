import PotatoDB.Visibility

/-!
# COMMIT

COMMIT writes the waiting rows to files, stores the catalog and then removes the storage of the
tables that were dropped. It publishes what the transaction sees unless a table has come to live in
such a storage.
-/

namespace PotatoDB

open Oplog Oplog.Prog
open Machine (apply)

/-! ## Published states -/

/-- The tables of `t` have in their files what those of `s` have in files or waiting, and the stored catalog is the
catalog of both. -/
structure Published (env : Env) (s t : Db) : Prop where
  rows : ∀ table, ∃ rows, s.waiting env table = .ok rows ∧ (t.rows table).Perm (s.rows table ++ rows)
  tables : ∀ table, t.ctx.lookup table = s.ctx.lookup table
  catalog : t.catalog.forgetStatistics = s.catalog.forgetStatistics
  stored : t.catalogDoc = some t.catalog

/-- The storage of the dropped tables has no rows of a table, and none will be written there. -/
def DropsNothingLive (env : Env) (s : Db) : Prop :=
  ∀ txn, s.activeTxn = some txn → ∀ m ∈ txn.deferredDeletes, ∀ table p, s.ctx.lookup table = some p →
    (∀ e ∈ s.store.list p.dir, storageDir env m <+: e.1.dir → e.2.rows = []) ∧
      (storageDir env m <+: p.dir → s.waiting env table = .ok [])

/-- The file is in the storage of none of the tables. -/
def outside (env : Env) (ms : List TableMeta) (e : ObjPath × ParquetFile) : Bool :=
  ms.all fun m => !(storageDir env m).isPrefixOf e.1.dir

section
variable {env : Env} {s : Db}

theorem outside_eq_false {ms : List TableMeta} {e : ObjPath × ParquetFile} :
    outside env ms e = false ↔ ∃ m ∈ ms, storageDir env m <+: e.1.dir := by
  simp [outside]

/-! ## Removing the storage -/

theorem yields_deleteStorages {R : Unit → Db → Prop} : ∀ (ms : List TableMeta) (s : Db),
    R () { s with store := s.store.filter (outside env ms) } → Yields (each (deleteTableStorage env) ms) s R
  | [], s, h => by
    have hf : s.store.filter (outside env []) = s.store := List.filter_eq_self.mpr fun _ _ => rfl
    rw [hf] at h
    exact yields_pure.mpr h
  | m :: ms, s, h => by
    rw [each, yields_bind]
    refine yields_deleteTableStorage (yields_deleteStorages ms _ ?_)
    have hf : (s.store.removeDir (storageDir env m)).filter (outside env ms) = s.store.filter (outside env (m :: ms)) := by
      unfold Store.removeDir
      rw [Store.filter_filter]
      rfl
    show R () { s with store := (s.store.removeDir (storageDir env m)).filter (outside env ms) }
    rw [hf]
    exact h

/-- What COMMIT does after its flush. -/
def publish (env : Env) : M QueryResult := do
  match (← get).activeTxn with
  | none => throw "No active transaction to COMMIT"
  | some txn =>
    emit .endTxn
    emit (.setCatalogInTransaction false)
    catalogForceSave
    each (deleteTableStorage env) txn.deferredDeletes
    if (← get).replayingWal || !env.walEnabled then pure ()
    else
      emit (.walAppend ⟨txn.walTxnId, .committed, ""⟩)
      emit .walCheckpoint
    return .message "COMMIT"

/-- The catalog is stored and the files outside the storage of dropped tables are left. -/
structure Committed (env : Env) (s : Db) (txn : Transaction) (t : Db) : Prop where
  begun : s.activeTxn = some txn
  store : t.store = s.store.filter (outside env txn.deferredDeletes)
  ctx : t.ctx = s.ctx
  catalog : t.catalog = s.catalog
  stored : t.catalogDoc = some s.catalog

theorem yields_publish : Yields (publish env) s fun _ t => ∃ txn, Committed env s txn t := by
  unfold publish catalogForceSave
  simp only [yields_bind, yields_get]
  cases ht : s.activeTxn with
  | none => exact yields_throw
  | some txn =>
    simp only [yields_bind, yields_emit]
    refine yields_deleteStorages _ _ ?_
    rw [yields_get]
    split
    · exact yields_pure.mpr ⟨txn, ht, rfl, rfl, rfl, rfl⟩
    · simp only [yields_bind, yields_emit, yields_pure]
      exact ⟨txn, ht, rfl, rfl, rfl, rfl⟩

/-! ## Rows that are left -/

theorem flatMap_filter_eq {α β : Type} (keep : α → Bool) (f : α → List β) : ∀ xs : List α,
    (xs.filter keep).flatMap f = xs.flatMap f ↔ ∀ x ∈ xs, keep x = false → f x = []
  | [] => by simp
  | x :: xs => by
    have ih := flatMap_filter_eq keep f xs
    rw [List.forall_mem_cons, ← ih]
    cases hk : keep x with
    | true =>
      rw [List.filter_cons_of_pos hk]
      simp
    | false =>
      rw [List.filter_cons_of_neg (by simp [hk])]
      simp only [List.flatMap_cons, forall_const]
      constructor
      · intro h
        -- what is left is a part of the rest
        have hsub := (List.filter_sublist (p := keep) (l := xs)).flatMap f
        have hlen := hsub.length_le
        rw [h, List.length_append] at hlen
        have hnil : f x = [] := List.eq_nil_of_length_eq_zero (by omega)
        rw [hnil, List.nil_append] at h
        exact ⟨hnil, h⟩
      · rintro ⟨hnil, h⟩
        rw [hnil, List.nil_append, h]

/-- No rows are lost exactly when the files that go have none. -/
theorem read_filter_perm {store : Store} {keep : ObjPath × ParquetFile → Bool} {dir : Dir} {columns : List String} :
    (Store.read (store.filter keep) dir columns).Perm (store.read dir columns) ↔
      ∀ e ∈ store.list dir, keep e = false → e.2.rows = [] := by
  have hlist : Store.list (store.filter keep) dir = (store.list dir).filter keep := by
    unfold Store.list
    rw [List.filter_filter, List.filter_filter]
    exact List.filter_congr fun e _ => Bool.and_comm _ _
  have hread : ∀ e : ObjPath × ParquetFile, e.2.read columns = [] ↔ e.2.rows = [] := by
    intro e
    unfold ParquetFile.read
    exact List.map_eq_nil_iff
  unfold Store.read
  rw [hlist]
  have hiff := flatMap_filter_eq keep (fun e => e.2.read columns) (store.list dir)
  simp only [hread] at hiff
  rw [← hiff]
  constructor
  · intro h
    exact (List.filter_sublist.flatMap _).eq_of_length h.length_eq
  · intro h
    rw [h]

/-! ## What COMMIT publishes -/

theorem FlushedTables.all {tables : List String} {t : Db} (h : FlushedTables env s tables t)
    (hall : ∀ u, s.HasWaiting u → u ∈ tables) (table : String) :
    ∃ rows, s.waiting env table = .ok rows ∧ (t.rows table).Perm (s.rows table ++ rows) := by
  by_cases hin : table ∈ tables
  · exact h.rows table hin
  · refine ⟨[], waiting_of_not_hasWaiting fun hw => hin (hall table hw), ?_⟩
    unfold Db.rows
    rw [h.other table hin, List.append_nil]

/-- A file of a transaction's flush, below the directory of a table, is a file of this table. -/
theorem new_file_dir (hf : ∀ u, s.HasWaiting u → Flushable s u) {table : String} {p : Provider}
    (hp : s.ctx.lookup table = some p) {e : ObjPath × ParquetFile} (he : p.dir <+: e.1.dir)
    (hnew : ∃ u q, s.HasWaiting u ∧ s.ctx.lookup u = some q ∧ e.1.dir = q.dir) : e.1.dir = p.dir := by
  obtain ⟨u, q, hw, hq, hd⟩ := hnew
  rw [hd] at he
  obtain rfl := (hf u hw).apart q table p hq hp he
  rw [hd, Option.some.inj (hq.symm.trans hp)]

theorem drops_nothing_iff {txn : Transaction} (htxn : s.activeTxn = some txn) {tables : List String} {t : Db}
    (h : FlushedTables env s tables t) (hall : ∀ u, s.HasWaiting u → u ∈ tables)
    (hf : ∀ u, s.HasWaiting u → Flushable s u) :
    (∀ table p, s.ctx.lookup table = some p → ∀ e ∈ t.store.list p.dir,
      outside env txn.deferredDeletes e = false → e.2.rows = []) ↔ DropsNothingLive env s := by
  obtain ⟨new, hstore, hnew⟩ := h.files (by rw [htxn]; rfl)
  -- the rows of the new files are those that were waiting
  have hrows : ∀ table p, s.ctx.lookup table = some p → ∃ rows, s.waiting env table = .ok rows ∧
      (Store.read new p.dir (p.schema.map (·.name))).Perm rows := by
    intro table p hp
    obtain ⟨rows, hw, hperm⟩ := h.all hall table
    refine ⟨rows, hw, ?_⟩
    have hread : t.rows table = s.rows table ++ Store.read new p.dir (p.schema.map (·.name)) := by
      rw [rows_of_lookup hp, rows_of_lookup (p := p) (by rw [h.ctx, hp]), hstore]
      exact Store.read_append _ _ _ _
    rw [hread] at hperm
    exact (List.perm_append_left_iff _).mp hperm
  have hempty : ∀ (p : Provider) (e : ObjPath × ParquetFile), e ∈ Store.list new p.dir →
      Store.read new p.dir (p.schema.map (·.name)) = [] → e.2.rows = [] := by
    intro p e he hnil
    have hread := List.flatMap_eq_nil_iff.mp hnil e he
    unfold ParquetFile.read at hread
    exact List.map_eq_nil_iff.mp hread
  constructor
  · intro hlost txn' htxn' m hm table p hp
    obtain rfl : txn = txn' := Option.some.inj (htxn.symm.trans htxn')
    have hsub := hlost table p hp
    rw [hstore, Store.list_append] at hsub
    refine ⟨fun e he hd => ?_, fun hd => ?_⟩
    · exact hsub e (List.mem_append_left _ he) (outside_eq_false.mpr ⟨m, hm, hd⟩)
    · obtain ⟨rows, hw, hperm⟩ := hrows table p hp
      have hnil : Store.read new p.dir (p.schema.map (·.name)) = [] := by
        refine List.flatMap_eq_nil_iff.mpr fun e he => ?_
        have hdir := new_file_dir hf hp (Store.mem_list.mp he).2 (hnew e (Store.mem_list.mp he).1)
        have hgone := hsub e (List.mem_append_right _ he) (outside_eq_false.mpr ⟨m, hm, hdir ▸ hd⟩)
        unfold ParquetFile.read
        rw [hgone]
        rfl
      rw [hnil] at hperm
      rw [hw, hperm.symm.eq_nil]
  · intro hlive table p hp e he hout
    obtain ⟨m, hm, hd⟩ := outside_eq_false.mp hout
    rw [hstore, Store.list_append] at he
    obtain ⟨hold, hwait⟩ := hlive txn htxn m hm table p hp
    rcases List.mem_append.mp he with he | he
    · exact hold e he hd
    · have hdir := new_file_dir hf hp (Store.mem_list.mp he).2 (hnew e (Store.mem_list.mp he).1)
      obtain ⟨rows, hw, hperm⟩ := hrows table p hp
      obtain rfl : rows = [] := Except.ok.inj (hw.symm.trans (hwait (hdir ▸ hd)))
      exact hempty p e he hperm.eq_nil

theorem forgetStatistics_of_forgetFiles {c c' : CatalogData} (h : c.forgetFiles = c'.forgetFiles) :
    c.forgetStatistics = c'.forgetStatistics := by
  have hforget : ∀ c : CatalogData, c.forgetFiles.forgetStatistics = c.forgetStatistics := by
    intro c
    exact forgetStatistics_mapValues fun _ _ => rfl
  rw [← hforget c, h, hforget]

theorem Committed.published_iff {txn : Transaction} (htxn : s.activeTxn = some txn) {tables : List String} {u t : Db}
    (h : FlushedTables env s tables u) (hall : ∀ v, s.HasWaiting v → v ∈ tables)
    (hf : ∀ v, s.HasWaiting v → Flushable s v) (hc : Committed env u txn t) :
    Published env s t ↔ DropsNothingLive env s := by
  have hrows : ∀ table p, s.ctx.lookup table = some p →
      ((t.rows table).Perm (u.rows table) ↔ ∀ e ∈ u.store.list p.dir,
        outside env txn.deferredDeletes e = false → e.2.rows = []) := by
    intro table p hp
    unfold Db.rows Db.relation
    rw [hc.ctx, hc.store, h.ctx, hp]
    exact read_filter_perm
  rw [← drops_nothing_iff htxn h hall hf]
  constructor
  · intro hpub table p hp
    refine (hrows table p hp).mp ?_
    obtain ⟨rows, hw, hperm⟩ := hpub.rows table
    obtain ⟨rows', hw', hperm'⟩ := h.all hall table
    obtain rfl : rows = rows' := Except.ok.inj (hw.symm.trans hw')
    exact hperm.trans hperm'.symm
  · intro hlost
    refine ⟨fun table => ?_, fun table => by rw [hc.ctx, h.ctx], ?_, by rw [hc.stored, hc.catalog]⟩
    · obtain ⟨rows, hw, hperm⟩ := h.all hall table
      refine ⟨rows, hw, List.Perm.trans ?_ hperm⟩
      cases hp : s.ctx.lookup table with
      | none =>
        unfold Db.rows Db.relation
        rw [hc.ctx, h.ctx, hp]
        exact List.Perm.refl _
      | some p => exact (hrows table p hp).mpr (hlost table p hp)
    · rw [hc.catalog]
      exact forgetStatistics_of_forgetFiles h.catalog

theorem SameTables.published_iff {s₁ t : Db} (h : SameTables s s₁) : Published env s₁ t ↔ Published env s t := by
  constructor
  · rintro ⟨hrows, htables, hcat, hdoc⟩
    refine ⟨fun table => ?_, fun table => by rw [htables, h.ctx], hcat.trans h.catalog, hdoc⟩
    rw [← h.waiting, ← h.rows]
    exact hrows table
  · rintro ⟨hrows, htables, hcat, hdoc⟩
    refine ⟨fun table => ?_, fun table => by rw [htables, h.ctx], hcat.trans h.catalog.symm, hdoc⟩
    rw [h.waiting, h.rows]
    exact hrows table

theorem SameTables.drops_nothing {s₁ : Db} (h : SameTables s s₁) : DropsNothingLive env s₁ ↔ DropsNothingLive env s := by
  unfold DropsNothingLive
  simp only [h.activeTxn, h.ctx, h.store, h.waiting]

theorem yields_commit {fuel : Nat} {sql : String} (hcommit : env.parse sql = .commit)
    (hs : Succeeds (execute env (fuel + 1) sql) s) : Yields (execute env (fuel + 1) sql) s fun _ t =>
      Succeeds (prepare env sql) s ∧ ∃ txn, Committed env ((prepare env sql).final s) txn t := by
  have harrive : Succeeds (arrive env sql) s := by
    unfold execute at hs
    rw [succeeds_bind] at hs
    obtain ⟨u, hu, -⟩ := hs
    exact ⟨u, hu⟩
  refine yields_arrive_dispatch (R := fun _ t =>
    Succeeds (prepare env sql) s ∧ ∃ txn, Committed env ((prepare env sql).final s) txn t) fun s' hs' => ?_
  rw [hcommit]
  show Yields (flushAll env >>= fun _ => publish env) s' _
  rw [yields_bind]
  intro n hn
  have hprepare : Succeeds (prepare env sql) s := by
    refine (prepare_eq sql s).1.mpr ⟨harrive, n, ?_⟩
    rw [hcommit, ← hs']
    exact hn
  have hfinal : (prepare env sql).final s = (flushAll env).final s' := by
    rw [(prepare_eq sql s).2 harrive, hcommit, ← hs']
    rfl
  refine yields_publish.mono fun r t ht => ?_
  obtain ⟨txn, ht⟩ := ht
  rw [← hfinal] at ht
  refine yields_leave_control rfl ⟨hprepare, txn, ht⟩ ⟨hprepare, txn, ?_⟩
  exact ⟨ht.begun, ht.store, ht.ctx, ht.catalog, by rw [← ht.catalog]⟩

theorem activeTxn_prepare (sql : String) (s : Db) : ((prepare env sql).final s).activeTxn = s.activeTxn := by
  have hflush : Emits Op.Upkeep (handlerFlush env (env.parse sql)) := by
    unfold handlerFlush
    split
    · exact upkeep_flushAll
    · exact upkeep_flushAll
    · exact upkeep_flushAll
    · exact upkeep_flushAll
    · exact upkeep_flushTable _
    · split
      · exact upkeep_flushTable _
      · exact emits_pure _
    · exact emits_pure _
  have hprepare : Emits Op.Upkeep (prepare env sql) := (upkeep_arrive sql).bind fun _ => hflush.bind fun _ => emits_pure _
  exact congrArg Settled.activeTxn (hprepare.final_eq (fun s _ h => h.settled s) s)

/-- **COMMIT publishes what the transaction sees** exactly when the storage of the dropped tables holds no rows of a
table, where the waiting rows go to directories that no other table reads. -/
theorem commit_publishes_iff {fuel : Nat} {sql : String} (hcommit : env.parse sql = .commit)
    (hs : Succeeds (execute env (fuel + 1) sql) s) (hf : ∀ table, s.HasWaiting table → Flushable s table) :
    Published env s ((execute env (fuel + 1) sql).final s) ↔ DropsNothingLive env s := by
  have hsame := @sameTables_arrivedAt env s
  obtain ⟨r, hr⟩ := hs
  obtain ⟨⟨a, ha⟩, txn, hc⟩ := yields_commit hcommit ⟨r, hr⟩ r hr
  have htxn : (arrivedAt env s).activeTxn = some txn := by
    rw [hsame.activeTxn, ← activeTxn_prepare sql s]
    exact hc.begun
  have hsafe : CompactsSafely env (arrivedAt env s) := by
    refine Or.inr (Or.inl ?_)
    rw [htxn]
    rfl
  have hflush := yields_prepare hf hsafe sql a ha
  rw [← hsame.published_iff, ← hsame.drops_nothing]
  refine hc.published_iff htxn hflush (fun u hw => ?_) fun u hw => ?_
  · refine (flushedBefore_iff ⟨a, ha⟩ ((hsame.hasWaiting u).mp hw)).mp ?_
    unfold FlushedFirst
    rw [hcommit]
    trivial
  · exact (hf u ((hsame.hasWaiting u).mp hw)).congr fun v => by rw [hsame.ctx]

end

/-! ## DROP and CREATE in one transaction -/

/-- A transaction that drops `t` and creates it anew. -/
def recreateEnv : Env := { flagEnv with
  parse := fun sql =>
    if sql = "DROP TABLE t" then .dropTable "t" false
    else if sql = "CREATE TABLE t (a BOOLEAN)" then
      .createTable ⟨"t", false, [⟨"a", "BOOLEAN", true⟩], [], [], none, sql⟩
    else if sql = "COMMIT" then .commit
    else flagEnv.parse sql }

/-- The state before COMMIT. -/
def beforeCommit (sqls : List String) : Db := (statements recreateEnv 1 ("BEGIN" :: sqls)).final flagDb

/-- **A table that is dropped and created in one transaction is empty after COMMIT**, whatever was inserted. -/
theorem commit_loses_created_table :
    let s := beforeCommit ["DROP TABLE t", "CREATE TABLE t (a BOOLEAN)", "INSERT INTO t VALUES (FALSE)"]
    Succeeds (execute recreateEnv 1 "COMMIT") s ∧ s.waiting recreateEnv "t" = .ok [[.bool false]] ∧
      ((execute recreateEnv 1 "COMMIT").final s).relation "t" = some ⟨flagSchema, []⟩ ∧
      ¬ Published recreateEnv s ((execute recreateEnv 1 "COMMIT").final s) := by
  intro s
  have hwait : s.waiting recreateEnv "t" = .ok [[.bool false]] := by decide +kernel
  have hrel : ((execute recreateEnv 1 "COMMIT").final s).relation "t" = some ⟨flagSchema, []⟩ := by decide +kernel
  refine ⟨by decide +kernel, hwait, hrel, fun hpub => ?_⟩
  obtain ⟨rows, hrows, hperm⟩ := hpub.rows "t"
  obtain rfl := Except.ok.inj (hwait.symm.trans hrows)
  unfold Db.rows at hperm
  rw [hrel] at hperm
  simpa using hperm.length_eq

/-- Without the DROP the row is published. -/
theorem commit_publishes_row :
    Published recreateEnv (beforeCommit ["INSERT INTO t VALUES (FALSE)"])
      ((execute recreateEnv 1 "COMMIT").final (beforeCommit ["INSERT INTO t VALUES (FALSE)"])) := by
  refine (commit_publishes_iff rfl (by decide +kernel) fun table _ => ?_).mpr ?_
  · refine (flag_housed ?_ ?_ ?_ ?_).flushable table <;> decide +kernel
  · intro txn htxn m hm
    have hnone : (beforeCommit ["INSERT INTO t VALUES (FALSE)"]).activeTxn.map (·.deferredDeletes) = some [] := by
      decide +kernel
    rw [htxn] at hnone
    have hnil : txn.deferredDeletes = [] := Option.some.inj hnone
    rw [hnil] at hm
    exact absurd hm List.not_mem_nil

end PotatoDB
