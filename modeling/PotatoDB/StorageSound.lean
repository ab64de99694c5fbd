import PotatoDB.Transactions

/-!
# What the storage functions leave

One lemma for each function that changes files or DataFusion's tables: the state it leaves when
it succeeds.
-/

namespace PotatoDB

open Oplog Oplog.Prog
open Machine (apply)

/-! ## Files -/

theorem Store.filter_filter (s : Store) (p q : ObjPath × ParquetFile → Bool) :
    (s.filter p).filter q = s.filter fun e => p e && q e := by
  rw [List.filter_filter]
  simp [Bool.and_comm]

theorem Store.mem_list {s : Store} {dir : Dir} {e : ObjPath × ParquetFile} :
    e ∈ s.list dir ↔ e ∈ s ∧ dir <+: e.1.dir := by
  simp [Store.list]

/-- Deleting the listed files of a directory empties it. -/
theorem Store.delete_listed (s : Store) (dir : Dir) :
    (s.filter fun e => decide (e.1 ∉ (s.list dir).map (·.1))) = s.removeDir dir := by
  unfold Store.removeDir
  refine List.filter_congr fun e he => ?_
  by_cases hd : dir <+: e.1.dir
  · have hm : e.1 ∈ (s.list dir).map (·.1) := List.mem_map_of_mem (mem_list.mpr ⟨he, hd⟩)
    simp [hm, List.isPrefixOf_iff_prefix.mpr hd]
  · have hm : e.1 ∉ (s.list dir).map (·.1) := by
      intro hm
      obtain ⟨e', he', heq⟩ := List.mem_map.mp hm
      exact hd (heq ▸ (mem_list.mp he').2)
    rw [← List.isPrefixOf_iff_prefix, Bool.not_eq_true] at hd
    simp [hm, hd]

section
variable {s : Db}

theorem yields_deleteFiles {α : Type} (path : α → ObjPath) {R : Unit → Db → Prop} : ∀ (xs : List α) (s : Db),
    R () { s with store := s.store.filter fun e => decide (e.1 ∉ xs.map path) } →
    Yields (each (fun x => emit (Op.deleteFile (path x))) xs : M Unit) s R
  | [], s, h => by
    have hf : (s.store.filter fun e => decide (e.1 ∉ ([] : List α).map path)) = s.store := by simp
    rw [hf] at h
    simpa [each] using h
  | x :: xs, s, h => by
    rw [each, yields_bind, yields_emit]
    refine yields_deleteFiles path xs _ ?_
    have hf : ((s.store.delete (path x)).filter fun e => decide (e.1 ∉ xs.map path)) =
        s.store.filter fun e => decide (e.1 ∉ (x :: xs).map path) := by
      unfold Store.delete
      rw [Store.filter_filter]
      refine List.filter_congr fun e _ => ?_
      simp
    show R () { s with store := (s.store.delete (path x)).filter _ }
    rw [hf]
    exact h

theorem yields_deleteParquetFiles {table : String} {R : Unit → Db → Prop}
    (h : R () { s with store := s.store.removeDir (objPath table) }) : Yields (deleteParquetFiles table) s R := by
  unfold deleteParquetFiles listParquetFiles
  simp only [yields_bind, yields_get, yields_pure]
  refine yields_deleteFiles id _ _ ?_
  rw [List.map_id, Store.delete_listed]
  exact h

/-- The directory that DROP removes. -/
def storageDir (env : Env) (m : TableMeta) : Dir := if env.isLocalDisk then fsPath m.path else objPath m.name

theorem yields_deleteTableStorage {env : Env} {m : TableMeta} {R : Unit → Db → Prop}
    (h : R () { s with store := s.store.removeDir (storageDir env m) }) :
    Yields (deleteTableStorage env m) s R := by
  unfold deleteTableStorage
  unfold storageDir at h
  by_cases hl : env.isLocalDisk = true
  · rw [if_pos hl] at h ⊢
    exact yields_emit.mpr h
  · rw [if_neg hl] at h ⊢
    exact yields_deleteParquetFiles h

theorem yields_selectStar {table : String} {R : Relation → Db → Prop}
    (h : ∀ r, s.relation table = some r → R r s) : Yields (selectStar table) s R := by
  unfold selectStar
  simp only [yields_bind, yields_get]
  cases hr : s.relation table with
  | none => simp
  | some r => simpa using h r hr

theorem yields_tableMeta {name : String} {R : TableMeta → Db → Prop}
    (h : ∀ m, s.catalog.tables.lookup name = some m → R m s) : Yields (tableMeta name) s R := by
  unfold tableMeta
  simp only [yields_bind, yields_get]
  cases hm : s.catalog.tables.lookup name with
  | none => simp
  | some m => simpa using h m hm

/-! ## Inserting -/

/-- The state after a new file in a directory, the clock read once. -/
def Db.withFile (s : Db) (dir : Dir) (columns : List String) (rows : List Row) (t : Nat) : Db :=
  { s with
    counters := { s.counters with clockReadings := s.counters.clockReadings + 1 }
    store := s.store ++ [(⟨dir, s.nextFile⟩, ⟨columns, rows, t⟩)]
    nextFile := s.nextFile + 1 }

theorem yields_insertInto {env : Env} {table : String} {columns : Option (List String)} {batches : List RecordBatch}
    {R : Unit → Db → Prop}
    (h : ∀ p rows, s.ctx.lookup table = some p → insertedRows env p.schema columns batches = .ok rows →
      (rows = [] → R () s) ∧
      (rows ≠ [] → R () (s.withFile p.dir (p.schema.map (·.name)) rows (env.time s.counters.clockReadings)))) :
    Yields (insertInto env table columns batches) s R := by
  unfold insertInto
  simp only [yields_bind, yields_get]
  cases hp : s.ctx.lookup table with
  | none => simp
  | some p =>
    simp only [yields_bind, yields_check]
    intro rows hrows
    obtain ⟨hnil, hcons⟩ := h p rows hp hrows
    cases rows with
    | nil => simpa using hnil rfl
    | cons row rows =>
      simp only [List.isEmpty_cons, Bool.false_eq_true, if_false]
      unfold now
      simp only [yields_bind, yields_get, yields_emit, yields_pure]
      exact hcons (by simp)

/-! ## File statistics -/

theorem yields_refreshLight {table : String} {R : Unit → Db → Prop}
    (h : ∀ stats dirty, R () { s with catalog := s.catalog.setFileStats table stats, catalogDirty := dirty })
    (hnone : s.catalog.tables.lookup table = none → R () s) : Yields (refreshTableFileStatsLight table) s R := by
  unfold refreshTableFileStatsLight listParquetFiles
  simp only [yields_bind, yields_get, yields_pure]
  cases hm : s.catalog.tables.lookup table with
  | none => simpa [hm] using hnone hm
  | some m =>
    simp only [Option.isSome_some, if_true]
    unfold modifyCatalog catalogSave
    simp only [yields_bind, yields_get, yields_emit]
    split
    · exact yields_pure.mpr (h _ s.catalogDirty)
    · exact yields_emit.mpr (h _ true)

/-! ## Rewriting a table -/

/-- What a rewrite of a table leaves: its old files are gone, one new file holds the rows. -/
structure Rewritten (env : Env) (s : Db) (table : String) (m : TableMeta) (schema : Schema)
    (batches : List RecordBatch) (t : Db) : Prop where
  ctx : t.ctx = (s.ctx.erase table).insert table ⟨objPath m.path, schema⟩
  store : ∃ rows time, (hasData batches = true → insertedRows env schema none batches = .ok rows) ∧
    (hasData batches = false → rows = []) ∧
    t.store = s.store.removeDir (objPath table) ++
      if rows = [] then [] else [(⟨objPath m.path, s.nextFile⟩, ⟨schema.map (·.name), rows, time⟩)]
  nextFile : s.nextFile ≤ t.nextFile
  catalog : ∃ stats, t.catalog = s.catalog.setFileStats table stats
  writeBuffer : t.writeBuffer = s.writeBuffer
  activeTxn : t.activeTxn = s.activeTxn
  cache : t.uniquenessCache = (Machine.apply s (Op.cacheInvalidate table)).uniquenessCache

theorem yields_writeRewritten {env : Env} {table : String} {schema : Schema} {batches original : List RecordBatch}
    {R : Unit → Db → Prop} (hnone : hasData batches = false → R () s)
    (hsome : hasData batches = true → Yields (insertInto env table none batches) s R) :
    Yields (writeRewritten env table schema batches original) s R := by
  unfold writeRewritten
  by_cases hd : hasData batches = true
  · rw [if_pos hd]
    refine yields_attempt_bind ?_ fun e t => ?_
    · simp only [yields_bind, yields_check]
      intro _ _
      exact (hsome hd).mono fun _ _ h => yields_pure.mpr h
    · simp
  · rw [if_neg hd]
    rw [Bool.not_eq_true] at hd
    simpa using hnone hd

theorem yields_diskSnapshot {table : String} {batches : List RecordBatch} {flag : Bool}
    {R : List RecordBatch → Db → Prop} (h : ∀ bs, R bs s) : Yields (diskSnapshot table batches flag) s R := by
  unfold diskSnapshot
  by_cases hf : flag = true
  · rw [if_pos hf]
    simpa using h batches
  · rw [if_neg hf, yields_bind]
    exact yields_selectStar fun r _ => by simpa using h r.collect

theorem yields_rewriteTable {env : Env} {table : String} {schema : Schema} {batches : List RecordBatch} {flag : Bool}
    {R : Unit → Db → Prop}
    (h : ∀ m schema' t, s.catalog.tables.lookup table = some m → columnsToSchema env m.columns = .ok schema' →
      Rewritten env s table m schema' batches t → R () t) : Yields (rewriteTable env table schema batches flag) s R := by
  unfold rewriteTable registerListingTable
  rw [yields_bind]
  refine yields_tableMeta fun m hm => ?_
  rw [yields_bind, yields_emit, yields_bind]
  refine yields_diskSnapshot fun original => ?_
  rw [yields_bind, yields_emit, yields_bind]
  refine yields_deleteParquetFiles ?_
  rw [yields_bind, yields_check]
  intro tableSchema hschema
  rw [yields_bind, yields_emit, yields_bind]
  have hlook : ((s.ctx.erase table).insert table ⟨objPath m.path, tableSchema⟩).lookup table =
      some ⟨objPath m.path, tableSchema⟩ := AList.lookup_insert _
  -- the statistics are refreshed after the rows are written, or after nothing is
  have hfinish : ∀ t, t.catalog = s.catalog → (∀ stats dirty, Rewritten env s table m tableSchema batches
      { t with catalog := s.catalog.setFileStats table stats, catalogDirty := dirty }) →
      Yields (refreshTableFileStatsLight table) t R := by
    intro t hcat hw
    refine yields_refreshLight (fun stats dirty => ?_) fun hn => ?_
    · rw [hcat]
      exact h m tableSchema _ hm hschema (hw stats dirty)
    · rw [hcat, hm] at hn
      cases hn
  refine yields_writeRewritten (fun hd => hfinish _ rfl fun stats dirty => ?_) fun hd => ?_
  · exact ⟨rfl, ⟨[], 0, fun h' => absurd (hd.symm.trans h') nofun, fun _ => rfl, (List.append_nil _).symm⟩,
      Nat.le_refl _, ⟨stats, rfl⟩, rfl, rfl, rfl⟩
  · refine yields_insertInto fun p rows hp hrows => ?_
    obtain rfl : _ = p := Option.some.inj (hlook.symm.trans hp)
    have hempty : hasData batches = false → rows = [] := fun h' => absurd (hd.symm.trans h') nofun
    refine ⟨fun hnil => hfinish _ rfl fun stats dirty => ?_, fun hne => hfinish _ rfl fun stats dirty => ?_⟩
    · refine ⟨rfl, ⟨rows, 0, fun _ => hrows, hempty, ?_⟩, Nat.le_refl _, ⟨stats, rfl⟩, rfl, rfl, rfl⟩
      rw [if_pos hnil]
      exact (List.append_nil _).symm
    · refine ⟨rfl, ⟨rows, env.time s.counters.clockReadings, fun _ => hrows, hempty, ?_⟩, Nat.le_succ _, ⟨stats, rfl⟩, rfl, rfl, rfl⟩
      rw [if_neg hne]
      rfl

end

end PotatoDB
