import PotatoDB.StorageSound
import PotatoDB.Constraints

/-!
# Restoring a snapshot

ROLLBACK and ROLLBACK TO rebuild the state of a snapshot from the files that are still there and
the rows that were backed up. The result is that state when each table has the one or the other.
-/

namespace PotatoDB

open Oplog Oplog.Prog
open Machine (apply)

/-! ## Catalogs up to file statistics -/

/-- The catalog without the listing of files it caches. -/
def CatalogData.forgetFiles (c : CatalogData) : CatalogData :=
  { c with tables := c.tables.mapValues fun _ m => { m with fileStats := [] } }

theorem forgetFiles_setFileStats (c : CatalogData) (table : String) (stats : List FileStats) :
    (c.setFileStats table stats).forgetFiles = c.forgetFiles := by
  unfold CatalogData.forgetFiles CatalogData.setFileStats Map.modify
  rw [Map.mapValues_mapValues]
  have hf : (fun (k : String) (m : TableMeta) =>
      { (if k = table then { m with fileStats := stats } else m) with fileStats := [] }) =
      fun _ m => { m with fileStats := [] } := by
    funext k m
    by_cases hk : k = table <;> simp [hk]
  rw [hf]

theorem lookup_forgetFiles {c c' : CatalogData} (h : c.forgetFiles = c'.forgetFiles) {t : String} {m : TableMeta}
    (hm : c.tables.lookup t = some m) :
    ∃ m', c'.tables.lookup t = some m' ∧ m.columns = m'.columns ∧ m.path = m'.path := by
  have ht : c.forgetFiles.tables.lookup t = c'.forgetFiles.tables.lookup t := by rw [h]
  unfold CatalogData.forgetFiles at ht
  simp only [Map.lookup_mapValues, hm, Option.map_some] at ht
  obtain ⟨m', hm', he⟩ := Option.map_eq_some_iff.mp ht.symm
  simp only [TableMeta.mk.injEq] at he
  exact ⟨m', hm', he.2.1.symm, he.2.2.1.symm⟩

/-! ## Snapshots -/

/-- Each table of the catalog has a directory of its own, which DataFusion reads with the columns of
the catalog, and its rows need no cast. -/
structure Anchored (env : Env) (s : Db) : Prop where
  fresh : ∀ e ∈ s.store, e.1.file < s.nextFile
  apart : ∀ t ∈ s.catalog.tables, ∀ u ∈ s.catalog.tables, objPath t <+: objPath u → t = u
  table : ∀ t m, s.catalog.tables.lookup t = some m → m.name = t ∧ objPath m.path = objPath t ∧
    ∃ schema, columnsToSchema env m.columns = .ok schema ∧ s.ctx.lookup t = some ⟨objPath t, schema⟩
  typed : ∀ t ∈ s.catalog.tables, ∀ r, s.relation t = some r →
    ∀ row ∈ r.rows, castRow env r.schema r.schema.names row = .ok row

/-- Each table of the snapshot has its old files, or its rows are backed up. -/
structure Recoverable (s₀ : Db) (backups : Map (List RecordBatch)) (s : Db) : Prop where
  kept : ∀ t ∈ s₀.catalog.tables, backups.lookup t = none →
    ((s.store.list (objPath t)).filter fun e => decide (e.1.file < s₀.nextFile)) = s₀.store.list (objPath t)
  saved : ∀ t ∈ s₀.catalog.tables, ∀ b, backups.lookup t = some b →
    ∃ r, s₀.relation t = some r ∧ allRows b = r.rows

/-- The directories of the new tables hold no file of the snapshot whose table is not backed up, and
every file numbered from `n` on is in a directory of a table. -/
structure Ready (env : Env) (catalog : CatalogData) (files : Map (List ObjPath)) (backups : Map (List RecordBatch))
    (n : Nat) (s : Db) : Prop where
  spare : ∀ u m, s.catalog.tables.lookup u = some m → u ∉ catalog.tables → ∀ entry ∈ files.pairs,
    backups.lookup entry.1 = none → ∀ p ∈ entry.2, ¬ storageDir env m <+: p.dir
  covered : ∀ e ∈ s.store, n ≤ e.1.file → (∃ t ∈ catalog.tables, objPath t <+: e.1.dir) ∨
    ∃ u m, s.catalog.tables.lookup u = some m ∧ u ∉ catalog.tables ∧ storageDir env m <+: e.1.dir

/-- The catalog up to file statistics, the rows of each of its tables and the write buffer. -/
structure SameContents (s₀ s : Db) : Prop where
  catalog : s.catalog.forgetFiles = s₀.catalog.forgetFiles
  rows : ∀ t ∈ s₀.catalog.tables, s.relation t = s₀.relation t
  buffer : s.writeBuffer = s₀.writeBuffer

/-- The contents are those of `s₀`, and no file numbered from `n` on is outside the directories of its tables. -/
structure Restored (s₀ : Db) (n : Nat) (s : Db) : Prop extends SameContents s₀ s where
  strays : ∀ e ∈ s.store, n ≤ e.1.file → ∃ t ∈ s₀.catalog.tables, objPath t <+: e.1.dir

theorem prefix_cases {a b d : Dir} (ha : a <+: d) (hb : b <+: d) : a <+: b ∨ b <+: a := by
  rcases Nat.le_total a.length b.length with h | h
  · exact Or.inl (List.prefix_of_prefix_length_le ha hb h)
  · exact Or.inr (List.prefix_of_prefix_length_le hb ha h)

section
variable {env : Env} {s₀ : Db}

theorem Anchored.unique (h : Anchored env s₀) {t u : String} (ht : t ∈ s₀.catalog.tables)
    (hu : u ∈ s₀.catalog.tables) {d : Dir} (hd : objPath t <+: d) (hd' : objPath u <+: d) : t = u := by
  rcases prefix_cases hd hd' with hp | hp
  · exact h.apart t ht u hu hp
  · exact (h.apart u hu t ht hp).symm

theorem lookup_fileSnapshot (s : Db) (t : String) :
    s.fileSnapshot.lookup t = (s.catalog.tables.lookup t).map fun _ => (s.store.list (objPath t)).map (·.1) :=
  Map.lookup_mapValues _ _ _

/-! ## The files that go -/

theorem yields_deleteOthers {keep : List ObjPath} {R : Unit → Db → Prop} : ∀ (paths : List ObjPath) (s : Db),
    R () { s with store := s.store.filter fun e => decide (e.1 ∈ paths → e.1 ∈ keep) } →
    Yields (each (fun path => if path ∈ keep then pure () else emit (Op.deleteFile path)) paths : M Unit) s R
  | [], s, h => by
    have hf : (s.store.filter fun e => decide (e.1 ∈ ([] : List ObjPath) → e.1 ∈ keep)) = s.store := by simp
    rw [hf] at h
    simpa [each] using h
  | p :: ps, s, h => by
    rw [each, yields_bind]
    by_cases hk : p ∈ keep
    · rw [if_pos hk, yields_pure]
      refine yields_deleteOthers ps s ?_
      have hf : (s.store.filter fun e => decide (e.1 ∈ ps → e.1 ∈ keep)) =
          s.store.filter fun e => decide (e.1 ∈ p :: ps → e.1 ∈ keep) := by
        refine List.filter_congr fun e _ => decide_eq_decide.mpr ?_
        rw [List.mem_cons]
        exact ⟨fun h hm => hm.elim (fun he => he ▸ hk) h, fun h hm => h (Or.inr hm)⟩
      rw [hf]
      exact h
    · rw [if_neg hk, yields_emit]
      refine yields_deleteOthers ps _ ?_
      have hf : ((s.store.delete p).filter fun e => decide (e.1 ∈ ps → e.1 ∈ keep)) =
          s.store.filter fun e => decide (e.1 ∈ p :: ps → e.1 ∈ keep) := by
        unfold Store.delete
        rw [Store.filter_filter]
        refine List.filter_congr fun e _ => ?_
        rw [← Bool.decide_and]
        refine decide_eq_decide.mpr ?_
        rw [List.mem_cons]
        constructor
        · rintro ⟨hne, hps⟩ (he | hm)
          · exact absurd he hne
          · exact hps hm
        · intro himp
          exact ⟨fun he => hk (he ▸ himp (Or.inl he)), fun hm => himp (Or.inr hm)⟩
      show R () { s with store := (s.store.delete p).filter _ }
      rw [hf]
      exact h

/-- The files that a snapshot does not know are deleted from the directories of its tables. -/
def knownFile (entries : List (String × List ObjPath)) (e : ObjPath × ParquetFile) : Bool :=
  entries.all fun entry => !(objPath entry.1).isPrefixOf e.1.dir || decide (e.1 ∈ entry.2)

theorem yields_deleteNewFiles {R : Unit → Db → Prop} : ∀ (entries : List (String × List ObjPath)) (s : Db),
    R () { s with store := s.store.filter (knownFile entries) } →
    Yields (each (fun entry => do
      each (fun path => if path ∈ entry.2 then pure () else emit (Op.deleteFile path))
        (← listParquetFiles entry.1)) entries : M Unit) s R
  | [], s, h => by
    have hf : s.store.filter (knownFile []) = s.store := List.filter_eq_self.mpr fun _ _ => rfl
    rw [hf] at h
    simpa [each] using h
  | entry :: entries, s, h => by
    rw [each, yields_bind]
    unfold listParquetFiles
    simp only [yields_bind, yields_get, yields_pure]
    refine yields_deleteOthers _ _ (yields_deleteNewFiles entries _ ?_)
    have hf : ((s.store.filter fun e => decide (e.1 ∈ (s.store.list (objPath entry.1)).map (·.1) → e.1 ∈ entry.2)).filter
        (knownFile entries)) = s.store.filter (knownFile (entry :: entries)) := by
      rw [Store.filter_filter]
      refine List.filter_congr fun e he => ?_
      have hlist : e.1 ∈ (s.store.list (objPath entry.1)).map (·.1) ↔ objPath entry.1 <+: e.1.dir := by
        constructor
        · intro hm
          obtain ⟨e', he', heq⟩ := List.mem_map.mp hm
          exact heq ▸ (Store.mem_list.mp he').2
        · intro hp
          exact List.mem_map_of_mem (Store.mem_list.mpr ⟨he, hp⟩)
      show (_ && knownFile entries e) =
        ((!(objPath entry.1).isPrefixOf e.1.dir || decide (e.1 ∈ entry.2)) && knownFile entries e)
      congr 1
      rw [Bool.eq_iff_iff, decide_eq_true_eq, hlist, ← List.isPrefixOf_iff_prefix]
      cases (objPath entry.1).isPrefixOf e.1.dir <;> simp
    rw [← hf] at h
    exact h

/-- The directories of the tables that the snapshot does not have. -/
def spareDir (env : Env) (fileSnapshot : Map (List ObjPath)) (entries : List (String × TableMeta))
    (e : ObjPath × ParquetFile) : Bool :=
  entries.all fun entry => (fileSnapshot.lookup entry.1).isSome || !(storageDir env entry.2).isPrefixOf e.1.dir

theorem yields_dropNewTables {fileSnapshot : Map (List ObjPath)} {R : Unit → Db → Prop} :
    ∀ (entries : List (String × TableMeta)) (s : Db),
    (∀ ctx, R () { s with store := s.store.filter (spareDir env fileSnapshot entries), ctx := ctx }) →
    Yields (each (fun entry =>
      if (fileSnapshot.lookup entry.1).isSome then pure ()
      else do
        deleteTableStorage env entry.2
        emit (.deregisterTable entry.1)) entries : M Unit) s R
  | [], s, h => by
    have hf : s.store.filter (spareDir env fileSnapshot []) = s.store := List.filter_eq_self.mpr fun _ _ => rfl
    rw [hf] at h
    simpa [each] using h s.ctx
  | entry :: entries, s, h => by
    rw [each, yields_bind]
    by_cases hs : (fileSnapshot.lookup entry.1).isSome = true
    · rw [if_pos hs, yields_pure]
      refine yields_dropNewTables entries s fun ctx => ?_
      have hf : spareDir env fileSnapshot (entry :: entries) = spareDir env fileSnapshot entries := by
        funext e
        rw [spareDir, List.all_cons, hs, Bool.true_or, Bool.true_and]
        rfl
      rw [← hf]
      exact h ctx
    · rw [if_neg hs, yields_bind]
      refine yields_deleteTableStorage ?_
      rw [yields_emit]
      refine yields_dropNewTables entries _ fun ctx => ?_
      have hf : ((s.store.removeDir (storageDir env entry.2)).filter (spareDir env fileSnapshot entries)) =
          s.store.filter (spareDir env fileSnapshot (entry :: entries)) := by
        unfold Store.removeDir
        rw [Store.filter_filter]
        refine List.filter_congr fun e _ => ?_
        rw [Bool.not_eq_true] at hs
        rw [spareDir, spareDir, List.all_cons, hs, Bool.false_or]
      show R () { s with store := (s.store.removeDir _).filter _, ctx := ctx }
      rw [hf]
      exact h ctx

/-! ## Registering the tables -/

theorem yields_register {R : Unit → Db → Prop} : ∀ (specs : List (String × Schema × String)) (s : Db),
    (specs.map (·.1)).Nodup →
    (∀ ctx, (∀ spec ∈ specs, AList.lookup spec.1 ctx = some ⟨objPath spec.2.2, spec.2.1⟩) →
      (∀ n, n ∉ specs.map (·.1) → AList.lookup n ctx = s.ctx.lookup n) → R () { s with ctx := ctx }) →
    Yields (each (fun spec => registerListingTable spec.1 spec.2.1 spec.2.2) specs : M Unit) s R
  | [], s, _, h => by
    simpa [each] using h s.ctx (by simp) fun _ _ => rfl
  | spec :: specs, s, hn, h => by
    rw [List.map_cons, List.nodup_cons] at hn
    rw [each, yields_bind, registerListingTable, yields_emit]
    refine yields_register specs _ hn.2 fun ctx hin hout => ?_
    refine h ctx (fun spec' hs => ?_) fun n hm => ?_
    · rcases List.mem_cons.mp hs with rfl | hs
      · rw [hout _ hn.1]
        exact AList.lookup_insert _
      · exact hin spec' hs
    · rw [List.map_cons, List.mem_cons, not_or] at hm
      rw [hout n hm.2]
      exact AList.lookup_insert_ne hm.1

theorem spec_names : ∀ {ms : List TableMeta} {specs : List (String × Schema × String)},
    (ms.map fun m => (do return (m.name, ← columnsToSchema env m.columns, m.path) : Except String _)) =
      specs.map .ok → specs.map (·.1) = ms.map (·.name)
  | [], specs, h => by
    rw [List.map_nil, eq_comm, List.map_eq_nil_iff] at h
    rw [h]
    rfl
  | m :: ms, [], h => by cases h
  | m :: ms, spec :: specs, h => by
    rw [List.map_cons, List.map_cons, List.cons.injEq] at h
    rw [List.map_cons, List.map_cons, spec_names h.2]
    cases hc : columnsToSchema env m.columns with
    | error e =>
      rw [hc] at h
      cases h.1
    | ok schema =>
      rw [hc] at h
      cases h.1
      rfl

theorem yields_reloadTables {s : Db} {R : Unit → Db → Prop}
    (hname : ∀ t m, s.catalog.tables.lookup t = some m → m.name = t)
    (h : ∀ ctx, (∀ t m, s.catalog.tables.lookup t = some m → ∃ schema,
      columnsToSchema env m.columns = .ok schema ∧ AList.lookup t ctx = some ⟨objPath m.path, schema⟩) →
      R () { s with ctx := ctx }) : Yields (reloadTables env) s R := by
  unfold reloadTables
  simp only [yields_bind, yields_get, yields_check]
  intro specs hspecs
  have hmap := mapM_ok_iff.mp hspecs
  -- each table gives one spec under its name
  have hspec : ∀ m ∈ s.catalog.tables.values, ∃ schema,
      columnsToSchema env m.columns = .ok schema ∧ (m.name, schema, m.path) ∈ specs := by
    intro m hm
    have hin : (do return (m.name, ← columnsToSchema env m.columns, m.path) : Except String _) ∈
        specs.map Except.ok := by
      rw [← hmap]
      exact List.mem_map_of_mem hm
    obtain ⟨spec, hs, he⟩ := List.mem_map.mp hin
    cases hc : columnsToSchema env m.columns with
    | error e =>
      rw [hc] at he
      cases he
    | ok schema =>
      rw [hc] at he
      cases he
      exact ⟨schema, rfl, hs⟩
  have hnodup : (specs.map (·.1)).Nodup := by
    rw [spec_names hmap, Map.values_map_keys hname]
    exact s.catalog.tables.keys_nodup
  refine yields_register specs s hnodup fun ctx hin _ => h ctx fun t m hm => ?_
  obtain ⟨schema, hc, hs⟩ := hspec m (Map.values_mem hm)
  refine ⟨schema, hc, ?_⟩
  rw [← hname t m hm]
  exact hin _ hs

/-! ## Writing rows back -/

theorem castRow_length {schema : Schema} {names : List String} {row row' : Row}
    (h : castRow env schema names row = .ok row') : row'.length = schema.length := by
  have := congrArg List.length (mapM_ok_iff.mp h)
  simpa using this.symm

theorem castRows_length {schema : Schema} {names : List String} {source rows : List Row}
    (h : source.mapM (castRow env schema names) = .ok rows) : ∀ row ∈ rows, row.length = schema.names.length := by
  intro row hrow
  obtain ⟨_, -, hcast⟩ := exists_of_mapM h hrow
  rw [castRow_length hcast]
  simp [Schema.names]

/-- An INSERT is planned under the names it gives, or under those of the table. -/
theorem planInsert_ok {schema : Schema} {columns : Option (List String)} {source names : List String}
    (h : planInsert schema columns source = .ok names) : names = columns.getD schema.names ∧ names.Nodup := by
  unfold planInsert at h
  dsimp only at h
  split at h
  · cases h
  · split at h
    · cases h
    · split at h
      · cases h
      · rename_i hn
        split at h
        · obtain rfl := Except.ok.inj h
          exact ⟨rfl, not_not.mp hn⟩
        · cases h

/-- Inserted rows are the rows of the source, cast under the names of the columns. -/
theorem insertedRows_cast {schema : Schema} {columns : Option (List String)} {batches : List RecordBatch}
    {rows : List Row} (h : insertedRows env schema columns batches = .ok rows) :
    (allRows batches).mapM (castRow env schema (columns.getD schema.names)) = .ok rows ∧
      (batches ≠ [] → (columns.getD schema.names).Nodup) := by
  cases batches with
  | nil =>
    cases h
    exact ⟨rfl, fun h => absurd rfl h⟩
  | cons b bs =>
    unfold insertedRows at h
    dsimp only at h
    cases hp : planInsert schema columns (b.schema.map (·.name)) with
    | error e =>
      rw [hp] at h
      cases h
    | ok names =>
      rw [hp] at h
      obtain ⟨rfl, hn⟩ := planInsert_ok hp
      exact ⟨h, fun _ => hn⟩

theorem read_self {names : List String} {rows : List Row} {time : Nat} (hn : names.Nodup)
    (hlen : ∀ row ∈ rows, row.length = names.length) : (ParquetFile.mk names rows time).read names = rows := by
  refine (List.map_congr_left fun row hrow => ?_).trans (List.map_id rows)
  show names.map (namedValue names row) = row
  refine List.ext_getElem (by simp [hlen row hrow]) fun i h₁ h₂ => ?_
  have hi : i < names.length := by simpa using h₁
  have hat : names[i]? = some names[i] := List.getElem?_eq_getElem hi
  rw [List.getElem_map, namedValue, lookup_zip hn hat, List.getElem?_eq_getElem h₂]
  rfl

theorem hasData_iff {batches : List RecordBatch} : hasData batches = false ↔ allRows batches = [] := by
  unfold hasData allRows RecordBatch.numRows
  rw [List.any_eq_false, List.flatMap_eq_nil_iff]
  refine forall₂_congr fun b _ => ?_
  rw [decide_eq_true_eq, Nat.pos_iff_ne_zero, not_not, List.length_eq_zero_iff]

theorem Store.list_removeDir {s : Store} {dir : Dir} : Store.list (s.removeDir dir) dir = [] := by
  unfold Store.list Store.removeDir
  rw [List.filter_filter, List.filter_eq_nil_iff]
  simp

theorem Store.list_append (s s' : Store) (dir : Dir) : Store.list (s ++ s') dir = s.list dir ++ Store.list s' dir :=
  List.filter_append _ _

theorem Store.list_removeDir_apart {s : Store} {dir other : Dir} (h : ∀ d, other <+: d → ¬ dir <+: d) :
    Store.list (s.removeDir dir) other = s.list other := by
  unfold Store.list Store.removeDir
  rw [List.filter_filter]
  refine List.filter_congr fun e _ => ?_
  by_cases ho : other <+: e.1.dir
  · have := h _ ho
    rw [← List.isPrefixOf_iff_prefix, Bool.not_eq_true] at this
    simp [this]
  · rw [← List.isPrefixOf_iff_prefix, Bool.not_eq_true] at ho
    simp [ho]

/-- A rewritten table holds the rows of the batches, cast, beside those in files that stay. -/
theorem Rewritten.relation_cast {s t : Db} {table : String} {m : TableMeta} {schema : Schema} {batches : List RecordBatch}
    (h : Rewritten env s table m schema batches t) :
    ∃ rows, (allRows batches).mapM (castRow env schema schema.names) = .ok rows ∧ t.relation table =
      some ⟨schema, Store.read (s.store.removeDir (objPath table)) (objPath m.path) schema.names ++ rows⟩ := by
  obtain ⟨rows, time, hdata, hnone, hstore⟩ := h.store
  obtain ⟨hcast, hn⟩ : (allRows batches).mapM (castRow env schema schema.names) = .ok rows ∧
      (rows ≠ [] → schema.names.Nodup) := by
    by_cases hd : hasData batches = true
    · obtain ⟨hcast, hn⟩ := insertedRows_cast (hdata hd)
      refine ⟨hcast, fun _ => hn ?_⟩
      rintro rfl
      cases hd
    · rw [Bool.not_eq_true] at hd
      obtain rfl := hnone hd
      rw [hasData_iff.mp hd]
      exact ⟨rfl, fun h => absurd rfl h⟩
  refine ⟨rows, hcast, ?_⟩
  unfold Db.relation
  rw [h.ctx, AList.lookup_insert, Option.map_some, hstore, Store.read_append]
  refine congrArg (fun rs => some (Relation.mk schema (_ ++ rs))) ?_
  by_cases hnil : rows = []
  · rw [if_pos hnil, hnil]
    rfl
  · rw [if_neg hnil]
    unfold Store.read Store.list
    rw [List.filter_cons_of_pos (by simp)]
    simp only [List.filter_nil, List.flatMap_cons, List.flatMap_nil, List.append_nil]
    exact @read_self _ _ time (hn hnil) (castRows_length hcast)

/-- A rewritten table holds the rows of the batches. -/
theorem Rewritten.relation {s t : Db} {table : String} {m : TableMeta} {schema : Schema} {batches : List RecordBatch}
    (h : Rewritten env s table m schema batches t) (hpath : objPath m.path = objPath table)
    (ht : ∀ row ∈ allRows batches, castRow env schema schema.names row = .ok row) :
    t.relation table = some ⟨schema, allRows batches⟩ := by
  obtain ⟨rows, hcast, hrel⟩ := h.relation_cast
  obtain rfl := mapM_self ht hcast
  rw [hrel, hpath]
  unfold Store.read
  rw [Store.list_removeDir]
  rfl

/-- A rewrite leaves the other tables alone. -/
theorem Rewritten.relation_other {s t : Db} {table other : String} {m : TableMeta} {schema : Schema}
    {batches : List RecordBatch} (h : Rewritten env s table m schema batches t) (hpath : objPath m.path = objPath table)
    (hne : other ≠ table) (hdir : ∀ p, s.ctx.lookup other = some p → p.dir = objPath other)
    (hap : ∀ d, objPath other <+: d → ¬ objPath table <+: d) : t.relation other = s.relation other := by
  obtain ⟨rows, time, -, -, hstore⟩ := h.store
  unfold Db.relation
  rw [h.ctx, AList.lookup_insert_ne hne, AList.lookup_erase_ne hne]
  cases hp : s.ctx.lookup other with
  | none => rfl
  | some p =>
    have hlist : t.store.list p.dir = s.store.list p.dir := by
      rw [hdir p hp, hstore, Store.list_append, Store.list_removeDir_apart hap]
      by_cases hnil : rows = []
      · rw [if_pos hnil]
        exact List.append_nil _
      · rw [if_neg hnil]
        have hout : ¬ objPath other <+: objPath m.path := fun hpre => hap _ hpre (hpath ▸ List.prefix_rfl)
        unfold Store.list
        rw [List.filter_cons_of_neg (by simpa using hout)]
        exact List.append_nil _
    rw [Option.map_some, Option.map_some]
    unfold Store.read
    rw [hlist]

/-! ## The loop over the backups -/

/-- All but the tables whose backups are still to be written back are restored. -/
structure Restoring (s₀ : Db) (n : Nat) (txn : Option Transaction) (rest : List (String × List RecordBatch)) (s : Db) : Prop where
  nodup : (rest.map (·.1)).Nodup
  saved : ∀ t ∈ s₀.catalog.tables, ∀ b, (t, b) ∈ rest → ∃ r, s₀.relation t = some r ∧ allRows b = r.rows
  catalog : s.catalog.forgetFiles = s₀.catalog.forgetFiles
  ctx : ∀ t ∈ s₀.catalog.tables, s.ctx.lookup t = s₀.ctx.lookup t
  rows : ∀ t ∈ s₀.catalog.tables, t ∉ rest.map (·.1) → s.relation t = s₀.relation t
  buffer : s.writeBuffer = s₀.writeBuffer
  strays : ∀ e ∈ s.store, n ≤ e.1.file → ∃ t ∈ s₀.catalog.tables, objPath t <+: e.1.dir
  activeTxn : s.activeTxn = txn

theorem Restoring.restored {n : Nat} {txn : Option Transaction} {s : Db} (h : Restoring s₀ n txn [] s) :
    Restored s₀ n s :=
  ⟨⟨h.catalog, fun t ht => h.rows t ht List.not_mem_nil, h.buffer⟩, h.strays⟩

theorem Rewritten.strays {s t : Db} {n : Nat} {table : String} {m : TableMeta} {schema : Schema} {batches : List RecordBatch}
    (h : Rewritten env s table m schema batches t) (hpath : objPath m.path = objPath table)
    (ht : table ∈ s₀.catalog.tables)
    (hs : ∀ e ∈ s.store, n ≤ e.1.file → ∃ t ∈ s₀.catalog.tables, objPath t <+: e.1.dir) :
    ∀ e ∈ t.store, n ≤ e.1.file → ∃ t ∈ s₀.catalog.tables, objPath t <+: e.1.dir := by
  obtain ⟨rows, time, -, -, hstore⟩ := h.store
  intro e he hf
  rw [hstore, List.mem_append] at he
  rcases he with he | he
  · exact hs e (List.mem_filter.mp he).1 hf
  · by_cases hnil : rows = []
    · rw [if_pos hnil] at he
      cases he
    · rw [if_neg hnil] at he
      obtain rfl := List.mem_singleton.mp he
      exact ⟨table, ht, hpath ▸ List.prefix_rfl⟩

/-- One backup is written back. -/
theorem restoring_step (ha : Anchored env s₀) {n : Nat} {txn : Option Transaction} {table : String} {b : List RecordBatch}
    {rest : List (String × List RecordBatch)} {s : Db} (h : Restoring s₀ n txn ((table, b) :: rest) s) :
    Yields (do
      match (← get).catalog.tables.lookup table with
      | none => pure ()
      | some m =>
        let schema ← check (columnsToSchema env m.columns)
        rewriteTable env table schema b false : M Unit) s fun _ t => Restoring s₀ n txn rest t := by
  have hn := List.nodup_cons.mp h.nodup
  simp only [yields_bind, yields_get]
  cases hm : s.catalog.tables.lookup table with
  | none =>
    have hout : table ∉ s₀.catalog.tables := by
      intro hin
      obtain ⟨m₀, hm₀⟩ := Map.mem_iff_lookup.mp hin
      obtain ⟨m', hm', -⟩ := lookup_forgetFiles h.catalog.symm hm₀
      rw [hm] at hm'
      cases hm'
    rw [yields_pure]
    refine { h with nodup := hn.2, saved := fun t ht b hb => h.saved t ht b (List.mem_cons_of_mem _ hb), rows := ?_ }
    intro t ht hr
    refine h.rows t ht ?_
    rw [List.map_cons, List.mem_cons, not_or]
    refine ⟨fun he => hout ?_, hr⟩
    rwa [← show t = table from he]
  | some m =>
    obtain ⟨m₀, hm₀, hcols, hpath⟩ := lookup_forgetFiles h.catalog hm
    have ht : table ∈ s₀.catalog.tables := Map.mem_iff_lookup.mpr ⟨m₀, hm₀⟩
    obtain ⟨-, hpath₀, schema, hschema, hctx⟩ := ha.table table m₀ hm₀
    rw [← hpath] at hpath₀
    obtain ⟨r, hr, hrows⟩ := h.saved table ht b List.mem_cons_self
    have hrel : r.schema = schema := by
      unfold Db.relation at hr
      rw [hctx] at hr
      rw [← Option.some.inj hr]
    simp only [yields_bind, yields_check]
    intro _ _
    refine yields_rewriteTable fun m' schema' t hm' hschema' hw => ?_
    obtain rfl : m = m' := Option.some.inj (hm.symm.trans hm')
    obtain rfl : schema = schema' := Except.ok.inj (hschema.symm.trans (hcols ▸ hschema'))
    have htyped : ∀ row ∈ allRows b, castRow env schema schema.names row = .ok row := by
      rw [hrows, ← hrel]
      exact ha.typed table ht r hr
    obtain ⟨stats, hcat⟩ := hw.catalog
    have hother : ∀ u ∈ s₀.catalog.tables, u ≠ table → t.relation u = s.relation u := by
      intro u hu hne
      refine hw.relation_other hpath₀ hne (fun p hp => ?_) fun d hd hd' => hne (ha.unique hu ht hd hd')
      obtain ⟨mu, hmu⟩ := Map.mem_iff_lookup.mp hu
      obtain ⟨-, -, _, -, hpu⟩ := ha.table u mu hmu
      rw [h.ctx u hu, hpu] at hp
      rw [← Option.some.inj hp]
    constructor
    · exact hn.2
    · exact fun u hu b' hb' => h.saved u hu b' (List.mem_cons_of_mem _ hb')
    · rw [hcat, forgetFiles_setFileStats]
      exact h.catalog
    · intro u hu
      rw [hw.ctx]
      by_cases hne : u = table
      · rw [hne, AList.lookup_insert, hctx, hpath₀]
      · rw [AList.lookup_insert_ne hne, AList.lookup_erase_ne hne]
        exact h.ctx u hu
    · intro u hu hr'
      by_cases hne : u = table
      · rw [hne, hw.relation hpath₀ htyped, hr, hrows, ← hrel]
      · rw [hother u hu hne]
        refine h.rows u hu ?_
        rw [List.map_cons, List.mem_cons, not_or]
        exact ⟨hne, hr'⟩
    · rw [hw.writeBuffer]
      exact h.buffer
    · exact hw.strays hpath₀ ht h.strays
    · rw [hw.activeTxn]
      exact h.activeTxn

theorem yields_restoreBackups (ha : Anchored env s₀) {n : Nat} {txn : Option Transaction}
    {backups : Map (List RecordBatch)} {s : Db} (h : Restoring s₀ n txn backups.pairs s) :
    Yields (restoreBackups env backups) s fun _ t => Restoring s₀ n txn [] t := by
  refine yields_each (I := Restoring s₀ n txn) ?_ h
  rintro ⟨table, b⟩ rest s hs
  exact restoring_step ha hs

/-! ## The whole -/

theorem snapshot_files {t : String} (ht : t ∈ s₀.catalog.tables) :
    (t, (s₀.store.list (objPath t)).map (·.1)) ∈ s₀.fileSnapshot.pairs := by
  obtain ⟨m, hm⟩ := Map.mem_iff_lookup.mp ht
  rw [Map.mem_pairs, lookup_fileSnapshot, hm]
  rfl

theorem knownFile_iff (ha : Anchored env s₀) {t : String} (ht : t ∈ s₀.catalog.tables) {e : ObjPath × ParquetFile}
    (he : objPath t <+: e.1.dir) :
    knownFile s₀.fileSnapshot.pairs e = true ↔ e.1 ∈ (s₀.store.list (objPath t)).map (·.1) := by
  unfold knownFile
  rw [List.all_eq_true]
  constructor
  · intro h
    have := h _ (snapshot_files ht)
    rw [List.isPrefixOf_iff_prefix.mpr he] at this
    simpa using this
  · rintro h ⟨u, paths⟩ hp
    rw [Map.mem_pairs, lookup_fileSnapshot] at hp
    obtain ⟨m, hm, rfl⟩ := Option.map_eq_some_iff.mp hp
    by_cases hu : objPath u <+: e.1.dir
    · obtain rfl := ha.unique ht (Map.mem_iff_lookup.mpr ⟨m, hm⟩) he hu
      simpa using Or.inr h
    · rw [← List.isPrefixOf_iff_prefix, Bool.not_eq_true] at hu
      simp [hu]

/-- The old files of a table without a backup survive the deletions. -/
theorem kept_files (ha : Anchored env s₀) {backups : Map (List RecordBatch)} {s : Db}
    (hrec : Recoverable s₀ backups s) {n : Nat} (hready : Ready env s₀.catalog s₀.fileSnapshot backups n s)
    {t : String} (ht : t ∈ s₀.catalog.tables)
    (hb : backups.lookup t = none) :
    Store.list ((s.store.filter (knownFile s₀.fileSnapshot.pairs)).filter
      (spareDir env s₀.fileSnapshot s.catalog.tables.pairs)) (objPath t) = s₀.store.list (objPath t) := by
  have hk := hrec.kept t ht hb
  have hmove : Store.list ((s.store.filter (knownFile s₀.fileSnapshot.pairs)).filter
      (spareDir env s₀.fileSnapshot s.catalog.tables.pairs)) (objPath t) =
      ((s.store.list (objPath t)).filter (knownFile s₀.fileSnapshot.pairs)).filter
        (spareDir env s₀.fileSnapshot s.catalog.tables.pairs) := by
    unfold Store.list
    simp only [List.filter_filter]
    refine List.filter_congr fun e _ => ?_
    cases (objPath t).isPrefixOf e.1.dir <;> simp
  have hknown : (s.store.list (objPath t)).filter (knownFile s₀.fileSnapshot.pairs) = s₀.store.list (objPath t) := by
    rw [← hk]
    refine List.filter_congr fun e he => ?_
    rw [Bool.eq_iff_iff, knownFile_iff ha ht (Store.mem_list.mp he).2, decide_eq_true_eq]
    constructor
    · intro hm
      obtain ⟨e', he', heq⟩ := List.mem_map.mp hm
      rw [← heq]
      exact ha.fresh e' (Store.mem_list.mp he').1
    · intro hlt
      rw [← hk]
      exact List.mem_map_of_mem (List.mem_filter.mpr ⟨he, decide_eq_true hlt⟩)
  rw [hmove, hknown, List.filter_eq_self]
  intro e he
  unfold spareDir
  rw [List.all_eq_true]
  rintro ⟨u, m⟩ hp
  rw [Map.mem_pairs] at hp
  by_cases hu : u ∈ s₀.catalog.tables
  · obtain ⟨m₀, hm₀⟩ := Map.mem_iff_lookup.mp hu
    simp [lookup_fileSnapshot, hm₀]
  · have := hready.spare u m hp hu _ (snapshot_files ht) hb e.1 (List.mem_map_of_mem he)
    rw [← List.isPrefixOf_iff_prefix, Bool.not_eq_true] at this
    simp [this]

theorem kept_strays {backups : Map (List RecordBatch)} {n : Nat} {s : Db}
    (hready : Ready env s₀.catalog s₀.fileSnapshot backups n s) :
    ∀ e ∈ (s.store.filter (knownFile s₀.fileSnapshot.pairs)).filter
      (spareDir env s₀.fileSnapshot s.catalog.tables.pairs),
      n ≤ e.1.file → ∃ t ∈ s₀.catalog.tables, objPath t <+: e.1.dir := by
  intro e he hf
  rw [List.mem_filter, List.mem_filter] at he
  rcases hready.covered e he.1.1 hf with h | ⟨u, m, hm, hu, hp⟩
  · exact h
  · have hs := List.all_eq_true.mp he.2 (u, m) (Map.mem_pairs.mpr hm)
    have hnone : s₀.fileSnapshot.lookup u = none := by
      rw [lookup_fileSnapshot, Option.map_eq_none_iff, AList.lookup_eq_none]
      exact hu
    rw [hnone, List.isPrefixOf_iff_prefix.mpr hp] at hs
    cases hs

/-- **A snapshot is restored when each of its tables has its files or a backup.** -/
theorem yields_restoreSnapshot (ha : Anchored env s₀) {backups : Map (List RecordBatch)} {save : Bool} {n : Nat}
    {s : Db} (hrec : Recoverable s₀ backups s) (hready : Ready env s₀.catalog s₀.fileSnapshot backups n s)
    (hbuffer : s.writeBuffer = s₀.writeBuffer) :
    Yields (restoreSnapshot env s₀.catalog s₀.fileSnapshot backups save) s fun _ t =>
      Restored s₀ n t ∧ t.activeTxn = s.activeTxn := by
  unfold restoreSnapshot deleteNewFiles dropNewTables
  simp only [yields_bind, yields_get]
  refine yields_deleteNewFiles _ _ (yields_dropNewTables _ _ fun ctx => ?_)
  rw [yields_emit]
  have hrest : ∀ s₁ : Db, s₁.store = (s.store.filter (knownFile s₀.fileSnapshot.pairs)).filter
      (spareDir env s₀.fileSnapshot s.catalog.tables.pairs) → s₁.catalog = s₀.catalog →
      s₁.writeBuffer = s.writeBuffer → s₁.activeTxn = s.activeTxn →
      Yields (reloadTables env) s₁ fun _ t => Yields (restoreBackups env backups) t fun _ t =>
        Restored s₀ n t ∧ t.activeTxn = s.activeTxn := by
    intro s₁ hstore hcat hbuf htxn
    refine yields_reloadTables (fun t m hm => (ha.table t m (hcat ▸ hm)).1) fun ctx' hctx' => ?_
    have hctx : ∀ t ∈ s₀.catalog.tables, AList.lookup t ctx' = s₀.ctx.lookup t := by
      intro t ht
      obtain ⟨m, hm⟩ := Map.mem_iff_lookup.mp ht
      obtain ⟨-, hpath, schema, hschema, hp⟩ := ha.table t m hm
      obtain ⟨schema', hschema', hp'⟩ := hctx' t m (hcat ▸ hm)
      obtain rfl : schema = schema' := Except.ok.inj (hschema.symm.trans hschema')
      rw [hp, hp', hpath]
    refine (@yields_restoreBackups env s₀ ha n s.activeTxn backups _ ?_).mono fun _ t h => ⟨h.restored, h.activeTxn⟩
    constructor
    · rw [Map.pairs_keys]
      exact backups.keys_nodup
    · exact fun t ht b hb => hrec.saved t ht b (Map.mem_pairs.mp hb)
    · show s₁.catalog.forgetFiles = _
      rw [hcat]
    · exact hctx
    · intro t ht hout
      have hb : backups.lookup t = none := by
        rw [AList.lookup_eq_none]
        rwa [Map.pairs_keys, ← AList.mem_keys] at hout
      obtain ⟨m, hm⟩ := Map.mem_iff_lookup.mp ht
      obtain ⟨-, -, schema, -, hp⟩ := ha.table t m hm
      unfold Db.relation
      show Option.map _ (AList.lookup t ctx') = _
      rw [hctx t ht, hp, Option.map_some, Option.map_some]
      unfold Store.read
      show some (Relation.mk schema ((s₁.store.list (objPath t)).flatMap _)) = _
      rw [hstore, kept_files ha hrec hready ht hb]
    · exact hbuf.trans hbuffer
    · intro e he
      rw [show ({ s₁ with ctx := ctx' } : Db).store = s₁.store from rfl, hstore] at he
      exact kept_strays hready e he
    · exact htxn
  have hdereg : ∀ (names : List String) (s₁ : Db), s₁.store = (s.store.filter (knownFile s₀.fileSnapshot.pairs)).filter
      (spareDir env s₀.fileSnapshot s.catalog.tables.pairs) → s₁.catalog = s₀.catalog →
      s₁.writeBuffer = s.writeBuffer → s₁.activeTxn = s.activeTxn →
      Yields (each (fun t => emit (Op.deregisterTable t)) names : M Unit) s₁ fun _ t =>
        Yields (reloadTables env) t fun _ t => Yields (restoreBackups env backups) t fun _ t =>
          Restored s₀ n t ∧ t.activeTxn = s.activeTxn := by
    intro names
    induction names with
    | nil => exact fun s₁ h₁ h₂ h₃ h₄ => yields_pure.mpr (hrest s₁ h₁ h₂ h₃ h₄)
    | cons n ns ih =>
      intro s₁ h₁ h₂ h₃ h₄
      rw [each, yields_bind, yields_emit]
      exact ih _ h₁ h₂ h₃ h₄
  cases save with
  | true =>
    simp only [if_true, catalogForceSave, yields_bind, yields_emit]
    refine hdereg _ _ ?_ ?_ ?_ ?_ <;> rfl
  | false =>
    simp only [Bool.false_eq_true, if_false, yields_bind]
    refine hdereg _ _ ?_ ?_ ?_ ?_ <;> rfl

end

end PotatoDB
