import PotatoDB.Constraints
import PotatoDB.StorageSound
import PotatoDB.Ddl

/-!
# Tables whose columns change

ALTER TABLE changes the columns in the catalog and leaves the files. Beside the table as the
engine reads it stands one whose columns keep an identity through every change of name.
-/

namespace PotatoDB

open Oplog Oplog.Prog
open Machine (apply)

/-! ## The table of the engine -/

/-- The columns in the catalog and the files of the table. -/
structure EvolvingTable where
  columns : List ColumnDef
  files : List ParquetFile
deriving DecidableEq

/-- The columns after one operation of ALTER TABLE. -/
def AlterTableOperation.change (columns : List ColumnDef) : AlterTableOperation → List ColumnDef
  | addColumn column _ => if (columns.map (·.name)).contains column.name then columns else columns ++ [column]
  | dropColumn name _ => columns.filter (·.name ≠ name)
  | renameColumn oldName newName => PotatoDB.renameColumn oldName newName columns
  | unsupported _ => columns

inductive Evolution where
  | alter (op : AlterTableOperation)
  /-- An INSERT of rows that have a value for every column. -/
  | insert (rows : List Row)
  /-- All rows are read, and what becomes of them is written to one new file. -/
  | rewrite (f : List Row → List Row)

namespace EvolvingTable

def names (t : EvolvingTable) : List String := t.columns.map (·.name)

def read (t : EvolvingTable) : List Row := t.files.flatMap (·.read t.names)

/-- A file is written when there are rows. -/
def newFile (t : EvolvingTable) (rows : List Row) : List ParquetFile :=
  if rows = [] then [] else [⟨t.names, rows, 0⟩]

def step (t : EvolvingTable) : Evolution → EvolvingTable
  | .alter op => { t with columns := op.change t.columns }
  | .insert rows => { t with files := t.files ++ t.newFile rows }
  | .rewrite f => { t with files := t.newFile (f t.read) }

end EvolvingTable

instance : Machine EvolvingTable Evolution := ⟨EvolvingTable.step⟩

/-! ## Columns with an identity -/

/-- The table that ALTER TABLE is about: a row has a value for each column that was there when it was written. -/
structure IdentifiedTable where
  columns : List (Nat × String)
  next : Nat
  rows : List (List (Nat × Value))
deriving DecidableEq

namespace IdentifiedTable

def read (t : IdentifiedTable) : List Row := t.rows.map fun r => t.columns.map fun c => (r.lookup c.1).getD .null

def written (t : IdentifiedTable) (rows : List Row) : List (List (Nat × Value)) :=
  rows.map fun row => (t.columns.map (·.1)).zip row

def rename (oldName newName : String) : List (Nat × String) → List (Nat × String)
  | [] => []
  | c :: cs => if c.2 = oldName then (c.1, newName) :: cs else c :: rename oldName newName cs

def step (t : IdentifiedTable) : Evolution → IdentifiedTable
  | .alter (.addColumn column _) =>
    if (t.columns.map (·.2)).contains column.name then t
    else { t with columns := t.columns ++ [(t.next, column.name)], next := t.next + 1 }
  | .alter (.dropColumn name _) => { t with columns := t.columns.filter (·.2 ≠ name) }
  | .alter (.renameColumn oldName newName) => { t with columns := rename oldName newName t.columns }
  | .alter (.unsupported _) => t
  | .insert rows => { t with rows := t.rows ++ t.written rows }
  | .rewrite f => { t with rows := t.written (f t.read) }

/-- A new table. -/
def start (columns : List ColumnDef) : IdentifiedTable :=
  ⟨columns.zipIdx.map fun c => (c.2, c.1.name), columns.length, []⟩

end IdentifiedTable

instance : Machine IdentifiedTable Evolution := ⟨IdentifiedTable.step⟩

/-! ## Where they part -/

/-- The rows of the files, each with the columns of its file. -/
def EvolvingTable.storedRows (t : EvolvingTable) : List (List String × Row) :=
  t.files.flatMap fun f => f.rows.map fun row => (f.columns, row)

/-- The values that the files have under a name, with NULL where there is none. -/
def EvolvingTable.stored (t : EvolvingTable) (name : String) : List Value :=
  t.storedRows.map fun s => namedValue s.1 s.2 name

def IdentifiedTable.values (t : IdentifiedTable) (id : Nat) : List Value :=
  t.rows.map fun r => (r.lookup id).getD .null

/-- The files have no value under the name of a new column; a new name is free, and the files have the same
values under it as under the old one. -/
def Evolution.Safe (t : EvolvingTable) : Evolution → Prop
  | alter (.addColumn column _) => column.name ∈ t.names ∨ ∀ v ∈ t.stored column.name, v = .null
  | alter (.renameColumn oldName newName) =>
    oldName ∉ t.names ∨ newName = oldName ∨ newName ∉ t.names ∧ t.stored newName = t.stored oldName
  | _ => True

/-- The two tables have the same columns, and the same values in each. -/
structure Matches (t : EvolvingTable) (i : IdentifiedTable) : Prop where
  names : i.columns.map (·.2) = t.names
  nodup : t.names.Nodup
  ids : (i.columns.map (·.1)).Nodup
  next : ∀ c ∈ i.columns, c.1 < i.next
  fresh : ∀ r ∈ i.rows, ∀ c ∈ r, c.1 < i.next
  length : t.storedRows.length = i.rows.length
  values : ∀ c ∈ i.columns, t.stored c.2 = i.values c.1

section
variable {t : EvolvingTable} {i : IdentifiedTable}

theorem EvolvingTable.read_eq : t.read = t.storedRows.map fun s => t.names.map (namedValue s.1 s.2) := by
  unfold EvolvingTable.read EvolvingTable.storedRows ParquetFile.read
  rw [List.map_flatMap]
  congr 1
  funext f
  rw [List.map_map]
  rfl

theorem Matches.read_eq (h : Matches t i) : t.read = i.read := by
  rw [EvolvingTable.read_eq, IdentifiedTable.read, ← h.names]
  refine List.ext_getElem (by rw [List.length_map, List.length_map, h.length]) fun k hk hk' => ?_
  rw [List.getElem_map, List.getElem_map, List.map_map]
  refine List.map_congr_left fun c hc => ?_
  have hv := congrArg (fun vs => vs[k]?) (h.values c hc)
  rw [List.length_map] at hk hk'
  simpa [EvolvingTable.stored, IdentifiedTable.values, List.getElem?_map, List.getElem?_eq_getElem hk,
    List.getElem?_eq_getElem hk'] using hv

/-! ## Written rows -/

/-- A name and an identity that stand at the same place find the same value. -/
theorem lookup_zip_columns : ∀ {columns : List (Nat × String)} (row : Row), (columns.map (·.2)).Nodup →
    (columns.map (·.1)).Nodup → ∀ c ∈ columns,
    ((columns.map (·.2)).zip row).lookup c.2 = ((columns.map (·.1)).zip row).lookup c.1
  | [], _, _, _, c, hc => absurd hc List.not_mem_nil
  | _ :: _, [], _, _, _, _ => by simp
  | d :: ds, v :: row, hn, hi, c, hc => by
    rw [List.map_cons, List.nodup_cons] at hn hi
    rw [List.map_cons, List.map_cons, List.zip_cons_cons, List.zip_cons_cons]
    rcases List.mem_cons.mp hc with rfl | hc
    · simp
    · have hname : c.2 ≠ d.2 := fun h => hn.1 (h ▸ List.mem_map_of_mem hc)
      have hid : c.1 ≠ d.1 := fun h => hi.1 (h ▸ List.mem_map_of_mem hc)
      rw [List.lookup_cons, List.lookup_cons, beq_false_of_ne hname, beq_false_of_ne hid]
      exact lookup_zip_columns row hn.2 hi.2 c hc

theorem storedRows_newFile (t : EvolvingTable) (rows : List Row) :
    ((t.newFile rows).flatMap fun f => f.rows.map fun row => (f.columns, row)) = rows.map fun row => (t.names, row) := by
  unfold EvolvingTable.newFile
  split
  · rename_i h
    rw [h]
    rfl
  · simp

theorem Matches.written (h : Matches t i) (rows : List Row) {c : Nat × String} (hc : c ∈ i.columns) :
    (rows.map fun row => (t.names, row)).map (fun s => namedValue s.1 s.2 c.2) =
      (i.written rows).map fun r => (r.lookup c.1).getD .null := by
  rw [IdentifiedTable.written, List.map_map, List.map_map]
  refine List.map_congr_left fun row _ => ?_
  have hn : (i.columns.map (·.2)).Nodup := h.names ▸ h.nodup
  rw [Function.comp_apply, Function.comp_apply, namedValue, ← h.names, lookup_zip_columns row hn h.ids c hc]

theorem Matches.written_fresh (h : Matches t i) (rows : List Row) : ∀ r ∈ i.written rows, ∀ c ∈ r, c.1 < i.next := by
  intro r hr c hc
  obtain ⟨row, -, rfl⟩ := List.mem_map.mp hr
  obtain ⟨d, hd, hdc⟩ := List.mem_map.mp (List.of_mem_zip hc).1
  rw [← hdc]
  exact h.next d hd

theorem Matches.insert (h : Matches t i) (rows : List Row) : Matches (t.step (.insert rows)) (i.step (.insert rows)) := by
  have hstored : (t.step (.insert rows)).storedRows = t.storedRows ++ rows.map fun row => (t.names, row) := by
    rw [← storedRows_newFile]
    exact List.flatMap_append
  refine ⟨h.names, h.nodup, h.ids, h.next, fun r hr => ?_, ?_, fun c hc => ?_⟩
  · rcases List.mem_append.mp hr with hr | hr
    · exact h.fresh r hr
    · exact h.written_fresh rows r hr
  · rw [hstored, List.length_append, h.length]
    simp [IdentifiedTable.step, IdentifiedTable.written]
  · rw [EvolvingTable.stored, hstored, List.map_append, h.written rows hc]
    exact (congrArg (· ++ _) (h.values c hc)).trans List.map_append.symm

theorem Matches.rewrite (h : Matches t i) (f : List Row → List Row) :
    Matches (t.step (.rewrite f)) (i.step (.rewrite f)) := by
  have hstored : (t.step (.rewrite f)).storedRows = (f t.read).map fun row => (t.names, row) :=
    storedRows_newFile t (f t.read)
  rw [h.read_eq] at hstored
  refine ⟨h.names, h.nodup, h.ids, h.next, h.written_fresh _, ?_, fun c hc => ?_⟩
  · rw [hstored]
    simp [IdentifiedTable.step, IdentifiedTable.written]
  · rw [EvolvingTable.stored, hstored]
    exact h.written _ hc

/-! ## ALTER TABLE -/

theorem Matches.drop (h : Matches t i) (name : String) (ifExists : Bool) :
    Matches (t.step (.alter (.dropColumn name ifExists))) (i.step (.alter (.dropColumn name ifExists))) := by
  have hmem : ∀ c ∈ i.columns.filter (·.2 ≠ name), c ∈ i.columns := fun c hc => (List.mem_filter.mp hc).1
  have hnames : (i.columns.filter (·.2 ≠ name)).map (·.2) = (t.columns.filter (·.name ≠ name)).map (·.name) := by
    have hi := List.filter_map (p := fun n => decide (n ≠ name)) (f := fun c : Nat × String => c.2) (l := i.columns)
    have ht := List.filter_map (p := fun n => decide (n ≠ name)) (f := fun c : ColumnDef => c.name) (l := t.columns)
    rw [h.names] at hi
    exact hi.symm.trans ht
  refine ⟨hnames, ?_, ?_, fun c hc => h.next c (hmem c hc), h.fresh, h.length, fun c hc => h.values c (hmem c hc)⟩
  · exact h.nodup.sublist (List.filter_sublist.map _)
  · exact h.ids.sublist (List.filter_sublist.map _)

theorem nodup_snoc {α : Type} {l : List α} {a : α} (hl : l.Nodup) (ha : a ∉ l) : (l ++ [a]).Nodup := by
  refine List.nodup_append.mpr ⟨hl, List.nodup_singleton _, fun x hx y hy hxy => ?_⟩
  rw [List.mem_singleton.mp hy] at hxy
  exact ha (hxy ▸ hx)

theorem Matches.add (h : Matches t i) (column : ColumnDef) (ifNotExists : Bool)
    (hs : Evolution.Safe t (.alter (.addColumn column ifNotExists))) :
    Matches (t.step (.alter (.addColumn column ifNotExists))) (i.step (.alter (.addColumn column ifNotExists))) := by
  by_cases hin : column.name ∈ t.names
  · have ht : t.step (.alter (.addColumn column ifNotExists)) = t := by
      simp [EvolvingTable.step, AlterTableOperation.change, show column.name ∈ t.columns.map (·.name) from hin]
    have hi : i.step (.alter (.addColumn column ifNotExists)) = i := by
      simp only [IdentifiedTable.step]
      rw [if_pos]
      rw [h.names]
      simpa using hin
    rw [ht, hi]
    exact h
  · have ht : t.step (.alter (.addColumn column ifNotExists)) = { t with columns := t.columns ++ [column] } := by
      simp [EvolvingTable.step, AlterTableOperation.change, show column.name ∉ t.columns.map (·.name) from hin]
    have hi : i.step (.alter (.addColumn column ifNotExists)) =
        { i with columns := i.columns ++ [(i.next, column.name)], next := i.next + 1 } := by
      simp only [IdentifiedTable.step]
      rw [if_neg]
      rw [h.names]
      simpa using hin
    rw [ht, hi]
    have hnew : i.next ∉ i.columns.map (·.1) := by
      intro hmem
      obtain ⟨c, hc, he⟩ := List.mem_map.mp hmem
      exact absurd (h.next c hc) (by omega)
    refine ⟨?_, ?_, ?_, fun c hc => ?_, fun r hr c hc => Nat.lt_succ_of_lt (h.fresh r hr c hc), h.length, fun c hc => ?_⟩
    · simp [EvolvingTable.names, h.names]
    · have hadded : ({ t with columns := t.columns ++ [column] } : EvolvingTable).names = t.names ++ [column.name] :=
        List.map_append
      rw [hadded]
      exact nodup_snoc h.nodup hin
    · rw [List.map_append]
      exact nodup_snoc h.ids hnew
    · rcases List.mem_append.mp hc with hc | hc
      · exact Nat.lt_succ_of_lt (h.next c hc)
      · rw [List.mem_singleton.mp hc]
        exact Nat.lt_succ_self _
    · rcases List.mem_append.mp hc with hc | hc
      · exact h.values c hc
      · -- no stored row has a value under the name, and no row has the new identity
        rw [List.mem_singleton.mp hc]
        have hnull := hs.resolve_left hin
        refine (List.eq_replicate_of_mem hnull).trans ?_
        have hvalues : ∀ v ∈ i.values i.next, v = .null := by
          intro v hv
          obtain ⟨r, hr, rfl⟩ := List.mem_map.mp hv
          have : r.lookup i.next = none := by
            rw [List.lookup_eq_none_iff]
            intro p hp
            have := h.fresh r hr p hp
            simp only [bne_iff_ne, ne_eq]
            omega
          rw [this]
          rfl
        refine Eq.trans ?_ (List.eq_replicate_of_mem hvalues).symm
        simp [EvolvingTable.stored, IdentifiedTable.values, h.length]

theorem IdentifiedTable.map_rename (oldName newName : String) : ∀ columns : List (Nat × String),
    (rename oldName newName columns).map (·.1) = columns.map (·.1)
  | [] => rfl
  | c :: cs => by
    rw [rename]
    split
    · rfl
    · rw [List.map_cons, List.map_cons, map_rename oldName newName cs]

theorem IdentifiedTable.names_rename (oldName newName : String) : ∀ (columns : List (Nat × String))
    (defs : List ColumnDef), columns.map (·.2) = defs.map (·.name) →
    (rename oldName newName columns).map (·.2) = (renameColumn oldName newName defs).map (·.name)
  | [], [], _ => rfl
  | c :: cs, d :: ds, h => by
    rw [List.map_cons, List.map_cons] at h
    obtain ⟨hc, hcs⟩ := List.cons.inj h
    rw [rename, renameColumn, hc]
    split
    · rw [List.map_cons, List.map_cons, hcs]
    · rw [List.map_cons, List.map_cons, hc, names_rename oldName newName cs ds hcs]

theorem IdentifiedTable.rename_absent {oldName newName : String} : ∀ {columns : List (Nat × String)},
    oldName ∉ columns.map (·.2) → rename oldName newName columns = columns
  | [], _ => rfl
  | c :: cs, h => by
    rw [List.map_cons, List.mem_cons, not_or] at h
    rw [rename, if_neg (Ne.symm h.1), rename_absent h.2]

theorem IdentifiedTable.rename_self (name : String) : ∀ columns : List (Nat × String), rename name name columns = columns
  | [] => rfl
  | c :: cs => by
    rw [rename]
    split
    · rename_i h
      rw [← h]
    · rw [rename_self name cs]

/-- The column that is renamed, or another. -/
theorem IdentifiedTable.mem_rename {oldName newName : String} : ∀ {columns : List (Nat × String)} {c : Nat × String},
    c ∈ rename oldName newName columns → c.2 = newName ∧ (c.1, oldName) ∈ columns ∨ c ∈ columns
  | [], _, hc => .inr hc
  | d :: ds, c, hc => by
    rw [rename] at hc
    split at hc
    · rename_i h
      rcases List.mem_cons.mp hc with rfl | hc
      · exact .inl ⟨rfl, by rw [← h]; exact List.mem_cons_self⟩
      · exact .inr (List.mem_cons_of_mem _ hc)
    · rcases List.mem_cons.mp hc with rfl | hc
      · exact .inr List.mem_cons_self
      · rcases mem_rename hc with ⟨h, hm⟩ | hm
        · exact .inl ⟨h, List.mem_cons_of_mem _ hm⟩
        · exact .inr (List.mem_cons_of_mem _ hm)

theorem IdentifiedTable.nodup_rename {oldName newName : String} : ∀ {columns : List (Nat × String)},
    (columns.map (·.2)).Nodup → newName ∉ columns.map (·.2) → ((rename oldName newName columns).map (·.2)).Nodup
  | [], _, _ => List.nodup_nil
  | c :: cs, hn, hnew => by
    rw [List.map_cons, List.nodup_cons] at hn
    rw [List.map_cons, List.mem_cons, not_or] at hnew
    rw [rename]
    split
    · exact List.nodup_cons.mpr ⟨hnew.2, hn.2⟩
    · refine List.nodup_cons.mpr ⟨fun hmem => ?_, nodup_rename hn.2 hnew.2⟩
      obtain ⟨d, hd, he⟩ := List.mem_map.mp hmem
      rcases mem_rename hd with ⟨h, -⟩ | hm
      · exact hnew.1 (h.symm.trans he)
      · exact hn.1 (List.mem_map.mpr ⟨d, hm, he⟩)

theorem Matches.rename (h : Matches t i) (oldName newName : String)
    (hs : Evolution.Safe t (.alter (.renameColumn oldName newName))) :
    Matches (t.step (.alter (.renameColumn oldName newName))) (i.step (.alter (.renameColumn oldName newName))) := by
  have hnames := IdentifiedTable.names_rename oldName newName i.columns t.columns h.names
  have hids := IdentifiedTable.map_rename oldName newName i.columns
  have hnodup : (t.step (.alter (.renameColumn oldName newName))).names.Nodup := by
    have hn : (i.columns.map (·.2)).Nodup := h.names ▸ h.nodup
    refine (congrArg List.Nodup hnames).mp ?_
    rcases hs with hs | rfl | ⟨hs, -⟩
    · rwa [IdentifiedTable.rename_absent (by rw [h.names]; exact hs)]
    · rwa [IdentifiedTable.rename_self]
    · exact IdentifiedTable.nodup_rename hn (by rw [h.names]; exact hs)
  refine ⟨hnames, hnodup, (congrArg List.Nodup hids).mpr h.ids, fun c hc => ?_, h.fresh, h.length, fun c hc => ?_⟩
  · have hmem : c.1 ∈ i.columns.map (·.1) := hids ▸ List.mem_map_of_mem hc
    obtain ⟨d, hd, he⟩ := List.mem_map.mp hmem
    exact he ▸ h.next d hd
  · rcases IdentifiedTable.mem_rename hc with ⟨hname, hm⟩ | hm
    · -- what was read under the old name is read under the new one
      have hold : t.stored newName = t.stored oldName := by
        rcases hs with hs | rfl | ⟨-, hs⟩
        · exact absurd (h.names ▸ List.mem_map_of_mem hm) hs
        · rfl
        · exact hs
      rw [hname]
      exact hold.trans (h.values _ hm)
    · exact h.values c hm

theorem Matches.step (h : Matches t i) (e : Evolution) (hs : e.Safe t) : Matches (t.step e) (i.step e) := by
  cases e with
  | insert rows => exact h.insert rows
  | rewrite f => exact h.rewrite f
  | alter op =>
    cases op with
    | addColumn column ifNotExists => exact h.add column ifNotExists hs
    | dropColumn name ifExists => exact h.drop name ifExists
    | renameColumn oldName newName => exact h.rename oldName newName hs
    | unsupported display => exact h

end

/-! ## Runs -/

theorem matches_start {columns : List ColumnDef} (hn : (columns.map (·.name)).Nodup) :
    Matches ⟨columns, []⟩ (.start columns) := by
  have hids : (IdentifiedTable.start columns).columns.map (·.1) = List.range columns.length := by
    simp [IdentifiedTable.start, List.map_map, Function.comp_def, List.zipIdx_map_snd, List.range_eq_range']
  refine ⟨?_, hn, ?_, fun c hc => ?_, fun r hr => absurd hr List.not_mem_nil, rfl, fun c _ => rfl⟩
  · show ((columns.zipIdx.map fun c => (c.2, c.1.name)).map (·.2)) = columns.map (·.name)
    rw [List.map_map]
    exact (List.map_map (f := Prod.fst) (g := ColumnDef.name)).symm.trans (by rw [List.zipIdx_map_fst])
  · rw [hids]
    exact List.nodup_range
  · have hmem := List.mem_map_of_mem (f := Prod.fst) hc
    rw [hids, List.mem_range] at hmem
    exact hmem

/-- **Reading gives each row the values last written to its columns**, when every new name finds the files free of
values of other columns. -/
theorem evolution_read (columns : List ColumnDef) (hn : (columns.map (·.name)).Nodup) (es : List Evolution)
    (hc : Along (fun t e => Evolution.Safe t e) (⟨columns, []⟩ : EvolvingTable) es) :
    (after (⟨columns, []⟩ : EvolvingTable) es).read = (after (IdentifiedTable.start columns) es).read := by
  have hrun : ∀ (es : List Evolution) (t : EvolvingTable) (i : IdentifiedTable), Matches t i →
      Along (fun t e => Evolution.Safe t e) t es → Matches (after t es) (after i es) := by
    intro es
    induction es with
    | nil => exact fun _ _ h _ => h
    | cons e es ih => exact fun t i h hc => ih _ _ (h.step e hc.1) hc.2
  exact (hrun es _ _ (matches_start hn) hc).read_eq

instance (t : EvolvingTable) : (e : Evolution) → Decidable (e.Safe t)
  | .alter (.addColumn _ _) => inferInstanceAs (Decidable (_ ∨ _))
  | .alter (.renameColumn _ _) => inferInstanceAs (Decidable (_ ∨ _ ∨ _))
  | .alter (.dropColumn _ _) | .alter (.unsupported _) | .insert _ | .rewrite _ => isTrue trivial

def flagColumns : List ColumnDef := [⟨"id", "VARCHAR", true⟩, ⟨"v", "VARCHAR", true⟩]

/-- A column is added and renamed while no file has it. -/
theorem evolution_read_renamed :
    (after (⟨flagColumns, []⟩ : EvolvingTable) [.insert [[.text "1", .text "99"]],
      .alter (.addColumn ⟨"w", "VARCHAR", true⟩ false), .alter (.renameColumn "w" "x"), .alter (.dropColumn "v" false),
      .insert [[.text "2", .text "5"]]]).read =
    (after (IdentifiedTable.start flagColumns) [.insert [[.text "1", .text "99"]],
      .alter (.addColumn ⟨"w", "VARCHAR", true⟩ false), .alter (.renameColumn "w" "x"), .alter (.dropColumn "v" false),
      .insert [[.text "2", .text "5"]]]).read :=
  evolution_read flagColumns (by decide) _ (by decide +kernel)

/-- A column dropped and added again shows its old values, and one that is renamed loses them. -/
theorem evolution_mixes_columns :
    (after (⟨flagColumns, []⟩ : EvolvingTable) [.insert [[.text "1", .text "99"]], .alter (.dropColumn "v" false),
      .alter (.addColumn ⟨"v", "VARCHAR", true⟩ false)]).read = [[.text "1", .text "99"]] ∧
    (after (IdentifiedTable.start flagColumns) [.insert [[.text "1", .text "99"]], .alter (.dropColumn "v" false),
      .alter (.addColumn ⟨"v", "VARCHAR", true⟩ false)]).read = [[.text "1", .null]] ∧
    (after (⟨flagColumns, []⟩ : EvolvingTable) [.insert [[.text "1", .text "99"]],
      .alter (.renameColumn "v" "w")]).read = [[.text "1", .null]] ∧
    (after (IdentifiedTable.start flagColumns) [.insert [[.text "1", .text "99"]],
      .alter (.renameColumn "v" "w")]).read = [[.text "1", .text "99"]] := by
  decide +kernel

/-! ## The engine's tables -/

section
variable {env : Env} {s : Db} {m : TableMeta}

def Db.evolving (s : Db) (m : TableMeta) : EvolvingTable := ⟨m.columns, (s.store.list (objPath m.path)).map (·.2)⟩

theorem names_columnsToSchema {columns : List ColumnDef} {schema : Schema} (h : columnsToSchema env columns = .ok schema) :
    schema.map (·.name) = columns.map (·.name) := by
  have h := mapM_ok_iff.mp h
  induction columns generalizing schema with
  | nil =>
    obtain rfl := List.map_eq_nil_iff.mp h.symm
    rfl
  | cons c cs ih =>
    cases schema with
    | nil => cases h
    | cons field fields =>
      rw [List.map_cons, List.map_cons] at h
      obtain ⟨hc, hcs⟩ := List.cons.inj h
      rw [List.map_cons, List.map_cons, ih (mapM_ok_iff.mpr hcs) hcs]
      cases ht : env.sqlStringToArrow c.dataType with
      | error e =>
        rw [ht] at hc
        cases hc
      | ok dataType =>
        rw [ht] at hc
        cases hc
        rfl

/-- A table that is registered with the columns of the catalog reads so. -/
theorem relation_evolving {table : String} {schema : Schema} (hp : s.ctx.lookup table = some ⟨objPath m.path, schema⟩)
    (hs : columnsToSchema env m.columns = .ok schema) : s.relation table = some ⟨schema, (s.evolving m).read⟩ := by
  unfold Db.relation
  rw [hp, Option.map_some, names_columnsToSchema hs, Store.read, Db.evolving, EvolvingTable.read, List.flatMap_map]
  rfl

/-- So does the file of an INSERT. -/
theorem storedRows_withFile (rows : List Row) (time : Nat) :
    ((s.withFile (objPath m.path) (m.columns.map (·.name)) rows time).evolving m).storedRows =
      ((s.evolving m).step (.insert rows)).storedRows := by
  have hinsert : ((s.evolving m).step (.insert rows)).storedRows =
      (s.evolving m).storedRows ++ rows.map fun row => ((s.evolving m).names, row) := by
    rw [← storedRows_newFile]
    exact List.flatMap_append
  rw [hinsert]
  simp [Db.evolving, Db.withFile, Store.list, EvolvingTable.storedRows, EvolvingTable.names]

/-- The columns of a table are set. -/
def CatalogData.withColumns (c : CatalogData) (table : String) (columns : List ColumnDef) : CatalogData :=
  { c with tables := c.tables.modify table fun m => { m with columns := columns } }

theorem CatalogData.lookup_withColumns (c : CatalogData) (table : String) (columns : List ColumnDef) (k : String) :
    (c.withColumns table columns).tables.lookup k =
      (c.tables.lookup k).map fun m => if k = table then { m with columns := columns } else m :=
  Map.lookup_mapValues _ _ _

/-- An operation of ALTER TABLE changes the columns in the catalog, or would change nothing. -/
theorem catalog_alterTableOperation {table : String} (hm : s.catalog.tables.lookup table = some m) (op : AlterTableOperation) :
    ((alterTableOperation table op).final s).catalog = s.catalog ∧ op.change m.columns = m.columns ∨
      ((alterTableOperation table op).final s).catalog = s.catalog.withColumns table (op.change m.columns) := by
  have hmeta : ∀ {α : Type} (f : TableMeta → M α), (tableMeta table >>= f).final s = (f m).final s := by
    intro α f
    unfold tableMeta
    rw [bind_bind, final_bind, result_get, final_get]
    dsimp only
    rw [hm, bind_pure_left]
  cases op with
  | addColumn column ifNotExists =>
    rw [alterTableOperation, hmeta, AlterTableOperation.change]
    by_cases h : m.columnNames.contains column.name = true
    · have h' : (m.columns.map (·.name)).contains column.name = true := h
      rw [if_pos h, if_pos h']
      left
      split <;> exact ⟨rfl, rfl⟩
    · have h' : ¬ (m.columns.map (·.name)).contains column.name = true := h
      rw [if_neg h, if_neg h']
      exact .inr rfl
  | dropColumn name ifExists =>
    rw [alterTableOperation, hmeta, AlterTableOperation.change]
    by_cases h : m.columnNames.contains name = true
    · rw [if_pos h]
      exact .inr rfl
    · rw [if_neg h]
      have hsame : m.columns.filter (fun c => decide (c.name ≠ name)) = m.columns := by
        rw [List.filter_eq_self]
        intro c hc
        simpa using fun he : c.name = name => h (by simpa [TableMeta.columnNames] using ⟨c, hc, he⟩)
      rw [hsame]
      left
      split <;> exact ⟨rfl, rfl⟩
  | renameColumn oldName newName =>
    rw [alterTableOperation, hmeta, AlterTableOperation.change]
    by_cases h : m.columnNames.contains oldName = true
    · rw [if_pos h]
      exact .inr rfl
    · rw [if_neg h]
      have hsame : ∀ columns : List ColumnDef, oldName ∉ columns.map (·.name) →
          renameColumn oldName newName columns = columns := by
        intro columns
        induction columns with
        | nil => exact fun _ => rfl
        | cons c cs ih =>
          intro hn
          rw [List.map_cons, List.mem_cons, not_or] at hn
          rw [PotatoDB.renameColumn, if_neg (Ne.symm hn.1), ih hn.2]
      exact .inl ⟨rfl, hsame m.columns (by simpa [TableMeta.columnNames] using h)⟩
  | unsupported display => exact .inl ⟨rfl, rfl⟩

/-- That is what the table above says. -/
theorem columns_alterTableOperation {table : String} (hm : s.catalog.tables.lookup table = some m)
    (op : AlterTableOperation) : (((alterTableOperation table op).final s).catalog.tables.lookup table).map (·.columns) =
      some (op.change m.columns) := by
  rcases catalog_alterTableOperation hm op with ⟨heq, hsame⟩ | heq
  · rw [heq, hm, Option.map_some, hsame]
  · rw [heq, CatalogData.lookup_withColumns, hm]
    simp

end

end PotatoDB
