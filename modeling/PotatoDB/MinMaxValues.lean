import PotatoDB.KeyedBounds
import PotatoDB.WalSound

/-!
# The least and greatest values of Parquet files

The statistics of the row groups are merged as texts, read from their bytes as UTF-8 and compared as texts, under the names
of the columns.
-/

namespace PotatoDB.Parquet

open KeyedBounds (note notes noted Keeps)

/-! ## Statistics -/

/-- The encoded bounds of a column in a row group, each if it is there. -/
structure Statistics where
  minBytesOpt : Option (List UInt8)
  maxBytesOpt : Option (List UInt8)

/-- The paths of the columns of a file, and of each row group a chunk for every column. -/
structure ParquetMetaData where
  columns : List (List String)
  rowGroups : List (List (Option Statistics))
  chunks : ∀ group ∈ rowGroups, group.length = columns.length

/-- The name of a column is the last one of its path. -/
def columnName (path : List String) : String := path.getLast?.getD ""

/-- The two maps that are filled. -/
structure MinMaxValues where
  minValues : String → Option String
  maxValues : String → Option String

def MinMaxValues.empty : MinMaxValues := ⟨fun _ => none, fun _ => none⟩

def keepLess (m : String → Option String) (name text : String) : String → Option String :=
  Function.update m name (some (match m name with
    | none => text
    | some v => if text < v then text else v))

def keepGreater (m : String → Option String) (name text : String) : String → Option String :=
  Function.update m name (some (match m name with
    | none => text
    | some v => if v < text then text else v))

def noteChunk (v : MinMaxValues) (path : List String) (chunk : Option Statistics) : MinMaxValues :=
  match chunk with
  | none => v
  | some stats =>
    match stats.minBytesOpt with
    | none => v
    | some minBytes =>
      match stats.maxBytesOpt with
      | none => v
      | some maxBytes =>
        ⟨keepLess v.minValues (columnName path) (fromUtf8Lossy minBytes),
          keepGreater v.maxValues (columnName path) (fromUtf8Lossy maxBytes)⟩

def collectMinmaxFromParquet (pqMeta : ParquetMetaData) (v : MinMaxValues) : MinMaxValues :=
  pqMeta.rowGroups.foldl (fun v group => (pqMeta.columns.zip group).foldl (fun v c => noteChunk v c.1 c.2) v) v

/-- The maps after some files. -/
def collectFiles (files : List ParquetMetaData) : MinMaxValues :=
  files.foldl (fun v pqMeta => collectMinmaxFromParquet pqMeta v) .empty

/-! ## What the maps are to hold -/

/-- The values of a column with their order, and how they are encoded in the statistics. -/
structure ColumnType where
  Value : Type
  order : LinearOrder Value
  decode : List UInt8 → Option Value
  decode_inj : ∀ {b b' : List UInt8} {v : Value}, decode b = some v → decode b' = some v → b = b'

instance (t : ColumnType) : LinearOrder t.Value := t.order

/-- Both bounds of a chunk. -/
def bounds : Option Statistics → Option (List UInt8 × List UInt8)
  | some ⟨some minBytes, some maxBytes⟩ => some (minBytes, maxBytes)
  | _ => none

/-- The chunk of a column in every row group of every file. -/
def ownChunks (path : List String) (files : List ParquetMetaData) : List (Option Statistics) :=
  files.flatMap fun pqMeta => pqMeta.rowGroups.map fun group => ((pqMeta.columns.zip group).lookup path).join

/-- The bounds of all chunks with their columns, in the order in which they are met. -/
def allBounds (files : List ParquetMetaData) : List (List String × (List UInt8 × List UInt8)) :=
  files.flatMap fun pqMeta => pqMeta.rowGroups.flatMap fun group =>
    (pqMeta.columns.zip group).filterMap fun c => (bounds c.2).map (c.1, ·)

/-- A text denotes the value that its bytes encode. -/
def Denotes (t : ColumnType) (text : String) (v : t.Value) : Prop := t.decode (asBytes text) = some v

/-- The values of all row groups. -/
def values {t : ColumnType} (groups : List (List t.Value)) : Set t.Value := {v | ∃ group ∈ groups, v ∈ group}

/-- The statistics of a row group are those of its values. -/
def Right (t : ColumnType) (chunk : Option Statistics) (group : List t.Value) : Prop :=
  ∀ b ∈ bounds chunk, (∃ v, t.decode b.1 = some v ∧ IsLeast {w | w ∈ group} v) ∧ ∃ v, t.decode b.2 = some v ∧ IsGreatest {w | w ∈ group} v

/-- There is a row group, and every one has statistics for the column. -/
def Complete (path : List String) (files : List ParquetMetaData) : Prop :=
  ownChunks path files ≠ [] ∧ ∀ chunk ∈ ownChunks path files, (bounds chunk).isSome = true

/-- The maps hold the least and the greatest value of a column, or nothing where a row group has no statistics for it. -/
structure Merges (t : ColumnType) (path : List String) (files : List ParquetMetaData) (groups : List (List t.Value)) : Prop where
  merged : Complete path files →
    (∃ text v, (collectFiles files).minValues (columnName path) = some text ∧ Denotes t text v ∧ IsLeast (values groups) v) ∧
      ∃ text v, (collectFiles files).maxValues (columnName path) = some text ∧ Denotes t text v ∧ IsGreatest (values groups) v
  missing : ¬ Complete path files →
    (collectFiles files).minValues (columnName path) = none ∧ (collectFiles files).maxValues (columnName path) = none

/-- The bounds of the columns of one name. -/
def namedBounds (name : String) (files : List ParquetMetaData) : List (List UInt8 × List UInt8) :=
  (allBounds files).filterMap fun b => if columnName b.1 = name then some b.2 else none

/-- The bounds of a column. -/
def ownBounds (path : List String) (files : List ParquetMetaData) : List (List UInt8 × List UInt8) :=
  (ownChunks path files).filterMap bounds

/-- The least value is encoded in the column as a text, and no text of a lower bound under the name of the column is less, the
same for the greatest. Without statistics in some row group, no column of the name has any. -/
structure Agrees (t : ColumnType) (path : List String) (files : List ParquetMetaData) (groups : List (List t.Value)) : Prop where
  merged : Complete path files →
    (∃ text v, asBytes text ∈ (ownBounds path files).map Prod.fst ∧ Denotes t text v ∧ IsLeast (values groups) v ∧
      ∀ b ∈ namedBounds (columnName path) files, text ≤ fromUtf8Lossy b.1) ∧
    ∃ text v, asBytes text ∈ (ownBounds path files).map Prod.snd ∧ Denotes t text v ∧ IsGreatest (values groups) v ∧
      ∀ b ∈ namedBounds (columnName path) files, fromUtf8Lossy b.2 ≤ text
  missing : ¬ Complete path files → namedBounds (columnName path) files = []

/-! ## The maps -/

theorem noteChunk_bounds (v : MinMaxValues) (path : List String) (chunk : Option Statistics) : noteChunk v path chunk =
    match bounds chunk with
    | none => v
    | some b => ⟨keepLess v.minValues (columnName path) (fromUtf8Lossy b.1), keepGreater v.maxValues (columnName path) (fromUtf8Lossy b.2)⟩ := by
  obtain _ | ⟨_ | minBytes, _ | maxBytes⟩ := chunk <;> rfl

theorem collectFiles_allBounds (files : List ParquetMetaData) : collectFiles files = (allBounds files).foldl (fun v b =>
    ⟨keepLess v.minValues (columnName b.1) (fromUtf8Lossy b.2.1), keepGreater v.maxValues (columnName b.1) (fromUtf8Lossy b.2.2)⟩)
    .empty := by
  rw [collectFiles, allBounds, List.foldl_flatMap]
  congr 1
  funext v pqMeta
  rw [collectMinmaxFromParquet, List.foldl_flatMap]
  congr 1
  funext v group
  rw [List.foldl_filterMap]
  congr 1
  funext v c
  rw [noteChunk_bounds]
  cases bounds c.2 <;> rfl

theorem keepLess_note (m : String → Option String) (name text : String) : keepLess m name text = note m name text := by
  unfold keepLess note
  cases m name <;> rfl

theorem keepGreater_note (m : String → Option String) (name text : String) :
    keepGreater m name text = @note String (String)ᵒᵈ _ _ m name text := by
  unfold keepGreater note
  cases m name <;> rfl

theorem minValues_collectFiles (files : List ParquetMetaData) : (collectFiles files).minValues =
    notes (fun _ => none) ((allBounds files).map fun b => (columnName b.1, fromUtf8Lossy b.2.1)) := by
  rw [collectFiles_allBounds, notes, List.foldl_map]
  exact (List.foldl_hom MinMaxValues.minValues fun v b => (keepLess_note _ _ _).symm).symm

/-- In the dual order, since the greatest values are kept. -/
theorem maxValues_collectFiles (files : List ParquetMetaData) : (collectFiles files).maxValues =
    @notes String (String)ᵒᵈ _ _ (fun _ => none) ((allBounds files).map fun b => (columnName b.1, fromUtf8Lossy b.2.2)) := by
  rw [collectFiles_allBounds, notes, List.foldl_map]
  exact (List.foldl_hom MinMaxValues.maxValues fun v b => (keepGreater_note _ _ _).symm).symm

theorem mem_namedBounds {name : String} {files : List ParquetMetaData} {b : List UInt8 × List UInt8} :
    b ∈ namedBounds name files ↔ ∃ path, columnName path = name ∧ (path, b) ∈ allBounds files := by
  simp only [namedBounds, List.mem_filterMap, Option.ite_none_right_eq_some, Option.some.injEq]
  constructor
  · intro ⟨⟨path, b'⟩, hmem, hname, heq⟩
    subst heq
    exact ⟨path, hname, hmem⟩
  · intro ⟨path, hname, hmem⟩
    exact ⟨(path, b), hmem, hname, rfl⟩

/-- The texts that are noted under a name. -/
theorem noted_allBounds {T : Type} (files : List ParquetMetaData) (name : String) (text : List UInt8 × List UInt8 → T) :
    noted ((allBounds files).map fun b => (columnName b.1, text b.2)) name = {x | ∃ b ∈ namedBounds name files, text b = x} := by
  ext x
  simp only [noted, Set.mem_ofPred_eq, List.mem_map, Prod.mk.injEq, mem_namedBounds]
  constructor
  · rintro ⟨⟨path, b⟩, hmem, hname, htext⟩
    exact ⟨b, ⟨path, hname, hmem⟩, htext⟩
  · rintro ⟨b, ⟨path, hname, hmem⟩, htext⟩
    exact ⟨(path, b), hmem, hname, htext⟩

theorem ownBounds_subset (path : List String) (files : List ParquetMetaData) :
    ownBounds path files ⊆ namedBounds (columnName path) files := by
  intro b hb
  obtain ⟨chunk, hchunk, hbounds⟩ := List.mem_filterMap.mp hb
  obtain ⟨pqMeta, hfile, hmem⟩ := List.mem_flatMap.mp hchunk
  obtain ⟨group, hgroup, rfl⟩ := List.mem_map.mp hmem
  cases hlookup : (pqMeta.columns.zip group).lookup path with
  | none =>
    rw [hlookup] at hbounds
    cases hbounds
  | some chunk =>
    rw [hlookup, Option.join_some] at hbounds
    obtain ⟨before, after, hsplit, -⟩ := List.lookup_eq_some_iff.mp hlookup
    refine mem_namedBounds.mpr ⟨path, rfl, ?_⟩
    refine List.mem_flatMap.mpr ⟨pqMeta, hfile, List.mem_flatMap.mpr ⟨group, hgroup, List.mem_filterMap.mpr ⟨(path, chunk), ?_, ?_⟩⟩⟩
    · simp [hsplit]
    · rw [hbounds]
      rfl

/-- One of the two bounds; the order is the dual one for the upper bounds. -/
theorem side_iff {T V : Type} [LinearOrder T] [LinearOrder V] (side : List UInt8 × List UInt8 → List UInt8) {text : List UInt8 → T}
    {encode : T → List UInt8} (hback : ∀ x, text (encode x) = x) {decode : List UInt8 → Option V}
    (hinj : ∀ {b b' v}, decode b = some v → decode b' = some v → b = b') {path : List String} {files : List ParquetMetaData}
    (hcomplete : Complete path files) {groups : List (List V)}
    (hright : List.Forall₂ (fun c g => ∀ b ∈ bounds c, ∃ v, decode (side b) = some v ∧ IsLeast {w | w ∈ g} v)
      (ownChunks path files) groups) :
    (∃ x v, notes (fun _ => none) ((allBounds files).map fun b => (columnName b.1, text (side b.2))) (columnName path) = some x ∧
        decode (encode x) = some v ∧ IsLeast {w | ∃ g ∈ groups, w ∈ g} v) ↔
      ∃ x v, encode x ∈ (ownBounds path files).map side ∧ decode (encode x) = some v ∧ IsLeast {w | ∃ g ∈ groups, w ∈ g} v ∧
        ∀ b ∈ namedBounds (columnName path) files, x ≤ text (side b) := by
  obtain ⟨hne, hbounds⟩ := hcomplete
  have hgroups : List.Forall₂ (fun c g => ∃ v, (∃ b, bounds c = some b ∧ decode (side b) = some v) ∧ IsLeast {w | w ∈ g} v)
      (ownChunks path files) groups := by
    refine ((List.forall₂_and_left _ _).mpr ⟨hbounds, hright⟩).imp ?_
    intro c g ⟨hsome, h⟩
    obtain ⟨b, hb⟩ := Option.isSome_iff_exists.mp hsome
    obtain ⟨v, hv, hleast⟩ := h b hb
    exact ⟨v, ⟨b, hb, hv⟩, hleast⟩
  obtain ⟨c, hc, v, ⟨b, hb, hv⟩, hleast⟩ := KeyedBounds.least_of_groups hgroups hne
  have hown : b ∈ ownBounds path files := List.mem_filterMap.mpr ⟨c, hc, hb⟩
  have hkeeps := KeyedBounds.keeps_notes ((allBounds files).map fun b => (columnName b.1, text (side b.2)))
  have hnoted := noted_allBounds files (columnName path) fun b => text (side b)
  cases hkept : notes (fun _ => none) ((allBounds files).map fun b => (columnName b.1, text (side b.2))) (columnName path) with
  | none =>
    refine absurd ?_ (hkeeps.eq_none_iff.mp hkept (text (side b)))
    rw [hnoted]
    exact ⟨b, ownBounds_subset path files hown, rfl⟩
  | some m =>
    have hm := hkeeps.least hkept
    rw [hnoted] at hm
    have hnamed : {x | ∃ b ∈ namedBounds (columnName path) files, text (side b) = x} =
        {x | ∃ b ∈ (namedBounds (columnName path) files).map side, text b = x} := by
      ext x
      simp
    rw [hnamed] at hm
    have hiff := KeyedBounds.encodes_least_iff hback hinj (List.map_subset side (ownBounds_subset path files)) hleast
      ⟨side b, List.mem_map_of_mem hown, hv⟩ hm
    simp only [List.forall_mem_map] at hiff
    rw [← hiff]
    simp

theorem notes_none {T : Type} [LinearOrder T] (text : List UInt8 × List UInt8 → T) (name : String) (files : List ParquetMetaData) :
    notes (fun _ => none) ((allBounds files).map fun b => (columnName b.1, text b.2)) name = none ↔ namedBounds name files = [] := by
  rw [(KeyedBounds.keeps_notes _).eq_none_iff, noted_allBounds]
  constructor
  · intro h
    refine List.eq_nil_iff_forall_not_mem.mpr fun b hb => ?_
    exact h (text b) ⟨b, hb, rfl⟩
  · intro hnil x ⟨b, hb, _⟩
    rw [hnil] at hb
    cases hb

theorem Right.lower {t : ColumnType} {chunks : List (Option Statistics)} {groups : List (List t.Value)}
    (h : List.Forall₂ (Right t) chunks groups) :
    List.Forall₂ (fun c g => ∀ b ∈ bounds c, ∃ v, t.decode b.1 = some v ∧ IsLeast {w | w ∈ g} v) chunks groups :=
  h.imp fun _ _ hright b hb => (hright b hb).1

/-- In the dual order. -/
theorem Right.upper {t : ColumnType} {chunks : List (Option Statistics)} {groups : List (List t.Value)}
    (h : List.Forall₂ (Right t) chunks groups) :
    @List.Forall₂ _ (List (t.Value)ᵒᵈ) (fun c g => ∀ b ∈ bounds c, ∃ v, t.decode b.2 = some v ∧
      @IsLeast (t.Value)ᵒᵈ _ {w | w ∈ g} v) chunks groups :=
  h.imp fun _ _ hright b hb => (hright b hb).2

/-- The maps are right for a column exactly if its bounds are encoded as texts that are in their order among all of the name. -/
theorem minmax_iff (t : ColumnType) (path : List String) (files : List ParquetMetaData) (groups : List (List t.Value))
    (hright : List.Forall₂ (Right t) (ownChunks path files) groups) : Merges t path files groups ↔ Agrees t path files groups := by
  by_cases hcomplete : Complete path files
  · have hmin := @side_iff String t.Value _ _ Prod.fst fromUtf8Lossy asBytes fromUtf8Lossy_asBytes t.decode t.decode_inj path files
      hcomplete groups (Right.lower hright)
    have hmax := @side_iff (String)ᵒᵈ (t.Value)ᵒᵈ _ _ Prod.snd fromUtf8Lossy asBytes fromUtf8Lossy_asBytes t.decode t.decode_inj path
      files hcomplete groups (Right.upper hright)
    have hmerged := and_congr hmin hmax
    rw [← minValues_collectFiles, ← maxValues_collectFiles] at hmerged
    constructor
    · intro h
      exact ⟨fun _ => hmerged.mp (h.merged hcomplete), fun hnot => absurd hcomplete hnot⟩
    · intro h
      exact ⟨fun _ => hmerged.mpr (h.merged hcomplete), fun hnot => absurd hcomplete hnot⟩
  · have hmin := notes_none (fun b => fromUtf8Lossy b.1) (columnName path) files
    have hmax := @notes_none (String)ᵒᵈ _ (fun b => fromUtf8Lossy b.2) (columnName path) files
    rw [← minValues_collectFiles] at hmin
    rw [← maxValues_collectFiles] at hmax
    constructor
    · intro h
      exact ⟨fun hdone => absurd hdone hcomplete, fun _ => hmin.mp (h.missing hcomplete).1⟩
    · intro h
      exact ⟨fun hdone => absurd hdone hcomplete, fun hnot => ⟨hmin.mpr (h.missing hnot), hmax.mpr (h.missing hnot)⟩⟩

/-! ## Integers -/

/-- The little-endian bytes of a signed integer. -/
def decodeInt32 (bytes : List UInt8) : Option Int :=
  if bytes.length = 4 then
    some (if fromLeBytes bytes < 2147483648 then fromLeBytes bytes else fromLeBytes bytes - 4294967296)
  else none

theorem decodeInt32_some {bytes : List UInt8} {v : Int} (h : decodeInt32 bytes = some v) :
    bytes.length = 4 ∧ v % 4294967296 = fromLeBytes bytes := by
  unfold decodeInt32 at h
  split at h
  · rename_i hlength
    have hlt := fromLeBytes_lt bytes
    rw [hlength] at hlt
    have hv := Option.some.inj h
    refine ⟨hlength, ?_⟩
    split at hv <;> omega
  · cases h

def int32 : ColumnType where
  Value := Int
  order := inferInstance
  decode := decodeInt32
  decode_inj := by
    intro bytes bytes' v h h'
    obtain ⟨hlength, hv⟩ := decodeInt32_some h
    obtain ⟨hlength', hv'⟩ := decodeInt32_some h'
    have hnumber : fromLeBytes bytes = fromLeBytes bytes' := by omega
    rw [← toLeBytes_fromLeBytes bytes, ← toLeBytes_fromLeBytes bytes', hlength, hlength', hnumber]

/-- A row group with the value 1, and one with the value 256. -/
def idFile : ParquetMetaData where
  columns := [["id"]]
  rowGroups := [[some ⟨some [1, 0, 0, 0], some [1, 0, 0, 0]⟩], [some ⟨some [0, 1, 0, 0], some [0, 1, 0, 0]⟩]]
  chunks := by simp

theorem idFile_right : List.Forall₂ (Right int32) (ownChunks ["id"] [idFile]) [[(1 : Int)], [(256 : Int)]] := by
  have hright : ∀ (t : ColumnType) (bytes : List UInt8) (v : t.Value), t.decode bytes = some v →
      Right t (some ⟨some bytes, some bytes⟩) [v] := by
    intro t bytes v hv b hb
    cases hb
    exact ⟨⟨v, hv, by simp⟩, v, hv, by simp⟩
  exact .cons (hright int32 _ _ rfl) (.cons (hright int32 _ _ rfl) .nil)

theorem idFile_iff : Merges int32 ["id"] [idFile] [[(1 : Int)], [(256 : Int)]] ↔ Agrees int32 ["id"] [idFile] [[(1 : Int)], [(256 : Int)]] :=
  minmax_iff int32 ["id"] [idFile] [[(1 : Int)], [(256 : Int)]] idFile_right

/-- The bytes of 256 are the lesser text, though the statistics are right. -/
theorem idFile_wrong : List.Forall₂ (Right int32) (ownChunks ["id"] [idFile]) [[(1 : Int)], [(256 : Int)]] ∧
    ¬ Merges int32 ["id"] [idFile] [[(1 : Int)], [(256 : Int)]] := by
  have hcomplete : Complete ["id"] [idFile] := by
    refine ⟨nofun, ?_⟩
    intro chunk hchunk
    have hchunks : ownChunks ["id"] [idFile] = [some ⟨some [1, 0, 0, 0], some [1, 0, 0, 0]⟩,
      some ⟨some [0, 1, 0, 0], some [0, 1, 0, 0]⟩] := rfl
    rw [hchunks] at hchunk
    simp only [List.mem_cons, List.not_mem_nil, or_false] at hchunk
    obtain rfl | rfl := hchunk <;> rfl
  have hkept : (collectFiles [idFile]).minValues (columnName ["id"]) = some "\x00\x01\x00\x00" := by decide +kernel
  have hbytes : decodeInt32 (asBytes "\x00\x01\x00\x00") = some 256 := by decide +kernel
  refine ⟨idFile_right, ?_⟩
  intro h
  obtain ⟨⟨text, v, hmin, hdenotes, hleast⟩, -⟩ := h.merged hcomplete
  rw [hkept] at hmin
  cases hmin
  have hv : (256 : Int) = v := Option.some.inj (hbytes.symm.trans hdenotes)
  have hle : v ≤ (1 : Int) := hleast.2 ⟨[(1 : Int)], List.mem_cons_self, List.mem_singleton_self _⟩
  rw [← hv] at hle
  exact absurd (show (256 : Int) ≤ 1 from hle) (by decide)

end PotatoDB.Parquet
