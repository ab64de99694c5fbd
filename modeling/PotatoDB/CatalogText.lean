import PotatoDB.CatalogJson
import PotatoDB.JsonTorn

/-!
# The bytes of the catalog

The catalog is put as one indented document and read whole. What was put is loaded as it was, in either format, and a
file that ends too early is refused: no catalog is made of a part of its file, and no part is taken for a file of an
older version.
-/

namespace PotatoDB.CatalogJson

open Codecs

/-! ## Reading and writing the file -/

/-- `serde_json::from_slice`, before the fields are looked at. -/
def readDocument (bytes : ByteArray) : Except String Json :=
  match String.fromUTF8? bytes with
  | none => .error "invalid unicode code point"
  | some text => ((Json.parse text.toList).map Except.ok).getD (.error "expected value")

/-- `Catalog::load`, from the bytes that the store answers. -/
def loadBytes (answer : Except StoreError ByteArray) : Except String Catalog :=
  match answer with
  | .error e => load (.error e)
  | .ok bytes => do load (.ok (← readDocument bytes))

/-- `serde_json::to_string_pretty`, as bytes. -/
def toBytes (document : Json) : ByteArray := (String.ofList (document.print .pretty 0)).toUTF8

/-- The payload of `write_to_store`. -/
def Catalog.bytes (c : Catalog) : ByteArray := toBytes (document c)

/-! ## The depth of the document -/

section Within

variable (n : Nat)

theorem within_mono {n m : Nat} {j : Json} (h : j.Within n) (hle : n ≤ m) : j.Within m := by
  induction h generalizing m with
  | null => exact .null
  | bool b => exact .bool b
  | integer hlo hhi => exact .integer hlo hhi
  | string s => exact .string s
  | array h ih =>
    obtain ⟨k, rfl⟩ : ∃ k, m = k + 1 := ⟨m - 1, by omega⟩
    exact .array fun j hj => ih j hj (Nat.le_of_succ_le_succ hle)
  | object h ih =>
    obtain ⟨k, rfl⟩ : ∃ k, m = k + 1 := ⟨m - 1, by omega⟩
    exact .object fun f hf => ih f hf (Nat.le_of_succ_le_succ hle)

theorem within_nil : (Json.object []).Within (n + 1) := .object (by simp)

theorem within_cons {n : Nat} {name : String} {j : Json} {fs : List (String × Json)} (hj : j.Within n)
    (hfs : (Json.object fs).Within (n + 1)) : (Json.object ((name, j) :: fs)).Within (n + 1) := by
  refine .object ?_
  intro f hf
  obtain rfl | hf := List.mem_cons.mp hf
  · exact hj
  · cases hfs with
    | object h => exact h f hf

@[simp] theorem within_object {name : String} {j : Json} {fs : List (String × Json)} :
    (Json.object ((name, j) :: fs)).Within (n + 1) ↔ j.Within n ∧ (Json.object fs).Within (n + 1) := by
  constructor
  · intro h
    cases h with
    | object h => exact ⟨h (name, j) List.mem_cons_self, .object fun f hf => h f (List.mem_cons_of_mem _ hf)⟩
  · intro h
    exact within_cons h.1 h.2

attribute [simp] within_nil

@[simp] theorem within_string (s : String) : (Codec.string.encode s).Within n := .string s

@[simp] theorem within_bool (b : Bool) : (Codec.bool.encode b).Within n := .bool b

@[simp] theorem within_u64 (x : UInt64) : (Codec.u64.encode x).Within n := by
  have h := x.toNat_lt
  exact .integer (by omega) (by omega)

@[simp] theorem within_i64 (x : Int64) : (Codec.i64.encode x).Within n := by
  have hlo := x.le_toInt
  have hhi := x.toInt_lt
  exact .integer hlo (by omega)

variable {n} {α : Type} {c : Codec α}

theorem within_option {h : ∀ a, c.encode a ≠ .null} (hc : ∀ a, (c.encode a).Within n) (x : Option α) :
    ((Codec.option c h).encode x).Within n := by
  cases x with
  | none => exact .null
  | some a => exact hc a

theorem within_list (hc : ∀ a, (c.encode a).Within n) (as : List α) : (c.list.encode as).Within (n + 1) := by
  refine .array ?_
  intro j hj
  obtain ⟨a, _, rfl⟩ := List.mem_map.mp hj
  exact hc a

theorem within_map (hc : ∀ a, (c.encode a).Within n) (m : Map α) : (c.map.encode m).Within (n + 1) := by
  refine .object ?_
  intro f hf
  obtain ⟨e, _, rfl⟩ := List.mem_map.mp hf
  exact hc e.2

variable (n)

@[simp] theorem within_optionString (x : Option String) : (optionString.encode x).Within n := within_option (within_string n) x

@[simp] theorem within_optionU64 (x : Option UInt64) : (optionU64.encode x).Within n := within_option (within_u64 n) x

@[simp] theorem within_optionI64 (x : Option Int64) : (optionI64.encode x).Within n := within_option (within_i64 n) x

@[simp] theorem within_strings (xs : List String) : (Codec.string.list.encode xs).Within (n + 1) := within_list (within_string n) xs

@[simp] theorem within_columnDef (x : ColumnDef) : (columnDef.encode x).Within (n + 1) := by simp [columnDef]

@[simp] theorem within_columnStatistics (x : ColumnStatistics) : (columnStatistics.encode x).Within (n + 1) := by
  simp [columnStatistics]

@[simp] theorem within_tableStatistics (x : TableStatistics) : (tableStatistics.encode x).Within (n + 3) := by
  simp [tableStatistics, within_map (within_columnStatistics n)]

@[simp] theorem within_fileStats (x : FileStats) : (fileStats.encode x).Within (n + 2) := by
  simp [fileStats, within_map (within_string n)]

@[simp] theorem within_tableConstraint (x : TableConstraint) : (tableConstraint.encode x).Within (n + 3) := by
  cases x <;> simp [tableConstraint]

@[simp] theorem within_deletionEntry (x : DeletionEntry) : (deletionEntry.encode x).Within (n + 2) := by
  simp [deletionEntry, within_list (within_u64 n)]

theorem within_tableMeta (x : TableMeta) : (tableMeta.encode x).Within (n + 5) := by
  have hstatistics : (optionTableStatistics.encode x.statistics).Within (n + 4) := within_option (within_tableStatistics (n + 1)) _
  simp [tableMeta, hstatistics, within_list (within_columnDef (n + 2)), within_list (within_tableConstraint n),
    within_list (within_fileStats (n + 1)), within_list (within_deletionEntry (n + 1))]

theorem within_indexDef (x : IndexDef) : (indexDef.encode x).Within (n + 3) := by
  have hcolumn : ∀ c, (indexColumn.encode c).Within (n + 1) := fun c => by simp [indexColumn]
  simp [indexDef, within_list hcolumn]

theorem within_viewDef (x : ViewDef) : (viewDef.encode x).Within (n + 1) := by simp [viewDef]

theorem within_sequenceDef (x : SequenceDef) : (sequenceDef.encode x).Within (n + 1) := by simp [sequenceDef]

theorem within_udfDef (x : UdfDef) : (udfDef.encode x).Within (n + 2) := by simp [udfDef]

theorem within_userDef (x : UserDef) : (userDef.encode x).Within (n + 1) := by simp [userDef]

theorem within_roleDef (x : RoleDef) : (roleDef.encode x).Within (n + 3) := by
  have hprivilege : ∀ p, (privilege.encode p).Within (n + 1) := fun p => by simp [privilege]
  simp [roleDef, within_list hprivilege]

theorem within_triggerDef (x : TriggerDef) : (triggerDef.encode x).Within (n + 1) := by simp [triggerDef]

theorem within_migrationRecord (x : MigrationRecord) : (migrationRecord.encode x).Within (n + 1) := by simp [migrationRecord]

theorem within_legacyTables (tables : Map TableMeta) : (legacyTables.encode tables).Within (n + 6) := within_map (within_tableMeta n) tables

theorem within_catalogData (x : CatalogData) : (catalogData.encode x).Within (n + 7) := by
  simp [catalogData, within_map (within_tableMeta n), within_map (within_indexDef (n + 2)), within_map (within_viewDef (n + 4)),
    within_map (within_sequenceDef (n + 4)), within_map (within_udfDef (n + 3)), within_map (within_userDef (n + 4)),
    within_map (within_roleDef (n + 2)), within_map (within_strings (n + 4)), within_map (within_triggerDef (n + 4)),
    within_list (within_migrationRecord (n + 4))]

end Within

/-! ## What is put is loaded -/

theorem fromUTF8_toUTF8 (text : String) : String.fromUTF8? text.toUTF8 = some text := by
  unfold String.fromUTF8?
  exact dif_pos text.isValidUTF8

theorem toUTF8_of_fromUTF8 {bytes : ByteArray} {text : String} (h : String.fromUTF8? bytes = some text) : text.toUTF8 = bytes := by
  unfold String.fromUTF8? at h
  split at h
  · cases h
    rfl
  · cases h

theorem readDocument_toBytes {doc : Json} (h : doc.Within 127) : readDocument (toBytes doc) = .ok doc := by
  rw [readDocument, toBytes, fromUTF8_toUTF8]
  dsimp only
  rw [String.toList_ofList, parse_print .pretty h]
  rfl

theorem loadBytes_toBytes {doc : Json} (h : doc.Within 127) : loadBytes (.ok (toBytes doc)) = load (.ok doc) := by
  rw [loadBytes, readDocument_toBytes h]
  rfl

/-- The first bytes of a text, if they are a text, are a proper beginning of it. -/
theorem torn_text {text torn : String} {n : Nat} (h : String.fromUTF8? (text.toUTF8.extract 0 n) = some torn) (hn : n < text.toUTF8.size) :
    ∃ rest, text.toList = torn.toList ++ rest ∧ rest ≠ [] := by
  have htorn := toUTF8_of_fromUTF8 h
  have hbytes : torn.toList.utf8Encode ++ text.toUTF8.extract n text.toUTF8.size = text.toList.utf8Encode := by
    rw [String.utf8Encode_toList, String.utf8Encode_toList, ← String.toUTF8, htorn,
      ← ByteArray.extract_eq_extract_append_extract n (Nat.zero_le n) hn.le, ByteArray.extract_zero_size]
    rfl
  obtain ⟨rest, hrest⟩ := List.isPrefix_of_utf8Encode_append_eq_utf8Encode _ hbytes
  refine ⟨rest, hrest.symm, ?_⟩
  intro hnil
  rw [hnil, List.append_nil, String.toList_inj] at hrest
  have hsize := congrArg ByteArray.size htorn
  rw [hrest, ByteArray.size_extract] at hsize
  omega

theorem readDocument_torn {doc : Json} (h : doc.Within 127) (hbracketed : doc.isBracketed = true) {n : Nat} (hn : n < (toBytes doc).size) :
    ∃ e, readDocument ((toBytes doc).extract 0 n) = .error e := by
  unfold readDocument
  split
  · exact ⟨_, rfl⟩
  · rename_i torn htorn
    obtain ⟨rest, hsplit, hrest⟩ := torn_text htorn hn
    rw [String.toList_ofList] at hsplit
    rw [parse_print_torn .pretty h hbracketed hsplit hrest]
    exact ⟨_, rfl⟩

theorem loadBytes_torn {doc : Json} (h : doc.Within 127) (hbracketed : doc.isBracketed = true) {n : Nat} (hn : n < (toBytes doc).size) :
    ∃ e, loadBytes (.ok ((toBytes doc).extract 0 n)) = .error e := by
  obtain ⟨e, he⟩ := readDocument_torn h hbracketed hn
  refine ⟨e, ?_⟩
  rw [loadBytes, he]
  rfl

end PotatoDB.CatalogJson
