import PotatoDB.TypeNames

/-!
# The catalog of PostgreSQL

A driver looks a table up in `pg_class` and finds its columns in `pg_attribute` under the number that it has there. The
type of a column is told once more with the rows of a query, by a code for the type that they have in Arrow.
-/

namespace PotatoDB.PgCatalog

open Texts (CaseMapping)
open TypeNames

/-! ## Codes of types -/

/-- `sql_type_to_pg_oid`. -/
def sqlTypeToPgOid (m : CaseMapping) (sqlType : List Char) : Nat :=
  let upper := m.toUppercase sqlType
  if containsText "BIGINT".toList upper then 20
  else if containsText "SMALLINT".toList upper then 21
  else if containsText "INT".toList upper then 23
  else if containsText "VARCHAR".toList upper || containsText "CHAR".toList upper then 1043
  else if containsText "BOOL".toList upper then 16
  else if containsText "FLOAT".toList upper || containsText "DOUBLE".toList upper then 701
  else if containsText "REAL".toList upper then 700
  else if upper = "TEXT".toList || containsText "TEXT".toList upper then 25
  else if containsText "TIMESTAMP".toList upper then 1114
  else if containsText "DATE".toList upper then 1082
  else if containsText "UUID".toList upper then 2950
  else if containsText "DECIMAL".toList upper || containsText "NUMERIC".toList upper then 1700
  else 25

/-- The types of the protocol that rows are sent in. -/
inductive PgType where
  | bool
  | int2
  | int4
  | int8
  | float4
  | float8
  | varchar
  | date
  | timestamp
  | interval
  | uuid
  | numeric
  | bytea
  | text
deriving DecidableEq

def PgType.oid : PgType → Nat
  | bool => 16
  | int2 => 21
  | int4 => 23
  | int8 => 20
  | float4 => 700
  | float8 => 701
  | varchar => 1043
  | date => 1082
  | timestamp => 1114
  | interval => 1186
  | uuid => 2950
  | numeric => 1700
  | bytea => 17
  | text => 25

def arrowToPgType : DataType → PgType
  | .boolean => .bool
  | .int8 | .int16 => .int2
  | .int32 | .uint8 | .uint16 => .int4
  | .int64 | .uint32 | .uint64 => .int8
  | .float32 => .float4
  | .float64 => .float8
  | .utf8 => .varchar
  | .date32 | .date64 => .date
  | .timestamp _ _ => .timestamp
  | .duration _ => .interval
  | .fixedSizeBinary size => if size = 16 then .uuid else .text
  | .decimal128 _ _ => .numeric
  | .binary | .largeBinary => .bytea
  | .other text => if text = "LargeUtf8".toList then .varchar else .text
  | _ => .text

/-- The type of the elements of the elements of an array, and so on. -/
def innermost : DataType → DataType
  | .list _ element _ => innermost element
  | t => t

/-- The types that have one code in the catalog and in the protocol. -/
def OneCode : DataType → Prop
  | .list _ element _ => innermost element = .binary
  | .int8 | .duration _ | .binary => False
  | _ => True

/-! ## The catalog -/

structure PgClass where
  oid : Nat
  relname : String
deriving DecidableEq

structure PgAttribute where
  attrelid : Nat
  attname : String
  attnum : Nat
  atttypid : Nat
deriving DecidableEq

section
variable (m : CaseMapping) (c : CatalogData)

def pgClass : List PgClass := (c.tables.keys.zipIdx 1).map fun p => ⟨p.2, p.1⟩

def attributesOf (relOid : Nat) (columns : List ColumnDef) : List PgAttribute :=
  (columns.zipIdx 1).map fun p => ⟨relOid, p.1.name, p.2, sqlTypeToPgOid m p.1.dataType.toList⟩

def pgAttribute : List PgAttribute := (c.tables.values.zipIdx 1).flatMap fun p => attributesOf m p.2 p.1.columns

def pgType : List (Nat × String × Int) :=
  [(23, "int4", 4), (1043, "varchar", -1), (16, "bool", 1), (701, "float8", 8), (25, "text", -1), (1114, "timestamp", 8),
    (1082, "date", 4)]

inductive PgRows where
  | types (rows : List (Nat × String × Int))
  | classes (rows : List PgClass)
  | namespaces (rows : List (Nat × String))
  | attributes (rows : List PgAttribute)
  | nothing
deriving DecidableEq

/-- `handle_pg_catalog_query`; it answers the first table that the text names, whole. -/
def handlePgCatalogQuery (sql : List Char) : PgRows :=
  let upper := m.toUppercase sql
  if containsText "PG_TYPE".toList upper then .types pgType
  else if containsText "PG_CLASS".toList upper then .classes (pgClass c)
  else if containsText "PG_NAMESPACE".toList upper then .namespaces [(2200, "public")]
  else if containsText "PG_ATTRIBUTE".toList upper then .attributes (pgAttribute m c)
  else .nothing

end


/-! ## Words in names -/

theorem containsText_iff (needle hay : List Char) : containsText needle hay = true ↔ needle <:+: hay := by
  unfold containsText
  induction hay with
  | nil =>
    rw [textAfter, List.infix_nil]
    by_cases h : needle = [] <;> simp [h]
  | cons c cs ih =>
    rw [textAfter, List.infix_cons_iff]
    by_cases h : needle.isPrefixOf (c :: cs) = true
    · rw [if_pos h]
      simp [List.isPrefixOf_iff_prefix.mp h]
    · rw [if_neg h, ih]
      simp [← List.isPrefixOf_iff_prefix, h]

/-- What stands behind a text brings no word into it, if it has no letter of the word. -/
theorem containsText_tail {needle tail : List Char} (h : ∀ c ∈ tail, c ∉ needle) (s : List Char) :
    containsText needle (s ++ tail) = containsText needle s := by
  rw [Bool.eq_iff_iff, containsText_iff, containsText_iff]
  refine ⟨fun hin => ?_, fun hin => hin.trans (List.prefix_append _ _).isInfix⟩
  by_cases hne : needle = []
  · simp [hne]
  obtain ⟨before, after, hin⟩ := hin
  obtain ⟨rest, rfl, _⟩ | ⟨rest, hrest, htail⟩ := List.append_eq_append_iff.mp hin
  · exact ⟨before, rest, rfl⟩
  · obtain ⟨last, hlast⟩ : ∃ last, needle.getLast? = some last := Option.isSome_iff_exists.mp (by simpa using hne)
    by_cases hnil : rest = []
    · rw [hnil, List.append_nil] at hrest
      exact ⟨before, [], by simp [hrest]⟩
    · have hend : rest.getLast? = some last := by
        rw [← hlast, ← List.getLast?_append_of_ne_nil before hne, hrest, List.getLast?_append_of_ne_nil s hnil]
      have hmem : last ∈ tail := by
        rw [htail]
        exact List.mem_append_left _ (List.mem_of_getLast? hend)
      exact absurd (List.mem_of_getLast? hlast) (h last hmem)

/-- A name that is in capitals already, with its digits and signs. -/
def Capitals (s : List Char) : Prop := s.all (fun c => c.toNat < 128 && c.toUpper = c) = true

instance decidableCapitals (s : List Char) : Decidable (Capitals s) := inferInstanceAs (Decidable (_ = _))

theorem Capitals.append {s t : List Char} (hs : Capitals s) (ht : Capitals t) : Capitals (s ++ t) := by
  rw [Capitals, List.all_append, hs, ht]
  rfl

/-- Capitals without a letter. -/
def Signs (s : List Char) : Prop := s.all (fun c => c.toNat < 128 && c.toUpper = c && !c.isUpper) = true

instance decidableSigns (s : List Char) : Decidable (Signs s) := inferInstanceAs (Decidable (_ = _))

theorem Signs.append {s t : List Char} (hs : Signs s) (ht : Signs t) : Signs (s ++ t) := by
  rw [Signs, List.all_append, hs, ht]
  rfl

theorem Signs.capitals {s : List Char} (h : Signs s) : Capitals s ∧ s.any Char.isUpper = false := by
  have hall := List.all_eq_true.mp h
  simp only [Bool.and_eq_true, Bool.not_eq_true'] at hall
  refine ⟨List.all_eq_true.mpr fun c hc => ?_, List.any_eq_false.mpr fun c hc => ?_⟩
  · rw [Bool.and_eq_true]
    exact (hall c hc).1
  · simp [(hall c hc).2]

theorem signs_number (n : Nat) : Signs (Nat.toDigits 10 n) := by
  refine List.all_eq_true.mpr fun c hc => ?_
  have hdigit := Nat.isDigit_of_mem_toDigits (by decide) (by decide) hc
  have hrange : 48 ≤ c.toNat ∧ c.toNat ≤ 57 := by
    simpa [Char.isDigit, UInt32.le_iff_toNat_le] using hdigit
  have hall : ∀ n : Nat, 48 ≤ n → n ≤ 57 →
      ((Char.ofNat n).toNat < 128 && (Char.ofNat n).toUpper = Char.ofNat n && !(Char.ofNat n).isUpper) = true := by
    intro n hlo hhi
    interval_cases n <;> decide
  rw [← Char.ofNat_toNat c]
  exact hall c.toNat hrange.1 hrange.2

theorem signs_int (s : Int) : Signs (toString s).toList := by
  cases s with
  | ofNat n =>
    have htext : (toString (Int.ofNat n)).toList = Nat.toDigits 10 n := Nat.toList_repr
    rw [htext]
    exact signs_number n
  | negSucc n =>
    have htext : (toString (Int.negSucc n)).toList = ['-'] ++ Nat.toDigits 10 (n + 1) := by
      have hneg : toString (Int.negSucc n) = "-" ++ (n + 1).repr := rfl
      rw [hneg, String.toList_append, Nat.toList_repr]
      rfl
    rw [htext]
    exact Signs.append (by decide) (signs_number _)

/-- The name of a decimal has its numbers behind a word in capitals. -/
theorem decimal_signs (p : Nat) (s : Int) : ∃ tail, arrowTypeToSqlString (.decimal128 p s) = "DECIMAL".toList ++ tail ∧ Signs tail := by
  refine ⟨['('] ++ (Nat.toDigits 10 p ++ ([','] ++ ((toString s).toList ++ [')']))), rfl, ?_⟩
  have hopen : Signs ['('] := by decide
  have hcomma : Signs [','] := by decide
  have hclose : Signs [')'] := by decide
  exact hopen.append ((signs_number p).append (hcomma.append ((signs_int s).append hclose)))

/-- Signs and digits behind a name do not change its code. -/
theorem oid_tail (m : CaseMapping) {name tail : List Char} (hname : Capitals name) (htail : Signs tail) :
    sqlTypeToPgOid m (name ++ tail) = sqlTypeToPgOid m name := by
  have hword : ∀ word : List Char, word.all Char.isUpper = true → containsText word (name ++ tail) = containsText word name := by
    intro word hletters
    refine containsText_tail (fun c hc hin => ?_) name
    have hupper := List.all_eq_true.mp hletters c hin
    exact List.any_eq_false.mp htail.capitals.2 c hc hupper
  have htext : ∀ upper : List Char, (decide (upper = "TEXT".toList) || containsText "TEXT".toList upper) = containsText "TEXT".toList upper := by
    intro upper
    by_cases heq : upper = "TEXT".toList
    · rw [heq]
      rfl
    · rw [decide_eq_false heq, Bool.false_or]
  unfold sqlTypeToPgOid
  dsimp only
  rw [Texts.toUppercase_keyword m hname, Texts.toUppercase_keyword m (hname.append htail.capitals.1), htext, htext]
  rw [hword "BIGINT".toList (by decide), hword "SMALLINT".toList (by decide), hword "INT".toList (by decide),
    hword "VARCHAR".toList (by decide), hword "CHAR".toList (by decide), hword "BOOL".toList (by decide),
    hword "FLOAT".toList (by decide), hword "DOUBLE".toList (by decide), hword "REAL".toList (by decide),
    hword "TEXT".toList (by decide), hword "TIMESTAMP".toList (by decide), hword "DATE".toList (by decide),
    hword "UUID".toList (by decide), hword "DECIMAL".toList (by decide), hword "NUMERIC".toList (by decide)]

theorem capitals_name {t : DataType} (h : IsImage t) : Capitals (arrowTypeToSqlString t) := by
  induction h with
  | plain h =>
    have hall : ∀ t ∈ plainTypes, Capitals (arrowTypeToSqlString t) := by
      unfold Capitals
      decide
    exact hall _ h
  | decimal p s =>
    obtain ⟨tail, hname, hsigns⟩ := decimal_signs p s
    rw [hname]
    exact Capitals.append (by decide) hsigns.capitals.1
  | list h ih => exact ih.append (by decide)

theorem oid_list (m : CaseMapping) {t : DataType} (h : IsImage t) :
    sqlTypeToPgOid m (arrowTypeToSqlString (.list "item".toList t true)) = sqlTypeToPgOid m (arrowTypeToSqlString t) :=
  oid_tail m (capitals_name h) (by decide)

/-- The code of a type that is no array. -/
def scalarOid : DataType → Nat
  | .boolean => 16
  | .int16 => 21
  | .int8 | .int32 | .duration _ => 23
  | .int64 => 20
  | .float32 => 700
  | .float64 => 701
  | .utf8 => 1043
  | .date32 => 1082
  | .timestamp _ _ => 1114
  | .fixedSizeBinary _ => 2950
  | .decimal128 _ _ => 1700
  | _ => 25

theorem oid_name (m : CaseMapping) {t : DataType} (h : IsImage t) :
    sqlTypeToPgOid m (arrowTypeToSqlString t) = scalarOid (innermost t) := by
  induction h with
  | plain h =>
    simp only [plainTypes, List.mem_cons, List.not_mem_nil, or_false] at h
    obtain rfl | rfl | rfl | rfl | rfl | rfl | rfl | rfl | rfl | rfl | rfl | rfl | rfl | rfl := h
    all_goals
      unfold sqlTypeToPgOid
      rw [Texts.toUppercase_keyword m (by decide)]
      decide
  | decimal p s =>
    obtain ⟨tail, hname, hsigns⟩ := decimal_signs p s
    rw [hname, oid_tail m (by decide) hsigns]
    show sqlTypeToPgOid m "DECIMAL".toList = 1700
    unfold sqlTypeToPgOid
    rw [Texts.toUppercase_keyword m (by decide)]
    decide
  | list h ih => rw [oid_list m h, ih, innermost]

theorem innermost_image {t : DataType} (h : IsImage t) : innermost t ∈ plainTypes ∨ ∃ p s, innermost t = .decimal128 p s := by
  induction h with
  | plain h =>
    refine .inl ?_
    simp only [plainTypes, List.mem_cons, List.not_mem_nil, or_false] at h
    obtain rfl | rfl | rfl | rfl | rfl | rfl | rfl | rfl | rfl | rfl | rfl | rfl | rfl | rfl := h <;> simp [innermost, plainTypes]
  | decimal p s => exact .inr ⟨p, s, rfl⟩
  | list h ih => exact ih

/-- Of the elements of arrays only the binary ones have the code of a text. -/
theorem scalarOid_text {t : DataType} (h : t ∈ plainTypes ∨ ∃ p s, t = .decimal128 p s) : scalarOid t = 25 ↔ t = .binary := by
  obtain h | ⟨p, s, rfl⟩ := h
  · simp only [plainTypes, List.mem_cons, List.not_mem_nil, or_false] at h
    obtain rfl | rfl | rfl | rfl | rfl | rfl | rfl | rfl | rfl | rfl | rfl | rfl | rfl | rfl := h <;> simp [scalarOid]
  · simp [scalarOid]

/-- The codes of a column and of its values are the same for all types but some. -/
theorem oid_eq_iff (m : CaseMapping) {t : DataType} (h : IsImage t) :
    sqlTypeToPgOid m (arrowTypeToSqlString t) = (arrowToPgType t).oid ↔ OneCode t := by
  rw [oid_name m h]
  cases h with
  | plain h =>
    simp only [plainTypes, List.mem_cons, List.not_mem_nil, or_false] at h
    obtain rfl | rfl | rfl | rfl | rfl | rfl | rfl | rfl | rfl | rfl | rfl | rfl | rfl | rfl := h <;>
      simp [innermost, scalarOid, arrowToPgType, PgType.oid, OneCode]
  | decimal p s => simp [innermost, scalarOid, arrowToPgType, PgType.oid, OneCode]
  | @list element h =>
    have helement := scalarOid_text (innermost_image h)
    exact helement

/-! ## Tables and their columns -/

section
variable (m : CaseMapping)

theorem filter_attributesOf (relOid n : Nat) (columns : List ColumnDef) :
    (attributesOf m relOid columns).filter (fun a => a.attrelid = n) = if relOid = n then attributesOf m relOid columns else [] := by
  have hsame : ∀ a ∈ attributesOf m relOid columns, a.attrelid = relOid := by
    intro a ha
    obtain ⟨p, _, rfl⟩ := List.mem_map.mp ha
    rfl
  by_cases h : relOid = n
  · rw [if_pos h]
    exact List.filter_eq_self.mpr fun a ha => by simp [hsame a ha, h]
  · rw [if_neg h]
    exact List.filter_eq_nil_iff.mpr fun a ha => by simp [hsame a ha, h]

/-- Of tables that are numbered from some number on, only the one with a number has its columns under it. -/
theorem filter_numbered (n : Nat) (tables : List TableMeta) : ∀ start ≤ n,
    ((tables.zipIdx start).flatMap fun p => attributesOf m p.2 p.1.columns).filter (fun a => a.attrelid = n) =
      (tables[n - start]?).elim [] fun table => attributesOf m n table.columns := by
  induction tables with
  | nil =>
    intro start _
    rfl
  | cons table tables ih =>
    intro start hstart
    rw [List.zipIdx_cons, List.flatMap_cons, List.filter_append, filter_attributesOf]
    by_cases h : start = n
    · have hrest : ((tables.zipIdx (start + 1)).flatMap fun p => attributesOf m p.2 p.1.columns).filter (fun a => a.attrelid = n) = [] := by
        refine List.filter_eq_nil_iff.mpr fun a ha => ?_
        obtain ⟨p, hp, ha⟩ := List.mem_flatMap.mp ha
        obtain ⟨q, _, rfl⟩ := List.mem_map.mp ha
        have hle := (List.mem_zipIdx hp).1
        simp only [decide_eq_true_eq]
        omega
      rw [if_pos h, hrest, List.append_nil, h, Nat.sub_self]
      rfl
    · have hsub : n - start = n - (start + 1) + 1 := by omega
      rw [if_neg h, List.nil_append, ih (start + 1) (by omega), hsub, List.getElem?_cons_succ]

variable (c : CatalogData)

/-- A row of `pg_class` is the table at its number. -/
theorem mem_pgClass {cls : PgClass} : cls ∈ pgClass c ↔ 1 ≤ cls.oid ∧ c.tables.keys[cls.oid - 1]? = some cls.relname := by
  unfold pgClass
  rw [List.mem_map]
  refine ⟨fun h => ?_, fun h => ?_⟩
  · obtain ⟨p, hp, rfl⟩ := h
    have hget := List.mem_zipIdx_iff_le_and_getElem?_sub.mp hp
    exact hget
  · exact ⟨(cls.relname, cls.oid), List.mem_zipIdx_iff_le_and_getElem?_sub.mpr h, rfl⟩

/-- The key and the table at one place of the map. -/
theorem lookup_values {i : Nat} {name : String} (h : c.tables.keys[i]? = some name) :
    ∃ table, c.tables.lookup name = some table ∧ c.tables.values[i]? = some table := by
  unfold AList.keys List.keys at h
  rw [List.getElem?_map, Option.map_eq_some_iff] at h
  obtain ⟨entry, hentry, rfl⟩ := h
  refine ⟨entry.2, ?_, ?_⟩
  · exact (List.mem_dlookup_iff c.tables.nodupKeys).mpr (List.mem_of_getElem? hentry)
  · rw [Map.values, List.getElem?_map, hentry]
    rfl

end

/-- What a driver learns of the tables. -/
structure Described (m : CaseMapping) (c : CatalogData) (classes : List PgClass) (attributes : List PgAttribute) : Prop where
  /-- The tables have a row each. -/
  tables : ∀ name, (c.tables.lookup name).isSome ↔ ∃! cls, cls ∈ classes ∧ cls.relname = name
  /-- Under the number of a table stand its columns, in order. -/
  columns : ∀ cls ∈ classes, ∃ table, c.tables.lookup cls.relname = some table ∧
    attributes.filter (fun a => a.attrelid = cls.oid) = attributesOf m cls.oid table.columns
  /-- There are no columns without a table. -/
  related : ∀ a ∈ attributes, ∃ cls ∈ classes, cls.oid = a.attrelid

theorem described (m : CaseMapping) (c : CatalogData) : Described m c (pgClass c) (pgAttribute m c) where
  tables := by
    intro name
    refine ⟨fun h => ?_, fun h => ?_⟩
    · have hkey : name ∈ c.tables.keys := AList.lookup_isSome.mp h
      obtain ⟨i, hi⟩ := List.mem_iff_getElem?.mp hkey
      refine ⟨⟨i + 1, name⟩, ⟨(mem_pgClass c).mpr ⟨Nat.succ_pos i, hi⟩, rfl⟩, ?_⟩
      intro cls hcls
      obtain ⟨hcls, rfl⟩ := hcls
      obtain ⟨hone, hget⟩ := (mem_pgClass c).mp hcls
      have hplace : cls.oid - 1 = i := by
        obtain ⟨hlt, hget⟩ := List.getElem?_eq_some_iff.mp hget
        obtain ⟨hlt', hi⟩ := List.getElem?_eq_some_iff.mp hi
        exact (c.tables.nodupKeys.getElem_inj_iff).mp (hget.trans hi.symm)
      have hoid : cls.oid = i + 1 := by omega
      rw [← hoid]
    · obtain ⟨cls, ⟨hcls, rfl⟩, _⟩ := h
      obtain ⟨table, hlookup, _⟩ := lookup_values c ((mem_pgClass c).mp hcls).2
      rw [hlookup]
      rfl
  columns := by
    intro cls hcls
    obtain ⟨hone, hkey⟩ := (mem_pgClass c).mp hcls
    obtain ⟨table, hlookup, hvalue⟩ := lookup_values c hkey
    refine ⟨table, hlookup, ?_⟩
    rw [pgAttribute, filter_numbered m cls.oid _ 1 hone, hvalue]
    rfl
  related := by
    intro a ha
    obtain ⟨p, hp, ha⟩ := List.mem_flatMap.mp ha
    obtain ⟨q, _, rfl⟩ := List.mem_map.mp ha
    obtain ⟨hone, hvalue⟩ := List.mem_zipIdx_iff_le_and_getElem?_sub.mp hp
    have hlt : p.2 - 1 < c.tables.keys.length := by
      have hlt := (List.getElem?_eq_some_iff.mp hvalue).1
      simpa [Map.values, AList.keys, List.keys] using hlt
    refine ⟨⟨p.2, c.tables.keys[p.2 - 1]⟩, (mem_pgClass c).mpr ⟨hone, ?_⟩, rfl⟩
    exact List.getElem?_eq_getElem hlt

theorem handle_classes {m : CaseMapping} {c : CatalogData} {sql : List Char} {classes : List PgClass}
    (h : handlePgCatalogQuery m c sql = .classes classes) : classes = pgClass c := by
  unfold handlePgCatalogQuery at h
  dsimp only at h
  split_ifs at h
  cases h
  rfl

theorem handle_attributes {m : CaseMapping} {c : CatalogData} {sql : List Char} {attributes : List PgAttribute}
    (h : handlePgCatalogQuery m c sql = .attributes attributes) : attributes = pgAttribute m c := by
  unfold handlePgCatalogQuery at h
  dsimp only at h
  split_ifs at h
  cases h
  rfl

/-- Two tables, the second with two columns. -/
def twoTables : CatalogData :=
  { CatalogData.empty with
    tables := (AList.singleton "t" ⟨"t", [⟨"a", "INT", true⟩], "t", [], none, none, [], []⟩).insert "u"
      ⟨"u", [⟨"b", "TEXT", true⟩, ⟨"c", "DATE", true⟩], "u", [], none, none, [], []⟩ }

end PotatoDB.PgCatalog
