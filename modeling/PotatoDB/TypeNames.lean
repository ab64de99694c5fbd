import PotatoDB.UdfOrder

/-!
# Type names of the catalog

A column type is stored by a name that is parsed again when the table is opened. The names of arrays of intervals read as
intervals, and numbers of decimals are cut to a byte.
-/

namespace PotatoDB.TypeNames

open Texts (CaseMapping stripStart stripSuffix someCases)

/-! ## Types -/

inductive TimeUnit where
  | second
  | millisecond
  | microsecond
  | nanosecond
deriving DecidableEq

/-- Arrow types, the ones without a name of their own by the text of their `Debug`. -/
inductive DataType where
  | boolean
  | int8
  | int16
  | int32
  | int64
  | uint8
  | uint16
  | uint32
  | uint64
  | float16
  | float32
  | float64
  | utf8
  | date32
  | date64
  | timestamp (unit : TimeUnit) (timezone : Option (List Char))
  | duration (unit : TimeUnit)
  | fixedSizeBinary (size : Nat)
  | list (name : List Char) (element : DataType) (nullable : Bool)
  | largeList (name : List Char) (element : DataType) (nullable : Bool)
  | decimal128 (precision : Nat) (scale : Int)
  | binary
  | largeBinary
  | other (text : List Char)

inductive TimezoneInfo where
  | none
  | withTimeZone
  | withoutTimeZone
  | tz
deriving DecidableEq

inductive ExactNumberInfo where
  | none
  | precision (p : Nat)
  | precisionAndScale (p : Nat) (s : Int)
deriving DecidableEq

/-- Types of the parser that are told apart, the others with the text of their `Display`. -/
inductive SqlDataType where
  | boolean
  | tinyInt (width : Option Nat)
  | smallInt (width : Option Nat)
  | int (width : Option Nat)
  | integer (width : Option Nat)
  | bigInt (width : Option Nat)
  | real
  | float (precision : Option Nat)
  | double (info : ExactNumberInfo)
  | doublePrecision
  | varchar (length : Option Nat)
  | text
  | char (length : Option Nat)
  | charVarying (length : Option Nat)
  | string (length : Option Nat)
  | date
  | timestamp (precision : Option Nat) (tzInfo : TimezoneInfo)
  | numeric (info : ExactNumberInfo)
  | decimal (info : ExactNumberInfo)
  | dec (info : ExactNumberInfo)
  | bytea
  | blob (length : Option Nat)
  | other (text : List Char)

/-- The parser of SQL: the type of the first column if the text is a CREATE TABLE statement, and the texts of types. -/
structure SqlParser where
  parseSql : List Char → Except String (Option SqlDataType)
  display : SqlDataType → List Char

/-! ## From names to types -/

/-- `as u8`. -/
def asU8 (n : Nat) : Nat := n % 2 ^ 8

/-- `as i8`. -/
def asI8 (n : Int) : Int := n.bmod (2 ^ 8)

/-- `sql_string_to_arrow`, by what is made of a parsed type. -/
def sqlStringToArrow (parser : SqlParser) (toArrow : SqlDataType → Except String DataType) (sqlType : List Char) :
    Except String DataType :=
  match parser.parseSql ("CREATE TABLE _t (_c ".toList ++ sqlType ++ [')']) with
  | .error e => .error e
  | .ok none => .error ("Cannot parse SQL type: " ++ String.ofList sqlType)
  | .ok (some ty) => toArrow ty

section
variable (castPrecision : Nat → Nat) (castScale : Int → Int)

/-- A decimal, with the casts of its numbers. -/
def decimalOf : ExactNumberInfo → DataType
  | .precisionAndScale p s => .decimal128 (castPrecision p) (castScale s)
  | .precision p => .decimal128 (castPrecision p) 0
  | .none => .decimal128 38 10

/-- The match of `sqlparser_type_to_arrow`. -/
def scalarToArrow : SqlDataType → Except String DataType
  | .boolean => .ok .boolean
  | .tinyInt _ => .ok .int8
  | .smallInt _ => .ok .int16
  | .int _ | .integer _ => .ok .int32
  | .bigInt _ => .ok .int64
  | .real => .ok .float32
  | .float _ | .double _ | .doublePrecision => .ok .float64
  | .varchar _ | .text | .char _ | .charVarying _ | .string _ => .ok .utf8
  | .date => .ok .date32
  | .timestamp _ tzInfo => .ok (.timestamp .microsecond (if tzInfo = .withTimeZone then some "UTC".toList else none))
  | .numeric info | .decimal info | .dec info =>
    .ok (decimalOf castPrecision castScale info)
  | .bytea | .blob _ => .ok .binary
  | .other text => .error ("Unsupported SQL type: " ++ String.ofList text)

variable (m : CaseMapping) (parser : SqlParser)

/-- `sqlparser_type_to_arrow` to a depth of calls. -/
def typeToArrow : Nat → SqlDataType → Except String DataType
  | 0, _ => .error "stack overflow"
  | calls + 1, sqlType =>
    let sqlUpper := m.toUppercase (parser.display sqlType)
    if sqlUpper = "UUID".toList then .ok (.fixedSizeBinary 16)
    else if "INTERVAL".toList.isPrefixOf sqlUpper then .ok (.duration .microsecond)
    else if sqlUpper = "JSON".toList ∨ sqlUpper = "JSONB".toList then .ok .utf8
    else
      match (stripSuffix ['[', ']'] sqlUpper).map trim with
      | some (c :: inner) =>
        (sqlStringToArrow parser (typeToArrow calls) (c :: inner)).map fun innerDt => .list "item".toList innerDt true
      | _ =>
        match (stripStart "ARRAY<".toList sqlUpper).bind (stripSuffix ['>']) with
        | some inner => (sqlStringToArrow parser (typeToArrow calls) (trim inner)).map fun innerDt => .list "item".toList innerDt true
        | none => scalarToArrow castPrecision castScale sqlType

end

def sqlparserTypeToArrow (m : CaseMapping) (parser : SqlParser) : Nat → SqlDataType → Except String DataType :=
  typeToArrow asU8 asI8 m parser

/-- The type with the numbers as they are declared. -/
def declaredType (m : CaseMapping) (parser : SqlParser) : Nat → SqlDataType → Except String DataType := typeToArrow id id m parser

/-! ## From types to names -/

/-- The names of the types that are no arrays. -/
def scalarName : DataType → List Char
  | .boolean => "BOOLEAN".toList
  | .int8 | .uint8 => "TINYINT".toList
  | .int16 | .uint16 => "SMALLINT".toList
  | .int32 | .uint32 => "INT".toList
  | .int64 | .uint64 => "BIGINT".toList
  | .float16 | .float32 => "REAL".toList
  | .float64 => "DOUBLE".toList
  | .date32 | .date64 => "DATE".toList
  | .timestamp _ (some _) => "TIMESTAMP WITH TIME ZONE".toList
  | .timestamp _ none => "TIMESTAMP".toList
  | .duration _ => "INTERVAL".toList
  | .fixedSizeBinary 16 => "UUID".toList
  | .decimal128 p s => "DECIMAL(".toList ++ (Nat.toDigits 10 p ++ ',' :: ((toString s).toList ++ [')']))
  | .binary | .largeBinary => "BYTEA".toList
  | _ => "VARCHAR".toList

def arrowTypeToSqlString : DataType → List Char
  | .list _ element _ => arrowTypeToSqlString element ++ ['[', ']']
  | .largeList _ element _ => arrowTypeToSqlString element ++ ['[', ']']
  | t => scalarName t

/-! ## The types that come out -/

def plainTypes : List DataType :=
  [.boolean, .int8, .int16, .int32, .int64, .float32, .float64, .utf8, .date32, .timestamp .microsecond none,
    .timestamp .microsecond (some "UTC".toList), .duration .microsecond, .fixedSizeBinary 16, .binary]

inductive IsImage : DataType → Prop
  | plain {t : DataType} (h : t ∈ plainTypes) : IsImage t
  | decimal (p : Nat) (s : Int) : IsImage (.decimal128 p s)
  | list {t : DataType} (h : IsImage t) : IsImage (.list "item".toList t true)

section
variable {castPrecision : Nat → Nat} {castScale : Int → Int} {m : CaseMapping} {parser : SqlParser}

theorem isImage_decimalOf (info : ExactNumberInfo) : IsImage (decimalOf castPrecision castScale info) := by
  cases info <;> exact .decimal _ _

theorem isImage_scalar {ty : SqlDataType} {t : DataType} (h : scalarToArrow castPrecision castScale ty = .ok t) : IsImage t := by
  cases ty with
  | timestamp precision tzInfo =>
    cases h
    by_cases htz : tzInfo = .withTimeZone
    · rw [if_pos htz]
      exact .plain (by simp [plainTypes])
    · rw [if_neg htz]
      exact .plain (by simp [plainTypes])
  | numeric info | decimal info | dec info =>
    cases h
    exact isImage_decimalOf info
  | other text => cases h
  | _ =>
    cases h
    exact .plain (by simp [plainTypes])

theorem isImage_typeToArrow (calls : Nat) : ∀ (ty : SqlDataType) (t : DataType),
    typeToArrow castPrecision castScale m parser calls ty = .ok t → IsImage t := by
  induction calls with
  | zero =>
    intro ty t h
    cases h
  | succ calls ih =>
    have hinner (text : List Char) (t : DataType) (h : (sqlStringToArrow parser (typeToArrow castPrecision castScale m parser calls)
        text).map (fun innerDt => .list "item".toList innerDt true) = .ok t) : IsImage t := by
      cases hin : sqlStringToArrow parser (typeToArrow castPrecision castScale m parser calls) text with
      | error e =>
        rw [hin] at h
        cases h
      | ok inner =>
        rw [hin] at h
        cases h
        refine .list ?_
        rw [sqlStringToArrow] at hin
        split at hin
        · cases hin
        · cases hin
        · exact ih _ _ hin
    intro ty t h
    rw [typeToArrow] at h
    split at h
    · cases h
      exact .plain (by simp [plainTypes])
    · split at h
      · cases h
        exact .plain (by simp [plainTypes])
      · split at h
        · cases h
          exact .plain (by simp [plainTypes])
        · split at h
          · exact hinner _ _ h
          · split at h
            · exact hinner _ _ h
            · exact isImage_scalar h

end

/-! ## Numbers -/

/-- The type with the numbers of its decimals in a byte each. -/
def DataType.cast : DataType → DataType
  | .list name element nullable => .list name element.cast nullable
  | .decimal128 p s => .decimal128 (asU8 p) (asI8 s)
  | t => t

theorem cast_scalarToArrow (ty : SqlDataType) : scalarToArrow asU8 asI8 ty = (scalarToArrow id id ty).map DataType.cast := by
  cases ty with
  | numeric info | decimal info | dec info => cases info <;> rfl
  | _ => rfl

theorem cast_typeToArrow (m : CaseMapping) (parser : SqlParser) (calls : Nat) : ∀ ty : SqlDataType,
    sqlparserTypeToArrow m parser calls ty = (declaredType m parser calls ty).map DataType.cast := by
  induction calls with
  | zero => exact fun _ => rfl
  | succ calls ih =>
    have hinner (text : List Char) :
        (sqlStringToArrow parser (sqlparserTypeToArrow m parser calls) text).map (fun t => DataType.list "item".toList t true) =
          ((sqlStringToArrow parser (declaredType m parser calls) text).map fun t => .list "item".toList t true).map DataType.cast := by
      unfold sqlStringToArrow
      split
      · rfl
      · rfl
      · rw [ih]
        cases declaredType m parser calls _ <;> rfl
    intro ty
    rw [sqlparserTypeToArrow, declaredType, typeToArrow, typeToArrow]
    split
    · rfl
    · split
      · rfl
      · split
        · rfl
        · split
          · exact hinner _
          · split
            · exact hinner _
            · exact cast_scalarToArrow ty

/-- The numbers of the decimals fit into a byte. -/
def DataType.NumbersFit : DataType → Prop
  | .list _ element _ => element.NumbersFit
  | .decimal128 p s => p < 256 ∧ -128 ≤ s ∧ s < 128
  | _ => True

theorem asI8_eq_iff (s : Int) : asI8 s = s ↔ -128 ≤ s ∧ s < 128 := by
  rw [asI8, Int.bmod_def]
  split <;> omega

theorem cast_eq_iff {t : DataType} (h : IsImage t) : t.cast = t ↔ t.NumbersFit := by
  induction h with
  | plain h =>
    simp only [plainTypes, List.mem_cons, List.not_mem_nil, or_false] at h
    obtain rfl | rfl | rfl | rfl | rfl | rfl | rfl | rfl | rfl | rfl | rfl | rfl | rfl | rfl := h <;> simp [DataType.cast, DataType.NumbersFit]
  | decimal p s =>
    rw [DataType.cast, DataType.NumbersFit, DataType.decimal128.injEq, asI8_eq_iff, asU8]
    omega
  | list h ih => rw [DataType.cast, DataType.NumbersFit, ← ih, DataType.list.injEq]; simp

/-! ## The names -/

/-- The type of the parser that a name is read as. -/
def nameType : DataType → SqlDataType
  | .boolean => .boolean
  | .int8 => .tinyInt none
  | .int16 => .smallInt none
  | .int32 => .int none
  | .int64 => .bigInt none
  | .float32 => .real
  | .float64 => .double .none
  | .utf8 => .varchar none
  | .date32 => .date
  | .timestamp _ (some _) => .timestamp none .withTimeZone
  | .timestamp _ none => .timestamp none .none
  | .decimal128 p s => .decimal (.precisionAndScale p s)
  | .binary => .bytea
  | t => .other (arrowTypeToSqlString t)

/-- The parser reads the name of a type, and of its elements if it is an array, and shows it the same. -/
def SqlParser.ReadsName (m : CaseMapping) (parser : SqlParser) : DataType → Prop
  | .list name element nullable =>
    let t := DataType.list name element nullable
    (parser.parseSql ("CREATE TABLE _t (_c ".toList ++ arrowTypeToSqlString t ++ [')']) = .ok (some (nameType t)) ∧
      m.toUppercase (parser.display (nameType t)) = arrowTypeToSqlString t) ∧ parser.ReadsName m element
  | t => parser.parseSql ("CREATE TABLE _t (_c ".toList ++ arrowTypeToSqlString t ++ [')']) = .ok (some (nameType t)) ∧
      m.toUppercase (parser.display (nameType t)) = arrowTypeToSqlString t

/-- An array whose innermost elements are intervals. -/
def DataType.IsIntervalArray : DataType → Prop
  | .list _ element _ => element = .duration .microsecond ∨ element.IsIntervalArray
  | _ => False

/-- A name that none of the tests on texts is for. -/
def IsScalarName (text : List Char) : Prop :=
  text ≠ "UUID".toList ∧ "INTERVAL".toList.isPrefixOf text = false ∧ text ≠ "JSON".toList ∧ text ≠ "JSONB".toList ∧
    stripSuffix ['[', ']'] text = none ∧ stripStart "ARRAY<".toList text = none

instance decidableIsScalarName (text : List Char) : Decidable (IsScalarName text) :=
  inferInstanceAs (Decidable (_ ∧ _ ∧ _ ∧ _ ∧ _ ∧ _))

section
variable {m : CaseMapping} {parser : SqlParser} {castPrecision : Nat → Nat} {castScale : Int → Int}

theorem typeToArrow_scalar {ty : SqlDataType} {text : List Char} (hupper : m.toUppercase (parser.display ty) = text)
    (h : IsScalarName text) (calls : Nat) :
    typeToArrow castPrecision castScale m parser (calls + 1) ty = scalarToArrow castPrecision castScale ty := by
  obtain ⟨huuid, hinterval, hjson, hjsonb, hbrackets, harray⟩ := h
  rw [typeToArrow, hupper, if_neg huuid, if_neg (by rw [hinterval]; exact Bool.false_ne_true), if_neg (not_or.mpr ⟨hjson, hjsonb⟩),
    hbrackets, harray]
  rfl

/-- A text with brackets behind it reads as an array of what it reads as. -/
theorem typeToArrow_brackets {ty : SqlDataType} {text : List Char} (hupper : m.toUppercase (parser.display ty) = text ++ ['[', ']'])
    (hne : text ≠ []) (htrim : trim text = text) (hinterval : "INTERVAL".toList.isPrefixOf (text ++ ['[', ']']) = false) (calls : Nat) :
    typeToArrow castPrecision castScale m parser (calls + 1) ty =
      (sqlStringToArrow parser (typeToArrow castPrecision castScale m parser calls) text).map fun t => .list "item".toList t true := by
  have hlast {other : List Char} (h : text ++ ['[', ']'] = other) : other.getLast? = some ']' := by
    rw [← h]
    simp
  have hstrip : stripSuffix ['[', ']'] (text ++ ['[', ']']) = some text := by
    rw [stripSuffix, if_pos (by simp)]
    simp
  obtain ⟨c, inner, rfl⟩ := List.exists_cons_of_ne_nil hne
  rw [typeToArrow, hupper, if_neg fun h => absurd (hlast h) (by decide), if_neg (by rw [hinterval]; exact Bool.false_ne_true),
    if_neg (not_or.mpr ⟨fun h => absurd (hlast h) (by decide), fun h => absurd (hlast h) (by decide)⟩), hstrip, Option.map_some, htrim]

end

theorem decimal_name (p : Nat) (s : Int) : ∃ inner : List Char,
    arrowTypeToSqlString (.decimal128 p s) = 'D' :: (inner ++ [')']) := by
  refine ⟨"ECIMAL(".toList ++ (Nat.toDigits 10 p ++ ',' :: (toString s).toList), ?_⟩
  have hstart : "DECIMAL(".toList = 'D' :: "ECIMAL(".toList := rfl
  have hname : arrowTypeToSqlString (.decimal128 p s) = "DECIMAL(".toList ++ (Nat.toDigits 10 p ++ ',' :: ((toString s).toList ++ [')'])) := rfl
  rw [hname, hstart, List.cons_append, List.append_assoc, List.append_assoc, List.cons_append]

theorem isScalarName_decimal (p : Nat) (s : Int) : IsScalarName (arrowTypeToSqlString (.decimal128 p s)) := by
  obtain ⟨inner, hname⟩ := decimal_name p s
  have hfirst {text : List Char} (h : text.head? ≠ some 'D') : 'D' :: (inner ++ [')']) ≠ text := by
    rintro rfl
    exact h rfl
  have hlast : ¬ ['[', ']'].isSuffixOf ('D' :: (inner ++ [')'])) = true := by
    rw [List.isSuffixOf_iff_suffix, ← List.cons_append]
    intro h
    have hend := h.getLast (by simp)
    rw [List.getLast_append_singleton] at hend
    exact absurd hend (by decide)
  rw [hname]
  exact ⟨hfirst (by decide), rfl, hfirst (by decide), hfirst (by decide), if_neg hlast, rfl⟩

theorem trim_self {s : List Char} (hfirst : s.head?.any (fun c => !isWhitespace c) = true)
    (hlast : s.getLast?.any (fun c => !isWhitespace c) = true) : trim s = s := by
  have hkeep {s : List Char} (h : s.head?.any (fun c => !isWhitespace c) = true) : s.dropWhile isWhitespace = s := by
    cases s with
    | nil => rfl
    | cons c s =>
      rw [List.dropWhile_cons, if_neg]
      simpa using h
  rw [trim, trimMatches, hkeep hfirst, hkeep (by rw [List.head?_reverse]; exact hlast), List.reverse_reverse]

theorem head?_name {t : DataType} (h : IsImage t) : (arrowTypeToSqlString t).head?.any (fun c => !isWhitespace c) = true := by
  induction h with
  | plain h =>
    have hall : ∀ t ∈ plainTypes, (arrowTypeToSqlString t).head?.any (fun c => !isWhitespace c) = true := by decide
    exact hall _ h
  | decimal p s =>
    obtain ⟨inner, hname⟩ := decimal_name p s
    rw [hname]
    rfl
  | @list t h ih =>
    rw [arrowTypeToSqlString]
    cases hname : arrowTypeToSqlString t with
    | nil => rfl
    | cons c name =>
      rw [hname] at ih
      exact ih

theorem getLast?_name {t : DataType} (h : IsImage t) : (arrowTypeToSqlString t).getLast?.any (fun c => !isWhitespace c) = true := by
  cases h with
  | plain h =>
    have hall : ∀ t ∈ plainTypes, (arrowTypeToSqlString t).getLast?.any (fun c => !isWhitespace c) = true := by decide
    exact hall _ h
  | decimal p s =>
    obtain ⟨inner, hname⟩ := decimal_name p s
    rw [hname, ← List.cons_append, List.getLast?_append]
    rfl
  | list h =>
    rw [arrowTypeToSqlString, List.getLast?_append]
    rfl

theorem trim_name {t : DataType} (h : IsImage t) : trim (arrowTypeToSqlString t) = arrowTypeToSqlString t ∧ arrowTypeToSqlString t ≠ [] := by
  refine ⟨trim_self (head?_name h) (getLast?_name h), ?_⟩
  intro hnil
  have hfirst := head?_name h
  rw [hnil] at hfirst
  cases hfirst

/-- Only the names of intervals and of arrays of them start as INTERVAL. -/
theorem not_interval {t : DataType} (h : IsImage t) : t ≠ .duration .microsecond → ¬ t.IsIntervalArray → ∀ {rest : List Char},
    rest.head? ≠ some 'E' → "INTERVAL".toList.isPrefixOf (arrowTypeToSqlString t ++ rest) = false := by
  induction h with
  | plain h =>
    intro hduration _ rest hrest
    simp only [plainTypes, List.mem_cons, List.not_mem_nil, or_false] at h
    obtain rfl | rfl | rfl | rfl | rfl | rfl | rfl | rfl | rfl | rfl | rfl | rfl | rfl | rfl := h
    case inr.inr.inr.inl =>
      cases rest with
      | nil => decide
      | cons c rest =>
        have hc : 'E' ≠ c := by
          rintro rfl
          exact hrest rfl
        have hname : arrowTypeToSqlString .int32 = ['I', 'N', 'T'] := rfl
        have hword : "INTERVAL".toList = 'I' :: 'N' :: 'T' :: 'E' :: "RVAL".toList := rfl
        rw [hname, hword]
        simp [List.isPrefixOf, hc]
    case inr.inr.inr.inr.inr.inr.inr.inr.inr.inr.inr.inl => exact absurd rfl hduration
    all_goals rfl
  | decimal p s =>
    intro _ _ rest _
    obtain ⟨inner, hname⟩ := decimal_name p s
    rw [hname]
    rfl
  | list h ih =>
    intro _ harray rest _
    rw [DataType.IsIntervalArray, not_or] at harray
    rw [arrowTypeToSqlString, List.append_assoc]
    exact ih harray.1 harray.2 (by simp)

/-- The names of arrays of intervals do too. -/
theorem interval_array {t : DataType} (h : IsImage t) : t = .duration .microsecond ∨ t.IsIntervalArray → ∀ rest : List Char,
    "INTERVAL".toList.isPrefixOf (arrowTypeToSqlString t ++ rest) = true := by
  induction h with
  | plain h =>
    intro harray rest
    obtain rfl | harray := harray
    · rfl
    · simp only [plainTypes, List.mem_cons, List.not_mem_nil, or_false] at h
      obtain rfl | rfl | rfl | rfl | rfl | rfl | rfl | rfl | rfl | rfl | rfl | rfl | rfl | rfl := h <;> cases harray
  | decimal p s =>
    intro harray
    obtain harray | harray := harray <;> cases harray
  | list h ih =>
    intro harray rest
    obtain harray | harray := harray
    · cases harray
    · rw [arrowTypeToSqlString, List.append_assoc]
      exact ih harray _

/-! ## The round trip -/

def DataType.depth : DataType → Nat
  | .list _ element _ => element.depth + 1
  | _ => 0

section
variable {m : CaseMapping} {parser : SqlParser}

theorem readsName_self {t : DataType} (h : parser.ReadsName m t) :
    parser.parseSql ("CREATE TABLE _t (_c ".toList ++ arrowTypeToSqlString t ++ [')']) = .ok (some (nameType t)) ∧
      m.toUppercase (parser.display (nameType t)) = arrowTypeToSqlString t := by
  cases t with
  | list name element nullable => exact h.1
  | _ => exact h

theorem sqlString_name {t : DataType} (h : parser.ReadsName m t) (toArrow : SqlDataType → Except String DataType) :
    sqlStringToArrow parser toArrow (arrowTypeToSqlString t) = toArrow (nameType t) := by
  rw [sqlStringToArrow, (readsName_self h).1]

theorem reads_back {t : DataType} (h : IsImage t) : t.NumbersFit → ¬ t.IsIntervalArray → parser.ReadsName m t → ∀ calls, t.depth < calls →
    sqlStringToArrow parser (sqlparserTypeToArrow m parser calls) (arrowTypeToSqlString t) = .ok t := by
  induction h with
  | @plain t h =>
    intro _ _ hreads calls hcalls
    obtain ⟨calls, rfl⟩ := Nat.exists_eq_succ_of_ne_zero (Nat.ne_of_gt (Nat.zero_lt_of_lt hcalls))
    have hupper := (readsName_self hreads).2
    rw [sqlString_name hreads, sqlparserTypeToArrow]
    simp only [plainTypes, List.mem_cons, List.not_mem_nil, or_false] at h
    obtain rfl | rfl | rfl | rfl | rfl | rfl | rfl | rfl | rfl | rfl | rfl | rfl | rfl | rfl := h
    case inr.inr.inr.inr.inr.inr.inr.inr.inr.inr.inr.inl =>
      rw [typeToArrow, hupper]
      rfl
    case inr.inr.inr.inr.inr.inr.inr.inr.inr.inr.inr.inr.inl =>
      rw [typeToArrow, hupper]
      rfl
    all_goals exact typeToArrow_scalar hupper (by decide) calls
  | decimal p s =>
    intro hfit _ hreads calls hcalls
    obtain ⟨calls, rfl⟩ := Nat.exists_eq_succ_of_ne_zero (Nat.ne_of_gt (Nat.zero_lt_of_lt hcalls))
    have hupper := (readsName_self hreads).2
    have hcast : DataType.decimal128 (asU8 p) (asI8 s) = .decimal128 p s := (cast_eq_iff (.decimal p s)).mpr hfit
    rw [sqlString_name hreads, sqlparserTypeToArrow, typeToArrow_scalar hupper (isScalarName_decimal p s) calls, nameType, scalarToArrow,
      decimalOf, hcast]
  | @list t h ih =>
    intro hfit harray hreads calls hcalls
    obtain ⟨calls, rfl⟩ := Nat.exists_eq_succ_of_ne_zero (Nat.ne_of_gt (Nat.zero_lt_of_lt hcalls))
    have hupper := (readsName_self hreads).2
    rw [DataType.IsIntervalArray, not_or] at harray
    rw [sqlString_name hreads, sqlparserTypeToArrow, typeToArrow_brackets hupper (trim_name h).2 (trim_name h).1
      (not_interval h harray.1 harray.2 (by decide))]
    have hinner := ih hfit harray.2 hreads.2 calls (Nat.lt_of_succ_lt_succ hcalls)
    rw [sqlparserTypeToArrow] at hinner
    rw [hinner]
    rfl

/-- An array of intervals comes back as an interval. -/
theorem interval_array_lost {t : DataType} (h : IsImage t) (harray : t.IsIntervalArray) (hreads : parser.ReadsName m t) (calls : Nat) :
    sqlStringToArrow parser (sqlparserTypeToArrow m parser calls) (arrowTypeToSqlString t) ≠ .ok t := by
  intro hback
  rw [sqlString_name hreads] at hback
  cases calls with
  | zero => cases hback
  | succ calls =>
    have hlong : arrowTypeToSqlString t ≠ "UUID".toList := by
      intro huuid
      have hstart := interval_array h (.inr harray) []
      rw [List.append_nil, huuid] at hstart
      exact absurd hstart (by decide)
    have hinterval := interval_array h (.inr harray) []
    rw [List.append_nil] at hinterval
    rw [sqlparserTypeToArrow, typeToArrow, (readsName_self hreads).2, if_neg hlong, if_pos hinterval] at hback
    cases hback
    cases harray

end

/-- A parser of a few types. -/
def fewTypes : SqlParser where
  parseSql text :=
    let named := [("DECIMAL(10,2)", SqlDataType.decimal (.precisionAndScale 10 2)), ("DECIMAL(10,2)[]", .other "DECIMAL(10,2)[]".toList),
      ("INTERVAL", .other "INTERVAL".toList), ("INTERVAL[]", .other "INTERVAL[]".toList)]
    .ok ((named.find? fun entry => ("CREATE TABLE _t (_c " ++ entry.1 ++ ")").toList = text).map (·.2))
  display
    | .decimal (.precisionAndScale p s) => arrowTypeToSqlString (.decimal128 p s)
    | .other text => text
    | _ => []

end PotatoDB.TypeNames
