import PotatoDB.WireRows

/-!
# Rows through the C interface

A program in C goes over the rows and columns of a result, asks for the type of a column, and calls the reader for this type.
A stream gives it the batches one by one.
-/

namespace PotatoDB.Cells

open TypeNames (DataType TimeUnit)
open Wire (Scalar)

/-! ## Results -/

structure Field where
  name : List Char
  dataType : DataType
  /-- The entry `potatodb.sql_type` of the metadata. -/
  sqlType : Option (List Char)

variable {Single Double : Type}

/-- A batch: rows of values, or nulls, of the types of the schema. -/
structure RecordBatch (Single Double : Type) (schema : List Field) where
  rows : List (List (Option (Scalar Single Double)))
  typed : ∀ row ∈ rows, List.Forall₂ (fun f cell => ∀ v, cell = some v → v.IsOf f.dataType) schema row

/-- Floats in C, letter case, and how Arrow displays a value. -/
structure Formats (Single Double : Type) where
  zero : Double
  widen : Single → Double
  /-- The number behind the bits of a half. -/
  half : List Char → Double
  display : DataType → Scalar Single Double → Option (List Char)
  toUppercase : List Char → List Char

def nul : Char := Char.ofNat 0

/-- `CString::new`. -/
def cstring (s : List Char) : Option (List Char) := if nul ∈ s then none else some s

inductive ColumnType where
  | null
  | bool
  | int32
  | int64
  | float
  | double
  | string
  | date
  | timestamp
  | decimal
  | binary
  | uuid
  | interval
  | array
  | json
  | other
deriving DecidableEq

/-- `potato_result`, of a query. -/
structure Result (Single Double : Type) (schema : List Field) where
  batches : List (RecordBatch Single Double schema)
  rowCount : Nat
  columnNames : List (List Char)

section
variable {schema : List Field} (f : Formats Single Double)

def collectColumnNames (batches : List (RecordBatch Single Double schema)) : List (List Char) :=
  if batches.isEmpty then [] else schema.filterMap fun field => cstring field.name

/-- `query_result_to_handle`, of records. -/
def queryResultToHandle (batches : List (RecordBatch Single Double schema)) : Result Single Double schema :=
  ⟨batches, (batches.map fun b => b.rows.length).sum, collectColumnNames batches⟩

def resolveRowFrom (row offset : Nat) : List (RecordBatch Single Double schema) → Option (RecordBatch Single Double schema × Nat)
  | [] => none
  | batch :: batches =>
    let n := batch.rows.length
    if row < offset + n then some (batch, row - offset) else resolveRowFrom row (offset + n) batches

def resolveRow (batches : List (RecordBatch Single Double schema)) (row : Nat) :
    Option (RecordBatch Single Double schema × Nat) := resolveRowFrom row 0 batches

/-- What every reader starts with: the value, if there is a row and a column for it and it is not null. -/
def valueAt (res : Result Single Double schema) (row col : Nat) : Option (DataType × Scalar Single Double) := do
  let found ← resolveRow res.batches row
  let field ← schema[col]?
  let cells ← found.1.rows[found.2]?
  let value ← cells[col]?.join
  return (field.dataType, value)

def potatoResultRowCount (res : Result Single Double schema) : Nat := res.rowCount

def potatoResultColumnCount (res : Result Single Double schema) : Nat := if res.batches.isEmpty then 0 else schema.length

def potatoResultColumnName (res : Result Single Double schema) (col : Nat) : Option (List Char) := res.columnNames[col]?

def potatoResultIsNull (res : Result Single Double schema) (row col : Nat) : Bool := (valueAt res row col).isNone

def isJson (field : Field) : Bool :=
  field.sqlType.any fun t => let upper := f.toUppercase t; upper = "JSON".toList || upper = "JSONB".toList

def columnTypeOf : DataType → ColumnType
  | .boolean => .bool
  | .int8 | .int16 | .int32 | .uint8 | .uint16 | .uint32 => .int32
  | .int64 | .uint64 => .int64
  | .float16 | .float32 => .float
  | .float64 => .double
  | .utf8 => .string
  | .date32 | .date64 => .date
  | .timestamp _ _ => .timestamp
  | .decimal128 _ _ => .decimal
  | .duration _ => .interval
  | .list _ _ _ | .largeList _ _ _ => .array
  | .fixedSizeBinary size => if size = 16 then .uuid else .binary
  | .binary | .largeBinary => .binary
  | .other text =>
    if text = "LargeUtf8".toList then .string
    else if "Decimal256".toList.isPrefixOf text then .decimal
    else if "FixedSizeList".toList.isPrefixOf text then .array
    else .other

def potatoResultGetColumnType (res : Result Single Double schema) (col : Nat) : ColumnType :=
  if res.batches.isEmpty then .null
  else schema[col]?.elim .null fun field => if isJson f field then .json else columnTypeOf field.dataType

/-! ## Readers -/

/-- `as i64`. -/
def asI64 (n : Int) : Int := n.bmod (2 ^ 64)

/-- The end of `saturating_mul` on `i64`. -/
def saturate (n : Int) : Int := max (-2 ^ 63) (min n (2 ^ 63 - 1))

def intOf : DataType × Scalar Single Double → Int
  | (.int8, .int n) | (.int16, .int n) | (.int32, .int n) | (.int64, .int n) | (.uint8, .int n) | (.uint16, .int n)
  | (.uint32, .int n) => n
  | (.uint64, .int n) => asI64 n
  | _ => 0

def doubleOf : DataType × Scalar Single Double → Double
  | (.float64, .double x) => x
  | (.float32, .single x) => f.widen x
  | _ => f.zero

def boolOf : DataType × Scalar Single Double → Bool
  | (.boolean, .boolean b) => b
  | _ => false

def dateOf : DataType × Scalar Single Double → Int
  | (.date32, .int n) | (.date64, .int n) => n
  | _ => 0

def timestampOf : DataType × Scalar Single Double → Int
  | (.timestamp .microsecond _, .int n) => n
  | (.timestamp .millisecond _, .int n) => saturate (n * 1000)
  | (.timestamp .second _, .int n) => saturate (n * 1000000)
  | (.timestamp .nanosecond _, .int n) => n.tdiv 1000
  | _ => 0

/-- The text of a value: its own, or the one that Arrow displays. -/
def shown : DataType × Scalar Single Double → Option (List Char)
  | (.utf8, .string s) => some s
  | (.other text, .string s) => if text = "LargeUtf8".toList then some s else f.display (.other text) (.string s)
  | (t, v) => f.display t v

def potatoResultGetInt (res : Result Single Double schema) (row col : Nat) : Int := (valueAt res row col).elim 0 intOf

def potatoResultGetDouble (res : Result Single Double schema) (row col : Nat) : Double :=
  (valueAt res row col).elim f.zero (doubleOf f)

def potatoResultGetBool (res : Result Single Double schema) (row col : Nat) : Bool := (valueAt res row col).elim false boolOf

def potatoResultGetDate (res : Result Single Double schema) (row col : Nat) : Int := (valueAt res row col).elim 0 dateOf

def potatoResultGetTimestamp (res : Result Single Double schema) (row col : Nat) : Int :=
  (valueAt res row col).elim 0 timestampOf

/-- `none` is the null pointer. -/
def potatoResultGetString (res : Result Single Double schema) (row col : Nat) : Option (List Char) :=
  (valueAt res row col).bind fun v => (shown f v).bind cstring

/-! ## Streams -/

inductive StreamInner (Single Double : Type) (schema : List Field) where
  | stream (items : List (Except String (RecordBatch Single Double schema)))
  | message (text : Option (List Char))
  | exhausted

/-- A stream that fails is exhausted. -/
def potatoStreamNext : StreamInner Single Double schema → Option (Result Single Double schema) × StreamInner Single Double schema
  | .stream (.ok batch :: items) => (some (queryResultToHandle [batch]), .stream items)
  | .stream _ => (none, .exhausted)
  | s => (none, s)

/-! ## What a program in C makes of them -/

inductive ClientValue (Double : Type) where
  | boolean (b : Bool)
  | integer (n : Int)
  | real (x : Double)
  | text (s : List Char)
  | date (n : Int)
  /-- In nanoseconds. -/
  | timestamp (n : Int)
deriving DecidableEq

/-- A cell, by the reader for the type of its column. -/
def clientCell (res : Result Single Double schema) (row col : Nat) : Option (ClientValue Double) :=
  if potatoResultIsNull res row col = true then none
  else
    match potatoResultGetColumnType f res col with
    | .null => none
    | .bool => some (.boolean (potatoResultGetBool res row col))
    | .int32 | .int64 => some (.integer (potatoResultGetInt res row col))
    | .float | .double => some (.real (potatoResultGetDouble f res row col))
    | .date => some (.date (potatoResultGetDate res row col))
    | .timestamp => some (.timestamp (potatoResultGetTimestamp res row col * 1000))
    | _ => (potatoResultGetString f res row col).map .text

def clientRows (res : Result Single Double schema) : List (List (Option (ClientValue Double))) :=
  (List.range (potatoResultRowCount res)).map fun row =>
    (List.range (potatoResultColumnCount res)).map fun col => clientCell f res row col

/-- The rows of a stream, with that many calls for a batch at most. -/
def streamRows : Nat → StreamInner Single Double schema → List (List (Option (ClientValue Double)))
  | 0, _ => []
  | calls + 1, s =>
    let next := potatoStreamNext s
    next.1.elim [] fun res => clientRows f res ++ streamRows calls next.2

end

/-! ## What the values are -/

def nanos : TimeUnit → Int → Int
  | .second, n => n * 1000000000
  | .millisecond, n => n * 1000000
  | .microsecond, n => n * 1000
  | .nanosecond, n => n

section
variable (f : Formats Single Double)

def meaningOf : DataType → Scalar Single Double → ClientValue Double
  | .boolean, .boolean b => .boolean b
  | .int8, .int n | .int16, .int n | .int32, .int n | .int64, .int n | .uint8, .int n | .uint16, .int n | .uint32, .int n
  | .uint64, .int n => .integer n
  | .float16, .other bits => .real (f.half bits)
  | .float32, .single x => .real (f.widen x)
  | .float64, .double x => .real x
  | .date32, .int n | .date64, .int n => .date n
  | .timestamp unit _, .int n => .timestamp (nanos unit n)
  | t, v => .text ((shown f (t, v)).getD [])

def meaning (field : Field) (v : Scalar Single Double) : ClientValue Double :=
  if isJson f field then .text ((shown f (field.dataType, v)).getD []) else meaningOf f field.dataType v

/-- The text can be shown, and C can hold it. -/
def HasText (t : DataType) (v : Scalar Single Double) : Prop := ∃ s, shown f (t, v) = some s ∧ nul ∉ s

def ReadableOf : DataType → Scalar Single Double → Prop
  | .boolean, _ | .int8, _ | .int16, _ | .int32, _ | .int64, _ | .uint8, _ | .uint16, _ | .uint32, _ | .float32, _ | .float64, _
  | .date32, _ | .date64, _ => True
  | .uint64, .int n => n < 2 ^ 63
  | .float16, .other bits => f.half bits = f.zero
  | .timestamp unit _, .int n => ∃ m, -2 ^ 63 ≤ m ∧ m < 2 ^ 63 ∧ nanos unit n = m * 1000
  | t, v => HasText f t v

/-- The values that a program in C reads as what they are. -/
def Readable (field : Field) (v : Scalar Single Double) : Prop :=
  if isJson f field then HasText f field.dataType v else ReadableOf f field.dataType v

/-- What a program in C makes of a value. -/
def readValue (field : Field) (v : Scalar Single Double) : Option (ClientValue Double) :=
  match if isJson f field then ColumnType.json else columnTypeOf field.dataType with
  | .null => none
  | .bool => some (.boolean (boolOf (field.dataType, v)))
  | .int32 | .int64 => some (.integer (intOf (field.dataType, v)))
  | .float | .double => some (.real (doubleOf f (field.dataType, v)))
  | .date => some (.date (dateOf (field.dataType, v)))
  | .timestamp => some (.timestamp (timestampOf (field.dataType, v) * 1000))
  | _ => ((shown f (field.dataType, v)).bind cstring).map .text

end

section
variable {f : Formats Single Double} {field : Field} {v : Scalar Single Double}

theorem cstring_text_iff {text : Option (List Char)} :
    (text.bind cstring).map .text = (some (.text (text.getD [])) : Option (ClientValue Double)) ↔ ∃ s, text = some s ∧ nul ∉ s := by
  cases text with
  | none => simp
  | some s =>
    by_cases h : nul ∈ s
    · simp [cstring, h]
    · simp [cstring, h]

theorem saturate_eq_iff {n : Int} : saturate n = n ↔ -2 ^ 63 ≤ n ∧ n < 2 ^ 63 := by
  unfold saturate
  omega

/-- Microseconds say which instant it is exactly if it is a whole number of them and fits. -/
theorem timestamp_iff {unit : TimeUnit} {zone : Option (List Char)} {n : Int} (h : Wire.Fits n 64 true) :
    timestampOf (.timestamp unit zone, (.int n : Scalar Single Double)) * 1000 = nanos unit n ↔
      ∃ m, -2 ^ 63 ≤ m ∧ m < 2 ^ 63 ∧ nanos unit n = m * 1000 := by
  simp only [Wire.Fits, if_true] at h
  cases unit with
  | second =>
    simp only [timestampOf, nanos]
    constructor
    · intro he
      have hs : saturate (n * 1000000) = n * 1000000 := by omega
      exact ⟨n * 1000000, (saturate_eq_iff.mp hs).1, (saturate_eq_iff.mp hs).2, by omega⟩
    · intro he
      obtain ⟨m, hlow, hhigh, hm⟩ := he
      rw [saturate_eq_iff.mpr ⟨by omega, by omega⟩]
      omega
  | millisecond =>
    simp only [timestampOf, nanos]
    constructor
    · intro he
      have hs : saturate (n * 1000) = n * 1000 := by omega
      exact ⟨n * 1000, (saturate_eq_iff.mp hs).1, (saturate_eq_iff.mp hs).2, by omega⟩
    · intro he
      obtain ⟨m, hlow, hhigh, hm⟩ := he
      rw [saturate_eq_iff.mpr ⟨by omega, by omega⟩]
      omega
  | microsecond =>
    simp only [timestampOf, nanos, true_iff]
    exact ⟨n, by omega, by omega, rfl⟩
  | nanosecond =>
    simp only [timestampOf, nanos]
    constructor
    · intro he
      exact ⟨n.tdiv 1000, by omega, by omega, he.symm⟩
    · intro he
      obtain ⟨m, -, -, rfl⟩ := he
      rw [Int.mul_tdiv_cancel m (by decide)]

theorem asI64_eq_iff {n : Int} (h : 0 ≤ n ∧ n < 2 ^ 64) : asI64 n = n ↔ n < 2 ^ 63 := by
  unfold asI64
  rw [Int.bmod_def]
  split <;> omega

/-- **The reader for the type of a column reads a value as what it is exactly if the value is readable.** -/
theorem readValue_iff (hv : v.IsOf field.dataType) : readValue f field v = some (meaning f field v) ↔ Readable f field v := by
  unfold readValue meaning Readable
  by_cases hjson : isJson f field = true
  · simp only [if_pos hjson]
    exact cstring_text_iff
  · simp only [if_neg hjson]
    generalize field.dataType = t at hv ⊢
    cases v with
    | boolean b =>
      cases t with
      | boolean => simp [columnTypeOf, boolOf, meaningOf, ReadableOf]
      | _ => cases hv
    | int n =>
      cases t with
      | int8 | int16 | int32 | int64 | uint8 | uint16 | uint32 => simp [columnTypeOf, intOf, meaningOf, ReadableOf]
      | uint64 =>
        simp only [Scalar.IsOf, Wire.integerBits, Option.elim_some, Wire.Fits, Bool.false_eq_true, if_false] at hv
        simp only [columnTypeOf, intOf, meaningOf, ReadableOf, Option.some.injEq, ClientValue.integer.injEq]
        exact asI64_eq_iff hv
      | date32 | date64 => simp [columnTypeOf, dateOf, meaningOf, ReadableOf]
      | timestamp unit zone =>
        simp only [columnTypeOf, meaningOf, ReadableOf, Option.some.injEq, ClientValue.timestamp.injEq]
        exact timestamp_iff hv
      | duration unit => exact cstring_text_iff
      | decimal128 precision scale => exact cstring_text_iff
      | _ => cases hv
    | single x =>
      cases t with
      | float32 => simp [columnTypeOf, doubleOf, meaningOf, ReadableOf]
      | _ => cases hv
    | double x =>
      cases t with
      | float64 => simp [columnTypeOf, doubleOf, meaningOf, ReadableOf]
      | _ => cases hv
    | string s =>
      cases t with
      | utf8 => exact cstring_text_iff
      | other text =>
        have htext : text = "LargeUtf8".toList := hv
        simp only [columnTypeOf, if_pos htext]
        exact cstring_text_iff
      | _ => cases hv
    | bytes bs =>
      cases t with
      | fixedSizeBinary size =>
        by_cases hsize : size = 16
        · simp only [columnTypeOf, if_pos hsize]
          exact cstring_text_iff
        · simp only [columnTypeOf, if_neg hsize]
          exact cstring_text_iff
      | binary | largeBinary => exact cstring_text_iff
      | _ => cases hv
    | other bits =>
      cases t with
      | float16 => simp [columnTypeOf, doubleOf, meaningOf, ReadableOf, eq_comm]
      | list _ _ _ | largeList _ _ _ => exact cstring_text_iff
      | other text =>
        have htext : text ≠ "LargeUtf8".toList := hv
        simp only [columnTypeOf, if_neg htext]
        by_cases hdecimal : "Decimal256".toList.isPrefixOf text = true
        · simp only [if_pos hdecimal]
          exact cstring_text_iff
        · by_cases hlist : "FixedSizeList".toList.isPrefixOf text = true
          · simp only [if_neg hdecimal, if_pos hlist]
            exact cstring_text_iff
          · simp only [if_neg hdecimal, if_neg hlist]
            exact cstring_text_iff
      | _ => cases hv

end

/-! ## Rows -/

section
variable {schema : List Field} {f : Formats Single Double}

def allRows (batches : List (RecordBatch Single Double schema)) : List (List (Option (Scalar Single Double))) :=
  batches.flatMap RecordBatch.rows

theorem length_allRows (batches : List (RecordBatch Single Double schema)) :
    (allRows batches).length = (batches.map fun b => b.rows.length).sum := List.length_flatMap

theorem typed_allRows {batches : List (RecordBatch Single Double schema)} {row : List (Option (Scalar Single Double))}
    (h : row ∈ allRows batches) : List.Forall₂ (fun field cell => ∀ v, cell = some v → v.IsOf field.dataType) schema row := by
  obtain ⟨batch, -, hrow⟩ := List.mem_flatMap.mp h
  exact batch.typed row hrow

/-- A row index is resolved to the row that it has in all batches behind each other. -/
theorem resolveRowFrom_rows {row : Nat} {batches : List (RecordBatch Single Double schema)} : ∀ {offset : Nat}, offset ≤ row →
    ((resolveRowFrom row offset batches).bind fun found => found.1.rows[found.2]?) = (allRows batches)[row - offset]? := by
  induction batches with
  | nil => simp [resolveRowFrom, allRows]
  | cons batch batches ih =>
    intro offset hle
    have hcons : allRows (batch :: batches) = batch.rows ++ allRows batches := List.flatMap_cons
    simp only [resolveRowFrom, hcons]
    by_cases hrow : row < offset + batch.rows.length
    · rw [if_pos hrow, Option.bind_some, List.getElem?_append_left (by omega)]
    · rw [if_neg hrow, ih (by omega), List.getElem?_append_right (by omega), Nat.sub_sub]

theorem valueAt_eq (batches : List (RecordBatch Single Double schema)) {row col : Nat} {cells : List (Option (Scalar Single Double))}
    {field : Field} (hrow : (allRows batches)[row]? = some cells) (hcol : schema[col]? = some field) :
    valueAt (queryResultToHandle batches) row col = cells[col]?.join.map fun v => (field.dataType, v) := by
  have hresolve := @resolveRowFrom_rows _ _ schema row batches 0 (Nat.zero_le row)
  rw [Nat.sub_zero, hrow] at hresolve
  obtain ⟨found, hfound, hcells⟩ := Option.bind_eq_some_iff.mp hresolve
  have hfound' : resolveRow (queryResultToHandle batches).batches row = some found := hfound
  unfold valueAt
  simp only [hfound', hcol, hcells, Option.bind_eq_bind, Option.bind_some]
  cases cells[col]?.join <;> rfl

theorem clientCell_eq (batches : List (RecordBatch Single Double schema)) {row col : Nat}
    {cells : List (Option (Scalar Single Double))} {field : Field} (hrow : (allRows batches)[row]? = some cells)
    (hcol : schema[col]? = some field) :
    clientCell f (queryResultToHandle batches) row col = cells[col]?.join.bind (readValue f field) := by
  have hvalue := valueAt_eq batches hrow hcol
  have hne : (queryResultToHandle batches).batches.isEmpty = false := by
    cases batches with
    | nil => simp [allRows] at hrow
    | cons _ _ => rfl
  have htype : potatoResultGetColumnType f (queryResultToHandle batches) col =
      if isJson f field then .json else columnTypeOf field.dataType := by
    unfold potatoResultGetColumnType
    rw [hne, if_neg (by decide), hcol, Option.elim_some]
  unfold clientCell potatoResultIsNull
  rw [htype, hvalue]
  cases hcell : cells[col]?.join with
  | none => simp
  | some v =>
    simp only [Option.map_some, Option.isNone_some, Bool.false_eq_true, if_false, Option.bind_some, potatoResultGetInt,
      potatoResultGetDouble, potatoResultGetBool, potatoResultGetDate, potatoResultGetTimestamp, potatoResultGetString, hvalue,
      hcell, Option.elim_some]
    rfl

theorem clientRows_eq (batches : List (RecordBatch Single Double schema)) : clientRows f (queryResultToHandle batches) =
    (allRows batches).map fun row => (schema.zip row).map fun p => p.2.bind (readValue f p.1) := by
  have hcount : potatoResultRowCount (queryResultToHandle batches) = (allRows batches).length :=
    (length_allRows batches).symm
  unfold clientRows
  rw [hcount]
  refine List.ext_getElem (by simp) fun i hi hi' => ?_
  have hlt : i < (allRows batches).length := by simpa using hi'
  have hrow : (allRows batches)[i]? = some (allRows batches)[i] := List.getElem?_eq_getElem hlt
  have hlength : schema.length = (allRows batches)[i].length := (typed_allRows (List.getElem_mem hlt)).length_eq
  have hcolumns : potatoResultColumnCount (queryResultToHandle batches) = schema.length := by
    cases batches with
    | nil => simp [allRows] at hlt
    | cons _ _ => rfl
  simp only [List.getElem_map, List.getElem_range]
  rw [hcolumns]
  refine List.ext_getElem (by simp [hlength]) fun j hj hj' => ?_
  have hjs : j < schema.length := by simpa using hj
  have hcell : (allRows batches)[i][j]? = some (allRows batches)[i][j] := List.getElem?_eq_getElem (by omega)
  simp only [List.getElem_map, List.getElem_range, List.getElem_zip]
  rw [clientCell_eq batches hrow (List.getElem?_eq_getElem hjs), hcell]
  rfl

/-- The rows that a program reads are those of the result exactly if every value is readable. -/
theorem clientRows_iff (batches : List (RecordBatch Single Double schema)) : clientRows f (queryResultToHandle batches) =
      (allRows batches).map (fun row => (schema.zip row).map fun p => p.2.map (meaning f p.1)) ↔
    ∀ row ∈ allRows batches, ∀ p ∈ schema.zip row, ∀ v, p.2 = some v → Readable f p.1 v := by
  rw [clientRows_eq, List.map_inj_left]
  refine forall₂_congr fun row hrow => ?_
  rw [List.map_inj_left]
  refine forall₂_congr fun p hp => ?_
  have hcell := List.forall₂_zip (typed_allRows hrow) hp
  obtain ⟨field, cell⟩ := p
  cases cell with
  | none => simp
  | some v => simpa using readValue_iff (hcell v rfl)

/-! ## Names -/

theorem filterMap_names_iff (fields : List Field) :
    fields.filterMap (fun field => cstring field.name) = fields.map Field.name ↔ ∀ field ∈ fields, nul ∉ field.name := by
  induction fields with
  | nil => simp
  | cons field fields ih =>
    by_cases h : nul ∈ field.name
    · have hlength := List.length_filterMap_le (fun field : Field => cstring field.name) fields
      have hnone : cstring field.name = none := if_pos h
      rw [List.filterMap_cons, hnone]
      refine iff_of_false (fun he => ?_) fun hall => hall field List.mem_cons_self h
      have hcount := congrArg List.length he
      simp only [List.map_cons, List.length_cons, List.length_map] at hcount
      omega
    · simp [cstring, h, ← ih]

/-! ## Streams -/

/-- The batches that come before a stream fails. -/
def arrived : List (Except String (RecordBatch Single Double schema)) → List (RecordBatch Single Double schema)
  | .ok batch :: items => batch :: arrived items
  | _ => []

theorem streamRows_eq (items : List (Except String (RecordBatch Single Double schema))) : ∀ calls, items.length ≤ calls →
    streamRows f calls (.stream items) =
      (allRows (arrived items)).map fun row => (schema.zip row).map fun p => p.2.bind (readValue f p.1) := by
  induction items with
  | nil =>
    intro calls _
    cases calls <;> rfl
  | cons item items ih =>
    intro calls hcalls
    cases calls with
    | zero => simp at hcalls
    | succ calls =>
      cases item with
      | error e => rfl
      | ok batch =>
        have hrest := ih calls (by simpa using hcalls)
        have hsplit : allRows (arrived (.ok batch :: items)) = allRows [batch] ++ allRows (arrived items) := by
          simp [allRows, arrived]
        rw [hsplit, List.map_append, ← hrest, ← clientRows_eq]
        rfl

end

/-! ## A stream that fails -/

def smallSchema : List Field := [⟨"id".toList, .uint64, none⟩, ⟨"name".toList, .utf8, none⟩]

def smallFormats : Formats Empty Unit := ⟨(), Empty.elim, fun _ => (), fun _ _ => none, id⟩

def smallBatch : RecordBatch Empty Unit smallSchema where
  rows := [[some (.int 7), some (.string "a".toList)]]
  typed := by
    intro row hrow
    rw [List.mem_singleton.mp hrow]
    refine .cons ?_ (.cons ?_ .nil)
    · intro v hv
      rw [← Option.some.inj hv]
      simp [Scalar.IsOf, Wire.integerBits, Wire.Fits]
    · intro v hv
      rw [← Option.some.inj hv]
      simp [Scalar.IsOf]

end PotatoDB.Cells
