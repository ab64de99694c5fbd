import PotatoDB.KeyTexts

/-!
# Literals of stored values

`array_value_to_sql_literal` writes a stored value into the text of a statement, where DataFusion
reads it again: in the list of keys of a cascade, in the rows of an upsert, in its predicates.
-/

namespace PotatoDB

open Quoting

/-! ## Column types -/

/-- The Arrow types of columns, as `sqlparser_type_to_arrow` gives them. -/
inductive ArrowType where
  | boolean
  | int8
  | int16
  | int32
  | int64
  | float32
  | float64
  | utf8
  | date32
  /-- In microseconds, with or without the time zone UTC. -/
  | timestamp (utc : Bool)
  | decimal128 (precision : Nat) (scale : Int)
  | binary
  /-- `FixedSizeBinary(16)`, for UUID. -/
  | uuid
  /-- In microseconds, for INTERVAL. -/
  | duration
  | list (item : ArrowType)
deriving DecidableEq

def isDigits (s : List Char) : Bool := !s.isEmpty && s.all Char.isDigit

def withoutSign : List Char → List Char
  | '-' :: s => s
  | s => s

def isInteger (s : List Char) : Bool := isDigits (withoutSign s)

/-- Digits with a sign and a fraction, or without. -/
def isDecimal (s : List Char) : Bool :=
  isDigits ((withoutSign s).takeWhile (· ≠ '.')) &&
    match (withoutSign s).dropWhile (· ≠ '.') with
    | [] => true
    | _ :: fraction => isDigits fraction

/-- How floats that are not finite are written. -/
def nonFinite : List String := ["NaN", "inf", "-inf"]

/-- The values that a column of a type holds. -/
def Value.IsOf : ArrowType → Value → Prop
  | _, .null => True
  | .boolean, .bool _ => True
  | .int8, .number d | .int16, .number d | .int32, .number d | .int64, .number d => isInteger d.text.toList = true
  | .float32, .number d | .float64, .number d => isDecimal d.text.toList = true ∨ d.text ∈ nonFinite
  | .utf8, .text _ => True
  | .uuid, .uuid _ => True
  | .date32, .other _ _ | .timestamp _, .other _ _ | .decimal128 _ _, .other _ _ | .binary, .other _ _
  | .duration, .other _ _ | .list _, .other _ _ => True
  | _, _ => False

/-! ## Reading literals -/

inductive SqlLiteral where
  | null
  | boolean (b : Bool)
  | number (digits : List Char)
  | string (s : String)
deriving DecidableEq

/-- A text that is one literal. -/
def readLiteral : List Char → Option SqlLiteral
  | [] => none
  | c :: cs =>
    if c = quoteChar then
      match readBody quoteChar cs with
      | some (body, []) => some (.string (String.ofList body))
      | _ => none
    else if c :: cs = "NULL".toList then some .null
    else if c :: cs = "TRUE".toList then some (.boolean true)
    else if c :: cs = "FALSE".toList then some (.boolean false)
    else if isInteger (c :: cs) || isDecimal (c :: cs) then some (.number (c :: cs))
    else none

/-- How numbers are read and texts are cast. -/
structure Reading where
  Double : Type
  Single : Type
  /-- The double nearest to a decimal number. -/
  double : List Char → Double
  /-- The single-precision number that is written with the digits. -/
  single : List Char → Single
  widen : Single → Double
  narrow : Double → Single
  castText : ArrowType → String → Option Value
  /-- The number of characters of a text in bytes, or in the elements of a list. -/
  size : Value → Nat

/-- What is known of the casts of texts and of Arrow's debug texts. -/
structure Reading.Standard (r : Reading) (debug : Value → String) : Prop where
  narrow_widen : ∀ x, r.narrow (r.widen x) = x
  castText_utf8 : ∀ s, r.castText .utf8 s = some (.text s)
  castText_uuid : ∀ s, r.castText .uuid s = none
  /-- Dates, times, decimals and intervals do not start with a letter. -/
  castText_scalar : ∀ t s v, (t = .date32 ∨ (∃ utc, t = .timestamp utc) ∨ (∃ p k, t = .decimal128 p k) ∨ t = .duration) →
    r.castText t s = some v → s.toList.head?.any Char.isAlpha = false
  /-- A text is cast to its bytes, or to a list of itself. -/
  castText_size : ∀ t s v, (t = .binary ∨ ∃ item, t = .list item) → r.castText t s = some v → r.size v = s.length
  /-- A debug text starts with the name of the array. -/
  debug_head : ∀ type bits, (debug (.other type bits)).toList.head?.any Char.isAlpha = true
  /-- A debug text shows every byte and element, and the name of the array. -/
  debug_size : ∀ type bits, r.size (.other type bits) < (debug (.other type bits)).length

variable (r : Reading)

/-- A literal compares equal to a value in a column. -/
def SqlLiteral.Equals (t : ArrowType) (v : Value) : SqlLiteral → Prop
  | .null => v = .null
  | .boolean b => t = .boolean ∧ v = .bool b
  | .number digits =>
    match t, v with
    -- a REAL is compared as a double
    | .float32, .number d => r.double digits = r.widen (r.single d.text.toList)
    | .float64, .number d => r.double digits = r.double d.text.toList
    | .int8, .number d | .int16, .number d | .int32, .number d | .int64, .number d => digits = d.text.toList
    | _, _ => False
  | .string s => r.castText t s = some v

/-- An INSERT of a literal into a column stores a value. -/
def SqlLiteral.Stores (t : ArrowType) (v : Value) : SqlLiteral → Prop
  | .number digits =>
    match t, v with
    | .float32, .number d => r.narrow (r.double digits) = r.single d.text.toList
    | _, _ => (SqlLiteral.number digits).Equals r t v
  | l => l.Equals r t v

/-- A text is a literal that denotes the value in a column of the type. -/
def RoundTrips (t : ArrowType) (v : Value) (text : String) : Prop :=
  ∃ l, readLiteral text.toList = some l ∧ l.Equals r t v ∧ l.Stores r t v

/-- NULL, truth values, integers, texts, finite doubles, and finite REALs that are the double of their digits. -/
def Denotable : ArrowType → Value → Prop
  | _, .null => True
  | .float32, .number d => d.text ∉ nonFinite ∧ r.double d.text.toList = r.widen (r.single d.text.toList)
  | .float64, .number d => d.text ∉ nonFinite
  | .boolean, _ | .int8, _ | .int16, _ | .int32, _ | .int64, _ | .utf8, _ => True
  | _, _ => False

/-! ## What each literal is read as -/

variable {r}

theorem readLiteral_enclose (s : List Char) : readLiteral (enclose quoteChar s) = some (.string (String.ofList s)) := by
  have hbody := readBody_double (show Clear quoteChar [] from nofun) s
  unfold enclose readLiteral
  dsimp only
  rw [if_pos rfl, hbody]

theorem readLiteral_quoted {debug : Value → String} {v : Value} {s : String} (h : v.quoted debug = some s) :
    readLiteral (arrayValueToSqlLiteral debug v).toList = some (.string s) := by
  rw [literal_quoted h, readLiteral_enclose, String.ofList_toList]

theorem head_of_isDigits {s : List Char} (h : isDigits s = true) : ∃ c cs, s = c :: cs ∧ c.isDigit = true := by
  cases s with
  | nil => cases h
  | cons c cs =>
    unfold isDigits at h
    simp only [List.isEmpty_cons, Bool.not_false, Bool.true_and, List.all_cons, Bool.and_eq_true] at h
    exact ⟨c, cs, rfl, h.1⟩

theorem head_of_withoutSign {s : List Char} {c : Char} {cs : List Char} (h : withoutSign s = c :: cs) (hc : c.isDigit = true) :
    ∃ d ds, s = d :: ds ∧ (d = '-' ∨ d.isDigit = true) := by
  cases s with
  | nil => cases h
  | cons d ds =>
    refine ⟨d, ds, rfl, ?_⟩
    by_cases hd : d = '-'
    · exact .inl hd
    · right
      unfold withoutSign at h
      split at h
      · rename_i he
        exact absurd (List.cons.inj he).1 hd
      · rw [(List.cons.inj h).1]
        exact hc

theorem head_of_number {s : List Char} (h : isInteger s = true ∨ isDecimal s = true) :
    ∃ c cs, s = c :: cs ∧ (c = '-' ∨ c.isDigit = true) := by
  cases h with
  | inl h =>
    obtain ⟨c, cs, hs, hc⟩ := head_of_isDigits h
    exact head_of_withoutSign hs hc
  | inr h =>
    have hwhole : isDigits ((withoutSign s).takeWhile (· ≠ '.')) = true := by
      unfold isDecimal at h
      rw [Bool.and_eq_true] at h
      exact h.1
    obtain ⟨c, cs, hs, hc⟩ := head_of_isDigits hwhole
    have hsplit := List.takeWhile_append_dropWhile (p := (· ≠ '.')) (l := withoutSign s)
    rw [hs] at hsplit
    exact head_of_withoutSign hsplit.symm hc

theorem readLiteral_number {s : List Char} (h : isInteger s = true ∨ isDecimal s = true) : readLiteral s = some (.number s) := by
  obtain ⟨c, cs, rfl, hc⟩ := head_of_number h
  have hne : ∀ d : Char, d ≠ '-' → d.isDigit = false → c ≠ d := by
    intro d hd hdigit he
    cases hc with
    | inl hsign => exact hd (he ▸ hsign)
    | inr hdig => rw [he, hdigit] at hdig; cases hdig
  unfold readLiteral
  dsimp only
  have hword : ∀ (d : Char) (ds : List Char), d ≠ '-' → d.isDigit = false → c :: cs ≠ d :: ds :=
    fun d ds hd hdigit he => hne d hd hdigit (List.cons.inj he).1
  have hnull : c :: cs ≠ "NULL".toList := hword 'N' ['U', 'L', 'L'] (by decide) (by decide)
  have htrue : c :: cs ≠ "TRUE".toList := hword 'T' ['R', 'U', 'E'] (by decide) (by decide)
  have hfalse : c :: cs ≠ "FALSE".toList := hword 'F' ['A', 'L', 'S', 'E'] (by decide) (by decide)
  rw [if_neg (hne quoteChar (by decide) (by decide)), if_neg hnull, if_neg htrue, if_neg hfalse, if_pos (by simpa using h)]

theorem readLiteral_nonFinite {s : String} (h : s ∈ nonFinite) : readLiteral s.toList = none := by
  unfold nonFinite at h
  simp only [List.mem_cons, List.not_mem_nil, or_false] at h
  rcases h with rfl | rfl | rfl <;> decide

/-! ## Which values round-trip -/

section
variable {debug : Value → String} {t : ArrowType}

theorem roundTrips_quoted {v : Value} {s : String} (h : v.quoted debug = some s) :
    RoundTrips r t v (arrayValueToSqlLiteral debug v) ↔ r.castText t s = some v := by
  unfold RoundTrips
  rw [readLiteral_quoted h]
  constructor
  · rintro ⟨l, hl, heq, -⟩
    obtain rfl := Option.some.inj hl
    exact heq
  · exact fun hcast => ⟨_, rfl, hcast, hcast⟩

theorem roundTrips_number {d : PlainText} (h : isInteger d.text.toList = true ∨ isDecimal d.text.toList = true) :
    RoundTrips r t (.number d) d.text ↔ (SqlLiteral.number d.text.toList).Equals r t (.number d) ∧
      (SqlLiteral.number d.text.toList).Stores r t (.number d) := by
  unfold RoundTrips
  rw [readLiteral_number h]
  constructor
  · rintro ⟨l, hl, hboth⟩
    obtain rfl := Option.some.inj hl
    exact hboth
  · exact fun hboth => ⟨_, rfl, hboth⟩

theorem not_roundTrips_nonFinite {d : PlainText} (h : d.text ∈ nonFinite) : ¬ RoundTrips r t (.number d) d.text := by
  rintro ⟨l, hl, -⟩
  rw [readLiteral_nonFinite h] at hl
  cases hl

theorem not_castText_debug (hr : r.Standard debug) {type bits : String} (hv : (Value.other type bits).IsOf t) :
    r.castText t (debug (.other type bits)) ≠ some (.other type bits) := by
  intro h
  have hscalar : (t = .date32 ∨ (∃ utc, t = .timestamp utc) ∨ (∃ p k, t = .decimal128 p k) ∨ t = .duration) → False := by
    intro ht
    have := hr.castText_scalar t _ _ ht h
    rw [hr.debug_head] at this
    cases this
  have hsize : (t = .binary ∨ ∃ item, t = .list item) → False := by
    intro ht
    have := hr.castText_size t _ _ ht h
    exact absurd (hr.debug_size type bits) (by omega)
  cases t with
  | date32 => exact hscalar (.inl rfl)
  | timestamp utc => exact hscalar (.inr (.inl ⟨utc, rfl⟩))
  | decimal128 p k => exact hscalar (.inr (.inr (.inl ⟨p, k, rfl⟩)))
  | duration => exact hscalar (.inr (.inr (.inr rfl)))
  | binary => exact hsize (.inl rfl)
  | list item => exact hsize (.inr ⟨item, rfl⟩)
  | _ => exact hv.elim

end

/-- Numbers are read as their digits, and no text is cast but to a text. -/
def textReading : Reading where
  Double := List Char
  Single := List Char
  double digits := digits
  single digits := digits
  widen x := x
  narrow x := x
  castText
    | .utf8, s => some (.text s)
    | _, _ => none
  size _ := 0

/-- The name of the array before its elements. -/
def arrayText : Value → String
  | .other type bits => "PrimitiveArray<" ++ (type ++ ">[" ++ bits ++ "]")
  | _ => "NullArray(1)"

theorem textReading_standard : textReading.Standard arrayText where
  narrow_widen _ := rfl
  castText_utf8 _ := rfl
  castText_uuid _ := rfl
  castText_scalar := by
    intro t s v ht hcast
    obtain rfl | ⟨utc, rfl⟩ | ⟨p, k, rfl⟩ | rfl := ht <;> cases hcast
  castText_size := by
    intro t s v ht hcast
    obtain rfl | ⟨item, rfl⟩ := ht <;> cases hcast
  debug_head type bits := by
    unfold arrayText
    rw [String.toList_append, show "PrimitiveArray<".toList = 'P' :: "rimitiveArray<".toList from rfl, List.cons_append,
      List.head?_cons]
    rfl
  debug_size type bits := by
    unfold arrayText
    rw [String.length_append]
    exact Nat.lt_of_lt_of_le (by decide : 0 < "PrimitiveArray<".length) (Nat.le_add_right _ _)

def nanDigits : PlainText := plainText "NaN" (by decide) (by decide)

end PotatoDB
