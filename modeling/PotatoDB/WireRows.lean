import PotatoDB.PgCatalog

/-!
# Rows on the wire

The server sends the rows of a result as texts, and a type for each column that tells the client how to read them. Some
types of arrays have no text of their own: for these it sends what Arrow shows of an array with the one value.
-/

namespace PotatoDB.Wire

open TypeNames (DataType TimeUnit)
open PgCatalog (arrowToPgType)

/-! ## Lists of options -/

theorem mapM_eq_some_map {α β : Type} {f : α → Option β} {g : α → β} {xs : List α} :
    xs.mapM f = some (xs.map g) ↔ ∀ x ∈ xs, f x = some (g x) := by
  induction xs with
  | nil => simp
  | cons x xs ih =>
    rw [List.mapM_cons, List.map_cons, List.forall_mem_cons, ← ih]
    cases f x with
    | none => simp
    | some y =>
      cases xs.mapM f with
      | none => simp
      | some ys => simp

theorem zip_map_zip {α β γ δ : Type} (f : α → γ) (g : α × β → δ) (as : List α) (bs : List β) :
    (as.map f).zip ((as.zip bs).map g) = (as.zip bs).map fun p => (f p.1, g p) := by
  induction as generalizing bs with
  | nil => rfl
  | cons a as ih =>
    cases bs with
    | nil => rfl
    | cons b bs => simp [ih]

/-! ## Numbers and bytes as texts -/

def readNat (s : List Char) : Option Int := if s ≠ [] ∧ s.all Char.isDigit then some (Nat.ofDigitChars 10 s 0 : Nat) else none

def readInt : List Char → Option Int
  | '-' :: s => (readNat s).map fun n => -n
  | s => readNat s

theorem readNat_toDigits (n : Nat) : readNat (Nat.toDigits 10 n) = some (n : Int) := by
  have hall : (Nat.toDigits 10 n).all Char.isDigit = true := by
    rw [List.all_eq_true]
    exact fun c hc => Nat.isDigit_of_mem_toDigits (by decide) (by decide) hc
  have hvalue : Nat.ofDigitChars 10 (Nat.toDigits 10 n) 0 = n := Nat.ofDigitChars_toDigits (by decide) (by decide)
  simp [readNat, hall, hvalue, Nat.toDigits_ne_nil]

theorem readInt_toString (n : Int) : readInt (toString n).toList = some n := by
  cases n with
  | ofNat m =>
    have htext : (toString (Int.ofNat m)).toList = Nat.toDigits 10 m := Nat.toList_repr
    rw [htext]
    obtain ⟨d, ds, hd⟩ := List.exists_cons_of_ne_nil (Nat.toDigits_ne_nil (n := m) (b := 10))
    have hdigit : d.isDigit = true := Nat.isDigit_of_mem_toDigits (by decide) (by decide) (hd ▸ List.mem_cons_self)
    have hminus : d ≠ '-' := by
      intro h
      rw [h] at hdigit
      cases hdigit
    have hread : readInt (d :: ds) = readNat (d :: ds) := by
      unfold readInt
      split
      · rename_i s he
        exact absurd (List.cons.inj he).1 hminus
      · rfl
    rw [hd, hread, ← hd, readNat_toDigits]
    rfl
  | negSucc m =>
    have htext : (toString (Int.negSucc m)).toList = '-' :: Nat.toDigits 10 (m + 1) := by
      show (("-" ++ toString (m + 1) : String)).toList = _
      rw [String.toList_append]
      exact congrArg ('-' :: ·) Nat.toList_repr
    rw [htext]
    show (readNat (Nat.toDigits 10 (m + 1))).map (fun n => -n) = _
    rw [readNat_toDigits]
    rfl

/-- A text with a bracket is no number. -/
theorem readInt_bracket {s : List Char} (h : '[' ∈ s) : readInt s = none := by
  have hnat : ∀ {s : List Char}, '[' ∈ s → readNat s = none := by
    intro s h
    unfold readNat
    rw [if_neg]
    intro hs
    exact absurd (List.all_eq_true.mp hs.2 _ h) (by decide)
  unfold readInt
  split
  · rename_i s
    rw [hnat ((List.mem_cons.mp h).resolve_left (by decide))]
    rfl
  · exact hnat h

def hexDigit (n : Nat) : Char := if n < 10 then Char.ofNat (48 + n) else Char.ofNat (87 + n)

/-- `{:02x}`. -/
def hexByte (b : Fin 256) : List Char := [hexDigit (b / 16), hexDigit (b % 16)]

def hexValue (c : Char) : Option Nat :=
  if c.isDigit then some (c.toNat - 48)
  else if 97 ≤ c.toNat ∧ c.toNat ≤ 102 then some (c.toNat - 87)
  else if 65 ≤ c.toNat ∧ c.toNat ≤ 70 then some (c.toNat - 55)
  else none

def readHex : List Char → Option (List (Fin 256))
  | [] => some []
  | [_] => none
  | a :: b :: s => do
    let high ← hexValue a
    let low ← hexValue b
    let bytes ← readHex s
    return Fin.ofNat 256 (16 * high + low) :: bytes

theorem hexValue_hexDigit : ∀ n : Fin 16, hexValue (hexDigit n) = some n.val := by decide

theorem readHex_hexByte (b : Fin 256) (s : List Char) : readHex (hexByte b ++ s) = (readHex s).map (b :: ·) := by
  have hhigh : hexValue (hexDigit (b / 16)) = some (b.val / 16) := hexValue_hexDigit ⟨b / 16, by omega⟩
  have hlow : hexValue (hexDigit (b % 16)) = some (b.val % 16) := hexValue_hexDigit ⟨b % 16, by omega⟩
  have hbyte : Fin.ofNat 256 (16 * (b.val / 16) + b.val % 16) = b := by
    apply Fin.ext
    have := b.isLt
    simp only [Fin.ofNat]
    omega
  show (hexValue (hexDigit (b / 16)) >>= fun high => hexValue (hexDigit (b % 16)) >>= fun low =>
    readHex s >>= fun bytes => pure (Fin.ofNat 256 (16 * high + low) :: bytes)) = _
  rw [hhigh, hlow]
  simp only [Option.bind_eq_bind, Option.bind_some, hbyte]
  cases readHex s <;> rfl

theorem readHex_flatMap (bs : List (Fin 256)) : readHex (bs.flatMap hexByte) = some bs := by
  induction bs with
  | nil => rfl
  | cons b bs ih => rw [List.flatMap_cons, readHex_hexByte, ih, Option.map_some]

/-- The sixteen bytes in groups. -/
def uuidText (bs : List (Fin 256)) : List Char :=
  let hex (i n : Nat) := ((bs.drop i).take n).flatMap hexByte
  hex 0 4 ++ ['-'] ++ hex 4 2 ++ ['-'] ++ hex 6 2 ++ ['-'] ++ hex 8 2 ++ ['-'] ++ hex 10 6

def isGrouped (s : List Char) : Bool := s.length = 36 && [8, 13, 18, 23].all (s[·]? = some '-')

def readUuid (s : List Char) : Option (List (Fin 256)) :=
  if isGrouped s = true then readHex (s.filter (· ≠ '-')) else none

theorem hexDigit_ne_dash : ∀ n : Fin 16, hexDigit n ≠ '-' := by decide

theorem filter_hex (bs : List (Fin 256)) : (bs.flatMap hexByte).filter (· ≠ '-') = bs.flatMap hexByte := by
  refine List.filter_eq_self.mpr fun c hc => ?_
  obtain ⟨b, -, hb⟩ := List.mem_flatMap.mp hc
  simp only [hexByte, List.mem_cons, List.not_mem_nil, or_false] at hb
  rcases hb with rfl | rfl
  · simpa using hexDigit_ne_dash ⟨b / 16, by omega⟩
  · simpa using hexDigit_ne_dash ⟨b % 16, by omega⟩

theorem length_hex (bs : List (Fin 256)) : (bs.flatMap hexByte).length = 2 * bs.length := by
  induction bs with
  | nil => rfl
  | cons b bs ih => simp [hexByte, ih]; omega

theorem isGrouped_append {s t u v x : List Char} (hs : s.length = 8) (ht : t.length = 4) (hu : u.length = 4)
    (hv : v.length = 4) (hx : x.length = 12) :
    isGrouped (s ++ ['-'] ++ t ++ ['-'] ++ u ++ ['-'] ++ v ++ ['-'] ++ x) = true := by
  simp [isGrouped, List.getElem?_append, hs, ht, hu, hv, hx]

theorem readUuid_uuidText {bs : List (Fin 256)} (h : bs.length = 16) : readUuid (uuidText bs) = some bs := by
  have hlen : ∀ i n, i + n ≤ 16 → (((bs.drop i).take n).flatMap hexByte).length = 2 * n := by
    intro i n hin
    rw [length_hex, List.length_take, List.length_drop]
    omega
  have hjoin : ∀ i n, ((bs.drop i).take n).flatMap hexByte ++ (bs.drop (i + n)).flatMap hexByte = (bs.drop i).flatMap hexByte := by
    intro i n
    rw [← List.flatMap_append, ← List.drop_drop, List.take_append_drop]
  have hlast : (bs.drop 10).take 6 = bs.drop 10 := List.take_of_length_le (by rw [List.length_drop]; omega)
  have hfilter : (uuidText bs).filter (· ≠ '-') = bs.flatMap hexByte := by
    have hall := hjoin 0 4
    rw [← hjoin 4 2, ← hjoin 6 2, ← hjoin 8 2, ← hlast] at hall
    simp only [uuidText, List.filter_append, filter_hex]
    simpa using hall
  unfold readUuid
  rw [if_pos, hfilter, readHex_flatMap]
  exact isGrouped_append (hlen 0 4 (by omega)) (hlen 4 2 (by omega)) (hlen 6 2 (by omega)) (hlen 8 2 (by omega))
    (hlen 10 6 (by omega))

/-! ## Values of arrays -/

/-- A value of an Arrow array that is not null. -/
inductive Scalar (Single Double : Type) where
  | boolean (b : Bool)
  /-- Also the number behind a date, a time, a duration or a decimal. -/
  | int (n : Int)
  | single (x : Single)
  | double (x : Double)
  | string (s : List Char)
  | bytes (bs : List (Fin 256))
  | other (bits : List Char)
deriving DecidableEq

/-- The bits of the integers in the arrays of a type, and whether they have a sign. -/
def integerBits : DataType → Option (Nat × Bool)
  | .int8 => some (8, true)
  | .int16 => some (16, true)
  | .int32 | .date32 => some (32, true)
  | .int64 | .date64 | .timestamp _ _ | .duration _ => some (64, true)
  | .decimal128 _ _ => some (128, true)
  | .uint8 => some (8, false)
  | .uint16 => some (16, false)
  | .uint32 => some (32, false)
  | .uint64 => some (64, false)
  | _ => none

def Fits (n : Int) (bits : Nat) (signed : Bool) : Prop :=
  if signed then -2 ^ (bits - 1) ≤ n ∧ n < 2 ^ (bits - 1) else 0 ≤ n ∧ n < 2 ^ bits

variable {Single Double : Type}

def Scalar.IsOf : DataType → Scalar Single Double → Prop
  | t, .int n => (integerBits t).elim False fun b => Fits n b.1 b.2
  | .boolean, .boolean _ => True
  | .float32, .single _ => True
  | .float64, .double _ => True
  | .utf8, .string _ => True
  | .fixedSizeBinary size, .bytes bs => bs.length = size
  | .binary, .bytes _ | .largeBinary, .bytes _ => True
  | .other text, .string _ => text = "LargeUtf8".toList
  | .other text, .other _ => text ≠ "LargeUtf8".toList
  | .float16, .other _ | .list _ _ _, .other _ | .largeList _ _ _, .other _ => True
  | _, _ => False

structure Field where
  name : String
  dataType : DataType

/-- A batch: rows of values, or nulls, of the types of the schema. -/
structure RecordBatch (Single Double : Type) (schema : List Field) where
  rows : List (List (Option (Scalar Single Double)))
  typed : ∀ row ∈ rows, List.Forall₂ (fun f cell => ∀ v, cell = some v → v.IsOf f.dataType) schema row

inductive QueryResult (Single Double : Type) (schema : List Field) where
  | message (text : String)
  | records (batches : List (RecordBatch Single Double schema))

/-! ## What the server sends -/

/-- The `Display` of floats, and the `Debug` of an array with one value. -/
structure Formats (Single Double : Type) where
  single : Single → List Char
  double : Double → List Char
  debug : DataType → Scalar Single Double → List Char

structure FieldInfo where
  name : String
  pgType : PgCatalog.PgType
deriving DecidableEq

inductive Response where
  | execution (tag : String)
  | emptyQuery
  | query (fields : List FieldInfo) (rows : List (List (Option (List Char))))

section
variable (w : Formats Single Double)

def arrayValueToString : DataType → Scalar Single Double → List Char
  | .int32, .int n | .int64, .int n => (toString n).toList
  | .float64, .double x => w.double x
  | .utf8, .string s => s
  | .boolean, .boolean b => if b then ['t'] else ['f']
  | .int8, .int n | .int16, .int n | .uint32, .int n | .uint64, .int n => (toString n).toList
  | .float32, .single x => w.single x
  | .other text, .string s => if text = "LargeUtf8".toList then s else w.debug (.other text) (.string s)
  | .duration .microsecond, .int n => (toString n).toList
  | .fixedSizeBinary size, .bytes bs => if bs.length = 16 then uuidText bs else w.debug (.fixedSizeBinary size) (.bytes bs)
  | t, v => w.debug t v

def encodeField (t : DataType) (cell : Option (Scalar Single Double)) : Option (List Char) := cell.map (arrayValueToString w t)

def queryResultToResponse {schema : List Field} : QueryResult Single Double schema → Response
  | .message text => .execution text
  | .records batches =>
    if batches.length = 0 then .emptyQuery
    else .query (schema.map fun f => ⟨f.name, arrowToPgType f.dataType⟩)
      (batches.flatMap fun batch => batch.rows.map fun row => (schema.zip row).map fun p => encodeField w p.1.dataType p.2)

end

/-! ## What a client reads -/

inductive PgValue (Single Double : Type) where
  | boolean (b : Bool)
  | integer (n : Int)
  | single (x : Single)
  | double (x : Double)
  | string (s : List Char)
  | uuid (bs : List (Fin 256))
  | bytea (bs : List (Fin 256))
  | date (days : Int)
  /-- In microseconds, as `interval`. -/
  | timestamp (micros : Int)
  | interval (micros : Int)
  | numeric (unscaled scale : Int)
deriving DecidableEq

/-- The input formats of PostgreSQL that are not spelled out here. -/
structure Inputs (Single Double : Type) where
  single : List Char → Option Single
  double : List Char → Option Double
  date : List Char → Option Int
  timestamp : List Char → Option Int
  interval : List Char → Option Int
  numeric : List Char → Option (Int × Int)
  bytea : List Char → Option (List (Fin 256))

section
variable (r : Inputs Single Double)

def readIn (bits : Nat) (s : List Char) : Option Int := (readInt s).filter fun n => -2 ^ (bits - 1) ≤ n ∧ n < 2 ^ (bits - 1)

def read : PgCatalog.PgType → List Char → Option (PgValue Single Double)
  | .bool, s => if s = ['t'] then some (.boolean true) else if s = ['f'] then some (.boolean false) else none
  | .int2, s => (readIn 16 s).map .integer
  | .int4, s => (readIn 32 s).map .integer
  | .int8, s => (readIn 64 s).map .integer
  | .float4, s => (r.single s).map .single
  | .float8, s => (r.double s).map .double
  | .varchar, s | .text, s => some (.string s)
  | .date, s => (r.date s).map .date
  | .timestamp, s => (r.timestamp s).map .timestamp
  | .interval, s => (r.interval s).map .interval
  | .uuid, s => (readUuid s).map .uuid
  | .numeric, s => (r.numeric s).map fun n => .numeric n.1 n.2
  | .bytea, s => (r.bytea s).map .bytea

def readRow (fields : List FieldInfo) (row : List (Option (List Char))) : Option (List (Option (PgValue Single Double))) :=
  (fields.zip row).mapM fun p => p.2.elim (some none) fun text => (read r p.1.pgType text).map some

/-- The rows that a client has of a response. -/
def receive : Response → Option (List (List (Option (PgValue Single Double))))
  | .query fields rows => rows.mapM (readRow r fields)
  | _ => some []

end

/-! ## What the values mean -/

def TimeUnit.micros : TimeUnit → Int → Int
  | .second, n => n * 1000000
  | .millisecond, n => n * 1000
  | .microsecond, n => n
  | .nanosecond, n => n / 1000

/-- The value that is in an array, as one of PostgreSQL. -/
def meaning : DataType → Scalar Single Double → PgValue Single Double
  | .date32, .int n => .date n
  | .date64, .int n => .date (n / 86400000)
  | .timestamp unit _, .int n => .timestamp (TimeUnit.micros unit n)
  | .duration unit, .int n => .interval (TimeUnit.micros unit n)
  | .decimal128 _ scale, .int n => .numeric n scale
  | _, .int n => .integer n
  | _, .boolean b => .boolean b
  | _, .single x => .single x
  | _, .double x => .double x
  | _, .string s => .string s
  | .fixedSizeBinary _, .bytes bs => .uuid bs
  | _, .bytes bs => .bytea bs
  | _, .other bits => .string bits

/-- The values that a client reads as what they are. -/
def Sendable : DataType → Scalar Single Double → Prop
  | .uint8, _ | .uint16, _ | .date32, _ | .date64, _ | .timestamp _ _, _ | .decimal128 _ _, _ | .binary, _ | .largeBinary, _ => False
  | .uint64, .int n => n < 2 ^ 63
  | .duration unit, .int n => unit = .microsecond ∧ n = 0
  | _, _ => True

/-- What is known of the formats: floats are read as they are written, a text with brackets is no date, time or number,
a number without a unit is one of seconds, and the `Debug` of an array has brackets and shows every byte. -/
structure Standard (w : Formats Single Double) (r : Inputs Single Double) : Prop where
  single : ∀ x, r.single (w.single x) = some x
  double : ∀ x, r.double (w.double x) = some x
  date : ∀ s, '[' ∈ s → r.date s = none
  timestamp : ∀ s, '[' ∈ s → r.timestamp s = none
  interval : ∀ s, '[' ∈ s → r.interval s = none
  numeric : ∀ s, '[' ∈ s → r.numeric s = none
  seconds : ∀ (n : Int) m, r.interval (toString n).toList = some m → m = n * 1000000
  zero : r.interval "0".toList = some 0
  brackets : ∀ t v, '[' ∈ w.debug t v
  bytea : ∀ t bs bs', r.bytea (w.debug t (.bytes bs)) = some bs' → bs.length < bs'.length

/-! ## One value -/

section
variable {w : Formats Single Double} {r : Inputs Single Double} {t : DataType} {v : Scalar Single Double}

theorem readIn_toString (bits : Nat) (n : Int) : readIn bits (toString n).toList =
    if -2 ^ (bits - 1) ≤ n ∧ n < 2 ^ (bits - 1) then some n else none := by
  unfold readIn
  rw [readInt_toString]
  by_cases h : -2 ^ (bits - 1) ≤ n ∧ n < 2 ^ (bits - 1)
  · simp [h]
  · rw [if_neg h]
    simp only [Option.filter_some, decide_eq_false h]
    rfl

theorem readIn_bracket {bits : Nat} {s : List Char} (h : '[' ∈ s) : readIn bits s = none := by
  unfold readIn
  rw [readInt_bracket h]
  rfl

theorem read_boolean {b : Bool} (hv : (Scalar.boolean b : Scalar Single Double).IsOf t) :
    read r (arrowToPgType t) (arrayValueToString w t (.boolean b)) = some (meaning t (.boolean b)) ∧
      Sendable t (.boolean b : Scalar Single Double) := by
  cases t with
  | boolean => cases b <;> simp [read, arrowToPgType, arrayValueToString, meaning, Sendable]
  | _ => cases hv

/-- An integer that has a text of its own, and fits in the type that the client is told. -/
theorem read_int_iff (hs : Standard w r) {n : Int} (hv : (Scalar.int n : Scalar Single Double).IsOf t) :
    read r (arrowToPgType t) (arrayValueToString w t (.int n)) = some (meaning t (.int n)) ↔
      Sendable t (.int n : Scalar Single Double) := by
  have hdebug := hs.brackets t (.int n)
  cases t with
  | int8 | int16 | int32 | int64 | uint32 =>
    simp only [Scalar.IsOf, integerBits, Fits, Option.elim_some, Bool.false_eq_true, if_false, if_true] at hv
    simp only [read, arrowToPgType, arrayValueToString, meaning, Sendable, readIn_toString, iff_true]
    rw [if_pos (by omega), Option.map_some]
  | uint64 =>
    simp only [Scalar.IsOf, integerBits, Fits, Option.elim_some, Bool.false_eq_true, if_false] at hv
    simp only [read, arrowToPgType, arrayValueToString, meaning, Sendable, readIn_toString]
    by_cases hn : n < 2 ^ 63
    · rw [if_pos (by omega), Option.map_some]
      exact iff_of_true rfl hn
    · rw [if_neg (by omega), Option.map_none]
      exact iff_of_false (by simp) hn
  | uint8 | uint16 => simp [read, arrowToPgType, arrayValueToString, Sendable, readIn_bracket hdebug]
  | date32 | date64 => simp [read, arrowToPgType, arrayValueToString, Sendable, hs.date _ hdebug]
  | timestamp unit zone => simp [read, arrowToPgType, arrayValueToString, Sendable, hs.timestamp _ hdebug]
  | decimal128 precision scale => simp [read, arrowToPgType, arrayValueToString, Sendable, hs.numeric _ hdebug]
  | duration unit =>
    cases unit with
    | microsecond =>
      simp only [read, arrowToPgType, arrayValueToString, meaning, Sendable, TimeUnit.micros, Option.map_eq_some_iff]
      constructor
      · intro h
        obtain ⟨m, hm, he⟩ := h
        have hm' := hs.seconds n m hm
        have hmn : m = n := PgValue.interval.inj he
        exact ⟨trivial, by omega⟩
      · intro h
        exact ⟨0, by rw [h.2]; exact hs.zero, by rw [h.2]⟩
    | _ => simp [read, arrowToPgType, arrayValueToString, Sendable, hs.interval _ hdebug]
  | _ => cases hv

theorem read_bytes_iff (hs : Standard w r) {bs : List (Fin 256)} (hv : (Scalar.bytes bs : Scalar Single Double).IsOf t)
    (ht : arrowToPgType t ≠ .text) :
    read r (arrowToPgType t) (arrayValueToString w t (.bytes bs)) = some (meaning t (.bytes bs)) ↔
      Sendable t (.bytes bs : Scalar Single Double) := by
  have hlong : ∀ t, (r.bytea (w.debug t (.bytes bs))).map PgValue.bytea ≠ some (.bytea bs : PgValue Single Double) := by
    intro t h
    obtain ⟨bs', hbs', he⟩ := Option.map_eq_some_iff.mp h
    have := hs.bytea t bs bs' hbs'
    simp only [PgValue.bytea.injEq] at he
    rw [he] at this
    omega
  cases t with
  | fixedSizeBinary size =>
    have hsize : size = 16 := by
      by_contra h
      exact ht (by simp [arrowToPgType, h])
    subst hsize
    have hlen : bs.length = 16 := hv
    simp [read, arrowToPgType, arrayValueToString, meaning, Sendable, hlen, readUuid_uuidText hlen]
  | binary | largeBinary => simpa [read, arrowToPgType, arrayValueToString, meaning, Sendable] using hlong _
  | _ => cases hv

/-- What a client reads is the value exactly if the value is sendable. -/
theorem read_text_iff (hs : Standard w r) (hv : v.IsOf t) (ht : arrowToPgType t ≠ .text) :
    read r (arrowToPgType t) (arrayValueToString w t v) = some (meaning t v) ↔ Sendable t v := by
  cases v with
  | boolean b => exact iff_of_true (read_boolean hv).1 (read_boolean (w := w) (r := r) hv).2
  | int n => exact read_int_iff hs hv
  | single x =>
    cases t with
    | float32 => simp [read, arrowToPgType, arrayValueToString, meaning, Sendable, hs.single]
    | _ => cases hv
  | double x =>
    cases t with
    | float64 => simp [read, arrowToPgType, arrayValueToString, meaning, Sendable, hs.double]
    | _ => cases hv
  | string s =>
    cases t with
    | utf8 => simp [read, arrowToPgType, arrayValueToString, meaning, Sendable]
    | other text =>
      have htext : text = "LargeUtf8".toList := hv
      simp [read, arrowToPgType, arrayValueToString, meaning, Sendable, htext]
    | _ => cases hv
  | bytes bs => exact read_bytes_iff hs hv ht
  | other bits =>
    cases t with
    | other text =>
      have htext : text ≠ "LargeUtf8".toList := hv
      exact absurd (if_neg htext) ht
    | float16 | list _ _ _ | largeList _ _ _ => exact absurd rfl ht
    | _ => cases hv

end

/-! ## All rows -/

section
variable {w : Formats Single Double} {r : Inputs Single Double} {schema : List Field}

theorem readRow_iff (hs : Standard w r) (hplain : ∀ f ∈ schema, arrowToPgType f.dataType ≠ .text)
    {row : List (Option (Scalar Single Double))}
    (htyped : List.Forall₂ (fun f cell => ∀ v, cell = some v → v.IsOf f.dataType) schema row) :
    readRow r (schema.map fun f => ⟨f.name, arrowToPgType f.dataType⟩)
        ((schema.zip row).map fun p => encodeField w p.1.dataType p.2) =
        some ((schema.zip row).map fun p => p.2.map (meaning p.1.dataType)) ↔
      ∀ p ∈ schema.zip row, ∀ v, p.2 = some v → Sendable p.1.dataType v := by
  unfold readRow
  rw [zip_map_zip, List.mapM_map, mapM_eq_some_map]
  refine forall₂_congr fun p hp => ?_
  have hmem := List.of_mem_zip hp
  have hcell := List.forall₂_zip htyped hp
  obtain ⟨f, cell⟩ := p
  cases cell with
  | none => simp [encodeField]
  | some v =>
    have := read_text_iff (r := r) hs (hcell v rfl) (hplain f hmem.1)
    simp only [Function.comp_apply, encodeField, Option.map_some, Option.elim_some, Option.map_eq_some_iff,
      Option.some.injEq, exists_eq_right, forall_eq']
    simpa using this

end

/-! ## A table with a date -/

def dayText : List Char := "PrimitiveArray<Date32>\n[\n  1970-01-01,\n]".toList

def dayFormats : Formats Empty Empty := ⟨Empty.elim, Empty.elim, fun _ _ => dayText⟩

def dayInputs : Inputs Empty Empty where
  single := fun _ => none
  double := fun _ => none
  date := fun s => if s = "1970-01-01".toList then some 0 else none
  timestamp := fun _ => none
  interval := fun s => if s = "0".toList then some 0 else none
  numeric := fun _ => none
  bytea := fun _ => none

theorem day_standard : Standard dayFormats dayInputs where
  single := fun x => x.elim
  double := fun x => x.elim
  date := by
    intro s h
    refine if_neg fun he => ?_
    rw [he] at h
    exact absurd h (by decide)
  timestamp := fun _ _ => rfl
  interval := by
    intro s h
    refine if_neg fun he => ?_
    rw [he] at h
    exact absurd h (by decide)
  numeric := fun _ _ => rfl
  seconds := by
    intro n m h
    simp only [dayInputs, Option.ite_none_right_eq_some, Option.some.injEq] at h
    have hn := congrArg readInt h.1
    rw [readInt_toString] at hn
    have hzero : n = 0 := Option.some.inj (hn.trans (by decide))
    omega
  zero := rfl
  brackets := by
    intro _ _
    exact show '[' ∈ dayText from by decide
  bytea := by
    intro t bs bs' h
    cases h

def daySchema : List Field := [⟨"id", .int32⟩, ⟨"day", .date32⟩]

/-- One row, with or without its day. -/
def dayBatch (day : Option (Scalar Empty Empty)) (h : day = none ∨ day = some (.int 0)) : RecordBatch Empty Empty daySchema where
  rows := [[some (.int 7), day]]
  typed := by
    intro row hrow
    rw [List.mem_singleton.mp hrow]
    refine .cons ?_ (.cons ?_ .nil)
    · intro v hv
      rw [← Option.some.inj hv]
      simp [Scalar.IsOf, integerBits, Fits]
    · intro v hv
      rcases h with h | h
      · rw [h] at hv
        cases hv
      · rw [← Option.some.inj (h.symm.trans hv)]
        simp [Scalar.IsOf, integerBits, Fits]

end PotatoDB.Wire
