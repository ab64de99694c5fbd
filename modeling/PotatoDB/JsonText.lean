import PotatoDB.Codecs

/-!
# Documents as texts

A document is written compactly or with indentation, and read by a reader that goes no deeper than a given number of
brackets. What is written is read back.
-/

namespace Codecs

/-! ## Writing -/

def hexChar (n : Nat) : Char := Char.ofNat (if n < 10 then 48 + n else 87 + n)

/-- A character between quotes. -/
def escapeChar (c : Char) : List Char :=
  if c = '"' then ['\\', '"']
  else if c = '\\' then ['\\', '\\']
  else if c = '\n' then ['\\', 'n']
  else if c = '\r' then ['\\', 'r']
  else if c = '\t' then ['\\', 't']
  else if c = '\x08' then ['\\', 'b']
  else if c = '\x0c' then ['\\', 'f']
  else if c.toNat < 32 then ['\\', 'u', '0', '0', hexChar (c.toNat / 16), hexChar (c.toNat % 16)]
  else [c]

def quote (s : String) : List Char := '"' :: (s.toList.flatMap escapeChar ++ ['"'])

/-- White space between tokens. -/
def isBlank (c : Char) : Bool := c = ' ' || c = '\n' || c = '\t' || c = '\r'

/-- The white space of a layout; it depends on the number of open brackets. -/
structure JsonStyle where
  before : Nat → List Char
  close : Nat → List Char
  colon : List Char
  before_blank : ∀ d, (before d).all isBlank = true
  close_blank : ∀ d, (close d).all isBlank = true
  colon_blank : colon.all isBlank = true

def JsonStyle.compact : JsonStyle := ⟨fun _ => [], fun _ => [], [], fun _ => rfl, fun _ => rfl, rfl⟩

def JsonStyle.pretty : JsonStyle where
  before d := '\n' :: List.replicate (2 * (d + 1)) ' '
  close d := '\n' :: List.replicate (2 * d) ' '
  colon := [' ']
  before_blank _ := by simp [isBlank]
  close_blank _ := by simp [isBlank]
  colon_blank := rfl

/-- Elements between brackets. -/
def enclose (style : JsonStyle) (d : Nat) (left right : Char) : List (List Char) → List Char
  | [] => [left, right]
  | e :: es => left :: (style.before d ++ e ++ es.flatMap (fun e => ',' :: (style.before d ++ e)) ++ style.close d ++ [right])

mutual

def Json.print (style : JsonStyle) (d : Nat) : Json → List Char
  | .null => "null".toList
  | .bool true => "true".toList
  | .bool false => "false".toList
  | .integer n => (toString n).toList
  | .decimal text => text.toList
  | .string s => quote s
  | .array elements => enclose style d '[' ']' (printElements style (d + 1) elements)
  | .object fields => enclose style d '\x7b' '\x7d' (printFields style (d + 1) fields)

def printElements (style : JsonStyle) (d : Nat) : List Json → List (List Char)
  | [] => []
  | j :: js => j.print style d :: printElements style d js

def printField (style : JsonStyle) (d : Nat) : String × Json → List Char
  | (name, j) => quote name ++ ':' :: (style.colon ++ j.print style d)

def printFields (style : JsonStyle) (d : Nat) : List (String × Json) → List (List Char)
  | [] => []
  | f :: fs => printField style d f :: printFields style d fs

end

theorem printElements_eq (style : JsonStyle) (d : Nat) (js : List Json) :
    printElements style d js = js.map (Json.print style d) := by
  induction js with
  | nil => simp [printElements]
  | cons j js ih => simp [printElements, ih]

theorem printFields_eq (style : JsonStyle) (d : Nat) (fs : List (String × Json)) :
    printFields style d fs = fs.map (printField style d) := by
  induction fs with
  | nil => simp [printFields]
  | cons f fs ih => simp [printFields, ih]

/-! ## Reading -/

/-- What is read at the beginning of a text, and the text behind it. -/
abbrev Reader (α : Type) := List Char → Option (α × List Char)

def skipBlank (s : List Char) : List Char := s.dropWhile isBlank

def hexValue (c : Char) : Option Nat :=
  if c.isDigit then some (c.toNat - 48)
  else if 'a' ≤ c ∧ c ≤ 'f' then some (c.toNat - 87)
  else if 'A' ≤ c ∧ c ≤ 'F' then some (c.toNat - 55)
  else none

/-- Four hexadecimal digits. -/
def readHex : Reader Nat
  | a :: b :: c :: d :: rest => do
    let digits ← [a, b, c, d].mapM hexValue
    return (digits.foldl (fun n h => 16 * n + h) 0, rest)
  | _ => none

/-- The code point behind a backslash and a `u`; two surrogates stand for one. -/
def readUnit : Reader Char := fun s => do
  let (n, rest) ← readHex s
  if n < 0xD800 ∨ 0xE000 ≤ n then return (Char.ofNat n, rest)
  else if 0xDC00 ≤ n then none
  else match rest with
    | '\\' :: 'u' :: rest => do
      let (m, rest) ← readHex rest
      if 0xDC00 ≤ m ∧ m < 0xE000 then return (Char.ofNat (0x10000 + (n - 0xD800) * 0x400 + (m - 0xDC00)), rest) else none
    | _ => none

def escapes : List (Char × Char) :=
  [('"', '"'), ('\\', '\\'), ('/', '/'), ('b', '\x08'), ('f', '\x0c'), ('n', '\n'), ('r', '\r'), ('t', '\t')]

/-- One character of a text between quotes. -/
def readChar : Reader Char
  | '\\' :: 'u' :: rest => readUnit rest
  | '\\' :: e :: rest => (escapes.lookup e).map (·, rest)
  | c :: rest => if c = '\\' ∨ c.toNat < 32 then none else some (c, rest)
  | [] => none

/-- The characters up to the closing quote. -/
def readChars : Nat → Reader (List Char)
  | 0, _ => none
  | fuel + 1, s =>
    if s.head? = some '"' then some ([], s.tail)
    else do
      let (c, rest) ← readChar s
      let (cs, rest) ← readChars fuel rest
      return (c :: cs, rest)

def readString : Reader String := fun s =>
  if s.head? = some '"' then (readChars s.length s.tail).map fun r => (String.ofList r.1, r.2) else none

def readDigits (s : List Char) : List Char × List Char := (s.takeWhile Char.isDigit, s.dropWhile Char.isDigit)

def readFraction : Reader (List Char)
  | '.' :: rest => if (readDigits rest).1 = [] then none else some ('.' :: (readDigits rest).1, (readDigits rest).2)
  | s => some ([], s)

/-- A sign may stand before the digits of an exponent. -/
def splitSign : List Char → List Char × List Char
  | c :: rest => if c = '+' ∨ c = '-' then ([c], rest) else ([], c :: rest)
  | [] => ([], [])

def readExponent : Reader (List Char)
  | c :: rest =>
    if c = 'e' ∨ c = 'E' then
      let (sign, rest) := splitSign rest
      if (readDigits rest).1 = [] then none else some (c :: (sign ++ (readDigits rest).1), (readDigits rest).2)
    else some ([], c :: rest)
  | [] => some ([], [])

/-- A number is an integer if it has neither a fraction nor an exponent and fits a machine word. -/
def numberOf (negative : Bool) (digits fraction exponent : List Char) : Json :=
  let n := Nat.ofDigitChars 10 digits 0
  let sign := if negative then ['-'] else []
  if fraction = [] ∧ exponent = [] ∧ negative = false ∧ n < 2 ^ 64 then .integer n
  else if fraction = [] ∧ exponent = [] ∧ negative = true ∧ 0 < n ∧ n ≤ 2 ^ 63 then .integer (-n)
  else .decimal (String.ofList (sign ++ digits ++ fraction ++ exponent))

def readUnsigned (negative : Bool) : Reader Json := fun s => do
  let digits := (readDigits s).1
  if digits = [] ∨ (digits.head? = some '0' ∧ digits ≠ ['0']) then none
  else
    let (fraction, rest) ← readFraction (readDigits s).2
    let (exponent, rest) ← readExponent rest
    return (numberOf negative digits fraction exponent, rest)

def readNumber : Reader Json
  | '-' :: rest => readUnsigned true rest
  | s => readUnsigned false s

def readWord (word : String) (j : Json) : Reader Json := fun s =>
  if word.toList.isPrefixOf s then some (j, s.drop word.length) else none

/-- Items with commas before them, up to a closing bracket. -/
def readItems {α : Type} (item : Reader α) (right : Char) : Nat → Reader (List α)
  | 0, _ => none
  | fuel + 1, s =>
    match skipBlank s with
    | [] => none
    | c :: rest =>
      if c = right then some ([], rest)
      else if c = ',' then do
        let (a, rest) ← item rest
        let (as, rest) ← readItems item right fuel rest
        return (a :: as, rest)
      else none

/-- Items behind an opening bracket. -/
def readBody {α : Type} (item : Reader α) (right : Char) : Reader (List α) := fun s =>
  if (skipBlank s).head? = some right then some ([], (skipBlank s).tail)
  else do
    let (a, rest) ← item s
    let (as, rest) ← readItems item right rest.length rest
    return (a :: as, rest)

/-- A name, a colon and a value. -/
def readField (value : Reader Json) : Reader (String × Json) := fun s => do
  let (name, rest) ← readString (skipBlank s)
  match skipBlank rest with
  | ':' :: rest => do
    let (j, rest) ← value rest
    return ((name, j), rest)
  | _ => none

/-- A value by its first character; its elements are read by another reader, and without one it goes too deep. -/
def readToken (inner : Option (Reader Json)) (c : Char) (rest : List Char) : Option (Json × List Char) :=
  match c with
  | '"' => (readString (c :: rest)).map fun r => (.string r.1, r.2)
  | '[' => inner.bind fun value => (readBody value ']' rest).map fun r => (.array r.1, r.2)
  | '\x7b' => inner.bind fun value => (readBody (readField value) '\x7d' rest).map fun r => (.object r.1, r.2)
  | 'n' => readWord "null" .null (c :: rest)
  | 't' => readWord "true" (.bool true) (c :: rest)
  | 'f' => readWord "false" (.bool false) (c :: rest)
  | _ => readNumber (c :: rest)

def readWith (inner : Option (Reader Json)) : Reader Json := fun s =>
  match skipBlank s with
  | [] => none
  | c :: rest => readToken inner c rest

def readValue : Nat → Reader Json
  | 0 => readWith none
  | n + 1 => readWith (some (readValue n))

/-- The whole text is one document, with at most 127 open brackets. -/
def Json.parse (s : List Char) : Option Json := do
  let (j, rest) ← readValue 127 s
  if skipBlank rest = [] then some j else none

/-! ## What was written is read -/

/-- No number goes on here. -/
def Ends (rest : List Char) : Prop := ∀ c ∈ rest.head?, c.isDigit = false ∧ c ≠ '.' ∧ c ≠ 'e' ∧ c ≠ 'E'

/-- The reader finds `a` in the text, with white space before it and a rest behind it, and no closing bracket. -/
structure Reads {α : Type} (item : Reader α) (text : List Char) (a : α) : Prop where
  head : ∃ c cs, text = c :: cs ∧ isBlank c = false ∧ c ≠ ']' ∧ c ≠ '\x7d'
  read : ∀ blank rest, blank.all isBlank = true → Ends rest → item (blank ++ text ++ rest) = some (a, rest)

theorem skipBlank_append {blank : List Char} (h : blank.all isBlank = true) (s : List Char) :
    skipBlank (blank ++ s) = skipBlank s := by
  induction blank with
  | nil => rfl
  | cons c blank ih =>
    simp only [List.all_cons, Bool.and_eq_true] at h
    simp only [skipBlank, List.cons_append, List.dropWhile_cons, h.1, ite_true]
    exact ih h.2

theorem skipBlank_cons {c : Char} (h : isBlank c = false) (s : List Char) : skipBlank (c :: s) = c :: s := by
  simp [skipBlank, h]

theorem ends_cons {c : Char} (hd : c.isDigit = false) (hdot : c ≠ '.') (he : c ≠ 'e') (hE : c ≠ 'E') (s : List Char) :
    Ends (c :: s) := by
  intro d hd'
  simp only [List.head?_cons, Option.mem_def, Option.some.injEq] at hd'
  subst hd'
  exact ⟨hd, hdot, he, hE⟩

theorem ends_nil : Ends [] := by simp [Ends]

theorem ends_of_blank {c : Char} (h : isBlank c = true) (s : List Char) : Ends (c :: s) := by
  simp only [isBlank, Bool.or_eq_true, decide_eq_true_eq] at h
  obtain ((rfl | rfl) | rfl) | rfl := h <;> exact ends_cons (by decide) (by decide) (by decide) (by decide) s

theorem ends_blank_append {blank : List Char} (h : blank.all isBlank = true) {s : List Char} (hs : Ends s) :
    Ends (blank ++ s) := by
  cases blank with
  | nil => exact hs
  | cons c blank =>
    simp only [List.all_cons, Bool.and_eq_true] at h
    exact ends_of_blank h.1 _

/-! ### Texts -/

theorem hexValue_hexChar : ∀ n < 16, hexValue (hexChar n) = some n := by decide

theorem readChar_escapeChar (c : Char) (rest : List Char) : readChar (escapeChar c ++ rest) = some (c, rest) := by
  unfold escapeChar
  iterate 7 (split; · subst_vars; rfl)
  split
  · rename_i hlt
    have hhigh := hexValue_hexChar (c.toNat / 16) (by omega)
    have hlow := hexValue_hexChar (c.toNat % 16) (by omega)
    have hzero : hexValue '0' = some 0 := by decide
    have hn : 16 * (c.toNat / 16) + c.toNat % 16 = c.toNat := by omega
    have hhex : readHex ('0' :: '0' :: hexChar (c.toNat / 16) :: hexChar (c.toNat % 16) :: rest) = some (c.toNat, rest) := by
      simp [readHex, hzero, hhigh, hlow, hn]
    have hunit : readUnit ('0' :: '0' :: hexChar (c.toNat / 16) :: hexChar (c.toNat % 16) :: rest) = some (c, rest) := by
      rw [readUnit, hhex]
      simp [show c.toNat < 0xD800 by omega]
    exact hunit
  · rename_i hquote hback _ _ _ _ _ hge
    rw [List.singleton_append]
    unfold readChar
    split
    · rename_i heq
      exact absurd (List.cons.inj heq).1 hback
    · rename_i heq
      exact absurd (List.cons.inj heq).1 hback
    · rename_i heq
      obtain ⟨rfl, rfl⟩ := List.cons.inj heq
      rw [if_neg (by simp [hback, hge])]
    · rename_i heq
      exact absurd heq (List.cons_ne_nil _ _)

theorem head_escapeChar (c : Char) (rest : List Char) : (escapeChar c ++ rest).head? ≠ some '"' := by
  unfold escapeChar
  split_ifs <;> simp_all

theorem readChars_escaped (cs rest : List Char) : ∀ fuel, cs.length < fuel →
    readChars fuel (cs.flatMap escapeChar ++ '"' :: rest) = some (cs, rest) := by
  induction cs with
  | nil =>
    intro fuel hfuel
    obtain ⟨fuel, rfl⟩ : ∃ k, fuel = k + 1 := ⟨fuel - 1, by simp at hfuel; omega⟩
    simp [readChars]
  | cons c cs ih =>
    intro fuel hfuel
    obtain ⟨fuel, rfl⟩ : ∃ k, fuel = k + 1 := ⟨fuel - 1, by simp at hfuel; omega⟩
    have hread := ih fuel (by simp at hfuel; omega)
    rw [List.flatMap_cons, List.append_assoc, readChars, if_neg (head_escapeChar c _), readChar_escapeChar]
    simp [hread]

theorem length_escapeChar (c : Char) : 0 < (escapeChar c).length := by
  unfold escapeChar
  split_ifs <;> simp

theorem length_escaped (cs : List Char) : cs.length ≤ (cs.flatMap escapeChar).length := by
  induction cs with
  | nil => simp
  | cons c cs ih =>
    have hpos := length_escapeChar c
    simp only [List.flatMap_cons, List.length_cons, List.length_append]
    omega

theorem readString_quote (s : String) (rest : List Char) : readString (quote s ++ rest) = some (s, rest) := by
  have hlength := length_escaped s.toList
  have hread := readChars_escaped s.toList rest (quote s ++ rest).length (by
    simp only [quote, List.length_append, List.length_cons]
    omega)
  have htail : (quote s ++ rest).tail = s.toList.flatMap escapeChar ++ '"' :: rest := by simp [quote]
  rw [readString, if_pos (by simp [quote]), htail, hread]
  simp

/-! ### Numbers -/

theorem readDigits_append {ds rest : List Char} (hds : ∀ c ∈ ds, c.isDigit = true) (hrest : ∀ c ∈ rest.head?, c.isDigit = false) :
    readDigits (ds ++ rest) = (ds, rest) := by
  induction ds with
  | nil =>
    cases rest with
    | nil => rfl
    | cons c rest =>
      have hc := hrest c (by simp)
      simp [readDigits, hc]
  | cons d ds ih =>
    have hd := hds d (by simp)
    have hih := ih fun c hc => hds c (List.mem_cons_of_mem _ hc)
    simp only [readDigits, Prod.mk.injEq] at hih
    simp [readDigits, hd, hih.1, hih.2]

theorem head_toDigits {n : Nat} (h : (Nat.toDigits 10 n).head? = some '0') : Nat.toDigits 10 n = ['0'] := by
  have hlead : ∀ m : Nat, 0 < m → (Nat.toDigits 10 m).head? ≠ some '0' := by
    intro m
    induction m using Nat.strongRecOn with
    | ind m ih =>
      intro hm
      by_cases hlt : m < 10
      · rw [Nat.toDigits_of_lt_base hlt]
        interval_cases m <;> decide
      · rw [Nat.toDigits_of_base_le (by decide) (by omega)]
        have hne := Nat.toDigits_ne_nil (n := m / 10) (b := 10)
        rw [List.head?_append_of_ne_nil _ hne]
        exact ih (m / 10) (by omega) (by omega)
  cases n with
  | zero => rfl
  | succ n => exact absurd h (hlead _ (Nat.succ_pos n))

theorem readUnsigned_digits (negative : Bool) (n : Nat) {rest : List Char} (h : Ends rest) :
    readUnsigned negative (Nat.toDigits 10 n ++ rest) = some (numberOf negative (Nat.toDigits 10 n) [] [], rest) := by
  have hdigits : ∀ c ∈ Nat.toDigits 10 n, c.isDigit = true := fun c hc => Nat.isDigit_of_mem_toDigits (by decide) (by decide) hc
  have hread := readDigits_append hdigits fun c hc => (h c hc).1
  have hfraction : readFraction rest = some ([], rest) := by
    unfold readFraction
    split
    · exact absurd rfl (h '.' (by simp)).2.1
    · rfl
  have hexponent : readExponent rest = some ([], rest) := by
    cases rest with
    | nil => rfl
    | cons c rest =>
      have hc := h c (by simp)
      simp [readExponent, hc]
  have hlead : ¬ ((Nat.toDigits 10 n).head? = some '0' ∧ Nat.toDigits 10 n ≠ ['0']) := fun h => h.2 (head_toDigits h.1)
  simp [readUnsigned, hread, Nat.toDigits_ne_nil, hlead, hfraction, hexponent]

theorem readNumber_digits (m : Nat) (rest : List Char) :
    readNumber (Nat.toDigits 10 m ++ rest) = readUnsigned false (Nat.toDigits 10 m ++ rest) := by
  obtain ⟨d, ds, hd⟩ := List.exists_cons_of_ne_nil (Nat.toDigits_ne_nil (n := m) (b := 10))
  have hdigit : d.isDigit = true := Nat.isDigit_of_mem_toDigits (by decide) (by decide) (hd ▸ List.mem_cons_self)
  rw [hd, List.cons_append]
  unfold readNumber
  split
  · rename_i heq
    rw [(List.cons.inj heq).1] at hdigit
    exact absurd hdigit (by decide)
  · rfl

theorem numberOf_natural {m : Nat} (h : m < 2 ^ 64) : numberOf false (Nat.toDigits 10 m) [] [] = .integer m := by
  have hvalue : Nat.ofDigitChars 10 (Nat.toDigits 10 m) 0 = m := Nat.ofDigitChars_toDigits (by decide) (by decide)
  rw [numberOf, hvalue, if_pos ⟨rfl, rfl, rfl, h⟩]

theorem numberOf_negative {m : Nat} (hpos : 0 < m) (h : m ≤ 2 ^ 63) :
    numberOf true (Nat.toDigits 10 m) [] [] = .integer (-m) := by
  have hvalue : Nat.ofDigitChars 10 (Nat.toDigits 10 m) 0 = m := Nat.ofDigitChars_toDigits (by decide) (by decide)
  rw [numberOf, hvalue, if_neg (by simp), if_pos ⟨rfl, rfl, rfl, hpos, h⟩]

theorem readNumber_toString {n : Int} (hlo : -2 ^ 63 ≤ n) (hhi : n < 2 ^ 64) {rest : List Char} (h : Ends rest) :
    readNumber ((toString n).toList ++ rest) = some (.integer n, rest) := by
  cases n with
  | ofNat m =>
    have htext : (toString (Int.ofNat m)).toList = Nat.toDigits 10 m := Nat.toList_repr
    rw [htext, readNumber_digits, readUnsigned_digits false m h, numberOf_natural (by have := Int.ofNat_lt.mp hhi; omega)]
    rfl
  | negSucc m =>
    have htext : (toString (Int.negSucc m)).toList = '-' :: Nat.toDigits 10 (m + 1) := by
      have hneg : toString (Int.negSucc m) = "-" ++ (m + 1).repr := rfl
      rw [hneg, String.toList_append, Nat.toList_repr]
      rfl
    have hread : readNumber ('-' :: (Nat.toDigits 10 (m + 1) ++ rest)) = readUnsigned true (Nat.toDigits 10 (m + 1) ++ rest) := rfl
    rw [htext, List.cons_append, hread, readUnsigned_digits true (m + 1) h,
      numberOf_negative (Nat.succ_pos m) (by omega)]
    rfl

/-! ### Brackets -/

/-- A list of texts that a reader reads, one after the other. -/
theorem readItems_texts {α : Type} {item : Reader α} {right : Char} (hcomma : right ≠ ',') (hblank : isBlank right = false)
    {before close : List Char} (hbefore : before.all isBlank = true) (hclose : close.all isBlank = true) (rest : List Char) :
    ∀ {texts : List (List Char)} {as : List α}, List.Forall₂ (Reads item) texts as → right.isDigit = false ∧ right ≠ '.' ∧ right ≠ 'e' ∧ right ≠ 'E' →
    ∀ fuel, texts.length < fuel →
      readItems item right fuel (texts.flatMap (fun e => ',' :: (before ++ e)) ++ close ++ right :: rest) = some (as, rest) := by
  intro texts as hreads hright
  induction hreads with
  | nil =>
    intro fuel hfuel
    obtain ⟨fuel, rfl⟩ : ∃ k, fuel = k + 1 := ⟨fuel - 1, by omega⟩
    rw [List.flatMap_nil, List.nil_append, readItems, skipBlank_append hclose, skipBlank_cons hblank]
    simp
  | @cons e a es as he hes ih =>
    intro fuel hfuel
    obtain ⟨fuel, rfl⟩ : ∃ k, fuel = k + 1 := ⟨fuel - 1, by omega⟩
    have hends : Ends (es.flatMap (fun e => ',' :: (before ++ e)) ++ close ++ right :: rest) := by
      cases es with
      | nil => exact ends_blank_append hclose (ends_cons hright.1 hright.2.1 hright.2.2.1 hright.2.2.2 rest)
      | cons e' es => exact ends_cons (by decide) (by decide) (by decide) (by decide) _
    have hread := he.read before _ hbefore hends
    have hrest := ih fuel (by simpa using hfuel)
    have hassoc : List.flatMap (fun e => ',' :: (before ++ e)) (e :: es) ++ close ++ right :: rest =
        ',' :: (before ++ e ++ (es.flatMap (fun e => ',' :: (before ++ e)) ++ close ++ right :: rest)) := by simp
    rw [hassoc, readItems, skipBlank_cons (by decide)]
    dsimp only
    rw [if_neg hcomma.symm, if_pos rfl, hread]
    simp only [Option.bind_eq_bind, Option.bind_some, hrest]
    rfl

theorem readBody_enclose {α : Type} {item : Reader α} {style : JsonStyle} {d : Nat} {left right : Char}
    (hright : right = ']' ∨ right = '\x7d') {texts : List (List Char)} {as : List α} (h : List.Forall₂ (Reads item) texts as)
    (rest : List Char) : ∃ body, enclose style d left right texts ++ rest = left :: body ∧ readBody item right body = some (as, rest) := by
  have hblank : isBlank right = false := by obtain rfl | rfl := hright <;> decide
  have hcomma : right ≠ ',' := by obtain rfl | rfl := hright <;> decide
  have hends : right.isDigit = false ∧ right ≠ '.' ∧ right ≠ 'e' ∧ right ≠ 'E' := by obtain rfl | rfl := hright <;> decide
  cases h with
  | nil =>
    refine ⟨right :: rest, by simp [enclose], ?_⟩
    simp [readBody, skipBlank_cons hblank]
  | @cons e a es as he hes =>
    have hbefore := style.before_blank d
    have hclose := style.close_blank d
    let items := es.flatMap (fun e => ',' :: (style.before d ++ e)) ++ style.close d ++ right :: rest
    refine ⟨style.before d ++ e ++ items, by simp [enclose, items], ?_⟩
    obtain ⟨c, cs, rfl, hc, hsquare, hcurly⟩ := he.head
    have hother : c ≠ right := by obtain rfl | rfl := hright <;> assumption
    have hitems : Ends items := by
      cases es with
      | nil => exact ends_blank_append hclose (ends_cons hends.1 hends.2.1 hends.2.2.1 hends.2.2.2 rest)
      | cons e' es => exact ends_cons (by decide) (by decide) (by decide) (by decide) _
    have hread := he.read (style.before d) items hbefore hitems
    have hfuel : es.length < items.length := by
      have hle : es.length ≤ (es.flatMap (fun e => ',' :: (style.before d ++ e))).length := by
        clear_value items
        clear hes hitems hread
        induction es with
        | nil => simp
        | cons e' es ih =>
          simp only [List.flatMap_cons, List.length_append, List.length_cons]
          omega
      simp only [items, List.length_append, List.length_cons]
      omega
    have hrest := readItems_texts hcomma hblank hbefore hclose rest hes hends items.length hfuel
    have hskip : skipBlank (style.before d ++ c :: cs ++ items) = c :: (cs ++ items) := by
      rw [List.append_assoc, skipBlank_append hbefore, List.cons_append, skipBlank_cons hc]
    rw [readBody, hskip, List.head?_cons, if_neg (by simpa using hother), hread]
    simp only [Option.bind_eq_bind, Option.bind_some]
    rw [show readItems item right items.length items = some (as, rest) from hrest]
    rfl

/-! ### Documents -/

/-- Integers of machine words, no other numbers, and at most so many brackets inside of one another. -/
inductive Json.Within : Nat → Json → Prop
  | null {n : Nat} : Within n .null
  | bool {n : Nat} (b : Bool) : Within n (.bool b)
  | integer {n : Nat} {i : Int} (hlo : -2 ^ 63 ≤ i) (hhi : i < 2 ^ 64) : Within n (.integer i)
  | string {n : Nat} (s : String) : Within n (.string s)
  | array {n : Nat} {js : List Json} (h : ∀ j ∈ js, Within n j) : Within (n + 1) (.array js)
  | object {n : Nat} {fs : List (String × Json)} (h : ∀ f ∈ fs, Within n f.2) : Within (n + 1) (.object fs)

theorem readWith_blank {inner : Option (Reader Json)} {blank : List Char} (h : blank.all isBlank = true) (s : List Char) :
    readWith inner (blank ++ s) = readWith inner s := by
  unfold readWith
  rw [skipBlank_append h]

theorem readWith_cons {inner : Option (Reader Json)} {c : Char} (h : isBlank c = false) (s : List Char) :
    readWith inner (c :: s) = readToken inner c s := by
  unfold readWith
  rw [skipBlank_cons h]

theorem reads_quote {inner : Option (Reader Json)} (s : String) : Reads (readWith inner) (quote s) (.string s) where
  head := ⟨'"', _, rfl, by decide, by decide, by decide⟩
  read blank rest hblank _ := by
    have hread := readString_quote s rest
    rw [List.append_assoc, readWith_blank hblank]
    rw [quote, List.cons_append] at hread ⊢
    rw [readWith_cons (by decide), readToken, hread]
    rfl

theorem reads_word {inner : Option (Reader Json)} {word : String} {j : Json}
    (h : ∀ rest, readWith inner (word.toList ++ rest) = readWord word j (word.toList ++ rest))
    (hhead : ∃ c cs, word.toList = c :: cs ∧ isBlank c = false ∧ c ≠ ']' ∧ c ≠ '\x7d') : Reads (readWith inner) word.toList j where
  head := hhead
  read blank rest hblank _ := by
    rw [List.append_assoc, readWith_blank hblank, h, readWord, if_pos (by simp)]
    simp [← String.length_toList]

theorem reads_integer {inner : Option (Reader Json)} {n : Int} (hlo : -2 ^ 63 ≤ n) (hhi : n < 2 ^ 64) :
    Reads (readWith inner) (toString n).toList (.integer n) := by
  have hhead : ∃ c cs, (toString n).toList = c :: cs ∧ (c = '-' ∨ c.isDigit = true) := by
    cases n with
    | ofNat m =>
      obtain ⟨d, ds, hd⟩ := List.exists_cons_of_ne_nil (Nat.toDigits_ne_nil (n := m) (b := 10))
      have htext : (toString (Int.ofNat m)).toList = Nat.toDigits 10 m := Nat.toList_repr
      exact ⟨d, ds, htext.trans hd, .inr (Nat.isDigit_of_mem_toDigits (by decide) (by decide) (hd ▸ List.mem_cons_self))⟩
    | negSucc m =>
      have hneg : toString (Int.negSucc m) = "-" ++ (m + 1).repr := rfl
      exact ⟨'-', (m + 1).repr.toList, by rw [hneg, String.toList_append]; rfl, .inl rfl⟩
  obtain ⟨c, cs, htext, hc⟩ := hhead
  have hother : isBlank c = false ∧ c ≠ ']' ∧ c ≠ '\x7d' ∧ c ≠ '"' ∧ c ≠ '[' ∧ c ≠ '\x7b' ∧ c ≠ 'n' ∧ c ≠ 't' ∧ c ≠ 'f' := by
    obtain rfl | hdigit := hc
    · decide
    · have hne : ∀ d : Char, d.isDigit = false → c ≠ d := fun d hd hcd => by rw [hcd, hd] at hdigit; cases hdigit
      refine ⟨?_, hne _ (by decide), hne _ (by decide), hne _ (by decide), hne _ (by decide), hne _ (by decide), hne _ (by decide),
        hne _ (by decide), hne _ (by decide)⟩
      simp [isBlank, hne ' ' (by decide), hne '\n' (by decide), hne '\t' (by decide), hne '\r' (by decide)]
  refine ⟨⟨c, cs, htext, hother.1, hother.2.1, hother.2.2.1⟩, ?_⟩
  intro blank rest hblank hrest
  have hread := readNumber_toString hlo hhi hrest
  rw [List.append_assoc, readWith_blank hblank]
  rw [htext, List.cons_append] at hread ⊢
  rw [readWith_cons hother.1]
  unfold readToken
  split <;> simp_all

theorem reads_brackets {α : Type} {inner : Option (Reader Json)} {item : Reader α} {style : JsonStyle} {d : Nat} {left right : Char}
    {f : List α → Json} (hleft : isBlank left = false ∧ left ≠ ']' ∧ left ≠ '\x7d') (hright : right = ']' ∨ right = '\x7d')
    (hread : ∀ s, readWith inner (left :: s) = (readBody item right s).map fun r => (f r.1, r.2))
    {texts : List (List Char)} {as : List α} (h : List.Forall₂ (Reads item) texts as) :
    Reads (readWith inner) (enclose style d left right texts) (f as) where
  head := by
    cases texts with
    | nil => exact ⟨left, _, rfl, hleft⟩
    | cons e es => exact ⟨left, _, rfl, hleft⟩
  read blank rest hblank _ := by
    obtain ⟨body, hbody, has⟩ := @readBody_enclose _ item style d left right hright texts as h rest
    rw [List.append_assoc, readWith_blank hblank, hbody, hread, has]
    rfl

theorem reads_field {value : Reader Json} {style : JsonStyle} {d : Nat} {f : String × Json}
    (h : Reads value (f.2.print style d) f.2) : Reads (readField value) (printField style d f) f := by
  obtain ⟨name, j⟩ := f
  refine ⟨⟨'"', (name.toList.flatMap escapeChar ++ ['"']) ++ ':' :: (style.colon ++ j.print style d), by
    simp [printField, quote], by decide, by decide, by decide⟩, ?_⟩
  intro blank rest hblank hrest
  have hvalue := h.read style.colon rest style.colon_blank hrest
  have htext : blank ++ printField style d (name, j) ++ rest =
      blank ++ (quote name ++ (':' :: (style.colon ++ j.print style d ++ rest))) := by simp [printField]
  have hskip : ∀ s, skipBlank (quote name ++ s) = quote name ++ s := fun s => skipBlank_cons (by decide) _
  rw [htext, readField, skipBlank_append hblank, hskip, readString_quote]
  simp only [Option.bind_eq_bind, Option.bind_some, skipBlank_cons (show isBlank ':' = false by decide)]
  rw [hvalue]
  rfl

theorem reads_print (style : JsonStyle) : ∀ {n : Nat} {j : Json} (d : Nat), j.Within n → Reads (readValue n) (j.print style d) j := by
  have hscalar : ∀ {n : Nat} {j : Json} {text : List Char}, (∀ inner, Reads (readWith inner) text j) → Reads (readValue n) text j := by
    intro n j text h
    cases n with
    | zero => exact h none
    | succ n => exact h (some (readValue n))
  intro n
  induction n with
  | zero =>
    intro j d h
    cases h with
    | null => exact hscalar fun _ => reads_word (fun _ => rfl) ⟨_, _, rfl, by decide, by decide, by decide⟩
    | bool b =>
      cases b with
      | true => exact hscalar fun _ => reads_word (fun _ => rfl) ⟨_, _, rfl, by decide, by decide, by decide⟩
      | false => exact hscalar fun _ => reads_word (fun _ => rfl) ⟨_, _, rfl, by decide, by decide, by decide⟩
    | integer hlo hhi => exact hscalar fun _ => reads_integer hlo hhi
    | string s => exact hscalar fun _ => reads_quote s
  | succ n ih =>
    intro j d h
    cases h with
    | null => exact hscalar fun _ => reads_word (fun _ => rfl) ⟨_, _, rfl, by decide, by decide, by decide⟩
    | bool b =>
      cases b with
      | true => exact hscalar fun _ => reads_word (fun _ => rfl) ⟨_, _, rfl, by decide, by decide, by decide⟩
      | false => exact hscalar fun _ => reads_word (fun _ => rfl) ⟨_, _, rfl, by decide, by decide, by decide⟩
    | integer hlo hhi => exact hscalar fun _ => reads_integer hlo hhi
    | string s => exact hscalar fun _ => reads_quote s
    | @array _ js h =>
      rw [Json.print, printElements_eq]
      refine reads_brackets (by decide) (.inl rfl) (fun _ => rfl) ?_
      rw [List.forall₂_map_left_iff, List.forall₂_same]
      exact fun j hj => ih (d + 1) (h j hj)
    | @object _ fs h =>
      rw [Json.print, printFields_eq]
      refine reads_brackets (by decide) (.inr rfl) (fun _ => rfl) ?_
      rw [List.forall₂_map_left_iff, List.forall₂_same]
      exact fun f hf => reads_field (ih (d + 1) (h f hf))

/-- **What is written is read back**, compactly or with indentation. -/
theorem parse_print (style : JsonStyle) {j : Json} (h : j.Within 127) : Json.parse (j.print style 0) = some j := by
  have hread := (reads_print style 0 h).read [] [] rfl ends_nil
  rw [List.nil_append, List.append_nil] at hread
  rw [Json.parse, hread]
  rfl

/-! ### Lines -/

theorem newline_escapeChar (c : Char) : '\n' ∉ escapeChar c := by
  have hhex : ∀ n < 16, '\n' ≠ hexChar n := by decide
  unfold escapeChar
  iterate 7 (split; · decide)
  rename_i hfeed _ _ _ _
  split
  · have hhigh := hhex (c.toNat / 16) (by omega)
    have hlow := hhex (c.toNat % 16) (by omega)
    simp [hhigh, hlow]
  · simp only [List.mem_singleton]
    exact Ne.symm hfeed

theorem newline_quote (s : String) : '\n' ∉ quote s := by
  simp [quote, newline_escapeChar]

theorem newline_digits (m : Nat) : '\n' ∉ Nat.toDigits 10 m := by
  intro h
  have hdigit : Char.isDigit '\n' = true := Nat.isDigit_of_mem_toDigits (by decide) (by decide) h
  cases hdigit

theorem newline_integer (n : Int) : '\n' ∉ (toString n).toList := by
  cases n with
  | ofNat m =>
    have htext : (toString (Int.ofNat m)).toList = Nat.toDigits 10 m := Nat.toList_repr
    rw [htext]
    exact newline_digits m
  | negSucc m =>
    have hneg : toString (Int.negSucc m) = "-" ++ (m + 1).repr := rfl
    rw [hneg, String.toList_append, Nat.toList_repr, List.mem_append]
    simp [newline_digits]

theorem newline_enclose {d : Nat} {left right : Char} (hleft : left ≠ '\n') (hright : right ≠ '\n') {texts : List (List Char)}
    (h : ∀ text ∈ texts, '\n' ∉ text) : '\n' ∉ enclose .compact d left right texts := by
  cases texts with
  | nil => simp [enclose, hleft.symm, hright.symm]
  | cons e es =>
    obtain ⟨he, hes⟩ := List.forall_mem_cons.mp h
    simp only [enclose, JsonStyle.compact, List.nil_append, List.append_nil, List.mem_cons, List.mem_append, List.mem_flatMap,
      List.not_mem_nil, or_false, not_or, not_exists, not_and]
    exact ⟨hleft.symm, ⟨he, fun text htext => ⟨by decide, hes text htext⟩⟩, hright.symm⟩

/-- A compact document stands in one line. -/
theorem newline_print {n : Nat} {j : Json} (h : j.Within n) : ∀ d, '\n' ∉ j.print .compact d := by
  induction h with
  | null => exact fun d => by simp [Json.print]
  | bool b => exact fun d => by cases b <;> simp [Json.print]
  | integer hlo hhi => exact fun d => newline_integer _
  | string s => exact fun d => newline_quote s
  | array h ih =>
    intro d
    rw [Json.print, printElements_eq]
    refine newline_enclose (by decide) (by decide) ?_
    intro text htext
    obtain ⟨j, hj, rfl⟩ := List.mem_map.mp htext
    exact ih j hj (d + 1)
  | object h ih =>
    intro d
    rw [Json.print, printFields_eq]
    refine newline_enclose (by decide) (by decide) ?_
    intro text htext
    obtain ⟨f, hf, rfl⟩ := List.mem_map.mp htext
    have hvalue := ih f hf (d + 1)
    have hcolon : JsonStyle.compact.colon = [] := rfl
    obtain ⟨name, j⟩ := f
    simp [printField, newline_quote, hcolon, hvalue]

theorem getLast?_enclose (style : JsonStyle) (d : Nat) (left right : Char) (texts : List (List Char)) :
    (enclose style d left right texts).getLast? = some right := by
  cases texts with
  | nil => rfl
  | cons e es => simp [enclose, List.getLast?_cons]

end Codecs
