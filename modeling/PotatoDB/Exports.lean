import PotatoDB.Quoting
import PotatoDB.Tables

/-!
# The exports of the terminal

The results that the terminal shows are written as CSV and as JSON. What is written is read back
by the grammar of RFC 4180 and by the grammar of JSON.
-/

namespace PotatoDB.Tui

structure QueryResults where
  headers : List (List Char)
  rows : List (List (List Char))

/-- A cell with a comma, a quote or a line feed, between quotes. -/
def csvCell (c : List Char) : List Char :=
  if ',' ∈ c ∨ '"' ∈ c ∨ '\n' ∈ c then '"' :: replaceFrom ['"'] ['"', '"'] 0 c ++ ['"'] else c

def jsonPair (h v : List Char) : List Char :=
  "    \"".toList ++ h ++ "\": \"".toList ++ replaceFrom ['"'] ['\\', '"'] 0 v ++ ['"']

namespace QueryResults

def exportCsv (r : QueryResults) : List Char :=
  [','].intercalate r.headers ++ '\n' :: r.rows.flatMap fun row => [','].intercalate (row.map csvCell) ++ ['\n']

def exportJson (r : QueryResults) : List Char :=
  let objects := r.rows.map fun row =>
    "  \x7b\n".toList ++ ",\n".toList.intercalate (List.zipWith jsonPair r.headers row) ++ "\n  \x7d".toList
  "[\n".toList ++ ",\n".toList.intercalate objects ++ "\n]".toList

end QueryResults

/-! ## Reading CSV -/

/-- A character that a field has between quotes only. -/
def csvMark (c : Char) : Bool := c = ',' || c = '"' || c = '\r' || c = '\n'

/-- The text of a field, and its value. -/
inductive CsvField : List Char → List Char → Prop
  | plain {text : List Char} (h : ∀ c ∈ text, csvMark c = false) : CsvField text text
  | quoted (value : List Char) : CsvField (Quoting.enclose '"' value) value

inductive CsvRecord : List Char → List (List Char) → Prop
  | last {text value : List Char} (h : CsvField text value) : CsvRecord text [value]
  | field {text value rest : List Char} {values : List (List Char)} (h : CsvField text value) (hrest : CsvRecord rest values) :
      CsvRecord (text ++ ',' :: rest) (value :: values)

/-- A line ends in a line feed, or in a carriage return and a line feed; the last one can end with the text. -/
inductive CsvFile : List Char → List (List (List Char)) → Prop
  | nil : CsvFile [] []
  | openEnd {text : List Char} {values : List (List Char)} (hne : text ≠ []) (h : CsvRecord text values) : CsvFile text [values]
  | record {text br rest : List Char} {values : List (List Char)} {records : List (List (List Char))} (h : CsvRecord text values)
      (hbr : br = ['\n'] ∨ br = ['\r', '\n']) (hrest : CsvFile rest records) : CsvFile (text ++ (br ++ rest)) (values :: records)

/-- What can follow a field. -/
def Stops (rest : List Char) : Prop := ∀ c, rest.head? = some c → c = ',' ∨ c = '\r' ∨ c = '\n'

theorem Stops.clear {rest : List Char} (h : Stops rest) : Quoting.Clear '"' rest := by
  intro hq
  rcases h _ hq with hc | hc | hc <;> cases hc

theorem Stops.csvMark {rest : List Char} {c : Char} (h : Stops rest) (hc : rest.head? = some c) : csvMark c = true := by
  rcases h c hc with rfl | rfl | rfl <;> rfl

theorem stops_nil : Stops [] := by
  intro c hc
  cases hc

theorem stops_comma (rest : List Char) : Stops (',' :: rest) := fun _ hc => .inl (Option.some.inj hc).symm

theorem stops_newline (rest : List Char) : Stops ('\n' :: rest) := fun _ hc => .inr (.inr (Option.some.inj hc).symm)

theorem stops_break {br rest : List Char} (h : br = ['\n'] ∨ br = ['\r', '\n']) : Stops (br ++ rest) := by
  rcases h with rfl | rfl
  · exact stops_newline rest
  · exact fun _ hc => .inr (.inl (Option.some.inj hc).symm)

/-- Two plain fields before what can follow a field are one field. -/
theorem plain_append_inj {t t' r r' : List Char} (ht : ∀ c ∈ t, csvMark c = false) (ht' : ∀ c ∈ t', csvMark c = false)
    (hr : Stops r) (hr' : Stops r') (heq : t ++ r = t' ++ r') : t = t' ∧ r = r' := by
  induction t generalizing t' with
  | nil =>
    cases t' with
    | nil => exact ⟨rfl, heq⟩
    | cons c t' =>
      have hmark := hr.csvMark (c := c) (by rw [show r = c :: t' ++ r' from heq]; rfl)
      rw [ht' c List.mem_cons_self] at hmark
      cases hmark
  | cons c t ih =>
    cases t' with
    | nil =>
      have hmark := hr'.csvMark (c := c) (by rw [← show c :: t ++ r = r' from heq]; rfl)
      rw [ht c List.mem_cons_self] at hmark
      cases hmark
    | cons c' t' =>
      obtain ⟨rfl, hrest⟩ := List.cons.inj heq
      obtain ⟨rfl, hr⟩ := ih (fun d hd => ht d (List.mem_cons_of_mem _ hd)) (fun d hd => ht' d (List.mem_cons_of_mem _ hd)) hrest
      exact ⟨rfl, hr⟩

theorem enclose_ne_field {value t r r' : List Char} (ht : ∀ c ∈ t, csvMark c = false) (hr' : Stops r') :
    Quoting.enclose '"' value ++ r ≠ t ++ r' := by
  intro heq
  cases t with
  | nil => exact hr'.clear (by rw [← show _ = r' from heq]; rfl)
  | cons c t =>
    have hc : '"' = c := (List.cons.inj heq).1
    exact absurd (ht c List.mem_cons_self) (by rw [← hc]; decide)

theorem CsvField.append_inj {t t' v v' r r' : List Char} (h : CsvField t v) (h' : CsvField t' v') (hr : Stops r) (hr' : Stops r')
    (heq : t ++ r = t' ++ r') : v = v' ∧ r = r' := by
  cases h with
  | plain hp =>
    cases h' with
    | plain hp' => exact plain_append_inj hp hp' hr hr' heq
    | quoted => exact absurd heq.symm (enclose_ne_field hp hr)
  | quoted =>
    cases h' with
    | plain hp' => exact absurd heq (enclose_ne_field hp' hr')
    | quoted => exact Quoting.enclose_append_inj hr.clear hr'.clear heq

theorem CsvRecord.append_inj {t t' r r' : List Char} {vs vs' : List (List Char)} (h : CsvRecord t vs) (h' : CsvRecord t' vs')
    (hr : Stops r) (hr' : Stops r') (hends : r.head? ≠ some ',') (hends' : r'.head? ≠ some ',') (heq : t ++ r = t' ++ r') :
    vs = vs' ∧ r = r' := by
  induction h generalizing t' vs' with
  | last h =>
    cases h' with
    | last h' =>
      obtain ⟨rfl, hrest⟩ := h.append_inj h' hr hr' heq
      exact ⟨rfl, hrest⟩
    | field h' hrest' =>
      rw [List.append_assoc] at heq
      obtain ⟨-, hrest⟩ := h.append_inj h' hr (stops_comma _) heq
      exact absurd (by rw [hrest]; rfl) hends
  | field h hrest ih =>
    rw [List.append_assoc] at heq
    cases h' with
    | last h' =>
      obtain ⟨-, hrest⟩ := h.append_inj h' (stops_comma _) hr' heq
      exact absurd (by rw [← hrest]; rfl) hends'
    | field h' hrest' =>
      rw [List.append_assoc] at heq
      obtain ⟨rfl, hrest⟩ := h.append_inj h' (stops_comma _) (stops_comma _) heq
      obtain ⟨rfl, hr⟩ := ih hrest' (List.cons.inj hrest).2
      exact ⟨rfl, hr⟩

theorem break_head {br rest : List Char} (h : br = ['\n'] ∨ br = ['\r', '\n']) : (br ++ rest).head? ≠ some ',' := by
  rcases h with rfl | rfl <;> nofun

theorem break_append_inj {br br' r r' : List Char} (h : br = ['\n'] ∨ br = ['\r', '\n']) (h' : br' = ['\n'] ∨ br' = ['\r', '\n'])
    (heq : br ++ r = br' ++ r') : r = r' := by
  rcases h with rfl | rfl <;> rcases h' with rfl | rfl
  · exact (List.cons.inj heq).2
  · cases (List.cons.inj heq).1
  · cases (List.cons.inj heq).1
  · exact (List.cons.inj (List.cons.inj heq).2).2

/-- **A text has at most one reading.** -/
theorem CsvFile.unique {text : List Char} {records records' : List (List (List Char))} (h : CsvFile text records)
    (h' : CsvFile text records') : records = records' := by
  induction h generalizing records' with
  | nil =>
    generalize heq : [] = text at h'
    cases h' with
    | nil => rfl
    | openEnd hne => exact absurd heq.symm hne
    | record _ hbr =>
      rcases hbr with rfl | rfl <;> simp at heq
  | @openEnd text values hne h =>
    generalize heq : text = text' at h'
    cases h' with
    | nil => exact absurd heq hne
    | openEnd _ h' =>
      have hinj := h.append_inj h' stops_nil stops_nil (by simp) (by simp) (congrArg (· ++ []) heq)
      rw [hinj.1]
    | record h' hbr =>
      rw [← List.append_nil text] at heq
      have hinj := h.append_inj h' stops_nil (stops_break hbr) (by simp) (break_head hbr) heq
      rcases hbr with rfl | rfl <;> cases hinj.2
  | record h hbr hrest ih =>
    generalize heq : (_ ++ _ : List Char) = text' at h'
    cases h' with
    | nil =>
      rcases hbr with rfl | rfl <;> simp at heq
    | openEnd _ h' =>
      rw [← List.append_nil text'] at heq
      have hinj := h.append_inj h' (stops_break hbr) stops_nil (break_head hbr) (by simp) heq
      rcases hbr with rfl | rfl <;> cases hinj.2
    | record h' hbr' hrest' =>
      obtain ⟨rfl, hbreak⟩ := h.append_inj h' (stops_break hbr) (stops_break hbr') (break_head hbr) (break_head hbr') heq
      obtain rfl := break_append_inj hbr hbr' hbreak
      rw [ih hrest']

/-! ## Reading JSON -/

/-- What the letter behind a backslash stands for. -/
def jsonEscapes : List (Char × Char) :=
  [('"', '"'), ('\\', '\\'), ('/', '/'), ('b', Char.ofNat 8), ('f', Char.ofNat 12), ('n', '\n'), ('r', '\r'), ('t', '\t')]

def hexDigit (c : Char) : Option Nat :=
  if c.isDigit then some (c.toNat - '0'.toNat)
  else if 'a' ≤ c ∧ c ≤ 'f' then some (c.toNat - 'a'.toNat + 10)
  else if 'A' ≤ c ∧ c ≤ 'F' then some (c.toNat - 'A'.toNat + 10)
  else none

/-- The code unit of four hexadecimal digits. -/
def codeUnit (digits : List Char) : Option Nat :=
  if digits.length = 4 ∧ ∀ c ∈ digits, (hexDigit c).isSome = true then
    some (digits.foldl (fun n c => n * 16 + (hexDigit c).getD 0) 0)
  else none

/-- The text of a string between its quotes, and its value. -/
inductive JsonChars : List Char → List Char → Prop
  | nil : JsonChars [] []
  | char {c : Char} {text value : List Char} (hquote : c ≠ '"') (hback : c ≠ '\\') (hctl : 32 ≤ c.toNat)
      (h : JsonChars text value) : JsonChars (c :: text) (c :: value)
  | escape {e c : Char} {text value : List Char} (he : (e, c) ∈ jsonEscapes) (h : JsonChars text value) :
      JsonChars ('\\' :: e :: text) (c :: value)
  | unit {digits text value : List Char} {n : Nat} (hunit : codeUnit digits = some n) (hn : n < 0xD800 ∨ 0xE000 ≤ n)
      (h : JsonChars text value) : JsonChars ('\\' :: 'u' :: (digits ++ text)) (Char.ofNat n :: value)
  | surrogates {digits digits' text value : List Char} {n n' : Nat} (hunit : codeUnit digits = some n)
      (hunit' : codeUnit digits' = some n') (hn : 0xD800 ≤ n ∧ n < 0xDC00) (hn' : 0xDC00 ≤ n' ∧ n' < 0xE000) (h : JsonChars text value) :
      JsonChars ('\\' :: 'u' :: (digits ++ '\\' :: 'u' :: (digits' ++ text)))
        (Char.ofNat (0x10000 + (n - 0xD800) * 0x400 + (n' - 0xDC00)) :: value)

/-- The white space between the tokens. -/
def JsonBlank (b : List Char) : Prop := ∀ c ∈ b, c = ' ' ∨ c = '\t' ∨ c = '\n' ∨ c = '\r'

/-- A name and a string, with the white space that follows the string. -/
inductive JsonMember : List Char → List Char × List Char → Prop
  | mk {b₀ b₁ b₂ b₃ name n value v : List Char} (h₀ : JsonBlank b₀) (h₁ : JsonBlank b₁) (h₂ : JsonBlank b₂) (h₃ : JsonBlank b₃)
      (hname : JsonChars name n) (hvalue : JsonChars value v) :
      JsonMember (b₀ ++ '"' :: (name ++ '"' :: (b₁ ++ ':' :: (b₂ ++ '"' :: (value ++ '"' :: b₃))))) (n, v)

/-- Parts of a list or of an object, with commas between them. -/
inductive JsonParts {α : Type} (part : List Char → α → Prop) : List Char → List α → Prop
  | last {text : List Char} {a : α} (h : part text a) : JsonParts part text [a]
  | cons {text rest : List Char} {a : α} {as : List α} (h : part text a) (hrest : JsonParts part rest as) :
      JsonParts part (text ++ ',' :: rest) (a :: as)

/-- Parts, or white space for none. -/
inductive JsonBody {α : Type} (part : List Char → α → Prop) : List Char → List α → Prop
  | none {b : List Char} (h : JsonBlank b) : JsonBody part b []
  | parts {text : List Char} {as : List α} (h : JsonParts part text as) : JsonBody part text as

/-- An object whose members are strings. -/
inductive JsonObject : List Char → List (List Char × List Char) → Prop
  | mk {b₀ b₁ body : List Char} {members : List (List Char × List Char)} (h₀ : JsonBlank b₀) (h₁ : JsonBlank b₁)
      (hbody : JsonBody JsonMember body members) : JsonObject (b₀ ++ '\x7b' :: (body ++ '\x7d' :: b₁)) members

/-- A list of such objects; no other production of the grammar reads as one. -/
inductive JsonArray : List Char → List (List (List Char × List Char)) → Prop
  | mk {b₀ b₁ body : List Char} {objects : List (List (List Char × List Char))} (h₀ : JsonBlank b₀) (h₁ : JsonBlank b₁)
      (hbody : JsonBody JsonObject body objects) : JsonArray (b₀ ++ '[' :: (body ++ ']' :: b₁)) objects

/-- One text under each name. -/
def IsMapping (members : List (List Char × List Char)) : Prop := ∀ m ∈ members, ∀ m' ∈ members, m.1 = m'.1 → m.2 = m'.2

end PotatoDB.Tui
