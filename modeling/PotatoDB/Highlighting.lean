import PotatoDB.Editor

/-!
# Highlighting a statement

The full-screen terminal cuts a line into styled spans, and the line-mode one puts escape sequences around the same
pieces. Both leave every character where it is, and agree on what is a string literal or a comment. The spans are slices
by bytes: a character of several bytes that stands outside of literals and comments is cut.
-/

namespace PotatoDB.Highlighting

/-! ## The text of the code -/

/-- The characters outside of string literals and line comments. -/
def codeText : Bool → List Char → List Char
  | _, [] => []
  | true, c :: rest => if c = '\'' then codeText false rest else codeText true rest
  | false, c :: rest =>
    if c = '\'' then codeText true rest
    else if c = '-' ∧ rest.head? = some '-' then []
    else c :: codeText false rest

def isAsciiWhitespace (c : Char) : Bool := c = ' ' || c = '\t' || c = '\n' || c = '\x0c' || c = '\r'

def isNumberChar (c : Char) : Bool := c.isDigit || c = '.'

/-- A literal behind its opening quote, and the text behind it. -/
def literalRest : List Char → List Char × List Char
  | [] => ([], [])
  | '\'' :: '\'' :: rest => ('\'' :: '\'' :: (literalRest rest).1, (literalRest rest).2)
  | '\'' :: rest => (['\''], rest)
  | c :: rest => (c :: (literalRest rest).1, (literalRest rest).2)

theorem literalRest_append (s : List Char) : (literalRest s).1 ++ (literalRest s).2 = s := by
  fun_induction literalRest s with
  | case1 => rfl
  | case2 rest ih => simp [ih]
  | case3 rest _ => rfl
  | case4 c rest _ _ ih => simp [ih]

theorem codeText_literal (s : List Char) : codeText true s = codeText false (literalRest s).2 := by
  fun_induction literalRest s with
  | case1 => rfl
  | case2 rest ih => simpa [codeText] using ih
  | case3 rest _ => simp [codeText]
  | case4 c rest _ hc ih =>
    have hquote : c ≠ '\'' := by
      intro h
      exact hc h
    simpa [codeText, hquote] using ih

/-- A run of characters that begin neither a literal nor a comment. -/
theorem codeText_takeWhile {p : Char → Bool} (hp : ∀ c, p c = true → c ≠ '\'' ∧ c ≠ '-') (s : List Char) :
    codeText false s = s.takeWhile p ++ codeText false (s.dropWhile p) := by
  induction s with
  | nil => rfl
  | cons c s ih =>
    by_cases hc : p c = true
    · simp [codeText, hc, hp c hc, ih]
    · simp [hc]

/-! ## The spans of the full-screen terminal -/

inductive SpanStyle where
  | stringLit
  | comment
  | raw
  | number
  | keyword
  | text
  | punctuation
deriving DecidableEq

structure Span where
  style : SpanStyle
  text : List Char
deriving DecidableEq

/-- The span of a literal or a comment. -/
def Span.isMasked (span : Span) : Bool := span.style = .stringLit || span.style = .comment

/-- The span that begins with a character, and the text behind it; there is none if its end cuts a character. -/
def nextSpan (c : Char) (rest : List Char) : Option (Span × List Char) :=
  if c = '\'' then some (⟨.stringLit, c :: (literalRest rest).1⟩, (literalRest rest).2)
  else if c = '-' ∧ rest.head? = some '-' then some (⟨.comment, c :: rest⟩, [])
  else if isAsciiWhitespace c then some (⟨.raw, c :: rest.takeWhile isAsciiWhitespace⟩, rest.dropWhile isAsciiWhitespace)
  else if c.isDigit ∨ (c = '-' ∧ rest.head?.any Char.isDigit) then
    some (⟨.number, c :: rest.takeWhile isNumberChar⟩, rest.dropWhile isNumberChar)
  else if Tui.isWord c then
    let word := c :: rest.takeWhile Tui.isWord
    let style := if String.ofList (word.map Char.toUpper) ∈ Tui.sqlKeywords then SpanStyle.keyword else .text
    some (⟨style, word⟩, rest.dropWhile Tui.isWord)
  else if c.utf8Size = 1 then some (⟨.punctuation, [c]⟩, rest)
  else none

/-- What a piece does to the text; a masked one is a literal or a comment. -/
structure Cuts (masked : Bool) (text : List Char) (c : Char) (rest behind : List Char) : Prop where
  whole : text ++ behind = c :: rest
  nonempty : text ≠ []
  code : codeText false (c :: rest) = (if masked then [] else text) ++ codeText false behind

theorem Cuts.shorter {masked : Bool} {text : List Char} {c : Char} {rest behind : List Char} (h : Cuts masked text c rest behind) :
    behind.length < (c :: rest).length := by
  have hlength := congrArg List.length h.whole
  have hpos := List.length_pos_iff.mpr h.nonempty
  simp only [List.length_append] at hlength
  omega

theorem codeText_cons {c : Char} {rest : List Char} (hquote : c ≠ '\'') (hcomment : ¬ (c = '-' ∧ rest.head? = some '-')) :
    codeText false (c :: rest) = c :: codeText false rest := by
  simp only [codeText, if_neg hquote, if_neg hcomment]

/-- A kind of characters that are single bytes and begin neither a literal nor a comment. -/
structure Plain (p : Char → Bool) : Prop where
  code : ∀ c, p c = true → c ≠ '\'' ∧ c ≠ '-'
  single : ∀ c, p c = true → c.utf8Size = 1

theorem single_of_le {c : Char} (h : c.toNat < 128) : c.utf8Size = 1 := Char.utf8Size_eq_one_iff.mpr (Nat.le_of_lt_succ h)

theorem toNat_of_isDigit {c : Char} (h : c.isDigit = true) : c.toNat < 128 := by
  simp only [Char.isDigit, Bool.and_eq_true, decide_eq_true_eq, ge_iff_le, UInt32.le_iff_toNat_le] at h
  exact Nat.lt_of_le_of_lt h.2 (by decide)

theorem toNat_of_isAlphanum {c : Char} (h : c.isAlphanum = true) : c.toNat < 128 := by
  simp only [Char.isAlphanum, Char.isAlpha, Char.isUpper, Char.isLower, Bool.or_eq_true, Bool.and_eq_true, decide_eq_true_eq, ge_iff_le,
    UInt32.le_iff_toNat_le] at h
  obtain (⟨_, h⟩ | ⟨_, h⟩) | h := h
  · exact Nat.lt_of_le_of_lt h (by decide)
  · exact Nat.lt_of_le_of_lt h (by decide)
  · exact toNat_of_isDigit h

theorem plain_isAsciiWhitespace : Plain isAsciiWhitespace := by
  constructor
  · intro c h
    constructor <;> intro heq <;> subst heq <;> cases h
  · intro c h
    simp only [isAsciiWhitespace, Bool.or_eq_true, decide_eq_true_eq] at h
    obtain (((rfl | rfl) | rfl) | rfl) | rfl := h <;> rfl

theorem plain_isNumberChar : Plain isNumberChar := by
  constructor
  · intro c h
    constructor <;> intro heq <;> subst heq <;> cases h
  · intro c h
    simp only [isNumberChar, Bool.or_eq_true, decide_eq_true_eq] at h
    obtain h | rfl := h
    · exact single_of_le (toNat_of_isDigit h)
    · rfl

theorem plain_isWord : Plain Tui.isWord := by
  constructor
  · intro c h
    constructor <;> intro heq <;> subst heq <;> cases h
  · intro c h
    simp only [Tui.isWord, Bool.or_eq_true, decide_eq_true_eq] at h
    obtain h | rfl := h
    · exact single_of_le (toNat_of_isAlphanum h)
    · rfl

/-- A span of single bytes that is code, or a masked one. -/
def Span.Sliced (span : Span) : Prop := span.isMasked = false → ∀ d ∈ span.text, d.utf8Size = 1

section
variable {c : Char} {rest : List Char} (hquote : c ≠ '\'') (hcomment : ¬ (c = '-' ∧ rest.head? = some '-'))
include hquote hcomment

theorem cuts_takeWhile {p : Char → Bool} (hp : Plain p) : Cuts false (c :: rest.takeWhile p) c rest (rest.dropWhile p) := by
  refine ⟨by simp, List.cons_ne_nil _ _, ?_⟩
  rw [codeText_cons hquote hcomment, codeText_takeWhile hp.code]
  rfl

theorem cuts_single : Cuts false [c] c rest rest :=
  ⟨rfl, List.cons_ne_nil _ _, codeText_cons hquote hcomment⟩

end

theorem cuts_literal (rest : List Char) : Cuts true ('\'' :: (literalRest rest).1) '\'' rest (literalRest rest).2 := by
  refine ⟨?_, List.cons_ne_nil _ _, ?_⟩
  · rw [List.cons_append, literalRest_append]
  · simp [codeText, codeText_literal]

theorem cuts_comment {c : Char} {rest : List Char} (h : c = '-' ∧ rest.head? = some '-') : Cuts true (c :: rest) c rest [] := by
  refine ⟨List.append_nil _, List.cons_ne_nil _ _, ?_⟩
  simp [codeText, h]

theorem single_takeWhile {c : Char} (hc : c.utf8Size = 1) {p : Char → Bool} (hp : Plain p) (rest : List Char) :
    ∀ d ∈ c :: rest.takeWhile p, d.utf8Size = 1 := by
  intro d hd
  obtain rfl | hd := List.mem_cons.mp hd
  · exact hc
  · exact hp.single d (List.mem_takeWhile_imp hd)

/-- A span is cut off where it should be, or its character has several bytes. -/
theorem nextSpan_cases (c : Char) (rest : List Char) :
    (∃ span behind, nextSpan c rest = some (span, behind) ∧ Cuts span.isMasked span.text c rest behind ∧ span.Sliced) ∨
    (nextSpan c rest = none ∧ c.utf8Size ≠ 1 ∧ codeText false (c :: rest) = c :: codeText false rest) := by
  unfold nextSpan
  by_cases hquote : c = '\''
  · subst hquote
    exact .inl ⟨_, _, if_pos rfl, cuts_literal rest, fun h => by cases h⟩
  rw [if_neg hquote]
  by_cases hcomment : c = '-' ∧ rest.head? = some '-'
  · exact .inl ⟨_, _, if_pos hcomment, cuts_comment hcomment, fun h => by cases h⟩
  rw [if_neg hcomment]
  by_cases hspace : isAsciiWhitespace c = true
  · exact .inl ⟨_, _, if_pos hspace, cuts_takeWhile hquote hcomment plain_isAsciiWhitespace,
      fun _ => single_takeWhile (plain_isAsciiWhitespace.single c hspace) plain_isAsciiWhitespace rest⟩
  rw [if_neg hspace]
  by_cases hnumber : c.isDigit = true ∨ (c = '-' ∧ rest.head?.any Char.isDigit = true)
  · have hc : c.utf8Size = 1 := by
      obtain h | ⟨rfl, _⟩ := hnumber
      · exact single_of_le (toNat_of_isDigit h)
      · rfl
    exact .inl ⟨_, _, if_pos hnumber, cuts_takeWhile hquote hcomment plain_isNumberChar, fun _ => single_takeWhile hc plain_isNumberChar rest⟩
  rw [if_neg hnumber]
  by_cases hword : Tui.isWord c = true
  · have hcuts := cuts_takeWhile hquote hcomment plain_isWord
    refine .inl ⟨_, _, if_pos hword, ?_, fun _ => single_takeWhile (plain_isWord.single c hword) plain_isWord rest⟩
    by_cases hkeyword : String.ofList ((c :: rest.takeWhile Tui.isWord).map Char.toUpper) ∈ Tui.sqlKeywords
    · rw [if_pos hkeyword]
      exact hcuts
    · rw [if_neg hkeyword]
      exact hcuts
  rw [if_neg hword]
  by_cases hone : c.utf8Size = 1
  · refine .inl ⟨_, _, if_pos hone, cuts_single hquote hcomment, fun _ d hd => ?_⟩
    rw [List.mem_singleton.mp hd]
    exact hone
  · exact .inr ⟨if_neg hone, hone, codeText_cons hquote hcomment⟩

/-- `highlight_sql_line`; without spans a slice cuts a character, and it panics. -/
def highlightSqlLine : List Char → Option (List Span)
  | [] => some []
  | c :: rest =>
    match _h : nextSpan c rest with
    | none => none
    | some (span, behind) => (highlightSqlLine behind).map (span :: ·)
termination_by s => s.length
decreasing_by
  obtain ⟨span', behind', heq, hcuts, _⟩ | ⟨heq, _⟩ := nextSpan_cases c rest
  · rw [heq] at _h
    cases _h
    exact hcuts.shorter
  · rw [heq] at _h
    cases _h

theorem highlightSqlLine_some {c : Char} {rest behind : List Char} {span : Span} (h : nextSpan c rest = some (span, behind)) :
    highlightSqlLine (c :: rest) = (highlightSqlLine behind).map (span :: ·) := by
  rw [highlightSqlLine]
  split
  · rename_i hnone
    rw [h] at hnone
    cases hnone
  · rename_i hsome
    rw [h] at hsome
    cases hsome
    rfl

theorem highlightSqlLine_none {c : Char} {rest : List Char} (h : nextSpan c rest = none) : highlightSqlLine (c :: rest) = none := by
  rw [highlightSqlLine]
  split
  · rfl
  · rename_i hsome
    rw [h] at hsome
    cases hsome

/-- What the spans of a line are. -/
structure Highlights (line : List Char) (spans : List Span) : Prop where
  whole : spans.flatMap Span.text = line
  nonempty : ∀ span ∈ spans, span.text ≠ []
  code : (spans.filter fun span => !span.isMasked).flatMap Span.text = codeText false line

theorem highlightSqlLine_cases (line : List Char) :
    (∃ spans, highlightSqlLine line = some spans ∧ Highlights line spans ∧ ∀ c ∈ codeText false line, c.utf8Size = 1) ∨
    (highlightSqlLine line = none ∧ ∃ c ∈ codeText false line, c.utf8Size ≠ 1) := by
  induction hn : line.length using Nat.strong_induction_on generalizing line with
  | _ n ih =>
    cases line with
    | nil => exact .inl ⟨[], by rw [highlightSqlLine], ⟨rfl, by simp, rfl⟩, by simp [codeText]⟩
    | cons c rest =>
      obtain ⟨span, behind, hspan, hcuts, hsliced⟩ | ⟨hspan, hwide, hcode⟩ := nextSpan_cases c rest
      · rw [highlightSqlLine_some hspan]
        have hcode : ∀ d, d ∈ codeText false (c :: rest) ↔ (span.isMasked = false ∧ d ∈ span.text) ∨ d ∈ codeText false behind := by
          intro d
          rw [hcuts.code]
          cases span.isMasked <;> simp
        obtain ⟨spans, hspans, hkept, hsingle⟩ | ⟨hnone, d, hd, hwide⟩ := ih behind.length (hn ▸ hcuts.shorter) behind rfl
        · refine .inl ⟨span :: spans, by rw [hspans]; rfl, ⟨?_, ?_, ?_⟩, ?_⟩
          · rw [List.flatMap_cons, hkept.whole, hcuts.whole]
          · exact List.forall_mem_cons.mpr ⟨hcuts.nonempty, hkept.nonempty⟩
          · rw [hcuts.code, ← hkept.code]
            by_cases hmasked : span.isMasked = true
            · simp [hmasked]
            · simp [hmasked]
          · intro d hd
            obtain ⟨hmasked, hd⟩ | hd := (hcode d).mp hd
            · exact hsliced hmasked d hd
            · exact hsingle d hd
        · exact .inr ⟨by rw [hnone]; rfl, d, (hcode d).mpr (.inr hd), hwide⟩
      · exact .inr ⟨highlightSqlLine_none hspan, c, by rw [hcode]; exact List.mem_cons_self, hwide⟩

/-- **A line is drawn exactly if its code has single bytes only**, and then its spans are the line, cut at its literals and
comments. -/
theorem spans_of_line (line : List Char) :
    (highlightSqlLine line = none ↔ ∃ c ∈ codeText false line, c.utf8Size ≠ 1) ∧
    ∀ spans, highlightSqlLine line = some spans → Highlights line spans := by
  obtain ⟨spans, hspans, hkept, hsingle⟩ | ⟨hnone, hwide⟩ := highlightSqlLine_cases line
  · refine ⟨?_, ?_⟩
    · rw [hspans]
      refine iff_of_false (by simp) ?_
      intro h
      obtain ⟨c, hc, hwide⟩ := h
      exact hwide (hsingle c hc)
    · intro spans' h
      rw [hspans] at h
      cases h
      exact hkept
  · refine ⟨iff_of_true hnone hwide, ?_⟩
    intro spans h
    rw [hnone] at h
    cases h

/-- A letter with an accent is drawn in a literal, and not outside. -/
example : highlightSqlLine "x = 'é'".toList ≠ none ∧ highlightSqlLine "é".toList = none := by decide +kernel

/-! ## The escape sequences of the line-mode terminal -/

def ansiReset : List Char := "\x1b[0m".toList

def ansiBoldBlue : List Char := "\x1b[1;34m".toList

def ansiGreen : List Char := "\x1b[32m".toList

def ansiCyan : List Char := "\x1b[36m".toList

def ansiDim : List Char := "\x1b[2m".toList

def replKeywords : List String :=
  ["ADD", "ALL", "ALTER", "ANALYZE", "AND", "ANY", "AS", "ASC", "AVG", "BEGIN", "BETWEEN", "BIGINT", "BINARY", "BLOB", "BOOL",
    "BOOLEAN", "BY", "CASCADE", "CASE", "CAST", "CHAR", "CHECK", "COALESCE", "COLUMN", "COMMIT", "CONFLICT", "CONSTRAINT", "COPY",
    "COUNT", "CREATE", "CROSS", "CURRENT", "DATABASE", "DATE", "DECIMAL", "DEFAULT", "DELETE", "DESC", "DESCRIBE", "DISTINCT", "DO",
    "DOUBLE", "DROP", "ELSE", "END", "EXCEPT", "EXISTS", "EXPLAIN", "FALSE", "FETCH", "FIRST", "FLOAT", "FOLLOWING", "FOR",
    "FOREIGN", "FROM", "FULL", "GROUP", "HAVING", "IF", "IGNORE", "ILIKE", "IN", "INDEX", "INNER", "INSERT", "INT", "INTEGER",
    "INTERSECT", "INTO", "IS", "JOIN", "KEY", "LEFT", "LIKE", "LIMIT", "MATERIALIZED", "MAX", "MERGE", "MIN", "NATURAL", "NEXT",
    "NOT", "NOTHING", "NULL", "NULLIF", "NULLS", "NUMERIC", "OFFSET", "ON", "ONLY", "OR", "ORDER", "OUTER", "OVER", "PARTITION",
    "PRECEDING", "PRIMARY", "RANGE", "REAL", "RECURSIVE", "REFERENCES", "RELEASE", "RENAME", "REPLACE", "RESTRICT", "RETURNING",
    "RIGHT", "ROLLBACK", "ROW", "ROWS", "SAVEPOINT", "SCHEMA", "SELECT", "SERIAL", "SET", "SMALLINT", "SOME", "SUM", "TABLE",
    "TEMP", "TEMPORARY", "TEXT", "THEN", "TIMESTAMP", "TINYINT", "TO", "TRUE", "TRUNCATE", "TYPE", "UNBOUNDED", "UNION", "UNIQUE",
    "UPDATE", "USING", "VACUUM", "VALUES", "VARCHAR", "VIEW", "WHEN", "WHERE", "WINDOW", "WITH"]

def isSqlKeyword (word : List Char) : Bool := String.ofList (word.map Char.toUpper) ∈ replKeywords

/-- A text between escape sequences, or without. -/
structure Piece where
  codes : List Char
  text : List Char
  isMasked : Bool

def Piece.shown (piece : Piece) : List Char :=
  if piece.codes = [] then piece.text else piece.codes ++ piece.text ++ ansiReset

/-- The piece that begins with a character, and the text behind it. -/
def nextPiece (c : Char) (rest : List Char) : Piece × List Char :=
  if c = '\'' then (⟨ansiGreen, c :: (literalRest rest).1, true⟩, (literalRest rest).2)
  else if c = '-' ∧ rest.head? = some '-' then (⟨ansiDim, c :: rest, true⟩, [])
  else if c.isDigit then (⟨ansiCyan, c :: rest.takeWhile isNumberChar, false⟩, rest.dropWhile isNumberChar)
  else if c.isAlpha ∨ c = '_' then
    let word := c :: rest.takeWhile Tui.isWord
    (⟨if isSqlKeyword word then ansiBoldBlue else [], word, false⟩, rest.dropWhile Tui.isWord)
  else if c = ';' then (⟨ansiDim, [c], false⟩, rest)
  else (⟨[], [c], false⟩, rest)

/-- The escape sequences that a piece has before it. -/
def IsCode (codes : List Char) : Prop := codes ∈ [[], ansiBoldBlue, ansiGreen, ansiCyan, ansiDim]

theorem nextPiece_cuts (c : Char) (rest : List Char) :
    Cuts (nextPiece c rest).1.isMasked (nextPiece c rest).1.text c rest (nextPiece c rest).2 ∧ IsCode (nextPiece c rest).1.codes := by
  unfold nextPiece
  by_cases hquote : c = '\''
  · subst hquote
    rw [if_pos rfl]
    exact ⟨cuts_literal rest, by simp [IsCode]⟩
  rw [if_neg hquote]
  by_cases hcomment : c = '-' ∧ rest.head? = some '-'
  · rw [if_pos hcomment]
    exact ⟨cuts_comment hcomment, by simp [IsCode]⟩
  rw [if_neg hcomment]
  by_cases hnumber : c.isDigit = true
  · rw [if_pos hnumber]
    exact ⟨cuts_takeWhile hquote hcomment plain_isNumberChar, by simp [IsCode]⟩
  rw [if_neg hnumber]
  by_cases hword : c.isAlpha = true ∨ c = '_'
  · rw [if_pos hword]
    refine ⟨cuts_takeWhile hquote hcomment plain_isWord, ?_⟩
    dsimp only
    split <;> simp [IsCode]
  rw [if_neg hword]
  by_cases hend : c = ';'
  · rw [if_pos hend]
    exact ⟨cuts_single hquote hcomment, by simp [IsCode]⟩
  · rw [if_neg hend]
    exact ⟨cuts_single hquote hcomment, by simp [IsCode]⟩

def pieces : List Char → List Piece
  | [] => []
  | c :: rest => (nextPiece c rest).1 :: pieces (nextPiece c rest).2
termination_by s => s.length
decreasing_by exact (nextPiece_cuts c rest).1.shorter

/-- `highlight_sql` of the line-mode terminal. -/
def highlightSql (input : List Char) : List Char := (pieces input).flatMap Piece.shown

/-- What is left when the escape sequences are taken out; the flag says that one has begun. -/
def withoutEscapes : Bool → List Char → List Char
  | _, [] => []
  | true, c :: rest => withoutEscapes (c ≠ 'm') rest
  | false, c :: rest => if c = '\x1b' then withoutEscapes true rest else c :: withoutEscapes false rest

theorem withoutEscapes_text {text : List Char} (h : '\x1b' ∉ text) (rest : List Char) :
    withoutEscapes false (text ++ rest) = text ++ withoutEscapes false rest := by
  induction text with
  | nil => rfl
  | cons c text ih =>
    simp only [List.mem_cons, not_or] at h
    rw [List.cons_append, withoutEscapes, if_neg (Ne.symm h.1), ih h.2]
    rfl

theorem withoutEscapes_codes {codes : List Char} (h : IsCode codes) (rest : List Char) :
    withoutEscapes false (codes ++ rest) = withoutEscapes false rest := by
  simp only [IsCode, List.mem_cons, List.not_mem_nil, or_false] at h
  obtain rfl | rfl | rfl | rfl | rfl := h <;> rfl

theorem withoutEscapes_shown {piece : Piece} (hcodes : IsCode piece.codes) (htext : '\x1b' ∉ piece.text) (rest : List Char) :
    withoutEscapes false (piece.shown ++ rest) = piece.text ++ withoutEscapes false rest := by
  unfold Piece.shown
  by_cases hnone : piece.codes = []
  · rw [if_pos hnone, withoutEscapes_text htext]
  · rw [if_neg hnone, List.append_assoc, List.append_assoc, withoutEscapes_codes hcodes, withoutEscapes_text htext]
    rfl

/-- What the pieces of a text are. -/
structure Colours (input : List Char) : Prop where
  whole : (pieces input).flatMap Piece.text = input
  nonempty : ∀ piece ∈ pieces input, piece.text ≠ []
  code : ((pieces input).filter fun piece => !piece.isMasked).flatMap Piece.text = codeText false input
  shown : '\x1b' ∉ input → withoutEscapes false (highlightSql input) = input

theorem colours (input : List Char) : Colours input := by
  induction hn : input.length using Nat.strong_induction_on generalizing input with
  | _ n ih =>
    cases input with
    | nil => exact ⟨by simp [pieces], by simp [pieces], by simp [pieces, codeText], by simp [highlightSql, pieces, withoutEscapes]⟩
    | cons c rest =>
      obtain ⟨hcuts, hcodes⟩ := nextPiece_cuts c rest
      have hkept := ih _ (hn ▸ hcuts.shorter) (nextPiece c rest).2 rfl
      refine ⟨?_, ?_, ?_, ?_⟩
      · rw [pieces, List.flatMap_cons, hkept.whole, hcuts.whole]
      · rw [pieces]
        exact List.forall_mem_cons.mpr ⟨hcuts.nonempty, hkept.nonempty⟩
      · rw [pieces, hcuts.code, ← hkept.code]
        by_cases hmasked : (nextPiece c rest).1.isMasked = true
        · simp [hmasked]
        · simp [hmasked]
      · intro hescape
        rw [← hcuts.whole, List.mem_append, not_or] at hescape
        have hbehind := hkept.shown hescape.2
        rw [highlightSql, pieces, List.flatMap_cons, withoutEscapes_shown hcodes hescape.1, ← highlightSql, hbehind, hcuts.whole]

/-- **The line-mode terminal shows every text as it is**, and both terminals take the same text for code. -/
theorem colours_of_input (input : List Char) :
    Colours input ∧ ∀ spans, highlightSqlLine input = some spans →
      (spans.filter fun span => !span.isMasked).flatMap Span.text = ((pieces input).filter fun piece => !piece.isMasked).flatMap Piece.text := by
  refine ⟨colours input, ?_⟩
  intro spans hspans
  rw [(colours input).code]
  obtain ⟨spans', hspans', hkept, _⟩ | ⟨hnone, _⟩ := highlightSqlLine_cases input
  · rw [hspans] at hspans'
    cases hspans'
    exact hkept.code
  · rw [hspans] at hnone
    cases hnone

end PotatoDB.Highlighting
