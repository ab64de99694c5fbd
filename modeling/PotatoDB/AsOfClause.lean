import PotatoDB.Substitution

/-!
# The AS OF clause

The clause is looked for twice, each time by its words with single spaces in the upper-case copy of the text. Both agree with the
clause of the text if the words are found where they stand in it, in the code, and its literal follows at once and ends at a quote, a
space or the end.
-/

namespace PotatoDB.Texts

open Oplog
open Oplog.Prog (emit)
open Slices

/-! ## Clauses -/

/-- The mode behind a part of a text, with what follows it. -/
def Mode.behind : Mode → List Char → List Char → Mode
  | mode, [], _ => mode
  | mode, c :: cs, rest => Mode.behind (mode.next c (cs ++ rest).head?) cs rest

/-- A character of a literal without quotes. -/
def isBare (c : Char) : Bool := !isWhitespace c && !(c = ';' || c = ',' || c = '(' || c = ')' || c = quoteChar || c = '"')

/-- A text that starts with the literal of a token, and what follows it. -/
inductive LiteralAt : List Char → List Char → List Char → Prop
  | quoted {token rest : List Char} (htoken : quoteChar ∉ token) : LiteralAt (quoteChar :: (token ++ quoteChar :: rest)) token rest
  | bare {token rest : List Char} (htoken : token.all isBare = true) (hrest : rest.head?.all (fun c => !isBare c) = true) :
      LiteralAt (token ++ rest) token rest

/-- A text with the word at its end and nothing but white space before it, at least one unless the gap may be empty. -/
def IsWord (word : String) (text : List Char) : Prop :=
  ∃ gap letters : List Char, text = gap ++ letters ∧ gap ≠ [] ∧ gap.all isWhitespace = true ∧ letters.map Char.toUpper = word.toList

/-- The words of a clause with a gap before the second and the third, and its literal. A white space character before it belongs to
the clause. -/
structure IsClause (before clause rest token : List Char) : Prop where
  code : Mode.behind .code before (clause ++ rest) = .code
  shape : ∃ lead first second third gap literal : List Char, clause = lead ++ (first ++ (second ++ (third ++ (gap ++ literal)))) ∧
    (lead = [] ∧ before.getLast?.any (fun c => isWordPart c || isWhitespace c) = false ∨ ∃ c, isWhitespace c = true ∧ lead = [c]) ∧
    first.map Char.toUpper = "AS".toList ∧ IsWord "OF" second ∧ IsWord "TIMESTAMP" third ∧ gap.all isWhitespace = true ∧
    (gap = [] → literal.head? = some quoteChar) ∧ LiteralAt (literal ++ rest) token rest

/-- A clause of the text with a literal that is a timestamp. -/
def HasClause (parseTimestamp : List Char → Option Int) (sql : List Char) (before rest : List Char) (value : Int) : Prop :=
  ∃ clause token : List Char, sql = before ++ clause ++ rest ∧ IsClause before clause rest token ∧ token ≠ [] ∧
    parseTimestamp token = some value

/-- What the clause of a text is to the two functions. -/
structure AsOfAgrees (s : Session) (sql : List Char) : Prop where
  parse_iff : ∃ found, (parseAsOfTimestamp s sql).result () = .ok found ∧
    (found.isSome = true ↔ ∃ before rest value, HasClause s.parseTimestamp sql before rest value)
  strip : ∃ bare, (stripAsOfTimestamp s sql).result () = .ok bare ∧ ∀ value, (parseAsOfTimestamp s sql).result () = .ok (some value) →
    ∃ before rest, HasClause s.parseTimestamp sql before rest value ∧ bare = before ++ rest

/-! ## Words in place -/

/-- The words with single spaces. -/
def asOfWords : List Char := " AS OF TIMESTAMP ".toList

/-- The words stand behind a part of the text that is as long in upper case, and the copy has them nowhere before. -/
structure FoundInPlace (m : CaseMapping) (needle before words after : List Char) : Prop where
  upper : words.map Char.toUpper = needle
  kept : bytes (m.toUppercase before) = bytes before
  first : ∀ p r, m.toUppercase (before ++ words ++ after) = p ++ needle ++ r → bytes before ≤ bytes p

/-- The text goes on with a literal that is a timestamp, and with a space or nothing behind one without quotes. -/
inductive ReadsOn (parseTimestamp : List Char → Option Int) : List Char → List Char → Int → Prop
  | quoted {token rest : List Char} {value : Int} (hquote : quoteChar ∉ token) (hne : token ≠ [])
      (hvalue : parseTimestamp token = some value) : ReadsOn parseTimestamp (quoteChar :: (token ++ quoteChar :: rest)) rest value
  | bare {token rest : List Char} {value : Int} (hbare : token.all isBare = true) (hne : token ≠ [])
      (hvalue : parseTimestamp token = some value) (hrest : rest = [] ∨ rest.head? = some ' ') :
      ReadsOn parseTimestamp (token ++ rest) rest value

/-- What stands behind the words up to a closing quote or, without an opening one, up to white space or the semicolons before it. -/
def tokenBehind (after : List Char) : List Char :=
  match stripStart [quoteChar] (trimStart after) with
  | some stripped => if quoteChar ∈ stripped then stripped.takeWhile (· ≠ quoteChar) else []
  | none => trimEndMatches (· = ';') ((splitWhitespace (trimStart after)).headD [])

def timestampBehind (parseTimestamp : List Char → Option Int) (after : List Char) : Option Int :=
  if tokenBehind after = [] then none else parseTimestamp (tokenBehind after)

/-! ## Finding the words -/

theorem find_at {needle : List Char} : ∀ {p r : List Char}, (∀ p' r', p ++ needle ++ r = p' ++ needle ++ r' → bytes p ≤ bytes p') →
    find needle (p ++ needle ++ r) = some (bytes p)
  | [], r, _ => by
    cases htext : [] ++ needle ++ r with
    | nil =>
      have hneedle : needle = [] := by simpa using (List.append_eq_nil_iff.mp htext).1
      rw [find, if_pos hneedle, bytes_nil]
    | cons c text =>
      rw [find, if_pos, bytes_nil]
      rw [← htext]
      exact List.isPrefixOf_iff_prefix.mpr ⟨r, rfl⟩
  | c :: p, r, h => by
    have hlater : ¬ needle.isPrefixOf (c :: (p ++ needle ++ r)) = true := by
      intro hstart
      obtain ⟨rest, hrest⟩ := List.isPrefixOf_iff_prefix.mp hstart
      have hle := h [] rest hrest.symm
      rw [bytes_cons, bytes_nil] at hle
      have := c.utf8Size_pos
      omega
    have htail : find needle (p ++ needle ++ r) = some (bytes p) := find_at fun p' r' heq => by
      have hle := h (c :: p') r' (congrArg (c :: ·) heq)
      rwa [bytes_cons, bytes_cons, Nat.add_le_add_iff_left] at hle
    rw [List.cons_append, List.cons_append, find, if_neg hlater, htail, bytes_cons, Nat.add_comm]
    rfl

theorem find_first {needle : List Char} : ∀ {s p r : List Char} {i : Nat}, find needle s = some i → s = p ++ needle ++ r → i ≤ bytes p
  | [], p, r, i, h, hs => by
    rw [find] at h
    split at h
    · cases h
      exact Nat.zero_le _
    · cases h
  | c :: s, p, r, i, h, hs => by
    rw [find] at h
    by_cases hstart : needle.isPrefixOf (c :: s) = true
    · rw [if_pos hstart] at h
      cases h
      exact Nat.zero_le _
    · rw [if_neg hstart] at h
      obtain ⟨j, hj, rfl⟩ := Option.map_eq_some_iff.mp h
      cases p with
      | nil => exact absurd (List.isPrefixOf_iff_prefix.mpr ⟨r, hs.symm⟩) hstart
      | cons d p =>
        obtain ⟨rfl, htail⟩ := List.cons.inj hs
        have hle := find_first hj htail
        rw [bytes_cons]
        omega

theorem toUppercase_append (m : CaseMapping) (a b : List Char) : m.toUppercase (a ++ b) = m.toUppercase a ++ m.toUppercase b := by
  simp [CaseMapping.toUppercase, CaseMapping.upperPieces]

theorem ascii_of_toUpper {c : Char} (h : c.toUpper.toNat < 128) : c.toNat < 128 := by
  by_cases hc : 'a'.val ≤ c.val ∧ c.val ≤ 'z'.val
  · exact Nat.lt_of_le_of_lt (UInt32.le_iff_toNat_le.mp hc.2) (by decide)
  · rwa [Char.toUpper, dif_neg hc] at h

/-- Only letters have an upper case of their own. -/
theorem single_of_toUpper {x : Char} (hx : x.isUpper = false) {text : List Char} (h : text.map Char.toUpper = [x]) : text = [x] := by
  obtain ⟨c, rfl⟩ := List.length_eq_one_iff.mp (by simpa using congrArg List.length h)
  have hc : c.toUpper = x := by simpa using h
  by_cases hlower : 'a'.val ≤ c.val ∧ c.val ≤ 'z'.val
  · have hascii : c.toNat < 128 := Nat.lt_of_le_of_lt (UInt32.le_iff_toNat_le.mp hlower.2) (by decide)
    have hletter := forall_ascii (P := fun c => c.toUpper.isUpper = true ∨ c.toUpper = c) (by decide +kernel) hascii
    rw [hc] at hletter
    obtain hletter | hletter := hletter
    · rw [hx] at hletter
      cases hletter
    · rw [hletter]
  · rw [Char.toUpper, dif_neg hlower] at hc
    rw [hc]

theorem toUppercase_ascii (m : CaseMapping) {text : List Char} (h : ∀ c ∈ text, c.toNat < 128) : m.toUppercase text = text.map Char.toUpper := by
  induction text with
  | nil => rfl
  | cons c text ih =>
    obtain ⟨hc, htext⟩ := List.forall_mem_cons.mp h
    have hcopy := toUppercase_append m [c] text
    rw [List.singleton_append] at hcopy
    rw [hcopy, ih htext, CaseMapping.toUppercase, CaseMapping.upperPieces, List.map_singleton, m.upper_ascii c hc]
    rfl

section
variable {m : CaseMapping} {needle before words after : List Char} (hneedle : needle.all (fun d => d.toNat < 128) = true)
include hneedle

theorem words_ascii (h : words.map Char.toUpper = needle) : ∀ c ∈ words, c.toNat < 128 := by
  intro c hc
  have hupper : c.toUpper ∈ needle := h ▸ List.mem_map_of_mem hc
  exact ascii_of_toUpper (of_decide_eq_true (List.all_eq_true.mp hneedle _ hupper))

theorem bytes_words (h : words.map Char.toUpper = needle) : bytes words = bytes needle := by
  have hsingle {text : List Char} (htext : ∀ c ∈ text, c.toNat < 128) : bytes text = text.length :=
    bytes_eq_length fun c hc => Char.utf8Size_eq_one_iff.mpr (Nat.le_of_lt_succ (htext c hc))
  rw [hsingle (words_ascii hneedle h), hsingle fun c hc => of_decide_eq_true (List.all_eq_true.mp hneedle c hc), ← h, List.length_map]

theorem copy_split (h : words.map Char.toUpper = needle) :
    m.toUppercase (before ++ words ++ after) = m.toUppercase before ++ needle ++ m.toUppercase after := by
  rw [toUppercase_append, toUppercase_append, toUppercase_ascii m (words_ascii hneedle h), h]

theorem FoundInPlace.find (h : FoundInPlace m needle before words after) :
    Slices.find needle (m.toUppercase (before ++ words ++ after)) = some (bytes before) := by
  have hcopy : m.toUppercase (before ++ words ++ after) = m.toUppercase before ++ needle ++ m.toUppercase after :=
    copy_split hneedle h.upper
  have hfirst (p r : List Char) (heq : m.toUppercase before ++ needle ++ m.toUppercase after = p ++ needle ++ r) :
      bytes (m.toUppercase before) ≤ bytes p := by
    rw [h.kept]
    exact h.first p r (hcopy.trans heq)
  rw [hcopy, find_at hfirst, h.kept]

theorem slice_after (hwords : words.map Char.toUpper = needle) :
    sliceFrom (before ++ words ++ after) (bytes before + bytes needle) = some after := by
  rw [← bytes_words hneedle hwords, ← bytes_append, sliceFrom_append]

end

/-! ## The literal -/

theorem trimStart_self {text : List Char} (h : text.head?.all (fun c => !isWhitespace c) = true) : trimStart text = text := by
  cases text with
  | nil => rfl
  | cons c text =>
    rw [trimStart, List.dropWhile_cons, if_neg]
    simpa using h

theorem findChar_at {p : Char → Bool} {c : Char} (hc : p c = true) : ∀ {token rest : List Char}, (∀ d ∈ token, p d = false) →
    findChar p (token ++ c :: rest) = some (bytes token)
  | [], rest, _ => by rw [List.nil_append, findChar, if_pos hc, bytes_nil]
  | d :: token, rest, h => by
    obtain ⟨hd, htoken⟩ := List.forall_mem_cons.mp h
    rw [List.cons_append, findChar, if_neg (by rw [hd]; exact Bool.false_ne_true), findChar_at hc htoken, bytes_cons, Nat.add_comm]
    rfl

theorem findChar_none {p : Char → Bool} : ∀ {text : List Char}, findChar p text = none → ∀ c ∈ text, p c = false
  | [], _ => by simp
  | d :: text, h => by
    rw [findChar] at h
    by_cases hd : p d = true
    · rw [if_pos hd] at h
      cases h
    · rw [if_neg hd, Option.map_eq_none_iff] at h
      exact List.forall_mem_cons.mpr ⟨Bool.not_eq_true _ ▸ hd, findChar_none h⟩

theorem find_space : ∀ {token rest : List Char}, ' ' ∉ token → rest = [] ∨ rest.head? = some ' ' →
    (find [' '] (token ++ rest)).getD (bytes (token ++ rest)) = bytes token
  | [], rest, _, hrest => by
    obtain rfl | hrest := hrest
    · rfl
    · obtain ⟨rest, rfl⟩ := List.head?_eq_some_iff.mp hrest
      rfl
  | c :: token, rest, h, hrest => by
    obtain ⟨hc, htoken⟩ := not_or.mp (mt List.mem_cons.mpr h)
    have ih := find_space htoken hrest
    rw [List.cons_append, find, if_neg (by simpa [List.isPrefixOf] using hc), bytes_cons, bytes_cons]
    cases hfind : find [' '] (token ++ rest) with
    | none =>
      rw [hfind] at ih
      simpa using ih
    | some i =>
      rw [hfind] at ih
      simp only [Option.map_some, Option.getD_some] at ih ⊢
      omega

/-- The first word is all up to white space. -/
theorem splitWhitespace_head {token rest : List Char} (hne : token ≠ []) (htoken : ∀ c ∈ token, isWhitespace c = false)
    (hrest : rest.head?.all isWhitespace = true) : (splitWhitespace (token ++ rest)).head? = some token := by
  have hword : ∀ {token : List Char}, (∀ c ∈ token, isWhitespace c = false) → ∃ words,
      (token ++ rest).foldr (fun c words => if isWhitespace c then [] :: words else (c :: words.headD []) :: words.tail) [[]] =
        token :: words := by
    intro token
    induction token with
    | nil =>
      intro _
      cases rest with
      | nil => exact ⟨[], rfl⟩
      | cons c rest => exact ⟨_, by rw [List.nil_append, List.foldr_cons, if_pos (by simpa using hrest)]⟩
    | cons c token ih =>
      intro h
      obtain ⟨hc, htoken⟩ := List.forall_mem_cons.mp h
      obtain ⟨words, hwords⟩ := ih htoken
      refine ⟨words, ?_⟩
      rw [List.cons_append, List.foldr_cons, hwords, if_neg (by rw [hc]; exact Bool.false_ne_true)]
      rfl
  obtain ⟨words, hwords⟩ := hword htoken
  rw [splitWhitespace, splitWords, hwords, List.filter_cons, if_pos (by simpa using hne)]
  rfl

/-! ## The two functions -/

section
variable {s : Session} {before words after : List Char}

theorem not_found {sql : List Char} (h : find asOfWords (s.unicode.toUppercase sql) = none) :
    (parseAsOfTimestamp s sql).result () = .ok none ∧ (stripAsOfTimestamp s sql).result () = .ok sql := by
  unfold CaseMapping.toUppercase asOfWords at h
  unfold parseAsOfTimestamp stripAsOfTimestamp
  rw [result_findIn_copy, result_findIn_copy, h]
  exact ⟨rfl, rfl⟩

theorem asOfWords_ascii : asOfWords.all (fun d => d.toNat < 128) = true := by decide

theorem parse_found (h : FoundInPlace s.unicode asOfWords before words after) :
    (parseAsOfTimestamp s (before ++ words ++ after)).result () = .ok (timestampBehind s.parseTimestamp after) := by
  have hfind := h.find asOfWords_ascii
  have hslice : sliceFrom (before ++ words ++ after) (bytes before + bytes asOfWords) = some after := slice_after asOfWords_ascii h.upper
  unfold CaseMapping.toUppercase asOfWords at hfind
  unfold asOfWords at hslice
  unfold parseAsOfTimestamp
  rw [result_findIn_copy, hfind]
  dsimp only
  rw [hslice, result_orStop, timestampBehind]
  dsimp only
  cases hquote : stripStart [quoteChar] (trimStart after) with
  | none =>
    have htoken : tokenBehind after = trimEndMatches (· = ';') ((splitWhitespace (trimStart after)).headD []) := by
      rw [tokenBehind, hquote]
    simp only [htoken]
    rfl
  | some stripped =>
    dsimp only
    cases hclose : findChar (· = quoteChar) stripped with
    | none =>
      have hno : quoteChar ∉ stripped := fun hmem => absurd (findChar_none hclose _ hmem) (by simp)
      have htoken : tokenBehind after = [] := by
        rw [tokenBehind, hquote]
        exact if_neg hno
      rw [if_pos htoken]
      rfl
    | some close =>
      obtain ⟨c, rest, hdrop, hc, rfl⟩ := findChar_first hclose
      have hsplit := List.takeWhile_append_dropWhile (p := fun d => !decide (d = quoteChar)) (l := stripped)
      have hmem : quoteChar ∈ stripped := by
        rw [← hsplit, hdrop, ← of_decide_eq_true hc]
        simp
      have hto := sliceTo_append (stripped.takeWhile fun d => !decide (d = quoteChar)) (c :: rest)
      rw [← hdrop, hsplit] at hto
      have htoken : tokenBehind after = stripped.takeWhile fun d => !decide (d = quoteChar) := by
        rw [tokenBehind, hquote]
        simp [hmem]
      dsimp only
      rw [hto, result_orStop]
      simp only [htoken]
      rfl

/-- The text without the words and what `skip` says behind them. -/
theorem strip_found (h : FoundInPlace s.unicode asOfWords before words after) :
    (stripAsOfTimestamp s (before ++ words ++ after)).result () = .ok (before ++ (sliceFrom after
      (match stripStart [quoteChar] after with
        | some stripped => ((findChar (· = quoteChar) stripped).map (· + 2)).getD 0
        | none => (find [' '] after).getD (bytes after))).getD []) := by
  have hfind := h.find asOfWords_ascii
  have hslice : sliceFrom (before ++ words ++ after) (bytes before + bytes asOfWords) = some after := slice_after asOfWords_ascii h.upper
  unfold CaseMapping.toUppercase asOfWords at hfind
  unfold asOfWords at hslice
  unfold stripAsOfTimestamp
  rw [result_findIn_copy, hfind]
  dsimp only
  rw [hslice, result_orStop]
  dsimp only
  rw [List.append_assoc, sliceTo_append, result_orStop]
  rfl

theorem isWhitespace_quote : isWhitespace quoteChar = false := rfl

/-- Behind the words both functions read the literal that stands there. -/
theorem reads_literal {rest : List Char} {value : Int} (h : FoundInPlace s.unicode asOfWords before words after)
    (hread : ReadsOn s.parseTimestamp after rest value) : (parseAsOfTimestamp s (before ++ words ++ after)).result () = .ok (some value) ∧
      (stripAsOfTimestamp s (before ++ words ++ after)).result () = .ok (before ++ rest) := by
  rw [parse_found h, strip_found h]
  cases hread with
  | @quoted token rest value hquote hne hvalue =>
    have hfind : findChar (fun c => decide (c = quoteChar)) (token ++ quoteChar :: rest) = some (bytes token) :=
      findChar_at (by simp) fun d hd => decide_eq_false fun heq => hquote (heq ▸ hd)
    have hstrip : stripStart [quoteChar] (quoteChar :: (token ++ quoteChar :: rest)) = some (token ++ quoteChar :: rest) := rfl
    have htoken : tokenBehind (quoteChar :: (token ++ quoteChar :: rest)) = token := by
      have hkeep : ∀ d ∈ token, decide (d ≠ quoteChar) = true := fun d hd => decide_eq_true fun heq => hquote (heq ▸ hd)
      rw [tokenBehind, trimStart_self (by simp [isWhitespace_quote]), hstrip]
      dsimp only
      rw [if_pos (by simp), List.takeWhile_append_of_pos hkeep, List.takeWhile_cons_of_neg (by simp), List.append_nil]
    have hskip : sliceFrom (quoteChar :: (token ++ quoteChar :: rest)) (bytes token + 2) = some rest := by
      have hfrom := sliceFrom_append (quoteChar :: (token ++ [quoteChar])) rest
      have hbytes : bytes (quoteChar :: (token ++ [quoteChar])) = bytes token + 2 := by
        have hone : quoteChar.utf8Size = 1 := by decide
        rw [bytes_cons, bytes_append, bytes_cons, bytes_nil, hone]
        omega
      rwa [hbytes, List.cons_append, List.append_assoc] at hfrom
    rw [hstrip]
    dsimp only
    rw [hfind, Option.map_some, Option.getD_some, hskip]
    refine ⟨?_, rfl⟩
    rw [timestampBehind, htoken, if_neg hne, hvalue]
  | @bare token rest value hbare hne hvalue hrest =>
    have hchars : ∀ c ∈ token, isWhitespace c = false ∧ c ≠ ';' ∧ c ≠ quoteChar ∧ c ≠ ' ' := by
      intro c hc
      have hbc := List.all_eq_true.mp hbare c hc
      have hspace : c ≠ ' ' := by
        rintro rfl
        exact absurd hbc (by decide)
      simp only [isBare, Bool.and_eq_true, Bool.not_eq_true', Bool.or_eq_false_iff, decide_eq_false_iff_not] at hbc
      exact ⟨hbc.1, hbc.2.1.1.1.1.1, hbc.2.1.2, hspace⟩
    have hhead : (token ++ rest).head?.all (fun c => !isWhitespace c && decide (c ≠ quoteChar)) = true := by
      obtain ⟨c, tail, rfl⟩ := List.exists_cons_of_ne_nil hne
      have hc := hchars c (List.mem_cons_self ..)
      simp [hc.1, hc.2.2.1]
    have hstrip : stripStart [quoteChar] (token ++ rest) = none := by
      obtain ⟨c, tail, rfl⟩ := List.exists_cons_of_ne_nil hne
      have hc := (hchars c (List.mem_cons_self ..)).2.2.1
      rw [stripStart, if_neg]
      simpa [List.isPrefixOf] using Ne.symm hc
    have htrim : trimStart (token ++ rest) = token ++ rest := trimStart_self (by
      cases hfirst : (token ++ rest).head? with
      | none => rfl
      | some c =>
        rw [hfirst] at hhead
        simp only [Option.all_some, Bool.and_eq_true] at hhead ⊢
        exact hhead.1)
    have hword : (splitWhitespace (token ++ rest)).head? = some token := splitWhitespace_head hne (fun c hc => (hchars c hc).1) (by
      obtain rfl | hrest := hrest
      · rfl
      · rw [hrest]
        rfl)
    have hsemi : trimEndMatches (· = ';') token = token := by
      obtain ⟨tail, c, rfl⟩ := (List.eq_nil_or_concat token).resolve_left hne
      have hc := (hchars c (by simp)).2.1
      simp [trimEndMatches, hc]
    have htoken : tokenBehind (token ++ rest) = token := by
      rw [tokenBehind, htrim, hstrip]
      dsimp only
      rw [List.headD_eq_head?_getD, hword, Option.getD_some, hsemi]
    rw [hstrip]
    dsimp only
    rw [find_space (fun hmem => (hchars _ hmem).2.2.2 rfl) hrest, sliceFrom_append]
    refine ⟨?_, rfl⟩
    rw [timestampBehind, htoken, if_neg hne, hvalue]

/-- The words with a gap of one space each. -/
theorem words_split (h : words.map Char.toUpper = asOfWords) : ∃ first second third : List Char,
    words = [' '] ++ (first ++ (second ++ (third ++ [' ']))) ∧ first.map Char.toUpper = "AS".toList ∧
      IsWord "OF" second ∧ IsWord "TIMESTAMP" third := by
  have hsplit : asOfWords = [' '] ++ ("AS".toList ++ (([' '] ++ "OF".toList) ++ (([' '] ++ "TIMESTAMP".toList) ++ [' ']))) := rfl
  have hword {word : String} {text : List Char} (hw : text.map Char.toUpper = [' '] ++ word.toList) : IsWord word text := by
    obtain ⟨gap, letters, rfl, hgap, hletters⟩ := List.map_eq_append_iff.mp hw
    rw [single_of_toUpper (by decide) hgap]
    exact ⟨[' '], letters, rfl, List.cons_ne_nil _ _, rfl, hletters⟩
  rw [hsplit] at h
  obtain ⟨lead, rest, rfl, hlead, h⟩ := List.map_eq_append_iff.mp h
  obtain ⟨first, rest, rfl, hfirst, h⟩ := List.map_eq_append_iff.mp h
  obtain ⟨second, rest, rfl, hsecond, h⟩ := List.map_eq_append_iff.mp h
  obtain ⟨third, gap, rfl, hthird, hgap⟩ := List.map_eq_append_iff.mp h
  rw [single_of_toUpper (by decide) hlead, single_of_toUpper (by decide) hgap]
  exact ⟨first, second, third, rfl, hfirst, hword hsecond, hword hthird⟩

theorem clause_in_place {rest : List Char} {value : Int} (hwords : words.map Char.toUpper = asOfWords)
    (hcode : Mode.behind .code before (words ++ after) = .code) (hread : ReadsOn s.parseTimestamp after rest value) :
    HasClause s.parseTimestamp (before ++ words ++ after) before rest value := by
  obtain ⟨first, second, third, hsplit, hfirst, hsecond, hthird⟩ := words_split hwords
  have hclause {literal token : List Char} (hafter : after = literal ++ rest) (hliteral : LiteralAt (literal ++ rest) token rest)
      (hne : token ≠ []) (hvalue : s.parseTimestamp token = some value) :
      HasClause s.parseTimestamp (before ++ words ++ after) before rest value := by
    refine ⟨words ++ literal, token, by rw [hafter]; simp only [List.append_assoc], ⟨?_, ?_⟩, hne, hvalue⟩
    · rw [List.append_assoc, ← hafter]
      exact hcode
    · refine ⟨[' '], first, second, third, [' '], literal, ?_, .inr ⟨' ', rfl, rfl⟩, hfirst, hsecond, hthird, rfl, nofun, hliteral⟩
      rw [hsplit]
      simp only [List.append_assoc]
  cases hread with
  | @quoted token rest value hquote hne hvalue =>
    exact @hclause (quoteChar :: (token ++ [quoteChar])) token (by simp) (by simpa using LiteralAt.quoted hquote) hne hvalue
  | @bare token rest value hbare hne hvalue hrest =>
    refine hclause rfl (.bare hbare ?_) hne hvalue
    obtain rfl | hrest := hrest
    · rfl
    · rw [hrest]
      rfl

end

/-- The words are nowhere in the copy and the text has no clause, or they are found in place: in the code with a literal that reads on,
or with no timestamp behind them in a text without a clause. -/
def AsOfInOrder (s : Session) (sql : List Char) : Prop :=
  let noClause := ∀ before rest value, ¬ HasClause s.parseTimestamp sql before rest value
  find asOfWords (s.unicode.toUppercase sql) = none ∧ noClause ∨
    ∃ before words after, sql = before ++ words ++ after ∧ FoundInPlace s.unicode asOfWords before words after ∧
      (Mode.behind .code before (words ++ after) = .code ∧ (∃ rest value, ReadsOn s.parseTimestamp after rest value) ∨
        timestampBehind s.parseTimestamp after = none ∧ noClause)

/-- In such a text the clause is parsed if there is one, and stripped exactly. -/
theorem as_of_agrees (s : Session) {sql : List Char} (h : AsOfInOrder s sql) : AsOfAgrees s sql := by
  have habsent {bare : List Char} (hparse : (parseAsOfTimestamp s sql).result () = .ok none)
      (hstrip : (stripAsOfTimestamp s sql).result () = .ok bare)
      (hnone : ∀ before rest value, ¬ HasClause s.parseTimestamp sql before rest value) : AsOfAgrees s sql := by
    refine ⟨⟨none, hparse, ?_⟩, bare, hstrip, ?_⟩
    · constructor
      · intro hsome
        cases hsome
      · rintro ⟨before, rest, value, hclause⟩
        exact absurd hclause (hnone before rest value)
    · intro value hvalue
      rw [hparse] at hvalue
      cases hvalue
  obtain ⟨hfind, hnone⟩ | ⟨before, words, after, rfl, hplace, hbehind⟩ := h
  · exact habsent (not_found hfind).1 (not_found hfind).2 hnone
  · obtain ⟨hcode, rest, value, hread⟩ | ⟨hnothing, hnone⟩ := hbehind
    · obtain ⟨hparse, hstrip⟩ := reads_literal hplace hread
      have hclause := clause_in_place hplace.upper hcode hread
      refine ⟨⟨some value, hparse, fun _ => ⟨before, rest, value, hclause⟩, fun _ => rfl⟩, before ++ rest, hstrip, ?_⟩
      intro value' hvalue'
      rw [hparse] at hvalue'
      cases hvalue'
      exact ⟨before, rest, hclause, rfl⟩
    · have hparse := parse_found (s := s) hplace
      rw [hnothing] at hparse
      exact habsent hparse (strip_found hplace) hnone

/-- A session whose timestamps are numbers. -/
def numberSession : Session := { plainSession with parseTimestamp := fun token => (parseU64 token).map Int.ofNat }

theorem plain_clause_agrees : AsOfAgrees numberSession "SELECT * FROM t as of timestamp 17".toList := by
  refine as_of_agrees numberSession (.inr ⟨"SELECT * FROM t".toList, " as of timestamp ".toList, "17".toList, rfl, ⟨rfl, by decide +kernel, ?_⟩,
    .inl ⟨rfl, [], 17, @ReadsOn.bare _ "17".toList [] 17 rfl (List.cons_ne_nil _ _) rfl (.inl rfl)⟩⟩)
  intro p r hcopy
  have hfind : find asOfWords (numberSession.unicode.toUppercase ("SELECT * FROM t".toList ++ " as of timestamp ".toList ++ "17".toList)) =
      some 15 := by decide +kernel
  exact find_first hfind hcopy

/-- An offset of the copy that cuts a character, a semicolon that is stripped, a literal that is read as a clause and a clause with
two spaces. -/
theorem as_of_disagrees : ¬ AsOfAgrees numberSession "ŉ AS OF TIMESTAMP é".toList ∧
    ((parseAsOfTimestamp numberSession "SELECT * FROM t AS OF TIMESTAMP 1;".toList).result () = .ok (some 1) ∧
      (stripAsOfTimestamp numberSession "SELECT * FROM t AS OF TIMESTAMP 1;".toList).result () = .ok "SELECT * FROM t".toList) ∧
    (parseAsOfTimestamp numberSession "SELECT ' AS OF TIMESTAMP 1 '".toList).result () = .ok (some 1) ∧
    (parseAsOfTimestamp numberSession "SELECT * FROM t AS OF  TIMESTAMP 1".toList).result () = .ok none := by
  refine ⟨?_, ⟨by decide +kernel, by decide +kernel⟩, by decide +kernel, by decide +kernel⟩
  intro h
  obtain ⟨found, hfound, -⟩ := h.parse_iff
  have hstop : (parseAsOfTimestamp numberSession "ŉ AS OF TIMESTAMP é".toList).result () = .error .stop := by decide +kernel
  rw [hstop] at hfound
  cases hfound

end PotatoDB.Texts
