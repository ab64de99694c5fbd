import PotatoDB.Scripts

/-!
# The lexemes of a script

A script is read as literals, comments, semicolons and other characters. Every text is read in
exactly one way, and the splitter cuts it at the semicolons of that reading.
-/

namespace PotatoDB

/-- What a script is made of, each with its text. Only the last one can be a literal that is still open. -/
inductive Lexeme where
  | literal (text : List Char)
  | openLiteral (text : List Char)
  | comment (text : List Char)
  | semicolon
  | char (c : Char)
deriving DecidableEq

namespace Lexeme

def text : Lexeme → List Char
  | literal text | openLiteral text | comment text => text
  | semicolon => [';']
  | char c => [c]

/-- The text with a blank for a comment. -/
def plain : Lexeme → List Char
  | comment _ => [' ']
  | l => l.text

end Lexeme

/-- The rest of a literal, with its closing quote, before a text. Two quotes in it stand for one. -/
inductive LiteralTail : List Char → List Char → Prop
  | close {rest : List Char} (h : rest.head? ≠ some quoteChar) : LiteralTail [quoteChar] rest
  | doubled {text rest : List Char} (h : LiteralTail text rest) : LiteralTail (quoteChar :: quoteChar :: text) rest
  | char {c : Char} {text rest : List Char} (hc : c ≠ quoteChar) (h : LiteralTail text rest) : LiteralTail (c :: text) rest

/-- The rest of a block comment, with its closing mark. Comments nest. -/
inductive CommentTail : List Char → Prop
  | close : CommentTail ['*', '/']
  | nested {inner text : List Char} (hi : CommentTail inner) (h : CommentTail text) : CommentTail ('/' :: '*' :: (inner ++ text))
  | char {c : Char} {text : List Char} (hclose : ¬ ['*', '/'] <+: c :: text) (hopen : ¬ ['/', '*'] <+: c :: text)
      (h : CommentTail text) : CommentTail (c :: text)

/-- A text reads as these lexemes. -/
inductive Lexes : List Char → List Lexeme → Prop
  | nil : Lexes [] []
  | literal {text rest : List Char} {ls : List Lexeme} (h : LiteralTail text rest) (hrest : Lexes rest ls) :
      Lexes (quoteChar :: (text ++ rest)) (.literal (quoteChar :: text) :: ls)
  | openLiteral {text : List Char} (h : ∀ s t, text = s ++ t → ¬ LiteralTail s t) :
      Lexes (quoteChar :: text) [.openLiteral (quoteChar :: text)]
  | lineComment {text rest : List Char} {ls : List Lexeme} (h : '\n' ∉ text) (hrest : Lexes rest ls) :
      Lexes ('-' :: '-' :: (text ++ '\n' :: rest)) (.comment ('-' :: '-' :: (text ++ ['\n'])) :: ls)
  | openLine {text : List Char} (h : '\n' ∉ text) : Lexes ('-' :: '-' :: text) [.comment ('-' :: '-' :: text)]
  | blockComment {text rest : List Char} {ls : List Lexeme} (h : CommentTail text) (hrest : Lexes rest ls) :
      Lexes ('/' :: '*' :: (text ++ rest)) (.comment ('/' :: '*' :: text) :: ls)
  | openBlock {text : List Char} (h : ∀ s, s <+: text → ¬ CommentTail s) :
      Lexes ('/' :: '*' :: text) [.comment ('/' :: '*' :: text)]
  | semicolon {rest : List Char} {ls : List Lexeme} (hrest : Lexes rest ls) : Lexes (';' :: rest) (.semicolon :: ls)
  | char {c : Char} {rest : List Char} {ls : List Lexeme} (hquote : c ≠ quoteChar) (hsemi : c ≠ ';')
      (hline : ¬ ['-', '-'] <+: c :: rest) (hblock : ¬ ['/', '*'] <+: c :: rest) (hrest : Lexes rest ls) :
      Lexes (c :: rest) (.char c :: ls)

/-- The statement that lexemes make, unless it is blank. -/
def statementOf (terminator : List Char) (piece : List Lexeme) : List (List Char) :=
  if trim (piece.flatMap Lexeme.plain) = [] then [] else [trim (piece.flatMap Lexeme.plain) ++ terminator]

/-- The statements between the semicolons of a script, and the one that its end cuts off. -/
def statementsOf (ls : List Lexeme) : List (List Char) :=
  let pieces := ls.splitOn .semicolon
  pieces.dropLast.flatMap (statementOf [';']) ++ statementOf [] (pieces.getLast?.getD [])

/-! ## How literals and comments end -/

theorem LiteralTail.getLast? {text rest : List Char} (h : LiteralTail text rest) : text.getLast? = some quoteChar := by
  induction h with
  | close => rfl
  | doubled h ih => exact List.mem_getLast?_cons (List.mem_getLast?_cons ih)
  | char hc h ih => exact List.mem_getLast?_cons ih

theorem CommentTail.getLast? {text : List Char} (h : CommentTail text) : text.getLast? = some '/' := by
  induction h with
  | close => rfl
  | @nested inner text hi h ihi ih =>
    have hlast : (inner ++ text).getLast? = some '/' := by rw [List.getLast?_append, ih]; rfl
    exact List.mem_getLast?_cons (List.mem_getLast?_cons hlast)
  | char _ _ h ih => exact List.mem_getLast?_cons ih

/-! ## Each text has one reading -/

theorem Lexes.flatMap_text {s : List Char} {ls : List Lexeme} (h : Lexes s ls) : ls.flatMap Lexeme.text = s := by
  induction h with
  | nil => rfl
  | literal _ _ ih | blockComment _ _ ih | semicolon _ ih | char _ _ _ _ _ ih =>
    rw [List.flatMap_cons, ih]
    rfl
  | lineComment _ _ ih =>
    rw [List.flatMap_cons, ih]
    simp [Lexeme.text]
  | openLiteral | openLine | openBlock => simp [Lexeme.text]

theorem LiteralTail.unique {s t s' t' : List Char} (h : LiteralTail s t) (h' : LiteralTail s' t') (heq : s ++ t = s' ++ t') :
    s = s' ∧ t = t' := by
  induction h generalizing s' with
  | close hhead =>
    cases h' with
    | close => exact ⟨rfl, (List.cons.inj heq).2⟩
    | doubled =>
      simp only [List.cons_append, List.nil_append, List.cons.injEq, true_and] at heq
      rw [heq] at hhead
      exact absurd rfl hhead
    | char hc => exact absurd (List.cons.inj heq).1.symm hc
  | doubled h ih =>
    cases h' with
    | close hhead =>
      simp only [List.cons_append, List.nil_append, List.cons.injEq, true_and] at heq
      rw [← heq] at hhead
      exact absurd rfl hhead
    | doubled h' =>
      obtain ⟨rfl, ht⟩ := ih h' (List.cons.inj (List.cons.inj heq).2).2
      exact ⟨rfl, ht⟩
    | char hc => exact absurd (List.cons.inj heq).1.symm hc
  | char hc h ih =>
    cases h' with
    | close | doubled => exact absurd (List.cons.inj heq).1 hc
    | char _ h' =>
      obtain ⟨rfl, hrest⟩ := List.cons.inj heq
      obtain ⟨rfl, ht⟩ := ih h' hrest
      exact ⟨rfl, ht⟩

theorem mark_starts (c d : Char) (rest : List Char) : [c, d] <+: c :: d :: rest := ⟨rest, rfl⟩

theorem CommentTail.ne_nil {s : List Char} (h : CommentTail s) : s ≠ [] := by
  cases h <;> exact List.cons_ne_nil _ _

/-- A mark at the start of a text is within its first two characters. -/
theorem mark_append {a b c : Char} {text : List Char} (hne : text ≠ []) (rest : List Char) :
    [a, b] <+: c :: (text ++ rest) ↔ [a, b] <+: c :: text := by
  cases text with
  | nil => exact absurd rfl hne
  | cons d text => simp [List.cons_prefix_cons]

theorem CommentTail.unique {s t s' t' : List Char} (h : CommentTail s) (h' : CommentTail s') (heq : s ++ t = s' ++ t') :
    s = s' ∧ t = t' := by
  induction h generalizing s' t t' with
  | close =>
    cases h' with
    | close => exact ⟨rfl, (List.cons.inj (List.cons.inj heq).2).2⟩
    | nested => cases (List.cons.inj heq).1
    | char hclose _ h' =>
      rw [← mark_append h'.ne_nil t', ← List.cons_append, ← heq] at hclose
      exact absurd (mark_starts _ _ _) hclose
  | @nested inner text hi h ihi ih =>
    cases h' with
    | close => cases (List.cons.inj heq).1
    | @nested inner' text' hi' h' =>
      have hrest : inner ++ text ++ t = inner' ++ text' ++ t' := (List.cons.inj (List.cons.inj heq).2).2
      rw [List.append_assoc, List.append_assoc] at hrest
      obtain ⟨rfl, htail⟩ := ihi hi' hrest
      obtain ⟨rfl, ht⟩ := ih h' htail
      exact ⟨rfl, ht⟩
    | char _ hopen h' =>
      rw [← mark_append h'.ne_nil t', ← List.cons_append, ← heq] at hopen
      exact absurd (mark_starts _ _ _) hopen
  | @char c text hclose hopen h ih =>
    rw [← mark_append h.ne_nil t, ← List.cons_append, heq] at hclose hopen
    cases h' with
    | close => exact absurd (mark_starts _ _ _) hclose
    | nested => exact absurd (mark_starts _ _ _) hopen
    | char _ _ h' =>
      obtain ⟨rfl, hrest⟩ := List.cons.inj heq
      obtain ⟨rfl, ht⟩ := ih h' hrest
      exact ⟨rfl, ht⟩

theorem line_unique {s t s' t' : List Char} (hs : '\n' ∉ s) (hs' : '\n' ∉ s') (heq : s ++ '\n' :: t = s' ++ '\n' :: t') :
    s = s' ∧ t = t' := by
  induction s generalizing s' with
  | nil =>
    cases s' with
    | nil => exact ⟨rfl, (List.cons.inj heq).2⟩
    | cons c s' => exact absurd ((List.cons.inj heq).1 ▸ List.mem_cons_self) hs'
  | cons c s ih =>
    cases s' with
    | nil => exact absurd ((List.cons.inj heq).1.symm ▸ List.mem_cons_self) hs
    | cons c' s' =>
      obtain ⟨rfl, hrest⟩ := List.cons.inj heq
      obtain ⟨rfl, ht⟩ := ih (fun h => hs (List.mem_cons_of_mem _ h)) (fun h => hs' (List.mem_cons_of_mem _ h)) hrest
      exact ⟨rfl, ht⟩

theorem Lexes.unique {s : List Char} {ls ls' : List Lexeme} (h : Lexes s ls) (h' : Lexes s ls') : ls = ls' := by
  induction h generalizing ls' with
  | nil => cases h'; rfl
  | literal h hrest ih =>
    generalize heq : quoteChar :: (_ ++ _) = s at h'
    cases h' with
    | nil => cases heq
    | literal h' hrest' =>
      obtain ⟨rfl, rfl⟩ := h.unique h' (List.cons.inj heq).2
      rw [ih hrest']
    | openLiteral hno => exact absurd h (hno _ _ (List.cons.inj heq).2.symm)
    | lineComment | openLine | blockComment | openBlock | semicolon => cases (List.cons.inj heq).1
    | char hquote => exact absurd (List.cons.inj heq).1.symm hquote
  | openLiteral hno =>
    generalize heq : quoteChar :: _ = s at h'
    cases h' with
    | nil => cases heq
    | literal h' => exact absurd h' (hno _ _ (List.cons.inj heq).2)
    | openLiteral => rfl
    | lineComment | openLine | blockComment | openBlock | semicolon => cases (List.cons.inj heq).1
    | char hquote => exact absurd (List.cons.inj heq).1.symm hquote
  | lineComment h hrest ih =>
    generalize heq : '-' :: '-' :: (_ ++ _) = s at h'
    cases h' with
    | nil => cases heq
    | literal | openLiteral | blockComment | openBlock | semicolon => cases (List.cons.inj heq).1
    | lineComment h' hrest' =>
      obtain ⟨rfl, rfl⟩ := line_unique h h' (List.cons.inj (List.cons.inj heq).2).2
      rw [ih hrest']
    | openLine h' =>
      rw [← (List.cons.inj (List.cons.inj heq).2).2] at h'
      exact absurd (List.mem_append_right _ List.mem_cons_self) h'
    | char _ _ hline => exact absurd (heq ▸ mark_starts _ _ _) hline
  | openLine h =>
    generalize heq : '-' :: '-' :: _ = s at h'
    cases h' with
    | nil => cases heq
    | literal | openLiteral | blockComment | openBlock | semicolon => cases (List.cons.inj heq).1
    | lineComment =>
      rw [(List.cons.inj (List.cons.inj heq).2).2] at h
      exact absurd (List.mem_append_right _ List.mem_cons_self) h
    | openLine => rfl
    | char _ _ hline => exact absurd (heq ▸ mark_starts _ _ _) hline
  | blockComment h hrest ih =>
    generalize heq : '/' :: '*' :: (_ ++ _) = s at h'
    cases h' with
    | nil => cases heq
    | literal | openLiteral | lineComment | openLine | semicolon => cases (List.cons.inj heq).1
    | blockComment h' hrest' =>
      obtain ⟨rfl, rfl⟩ := h.unique h' (List.cons.inj (List.cons.inj heq).2).2
      rw [ih hrest']
    | openBlock hno => exact absurd h (hno _ ⟨_, (List.cons.inj (List.cons.inj heq).2).2⟩)
    | char _ _ _ hblock => exact absurd (heq ▸ mark_starts _ _ _) hblock
  | openBlock hno =>
    generalize heq : '/' :: '*' :: _ = s at h'
    cases h' with
    | nil => cases heq
    | literal | openLiteral | lineComment | openLine | semicolon => cases (List.cons.inj heq).1
    | blockComment h' => exact absurd h' (hno _ ⟨_, (List.cons.inj (List.cons.inj heq).2).2.symm⟩)
    | openBlock => rfl
    | char _ _ _ hblock => exact absurd (heq ▸ mark_starts _ _ _) hblock
  | semicolon hrest ih =>
    cases h' with
    | semicolon hrest' => rw [ih hrest']
    | char _ hsemi => exact absurd rfl hsemi
  | char hquote hsemi hline hblock hrest ih =>
    cases h' with
    | literal | openLiteral => exact absurd rfl hquote
    | lineComment | openLine => exact absurd (mark_starts _ _ _) hline
    | blockComment | openBlock => exact absurd (mark_starts _ _ _) hblock
    | semicolon => exact absurd rfl hsemi
    | char _ _ _ _ hrest' => rw [ih hrest']

theorem exists_lexes_of_length (n : Nat) : ∀ s : List Char, s.length ≤ n → ∃ ls, Lexes s ls := by
  induction n with
  | zero =>
    intro s hs
    rw [List.length_eq_zero_iff.mp (Nat.le_zero.mp hs)]
    exact ⟨[], .nil⟩
  | succ n ih =>
    intro s hs
    cases s with
    | nil => exact ⟨[], .nil⟩
    | cons c rest =>
      have hrest : rest.length ≤ n := Nat.le_of_succ_le_succ hs
      by_cases hquote : c = quoteChar
      · subst hquote
        by_cases hclosed : ∃ text after, rest = text ++ after ∧ LiteralTail text after
        · obtain ⟨text, after, rfl, h⟩ := hclosed
          obtain ⟨ls, hls⟩ := ih after (by simp at hrest; omega)
          exact ⟨_, .literal h hls⟩
        · exact ⟨_, .openLiteral fun text after heq h => hclosed ⟨text, after, heq, h⟩⟩
      by_cases hsemi : c = ';'
      · subst hsemi
        obtain ⟨ls, hls⟩ := ih rest hrest
        exact ⟨_, .semicolon hls⟩
      by_cases hline : ['-', '-'] <+: c :: rest
      · obtain ⟨body, hbody⟩ := hline
        rw [← hbody] at hs ⊢
        by_cases hend : '\n' ∈ body
        · obtain ⟨text, after, rfl, h⟩ := List.eq_append_cons_of_mem hend
          obtain ⟨ls, hls⟩ := ih after (by simp at hs; omega)
          exact ⟨_, .lineComment h hls⟩
        · exact ⟨_, .openLine hend⟩
      by_cases hblock : ['/', '*'] <+: c :: rest
      · obtain ⟨body, hbody⟩ := hblock
        rw [← hbody] at hs ⊢
        by_cases hclosed : ∃ text, text <+: body ∧ CommentTail text
        · obtain ⟨text, ⟨after, rfl⟩, h⟩ := hclosed
          obtain ⟨ls, hls⟩ := ih after (by simp at hs; omega)
          exact ⟨.comment ('/' :: '*' :: text) :: ls, .blockComment h hls⟩
        · exact ⟨_, .openBlock fun text htext h => hclosed ⟨text, htext, h⟩⟩
      obtain ⟨ls, hls⟩ := ih rest hrest
      exact ⟨_, .char hquote hsemi hline hblock hls⟩

theorem exists_lexes (s : List Char) : ∃ ls, Lexes s ls := exists_lexes_of_length s.length s (Nat.le_refl _)

/-! ## Loops over a text with literals and comments -/

/-- A loop inside a literal that keeps what it reads, with `behind` the closing quote and `atEnd` of the text. -/
structure CopiesLiteral {α : Type} (loop behind : List Char → List Char → α) (atEnd : List Char → α) : Prop where
  nil (done : List Char) : loop done [] = atEnd done
  close (done : List Char) {rest : List Char} (hrest : rest.head? ≠ some quoteChar) :
    loop done (quoteChar :: rest) = behind (done ++ [quoteChar]) rest
  doubled (done rest : List Char) : loop done (quoteChar :: quoteChar :: rest) = loop (done ++ [quoteChar, quoteChar]) rest
  char (done : List Char) {c : Char} (hc : c ≠ quoteChar) (rest : List Char) : loop done (c :: rest) = loop (done ++ [c]) rest

section
variable {α : Type} {loop behind : List Char → List Char → α} {atEnd : List Char → α}

theorem CopiesLiteral.literalTail (h : CopiesLiteral loop behind atEnd) {text rest : List Char} (ht : LiteralTail text rest)
    (done : List Char) : loop done (text ++ rest) = behind (done ++ text) rest := by
  induction ht generalizing done with
  | close hrest => exact h.close done hrest
  | doubled ht ih =>
    rw [List.cons_append, List.cons_append, h.doubled, ih, List.append_assoc]
    rfl
  | char hc ht ih =>
    rw [List.cons_append, h.char done hc, ih, List.append_assoc]
    rfl

theorem CopiesLiteral.openLiteral (h : CopiesLiteral loop behind atEnd) : ∀ {text : List Char} (done : List Char),
    (∀ s t, text = s ++ t → ¬ LiteralTail s t) → loop done text = atEnd (done ++ text)
  | [], done, _ => by rw [h.nil, List.append_nil]
  | c :: text, done, hopen => by
    by_cases hc : c = quoteChar
    · subst hc
      match text with
      | [] => exact absurd (.close nofun) (hopen [quoteChar] [] rfl)
      | d :: text =>
        by_cases hd : d = quoteChar
        · subst hd
          rw [h.doubled, h.openLiteral, List.append_assoc]
          · rfl
          · intro s t hst ht
            exact hopen (quoteChar :: quoteChar :: s) t (by rw [hst]; rfl) (.doubled ht)
        · exact absurd (.close fun he => hd (Option.some.inj he)) (hopen [quoteChar] (d :: text) rfl)
    · rw [h.char done hc, h.openLiteral, List.append_assoc]
      · rfl
      · intro s t hst ht
        exact hopen (c :: s) t (by rw [hst]; rfl) (.char hc ht)

end

/-- A loop that counts the comments it is in, with `behind` the outermost one and `atEnd` of the text. -/
structure SkipsComment {α : Type} (loop : Nat → List Char → α) (behind : List Char → α) (atEnd : α) : Prop where
  nil (depth : Nat) : loop depth [] = atEnd
  closed (depth : Nat) (rest : List Char) :
    loop (depth + 1) ('*' :: '/' :: rest) = if depth = 0 then behind rest else loop depth rest
  nested (depth : Nat) (rest : List Char) : loop depth ('/' :: '*' :: rest) = loop (depth + 1) rest
  inside {c : Char} {rest : List Char} (hclose : ¬ ['*', '/'] <+: c :: rest) (hopen : ¬ ['/', '*'] <+: c :: rest) (depth : Nat) :
    loop depth (c :: rest) = loop depth rest

section
variable {α : Type} {loop : Nat → List Char → α} {behind : List Char → α} {atEnd : α}

theorem SkipsComment.commentTail (h : SkipsComment loop behind atEnd) {text : List Char} (ht : CommentTail text)
    (rest : List Char) (depth : Nat) : loop (depth + 1) (text ++ rest) = if depth = 0 then behind rest else loop depth rest := by
  induction ht generalizing depth rest with
  | close => exact h.closed depth rest
  | nested hi ht ihi ih =>
    rw [List.cons_append, List.cons_append, h.nested, List.append_assoc, ihi, if_neg (Nat.succ_ne_zero _), ih]
  | char hclose hopen ht ih =>
    rw [← mark_append ht.ne_nil rest] at hclose hopen
    rw [List.cons_append, h.inside hclose hopen, ih]

theorem SkipsComment.openBlock (h : SkipsComment loop behind atEnd) (n : Nat) : ∀ text : List Char, text.length ≤ n →
    (∀ s, s <+: text → ¬ CommentTail s) → ∀ depth, loop (depth + 1) text = atEnd := by
  induction n with
  | zero =>
    intro text hn _ depth
    rw [List.length_eq_zero_iff.mp (Nat.le_zero.mp hn), h.nil]
  | succ n ih =>
    intro text hn hno depth
    cases text with
    | nil => exact h.nil _
    | cons c rest =>
      by_cases hclose : ['*', '/'] <+: c :: rest
      · exact absurd .close (hno _ hclose)
      by_cases hopen : ['/', '*'] <+: c :: rest
      · obtain ⟨body, hbody⟩ := hopen
        rw [← hbody] at hn hno ⊢
        show loop _ ('/' :: '*' :: body) = _
        rw [h.nested]
        by_cases hinner : ∃ inner, inner <+: body ∧ CommentTail inner
        · obtain ⟨inner, ⟨after, rfl⟩, hi⟩ := hinner
          rw [h.commentTail hi, if_neg (Nat.succ_ne_zero _)]
          refine ih after (by simp at hn; omega) (fun s hs ht => ?_) depth
          exact hno ('/' :: '*' :: (inner ++ s)) (by simpa [List.cons_prefix_cons] using hs) (.nested hi ht)
        · exact ih body (by simp at hn; omega) (fun s hs ht => hinner ⟨s, hs, ht⟩) (depth + 1)
      · rw [h.inside hclose hopen]
        refine ih rest (Nat.le_of_succ_le_succ hn) (fun s hs ht => ?_) depth
        obtain ⟨t, rfl⟩ := hs
        rw [mark_append ht.ne_nil] at hclose hopen
        exact hno (c :: s) ⟨t, rfl⟩ (.char hclose hopen ht)

end

end PotatoDB
