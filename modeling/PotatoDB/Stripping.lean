import PotatoDB.LexemesSound

/-!
# Texts without their comments

The terminal takes the comments out of a text with a loop of its own. The splitter finds the same
statements in what is left, and there is nothing to take out a second time.
-/

namespace PotatoDB

/-- The loop of `strip_sql_comments`. -/
def uncommentFrom : ScanMode → List Char → List Char
  | .blockComment _, [] => [' ']
  | _, [] => []
  | .code, c :: rest =>
    if c = quoteChar then c :: uncommentFrom .literal rest
    else match c, rest with
      | '-', '-' :: rest => uncommentFrom .lineComment rest
      | '/', '*' :: rest => uncommentFrom (.blockComment 1) rest
      | c, rest => c :: uncommentFrom .code rest
  | .literal, c :: rest =>
    if c = quoteChar then
      match rest with
      | [] => c :: uncommentFrom .code []
      | d :: rest => if d = quoteChar then c :: d :: uncommentFrom .literal rest else c :: uncommentFrom .code (d :: rest)
    else c :: uncommentFrom .literal rest
  | .lineComment, c :: rest => if c = '\n' then ' ' :: uncommentFrom .code rest else uncommentFrom .lineComment rest
  | .blockComment depth, c :: rest =>
    match c, rest with
    | '*', '/' :: rest => if depth = 1 then ' ' :: uncommentFrom .code rest else uncommentFrom (.blockComment (depth - 1)) rest
    | '/', '*' :: rest => uncommentFrom (.blockComment (depth + 1)) rest
    | _, rest => uncommentFrom (.blockComment depth) rest

alias uncommentFrom_eq := uncommentFrom.eq_def

def stripSqlComments (sql : List Char) : List Char := trim (uncommentFrom .code sql)

/-! ## What is written for each lexeme -/

theorem uncommentFrom_code (c : Char) (rest : List Char) : uncommentFrom .code (c :: rest) =
    if c = quoteChar then c :: uncommentFrom .literal rest
    else match c, rest with
      | '-', '-' :: rest => uncommentFrom .lineComment rest
      | '/', '*' :: rest => uncommentFrom (.blockComment 1) rest
      | c, rest => c :: uncommentFrom .code rest := by
  exact uncommentFrom_eq _ _

theorem uncommentFrom_literal (c : Char) (rest : List Char) : uncommentFrom .literal (c :: rest) =
    if c = quoteChar then
      match rest with
      | [] => c :: uncommentFrom .code []
      | d :: rest => if d = quoteChar then c :: d :: uncommentFrom .literal rest else c :: uncommentFrom .code (d :: rest)
    else c :: uncommentFrom .literal rest := by
  exact uncommentFrom_eq _ _

theorem uncommentFrom_copies : CopiesLiteral (fun done s => done ++ uncommentFrom .literal s)
    (fun done s => done ++ uncommentFrom .code s) (fun done => done) where
  nil done := by
    rw [uncommentFrom_eq]
    exact List.append_nil _
  close done {rest} hrest := by
    rw [uncommentFrom_literal, if_pos rfl]
    cases rest with
    | nil => simp
    | cons d rest =>
      dsimp only
      rw [if_neg fun he => hrest (congrArg some he)]
      simp
  doubled done rest := by
    rw [uncommentFrom_literal, if_pos rfl]
    dsimp only
    rw [if_pos rfl]
    simp
  char done {c} hc rest := by
    rw [uncommentFrom_literal, if_neg hc]
    simp

theorem uncommentFrom_skips : SkipsComment (fun depth => uncommentFrom (.blockComment depth))
    (fun rest => ' ' :: uncommentFrom .code rest) [' '] where
  nil _ := by exact uncommentFrom_eq _ _
  closed depth rest := by
    rw [uncommentFrom_eq]
    by_cases hd : depth = 0
    · subst hd
      rfl
    · simp [hd]
  nested _ _ := by exact uncommentFrom_eq _ _
  inside hclose hopen _ := by
    rw [uncommentFrom_eq]
    dsimp only
    split
    · exact absurd (mark_starts _ _ _) hclose
    · exact absurd (mark_starts _ _ _) hopen
    · rfl

theorem uncommentFrom_line {text : List Char} (h : '\n' ∉ text) (rest : List Char) :
    uncommentFrom .lineComment (text ++ rest) = uncommentFrom .lineComment rest := by
  induction text with
  | nil => rfl
  | cons c text ih =>
    have hc : c ≠ '\n' := fun he => h (he ▸ List.mem_cons_self)
    rw [List.cons_append, uncommentFrom_eq]
    dsimp only
    rw [if_neg hc, ih fun hm => h (List.mem_cons_of_mem _ hm)]

theorem uncommentFrom_endOfLine (rest : List Char) :
    uncommentFrom .lineComment ('\n' :: rest) = ' ' :: uncommentFrom .code rest := by
  exact uncommentFrom_eq _ _

theorem uncommentFrom_startLine (rest : List Char) :
    uncommentFrom .code ('-' :: '-' :: rest) = uncommentFrom .lineComment rest := by
  exact uncommentFrom_eq _ _

theorem uncommentFrom_startBlock (rest : List Char) :
    uncommentFrom .code ('/' :: '*' :: rest) = uncommentFrom (.blockComment (0 + 1)) rest := by
  exact uncommentFrom_eq _ _

theorem uncommentFrom_plain {c : Char} {rest : List Char} (hquote : c ≠ quoteChar) (hline : ¬ ['-', '-'] <+: c :: rest)
    (hblock : ¬ ['/', '*'] <+: c :: rest) : uncommentFrom .code (c :: rest) = c :: uncommentFrom .code rest := by
  rw [uncommentFrom_code, if_neg hquote]
  split
  · exact absurd (mark_starts _ _ _) hline
  · exact absurd (mark_starts _ _ _) hblock
  · rfl

/-- A blank is written for each comment, but for none that the end of the text cuts off. -/
theorem trim_uncommentFrom {s : List Char} {ls : List Lexeme} (h : Lexes s ls) (before : List Char) :
    trim (before ++ uncommentFrom .code s) = trim (before ++ ls.flatMap Lexeme.plain) := by
  induction h generalizing before with
  | nil => exact congrArg (fun t => trim (before ++ t)) (uncommentFrom_eq _ _)
  | @literal text rest ls h hrest ih =>
    have hstep := ih (before ++ quoteChar :: text)
    rw [List.append_assoc, List.append_assoc] at hstep
    have htail : uncommentFrom .literal (text ++ rest) = text ++ uncommentFrom .code rest := uncommentFrom_copies.literalTail h []
    rw [uncommentFrom_code, if_pos rfl, htail]
    exact hstep
  | @openLiteral text h =>
    have htail : uncommentFrom .literal text = text := uncommentFrom_copies.openLiteral [] h
    rw [uncommentFrom_code, if_pos rfl, htail, List.flatMap_singleton]
    rfl
  | lineComment h hrest ih =>
    have hstep := ih (before ++ [' '])
    rw [List.append_assoc, List.append_assoc] at hstep
    rw [uncommentFrom_startLine, uncommentFrom_line h, uncommentFrom_endOfLine]
    exact hstep
  | @openLine text h =>
    have hline := uncommentFrom_line h []
    rw [List.append_nil] at hline
    rw [uncommentFrom_startLine, hline, List.flatMap_singleton]
    show trim (before ++ uncommentFrom .lineComment []) = trim (before ++ [' '])
    rw [trim_concat_blank, uncommentFrom_eq, List.append_nil]
  | @blockComment text rest ls h hrest ih =>
    have hstep := ih (before ++ [' '])
    rw [List.append_assoc, List.append_assoc] at hstep
    have htail : uncommentFrom (.blockComment (0 + 1)) (text ++ rest) = ' ' :: uncommentFrom .code rest :=
      (uncommentFrom_skips.commentTail h rest 0).trans (if_pos rfl)
    rw [uncommentFrom_startBlock, htail]
    exact hstep
  | @openBlock text h =>
    have htail : uncommentFrom (.blockComment (0 + 1)) text = [' '] := uncommentFrom_skips.openBlock _ _ (Nat.le_refl _) h 0
    rw [uncommentFrom_startBlock, htail, List.flatMap_singleton]
    rfl
  | semicolon hrest ih =>
    have hstep := ih (before ++ [';'])
    rw [List.append_assoc, List.append_assoc] at hstep
    rw [uncommentFrom_plain (by decide) (by simp [List.cons_prefix_cons]) (by simp [List.cons_prefix_cons])]
    exact hstep
  | @char c rest ls hquote hsemi hline hblock hrest ih =>
    have hstep := ih (before ++ [c])
    rw [List.append_assoc, List.append_assoc] at hstep
    rw [uncommentFrom_plain hquote hline hblock]
    exact hstep

theorem stripSqlComments_lexes {s : List Char} {ls : List Lexeme} (h : Lexes s ls) :
    stripSqlComments s = trim (ls.flatMap Lexeme.plain) := trim_uncommentFrom h []

/-! ## Reading what is left -/

/-- A blank in the place of a comment. -/
def Lexeme.blanked : Lexeme → Lexeme
  | comment _ => char ' '
  | l => l

def Lexeme.isComment : Lexeme → Bool
  | comment _ => true
  | _ => false

theorem flatMap_plain {ls : List Lexeme} (h : ∀ l ∈ ls, l.isComment = false) :
    ls.flatMap Lexeme.plain = ls.flatMap Lexeme.text := by
  refine List.flatMap_congr fun l hl => ?_
  cases l with
  | comment => cases h _ hl
  | literal | openLiteral | semicolon | char => rfl

theorem isComment_blanked (ls : List Lexeme) : ∀ l ∈ ls.map Lexeme.blanked, l.isComment = false := by
  intro l hl
  obtain ⟨l, -, rfl⟩ := List.mem_map.mp hl
  cases l <;> rfl

theorem statementsFrom_blanked (ls : List Lexeme) (current : List Char) :
    statementsFrom current (ls.map Lexeme.blanked) = statementsFrom current ls := by
  induction ls generalizing current with
  | nil => rfl
  | cons l ls ih =>
    cases l with
    | semicolon => exact congrArg (cutStatement current ++ ·) (ih [])
    | literal | openLiteral | comment | char => exact ih _

/-- What is left of a text starts with a character of it, or with a blank. -/
theorem head?_plain {s : List Char} {ls : List Lexeme} (h : Lexes s ls) {c : Char} (hc : c ≠ ' ')
    (hhead : (ls.flatMap Lexeme.plain).head? = some c) : s.head? = some c := by
  cases h with
  | nil | literal | openLiteral | semicolon | char => exact hhead
  | lineComment | openLine | blockComment | openBlock => exact absurd (Option.some.inj hhead).symm hc

theorem LiteralTail.congr {text rest rest' : List Char} (h : LiteralTail text rest)
    (hhead : rest'.head? = some quoteChar → rest.head? = some quoteChar) : LiteralTail text rest' := by
  induction h with
  | close hclose => exact .close fun h => hclose (hhead h)
  | doubled h ih => exact .doubled (ih hhead)
  | char hc h ih => exact .char hc (ih hhead)

/-- No mark starts at a character when the next one is another one. -/
theorem mark_congr {a b c : Char} {rest rest' : List Char} (h : ¬ [a, b] <+: c :: rest)
    (hhead : rest'.head? = some b → rest.head? = some b) : ¬ [a, b] <+: c :: rest' := by
  rintro ⟨after, hafter⟩
  obtain ⟨rfl, htail⟩ := List.cons.inj hafter
  have hb : rest.head? = some b := hhead (by rw [← htail]; rfl)
  obtain ⟨after', rfl⟩ := List.head?_eq_some_iff.mp hb
  exact h (mark_starts _ _ _)

theorem lexes_blank {s : List Char} {ls : List Lexeme} {c : Char} (hc : isWhitespace c = true) (h : Lexes s ls) :
    Lexes (c :: s) (.char c :: ls) := by
  have hne : ∀ d, isWhitespace d = false → c ≠ d := by
    rintro d hd rfl
    rw [hc] at hd
    cases hd
  refine .char (hne _ rfl) (hne _ rfl) (fun hp => hne '-' rfl ?_) (fun hp => hne '/' rfl ?_) h
  · exact (List.cons_prefix_cons.mp hp).1.symm
  · exact (List.cons_prefix_cons.mp hp).1.symm

/-- Taking the comments out makes no comment and no literal of what is around them. -/
theorem lexes_plain {s : List Char} {ls : List Lexeme} (h : Lexes s ls) :
    Lexes (ls.flatMap Lexeme.plain) (ls.map Lexeme.blanked) := by
  induction h with
  | nil => exact .nil
  | literal h hrest ih => exact .literal (h.congr (head?_plain hrest (by decide))) ih
  | openLiteral h =>
    rw [List.flatMap_singleton]
    exact .openLiteral h
  | lineComment _ _ ih | blockComment _ _ ih => exact lexes_blank rfl ih
  | openLine | openBlock => exact lexes_blank rfl .nil
  | semicolon hrest ih => exact .semicolon ih
  | char hquote hsemi hline hblock hrest ih =>
    exact .char hquote hsemi (mark_congr hline (head?_plain hrest (by decide)))
      (mark_congr hblock (head?_plain hrest (by decide))) ih

/-! ## Blanks around a text -/

theorem lexes_blanks {blanks : List Char} (hblanks : ∀ c ∈ blanks, isWhitespace c = true) {s : List Char} {ls : List Lexeme}
    (h : Lexes s ls) : Lexes (blanks ++ s) (blanks.map .char ++ ls) := by
  induction blanks with
  | nil => exact h
  | cons c blanks ih =>
    exact lexes_blank (hblanks c List.mem_cons_self) (ih fun d hd => hblanks d (List.mem_cons_of_mem _ hd))

theorem statementsFrom_chars (cs : List Char) (ls : List Lexeme) (current : List Char) :
    statementsFrom current (cs.map .char ++ ls) = statementsFrom (current ++ cs) ls := by
  induction cs generalizing current with
  | nil => rw [List.append_nil]; rfl
  | cons c cs ih =>
    have hstep := ih (current ++ [c])
    rw [List.append_assoc] at hstep
    exact hstep

theorem statementsFrom_blanks_append {blanks : List Char} (hblanks : ∀ c ∈ blanks, isWhitespace c = true) (ls : List Lexeme)
    (current : List Char) : statementsFrom (blanks ++ current) ls = statementsFrom current ls := by
  induction ls generalizing current with
  | nil => rw [statementsFrom, statementsFrom, lastStatement, lastStatement, trim_blanks_append hblanks]
  | cons l ls ih =>
    cases l with
    | semicolon => rw [statementsFrom, statementsFrom, cutStatement, cutStatement, trim_blanks_append hblanks]
    | literal | openLiteral | comment | char =>
      have hstep : ∀ l : Lexeme, statementsFrom (blanks ++ current ++ l.plain) ls = statementsFrom (current ++ l.plain) ls :=
        fun l => by rw [List.append_assoc, ih]
      exact hstep _

theorem statementsFrom_append_blanks {blanks : List Char} (hblanks : ∀ c ∈ blanks, isWhitespace c = true) (current : List Char) :
    statementsFrom current (blanks.map .char) = lastStatement current := by
  have hchars := statementsFrom_chars blanks [] current
  rw [List.append_nil] at hchars
  rw [hchars, statementsFrom, lastStatement, lastStatement, trim_append_blanks hblanks]

/-- A part of a text that ends in no blank is not among the blanks behind the text. -/
theorem prefix_of_blanks {s t text blanks : List Char} (hblanks : ∀ c ∈ blanks, isWhitespace c = true) {c : Char}
    (hc : isWhitespace c = false) (hlast : s.getLast? = some c) (heq : text ++ blanks = s ++ t) :
    ∃ after, text = s ++ after ∧ t = after ++ blanks := by
  rcases List.append_eq_append_iff.mp heq with ⟨middle, hs, ht⟩ | ⟨after, htext, ht⟩
  · cases middle with
    | nil => exact ⟨[], by simpa using hs.symm, by simpa using ht.symm⟩
    | cons d middle =>
      rw [hs, List.getLast?_append_of_ne_nil _ (List.cons_ne_nil _ _)] at hlast
      have hmem : c ∈ blanks := ht ▸ List.mem_append_left t (List.mem_of_getLast? hlast)
      rw [hblanks c hmem] at hc
      cases hc
  · exact ⟨after, htext, ht⟩

/-- The same statements from lexemes, and no comment in the second ones alone. -/
def Alike (ls' ls : List Lexeme) : Prop := (∀ current, statementsFrom current ls' = statementsFrom current ls) ∧
  ((∀ l ∈ ls', l.isComment = false) → ∀ l ∈ ls, l.isComment = false)

theorem Alike.cons {ls' ls : List Lexeme} (h : Alike ls' ls) (l : Lexeme) : Alike (l :: ls') (l :: ls) := by
  obtain ⟨hsame, hfree⟩ := h
  refine ⟨fun current => ?_, fun hno => ?_⟩
  · cases l with
    | semicolon => exact congrArg (cutStatement current ++ ·) (hsame [])
    | literal | openLiteral | comment | char => exact hsame _
  · obtain ⟨hl, hrest⟩ := List.forall_mem_cons.mp hno
    exact List.forall_mem_cons.mpr ⟨hl, hfree hrest⟩

/-- A comment that the end of the text cuts off, with blanks in it or behind it. -/
theorem alike_comment (text text' : List Char) {blanks : List Char} (hblanks : ∀ c ∈ blanks, isWhitespace c = true) :
    Alike (.comment text' :: blanks.map .char) [.comment text] :=
  ⟨fun _ => statementsFrom_append_blanks hblanks _, fun hno => nomatch (List.forall_mem_cons.mp hno).1⟩

/-- Blanks behind a text change neither its statements nor its comments. -/
theorem lexes_append_blanks {blanks : List Char} (hblanks : ∀ c ∈ blanks, isWhitespace c = true) {s : List Char}
    {ls : List Lexeme} (h : Lexes s ls) : ∃ ls', Lexes (s ++ blanks) ls' ∧ Alike ls' ls := by
  have hhead : ∀ {rest : List Char} {c : Char}, isWhitespace c = false → (rest ++ blanks).head? = some c → rest.head? = some c := by
    intro rest c hc hhead
    cases rest with
    | nil =>
      rw [hblanks c (List.mem_of_mem_head? hhead)] at hc
      cases hc
    | cons d rest => exact hhead
  induction h with
  | nil =>
    have hread := lexes_blanks hblanks .nil
    rw [List.append_nil, List.append_nil] at hread
    exact ⟨_, hread, statementsFrom_append_blanks hblanks, fun _ => by simp⟩
  | literal h hrest ih =>
    obtain ⟨ls', hread, halike⟩ := ih
    have hread' := Lexes.literal (h.congr (hhead rfl)) hread
    rw [← List.append_assoc] at hread'
    exact ⟨_, hread', halike.cons _⟩
  | @openLiteral text h =>
    refine ⟨[.openLiteral (quoteChar :: (text ++ blanks))], .openLiteral ?_, fun current => ?_, fun _ => by simp [Lexeme.isComment]⟩
    · intro s t heq ht
      obtain ⟨after, hs, rfl⟩ := prefix_of_blanks hblanks rfl ht.getLast? heq
      exact h s after hs (ht.congr fun hq => by rw [List.head?_append, hq]; rfl)
    · show lastStatement (current ++ quoteChar :: (text ++ blanks)) = lastStatement (current ++ quoteChar :: text)
      rw [lastStatement, lastStatement, ← List.cons_append, ← List.append_assoc, trim_append_blanks hblanks]
  | @lineComment text rest ls h hrest ih =>
    obtain ⟨ls', hread, halike⟩ := ih
    refine ⟨_, ?_, halike.cons _⟩
    rw [List.cons_append, List.cons_append, List.append_assoc]
    exact .lineComment h hread
  | @openLine text h =>
    by_cases hend : '\n' ∈ blanks
    · obtain ⟨before, after, rfl, hbefore⟩ := List.eq_append_cons_of_mem hend
      have hafter : ∀ c ∈ after, isWhitespace c = true :=
        fun c hc => hblanks c (List.mem_append_right _ (List.mem_cons_of_mem _ hc))
      have hrest := lexes_blanks hafter .nil
      rw [List.append_nil, List.append_nil] at hrest
      have hread := @Lexes.lineComment (text ++ before) _ _ (by simp [h, hbefore]) hrest
      rw [List.append_assoc] at hread
      exact ⟨_, hread, alike_comment _ _ hafter⟩
    · exact ⟨_, @Lexes.openLine (text ++ blanks) (by simp [h, hend]), @alike_comment _ _ [] (by simp)⟩
  | blockComment h hrest ih =>
    obtain ⟨ls', hread, halike⟩ := ih
    have hread' := Lexes.blockComment h hread
    rw [← List.append_assoc] at hread'
    exact ⟨_, hread', halike.cons _⟩
  | @openBlock text h =>
    refine ⟨_, @Lexes.openBlock (text ++ blanks) ?_, @alike_comment _ _ [] (by simp)⟩
    rintro s ⟨t, ht⟩ hs
    obtain ⟨after, htext, -⟩ := prefix_of_blanks hblanks rfl hs.getLast? ht.symm
    exact h s ⟨after, htext.symm⟩ hs
  | semicolon hrest ih =>
    obtain ⟨ls', hread, halike⟩ := ih
    exact ⟨_, .semicolon hread, halike.cons _⟩
  | char hquote hsemi hline hblock hrest ih =>
    obtain ⟨ls', hread, halike⟩ := ih
    exact ⟨_, .char hquote hsemi (mark_congr hline (hhead rfl)) (mark_congr hblock (hhead rfl)) hread, halike.cons _⟩

theorem lexes_trim {s : List Char} {ls ls' : List Lexeme} (h : Lexes (trim s) ls) (h' : Lexes s ls') :
    statementsFrom [] ls' = statementsFrom [] ls ∧ ((∀ l ∈ ls', l.isComment = false) → ∀ l ∈ ls, l.isComment = false) := by
  obtain ⟨before, after, hs, hbefore, hafter⟩ := trim_decompose s
  obtain ⟨ls₁, hread, hsame, hfree⟩ := lexes_append_blanks hafter h
  have hread' := lexes_blanks hbefore hread
  rw [← List.append_assoc, ← hs] at hread'
  obtain rfl := h'.unique hread'
  refine ⟨?_, fun hno => hfree fun l hl => hno l (List.mem_append_right _ hl)⟩
  have hblanks := statementsFrom_blanks_append hbefore ls₁ []
  rw [List.append_nil] at hblanks
  rw [statementsFrom_chars, List.nil_append, hblanks, hsame]

/-- **A script without its comments has the same statements**, and no comment is left. -/
theorem strip_sql_comments_keeps_statements (sql : List Char) :
    splitSqlStatements (stripSqlComments sql) = splitSqlStatements sql ∧
    stripSqlComments (stripSqlComments sql) = stripSqlComments sql := by
  obtain ⟨ls, hls⟩ := exists_lexes sql
  obtain ⟨ls', hls'⟩ := exists_lexes (trim (ls.flatMap Lexeme.plain))
  obtain ⟨hsame, hfree⟩ := lexes_trim hls' (lexes_plain hls)
  rw [stripSqlComments_lexes hls]
  refine ⟨?_, ?_⟩
  · rw [splitSqlStatements_lexes hls', splitSqlStatements_lexes hls, statementsOf_eq, statementsOf_eq, ← hsame,
      statementsFrom_blanked]
  · rw [stripSqlComments_lexes hls', flatMap_plain (hfree (isComment_blanked ls)), hls'.flatMap_text, trim_trim]

end PotatoDB
