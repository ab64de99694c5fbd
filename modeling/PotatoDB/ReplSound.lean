import PotatoDB.Repl
import PotatoDB.Words

/-!
# The prompt and the script

The prompt hands on the statements of the text exactly when each line leaves its literals closed,
has its only semicolon at its end, and has no comment but one to its end.
-/

namespace PotatoDB

/-- Two statements end alike, and are the same but for blanks outside of literals. -/
def SameStatement (a b : List Char) : Prop := a.getLast? = b.getLast? ∧ words a.dropLast = words b.dropLast

instance decidableSameStatement (a b : List Char) : Decidable (SameStatement a b) := inferInstanceAs (Decidable (_ ∧ _))

/-- What the prompt keeps of a line. -/
def effective (line : List Char) : List Char := stripLineComment (trim line)

/-- A line that the prompt takes as the end of a statement. -/
def EndsStatement (line : List Char) : Prop := (effective line).getLast? = some ';'

instance decidableEndsStatement (line : List Char) : Decidable (EndsStatement line) := inferInstanceAs (Decidable (_ = _))

/-- A text of nothing but blanks, semicolons and comments. -/
def bare : ScanMode → List Char → Bool
  | .literal, _ => false
  | _, [] => true
  | .code, c :: rest =>
    if c = ';' ∨ isWhitespace c then bare .code rest
    else match c, rest with
      | '-', '-' :: rest => bare .lineComment rest
      | '/', '*' :: rest => bare (.blockComment 1) rest
      | _, _ => false
  | .lineComment, c :: rest => if c = '\n' then bare .code rest else bare .lineComment rest
  | .blockComment depth, c :: rest =>
    match c, rest with
    | '*', '/' :: rest => if depth = 1 then bare .code rest else bare (.blockComment (depth - 1)) rest
    | '/', '*' :: rest => bare (.blockComment (depth + 1)) rest
    | _, rest => bare (.blockComment depth) rest

/-- Lines with semicolons and comments at their ends only, and literals that do not go on in the next one. `opened` says
whether a statement has begun. -/
def LineWise (opened : Bool) : List (List Char) → Prop
  | [] => opened = false
  | line :: lines =>
    if EndsStatement line then
      Unsplit (effective line).dropLast ∧ (opened = true ∨ effective line ≠ [';']) ∧ LineWise false lines
    else if ∃ l ∈ lines, EndsStatement l then
      Unsplit (effective line) ∧ LineWise (opened || effective line ≠ []) lines
    -- no statement ends any more
    else opened = false ∧ bare .code (joinLines (line :: lines)) = true

instance decidableLineWise : (opened : Bool) → (lines : List (List Char)) → Decidable (LineWise opened lines)
  | opened, [] => inferInstanceAs (Decidable (opened = false))
  | opened, line :: lines =>
    have := decidableLineWise false lines
    have := decidableLineWise (opened || effective line ≠ []) lines
    inferInstanceAs (Decidable
      (if EndsStatement line then
        Unsplit (effective line).dropLast ∧ (opened = true ∨ effective line ≠ [';']) ∧ LineWise false lines
      else if ∃ l ∈ lines, EndsStatement l then
        Unsplit (effective line) ∧ LineWise (opened || effective line ≠ []) lines
      else opened = false ∧ bare .code (joinLines (line :: lines)) = true))

/-! ## What comments leave of a line -/

theorem step_ne_dash {x : Lex} {c : Char} (hc : c ≠ '-') : x.step c ≠ .dash := by
  cases x with
  | broken => simp [Lex.step]
  | literal =>
    rw [step_literal]
    split <;> simp
  | code | dash | slash =>
    simp only [Lex.step, if_neg hc]
    split_ifs <;> simp

/-- What is kept of a text is followed by a comment, which starts outside of literals and behind no dash. -/
def BeforeComment (x : Lex) (kept cs : List Char) : Prop :=
  ∃ comment, cs = kept ++ comment ∧ (comment = [] ∨ (∃ rest, comment = '-' :: '-' :: rest) ∧
    kept.foldl Lex.step x ≠ .literal ∧ kept.foldl Lex.step x ≠ .dash)

theorem BeforeComment.cons {x : Lex} {c : Char} {kept cs : List Char} (h : BeforeComment (x.step c) kept cs) :
    BeforeComment x (c :: kept) (c :: cs) := by
  obtain ⟨comment, rfl, hcomment⟩ := h
  exact ⟨comment, rfl, hcomment⟩

/-- Whether the text is inside of a literal, unless it is broken. -/
def Tracked (lit : Bool) (x : Lex) : Prop := x ≠ .broken → (lit = true ↔ x = .literal)

theorem Tracked.step {lit : Bool} {x : Lex} (h : Tracked lit x) (c : Char) :
    Tracked (if c = quoteChar then !lit else lit) (x.step c) :=
  fun hs => step_tracks (h fun hx => hs (hx ▸ step_broken c)) hs

theorem stripFrom_split (lit : Bool) (cs : List Char) (x : Lex) (hx : Tracked lit x)
    (hdash : lit = false → x = .dash → cs.head? ≠ some '-') : BeforeComment x (stripFrom lit cs) cs := by
  fun_induction stripFrom lit cs generalizing x with
  | case1 lit => exact ⟨[], rfl, .inl rfl⟩
  | case2 rest ih => exact (ih _ (hx.step quoteChar) nofun).cons
  | case3 tail =>
    refine ⟨_, rfl, .inr ⟨⟨tail, rfl⟩, fun hl => ?_, fun hd => hdash rfl hd rfl⟩⟩
    obtain rfl : x = .literal := hl
    exact absurd ((hx nofun).mpr rfl) nofun
  | case4 c rest hnot hq ih =>
    have hnext := hx.step c
    rw [if_neg hq] at hnext
    refine (ih _ hnext fun _ hd hrest => ?_).cons
    by_cases hc : c = '-'
    · obtain ⟨tail, rfl⟩ := List.head?_eq_some_iff.mp hrest
      exact hnot tail hc rfl
    · exact step_ne_dash hc hd
  | case5 => exact ⟨[], rfl, .inl rfl⟩
  | case6 rest ih => exact (ih _ ((hx.step quoteChar).step quoteChar) nofun).cons.cons
  | case7 d rest hd ih => exact (ih _ (hx.step quoteChar) fun _ h => absurd h (step_ne_dash (by decide))).cons
  | case8 c rest hq ih =>
    have hnext := hx.step c
    rw [if_neg hq] at hnext
    exact (ih _ hnext nofun).cons

/-- A line is what is kept of it, between blanks, and a comment. -/
theorem line_split (line : List Char) : ∃ before after comment, line = before ++ effective line ++ after ++ comment ∧
    (∀ c ∈ before, isWhitespace c = true) ∧ (∀ c ∈ after, isWhitespace c = true) ∧
    (comment = [] ∨ (∃ rest, comment = '-' :: '-' :: rest) ∧ lex (effective line) ≠ .literal ∧ lex (effective line ++ after) ≠ .dash) := by
  obtain ⟨before, after, hline, hbefore, hafter⟩ := trim_decompose line
  obtain ⟨comment, hsplit, hcomment⟩ := stripFrom_split false (trim line) .code (fun _ => ⟨nofun, nofun⟩) nofun
  obtain ⟨before', after', hkept, hbefore', hafter'⟩ := trim_decompose (stripFrom false (trim line))
  have hfront : ∀ c ∈ before ++ before', isWhitespace c = true := fun c hc => (List.mem_append.mp hc).elim (hbefore c) (hbefore' c)
  change stripFrom false (trim line) = before' ++ effective line ++ after' at hkept
  rcases hcomment with rfl | ⟨⟨rest, rfl⟩, hlit, hdash⟩
  · refine ⟨before ++ before', after' ++ after, [], ?_, hfront, fun c hc => (List.mem_append.mp hc).elim (hafter' c) (hafter c),
      .inl rfl⟩
    conv_lhs => rw [hline, hsplit, hkept]
    simp only [List.append_assoc, List.append_nil]
  · refine ⟨before ++ before', after', '-' :: '-' :: (rest ++ after), ?_, hfront, hafter', .inr ⟨⟨_, rfl⟩, ?_, ?_⟩⟩
    · conv_lhs => rw [hline, hsplit, hkept]
      simp only [List.append_assoc, List.cons_append]
    · intro h
      refine hlit ?_
      rw [hkept, List.append_assoc]
      exact (lex_blanks_append hbefore' _).trans ((lex_append ..).trans ((foldl_blanks hafter' _).2.mpr h))
    · intro h
      refine hdash ?_
      rw [hkept, List.append_assoc]
      exact (lex_blanks_append hbefore' _).trans h

/-- What follows a line in the text. -/
def lineTail (lines : List (List Char)) : List Char := if lines = [] then [] else '\n' :: joinLines lines

theorem joinLines_cons (line : List Char) (lines : List (List Char)) : joinLines (line :: lines) = line ++ lineTail lines := by
  cases lines with
  | nil => exact (List.append_nil line).symm
  | cons line' lines => rfl

theorem splitFrom_lineComment {rest : List Char} (h : '\n' ∉ rest) (current tail : List Char) :
    splitFrom .lineComment current (rest ++ '\n' :: tail) = splitFrom .code (current ++ [' ']) tail ∧
      splitFrom .lineComment current rest = splitFrom .code current [] := by
  induction rest with
  | nil => exact ⟨(splitFrom.eq_def ..).trans (if_pos rfl), by rw [splitFrom, splitFrom]⟩
  | cons c rest ih =>
    obtain ⟨hlast, hnext⟩ := ih fun hm => h (List.mem_cons_of_mem _ hm)
    have hc : c ≠ '\n' := fun hc => h (hc ▸ List.mem_cons_self)
    refine ⟨?_, ?_⟩
    · rw [List.cons_append, splitFrom, if_neg hc]
      exact hlast
    · exact (splitFrom.eq_def ..).trans ((if_neg hc).trans hnext)

/-- The splitter goes from the end of one line to the start of the next. -/
theorem splitFrom_newline {comment : List Char} (hcomment : comment = [] ∨ ∃ rest, comment = '-' :: '-' :: rest)
    (hnl : '\n' ∉ comment) (current : List Char) (lines : List (List Char)) : ∃ gap, (∀ c ∈ gap, isWhitespace c = true) ∧
      (lines ≠ [] → gap ≠ []) ∧
      splitFrom .code current (comment ++ lineTail lines) = splitFrom .code (current ++ gap) (joinLines lines) := by
  by_cases hlines : lines = []
  · subst hlines
    refine ⟨[], nofun, fun h => absurd rfl h, ?_⟩
    rw [lineTail, if_pos rfl, List.append_nil, List.append_nil]
    rcases hcomment with rfl | ⟨rest, rfl⟩
    · rfl
    · exact (splitFrom_code ..).trans (splitFrom_lineComment (fun h => hnl (by simp [h])) current []).2
  · rw [lineTail, if_neg hlines]
    rcases hcomment with rfl | ⟨rest, rfl⟩
    · refine ⟨['\n'], blank_singleton (by decide), fun _ => nofun, ?_⟩
      exact splitFrom_plain (by decide) (by decide) nofun nofun
    · refine ⟨[' '], blank_singleton (by decide), fun _ => nofun, ?_⟩
      exact (splitFrom_code ..).trans (splitFrom_lineComment (fun h => hnl (by simp [h])) current _).1

/-! ## Lines one by one -/

/-- A line of statements, without a line break and not a command of the prompt. -/
def PlainLine (line : List Char) : Prop := '\n' ∉ line ∧ isQuit (trim line) = false ∧ isCommand (trim line) = false

instance decidablePlainLine (line : List Char) : Decidable (PlainLine line) := inferInstanceAs (Decidable (_ ∧ _))

theorem trim_head {s rest : List Char} {c : Char} (h : trim s = c :: rest) : isWhitespace c ≠ true := by
  have hdrop : s.dropWhile isWhitespace = trim s ++ ((s.dropWhile isWhitespace).reverse.takeWhile isWhitespace).reverse := by
    unfold trim trimMatches
    rw [← List.reverse_append, List.takeWhile_append_dropWhile, List.reverse_reverse]
  have hhead := List.head?_dropWhile_not isWhitespace s
  rw [hdrop, h] at hhead
  simpa using hhead

theorem effective_words {line : List Char} : words (effective line) ≠ [] ↔ effective line ≠ [] := by
  refine ⟨fun h he => h (he ▸ rfl), fun h => ?_⟩
  obtain ⟨c, rest, he⟩ := List.exists_cons_of_ne_nil h
  rw [he]
  exact words_ne_nil (trim_head he) rest

theorem submitted_line {line : List Char} (hline : PlainLine line) (buffer : List Char) (lines : List (List Char)) :
    submitted buffer (line :: lines) =
      if EndsStatement line then trim (buffer ++ effective line ++ [' ']) :: submitted [] lines
      else if effective line = [] then submitted buffer lines
      else submitted (buffer ++ effective line ++ [' ']) lines := by
  obtain ⟨-, hquit, hcommand⟩ := hline
  rw [submitted]
  simp only [hquit, hcommand, Bool.false_eq_true, and_false, if_false, false_or]
  by_cases hblank : buffer = [] ∧ trim line = []
  · have he : effective line = [] := by
      unfold effective
      rw [hblank.2]
      rfl
    have hends : ¬ EndsStatement line := by
      unfold EndsStatement
      rw [he]
      nofun
    rw [if_pos hblank, if_neg hends, if_pos he]
  · rw [if_neg hblank]
    change (if effective line = [] then _ else if EndsStatement line then _ else _) = _
    by_cases he : effective line = []
    · have hends : ¬ EndsStatement line := by
        unfold EndsStatement
        rw [he]
        nofun
      rw [if_pos he, if_neg hends, if_pos he]
    · rw [if_neg he, if_neg he]
      rfl

theorem mem_effective {line : List Char} {c : Char} (h : c ∈ effective line) : c ∈ line := by
  obtain ⟨before, after, comment, hline, -⟩ := line_split line
  rw [hline]
  exact List.mem_append_left _ (List.mem_append_left _ (List.mem_append_right _ h))

theorem mem_trim {s : List Char} {c : Char} (h : c ∈ trim s) : c ∈ s := by
  obtain ⟨before, after, hs, -⟩ := trim_decompose s
  rw [hs]
  exact List.mem_append_left _ (List.mem_append_right _ h)

theorem next_no_newline {line buffer : List Char} (hline : PlainLine line) (hbuffer : '\n' ∉ buffer) :
    '\n' ∉ buffer ++ effective line ++ [' '] := by
  intro h
  rcases List.mem_append.mp h with h | h
  · rcases List.mem_append.mp h with h | h
    · exact hbuffer h
    · exact hline.1 (mem_effective h)
  · exact absurd h (by decide)

theorem submitted_no_newline {lines : List (List Char)} (hlines : ∀ line ∈ lines, PlainLine line) :
    ∀ {buffer : List Char}, '\n' ∉ buffer → ∀ x ∈ submitted buffer lines, '\n' ∉ x := by
  induction lines with
  | nil =>
    intro buffer _ x hx
    cases hx
  | cons line lines ih =>
    intro buffer hbuffer x hx
    have hline := hlines line List.mem_cons_self
    have hrest := @ih fun l hl => hlines l (List.mem_cons_of_mem _ hl)
    have hnext := next_no_newline hline hbuffer
    rw [submitted_line hline] at hx
    split_ifs at hx
    · rcases List.mem_cons.mp hx with rfl | hx
      · exact fun h => hnext (mem_trim h)
      · exact @hrest [] List.not_mem_nil x hx
    · exact hrest hbuffer x hx
    · exact hrest hnext x hx

/-- What a line has of its statement, without the semicolon. -/
def bodyOf (line : List Char) : List Char := if EndsStatement line then (effective line).dropLast else effective line

theorem effective_of_ends {line : List Char} (h : EndsStatement line) : effective line = bodyOf line ++ [';'] := by
  obtain ⟨f, hf⟩ := List.getLast?_eq_some_iff.mp h
  rw [bodyOf, if_pos h, hf, List.dropLast_concat]

theorem trim_submitted {line : List Char} (h : EndsStatement line) (buffer : List Char) :
    trim (buffer ++ effective line ++ [' ']) = (buffer ++ bodyOf line).dropWhile isWhitespace ++ [';'] := by
  rw [effective_of_ends h, ← List.append_assoc, List.append_assoc (buffer ++ bodyOf line)]
  exact @trim_semicolon (buffer ++ bodyOf line) [' '] (blank_singleton (by decide))

/-- The first text that is handed on starts with what has been collected, and with the line. -/
theorem submitted_first {lines : List (List Char)} : ∀ {line buffer : List Char}, (∀ l ∈ line :: lines, PlainLine l) →
    (∃ l ∈ line :: lines, EndsStatement l) →
    ∃ more rest, submitted buffer (line :: lines) = ((buffer ++ bodyOf line ++ more).dropWhile isWhitespace ++ [';']) :: rest := by
  induction lines with
  | nil =>
    intro line buffer hplain hends
    obtain ⟨l, hl, hends⟩ := hends
    obtain rfl := List.mem_singleton.mp hl
    rw [submitted_line (hplain _ List.mem_cons_self), if_pos hends, trim_submitted hends]
    exact ⟨[], _, by rw [List.append_nil]⟩
  | cons line' lines ih =>
    intro line buffer hplain hends
    rw [submitted_line (hplain line List.mem_cons_self)]
    by_cases hline : EndsStatement line
    · rw [if_pos hline, trim_submitted hline]
      exact ⟨[], _, by rw [List.append_nil]⟩
    · have hrest : ∃ l ∈ line' :: lines, EndsStatement l := by
        obtain ⟨l, hl, hends⟩ := hends
        rcases List.mem_cons.mp hl with rfl | hl
        · exact absurd hends hline
        · exact ⟨l, hl, hends⟩
      have hnext := fun buffer => @ih line' buffer (fun l hl => hplain l (List.mem_cons_of_mem _ hl)) hrest
      rw [if_neg hline, bodyOf, if_neg hline]
      by_cases he : effective line = []
      · rw [if_pos he, he, List.append_nil]
        obtain ⟨more, rest, heq⟩ := hnext buffer
        exact ⟨_, rest, by rw [heq, List.append_assoc]⟩
      · rw [if_neg he]
        obtain ⟨more, rest, heq⟩ := hnext (buffer ++ effective line ++ [' '])
        exact ⟨_, rest, by rw [heq, List.append_assoc, List.append_assoc]⟩

/-! ## Lines that agree -/

/-- What the prompt and the splitter have collected of a statement. -/
structure Collected (opened : Bool) (buffer current : List Char) : Prop where
  same : words buffer = words current
  opened_iff : opened = true ↔ words buffer ≠ []
  buffer_atWord : AtWord buffer
  current_atWord : AtWord current
  buffer_code : lex buffer = .code
  current_code : lex current = .code

theorem holds_blanks {blanks : List Char} (h : ∀ c ∈ blanks, isWhitespace c = true) (rest : List Char) :
    ScanMode.Holds blanks rest .code := by
  have hlex := lex_blanks h
  refine ⟨?_, ?_⟩
  · unfold Unsplit
    rw [hlex]
    rfl
  · rw [hlex]
    exact ⟨nofun, nofun⟩

theorem collected_blanks {blanks : List Char} (h : ∀ c ∈ blanks, isWhitespace c = true) : Collected false [] blanks := by
  refine ⟨(words_of_blanks h).symm, ⟨nofun, fun hne => absurd rfl hne⟩, .inl rfl, ?_, rfl, lex_blanks h⟩
  by_cases hne : blanks = []
  · exact .inl hne
  · exact @atWord_blanks [] blanks rfl h hne

theorem lex_gap {text : List Char} (h : Unsplit text) {gap : List Char} (hgap : ∀ c ∈ gap, isWhitespace c = true)
    (hne : gap ≠ []) : lex (text ++ gap) = .code := by
  obtain ⟨c, rest, rfl⟩ := List.exists_cons_of_ne_nil hne
  rw [lex_append, List.foldl_cons, step_blank (hgap c List.mem_cons_self), if_pos (show (lex text).isOutside = true from h)]
  exact lex_blanks fun d hd => hgap d (List.mem_cons_of_mem _ hd)

theorem unsplit_append {a b : List Char} (ha : lex a = .code) (hb : Unsplit b) : Unsplit (a ++ b) := by
  unfold Unsplit at hb ⊢
  rw [lex_append, ha]
  exact hb

theorem words_between {before e after : List Char} (hbefore : ∀ c ∈ before, isWhitespace c = true) (he : inLiteral false e = false)
    (hafter : ∀ c ∈ after, isWhitespace c = true) : words (before ++ e ++ after) = words e := by
  rw [List.append_assoc, words_blanks hbefore, words_append_blanks he hafter]

/-- A line that ends no statement. -/
theorem Collected.next {opened : Bool} {buffer current : List Char} (h : Collected opened buffer current) {line : List Char}
    {before after gap : List Char} (hbefore : ∀ c ∈ before, isWhitespace c = true) (hafter : ∀ c ∈ after, isWhitespace c = true)
    (hgap : ∀ c ∈ gap, isWhitespace c = true) (hne : gap ≠ []) (he : Unsplit (effective line)) :
    Collected (opened || effective line ≠ []) (if effective line = [] then buffer else buffer ++ effective line ++ [' '])
      (current ++ (before ++ effective line ++ after) ++ gap) := by
  have hq := inLiteral_of_unsplit he
  have hmiddle : Unsplit (before ++ effective line ++ after) := by
    unfold Unsplit at he ⊢
    rw [List.append_assoc, lex_blanks_append hbefore, lex_append, (foldl_blanks hafter _).1]
    exact he
  have hcurrent := unsplit_append h.current_code hmiddle
  have hwords : words (if effective line = [] then buffer else buffer ++ effective line ++ [' ']) = words buffer ++ words (effective line) := by
    by_cases hempty : effective line = []
    · rw [if_pos hempty, hempty]
      exact (List.append_nil _).symm
    · have hbuffer := inLiteral_of_unsplit (unsplit_append h.buffer_code he)
      rw [if_neg hempty, words_append_blanks hbuffer (blank_singleton (by decide)), words_atWord h.buffer_atWord]
  refine ⟨?_, ?_, ?_, atWord_blanks (inLiteral_of_unsplit hcurrent) hgap hne, ?_, lex_gap hcurrent hgap hne⟩
  · rw [hwords, words_append_blanks (inLiteral_of_unsplit hcurrent) hgap, words_atWord h.current_atWord, h.same,
      words_between hbefore hq hafter]
  · rw [hwords, Bool.or_eq_true, h.opened_iff, decide_eq_true_iff, ← effective_words, ne_eq, ne_eq, ne_eq, List.append_eq_nil_iff, not_and_or]
  · by_cases hempty : effective line = []
    · rw [if_pos hempty]
      exact h.buffer_atWord
    · rw [if_neg hempty]
      exact atWord_blanks (inLiteral_of_unsplit (unsplit_append h.buffer_code he)) (blank_singleton (by decide)) nofun
  · by_cases hempty : effective line = []
    · rw [if_pos hempty]
      exact h.buffer_code
    · rw [if_neg hempty]
      exact lex_gap (unsplit_append h.buffer_code he) (blank_singleton (by decide)) nofun

theorem comment_no_newline {line : List Char} (hline : PlainLine line) {before comment : List Char} (h : line = before ++ comment) :
    '\n' ∉ comment := fun hm => hline.1 (h ▸ List.mem_append_right before hm)

theorem fits_tail {x : Lex} {comment : List Char} (h : comment = [] ∨ (∃ rest, comment = '-' :: '-' :: rest) ∧ x ≠ .dash)
    (lines : List (List Char)) : x.Fits (comment ++ lineTail lines) := by
  rcases h with rfl | ⟨⟨rest, rfl⟩, hx⟩
  · unfold lineTail
    split
    · exact ⟨fun _ => nofun, fun _ => nofun⟩
    · exact ⟨fun _ => by simp, fun _ => by simp⟩
  · exact ⟨fun hd => absurd hd hx, fun _ => by simp⟩

/-- The splitter on a line that ends no statement. -/
theorem split_open_line {line : List Char} (hline : PlainLine line) (he : Unsplit (effective line)) (current : List Char)
    (lines : List (List Char)) : ∃ before after gap, (∀ c ∈ before, isWhitespace c = true) ∧ (∀ c ∈ after, isWhitespace c = true) ∧
      (∀ c ∈ gap, isWhitespace c = true) ∧ (lines ≠ [] → gap ≠ []) ∧
      splitFrom .code current (joinLines (line :: lines)) =
        splitFrom .code (current ++ (before ++ effective line ++ after) ++ gap) (joinLines lines) := by
  obtain ⟨before, after, comment, heq, hbefore, hafter, hcomment⟩ := line_split line
  have hlex : lex (before ++ effective line ++ after) = lex (effective line ++ after) := by
    rw [List.append_assoc]
    exact lex_blanks_append hbefore _
  have hout : Unsplit (before ++ effective line ++ after) := by
    unfold Unsplit at he ⊢
    rw [hlex, lex_append, (foldl_blanks hafter _).1]
    exact he
  obtain ⟨gap, hgap, hne, hnewline⟩ := splitFrom_newline (hcomment.imp_right fun h => h.1) (comment_no_newline hline heq)
    (current ++ (before ++ effective line ++ after)) lines
  refine ⟨before, after, gap, hbefore, hafter, hgap, hne, ?_⟩
  have hfits : (lex (before ++ effective line ++ after)).Fits (comment ++ lineTail lines) := by
    rw [hlex]
    exact fits_tail (hcomment.imp_right fun h => ⟨h.1, h.2.2⟩) lines
  rw [← hnewline, ← splitFrom_unsplit hout hfits, joinLines_cons, ← List.append_assoc, ← heq]

/-- The splitter on a line that ends a statement. -/
theorem split_ending_line {line : List Char} (hline : PlainLine line) (hends : EndsStatement line) (hbody : Unsplit (bodyOf line))
    (current : List Char) (lines : List (List Char)) : ∃ before gap, (∀ c ∈ before, isWhitespace c = true) ∧
      (∀ c ∈ gap, isWhitespace c = true) ∧
      splitFrom .code current (joinLines (line :: lines)) =
        cutStatement (current ++ (before ++ bodyOf line)) ++ splitFrom .code gap (joinLines lines) := by
  obtain ⟨before, after, comment, heq, hbefore, hafter, hcomment⟩ := line_split line
  obtain ⟨gap, hgap, -, hnewline⟩ := splitFrom_newline (hcomment.imp_right fun h => h.1) (comment_no_newline hline heq) after lines
  have hout : Unsplit (before ++ bodyOf line) := unsplit_append (lex_blanks hbefore) hbody
  refine ⟨before, after ++ gap, hbefore, fun c hc => (List.mem_append.mp hc).elim (hafter c) (hgap c), ?_⟩
  have hafter_run : splitSqlStatements (after ++ (comment ++ lineTail lines)) = splitFrom .code after (comment ++ lineTail lines) := by
    obtain ⟨hblank, hfits⟩ := holds_blanks hafter (comment ++ lineTail lines)
    exact splitFrom_unsplit hblank hfits []
  rw [← hnewline, ← hafter_run, ← splitFrom_cut hout, joinLines_cons]
  conv_lhs => rw [heq, effective_of_ends hends]
  simp only [List.append_assoc, List.cons_append, List.nil_append]

theorem split_literal_line {line : List Char} (hlit : lex (effective line) = .literal)
    {current : List Char} (hcurrent : lex current = .code) (lines : List (List Char)) : ∃ current', lex current' = .literal ∧
      splitFrom .code current (joinLines (line :: lines)) = splitFrom .literal current' (lineTail lines) := by
  obtain ⟨before, after, comment, heq, hbefore, hafter, hcomment⟩ := line_split line
  obtain rfl : comment = [] := hcomment.resolve_right fun h => h.2.1 hlit
  rw [List.append_nil] at heq
  have hlex : lex line = .literal := by
    conv_lhs => rw [heq]
    rw [List.append_assoc, lex_blanks_append hbefore, lex_append, (foldl_blanks hafter _).2]
    exact hlit
  have hrun := @splitFrom_unbroken line (lineTail lines) .code current nofun
    (by rw [show List.foldl Lex.step .code line = lex line from rfl, hlex]; nofun)
    (by rw [show List.foldl Lex.step .code line = lex line from rfl, hlex]; exact ⟨nofun, nofun⟩)
  rw [show List.foldl Lex.step .code line = lex line from rfl, hlex] at hrun
  refine ⟨current ++ line, ?_, ?_⟩
  · rw [lex_append, hcurrent]
    exact hlex
  · rw [joinLines_cons]
    exact hrun

/-! ## Lines that do not -/

theorem unsplit_of_same {x p : List Char} (h : SameStatement x p) (hp : Terminated p) : Unsplit x.dropLast := by
  obtain ⟨body, rfl, hbody⟩ := hp
  have hwords := h.2
  rw [List.dropLast_concat] at hwords
  exact (unsplit_words hwords).mpr hbody

theorem not_terminated {p : List Char} (h : lex p ≠ .broken) : ¬ Terminated p := by
  rintro ⟨body, rfl, hbody⟩
  refine h ?_
  rw [lex_concat]
  exact step_semicolon hbody

/-- A line break in a literal is in a word of the statement, and not in one that the prompt hands on. -/
theorem newline_in_literal {current rest x : List Char} (hlit : lex current = .literal) (hx : '\n' ∉ x)
    {p : List Char} {pieces : List (List Char)} (hsplit : splitFrom .literal (current ++ ['\n']) rest = p :: pieces) (hp : Terminated p) :
    ¬ SameStatement x p := by
  have hnext : lex (current ++ ['\n']) = .literal := by
    rw [lex_concat, hlit]
    rfl
  rcases cutOff_splitFrom .literal _ rest hnext with ⟨more, rest', -, hout, hpieces⟩ | ⟨more, hlex, hpieces⟩
  · intro hsame
    have hq : inLiteral false current = true := (inLiteral_iff (by rw [hlit]; nofun)).mpr hlit
    obtain ⟨w, hw, hmem⟩ := @mem_wordsFrom current '\n' more false [] hq
    rw [List.append_cons] at hw
    change w ∈ words _ at hw
    have hne : trim (current ++ ['\n'] ++ more) ≠ [] := by
      rw [ne_eq, ← words_eq_nil]
      exact List.ne_nil_of_mem hw
    rw [hsplit, cutStatement, if_neg hne] at hpieces
    obtain ⟨rfl, -⟩ := List.cons.inj hpieces
    have hwords := hsame.2
    rw [List.dropLast_concat, words_trim (inLiteral_of_unsplit hout)] at hwords
    rw [← hwords] at hw
    rcases mem_of_wordsFrom hmem hw with hin | hin
    · cases hin
    · exact hx (List.dropLast_subset _ hin)
  · rw [hsplit] at hpieces
    split at hpieces
    · cases hpieces
    · obtain ⟨rfl, -⟩ := List.cons.inj hpieces
      exact absurd hp (not_terminated hlex)

/-! ## Texts without a statement -/

theorem trim_eq_nil {s : List Char} : trim s = [] ↔ ∀ c ∈ s, isWhitespace c = true := by
  refine ⟨fun h => ?_, trim_blanks⟩
  obtain ⟨before, after, hs, hbefore, hafter⟩ := trim_decompose s
  rw [h, List.append_nil] at hs
  rw [hs]
  exact fun c hc => (List.mem_append.mp hc).elim (hbefore c) (hafter c)

theorem trim_ne_append {s : List Char} (h : trim s ≠ []) (t : List Char) : trim (s ++ t) ≠ [] :=
  fun he => h (trim_eq_nil.mpr fun c hc => trim_eq_nil.mp he c (List.mem_append_left t hc))

theorem trim_blank_concat {s : List Char} (h : trim s = []) {c : Char} (hc : isWhitespace c = true) : trim (s ++ [c]) = [] := by
  rw [trim_eq_nil] at h ⊢
  exact fun d hd => (List.mem_append.mp hd).elim (h d) fun hd => List.mem_singleton.mp hd ▸ hc

/-- A statement that has begun is handed on. -/
theorem splitFrom_ne_nil (mode : ScanMode) (current cs : List Char) (h : trim current ≠ []) : splitFrom mode current cs ≠ [] := by
  fun_induction splitFrom mode current cs with
  | case1 mode current he => exact absurd he h
  | case2 => simp
  | case4 current rest hq ih =>
    rw [cutStatement, if_neg h]
    simp
  | case5 | case6 | case13 | case15 | case16 | case17 =>
    rename_i ih
    exact ih h
  | _ =>
    rename_i ih
    exact ih (trim_ne_append h _)

theorem bare_code (c : Char) (rest : List Char) : bare .code (c :: rest) =
    if c = ';' ∨ isWhitespace c then bare .code rest
    else match c, rest with
      | '-', '-' :: rest => bare .lineComment rest
      | '/', '*' :: rest => bare (.blockComment 1) rest
      | _, _ => false := by
  exact bare.eq_def _ _

theorem bare_blockComment (depth : Nat) (c : Char) (rest : List Char) : bare (.blockComment depth) (c :: rest) =
    match c, rest with
    | '*', '/' :: rest => if depth = 1 then bare .code rest else bare (.blockComment (depth - 1)) rest
    | '/', '*' :: rest => bare (.blockComment (depth + 1)) rest
    | _, rest => bare (.blockComment depth) rest := by
  exact bare.eq_def _ _

theorem splitFrom_eq_nil (mode : ScanMode) (cs current : List Char) (hmode : mode ≠ .literal) (h : trim current = []) :
    splitFrom mode current cs = [] ↔ bare mode cs = true := by
  induction hn : cs.length using Nat.strong_induction_on generalizing mode cs current with
  | h n ih =>
    have hnext : ∀ {mode : ScanMode} {rest current : List Char}, rest.length < n → mode ≠ .literal → trim current = [] →
        (splitFrom mode current rest = [] ↔ bare mode rest = true) := fun hlt hm ht => ih _ hlt _ _ _ hm ht rfl
    cases cs with
    | nil =>
      rw [splitFrom, if_pos h]
      cases mode with
      | literal => exact absurd rfl hmode
      | code | lineComment | blockComment _ => simp [bare]
    | cons c rest =>
      rw [List.length_cons] at hn
      cases mode with
      | literal => exact absurd rfl hmode
      | code =>
        by_cases hc : c = ';' ∨ isWhitespace c = true
        · rw [bare_code, if_pos hc]
          by_cases hsemi : c = ';'
          · rw [splitFrom_code, if_neg (by rw [hsemi]; decide), if_pos hsemi, cutStatement, if_pos h]
            exact hnext (by omega) (by simp) rfl
          · have hblank := hc.resolve_left hsemi
            rw [splitFrom_plain (not_quote_of_blank hblank) hsemi (fun hd => absurd hblank (by rw [hd]; decide))
              (fun hd => absurd hblank (by rw [hd]; decide))]
            exact hnext (by omega) (by simp) (trim_blank_concat h hblank)
        · rw [bare_code, if_neg hc]
          obtain ⟨hsemi, hblank⟩ := not_or.mp hc
          split
          · rw [splitFrom_code, if_neg (by decide), if_neg (by decide)]
            exact hnext (by simp at hn; omega) (by simp) h
          · rw [splitFrom_code, if_neg (by decide), if_neg (by decide)]
            exact hnext (by simp at hn; omega) (by simp) h
          · rename_i hdash hslash
            refine iff_of_false ?_ (by simp)
            have hne : trim (current ++ [c]) ≠ [] := fun he => hblank (trim_eq_nil.mp he c (by simp))
            by_cases hq : c = quoteChar
            · rw [splitFrom_code, if_pos hq]
              exact splitFrom_ne_nil _ _ _ hne
            · rw [splitFrom_plain hq hsemi (fun hd hr => ?_) fun hd hr => ?_]
              · exact splitFrom_ne_nil _ _ _ hne
              · obtain ⟨tail, rfl⟩ := List.head?_eq_some_iff.mp hr
                exact hdash tail hd rfl
              · obtain ⟨tail, rfl⟩ := List.head?_eq_some_iff.mp hr
                exact hslash tail hd rfl
      | lineComment =>
        rw [splitFrom, bare]
        split
        · exact hnext (by omega) (by simp) (trim_blank_concat h (by decide))
        · exact hnext (by omega) (by simp) h
      | blockComment depth =>
        rw [bare_blockComment]
        split
        · rw [splitFrom]
          split
          · exact hnext (by simp at hn; omega) (by simp) (trim_blank_concat h (by decide))
          · exact hnext (by simp at hn; omega) (by simp) h
        · rw [splitFrom]
          exact hnext (by simp at hn; omega) (by simp) h
        · rename_i hclose hopen
          rw [splitFrom]
          · exact hnext (by omega) (by simp) h
          · exact hclose
          · exact hopen

/-! ## The prompt -/

theorem submitted_silent {lines : List (List Char)} (hplain : ∀ l ∈ lines, PlainLine l) (hends : ¬ ∃ l ∈ lines, EndsStatement l) :
    ∀ buffer, submitted buffer lines = [] := by
  induction lines with
  | nil => exact fun _ => rfl
  | cons line lines ih =>
    intro buffer
    have hrest := ih (fun l hl => hplain l (List.mem_cons_of_mem _ hl)) fun ⟨l, hl, h⟩ => hends ⟨l, List.mem_cons_of_mem _ hl, h⟩
    rw [submitted_line (hplain line List.mem_cons_self), if_neg fun h => hends ⟨line, List.mem_cons_self, h⟩]
    split
    · exact hrest _
    · exact hrest _

/-- Lines whose first one leaves a literal open, or has a semicolon or a comment elsewhere. -/
theorem not_agrees {opened : Bool} {buffer current line : List Char} {lines : List (List Char)}
    (h : Collected opened buffer current) (hbuffer : '\n' ∉ buffer) (hplain : ∀ l ∈ line :: lines, PlainLine l)
    (hends : ∃ l ∈ line :: lines, EndsStatement l) (hbody : ¬ Unsplit (bodyOf line))
    (hterm : ∀ p ∈ splitFrom .code current (joinLines (line :: lines)), Terminated p) :
    ¬ List.Forall₂ SameStatement (submitted buffer (line :: lines)) (splitFrom .code current (joinLines (line :: lines))) := by
  obtain ⟨more, rest, hfirst⟩ := @submitted_first lines line buffer hplain hends
  have hnl := submitted_no_newline hplain hbuffer
  rw [hfirst] at hnl ⊢
  intro hagree
  cases hsplit : splitFrom .code current (joinLines (line :: lines)) with
  | nil =>
    rw [hsplit] at hagree
    cases hagree
  | cons p pieces =>
    rw [hsplit] at hagree hterm
    obtain ⟨hsame, -⟩ := List.forall₂_cons.mp hagree
    have hp := hterm p List.mem_cons_self
    cases hx : lex (bodyOf line) with
    | code | dash | slash => exact hbody (by unfold Unsplit; rw [hx]; rfl)
    | broken =>
      have hunsplit := unsplit_of_same hsame hp
      rw [List.dropLast_concat, unsplit_words (words_dropWhile _)] at hunsplit
      have hbroken : lex (buffer ++ bodyOf line) = .broken := by
        rw [lex_append, h.buffer_code]
        exact hx
      exact lex_broken_append hbroken more hunsplit
    | literal =>
      have hlit : lex (effective line) = .literal := by
        by_cases hline : EndsStatement line
        · rw [effective_of_ends hline, lex_concat, hx]
          rfl
        · rw [bodyOf, if_neg hline] at hx
          exact hx
      obtain ⟨current', hcurrent', hrun⟩ := split_literal_line hlit h.current_code lines
      rw [hrun, lineTail] at hsplit
      by_cases hlines : lines = []
      · rw [if_pos hlines, splitFrom] at hsplit
        split at hsplit
        · cases hsplit
        · obtain ⟨rfl, -⟩ := List.cons.inj hsplit
          refine not_terminated ?_ hp
          rw [(lex_trim current').2.mpr hcurrent']
          simp
      · rw [if_neg hlines, splitFrom_literal, if_neg (by decide)] at hsplit
        exact newline_in_literal hcurrent' (hnl _ List.mem_cons_self) hsplit hp hsame

/-- No statement is empty. -/
theorem words_of_piece (mode : ScanMode) (current cs : List Char) (h : mode.Holds current cs) {p : List Char}
    (hp : p ∈ splitFrom mode current cs) (hterm : Terminated p) : words p.dropLast ≠ [] := by
  rcases cutOff_splitFrom mode current cs h with ⟨more, rest, hlen, hout, hpieces⟩ | ⟨more, hlex, hpieces⟩
  · rw [hpieces] at hp
    rcases List.mem_append.mp hp with hp | hp
    · unfold cutStatement at hp
      split at hp
      · cases hp
      · rename_i hne
        obtain rfl := List.mem_singleton.mp hp
        rw [List.dropLast_concat, words_trim (inLiteral_of_unsplit hout)]
        exact fun hw => hne (words_eq_nil.mp hw)
    · exact words_of_piece .code [] rest ⟨rfl, nofun, nofun⟩ hp hterm
  · rw [hpieces] at hp
    split at hp
    · cases hp
    · obtain rfl := List.mem_singleton.mp hp
      exact absurd hterm (not_terminated hlex)
termination_by cs.length

theorem silent_iff {opened : Bool} {buffer current : List Char} (h : Collected opened buffer current) {lines : List (List Char)}
    (hsilent : submitted buffer lines = []) :
    List.Forall₂ SameStatement (submitted buffer lines) (splitFrom .code current (joinLines lines)) ↔
      opened = false ∧ bare .code (joinLines lines) = true := by
  rw [hsilent, List.forall₂_nil_left_iff, ← Bool.not_eq_true, h.opened_iff, h.same, not_not]
  by_cases hcurrent : words current = []
  · rw [splitFrom_eq_nil .code _ _ nofun (words_eq_nil.mp hcurrent)]
    exact ⟨fun hb => ⟨hcurrent, hb⟩, fun hb => hb.2⟩
  · exact ⟨fun hs => absurd hs (splitFrom_ne_nil _ _ _ fun ht => hcurrent (words_eq_nil.mpr ht)), fun hb => absurd hb.1 hcurrent⟩

theorem words_body {line : List Char} (h : EndsStatement line) : words (bodyOf line) ≠ [] ↔ effective line ≠ [';'] := by
  rw [effective_of_ends h]
  cases hb : bodyOf line with
  | nil => exact ⟨fun hw => absurd rfl hw, fun he => absurd rfl he⟩
  | cons c rest =>
    have he := effective_of_ends h
    rw [hb] at he
    exact ⟨fun _ => by simp, fun _ => words_ne_nil (trim_head he) rest⟩

theorem same_cut {a b : List Char} (hwords : words b = words a) (hb : Unsplit b) (hne : words a ≠ []) :
    cutStatement b = [trim b ++ [';']] ∧ SameStatement (a.dropWhile isWhitespace ++ [';']) (trim b ++ [';']) := by
  refine ⟨?_, ?_, ?_⟩
  · rw [cutStatement, if_neg fun ht => hne (hwords ▸ words_eq_nil.mpr ht)]
  · rw [List.getLast?_concat, List.getLast?_concat]
  · rw [List.dropLast_concat, List.dropLast_concat, words_dropWhile, words_trim (inLiteral_of_unsplit hb), hwords]

/-- **The prompt and the splitter** agree on the lines exactly when they are line-wise. -/
theorem submitted_iff {lines : List (List Char)} : ∀ {opened : Bool} {buffer current : List Char}, Collected opened buffer current →
    '\n' ∉ buffer → (∀ l ∈ lines, PlainLine l) → (∀ p ∈ splitFrom .code current (joinLines lines), Terminated p) →
    (List.Forall₂ SameStatement (submitted buffer lines) (splitFrom .code current (joinLines lines)) ↔ LineWise opened lines) := by
  induction lines with
  | nil =>
    intro opened buffer current h _ _ _
    exact (silent_iff h rfl).trans ⟨fun hb => hb.1, fun hb => ⟨hb, rfl⟩⟩
  | cons line lines ih =>
    intro opened buffer current h hbuffer hplain hterm
    have hline := hplain line List.mem_cons_self
    have hplain' : ∀ l ∈ lines, PlainLine l := fun l hl => hplain l (List.mem_cons_of_mem _ hl)
    rw [LineWise]
    by_cases hends : EndsStatement line
    · rw [if_pos hends]
      by_cases hbody : Unsplit (bodyOf line)
      · obtain ⟨before, gap, hbefore, hgap, hsplit⟩ := split_ending_line hline hends hbody current lines
        have hcollected := collected_blanks hgap
        rw [hsplit] at hterm ⊢
        have hrest := ih hcollected List.not_mem_nil hplain' fun p hp => hterm p (List.mem_append_right _ hp)
        have hout := unsplit_append (a := current) h.current_code (unsplit_append (lex_blanks hbefore) hbody)
        have hwords : words (current ++ (before ++ bodyOf line)) = words (buffer ++ bodyOf line) := by
          rw [words_atWord h.current_atWord, words_atWord h.buffer_atWord, h.same, words_blanks hbefore]
        rw [submitted_line hline, if_pos hends, trim_submitted hends]
        have hopen : words (buffer ++ bodyOf line) ≠ [] ↔ opened = true ∨ effective line ≠ [';'] := by
          rw [words_atWord h.buffer_atWord, h.opened_iff, ← words_body hends, ne_eq, List.append_eq_nil_iff, not_and_or]
        by_cases hne : words (buffer ++ bodyOf line) = []
        · refine ⟨fun hagree => ?_, fun hwise => absurd hne (hopen.mpr hwise.2.1)⟩
          -- the prompt hands an empty statement on
          rw [cutStatement, if_pos (words_eq_nil.mp (hwords.trans hne)), List.nil_append] at hagree hterm
          obtain ⟨p, pieces, hsame, -, hpieces⟩ := List.forall₂_cons_left_iff.mp hagree
          have hp : p ∈ splitFrom .code gap (joinLines lines) := hpieces ▸ List.mem_cons_self
          refine absurd ?_ (words_of_piece .code gap (joinLines lines) (holds_blanks hgap _) hp (hterm p hp))
          rw [← hsame.2, List.dropLast_concat, words_dropWhile, hne]
        · obtain ⟨hcut, hsame⟩ := same_cut hwords hout hne
          rw [hcut, List.singleton_append, List.forall₂_cons, hrest]
          rw [bodyOf, if_pos hends] at hbody
          exact ⟨fun hagree => ⟨hbody, hopen.mp hne, hagree.2⟩, fun hwise => ⟨hsame, hwise.2.2⟩⟩
      · have hnot : ¬ Unsplit (effective line).dropLast := by rwa [bodyOf, if_pos hends] at hbody
        exact ⟨fun hagree => absurd hagree (not_agrees h hbuffer hplain ⟨line, List.mem_cons_self, hends⟩ hbody hterm),
          fun hwise => absurd hwise.1 hnot⟩
    · rw [if_neg hends]
      by_cases hrest : ∃ l ∈ lines, EndsStatement l
      · rw [if_pos hrest]
        have hsome : ∃ l ∈ line :: lines, EndsStatement l := by
          obtain ⟨l, hl, hl'⟩ := hrest
          exact ⟨l, List.mem_cons_of_mem _ hl, hl'⟩
        by_cases hunsplit : Unsplit (effective line)
        · obtain ⟨before, after, gap, hbefore, hafter, hgap, hgapne, hsplit⟩ := split_open_line hline hunsplit current lines
          have hlines : lines ≠ [] := by
            rintro rfl
            obtain ⟨l, hl, -⟩ := hrest
            cases hl
          have hnext := h.next hbefore hafter hgap (hgapne hlines) hunsplit
          rw [hsplit] at hterm ⊢
          have hbuffer' : '\n' ∉ if effective line = [] then buffer else buffer ++ effective line ++ [' '] := by
            split
            · exact hbuffer
            · exact next_no_newline hline hbuffer
          have hsubmitted : submitted buffer (line :: lines) =
              submitted (if effective line = [] then buffer else buffer ++ effective line ++ [' ']) lines := by
            rw [submitted_line hline, if_neg hends]
            split <;> rfl
          rw [hsubmitted, ih hnext hbuffer' hplain' hterm]
          exact ⟨fun hwise => ⟨hunsplit, hwise⟩, fun hwise => hwise.2⟩
        · have hnot : ¬ Unsplit (bodyOf line) := by rwa [bodyOf, if_neg hends]
          exact ⟨fun hagree => absurd hagree (not_agrees h hbuffer hplain hsome hnot hterm), fun hwise => absurd hwise.1 hunsplit⟩
      · rw [if_neg hrest]
        refine silent_iff h (submitted_silent hplain ?_ buffer)
        rintro ⟨l, hl, hl'⟩
        rcases List.mem_cons.mp hl with rfl | hl
        · exact hends hl'
        · exact hrest ⟨l, hl, hl'⟩

/-- **What the prompt submits** of a text whose statements end with a semicolon. -/
theorem submitted_exact {lines : List (List Char)} (hplain : ∀ line ∈ lines, PlainLine line)
    (hterm : ∀ p ∈ splitSqlStatements (joinLines lines), Terminated p) :
    List.Forall₂ SameStatement (submitted [] lines) (splitSqlStatements (joinLines lines)) ↔ LineWise false lines :=
  submitted_iff (collected_blanks nofun) List.not_mem_nil hplain hterm

/-- A statement in two lines with comments, and a comment at the end. -/
def typedLines : List (List Char) :=
  ["-- all of them".toList, "  SELECT a -- the key".toList, "    FROM t WHERE b = ';--' ; -- sorted".toList, "DELETE FROM t;".toList, "/* done */".toList]

theorem typed_submitted : List.Forall₂ SameStatement (submitted [] typedLines) (splitSqlStatements (joinLines typedLines)) :=
  (submitted_exact (by decide +kernel) (by decide +kernel)).mpr (by decide +kernel)

def twoStatements : List (List Char) := ["DELETE FROM t; DELETE FROM u;".toList]

def spreadLiteral : List (List Char) := ["INSERT INTO t VALUES ('a".toList, "  b');".toList]

def innerComment : List (List Char) := ["DELETE FROM t /* all; */".toList, ";".toList]

/-- **Two statements in a line are submitted as one**, a literal loses its line break, and a comment is not left out. -/
theorem line_submitted_whole :
    (∀ lines ∈ [twoStatements, spreadLiteral, innerComment], (∀ line ∈ lines, PlainLine line) ∧
      (∀ p ∈ splitSqlStatements (joinLines lines), Terminated p) ∧
      ¬ List.Forall₂ SameStatement (submitted [] lines) (splitSqlStatements (joinLines lines))) ∧
    submitted [] twoStatements = twoStatements ∧
    submitted [] spreadLiteral = ["INSERT INTO t VALUES ('a b');".toList] ∧
    submitted [] innerComment = ["DELETE FROM t /* all; */ ;".toList] := by
  refine ⟨?_, ?_, ?_, ?_⟩ <;> decide +kernel

end PotatoDB
