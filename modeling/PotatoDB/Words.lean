import PotatoDB.ScriptsSound

/-!
# Words

What blanks outside of literals separate in a text.
-/

namespace PotatoDB

/-- Whether a text ends inside of a literal. -/
def inLiteral (lit : Bool) (text : List Char) : Bool := text.foldl (fun lit c => if c = quoteChar then !lit else lit) lit

/-- What blanks outside of literals separate, with the word that is being read. -/
def wordsFrom : Bool → List Char → List Char → List (List Char)
  | _, word, [] => if word = [] then [] else [word]
  | true, word, c :: rest => wordsFrom (c ≠ quoteChar) (word ++ [c]) rest
  | false, word, c :: rest =>
    if isWhitespace c then (if word = [] then [] else [word]) ++ wordsFrom false [] rest
    else wordsFrom (c = quoteChar) (word ++ [c]) rest

def words (text : List Char) : List (List Char) := wordsFrom false [] text

/-- A text behind which a word starts. -/
def AtWord (text : List Char) : Prop :=
  text = [] ∨ ∃ before c, text = before ++ [c] ∧ isWhitespace c = true ∧ inLiteral false before = false

/-! ## Quotes -/

theorem inLiteral_append (lit : Bool) (a b : List Char) : inLiteral lit (a ++ b) = inLiteral (inLiteral lit a) b := List.foldl_append

theorem not_quote_of_blank {c : Char} (h : isWhitespace c = true) : c ≠ quoteChar := by
  rintro rfl
  exact absurd h (by decide)

theorem blank_singleton {c : Char} (h : isWhitespace c = true) : ∀ d ∈ [c], isWhitespace d = true :=
  fun _ hd => List.mem_singleton.mp hd ▸ h

theorem inLiteral_blanks {blanks : List Char} (h : ∀ c ∈ blanks, isWhitespace c = true) (lit : Bool) : inLiteral lit blanks = lit := by
  induction blanks with
  | nil => rfl
  | cons c blanks ih =>
    show inLiteral (if c = quoteChar then !lit else lit) blanks = lit
    rw [if_neg (not_quote_of_blank (h c List.mem_cons_self))]
    exact ih fun d hd => h d (List.mem_cons_of_mem _ hd)

/-- A quote outside of what is broken opens a literal or closes it. -/
theorem step_tracks {x : Lex} {lit : Bool} {c : Char} (h : lit = true ↔ x = .literal) (hs : x.step c ≠ .broken) :
    (if c = quoteChar then !lit else lit) = true ↔ x.step c = .literal := by
  by_cases hq : c = quoteChar
  · subst hq
    rw [if_pos rfl]
    cases x with
    | broken => exact absurd rfl hs
    | literal =>
      obtain rfl := h.mpr rfl
      exact ⟨nofun, nofun⟩
    | code | dash | slash =>
      cases lit with
      | true => exact nomatch h.mp rfl
      | false => exact ⟨fun _ => rfl, fun _ => rfl⟩
  · rw [if_neg hq]
    cases x with
    | broken => exact absurd rfl hs
    | literal => rw [step_literal, if_neg hq, h]
    | code | dash | slash =>
      have hstep := step_outside rfl hq hs
      refine h.trans ⟨nofun, fun hl => ?_⟩
      rw [hl] at hstep
      cases hstep

theorem inLiteral_of_lex {text : List Char} : ∀ {x : Lex} {lit : Bool}, (lit = true ↔ x = .literal) →
    text.foldl Lex.step x ≠ .broken → (inLiteral lit text = true ↔ text.foldl Lex.step x = .literal) := by
  induction text with
  | nil =>
    intro x lit h _
    exact h
  | cons c text ih =>
    intro x lit h hs
    rw [List.foldl_cons] at hs
    exact ih (step_tracks h fun hb => hs (hb ▸ foldl_broken text)) hs

theorem inLiteral_iff {text : List Char} (h : lex text ≠ .broken) : inLiteral false text = true ↔ lex text = .literal :=
  inLiteral_of_lex ⟨nofun, nofun⟩ h

theorem unsplit_ne {text : List Char} (h : Unsplit text) : lex text ≠ .broken ∧ lex text ≠ .literal := by
  refine ⟨fun hl => ?_, fun hl => ?_⟩ <;> (unfold Unsplit at h; rw [hl] at h; cases h)

theorem inLiteral_of_unsplit {text : List Char} (h : Unsplit text) : inLiteral false text = false := by
  obtain ⟨hb, hl⟩ := unsplit_ne h
  rw [← Bool.not_eq_true, inLiteral_iff hb]
  exact hl

/-! ## Blanks -/

/-- A blank outside of literals separates. -/
theorem wordsFrom_blank {text : List Char} {c : Char} (hc : isWhitespace c = true) (rest : List Char) :
    ∀ {lit : Bool} {word : List Char}, inLiteral lit text = false →
      wordsFrom lit word (text ++ c :: rest) = wordsFrom lit word text ++ words rest := by
  induction text with
  | nil =>
    intro lit word h
    obtain rfl : lit = false := h
    show wordsFrom false word (c :: rest) = (if word = [] then [] else [word]) ++ words rest
    exact (wordsFrom.eq_def ..).trans (if_pos hc)
  | cons d text ih =>
    intro lit word h
    have h : inLiteral (if d = quoteChar then !lit else lit) text = false := h
    cases lit with
    | true =>
      rw [List.cons_append, wordsFrom, wordsFrom]
      refine ih ?_
      by_cases hd : d = quoteChar
      · simpa [hd] using h
      · simpa [hd] using h
    | false =>
      rw [List.cons_append, wordsFrom, wordsFrom]
      by_cases hblank : isWhitespace d = true
      · rw [if_pos hblank, if_pos hblank, List.append_assoc]
        rw [if_neg (not_quote_of_blank hblank)] at h
        rw [ih h]
      · rw [if_neg hblank, if_neg hblank]
        refine ih ?_
        by_cases hd : d = quoteChar
        · simpa [hd] using h
        · simpa [hd] using h

theorem words_blanks {blanks : List Char} (h : ∀ c ∈ blanks, isWhitespace c = true) (text : List Char) :
    words (blanks ++ text) = words text := by
  induction blanks with
  | nil => rfl
  | cons c blanks ih =>
    rw [List.cons_append]
    unfold words at ih ⊢
    rw [wordsFrom, if_pos (h c List.mem_cons_self), if_pos rfl]
    exact ih fun d hd => h d (List.mem_cons_of_mem _ hd)

theorem words_of_blanks {blanks : List Char} (h : ∀ c ∈ blanks, isWhitespace c = true) : words blanks = [] := by
  have hall := words_blanks h []
  rw [List.append_nil] at hall
  exact hall

theorem words_append_blanks {text : List Char} (ht : inLiteral false text = false) {blanks : List Char}
    (h : ∀ c ∈ blanks, isWhitespace c = true) : words (text ++ blanks) = words text := by
  cases blanks with
  | nil => rw [List.append_nil]
  | cons c blanks =>
    have hrest := words_of_blanks fun d hd => h d (List.mem_cons_of_mem _ hd)
    unfold words at hrest ⊢
    rw [wordsFrom_blank (h c List.mem_cons_self) blanks ht]
    unfold words
    rw [hrest, List.append_nil]

theorem words_atWord {text : List Char} (h : AtWord text) (rest : List Char) : words (text ++ rest) = words text ++ words rest := by
  rcases h with rfl | ⟨before, c, rfl, hc, hq⟩
  · rfl
  · rw [words_append_blanks hq (blank_singleton hc), List.append_assoc]
    exact wordsFrom_blank hc rest hq

theorem atWord_blanks {text blanks : List Char} (ht : inLiteral false text = false) (h : ∀ c ∈ blanks, isWhitespace c = true)
    (hne : blanks ≠ []) : AtWord (text ++ blanks) := by
  obtain ⟨init, c, rfl⟩ := (List.eq_nil_or_concat' blanks).resolve_left hne
  refine .inr ⟨text ++ init, c, (List.append_assoc ..).symm, h c (List.mem_append_right init List.mem_cons_self), ?_⟩
  rw [inLiteral_append, ht]
  exact inLiteral_blanks (fun d hd => h d (List.mem_append_left _ hd)) false

theorem words_trim {text : List Char} (h : inLiteral false text = false) : words (trim text) = words text := by
  obtain ⟨before, after, htext, hbefore, hafter⟩ := trim_decompose text
  have hq : inLiteral false (trim text) = false := by
    have hq := h
    rw [htext, inLiteral_append, inLiteral_append, inLiteral_blanks hbefore, inLiteral_blanks hafter] at hq
    exact hq
  conv_rhs => rw [htext, List.append_assoc, words_blanks hbefore, words_append_blanks hq hafter]

theorem words_dropWhile (text : List Char) : words (text.dropWhile isWhitespace) = words text := by
  conv_rhs => rw [← List.takeWhile_append_dropWhile (p := isWhitespace) (l := text)]
  exact (words_blanks (fun c hc => List.mem_takeWhile_imp hc) _).symm

/-! ## Words one by one -/

/-- The word that is being read is the start of a word. -/
theorem wordsFrom_word {word : List Char} (hne : word ≠ []) (text : List Char) (lit : Bool) :
    ∃ more, word ++ more ∈ wordsFrom lit word text := by
  induction text generalizing lit word with
  | nil =>
    refine ⟨[], ?_⟩
    rw [wordsFrom, if_neg hne, List.append_nil]
    exact List.mem_singleton.mpr rfl
  | cons c text ih =>
    have hnext : ∀ lit', ∃ more, word ++ more ∈ wordsFrom lit' (word ++ [c]) text := by
      intro lit'
      obtain ⟨more, hmore⟩ := @ih (word ++ [c]) (by simp) lit'
      exact ⟨c :: more, by rwa [List.append_assoc] at hmore⟩
    cases lit with
    | true => exact hnext _
    | false =>
      rw [wordsFrom]
      by_cases hc : isWhitespace c = true
      · rw [if_pos hc, if_neg hne]
        exact ⟨[], by simp⟩
      · rw [if_neg hc]
        exact hnext _

theorem words_ne_nil {c : Char} (hc : isWhitespace c ≠ true) (text : List Char) : words (c :: text) ≠ [] := by
  intro h
  unfold words at h
  rw [wordsFrom, if_neg hc] at h
  obtain ⟨more, hmore⟩ := @wordsFrom_word ([] ++ [c]) (by simp) text (decide (c = quoteChar))
  rw [h] at hmore
  cases hmore

theorem words_eq_nil {text : List Char} : words text = [] ↔ trim text = [] := by
  refine ⟨fun h => ?_, fun h => ?_⟩
  · rw [← words_dropWhile] at h
    cases hd : text.dropWhile isWhitespace with
    | nil =>
      unfold trim trimMatches
      rw [hd]
      rfl
    | cons c rest =>
      have hc : isWhitespace c ≠ true := by
        have := List.head?_dropWhile_not isWhitespace text
        rw [hd] at this
        simpa using this
      rw [hd] at h
      exact absurd h (words_ne_nil hc rest)
  · obtain ⟨before, after, htext, hbefore, hafter⟩ := trim_decompose text
    rw [htext, h, List.append_nil]
    exact words_of_blanks fun c hc => (List.mem_append.mp hc).elim (hbefore c) (hafter c)

/-- A character in a literal is in a word, also when it is a blank. -/
theorem mem_wordsFrom {text : List Char} {c : Char} (rest : List Char) : ∀ {lit : Bool} {word : List Char},
    inLiteral lit text = true → ∃ w ∈ wordsFrom lit word (text ++ c :: rest), c ∈ w := by
  induction text with
  | nil =>
    intro lit word h
    obtain rfl : lit = true := h
    obtain ⟨more, hmore⟩ := @wordsFrom_word (word ++ [c]) (by simp) rest (decide (c ≠ quoteChar))
    exact ⟨_, hmore, by simp⟩
  | cons d text ih =>
    intro lit word h
    have h : inLiteral (if d = quoteChar then !lit else lit) text = true := h
    cases lit with
    | true =>
      rw [List.cons_append, wordsFrom]
      refine ih ?_
      by_cases hd : d = quoteChar
      · simpa [hd] using h
      · simpa [hd] using h
    | false =>
      rw [List.cons_append, wordsFrom]
      by_cases hblank : isWhitespace d = true
      · rw [if_pos hblank]
        rw [if_neg (not_quote_of_blank hblank)] at h
        obtain ⟨w, hw, hc⟩ := @ih false [] h
        exact ⟨w, List.mem_append_right _ hw, hc⟩
      · rw [if_neg hblank]
        refine ih ?_
        by_cases hd : d = quoteChar
        · simpa [hd] using h
        · simpa [hd] using h

/-- The words of a text have no characters but the text's. -/
theorem mem_of_wordsFrom {c : Char} {w : List Char} (hc : c ∈ w) : ∀ {text : List Char} {lit : Bool} {word : List Char},
    w ∈ wordsFrom lit word text → c ∈ word ∨ c ∈ text
  | [], lit, word, h => by
    rw [wordsFrom] at h
    by_cases hword : word = []
    · rw [if_pos hword] at h
      cases h
    · rw [if_neg hword] at h
      exact .inl (List.mem_singleton.mp h ▸ hc)
  | d :: text, true, word, h => by
    rcases mem_of_wordsFrom hc (by rwa [wordsFrom] at h) with hin | hin
    · rcases List.mem_append.mp hin with hin | hin
      · exact .inl hin
      · exact .inr (List.mem_singleton.mp hin ▸ List.mem_cons_self)
    · exact .inr (List.mem_cons_of_mem _ hin)
  | d :: text, false, word, h => by
    rw [wordsFrom] at h
    by_cases hblank : isWhitespace d = true
    · rw [if_pos hblank] at h
      rcases List.mem_append.mp h with h | h
      · by_cases hword : word = []
        · rw [if_pos hword] at h
          cases h
        · rw [if_neg hword] at h
          exact .inl (List.mem_singleton.mp h ▸ hc)
      · rcases mem_of_wordsFrom hc h with hin | hin
        · cases hin
        · exact .inr (List.mem_cons_of_mem _ hin)
    · rw [if_neg hblank] at h
      rcases mem_of_wordsFrom hc h with hin | hin
      · rcases List.mem_append.mp hin with hin | hin
        · exact .inl hin
        · exact .inr (List.mem_singleton.mp hin ▸ List.mem_cons_self)
      · exact .inr (List.mem_cons_of_mem _ hin)

theorem lex_broken_append {text : List Char} (h : lex text = .broken) (more : List Char) : ¬ Unsplit (text ++ more) := by
  unfold Unsplit
  rw [lex_append, h, foldl_broken]
  nofun

theorem unsplit_blank_between {text : List Char} (h : lex text ≠ .literal) {c : Char} (hc : isWhitespace c = true) (more : List Char) :
    Unsplit (text ++ c :: more) ↔ Unsplit text ∧ Unsplit more := by
  by_cases hb : lex text = .broken
  · refine ⟨fun hs => absurd hs (lex_broken_append hb _), fun hs => ?_⟩
    rw [← List.append_nil text] at hs
    exact absurd hs.1 (lex_broken_append hb [])
  · have hout : Unsplit text := by
      unfold Unsplit
      cases hx : lex text with
      | literal => exact absurd hx h
      | broken => exact absurd hx hb
      | code | dash | slash => rfl
    have hlex : lex (text ++ c :: more) = lex more := by
      rw [lex_append, List.foldl_cons, step_blank hc]
      exact congrArg (fun x => more.foldl Lex.step x) (if_pos hout)
    unfold Unsplit at hout ⊢
    rw [hlex]
    exact ⟨fun hm => ⟨hout, hm⟩, fun hm => hm.2⟩

/-- A text has its semicolons and comments in literals when its words do. -/
theorem unsplit_wordsFrom {text : List Char} : ∀ {lit : Bool} {word : List Char}, (lit = true ↔ lex word = .literal) →
    (Unsplit (word ++ text) ↔ ∀ w ∈ wordsFrom lit word text, Unsplit w) := by
  induction text with
  | nil =>
    intro lit word _
    rw [List.append_nil, wordsFrom]
    by_cases hword : word = []
    · rw [if_pos hword, hword]
      exact ⟨fun _ => nofun, fun _ => rfl⟩
    · rw [if_neg hword]
      exact ⟨fun h w hw => List.mem_singleton.mp hw ▸ h, fun h => h word (List.mem_singleton.mpr rfl)⟩
  | cons c text ih =>
    intro lit word hlit
    -- a character of the word, which stays broken when it is
    have hnext : Unsplit (word ++ c :: text) ↔ ∀ w ∈ wordsFrom (if c = quoteChar then !lit else lit) (word ++ [c]) text, Unsplit w := by
      rw [List.append_cons]
      by_cases hb : (lex word).step c = .broken
      · rw [← lex_concat] at hb
        obtain ⟨more, hmore⟩ := @wordsFrom_word (word ++ [c]) (by simp) text (if c = quoteChar then !lit else lit)
        exact ⟨fun h => absurd h (lex_broken_append hb text), fun h => absurd (h _ hmore) (lex_broken_append hb more)⟩
      · refine ih ?_
        rw [lex_concat]
        exact step_tracks hlit hb
    cases lit with
    | true =>
      rw [wordsFrom, show decide (c ≠ quoteChar) = if c = quoteChar then !true else true by by_cases hq : c = quoteChar <;> simp [hq]]
      exact hnext
    | false =>
      rw [wordsFrom]
      by_cases hblank : isWhitespace c = true
      · rw [if_pos hblank, unsplit_blank_between (fun hl => nomatch hlit.mpr hl) hblank, List.forall_mem_append,
          ← @ih false [] ⟨nofun, nofun⟩]
        refine and_congr_left fun _ => ?_
        by_cases hword : word = []
        · rw [if_pos hword, hword]
          exact ⟨fun _ => nofun, fun _ => rfl⟩
        · rw [if_neg hword]
          exact ⟨fun h w hw => List.mem_singleton.mp hw ▸ h, fun h => h word (List.mem_singleton.mpr rfl)⟩
      · rw [if_neg hblank, show decide (c = quoteChar) = if c = quoteChar then !false else false by by_cases hq : c = quoteChar <;> simp [hq]]
        exact hnext

theorem unsplit_words {a b : List Char} (h : words a = words b) : Unsplit a ↔ Unsplit b := by
  have hwords : ∀ text, Unsplit text ↔ ∀ w ∈ words text, Unsplit w := fun text =>
    @unsplit_wordsFrom text false [] ⟨nofun, nofun⟩
  rw [hwords, hwords, h]

end PotatoDB
