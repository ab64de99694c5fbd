import PotatoDB.Scripts

/-!
# Texts without a semicolon or a comment

Whether a text has a semicolon or the start of a comment outside of its quoted literals, and what
trimming does to it.
-/

namespace PotatoDB

/-- Where a text ends: outside of a literal, with or without a character that can start a comment, in a literal, or
behind a semicolon or the start of a comment. -/
inductive Lex where
  | code
  | dash
  | slash
  | literal
  | broken
deriving DecidableEq

def Lex.step : Lex → Char → Lex
  | .broken, _ => .broken
  | .literal, c => if c = quoteChar then .code else .literal
  | s, c =>
    if c = quoteChar then .literal
    else if c = ';' then .broken
    else if c = '-' then if s = .dash then .broken else .dash
    else if c = '*' ∧ s = .slash then .broken
    else if c = '/' then .slash
    else .code

def lex (text : List Char) : Lex := text.foldl Lex.step .code

def Lex.isOutside : Lex → Bool
  | .code | .dash | .slash => true
  | .literal | .broken => false

/-- A text that has no semicolon and no comment outside of its literals, and closes each of them. -/
def Unsplit (text : List Char) : Prop := (lex text).isOutside = true

instance decidableUnsplit (text : List Char) : Decidable (Unsplit text) := inferInstanceAs (Decidable (_ = _))

/-! ## Steps -/

theorem lex_append (s t : List Char) : lex (s ++ t) = t.foldl Lex.step (lex s) := List.foldl_append

theorem lex_concat (s : List Char) (c : Char) : lex (s ++ [c]) = (lex s).step c := lex_append s [c]

theorem step_broken (c : Char) : Lex.broken.step c = .broken := rfl

theorem step_literal (c : Char) : Lex.literal.step c = if c = quoteChar then .code else .literal := rfl

theorem foldl_broken (text : List Char) : text.foldl Lex.step .broken = .broken := by
  induction text with
  | nil => rfl
  | cons c text ih => exact ih

theorem step_quote {x : Lex} (hx : x.isOutside = true) : x.step quoteChar = .literal := by
  cases x with
  | literal | broken => cases hx
  | code | dash | slash => rfl

theorem step_semicolon {x : Lex} (hx : x.isOutside = true) : x.step ';' = .broken := by
  cases x with
  | literal | broken => cases hx
  | code | dash | slash => rfl

theorem step_dash {x : Lex} (hx : x.isOutside = true) (h : x.step '-' ≠ .broken) : x.step '-' = .dash := by
  cases x with
  | literal | broken => cases hx
  | dash => exact absurd rfl h
  | code | slash => rfl

theorem step_slash {x : Lex} (hx : x.isOutside = true) : x.step '/' = .slash := by
  cases x with
  | literal | broken => cases hx
  | code | dash | slash => rfl

/-- A text stays outside of literals with every character but a quote, a semicolon and the second of a comment. -/
theorem step_outside {x : Lex} {c : Char} (hx : x.isOutside = true) (hq : c ≠ quoteChar) (h : x.step c ≠ .broken) :
    (x.step c).isOutside = true := by
  have hc : x.step c = .broken ∨ x.step c = .dash ∨ x.step c = .slash ∨ x.step c = .code := by
    cases x with
    | literal | broken => cases hx
    | code | dash | slash =>
      simp only [Lex.step, if_neg hq]
      split_ifs <;> simp
  rcases hc with hc | hc | hc | hc
  · exact absurd hc h
  all_goals rw [hc]; rfl

theorem step_blank {x : Lex} {c : Char} (hc : isWhitespace c = true) :
    x.step c = if x.isOutside then .code else x := by
  have hne : c ≠ quoteChar ∧ c ≠ ';' ∧ c ≠ '-' ∧ c ≠ '*' ∧ c ≠ '/' := by
    refine ⟨?_, ?_, ?_, ?_, ?_⟩ <;> rintro rfl <;> exact absurd hc (by decide)
  obtain ⟨hq, hs, hd, ha, hl⟩ := hne
  cases x <;> simp [Lex.step, Lex.isOutside, hq, hs, hd, ha, hl]

/-! ## Blanks -/

theorem foldl_blanks {blanks : List Char} (h : ∀ c ∈ blanks, isWhitespace c = true) (x : Lex) :
    (blanks.foldl Lex.step x).isOutside = x.isOutside ∧ (blanks.foldl Lex.step x = .literal ↔ x = .literal) := by
  induction blanks generalizing x with
  | nil => exact ⟨rfl, Iff.rfl⟩
  | cons c blanks ih =>
    obtain ⟨hout, hlit⟩ := ih (fun d hd => h d (List.mem_cons_of_mem _ hd)) (x.step c)
    rw [step_blank (h c List.mem_cons_self)] at hout hlit
    rw [List.foldl_cons, step_blank (h c List.mem_cons_self)]
    by_cases hx : x.isOutside = true
    · rw [if_pos hx] at hout hlit ⊢
      refine ⟨hout.trans hx.symm, hlit.trans ?_⟩
      cases x <;> simp_all [Lex.isOutside]
    · rw [if_neg hx] at hout hlit ⊢
      exact ⟨hout, hlit⟩

theorem lex_blanks {blanks : List Char} (h : ∀ c ∈ blanks, isWhitespace c = true) : lex blanks = .code := by
  unfold lex
  induction blanks with
  | nil => rfl
  | cons c blanks ih =>
    rw [List.foldl_cons, step_blank (h c List.mem_cons_self), ite_self]
    exact ih fun d hd => h d (List.mem_cons_of_mem _ hd)

theorem lex_blanks_append {blanks : List Char} (h : ∀ c ∈ blanks, isWhitespace c = true) (s : List Char) :
    lex (blanks ++ s) = lex s := by
  rw [lex_append, lex_blanks h]
  rfl

theorem trim_decompose (s : List Char) : ∃ before after, s = before ++ trim s ++ after ∧
    (∀ c ∈ before, isWhitespace c = true) ∧ (∀ c ∈ after, isWhitespace c = true) := by
  refine ⟨s.takeWhile isWhitespace, ((s.dropWhile isWhitespace).reverse.takeWhile isWhitespace).reverse, ?_,
    fun c hc => List.mem_takeWhile_imp hc, fun c hc => List.mem_takeWhile_imp (List.mem_reverse.mp hc)⟩
  unfold trim trimMatches
  rw [List.append_assoc, ← List.reverse_append, List.takeWhile_append_dropWhile, List.reverse_reverse,
    List.takeWhile_append_dropWhile]

theorem lex_trim (s : List Char) : (lex (trim s)).isOutside = (lex s).isOutside ∧ (lex (trim s) = .literal ↔ lex s = .literal) := by
  obtain ⟨before, after, hs, hbefore, hafter⟩ := trim_decompose s
  have hmiddle := lex_blanks_append hbefore (trim s)
  have hwhole : lex s = after.foldl Lex.step (lex (trim s)) := by
    rw [← hmiddle, ← lex_append, ← hs]
  obtain ⟨hout, hlit⟩ := foldl_blanks hafter (lex (trim s))
  rw [hwhole]
  exact ⟨hout.symm, hlit.symm⟩

theorem unsplit_trim {s : List Char} : Unsplit (trim s) ↔ Unsplit s := by
  unfold Unsplit
  rw [(lex_trim s).1]

theorem dropWhile_blanks {blanks : List Char} (h : ∀ c ∈ blanks, isWhitespace c = true) (s : List Char) :
    (blanks ++ s).dropWhile isWhitespace = s.dropWhile isWhitespace := by
  induction blanks with
  | nil => rfl
  | cons c blanks ih =>
    rw [List.cons_append, List.dropWhile_cons, if_pos (h c List.mem_cons_self)]
    exact ih fun d hd => h d (List.mem_cons_of_mem _ hd)

theorem trim_blanks {blanks : List Char} (h : ∀ c ∈ blanks, isWhitespace c = true) : trim blanks = [] := by
  have hdrop := dropWhile_blanks h []
  rw [List.append_nil] at hdrop
  unfold trim trimMatches
  rw [hdrop]
  rfl

end PotatoDB
