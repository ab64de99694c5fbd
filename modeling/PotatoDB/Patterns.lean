import Mathlib

/-!
# LIKE patterns

A percent sign stands for any text, an underscore for any character, and a backslash takes the next character for itself. A text
between two percent signs is a part of what is matched, if it has none of these characters.
-/

namespace Patterns

/-- A pattern matches a text, with characters compared by a relation. -/
inductive Like (same : Char → Char → Prop) : List Char → List Char → Prop
  | nil : Like same [] []
  | percent {p t : List Char} (skipped : List Char) (h : Like same p t) : Like same ('%' :: p) (skipped ++ t)
  | underscore {c : Char} {p t : List Char} (h : Like same p t) : Like same ('_' :: p) (c :: t)
  | escaped {c d : Char} {p t : List Char} (hsame : same c d) (h : Like same p t) : Like same ('\\' :: c :: p) (d :: t)
  | char {c d : Char} {p t : List Char} (hc : c ≠ '%' ∧ c ≠ '_' ∧ c ≠ '\\') (hsame : same c d) (h : Like same p t) :
      Like same (c :: p) (d :: t)

/-- Without the characters that mean something else. -/
def IsPlain (text : List Char) : Prop := ∀ c ∈ text, c ≠ '%' ∧ c ≠ '_' ∧ c ≠ '\\'

/-- The first text stands in the second. -/
def Contains (same : Char → Char → Prop) (part text : List Char) : Prop :=
  ∃ before inner after : List Char, text = before ++ inner ++ after ∧ List.Forall₂ same part inner

section
variable {same : Char → Char → Prop}

theorem like_percent {p t : List Char} : Like same ('%' :: p) t ↔ ∃ skipped rest, t = skipped ++ rest ∧ Like same p rest := by
  constructor
  · intro h
    cases h with
    | percent skipped h => exact ⟨skipped, _, rfl, h⟩
    | char hc => exact absurd rfl hc.1
  · rintro ⟨skipped, rest, rfl, h⟩
    exact .percent skipped h

theorem like_nil {t : List Char} : Like same [] t ↔ t = [] := by
  constructor
  · intro h
    cases h
    rfl
  · rintro rfl
    exact .nil

theorem like_char {c : Char} (hc : c ≠ '%' ∧ c ≠ '_' ∧ c ≠ '\\') {p t : List Char} :
    Like same (c :: p) t ↔ ∃ d rest, t = d :: rest ∧ same c d ∧ Like same p rest := by
  constructor
  · intro h
    cases h with
    | percent => exact absurd rfl hc.1
    | underscore => exact absurd rfl hc.2.1
    | escaped => exact absurd rfl hc.2.2
    | char _ hsame h => exact ⟨_, _, rfl, hsame, h⟩
  · rintro ⟨d, rest, rfl, hsame, h⟩
    exact .char hc hsame h

/-- A plain text in front of a pattern matches itself. -/
theorem like_append {text p : List Char} (hplain : IsPlain text) : ∀ {t : List Char},
    Like same (text ++ p) t ↔ ∃ inner rest, t = inner ++ rest ∧ List.Forall₂ same text inner ∧ Like same p rest := by
  induction text with
  | nil =>
    intro t
    constructor
    · intro h
      exact ⟨[], t, rfl, .nil, h⟩
    · rintro ⟨inner, rest, rfl, hinner, h⟩
      cases hinner
      exact h
  | cons c text ih =>
    obtain ⟨hc, htext⟩ := List.forall_mem_cons.mp hplain
    intro t
    rw [List.cons_append, like_char hc]
    constructor
    · rintro ⟨d, t, rfl, hsame, h⟩
      obtain ⟨inner, rest, rfl, hinner, hrest⟩ := (ih htext).mp h
      exact ⟨d :: inner, rest, rfl, .cons hsame hinner, hrest⟩
    · rintro ⟨inner, rest, rfl, hinner, h⟩
      cases hinner with
      | cons hsame hinner => exact ⟨_, _, rfl, hsame, (ih htext).mpr ⟨_, rest, rfl, hinner, h⟩⟩

/-- **Between percent signs a plain text is looked for.** -/
theorem like_contains {text t : List Char} (hplain : IsPlain text) : Like same ('%' :: (text ++ ['%'])) t ↔ Contains same text t := by
  rw [like_percent]
  constructor
  · rintro ⟨before, rest, rfl, h⟩
    obtain ⟨inner, rest, rfl, hinner, h⟩ := (like_append hplain).mp h
    obtain ⟨after, nothing, rfl, hnothing⟩ := like_percent.mp h
    rw [like_nil.mp hnothing, List.append_nil]
    exact ⟨before, inner, after, by rw [List.append_assoc], hinner⟩
  · rintro ⟨before, inner, after, rfl, hinner⟩
    refine ⟨before, inner ++ after, by rw [List.append_assoc], (like_append hplain).mpr ⟨inner, after, rfl, hinner, ?_⟩⟩
    exact like_percent.mpr ⟨after, [], (List.append_nil after).symm, .nil⟩

end

end Patterns
