import Mathlib

/-!
# Quoted texts

A text between quotes with its own quotes doubled is read back whatever follows it, as long as what
follows does not start with a quote. Quoted texts and texts without quotes can then be joined by a
separator and taken apart again.
-/

namespace Quoting

variable {α : Type} [DecidableEq α] (quote separator : α)

def double (s : List α) : List α := s.flatMap fun c => if c = quote then [c, c] else [c]

def enclose (s : List α) : List α := quote :: (double quote s ++ [quote])

/-- The text up to the closing quote, and what follows. -/
def readBody : List α → Option (List α × List α)
  | [] => none
  | [c] => if c = quote then some ([], []) else none
  | c :: d :: cs =>
    if c = quote then
      if d = quote then (readBody cs).map fun p => (quote :: p.1, p.2) else some ([], d :: cs)
    else (readBody (d :: cs)).map fun p => (c :: p.1, p.2)

/-- What follows a quoted text. -/
def Clear (rest : List α) : Prop := rest.head? ≠ some quote

variable {quote separator}

theorem readBody_quote {rest : List α} (h : Clear quote rest) : readBody quote (quote :: rest) = some ([], rest) := by
  cases rest with
  | nil => rw [readBody, if_pos rfl]
  | cons d cs => rw [readBody, if_pos rfl, if_neg fun hd => h (congrArg some hd)]

theorem readBody_double {rest : List α} (h : Clear quote rest) : ∀ s : List α,
    readBody quote (double quote s ++ quote :: rest) = some (s, rest)
  | [] => readBody_quote h
  | c :: s => by
    have ih := readBody_double h s
    rw [double, List.flatMap_cons]
    by_cases hc : c = quote
    · rw [if_pos hc, List.append_assoc, List.cons_append, List.singleton_append, readBody, if_pos hc, if_pos hc]
      rw [show (s.flatMap fun c => if c = quote then [c, c] else [c]) = double quote s from rfl, ih, hc]
      rfl
    · rw [if_neg hc, List.append_assoc, List.singleton_append]
      rw [show (s.flatMap fun c => if c = quote then [c, c] else [c]) = double quote s from rfl]
      obtain ⟨d, cs, hd⟩ : ∃ d cs, double quote s ++ quote :: rest = d :: cs :=
        List.exists_cons_of_ne_nil (by simp)
      rw [hd] at ih ⊢
      rw [readBody, if_neg hc, ih]
      rfl

theorem enclose_append_inj {s s' rest rest' : List α} (h : Clear quote rest) (h' : Clear quote rest')
    (he : enclose quote s ++ rest = enclose quote s' ++ rest') : s = s' ∧ rest = rest' := by
  unfold enclose at he
  rw [List.cons_append, List.cons_append, List.append_assoc, List.append_assoc] at he
  have hread := readBody_double h s
  rw [show double quote s ++ quote :: rest = double quote s' ++ quote :: rest' from (List.cons.inj he).2,
    readBody_double h' s'] at hread
  exact Prod.mk.inj (Option.some.inj hread.symm)

theorem enclose_inj {s s' : List α} (h : enclose quote s = enclose quote s') : s = s' :=
  (enclose_append_inj (show Clear quote [] from nofun) (show Clear quote [] from nofun) (by rw [h])).1

theorem double_of_notMem {s : List α} (h : quote ∉ s) : double quote s = s := by
  induction s with
  | nil => rfl
  | cons c s ih =>
    rw [List.mem_cons, not_or] at h
    rw [double, List.flatMap_cons, if_neg (Ne.symm h.1), List.singleton_append]
    exact congrArg (c :: ·) (ih h.2)

/-! ## Joined texts -/

variable (quote separator)

/-- A quoted text, or a text that needs no quotes. -/
def IsToken (t : List α) : Prop := (∃ s, t = enclose quote s) ∨ quote ∉ t ∧ separator ∉ t

def joined : List (List α) → List α
  | [] => []
  | [t] => t
  | t :: ts => t ++ separator :: joined ts

variable {quote separator}

omit [DecidableEq α] in
theorem append_separator_inj : ∀ {t t' rest rest' : List α}, separator ∉ t → separator ∉ t' →
    t ++ separator :: rest = t' ++ separator :: rest' → t = t' ∧ rest = rest'
  | [], [], _, _, _, _, h => ⟨rfl, (List.cons.inj h).2⟩
  | [], c :: _, _, _, _, h', h => absurd (List.cons.inj h).1 fun he => h' (he ▸ List.mem_cons_self)
  | c :: _, [], _, _, ht, _, h => absurd (List.cons.inj h).1 fun he => ht (he ▸ List.mem_cons_self)
  | c :: t, c' :: t', _, _, ht, ht', h => by
    rw [List.cons_append, List.cons_append, List.cons.injEq] at h
    obtain ⟨rfl, hrest⟩ := append_separator_inj (fun hin => ht (List.mem_cons_of_mem _ hin))
      (fun hin => ht' (List.mem_cons_of_mem _ hin)) h.2
    exact ⟨by rw [h.1], hrest⟩

theorem enclose_ne_plain (hne : separator ≠ quote) {s t rest rest' : List α} (ht : quote ∉ t) :
    enclose quote s ++ separator :: rest ≠ t ++ separator :: rest' := by
  intro h
  unfold enclose at h
  cases t with
  | nil => exact hne (List.cons.inj h).1.symm
  | cons c t => exact ht ((List.cons.inj h).1 ▸ List.mem_cons_self)

theorem token_append_inj (hne : separator ≠ quote) {t t' rest rest' : List α} (ht : IsToken quote separator t)
    (ht' : IsToken quote separator t') (h : t ++ separator :: rest = t' ++ separator :: rest') : t = t' ∧ rest = rest' := by
  have hclear : ∀ r : List α, Clear quote (separator :: r) := fun r he => hne (Option.some.inj he)
  cases ht with
  | inl hs =>
    obtain ⟨s, rfl⟩ := hs
    cases ht' with
    | inl hs' =>
      obtain ⟨s', rfl⟩ := hs'
      obtain ⟨rfl, hrest⟩ := enclose_append_inj (hclear rest) (hclear rest') h
      exact ⟨rfl, (List.cons.inj hrest).2⟩
    | inr hp => exact absurd h (enclose_ne_plain hne hp.1)
  | inr hp =>
    cases ht' with
    | inl hs' =>
      obtain ⟨s', rfl⟩ := hs'
      exact absurd h.symm (enclose_ne_plain hne hp.1)
    | inr hp' => exact append_separator_inj hp.2 hp'.2 h

/-- Joined texts are taken apart in one way. -/
theorem joined_inj (hne : separator ≠ quote) : ∀ {ts ts' : List (List α)}, ts.length = ts'.length →
    (∀ t ∈ ts, IsToken quote separator t) → (∀ t ∈ ts', IsToken quote separator t) →
    joined separator ts = joined separator ts' → ts = ts'
  | [], [], _, _, _, _ => rfl
  | [t], [t'], _, _, _, h => congrArg (fun t => [t]) h
  | t :: u :: ts, t' :: u' :: ts', hl, ht, ht', h => by
    obtain ⟨rfl, hrest⟩ := token_append_inj hne (ht t List.mem_cons_self) (ht' t' List.mem_cons_self) h
    have := joined_inj hne (Nat.succ.inj hl) (fun v hv => ht v (List.mem_cons_of_mem _ hv))
      (fun v hv => ht' v (List.mem_cons_of_mem _ hv)) hrest
    rw [this]

end Quoting
