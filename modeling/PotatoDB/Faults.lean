import PotatoDB.Oplog

/-!
# Operations that fail

A run in which an operation fails does nothing after it and ends with its error. This is the run
of a program that passes every failure on.
-/

namespace Oplog.Prog

open Machine (apply)

section
variable {σ ο ε α β : Type}

def interrupted (fails : ο → Option ε) (p : Prog σ ο ε α) : Prog σ ο ε α := fun s =>
  match (p s).2.findSome? fails with
  | none => p s
  | some e => (.error e, (p s).2.takeWhile fun o => (fails o).isNone)

variable {fails : ο → Option ε}

theorem takeWhile_none : ∀ {os : List ο}, os.findSome? fails = none → (os.takeWhile fun o => (fails o).isNone) = os
  | [], _ => rfl
  | o :: os, h => by
    rw [List.findSome?_cons] at h
    cases ho : fails o with
    | some e =>
      rw [ho] at h
      cases h
    | none =>
      rw [ho] at h
      rw [List.takeWhile_cons_of_pos (by simp [ho]), takeWhile_none h]

theorem takeWhile_append_some {e : ε} (ps : List ο) : ∀ {os : List ο}, os.findSome? fails = some e →
    ((os ++ ps).takeWhile fun o => (fails o).isNone) = os.takeWhile fun o => (fails o).isNone
  | [], h => by cases h
  | o :: os, h => by
    rw [List.findSome?_cons] at h
    rw [List.cons_append]
    cases ho : fails o with
    | some e' => rw [List.takeWhile_cons_of_neg (by simp [ho]), List.takeWhile_cons_of_neg (by simp [ho])]
    | none =>
      rw [ho] at h
      rw [List.takeWhile_cons_of_pos (by simp [ho]), List.takeWhile_cons_of_pos (by simp [ho]),
        takeWhile_append_some ps h]

/-- The interruption of a sequence is that of its parts. -/
theorem interrupted_bind [Machine σ ο] (p : Prog σ ο ε α) (f : α → Prog σ ο ε β) :
    (p >>= f).interrupted fails = p.interrupted fails >>= fun a => (f a).interrupted fails := by
  funext s
  show interrupted fails (bind p f) s = bind (interrupted fails p) (fun a => (f a).interrupted fails) s
  unfold interrupted bind
  rcases hp : p s with ⟨r, os⟩
  cases r with
  | error e =>
    cases hf : os.findSome? fails <;> simp [hp, hf]
  | ok a =>
    rcases hfa : f a (after s os) with ⟨r', ps⟩
    cases hf : os.findSome? fails with
    | some e => simp [hp, hfa, hf, takeWhile_append_some ps hf]
    | none =>
      have hall : ∀ o ∈ os, (fails o).isNone = true := fun o ho => by
        simpa using List.findSome?_eq_none_iff.mp hf o ho
      cases hps : ps.findSome? fails with
      | none => simp [hp, hfa, hf, hps]
      | some e => simp [hp, hfa, hf, hps, List.takeWhile_append_of_pos hall]

theorem interrupted_readOnly {p : Prog σ ο ε α} (h : ReadOnly p) : p.interrupted fails = p := by
  funext s
  unfold interrupted
  rw [show (p s).2 = [] from h s]
  rfl

@[simp] theorem interrupted_pure [Machine σ ο] (a : α) : (pure a : Prog σ ο ε α).interrupted fails = pure a := rfl

@[simp] theorem interrupted_throw [Machine σ ο] (e : ε) : (throw e : Prog σ ο ε α).interrupted fails = throw e := rfl

@[simp] theorem interrupted_check (r : Except ε α) : (check r : Prog σ ο ε α).interrupted fails = check r := rfl

@[simp] theorem interrupted_get : (get : Prog σ ο ε σ).interrupted fails = get := rfl

theorem interrupted_emit [Machine σ ο] (o : ο) :
    (emit o : Prog σ ο ε Unit).interrupted fails = (fails o).elim (emit o) throw := by
  funext s
  unfold interrupted emit
  cases ho : fails o with
  | none =>
    simp only [List.findSome?_cons, ho, List.findSome?_nil]
    rfl
  | some e =>
    simp only [List.findSome?_cons, ho]
    rw [List.takeWhile_cons_of_neg (by simp [ho])]
    rfl

end

/-! ## How a run ends -/

section
variable {σ ο ε α : Type} [Machine σ ο] {s : σ} {p : Prog σ ο ε α} {Q : Except ε α → σ → Prop}

/-- What holds of the result and the final state of every run. -/
abbrev Ends (p : Prog σ ο ε α) (s : σ) (Q : Except ε α → σ → Prop) : Prop := wp (fun _ _ => True) p s Q

theorem ends_iff : Ends p s Q ↔ Q (p.result s) (p.final s) :=
  ⟨fun h => h along_true, fun h _ => h⟩

end

end Oplog.Prog
