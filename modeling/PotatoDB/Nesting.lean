import Mathlib

/-!
# Nested interpreters

An interpreter answers a text by one step, which may ask an interpreter for the answers to other
texts. Where it only asks for texts of a lower rank, the nesting has a depth.
-/

namespace Nesting

variable {τ ε σ ρ α β : Type}

/-- The state in which a program stops. -/
def stop : EStateM.Result ε σ α → σ
  | .ok _ s => s
  | .error _ s => s

/-- A program that fails answers with its failure. -/
def attempt (p : EStateM ε σ α) : EStateM ε σ (Except ε α) := fun s =>
  match p s with
  | .ok a t => .ok (.ok a) t
  | .error e t => .ok (.error e) t

def each (f : α → EStateM ε σ Unit) : List α → EStateM ε σ Unit
  | [] => pure ()
  | x :: xs => do
    f x
    each f xs

/-- Steps inside of each other, to a depth. -/
def nested (step : (τ → EStateM ε σ ρ) → τ → EStateM ε σ ρ) : Nat → (τ → EStateM ε σ ρ) → τ → EStateM ε σ ρ
  | 0, below => below
  | n + 1, below => step (nested step n below)

/-- Nothing below the depth is asked. -/
def Settles (step : (τ → EStateM ε σ ρ) → τ → EStateM ε σ ρ) (n : Nat) (t : τ) (s : σ) : Prop :=
  ∀ below below', nested step n below t s = nested step n below' t s

/-- Two programs do the same in the states with the invariant, and keep it. -/
def Alike (Inv : σ → Prop) (p q : EStateM ε σ α) : Prop := ∀ s, Inv s → p s = q s ∧ Inv (stop (p s))

section
variable {Inv : σ → Prop}

theorem alike_pure (a : α) : Alike Inv (pure a : EStateM ε σ α) (pure a) := fun _ h => ⟨rfl, h⟩

theorem alike_throw (e : ε) : Alike Inv (throw e : EStateM ε σ α) (throw e) := fun _ h => ⟨rfl, h⟩

theorem alike_of_keeps {p : EStateM ε σ α} (h : ∀ s, Inv s → Inv (stop (p s))) : Alike Inv p p := fun s hs => ⟨rfl, h s hs⟩

theorem Alike.bind {p q : EStateM ε σ α} {f g : α → EStateM ε σ β} (h : Alike Inv p q) (hf : ∀ a, Alike Inv (f a) (g a)) :
    Alike Inv (p >>= f) (q >>= g) := by
  intro s hs
  obtain ⟨heq, hinv⟩ := h s hs
  show EStateM.bind p f s = EStateM.bind q g s ∧ Inv (stop (EStateM.bind p f s))
  unfold EStateM.bind
  rw [← heq]
  cases hp : p s with
  | ok a t =>
    rw [hp] at hinv
    exact hf a t hinv
  | error e t =>
    rw [hp] at hinv
    exact ⟨rfl, hinv⟩

theorem Alike.get_bind {f g : σ → EStateM ε σ α} (h : ∀ s, Inv s → Alike Inv (f s) (g s)) :
    Alike Inv (get >>= f) (get >>= g) := fun s hs => h s hs s hs

theorem Alike.attempt {p q : EStateM ε σ α} (h : Alike Inv p q) : Alike Inv (attempt p) (attempt q) := by
  intro s hs
  obtain ⟨heq, hinv⟩ := h s hs
  unfold Nesting.attempt
  rw [← heq]
  cases hp : p s with
  | ok a t =>
    rw [hp] at hinv
    exact ⟨rfl, hinv⟩
  | error e t =>
    rw [hp] at hinv
    exact ⟨rfl, hinv⟩

theorem alike_each {f g : α → EStateM ε σ Unit} : ∀ {xs : List α}, (∀ x ∈ xs, Alike Inv (f x) (g x)) →
    Alike Inv (each f xs) (each g xs)
  | [], _ => alike_pure _
  | x :: _, h => (h x List.mem_cons_self).bind fun _ => alike_each fun y hy => h y (List.mem_cons_of_mem _ hy)

end

section
variable {step : (τ → EStateM ε σ ρ) → τ → EStateM ε σ ρ}

theorem nested_add (step : (τ → EStateM ε σ ρ) → τ → EStateM ε σ ρ) (below : τ → EStateM ε σ ρ) :
    ∀ n k, nested step (n + k) below = nested step n (nested step k below)
  | 0, k => by rw [Nat.zero_add, nested]
  | n + 1, k => by rw [Nat.succ_add, nested, nested_add step below n k, nested]

theorem Settles.add {n : Nat} {t : τ} {s : σ} (h : Settles step n t s) (k : Nat) (below : τ → EStateM ε σ ρ) :
    nested step (n + k) below t s = nested step n below t s := by
  rw [nested_add]
  exact h _ _

theorem alike_nested {Inv : σ → Prop} {Text : τ → Prop} {rank : τ → Nat}
    (hstep : ∀ e e' t, Text t → (∀ u, Text u → rank u < rank t → Alike Inv (e u) (e' u)) → Alike Inv (step e t) (step e' t))
    (below below' : τ → EStateM ε σ ρ) : ∀ n t, Text t → rank t < n → Alike Inv (nested step n below t) (nested step n below' t)
  | 0, _, _, h => absurd h (Nat.not_lt_zero _)
  | n + 1, t, ht, h => hstep _ _ t ht fun u hu hlt =>
    alike_nested hstep below below' n u hu (Nat.lt_of_lt_of_le hlt (Nat.le_of_lt_succ h))

/-- A step that asks only for texts of a lower rank settles one level deeper than the rank. -/
theorem settles_of_rank {Inv : σ → Prop} {Text : τ → Prop} {rank : τ → Nat}
    (hstep : ∀ e e' t, Text t → (∀ u, Text u → rank u < rank t → Alike Inv (e u) (e' u)) → Alike Inv (step e t) (step e' t))
    {t : τ} {s : σ} (ht : Text t) (hs : Inv s) : Settles step (rank t + 1) t s := fun below below' =>
  (alike_nested hstep below below' _ t ht (Nat.lt_succ_self _) s hs).1

end

end Nesting
