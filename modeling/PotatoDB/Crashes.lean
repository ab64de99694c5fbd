import PotatoDB.Oplog

/-!
# Programs that are cut short

A program can be stopped behind any of its operations. A crash invariant holds in every state that it is stopped in; where
what is left is reset and the program started again, any number of times, invariants that count the starts hold of what is
left in the end.
-/

namespace Oplog

open Machine (apply)

variable {σ ο ε α β : Type} [Machine σ ο]

namespace Prog

/-- `I` holds wherever the program is stopped. -/
def Throughout (I : σ → Prop) (p : Prog σ ο ε α) (s : σ) : Prop := ∀ os, os <+: p.ops s → I (after s os)

section
variable {I J : σ → Prop} {p : Prog σ ο ε α} {f : α → Prog σ ο ε β} {s : σ}

theorem Throughout.mono (h : Throughout I p s) (hij : ∀ t, I t → J t) : Throughout J p s := fun os hos => hij _ (h os hos)

theorem Throughout.start (h : Throughout I p s) : I s := h [] List.nil_prefix

theorem Throughout.final (h : Throughout I p s) : I (p.final s) := h _ (List.prefix_refl _)

theorem ReadOnly.throughout (hp : ReadOnly p) (h : I s) : Throughout I p s := by
  intro os hos
  have hops : p.ops s = [] := hp s
  rw [hops, List.prefix_nil] at hos
  rw [hos]
  exact h

theorem throughout_pure {a : α} (h : I s) : Throughout I (pure a : Prog σ ο ε α) s := (readOnly_pure a).throughout h

theorem throughout_throw {e : ε} (h : I s) : Throughout I (throw e : Prog σ ο ε α) s := (readOnly_throw e).throughout h

theorem throughout_emit {o : ο} (h : I s) (h' : I (apply s o)) : Throughout I (emit o : Prog σ ο ε Unit) s := by
  intro os hos
  have hops : (emit o : Prog σ ο ε Unit).ops s = [o] := rfl
  rw [hops] at hos
  rcases List.prefix_cons_iff.mp hos with rfl | ⟨rest, rfl, hrest⟩
  · exact h
  · rw [List.prefix_nil.mp hrest]
    exact h'

theorem throughout_bind (hp : Throughout I p s) (hf : Yields p s fun a t => Throughout I (f a) t) :
    Throughout I (p >>= f) s := by
  intro os hos
  rw [ops_bind] at hos
  cases hr : p.result s with
  | error e =>
    rw [hr] at hos
    exact hp os hos
  | ok a =>
    rw [hr] at hos
    obtain ⟨rest, hrest⟩ := hos
    rcases List.append_eq_append_iff.mp hrest with ⟨left, hleft, -⟩ | ⟨more, hmore, hops⟩
    · exact hp os ⟨left, hleft.symm⟩
    · rw [hmore, after_append]
      exact hf a hr more ⟨rest, hops.symm⟩

/-- An attempted program whose failure is dealt with. -/
theorem throughout_attempt_bind {f : Except ε α → Prog σ ο ε β} (hp : Throughout I p s)
    (hok : Yields p s fun a t => Throughout I (f (.ok a)) t)
    (herr : ∀ e, p.result s = .error e → Throughout I (f (.error e)) (p.final s)) : Throughout I (p.attempt >>= f) s := by
  refine throughout_bind hp (yields_attempt.mpr ?_)
  cases h : p.result s with
  | error e => exact herr e h
  | ok a => exact hok a h

/-- What every operation of a kind keeps holds wherever a program of such operations is stopped. -/
theorem Emits.throughout {P : ο → Prop} (hp : Emits P p) (h : ∀ t o, P o → I t → I (apply t o)) (hs : I s) :
    Throughout I p s := by
  intro os hos
  have hafter : ∀ (os : List ο) (t : σ), (∀ o ∈ os, P o) → I t → I (after t os) := by
    intro os
    induction os with
    | nil => exact fun _ _ ht => ht
    | cons o os ih =>
      intro t hos ht
      exact ih _ (fun o' ho' => hos o' (List.mem_cons_of_mem _ ho')) (h t o (hos o List.mem_cons_self) ht)
  exact hafter os s (fun o ho => hp s o (hos.subset ho)) hs

/-- A program of operations that keep `J` before one from whose states `J` holds of. -/
theorem throughout_bind_keeps {P : ο → Prop} (hp : Emits P p) (h : ∀ t o, P o → J t → J (apply t o)) (hij : ∀ t, J t → I t)
    (hs : J s) (hf : ∀ a t, p.result s = .ok a → J t → t = p.final s → Throughout I (f a) t) : Throughout I (p >>= f) s := by
  have hthrough : Throughout J p s := hp.throughout h hs
  refine throughout_bind (hthrough.mono hij) fun a ha => ?_
  exact hf a _ ha (hthrough (p.ops s) (List.prefix_refl _)) rfl

theorem throughout_get_bind {f : σ → Prog σ ο ε β} (h : Throughout I (f s) s) : Throughout I (get >>= f) s :=
  throughout_bind (readOnly_get.throughout h.start) (yields_get.mpr h)

theorem throughout_emit_bind {o : ο} {f : Unit → Prog σ ο ε β} (hs : I s) (h : Throughout I (f ()) (apply s o)) :
    Throughout I (emit o >>= f) s :=
  throughout_bind (throughout_emit hs h.start) (yields_emit.mpr h)

theorem throughout_check_bind {r : Except ε α} (hs : I s) (h : ∀ a, r = .ok a → Throughout I (f a) s) :
    Throughout I (check r >>= f) s :=
  throughout_bind ((readOnly_check r).throughout hs) (yields_check.mpr h)

end

/-! ## Starting again -/

/-- The program is started and cut short that many times, each time on what the last one has left. -/
inductive Crashes (reset : σ → σ) (p : Prog σ ο ε α) (s : σ) : Nat → σ → Prop where
  | none : Crashes reset p s 0 s
  | again {n : Nat} {t : σ} {os : List ο} (h : Crashes reset p s n t) (hos : os <+: p.ops (reset t)) :
      Crashes reset p s (n + 1) (after (reset t) os)

/-- An invariant that counts the starts. -/
theorem Crashes.invariant {reset : σ → σ} {p : Prog σ ο ε α} {s t : σ} {n : Nat} {J : Nat → σ → Prop} (h : Crashes reset p s n t)
    (hs : J 0 s) (hstep : ∀ n t, J n t → Throughout (J (n + 1)) p (reset t)) : J n t := by
  induction h with
  | none => exact hs
  | again h hos ih => exact hstep _ _ ih _ hos

end Prog

end Oplog
