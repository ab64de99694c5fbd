import Mathlib

/-!
# Programs that leave a log of operations

A program reads the state of a machine and answers with a result and the operations it
made, in order. The state it leaves, and every state in which it could be stopped, follow
from the operations. Rules for assertions about the result and the final state, under a
condition that each operation meets where it is made.
-/

namespace Oplog

/-- The machine a program drives: what one operation does to a state. -/
class Machine (σ : Type) (ο : outParam Type) where
  apply : σ → ο → σ

open Machine (apply)

section
variable {σ ο : Type} [Machine σ ο]

/-- The state after a list of operations. -/
def after (s : σ) (os : List ο) : σ := os.foldl apply s

@[simp] theorem after_nil (s : σ) : after s ([] : List ο) = s := rfl

@[simp] theorem after_cons (s : σ) (o : ο) (os : List ο) : after s (o :: os) = after (apply s o) os := rfl

@[simp] theorem after_append (s : σ) (os ps : List ο) : after s (os ++ ps) = after (after s os) ps :=
  List.foldl_append

/-- Each operation meets the condition in the state before it. -/
def Along (C : σ → ο → Prop) : σ → List ο → Prop
  | _, [] => True
  | s, o :: os => C s o ∧ Along C (apply s o) os

@[simp] theorem along_nil (C : σ → ο → Prop) (s : σ) : Along C s [] := trivial

@[simp] theorem along_cons {C : σ → ο → Prop} {s : σ} {o : ο} {os : List ο} :
    Along C s (o :: os) ↔ C s o ∧ Along C (apply s o) os := Iff.rfl

@[simp] theorem along_append {C : σ → ο → Prop} : ∀ {s : σ} {os ps : List ο},
    Along C s (os ++ ps) ↔ Along C s os ∧ Along C (after s os) ps
  | _, [], _ => by simp
  | _, o :: os, ps => by
    rw [List.cons_append, along_cons, along_cons, along_append, after_cons, and_assoc]

theorem along_true : ∀ {s : σ} {os : List ο}, Along (fun _ _ => True) s os
  | _, [] => trivial
  | _, _ :: _ => ⟨trivial, along_true⟩

instance decidableAlong {C : σ → ο → Prop} [∀ s o, Decidable (C s o)] :
    (s : σ) → (os : List ο) → Decidable (Along C s os)
  | _, [] => isTrue trivial
  | s, o :: os =>
    have : Decidable (Along C (apply s o) os) := decidableAlong (apply s o) os
    inferInstanceAs (Decidable (C s o ∧ Along C (apply s o) os))

theorem along_of_forall {C : σ → ο → Prop} : ∀ {os : List ο} {s : σ}, (∀ o ∈ os, ∀ s, C s o) → Along C s os
  | [], _, _ => trivial
  | o :: _, s, h => ⟨h o List.mem_cons_self s, along_of_forall fun o' ho' => h o' (List.mem_cons_of_mem _ ho')⟩

theorem Along.mono {C D : σ → ο → Prop} (h : ∀ s o, C s o → D s o) : ∀ {s : σ} {os : List ο},
    Along C s os → Along D s os
  | _, [], _ => trivial
  | s, o :: _, hc => ⟨h s o hc.1, Along.mono h hc.2⟩

/-- **An invariant of every operation is an invariant of every run.** -/
theorem Along.inv {C : σ → ο → Prop} {I : σ → Prop} (h : ∀ s o, I s → C s o → I (apply s o)) :
    ∀ {s : σ} {os : List ο}, I s → Along C s os → I (after s os)
  | _, [], hi, _ => hi
  | s, o :: os, hi, hc =>
    show I (after (apply s o) os) from Along.inv h (h s o hi hc.1) hc.2

end

/-! ## Programs -/

/-- The result and the operations made. -/
def Prog (σ ο ε α : Type) : Type := σ → Except ε α × List ο

namespace Prog

section
variable {σ ο ε α β : Type}

/-- Reads the state. -/
def get : Prog σ ο ε σ := fun s => (.ok s, [])

/-- Makes one operation. -/
def emit (o : ο) : Prog σ ο ε Unit := fun _ => (.ok (), [o])

def check (r : Except ε α) : Prog σ ο ε α := fun _ => (r, [])

/-- Runs a program whose failure is not passed on. -/
def attempt (p : Prog σ ο ε α) : Prog σ ο ε (Except ε α) := fun s =>
  match p s with
  | (r, os) => (.ok r, os)

def bind [Machine σ ο] (p : Prog σ ο ε α) (f : α → Prog σ ο ε β) : Prog σ ο ε β := fun s =>
  match p s with
  | (.ok a, os) =>
    match f a (after s os) with
    | (r, ps) => (r, os ++ ps)
  | (.error e, os) => (.error e, os)

instance [Machine σ ο] : Monad (Prog σ ο ε) where
  pure a := fun _ => (.ok a, [])
  bind := bind

instance [Machine σ ο] : MonadExceptOf ε (Prog σ ο ε) where
  throw e := fun _ => (.error e, [])
  tryCatch p handle := fun s =>
    match p s with
    | (.ok a, os) => (.ok a, os)
    | (.error e, os) =>
      match handle e (after s os) with
      | (r, ps) => (r, os ++ ps)

/-- Runs the program on each element in turn. -/
def each [Machine σ ο] (f : α → Prog σ ο ε Unit) : List α → Prog σ ο ε Unit
  | [] => pure ()
  | x :: xs => do f x; each f xs

def result (p : Prog σ ο ε α) (s : σ) : Except ε α := (p s).1

def ops (p : Prog σ ο ε α) (s : σ) : List ο := (p s).2

@[simp] theorem result_check {s : σ} (r : Except ε α) : (check r : Prog σ ο ε α).result s = r := rfl

@[simp] theorem result_get {s : σ} : (get : Prog σ ο ε σ).result s = .ok s := rfl

@[simp] theorem result_emit {s : σ} (o : ο) : (emit o : Prog σ ο ε Unit).result s = .ok () := rfl

/-- The program makes no operation. -/
def ReadOnly (p : Prog σ ο ε α) : Prop := ∀ s, p.ops s = []

theorem readOnly_check (r : Except ε α) : ReadOnly (check r : Prog σ ο ε α) := fun _ => rfl

theorem readOnly_get : ReadOnly (get : Prog σ ο ε σ) := fun _ => rfl

/-- Every operation the program can make is of a kind. -/
def Emits (P : ο → Prop) (p : Prog σ ο ε α) : Prop := ∀ s, ∀ o ∈ p.ops s, P o

section
variable {P P' : ο → Prop} {p : Prog σ ο ε α}

theorem Emits.mono (h : ∀ o, P o → P' o) (hp : Emits P p) : Emits P' p := fun s o ho => h o (hp s o ho)

theorem Emits.attempt (hp : Emits P p) : Emits P p.attempt := hp

theorem ReadOnly.emits (h : ReadOnly p) : Emits P p := by
  intro s o ho
  rw [h s] at ho
  exact absurd ho List.not_mem_nil

theorem emits_check (r : Except ε α) : Emits P (check r : Prog σ ο ε α) := (readOnly_check r).emits

theorem emits_get : Emits P (get : Prog σ ο ε σ) := readOnly_get.emits

theorem emits_emit {o : ο} (h : P o) : Emits P (emit o : Prog σ ο ε Unit) := by
  intro _ o' ho
  rw [List.mem_singleton.mp ho]
  exact h

end

variable [Machine σ ο]

/-- The state a program leaves. -/
def final (p : Prog σ ο ε α) (s : σ) : σ := after s (p.ops s)

/-! ## Results -/

section
variable {p : Prog σ ο ε α} {f : α → Prog σ ο ε β} {s : σ}

@[simp] theorem result_pure (a : α) : (pure a : Prog σ ο ε α).result s = .ok a := rfl

@[simp] theorem result_throw (e : ε) : (throw e : Prog σ ο ε α).result s = .error e := rfl

@[simp] theorem final_pure (a : α) : (pure a : Prog σ ο ε α).final s = s := rfl

@[simp] theorem final_throw (e : ε) : (throw e : Prog σ ο ε α).final s = s := rfl

@[simp] theorem final_check (r : Except ε α) : (check r : Prog σ ο ε α).final s = s := rfl

@[simp] theorem final_get : (get : Prog σ ο ε σ).final s = s := rfl

@[simp] theorem final_emit (o : ο) : (emit o : Prog σ ο ε Unit).final s = apply s o := rfl

theorem result_bind : (p >>= f).result s =
    match p.result s with
    | .ok a => (f a).result (p.final s)
    | .error e => .error e := by
  show (bind p f).result s = _
  unfold result final ops bind
  rcases p s with ⟨r, os⟩
  cases r <;> rfl

theorem final_bind : (p >>= f).final s =
    match p.result s with
    | .ok a => (f a).final (p.final s)
    | .error _ => p.final s := by
  show (bind p f).final s = _
  unfold result final ops bind
  rcases p s with ⟨r, os⟩
  cases r <;> simp

theorem ops_bind : (p >>= f).ops s =
    match p.result s with
    | .ok a => p.ops s ++ (f a).ops (p.final s)
    | .error _ => p.ops s := by
  show (bind p f).ops s = _
  unfold result final ops bind
  rcases p s with ⟨r, os⟩
  cases r <;> rfl

theorem bind_pure_left (a : α) (f : α → Prog σ ο ε β) : pure a >>= f = f a := rfl

theorem bind_bind {γ : Type} (p : Prog σ ο ε α) (f : α → Prog σ ο ε β) (g : β → Prog σ ο ε γ) :
    p >>= f >>= g = p >>= fun a => f a >>= g := by
  funext s
  refine Prod.ext ?_ ?_
  · show (p >>= f >>= g).result s = (p >>= fun a => f a >>= g).result s
    rw [result_bind, result_bind, result_bind, final_bind]
    cases p.result s with
    | error e => rfl
    | ok a => exact result_bind.symm
  · show (p >>= f >>= g).ops s = (p >>= fun a => f a >>= g).ops s
    rw [ops_bind, ops_bind, ops_bind, result_bind, final_bind]
    cases p.result s with
    | error e => rfl
    | ok a =>
      dsimp only
      rw [ops_bind]
      cases (f a).result (p.final s) with
      | error e => rfl
      | ok b => exact List.append_assoc _ _ _

/-- The program ends without an error. -/
def Succeeds (p : Prog σ ο ε α) (s : σ) : Prop := ∃ a, p.result s = .ok a

instance decidableSucceeds (p : Prog σ ο ε α) (s : σ) : Decidable (Succeeds p s) :=
  match h : p.result s with
  | .ok a => isTrue ⟨a, h⟩
  | .error _ => isFalse fun ⟨_, h'⟩ => nomatch h.symm.trans h'

@[simp] theorem succeeds_pure (a : α) : Succeeds (pure a : Prog σ ο ε α) s := ⟨a, rfl⟩

@[simp] theorem not_succeeds_throw (e : ε) : ¬ Succeeds (throw e : Prog σ ο ε α) s := by
  rintro ⟨_, h⟩
  cases h

theorem succeeds_bind :
    Succeeds (p >>= f) s ↔ ∃ a, p.result s = .ok a ∧ Succeeds (f a) (p.final s) := by
  unfold Succeeds
  rw [result_bind]
  cases p.result s <;> simp

theorem succeeds_bind_of_ok {a : α} (h : p.result s = .ok a) :
    Succeeds (p >>= f) s ↔ Succeeds (f a) (p.final s) := by
  rw [succeeds_bind, h]
  simp

theorem succeeds_bind_of_succeeds (h : ∀ a t, Succeeds (f a) t) : Succeeds (p >>= f) s ↔ Succeeds p s := by
  rw [succeeds_bind]
  exact ⟨fun ⟨a, ha, _⟩ => ⟨a, ha⟩, fun ⟨a, ha⟩ => ⟨a, ha, h a _⟩⟩

theorem succeeds_bind_iff {P Q : Prop} (hp : Succeeds p s ↔ P) (hf : ∀ a, Succeeds (f a) (p.final s) ↔ Q) :
    Succeeds (p >>= f) s ↔ P ∧ Q := by
  rw [succeeds_bind, ← hp]
  exact ⟨fun ⟨a, ha, hs⟩ => ⟨⟨a, ha⟩, (hf a).mp hs⟩, fun ⟨⟨a, ha⟩, hq⟩ => ⟨a, ha, (hf a).mpr hq⟩⟩

@[simp] theorem succeeds_check_bind {r : Except ε α} :
    Succeeds (check r >>= f) s ↔ ∃ a, r = .ok a ∧ Succeeds (f a) s := succeeds_bind

@[simp] theorem succeeds_get_bind {f : σ → Prog σ ο ε β} :
    Succeeds (get >>= f) s ↔ Succeeds (f s) s := by
  rw [succeeds_bind]
  simp

theorem ReadOnly.final (h : ReadOnly p) (s : σ) : p.final s = s := by
  unfold Prog.final
  rw [h s, after_nil]

theorem readOnly_pure (a : α) : ReadOnly (pure a : Prog σ ο ε α) := fun _ => rfl

theorem readOnly_throw (e : ε) : ReadOnly (throw e : Prog σ ο ε α) := fun _ => rfl

theorem ReadOnly.bind (hp : ReadOnly p) (hf : ∀ a, ReadOnly (f a)) : ReadOnly (p >>= f) := by
  intro s
  show (Prog.bind p f).ops s = []
  have hps : (p s).2 = [] := hp s
  unfold ops Prog.bind
  rcases hp' : p s with ⟨r, os⟩
  rw [hp'] at hps
  obtain rfl : os = [] := hps
  cases r with
  | error e => rfl
  | ok a => exact hf a s

theorem final_bind_readOnly (hf : ∀ a, ReadOnly (f a)) : (p >>= f).final s = p.final s := by
  rw [final_bind]
  cases p.result s with
  | error e => rfl
  | ok a => exact (hf a).final _

theorem readOnly_each {f : β → Prog σ ο ε Unit} (h : ∀ x, ReadOnly (f x)) :
    ∀ xs : List β, ReadOnly (each f xs)
  | [] => readOnly_pure ()
  | x :: xs => (h x).bind fun _ => readOnly_each h xs

/-- A loop that only reads succeeds when its body succeeds on each element. -/
theorem succeeds_each {f : β → Prog σ ο ε Unit} (h : ∀ x, ReadOnly (f x)) :
    ∀ {xs : List β}, Succeeds (each f xs) s ↔ ∀ x ∈ xs, Succeeds (f x) s
  | [] => by simp [each]
  | x :: xs => by
    rw [each, succeeds_bind, (h x).final, List.forall_mem_cons, succeeds_each h]
    exact ⟨fun ⟨a, ha, hs⟩ => ⟨⟨a, ha⟩, hs⟩, fun ⟨⟨a, ha⟩, hs⟩ => ⟨a, ha, hs⟩⟩

end

/-! ## What a success leaves -/

/-- If the program succeeds, the value and the state it leaves are related by `R`. -/
def Yields (p : Prog σ ο ε α) (s : σ) (R : α → σ → Prop) : Prop := ∀ a, p.result s = .ok a → R a (p.final s)

section
variable {p : Prog σ ο ε α} {f : α → Prog σ ο ε β} {s : σ} {R S : α → σ → Prop} {T : β → σ → Prop}

@[simp] theorem yields_pure {a : α} : Yields (pure a : Prog σ ο ε α) s R ↔ R a s := by
  simp [Yields]

@[simp] theorem yields_throw {e : ε} : Yields (throw e : Prog σ ο ε α) s R := by
  simp [Yields]

@[simp] theorem yields_check {r : Except ε α} : Yields (check r : Prog σ ο ε α) s R ↔ ∀ a, r = .ok a → R a s := by
  simp [Yields]

@[simp] theorem yields_get {R : σ → σ → Prop} : Yields (get : Prog σ ο ε σ) s R ↔ R s s := by
  simp [Yields]

@[simp] theorem yields_emit {o : ο} {R : Unit → σ → Prop} :
    Yields (emit o : Prog σ ο ε Unit) s R ↔ R () (apply s o) :=
  ⟨fun h => h () rfl, fun h _ _ => h⟩

@[simp] theorem yields_bind : Yields (p >>= f) s T ↔ Yields p s fun a t => Yields (f a) t T := by
  unfold Yields
  rw [result_bind, final_bind]
  cases p.result s with
  | error e => simp
  | ok a => simp

@[simp] theorem yields_attempt {R : Except ε α → σ → Prop} :
    Yields p.attempt s R ↔ R (p.result s) (p.final s) :=
  ⟨fun h => h _ rfl, fun h a ha => by cases ha; exact h⟩

@[simp] theorem yields_true : Yields p s fun _ _ => True := fun _ _ => trivial

/-- A success of an attempted program goes on, a failure that is passed on need not be followed. -/
theorem yields_attempt_bind {f : Except ε α → Prog σ ο ε β} (hok : Yields p s fun a t => Yields (f (.ok a)) t T)
    (herr : ∀ e t, Yields (f (.error e)) t T) : Yields (p.attempt >>= f) s T := by
  rw [yields_bind, yields_attempt]
  cases h : p.result s with
  | error e => exact herr e _
  | ok a => exact hok a h

theorem Yields.mono (h : Yields p s R) (hrs : ∀ a t, R a t → S a t) : Yields p s S :=
  fun a ha => hrs a _ (h a ha)

theorem yields_each {f : β → Prog σ ο ε Unit} {I : List β → σ → Prop}
    (h : ∀ x xs s, I (x :: xs) s → Yields (f x) s fun _ t => I xs t) :
    ∀ {xs : List β} {s : σ}, I xs s → Yields (each f xs) s fun _ t => I [] t
  | [], s, hi => by simpa [each] using hi
  | x :: xs, s, hi => by
    rw [each, yields_bind]
    exact (h x xs s hi).mono fun _ _ ht => yields_each h ht

end

/-! ## Assertions -/

/-- If the operations of `p` from `s` meet `C`, then the result and the final state satisfy `Q`. -/
def wp (C : σ → ο → Prop) (p : Prog σ ο ε α) (s : σ) (Q : Except ε α → σ → Prop) : Prop :=
  Along C s (p.ops s) → Q (p.result s) (p.final s)

variable {C : σ → ο → Prop} {s : σ} {Q R : Except ε α → σ → Prop}

@[simp] theorem wp_pure {a : α} : wp C (pure a : Prog σ ο ε α) s Q ↔ Q (.ok a) s :=
  ⟨fun h => h trivial, fun h _ => h⟩

@[simp] theorem wp_throw {e : ε} : wp C (throw e : Prog σ ο ε α) s Q ↔ Q (.error e) s :=
  ⟨fun h => h trivial, fun h _ => h⟩

@[simp] theorem wp_check {r : Except ε α} : wp C (check r : Prog σ ο ε α) s Q ↔ Q r s :=
  ⟨fun h => h trivial, fun h _ => h⟩

@[simp] theorem wp_get {Q : Except ε σ → σ → Prop} : wp C (get : Prog σ ο ε σ) s Q ↔ Q (.ok s) s :=
  ⟨fun h => h trivial, fun h _ => h⟩

@[simp] theorem wp_emit {o : ο} {Q : Except ε Unit → σ → Prop} :
    wp C (emit o : Prog σ ο ε Unit) s Q ↔ (C s o → Q (.ok ()) (apply s o)) :=
  ⟨fun h hc => h ⟨hc, trivial⟩, fun h hc => h hc.1⟩

@[simp] theorem wp_attempt {p : Prog σ ο ε α} {Q : Except ε (Except ε α) → σ → Prop} :
    wp C p.attempt s Q ↔ wp C p s fun r t => Q (.ok r) t := Iff.rfl

@[simp] theorem wp_bind {p : Prog σ ο ε α} {f : α → Prog σ ο ε β} {Q : Except ε β → σ → Prop} :
    wp C (p >>= f) s Q ↔ wp C p s fun r t =>
      match r with
      | .ok a => wp C (f a) t Q
      | .error e => Q (.error e) t := by
  show wp C (bind p f) s Q ↔ _
  unfold wp result final ops bind
  rcases hp : p s with ⟨r, os⟩
  cases r with
  | error e => simp
  | ok a => simp [and_imp]

theorem wp_mono {p : Prog σ ο ε α} (h : ∀ r t, Q r t → R r t) (hw : wp C p s Q) : wp C p s R :=
  fun hc => h _ _ (hw hc)

theorem wp_and {p : Prog σ ο ε α} (hq : wp C p s Q) (hr : wp C p s R) :
    wp C p s fun r t => Q r t ∧ R r t :=
  fun hc => ⟨hq hc, hr hc⟩

theorem wp_of_yields {p : Prog σ ο ε α} (hp : Succeeds p s) (h : Yields p s fun a t => Q (.ok a) t) : wp C p s Q := by
  obtain ⟨a, ha⟩ := hp
  intro _
  rw [ha]
  exact h a ha

theorem succeeds_each_emit {o : β → ο} : ∀ {xs : List β} {s : σ},
    Succeeds (each (fun x => emit (o x)) xs : Prog σ ο ε Unit) s
  | [], _ => succeeds_pure ()
  | _ :: _, _ => succeeds_bind.mpr ⟨(), rfl, succeeds_each_emit⟩

/-! ## What a program can make -/

section
variable {P : ο → Prop} {p : Prog σ ο ε α} {f : α → Prog σ ο ε β}

theorem emits_pure (a : α) : Emits P (pure a : Prog σ ο ε α) := (readOnly_pure a).emits

theorem emits_throw (e : ε) : Emits P (throw e : Prog σ ο ε α) := (readOnly_throw e).emits

theorem Emits.bind (hp : Emits P p) (hf : ∀ a, Emits P (f a)) : Emits P (p >>= f) := by
  intro s o ho
  change o ∈ (Prog.bind p f s).2 at ho
  unfold Prog.bind at ho
  have hps := hp s
  unfold ops at hps
  rcases hr : p s with ⟨r, os⟩
  rw [hr] at ho hps
  cases r with
  | error e => exact hps o ho
  | ok a =>
    rcases List.mem_append.mp ho with h | h
    · exact hps o h
    · exact hf a _ o h

theorem emits_each {f : β → Prog σ ο ε Unit} (h : ∀ x, Emits P (f x)) : ∀ xs : List β, Emits P (each f xs)
  | [] => emits_pure ()
  | x :: xs => (h x).bind fun _ => emits_each h xs

/-- What every operation of the kind leaves alone, the program leaves alone. -/
theorem Emits.final_eq {τ : Type} {g : σ → τ} (hp : Emits P p) (h : ∀ s o, P o → g (apply s o) = g s)
    (s : σ) : g (p.final s) = g s := by
  have hafter : ∀ (os : List ο) (s : σ), (∀ o ∈ os, P o) → g (after s os) = g s := by
    intro os
    induction os with
    | nil => exact fun _ _ => rfl
    | cons o os ih =>
      intro s hos
      rw [after_cons, ih _ fun o' ho' => hos o' (List.mem_cons_of_mem _ ho')]
      exact h s o (hos o List.mem_cons_self)
  exact hafter _ s (hp s)

end

/-! ## Invariants of programs -/

section
variable {C : σ → ο → Prop} {I : σ → Prop} {p : Prog σ ο ε α} {f : α → Prog σ ο ε β}

/-- Under the condition on its operations, the program keeps `I`, whether or not it fails. -/
def Maintains (C : σ → ο → Prop) (I : σ → Prop) (p : Prog σ ο ε α) : Prop :=
  ∀ s, I s → wp C p s fun _ t => I t

theorem Emits.maintains {P : ο → Prop} (hp : Emits P p) (h : ∀ s o, P o → C s o → I s → I (apply s o)) :
    Maintains C I p := by
  intro s hi hc
  have hafter : ∀ (os : List ο) (s : σ), (∀ o ∈ os, P o) → Along C s os → I s → I (after s os) := by
    intro os
    induction os with
    | nil => exact fun _ _ _ hi => hi
    | cons o os ih =>
      intro s hos hc hi
      exact ih _ (fun o' ho' => hos o' (List.mem_cons_of_mem _ ho')) hc.2
        (h s o (hos o List.mem_cons_self) hc.1 hi)
  exact hafter _ s (hp s) hc hi

theorem ReadOnly.maintains (hp : ReadOnly p) : Maintains C I p := by
  intro s hi _
  rwa [hp.final]

theorem maintains_pure (a : α) : Maintains C I (pure a : Prog σ ο ε α) := fun _ hi => wp_pure.mpr hi

theorem maintains_throw (e : ε) : Maintains C I (throw e : Prog σ ο ε α) := fun _ hi => wp_throw.mpr hi

theorem maintains_check (r : Except ε α) : Maintains C I (check r : Prog σ ο ε α) := fun _ hi => wp_check.mpr hi

theorem maintains_get : Maintains C I (get : Prog σ ο ε σ) := fun _ hi => wp_get.mpr hi

theorem maintains_emit {o : ο} (h : ∀ s, I s → C s o → I (apply s o)) :
    Maintains C I (emit o : Prog σ ο ε Unit) := fun s hi => wp_emit.mpr (h s hi)

theorem Maintains.bind (hp : Maintains C I p) (hf : ∀ a, Maintains C I (f a)) : Maintains C I (p >>= f) := by
  intro s hi
  rw [wp_bind]
  refine wp_mono (fun r t ht => ?_) (hp s hi)
  cases r with
  | error e => exact ht
  | ok a => exact hf a t ht

theorem maintains_get_bind {f : σ → Prog σ ο ε β} (h : ∀ s, I s → Maintains C I (f s)) :
    Maintains C I (get >>= f) := by
  intro s hi
  rw [wp_bind, wp_get]
  exact h s hi s hi

theorem Maintains.attempt (hp : Maintains C I p) : Maintains C I p.attempt :=
  fun s hi => wp_attempt.mpr (hp s hi)

theorem maintains_each {f : β → Prog σ ο ε Unit} (h : ∀ x, Maintains C I (f x)) :
    ∀ xs : List β, Maintains C I (each f xs)
  | [] => maintains_pure ()
  | x :: xs => (h x).bind fun _ => maintains_each h xs

end

end

end Prog

end Oplog
