import Mathlib

/-!
# Orders by several keys

Comparisons of elements by a list of keys, first to last, with elements that have no key after all
others, and lists that are in such an order.
-/

namespace Sorting

section
variable {α β : Type}

/-- First to last, until one comparison tells the elements apart. -/
def lex : List (α → α → Ordering) → α → α → Ordering
  | [] => fun _ _ => .eq
  | cmp :: cmps => compareLex cmp (lex cmps)

/-- What is absent comes last. -/
def absentLast (absent : α → Bool) (cmp : α → α → Ordering) (a b : α) : Ordering :=
  if absent a then if absent b then .eq else .gt
  else if absent b then .lt else cmp a b

def on (f : α → β) (cmp : β → β → Ordering) (a b : α) : Ordering := cmp (f a) (f b)

/-- Ascending, or else descending. -/
def directed (ascending : Bool) (cmp : α → α → Ordering) (a b : α) : Ordering :=
  if ascending then cmp a b else cmp b a

def InOrder (cmp : α → α → Ordering) (xs : List α) : Prop := xs.Pairwise fun a b => (cmp a b).isLE

instance decidableInOrder (cmp : α → α → Ordering) (xs : List α) : Decidable (InOrder cmp xs) :=
  inferInstanceAs (Decidable (xs.Pairwise fun a b => (cmp a b).isLE = true))

def sortBy (cmp : α → α → Ordering) (xs : List α) : List α := xs.insertionSort fun a b => (cmp a b).isLE

/-! ## Comparisons that are orders -/

instance transCmp_equal : Std.TransCmp fun _ _ : α => Ordering.eq where
  eq_swap := rfl
  isLE_trans _ _ := rfl

theorem transCmp_lex : ∀ {cmps : List (α → α → Ordering)}, (∀ cmp ∈ cmps, Std.TransCmp cmp) → Std.TransCmp (lex cmps)
  | [], _ => transCmp_equal
  | cmp :: cmps, h =>
    have : Std.TransCmp cmp := h cmp List.mem_cons_self
    have : Std.TransCmp (lex cmps) := transCmp_lex fun c hc => h c (List.mem_cons_of_mem _ hc)
    inferInstanceAs (Std.TransCmp (compareLex cmp (lex cmps)))

theorem transCmp_on (f : α → β) {cmp : β → β → Ordering} (h : Std.TransCmp cmp) : Std.TransCmp (on f cmp) where
  eq_swap := h.eq_swap
  isLE_trans := h.isLE_trans

theorem transCmp_directed (ascending : Bool) {cmp : α → α → Ordering} (h : Std.TransCmp cmp) :
    Std.TransCmp (directed ascending cmp) := by
  cases ascending with
  | true => exact h
  | false =>
    show Std.TransCmp fun a b => cmp b a
    exact Std.TransCmp.opposite

theorem transCmp_absentLast (absent : α → Bool) {cmp : α → α → Ordering} (h : Std.TransCmp cmp) :
    Std.TransCmp (absentLast absent cmp) := by
  refine @Std.TransCmp.mk α (absentLast absent cmp) ⟨fun {a b} => ?_⟩ fun {a b c} hab hbc => ?_
  · unfold absentLast
    cases absent a with
    | true => cases absent b <;> rfl
    | false =>
      cases absent b with
      | true => rfl
      | false => exact h.eq_swap
  · unfold absentLast at hab hbc ⊢
    cases ha : absent a with
    | true =>
      cases hb : absent b with
      | true =>
        rw [hb] at hbc
        exact hbc
      | false =>
        rw [ha, hb] at hab
        cases hab
    | false =>
      cases hc : absent c with
      | true => rfl
      | false =>
        cases hb : absent b with
        | true =>
          rw [hb, hc] at hbc
          cases hbc
        | false =>
          rw [ha, hb] at hab
          rw [hb, hc] at hbc
          exact h.isLE_trans hab hbc

/-! ## Sorted lists -/

theorem perm_sortBy (cmp : α → α → Ordering) (xs : List α) : (sortBy cmp xs).Perm xs := List.perm_insertionSort _ xs

theorem inOrder_sortBy {cmp : α → α → Ordering} (h : Std.TransCmp cmp) (xs : List α) : InOrder cmp (sortBy cmp xs) := by
  have htotal : Std.Total fun a b : α => (cmp a b).isLE = true := ⟨fun a b => by
    cases hab : cmp a b with
    | lt => exact .inl rfl
    | eq => exact .inl rfl
    | gt =>
      refine .inr ?_
      rw [h.eq_swap, hab]
      rfl⟩
  have htrans : IsTrans α fun a b => (cmp a b).isLE = true := ⟨fun _ _ _ => h.isLE_trans⟩
  exact List.pairwise_insertionSort _ xs

end

/-! ## Steps taken in order -/

section
variable {α β : Type} {m : Type → Type} [Monad m] [LawfulMonad m] {step : β → α → m β}

/-- A step that commutes with those before it can be taken first. -/
theorem foldlM_move {p : List α} {x : α} (h : ∀ a ∈ p, ∀ t, (step t a >>= fun t => step t x) = (step t x >>= fun t => step t a))
    (q : List α) (t : β) : (p ++ x :: q).foldlM step t = (x :: (p ++ q)).foldlM step t := by
  induction p generalizing t with
  | nil => rfl
  | cons a p ih =>
    have ih := ih fun b hb => h b (List.mem_cons_of_mem _ hb)
    calc (a :: p ++ x :: q).foldlM step t = step t a >>= fun t => (p ++ x :: q).foldlM step t := List.foldlM_cons
      _ = step t a >>= fun t => step t x >>= fun t => (p ++ q).foldlM step t := by simp only [ih, List.foldlM_cons]
      _ = (step t a >>= fun t => step t x) >>= fun t => (p ++ q).foldlM step t := (bind_assoc _ _ _).symm
      _ = (step t x >>= fun t => step t a) >>= fun t => (p ++ q).foldlM step t := by rw [h a List.mem_cons_self]
      _ = (x :: (a :: p ++ q)).foldlM step t := by simp only [bind_assoc, List.cons_append, List.foldlM_cons]

/-- Two sorted orders of the same steps end alike where steps that are sorted either way commute. -/
theorem foldlM_sorted {le : α → α → Prop} {xs ys : List α} (hxs : xs.Pairwise le) (hys : ys.Pairwise le) (hperm : xs.Perm ys)
    (h : ∀ a ∈ xs, ∀ b ∈ xs, le a b → le b a → ∀ t, (step t a >>= fun t => step t b) = (step t b >>= fun t => step t a)) (t : β) :
    xs.foldlM step t = ys.foldlM step t := by
  induction xs generalizing ys t with
  | nil => rw [List.nil_perm.mp hperm]
  | cons x xs ih =>
    obtain ⟨p, q, rfl⟩ := List.append_of_mem (hperm.mem_iff.mp List.mem_cons_self)
    have hrest : xs.Perm (p ++ q) := List.perm_cons x |>.mp (hperm.trans List.perm_middle)
    obtain ⟨hx, hxs⟩ := List.pairwise_cons.mp hxs
    have hmove : ∀ a ∈ p, ∀ t, (step t a >>= fun t => step t x) = (step t x >>= fun t => step t a) := by
      intro a ha
      have hin : a ∈ xs := hrest.mem_iff.mpr (List.mem_append_left q ha)
      have hle : le a x := (List.pairwise_append.mp hys).2.2 a ha x List.mem_cons_self
      exact h a (List.mem_cons_of_mem _ hin) x List.mem_cons_self hle (hx a hin)
    rw [foldlM_move hmove, List.foldlM_cons, List.foldlM_cons]
    refine congrArg _ (funext fun t => ih hxs ?_ hrest (fun a ha b hb => ?_) t)
    · exact hys.sublist ((List.Sublist.refl p).append (List.sublist_cons_self x q))
    · exact h a (List.mem_cons_of_mem _ ha) b (List.mem_cons_of_mem _ hb)
end

end Sorting
