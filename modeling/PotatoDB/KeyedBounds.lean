import Mathlib

/-!
# Least values by key

A map keeps the least of the values that were noted for each key. With the dual order it keeps the greatest.
-/

namespace KeyedBounds

variable {K V : Type}

/-- The values that were noted for a key. -/
def noted (l : List (K × V)) (k : K) : Set V := {v | (k, v) ∈ l}

theorem noted_concat (l : List (K × V)) (k : K) (v : V) : noted (l ++ [(k, v)]) k = insert v (noted l k) := by
  ext w
  simp [noted, or_comm]

theorem noted_concat_of_ne (l : List (K × V)) {k k' : K} (h : k' ≠ k) (v : V) : noted (l ++ [(k, v)]) k' = noted l k' := by
  ext w
  simp [noted, h]

variable [LinearOrder V]

/-- There is no value for a key, or the least one is kept. -/
def Keeps (m : K → Option V) (l : List (K × V)) : Prop := ∀ k,
  match m k with
  | none => ∀ v, v ∉ noted l k
  | some v => IsLeast (noted l k) v

theorem Keeps.eq_none_iff {m : K → Option V} {l : List (K × V)} (h : Keeps m l) {k : K} : m k = none ↔ ∀ v, v ∉ noted l k := by
  have hkept := h k
  cases hm : m k with
  | none =>
    rw [hm] at hkept
    simpa using hkept
  | some v =>
    rw [hm] at hkept
    refine iff_of_false nofun ?_
    intro hnone
    exact hnone v hkept.1

theorem Keeps.least {m : K → Option V} {l : List (K × V)} (h : Keeps m l) {k : K} {v : V} (hv : m k = some v) :
    IsLeast (noted l k) v := by
  have hkept := h k
  rw [hv] at hkept
  exact hkept

/-- The least value of some groups is the one of a group, where each has one. -/
theorem least_of_groups {C : Type} {low : C → V → Prop} {chunks : List C} {groups : List (List V)}
    (h : List.Forall₂ (fun c g => ∃ v, low c v ∧ IsLeast {w | w ∈ g} v) chunks groups) (hne : chunks ≠ []) :
    ∃ c ∈ chunks, ∃ v, low c v ∧ IsLeast {w | ∃ g ∈ groups, w ∈ g} v := by
  induction h with
  | nil => exact absurd rfl hne
  | @cons c g chunks groups hfirst hrest ih =>
    obtain ⟨v, hv, hleast⟩ := hfirst
    have hunion : {w | ∃ g' ∈ g :: groups, w ∈ g'} = {w | w ∈ g} ∪ {w | ∃ g' ∈ groups, w ∈ g'} := by
      ext w
      simp
    cases chunks with
    | nil =>
      cases hrest
      refine ⟨c, List.mem_cons_self, v, hv, ?_⟩
      simpa using hleast
    | cons c' chunks =>
      obtain ⟨d, hd, w, hw, hleast'⟩ := ih (List.cons_ne_nil _ _)
      have hboth := hleast.union hleast'
      rw [← hunion] at hboth
      by_cases hle : v ≤ w
      · rw [min_eq_left hle] at hboth
        exact ⟨c, List.mem_cons_self, v, hv, hboth⟩
      · rw [min_eq_right (not_le.mp hle).le] at hboth
        exact ⟨d, List.mem_cons_of_mem _ hd, w, hw, hboth⟩

/-- The least text of some encodings encodes the least value exactly if the encoding of that value is of a text that is among
the least ones. -/
theorem encodes_least_iff {B T : Type} [LinearOrder T] {text : B → T} {encode : T → B} (hback : ∀ x, text (encode x) = x)
    {decode : B → Option V} (hinj : ∀ {b b' v}, decode b = some v → decode b' = some v → b = b') {own named : List B}
    (hsub : own ⊆ named) {s : Set V} {v : V} (hv : IsLeast s v) (hown : ∃ b ∈ own, decode b = some v) {m : T}
    (hm : IsLeast {x | ∃ b ∈ named, text b = x} m) :
    (∃ w, decode (encode m) = some w ∧ IsLeast s w) ↔
      ∃ x w, encode x ∈ own ∧ decode (encode x) = some w ∧ IsLeast s w ∧ ∀ b ∈ named, x ≤ text b := by
  obtain ⟨⟨b, hb, hbm⟩, hlower⟩ := hm
  constructor
  · intro ⟨w, hw, hleast⟩
    obtain ⟨b', hb', hdecode⟩ := hown
    have hvalue : v = w := hv.unique hleast
    have hencoded : b' = encode m := hinj (hvalue ▸ hdecode) hw
    exact ⟨m, w, hencoded ▸ hb', hw, hleast, fun b'' hb'' => hlower ⟨b'', hb'', rfl⟩⟩
  · intro ⟨x, w, hx, hw, hleast, hle⟩
    have hxm : x ≤ m := hbm ▸ hle b hb
    have hmx : m ≤ x := hlower ⟨encode x, hsub hx, hback x⟩
    rw [le_antisymm hmx hxm]
    exact ⟨w, hw, hleast⟩

variable [DecidableEq K]

def note (m : K → Option V) (k : K) (v : V) : K → Option V :=
  Function.update m k (some (match m k with
    | none => v
    | some w => if v < w then v else w))

def notes (m : K → Option V) (l : List (K × V)) : K → Option V := l.foldl (fun m p => note m p.1 p.2) m

theorem Keeps.note {m : K → Option V} {l : List (K × V)} (h : Keeps m l) (k : K) (v : V) : Keeps (note m k v) (l ++ [(k, v)]) := by
  intro k'
  by_cases hk : k' = k
  · subst hk
    have hkept := h k'
    rw [KeyedBounds.note, Function.update_self, noted_concat]
    cases hm : m k' with
    | none =>
      rw [hm] at hkept
      have hnone : noted l k' = ∅ := Set.eq_empty_iff_forall_notMem.mpr hkept
      simp [hnone]
    | some w =>
      rw [hm] at hkept
      have hmin : (if v < w then v else w) = min v w := by
        by_cases hlt : v < w
        · rw [if_pos hlt, min_eq_left hlt.le]
        · rw [if_neg hlt, min_eq_right (not_lt.mp hlt)]
      simp only [hmin]
      exact hkept.insert v
  · rw [KeyedBounds.note, Function.update_of_ne hk, noted_concat_of_ne l hk]
    exact h k'

theorem Keeps.notes {m : K → Option V} {l : List (K × V)} (h : Keeps m l) (l' : List (K × V)) : Keeps (notes m l') (l ++ l') := by
  induction l' generalizing m l with
  | nil =>
    rw [List.append_nil]
    exact h
  | cons p l' ih =>
    have hnext := ih (h.note p.1 p.2)
    rw [List.append_assoc, List.singleton_append] at hnext
    exact hnext

theorem keeps_notes (l : List (K × V)) : Keeps (notes (fun _ => none) l) l := by
  have hempty : Keeps (fun _ : K => (none : Option V)) [] := by
    intro k v
    simp [noted]
  have hkeeps := hempty.notes l
  rw [List.nil_append] at hkeeps
  exact hkeeps

end KeyedBounds
