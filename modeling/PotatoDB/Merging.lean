import Mathlib

/-!
# Merging by clauses

A source is merged into a target by clauses. The clauses should be decided for each row of the
target and each unmatched row of the source, by the first one that applies. They can also be run one
after the other, each on what the ones before it have left, which comes to the same where a clause
meets no row that was touched before and finds the matches that there were at the start.
-/

namespace Merging

variable {τ σ : Type}

inductive Clause (τ σ : Type) where
  | update (applies : τ → σ → Bool) (row : τ → σ → τ)
  | delete (applies : τ → σ → Bool)
  | insert (wants : σ → Bool) (row : σ → τ)

variable (on : τ → σ → Bool) (source : List σ)

/-- The source rows that a clause applies to a row with. -/
def meets (applies : τ → σ → Bool) (t : τ) : List σ := source.filter fun s => on t s && applies t s

/-- The source rows that no row of the target matches. -/
def unmatched (target : List τ) : List σ := source.filter fun s => !target.any (on · s)

/-! ## Clause after clause -/

/-- A row with each of the source rows that it meets, or as it is. -/
def rewritten (applies : τ → σ → Bool) (row : τ → σ → τ) (t : τ) : List τ :=
  match meets on source applies t with
  | [] => [t]
  | ss => ss.map (row t)

def Clause.run (target : List τ) : Clause τ σ → List τ
  | update applies row => target.flatMap (rewritten on source applies row)
  | delete applies => target.filter fun t => (meets on source applies t).isEmpty
  | insert wants row => target ++ ((unmatched on source target).filter wants).map row

/-- The numbers of rows updated and inserted, of the last clause of each kind. -/
def Clause.report (target : List τ) (done : Nat × Nat) : Clause τ σ → Nat × Nat
  | update applies _ => ((target.flatMap (meets on source applies)).length, done.2)
  | delete _ => done
  | insert wants _ => (done.1, ((unmatched on source target).filter wants).length)

/-! ## The first clause that applies -/

/-- What a clause makes of a row; `none` where it does not apply. -/
def Clause.takes (t : τ) : Clause τ σ → Option (List τ)
  | update applies row => (meets on source applies t).head?.map fun s => [row t s]
  | delete applies => if (meets on source applies t).isEmpty then none else some []
  | insert .. => none

/-- What the clauses make of a row of the target. -/
def touch (cs : List (Clause τ σ)) (t : τ) : Option (List τ) := cs.findSome? (Clause.takes on source t)

/-- What a clause inserts for an unmatched row. -/
def Clause.adds (s : σ) : Clause τ σ → Option τ
  | insert wants row => if wants s then some (row s) else none
  | _ => none

def inserted (cs : List (Clause τ σ)) (s : σ) : Option τ := cs.findSome? (Clause.adds s)

def insertions (target : List τ) (cs : List (Clause τ σ)) : List τ :=
  (unmatched on source target).flatMap fun s => (inserted cs s).toList

/-- A row of the target after the merge. -/
def outcome (cs : List (Clause τ σ)) (t : τ) : List τ := (touch on source cs t).getD [t]

/-- The target after the merge. -/
def merged (target : List τ) (cs : List (Clause τ σ)) : List τ :=
  target.flatMap (outcome on source cs) ++ insertions on source target cs

def Clause.isUpdate : Clause τ σ → Bool
  | update .. => true
  | _ => false

/-- The first clause that applies to the row is an update. -/
def updatedBy (cs : List (Clause τ σ)) (t : τ) : Bool :=
  (cs.find? fun c => (c.takes on source t).isSome).any Clause.isUpdate

def updatedCount (target : List τ) (cs : List (Clause τ σ)) : Nat := target.countP (updatedBy on source cs)

/-! ## When the two agree -/

/-- The rows that the clauses have written. -/
def Touched (target : List τ) (cs : List (Clause τ σ)) (x : τ) : Prop :=
  (∃ t ∈ target, ∃ rows, touch on source cs t = some rows ∧ x ∈ rows) ∨ x ∈ insertions on source target cs

/-- A clause meets no row that the clauses before it have written, updates no row twice, and finds a source row that it
wants matched if and only if it was at the start or has been inserted. -/
def Independent (target : List τ) (before : List (Clause τ σ)) : Clause τ σ → Prop
  | .update applies _ => (∀ x, Touched on source target before x → meets on source applies x = []) ∧
      ∀ t ∈ target, touch on source before t = none → (meets on source applies t).length ≤ 1
  | .delete applies => ∀ x, Touched on source target before x → meets on source applies x = []
  | .insert wants _ => ∀ s ∈ source, wants s = true →
      ((merged on source target before).any (on · s) = true ↔
        target.any (on · s) = true ∨ (inserted before s).isSome = true)

/-- No clause of the same kind has updated or inserted a row before. -/
def FirstOfKind (target : List τ) (before : List (Clause τ σ)) : Clause τ σ → Prop
  | .update .. => updatedCount on source target before = 0
  | .delete _ => True
  | .insert .. => insertions on source target before = []

variable {on source}

/-! ## One clause -/

theorem findSome?_one {α β : Type} (f : α → Option β) (x : α) : [x].findSome? f = f x := by
  rw [List.findSome?_cons]
  cases f x with
  | none => rfl
  | some b => rfl

theorem touch_append (before : List (Clause τ σ)) (c : Clause τ σ) (t : τ) :
    touch on source (before ++ [c]) t = (touch on source before t).or (c.takes on source t) := by
  unfold touch
  rw [List.findSome?_append, findSome?_one]

theorem inserted_append (before : List (Clause τ σ)) (c : Clause τ σ) (s : σ) :
    inserted (before ++ [c]) s = (inserted before s).or (c.adds s) := by
  unfold inserted
  rw [List.findSome?_append, findSome?_one]

theorem unmatched_congr {target target' : List τ} (h : ∀ x, x ∈ target ↔ x ∈ target') :
    unmatched on source target = unmatched on source target' := by
  unfold unmatched
  refine List.filter_congr fun s _ => ?_
  rw [Bool.not_inj_iff, Bool.eq_iff_iff, List.any_eq_true, List.any_eq_true]
  simp only [h]

theorem run_perm {target target' : List τ} (h : target.Perm target') (c : Clause τ σ) :
    (c.run on source target).Perm (c.run on source target') := by
  cases c with
  | update applies row => exact h.flatMap_right _
  | delete applies => exact h.filter _
  | insert wants row =>
    unfold Clause.run
    rw [unmatched_congr fun x => h.mem_iff]
    exact h.append_right _

/-- What a clause about matched rows makes of one row. -/
def Clause.act (on : τ → σ → Bool) (source : List σ) (t : τ) : Clause τ σ → List τ
  | update applies row => rewritten on source applies row t
  | delete applies => if (meets on source applies t).isEmpty then [t] else []
  | insert .. => [t]

def Clause.IsInsert : Clause τ σ → Prop
  | insert .. => True
  | _ => False

theorem rewritten_nil {applies : τ → σ → Bool} {t : τ} (h : meets on source applies t = []) (row : τ → σ → τ) :
    rewritten on source applies row t = [t] := by
  unfold rewritten
  rw [h]

theorem rewritten_singleton {applies : τ → σ → Bool} {t : τ} {s : σ} (h : meets on source applies t = [s]) (row : τ → σ → τ) :
    rewritten on source applies row t = [row t s] := by
  unfold rewritten
  rw [h]
  rfl

theorem run_eq_flatMap {c : Clause τ σ} (hc : ¬ c.IsInsert) (target : List τ) :
    c.run on source target = target.flatMap (c.act on source) := by
  cases c with
  | update applies row => rfl
  | insert wants row => exact absurd trivial hc
  | delete applies =>
    show target.filter (fun t => (meets on source applies t).isEmpty) = _
    induction target with
    | nil => rfl
    | cons t target ih =>
      rw [List.filter_cons, List.flatMap_cons, ih]
      by_cases h : (meets on source applies t).isEmpty = true
      · simp [Clause.act, h]
      · simp [Clause.act, h]

theorem flatMap_filter {α β : Type} {p : α → Bool} {f : α → List β} (xs : List α) :
    (xs.filter p).flatMap f = xs.flatMap fun x => if p x = true then f x else [] := by
  induction xs with
  | nil => rfl
  | cons x xs ih =>
    rw [List.flatMap_cons, ← ih]
    by_cases h : p x = true
    · rw [List.filter_cons_of_pos h, if_pos h, List.flatMap_cons]
    · rw [List.filter_cons_of_neg h, if_neg h]
      rfl

theorem flatMap_self {f : τ → List τ} {xs : List τ} (h : ∀ x ∈ xs, f x = [x]) : xs.flatMap f = xs := by
  induction xs with
  | nil => rfl
  | cons x xs ih =>
    rw [List.flatMap_cons, h x List.mem_cons_self, ih fun y hy => h y (List.mem_cons_of_mem _ hy)]
    rfl

section
variable {target : List τ} {before : List (Clause τ σ)} {c : Clause τ σ} (hs : Independent on source target before c)
include hs

theorem act_touched {x : τ} (hx : Touched on source target before x) : c.act on source x = [x] := by
  cases c with
  | update applies row => exact rewritten_nil (hs.1 x hx) row
  | delete applies =>
    have hnone : meets on source applies x = [] := hs x hx
    simp [Clause.act, hnone]
  | insert wants row => rfl

theorem act_untouched {t : τ} (ht : t ∈ target) (hu : touch on source before t = none) :
    c.act on source t = (c.takes on source t).getD [t] := by
  cases c with
  | update applies row =>
    have hone := hs.2 t ht hu
    show rewritten on source applies row t = _
    cases hm : meets on source applies t with
    | nil =>
      rw [rewritten_nil hm]
      simp [Clause.takes, hm]
    | cons s rest =>
      rw [hm, List.length_cons] at hone
      obtain rfl := List.length_eq_zero_iff.mp (show rest.length = 0 by omega)
      rw [rewritten_singleton hm]
      simp [Clause.takes, hm]
  | delete applies =>
    by_cases h : (meets on source applies t).isEmpty = true
    · simp [Clause.act, Clause.takes, h]
    · simp [Clause.act, Clause.takes, h]
  | insert wants row => rfl

theorem outcome_step {t : τ} (ht : t ∈ target) :
    (outcome on source before t).flatMap (c.act on source) = outcome on source (before ++ [c]) t := by
  unfold outcome
  rw [touch_append]
  cases htouch : touch on source before t with
  | some rows =>
    rw [Option.some_or, Option.getD_some]
    exact flatMap_self fun x hx => act_touched hs (.inl ⟨t, ht, rows, htouch, hx⟩)
  | none =>
    rw [Option.none_or, Option.getD_none, List.flatMap_singleton]
    exact act_untouched hs ht htouch

/-- What a clause about matched rows makes of the rows so far: an insertion stays as it is. -/
theorem merged_act : (merged on source target before).flatMap (c.act on source) =
    target.flatMap (outcome on source (before ++ [c])) ++ insertions on source target before := by
  unfold merged
  rw [List.flatMap_append, List.flatMap_assoc]
  congr 1
  · exact List.flatMap_congr fun t ht => outcome_step hs ht
  · exact flatMap_self fun x hx => act_touched hs (.inr hx)

omit hs in
theorem insertions_step (hc : ¬ c.IsInsert) :
    insertions on source target (before ++ [c]) = insertions on source target before := by
  refine List.flatMap_congr fun s _ => ?_
  rw [inserted_append]
  cases c with
  | update applies row => exact congrArg Option.toList Option.or_none
  | delete applies => exact congrArg Option.toList Option.or_none
  | insert wants row => exact absurd trivial hc

theorem insertions_insert {wants : σ → Bool} {row : σ → τ} (hc : c = .insert wants row) :
    (insertions on source target before ++ ((unmatched on source (merged on source target before)).filter wants).map row).Perm
      (insertions on source target (before ++ [c])) := by
  subst hc
  -- what the clause adds for a source row that the target has not matched
  let added := fun s => if (inserted before s).isSome = false ∧ wants s = true then [row s] else []
  have hnew : ((unmatched on source (merged on source target before)).filter wants).map row =
      (unmatched on source target).flatMap added := by
    rw [List.map_eq_flatMap, flatMap_filter]
    unfold unmatched
    rw [flatMap_filter, flatMap_filter]
    refine List.flatMap_congr fun s hmem => ?_
    by_cases hw : wants s = true
    · have h := hs s hmem hw
      by_cases ht : target.any (on · s) = true
      · rw [if_neg (by simp [h.mpr (.inl ht)]), if_neg (by simp [ht])]
      · by_cases hi : (inserted before s).isSome = true
        · rw [if_neg (by simp [h.mpr (.inr hi)]), if_pos (by simpa using ht), show added s = [] from if_neg (by simp [hi])]
        · have hm : ¬ (merged on source target before).any (on · s) = true := fun hm => (h.mp hm).elim ht hi
          rw [if_pos (by simpa using hm), if_pos hw, if_pos (by simpa using ht),
            show added s = [row s] from if_pos ⟨by simpa using hi, hw⟩]
    · rw [show added s = [] from if_neg fun h => hw h.2, if_neg hw]
      split <;> split <;> rfl
  rw [hnew]
  unfold insertions
  refine (List.flatMap_append_perm _ _ _).trans (List.Perm.of_eq ?_)
  refine List.flatMap_congr fun s _ => ?_
  rw [inserted_append]
  cases hi : inserted before s with
  | some x => simp [added, hi]
  | none =>
    by_cases hw : wants s = true
    · simp [added, hi, hw, Clause.adds]
    · simp [added, hi, hw, Clause.adds]

/-- An independent clause takes the merge by the clauses before it to the merge by them and itself. -/
theorem merged_step : (c.run on source (merged on source target before)).Perm (merged on source target (before ++ [c])) := by
  have hact := merged_act hs
  by_cases hc : c.IsInsert
  · cases c with
    | update applies row => exact hc.elim
    | delete applies => exact hc.elim
    | insert wants row =>
      rw [show (merged on source target before).flatMap (Clause.act on source · (.insert wants row)) =
        merged on source target before from flatMap_self fun _ _ => rfl] at hact
      have hins := (insertions_insert hs rfl).append_left (target.flatMap (outcome on source (before ++ [.insert wants row])))
      refine List.Perm.trans (List.Perm.of_eq ?_) hins
      rw [← List.append_assoc, ← hact]
      rfl
  · rw [run_eq_flatMap hc, hact, merged, insertions_step hc]

end

/-! ## Counts -/

theorem updatedBy_append (before : List (Clause τ σ)) (c : Clause τ σ) (t : τ) :
    updatedBy on source (before ++ [c]) t =
      if (touch on source before t).isSome then updatedBy on source before t
      else (c.takes on source t).isSome && c.isUpdate := by
  unfold updatedBy touch
  rw [List.find?_append]
  cases hf : before.find? fun c => (c.takes on source t).isSome with
  | some b =>
    have htouch : (before.findSome? (Clause.takes on source t)).isSome = true := by
      rw [List.findSome?_isSome_iff]
      exact ⟨b, List.mem_of_find?_eq_some hf, (List.find?_eq_some_iff_append.mp hf).1⟩
    rw [if_pos htouch]
    rfl
  | none =>
    have htouch : before.findSome? (Clause.takes on source t) = none := by
      rw [List.findSome?_eq_none_iff]
      intro b hb
      simpa using List.find?_eq_none.mp hf b hb
    rw [htouch, if_neg (by simp), Option.none_or]
    by_cases ht : (c.takes on source t).isSome = true
    · simp [ht]
    · simp [ht]

theorem updatedBy_untouched {cs : List (Clause τ σ)} {t : τ} (h : touch on source cs t = none) :
    updatedBy on source cs t = false := by
  unfold updatedBy
  unfold touch at h
  rw [List.find?_eq_none.mpr fun c hc => by simp [List.findSome?_eq_none_iff.mp h c hc]]
  rfl

theorem updatedBy_keeps {before : List (Clause τ σ)} {c : Clause τ σ} (hc : c.isUpdate = false) :
    updatedBy on source (before ++ [c]) = updatedBy on source before := by
  funext t
  rw [updatedBy_append, hc, Bool.and_false]
  by_cases h : (touch on source before t).isSome = true
  · rw [if_pos h]
  · rw [if_neg h, updatedBy_untouched (by simpa using h)]

section
variable {target : List τ} {before : List (Clause τ σ)} {applies : τ → σ → Bool} {row : τ → σ → τ}
  (hs : Independent on source target before (.update applies row))
include hs

/-- An update clause counts the rows that it is the first to apply to. -/
theorem updatedBy_step {t : τ} (ht : t ∈ target) :
    (updatedBy on source (before ++ [.update applies row]) t).toNat =
      (updatedBy on source before t).toNat + ((outcome on source before t).flatMap (meets on source applies)).length := by
  unfold outcome
  rw [updatedBy_append]
  cases htouch : touch on source before t with
  | some written =>
    have hnone : written.flatMap (meets on source applies) = [] := by
      rw [List.flatMap_eq_nil_iff]
      exact fun x hx => hs.1 x (.inl ⟨t, ht, written, htouch, hx⟩)
    rw [Option.getD_some, hnone]
    simp
  | none =>
    have hone := hs.2 t ht htouch
    rw [Option.getD_none, List.flatMap_singleton, updatedBy_untouched htouch]
    cases hm : meets on source applies t with
    | nil => simp [Clause.takes, hm]
    | cons s rest =>
      rw [hm, List.length_cons] at hone
      obtain rfl := List.length_eq_zero_iff.mp (show rest.length = 0 by omega)
      simp [Clause.takes, Clause.isUpdate, hm]

theorem updatedCount_step : updatedCount on source target (before ++ [.update applies row]) =
    updatedCount on source target before + ((merged on source target before).flatMap (meets on source applies)).length := by
  have hins : (insertions on source target before).flatMap (meets on source applies) = [] := by
    rw [List.flatMap_eq_nil_iff]
    exact fun x hx => hs.1 x (.inr hx)
  have hcount : ∀ ts : List τ, (∀ t ∈ ts, t ∈ target) →
      ts.countP (updatedBy on source (before ++ [.update applies row])) =
        ts.countP (updatedBy on source before) +
          (ts.flatMap fun t => (outcome on source before t).flatMap (meets on source applies)).length := by
    intro ts
    induction ts with
    | nil => exact fun _ => rfl
    | cons t ts ih =>
      intro hin
      have hstep := updatedBy_step hs (hin t List.mem_cons_self)
      have hrest := ih fun x hx => hin x (List.mem_cons_of_mem _ hx)
      rw [List.countP_cons, List.countP_cons, List.flatMap_cons, List.length_append, hrest]
      simp only [Bool.toNat, Bool.cond_eq_ite] at hstep
      omega
  unfold updatedCount merged
  rw [List.flatMap_append, hins, List.append_nil, List.flatMap_assoc]
  exact hcount target fun _ ht => ht

end

/-! ## The run -/

/-- What the run of some clauses has left and counted. -/
structure Progress (on : τ → σ → Bool) (source : List σ) (target : List τ) (before : List (Clause τ σ)) (current : List τ)
    (done : Nat × Nat) : Prop where
  rows : current.Perm (merged on source target before)
  updated : done.1 = updatedCount on source target before
  inserted : done.2 = (insertions on source target before).length

theorem progress_start (target : List τ) : Progress on source target [] target (0, 0) := by
  have hout : target.flatMap (outcome on source ([] : List (Clause τ σ))) = target := flatMap_self fun _ _ => rfl
  have hins : insertions on source target ([] : List (Clause τ σ)) = [] := List.flatMap_eq_nil_iff.mpr fun _ _ => rfl
  refine ⟨?_, ?_, ?_⟩
  · unfold merged
    rw [hout, hins, List.append_nil]
  · refine (List.countP_eq_zero.mpr fun t _ => ?_).symm
    exact Bool.false_ne_true
  · rw [hins]
    rfl

theorem progress_nil (on : τ → σ → Bool) (target : List τ) (cs : List (Clause τ σ)) : Progress on [] target cs target (0, 0) := by
  have htakes : ∀ t, ∀ c ∈ cs, c.takes on [] t = none := by
    intro t c _
    cases c with
    | update applies row => rfl
    | delete applies => rfl
    | insert wants row => rfl
  have htouch : ∀ t, touch on [] cs t = none := fun t => List.findSome?_eq_none_iff.mpr (htakes t)
  have hout : target.flatMap (outcome on [] cs) = target := by
    refine flatMap_self fun t _ => ?_
    unfold outcome
    rw [htouch t]
    rfl
  refine ⟨?_, ?_, rfl⟩
  · unfold merged
    rw [hout]
    exact List.Perm.of_eq (List.append_nil _).symm
  · refine (List.countP_eq_zero.mpr fun t _ => ?_).symm
    rw [updatedBy_untouched (htouch t)]
    exact Bool.false_ne_true

/-- A clause that is run alone and does what it should updates no row twice. -/
theorem independent_alone {target : List τ} {c : Clause τ σ}
    (h : (c.run on source target).length = (merged on source target [c]).length) : Independent on source target [] c := by
  have hnone : ∀ x, ¬ Touched on source target ([] : List (Clause τ σ)) x := by
    rintro x (⟨t, -, rows, htouch, -⟩ | hx)
    · cases htouch
    · rw [show insertions on source target ([] : List (Clause τ σ)) = [] from List.flatMap_eq_nil_iff.mpr fun _ _ => rfl] at hx
      cases hx
  cases c with
  | update applies row =>
    refine ⟨fun x hx => absurd hx (hnone x), ?_⟩
    have hins : insertions on source target [Clause.update applies row] = [] := List.flatMap_eq_nil_iff.mpr fun _ _ => rfl
    unfold merged at h
    rw [hins, List.append_nil] at h
    clear hnone hins
    change (target.flatMap (rewritten on source applies row)).length = _ at h
    -- each row becomes at least one, and should become one
    have hout : ∀ t, (outcome on source [Clause.update applies row] t).length = 1 := by
      intro t
      unfold outcome touch
      rw [findSome?_one, show (Clause.update applies row).takes on source t =
        (meets on source applies t).head?.map fun s => [row t s] from rfl]
      cases (meets on source applies t).head? with
      | none => rfl
      | some s => rfl
    have hrow : ∀ t, (rewritten on source applies row t).length = max 1 (meets on source applies t).length := by
      intro t
      unfold rewritten
      cases meets on source applies t with
      | nil => rfl
      | cons s ss => simp
    have hall : ∀ ts : List τ, (ts.flatMap (outcome on source [Clause.update applies row])).length ≤
        (ts.flatMap (rewritten on source applies row)).length ∧
        ((ts.flatMap (rewritten on source applies row)).length =
          (ts.flatMap (outcome on source [Clause.update applies row])).length →
          ∀ t ∈ ts, (meets on source applies t).length ≤ 1) := by
      intro ts
      induction ts with
      | nil => exact ⟨Nat.le_refl _, fun _ => nofun⟩
      | cons t ts ih =>
        have hlen := hrow t
        simp only [List.flatMap_cons, List.length_append, hout]
        refine ⟨by omega, fun heq x hx => ?_⟩
        cases hx with
        | head => omega
        | tail _ hx => exact ih.2 (by omega) x hx
    exact fun t ht _ => (hall target).2 h t ht
  | delete applies => exact fun x hx => absurd hx (hnone x)
  | insert wants row =>
    intro s _ _
    have hmerged : (merged on source target ([] : List (Clause τ σ))).Perm target := (progress_start target).rows.symm
    rw [List.any_eq_true, List.any_eq_true]
    simp only [hmerged.mem_iff]
    simp [inserted]

theorem Progress.step {target : List τ} {before : List (Clause τ σ)} {c : Clause τ σ} (hs : Independent on source target before c)
    (hc : FirstOfKind on source target before c) {current : List τ} {done : Nat × Nat}
    (h : Progress on source target before current done) :
    Progress on source target (before ++ [c]) (c.run on source current) (c.report on source current done) := by
  have hrows : (c.run on source current).Perm (merged on source target (before ++ [c])) :=
    (run_perm h.rows c).trans (merged_step hs)
  cases c with
  | update applies row =>
    refine ⟨hrows, ?_, ?_⟩
    · have hcount := updatedCount_step hs
      rw [show updatedCount on source target before = 0 from hc, Nat.zero_add] at hcount
      exact (h.rows.flatMap_right _).length_eq.trans hcount.symm
    · rw [insertions_step id]
      exact h.inserted
  | delete applies =>
    refine ⟨hrows, ?_, ?_⟩
    · unfold updatedCount
      rw [updatedBy_keeps rfl]
      exact h.updated
    · rw [insertions_step id]
      exact h.inserted
  | insert wants row =>
    refine ⟨hrows, ?_, ?_⟩
    · unfold updatedCount
      rw [updatedBy_keeps rfl]
      exact h.updated
    · have hins := (insertions_insert hs rfl).length_eq
      rw [show insertions on source target before = [] from hc, List.nil_append, List.length_map] at hins
      show ((unmatched on source current).filter wants).length = _
      rw [unmatched_congr fun x => h.rows.mem_iff]
      exact hins

end Merging
