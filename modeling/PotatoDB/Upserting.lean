import Mathlib

/-!
# Upserts row by row and in bulk

A source is put into a table by a key. Row by row, a source row whose key is in the table is skipped or updates the row
that has it, and another one is inserted. In bulk, the source rows are told apart by the keys of the table at the start: the
new ones are inserted together, and then each row of the table is updated by the first source row that has its key. The two
agree exactly where no key comes twice.
-/

namespace Upserting

variable {τ σ κ : Type} [DecidableEq κ]

/-- What is done with a source row whose key is in the table. -/
inductive Action (τ σ : Type) where
  | nothing
  | update (wants : τ → σ → Bool) (upd : τ → σ → τ)

structure State (τ κ : Type) where
  table : List τ
  /-- The keys of the rows that the statement has inserted or updated. -/
  affected : List κ
  inserted : Nat
  updated : Nat
  skipped : Nat

def State.counts (st : State τ κ) : Nat × Nat × Nat := (st.inserted, st.updated, st.skipped)

variable (key : τ → Option κ) (skey : σ → Option κ) (row : σ → τ)

/-- The rows have the same key, without NULL. -/
def conflicts (t : τ) (s : σ) : Bool := (skey s).any fun k => key t = some k

/-! ## Row by row -/

/-- `none` where the statement is rejected, for it would affect a row twice. -/
def step (a : Action τ σ) (st : State τ κ) (s : σ) : Option (State τ κ) :=
  if st.table.any (conflicts key skey · s) then
    match a with
    | .nothing => some { st with skipped := st.skipped + 1 }
    | .update wants upd =>
      if (skey s).any (st.affected.contains ·) then none
      else if st.table.any fun t => conflicts key skey t s && wants t s then
        some { st with
          table := st.table.map fun t => if conflicts key skey t s && wants t s then upd t s else t
          affected := (skey s).toList ++ st.affected
          updated := st.updated + 1 }
      else some { st with skipped := st.skipped + 1 }
  else
    some { st with
      table := st.table ++ [row s]
      affected := (skey s).toList ++ st.affected
      inserted := st.inserted + 1 }

def run (a : Action τ σ) (st : State τ κ) (source : List σ) : Option (State τ κ) := source.foldlM (step key skey row a) st

def start (table : List τ) : State τ κ := ⟨table, [], 0, 0, 0⟩

/-! ## In bulk -/

/-- No row of the table has the key. -/
def fresh (table : List τ) (s : σ) : Bool := !table.any (conflicts key skey · s)

/-- A row after the first source row that wants to update it. -/
def applied (wants : τ → σ → Bool) (upd : τ → σ → τ) (source : List σ) (t : τ) : τ :=
  match source.find? fun s => conflicts key skey t s && wants t s with
  | none => t
  | some s => upd t s

def withFresh (table : List τ) (source : List σ) : List τ := table ++ (source.filter (fresh key skey table)).map row

def stale (table : List τ) (source : List σ) : List σ := source.filter fun s => !fresh key skey table s

def Action.bulk (table : List τ) (source : List σ) : Action τ σ → List τ
  | nothing => withFresh key skey row table source
  | update wants upd => (withFresh key skey row table source).map (applied key skey wants upd (stale key skey table source))

def Action.report (table : List τ) (source : List σ) : Action τ σ → Nat × Nat × Nat
  | nothing => ((source.filter (fresh key skey table)).length, 0, (stale key skey table source).length)
  | update .. => ((source.filter (fresh key skey table)).length, (stale key skey table source).length, 0)

/-! ## When the two agree -/

/-- No key of a row that counts comes twice, and an update updates a row for each source row whose key is in the table. -/
def Action.Distinct (table : List τ) (source : List σ) : Action τ σ → Prop
  | nothing => ((source.filter (fresh key skey table)).filterMap skey).Nodup
  | update wants _ => (source.filterMap skey).Nodup ∧
      ∀ s ∈ stale key skey table source, table.any (fun t => conflicts key skey t s && wants t s) = true

/-- An update gives no row the key of another source row. -/
def Action.Keeps (table : List τ) (source : List σ) : Action τ σ → Prop
  | nothing => True
  | update wants upd => ∀ t ∈ table, ∀ s ∈ source, conflicts key skey t s = true → wants t s = true →
      ∀ s' ∈ source, conflicts key skey (upd t s) s' = conflicts key skey t s'

instance decidableDistinct (table : List τ) (source : List σ) (a : Action τ σ) : Decidable (a.Distinct key skey table source) :=
  match a with
  | .nothing => inferInstanceAs (Decidable (List.Nodup _))
  | .update .. => inferInstanceAs (Decidable (List.Nodup _ ∧ ∀ s ∈ _, _ = true))

instance decidableKeeps (table : List τ) (source : List σ) (a : Action τ σ) : Decidable (a.Keeps key skey table source) :=
  match a with
  | .nothing => inferInstanceAs (Decidable True)
  | .update wants _ => inferInstanceAs (Decidable (∀ t ∈ table, ∀ s ∈ source, conflicts key skey t s = true → wants t s = true →
      ∀ s' ∈ source, _ = _))

/-- The table and the counts are those of the rows one by one, which is not rejected. -/
def RowByRow (a : Action τ σ) (table : List τ) (source : List σ) (result : List τ) (counts : Nat × Nat × Nat) : Prop :=
  ∃ st, run key skey row a (start table) source = some st ∧ result.Perm st.table ∧ counts = st.counts

variable {key skey row}

theorem conflicts_iff {t : τ} {s : σ} : conflicts key skey t s = true ↔ ∃ k, skey s = some k ∧ key t = some k := by
  unfold conflicts
  rw [Option.any_eq_true]
  simp

theorem fresh_iff {table : List τ} {s : σ} : fresh key skey table s = true ↔ ∀ t ∈ table, conflicts key skey t s = false := by
  unfold fresh
  rw [Bool.not_eq_true', List.any_eq_false]
  simp

theorem mem_withFresh {table : List τ} {source : List σ} {t : τ} (h : t ∈ withFresh key skey row table source) :
    t ∈ table ∨ ∃ s ∈ source, fresh key skey table s = true ∧ t = row s := by
  cases List.mem_append.mp h with
  | inl h => exact .inl h
  | inr h =>
    obtain ⟨s, hs, rfl⟩ := List.mem_map.mp h
    exact .inr ⟨s, (List.mem_filter.mp hs).1, (List.mem_filter.mp hs).2, rfl⟩

theorem filter_snoc {α : Type} (p : α → Bool) (xs : List α) (x : α) :
    (xs ++ [x]).filter p = if p x = true then xs.filter p ++ [x] else xs.filter p := by
  rw [List.filter_append]
  by_cases h : p x = true
  · rw [if_pos h, List.filter_cons_of_pos h, List.filter_nil]
  · rw [if_neg h, List.filter_cons_of_neg h, List.filter_nil, List.append_nil]

/-! ## A run that is good to its end or goes bad -/

/-- A run whose state is known as long as what it has read is good, and is bad from the first element on that is not. -/
theorem run_split {ς : Type} {f : ς → σ → Option ς} {source : List σ} {Known Bad : List σ → ς → Prop} {Good : List σ → Prop}
    (hinitial : ∀ xs ys, Good (xs ++ ys) → Good xs)
    (hgood : ∀ done s rest st, done ++ s :: rest = source → Known done st → Good (done ++ [s]) →
      ∃ st', f st s = some st' ∧ Known (done ++ [s]) st')
    (hbad : ∀ done s rest st st', done ++ s :: rest = source → Known done st → Good done → ¬ Good (done ++ [s]) →
      f st s = some st' → Bad (done ++ [s]) st')
    (hstays : ∀ done s rest st st', done ++ s :: rest = source → Bad done st → f st s = some st' → Bad (done ++ [s]) st') :
    ∀ rest done st, done ++ rest = source → Known done st → Good done →
      (Good source → ∃ st', rest.foldlM f st = some st' ∧ Known source st') ∧
      (¬ Good source → ∀ st', rest.foldlM f st = some st' → Bad source st') := by
  have hrest : ∀ rest done st st', done ++ rest = source → Bad done st → rest.foldlM f st = some st' → Bad source st' := by
    intro rest
    induction rest with
    | nil =>
      intro done st st' heq hb hrun
      rw [List.append_nil] at heq
      rw [← heq, ← Option.some.inj hrun]
      exact hb
    | cons s rest ih =>
      intro done st st' heq hb hrun
      rw [List.foldlM_cons, Option.bind_eq_bind, Option.bind_eq_some_iff] at hrun
      obtain ⟨mid, hmid, hrun⟩ := hrun
      exact ih (done ++ [s]) mid st' (by rw [List.append_assoc]; exact heq) (hstays done s rest st mid heq hb hmid) hrun
  intro rest
  induction rest with
  | nil =>
    intro done st heq hk hg
    rw [List.append_nil] at heq
    subst heq
    exact ⟨fun _ => ⟨st, rfl, hk⟩, fun hn => absurd hg hn⟩
  | cons s rest ih =>
    intro done st heq hk hg
    have heq' : (done ++ [s]) ++ rest = source := by rw [List.append_assoc]; exact heq
    by_cases hs : Good (done ++ [s])
    · obtain ⟨mid, hmid, hknown⟩ := hgood done s rest st heq hk hs
      rw [List.foldlM_cons, hmid]
      exact ih (done ++ [s]) mid heq' hknown hs
    · refine ⟨fun hgs => absurd (hinitial (done ++ [s]) rest (heq' ▸ hgs)) hs, fun _ st' hrun => ?_⟩
      rw [List.foldlM_cons, Option.bind_eq_bind, Option.bind_eq_some_iff] at hrun
      obtain ⟨mid, hmid, hrun⟩ := hrun
      exact hrest rest (done ++ [s]) mid st' heq' (hbad done s rest st mid heq hk hg hs hmid) hrun

/-! ## DO NOTHING -/

section
variable {table : List τ} {source : List σ} (hrow : ∀ s ∈ source, fresh key skey table s = true → key (row s) = skey s)

theorem stale_snoc (table : List τ) (done : List σ) (s : σ) : stale key skey table (done ++ [s]) =
    if fresh key skey table s = true then stale key skey table done else stale key skey table done ++ [s] := by
  unfold stale
  rw [filter_snoc]
  by_cases h : fresh key skey table s = true
  · rw [if_pos h, if_neg (by simp [h])]
  · rw [if_neg h, if_pos (by simpa using h)]

theorem withFresh_snoc (table : List τ) (done : List σ) (s : σ) : withFresh key skey row table (done ++ [s]) =
    if fresh key skey table s = true then withFresh key skey row table done ++ [row s]
    else withFresh key skey row table done := by
  unfold withFresh
  rw [filter_snoc]
  by_cases h : fresh key skey table s = true
  · rw [if_pos h, if_pos h, List.map_append, ← List.append_assoc]
    rfl
  · rw [if_neg h, if_neg h]

theorem stale_any {done : List σ} {s : σ} (h : ¬ fresh key skey table s = true) :
    (withFresh key skey row table done).any (conflicts key skey · s) = true := by
  unfold fresh at h
  rw [Bool.not_eq_true', Bool.not_eq_false] at h
  obtain ⟨t, ht, hc⟩ := List.any_eq_true.mp h
  exact List.any_eq_true.mpr ⟨t, List.mem_append_left _ ht, hc⟩

omit [DecidableEq κ] in
theorem nodup_snoc {done : List σ} {s : σ} : ((done ++ [s]).filterMap skey).Nodup ↔
    (done.filterMap skey).Nodup ∧ ∀ k, skey s = some k → k ∉ done.filterMap skey := by
  rw [List.filterMap_append, List.nodup_append]
  cases hs : skey s with
  | none => simp [hs]
  | some k =>
    simp only [List.filterMap_cons, hs, List.filterMap_nil, List.nodup_cons, List.not_mem_nil, not_false_eq_true, List.nodup_nil,
      and_self, List.mem_singleton, forall_eq, true_and, Option.some.injEq, forall_eq']
    constructor
    · intro h
      exact ⟨h.1, fun hk => h.2 k hk rfl⟩
    · intro h
      exact ⟨h.1, fun a ha heq => h.2 (heq ▸ ha)⟩

include hrow

/-- A source row that finds no row of the table finds one that was inserted if and only if its key was. -/
theorem any_withFresh {done rest : List σ} {s : σ} (heq : done ++ s :: rest = source) (hs : fresh key skey table s = true) :
    (withFresh key skey row table done).any (conflicts key skey · s) = true ↔
      ∃ k, skey s = some k ∧ k ∈ (done.filter (fresh key skey table)).filterMap skey := by
  rw [List.any_eq_true]
  constructor
  · rintro ⟨t, ht, hc⟩
    cases List.mem_append.mp ht with
    | inl ht =>
      rw [fresh_iff.mp hs t ht] at hc
      cases hc
    | inr ht =>
      obtain ⟨s', hs', rfl⟩ := List.mem_map.mp ht
      obtain ⟨k, hk, hkey⟩ := conflicts_iff.mp hc
      obtain ⟨hin, hfresh⟩ := List.mem_filter.mp hs'
      rw [hrow s' (heq ▸ List.mem_append_left _ hin) hfresh] at hkey
      exact ⟨k, hk, List.mem_filterMap.mpr ⟨s', hs', hkey⟩⟩
  · rintro ⟨k, hk, hmem⟩
    obtain ⟨s', hs', hkey⟩ := List.mem_filterMap.mp hmem
    obtain ⟨hin, hfresh⟩ := List.mem_filter.mp hs'
    refine ⟨row s', List.mem_append_right _ (List.mem_map_of_mem hs'), conflicts_iff.mpr ⟨k, hk, ?_⟩⟩
    rw [hrow s' (heq ▸ List.mem_append_left _ hin) hfresh]
    exact hkey

/-- After source rows whose new keys are distinct, the next one with a new key is inserted, and another one is skipped. -/
theorem step_nothing {done rest : List σ} {s : σ} {st : State τ κ} (heq : done ++ s :: rest = source)
    (htable : st.table = withFresh key skey row table done)
    (hcounts : st.counts = Action.report key skey table done (.nothing : Action τ σ))
    (hg : Action.Distinct key skey table (done ++ [s]) (.nothing : Action τ σ)) :
    ∃ st', step key skey row .nothing st s = some st' ∧ st'.table = withFresh key skey row table (done ++ [s]) ∧
      st'.counts = Action.report key skey table (done ++ [s]) (.nothing : Action τ σ) := by
  obtain ⟨hins, hupd, hskip⟩ : st.inserted = _ ∧ st.updated = _ ∧ st.skipped = _ := by
    simpa [State.counts, Action.report] using hcounts
  unfold step
  rw [htable]
  by_cases hs : fresh key skey table s = true
  · rw [if_neg]
    · refine ⟨_, rfl, ?_, ?_⟩
      · rw [withFresh_snoc, if_pos hs]
      · simp [State.counts, Action.report, stale_snoc, hs, hins, hupd, hskip]
    · rw [any_withFresh hrow heq hs]
      rintro ⟨k, hk, hmem⟩
      unfold Action.Distinct at hg
      rw [filter_snoc, if_pos hs, nodup_snoc] at hg
      exact hg.2 k hk hmem
  · rw [if_pos (stale_any hs)]
    refine ⟨_, rfl, ?_, ?_⟩
    · rw [withFresh_snoc, if_neg hs]
    · simp [State.counts, Action.report, stale_snoc, hs, hins, hupd, hskip]

/-- The first source row whose new key comes again finds the row that was inserted under it. -/
theorem step_nothing_again {done rest : List σ} {s : σ} {st : State τ κ} (heq : done ++ s :: rest = source)
    (htable : st.table = withFresh key skey row table done)
    (hg : Action.Distinct key skey table done (.nothing : Action τ σ))
    (hn : ¬ Action.Distinct key skey table (done ++ [s]) (.nothing : Action τ σ)) :
    fresh key skey table s = true ∧ step key skey row .nothing st s = some { st with skipped := st.skipped + 1 } := by
  unfold Action.Distinct at hg hn
  rw [filter_snoc] at hn
  by_cases hs : fresh key skey table s = true
  · rw [if_pos hs, nodup_snoc] at hn
    have hany : (withFresh key skey row table done).any (conflicts key skey · s) = true := by
      rw [any_withFresh hrow heq hs]
      by_contra hno
      exact hn ⟨hg, fun k hk hmem => hno ⟨k, hk, hmem⟩⟩
    unfold step
    rw [htable, if_pos hany]
    exact ⟨hs, rfl⟩
  · rw [if_neg hs] at hn
    exact absurd hg hn

omit hrow in
theorem step_nothing_behind {s : σ} {st st' : State τ κ} (hst : step key skey row .nothing st s = some st')
    (hsub : ∀ t ∈ table, t ∈ st.table) : (∀ t ∈ table, t ∈ st'.table) ∧
      (st'.inserted = st.inserted ∨ fresh key skey table s = true ∧ st'.inserted = st.inserted + 1) := by
  unfold step at hst
  by_cases hany : st.table.any (conflicts key skey · s) = true
  · rw [if_pos hany] at hst
    obtain rfl := Option.some.inj hst
    exact ⟨hsub, .inl rfl⟩
  · rw [if_neg hany] at hst
    obtain rfl := Option.some.inj hst
    refine ⟨fun t ht => List.mem_append_left _ (hsub t ht), .inr ⟨?_, rfl⟩⟩
    rw [fresh_iff]
    intro t ht
    by_contra hc
    exact hany (List.any_eq_true.mpr ⟨t, hsub t ht, by simpa using hc⟩)

theorem run_nothing : (Action.Distinct key skey table source (.nothing : Action τ σ) →
      ∃ st, run key skey row .nothing (start table) source = some st ∧ st.table = withFresh key skey row table source ∧
        st.counts = Action.report key skey table source (.nothing : Action τ σ)) ∧
    (¬ Action.Distinct key skey table source (.nothing : Action τ σ) → ∀ st : State τ κ,
      run key skey row .nothing (start table) source = some st →
        st.inserted < (source.filter (fresh key skey table)).length) := by
  have hsplit := @run_split σ (State τ κ) (step key skey row .nothing) source
    (fun done st => st.table = withFresh key skey row table done ∧
      st.counts = Action.report key skey table done (.nothing : Action τ σ))
    (fun done st => (∀ t ∈ table, t ∈ st.table) ∧ st.inserted < (done.filter (fresh key skey table)).length)
    (fun done => Action.Distinct key skey table done (.nothing : Action τ σ)) ?_ ?_ ?_ ?_ source [] (start table) rfl
    ⟨(List.append_nil _).symm, rfl⟩ List.nodup_nil
  · exact ⟨hsplit.1, fun hn st hst => (hsplit.2 hn st hst).2⟩
  · intro xs ys h
    unfold Action.Distinct at h ⊢
    rw [List.filter_append, List.filterMap_append] at h
    exact (List.nodup_append.mp h).1
  · intro done s rest st heq hk hg
    exact step_nothing hrow heq hk.1 hk.2 hg
  · intro done s rest st st' heq hk hg hn hst
    obtain ⟨hs, hskip⟩ := step_nothing_again hrow heq hk.1 hg hn
    obtain rfl := Option.some.inj (hskip.symm.trans hst)
    refine ⟨fun t ht => hk.1 ▸ List.mem_append_left _ ht, ?_⟩
    rw [filter_snoc, if_pos hs, List.length_append, show st.inserted = _ from (Prod.mk.inj hk.2).1]
    exact Nat.lt_succ_self _
  · intro done s rest st st' heq hb hst
    obtain ⟨hsub, hins⟩ := step_nothing_behind hst hb.1
    refine ⟨hsub, ?_⟩
    rw [filter_snoc]
    cases hins with
    | inl hins =>
      rw [hins]
      by_cases hs : fresh key skey table s = true
      · rw [if_pos hs, List.length_append]
        exact Nat.lt_succ_of_lt hb.2
      · rw [if_neg hs]
        exact hb.2
    | inr hins =>
      rw [if_pos hins.1, hins.2, List.length_append]
      exact Nat.succ_lt_succ hb.2

end

/-! ## DO UPDATE -/

omit [DecidableEq κ] in
theorem eq_of_key {done : List σ} (hn : (done.filterMap skey).Nodup) {a b : σ} {k : κ} (ha : a ∈ done) (hb : b ∈ done)
    (hka : skey a = some k) (hkb : skey b = some k) : a = b := by
  induction done with
  | nil => cases ha
  | cons x xs ih =>
    by_cases hx : skey x = some k
    · rw [List.filterMap_cons_some hx, List.nodup_cons] at hn
      have hnot : ∀ y ∈ xs, ¬ skey y = some k := fun y hy hky => hn.1 (List.mem_filterMap.mpr ⟨y, hy, hky⟩)
      cases ha with
      | head =>
        cases hb with
        | head => rfl
        | tail _ hb => exact absurd hkb (hnot b hb)
      | tail _ ha => exact absurd hka (hnot a ha)
    · have hn' : (xs.filterMap skey).Nodup := by
        rw [List.filterMap_cons] at hn
        split at hn
        · exact hn
        · exact (List.nodup_cons.mp hn).2
      cases ha with
      | head => exact absurd hka hx
      | tail _ ha =>
        cases hb with
        | head => exact absurd hkb hx
        | tail _ hb => exact ih hn' ha hb

section
variable {table : List τ} {source : List σ} {wants : τ → σ → Bool} {upd : τ → σ → τ}

theorem applied_none {done : List σ} {t : τ} (h : ∀ s ∈ done, conflicts key skey t s = false) :
    applied key skey wants upd done t = t := by
  unfold applied
  rw [List.find?_eq_none.mpr fun s hs => by simp [h s hs]]

theorem applied_snoc (done : List σ) (s : σ) (t : τ) : applied key skey wants upd (done ++ [s]) t =
    match done.find? fun s => conflicts key skey t s && wants t s with
    | some s₀ => upd t s₀
    | none => if (conflicts key skey t s && wants t s) = true then upd t s else t := by
  unfold applied
  rw [List.find?_append]
  cases done.find? fun s => conflicts key skey t s && wants t s with
  | some s₀ => rfl
  | none =>
    rw [Option.none_or, List.find?_singleton]
    by_cases h : (conflicts key skey t s && wants t s) = true
    · rw [if_pos h, if_pos h]
    · rw [if_neg h, if_neg h]

theorem bulk_nil (a : Action τ σ) (table : List τ) : a.bulk key skey row table [] = table := by
  cases a with
  | nothing => exact List.append_nil _
  | update wants upd =>
    show (table ++ []).map _ = table
    rw [List.append_nil]
    exact (List.map_congr_left fun t _ => applied_none nofun).trans (List.map_id _)

theorem report_nil (a : Action τ σ) (table : List τ) : a.report key skey table [] = (0, 0, 0) := by
  cases a with
  | nothing => rfl
  | update wants upd => rfl

theorem mem_stale {table : List τ} {done : List σ} {s : σ} :
    s ∈ stale key skey table done ↔ s ∈ done ∧ fresh key skey table s = false := by
  unfold stale
  rw [List.mem_filter]
  simp

variable (hkeep : Action.Keeps key skey table source (.update wants upd))
include hkeep

/-- An updated row has the keys of the source that it had. -/
theorem applied_conflicts {done : List σ} (hsub : ∀ s ∈ done, s ∈ source) {t : τ} (ht : t ∈ table) {s : σ} (hs : s ∈ source) :
    conflicts key skey (applied key skey wants upd (stale key skey table done) t) s = conflicts key skey t s := by
  unfold applied
  cases hf : (stale key skey table done).find? fun s => conflicts key skey t s && wants t s with
  | none => rfl
  | some s₀ =>
    have hboth := List.find?_some hf
    rw [Bool.and_eq_true] at hboth
    have hin := (mem_stale.mp (List.mem_of_find?_eq_some hf)).1
    exact hkeep t ht s₀ (hsub s₀ hin) hboth.1 hboth.2 s hs

omit hkeep
variable (hrow : ∀ s ∈ source, fresh key skey table s = true → key (row s) = skey s)
include hrow

theorem applied_row {done : List σ} (hn : (done.filterMap skey).Nodup) {s : σ} (hs : s ∈ source)
    (hfresh : fresh key skey table s = true) (hkey : s ∈ done ∨ ∀ k, skey s = some k → k ∉ done.filterMap skey) :
    applied key skey wants upd (stale key skey table done) (row s) = row s := by
  refine applied_none fun s' hs' => ?_
  obtain ⟨hin, hstale⟩ := mem_stale.mp hs'
  by_contra hc
  rw [Bool.not_eq_false] at hc
  obtain ⟨k, hk', hk⟩ := conflicts_iff.mp hc
  rw [hrow s hs hfresh] at hk
  cases hkey with
  | inl hmem =>
    rw [eq_of_key hn hmem hin hk hk', hstale] at hfresh
    cases hfresh
  | inr hnot => exact hnot k hk (List.mem_filterMap.mpr ⟨s', hin, hk'⟩)

include hkeep

/-- A source row finds a row of the table so far if and only if it did at the start or its key came before. -/
theorem any_bulk {done rest : List σ} {s : σ} (heq : done ++ s :: rest = source) (hn : (done.filterMap skey).Nodup) :
    (Action.bulk key skey row table done (.update wants upd)).any (conflicts key skey · s) = true ↔
      fresh key skey table s = false ∨ ∃ k, skey s = some k ∧ k ∈ done.filterMap skey := by
  have hsub : ∀ s ∈ done, s ∈ source := fun s hs => heq ▸ List.mem_append_left _ hs
  have hs : s ∈ source := heq ▸ List.mem_append_right _ List.mem_cons_self
  rw [List.any_eq_true]
  constructor
  · rintro ⟨x, hx, hc⟩
    obtain ⟨t, ht, rfl⟩ := List.mem_map.mp hx
    cases mem_withFresh ht with
    | inl ht =>
      rw [applied_conflicts hkeep hsub ht hs] at hc
      refine .inl ?_
      by_contra hf
      rw [Bool.not_eq_false] at hf
      rw [fresh_iff.mp hf t ht] at hc
      cases hc
    | inr ht =>
      obtain ⟨s', hs', hfresh, rfl⟩ := ht
      rw [applied_row hrow hn (hsub s' hs') hfresh (.inl hs')] at hc
      obtain ⟨k, hk, hkey⟩ := conflicts_iff.mp hc
      rw [hrow s' (hsub s' hs') hfresh] at hkey
      exact .inr ⟨k, hk, List.mem_filterMap.mpr ⟨s', hs', hkey⟩⟩
  · have hold : fresh key skey table s = false → ∃ x ∈ Action.bulk key skey row table done (.update wants upd),
        conflicts key skey x s = true := by
      intro hstale
      unfold fresh at hstale
      rw [Bool.not_eq_false'] at hstale
      obtain ⟨t, ht, hc⟩ := List.any_eq_true.mp hstale
      refine ⟨_, List.mem_map_of_mem (List.mem_append_left _ ht), ?_⟩
      rw [applied_conflicts hkeep hsub ht hs]
      exact hc
    intro h
    cases h with
    | inl h => exact hold h
    | inr h =>
      obtain ⟨k, hk, hmem⟩ := h
      obtain ⟨s', hs', hkey⟩ := List.mem_filterMap.mp hmem
      by_cases hfresh : fresh key skey table s' = true
      · refine ⟨_, List.mem_map_of_mem (List.mem_append_right _ (List.mem_map_of_mem (List.mem_filter.mpr ⟨hs', hfresh⟩))), ?_⟩
        rw [applied_row hrow hn (hsub s' hs') hfresh (.inl hs')]
        refine conflicts_iff.mpr ⟨k, hk, ?_⟩
        rw [hrow s' (hsub s' hs') hfresh]
        exact hkey
      · -- the two source rows have the same key, and so both are stale
        refine hold ?_
        unfold fresh at hfresh ⊢
        rw [Bool.not_eq_true', Bool.not_eq_false] at hfresh
        rw [Bool.not_eq_false']
        obtain ⟨t, ht, hc⟩ := List.any_eq_true.mp hfresh
        refine List.any_eq_true.mpr ⟨t, ht, ?_⟩
        obtain ⟨k', hk', hkt⟩ := conflicts_iff.mp hc
        obtain rfl := Option.some.inj (hkey.symm.trans hk')
        exact conflicts_iff.mpr ⟨k, hk, hkt⟩

theorem applied_step {done rest : List σ} {s : σ} (heq : done ++ s :: rest = source) (hn : (done.filterMap skey).Nodup)
    (hkey : ∀ k, skey s = some k → k ∉ done.filterMap skey) {x : τ} (hx : x ∈ withFresh key skey row table done) :
    (conflicts key skey (applied key skey wants upd (stale key skey table done) x) s = true →
      x ∈ table ∧ applied key skey wants upd (stale key skey table done) x = x) ∧
    applied key skey wants upd (stale key skey table done ++ [s]) x =
      if (conflicts key skey (applied key skey wants upd (stale key skey table done) x) s &&
          wants (applied key skey wants upd (stale key skey table done) x) s) = true
        then upd (applied key skey wants upd (stale key skey table done) x) s
        else applied key skey wants upd (stale key skey table done) x := by
  have hsub : ∀ s ∈ done, s ∈ source := fun s hs => heq ▸ List.mem_append_left _ hs
  have hs : s ∈ source := heq ▸ List.mem_append_right _ List.mem_cons_self
  rw [applied_snoc]
  -- no source row before has the key of a row that this one finds
  have hnone : x ∈ table → conflicts key skey x s = true → ∀ s₀ ∈ stale key skey table done, conflicts key skey x s₀ = false := by
    intro _ hc s₀ hs₀
    by_contra hc₀
    rw [Bool.not_eq_false] at hc₀
    obtain ⟨k, hk, hkx⟩ := conflicts_iff.mp hc
    obtain ⟨k', hk', hkx'⟩ := conflicts_iff.mp hc₀
    obtain rfl := Option.some.inj (hkx.symm.trans hkx')
    exact hkey k hk (List.mem_filterMap.mpr ⟨s₀, (mem_stale.mp hs₀).1, hk'⟩)
  cases mem_withFresh hx with
  | inl ht =>
    have hc := applied_conflicts hkeep hsub ht hs
    rw [hc]
    refine ⟨fun hcs => ⟨ht, applied_none (hnone ht hcs)⟩, ?_⟩
    by_cases hcs : conflicts key skey x s = true
    · rw [applied_none (hnone ht hcs), List.find?_eq_none.mpr fun s₀ hs₀ => by simp [hnone ht hcs s₀ hs₀]]
    · rw [Bool.not_eq_true] at hcs
      rw [hcs, Bool.false_and, if_neg Bool.false_ne_true, Bool.false_and, if_neg Bool.false_ne_true]
      unfold applied
      cases (stale key skey table done).find? fun s => conflicts key skey x s && wants x s with
      | none => rfl
      | some s₀ => rfl
  | inr ht =>
    obtain ⟨s', hs', hfresh, rfl⟩ := ht
    have hself : applied key skey wants upd (stale key skey table done) (row s') = row s' :=
      applied_row hrow hn (hsub s' hs') hfresh (.inl hs')
    have hcs : conflicts key skey (row s') s = false := by
      by_contra hc
      rw [Bool.not_eq_false] at hc
      obtain ⟨k, hk, hkx⟩ := conflicts_iff.mp hc
      rw [hrow s' (hsub s' hs') hfresh] at hkx
      exact hkey k hk (List.mem_filterMap.mpr ⟨s', hs', hkx⟩)
    rw [hself, hcs, Bool.false_and, if_neg Bool.false_ne_true]
    refine ⟨fun h => absurd h Bool.false_ne_true, ?_⟩
    have hself' := hself
    unfold applied at hself'
    cases hf : (stale key skey table done).find? fun s => conflicts key skey (row s') s && wants (row s') s with
    | none => rfl
    | some s₀ =>
      rw [hf] at hself'
      exact hself'

omit hkeep hrow in
theorem affected_new {done : List σ} {s : σ} {st : State τ κ} (haff : ∀ k, k ∈ st.affected ↔ k ∈ done.filterMap skey)
    (hkey : ∀ k, skey s = some k → k ∉ done.filterMap skey) : ¬ (skey s).any (st.affected.contains ·) = true := by
  rw [Option.any_eq_true]
  rintro ⟨k, hk, hmem⟩
  exact hkey k hk ((haff k).mp (List.contains_iff_mem.mp hmem))

/-- A row of the table so far wants the update if and only if one of the table did at the start. -/
theorem any_wants {done rest : List σ} {s : σ} (heq : done ++ s :: rest = source) (hn : (done.filterMap skey).Nodup)
    (hkey : ∀ k, skey s = some k → k ∉ done.filterMap skey) :
    (Action.bulk key skey row table done (.update wants upd)).any (fun t => conflicts key skey t s && wants t s) = true ↔
      table.any (fun t => conflicts key skey t s && wants t s) = true := by
  have hs : s ∈ source := heq ▸ List.mem_append_right _ List.mem_cons_self
  rw [List.any_eq_true, List.any_eq_true]
  constructor
  · rintro ⟨x, hx, hboth⟩
    obtain ⟨t, ht, rfl⟩ := List.mem_map.mp hx
    obtain ⟨hin, hsame⟩ := (applied_step hkeep hrow heq hn hkey ht).1 (Bool.and_eq_true _ _ ▸ hboth).1
    rw [hsame] at hboth
    exact ⟨t, hin, hboth⟩
  · rintro ⟨t, ht, hboth⟩
    have hin : t ∈ withFresh key skey row table done := List.mem_append_left _ ht
    have hc : conflicts key skey (applied key skey wants upd (stale key skey table done) t) s = true := by
      rw [applied_conflicts hkeep (fun s hs => heq ▸ List.mem_append_left _ hs) ht hs]
      exact (Bool.and_eq_true _ _ ▸ hboth).1
    refine ⟨_, List.mem_map_of_mem hin, ?_⟩
    rw [((applied_step hkeep hrow heq hn hkey hin).1 hc).2]
    exact hboth

/-- After source rows with distinct keys, the next one with another key is inserted or updates the row that has it. -/
theorem step_update {done rest : List σ} {s : σ} {st : State τ κ} (heq : done ++ s :: rest = source)
    (htable : st.table = Action.bulk key skey row table done (.update wants upd))
    (hcounts : st.counts = Action.report key skey table done (.update wants upd))
    (haff : ∀ k, k ∈ st.affected ↔ k ∈ done.filterMap skey)
    (hg : Action.Distinct key skey table (done ++ [s]) (.update wants upd)) :
    ∃ st', step key skey row (.update wants upd) st s = some st' ∧
      st'.table = Action.bulk key skey row table (done ++ [s]) (.update wants upd) ∧
      st'.counts = Action.report key skey table (done ++ [s]) (.update wants upd) ∧
      ∀ k, k ∈ st'.affected ↔ k ∈ (done ++ [s]).filterMap skey := by
  obtain ⟨hins, hupd, hskip⟩ : st.inserted = _ ∧ st.updated = _ ∧ st.skipped = _ := by
    simpa [State.counts, Action.report] using hcounts
  obtain ⟨hn, hkey⟩ := nodup_snoc.mp hg.1
  have hany := any_bulk hkeep hrow heq hn
  have hs : s ∈ source := heq ▸ List.mem_append_right _ List.mem_cons_self
  have haff' : ∀ k, k ∈ (skey s).toList ++ st.affected ↔ k ∈ (done ++ [s]).filterMap skey := by
    intro k
    rw [List.mem_append, haff, List.filterMap_append, List.mem_append, or_comm]
    cases hs : skey s with
    | none => simp [hs]
    | some k' => simp [hs]
  unfold step
  rw [htable]
  by_cases hfresh : fresh key skey table s = true
  · rw [if_neg]
    · refine ⟨_, rfl, ?_, ?_, haff'⟩
      · have hself : applied key skey wants upd (stale key skey table done) (row s) = row s :=
          applied_row hrow hn hs hfresh (.inr hkey)
        unfold Action.bulk
        dsimp only
        rw [withFresh_snoc, if_pos hfresh, stale_snoc, if_pos hfresh, List.map_append, List.map_cons, List.map_nil, hself]
      · simp [State.counts, Action.report, stale_snoc, hfresh, hins, hupd, hskip]
    · rw [hany, hfresh]
      rintro (h | ⟨k, hk, hmem⟩)
      · cases h
      · exact hkey k hk hmem
  · have hstale : fresh key skey table s = false := by simpa using hfresh
    have hwants := hg.2 s (mem_stale.mpr ⟨List.mem_append_right _ List.mem_cons_self, hstale⟩)
    rw [if_pos (hany.mpr (.inl hstale))]
    dsimp only
    rw [if_neg (affected_new haff hkey), if_pos ((any_wants hkeep hrow heq hn hkey).mpr hwants)]
    refine ⟨_, rfl, ?_, ?_, haff'⟩
    · unfold Action.bulk
      dsimp only
      rw [withFresh_snoc, if_neg hfresh, stale_snoc, if_neg hfresh, List.map_map]
      exact List.map_congr_left fun x hx => ((applied_step hkeep hrow heq hn hkey hx).2).symm
    · simp [State.counts, Action.report, stale_snoc, hfresh, hins, hupd, hskip]

/-- The first source row whose key came before is rejected, and the first one that updates nothing is skipped. -/
theorem step_update_again {done rest : List σ} {s : σ} {st st' : State τ κ} (heq : done ++ s :: rest = source)
    (htable : st.table = Action.bulk key skey row table done (.update wants upd))
    (haff : ∀ k, k ∈ st.affected ↔ k ∈ done.filterMap skey)
    (hg : Action.Distinct key skey table done (.update wants upd))
    (hn : ¬ Action.Distinct key skey table (done ++ [s]) (.update wants upd))
    (hst : step key skey row (.update wants upd) st s = some st') : 0 < st'.skipped := by
  have hany := any_bulk hkeep hrow heq hg.1
  unfold step at hst
  rw [htable] at hst
  by_cases hkey : ∀ k, skey s = some k → k ∉ done.filterMap skey
  · -- the row is there and does not want the update
    obtain ⟨hstale, hnot⟩ : fresh key skey table s = false ∧
        ¬ table.any (fun t => conflicts key skey t s && wants t s) = true := by
      rw [← Classical.not_imp]
      intro hw
      refine hn ⟨nodup_snoc.mpr ⟨hg.1, hkey⟩, fun s' hs' => ?_⟩
      obtain ⟨hin, hstale⟩ := mem_stale.mp hs'
      cases List.mem_append.mp hin with
      | inl hin => exact hg.2 s' (mem_stale.mpr ⟨hin, hstale⟩)
      | inr hin =>
        obtain rfl := List.mem_singleton.mp hin
        exact hw hstale
    rw [if_pos (hany.mpr (.inl hstale))] at hst
    dsimp only at hst
    rw [if_neg (affected_new haff hkey), if_neg ((any_wants hkeep hrow heq hg.1 hkey).not.mpr hnot)] at hst
    obtain rfl := Option.some.inj hst
    exact Nat.succ_pos _
  · -- a key that came before is of a row that was affected
    rw [not_forall] at hkey
    obtain ⟨k, hkey⟩ := hkey
    rw [Classical.not_imp, not_not] at hkey
    have hagain : (skey s).any (st.affected.contains ·) = true := by
      rw [Option.any_eq_true]
      exact ⟨k, hkey.1, List.contains_iff_mem.mpr ((haff k).mpr hkey.2)⟩
    rw [if_pos (hany.mpr (.inr ⟨k, hkey⟩))] at hst
    dsimp only at hst
    rw [if_pos hagain] at hst
    cases hst

omit hkeep hrow in
theorem skipped_step {s : σ} {st st' : State τ κ} (hst : step key skey row (.update wants upd) st s = some st')
    (h : 0 < st.skipped) : 0 < st'.skipped := by
  unfold step at hst
  dsimp only at hst
  split at hst
  · split at hst
    · cases hst
    · split at hst
      · obtain rfl := Option.some.inj hst
        exact h
      · obtain rfl := Option.some.inj hst
        exact Nat.succ_pos _
  · obtain rfl := Option.some.inj hst
    exact h

theorem run_update : (Action.Distinct key skey table source (.update wants upd) →
      ∃ st, run key skey row (.update wants upd) (start table) source = some st ∧
        st.table = Action.bulk key skey row table source (.update wants upd) ∧
        st.counts = Action.report key skey table source (.update wants upd)) ∧
    (¬ Action.Distinct key skey table source (.update wants upd) → ∀ st : State τ κ,
      run key skey row (.update wants upd) (start table) source = some st → 0 < st.skipped) := by
  have hsplit := @run_split σ (State τ κ) (step key skey row (.update wants upd)) source
    (fun done st => st.table = Action.bulk key skey row table done (.update wants upd) ∧
      st.counts = Action.report key skey table done (.update wants upd) ∧ ∀ k, k ∈ st.affected ↔ k ∈ done.filterMap skey)
    (fun _ st => 0 < st.skipped)
    (fun done => Action.Distinct key skey table done (.update wants upd)) ?_ ?_ ?_ ?_ source [] (start table) rfl
    ⟨?_, rfl, fun k => Iff.rfl⟩ ⟨List.nodup_nil, nofun⟩
  · refine ⟨fun hd => ?_, hsplit.2⟩
    obtain ⟨st, hst, htable, hcounts, -⟩ := hsplit.1 hd
    exact ⟨st, hst, htable, hcounts⟩
  · intro xs ys h
    refine ⟨?_, fun s hs => h.2 s ?_⟩
    · have hn := h.1
      rw [List.filterMap_append] at hn
      exact (List.nodup_append.mp hn).1
    · obtain ⟨hin, hstale⟩ := mem_stale.mp hs
      exact mem_stale.mpr ⟨List.mem_append_left _ hin, hstale⟩
  · intro done s rest st heq hk hg
    exact step_update hkeep hrow heq hk.1 hk.2.1 hk.2.2 hg
  · intro done s rest st st' heq hk hg hn hst
    exact step_update_again hkeep hrow heq hk.1 hk.2.2 hg hn hst
  · intro done s rest st st' heq hb hst
    exact skipped_step hst hb
  · exact (bulk_nil _ table).symm

end

/-- In bulk is row by row exactly where the keys are distinct. -/
theorem bulk_iff {a : Action τ σ} {table result : List τ} {source : List σ} {counts : Nat × Nat × Nat}
    (hkeep : a.Keeps key skey table source) (hrow : ∀ s ∈ source, fresh key skey table s = true → key (row s) = skey s)
    (hresult : result.Perm (a.bulk key skey row table source)) (hcounts : counts = a.report key skey table source) :
    RowByRow key skey row a table source result counts ↔ a.Distinct key skey table source := by
  subst hcounts
  constructor
  · rintro ⟨st, hst, -, hcounts⟩
    by_contra hn
    cases a with
    | nothing =>
      have hlt := (run_nothing hrow).2 hn st hst
      have hins := (Prod.mk.inj hcounts).1
      omega
    | update wants upd =>
      have hlt := (run_update hkeep hrow).2 hn st hst
      have hskip := (Prod.mk.inj (Prod.mk.inj hcounts).2).2
      omega
  · intro hd
    cases a with
    | nothing =>
      obtain ⟨st, hst, htable, hcounts⟩ := (run_nothing hrow).1 hd
      exact ⟨st, hst, htable ▸ hresult, hcounts.symm⟩
    | update wants upd =>
      obtain ⟨st, hst, htable, hcounts⟩ := (run_update hkeep hrow).1 hd
      exact ⟨st, hst, htable ▸ hresult, hcounts.symm⟩

end Upserting
