import PotatoDB.Sequences

/-!
# The values of a sequence

A use of a sequence succeeds when the value it moves to is within the bounds, and answers the
value it moves from; so the answers are an arithmetic progression, followed by failures only.
-/

namespace PotatoDB

open Oplog
open Oplog.Prog (get emit attempt each)

/-! ## Arithmetic of `i64` -/

def InI64 (n : Int) : Prop := -2 ^ 63 ≤ n ∧ n ≤ 2 ^ 63 - 1

theorem inI64_toInt (n : Int64) : InI64 n.toInt := by
  have h₁ := Int64.le_toInt n
  have h₂ := Int64.toInt_lt n
  exact ⟨h₁, by omega⟩

theorem saturatingAdd_eq {a b : Int} (h : InI64 (a + b)) : saturatingAdd a b = a + b := by
  have h₁ := h.1
  have h₂ := h.2
  unfold saturatingAdd
  omega

/-- Within bounds that lie in the range, the sum that saturates is where the sum is. -/
theorem saturatingAdd_bounds {a b m : Int} (hm : InI64 m) :
    (m ≤ saturatingAdd a b ↔ m ≤ a + b ∨ m = -2 ^ 63) ∧ (saturatingAdd a b ≤ m ↔ a + b ≤ m ∨ m = 2 ^ 63 - 1) := by
  have h₁ := hm.1
  have h₂ := hm.2
  unfold saturatingAdd
  constructor <;> omega

/-- What lies between two values of the range is in the range. -/
theorem InI64.between {a b : Int} {k n : Nat} (ha : InI64 a) (hn : InI64 (a + n * b)) (hk : k ≤ n) :
    InI64 (a + k * b) := by
  have hk : (k : Int) ≤ n := by exact_mod_cast hk
  have hk0 : (0 : Int) ≤ k := Int.natCast_nonneg k
  by_cases hb : 0 ≤ b
  · have h₁ : 0 ≤ k * b := Int.mul_nonneg hk0 hb
    have h₂ : k * b ≤ n * b := Int.mul_le_mul_of_nonneg_right hk hb
    exact ⟨by have := ha.1; omega, by have := hn.2; omega⟩
  · have hb : b ≤ 0 := by omega
    have h₁ : k * b ≤ 0 := Int.mul_nonpos_of_nonneg_of_nonpos hk0 hb
    have h₂ : n * b ≤ k * b := Int.mul_le_mul_of_nonpos_right hk hb
    exact ⟨by have := hn.1; omega, by have := ha.2; omega⟩

def SequenceDef.Within (d : SequenceDef) (n : Int) : Prop :=
  (∀ m, d.minValue = some m → m ≤ n) ∧ ∀ m, d.maxValue = some m → n ≤ m

instance (n : Int) : Decidable (InI64 n) := inferInstanceAs (Decidable (_ ∧ _))

instance (d : SequenceDef) (n : Int) : Decidable (d.Within n) := inferInstanceAs (Decidable (_ ∧ _))

/-- The bounds of `i64` lie around those of a sequence. -/
structure SequenceDef.Bounded (d : SequenceDef) : Prop where
  current : InI64 d.currentValue
  min : ∀ m, d.minValue = some m → InI64 m
  max : ∀ m, d.maxValue = some m → InI64 m

theorem bounded_set {d : SequenceDef} (hd : d.Bounded) (o : SequenceOption) : (o.set d).Bounded := by
  cases o with
  | startWith n => exact ⟨inI64_toInt n, hd.min, hd.max⟩
  | incrementBy n => exact ⟨hd.current, hd.min, hd.max⟩
  | minValue n =>
    refine ⟨hd.current, fun m hm => ?_, hd.max⟩
    rw [← Option.some.inj hm]
    exact inI64_toInt n
  | maxValue n =>
    refine ⟨hd.current, hd.min, fun m hm => ?_⟩
    rw [← Option.some.inj hm]
    exact inI64_toInt n

theorem bounded_sequenceDef (name : String) (options : List SequenceOption) : (sequenceDef name options).Bounded := by
  unfold sequenceDef
  have h : SequenceDef.Bounded ⟨name, 1, 1, none, none⟩ :=
    ⟨inI64_toInt 1, fun _ hm => (nomatch hm), fun _ hm => (nomatch hm)⟩
  generalize (⟨name, 1, 1, none, none⟩ : SequenceDef) = d at h ⊢
  induction options generalizing d with
  | nil => exact h
  | cons o os ih => exact ih _ (bounded_set h o)

/-! ## One use -/

section
variable {c : CatalogData} {d : SequenceDef} {name : String}

theorem nextSequenceValue_ok (hd : c.sequences.lookup name = some d)
    (hw : d.Within (saturatingAdd d.currentValue d.increment)) :
    c.nextSequenceValue name = .ok (d.currentValue, { c with
      sequences := c.sequences.insert name { d with currentValue := saturatingAdd d.currentValue d.increment } }) := by
  have hmin : d.minValue.any (saturatingAdd d.currentValue d.increment < ·) = false := by
    rw [Option.any_eq_false]
    intro m hm
    simpa using hw.1 m hm
  have hmax : d.maxValue.any (saturatingAdd d.currentValue d.increment > ·) = false := by
    rw [Option.any_eq_false]
    intro m hm
    simpa using hw.2 m hm
  simp [CatalogData.nextSequenceValue, hd, hmin, hmax]

theorem nextSequenceValue_error (hd : c.sequences.lookup name = some d)
    (hw : ¬ d.Within (saturatingAdd d.currentValue d.increment)) : ∃ e, c.nextSequenceValue name = .error e := by
  unfold CatalogData.nextSequenceValue
  rw [hd]
  dsimp only
  split
  · exact ⟨_, rfl⟩
  · split
    · exact ⟨_, rfl⟩
    · rename_i hmin hmax
      refine absurd ⟨fun m hm => ?_, fun m hm => ?_⟩ hw
      · simpa [hm] using hmin
      · simpa [hm] using hmax

end

/-! ## The answers -/

/-- The answers of a sequence that has moved `n` times: the progression, then failures, and the bounds are
why. -/
structure Progression (d : SequenceDef) (n : Nat) (us : List (Except String Int)) : Prop where
  answers : ∃ es : List String,
    us = (List.range n).map (fun k => .ok (d.currentValue + k * d.increment)) ++ es.map .error
  within : ∀ k < n, d.Within (d.currentValue + (k + 1 : Nat) * d.increment)
  exhausted : n < us.length → ¬ d.Within (d.currentValue + (n + 1 : Nat) * d.increment)

def successes (us : List (Except String Int)) : Nat := us.countP (·.toBool)

namespace Progression

variable {d : SequenceDef} {n : Nat} {us : List (Except String Int)}

theorem nil (d : SequenceDef) : Progression d 0 [] :=
  ⟨⟨[], rfl⟩, fun _ h => absurd h (Nat.not_lt_zero _), fun h => absurd h (Nat.lt_irrefl _)⟩

theorem ok (hw : d.Within (d.currentValue + d.increment))
    (h : Progression { d with currentValue := d.currentValue + d.increment } n us) :
    Progression d (n + 1) (.ok d.currentValue :: us) := by
  have hstep (k : Nat) : d.currentValue + d.increment + k * d.increment =
      d.currentValue + (k + 1 : Nat) * d.increment := by
    push_cast
    rw [Int.add_mul]
    omega
  refine ⟨?_, fun k hk => ?_, fun hl => ?_⟩
  · obtain ⟨es, hes⟩ := h.answers
    refine ⟨es, ?_⟩
    rw [hes, List.range_succ_eq_map, List.map_cons, List.map_map, List.cons_append]
    congr 2
    · simp
    · exact List.map_congr_left fun k _ => congrArg Except.ok (hstep k)
  · cases k with
    | zero => simpa using hw
    | succ k =>
      rw [← hstep]
      exact h.within k (Nat.lt_of_succ_lt_succ hk)
  · rw [← hstep]
    exact h.exhausted (Nat.lt_of_succ_lt_succ hl)

theorem error (e : String) (hw : ¬ d.Within (d.currentValue + d.increment)) (h : Progression d n us) :
    Progression d n (.error e :: us) := by
  have hn : n = 0 := by
    by_contra hn
    exact hw (by simpa using h.within 0 (Nat.pos_of_ne_zero hn))
  subst hn
  obtain ⟨es, hes⟩ := h.answers
  refine ⟨⟨e :: es, ?_⟩, h.within, fun _ => by simpa using hw⟩
  rw [hes]
  rfl

end Progression

/-! ## The other calls -/

/-- The call neither creates, drops nor restores the sequence, and a restart finds the catalog saved. -/
def CatalogCall.KeepsSequence (name : String) (h : History) : CatalogCall → Prop
  | mutate (.addSequence d) => d.name ≠ name
  | mutate (.removeSequence n) => n ≠ name
  | edit f => (f h.file.data).sequences.lookup name = h.file.data.sequences.lookup name
  | rollback snap _ | rollbackTo snap =>
    h.file.inTransaction = true → snap.sequences.lookup name = h.file.data.sequences.lookup name
  | restart => h.file.inTransaction = false ∧ h.file.dirty = false ∧ h.unsaved = false
  | _ => True

instance CatalogCall.decidableKeepsSequence (name : String) (h : History) :
    (call : CatalogCall) → Decidable (call.KeepsSequence name h)
  | mutate m => by unfold KeepsSequence; split <;> infer_instance
  | edit _ => inferInstanceAs (Decidable (_ = _))
  | rollback .. | rollbackTo _ => inferInstanceAs (Decidable (_ → _))
  | restart => inferInstanceAs (Decidable (_ ∧ _))
  | save | flushIfDirty _ | begin _ | commit _ | rollbackStops _ => isTrue trivial

@[simp] theorem CatalogFile.data_writeToStore (c : CatalogFile) (put : Except String Unit) :
    (c.writeToStore put).2.data = c.data := by rcases put with e | u <;> rfl

@[simp] theorem CatalogFile.data_forceSave (c : CatalogFile) (put : Except String Unit) :
    (c.forceSave put).2.data = c.data := by simp [CatalogFile.forceSave]

@[simp] theorem CatalogFile.data_flushIfDirty (c : CatalogFile) (put : Except String Unit) :
    (c.flushIfDirty put).2.data = c.data := by
  unfold CatalogFile.flushIfDirty; split <;> simp

@[simp] theorem CatalogFile.data_mutate (c : CatalogFile) (m : Mutator) :
    (c.mutate m).data = (m.change c.data).getD c.data := by
  unfold CatalogFile.mutate
  cases m.change c.data <;> simp

/-- Mutators other than those of the sequence leave it alone. -/
theorem Mutator.lookup_change {c : CatalogData} {name : String} (m : Mutator)
    (hadd : ∀ d, m = .addSequence d → d.name ≠ name) (hremove : ∀ n, m = .removeSequence n → n ≠ name)
    (huse : m ≠ .nextSequenceValue name) :
    ((m.change c).getD c).sequences.lookup name = c.sequences.lookup name := by
  cases m with
  | addSequence d => exact AList.lookup_insert_ne (Ne.symm (hadd d rfl))
  | removeSequence n => exact AList.lookup_erase_ne (Ne.symm (hremove n rfl))
  | nextSequenceValue n =>
    have hn : name ≠ n := fun h => huse (h ▸ rfl)
    simp only [Mutator.change, CatalogData.nextSequenceValue]
    repeat' split
    all_goals first | rfl | exact AList.lookup_insert_ne hn
  | setStatistics n stats => cases h : c.tables.lookup n <;> simp [Mutator.change, h, CatalogData.setStatistics]
  | setFileStats n fs => cases h : c.tables.lookup n <;> simp [Mutator.change, h, CatalogData.setFileStats]
  | _ => rfl

theorem lookup_apply {h : History} (hk : h.Kept) {name : String} {call : CatalogCall}
    (hc : call.KeepsSequence name h) (huse : call ≠ .mutate (.nextSequenceValue name)) :
    (call.apply h).file.data.sequences.lookup name = h.file.data.sequences.lookup name := by
  cases call with
  | mutate m =>
    rw [CatalogCall.apply, CatalogCall.run, CatalogFile.data_mutate]
    refine m.lookup_change (fun d hd => ?_) (fun n hn => ?_) fun hm => huse (hm ▸ rfl)
    · subst hd
      exact hc
    · subst hn
      exact hc
  | save => simp [CatalogCall.apply, CatalogCall.run]
  | edit f => exact hc
  | flushIfDirty put => simp [CatalogCall.apply, CatalogCall.run]
  | begin put =>
    simp only [CatalogCall.apply, CatalogCall.run]
    split <;> simp [CatalogFile.setInTransaction]
  | commit put =>
    simp only [CatalogCall.apply, CatalogCall.run]
    split <;> simp [CatalogFile.setInTransaction]
  | rollbackStops e =>
    simp only [CatalogCall.apply, CatalogCall.run]
    split <;> simp [CatalogFile.setInTransaction]
  | rollback snap put =>
    simp only [CatalogCall.apply, CatalogCall.run]
    split
    · rename_i hin
      simpa [CatalogFile.restore] using hc hin
    · rfl
  | rollbackTo snap =>
    simp only [CatalogCall.apply, CatalogCall.run]
    split
    · rename_i hin
      exact hc hin
    · rfl
  | restart =>
    have hdoc := (hk.remembered hc.1 hc.2.2).resolve_left (by simp [hc.2.1])
    exact congrArg (fun c => c.sequences.lookup name) hdoc

/-! ## Runs -/

section
variable {name : String} {h : History}

theorem successes_ok (v : Int) (us : List (Except String Int)) : successes (.ok v :: us) = successes us + 1 :=
  List.countP_cons_of_pos rfl

theorem successes_error (e : String) (us : List (Except String Int)) : successes (.error e :: us) = successes us :=
  List.countP_cons_of_neg (by simp [Except.toBool])

def nextvalCall (name : String) : CatalogCall := .mutate (.nextSequenceValue name)

theorem sequenceUses_use (calls : List CatalogCall) : sequenceUses name h (nextvalCall name :: calls) =
    (h.file.data.nextSequenceValue name).map (·.1) :: sequenceUses name ((nextvalCall name).apply h) calls := by
  simp [sequenceUses, nextvalCall]

theorem data_use (h : History) : ((nextvalCall name).apply h).file.data =
    ((h.file.data.nextSequenceValue name).toOption.map (·.2)).getD h.file.data :=
  CatalogFile.data_mutate _ _

theorem nextvalCall_ok {d : SequenceDef} (hd : h.file.data.sequences.lookup name = some d)
    (hw : d.Within (saturatingAdd d.currentValue d.increment)) (calls : List CatalogCall) :
    sequenceUses name h (nextvalCall name :: calls) =
      .ok d.currentValue :: sequenceUses name ((nextvalCall name).apply h) calls ∧
    ((nextvalCall name).apply h).file.data.sequences.lookup name =
      some { d with currentValue := saturatingAdd d.currentValue d.increment } := by
  rw [sequenceUses_use, data_use, nextSequenceValue_ok hd hw]
  exact ⟨rfl, AList.lookup_insert _⟩

theorem nextvalCall_error {d : SequenceDef} (hd : h.file.data.sequences.lookup name = some d)
    (hw : ¬ d.Within (saturatingAdd d.currentValue d.increment)) (calls : List CatalogCall) :
    (∃ e, sequenceUses name h (nextvalCall name :: calls) =
      .error e :: sequenceUses name ((nextvalCall name).apply h) calls) ∧
    ((nextvalCall name).apply h).file.data.sequences.lookup name = some d := by
  obtain ⟨e, he⟩ := nextSequenceValue_error hd hw
  rw [sequenceUses_use, data_use, he]
  exact ⟨⟨e, rfl⟩, hd⟩

theorem sequenceUses_other {call : CatalogCall} (hu : call ≠ nextvalCall name)
    (calls : List CatalogCall) : sequenceUses name h (call :: calls) = sequenceUses name (call.apply h) calls := by
  conv_lhs => unfold sequenceUses
  dsimp only
  split
  · rw [if_neg fun hn => hu (by rw [hn, nextvalCall])]
  · rfl

/-- The calls of a run that keeps the sequence. -/
def KeptStep (name : String) (h : History) (call : CatalogCall) : Prop := call.Safe h ∧ call.KeepsSequence name h

instance (name : String) (h : History) (call : CatalogCall) : Decidable (KeptStep name h call) :=
  inferInstanceAs (Decidable (_ ∧ _))

theorem progression_uses : ∀ (calls : List CatalogCall) {h : History} {d : SequenceDef}, h.Kept → d.Bounded →
    h.file.data.sequences.lookup name = some d → Along (KeptStep name) h calls →
    InI64 (d.currentValue + successes (sequenceUses name h calls) * d.increment) →
    Progression d (successes (sequenceUses name h calls)) (sequenceUses name h calls)
  | [], _, d, _, _, _, _, _ => .nil d
  | call :: calls, h, d, hk, hb, hd, hc, hr => by
    have hk' := hk.apply call hc.1.1
    by_cases hu : call = nextvalCall name
    · subst hu
      by_cases hw : d.Within (saturatingAdd d.currentValue d.increment)
      · -- the range of the last value gives that of the one the use moves to
        obtain ⟨huses, hd'⟩ := nextvalCall_ok hd hw calls
        rw [huses, successes_ok] at hr ⊢
        have hone := InI64.between (k := 1) hb.current hr (by omega)
        rw [Int.natCast_one, Int.one_mul] at hone
        rw [saturatingAdd_eq hone] at hw hd'
        refine .ok hw (progression_uses calls hk' ⟨hone, hb.min, hb.max⟩ hd' hc.2 ?_)
        have hsum : d.currentValue + d.increment + successes (sequenceUses name ((nextvalCall name).apply h) calls) *
            d.increment = d.currentValue + (successes (sequenceUses name ((nextvalCall name).apply h) calls) + 1 : Nat) *
            d.increment := by
          push_cast
          rw [Int.add_mul]
          omega
        exact hsum ▸ hr
      · obtain ⟨⟨e, huses⟩, hd'⟩ := nextvalCall_error hd hw calls
        rw [huses, successes_error] at hr ⊢
        refine .error e (fun hsum => hw ⟨fun m hm => ?_, fun m hm => ?_⟩) (progression_uses calls hk' hb hd' hc.2 hr)
        · exact (saturatingAdd_bounds (hb.min m hm)).1.mpr (.inl (hsum.1 m hm))
        · exact (saturatingAdd_bounds (hb.max m hm)).2.mpr (.inl (hsum.2 m hm))
    · rw [sequenceUses_other hu] at hr ⊢
      exact progression_uses calls hk' hb ((lookup_apply hk hc.1.2 hu).trans hd) hc.2 hr

/-- The values of the uses that succeed. -/
def produced (us : List (Except String Int)) : List Int := us.filterMap Except.toOption

theorem Progression.produced {d : SequenceDef} {n : Nat} {us : List (Except String Int)} (h : Progression d n us) :
    produced us = (List.range n).map fun k : Nat => d.currentValue + k * d.increment := by
  obtain ⟨es, rfl⟩ := h.answers
  rw [PotatoDB.produced, List.filterMap_append, List.filterMap_map, List.filterMap_map]
  simp [Function.comp_def, Except.toOption]

theorem Progression.nodup {d : SequenceDef} {n : Nat} {us : List (Except String Int)} (h : Progression d n us)
    (hd : d.increment ≠ 0) : (PotatoDB.produced us).Nodup := by
  rw [h.produced]
  refine List.nodup_range.map fun a b hab => ?_
  have hab : (a : Int) * d.increment = b * d.increment := by omega
  exact_mod_cast Int.eq_of_mul_eq_mul_right hd hab

theorem lookup_created (h : History) (name : String) (options : List SequenceOption) :
    (CatalogCall.apply h (.mutate (.addSequence (sequenceDef name options)))).file.data.sequences.lookup
      (sequenceDef name options).name = some (sequenceDef name options) := by
  rw [CatalogCall.apply, CatalogCall.run, CatalogFile.data_mutate]
  exact AList.lookup_insert _

theorem name_sequenceDef (name : String) (options : List SequenceOption) : (sequenceDef name options).name = name := by
  have h : ∀ (options : List SequenceOption) (d : SequenceDef), (options.foldl SequenceOption.set d).name = d.name := by
    intro options
    induction options with
    | nil => exact fun _ => rfl
    | cons o os ih => exact fun d => (ih _).trans (by cases o <;> rfl)
  exact h options _

end

def countedSequence : History := after (.start none) [.mutate (.addSequence (sequenceDef "s" [.maxValue 4]))]

def nextvalTwice : Passage := .text "INSERT INTO t VALUES (nextval('s'), NextVal('s'))".toList

end PotatoDB
