import PotatoDB.Migrations

/-!
# Which migrations have taken effect

Progress is one number. While each new version is above it, a body that fails leaves no effect,
and a restart finds it in the document, the migrations that have taken effect are those up to it,
each once and in order.
-/

namespace PotatoDB

open Oplog
open Machine (apply)

/-! ## Progress as a number -/

/-- The versions that have taken effect are the registered ones up to the number. -/
structure Tracks (registered : List Nat) (number : Nat) (effects : List Nat) : Prop where
  ascending : registered.Pairwise (· < ·)
  ordered : effects.Pairwise (· < ·)
  applied : ∀ v, v ∈ effects ↔ v ∈ registered ∧ v ≤ number

/-- Taking the next registered version. -/
theorem Tracks.advance {registered effects : List Nat} {number v : Nat} (h : Tracks registered number effects)
    (hv : v ∈ registered) (hlt : number < v) (hnext : ∀ u ∈ registered, number < u → v ≤ u) :
    Tracks registered v (effects ++ [v]) := by
  refine ⟨h.ascending, ?_, ?_⟩
  · rw [List.pairwise_append]
    refine ⟨h.ordered, List.pairwise_singleton .., ?_⟩
    intro u hu w hw
    rw [List.mem_singleton.mp hw]
    exact lt_of_le_of_lt ((h.applied u).mp hu).2 hlt
  · intro u
    rw [List.mem_append, List.mem_singleton, h.applied]
    constructor
    · rintro (⟨hu, hle⟩ | rfl)
      · exact ⟨hu, by omega⟩
      · exact ⟨hv, le_refl _⟩
    · rintro ⟨hu, hle⟩
      by_cases hn : number < u
      · exact .inr (le_antisymm hle (hnext u hu hn))
      · exact .inl ⟨hu, by omega⟩

/-- A version above the number may be registered at any time. -/
theorem Tracks.register {registered registered' effects : List Nat} {number v : Nat} (h : Tracks registered number effects)
    (hlt : number < v) (hmem : ∀ u, u ∈ registered' ↔ u ∈ registered ∨ u = v) (hasc : registered'.Pairwise (· < ·)) :
    Tracks registered' number effects := by
  refine ⟨hasc, h.ordered, ?_⟩
  intro u
  rw [h.applied, hmem]
  constructor
  · rintro ⟨hu, hle⟩
    exact ⟨.inl hu, hle⟩
  · rintro ⟨hu | rfl, hle⟩
    · exact ⟨hu, hle⟩
    · omega

/-! ## What a step must not meet -/

def CatalogData.versions (c : CatalogData) : List Nat := c.migrations.map (·.version)

/-- What MIGRATE goes by. -/
def CatalogData.progress (c : CatalogData) : List Nat × Nat := (c.versions, c.schemaVersion)

/-- The call keeps the registered versions and the schema version; a restart does when the document has them. -/
def CatalogCall.KeepsProgress (c : CatalogFile) : CatalogCall → Prop
  | edit f => (f c.data).progress = c.data.progress
  | rollback snap _ | rollbackTo snap => snap.progress = c.data.progress
  | restart => c.document.progress = c.data.progress
  | _ => True

/-- Each call of the body keeps the progress wherever it is made, and a body that fails leaves no effect. -/
structure BodyRun.Clean (b : BodyRun) : Prop where
  calls : ∀ call ∈ b.calls, ∀ c : CatalogFile, call.KeepsProgress c
  undone : b.result.toBool = false → b.leavesEffect = false

/-- A new version is above the schema version; bodies are clean; other calls, restarts among them, keep the progress. -/
def MigrationEvent.Safe (s : MigrationDb) : MigrationEvent → Prop
  | createMigration version .. => version ∉ s.file.data.versions → s.file.data.schemaVersion < version
  | migrate target bodies _ => ∀ m ∈ s.pendingMigrations target, (bodies m.version).Clean
  | other call => call.KeepsProgress s.file

/-- What the step adds took effect in ascending order, nothing has taken effect twice, and a MIGRATE that succeeds leaves
none of its migrations out. -/
structure MigrationEvent.Exact (s : MigrationDb) (e : MigrationEvent) : Prop where
  added : ∃ new, (e.run s).2.effects = s.effects ++ new ∧ new.Pairwise (· < ·)
  once : (e.run s).2.effects.Nodup
  complete : ∀ target bodies put answer, e = migrate target bodies put → (e.run s).1 = .ok answer →
    ∀ v ∈ (e.run s).2.file.data.versions, (∀ t, target = some t → v ≤ t) → v ∈ (e.run s).2.effects

/-! ## The catalog -/

theorem progress_change {c d : CatalogData} {m : Mutator} (h : m.change c = some d) : d.progress = c.progress := by
  cases m <;> simp only [Mutator.change, Option.some.injEq, Option.map_eq_some_iff] at h
  case nextSequenceValue name =>
    obtain ⟨p, hp, rfl⟩ := h
    unfold CatalogData.nextSequenceValue at hp
    cases hs : c.sequences.lookup name with
    | none => simp [hs, Except.toOption] at hp
    | some seq =>
      simp only [hs] at hp
      split at hp
      · simp [Except.toOption] at hp
      · split at hp
        · simp [Except.toOption] at hp
        · obtain rfl := Option.some.inj hp
          rfl
  case setStatistics | setFileStats =>
    obtain ⟨_, -, rfl⟩ := h
    rfl
  all_goals
    subst h
    rfl

theorem data_save (c : CatalogFile) : c.save.data = c.data := by
  unfold CatalogFile.save
  split <;> rfl

theorem data_flushIfDirty (c : CatalogFile) (put : Except String Unit) : (c.flushIfDirty put).2.data = c.data := by
  unfold CatalogFile.flushIfDirty CatalogFile.writeToStore
  split
  · cases put <;> rfl
  · rfl

theorem data_forceSave (c : CatalogFile) (put : Except String Unit) : (c.forceSave put).2.data = c.data := by
  unfold CatalogFile.forceSave CatalogFile.writeToStore
  cases put <;> rfl

theorem progress_run {c : CatalogFile} {call : CatalogCall} (h : call.KeepsProgress c) :
    (call.run c).2.data.progress = c.data.progress := by
  cases call with
  | mutate m =>
    show (c.mutate m).data.progress = _
    unfold CatalogFile.mutate
    cases hm : m.change c.data with
    | none => rfl
    | some d =>
      dsimp only
      rw [data_save]
      exact progress_change hm
  | edit f => exact h
  | save => exact congrArg _ (data_save c)
  | flushIfDirty put => exact congrArg _ (data_flushIfDirty c put)
  | begin put =>
    unfold CatalogCall.run
    dsimp only
    split
    · rfl
    · exact congrArg _ (data_flushIfDirty _ put)
  | commit put =>
    unfold CatalogCall.run
    dsimp only
    split
    · exact congrArg _ (data_forceSave _ put)
    · rfl
  | rollback snap put =>
    unfold CatalogCall.run
    dsimp only
    split
    · exact (congrArg _ (data_forceSave _ put)).trans h
    · rfl
  | rollbackStops e =>
    unfold CatalogCall.run
    dsimp only
    split <;> rfl
  | rollbackTo snap =>
    unfold CatalogCall.run
    dsimp only
    split
    · exact h
    · rfl
  | restart => exact h

theorem progress_calls : ∀ {calls : List CatalogCall} {c : CatalogFile},
    (∀ call ∈ calls, ∀ c : CatalogFile, call.KeepsProgress c) →
    (calls.foldl (fun c call => (call.run c).2) c).data.progress = c.data.progress
  | [], _, _ => rfl
  | call :: calls, c, h => by
    rw [List.foldl_cons, progress_calls fun call' hc => h call' (List.mem_cons_of_mem _ hc)]
    exact progress_run (h call List.mem_cons_self c)

theorem versions_recordApplied (c : CatalogData) (version : Nat) (nowMs : Int) :
    (c.recordApplied version nowMs).versions = c.versions := by
  unfold CatalogData.recordApplied CatalogData.versions
  dsimp only
  split
  · refine List.ext_getElem (by simp) fun i h₁ h₂ => ?_
    simp only [List.getElem_map, List.getElem_modify]
    split <;> rfl
  · rfl

/-! ## The steps -/

def MigrationDb.Kept (s : MigrationDb) : Prop := Tracks s.file.data.versions s.file.data.schemaVersion s.effects

theorem MigrationDb.Kept.of_progress {s t : MigrationDb} (h : s.Kept) (hp : t.file.data.progress = s.file.data.progress)
    (he : t.effects = s.effects) : t.Kept := by
  unfold MigrationDb.Kept
  rw [he, show t.file.data.versions = s.file.data.versions from (Prod.mk.inj hp).1,
    show t.file.data.schemaVersion = s.file.data.schemaVersion from (Prod.mk.inj hp).2]
  exact h

/-- The migrations still to be taken, those above the schema version and within the target. -/
structure Remaining (within : Nat → Prop) (s : MigrationDb) (versions : List Nat) : Prop where
  ascending : versions.Pairwise (· < ·)
  mem : ∀ v, v ∈ versions ↔ v ∈ s.file.data.versions ∧ s.file.data.schemaVersion < v ∧ within v

/-- A body that succeeds takes the next migration. -/
theorem runMigration_ok {within : Nat → Prop} {body : BodyRun} {s t : MigrationDb} {m : MigrationRecord} {versions : List Nat}
    (hs : s.Kept) (hb : body.Clean) (hdown : ∀ u v, u ≤ v → within v → within u)
    (hr : Remaining within s (m.version :: versions)) (h : MigrationDb.runMigration body s m = (.ok (), t)) :
    t.Kept ∧ Remaining within t versions ∧ t.effects = s.effects ++ [m.version] := by
  unfold MigrationDb.runMigration at h
  cases hres : body.result with
  | error e => simp [hres] at h
  | ok u =>
    simp only [hres, Prod.mk.injEq, true_and] at h
    have htakes : body.takesEffect = true := by
      unfold BodyRun.takesEffect
      rw [hres]
      rfl
    rw [if_pos htakes] at h
    have hprog := @progress_calls body.calls s.file hb.calls
    have hversions : t.file.data.versions = s.file.data.versions := by
      rw [← h]
      exact (versions_recordApplied _ _ _).trans (Prod.mk.inj hprog).1
    have hschema : t.file.data.schemaVersion = m.version := by
      rw [← h]
      rfl
    have heffects : t.effects = s.effects ++ [m.version] := by rw [← h]
    obtain ⟨hreg, hlt, hin⟩ := (hr.mem m.version).mp List.mem_cons_self
    have hfirst : ∀ v ∈ versions, m.version < v := (List.pairwise_cons.mp hr.ascending).1
    -- nothing registered lies between the schema version and the next migration
    have hnext : ∀ u ∈ s.file.data.versions, s.file.data.schemaVersion < u → m.version ≤ u := by
      intro u hu hgt
      by_contra hless
      have hmem := (hr.mem u).mpr ⟨hu, hgt, hdown u m.version (by omega) hin⟩
      rcases List.mem_cons.mp hmem with rfl | hmem
      · omega
      · have := hfirst u hmem
        omega
    refine ⟨?_, ⟨(List.pairwise_cons.mp hr.ascending).2, ?_⟩, heffects⟩
    · unfold MigrationDb.Kept
      rw [hversions, hschema, heffects]
      exact Tracks.advance hs hreg hlt hnext
    · intro v
      rw [hversions, hschema]
      constructor
      · intro hv
        obtain ⟨h₁, -, h₃⟩ := (hr.mem v).mp (List.mem_cons_of_mem _ hv)
        exact ⟨h₁, hfirst v hv, h₃⟩
      · rintro ⟨h₁, h₂, h₃⟩
        rcases List.mem_cons.mp ((hr.mem v).mpr ⟨h₁, by omega, h₃⟩) with rfl | hv
        · omega
        · exact hv

/-- A body that fails leaves everything as it was. -/
theorem runMigration_error {body : BodyRun} {s t : MigrationDb} {m : MigrationRecord} {e : String} (hb : body.Clean)
    (h : MigrationDb.runMigration body s m = (.error e, t)) :
    t.file.data.progress = s.file.data.progress ∧ t.effects = s.effects := by
  unfold MigrationDb.runMigration at h
  cases hres : body.result with
  | ok u => simp [hres] at h
  | error e' =>
    simp only [hres, Prod.mk.injEq] at h
    have hnot : ¬ body.takesEffect = true := by
      unfold BodyRun.takesEffect
      rw [hb.undone (by rw [hres]; rfl), hres]
      exact Bool.false_ne_true
    rw [if_neg hnot] at h
    rw [← h.2]
    exact ⟨progress_calls hb.calls, rfl⟩

/-- What a call of MIGRATE leaves: progress is kept, the effects it adds ascend, and none is left out when it succeeds. -/
theorem runMigrations_kept {within : Nat → Prop} {bodies : Nat → BodyRun} (hdown : ∀ u v, u ≤ v → within v → within u) :
    ∀ {ms : List MigrationRecord} {s t : MigrationDb} {r : Except String Unit}, s.Kept →
    (∀ m ∈ ms, (bodies m.version).Clean) → Remaining within s (ms.map (·.version)) →
    MigrationDb.runMigrations bodies s ms = (r, t) →
    t.Kept ∧ (∃ new, t.effects = s.effects ++ new ∧ new <+: ms.map (·.version)) ∧
      (r = .ok () → ∀ v ∈ t.file.data.versions, within v → v ∈ t.effects)
  | [], s, t, r, hs, _, hr, h => by
    obtain ⟨rfl, rfl⟩ := Prod.mk.inj h
    refine ⟨hs, ⟨[], (List.append_nil _).symm, List.nil_prefix⟩, ?_⟩
    intro _ v hv hin
    refine (hs.applied v).mpr ⟨hv, ?_⟩
    by_contra hgt
    cases (hr.mem v).mpr ⟨hv, by omega, hin⟩
  | m :: ms, s, t, r, hs, hb, hr, h => by
    rw [MigrationDb.runMigrations] at h
    have hbody := hb m List.mem_cons_self
    cases hm : MigrationDb.runMigration (bodies m.version) s m with
    | mk res u =>
      rw [hm] at h
      cases res with
      | error e =>
        obtain ⟨rfl, rfl⟩ := Prod.mk.inj h
        obtain ⟨hp, he⟩ := runMigration_error hbody hm
        exact ⟨hs.of_progress hp he, ⟨[], by rw [he, List.append_nil], List.nil_prefix⟩, nofun⟩
      | ok _ =>
        obtain ⟨hu, hru, hue⟩ := runMigration_ok hs hbody hdown hr hm
        obtain ⟨ht, ⟨new, hnew, hpre⟩, hall⟩ := runMigrations_kept hdown hu
          (fun m' hm' => hb m' (List.mem_cons_of_mem _ hm')) hru h
        refine ⟨ht, ⟨m.version :: new, ?_, ?_⟩, hall⟩
        · rw [hnew, hue, List.append_assoc]
          rfl
        · exact List.prefix_cons_inj _ |>.mpr hpre

theorem remaining_pending {s : MigrationDb} (hs : s.Kept) (target : Option Nat) :
    Remaining (fun v => ∀ t, target = some t → v ≤ t) s ((s.pendingMigrations target).map (·.version)) := by
  have hsub : (s.pendingMigrations target).Sublist s.file.data.migrations := by
    unfold MigrationDb.pendingMigrations
    cases target with
    | none => exact List.filter_sublist
    | some t => exact List.filter_sublist.trans List.filter_sublist
  refine ⟨hs.ascending.sublist (hsub.map _), ?_⟩
  intro v
  unfold MigrationDb.pendingMigrations CatalogData.versions
  cases target with
  | none =>
    simp only [List.mem_map, List.mem_filter, decide_eq_true_eq, reduceCtorEq, false_implies, implies_true, and_true]
    constructor
    · rintro ⟨m, ⟨hm, hlt⟩, rfl⟩
      exact ⟨⟨m, hm, rfl⟩, hlt⟩
    · rintro ⟨⟨m, hm, rfl⟩, hlt⟩
      exact ⟨m, ⟨hm, hlt⟩, rfl⟩
  | some t =>
    simp only [List.mem_map, List.mem_filter, decide_eq_true_eq, Option.some.injEq, forall_eq']
    constructor
    · rintro ⟨m, ⟨⟨hm, hlt⟩, hle⟩, rfl⟩
      exact ⟨⟨m, hm, rfl⟩, hlt, hle⟩
    · rintro ⟨⟨m, hm, rfl⟩, hlt, hle⟩
      exact ⟨m, ⟨⟨hm, hlt⟩, hle⟩, rfl⟩

theorem ascending_register {c : CatalogData} {m : MigrationRecord} (hc : c.versions.Pairwise (· < ·))
    (hm : m.version ∉ c.versions) : (c.registerMigration m).versions.Pairwise (· < ·) := by
  have hperm : (c.registerMigration m).versions.Perm (c.versions ++ [m.version]) := by
    unfold CatalogData.registerMigration CatalogData.versions
    rw [show [m.version] = [m].map (·.version) from rfl, ← List.map_append]
    exact (Sorting.perm_sortBy _ _).map _
  have hnodup : (c.registerMigration m).versions.Nodup := by
    rw [hperm.nodup_iff, List.nodup_append]
    refine ⟨hc.imp ne_of_lt, List.nodup_singleton _, ?_⟩
    intro v hv w hw heq
    rw [List.mem_singleton.mp hw] at heq
    exact hm (heq ▸ hv)
  have horder : (c.registerMigration m).versions.Pairwise (· ≤ ·) := by
    have hcmp : Std.TransCmp (compare : Nat → Nat → Ordering) := inferInstance
    have h := Sorting.inOrder_sortBy (Sorting.transCmp_on MigrationRecord.version hcmp) (c.migrations ++ [m])
    unfold CatalogData.versions
    rw [List.pairwise_map]
    refine List.Pairwise.imp ?_ h
    intro a b hab
    exact Nat.isLE_compare.mp hab
  exact (horder.and hnodup).imp fun h => lt_of_le_of_ne h.1 h.2

theorem finish_progress (put : Except String Unit) (r : Except String String × MigrationDb) :
    (MigrationDb.finish put r).2.file.data.progress = r.2.file.data.progress ∧
      (MigrationDb.finish put r).2.effects = r.2.effects := by
  have h := data_flushIfDirty r.2.file put
  unfold MigrationDb.finish
  split
  · rename_i file hf
    rw [hf] at h
    exact ⟨congrArg _ h, rfl⟩
  · rename_i e file hf
    rw [hf] at h
    exact ⟨congrArg _ h, rfl⟩

theorem finish_ok {put : Except String Unit} {r : Except String String × MigrationDb} {answer : String}
    (h : (MigrationDb.finish put r).1 = .ok answer) : r.1 = .ok answer := by
  unfold MigrationDb.finish at h
  split at h
  · exact h
  · cases h

/-- A safe step keeps the progress in step with the effects, and is exact. -/
theorem MigrationEvent.kept {s : MigrationDb} {e : MigrationEvent} (hs : s.Kept) (he : e.Safe s) :
    (e.run s).2.Kept ∧ e.Exact s := by
  cases e with
  | createMigration version description sql put =>
    have hkept : (s.handleCreateMigration version description sql).2.Kept ∧
        (s.handleCreateMigration version description sql).2.effects = s.effects := by
      unfold MigrationDb.handleCreateMigration
      split
      · exact ⟨hs, rfl⟩
      · rename_i hnew
        have hfresh : version ∉ s.file.data.versions := by
          intro hv
          obtain ⟨m, hm, hmv⟩ := List.mem_map.mp hv
          exact hnew (List.any_eq_true.mpr ⟨m, hm, by simpa using hmv⟩)
        refine ⟨?_, rfl⟩
        unfold MigrationDb.Kept
        dsimp only
        rw [data_save]
        refine Tracks.register hs (he hfresh) ?_ (ascending_register hs.ascending hfresh)
        intro u
        unfold CatalogData.registerMigration CatalogData.versions
        rw [((Sorting.perm_sortBy _ _).map _).mem_iff, List.map_append, List.mem_append, List.map_singleton,
          List.mem_singleton]
    obtain ⟨hp, heff⟩ := finish_progress put (s.handleCreateMigration version description sql)
    have hk : (MigrationEvent.run s (.createMigration version description sql put)).2.Kept := hkept.1.of_progress hp heff
    have heffects := heff.trans hkept.2
    refine ⟨hk, ⟨[], heffects.trans (List.append_nil _).symm, List.Pairwise.nil⟩, hk.ordered.imp ne_of_lt, ?_⟩
    rintro target bodies put' answer ⟨⟩
  | migrate target bodies put =>
    have hdown : ∀ u v : Nat, u ≤ v → (∀ t, target = some t → v ≤ t) → ∀ t, target = some t → u ≤ t :=
      fun u v huv hv t ht => le_trans huv (hv t ht)
    cases hr : MigrationDb.runMigrations bodies s (s.pendingMigrations target) with
    | mk r t =>
      obtain ⟨ht, ⟨new, hnew, hpre⟩, hall⟩ := runMigrations_kept hdown hs he (remaining_pending hs target) hr
      have hmig : (s.handleMigrate target bodies).2.file.data.progress = t.file.data.progress ∧
          (s.handleMigrate target bodies).2.effects = t.effects ∧
          (∀ answer, (s.handleMigrate target bodies).1 = .ok answer → r = .ok ()) := by
        unfold MigrationDb.handleMigrate
        rw [hr]
        cases r with
        | error e => exact ⟨rfl, rfl, nofun⟩
        | ok _ =>
          dsimp only
          exact ⟨congrArg _ (data_save _), rfl, fun _ _ => rfl⟩
      obtain ⟨hp, heff⟩ := finish_progress put (s.handleMigrate target bodies)
      have hk : (MigrationEvent.run s (.migrate target bodies put)).2.Kept :=
        ht.of_progress (hp.trans hmig.1) (heff.trans hmig.2.1)
      have heffects : (MigrationEvent.run s (.migrate target bodies put)).2.effects = t.effects := heff.trans hmig.2.1
      have hversions : (MigrationEvent.run s (.migrate target bodies put)).2.file.data.versions = t.file.data.versions :=
        (Prod.mk.inj (hp.trans hmig.1)).1
      refine ⟨hk, ⟨new, heffects.trans hnew, ?_⟩, hk.ordered.imp ne_of_lt, ?_⟩
      · exact (remaining_pending hs target).ascending.sublist hpre.sublist
      · rintro target' bodies' put' answer ⟨⟩ hok v hv hin
        rw [heffects]
        exact hall (hmig.2.2 answer (finish_ok hok)) v (hversions ▸ hv) hin
  | other call =>
    have hk : (MigrationEvent.run s (.other call)).2.Kept := hs.of_progress (progress_run he) rfl
    refine ⟨hk, ⟨[], (List.append_nil _).symm, List.Pairwise.nil⟩, hk.ordered.imp ne_of_lt, ?_⟩
    rintro target bodies put answer ⟨⟩

/-- **While each step is safe, migrations take effect once and in order, and MIGRATE leaves none out.** -/
theorem migrations_exact {events : List MigrationEvent} (h : Along (fun s (e : MigrationEvent) => e.Safe s) .new events) :
    Along (fun s (e : MigrationEvent) => e.Exact s) MigrationDb.new events := by
  have hrun : ∀ (events : List MigrationEvent) (s : MigrationDb), s.Kept → Along (fun s (e : MigrationEvent) => e.Safe s) s events →
      Along (fun s (e : MigrationEvent) => e.Exact s) s events := by
    intro events
    induction events with
    | nil => exact fun _ _ _ => trivial
    | cons e events ih =>
      intro s hs hsafe
      obtain ⟨hk, hex⟩ := e.kept hs hsafe.1
      exact ⟨hex, ih _ hk hsafe.2⟩
  exact hrun events .new ⟨List.Pairwise.nil, List.Pairwise.nil, fun v => by simp [MigrationDb.new, CatalogFile.load,
    CatalogData.versions, CatalogData.empty]⟩ h

/-! ## Runs -/

/-- A body that succeeds, and one that fails without a trace. -/
def plainBody : BodyRun := ⟨.ok (), false, [], 0⟩

def failingBody : BodyRun := ⟨.error "Expected exactly one SQL statement", false, [], 0⟩

def createPlain (version : Nat) : MigrationEvent := .createMigration version "step" "INSERT INTO t VALUES (1)" (.ok ())

/-- Two migrations, one applied before the second is registered, and a restart. -/
theorem two_migrations_exact :
    Along (fun s (e : MigrationEvent) => e.Exact s) MigrationDb.new
      [createPlain 1, .migrate none (fun _ => plainBody) (.ok ()), createPlain 2, .other .restart,
        .migrate (some 2) (fun _ => plainBody) (.ok ())] :=
  migrations_exact ⟨fun _ => by decide +kernel, fun _ _ => ⟨nofun, nofun⟩, fun _ => by decide +kernel,
    show CatalogData.progress _ = CatalogData.progress _ by decide +kernel, fun _ _ => ⟨nofun, nofun⟩, trivial⟩

/-- A lower version that is registered later is never taken, and a restart after a failed MIGRATE takes the first body
again. -/
theorem migrations_skipped_and_repeated :
    ¬ Along (fun s (e : MigrationEvent) => e.Exact s) MigrationDb.new
      [createPlain 2, .migrate none (fun _ => plainBody) (.ok ()), createPlain 1,
        .migrate (some 2) (fun _ => plainBody) (.ok ())] ∧
    ¬ Along (fun s (e : MigrationEvent) => e.Exact s) MigrationDb.new
      [createPlain 1, createPlain 2, .migrate none (fun v => if v = 1 then plainBody else failingBody) (.ok ()),
        .other .restart, .migrate none (fun _ => plainBody) (.ok ())] := by
  constructor
  · rintro ⟨-, -, -, h, -⟩
    have hin := h.complete (some 2) _ _ "Applied 0 migration(s). Schema version: 2." rfl (by decide +kernel) 1
      (by decide +kernel) (by simp)
    exact absurd hin (by decide +kernel)
  · rintro ⟨-, -, -, -, h, -⟩
    exact absurd h.once (by decide +kernel)

end PotatoDB
