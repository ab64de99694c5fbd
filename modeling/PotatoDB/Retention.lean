import PotatoDB.Compaction

/-!
# VACUUM with a retention policy

Before a VACUUM compacts a table it deletes the files of the table that are older than its retention. What is left it
compacts as it does without a policy.
-/

namespace PotatoDB

open Oplog Oplog.Prog
open Machine (apply)

/-! ## Files past their retention -/

/-- The file lies in the directory and is older than the seconds. -/
def Expired (dir : Dir) (secs now : Nat) (e : ObjPath × ParquetFile) : Prop := e.1.dir = dir ∧ e.2.modified + secs < now

instance (dir : Dir) (secs now : Nat) (e : ObjPath × ParquetFile) : Decidable (Expired dir secs now e) :=
  inferInstanceAs (Decidable (_ ∧ _))

def Store.retain (store : Store) (dir : Dir) (secs now : Nat) : Store := store.filter fun e => !decide (Expired dir secs now e)

/-- The files that a VACUUM compacts: only on a local disk, and with a policy, some are deleted before. -/
def Db.retained (env : Env) (s : Db) (m : TableMeta) : Store :=
  match m.retentionSeconds with
  | none => s.store
  | some secs =>
    if env.isLocalDisk then s.store.retain (fsPath m.path) secs (env.time s.counters.clockReadings) else s.store

/-- The names of files are different. -/
def Db.DistinctFiles (s : Db) : Prop := (s.store.map (·.1)).Nodup

section
variable {env : Env} {C : Db → Op → Prop} {s : Db} {table : String} {m : TableMeta} {schema : Schema}

theorem eq_of_path {store : Store} (h : (store.map (·.1)).Nodup) {e e' : ObjPath × ParquetFile} (he : e ∈ store)
    (he' : e' ∈ store) (hpath : e.1 = e'.1) : e = e' :=
  List.inj_on_of_nodup_map h he he' hpath

/-- Deleting the expired files by their names leaves the others. -/
theorem filter_expired (h : s.DistinctFiles) (p : ObjPath × ParquetFile → Prop) [DecidablePred p] :
    (s.store.filter fun e => decide (e.1 ∉ (s.store.filter fun e => decide (p e)).map (·.1))) =
      s.store.filter fun e => !decide (p e) := by
  refine List.filter_congr fun e he => ?_
  by_cases hp : p e
  · have hmem : e.1 ∈ (s.store.filter fun e => decide (p e)).map (·.1) :=
      List.mem_map_of_mem (List.mem_filter.mpr ⟨he, by simpa using hp⟩)
    simp [hmem, hp]
  · have hmem : e.1 ∉ (s.store.filter fun e => decide (p e)).map (·.1) := by
      intro hmem
      obtain ⟨e', he', heq⟩ := List.mem_map.mp hmem
      obtain ⟨hin, hp'⟩ := List.mem_filter.mp he'
      rw [eq_of_path h hin he heq] at hp'
      exact hp (by simpa using hp')
    simp [hmem, hp]

/-- The state that is compacted: files are gone, and the clock may have been read. -/
structure Pruned (env : Env) (s : Db) (m : TableMeta) (t : Db) : Prop where
  store : t.store = s.retained env m
  nextFile : t.nextFile = s.nextFile
  ctx : t.ctx = s.ctx
  catalog : t.catalog = s.catalog
  writeBuffer : t.writeBuffer = s.writeBuffer

theorem wp_applyRetentionPolicy (hm : s.catalog.tables.lookup table = some m) (hfiles : s.DistinctFiles)
    {Q : Except String Nat → Db → Prop} (hQ : ∀ n t, Pruned env s m t → Q (.ok n) t) :
    wp C (applyRetentionPolicy env table) s Q := by
  unfold applyRetentionPolicy
  simp only [wp_bind, wp_get, hm]
  cases hret : m.retentionSeconds with
  | none =>
    refine wp_pure.mpr (hQ _ _ ⟨?_, rfl, rfl, rfl, rfl⟩)
    simp [Db.retained, hret]
  | some secs =>
    dsimp only
    by_cases hlocal : env.isLocalDisk = true
    · rw [if_neg (by simp [hlocal])]
      unfold now
      simp only [wp_bind, wp_get, wp_emit, wp_pure]
      intro _
      refine wp_of_yields succeeds_each_emit (yields_deleteFiles Prod.fst _ _ ?_)
      refine hQ _ _ ⟨?_, rfl, rfl, rfl, rfl⟩
      simp only [Db.retained, hret, hlocal, if_true]
      exact filter_expired hfiles (Expired (fsPath m.path) secs (env.time s.counters.clockReadings))
    · rw [if_pos (by simp [hlocal])]
      refine wp_pure.mpr (hQ _ _ ⟨?_, rfl, rfl, rfl, rfl⟩)
      simp [Db.retained, hret, hlocal]

/-- A backup reads no clock. -/
theorem wp_backupCounters : wp C (backupTableForTxn table) s fun _ t => t.counters = s.counters := by
  unfold backupTableForTxn selectStar
  simp only [wp_bind, wp_get]
  split
  · exact wp_pure.mpr rfl
  · split
    · exact wp_pure.mpr rfl
    · simp only [wp_bind, wp_get]
      cases s.relation table with
      | none => exact wp_throw.mpr rfl
      | some r => exact wp_pure.mpr (wp_emit.mpr fun _ => rfl)

theorem Pruned.of_sameStorage {t u : Db} (hs : SameStorage s t) (hcounters : t.counters = s.counters) (h : Pruned env t m u) :
    Pruned env s m u := by
  refine ⟨?_, h.nextFile.trans hs.nextFile, h.ctx.trans hs.ctx, h.catalog.trans hs.catalog, h.writeBuffer.trans hs.writeBuffer⟩
  rw [h.store]
  unfold Db.retained
  rw [hs.store, hcounters]

/-- The state that a VACUUM compacts, as the flush and the policy leave it. -/
def Db.afterRetention (env : Env) (s : Db) (m : TableMeta) : Db := { s with store := s.retained env m }

theorem Pruned.sameStorage {t : Db} (h : Pruned env s m t) : SameStorage (s.afterRetention env m) t :=
  ⟨h.store, h.nextFile, h.ctx, h.catalog, h.writeBuffer⟩

theorem Known.afterRetention (hs : Known env s table m schema) : Known env (s.afterRetention env m) table m schema :=
  ⟨hs.catalog, hs.columns, hs.provider⟩

/-- A VACUUM compacts what the policy leaves. -/
theorem ends_vacuumRetention {s₀ : Db} (hflush : Succeeds (flushAll env) s₀) (hfinal : (flushAll env).final s₀ = s)
    (hs : Known env s table m schema) (hfiles : s.DistinctFiles) (hfound : (s.ctx.lookup table).isSome = true) :
    wp C (handleVacuum env table) s₀ fun _ t =>
      (s.Selectable table schema → Rewrote env (s.afterRetention env m) table ⟨objPath m.path, schema⟩ t) ∧
        (¬ s.Selectable table schema → SameStorage (s.afterRetention env m) t) := by
  have hindexed : ∀ t, SameStorage (s.afterRetention env m) t → (t.Selectable table schema ↔ s.Selectable table schema) := by
    intro t ht
    unfold Db.Selectable Db.firstIndexColumns
    rw [ht.ctx, ht.catalog]
    rfl
  unfold handleVacuum
  rw [wp_bind]
  intro _
  obtain ⟨n, hn⟩ := hflush
  rw [hn, hfinal]
  dsimp only
  unfold tableMeta
  simp only [wp_bind, wp_get, hs.catalog, wp_pure]
  have hbackup : wp C (backupTableForTxn table) s fun r t => r = .ok () ∧ SameStorage s t := by
    refine wp_backupFound (fun hno e => ?_) fun t ht => ⟨rfl, ht⟩
    rw [hfound] at hno
    cases hno
  refine wp_mono (fun r t ht => ?_) (wp_and hbackup wp_backupCounters)
  obtain ⟨⟨rfl, hsame⟩, hcounters⟩ := ht
  have hkt := hs.of_sameStorage hsame
  have hfilest : t.DistinctFiles := by
    unfold Db.DistinctFiles
    rw [hsame.store]
    exact hfiles
  dsimp only
  refine wp_applyRetentionPolicy hkt.catalog hfilest fun pruned u hpruned => ?_
  have hu := (hpruned.of_sameStorage hsame hcounters).sameStorage
  have hku := hs.afterRetention.of_sameStorage hu
  dsimp only
  refine wp_selectIndexed hku (fun hno _ => ?_) fun hsel rows hperm => ?_
  · exact ⟨fun hsel => absurd ((hindexed u hu).mpr hsel) hno, fun _ => hu⟩
  · dsimp only
    unfold listParquetFiles
    simp only [wp_bind, wp_get, wp_pure]
    refine wp_mono ?_ (wp_rewriteRows hku (hku.provider_eq hsel.1) hperm false)
    intro r v hv
    have hdone : ∀ x, SameTables v x →
        (s.Selectable table schema → Rewrote env (s.afterRetention env m) table ⟨objPath m.path, schema⟩ x) ∧
          (¬ s.Selectable table schema → SameStorage (s.afterRetention env m) x) :=
      fun x hx => ⟨fun _ => hu.rewrote (hv.sameTables hx), fun hno => absurd ((hindexed u hu).mp hsel) hno⟩
    cases r with
    | error e => exact hdone v ⟨rfl, rfl, rfl, rfl, rfl⟩
    | ok _ =>
      dsimp only
      have hanalyze : wp C (handleAnalyze env table) v fun _ x => SameTables v x := fun _ =>
        sameTables_handleAnalyze v table v ⟨rfl, rfl, rfl, rfl, rfl⟩ along_true
      refine wp_mono (fun r x hx => ?_) hanalyze
      cases r <;> exact hdone x hx

end

/-! ## Flags of two ages -/

def agedEnv : Env := { compactEnv with isLocalDisk := true, time := fun _ => 100 }

def agedMeta : TableMeta := { flagMeta with retentionSeconds := some 20 }

/-- TRUE was written at the start, NULL ninety seconds later. -/
def agedDb : Db := { flagsDb [] [] with
  store := [(⟨["t"], 0⟩, ⟨["a"], [[.bool true]], 0⟩), (⟨["t"], 1⟩, ⟨["a"], [[.null]], 90⟩)]
  catalog := CatalogData.empty.addTable agedMeta }

end PotatoDB
