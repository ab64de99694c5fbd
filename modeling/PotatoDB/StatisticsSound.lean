import PotatoDB.Statistics

/-!
# Declared statistics are exact

A registration declares what the catalog has, and only a registration replaces what was declared.
The statistics stay exact as long as what the catalog has is true of the rows that a registration
is followed by, and what is declared stays true under the rows that are added to it.
-/

namespace PotatoDB

open StatsStore

/-! ## Exact statistics -/

/-- What is declared exact is the truth. -/
def Precision.Tells {α : Type} (p : Precision α) (truth : Option α) : Prop :=
  match p with
  | exact v => truth = some v
  | absent => True

instance Precision.decidableTells {α : Type} [DecidableEq α] : (p : Precision α) → (truth : Option α) → Decidable (p.Tells truth)
  | exact v, truth => inferInstanceAs (Decidable (truth = some v))
  | absent, _ => isTrue trivial

section
variable (agg : Aggregates)

structure ColumnDescribed (stats : DfColumnStatistics) (values : List Value) : Prop where
  nullCount : stats.nullCount.Tells (some (values.countP Value.isNull))
  distinctCount : stats.distinctCount.Tells (some (values.filter fun v => !v.isNull).dedup.length)
  minValue : stats.minValue.Tells (agg.minimum values)
  maxValue : stats.maxValue.Tells (agg.maximum values)

structure Described (columns : List ColumnDef) (stats : DfStatistics) (rows : List Row) : Prop where
  numRows : stats.numRows.Tells (some rows.length)
  columns : ∀ p ∈ columns.zip stats.columnStatistics,
    ColumnDescribed agg p.2 (rows.map (namedValue (columns.map (·.name)) · p.1.name))

instance decidableColumnDescribed (stats : DfColumnStatistics) (values : List Value) :
    Decidable (ColumnDescribed agg stats values) :=
  decidable_of_iff (stats.nullCount.Tells (some (values.countP Value.isNull)) ∧
      stats.distinctCount.Tells (some (values.filter fun v => !v.isNull).dedup.length) ∧
      stats.minValue.Tells (agg.minimum values) ∧ stats.maxValue.Tells (agg.maximum values))
    ⟨fun h => ⟨h.1, h.2.1, h.2.2.1, h.2.2.2⟩, fun h => ⟨h.nullCount, h.distinctCount, h.minValue, h.maxValue⟩⟩

instance decidableDescribed (columns : List ColumnDef) (stats : DfStatistics) (rows : List Row) :
    Decidable (Described agg columns stats rows) :=
  decidable_of_iff (stats.numRows.Tells (some rows.length) ∧ ∀ p ∈ columns.zip stats.columnStatistics,
      ColumnDescribed agg p.2 (rows.map (namedValue (columns.map (·.name)) · p.1.name)))
    ⟨fun h => ⟨h.1, h.2⟩, fun h => ⟨h.numRows, h.columns⟩⟩

namespace StatsStore

/-- What the provider of the table declares is true of the rows. -/
def Registered (s : StatsStore) (table : String) (rows : List Row) : Prop :=
  ∀ m ∈ s.catalog.tables.lookup table, ∀ declared ∈ s.providers.lookup table, ∀ stats ∈ declared,
    Described agg m.columns stats rows

/-- What a registration of the table would declare is true of the rows. -/
def Catalogued (s : StatsStore) (table : String) (rows : List Row) : Prop :=
  ∀ m ∈ s.catalog.tables.lookup table, ∀ stats ∈ m.declared agg, Described agg m.columns stats rows

instance decidableRegistered (s : StatsStore) (table : String) (rows : List Row) : Decidable (s.Registered agg table rows) :=
  inferInstanceAs (Decidable (∀ m ∈ s.catalog.tables.lookup table, ∀ declared ∈ s.providers.lookup table, ∀ stats ∈ declared,
    Described agg m.columns stats rows))

instance decidableCatalogued (s : StatsStore) (table : String) (rows : List Row) : Decidable (s.Catalogued agg table rows) :=
  inferInstanceAs (Decidable (∀ m ∈ s.catalog.tables.lookup table, ∀ stats ∈ m.declared agg, Described agg m.columns stats rows))

/-- Every provider's exact statistics are those of the rows the table holds. -/
def StatsExact (s : StatsStore) : Prop := ∀ table, s.Registered agg table (s.rows table)

end StatsStore

/-- A registration finds statistics of the rows it is followed by, and rows are added only where what is declared stays
true. -/
def StatsEvent.Safe (s : StatsStore) : StatsEvent → Prop
  | createTable .. | analyze _ => True
  | insert table rows | copyFrom table rows => s.Registered agg table (s.rows table ++ rows)
  | rewrite table change => s.Catalogued agg table (change (s.rows table))
  | truncate table => s.Catalogued agg table []
  | vacuum table keep => s.Catalogued agg table ((s.filesOf table).filter keep).flatten
  | reload => ∀ table, s.Catalogued agg table (s.rows table)
  | rollback snapshot files backups => ∀ table, Catalogued agg ⟨snapshot, ∅, files⟩ table
      ((backups.lookup table).getD ((files.lookup table).getD []).flatten)

inductive StatsReached : StatsStore → Prop
  | new : StatsReached .new
  | step {s : StatsStore} {e : StatsEvent} (_ : StatsReached s) (he : e.Safe agg s) : StatsReached (s.step agg e)

end

/-! ## What each operation changes -/

section
variable {agg : Aggregates} {s : StatsStore} {table t : String} {rows : List Row}

theorem lookup_setFileStats (c : CatalogData) (fs : List FileStats) :
    (c.setFileStats table fs).tables.lookup t =
      (c.tables.lookup t).map fun m => if t = table then { m with fileStats := fs } else m :=
  Map.lookup_mapValues ..

theorem lookup_setStatistics (c : CatalogData) (stats : TableStatistics) :
    (c.setStatistics table stats).tables.lookup t =
      (c.tables.lookup t).map fun m => if t = table then { m with statistics := some stats } else m :=
  Map.lookup_mapValues ..

/-- Whether what is declared for a table is true depends on its columns and on what is declared. -/
theorem Registered.of_columns {s' : StatsStore} (h : s.Registered agg t rows)
    (hc : ∀ m' ∈ s'.catalog.tables.lookup t, ∃ m ∈ s.catalog.tables.lookup t, m.columns = m'.columns)
    (hp : s'.providers.lookup t = s.providers.lookup t) : s'.Registered agg t rows := by
  intro m' hm' declared hd stats hs
  obtain ⟨m, hm, hcols⟩ := hc m' hm'
  rw [hp] at hd
  rw [← hcols]
  exact h m hm declared hd stats hs

theorem columns_refresh (s : StatsStore) (table : String) (footers : Bool) :
    ∀ m' ∈ (s.refreshTableFileStats table footers).catalog.tables.lookup t,
      ∃ m ∈ s.catalog.tables.lookup t, m.columns = m'.columns := by
  intro m' hm'
  unfold refreshTableFileStats at hm'
  rw [lookup_setFileStats] at hm'
  obtain ⟨m, hm, rfl⟩ := Option.map_eq_some_iff.mp hm'
  refine ⟨m, hm, ?_⟩
  split <;> rfl

theorem rows_appendFile (s : StatsStore) (table : String) (rows : List Row) :
    (s.appendFile table rows).rows t = if t = table then s.rows t ++ rows else s.rows t := by
  unfold appendFile StatsStore.rows filesOf
  by_cases hr : rows.isEmpty = true
  · rw [if_pos hr, List.isEmpty_iff.mp hr]
    split <;> simp
  · rw [if_neg hr]
    by_cases ht : t = table
    · subst ht
      rw [if_pos rfl, AList.lookup_insert]
      simp
    · rw [if_neg ht, AList.lookup_insert_ne ht]

theorem appendFile_same (s : StatsStore) (table : String) (rows : List Row) :
    (s.appendFile table rows).catalog = s.catalog ∧ (s.appendFile table rows).providers = s.providers := by
  unfold appendFile
  split <;> exact ⟨rfl, rfl⟩

theorem rewriteTable_some {m : TableMeta} (hm : s.catalog.tables.lookup table = some m) :
    s.rewriteTable agg table rows = ((⟨s.catalog, s.providers.insert table (m.declared agg), s.files.insert table []⟩ :
      StatsStore).appendFile table rows).refreshTableFileStats table false := by
  unfold rewriteTable register
  rw [hm]

/-- What a rewrite leaves of the table, and of the others. -/
theorem rewriteTable_at {m : TableMeta} (hm : s.catalog.tables.lookup table = some m) :
    (s.rewriteTable agg table rows).rows table = rows ∧
      (s.rewriteTable agg table rows).providers.lookup table = some (m.declared agg) ∧
      ∀ m' ∈ (s.rewriteTable agg table rows).catalog.tables.lookup table, m'.columns = m.columns := by
  rw [rewriteTable_some hm]
  obtain ⟨hcat, hprov⟩ := appendFile_same ⟨s.catalog, s.providers.insert table (m.declared agg), s.files.insert table []⟩ table rows
  refine ⟨?_, ?_, ?_⟩
  · show (appendFile _ table rows).rows table = rows
    rw [rows_appendFile, if_pos rfl]
    unfold StatsStore.rows filesOf
    rw [AList.lookup_insert]
    rfl
  · show (appendFile _ table rows).providers.lookup table = _
    rw [hprov, AList.lookup_insert]
  · intro m' hm'
    obtain ⟨m'', hm'', hc⟩ := columns_refresh _ _ _ m' hm'
    rw [hcat] at hm''
    rw [← hc, Option.some.inj (hm.symm.trans hm'')]

theorem rewriteTable_other (hm : (s.catalog.tables.lookup table).isSome) (ht : t ≠ table) :
    (s.rewriteTable agg table rows).rows t = s.rows t ∧
      (s.rewriteTable agg table rows).providers.lookup t = s.providers.lookup t ∧
      (s.rewriteTable agg table rows).catalog.tables.lookup t = s.catalog.tables.lookup t := by
  obtain ⟨m, hm⟩ := Option.isSome_iff_exists.mp hm
  rw [rewriteTable_some hm]
  obtain ⟨hcat, hprov⟩ := appendFile_same ⟨s.catalog, s.providers.insert table (m.declared agg), s.files.insert table []⟩ table rows
  refine ⟨?_, ?_, ?_⟩
  · show (appendFile _ table rows).rows t = s.rows t
    rw [rows_appendFile, if_neg ht]
    unfold StatsStore.rows filesOf
    rw [AList.lookup_insert_ne ht]
  · show (appendFile _ table rows).providers.lookup t = _
    rw [hprov, AList.lookup_insert_ne ht]
  · show ((appendFile _ table rows).catalog.setFileStats table _).tables.lookup t = _
    rw [lookup_setFileStats, hcat]
    simp [ht]

/-- A rewrite declares what the catalog has, which is true of the rows it writes. -/
theorem rewriteTable_registered (hm : (s.catalog.tables.lookup table).isSome) (hc : s.Catalogued agg table rows) :
    (s.rewriteTable agg table rows).Registered agg table ((s.rewriteTable agg table rows).rows table) := by
  obtain ⟨m, hm⟩ := Option.isSome_iff_exists.mp hm
  obtain ⟨hrows, hprov, hcols⟩ := @rewriteTable_at agg _ _ rows _ hm
  rw [hrows]
  intro m' hm' declared hd stats hs
  rw [hprov] at hd
  obtain rfl := Option.some.inj hd
  rw [hcols m' hm']
  exact hc m hm stats hs

theorem rewriteTable_kept (hm : (s.catalog.tables.lookup table).isSome) (ht : t ≠ table) (h : s.Registered agg t (s.rows t)) :
    (s.rewriteTable agg table rows).Registered agg t ((s.rewriteTable agg table rows).rows t) := by
  obtain ⟨hrows, hprov, hcat⟩ := @rewriteTable_other agg _ _ _ rows hm ht
  rw [hrows]
  exact Registered.of_columns h (fun m' hm' => ⟨m', hcat ▸ hm', rfl⟩) hprov

theorem rewriteTable_exact (hm : (s.catalog.tables.lookup table).isSome) (hc : s.Catalogued agg table rows)
    (h : s.StatsExact agg) : (s.rewriteTable agg table rows).StatsExact agg := by
  intro u
  by_cases hu : u = table
  · subst hu
    exact rewriteTable_registered hm hc
  · exact rewriteTable_kept hm hu (h u)

theorem refresh_exact {footers : Bool} (h : s.StatsExact agg) : (s.refreshTableFileStats table footers).StatsExact agg :=
  fun t => Registered.of_columns (h t) (columns_refresh s table footers) rfl

theorem analyze_exact (h : s.StatsExact agg) : (s.analyze agg table).StatsExact agg := by
  unfold analyze
  cases hm : s.catalog.tables.lookup table with
  | none => exact h
  | some m =>
    refine refresh_exact fun t => Registered.of_columns (h t) ?_ rfl
    intro m' hm'
    dsimp only at hm'
    rw [lookup_setStatistics] at hm'
    obtain ⟨m'', hm'', rfl⟩ := Option.map_eq_some_iff.mp hm'
    refine ⟨m'', hm'', ?_⟩
    split <;> rfl

/-- Rows that keep what is declared true may be added. -/
theorem appendFile_exact (h : s.StatsExact agg) (hs : s.Registered agg table (s.rows table ++ rows)) :
    (s.appendFile table rows).StatsExact agg := by
  intro t
  obtain ⟨hcat, hprov⟩ := appendFile_same s table rows
  rw [rows_appendFile]
  have hkeep : ∀ rs, s.Registered agg t rs → (s.appendFile table rows).Registered agg t rs := by
    intro rs hrs
    refine Registered.of_columns hrs ?_ (by rw [hprov])
    rw [hcat]
    exact fun m' hm' => ⟨m', hm', rfl⟩
  by_cases ht : t = table
  · rw [if_pos ht]
    exact hkeep _ (ht ▸ hs)
  · rw [if_neg ht]
    exact hkeep _ (h t)

theorem reload_registered (s : StatsStore) (hc : s.Catalogued agg t rows) : (s.reloadTables agg).Registered agg t rows := by
  intro m hm declared hd stats hs
  have hd' : (s.catalog.tables.mapValues fun _ m => m.declared agg).lookup t = some declared := hd
  rw [Map.lookup_mapValues, show s.catalog.tables.lookup t = some m from hm] at hd'
  obtain rfl := Option.some.inj hd'
  exact hc m hm stats hs

/-- Backups are written back one after the other; what is left to write back need not be registered truly yet. -/
theorem restoreBackups_exact : ∀ {backups : List (String × List Row)} {s : StatsStore}, (backups.map (·.1)).Nodup →
    (∀ b ∈ backups, s.Catalogued agg b.1 b.2) → (∀ u, u ∉ backups.map (·.1) → s.Registered agg u (s.rows u)) →
    (s.restoreBackups agg backups).StatsExact agg
  | [], s, _, _, h => fun t => h t (by simp)
  | b :: backups, s, hn, hc, h => by
    rw [List.map_cons, List.nodup_cons] at hn
    rw [restoreBackups]
    by_cases hm : (s.catalog.tables.lookup b.1).isSome = true
    · rw [if_pos hm]
      refine restoreBackups_exact hn.2 ?_ ?_
      · intro b' hb'
        have hne : b'.1 ≠ b.1 := fun he => hn.1 (he ▸ List.mem_map_of_mem hb')
        obtain ⟨-, -, hcat⟩ := @rewriteTable_other agg _ _ _ b.2 hm hne
        intro m hmem
        rw [hcat] at hmem
        exact hc b' (List.mem_cons_of_mem _ hb') m hmem
      · intro u hu
        by_cases hub : u = b.1
        · subst hub
          exact rewriteTable_registered hm (hc b List.mem_cons_self)
        · refine rewriteTable_kept hm hub (h u ?_)
          rw [List.map_cons, List.mem_cons]
          rintro (he | he)
          · exact hub he
          · exact hu he
    · rw [if_neg hm]
      refine restoreBackups_exact hn.2 (fun b' hb' => hc b' (List.mem_cons_of_mem _ hb')) ?_
      intro u hu
      by_cases hub : u = b.1
      · intro m hmem
        rw [Bool.not_eq_true, Option.isSome_eq_false_iff, Option.isNone_iff_eq_none] at hm
        rw [hub, hm] at hmem
        cases hmem
      · refine h u ?_
        rw [List.map_cons, List.mem_cons]
        rintro (he | he)
        · exact hub he
        · exact hu he

/-! ## Runs -/

theorem step_exact {e : StatsEvent} (h : s.StatsExact agg) (he : e.Safe agg s) : (s.step agg e).StatsExact agg := by
  cases e with
  | createTable name columns =>
    unfold step
    dsimp only
    split
    · exact h
    · intro t
      by_cases ht : t = name
      · subst ht
        intro m hm declared hd stats hs
        rw [AList.lookup_insert] at hd
        obtain rfl := Option.some.inj hd
        cases hs
      · have hrows : ({ s with
            catalog := s.catalog.addTable ⟨name, columns, name, [], none, none, [], []⟩
            providers := s.providers.insert name none
            files := s.files.insert name [] } : StatsStore).rows t = s.rows t := by
          unfold StatsStore.rows filesOf
          rw [AList.lookup_insert_ne ht]
        rw [hrows]
        refine Registered.of_columns (h t) ?_ (AList.lookup_insert_ne ht)
        intro m' hm'
        exact ⟨m', (AList.lookup_insert_ne ht).symm.trans hm', rfl⟩
  | insert table rows =>
    unfold step
    dsimp only
    split
    · exact refresh_exact (appendFile_exact h he)
    · exact h
  | copyFrom table rows =>
    unfold step
    dsimp only
    split
    · exact refresh_exact (appendFile_exact h he)
    · exact h
  | rewrite table change =>
    unfold step
    dsimp only
    split
    · rename_i hm
      exact rewriteTable_exact hm he h
    · exact h
  | truncate table =>
    unfold step
    dsimp only
    split
    · rename_i hm
      obtain ⟨m, hm⟩ := Option.isSome_iff_exists.mp hm
      unfold register
      dsimp only
      rw [hm]
      intro t
      by_cases ht : t = table
      · subst ht
        intro m' hm' declared hd stats hs
        rw [AList.lookup_insert] at hd
        obtain rfl := Option.some.inj hd
        obtain rfl := Option.some.inj (hm.symm.trans hm')
        unfold StatsStore.rows filesOf
        rw [AList.lookup_insert]
        exact he m hm stats hs
      · have hrows : (⟨s.catalog, s.providers.insert table (m.declared agg), s.files.insert table []⟩ : StatsStore).rows t =
            s.rows t := by
          unfold StatsStore.rows filesOf
          rw [AList.lookup_insert_ne ht]
        rw [hrows]
        exact Registered.of_columns (h t) (fun m' hm' => ⟨m', hm', rfl⟩) (AList.lookup_insert_ne ht)
    · exact h
  | analyze table => exact analyze_exact h
  | vacuum table keep =>
    unfold step
    dsimp only
    split
    · rename_i hm
      exact analyze_exact (rewriteTable_exact hm he h)
    · exact h
  | reload => exact fun t => reload_registered s (he t)
  | rollback snapshot files backups =>
    unfold step
    dsimp only
    refine restoreBackups_exact (by rw [Map.pairs_keys]; exact backups.keys_nodup) ?_ ?_
    · intro b hb m hm stats hs
      have hlook := Map.mem_pairs.mp hb
      have := he b.1 m hm stats hs
      rw [hlook] at this
      exact this
    · intro u hu
      refine reload_registered _ ?_
      intro m hm stats hs
      have hnone : backups.lookup u = none := by
        rw [AList.lookup_eq_none]
        intro hin
        exact hu (by rw [Map.pairs_keys]; exact AList.mem_keys.mp hin)
      have := he u m hm stats hs
      rw [hnone] at this
      exact this

/-- The aggregates of ANALYZE are right about the values, and their texts are read back as the values they came from. -/
structure Aggregates.Accurate (agg : Aggregates) (dataType : String) (values : List Value) : Prop where
  nullCount : (agg.columnStatistics values).nullCount = values.countP Value.isNull
  distinctCount : ∀ d ∈ (agg.columnStatistics values).distinctCount, d = (values.filter fun v => !v.isNull).dedup.length
  minValue : ∀ text ∈ (agg.columnStatistics values).minValue, ∀ v ∈ agg.parseScalarValue text dataType, agg.minimum values = some v
  maxValue : ∀ text ∈ (agg.columnStatistics values).maxValue, ∀ v ∈ agg.parseScalarValue text dataType, agg.maximum values = some v

theorem exactly_tells {α : Type} {o truth : Option α} (h : ∀ v ∈ o, truth = some v) : (exactly o).Tells truth := by
  cases o with
  | none => trivial
  | some v => exact h v rfl

theorem lookup_map_pair {α : Type} (f : String → α) {c : String} : ∀ {names : List String}, c ∈ names →
    (names.map fun c => (c, f c)).lookup c = some (f c)
  | n :: names, h => by
    rw [List.map_cons, List.lookup_cons]
    by_cases hn : c = n
    · subst hn
      simp
    · rw [beq_eq_false_iff_ne.mpr hn]
      exact lookup_map_pair f ((List.mem_cons.mp h).resolve_left hn)

/-- After an accurate ANALYZE the catalog is right about the table, so that a registration may follow. -/
theorem analyze_catalogued {m : TableMeta} (hm : s.catalog.tables.lookup table = some m)
    (ha : ∀ c ∈ m.columns, agg.Accurate c.dataType ((s.rows table).map (namedValue m.columnNames · c.name))) :
    (s.analyze agg table).Catalogued agg table (s.rows table) := by
  intro m' hm' stats hs
  unfold analyze at hm'
  rw [hm] at hm'
  dsimp only at hm'
  unfold refreshTableFileStats at hm'
  dsimp only at hm'
  rw [lookup_setFileStats, lookup_setStatistics, hm] at hm'
  simp only [Option.map_some, if_true, Option.mem_def, Option.some.injEq] at hm'
  subst hm'
  obtain rfl := Option.some.inj hs
  refine ⟨rfl, ?_⟩
  intro p hp
  unfold catalogStatsToDf at hp
  dsimp only at hp
  rw [List.zip_map_right, List.mem_map] at hp
  obtain ⟨⟨c, c'⟩, hc, rfl⟩ := hp
  obtain ⟨hmem, rfl⟩ : c ∈ m.columns ∧ c = c' := by
    rw [List.zip_eq_zipWith, List.zipWith_self] at hc
    obtain ⟨c₀, hc₀, heq⟩ := List.mem_map.mp hc
    obtain ⟨rfl, rfl⟩ := Prod.mk.inj heq
    exact ⟨hc₀, rfl⟩
  have hacc := ha c hmem
  dsimp only [Prod.map]
  have hname : c.name ∈ m.columnNames := List.mem_map_of_mem hmem
  rw [lookup_map_pair _ hname]
  refine ⟨congrArg some hacc.nullCount.symm, exactly_tells ?_, exactly_tells ?_, exactly_tells ?_⟩
  · exact fun d hd => congrArg some (hacc.distinctCount d hd).symm
  · intro v hv
    obtain ⟨text, ht, hv⟩ := Option.bind_eq_some_iff.mp hv
    exact hacc.minValue text ht v hv
  · intro v hv
    obtain ⟨text, ht, hv⟩ := Option.bind_eq_some_iff.mp hv
    exact hacc.maxValue text ht v hv

end

/-! ## Runs -/

/-- Counts that are right, and no minimum or maximum. -/
def countingAggregates : Aggregates where
  columnStatistics values := ⟨values.countP Value.isNull, some (values.filter fun v => !v.isNull).dedup.length, none, none⟩
  parseScalarValue _ _ := none
  minimum _ := none
  maximum _ := none

def analyzedFlags : StatsStore :=
  [.createTable "t" [⟨"a", "BOOLEAN", true⟩], .insert "t" [[.bool true]], .analyze "t"].foldl
    (StatsStore.step countingAggregates) .new

end PotatoDB
