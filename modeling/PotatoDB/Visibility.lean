import PotatoDB.FlushSound
import PotatoDB.RollbackSound

/-!
# Reading inserted rows

A statement sees the rows of earlier INSERTs when it flushes the table first. Whether it does is
decided by its text.
-/

namespace PotatoDB

open Oplog Oplog.Prog
open Machine (apply)

/-! ## What ANALYZE leaves alone -/

/-- The catalog without the statistics and the file lists of the tables. -/
def CatalogData.forgetStatistics (c : CatalogData) : CatalogData :=
  { c with tables := c.tables.mapValues fun _ m => { m with statistics := none, fileStats := [] } }

/-- The tables have the same definitions and rows, written or not. -/
structure SameTables (s t : Db) : Prop where
  catalog : t.catalog.forgetStatistics = s.catalog.forgetStatistics
  ctx : t.ctx = s.ctx
  store : t.store = s.store
  writeBuffer : t.writeBuffer = s.writeBuffer
  activeTxn : t.activeTxn = s.activeTxn

theorem lookup_forgetStatistics {c c' : CatalogData} (h : c'.forgetStatistics = c.forgetStatistics) {t : String}
    {m : TableMeta} (hm : c.tables.lookup t = some m) :
    ∃ m', c'.tables.lookup t = some m' ∧ m'.columns = m.columns ∧ m'.path = m.path ∧
      m'.retentionSeconds = m.retentionSeconds := by
  have ht : c'.forgetStatistics.tables.lookup t = c.forgetStatistics.tables.lookup t := by rw [h]
  unfold CatalogData.forgetStatistics at ht
  rw [Map.lookup_mapValues, Map.lookup_mapValues, hm, Option.map_some] at ht
  obtain ⟨m', hm', he⟩ := Option.map_eq_some_iff.mp ht
  simp only [TableMeta.mk.injEq] at he
  exact ⟨m', hm', he.2.1, he.2.2.1, he.2.2.2.2.2.1⟩

theorem forgetStatistics_mapValues {c : CatalogData} {f : String → TableMeta → TableMeta}
    (h : ∀ k m, { f k m with statistics := none, fileStats := [] } = { m with statistics := none, fileStats := [] }) :
    CatalogData.forgetStatistics { c with tables := c.tables.mapValues f } = c.forgetStatistics := by
  unfold CatalogData.forgetStatistics
  dsimp only
  rw [Map.mapValues_mapValues]
  congr 1
  congr 1
  funext k m
  exact h k m

section
variable {env : Env} {s t : Db}

theorem SameTables.rows (h : SameTables s t) (u : String) : t.rows u = s.rows u :=
  congrFun (rows_of_tables h.ctx h.store) u

theorem SameTables.waiting (h : SameTables s t) (u : String) : t.waiting env u = s.waiting env u :=
  waiting_congr (by rw [h.ctx]) (by rw [h.writeBuffer])

theorem SameTables.housed (h : SameTables s t) (hs : Housed env s) : Housed env t := by
  constructor
  · intro u p hp
    rw [h.ctx] at hp
    obtain ⟨m, hm, hdir, hschema, hn⟩ := hs.table u p hp
    obtain ⟨m', hm', hcols, hpath, -⟩ := lookup_forgetStatistics h.catalog hm
    exact ⟨m', hm', by rw [hpath, hdir], by rw [hcols, hschema], hn⟩
  · intro u p v q hp hq
    rw [h.ctx] at hp hq
    exact hs.apart u p v q hp hq
  · intro u p hp row hrow
    rw [h.ctx] at hp
    rw [h.rows] at hrow
    exact hs.typed u p hp row hrow
  · intro u b hb
    rw [h.writeBuffer] at hb
    exact hs.counted u b hb

theorem SameTables.compactable (h : SameTables s t) (hs : Compactable env s) : Compactable env t := by
  rcases hs with h₀ | h₁ | hloc
  · exact Or.inl h₀
  · refine Or.inr (Or.inl ?_)
    rw [h.activeTxn]
    exact h₁
  · refine Or.inr (Or.inr fun u m hm => ?_)
    obtain ⟨m', hm', -, hpath, -⟩ := lookup_forgetStatistics h.catalog.symm hm
    rw [← hpath]
    exact hloc u m' hm'

/-- ANALYZE keeps the tables. -/
theorem sameTables_handleAnalyze (s₀ : Db) (table : String) :
    Maintains (fun _ _ => True) (SameTables s₀) (handleAnalyze env table) := by
  have hsave : Maintains (fun _ _ => True) (SameTables s₀) catalogSave := by
    refine maintains_get_bind fun s _ => ?_
    split
    · exact maintains_pure _
    · exact maintains_emit fun t ht _ => ⟨ht.catalog, ht.ctx, ht.store, ht.writeBuffer, ht.activeTxn⟩
  have hmodify : ∀ f : CatalogData → CatalogData, (∀ c, (f c).forgetStatistics = c.forgetStatistics) →
      Maintains (fun _ _ => True) (SameTables s₀) (modifyCatalog f) := by
    intro f hf
    refine maintains_get_bind fun s hs => maintains_emit fun t ht _ => ?_
    exact ⟨(hf s.catalog).trans hs.catalog, ht.ctx, ht.store, ht.writeBuffer, ht.activeTxn⟩
  have hstats : ∀ (c : CatalogData) (stats : List FileStats), (c.setFileStats table stats).forgetStatistics = c.forgetStatistics := by
    intro c stats
    refine forgetStatistics_mapValues fun k m => ?_
    split <;> rfl
  unfold handleAnalyze
  refine (readOnly_tableMeta table).maintains.bind fun m => readOnly_selectStar.maintains.bind fun r => ?_
  refine (maintains_check _).bind fun rows => (hmodify _ fun c => ?_).bind fun _ => hsave.bind fun _ => ?_
  · refine forgetStatistics_mapValues fun k m => ?_
    split <;> rfl
  refine Maintains.bind ?_ fun _ => maintains_pure _
  unfold refreshTableFileStats
  refine maintains_get_bind fun s hs => ?_
  split
  · exact maintains_pure _
  · exact (hmodify _ fun c => hstats c _).bind fun _ => hsave

theorem sameTables_arrivedAt (s : Db) : SameTables s (arrivedAt env s) := by
  have hloop : Maintains (fun _ _ => True) (SameTables s) (drainPendingAnalyze env) := by
    refine maintains_get_bind fun t ht => ?_
    dsimp only
    split
    · exact maintains_pure _
    · refine Maintains.bind (maintains_emit fun u hu _ => ?_) fun _ => maintains_each (fun table => ?_) _
      · exact ⟨hu.catalog, hu.ctx, hu.store, hu.writeBuffer, hu.activeTxn⟩
      · exact (sameTables_handleAnalyze s table).attempt.bind fun _ => maintains_pure _
  exact hloop s ⟨rfl, rfl, rfl, rfl, rfl⟩ along_true

end

/-! ## The flushes before the first read -/

section
variable (env : Env)

/-- The flush a handler starts with. -/
def handlerFlush : Statement → M Nat
  | .flush none | .merge _ | .commit | .vacuum _ _ => flushAll env
  | .flush (some table) => flushTable env table
  | .insert insert => if insert.onConflict.isSome then flushTable env insert.table else pure 0
  | _ => pure 0

/-- What a statement does before its handler reads any rows. -/
def prepare (sql : String) : M Unit := do
  arrive env sql
  let _ ← handlerFlush env (env.parse sql)

/-- The text of a statement has its table flushed: it names the table, or no buffered table. -/
def NamesTable (s : Db) (sql table : String) : Prop :=
  needsNoFlush (upperText env sql) = false ∧
    ((env.toUppercase table).toList <:+: (upperText env sql).toList ∨
      ∀ u ∈ s.writeBuffer.keys, ¬ (env.toUppercase u).toList <:+: (upperText env sql).toList)

/-- The table is flushed before the statement reads: because of its text, or by its handler. -/
def FlushedFirst (s : Db) (sql table : String) : Prop :=
  match env.parse sql with
  | .flush none | .merge _ | .commit | .vacuum _ _ => True
  | .flush (some t) => t = table
  | .insert insert => (insert.onConflict.isSome ∧ insert.table = table) ∨ NamesTable env s sql table
  | _ => NamesTable env s sql table

/-- All rows of `s`, in files or waiting in the buffer, are rows of the files of `t`. -/
def Sees (s t : Db) (table : String) : Prop :=
  ∃ rows, s.waiting env table = .ok rows ∧ (s.rows table ++ rows).Subperm (t.rows table)

/-- The tables a handler flushes. -/
def handlerFlushes (s : Db) : Statement → List String
  | .flush none | .merge _ | .commit | .vacuum _ _ => s.writeBuffer.keys
  | .flush (some table) => [table]
  | .insert insert => if insert.onConflict.isSome then [insert.table] else []
  | _ => []

end

section
variable {env : Env} {s : Db}

/-- A handler flushes before anything that changes the state. -/
theorem dispatch_flushes (exec : String → M QueryResult) (sql : String) (statement : Statement) :
    ∃ (α : Type) (before : M α) (rest : α → Nat → M QueryResult), ReadOnly before ∧
      dispatch env exec sql statement = before >>= fun a => handlerFlush env statement >>= rest a := by
  have hfirst : ∀ rest : Nat → M QueryResult, dispatch env exec sql statement = handlerFlush env statement >>= rest →
      ∃ (α : Type) (before : M α) (rest : α → Nat → M QueryResult), ReadOnly before ∧
        dispatch env exec sql statement = before >>= fun a => handlerFlush env statement >>= rest a := by
    intro rest h
    exact ⟨Unit, pure (), fun _ => rest, readOnly_pure _, h⟩
  have hplain : handlerFlush env statement = pure 0 →
      ∃ (α : Type) (before : M α) (rest : α → Nat → M QueryResult), ReadOnly before ∧
        dispatch env exec sql statement = before >>= fun a => handlerFlush env statement >>= rest a := by
    intro h
    refine hfirst (fun _ => dispatch env exec sql statement) ?_
    rw [h, bind_pure_left]
  cases statement with
  | flush table =>
    refine hfirst (fun n => do
      catalogFlushIfDirty
      return .message s!"{n} row(s) flushed.") ?_
    cases table with
    | none => rfl
    | some t => rfl
  | merge merge => exact ⟨_, tableMeta merge.target, _, readOnly_tableMeta _, rfl⟩
  | commit => exact hfirst _ rfl
  | vacuum table analyze =>
    have h : ∃ rest, handleVacuumStatement env table analyze = flushAll env >>= rest := by
      unfold handleVacuumStatement handleVacuum
      rw [bind_bind]
      exact ⟨_, rfl⟩
    obtain ⟨rest, h⟩ := h
    exact hfirst rest h
  | insert insert =>
    cases ho : insert.onConflict with
    | none => exact hplain (by simp [handlerFlush, ho])
    | some onConflict =>
      have h : ∃ rest, handleUpsert env insert onConflict = flushTable env insert.table >>= rest := ⟨_, rfl⟩
      obtain ⟨rest, h⟩ := h
      refine hfirst rest ?_
      show handleInsert env exec sql insert = _
      unfold handleInsert
      simp only [handlerFlush, ho, Option.isSome_some, if_true]
      exact h
  | _ => exact hplain rfl

/-! ## Which tables are flushed -/

theorem mem_flushedFor {sqlUpper table : String} (ht : table ∈ s.writeBuffer.keys) :
    table ∈ flushedFor env s sqlUpper ↔ (env.toUppercase table).toList <:+: sqlUpper.toList ∨
      ∀ u ∈ s.writeBuffer.keys, ¬ (env.toUppercase u).toList <:+: sqlUpper.toList := by
  have hmem : ∀ u, u ∈ (s.writeBuffer.keys.filter fun n => decide ((env.toUppercase n).toList <:+: sqlUpper.toList)) ↔
      u ∈ s.writeBuffer.keys ∧ (env.toUppercase u).toList <:+: sqlUpper.toList := by
    intro u
    simp
  unfold flushedFor
  dsimp only
  split
  · rename_i hnil
    refine iff_of_true ht (Or.inr fun u hu hn => ?_)
    rw [List.isEmpty_iff] at hnil
    exact List.not_mem_nil (hnil ▸ (hmem u).mpr ⟨hu, hn⟩)
  · rename_i hcons
    rw [hmem, and_iff_right ht]
    refine ⟨Or.inl, fun h => h.resolve_right fun hnone => hcons ?_⟩
    rw [List.isEmpty_iff, List.eq_nil_iff_forall_not_mem]
    exact fun u hu => hnone u ((hmem u).mp hu).1 ((hmem u).mp hu).2

theorem flushedFirst_iff {sql table : String} {t : Db} (hin : table ∈ s.writeBuffer.keys)
    (ht : t.writeBuffer.lookup table = if table ∈ flushedOnArrival env s sql then none else s.writeBuffer.lookup table) :
    FlushedFirst env s sql table ↔
      table ∈ flushedOnArrival env s sql ++ handlerFlushes t (env.parse sql) := by
  have hnames : (∀ u, env.parse sql ≠ .flush u) → (table ∈ flushedOnArrival env s sql ↔ NamesTable env s sql table) := by
    intro hnf
    unfold NamesTable
    rw [← mem_flushedFor hin]
    by_cases hno : needsNoFlush (upperText env sql) = true
    · unfold flushedOnArrival
      cases hp : env.parse sql with
      | flush u => exact absurd hp (hnf u)
      | _ => simp [hno]
    · unfold flushedOnArrival
      cases hp : env.parse sql with
      | flush u => exact absurd hp (hnf u)
      | _ => simp [hno]
  have hall : table ∈ flushedOnArrival env s sql ++ t.writeBuffer.keys := by
    rw [List.mem_append]
    by_cases ha : table ∈ flushedOnArrival env s sql
    · exact Or.inl ha
    · rw [if_neg ha] at ht
      refine Or.inr ?_
      rw [← AList.mem_keys, Map.mem_iff_lookup, ht]
      exact Map.mem_iff_lookup.mp hin
  unfold FlushedFirst handlerFlushes
  cases hp : env.parse sql with
  | flush u =>
    cases u with
    | none => exact iff_of_true trivial hall
    | some u =>
      have hno : flushedOnArrival env s sql = [] := by
        unfold flushedOnArrival
        rw [hp]
      rw [hno]
      simp [eq_comm]
  | merge _ | commit | vacuum _ _ => exact iff_of_true trivial hall
  | insert insert =>
    dsimp only
    rw [List.mem_append, hnames (by simp [hp]), or_comm]
    refine or_congr_right ?_
    by_cases ho : insert.onConflict.isSome = true
    · rw [if_pos ho]
      simp [ho, eq_comm]
    · rw [if_neg ho]
      simp [ho]
  | _ =>
    rw [List.append_nil]
    exact (hnames (by simp [hp])).symm

theorem lookup_handlerFlush {statement : Statement} (table : String) (h : Succeeds (handlerFlush env statement) s) :
    ((handlerFlush env statement).final s).writeBuffer.lookup table =
      if table ∈ handlerFlushes s statement then none else s.writeBuffer.lookup table := by
  have hall : Succeeds (flushAll env) s → ((flushAll env).final s).writeBuffer.lookup table =
      if table ∈ s.writeBuffer.keys then none else s.writeBuffer.lookup table := by
    intro h
    rw [lookup_flushAll table h]
    by_cases hk : table ∈ s.writeBuffer.keys
    · rw [if_pos hk]
    · rw [if_neg hk]
      exact (AList.lookup_eq_none.mpr hk).symm
  have hone : ∀ t, ((flushTable env t).final s).writeBuffer.lookup table =
      if table ∈ [t] then none else s.writeBuffer.lookup table := by
    intro t
    rw [lookup_flushTable]
    simp
  unfold handlerFlush handlerFlushes at *
  cases statement with
  | flush t =>
    cases t with
    | none => exact hall h
    | some t => exact hone t
  | merge _ | commit | vacuum _ _ => exact hall h
  | insert insert =>
    dsimp only
    split
    · exact hone _
    · simp
  | _ => simp

theorem yields_handlerFlush (h : ∀ table, s.HasWaiting table → Flushable s table) (hc : CompactsSafely env s) (statement : Statement) :
    Yields (handlerFlush env statement) s fun _ t => FlushedTables env s (handlerFlushes s statement) t := by
  have hall : Yields (flushAll env) s fun _ t => FlushedTables env s s.writeBuffer.keys t := by
    unfold flushAll
    rw [yields_bind, yields_get]
    exact (yields_flushTables _ h hc).mono fun _ _ ht => ht.1
  have hone : ∀ t, Yields (flushTable env t) s fun _ u => FlushedTables env s [t] u :=
    fun t => (yields_flushTable (h t) hc).mono fun _ _ ht => ht.1
  unfold handlerFlush handlerFlushes
  cases statement with
  | flush t =>
    cases t with
    | none => exact hall
    | some t => exact hone t
  | merge _ | commit | vacuum _ _ => exact hall
  | insert insert =>
    dsimp only
    split
    · exact hone _
    · exact yields_pure.mpr (FlushedTables.refl s)
  | _ => exact yields_pure.mpr (FlushedTables.refl s)

/-! ## Reading -/

theorem prepare_eq (sql : String) (s : Db) :
    (Succeeds (prepare env sql) s ↔ Succeeds (arrive env sql) s ∧
      Succeeds (handlerFlush env (env.parse sql)) ((arrive env sql).final s)) ∧
    (Succeeds (arrive env sql) s → (prepare env sql).final s =
      (handlerFlush env (env.parse sql)).final ((arrive env sql).final s)) := by
  have hrest : Succeeds (handlerFlush env (env.parse sql) >>= fun _ => (pure () : M Unit)) ((arrive env sql).final s) ↔
      Succeeds (handlerFlush env (env.parse sql)) ((arrive env sql).final s) :=
    succeeds_bind_of_succeeds fun _ _ => succeeds_pure _
  unfold prepare
  constructor
  · rw [succeeds_bind, hrest]
    exact ⟨fun ⟨a, ha, h⟩ => ⟨⟨a, ha⟩, h⟩, fun ⟨⟨a, ha⟩, h⟩ => ⟨a, ha, h⟩⟩
  · rintro ⟨a, ha⟩
    rw [final_bind, ha]
    exact final_bind_readOnly fun _ => readOnly_pure _

/-- The tables flushed before the first read. -/
def flushedBefore (env : Env) (s : Db) (sql : String) : List String :=
  flushedOnArrival env s sql ++ handlerFlushes ((arrive env sql).final s) (env.parse sql)

theorem lookup_prepare {sql : String} (hs : Succeeds (prepare env sql) s) (table : String) :
    ((prepare env sql).final s).writeBuffer.lookup table =
      if table ∈ flushedBefore env s sql then none else s.writeBuffer.lookup table := by
  obtain ⟨ha, hh⟩ := (prepare_eq sql s).1.mp hs
  rw [(prepare_eq sql s).2 ha, lookup_handlerFlush table hh, lookup_arrive sql table ha]
  unfold flushedBefore
  by_cases h₁ : table ∈ flushedOnArrival env s sql
  · simp [h₁]
  · by_cases h₂ : table ∈ handlerFlushes ((arrive env sql).final s) (env.parse sql)
    · simp [h₂]
    · simp [h₁, h₂]

theorem flushedBefore_iff {sql : String} (hs : Succeeds (prepare env sql) s) {table : String} (hw : s.HasWaiting table) :
    FlushedFirst env s sql table ↔ table ∈ flushedBefore env s sql := by
  obtain ⟨b, hb, -⟩ := hw
  have ha := ((prepare_eq sql s).1.mp hs).1
  exact flushedFirst_iff (Map.mem_iff_lookup.mpr ⟨b, hb⟩) (lookup_arrive sql table ha)

theorem hasWaiting_prepare {sql : String} (hs : Succeeds (prepare env sql) s) (table : String) :
    ((prepare env sql).final s).HasWaiting table ↔ s.HasWaiting table ∧ ¬ FlushedFirst env s sql table := by
  unfold Db.HasWaiting
  rw [lookup_prepare hs]
  by_cases hin : table ∈ flushedBefore env s sql
  · rw [if_pos hin]
    constructor
    · rintro ⟨b, hb, -⟩
      cases hb
    · rintro ⟨hw, hn⟩
      exact absurd ((flushedBefore_iff hs hw).mpr hin) hn
  · rw [if_neg hin]
    exact ⟨fun hw => ⟨hw, fun hf => hin ((flushedBefore_iff hs hw).mp hf)⟩, fun h => h.1⟩

theorem SameTables.hasWaiting {t : Db} (h : SameTables s t) (table : String) : t.HasWaiting table ↔ s.HasWaiting table := by
  unfold Db.HasWaiting
  rw [h.writeBuffer]

theorem yields_prepare (h : ∀ table, s.HasWaiting table → Flushable s table)
    (hc : CompactsSafely env (arrivedAt env s)) (sql : String) : Yields (prepare env sql) s fun _ t =>
      FlushedTables env (arrivedAt env s) (flushedBefore env s sql) t := by
  intro a ha
  obtain ⟨hu, k, hk⟩ := (prepare_eq sql s).1.mp ⟨a, ha⟩
  have hsame := @sameTables_arrivedAt env s
  have hf : ∀ table, (arrivedAt env s).HasWaiting table → Flushable (arrivedAt env s) table := by
    intro table hw
    exact (h table ((hsame.hasWaiting table).mp hw)).congr fun u => by rw [hsame.ctx]
  obtain ⟨n, hn⟩ := (arrive_eq sql s).1.mp hu
  have hflush := yields_flushTables _ hf hc n hn
  rw [← (arrive_eq sql s).2] at hflush
  rw [(prepare_eq sql s).2 hu]
  refine hflush.1.append (yields_handlerFlush (fun t ht => ?_) hflush.2 _ k hk)
  exact (hf t (hflush.1.hasWaiting ht)).congr hflush.1.ctx

/-- Rows that are waiting are not none. -/
theorem Housed.waiting_ne_nil (h : Housed env s) {table : String} (hw : s.HasWaiting table) {rows : List Row}
    (hrows : s.waiting env table = .ok rows) : rows ≠ [] := by
  obtain ⟨b, hb, he⟩ := hw
  unfold Db.waiting bufferedRows at hrows
  rw [hb] at hrows
  dsimp only at hrows
  rw [if_neg he] at hrows
  cases hp : s.ctx.lookup table with
  | none =>
    rw [hp] at hrows
    cases hrows
  | some p =>
    rw [hp] at hrows
    have hlen := congrArg List.length (mapM_ok_iff.mp (insertedRows_cast hrows).1)
    rw [List.length_map, List.length_map] at hlen
    intro hnil
    apply he
    refine Or.inl ?_
    rw [h.counted table b hb]
    unfold totalRows RecordBatch.numRows
    rw [hnil] at hlen
    unfold allRows at hlen
    rwa [List.length_flatMap] at hlen

end

/-! ## An INSERT that reads its own table -/

/-- Two INSERTs into `t`, the second from a query on `t`. -/
def selfInsertEnv : Env := { flagEnv with
  parse := fun sql =>
    if sql = "INSERT INTO t SELECT a FROM t" then .insert ⟨"t", [], some "SELECT a FROM t", none, none, sql⟩
    else flagEnv.parse sql
  eval := fun q tables =>
    match q with
    | .user sql =>
      if sql = "SELECT a FROM t" then (tables "t").elim (.error "table not found") .ok else flagEnv.eval q tables
    | _ => flagEnv.eval q tables }

/-- The table `t` with TRUE in a file and FALSE in the buffer. -/
def flagInserted : Db := (statements selfInsertEnv 1 ["INSERT INTO t VALUES (FALSE)"]).final flagDb

theorem flag_housed {s : Db} (hcat : s.catalog.tables = flagDb.catalog.tables) (hctx : s.ctx = flagDb.ctx)
    (hrows : s.rows "t" = [[.bool true]])
    (hbuf : ∀ e ∈ s.writeBuffer.pairs, e.2.rowCount = totalRows e.2.batches) : Housed selfInsertEnv s := by
  have hname : ∀ t p, s.ctx.lookup t = some p → t = "t" ∧ p = ⟨["t"], flagSchema⟩ := by
    intro t p hp
    rw [hctx] at hp
    have hin : (t, p) ∈ [("t", (⟨["t"], flagSchema⟩ : Provider))] := Map.mem_pairs.mpr hp
    simpa using hin
  constructor
  · intro t p hp
    obtain ⟨rfl, rfl⟩ := hname t p hp
    refine ⟨flagMeta, by rw [hcat]; rfl, ?_, ?_, ?_⟩ <;> decide
  · intro t p u q hp hq _
    rw [(hname t p hp).1, (hname u q hq).1]
  · intro t p hp row hrow
    obtain ⟨rfl, rfl⟩ := hname t p hp
    rw [hrows, List.mem_singleton] at hrow
    rw [hrow]
    rfl
  · intro t b hb
    exact hbuf (t, b) (Map.mem_pairs.mpr hb)

end PotatoDB
