import PotatoDB.Constraints
import PotatoDB.Execute

/-!
# What upkeep leaves alone

Flushing, compacting and analysing tables change files, DataFusion's tables, the catalog in memory
and the caches. The transaction, the SQL log and `catalog.json` stay as they are, and only a flush
changes the write buffer.
-/

namespace PotatoDB

open Oplog Oplog.Prog
open Machine (apply)

/-- An operation of the checks of rows: the uniqueness cache is filled. -/
def Op.Checking : Op → Prop
  | cacheInsert .. => True
  | _ => False

/-- An operation of small steps: counters, caches and marks, and files and tables that go. -/
def Op.Minor : Op → Prop
  | deleteFile _ | markCatalogDirty | deregisterTable _ | cacheInsert .. | cacheMerge .. | cacheInvalidate _
  | setCounters _ | enter _ => True
  | _ => False

/-- An operation of the writing of a table. -/
def Op.Writing : Op → Prop
  | putFile .. | deleteFile _ | setCatalog _ | markCatalogDirty | registerTable .. | deregisterTable _
  | cacheInsert .. | cacheMerge .. | cacheInvalidate _ | setCounters _ | enter _ => True
  | _ => False

/-- An operation of the writing of the rows a table had in the buffer. -/
def Op.Flushing (table : String) (o : Op) : Prop := o.Writing ∨ o = .arrowCheckpoint table

/-- An operation of what a statement does before its handler. -/
def Op.Upkeep (o : Op) : Prop := ∃ table, o.Flushing table ∨ o = .removeBuffer table

section
variable {env : Env}

/-! ## Checks -/

theorem checking_validateKeys (table : String) (columns : List String) (cacheKey message : String)
    (nullError : Option String) (positions : List Nat) (batches : List RecordBatch) :
    Emits Op.Checking (validateKeys env table columns cacheKey message nullError positions batches) := by
  unfold validateKeys
  refine (emits_check _).bind fun values => ?_
  split
  · exact emits_pure _
  · refine Emits.bind ?_ fun _ => emits_pure _
    unfold checkUniquenessAgainstTableCached
    refine Emits.bind ?_ fun _ => emits_get.bind fun db => ?_
    · unfold ensureUniquenessLoaded
      refine emits_get.bind fun db => ?_
      split
      · exact emits_pure _
      · exact readOnly_selectStar.emits.bind fun r => (emits_check _).bind fun rows => emits_emit trivial
    · dsimp only
      split
      · exact emits_throw _
      · exact emits_pure _

theorem checking_validateConstraintsLoop (table : String) (targetColumns : List String)
    (batches : List RecordBatch) (phase : ValidationPhase) : ∀ (cs : List TableConstraint) (merges : Merges),
    Emits Op.Checking (validateConstraintsLoop env table targetColumns batches phase cs merges)
  | [], merges => emits_pure _
  | .primaryKey columns :: cs, merges => by
    have ih := checking_validateConstraintsLoop table targetColumns batches phase cs
    unfold validateConstraintsLoop
    split
    · exact ih _
    · split
      · exact readOnly_validateTableConstraints.emits.bind fun _ => emits_pure _
      · exact (checking_validateKeys _ _ _ _ _ _ _).bind fun keys => ih _
  | .unique name columns :: cs, merges => by
    have ih := checking_validateConstraintsLoop table targetColumns batches phase cs
    unfold validateConstraintsLoop
    split
    · exact ih _
    · split
      · exact readOnly_validateTableConstraints.emits.bind fun _ => emits_pure _
      · exact (checking_validateKeys _ _ _ _ _ _ _).bind fun keys => ih _
  | .check name expr :: cs, merges => by
    have ih := checking_validateConstraintsLoop table targetColumns batches phase cs
    have hall := (@readOnly_validateCheckConstraints env table).emits.bind fun _ =>
      (emits_pure [] : Emits Op.Checking (pure [] : M Merges))
    unfold validateConstraintsLoop
    split
    · exact ih _
    · dsimp only
      split
      · exact ih _
      · split
        · exact hall
        · refine (emits_check _).bind fun _ => ?_
          split
          · exact hall
          · split
            · refine (emits_check _).bind fun n => ?_
              split
              · exact emits_throw _
              · exact ih _
            · exact hall
  | .foreignKey name columns refTable refColumns onDelete :: cs, merges => by
    have ih := checking_validateConstraintsLoop table targetColumns batches phase cs
    unfold validateConstraintsLoop
    split
    · exact ih _
    · exact (readOnly_validateForeignKey _ _ _ _).emits.bind fun _ => ih _

theorem checking_validateConstraintsBatch (table : String) (targetColumns : List String)
    (batches : List RecordBatch) (phase : ValidationPhase) :
    Emits Op.Checking (validateConstraintsBatch env table targetColumns batches phase) := by
  unfold validateConstraintsBatch
  split
  · exact emits_pure _
  · refine emits_get.bind fun db => ?_
    split
    · exact emits_pure _
    · exact checking_validateConstraintsLoop _ _ _ _ _ _

/-! ## Writing -/

theorem Op.Minor.writing {o : Op} (h : o.Minor) : o.Writing := by
  cases o with
  | deleteFile _ | markCatalogDirty | deregisterTable _ | cacheInsert _ _ | cacheMerge _ _ | cacheInvalidate _
  | setCounters _ | enter _ => trivial
  | _ => exact h.elim

theorem writing_of_minor {α : Type} {p : M α} (h : Emits Op.Minor p) : Emits Op.Writing p := h.mono fun _ h => h.writing

theorem Op.Checking.minor {o : Op} (h : o.Checking) : o.Minor := by
  cases o with
  | cacheInsert _ _ => trivial
  | _ => exact h.elim

theorem Op.Checking.writing {o : Op} (h : o.Checking) : o.Writing := h.minor.writing

theorem minor_catalogSave : Emits Op.Minor catalogSave := by
  unfold catalogSave
  refine emits_get.bind fun db => ?_
  split
  · exact emits_pure _
  · exact emits_emit trivial

theorem minor_now : Emits Op.Minor (now env) :=
  emits_get.bind fun _ => (emits_emit trivial).bind fun _ => emits_pure _

theorem minor_nextTempTableName (tag : String) : Emits Op.Minor (nextTempTableName tag) :=
  emits_get.bind fun _ => (emits_emit trivial).bind fun _ => emits_pure _

theorem minor_maybeAutoAnalyze (table : String) (n : Nat) : Emits Op.Minor (maybeAutoAnalyze env table n) := by
  unfold maybeAutoAnalyze
  split
  · exact emits_pure _
  · refine emits_get.bind fun db => ?_
    dsimp only
    split
    · exact emits_emit trivial
    · exact emits_emit trivial

theorem minor_deleteParquetFiles (table : String) : Emits Op.Minor (deleteParquetFiles table) :=
  Emits.bind (emits_get.bind fun _ => emits_pure _) fun _ => emits_each (fun _ => emits_emit trivial) _

theorem writing_modifyCatalog (f : CatalogData → CatalogData) : Emits Op.Writing (modifyCatalog f) :=
  emits_get.bind fun _ => emits_emit trivial

theorem writing_catalogSave : Emits Op.Writing catalogSave := writing_of_minor minor_catalogSave

theorem writing_now : Emits Op.Writing (now env) := writing_of_minor minor_now

theorem writing_nextTempTableName (tag : String) : Emits Op.Writing (nextTempTableName tag) :=
  writing_of_minor (minor_nextTempTableName tag)

theorem writing_maybeAutoAnalyze (table : String) (n : Nat) : Emits Op.Writing (maybeAutoAnalyze env table n) :=
  writing_of_minor (minor_maybeAutoAnalyze table n)

theorem writing_deleteParquetFiles (table : String) : Emits Op.Writing (deleteParquetFiles table) :=
  writing_of_minor (minor_deleteParquetFiles table)

theorem writing_refreshLight (table : String) : Emits Op.Writing (refreshTableFileStatsLight table) := by
  unfold refreshTableFileStatsLight
  refine Emits.bind (emits_get.bind fun _ => emits_pure _) fun files => emits_get.bind fun db => ?_
  split
  · exact (writing_modifyCatalog _).bind fun _ => writing_catalogSave
  · exact emits_pure _

theorem writing_refreshTableFileStats (table : String) : Emits Op.Writing (refreshTableFileStats env table) := by
  unfold refreshTableFileStats
  refine emits_get.bind fun db => ?_
  split
  · exact emits_pure _
  · exact (writing_modifyCatalog _).bind fun _ => writing_catalogSave

theorem writing_insertInto (table : String) (columns : Option (List String)) (batches : List RecordBatch) :
    Emits Op.Writing (insertInto env table columns batches) := by
  unfold insertInto
  refine emits_get.bind fun db => ?_
  split
  · exact emits_throw _
  · refine (emits_check _).bind fun rows => ?_
    split
    · exact emits_pure _
    · exact writing_now.bind fun _ => emits_emit trivial

theorem writing_writeRewritten (table : String) (schema : Schema) (batches original : List RecordBatch) :
    Emits Op.Writing (writeRewritten env table schema batches original) := by
  unfold writeRewritten
  split
  · refine Emits.bind (((emits_check _).bind fun _ => writing_insertInto _ _ _).attempt) fun r => ?_
    cases r with
    | ok _ => exact emits_pure _
    | error e =>
      refine Emits.bind ?_ fun _ => emits_throw _
      unfold restoreTableFromSnapshot
      split
      · exact ((writing_insertInto _ _ _).attempt).bind fun _ => emits_pure _
      · exact emits_pure _
  · exact emits_pure _

theorem writing_rewriteTable (table : String) (schema : Schema) (batches : List RecordBatch) (flag : Bool) :
    Emits Op.Writing (rewriteTable env table schema batches flag) := by
  unfold rewriteTable
  refine (readOnly_tableMeta table).emits.bind fun m => (emits_emit trivial).bind fun _ => Emits.bind ?_ fun original => ?_
  · unfold diskSnapshot
    split
    · exact emits_pure _
    · exact readOnly_selectStar.emits.bind fun _ => emits_pure _
  · refine (emits_emit trivial).bind fun _ => (writing_deleteParquetFiles table).bind fun _ => ?_
    refine (emits_check _).bind fun _ => (emits_emit trivial).bind fun _ => ?_
    exact (writing_writeRewritten _ _ _ _).bind fun _ => writing_refreshLight table

theorem readOnly_selectOrdered (table : String) (order : List IndexColumn) : ReadOnly (selectOrdered env table order) := by
  unfold selectOrdered
  refine readOnly_selectStar.bind fun r => ?_
  split
  · exact readOnly_pure _
  · exact readOnly_throw _

theorem writing_selectOrdered (table : String) (order : List IndexColumn) :
    Emits Op.Writing (selectOrdered env table order) := (readOnly_selectOrdered table order).emits

theorem writing_maybeAutoCompact (table : String) : Emits Op.Writing (maybeAutoCompact env table) := by
  unfold maybeAutoCompact
  refine emits_get.bind fun db => ?_
  split
  · exact emits_pure _
  · refine Emits.bind (emits_get.bind fun _ => emits_pure _) fun files => ?_
    split
    · exact emits_pure _
    · exact emits_get.bind fun _ => (writing_selectOrdered _ _).bind fun r => writing_rewriteTable _ _ _ _

theorem writing_handleAnalyze (table : String) : Emits Op.Writing (handleAnalyze env table) := by
  unfold handleAnalyze
  refine (readOnly_tableMeta table).emits.bind fun m => readOnly_selectStar.emits.bind fun r => ?_
  refine (emits_check _).bind fun rows => (writing_modifyCatalog _).bind fun _ => ?_
  exact writing_catalogSave.bind fun _ => (writing_refreshTableFileStats table).bind fun _ => emits_pure _

theorem writing_drainPendingAnalyze : Emits Op.Writing (drainPendingAnalyze env) := by
  unfold drainPendingAnalyze
  refine emits_get.bind fun db => ?_
  dsimp only
  split
  · exact emits_pure _
  · refine (emits_emit trivial).bind fun _ => emits_each (fun t => ?_) _
    exact ((writing_handleAnalyze t).attempt).bind fun _ => emits_pure _

/-! ## Flushing -/

theorem flushing_of_writing {α : Type} {p : M α} {table : String} (h : Emits Op.Writing p) :
    Emits (Op.Flushing table) p :=
  h.mono fun _ => Or.inl

theorem upkeep_of_writing {α : Type} {p : M α} (h : Emits Op.Writing p) : Emits Op.Upkeep p :=
  h.mono fun _ h => ⟨"", Or.inl (Or.inl h)⟩

/-- What a flush does once the rows are in a file. -/
def finishFlush (env : Env) (table : String) (targetColumns : List String) (merges : Merges) (rowCount : Nat) :
    M Nat := do
  let _ ← validateConstraintsBatch env table targetColumns [] .afterInsert
  each (fun m => mergeUniquenessKeys m.1 m.2) merges
  if env.arrowWalEnabled then emit (.arrowCheckpoint table) else pure ()
  maybeAutoAnalyze env table rowCount
  refreshTableFileStatsLight table
  maybeAutoCompact env table
  return rowCount

/-- What a flush does with the rows it took from the buffer. -/
def writeBuffered (env : Env) (table : String) (buffered : BufferedInsert) : M Nat := do
  if buffered.rowCount = 0 ∨ buffered.batches = [] then return 0
  else
    let targetColumns ← targetColumnsOf table buffered.columns
    let merges ← validateConstraintsBatch env table targetColumns buffered.batches .beforeInsert
    let _ ← nextTempTableName "flush"
    check (memTable ((buffered.batches.head?).elim [] (·.schema)) buffered.batches)
    let columns := match buffered.columns with
      | some [] => none
      | cols => cols
    insertInto env table columns buffered.batches
    finishFlush env table targetColumns merges buffered.rowCount

theorem flushTable_eq (table : String) : flushTable env table = (do
    match (← get).writeBuffer.lookup table with
    | none => return 0
    | some buffered =>
      emit (.removeBuffer table)
      writeBuffered env table buffered) := rfl

/-- What buffering does once the rows are in the buffer and have passed their checks. -/
def keepBuffered (env : Env) (table : String) (batches : List RecordBatch) : M (Nat × Bool) := do
  let db ← get
  if !db.replayingWal && env.arrowWalEnabled then emit (.arrowAppend table batches) else pure ()
  let t' ← now env
  let shouldFlush := ((← get).writeBuffer.lookup table).any fun b =>
    b.rowCount ≥ env.writeBufferRowThreshold || b.approxBytes ≥ env.writeBufferByteThreshold ||
      t' - b.firstBufferedAt ≥ env.writeBufferTimeThreshold
  if shouldFlush then
    let _ ← flushTable env table
  else pure ()
  return (totalRows batches, shouldFlush)

/-- Puts the rows behind those of `entry` and checks them all. -/
def bufferBehind (env : Env) (table : String) (entry : BufferedInsert) (batches : List RecordBatch) : M (Nat × Bool) := do
  emit (.setBuffer table { entry with
    batches := entry.batches ++ batches
    rowCount := entry.rowCount + totalRows batches
    approxBytes := entry.approxBytes + env.batchBytes batches })
  let targetColumns ← targetColumnsOf table entry.columns
  match ← attempt (validateConstraintsBatch env table targetColumns (entry.batches ++ batches) .beforeInsert) with
  | .error e =>
    emit (.setBuffer table entry)
    throw e
  | .ok _ => keepBuffered env table batches

/-- The rows of a buffer that the table has, or none under the columns of the INSERT. -/
def bufferEntry (s : Db) (table : String) (columns : Option (List String)) (t : Nat) : BufferedInsert :=
  let previous := (s.writeBuffer.lookup table).getD ⟨columns, [], 0, 0, t⟩
  if previous.batches = [] then { previous with columns := columns, firstBufferedAt := t } else previous

def appendBuffered (env : Env) (table : String) (columns : Option (List String)) (batches : List RecordBatch) :
    M (Nat × Bool) := do
  let t ← now env
  bufferBehind env table (bufferEntry (← get) table columns t) batches

theorem bufferInsertBatches_eq (table : String) (columns : Option (List String)) (batches : List RecordBatch) :
    bufferInsertBatches env table columns batches = (if totalRows batches = 0 then pure (0, false) else do
      match (← get).writeBuffer.lookup table with
      | some existing =>
        if existing.columns ≠ columns then do
          let _ ← flushTable env table
          appendBuffered env table columns batches
        else appendBuffered env table columns batches
      | none => appendBuffered env table columns batches) := rfl

theorem flushing_validate (table : String) (targetColumns : List String) (batches : List RecordBatch)
    (phase : ValidationPhase) : Emits (Op.Flushing table) (validateConstraintsBatch env table targetColumns batches phase) :=
  (checking_validateConstraintsBatch table _ _ _).mono fun _ h => Or.inl h.writing

theorem flushing_finishFlush (table : String) (targetColumns : List String) (merges : Merges) (n : Nat) :
    Emits (Op.Flushing table) (finishFlush env table targetColumns merges n) := by
  have hrest := (@flushing_of_writing _ _ table (@writing_maybeAutoAnalyze env table n)).bind fun _ =>
    (flushing_of_writing (writing_refreshLight table)).bind fun _ =>
      (flushing_of_writing (@writing_maybeAutoCompact env table)).bind fun _ => emits_pure n
  unfold finishFlush
  refine (flushing_validate _ _ _ _).bind fun _ => ?_
  refine (flushing_of_writing (emits_each (fun m => emits_emit trivial) merges)).bind fun _ => ?_
  dsimp only
  split
  · exact Emits.bind (emits_emit (Or.inr rfl)) fun _ => hrest
  · exact hrest

theorem flushing_writeBuffered (table : String) (buffered : BufferedInsert) :
    Emits (Op.Flushing table) (writeBuffered env table buffered) := by
  unfold writeBuffered
  split
  · exact emits_pure _
  · refine Emits.bind ?_ fun targetColumns => (flushing_validate _ _ _ _).bind fun merges => ?_
    · unfold targetColumnsOf
      split
      · exact emits_pure _
      · exact emits_get.bind fun _ => emits_pure _
    · refine (flushing_of_writing (writing_nextTempTableName _)).bind fun _ => ?_
      refine (emits_check _).bind fun _ => ?_
      exact (flushing_of_writing (writing_insertInto _ _ _)).bind fun _ => flushing_finishFlush _ _ _ _

theorem upkeep_flushTable (table : String) : Emits Op.Upkeep (flushTable env table) := by
  rw [flushTable_eq]
  refine emits_get.bind fun db => ?_
  split
  · exact emits_pure _
  · refine Emits.bind (emits_emit ⟨table, Or.inr rfl⟩) fun _ => ?_
    exact (flushing_writeBuffered table _).mono fun _ h => ⟨table, Or.inl h⟩

theorem upkeep_flushTables : ∀ tables : List String, Emits Op.Upkeep (flushTables env tables)
  | [] => emits_pure _
  | t :: ts => (upkeep_flushTable t).bind fun _ => (upkeep_flushTables ts).bind fun _ => emits_pure _

theorem upkeep_flushAll : Emits Op.Upkeep (flushAll env) := emits_get.bind fun _ => upkeep_flushTables _

theorem upkeep_flushBufferedForSql (sqlUpper : String) : Emits Op.Upkeep (flushBufferedForSql env sqlUpper) := by
  unfold flushBufferedForSql
  refine emits_get.bind fun db => ?_
  dsimp only
  split
  · exact upkeep_flushAll
  · exact upkeep_flushTables _

theorem upkeep_arrive (sql : String) : Emits Op.Upkeep (arrive env sql) := by
  unfold arrive
  refine (upkeep_of_writing writing_drainPendingAnalyze).bind fun _ => ?_
  refine (upkeep_of_writing (p := emit (.enter (env.parse sql))) (emits_emit trivial)).bind fun _ => ?_
  split
  · exact emits_pure _
  · split
    · exact emits_pure _
    · exact (upkeep_flushBufferedForSql _).bind fun _ => emits_pure _

/-! ## What stays -/

/-- What no upkeep changes: the transaction, the SQL log, `catalog.json` and the flags. -/
structure Settled where
  activeTxn : Option Transaction
  walLog : List WalEntry
  catalogDoc : Option CatalogData
  catalogInTransaction : Bool
  replayingWal : Bool

def Db.settled (s : Db) : Settled := ⟨s.activeTxn, s.walLog, s.catalogDoc, s.catalogInTransaction, s.replayingWal⟩

theorem Op.Upkeep.settled {o : Op} (h : o.Upkeep) (s : Db) : (apply s o).settled = s.settled := by
  obtain ⟨table, (h | rfl) | rfl⟩ := h
  · cases o <;> first | rfl | exact h.elim
  · rfl
  · rfl

theorem arrive_settled (sql : String) (s : Db) : ((arrive env sql).final s).settled = s.settled :=
  (upkeep_arrive sql).final_eq (fun s _ h => h.settled s) s

/-! ## The write buffer -/

/-- A flush takes the rows of its table from the buffer, whether or not it fails. -/
theorem writeBuffer_flushTable (table : String) (s : Db) :
    ((flushTable env table).final s).writeBuffer = s.writeBuffer.erase table := by
  rw [flushTable_eq, final_bind, result_get, final_get]
  dsimp only
  cases hb : s.writeBuffer.lookup table with
  | none =>
    have hn : table ∉ s.writeBuffer := AList.lookup_eq_none.mp hb
    rw [final_pure]
    exact AList.ext (List.kerase_of_notMem_keys hn).symm
  | some buffered =>
    rw [final_bind, result_emit, final_emit]
    refine (flushing_writeBuffered table buffered).final_eq (g := Db.writeBuffer) ?_ _
    rintro s o (h | rfl)
    · cases o <;> first | rfl | exact h.elim
    · rfl

theorem lookup_flushTable (table t : String) (s : Db) :
    ((flushTable env table).final s).writeBuffer.lookup t =
      if t = table then none else s.writeBuffer.lookup t := by
  rw [writeBuffer_flushTable]
  by_cases ht : t = table
  · rw [if_pos ht, ht, AList.lookup_erase]
  · rw [if_neg ht, AList.lookup_erase_ne ht]

/-- Flushes that all succeed empty the buffers of their tables and no others. -/
theorem lookup_flushTables (t : String) : ∀ (tables : List String) (s : Db), Succeeds (flushTables env tables) s →
    ((flushTables env tables).final s).writeBuffer.lookup t =
      if t ∈ tables then none else s.writeBuffer.lookup t
  | [], s, _ => by
    rw [if_neg List.not_mem_nil]
    rfl
  | table :: tables, s, h => by
    obtain ⟨n, hn, hs⟩ := succeeds_bind.mp h
    obtain ⟨m, hm, -⟩ := succeeds_bind.mp hs
    have ih := lookup_flushTables t tables _ ⟨m, hm⟩
    show ((flushTable env table >>= fun n => flushTables env tables >>= fun m => pure (n + m)).final s).writeBuffer.lookup t = _
    rw [final_bind, hn]
    dsimp only
    rw [final_bind, hm]
    dsimp only
    rw [final_pure, ih, lookup_flushTable]
    by_cases hin : t ∈ tables
    · rw [if_pos hin, if_pos (List.mem_cons_of_mem _ hin)]
    · rw [if_neg hin]
      by_cases he : t = table
      · rw [if_pos he, if_pos (List.mem_cons.mpr (Or.inl he))]
      · rw [if_neg he, if_neg (by simp [he, hin])]

theorem succeeds_flushAll {s : Db} : Succeeds (flushAll env) s ↔ Succeeds (flushTables env s.writeBuffer.keys) s :=
  succeeds_get_bind

theorem final_flushAll (s : Db) : (flushAll env).final s = (flushTables env s.writeBuffer.keys).final s := by
  unfold flushAll
  rw [final_bind, result_get, final_get]

theorem lookup_flushAll (t : String) {s : Db} (h : Succeeds (flushAll env) s) :
    ((flushAll env).final s).writeBuffer.lookup t = none := by
  rw [final_flushAll, lookup_flushTables t _ _ (succeeds_flushAll.mp h)]
  by_cases ht : t ∈ s.writeBuffer.keys
  · rw [if_pos ht]
  · rw [if_neg ht]
    exact AList.lookup_eq_none.mpr ht

/-- The tables a statement flushes: those its text names, or all. -/
def flushedFor (env : Env) (s : Db) (sqlUpper : String) : List String :=
  let named := s.writeBuffer.keys.filter fun n => decide ((env.toUppercase n).toList <:+: sqlUpper.toList)
  if named.isEmpty then s.writeBuffer.keys else named

theorem succeeds_flushBufferedForSql {sqlUpper : String} {s : Db} :
    Succeeds (flushBufferedForSql env sqlUpper) s ↔ Succeeds (flushTables env (flushedFor env s sqlUpper)) s := by
  unfold flushBufferedForSql flushedFor
  rw [succeeds_get_bind]
  dsimp only
  split
  · exact succeeds_flushAll
  · exact Iff.rfl

theorem final_flushBufferedForSql (sqlUpper : String) (s : Db) :
    (flushBufferedForSql env sqlUpper).final s = (flushTables env (flushedFor env s sqlUpper)).final s := by
  unfold flushBufferedForSql flushedFor
  rw [final_bind, result_get, final_get]
  dsimp only
  split
  · exact final_flushAll s
  · rfl

/-- The tables that are flushed before the handler of a statement runs. -/
def flushedOnArrival (env : Env) (s : Db) (sql : String) : List String :=
  match env.parse sql with
  | .flush _ => []
  | _ => if needsNoFlush (upperText env sql) then [] else flushedFor env s (upperText env sql)

/-- The state of a statement's arrival: the pending ANALYZEs are done. -/
def arrivedAt (env : Env) (s : Db) : Db := (drainPendingAnalyze env).final s

theorem writeBuffer_arrivedAt (s : Db) : (arrivedAt env s).writeBuffer = s.writeBuffer := by
  refine writing_drainPendingAnalyze.final_eq (g := Db.writeBuffer) ?_ s
  intro s o h
  cases o <;> first | rfl | exact h.elim

theorem succeeds_drainPendingAnalyze (s : Db) : Succeeds (drainPendingAnalyze env) s := by
  have hloop : ∀ (ts : List String) (s : Db), Succeeds (each (fun t => do
      let _ ← attempt (handleAnalyze env t)) ts : M Unit) s := by
    intro ts
    induction ts with
    | nil => exact fun _ => ⟨(), rfl⟩
    | cons t ts ih =>
      intro s
      rw [each, succeeds_bind]
      exact ⟨(), rfl, ih _⟩
  unfold drainPendingAnalyze
  rw [succeeds_get_bind]
  dsimp only
  split
  · exact ⟨(), rfl⟩
  · rw [succeeds_bind]
    exact ⟨(), rfl, hloop _ _⟩

theorem arrive_eq (sql : String) (s : Db) :
    (Succeeds (arrive env sql) s ↔ Succeeds (flushTables env (flushedOnArrival env s sql)) (arrivedAt env s)) ∧
      (arrive env sql).final s = (flushTables env (flushedOnArrival env s sql)).final (arrivedAt env s) := by
  obtain ⟨u, hu⟩ := @succeeds_drainPendingAnalyze env s
  have hfor : flushedFor env (arrivedAt env s) (upperText env sql) = flushedFor env s (upperText env sql) := by
    unfold flushedFor
    rw [writeBuffer_arrivedAt]
  have hflush : (Succeeds (flushBufferedForSql env (upperText env sql) >>= fun _ => (pure () : M Unit)) (arrivedAt env s) ↔
        Succeeds (flushTables env (flushedFor env s (upperText env sql))) (arrivedAt env s)) ∧
      (flushBufferedForSql env (upperText env sql) >>= fun _ => (pure () : M Unit)).final (arrivedAt env s) =
        (flushTables env (flushedFor env s (upperText env sql))).final (arrivedAt env s) := by
    rw [succeeds_bind_of_succeeds fun _ _ => succeeds_pure _, succeeds_flushBufferedForSql,
      final_bind_readOnly fun _ => readOnly_pure _, final_flushBufferedForSql, hfor]
    exact ⟨Iff.rfl, rfl⟩
  have hnone : (Succeeds (pure () : M Unit) (arrivedAt env s) ↔ Succeeds (flushTables env []) (arrivedAt env s)) ∧
      (pure () : M Unit).final (arrivedAt env s) = (flushTables env []).final (arrivedAt env s) :=
    ⟨by simp [flushTables], rfl⟩
  unfold arrive flushedOnArrival
  rw [succeeds_bind_of_ok hu, final_bind, hu, succeeds_bind_of_ok (result_emit _)]
  dsimp only
  rw [final_bind, result_emit, final_emit]
  show (Succeeds _ (arrivedAt env s) ↔ _) ∧ Prog.final _ (arrivedAt env s) = _
  by_cases hn : needsNoFlush (upperText env sql) = true
  · cases env.parse sql <;> simp only [hn, if_true] <;> exact hnone
  · cases env.parse sql <;> simp only [hn, if_false, Bool.false_eq_true] <;> first | exact hnone | exact hflush

theorem lookup_arrive (sql t : String) {s : Db} (h : Succeeds (arrive env sql) s) :
    ((arrive env sql).final s).writeBuffer.lookup t =
      if t ∈ flushedOnArrival env s sql then none else s.writeBuffer.lookup t := by
  obtain ⟨hs, hf⟩ := @arrive_eq env sql s
  rw [hf, lookup_flushTables t _ _ (hs.mp h), writeBuffer_arrivedAt]

end

end PotatoDB
