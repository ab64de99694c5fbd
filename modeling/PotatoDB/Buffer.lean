import PotatoDB.Validators

/-!
# The write buffer and the logs

Inserted rows wait in memory, with a copy in the Arrow log, until a flush writes them to a
file.
-/

namespace PotatoDB

open Oplog
open Oplog.Prog (get emit attempt check each)

section
variable (env : Env)

/-! ## The SQL log -/

def currentWalTxnId (db : Db) : UInt64 := (db.activeTxn.map (·.walTxnId)).getD 0

def walAppendPending (sql : String) : M Unit := do
  let db ← get
  if db.replayingWal || !env.walEnabled then pure ()
  else emit (.walAppend ⟨currentWalTxnId db, .pending, sql⟩)

def shouldCheckpointAutocommit (force : Bool) (commits everyCommits elapsed interval : Nat) : Bool :=
  force || (interval ≠ 0 && elapsed ≥ interval) || (everyCommits > 0 && commits ≥ everyCommits)

/-- The length of the log file. -/
def walLength (log : List WalEntry) : Nat := (log.map fun e => 17 + (asBytes e.sql).length).sum

def walMaybeCheckpoint : M Unit := do
  let len := walLength (← get).walLog
  if env.walCheckpointThresholdBytes = 0 ∨ len ≥ env.walCheckpointThresholdBytes then emit .walCheckpoint
  else pure ()

def walFinishAutocommit (forceCheckpoint : Bool) : M Unit := do
  let db ← get
  if db.replayingWal || db.activeTxn.isSome || !env.walEnabled then pure ()
  else
    emit (.walAppend ⟨0, .committed, ""⟩)
    let t ← now env
    let c := (← get).counters
    let commits := c.walCommitsSinceCheckpoint + 1
    emit (.setCounters { c with walCommitsSinceCheckpoint := commits })
    if shouldCheckpointAutocommit forceCheckpoint commits env.walCheckpointEveryCommits
        (t - c.lastWalCheckpointAt) env.walCheckpointInterval then
      emit .walCheckpoint
      emit (.setCounters { c with walCommitsSinceCheckpoint := 0, lastWalCheckpointAt := t })
    else walMaybeCheckpoint env

/-! ## Flushing -/

def targetColumnsOf (table : String) (columns : Option (List String)) : M (List String) := do
  match columns with
  | some cols => return cols
  | none => return ((← get).catalog.tables.lookup table).elim [] (·.columnNames)

def flushTable (table : String) : M Nat := do
  match (← get).writeBuffer.lookup table with
  | none => return 0
  | some buffered =>
    emit (.removeBuffer table)
    if buffered.rowCount = 0 ∨ buffered.batches = [] then return 0
    else
      let targetColumns ← targetColumnsOf table buffered.columns
      let merges ← validateConstraintsBatch env table targetColumns buffered.batches .beforeInsert
      let _ ← nextTempTableName "flush"
      check (memTable ((buffered.batches.head?).elim [] (·.schema)) buffered.batches)
      let columns := match buffered.columns with
        | some [] => none
        | cols => cols
      insertInto env table columns buffered.batches
      let _ ← validateConstraintsBatch env table targetColumns [] .afterInsert
      each (fun m => mergeUniquenessKeys m.1 m.2) merges
      if env.arrowWalEnabled then emit (.arrowCheckpoint table) else pure ()
      maybeAutoAnalyze env table buffered.rowCount
      refreshTableFileStatsLight table
      maybeAutoCompact env table
      return buffered.rowCount

def flushTables : List String → M Nat
  | [] => return 0
  | t :: ts => do
    let n ← flushTable env t
    return n + (← flushTables ts)

def flushAll : M Nat := do
  flushTables env (← get).writeBuffer.keys

/-- Flushes the buffered tables whose names occur in the text, or all when none does. -/
def flushBufferedForSql (sqlUpper : String) : M Nat := do
  let names := (← get).writeBuffer.keys
  let toFlush := names.filter fun n => decide ((env.toUppercase n).toList <:+: sqlUpper.toList)
  if toFlush.isEmpty then flushAll env else flushTables env toFlush

/-! ## Buffering -/

def bufferInsertBatches (table : String) (columns : Option (List String)) (batches : List RecordBatch) :
    M (Nat × Bool) := do
  let incomingRows := totalRows batches
  if incomingRows = 0 then return (0, false)
  else
    match (← get).writeBuffer.lookup table with
    | some existing =>
      if existing.columns ≠ columns then
        let _ ← flushTable env table
      else pure ()
    | none => pure ()
    let t ← now env
    let previous := ((← get).writeBuffer.lookup table).getD ⟨columns, [], 0, 0, t⟩
    let entry : BufferedInsert := if previous.batches = [] then
        { previous with columns := columns, firstBufferedAt := t } else previous
    emit (.setBuffer table { entry with
      batches := entry.batches ++ batches
      rowCount := entry.rowCount + incomingRows
      approxBytes := entry.approxBytes + env.batchBytes batches })
    let targetColumns ← targetColumnsOf table entry.columns
    match ← attempt (validateConstraintsBatch env table targetColumns (entry.batches ++ batches)
        .beforeInsert) with
    | .error e =>
      emit (.setBuffer table entry)
      throw e
    | .ok _ =>
      let db ← get
      if !db.replayingWal && env.arrowWalEnabled then emit (.arrowAppend table batches) else pure ()
      let t' ← now env
      let shouldFlush := ((← get).writeBuffer.lookup table).any fun b =>
        b.rowCount ≥ env.writeBufferRowThreshold || b.approxBytes ≥ env.writeBufferByteThreshold ||
          t' - b.firstBufferedAt ≥ env.writeBufferTimeThreshold
      if shouldFlush then
        let _ ← flushTable env table
      else pure ()
      return (incomingRows, shouldFlush)

end

end PotatoDB
