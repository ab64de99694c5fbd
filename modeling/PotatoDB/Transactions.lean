import PotatoDB.Buffer

/-!
# Transaction control

BEGIN, COMMIT, ROLLBACK and savepoints.
-/

namespace PotatoDB

open Oplog
open Oplog.Prog (get emit attempt check each)

inductive QueryResult where
  | message (text : String)
  | records (batches : List RecordBatch)
deriving DecidableEq

section
variable (env : Env)

/-- `u64::saturating_add(1)` on the counter of transaction ids. -/
def nextTxnId : M UInt64 := do
  let c := (← get).counters
  emit (.setCounters { c with
    txnCounter := if c.txnCounter.toNat + 1 < 2 ^ 64 then c.txnCounter + 1 else c.txnCounter })
  return c.txnCounter

def handleBegin : M QueryResult := do
  let db ← get
  if db.activeTxn.isSome then
    throw "Already inside a transaction (nested BEGIN not supported)"
  else
    emit (.setCatalogInTransaction true)
    let walTxnId ← nextTxnId
    emit (.beginTxn walTxnId)
    return .message "BEGIN"

def handleCommit : M QueryResult := do
  let _ ← flushAll env
  match (← get).activeTxn with
  | none => throw "No active transaction to COMMIT"
  | some txn =>
    emit .endTxn
    emit (.setCatalogInTransaction false)
    catalogForceSave
    each (deleteTableStorage env) txn.deferredDeletes
    if (← get).replayingWal || !env.walEnabled then pure ()
    else
      emit (.walAppend ⟨txn.walTxnId, .committed, ""⟩)
      emit .walCheckpoint
    return .message "COMMIT"

/-- Deletes the files of the snapshot's tables that are not in the snapshot. -/
def deleteNewFiles (fileSnapshot : Map (List ObjPath)) : M Unit :=
  each (fun entry => do
    each (fun path => if path ∈ entry.2 then pure () else emit (.deleteFile path))
      (← listParquetFiles entry.1)) fileSnapshot.pairs

/-- Removes the tables of the catalog that are not in the snapshot. -/
def dropNewTables (fileSnapshot : Map (List ObjPath)) : M Unit := do
  each (fun entry =>
    if (fileSnapshot.lookup entry.1).isSome then pure ()
    else do
      deleteTableStorage env entry.2
      emit (.deregisterTable entry.1)) (← get).catalog.tables.pairs

/-- Writes the backed-up rows of the tables of the catalog back. -/
def restoreBackups (backups : Map (List RecordBatch)) : M Unit :=
  each (fun entry => do
    match (← get).catalog.tables.lookup entry.1 with
    | none => pure ()
    | some m =>
      let schema ← check (columnsToSchema env m.columns)
      rewriteTable env entry.1 schema entry.2 false) backups.pairs

/-- The part that ROLLBACK and ROLLBACK TO share; only ROLLBACK saves the catalog. -/
def restoreSnapshot (catalogSnapshot : CatalogData) (fileSnapshot : Map (List ObjPath))
    (backups : Map (List RecordBatch)) (save : Bool) : M Unit := do
  let current := (← get).catalog.tables.keys
  deleteNewFiles fileSnapshot
  dropNewTables env fileSnapshot
  emit (.setCatalog catalogSnapshot)
  if save then catalogForceSave else pure ()
  each (fun t => emit (.deregisterTable t)) current
  reloadTables env
  restoreBackups env backups

def handleRollback : M QueryResult := do
  match (← get).activeTxn with
  | none => throw "No active transaction to ROLLBACK"
  | some txn =>
    emit .endTxn
    emit (.setCatalogInTransaction false)
    restoreSnapshot env txn.catalogSnapshot txn.fileSnapshot txn.rewriteBackups true
    if (← get).replayingWal || !env.walEnabled then pure ()
    else
      emit (.walAppend ⟨txn.walTxnId, .aborted, ""⟩)
      emit .walCheckpoint
    return .message "ROLLBACK"

def handleSavepoint (name : String) : M QueryResult := do
  match (← get).activeTxn with
  | none => throw "SAVEPOINT requires an active transaction"
  | some _ =>
    emit (.pushSavepoint name)
    return .message s!"SAVEPOINT {name}"

/-- The last savepoint of a name, with its position. -/
def findSavepoint (savepoints : List Savepoint) (name : String) : Option (Savepoint × Nat) :=
  savepoints.zipIdx.reverse.find? (·.1.name = name)

def handleRollbackTo (name : String) : M QueryResult := do
  match (← get).activeTxn with
  | none => throw "ROLLBACK TO SAVEPOINT requires an active transaction"
  | some txn =>
    match findSavepoint txn.savepoints name with
    | none => throw s!"Savepoint '{name}' does not exist"
    | some (sp, idx) =>
      emit (.truncateSavepoints (idx + 1))
      restoreSnapshot env sp.catalogSnapshot sp.fileSnapshot sp.rewriteBackups false
      emit .resetTxn
      return .message s!"ROLLBACK TO SAVEPOINT {name}"

def handleReleaseSavepoint (name : String) : M QueryResult := do
  match (← get).activeTxn with
  | none => throw "RELEASE SAVEPOINT requires an active transaction"
  | some txn =>
    match findSavepoint txn.savepoints name with
    | none => throw s!"Savepoint '{name}' does not exist"
    | some (_, idx) =>
      emit (.truncateSavepoints idx)
      return .message s!"RELEASE SAVEPOINT {name}"

end

end PotatoDB
