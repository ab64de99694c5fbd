import PotatoDB.Access
import PotatoDB.Dml

/-!
# The dispatch of statements, opening and closing

`execute` runs one statement; trigger bodies run through it again, so its depth is bounded by
fuel. A restart keeps what is on disk, and opening the engine replays the two logs.
-/

namespace PotatoDB

open Oplog
open Oplog.Prog (get emit attempt check each)

/-! ## Statements -/

/-- `char::is_whitespace`. -/
def isWhitespace (c : Char) : Bool :=
  let n := c.toNat
  (9 ≤ n && n ≤ 13) || n = 32 || n = 0x85 || n = 0xA0 || n = 0x1680 || (0x2000 ≤ n && n ≤ 0x200A) ||
    n = 0x2028 || n = 0x2029 || n = 0x202F || n = 0x205F || n = 0x3000

/-- Texts that start with one of these run without a flush before them. -/
def needsNoFlush (upper : String) : Bool :=
  ["INSERT ", "SHOW ", "PREPARE ", "LISTEN ", "NOTIFY ", "CREATE USER ", "CREATE ROLE ", "GRANT ", "REVOKE "].any
    fun start => start.toList.isPrefixOf upper.toList

/-- Statements after whose success the SQL log gets a commit record. -/
def Statement.isMutating : Statement → Bool
  | truncate _ | createTable _ | createIndex _ | dropTable .. | dropIndex .. | delete _ | update _
  | insert _ | merge _ | alterTable _ | copyFrom _ | createView _ | dropView .. | refreshMaterializedView _ => true
  | _ => false

def Statement.forceWalCheckpoint : Statement → Bool
  | truncate _ | createTable _ | createIndex _ | dropTable .. | dropIndex .. | merge _ | alterTable _ | createView _
  | dropView .. | refreshMaterializedView _ => true
  | _ => false

section
variable (env : Env)

def handleFlush (table : Option String) : M QueryResult := do
  let flushed ← match table with
    | none => flushAll env
    | some t => flushTable env t
  catalogFlushIfDirty
  return .message s!"{flushed} row(s) flushed."

def handleVacuumStatement (table : String) (analyze : Bool) : M QueryResult := do
  let vacuumed ← handleVacuum env table
  if analyze then
    let analyzed ← handleAnalyze env table
    return match vacuumed, analyzed with
      | .message v, .message a => .message (v ++ " " ++ a)
      | r, _ => r
  else return vacuumed

/-- The handler of a statement, before the log and the catalog are written. -/
def dispatch (exec : String → M QueryResult) (sql : String) : Statement → M QueryResult
  | .flush table => handleFlush env table
  | .savepoint name => handleSavepoint name
  | .rollbackTo name => handleRollbackTo env name
  | .release name => handleReleaseSavepoint name
  | .createTrigger trigger => handleCreateTrigger trigger
  | .dropTrigger name => handleDropTrigger name
  | .truncate table => handleTruncate env table
  | .checkpoint => handleCheckpoint env
  | .vacuum table analyze => handleVacuumStatement env table analyze
  | .analyze table => handleAnalyze env table
  | .startTransaction => handleBegin
  | .commit => handleCommit env
  | .rollback => handleRollback env
  | .createTable create => handleCreateTable env create
  | .createIndex create => handleCreateIndex env create
  | .dropTable name ifExists => handleDropTable env name ifExists
  | .dropIndex name ifExists => handleDropIndex env name ifExists
  | .delete delete => handleDelete env exec delete
  | .update update => handleUpdate env exec sql update
  | .insert insert => handleInsert env exec sql insert
  | .merge merge => handleMerge env merge
  | .alterTable alter => handleAlterTable env sql alter
  | .copyFrom copy => handleCopyFrom env sql copy
  | .createView create => handleCreateView env create
  | .dropView name ifExists => handleDropView env name ifExists
  | .refreshMaterializedView name => handleRefreshMaterializedView env name
  | .query => do return .records (← runQuery env (.user sql)).collect

/-- Savepoint statements and FLUSH return without writing the catalog once more. -/
def Statement.returnsEarly : Statement → Bool
  | flush _ | savepoint _ | rollbackTo _ | release _ => true
  | _ => false

/-- The upper-case text without blanks around it and semicolons at its end. -/
def upperText (sql : String) : String :=
  env.toUppercase (String.ofList (trimMatches isWhitespace
    (trimEndMatches (· = ';') (trimMatches isWhitespace sql.toList))))

/-- What a statement does before its handler runs. -/
def arrive (sql : String) : M Unit := do
  drainPendingAnalyze env
  emit (.enter (env.parse sql))
  match env.parse sql with
  | .flush _ => pure ()
  | _ =>
    if needsNoFlush (upperText env sql) then pure ()
    else do
      let _ ← flushBufferedForSql env (upperText env sql)

/-- What a statement does after its handler. -/
def leave (statement : Statement) (result : Except String QueryResult) : M QueryResult := do
  if statement.returnsEarly then check result
  else
    if statement.isMutating && result.toBool then walFinishAutocommit env statement.forceWalCheckpoint
    else pure ()
    catalogFlushIfDirty
    check result

def execute : Nat → String → M QueryResult
  | 0, _ => throw "stack overflow"
  | fuel + 1, sql => do
    arrive env sql
    leave env (env.parse sql) (← attempt (dispatch env (execute fuel) sql (env.parse sql)))

/-- Statements one after the other, each whether or not the one before failed. -/
def statements (fuel : Nat) (sqls : List String) : M Unit :=
  each (fun sql => do
    let _ ← attempt (execute env fuel sql)) sqls

/-! ## Opening and closing -/

/-- What a stopped process leaves: the disk, and an engine that has loaded the catalog. -/
def Db.restart (db : Db) : Db :=
  { db with
    catalog := db.catalogDoc.getD .empty
    catalogInTransaction := false
    catalogDirty := false
    ctx := ∅
    activeTxn := none
    replayingWal := false
    writeBuffer := ∅
    uniquenessCache := ∅
    counters := .initial }

def recoverArrowTable (table : String) (batches : List RecordBatch) : M Unit := do
  if ((← get).catalog.tables.lookup table).isSome then
    let _ ← bufferInsertBatches env table none batches
    let _ ← flushTable env table
  else pure ()

/-- `PotatoDB::new`, on a restarted state. -/
def openDb (fuel : Nat) : M Unit := do
  reloadTables env
  let db ← get
  if env.walEnabled then
    if db.arrowLog.keys = [] then pure ()
    else
      emit (.setReplayingWal true)
      each (fun entry => recoverArrowTable env entry.1 entry.2) db.arrowLog.pairs
      emit (.setReplayingWal false)
    let replay := replayEntries db.walLog
    if replay = [] then pure ()
    else
      emit (.setReplayingWal true)
      each (fun entry => do
        let _ ← execute env fuel entry.sql) replay
      emit (.setReplayingWal false)
      emit .walCheckpoint
  else pure ()

/-- `Drop for PotatoDB`. -/
def closeDb : M Unit := do
  let db ← get
  if db.replayingWal || db.writeBuffer.keys ≠ [] || !env.walEnabled then pure ()
  else emit .walCheckpoint

/-- `PotatoDB::restore` from an archive of files and a catalog. -/
def restoreArchive (store : Store) (catalogDoc : Option CatalogData) : M Unit := do
  if !env.isLocalDisk then throw "Restore is only supported for local data directories."
  else
    each (fun t => emit (.deregisterTable t)) (← get).catalog.tables.keys
    emit (.restoreFiles store catalogDoc)
    emit (.setCatalog (catalogDoc.getD .empty))
    emit (.setCatalogInTransaction false)
    reloadTables env

end

end PotatoDB
