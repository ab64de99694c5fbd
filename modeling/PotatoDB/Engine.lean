import PotatoDB.Oplog
import PotatoDB.Statement
import PotatoDB.Wal

/-!
# The state of the engine and its operations

The state holds what is on disk (files, `catalog.json`, the two logs) and what is in memory.
Handlers are programs whose operations are single durable steps or single changes of memory,
so that the operations of a run, cut off anywhere, are what a crash leaves. Object-store, log
and file-system calls succeed; DataFusion is a parameter.
-/

namespace PotatoDB

open Oplog

/-! ## The environment -/

/-- Settings, clocks, the SQL parser and DataFusion. -/
structure Env where
  isLocalDisk : Bool
  walEnabled : Bool
  arrowWalEnabled : Bool
  walCheckpointThresholdBytes : Nat
  walCheckpointEveryCommits : Nat
  walCheckpointInterval : Nat
  writeBufferRowThreshold : Nat
  writeBufferByteThreshold : Nat
  writeBufferTimeThreshold : Nat
  autoAnalyzeThresholdRows : Nat
  autoCompactFileThreshold : Nat
  /-- The time at each reading of the clock. -/
  time : Nat → Nat
  toUppercase : String → String
  /-- The branch of `execute` a text selects; texts that do not parse go to DataFusion. -/
  parse : String → Statement
  /-- `sql_string_to_arrow`. -/
  sqlStringToArrow : String → Except String String
  arrowTypeToSqlString : String → String
  debug : Value → String
  batchBytes : List RecordBatch → Nat
  castTo : String → Value → Except String Value
  evalLiteral : String → Except String Value
  eval : Query → (String → Option Relation) → Except String Relation
  /-- The truth value of a WHERE condition on a row; `none` is unknown. -/
  holds : String → (String → Option Relation) → Schema → Row → Except String (Option Bool)
  plansCheck : String → List (String × String) → Bool
  evalCheck : String → List (String × Value) → Except String (Option Bool)
  readFile : String → Except String Relation
  /-- Plans the query of a view. -/
  planView : String → (String → Option Relation) → Except String Unit
  sort : List IndexColumn → Schema → List Row → List Row
  sort_perm : ∀ cols schema rows, (sort cols schema rows).Perm rows
  columnStatistics : List Value → ColumnStatistics

/-! ## The state -/

/-- A listing table that DataFusion knows under a name. -/
structure Provider where
  dir : Dir
  schema : Schema
deriving DecidableEq

structure BufferedInsert where
  columns : Option (List String)
  batches : List RecordBatch
  rowCount : Nat
  approxBytes : Nat
  firstBufferedAt : Nat
deriving DecidableEq

structure Savepoint where
  name : String
  catalogSnapshot : CatalogData
  fileSnapshot : Map (List ObjPath)
  rewriteBackups : Map (List RecordBatch)
deriving DecidableEq

structure Transaction where
  catalogSnapshot : CatalogData
  /-- The files each table had at BEGIN. -/
  fileSnapshot : Map (List ObjPath)
  deferredDeletes : List TableMeta
  walTxnId : UInt64
  rewriteBackups : Map (List RecordBatch)
  savepoints : List Savepoint
deriving DecidableEq

structure CdcEvent where
  table : String
  op : String
  rows : Nat
deriving DecidableEq

/-- Counters that no durable step reads. -/
structure Counters where
  txnCounter : UInt64
  walCommitsSinceCheckpoint : Nat
  lastWalCheckpointAt : Nat
  tempTableCounter : Nat
  rowsSinceAnalyze : Map Nat
  pendingAnalyzeTables : List String
  clockReadings : Nat
deriving DecidableEq

structure Db where
  store : Store
  nextFile : Nat
  catalogDoc : Option CatalogData
  walLog : List WalEntry
  arrowLog : Map (List RecordBatch)
  catalog : CatalogData
  catalogInTransaction : Bool
  catalogDirty : Bool
  ctx : Map Provider
  activeTxn : Option Transaction
  replayingWal : Bool
  writeBuffer : Map BufferedInsert
  uniquenessCache : Map (List String)
  cdcLog : List CdcEvent
  counters : Counters
deriving DecidableEq

/-- What a table reads as: the listing table DataFusion has under the name. -/
def Db.relation (db : Db) (name : String) : Option Relation :=
  (db.ctx.lookup name).map fun p => ⟨p.schema, db.store.read p.dir (p.schema.map (·.name))⟩

/-- The parquet files of each table of the catalog. -/
def Db.fileSnapshot (db : Db) : Map (List ObjPath) :=
  db.catalog.tables.mapValues fun t _ => (db.store.list (objPath t)).map (·.1)

/-! ## Operations -/

inductive Op where
  -- durable
  | putFile (dir : Dir) (file : ParquetFile)
  | deleteFile (path : ObjPath)
  | removeDir (dir : Dir)
  | writeCatalog
  | walAppend (entry : WalEntry)
  | walCheckpoint
  | arrowAppend (table : String) (batches : List RecordBatch)
  | arrowCheckpoint (table : String)
  | arrowCheckpointAll
  -- the catalog in memory
  | setCatalog (data : CatalogData)
  | setCatalogInTransaction (active : Bool)
  | markCatalogDirty
  -- DataFusion's tables
  | registerTable (name : String) (provider : Provider)
  | deregisterTable (name : String)
  -- the write buffer
  | setBuffer (table : String) (buffered : BufferedInsert)
  | removeBuffer (table : String)
  -- the transaction
  | beginTxn (walTxnId : UInt64)
  | endTxn
  | backupTable (table : String)
  | deferDelete (table : TableMeta)
  | pushSavepoint (name : String)
  | truncateSavepoints (n : Nat)
  | resetTxn
  -- the uniqueness cache
  | cacheInsert (key : String) (keys : List String)
  | cacheMerge (key : String) (keys : List String)
  | cacheInvalidate (table : String)
  -- the rest
  | setReplayingWal (replaying : Bool)
  | pushCdc (event : CdcEvent)
  | setCounters (counters : Counters)
  /-- The data directory is replaced by the contents of an archive. -/
  | restoreFiles (store : Store) (catalogDoc : Option CatalogData)
  /-- `execute` starts on a statement. -/
  | enter (statement : Statement)
deriving DecidableEq

def cacheKeyPrefix (kind table : String) : List Char :=
  kind.toList ++ unitSeparator :: (table.toList ++ [unitSeparator])

/-- Keeps the rows of a table the first time it is about to be rewritten. -/
def Transaction.backup (txn : Transaction) (table : String) (rows : Option Relation) : Transaction :=
  match txn.rewriteBackups.lookup table, rows with
  | none, some r => { txn with rewriteBackups := txn.rewriteBackups.insert table r.collect }
  | _, _ => txn

def Op.apply (db : Db) : Op → Db
  | putFile dir file =>
    { db with store := db.store ++ [(⟨dir, db.nextFile⟩, file)], nextFile := db.nextFile + 1 }
  | deleteFile path => { db with store := db.store.delete path }
  | removeDir dir => { db with store := db.store.removeDir dir }
  | writeCatalog => { db with catalogDoc := some db.catalog, catalogDirty := false }
  | walAppend entry => { db with walLog := db.walLog ++ [entry] }
  | walCheckpoint => { db with walLog := [] }
  | arrowAppend table batches =>
    { db with arrowLog := db.arrowLog.insert table ((db.arrowLog.lookup table).getD [] ++ batches) }
  | arrowCheckpoint table => { db with arrowLog := db.arrowLog.erase table }
  | arrowCheckpointAll => { db with arrowLog := ∅ }
  | setCatalog data => { db with catalog := data }
  | setCatalogInTransaction active => { db with catalogInTransaction := active }
  | markCatalogDirty => { db with catalogDirty := true }
  | registerTable name provider => { db with ctx := db.ctx.insert name provider }
  | deregisterTable name => { db with ctx := db.ctx.erase name }
  | setBuffer table buffered => { db with writeBuffer := db.writeBuffer.insert table buffered }
  | removeBuffer table => { db with writeBuffer := db.writeBuffer.erase table }
  | beginTxn walTxnId =>
    { db with activeTxn := some ⟨db.catalog, db.fileSnapshot, [], walTxnId, ∅, []⟩ }
  | endTxn => { db with activeTxn := none }
  | backupTable table => { db with activeTxn := db.activeTxn.map (·.backup table (db.relation table)) }
  | deferDelete table =>
    { db with activeTxn := db.activeTxn.map fun t =>
      { t with deferredDeletes := t.deferredDeletes ++ [table] } }
  | pushSavepoint name =>
    { db with activeTxn := db.activeTxn.map fun t =>
      { t with savepoints := t.savepoints ++ [⟨name, db.catalog, db.fileSnapshot, t.rewriteBackups⟩] } }
  | truncateSavepoints n =>
    { db with activeTxn := db.activeTxn.map fun t => { t with savepoints := t.savepoints.take n } }
  | resetTxn =>
    { db with activeTxn := db.activeTxn.map fun t =>
      { t with catalogSnapshot := db.catalog, fileSnapshot := db.fileSnapshot, rewriteBackups := ∅ } }
  | cacheInsert key keys => { db with uniquenessCache := db.uniquenessCache.insert key keys }
  | cacheMerge key keys =>
    { db with uniquenessCache :=
      db.uniquenessCache.insert key ((db.uniquenessCache.lookup key).getD [] ++ keys) }
  | cacheInvalidate table =>
    { db with uniquenessCache := db.uniquenessCache.retain fun k _ =>
      !(cacheKeyPrefix "pk" table).isPrefixOf k.toList && !(cacheKeyPrefix "uq" table).isPrefixOf k.toList }
  | setReplayingWal replaying => { db with replayingWal := replaying }
  | pushCdc event => { db with cdcLog := db.cdcLog ++ [event] }
  | setCounters counters => { db with counters := counters }
  | restoreFiles store catalogDoc =>
    { db with
      store := store
      catalogDoc := catalogDoc
      nextFile := (store.map (·.1.file + 1)).foldl max db.nextFile }
  | enter _ => db

instance : Machine Db Op := ⟨Op.apply⟩

abbrev M := Prog Db Op String

/-! ## A plain setting -/

/-- Both logs on a local disk, no thresholds within reach, values that need no cast, and
expressions that are always true. -/
def Env.plain : Env where
  isLocalDisk := true
  walEnabled := true
  arrowWalEnabled := true
  walCheckpointThresholdBytes := 1048576
  walCheckpointEveryCommits := 0
  walCheckpointInterval := 0
  writeBufferRowThreshold := 1000000
  writeBufferByteThreshold := 1000000
  writeBufferTimeThreshold := 1000000
  autoAnalyzeThresholdRows := 0
  autoCompactFileThreshold := 0
  time := id
  toUppercase := id
  parse := fun _ => .query
  sqlStringToArrow := .ok
  arrowTypeToSqlString := id
  debug := fun _ => ""
  batchBytes := fun _ => 0
  castTo := fun _ v => .ok v
  evalLiteral := fun _ => .ok .null
  eval := fun _ _ => .ok ⟨[], []⟩
  holds := fun _ _ _ _ => .ok (some true)
  plansCheck := fun _ _ => true
  evalCheck := fun _ _ => .ok (some true)
  readFile := fun _ => .ok ⟨[], []⟩
  planView := fun _ _ => .ok ()
  sort := fun _ _ rows => rows
  sort_perm := fun _ _ rows => List.Perm.refl rows
  columnStatistics := fun _ => ⟨0, none, none, none⟩

def Counters.initial : Counters := ⟨1, 0, 0, 0, ∅, [], 0⟩

/-- An engine on an empty data directory. -/
def Db.new : Db := ⟨[], 0, none, [], ∅, .empty, false, false, ∅, none, false, ∅, ∅, [], .initial⟩

end PotatoDB
