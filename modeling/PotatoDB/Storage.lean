import PotatoDB.Engine

/-!
# Tables on disk

Listing and deleting files, registering listing tables, writing rows through DataFusion's
INSERT, and the copy-on-write rewrite of a table.
-/

namespace PotatoDB

open Oplog
open Oplog.Prog (get emit attempt check each)

/-! ## The catalog -/

def modifyCatalog (f : CatalogData → CatalogData) : M Unit := do
  emit (.setCatalog (f (← get).catalog))

def catalogSave : M Unit := do
  if (← get).catalogInTransaction then pure () else emit .markCatalogDirty

def catalogFlushIfDirty : M Unit := do
  if (← get).catalogDirty then emit .writeCatalog else pure ()

def catalogForceSave : M Unit := emit .writeCatalog

def tableMeta (name : String) : M TableMeta := do
  match (← get).catalog.tables.lookup name with
  | some m => pure m
  | none => throw s!"Table '{name}' does not exist"

/-! ## Clocks and counters -/

section
variable (env : Env)

def now : M Nat := do
  let c := (← get).counters
  emit (.setCounters { c with clockReadings := c.clockReadings + 1 })
  return env.time c.clockReadings

def nextTempTableName (tag : String) : M String := do
  let c := (← get).counters
  emit (.setCounters { c with tempTableCounter := c.tempTableCounter + 1 })
  return s!"__potato_{tag}_tmp_{c.tempTableCounter}"

def recordCdcEvent (table op : String) (rows : Nat) : M Unit := emit (.pushCdc ⟨table, op, rows⟩)

def maybeAutoAnalyze (table : String) (rowsWritten : Nat) : M Unit := do
  if rowsWritten = 0 ∨ env.autoAnalyzeThresholdRows = 0 then pure ()
  else
    let c := (← get).counters
    let n := (c.rowsSinceAnalyze.lookup table).getD 0 + rowsWritten
    if n ≥ env.autoAnalyzeThresholdRows then
      emit (.setCounters { c with
        rowsSinceAnalyze := c.rowsSinceAnalyze.insert table 0
        pendingAnalyzeTables := c.pendingAnalyzeTables ++ [table] })
    else emit (.setCounters { c with rowsSinceAnalyze := c.rowsSinceAnalyze.insert table n })

/-! ## Files -/

def tableUrl (table : String) : String := if env.isLocalDisk then table else table ++ "/"

def listParquetFiles (table : String) : M (List ObjPath) := do
  return ((← get).store.list (objPath table)).map (·.1)

def deleteParquetFiles (table : String) : M Unit := do
  each (fun path => emit (.deleteFile path)) (← listParquetFiles table)

def deleteTableStorage (table : TableMeta) : M Unit := do
  if env.isLocalDisk then emit (.removeDir (fsPath table.path))
  else deleteParquetFiles table.name

def applyRetentionPolicy (table : String) : M Nat := do
  match (← get).catalog.tables.lookup table with
  | none => return 0
  | some m =>
    match m.retentionSeconds with
    | none => return 0
    | some secs =>
      if !env.isLocalDisk then return 0
      else
        let t ← now env
        let expired := (← get).store.filter fun e =>
          e.1.dir = fsPath m.path ∧ e.2.modified + secs < t
        each (fun e => emit (.deleteFile e.1)) expired
        return expired.length

def refreshTableFileStatsLight (table : String) : M Unit := do
  let stats := (← listParquetFiles table).map fun p => (⟨p, none⟩ : FileStats)
  if (← get).catalog.tables.lookup table |>.isSome then
    modifyCatalog (·.setFileStats table stats)
    catalogSave
  else pure ()

/-- Reads the footers of the files in the table's directory. -/
def refreshTableFileStats (table : String) : M Unit := do
  let db ← get
  match db.catalog.tables.lookup table with
  | none => pure ()
  | some m =>
    let stats := (db.store.list (objPath table)).map fun e =>
      (⟨e.1, if env.isLocalDisk ∧ e.1.dir = fsPath m.path then some e.2.rows.length else none⟩ : FileStats)
    modifyCatalog (·.setFileStats table stats)
    catalogSave

/-! ## DataFusion's tables -/

def columnsToSchema (columns : List ColumnDef) : Except String Schema :=
  columns.mapM fun c => do return ⟨c.name, ← env.sqlStringToArrow c.dataType, c.nullable⟩

def registerListingTable (name : String) (schema : Schema) (path : String) : M Unit :=
  emit (.registerTable name ⟨objPath path, schema⟩)

def reloadTables : M Unit := do
  let specs ← check <| (← get).catalog.tables.values.mapM fun m => do
    return (m.name, ← columnsToSchema env m.columns, m.path)
  each (fun spec => registerListingTable spec.1 spec.2.1 spec.2.2) specs

/-- `SELECT * FROM "table"`. -/
def selectStar (table : String) : M Relation := do
  match (← get).relation table with
  | some r => pure r
  | none => throw s!"table '{table}' not found"

/-- `SELECT * FROM "table" ORDER BY ..`. -/
def selectOrdered (table : String) (order : List IndexColumn) : M Relation := do
  let r ← selectStar table
  if order.all fun c => r.schema.any (·.name = c.name) then
    return ⟨r.schema, if order.isEmpty then r.rows else env.sort order r.schema r.rows⟩
  else throw s!"No field named in ORDER BY for '{table}'"

def runQuery (q : Query) : M Relation := do
  let db ← get
  check (env.eval q db.relation)

/-- `MemTable::try_new`. -/
def memTable (schema : Schema) (batches : List RecordBatch) : Except String Unit :=
  if batches.all fun b => b.schema.length = schema.length ∧ (schema.zip b.schema).all fun p =>
      p.1.name = p.2.name ∧ p.1.dataType = p.2.dataType ∧ (p.1.nullable || !p.2.nullable) then .ok ()
  else .error "Mismatch between schema and batches"

/-- The columns an INSERT names, checked against the table and the columns of its source. -/
def planInsert (schema : Schema) (columns : Option (List String)) (source : List String) :
    Except String (List String) :=
  let names := columns.getD (schema.map (·.name))
  if ¬ source.Nodup then .error "Schema contains duplicate qualified field name"
  else if names.length ≠ source.length then
    .error "Inserting query must have the same schema length as the table"
  else if ¬ names.Nodup then .error "Schema contains duplicate unqualified field name"
  else if names.all fun n => schema.any (·.name = n) then .ok names
  else .error "No field named in INSERT"

def castRow (schema : Schema) (names : List String) (row : Row) : Except String Row :=
  schema.mapM fun f => do
    let v ← env.castTo f.dataType (namedValue names row f.name)
    if v.isNull && !f.nullable then .error s!"Invalid batch column has null but schema specifies non-nullable"
    else .ok v

def insertedRows (schema : Schema) (columns : Option (List String)) (batches : List RecordBatch) :
    Except String (List Row) := do
  match batches with
  | [] => return []
  | b :: _ =>
    let names ← planInsert schema columns (b.schema.map (·.name))
    (allRows batches).mapM (castRow env schema names)

/-- DataFusion's INSERT INTO a listing table: casts the rows to the columns of the table and
writes one new file. -/
def insertInto (table : String) (columns : Option (List String)) (batches : List RecordBatch) : M Unit := do
  match (← get).ctx.lookup table with
  | none => throw s!"table '{table}' not found"
  | some p =>
    let rows ← check (insertedRows env p.schema columns batches)
    if rows.isEmpty then pure ()
    else
      let t ← now env
      emit (.putFile p.dir ⟨p.schema.map (·.name), rows, t⟩)

/-! ## Rewriting a table -/

def hasData (batches : List RecordBatch) : Bool := batches.any fun b => 0 < b.numRows

def restoreTableFromSnapshot (table : String) (original : List RecordBatch) : M Unit := do
  if hasData original then
    let _ ← attempt (insertInto env table none original)
  else pure ()

/-- The rows to fall back on when the rewrite fails. -/
def diskSnapshot (table : String) (batches : List RecordBatch) (useBatchesAsDiskSnapshot : Bool) :
    M (List RecordBatch) := do
  if useBatchesAsDiskSnapshot then return batches
  else return (← selectStar table).collect

def writeRewritten (table : String) (schema : Schema) (batches original : List RecordBatch) : M Unit := do
  if hasData batches then
    match ← attempt (do check (memTable schema batches); insertInto env table none batches) with
    | .ok () => pure ()
    | .error e => do
      restoreTableFromSnapshot env table original
      throw e
  else pure ()

def rewriteTable (table : String) (schema : Schema) (batches : List RecordBatch)
    (useBatchesAsDiskSnapshot : Bool) : M Unit := do
  let m ← tableMeta table
  emit (.cacheInvalidate table)
  let original ← diskSnapshot table batches useBatchesAsDiskSnapshot
  emit (.deregisterTable table)
  deleteParquetFiles table
  let tableSchema ← check (columnsToSchema env m.columns)
  registerListingTable table tableSchema m.path
  writeRewritten env table schema batches original
  refreshTableFileStatsLight table

def backupTableForTxn (table : String) : M Unit := do
  match (← get).activeTxn with
  | none => pure ()
  | some txn =>
    if (txn.rewriteBackups.lookup table).isSome then pure ()
    else
      let _ ← selectStar table
      emit (.backupTable table)

def maybeAutoCompact (table : String) : M Unit := do
  if env.autoCompactFileThreshold = 0 ∨ (← get).activeTxn.isSome then pure ()
  else
    let files ← listParquetFiles table
    if files.length < env.autoCompactFileThreshold then pure ()
    else
      let order := ((← get).catalog.indexesForTable table).head?.elim [] (·.columns)
      let r ← selectOrdered env table order
      rewriteTable env table r.schema r.collect true

end

end PotatoDB
