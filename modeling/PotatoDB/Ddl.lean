import PotatoDB.Transactions

/-!
# Data definition and maintenance

CREATE, DROP, ALTER, RENAME and TRUNCATE of tables, indexes and triggers, ANALYZE and VACUUM.
-/

namespace PotatoDB

open Oplog
open Oplog.Prog (get emit attempt check each)

section
variable (env : Env)

/-! ## Tables -/

def handleCtas (table query : String) (partitionColumns : List String) : M QueryResult := do
  let r ← runQuery env (.user query)
  let columns := r.schema.map fun f => (⟨f.name, env.arrowTypeToSqlString f.dataType, f.nullable⟩ : ColumnDef)
  let path := tableUrl env table
  let schema ← check (columnsToSchema env columns)
  registerListingTable table schema path
  if hasData r.collect then
    check (memTable r.schema r.collect)
    insertInto env table none r.collect
  else pure ()
  modifyCatalog (·.addTable ⟨table, columns, path, partitionColumns, none, none, [], []⟩)
  catalogSave
  refreshTableFileStats env table
  return .message s!"Table '{table}' created."

def handleCreateTable (create : CreateTable) : M QueryResult := do
  let table := create.name
  if ((← get).catalog.tables.lookup table).isSome then
    if create.ifNotExists then return .message s!"Table '{table}' already exists, skipping."
    else throw s!"Table '{table}' already exists"
  else
    walAppendPending env create.display
    match create.query with
    | some query => handleCtas env table query create.partitionColumns
    | none =>
      if create.columns.isEmpty then throw "CREATE TABLE requires at least one column"
      else
        let path := tableUrl env table
        let schema ← check (columnsToSchema env create.columns)
        registerListingTable table schema path
        modifyCatalog (·.addTable
          ⟨table, create.columns, path, create.partitionColumns, none, none, create.constraints, []⟩)
        catalogSave
        refreshTableFileStats env table
        return .message s!"Table '{table}' created."

def handleDropTable (name : String) (ifExists : Bool) : M QueryResult := do
  match (← get).catalog.tables.lookup name with
  | none =>
    if ifExists then return .message s!"Table '{name}' does not exist, skipping."
    else throw s!"Table '{name}' does not exist"
  | some m =>
    walAppendPending env (if ifExists then s!"DROP TABLE IF EXISTS \"{name}\"" else s!"DROP TABLE \"{name}\"")
    modifyCatalog (·.removeTable name)
    catalogSave
    emit (.deregisterTable name)
    invalidateUniquenessCacheForTable name
    if (← get).activeTxn.isSome then emit (.deferDelete m) else deleteTableStorage env m
    return .message s!"Table '{name}' dropped."

def handleTruncate (table : String) : M QueryResult := do
  let m ← tableMeta table
  walAppendPending env s!"TRUNCATE TABLE \"{table}\""
  emit (.deregisterTable table)
  deleteParquetFiles table
  invalidateUniquenessCacheForTable table
  let schema ← check (columnsToSchema env m.columns)
  registerListingTable table schema m.path
  recordCdcEvent table "TRUNCATE" 0
  return .message s!"Table '{table}' truncated."

/-! ## Indexes -/

/-- No index of the table keeps describing its physical order. -/
def CatalogData.demoteIndexes (c : CatalogData) (table : String) : CatalogData :=
  { c with indexes := c.indexes.mapValues fun _ i =>
    if i.tableName = table then { i with primary := false, logicalOnly := true } else i }

def handleCreateIndex (create : CreateIndex) : M QueryResult := do
  match create.name with
  | none => throw "Index name is required"
  | some name =>
    let table := create.tableName
    if ((← get).catalog.indexes.lookup name).isSome then
      if create.ifNotExists then return .message s!"Index '{name}' already exists, skipping."
      else throw s!"Index '{name}' already exists"
    else
      let m ← tableMeta table
      match create.columns.find? fun c => !m.columnNames.contains c.name with
      | some c => throw s!"Column '{c.name}' does not exist in '{table}'"
      | none =>
        if create.columns.isEmpty then throw "Index requires at least one column"
        else
          walAppendPending env create.display
          backupTableForTxn table
          let sorted ← selectOrdered env table create.columns
          emit (.deregisterTable table)
          deleteParquetFiles table
          modifyCatalog fun c => (c.demoteIndexes table).addIndex ⟨name, table, create.columns, false, true⟩
          catalogSave
          let schema ← check (columnsToSchema env m.columns)
          registerListingTable table schema m.path
          if hasData sorted.collect then
            check (memTable sorted.schema sorted.collect)
            insertInto env table none sorted.collect
          else pure ()
          let cols := ", ".intercalate (create.columns.map (·.name))
          return .message s!"Index '{name}' created on '{table}' ({cols})."

/-- The first index of the table becomes its physical order if none is. -/
def CatalogData.promoteIndex (c : CatalogData) (table : String) : CatalogData :=
  if (c.indexesForTable table).any (·.primary) then c
  else
    match (c.indexesForTable table).head? with
    | none => c
    | some next => { c with indexes := c.indexes.modify next.name fun i =>
        { i with primary := true, logicalOnly := false } }

def handleDropIndex (name : String) (ifExists : Bool) : M QueryResult := do
  match (← get).catalog.indexes.lookup name with
  | none =>
    if ifExists then return .message s!"Index '{name}' does not exist, skipping."
    else throw s!"Index '{name}' does not exist"
  | some index =>
    walAppendPending env (if ifExists then s!"DROP INDEX IF EXISTS \"{name}\"" else s!"DROP INDEX \"{name}\"")
    modifyCatalog (·.removeIndex name)
    catalogSave
    modifyCatalog (·.promoteIndex index.tableName)
    match (← get).catalog.tables.lookup index.tableName with
    | none => pure ()
    | some m =>
      emit (.deregisterTable index.tableName)
      let schema ← check (columnsToSchema env m.columns)
      registerListingTable index.tableName schema m.path
    return .message s!"Index '{name}' dropped."

/-! ## ALTER TABLE -/

def CatalogData.renameTable (c : CatalogData) (oldName newName : String) (m : TableMeta) : CatalogData :=
  { c with
    tables := (c.tables.erase oldName).insert newName { m with name := newName }
    indexes := c.indexes.mapValues fun _ i =>
      if i.tableName = oldName then { i with tableName := newName } else i }

def handleRenameTable (oldName newName : String) : M QueryResult := do
  let db ← get
  if oldName = newName then return .message s!"Table '{oldName}' already has that name."
  else if (db.catalog.tables.lookup newName).isSome then throw s!"Table '{newName}' already exists"
  else
    walAppendPending env s!"ALTER TABLE \"{oldName}\" RENAME TO \"{newName}\""
    let m ← tableMeta oldName
    modifyCatalog (·.renameTable oldName newName m)
    catalogSave
    emit (.deregisterTable oldName)
    let schema ← check (columnsToSchema env m.columns)
    registerListingTable newName schema m.path
    return .message s!"Table '{oldName}' renamed to '{newName}'."

def setColumns (table : String) (columns : List ColumnDef) : M Unit :=
  modifyCatalog fun c => { c with tables := c.tables.modify table fun m => { m with columns := columns } }

def renameColumn (oldName newName : String) : List ColumnDef → List ColumnDef
  | [] => []
  | c :: cs => if c.name = oldName then { c with name := newName } :: cs else c :: renameColumn oldName newName cs

/-- One ALTER TABLE operation changes the columns in memory and answers with its message. -/
def alterTableOperation (table : String) : AlterTableOperation → M String
  | .addColumn column ifNotExists => do
    let m ← tableMeta table
    if m.columnNames.contains column.name then
      if ifNotExists then return s!"Column '{column.name}' already exists, skipping."
      else throw s!"Column '{column.name}' already exists in '{table}'"
    else
      setColumns table (m.columns ++ [column])
      return s!"Column '{column.name}' added."
  | .dropColumn name ifExists => do
    let m ← tableMeta table
    if m.columnNames.contains name then
      setColumns table (m.columns.filter (·.name ≠ name))
      return s!"Column '{name}' dropped."
    else if ifExists then return s!"Column '{name}' does not exist, skipping."
    else throw s!"Column '{name}' does not exist in '{table}'"
  | .renameColumn oldName newName => do
    let m ← tableMeta table
    if m.columnNames.contains oldName then
      setColumns table (renameColumn oldName newName m.columns)
      return s!"Column '{oldName}' renamed to '{newName}'."
    else throw s!"Column '{oldName}' does not exist in '{table}'"
  | .unsupported display => throw s!"Unsupported ALTER TABLE operation: {display}"

def alterTableOperations (table : String) : List AlterTableOperation → M (List String)
  | [] => return []
  | op :: ops => do
    let message ← alterTableOperation table op
    return message :: (← alterTableOperations table ops)

def handleAlterTable (sql : String) (alter : AlterTable) : M QueryResult := do
  let table := alter.name
  if ((← get).catalog.tables.lookup table).isNone then
    if alter.ifExists then return .message s!"Table '{table}' does not exist, skipping."
    else throw s!"Table '{table}' does not exist"
  else
    match alter.rename, alter.retention with
    | some (oldName, newName), _ => handleRenameTable env oldName newName
    | none, some retention =>
      walAppendPending env sql
      modifyCatalog fun c => { c with
        tables := c.tables.modify table fun m => { m with retentionSeconds := retention } }
      catalogSave
      return .message (match retention with
        | some secs => s!"Retention policy set on '{table}' to {secs} second(s)."
        | none => s!"Retention policy cleared on '{table}'.")
    | none, none =>
      walAppendPending env sql
      let messages ← alterTableOperations table alter.operations
      catalogSave
      emit (.deregisterTable table)
      let m ← tableMeta table
      let schema ← check (columnsToSchema env m.columns)
      registerListingTable table schema m.path
      return .message (" ".intercalate messages)

/-! ## Views -/

/-- `CREATE OR REPLACE VIEW` in DataFusion; a listing table under the name is replaced. -/
def registerView (name query : String) : M Unit := do
  let db ← get
  check (env.planView query db.relation)
  emit (.deregisterTable name)

/-- The table that a materialized view keeps its rows in. -/
def backingTable (view : String) : String := s!"__mv_{view}"

def handleCreateView (create : CreateView) : M QueryResult := do
  let name := create.name
  let query := create.query
  if ((← get).catalog.views.lookup name).isSome && !create.orReplace then throw s!"View '{name}' already exists"
  else
    walAppendPending env (if create.materialized then s!"CREATE MATERIALIZED VIEW \"{name}\" AS {query}"
      else if create.orReplace then s!"CREATE OR REPLACE VIEW \"{name}\" AS {query}"
      else s!"CREATE VIEW \"{name}\" AS {query}")
    if create.materialized then
      let backing := backingTable name
      if ((← get).catalog.tables.lookup backing).isSome then
        let _ ← attempt (handleDropTable env backing true)
      else pure ()
      let _ ← handleCtas env backing query []
      registerView env name s!"SELECT * FROM \"{backing}\""
    else registerView env name query
    modifyCatalog (·.addView ⟨name, query, create.materialized,
      if create.materialized then some (backingTable name) else none⟩)
    catalogSave
    let kind := if create.materialized then "Materialized" else "View"
    return .message s!"{kind} view '{name}' created."

def handleDropView (name : String) (ifExists : Bool) : M QueryResult := do
  match (← get).catalog.views.lookup name with
  | none =>
    if ifExists then return .message s!"View '{name}' does not exist, skipping."
    else throw s!"View '{name}' does not exist"
  | some view =>
    walAppendPending env (if ifExists then s!"DROP VIEW IF EXISTS \"{name}\"" else s!"DROP VIEW \"{name}\"")
    modifyCatalog (·.removeView name)
    catalogSave
    emit (.deregisterTable name)
    match view.materialized, view.backingTable with
    | true, some backing =>
      let _ ← attempt (handleDropTable env backing true)
    | _, _ => pure ()
    return .message s!"View '{name}' dropped."

def handleRefreshMaterializedView (name : String) : M QueryResult := do
  match (← get).catalog.views.lookup name with
  | none => throw s!"View '{name}' does not exist"
  | some view =>
    if !view.materialized then throw s!"View '{name}' is not materialized"
    else
      match view.backingTable with
      | none => throw "Materialized view is missing backing table metadata"
      | some backing =>
        walAppendPending env s!"REFRESH MATERIALIZED VIEW \"{name}\""
        let _ ← attempt (handleDropTable env backing true)
        let _ ← handleCtas env backing s!"SELECT * FROM ({view.sql}) AS t" []
        registerView env name s!"SELECT * FROM \"{backing}\""
        return .message s!"Materialized view '{name}' refreshed."

/-! ## Triggers -/

def handleCreateTrigger (trigger : TriggerDef) : M QueryResult := do
  modifyCatalog fun c => { c with triggers := c.triggers.insert trigger.name trigger }
  catalogSave
  return .message s!"Trigger '{trigger.name}' created."

def handleDropTrigger (name : String) : M QueryResult := do
  modifyCatalog fun c => { c with triggers := c.triggers.erase name }
  catalogSave
  return .message s!"Trigger '{name}' dropped."

/-! ## Maintenance -/

def handleAnalyze (table : String) : M QueryResult := do
  let m ← tableMeta table
  let r ← selectStar table
  let rows ← check (r.project m.columnNames)
  let columns := m.columnNames.zipIdx.map fun c =>
    (c.1, env.columnStatistics (rows.map fun row => (row[c.2]?).getD .null))
  modifyCatalog (·.setStatistics table ⟨rows.length, columns⟩)
  catalogSave
  refreshTableFileStats env table
  return .message
    s!"ANALYZE: collected statistics for '{table}' ({rows.length} rows, {m.columns.length} columns)."

def handleVacuum (table : String) : M QueryResult := do
  let _ ← flushAll env
  let _ ← tableMeta table
  backupTableForTxn table
  let pruned ← applyRetentionPolicy env table
  let order := ((← get).catalog.indexesForTable table).head?.elim [] (·.columns)
  let r ← selectOrdered env table order
  let files ← listParquetFiles table
  rewriteTable env table r.schema r.collect false
  let _ ← handleAnalyze env table
  return .message s!"VACUUM: compacted {files.length} file(s) into 1 ({r.rows.length} rows) for '{table}' (retention pruned {pruned} file(s))."

def handleCheckpoint : M QueryResult := do
  if (← get).activeTxn.isSome then throw "CHECKPOINT is not allowed in an explicit transaction"
  else
    if env.walEnabled then
      emit .walCheckpoint
      let t ← now env
      let c := (← get).counters
      emit (.setCounters { c with walCommitsSinceCheckpoint := 0, lastWalCheckpointAt := t })
    else pure ()
    if env.arrowWalEnabled then emit .arrowCheckpointAll else pure ()
    return .message "Checkpoint completed for WAL and Arrow WAL."

def drainPendingAnalyze : M Unit := do
  let c := (← get).counters
  if c.pendingAnalyzeTables.isEmpty then pure ()
  else
    emit (.setCounters { c with pendingAnalyzeTables := [] })
    each (fun t => do
      let _ ← attempt (handleAnalyze env t)) c.pendingAnalyzeTables

end

end PotatoDB
