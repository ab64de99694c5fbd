import PotatoDB.Ddl

/-!
# Data manipulation

INSERT, INSERT .. ON CONFLICT, UPDATE, DELETE, MERGE and COPY FROM. Trigger bodies run through
the interpreter `exec`.
-/

namespace PotatoDB

open Oplog
open Oplog.Prog (get emit attempt check each)

section
variable (env : Env)

/-- Runs the bodies of the triggers; their failures are ignored. -/
def runTriggers (exec : String → M QueryResult) (table event timing : String) : M Unit := do
  each (fun body => do
    let _ ← attempt (exec body)) ((← get).catalog.triggersOn table event timing)

/-- The rows on which the condition is true. -/
def filterRows (condition : String) (tables : String → Option Relation) (r : Relation) :
    Except String (List Row) := do
  let values ← r.rows.mapM (env.holds condition tables r.schema)
  return ((r.rows.zip values).filter (·.2 = some true)).map (·.1)

/-- The rows on which the negated condition is true. -/
def filterNotRows (condition : String) (tables : String → Option Relation) (r : Relation) :
    Except String (List Row) := do
  let values ← r.rows.mapM (env.holds condition tables r.schema)
  return ((r.rows.zip values).filter (·.2 = some false)).map (·.1)

def TableConstraint.isForeignKey : TableConstraint → Bool
  | foreignKey .. => true
  | _ => false

/-! ## INSERT -/

def handleInsertImmediate (exec : String → M QueryResult) (sql : String) (insert : Insert)
    (targetColumns : List String) (batches : List RecordBatch) : M QueryResult := do
  let table := insert.table
  walAppendPending env sql
  let insertedRows := totalRows batches
  let mergesBefore ← validateConstraintsBatch env table targetColumns batches .beforeInsert
  if insertedRows > 0 then
    let _ ← nextTempTableName "ins"
    check (memTable ((batches.head?).elim [] (·.schema)) batches)
    insertInto env table (some targetColumns) batches
  else pure ()
  let _ ← validateConstraintsBatch env table targetColumns batches .afterInsert
  if insertedRows > 0 then each (fun m => mergeUniquenessKeys m.1 m.2) mergesBefore else pure ()
  maybeAutoAnalyze env table insertedRows
  refreshTableFileStatsLight table
  recordCdcEvent table "INSERT" insertedRows
  runTriggers exec table "INSERT" "AFTER"
  match insert.returning with
  | none => return .records []
  | some list => return .records (← runQuery env (.returning list table none)).collect

def handleInsertBuffered (exec : String → M QueryResult) (sql : String) (insert : Insert)
    (targetColumns : List String) (batches : List RecordBatch) : M QueryResult := do
  let table := insert.table
  if env.arrowWalEnabled then pure () else walAppendPending env sql
  validateNotNullPositional table targetColumns batches
  let columns := if insert.columns.isEmpty then none else some targetColumns
  let (rows, flushed) ← bufferInsertBatches env table columns batches
  recordCdcEvent table "INSERT" rows
  runTriggers exec table "INSERT" "AFTER"
  return .message (if flushed then s!"{rows} row(s) inserted into '{table}' (buffer flushed)."
    else s!"{rows} row(s) buffered for '{table}'.")

/-! ## INSERT .. ON CONFLICT -/

structure UpsertRow where
  values : List (String × Value)
  conflictValues : List String
  conflictKey : String
deriving DecidableEq

def namedConflictColumns (m : TableMeta) (name : String) : Option (List String) :=
  m.constraints.findSome? fun
    | .unique n columns => if n = name then some columns else none
    | .primaryKey columns =>
      if ["primary", "primary_key"].contains (String.ofList (name.toList.map Char.toLower)) then some columns
      else none
    | _ => none

def resolveConflictColumns (m : TableMeta) (onConflict : OnConflict) : Except String (List String) :=
  match onConflict.target with
  | some (.columns names) => .ok names
  | some (.onConstraint name) =>
    match namedConflictColumns m name with
    | some columns => .ok columns
    | none => .error s!"Unknown ON CONFLICT constraint target: {name}"
  | none =>
    match m.constraints.findSome? fun
      | .primaryKey columns | .unique _ columns => some columns
      | _ => none with
    | some columns => .ok columns
    | none => .error "ON CONFLICT without target requires PRIMARY KEY or UNIQUE constraint"

def literal (v : Value) : String := arrayValueToSqlLiteral env.debug v

def upsertRow (targetColumns conflictColumns : List String) (row : Row) : UpsertRow :=
  let values := targetColumns.zip row
  let conflictValues := conflictColumns.map fun c => ((values.reverse.lookup c).map (literal env)).getD "NULL"
  ⟨values, conflictValues, joinUnits conflictValues⟩

/-- The values of a row by their columns. -/
def UpsertRow.valueMap (row : UpsertRow) : Map String :=
  row.values.foldl (fun m v => m.insert v.1 (literal env v.2)) ∅

/-- Puts the values into a text in the order in which the map is iterated. -/
def replaceExcluded (values : List (String × String)) (text : String) : String :=
  values.foldl (fun text v =>
    replaceText (replaceText text ("EXCLUDED." ++ v.1) v.2) ("excluded." ++ v.1) v.2) text

/-- `SET col = expr` with the `EXCLUDED` columns of each conflicting row put in. -/
def doUpdateProjections (m : TableMeta) (conflictColumns : List String)
    (assignments : List (String × String)) (selection : Option String) (rows : List UpsertRow) :
    List Projection :=
  let substitute (text : String) (row : UpsertRow) : String := replaceExcluded (row.valueMap env).pairs text
  m.columns.map fun c =>
    match assignments.reverse.lookup c.name with
    | none => ⟨c.name, []⟩
    | some expr => ⟨c.name, rows.map fun row =>
        let key := " AND ".intercalate ((conflictColumns.zip row.conflictValues).map fun p =>
          s!"\"{p.1}\" = {p.2}")
        (match selection with
          | none => key
          | some sel => s!"({key}) AND ({substitute sel row})", substitute expr row)⟩

/-- The insert part of an upsert writes the rendered literals as VALUES. -/
def upsertInsert (table : String) (targetColumns : List String) (rows : List UpsertRow) : M Unit := do
  let values ← check (rows.mapM fun r => r.values.mapM fun v => env.evalLiteral (literal env v.2))
  insertInto env table (some targetColumns)
    [⟨targetColumns.map fun c => ⟨c, "VALUES", true⟩, values⟩]

def handleUpsert (insert : Insert) (onConflict : OnConflict) : M QueryResult := do
  let table := insert.table
  let _ ← flushTable env table
  let m ← tableMeta table
  let conflictColumns ← check (resolveConflictColumns m onConflict)
  if conflictColumns.isEmpty then throw "ON CONFLICT requires a conflict target"
  else
    let targetColumns := if insert.columns.isEmpty then m.columnNames else insert.columns
    match insert.source with
    | none => throw "UPSERT requires an INSERT source"
    | some source =>
      let batches := (← runQuery env (.user source)).collect
      walAppendPending env insert.display
      let rows := (allRows batches).map (upsertRow env targetColumns conflictColumns)
      if rows.isEmpty then return .message "UPSERT complete: 0 inserted, 0 updated, 0 skipped."
      else
        let existing ← runQuery env (.conflicts table conflictColumns (rows.map (·.conflictValues)).dedup)
        let existingKeys := existing.rows.map fun row =>
          joinUnits (conflictColumns.map fun c =>
            if existing.schema.any (·.name = c) then
              literal env (namedValue (existing.schema.map (·.name)) row c)
            else "NULL")
        let updateRows := rows.filter fun r => existingKeys.contains r.conflictKey
        let insertRows := rows.filter fun r => !existingKeys.contains r.conflictKey
        if insertRows.isEmpty then pure () else upsertInsert env table targetColumns insertRows
        let updated ← match onConflict.action with
          | .doNothing => pure 0
          | .doUpdate assignments selection =>
            if updateRows.isEmpty then pure 0
            else do
              let modified ← runQuery env (.rewrite table
                (doUpdateProjections env m conflictColumns assignments selection updateRows))
              rewriteTable env table modified.schema modified.collect false
              pure updateRows.length
        let skipped := match onConflict.action with
          | .doNothing => updateRows.length
          | .doUpdate _ _ => 0
        validateNotNullTable table
        validateTableConstraints table
        validateCheckConstraints env table
        maybeAutoAnalyze env table (insertRows.length + updated)
        refreshTableFileStatsLight table
        recordCdcEvent table "UPSERT" (insertRows.length + updated)
        return .message
          s!"UPSERT complete: {insertRows.length} inserted, {updated} updated, {skipped} skipped."

def handleInsert (exec : String → M QueryResult) (sql : String) (insert : Insert) : M QueryResult := do
  match insert.onConflict with
  | some onConflict => handleUpsert env insert onConflict
  | none =>
    let table := insert.table
    runTriggers exec table "INSERT" "BEFORE"
    let m ← tableMeta table
    let targetColumns := if insert.columns.isEmpty then m.columnNames else insert.columns
    match insert.source with
    | none => throw "INSERT requires a source query"
    | some source =>
      let batches := (← runQuery env (.user source)).collect
      if (← get).replayingWal || insert.returning.isSome || m.constraints.any (·.isForeignKey) then
        handleInsertImmediate env exec sql insert targetColumns batches
      else handleInsertBuffered env exec sql insert targetColumns batches

/-! ## UPDATE and DELETE -/

def whereText (selection : Option String) : String := selection.getD "TRUE"

def updateProjections (m : TableMeta) (update : Update) : List Projection :=
  m.columns.map fun c =>
    match update.assignments.lookup c.name with
    | none => ⟨c.name, []⟩
    | some value => ⟨c.name, [(whereText update.selection, s!"CAST(({value}) AS {c.dataType})")]⟩

def handleUpdate (exec : String → M QueryResult) (sql : String) (update : Update) : M QueryResult := do
  let table := update.table
  runTriggers exec table "UPDATE" "BEFORE"
  let m ← tableMeta table
  walAppendPending env sql
  backupTableForTxn table
  let updated ← check (filterRows env (whereText update.selection) (← get).relation (← selectStar table))
  let modified ← runQuery env (.rewrite table (updateProjections m update))
  rewriteTable env table modified.schema modified.collect false
  validateTableConstraints table
  validateCheckConstraints env table
  recordCdcEvent table "UPDATE" updated.length
  match update.returning with
  | none => return .message s!"{updated.length} row(s) updated."
  | some list => return .records (← runQuery env (.returning list table (some (whereText update.selection)))).collect

/-- A single-column foreign key of another table onto the table a DELETE is about. -/
structure FkAction where
  childTable : String
  fkCol : String
  refCol : String
  onDelete : String
deriving DecidableEq

def CatalogData.fkActions (c : CatalogData) (table : String) : List FkAction :=
  c.tables.pairs.flatMap fun child => child.2.constraints.filterMap fun
    | .foreignKey _ [fkCol] refTable [refCol] onDelete =>
      if refTable = table then some ⟨child.1, fkCol, refCol, onDelete.getD "RESTRICT"⟩ else none
    | _ => none

/-- The values of one column in the rows that satisfy a condition, without NULL. -/
def deletedKeys (table refCol deleteFilter : String) : M (List Value) := do
  let r ← selectStar table
  let rows ← check (filterRows env deleteFilter (← get).relation r)
  let keys ← check ((⟨r.schema, rows⟩ : Relation).project [refCol])
  return (keys.flatten.filter fun v => !v.isNull).dedup

def fkCascade (action : FkAction) (keys : List Value) (child : Relation) (col : List Row) : M Unit :=
  let kept := ((child.rows.zip col).filter fun p => p.2.all fun v => !v.isNull && !keys.contains v).map (·.1)
  rewriteTable env action.childTable child.schema (⟨child.schema, kept⟩ : Relation).collect false

def fkSetNull (action : FkAction) (keys : List Value) (child : Relation) : M Unit := do
  let m ← tableMeta action.childTable
  let projected ← check (child.project m.columnNames)
  let rows := projected.map fun row => (m.columnNames.zip row).map fun p =>
    if p.1 = action.fkCol ∧ keys.contains p.2 then Value.null else p.2
  let schema := child.schema.filter fun f => m.columnNames.contains f.name
  rewriteTable env action.childTable schema (⟨schema, rows⟩ : Relation).collect false

def runFkAction (table deleteFilter : String) (action : FkAction) : M Unit := do
  let keys ← deletedKeys env table action.refCol deleteFilter
  if keys.isEmpty then pure ()
  else
    let child ← selectStar action.childTable
    let col ← check (child.project [action.fkCol])
    if (col.filter fun row => row.any keys.contains).isEmpty then pure ()
    else if env.toUppercase action.onDelete = "CASCADE" then fkCascade env action keys child col
    else if env.toUppercase action.onDelete = "SET NULL" then fkSetNull env action keys child
    else throw s!"FOREIGN KEY RESTRICT violation on '{table}' referenced by '{action.childTable}'"

def handleDelete (exec : String → M QueryResult) (delete : Delete) : M QueryResult := do
  let table := delete.table
  runTriggers exec table "DELETE" "BEFORE"
  let _ ← tableMeta table
  walAppendPending env delete.display
  backupTableForTxn table
  each (runFkAction env table (whereText delete.selection)) ((← get).catalog.fkActions table)
  let r ← selectStar table
  let returned ← match delete.returning with
    | none => pure none
    | some list => some <$> runQuery env (.returning list table delete.selection)
  let surviving ← match delete.selection with
    | none => pure []
    | some condition => do check (filterNotRows env condition (← get).relation r)
  let deleted := r.rows.length - surviving.length
  rewriteTable env table r.schema (⟨r.schema, surviving⟩ : Relation).collect false
  recordCdcEvent table "DELETE" deleted
  runTriggers exec table "DELETE" "AFTER"
  match returned with
  | none => return .message s!"{deleted} row(s) deleted."
  | some rows => return .records rows.collect

/-! ## MERGE -/

/-- Evaluates a query with the USING source under the name `__merge_src`. -/
def mergeQuery (source : Relation) (q : Query) : M Relation := do
  let db ← get
  check (env.eval q fun n => if n = "__merge_src" then some source else db.relation n)

/-- The closure `rewrite`: the names of the two tables before a dot are replaced by those of the tables DataFusion
knows. -/
def Merge.rewrite (merge : Merge) (text : String) : String :=
  let r := merge.targetAlias.elim text fun a => replaceText text s!"{a}." s!"\"{merge.target}\"."
  match merge.sourceAlias, merge.sourceTable with
  | some a, _ => replaceText r s!"{a}." "\"__merge_src\"."
  | none, some sn => replaceText r s!"{sn}." "\"__merge_src\"."
  | none, none => r

def mergeProjections (m : TableMeta) (assignments : List (String × String)) : List Projection :=
  m.columns.map fun c =>
    match assignments.reverse.lookup c.name with
    | none => ⟨c.name, []⟩
    | some value => ⟨c.name, [("\"__merge_src_match\" IS NOT NULL", s!"CAST({value} AS {c.dataType})")]⟩

/-- One WHEN clause; the numbers of rows updated and inserted so far. -/
def mergeClause (merge : Merge) (m : TableMeta) (source : Relation) (done : Nat × Nat)
    (clause : MergeClause) : M (Nat × Nat) := do
  let target := merge.target
  let on := merge.rewrite merge.on
  let predicate := (clause.predicate).elim "" fun p => s!" AND ({merge.rewrite p})"
  match clause.matched, clause.action with
  | true, .update assignments =>
    let matched ← mergeQuery env source (.mergeCount target on predicate)
    if matched.rows.length > 0 then
      let projections := mergeProjections m (assignments.map fun a => (a.1, merge.rewrite a.2))
      let merged ← mergeQuery env source (.mergeUpdate target on predicate projections)
      rewriteTable env target merged.schema merged.collect false
    else pure ()
    return (matched.rows.length, done.2)
  | true, .delete =>
    let kept ← mergeQuery env source (.mergeKeep target on predicate)
    rewriteTable env target kept.schema kept.collect false
    return done
  | false, .insert columns values =>
    let rows ← mergeQuery env source (.mergeInsert target on predicate (values.map (·.map merge.rewrite)))
    insertInto env target (if columns.isEmpty then none else some columns) [⟨rows.schema, rows.rows⟩]
    refreshTableFileStatsLight target
    return (done.1, rows.rows.length)
  | _, _ => return done

def mergeClauses (merge : Merge) (m : TableMeta) (source : Relation) (done : Nat × Nat) :
    List MergeClause → M (Nat × Nat)
  | [] => return done
  | c :: cs => do
    let done' ← mergeClause env merge m source done c
    mergeClauses merge m source done' cs

def handleMerge (merge : Merge) : M QueryResult := do
  let m ← tableMeta merge.target
  let _ ← flushAll env
  let source ← runQuery env (.user merge.source)
  if source.rows.isEmpty then return .message "0 row(s) updated, 0 row(s) inserted."
  else
    let (updated, inserted) ← mergeClauses env merge m source (0, 0) merge.clauses
    recordCdcEvent merge.target "MERGE" (updated + inserted)
    return .message s!"{updated} row(s) updated, {inserted} row(s) inserted."

/-! ## COPY FROM -/

def handleCopyFrom (sql : String) (copy : CopyFrom) : M QueryResult := do
  let table := copy.table
  let _ ← tableMeta table
  walAppendPending env sql
  let source ← check (env.readFile copy.filePath)
  let m ← tableMeta table
  let fields := source.schema.map (·.name)
  if source.rows.length > 0 then
    let rows := source.rows.map fun row => m.columnNames.map (namedValue fields row)
    insertInto env table (some m.columnNames)
      [⟨m.columnNames.map fun c => ((source.schema.find? (·.name = c)).getD ⟨c, "Null", true⟩), rows⟩]
  else pure ()
  validateNotNullTable table
  validateTableConstraints table
  validateCheckConstraints env table
  maybeAutoAnalyze env table source.rows.length
  refreshTableFileStats env table
  recordCdcEvent table "COPY_FROM" source.rows.length
  let missing := if source.rows.length > 0 then (m.columnNames.filter fun c => !fields.contains c).length else 0
  let extra := if source.rows.length > 0 then (fields.filter fun c => !m.columnNames.contains c).length else 0
  return .message s!"{source.rows.length} row(s) copied into '{table}' from '{copy.filePath}' ({copy.format}); missing target columns filled with NULL: {missing}, source-only columns ignored: {extra}."

end

end PotatoDB
