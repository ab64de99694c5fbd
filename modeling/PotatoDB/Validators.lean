import PotatoDB.Storage

/-!
# Constraint validation

The incremental check of incoming rows against cached key sets, and the whole-table queries.
-/

namespace PotatoDB

open Oplog
open Oplog.Prog (get emit attempt check each)

/-! ## Queries of fixed meaning -/

/-- `SELECT c1, c2 FROM r`. -/
def Relation.project (r : Relation) (columns : List String) : Except String (List Row) :=
  if ¬ columns.Nodup then .error "Projections require unique expression names"
  else if columns.all fun c => r.schema.any (·.name = c) then
    .ok (r.rows.map fun row => columns.map (namedValue (r.schema.map (·.name)) row))
  else .error "No field named in SELECT"

/-- NULL as GROUP BY sees it. -/
def Value.group : Value → Value
  | nullArray => null
  | v => v

/-- `SELECT COUNT(*) FROM (SELECT cols FROM r GROUP BY cols HAVING COUNT(*) > 1)`. -/
def Relation.countDuplicates (r : Relation) (columns : List String) : Except String Nat := do
  let keys := (← r.project columns).map (·.map Value.group)
  return (keys.dedup.filter fun k => 1 < keys.count k).length

/-- `SELECT COUNT(*) FROM r WHERE c1 IS NULL OR c2 IS NULL`. -/
def Relation.countNull (r : Relation) (columns : List String) : Except String Nat := do
  return ((← r.project columns).filter fun row => row.any Value.isNull).length

/-- The child rows with a key that no parent row has. -/
def countOrphans (child : Relation) (columns : List String) (parent : Relation) (refColumns : List String) :
    Except String Nat := do
  let keys ← child.project columns
  let refKeys ← parent.project refColumns
  return (keys.filter fun k => !k.any Value.isNull && !refKeys.contains k).length

section
variable (env : Env)

/-- `SELECT COUNT(*) FROM r WHERE NOT (expr)`: the rows on which `expr` is FALSE. -/
def countFalse (expr : String) (schema : Schema) (rows : List Row) : Except String Nat := do
  if env.plansCheck expr (schema.map fun f => (f.name, f.dataType)) then
    let values ← rows.mapM fun row => env.evalCheck expr ((schema.map (·.name)).zip row)
    return (values.filter (· = some false)).length
  else .error "CHECK expression does not plan"

/-! ## Whole-table validation -/

def validateNotNullTable (table : String) : M Unit := do
  match (← get).catalog.tables.lookup table with
  | none => pure ()
  | some m =>
    let checks := (m.columns.filter fun c => !c.nullable).map (·.name)
    if checks.isEmpty then pure ()
    else
      let violatingRows ← check ((← selectStar table).countNull checks)
      if violatingRows > 0 then
        throw s!"NOT NULL constraint failed for table '{table}' ({violatingRows} violating row(s))"
      else pure ()

def primaryKeyMessage (table : String) (columns : List String) : String :=
  let names := ", ".intercalate columns
  s!"PRIMARY KEY violation on '{table}' for ({names})"

def uniqueMessage (table name : String) : String := s!"UNIQUE constraint violation '{name}' on '{table}'"

def checkMessage (table name : String) (n : Nat) : String :=
  s!"CHECK constraint violation '{name}' on '{table}' ({n} row(s))"

def validateNoNull (table col : String) : M Unit := do
  let nullRows ← check ((← selectStar table).countNull [col])
  if nullRows > 0 then throw s!"PRIMARY KEY violation on '{table}': column '{col}' contains NULL"
  else pure ()

def validateNoDuplicates (table : String) (columns : List String) (message : String) : M Unit := do
  let duplicates ← check ((← selectStar table).countDuplicates columns)
  if duplicates > 0 then throw message else pure ()

def validateForeignKey (table name : String) (columns : List String) (refTable : String)
    (refColumns : List String) : M Unit := do
  if columns.length ≠ refColumns.length ∨ columns = [] then
    throw s!"FOREIGN KEY '{name}' on '{table}' has invalid column mapping"
  else
    let child ← selectStar table
    let parent ← selectStar refTable
    let orphans ← check (countOrphans child columns parent refColumns)
    if orphans > 0 then throw s!"FOREIGN KEY violation '{name}' on '{table}' referencing '{refTable}'"
    else pure ()

def validateTableConstraint (table : String) : TableConstraint → M Unit
  | .primaryKey columns => do
    each (validateNoNull table) columns
    validateNoDuplicates table columns (primaryKeyMessage table columns)
  | .unique name columns => validateNoDuplicates table columns (uniqueMessage table name)
  | .check _ _ => pure ()
  | .foreignKey name columns refTable refColumns _ => validateForeignKey table name columns refTable refColumns

def validateTableConstraints (table : String) : M Unit := do
  match (← get).catalog.tables.lookup table with
  | none => pure ()
  | some m => each (validateTableConstraint table) m.constraints

def validateCheckConstraint (table : String) : TableConstraint → M Unit
  | .check name expr => do
    let r ← selectStar table
    let violating ← check (countFalse env expr r.schema r.rows)
    if violating > 0 then throw (checkMessage table name violating) else pure ()
  | _ => pure ()

def validateCheckConstraints (table : String) : M Unit := do
  match (← get).catalog.tables.lookup table with
  | none => pure ()
  | some m => each (validateCheckConstraint env table) m.constraints

/-! ## The uniqueness cache -/

def uniquenessCacheKeyPk (table : String) (columns : List String) : String :=
  joinUnits ["pk", table, joinUnits columns]

def uniquenessCacheKeyUnique (table name : String) : String := joinUnits ["uq", table, name]

def invalidateUniquenessCacheForTable (table : String) : M Unit := emit (.cacheInvalidate table)

/-- The rendered key tuples of rows; with `skipNullRows` those without NULL. -/
def keyTexts (skipNullRows : Bool) (rows : List Row) : List String :=
  ((rows.map (·.map (arrayValueToSqlLiteral env.debug))).filter fun t =>
    !(skipNullRows && t.any (· = "NULL"))).map joinUnits

def ensureUniquenessLoaded (cacheKey table : String) (columns : List String) (skipNullRows : Bool) :
    M Unit := do
  if ((← get).uniquenessCache.lookup cacheKey).isSome then pure ()
  else
    let rows ← check ((← selectStar table).project columns)
    emit (.cacheInsert cacheKey (keyTexts env skipNullRows rows))

def mergeUniquenessKeys (cacheKey : String) (values : List (List String)) : M Unit :=
  emit (.cacheMerge cacheKey (values.map joinUnits))

def checkUniquenessAgainstTableCached (cacheKey table : String) (columns : List String)
    (values : List (List String)) (skipNullRows : Bool) (errMsg : String) : M Unit := do
  ensureUniquenessLoaded env cacheKey table columns skipNullRows
  let cached := ((← get).uniquenessCache.lookup cacheKey).getD []
  if values.any fun v => cached.contains (joinUnits v) then throw errMsg else pure ()

/-! ## Incoming rows -/

inductive ValidationPhase where
  | beforeInsert
  | afterInsert
deriving DecidableEq

/-- A target column listed twice has its last position. -/
def columnPosition (targetColumns : List String) (column : String) : Option Nat :=
  (targetColumns.zipIdx.reverse.find? (·.1 = column)).map (·.2)

/-- The rendered key of one row; a column the batch does not have is an index out of bounds. -/
def keyTuple (width : Nat) (positions : List Nat) (row : Row) : Except String (List String) :=
  positions.mapM fun i =>
    if i < width then .ok (arrayValueToSqlLiteral env.debug ((row[i]?).getD .null))
    else .error "index out of bounds"

def keyTuples (positions : List Nat) (batches : List RecordBatch) : List (Except String (List String)) :=
  batches.flatMap fun b => b.rows.map (keyTuple env b.schema.length positions)

/-- Collects the keys of incoming rows. A key with NULL is an error or is left out; a key that
comes twice is an error. -/
def collectKeys (nullError : Option String) (duplicateError : String) :
    List String → List (Except String (List String)) → Except String (List (List String))
  | _, [] => .ok []
  | _, .error e :: _ => .error e
  | seen, .ok t :: ts =>
    if t.any (· = "NULL") then
      match nullError with
      | some e => .error e
      | none => collectKeys nullError duplicateError seen ts
    else if seen.contains (joinUnits t) then .error duplicateError
    else do return t :: (← collectKeys nullError duplicateError (joinUnits t :: seen) ts)

abbrev Merges := List (String × List (List String))

/-- One PRIMARY KEY or UNIQUE constraint of incoming rows, with the keys to merge later. -/
def validateKeys (table : String) (columns : List String) (cacheKey message : String)
    (nullError : Option String) (positions : List Nat) (batches : List RecordBatch) : M Merges := do
  let values ← check (collectKeys nullError message [] (keyTuples env positions batches))
  if values.isEmpty then return []
  else
    checkUniquenessAgainstTableCached env cacheKey table columns values nullError.isNone message
    return [(cacheKey, values)]

/-- The query over incoming rows under their target names does not plan when a name comes twice. -/
def incomingSchema (targetColumns : List String) (schema : Schema) : Option Schema :=
  if targetColumns.Nodup ∧ (schema.map (·.name)).Nodup then
    some ((targetColumns.zip schema).map fun p => { p.2 with name := p.1 })
  else none

def validateConstraintsLoop (table : String) (targetColumns : List String) (batches : List RecordBatch)
    (phase : ValidationPhase) : List TableConstraint → Merges → M Merges
  | [], merges => pure merges
  | .primaryKey columns :: cs, merges =>
    if phase ≠ .beforeInsert then validateConstraintsLoop table targetColumns batches phase cs merges
    else
      match columns.mapM (columnPosition targetColumns) with
      | none => do
        validateTableConstraints table
        return []
      | some positions => do
        let message := primaryKeyMessage table columns
        let keys ← validateKeys env table columns (uniquenessCacheKeyPk table columns) message (some message)
          positions batches
        validateConstraintsLoop table targetColumns batches phase cs (merges ++ keys)
  | .unique name columns :: cs, merges =>
    if phase ≠ .beforeInsert then validateConstraintsLoop table targetColumns batches phase cs merges
    else
      match columns.mapM (columnPosition targetColumns) with
      | none => do
        validateTableConstraints table
        return []
      | some positions => do
        let keys ← validateKeys env table columns (uniquenessCacheKeyUnique table name)
          (uniqueMessage table name) none positions batches
        validateConstraintsLoop table targetColumns batches phase cs (merges ++ keys)
  | .check name expr :: cs, merges =>
    if phase ≠ .beforeInsert then validateConstraintsLoop table targetColumns batches phase cs merges
    else
      let nonEmpty := batches.filter fun b => 0 < b.numRows
      match nonEmpty with
      | [] => validateConstraintsLoop table targetColumns batches phase cs merges
      | b :: _ =>
        if b.schema.length ≠ targetColumns.length then do
          validateCheckConstraints env table
          return []
        else do
          check (memTable b.schema nonEmpty)
          match incomingSchema targetColumns b.schema with
          | none =>
            validateCheckConstraints env table
            return []
          | some schema =>
            if env.plansCheck expr (schema.map fun f => (f.name, f.dataType)) then
              let violating ← check (countFalse env expr schema (allRows nonEmpty))
              if violating > 0 then throw (checkMessage table name violating)
              else validateConstraintsLoop table targetColumns batches phase cs merges
            else
              validateCheckConstraints env table
              return []
  | .foreignKey name columns refTable refColumns _ :: cs, merges =>
    if phase ≠ .afterInsert then validateConstraintsLoop table targetColumns batches phase cs merges
    else do
      validateForeignKey table name columns refTable refColumns
      validateConstraintsLoop table targetColumns batches phase cs merges

def validateConstraintsBatch (table : String) (targetColumns : List String) (batches : List RecordBatch)
    (phase : ValidationPhase) : M Merges := do
  if batches = [] ∧ phase = .beforeInsert then return []
  else
    match (← get).catalog.tables.lookup table with
    | none => return []
    | some m => validateConstraintsLoop env table targetColumns batches phase m.constraints []

/-- NOT NULL on the incoming columns, by position. -/
def validateNotNullPositional (table : String) (targetColumns : List String) (batches : List RecordBatch) :
    M Unit := do
  match (← get).catalog.tables.lookup table with
  | none => pure ()
  | some m =>
    let targets := targetColumns.zipIdx.filter fun t => m.columns.any fun c => c.name = t.1 && !c.nullable
    each (fun b => each (fun t =>
      match b.schema[t.2]? with
      | none => pure ()
      | some f =>
        if f.dataType = "Null" ∨ b.rows.any (fun row => ((row[t.2]?).getD .null).isNull) then
          throw s!"NOT NULL constraint failed: '{table}.{t.1}'"
        else pure ()) targets) batches

end

end PotatoDB
