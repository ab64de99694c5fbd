import PotatoDB.Migrations
import PotatoDB.Nesting
import PotatoDB.Parameters
import PotatoDB.Scripts

/-!
# Statements that execute statements

Triggers, procedures, DO blocks, migrations and prepared statements give texts back to `execute`.
What else a statement does is one answer of the environment for each part of it.
-/

namespace PotatoDB.Routines

open Nesting (attempt each)

/-! ## The state -/

/-- What the catalog has of routines. -/
structure RoutineCatalog where
  triggers : Map TriggerDef
  udfs : Map UdfDef
  migrations : List MigrationRecord
  schemaVersion : Nat

structure RoutineTxn where
  catalogSnapshot : RoutineCatalog
  savepoints : List (String × RoutineCatalog)

structure RoutineDb (δ : Type) where
  catalog : RoutineCatalog
  activeTxn : Option RoutineTxn
  procedures : Map String
  preparedStatements : Map String
  data : δ

/-- A program of the engine. -/
abbrev N (δ α : Type) := EStateM String (RoutineDb δ) α

inductive RoutineStatement where
  | insert (table : String) (onConflict : Bool)
  | update (table : String)
  | delete (table : String)
  | createTrigger (trigger : TriggerDef)
  | dropTrigger (name : String)
  | createFunction (udf : UdfDef)
  | dropFunction (name : String) (ifExists : Bool)
  | createProcedure (name body : String)
  | call (name : String)
  /-- The statements of a DO block, with the values of its variables, without RAISE. -/
  | doBlock (stmts : List String)
  | createMigration (migration : MigrationRecord)
  | migrate (target : Option Nat)
  | prepare (name template : String)
  | executePrepared (name : String) (parameters : List (List Char))
  | startTransaction
  | commit
  | rollback
  | savepoint (name : String)
  | rollbackTo (name : String)
  | release (name : String)
  | other

/-- The parts of a statement between the texts it gives back. -/
inductive Phase where
  | arrive
  | flush
  | change
  | answer
  | plan
  | leave (ok : Bool)

structure RoutineEnv (δ : Type) where
  /-- The branch of `execute` for a text, once the user-defined functions in it are expanded. -/
  parse : Map UdfDef → String → Except String RoutineStatement
  /-- What a statement does to everything but routines. -/
  work : String → Phase → δ → Except String String × δ
  nowMs : δ → Int

section
variable {δ : Type} (env : RoutineEnv δ)

def run (text : String) (phase : Phase) : N δ String := fun s =>
  match env.work text phase s.data with
  | (.ok a, d) => .ok a { s with data := d }
  | (.error e, d) => .error e { s with data := d }

def changeCatalog (f : RoutineCatalog → RoutineCatalog) : N δ Unit := modify fun s => { s with catalog := f s.catalog }

/-! ## Triggers -/

def RoutineCatalog.triggersOn (c : RoutineCatalog) (table event timing : String) : List String :=
  (c.triggers.values.filter fun t => t.table = table && t.event = event && t.timing = timing).map (·.body)

def runTriggers (exec : String → N δ String) (table event timing : String) : N δ Unit := do
  let s ← get
  each (fun body => do
    let _ ← attempt (exec body)) (s.catalog.triggersOn table event timing)

def handleInsert (exec : String → N δ String) (text table : String) (onConflict : Bool) : N δ String :=
  if onConflict then run env text .change
  else do
    runTriggers exec table "INSERT" "BEFORE"
    let _ ← run env text .change
    runTriggers exec table "INSERT" "AFTER"
    run env text .answer

def handleUpdate (exec : String → N δ String) (text table : String) : N δ String := do
  runTriggers exec table "UPDATE" "BEFORE"
  run env text .change

def handleDelete (exec : String → N δ String) (text table : String) : N δ String := do
  runTriggers exec table "DELETE" "BEFORE"
  let answer ← run env text .change
  runTriggers exec table "DELETE" "AFTER"
  return answer

/-! ## Procedures, blocks, migrations and prepared statements -/

/-- Statements in turn, up to the first that fails. -/
def runAll (exec : String → N δ String) (stmts : List String) : N δ Unit :=
  each (fun stmt => do
    let _ ← exec stmt) stmts

def handleCallProcedure (exec : String → N δ String) (name : String) : N δ String := do
  let s ← get
  match s.procedures.lookup name with
  | none => throw s!"Procedure '{name}' does not exist"
  | some body =>
    runAll exec ((splitSqlStatements body.toList).map String.ofList)
    return s!"CALL '{name}' completed."

def handleDoBlock (exec : String → N δ String) (stmts : List String) : N δ String := do
  runAll exec stmts
  return "DO block completed."

def handleCreateMigration (m : MigrationRecord) : N δ String := do
  let s ← get
  if s.catalog.migrations.any (·.version = m.version) then throw s!"Migration version {m.version} already exists"
  else
    changeCatalog fun c => { c with migrations := Sorting.sortBy (Sorting.on (·.version) compare) (c.migrations ++ [m]) }
    return s!"Migration {m.version} '{m.description}' registered."

/-- The first record of the version is marked. -/
def RoutineCatalog.recordApplied (c : RoutineCatalog) (version : Nat) (nowMs : Int) : RoutineCatalog :=
  { c with
    migrations := match c.migrations.findIdx? (·.version = version) with
      | some i => c.migrations.modify i fun m => { m with appliedAtMs := nowMs }
      | none => c.migrations
    schemaVersion := version }

def RoutineCatalog.pendingMigrations (c : RoutineCatalog) (target : Option Nat) : List MigrationRecord :=
  let pending := c.migrations.filter (·.version > c.schemaVersion)
  match target with
  | some t => pending.filter (·.version ≤ t)
  | none => pending

def handleMigrate (exec : String → N δ String) (target : Option Nat) : N δ String := do
  let s ← get
  let toRun := s.catalog.pendingMigrations target
  each (fun m => do
    let _ ← exec m.sql
    let t ← get
    changeCatalog (·.recordApplied m.version (env.nowMs t.data))) toRun
  let t ← get
  let version := t.catalog.schemaVersion
  return s!"Applied {toRun.length} migration(s). Schema version: {version}."

/-- A template without parameters may be answered by the plan that was kept for it. -/
def handleExecutePrepared (exec : String → N δ String) (text name : String) (parameters : List (List Char)) : N δ String := do
  let s ← get
  match s.preparedStatements.lookup name with
  | none => throw s!"Prepared statement '{name}' does not exist"
  | some template =>
    let sql := String.ofList (substituteParameters template.toList parameters)
    if parameters.isEmpty then
      let planned ← attempt (run env text .plan)
      match planned with
      | .ok answer => return answer
      | .error _ => exec sql
    else exec sql

/-! ## Transactions -/

def handleBegin : N δ String := do
  let s ← get
  if s.activeTxn.isSome then throw "Already inside a transaction (nested BEGIN not supported)"
  else
    set { s with activeTxn := some ⟨s.catalog, []⟩ }
    return "BEGIN"

def handleCommit (text : String) : N δ String := do
  let _ ← run env text .change
  let s ← get
  match s.activeTxn with
  | none => throw "No active transaction to COMMIT"
  | some _ =>
    set { s with activeTxn := none }
    run env text .answer

def handleRollback (text : String) : N δ String := do
  let s ← get
  match s.activeTxn with
  | none => throw "No active transaction to ROLLBACK"
  | some txn =>
    set { s with activeTxn := none, catalog := txn.catalogSnapshot }
    run env text .change

def handleSavepoint (text name : String) : N δ String := do
  let s ← get
  match s.activeTxn with
  | none => throw "SAVEPOINT requires an active transaction"
  | some txn =>
    set { s with activeTxn := some { txn with savepoints := txn.savepoints ++ [(name, s.catalog)] } }
    run env text .change

/-- The last savepoint of a name, with its position. -/
def findSavepoint (savepoints : List (String × RoutineCatalog)) (name : String) : Option (RoutineCatalog × Nat) :=
  (savepoints.zipIdx.reverse.find? (·.1.1 = name)).map fun p => (p.1.2, p.2)

def handleRollbackTo (text name : String) : N δ String := do
  let s ← get
  match s.activeTxn with
  | none => throw "ROLLBACK TO SAVEPOINT requires an active transaction"
  | some txn =>
    match findSavepoint txn.savepoints name with
    | none => throw s!"Savepoint '{name}' does not exist"
    | some (catalog, idx) =>
      set { s with catalog := catalog, activeTxn := some ⟨catalog, txn.savepoints.take (idx + 1)⟩ }
      run env text .change

def handleReleaseSavepoint (name : String) : N δ String := do
  let s ← get
  match s.activeTxn with
  | none => throw "RELEASE SAVEPOINT requires an active transaction"
  | some txn =>
    match findSavepoint txn.savepoints name with
    | none => throw s!"Savepoint '{name}' does not exist"
    | some (_, idx) =>
      set { s with activeTxn := some { txn with savepoints := txn.savepoints.take idx } }
      return s!"RELEASE SAVEPOINT {name}"

/-! ## Execution -/

def handle (exec : String → N δ String) (text : String) : RoutineStatement → N δ String
  | .insert table onConflict => handleInsert env exec text table onConflict
  | .update table => handleUpdate env exec text table
  | .delete table => handleDelete env exec text table
  | .createTrigger trigger => do
    changeCatalog fun c => { c with triggers := c.triggers.insert trigger.name trigger }
    run env text .change
  | .dropTrigger name => do
    changeCatalog fun c => { c with triggers := c.triggers.erase name }
    run env text .change
  | .createFunction udf => do
    let answer ← run env text .change
    changeCatalog fun c => { c with udfs := c.udfs.insert udf.name udf }
    return answer
  | .dropFunction name ifExists => do
    let s ← get
    if (s.catalog.udfs.lookup name).isSome then
      let answer ← run env text .change
      changeCatalog fun c => { c with udfs := c.udfs.erase name }
      return answer
    else if ifExists then return s!"Function '{name}' does not exist, skipping."
    else throw s!"Function '{name}' does not exist"
  | .createProcedure name body => do
    modify fun s => { s with procedures := s.procedures.insert name body }
    return s!"Procedure '{name}' created."
  | .call name => handleCallProcedure exec name
  | .doBlock stmts => handleDoBlock exec stmts
  | .createMigration migration => handleCreateMigration migration
  | .migrate target => handleMigrate env exec target
  | .prepare name template => do
    modify fun s => { s with preparedStatements := s.preparedStatements.insert name template }
    return s!"Statement '{name}' prepared."
  | .executePrepared name parameters => handleExecutePrepared env exec text name parameters
  | .startTransaction => handleBegin
  | .commit => handleCommit env text
  | .rollback => handleRollback env text
  | .savepoint name => handleSavepoint env text name
  | .rollbackTo name => handleRollbackTo env text name
  | .release name => handleReleaseSavepoint name
  | .other => run env text .change

/-- `execute` with the interpreter it calls itself as. -/
def step (exec : String → N δ String) (text : String) : N δ String := do
  let _ ← run env text .arrive
  let s ← get
  match env.parse s.catalog.udfs text with
  | .error e => throw e
  | .ok statement =>
    let _ ← run env text .flush
    let result ← attempt (handle env exec text statement)
    let _ ← run env text (.leave result.toBool)
    match result with
    | .ok answer => return answer
    | .error e => throw e

/-- `execute` to a depth. -/
def execute (n : Nat) : String → N δ String := Nesting.nested (step env) n fun _ => throw "stack overflow"

end

end PotatoDB.Routines
