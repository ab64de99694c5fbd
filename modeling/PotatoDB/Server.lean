import PotatoDB.Execute

/-!
# The server

Every client of the server runs its requests on the one engine, one request at a time.
-/

namespace PotatoDB

open Oplog
open Oplog.Prog (get emit attempt check each)

section
variable (env : Env)

/-- `query.split_whitespace().next().unwrap_or("").to_uppercase()`. -/
def firstToken (sql : String) : String :=
  env.toUppercase (String.ofList ((splitWords isWhitespace sql.toList).headD []))

/-- The server's test. -/
def isReadOnlyQuery (query : String) : Bool :=
  ["SELECT", "WITH", "SHOW", "DESCRIBE", "EXPLAIN", "VALUES"].contains (firstToken env query)

/-- The engine's test, without VALUES. -/
def isReadOnlySql (sql : String) : Bool :=
  ["SELECT", "WITH", "SHOW", "DESCRIBE", "EXPLAIN"].contains (firstToken env sql)

def executeReadonly (sql : String) : M QueryResult := do
  if !isReadOnlySql env sql then throw "execute_readonly rejects mutating SQL"
  else
    let _ ← flushAll env
    return .records (← runQuery env (.user sql)).collect

/-- What DataFusion inserts when it runs the plan of a text, and what it answers. -/
structure PlannedInsert where
  table : String
  columns : Option (List String)
  batches : List RecordBatch
  answer : List RecordBatch

/-- `execute_readonly` where DataFusion also runs the INSERT in the plan of a text. -/
def executeReadonlyPlanned (insertOf : String → (String → Option Relation) → Option PlannedInsert) (sql : String) :
    M QueryResult := do
  if !isReadOnlySql env sql then throw "execute_readonly rejects mutating SQL"
  else
    let _ ← flushAll env
    match insertOf sql (← get).relation with
    | none => return .records (← runQuery env (.user sql)).collect
    | some i =>
      insertInto env i.table i.columns i.batches
      return .records i.answer

/-- `Processor::run_query`. -/
def Processor.runQuery (fuel : Nat) (query : String) : M QueryResult :=
  if isReadOnlyQuery env query then executeReadonly env query else execute env fuel query

end

/-! ## Requests of several clients -/

structure Request (κ : Type) where
  client : κ
  sql : String

/-- The engine, with what led to its open transaction. -/
structure Served (κ : Type) where
  db : Db
  /-- The client whose request began the open transaction. -/
  owner : Option κ
  /-- The clients of the requests since then that were not queries. -/
  since : List κ
  /-- The tables whose inserted rows were in no file yet when it began. -/
  waiting : List String

/-- A server that no client has used yet. -/
def Served.start {κ : Type} (db : Db) : Served κ := ⟨db, none, [], []⟩

def Op.isBegin : Op → Bool
  | beginTxn _ => true
  | _ => false

section
variable {κ : Type} (env : Env) (fuel : Nat)

def Request.program (r : Request κ) : M QueryResult := Processor.runQuery env fuel r.sql

def Served.step (s : Served κ) (r : Request κ) : Served κ :=
  let db := (r.program env fuel).final s.db
  if db.activeTxn.isNone then ⟨db, none, [], []⟩
  else if ((r.program env fuel).ops s.db).any (·.isBegin) then ⟨db, some r.client, [], db.writeBuffer.keys⟩
  else ⟨db, s.owner, if isReadOnlyQuery env r.sql then s.since else s.since ++ [r.client], s.waiting⟩

def Served.run (s : Served κ) (rs : List (Request κ)) : Served κ := rs.foldl (Served.step env fuel) s

/-- Each request of a run meets the condition in the state before it. -/
def Served.Each (P : Served κ → Request κ → Prop) : Served κ → List (Request κ) → Prop
  | _, [] => True
  | s, r :: rs => P s r ∧ Each P (s.step env fuel r) rs

end

end PotatoDB
