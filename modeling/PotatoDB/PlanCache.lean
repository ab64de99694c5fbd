import PotatoDB.Server

/-!
# Cached plans

The plan cache, which is kept by the text of a query, and the plans of prepared statements. A
logical plan keeps the table providers it was made with. DataFusion is a parameter, and so are the
providers and the data they read.
-/

namespace PotatoDB

/-- DataFusion: plans of a text over registered tables, and what they answer. -/
structure Planner (P D R : Type) where
  plan : String → Map P → Except String Unit
  collect : String → Map P → D → Except String R
  /-- The tables that the planning of a text looks up. -/
  reads : String → String → Prop
  plan_congr : ∀ sql ctx ctx', (∀ n, reads sql n → ctx.lookup n = ctx'.lookup n) → plan sql ctx = plan sql ctx'
  collect_congr : ∀ sql ctx ctx' data, (∀ n, reads sql n → ctx.lookup n = ctx'.lookup n) →
    collect sql ctx data = collect sql ctx' data
  /-- `rewrite_date_subtraction_sql`. -/
  rewriteDateSubtraction : String → Option String

/-- `LogicalPlan`: a text, and the tables as they were registered when it was planned. -/
structure LogicalPlan (P : Type) where
  text : String
  tables : Map P

structure PreparedStatement (P : Type) where
  sqlTemplate : String
  logicalPlan : Option (LogicalPlan P)

/-- The tables that DataFusion knows, the data they read, and the plans that are kept. -/
structure PlanningDb (P D : Type) where
  ctx : Map P
  data : D
  planCache : Map (LogicalPlan P)
  preparedStatements : Map (PreparedStatement P)

/-- A parsed statement, as far as `extract_mutated_table` and the test for mutating statements look at it. -/
inductive PlannedStatement where
  | insert (table : String)
  | update (relation : String)
  | mergeTable (name : String)
  | mergeOther (table : String)
  | delete (relations : List String)
  | drop (names : List String)
  | truncate (names : List String)
  | alterTable (name : String)
  | createTable
  | createIndex
  | createSequence
  | createView
  | copy
  | other

namespace PlannedStatement

/-- TRUNCATE is a statement of its own before this test. -/
def isMutating : PlannedStatement → Bool
  | truncate _ | other => false
  | _ => true

def extractMutatedTable : PlannedStatement → Option String
  | insert table => some table
  | update relation => some relation
  | mergeTable name => some (String.ofList (trimMatches (· = '"') name.toList))
  | mergeOther table => some table
  | delete relations => relations.head?
  | drop names => names.head?
  | truncate names => names.head?
  | alterTable name => some name
  | _ => none

end PlannedStatement

section
variable {P D R : Type} (env : Env) (planner : Planner P D R)

/-- `ctx.sql`. -/
def Planner.sql (ctx : Map P) (sql : String) : Except String (LogicalPlan P) := do
  planner.plan sql ctx
  return ⟨sql, ctx⟩

/-- `execute_logical_plan` and `collect`. -/
def Planner.run (plan : LogicalPlan P) (data : D) : Except String R := planner.collect plan.text plan.tables data

/-- The plan of a text, or of what it becomes when an interval has been taken for a number. -/
def Planner.freshPlan (ctx : Map P) (sql : String) : Except String (LogicalPlan P) :=
  match planner.sql ctx sql with
  | .ok plan => .ok plan
  | .error e =>
    if containsText "coerce types Duration".toList e.toList then
      match planner.rewriteDateSubtraction sql with
      | some rewritten => planner.sql ctx rewritten
      | none => .error e
    else .error e

namespace PlanningDb

/-- The text is planned and the plan executed. -/
def answerAfresh (s : PlanningDb P D) (sql : String) : Except String R := do
  planner.run (← planner.freshPlan s.ctx sql) s.data

def evictPlanCache (s : PlanningDb P D) : Option String → PlanningDb P D
  | some name => { s with planCache := s.planCache.retain fun sql _ => !containsText name.toList sql.toList }
  | none => { s with planCache := ∅ }

/-- The text is planned; its plan is kept when it has been executed. -/
def planAndCollect (s : PlanningDb P D) (sql : String) : Except String R × PlanningDb P D :=
  match planner.freshPlan s.ctx sql with
  | .error e => (.error e, s)
  | .ok plan =>
    match planner.run plan s.data with
    | .error e => (.error e, s)
    | .ok r => (.ok r, { s with planCache := s.planCache.insert sql plan })

def collectWithPlanCache (s : PlanningDb P D) (sql : String) : Except String R × PlanningDb P D :=
  if isReadOnlySql env sql then
    match s.planCache.lookup sql with
    | none => s.planAndCollect planner sql
    | some plan =>
      match planner.run plan s.data with
      | .ok r => (.ok r, s)
      | .error _ => planAndCollect planner { s with planCache := s.planCache.erase sql } sql
  else (s.answerAfresh planner sql, s)

def handlePrepare (s : PlanningDb P D) (name sqlTemplate : String) : PlanningDb P D :=
  let logicalPlan := (planner.sql s.ctx sqlTemplate).toOption
  let s := match isReadOnlySql env sqlTemplate, logicalPlan with
    | true, some plan => { s with planCache := s.planCache.insert sqlTemplate plan }
    | _, _ => s
  { s with preparedStatements := s.preparedStatements.insert name ⟨sqlTemplate, logicalPlan⟩ }

/-- What EXECUTE without parameters answers from the stored plan, if it does. -/
def executePrepared (s : PlanningDb P D) (name : String) : Option (Except String R) :=
  match s.preparedStatements.lookup name with
  | none => none
  | some stmt => if isReadOnlySql env stmt.sqlTemplate then stmt.logicalPlan.map (planner.run · s.data) else none

end PlanningDb

/-- What a session does. -/
inductive PlanEvent (P D : Type) where
  /-- A statement whose handler, flushes before it included, leaves these tables and data. -/
  | statement (stmt : PlannedStatement) (succeeds : Bool) (ctx : Map P) (data : D)
  | collect (sql : String)
  | prepare (name sqlTemplate : String)

def PlanningDb.step (s : PlanningDb P D) : PlanEvent P D → PlanningDb P D
  | .statement stmt succeeds ctx data =>
    let s := { s with ctx := ctx, data := data }
    if stmt.isMutating && succeeds then s.evictPlanCache stmt.extractMutatedTable else s
  | .collect sql => (s.collectWithPlanCache env planner sql).2
  | .prepare name sqlTemplate => s.handlePrepare env planner name sqlTemplate

end

end PotatoDB
