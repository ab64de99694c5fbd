import PotatoDB.PlanCache

/-!
# Snapshots and AS OF TIMESTAMP

Snapshots keep the rows of every table. A query about a point in time runs on tables made of a
snapshot, which are registered under names of their own; their names are put into the text of the
query by replacement. SQL texts are parsed outside the engine, into the tables they refer to and a
body that refers to these by position.
-/

namespace PotatoDB

/-! ## Texts -/

/-- Positions are counted in characters, which upper case is taken to keep. -/
def stripAsOfTimestamp (toUppercase : String → String) (sql : String) : String :=
  let marker := " AS OF TIMESTAMP ".toList
  let upper := (toUppercase sql).toList
  match textAfter marker upper with
  | none => sql
  | some rest =>
    let idx := upper.length - rest.length - marker.length
    let after := sql.toList.drop (idx + marker.length)
    let skip :=
      if after.head? = some quoteChar then
        if quoteChar ∈ after.tail then 1 + after.tail.idxOf quoteChar + 1 else 0
      else after.idxOf ' '
    String.ofList (sql.toList.take idx ++ after.drop skip)

/-- `temp_name`. -/
def asofName (table : String) : String := "__potato_asof_" ++ table

/-- What the loop over the tables of a snapshot does to the text. -/
def replaceTable (text table : String) : String :=
  let new := asofName table
  let text := replaceText text s!"FROM \"{table}\"" s!"FROM \"{new}\""
  let text := replaceText text s!"JOIN \"{table}\"" s!"JOIN \"{new}\""
  let text := replaceText text s!"FROM {table}" s!"FROM \"{new}\""
  replaceText text s!"JOIN {table}" s!"JOIN \"{new}\""

/-! ## Parsed queries -/

structure ParsedQuery (Q : Type) where
  /-- The tables it refers to, in order. -/
  tables : List String
  body : Q
deriving DecidableEq

/-- The SQL parser, and DataFusion on parsed queries. -/
structure SqlFront (P D Q R : Type) where
  parse : String → Except String (ParsedQuery Q)
  plan : Q → List (Option P) → Except String Unit
  collect : Q → List (Option P) → D → Except String R
  rewriteDateSubtraction : String → Option String

section
variable {P D Q R : Type} (front : SqlFront P D Q R)

def SqlFront.Refers (sql n : String) : Prop := ∃ q, front.parse sql = .ok q ∧ n ∈ q.tables

theorem SqlFront.tables_congr {sql : String} {ctx ctx' : Map P} (h : ∀ n, front.Refers sql n → ctx.lookup n = ctx'.lookup n)
    {q : ParsedQuery Q} (hq : front.parse sql = .ok q) : q.tables.map ctx.lookup = q.tables.map ctx'.lookup :=
  List.map_congr_left fun n hn => h n ⟨q, hq, hn⟩

def SqlFront.planner : Planner P D R where
  plan := fun sql ctx =>
    match front.parse sql with
    | .error e => .error e
    | .ok q => front.plan q.body (q.tables.map ctx.lookup)
  collect := fun sql ctx data =>
    match front.parse sql with
    | .error e => .error e
    | .ok q => front.collect q.body (q.tables.map ctx.lookup) data
  reads := front.Refers
  plan_congr := by
    intro sql ctx ctx' h
    cases hq : front.parse sql with
    | error e => rfl
    | ok q =>
      dsimp only
      rw [front.tables_congr h hq]
  collect_congr := by
    intro sql ctx ctx' data h
    cases hq : front.parse sql with
    | error e => rfl
    | ok q =>
      dsimp only
      rw [front.tables_congr h hq]
  rewriteDateSubtraction := front.rewriteDateSubtraction

end

/-! ## The state -/

structure DbSnapshot where
  timestampMs : Int
  tables : Map (List RecordBatch)
  /-- The columns that the tables had. The engine does not keep them; they say what an empty table was. -/
  columns : Map Schema
deriving DecidableEq

/-- One step of `max_by_key`, which returns the last of several greatest elements. -/
def later (best : Option DbSnapshot) (snapshot : DbSnapshot) : Option DbSnapshot :=
  match best with
  | none => some snapshot
  | some b => if b.timestampMs ≤ snapshot.timestampMs then some snapshot else some b

structure TimeTravelDb (P D : Type) where
  planning : PlanningDb P D
  /-- The columns of the tables of the catalog. -/
  tables : Map Schema
  snapshots : List DbSnapshot
  snapshotRetentionMs : Int
  snapshotsEnabled : Bool

/-- The order in which a `HashMap` is iterated. -/
structure HashOrder where
  order : List (String × List RecordBatch) → List (String × List RecordBatch)
  perm : ∀ l, (order l).Perm l

/-- `i64::saturating_sub`. -/
def saturatingSub (a b : Int) : Int := max (-(2 ^ 63)) (min (2 ^ 63 - 1) (a - b))

/-- `register_table` fails for a name that is taken, and the loop ends there. -/
def registerAsOf {P : Type} : Map P → List (String × P) → Map P × Bool
  | ctx, [] => (ctx, true)
  | ctx, (table, provider) :: rest =>
    if (ctx.lookup (asofName table)).isSome then (ctx, false)
    else registerAsOf (ctx.insert (asofName table) provider) rest

section
variable {P D Q : Type} (env : Env) (front : SqlFront P D Q (List RecordBatch))
variable (memTable : Schema → List RecordBatch → P) (hash : HashOrder)

namespace TimeTravelDb

/-- The rows that `SELECT *` finds in a table. -/
def readTable (s : TimeTravelDb P D) (table : String) : Except String (List RecordBatch) := do
  front.planner.run (← front.planner.sql s.planning.ctx s!"SELECT * FROM \"{table}\"") s.planning.data

def captureSnapshot (s : TimeTravelDb P D) (now : Int) : Except String (TimeTravelDb P D) := do
  let tables ← s.tables.keys.foldlM (fun (tables : Map (List RecordBatch)) table => do
    return tables.insert table (← s.readTable front table)) ∅
  return { s with
    snapshots := (s.snapshots ++ [(⟨now, tables, s.tables⟩ : DbSnapshot)]).dropWhile fun snapshot =>
      saturatingSub now snapshot.timestampMs > s.snapshotRetentionMs }

/-- `let _ = self.capture_snapshot().await`. -/
def tryCapture (s : TimeTravelDb P D) (now : Int) : TimeTravelDb P D := (s.captureSnapshot front now).toOption.getD s

def enableSnapshots (s : TimeTravelDb P D) (now : Int) : TimeTravelDb P D :=
  if s.snapshotsEnabled then s else tryCapture front { s with snapshotsEnabled := true } now

def snapshotAsOf (s : TimeTravelDb P D) (timestampMs : Int) : Option DbSnapshot :=
  (s.snapshots.filter (·.timestampMs ≤ timestampMs)).foldl later none

/-- The tables of a snapshot that are registered. One without rows has the columns of the table in the catalog, and is
passed over when that is gone. -/
def registrations (s : TimeTravelDb P D) (snapshot : DbSnapshot) : List (String × P) :=
  (hash.order snapshot.tables.pairs).filterMap fun (table, batches) =>
    match batches.head?, s.tables.lookup table with
    | some first, _ => some (table, memTable first.schema batches)
    | none, some schema => some (table, memTable schema batches)
    | none, none => none

def rewriteAsOf (s : TimeTravelDb P D) (snapshot : DbSnapshot) (bareSql : String) : String :=
  (s.registrations memTable hash snapshot).foldl (fun text r => replaceTable text r.1) bareSql

/-- The registered tables, with those of a snapshot under names of their own; whether none of the names was taken. -/
def asofCtx (s : TimeTravelDb P D) (snapshot : DbSnapshot) : Map P × Bool :=
  registerAsOf s.planning.ctx (s.registrations memTable hash snapshot)

def executeAsOfTimestamp (s : TimeTravelDb P D) (sql : String) (timestampMs now : Int) :
    Except String (List RecordBatch) × TimeTravelDb P D :=
  let s := s.enableSnapshots front now
  match s.snapshotAsOf timestampMs with
  | none => (.error "No snapshot available for requested AS OF timestamp", s)
  | some snapshot =>
    let bareSql := stripAsOfTimestamp env.toUppercase sql
    let (ctx, registered) := s.asofCtx memTable hash snapshot
    if registered then
      let (result, planning) := PlanningDb.collectWithPlanCache env front.planner { s.planning with ctx := ctx }
        (s.rewriteAsOf memTable hash snapshot bareSql)
      let ctx := (s.registrations memTable hash snapshot).foldl (fun ctx r => ctx.erase (asofName r.1)) planning.ctx
      (result, { s with planning := { planning with ctx := ctx } })
    else (.error "The table already exists", { s with planning := { s.planning with ctx := ctx } })

end TimeTravelDb

inductive TimeTravelEvent (P D : Type) where
  /-- Any other statement, query or PREPARE, and the columns of the tables after it. -/
  | session (event : PlanEvent P D) (tables : Map Schema)
  /-- What `execute` does after a mutating statement, and COMMIT. -/
  | capture (now : Int)
  | asOf (sql : String) (timestampMs now : Int)

def TimeTravelDb.step (s : TimeTravelDb P D) : TimeTravelEvent P D → TimeTravelDb P D
  | .session event tables => { s with planning := s.planning.step env front.planner event, tables := tables }
  | .capture now => if s.snapshotsEnabled then s.tryCapture front now else s
  | .asOf sql timestampMs now => (s.executeAsOfTimestamp env front memTable hash sql timestampMs now).2

end

end PotatoDB
