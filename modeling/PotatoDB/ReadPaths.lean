import PotatoDB.PlanCache
import PotatoDB.SequencesSound
import PotatoDB.TimeTravel

/-!
# The three ways to run a query

`execute` rewrites the text of a query, answers some texts without DataFusion and flushes the
tables that the text names. `execute_readonly` and `execute_stream` flush every table and give the
text to DataFusion as it is. The server sends queries to `execute_readonly` and everything else to
`execute`.
-/

namespace PotatoDB

open Oplog

/-! ## Functions in a text -/

structure FulltextIndexDef where
  tableName : String
  columns : List String

/-- `find_matching_paren`, after the opening one: the text up to the closing parenthesis, and the rest. -/
def findMatchingParen : Nat → Bool → List Char → List Char → Option (List Char × List Char)
  | _, _, _, [] => none
  | depth, quoted, acc, c :: cs =>
    if c = quoteChar then findMatchingParen depth (!quoted) (c :: acc) cs
    else if quoted then findMatchingParen depth quoted (c :: acc) cs
    else if c = '(' then findMatchingParen (depth + 1) quoted (c :: acc) cs
    else if c = ')' then
      if depth ≤ 1 then some (acc.reverse, cs) else findMatchingParen (depth - 1) quoted (c :: acc) cs
    else findMatchingParen depth quoted (c :: acc) cs

/-- A trimmed item, unless it is empty. -/
def csvItem (cur : List Char) : List (List Char) :=
  let item := trimMatches isWhitespace cur.reverse
  if item = [] then [] else [item]

def splitTopLevelCsv : Bool → Nat → List Char → List Char → List (List Char)
  | _, _, cur, [] => csvItem cur
  | true, depth, cur, [c] => splitTopLevelCsv true depth (c :: cur) []
  | true, depth, cur, c :: c' :: cs =>
    if c = quoteChar then
      if c' = quoteChar then splitTopLevelCsv true depth (c' :: c :: cur) cs
      else splitTopLevelCsv false depth (c :: cur) (c' :: cs)
    else splitTopLevelCsv true depth (c :: cur) (c' :: cs)
  | false, depth, cur, c :: cs =>
    if c = quoteChar then splitTopLevelCsv true depth (c :: cur) cs
    else if c = '(' then splitTopLevelCsv false (depth + 1) (c :: cur) cs
    else if c = ')' then splitTopLevelCsv false (depth - 1) (c :: cur) cs
    else if c = ',' ∧ depth = 0 then csvItem cur ++ splitTopLevelCsv false depth [] cs
    else splitTopLevelCsv false depth (c :: cur) cs

/-- The body of a function with the arguments of a call in the place of `$1`, `$2`, .. and of their names. -/
def UdfDef.instantiate (udf : UdfDef) (args : List (List Char)) : List Char :=
  let texts := args.map (trimMatches isWhitespace)
  let body := (texts.zipIdx 1).foldl (fun body a => replaceFrom ("$" ++ toString a.2).toList a.1 0 body) udf.body.toList
  (udf.args.zip texts).foldl (fun body a => replaceFrom a.1.toList a.2 0 body) body

/-- `last` is the character before `rest`, if there is one. -/
def expandUdfFrom (udf : UdfDef) : Nat → Option Char → List Char → Except String (List Char)
  | 0, _, rest => .ok rest
  | fuel + 1, last, rest =>
    let needle := udf.name.toList.map Char.toLower ++ ['(']
    match splitAtText needle rest with
    | none => .ok rest
    | some (before, tail) =>
      let call := (rest.drop before.length).take needle.length
      if ((before.getLast?).or last).any fun c => c.isAlphanum || c = '_' then do
        return before ++ call ++ (← expandUdfFrom udf fuel (some '(') tail)
      else
        match findMatchingParen 1 false [] tail with
        | none => .error "Unclosed function call"
        | some (source, tail) => do
          let args := splitTopLevelCsv false 0 [] source
          let expanded :=
            if args.length = udf.args.length then '(' :: udf.instantiate args ++ [')'] else call ++ source ++ [')']
          return before ++ expanded ++ (← expandUdfFrom udf fuel (some ')') tail)

def expandSingleUdfCall (sql : List Char) (udf : UdfDef) : Except String (List Char) :=
  expandUdfFrom udf sql.length none sql

/-- The longest names first; names of one length in the order of the map. -/
def expandUserDefinedFunctions (sql : List Char) (udfs : Map UdfDef) : Except String (List Char) :=
  (udfs.values.mergeSort fun a b => b.name.length ≤ a.name.length).foldlM expandSingleUdfCall sql

/-! ## Full-text search -/

/-- The condition on the columns of an index that stands for `FTS_MATCH`. -/
def fulltextPredicate (columns : List String) (term : List Char) : List Char :=
  let escaped := String.ofList (replaceFrom [quoteChar] [quoteChar, quoteChar] 0 term)
  let quote := String.singleton quoteChar
  let conditions := columns.map fun c => "CAST(\"" ++ c ++ "\" AS VARCHAR) ILIKE " ++ quote ++ "%" ++ escaped ++ "%" ++ quote
  ("(" ++ " OR ".intercalate conditions ++ ")").toList

section
variable (rules : TextRules)

def rewriteFulltextMatchSql (sql : List Char) (fulltext : List FulltextIndexDef) : List Char :=
  let upper := rules.toUppercase sql
  match textAfter "FTS_MATCH(".toList upper with
  | none => sql
  | some rest =>
    let rem := sql.drop (sql.length - rest.length)
    if ')' ∉ rem then sql
    else
      let inner := rem.takeWhile (· ≠ ')')
      let term := trimMatches (· = '"') (trimMatches (· = quoteChar) (trimMatches rules.isWhitespace inner))
      if term = [] then sql
      else
        let named (reference : String) := containsText (rules.toUppercase reference.toList) upper
        match fulltext.find? fun idx => named ("FROM \"" ++ idx.tableName ++ "\"") || named ("FROM " ++ idx.tableName) with
        | none => sql
        | some idx =>
          sql.take (sql.length - rest.length - "FTS_MATCH(".length) ++ fulltextPredicate idx.columns term ++
            rem.drop (inner.length + 1)

/-! ## EXPLAIN -/

def normalizeExplainSql (sql : List Char) : List Char :=
  let trimmed := trimMatches rules.isWhitespace sql
  let upper := rules.toUppercase trimmed
  let start := trimmed.idxOf '('
  let close := trimmed.idxOf ')'
  if "EXPLAIN (".toList.isPrefixOf upper && decide (close < trimmed.length) && decide (start < close) then
    let opts := (upper.drop (start + 1)).take (close - start - 1)
    let hasAnalyze := (opts.splitOn ',').any fun o => trimMatches rules.isWhitespace o = "ANALYZE".toList
    let rest := trimMatches rules.isWhitespace (trimmed.drop (close + 1))
    if rest = [] then trimmed
    else if hasAnalyze then "EXPLAIN ANALYZE ".toList ++ rest
    else "EXPLAIN ".toList ++ rest
  else trimmed

end

/-! ## The state -/

/-- The tables of the engine that DataFusion does not see, and a point in time. -/
inductive SpecialQuery where
  | asOf (timestampMs : Int)
  | cdc
  | systemStatus
  | pgCatalog

/-- What the parser makes of a text that reads. -/
inductive ReadStatement where
  | explain
  | several
  | other
deriving DecidableEq

structure ReadDb where
  db : Db
  planCache : Map (LogicalPlan Provider)
  fulltextIndexes : Map FulltextIndexDef
  currentUser : String

section
variable (env : Env) (rules : TextRules) (planner : Planner Provider Store Relation)
variable (special : SpecialQuery → List Char → ReadDb → Except String Relation) (readStatement : List Char → ReadStatement)

namespace ReadDb

/-- `collect_with_plan_cache`, on the tables and files of a state of the engine. -/
def collect (s : ReadDb) (db : Db) (sql : List Char) : Except String Relation :=
  (PlanningDb.collectWithPlanCache env planner ⟨db.ctx, db.store, s.planCache, ∅⟩ (String.ofList sql)).1

/-- The text after the rewriting of calls. -/
def rewriteCalls (s : ReadDb) (sql : List Char) : Except String (List Char) := do
  let upper := rules.toUppercase (sql.dropWhile rules.isWhitespace)
  let expanded ←
    if "CREATE FUNCTION ".toList.isPrefixOf upper || "DROP FUNCTION ".toList.isPrefixOf upper then pure sql
    else expandUserDefinedFunctions sql s.db.catalog.udfs
  return rewriteFulltextMatchSql rules expanded s.fulltextIndexes.values

/-- The tables that are not DataFusion's, by the text. -/
def specialQuery (upper : List Char) : Option SpecialQuery :=
  if "SELECT ".toList.isPrefixOf upper && containsText "FROM POTATODB_CDC".toList upper then some .cdc
  else if "SELECT ".toList.isPrefixOf upper && containsText "FROM POTATODB_SYSTEM_STATUS".toList upper then
    some .systemStatus
  else if earlyMarkers.any fun m => containsText m.toList upper then some .pgCatalog
  else none

/-- What `execute` answers to a text that reads. The sequences that it has advanced are not read again. -/
def executeRead (s : ReadDb) (sql : List Char) : Except String Relation := do
  let sql ← (expandNextvalCalls sql).result ⟨s.db.catalogFile, none, false⟩
  match parseAsOfTimestamp rules sql with
  | some timestampMs => special (.asOf timestampMs) sql s
  | none =>
    let sql ← s.rewriteCalls rules sql
    let trimmed := trimStatement rules sql
    (arrive env (String.ofList sql)).result s.db
    let db := (arrive env (String.ofList sql)).final s.db
    match specialQuery (rules.toUppercase trimmed) with
    | some q => special q trimmed { s with db := db }
    | none =>
      if !enforceAccess rules db.catalog s.currentUser trimmed then .error "permission denied"
      else
        match readStatement sql with
        | .several => .error "Expected exactly one SQL statement"
        | .explain => s.collect env planner db (normalizeExplainSql rules sql)
        | .other => s.collect env planner db sql

def executeReadonly (s : ReadDb) (sql : List Char) : Except String Relation :=
  if !isReadOnlySql env (String.ofList sql) then .error "execute_readonly rejects mutating SQL"
  else do
    let _ ← (flushAll env).result s.db
    s.collect env planner ((flushAll env).final s.db) sql

/-- VALUES runs without a flush before it. -/
def executeStream (s : ReadDb) (sql : List Char) : Except String Relation :=
  if isReadOnlySql env (String.ofList sql) then do
    let _ ← (flushAll env).result s.db
    let db := (flushAll env).final s.db
    planner.run (← planner.sql db.ctx (String.ofList sql)) db.store
  else if firstToken env (String.ofList sql) = "VALUES" then do
    planner.run (← planner.sql s.db.ctx (String.ofList sql)) s.db.store
  else s.executeRead env rules planner special readStatement sql

/-- `Processor::run_query`. -/
def runQuery (s : ReadDb) (sql : List Char) : Except String Relation :=
  if isReadOnlyQuery env (String.ofList sql) then s.executeReadonly env planner sql
  else s.executeRead env rules planner special readStatement sql

end ReadDb

end

end PotatoDB
