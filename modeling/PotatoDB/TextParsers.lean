import PotatoDB.Oplog
import PotatoDB.ReadPaths
import PotatoDB.Scripts
import PotatoDB.Slices

/-!
# The parsers of statement texts

`execute` and the parsers behind it look for keywords in upper- and lower-case copies of a text and
cut the text at the byte offsets they find. They log where they do, and stop where a cut is not
between two characters.
-/

namespace PotatoDB.Texts

open Oplog
open Oplog.Prog (emit check)
open Slices (bytes find rfind findChar sliceFrom sliceTo slice Kept)

/-! ## Cased copies -/

/-- What `to_uppercase` and `to_lowercase` write for a character; lower case depends on what is around it. -/
structure CaseMapping where
  upper : Char → List Char
  lower : List Char → List Char → Char → List Char
  upper_ascii : ∀ c : Char, c.toNat < 128 → upper c = [c.toUpper]
  lower_ne_nil : ∀ before after c, lower before after c ≠ []

def CaseMapping.upperPieces (m : CaseMapping) (s : List Char) : List (List Char) := s.map m.upper

def CaseMapping.lowerFrom (m : CaseMapping) : List Char → List Char → List (List Char)
  | _, [] => []
  | before, c :: cs => m.lower before cs c :: m.lowerFrom (before ++ [c]) cs

def CaseMapping.lowerPieces (m : CaseMapping) (s : List Char) : List (List Char) := m.lowerFrom [] s

def CaseMapping.toUppercase (m : CaseMapping) (s : List Char) : List Char := (m.upperPieces s).flatten

def CaseMapping.toLowercase (m : CaseMapping) (s : List Char) : List Char := (m.lowerPieces s).flatten

/-! ## Programs on texts -/

/-- Where a program cuts a text. -/
inductive Cut where
  /-- At a keyword that was found at the offset in the copy of the text. -/
  | keyword (text : List Char) (copy : List (List Char)) (offset : Nat) (needle : List Char)
  /-- At every byte, to look for a name in the copy of the text. -/
  | everywhere (text : List Char) (copy : List (List Char))
  /-- Between the first opening and the last closing parenthesis. -/
  | parentheses (text : List Char)

inductive Failure where
  | error (message : String)
  /-- A slice that panics, or a loop that does not end. -/
  | stop

instance : Machine Unit Cut := ⟨fun s _ => s⟩

abbrev P (α : Type) := Prog Unit Cut Failure α

def orStop {α : Type} (o : Option α) : P α :=
  match o with
  | some a => pure a
  | none => throw .stop

def okOr {α : Type} (o : Option α) (message : String) : P α :=
  match o with
  | some a => pure a
  | none => throw (.error message)

def fail {α : Type} (message : String) : P α := throw (.error message)

/-- The offset of a text in the copy of another, which is then cut there. -/
def findIn (text : List Char) (copy : List (List Char)) (needle : List Char) : P (Option Nat) :=
  match find needle copy.flatten with
  | none => return none
  | some i => do
    emit (.keyword text copy i needle)
    return some i

def rfindIn (text : List Char) (copy : List (List Char)) (needle : List Char) : P (Option Nat) :=
  match rfind needle copy.flatten with
  | none => return none
  | some i => do
    emit (.keyword text copy i needle)
    return some i

/-! ## Parts of texts -/

def trimStart (s : List Char) : List Char := s.dropWhile isWhitespace

def trimEnd (s : List Char) : List Char := trimEndMatches isWhitespace s

def unquote (s : List Char) : List Char := trimMatches (· = '"') s

def splitWhitespace (s : List Char) : List (List Char) := splitWords isWhitespace s

/-- `splitn(2, p)`. -/
def splitTwo (p : Char → Bool) (s : List Char) : List Char × Option (List Char) :=
  match s.dropWhile fun c => !p c with
  | [] => (s, none)
  | _ :: rest => (s.takeWhile fun c => !p c, some rest)

/-- `splitn(2, needle)`. -/
def splitTwoAt (needle : List Char) : List Char → List Char × Option (List Char)
  | [] => ([], none)
  | c :: cs =>
    if needle.isPrefixOf (c :: cs) then ([], some ((c :: cs).drop needle.length))
    else ((c :: (splitTwoAt needle cs).1), (splitTwoAt needle cs).2)

def isAsciiWhitespace (c : Char) : Bool := c = ' ' || c = '\t' || c = '\n' || c = '\x0c' || c = '\r'

def stripSuffix (ending s : List Char) : Option (List Char) :=
  if ending.isSuffixOf s then some (s.take (s.length - ending.length)) else none

def stripStart (start s : List Char) : Option (List Char) := if start.isPrefixOf s then some (s.drop start.length) else none

/-- `str::parse::<u64>`. -/
def parseU64 (s : List Char) : Option Nat :=
  let digits := (stripStart ['+'] s).getD s
  let n := digits.foldl (fun n c => n * 10 + (c.toNat - '0'.toNat)) 0
  if digits ≠ [] ∧ digits.all Char.isDigit ∧ n < 2 ^ 64 then some n else none

/-- `replacen(needle, new, 1)`. -/
def replaceFirst (needle new : List Char) : List Char → List Char
  | [] => []
  | c :: cs => if needle.isPrefixOf (c :: cs) then new ++ (c :: cs).drop needle.length else c :: replaceFirst needle new cs

def extractDollarQuotedBody (sql : List Char) : P (Option (List Char)) :=
  match find "$$".toList sql with
  | none => return none
  | some start => do
    let tail ← orStop (sliceFrom sql (start + 2))
    match find "$$".toList tail with
    | none => return none
    | some close => return some (← orStop (sliceTo tail close))

/-- The loop of `find_matching_paren`. -/
def matchParen : Nat → Bool → Nat → List Char → Option Nat
  | _, _, _, [] => none
  | depth, quoted, idx, c :: s =>
    if c = quoteChar then matchParen depth (!quoted) (idx + c.utf8Size) s
    else if quoted then matchParen depth quoted (idx + c.utf8Size) s
    else if c = '(' then matchParen (depth + 1) quoted (idx + c.utf8Size) s
    else if c = ')' then if depth - 1 = 0 then some idx else matchParen (depth - 1) quoted (idx + c.utf8Size) s
    else matchParen depth quoted (idx + c.utf8Size) s

def findMatchingParen (s : List Char) (openIdx : Nat) : Option Nat :=
  match sliceFrom s openIdx with
  | some ('(' :: rest) => matchParen 0 false openIdx ('(' :: rest)
  | _ => none

/-! ## Statements -/

/-- What the texts of a session meet. -/
structure Session where
  unicode : CaseMapping
  /-- The functions and the full-text indexes in the order of their maps. -/
  udfs : List UdfDef
  fulltext : List FulltextIndexDef
  versions : List Nat
  /-- The answer to the calls of `next_sequence_value`, in their order. -/
  nextValue : Nat → List Char → Except String Int
  parseTimestamp : List Char → Option Int
  /-- The answers to the statements of a DO block, in their order. -/
  exec : Nat → List Char → Except String Unit
  /-- Whether the handler of the statement asks for its RETURNING clause. -/
  returns : List Char → Bool

/-- What a text is taken for. -/
inductive Command where
  | asOf (timestampMs : Int) (bare : List Char)
  | selectCdc (table : Option (List Char))
  | createFunction (name : List Char) (args : List (List Char)) (returnType body : List Char)
  | dropFunction (ifExists : Bool) (name : List Char)
  | createUser (name password : List Char)
  | createProcedure (name body : List Char)
  | doBlock (stmts : List (List Char))
  | createFulltextIndex (name table : List Char) (columns : List (List Char))
  | createTrigger (name table : List Char) (event timing : String) (body : List Char)
  | dropTrigger (name : List Char)
  | savepoint (name : List Char)
  | rollbackTo (name : List Char)
  | release (name : List Char)
  | createMigration (version : Nat) (description sql : List Char)
  | migrate (target : Option Nat)
  | addReplica (url : List Char)
  | removeReplica (url : List Char)
  | returning (clause : Option (List Char))
  /-- Nothing of the text is cut at an offset. -/
  | whole

section
variable (m : CaseMapping)

def startsWith (text : List Char) (start : String) : Bool := start.toList.isPrefixOf (m.toUppercase text)

def findCi (haystack : List Char) (needleUpper : String) : P (Option Nat) :=
  findIn haystack (m.upperPieces haystack) (m.toUppercase needleUpper.toList)

/-- The text behind a start that its upper-case copy has. -/
def afterStart (text : List Char) (start : String) : P (List Char) := do
  emit (.keyword text (m.upperPieces text) 0 start.toList)
  orStop (sliceFrom text (bytes start.toList))

def savepointName (trimmed : List Char) : P (List Char) := do
  return unquote (trim (← afterStart m trimmed "SAVEPOINT "))

def rollbackToName (trimmed : List Char) : P (List Char) := do
  let rest := trim (← afterStart m trimmed "ROLLBACK TO ")
  return unquote (trim ((stripStart "SAVEPOINT ".toList rest).getD rest))

def releaseName (trimmed : List Char) : P (List Char) := do
  return unquote (trim (← afterStart m trimmed (if startsWith m trimmed "RELEASE SAVEPOINT " then "RELEASE SAVEPOINT " else "RELEASE ")))

def handleCreateMigration (versions : List Nat) (sql : List Char) : P Command := do
  let rest := trimEndMatches (· = ';') (trim (← afterStart m sql "CREATE MIGRATION "))
  let tokens := splitTwo isAsciiWhitespace rest
  let version ← okOr (parseU64 tokens.1) "CREATE MIGRATION version must be a non-negative integer"
  let afterVersion ← okOr tokens.2 "CREATE MIGRATION requires description and AS $$ sql $$"
  let asIdx ← okOr (← findIn afterVersion (m.upperPieces afterVersion) "AS $$".toList) "CREATE MIGRATION requires AS $$ ... $$"
  let description := trim (← orStop (sliceTo afterVersion asIdx))
  let body := trimEnd (← orStop (sliceFrom afterVersion (asIdx + bytes "AS $$".toList)))
  let sqlBody ← okOr (stripSuffix "$$".toList body) "CREATE MIGRATION requires closing $$"
  if version ∈ versions then fail s!"Migration version {version} already exists"
  else return .createMigration version description (trim sqlBody)

def handleMigrate (sql : List Char) : P Command := do
  let rest := trimEndMatches (· = ';') (trim (← afterStart m sql "MIGRATE"))
  if startsWith m rest "TO " then
    let v := trim (← afterStart m rest "TO ")
    return .migrate (some (← okOr (parseU64 v) "MIGRATE TO requires a valid version number"))
  else if rest = [] then return .migrate none
  else fail "MIGRATE expects optional TO <version>"

def parseCreateFunction (sql : List Char) : P Command := do
  let trimmed := trim (trimEndMatches (· = ';') (trim sql))
  if !startsWith m trimmed "CREATE FUNCTION" then fail "Expected CREATE FUNCTION"
  else
    let rest := trimStart (← afterStart m trimmed "CREATE FUNCTION")
    let openParen ← okOr (findChar (· = '(') rest) "CREATE FUNCTION requires an argument list"
    let name := unquote (trim (← orStop (sliceTo rest openParen)))
    if name = [] then fail "CREATE FUNCTION requires a function name"
    else
      let closeParen ← okOr (findMatchingParen rest openParen) "Unclosed function argument list"
      let argsRaw ← orStop (slice rest (openParen + 1) closeParen)
      let args := (splitTopLevelCsv false 0 [] argsRaw).filterMap fun arg =>
        if trim arg = [] then none else some (unquote ((splitWhitespace (trim arg)).headD []))
      let tail := trim (← orStop (sliceFrom rest (closeParen + 1)))
      let returnsIdx ← okOr (← findCi m tail "RETURNS") "CREATE FUNCTION requires RETURNS"
      let afterReturns := trimStart (← orStop (sliceFrom tail (returnsIdx + bytes "RETURNS".toList)))
      let asIdx ← okOr (← findCi m afterReturns " AS ") "CREATE FUNCTION requires AS 'body'"
      let returnType := trim (← orStop (sliceTo afterReturns asIdx))
      let bodyRaw := trim (← orStop (sliceFrom afterReturns (asIdx + bytes " AS ".toList)))
      let body := trim (unquote (trimMatches (· = quoteChar) bodyRaw))
      if body = [] then fail "CREATE FUNCTION requires a non-empty body"
      else return .createFunction name args returnType body

def eqIgnoreAsciiCase (s : List Char) (t : String) : Bool := s.map Char.toLower = t.toList.map Char.toLower

def parseDropFunction (sql : List Char) : P Command := do
  let tokens := splitWhitespace (trimEndMatches (· = ';') (trim sql))
  if tokens.length < 3 then fail "DROP FUNCTION requires a name"
  else if !eqIgnoreAsciiCase (tokens.getD 0 []) "DROP" || !eqIgnoreAsciiCase (tokens.getD 1 []) "FUNCTION" then
    fail "Expected DROP FUNCTION"
  else
    let ifExists := 5 ≤ tokens.length ∧ eqIgnoreAsciiCase (tokens.getD 2 []) "IF" ∧ eqIgnoreAsciiCase (tokens.getD 3 []) "EXISTS"
    let name ← okOr tokens[if ifExists then 4 else 2]? "DROP FUNCTION requires a function name"
    return .dropFunction ifExists (unquote name)

def handleCreateUser (sql : List Char) : P Command := do
  let tokens := splitWhitespace (trimEndMatches (· = ';') (trim sql))
  if tokens.length < 3 then fail "CREATE USER requires a name"
  else
    let name := unquote (tokens.getD 2 [])
    match ← findCi m sql "PASSWORD" with
    | none => return .createUser name []
    | some idx =>
      let rest ← orStop (sliceFrom sql (idx + bytes "PASSWORD".toList))
      return .createUser name (trimEndMatches (· = ';') (unquote (trimMatches (· = quoteChar) (trim rest))))

def handleCreateProcedure (sql : List Char) : P Command := do
  let trimmed := trimEndMatches (· = ';') (trim sql)
  if !startsWith m trimmed "CREATE PROCEDURE " then fail "Expected CREATE PROCEDURE"
  else
    let rest := trim (← afterStart m trimmed "CREATE PROCEDURE ")
    let nameEnd ← okOr (findChar (fun c => c = '(' || isWhitespace c) rest) "CREATE PROCEDURE requires a name"
    let name := unquote (← orStop (sliceTo rest nameEnd))
    let body ← okOr (← extractDollarQuotedBody trimmed) "CREATE PROCEDURE requires $$...$$"
    return .createProcedure name body

def handleCreateTrigger (sql : List Char) : P Command := do
  let trimmed := trimEndMatches (· = ';') (trim sql)
  if !startsWith m trimmed "CREATE TRIGGER " then fail "Expected CREATE TRIGGER"
  else
    let named := trim (← afterStart m trimmed "CREATE TRIGGER ")
    let nameEnd ← okOr (findChar isWhitespace named) "CREATE TRIGGER requires trigger name"
    let name := unquote (← orStop (sliceTo named nameEnd))
    let rest := trim (← orStop (sliceFrom named nameEnd))
    let timing ← okOr
      (if startsWith m rest "BEFORE " then some "BEFORE" else if startsWith m rest "AFTER " then some "AFTER" else none)
      "CREATE TRIGGER requires BEFORE or AFTER"
    -- the text is cut behind six bytes, with or without the blank
    let afterTiming := trim (← afterStart m rest (if timing = "BEFORE" then "BEFORE" else "AFTER "))
    let event ← okOr
      (if startsWith m afterTiming "INSERT " then some "INSERT" else if startsWith m afterTiming "UPDATE " then some "UPDATE"
        else if startsWith m afterTiming "DELETE " then some "DELETE" else none)
      "CREATE TRIGGER requires INSERT, UPDATE, or DELETE"
    let afterEvent ← afterStart m afterTiming event
    let onIdx ← okOr (← findCi m afterEvent " ON ") "CREATE TRIGGER requires ON"
    let tablePart := trim (← orStop (sliceFrom afterEvent (onIdx + bytes " ON ".toList)))
    let execIdx ← okOr (← findCi m tablePart " EXECUTE ") "CREATE TRIGGER requires EXECUTE"
    let table := unquote (trim (← orStop (sliceTo tablePart execIdx)))
    let body ← okOr (← extractDollarQuotedBody trimmed) "CREATE TRIGGER requires $$...$$ body"
    return .createTrigger name table event timing body

def handleDropTrigger (sql : List Char) : P Command := do
  let trimmed := trimEndMatches (· = ';') (trim sql)
  if !startsWith m trimmed "DROP TRIGGER " then fail "Expected DROP TRIGGER"
  else
    let name ← okOr (splitWhitespace (← afterStart m trimmed "DROP TRIGGER ")).head? "DROP TRIGGER requires trigger name"
    return .dropTrigger (unquote name)

def handleCreateFulltextIndex (sql : List Char) : P Command := do
  let trimmed := trimEndMatches (· = ';') (trim sql)
  if !startsWith m trimmed "CREATE FULLTEXT INDEX " then fail "Expected CREATE FULLTEXT INDEX"
  else
    let rest := trim (← afterStart m trimmed "CREATE FULLTEXT INDEX ")
    let onIdx ← okOr (← findCi m rest " ON ") "CREATE FULLTEXT INDEX requires ON"
    let name := unquote (trim (← orStop (sliceTo rest onIdx)))
    let onRest := trim (← orStop (sliceFrom rest (onIdx + bytes " ON ".toList)))
    let opening ← okOr (findChar (· = '(') onRest) "FULLTEXT INDEX requires column list"
    let closing ← okOr (rfind [')'] onRest) "FULLTEXT INDEX requires column list"
    let table := unquote (trim (← orStop (sliceTo onRest opening)))
    emit (.parentheses onRest)
    let columns := (splitTopLevelCsv false 0 [] (← orStop (slice onRest (opening + 1) closing))).map fun c => unquote (trim c)
    if columns.filter (· ≠ []) = [] then fail "FULLTEXT INDEX requires at least one column"
    else return .createFulltextIndex name table (columns.filter (· ≠ []))

def handleAddReplica (sql : List Char) : P Command := do
  let rest := trimEndMatches (· = ';') (trim (← afterStart m sql "ADD REPLICA "))
  let url := unquote (trimMatches (· = quoteChar) (trim rest))
  if url = [] then fail "ADD REPLICA requires a URL" else return .addReplica url

def handleRemoveReplica (sql : List Char) : P Command := do
  let rest := trimEndMatches (· = ';') (trim (← afterStart m sql "REMOVE REPLICA "))
  let url := unquote (trimMatches (· = quoteChar) (trim rest))
  if url = [] then fail "REMOVE REPLICA requires a URL" else return .removeReplica url

def handleSelectCdc (sql : List Char) : P Command := do
  match ← findIn sql (m.upperPieces sql) "WHERE".toList with
  | none => return .selectCdc none
  | some idx =>
    let whereClause ← orStop (sliceFrom sql (idx + bytes "WHERE".toList))
    match ← findIn whereClause (m.upperPieces whereClause) "TABLE".toList with
    | none => return .selectCdc none
    | some eqIdx =>
      let rest ← orStop (sliceFrom whereClause (eqIdx + bytes "TABLE".toList))
      match findChar (· = '=') rest with
      | none => return .selectCdc none
      | some pos =>
        let table ← orStop (sliceFrom rest (pos + 1))
        return .selectCdc (some (unquote (trimMatches (· = quoteChar) (trimEndMatches (· = ';') (trim table)))))

def extractReturningClause (sql : List Char) : P (Option (List Char)) := do
  match ← findIn sql (m.upperPieces sql) " RETURNING ".toList with
  | none => return none
  | some idx =>
    let clause := trimEndMatches (· = ';') (trim (← orStop (sliceFrom sql (idx + bytes " RETURNING ".toList))))
    return if clause = [] then none else some clause

/-! ## DO -/

def utf8 (s : List Char) : List UInt8 := s.flatMap String.utf8EncodeChar

def isPlpgsqlIdentifierChar (b : UInt8) : Bool := (Char.ofNat b.toNat).isAlphanum || b = 95

/-- Whether a name stands at the byte; a name that is longer than the rest is not compared. -/
def standsAt (sql sqlLower varLower : List Char) (i : Nat) : P Bool :=
  if i + bytes varLower ≤ bytes sql then orStop ((slice sqlLower i (i + bytes varLower)).map (· == varLower)) else return false

/-- The loop of `substitute_plpgsql_var` from a byte on, with as many rounds as there are bytes. -/
def substituteFrom (sql sqlLower varLower value : List Char) : Nat → List Char → Nat → P (List Char)
  | rounds, result, i =>
    if bytes sql ≤ i then return result
    else
      match rounds with
      | 0 => throw .stop
      | rounds + 1 => do
        let len := bytes varLower
        let here ← standsAt sql sqlLower varLower i
        let prevOk := i = 0 ∨ isPlpgsqlIdentifierChar ((utf8 sql).getD (i - 1) 0) = false
        let nextOk := bytes sql ≤ i + len ∨ isPlpgsqlIdentifierChar ((utf8 sql).getD (i + len) 0) = false
        if here = true ∧ prevOk ∧ nextOk then substituteFrom sql sqlLower varLower value rounds (result ++ value) (i + len)
        else substituteFrom sql sqlLower varLower value rounds (result ++ [Char.ofNat ((utf8 sql).getD i 0).toNat]) (i + 1)

def substitutePlpgsqlVar (sql varName value : List Char) : P (List Char) :=
  if varName = [] then return sql
  else do
    emit (.everywhere sql (m.lowerPieces sql))
    substituteFrom sql (m.toLowercase sql) (m.toLowercase varName) value (bytes sql) [] 0

def declareBody (declareSection : List Char) : P (List Char) :=
  if startsWith m declareSection "DECLARE" then do return trim (← afterStart m declareSection "DECLARE") else return declareSection

/-- The variables of a DECLARE section with their values. -/
def declaredVars (body : List Char) : List (List Char × List Char) :=
  ((body.splitOn ';').map trim).foldl (fun vars line =>
    let (part, value) := splitTwoAt ":=".toList line
    let name := m.toLowercase ((splitWhitespace part).headD [])
    if line = [] ∨ name = [] then vars
    else (vars.filter fun v => v.1 ≠ name) ++ [(name, (value.map trim).getD "NULL".toList)]) []

/-- Writes the values of variables for their names, one variable after the other. -/
def substituteVars (vars : List (List Char × List Char)) (stmt : List Char) : P (List Char) :=
  vars.foldlM (fun resolved v => substitutePlpgsqlVar m (replaceFrom ('$' :: v.1) v.2 0 resolved) v.1 v.2) stmt

/-- What stands before BEGIN, and from there to the last END. -/
def blockSections (body : List Char) : P (List Char × List Char) := do
  match ← findCi m body "BEGIN" with
  | none => return ([], body)
  | some beginIdx =>
    let declare := trim (← orStop (sliceTo body beginIdx))
    let exec := trim (← orStop (sliceFrom body (beginIdx + bytes "BEGIN".toList)))
    match ← rfindIn exec (m.upperPieces exec) "END".toList with
    | none => return (declare, exec)
    | some endIdx => return (declare, trim (← orStop (sliceTo exec endIdx)))

/-- The statements that are executed, up to the first that fails. -/
def runStatements (exec : Nat → List Char → Except String Unit) (vars : List (List Char × List Char)) :
    Nat → List (List Char) → P (List (List Char))
  | _, [] => return []
  | k, stmt :: stmts => do
    let resolved ← substituteVars m vars stmt
    if startsWith m (trim resolved) "RAISE " then runStatements exec vars k stmts
    else
      match exec k resolved with
      | .error e => fail e
      | .ok () => return resolved :: (← runStatements exec vars (k + 1) stmts)

def handleDoBlock (exec : Nat → List Char → Except String Unit) (sql : List Char) : P Command := do
  let body ← okOr (← extractDollarQuotedBody sql) "DO requires $$...$$ body"
  let (declareSection, execSection) ← blockSections m body
  let declared ← declareBody m declareSection
  -- the longest names first
  let vars := (declaredVars m declared).mergeSort fun a b => bytes b.1 ≤ bytes a.1
  return .doBlock (← runStatements m exec vars 0 (splitSqlStatements execSection))

end

/-! ## The rewriting of a text -/

section
variable (s : Session)

/-- The loop of `expand_nextval_calls`, with as many rounds as there are characters. -/
def expandNextvalFrom : Nat → Nat → List Char → Nat → P (List Char)
  | 0, _, _, _ => throw .stop
  | rounds + 1, calls, out, searchFrom => do
    let haystack ← orStop (sliceFrom out searchFrom)
    match ← findIn haystack (s.unicode.lowerPieces haystack) "nextval('".toList with
    | none => return out
    | some relStart =>
      let start := searchFrom + relStart
      let nameStart := start + bytes "nextval('".toList
      let call ← orStop (sliceFrom out nameStart)
      match ← findIn call (s.unicode.lowerPieces call) "')".toList with
      | none => return out
      | some nameEndRel =>
        let nameEnd := nameStart + nameEndRel
        let seqName ← orStop (slice out nameStart nameEnd)
        match s.nextValue calls seqName with
        | .error e => fail e
        | .ok value =>
          let replacement := (toString value).toList
          let head ← orStop (sliceTo out start)
          let tail ← orStop (sliceFrom out (nameEnd + 2))
          expandNextvalFrom rounds (calls + 1) (head ++ replacement ++ tail) (start + bytes replacement)

def expandNextvalCalls (sql : List Char) : P (List Char) :=
  if (find "nextval('".toList (s.unicode.toLowercase sql)).isNone then return sql
  else expandNextvalFrom s (sql.length + 1) 0 sql 0

def parseAsOfTimestamp (sql : List Char) : P (Option Int) := do
  match ← findIn sql (s.unicode.upperPieces sql) " AS OF TIMESTAMP ".toList with
  | none => return none
  | some idx =>
    let rest := trimStart (← orStop (sliceFrom sql (idx + bytes " AS OF TIMESTAMP ".toList)))
    match stripStart [quoteChar] rest with
    | some stripped =>
      match findChar (· = quoteChar) stripped with
      | none => return none
      | some close =>
        let token ← orStop (sliceTo stripped close)
        return if token = [] then none else s.parseTimestamp token
    | none =>
      let token := trimEndMatches (· = ';') ((splitWhitespace rest).headD [])
      return if token = [] then none else s.parseTimestamp token

def stripAsOfTimestamp (sql : List Char) : P (List Char) := do
  match ← findIn sql (s.unicode.upperPieces sql) " AS OF TIMESTAMP ".toList with
  | none => return sql
  | some idx =>
    let rest ← orStop (sliceFrom sql (idx + bytes " AS OF TIMESTAMP ".toList))
    let skip := match stripStart [quoteChar] rest with
      | some stripped => ((findChar (· = quoteChar) stripped).map (· + 2)).getD 0
      | none => (find [' '] rest).getD (bytes rest)
    let head ← orStop (sliceTo sql idx)
    return head ++ (sliceFrom rest skip).getD []

/-- A call with as many arguments as the function, as its body; any other as it is. -/
def expandedCall (udf : UdfDef) (sql : List Char) (args : List (List Char)) (start close : Nat) : P (List Char) :=
  if args.length = udf.args.length then return '(' :: udf.instantiate args ++ [')'] else orStop (slice sql start (close + 1))

/-- The loop of `expand_single_udf_call` from a byte on, with as many rounds as there are characters. -/
def expandUdfFrom (udf : UdfDef) (sql needle : List Char) (lower : List (List Char)) : Nat → List Char → Nat → P (List Char)
  | rounds, out, i =>
    if bytes sql ≤ i then return out
    else
      match rounds with
      | 0 => throw .stop
      | rounds + 1 => do
        emit (.keyword sql lower i [])
        match find needle (← orStop (sliceFrom lower.flatten i)) with
        | none => return out ++ (← orStop (sliceFrom sql i))
        | some rel =>
          let start := i + rel
          emit (.keyword sql lower start needle)
          if ((← orStop (sliceTo sql start)).getLast?).any fun c => c.isAlphanum || c = '_' then
            let skipped ← orStop (slice sql i (start + bytes needle))
            expandUdfFrom udf sql needle lower rounds (out ++ skipped) (start + bytes needle)
          else
            let opening := start + bytes udf.name.toList
            let close ← okOr (findMatchingParen sql opening) "Unclosed function call"
            let args := splitTopLevelCsv false 0 [] (← orStop (slice sql (opening + 1) close))
            let before ← orStop (slice sql i start)
            let call ← expandedCall udf sql args start close
            expandUdfFrom udf sql needle lower rounds (out ++ before ++ call) (close + 1)

def expandSingleUdfCall (sql : List Char) (udf : UdfDef) : P (List Char) :=
  expandUdfFrom udf sql (s.unicode.toLowercase udf.name.toList ++ ['(']) (s.unicode.lowerPieces sql) sql.length [] 0

def expandUserDefinedFunctions (sql : List Char) : P (List Char) :=
  (s.udfs.mergeSort fun a b => bytes b.name.toList ≤ bytes a.name.toList).foldlM (expandSingleUdfCall s) sql

/-- The texts that define or drop a function keep the calls in them. -/
def expandCalls (sql : List Char) : P (List Char) :=
  if startsWith s.unicode (trimStart sql) "CREATE FUNCTION " || startsWith s.unicode (trimStart sql) "DROP FUNCTION " then return sql
  else expandUserDefinedFunctions s sql

def rewriteFulltextMatchSql (sql : List Char) : P (List Char) := do
  let upper := s.unicode.toUppercase sql
  match ← findIn sql (s.unicode.upperPieces sql) "FTS_MATCH(".toList with
  | none => return sql
  | some opening =>
    let startArg := opening + bytes "FTS_MATCH(".toList
    let rem ← orStop (sliceFrom sql startArg)
    match findChar (· = ')') rem with
    | none => return sql
    | some close =>
      let term := unquote (trimMatches (· = quoteChar) (trim (← orStop (sliceTo rem close))))
      if term = [] then return sql
      else
        let named (reference : String) := containsText (s.unicode.toUppercase reference.toList) upper
        match s.fulltext.find? fun idx => named ("FROM \"" ++ idx.tableName ++ "\"") || named ("FROM " ++ idx.tableName) with
        | none => return sql
        | some idx =>
          let call ← orStop (slice sql opening (startArg + close + 1))
          return replaceFirst call (fulltextPredicate idx.columns term) sql

/-! ## The dispatch -/

/-- The statements behind the tests of `execute` that cut nothing. -/
def isWhole (upper : List Char) : Bool :=
  ["CREATE ROLE ", "GRANT ", "REVOKE ", "LISTEN ", "NOTIFY ", "CALL ", "TRUNCATE ", "REFRESH MATERIALIZED VIEW "].any
    (fun start => start.toList.isPrefixOf upper) || upper = "CHECKPOINT".toList

def starts (upper : List Char) (start : String) : Bool := start.toList.isPrefixOf upper

def has (upper : List Char) (text : String) : Bool := containsText text.toList upper

/-- The tests on the upper-case text from SAVEPOINT on. -/
def dispatchLater (sql trimmed upper : List Char) : P Command :=
  if starts upper "SAVEPOINT " then do return .savepoint (← savepointName s.unicode trimmed)
  else if starts upper "ROLLBACK TO " then do return .rollbackTo (← rollbackToName s.unicode trimmed)
  else if starts upper "RELEASE SAVEPOINT " || starts upper "RELEASE " then do return .release (← releaseName s.unicode trimmed)
  else if starts upper "CREATE MIGRATION " then handleCreateMigration s.unicode s.versions trimmed
  else if upper = "MIGRATE".toList || starts upper "MIGRATE " then handleMigrate s.unicode trimmed
  else if starts upper "ADD REPLICA " then handleAddReplica s.unicode trimmed
  else if starts upper "REMOVE REPLICA " then handleRemoveReplica s.unicode trimmed
  else if isWhole upper then return .whole
  else if s.returns sql then do return .returning (← extractReturningClause s.unicode sql)
  else return .whole

/-- The tests on the upper-case text, in their order. -/
def dispatchText (sql trimmed upper : List Char) : P Command :=
  if upper = "FLUSH".toList || starts upper "FLUSH " then return .whole
  else if starts upper "SELECT " && has upper "FROM POTATODB_CDC" then handleSelectCdc s.unicode trimmed
  else if starts upper "SELECT " && has upper "FROM POTATODB_SYSTEM_STATUS" then return .whole
  else if has upper "PG_CATALOG." || has upper "PG_TYPE" || has upper "PG_CLASS" || has upper "PG_NAMESPACE" ||
      has upper "PG_ATTRIBUTE" then return .whole
  else if starts upper "CREATE FUNCTION " then parseCreateFunction s.unicode trimmed
  else if starts upper "DROP FUNCTION " then parseDropFunction trimmed
  else if starts upper "CREATE USER " then handleCreateUser s.unicode trimmed
  else if starts upper "CREATE PROCEDURE " then handleCreateProcedure s.unicode trimmed
  else if starts upper "DO $$" then handleDoBlock s.unicode s.exec trimmed
  else if starts upper "CREATE FULLTEXT INDEX " then handleCreateFulltextIndex s.unicode trimmed
  else if starts upper "CREATE TRIGGER " then handleCreateTrigger s.unicode trimmed
  else if starts upper "DROP TRIGGER " then handleDropTrigger s.unicode trimmed
  else dispatchLater s sql trimmed upper

def dispatch (sql : List Char) : P Command :=
  let trimmed := trim (trimEndMatches (· = ';') (trim sql))
  dispatchText s sql trimmed (s.unicode.toUppercase trimmed)

/-- What `execute` takes a text for. -/
def execute (sql : List Char) : P Command := do
  let effective ← expandNextvalCalls s sql
  match ← parseAsOfTimestamp s effective with
  | some timestampMs => return .asOf timestampMs (← stripAsOfTimestamp s effective)
  | none =>
    let expanded ← expandCalls s effective
    dispatch s (← rewriteFulltextMatchSql s expanded)

end

end PotatoDB.Texts
