import PotatoDB.Stripping
import PotatoDB.TextParsers

/-!
# The query editor of the terminal

The editor holds the lines of a query and a cursor, whose column is a byte offset. Each key changes
them through cuts that fail where the offset is inside a character.
-/

namespace PotatoDB.Tui

open Slices (bytes sliceFrom sliceTo)
open Texts (CaseMapping)

structure Completion where
  startCol : Nat
  candidates : List (List Char)
  index : Nat

/-- What the editor reads and changes. -/
structure App where
  inputLines : List (List Char)
  cursorRow : Nat
  cursorCol : Nat
  history : List (List Char)
  historyPos : Option Nat
  completion : Option Completion
  tables : List (List Char)
  selectedTable : Nat
  /-- The columns of the cached tables, in the order of the map. -/
  schemaCache : List (List (List Char))

inductive Action where
  | none
  | execute (sql : List Char)

inductive KeyModifiers where
  | none
  | shift
  | control
  | alt
  /-- Several at once, and the others. -/
  | mixed
deriving DecidableEq

inductive KeyCode where
  | char (c : Char)
  | f (n : Nat)
  | enter
  | backspace
  | delete
  | up
  | down
  | left
  | right
  | home
  | endKey
  | other

/-- A key that `handle_query_key` gets, or a completion. -/
inductive Event where
  | key (modifiers : KeyModifiers) (code : KeyCode)
  | tab

/-! ## Texts with a cursor -/

/-- `String::truncate`. -/
def truncate (s : List Char) (i : Nat) : Option (List Char) := if bytes s < i then some s else sliceTo s i

/-- `String::replace_range`. -/
def replaceRange (s : List Char) (i j : Nat) (text : List Char) : Option (List Char) :=
  if i ≤ j then do
    let before ← sliceTo s i
    let rest ← sliceFrom s j
    some (before ++ text ++ rest)
  else none

/-- `String::insert_str`. -/
def insertStr (s : List Char) (i : Nat) (text : List Char) : Option (List Char) := replaceRange s i i text

/-- `String::remove`. -/
def removeChar (s : List Char) (i : Nat) : Option (List Char) := do
  let before ← sliceTo s i
  match ← sliceFrom s i with
  | [] => none
  | _ :: rest => some (before ++ rest)

def isWord (c : Char) : Bool := c.isAlphanum || c = '_'

/-- The offset of the last character that is not of a word. -/
def rfindBreak (s : List Char) : Option Nat :=
  match s.reverse.dropWhile isWord with
  | [] => none
  | _ :: rest => some (bytes rest)

def sqlKeywords : List String :=
  ["SELECT", "FROM", "WHERE", "INSERT", "INTO", "VALUES", "UPDATE", "SET", "DELETE", "CREATE", "DROP", "ALTER", "TABLE", "INDEX",
    "VIEW", "JOIN", "LEFT", "RIGHT", "INNER", "OUTER", "CROSS", "ON", "AND", "OR", "NOT", "IN", "IS", "NULL", "AS", "ORDER",
    "BY", "GROUP", "HAVING", "LIMIT", "OFFSET", "ASC", "DESC", "DISTINCT", "COUNT", "SUM", "AVG", "MIN", "MAX", "CASE", "WHEN",
    "THEN", "ELSE", "END", "BEGIN", "COMMIT", "ROLLBACK", "PRIMARY", "KEY", "UNIQUE", "CHECK", "FOREIGN", "REFERENCES",
    "CONSTRAINT", "DEFAULT", "IF", "EXISTS", "LIKE", "ILIKE", "BETWEEN", "UNION", "ALL", "ANY", "SOME", "WITH", "RECURSIVE",
    "RETURNING", "EXPLAIN", "ANALYZE", "VACUUM", "TRUNCATE", "COPY", "GRANT", "REVOKE", "CASCADE", "RESTRICT", "INT", "INTEGER",
    "BIGINT", "SMALLINT", "VARCHAR", "TEXT", "BOOL", "BOOLEAN", "FLOAT", "DOUBLE", "DECIMAL", "DATE", "TIMESTAMP", "UUID",
    "SERIAL", "TRUE", "FALSE", "COALESCE", "CAST", "EXTRACT", "INTERVAL", "SEQUENCE", "FUNCTION", "PROCEDURE", "CALL", "DO",
    "PREPARE", "EXECUTE", "MATERIALIZED", "REFRESH", "FLUSH", "SHOW", "USE", "DESCRIBE", "NOTIFY", "LISTEN", "OVER", "PARTITION",
    "ROW_NUMBER", "RANK", "LAG", "LEAD", "NTILE", "WINDOW", "ROWS", "RANGE", "PRECEDING", "FOLLOWING", "UNBOUNDED", "CURRENT",
    "CONFLICT", "NOTHING", "UPSERT"]

def historyMax : Nat := 1000

namespace App

def inputText (a : App) : List Char := ['\n'].intercalate a.inputLines

def currentLine (a : App) : Option (List Char) := a.inputLines[a.cursorRow]?

def saveHistoryEntry (a : App) (sql : List Char) : App :=
  let entry := trim sql
  if entry = [] then a
  else
    let history := if a.history.getLast? = some entry then a.history else a.history ++ [entry]
    { a with history := history.drop (history.length - historyMax), historyPos := none }

def clearInput (a : App) : App := { a with inputLines := [[]], cursorRow := 0, cursorCol := 0, completion := none }

def dismissCompletion (a : App) : App := { a with completion := none }

def tryExecute (a : App) : App × Action :=
  let raw := a.inputText
  let trimmed := trim raw
  if trimmed = [] then (a, .none)
  else
    let cleared := (a.saveHistoryEntry raw).clearInput
    if trimmed.head? = some '\\' then (cleared, .execute trimmed)
    else
      let sql := stripSqlComments raw
      if sql = [] then (cleared, .none) else (cleared, .execute sql)

/-! ## Completion -/

def wordBeforeCursor (a : App) : Option (Nat × List Char) := do
  let before ← sliceTo (← a.currentLine) a.cursorCol
  let start := match rfindBreak before with
    | none => 0
    | some i => i + 1
  some (start, ← sliceFrom before start)

def buildCandidates (m : CaseMapping) (a : App) (word : List Char) : List (List Char) :=
  let upper := m.toUppercase word
  let names := (a.tables ++ a.schemaCache.flatten).filter fun n => upper.isPrefixOf (m.toUppercase n)
  let keywords := (sqlKeywords.map String.toList).filter fun k => upper.isPrefixOf k
  let shown := keywords.map fun k => if word.head?.any Char.isLower then k.map Char.toLower else k
  (names ++ shown).eraseDups.mergeSort fun n n' =>
    if a.tables.contains n = a.tables.contains n' then String.ofList n ≤ String.ofList n' else a.tables.contains n

def tabComplete (m : CaseMapping) (a : App) : Option App :=
  match a.completion with
  | some comp =>
    if comp.candidates = [] then some { a with completion := none }
    else do
      let line ← replaceRange (← a.currentLine) comp.startCol a.cursorCol []
      let index := (comp.index + 1) % comp.candidates.length
      let next ← comp.candidates[index]?
      let line ← insertStr line comp.startCol next
      some { a with
        inputLines := a.inputLines.set a.cursorRow line
        cursorCol := comp.startCol + bytes next
        completion := some { comp with index } }
  | none => do
    let (startCol, word) ← a.wordBeforeCursor
    if word = [] then some a
    else
      match a.buildCandidates m word with
      | [] => some a
      | first :: rest => do
        let line ← replaceRange (← a.currentLine) startCol a.cursorCol first
        some { a with
          inputLines := a.inputLines.set a.cursorRow line
          cursorCol := startCol + bytes first
          completion := some ⟨startCol, first :: rest, 0⟩ }

/-! ## Keys -/

def splitLine (a : App) : Option App := do
  let line ← a.currentLine
  let rest ← sliceFrom line a.cursorCol
  let kept ← truncate line a.cursorCol
  some { a with
    inputLines := (a.inputLines.set a.cursorRow kept).insertIdx (a.cursorRow + 1) rest
    cursorRow := a.cursorRow + 1
    cursorCol := 0 }

def deleteToStart (a : App) : Option App := do
  let rest ← sliceFrom (← a.currentLine) a.cursorCol
  some { a with inputLines := a.inputLines.set a.cursorRow rest, cursorCol := 0 }

def deleteToEnd (a : App) : Option App := do
  let kept ← truncate (← a.currentLine) a.cursorCol
  some { a with inputLines := a.inputLines.set a.cursorRow kept }

/-- Onto another row, at the same offset or at the end of a shorter line. -/
def moveTo (a : App) (row : Nat) : Option App := do
  let line ← a.inputLines[row]?
  some { a with cursorRow := row, cursorCol := min a.cursorCol (bytes line) }

def up (a : App) : Option App :=
  if 0 < a.cursorRow then a.moveTo (a.cursorRow - 1)
  else if a.history = [] then some a
  else do
    let idx := match a.historyPos with
      | some i => if 0 < i then i - 1 else i
      | none => a.history.length - 1
    let lines := (← a.history[idx]?).splitOn '\n'
    let last ← lines[lines.length - 1]?
    some { a with historyPos := some idx, inputLines := lines, cursorRow := lines.length - 1, cursorCol := bytes last }

def down (a : App) : Option App :=
  if a.cursorRow + 1 < a.inputLines.length then a.moveTo (a.cursorRow + 1)
  else
    match a.historyPos with
    | none => some a
    | some idx =>
      if idx + 1 < a.history.length then do
        let entry ← a.history[idx + 1]?
        some { a with historyPos := some (idx + 1), inputLines := entry.splitOn '\n', cursorRow := 0, cursorCol := 0 }
      else some { a with historyPos := none }.clearInput

def left (a : App) : Option App :=
  if 0 < a.cursorCol then some { a with cursorCol := a.cursorCol - 1 }
  else if 0 < a.cursorRow then do
    let line ← a.inputLines[a.cursorRow - 1]?
    some { a with cursorRow := a.cursorRow - 1, cursorCol := bytes line }
  else some a

def right (a : App) : Option App := do
  let line ← a.currentLine
  if a.cursorCol < bytes line then some { a with cursorCol := a.cursorCol + 1 }
  else if a.cursorRow + 1 < a.inputLines.length then some { a with cursorRow := a.cursorRow + 1, cursorCol := 0 }
  else some a

def toEnd (a : App) : Option App := do
  let line ← a.currentLine
  some { a with cursorCol := bytes line }

def backspace (a : App) : Option App :=
  if 0 < a.cursorCol then do
    let line ← removeChar (← a.currentLine) (a.cursorCol - 1)
    some { a with inputLines := a.inputLines.set a.cursorRow line, cursorCol := a.cursorCol - 1 }
  else if 0 < a.cursorRow then do
    let removed ← a.currentLine
    let lines := a.inputLines.eraseIdx a.cursorRow
    let line ← lines[a.cursorRow - 1]?
    some { a with
      inputLines := lines.set (a.cursorRow - 1) (line ++ removed)
      cursorRow := a.cursorRow - 1
      cursorCol := bytes line }
  else some a

def delete (a : App) : Option App := do
  let line ← a.currentLine
  if a.cursorCol < bytes line then
    let line ← removeChar line a.cursorCol
    some { a with inputLines := a.inputLines.set a.cursorRow line }
  else if a.cursorRow + 1 < a.inputLines.length then
    let next ← a.inputLines[a.cursorRow + 1]?
    some { a with inputLines := (a.inputLines.eraseIdx (a.cursorRow + 1)).set a.cursorRow (line ++ next) }
  else some a

def typeChar (a : App) (c : Char) : Option App := do
  let line ← insertStr (← a.currentLine) a.cursorCol [c]
  some { a with inputLines := a.inputLines.set a.cursorRow line, cursorCol := a.cursorCol + 1 }

def handleQueryKey (a : App) (modifiers : KeyModifiers) (code : KeyCode) : Option (App × Action) :=
  let a := a.dismissCompletion
  let done (o : Option App) := o.map fun a => (a, Action.none)
  match code with
  | .enter =>
    let trimmed := trim a.inputText
    if modifiers = .control ∨ modifiers = .alt then some a.tryExecute
    else if trimmed.head? = some '\\' ∨ trimmed.getLast? = some ';' then some a.tryExecute
    else done a.splitLine
  | .f n => if n = 5 then some a.tryExecute else some (a, .none)
  | .char c =>
    match modifiers with
    | .control =>
      if c = 'j' then some a.tryExecute
      else if c = 'u' then done a.deleteToStart
      else if c = 'k' then done a.deleteToEnd
      else if c = 'w' then some (a.clearInput, .none)
      else if c = 'd' then
        match a.tables[a.selectedTable]? with
        | some name => some (a, .execute ("SELECT column_name, data_type, is_nullable FROM information_schema.columns ".toList ++
            "WHERE table_name = '".toList ++ name ++ [quoteChar]))
        | none => some (a, .none)
      else some (a, .none)
    | .none | .shift => done (a.typeChar c)
    | .alt | .mixed => some (a, .none)
  | .up => done a.up
  | .down => done a.down
  | .left => done a.left
  | .right => done a.right
  | .home => some ({ a with cursorCol := 0 }, .none)
  | .endKey => done a.toEnd
  | .backspace => done a.backspace
  | .delete => done a.delete
  | .other => some (a, .none)

def handle (m : CaseMapping) (a : App) : Event → Option (App × Action)
  | .key modifiers code => a.handleQueryKey modifiers code
  | .tab => (a.tabComplete m).map fun a => (a, .none)

/-- The state after some events, unless one of them fails. -/
def run (m : CaseMapping) (a : App) : List Event → Option App
  | [] => some a
  | e :: es => (a.handle m e).bind fun r => r.1.run m es

end App

end PotatoDB.Tui
