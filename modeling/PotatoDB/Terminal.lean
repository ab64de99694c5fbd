import PotatoDB.Exports
import PotatoDB.Highlighting
import PotatoDB.History

/-!
# The full-screen terminal

The terminal draws what it shows, waits for a key or a click, and runs the command that comes of it, whose result is shown
next. The editor is one of its three parts. Only the editor and the drawing of its lines can fail.
-/

namespace PotatoDB.Tui

open Texts (CaseMapping)

inductive Focus where
  | sidebar
  | results
  | query
deriving DecidableEq

def Focus.next : Focus → Focus
  | sidebar => results
  | results => query
  | query => sidebar

def Focus.prev : Focus → Focus
  | sidebar => query
  | results => sidebar
  | query => results

inductive Popup where
  | none
  | help
  | exporting
deriving DecidableEq

structure Rect where
  x : Nat
  y : Nat
  width : Nat
  height : Nat

def Rect.contains (r : Rect) (x y : Nat) : Bool := r.x ≤ x && x < r.x + r.width && r.y ≤ y && y < r.y + r.height

structure Areas where
  sidebar : Rect
  results : Rect
  query : Rect

/-- The state of the terminal; its message, if it shows one, stands in place of the rows. -/
structure Terminal where
  app : App
  focus : Focus
  results : QueryResults
  message : Option (List Char)
  /-- The selected row. -/
  selected : Option Nat
  hScroll : Nat
  visibleHeight : Nat
  popup : Popup
  exportPath : List Char
  exportFormat : Nat
  showTiming : Bool
  /-- The tables whose columns are cached. -/
  cachedTables : List (List Char)
  areas : Areas

/-- What a key or a click asks for. -/
inductive Command where
  | none
  | execute (sql : List Char)
  | previewTable (name : List Char)
  | write (path content : List Char)
  | quit

def Command.quits : Command → Bool
  | .quit => true
  | _ => false

def Command.ofAction : Action → Command
  | .none => .none
  | .execute sql => .execute sql

/-- A key: one that the editor knows, or one of the others. -/
inductive Key where
  | code (c : KeyCode)
  | tab
  | backTab
  | esc
  | pageUp
  | pageDown

def Key.toEditor : Key → KeyCode
  | .code c => c
  | _ => .other

inductive Mouse where
  | down (x y : Nat)
  | scrollUp
  | scrollDown
  | other

def exportFormats : List String := ["CSV", "JSON", "SQL"]

namespace Terminal

/-! ## Keys -/

def select (t : Terminal) (i : Nat) : Terminal := { t with selected := some i }

def selectedOr (t : Terminal) : Nat := t.selected.getD 0

/-- The selection, so many rows further down. -/
def moveDown (t : Terminal) (n : Nat) : Terminal :=
  t.select (t.selected.elim 0 fun s => min (s + n) (t.results.rows.length - 1))

def handleSidebarKey (t : Terminal) (key : Key) : Terminal × Command :=
  let selectTable (i : Nat) : Terminal := { t with app := { t.app with selectedTable := i } }
  match key with
  | .code .up => (if t.app.tables = [] then t else selectTable (t.app.selectedTable - 1), .none)
  | .code .down => (if t.app.tables = [] then t else selectTable (min (t.app.selectedTable + 1) (t.app.tables.length - 1)), .none)
  | .code .enter =>
    match t.app.tables[t.app.selectedTable]? with
    | some name => (t, .previewTable name)
    | none => (t, .none)
  | _ => (t, .none)

def handleResultsKey (t : Terminal) (key : Key) : Terminal :=
  match key with
  | .code .up => t.select (t.selectedOr - 1)
  | .code .down => t.moveDown 1
  | .code .left => { t with hScroll := t.hScroll - 1 }
  | .code .right => { t with hScroll := min (t.hScroll + 1) (t.results.headers.length - 1) }
  | .pageUp => t.select (t.selectedOr - t.visibleHeight / 2)
  | .pageDown => t.moveDown (t.visibleHeight / 2)
  | .code .home => t.select 0
  | .code .endKey => if t.results.rows = [] then t else t.select (t.results.rows.length - 1)
  | _ => t

/-- `export_sql`. -/
def exportSql (r : QueryResults) (table : List Char) : List Char :=
  let cols := ", ".toList.intercalate r.headers
  let value (v : List Char) : List Char :=
    if Texts.eqIgnoreAsciiCase v "null" then "NULL".toList
    else quoteChar :: (replaceFrom [quoteChar] [quoteChar, quoteChar] 0 v ++ [quoteChar])
  r.rows.flatMap fun row => "INSERT INTO \"".toList ++ table ++ "\" (".toList ++ cols ++ ") VALUES (".toList ++
    ", ".toList.intercalate (row.map value) ++ ");\n".toList

def exportContent (t : Terminal) : List Char :=
  if t.exportFormat = 0 then t.results.exportCsv
  else if t.exportFormat = 1 then t.results.exportJson
  else exportSql t.results ((t.app.tables[t.app.selectedTable]?).getD "table".toList)

/-- The path with another extension, if it has one. -/
def withExtension (path ext : List Char) : List Char :=
  if '.' ∈ path then path.rdropWhile (· ≠ '.') ++ ext else path

def handleExportKey (t : Terminal) (key : Key) : Terminal × Command :=
  match key with
  | .esc => ({ t with popup := .none }, .none)
  | .tab =>
    let format := (t.exportFormat + 1) % exportFormats.length
    let ext := ((exportFormats.getD format "").toList).map Char.toLower
    ({ t with exportFormat := format, exportPath := withExtension t.exportPath ext }, .none)
  | .code .enter => ({ t with popup := .none }, .write t.exportPath t.exportContent)
  | .code .backspace => ({ t with exportPath := t.exportPath.dropLast }, .none)
  | .code (.char c) => ({ t with exportPath := t.exportPath ++ [c] }, .none)
  | _ => (t, .none)

def clearResults (t : Terminal) : Terminal := { t with results := ⟨[], []⟩, message := none, selected := none }

/-- A key for the part in focus; the editor may fail. -/
def focusedKey (t : Terminal) (modifiers : KeyModifiers) (key : Key) : Option (Terminal × Command) :=
  match t.focus with
  | .query => (t.app.handleQueryKey modifiers key.toEditor).map fun r => ({ t with app := r.1 }, .ofAction r.2)
  | .sidebar => some (t.handleSidebarKey key)
  | .results => some (t.handleResultsKey key, .none)

def helpKey (t : Terminal) : Key → Terminal
  | .esc | .code (.f 1) | .code (.char 'q') => { t with popup := .none }
  | _ => t

/-- A key that the whole terminal knows, unless the editor has the focus or a popup is open. -/
def handleKey (m : CaseMapping) (t : Terminal) (modifiers : KeyModifiers) (key : Key) : Option (Terminal × Command) :=
  if t.popup = .help then some (t.helpKey key, .none)
  else if t.popup = .exporting then some (t.handleExportKey key)
  else
    match key with
    | .code (.char c) =>
      if modifiers = .control ∧ (c = 'c' ∨ c = 'q') then some (t, .quit)
      else if c = 'q' ∧ t.focus ≠ .query then some (t, .quit)
      else if c = '?' ∧ t.focus ≠ .query then some ({ t with popup := .help }, .none)
      else if modifiers = .control ∧ c = 's' then
        if (t.results.headers ≠ [] ∨ t.message.isSome) ∧ t.results.headers ≠ [] then some ({ t with popup := .exporting }, .none)
        else some (t, .none)
      else if modifiers = .control ∧ c = 'l' then some (t.clearResults, .none)
      else t.focusedKey modifiers key
    | .code (.f n) => if n = 1 then some ({ t with popup := .help }, .none) else t.focusedKey modifiers key
    | .tab =>
      if t.focus = .query then (t.app.tabComplete m).map fun a => ({ t with app := a }, .none)
      else some ({ t with focus := t.focus.next }, .none)
    | .backTab => if modifiers = .shift then some ({ t with focus := t.focus.prev }, .none) else t.focusedKey modifiers key
    | .esc => some ({ t with popup := .none }, .none)
    | _ => t.focusedKey modifiers key

def handleMouse (t : Terminal) (mouse : Mouse) : Terminal :=
  match mouse with
  | .down x y =>
    if t.areas.sidebar.contains x y then
      let row := y - (t.areas.sidebar.y + 1)
      { t with
        focus := .sidebar
        app := { t.app with selectedTable := if row < t.app.tables.length then row else t.app.selectedTable } }
    else if t.areas.results.contains x y then
      let row := y - (t.areas.results.y + 2)
      { t with focus := .results, selected := if row < t.results.rows.length then some row else t.selected }
    else if t.areas.query.contains x y then { t with focus := .query }
    else t
  | .scrollUp => if t.focus = .results then t.select (t.selectedOr - 3) else t
  | .scrollDown => if t.focus = .results then t.moveDown 3 else t
  | .other => t

/-! ## Commands -/

end Terminal

/-- A batch of a result, as it is shown; its rows are missing when a column cannot be formatted. -/
structure ShownBatch where
  fields : List (List Char)
  numRows : Nat
  rows : List (List (List Char))

/-- What `execute` answers. -/
inductive Answer where
  | records (batches : List ShownBatch)
  | message (text : List Char)
  | error (text : List Char)

/-- What the database says while one command runs. -/
structure Answers where
  result : Answer
  /-- The rows of the query for the names of the tables. -/
  tables : Option (List (List Char))
  /-- The rows of the query for the columns of a table. -/
  schema : Option (List (List Char))
  views : List (List Char)
  indexes : List (List Char × List Char)
  sequences : List (List Char)
  functions : List (List Char)
  users : List (List Char × List (List Char))

/-- `QueryResults::from_batches`. -/
def QueryResults.fromBatches (batches : List ShownBatch) : QueryResults where
  headers := batches.head?.elim [] ShownBatch.fields
  rows := if batches.all (·.numRows = 0) then [] else batches.flatMap ShownBatch.rows

def sortNames (names : List (List Char)) : List (List Char) := names.mergeSort fun n n' => String.ofList n ≤ String.ofList n'

namespace Terminal

def setMessage (t : Terminal) (text : List Char) : Terminal := { t with results := ⟨[], []⟩, message := some text }

def setError (t : Terminal) (text : List Char) : Terminal := t.setMessage ("ERROR: ".toList ++ text)

/-- `set_meta_results`; the columns stay scrolled as they were. -/
def setMetaResults (t : Terminal) (headers : List (List Char)) (rows : List (List (List Char))) : Terminal :=
  { t with results := ⟨headers, rows⟩, message := none, selected := if 0 < rows.length then some 0 else none }

def loadTables (t : Terminal) (tables : Option (List (List Char))) : Terminal :=
  match tables with
  | none => t
  | some names =>
    { t with app := { t.app with
      tables := sortNames names
      selectedTable := if t.app.selectedTable ≥ names.length then names.length - 1 else t.app.selectedTable } }

def showAnswer (t : Terminal) (answer : Answer) : Terminal :=
  match answer with
  | .records batches =>
    { t with
      results := .fromBatches batches
      message := none
      selected := if 0 < (batches.map ShownBatch.numRows).sum then some 0 else none }
  | .message text => t.setMessage text
  | .error text => t.setError text

def executeSql (t : Terminal) (answers : Answers) : Terminal :=
  { t.showAnswer answers.result with hScroll := 0 }.loadTables answers.tables

def metaListing (answers : Answers) (command : List Char) : Option (List (List Char) × List (List (List Char))) :=
  let names (header : String) (rows : List (List Char)) := some ([header.toList], (sortNames rows).map fun n => [n])
  if command = "\\dv".toList then names "view_name" answers.views
  else if command = "\\di".toList then
    some (["index_name".toList, "table_name".toList],
      (answers.indexes.mergeSort fun i j => if i.1 = j.1 then String.ofList i.2 ≤ String.ofList j.2 else String.ofList i.1 ≤ String.ofList j.1).map
        fun i => [i.1, i.2])
  else if command = "\\ds".toList then names "sequence_name" answers.sequences
  else if command = "\\df".toList then names "function_name" answers.functions
  else if command = "\\du".toList then
    some (["user_name".toList, "roles".toList],
      (answers.users.mergeSort fun u v => String.ofList u.1 ≤ String.ofList v.1).map fun u => [u.1, ", ".toList.intercalate u.2])
  else none

def runMetaCommand (t : Terminal) (answers : Answers) (cmd : List Char) : Terminal :=
  let trimmed := trim cmd
  match metaListing answers trimmed with
  | some (headers, rows) => t.setMetaResults headers rows
  | none =>
    if trimmed = "\\timing".toList then
      { t with showTiming := !t.showTiming }.setMessage (if t.showTiming then "Timing is off.".toList else "Timing is on.".toList)
    else if trimmed = "\\dt".toList ∨ "\\d ".toList.isPrefixOf trimmed then t.executeSql answers
    else t.setError ("Unknown command: ".toList ++ cmd)

def runQuery (t : Terminal) (answers : Answers) (sql : List Char) : Terminal :=
  if (trim sql).head? = some '\\' then t.runMetaCommand answers sql else t.executeSql answers

def loadSchema (t : Terminal) (answers : Answers) (table : List Char) : Terminal :=
  if t.cachedTables.any (· = table) then t
  else
    match answers.schema with
    | none => t
    | some columns =>
      { t with cachedTables := t.cachedTables ++ [table], app := { t.app with schemaCache := t.app.schemaCache ++ [columns] } }

/-! ## The loop -/

end Terminal

inductive Input where
  | key (modifiers : KeyModifiers) (key : Key)
  | mouse (mouse : Mouse)
  | other

/-- One turn of the loop: the size of the screen, what comes, and what the database says. -/
structure Turn where
  height : Nat
  areas : Areas
  input : Input
  answers : Answers

namespace Terminal

/-- Every line of the editor is drawn. -/
def draw (t : Terminal) (areas : Areas) : Option Terminal :=
  if t.app.inputLines.all fun line => (Highlighting.highlightSqlLine line).isSome then some { t with areas := areas } else none

/-- A command is run behind a second drawing. -/
def obey (t : Terminal) (turn : Turn) : Command → Option Terminal
  | .execute sql => (t.draw turn.areas).map fun t => t.runQuery turn.answers sql
  | .previewTable name => ((t.loadSchema turn.answers name).draw turn.areas).map fun t =>
      t.runQuery turn.answers ("SELECT * FROM \"".toList ++ name ++ "\" LIMIT 100".toList)
  | _ => some t

/-- One turn of the loop, and whether it is the last one. -/
def turn (m : CaseMapping) (t : Terminal) (turn : Turn) : Option (Terminal × Bool) :=
  ({ t with visibleHeight := turn.height - 7 }.draw turn.areas).bind fun t =>
    match turn.input with
    | .key modifiers key => (t.handleKey m modifiers key).bind fun r => (r.1.obey turn r.2).map fun t => (t, r.2.quits)
    | .mouse mouse => some (t.handleMouse mouse, false)
    | .other => some (t, false)

/-- The loop, until the terminal is left. -/
def loop (m : CaseMapping) (t : Terminal) : List Turn → Option Terminal
  | [] => some t
  | turn :: turns => (t.turn m turn).bind fun r => if r.2 then some r.1 else r.1.loop m turns

/-- `App::new`, with the file of the history. -/
def new (historyFile : Option (List Char)) : Terminal where
  app := .new historyFile
  focus := .query
  results := ⟨[], []⟩
  message := none
  selected := none
  hScroll := 0
  visibleHeight := 20
  popup := .none
  exportPath := "results.csv".toList
  exportFormat := 0
  showTiming := false
  cachedTables := []
  areas := ⟨⟨0, 0, 0, 0⟩, ⟨0, 0, 0, 0⟩, ⟨0, 0, 0, 0⟩⟩

/-- What `run_app` does before its loop: it shows the first table. -/
def start (historyFile : Option (List Char)) (answers : Answers) : Terminal :=
  let t := (new historyFile).loadTables answers.tables
  match t.app.tables.head? with
  | none => t
  | some first => (t.loadSchema answers first).runQuery answers ("SELECT * FROM \"".toList ++ first ++ "\" LIMIT 100".toList)

end Terminal

end PotatoDB.Tui
