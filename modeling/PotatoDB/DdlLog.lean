import PotatoDB.Handlers
import PotatoDB.Sequences

/-!
# Data definition and the log

The statements on the definitions of tables, indexes, views, sequences and functions, the texts
their handlers append to the SQL log, and the execution of these texts. A name is the text that
the parser's tree prints for it, with the quotes of a quoted identifier.
-/

namespace PotatoDB

open Oplog
open Oplog.Prog (get emit attempt check each)

/-! ## Statements -/

inductive DdlStatement where
  | createTable (create : CreateTable)
  | createIndex (create : CreateIndex)
  | createView (create : CreateView)
  | createSequence (name : String) (ifNotExists : Bool) (options : List SequenceOption)
  /-- With the text of the statement. -/
  | createFunction (sql : String) (def_ : UdfDef)
  | dropTable (name : String) (ifExists : Bool)
  | dropIndex (name : String) (ifExists : Bool)
  | dropView (name : String) (ifExists : Bool)
  | dropSequence (name : String) (ifExists : Bool)
  | dropFunction (sql : String) (name : String) (ifExists : Bool)
  | alterTable (sql : String) (alter : AlterTable)

section
variable (env : Env)

def handleCreateSequence (name : String) (ifNotExists : Bool) (options : List SequenceOption) : M QueryResult := do
  if ((← get).catalog.sequences.lookup name).isSome then
    if ifNotExists then return .message s!"Sequence '{name}' already exists, skipping."
    else throw s!"Sequence '{name}' already exists"
  else
    walAppendPending env s!"CREATE SEQUENCE \"{name}\""
    modifyCatalog (·.addSequence (sequenceDef name options))
    catalogSave
    return .message s!"Sequence '{name}' created."

def handleDropSequence (name : String) (ifExists : Bool) : M QueryResult := do
  if ((← get).catalog.sequences.lookup name).isNone then
    if ifExists then return .message s!"Sequence '{name}' does not exist, skipping."
    else throw s!"Sequence '{name}' does not exist"
  else
    walAppendPending env s!"DROP SEQUENCE \"{name}\""
    modifyCatalog (·.removeSequence name)
    catalogSave
    return .message s!"Sequence '{name}' dropped."

def handleCreateFunction (sql : String) (def_ : UdfDef) : M QueryResult := do
  walAppendPending env sql
  modifyCatalog (·.addUdf def_)
  catalogSave
  return .message s!"Function '{def_.name}' created."

def handleDropFunction (sql name : String) (ifExists : Bool) : M QueryResult := do
  if ((← get).catalog.udfs.lookup name).isNone then
    if ifExists then return .message s!"Function '{name}' does not exist, skipping."
    else throw s!"Function '{name}' does not exist"
  else
    walAppendPending env sql
    modifyCatalog (·.removeUdf name)
    catalogSave
    return .message s!"Function '{name}' dropped."

def DdlStatement.run : DdlStatement → M QueryResult
  | createTable create => handleCreateTable env create
  | createIndex create => handleCreateIndex env create
  | createView create => handleCreateView env create
  | createSequence name ifNotExists options => handleCreateSequence env name ifNotExists options
  | createFunction sql def_ => handleCreateFunction env sql def_
  | dropTable name ifExists => handleDropTable env name ifExists
  | dropIndex name ifExists => handleDropIndex env name ifExists
  | dropView name ifExists => handleDropView env name ifExists
  | dropSequence name ifExists => handleDropSequence env name ifExists
  | dropFunction sql name ifExists => handleDropFunction env sql name ifExists
  | alterTable sql alter => handleAlterTable env sql alter

/-! ## The log -/

/-- The texts of the pending entries that a run appends. -/
def loggedTexts (os : List Op) : List String :=
  os.filterMap fun o =>
    match o with
    | .walAppend entry => if entry.status = .pending then some entry.sql else none
    | _ => none

/-- The texts are executed, one after the other; `reads` parses them. -/
def replayTexts (reads : String → Option DdlStatement) : List String → M Unit :=
  each fun text =>
    match reads text with
    | none => throw "syntax error"
    | some stmt => do
      let _ ← stmt.run env

end

/-! ## Names in texts -/

def quoted (name : String) : String := "\"" ++ name ++ "\""

/-- The quotes inside come in pairs, so that the text between quotes is read to its end. -/
def wellQuoted : List Char → Bool
  | '"' :: '"' :: cs => wellQuoted cs
  | '"' :: _ => false
  | _ :: cs => wellQuoted cs
  | [] => true

/-- `parse_alter_table_rename` on the old and the new name. -/
def renamedNames (oldName newName : String) : String × String :=
  (String.ofList (trimMatches (· = '"') oldName.toList),
    String.ofList (trimEndMatches (· = ';') (trimMatches (· = '"') newName.toList)))

def ifWellQuoted (name : String) (stmt : DdlStatement) : Option DdlStatement :=
  if wellQuoted name.toList then some stmt else none

/-- How the parser reads the texts that a statement logs: a text that the parser printed, or that it read before,
as the same statement; a name that the handler put between quotes, as a quoted identifier. -/
def DdlStatement.ReadBack (reads : String → Option DdlStatement) : DdlStatement → Prop
  | createTable create => reads create.display = some (.createTable create)
  | createIndex create => reads create.display = some (.createIndex create)
  | createFunction sql def_ => reads sql = some (.createFunction sql def_)
  | dropFunction sql name ifExists => reads sql = some (.dropFunction sql name ifExists)
  | createSequence name _ _ =>
    reads s!"CREATE SEQUENCE \"{name}\"" = ifWellQuoted name (.createSequence (quoted name) false [])
  | dropSequence name _ => reads s!"DROP SEQUENCE \"{name}\"" = ifWellQuoted name (.dropSequence (quoted name) false)
  | dropTable name ifExists =>
    reads (if ifExists then s!"DROP TABLE IF EXISTS \"{name}\"" else s!"DROP TABLE \"{name}\"") =
      ifWellQuoted name (.dropTable (quoted name) ifExists)
  | dropIndex name ifExists =>
    reads (if ifExists then s!"DROP INDEX IF EXISTS \"{name}\"" else s!"DROP INDEX \"{name}\"") =
      ifWellQuoted name (.dropIndex (quoted name) ifExists)
  | dropView name ifExists =>
    reads (if ifExists then s!"DROP VIEW IF EXISTS \"{name}\"" else s!"DROP VIEW \"{name}\"") =
      ifWellQuoted name (.dropView (quoted name) ifExists) ∧
    ∀ backing, reads s!"DROP TABLE IF EXISTS \"{backing}\"" = ifWellQuoted backing (.dropTable (quoted backing) true)
  | createView create =>
    reads (if create.materialized then s!"CREATE MATERIALIZED VIEW \"{create.name}\" AS {create.query}"
      else if create.orReplace then s!"CREATE OR REPLACE VIEW \"{create.name}\" AS {create.query}"
      else s!"CREATE VIEW \"{create.name}\" AS {create.query}") = ifWellQuoted create.name
        (.createView ⟨quoted create.name, create.query, !create.materialized && create.orReplace, create.materialized⟩) ∧
    reads s!"DROP TABLE IF EXISTS \"{backingTable create.name}\"" =
      ifWellQuoted (backingTable create.name) (.dropTable (quoted (backingTable create.name)) true)
  | alterTable sql alter =>
    match alter.rename with
    | none => reads sql = some (.alterTable sql alter)
    | some (oldName, newName) => ∃ operations,
      reads s!"ALTER TABLE \"{oldName}\" RENAME TO \"{newName}\"" =
        if wellQuoted oldName.toList ∧ wellQuoted newName.toList then
          some (.alterTable s!"ALTER TABLE \"{oldName}\" RENAME TO \"{newName}\""
            ⟨quoted oldName, operations, false, some (renamedNames oldName newName), none⟩)
        else none

end PotatoDB
