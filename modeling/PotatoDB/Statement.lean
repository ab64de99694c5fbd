import PotatoDB.Catalog

/-!
# Statements and queries

A statement is what the dispatch of `execute` selects for a text, with the parts the handler
reads; `display` is the text the parser's tree prints. A query is a text the engine gives to
DataFusion, by the parts it is built from.
-/

namespace PotatoDB

structure CreateTable where
  name : String
  ifNotExists : Bool
  columns : List ColumnDef
  constraints : List TableConstraint
  partitionColumns : List String
  /-- `AS SELECT`. -/
  query : Option String
  display : String
deriving DecidableEq

structure CreateIndex where
  name : Option String
  tableName : String
  columns : List IndexColumn
  ifNotExists : Bool
  display : String
deriving DecidableEq

structure Delete where
  table : String
  selection : Option String
  returning : Option String
  display : String
deriving DecidableEq

structure Update where
  table : String
  assignments : List (String × String)
  selection : Option String
  returning : Option String
deriving DecidableEq

inductive ConflictTarget where
  | columns (names : List String)
  | onConstraint (name : String)
deriving DecidableEq

inductive OnConflictAction where
  | doNothing
  | doUpdate (assignments : List (String × String)) (selection : Option String)
deriving DecidableEq

structure OnConflict where
  target : Option ConflictTarget
  action : OnConflictAction
deriving DecidableEq

structure Insert where
  table : String
  columns : List String
  source : Option String
  returning : Option String
  onConflict : Option OnConflict
  display : String
deriving DecidableEq

inductive MergeAction where
  | update (assignments : List (String × String))
  | delete
  | insert (columns : List String) (values : Option (List String))
deriving DecidableEq

/-- A WHEN clause; `matched` tells WHEN MATCHED from WHEN NOT MATCHED. -/
structure MergeClause where
  matched : Bool
  predicate : Option String
  action : MergeAction
deriving DecidableEq

structure Merge where
  target : String
  targetAlias : Option String
  source : String
  sourceAlias : Option String
  sourceTable : Option String
  on : String
  clauses : List MergeClause
deriving DecidableEq

inductive AlterTableOperation where
  | addColumn (column : ColumnDef) (ifNotExists : Bool)
  | dropColumn (name : String) (ifExists : Bool)
  | renameColumn (oldName newName : String)
  | unsupported (display : String)
deriving DecidableEq

structure AlterTable where
  name : String
  operations : List AlterTableOperation
  ifExists : Bool
  /-- `parse_alter_table_rename`. -/
  rename : Option (String × String)
  /-- `parse_retention_setting`. -/
  retention : Option (Option Nat)
deriving DecidableEq

structure CreateView where
  name : String
  query : String
  orReplace : Bool
  materialized : Bool
deriving DecidableEq

structure CopyFrom where
  table : String
  filePath : String
  format : String
deriving DecidableEq

inductive Statement where
  | flush (table : Option String)
  | savepoint (name : String)
  | rollbackTo (name : String)
  | release (name : String)
  | createTrigger (trigger : TriggerDef)
  | dropTrigger (name : String)
  | truncate (table : String)
  | checkpoint
  | vacuum (table : String) (analyze : Bool)
  | analyze (table : String)
  | startTransaction
  | commit
  | rollback
  | createTable (create : CreateTable)
  | createIndex (create : CreateIndex)
  | dropTable (name : String) (ifExists : Bool)
  | dropIndex (name : String) (ifExists : Bool)
  | delete (delete : Delete)
  | update (update : Update)
  | insert (insert : Insert)
  | merge (merge : Merge)
  | alterTable (alter : AlterTable)
  | copyFrom (copy : CopyFrom)
  | createView (create : CreateView)
  | dropView (name : String) (ifExists : Bool)
  | refreshMaterializedView (name : String)
  | query
deriving DecidableEq

/-- One `CASE WHEN .. THEN .. ELSE col END` of a rewriting SELECT, or the plain column. -/
structure Projection where
  column : String
  branches : List (String × String)
deriving DecidableEq

/-- Query texts whose meaning depends on expressions the user wrote. -/
inductive Query where
  /-- A text as it was given. -/
  | user (sql : String)
  | returning (list table : String) (selection : Option String)
  /-- `SELECT {projections} FROM "t"`. -/
  | rewrite (table : String) (projections : List Projection)
  /-- The rows that have one of the conflict keys. -/
  | conflicts (table : String) (columns : List String) (keys : List (List String))
  | mergeCount (target on predicate : String)
  | mergeUpdate (target on predicate : String) (projections : List Projection)
  | mergeKeep (target on predicate : String)
  | mergeInsert (target on predicate : String) (values : Option (List String))
deriving DecidableEq

end PotatoDB
