import PotatoDB.Tables

/-!
# The catalog

The tables, indexes and other objects that `catalog.json` holds. A snapshot and the stored
document have the same contents as the catalog in memory.
-/

namespace PotatoDB

structure ColumnDef where
  name : String
  dataType : String
  nullable : Bool
deriving DecidableEq

structure ColumnStatistics where
  nullCount : Nat
  distinctCount : Option Nat
  minValue : Option String
  maxValue : Option String
deriving DecidableEq

structure TableStatistics where
  rowCount : Nat
  columns : List (String × ColumnStatistics)
deriving DecidableEq

structure FileStats where
  path : ObjPath
  rowCount : Option Nat
deriving DecidableEq

inductive TableConstraint where
  | primaryKey (columns : List String)
  | unique (name : String) (columns : List String)
  | check (name expr : String)
  | foreignKey (name : String) (columns : List String) (refTable : String) (refColumns : List String)
      (onDelete : Option String)
deriving DecidableEq

structure TableMeta where
  name : String
  columns : List ColumnDef
  path : String
  partitionColumns : List String
  statistics : Option TableStatistics
  retentionSeconds : Option Nat
  constraints : List TableConstraint
  fileStats : List FileStats
deriving DecidableEq

structure IndexColumn where
  name : String
  ascending : Bool
deriving DecidableEq

structure IndexDef where
  name : String
  tableName : String
  columns : List IndexColumn
  logicalOnly : Bool
  primary : Bool
deriving DecidableEq

structure ViewDef where
  name : String
  sql : String
  materialized : Bool
  backingTable : Option String
deriving DecidableEq

structure SequenceDef where
  name : String
  currentValue : Int
  increment : Int
  minValue : Option Int
  maxValue : Option Int
deriving DecidableEq

structure UdfDef where
  name : String
  args : List String
  returnType : String
  body : String
deriving DecidableEq

structure Privilege where
  kind : String
  table : Option String
deriving DecidableEq

structure TriggerDef where
  name : String
  table : String
  event : String
  timing : String
  body : String
deriving DecidableEq

structure MigrationRecord where
  version : Nat
  description : String
  sql : String
  appliedAtMs : Int
deriving DecidableEq

/-- The contents of the catalog: in memory, in a snapshot and in `catalog.json`. -/
structure CatalogData where
  tables : Map TableMeta
  indexes : Map IndexDef
  views : Map ViewDef
  sequences : Map SequenceDef
  udfs : Map UdfDef
  users : Map String
  roles : Map (List Privilege)
  userRoles : Map (List String)
  triggers : Map TriggerDef
  schemaVersion : Nat
  migrations : List MigrationRecord
deriving DecidableEq

/-- `i64::saturating_add`. -/
def saturatingAdd (a b : Int) : Int := max (-2 ^ 63) (min (2 ^ 63 - 1) (a + b))

def CatalogData.empty : CatalogData := ⟨∅, ∅, ∅, ∅, ∅, ∅, ∅, ∅, ∅, 0, []⟩

def TableMeta.columnNames (m : TableMeta) : List String := m.columns.map (·.name)

namespace CatalogData

def addTable (c : CatalogData) (m : TableMeta) : CatalogData :=
  { c with tables := c.tables.insert m.name m }

/-- Removes a table and its indexes. -/
def removeTable (c : CatalogData) (name : String) : CatalogData :=
  { c with tables := c.tables.erase name, indexes := c.indexes.retain fun _ i => i.tableName ≠ name }

def addIndex (c : CatalogData) (def_ : IndexDef) : CatalogData :=
  { c with indexes := c.indexes.insert def_.name def_ }

def removeIndex (c : CatalogData) (name : String) : CatalogData :=
  { c with indexes := c.indexes.erase name }

def indexesForTable (c : CatalogData) (name : String) : List IndexDef :=
  c.indexes.values.filter (·.tableName = name)

def addView (c : CatalogData) (def_ : ViewDef) : CatalogData :=
  { c with views := c.views.insert def_.name def_ }

def removeView (c : CatalogData) (name : String) : CatalogData :=
  { c with views := c.views.erase name }

def addSequence (c : CatalogData) (def_ : SequenceDef) : CatalogData :=
  { c with sequences := c.sequences.insert def_.name def_ }

def removeSequence (c : CatalogData) (name : String) : CatalogData :=
  { c with sequences := c.sequences.erase name }

def addUdf (c : CatalogData) (def_ : UdfDef) : CatalogData :=
  { c with udfs := c.udfs.insert def_.name def_ }

def removeUdf (c : CatalogData) (name : String) : CatalogData :=
  { c with udfs := c.udfs.erase name }

/-- The value of a sequence, which moves on; the bounds are those of the value it moves to. -/
def nextSequenceValue (c : CatalogData) (name : String) : Except String (Int × CatalogData) :=
  match c.sequences.lookup name with
  | none => .error s!"Sequence '{name}' does not exist"
  | some seq =>
    let advanced := saturatingAdd seq.currentValue seq.increment
    if seq.minValue.any (advanced < ·) then .error s!"Sequence '{name}' reached minimum value"
    else if seq.maxValue.any (advanced > ·) then .error s!"Sequence '{name}' reached maximum value"
    else .ok (seq.currentValue, { c with
      sequences := c.sequences.insert name { seq with currentValue := advanced } })

def setStatistics (c : CatalogData) (name : String) (s : TableStatistics) : CatalogData :=
  { c with tables := c.tables.modify name fun m => { m with statistics := some s } }

def setFileStats (c : CatalogData) (name : String) (fs : List FileStats) : CatalogData :=
  { c with tables := c.tables.modify name fun m => { m with fileStats := fs } }

def triggersOn (c : CatalogData) (table event timing : String) : List String :=
  (c.triggers.values.filter fun t => t.table = table && t.event = event && t.timing = timing).map (·.body)

end CatalogData

end PotatoDB
