import PotatoDB.Ddl
import PotatoDB.Sorting

/-!
# Indexes and the order of files

The orders with which `register_listing_table` registers a table, and the statements that write
the table's files or change its indexes. DataFusion's INSERT is a parameter: it writes files in
the order that is declared.
-/

namespace PotatoDB

open Sorting

section
variable (cmp : Value → Value → Ordering)

/-- `col(c).sort(ascending, nulls_first)`; NULLs are first exactly if the order is descending. -/
def IndexColumn.order (columns : List String) (c : IndexColumn) : Row → Row → Ordering :=
  on (fun row => namedValue columns row c.name) (directed c.ascending (absentLast Value.isNull cmp))

def rowOrder (columns : List String) (order : List IndexColumn) : Row → Row → Ordering :=
  lex (order.map (·.order cmp columns))

/-- The order of the rows inside the file. -/
def ParquetFile.InOrder (f : ParquetFile) (order : List IndexColumn) : Prop :=
  Sorting.InOrder (rowOrder cmp f.columns order) f.rows

/-- DataFusion's INSERT: the rows of each new file of a table with the orders and the columns. -/
structure FileWriter where
  write : List (List IndexColumn) → List String → List Row → List (List Row)
  ordered : ∀ order columns rows, ∀ file ∈ write [order] columns rows, Sorting.InOrder (rowOrder cmp columns order) file

end

/-- The sort orders that `register_listing_table` declares. -/
def CatalogData.sortOrders (c : CatalogData) (table : String) : List (List IndexColumn) :=
  (((c.indexesForTable table).insertionSort fun a b => (compareLex (compareOn (!·.primary)) (compareOn (·.name)) a b).isLE).filter
    (!·.logicalOnly)).map (·.columns)

/-- The catalog, the orders each table is registered with, and the files of each table. -/
structure IndexedStore where
  catalog : CatalogData
  declared : Map (List (List IndexColumn))
  files : Map (List ParquetFile)

inductive IndexEvent where
  | createTable (name : String) (columns : List ColumnDef)
  | createIndex (create : CreateIndex)
  | dropIndex (name : String)
  /-- Rows that an INSERT or a flush writes. -/
  | insert (table : String) (rows : List Row)
  /-- UPDATE and DELETE: what becomes of the rows of the table is written to new files. -/
  | rewrite (table : String) (change : List Row → List Row)
  /-- The files that a retention policy takes away before VACUUM. -/
  | prune (table : String) (keep : ParquetFile → Bool)
  /-- VACUUM and automatic compaction. -/
  | compact (table : String)

namespace IndexedStore

def new : IndexedStore := ⟨.empty, ∅, ∅⟩

def filesOf (s : IndexedStore) (table : String) : List ParquetFile := (s.files.lookup table).getD []

def register (s : IndexedStore) (table : String) : IndexedStore :=
  { s with declared := s.declared.insert table (s.catalog.sortOrders table) }

def deleteFiles (s : IndexedStore) (table : String) : IndexedStore := { s with files := s.files.insert table [] }

section
variable {cmp : Value → Value → Ordering} (writer : FileWriter cmp)

def insertInto (s : IndexedStore) (table : String) (rows : List Row) : IndexedStore :=
  match s.catalog.tables.lookup table, s.declared.lookup table with
  | some m, some orders =>
    if rows.isEmpty then s
    else
      let new := (writer.write orders m.columnNames rows).map fun rows => (⟨m.columnNames, rows, 0⟩ : ParquetFile)
      { s with files := s.files.insert table (s.filesOf table ++ new) }
  | _, _ => s

/-- `SELECT * FROM table`. -/
def rows (s : IndexedStore) (table : String) : List Row :=
  match s.catalog.tables.lookup table with
  | none => []
  | some m => (s.filesOf table).flatMap (·.read m.columnNames)

def rewriteTable (s : IndexedStore) (table : String) (rows : List Row) : IndexedStore :=
  if (s.catalog.tables.lookup table).isNone then s
  else ((s.deleteFiles table).register table).insertInto writer table rows

/-- `SELECT * FROM table ORDER BY ..`. -/
def ordered (cmp : Value → Value → Ordering) (s : IndexedStore) (table : String) (order : List IndexColumn) : List Row :=
  match s.catalog.tables.lookup table with
  | none => []
  | some m => sortBy (rowOrder cmp m.columnNames order) (s.rows table)

def createIndex (s : IndexedStore) (create : CreateIndex) : IndexedStore :=
  match create.name with
  | none => s
  | some name =>
    let table := create.tableName
    if (s.catalog.indexes.lookup name).isSome then s
    else
      match s.catalog.tables.lookup table with
      | none => s
      | some m =>
        if create.columns.any fun c => !m.columnNames.contains c.name then s
        else if create.columns.isEmpty then s
        else
          let sorted := s.ordered cmp table create.columns
          let s := s.deleteFiles table
          let s := { s with
            catalog := (s.catalog.demoteIndexes table).addIndex ⟨name, table, create.columns, false, true⟩ }
          (s.register table).insertInto writer table sorted

def dropIndex (s : IndexedStore) (name : String) : IndexedStore :=
  match s.catalog.indexes.lookup name with
  | none => s
  | some index =>
    let s := { s with catalog := (s.catalog.removeIndex name).promoteIndex index.tableName }
    if (s.catalog.tables.lookup index.tableName).isSome then s.register index.tableName else s

def step (s : IndexedStore) : IndexEvent → IndexedStore
  | .createTable name columns =>
    if (s.catalog.tables.lookup name).isSome then s
    else
      ({ s with catalog := s.catalog.addTable ⟨name, columns, name, [], none, none, [], []⟩ }.deleteFiles name).register name
  | .createIndex create => s.createIndex writer create
  | .dropIndex name => s.dropIndex name
  | .insert table rows => s.insertInto writer table rows
  | .rewrite table change => s.rewriteTable writer table (change (s.rows table))
  | .prune table keep => { s with files := s.files.insert table ((s.filesOf table).filter keep) }
  | .compact table =>
    s.rewriteTable writer table (s.ordered cmp table ((s.catalog.indexesForTable table).head?.elim [] (·.columns)))

end

end IndexedStore

end PotatoDB
