import PotatoDB.Catalog

/-!
# Declared statistics

The statistics that `register_listing_table` gives a table's provider, from ANALYZE or from the file
footers, and the statements that write a table's files, collect statistics or register tables. The
aggregates of ANALYZE and the reading of their texts are parameters.
-/

namespace PotatoDB

inductive Precision (α : Type) where
  | exact (value : α)
  | absent
deriving DecidableEq

structure DfColumnStatistics where
  nullCount : Precision Nat
  maxValue : Precision Value
  minValue : Precision Value
  distinctCount : Precision Nat
deriving DecidableEq

def DfColumnStatistics.newUnknown : DfColumnStatistics := ⟨.absent, .absent, .absent, .absent⟩

structure DfStatistics where
  numRows : Precision Nat
  columnStatistics : List DfColumnStatistics
deriving DecidableEq

structure Aggregates where
  /-- What ANALYZE selects for a column: the NULLs, `APPROX_DISTINCT`, and MIN and MAX as text. -/
  columnStatistics : List Value → ColumnStatistics
  /-- `parse_scalar_value`, of a text at a data type. -/
  parseScalarValue : String → String → Option Value
  /-- MIN and MAX of the values, by a scan. -/
  minimum : List Value → Option Value
  maximum : List Value → Option Value

section
variable (agg : Aggregates)

def exactly {α : Type} : Option α → Precision α
  | some v => .exact v
  | none => .absent

def catalogStatsToDf (stats : TableStatistics) (columns : List ColumnDef) : DfStatistics where
  numRows := .exact stats.rowCount
  columnStatistics := columns.map fun field =>
    match stats.columns.lookup field.name with
    | some col =>
      { nullCount := .exact col.nullCount
        maxValue := exactly (col.maxValue.bind (agg.parseScalarValue · field.dataType))
        minValue := exactly (col.minValue.bind (agg.parseScalarValue · field.dataType))
        distinctCount := exactly col.distinctCount }
    | none => .newUnknown

def fileStatsToDf (fileStats : List FileStats) (columns : List ColumnDef) : Option DfStatistics :=
  if fileStats.isEmpty then none
  else some
    { numRows := if fileStats.any (·.rowCount.isSome) then .exact (fileStats.map fun f => f.rowCount.getD 0).sum else .absent
      columnStatistics := columns.map fun _ => .newUnknown }

/-- What a registration of the table declares. -/
def TableMeta.declared (m : TableMeta) : Option DfStatistics :=
  match m.statistics with
  | some stats => some (catalogStatsToDf agg stats m.columns)
  | none => fileStatsToDf m.fileStats m.columns

end

/-- The catalog, what each registered table declares, and the rows of each file of a table. -/
structure StatsStore where
  catalog : CatalogData
  providers : Map (Option DfStatistics)
  files : Map (List (List Row))

inductive StatsEvent where
  | createTable (name : String) (columns : List ColumnDef)
  /-- An INSERT, a flush or the insert part of an upsert or a MERGE. -/
  | insert (table : String) (rows : List Row)
  | copyFrom (table : String) (rows : List Row)
  /-- A rewrite by UPDATE, DELETE, a cascade, an upsert, a MERGE or automatic compaction. -/
  | rewrite (table : String) (change : List Row → List Row)
  | truncate (table : String)
  | analyze (table : String)
  /-- VACUUM, with the files a retention policy leaves. -/
  | vacuum (table : String) (keep : List Row → Bool)
  /-- The tables are registered again, as after a restart. -/
  | reload
  /-- ROLLBACK to a snapshot, with the files that are left and the rows that are written back. -/
  | rollback (snapshot : CatalogData) (files : Map (List (List Row))) (backups : Map (List Row))

namespace StatsStore

def new : StatsStore := ⟨.empty, ∅, ∅⟩

def filesOf (s : StatsStore) (table : String) : List (List Row) := (s.files.lookup table).getD []

def rows (s : StatsStore) (table : String) : List Row := (s.filesOf table).flatten

/-- The statistics of the files, without footers or with them. -/
def fileStats (s : StatsStore) (table : String) (footers : Bool) : List FileStats :=
  (s.filesOf table).map fun rows => ⟨⟨[table], 0⟩, if footers then some rows.length else none⟩

def refreshTableFileStats (s : StatsStore) (table : String) (footers : Bool) : StatsStore :=
  { s with catalog := s.catalog.setFileStats table (s.fileStats table footers) }

def appendFile (s : StatsStore) (table : String) (rows : List Row) : StatsStore :=
  if rows.isEmpty then s else { s with files := s.files.insert table (s.filesOf table ++ [rows]) }

section
variable (agg : Aggregates)

def register (s : StatsStore) (table : String) : StatsStore :=
  match s.catalog.tables.lookup table with
  | some m => { s with providers := s.providers.insert table (m.declared agg) }
  | none => s

/-- The table is registered between the old files and the new one. -/
def rewriteTable (s : StatsStore) (table : String) (rows : List Row) : StatsStore :=
  ((({ s with files := s.files.insert table [] }.register agg table).appendFile table rows).refreshTableFileStats table false)

def analyze (s : StatsStore) (table : String) : StatsStore :=
  match s.catalog.tables.lookup table with
  | none => s
  | some m =>
    let columns := m.columnNames.map fun c => (c, agg.columnStatistics ((s.rows table).map (namedValue m.columnNames · c)))
    { s with catalog := s.catalog.setStatistics table ⟨(s.rows table).length, columns⟩ }.refreshTableFileStats table true

def reloadTables (s : StatsStore) : StatsStore :=
  { s with providers := s.catalog.tables.mapValues fun _ m => m.declared agg }

def restoreBackups (s : StatsStore) : List (String × List Row) → StatsStore
  | [] => s
  | b :: backups =>
    if (s.catalog.tables.lookup b.1).isSome then restoreBackups (s.rewriteTable agg b.1 b.2) backups
    else restoreBackups s backups

def step (s : StatsStore) : StatsEvent → StatsStore
  | .createTable name columns =>
    if (s.catalog.tables.lookup name).isSome then s
    else
      -- the table is registered before the catalog knows it
      { s with
        catalog := s.catalog.addTable ⟨name, columns, name, [], none, none, [], []⟩
        providers := s.providers.insert name none
        files := s.files.insert name [] }
  | .insert table rows =>
    if (s.catalog.tables.lookup table).isSome then (s.appendFile table rows).refreshTableFileStats table false else s
  | .copyFrom table rows =>
    if (s.catalog.tables.lookup table).isSome then (s.appendFile table rows).refreshTableFileStats table true else s
  | .rewrite table change =>
    if (s.catalog.tables.lookup table).isSome then s.rewriteTable agg table (change (s.rows table)) else s
  | .truncate table =>
    if (s.catalog.tables.lookup table).isSome then { s with files := s.files.insert table [] }.register agg table else s
  | .analyze table => s.analyze agg table
  | .vacuum table keep =>
    if (s.catalog.tables.lookup table).isSome then
      (s.rewriteTable agg table ((s.filesOf table).filter keep).flatten).analyze agg table
    else s
  | .reload => s.reloadTables agg
  | .rollback snapshot files backups =>
    restoreBackups agg (reloadTables agg ⟨snapshot, s.providers, files⟩) backups.pairs

end

end StatsStore

end PotatoDB
