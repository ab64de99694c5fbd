import PotatoDB.Catalog
import PotatoDB.Codecs

/-!
# The document of the catalog

`catalog.json` is a record of the sections of the catalog, or, as older versions wrote it, the bare
map of the tables. The load takes the first reading that succeeds. No document has both: what is
under `tables` would be a map of tables and at the same time a table, whose `name` is a text.
-/

namespace PotatoDB.CatalogJson

open Codecs

/-! ## The records of the document -/

def optionString : Codec (Option String) := .option .string nofun

def optionU64 : Codec (Option UInt64) := .option .u64 nofun

def optionI64 : Codec (Option Int64) := .option .i64 nofun

def columnDef : Codec ColumnDef where
  encode x := .object [("name", Codec.string.encode x.name), ("data_type", Codec.string.encode x.dataType),
    ("nullable", Codec.bool.encode x.nullable)]
  decode j := do
    let slots ← j.slots ["name", "data_type", "nullable"]
    return ⟨← Codec.string.required slots "name", ← Codec.string.required slots "data_type",
      ← Codec.bool.required slots "nullable"⟩
  decode_encode x := by simp [slots_object]

structure ColumnStatistics where
  nullCount : UInt64
  distinctCount : Option UInt64
  minValue : Option String
  maxValue : Option String

def columnStatistics : Codec ColumnStatistics where
  encode x := .object [("null_count", Codec.u64.encode x.nullCount),
    ("distinct_count", optionU64.encode x.distinctCount), ("min_value", optionString.encode x.minValue),
    ("max_value", optionString.encode x.maxValue)]
  decode j := do
    let slots ← j.slots ["null_count", "distinct_count", "min_value", "max_value"]
    return ⟨← Codec.u64.required slots "null_count", ← optionU64.optional slots "distinct_count",
      ← optionString.optional slots "min_value", ← optionString.optional slots "max_value"⟩
  decode_encode x := by simp [slots_object]

structure TableStatistics where
  rowCount : UInt64
  columns : Map ColumnStatistics

def tableStatistics : Codec TableStatistics where
  encode x := .object [("row_count", Codec.u64.encode x.rowCount),
    ("columns", columnStatistics.map.encode x.columns)]
  decode j := do
    let slots ← j.slots ["row_count", "columns"]
    return ⟨← Codec.u64.required slots "row_count", ← columnStatistics.map.required slots "columns"⟩
  decode_encode x := by simp [slots_object]

structure FileStats where
  path : String
  rowCount : Option UInt64
  minValues : Map String
  maxValues : Map String
  sizeBytes : UInt64
  createdAt : Option Int64

def fileStats : Codec FileStats where
  encode x := .object [("path", Codec.string.encode x.path), ("row_count", optionU64.encode x.rowCount),
    ("min_values", Codec.string.map.encode x.minValues), ("max_values", Codec.string.map.encode x.maxValues),
    ("size_bytes", Codec.u64.encode x.sizeBytes), ("created_at", optionI64.encode x.createdAt)]
  decode j := do
    let slots ← j.slots ["path", "row_count", "min_values", "max_values", "size_bytes", "created_at"]
    return ⟨← Codec.string.required slots "path", ← optionU64.optional slots "row_count",
      ← Codec.string.map.defaulted ∅ slots "min_values", ← Codec.string.map.defaulted ∅ slots "max_values",
      ← Codec.u64.required slots "size_bytes", ← optionI64.optional slots "created_at"⟩
  decode_encode x := by simp [slots_object]

inductive TableConstraint where
  | primaryKey (columns : List String)
  | unique (name : String) (columns : List String)
  | check (name expr : String)
  | foreignKey (name : String) (columns : List String) (refTable : String) (refColumns : List String)
      (onDelete onUpdate : Option String)

/-- A variant is an object with its name as the only key. -/
def tableConstraint : Codec TableConstraint where
  encode
    | .primaryKey columns =>
      .object [("PrimaryKey", .object [("columns", Codec.string.list.encode columns)])]
    | .unique name columns =>
      .object [("Unique", .object [("name", Codec.string.encode name),
        ("columns", Codec.string.list.encode columns)])]
    | .check name expr =>
      .object [("Check", .object [("name", Codec.string.encode name), ("expr", Codec.string.encode expr)])]
    | .foreignKey name columns refTable refColumns onDelete onUpdate =>
      .object [("ForeignKey", .object [("name", Codec.string.encode name),
        ("columns", Codec.string.list.encode columns), ("ref_table", Codec.string.encode refTable),
        ("ref_columns", Codec.string.list.encode refColumns), ("on_delete", optionString.encode onDelete),
        ("on_update", optionString.encode onUpdate)])]
  decode
    | .object [("PrimaryKey", j)] => do
      let slots ← j.slots ["columns"]
      return .primaryKey (← Codec.string.list.required slots "columns")
    | .object [("Unique", j)] => do
      let slots ← j.slots ["name", "columns"]
      return .unique (← Codec.string.required slots "name") (← Codec.string.list.required slots "columns")
    | .object [("Check", j)] => do
      let slots ← j.slots ["name", "expr"]
      return .check (← Codec.string.required slots "name") (← Codec.string.required slots "expr")
    | .object [("ForeignKey", j)] => do
      let slots ← j.slots ["name", "columns", "ref_table", "ref_columns", "on_delete", "on_update"]
      return .foreignKey (← Codec.string.required slots "name") (← Codec.string.list.required slots "columns")
        (← Codec.string.required slots "ref_table") (← Codec.string.list.required slots "ref_columns")
        (← optionString.optional slots "on_delete") (← optionString.optional slots "on_update")
    | _ => .error "unknown variant of TableConstraint"
  decode_encode x := by cases x <;> simp [slots_object]

structure DeletionEntry where
  filePath : String
  deletedRowIndices : List UInt64
  timestampMs : Int64

def deletionEntry : Codec DeletionEntry where
  encode x := .object [("file_path", Codec.string.encode x.filePath),
    ("deleted_row_indices", Codec.u64.list.encode x.deletedRowIndices),
    ("timestamp_ms", Codec.i64.encode x.timestampMs)]
  decode j := do
    let slots ← j.slots ["file_path", "deleted_row_indices", "timestamp_ms"]
    return ⟨← Codec.string.required slots "file_path", ← Codec.u64.list.required slots "deleted_row_indices",
      ← Codec.i64.required slots "timestamp_ms"⟩
  decode_encode x := by simp [slots_object]

def optionTableStatistics : Codec (Option TableStatistics) := .option tableStatistics nofun

structure TableMeta where
  name : String
  columns : List ColumnDef
  path : String
  partitionColumns : List String
  statistics : Option TableStatistics
  retentionSeconds : Option UInt64
  constraints : List TableConstraint
  fileStats : List FileStats
  deletionVectors : List DeletionEntry

def tableMeta : Codec TableMeta where
  encode x := .object [("name", Codec.string.encode x.name), ("columns", columnDef.list.encode x.columns),
    ("path", Codec.string.encode x.path), ("partition_columns", Codec.string.list.encode x.partitionColumns),
    ("statistics", optionTableStatistics.encode x.statistics),
    ("retention_seconds", optionU64.encode x.retentionSeconds),
    ("constraints", tableConstraint.list.encode x.constraints),
    ("file_stats", fileStats.list.encode x.fileStats),
    ("deletion_vectors", deletionEntry.list.encode x.deletionVectors)]
  decode j := do
    let slots ← j.slots ["name", "columns", "path", "partition_columns", "statistics", "retention_seconds",
      "constraints", "file_stats", "deletion_vectors"]
    return ⟨← Codec.string.required slots "name", ← columnDef.list.required slots "columns",
      ← Codec.string.required slots "path", ← Codec.string.list.defaulted [] slots "partition_columns",
      ← optionTableStatistics.defaulted none slots "statistics",
      ← optionU64.defaulted none slots "retention_seconds",
      ← tableConstraint.list.defaulted [] slots "constraints", ← fileStats.list.defaulted [] slots "file_stats",
      ← deletionEntry.list.defaulted [] slots "deletion_vectors"⟩
  decode_encode x := by simp [slots_object]

def indexColumn : Codec IndexColumn where
  encode x := .object [("name", Codec.string.encode x.name), ("ascending", Codec.bool.encode x.ascending)]
  decode j := do
    let slots ← j.slots ["name", "ascending"]
    return ⟨← Codec.string.required slots "name", ← Codec.bool.required slots "ascending"⟩
  decode_encode x := by simp [slots_object]

def indexDef : Codec IndexDef where
  encode x := .object [("name", Codec.string.encode x.name), ("table_name", Codec.string.encode x.tableName),
    ("columns", indexColumn.list.encode x.columns), ("logical_only", Codec.bool.encode x.logicalOnly),
    ("primary", Codec.bool.encode x.primary)]
  decode j := do
    let slots ← j.slots ["name", "table_name", "columns", "logical_only", "primary"]
    return ⟨← Codec.string.required slots "name", ← Codec.string.required slots "table_name",
      ← indexColumn.list.required slots "columns", ← Codec.bool.defaulted false slots "logical_only",
      ← Codec.bool.defaulted false slots "primary"⟩
  decode_encode x := by simp [slots_object]

def viewDef : Codec ViewDef where
  encode x := .object [("name", Codec.string.encode x.name), ("sql", Codec.string.encode x.sql),
    ("materialized", Codec.bool.encode x.materialized), ("backing_table", optionString.encode x.backingTable)]
  decode j := do
    let slots ← j.slots ["name", "sql", "materialized", "backing_table"]
    return ⟨← Codec.string.required slots "name", ← Codec.string.required slots "sql",
      ← Codec.bool.defaulted false slots "materialized", ← optionString.defaulted none slots "backing_table"⟩
  decode_encode x := by simp [slots_object]

structure SequenceDef where
  name : String
  currentValue : Int64
  increment : Int64
  minValue : Option Int64
  maxValue : Option Int64

def sequenceDef : Codec SequenceDef where
  encode x := .object [("name", Codec.string.encode x.name), ("current_value", Codec.i64.encode x.currentValue),
    ("increment", Codec.i64.encode x.increment), ("min_value", optionI64.encode x.minValue),
    ("max_value", optionI64.encode x.maxValue)]
  decode j := do
    let slots ← j.slots ["name", "current_value", "increment", "min_value", "max_value"]
    return ⟨← Codec.string.required slots "name", ← Codec.i64.required slots "current_value",
      ← Codec.i64.required slots "increment", ← optionI64.optional slots "min_value",
      ← optionI64.optional slots "max_value"⟩
  decode_encode x := by simp [slots_object]

def udfDef : Codec UdfDef where
  encode x := .object [("name", Codec.string.encode x.name), ("args", Codec.string.list.encode x.args),
    ("return_type", Codec.string.encode x.returnType), ("body", Codec.string.encode x.body)]
  decode j := do
    let slots ← j.slots ["name", "args", "return_type", "body"]
    return ⟨← Codec.string.required slots "name", ← Codec.string.list.required slots "args",
      ← Codec.string.required slots "return_type", ← Codec.string.required slots "body"⟩
  decode_encode x := by simp [slots_object]

def privilege : Codec Privilege where
  encode x := .object [("kind", Codec.string.encode x.kind), ("table", optionString.encode x.table)]
  decode j := do
    let slots ← j.slots ["kind", "table"]
    return ⟨← Codec.string.required slots "kind", ← optionString.optional slots "table"⟩
  decode_encode x := by simp [slots_object]

structure UserDef where
  name : String
  password : String

def userDef : Codec UserDef where
  encode x := .object [("name", Codec.string.encode x.name), ("password", Codec.string.encode x.password)]
  decode j := do
    let slots ← j.slots ["name", "password"]
    return ⟨← Codec.string.required slots "name", ← Codec.string.defaulted "" slots "password"⟩
  decode_encode x := by simp [slots_object]

structure RoleDef where
  name : String
  privileges : List Privilege

def roleDef : Codec RoleDef where
  encode x := .object [("name", Codec.string.encode x.name), ("privileges", privilege.list.encode x.privileges)]
  decode j := do
    let slots ← j.slots ["name", "privileges"]
    return ⟨← Codec.string.required slots "name", ← privilege.list.defaulted [] slots "privileges"⟩
  decode_encode x := by simp [slots_object]

def triggerDef : Codec TriggerDef where
  encode x := .object [("name", Codec.string.encode x.name), ("table", Codec.string.encode x.table),
    ("event", Codec.string.encode x.event), ("timing", Codec.string.encode x.timing),
    ("body", Codec.string.encode x.body)]
  decode j := do
    let slots ← j.slots ["name", "table", "event", "timing", "body"]
    return ⟨← Codec.string.required slots "name", ← Codec.string.required slots "table",
      ← Codec.string.required slots "event", ← Codec.string.required slots "timing",
      ← Codec.string.required slots "body"⟩
  decode_encode x := by simp [slots_object]

structure MigrationRecord where
  version : UInt64
  description : String
  sql : String
  appliedAtMs : Int64

def migrationRecord : Codec MigrationRecord where
  encode x := .object [("version", Codec.u64.encode x.version),
    ("description", Codec.string.encode x.description), ("sql", Codec.string.encode x.sql),
    ("applied_at_ms", Codec.i64.encode x.appliedAtMs)]
  decode j := do
    let slots ← j.slots ["version", "description", "sql", "applied_at_ms"]
    return ⟨← Codec.u64.required slots "version", ← Codec.string.required slots "description",
      ← Codec.string.required slots "sql", ← Codec.i64.required slots "applied_at_ms"⟩
  decode_encode x := by simp [slots_object]

/-- The document that is written. -/
structure CatalogData where
  tables : Map TableMeta
  indexes : Map IndexDef
  views : Map ViewDef
  sequences : Map SequenceDef
  udfs : Map UdfDef
  users : Map UserDef
  roles : Map RoleDef
  userRoles : Map (List String)
  triggers : Map TriggerDef
  schemaVersion : UInt64
  migrations : List MigrationRecord

def catalogData : Codec CatalogData where
  encode x := .object [("tables", tableMeta.map.encode x.tables), ("indexes", indexDef.map.encode x.indexes),
    ("views", viewDef.map.encode x.views), ("sequences", sequenceDef.map.encode x.sequences),
    ("udfs", udfDef.map.encode x.udfs), ("users", userDef.map.encode x.users),
    ("roles", roleDef.map.encode x.roles), ("user_roles", Codec.string.list.map.encode x.userRoles),
    ("triggers", triggerDef.map.encode x.triggers), ("schema_version", Codec.u64.encode x.schemaVersion),
    ("migrations", migrationRecord.list.encode x.migrations)]
  decode j := do
    let slots ← j.slots ["tables", "indexes", "views", "sequences", "udfs", "users", "roles", "user_roles",
      "triggers", "schema_version", "migrations"]
    return ⟨← tableMeta.map.required slots "tables", ← indexDef.map.defaulted ∅ slots "indexes",
      ← viewDef.map.defaulted ∅ slots "views", ← sequenceDef.map.defaulted ∅ slots "sequences",
      ← udfDef.map.defaulted ∅ slots "udfs", ← userDef.map.defaulted ∅ slots "users",
      ← roleDef.map.defaulted ∅ slots "roles", ← Codec.string.list.map.defaulted ∅ slots "user_roles",
      ← triggerDef.map.defaulted ∅ slots "triggers", ← Codec.u64.defaulted 0 slots "schema_version",
      ← migrationRecord.list.defaulted [] slots "migrations"⟩
  decode_encode x := by simp [slots_object]

/-- The document of older versions. -/
def legacyTables : Codec (Map TableMeta) := tableMeta.map

/-! ## Loading and writing -/

structure Catalog extends CatalogData where
  inTransaction : Bool
  dirty : Bool

def CatalogData.ofTables (tables : Map TableMeta) : CatalogData := ⟨tables, ∅, ∅, ∅, ∅, ∅, ∅, ∅, ∅, 0, []⟩

inductive StoreError where
  | notFound
  | other (message : String)

/-- `Catalog::load`, from what the store answers. -/
def load : Except StoreError Json → Except String Catalog
  | .ok document =>
    match catalogData.decode document with
    | .ok data => .ok ⟨data, false, false⟩
    | .error _ => do
      let tables ← legacyTables.decode document
      return ⟨.ofTables tables, false, false⟩
  | .error .notFound => .ok ⟨.ofTables ∅, false, false⟩
  | .error (.other message) => .error message

/-- What `write_to_store` puts. -/
def document (c : Catalog) : Json := catalogData.encode c.toCatalogData

theorem load_data {doc : Json} {data : CatalogData} (h : catalogData.decode doc = .ok data) :
    load (.ok doc) = .ok ⟨data, false, false⟩ := by
  unfold load
  dsimp only
  rw [h]

/-- A record of sections has a map of tables under `tables`. -/
theorem tables_of_data {fields : List (String × Json)} {data : CatalogData}
    (h : catalogData.decode (.object fields) = .ok data) :
    ∃ j tables, ("tables", j) ∈ fields ∧ tableMeta.map.decode j = .ok tables := by
  unfold catalogData at h
  dsimp only at h
  rw [slots_object, ok_bind] at h
  cases ht : tableMeta.map.required (slotOf fields) "tables" with
  | error e =>
    rw [ht] at h
    cases h
  | ok tables =>
    obtain ⟨j, hj, hdec⟩ := @mem_of_required _ _ [] _ _ _ _ (slots_object _ _) ht
    exact ⟨j, tables, hj, hdec⟩

/-- The name of a table is a text. -/
theorem name_of_table {fields : List (String × Json)} {m : TableMeta} (h : tableMeta.decode (.object fields) = .ok m) :
    ∃ s, ("name", Json.string s) ∈ fields := by
  unfold tableMeta at h
  dsimp only at h
  rw [slots_object, ok_bind] at h
  cases hn : Codec.string.required (slotOf fields) "name" with
  | error e =>
    rw [hn] at h
    cases h
  | ok name =>
    obtain ⟨j, hj, hdec⟩ := @mem_of_required _ _ [] _ _ _ _ (slots_object _ _) hn
    cases j with
    | string s => exact ⟨s, hj⟩
    | _ => cases hdec

theorem table_not_map {j : Json} {m : TableMeta} {tables : Map TableMeta} (hm : tableMeta.decode j = .ok m)
    (ht : tableMeta.map.decode j = .ok tables) : False := by
  obtain ⟨fields, pairs, rfl, hpairs⟩ := fields_of_map ht
  obtain ⟨s, hs⟩ := name_of_table hm
  obtain ⟨m', hm'⟩ := decode_of_mem hpairs _ hs
  cases hm'

theorem formats_apart {doc : Json} {data : CatalogData} {tables : Map TableMeta} (hd : catalogData.decode doc = .ok data)
    (ht : legacyTables.decode doc = .ok tables) : False := by
  obtain ⟨fields, pairs, rfl, hpairs⟩ := fields_of_map ht
  obtain ⟨j, sections, hj, hdec⟩ := tables_of_data hd
  obtain ⟨m, hm⟩ := decode_of_mem hpairs _ hj
  exact table_not_map hm hdec

theorem load_legacy {doc : Json} {tables : Map TableMeta} (h : legacyTables.decode doc = .ok tables) :
    load (.ok doc) = .ok ⟨.ofTables tables, false, false⟩ := by
  unfold load
  dsimp only
  cases hd : catalogData.decode doc with
  | ok data => exact (formats_apart hd h).elim
  | error e =>
    dsimp only
    rw [h]
    rfl

end PotatoDB.CatalogJson
