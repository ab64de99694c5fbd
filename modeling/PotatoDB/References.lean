import PotatoDB.DdlLog

/-!
# References inside the catalog

Indexes, constraints, triggers and materialized views name tables and columns by their texts. What
they name is there after every run of definitions whose statements take nothing away that is named.
-/

namespace PotatoDB

open Oplog Oplog.Prog
open Machine (apply)

/-! ## References -/

/-- The columns of the table itself that the constraint is on. -/
def TableConstraint.columns : TableConstraint → List String
  | primaryKey cols | unique _ cols | foreignKey _ cols .. => cols
  | check .. => []

namespace CatalogData

/-- The table exists and has the columns. -/
def HasColumns (c : CatalogData) (table : String) (cols : List String) : Prop :=
  ∃ m, c.tables.lookup table = some m ∧ ∀ col ∈ cols, col ∈ m.columnNames

/-- The references of the catalog: a table and columns of it. -/
inductive Refers (c : CatalogData) : String → List String → Prop
  | index {k : String} {i : IndexDef} (h : c.indexes.lookup k = some i) : Refers c i.tableName (i.columns.map (·.name))
  | partition {k : String} {m : TableMeta} (h : c.tables.lookup k = some m) : Refers c k m.partitionColumns
  | constraint {k : String} {m : TableMeta} {con : TableConstraint} (h : c.tables.lookup k = some m)
    (hcon : con ∈ m.constraints) : Refers c k con.columns
  | foreignKey {k : String} {m : TableMeta} {name refTable : String} {cols refCols : List String} {onDelete : Option String}
    (h : c.tables.lookup k = some m) (hcon : .foreignKey name cols refTable refCols onDelete ∈ m.constraints) :
    Refers c refTable refCols
  | trigger {k : String} {t : TriggerDef} (h : c.triggers.lookup k = some t) : Refers c t.table []
  | view {k backing : String} {v : ViewDef} (h : c.views.lookup k = some v) (hm : v.materialized = true)
    (hb : v.backingTable = some backing) : Refers c backing []

/-- What the catalog names is there. -/
structure Referential (c : CatalogData) : Prop where
  resolves : ∀ table cols, c.Refers table cols → c.HasColumns table cols
  backed : ∀ k v, c.views.lookup k = some v → v.materialized = true → v.backingTable ≠ none

/-- Nothing but its own definition and its indexes names the table. -/
structure Removable (c : CatalogData) (table : String) : Prop where
  triggers : ∀ k t, c.triggers.lookup k = some t → t.table ≠ table
  views : ∀ k v, c.views.lookup k = some v → v.materialized = true → v.backingTable ≠ some table
  foreignKeys : ∀ k m name cols refCols onDelete, c.tables.lookup k = some m → k ≠ table →
    .foreignKey name cols table refCols onDelete ∉ m.constraints

/-- Nor does its own definition. -/
structure Renamable (c : CatalogData) (table : String) : Prop extends Removable c table where
  own : ∀ m name cols refCols onDelete, c.tables.lookup table = some m →
    .foreignKey name cols table refCols onDelete ∉ m.constraints

/-- No index, constraint or partition names the column. -/
def Unused (c : CatalogData) (table col : String) : Prop := ∀ cols, c.Refers table cols → col ∉ cols

end CatalogData

/-- The columns that the definition names are its own, or those of a table that exists. -/
structure CreateTable.Fits (create : CreateTable) (c : CatalogData) : Prop where
  partitions : ∀ col ∈ create.partitionColumns, col ∈ create.columns.map (·.name)
  constraints : ∀ con ∈ create.constraints, ∀ col ∈ con.columns, col ∈ create.columns.map (·.name)
  foreignKeys : ∀ name cols refTable refCols onDelete, .foreignKey name cols refTable refCols onDelete ∈ create.constraints →
    c.HasColumns refTable refCols ∨ refTable = create.name ∧ ∀ col ∈ refCols, col ∈ create.columns.map (·.name)

/-- After the operation the table has no such column, or not for certain. -/
def AlterTableOperation.Takes (col : String) : AlterTableOperation → Prop
  | dropColumn name _ => col = name
  | renameColumn oldName newName => col = oldName ∧ oldName ≠ newName
  | addColumn .. | unsupported _ => False

/-! ## Statements -/

inductive SchemaStatement where
  | ddl (stmt : DdlStatement)
  | createTrigger (trigger : TriggerDef)
  | dropTrigger (name : String)

section
variable (env : Env)

def SchemaStatement.run : SchemaStatement → M QueryResult
  | ddl stmt => stmt.run env
  | createTrigger trigger => handleCreateTrigger trigger
  | dropTrigger name => handleDropTrigger name

/-- The statements run one after the other, up to one that fails. -/
def SchemaStatement.runAll : List SchemaStatement → M Unit :=
  each fun stmt => do
    let _ ← stmt.run env

/-- The statement names what is there, and takes nothing away that something else names. -/
def SchemaStatement.Careful (s : Db) : SchemaStatement → Prop
  | ddl (.createTable create) => s.catalog.tables.lookup create.name ≠ none ∨
    match create.query with
    | none => create.Fits s.catalog
    | some query => ∀ r, env.eval (.user query) s.relation = .ok r → ∀ col ∈ create.partitionColumns, col ∈ r.schema.map (·.name)
  | ddl (.dropTable name _) => s.catalog.Removable name
  | ddl (.alterTable _ alter) => s.catalog.tables.lookup alter.name = none ∨
    match alter.rename, alter.retention with
    | some (oldName, newName), _ => oldName = newName ∨ s.catalog.Renamable oldName
    | none, some _ => True
    | none, none => ∀ op ∈ alter.operations, ∀ col, op.Takes col → s.catalog.Unused alter.name col
  | ddl (.createView create) => create.materialized = true → ∀ k m name cols refCols onDelete,
    s.catalog.tables.lookup k = some m → .foreignKey name cols (backingTable create.name) refCols onDelete ∉ m.constraints
  | ddl (.dropView name _) => ∀ v backing, s.catalog.views.lookup name = some v → v.materialized = true →
    v.backingTable = some backing → (s.catalog.removeView name).Removable backing
  | createTrigger trigger => s.catalog.tables.lookup trigger.table ≠ none
  | _ => True

/-- The states that careful definitions that succeed lead to. -/
inductive SchemaReached : Db → Prop
  | new : SchemaReached .new
  | step {s : Db} {stmt : SchemaStatement} (_ : SchemaReached s) (hs : Succeeds (stmt.run env) s) (hc : stmt.Careful env s) :
    SchemaReached ((stmt.run env).final s)

end

/-! ## The catalog under the operations -/

namespace CatalogData

variable {c c' : CatalogData}

theorem HasColumns.of_lookup {table : String} {cols : List String} (h : c.HasColumns table cols)
    (ht : c'.tables.lookup table = c.tables.lookup table) : c'.HasColumns table cols := by
  obtain ⟨m, hm, hcols⟩ := h
  exact ⟨m, ht.trans hm, hcols⟩

/-- The tables are as they were, and the other entries were there or name what is there. -/
theorem Referential.of_entries (h : c.Referential) (ht : c'.tables = c.tables)
    (hindexes : ∀ k i, c'.indexes.lookup k = some i → c.HasColumns i.tableName (i.columns.map (·.name)))
    (htriggers : ∀ k t, c'.triggers.lookup k = some t → c.HasColumns t.table [])
    (hviews : ∀ k v, c'.views.lookup k = some v → v.materialized = true → c.views.lookup k = some v) : c'.Referential := by
  refine ⟨fun table cols href => ?_, fun k v hv hm => h.backed k v (hviews k v hv hm) hm⟩
  have hthere : c.HasColumns table cols := by
    cases href with
    | index hi => exact hindexes _ _ hi
    | partition hm =>
      rw [ht] at hm
      exact h.resolves _ _ (.partition hm)
    | constraint hm hcon =>
      rw [ht] at hm
      exact h.resolves _ _ (.constraint hm hcon)
    | foreignKey hm hcon =>
      rw [ht] at hm
      exact h.resolves _ _ (.foreignKey hm hcon)
    | trigger ht => exact htriggers _ _ ht
    | view hv hm hb => exact h.resolves _ _ (.view (hviews _ _ hv hm) hm hb)
  exact hthere.of_lookup (by rw [ht])

/-- The tables are as they were, but for what nothing refers to. -/
structure Alike (c c' : CatalogData) : Prop where
  tables : ∀ k m', c'.tables.lookup k = some m' → ∃ m, c.tables.lookup k = some m ∧ m'.partitionColumns = m.partitionColumns ∧
    m'.constraints = m.constraints
  indexes : ∀ k i', c'.indexes.lookup k = some i' → ∃ i, c.indexes.lookup k = some i ∧ i'.tableName = i.tableName ∧
    i'.columns = i.columns
  triggers : c'.triggers = c.triggers
  views : c'.views = c.views

theorem Alike.refers (h : c.Alike c') {table : String} {cols : List String} (href : c'.Refers table cols) :
    c.Refers table cols := by
  cases href with
  | index hi =>
    obtain ⟨i, hi, hname, hcols⟩ := h.indexes _ _ hi
    rw [hname, hcols]
    exact .index hi
  | partition hm =>
    obtain ⟨m, hm, hp, -⟩ := h.tables _ _ hm
    rw [hp]
    exact .partition hm
  | constraint hm hcon =>
    obtain ⟨m, hm, -, hc⟩ := h.tables _ _ hm
    rw [hc] at hcon
    exact .constraint hm hcon
  | foreignKey hm hcon =>
    obtain ⟨m, hm, -, hc⟩ := h.tables _ _ hm
    rw [hc] at hcon
    exact .foreignKey hm hcon
  | trigger ht =>
    rw [h.triggers] at ht
    exact .trigger ht
  | view hv hm hb =>
    rw [h.views] at hv
    exact .view hv hm hb

theorem Alike.referential (h : c.Alike c') (hc : c.Referential)
    (ht : ∀ table cols, c.Refers table cols → c.HasColumns table cols → c'.HasColumns table cols) : c'.Referential :=
  ⟨fun table cols href => ht table cols (h.refers href) (hc.resolves _ _ (h.refers href)), by
    rw [h.views]
    exact hc.backed⟩

/-- A table is put under a name that nothing outside it uses for other columns. -/
theorem Referential.put (h : c.Referential) {table : String} {m : TableMeta}
    (ht : ∀ k, c'.tables.lookup k = if k = table then some m else c.tables.lookup k)
    (hindexes : ∀ k i, c'.indexes.lookup k = some i → c.indexes.lookup k = some i ∧ i.tableName ≠ table)
    (htriggers : c'.triggers = c.triggers)
    (hviews : ∀ k v, c'.views.lookup k = some v → c.views.lookup k = some v ∨ v.materialized = false ∨
      v.backingTable = some table)
    (hforeign : ∀ k m₀ name cols refCols onDelete, c.tables.lookup k = some m₀ → k ≠ table →
      .foreignKey name cols table refCols onDelete ∈ m₀.constraints → ∀ col ∈ refCols, col ∈ m.columnNames)
    (hpartitions : ∀ col ∈ m.partitionColumns, col ∈ m.columnNames)
    (hconstraints : ∀ con ∈ m.constraints, ∀ col ∈ con.columns, col ∈ m.columnNames)
    (hown : ∀ name cols refTable refCols onDelete, .foreignKey name cols refTable refCols onDelete ∈ m.constraints →
      c.HasColumns refTable refCols ∧ refTable ≠ table ∨ refTable = table ∧ ∀ col ∈ refCols, col ∈ m.columnNames) :
    c'.Referential := by
  have hself : ∀ cols : List String, (∀ col ∈ cols, col ∈ m.columnNames) → c'.HasColumns table cols :=
    fun cols hcols => ⟨m, by rw [ht, if_pos rfl], hcols⟩
  have hother : ∀ {t : String} {cols : List String}, t ≠ table → c.HasColumns t cols → c'.HasColumns t cols :=
    fun hne hcols => hcols.of_lookup (by rw [ht, if_neg hne])
  -- what the table is does not matter for a reference to no column of it
  have hnone : ∀ {t : String}, c.Refers t [] → c'.HasColumns t [] := by
    intro t href
    by_cases hk : t = table
    · rw [hk]
      exact hself [] (by simp)
    · exact hother hk (h.resolves _ _ href)
  constructor
  · intro t cols href
    cases href with
    | index hi =>
      obtain ⟨hi, hne⟩ := hindexes _ _ hi
      exact hother hne (h.resolves _ _ (.index hi))
    | @partition k m₀ hm =>
      rw [ht] at hm
      split at hm
      · rename_i hk
        cases hm
        rw [hk]
        exact hself _ hpartitions
      · rename_i hk
        exact hother hk (h.resolves _ _ (.partition hm))
    | @constraint k m₀ con hm hcon =>
      rw [ht] at hm
      split at hm
      · rename_i hk
        cases hm
        rw [hk]
        exact hself _ (hconstraints _ hcon)
      · rename_i hk
        exact hother hk (h.resolves _ _ (.constraint hm hcon))
    | @foreignKey k m₀ name refTable keyCols refCols onDelete hm hcon =>
      rw [ht] at hm
      split at hm
      · cases hm
        rcases hown _ _ _ _ _ hcon with ⟨hhas, hne⟩ | ⟨htable, hcols⟩
        · exact hother hne hhas
        · rw [htable]
          exact hself _ hcols
      · rename_i hk
        by_cases hr : t = table
        · rw [hr] at hcon ⊢
          exact hself _ (hforeign _ _ _ _ _ _ hm hk hcon)
        · exact hother hr (h.resolves _ _ (.foreignKey hm hcon))
    | trigger htr =>
      rw [htriggers] at htr
      exact hnone (.trigger htr)
    | @view k backing v hv hm hb =>
      rcases hviews _ _ hv with hv | hv | hv
      · exact hnone (.view hv hm hb)
      · rw [hv] at hm
        cases hm
      · rw [hv] at hb
        cases hb
        exact hself [] (by simp)
  · intro k v hv hm
    rcases hviews k v hv with hv | hv | hv
    · exact h.backed k v hv hm
    · rw [hv] at hm
      cases hm
    · simp [hv]

theorem Referential.remove (h : c.Referential) {table : String} (hr : c.Removable table) :
    (c.removeTable table).Referential := by
  have hlookup : ∀ {k : String} {m : TableMeta}, (c.removeTable table).tables.lookup k = some m →
      k ≠ table ∧ c.tables.lookup k = some m := by
    intro k m hm
    by_cases hk : k = table
    · rw [hk] at hm
      cases (AList.lookup_erase table c.tables).symm.trans hm
    · exact ⟨hk, (AList.lookup_erase_ne hk).symm.trans hm⟩
  have hother : ∀ {t : String} {cols : List String}, t ≠ table → c.HasColumns t cols →
      (c.removeTable table).HasColumns t cols := fun hne hcols => hcols.of_lookup (AList.lookup_erase_ne hne)
  refine ⟨fun t cols href => ?_, h.backed⟩
  cases href with
  | index hi =>
    obtain ⟨hi, hkeep⟩ := Map.lookup_retain hi
    exact hother (by simpa using hkeep) (h.resolves _ _ (.index hi))
  | partition hm =>
    obtain ⟨hk, hm⟩ := hlookup hm
    exact hother hk (h.resolves _ _ (.partition hm))
  | constraint hm hcon =>
    obtain ⟨hk, hm⟩ := hlookup hm
    exact hother hk (h.resolves _ _ (.constraint hm hcon))
  | foreignKey hm hcon =>
    obtain ⟨hk, hm⟩ := hlookup hm
    refine hother (fun ht => ?_) (h.resolves _ _ (.foreignKey hm hcon))
    rw [ht] at hcon
    exact hr.foreignKeys _ _ _ _ _ _ hm hk hcon
  | trigger ht => exact hother (hr.triggers _ _ ht) (h.resolves _ _ (.trigger ht))
  | view hv hm hb =>
    refine hother (fun ht => hr.views _ _ hv hm ?_) (h.resolves _ _ (.view hv hm hb))
    rw [hb, ht]

theorem Referential.rename (h : c.Referential) {oldName newName : String} {m : TableMeta}
    (hm : c.tables.lookup oldName = some m) (hnew : c.tables.lookup newName = none) (hr : c.Renamable oldName) :
    (c.renameTable oldName newName m).Referential := by
  have hold : oldName ≠ newName := by
    rintro rfl
    rw [hm] at hnew
    cases hnew
  have hself : ∀ {cols : List String}, c.HasColumns oldName cols → (c.renameTable oldName newName m).HasColumns newName cols := by
    rintro cols ⟨m', hm', hcols⟩
    cases hm.symm.trans hm'
    exact ⟨_, AList.lookup_insert _, hcols⟩
  have hother : ∀ {t : String} {cols : List String}, t ≠ oldName → c.HasColumns t cols →
      (c.renameTable oldName newName m).HasColumns t cols := by
    intro t cols hne hcols
    refine hcols.of_lookup ?_
    have hne' : t ≠ newName := by
      rintro rfl
      obtain ⟨m', hm', -⟩ := hcols
      rw [hnew] at hm'
      cases hm'
    exact (AList.lookup_insert_ne hne').trans (AList.lookup_erase_ne hne)
  have hlookup : ∀ {k : String} {m' : TableMeta}, (c.renameTable oldName newName m).tables.lookup k = some m' →
      k = newName ∧ m' = { m with name := newName } ∨ k ≠ oldName ∧ c.tables.lookup k = some m' := by
    intro k m' hm'
    by_cases hk : k = newName
    · rw [hk] at hm'
      exact .inl ⟨hk, Option.some.inj (hm'.symm.trans (AList.lookup_insert _))⟩
    · have hm' := (AList.lookup_insert_ne hk).symm.trans hm'
      by_cases hk' : k = oldName
      · rw [hk', AList.lookup_erase] at hm'
        cases hm'
      · exact .inr ⟨hk', (AList.lookup_erase_ne hk').symm.trans hm'⟩
  refine ⟨fun t cols href => ?_, h.backed⟩
  cases href with
  | @index k i hi =>
    have hi' := (Map.lookup_mapValues _ _ _).symm.trans hi
    obtain ⟨i₀, hi₀, rfl⟩ := Option.map_eq_some_iff.mp hi'
    by_cases ht : i₀.tableName = oldName
    · rw [if_pos ht]
      refine hself ?_
      rw [← ht]
      exact h.resolves _ _ (.index hi₀)
    · rw [if_neg ht]
      exact hother ht (h.resolves _ _ (.index hi₀))
  | partition hm' =>
    rcases hlookup hm' with ⟨hk, rfl⟩ | ⟨hk, hm'⟩
    · rw [hk]
      exact hself (h.resolves oldName m.partitionColumns (.partition hm))
    · exact hother hk (h.resolves _ _ (.partition hm'))
  | constraint hm' hcon =>
    rcases hlookup hm' with ⟨hk, rfl⟩ | ⟨hk, hm'⟩
    · rw [hk]
      exact hself (h.resolves _ _ (.constraint hm hcon))
    · exact hother hk (h.resolves _ _ (.constraint hm' hcon))
  | foreignKey hm' hcon =>
    rcases hlookup hm' with ⟨hk, rfl⟩ | ⟨hk, hm'⟩
    · refine hother (fun ht => ?_) (h.resolves _ _ (.foreignKey hm hcon))
      rw [ht] at hcon
      exact hr.own _ _ _ _ _ hm hcon
    · refine hother (fun ht => ?_) (h.resolves _ _ (.foreignKey hm' hcon))
      rw [ht] at hcon
      exact hr.foreignKeys _ _ _ _ _ _ hm' hk hcon
  | trigger ht => exact hother (hr.triggers _ _ ht) (h.resolves _ _ (.trigger ht))
  | view hv hmat hb =>
    refine hother (fun ht => hr.views _ _ hv hmat ?_) (h.resolves _ _ (.view hv hmat hb))
    rw [hb, ht]

end CatalogData

end PotatoDB
