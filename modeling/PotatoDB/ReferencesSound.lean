import PotatoDB.DdlLogSound
import PotatoDB.Evolution
import PotatoDB.References

/-!
# References after definitions

The catalog that each handler leaves, and that a careful statement that succeeds leaves every name
of the catalog a table or a column.
-/

namespace PotatoDB

open Oplog Oplog.Prog
open Machine (apply)

/-! ## The catalog after the handlers -/

/-- The catalog with one more table, whose file statistics may have been read. -/
structure CatalogData.Adds (c : CatalogData) (m : TableMeta) (c' : CatalogData) : Prop where
  tables : ∃ stats, ∀ k, c'.tables.lookup k = if k = m.name then some { m with fileStats := stats } else c.tables.lookup k
  indexes : c'.indexes = c.indexes
  triggers : c'.triggers = c.triggers
  views : c'.views = c.views

section
variable {env : Env} {s : Db}

theorem yields_kept {α β : Type} {p : M α} {f : α → M β} {R : β → Db → Prop} (hp : Emits Op.Uncataloged p)
    (hf : ∀ a t, p.result s = .ok a → t.catalog = s.catalog → Yields (f a) t R) : Yields (p >>= f) s R :=
  yields_bind.mpr fun a ha => hf a _ ha (catalog_of_emits hp s)

theorem yields_addTable (m : TableMeta) (r : QueryResult) : Yields (do
    modifyCatalog (·.addTable m)
    catalogSave
    refreshTableFileStats env m.name
    return r : M QueryResult) s fun _ t => s.catalog.Adds m t.catalog := by
  rw [yields_bind]
  intro _ _
  refine yields_kept uncataloged_catalogSave fun _ t _ hc => ?_
  have hc : t.catalog = s.catalog.addTable m := hc
  have hadded : ∀ k, t.catalog.tables.lookup k = if k = m.name then some m else s.catalog.tables.lookup k := by
    intro k
    rw [hc]
    split
    · rename_i hk
      rw [hk]
      exact AList.lookup_insert _
    · rename_i hk
      exact AList.lookup_insert_ne hk
  intro _ _
  rw [final_bind_readOnly fun _ => readOnly_pure _]
  unfold refreshTableFileStats
  rw [final_get_bind, hadded, if_pos rfl]
  dsimp only
  generalize (t.store.list (objPath m.name)).map _ = stats
  rw [final_bind]
  have hfinal : (catalogSave.final ((modifyCatalog fun c => c.setFileStats m.name stats).final t)).catalog =
      t.catalog.setFileStats m.name stats := catalog_of_emits uncataloged_catalogSave _
  have hrest : ∀ {α : Type} (f : CatalogData → α), f (t.catalog.setFileStats m.name stats) =
      f ((s.catalog.addTable m).setFileStats m.name stats) := fun f => by rw [hc]
  refine ⟨⟨stats, fun k => ?_⟩, ?_, ?_, ?_⟩
  · refine (congrArg (fun c => c.tables.lookup k) hfinal).trans ?_
    refine (Map.lookup_mapValues _ _ _).trans ?_
    rw [hadded]
    by_cases hk : k = m.name
    · rw [if_pos hk, if_pos hk]
      simp [hk]
    · rw [if_neg hk, if_neg hk]
      simp [hk]
  · exact (congrArg (·.indexes) hfinal).trans (hrest (·.indexes))
  · exact (congrArg (·.triggers) hfinal).trans (hrest (·.triggers))
  · exact (congrArg (·.views) hfinal).trans (hrest (·.views))

/-- The columns that a table gets from the result of a query. -/
def resultColumns (env : Env) (r : Relation) : List ColumnDef :=
  r.schema.map fun f => ⟨f.name, env.arrowTypeToSqlString f.dataType, f.nullable⟩

/-- The table that CREATE TABLE AS makes. -/
theorem yields_handleCtas (table query : String) (partitionColumns : List String) :
    Yields (handleCtas env table query partitionColumns) s fun _ t => ∃ r m, env.eval (.user query) s.relation = .ok r ∧
      m.name = table ∧ m.columns = resultColumns env r ∧ m.partitionColumns = partitionColumns ∧
      m.constraints = [] ∧ s.catalog.Adds m t.catalog := by
  unfold handleCtas
  refine yields_kept (readOnly_runQuery _).emits fun r t hr ht => ?_
  have heval : env.eval (.user query) s.relation = .ok r := by
    rw [runQuery, result_get_bind] at hr
    exact hr
  refine yields_kept (emits_check _) fun schema t _ ht' => ?_
  refine yields_kept (emits_emit trivial) fun _ t _ ht'' => ?_
  have hc : t.catalog = s.catalog := ht''.trans (ht'.trans ht)
  have hadd : ∀ (m : TableMeta) (u : Db), m.name = table → m.columns = resultColumns env r →
      m.partitionColumns = partitionColumns → m.constraints = [] → u.catalog = s.catalog → Yields (do
        modifyCatalog (·.addTable m)
        catalogSave
        refreshTableFileStats env table
        return .message s!"Table '{table}' created." : M QueryResult) u fun _ v => ∃ r m,
          env.eval (.user query) s.relation = .ok r ∧ m.name = table ∧ m.columns = resultColumns env r ∧
          m.partitionColumns = partitionColumns ∧ m.constraints = [] ∧ s.catalog.Adds m v.catalog := by
    intro m u hname hcols hp hcon hu
    rw [← hname]
    refine (yields_addTable m _).mono fun _ v hv => ⟨r, m, heval, rfl, hcols, hp, hcon, ?_⟩
    rw [← hu]
    exact hv
  dsimp only
  split
  · refine yields_kept (emits_check _) fun _ u _ hu => ?_
    refine yields_kept (uncataloged_insertInto _ _ _) fun _ v _ hv => ?_
    exact hadd _ v rfl rfl rfl rfl (hv.trans (hu.trans hc))
  · exact hadd _ t rfl rfl rfl rfl hc

/-- A new table that names its own columns, or those of tables that exist. -/
theorem CatalogData.Adds.referential {c c' : CatalogData} {m : TableMeta} (h : c.Adds m c') (hc : c.Referential)
    (hnew : c.tables.lookup m.name = none) (hpartitions : ∀ col ∈ m.partitionColumns, col ∈ m.columnNames)
    (hconstraints : ∀ con ∈ m.constraints, ∀ col ∈ con.columns, col ∈ m.columnNames)
    (hown : ∀ name cols refTable refCols onDelete, .foreignKey name cols refTable refCols onDelete ∈ m.constraints →
      c.HasColumns refTable refCols ∨ refTable = m.name ∧ ∀ col ∈ refCols, col ∈ m.columnNames) : c'.Referential := by
  have hne : ∀ {t : String} {cols : List String}, c.HasColumns t cols → t ≠ m.name := by
    rintro t cols ⟨m', hm', -⟩ rfl
    rw [hnew] at hm'
    cases hm'
  obtain ⟨stats, ht⟩ := h.tables
  refine hc.put ht (fun k i hi => ?_) h.triggers (fun k v hv => ?_) ?_ hpartitions hconstraints ?_
  · rw [h.indexes] at hi
    exact ⟨hi, hne (hc.resolves _ _ (.index hi))⟩
  · rw [h.views] at hv
    exact .inl hv
  · intro k m₀ name cols refCols onDelete hm₀ _ hcon
    exact absurd rfl (hne (hc.resolves _ _ (.foreignKey hm₀ hcon)))
  · intro name cols refTable refCols onDelete hcon
    rcases hown _ _ _ _ _ hcon with hhas | hself
    · exact .inl ⟨hhas, hne hhas⟩
    · exact .inr hself

theorem referential_handleCreateTable (hc : s.catalog.Referential) {create : CreateTable}
    (hcare : (SchemaStatement.ddl (.createTable create)).Careful env s) :
    Yields (handleCreateTable env create) s fun _ t => t.catalog.Referential := by
  unfold handleCreateTable
  rw [yields_bind, yields_get]
  dsimp only
  split
  · split
    · exact yields_pure.mpr hc
    · exact yields_throw
  · rename_i hnew
    have hnew : s.catalog.tables.lookup create.name = none := by simpa using hnew
    rcases hcare with hsome | hcare
    · exact absurd hnew hsome
    refine yields_append fun t ht hrel => ?_
    cases hq : create.query with
    | some query =>
      rw [hq] at hcare
      refine (yields_handleCtas _ _ _).mono ?_
      rintro _ u ⟨r, m, heval, hname, hcols, hp, hcon, hadds⟩
      rw [hrel] at heval
      rw [ht] at hadds
      refine hadds.referential hc (by rwa [hname]) ?_ (by simp [hcon]) (by simp [hcon])
      rw [hp, TableMeta.columnNames, hcols, resultColumns, List.map_map]
      exact hcare r heval
    | none =>
      rw [hq] at hcare
      dsimp only
      split
      · exact yields_throw
      · refine yields_kept (emits_check _) fun schema u _ hu => yields_kept (emits_emit trivial) fun _ v _ hv => ?_
        have hv : v.catalog = s.catalog := hv.trans (hu.trans ht)
        refine (yields_addTable ⟨create.name, create.columns, tableUrl env create.name, create.partitionColumns, none, none,
          create.constraints, []⟩ _).mono fun _ w hw => ?_
        rw [hv] at hw
        exact hw.referential hc hnew hcare.partitions hcare.constraints hcare.foreignKeys

theorem CatalogData.Referential.addIndex {c : CatalogData} (h : c.Referential) {i : IndexDef}
    (hi : c.HasColumns i.tableName (i.columns.map (·.name))) :
    ((c.demoteIndexes i.tableName).addIndex i).Referential := by
  refine h.of_entries rfl (fun k j hj => ?_) (fun _ _ ht => h.resolves _ _ (.trigger ht)) fun _ _ hv _ => hv
  by_cases hk : k = i.name
  · rw [hk] at hj
    obtain rfl := Option.some.inj ((AList.lookup_insert _).symm.trans hj)
    exact hi
  · have hj := (AList.lookup_insert_ne hk).symm.trans hj
    obtain ⟨j₀, hj₀, rfl⟩ := Option.map_eq_some_iff.mp ((Map.lookup_mapValues _ _ _).symm.trans hj)
    have hres := h.resolves _ _ (.index hj₀)
    split
    · exact hres
    · exact hres

/-- What a successful CREATE INDEX has found and left. -/
theorem catalog_handleCreateIndex (create : CreateIndex) : Yields (handleCreateIndex env create) s fun _ t =>
    ∃ name, create.name = some name ∧ ((∃ i, s.catalog.indexes.lookup name = some i) ∧ t.catalog = s.catalog ∨
      s.catalog.indexes.lookup name = none ∧ create.columns ≠ [] ∧
      s.catalog.HasColumns create.tableName (create.columns.map (·.name)) ∧
      t.catalog = (s.catalog.demoteIndexes create.tableName).addIndex ⟨name, create.tableName, create.columns, false, true⟩) := by
  unfold handleCreateIndex
  cases create.name with
  | none => exact yields_throw
  | some name =>
    dsimp only
    rw [yields_bind, yields_get]
    split
    · rename_i hsome
      split
      · exact yields_pure.mpr ⟨name, rfl, .inl ⟨Option.isSome_iff_exists.mp hsome, rfl⟩⟩
      · exact yields_throw
    · rename_i hnew
      refine yields_bind.mpr (yields_tableMeta fun m hm => ?_)
      cases hfind : create.columns.find? fun c => !m.columnNames.contains c.name with
      | some c => exact yields_throw
      | none =>
        dsimp only
        split
        · exact yields_throw
        · rename_i hempty
          have hcols : s.catalog.HasColumns create.tableName (create.columns.map (·.name)) := by
            refine ⟨m, hm, fun col hcol => ?_⟩
            obtain ⟨c, hmem, rfl⟩ := List.mem_map.mp hcol
            simpa using List.find?_eq_none.mp hfind c hmem
          refine yields_append fun t ht _ => ?_
          refine yields_kept (uncataloged_backupTableForTxn _) fun _ t _ h₁ => ?_
          refine yields_kept (readOnly_selectOrdered _ _).emits fun sorted t _ h₂ => ?_
          refine yields_kept (emits_emit trivial) fun _ t _ h₃ => ?_
          refine yields_kept ((minor_deleteParquetFiles _).mono fun _ h => h.uncataloged) fun _ t _ h₄ => ?_
          rw [yields_bind]
          intro _ _ _ _
          refine ⟨name, rfl, .inr ⟨by simpa using hnew, by simpa using hempty, hcols, (catalog_of_emits ?_ _).trans ?_⟩⟩
          · refine uncataloged_catalogSave.bind fun _ => (emits_check _).bind fun schema =>
              Emits.bind (emits_emit trivial) fun _ => ?_
            split
            · exact (emits_check _).bind fun _ => (uncataloged_insertInto _ _ _).bind fun _ => emits_pure _
            · exact emits_pure _
          · show (t.catalog.demoteIndexes create.tableName).addIndex _ = _
            rw [h₄, h₃, h₂, h₁, ht]

theorem referential_handleCreateIndex (hc : s.catalog.Referential) (create : CreateIndex) :
    Yields (handleCreateIndex env create) s fun _ t => t.catalog.Referential := by
  refine (catalog_handleCreateIndex create).mono ?_
  rintro _ t ⟨name, -, ⟨-, heq⟩ | ⟨-, -, hcols, heq⟩⟩
  · rw [heq]
    exact hc
  · rw [heq]
    exact hc.addIndex hcols

/-! ## Columns -/

/-- What is not part of a table's definition is set. -/
theorem CatalogData.Referential.modify {c : CatalogData} (h : c.Referential) (table : String) {f : TableMeta → TableMeta}
    (hf : ∀ m, (f m).columns = m.columns ∧ (f m).partitionColumns = m.partitionColumns ∧ (f m).constraints = m.constraints) :
    { c with tables := c.tables.modify table f : CatalogData }.Referential := by
  have hlookup : ∀ k, (c.tables.modify table f).lookup k = (c.tables.lookup k).map fun m => if k = table then f m else m :=
    Map.lookup_mapValues _ _
  have halike : c.Alike { c with tables := c.tables.modify table f } := by
    refine ⟨fun k m' hm' => ?_, fun k i hi => ⟨i, hi, rfl, rfl⟩, rfl, rfl⟩
    obtain ⟨m, hm, rfl⟩ := Option.map_eq_some_iff.mp ((hlookup k).symm.trans hm')
    refine ⟨m, hm, ?_⟩
    split
    · exact (hf m).2
    · exact ⟨rfl, rfl⟩
  refine halike.referential h fun t cols _ hhas => ?_
  obtain ⟨m, hm, hcols⟩ := hhas
  refine ⟨if t = table then f m else m, (hlookup t).trans (by rw [hm, Option.map_some]), ?_⟩
  split
  · rwa [TableMeta.columnNames, (hf m).1]
  · exact hcols

theorem CatalogData.alike_withColumns (c : CatalogData) (table : String) (columns : List ColumnDef) :
    c.Alike (c.withColumns table columns) := by
  refine ⟨fun k m' hm' => ?_, fun k i hi => ⟨i, hi, rfl, rfl⟩, rfl, rfl⟩
  rw [lookup_withColumns] at hm'
  obtain ⟨m, hm, rfl⟩ := Option.map_eq_some_iff.mp hm'
  refine ⟨m, hm, ?_⟩
  split
  · exact ⟨rfl, rfl⟩
  · exact ⟨rfl, rfl⟩

theorem AlterTableOperation.change_keeps {op : AlterTableOperation} {columns : List ColumnDef} {col : String}
    (h : col ∈ columns.map (·.name)) (ht : ¬ op.Takes col) : col ∈ (op.change columns).map (·.name) := by
  cases op with
  | addColumn column ifNotExists =>
    rw [AlterTableOperation.change]
    split
    · exact h
    · rw [List.map_append]
      exact List.mem_append_left _ h
  | dropColumn name ifExists =>
    obtain ⟨c, hc, rfl⟩ := List.mem_map.mp h
    exact List.mem_map.mpr ⟨c, List.mem_filter.mpr ⟨hc, by simpa [AlterTableOperation.Takes] using ht⟩, rfl⟩
  | renameColumn oldName newName =>
    have ht : col = oldName → oldName = newName := by
      intro hcol
      by_contra hne
      exact ht ⟨hcol, hne⟩
    show col ∈ (PotatoDB.renameColumn oldName newName columns).map (·.name)
    induction columns with
    | nil => exact h
    | cons c cs ih =>
      rw [PotatoDB.renameColumn]
      rcases List.mem_cons.mp h with hcol | hcs
      · dsimp only at hcol
        split
        · rename_i hname
          have hnew : newName = col := by
            rw [hcol, hname]
            exact (ht (hcol.trans hname)).symm
          exact List.mem_cons.mpr (.inl hnew.symm)
        · exact List.mem_cons.mpr (.inl hcol)
      · split
        · exact List.mem_cons_of_mem _ hcs
        · exact List.mem_cons_of_mem _ (ih hcs)
  | unsupported display => exact h

/-- An operation that takes no column that is named. -/
theorem referential_alterTableOperation (hc : s.catalog.Referential) {table : String} {m : TableMeta}
    (hm : s.catalog.tables.lookup table = some m) {op : AlterTableOperation}
    (hop : ∀ col, op.Takes col → s.catalog.Unused table col) :
    ((alterTableOperation table op).final s).catalog.Referential ∧
      s.catalog.Alike ((alterTableOperation table op).final s).catalog ∧
      ∃ m', ((alterTableOperation table op).final s).catalog.tables.lookup table = some m' := by
  rcases catalog_alterTableOperation hm op with ⟨heq, -⟩ | heq
  · rw [heq]
    exact ⟨hc, ⟨fun k m hm => ⟨m, hm, rfl, rfl⟩, fun k i hi => ⟨i, hi, rfl, rfl⟩, rfl, rfl⟩, m, hm⟩
  · rw [heq]
    have halike := s.catalog.alike_withColumns table (op.change m.columns)
    refine ⟨halike.referential hc fun t cols href hhas => ?_, halike, ?_⟩
    · obtain ⟨m', hm', hcols⟩ := hhas
      by_cases ht : t = table
      · rw [ht] at hm' href ⊢
        obtain rfl := Option.some.inj (hm.symm.trans hm')
        refine ⟨{ m with columns := op.change m.columns }, ?_, fun col hcol => ?_⟩
        · rw [CatalogData.lookup_withColumns, hm, Option.map_some, if_pos rfl]
        · exact AlterTableOperation.change_keeps (hcols col hcol) fun htakes => hop col htakes cols href hcol
      · exact ⟨m', by rw [CatalogData.lookup_withColumns, hm', Option.map_some, if_neg ht], hcols⟩
    · exact ⟨_, by rw [CatalogData.lookup_withColumns, hm, Option.map_some]⟩

theorem referential_alterTableOperations (table : String) {ops : List AlterTableOperation} : ∀ {s : Db},
    s.catalog.Referential → (∃ m, s.catalog.tables.lookup table = some m) →
    (∀ op ∈ ops, ∀ col, op.Takes col → s.catalog.Unused table col) →
    ((alterTableOperations table ops).final s).catalog.Referential := by
  induction ops with
  | nil => exact fun hc _ _ => hc
  | cons op ops ih =>
    rintro s hc ⟨m, hm⟩ hops
    obtain ⟨hc', halike, hm'⟩ := referential_alterTableOperation hc hm (hops op List.mem_cons_self)
    rw [alterTableOperations, final_bind]
    cases (alterTableOperation table op).result s with
    | error e => exact hc'
    | ok message =>
      dsimp only
      rw [final_bind_readOnly fun _ => readOnly_pure _]
      refine ih hc' hm' fun op' hop' col htakes cols href => ?_
      exact hops op' (List.mem_cons_of_mem _ hop') col htakes cols (halike.refers href)

/-! ## Statements that succeed -/

theorem referential_handleRenameTable (hc : s.catalog.Referential) {oldName newName : String}
    (hr : oldName = newName ∨ s.catalog.Renamable oldName) :
    Yields (handleRenameTable env oldName newName) s fun _ t => t.catalog.Referential := by
  unfold handleRenameTable
  rw [yields_bind, yields_get]
  split
  · exact yields_pure.mpr hc
  · rename_i hne
    split
    · exact yields_throw
    · rename_i hnew
      have hnew : s.catalog.tables.lookup newName = none := by simpa using hnew
      refine yields_append fun t ht _ => yields_bind.mpr (yields_tableMeta fun m hm => ?_)
      rw [yields_bind]
      intro _ _ _ _
      refine (congrArg CatalogData.Referential (catalog_of_emits ?_ _)).mpr ?_
      · exact uncataloged_catalogSave.bind fun _ => Emits.bind (emits_emit trivial) fun _ =>
          (emits_check _).bind fun schema => Emits.bind (emits_emit trivial) fun _ => emits_pure _
      · show (t.catalog.renameTable oldName newName m).Referential
        rw [ht] at hm ⊢
        exact hc.rename hm hnew (hr.resolve_left hne)

theorem referential_handleAlterTable (hc : s.catalog.Referential) {sql : String} {alter : AlterTable}
    (hcare : (SchemaStatement.ddl (.alterTable sql alter)).Careful env s) :
    Yields (handleAlterTable env sql alter) s fun _ t => t.catalog.Referential := by
  unfold handleAlterTable
  rw [yields_bind, yields_get]
  split
  · split
    · exact yields_pure.mpr hc
    · exact yields_throw
  · rename_i hsome
    obtain ⟨m, hm⟩ : ∃ m, s.catalog.tables.lookup alter.name = some m := by
      simpa [Option.isNone_iff_eq_none, Option.ne_none_iff_exists'] using hsome
    rcases hcare with hnone | hcare
    · rw [hnone] at hm
      cases hm
    cases hr : alter.rename with
    | some names =>
      rw [hr] at hcare
      exact referential_handleRenameTable hc hcare
    | none =>
      rw [hr] at hcare
      cases hret : alter.retention with
      | some retention =>
        refine yields_append fun t ht _ => ?_
        rw [yields_bind]
        intro _ _ _ _
        refine (congrArg CatalogData.Referential (catalog_of_emits
          (uncataloged_catalogSave.bind fun _ => emits_pure _) _)).mpr ?_
        rw [← ht] at hc
        exact hc.modify alter.name fun _ => ⟨rfl, rfl, rfl⟩
      | none =>
        rw [hret] at hcare
        refine yields_append fun t ht _ => ?_
        rw [yields_bind]
        intro messages _
        refine yields_kept uncataloged_catalogSave fun _ u _ hu => yields_kept (emits_emit trivial) fun _ v _ hv => ?_
        refine yields_kept (readOnly_tableMeta _).emits fun m' w _ hw => yields_kept (emits_check _) fun schema x _ hx => ?_
        refine yields_kept (emits_emit trivial) fun _ y _ hy => yields_pure.mpr ?_
        rw [hy, hx, hw, hv, hu]
        rw [← ht] at hc hm hcare
        exact referential_alterTableOperations _ hc ⟨m, hm⟩ hcare

theorem CatalogData.Referential.of_alike {c c' : CatalogData} (h : c.Referential) (ha : c.Alike c')
    (ht : ∀ k, c'.tables.lookup k = c.tables.lookup k) : c'.Referential :=
  ha.referential h fun table _ _ hhas => hhas.of_lookup (ht table)

theorem CatalogData.alike_removeIndex (c : CatalogData) (name : String) : c.Alike (c.removeIndex name) := by
  refine ⟨fun k m hm => ⟨m, hm, rfl, rfl⟩, fun k i hi => ?_, rfl, rfl⟩
  by_cases hk : k = name
  · rw [hk] at hi
    cases (AList.lookup_erase name c.indexes).symm.trans hi
  · exact ⟨i, (AList.lookup_erase_ne hk).symm.trans hi, rfl, rfl⟩

theorem CatalogData.alike_promoteIndex (c : CatalogData) (table : String) : c.Alike (c.promoteIndex table) := by
  have hsame : c.Alike c := ⟨fun k m hm => ⟨m, hm, rfl, rfl⟩, fun k i hi => ⟨i, hi, rfl, rfl⟩, rfl, rfl⟩
  unfold CatalogData.promoteIndex
  split
  · exact hsame
  · split
    · exact hsame
    · refine ⟨hsame.tables, fun k i hi => ?_, rfl, rfl⟩
      obtain ⟨j, hj, rfl⟩ := Option.map_eq_some_iff.mp ((Map.lookup_mapValues _ _ _).symm.trans hi)
      refine ⟨j, hj, ?_⟩
      split
      · exact ⟨rfl, rfl⟩
      · exact ⟨rfl, rfl⟩

theorem CatalogData.tables_promoteIndex (c : CatalogData) (table : String) : (c.promoteIndex table).tables = c.tables := by
  unfold CatalogData.promoteIndex
  split
  · rfl
  · split <;> rfl

theorem referential_handleDropIndex (hc : s.catalog.Referential) (name : String) (ifExists : Bool) :
    ((handleDropIndex env name ifExists).final s).catalog.Referential := by
  rw [catalog_handleDropIndex]
  split
  · exact hc
  · refine (hc.of_alike (s.catalog.alike_removeIndex name) fun _ => rfl).of_alike (CatalogData.alike_promoteIndex _ _) fun k => ?_
    rw [CatalogData.tables_promoteIndex]

theorem CatalogData.Referential.removeView {c : CatalogData} (h : c.Referential) (name : String) :
    (c.removeView name).Referential := by
  have hkept : ∀ {k : String} {v : ViewDef}, (c.removeView name).views.lookup k = some v → c.views.lookup k = some v := by
    intro k v hv
    by_cases hk : k = name
    · rw [hk] at hv
      cases (AList.lookup_erase name c.views).symm.trans hv
    · exact (AList.lookup_erase_ne hk).symm.trans hv
  exact h.of_entries rfl (fun _ _ hi => h.resolves _ _ (.index hi)) (fun _ _ ht => h.resolves _ _ (.trigger ht))
    fun _ _ hv _ => hkept hv

theorem referential_handleDropTable (hc : s.catalog.Referential) {name : String} (hr : s.catalog.Removable name)
    (ifExists : Bool) : ((handleDropTable env name ifExists).final s).catalog.Referential := by
  rw [catalog_handleDropTable]
  split
  · exact hc
  · exact hc.remove hr

theorem referential_handleDropView (hc : s.catalog.Referential) {name : String} {ifExists : Bool}
    (hcare : (SchemaStatement.ddl (.dropView name ifExists)).Careful env s) :
    Yields (handleDropView env name ifExists) s fun _ t => t.catalog.Referential := by
  unfold handleDropView
  rw [yields_bind, yields_get]
  cases hv : s.catalog.views.lookup name with
  | none =>
    dsimp only
    split
    · exact yields_pure.mpr hc
    · exact yields_throw
  | some view =>
    refine yields_append fun t ht _ => ?_
    rw [yields_bind]
    intro _ _
    refine yields_kept uncataloged_catalogSave fun _ u _ hu => yields_kept (emits_emit trivial) fun _ v _ hv' => ?_
    have hcat : v.catalog = s.catalog.removeView name := by
      rw [hv', hu, ← ht]
      rfl
    have href : v.catalog.Referential := by
      rw [hcat]
      exact hc.removeView name
    split
    · rename_i backing hm hb
      refine yields_bind.mpr (yields_attempt.mpr (yields_pure.mpr ?_))
      refine referential_handleDropTable href ?_ true
      rw [hcat]
      exact hcare view backing hv hm hb
    · exact yields_pure.mpr href

theorem CatalogData.Referential.addView {c : CatalogData} (h : c.Referential) {v : ViewDef} (hv : v.materialized = false) :
    (c.addView v).Referential := by
  have hcases : ∀ {k : String} {w : ViewDef}, (c.addView v).views.lookup k = some w → w.materialized = true →
      c.views.lookup k = some w := by
    intro k w hw hm
    by_cases hk : k = v.name
    · rw [hk] at hw
      obtain rfl := Option.some.inj ((AList.lookup_insert _).symm.trans hw)
      rw [hv] at hm
      cases hm
    · exact (AList.lookup_insert_ne hk).symm.trans hw
  exact h.of_entries rfl (fun _ _ hi => h.resolves _ _ (.index hi)) (fun _ _ ht => h.resolves _ _ (.trigger ht))
    fun _ _ hw hm => hcases hw hm

/-- A materialized view with a new table for its rows, in place of one that no foreign key refers to. -/
theorem CatalogData.Referential.materialize {c c₁ c₂ : CatalogData} (h : c.Referential) {m : TableMeta} {v : ViewDef}
    (htables : ∀ k, k ≠ m.name → c₁.tables.lookup k = c.tables.lookup k)
    (hindexes : ∀ k i, c₁.indexes.lookup k = some i → c.indexes.lookup k = some i ∧ i.tableName ≠ m.name)
    (htriggers : c₁.triggers = c.triggers) (hviews : c₁.views = c.views) (hadds : c₁.Adds m c₂)
    (hp : m.partitionColumns = []) (hcon : m.constraints = []) (hv : v.backingTable = some m.name)
    (hforeign : ∀ k m₀ name cols refCols onDelete, c.tables.lookup k = some m₀ →
      .foreignKey name cols m.name refCols onDelete ∉ m₀.constraints) : (c₂.addView v).Referential := by
  obtain ⟨stats, ht⟩ := hadds.tables
  have ht : ∀ k, (c₂.addView v).tables.lookup k = if k = m.name then some { m with fileStats := stats }
      else c.tables.lookup k := by
    intro k
    refine (ht k).trans ?_
    split
    · rfl
    · rename_i hk
      exact htables k hk
  refine h.put ht (fun k i hi => ?_) (hadds.triggers.trans htriggers) (fun k w hw => ?_)
    (fun k m₀ name cols refCols onDelete hm₀ _ hmem => absurd hmem (hforeign k m₀ name cols refCols onDelete hm₀))
    ?_ ?_ ?_
  · have hi : c₂.indexes.lookup k = some i := hi
    rw [hadds.indexes] at hi
    exact hindexes k i hi
  · by_cases hk : k = v.name
    · rw [hk] at hw
      obtain rfl := Option.some.inj ((AList.lookup_insert _).symm.trans hw)
      exact .inr (.inr hv)
    · have hw := (AList.lookup_insert_ne hk).symm.trans hw
      rw [hadds.views, hviews] at hw
      exact .inl hw
  · simp [hp]
  · simp [hcon]
  · simp [hcon]

theorem referential_handleCreateView (hc : s.catalog.Referential) {create : CreateView}
    (hcare : (SchemaStatement.ddl (.createView create)).Careful env s) :
    Yields (handleCreateView env create) s fun _ t => t.catalog.Referential := by
  have hsave : ∀ (v : ViewDef) (t : Db) (message : String), (t.catalog.addView v).Referential → Yields (do
      modifyCatalog (·.addView v)
      catalogSave
      return .message message : M QueryResult) t fun _ u => u.catalog.Referential := by
    intro v t message hv
    rw [yields_bind]
    intro _ _
    refine yields_kept uncataloged_catalogSave fun _ u _ hu => yields_pure.mpr ?_
    rw [hu]
    exact hv
  unfold handleCreateView
  rw [yields_bind, yields_get]
  dsimp only
  split
  · exact yields_throw
  · refine yields_append fun t ht _ => ?_
    split
    · rename_i hm
      -- the table for the rows is made on the catalog without the one there may have been
      have hmade : ∀ u : Db, (∀ k, k ≠ backingTable create.name →
            u.catalog.tables.lookup k = s.catalog.tables.lookup k) →
          (∀ k i, u.catalog.indexes.lookup k = some i →
            s.catalog.indexes.lookup k = some i ∧ i.tableName ≠ backingTable create.name) →
          u.catalog.triggers = s.catalog.triggers → u.catalog.views = s.catalog.views → Yields (do
            let _ ← handleCtas env (backingTable create.name) create.query []
            registerView env create.name s!"SELECT * FROM \"{backingTable create.name}\""
            modifyCatalog (·.addView ⟨create.name, create.query, create.materialized, some (backingTable create.name)⟩)
            catalogSave
            return .message s!"Materialized view '{create.name}' created." : M QueryResult) u fun _ w => w.catalog.Referential := by
        intro u htables hindexes htriggers hviews
        refine yields_bind.mpr ((yields_handleCtas _ _ _).mono ?_)
        rintro _ w ⟨r, m, -, hname, -, hp, hcon, hadds⟩
        refine yields_kept (uncataloged_registerView _ _) fun _ x _ hx => hsave _ _ _ ?_
        rw [← hname] at htables hindexes
        rw [hx]
        refine hc.materialize htables hindexes htriggers hviews hadds hp hcon (by rw [hname]) ?_
        rw [hname]
        exact hcare hm
      rw [yields_bind, yields_get]
      split
      · rename_i hsome
        refine yields_bind.mpr (yields_attempt.mpr ?_)
        have hdrop : ((handleDropTable env (backingTable create.name) true).final t).catalog =
            s.catalog.removeTable (backingTable create.name) := by
          rw [catalog_handleDropTable, if_neg (Option.isSome_iff_ne_none.mp hsome), ht]
        refine hmade _ ?_ ?_ ?_ ?_
        · intro k hk
          rw [hdrop]
          exact AList.lookup_erase_ne hk
        · intro k i hi
          rw [hdrop] at hi
          obtain ⟨hi, hkeep⟩ := Map.lookup_retain hi
          exact ⟨hi, by simpa using hkeep⟩
        · rw [hdrop]
          rfl
        · rw [hdrop]
          rfl
      · rename_i hnone
        refine hmade t (fun k _ => by rw [ht]) (fun k i hi => ?_) (by rw [ht]) (by rw [ht])
        rw [ht] at hi hnone
        refine ⟨hi, fun hname => hnone ?_⟩
        obtain ⟨m, hm, -⟩ := hc.resolves _ _ (.index hi)
        rw [hname] at hm
        rw [hm]
        rfl
    · rename_i hm
      refine yields_kept (uncataloged_registerView _ _) fun _ u _ hu => hsave _ _ _ ?_
      rw [hu, ht]
      exact hc.addView (by simpa using hm)

/-- Tables, indexes, triggers and views are what refers and is referred to. -/
theorem CatalogData.Referential.of_eq {c c' : CatalogData} (h : c.Referential) (ht : c'.tables = c.tables)
    (hi : c'.indexes = c.indexes) (htr : c'.triggers = c.triggers) (hv : c'.views = c.views) : c'.Referential := by
  refine h.of_alike ⟨fun k m hm => ⟨m, ?_, rfl, rfl⟩, fun k i hk => ⟨i, ?_, rfl, rfl⟩, htr, hv⟩ fun k => by rw [ht]
  · rwa [← ht]
  · rwa [← hi]

theorem referential_handleDropFunction (hc : s.catalog.Referential) (sql name : String) (ifExists : Bool) :
    ((handleDropFunction env sql name ifExists).final s).catalog.Referential := by
  unfold handleDropFunction
  rw [final_get_bind]
  split
  · split
    · exact hc
    · exact hc
  · rw [catalog_logged _ _ fun _ => emits_pure _]
    exact hc.of_eq rfl rfl rfl rfl

theorem referential_ddl (hc : s.catalog.Referential) {stmt : DdlStatement}
    (hcare : (SchemaStatement.ddl stmt).Careful env s) :
    Yields (stmt.run env) s fun _ t => t.catalog.Referential := by
  cases stmt with
  | createTable create => exact referential_handleCreateTable hc hcare
  | createIndex create => exact referential_handleCreateIndex hc create
  | createView create => exact referential_handleCreateView hc hcare
  | createSequence name ifNotExists options =>
    intro _ _
    unfold DdlStatement.run
    rw [catalog_handleCreateSequence]
    split
    · exact hc.of_eq rfl rfl rfl rfl
    · exact hc
  | createFunction sql def_ =>
    intro _ _
    unfold DdlStatement.run handleCreateFunction
    rw [catalog_logged _ _ fun _ => emits_pure _]
    exact hc.of_eq rfl rfl rfl rfl
  | dropTable name ifExists => exact fun _ _ => referential_handleDropTable hc hcare ifExists
  | dropIndex name ifExists => exact fun _ _ => referential_handleDropIndex hc name ifExists
  | dropView name ifExists => exact referential_handleDropView hc hcare
  | dropSequence name ifExists =>
    intro _ _
    unfold DdlStatement.run
    rw [catalog_handleDropSequence]
    split
    · exact hc
    · exact hc.of_eq rfl rfl rfl rfl
  | dropFunction sql name ifExists => exact fun _ _ => referential_handleDropFunction hc sql name ifExists
  | alterTable sql alter => exact referential_handleAlterTable hc hcare

theorem catalog_saved (f : CatalogData → CatalogData) (r : QueryResult) :
    ((modifyCatalog f >>= fun _ => catalogSave >>= fun _ => pure r : M QueryResult).final s).catalog = f s.catalog := by
  rw [final_bind]
  exact catalog_of_emits (uncataloged_catalogSave.bind fun _ => emits_pure _) _

theorem referential_handleCreateTrigger (hc : s.catalog.Referential) {trigger : TriggerDef}
    (hcare : (SchemaStatement.createTrigger trigger).Careful env s) :
    ((handleCreateTrigger trigger).final s).catalog.Referential := by
  obtain ⟨m, hm⟩ := Option.ne_none_iff_exists'.mp hcare
  unfold handleCreateTrigger
  rw [catalog_saved]
  refine hc.of_entries rfl (fun _ _ hi => hc.resolves _ _ (.index hi)) (fun k t ht => ?_) fun _ _ hv _ => hv
  by_cases hk : k = trigger.name
  · rw [hk] at ht
    obtain rfl := Option.some.inj ((AList.lookup_insert _).symm.trans ht)
    exact ⟨m, hm, by simp⟩
  · exact hc.resolves _ _ (.trigger ((AList.lookup_insert_ne hk).symm.trans ht))

theorem referential_handleDropTrigger (hc : s.catalog.Referential) (name : String) :
    ((handleDropTrigger name).final s).catalog.Referential := by
  unfold handleDropTrigger
  rw [catalog_saved]
  refine hc.of_entries rfl (fun _ _ hi => hc.resolves _ _ (.index hi)) (fun k t ht => ?_) fun _ _ hv _ => hv
  by_cases hk : k = name
  · rw [hk] at ht
    cases (AList.lookup_erase name s.catalog.triggers).symm.trans ht
  · exact hc.resolves _ _ (.trigger ((AList.lookup_erase_ne hk).symm.trans ht))

theorem referential_empty : CatalogData.empty.Referential := by
  refine ⟨fun t cols href => ?_, fun k v hv => (nomatch hv)⟩
  cases href with
  | index hi => cases hi
  | partition hm => cases hm
  | constraint hm _ => cases hm
  | foreignKey hm _ => cases hm
  | trigger ht => cases ht
  | view hv _ _ => cases hv

end

/-- **What the catalog names is there after every run of careful definitions.** -/
theorem schemaReached_referential (env : Env) (s : Db) (h : SchemaReached env s) : s.catalog.Referential := by
  induction h with
  | new => exact referential_empty
  | @step s stmt _ hs hcare ih =>
    obtain ⟨a, ha⟩ := hs
    cases stmt with
    | ddl stmt => exact referential_ddl ih hcare a ha
    | createTrigger trigger => exact referential_handleCreateTrigger ih hcare
    | dropTrigger name => exact referential_handleDropTrigger ih name

/-- A table with a key. -/
theorem schemaReached_referential_keyed : (((SchemaStatement.ddl (.createTable ⟨"t", false, [⟨"id", "INT", false⟩,
    ⟨"v", "INT", true⟩], [.primaryKey ["id"]], [], none, "CREATE TABLE t (id INT PRIMARY KEY, v INT)"⟩)).run .plain).final
      .new).catalog.Referential := by
  refine schemaReached_referential .plain _ (.step .new (by decide +kernel) (.inr ⟨by decide, by decide, ?_⟩))
  intro name cols refTable refCols onDelete hcon
  cases List.mem_singleton.mp hcon

def droppedColumn : List SchemaStatement :=
  [.ddl (.createTable ⟨"t", false, [⟨"id", "INT", false⟩, ⟨"v", "INT", true⟩], [], [], none, "CREATE TABLE t (id INT, v INT)"⟩),
    .ddl (.createIndex ⟨some "i", "t", [⟨"v", true⟩], false, "CREATE INDEX i ON t (v)"⟩),
    .ddl (.alterTable "ALTER TABLE t DROP COLUMN v" ⟨"t", [.dropColumn "v" false], false, none, none⟩)]

/-- The column of an index is dropped; the index still names it. -/
theorem schema_forgets_index : Succeeds (SchemaStatement.runAll .plain droppedColumn) .new ∧
    ¬ ((SchemaStatement.runAll .plain droppedColumn).final .new).catalog.Referential := by
  refine ⟨by decide +kernel, fun h => ?_⟩
  have hindex : ((SchemaStatement.runAll .plain droppedColumn).final .new).catalog.indexes.lookup "i" =
      some ⟨"i", "t", [⟨"v", true⟩], false, true⟩ := by decide +kernel
  have htable : (((SchemaStatement.runAll .plain droppedColumn).final .new).catalog.tables.lookup "t").map (·.columnNames) =
      some ["id"] := by decide +kernel
  obtain ⟨m, hm, hcols⟩ := h.resolves _ _ (.index hindex)
  dsimp only at hm
  rw [hm] at htable
  have hnames : m.columnNames = ["id"] := Option.some.inj htable
  have hv := hcols "v" (by decide)
  rw [hnames] at hv
  revert hv
  decide

end PotatoDB
