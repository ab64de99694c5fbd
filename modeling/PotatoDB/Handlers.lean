import PotatoDB.Frames

/-!
# What handlers do

A handler is put together from parts: steps that neither write rows nor change which tables there are, changes of the
catalog that keep its tables, registrations of a table under its path, INSERTs, and flushes. What the parts keep, every
statement keeps.
-/

namespace PotatoDB

open Oplog Oplog.Prog
open Machine (apply)

/-- An operation that writes no rows, leaves the write buffer, the Arrow log and the data directory alone, and neither
changes the catalog in memory nor registers a table. -/
def Op.Free : Op → Prop
  | putFile .. | setCatalog _ | registerTable .. | setBuffer .. | removeBuffer _ | arrowAppend .. | arrowCheckpoint _
  | arrowCheckpointAll | setReplayingWal _ | restoreFiles .. => False
  | _ => True

/-- An operation on the write buffer or the Arrow log. -/
def Op.Buffering : Op → Prop
  | setBuffer .. | removeBuffer _ | arrowAppend .. | arrowCheckpoint _ | arrowCheckpointAll => True
  | _ => False

/-- A change of the catalog that keeps the name and the path of every table. -/
def KeepsTables (f : CatalogData → CatalogData) : Prop :=
  ∀ c t, ((f c).tables.lookup t).map (fun m => (m.name, m.path)) = (c.tables.lookup t).map fun m => (m.name, m.path)

section
variable {env : Env}

theorem Op.Minor.free {o : Op} (h : o.Minor) : o.Free := by
  cases o with
  | putFile _ _ | setCatalog _ | registerTable _ _ | setBuffer _ _ | removeBuffer _ | arrowAppend _ _ | arrowCheckpoint _
  | arrowCheckpointAll | setReplayingWal _ | restoreFiles _ _ => exact h.elim
  | _ => trivial

theorem free_of_minor {α : Type} {p : M α} (h : Emits Op.Minor p) : Emits Op.Free p := h.mono fun _ h => h.free

/-! ## Changes of the catalog -/

theorem keepsTables_of_eq {f : CatalogData → CatalogData} (h : ∀ c, (f c).tables = c.tables) : KeepsTables f := by
  intro c t
  rw [h]

theorem keepsTables_modify {f : CatalogData → CatalogData} (table : String) (g : TableMeta → TableMeta)
    (hg : ∀ m, (g m).name = m.name ∧ (g m).path = m.path) (h : ∀ c, (f c).tables = c.tables.modify table g) :
    KeepsTables f := by
  intro c t
  rw [h, Map.modify, Map.lookup_mapValues, Option.map_map]
  congr 1
  funext m
  dsimp only [Function.comp_apply]
  split
  · rw [(hg m).1, (hg m).2]
  · rfl

theorem keepsTables_setFileStats (table : String) (stats : List FileStats) : KeepsTables (·.setFileStats table stats) :=
  keepsTables_modify table (fun m => { m with fileStats := stats }) (fun _ => ⟨rfl, rfl⟩) fun _ => rfl

theorem keepsTables_setStatistics (table : String) (stats : TableStatistics) :
    KeepsTables (·.setStatistics table stats) :=
  keepsTables_modify table (fun m => { m with statistics := some stats }) (fun _ => ⟨rfl, rfl⟩) fun _ => rfl

theorem keepsTables_promoteIndex (table : String) : KeepsTables (·.promoteIndex table) := by
  refine keepsTables_of_eq fun c => ?_
  unfold CatalogData.promoteIndex
  split
  · rfl
  · split <;> rfl

/-! ## Queries -/

theorem readOnly_runQuery (q : Query) : ReadOnly (runQuery env q) := readOnly_get.bind fun _ => readOnly_check _

theorem readOnly_mergeQuery (source : Relation) (q : Query) : ReadOnly (mergeQuery env source q) :=
  readOnly_get.bind fun _ => readOnly_check _

theorem readOnly_deletedKeys (table refCol filter : String) : ReadOnly (deletedKeys env table refCol filter) :=
  readOnly_selectStar.bind fun _ => readOnly_get.bind fun _ => (readOnly_check _).bind fun _ =>
    (readOnly_check _).bind fun _ => readOnly_pure _

theorem readOnly_validateNotNullTable (table : String) : ReadOnly (validateNotNullTable table) := by
  unfold validateNotNullTable
  refine readOnly_get.bind fun db => ?_
  split
  · exact readOnly_pure _
  · dsimp only
    split
    · exact readOnly_pure _
    · exact readOnly_selectStar.bind fun _ => (readOnly_check _).bind fun _ => readOnly_throwIf

theorem readOnly_validateNotNullPositional (table : String) (targetColumns : List String) (batches : List RecordBatch) :
    ReadOnly (validateNotNullPositional table targetColumns batches) := by
  unfold validateNotNullPositional
  refine readOnly_get.bind fun db => ?_
  split
  · exact readOnly_pure _
  · refine readOnly_each (fun b => readOnly_each (fun t => ?_) _) _
    split
    · exact readOnly_pure _
    · split
      · exact readOnly_throw _
      · exact readOnly_pure _

/-! ## Free programs -/

theorem free_walAppendPending (sql : String) : Emits Op.Free (walAppendPending env sql) := by
  unfold walAppendPending
  refine emits_get.bind fun db => ?_
  split
  · exact emits_pure _
  · exact emits_emit trivial

theorem free_walFinishAutocommit (force : Bool) : Emits Op.Free (walFinishAutocommit env force) := by
  unfold walFinishAutocommit
  refine emits_get.bind fun db => ?_
  split
  · exact emits_pure _
  · refine Emits.bind (emits_emit trivial) fun _ => (free_of_minor minor_now).bind fun t => emits_get.bind fun s => ?_
    dsimp only
    refine Emits.bind (emits_emit trivial) fun _ => ?_
    split
    · exact Emits.bind (emits_emit trivial) fun _ => emits_emit trivial
    · unfold walMaybeCheckpoint
      refine emits_get.bind fun s' => ?_
      dsimp only
      split
      · exact emits_emit trivial
      · exact emits_pure _

theorem free_catalogFlushIfDirty : Emits Op.Free catalogFlushIfDirty := by
  unfold catalogFlushIfDirty
  refine emits_get.bind fun db => ?_
  split
  · exact emits_emit trivial
  · exact emits_pure _

theorem free_backupTableForTxn (table : String) : Emits Op.Free (backupTableForTxn table) := by
  unfold backupTableForTxn
  refine emits_get.bind fun db => ?_
  split
  · exact emits_pure _
  · split
    · exact emits_pure _
    · exact readOnly_selectStar.emits.bind fun _ => emits_emit trivial

theorem free_deleteTableStorage (m : TableMeta) : Emits Op.Free (deleteTableStorage env m) := by
  unfold deleteTableStorage
  split
  · exact emits_emit trivial
  · exact free_of_minor (minor_deleteParquetFiles _)

theorem free_applyRetentionPolicy (table : String) : Emits Op.Free (applyRetentionPolicy env table) := by
  unfold applyRetentionPolicy
  refine emits_get.bind fun db => ?_
  split
  · exact emits_pure _
  · split
    · exact emits_pure _
    · split
      · exact emits_pure _
      · refine (free_of_minor minor_now).bind fun t => emits_get.bind fun s => ?_
        exact (emits_each (fun _ => emits_emit trivial) _).bind fun _ => emits_pure _

theorem free_handleBegin : Emits Op.Free handleBegin := by
  unfold handleBegin
  refine emits_get.bind fun db => ?_
  split
  · exact emits_throw _
  · refine Emits.bind (emits_emit trivial) fun _ => Emits.bind ?_ fun id => ?_
    · exact emits_get.bind fun _ => Emits.bind (emits_emit trivial) fun _ => emits_pure _
    · exact Emits.bind (emits_emit trivial) fun _ => emits_pure _

theorem free_handleSavepoint (name : String) : Emits Op.Free (handleSavepoint name) := by
  unfold handleSavepoint
  refine emits_get.bind fun db => ?_
  split
  · exact emits_throw _
  · exact Emits.bind (emits_emit trivial) fun _ => emits_pure _

theorem free_handleReleaseSavepoint (name : String) : Emits Op.Free (handleReleaseSavepoint name) := by
  unfold handleReleaseSavepoint
  refine emits_get.bind fun db => ?_
  split
  · exact emits_throw _
  · split
    · exact emits_throw _
    · exact Emits.bind (emits_emit trivial) fun _ => emits_pure _

end

/-! ## The parts of a handler -/

/-- Where their operations meet `C`, the parts of the handlers keep `I`. Under `I`, the name and the path of a table
are `Right`, and a table is registered under a path that is right for its name. -/
structure Parts (env : Env) (C : Db → Op → Prop) (I : Db → Prop) (Right : String → String → Prop) : Prop where
  free : ∀ s o, o.Free → C s o → I s → I (apply s o)
  keep : ∀ s f, KeepsTables f → C s (.setCatalog (f s.catalog)) → I s → I (apply s (.setCatalog (f s.catalog)))
  right : ∀ s t m, I s → s.catalog.tables.lookup t = some m → Right t m.path
  register : ∀ s t path schema, Right t path → C s (.registerTable t ⟨objPath path, schema⟩) → I s →
    I (apply s (.registerTable t ⟨objPath path, schema⟩))
  insert : ∀ table columns batches, Maintains C I (insertInto env table columns batches)

namespace Parts

section
variable {env : Env} {C : Db → Op → Prop} {I : Db → Prop} {Right : String → String → Prop}

theorem of_free (h : Parts env C I Right) {α : Type} {p : M α} (hp : Emits Op.Free p) : Maintains C I p :=
  hp.maintains h.free

theorem of_minor (h : Parts env C I Right) {α : Type} {p : M α} (hp : Emits Op.Minor p) : Maintains C I p :=
  h.of_free (free_of_minor hp)

theorem emit (h : Parts env C I Right) {o : Op} (ho : o.Free) : Maintains C I (Prog.emit o : M Unit) :=
  h.of_free (emits_emit ho)

theorem modifyCatalog (h : Parts env C I Right) {f : CatalogData → CatalogData} (hf : KeepsTables f) :
    Maintains C I (modifyCatalog f) := by
  intro s hs
  simp only [PotatoDB.modifyCatalog, wp_bind, wp_get, wp_emit]
  exact fun hc => h.keep s f hf hc hs

theorem catalogSave (h : Parts env C I Right) : Maintains C I catalogSave := h.of_minor minor_catalogSave

/-- A table of the catalog has the right path. -/
theorem tableMeta (h : Parts env C I Right) {β : Type} {table : String} {f : TableMeta → M β}
    (hf : ∀ m, Right table m.path → Maintains C I (f m)) : Maintains C I (tableMeta table >>= f) := by
  intro s hs
  unfold PotatoDB.tableMeta
  simp only [wp_bind, wp_get]
  cases hm : s.catalog.tables.lookup table with
  | none => exact wp_throw.mpr hs
  | some m => exact wp_pure.mpr (hf m (h.right s table m hs hm) s hs)

theorem registerListingTable (h : Parts env C I Right) {table path : String} (hr : Right table path) (schema : Schema) :
    Maintains C I (registerListingTable table schema path) :=
  maintains_emit fun s hs hc => h.register s table path schema hr hc hs

theorem refreshLight (h : Parts env C I Right) (table : String) : Maintains C I (refreshTableFileStatsLight table) := by
  unfold refreshTableFileStatsLight
  refine Maintains.bind (maintains_get.bind fun _ => maintains_pure _) fun files => maintains_get.bind fun db => ?_
  split
  · exact (h.modifyCatalog (keepsTables_setFileStats _ _)).bind fun _ => h.catalogSave
  · exact maintains_pure _

theorem refreshTableFileStats (h : Parts env C I Right) (table : String) :
    Maintains C I (refreshTableFileStats env table) := by
  unfold PotatoDB.refreshTableFileStats
  refine maintains_get.bind fun db => ?_
  split
  · exact maintains_pure _
  · exact (h.modifyCatalog (keepsTables_setFileStats _ _)).bind fun _ => h.catalogSave

theorem writeRewritten (h : Parts env C I Right) (table : String) (schema : Schema)
    (batches original : List RecordBatch) : Maintains C I (writeRewritten env table schema batches original) := by
  unfold PotatoDB.writeRewritten
  split
  · refine Maintains.bind (((maintains_check _).bind fun _ => h.insert _ _ _).attempt) fun r => ?_
    cases r with
    | ok _ => exact maintains_pure _
    | error e =>
      refine Maintains.bind ?_ fun _ => maintains_throw _
      unfold restoreTableFromSnapshot
      split
      · exact ((h.insert _ _ _).attempt).bind fun _ => maintains_pure _
      · exact maintains_pure _
  · exact maintains_pure _

theorem rewriteTable (h : Parts env C I Right) (table : String) (schema : Schema) (batches : List RecordBatch)
    (flag : Bool) : Maintains C I (rewriteTable env table schema batches flag) := by
  unfold PotatoDB.rewriteTable
  refine h.tableMeta fun m hm => Maintains.bind (h.emit trivial) fun _ => Maintains.bind ?_ fun original => ?_
  · unfold diskSnapshot
    split
    · exact maintains_pure _
    · exact readOnly_selectStar.maintains.bind fun _ => maintains_pure _
  · refine Maintains.bind (h.emit trivial) fun _ => (h.of_minor (minor_deleteParquetFiles table)).bind fun _ => ?_
    refine (maintains_check _).bind fun _ => (h.registerListingTable hm _).bind fun _ => ?_
    exact (h.writeRewritten _ _ _ _).bind fun _ => h.refreshLight table

theorem maybeAutoCompact (h : Parts env C I Right) (table : String) : Maintains C I (maybeAutoCompact env table) := by
  unfold PotatoDB.maybeAutoCompact
  refine maintains_get.bind fun db => ?_
  split
  · exact maintains_pure _
  · refine Maintains.bind (maintains_get.bind fun _ => maintains_pure _) fun files => ?_
    split
    · exact maintains_pure _
    · exact maintains_get.bind fun _ => (readOnly_selectOrdered _ _).maintains.bind fun r => h.rewriteTable _ _ _ _

theorem handleAnalyze (h : Parts env C I Right) (table : String) : Maintains C I (handleAnalyze env table) := by
  unfold PotatoDB.handleAnalyze
  refine (readOnly_tableMeta table).maintains.bind fun m => readOnly_selectStar.maintains.bind fun r => ?_
  refine (maintains_check _).bind fun rows => (h.modifyCatalog (keepsTables_setStatistics _ _)).bind fun _ => ?_
  exact h.catalogSave.bind fun _ => (h.refreshTableFileStats table).bind fun _ => maintains_pure _

theorem drainPendingAnalyze (h : Parts env C I Right) : Maintains C I (drainPendingAnalyze env) := by
  unfold PotatoDB.drainPendingAnalyze
  refine maintains_get.bind fun db => ?_
  dsimp only
  split
  · exact maintains_pure _
  · refine Maintains.bind (h.emit trivial) fun _ => maintains_each (fun t => ?_) _
    exact ((h.handleAnalyze t).attempt).bind fun _ => maintains_pure _

theorem validate (h : Parts env C I Right) (table : String) (targetColumns : List String) (batches : List RecordBatch)
    (phase : ValidationPhase) : Maintains C I (validateConstraintsBatch env table targetColumns batches phase) :=
  h.of_minor ((checking_validateConstraintsBatch table _ _ _).mono fun _ h => h.minor)

/-! ## Flushes -/

section
variable (hbuf : ∀ s o, o.Buffering → C s o → I s → I (apply s o))
include hbuf

/-- When the operations on the buffer and its log keep `I`, so does a flush. -/
theorem flushTable (h : Parts env C I Right) (table : String) : Maintains C I (flushTable env table) := by
  have hemit : ∀ {o : Op}, o.Buffering → Maintains C I (Prog.emit o : M Unit) :=
    fun ho => maintains_emit fun s hs hc => hbuf s _ ho hc hs
  have hfinish : ∀ targetColumns merges n, Maintains C I (finishFlush env table targetColumns merges n) := by
    intro targetColumns merges n
    have hrest := (h.of_minor (@minor_maybeAutoAnalyze env table n)).bind fun _ =>
      (h.refreshLight table).bind fun _ => (h.maybeAutoCompact table).bind fun _ =>
        (maintains_pure n : Maintains C I (pure n : M Nat))
    unfold finishFlush
    refine (h.validate _ _ _ _).bind fun _ => ?_
    refine Maintains.bind (h.of_minor (emits_each (fun m => emits_emit trivial) merges)) fun _ => ?_
    dsimp only
    split
    · exact Maintains.bind (hemit trivial) fun _ => hrest
    · exact hrest
  rw [flushTable_eq]
  refine maintains_get.bind fun db => ?_
  split
  · exact maintains_pure _
  · refine Maintains.bind (hemit trivial) fun _ => ?_
    unfold writeBuffered
    split
    · exact maintains_pure _
    · refine Maintains.bind ?_ fun targetColumns => (h.validate _ _ _ _).bind fun merges => ?_
      · unfold targetColumnsOf
        split
        · exact maintains_pure _
        · exact maintains_get.bind fun _ => maintains_pure _
      · refine (h.of_minor (minor_nextTempTableName _)).bind fun _ => (maintains_check _).bind fun _ => ?_
        exact (h.insert _ _ _).bind fun _ => hfinish _ _ _

theorem bufferInsertBatches (h : Parts env C I Right) (table : String) (columns : Option (List String))
    (batches : List RecordBatch) : Maintains C I (bufferInsertBatches env table columns batches) := by
  have hemit : ∀ {o : Op}, o.Buffering → Maintains C I (Prog.emit o : M Unit) :=
    fun ho => maintains_emit fun s hs hc => hbuf s _ ho hc hs
  have hkeep : Maintains C I (keepBuffered env table batches) := by
    have hrest : Maintains C I (do
        let t' ← now env
        let shouldFlush := ((← get).writeBuffer.lookup table).any fun b =>
          b.rowCount ≥ env.writeBufferRowThreshold || b.approxBytes ≥ env.writeBufferByteThreshold ||
            t' - b.firstBufferedAt ≥ env.writeBufferTimeThreshold
        if shouldFlush then
          let _ ← PotatoDB.flushTable env table
        else pure ()
        return (totalRows batches, shouldFlush) : M (Nat × Bool)) := by
      refine (h.of_minor minor_now).bind fun t' => maintains_get.bind fun db => ?_
      dsimp only
      split
      · exact (h.flushTable hbuf table).bind fun _ => maintains_pure _
      · exact maintains_pure _
    unfold keepBuffered
    refine maintains_get.bind fun db => ?_
    dsimp only
    split
    · exact Maintains.bind (hemit trivial) fun _ => hrest
    · exact hrest
  have happend : Maintains C I (appendBuffered env table columns batches) := by
    refine (h.of_minor minor_now).bind fun t => maintains_get.bind fun db => ?_
    unfold bufferBehind
    refine Maintains.bind (hemit trivial) fun _ => Maintains.bind ?_ fun targetColumns => ?_
    · unfold targetColumnsOf
      split
      · exact maintains_pure _
      · exact maintains_get.bind fun _ => maintains_pure _
    · refine (h.validate _ _ _ _).attempt.bind fun r => ?_
      cases r with
      | error e => exact Maintains.bind (hemit trivial) fun _ => maintains_throw _
      | ok _ => exact hkeep
  rw [bufferInsertBatches_eq]
  split
  · exact maintains_pure _
  · refine maintains_get.bind fun db => ?_
    split
    · split
      · exact (h.flushTable hbuf table).bind fun _ => happend
      · exact happend
    · exact happend

end

end

end Parts

/-! ## Handlers that change which tables there are -/

/-- An operation that leaves the write buffer, the Arrow log and the data directory alone. -/
def Op.Plain : Op → Prop
  | setBuffer .. | removeBuffer _ | arrowAppend .. | arrowCheckpoint _ | arrowCheckpointAll | setReplayingWal _
  | restoreFiles .. => False
  | _ => True

section
variable {env : Env}

theorem Op.Free.plain {o : Op} (h : o.Free) : o.Plain := by
  cases o with
  | setBuffer _ _ | removeBuffer _ | arrowAppend _ _ | arrowCheckpoint _ | arrowCheckpointAll | setReplayingWal _
  | restoreFiles _ _ => exact h.elim
  | _ => trivial

theorem Op.Writing.plain {o : Op} (h : o.Writing) : o.Plain := by
  cases o with
  | setBuffer _ _ | removeBuffer _ | arrowAppend _ _ | arrowCheckpoint _ | arrowCheckpointAll | setReplayingWal _
  | restoreFiles _ _ => exact h.elim
  | _ => trivial

theorem plain_of_free {α : Type} {p : M α} (h : Emits Op.Free p) : Emits Op.Plain p := h.mono fun _ h => h.plain

theorem plain_of_writing {α : Type} {p : M α} (h : Emits Op.Writing p) : Emits Op.Plain p :=
  h.mono fun _ h => h.plain

theorem plain_modifyCatalog (f : CatalogData → CatalogData) : Emits Op.Plain (modifyCatalog f) :=
  plain_of_writing (writing_modifyCatalog f)

theorem plain_catalogSave : Emits Op.Plain catalogSave := plain_of_writing writing_catalogSave

theorem plain_registerColumns (table : String) (columns : List ColumnDef) (path message : String) : Emits Op.Plain (do
    let schema ← check (columnsToSchema env columns)
    registerListingTable table schema path
    return .message message : M QueryResult) :=
  (emits_check _).bind fun _ => Emits.bind (emits_emit trivial) fun _ => emits_pure _

theorem plain_reloadTables : Emits Op.Plain (reloadTables env) := by
  unfold reloadTables
  exact emits_get.bind fun db => (emits_check _).bind fun specs => emits_each (fun _ => emits_emit trivial) _

theorem plain_restoreSnapshot (c : CatalogData) (files : Map (List ObjPath)) (backups : Map (List RecordBatch))
    (save : Bool) : Emits Op.Plain (restoreSnapshot env c files backups save) := by
  have hnew : Emits Op.Plain (deleteNewFiles files) := by
    refine emits_each (fun entry => Emits.bind (emits_get.bind fun _ => emits_pure _) fun paths => ?_) _
    refine emits_each (fun path => ?_) _
    split
    · exact emits_pure _
    · exact emits_emit trivial
  have hdrop : Emits Op.Plain (dropNewTables env files) := by
    refine emits_get.bind fun db => emits_each (fun entry => ?_) _
    split
    · exact emits_pure _
    · exact (plain_of_free (free_deleteTableStorage _)).bind fun _ => emits_emit trivial
  have hbackups : Emits Op.Plain (restoreBackups env backups) := by
    refine emits_each (fun entry => emits_get.bind fun db => ?_) _
    split
    · exact emits_pure _
    · exact (emits_check _).bind fun schema => plain_of_writing (writing_rewriteTable _ _ _ _)
  have hrest := (emits_each (fun t : String => (emits_emit trivial : Emits Op.Plain (emit (.deregisterTable t) : M Unit))))
  unfold restoreSnapshot
  refine emits_get.bind fun db => ?_
  dsimp only
  refine hnew.bind fun _ => hdrop.bind fun _ => Emits.bind (emits_emit trivial) fun _ => ?_
  split
  · refine Emits.bind (emits_emit trivial) fun _ => ?_
    exact (hrest _).bind fun _ => plain_reloadTables.bind fun _ => hbackups
  · exact (hrest _).bind fun _ => plain_reloadTables.bind fun _ => hbackups

theorem plain_handleRollback : Emits Op.Plain (handleRollback env) := by
  unfold handleRollback
  refine emits_get.bind fun db => ?_
  split
  · exact emits_throw _
  · refine Emits.bind (emits_emit trivial) fun _ => Emits.bind (emits_emit trivial) fun _ => ?_
    refine (plain_restoreSnapshot _ _ _ _).bind fun _ => emits_get.bind fun s => ?_
    dsimp only
    split
    · exact emits_pure _
    · exact Emits.bind (emits_emit trivial) fun _ => Emits.bind (emits_emit trivial) fun _ => emits_pure _

theorem plain_handleRollbackTo (name : String) : Emits Op.Plain (handleRollbackTo env name) := by
  unfold handleRollbackTo
  refine emits_get.bind fun db => ?_
  split
  · exact emits_throw _
  · split
    · exact emits_throw _
    · refine Emits.bind (emits_emit trivial) fun _ => (plain_restoreSnapshot _ _ _ _).bind fun _ => ?_
      exact Emits.bind (emits_emit trivial) fun _ => emits_pure _

theorem plain_handleCtas (table query : String) (partitionColumns : List String) :
    Emits Op.Plain (handleCtas env table query partitionColumns) := by
  have hsave : ∀ f : CatalogData → CatalogData, Emits Op.Plain (do
      modifyCatalog f
      catalogSave
      refreshTableFileStats env table
      return .message s!"Table '{table}' created." : M QueryResult) := by
    intro f
    refine (plain_modifyCatalog f).bind fun _ => plain_catalogSave.bind fun _ => ?_
    exact (plain_of_writing (writing_refreshTableFileStats _)).bind fun _ => emits_pure _
  unfold handleCtas
  refine (readOnly_runQuery _).emits.bind fun r => (emits_check _).bind fun schema => ?_
  refine Emits.bind (emits_emit trivial) fun _ => ?_
  dsimp only
  split
  · refine (emits_check _).bind fun _ => ?_
    exact (plain_of_writing (writing_insertInto _ _ _)).bind fun _ => hsave _
  · exact hsave _

theorem plain_handleCreateTable (create : CreateTable) : Emits Op.Plain (handleCreateTable env create) := by
  unfold handleCreateTable
  refine emits_get.bind fun db => ?_
  dsimp only
  split
  · split
    · exact emits_pure _
    · exact emits_throw _
  · refine (plain_of_free (free_walAppendPending _)).bind fun _ => ?_
    split
    · exact plain_handleCtas _ _ _
    · split
      · exact emits_throw _
      · refine (emits_check _).bind fun schema => Emits.bind (emits_emit trivial) fun _ => ?_
        refine (plain_modifyCatalog _).bind fun _ => plain_catalogSave.bind fun _ => ?_
        exact (plain_of_writing (writing_refreshTableFileStats _)).bind fun _ => emits_pure _

theorem plain_handleDropTable (name : String) (ifExists : Bool) : Emits Op.Plain (handleDropTable env name ifExists) := by
  unfold handleDropTable
  refine emits_get.bind fun db => ?_
  split
  · split
    · exact emits_pure _
    · exact emits_throw _
  · refine (plain_of_free (free_walAppendPending _)).bind fun _ => (plain_modifyCatalog _).bind fun _ => plain_catalogSave.bind fun _ => ?_
    refine Emits.bind (emits_emit trivial) fun _ => Emits.bind (emits_emit trivial) fun _ => emits_get.bind fun s => ?_
    dsimp only
    split
    · exact Emits.bind (emits_emit trivial) fun _ => emits_pure _
    · exact (plain_of_free (free_deleteTableStorage _)).bind fun _ => emits_pure _

theorem plain_handleRenameTable (oldName newName : String) : Emits Op.Plain (handleRenameTable env oldName newName) := by
  unfold handleRenameTable
  refine emits_get.bind fun db => ?_
  split
  · exact emits_pure _
  · split
    · exact emits_throw _
    · refine (plain_of_free (free_walAppendPending _)).bind fun _ => (readOnly_tableMeta _).emits.bind fun m => ?_
      refine (plain_modifyCatalog _).bind fun _ => plain_catalogSave.bind fun _ => Emits.bind (emits_emit trivial) fun _ => ?_
      exact plain_registerColumns _ _ _ _

theorem plain_registerView (name query : String) : Emits Op.Plain (registerView env name query) :=
  emits_get.bind fun _ => (emits_check _).bind fun _ => emits_emit trivial

theorem plain_handleCreateView (create : CreateView) : Emits Op.Plain (handleCreateView env create) := by
  have hadd : ∀ (f : CatalogData → CatalogData) (message : String), Emits Op.Plain (do
      modifyCatalog f
      catalogSave
      return .message message : M QueryResult) :=
    fun f message => (plain_modifyCatalog f).bind fun _ => plain_catalogSave.bind fun _ => emits_pure _
  unfold handleCreateView
  refine emits_get.bind fun db => ?_
  dsimp only
  split
  · exact emits_throw _
  · refine (plain_of_free (free_walAppendPending _)).bind fun _ => ?_
    split
    · refine emits_get.bind fun db => ?_
      split
      · refine (plain_handleDropTable _ _).attempt.bind fun _ => ?_
        exact (plain_handleCtas _ _ _).bind fun _ => (plain_registerView _ _).bind fun _ => hadd _ _
      · exact (plain_handleCtas _ _ _).bind fun _ => (plain_registerView _ _).bind fun _ => hadd _ _
    · exact (plain_registerView _ _).bind fun _ => hadd _ _

theorem plain_handleRefreshMaterializedView (name : String) :
    Emits Op.Plain (handleRefreshMaterializedView env name) := by
  unfold handleRefreshMaterializedView
  refine emits_get.bind fun db => ?_
  split
  · exact emits_throw _
  · split
    · exact emits_throw _
    · split
      · exact emits_throw _
      · refine (plain_of_free (free_walAppendPending _)).bind fun _ => (plain_handleDropTable _ _).attempt.bind fun _ => ?_
        exact (plain_handleCtas _ _ _).bind fun _ => (plain_registerView _ _).bind fun _ => emits_pure _

end

/-! ## Statements -/

/-- What the parts of the handlers keep, and flushes, buffered INSERTs, CHECKPOINT and the statements that change which
tables there are, these when `Pre` holds where their handler starts. -/
structure Invariant (env : Env) (C : Db → Op → Prop) (I : Db → Prop) (Right : String → String → Prop)
    (Pre : Statement → Db → Prop) : Prop extends Parts env C I Right where
  arrive : ∀ sql s, I s → wp C (arrive env sql) s fun r t => I t ∧ ((∃ a, r = .ok a) → Pre (env.parse sql) t)
  flush : ∀ table, Maintains C I (flushTable env table)
  buffer : ∀ table columns batches, Maintains C I (bufferInsertBatches env table columns batches)
  checkpoint : Maintains C I (handleCheckpoint env)
  create : ∀ create s, Pre (.createTable create) s → I s → wp C (handleCreateTable env create) s fun _ t => I t
  drop : ∀ name ifExists, Maintains C I (handleDropTable env name ifExists)
  rename : ∀ alter oldName newName s, alter.rename = some (oldName, newName) → Pre (.alterTable alter) s → I s →
    wp C (handleRenameTable env oldName newName) s fun _ t => I t
  rollback : Maintains C I (handleRollback env)
  rollbackTo : ∀ name, Maintains C I (handleRollbackTo env name)
  createView : ∀ create s, Pre (.createView create) s → I s → wp C (handleCreateView env create) s fun _ t => I t
  refreshView : ∀ name s, Pre (.refreshMaterializedView name) s → I s →
    wp C (handleRefreshMaterializedView env name) s fun _ t => I t

namespace Parts

section
variable {env : Env} {C : Db → Op → Prop} {I : Db → Prop} {Right : String → String → Prop}

theorem flushTables (hflush : ∀ table, Maintains C I (PotatoDB.flushTable env table)) : ∀ tables : List String,
    Maintains C I (flushTables env tables)
  | [] => maintains_pure _
  | t :: ts => (hflush t).bind fun _ => (flushTables hflush ts).bind fun _ => maintains_pure _

theorem flushAll (hflush : ∀ table, Maintains C I (PotatoDB.flushTable env table)) : Maintains C I (flushAll env) :=
  maintains_get.bind fun _ => flushTables hflush _

theorem flushBufferedForSql (hflush : ∀ table, Maintains C I (PotatoDB.flushTable env table)) (sqlUpper : String) :
    Maintains C I (flushBufferedForSql env sqlUpper) := by
  unfold PotatoDB.flushBufferedForSql
  refine maintains_get.bind fun db => ?_
  dsimp only
  split
  · exact flushAll hflush
  · exact flushTables hflush _

theorem arrive (h : Parts env C I Right) (hflush : ∀ table, Maintains C I (PotatoDB.flushTable env table)) (sql : String) :
    Maintains C I (arrive env sql) := by
  unfold PotatoDB.arrive
  refine h.drainPendingAnalyze.bind fun _ => Maintains.bind (h.emit (o := .enter (env.parse sql)) trivial) fun _ => ?_
  split
  · exact maintains_pure _
  · split
    · exact maintains_pure _
    · exact (flushBufferedForSql hflush _).bind fun _ => maintains_pure _

end

end Parts

namespace Invariant

section
variable {env : Env} {C : Db → Op → Prop} {I : Db → Prop} {Right : String → String → Prop}
  {Pre : Statement → Db → Prop}

theorem flushAll (h : Invariant env C I Right Pre) : Maintains C I (flushAll env) := Parts.flushAll h.flush

theorem leave (h : Invariant env C I Right Pre) (statement : Statement) (result : Except String QueryResult) :
    Maintains C I (leave env statement result) := by
  unfold PotatoDB.leave
  split
  · exact maintains_check _
  · dsimp only
    have hrest := (h.of_free free_catalogFlushIfDirty).bind fun _ => (maintains_check result : Maintains C I (check result : M _))
    split
    · exact (h.of_free (free_walFinishAutocommit _)).bind fun _ => hrest
    · exact hrest

theorem handleVacuum (h : Invariant env C I Right Pre) (table : String) (analyze : Bool) :
    Maintains C I (handleVacuumStatement env table analyze) := by
  unfold handleVacuumStatement
  refine Maintains.bind ?_ fun vacuumed => ?_
  · unfold PotatoDB.handleVacuum
    refine h.flushAll.bind fun _ => (readOnly_tableMeta table).maintains.bind fun _ => ?_
    refine (h.of_free (free_backupTableForTxn table)).bind fun _ => ?_
    refine (h.of_free (free_applyRetentionPolicy table)).bind fun pruned => maintains_get.bind fun db => ?_
    refine (readOnly_selectOrdered _ _).maintains.bind fun r => ?_
    refine Maintains.bind (maintains_get.bind fun _ => maintains_pure _) fun files => ?_
    exact (h.rewriteTable _ _ _ _).bind fun _ => (h.handleAnalyze table).bind fun _ => maintains_pure _
  · split
    · exact (h.handleAnalyze table).bind fun _ => maintains_pure _
    · exact maintains_pure _

theorem handleCommit (h : Invariant env C I Right Pre) : Maintains C I (handleCommit env) := by
  refine h.flushAll.bind fun _ => h.of_free ?_
  refine emits_get.bind fun db => ?_
  split
  · exact emits_throw _
  · refine Emits.bind (emits_emit trivial) fun _ => Emits.bind (emits_emit trivial) fun _ => ?_
    refine Emits.bind (emits_emit trivial) fun _ => (emits_each free_deleteTableStorage _).bind fun _ => ?_
    refine emits_get.bind fun s => ?_
    dsimp only
    split
    · exact emits_pure _
    · exact Emits.bind (emits_emit trivial) fun _ => Emits.bind (emits_emit trivial) fun _ => emits_pure _

/-! ## Data definition -/

theorem registerColumns (h : Invariant env C I Right Pre) {table path : String} (hr : Right table path)
    (columns : List ColumnDef) (message : String) : Maintains C I (do
      let schema ← check (columnsToSchema env columns)
      registerListingTable table schema path
      return .message message : M QueryResult) :=
  (maintains_check _).bind fun _ => (h.registerListingTable hr _).bind fun _ => maintains_pure _

theorem handleTruncate (h : Invariant env C I Right Pre) (table : String) : Maintains C I (handleTruncate env table) := by
  unfold PotatoDB.handleTruncate
  refine h.tableMeta fun m hm => (h.of_free (free_walAppendPending _)).bind fun _ => ?_
  refine Maintains.bind (h.emit trivial) fun _ => (h.of_minor (minor_deleteParquetFiles table)).bind fun _ => ?_
  refine Maintains.bind (h.emit trivial) fun _ => (maintains_check _).bind fun schema => ?_
  exact (h.registerListingTable hm _).bind fun _ => Maintains.bind (h.emit trivial) fun _ => maintains_pure _

theorem handleCreateIndex (h : Invariant env C I Right Pre) (create : CreateIndex) :
    Maintains C I (handleCreateIndex env create) := by
  unfold PotatoDB.handleCreateIndex
  split
  · exact maintains_throw _
  · refine maintains_get.bind fun db => ?_
    dsimp only
    split
    · split
      · exact maintains_pure _
      · exact maintains_throw _
    · refine h.tableMeta fun m hm => ?_
      split
      · exact maintains_throw _
      · split
        · exact maintains_throw _
        · refine (h.of_free (free_walAppendPending _)).bind fun _ => (h.of_free (free_backupTableForTxn _)).bind fun _ => ?_
          refine (readOnly_selectOrdered _ _).maintains.bind fun sorted => Maintains.bind (h.emit trivial) fun _ => ?_
          refine (h.of_minor (minor_deleteParquetFiles _)).bind fun _ => Maintains.bind (h.modifyCatalog ?_) fun _ => ?_
          · exact keepsTables_of_eq fun _ => rfl
          · refine h.catalogSave.bind fun _ => (maintains_check _).bind fun schema => ?_
            refine (h.registerListingTable hm _).bind fun _ => ?_
            split
            · exact (maintains_check _).bind fun _ => (h.insert _ _ _).bind fun _ => maintains_pure _
            · exact maintains_pure _

theorem handleDropIndex (h : Invariant env C I Right Pre) (name : String) (ifExists : Bool) :
    Maintains C I (handleDropIndex env name ifExists) := by
  unfold PotatoDB.handleDropIndex
  refine maintains_get.bind fun db => ?_
  split
  · split
    · exact maintains_pure _
    · exact maintains_throw _
  · refine (h.of_free (free_walAppendPending _)).bind fun _ => Maintains.bind (h.modifyCatalog ?_) fun _ => ?_
    · exact keepsTables_of_eq fun _ => rfl
    · refine h.catalogSave.bind fun _ => (h.modifyCatalog (keepsTables_promoteIndex _)).bind fun _ => ?_
      refine maintains_get_bind fun s hs => ?_
      dsimp only
      split
      · exact maintains_pure _
      · rename_i m hm
        exact Maintains.bind (h.emit trivial) fun _ => h.registerColumns (h.right s _ m hs hm) _ _

theorem setColumns (h : Invariant env C I Right Pre) (table : String) (columns : List ColumnDef) :
    Maintains C I (setColumns table columns) :=
  h.modifyCatalog (keepsTables_modify table (fun m => { m with columns := columns }) (fun _ => ⟨rfl, rfl⟩) fun _ => rfl)

theorem alterTableOperation (h : Invariant env C I Right Pre) (table : String) (op : AlterTableOperation) :
    Maintains C I (alterTableOperation table op) := by
  cases op with
  | addColumn column ifNotExists =>
    refine (readOnly_tableMeta table).maintains.bind fun m => ?_
    split
    · split
      · exact maintains_pure _
      · exact maintains_throw _
    · exact (h.setColumns _ _).bind fun _ => maintains_pure _
  | dropColumn name ifExists =>
    refine (readOnly_tableMeta table).maintains.bind fun m => ?_
    split
    · exact (h.setColumns _ _).bind fun _ => maintains_pure _
    · split
      · exact maintains_pure _
      · exact maintains_throw _
  | renameColumn oldName newName =>
    refine (readOnly_tableMeta table).maintains.bind fun m => ?_
    split
    · exact (h.setColumns _ _).bind fun _ => maintains_pure _
    · exact maintains_throw _
  | unsupported display => exact maintains_throw _

theorem alterTableOperations (h : Invariant env C I Right Pre) (table : String) : ∀ ops : List AlterTableOperation,
    Maintains C I (alterTableOperations table ops)
  | [] => maintains_pure _
  | op :: ops => (h.alterTableOperation table op).bind fun _ =>
    (alterTableOperations h table ops).bind fun _ => maintains_pure _

theorem handleAlterTable (h : Invariant env C I Right Pre) (sql : String) (alter : AlterTable) {s : Db}
    (hpre : Pre (.alterTable alter) s) (hs : I s) : wp C (handleAlterTable env sql alter) s fun _ t => I t := by
  have hset : ∀ (retention : Option Nat) (message : String), Maintains C I (do
      walAppendPending env sql
      PotatoDB.modifyCatalog fun c => { c with
        tables := c.tables.modify alter.name fun m => { m with retentionSeconds := retention } }
      PotatoDB.catalogSave
      return .message message : M QueryResult) := by
    intro retention message
    refine (h.of_free (free_walAppendPending _)).bind fun _ => Maintains.bind (h.modifyCatalog ?_) fun _ => ?_
    · exact keepsTables_modify alter.name (fun m => { m with retentionSeconds := retention }) (fun _ => ⟨rfl, rfl⟩)
        fun _ => rfl
    · exact h.catalogSave.bind fun _ => maintains_pure _
  have hops : Maintains C I (do
      walAppendPending env sql
      let messages ← PotatoDB.alterTableOperations alter.name alter.operations
      PotatoDB.catalogSave
      Prog.emit (.deregisterTable alter.name)
      let m ← PotatoDB.tableMeta alter.name
      let schema ← check (columnsToSchema env m.columns)
      PotatoDB.registerListingTable alter.name schema m.path
      return .message (" ".intercalate messages) : M QueryResult) := by
    refine (h.of_free (free_walAppendPending _)).bind fun _ => (h.alterTableOperations _ _).bind fun messages => ?_
    refine h.catalogSave.bind fun _ => Maintains.bind (h.emit trivial) fun _ => ?_
    exact h.tableMeta fun m hm => h.registerColumns hm _ _
  unfold PotatoDB.handleAlterTable
  rw [wp_bind, wp_get]
  dsimp only
  split
  · split
    · exact maintains_pure _ s hs
    · exact maintains_throw _ s hs
  · split
    · rename_i hr
      exact h.rename alter _ _ s hr hpre hs
    · exact hset _ _ s hs
    · exact hops s hs

theorem handleDropView (h : Invariant env C I Right Pre) (name : String) (ifExists : Bool) :
    Maintains C I (handleDropView env name ifExists) := by
  unfold PotatoDB.handleDropView
  refine maintains_get.bind fun db => ?_
  split
  · split
    · exact maintains_pure _
    · exact maintains_throw _
  · refine (h.of_free (free_walAppendPending _)).bind fun _ => Maintains.bind (h.modifyCatalog ?_) fun _ => ?_
    · exact keepsTables_of_eq fun _ => rfl
    · refine h.catalogSave.bind fun _ => Maintains.bind (h.emit trivial) fun _ => ?_
      split
      · exact (h.drop _ _).attempt.bind fun _ => maintains_pure _
      · exact maintains_pure _

theorem triggers (h : Invariant env C I Right Pre) {f : CatalogData → CatalogData} (hf : ∀ c, (f c).tables = c.tables)
    (message : String) : Maintains C I (do
      PotatoDB.modifyCatalog f
      PotatoDB.catalogSave
      return .message message : M QueryResult) :=
  (h.modifyCatalog (keepsTables_of_eq hf)).bind fun _ => h.catalogSave.bind fun _ => maintains_pure _

/-! ## Data manipulation -/

theorem runFkAction (h : Invariant env C I Right Pre) (table filter : String) (action : FkAction) :
    Maintains C I (runFkAction env table filter action) := by
  unfold PotatoDB.runFkAction
  refine (readOnly_deletedKeys _ _ _).maintains.bind fun keys => ?_
  split
  · exact maintains_pure _
  · refine readOnly_selectStar.maintains.bind fun child => (maintains_check _).bind fun col => ?_
    split
    · exact maintains_pure _
    · split
      · exact h.rewriteTable _ _ _ _
      · split
        · unfold fkSetNull
          refine (readOnly_tableMeta _).maintains.bind fun m => (maintains_check _).bind fun projected => ?_
          exact h.rewriteTable _ _ _ _
        · exact maintains_throw _

theorem mergeClause (h : Invariant env C I Right Pre) (merge : Merge) (m : TableMeta) (source : Relation)
    (done : Nat × Nat) (clause : MergeClause) : Maintains C I (mergeClause env merge m source done clause) := by
  unfold PotatoDB.mergeClause
  dsimp only
  split
  · refine (readOnly_mergeQuery _ _).maintains.bind fun matched => ?_
    split
    · refine (readOnly_mergeQuery _ _).maintains.bind fun merged => ?_
      exact (h.rewriteTable _ _ _ _).bind fun _ => maintains_pure _
    · exact maintains_pure _
  · refine (readOnly_mergeQuery _ _).maintains.bind fun kept => ?_
    exact (h.rewriteTable _ _ _ _).bind fun _ => maintains_pure _
  · refine (readOnly_mergeQuery _ _).maintains.bind fun rows => ?_
    exact (h.insert _ _ _).bind fun _ => (h.refreshLight _).bind fun _ => maintains_pure _
  · exact maintains_pure _

theorem mergeClauses (h : Invariant env C I Right Pre) (merge : Merge) (m : TableMeta) (source : Relation) :
    ∀ (clauses : List MergeClause) (done : Nat × Nat), Maintains C I (mergeClauses env merge m source done clauses)
  | [], _ => maintains_pure _
  | c :: cs, done => (h.mergeClause merge m source done c).bind fun done' =>
    mergeClauses h merge m source cs done'

theorem handleMerge (h : Invariant env C I Right Pre) (merge : Merge) : Maintains C I (handleMerge env merge) := by
  unfold PotatoDB.handleMerge
  refine (readOnly_tableMeta _).maintains.bind fun m => h.flushAll.bind fun _ => ?_
  refine (readOnly_runQuery _).maintains.bind fun source => ?_
  split
  · exact maintains_pure _
  · refine (h.mergeClauses _ _ _ _ _).bind fun done => ?_
    exact Maintains.bind (h.emit trivial) fun _ => maintains_pure _

theorem handleCopyFrom (h : Invariant env C I Right Pre) (sql : String) (copy : CopyFrom) :
    Maintains C I (handleCopyFrom env sql copy) := by
  have hrest : ∀ n message, Maintains C I (do
      validateNotNullTable copy.table
      validateTableConstraints copy.table
      validateCheckConstraints env copy.table
      maybeAutoAnalyze env copy.table n
      PotatoDB.refreshTableFileStats env copy.table
      recordCdcEvent copy.table "COPY_FROM" n
      return .message message : M QueryResult) := by
    intro n message
    refine (readOnly_validateNotNullTable _).maintains.bind fun _ => readOnly_validateTableConstraints.maintains.bind fun _ => ?_
    refine readOnly_validateCheckConstraints.maintains.bind fun _ => (h.of_minor (minor_maybeAutoAnalyze _ _)).bind fun _ => ?_
    refine (h.refreshTableFileStats _).bind fun _ => ?_
    exact Maintains.bind (h.emit trivial) fun _ => maintains_pure _
  unfold PotatoDB.handleCopyFrom
  refine (readOnly_tableMeta _).maintains.bind fun _ => (h.of_free (free_walAppendPending _)).bind fun _ => ?_
  refine (maintains_check _).bind fun source => (readOnly_tableMeta _).maintains.bind fun m => ?_
  dsimp only
  split
  · exact (h.insert _ _ _).bind fun _ => hrest _ _
  · exact hrest _ _

theorem upsertInsert (h : Invariant env C I Right Pre) (table : String) (targetColumns : List String)
    (rows : List UpsertRow) : Maintains C I (upsertInsert env table targetColumns rows) :=
  (maintains_check _).bind fun _ => h.insert _ _ _

theorem handleUpsert (h : Invariant env C I Right Pre) (insert : Insert) (onConflict : OnConflict) :
    Maintains C I (handleUpsert env insert onConflict) := by
  have hfinish : ∀ n message, Maintains C I (do
      validateNotNullTable insert.table
      validateTableConstraints insert.table
      validateCheckConstraints env insert.table
      maybeAutoAnalyze env insert.table n
      refreshTableFileStatsLight insert.table
      recordCdcEvent insert.table "UPSERT" n
      return .message message : M QueryResult) := by
    intro n message
    refine (readOnly_validateNotNullTable _).maintains.bind fun _ => readOnly_validateTableConstraints.maintains.bind fun _ => ?_
    refine readOnly_validateCheckConstraints.maintains.bind fun _ => (h.of_minor (minor_maybeAutoAnalyze _ _)).bind fun _ => ?_
    exact (h.refreshLight _).bind fun _ => Maintains.bind (h.emit trivial) fun _ => maintains_pure _
  unfold PotatoDB.handleUpsert
  refine (h.flush _).bind fun _ => ?_
  refine (readOnly_tableMeta _).maintains.bind fun m => (maintains_check _).bind fun conflictColumns => ?_
  split
  · exact maintains_throw _
  · dsimp only
    generalize (if insert.columns.isEmpty then m.columnNames else insert.columns) = targetColumns
    split
    · exact maintains_throw _
    · refine (readOnly_runQuery _).maintains.bind fun r => (h.of_free (free_walAppendPending _)).bind fun _ => ?_
      generalize (allRows r.collect).map (upsertRow env targetColumns conflictColumns) = rows
      split
      · exact maintains_pure _
      · refine (readOnly_runQuery _).maintains.bind fun existing => ?_
        -- the insert part, then the update part
        split
        · split
          · exact (maintains_pure 0).bind fun _ => hfinish _ _
          · split
            · exact (maintains_pure 0).bind fun _ => hfinish _ _
            · refine (readOnly_runQuery _).maintains.bind fun modified => ?_
              exact (h.rewriteTable _ _ _ _).bind fun _ => (maintains_pure _).bind fun _ => hfinish _ _
        · refine (h.upsertInsert _ _ _).bind fun _ => ?_
          split
          · exact (maintains_pure 0).bind fun _ => hfinish _ _
          · split
            · exact (maintains_pure 0).bind fun _ => hfinish _ _
            · refine (readOnly_runQuery _).maintains.bind fun modified => ?_
              exact (h.rewriteTable _ _ _ _).bind fun _ => (maintains_pure _).bind fun _ => hfinish _ _

section
variable {exec : String → M QueryResult}

theorem runTriggers (hexec : ∀ sql, Maintains C I (exec sql)) (table event timing : String) :
    Maintains C I (runTriggers exec table event timing) := by
  unfold PotatoDB.runTriggers
  refine maintains_get.bind fun db => maintains_each (fun body => ?_) _
  exact (hexec body).attempt.bind fun _ => maintains_pure _

theorem insertEnd (h : Invariant env C I Right Pre) (hexec : ∀ sql, Maintains C I (exec sql)) (insert : Insert) (rows : Nat) :
    Maintains C I (do
      maybeAutoAnalyze env insert.table rows
      refreshTableFileStatsLight insert.table
      recordCdcEvent insert.table "INSERT" rows
      PotatoDB.runTriggers exec insert.table "INSERT" "AFTER"
      match insert.returning with
      | none => return .records []
      | some list => return .records (← runQuery env (.returning list insert.table none)).collect : M QueryResult) := by
  refine (h.of_minor (minor_maybeAutoAnalyze _ _)).bind fun _ => (h.refreshLight _).bind fun _ => ?_
  refine Maintains.bind (h.emit trivial) fun _ => (runTriggers hexec _ _ _).bind fun _ => ?_
  split
  · exact maintains_pure _
  · exact (readOnly_runQuery _).maintains.bind fun _ => maintains_pure _

theorem handleInsertImmediate (h : Invariant env C I Right Pre) (hexec : ∀ sql, Maintains C I (exec sql)) (sql : String)
    (insert : Insert) (targetColumns : List String) (batches : List RecordBatch) :
    Maintains C I (handleInsertImmediate env exec sql insert targetColumns batches) := by
  have hend := h.insertEnd hexec insert (totalRows batches)
  unfold PotatoDB.handleInsertImmediate
  dsimp only
  refine (h.of_free (free_walAppendPending _)).bind fun _ => (h.validate _ _ _ _).bind fun merges => ?_
  split
  · refine (h.of_minor (minor_nextTempTableName _)).bind fun _ => (maintains_check _).bind fun _ => ?_
    refine (h.insert _ _ _).bind fun _ => (h.validate _ _ _ _).bind fun _ => ?_
    exact Maintains.bind (h.of_free (emits_each (fun _ => emits_emit trivial) _)) fun _ => hend
  · exact (h.validate _ _ _ _).bind fun _ => hend

theorem bufferEnd (h : Invariant env C I Right Pre) (hexec : ∀ sql, Maintains C I (exec sql)) (insert : Insert)
    (targetColumns : List String) (batches : List RecordBatch) :
    Maintains C I (do
      validateNotNullPositional insert.table targetColumns batches
      let columns := if insert.columns.isEmpty then none else some targetColumns
      let (rows, flushed) ← bufferInsertBatches env insert.table columns batches
      recordCdcEvent insert.table "INSERT" rows
      PotatoDB.runTriggers exec insert.table "INSERT" "AFTER"
      return .message (if flushed then s!"{rows} row(s) inserted into '{insert.table}' (buffer flushed)."
        else s!"{rows} row(s) buffered for '{insert.table}'.") : M QueryResult) := by
  refine (readOnly_validateNotNullPositional _ _ _).maintains.bind fun _ => (h.buffer _ _ _).bind fun r => ?_
  refine Maintains.bind (h.emit trivial) fun _ => ?_
  exact (runTriggers hexec _ _ _).bind fun _ => maintains_pure _

theorem handleInsertBuffered (h : Invariant env C I Right Pre) (hexec : ∀ sql, Maintains C I (exec sql)) (sql : String)
    (insert : Insert) (targetColumns : List String) (batches : List RecordBatch) :
    Maintains C I (handleInsertBuffered env exec sql insert targetColumns batches) := by
  have hrest := h.bufferEnd hexec insert targetColumns batches
  unfold PotatoDB.handleInsertBuffered
  dsimp only
  split
  · exact hrest
  · exact (h.of_free (free_walAppendPending _)).bind fun _ => hrest

theorem handleInsert (h : Invariant env C I Right Pre) (hexec : ∀ sql, Maintains C I (exec sql)) (sql : String)
    (insert : Insert) : Maintains C I (handleInsert env exec sql insert) := by
  unfold PotatoDB.handleInsert
  split
  · exact h.handleUpsert insert _
  · dsimp only
    refine (runTriggers hexec _ _ _).bind fun _ => (readOnly_tableMeta _).maintains.bind fun m => ?_
    split
    · exact maintains_throw _
    · refine (readOnly_runQuery _).maintains.bind fun r => maintains_get.bind fun db => ?_
      split
      · exact h.handleInsertImmediate hexec _ _ _ _
      · exact h.handleInsertBuffered hexec _ _ _ _

theorem handleUpdate (h : Invariant env C I Right Pre) (hexec : ∀ sql, Maintains C I (exec sql)) (sql : String)
    (update : Update) : Maintains C I (handleUpdate env exec sql update) := by
  unfold PotatoDB.handleUpdate
  dsimp only
  refine (runTriggers hexec _ _ _).bind fun _ => ?_
  refine (readOnly_tableMeta _).maintains.bind fun m => (h.of_free (free_walAppendPending _)).bind fun _ => ?_
  refine (h.of_free (free_backupTableForTxn _)).bind fun _ => maintains_get.bind fun db => ?_
  refine readOnly_selectStar.maintains.bind fun r => (maintains_check _).bind fun updated => ?_
  refine (readOnly_runQuery _).maintains.bind fun modified => (h.rewriteTable _ _ _ _).bind fun _ => ?_
  refine readOnly_validateTableConstraints.maintains.bind fun _ => readOnly_validateCheckConstraints.maintains.bind fun _ => ?_
  refine Maintains.bind (h.emit trivial) fun _ => ?_
  split
  · exact maintains_pure _
  · exact (readOnly_runQuery _).maintains.bind fun _ => maintains_pure _

theorem deleteEnd (h : Invariant env C I Right Pre) (hexec : ∀ sql, Maintains C I (exec sql)) (delete : Delete) (r : Relation)
    (surviving : List Row) (returned : Option Relation) :
    Maintains C I (do
      let deleted := r.rows.length - surviving.length
      rewriteTable env delete.table r.schema (⟨r.schema, surviving⟩ : Relation).collect false
      recordCdcEvent delete.table "DELETE" deleted
      PotatoDB.runTriggers exec delete.table "DELETE" "AFTER"
      match returned with
      | none => return .message s!"{deleted} row(s) deleted."
      | some rows => return .records rows.collect : M QueryResult) := by
  refine (h.rewriteTable _ _ _ _).bind fun _ => ?_
  refine Maintains.bind (h.emit trivial) fun _ => (runTriggers hexec _ _ _).bind fun _ => ?_
  split
  · exact maintains_pure _
  · exact maintains_pure _

theorem deleteSurviving (h : Invariant env C I Right Pre) (hexec : ∀ sql, Maintains C I (exec sql)) (delete : Delete)
    (r : Relation) (returned : Option Relation) :
    Maintains C I (do
      let surviving ← match delete.selection with
        | none => pure []
        | some condition => do check (filterNotRows env condition (← get).relation r)
      let deleted := r.rows.length - surviving.length
      rewriteTable env delete.table r.schema (⟨r.schema, surviving⟩ : Relation).collect false
      recordCdcEvent delete.table "DELETE" deleted
      PotatoDB.runTriggers exec delete.table "DELETE" "AFTER"
      match returned with
      | none => return .message s!"{deleted} row(s) deleted."
      | some rows => return .records rows.collect : M QueryResult) := by
  have hend := h.deleteEnd hexec delete r
  dsimp only
  split
  · exact (maintains_pure _).bind fun surviving => hend surviving returned
  · exact maintains_get.bind fun db => (maintains_check _).bind fun surviving => hend surviving returned

theorem handleDelete (h : Invariant env C I Right Pre) (hexec : ∀ sql, Maintains C I (exec sql)) (delete : Delete) :
    Maintains C I (handleDelete env exec delete) := by
  unfold PotatoDB.handleDelete
  dsimp only
  refine (runTriggers hexec _ _ _).bind fun _ => (readOnly_tableMeta _).maintains.bind fun _ => ?_
  refine (h.of_free (free_walAppendPending _)).bind fun _ => (h.of_free (free_backupTableForTxn _)).bind fun _ => ?_
  refine maintains_get.bind fun db => (maintains_each (h.runFkAction _ _) _).bind fun _ => ?_
  refine readOnly_selectStar.maintains.bind fun r => ?_
  have hsurviving := h.deleteSurviving hexec delete r
  split
  · exact (maintains_pure _).bind fun returned => hsurviving returned
  · have hsome : ∀ q, Maintains C I (some <$> runQuery env q) :=
      fun q => (readOnly_runQuery q).maintains.bind fun rows => maintains_pure (some rows)
    exact (hsome _).bind hsurviving

theorem dispatch (h : Invariant env C I Right Pre) (hexec : ∀ sql, Maintains C I (exec sql)) (sql : String)
    (statement : Statement) {s : Db} (hpre : Pre statement s) (hs : I s) :
    wp C (dispatch env exec sql statement) s fun _ t => I t := by
  cases statement with
  | flush table =>
    have hrest : ∀ n : Nat, Maintains C I (do
        catalogFlushIfDirty
        return .message s!"{n} row(s) flushed." : M QueryResult) :=
      fun _ => (h.of_free free_catalogFlushIfDirty).bind fun _ => maintains_pure _
    cases table with
    | none => exact h.flushAll.bind hrest s hs
    | some t => exact (h.flush t).bind hrest s hs
  | savepoint name => exact h.of_free (free_handleSavepoint name) s hs
  | rollbackTo name => exact h.rollbackTo name s hs
  | release name => exact h.of_free (free_handleReleaseSavepoint name) s hs
  | createTrigger trigger =>
    exact h.triggers (f := fun c => { c with triggers := c.triggers.insert trigger.name trigger }) (fun _ => rfl) _ s hs
  | dropTrigger name =>
    exact h.triggers (f := fun c => { c with triggers := c.triggers.erase name }) (fun _ => rfl) _ s hs
  | truncate table => exact h.handleTruncate table s hs
  | checkpoint => exact h.checkpoint s hs
  | vacuum table analyze => exact h.handleVacuum table analyze s hs
  | analyze table => exact h.handleAnalyze table s hs
  | startTransaction => exact h.of_free free_handleBegin s hs
  | commit => exact h.handleCommit s hs
  | rollback => exact h.rollback s hs
  | createTable create => exact h.create create s hpre hs
  | createIndex create => exact h.handleCreateIndex create s hs
  | dropTable name ifExists => exact h.drop name ifExists s hs
  | dropIndex name ifExists => exact h.handleDropIndex name ifExists s hs
  | delete delete => exact h.handleDelete hexec delete s hs
  | update update => exact h.handleUpdate hexec sql update s hs
  | insert insert => exact h.handleInsert hexec sql insert s hs
  | merge merge => exact h.handleMerge merge s hs
  | alterTable alter => exact h.handleAlterTable sql alter hpre hs
  | copyFrom copy => exact h.handleCopyFrom sql copy s hs
  | createView create => exact h.createView create s hpre hs
  | dropView name ifExists => exact h.handleDropView name ifExists s hs
  | refreshMaterializedView name => exact h.refreshView name s hpre hs
  | query => exact Maintains.bind (readOnly_runQuery _).maintains (fun _ => maintains_pure _) s hs

end

/-- **What the parts keep, every statement keeps**, with the triggers it runs. -/
theorem execute (h : Invariant env C I Right Pre) : ∀ (fuel : Nat) (sql : String), Maintains C I (execute env fuel sql)
  | 0, _ => maintains_throw _
  | fuel + 1, sql => by
    intro s hs
    unfold PotatoDB.execute
    rw [wp_bind]
    refine wp_mono (fun r t ht => ?_) (h.arrive sql s hs)
    cases r with
    | error e => exact ht.1
    | ok a =>
      dsimp only
      rw [wp_bind, wp_attempt]
      refine wp_mono (fun r u hu => ?_) (h.dispatch (execute h fuel) sql _ (ht.2 ⟨a, rfl⟩) ht.1)
      exact h.leave _ r u hu

theorem statements (h : Invariant env C I Right Pre) (fuel : Nat) (sqls : List String) :
    Maintains C I (statements env fuel sqls) :=
  maintains_each (fun sql => (h.execute fuel sql).attempt.bind fun _ => maintains_pure _) sqls

end

end Invariant

end PotatoDB
