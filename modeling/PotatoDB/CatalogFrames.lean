import PotatoDB.DdlLog
import PotatoDB.Handlers
import PotatoDB.SequencesSound
import PotatoDB.StorageSound

/-!
# What handlers leave of the catalog

Most operations leave the catalog in memory alone. A handler that logs a text and changes the
catalog once leaves that change, and no flush changes the views.
-/

namespace PotatoDB

open Oplog Oplog.Prog
open Machine (apply)

section
variable {α : Type} {env : Env} {s : Db}

/-- The catalog in memory stays as it is. -/
def Op.Uncataloged : Op → Prop
  | setCatalog _ => False
  | _ => True

theorem catalog_of_emits {p : M α} (h : Emits Op.Uncataloged p) (s : Db) : (p.final s).catalog = s.catalog := by
  have hop : ∀ (t : Db) (o : Op), o.Uncataloged → (apply t o).catalog = t.catalog := by
    intro t o ho
    cases o with
    | setCatalog data => exact ho.elim
    | _ => rfl
  exact h.final_eq hop s

theorem Op.Minor.uncataloged {o : Op} (h : o.Minor) : o.Uncataloged := by
  cases o with
  | setCatalog data => exact h.elim
  | _ => trivial

theorem uncataloged_deleteTableStorage (m : TableMeta) : Emits Op.Uncataloged (deleteTableStorage env m) := by
  unfold deleteTableStorage
  split
  · exact emits_emit trivial
  · exact emits_get.bind fun _ => emits_each (fun _ => emits_emit trivial) _

/-- The state after a pending entry. -/
def Db.pending (s : Db) (sql : String) : Db := apply s (.walAppend ⟨currentWalTxnId s, .pending, sql⟩)

theorem walAppendPending_eq (env : Env) (s : Db) (sql : String) : (walAppendPending env sql : M Unit) s =
    (if s.replayingWal || !env.walEnabled then pure () else emit (.walAppend ⟨currentWalTxnId s, .pending, sql⟩) : M Unit) s := by
  show (_, [] ++ _) = _
  rfl

/-- A handler that appends a text goes on with the same catalog and tables. -/
theorem append_then (env : Env) (s : Db) (sql : String) (p : Unit → M α) :
    ∃ t : Db, t.catalog = s.catalog ∧ t.relation = s.relation ∧
      (walAppendPending env sql >>= p).result s = (p ()).result t ∧
      (walAppendPending env sql >>= p).final s = (p ()).final t := by
  have hif := walAppendPending_eq env s sql
  have hr : (walAppendPending env sql : M Unit).result s = .ok () := by
    rw [Prog.result, hif]
    split <;> rfl
  have hf : (walAppendPending env sql : M Unit).final s = s ∨ (walAppendPending env sql : M Unit).final s = s.pending sql := by
    rw [Prog.final, Prog.ops, hif]
    split
    · exact .inl rfl
    · exact .inr rfl
  refine ⟨(walAppendPending env sql : M Unit).final s, ?_, ?_, ?_, ?_⟩
  · rcases hf with hf | hf
    · rw [hf]
    · rw [hf]
      rfl
  · rcases hf with hf | hf
    · rw [hf]
    · rw [hf]
      rfl
  · rw [result_bind, hr]
  · rw [final_bind, hr]

theorem result_get_bind (f : Db → M α) : (Prog.get >>= f).result s = (f s).result s := by
  rw [result_bind]
  rfl

theorem final_get_bind (f : Db → M α) : (Prog.get >>= f).final s = (f s).final s := by
  rw [final_bind]
  rfl

theorem result_catalogSave (s : Db) : (catalogSave : M Unit).result s = .ok () := by
  have hp : (catalogSave : M Unit).result s =
      Prog.result (if s.catalogInTransaction then pure () else emit .markCatalogDirty : M Unit) s := rfl
  rw [hp]
  split <;> rfl

theorem yields_append {sql : String} {p : Unit → M α} {R : α → Db → Prop}
    (h : ∀ t : Db, t.catalog = s.catalog → t.relation = s.relation → Yields (p ()) t R) :
    Yields (walAppendPending env sql >>= p) s R := by
  obtain ⟨t, hc, hrel, hres, hfin⟩ := append_then env s sql p
  intro a ha
  rw [hfin]
  exact h t hc hrel a (hres.symm.trans ha)

/-- A handler that appends a text and saves one change goes on with the changed catalog. -/
theorem logged_then (env : Env) (s : Db) (sql : String) (f : CatalogData → CatalogData) (p : Unit → M α) :
    ∃ t : Db, t.catalog = f s.catalog ∧
      (walAppendPending env sql >>= fun _ => modifyCatalog f >>= fun _ => catalogSave >>= p).final s = (p ()).final t := by
  obtain ⟨t, hc, -, -, hf⟩ := append_then env s sql fun _ => modifyCatalog f >>= fun _ => catalogSave >>= p
  have hmod : (modifyCatalog f : M Unit).result t = .ok () := rfl
  refine ⟨catalogSave.final ((modifyCatalog f : M Unit).final t), ?_, ?_⟩
  · rw [catalog_of_emits (minor_catalogSave.mono fun _ h => h.uncataloged), ← hc]
    rfl
  · rw [hf, final_bind, hmod]
    dsimp only
    rw [final_bind, result_catalogSave]

/-- A property of that end, from every state with the changed catalog. -/
theorem logged_elim {sql : String} {f : CatalogData → CatalogData} {p : Unit → M α} (P : Db → Prop)
    (h : ∀ t : Db, t.catalog = f s.catalog → P ((p ()).final t)) :
    P ((walAppendPending env sql >>= fun _ => modifyCatalog f >>= fun _ => catalogSave >>= p).final s) := by
  obtain ⟨t, hc, hf⟩ := logged_then env s sql f p
  rw [hf]
  exact h t hc

theorem catalog_logged (sql : String) (f : CatalogData → CatalogData) {p : Unit → M α} (hp : ∀ u, Emits Op.Uncataloged (p u))
    (s : Db) : ((walAppendPending env sql >>= fun _ => modifyCatalog f >>= fun _ => catalogSave >>= p).final s).catalog =
      f s.catalog := by
  obtain ⟨t, hc, hf⟩ := logged_then env s sql f p
  rw [hf, ← hc]
  exact catalog_of_emits (hp ()) t

theorem catalog_handleDropTable (name : String) (ifExists : Bool) (s : Db) :
    ((handleDropTable env name ifExists).final s).catalog =
      if s.catalog.tables.lookup name = none then s.catalog else s.catalog.removeTable name := by
  unfold handleDropTable
  rw [final_get_bind]
  cases hm : s.catalog.tables.lookup name with
  | none =>
    rw [if_pos rfl]
    dsimp only
    split <;> rfl
  | some m =>
    rw [if_neg (Option.some_ne_none m)]
    refine catalog_logged _ _ (fun _ => ?_) s
    refine Emits.bind (emits_emit trivial) fun _ => Emits.bind (emits_emit trivial) fun _ => emits_get.bind fun db => ?_
    split
    · exact Emits.bind (emits_emit trivial) fun _ => emits_pure _
    · exact (uncataloged_deleteTableStorage m).bind fun _ => emits_pure _

theorem lookup_handleDropTable {name k : String} (h : k ≠ name) (ifExists : Bool) (s : Db) :
    ((handleDropTable env name ifExists).final s).catalog.tables.lookup k = s.catalog.tables.lookup k := by
  rw [catalog_handleDropTable]
  split
  · rfl
  · exact AList.lookup_erase_ne h

theorem views_handleDropTable (name : String) (ifExists : Bool) (s : Db) :
    ((handleDropTable env name ifExists).final s).catalog.views = s.catalog.views := by
  rw [catalog_handleDropTable]
  split <;> rfl

theorem catalog_handleDropSequence (name : String) (ifExists : Bool) (s : Db) :
    ((handleDropSequence env name ifExists).final s).catalog =
      if s.catalog.sequences.lookup name = none then s.catalog else s.catalog.removeSequence name := by
  unfold handleDropSequence
  rw [final_get_bind]
  cases s.catalog.sequences.lookup name with
  | none =>
    rw [if_pos rfl]
    simp only [Option.isNone_none, if_true]
    split <;> rfl
  | some seq =>
    rw [if_neg (Option.some_ne_none seq)]
    exact catalog_logged _ _ (fun _ => emits_pure _) s

theorem catalog_handleCreateSequence (name : String) (ifNotExists : Bool) (options : List SequenceOption) (s : Db) :
    ((handleCreateSequence env name ifNotExists options).final s).catalog =
      if s.catalog.sequences.lookup name = none then s.catalog.addSequence (sequenceDef name options) else s.catalog := by
  unfold handleCreateSequence
  rw [final_get_bind]
  cases s.catalog.sequences.lookup name with
  | none =>
    rw [if_pos rfl]
    exact catalog_logged _ _ (fun _ => emits_pure _) s
  | some seq =>
    rw [if_neg (Option.some_ne_none seq)]
    simp only [Option.isSome_some, if_true]
    split <;> rfl

theorem lookup_promoteIndex (c : CatalogData) (table k : String) :
    (c.promoteIndex table).indexes.lookup k = none ↔ c.indexes.lookup k = none := by
  unfold CatalogData.promoteIndex
  split
  · exact Iff.rfl
  · split
    · exact Iff.rfl
    · dsimp only
      rw [Map.modify, Map.lookup_mapValues, Option.map_eq_none_iff]

theorem catalog_handleDropIndex (name : String) (ifExists : Bool) (s : Db) :
    ((handleDropIndex env name ifExists).final s).catalog =
      match s.catalog.indexes.lookup name with
      | none => s.catalog
      | some index => (s.catalog.removeIndex name).promoteIndex index.tableName := by
  unfold handleDropIndex
  rw [final_get_bind]
  cases s.catalog.indexes.lookup name with
  | none =>
    dsimp only
    split <;> rfl
  | some index =>
    dsimp only
    refine logged_elim (fun u => u.catalog = (s.catalog.removeIndex name).promoteIndex index.tableName) fun t hc => ?_
    rw [← hc, final_bind]
    refine catalog_of_emits (emits_get.bind fun db => ?_) _
    split
    · exact (emits_pure _).bind fun _ => emits_pure _
    · exact Emits.bind (emits_emit trivial) fun _ => (emits_check _).bind fun schema =>
        Emits.bind (emits_emit trivial) fun _ => emits_pure _

theorem views_handleDropView (name : String) (ifExists : Bool) (s : Db) :
    ((handleDropView env name ifExists).final s).catalog.views =
      if s.catalog.views.lookup name = none then s.catalog.views else s.catalog.views.erase name := by
  unfold handleDropView
  rw [final_get_bind]
  cases s.catalog.views.lookup name with
  | none =>
    rw [if_pos rfl]
    dsimp only
    split <;> rfl
  | some view =>
    rw [if_neg (Option.some_ne_none view)]
    dsimp only
    refine logged_elim (fun u => u.catalog.views = s.catalog.views.erase name) fun t hc => ?_
    have hv : t.catalog.views = s.catalog.views.erase name := congrArg CatalogData.views hc
    rw [← hv, final_bind]
    dsimp only [result_emit]
    split
    · rw [final_bind_readOnly fun _ => readOnly_pure _]
      exact views_handleDropTable _ _ _
    · rfl

theorem uncataloged_insertInto (table : String) (columns : Option (List String)) (batches : List RecordBatch) :
    Emits Op.Uncataloged (insertInto env table columns batches) := by
  unfold insertInto
  refine emits_get.bind fun db => ?_
  split
  · exact emits_throw _
  · refine (emits_check _).bind fun rows => ?_
    split
    · exact emits_pure _
    · exact (minor_now.mono fun _ h => h.uncataloged).bind fun _ => emits_emit trivial

theorem uncataloged_registerView (name query : String) : Emits Op.Uncataloged (registerView env name query) :=
  emits_get.bind fun _ => (emits_check _).bind fun _ => emits_emit trivial

theorem uncataloged_catalogSave : Emits Op.Uncataloged catalogSave := minor_catalogSave.mono fun _ h => h.uncataloged

theorem uncataloged_backupTableForTxn (table : String) : Emits Op.Uncataloged (backupTableForTxn table) := by
  unfold backupTableForTxn
  refine emits_get.bind fun db => ?_
  split
  · exact emits_pure _
  · split
    · exact emits_pure _
    · exact readOnly_selectStar.emits.bind fun _ => emits_emit trivial

/-! ## Parts of the catalog -/

/-- The program leaves a part of the catalog as it is. -/
def KeepsPart {τ : Type} (g : CatalogData → τ) (p : M α) : Prop := ∀ s : Db, g (p.final s).catalog = g s.catalog

/-- The program leaves the views as they are. -/
def KeepsViews (p : M α) : Prop := ∀ s : Db, (p.final s).catalog.views = s.catalog.views

/-- A part that the statistics of files are not in. -/
def WithoutFileStats {τ : Type} (g : CatalogData → τ) : Prop := ∀ c table stats, g (c.setFileStats table stats) = g c

section
variable {τ : Type} {g : CatalogData → τ}

theorem keepsPart_of_emits {p : M α} (h : Emits Op.Uncataloged p) : KeepsPart g p :=
  fun s => congrArg g (catalog_of_emits h s)

theorem KeepsPart.bind {β : Type} {p : M α} {f : α → M β} (hp : KeepsPart g p) (hf : ∀ a, KeepsPart g (f a)) :
    KeepsPart g (p >>= f) := by
  intro s
  rw [final_bind]
  cases p.result s with
  | error e => exact hp s
  | ok a => exact (hf a _).trans (hp s)

theorem KeepsPart.yields {β : Type} {p : M α} {f : α → M β} {v : τ} {R : β → Db → Prop} (hp : KeepsPart g p)
    (hv : g s.catalog = v) (hf : ∀ a t, g t.catalog = v → Yields (f a) t R) : Yields (p >>= f) s R :=
  yields_bind.mpr fun a _ => hf a _ ((hp s).trans hv)

theorem keepsPart_append (sql : String) : KeepsPart g (walAppendPending env sql) := by
  refine keepsPart_of_emits (emits_get.bind fun db => ?_)
  split
  · exact emits_pure _
  · exact emits_emit trivial

theorem keepsPart_catalogSave : KeepsPart g catalogSave :=
  keepsPart_of_emits (minor_catalogSave.mono fun _ h => h.uncataloged)

theorem keepsPart_modifyCatalog {f : CatalogData → CatalogData} (h : ∀ c, g (f c) = g c) :
    KeepsPart g (modifyCatalog f) := fun s => h s.catalog

theorem keepsPart_refreshTableFileStats (hg : WithoutFileStats g) (table : String) : KeepsPart g (refreshTableFileStats env table) := by
  unfold refreshTableFileStats
  intro s
  rw [final_get_bind]
  split
  · rfl
  · exact ((keepsPart_modifyCatalog fun c => hg c table _).bind fun _ =>
      keepsPart_catalogSave) s

theorem keepsPart_of_minor {p : M α} (h : Emits Op.Minor p) : KeepsPart g p :=
  keepsPart_of_emits (h.mono fun _ h => h.uncataloged)

theorem keepsPart_pure (a : α) : KeepsPart g (pure a : M α) := fun _ => rfl

theorem keepsPart_throw (e : String) : KeepsPart g (throw e : M α) := fun _ => rfl

theorem keepsPart_emit {o : Op} (ho : o.Uncataloged) : KeepsPart g (emit o : M Unit) := keepsPart_of_emits (emits_emit ho)

theorem keepsPart_readOnly {p : M α} (h : ReadOnly p) : KeepsPart g p := keepsPart_of_emits h.emits

theorem KeepsPart.attempt {p : M α} (h : KeepsPart g p) : KeepsPart g p.attempt := h

theorem keepsPart_refreshLight (hg : WithoutFileStats g) (table : String) : KeepsPart g (refreshTableFileStatsLight table) := by
  unfold refreshTableFileStatsLight
  refine KeepsPart.bind (keepsPart_of_emits (emits_get.bind fun _ => emits_pure _)) fun files => ?_
  refine (keepsPart_readOnly readOnly_get).bind fun db => ?_
  split
  · exact (keepsPart_modifyCatalog fun c => hg c table _).bind fun _ => keepsPart_catalogSave
  · exact keepsPart_pure _

theorem keepsPart_insertInto (table : String) (columns : Option (List String)) (batches : List RecordBatch) :
    KeepsPart g (insertInto env table columns batches) :=
  keepsPart_of_emits (uncataloged_insertInto _ _ _)

theorem keepsPart_writeRewritten (table : String) (schema : Schema) (batches original : List RecordBatch) :
    KeepsPart g (writeRewritten env table schema batches original) := by
  unfold writeRewritten
  split
  · refine KeepsPart.bind (KeepsPart.attempt ?_) fun r => ?_
    · exact (keepsPart_readOnly (readOnly_check _)).bind fun _ => keepsPart_insertInto _ _ _
    · cases r with
      | ok _ => exact keepsPart_pure _
      | error e =>
        refine KeepsPart.bind ?_ fun _ => keepsPart_throw _
        unfold restoreTableFromSnapshot
        split
        · exact (keepsPart_insertInto _ _ _).attempt.bind fun _ => keepsPart_pure _
        · exact keepsPart_pure _
  · exact keepsPart_pure _

theorem keepsPart_rewriteTable (hg : WithoutFileStats g) (table : String) (schema : Schema) (batches : List RecordBatch) (flag : Bool) :
    KeepsPart g (rewriteTable env table schema batches flag) := by
  unfold rewriteTable
  refine (keepsPart_readOnly (readOnly_tableMeta table)).bind fun m => ?_
  refine KeepsPart.bind (keepsPart_emit trivial) fun _ => KeepsPart.bind ?_ fun original => ?_
  · unfold diskSnapshot
    split
    · exact keepsPart_pure _
    · exact (keepsPart_readOnly readOnly_selectStar).bind fun _ => keepsPart_pure _
  · refine KeepsPart.bind (keepsPart_emit trivial) fun _ => (keepsPart_of_minor (minor_deleteParquetFiles table)).bind fun _ => ?_
    refine (keepsPart_readOnly (readOnly_check _)).bind fun _ => KeepsPart.bind (keepsPart_emit trivial) fun _ => ?_
    exact (keepsPart_writeRewritten _ _ _ _).bind fun _ => keepsPart_refreshLight hg table

theorem keepsPart_maybeAutoCompact (hg : WithoutFileStats g) (table : String) : KeepsPart g (maybeAutoCompact env table) := by
  unfold maybeAutoCompact
  refine (keepsPart_readOnly readOnly_get).bind fun db => ?_
  split
  · exact keepsPart_pure _
  · refine KeepsPart.bind (keepsPart_of_emits (emits_get.bind fun _ => emits_pure _)) fun files => ?_
    split
    · exact keepsPart_pure _
    · refine (keepsPart_readOnly readOnly_get).bind fun _ => (keepsPart_readOnly (readOnly_selectOrdered _ _)).bind fun r => ?_
      exact keepsPart_rewriteTable hg _ _ _ _

theorem keepsPart_flushTable (hg : WithoutFileStats g) (table : String) : KeepsPart g (flushTable env table) := by
  have hvalidate : ∀ targetColumns batches phase, KeepsPart g (validateConstraintsBatch env table targetColumns batches phase) :=
    fun _ _ _ => keepsPart_of_minor ((checking_validateConstraintsBatch table _ _ _).mono fun _ h => h.minor)
  have hfinish : ∀ targetColumns merges n, KeepsPart g (finishFlush env table targetColumns merges n) := by
    intro targetColumns merges n
    have hrest := (keepsPart_of_minor (@minor_maybeAutoAnalyze env table n)).bind fun _ =>
      (keepsPart_refreshLight hg table).bind fun _ => (@keepsPart_maybeAutoCompact env τ g hg table).bind fun _ => keepsPart_pure n
    unfold finishFlush
    refine (hvalidate _ _ _).bind fun _ => ?_
    refine KeepsPart.bind (keepsPart_of_minor (emits_each (fun m => emits_emit trivial) merges)) fun _ => ?_
    dsimp only
    split
    · exact KeepsPart.bind (keepsPart_emit trivial) fun _ => hrest
    · exact hrest
  rw [flushTable_eq]
  refine (keepsPart_readOnly readOnly_get).bind fun db => ?_
  split
  · exact keepsPart_pure _
  · refine KeepsPart.bind (keepsPart_emit trivial) fun _ => ?_
    unfold writeBuffered
    split
    · exact keepsPart_pure _
    · refine KeepsPart.bind ?_ fun targetColumns => (hvalidate _ _ _).bind fun merges => ?_
      · unfold targetColumnsOf
        split
        · exact keepsPart_pure _
        · exact keepsPart_of_emits (emits_get.bind fun _ => emits_pure _)
      · refine (keepsPart_of_minor (minor_nextTempTableName _)).bind fun _ => (keepsPart_readOnly (readOnly_check _)).bind fun _ => ?_
        exact (keepsPart_insertInto _ _ _).bind fun _ => hfinish _ _ _

theorem keepsPart_flushTables (hg : WithoutFileStats g) : ∀ tables : List String, KeepsPart g (flushTables env tables)
  | [] => keepsPart_pure _
  | t :: ts => (keepsPart_flushTable hg t).bind fun _ => (keepsPart_flushTables hg ts).bind fun _ => keepsPart_pure _

theorem keepsPart_flushBufferedForSql (hg : WithoutFileStats g) (sqlUpper : String) : KeepsPart g (flushBufferedForSql env sqlUpper) := by
  unfold flushBufferedForSql
  refine (keepsPart_readOnly readOnly_get).bind fun db => ?_
  dsimp only
  split
  · exact (keepsPart_readOnly readOnly_get).bind fun _ => keepsPart_flushTables hg _
  · exact keepsPart_flushTables hg _

end

theorem views_withoutFileStats : WithoutFileStats CatalogData.views := fun _ _ _ => rfl

theorem keepsViews_handleCtas (table query : String) (partitionColumns : List String) :
    KeepsViews (handleCtas env table query partitionColumns) := by
  have hsave : ∀ m : TableMeta, KeepsViews (do
      modifyCatalog (·.addTable m)
      catalogSave
      refreshTableFileStats env table
      return .message s!"Table '{table}' created." : M QueryResult) :=
    fun m => KeepsPart.bind (g := CatalogData.views) (keepsPart_modifyCatalog fun _ => rfl) fun _ => keepsPart_catalogSave.bind fun _ =>
      (keepsPart_refreshTableFileStats views_withoutFileStats table).bind fun _ => keepsPart_of_emits (emits_pure _)
  have hregister : ∀ (name : String) (schema : Schema) (path : String),
      KeepsViews (registerListingTable name schema path) := fun _ _ _ => keepsPart_of_emits (emits_emit trivial)
  unfold handleCtas
  refine KeepsPart.bind (g := CatalogData.views) (keepsPart_of_emits (readOnly_runQuery _).emits) fun r => ?_
  refine (keepsPart_of_emits (emits_check _)).bind fun schema => KeepsPart.bind (hregister _ _ _) fun _ => ?_
  dsimp only
  split
  · refine (keepsPart_of_emits (emits_check _)).bind fun _ => ?_
    exact (keepsPart_of_emits (uncataloged_insertInto _ _ _)).bind fun _ => hsave _
  · exact hsave _

/-- The view that CREATE VIEW puts into the catalog. -/
def CreateView.def_ (create : CreateView) : ViewDef :=
  ⟨create.name, create.query, create.materialized, if create.materialized then some (backingTable create.name) else none⟩

/-- What a successful CREATE VIEW has found and left. -/
theorem views_handleCreateView (create : CreateView) (s : Db) : Yields (handleCreateView env create) s fun _ t =>
    (s.catalog.views.lookup create.name ≠ none → create.orReplace = true) ∧
      t.catalog.views = s.catalog.views.insert create.name create.def_ := by
  have hsave : ∀ (def_ : ViewDef) (t : Db) (message : String), def_ = create.def_ → t.catalog.views = s.catalog.views →
      Yields (do
        modifyCatalog (·.addView def_)
        catalogSave
        return .message message : M QueryResult) t fun _ u => u.catalog.views = s.catalog.views.insert create.name create.def_ := by
    intro def_ t message hdef ht _ _
    rw [← ht, final_bind, hdef]
    exact (KeepsPart.bind (g := CatalogData.views) keepsPart_catalogSave fun _ => keepsPart_of_emits (emits_pure _)) _
  have hview : ∀ name query : String, KeepsViews (registerView env name query) := fun name query =>
    keepsPart_of_emits (uncataloged_registerView name query)
  unfold handleCreateView
  rw [yields_bind, yields_get]
  dsimp only
  split
  · exact yields_throw
  · rename_i hnew
    have hreplace : s.catalog.views.lookup create.name ≠ none → create.orReplace = true := by
      intro hv
      by_contra hr
      exact hnew (by simpa [hr, Option.isSome_iff_ne_none] using hv)
    refine KeepsPart.yields (g := CatalogData.views) (keepsPart_append _) rfl fun _ t ht => Yields.mono (R := fun _ u => u.catalog.views =
      s.catalog.views.insert create.name create.def_) ?_ fun _ _ hu => ⟨hreplace, hu⟩
    split
    · rename_i hm
      have hdef : ViewDef.mk create.name create.query create.materialized (some (backingTable create.name)) =
          create.def_ := by simp [CreateView.def_, hm]
      rw [yields_bind, yields_get]
      split
      · refine KeepsPart.yields (g := CatalogData.views) (p := attempt _) (fun u => views_handleDropTable _ _ u) ht fun _ t ht => ?_
        refine KeepsPart.yields (g := CatalogData.views) (keepsViews_handleCtas _ _ _) ht fun _ t ht => KeepsPart.yields (g := CatalogData.views) (hview _ _) ht fun _ t ht => ?_
        exact hsave _ t _ hdef ht
      · refine KeepsPart.yields (g := CatalogData.views) (keepsViews_handleCtas _ _ _) ht fun _ t ht => KeepsPart.yields (g := CatalogData.views) (hview _ _) ht fun _ t ht => ?_
        exact hsave _ t _ hdef ht
    · rename_i hm
      have hdef : ViewDef.mk create.name create.query create.materialized none = create.def_ := by
        simp [CreateView.def_, hm]
      exact KeepsPart.yields (g := CatalogData.views) (hview _ _) ht fun _ t ht => hsave _ t _ hdef ht

/-- What a successful rename has found and left. -/
theorem tables_handleRenameTable {oldName newName : String} (hne : oldName ≠ newName) (s : Db) :
    Yields (handleRenameTable env oldName newName) s fun _ t => s.catalog.tables.lookup newName = none ∧
      ∃ m, s.catalog.tables.lookup oldName = some m ∧
        t.catalog.tables = (s.catalog.tables.erase oldName).insert newName { m with name := newName } := by
  unfold handleRenameTable
  rw [yields_bind, yields_get, if_neg hne]
  split
  · exact yields_throw
  · rename_i hnew
    have hnone : s.catalog.tables.lookup newName = none := by simpa using hnew
    refine yields_append fun t hc _ => yields_bind.mpr (yields_tableMeta fun m hm => ?_)
    intro _ _
    refine ⟨hnone, m, by rwa [← hc], ?_⟩
    rw [final_bind, ← hc]
    refine congrArg CatalogData.tables (catalog_of_emits ?_ _)
    refine (minor_catalogSave.mono fun _ h => h.uncataloged).bind fun _ => Emits.bind (emits_emit trivial) fun _ => ?_
    exact (emits_check _).bind fun schema => Emits.bind (emits_emit trivial) fun _ => emits_pure _

end

end PotatoDB
