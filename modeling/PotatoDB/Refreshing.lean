import PotatoDB.ReferencesSound
import PotatoDB.RewriteFaults
import PotatoDB.Compaction

/-!
# A REFRESH in which a step fails

REFRESH MATERIALIZED VIEW drops the table behind the view and creates it again from the query. The
error of the drop is ignored, and behind it nothing brings the old rows back.
-/

namespace PotatoDB

open Oplog Oplog.Prog
open Machine (apply)

/-! ## The steps -/

/-- The step of the drop that fails. -/
inductive DropFault where
  | logAppend
  | deregister
  /-- A deletion, after these files. -/
  | deletion (gone : List ObjPath)
deriving DecidableEq

/-- The step that fails before the drop or behind it. -/
inductive RefreshFault where
  | logAppend
  | parse
  | createDir
  | register
  | temporaryTable
  /-- The write, after files with some rows. -/
  | write (written : List (List Row))
  | dropTemporary
  | statistics
  | createView
deriving DecidableEq

section
variable (env : Env) (dropFault : Option DropFault) (fault : Option RefreshFault)

def walAppendPendingUnder (fails : Bool) (sql : String) : M Unit := do
  let db ← get
  if db.replayingWal || !env.walEnabled then pure ()
  else
    failIf fails
    emit (.walAppend ⟨currentWalTxnId db, .pending, sql⟩)

def deleteTableStorageUnder (table : TableMeta) : M Unit := do
  match dropFault with
  | some (.deletion gone) =>
    let files := ((← get).store.list (storageDir env table)).map (·.1)
    each (fun path => emit (.deleteFile path)) (files.filter fun path => path ∈ gone)
    throw "injected failure"
  | _ => deleteTableStorage env table

def handleDropTableUnder (name : String) (ifExists : Bool) : M QueryResult := do
  match (← get).catalog.tables.lookup name with
  | none =>
    if ifExists then return .message s!"Table '{name}' does not exist, skipping."
    else throw s!"Table '{name}' does not exist"
  | some m =>
    walAppendPendingUnder env (dropFault = some .logAppend)
      (if ifExists then s!"DROP TABLE IF EXISTS \"{name}\"" else s!"DROP TABLE \"{name}\"")
    modifyCatalog (·.removeTable name)
    catalogSave
    failIf (dropFault = some .deregister)
    emit (.deregisterTable name)
    invalidateUniquenessCacheForTable name
    if (← get).activeTxn.isSome then emit (.deferDelete m) else deleteTableStorageUnder env dropFault m
    return .message s!"Table '{name}' dropped."

/-- DataFusion's INSERT may stop after some files. -/
def insertResultUnder (table : String) (batches : List RecordBatch) : M Unit :=
  match fault with
  | some (.write written) => insertPartly env table written
  | _ => insertInto env table none batches

def handleCtasUnder (table query : String) (partitionColumns : List String) : M QueryResult := do
  let r ← runQuery env (.user query)
  let columns := r.schema.map fun f => (⟨f.name, env.arrowTypeToSqlString f.dataType, f.nullable⟩ : ColumnDef)
  let path := tableUrl env table
  failIf (fault = some .createDir && env.isLocalDisk)
  let schema ← check (columnsToSchema env columns)
  failIf (fault = some .register)
  registerListingTable table schema path
  if hasData r.collect then
    check (memTable r.schema r.collect)
    failIf (fault = some .temporaryTable)
    insertResultUnder env fault table r.collect
    failIf (fault = some .dropTemporary)
  else pure ()
  modifyCatalog (·.addTable ⟨table, columns, path, partitionColumns, none, none, [], []⟩)
  catalogSave
  failIf (fault = some .statistics)
  refreshTableFileStats env table
  return .message s!"Table '{table}' created."

/-- `handle_refresh_materialized_view`, a step of which may fail, and one of the drop. -/
def handleRefreshMaterializedViewUnder (name : String) : M QueryResult := do
  match (← get).catalog.views.lookup name with
  | none => throw s!"View '{name}' does not exist"
  | some view =>
    if !view.materialized then throw s!"View '{name}' is not materialized"
    else
      match view.backingTable with
      | none => throw "Materialized view is missing backing table metadata"
      | some backing =>
        walAppendPendingUnder env (fault = some .logAppend) s!"REFRESH MATERIALIZED VIEW \"{name}\""
        let _ ← attempt (handleDropTableUnder env dropFault backing true)
        failIf (fault = some .parse)
        let _ ← handleCtasUnder env fault backing s!"SELECT * FROM ({view.sql}) AS t" []
        failIf (fault = some .createView)
        registerView env name s!"SELECT * FROM \"{backing}\""
        return .message s!"Materialized view '{name}' refreshed."

end

/-- Without a fault it is the refresh of the engine. -/
theorem handleRefreshMaterializedViewUnder_none (env : Env) (name : String) :
    handleRefreshMaterializedViewUnder env none none name = handleRefreshMaterializedView env name := rfl

/-! ## What the steps leave -/

section
variable (env : Env) (dropFault : Option DropFault) (fault : Option RefreshFault)

/-- Statements are written to the log. -/
def Db.logs (s : Db) : Bool := !(s.replayingWal || !env.walEnabled)

/-- The table that the drop takes out of the catalog. -/
def droppedTable (s : Db) (backing : String) : Option TableMeta :=
  if dropFault = some .logAppend ∧ s.logs env = true then none else s.catalog.tables.lookup backing

/-- The files that are left when the storage of a table is deleted. -/
def storeWithout (m : TableMeta) (store : Store) : Store :=
  match dropFault with
  | some (.deletion gone) => store.filter fun e => decide (¬ (storageDir env m <+: e.1.dir ∧ e.1 ∈ gone))
  | _ => store.removeDir (storageDir env m)

/-- The files and tables that the drop leaves. -/
def afterDrop (s : Db) (backing : String) : Db :=
  match droppedTable env dropFault s backing with
  | none => s
  | some m =>
    if dropFault = some .deregister then s
    else { s with
      ctx := s.ctx.erase backing
      store := if s.activeTxn.isSome then s.store else storeWithout env dropFault m s.store }

/-- The result of the query and the columns, when the table gets as far as being registered. -/
def creationOf (query : String) (s : Db) : Option (Relation × Schema) :=
  if fault = some .parse ∨ (fault = some .createDir && env.isLocalDisk) = true ∨ fault = some .register then none
  else
    match env.eval (.user query) s.relation with
    | .error _ => none
    | .ok r =>
      match columnsToSchema env (resultColumns env r) with
      | .error _ => none
      | .ok schema => some (r, schema)

/-- The rows that the table gets, and whether the INSERT comes to its end. -/
def storedResult (schema : Schema) (r : Relation) : List Row × Bool :=
  if r.rows = [] then ([], true)
  else
    match fault with
    | some .temporaryTable => ([], false)
    | some (.write written) => (readBack schema.names written.flatten, false)
    | _ =>
      match insertedRows env schema none r.collect with
      | .error _ => ([], false)
      | .ok rows => (rows, fault ≠ some .dropTemporary)

end

/-- The same files and tables, and the same views in the catalog. -/
structure SameReading (s t : Db) : Prop where
  store : t.store = s.store
  ctx : t.ctx = s.ctx
  views : t.catalog.views = s.catalog.views

section
variable {env : Env} {dropFault : Option DropFault} {fault : Option RefreshFault} {s t : Db} {backing : String}

theorem SameReading.trans {u : Db} (h : SameReading s t) (h' : SameReading t u) : SameReading s u :=
  ⟨h'.store.trans h.store, h'.ctx.trans h.ctx, h'.views.trans h.views⟩

theorem ends_walAppendPendingUnder {fails : Bool} {sql : String} {Q : Except String Unit → Db → Prop}
    (hfail : fails = true ∧ s.logs env = true → ∀ e, Q (.error e) s)
    (hok : ¬ (fails = true ∧ s.logs env = true) → ∀ log, Q (.ok ()) { s with walLog := log }) :
    Ends (walAppendPendingUnder env fails sql) s Q := by
  unfold walAppendPendingUnder failIf
  unfold Db.logs at hfail hok
  rw [Ends, wp_bind, wp_get]
  dsimp only
  by_cases hoff : (s.replayingWal || !env.walEnabled) = true
  · rw [if_pos hoff]
    exact wp_pure.mpr (hok (by simp [hoff]) s.walLog)
  · rw [if_neg hoff, wp_bind]
    rw [Bool.not_eq_true] at hoff
    by_cases hf : fails = true
    · rw [if_pos hf]
      exact wp_throw.mpr (hfail ⟨hf, by simp [hoff]⟩ _)
    · rw [if_neg hf]
      exact wp_pure.mpr (wp_emit.mpr fun _ => hok (fun h => hf h.1) _)

theorem ends_modifyCatalog {f : CatalogData → CatalogData} {Q : Except String Unit → Db → Prop}
    (h : Q (.ok ()) { s with catalog := f s.catalog }) : Ends (modifyCatalog f) s Q := by
  unfold modifyCatalog
  rw [Ends, wp_bind, wp_get]
  exact wp_emit.mpr fun _ => h

theorem ends_markDirty {Q : Except String Unit → Db → Prop} (h : ∀ dirty, Q (.ok ()) { s with catalogDirty := dirty }) :
    Ends catalogSave s Q := by
  unfold catalogSave
  rw [Ends, wp_bind, wp_get]
  dsimp only
  split
  · exact wp_pure.mpr (h s.catalogDirty)
  · exact wp_emit.mpr fun _ => h true

theorem ends_deleteTableStorageUnder {m : TableMeta} :
    Ends (deleteTableStorageUnder env dropFault m) s fun _ t =>
      t.store = storeWithout env dropFault m s.store ∧ t.ctx = s.ctx ∧ t.catalog = s.catalog := by
  have hwhole : ∀ d : Option DropFault, (∀ gone, d ≠ some (.deletion gone)) →
      Ends (deleteTableStorage env m) s fun _ t =>
        t.store = storeWithout env d m s.store ∧ t.ctx = s.ctx ∧ t.catalog = s.catalog := by
    intro d hd
    have hstore : storeWithout env d m s.store = s.store.removeDir (storageDir env m) := by
      unfold storeWithout
      split
      · exact absurd rfl (hd _)
      · rfl
    refine wp_of_yields ?_ (yields_deleteTableStorage ⟨hstore.symm, rfl, rfl⟩)
    unfold deleteTableStorage
    split
    · exact ⟨(), rfl⟩
    · exact succeeds_bind.mpr ⟨_, rfl, succeeds_each_emit⟩
  unfold deleteTableStorageUnder
  split
  · rename_i gone
    rw [Ends, wp_bind, wp_get]
    dsimp only
    rw [wp_bind]
    refine wp_of_yields succeeds_each_emit (yields_deleteFiles id _ _ (wp_throw.mpr ⟨?_, rfl, rfl⟩))
    unfold storeWithout
    refine List.filter_congr fun e he => decide_eq_decide.mpr (not_congr ?_)
    simp only [List.map_id, List.mem_filter, List.mem_map, Store.mem_list, decide_eq_true_eq]
    constructor
    · rintro ⟨⟨e', ⟨-, hdir⟩, heq⟩, hgone⟩
      exact ⟨heq ▸ hdir, hgone⟩
    · rintro ⟨hdir, hgone⟩
      exact ⟨⟨e, ⟨he, hdir⟩, rfl⟩, hgone⟩
  · rename_i hother
    exact hwhole _ hother

theorem ends_handleDropTableUnder (log : List WalEntry) :
    Ends (handleDropTableUnder env dropFault backing true) { s with walLog := log } fun _ t =>
      SameReading (afterDrop env dropFault s backing) t := by
  unfold handleDropTableUnder afterDrop droppedTable
  rw [Ends, wp_bind, wp_get]
  dsimp only
  cases hm : s.catalog.tables.lookup backing with
  | none =>
    dsimp only
    rw [if_pos rfl, ite_self]
    exact wp_pure.mpr ⟨rfl, rfl, rfl⟩
  | some m =>
    dsimp only
    rw [wp_bind]
    refine ends_walAppendPendingUnder (fun hfail e => ?_) fun hok log' => ?_
    · rw [if_pos ⟨by simpa using hfail.1, hfail.2⟩]
      exact ⟨rfl, rfl, rfl⟩
    · rw [if_neg fun h => hok ⟨by simpa using h.1, h.2⟩]
      dsimp only
      have hrest : ∀ u : Db, u.store = s.store → u.ctx = s.ctx → u.catalog.views = s.catalog.views →
          u.activeTxn = s.activeTxn → Ends (do
            failIf (dropFault = some .deregister)
            emit (.deregisterTable backing)
            invalidateUniquenessCacheForTable backing
            if (← get).activeTxn.isSome then emit (.deferDelete m) else deleteTableStorageUnder env dropFault m
            return .message s!"Table '{backing}' dropped." : M QueryResult) u fun _ t =>
              SameReading (if dropFault = some .deregister then s
                else { s with
                  ctx := s.ctx.erase backing
                  store := if s.activeTxn.isSome then s.store else storeWithout env dropFault m s.store }) t := by
        intro u hstore hctx hviews htxn
        rw [Ends, wp_bind]
        unfold failIf
        by_cases hd : dropFault = some .deregister
        · rw [if_pos (by simpa using hd), if_pos hd]
          exact wp_throw.mpr ⟨hstore, hctx, hviews⟩
        · rw [if_neg (by simpa using hd), if_neg hd, wp_pure]
          unfold invalidateUniquenessCacheForTable
          simp only [wp_bind, wp_emit, wp_get]
          intro _ _
          have hin : (apply (apply u (.deregisterTable backing)) (.cacheInvalidate backing)).activeTxn = s.activeTxn := htxn
          rw [hin]
          by_cases htx : s.activeTxn.isSome = true
          · rw [if_pos htx, if_pos htx, wp_bind, wp_emit]
            intro _
            exact wp_pure.mpr ⟨hstore, congrArg (AList.erase backing) hctx, hviews⟩
          · rw [if_neg htx, if_neg htx, wp_bind]
            refine wp_mono (fun r t ht => ?_) ends_deleteTableStorageUnder
            obtain ⟨htstore, htctx, htcat⟩ := ht
            have hdone : SameReading { s with
                ctx := s.ctx.erase backing
                store := storeWithout env dropFault m s.store } t := by
              refine ⟨htstore.trans (congrArg _ hstore), htctx.trans (congrArg (AList.erase backing) hctx), ?_⟩
              rw [htcat]
              exact hviews
            cases r with
            | error e => exact hdone
            | ok _ => exact wp_pure.mpr hdone
      rw [wp_bind]
      refine ends_modifyCatalog ?_
      dsimp only
      rw [wp_bind]
      exact ends_markDirty fun dirty => hrest _ rfl rfl rfl rfl

/-! ## The table that is created -/

/-- What the new table reads as: the rows in the files that are there, and those that are stored. -/
def createdRows (env : Env) (fault : Option RefreshFault) (d : Db) (backing : String) (r : Relation) (schema : Schema) : List Row :=
  d.store.read (objPath (tableUrl env backing)) schema.names ++ (storedResult env fault schema r).1

/-- The new table is registered, with its rows. -/
def Created (env : Env) (fault : Option RefreshFault) (d : Db) (backing : String) (r : Relation) (schema : Schema)
    (u : Db) : Prop :=
  Shows u backing ⟨objPath (tableUrl env backing), schema⟩ (createdRows env fault d backing r schema) ∧
    u.catalog.views = d.catalog.views

theorem ends_refreshTableFileStats {table : String} {Q : Except String Unit → Db → Prop}
    (h : ∀ catalog dirty, catalog.views = s.catalog.views → Q (.ok ()) { s with catalog := catalog, catalogDirty := dirty }) :
    Ends (refreshTableFileStats env table) s Q := by
  unfold refreshTableFileStats
  rw [Ends, wp_bind, wp_get]
  dsimp only
  split
  · exact wp_pure.mpr (h s.catalog s.catalogDirty rfl)
  · rw [wp_bind]
    refine ends_modifyCatalog ?_
    exact ends_markDirty fun dirty => h _ dirty rfl

theorem storedResult_inserted {r : Relation} (schema : Schema) (hne : r.rows ≠ []) (htmp : fault ≠ some .temporaryTable)
    (hw : ¬ ∃ written, fault = some (.write written)) :
    storedResult env fault schema r =
      match insertedRows env schema none r.collect with
      | .error _ => ([], false)
      | .ok rows => (rows, decide (fault ≠ some .dropTemporary)) := by
  unfold storedResult
  rw [if_neg hne]
  split
  · exact absurd rfl htmp
  · exact absurd ⟨_, rfl⟩ hw
  · rfl

theorem ends_storeResult {α : Type} {d u : Db} {r : Relation} {schema : Schema} {rows₀ : List Row} (hne : r.rows ≠ [])
    (h : Shows u backing ⟨objPath (tableUrl env backing), schema⟩ rows₀) (hviews : u.catalog.views = d.catalog.views)
    {k : M α} {Q : Except String α → Db → Prop}
    (herror : ∀ e v, Shows v backing ⟨objPath (tableUrl env backing), schema⟩ (rows₀ ++ (storedResult env fault schema r).1) →
      v.catalog.views = d.catalog.views → (storedResult env fault schema r).2 = false → Q (.error e) v)
    (hok : ∀ v, Shows v backing ⟨objPath (tableUrl env backing), schema⟩ (rows₀ ++ (storedResult env fault schema r).1) →
      v.catalog.views = d.catalog.views → (storedResult env fault schema r).2 = true → Ends k v Q) :
    Ends (do
      check (memTable r.schema r.collect)
      failIf (fault = some .temporaryTable)
      insertResultUnder env fault backing r.collect
      failIf (fault = some .dropTemporary)
      k) u Q := by
  unfold failIf
  rw [Ends, wp_bind, wp_check, memTable_self (@collect_schema r)]
  dsimp only
  rw [wp_bind]
  by_cases htmp : fault = some .temporaryTable
  · subst htmp
    have hstored : storedResult env (some .temporaryTable) schema r = ([], false) := if_neg hne
    rw [hstored, List.append_nil] at herror
    exact wp_throw.mpr (herror _ u h hviews rfl)
  · rw [if_neg (by simpa using htmp), wp_pure]
    dsimp only
    rw [wp_bind]
    by_cases hw : ∃ written, fault = some (.write written)
    · obtain ⟨written, rfl⟩ := hw
      have hstored : storedResult env (some (.write written)) schema r = (readBack schema.names written.flatten, false) :=
        if_neg hne
      rw [hstored] at herror
      refine wp_mono ?_ (ends_insertPartly h written)
      rintro x v ⟨⟨e, rfl⟩, hv, hcat⟩
      exact herror _ v hv (by rw [hcat, hviews]) rfl
    · have hinsert : insertResultUnder env fault backing r.collect = insertInto env backing none r.collect := by
        unfold insertResultUnder
        split
        · exact absurd ⟨_, rfl⟩ hw
        · rfl
      have hstored := @storedResult_inserted env fault r schema hne htmp hw
      have hkept : Ends (insertInto env backing none r.collect) u fun _ v => v.catalog = u.catalog :=
        fun _ => catalog_of_emits (uncataloged_insertInto _ _ _) u
      have hshown : Ends (insertInto env backing none r.collect) u fun x v =>
          Shows v backing ⟨objPath (tableUrl env backing), schema⟩ (rows₀ ++ (storedResult env fault schema r).1) ∧
            (storedResult env fault schema r).2 = (x.toBool && decide (fault ≠ some .dropTemporary)) := by
        refine ends_insertInto h (fun rows v hrows hv => ?_) fun e hno => ?_
        · rw [hstored, hrows]
          exact ⟨hv, rfl⟩
        · rw [hstored]
          cases hins : insertedRows env schema none r.collect with
          | error e => exact ⟨by rwa [List.append_nil], rfl⟩
          | ok rows => exact absurd ⟨rows, hins⟩ hno
      rw [hinsert]
      refine wp_mono (fun x v hv => ?_) (wp_and hshown hkept)
      obtain ⟨⟨hv, hres⟩, hcat⟩ := hv
      have hviews' : v.catalog.views = d.catalog.views := by rw [hcat, hviews]
      cases x with
      | error e => exact herror e v hv hviews' hres
      | ok _ =>
        dsimp only at hres ⊢
        rw [wp_bind]
        by_cases hdrop : fault = some .dropTemporary
        · rw [if_pos (by simpa using hdrop)]
          exact wp_throw.mpr (herror _ v hv hviews' (by rw [hres]; simpa [Except.toBool] using hdrop))
        · rw [if_neg (by simpa using hdrop)]
          exact wp_pure.mpr (hok v hv hviews' (by rw [hres]; simpa [Except.toBool] using hdrop))

/-- Up to the registration nothing changes, and behind it the new table has its rows. -/
theorem ends_handleCtasUnder {query : String} {d t : Db} (hparse : fault ≠ some .parse) (hd : SameReading d t)
    {Q : Except String QueryResult → Db → Prop}
    (hearly : creationOf env fault query d = none → ∀ e u, SameReading d u → Q (.error e) u)
    (hlate : ∀ r schema, creationOf env fault query d = some (r, schema) → ∀ e u, Created env fault d backing r schema u →
      ¬ ((storedResult env fault schema r).2 = true ∧ fault ≠ some .statistics) → Q (.error e) u)
    (hdone : ∀ r schema, creationOf env fault query d = some (r, schema) → ∀ m u, Created env fault d backing r schema u →
      (storedResult env fault schema r).2 = true ∧ fault ≠ some .statistics → Q (.ok m) u) :
    Ends (handleCtasUnder env fault backing query []) t Q := by
  have hrelation : t.relation = d.relation := relation_of_tables hd.ctx hd.store
  -- the rest, once the rows are stored
  have hfinish : ∀ r schema, creationOf env fault query d = some (r, schema) → ∀ columns path v,
      Created env fault d backing r schema v → (storedResult env fault schema r).2 = true → Ends (do
        modifyCatalog (·.addTable ⟨backing, columns, path, [], none, none, [], []⟩)
        catalogSave
        failIf (fault = some .statistics)
        refreshTableFileStats env backing
        return .message s!"Table '{backing}' created." : M QueryResult) v Q := by
    intro r schema hcreation columns path v hv hstored
    have hsame : ∀ catalog dirty, catalog.views = v.catalog.views →
        Created env fault d backing r schema { v with catalog := catalog, catalogDirty := dirty } :=
      fun catalog dirty hviews => ⟨hv.1.of_eq rfl rfl, hviews.trans hv.2⟩
    rw [Ends, wp_bind]
    refine ends_modifyCatalog ?_
    dsimp only
    rw [wp_bind]
    refine ends_markDirty fun dirty => ?_
    dsimp only
    unfold failIf
    rw [wp_bind]
    by_cases hstat : fault = some .statistics
    · rw [if_pos (by simpa using hstat)]
      exact wp_throw.mpr (hlate r schema hcreation _ _ (hsame _ dirty rfl) fun h => h.2 hstat)
    · rw [if_neg (by simpa using hstat), wp_pure]
      dsimp only
      rw [wp_bind]
      refine ends_refreshTableFileStats fun catalog dirty' hviews => wp_pure.mpr ?_
      exact hdone r schema hcreation _ _ (hsame catalog dirty' hviews) ⟨hstored, hstat⟩
  unfold creationOf at hearly hlate hfinish
  unfold handleCtasUnder runQuery failIf
  rw [Ends, wp_bind, wp_bind, wp_get]
  dsimp only
  rw [wp_check, hrelation]
  cases heval : env.eval (.user query) d.relation with
  | error e =>
    refine hearly ?_ e t hd
    rw [heval, ite_self]
  | ok r =>
    rw [heval] at hearly hlate hfinish
    dsimp only at hearly hlate hfinish ⊢
    rw [wp_bind]
    by_cases hdir : (fault = some .createDir && env.isLocalDisk) = true
    · rw [if_pos hdir]
      exact wp_throw.mpr (hearly (if_pos (Or.inr (Or.inl hdir))) _ t hd)
    · rw [if_neg hdir, wp_pure]
      dsimp only
      rw [wp_bind, wp_check]
      have hcolumns : r.schema.map (fun f => (⟨f.name, env.arrowTypeToSqlString f.dataType, f.nullable⟩ : ColumnDef)) =
          resultColumns env r := rfl
      rw [hcolumns]
      cases hschema : columnsToSchema env (resultColumns env r) with
      | error e =>
        refine hearly ?_ e t hd
        rw [hschema, ite_self]
      | ok schema =>
        rw [hschema] at hearly hlate hfinish
        dsimp only at hearly hlate hfinish ⊢
        rw [wp_bind]
        by_cases hreg : fault = some .register
        · rw [if_pos (by simpa using hreg)]
          exact wp_throw.mpr (hearly (if_pos (Or.inr (Or.inr hreg))) _ t hd)
        · have hgo : ¬ (fault = some .parse ∨ (fault = some .createDir && env.isLocalDisk) = true ∨ fault = some .register) := by
            rintro (h | h | h)
            · exact hparse h
            · exact hdir h
            · exact hreg h
          rw [if_neg hgo] at hlate hfinish
          rw [if_neg (by simpa using hreg), wp_pure]
          dsimp only
          unfold registerListingTable
          rw [wp_bind, wp_emit]
          intro _
          have hshown : Shows (apply t (.registerTable backing ⟨objPath (tableUrl env backing), schema⟩)) backing
              ⟨objPath (tableUrl env backing), schema⟩ (d.store.read (objPath (tableUrl env backing)) schema.names) := by
            have hlook : (apply t (.registerTable backing ⟨objPath (tableUrl env backing), schema⟩)).ctx.lookup backing =
                some ⟨objPath (tableUrl env backing), schema⟩ := AList.lookup_insert _
            refine ⟨hlook, ?_⟩
            rw [rows_of_lookup hlook]
            exact congrArg (fun store : Store => store.read _ _) hd.store
          dsimp only
          by_cases hdata : r.rows = []
          · have hnodata : hasData r.collect = false := by rw [hasData_iff, allRows_collect, hdata]
            have hstored : storedResult env fault schema r = ([], true) := if_pos hdata
            rw [hnodata, if_neg Bool.false_ne_true]
            refine hfinish r schema rfl _ _ _ ⟨?_, hd.views⟩ (by rw [hstored])
            unfold createdRows
            rw [hstored, List.append_nil]
            exact hshown
          · have hhas : hasData r.collect = true := by
              rw [← Bool.not_eq_false, hasData_iff, allRows_collect]
              exact hdata
            rw [hhas, if_pos rfl]
            refine ends_storeResult hdata hshown hd.views (fun e v hv hviews hno => ?_) fun v hv hviews hyes => ?_
            · refine hlate r schema rfl e v ⟨hv, hviews⟩ ?_
              rw [hno]
              exact fun h => Bool.false_ne_true h.1
            · exact hfinish r schema rfl _ _ v ⟨hv, hviews⟩ hyes

theorem afterDrop_found (h : ((afterDrop env dropFault s backing).ctx.lookup backing).isSome = true) :
    afterDrop env dropFault s backing = s := by
  unfold afterDrop at h ⊢
  split at h
  · rfl
  · split at h
    · rename_i hd
      exact if_pos hd
    · rw [show ({ s with ctx := s.ctx.erase backing, store := _ } : Db).ctx.lookup backing = none from AList.lookup_erase _ _] at h
      cases h

end

/-! ## All or nothing -/

/-- The view is in the catalog. Behind a REFRESH that succeeds it has the rows of its query, and behind one that fails
those it had. -/
def RefreshedOrKept (env : Env) (s : Db) (name : String) (view : ViewDef) (backing : String)
    (r : Except String QueryResult) (t : Db) : Prop :=
  t.catalog.views.lookup name = some view ∧
    match r with
    | .ok _ => (t.ctx.lookup backing).isSome = true ∧
        ∃ current, env.eval (.user view.sql) s.relation = .ok current ∧ (t.rows backing).Perm current.rows
    | .error _ => (s.ctx.lookup backing).isSome = true →
        (t.ctx.lookup backing).isSome = true ∧ (t.rows backing).Perm (s.rows backing)

/-- A step that fails comes before the drop, or the drop left the table alone, or the files that it left and those that
were written show the old rows. Where no step fails they show the rows of the query. -/
def RefreshesSafely (env : Env) (dropFault : Option DropFault) (fault : Option RefreshFault) (s : Db) (view : ViewDef)
    (backing : String) : Prop :=
  (fault = some .logAppend ∧ s.logs env = true) ∨
  match creationOf env fault s!"SELECT * FROM ({view.sql}) AS t" (afterDrop env dropFault s backing) with
  | none => (s.ctx.lookup backing).isSome = true → ((afterDrop env dropFault s backing).ctx.lookup backing).isSome = true
  | some (r, schema) =>
    if (storedResult env fault schema r).2 = true ∧ fault ≠ some .statistics ∧ fault ≠ some .createView then
      ∃ current, env.eval (.user view.sql) s.relation = .ok current ∧
        (createdRows env fault (afterDrop env dropFault s backing) backing r schema).Perm current.rows
    else (s.ctx.lookup backing).isSome = true →
      (createdRows env fault (afterDrop env dropFault s backing) backing r schema).Perm (s.rows backing)

theorem backingTable_ne (name : String) : backingTable name ≠ name := by
  intro h
  have := congrArg (fun t : String => t.toList.length) h
  simp only [backingTable, String.toList_append, List.length_append] at this
  change 5 + name.toList.length = name.toList.length at this
  omega

section
variable {env : Env} {s : Db} {name : String} {view : ViewDef}

theorem length_storedResult {fault : Option RefreshFault} {schema : Schema} {r : Relation} :
    (storedResult env fault schema r).2 = true → (storedResult env fault schema r).1.length = r.rows.length := by
  unfold storedResult
  split
  · rename_i hnil
    intro _
    rw [hnil]
  · split
    · nofun
    · nofun
    · split
      · nofun
      · rename_i hins
        intro _
        have hcast := congrArg List.length (mapM_ok_iff.mp (insertedRows_cast hins).1)
        rw [allRows_collect] at hcast
        simpa using hcast.symm

/-- In a transaction, where the files stay until the COMMIT, a REFRESH that succeeds shows the rows of the query only
where the directory held none. -/
theorem createdRows_in_transaction {dropFault : Option DropFault} {fault : Option RefreshFault} {backing : String}
    (htxn : s.activeTxn.isSome = true) {r : Relation} {schema : Schema} {current : List Row}
    (hdone : (storedResult env fault schema r).2 = true) (hcurrent : r.rows.Perm current) :
    (createdRows env fault (afterDrop env dropFault s backing) backing r schema).Perm current ↔
      s.store.read (objPath (tableUrl env backing)) schema.names = [] ∧ (storedResult env fault schema r).1.Perm current := by
  have hstore : (afterDrop env dropFault s backing).store = s.store := by
    unfold afterDrop
    split
    · rfl
    · split <;> rfl
  have hlen : (storedResult env fault schema r).1.length = current.length := by
    rw [← hcurrent.length_eq]
    exact length_storedResult hdone
  unfold createdRows
  rw [hstore]
  constructor
  · intro hp
    have hall := hp.length_eq
    rw [List.length_append, hlen] at hall
    have hnil := List.length_eq_zero_iff.mp (Nat.add_eq_right.mp hall)
    rw [hnil] at hp
    exact ⟨hnil, hp⟩
  · rintro ⟨hnil, hp⟩
    rw [hnil]
    exact hp

end

/-! ## A view of flags -/

/-- The view shows the flags of `t`. -/
def viewEnv : Env := { flagEnv with
  eval := fun q tables =>
    match q with
    | .user text =>
      if text = "SELECT a FROM t" ∨ text = "SELECT * FROM (SELECT a FROM t) AS t" then
        (tables "t").elim (.error "table 't' not found") .ok
      else .ok ⟨[], []⟩
    | _ => .ok ⟨[], []⟩ }

def flagView : ViewDef := ⟨"v", "SELECT a FROM t", true, some "__mv_v"⟩

/-- The flags and the rows of the view. -/
def viewDb (flags rows : List Row) : Db := { Db.new with
  store := [(⟨["t"], 0⟩, ⟨["a"], flags, 0⟩), (⟨["__mv_v"], 1⟩, ⟨["a"], rows, 0⟩)]
  nextFile := 2
  catalog := ((CatalogData.empty.addTable flagMeta).addTable { flagMeta with name := "__mv_v", path := "__mv_v" }).addView flagView
  ctx := (AList.insert "t" ⟨["t"], flagSchema⟩ ∅).insert "__mv_v" ⟨["__mv_v"], flagSchema⟩ }

end PotatoDB
