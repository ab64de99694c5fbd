import PotatoDB.CatalogFrames
import PotatoDB.FlushSound
import PotatoDB.Handlers
import PotatoDB.RollbackSound

/-!
# Where tables lie

The files of a table are listed and deleted by its name and read under the path in the catalog. The
two agree, and tables lie apart, as long as a table is never renamed into another directory and a
new one has a plain name and is put where no other lies.
-/

namespace PotatoDB

open Oplog Oplog.Prog
open Machine (apply)

/-- The directory of a name is neither that of another table, nor above or below it. -/
def CatalogData.Apart (c : CatalogData) (name : String) : Prop :=
  ∀ t ∈ c.tables.keys, t ≠ name → ¬ objPath t <+: objPath name ∧ ¬ objPath name <+: objPath t

instance decidableApartName (c : CatalogData) (name : String) : Decidable (c.Apart name) := by
  unfold CatalogData.Apart
  infer_instance

/-- A path stands for the directory of a name, percent-encoded or not. -/
def RightPath (table path : String) : Prop := objPath path = objPath table ∧ fsPath path = objPath table

/-- A name that stays the same under percent-encoding. -/
def PlainName (name : String) : Prop := fsPath name = objPath name

instance decidablePlainName (name : String) : Decidable (PlainName name) := inferInstanceAs (Decidable (_ = _))

/-- The files that are listed for a table by its name are the ones under its path, and no two tables share a directory
or lie in each other's. -/
structure CatalogData.Placed (c : CatalogData) : Prop where
  located : ∀ t m, c.tables.lookup t = some m → m.name = t ∧ RightPath t m.path
  apart : ∀ t ∈ c.tables, c.Apart t

/-- The tables of the catalog and of every snapshot are in their places, and every registered table reads the files of
its name. Of `names`, none is in the way of a table of the catalog. -/
structure Placed (names : List String) (s : Db) : Prop where
  catalog : s.catalog.Placed
  snapshots : ∀ txn, s.activeTxn = some txn → txn.catalogSnapshot.Placed ∧ ∀ p ∈ txn.savepoints, p.catalogSnapshot.Placed
  registered : ∀ t p, s.ctx.lookup t = some p → p.dir = objPath t
  names : ∀ n ∈ names, s.catalog.Apart n

/-- No rows lie in the directory, and no table reads it. -/
structure Db.Vacant (s : Db) (dir : Dir) : Prop where
  files : ∀ e ∈ s.store, dir <+: e.1.dir → e.2.rows = []
  tables : ∀ p ∈ s.ctx.values, ¬ dir <+: p.dir

instance decidableVacant (s : Db) (dir : Dir) : Decidable (s.Vacant dir) :=
  decidable_of_iff ((∀ e ∈ s.store, dir <+: e.1.dir → e.2.rows = []) ∧ ∀ p ∈ s.ctx.values, ¬ dir <+: p.dir)
    ⟨fun h => ⟨h.1, h.2⟩, fun h => ⟨h.files, h.tables⟩⟩

/-- A new table has a plain name and lies apart from the others, and one without a query in a directory that is vacant; a
renamed table keeps its directory. -/
def Statement.KeepsPlaces (s : Db) : Statement → Prop
  | .createTable create => PlainName create.name ∧ s.catalog.Apart create.name ∧
      (create.query = none → create.name ∉ s.catalog.tables → s.Vacant (objPath create.name))
  | .createView create => create.materialized = true →
      PlainName (backingTable create.name) ∧ s.catalog.Apart (backingTable create.name)
  | .refreshMaterializedView name => ∀ view backing, s.catalog.views.lookup name = some view →
      view.backingTable = some backing → PlainName backing ∧ s.catalog.Apart backing
  | .alterTable alter => ∀ oldName newName, alter.rename = some (oldName, newName) → objPath newName = objPath oldName
  | _ => True

def EntersInPlace (s : Db) : Op → Prop
  | .enter statement => statement.KeepsPlaces s
  | _ => True

section
variable {env : Env} {s : Db} {c c' : CatalogData}

/-! ## Catalogs -/

theorem mem_keys_iff {t : String} : t ∈ c.tables.keys ↔ t ∈ c.tables := AList.mem_keys.symm

theorem CatalogData.Apart.mono {name : String} (h : c.Apart name) (hsub : ∀ t ∈ c'.tables, t ∈ c.tables) : c'.Apart name :=
  fun t ht hne => h t (mem_keys_iff.mpr (hsub t (mem_keys_iff.mp ht))) hne

theorem same_tables (h : ∀ t, (c'.tables.lookup t).map (fun m => (m.name, m.path)) =
    (c.tables.lookup t).map fun m => (m.name, m.path)) (t : String) : t ∈ c'.tables ↔ t ∈ c.tables := by
  rw [← AList.lookup_isSome, ← AList.lookup_isSome, ← Option.isSome_map (f := fun m : TableMeta => (m.name, m.path)), h,
    Option.isSome_map]

theorem CatalogData.Placed.keep (hc : c.Placed) (h : ∀ t, (c'.tables.lookup t).map (fun m => (m.name, m.path)) =
    (c.tables.lookup t).map fun m => (m.name, m.path)) : c'.Placed where
  located := by
    intro t m' hm'
    have ht := h t
    rw [hm', Option.map_some] at ht
    obtain ⟨m, hm, heq⟩ := Option.map_eq_some_iff.mp ht.symm
    obtain ⟨hname, hpath⟩ := Prod.mk.inj heq
    rw [← hname, ← hpath]
    exact hc.located t m hm
  apart := by
    intro t ht
    exact (hc.apart t ((same_tables h t).mp ht)).mono fun u hu => (same_tables h u).mp hu

theorem CatalogData.Placed.remove (hc : c.Placed) (hsub : ∀ t m, c'.tables.lookup t = some m → c.tables.lookup t = some m) :
    c'.Placed where
  located t m hm := hc.located t m (hsub t m hm)
  apart := by
    have hin : ∀ t ∈ c'.tables, t ∈ c.tables := by
      intro t ht
      obtain ⟨m, hm⟩ := Map.mem_iff_lookup.mp ht
      exact Map.mem_iff_lookup.mpr ⟨m, hsub t m hm⟩
    intro t ht
    exact (hc.apart t (hin t ht)).mono hin

/-- A table is put under a name that is apart. -/
theorem CatalogData.Placed.put (hc : c.Placed) {name : String} {m : TableMeta} (hname : m.name = name)
    (hpath : RightPath name m.path) (hapart : c.Apart name)
    (h : ∀ t, c'.tables.lookup t = if t = name then some m else c.tables.lookup t) : c'.Placed ∧ c'.Apart name := by
  have hin : ∀ t ∈ c'.tables, t ≠ name → t ∈ c.tables := by
    intro t ht hne
    obtain ⟨m', hm'⟩ := Map.mem_iff_lookup.mp ht
    rw [h, if_neg hne] at hm'
    exact Map.mem_iff_lookup.mpr ⟨m', hm'⟩
  have hnew : c'.Apart name := fun t ht hne => hapart t (mem_keys_iff.mpr (hin t (mem_keys_iff.mp ht) hne)) hne
  refine ⟨⟨fun t m' hm' => ?_, fun t ht => ?_⟩, hnew⟩
  · rw [h] at hm'
    by_cases ht : t = name
    · rw [if_pos ht] at hm'
      obtain rfl := Option.some.inj hm'
      rw [ht]
      exact ⟨hname, hpath⟩
    · rw [if_neg ht] at hm'
      exact hc.located t m' hm'
  · by_cases htn : t = name
    · rw [htn]
      exact hnew
    · intro u hu hne
      by_cases hun : u = name
      · rw [hun]
        exact (hapart t (mem_keys_iff.mpr (hin t ht htn)) htn).symm
      · exact hc.apart t (hin t ht htn) u (mem_keys_iff.mpr (hin u (mem_keys_iff.mp hu) hun)) hne

/-! ## Operations -/

variable {names : List String}

theorem placed_free (o : Op) (ho : o.Free) (h : Placed names s) : Placed names (apply s o) := by
  cases o with
  | putFile _ _ | setCatalog _ | registerTable _ _ | setBuffer _ _ | removeBuffer _ | arrowAppend _ _ | arrowCheckpoint _
  | arrowCheckpointAll | setReplayingWal _ | restoreFiles _ _ => exact ho.elim
  | deregisterTable name =>
    refine ⟨h.catalog, h.snapshots, fun t p hp => ?_, h.names⟩
    by_cases ht : t = name
    · subst ht
      rw [show (apply s (.deregisterTable t)).ctx.lookup t = none from AList.lookup_erase t s.ctx] at hp
      cases hp
    · exact h.registered t p ((AList.lookup_erase_ne ht).symm.trans hp)
  | beginTxn walTxnId =>
    refine ⟨h.catalog, fun txn htxn => ?_, h.registered, h.names⟩
    obtain rfl := Option.some.inj htxn
    exact ⟨h.catalog, nofun⟩
  | endTxn => exact ⟨h.catalog, nofun, h.registered, h.names⟩
  | backupTable table =>
    refine ⟨h.catalog, fun txn htxn => ?_, h.registered, h.names⟩
    obtain ⟨txn', htxn', rfl⟩ := Option.map_eq_some_iff.mp htxn
    have hold := h.snapshots txn' htxn'
    unfold Transaction.backup
    split <;> exact hold
  | deferDelete m =>
    refine ⟨h.catalog, fun txn htxn => ?_, h.registered, h.names⟩
    obtain ⟨txn', htxn', rfl⟩ := Option.map_eq_some_iff.mp htxn
    exact h.snapshots txn' htxn'
  | pushSavepoint name =>
    refine ⟨h.catalog, fun txn htxn => ?_, h.registered, h.names⟩
    obtain ⟨txn', htxn', rfl⟩ := Option.map_eq_some_iff.mp htxn
    refine ⟨(h.snapshots txn' htxn').1, fun p hp => ?_⟩
    obtain hp | hp := List.mem_append.mp hp
    · exact (h.snapshots txn' htxn').2 p hp
    · obtain rfl := List.mem_singleton.mp hp
      exact h.catalog
  | truncateSavepoints n =>
    refine ⟨h.catalog, fun txn htxn => ?_, h.registered, h.names⟩
    obtain ⟨txn', htxn', rfl⟩ := Option.map_eq_some_iff.mp htxn
    exact ⟨(h.snapshots txn' htxn').1, fun p hp => (h.snapshots txn' htxn').2 p (List.mem_of_mem_take hp)⟩
  | resetTxn =>
    refine ⟨h.catalog, fun txn htxn => ?_, h.registered, h.names⟩
    obtain ⟨txn', htxn', rfl⟩ := Option.map_eq_some_iff.mp htxn
    exact ⟨h.catalog, (h.snapshots txn' htxn').2⟩
  | _ => exact ⟨h.catalog, h.snapshots, h.registered, h.names⟩

theorem placed_buffering (o : Op) (ho : o.Buffering) (h : Placed names s) : Placed names (apply s o) := by
  cases o with
  | setBuffer _ _ | removeBuffer _ | arrowAppend _ _ | arrowCheckpoint _ | arrowCheckpointAll =>
    exact ⟨h.catalog, h.snapshots, h.registered, h.names⟩
  | _ => exact ho.elim

theorem Placed.setCatalog (h : Placed names s) (hc : c.Placed) {names' : List String} (hnames : ∀ n ∈ names', c.Apart n) :
    Placed names' (apply s (.setCatalog c)) :=
  ⟨hc, h.snapshots, h.registered, hnames⟩

theorem placed_keep {f : CatalogData → CatalogData} (hf : KeepsTables f) (h : Placed names s) :
    Placed names (apply s (.setCatalog (f s.catalog))) :=
  h.setCatalog (h.catalog.keep (hf s.catalog)) fun n hn =>
    (h.names n hn).mono fun t ht => (same_tables (hf s.catalog) t).mp ht

theorem placed_parts (names : List String) : Parts env EntersInPlace (Placed names) RightPath where
  free s o ho _ h := placed_free o ho h
  keep s f hf _ h := placed_keep hf h
  right s t m h hm := (h.catalog.located t m hm).2
  register := by
    intro s t path schema hpath _ h
    refine ⟨h.catalog, h.snapshots, fun u p hp => ?_, h.names⟩
    by_cases hu : u = t
    · subst hu
      obtain rfl := Option.some.inj ((AList.lookup_insert s.ctx).symm.trans hp)
      exact hpath.1
    · exact h.registered u p ((AList.lookup_insert_ne hu).symm.trans hp)
  insert := by
    intro table columns batches t h
    exact wp_insertInto (fun _ _ => h) fun p rows _ _ =>
      ⟨fun _ => h, fun _ => ⟨h.catalog, h.snapshots, h.registered, h.names⟩⟩

/-! ## Handlers that change which tables there are -/

theorem splitSegments_slash (cs acc : List Char) : splitSegments acc (cs ++ ['/']) = splitSegments acc cs ++ [[]] := by
  induction cs generalizing acc with
  | nil => rfl
  | cons c cs ih =>
    rw [List.cons_append]
    unfold splitSegments
    by_cases hc : c = '/'
    · rw [if_pos hc, if_pos hc, ih]
      rfl
    · rw [if_neg hc, if_neg hc, ih]

theorem fsPath_slash (table : String) : fsPath (table ++ "/") = fsPath table := by
  have hslash : (table ++ "/").toList = table.toList ++ ['/'] := String.toList_append
  unfold fsPath
  rw [hslash, splitSegments_slash, List.filter_append]
  simp

theorem rightPath_tableUrl {table : String} (hplain : PlainName table) (env : Env) : RightPath table (tableUrl env table) := by
  unfold tableUrl
  by_cases hlocal : env.isLocalDisk = true
  · rw [if_pos hlocal]
    exact ⟨rfl, hplain⟩
  · have hslash := fsPath_slash table
    rw [if_neg hlocal]
    exact ⟨congrArg (List.map encodeSegment) hslash, hslash.trans hplain⟩

/-- A table is put under a name that lies apart. -/
theorem placed_addTable {m : TableMeta} (hpath : RightPath m.name m.path) :
    Maintains EntersInPlace (Placed [m.name]) (modifyCatalog (·.addTable m)) := by
  intro t h
  simp only [modifyCatalog, wp_bind, wp_get, wp_emit]
  intro _
  have htables : ∀ u, (t.catalog.addTable m).tables.lookup u =
      if u = m.name then some m else t.catalog.tables.lookup u := by
    intro u
    by_cases hu : u = m.name
    · rw [if_pos hu, hu]
      exact AList.lookup_insert _
    · rw [if_neg hu]
      exact AList.lookup_insert_ne hu
  have hput := h.catalog.put rfl hpath (h.names m.name List.mem_cons_self) htables
  refine h.setCatalog hput.1 fun n hn => ?_
  rw [List.mem_singleton.mp hn]
  exact hput.2

theorem placed_handleCtas {table : String} (hplain : PlainName table) (query : String) (partitionColumns : List String) :
    Maintains EntersInPlace (Placed [table]) (handleCtas env table query partitionColumns) := by
  have hparts := @placed_parts env [table]
  have hsave : ∀ columns : List ColumnDef, Maintains EntersInPlace (Placed [table]) (do
      modifyCatalog (·.addTable ⟨table, columns, tableUrl env table, partitionColumns, none, none, [], []⟩)
      catalogSave
      refreshTableFileStats env table
      return .message s!"Table '{table}' created." : M QueryResult) := by
    intro columns
    have hpath := rightPath_tableUrl hplain env
    refine (placed_addTable (m := ⟨table, columns, tableUrl env table, partitionColumns, none, none, [], []⟩) hpath).bind fun _ => ?_
    refine hparts.catalogSave.bind fun _ => ?_
    exact (hparts.refreshTableFileStats table).bind fun _ => maintains_pure _
  unfold handleCtas
  refine (readOnly_runQuery _).maintains.bind fun r => (maintains_check _).bind fun schema => ?_
  refine (hparts.registerListingTable (rightPath_tableUrl hplain env) schema).bind fun _ => ?_
  dsimp only
  split
  · exact (maintains_check _).bind fun _ => (hparts.insert _ _ _).bind fun _ => hsave _
  · exact hsave _

theorem placed_handleCreateTable {create : CreateTable} (hplain : PlainName create.name) :
    Maintains EntersInPlace (Placed [create.name]) (handleCreateTable env create) := by
  have hparts := @placed_parts env [create.name]
  unfold handleCreateTable
  refine maintains_get.bind fun db => ?_
  dsimp only
  split
  · split
    · exact maintains_pure _
    · exact maintains_throw _
  · refine (hparts.of_free (free_walAppendPending _)).bind fun _ => ?_
    split
    · exact placed_handleCtas hplain _ _
    · split
      · exact maintains_throw _
      · refine (maintains_check _).bind fun schema => ?_
        have hpath := rightPath_tableUrl hplain env
        refine (hparts.registerListingTable hpath schema).bind fun _ => ?_
        refine (placed_addTable (m := ⟨create.name, create.columns, tableUrl env create.name, create.partitionColumns,
          none, none, create.constraints, []⟩) hpath).bind fun _ => hparts.catalogSave.bind fun _ => ?_
        exact (hparts.refreshTableFileStats create.name).bind fun _ => maintains_pure _

theorem placed_handleDropTable (name : String) (ifExists : Bool) :
    Maintains EntersInPlace (Placed names) (handleDropTable env name ifExists) := by
  have hparts := @placed_parts env names
  have hremove : Maintains EntersInPlace (Placed names) (modifyCatalog (·.removeTable name)) := by
    intro t h
    simp only [modifyCatalog, wp_bind, wp_get, wp_emit]
    intro _
    have hsub : ∀ u m, (t.catalog.removeTable name).tables.lookup u = some m → t.catalog.tables.lookup u = some m := by
      intro u m hm
      by_cases hu : u = name
      · subst hu
        rw [show (t.catalog.removeTable u).tables.lookup u = none from AList.lookup_erase u _] at hm
        cases hm
      · exact (AList.lookup_erase_ne hu).symm.trans hm
    refine h.setCatalog (h.catalog.remove hsub) fun n hn => (h.names n hn).mono fun u hu => ?_
    obtain ⟨m, hm⟩ := Map.mem_iff_lookup.mp hu
    exact Map.mem_iff_lookup.mpr ⟨m, hsub u m hm⟩
  unfold handleDropTable
  refine maintains_get.bind fun db => ?_
  split
  · split
    · exact maintains_pure _
    · exact maintains_throw _
  · refine (hparts.of_free (free_walAppendPending _)).bind fun _ => hremove.bind fun _ => hparts.catalogSave.bind fun _ => ?_
    refine Maintains.bind (hparts.emit trivial) fun _ => Maintains.bind (hparts.emit trivial) fun _ => ?_
    refine maintains_get.bind fun t => ?_
    dsimp only
    split
    · exact Maintains.bind (hparts.emit trivial) fun _ => maintains_pure _
    · exact (hparts.of_free (free_deleteTableStorage _)).bind fun _ => maintains_pure _

/-- A table that is renamed within its directory. -/
theorem CatalogData.Placed.rename (hc : c.Placed) {oldName newName : String} {m : TableMeta}
    (hm : c.tables.lookup oldName = some m) (hdir : objPath newName = objPath oldName) :
    (c.renameTable oldName newName m).Placed := by
  have hlocated := hc.located oldName m hm
  have hold : oldName ∈ c.tables := Map.mem_iff_lookup.mpr ⟨m, hm⟩
  let erased : CatalogData := { c with tables := c.tables.erase oldName }
  have hsub : ∀ t m', erased.tables.lookup t = some m' → t ≠ oldName ∧ c.tables.lookup t = some m' := by
    intro t m' hm'
    by_cases ht : t = oldName
    · subst ht
      rw [show erased.tables.lookup t = none from AList.lookup_erase t _] at hm'
      cases hm'
    · exact ⟨ht, (AList.lookup_erase_ne ht).symm.trans hm'⟩
  have herased : erased.Placed := hc.remove fun t m' hm' => (hsub t m' hm').2
  have hapart : erased.Apart newName := by
    intro t ht _
    obtain ⟨m', hm'⟩ := Map.mem_iff_lookup.mp (mem_keys_iff.mp ht)
    obtain ⟨hne, hm'⟩ := hsub t m' hm'
    rw [hdir]
    exact hc.apart oldName hold t (mem_keys_iff.mpr (Map.mem_iff_lookup.mpr ⟨m', hm'⟩)) hne
  refine (herased.put (m := { m with name := newName }) rfl ⟨hlocated.2.1.trans hdir.symm, hlocated.2.2.trans hdir.symm⟩ hapart ?_).1
  intro t
  by_cases ht : t = newName
  · rw [if_pos ht, ht]
    exact AList.lookup_insert _
  · rw [if_neg ht]
    exact AList.lookup_insert_ne ht

theorem placed_handleRenameTable {oldName newName : String} (hdir : objPath newName = objPath oldName) :
    Maintains EntersInPlace (Placed []) (handleRenameTable env oldName newName) := by
  have hparts := @placed_parts env []
  unfold handleRenameTable
  refine maintains_get.bind fun db => ?_
  split
  · exact maintains_pure _
  · split
    · exact maintains_throw _
    · refine (hparts.of_free (free_walAppendPending _)).bind fun _ => ?_
      intro t h
      unfold tableMeta
      simp only [wp_bind, wp_get]
      cases hm : t.catalog.tables.lookup oldName with
      | none => exact wp_throw.mpr h
      | some m =>
        have hlocated := (h.catalog.located oldName m hm).2
        have hright : RightPath newName m.path := ⟨hlocated.1.trans hdir.symm, hlocated.2.trans hdir.symm⟩
        have hrest : Maintains EntersInPlace (Placed []) (do
            catalogSave
            emit (.deregisterTable oldName)
            let schema ← check (columnsToSchema env m.columns)
            registerListingTable newName schema m.path
            return .message s!"Table '{oldName}' renamed to '{newName}'." : M QueryResult) := by
          refine hparts.catalogSave.bind fun _ => Maintains.bind (hparts.emit trivial) fun _ => ?_
          refine (maintains_check _).bind fun schema => ?_
          exact (hparts.registerListingTable hright schema).bind fun _ => maintains_pure _
        refine wp_pure.mpr ?_
        simp only [modifyCatalog, wp_bind, wp_get, wp_emit]
        intro _
        have hrenamed := (h.setCatalog (h.catalog.rename hm hdir) (fun _ hx => absurd hx List.not_mem_nil) : Placed [] _)
        have hdone := hrest _ hrenamed
        simpa only [wp_bind, wp_emit] using hdone

theorem placed_registerView (name query : String) :
    Maintains EntersInPlace (Placed names) (registerView env name query) :=
  maintains_get.bind fun _ => (maintains_check _).bind fun _ => (@placed_parts env names).emit trivial

/-! ## Views -/

theorem placed_handleCreateView {create : CreateView}
    (hnames : create.materialized = true → PlainName (backingTable create.name) ∧ names = [backingTable create.name]) :
    Maintains EntersInPlace (Placed names) (handleCreateView env create) := by
  have hparts := @placed_parts env names
  have hadd : ∀ (view : ViewDef) (message : String), Maintains EntersInPlace (Placed names) (do
      modifyCatalog (·.addView view)
      catalogSave
      return .message message : M QueryResult) := by
    intro view message
    refine (hparts.modifyCatalog (f := (·.addView view)) (keepsTables_of_eq fun _ => rfl)).bind fun _ => ?_
    exact hparts.catalogSave.bind fun _ => maintains_pure _
  unfold handleCreateView
  refine maintains_get.bind fun db => ?_
  dsimp only
  split
  · exact maintains_throw _
  · refine (hparts.of_free (free_walAppendPending _)).bind fun _ => ?_
    split
    · rename_i hmaterialized
      obtain ⟨hplain, rfl⟩ := hnames hmaterialized
      refine maintains_get.bind fun db => ?_
      split
      · refine (placed_handleDropTable _ _).attempt.bind fun _ => ?_
        exact (placed_handleCtas hplain _ _).bind fun _ => (placed_registerView _ _).bind fun _ => hadd _ _
      · exact (placed_handleCtas hplain _ _).bind fun _ => (placed_registerView _ _).bind fun _ => hadd _ _
    · exact (placed_registerView _ _).bind fun _ => hadd _ _

theorem Placed.forget {names' : List String} (h : Placed names s) (hsub : ∀ n ∈ names', n ∈ names) : Placed names' s :=
  ⟨h.catalog, h.snapshots, h.registered, fun n hn => h.names n (hsub n hn)⟩

theorem Placed.add (h : Placed [] s) {name : String} (hapart : s.catalog.Apart name) : Placed [name] s := by
  refine ⟨h.catalog, h.snapshots, h.registered, fun n hn => ?_⟩
  rw [List.mem_singleton.mp hn]
  exact hapart

theorem placed_handleRefreshMaterializedView {name : String} (h : Placed [] s)
    (hbacking : ∀ view backing, s.catalog.views.lookup name = some view → view.backingTable = some backing →
      PlainName backing ∧ s.catalog.Apart backing) :
    wp EntersInPlace (handleRefreshMaterializedView env name) s fun _ t => Placed [] t := by
  unfold handleRefreshMaterializedView
  simp only [wp_bind, wp_get]
  cases hview : s.catalog.views.lookup name with
  | none => exact wp_throw.mpr h
  | some view =>
    dsimp only
    split
    · exact wp_throw.mpr h
    · cases hback : view.backingTable with
      | none => exact wp_throw.mpr h
      | some backing =>
        have hparts := @placed_parts env [backing]
        obtain ⟨hplain, hapart⟩ := hbacking view backing hview hback
        have hrest : Maintains EntersInPlace (Placed [backing]) (do
            walAppendPending env s!"REFRESH MATERIALIZED VIEW \"{name}\""
            let _ ← attempt (handleDropTable env backing true)
            let _ ← handleCtas env backing s!"SELECT * FROM ({view.sql}) AS t" []
            registerView env name s!"SELECT * FROM \"{backing}\""
            return .message s!"Materialized view '{name}' refreshed." : M QueryResult) := by
          refine (hparts.of_free (free_walAppendPending _)).bind fun _ => (placed_handleDropTable _ _).attempt.bind fun _ => ?_
          exact (placed_handleCtas hplain _ _).bind fun _ => (placed_registerView _ _).bind fun _ => maintains_pure _
        refine wp_mono (fun _ t (ht : Placed [backing] t) => ht.forget fun _ hx => absurd hx List.not_mem_nil) ?_
        simpa only [wp_bind] using hrest s (h.add hapart)

/-! ## ROLLBACK -/

theorem placed_reloadTables : Maintains EntersInPlace (Placed names) (reloadTables env) := by
  have hparts := @placed_parts env names
  have hloop : ∀ specs : List (String × Schema × String), (∀ spec ∈ specs, RightPath spec.1 spec.2.2) →
      Maintains EntersInPlace (Placed names)
        (each (fun spec => registerListingTable spec.1 spec.2.1 spec.2.2) specs : M Unit) := by
    intro specs
    induction specs with
    | nil => exact fun _ => maintains_pure _
    | cons spec specs ih =>
      intro h
      refine (hparts.registerListingTable (h spec List.mem_cons_self) spec.2.1).bind fun _ => ?_
      exact ih fun spec' hs => h spec' (List.mem_cons_of_mem _ hs)
  intro t h
  unfold reloadTables
  simp only [wp_bind, wp_get, wp_check]
  cases hspecs : t.catalog.tables.values.mapM fun m => do
      return (m.name, ← columnsToSchema env m.columns, m.path) with
  | error e => exact h
  | ok specs =>
    refine hloop specs (fun spec hs => ?_) t h
    have hin := List.mem_map_of_mem (f := Except.ok (ε := String)) hs
    rw [← mapM_ok_iff.mp hspecs] at hin
    obtain ⟨m, hm, he⟩ := List.mem_map.mp hin
    obtain ⟨u, hu⟩ := Map.mem_values hm
    obtain ⟨hname, hpath⟩ := h.catalog.located u m hu
    cases hc : columnsToSchema env m.columns with
    | error e =>
      rw [hc] at he
      cases he
    | ok schema =>
      rw [hc] at he
      cases he
      rw [← hname] at hpath
      exact hpath

theorem placed_restoreSnapshot {snapshot : CatalogData} (hsnapshot : snapshot.Placed) (files : Map (List ObjPath))
    (backups : Map (List RecordBatch)) (save : Bool) :
    Maintains EntersInPlace (Placed []) (restoreSnapshot env snapshot files backups save) := by
  have hparts := @placed_parts env []
  have hnew : Maintains EntersInPlace (Placed []) (deleteNewFiles files) := by
    refine maintains_each (fun entry => Maintains.bind (maintains_get.bind fun _ => maintains_pure _) fun paths => ?_) _
    refine maintains_each (fun path => ?_) _
    split
    · exact maintains_pure _
    · exact hparts.emit trivial
  have hdrop : Maintains EntersInPlace (Placed []) (dropNewTables env files) := by
    refine maintains_get.bind fun db => maintains_each (fun entry => ?_) _
    split
    · exact maintains_pure _
    · exact (hparts.of_free (free_deleteTableStorage _)).bind fun _ => hparts.emit trivial
  have hset : Maintains EntersInPlace (Placed []) (emit (.setCatalog snapshot) : M Unit) :=
    maintains_emit fun s hs _ => hs.setCatalog hsnapshot nofun
  have hbackups : Maintains EntersInPlace (Placed []) (restoreBackups env backups) := by
    refine maintains_each (fun entry => maintains_get.bind fun db => ?_) _
    split
    · exact maintains_pure _
    · exact (maintains_check _).bind fun schema => hparts.rewriteTable _ _ _ _
  have hrest : ∀ current : List String, Maintains EntersInPlace (Placed []) (do
      each (fun t => emit (.deregisterTable t)) current
      reloadTables env
      restoreBackups env backups : M Unit) := by
    intro current
    refine Maintains.bind (maintains_each (fun t => hparts.emit (o := .deregisterTable t) trivial) current) fun _ => ?_
    exact placed_reloadTables.bind fun _ => hbackups
  unfold restoreSnapshot
  refine maintains_get.bind fun db => ?_
  dsimp only
  refine hnew.bind fun _ => hdrop.bind fun _ => hset.bind fun _ => ?_
  split
  · exact Maintains.bind (hparts.emit trivial) fun _ => hrest _
  · exact hrest _

theorem placed_handleRollback : Maintains EntersInPlace (Placed []) (handleRollback env) := by
  have hparts := @placed_parts env []
  intro s h
  unfold handleRollback
  simp only [wp_bind, wp_get]
  cases htxn : s.activeTxn with
  | none => exact wp_throw.mpr h
  | some txn =>
    have hrun : Maintains EntersInPlace (Placed []) (do
        emit .endTxn
        emit (.setCatalogInTransaction false)
        restoreSnapshot env txn.catalogSnapshot txn.fileSnapshot txn.rewriteBackups true
        if (← get).replayingWal || !env.walEnabled then pure ()
        else
          emit (.walAppend ⟨txn.walTxnId, .aborted, ""⟩)
          emit .walCheckpoint
        return .message "ROLLBACK" : M QueryResult) := by
      refine Maintains.bind (hparts.emit trivial) fun _ => Maintains.bind (hparts.emit trivial) fun _ => ?_
      refine (placed_restoreSnapshot (h.snapshots txn htxn).1 _ _ _).bind fun _ => maintains_get.bind fun t => ?_
      dsimp only
      split
      · exact maintains_pure _
      · exact Maintains.bind (hparts.emit trivial) fun _ => Maintains.bind (hparts.emit trivial) fun _ => maintains_pure _
    simpa only [wp_bind] using hrun s h

theorem placed_handleRollbackTo (name : String) : Maintains EntersInPlace (Placed []) (handleRollbackTo env name) := by
  have hparts := @placed_parts env []
  intro s h
  unfold handleRollbackTo
  simp only [wp_bind, wp_get]
  cases htxn : s.activeTxn with
  | none => exact wp_throw.mpr h
  | some txn =>
    dsimp only
    cases hfind : findSavepoint txn.savepoints name with
    | none => exact wp_throw.mpr h
    | some found =>
      have hmem : found.1 ∈ txn.savepoints :=
        List.fst_mem_of_mem_zipIdx (List.mem_reverse.mp (List.mem_of_find?_eq_some hfind))
      have hrun : Maintains EntersInPlace (Placed []) (do
          emit (.truncateSavepoints (found.2 + 1))
          restoreSnapshot env found.1.catalogSnapshot found.1.fileSnapshot found.1.rewriteBackups false
          emit .resetTxn
          return .message s!"ROLLBACK TO SAVEPOINT {name}" : M QueryResult) := by
        refine Maintains.bind (hparts.emit trivial) fun _ => ?_
        refine (placed_restoreSnapshot ((h.snapshots txn htxn).2 _ hmem) _ _ _).bind fun _ => ?_
        exact Maintains.bind (hparts.emit trivial) fun _ => maintains_pure _
      simpa only [wp_bind] using hrun s h

/-! ## Flushes -/

/-- The catalog has the tables of another one, under the same paths. -/
def HasTables (c : CatalogData) (s : Db) : Prop :=
  ∀ t, (s.catalog.tables.lookup t).map (fun m => (m.name, m.path)) = (c.tables.lookup t).map fun m => (m.name, m.path)

theorem hasTables_catalog {t : Db} (h : t.catalog = s.catalog) (hs : HasTables c s) : HasTables c t := by
  unfold HasTables
  rw [h]
  exact hs

theorem catalog_free {o : Op} (h : o.Free) (s : Db) : (apply s o).catalog = s.catalog := by
  cases o with
  | setCatalog data => exact h.elim
  | _ => rfl

theorem hasTables_parts (c : CatalogData) : Parts env EntersInPlace (HasTables c) fun _ _ => True where
  free s _ ho _ := hasTables_catalog (catalog_free ho s)
  keep s _ hf _ h t := (hf s.catalog t).trans (h t)
  right _ _ _ _ _ := trivial
  register _ _ _ _ _ _ := hasTables_catalog rfl
  insert table columns batches s h := fun _ =>
    hasTables_catalog (catalog_of_emits (uncataloged_insertInto table columns batches) s) h

theorem hasTables_buffering (o : Op) (ho : o.Buffering) (h : HasTables c s) : HasTables c (apply s o) := by
  cases o with
  | setBuffer _ _ | removeBuffer _ | arrowAppend _ _ | arrowCheckpoint _ | arrowCheckpointAll => exact h
  | _ => exact ho.elim

theorem hasTables_flushTable (table : String) : Maintains EntersInPlace (HasTables c) (flushTable env table) :=
  (hasTables_parts c).flushTable (fun _ o ho _ => hasTables_buffering o ho) table

/-- A name that a new table can take. -/
structure Reserved (name : String) (s : Db) : Prop where
  placed : Placed [name] s
  absent : name ∉ s.catalog.tables
  vacant : s.Vacant (objPath name)

theorem vacant_free {dir : Dir} (o : Op) (ho : o.Free) (h : s.Vacant dir) : (apply s o).Vacant dir := by
  cases o with
  | putFile _ _ | setCatalog _ | registerTable _ _ | setBuffer _ _ | removeBuffer _ | arrowAppend _ _ | arrowCheckpoint _
  | arrowCheckpointAll | setReplayingWal _ | restoreFiles _ _ => exact ho.elim
  | deleteFile path => exact ⟨fun e he => h.files e (List.mem_of_mem_filter he), h.tables⟩
  | removeDir dir' => exact ⟨fun e he => h.files e (List.mem_of_mem_filter he), h.tables⟩
  | deregisterTable name =>
    refine ⟨h.files, fun p hp => ?_⟩
    obtain ⟨t, ht⟩ := Map.mem_values hp
    by_cases htn : t = name
    · subst htn
      rw [show (apply s (.deregisterTable t)).ctx.lookup t = none from AList.lookup_erase t s.ctx] at ht
      cases ht
    · exact h.tables p (Map.values_mem ((AList.lookup_erase_ne htn).symm.trans ht))
  | _ => exact ⟨h.files, h.tables⟩

theorem reserved_parts (name : String) :
    Parts env EntersInPlace (Reserved name) fun t path => RightPath t path ∧ ¬ objPath name <+: objPath t where
  free s o ho _ h := by
    refine ⟨placed_free o ho h.placed, ?_, vacant_free o ho h.vacant⟩
    rw [catalog_free ho s]
    exact h.absent
  keep s f hf _ h :=
    ⟨placed_keep hf h.placed, fun hin => h.absent ((same_tables (hf s.catalog) name).mp hin), ⟨h.vacant.files, h.vacant.tables⟩⟩
  right := by
    intro s t m h hm
    have hin : t ∈ s.catalog.tables := Map.mem_iff_lookup.mpr ⟨m, hm⟩
    refine ⟨(h.placed.catalog.located t m hm).2, ?_⟩
    exact (h.placed.names name List.mem_cons_self t (mem_keys_iff.mpr hin) fun heq => h.absent (heq ▸ hin)).2
  register := by
    intro s t path schema hright hc h
    have hplaced := (@placed_parts env [name]).register s t path schema hright.1 hc h.placed
    refine ⟨hplaced, h.absent, h.vacant.files, fun p hp => ?_⟩
    obtain ⟨u, hu⟩ := Map.mem_values hp
    by_cases hut : u = t
    · subst hut
      obtain rfl := Option.some.inj ((AList.lookup_insert s.ctx).symm.trans hu)
      show ¬ objPath name <+: objPath path
      rw [hright.1.1]
      exact hright.2
    · exact h.vacant.tables p (Map.values_mem ((AList.lookup_insert_ne hut).symm.trans hu))
  insert := by
    intro table columns batches t h
    refine wp_insertInto (fun _ _ => h) fun p rows hp _ => ⟨fun _ => h, fun _ => ?_⟩
    have hplaced := h.placed
    refine ⟨⟨hplaced.catalog, hplaced.snapshots, hplaced.registered, hplaced.names⟩, h.absent, fun e he hdir => ?_, h.vacant.tables⟩
    obtain he | he := List.mem_append.mp he
    · exact h.vacant.files e he hdir
    · obtain rfl := List.mem_singleton.mp he
      exact absurd hdir (h.vacant.tables p (Map.values_mem hp))

theorem reserved_buffering {name : String} (o : Op) (ho : o.Buffering) (h : Reserved name s) : Reserved name (apply s o) := by
  have hplaced := placed_buffering o ho h.placed
  cases o with
  | setBuffer _ _ | removeBuffer _ | arrowAppend _ _ | arrowCheckpoint _ | arrowCheckpointAll =>
    exact ⟨hplaced, h.absent, ⟨h.vacant.files, h.vacant.tables⟩⟩
  | _ => exact ho.elim

theorem reserved_flushTable {name : String} (table : String) :
    Maintains EntersInPlace (Reserved name) (flushTable env table) :=
  (reserved_parts name).flushTable (fun _ o ho _ => reserved_buffering o ho) table

/-! ## Statements -/

theorem placed_flushTable (table : String) : Maintains EntersInPlace (Placed names) (flushTable env table) :=
  (placed_parts names).flushTable (fun _ o ho _ => placed_buffering o ho) table

/-- What a statement is entered under still holds when its flush is done. -/
theorem keepsPlaces_flush (statement : Statement) (sqlUpper : String) (h : Placed [] s) (hkeeps : statement.KeepsPlaces s) :
    wp EntersInPlace (flushBufferedForSql env sqlUpper) s fun _ t => Placed [] t ∧ statement.KeepsPlaces t := by
  have hflush : ∀ names, Maintains EntersInPlace (Placed names) (flushBufferedForSql env sqlUpper) :=
    fun names => Parts.flushBufferedForSql placed_flushTable sqlUpper
  -- a name that lies apart
  have hadd : ∀ name, s.catalog.Apart name →
      wp EntersInPlace (flushBufferedForSql env sqlUpper) s fun _ t => Placed [] t ∧ t.catalog.Apart name := by
    intro name hapart
    refine wp_mono (fun _ t (ht : Placed [name] t) => ?_) (hflush [name] s (h.add hapart))
    exact ⟨ht.forget nofun, ht.names name List.mem_cons_self⟩
  have hdone : ∀ hfree : (∀ t, statement.KeepsPlaces t),
      wp EntersInPlace (flushBufferedForSql env sqlUpper) s fun _ t => Placed [] t ∧ statement.KeepsPlaces t :=
    fun hfree => wp_mono (fun _ t ht => ⟨ht, hfree t⟩) (hflush [] s h)
  cases statement with
  | createTable create =>
    obtain ⟨hplain, hapart, hvacant⟩ := hkeeps
    refine wp_mono (fun _ t ht => ⟨ht.1.1, hplain, ht.1.2, fun hq hin => (ht.2 hq hin).vacant⟩) (wp_and (hadd create.name hapart)
      (R := fun _ t => create.query = none → create.name ∉ t.catalog.tables → Reserved create.name t) ?_)
    by_cases hin : create.name ∈ s.catalog.tables
    · refine wp_mono (fun _ t (ht : HasTables s.catalog t) _ hout => absurd ((same_tables ht create.name).mpr hin) hout) ?_
      exact Parts.flushBufferedForSql hasTables_flushTable sqlUpper s fun _ => rfl
    · by_cases hq : create.query = none
      · have hreserved : Reserved create.name s := ⟨h.add hapart, hin, hvacant hq hin⟩
        refine wp_mono (fun _ t (ht : Reserved create.name t) _ _ => ht) ?_
        exact Parts.flushBufferedForSql reserved_flushTable sqlUpper s hreserved
      · exact fun _ hq' => absurd hq' hq
  | createView create =>
    by_cases hm : create.materialized = true
    · obtain ⟨hplain, hapart⟩ := hkeeps hm
      exact wp_mono (fun _ t ht => ⟨ht.1, fun _ => ⟨hplain, ht.2⟩⟩) (hadd _ hapart)
    · exact hdone fun _ hm' => absurd hm' hm
  | refreshMaterializedView name =>
    have hviews := @keepsPart_flushBufferedForSql env _ _ views_withoutFileStats sqlUpper s
    refine fun hc => ⟨hflush [] s h hc, fun view backing hview hback => ?_⟩
    rw [hviews] at hview
    obtain ⟨hplain, hapart⟩ := hkeeps view backing hview hback
    exact ⟨hplain, (hadd backing hapart hc).2⟩
  | alterTable alter => exact hdone fun _ => hkeeps
  | _ => exact hdone fun _ => trivial

theorem placed_arrive (sql : String) (h : Placed [] s) : wp EntersInPlace (arrive env sql) s fun r t =>
    Placed [] t ∧ ((∃ a, r = .ok a) → (env.parse sql).KeepsPlaces t) := by
  unfold arrive
  rw [wp_bind]
  refine wp_mono (fun r t ht => ?_) ((placed_parts []).drainPendingAnalyze s h)
  cases r with
  | error e => exact ⟨ht, fun ⟨a, ha⟩ => nomatch ha⟩
  | ok _ =>
    dsimp only
    rw [wp_bind, wp_emit]
    intro hkeeps
    replace hkeeps : (env.parse sql).KeepsPlaces t := hkeeps
    generalize env.parse sql = statement at hkeeps ⊢
    have hdone : wp EntersInPlace (pure () : M Unit) t fun r t => Placed [] t ∧ ((∃ a, r = .ok a) → statement.KeepsPlaces t) :=
      wp_pure.mpr ⟨ht, fun _ => hkeeps⟩
    have hflush : wp EntersInPlace (do
        if needsNoFlush (upperText env sql) then pure ()
        else do
          let _ ← flushBufferedForSql env (upperText env sql) : M Unit) t fun r t =>
        Placed [] t ∧ ((∃ a, r = .ok a) → statement.KeepsPlaces t) := by
      split
      · exact hdone
      · rw [wp_bind]
        refine wp_mono (fun r u hu => ?_) (keepsPlaces_flush _ _ ht hkeeps)
        cases r with
        | error e => exact ⟨hu.1, fun ⟨a, ha⟩ => nomatch ha⟩
        | ok _ => exact wp_pure.mpr ⟨hu.1, fun _ => hu.2⟩
    cases statement with
    | flush table => exact hdone
    | _ => exact hflush

theorem placed_handleCheckpoint : Maintains EntersInPlace (Placed []) (handleCheckpoint env) := by
  have hparts := @placed_parts env []
  have hlog : Maintains EntersInPlace (Placed []) (do
      if env.arrowWalEnabled then emit .arrowCheckpointAll else pure ()
      return .message "Checkpoint completed for WAL and Arrow WAL." : M QueryResult) := by
    dsimp only
    split
    · exact Maintains.bind (maintains_emit fun s hs _ => placed_buffering _ trivial hs) fun _ => maintains_pure _
    · exact maintains_pure _
  unfold handleCheckpoint
  refine maintains_get.bind fun db => ?_
  split
  · exact maintains_throw _
  · dsimp only
    split
    · refine Maintains.bind (hparts.emit trivial) fun _ => (hparts.of_minor minor_now).bind fun _ => maintains_get.bind fun _ => ?_
      exact Maintains.bind (hparts.emit trivial) fun _ => hlog
    · exact hlog

theorem placed_statements :
    Invariant env EntersInPlace (Placed []) RightPath fun statement t => statement.KeepsPlaces t where
  toParts := placed_parts []
  arrive sql _ h := placed_arrive sql h
  flush := placed_flushTable
  buffer := (placed_parts []).bufferInsertBatches fun _ o ho _ => placed_buffering o ho
  checkpoint := placed_handleCheckpoint
  create create s hkeeps h :=
    wp_mono (fun _ _ (ht : Placed [create.name] _) => ht.forget nofun) (placed_handleCreateTable hkeeps.1 s (h.add hkeeps.2.1))
  drop := placed_handleDropTable
  rename alter oldName newName s hrename hkeeps h := placed_handleRenameTable (hkeeps oldName newName hrename) s h
  rollback := placed_handleRollback
  rollbackTo := placed_handleRollbackTo
  createView create s hkeeps h := by
    by_cases hm : create.materialized = true
    · refine wp_mono (fun _ _ (ht : Placed [backingTable create.name] _) => ht.forget nofun) ?_
      exact placed_handleCreateView (fun _ => ⟨(hkeeps hm).1, rfl⟩) s (h.add (hkeeps hm).2)
    · exact placed_handleCreateView (fun hm' => absurd hm' hm) s h
  refreshView name s hkeeps h := placed_handleRefreshMaterializedView h hkeeps

/-! ## A new table -/

/-- The operation writes no file. -/
def Op.Fileless : Op → Prop
  | putFile .. | restoreFiles .. => False
  | _ => True

theorem Op.Free.fileless {o : Op} (h : o.Free) : o.Fileless := by
  cases o with
  | putFile _ _ | restoreFiles _ _ => exact h.elim
  | _ => trivial

theorem Op.Minor.fileless {o : Op} (h : o.Minor) : o.Fileless := by
  cases o with
  | putFile _ _ | restoreFiles _ _ => exact h.elim
  | _ => trivial

section
variable {α : Type}

theorem fileless_of_free {p : M α} (h : Emits Op.Free p) : Emits Op.Fileless p := h.mono fun _ h => h.fileless

theorem fileless_of_minor {p : M α} (h : Emits Op.Minor p) : Emits Op.Fileless p := h.mono fun _ h => h.fileless

theorem fileless_modifyCatalog (f : CatalogData → CatalogData) : Emits Op.Fileless (modifyCatalog f) :=
  emits_get.bind fun _ => emits_emit trivial

theorem fileless_handleCreateTable {create : CreateTable} (hq : create.query = none) :
    Emits Op.Fileless (handleCreateTable env create) := by
  have hrefresh : Emits Op.Fileless (refreshTableFileStats env create.name) := by
    unfold refreshTableFileStats
    refine emits_get.bind fun db => ?_
    split
    · exact emits_pure _
    · exact (fileless_modifyCatalog _).bind fun _ => fileless_of_minor minor_catalogSave
  unfold handleCreateTable
  refine emits_get.bind fun db => ?_
  dsimp only
  split
  · split
    · exact emits_pure _
    · exact emits_throw _
  · refine (fileless_of_free (free_walAppendPending _)).bind fun _ => ?_
    rw [hq]
    dsimp only
    split
    · exact emits_throw _
    · refine (emits_check _).bind fun schema => Emits.bind (emits_emit trivial) fun _ => ?_
      refine (fileless_modifyCatalog _).bind fun _ => (fileless_of_minor minor_catalogSave).bind fun _ => ?_
      exact hrefresh.bind fun _ => emits_pure _

theorem fileless_leave (statement : Statement) (result : Except String QueryResult) :
    Emits Op.Fileless (leave env statement result) := by
  have hrest : Emits Op.Fileless (do
      catalogFlushIfDirty
      check result : M QueryResult) :=
    (fileless_of_free free_catalogFlushIfDirty).bind fun _ => emits_check result
  unfold leave
  split
  · exact emits_check _
  · dsimp only
    split
    · exact (fileless_of_free (free_walFinishAutocommit _)).bind fun _ => hrest
    · exact hrest

/-- Where no rows lie in a directory, an operation that writes no file puts none there. -/
theorem bare_fileless {p : M α} (hp : Emits Op.Fileless p) {dir : Dir} (h : ∀ e ∈ s.store, dir <+: e.1.dir → e.2.rows = []) :
    ∀ e ∈ (p.final s).store, dir <+: e.1.dir → e.2.rows = [] := by
  have hkeep : Maintains (fun _ _ => True) (fun t : Db => ∀ e ∈ t.store, dir <+: e.1.dir → e.2.rows = []) p := by
    refine hp.maintains fun t o ho _ ht => ?_
    cases o with
    | putFile _ _ | restoreFiles _ _ => exact ho.elim
    | deleteFile path => exact fun e he => ht e (List.mem_of_mem_filter he)
    | removeDir dir' => exact fun e he => ht e (List.mem_of_mem_filter he)
    | _ => exact ht
  exact hkeep s h along_true

end

/-- A table in its place reads nothing where its directory holds no rows. -/
theorem Placed.rows_nil (h : Placed names s) {name : String}
    (hbare : ∀ e ∈ s.store, objPath name <+: e.1.dir → e.2.rows = []) : s.rows name = [] := by
  unfold Db.rows Db.relation
  cases hp : s.ctx.lookup name with
  | none => rfl
  | some p =>
    show s.store.read p.dir _ = []
    rw [h.registered name p hp]
    refine List.flatMap_eq_nil_iff.mpr fun e he => ?_
    obtain ⟨hstore, hdir⟩ := List.mem_filter.mp he
    unfold ParquetFile.read
    rw [hbare e hstore (List.isPrefixOf_iff_prefix.mp hdir), List.map_nil]

theorem created_rows_nil {sql : String} {create : CreateTable} (hparse : env.parse sql = .createTable create)
    (hq : create.query = none) (hnew : create.name ∉ s.catalog.tables) (h : Placed [] s) (fuel : Nat) :
    wp EntersInPlace (execute env fuel sql) s fun r t => (∃ a, r = .ok a) → t.rows create.name = [] := by
  cases fuel with
  | zero => exact wp_throw.mpr fun hok => absurd hok (by simp)
  | succ fuel =>
    have hplaced := (@placed_statements env).execute (fuel + 1) sql s h
    have hbare : wp EntersInPlace (execute env (fuel + 1) sql) s fun r t =>
        (∃ a, r = .ok a) → ∀ e ∈ t.store, objPath create.name <+: e.1.dir → e.2.rows = [] := by
      unfold execute
      rw [hparse, wp_bind]
      have harrive := wp_and (p := arrive env sql) (placed_arrive sql h)
        ((hasTables_parts s.catalog).arrive hasTables_flushTable sql s fun _ => rfl)
      refine wp_mono (fun r t ht => ?_) harrive
      cases r with
      | error e => exact fun hok => absurd hok (by simp)
      | ok u =>
        obtain ⟨⟨hin, hkeeps⟩, htables⟩ := ht
        have hkeeps := hkeeps ⟨u, rfl⟩
        rw [hparse] at hkeeps
        have hvacant := hkeeps.2.2 hq fun hin' => hnew ((same_tables htables create.name).mp hin')
        refine fun _ _ => bare_fileless (Emits.bind ?_ fun r => fileless_leave _ r) hvacant.files
        exact (fileless_handleCreateTable hq).attempt
    exact wp_mono (fun r t ht hok => ht.1.rows_nil (ht.2 hok)) (wp_and hplaced hbare)

end

/-! ## A renamed table -/

/-- `CREATE TABLE t (a BOOLEAN)`. -/
def createT : CreateTable := ⟨"t", false, [⟨"a", "BOOLEAN", true⟩], [], [], none, "CREATE TABLE t (a BOOLEAN)"⟩

/-- Statements about `t`, one of which renames it to `u`. -/
def renameEnv : Env := { flagEnv with
  parse := fun sql =>
    if sql = "CREATE TABLE t (a BOOLEAN)" then .createTable createT
    else if sql = "DROP TABLE t" then .dropTable "t" false
    else if sql = "ALTER TABLE t RENAME TO u" then .alterTable ⟨"t", [], false, some ("t", "u"), none⟩
    else if sql = "FLUSH t" then .flush (some "t")
    else flagEnv.parse sql }

/-- The state after the statements, on an empty data directory. -/
def renameDb (sqls : List String) : Db := (statements renameEnv 1 sqls).final Db.new

theorem placed_new : Placed [] Db.new where
  catalog := ⟨nofun, nofun⟩
  snapshots := nofun
  registered := nofun
  names := nofun

instance decidableKeepsPlaces (s : Db) (statement : Statement) : Decidable (statement.KeepsPlaces s) := by
  cases statement with
  | createTable create => exact inferInstanceAs (Decidable (_ ∧ _ ∧ (_ → _ → _)))
  | createView create => exact inferInstanceAs (Decidable (_ → _ ∧ _))
  | refreshMaterializedView name =>
    exact decidable_of_iff (∀ view ∈ s.catalog.views.lookup name, ∀ backing ∈ view.backingTable,
        PlainName backing ∧ s.catalog.Apart backing)
      ⟨fun h view backing hv hb => h view hv backing hb, fun h view hv backing hb => h view backing hv hb⟩
  | alterTable alter =>
    exact decidable_of_iff (∀ p ∈ alter.rename, objPath p.2 = objPath p.1)
      ⟨fun h oldName newName hr => h (oldName, newName) hr, fun h p hr => h p.1 p.2 hr⟩
  | _ => exact .isTrue trivial

def Op.entered : Op → Option Statement
  | .enter statement => some statement
  | _ => none

instance decidableEntersInPlace (s : Db) (o : Op) : Decidable (EntersInPlace s o) :=
  decidable_of_iff (∀ statement ∈ o.entered, statement.KeepsPlaces s) (by cases o <;> simp [Op.entered, EntersInPlace])

/-- The table `t`, with a row, is dropped. -/
def dropStatements : List String :=
  ["CREATE TABLE t (a BOOLEAN)", "INSERT INTO t VALUES (FALSE)", "FLUSH t", "DROP TABLE t"]

def droppedDb : Db := renameDb dropStatements

theorem not_placed {s : Db} {name : String} {dir : Dir} (h : (s.catalog.tables.lookup name).map (fun m => objPath m.path) = some dir)
    (hdir : dir ≠ objPath name) : ¬ Placed [] s := by
  intro hs
  obtain ⟨m, hm, rfl⟩ := Option.map_eq_some_iff.mp h
  exact hdir (hs.catalog.located name m hm).2.1

/-- The table `t`, with a row, is renamed to `u`. -/
def renamedDb : Db :=
  renameDb ["CREATE TABLE t (a BOOLEAN)", "INSERT INTO t VALUES (FALSE)", "FLUSH t", "ALTER TABLE t RENAME TO u"]

end PotatoDB
