import PotatoDB.Ddl
import PotatoDB.Constraints
import PotatoDB.Faults

/-!
# ALTER TABLE that fails

The operations of ALTER TABLE change the columns in memory one after another, and nothing takes
them back. A statement that fails leaves the table alone if and only if it fails before the
columns have changed for good and before the table is taken off DataFusion.
-/

namespace PotatoDB

open Oplog Oplog.Prog
open Machine (apply)

/-! ## What the operations do to the columns -/

/-- The columns after an operation that can be done. -/
def AlterTableOperation.effect (columns : List ColumnDef) : AlterTableOperation → Option (List ColumnDef)
  | addColumn column ifNotExists =>
    if (columns.map (·.name)).contains column.name then (if ifNotExists then some columns else none)
    else some (columns ++ [column])
  | dropColumn name ifExists =>
    if (columns.map (·.name)).contains name then some (columns.filter (·.name ≠ name))
    else if ifExists then some columns else none
  | renameColumn oldName newName =>
    if (columns.map (·.name)).contains oldName then some (PotatoDB.renameColumn oldName newName columns) else none
  | unsupported _ => none

/-- The columns after the operations up to the first that cannot be done, and whether all can. -/
def alteredColumns (columns : List ColumnDef) : List AlterTableOperation → List ColumnDef × Bool
  | [] => (columns, true)
  | op :: ops =>
    match op.effect columns with
    | some columns' => alteredColumns columns' ops
    | none => (columns, false)

def Db.withColumns (s : Db) (table : String) (columns : List ColumnDef) : Db :=
  { s with catalog := { s.catalog with
    tables := s.catalog.tables.modify table fun m => { m with columns := columns } } }

theorem Map.modify_id {α : Type} {m : Map α} {k : String} {a : α} {f : α → α} (h : m.lookup k = some a) (hf : f a = a) :
    m.modify k f = m := by
  apply AList.ext
  show (m.entries.map fun p => (⟨p.1, if p.1 = k then f p.2 else p.2⟩ : Sigma fun _ : String => α)) = m.entries
  conv_rhs => rw [← List.map_id m.entries]
  refine List.map_congr_left fun p hp => ?_
  by_cases hk : p.1 = k
  · have ha : m.lookup p.1 = some p.2 := AList.mem_lookup_iff.mpr hp
    obtain rfl : a = p.2 := Option.some.inj (h.symm.trans (hk ▸ ha))
    rw [if_pos hk, hf]
    rfl
  · rw [if_neg hk]
    rfl

section
variable {s : Db} {table : String} {m : TableMeta} {columns : List ColumnDef}

theorem withColumns_self (hm : s.catalog.tables.lookup table = some m) : s.withColumns table m.columns = s := by
  unfold Db.withColumns
  rw [Map.modify_id hm rfl]

theorem withColumns_withColumns (columns' : List ColumnDef) :
    (s.withColumns table columns).withColumns table columns' = s.withColumns table columns' := by
  unfold Db.withColumns Map.modify
  simp only [Map.mapValues_mapValues]
  congr 3
  funext k m
  by_cases hk : k = table <;> simp [hk]

theorem lookup_withColumns (hm : s.catalog.tables.lookup table = some m) :
    (s.withColumns table columns).catalog.tables.lookup table = some { m with columns := columns } := by
  show (s.catalog.tables.modify table _).lookup table = _
  rw [Map.modify, Map.lookup_mapValues, hm]
  simp

end

/-! ## Steps that fail -/

/-- Which operations fail, and how; a change in memory does not. -/
structure Failing where
  fails : Op → Option String
  setCatalog : ∀ data, fails (.setCatalog data) = none
  markCatalogDirty : fails .markCatalogDirty = none

section
variable {env : Env} (f : Failing) {s : Db} {table : String} {m : TableMeta}

theorem ends_tableMeta {Q : Except String TableMeta → Db → Prop} (hm : s.catalog.tables.lookup table = some m)
    (h : Q (.ok m) s) : Ends ((tableMeta table).interrupted f.fails) s Q := by
  rw [interrupted_readOnly (readOnly_tableMeta table)]
  unfold tableMeta
  rw [Ends, wp_bind, wp_get]
  dsimp only
  rw [hm]
  exact wp_pure.mpr h

theorem ends_setColumns {Q : Except String Unit → Db → Prop} {columns columns' : List ColumnDef}
    (h : Q (.ok ()) (s.withColumns table columns')) :
    Ends ((setColumns table columns').interrupted f.fails) (s.withColumns table columns) Q := by
  have hset : s.withColumns table columns' = (s.withColumns table columns).withColumns table columns' :=
    (withColumns_withColumns columns').symm
  rw [hset] at h
  unfold setColumns modifyCatalog
  rw [interrupted_bind, Ends, wp_bind, interrupted_get, wp_get]
  dsimp only
  rw [interrupted_emit, f.setCatalog, Option.elim_none, wp_emit]
  exact fun _ => h

theorem ends_alterTableOperation {Q : Except String String → Db → Prop} {columns : List ColumnDef}
    (hm : s.catalog.tables.lookup table = some m) (op : AlterTableOperation)
    (hdone : ∀ columns' message, op.effect columns = some columns' → Q (.ok message) (s.withColumns table columns'))
    (hfail : ∀ e, op.effect columns = none → Q (.error e) (s.withColumns table columns)) :
    Ends ((alterTableOperation table op).interrupted f.fails) (s.withColumns table columns) Q := by
  have hl : (s.withColumns table columns).catalog.tables.lookup table = some { m with columns := columns } :=
    lookup_withColumns hm
  cases op with
  | addColumn column ifNotExists =>
    unfold alterTableOperation
    rw [interrupted_bind, Ends, wp_bind]
    refine ends_tableMeta f hl ?_
    dsimp only [AlterTableOperation.effect] at hdone hfail ⊢
    by_cases hc : (columns.map (·.name)).contains column.name = true
    · rw [if_pos hc] at hdone hfail
      rw [if_pos (show (TableMeta.columnNames _).contains _ = true from hc)]
      cases ifNotExists with
      | true => exact wp_pure.mpr (hdone _ _ rfl)
      | false => exact wp_throw.mpr (hfail _ rfl)
    · rw [if_neg hc] at hdone hfail
      rw [if_neg (show ¬ (TableMeta.columnNames _).contains _ = true from hc)]
      rw [interrupted_bind, wp_bind]
      exact ends_setColumns f (wp_pure.mpr (hdone _ _ rfl))
  | dropColumn name ifExists =>
    unfold alterTableOperation
    rw [interrupted_bind, Ends, wp_bind]
    refine ends_tableMeta f hl ?_
    dsimp only [AlterTableOperation.effect] at hdone hfail ⊢
    by_cases hc : (columns.map (·.name)).contains name = true
    · rw [if_pos hc] at hdone hfail
      rw [if_pos (show (TableMeta.columnNames _).contains _ = true from hc)]
      rw [interrupted_bind, wp_bind]
      exact ends_setColumns f (wp_pure.mpr (hdone _ _ rfl))
    · rw [if_neg hc] at hdone hfail
      rw [if_neg (show ¬ (TableMeta.columnNames _).contains _ = true from hc)]
      cases ifExists with
      | true => exact wp_pure.mpr (hdone _ _ rfl)
      | false => exact wp_throw.mpr (hfail _ rfl)
  | renameColumn oldName newName =>
    unfold alterTableOperation
    rw [interrupted_bind, Ends, wp_bind]
    refine ends_tableMeta f hl ?_
    dsimp only [AlterTableOperation.effect] at hdone hfail ⊢
    by_cases hc : (columns.map (·.name)).contains oldName = true
    · rw [if_pos hc] at hdone hfail
      rw [if_pos (show (TableMeta.columnNames _).contains _ = true from hc)]
      rw [interrupted_bind, wp_bind]
      exact ends_setColumns f (wp_pure.mpr (hdone _ _ rfl))
    · rw [if_neg hc] at hdone hfail
      rw [if_neg (show ¬ (TableMeta.columnNames _).contains _ = true from hc)]
      exact wp_throw.mpr (hfail _ rfl)
  | unsupported display => exact wp_throw.mpr (hfail _ rfl)

theorem ends_alterTableOperations {Q : Except String (List String) → Db → Prop}
    (hm : s.catalog.tables.lookup table = some m) : ∀ (ops : List AlterTableOperation) (columns : List ColumnDef),
    (∀ r, (r.toBool = (alteredColumns columns ops).2) → Q r (s.withColumns table (alteredColumns columns ops).1)) →
    Ends ((alterTableOperations table ops).interrupted f.fails) (s.withColumns table columns) Q
  | [], columns, h => wp_pure.mpr (h _ rfl)
  | op :: ops, columns, h => by
    unfold alterTableOperations
    rw [interrupted_bind, Ends, wp_bind]
    refine ends_alterTableOperation f hm op (fun columns' message he => ?_) fun e he => ?_
    · unfold alteredColumns at h
      rw [he] at h
      dsimp only
      rw [interrupted_bind, wp_bind]
      refine ends_alterTableOperations hm ops columns' fun r hr => ?_
      cases r with
      | error e => exact h _ hr
      | ok messages => exact wp_pure.mpr (h _ hr)
    · unfold alteredColumns at h
      rw [he] at h
      exact h _ rfl

/-! ## The whole statement -/

/-- The table is as it was: in the catalog, under its name in DataFusion, and for queries. -/
structure AsBefore (s t : Db) (table : String) : Prop where
  catalog : t.catalog = s.catalog
  provider : t.ctx.lookup table = s.ctx.lookup table
  queryable : (t.relation table).isSome

def logFails (env : Env) (sql : String) (s : Db) : Bool :=
  !(s.replayingWal || !env.walEnabled) && (f.fails (.walAppend ⟨currentWalTxnId s, .pending, sql⟩)).isSome

/-- The statement fails before it has changed anything: at the log, at an operation up to which the columns
are as before, or at the deregistration. -/
def AlterTable.FailsCleanly (env : Env) (s : Db) (sql : String) (alter : AlterTable) (m : TableMeta) : Prop :=
  match alter.rename, alter.retention with
  | some (oldName, newName), _ => newName ∈ s.catalog.tables ∨ oldName ∉ s.catalog.tables ∨
      logFails f env s!"ALTER TABLE \"{oldName}\" RENAME TO \"{newName}\"" s = true
  | none, some _ => True
  | none, none => logFails f env sql s = true ∨
      (alteredColumns m.columns alter.operations).1 = m.columns ∧
        ((alteredColumns m.columns alter.operations).2 = true → (f.fails (.deregisterTable alter.name)).isSome)

instance (env : Env) (s : Db) (sql : String) (alter : AlterTable) (m : TableMeta) :
    Decidable (alter.FailsCleanly f env s sql m) := by
  unfold AlterTable.FailsCleanly
  split <;> infer_instance

/-- What a step before any change to the catalog leaves. -/
def TablesKept (s t : Db) : Prop := t.catalog = s.catalog ∧ t.ctx = s.ctx ∧ t.store = s.store

variable {f}

theorem ends_walAppendPending {sql : String} {Q : Except String Unit → Db → Prop}
    (hok : ∀ t, TablesKept s t → logFails f env sql s = false → Q (.ok ()) t)
    (hfail : ∀ e, logFails f env sql s = true → Q (.error e) s) :
    Ends ((walAppendPending env sql).interrupted f.fails) s Q := by
  unfold logFails at hok hfail
  unfold walAppendPending
  rw [interrupted_bind, Ends, wp_bind, interrupted_get, wp_get]
  dsimp only
  by_cases hr : (s.replayingWal || !env.walEnabled) = true
  · rw [if_pos hr]
    exact wp_pure.mpr (hok s ⟨rfl, rfl, rfl⟩ (by simp [hr]))
  · rw [if_neg hr, interrupted_emit]
    cases ho : f.fails (.walAppend ⟨currentWalTxnId s, .pending, sql⟩) with
    | none => exact wp_emit.mpr fun _ => hok _ ⟨rfl, rfl, rfl⟩ (by simp [ho])
    | some e => exact wp_throw.mpr (hfail e (by simp [ho, hr]))

theorem asBefore_of_same {t : Db} (h : TablesKept s t) {p : Provider} (hp : s.ctx.lookup table = some p) :
    AsBefore s t table := by
  obtain ⟨hc, hx, hs⟩ := h
  refine ⟨hc, by rw [hx], ?_⟩
  unfold Db.relation
  rw [hx, hp]
  rfl

theorem asBefore_withColumns {t u : Db} (h : TablesKept s t) {p : Provider} (hp : s.ctx.lookup table = some p)
    (hm : s.catalog.tables.lookup table = some m) {columns : List ColumnDef} (hu : TablesKept (t.withColumns table columns) u) :
    AsBefore s u table ↔ columns = m.columns := by
  have hmt : t.catalog.tables.lookup table = some m := by rw [h.1, hm]
  constructor
  · intro hunt
    have hl : (t.withColumns table columns).catalog.tables.lookup table = some { m with columns := columns } :=
      lookup_withColumns hmt
    rw [← hu.1, hunt.catalog, hm] at hl
    exact (congrArg TableMeta.columns (Option.some.inj hl)).symm
  · rintro rfl
    rw [withColumns_self hmt] at hu
    exact asBefore_of_same ⟨hu.1.trans h.1, hu.2.1.trans h.2.1, hu.2.2.trans h.2.2⟩ hp

theorem not_asBefore {t : Db} {p : Provider} (hp : s.ctx.lookup table = some p) (ht : t.ctx.lookup table = none) :
    ¬ AsBefore s t table := by
  intro h
  have := h.provider
  rw [ht, hp] at this
  cases this

theorem ends_catalogSave {Q : Except String Unit → Db → Prop} (h : ∀ t, TablesKept s t → Q (.ok ()) t) :
    Ends (catalogSave.interrupted f.fails) s Q := by
  unfold catalogSave
  rw [interrupted_bind, Ends, wp_bind, interrupted_get, wp_get]
  dsimp only
  by_cases htxn : s.catalogInTransaction = true
  · rw [if_pos htxn]
    exact wp_pure.mpr (h _ ⟨rfl, rfl, rfl⟩)
  · rw [if_neg htxn, interrupted_emit, f.markCatalogDirty, Option.elim_none]
    exact wp_emit.mpr fun _ => h _ ⟨rfl, rfl, rfl⟩

/-- After the operations: the deregistration may fail, and whatever fails after it comes too late. -/
theorem ends_reregister {t : Db} (h : TablesKept s t) {p : Provider} (hp : s.ctx.lookup table = some p)
    (hm : s.catalog.tables.lookup table = some m) {columns : List ColumnDef} {message : String} :
    Ends ((do
        catalogSave
        emit (.deregisterTable table)
        let m ← tableMeta table
        let schema ← check (columnsToSchema env m.columns)
        registerListingTable table schema m.path
        return QueryResult.message message : M QueryResult).interrupted f.fails) (t.withColumns table columns) fun r u =>
      ∀ e, r = .error e → (AsBefore s u table ↔
        columns = m.columns ∧ (f.fails (.deregisterTable table)).isSome) := by
  have hmt : t.catalog.tables.lookup table = some m := by rw [h.1, hm]
  rw [interrupted_bind, Ends, wp_bind]
  refine ends_catalogSave fun u hu => ?_
  dsimp only
  rw [interrupted_bind, wp_bind, interrupted_emit]
  cases hd : f.fails (.deregisterTable table) with
  | some e =>
    refine wp_throw.mpr fun _ _ => ?_
    rw [asBefore_withColumns h hp hm hu]
    simp
  | none =>
    refine wp_emit.mpr fun _ => ?_
    dsimp only
    -- nothing registers the table again when a later step fails
    rw [interrupted_bind, wp_bind]
    have hl : (apply u (Op.deregisterTable table)).catalog.tables.lookup table = some { m with columns := columns } := by
      show u.catalog.tables.lookup table = _
      rw [hu.1]
      exact lookup_withColumns hmt
    have hgone : (apply u (Op.deregisterTable table)).ctx.lookup table = none := AList.lookup_erase _ _
    refine ends_tableMeta f hl ?_
    dsimp only
    rw [interrupted_bind, wp_bind, interrupted_check, wp_check]
    cases columnsToSchema env columns with
    | error e => exact fun _ _ => iff_of_false (not_asBefore hp hgone) (by simp)
    | ok schema =>
      dsimp only [registerListingTable]
      rw [interrupted_bind, wp_bind, interrupted_emit]
      cases f.fails (.registerTable table ⟨objPath m.path, schema⟩) with
      | some e => exact wp_throw.mpr fun _ _ => iff_of_false (not_asBefore hp hgone) (by simp)
      | none => exact wp_emit.mpr fun _ => wp_pure.mpr nofun

theorem ends_handleRenameTable {oldName newName : String} {p : Provider} (hp : s.ctx.lookup table = some p) :
    Ends ((handleRenameTable env oldName newName).interrupted f.fails) s fun r u => ∀ e, r = .error e →
      (AsBefore s u table ↔ newName ∈ s.catalog.tables ∨ oldName ∉ s.catalog.tables ∨
        logFails f env s!"ALTER TABLE \"{oldName}\" RENAME TO \"{newName}\"" s = true) := by
  have hself : AsBefore s s table := asBefore_of_same ⟨rfl, rfl, rfl⟩ hp
  unfold handleRenameTable
  rw [interrupted_bind, Ends, wp_bind, interrupted_get, wp_get]
  dsimp only
  by_cases hsame : oldName = newName
  · rw [if_pos hsame]
    exact wp_pure.mpr nofun
  rw [if_neg hsame]
  by_cases hnew : (s.catalog.tables.lookup newName).isSome = true
  · rw [if_pos hnew]
    exact wp_throw.mpr fun _ _ => iff_of_true hself (.inl (AList.lookup_isSome.mp hnew))
  rw [if_neg hnew, interrupted_bind, wp_bind]
  have hfree : newName ∉ s.catalog.tables := fun h => hnew (AList.lookup_isSome.mpr h)
  refine ends_walAppendPending (fun t ht hlog => ?_) fun e hlog => ?_
  · dsimp only
    rw [interrupted_bind, wp_bind]
    cases hold : s.catalog.tables.lookup oldName with
    | none =>
      have hgone : oldName ∉ s.catalog.tables := AList.lookup_eq_none.mp hold
      rw [interrupted_readOnly (readOnly_tableMeta oldName)]
      unfold tableMeta
      rw [wp_bind, wp_get]
      dsimp only
      rw [ht.1, hold]
      exact wp_throw.mpr fun _ _ => iff_of_true (asBefore_of_same ht hp) (.inr (.inl hgone))
    | some m' =>
      refine ends_tableMeta f (ht.1 ▸ hold) ?_
      dsimp only
      -- from here on the catalog has a table under the new name
      have hlate : ∀ u : Db, u.catalog = t.catalog.renameTable oldName newName m' → ¬ AsBefore s u table := by
        intro u hu hunt
        have hin : u.catalog.tables.lookup newName = some { m' with name := newName } := by
          rw [hu]
          exact AList.lookup_insert _
        rw [hunt.catalog] at hin
        exact hfree (AList.lookup_isSome.mp (by rw [hin]; rfl))
      have hcond : ¬ (newName ∈ s.catalog.tables ∨ oldName ∉ s.catalog.tables ∨
          logFails f env s!"ALTER TABLE \"{oldName}\" RENAME TO \"{newName}\"" s = true) := by
        rintro (h | h | h)
        · exact hfree h
        · exact h (AList.lookup_isSome.mp (by rw [hold]; rfl))
        · rw [hlog] at h
          cases h
      have hrest : ∀ u : Db, u.catalog = t.catalog.renameTable oldName newName m' → ∀ e : String,
          (.error e : Except String QueryResult) = .error e → (AsBefore s u table ↔ newName ∈ s.catalog.tables ∨
            oldName ∉ s.catalog.tables ∨ logFails f env s!"ALTER TABLE \"{oldName}\" RENAME TO \"{newName}\"" s = true) :=
        fun u hu _ _ => iff_of_false (hlate u hu) hcond
      unfold modifyCatalog
      rw [interrupted_bind, wp_bind, interrupted_bind, wp_bind, interrupted_get, wp_get]
      dsimp only
      rw [interrupted_emit, f.setCatalog, Option.elim_none, wp_emit]
      intro _
      dsimp only
      rw [interrupted_bind, wp_bind]
      refine ends_catalogSave fun u hu => ?_
      dsimp only
      rw [interrupted_bind, wp_bind, interrupted_emit]
      cases f.fails (.deregisterTable oldName) with
      | some e => exact wp_throw.mpr fun e' _ => hrest u hu.1 e' rfl
      | none =>
        refine wp_emit.mpr fun _ => ?_
        dsimp only
        rw [interrupted_bind, wp_bind, interrupted_check, wp_check]
        cases columnsToSchema env m'.columns with
        | error e => exact fun e' _ => hrest _ hu.1 e' rfl
        | ok schema =>
          dsimp only [registerListingTable]
          rw [interrupted_bind, wp_bind, interrupted_emit]
          cases f.fails (.registerTable newName ⟨objPath m'.path, schema⟩) with
          | some e => exact wp_throw.mpr fun e' _ => hrest _ hu.1 e' rfl
          | none => exact wp_emit.mpr fun _ => wp_pure.mpr nofun
  · exact fun _ _ => iff_of_true hself (.inr (.inr hlog))

/-- A failed statement leaves the table alone if and only if it fails cleanly. -/
theorem asBefore_iff_failsCleanly (f : Failing) {sql : String} {alter : AlterTable} {m : TableMeta} {p : Provider} {e : String}
    (hm : s.catalog.tables.lookup alter.name = some m) (hp : s.ctx.lookup alter.name = some p)
    (he : ((handleAlterTable env sql alter).interrupted f.fails).result s = .error e) :
    AsBefore s (((handleAlterTable env sql alter).interrupted f.fails).final s) alter.name ↔
      alter.FailsCleanly f env s sql m := by
  suffices h : Ends ((handleAlterTable env sql alter).interrupted f.fails) s fun r u => ∀ e, r = .error e →
      (AsBefore s u alter.name ↔ alter.FailsCleanly f env s sql m) from ends_iff.mp h e he
  have hself : AsBefore s s alter.name := asBefore_of_same ⟨rfl, rfl, rfl⟩ hp
  unfold handleAlterTable AlterTable.FailsCleanly
  rw [interrupted_bind, Ends, wp_bind, interrupted_get, wp_get]
  dsimp only
  rw [hm]
  cases alter.rename with
  | some names => exact ends_handleRenameTable hp
  | none =>
    cases alter.retention with
    | some retention =>
      dsimp only
      rw [if_neg (by simp), interrupted_bind, wp_bind]
      refine ends_walAppendPending (fun t ht hlog => ?_) fun e hlog => fun _ _ => iff_of_true hself trivial
      dsimp only
      unfold modifyCatalog
      rw [interrupted_bind, wp_bind, interrupted_bind, wp_bind, interrupted_get, wp_get]
      dsimp only
      rw [interrupted_emit, f.setCatalog, Option.elim_none, wp_emit]
      intro _
      dsimp only
      rw [interrupted_bind, wp_bind]
      exact ends_catalogSave fun u hu => wp_pure.mpr nofun
    | none =>
      dsimp only
      rw [if_neg (by simp), interrupted_bind, wp_bind]
      refine ends_walAppendPending (fun t ht hlog => ?_) fun e hlog => fun _ _ => iff_of_true hself (.inl hlog)
      have hmt : t.catalog.tables.lookup alter.name = some m := by rw [ht.1, hm]
      dsimp only
      rw [interrupted_bind, wp_bind, ← withColumns_self hmt, hlog]
      refine ends_alterTableOperations f hmt alter.operations m.columns fun r hr => ?_
      cases r with
      | error e =>
        refine fun _ _ => ?_
        rw [asBefore_withColumns ht hp hm ⟨rfl, rfl, rfl⟩, ← hr]
        simp [Except.toBool]
      | ok messages =>
        dsimp only
        refine wp_mono (fun r u hu e he => ?_) (ends_reregister ht hp hm)
        rw [hu e he, ← hr]
        simp [Except.toBool]

/-- An operation that cannot be done fails the statement. -/
theorem result_of_undone (f : Failing) {sql : String} {alter : AlterTable} {m : TableMeta}
    (hm : s.catalog.tables.lookup alter.name = some m) (hr : alter.rename = none) (ht : alter.retention = none)
    (hu : (alteredColumns m.columns alter.operations).2 = false) :
    (((handleAlterTable env sql alter).interrupted f.fails).result s).toBool = false := by
  suffices h : Ends ((handleAlterTable env sql alter).interrupted f.fails) s fun r _ => r.toBool = false from ends_iff.mp h
  unfold handleAlterTable
  rw [interrupted_bind, Ends, wp_bind, interrupted_get, wp_get]
  dsimp only
  rw [hm, hr, ht, if_neg (by simp), interrupted_bind, wp_bind]
  refine ends_walAppendPending (fun t ht hlog => ?_) fun e hlog => rfl
  have hmt : t.catalog.tables.lookup alter.name = some m := by rw [ht.1, hm]
  dsimp only
  rw [interrupted_bind, wp_bind, ← withColumns_self hmt]
  refine ends_alterTableOperations f hmt alter.operations m.columns fun r hr => ?_
  cases r with
  | error e => rfl
  | ok messages => cases hr.trans hu

theorem missing_table (f : Failing) {sql : String} {alter : AlterTable} (hm : s.catalog.tables.lookup alter.name = none) :
    ((handleAlterTable env sql alter).interrupted f.fails).final s = s := by
  suffices h : Ends ((handleAlterTable env sql alter).interrupted f.fails) s fun _ u => u = s from ends_iff.mp h
  unfold handleAlterTable
  rw [interrupted_bind, Ends, wp_bind, interrupted_get, wp_get]
  dsimp only
  rw [hm, if_pos Option.isNone_none]
  by_cases he : alter.ifExists = true
  · rw [if_pos he]
    exact wp_pure.mpr rfl
  · rw [if_neg he]
    exact wp_throw.mpr rfl

/-- **When a failed ALTER TABLE leaves the table as it was**, whatever step fails: an operation that cannot be done
fails the statement, and the failed statement leaves the table alone if and only if it fails cleanly. -/
theorem alter_atomic_iff (f : Failing) (env : Env) (s : Db) (sql : String) (alter : AlterTable) :
    (s.catalog.tables.lookup alter.name = none →
      ((handleAlterTable env sql alter).interrupted f.fails).final s = s) ∧
    (∀ m p, s.catalog.tables.lookup alter.name = some m → s.ctx.lookup alter.name = some p →
      (alter.rename = none → alter.retention = none → (alteredColumns m.columns alter.operations).2 = false →
        (((handleAlterTable env sql alter).interrupted f.fails).result s).toBool = false) ∧
      ∀ e, ((handleAlterTable env sql alter).interrupted f.fails).result s = .error e →
        (AsBefore s (((handleAlterTable env sql alter).interrupted f.fails).final s) alter.name ↔
          alter.FailsCleanly f env s sql m)) :=
  ⟨missing_table f, fun _ _ hm hp => ⟨result_of_undone f hm, fun _ he => asBefore_iff_failsCleanly f hm hp he⟩⟩

end

/-! ## Statements that fail halfway -/

def Failing.never : Failing := ⟨fun _ => none, fun _ => rfl, rfl⟩

/-- A table `t` with one column. -/
def oneColumnDb : Db := { Db.new with
  catalog := CatalogData.empty.addTable ⟨"t", [⟨"a", "INT", true⟩], "t", [], none, none, [], []⟩
  ctx := AList.singleton "t" ⟨["t"], [⟨"a", "INT", true⟩]⟩ }

/-- Of the types only INT is known. -/
def intEnv : Env := { Env.plain with
  sqlStringToArrow := fun t => if t = "INT" then .ok t else .error s!"Unsupported SQL type: {t}" }

def alterT (operations : List AlterTableOperation) : AlterTable := ⟨"t", operations, false, none, none⟩

/-- The first operation fails. -/
theorem first_operation_fails :
    AsBefore oneColumnDb (((handleAlterTable intEnv "" (alterT [.addColumn ⟨"a", "INT", true⟩ false])).interrupted
      Failing.never.fails).final oneColumnDb) "t" :=
  ((alter_atomic_iff .never intEnv oneColumnDb "" (alterT [.addColumn ⟨"a", "INT", true⟩ false])).2
    ⟨"t", [⟨"a", "INT", true⟩], "t", [], none, none, [], []⟩ ⟨["t"], [⟨"a", "INT", true⟩]⟩ (by decide +kernel)
    (by decide +kernel)).2 "Column 'a' already exists in 't'" (by decide +kernel) |>.mpr (by decide +kernel)

/-- `ALTER TABLE t ADD COLUMN b INT, ADD COLUMN a INT` leaves `b` behind, and `ALTER TABLE t ADD COLUMN b XML` leaves a table
that DataFusion does not have. -/
theorem altered_halfway :
    ((handleAlterTable intEnv "" (alterT [.addColumn ⟨"b", "INT", true⟩ false, .addColumn ⟨"a", "INT", true⟩ false])).result
        oneColumnDb = .error "Column 'a' already exists in 't'" ∧
      ¬ AsBefore oneColumnDb ((handleAlterTable intEnv ""
        (alterT [.addColumn ⟨"b", "INT", true⟩ false, .addColumn ⟨"a", "INT", true⟩ false])).final oneColumnDb) "t") ∧
    (handleAlterTable intEnv "" (alterT [.addColumn ⟨"b", "XML", true⟩ false])).result oneColumnDb =
        .error "Unsupported SQL type: XML" ∧
      ¬ AsBefore oneColumnDb ((handleAlterTable intEnv "" (alterT [.addColumn ⟨"b", "XML", true⟩ false])).final oneColumnDb)
        "t" :=
  ⟨⟨by decide +kernel, fun h => absurd h.catalog (by decide +kernel)⟩, by decide +kernel,
    fun h => absurd h.queryable (by decide +kernel)⟩

end PotatoDB
