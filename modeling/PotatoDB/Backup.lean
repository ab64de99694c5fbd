import PotatoDB.Execute
import PotatoDB.RestoreSound

/-!
# Backups

A backup takes the files of the data directory as they are. A restore puts them back under a running engine, whatever it has
done in the meantime, and loads the catalog and the tables from them.
-/

namespace PotatoDB

open Oplog Oplog.Prog

section
variable (env : Env)

/-- `PotatoDB::backup`, with what the archive has. -/
def backup : M (Store × Option CatalogData) := do
  if !env.isLocalDisk then
    throw ("Backup is only supported for local data directories. For S3, recovery uses WAL replay on startup; " ++
      "in-memory data is not archived.")
  else
    let db ← get
    return (db.store, db.catalogDoc)

variable {env}

/-! ## Registering -/

/-- Tables are taken out of the engine. -/
theorem yields_deregister {R : Unit → Db → Prop} (names : List String) : ∀ s : Db,
    (∀ ctx, (∀ n ∈ names, AList.lookup n ctx = none) → (∀ n, n ∉ names → AList.lookup n ctx = s.ctx.lookup n) → R () { s with ctx := ctx }) →
    Yields (each (fun t => emit (.deregisterTable t)) names : M Unit) s R := by
  induction names with
  | nil =>
    intro s h
    simpa [each] using h s.ctx (by simp) fun _ _ => rfl
  | cons name names ih =>
    intro s h
    rw [each, yields_bind, yields_emit]
    refine ih _ fun ctx hgone hkept => h ctx ?_ ?_
    · intro n hn
      obtain rfl | hn := List.mem_cons.mp hn
      · by_cases hin : n ∈ names
        · exact hgone n hin
        · rw [hkept n hin]
          exact AList.lookup_erase n s.ctx
      · exact hgone n hn
    · intro n hn
      rw [List.mem_cons, not_or] at hn
      rw [hkept n hn.2]
      exact AList.lookup_erase_ne hn.1

/-- The tables of a catalog are registered under their names, with their columns and directories, and no other name is. -/
structure RegistersFrom (env : Env) (c : CatalogData) (before ctx : Map Provider) : Prop where
  tables : ∀ t m, c.tables.lookup t = some m → ∃ schema, columnsToSchema env m.columns = .ok schema ∧
    ctx.lookup t = some ⟨objPath m.path, schema⟩
  others : ∀ t, t ∉ c.tables → ctx.lookup t = before.lookup t

/-- Each table of the catalog is under its own name. -/
def CatalogData.Named (c : CatalogData) : Prop := ∀ t m, c.tables.lookup t = some m → m.name = t

theorem yields_reload {s : Db} {R : Unit → Db → Prop} (hname : s.catalog.Named)
    (h : ∀ ctx, RegistersFrom env s.catalog s.ctx ctx → R () { s with ctx := ctx }) : Yields (reloadTables env) s R := by
  have hkept : Yields (reloadTables env) s fun _ t => ∀ n, n ∉ s.catalog.tables → t.ctx.lookup n = s.ctx.lookup n := by
    unfold reloadTables
    simp only [yields_bind, yields_get, yields_check]
    intro specs hspecs
    have hnames : specs.map (·.1) = s.catalog.tables.keys := by
      rw [spec_names (mapM_ok_iff.mp hspecs), Map.values_map_keys hname]
    have hnodup : (specs.map (·.1)).Nodup := hnames ▸ s.catalog.tables.keys_nodup
    refine yields_register specs s hnodup fun ctx _ hout n hn => hout n ?_
    rw [hnames]
    exact fun hin => hn (AList.mem_keys.mpr hin)
  have htables : Yields (reloadTables env) s fun _ t => ∃ ctx, t = { s with ctx := ctx } ∧ ∀ n m, s.catalog.tables.lookup n = some m →
      ∃ schema, columnsToSchema env m.columns = .ok schema ∧ AList.lookup n ctx = some ⟨objPath m.path, schema⟩ :=
    yields_reloadTables hname fun ctx hctx => ⟨ctx, rfl, hctx⟩
  intro a ha
  obtain ⟨ctx, hfinal, hctx⟩ := htables a ha
  have hothers := hkept a ha
  rw [hfinal] at hothers ⊢
  exact h ctx ⟨hctx, hothers⟩

/-! ## Restoring -/

/-- The tables that the archive has, as they read from its files. -/
def ReadsArchive (env : Env) (s t : Db) : Prop :=
  ∀ n m, (s.catalogDoc.getD .empty).tables.lookup n = some m → ∃ schema, columnsToSchema env m.columns = .ok schema ∧
    t.relation n = some ⟨schema, s.store.read (objPath m.path) (schema.map (·.name))⟩

theorem RegistersFrom.reads {s t : Db} {before : Map Provider} (h : RegistersFrom env (s.catalogDoc.getD .empty) before t.ctx)
    (hstore : t.store = s.store) : ReadsArchive env s t := by
  intro n m hm
  obtain ⟨schema, hschema, hlookup⟩ := h.tables n m hm
  refine ⟨schema, hschema, ?_⟩
  unfold Db.relation
  rw [hlookup, hstore]
  rfl

theorem yields_backup {s : Db} : Yields (backup env) s fun archive _ => archive = (s.store, s.catalogDoc) := by
  unfold backup
  split
  · exact yields_throw
  · simp only [yields_bind, yields_get, yields_pure]

/-- What a restore leaves of the engine that it runs in. -/
structure BroughtBack (env : Env) (s before t : Db) : Prop where
  files : t.store = s.store ∧ t.catalogDoc = s.catalogDoc
  catalog : t.catalog = s.catalogDoc.getD .empty
  reads : ReadsArchive env s t
  /-- The tables that came later are gone. -/
  gone : ∀ n ∈ before.catalog.tables, n ∉ t.catalog.tables → t.relation n = none
  /-- The rows that wait for a file, the keys that are known and the transaction are those of before. -/
  kept : t.writeBuffer = before.writeBuffer ∧ t.uniquenessCache = before.uniquenessCache ∧ t.activeTxn = before.activeTxn

theorem yields_restoreArchive {s before : Db} (hname : (s.catalogDoc.getD .empty).Named) :
    Yields (restoreArchive env s.store s.catalogDoc) before fun _ t => BroughtBack env s before t := by
  unfold restoreArchive
  split
  · exact yields_throw
  · simp only [yields_bind, yields_get]
    refine yields_deregister _ _ fun ctx hgone _ => ?_
    simp only [yields_emit]
    refine yields_reload hname fun ctx' hctx => ?_
    refine ⟨⟨rfl, rfl⟩, rfl, hctx.reads rfl, ?_, rfl, rfl, rfl⟩
    intro n hn hout
    have hnone : AList.lookup n ctx' = none := (hctx.others n hout).trans (hgone n (AList.mem_keys.mp hn))
    unfold Db.relation
    exact congrArg (Option.map _) hnone

/-- A process that opens the directory of the archive reads the same, if there is no log to replay. -/
theorem yields_openDb {s : Db} (hname : (s.catalogDoc.getD .empty).Named) (hwal : s.walLog = []) (harrow : s.arrowLog.keys = []) (fuel : Nat) :
    Yields (openDb env fuel) s.restart fun _ t => t.catalog = s.catalogDoc.getD .empty ∧ ReadsArchive env s t := by
  unfold openDb
  rw [yields_bind]
  refine yields_reload hname fun ctx hctx => ?_
  have hread : ReadsArchive env s { s.restart with ctx := ctx } := hctx.reads rfl
  have hreplay : replayEntries s.walLog = [] := by
    rw [hwal]
    rfl
  rw [yields_bind, yields_get]
  have harrow' : s.restart.arrowLog.keys = [] := harrow
  have hreplay' : replayEntries s.restart.walLog = [] := hreplay
  dsimp only
  by_cases hlog : env.walEnabled = true
  · rw [if_pos hlog, if_pos harrow', if_pos hreplay', yields_pure]
    exact ⟨rfl, hread⟩
  · rw [if_neg hlog, yields_pure]
    exact ⟨rfl, hread⟩

end

/-- A table with a row, on disk only. -/
def savedDb : Db := { Db.new with
  store := [(⟨objPath "t", 0⟩, ⟨["a"], [[.bool true]], 0⟩)]
  nextFile := 1
  catalogDoc := some (CatalogData.empty.addTable ⟨"t", [⟨"a", "BOOLEAN", true⟩], "t", [], none, none, [], []⟩) }

theorem savedDb_named : (savedDb.catalogDoc.getD .empty).Named := by
  intro t m hm
  have hentry : ∀ p ∈ (savedDb.catalogDoc.getD .empty).tables.entries, p.2.name = p.1 := by decide
  exact hentry ⟨t, m⟩ (List.of_mem_dlookup hm)

end PotatoDB
