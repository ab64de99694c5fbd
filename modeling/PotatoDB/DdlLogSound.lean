import PotatoDB.CatalogFrames
import PotatoDB.DdlLog

/-!
# What the logged text of a definition does

A handler that logs the text it was given replays. One that puts the name between quotes logs the
name of another object.
-/

namespace PotatoDB

open Oplog Oplog.Prog
open Machine (apply)

/-- The same objects under every name. -/
structure CatalogData.Same (c c' : CatalogData) : Prop where
  tables : ∀ k, c'.tables.lookup k = c.tables.lookup k
  indexes : ∀ k, c'.indexes.lookup k = c.indexes.lookup k
  views : ∀ k, c'.views.lookup k = c.views.lookup k
  sequences : ∀ k, c'.sequences.lookup k = c.sequences.lookup k
  udfs : ∀ k, c'.udfs.lookup k = c.udfs.lookup k
  rest : { c' with tables := ∅, indexes := ∅, views := ∅, sequences := ∅, udfs := ∅ } =
    { c with tables := ∅, indexes := ∅, views := ∅, sequences := ∅, udfs := ∅ }

theorem CatalogData.Same.refl (c : CatalogData) : c.Same c :=
  ⟨fun _ => rfl, fun _ => rfl, fun _ => rfl, fun _ => rfl, fun _ => rfl, rfl⟩

/-- Executing what the statement logged succeeds, on the state before it, with the catalog after it. -/
structure Replays (env : Env) (reads : String → Option DdlStatement) (s : Db) (stmt : DdlStatement) : Prop where
  succeeds : Succeeds (replayTexts env reads (loggedTexts ((stmt.run env).ops s))) s
  catalog : ((stmt.run env).final s).catalog.Same
    ((replayTexts env reads (loggedTexts ((stmt.run env).ops s))).final s).catalog

/-- The statement logs nothing, or a text that stands for itself. -/
def DdlStatement.LogsItself (c : CatalogData) : DdlStatement → Prop
  | createTable _ | createIndex _ | createFunction .. | dropFunction .. => True
  | createView create => create.materialized = false ∧ create.orReplace = true ∧ wellQuoted create.name.toList ∧
      c.views.lookup create.name = some ⟨create.name, create.query, false, none⟩ ∧
      c.views.lookup (quoted create.name) = some ⟨quoted create.name, create.query, false, none⟩
  | createSequence name _ _ => c.sequences.lookup name ≠ none
  | dropTable name _ => c.tables.lookup name = none
  | dropIndex name _ => c.indexes.lookup name = none
  | dropView name _ => c.views.lookup name = none
  | dropSequence name _ => c.sequences.lookup name = none
  | alterTable _ alter =>
    match alter.rename with
    | none => True
    | some (oldName, newName) => c.tables.lookup alter.name = none ∨ oldName = newName ∨
      wellQuoted oldName.toList ∧ wellQuoted newName.toList ∧ renamedNames oldName newName = (oldName, newName) ∧
        c.tables.lookup (quoted oldName) ≠ none

/-! ## The log -/

/-- Not an entry of the SQL log, nor the start of its replay. -/
def Op.Silent : Op → Prop
  | walAppend _ | setReplayingWal _ => False
  | _ => True

theorem Op.Writing.silent {o : Op} (h : o.Writing) : o.Silent := by
  cases o with
  | walAppend entry => exact h.elim
  | setReplayingWal replaying => exact h.elim
  | _ => trivial

section
variable {α : Type} {env : Env} {s : Db} {reads : String → Option DdlStatement}

theorem silent_of_writing {p : M α} (h : Emits Op.Writing p) : Emits Op.Silent p := h.mono fun _ h => h.silent

theorem loggedTexts_silent {p : M α} (h : Emits Op.Silent p) (s : Db) : loggedTexts (p.ops s) = [] := by
  refine List.filterMap_eq_nil_iff.mpr fun o ho => ?_
  have := h s o ho
  cases o with
  | walAppend entry => exact this.elim
  | _ => rfl

theorem ops_get_bind (f : Db → M α) : (Prog.get >>= f).ops s = (f s).ops s := by
  rw [ops_bind]
  rfl

theorem loggedTexts_append (os ps : List Op) : loggedTexts (os ++ ps) = loggedTexts os ++ loggedTexts ps :=
  List.filterMap_append

theorem loggedTexts_bind {β : Type} {p : M α} {f : α → M β} {a : α} (h : p.result s = .ok a) :
    loggedTexts ((p >>= f).ops s) = loggedTexts (p.ops s) ++ loggedTexts ((f a).ops (p.final s)) := by
  rw [ops_bind, h]
  exact loggedTexts_append _ _

/-- The log is on, and the engine is not replaying it. -/
structure Logging (env : Env) (s : Db) : Prop where
  enabled : env.walEnabled = true
  live : s.replayingWal = false

/-- With the log on, a handler that appends a text goes on from the state with the entry. -/
theorem Logging.append (h : Logging env s) (sql : String) (p : Unit → M α) :
    (walAppendPending env sql >>= p).result s = (p ()).result (s.pending sql) ∧
    (walAppendPending env sql >>= p).final s = (p ()).final (s.pending sql) ∧
    loggedTexts ((walAppendPending env sql >>= p).ops s) = sql :: loggedTexts ((p ()).ops (s.pending sql)) := by
  have happend : (walAppendPending env sql : M Unit) s =
      (.ok (), [.walAppend ⟨currentWalTxnId s, .pending, sql⟩]) := by
    rw [walAppendPending_eq, h.enabled, h.live]
    rfl
  have hr : (walAppendPending env sql : M Unit).result s = .ok () := congrArg Prod.fst happend
  have ho : (walAppendPending env sql : M Unit).ops s = [.walAppend ⟨currentWalTxnId s, .pending, sql⟩] :=
    congrArg Prod.snd happend
  have hf : (walAppendPending env sql : M Unit).final s = s.pending sql := by
    rw [Prog.final, ho]
    rfl
  refine ⟨?_, ?_, ?_⟩
  · rw [result_bind, hr, hf]
  · rw [final_bind, hr, hf]
  · rw [loggedTexts_bind hr, ho, hf]
    rfl

/-! ## Executing logged texts -/

theorem not_succeeds_replay {text : String} (h : reads text = none) (texts : List String) :
    ¬ Succeeds (replayTexts env reads (text :: texts)) s := by
  unfold replayTexts
  rw [each, h, succeeds_bind]
  rintro ⟨_, hr, -⟩
  cases hr

theorem replayTexts_cons (env : Env) (s : Db) {text : String} {stmt : DdlStatement} (h : reads text = some stmt) (texts : List String) :
    (Succeeds (replayTexts env reads (text :: texts)) s ↔
      Succeeds (stmt.run env) s ∧ Succeeds (replayTexts env reads texts) ((stmt.run env).final s)) ∧
    (Succeeds (stmt.run env) s → (replayTexts env reads (text :: texts)).final s =
      (replayTexts env reads texts).final ((stmt.run env).final s)) := by
  have heq : replayTexts env reads (text :: texts) = (stmt.run env >>= fun _ => replayTexts env reads texts) := by
    unfold replayTexts
    rw [each, h]
    dsimp only
    rw [bind_bind]
    rfl
  rw [heq]
  refine ⟨?_, ?_⟩
  · rw [succeeds_bind]
    constructor
    · rintro ⟨a, ha, hrest⟩
      exact ⟨⟨a, ha⟩, hrest⟩
    · rintro ⟨⟨a, ha⟩, hrest⟩
      exact ⟨a, ha, hrest⟩
  · rintro ⟨a, ha⟩
    rw [final_bind, ha]

theorem replayTexts_nil : Succeeds (replayTexts env reads []) s ∧ (replayTexts env reads []).final s = s := ⟨⟨(), rfl⟩, rfl⟩

/-- A statement whose text is read as one that runs alike. -/
theorem replays_alike {stmt other : DdlStatement} {text : String} (h : reads text = some other)
    (hrun : (other.run env) s = (stmt.run env) s) (hs : Succeeds (stmt.run env) s)
    (ho : loggedTexts ((stmt.run env).ops s) = [text]) : Replays env reads s stmt := by
  obtain ⟨hsucc, hfinal⟩ := replayTexts_cons env s h []
  have hs' : Succeeds (other.run env) s := by rwa [Succeeds, Prog.result, hrun]
  constructor
  · rw [ho]
    exact hsucc.mpr ⟨hs', replayTexts_nil.1⟩
  · rw [ho, hfinal hs', replayTexts_nil.2, Prog.final, Prog.final, Prog.ops, Prog.ops, hrun]
    exact .refl _

theorem replays_nothing {stmt : DdlStatement} (ho : (stmt.run env).ops s = []) : Replays env reads s stmt := by
  constructor
  · rw [ho]
    exact replayTexts_nil.1
  · rw [Prog.final, ho]
    exact .refl _

/-- The first text of a statement that replays is read as a statement that succeeds. -/
theorem Replays.first {stmt : DdlStatement} (h : Replays env reads s stmt) {text : String} {texts : List String}
    (ho : loggedTexts ((stmt.run env).ops s) = text :: texts) :
    ∃ other, reads text = some other ∧ Succeeds (other.run env) s ∧ ((stmt.run env).final s).catalog.Same
      ((replayTexts env reads texts).final ((other.run env).final s)).catalog := by
  obtain ⟨hsucc, hcat⟩ := h
  rw [ho] at hsucc hcat
  cases hread : reads text with
  | none => exact absurd hsucc (not_succeeds_replay hread texts)
  | some other =>
    obtain ⟨hiff, hfinal⟩ := replayTexts_cons env s hread texts
    have hone := (hiff.mp hsucc).1
    rw [hfinal hone] at hcat
    exact ⟨other, rfl, hone, hcat⟩

theorem Replays.read {stmt : DdlStatement} (h : Replays env reads s stmt) {text : String} {texts : List String} {name : String}
    {other : DdlStatement} (ho : loggedTexts ((stmt.run env).ops s) = text :: texts)
    (hread : reads text = ifWellQuoted name other) :
    wellQuoted name.toList = true ∧ Succeeds (other.run env) s ∧ ((stmt.run env).final s).catalog.Same
      ((replayTexts env reads texts).final ((other.run env).final s)).catalog := by
  obtain ⟨other', hread', hrest⟩ := h.first ho
  rw [hread, ifWellQuoted] at hread'
  split at hread'
  · rename_i hw
    obtain rfl := Option.some.inj hread'
    exact ⟨hw, hrest⟩
  · cases hread'

theorem quoted_ne (name : String) : quoted name ≠ name := by
  intro h
  have := congrArg (fun n => n.toList.length) h
  simp [quoted] at this
  omega

/-! ## Statements that log their own text -/

theorem silent_handleCtas (table query : String) (partitionColumns : List String) :
    Emits Op.Silent (handleCtas env table query partitionColumns) := by
  have hsave : ∀ f : CatalogData → CatalogData, Emits Op.Silent (do
      modifyCatalog f
      catalogSave
      refreshTableFileStats env table
      return .message s!"Table '{table}' created." : M QueryResult) :=
    fun f => silent_of_writing ((writing_modifyCatalog f).bind fun _ => writing_catalogSave.bind fun _ =>
      (writing_refreshTableFileStats _).bind fun _ => emits_pure _)
  unfold handleCtas
  refine (readOnly_runQuery _).emits.bind fun r => (emits_check _).bind fun schema => ?_
  refine Emits.bind (emits_emit trivial) fun _ => ?_
  dsimp only
  split
  · refine (emits_check _).bind fun _ => ?_
    exact (silent_of_writing (writing_insertInto _ _ _)).bind fun _ => hsave _
  · exact hsave _

theorem Logging.logged_one (h : Logging env s) (sql : String) {p : Unit → M α} (hp : Emits Op.Silent (p ())) :
    loggedTexts ((walAppendPending env sql >>= p).ops s) = [sql] := by
  rw [(h.append sql p).2.2, loggedTexts_silent hp]

theorem ops_bind_readOnly {β : Type} {p : M α} (hp : ReadOnly p) {f : α → M β} :
    (p >>= f).ops s = [] ∨ ∃ a, p.result s = .ok a ∧ (p >>= f).ops s = (f a).ops s := by
  rw [ops_bind, hp s, hp.final]
  cases p.result s with
  | error e => exact .inl rfl
  | ok a => exact .inr ⟨a, rfl, rfl⟩

theorem logged_handleCreateTable (h : Logging env s) (create : CreateTable) :
    (handleCreateTable env create).ops s = [] ∨
      loggedTexts ((handleCreateTable env create).ops s) = [create.display] := by
  unfold handleCreateTable
  rw [ops_get_bind]
  dsimp only
  split
  · left
    split <;> rfl
  · right
    refine h.logged_one _ ?_
    split
    · exact silent_handleCtas _ _ _
    · split
      · exact emits_throw _
      · refine (emits_check _).bind fun schema => Emits.bind (emits_emit trivial) fun _ => ?_
        exact silent_of_writing ((writing_modifyCatalog _).bind fun _ => writing_catalogSave.bind fun _ =>
          (writing_refreshTableFileStats _).bind fun _ => emits_pure _)

theorem silent_backupTableForTxn (table : String) : Emits Op.Silent (backupTableForTxn table) := by
  unfold backupTableForTxn
  refine emits_get.bind fun db => ?_
  split
  · exact emits_pure _
  · split
    · exact emits_pure _
    · exact readOnly_selectStar.emits.bind fun _ => emits_emit trivial

theorem logged_handleCreateIndex (h : Logging env s) (create : CreateIndex) :
    (handleCreateIndex env create).ops s = [] ∨
      loggedTexts ((handleCreateIndex env create).ops s) = [create.display] := by
  unfold handleCreateIndex
  split
  · exact .inl rfl
  · rename_i name _
    rw [ops_get_bind]
    dsimp only
    split
    · left
      split <;> rfl
    · rcases ops_bind_readOnly (readOnly_tableMeta create.tableName) with ho | ⟨m, -, ho⟩
      · exact .inl ho
      · rw [ho]
        split
        · exact .inl rfl
        · split
          · exact .inl rfl
          · right
            refine h.logged_one _ ?_
            refine (silent_backupTableForTxn _).bind fun _ => (readOnly_selectOrdered _ _).emits.bind fun sorted => ?_
            refine Emits.bind (emits_emit trivial) fun _ => (silent_of_writing (writing_deleteParquetFiles _)).bind fun _ => ?_
            refine (silent_of_writing (writing_modifyCatalog _)).bind fun _ => (silent_of_writing writing_catalogSave).bind fun _ => ?_
            refine (emits_check _).bind fun schema => Emits.bind (emits_emit trivial) fun _ => ?_
            split
            · exact (emits_check _).bind fun _ => (silent_of_writing (writing_insertInto _ _ _)).bind fun _ => emits_pure _
            · exact emits_pure _

theorem silent_alterTableOperation (table : String) (op : AlterTableOperation) :
    Emits Op.Silent (alterTableOperation table op) := by
  have hset : ∀ (columns : List ColumnDef) (message : String), Emits Op.Silent (do
      setColumns table columns
      return message : M String) :=
    fun columns message => (silent_of_writing (writing_modifyCatalog _)).bind fun _ => emits_pure _
  cases op with
  | addColumn column ifNotExists =>
    refine (readOnly_tableMeta table).emits.bind fun m => ?_
    split
    · split
      · exact emits_pure _
      · exact emits_throw _
    · exact hset _ _
  | dropColumn name ifExists =>
    refine (readOnly_tableMeta table).emits.bind fun m => ?_
    split
    · exact hset _ _
    · split
      · exact emits_pure _
      · exact emits_throw _
  | renameColumn oldName newName =>
    refine (readOnly_tableMeta table).emits.bind fun m => ?_
    split
    · exact hset _ _
    · exact emits_throw _
  | unsupported display => exact emits_throw _

theorem silent_alterTableOperations (table : String) : ∀ ops : List AlterTableOperation,
    Emits Op.Silent (alterTableOperations table ops)
  | [] => emits_pure _
  | op :: ops => (silent_alterTableOperation table op).bind fun _ =>
      (silent_alterTableOperations table ops).bind fun _ => emits_pure _

theorem logged_handleAlterTable (h : Logging env s) (sql : String) {alter : AlterTable} (hr : alter.rename = none) :
    (handleAlterTable env sql alter).ops s = [] ∨ loggedTexts ((handleAlterTable env sql alter).ops s) = [sql] := by
  unfold handleAlterTable
  rw [ops_get_bind]
  split
  · left
    split <;> rfl
  · right
    rw [hr]
    cases alter.retention with
    | some retention =>
      refine h.logged_one _ ?_
      exact silent_of_writing ((writing_modifyCatalog _).bind fun _ => writing_catalogSave.bind fun _ => emits_pure _)
    | none =>
      refine h.logged_one _ ?_
      refine (silent_alterTableOperations _ _).bind fun messages => (silent_of_writing writing_catalogSave).bind fun _ => ?_
      refine Emits.bind (emits_emit trivial) fun _ => (readOnly_tableMeta _).emits.bind fun m => ?_
      exact (emits_check _).bind fun schema => Emits.bind (emits_emit trivial) fun _ => emits_pure _

theorem logged_handleDropFunction (h : Logging env s) (sql name : String) (ifExists : Bool) :
    (handleDropFunction env sql name ifExists).ops s = [] ∨
      loggedTexts ((handleDropFunction env sql name ifExists).ops s) = [sql] := by
  unfold handleDropFunction
  rw [ops_get_bind]
  split
  · left
    split <;> rfl
  · right
    refine h.logged_one _ ?_
    exact silent_of_writing ((writing_modifyCatalog _).bind fun _ => writing_catalogSave.bind fun _ => emits_pure _)

theorem logged_handleCreateFunction (h : Logging env s) (sql : String) (def_ : UdfDef) :
    loggedTexts ((handleCreateFunction env sql def_).ops s) = [sql] := by
  refine h.logged_one _ ?_
  exact silent_of_writing ((writing_modifyCatalog _).bind fun _ => writing_catalogSave.bind fun _ => emits_pure _)

/-! ## Statements that log the name of another object -/

theorem silent_deleteTableStorage (m : TableMeta) : Emits Op.Silent (deleteTableStorage env m) := by
  unfold deleteTableStorage
  split
  · exact emits_emit trivial
  · exact silent_of_writing (writing_deleteParquetFiles _)

theorem logged_handleDropTable (h : Logging env s) (name : String) (ifExists : Bool) :
    loggedTexts ((handleDropTable env name ifExists).ops s) =
      if s.catalog.tables.lookup name = none then []
      else [if ifExists then s!"DROP TABLE IF EXISTS \"{name}\"" else s!"DROP TABLE \"{name}\""] := by
  unfold handleDropTable
  rw [ops_get_bind]
  cases s.catalog.tables.lookup name with
  | none =>
    rw [if_pos rfl]
    dsimp only
    split <;> rfl
  | some m =>
    rw [if_neg (Option.some_ne_none m)]
    refine h.logged_one _ ?_
    refine (silent_of_writing (writing_modifyCatalog _)).bind fun _ => (silent_of_writing writing_catalogSave).bind fun _ => ?_
    refine Emits.bind (emits_emit trivial) fun _ => Emits.bind (emits_emit trivial) fun _ => emits_get.bind fun db => ?_
    split
    · exact Emits.bind (emits_emit trivial) fun _ => emits_pure _
    · exact (silent_deleteTableStorage m).bind fun _ => emits_pure _

theorem not_replays_dropTable (hlog : Logging env s) {name : String} {ifExists : Bool}
    (hread : (DdlStatement.dropTable name ifExists).ReadBack reads) (hm : s.catalog.tables.lookup name ≠ none) :
    ¬ Replays env reads s (.dropTable name ifExists) := by
  have ho := logged_handleDropTable hlog name ifExists
  rw [if_neg hm] at ho
  intro hrep
  have htable := (hrep.read ho hread).2.2.tables name
  rw [replayTexts_nil.2] at htable
  simp only [DdlStatement.run] at htable
  rw [lookup_handleDropTable (quoted_ne name).symm, catalog_handleDropTable, if_neg hm] at htable
  rw [htable] at hm
  exact hm (AList.lookup_erase _ _)

/-- The texts are of tables that are dropped if they exist. -/
def DropsTables (reads : String → Option DdlStatement) (texts : List String) : Prop :=
  ∀ text ∈ texts, ∃ name, reads text = ifWellQuoted name (.dropTable (quoted name) true)

theorem views_replayTexts {texts : List String} (h : DropsTables reads texts) :
    ∀ s : Db, ((replayTexts env reads texts).final s).catalog.views = s.catalog.views := by
  induction texts with
  | nil =>
    intro s
    rw [replayTexts_nil.2]
  | cons text texts ih =>
    intro s
    obtain ⟨name, hread⟩ := h text List.mem_cons_self
    have hrest := ih fun t ht => h t (List.mem_cons_of_mem _ ht)
    cases hw : wellQuoted name.toList with
    | false =>
      rw [ifWellQuoted, hw] at hread
      unfold replayTexts
      rw [each, hread]
      rfl
    | true =>
      rw [ifWellQuoted, hw, if_pos rfl] at hread
      by_cases hs : Succeeds ((DdlStatement.dropTable (quoted name) true).run env) s
      · rw [(replayTexts_cons env s hread texts).2 hs, hrest]
        exact views_handleDropTable _ _ _
      · unfold replayTexts
        rw [each, hread]
        dsimp only
        rw [bind_bind, final_bind]
        cases hr : ((DdlStatement.dropTable (quoted name) true).run env).result s with
        | ok a => exact absurd ⟨a, hr⟩ hs
        | error e => exact views_handleDropTable _ _ _

theorem dropsTables_handleDropTable (h : Logging env s) {name : String}
    (hread : reads s!"DROP TABLE IF EXISTS \"{name}\"" = ifWellQuoted name (.dropTable (quoted name) true)) :
    DropsTables reads (loggedTexts ((handleDropTable env name true).ops s)) := by
  rw [logged_handleDropTable h]
  split
  · exact fun _ ht => absurd ht List.not_mem_nil
  · intro text ht
    rw [List.mem_singleton.mp ht]
    exact ⟨name, hread⟩

/-! ### Sequences -/

theorem logged_handleDropSequence (h : Logging env s) {name : String} (ifExists : Bool)
    (hm : s.catalog.sequences.lookup name ≠ none) :
    loggedTexts ((handleDropSequence env name ifExists).ops s) = [s!"DROP SEQUENCE \"{name}\""] := by
  unfold handleDropSequence
  rw [ops_get_bind, if_neg (by simpa using hm)]
  refine h.logged_one _ ?_
  exact silent_of_writing ((writing_modifyCatalog _).bind fun _ => writing_catalogSave.bind fun _ => emits_pure _)

theorem not_replays_dropSequence (hlog : Logging env s) {name : String} {ifExists : Bool}
    (hread : (DdlStatement.dropSequence name ifExists).ReadBack reads) (hm : s.catalog.sequences.lookup name ≠ none) :
    ¬ Replays env reads s (.dropSequence name ifExists) := by
  intro hrep
  have hseq := (hrep.read (logged_handleDropSequence hlog ifExists hm) hread).2.2.sequences name
  rw [replayTexts_nil.2] at hseq
  simp only [DdlStatement.run] at hseq
  rw [catalog_handleDropSequence name, if_neg hm, catalog_handleDropSequence (quoted name)] at hseq
  have hgone : (s.catalog.removeSequence name).sequences.lookup name = none := AList.lookup_erase _ _
  rw [hgone] at hseq
  split at hseq
  · exact hm hseq
  · exact hm ((AList.lookup_erase_ne (quoted_ne name).symm).symm.trans hseq)

theorem logged_handleCreateSequence (h : Logging env s) {name : String} (ifNotExists : Bool) (options : List SequenceOption)
    (hm : s.catalog.sequences.lookup name = none) :
    loggedTexts ((handleCreateSequence env name ifNotExists options).ops s) = [s!"CREATE SEQUENCE \"{name}\""] := by
  unfold handleCreateSequence
  rw [ops_get_bind, if_neg (by simp [hm])]
  refine h.logged_one _ ?_
  exact silent_of_writing ((writing_modifyCatalog _).bind fun _ => writing_catalogSave.bind fun _ => emits_pure _)

theorem not_replays_createSequence (hlog : Logging env s) {name : String} {ifNotExists : Bool} {options : List SequenceOption}
    (hread : (DdlStatement.createSequence name ifNotExists options).ReadBack reads)
    (hm : s.catalog.sequences.lookup name = none) :
    ¬ Replays env reads s (.createSequence name ifNotExists options) := by
  intro hrep
  have hseq := (hrep.read (logged_handleCreateSequence hlog ifNotExists options hm) hread).2.2.sequences name
  rw [replayTexts_nil.2] at hseq
  simp only [DdlStatement.run] at hseq
  rw [catalog_handleCreateSequence name, if_pos hm, catalog_handleCreateSequence] at hseq
  have hmade : (s.catalog.addSequence (sequenceDef name options)).sequences.lookup name = some (sequenceDef name options) := by
    rw [CatalogData.addSequence, name_sequenceDef]
    exact AList.lookup_insert _
  have hnone : (s.catalog.addSequence (sequenceDef (quoted name) [])).sequences.lookup name = none := by
    rw [CatalogData.addSequence, name_sequenceDef]
    exact (AList.lookup_insert_ne (quoted_ne name).symm).trans hm
  rw [hmade] at hseq
  split at hseq
  · rw [hnone] at hseq
    cases hseq
  · rw [hm] at hseq
    cases hseq

/-! ### Indexes -/

theorem logged_handleDropIndex (h : Logging env s) {name : String} (ifExists : Bool)
    (hm : s.catalog.indexes.lookup name ≠ none) :
    loggedTexts ((handleDropIndex env name ifExists).ops s) =
      [if ifExists then s!"DROP INDEX IF EXISTS \"{name}\"" else s!"DROP INDEX \"{name}\""] := by
  unfold handleDropIndex
  rw [ops_get_bind]
  cases hi : s.catalog.indexes.lookup name with
  | none => exact absurd hi hm
  | some index =>
    refine h.logged_one _ ?_
    refine silent_of_writing ((writing_modifyCatalog _).bind fun _ => writing_catalogSave.bind fun _ => ?_)
    refine (writing_modifyCatalog _).bind fun _ => emits_get.bind fun db => ?_
    split
    · exact (emits_pure _).bind fun _ => emits_pure _
    · exact Emits.bind (emits_emit trivial) fun _ => (emits_check _).bind fun schema =>
        Emits.bind (emits_emit trivial) fun _ => emits_pure _

theorem not_replays_dropIndex (hlog : Logging env s) {name : String} {ifExists : Bool}
    (hread : (DdlStatement.dropIndex name ifExists).ReadBack reads) (hm : s.catalog.indexes.lookup name ≠ none) :
    ¬ Replays env reads s (.dropIndex name ifExists) := by
  intro hrep
  have hindex := (hrep.read (logged_handleDropIndex hlog ifExists hm) hread).2.2.indexes name
  rw [replayTexts_nil.2] at hindex
  simp only [DdlStatement.run] at hindex
  have hgone : ((handleDropIndex env name ifExists).final s).catalog.indexes.lookup name = none := by
    rw [catalog_handleDropIndex]
    cases hi : s.catalog.indexes.lookup name with
    | none => exact hi
    | some index => exact (lookup_promoteIndex _ _ _).mpr (AList.lookup_erase _ _)
  rw [hgone, catalog_handleDropIndex] at hindex
  cases hq : s.catalog.indexes.lookup (quoted name) with
  | none =>
    rw [hq] at hindex
    exact hm hindex
  | some index =>
    rw [hq] at hindex
    have hkept := (lookup_promoteIndex _ _ _).mp hindex
    exact hm ((AList.lookup_erase_ne (quoted_ne name).symm).symm.trans hkept)

/-! ### Views -/

theorem Logging.final (h : Logging env s) {p : M α} (hp : Emits Op.Silent p) : Logging env (p.final s) := by
  have hop : ∀ (t : Db) (o : Op), o.Silent → (apply t o).replayingWal = t.replayingWal := by
    intro t o ho
    cases o with
    | walAppend entry => exact ho.elim
    | setReplayingWal replaying => exact ho.elim
    | _ => rfl
  exact ⟨h.enabled, (hp.final_eq hop s).trans h.live⟩

theorem Logging.pending (h : Logging env s) (sql : String) : Logging env (s.pending sql) := ⟨h.enabled, h.live⟩

theorem dropsTables_nil : DropsTables reads [] := fun _ ht => absurd ht List.not_mem_nil

theorem dropsTables_silent {p : M α} (hp : Emits Op.Silent p) (s : Db) : DropsTables reads (loggedTexts (p.ops s)) := by
  rw [loggedTexts_silent hp]
  exact dropsTables_nil

/-- What a run logs before and after a step. -/
theorem dropsTables_bind {β : Type} {p : M α} {f : α → M β} (hp : DropsTables reads (loggedTexts (p.ops s)))
    (hf : ∀ a, DropsTables reads (loggedTexts ((f a).ops (p.final s)))) :
    DropsTables reads (loggedTexts ((p >>= f).ops s)) := by
  rw [ops_bind]
  cases p.result s with
  | error e => exact hp
  | ok a =>
    dsimp only
    rw [loggedTexts_append]
    intro text ht
    rcases List.mem_append.mp ht with ht | ht
    · exact hp text ht
    · exact hf a text ht

theorem logged_handleDropView (h : Logging env s) {name : String} {ifExists : Bool}
    (hread : (DdlStatement.dropView name ifExists).ReadBack reads) (hm : s.catalog.views.lookup name ≠ none) :
    ∃ texts, loggedTexts ((handleDropView env name ifExists).ops s) =
      (if ifExists then s!"DROP VIEW IF EXISTS \"{name}\"" else s!"DROP VIEW \"{name}\"") :: texts ∧
        DropsTables reads texts := by
  have hemit : Emits Op.Silent (emit (.deregisterTable name) : M Unit) := emits_emit trivial
  unfold handleDropView
  rw [ops_get_bind]
  cases hv : s.catalog.views.lookup name with
  | none => exact absurd hv hm
  | some view =>
    refine ⟨_, (h.append _ _).2.2, ?_⟩
    refine dropsTables_bind (dropsTables_silent (silent_of_writing (writing_modifyCatalog _)) _) fun _ => ?_
    refine dropsTables_bind (dropsTables_silent (silent_of_writing writing_catalogSave) _) fun _ => ?_
    refine dropsTables_bind (dropsTables_silent hemit _) fun _ => ?_
    split
    · refine dropsTables_bind ?_ fun _ => dropsTables_nil
      refine dropsTables_handleDropTable ?_ (hread.2 _)
      exact (((h.pending _).final (silent_of_writing (writing_modifyCatalog _))).final
        (silent_of_writing writing_catalogSave)).final hemit
    · exact dropsTables_nil

theorem not_replays_dropView (hlog : Logging env s) {name : String} {ifExists : Bool}
    (hread : (DdlStatement.dropView name ifExists).ReadBack reads) (hm : s.catalog.views.lookup name ≠ none) :
    ¬ Replays env reads s (.dropView name ifExists) := by
  intro hrep
  obtain ⟨texts, ho, hdrops⟩ := logged_handleDropView hlog hread hm
  have hview := (hrep.read ho hread.1).2.2.views name
  rw [views_replayTexts hdrops] at hview
  simp only [DdlStatement.run] at hview
  rw [views_handleDropView name, if_neg hm, AList.lookup_erase, views_handleDropView] at hview
  split at hview
  · exact hm hview
  · exact hm ((AList.lookup_erase_ne (quoted_ne name).symm).symm.trans hview)

theorem logged_handleCreateView (h : Logging env s) {create : CreateView}
    (hread : (DdlStatement.createView create).ReadBack reads) (hs : Succeeds (handleCreateView env create) s) :
    ∃ texts, loggedTexts ((handleCreateView env create).ops s) =
      (if create.materialized then s!"CREATE MATERIALIZED VIEW \"{create.name}\" AS {create.query}"
        else if create.orReplace then s!"CREATE OR REPLACE VIEW \"{create.name}\" AS {create.query}"
        else s!"CREATE VIEW \"{create.name}\" AS {create.query}") :: texts ∧
      DropsTables reads texts ∧ (create.materialized = false → texts = []) := by
  have hview : ∀ name query : String, Emits Op.Silent (registerView env name query) := fun name query =>
    emits_get.bind fun _ => (emits_check _).bind fun _ => emits_emit trivial
  have hsave : ∀ (def_ : ViewDef) (message : String), Emits Op.Silent (do
      modifyCatalog (·.addView def_)
      catalogSave
      return .message message : M QueryResult) :=
    fun _ _ => silent_of_writing ((writing_modifyCatalog _).bind fun _ => writing_catalogSave.bind fun _ => emits_pure _)
  unfold handleCreateView at hs ⊢
  rw [succeeds_get_bind] at hs
  rw [ops_get_bind]
  dsimp only at hs ⊢
  split at hs
  · exact absurd hs (not_succeeds_throw _)
  · rename_i hnew
    rw [if_neg hnew]
    refine ⟨_, (h.append _ _).2.2, ?_, ?_⟩
    · split
      · rw [ops_get_bind]
        split
        · refine dropsTables_bind ?_ fun _ => ?_
          · exact dropsTables_handleDropTable (h.pending _) hread.2
          · exact dropsTables_silent ((silent_handleCtas _ _ _).bind fun _ => (hview _ _).bind fun _ => hsave _ _) _
        · exact dropsTables_silent ((silent_handleCtas _ _ _).bind fun _ => (hview _ _).bind fun _ => hsave _ _) _
      · exact dropsTables_silent ((hview _ _).bind fun _ => hsave _ _) _
    · intro hm
      simp only [hm]
      exact loggedTexts_silent ((hview _ _).bind fun _ => hsave _ _) _

/-- CREATE OR REPLACE VIEW of a query that can be planned. -/
theorem replaceView (env : Env) {create : CreateView} (hm : create.materialized = false) (hr : create.orReplace = true) (s : Db) :
    (Succeeds (handleCreateView env create) s ↔ env.planView create.query s.relation = .ok ()) ∧
    (Succeeds (handleCreateView env create) s →
      ((handleCreateView env create).final s).catalog = s.catalog.addView create.def_) := by
  have hdef : create.def_ = ⟨create.name, create.query, create.materialized, none⟩ := by simp [CreateView.def_, hm]
  have hrun : ∃ t : Db, t.catalog = s.catalog ∧ t.relation = s.relation ∧
      (handleCreateView env create).result s = (do
        registerView env create.name create.query
        modifyCatalog (·.addView create.def_)
        catalogSave
        return .message s!"View view '{create.name}' created." : M QueryResult).result t ∧
      (handleCreateView env create).final s = (do
        registerView env create.name create.query
        modifyCatalog (·.addView create.def_)
        catalogSave
        return .message s!"View view '{create.name}' created." : M QueryResult).final t := by
    unfold handleCreateView
    rw [result_get_bind, final_get_bind, hdef]
    simp only [hm, hr, Bool.not_true, Bool.and_false, Bool.false_eq_true, if_false, if_true]
    exact append_then env s _ _
  obtain ⟨t, hc, hrel, hres, hfin⟩ := hrun
  have hsave : ∀ u : Db, (modifyCatalog (·.addView create.def_) >>= fun _ => catalogSave >>= fun _ =>
      (return .message s!"View view '{create.name}' created." : M QueryResult)).result u =
        .ok (.message s!"View view '{create.name}' created.") := by
    intro u
    have hadd : (modifyCatalog (·.addView create.def_) : M Unit).result u = .ok () := rfl
    rw [result_bind, hadd]
    dsimp only
    rw [result_bind, result_catalogSave]
    rfl
  have hview : Succeeds (registerView env create.name create.query) t ↔ env.planView create.query s.relation = .ok () := by
    unfold registerView
    rw [succeeds_get_bind, succeeds_check_bind, hrel]
    constructor
    · rintro ⟨_, ha, -⟩
      exact ha
    · exact fun h => ⟨(), h, (), rfl⟩
  constructor
  · unfold Succeeds at hview ⊢
    rw [hres, ← hview, result_bind]
    cases (registerView env create.name create.query).result t with
    | error e => simp
    | ok u => exact ⟨fun _ => ⟨u, rfl⟩, fun _ => ⟨_, hsave _⟩⟩
  · rintro ⟨r, hr⟩
    rw [hres, result_bind] at hr
    rw [hfin, final_bind]
    cases hv : (registerView env create.name create.query).result t with
    | error e =>
      rw [hv] at hr
      cases hr
    | ok u =>
      have hc' : ((registerView env create.name create.query).final t).catalog = s.catalog := by
        rw [← hc]
        exact catalog_of_emits (uncataloged_registerView _ _) t
      dsimp only
      rw [final_bind, ← hc']
      exact catalog_of_emits ((minor_catalogSave.mono fun _ h => h.uncataloged).bind fun _ => emits_pure _) _

theorem replays_createView (hlog : Logging env s) {create : CreateView}
    (hread : (DdlStatement.createView create).ReadBack reads) (hs : Succeeds (handleCreateView env create) s) :
    Replays env reads s (.createView create) ↔ (DdlStatement.createView create).LogsItself s.catalog := by
  obtain ⟨texts, ho, hdrops, hnil⟩ := logged_handleCreateView hlog hread hs
  constructor
  · intro hrep
    obtain ⟨hw, hother, hsame⟩ := hrep.read ho hread.1
    obtain ⟨r, hr⟩ := hs
    obtain ⟨r', hr'⟩ := hother
    have hviews := (views_handleCreateView create s r hr).2
    obtain ⟨hquoted, hviews'⟩ := views_handleCreateView _ s r' hr'
    have hsameViews := hsame.views
    rw [views_replayTexts hdrops] at hsameViews
    simp only [DdlStatement.run] at hsameViews
    rw [hviews, hviews'] at hsameViews
    dsimp only at hsameViews hquoted
    have hname := hsameViews create.name
    have hname' := hsameViews (quoted create.name)
    rw [AList.lookup_insert, AList.lookup_insert_ne (quoted_ne _).symm] at hname
    rw [AList.lookup_insert, AList.lookup_insert_ne (quoted_ne _)] at hname'
    have hboth : !create.materialized && create.orReplace := hquoted (by simp [← hname'])
    obtain ⟨hm, hor⟩ : create.materialized = false ∧ create.orReplace = true := by simpa using hboth
    refine ⟨hm, hor, hw, ?_, ?_⟩
    · rw [hname]
      simp [CreateView.def_, hm]
    · rw [← hname']
      simp [CreateView.def_, hm]
  · rintro ⟨hm, hor, hw, hname, hname'⟩
    obtain rfl := hnil hm
    have hread' := hread.1
    rw [ifWellQuoted, hw, if_pos rfl] at hread'
    obtain ⟨hplan, hcat⟩ := replaceView env hm hor s
    have hother : CreateView.mk (quoted create.name) create.query (!create.materialized && create.orReplace)
        create.materialized = ⟨quoted create.name, create.query, true, false⟩ := by simp [hm, hor]
    rw [hother] at hread'
    obtain ⟨hplan', hcat'⟩ := @replaceView env ⟨quoted create.name, create.query, true, false⟩ rfl rfl s
    have hs' := hplan'.mpr (hplan.mp hs)
    obtain ⟨hsucc, hfinal⟩ := replayTexts_cons env s hread' []
    have ho' : loggedTexts (((DdlStatement.createView create).run env).ops s) = _ := ho
    constructor
    · rw [ho']
      exact hsucc.mpr ⟨hs', replayTexts_nil.1⟩
    · rw [ho', hfinal hs', replayTexts_nil.2]
      simp only [DdlStatement.run]
      rw [hcat hs, hcat' hs']
      refine ⟨fun _ => rfl, fun _ => rfl, fun k => ?_, fun _ => rfl, fun _ => rfl, rfl⟩
      have hsame : ∀ (name : String) (def_ : ViewDef), s.catalog.views.lookup name = some def_ →
          (s.catalog.views.insert name def_).lookup k = s.catalog.views.lookup k := by
        intro name def_ hl
        by_cases hk : k = name
        · rw [hk, AList.lookup_insert, hl]
        · exact AList.lookup_insert_ne hk
      have hdef : create.def_ = ⟨create.name, create.query, false, none⟩ := by simp [CreateView.def_, hm]
      rw [CatalogData.addView, CatalogData.addView, hdef]
      exact (hsame _ _ hname').trans (hsame _ _ hname).symm

/-! ### Renamed tables -/

theorem logged_handleRenameTable (h : Logging env s) {oldName newName : String} (hne : oldName ≠ newName)
    (hs : Succeeds (handleRenameTable env oldName newName) s) :
    loggedTexts ((handleRenameTable env oldName newName).ops s) =
      [s!"ALTER TABLE \"{oldName}\" RENAME TO \"{newName}\""] := by
  unfold handleRenameTable at hs ⊢
  rw [succeeds_get_bind, if_neg hne] at hs
  rw [ops_get_bind, if_neg hne]
  split at hs
  · exact absurd hs (not_succeeds_throw _)
  · rename_i hnew
    rw [if_neg hnew]
    refine h.logged_one _ ?_
    refine (readOnly_tableMeta _).emits.bind fun m => (silent_of_writing (writing_modifyCatalog _)).bind fun _ => ?_
    refine (silent_of_writing writing_catalogSave).bind fun _ => Emits.bind (emits_emit trivial) fun _ => ?_
    exact (emits_check _).bind fun schema => Emits.bind (emits_emit trivial) fun _ => emits_pure _

theorem run_alterTable_rename (sql : String) {alter : AlterTable} {oldName newName : String}
    (hr : alter.rename = some (oldName, newName)) (hm : s.catalog.tables.lookup alter.name ≠ none) :
    handleAlterTable env sql alter s = handleRenameTable env oldName newName s := by
  have hsome : (s.catalog.tables.lookup alter.name).isNone = false := by
    cases hl : s.catalog.tables.lookup alter.name with
    | none => exact absurd hl hm
    | some m => rfl
  unfold handleAlterTable
  refine Prod.ext ?_ ?_
  · refine (result_get_bind _).trans ?_
    simp only [hsome, hr, Bool.false_eq_true, if_false]
    rfl
  · refine (ops_get_bind _).trans ?_
    simp only [hsome, hr, Bool.false_eq_true, if_false]
    rfl

/-- Two renames that leave the same tables are of the same names. -/
theorem renamedNames_eq {oldName newName : String} {names : String × String} (hne : oldName ≠ newName)
    (hs : Succeeds (handleRenameTable env oldName newName) s) (hs' : Succeeds (handleRenameTable env names.1 names.2) s)
    (h : ∀ k, ((handleRenameTable env names.1 names.2).final s).catalog.tables.lookup k =
      ((handleRenameTable env oldName newName).final s).catalog.tables.lookup k) : names = (oldName, newName) := by
  obtain ⟨r, hr⟩ := hs
  obtain ⟨hnew, m, hm, htables⟩ := tables_handleRenameTable hne s r hr
  have hold' := h oldName
  have hnew' := h newName
  rw [htables, AList.lookup_insert] at hnew'
  rw [htables, AList.lookup_insert_ne hne, AList.lookup_erase] at hold'
  by_cases hne' : names.1 = names.2
  · rw [handleRenameTable, final_get_bind, if_pos hne', final_pure, hnew] at hnew'
    cases hnew'
  · obtain ⟨r', hr'⟩ := hs'
    obtain ⟨-, m', hm', htables'⟩ := tables_handleRenameTable hne' s r' hr'
    rw [htables'] at hnew' hold'
    have hsnd : names.2 = newName := by
      by_contra hn
      rw [AList.lookup_insert_ne (Ne.symm hn)] at hnew'
      by_cases hn' : newName = names.1
      · rw [hn', AList.lookup_erase] at hnew'
        cases hnew'
      · rw [AList.lookup_erase_ne hn', hnew] at hnew'
        cases hnew'
    have hfst : names.1 = oldName := by
      by_contra ho
      rw [hsnd, AList.lookup_insert_ne hne, AList.lookup_erase_ne (Ne.symm ho), hm] at hold'
      cases hold'
    exact Prod.ext hfst hsnd

theorem replays_rename (hlog : Logging env s) {sql : String} {alter : AlterTable} {oldName newName : String}
    (hr : alter.rename = some (oldName, newName)) (hread : (DdlStatement.alterTable sql alter).ReadBack reads)
    (hs : Succeeds (handleAlterTable env sql alter) s) :
    Replays env reads s (.alterTable sql alter) ↔ (DdlStatement.alterTable sql alter).LogsItself s.catalog := by
  simp only [DdlStatement.ReadBack, DdlStatement.LogsItself, hr] at hread ⊢
  by_cases hm : s.catalog.tables.lookup alter.name = none
  · refine iff_of_true (replays_nothing ?_) (.inl hm)
    show (handleAlterTable env sql alter).ops s = []
    unfold handleAlterTable
    rw [ops_get_bind, hm]
    simp only [Option.isNone_none, if_true]
    split <;> rfl
  have hrun : ((DdlStatement.alterTable sql alter).run env) s = handleRenameTable env oldName newName s :=
    run_alterTable_rename sql hr hm
  by_cases hne : oldName = newName
  · refine iff_of_true (replays_nothing ?_) (.inr (.inl hne))
    rw [Prog.ops, hrun, ← Prog.ops, handleRenameTable, ops_get_bind, if_pos hne]
    rfl
  have hs' : Succeeds (handleRenameTable env oldName newName) s := by
    rwa [Succeeds, Prog.result, run_alterTable_rename sql hr hm] at hs
  have ho : loggedTexts (((DdlStatement.alterTable sql alter).run env).ops s) =
      [s!"ALTER TABLE \"{oldName}\" RENAME TO \"{newName}\""] := by
    rw [Prog.ops, hrun]
    exact logged_handleRenameTable hlog hne hs'
  obtain ⟨operations, hread⟩ := hread
  generalize s!"ALTER TABLE \"{oldName}\" RENAME TO \"{newName}\"" = text at hread ho
  generalize renamedNames oldName newName = names at hread ⊢
  constructor
  · intro hrep
    obtain ⟨other, hother, hsucc, hsame⟩ := hrep.first ho
    rw [hread] at hother
    split at hother
    · rename_i hw
      obtain rfl := Option.some.inj hother
      have hq : s.catalog.tables.lookup (quoted oldName) ≠ none := by
        intro hq
        unfold DdlStatement.run handleAlterTable at hsucc
        rw [succeeds_get_bind] at hsucc
        simp [hq] at hsucc
      have hrun' : ((DdlStatement.alterTable text ⟨quoted oldName, operations, false, some names, none⟩).run env) s =
          handleRenameTable env names.1 names.2 s :=
        run_alterTable_rename text rfl hq
      refine .inr (.inr ⟨hw.1, hw.2, renamedNames_eq hne hs' ?_ ?_, hq⟩)
      · rwa [Succeeds, Prog.result, hrun'] at hsucc
      · have htables := hsame.tables
        rw [replayTexts_nil.2, Prog.final, Prog.final, Prog.ops, Prog.ops, hrun, hrun'] at htables
        exact htables
    · cases hother
  · rintro (hm' | hne' | ⟨hw, hw', hnames, hq⟩)
    · exact absurd hm' hm
    · exact absurd hne' hne
    · rw [if_pos ⟨hw, hw'⟩, hnames] at hread
      exact replays_alike hread ((run_alterTable_rename text rfl hq).trans hrun.symm) hs ho

/-! ### Names that nothing has -/

theorem ops_createSequence {name : String} {ifNotExists : Bool} {options : List SequenceOption}
    (h : s.catalog.sequences.lookup name ≠ none) :
    ((DdlStatement.createSequence name ifNotExists options).run env).ops s = [] := by
  unfold DdlStatement.run handleCreateSequence
  rw [ops_get_bind, if_pos (Option.isSome_iff_ne_none.mpr h)]
  split <;> rfl

theorem ops_dropTable {name : String} {ifExists : Bool} (h : s.catalog.tables.lookup name = none) :
    ((DdlStatement.dropTable name ifExists).run env).ops s = [] := by
  unfold DdlStatement.run handleDropTable
  rw [ops_get_bind, h]
  dsimp only
  split <;> rfl

theorem ops_dropIndex {name : String} {ifExists : Bool} (h : s.catalog.indexes.lookup name = none) :
    ((DdlStatement.dropIndex name ifExists).run env).ops s = [] := by
  unfold DdlStatement.run handleDropIndex
  rw [ops_get_bind, h]
  dsimp only
  split <;> rfl

theorem ops_dropView {name : String} {ifExists : Bool} (h : s.catalog.views.lookup name = none) :
    ((DdlStatement.dropView name ifExists).run env).ops s = [] := by
  unfold DdlStatement.run handleDropView
  rw [ops_get_bind, h]
  dsimp only
  split <;> rfl

theorem ops_dropSequence {name : String} {ifExists : Bool} (h : s.catalog.sequences.lookup name = none) :
    ((DdlStatement.dropSequence name ifExists).run env).ops s = [] := by
  unfold DdlStatement.run handleDropSequence
  rw [ops_get_bind, h]
  simp only [Option.isNone_none, if_true]
  split <;> rfl

/-! ## All statements -/

/-- **The logged text of a statement replays to the same catalog exactly if it stands for the statement.** -/
theorem ddl_replays_iff (env : Env) (reads : String → Option DdlStatement) (s : Db) (stmt : DdlStatement)
    (hlog : Logging env s) (hread : stmt.ReadBack reads) (hs : Succeeds (stmt.run env) s) :
    Replays env reads s stmt ↔ stmt.LogsItself s.catalog := by
  cases stmt with
  | createTable create =>
    refine iff_of_true ?_ trivial
    rcases logged_handleCreateTable hlog create with ho | ho
    · exact replays_nothing ho
    · exact replays_alike hread rfl hs ho
  | createIndex create =>
    refine iff_of_true ?_ trivial
    rcases logged_handleCreateIndex hlog create with ho | ho
    · exact replays_nothing ho
    · exact replays_alike hread rfl hs ho
  | createFunction sql def_ =>
    exact iff_of_true (replays_alike hread rfl hs (logged_handleCreateFunction hlog sql def_)) trivial
  | dropFunction sql name ifExists =>
    refine iff_of_true ?_ trivial
    rcases logged_handleDropFunction hlog sql name ifExists with ho | ho
    · exact replays_nothing ho
    · exact replays_alike hread rfl hs ho
  | createView create => exact replays_createView hlog hread hs
  | createSequence name ifNotExists options =>
    by_cases hm : s.catalog.sequences.lookup name = none
    · exact iff_of_false (not_replays_createSequence hlog hread hm) fun h => h hm
    · exact iff_of_true (replays_nothing (ops_createSequence hm)) hm
  | dropTable name ifExists =>
    by_cases hm : s.catalog.tables.lookup name = none
    · exact iff_of_true (replays_nothing (ops_dropTable hm)) hm
    · exact iff_of_false (not_replays_dropTable hlog hread hm) hm
  | dropIndex name ifExists =>
    by_cases hm : s.catalog.indexes.lookup name = none
    · exact iff_of_true (replays_nothing (ops_dropIndex hm)) hm
    · exact iff_of_false (not_replays_dropIndex hlog hread hm) hm
  | dropView name ifExists =>
    by_cases hm : s.catalog.views.lookup name = none
    · exact iff_of_true (replays_nothing (ops_dropView hm)) hm
    · exact iff_of_false (not_replays_dropView hlog hread hm) hm
  | dropSequence name ifExists =>
    by_cases hm : s.catalog.sequences.lookup name = none
    · exact iff_of_true (replays_nothing (ops_dropSequence hm)) hm
    · exact iff_of_false (not_replays_dropSequence hlog hread hm) hm
  | alterTable sql alter =>
    cases hr : alter.rename with
    | some names => exact replays_rename hlog hr hread hs
    | none =>
      simp only [DdlStatement.ReadBack, DdlStatement.LogsItself, hr] at hread ⊢
      refine iff_of_true ?_ trivial
      rcases logged_handleAlterTable hlog sql hr with ho | ho
      · exact replays_nothing ho
      · exact replays_alike hread rfl hs ho

end

def CreateTable.exampleTable : CreateTable := ⟨"t", false, [⟨"id", "INT", true⟩], [], [], none, "CREATE TABLE t (id INT)"⟩

/-- CREATE TABLE on an empty data directory. -/
theorem ddl_replays_iff_created : Replays .plain
    (fun text => if text = "CREATE TABLE t (id INT)" then some (.createTable .exampleTable) else none) .new
    (.createTable .exampleTable) :=
  (ddl_replays_iff .plain (fun text => if text = "CREATE TABLE t (id INT)" then some (.createTable .exampleTable) else none)
    .new (.createTable .exampleTable) ⟨rfl, rfl⟩ (if_pos rfl) (by decide +kernel)).mpr trivial

/-- DROP TABLE t logs `DROP TABLE "t"`, which fails where `t` is a table. -/
theorem ddl_misses_quoted : ∃ (reads : String → Option DdlStatement) (s : Db), Logging .plain s ∧
    (DdlStatement.dropTable "t" false).ReadBack reads ∧ Succeeds ((DdlStatement.dropTable "t" false).run .plain) s ∧
    ¬ Replays .plain reads s (.dropTable "t" false) := by
  refine ⟨fun text => if text = "DROP TABLE \"t\"" then some (.dropTable (quoted "t") false) else none,
    ((DdlStatement.createTable .exampleTable).run .plain).final .new, ⟨rfl, by decide +kernel⟩, if_pos rfl,
    by decide +kernel, fun h => absurd h.succeeds (by decide +kernel)⟩

end PotatoDB
