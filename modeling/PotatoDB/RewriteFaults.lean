import PotatoDB.DeleteSound
import PotatoDB.Faults

/-!
# A rewrite in which a step fails

`rewrite_table` deletes the files of a table before it writes the new ones, and writes the old rows
back only when the write fails. What an error leaves depends on the step it comes from.
-/

namespace PotatoDB

open Oplog Oplog.Prog
open Machine (apply)

/-! ## The steps -/

/-- The step that fails. -/
inductive RewriteFault where
  | snapshotRead
  | deregister
  /-- A deletion, after some of the files. -/
  | deletion (done : Nat)
  | createDir
  | register
  | temporaryTable
  /-- The write, after files with some rows. -/
  | write (written : List (List Row))
  | statistics
deriving DecidableEq

/-- The step fails if it is the one. -/
def failIf (here : Bool) : M Unit := if here then throw "injected failure" else pure ()

section
variable (env : Env) (fault : Option RewriteFault)

def diskSnapshotUnder (table : String) (batches : List RecordBatch) (useBatchesAsDiskSnapshot : Bool) :
    M (List RecordBatch) := do
  if useBatchesAsDiskSnapshot then return batches
  else
    failIf (fault = some .snapshotRead)
    return (← selectStar table).collect

def deleteParquetFilesUnder (table : String) : M Unit := do
  match fault with
  | some (.deletion done) =>
    each (fun path => emit (.deleteFile path)) ((← listParquetFiles table).take done)
    throw "injected failure"
  | _ => deleteParquetFiles table

/-- DataFusion's INSERT stops after some files. -/
def insertPartly (table : String) (written : List (List Row)) : M Unit := do
  match (← get).ctx.lookup table with
  | none => throw s!"table '{table}' not found"
  | some p =>
    let t ← now env
    each (fun rows => emit (.putFile p.dir ⟨p.schema.map (·.name), rows, t⟩)) written
    throw "injected failure"

def insertUnder (table : String) (batches : List RecordBatch) : M Unit :=
  match fault with
  | some (.write written) => insertPartly env table written
  | _ => insertInto env table none batches

def writeRewrittenUnder (table : String) (schema : Schema) (batches original : List RecordBatch) : M Unit := do
  if hasData batches then
    match ← attempt (do
        check (memTable schema batches)
        failIf (fault = some .temporaryTable)
        insertUnder env fault table batches) with
    | .ok () => pure ()
    | .error e => do
      restoreTableFromSnapshot env table original
      throw e
  else pure ()

/-- `rewrite_table`, one step of which may fail. -/
def rewriteTableUnder (table : String) (schema : Schema) (batches : List RecordBatch)
    (useBatchesAsDiskSnapshot : Bool) : M Unit := do
  let m ← tableMeta table
  emit (.cacheInvalidate table)
  let original ← diskSnapshotUnder fault table batches useBatchesAsDiskSnapshot
  failIf (fault = some .deregister)
  emit (.deregisterTable table)
  deleteParquetFilesUnder fault table
  let tableSchema ← check (columnsToSchema env m.columns)
  failIf (fault = some .createDir && env.isLocalDisk)
  failIf (fault = some .register)
  registerListingTable table tableSchema m.path
  writeRewrittenUnder env fault table schema batches original
  failIf (fault = some .statistics)
  refreshTableFileStatsLight table

end

/-- Without a fault it is the rewrite of the engine. -/
theorem rewriteTableUnder_none (env : Env) (table : String) (schema : Schema) (batches : List RecordBatch) (flag : Bool) :
    rewriteTableUnder env none table schema batches flag = rewriteTable env table schema batches flag := rfl

/-! ## What a table shows -/

/-- DataFusion has the table, and it reads as these rows. -/
def Shows (t : Db) (table : String) (p : Provider) (rows : List Row) : Prop :=
  t.ctx.lookup table = some p ∧ t.rows table = rows

theorem Shows.putFile {t u : Db} {table : String} {p : Provider} {rows : List Row} (h : Shows t table p rows)
    (path : ObjPath) (file : ParquetFile) (hpath : path.dir = p.dir) (hctx : u.ctx = t.ctx)
    (hstore : u.store = t.store ++ [(path, file)]) : Shows u table p (rows ++ file.read p.schema.names) := by
  have hu : u.ctx.lookup table = some p := by rw [hctx, h.1]
  refine ⟨hu, ?_⟩
  rw [rows_of_lookup hu, hstore, Store.read_append, ← rows_of_lookup h.1, h.2]
  refine congrArg (rows ++ ·) ?_
  unfold Store.read Store.list
  rw [List.filter_cons_of_pos (by simp [hpath])]
  simp

theorem Shows.of_eq {t u : Db} {table : String} {p : Provider} {rows : List Row} (h : Shows t table p rows)
    (hctx : u.ctx = t.ctx) (hstore : u.store = t.store) : Shows u table p rows := by
  have hu : u.ctx.lookup table = some p := by rw [hctx, h.1]
  refine ⟨hu, ?_⟩
  rw [rows_of_lookup hu, hstore, ← rows_of_lookup h.1, h.2]

section
variable {env : Env} {t : Db} {table : String} {p : Provider} {rows₀ : List Row}

theorem ends_insertInto (h : Shows t table p rows₀) {batches : List RecordBatch} {Q : Except String Unit → Db → Prop}
    (hok : ∀ rows u, insertedRows env p.schema none batches = .ok rows → Shows u table p (rows₀ ++ rows) → Q (.ok ()) u)
    (herror : ∀ e, (¬ ∃ rows, insertedRows env p.schema none batches = .ok rows) → Q (.error e) t) :
    Ends (insertInto env table none batches) t Q := by
  refine wp_insertInto (fun hno e => herror e ?_) fun p' rows hp hrows => ?_
  · rintro ⟨rows, hrows⟩
    exact hno ⟨p, rows, h.1, hrows⟩
  · obtain rfl : p = p' := Option.some.inj (h.1.symm.trans hp)
    constructor
    · rintro rfl
      exact hok [] t hrows (by rwa [List.append_nil])
    · intro hne
      have hput : Shows (t.withFile p.dir (p.schema.map (·.name)) rows (env.time t.counters.clockReadings)) _ p _ :=
        h.putFile ⟨p.dir, t.nextFile⟩ ⟨p.schema.map (·.name), rows, env.time t.counters.clockReadings⟩ rfl rfl rfl
      obtain ⟨hcast, hnames⟩ := insertedRows_cast hrows
      have hn : p.schema.names.Nodup := by
        refine hnames ?_
        rintro rfl
        exact hne (Except.ok.inj hrows).symm
      rw [show p.schema.map (·.name) = p.schema.names from rfl, read_self hn (castRows_length hcast)] at hput
      exact hok rows _ hrows hput

theorem ends_restore (h : Shows t table p rows₀) (hn : p.schema.names.Nodup) {rows : List Row}
    (ht : ∀ row ∈ rows, castRow env p.schema p.schema.names row = .ok row) {Q : Except String Unit → Db → Prop}
    (hQ : ∀ u, Shows u table p (rows₀ ++ rows) → Q (.ok ()) u) :
    Ends (restoreTableFromSnapshot env table (⟨p.schema, rows⟩ : Relation).collect) t Q := by
  unfold restoreTableFromSnapshot
  by_cases hd : hasData (⟨p.schema, rows⟩ : Relation).collect = true
  · rw [if_pos hd, Ends, wp_bind, wp_attempt]
    have hself := insertedRows_self hn ht
    refine ends_insertInto h (fun rows' u hr hu => ?_) fun e hno => absurd ⟨rows, hself⟩ hno
    obtain rfl : rows = rows' := Except.ok.inj (hself.symm.trans hr)
    exact wp_pure.mpr (hQ u hu)
  · rw [if_neg hd]
    rw [Bool.not_eq_true, hasData_iff, allRows_collect] at hd
    obtain rfl : rows = [] := hd
    exact wp_pure.mpr (hQ t (by rwa [List.append_nil]))

/-- Rows as they are read from a file with the columns. -/
def readBack (names : List String) (rows : List Row) : List Row := (ParquetFile.mk names rows 0).read names

@[simp] theorem length_readBack (names : List String) (rows : List Row) : (readBack names rows).length = rows.length :=
  List.length_map _

theorem ends_putFiles {time : Nat} : ∀ (written : List (List Row)) {t : Db} {rows₀ : List Row},
    Shows t table p rows₀ → Ends (each (fun rows => emit (.putFile p.dir ⟨p.schema.map (·.name), rows, time⟩)) written : M Unit) t
      fun r u => r = .ok () ∧ Shows u table p (rows₀ ++ readBack p.schema.names written.flatten) ∧ u.catalog = t.catalog
  | [], t, rows₀, h => wp_pure.mpr ⟨rfl, by simpa [readBack, ParquetFile.read] using h, rfl⟩
  | rows :: written, t, rows₀, h => by
    rw [each, Ends, wp_bind, wp_emit]
    intro _
    have hput : Shows (apply t (Op.putFile p.dir ⟨p.schema.map (·.name), rows, time⟩)) _ p _ :=
      h.putFile ⟨p.dir, t.nextFile⟩ ⟨p.schema.map (·.name), rows, time⟩ rfl rfl rfl
    refine wp_mono ?_ (ends_putFiles written hput)
    rintro r u ⟨hr, hu, hcat⟩
    refine ⟨hr, ?_, hcat⟩
    have hcons : readBack p.schema.names (rows :: written).flatten =
        readBack p.schema.names rows ++ readBack p.schema.names written.flatten := List.map_append
    rw [hcons, ← List.append_assoc]
    exact hu

theorem ends_insertPartly (h : Shows t table p rows₀) (written : List (List Row)) :
    Ends (insertPartly env table written) t fun r u => (∃ e, r = .error e) ∧
      Shows u table p (rows₀ ++ readBack p.schema.names written.flatten) ∧ u.catalog = t.catalog := by
  unfold insertPartly now
  rw [Ends, wp_bind, wp_get]
  dsimp only
  rw [h.1]
  simp only [wp_bind, wp_get, wp_emit, wp_pure]
  intro _
  refine wp_mono ?_ (ends_putFiles written (h.of_eq rfl rfl))
  rintro r u ⟨rfl, hu, hcat⟩
  exact wp_throw.mpr ⟨⟨_, rfl⟩, hu, hcat⟩

/-! ## The write -/

/-- The rows that the write stores. -/
def plannedRows (env : Env) (tableSchema schema : Schema) (batches : List RecordBatch) : Except String (List Row) :=
  if hasData batches then do
    memTable schema batches
    insertedRows env tableSchema none batches
  else .ok []

/-- How many rows a stopped write leaves. -/
def leftRows (fault : Option RewriteFault) (schema : Schema) (batches : List RecordBatch) : Nat :=
  if hasData batches && (memTable schema batches).toBool then
    match fault with
    | some (.write written) => written.flatten.length
    | _ => 0
  else 0

/-- After an error the rows that were read are behind those of the stopped write. -/
def WriteEnds (env : Env) (fault : Option RewriteFault) (table : String) (p : Provider) (schema : Schema)
    (batches : List RecordBatch) (rows₀ original : List Row) (r : Except String Unit) (u : Db) : Prop :=
  match r with
  | .ok () => (∃ rows, plannedRows env p.schema schema batches = .ok rows ∧ Shows u table p (rows₀ ++ rows)) ∧
      ∀ written, fault = some (.write written) → hasData batches = false
  | .error _ => (∃ W, Shows u table p (rows₀ ++ W ++ original) ∧ W.length = leftRows fault schema batches) ∧
      (fault = some .statistics → ¬ ∃ rows, plannedRows env p.schema schema batches = .ok rows)

theorem ends_giveUp (h : Shows t table p rows₀) (hn : p.schema.names.Nodup) {original : List Row} {e : String}
    (ht : ∀ row ∈ original, castRow env p.schema p.schema.names row = .ok row) {Q : Except String Unit → Db → Prop}
    (hQ : ∀ u, Shows u table p (rows₀ ++ original) → Q (.error e) u) :
    Ends (do restoreTableFromSnapshot env table (⟨p.schema, original⟩ : Relation).collect; throw e : M Unit) t Q := by
  rw [Ends, wp_bind]
  exact ends_restore h hn ht fun u hu => wp_throw.mpr (hQ u hu)

theorem ends_writeRewrittenUnder (h : Shows t table p rows₀) (hn : p.schema.names.Nodup) {original : List Row}
    (ht : ∀ row ∈ original, castRow env p.schema p.schema.names row = .ok row) (fault : Option RewriteFault)
    (schema : Schema) (batches : List RecordBatch) :
    Ends (writeRewrittenUnder env fault table schema batches (⟨p.schema, original⟩ : Relation).collect) t
      (WriteEnds env fault table p schema batches rows₀ original) := by
  unfold writeRewrittenUnder
  by_cases hd : hasData batches = true
  · rw [if_pos hd, Ends, wp_bind, wp_attempt, wp_bind, wp_check]
    have hplan : plannedRows env p.schema schema batches = (do
        memTable schema batches
        insertedRows env p.schema none batches) := if_pos hd
    cases hmem : memTable schema batches with
    | error e =>
      refine ends_giveUp h hn ht fun u hu => ⟨⟨[], by rwa [List.append_nil], ?_⟩, fun _ => ?_⟩
      · simp [leftRows, hmem, Except.toBool]
      · rw [hplan, hmem]
        rintro ⟨rows, hrows⟩
        cases hrows
    | ok _ =>
      have hrest : plannedRows env p.schema schema batches = insertedRows env p.schema none batches := by
        rw [hplan, hmem]
        rfl
      dsimp only
      rw [wp_bind]
      by_cases htmp : fault = some .temporaryTable
      · subst htmp
        refine wp_throw.mpr (ends_giveUp h hn ht fun u hu => ⟨⟨[], by rwa [List.append_nil], ?_⟩, by simp⟩)
        simp [leftRows]
      · unfold failIf
        rw [if_neg (by simpa using htmp), wp_pure]
        dsimp only
        by_cases hw : ∃ written, fault = some (.write written)
        · obtain ⟨written, rfl⟩ := hw
          refine wp_mono ?_ (ends_insertPartly h written)
          rintro r u ⟨⟨e, rfl⟩, hu, -⟩
          refine ends_giveUp hu hn ht fun v hv => ⟨⟨_, hv, ?_⟩, by simp⟩
          simp [leftRows, hd, hmem, Except.toBool]
        · have hinsert : insertUnder env fault table batches = insertInto env table none batches := by
            unfold insertUnder
            split
            · exact absurd ⟨_, rfl⟩ hw
            · rfl
          have hleft : leftRows fault schema batches = 0 := by
            unfold leftRows
            split
            · split
              · exact absurd ⟨_, rfl⟩ hw
              · rfl
            · rfl
          rw [hinsert]
          refine ends_insertInto h (fun rows u hrows hu => ?_) fun e hno => ?_
          · exact wp_pure.mpr ⟨⟨rows, hrest.trans hrows, hu⟩, fun written he => absurd ⟨written, he⟩ hw⟩
          · refine ends_giveUp h hn ht fun u hu => ⟨⟨[], by rwa [List.append_nil], hleft.symm⟩, fun _ => ?_⟩
            rw [hrest]
            exact hno
  · rw [if_neg hd]
    exact wp_pure.mpr ⟨⟨[], if_neg hd, by rwa [List.append_nil]⟩, fun _ _ => by simpa using hd⟩

/-! ## The whole rewrite -/

/-- After an error the table has the rows it had, and else those of the batches. -/
def LosesNothing (env : Env) (s t : Db) (table : String) (tableSchema schema : Schema) (batches : List RecordBatch)
    (r : Except String Unit) : Prop :=
  match r with
  | .ok () => ∃ rows, plannedRows env tableSchema schema batches = .ok rows ∧ (t.rows table).Perm rows
  | .error _ => (t.ctx.lookup table).isSome = true ∧ (t.rows table).Perm (s.rows table)

/-- What the fault must not meet: between the deregistration and the write nothing restores the table, a write must not
leave rows, and behind the write only the rows that were there before may be new. -/
def Harmless (env : Env) (s : Db) (table : String) (m : TableMeta) (tableSchema schema : Schema)
    (batches : List RecordBatch) (flag : Bool) : Option RewriteFault → Prop
  | some .snapshotRead => flag = true → s.stray table m tableSchema = []
  | some .deregister => True
  | some (.deletion _) | some .register => False
  | some .createDir => env.isLocalDisk = false ∧ s.stray table m tableSchema = []
  | some (.write written) => s.stray table m tableSchema = [] ∧
      (hasData batches = true → memTable schema batches = .ok () → written.flatten = [])
  | none | some .temporaryTable => s.stray table m tableSchema = []
  | some .statistics =>
    match plannedRows env tableSchema schema batches with
    | .ok rows => (s.stray table m tableSchema ++ rows).Perm (s.rows table)
    | .error _ => s.stray table m tableSchema = []

theorem append_perm_iff {α : Type} {as bs cs : List α} (h : bs.Perm cs) : (as ++ bs).Perm cs ↔ as = [] := by
  constructor
  · intro hp
    have hlen := hp.length_eq
    rw [List.length_append, h.length_eq] at hlen
    exact List.length_eq_zero_iff.mp (by omega)
  · rintro rfl
    exact h

theorem ends_deleteSome : ∀ (paths : List ObjPath) {t : Db},
    Ends (each (fun path => emit (.deleteFile path)) paths : M Unit) t fun r u => r = .ok () ∧ u.ctx = t.ctx
  | [], _ => wp_pure.mpr ⟨rfl, rfl⟩
  | path :: paths, t => by
    rw [each, Ends, wp_bind, wp_emit]
    intro _
    exact wp_mono (fun _ _ h => h) (ends_deleteSome paths)

variable {s : Db} {m : TableMeta} {tableSchema schema : Schema} {batches : List RecordBatch} {flag : Bool}

theorem leftRows_eq_zero (fault : Option RewriteFault) (schema : Schema) (batches : List RecordBatch) :
    leftRows fault schema batches = 0 ↔ ∀ written, fault = some (.write written) → hasData batches = true →
      memTable schema batches = .ok () → written.flatten = [] := by
  unfold leftRows
  by_cases hd : hasData batches = true
  · cases hm : memTable schema batches with
    | error e => simp [Except.toBool]
    | ok _ =>
      rw [if_pos (by simp [hd, Except.toBool])]
      cases fault with
      | none => simp
      | some fault =>
        cases fault with
        | write written =>
          dsimp only
          rw [List.length_eq_zero_iff]
          simp [hd]
        | _ => simp
  · simp [hd]

/-- A fault behind the registration does no harm where no file is left over and no row of it stays. -/
theorem harmless_late {fault : Option RewriteFault} {flag : Bool} (schema : Schema) (batches : List RecordBatch)
    (hlate : fault ≠ some .deregister ∧ (∀ n, fault ≠ some (.deletion n)) ∧ fault ≠ some .register)
    (hdir : fault = some .createDir → env.isLocalDisk = false) (hsnap : fault = some .snapshotRead → flag = true)
    (hst : fault ≠ some .statistics) :
    Harmless env s table m tableSchema schema batches flag fault ↔
      s.stray table m tableSchema = [] ∧ leftRows fault schema batches = 0 := by
  rw [leftRows_eq_zero]
  unfold Harmless
  cases fault with
  | none => simp
  | some fault =>
    cases fault with
    | temporaryTable => simp
    | snapshotRead => simp [hsnap rfl]
    | deregister => exact absurd rfl hlate.1
    | deletion n => exact absurd rfl (hlate.2.1 n)
    | register => exact absurd rfl hlate.2.2
    | createDir => simp [hdir rfl]
    | statistics => exact absurd rfl hst
    | write written => simp

theorem ends_afterRegistration (fault : Option RewriteFault) (flag : Bool) (schema : Schema) (batches : List RecordBatch)
    (hn : tableSchema.names.Nodup)
    (h : Shows t table ⟨objPath m.path, tableSchema⟩ (s.stray table m tableSchema)) {original : List Row}
    (horig : original.Perm (s.rows table)) (ht : ∀ row ∈ original, castRow env tableSchema tableSchema.names row = .ok row)
    (hlate : fault ≠ some .deregister ∧ (∀ n, fault ≠ some (.deletion n)) ∧ fault ≠ some .register)
    (hdir : fault = some .createDir → env.isLocalDisk = false) (hsnap : fault = some .snapshotRead → flag = true) :
    Ends (do
        writeRewrittenUnder env fault table schema batches (⟨tableSchema, original⟩ : Relation).collect
        failIf (fault = some .statistics)
        refreshTableFileStatsLight table : M Unit) t fun r u =>
      (LosesNothing env s u table tableSchema schema batches r ↔
        Harmless env s table m tableSchema schema batches flag fault) := by
  rw [Ends, wp_bind]
  refine wp_mono ?_ (ends_writeRewrittenUnder h hn ht fault schema batches)
  intro r u hw
  cases r with
  | error e =>
    obtain ⟨⟨W, hu, hlen⟩, hstat⟩ := hw
    have hiff : LosesNothing env s u table tableSchema schema batches (.error e) ↔
        s.stray table m tableSchema = [] ∧ leftRows fault schema batches = 0 := by
      unfold LosesNothing
      dsimp only
      rw [hu.1, hu.2, append_perm_iff horig, ← hlen, List.append_eq_nil_iff, List.length_eq_zero_iff]
      simp
    dsimp only
    rw [hiff]
    by_cases hst : fault = some .statistics
    · subst hst
      unfold Harmless leftRows
      dsimp only
      cases hp : plannedRows env tableSchema schema batches with
      | ok rows => exact absurd ⟨rows, hp⟩ (hstat rfl)
      | error e => simp
    · exact (harmless_late schema batches hlate hdir hsnap hst).symm
  | ok _ =>
    obtain ⟨⟨rows, hp, hu⟩, hnodata⟩ := hw
    dsimp only at hp hu ⊢
    rw [wp_bind]
    unfold failIf
    by_cases hst : fault = some .statistics
    · subst hst
      rw [if_pos (by simp), wp_throw]
      unfold LosesNothing Harmless
      dsimp only
      rw [hp, hu.1, hu.2]
      simp
    · rw [if_neg (by simpa using hst), wp_pure]
      have hiff : ∀ v : Db, v.ctx = u.ctx → v.store = u.store →
          (LosesNothing env s v table tableSchema schema batches (.ok ()) ↔ s.stray table m tableSchema = []) := by
        intro v hctx hstore
        unfold LosesNothing
        dsimp only
        rw [(hu.of_eq hctx hstore).2, ← append_perm_iff (List.Perm.refl rows)]
        constructor
        · rintro ⟨rows', hp', hperm⟩
          obtain rfl : rows = rows' := Except.ok.inj (hp.symm.trans hp')
          exact hperm
        · exact fun hperm => ⟨rows, hp, hperm⟩
      suffices hh : Harmless env s table m tableSchema schema batches flag fault ↔ s.stray table m tableSchema = [] by
        rw [hh]
        exact wp_refreshLight (fun _ _ => hiff _ rfl rfl) (hiff _ rfl rfl)
      rw [harmless_late schema batches hlate hdir hsnap hst, leftRows_eq_zero, and_iff_left]
      intro written hfault hd
      rw [hnodata written hfault] at hd
      cases hd

/-- **When a rewrite with one failing step loses nothing.** -/
theorem rewrite_loses_nothing_iff (hs : Stored env s table m tableSchema) (hn : tableSchema.names.Nodup)
    (hflag : flag = true → ∃ rows, rows.Perm (s.rows table) ∧ batches = (⟨tableSchema, rows⟩ : Relation).collect)
    (fault : Option RewriteFault) :
    LosesNothing env s ((rewriteTableUnder env fault table schema batches flag).final s) table tableSchema schema batches
        ((rewriteTableUnder env fault table schema batches flag).result s) ↔
      Harmless env s table m tableSchema schema batches flag fault := by
  suffices h : Ends (rewriteTableUnder env fault table schema batches flag) s fun r u =>
      (LosesNothing env s u table tableSchema schema batches r ↔
        Harmless env s table m tableSchema schema batches flag fault) from ends_iff.mp h
  -- an error before the deregistration changes nothing, one behind it leaves no table
  have hearly : ∀ (u : Db) (e : String), u.ctx = s.ctx → u.store = s.store →
      LosesNothing env s u table tableSchema schema batches (.error e) := by
    intro u e hctx hstore
    have hself : Shows s table ⟨objPath m.path, tableSchema⟩ (s.rows table) := ⟨hs.ctx, rfl⟩
    have hu := hself.of_eq hctx hstore
    exact ⟨by rw [hu.1]; rfl, by rw [hu.2]⟩
  have hgone : ∀ (u : Db) (e : String), u.ctx = s.ctx.erase table →
      ¬ LosesNothing env s u table tableSchema schema batches (.error e) := by
    intro u e hctx hl
    have := hl.1
    rw [hctx, AList.lookup_erase] at this
    cases this
  unfold rewriteTableUnder tableMeta
  simp only [wp_bind, wp_get, hs.catalog, wp_pure, wp_emit]
  intro _
  have hsnapshot : ∀ {Q : Except String (List RecordBatch) → Db → Prop},
      (∀ original, original.Perm (s.rows table) → (fault = some .snapshotRead → flag = true) →
        Q (.ok (⟨tableSchema, original⟩ : Relation).collect) (apply s (.cacheInvalidate table))) →
      (∀ e, fault = some .snapshotRead → flag = false → Q (.error e) (apply s (.cacheInvalidate table))) →
      Ends (diskSnapshotUnder fault table batches flag) (apply s (.cacheInvalidate table)) Q := by
    intro Q hread hfail
    unfold diskSnapshotUnder
    by_cases hf : flag = true
    · rw [if_pos hf]
      obtain ⟨rows, hperm, rfl⟩ := hflag hf
      exact wp_pure.mpr (hread rows hperm fun _ => hf)
    · rw [if_neg hf, Ends, wp_bind]
      unfold failIf
      by_cases hsn : fault = some .snapshotRead
      · rw [if_pos (by simpa using hsn), wp_throw]
        exact hfail _ hsn (by simpa using hf)
      · rw [if_neg (by simpa using hsn), wp_pure]
        unfold selectStar
        simp only [wp_bind, wp_get]
        rw [show (apply s (Op.cacheInvalidate table)).relation table = some ⟨tableSchema, s.rows table⟩ from hs.relation]
        simp only [wp_pure]
        exact hread _ (List.Perm.refl _) fun h => absurd h hsn
  refine hsnapshot (fun original horig hsnap => ?_) fun e hf hflag' => ?_
  · dsimp only
    unfold failIf
    by_cases hder : fault = some .deregister
    · rw [if_pos (by simpa using hder), wp_throw]
      subst hder
      exact iff_of_true (hearly _ _ rfl rfl) trivial
    rw [if_neg (by simpa using hder), wp_pure]
    dsimp only
    intro _
    by_cases hdel : ∃ n, fault = some (.deletion n)
    · obtain ⟨n, rfl⟩ := hdel
      unfold deleteParquetFilesUnder listParquetFiles
      simp only [wp_bind, wp_get, wp_pure]
      refine wp_mono ?_ (ends_deleteSome _)
      rintro r u ⟨rfl, hctx⟩
      exact wp_throw.mpr (iff_of_false (hgone u _ hctx) id)
    have hdelete : deleteParquetFilesUnder fault table = deleteParquetFiles table := by
      unfold deleteParquetFilesUnder
      split
      · exact absurd ⟨_, rfl⟩ hdel
      · rfl
    rw [hdelete]
    refine wp_of_yields (succeeds_bind.mpr ⟨_, rfl, succeeds_each_emit⟩) (yields_deleteParquetFiles ?_)
    dsimp only
    rw [wp_check, hs.columns]
    dsimp only
    by_cases hcd : (fault = some .createDir && env.isLocalDisk) = true
    · rw [if_pos hcd, wp_throw]
      have hcd' : fault = some .createDir ∧ env.isLocalDisk = true := by simpa using hcd
      obtain ⟨rfl, hlocal⟩ := hcd'
      refine iff_of_false (hgone _ _ rfl) fun h => ?_
      rw [h.1] at hlocal
      cases hlocal
    rw [if_neg hcd, wp_pure]
    dsimp only
    by_cases hreg : fault = some .register
    · rw [if_pos (by simpa using hreg), wp_throw]
      subst hreg
      exact iff_of_false (hgone _ _ rfl) id
    rw [if_neg (by simpa using hreg), wp_pure]
    unfold registerListingTable
    dsimp only
    rw [wp_emit]
    intro _
    have hshows : Shows (apply { s with
        uniquenessCache := (apply s (Op.cacheInvalidate table)).uniquenessCache
        ctx := s.ctx.erase table
        store := s.store.removeDir (objPath table) } (Op.registerTable table ⟨objPath m.path, tableSchema⟩)) table
        ⟨objPath m.path, tableSchema⟩ (s.stray table m tableSchema) := by
      have hctx : (apply { s with
          uniquenessCache := (apply s (Op.cacheInvalidate table)).uniquenessCache
          ctx := s.ctx.erase table
          store := s.store.removeDir (objPath table) } (Op.registerTable table ⟨objPath m.path, tableSchema⟩)).ctx.lookup
          table = some ⟨objPath m.path, tableSchema⟩ := AList.lookup_insert _
      exact ⟨hctx, rows_of_lookup hctx⟩
    have htail := ends_afterRegistration fault flag schema batches hn hshows horig
      (fun row hrow => hs.typed row (horig.mem_iff.mp hrow)) ⟨hder, fun n he => hdel ⟨n, he⟩, hreg⟩
      (fun he => by simpa [he] using hcd) hsnap
    rw [Ends, wp_bind] at htail
    refine wp_mono (fun r u hu => ?_) htail
    cases r with
    | error e => exact hu
    | ok _ =>
      rw [wp_bind] at hu
      exact hu
  · subst hf
    exact iff_of_true (hearly _ _ rfl rfl) fun h => by simp [hflag'] at h

end

/-! ## A table of flags -/

/-- The row TRUE is to be replaced by the row FALSE. -/
def replaceFlag (fault : Option RewriteFault) : M Unit :=
  rewriteTableUnder whereEnv fault "t" flagSchema [⟨flagSchema, [[.bool false]]⟩] false

/-- The temporary table cannot be registered. -/
theorem replaceFlag_restored :
    LosesNothing whereEnv (flagsDb [[.bool true]] []) ((replaceFlag (some .temporaryTable)).final (flagsDb [[.bool true]] []))
      "t" flagSchema flagSchema [⟨flagSchema, [[.bool false]]⟩]
      ((replaceFlag (some .temporaryTable)).result (flagsDb [[.bool true]] [])) :=
  (@rewrite_loses_nothing_iff whereEnv "t" (flagsDb [[.bool true]] []) flagMeta flagSchema flagSchema
    [⟨flagSchema, [[.bool false]]⟩] false (by decide +kernel) (by decide +kernel) nofun (some .temporaryTable)).mpr
    (show (flagsDb [[.bool true]] []).stray "t" flagMeta flagSchema = [] by decide +kernel)

/-- A deletion that fails leaves no table, a write that fails after a file leaves its row beside the old one, and an error
behind the write leaves the new row. -/
theorem replaceFlag_loses :
    (¬ LosesNothing whereEnv (flagsDb [[.bool true]] []) ((replaceFlag (some (.deletion 1))).final (flagsDb [[.bool true]] []))
      "t" flagSchema flagSchema [⟨flagSchema, [[.bool false]]⟩]
      ((replaceFlag (some (.deletion 1))).result (flagsDb [[.bool true]] []))) ∧
    (¬ LosesNothing whereEnv (flagsDb [[.bool true]] [])
      ((replaceFlag (some (.write [[[.bool false]]]))).final (flagsDb [[.bool true]] []))
      "t" flagSchema flagSchema [⟨flagSchema, [[.bool false]]⟩]
      ((replaceFlag (some (.write [[[.bool false]]]))).result (flagsDb [[.bool true]] []))) ∧
    ¬ LosesNothing whereEnv (flagsDb [[.bool true]] []) ((replaceFlag (some .statistics)).final (flagsDb [[.bool true]] []))
      "t" flagSchema flagSchema [⟨flagSchema, [[.bool false]]⟩]
      ((replaceFlag (some .statistics)).result (flagsDb [[.bool true]] [])) := by
  have hfails : ∀ fault ∈ [RewriteFault.deletion 1, .write [[[.bool false]]], .statistics],
      (replaceFlag (some fault)).result (flagsDb [[.bool true]] []) = .error "injected failure" := by
    decide +kernel
  refine ⟨?_, ?_, ?_⟩
  · rw [hfails _ (by simp)]
    exact fun h => absurd h.1 (by decide +kernel)
  · rw [hfails _ (by simp)]
    exact fun h => absurd h.2 (by decide +kernel)
  · rw [hfails _ (by simp)]
    exact fun h => absurd h.2 (by decide +kernel)

end PotatoDB
