import PotatoDB.Frames
import PotatoDB.RestoreSound

/-!
# Flushing

A flush turns the buffered rows of a table into rows of its files, with the values cast to the
columns, and leaves the rows of all other tables alone. Where it fails before the rows are written,
they are gone from the buffer and in no file.
-/

namespace PotatoDB

open Oplog Oplog.Prog
open Machine (apply)

/-! ## What the tables hold -/

/-- The part of a state that decides what the tables hold. -/
structure TableState where
  store : Store
  nextFile : Nat
  ctx : Map Provider
  catalog : CatalogData
  writeBuffer : Map BufferedInsert
  activeTxn : Option Transaction

def Db.tableState (s : Db) : TableState :=
  ⟨s.store, s.nextFile, s.ctx, s.catalog, s.writeBuffer, s.activeTxn⟩

/-- The operation leaves what the tables hold alone. -/
def Op.Quiet (o : Op) : Prop := ∀ s : Db, (apply s o).tableState = s.tableState

def Db.rows (s : Db) (table : String) : List Row := (s.relation table).elim [] (·.rows)

theorem rows_of_lookup {t : Db} {table : String} {p : Provider} (hp : t.ctx.lookup table = some p) :
    t.rows table = t.store.read p.dir p.schema.names := by
  unfold Db.rows Db.relation
  rw [hp]
  rfl

theorem relation_of_lookup {t : Db} {table : String} {p : Provider} (hp : t.ctx.lookup table = some p) :
    t.relation table = some ⟨p.schema, t.rows table⟩ := by
  rw [rows_of_lookup hp]
  unfold Db.relation
  rw [hp]
  rfl

theorem relation_of_tables {s t : Db} (hctx : t.ctx = s.ctx) (hstore : t.store = s.store) : t.relation = s.relation := by
  funext table
  unfold Db.relation
  rw [hctx, hstore]

theorem rows_of_tables {s t : Db} (hctx : t.ctx = s.ctx) (hstore : t.store = s.store) : t.rows = s.rows := by
  funext table
  unfold Db.rows
  rw [relation_of_tables hctx hstore]

/-- The columns that the INSERT of a flush names. -/
def insertColumns : Option (List String) → Option (List String)
  | some [] => none
  | columns => columns

/-- The columns that the checks of a flush go by. -/
def flushColumns (s : Db) (table : String) (columns : Option (List String)) : List String :=
  match columns with
  | some cols => cols
  | none => (s.catalog.tables.lookup table).elim [] (·.columnNames)

/-- A flush returns at once. -/
def BufferedInsert.IsEmpty (b : BufferedInsert) : Prop := b.rowCount = 0 ∨ b.batches = []

instance (b : BufferedInsert) : Decidable b.IsEmpty := inferInstanceAs (Decidable (_ ∨ _))

/-- A flush can write the rows it took from the buffer. -/
structure Writable (env : Env) (s : Db) (table : String) (b : BufferedInsert) : Prop where
  valid : Succeeds (validateConstraintsBatch env table (flushColumns s table b.columns) b.batches .beforeInsert) s
  batches : memTable ((b.batches.head?).elim [] (·.schema)) b.batches = .ok ()
  rows : ∃ p rows, s.ctx.lookup table = some p ∧
    insertedRows env p.schema (insertColumns b.columns) b.batches = .ok rows

/-- The rows are in a new file of the table, if there are any, and nothing else has changed. -/
structure Appended (s : Db) (table : String) (p : Provider) (rows : List Row) (t : Db) : Prop where
  provider : s.ctx.lookup table = some p
  store : ∃ time, t.store = s.store ++
    if rows = [] then [] else [(⟨p.dir, s.nextFile⟩, ⟨p.schema.map (·.name), rows, time⟩)]
  ctx : t.ctx = s.ctx
  catalog : t.catalog.forgetFiles = s.catalog.forgetFiles
  writeBuffer : t.writeBuffer = s.writeBuffer
  activeTxn : t.activeTxn = s.activeTxn

section
variable {env : Env} {C : Db → Op → Prop} {s : Db}

theorem quiet_of_checking {α : Type} {p : M α} (h : Emits Op.Checking p) : Emits Op.Quiet p := by
  refine h.mono fun o ho => ?_
  cases o with
  | cacheInsert key keys => exact fun _ => rfl
  | _ => exact ho.elim

theorem wp_quiet {α : Type} {p : M α} (hp : Emits Op.Quiet p) {Q : Except String α → Db → Prop}
    (h : ∀ r t, p.result s = r → t.tableState = s.tableState → Q r t) : wp C p s Q :=
  fun _ => h _ _ rfl (hp.final_eq (fun s _ ho => ho s) s)

theorem wp_insertInto {table : String} {columns : Option (List String)} {batches : List RecordBatch}
    {Q : Except String Unit → Db → Prop}
    (herror : (¬ ∃ p rows, s.ctx.lookup table = some p ∧ insertedRows env p.schema columns batches = .ok rows) →
      ∀ e, Q (.error e) s)
    (hok : ∀ p rows, s.ctx.lookup table = some p → insertedRows env p.schema columns batches = .ok rows →
      (rows = [] → Q (.ok ()) s) ∧
      (rows ≠ [] → Q (.ok ()) (s.withFile p.dir (p.schema.map (·.name)) rows (env.time s.counters.clockReadings)))) :
    wp C (insertInto env table columns batches) s Q := by
  unfold insertInto
  simp only [wp_bind, wp_get]
  cases hp : s.ctx.lookup table with
  | none =>
    refine wp_throw.mpr (herror ?_ _)
    rintro ⟨p, rows, hp', -⟩
    rw [hp] at hp'
    cases hp'
  | some p =>
    simp only [wp_bind, wp_check]
    cases hr : insertedRows env p.schema columns batches with
    | error e =>
      refine herror ?_ e
      rintro ⟨p', rows, hp', hrows⟩
      rw [hp] at hp'
      cases hp'
      rw [hr] at hrows
      cases hrows
    | ok rows =>
      obtain ⟨hnil, hcons⟩ := hok p rows hp hr
      cases rows with
      | nil => exact wp_pure.mpr (hnil rfl)
      | cons row rows =>
        simp only [List.isEmpty_cons, Bool.false_eq_true, if_false]
        unfold now
        simp only [wp_bind, wp_get, wp_emit, wp_pure]
        exact fun _ _ => hcons (by simp)

theorem wp_refreshLight {table : String} {Q : Except String Unit → Db → Prop}
    (h : ∀ stats dirty, Q (.ok ()) { s with catalog := s.catalog.setFileStats table stats, catalogDirty := dirty })
    (hnone : Q (.ok ()) s) : wp C (refreshTableFileStatsLight table) s Q := by
  unfold refreshTableFileStatsLight listParquetFiles
  simp only [wp_bind, wp_get, wp_pure]
  split
  · unfold modifyCatalog catalogSave
    simp only [wp_bind, wp_get, wp_emit]
    intro _
    split
    · exact wp_pure.mpr (h _ s.catalogDirty)
    · exact wp_emit.mpr fun _ => h _ true
  · exact wp_pure.mpr hnone

/-! ## Writing the rows -/

theorem Appended.of_same {table : String} {p : Provider} {rows : List Row} {t u : Db} (h : Appended s table p rows t)
    (hu : u.tableState = t.tableState) : Appended s table p rows u := by
  obtain ⟨hp, hstore, hctx, hcat, hbuf, htxn⟩ := h
  have hs : u.store = t.store := congrArg TableState.store hu
  have hc : u.catalog = t.catalog := congrArg TableState.catalog hu
  exact ⟨hp, hs ▸ hstore, (congrArg TableState.ctx hu).trans hctx, hc ▸ hcat,
    (congrArg TableState.writeBuffer hu).trans hbuf, (congrArg TableState.activeTxn hu).trans htxn⟩

theorem Appended.setFileStats {table : String} {p : Provider} {rows : List Row} {t : Db}
    (h : Appended s table p rows t) (stats : List FileStats) (dirty : Bool) :
    Appended s table p rows { t with catalog := t.catalog.setFileStats table stats, catalogDirty := dirty } :=
  ⟨h.provider, h.store, h.ctx, (forgetFiles_setFileStats _ _ _).trans h.catalog, h.writeBuffer, h.activeTxn⟩

theorem wp_targetColumnsOf {table : String} {columns : Option (List String)} {Q : Except String (List String) → Db → Prop} :
    wp C (targetColumnsOf table columns) s Q ↔ Q (.ok (flushColumns s table columns)) s := by
  unfold targetColumnsOf flushColumns
  cases columns with
  | some cols => exact wp_pure
  | none => simp only [wp_bind, wp_get, wp_pure]

theorem quiet_validate (table : String) (targetColumns : List String) (batches : List RecordBatch)
    (phase : ValidationPhase) : Emits Op.Quiet (validateConstraintsBatch env table targetColumns batches phase) :=
  quiet_of_checking (checking_validateConstraintsBatch _ _ _ _)

theorem quiet_maybeAutoAnalyze (table : String) (n : Nat) : Emits Op.Quiet (maybeAutoAnalyze env table n) := by
  unfold maybeAutoAnalyze
  split
  · exact emits_pure _
  · refine emits_get.bind fun db => ?_
    dsimp only
    split
    · exact emits_emit fun _ => rfl
    · exact emits_emit fun _ => rfl

/-- The rows, from a state with the tables of an earlier one, are in a new file of these tables. -/
theorem wp_insertAppended {t : Db} (hsame : t.tableState = s.tableState) {table : String} {columns : Option (List String)}
    {batches : List RecordBatch} {Q : Except String Unit → Db → Prop}
    (herror : (¬ ∃ p rows, s.ctx.lookup table = some p ∧ insertedRows env p.schema columns batches = .ok rows) →
      ∀ e, Q (.error e) t)
    (hok : ∀ p rows u, insertedRows env p.schema columns batches = .ok rows → Appended s table p rows u → Q (.ok ()) u) :
    wp C (insertInto env table columns batches) t Q := by
  have hctx : t.ctx = s.ctx := congrArg TableState.ctx hsame
  have hstore : t.store = s.store := congrArg TableState.store hsame
  have hnext : t.nextFile = s.nextFile := congrArg TableState.nextFile hsame
  have happended : ∀ {p : Provider} {rows : List Row} {u : Db}, s.ctx.lookup table = some p →
      (∃ time, u.store = s.store ++
        if rows = [] then [] else [(⟨p.dir, s.nextFile⟩, ⟨p.schema.map (·.name), rows, time⟩)]) →
      u.ctx = t.ctx → u.catalog = t.catalog → u.writeBuffer = t.writeBuffer → u.activeTxn = t.activeTxn →
      Appended s table p rows u := fun hp hs hc hcat hb ha =>
    ⟨hp, hs, hc.trans hctx, by rw [hcat, show t.catalog = s.catalog from congrArg TableState.catalog hsame],
      hb.trans (congrArg TableState.writeBuffer hsame), ha.trans (congrArg TableState.activeTxn hsame)⟩
  refine wp_insertInto (fun hno e => herror ?_ e) fun p rows hp hrows => ?_
  · rwa [hctx] at hno
  · rw [hctx] at hp
    refine ⟨fun hnil => hok p rows t hrows (happended hp ⟨0, ?_⟩ rfl rfl rfl rfl),
      fun hne => hok p rows _ hrows (happended hp ⟨env.time t.counters.clockReadings, ?_⟩ rfl rfl rfl rfl)⟩
    · rw [if_pos hnil, List.append_nil, hstore]
    · rw [if_neg hne, ← hstore, ← hnext]
      rfl

theorem wp_returning {p : M Unit} {n : Nat} {Q : Except String Nat → Db → Prop} (h : wp C p s fun r t => Q (r.map fun _ => n) t) :
    wp C (do p; return n : M Nat) s Q := by
  rw [wp_bind]
  refine wp_mono (fun r t hr => ?_) h
  cases r with
  | error e => exact hr
  | ok _ => exact wp_pure.mpr hr

/-- The rows stay written, whether or not the rest of the flush fails. -/
theorem wp_finishFlush {table : String} {targetColumns : List String} {merges : Merges} {n : Nat} {s₀ : Db}
    {p : Provider} {rows : List Row} {Q : Except String Nat → Db → Prop} (ha : Appended s₀ table p rows s)
    (h : ∀ t, Appended s₀ table p rows t → (∀ e, Q (.error e) t) ∧
      wp C (maybeAutoCompact env table) t fun r u => Q (r.map fun _ => n) u) :
    wp C (finishFlush env table targetColumns merges n) s Q := by
  -- the rest, from a state in which the rows are written
  have hrest : ∀ t, Appended s₀ table p rows t → wp C (do
      maybeAutoAnalyze env table n
      refreshTableFileStatsLight table
      maybeAutoCompact env table
      return n : M Nat) t Q := by
    intro t ht
    rw [wp_bind]
    refine wp_quiet (quiet_maybeAutoAnalyze table n) fun r u _ hu => ?_
    have hua := ht.of_same hu
    cases r with
    | error e => exact (h u hua).1 e
    | ok _ =>
      dsimp only
      rw [wp_bind]
      refine wp_refreshLight (fun stats dirty => ?_) ?_
      · exact wp_returning (h _ (hua.setFileStats stats dirty)).2
      · exact wp_returning (h u hua).2
  unfold finishFlush
  rw [wp_bind]
  refine wp_quiet (quiet_validate _ _ _ _) fun r t _ ht => ?_
  cases r with
  | error e => exact (h t (ha.of_same ht)).1 e
  | ok _ =>
    dsimp only
    rw [wp_bind]
    refine wp_quiet (emits_each (fun m => emits_emit fun _ => rfl) merges) fun r u _ hu => ?_
    have hua := ha.of_same (hu.trans ht)
    cases r with
    | error e => exact (h u hua).1 e
    | ok _ =>
      dsimp only
      split
      · rw [wp_bind, wp_emit]
        exact fun _ => hrest _ (hua.of_same rfl)
      · exact hrest u hua

/-- What a flush leaves, whether or not it fails: nothing of the rows, or all of them before the files of the
table are compacted. -/
theorem wp_writeBuffered {table : String} {b : BufferedInsert} {Q : Except String Nat → Db → Prop}
    (hempty : b.IsEmpty → Q (.ok 0) s)
    (hfail : ¬ b.IsEmpty → ¬ Writable env s table b → ∀ e t, t.tableState = s.tableState → Q (.error e) t)
    (hwrite : ¬ b.IsEmpty → Writable env s table b → ∀ p rows t,
      insertedRows env p.schema (insertColumns b.columns) b.batches = .ok rows → Appended s table p rows t → (∀ e, Q (.error e) t) ∧
        wp C (maybeAutoCompact env table) t fun r u => Q (r.map fun _ => b.rowCount) u) :
    wp C (writeBuffered env table b) s Q := by
  unfold writeBuffered
  by_cases hb : b.rowCount = 0 ∨ b.batches = []
  · rw [if_pos hb]
    exact wp_pure.mpr (hempty hb)
  rw [if_neg hb, wp_bind, wp_targetColumnsOf]
  dsimp only
  rw [wp_bind]
  refine wp_quiet (quiet_validate _ _ _ _) fun r s₁ hr h₁ => ?_
  cases r with
  | error e =>
    refine hfail hb (fun hw => ?_) e s₁ h₁
    obtain ⟨a, ha⟩ := hw.valid
    rw [ha] at hr
    cases hr
  | ok merges =>
    dsimp only
    rw [wp_bind]
    refine wp_quiet (emits_get.bind fun _ => (emits_emit fun _ => rfl).bind fun _ => emits_pure _) fun r s₂ hr' h₂ => ?_
    cases r with
    | error e => cases hr'
    | ok name =>
      dsimp only
      rw [wp_bind, wp_check]
      cases hm : memTable ((b.batches.head?).elim [] (·.schema)) b.batches with
      | error e =>
        refine hfail hb (fun hw => ?_) e s₂ (h₂.trans h₁)
        rw [hw.batches] at hm
        cases hm
      | ok _ =>
        dsimp only
        rw [wp_bind]
        refine wp_insertAppended (h₂.trans h₁) (fun hno e => ?_) fun p rows t hrows ha => ?_
        · exact hfail hb (fun hw => hno hw.rows) e s₂ (h₂.trans h₁)
        · have hw : Writable env s table b := ⟨⟨merges, hr⟩, hm, p, rows, ha.provider, hrows⟩
          exact wp_finishFlush ha fun u hu => hwrite hb hw p rows u hrows hu

/-! ## Rows that are cast -/

/-- A value that was cast to a type needs no cast to it. -/
def Env.CastStable (env : Env) : Prop := ∀ type v v', env.castTo type v = .ok v' → env.castTo type v' = .ok v'

theorem castRow_stable (hcast : env.CastStable) {schema : Schema} (hn : schema.names.Nodup) {names : List String}
    {row row' : Row} (h : castRow env schema names row = .ok row') : castRow env schema schema.names row' = .ok row' := by
  unfold castRow at h ⊢
  rw [mapM_ok_iff] at h ⊢
  have hlen : schema.length = row'.length := by simpa using congrArg List.length h
  refine List.ext_getElem (by simpa using hlen) fun i h₁ h₂ => ?_
  have hi : i < schema.length := by simpa using h₁
  have hi' : i < row'.length := hlen ▸ hi
  have hat := List.getElem_of_eq h (by simpa using hi)
  have hname : namedValue schema.names row' schema[i].name = row'[i] := by
    have hget : schema.names[i]? = some schema[i].name := by simp [Schema.names, hi]
    rw [namedValue, lookup_zip hn hget, List.getElem?_eq_getElem hi']
    rfl
  rw [List.getElem_map, List.getElem_map] at hat ⊢
  rw [hname]
  cases hv : env.castTo schema[i].dataType (namedValue names row schema[i].name) with
  | error e =>
    rw [hv] at hat
    cases hat
  | ok v =>
    rw [hv] at hat
    have hnull : ¬ (v.isNull && !schema[i].nullable) = true := by
      intro hnull
      change (if (v.isNull && !schema[i].nullable) = true then _ else _) = _ at hat
      rw [if_pos hnull] at hat
      cases hat
    have heq : v = row'[i] := by
      change (if (v.isNull && !schema[i].nullable) = true then _ else _) = _ at hat
      rw [if_neg hnull] at hat
      exact Except.ok.inj hat
    rw [← heq, hcast _ _ _ hv]
    show (if (v.isNull && !schema[i].nullable) = true then _ else _) = _
    rw [if_neg hnull]

theorem insertedRows_row {schema : Schema} {columns : Option (List String)} {batches : List RecordBatch}
    {rows : List Row} (h : insertedRows env schema columns batches = .ok rows) {row : Row} (hr : row ∈ rows) :
    ∃ names source, castRow env schema names source = .ok row := by
  obtain ⟨source, -, hs⟩ := exists_of_mapM (insertedRows_cast h).1 hr
  exact ⟨_, source, hs⟩

/-! ## Tables apart -/

/-- Each listing table reads the directory of a table of the catalog with its columns, no directory is inside
another, the rows need no cast, and the buffer knows how many rows it has. -/
structure Housed (env : Env) (s : Db) : Prop where
  table : ∀ t p, s.ctx.lookup t = some p → ∃ m, s.catalog.tables.lookup t = some m ∧ p.dir = objPath m.path ∧
    columnsToSchema env m.columns = .ok p.schema ∧ p.schema.names.Nodup
  apart : ∀ t p u q, s.ctx.lookup t = some p → s.ctx.lookup u = some q → p.dir <+: q.dir → t = u
  typed : ∀ t p, s.ctx.lookup t = some p → ∀ row ∈ s.rows t, castRow env p.schema p.schema.names row = .ok row
  counted : ∀ t b, s.writeBuffer.lookup t = some b → b.rowCount = totalRows b.batches

/-- Each table is in the directory of its name. -/
def Located (s : Db) : Prop := ∀ t m, s.catalog.tables.lookup t = some m → objPath m.path = objPath t

/-- The rows are added to the table, in some order, and nothing else has changed. -/
structure Flushed (s : Db) (table : String) (added : List Row) (t : Db) : Prop where
  rows : (t.rows table).Perm (s.rows table ++ added)
  other : ∀ u, u ≠ table → t.relation u = s.relation u
  ctx : ∀ u, t.ctx.lookup u = s.ctx.lookup u
  catalog : t.catalog.forgetFiles = s.catalog.forgetFiles
  writeBuffer : t.writeBuffer = s.writeBuffer
  activeTxn : t.activeTxn = s.activeTxn
  /-- In a transaction no file is replaced. -/
  files : s.activeTxn.isSome → ∃ new, t.store = s.store ++ new ∧
    ∀ e ∈ new, added ≠ [] ∧ ∃ p, s.ctx.lookup table = some p ∧ e.1.dir = p.dir

theorem Flushed.of_same {t : Db} (h : t.tableState = s.tableState) (table : String) : Flushed s table [] t := by
  have hctx : t.ctx = s.ctx := congrArg TableState.ctx h
  have hrel := congrFun (relation_of_tables hctx (congrArg TableState.store h))
  have hcat : t.catalog = s.catalog := congrArg TableState.catalog h
  refine ⟨?_, fun u _ => hrel u, fun u => by rw [hctx], by rw [hcat], congrArg TableState.writeBuffer h,
    congrArg TableState.activeTxn h, fun _ => ⟨[], ?_, nofun⟩⟩
  · unfold Db.rows
    rw [hrel, List.append_nil]
  · rw [List.append_nil]
    exact congrArg TableState.store h

theorem Flushed.trans {table : String} {rows rows' : List Row} {t u : Db} (h : Flushed s table rows t)
    (h' : Flushed t table rows' u) : Flushed s table (rows ++ rows') u := by
  refine ⟨?_, fun v hv => (h'.other v hv).trans (h.other v hv), fun v => (h'.ctx v).trans (h.ctx v),
    h'.catalog.trans h.catalog, h'.writeBuffer.trans h.writeBuffer, h'.activeTxn.trans h.activeTxn, fun hin => ?_⟩
  · rw [← List.append_assoc]
    exact h'.rows.trans (h.rows.append_right rows')
  · obtain ⟨new, hnew, hdirs⟩ := h.files hin
    obtain ⟨new', hnew', hdirs'⟩ := h'.files (h.activeTxn ▸ hin)
    refine ⟨new ++ new', by rw [hnew', hnew, List.append_assoc], fun e he => ?_⟩
    rcases List.mem_append.mp he with he | he
    · obtain ⟨hne, hp⟩ := hdirs e he
      exact ⟨by simp [hne], hp⟩
    · obtain ⟨hne, p, hp, hd⟩ := hdirs' e he
      exact ⟨by simp [hne], p, (h.ctx table).symm.trans hp, hd⟩

theorem Flushed.housed {table : String} {rows : List Row} {t : Db} (h : Flushed s table rows t) (hs : Housed env s)
    (hrows : ∀ p, s.ctx.lookup table = some p → ∀ row ∈ rows, castRow env p.schema p.schema.names row = .ok row) :
    Housed env t := by
  constructor
  · intro u p hp
    rw [h.ctx] at hp
    obtain ⟨m, hm, hdir, hschema, hn⟩ := hs.table u p hp
    obtain ⟨m', hm', hcols, hpath⟩ := lookup_forgetFiles h.catalog.symm hm
    exact ⟨m', hm', hpath ▸ hdir, hcols ▸ hschema, hn⟩
  · intro u p v q hp hq
    rw [h.ctx] at hp hq
    exact hs.apart u p v q hp hq
  · intro u p hp row hrow
    rw [h.ctx] at hp
    by_cases hu : u = table
    · subst hu
      rcases List.mem_append.mp (h.rows.mem_iff.mp hrow) with hold | hnew
      · exact hs.typed u p hp row hold
      · exact hrows p hp row hnew
    · unfold Db.rows at hrow
      rw [h.other u hu] at hrow
      exact hs.typed u p hp row hrow
  · intro u b hb
    rw [h.writeBuffer] at hb
    exact hs.counted u b hb

theorem Flushed.located {table : String} {rows : List Row} {t : Db} (h : Flushed s table rows t) (hs : Located s) :
    Located t := by
  intro u m hm
  obtain ⟨m', hm', -, hpath⟩ := lookup_forgetFiles h.catalog hm
  rw [hpath]
  exact hs u m' hm'

/-- The rows that wait for the table go to a directory that no other table reads, under distinct column names. -/
structure Flushable (s : Db) (table : String) : Prop where
  columns : ∀ p, s.ctx.lookup table = some p → p.schema.names.Nodup
  apart : ∀ p u q, s.ctx.lookup table = some p → s.ctx.lookup u = some q → q.dir <+: p.dir → u = table

theorem Housed.flushable (h : Housed env s) (table : String) : Flushable s table := by
  constructor
  · intro p hp
    obtain ⟨-, -, -, -, hn⟩ := h.table table p hp
    exact hn
  · intro p u q hp hq hpre
    exact h.apart u q table p hq hp hpre

theorem Flushable.congr {table : String} {t : Db} (h : Flushable s table)
    (hctx : ∀ u, t.ctx.lookup u = s.ctx.lookup u) : Flushable t table := by
  constructor
  · intro p hp
    rw [hctx] at hp
    exact h.columns p hp
  · intro p u q hp hq
    rw [hctx] at hp hq
    exact h.apart p u q hp hq

/-- Rows in a new file are rows of the table. -/
theorem Appended.flushed {table : String} (hs : Flushable s table) {p : Provider} {columns : Option (List String)}
    {batches : List RecordBatch} {rows : List Row} {t : Db} (h : Appended s table p rows t)
    (hrows : insertedRows env p.schema columns batches = .ok rows) : Flushed s table rows t := by
  obtain ⟨time, hstore⟩ := h.store
  have hn := hs.columns p h.provider
  refine ⟨?_, fun u hu => ?_, fun u => by rw [h.ctx], h.catalog, h.writeBuffer, h.activeTxn, fun _ => ⟨_, hstore, ?_⟩⟩
  · rw [rows_of_lookup h.provider, rows_of_lookup ((congrArg _ h.ctx).trans h.provider)]
    unfold Store.read
    rw [hstore, Store.list_append, List.flatMap_append]
    refine List.Perm.append_left _ ?_
    by_cases hnil : rows = []
    · rw [if_pos hnil, hnil]
      exact List.Perm.refl _
    · rw [if_neg hnil]
      have hlist : Store.list [((⟨p.dir, s.nextFile⟩ : ObjPath), (⟨p.schema.map (·.name), rows, time⟩ : ParquetFile))]
          p.dir = [(⟨p.dir, s.nextFile⟩, ⟨p.schema.map (·.name), rows, time⟩)] := by
        unfold Store.list
        rw [List.filter_cons_of_pos (by simp)]
        rfl
      rw [hlist, List.flatMap_singleton]
      exact List.Perm.of_eq (@read_self _ _ time hn (castRows_length (insertedRows_cast hrows).1))
  · unfold Db.relation
    rw [h.ctx]
    cases hq : s.ctx.lookup u with
    | none => rfl
    | some q =>
      rw [Option.map_some, Option.map_some]
      unfold Store.read
      rw [hstore, Store.list_append]
      have hout : ¬ q.dir <+: p.dir := fun hp => hu (hs.apart p u q h.provider hq hp)
      by_cases hnil : rows = []
      · rw [if_pos hnil]
        simp [Store.list]
      · rw [if_neg hnil]
        unfold Store.list
        rw [List.filter_cons_of_neg (by simpa using hout)]
        simp
  · intro e he
    by_cases hnil : rows = []
    · rw [if_pos hnil] at he
      exact absurd he List.not_mem_nil
    · rw [if_neg hnil] at he
      rw [List.mem_singleton.mp he]
      exact ⟨hnil, p, h.provider, rfl⟩

/-! ## Compacting -/

theorem collect_schema {r : Relation} : ∀ b ∈ r.collect, b.schema = r.schema := by
  intro b hb
  unfold Relation.collect at hb
  split at hb
  · cases hb
  · obtain rfl := List.mem_singleton.mp hb
    rfl

theorem allRows_collect (r : Relation) : allRows r.collect = r.rows := by
  unfold Relation.collect
  by_cases h : r.rows.isEmpty
  · rw [if_pos h, List.isEmpty_iff.mp h]
    rfl
  · rw [if_neg h]
    exact List.append_nil _

theorem planInsert_self {schema : Schema} (hn : schema.names.Nodup) :
    planInsert schema none (schema.map (·.name)) = .ok schema.names := by
  have hn' : (schema.map (·.name)).Nodup := hn
  unfold planInsert
  simp only [Option.getD_none]
  rw [if_neg (not_not.mpr hn'), if_neg (by simp), if_neg (not_not.mpr hn'), if_pos]
  · rfl
  · simp only [List.all_eq_true, List.mem_map, List.any_eq_true, decide_eq_true_eq]
    rintro _ ⟨f, hf, rfl⟩
    exact ⟨f, hf, rfl⟩

theorem insertedRows_self {schema : Schema} (hn : schema.names.Nodup) {rows : List Row}
    (ht : ∀ row ∈ rows, castRow env schema schema.names row = .ok row) :
    insertedRows env schema none (⟨schema, rows⟩ : Relation).collect = .ok rows := by
  unfold Relation.collect
  by_cases hr : rows = []
  · subst hr
    rfl
  · rw [if_neg (by simpa using hr)]
    unfold insertedRows
    dsimp only
    rw [planInsert_self hn]
    refine mapM_ok_iff.mpr ?_
    unfold allRows
    rw [List.flatMap_singleton]
    exact List.map_congr_left ht

/-- Rewriting a table with rows that need no cast succeeds. -/
theorem result_rewriteTable {table : String} {m : TableMeta} {schema : Schema} {rows : List Row}
    (hm : s.catalog.tables.lookup table = some m) (hschema : columnsToSchema env m.columns = .ok schema)
    (hn : schema.names.Nodup) (ht : ∀ row ∈ rows, castRow env schema schema.names row = .ok row) :
    wp C (rewriteTable env table schema (⟨schema, rows⟩ : Relation).collect true) s fun r _ => r = .ok () := by
  have hlight : ∀ t, wp C (refreshTableFileStatsLight table) t fun r _ => r = .ok () :=
    fun _ => wp_refreshLight (fun _ _ => rfl) rfl
  unfold rewriteTable tableMeta diskSnapshot registerListingTable
  simp only [wp_bind, wp_get, hm, wp_pure, wp_emit, if_true]
  intro _ _
  refine wp_of_yields ?_ (yields_deleteParquetFiles ?_)
  · exact succeeds_bind.mpr ⟨_, rfl, succeeds_each_emit⟩
  · rw [wp_check, hschema]
    dsimp only
    intro _
    unfold writeRewritten
    split
    · rw [wp_bind, wp_attempt, wp_bind, wp_check, memTable_self (@collect_schema ⟨schema, rows⟩)]
      dsimp only
      refine wp_insertInto (fun hno _ => absurd ?_ hno) fun p rows' _ _ => ⟨fun _ => ?_, fun _ => ?_⟩
      · exact ⟨⟨objPath m.path, schema⟩, rows, AList.lookup_insert _, insertedRows_self hn ht⟩
      · exact wp_pure.mpr (hlight _)
      · exact wp_pure.mpr (hlight _)
    · exact wp_pure.mpr (hlight _)

theorem Housed.relation (h : Housed env s) {table : String} {r : Relation} (hr : s.relation table = some r) :
    ∃ p m, s.ctx.lookup table = some p ∧ s.catalog.tables.lookup table = some m ∧ p.dir = objPath m.path ∧
      columnsToSchema env m.columns = .ok p.schema ∧ p.schema.names.Nodup ∧ r = ⟨p.schema, s.rows table⟩ := by
  unfold Db.rows
  rw [hr]
  unfold Db.relation at hr
  obtain ⟨p, hp, rfl⟩ := Option.map_eq_some_iff.mp hr
  obtain ⟨m, hm, hdir, hschema, hn⟩ := h.table table p hp
  exact ⟨p, m, hp, hm, hdir, hschema, hn, rfl⟩

theorem Housed.apart_names (h : Housed env s) (hl : Located s) {t u : String} {p q : Provider}
    (hp : s.ctx.lookup t = some p) (hq : s.ctx.lookup u = some q) (hne : t ≠ u) {d : Dir}
    (hd : objPath t <+: d) : ¬ objPath u <+: d := by
  intro hd'
  obtain ⟨m, hm, hdir, -⟩ := h.table t p hp
  obtain ⟨m', hm', hdir', -⟩ := h.table u q hq
  rw [hl t m hm] at hdir
  rw [hl u m' hm'] at hdir'
  rcases prefix_cases hd hd' with hpre | hpre
  · exact hne (h.apart t p u q hp hq (by rwa [hdir, hdir']))
  · exact hne (h.apart u q t p hq hp (by rwa [hdir, hdir'])).symm

/-- A rewrite with the rows of the table in another order. -/
theorem Rewritten.flushed (h : Housed env s) (hl : Located s) (hout : ¬ s.activeTxn.isSome) {table : String} {p : Provider} {m : TableMeta}
    {rows : List Row} {t : Db} (hp : s.ctx.lookup table = some p) (hm : s.catalog.tables.lookup table = some m)
    (hw : Rewritten env s table m p.schema (⟨p.schema, rows⟩ : Relation).collect t) (hperm : rows.Perm (s.rows table)) :
    Flushed s table [] t := by
  obtain ⟨m', hm', hdir, -⟩ := h.table table p hp
  obtain rfl : m = m' := Option.some.inj (hm.symm.trans hm')
  have hpath := hl table m hm
  have hall := allRows_collect ⟨p.schema, rows⟩
  have hrel := hw.relation hpath fun row hrow => by
    rw [hall] at hrow
    exact h.typed table p hp row (hperm.mem_iff.mp hrow)
  obtain ⟨stats, hcat⟩ := hw.catalog
  refine ⟨?_, fun u hu => ?_, fun u => ?_, ?_, hw.writeBuffer, hw.activeTxn, fun hin => absurd hin hout⟩
  · unfold Db.rows
    rw [hrel, hall, List.append_nil]
    exact hperm
  · cases hq : s.ctx.lookup u with
    | none =>
      unfold Db.relation
      rw [hw.ctx, AList.lookup_insert_ne hu, AList.lookup_erase_ne hu, hq]
      rfl
    | some q =>
      refine hw.relation_other hpath hu (fun q' hq' => ?_) fun d hd => h.apart_names hl hq hp hu hd
      obtain ⟨mu, hmu, hdu, -⟩ := h.table u q' hq'
      rw [hdu, hl u mu hmu]
  · rw [hw.ctx]
    by_cases hu : u = table
    · rw [hu, AList.lookup_insert, hp, ← hdir]
    · rw [AList.lookup_insert_ne hu, AList.lookup_erase_ne hu]
  · rw [hcat, forgetFiles_setFileStats]

/-- Where the files of a table may be compacted, they are in the directory of its name. -/
def Compactable (env : Env) (s : Db) : Prop :=
  env.autoCompactFileThreshold = 0 ∨ s.activeTxn.isSome ∨ Located s

/-- A flush does not compact files, or compacts those of the table that was flushed. -/
def CompactsSafely (env : Env) (s : Db) : Prop :=
  env.autoCompactFileThreshold = 0 ∨ s.activeTxn.isSome ∨ (env.CastStable ∧ Housed env s ∧ Located s)

theorem Compactable.safely (hcast : env.CastStable) (h : Housed env s) (hl : Compactable env s) :
    CompactsSafely env s := by
  rcases hl with h₀ | h₁ | hloc
  · exact Or.inl h₀
  · exact Or.inr (Or.inl h₁)
  · exact Or.inr (Or.inr ⟨hcast, h, hloc⟩)

theorem Flushed.compactsSafely {table : String} {rows : List Row} {t : Db} (h : Flushed s table rows t)
    (hs : CompactsSafely env s) (hrows : env.CastStable → Housed env s →
      ∀ p, s.ctx.lookup table = some p → ∀ row ∈ rows, castRow env p.schema p.schema.names row = .ok row) :
    CompactsSafely env t := by
  rcases hs with h₀ | h₁ | ⟨hcast, hh, hloc⟩
  · exact Or.inl h₀
  · refine Or.inr (Or.inl ?_)
    rw [h.activeTxn]
    exact h₁
  · exact Or.inr (Or.inr ⟨hcast, h.housed hh (hrows hcast hh), h.located hloc⟩)

theorem wp_maybeAutoCompact (hc : CompactsSafely env s) {table : String}
    {Q : Except String Unit → Db → Prop} (hQ : ∀ r t, Flushed s table [] t → Q r t) :
    wp C (maybeAutoCompact env table) s Q := by
  have hsame : ∀ r, Q r s := fun r => hQ r s (Flushed.of_same rfl table)
  unfold maybeAutoCompact selectOrdered selectStar listParquetFiles
  simp only [wp_bind, wp_get]
  split
  · exact wp_pure.mpr (hsame _)
  · rename_i hoff
    obtain ⟨h, hloc⟩ : Housed env s ∧ Located s := by
      rcases hc with h₀ | h₁ | ⟨-, h, hloc⟩
      · exact absurd (Or.inl h₀) hoff
      · exact absurd (Or.inr h₁) hoff
      · exact ⟨h, hloc⟩
    simp only [wp_bind, wp_get, wp_pure]
    split
    · exact wp_pure.mpr (hsame _)
    · simp only [wp_bind, wp_get]
      cases hr : s.relation table with
      | none => exact wp_throw.mpr (hsame _)
      | some r =>
        obtain ⟨p, m, hp, hm, -, hschema, hn, rfl⟩ := h.relation hr
        rw [wp_pure]
        dsimp only
        split
        · rw [wp_pure]
          dsimp only
          have hsorted : ∀ rows, rows.Perm (s.rows table) →
              wp C (rewriteTable env table p.schema (⟨p.schema, rows⟩ : Relation).collect true) s Q := by
            intro rows hperm hc
            have hok := result_rewriteTable hm hschema hn
              (fun row hrow => h.typed table p hp row (hperm.mem_iff.mp hrow)) hc
            refine hQ _ _ (yields_rewriteTable (R := fun _ t => Flushed s table [] t) ?_ () hok)
            intro m' schema' t hm' hschema' hw
            obtain rfl : m = m' := Option.some.inj (hm.symm.trans hm')
            obtain rfl : p.schema = schema' := Except.ok.inj (hschema.symm.trans hschema')
            exact hw.flushed h hloc (fun hin => hoff (Or.inr hin)) hp hm hperm
          split
          · exact hsorted _ (List.Perm.refl _)
          · exact hsorted _ (env.sort_perm _ _ _)
        · exact wp_throw.mpr (hsame _)

/-! ## Flushing a table -/

/-- What the rows of a buffer are as rows of the table. -/
def bufferedRows (env : Env) (s : Db) (table : String) (b : BufferedInsert) : Except String (List Row) :=
  if b.IsEmpty then .ok []
  else
    match s.ctx.lookup table with
    | none => .error s!"table '{table}' not found"
    | some p => insertedRows env p.schema (insertColumns b.columns) b.batches

/-- The rows of a table that are in no file yet. -/
def Db.waiting (env : Env) (s : Db) (table : String) : Except String (List Row) :=
  match s.writeBuffer.lookup table with
  | none => .ok []
  | some b => bufferedRows env s table b

/-- There are rows of the table that are in no file. -/
def Db.HasWaiting (s : Db) (table : String) : Prop := ∃ b, s.writeBuffer.lookup table = some b ∧ ¬ b.IsEmpty

theorem waiting_of_not_hasWaiting {table : String} (h : ¬ s.HasWaiting table) : s.waiting env table = .ok [] := by
  unfold Db.waiting
  cases hb : s.writeBuffer.lookup table with
  | none => rfl
  | some b =>
    dsimp only
    unfold bufferedRows
    rw [if_pos]
    by_contra he
    exact h ⟨b, hb, he⟩

theorem Housed.removeBuffer (h : Housed env s) (table : String) : Housed env (apply s (.removeBuffer table)) := by
  refine ⟨h.table, h.apart, h.typed, fun t b hb => h.counted t b ?_⟩
  by_cases ht : t = table
  · subst ht
    change (s.writeBuffer.erase t).lookup t = some b at hb
    rw [AList.lookup_erase] at hb
    cases hb
  · change (s.writeBuffer.erase table).lookup t = some b at hb
    rwa [AList.lookup_erase_ne ht] at hb

theorem bufferedRows_typed (hcast : env.CastStable) (h : Housed env s) {table : String} {b : BufferedInsert}
    {rows : List Row} (hrows : bufferedRows env s table b = .ok rows) {p : Provider}
    (hp : s.ctx.lookup table = some p) : ∀ row ∈ rows, castRow env p.schema p.schema.names row = .ok row := by
  intro row hrow
  unfold bufferedRows at hrows
  split at hrows
  · cases hrows
    cases hrow
  · rw [hp] at hrows
    obtain ⟨names, source, hc⟩ := insertedRows_row hrows hrow
    obtain ⟨-, -, -, -, hn⟩ := h.table table p hp
    exact castRow_stable hcast hn hc

theorem CompactsSafely.removeBuffer (h : CompactsSafely env s) (table : String) :
    CompactsSafely env (apply s (.removeBuffer table)) := by
  rcases h with h₀ | h₁ | ⟨hcast, hh, hloc⟩
  · exact Or.inl h₀
  · exact Or.inr (Or.inl h₁)
  · exact Or.inr (Or.inr ⟨hcast, hh.removeBuffer table, hloc⟩)

/-- **A flush writes all rows of the buffer or none of them**, whether or not it fails. -/
theorem wp_flushTable {table : String} (h : s.HasWaiting table → Flushable s table) (hc : CompactsSafely env s)
    {Q : Except String Nat → Db → Prop} (hnone : s.writeBuffer.lookup table = none → Q (.ok 0) s)
    (hfail : ∀ b, s.writeBuffer.lookup table = some b → ¬ b.IsEmpty →
      ¬ Writable env (apply s (.removeBuffer table)) table b → ∀ e t,
      t.tableState = (apply s (.removeBuffer table)).tableState → Q (.error e) t)
    (hflush : ∀ b rows, s.writeBuffer.lookup table = some b → bufferedRows env s table b = .ok rows →
      (¬ b.IsEmpty → Writable env (apply s (.removeBuffer table)) table b) → ∀ r t,
      Flushed (apply s (.removeBuffer table)) table rows t → CompactsSafely env t → Q r t) :
    wp C (flushTable env table) s Q := by
  rw [flushTable_eq]
  simp only [wp_bind, wp_get]
  cases hb : s.writeBuffer.lookup table with
  | none => exact wp_pure.mpr (hnone hb)
  | some b =>
    simp only [wp_bind, wp_emit]
    intro _
    have hc' := hc.removeBuffer table
    refine wp_writeBuffered (fun he => ?_) (hfail b hb) fun he hw p rows t hrows ha => ?_
    · refine hflush b [] hb ?_ (absurd he) _ _ (Flushed.of_same rfl table) hc'
      unfold bufferedRows
      rw [if_pos he]
    · have hbuf : bufferedRows env s table b = .ok rows := by
        unfold bufferedRows
        rw [if_neg he, show s.ctx.lookup table = some p from ha.provider]
        exact hrows
      have h' : Flushable (apply s (.removeBuffer table)) table := (h ⟨b, hb, he⟩).congr fun _ => rfl
      have hf := ha.flushed h' hrows
      have hct := hf.compactsSafely hc' fun hcast hh q hq => bufferedRows_typed hcast hh hbuf hq
      refine ⟨fun e => hflush b rows hb hbuf (fun _ => hw) _ _ hf hct, ?_⟩
      refine wp_maybeAutoCompact hct fun r u hu => hflush b rows hb hbuf (fun _ => hw) _ _ ?_ ?_
      · rw [← List.append_nil rows]
        exact hf.trans hu
      · exact hu.compactsSafely hct fun _ _ _ _ _ hrow => absurd hrow List.not_mem_nil

/-! ## Flushing several tables -/

/-- The rows that were waiting for the tables of a list are in files, and nothing else has changed. -/
structure FlushedTables (env : Env) (s : Db) (tables : List String) (t : Db) : Prop where
  rows : ∀ u ∈ tables, ∃ rows, s.waiting env u = .ok rows ∧ (t.rows u).Perm (s.rows u ++ rows)
  other : ∀ u, u ∉ tables → t.relation u = s.relation u
  ctx : ∀ u, t.ctx.lookup u = s.ctx.lookup u
  catalog : t.catalog.forgetFiles = s.catalog.forgetFiles
  activeTxn : t.activeTxn = s.activeTxn
  writeBuffer : ∀ u, t.writeBuffer.lookup u = if u ∈ tables then none else s.writeBuffer.lookup u
  files : s.activeTxn.isSome → ∃ new, t.store = s.store ++ new ∧
    ∀ e ∈ new, ∃ u p, s.HasWaiting u ∧ s.ctx.lookup u = some p ∧ e.1.dir = p.dir

theorem waiting_congr {t : Db} {u : String} (hctx : t.ctx.lookup u = s.ctx.lookup u)
    (hbuf : t.writeBuffer.lookup u = s.writeBuffer.lookup u) : t.waiting env u = s.waiting env u := by
  unfold Db.waiting bufferedRows
  rw [hctx, hbuf]

/-- A successful flush of a table. -/
theorem yields_flushTable {table : String} (h : s.HasWaiting table → Flushable s table) (hc : CompactsSafely env s) :
    Yields (flushTable env table) s fun _ t => FlushedTables env s [table] t ∧ CompactsSafely env t := by
  intro a ha
  have hbuf : ∀ u, ((flushTable env table).final s).writeBuffer.lookup u =
      if u ∈ [table] then none else s.writeBuffer.lookup u := by
    intro u
    rw [lookup_flushTable]
    simp
  refine wp_flushTable (C := fun _ _ => True) (Q := fun r t => (∃ a, r = .ok a) → t = (flushTable env table).final s →
    FlushedTables env s [table] t ∧ CompactsSafely env t) h hc ?_ ?_ ?_ along_true ⟨a, ha⟩ rfl
  · intro hnone _ ht
    refine ⟨⟨fun u hu => ?_, fun _ _ => rfl, fun _ => rfl, rfl, rfl, fun u => by rw [← hbuf u, ← ht],
      fun _ => ⟨[], by rw [List.append_nil], nofun⟩⟩, hc⟩
    obtain rfl := List.mem_singleton.mp hu
    refine ⟨[], ?_, by rw [List.append_nil]⟩
    unfold Db.waiting
    rw [hnone]
  · rintro b - - - e t - ⟨_, hok⟩
    cases hok
  · intro b rows hb hrows _ r t hf hct _ ht
    refine ⟨⟨fun u hu => ?_, fun u hu => hf.other u (by simpa using hu), hf.ctx, hf.catalog, hf.activeTxn,
      fun u => by rw [← hbuf u, ← ht], fun hin => ?_⟩, hct⟩
    · obtain rfl := List.mem_singleton.mp hu
      refine ⟨rows, ?_, hf.rows⟩
      unfold Db.waiting
      rw [hb]
      exact hrows
    · obtain ⟨new, hnew, hdirs⟩ := hf.files hin
      refine ⟨new, hnew, fun e he => ?_⟩
      obtain ⟨hne, p, hp, hd⟩ := hdirs e he
      refine ⟨table, p, ⟨b, hb, fun hempty => hne ?_⟩, hp, hd⟩
      unfold bufferedRows at hrows
      rw [if_pos hempty] at hrows
      exact (Except.ok.inj hrows).symm

theorem FlushedTables.hasWaiting {tables : List String} {t : Db} (h : FlushedTables env s tables t) {u : String}
    (hw : t.HasWaiting u) : s.HasWaiting u := by
  obtain ⟨b, hb, he⟩ := hw
  rw [h.writeBuffer] at hb
  split at hb
  · cases hb
  · exact ⟨b, hb, he⟩

/-- Flushes one after the other. -/
theorem FlushedTables.append {tables others : List String} {t u : Db} (h : FlushedTables env s tables t)
    (h' : FlushedTables env t others u) : FlushedTables env s (tables ++ others) u := by
  refine ⟨fun v hv => ?_, fun v hv => ?_, fun v => (h'.ctx v).trans (h.ctx v), h'.catalog.trans h.catalog,
    h'.activeTxn.trans h.activeTxn, fun v => ?_, fun hin => ?_⟩
  · by_cases he : v ∈ tables
    · obtain ⟨rows, hrows, hperm⟩ := h.rows v he
      refine ⟨rows, hrows, ?_⟩
      by_cases hin : v ∈ others
      · -- a second flush finds nothing
        obtain ⟨rows', hrows', hperm'⟩ := h'.rows v hin
        have hnil : rows' = [] := by
          unfold Db.waiting at hrows'
          rw [h.writeBuffer, if_pos he] at hrows'
          exact (Except.ok.inj hrows').symm
        rw [hnil, List.append_nil] at hperm'
        exact hperm'.trans hperm
      · have hrel := h'.other v hin
        unfold Db.rows at hperm ⊢
        rwa [hrel]
    · have hin : v ∈ others := (List.mem_append.mp hv).resolve_left he
      obtain ⟨rows, hrows, hperm⟩ := h'.rows v hin
      have hwait : t.waiting env v = s.waiting env v := by
        refine waiting_congr (h.ctx v) ?_
        rw [h.writeBuffer, if_neg he]
      refine ⟨rows, hwait.symm.trans hrows, ?_⟩
      have hrel := h.other v he
      unfold Db.rows at hperm ⊢
      rwa [← hrel]
  · rw [List.mem_append, not_or] at hv
    exact (h'.other v hv.2).trans (h.other v hv.1)
  · rw [h'.writeBuffer, h.writeBuffer]
    by_cases hin : v ∈ others
    · rw [if_pos hin, if_pos (List.mem_append_right _ hin)]
    · rw [if_neg hin]
      by_cases he : v ∈ tables
      · rw [if_pos he, if_pos (List.mem_append_left _ he)]
      · rw [if_neg he, if_neg (by simp [he, hin])]
  · obtain ⟨new, hnew, hdirs⟩ := h.files hin
    obtain ⟨new', hnew', hdirs'⟩ := h'.files (h.activeTxn ▸ hin)
    refine ⟨new ++ new', by rw [hnew', hnew, List.append_assoc], fun e he => ?_⟩
    rcases List.mem_append.mp he with he | he
    · exact hdirs e he
    · obtain ⟨v, p, hv, hp, hd⟩ := hdirs' e he
      exact ⟨v, p, h.hasWaiting hv, (h.ctx v).symm.trans hp, hd⟩

theorem FlushedTables.refl (s : Db) : FlushedTables env s [] s :=
  ⟨nofun, fun _ _ => rfl, fun _ => rfl, rfl, rfl, fun _ => (if_neg List.not_mem_nil).symm,
    fun _ => ⟨[], by rw [List.append_nil], nofun⟩⟩

theorem yields_flushTables : ∀ (tables : List String) {s : Db}, (∀ table, s.HasWaiting table → Flushable s table) →
    CompactsSafely env s → Yields (flushTables env tables) s fun _ t =>
      FlushedTables env s tables t ∧ CompactsSafely env t
  | [], s, _, hc => yields_pure.mpr ⟨FlushedTables.refl s, hc⟩
  | table :: tables, s, h, hc => by
    rw [flushTables, yields_bind]
    refine (yields_flushTable (h table) hc).mono fun _ t ht => ?_
    rw [yields_bind]
    refine (yields_flushTables tables (fun u hu => ?_) ht.2).mono fun _ u hu => ?_
    · exact (h u (ht.1.hasWaiting hu)).congr ht.1.ctx
    · exact yields_pure.mpr ⟨ht.1.append hu.1, hu.2⟩

end

end PotatoDB
