import PotatoDB.AtomicInsert
import PotatoDB.Backup
import PotatoDB.LogSound

/-!
# Stopping and opening again

An opening puts the rows of the Arrow log into the files of their tables and takes them out of the log, so that further stops
and openings neither lose them nor write them again.
-/

namespace PotatoDB

open Oplog Oplog.Prog
open Machine (apply)

section
variable {env : Env} {s t u : Db} {table : String}

/-! ## The log during a flush -/

/-- The log of one table may have been emptied, and the settled part of the state is the same. -/
structure LogCut (table : String) (s t : Db) : Prop where
  settled : t.settled = s.settled
  others : ∀ v, v ≠ table → t.loggedBatches v = s.loggedBatches v
  own : t.loggedBatches table = s.loggedBatches table ∨ t.loggedBatches table = []

theorem LogCut.refl (table : String) (s : Db) : LogCut table s s := ⟨rfl, fun _ _ => rfl, Or.inl rfl⟩

theorem LogCut.trans (h : LogCut table s t) (h' : LogCut table t u) : LogCut table s u where
  settled := h'.settled.trans h.settled
  others := fun v hv => (h'.others v hv).trans (h.others v hv)
  own := by
    rcases h'.own with hsame | hnil
    · rw [hsame]
      exact h.own
    · exact Or.inr hnil

/-- A log without rows stays without rows. -/
theorem LogCut.no_rows (h : LogCut table s t) (hs : allRows (s.loggedBatches table) = []) :
    allRows (t.loggedBatches table) = [] := by
  rcases h.own with hsame | hnil
  · rw [hsame, hs]
  · rw [hnil]
    rfl

theorem loggedBatches_arrowCheckpoint (s : Db) (table v : String) :
    (apply s (.arrowCheckpoint table)).loggedBatches v = if v = table then [] else s.loggedBatches v := by
  show ((s.arrowLog.erase table).lookup v).getD [] = _
  by_cases hv : v = table
  · rw [hv, AList.lookup_erase, if_pos rfl]
    rfl
  · rw [AList.lookup_erase_ne hv, if_neg hv]
    rfl

def Op.Draining (table : String) (o : Op) : Prop := o.Flushing table ∨ o = .removeBuffer table

theorem logCut_writing (table : String) (s : Db) {o : Op} (h : o.Writing) : LogCut table s (apply s o) := by
  cases o <;> first | exact ⟨rfl, fun _ _ => rfl, Or.inl rfl⟩ | exact h.elim

theorem logCut_draining (s : Db) {o : Op} (h : o.Draining table) : LogCut table s (apply s o) := by
  obtain (h | rfl) | rfl := h
  · exact logCut_writing table s h
  · refine ⟨rfl, fun v hv => ?_, Or.inr ?_⟩
    · rw [loggedBatches_arrowCheckpoint, if_neg hv]
    · rw [loggedBatches_arrowCheckpoint, if_pos rfl]
  · exact ⟨rfl, fun _ _ => rfl, Or.inl rfl⟩

theorem logCut_final {α : Type} {p : M α} (hp : Emits (Op.Draining table) p) (s : Db) : LogCut table s (p.final s) :=
  hp.maintains (C := fun _ _ => True) (I := LogCut table s) (fun t _ ho _ ht => ht.trans (logCut_draining t ho)) s
    (LogCut.refl table s) along_true

theorem draining_of_writing {α : Type} {p : M α} (hp : Emits Op.Writing p) : Emits (Op.Draining table) p :=
  hp.mono fun _ h => Or.inl (Or.inl h)

theorem draining_flushTable (table : String) : Emits (Op.Draining table) (flushTable env table) := by
  rw [flushTable_eq]
  refine emits_get.bind fun db => ?_
  split
  · exact emits_pure _
  · refine Emits.bind (emits_emit (Or.inr rfl)) fun _ => ?_
    exact (flushing_writeBuffered table _).mono fun _ h => Or.inl h

/-- A flush that has written rows takes them out of the log. -/
theorem yields_flush_emptied (harrow : env.arrowWalEnabled = true) (hw : s.HasWaiting table) :
    Yields (flushTable env table) s fun _ t => t.loggedBatches table = [] := by
  have hfinish : ∀ targets merges n (s : Db), Yields (finishFlush env table targets merges n) s fun _ t =>
      t.loggedBatches table = [] := by
    intro targets merges n s
    unfold finishFlush
    rw [yields_bind]
    refine yields_true.mono fun _ s _ => ?_
    rw [yields_bind]
    refine yields_true.mono fun _ s _ => ?_
    rw [if_pos harrow, yields_bind, yields_emit]
    -- what follows does not write to the log
    have hrest := (@draining_of_writing table _ _ (@writing_maybeAutoAnalyze env table n)).bind fun _ =>
      (draining_of_writing (writing_refreshLight table)).bind fun _ =>
        (draining_of_writing (@writing_maybeAutoCompact env table)).bind fun _ => emits_pure n
    intro a _
    have hnil : (apply s (.arrowCheckpoint table)).loggedBatches table = [] := by
      rw [loggedBatches_arrowCheckpoint, if_pos rfl]
    rcases (logCut_final hrest (apply s (.arrowCheckpoint table))).own with hsame | h
    · exact hsame.trans hnil
    · exact h
  obtain ⟨b, hb, he⟩ := hw
  have he' : ¬ (b.rowCount = 0 ∨ b.batches = []) := he
  rw [flushTable_eq]
  simp only [yields_bind, yields_get, hb, yields_emit]
  unfold writeBuffered
  rw [if_neg he', yields_bind]
  refine yields_true.mono fun targets s _ => ?_
  rw [yields_bind]
  refine yields_true.mono fun merges s _ => ?_
  rw [yields_bind]
  refine yields_true.mono fun _ s _ => ?_
  rw [yields_bind]
  refine yields_true.mono fun _ s _ => ?_
  rw [yields_bind]
  exact yields_true.mono fun _ s _ => hfinish _ _ _ s

/-! ## One table -/

/-- Recovery is under way and nothing is in the buffer. -/
structure Recovering (env : Env) (s : Db) : Prop where
  replaying : s.replayingWal = true
  empty : ∀ v, s.writeBuffer.lookup v = none
  flushable : ∀ v, Flushable s v
  compacts : CompactsSafely env s

/-- Rows in the order of all columns, as the table stores them. -/
def recast (env : Env) (s : Db) (table : String) (row : Row) : Except String Row :=
  storedAs env (s.ctx.lookup table) (none, row)

/-- The logged rows are in files of the table and no longer in its log, and the other tables are as they were. -/
structure Landed (env : Env) (table : String) (batches : List RecordBatch) (s t : Db) : Prop where
  recovering : Recovering env t
  ctx : ∀ v, t.ctx.lookup v = s.ctx.lookup v
  catalog : t.catalog.forgetFiles = s.catalog.forgetFiles
  log : LogCut table s t
  rows : ∃ recovered, (allRows batches).map (recast env s table) = recovered.map .ok ∧
    (t.rows table).Perm (s.rows table ++ recovered)
  others : ∀ v, v ≠ table → t.relation v = s.relation v
  emptied : allRows batches ≠ [] → t.loggedBatches table = []

/-- The logged rows are in the buffer. -/
structure Waits (env : Env) (table : String) (batches : List RecordBatch) (s t : Db) : Prop where
  ctx : t.ctx = s.ctx
  store : t.store = s.store
  catalog : t.catalog = s.catalog
  activeTxn : t.activeTxn = s.activeTxn
  buffer : ∃ b : BufferedInsert, t.writeBuffer = s.writeBuffer.insert table b ∧ b.columns = none ∧ b.batches = batches ∧
    b.rowCount = totalRows batches ∧ b.approxBytes = env.batchBytes batches
  log : LogCut table s t

section
variable {batches : List RecordBatch}

theorem allRows_eq_nil : allRows batches = [] ↔ totalRows batches = 0 := by
  rw [← List.length_eq_zero_iff]
  simp [allRows, totalRows, RecordBatch.numRows, List.length_flatMap]

theorem Waits.of_same (h : Waits env table batches s t) (hsame : u.tableState = t.tableState) (hlog : LogCut table t u) :
    Waits env table batches s u := by
  obtain ⟨hstore, -, hctx, hcat, hbuf, htxn⟩ := TableState.mk.inj hsame
  exact ⟨hctx.trans h.ctx, hstore.trans h.store, hcat.trans h.catalog, htxn.trans h.activeTxn, by rw [hbuf]; exact h.buffer,
    h.log.trans hlog⟩

theorem Waits.compacts (h : Waits env table batches s t) (hs : Recovering env s) : CompactsSafely env t := by
  refine hs.compacts.of_tables ?_ h.store h.ctx h.catalog h.activeTxn
  obtain ⟨b, hb, -, hbatches, hn, hbytes⟩ := h.buffer
  have hsized : Sized env s := by
    intro v c hc
    rw [hs.empty v] at hc
    cases hc
  subst hbatches
  intro v c hc
  rw [hb] at hc
  exact hsized.setBuffer hn hbytes v c hc

theorem Waits.flushable (h : Waits env table batches s t) (hs : Recovering env s) (v : String) : Flushable t v :=
  (hs.flushable v).congr fun w => by rw [h.ctx]

theorem Waits.hasWaiting (h : Waits env table batches s t) (hrows : totalRows batches ≠ 0) : t.HasWaiting table := by
  obtain ⟨b, hb, -, hbatches, hn, -⟩ := h.buffer
  refine ⟨b, ?_, fun he => hrows ?_⟩
  · rw [hb, AList.lookup_insert]
  · rcases he with hzero | hnil
    · rw [← hn, hzero]
    · rw [← hbatches, hnil]
      rfl

/-- The flush of the rows that wait. -/
theorem Waits.landed (h : Waits env table batches s t) (hs : Recovering env s) (hrows : totalRows batches ≠ 0)
    (hf : FlushedTables env t [table] u) (hc : CompactsSafely env u) (hlog : LogCut table t u)
    (hnil : u.loggedBatches table = []) : Landed env table batches s u where
  recovering := by
    refine ⟨?_, fun v => ?_, fun v => ?_, hc⟩
    · have hlive : u.replayingWal = t.replayingWal := congrArg Settled.replayingWal hlog.settled
      have hlive' : t.replayingWal = s.replayingWal := congrArg Settled.replayingWal h.log.settled
      rw [hlive, hlive', hs.replaying]
    · rw [hf.writeBuffer]
      by_cases hv : v = table
      · rw [if_pos (by simp [hv])]
      · obtain ⟨b, hb, -⟩ := h.buffer
        rw [if_neg (by simp [hv]), hb, AList.lookup_insert_ne hv, hs.empty]
    · exact (h.flushable hs v).congr hf.ctx
  ctx := fun v => by rw [hf.ctx, h.ctx]
  catalog := by rw [hf.catalog, h.catalog]
  log := h.log.trans hlog
  rows := by
    obtain ⟨recovered, hwait, hperm⟩ := hf.rows table (by simp)
    obtain ⟨b, hb, hcolumns, hbatches, hn, -⟩ := h.buffer
    have he : ¬ b.IsEmpty := by
      obtain ⟨c, hc, he⟩ := h.hasWaiting hrows
      rw [hb, AList.lookup_insert] at hc
      cases hc
      exact he
    unfold Db.waiting bufferedRows at hwait
    rw [hb, AList.lookup_insert] at hwait
    dsimp only at hwait
    rw [if_neg he, h.ctx, hcolumns, hbatches] at hwait
    refine ⟨recovered, ?_, ?_⟩
    · cases hp : s.ctx.lookup table with
      | none =>
        rw [hp] at hwait
        cases hwait
      | some p =>
        rw [hp] at hwait
        have hcast := mapM_ok_iff.mp (insertedRows_cast hwait).1
        rw [← hcast]
        refine List.map_congr_left fun row _ => ?_
        unfold recast
        rw [hp]
        rfl
    · rw [show s.rows table = t.rows table from (congrFun (rows_of_tables h.ctx h.store) table).symm]
      exact hperm
  others := by
    intro v hv
    have hsame : t.relation v = s.relation v := by
      unfold Db.relation
      rw [h.ctx, h.store]
    exact (hf.other v (by simp [hv])).trans hsame
  emptied := fun _ => hnil

theorem yields_flush_waits (harrow : env.arrowWalEnabled = true) (hs : Recovering env s) (hrows : totalRows batches ≠ 0)
    (h : Waits env table batches s t) : Yields (flushTable env table) t fun _ u => Landed env table batches s u := by
  intro a ha
  obtain ⟨hf, hc⟩ := yields_flushTable (fun _ => h.flushable hs table) (h.compacts hs) a ha
  have hnil := yields_flush_emptied harrow (h.hasWaiting hrows) a ha
  exact h.landed hs hrows hf hc (logCut_final (draining_flushTable table) t) hnil

theorem bufferEntry_recovering (hs : Recovering env s) (h : t.writeBuffer = s.writeBuffer) (table : String) (time : Nat) :
    bufferEntry t table none time = ⟨none, [], 0, 0, time⟩ := by
  unfold bufferEntry
  rw [h, hs.empty]
  rfl

theorem waits_setBuffer (h : t.tableState = s.tableState) (hlog : LogCut table s t) (time : Nat) :
    Waits env table batches s (apply t (.setBuffer table ⟨none, [] ++ batches, 0 + totalRows batches,
      0 + env.batchBytes batches, time⟩)) := by
  obtain ⟨hstore, -, hctx, hcat, hbuf, htxn⟩ := TableState.mk.inj h
  refine ⟨hctx, hstore, hcat, htxn, ⟨⟨none, [] ++ batches, 0 + totalRows batches, 0 + env.batchBytes batches, time⟩, ?_,
    rfl, rfl, Nat.zero_add _, Nat.zero_add _⟩, ?_⟩
  · show t.writeBuffer.insert table _ = _
    rw [hbuf]
  · exact hlog.trans ⟨rfl, fun _ _ => rfl, Or.inl rfl⟩

theorem Waits.validated (h : Waits env table batches s t) (targets : List String) (bs : List RecordBatch) (phase : ValidationPhase) :
    Yields (validateConstraintsBatch env table targets bs phase) t fun _ u => Waits env table batches s u := by
  intro a _
  refine h.of_same ((quiet_validate _ _ _ _).final_eq (fun s _ ho => ho s) t) ?_
  exact logCut_final ((flushing_validate _ _ _ _).mono fun _ h => Or.inl h) t

theorem Waits.read_clock (h : Waits env table batches s t) : Yields (now env) t fun _ u => Waits env table batches s u := by
  intro a _
  exact h.of_same (quiet_now.final_eq (fun s _ ho => ho s) t) (logCut_final (draining_of_writing writing_now) t)

/-- What buffering does behind the checks leaves the rows in the buffer or in files. -/
theorem yields_keepBuffered (harrow : env.arrowWalEnabled = true) (hs : Recovering env s) (hrows : totalRows batches ≠ 0)
    (h : Waits env table batches s t) : Yields (keepBuffered env table batches) t fun _ u =>
      Waits env table batches s u ∨ Landed env table batches s u := by
  have hlive : t.replayingWal = true := by
    have hsame : t.replayingWal = s.replayingWal := congrArg Settled.replayingWal h.log.settled
    rw [hsame, hs.replaying]
  unfold keepBuffered
  simp only [yields_bind, yields_get]
  rw [if_neg (by simp [hlive])]
  rw [yields_bind]
  refine h.read_clock.mono fun t' u hu => ?_
  rw [yields_bind, yields_get]
  split
  · rw [yields_bind]
    exact (yields_flush_waits harrow hs hrows hu).mono fun _ v hv => yields_pure.mpr (Or.inr hv)
  · exact yields_pure.mpr (Or.inl hu)

/-- Rows that are buffered during recovery are in the buffer or in files. -/
theorem yields_buffer (harrow : env.arrowWalEnabled = true) (hs : Recovering env s) (hrows : totalRows batches ≠ 0) :
    Yields (bufferInsertBatches env table none batches) s fun _ t =>
      Waits env table batches s t ∨ Landed env table batches s t := by
  rw [bufferInsertBatches_eq, if_neg hrows]
  simp only [yields_bind, yields_get, hs.empty table]
  unfold appendBuffered
  rw [yields_bind]
  have hnow : Yields (now env) s fun _ t => t.tableState = s.tableState ∧ LogCut table s t := by
    intro a _
    exact ⟨quiet_now.final_eq (fun s _ ho => ho s) s, logCut_final (draining_of_writing writing_now) s⟩
  refine hnow.mono fun time t ht => ?_
  rw [yields_bind, yields_get]
  rw [bufferEntry_recovering hs (congrArg TableState.writeBuffer ht.1)]
  unfold bufferBehind
  rw [yields_bind, yields_emit]
  have hwaits := @waits_setBuffer env s t table batches ht.1 ht.2 time
  simp only [targetColumnsOf, yields_bind, yields_get, yields_pure]
  generalize apply t _ = u at hwaits ⊢
  rw [← yields_bind]
  refine yields_attempt_bind ((hwaits.validated _ _ _).mono fun _ v hv => ?_) fun e v => ?_
  · exact yields_keepBuffered harrow hs hrows hv
  · simp

end

/-- Opening the engine puts the logged rows of one table into its files. -/
theorem yields_recoverArrowTable (harrow : env.arrowWalEnabled = true) (hs : Recovering env s) (batches : List RecordBatch) :
    Yields (recoverArrowTable env table batches) s fun _ t =>
      if table ∈ s.catalog.tables then Landed env table batches s t else t = s := by
  unfold recoverArrowTable
  rw [yields_bind, yields_get]
  by_cases hin : table ∈ s.catalog.tables
  · have hlookup : (s.catalog.tables.lookup table).isSome = true := AList.lookup_isSome.mpr hin
    rw [if_pos hlookup]
    simp only [if_pos hin]
    rw [yields_bind]
    by_cases hrows : totalRows batches = 0
    · rw [bufferInsertBatches_eq, if_pos hrows, yields_pure, flushTable_eq]
      simp only [yields_bind, yields_get, hs.empty table, yields_pure]
      refine ⟨hs, fun _ => rfl, rfl, LogCut.refl _ _, ⟨[], ?_, by rw [List.append_nil]⟩, fun _ _ => rfl, fun h => ?_⟩
      · rw [allRows_eq_nil.mpr hrows]
        rfl
      · exact absurd (allRows_eq_nil.mpr hrows) h
    · refine (yields_buffer harrow hs hrows).mono fun _ t ht => ?_
      rw [yields_bind]
      rcases ht with hw | hl
      · exact (yields_flush_waits harrow hs hrows hw).mono fun _ u hu => yields_pure.mpr hu
      · rw [flushTable_eq]
        simp only [yields_bind, yields_get, hl.recovering.empty table, yields_pure]
        exact hl
  · have hlookup : ¬ (s.catalog.tables.lookup table).isSome = true := fun h => hin (AList.lookup_isSome.mp h)
    rw [if_neg hlookup, yields_pure, if_neg hin]

/-! ## All tables -/

/-- The rows of the entries are in the files of their tables and no longer in the log. -/
structure Drained (env : Env) (entries : List (String × List RecordBatch)) (s t : Db) : Prop where
  recovering : Recovering env t
  ctx : ∀ v, t.ctx.lookup v = s.ctx.lookup v
  settled : t.settled = s.settled
  landed : ∀ e ∈ entries, e.1 ∈ s.catalog.tables → ∃ recovered, (allRows e.2).map (recast env s e.1) = recovered.map .ok ∧
    (t.rows e.1).Perm (s.rows e.1 ++ recovered) ∧ (e.2 = s.loggedBatches e.1 → allRows (t.loggedBatches e.1) = [])
  others : ∀ v, v ∉ entries.map (·.1) → t.rows v = s.rows v ∧ t.loggedBatches v = s.loggedBatches v

theorem mem_of_forgetFiles {c c' : CatalogData} (h : c.forgetFiles = c'.forgetFiles) {v : String} (hv : v ∈ c.tables) :
    v ∈ c'.tables := by
  obtain ⟨m, hm⟩ := Option.isSome_iff_exists.mp (AList.lookup_isSome.mpr hv)
  obtain ⟨m', hm', -⟩ := lookup_forgetFiles h hm
  exact AList.lookup_isSome.mp (by simp [hm'])

theorem Landed.logged {batches : List RecordBatch} (h : Landed env table batches s t) (hb : batches = s.loggedBatches table) :
    allRows (t.loggedBatches table) = [] := by
  by_cases hrows : allRows batches = []
  · exact h.log.no_rows (hb ▸ hrows)
  · rw [h.emptied hrows]
    rfl

theorem Drained.cons {batches : List RecordBatch} {entries : List (String × List RecordBatch)}
    (hstep : if table ∈ s.catalog.tables then Landed env table batches s t else t = s) (hout : table ∉ entries.map (·.1))
    (h : Drained env entries t u) : Drained env ((table, batches) :: entries) s u := by
  by_cases hin : table ∈ s.catalog.tables
  · rw [if_pos hin] at hstep
    have hrows : ∀ v, v ≠ table → t.rows v = s.rows v := by
      intro v hv
      unfold Db.rows
      rw [hstep.others v hv]
    refine ⟨h.recovering, fun v => (h.ctx v).trans (hstep.ctx v), h.settled.trans hstep.log.settled, fun e he hstored => ?_,
      fun v hv => ?_⟩
    · rcases List.mem_cons.mp he with rfl | he
      · obtain ⟨hsame, hlog⟩ := h.others table hout
        obtain ⟨recovered, hcast, hperm⟩ := hstep.rows
        refine ⟨recovered, hcast, by rw [hsame]; exact hperm, fun hb => ?_⟩
        rw [hlog]
        exact hstep.logged hb
      · have hne : e.1 ≠ table := fun hname => hout (hname ▸ List.mem_map_of_mem he)
        obtain ⟨recovered, hcast, hperm, hlog⟩ := h.landed e he (mem_of_forgetFiles hstep.catalog.symm hstored)
        unfold recast at hcast ⊢
        rw [hstep.ctx] at hcast
        rw [hrows e.1 hne] at hperm
        rw [hstep.log.others e.1 hne] at hlog
        exact ⟨recovered, hcast, hperm, hlog⟩
    · rw [List.map_cons, List.mem_cons, not_or] at hv
      obtain ⟨hsame, hlog⟩ := h.others v hv.2
      exact ⟨hsame.trans (hrows v hv.1), hlog.trans (hstep.log.others v hv.1)⟩
  · rw [if_neg hin] at hstep
    subst hstep
    refine ⟨h.recovering, h.ctx, h.settled, fun e he hstored => ?_, fun v hv => ?_⟩
    · rcases List.mem_cons.mp he with rfl | he
      · exact absurd hstored hin
      · exact h.landed e he hstored
    · rw [List.map_cons, List.mem_cons, not_or] at hv
      exact h.others v hv.2

theorem yields_drain (harrow : env.arrowWalEnabled = true) (entries : List (String × List RecordBatch)) :
    ∀ s : Db, (entries.map (·.1)).Nodup → Recovering env s →
      Yields (each (fun e => recoverArrowTable env e.1 e.2) entries) s fun _ t => Drained env entries s t := by
  induction entries with
  | nil =>
    intro s _ hs
    rw [each, yields_pure]
    exact ⟨hs, fun _ => rfl, rfl, by simp, fun _ _ => ⟨rfl, rfl⟩⟩
  | cons e entries ih =>
    intro s hnodup hs
    obtain ⟨hout, hnodup⟩ := List.nodup_cons.mp hnodup
    rw [each, yields_bind]
    refine (yields_recoverArrowTable harrow hs e.2).mono fun _ t ht => ?_
    have hrec : Recovering env t := by
      split at ht
      · exact ht.recovering
      · rw [ht]
        exact hs
    exact (ih t hnodup hrec).mono fun _ u hu => hu.cons ht hout

/-! ## Opening -/

/-- The catalog that an opening loads. -/
def Db.storedCatalog (s : Db) : CatalogData := s.catalogDoc.getD .empty

/-- Stored tables as the engine makes them: under their names, with distinct columns, in directories apart, and typed where
files are compacted. -/
structure WellKept (env : Env) (s : Db) : Prop where
  named : s.storedCatalog.Named
  columns : ∀ n m schema, s.storedCatalog.tables.lookup n = some m → columnsToSchema env m.columns = .ok schema →
    schema.names.Nodup
  apart : ∀ n m n' m', s.storedCatalog.tables.lookup n = some m → s.storedCatalog.tables.lookup n' = some m' →
    objPath m.path <+: objPath m'.path → n = n'
  compacts : env.autoCompactFileThreshold = 0 ∨ env.CastStable ∧
    (∀ n m, s.storedCatalog.tables.lookup n = some m → objPath m.path = objPath n) ∧
    ∀ n m schema, s.storedCatalog.tables.lookup n = some m → columnsToSchema env m.columns = .ok schema →
      ∀ row ∈ s.store.read (objPath m.path) schema.names, castRow env schema schema.names row = .ok row

/-- Every stored table has its rows and those of the log, and the log has no rows of it. -/
structure Reopened (env : Env) (s t : Db) : Prop where
  catalogDoc : t.catalogDoc = s.catalogDoc
  walLog : t.walLog = s.walLog
  tables : ∀ n m, s.storedCatalog.tables.lookup n = some m → ∃ schema recovered, columnsToSchema env m.columns = .ok schema ∧
    (allRows (s.loggedBatches n)).map (castRow env schema schema.names) = recovered.map .ok ∧
    t.ctx.lookup n = some ⟨objPath m.path, schema⟩ ∧
    (t.store.read (objPath m.path) schema.names).Perm (s.store.read (objPath m.path) schema.names ++ recovered) ∧
    allRows (t.loggedBatches n) = []

theorem loggedBatches_eq_nil {n : String} (h : n ∉ s.arrowLog.keys) : s.loggedBatches n = [] := by
  unfold Db.loggedBatches
  rw [AList.lookup_eq_none.mpr fun hin => h (AList.mem_keys.mp hin)]
  rfl

theorem registered {c : CatalogData} {ctx : Map Provider} (h : RegistersFrom env c ∅ ctx) {n : String} {p : Provider}
    (hp : ctx.lookup n = some p) : ∃ m, c.tables.lookup n = some m ∧ p.dir = objPath m.path ∧
      columnsToSchema env m.columns = .ok p.schema := by
  by_cases hin : n ∈ c.tables
  · obtain ⟨m, hm⟩ := Option.isSome_iff_exists.mp (AList.lookup_isSome.mpr hin)
    obtain ⟨schema, hschema, hlookup⟩ := h.tables n m hm
    rw [hp] at hlookup
    cases hlookup
    exact ⟨m, hm, rfl, hschema⟩
  · rw [h.others n hin] at hp
    cases hp

theorem WellKept.recovering (h : WellKept env s) {ctx : Map Provider} (hctx : RegistersFrom env s.storedCatalog ∅ ctx) :
    Recovering env { s.restart with ctx := ctx, replayingWal := true } := by
  have hapart : ∀ n p n' p', ctx.lookup n = some p → ctx.lookup n' = some p' → p.dir <+: p'.dir → n = n' := by
    intro n p n' p' hp hp' hpre
    obtain ⟨m, hm, hdir, -⟩ := registered hctx hp
    obtain ⟨m', hm', hdir', -⟩ := registered hctx hp'
    exact h.apart n m n' m' hm hm' (hdir ▸ hdir' ▸ hpre)
  have hnodup : ∀ n p, ctx.lookup n = some p → p.schema.names.Nodup := by
    intro n p hp
    obtain ⟨m, hm, -, hschema⟩ := registered hctx hp
    exact h.columns n m _ hm hschema
  refine ⟨rfl, fun _ => rfl, fun v => ⟨fun p hp => hnodup v p hp, fun p n q hp hq hpre => hapart n q v p hq hp hpre⟩, ?_⟩
  rcases h.compacts with hoff | ⟨hcast, hloc, htyped⟩
  · exact Or.inl hoff
  · refine Or.inr (Or.inr ⟨hcast, ⟨fun n p hp => ?_, hapart, fun n p hp row hrow => ?_, fun n b hb => ?_⟩, hloc⟩)
    · obtain ⟨m, hm, hdir, hschema⟩ := registered hctx hp
      exact ⟨m, hm, hdir, hschema, hnodup n p hp⟩
    · obtain ⟨m, hm, hdir, hschema⟩ := registered hctx hp
      rw [rows_of_lookup hp, hdir] at hrow
      exact htyped n m _ hm hschema row hrow
    · cases hb

/-- **An opening reads the logged rows into the files of their tables.** -/
theorem yields_openDb_reopened (hwal : env.walEnabled = true) (harrow : env.arrowWalEnabled = true) (h : WellKept env s)
    (hreplay : replayEntries s.walLog = []) (fuel : Nat) :
    Yields (openDb env fuel) s.restart fun _ t => Reopened env s t := by
  unfold openDb
  rw [yields_bind]
  refine yields_reload h.named fun ctx hctx => ?_
  rw [yields_bind, yields_get]
  dsimp only
  rw [if_pos hwal]
  have hreplay' : replayEntries s.restart.walLog = [] := hreplay
  by_cases hkeys : s.restart.arrowLog.keys = []
  · rw [if_pos hkeys, if_pos hreplay', yields_pure]
    refine ⟨rfl, rfl, fun n m hm => ?_⟩
    obtain ⟨schema, hschema, hlookup⟩ := hctx.tables n m hm
    have hnil : s.loggedBatches n = [] := by
      refine loggedBatches_eq_nil fun hin => ?_
      rw [show s.arrowLog.keys = [] from hkeys] at hin
      cases hin
    refine ⟨schema, [], hschema, by rw [hnil]; rfl, hlookup, by rw [List.append_nil]; exact List.Perm.refl _, ?_⟩
    show allRows (s.loggedBatches n) = []
    rw [hnil]
    rfl
  · rw [if_neg hkeys, yields_bind, yields_emit, yields_bind]
    have hnodup : (s.restart.arrowLog.pairs.map (·.1)).Nodup := by
      rw [Map.pairs_keys]
      exact s.restart.arrowLog.keys_nodup
    refine (yields_drain harrow _ _ hnodup (h.recovering hctx)).mono fun _ t ht => ?_
    rw [yields_bind, yields_emit, if_pos hreplay', yields_pure]
    refine ⟨congrArg Settled.catalogDoc ht.settled, congrArg Settled.walLog ht.settled, fun n m hm => ?_⟩
    obtain ⟨schema, hschema, hlookup⟩ := hctx.tables n m hm
    have hfinal : t.ctx.lookup n = some ⟨objPath m.path, schema⟩ := (ht.ctx n).trans hlookup
    have hread : t.rows n = t.store.read (objPath m.path) schema.names := rows_of_lookup hfinal
    have hbefore : ({ s.restart with ctx := ctx, replayingWal := true } : Db).rows n =
        s.store.read (objPath m.path) schema.names := @rows_of_lookup _ n ⟨objPath m.path, schema⟩ hlookup
    by_cases hin : n ∈ s.restart.arrowLog.keys
    · obtain ⟨batches, hb⟩ := Option.isSome_iff_exists.mp (AList.lookup_isSome.mpr (AList.mem_keys.mpr hin))
      have hlogged : batches = s.loggedBatches n := by
        unfold Db.loggedBatches
        rw [show s.arrowLog.lookup n = some batches from hb]
        rfl
      have hstored : n ∈ s.storedCatalog.tables := AList.lookup_isSome.mp (by simp [hm])
      obtain ⟨recovered, hcast, hperm, hempty⟩ := ht.landed (n, batches) (Map.mem_pairs.mpr hb) hstored
      refine ⟨schema, recovered, hschema, ?_, hfinal, ?_, hempty hlogged⟩
      · rw [← hcast, ← hlogged]
        refine List.map_congr_left fun row _ => ?_
        show _ = storedAs env (ctx.lookup n) (none, row)
        rw [hlookup]
        rfl
      · show (t.store.read (objPath m.path) schema.names).Perm _
        rw [← hread, ← hbefore]
        exact hperm
    · have hnil : s.loggedBatches n = [] := loggedBatches_eq_nil hin
      have hout : n ∉ s.restart.arrowLog.pairs.map (·.1) := by
        rw [Map.pairs_keys]
        exact hin
      obtain ⟨hsame, hlog⟩ := ht.others n hout
      refine ⟨schema, [], hschema, by rw [hnil]; rfl, hfinal, ?_, ?_⟩
      · show (t.store.read (objPath m.path) schema.names).Perm _
        rw [← hread, hsame, List.append_nil]
        exact List.Perm.of_eq hbefore
      · show allRows (t.loggedBatches n) = []
        rw [hlog]
        exact congrArg allRows hnil

theorem Reopened.storedCatalog (h : Reopened env s t) : t.storedCatalog = s.storedCatalog :=
  congrArg (·.getD .empty) h.catalogDoc

/-- The rows that are put into a table need no cast any more. -/
theorem WellKept.reopened (h : WellKept env s) (ht : Reopened env s t) : WellKept env t := by
  have hcat := ht.storedCatalog
  refine ⟨hcat ▸ h.named, hcat ▸ h.columns, hcat ▸ h.apart, h.compacts.imp_right fun hc => ?_⟩
  rw [hcat]
  refine ⟨hc.1, hc.2.1, fun n m schema hm hschema row hrow => ?_⟩
  obtain ⟨schema', recovered, hschema', hcast, -, hperm, -⟩ := ht.tables n m hm
  rw [hschema] at hschema'
  cases hschema'
  rcases List.mem_append.mp (hperm.mem_iff.mp hrow) with hold | hnew
  · exact hc.2.2 n m schema hm hschema row hold
  · have hin : Except.ok row ∈ (allRows (s.loggedBatches n)).map (castRow env schema schema.names) :=
      hcast ▸ List.mem_map_of_mem hnew
    obtain ⟨source, -, hsource⟩ := List.mem_map.mp hin
    exact castRow_stable hc.1 (h.columns n m schema hm hschema) hsource

/-- Further openings find nothing to do. -/
theorem Reopened.again (h : Reopened env s t) (h' : Reopened env t u) : Reopened env s u where
  catalogDoc := h'.catalogDoc.trans h.catalogDoc
  walLog := h'.walLog.trans h.walLog
  tables := by
    intro n m hm
    obtain ⟨schema, recovered, hschema, hcast, -, hperm, hlog⟩ := h.tables n m hm
    obtain ⟨schema', recovered', hschema', hcast', hctx, hperm', hlog'⟩ := h'.tables n m (by rw [h.storedCatalog, hm])
    rw [hschema] at hschema'
    cases hschema'
    rw [hlog] at hcast'
    have hnil : recovered' = [] := by simpa using hcast'.symm
    rw [hnil, List.append_nil] at hperm'
    exact ⟨schema, recovered, hschema, hcast, hctx, hperm'.trans hperm, hlog'⟩

/-- The engine is stopped and opened again. -/
def Db.reopened (env : Env) (fuel : Nat) (s : Db) : Db := (openDb env fuel).final s.restart

end

/-! ## A stop with a buffered row -/

/-- `t` has a row in a file, and a row in the log. -/
def stoppedDb : Db := { savedDb with
  arrowLog := (∅ : Map (List RecordBatch)).insert "t" [⟨[⟨"column1", "BOOLEAN", true⟩], [[.bool false]]⟩] }

theorem stoppedDb_table {n : String} {m : TableMeta} (h : stoppedDb.storedCatalog.tables.lookup n = some m) :
    n = "t" ∧ m = ⟨"t", [⟨"a", "BOOLEAN", true⟩], "t", [], none, none, [], []⟩ := by
  have hentry : ∀ p ∈ stoppedDb.storedCatalog.tables.entries,
      p.1 = "t" ∧ p.2 = ⟨"t", [⟨"a", "BOOLEAN", true⟩], "t", [], none, none, [], []⟩ := by decide
  exact hentry ⟨n, m⟩ (List.of_mem_dlookup h)

theorem stoppedDb_wellKept : WellKept Env.plain stoppedDb where
  named := by
    intro n m h
    obtain ⟨rfl, rfl⟩ := stoppedDb_table h
    rfl
  columns := by
    intro n m schema h hschema
    obtain ⟨rfl, rfl⟩ := stoppedDb_table h
    cases hschema
    decide
  apart := by
    intro n m n' m' h h' _
    rw [(stoppedDb_table h).1, (stoppedDb_table h').1]
  compacts := Or.inl rfl

end PotatoDB
