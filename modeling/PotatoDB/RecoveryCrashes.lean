import PotatoDB.Crashes
import PotatoDB.Reopening

/-!
# Openings that are cut short

The rows of the Arrow log go into files before they go out of the log. An opening that is cut short between the two leaves
them in both, and the next opening puts them into the files again: never less than one copy, and at most one for each opening.
-/

namespace PotatoDB

open Oplog Oplog.Prog
open Machine (apply)

section
variable {env : Env} {s t u : Db} {table : String} {batches : List RecordBatch} {m n : Nat}

/-! ## Copies of the logged rows -/

/-- The logged rows of a table, cast to its columns. -/
def Db.castLog (env : Env) (s : Db) (table : String) (schema : Schema) : List (Except String Row) :=
  (allRows (s.loggedBatches table)).map (castRow env schema schema.names)

/-- At most `n` copies of the logged rows have got into the files of a table, and one at least if they are gone from the log. -/
def CopiedTable (env : Env) (n : Nat) (s t : Db) (table : String) (dir : Dir) (schema : Schema) : Prop :=
  ∃ k ≤ n, ∃ added, (List.replicate k (s.castLog env table schema)).flatten = added.map .ok ∧
    (t.store.read dir schema.names).Perm (s.store.read dir schema.names ++ added) ∧
    (allRows (t.loggedBatches table) = allRows (s.loggedBatches table) ∨ 1 ≤ k ∧ allRows (t.loggedBatches table) = [])

section
variable {dir : Dir} {schema : Schema}

theorem CopiedTable.of_same (hread : t.store.read dir schema.names = s.store.read dir schema.names)
    (hlog : allRows (t.loggedBatches table) = allRows (s.loggedBatches table)) : CopiedTable env n s t table dir schema :=
  ⟨0, Nat.zero_le n, [], rfl, by rw [hread, List.append_nil], Or.inl hlog⟩

theorem CopiedTable.mono (h : CopiedTable env m s t table dir schema) (hmn : m ≤ n) : CopiedTable env n s t table dir schema := by
  obtain ⟨k, hk, h⟩ := h
  exact ⟨k, by omega, h⟩

/-- What is gone from the log is not copied again. -/
theorem CopiedTable.trans_emptied (h : CopiedTable env m s t table dir schema) (hnil : allRows (t.loggedBatches table) = [])
    (h' : CopiedTable env n t u table dir schema) : CopiedTable env m s u table dir schema := by
  obtain ⟨k, hk, added, hcast, hperm, hlog⟩ := h
  obtain ⟨k', -, added', hcast', hperm', hlog'⟩ := h'
  have hcastLog : t.castLog env table schema = [] := by
    unfold Db.castLog
    rw [hnil]
    rfl
  have hadded : added' = [] := by simpa [hcastLog] using hcast'.symm
  rw [hadded, List.append_nil] at hperm'
  have hnil' : allRows (u.loggedBatches table) = [] := by
    rcases hlog' with hsame | ⟨-, h⟩
    · rw [hsame, hnil]
    · exact h
  refine ⟨k, hk, added, hcast, hperm'.trans hperm, hlog.imp (fun hsame => ?_) fun h => ⟨h.1, hnil'⟩⟩
  rw [hnil', ← hsame, hnil]

theorem CopiedTable.trans (h : CopiedTable env m s t table dir schema) (h' : CopiedTable env n t u table dir schema) :
    CopiedTable env (m + n) s u table dir schema := by
  obtain ⟨k, hk, added, hcast, hperm, hlog⟩ := id h
  rcases hlog with hsame | ⟨-, hnil⟩
  · obtain ⟨k', hk', added', hcast', hperm', hlog'⟩ := h'
    have hcastLog : t.castLog env table schema = s.castLog env table schema := by
      unfold Db.castLog
      rw [hsame]
    refine ⟨k + k', by omega, added ++ added', ?_, ?_, ?_⟩
    · rw [List.replicate_add, List.flatten_append, hcast, ← hcastLog, hcast', List.map_append]
    · rw [← List.append_assoc]
      exact hperm'.trans (hperm.append_right _)
    · rw [hsame] at hlog'
      exact hlog'.imp_right fun h => ⟨by omega, h.2⟩
  · exact (h.trans_emptied hnil h').mono (by omega)

/-- Copies of a list that are all in place are copies of what is in place. -/
theorem copies_ok {l : List (Except String Row)} {added : List Row} {k : Nat}
    (h : (List.replicate k l).flatten = added.map .ok) (hk : 1 ≤ k) :
    ∃ recovered, l = recovered.map .ok ∧ added = (List.replicate k recovered).flatten := by
  obtain ⟨k, rfl⟩ : ∃ j, k = j + 1 := ⟨k - 1, by omega⟩
  have hfirst := h
  rw [List.replicate_succ, List.flatten_cons] at hfirst
  obtain ⟨recovered, rest, -, hl, -⟩ := List.map_eq_append_iff.mp hfirst.symm
  refine ⟨recovered, hl.symm, ?_⟩
  have hmap : added.map (Except.ok : Row → Except String Row) = (List.replicate (k + 1) recovered).flatten.map .ok := by
    rw [← h, ← hl, List.map_flatten, List.map_replicate]
  exact (List.map_injective_iff.mpr fun _ _ h => Except.ok.inj h) hmap

end

/-- On the disk, at most `n` copies of the rows of the log have got into the files of each table. -/
structure Copied (env : Env) (n : Nat) (s t : Db) : Prop where
  catalogDoc : t.catalogDoc = s.catalogDoc
  walLog : t.walLog = s.walLog
  tables : ∀ v m schema, s.storedCatalog.tables.lookup v = some m → columnsToSchema env m.columns = .ok schema →
    CopiedTable env n s t v (objPath m.path) schema

theorem Copied.of_disk (hstore : t.store = s.store) (hlog : t.arrowLog = s.arrowLog) (hdoc : t.catalogDoc = s.catalogDoc)
    (hwal : t.walLog = s.walLog) : Copied env n s t := by
  refine ⟨hdoc, hwal, fun v m schema _ _ => CopiedTable.of_same (by rw [hstore]) ?_⟩
  unfold Db.loggedBatches
  rw [hlog]

theorem Copied.storedCatalog (h : Copied env n s t) : t.storedCatalog = s.storedCatalog :=
  congrArg (·.getD .empty) h.catalogDoc

theorem Copied.trans (h : Copied env m s t) (h' : Copied env n t u) : Copied env (m + n) s u where
  catalogDoc := h'.catalogDoc.trans h.catalogDoc
  walLog := h'.walLog.trans h.walLog
  tables := fun v _ _ hm hschema => (h.tables v _ _ hm hschema).trans (h'.tables v _ _ (by rw [h.storedCatalog, hm]) hschema)

/-! ## The rows of one table on their way -/

/-- What a crash leaves, and where the engine finds the tables. -/
structure Standing where
  store : Store
  nextFile : Nat
  ctx : Map Provider
  arrowLog : Map (List RecordBatch)
  settled : Settled

def Db.standing (s : Db) : Standing := ⟨s.store, s.nextFile, s.ctx, s.arrowLog, s.settled⟩

/-- The operation does not write to the disk. -/
def Op.Calm (o : Op) : Prop := ∀ s : Db, (apply s o).standing = s.standing

theorem calm_validate (table : String) (targetColumns : List String) (batches : List RecordBatch) (phase : ValidationPhase) :
    Emits Op.Calm (validateConstraintsBatch env table targetColumns batches phase) := by
  refine (checking_validateConstraintsBatch _ _ _ _).mono fun o ho => ?_
  cases o with
  | cacheInsert _ _ => exact fun _ => rfl
  | _ => exact ho.elim

theorem calm_now : Emits Op.Calm (now env) :=
  emits_get.bind fun _ => Emits.bind (emits_emit fun _ => rfl) fun _ => emits_pure _

theorem calm_nextTempTableName (tag : String) : Emits Op.Calm (nextTempTableName tag) :=
  emits_get.bind fun _ => Emits.bind (emits_emit fun _ => rfl) fun _ => emits_pure _

theorem readOnly_targetColumnsOf (table : String) (columns : Option (List String)) : ReadOnly (targetColumnsOf table columns) := by
  unfold targetColumnsOf
  split
  · exact readOnly_pure _
  · exact readOnly_get.bind fun _ => readOnly_pure _

/-- Behind the writing of the rows of a table, only its log is cut. -/
def Op.Tidying (table : String) (o : Op) : Prop := o.Calm ∨ o = .arrowCheckpoint table

theorem tidying_finishFlush (hoff : env.autoCompactFileThreshold = 0) (table : String) (targets : List String) (merges : Merges)
    (n : Nat) : Emits (Op.Tidying table) (finishFlush env table targets merges n) := by
  have hcalm : ∀ {α : Type} {p : M α}, Emits Op.Calm p → Emits (Op.Tidying table) p := fun hp => hp.mono fun _ h => Or.inl h
  have hanalyze : Emits Op.Calm (maybeAutoAnalyze env table n) := by
    unfold maybeAutoAnalyze
    split
    · exact emits_pure _
    · refine emits_get.bind fun db => ?_
      dsimp only
      split
      · exact emits_emit fun _ => rfl
      · exact emits_emit fun _ => rfl
  have hrefresh : Emits Op.Calm (refreshTableFileStatsLight table) := by
    unfold refreshTableFileStatsLight listParquetFiles
    refine (emits_get.bind fun _ => emits_pure _).bind fun paths => emits_get.bind fun db => ?_
    split
    · refine Emits.bind (emits_get.bind fun _ => emits_emit fun _ => rfl) fun _ => ?_
      unfold catalogSave
      refine emits_get.bind fun db => ?_
      split
      · exact emits_pure _
      · exact emits_emit fun _ => rfl
    · exact emits_pure _
  have hcompact : Emits Op.Calm (maybeAutoCompact env table) := by
    unfold maybeAutoCompact
    refine emits_get.bind fun db => ?_
    rw [if_pos (Or.inl hoff)]
    exact emits_pure _
  have hrest := (hcalm hanalyze).bind fun _ => (hcalm hrefresh).bind fun _ => (hcalm hcompact).bind fun _ => emits_pure n
  unfold finishFlush
  refine (hcalm (calm_validate _ _ _ _)).bind fun _ => ?_
  refine Emits.bind (emits_each (fun _ => hcalm (emits_emit fun _ => rfl)) _) fun _ => ?_
  dsimp only
  split
  · exact Emits.bind (emits_emit (Or.inr rfl)) fun _ => hrest
  · exact hrest

/-- The rows are in a file of the table, and may be in the log still. -/
structure Written (env : Env) (table : String) (batches : List RecordBatch) (s t : Db) : Prop where
  ctx : ∀ v, t.ctx.lookup v = s.ctx.lookup v
  log : LogCut table s t
  rows : ∃ added, (allRows batches).map (recast env s table) = added.map .ok ∧ (t.rows table).Perm (s.rows table ++ added)
  others : ∀ v, v ≠ table → t.relation v = s.relation v

theorem Landed.written (h : Landed env table batches s t) : Written env table batches s t := ⟨h.ctx, h.log, h.rows, h.others⟩

theorem logCut_of_standing (h : t.standing = s.standing) : LogCut table s t where
  settled := congrArg Standing.settled h
  others := fun v _ => by
    unfold Db.loggedBatches
    rw [show t.arrowLog = s.arrowLog from congrArg Standing.arrowLog h]
  own := Or.inl (by
    unfold Db.loggedBatches
    rw [show t.arrowLog = s.arrowLog from congrArg Standing.arrowLog h])

theorem relation_of_standing (h : t.standing = s.standing) : t.relation = s.relation :=
  relation_of_tables (congrArg Standing.ctx h) (congrArg Standing.store h)

theorem Written.of_standing (h : Written env table batches s t) (hu : u.standing = t.standing) : Written env table batches s u where
  ctx := fun v => by rw [show u.ctx = t.ctx from congrArg Standing.ctx hu, h.ctx]
  log := h.log.trans (logCut_of_standing hu)
  rows := by
    rw [show u.rows table = t.rows table by unfold Db.rows; rw [relation_of_standing hu]]
    exact h.rows
  others := fun v hv => by rw [relation_of_standing hu, h.others v hv]

theorem Written.tidying (h : Written env table batches s t) {o : Op} (ho : o.Tidying table) :
    Written env table batches s (apply t o) := by
  rcases ho with hcalm | rfl
  · exact h.of_standing (hcalm t)
  · exact ⟨h.ctx, h.log.trans (logCut_draining t (Or.inl (Or.inr rfl))), h.rows, h.others⟩

/-- The rows are not on their way yet, or they are written. -/
def InFlight (env : Env) (table : String) (batches : List RecordBatch) (s t : Db) : Prop :=
  t.standing = s.standing ∨ Written env table batches s t

/-! ## A flush that is cut short -/

theorem written_of_appended {p : Provider} {rows : List Row} (hk : t.standing = s.standing) (hn : Flushable t table)
    (happ : Appended t table p rows u) (hrows : insertedRows env p.schema none batches = .ok rows) (hcut : LogCut table t u) :
    Written env table batches s u := by
  have hctx : t.ctx = s.ctx := congrArg Standing.ctx hk
  have hf := happ.flushed hn hrows
  refine ⟨fun v => by rw [hf.ctx, hctx], (logCut_of_standing hk).trans hcut, ⟨rows, ?_, ?_⟩, fun v hv => ?_⟩
  · have hcast := mapM_ok_iff.mp (insertedRows_cast hrows).1
    rw [← hcast]
    refine List.map_congr_left fun row _ => ?_
    unfold recast
    rw [← hctx, happ.provider]
    rfl
  · have hsame : t.rows table = s.rows table := by
      unfold Db.rows
      rw [relation_of_standing hk]
    rw [← hsame]
    exact hf.rows
  · rw [hf.other v hv, relation_of_standing hk]

theorem written_putFile {p : Provider} {rows : List Row} (hk : t.standing = s.standing) (hn : Flushable t table)
    (hp : t.ctx.lookup table = some p) (hrows : insertedRows env p.schema none batches = .ok rows) (hne : rows ≠ []) (time : Nat) :
    Written env table batches s (apply t (.putFile p.dir ⟨p.schema.map (·.name), rows, time⟩)) :=
  written_of_appended hk hn ⟨hp, ⟨time, by rw [if_neg hne]; rfl⟩, rfl, rfl, rfl, rfl⟩ hrows ⟨rfl, fun _ _ => rfl, Or.inl rfl⟩

theorem throughout_insertInto (hk : t.standing = s.standing) (hn : Flushable t table) :
    Throughout (InFlight env table batches s) (insertInto env table none batches) t := by
  have hstart : InFlight env table batches s t := Or.inl hk
  unfold insertInto
  refine throughout_get_bind ?_
  cases hp : t.ctx.lookup table with
  | none => exact throughout_throw hstart
  | some p =>
    refine throughout_check_bind hstart fun rows hrows => ?_
    cases rows with
    | nil => exact throughout_pure hstart
    | cons row rows =>
      simp only [List.isEmpty_cons, Bool.false_eq_true, if_false]
      unfold now
      simp only [bind_bind]
      refine throughout_get_bind (throughout_emit_bind hstart ?_)
      rw [bind_pure_left]
      -- the reading of the clock leaves the disk alone
      have hput : ∀ (c : Counters) (time : Nat), Written env table batches s
          (apply (apply t (.setCounters c)) (.putFile p.dir ⟨p.schema.map (·.name), row :: rows, time⟩)) := fun c time =>
        written_putFile (show (apply t (.setCounters c)).standing = s.standing from hk) (hn.congr fun _ => rfl) hp hrows (by simp) time
      exact throughout_emit (Or.inl hk) (Or.inr (hput _ _))

theorem yields_insertInto_written (hk : t.standing = s.standing) (hn : Flushable t table) :
    Yields (insertInto env table none batches) t fun _ u => Written env table batches s u := by
  refine yields_insertInto fun p rows hp hrows => ⟨fun hnil => ?_, fun hne => ?_⟩
  · exact written_of_appended hk hn ⟨hp, ⟨0, by rw [if_pos hnil, List.append_nil]⟩, rfl, rfl, rfl, rfl⟩ hrows (LogCut.refl _ _)
  · exact (written_putFile hk hn hp hrows hne (env.time t.counters.clockReadings)).of_standing rfl

/-- A flush of the rows that wait, wherever it is stopped. -/
theorem throughout_flush_waits (hoff : env.autoCompactFileThreshold = 0) (hs : Recovering env s)
    (hw : Waits env table batches s t) (hk : t.standing = s.standing) :
    Throughout (InFlight env table batches s) (flushTable env table) t := by
  obtain ⟨b, hb, hcolumns, hbatches, -⟩ := hw.buffer
  have hlookup : t.writeBuffer.lookup table = some b := by rw [hb, AList.lookup_insert]
  have hkeep : ∀ (u : Db) (o : Op), o.Calm → u.standing = s.standing → (apply u o).standing = s.standing :=
    fun u o ho hu => (ho u).trans hu
  have hn : ∀ u : Db, u.standing = s.standing → Flushable u table := fun u hu =>
    (hs.flushable table).congr fun v => by rw [show u.ctx = s.ctx from congrArg Standing.ctx hu]
  rw [flushTable_eq]
  refine throughout_get_bind ?_
  rw [hlookup]
  refine throughout_emit_bind (Or.inl hk) ?_
  have hk' : (apply t (.removeBuffer table)).standing = s.standing := hk
  unfold writeBuffered
  rw [hcolumns, hbatches]
  split
  · exact throughout_pure (Or.inl hk')
  · refine throughout_bind_keeps (readOnly_targetColumnsOf _ _).emits hkeep (fun _ h => Or.inl h) hk' fun targets u _ hu _ => ?_
    refine throughout_bind_keeps (calm_validate _ _ _ _) hkeep (fun _ h => Or.inl h) hu fun merges u _ hu _ => ?_
    refine throughout_bind_keeps (calm_nextTempTableName _) hkeep (fun _ h => Or.inl h) hu fun _ u _ hu _ => ?_
    refine throughout_check_bind (Or.inl hu) fun _ _ => ?_
    refine throughout_bind (throughout_insertInto hu (hn u hu)) ((yields_insertInto_written hu (hn u hu)).mono fun _ v hv => ?_)
    refine ((tidying_finishFlush hoff table targets merges b.rowCount).throughout (fun _ _ ho h => ?_) hv).mono fun _ h => Or.inr h
    exact h.tidying ho

/-! ## One table -/

theorem calm_keeps (t : Db) (o : Op) (ho : o.Calm) (h : t.standing = s.standing) : (apply t o).standing = s.standing :=
  (ho t).trans h

theorem throughout_keepBuffered (hoff : env.autoCompactFileThreshold = 0) (hs : Recovering env s)
    (hw : Waits env table batches s t) (hk : t.standing = s.standing) :
    Throughout (InFlight env table batches s) (keepBuffered env table batches) t := by
  have hlive : t.replayingWal = true := by
    have hsame : t.replayingWal = s.replayingWal := congrArg (fun d => d.settled.replayingWal) hk
    rw [hsame, hs.replaying]
  have hnow : Throughout (fun u => u.standing = s.standing) (now env) t := calm_now.throughout calm_keeps hk
  unfold keepBuffered
  refine throughout_get_bind ?_
  dsimp only
  rw [if_neg (by simp [hlive])]
  refine throughout_bind (hnow.mono fun _ h => Or.inl h) fun time htime => ?_
  have hw' := hw.read_clock time htime
  have hk' := hnow.final
  refine throughout_get_bind ?_
  split
  · refine throughout_bind (throughout_flush_waits hoff hs hw' hk') fun _ _ => ?_
    exact throughout_pure (throughout_flush_waits hoff hs hw' hk').final
  · exact throughout_pure (Or.inl hk')

theorem throughout_buffer (hoff : env.autoCompactFileThreshold = 0) (hs : Recovering env s) (hrows : totalRows batches ≠ 0) :
    Throughout (InFlight env table batches s) (bufferInsertBatches env table none batches) s := by
  rw [bufferInsertBatches_eq, if_neg hrows]
  refine throughout_get_bind ?_
  rw [hs.empty table]
  dsimp only
  unfold appendBuffered
  have hnow : Throughout (fun u => u.standing = s.standing) (now env) s := calm_now.throughout calm_keeps rfl
  refine throughout_bind (hnow.mono fun _ h => Or.inl h) fun time _ => ?_
  have hk := hnow.final
  have htables : ((now env).final s).tableState = s.tableState := quiet_now.final_eq (fun s _ ho => ho s) s
  refine throughout_get_bind ?_
  rw [bufferEntry_recovering hs (congrArg TableState.writeBuffer htables)]
  unfold bufferBehind
  refine throughout_emit_bind (Or.inl hk) ?_
  have hw := @waits_setBuffer env s _ table batches htables (logCut_of_standing hk) time
  have hk' : (apply ((now env).final s) (.setBuffer table ⟨none, [] ++ batches, 0 + totalRows batches,
      0 + env.batchBytes batches, time⟩)).standing = s.standing := hk
  dsimp only
  generalize apply ((now env).final s) _ = u at hw hk' ⊢
  refine throughout_bind ((readOnly_targetColumnsOf _ _).throughout (Or.inl hk')) fun targets _ => ?_
  rw [(readOnly_targetColumnsOf _ _).final]
  have hvalid := (@calm_validate env table targets ([] ++ batches) .beforeInsert).throughout calm_keeps hk'
  refine throughout_attempt_bind (hvalid.mono fun _ h => Or.inl h) (fun merges hmerges => ?_) fun e _ => ?_
  · exact throughout_keepBuffered hoff hs (hw.validated _ _ _ merges hmerges) hvalid.final
  · exact throughout_emit_bind (Or.inl hvalid.final) (throughout_throw (Or.inl hvalid.final))

/-- Rows in the buffer and rows in files are not the same rows. -/
theorem Waits.not_written (hw : Waits env table batches s t) (hrows : totalRows batches ≠ 0) :
    ¬ Written env table batches s t := by
  intro h
  obtain ⟨added, hcast, hperm⟩ := h.rows
  rw [show t.rows table = s.rows table from congrFun (rows_of_tables hw.ctx hw.store) table] at hperm
  have hlength := hperm.length_eq
  rw [List.length_append] at hlength
  have hnone : added = [] := List.length_eq_zero_iff.mp (by omega)
  rw [hnone, List.map_nil, List.map_eq_nil_iff] at hcast
  exact hrows (allRows_eq_nil.mp hcast)

theorem throughout_recoverArrowTable (hoff : env.autoCompactFileThreshold = 0) (harrow : env.arrowWalEnabled = true)
    (hs : Recovering env s) (batches : List RecordBatch) :
    Throughout (InFlight env table batches s) (recoverArrowTable env table batches) s := by
  have hstart : InFlight env table batches s s := Or.inl rfl
  have hempty : ∀ u, Recovering env u → InFlight env table batches s u →
      Throughout (InFlight env table batches s) (flushTable env table >>= fun _ => pure ()) u := by
    intro u hu h
    rw [flushTable_eq]
    simp only [bind_bind]
    refine throughout_get_bind ?_
    rw [hu.empty table]
    exact throughout_pure h
  unfold recoverArrowTable
  refine throughout_get_bind ?_
  split
  · by_cases hrows : totalRows batches = 0
    · rw [bufferInsertBatches_eq, if_pos hrows, bind_pure_left]
      exact hempty s hs hstart
    · have hbuffer := @throughout_buffer env s table batches hoff hs hrows
      refine throughout_bind hbuffer fun a ha => ?_
      rcases yields_buffer harrow hs hrows a ha with hw | hl
      · have hk := hbuffer.final.resolve_right (hw.not_written hrows)
        have hflush := throughout_flush_waits hoff hs hw hk
        exact throughout_bind hflush fun _ _ => throughout_pure hflush.final
      · exact hempty _ hl.recovering (Or.inr hl.written)
  · exact throughout_pure hstart

/-! ## All tables -/

/-- The engine finds the stored tables. -/
def Registers (env : Env) (s : Db) : Prop := ∀ v m schema, s.storedCatalog.tables.lookup v = some m →
  columnsToSchema env m.columns = .ok schema → s.ctx.lookup v = some ⟨objPath m.path, schema⟩

theorem read_of_relation {dir : Dir} {schema : Schema} (hs : s.ctx.lookup table = some ⟨dir, schema⟩)
    (ht : t.ctx.lookup table = some ⟨dir, schema⟩) (h : t.relation table = s.relation table) :
    t.store.read dir schema.names = s.store.read dir schema.names := by
  have hread : ∀ (u : Db), u.ctx.lookup table = some ⟨dir, schema⟩ → u.rows table = u.store.read dir schema.names := fun u hu =>
    rows_of_lookup hu
  rw [← hread t ht, ← hread s hs]
  unfold Db.rows
  rw [h]

theorem InFlight.copied (hreg : Registers env s) (hb : batches = s.loggedBatches table) (h : InFlight env table batches s t) :
    Copied env 1 s t := by
  rcases h with h | h
  · exact Copied.of_disk (congrArg Standing.store h) (congrArg Standing.arrowLog h) (congrArg (fun d => d.settled.catalogDoc) h)
      (congrArg (fun d => d.settled.walLog) h)
  · refine ⟨congrArg Settled.catalogDoc h.log.settled, congrArg Settled.walLog h.log.settled, fun v m schema hm hschema => ?_⟩
    have hlookup := hreg v m schema hm hschema
    have hlookup' := (h.ctx v).trans hlookup
    by_cases hv : v = table
    · subst hv
      obtain ⟨added, hcast, hperm⟩ := h.rows
      refine ⟨1, le_refl _, added, ?_, ?_, ?_⟩
      · rw [← hcast, hb]
        unfold recast
        rw [hlookup]
        exact List.append_nil _
      · rw [rows_of_lookup hlookup', rows_of_lookup hlookup] at hperm
        exact hperm
      · refine h.log.own.imp (fun hsame => by rw [hsame]) fun hnil => ⟨le_refl _, ?_⟩
        rw [hnil]
        rfl
    · exact CopiedTable.of_same (read_of_relation hlookup hlookup' (h.others v hv)) (by rw [h.log.others v hv])

theorem Landed.copied (hreg : Registers env s) (hb : batches = s.loggedBatches table) (h : Landed env table batches s t)
    (h' : Copied env 1 t u) : Copied env 1 s u := by
  have hcopied := InFlight.copied hreg hb (Or.inr h.written)
  refine ⟨h'.catalogDoc.trans hcopied.catalogDoc, h'.walLog.trans hcopied.walLog, fun v m schema hm hschema => ?_⟩
  have hrest := h'.tables v m schema (by rw [hcopied.storedCatalog, hm]) hschema
  by_cases hv : v = table
  · exact (hcopied.tables v m schema hm hschema).trans_emptied (by rw [hv]; exact h.logged hb) hrest
  · have hlookup := hreg v m schema hm hschema
    have hsame : CopiedTable env 0 s t v (objPath m.path) schema :=
      CopiedTable.of_same (read_of_relation hlookup ((h.ctx v).trans hlookup) (h.others v hv)) (by rw [h.log.others v hv])
    exact hsame.trans hrest

theorem Landed.registers (hreg : Registers env s) (h : Landed env table batches s t) : Registers env t := by
  intro v m schema hm hschema
  have hdoc : t.catalogDoc = s.catalogDoc := congrArg Settled.catalogDoc h.log.settled
  rw [show t.storedCatalog = s.storedCatalog from congrArg (·.getD .empty) hdoc] at hm
  rw [h.ctx, hreg v m schema hm hschema]

/-- Recovery, wherever it is stopped. -/
theorem throughout_drain (hoff : env.autoCompactFileThreshold = 0) (harrow : env.arrowWalEnabled = true)
    (entries : List (String × List RecordBatch)) : ∀ s : Db, (entries.map (·.1)).Nodup →
      (∀ e ∈ entries, e.2 = s.loggedBatches e.1) → Recovering env s → Registers env s →
      Throughout (Copied env 1 s) (each (fun e => recoverArrowTable env e.1 e.2) entries) s := by
  induction entries with
  | nil =>
    intro s _ _ _ _
    rw [each]
    exact throughout_pure (Copied.of_disk rfl rfl rfl rfl)
  | cons e entries ih =>
    intro s hnodup hlogged hs hreg
    obtain ⟨hout, hnodup⟩ := List.nodup_cons.mp hnodup
    have hb := hlogged e List.mem_cons_self
    have hlogged' : ∀ e' ∈ entries, e'.2 = s.loggedBatches e'.1 := fun e' he' => hlogged e' (List.mem_cons_of_mem _ he')
    rw [each]
    refine throughout_bind ((throughout_recoverArrowTable hoff harrow hs e.2).mono fun _ h => h.copied hreg hb) fun a ha => ?_
    have hstep := @yields_recoverArrowTable env s e.1 harrow hs e.2 a ha
    generalize (recoverArrowTable env e.1 e.2).final s = t at hstep ⊢
    split at hstep
    · refine (ih t hnodup (fun e' he' => ?_) hstep.recovering (hstep.registers hreg)).mono fun u hu => hstep.copied hreg hb hu
      have hne : e'.1 ≠ e.1 := fun h => hout (List.mem_map.mpr ⟨e', he', h⟩)
      rw [hstep.log.others e'.1 hne]
      exact hlogged' e' he'
    · rw [hstep]
      exact ih s hnodup hlogged' hs hreg

/-! ## Opening -/

theorem registersFrom_registers {ctx : Map Provider} (h : RegistersFrom env s.storedCatalog ∅ ctx) :
    Registers env { s.restart with ctx := ctx, replayingWal := true } := by
  intro v m schema hm hschema
  obtain ⟨schema', hschema', hlookup⟩ := h.tables v m hm
  rw [hschema] at hschema'
  cases hschema'
  exact hlookup

/-- An opening, wherever it is stopped. -/
theorem throughout_openDb (hwal : env.walEnabled = true) (harrow : env.arrowWalEnabled = true)
    (hoff : env.autoCompactFileThreshold = 0) (h : WellKept env s) (hreplay : replayEntries s.walLog = []) (fuel : Nat) :
    Throughout (Copied env 1 s) (openDb env fuel) s.restart := by
  have hstart : Copied env 1 s s.restart := Copied.of_disk rfl rfl rfl rfl
  have hreload : Emits (fun o => ∃ name p, o = .registerTable name p) (reloadTables env) := by
    unfold reloadTables
    exact emits_get.bind fun db => (emits_check _).bind fun specs => emits_each (fun _ => emits_emit ⟨_, _, rfl⟩) _
  unfold openDb
  refine throughout_bind (hreload.throughout (fun t o ho ht => ?_) hstart) (yields_reload h.named fun ctx hctx => ?_)
  · obtain ⟨name, p, rfl⟩ := ho
    exact ⟨ht.catalogDoc, ht.walLog, ht.tables⟩
  · have hloaded : Copied env 1 s { s.restart with ctx := ctx } := Copied.of_disk rfl rfl rfl rfl
    refine throughout_get_bind ?_
    dsimp only
    rw [if_pos hwal]
    have hreplay' : replayEntries s.restart.walLog = [] := hreplay
    by_cases hkeys : s.restart.arrowLog.keys = []
    · rw [if_pos hkeys, if_pos hreplay']
      exact throughout_pure hloaded
    · rw [if_neg hkeys]
      refine throughout_emit_bind hloaded ?_
      have hnodup : (s.restart.arrowLog.pairs.map (·.1)).Nodup := by
        rw [Map.pairs_keys]
        exact s.restart.arrowLog.keys_nodup
      have hlogged : ∀ e ∈ s.restart.arrowLog.pairs, e.2 = s.loggedBatches e.1 := by
        intro e he
        unfold Db.loggedBatches
        rw [show s.arrowLog.lookup e.1 = some e.2 from Map.mem_pairs.mp he]
        rfl
      have hdrain : Throughout (Copied env 1 s) (each (fun e => recoverArrowTable env e.1 e.2) s.restart.arrowLog.pairs)
          { s.restart with ctx := ctx, replayingWal := true } :=
        (throughout_drain hoff harrow _ { s.restart with ctx := ctx, replayingWal := true } hnodup hlogged (h.recovering hctx)
          (registersFrom_registers hctx)).mono fun _ h => ⟨h.catalogDoc, h.walLog, h.tables⟩
      refine throughout_bind hdrain fun _ _ => throughout_emit_bind hdrain.final ?_
      rw [if_pos hreplay']
      exact throughout_pure ⟨hdrain.final.catalogDoc, hdrain.final.walLog, hdrain.final.tables⟩

theorem WellKept.copied (hoff : env.autoCompactFileThreshold = 0) (h : WellKept env s) (ht : Copied env n s t) : WellKept env t := by
  have hcat := ht.storedCatalog
  exact ⟨hcat ▸ h.named, hcat ▸ h.columns, hcat ▸ h.apart, Or.inl hoff⟩

theorem Crashes.copied (hwal : env.walEnabled = true) (harrow : env.arrowWalEnabled = true)
    (hoff : env.autoCompactFileThreshold = 0) (h : WellKept env s) (hreplay : replayEntries s.walLog = []) {fuel : Nat}
    (hcrash : Crashes Db.restart (openDb env fuel) s n t) : Copied env n s t := by
  refine @Prog.Crashes.invariant _ _ _ _ _ _ _ _ _ _ (Copied env · s) hcrash (Copied.of_disk rfl rfl rfl rfl) fun n u hu => ?_
  have hreplay' : replayEntries u.walLog = [] := by rw [hu.walLog, hreplay]
  exact (throughout_openDb hwal harrow hoff (h.copied hoff hu) hreplay' fuel).mono fun _ hv => hu.trans hv

end

/-! ## An opening that is cut short behind the file -/

/-- The row of the log is in a file, and in the log still. -/
def cutDb : Db := after stoppedDb.restart (((openDb Env.plain 0).ops stoppedDb.restart).take 9)

end PotatoDB
