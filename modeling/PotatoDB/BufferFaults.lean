import PotatoDB.BufferSound
import PotatoDB.RewriteFaults

/-!
# An INSERT into the buffer in which a step fails

The rows are put into the buffer first. A failed check takes them out again; a failed log or flush
does not.
-/

namespace PotatoDB

open Oplog Oplog.Prog
open Machine (apply)

/-! ## The steps -/

/-- The step of a flush that fails. -/
inductive FlushFault where
  /-- The INSERT of DataFusion, with no file written. -/
  | write
  /-- The removal of the rows from the Arrow log. -/
  | checkpoint
  | statistics
deriving DecidableEq

/-- The steps that fail. -/
structure BufferFaults where
  /-- In the flush of the rows with other columns. -/
  previous : Option FlushFault
  /-- The record in the Arrow log. -/
  append : Bool
  /-- In the flush of a full buffer. -/
  threshold : Option FlushFault

def BufferFaults.none : BufferFaults := ⟨.none, false, .none⟩

section
variable (env : Env)

/-- What a flush does up to the file with the rows. -/
def storeBuffered (fault : Option FlushFault) (table : String) (buffered : BufferedInsert) : M (List String × Merges) := do
  let targetColumns ← targetColumnsOf table buffered.columns
  let merges ← validateConstraintsBatch env table targetColumns buffered.batches .beforeInsert
  let _ ← nextTempTableName "flush"
  check (memTable ((buffered.batches.head?).elim [] (·.schema)) buffered.batches)
  failIf (fault = some .write)
  insertInto env table (insertColumns buffered.columns) buffered.batches
  return (targetColumns, merges)

/-- What it does with the statistics and the files. -/
def tidyTable (fault : Option FlushFault) (table : String) (rowCount : Nat) : M Nat := do
  maybeAutoAnalyze env table rowCount
  failIf (fault = some .statistics)
  refreshTableFileStatsLight table
  maybeAutoCompact env table
  return rowCount

def finishFlushUnder (fault : Option FlushFault) (table : String) (targetColumns : List String) (merges : Merges)
    (rowCount : Nat) : M Nat := do
  let _ ← validateConstraintsBatch env table targetColumns [] .afterInsert
  each (fun m => mergeUniquenessKeys m.1 m.2) merges
  if env.arrowWalEnabled then
    failIf (fault = some .checkpoint)
    emit (.arrowCheckpoint table)
  else pure ()
  tidyTable env fault table rowCount

/-- `flush_table`, one step of which may fail. -/
def flushTableUnder (fault : Option FlushFault) (table : String) : M Nat := do
  match (← get).writeBuffer.lookup table with
  | none => return 0
  | some buffered =>
    emit (.removeBuffer table)
    if buffered.rowCount = 0 ∨ buffered.batches = [] then return 0
    else
      let stored ← storeBuffered env fault table buffered
      finishFlushUnder env fault table stored.1 stored.2 buffered.rowCount

/-- Flushes the rows that wait with other columns. -/
def flushOther (fault : Option FlushFault) (table : String) (columns : Option (List String)) : M Unit := do
  match (← get).writeBuffer.lookup table with
  | some existing =>
    if existing.columns ≠ columns then
      let _ ← flushTableUnder env fault table
    else pure ()
  | none => pure ()

/-- Puts the rows into the buffer, where they stay if they pass their checks. -/
def bufferRows (table : String) (columns : Option (List String)) (batches : List RecordBatch) : M Unit := do
  let t ← now env
  let entry := bufferEntry (← get) table columns t
  emit (.setBuffer table { entry with
    batches := entry.batches ++ batches
    rowCount := entry.rowCount + totalRows batches
    approxBytes := entry.approxBytes + env.batchBytes batches })
  let targetColumns ← targetColumnsOf table entry.columns
  match ← attempt (validateConstraintsBatch env table targetColumns (entry.batches ++ batches) .beforeInsert) with
  | .error e =>
    emit (.setBuffer table entry)
    throw e
  | .ok _ => pure ()

def logRows (fails : Bool) (table : String) (batches : List RecordBatch) : M Unit := do
  let db ← get
  if !db.replayingWal && env.arrowWalEnabled then
    failIf fails
    emit (.arrowAppend table batches)
  else pure ()

def isFull (table : String) : M Bool := do
  let t ← now env
  return ((← get).writeBuffer.lookup table).any fun b =>
    b.rowCount ≥ env.writeBufferRowThreshold || b.approxBytes ≥ env.writeBufferByteThreshold ||
      t - b.firstBufferedAt ≥ env.writeBufferTimeThreshold

def flushIfFull (faults : BufferFaults) (table : String) (batches : List RecordBatch) : M (Nat × Bool) := do
  let full ← isFull env table
  if full then
    let _ ← flushTableUnder env faults.threshold table
  else pure ()
  return (totalRows batches, full)

/-- What follows once the rows are in the buffer. -/
def keepRows (faults : BufferFaults) (table : String) (batches : List RecordBatch) : M (Nat × Bool) := do
  logRows env faults.append table batches
  flushIfFull env faults table batches

/-- `buffer_insert_batches`, steps of which may fail. -/
def bufferInsertBatchesUnder (faults : BufferFaults) (table : String) (columns : Option (List String))
    (batches : List RecordBatch) : M (Nat × Bool) := do
  if totalRows batches = 0 then return (0, false)
  else
    flushOther env faults.previous table columns
    bufferRows env table columns batches
    keepRows env faults table batches

end

/-- Without a fault they are those of the engine. -/
theorem flushTableUnder_none (env : Env) (table : String) : flushTableUnder env none table = flushTable env table := by
  unfold flushTableUnder flushTable storeBuffered finishFlushUnder tidyTable
  simp only [bind_bind]
  rfl

theorem keepRows_none (env : Env) (table : String) (batches : List RecordBatch) :
    keepRows env .none table batches = keepBuffered env table batches := by
  unfold keepRows flushIfFull keepBuffered logRows isFull BufferFaults.none
  simp only [bind_bind, flushTableUnder_none]
  refine congrArg (get >>= ·) (funext fun db => ?_)
  by_cases hlog : (!db.replayingWal && env.arrowWalEnabled) = true
  · rw [if_pos hlog, if_pos hlog]
    simp only [bind_bind]
    rfl
  · rw [if_neg hlog, if_neg hlog]
    rfl

theorem bufferRows_keeps (env : Env) (table : String) (columns : Option (List String)) (batches : List RecordBatch) :
    (do bufferRows env table columns batches; keepRows env .none table batches) = appendBuffered env table columns batches := by
  rw [keepRows_none]
  unfold bufferRows appendBuffered bufferBehind
  simp only [bind_bind]
  refine congrArg (now env >>= ·) (funext fun t => congrArg (get >>= ·) (funext fun db => ?_))
  refine congrArg (emit _ >>= ·) (funext fun _ => congrArg (targetColumnsOf table _ >>= ·) (funext fun targetColumns => ?_))
  refine congrArg (attempt _ >>= ·) (funext fun r => ?_)
  cases r with
  | error e => rfl
  | ok merges => rfl

theorem bufferInsertBatchesUnder_none (env : Env) (table : String) (columns : Option (List String)) (batches : List RecordBatch) :
    bufferInsertBatchesUnder env .none table columns batches = bufferInsertBatches env table columns batches := by
  have hkeeps := bufferRows_keeps env table columns batches
  rw [bufferInsertBatches_eq]
  unfold bufferInsertBatchesUnder flushOther
  split
  · rfl
  · rw [← hkeeps]
    simp only [bind_bind]
    refine congrArg (get >>= ·) (funext fun db => ?_)
    cases db.writeBuffer.lookup table with
    | none => rfl
    | some existing =>
      dsimp only
      by_cases hcol : existing.columns ≠ columns
      · rw [if_pos hcol, if_pos hcol]
        simp only [bind_bind, BufferFaults.none, flushTableUnder_none]
        rfl
      · rw [if_neg hcol, if_neg hcol]
        rfl

/-! ## What a flush leaves -/

/-- The flush writes the rows that it took from the buffer. -/
def Writes (env : Env) (fault : Option FlushFault) (s : Db) (table : String) (b : BufferedInsert) : Prop :=
  fault ≠ some .write ∧ Writable env s table b

section
variable {env : Env} {fault : Option FlushFault} {C : Db → Op → Prop} {s : Db}

theorem wp_failIf {here : Bool} {Q : Except String Unit → Db → Prop} (hfail : here = true → Q (.error "injected failure") s)
    (hok : here = false → Q (.ok ()) s) : wp C (failIf here) s Q := by
  unfold failIf
  cases here with
  | false => exact wp_pure.mpr (hok rfl)
  | true => exact wp_throw.mpr (hfail rfl)

theorem wp_storeBuffered {table : String} {b : BufferedInsert} {Q : Except String (List String × Merges) → Db → Prop}
    (hfail : ¬ Writes env fault s table b → ∀ e t, t.tableState = s.tableState → Q (.error e) t)
    (hwrite : Writes env fault s table b → ∀ p rows targets merges t,
      insertedRows env p.schema (insertColumns b.columns) b.batches = .ok rows → Appended s table p rows t →
      Q (.ok (targets, merges)) t) :
    wp C (storeBuffered env fault table b) s Q := by
  unfold storeBuffered
  rw [wp_bind, wp_targetColumnsOf]
  dsimp only
  rw [wp_bind]
  refine wp_quiet (quiet_validate _ _ _ _) fun r s₁ hr h₁ => ?_
  cases r with
  | error e =>
    refine hfail (fun hw => ?_) e s₁ h₁
    obtain ⟨a, ha⟩ := hw.2.valid
    rw [ha] at hr
    cases hr
  | ok merges =>
    dsimp only
    rw [wp_bind]
    refine wp_quiet (emits_get.bind fun _ => (emits_emit fun _ => rfl).bind fun _ => emits_pure _) fun r s₂ hr' h₂ => ?_
    cases r with
    | error e => cases hr'
    | ok name =>
      have hsame := h₂.trans h₁
      dsimp only
      rw [wp_bind, wp_check]
      cases hm : memTable ((b.batches.head?).elim [] (·.schema)) b.batches with
      | error e =>
        refine hfail (fun hw => ?_) e s₂ hsame
        rw [hw.2.batches] at hm
        cases hm
      | ok _ =>
        dsimp only
        rw [wp_bind]
        refine wp_failIf (fun hhere => ?_) fun hhere => ?_
        · exact hfail (fun hw => hw.1 (of_decide_eq_true hhere)) _ s₂ hsame
        · dsimp only
          rw [wp_bind]
          refine wp_insertAppended hsame (fun hno e => ?_) fun p rows t hrows ha => ?_
          · exact hfail (fun hw => hno hw.2.rows) e s₂ hsame
          · have hw : Writes env fault s table b :=
              ⟨of_decide_eq_false hhere, ⟨merges, hr⟩, hm, p, rows, ha.provider, hrows⟩
            exact wp_pure.mpr (hwrite hw p rows _ _ t hrows ha)

/-- Once the rows are in a file they stay, whatever fails behind. -/
theorem wp_tidyTable {table : String} {n : Nat} {s₀ : Db} {p : Provider} {rows : List Row} {Q : Except String Nat → Db → Prop}
    (ha : Appended s₀ table p rows s)
    (h : ∀ t, Appended s₀ table p rows t → (∀ e, Q (.error e) t) ∧
      wp C (maybeAutoCompact env table) t fun r u => Q (r.map fun _ => n) u) :
    wp C (tidyTable env fault table n) s Q := by
  unfold tidyTable
  rw [wp_bind]
  refine wp_quiet (quiet_maybeAutoAnalyze table n) fun r t _ ht => ?_
  have hta := ha.of_same ht
  cases r with
  | error e => exact (h t hta).1 e
  | ok _ =>
    dsimp only
    rw [wp_bind]
    refine wp_failIf (fun _ => (h t hta).1 _) fun _ => ?_
    dsimp only
    rw [wp_bind]
    refine wp_refreshLight (fun stats dirty => ?_) ?_
    · exact wp_returning (h _ (hta.setFileStats stats dirty)).2
    · exact wp_returning (h t hta).2

theorem wp_finishFlushUnder {table : String} {targets : List String} {merges : Merges} {n : Nat} {s₀ : Db} {p : Provider}
    {rows : List Row} {Q : Except String Nat → Db → Prop} (ha : Appended s₀ table p rows s)
    (h : ∀ t, Appended s₀ table p rows t → (∀ e, Q (.error e) t) ∧
      wp C (maybeAutoCompact env table) t fun r u => Q (r.map fun _ => n) u) :
    wp C (finishFlushUnder env fault table targets merges n) s Q := by
  unfold finishFlushUnder
  rw [wp_bind]
  refine wp_quiet (quiet_validate _ _ _ _) fun r t _ ht => ?_
  cases r with
  | error e => exact (h t (ha.of_same ht)).1 e
  | ok _ =>
    dsimp only
    rw [wp_bind]
    refine wp_quiet (emits_each (fun m => emits_emit fun _ => rfl) merges) fun r u _ hu => ?_
    have hua := ha.of_same (hu.trans ht)
    cases r with
    | error e => exact (h u hua).1 e
    | ok _ =>
      dsimp only
      split
      · rw [wp_bind]
        refine wp_failIf (fun _ => (h u hua).1 _) fun _ => ?_
        dsimp only
        rw [wp_bind, wp_emit]
        exact fun _ => wp_tidyTable (hua.of_same rfl) h
      · exact wp_tidyTable hua h

/-- A flush writes all rows of the buffer or none of them, whatever fails. -/
theorem wp_flushTableUnder {table : String} {b : BufferedInsert} (hb : s.writeBuffer.lookup table = some b) (he : ¬ b.IsEmpty)
    (hf : Flushable s table) (hc : CompactsSafely env s) {Q : Except String Nat → Db → Prop}
    (hfail : ¬ Writes env fault (apply s (.removeBuffer table)) table b → ∀ e t,
      t.tableState = (apply s (.removeBuffer table)).tableState → Q (.error e) t)
    (hflush : Writes env fault (apply s (.removeBuffer table)) table b → ∀ rows r t, bufferedRows env s table b = .ok rows →
      Flushed (apply s (.removeBuffer table)) table rows t → CompactsSafely env t → Q r t) :
    wp C (flushTableUnder env fault table) s Q := by
  unfold flushTableUnder
  simp only [wp_bind, wp_get, hb, wp_emit]
  intro _
  have he' : ¬ (b.rowCount = 0 ∨ b.batches = []) := he
  rw [if_neg he', wp_bind]
  refine wp_storeBuffered (fun hw e t ht => hfail hw e t ht) fun hw p rows targets merges t hrows ha => ?_
  have hbuf : bufferedRows env s table b = .ok rows := by
    unfold bufferedRows
    rw [if_neg he, show s.ctx.lookup table = some p from ha.provider]
    exact hrows
  have hcr := hc.removeBuffer table
  have hfr : Flushable (apply s (.removeBuffer table)) table := hf.congr fun _ => rfl
  refine wp_finishFlushUnder ha fun u hu => ?_
  have hflushed := hu.flushed hfr hrows
  have hcu := hflushed.compactsSafely hcr fun hcast hh q hq => bufferedRows_typed hcast hh hbuf hq
  refine ⟨fun e => hflush hw rows _ _ hbuf hflushed hcu, wp_maybeAutoCompact hcu fun r v hv => hflush hw rows _ _ hbuf ?_ ?_⟩
  · rw [← List.append_nil rows]
    exact hflushed.trans hv
  · exact hv.compactsSafely hcu fun _ _ _ _ _ hrow => absurd hrow List.not_mem_nil

end

end PotatoDB
