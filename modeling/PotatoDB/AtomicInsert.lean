import PotatoDB.BufferFaults

/-!
# INSERTs into the buffer, all or nothing

An INSERT that fails leaves none of its rows and takes none from before, unless it fails where the
log or a flush has already got them.
-/

namespace PotatoDB

open Oplog Oplog.Prog
open Machine (apply)

/-! ## What an INSERT must leave -/

/-- The sizes in the buffer are those of its batches. -/
def Sized (env : Env) (s : Db) : Prop := ∀ table b, s.writeBuffer.lookup table = some b →
  b.rowCount = totalRows b.batches ∧ b.approxBytes = env.batchBytes b.batches

/-- The bytes of batches are those of each, added up. -/
structure Env.AddsBytes (env : Env) : Prop where
  nil : env.batchBytes [] = 0
  append : ∀ bs cs, env.batchBytes (bs ++ cs) = env.batchBytes bs + env.batchBytes cs

/-- Rows that were put into the Arrow log are still in it. -/
def LeavesLogged (table : String) (os : List Op) : Prop :=
  ∃ before batches behind, os = before ++ .arrowAppend table batches :: behind ∧ .arrowCheckpoint table ∉ behind

/-- Of an INSERT that succeeds the table or the buffer has each row once, and of one that fails nothing is left, in the log
neither. The rows from before are there in either case, and the sizes are right. -/
def AllOrNothing (env : Env) (table : String) (rows : Multiset Supplied) (s : Db) (r : Except String (Nat × Bool))
    (os : List Op) : Prop :=
  Sized env (after s os) ∧
    match r with
    | .ok _ => Conserved env s (after s os) (onTable table rows)
    | .error _ => Conserved env s (after s os) (fun _ => 0) ∧ ¬ LeavesLogged table os

/-- Buffered rows are put into the Arrow log. -/
def Db.Logs (env : Env) (s : Db) : Prop := (!s.replayingWal && env.arrowWalEnabled) = true

/-- The INSERT fails at no step that takes rows with it: a flush of other columns writes them, the log takes the record, and
the flush of a full buffer succeeds, or it cannot write and there was nothing in the buffer before and no log. -/
def Unharmed (env : Env) (faults : BufferFaults) (table : String) (columns : Option (List String)) (batches : List RecordBatch)
    (s : Db) : Prop :=
  totalRows batches = 0 ∨
    (∀ b, s.writeBuffer.lookup table = some b → b.columns ≠ columns → ¬ b.IsEmpty →
      Writes env faults.previous (apply s (.removeBuffer table)) table b) ∧
    Yields (flushOther env faults.previous table columns) s fun _ s₁ =>
      Yields (bufferRows env table columns batches) s₁ fun _ s₂ =>
        (s₂.Logs env → faults.append = false) ∧
        Yields (logRows env faults.append table batches) s₂ fun _ s₃ =>
          Yields (isFull env table) s₃ fun full s₄ => full = true →
            Succeeds (flushTableUnder env faults.threshold table) s₄ ∨
              ¬ s₂.Logs env ∧ s₁.buffered table = 0 ∧ ∀ b, s₄.writeBuffer.lookup table = some b →
                ¬ Writes env faults.threshold (apply s₄ (.removeBuffer table)) table b

section
variable {env : Env} {fault : Option FlushFault} {C : Db → Op → Prop} {s t : Db}

theorem Sized.counted (h : Sized env s) : Counted s := fun table b hb => (h table b hb).1

theorem Sized.of_same (h : Sized env s) (ht : t.tableState = s.tableState) : Sized env t := by
  intro table b hb
  rw [show t.writeBuffer = s.writeBuffer from congrArg TableState.writeBuffer ht] at hb
  exact h table b hb

theorem Sized.removeBuffer (h : Sized env s) (table : String) : Sized env (apply s (.removeBuffer table)) := by
  intro u b hb
  change (s.writeBuffer.erase table).lookup u = some b at hb
  by_cases hu : u = table
  · rw [hu, AList.lookup_erase] at hb
    cases hb
  · rw [AList.lookup_erase_ne hu] at hb
    exact h u b hb

theorem Sized.flushed (h : Sized env s) {table : String} {rows : List Row}
    (hf : Flushed (apply s (.removeBuffer table)) table rows t) : Sized env t := by
  intro u b hb
  rw [hf.writeBuffer] at hb
  exact h.removeBuffer table u b hb

theorem Sized.setBuffer (h : Sized env s) {table : String} {b : BufferedInsert} (hn : b.rowCount = totalRows b.batches)
    (hbytes : b.approxBytes = env.batchBytes b.batches) : Sized env (apply s (.setBuffer table b)) := by
  intro u c hc
  change (s.writeBuffer.insert table b).lookup u = some c at hc
  by_cases hu : u = table
  · rw [hu, AList.lookup_insert] at hc
    cases hc
    exact ⟨hn, hbytes⟩
  · rw [AList.lookup_insert_ne hu] at hc
    exact h u c hc

/-- Tables that are read alike are compacted alike. -/
theorem CompactsSafely.of_tables (h : CompactsSafely env s) (hs : Sized env t) (hstore : t.store = s.store) (hctx : t.ctx = s.ctx)
    (hcat : t.catalog = s.catalog) (htxn : t.activeTxn = s.activeTxn) : CompactsSafely env t := by
  unfold CompactsSafely Located
  rw [htxn, hcat]
  refine h.imp_right (Or.imp_right fun ⟨hcast, hh, hloc⟩ => ⟨hcast, ?_, hloc⟩)
  refine ⟨?_, ?_, ?_, hs.counted⟩
  · rw [hctx, hcat]
    exact hh.table
  · rw [hctx]
    exact hh.apart
  · rw [hctx, rows_of_tables hctx hstore]
    exact hh.typed

theorem wp_flushOther (hs : Sized env s) {table : String} {columns : Option (List String)} (hf : Flushable s table)
    (hc : CompactsSafely env s) {Q : Except String Unit → Db → Prop}
    (hlost : ∀ b, s.writeBuffer.lookup table = some b → b.columns ≠ columns → ¬ b.IsEmpty →
      ¬ Writes env fault (apply s (.removeBuffer table)) table b → ∀ e t,
      t.tableState = (apply s (.removeBuffer table)).tableState → Q (.error e) t)
    (hkept : (∀ b, s.writeBuffer.lookup table = some b → b.columns ≠ columns → ¬ b.IsEmpty →
        Writes env fault (apply s (.removeBuffer table)) table b) → ∀ r t, Conserved env s t (fun _ => 0) → Sized env t →
      CompactsSafely env t → (∀ b, t.writeBuffer.lookup table = some b → b.columns = columns) → Q r t) :
    wp C (flushOther env fault table columns) s Q := by
  unfold flushOther
  simp only [wp_bind, wp_get]
  cases hb : s.writeBuffer.lookup table with
  | none =>
    refine wp_pure.mpr (hkept ?_ _ _ (Conserved.refl hs.counted) hs hc ?_)
    · intro b hb'
      rw [hb] at hb'
      cases hb'
    · intro b hb'
      rw [hb] at hb'
      cases hb'
  | some existing =>
    have hsame : ∀ b, s.writeBuffer.lookup table = some b → b = existing := fun b hb' => Option.some.inj (hb'.symm.trans hb)
    dsimp only
    by_cases hcol : existing.columns = columns
    · rw [if_neg (not_not.mpr hcol)]
      refine wp_pure.mpr (hkept ?_ _ _ (Conserved.refl hs.counted) hs hc ?_)
      · intro b hb' hne
        rw [hsame b hb'] at hne
        exact absurd hcol hne
      · intro b hb'
        rw [hsame b hb']
        exact hcol
    · rw [if_pos hcol, wp_bind]
      have hnone : ∀ t : Db, t.writeBuffer = (apply s (.removeBuffer table)).writeBuffer →
          ∀ b, t.writeBuffer.lookup table = some b → b.columns = columns := by
        intro t ht b hb'
        rw [ht, show (apply s (.removeBuffer table)).writeBuffer.lookup table = none from AList.lookup_erase _ _] at hb'
        cases hb'
      by_cases he : existing.IsEmpty
      · have he' : existing.rowCount = 0 ∨ existing.batches = [] := he
        have hrows : bufferedRows env s table existing = .ok [] := by
          unfold bufferedRows
          rw [if_pos he]
        have hempty := (@Flushed.of_same (apply s (.removeBuffer table)) _ rfl table).conserved hs.counted hb hrows
        unfold flushTableUnder
        simp only [wp_bind, wp_get, hb, wp_emit]
        intro _
        rw [if_pos he']
        refine wp_pure.mpr (wp_pure.mpr (hkept ?_ _ _ hempty (hs.removeBuffer table) (hc.removeBuffer table) (hnone _ rfl)))
        intro b hb' _ hne
        rw [hsame b hb'] at hne
        exact absurd he hne
      · refine wp_flushTableUnder hb he hf hc (fun hw e t ht => hlost existing hb hcol he hw e t ht)
          fun hw rows r t hrows hft hct => ?_
        have hall : ∀ b, s.writeBuffer.lookup table = some b → b.columns ≠ columns → ¬ b.IsEmpty →
            Writes env fault (apply s (.removeBuffer table)) table b := by
          intro b hb' _ _
          rw [hsame b hb']
          exact hw
        have hQ : ∀ r, Q r t := fun r =>
          hkept hall r t (hft.conserved hs.counted hb hrows) (hs.flushed hft) hct (hnone t hft.writeBuffer)
        cases r with
        | error e => exact hQ _
        | ok _ => exact wp_pure.mpr (hQ _)

/-- The rows behind those of the entry. -/
def BufferedInsert.behind (env : Env) (entry : BufferedInsert) (batches : List RecordBatch) : BufferedInsert := { entry with
  batches := entry.batches ++ batches
  rowCount := entry.rowCount + totalRows batches
  approxBytes := entry.approxBytes + env.batchBytes batches }

theorem Sized.bufferEntry (hs : Sized env s) (hbytes : env.AddsBytes) {table : String} {columns : Option (List String)}
    (hcols : ∀ b, s.writeBuffer.lookup table = some b → b.columns = columns) (time : Nat) :
    (bufferEntry s table columns time).columns = columns ∧
      (bufferEntry s table columns time).rowCount = totalRows (bufferEntry s table columns time).batches ∧
      (bufferEntry s table columns time).approxBytes = env.batchBytes (bufferEntry s table columns time).batches ∧
      supplied columns (bufferEntry s table columns time).batches = s.buffered table := by
  unfold PotatoDB.bufferEntry Db.buffered
  cases hb : s.writeBuffer.lookup table with
  | none => simp [totalRows, supplied, allRows, hbytes.nil]
  | some b =>
    obtain ⟨hcount, hsize⟩ := hs table b hb
    have hcol := hcols b hb
    simp only [Option.getD_some]
    split
    · rename_i hnil
      rw [hnil] at hcount hsize ⊢
      exact ⟨rfl, hcount, hsize, by simp [supplied, allRows]⟩
    · exact ⟨hcol, hcount, hsize, by rw [hcol]⟩

/-- A check that fails takes the rows out of the buffer again. -/
theorem wp_bufferRows (hs : Sized env s) (hbytes : env.AddsBytes) {table : String} {columns : Option (List String)}
    {batches : List RecordBatch} (hne : totalRows batches ≠ 0)
    (hcols : ∀ b, s.writeBuffer.lookup table = some b → b.columns = columns) {Q : Except String Unit → Db → Prop}
    (herror : ∀ e t, Conserved env s t (fun _ => 0) → Sized env t → Q (.error e) t)
    (hok : ∀ b t, t.writeBuffer.lookup table = some b → ¬ b.IsEmpty → t.store = s.store → t.ctx = s.ctx →
      t.catalog = s.catalog → t.activeTxn = s.activeTxn → Conserved env s t (onTable table (supplied columns batches)) →
      Sized env t → Q (.ok ()) t) : wp C (bufferRows env table columns batches) s Q := by
  unfold bufferRows
  rw [wp_bind]
  refine wp_quiet quiet_now fun r s₁ hr h₁ => ?_
  cases r with
  | error e => cases hr
  | ok time =>
    have hs₁ := hs.of_same h₁
    have hbuf₁ : s₁.writeBuffer = s.writeBuffer := congrArg TableState.writeBuffer h₁
    obtain ⟨hcol, hcount, hsize, hold⟩ := hs₁.bufferEntry hbytes (fun b hb => hcols b (by rw [← hbuf₁, hb])) time
    simp only [wp_bind, wp_get, wp_emit]
    intro _
    rw [wp_targetColumnsOf]
    dsimp only
    rw [wp_attempt]
    have hc₁ : Conserved env s s₁ (fun _ => 0) := (Conserved.refl hs.counted).of_same h₁
    have hrows : totalRows ((bufferEntry s₁ table columns time).batches ++ batches) =
        (bufferEntry s₁ table columns time).rowCount + totalRows batches := by
      rw [hcount]
      simp [totalRows]
    have hnew : Conserved env s₁ (apply s₁ (.setBuffer table
        ((bufferEntry s₁ table columns time).behind env batches))) (onTable table (supplied columns batches)) := by
      refine Conserved.setBuffer hs₁.counted hrows.symm ?_
      unfold BufferedInsert.behind
      dsimp only
      rw [← hold, hcol]
      exact supplied_append _ _ _
    have hsized : Sized env (apply s₁ (.setBuffer table ((bufferEntry s₁ table columns time).behind env batches))) :=
      hs₁.setBuffer hrows.symm (by rw [BufferedInsert.behind, hsize, hbytes.append])
    refine wp_quiet (quiet_validate _ _ _ _) fun r t _ ht => ?_
    cases r with
    | error e =>
      simp only [wp_bind, wp_emit, wp_throw]
      intro _
      have hlook : (apply t (.setBuffer table (bufferEntry s₁ table columns time))).tableState =
          (apply s₁ (.setBuffer table (bufferEntry s₁ table columns time))).tableState := by
        obtain ⟨hstore, hnext, hctx, hcat, hbuf, htxn⟩ := TableState.mk.inj ht
        show TableState.mk t.store t.nextFile t.ctx t.catalog (t.writeBuffer.insert table _) t.activeTxn = _
        rw [hstore, hnext, hctx, hcat, hbuf, htxn]
        congr 1
        exact AList.insert_insert _
      have hback : Conserved env s₁ (apply s₁ (.setBuffer table (bufferEntry s₁ table columns time))) (onTable table 0) :=
        Conserved.setBuffer hs₁.counted hcount (by rw [hcol, hold, Multiset.add_zero])
      have hsame : Conserved env s₁ (apply s₁ (.setBuffer table (bufferEntry s₁ table columns time))) fun _ => 0 :=
        hback.congr fun v => by simp [onTable]
      exact herror e _ (hc₁.then_none (hsame.of_same hlook)) ((hs₁.setBuffer hcount hsize).of_same hlook)
    | ok merges =>
      refine wp_pure.mpr (hok ((bufferEntry s₁ table columns time).behind env batches) t ?_ (fun he => ?_) ?_ ?_ ?_ ?_ ?_
        (hsized.of_same ht))
      · rw [show t.writeBuffer = _ from congrArg TableState.writeBuffer ht]
        exact AList.lookup_insert _
      · rcases he with hzero | hnil
        · have hzero : (bufferEntry s₁ table columns time).rowCount + totalRows batches = 0 := hzero
          omega
        · obtain ⟨-, hnil⟩ := List.append_eq_nil_iff.mp hnil
          rw [hnil] at hne
          exact hne rfl
      · exact (congrArg TableState.store ht).trans (congrArg TableState.store h₁)
      · exact (congrArg TableState.ctx ht).trans (congrArg TableState.ctx h₁)
      · exact (congrArg TableState.catalog ht).trans (congrArg TableState.catalog h₁)
      · exact (congrArg TableState.activeTxn ht).trans (congrArg TableState.activeTxn h₁)
      · exact (hc₁.trans (hnew.of_same ht)).congr fun v => Multiset.zero_add _

/-! ## The log -/

/-- The operation puts rows into the Arrow log. -/
def Op.LogsRows : Op → Prop
  | .arrowAppend .. => True
  | _ => False

theorem Op.Writing.logsNothing {o : Op} (h : o.Writing) : ¬ o.LogsRows := by
  cases o with
  | arrowAppend => exact absurd h id
  | _ => exact id

theorem not_leavesLogged {table : String} {os : List Op} (h : ∀ o ∈ os, ¬ o.LogsRows) : ¬ LeavesLogged table os := by
  rintro ⟨before, batches, behind, rfl, -⟩
  exact h _ (List.mem_append_right _ List.mem_cons_self) trivial

theorem writing_storeBuffered (table : String) (b : BufferedInsert) : Emits Op.Writing (storeBuffered env fault table b) := by
  unfold storeBuffered
  refine Emits.bind ?_ fun targetColumns => ?_
  · unfold targetColumnsOf
    split
    · exact emits_pure _
    · exact emits_get.bind fun _ => emits_pure _
  · refine ((checking_validateConstraintsBatch _ _ _ _).mono fun _ h => h.writing).bind fun merges => ?_
    refine (writing_nextTempTableName _).bind fun _ => (emits_check _).bind fun _ => Emits.bind ?_ fun _ => ?_
    · unfold failIf
      split
      · exact emits_throw _
      · exact emits_pure _
    · exact (writing_insertInto _ _ _).bind fun _ => emits_pure _

theorem logsNothing_of_writing {α : Type} {p : M α} (h : Emits Op.Writing p) : Emits (fun o => ¬ o.LogsRows) p :=
  h.mono fun _ => Op.Writing.logsNothing

theorem logsNothing_failIf (here : Bool) : Emits (fun o => ¬ o.LogsRows) (failIf here) := by
  unfold failIf
  split
  · exact emits_throw _
  · exact emits_pure _

theorem logsNothing_finishFlushUnder (table : String) (targets : List String) (merges : Merges) (n : Nat) :
    Emits (fun o => ¬ o.LogsRows) (finishFlushUnder env fault table targets merges n) := by
  have htidy : Emits (fun o => ¬ o.LogsRows) (tidyTable env fault table n) := by
    unfold tidyTable
    refine (logsNothing_of_writing (writing_maybeAutoAnalyze _ _)).bind fun _ => (logsNothing_failIf _).bind fun _ => ?_
    refine (logsNothing_of_writing (writing_refreshLight table)).bind fun _ => ?_
    exact (logsNothing_of_writing (writing_maybeAutoCompact _)).bind fun _ => emits_pure n
  unfold finishFlushUnder
  refine ((checking_validateConstraintsBatch _ _ _ _).mono fun _ h => h.writing.logsNothing).bind fun _ => ?_
  refine (emits_each (fun m => emits_emit id) merges).bind fun _ => ?_
  dsimp only
  split
  · exact (logsNothing_failIf _).bind fun _ => Emits.bind (emits_emit id) fun _ => htidy
  · exact htidy

theorem logsNothing_flushTableUnder (table : String) : Emits (fun o => ¬ o.LogsRows) (flushTableUnder env fault table) := by
  unfold flushTableUnder
  refine emits_get.bind fun db => ?_
  split
  · exact emits_pure _
  · refine Emits.bind (emits_emit id) fun _ => ?_
    split
    · exact emits_pure _
    · exact (logsNothing_of_writing (writing_storeBuffered _ _)).bind fun _ => logsNothing_finishFlushUnder _ _ _ _

theorem logsNothing_flushOther (table : String) (columns : Option (List String)) :
    Emits (fun o => ¬ o.LogsRows) (flushOther env fault table columns) := by
  unfold flushOther
  refine emits_get.bind fun db => ?_
  split
  · split
    · exact (logsNothing_flushTableUnder table).bind fun _ => emits_pure _
    · exact emits_pure _
  · exact emits_pure _

theorem logsNothing_bufferRows (table : String) (columns : Option (List String)) (batches : List RecordBatch) :
    Emits (fun o => ¬ o.LogsRows) (bufferRows env table columns batches) := by
  unfold bufferRows
  refine (logsNothing_of_writing writing_now).bind fun _ => emits_get.bind fun _ => Emits.bind (emits_emit id) fun _ => ?_
  refine Emits.bind ?_ fun targetColumns => ?_
  · unfold targetColumnsOf
    split
    · exact emits_pure _
    · exact emits_get.bind fun _ => emits_pure _
  · refine Emits.bind ((checking_validateConstraintsBatch _ _ _ _).mono fun _ h => h.writing.logsNothing).attempt fun r => ?_
    cases r with
    | error e => exact Emits.bind (emits_emit id) fun _ => emits_throw _
    | ok _ => exact emits_pure _

/-- A flush that cannot write takes nothing from the log. -/
theorem checkpoint_notMem {table : String} {b : BufferedInsert} (hb : s.writeBuffer.lookup table = some b) (he : ¬ b.IsEmpty)
    (hw : ¬ Writes env fault (apply s (.removeBuffer table)) table b) :
    .arrowCheckpoint table ∉ (flushTableUnder env fault table).ops s := by
  have he' : ¬ (b.rowCount = 0 ∨ b.batches = []) := he
  have hfails : ∃ e, (storeBuffered env fault table b).result (apply s (.removeBuffer table)) = .error e :=
    wp_storeBuffered (C := fun _ _ => True) (Q := fun r _ => ∃ e, r = .error e) (fun _ e _ _ => ⟨e, rfl⟩)
      (fun hw' => absurd hw' hw) along_true
  obtain ⟨e, hr⟩ := hfails
  have hops : (flushTableUnder env fault table).ops s =
      .removeBuffer table :: (storeBuffered env fault table b).ops (apply s (.removeBuffer table)) := by
    unfold flushTableUnder
    rw [ops_bind, result_get, final_get]
    dsimp only
    rw [hb]
    dsimp only
    rw [ops_bind, result_emit, final_emit]
    dsimp only
    rw [if_neg he', ops_bind, hr]
    rfl
  rw [hops, List.mem_cons]
  rintro (h | h)
  · cases h
  · exact writing_storeBuffered table b _ _ h

theorem logRows_fails {table : String} {batches : List RecordBatch} (h : s.Logs env) :
    (logRows env true table batches).result s = .error "injected failure" ∧ (logRows env true table batches).ops s = [] := by
  have h' : (!s.replayingWal && env.arrowWalEnabled) = true := h
  unfold logRows failIf
  rw [result_bind, ops_bind, result_get, final_get]
  dsimp only
  rw [if_pos h']
  exact ⟨rfl, rfl⟩

theorem logRows_logs {table : String} {batches : List RecordBatch} (h : s.Logs env) :
    (logRows env false table batches).result s = .ok () ∧ (logRows env false table batches).ops s = [.arrowAppend table batches] := by
  have h' : (!s.replayingWal && env.arrowWalEnabled) = true := h
  unfold logRows failIf
  rw [result_bind, ops_bind, result_get, final_get]
  dsimp only
  rw [if_pos h']
  exact ⟨rfl, rfl⟩

theorem logRows_skips {table : String} {batches : List RecordBatch} (fails : Bool) (h : ¬ s.Logs env) :
    (logRows env fails table batches).result s = .ok () ∧ (logRows env fails table batches).ops s = [] := by
  have h' : ¬ (!s.replayingWal && env.arrowWalEnabled) = true := h
  unfold logRows
  rw [result_bind, ops_bind, result_get, final_get]
  dsimp only
  rw [if_neg h']
  exact ⟨rfl, rfl⟩

theorem isFull_reads (table : String) : ∃ full c, (isFull env table).result s = .ok full ∧
    (isFull env table).ops s = [.setCounters c] := ⟨_, _, rfl, rfl⟩

/-! ## All or nothing -/

theorem Conserved.gain_ne {gain : String → Multiset Supplied} (h : Conserved env s t gain) {table : String}
    (hg : (gain table).card ≠ 0) : ¬ Conserved env s t fun _ => 0 := by
  intro h₀
  have hgain := h.card_gain table
  have hnone := h₀.card_gain table
  rw [Multiset.card_zero] at hnone
  omega

/-- The buffered rows are gone and in no file, those of the INSERT with those from before. -/
theorem unwritten_iff {s₁ s₂ : Db} {table : String} {rows : Multiset Supplied} (h₁ : Conserved env s s₁ fun _ => 0)
    (h₂ : Conserved env s₁ s₂ (onTable table rows)) (hrows : s₂.rows table = s₁.rows table)
    (ht : t.tableState = (apply s₂ (.removeBuffer table)).tableState) :
    Conserved env s t (fun _ => 0) ↔ s₁.buffered table = 0 := by
  have hctx : t.ctx = s₂.ctx := congrArg TableState.ctx ht
  have hwriteBuffer : t.writeBuffer = (apply s₂ (.removeBuffer table)).writeBuffer := congrArg TableState.writeBuffer ht
  have hfiles : t.rows = s₂.rows := rows_of_tables hctx (congrArg TableState.store ht)
  have hbuf : ∀ u, t.buffered u = if u = table then 0 else s₂.buffered u := by
    intro u
    rw [← buffered_removeBuffer]
    unfold Db.buffered
    rw [hwriteBuffer]
  have hgone : t.buffered table = 0 := by rw [hbuf, if_pos rfl]
  constructor
  · intro h
    have hcard := h.card_gain table
    have hcard₁ := h₁.card_gain table
    rw [hfiles, hrows, hgone, Multiset.card_zero] at hcard
    rw [Multiset.card_zero] at hcard₁
    exact Multiset.card_eq_zero.mp (by omega)
  · intro h
    refine h₁.then_none ⟨fun u => by rw [hctx, h₂.ctx], ?_, fun u => ?_⟩
    · unfold Counted
      rw [hwriteBuffer]
      exact h₂.counted.removeBuffer table
    · rw [hfiles]
      by_cases hu : u = table
      · refine ⟨0, 0, ?_, by simp, ?_⟩
        · rw [hu, hgone, h]
        · rw [hu, hrows, Multiset.add_zero]
      · obtain ⟨flushed, stored, hbuffered, hcast, hstored⟩ := h₂.rows u
        rw [onTable, if_neg hu] at hbuffered
        exact ⟨flushed, stored, by rw [hbuf, if_neg hu, hbuffered], hcast, hstored⟩

theorem LeavesLogged.append {table : String} {os ps : List Op} (h : LeavesLogged table os)
    (hps : .arrowCheckpoint table ∉ ps) : LeavesLogged table (os ++ ps) := by
  obtain ⟨before, batches, behind, rfl, hbehind⟩ := h
  refine ⟨before, batches, behind ++ ps, by simp, fun hin => ?_⟩
  rcases List.mem_append.mp hin with hin | hin
  · exact hbehind hin
  · exact hps hin

/-- The state when the buffer is full, in which the INSERT has put its rows behind those from before. -/
structure Full (env : Env) (table : String) (rows : Multiset Supplied) (s s₁ s₂ : Db) (os : List Op) : Prop where
  before : Conserved env s s₁ fun _ => 0
  added : Conserved env s₁ s₂ (onTable table rows)
  files : s₂.rows table = s₁.rows table
  sized : Sized env s₂
  flushable : Flushable s₂ table
  compacts : CompactsSafely env s₂
  waiting : ∃ b, s₂.writeBuffer.lookup table = some b ∧ ¬ b.IsEmpty
  reached : after s os = s₂

theorem Full.then {table : String} {rows : Multiset Supplied} {s₁ s₂ s₃ : Db} {os ps : List Op}
    (h : Full env table rows s s₁ s₂ os) (hafter : after s₂ ps = s₃) (hsame : s₃.tableState = s₂.tableState) :
    Full env table rows s s₁ s₃ (os ++ ps) := by
  have hctx : s₃.ctx = s₂.ctx := congrArg TableState.ctx hsame
  have hstore : s₃.store = s₂.store := congrArg TableState.store hsame
  have hbuf : s₃.writeBuffer = s₂.writeBuffer := congrArg TableState.writeBuffer hsame
  refine ⟨h.before, h.added.of_same hsame, ?_, h.sized.of_same hsame, h.flushable.congr fun u => by rw [hctx], ?_, ?_, ?_⟩
  · rw [rows_of_tables hctx hstore]
    exact h.files
  · exact h.compacts.of_tables (h.sized.of_same hsame) hstore hctx (congrArg TableState.catalog hsame)
      (congrArg TableState.activeTxn hsame)
  · rw [hbuf]
    exact h.waiting
  · rw [after_append, h.reached, hafter]

/-- The flush of a full buffer succeeds, or nothing goes with it but the rows of the INSERT. -/
theorem flushFull_iff {table : String} {rows : Multiset Supplied} {s₁ s₂ : Db} {os : List Op} {logged : Prop} {a : Nat × Bool}
    (h : Full env table rows s s₁ s₂ os) (hpos : rows.card ≠ 0) (hlogged : logged → LeavesLogged table os)
    (hnot : ¬ logged → ∀ o ∈ os, ¬ o.LogsRows) :
    AllOrNothing env table rows s ((do let _ ← flushTableUnder env fault table; return a : M (Nat × Bool)).result s₂)
        (os ++ (do let _ ← flushTableUnder env fault table; return a : M (Nat × Bool)).ops s₂) ↔
      Succeeds (flushTableUnder env fault table) s₂ ∨
        ¬ logged ∧ s₁.buffered table = 0 ∧ ∀ b, s₂.writeBuffer.lookup table = some b →
          ¬ Writes env fault (apply s₂ (.removeBuffer table)) table b := by
  obtain ⟨b, hb, he⟩ := h.waiting
  have hsame : ∀ b', s₂.writeBuffer.lookup table = some b' → b' = b := fun b' hb' => Option.some.inj (hb'.symm.trans hb)
  have hops : (do let _ ← flushTableUnder env fault table; return a : M (Nat × Bool)).ops s₂ =
      (flushTableUnder env fault table).ops s₂ := by
    rw [ops_bind]
    cases (flushTableUnder env fault table).result s₂ with
    | error e => rfl
    | ok n => exact List.append_nil _
  have hresult : (do let _ ← flushTableUnder env fault table; return a : M (Nat × Bool)).result s₂ =
      ((flushTableUnder env fault table).result s₂).map fun _ => a := by
    rw [result_bind]
    cases (flushTableUnder env fault table).result s₂ <;> rfl
  have hend : after s (os ++ (flushTableUnder env fault table).ops s₂) = (flushTableUnder env fault table).final s₂ := by
    rw [after_append, h.reached]
    rfl
  unfold AllOrNothing
  rw [hops, hresult, hend]
  by_cases hw : Writes env fault (apply s₂ (.removeBuffer table)) table b
  · -- all rows are in files, so that it must succeed
    have hflushed : ∃ rows', bufferedRows env s₂ table b = .ok rows' ∧
        Flushed (apply s₂ (.removeBuffer table)) table rows' ((flushTableUnder env fault table).final s₂) :=
      wp_flushTableUnder (C := fun _ _ => True) (Q := fun _ t => ∃ rows', bufferedRows env s₂ table b = .ok rows' ∧
        Flushed (apply s₂ (.removeBuffer table)) table rows' t) hb he h.flushable h.compacts (fun hno => absurd hw hno)
        (fun _ rows' r t hrows' hf _ => ⟨rows', hrows', hf⟩) along_true
    obtain ⟨rows', hrows', hf⟩ := hflushed
    have hkept : Conserved env s ((flushTableUnder env fault table).final s₂) (onTable table rows) :=
      (h.before.trans (h.added.then_none (hf.conserved h.sized.counted hb hrows'))).congr fun _ => Multiset.zero_add _
    have hsized := h.sized.flushed hf
    have hgain : (onTable table rows table).card ≠ 0 := by
      rw [onTable, if_pos rfl]
      exact hpos
    cases hr : (flushTableUnder env fault table).result s₂ with
    | ok n => exact iff_of_true ⟨hsized, hkept⟩ (.inl ⟨n, hr⟩)
    | error e =>
      refine iff_of_false (fun hall => hkept.gain_ne hgain hall.2.1) ?_
      rintro (⟨n, hn⟩ | ⟨-, -, hno⟩)
      · rw [hr] at hn
        cases hn
      · exact hno b hb hw
  · have hlost : (∃ e, (flushTableUnder env fault table).result s₂ = .error e) ∧
        ((flushTableUnder env fault table).final s₂).tableState = (apply s₂ (.removeBuffer table)).tableState :=
      wp_flushTableUnder (C := fun _ _ => True) (Q := fun r t => (∃ e, r = .error e) ∧
        t.tableState = (apply s₂ (.removeBuffer table)).tableState) hb he h.flushable h.compacts
        (fun _ e t ht => ⟨⟨e, rfl⟩, ht⟩) (fun hw' => absurd hw' hw) along_true
    obtain ⟨⟨e, hr⟩, hstate⟩ := hlost
    have hcons := unwritten_iff h.before h.added h.files hstate
    have hno : ¬ Succeeds (flushTableUnder env fault table) s₂ := by
      rintro ⟨n, hn⟩
      rw [hr] at hn
      cases hn
    have hleaves : LeavesLogged table (os ++ (flushTableUnder env fault table).ops s₂) ↔ logged := by
      constructor
      · intro hl
        by_contra hn
        refine not_leavesLogged (fun o ho => ?_) hl
        rcases List.mem_append.mp ho with ho | ho
        · exact hnot hn o ho
        · exact logsNothing_flushTableUnder table s₂ o ho
      · exact fun hl => (hlogged hl).append (checkpoint_notMem hb he hw)
    rw [hr]
    show _ ∧ Conserved env s _ _ ∧ ¬ LeavesLogged table _ ↔ _
    rw [hcons, hleaves]
    constructor
    · rintro ⟨-, hold, hn⟩
      exact .inr ⟨hn, hold, fun b' hb' => hsame b' hb' ▸ hw⟩
    · rintro (hs | ⟨hn, hold, -⟩)
      · exact absurd hs hno
      · exact ⟨(h.sized.removeBuffer table).of_same hstate, hold, hn⟩

/-- What is behind the log. -/
theorem fullRows_iff {faults : BufferFaults} {table : String} {columns : Option (List String)} {batches : List RecordBatch}
    {s₁ s₂ : Db} {os : List Op} {logged : Prop} (h : Full env table (supplied columns batches) s s₁ s₂ os)
    (hne : totalRows batches ≠ 0) (hlogged : logged → LeavesLogged table os) (hnot : ¬ logged → ∀ o ∈ os, ¬ o.LogsRows) :
    AllOrNothing env table (supplied columns batches) s ((flushIfFull env faults table batches).result s₂)
        (os ++ (flushIfFull env faults table batches).ops s₂) ↔
      Yields (isFull env table) s₂ fun full s₃ => full = true →
        Succeeds (flushTableUnder env faults.threshold table) s₃ ∨
          ¬ logged ∧ s₁.buffered table = 0 ∧ ∀ b, s₃.writeBuffer.lookup table = some b →
            ¬ Writes env faults.threshold (apply s₃ (.removeBuffer table)) table b := by
  obtain ⟨full, c, hr, hops⟩ := @isFull_reads env s₂ table
  have hfinal : (isFull env table).final s₂ = apply s₂ (.setCounters c) := by
    unfold Prog.final
    rw [hops]
    rfl
  have hfull : Full env table (supplied columns batches) s s₁ (apply s₂ (.setCounters c)) (os ++ [.setCounters c]) :=
    h.then rfl rfl
  have hlogged' : logged → LeavesLogged table (os ++ [.setCounters c]) := fun hl =>
    (hlogged hl).append (by simp)
  have hnot' : ¬ logged → ∀ o ∈ os ++ [.setCounters c], ¬ o.LogsRows := by
    intro hl o ho
    rcases List.mem_append.mp ho with ho | ho
    · exact hnot hl o ho
    · rw [List.mem_singleton.mp ho]
      exact id
  have hyields : ∀ R : Bool → Db → Prop, Yields (isFull env table) s₂ R ↔ R full (apply s₂ (.setCounters c)) := by
    intro R
    unfold Yields
    rw [hr, hfinal]
    exact ⟨fun hall => hall full rfl, fun hR a ha => Except.ok.inj ha ▸ hR⟩
  rw [hyields]
  unfold flushIfFull
  rw [result_bind, ops_bind, hr, hfinal, hops]
  dsimp only
  rw [← List.append_assoc]
  cases full with
  | true =>
    have hiff := @flushFull_iff env faults.threshold s _ _ _ _ _ _ (totalRows batches, true) hfull
      (by rw [card_supplied]; exact hne) hlogged' hnot'
    exact hiff.trans ⟨fun hok _ => hok, fun hok => hok rfl⟩
  | false =>
    have hreached := hfull.reached
    refine iff_of_true ⟨?_, ?_⟩ nofun
    · show Sized env (after s (os ++ [.setCounters c] ++ []))
      rw [List.append_nil, hreached]
      exact hfull.sized
    · show Conserved env s (after s (os ++ [.setCounters c] ++ [])) _
      rw [List.append_nil, hreached]
      exact (h.before.trans hfull.added).congr fun _ => Multiset.zero_add _

theorem keepRows_iff {faults : BufferFaults} {table : String} {columns : Option (List String)} {batches : List RecordBatch}
    {s₁ s₂ : Db} {os : List Op} (h : Full env table (supplied columns batches) s s₁ s₂ os) (hne : totalRows batches ≠ 0)
    (hos : ∀ o ∈ os, ¬ o.LogsRows) :
    AllOrNothing env table (supplied columns batches) s ((keepRows env faults table batches).result s₂)
        (os ++ (keepRows env faults table batches).ops s₂) ↔
      (s₂.Logs env → faults.append = false) ∧
        Yields (logRows env faults.append table batches) s₂ fun _ s₃ =>
          Yields (isFull env table) s₃ fun full s₄ => full = true →
            Succeeds (flushTableUnder env faults.threshold table) s₄ ∨
              ¬ s₂.Logs env ∧ s₁.buffered table = 0 ∧ ∀ b, s₄.writeBuffer.lookup table = some b →
                ¬ Writes env faults.threshold (apply s₄ (.removeBuffer table)) table b := by
  have hpos : (onTable table (supplied columns batches) table).card ≠ 0 := by
    rw [onTable, if_pos rfl, card_supplied]
    exact hne
  -- once the log has the record, or has none
  have hbehind : ∀ (logged : Prop) (ps : List Op) (s₃ : Db), (logRows env faults.append table batches).result s₂ = .ok () →
      (logRows env faults.append table batches).ops s₂ = ps → after s₂ ps = s₃ → s₃.tableState = s₂.tableState →
      (logged → LeavesLogged table (os ++ ps)) → (¬ logged → ∀ o ∈ os ++ ps, ¬ o.LogsRows) →
      (AllOrNothing env table (supplied columns batches) s ((keepRows env faults table batches).result s₂)
          (os ++ (keepRows env faults table batches).ops s₂) ↔
        Yields (logRows env faults.append table batches) s₂ fun _ s₃ => Yields (isFull env table) s₃ fun full s₄ => full = true →
          Succeeds (flushTableUnder env faults.threshold table) s₄ ∨
            ¬ logged ∧ s₁.buffered table = 0 ∧ ∀ b, s₄.writeBuffer.lookup table = some b →
              ¬ Writes env faults.threshold (apply s₄ (.removeBuffer table)) table b) := by
    intro logged ps s₃ hr hops hafter hsame hlogged hnot
    have hfinal : (logRows env faults.append table batches).final s₂ = s₃ := by
      unfold Prog.final
      rw [hops, hafter]
    have hfull := @fullRows_iff _ _ faults _ _ _ _ _ _ _ (h.then hafter hsame) hne hlogged hnot
    unfold keepRows
    rw [result_bind, ops_bind, hr, hfinal, hops]
    dsimp only
    rw [← List.append_assoc, hfull]
    unfold Yields
    rw [hr, hfinal]
    exact ⟨fun hall _ _ => hall, fun hall => hall () rfl⟩
  by_cases hlogs : s₂.Logs env
  · cases hfault : faults.append with
    | true =>
      have hfails := @logRows_fails env s₂ table batches hlogs
      refine iff_of_false ?_ fun hall => Bool.noConfusion (hall.1 hlogs)
      unfold keepRows
      rw [result_bind, ops_bind, hfault, hfails.1, hfails.2, List.append_nil]
      rintro ⟨-, hcons, -⟩
      rw [h.reached] at hcons
      exact ((h.before.trans h.added).congr fun _ => Multiset.zero_add _).gain_ne hpos hcons
    | false =>
      have hlogged := @logRows_logs env s₂ table batches hlogs
      rw [← hfault] at hlogged
      have hiff := hbehind True [.arrowAppend table batches] _ hlogged.1 hlogged.2 rfl rfl
        (fun _ => ⟨os, batches, [], rfl, List.not_mem_nil⟩) (fun hno => absurd trivial hno)
      rw [hfault] at hiff
      rw [hiff]
      simp only [hlogs, not_true_eq_false, false_and, or_false, true_and, forall_const]
  · have hskips := @logRows_skips env s₂ table batches faults.append hlogs
    have hiff := hbehind False [] _ hskips.1 hskips.2 rfl rfl (fun hno => hno.elim) fun _ o ho => hos o (by simpa using ho)
    rw [hiff]
    simp only [hlogs, not_false_eq_true, true_and, false_imp_iff]

/-- A step that fails leaves nothing of the INSERT. -/
theorem allOrNothing_error {table : String} {rows : Multiset Supplied} {e : String} {os : List Op} (hafter : after s os = t)
    (hcons : Conserved env s t fun _ => 0) (hsized : Sized env t) (hos : ∀ o ∈ os, ¬ o.LogsRows) :
    AllOrNothing env table rows s (.error e) os := by
  refine ⟨?_, ?_, not_leavesLogged hos⟩
  · rwa [hafter]
  · rwa [hafter]

/-- The rows from before are lost. -/
theorem not_allOrNothing_lost {table : String} {rows : Multiset Supplied} {b : BufferedInsert} {e : String} {os : List Op}
    (hs : Sized env s) (hb : s.writeBuffer.lookup table = some b) (he : ¬ b.IsEmpty)
    (ht : (after s os).tableState = (apply s (.removeBuffer table)).tableState) : ¬ AllOrNothing env table rows s (.error e) os := by
  rintro ⟨-, hcons, -⟩
  have hnone : Conserved env s s (onTable table 0) := (Conserved.refl hs.counted).congr fun v => by simp [onTable]
  have hzero := (unwritten_iff (Conserved.refl hs.counted) hnone rfl ht).mp hcons
  have hcard := congrArg Multiset.card hzero
  unfold Db.buffered at hcard
  rw [hb, card_supplied, ← (hs table b hb).1] at hcard
  exact he (.inl hcard)

/-- **An INSERT into the buffer is all or nothing** exactly when it fails at no step that takes rows with it. -/
theorem buffer_insert_all_or_nothing (hbytes : env.AddsBytes) (faults : BufferFaults) {table : String}
    (columns : Option (List String)) (batches : List RecordBatch) (hs : Sized env s) (hf : Flushable s table)
    (hc : CompactsSafely env s) :
    AllOrNothing env table (supplied columns batches) s ((bufferInsertBatchesUnder env faults table columns batches).result s)
        ((bufferInsertBatchesUnder env faults table columns batches).ops s) ↔
      Unharmed env faults table columns batches s := by
  unfold bufferInsertBatchesUnder Unharmed
  by_cases hne : totalRows batches = 0
  · rw [if_pos hne]
    refine iff_of_true ⟨hs, ?_⟩ (.inl hne)
    show Conserved env s s _
    rw [supplied_eq_zero hne]
    exact (Conserved.refl hs.counted).congr fun v => by simp [onTable]
  rw [if_neg hne]
  have hother := @wp_flushOther env faults.previous (fun _ _ => True) s hs table columns hf hc
    (fun r t => (∃ b, s.writeBuffer.lookup table = some b ∧ b.columns ≠ columns ∧ ¬ b.IsEmpty ∧
        ¬ Writes env faults.previous (apply s (.removeBuffer table)) table b ∧ (∃ e, r = .error e) ∧
        t.tableState = (apply s (.removeBuffer table)).tableState) ∨
      (∀ b, s.writeBuffer.lookup table = some b → b.columns ≠ columns → ¬ b.IsEmpty →
        Writes env faults.previous (apply s (.removeBuffer table)) table b) ∧ Conserved env s t (fun _ => 0) ∧ Sized env t ∧
        CompactsSafely env t ∧ ∀ b, t.writeBuffer.lookup table = some b → b.columns = columns)
    (fun b hb hcol he hw e t ht => .inl ⟨b, hb, hcol, he, hw, ⟨e, rfl⟩, ht⟩)
    (fun hw r t hcons hsized hct hcols => .inr ⟨hw, hcons, hsized, hct, hcols⟩) along_true
  have hnolog := @logsNothing_flushOther env faults.previous table columns s
  rw [result_bind, ops_bind]
  rcases hother with ⟨b, hb, hcol, he, hw, ⟨e, hr⟩, hstate⟩ | ⟨hw, hcons, hsized, hct, hcols⟩
  · rw [hr]
    refine iff_of_false (not_allOrNothing_lost hs hb he hstate) ?_
    rintro (hzero | ⟨hall, -⟩)
    · exact hne hzero
    · exact hw (hall b hb hcol he)
  cases hr : (flushOther env faults.previous table columns).result s with
  | error e =>
    refine iff_of_true (allOrNothing_error rfl hcons hsized hnolog) (.inr ⟨hw, fun a ha => ?_⟩)
    rw [hr] at ha
    cases ha
  | ok a =>
    have hft : Flushable ((flushOther env faults.previous table columns).final s) table := hf.congr hcons.ctx
    have hrows := @wp_bufferRows env (fun _ _ => True) _ hsized hbytes table columns batches hne hcols
      (fun r t => (∃ e, r = .error e) ∧ Conserved env ((flushOther env faults.previous table columns).final s) t (fun _ => 0) ∧
          Sized env t ∨
        r = .ok () ∧ (∃ b, t.writeBuffer.lookup table = some b ∧ ¬ b.IsEmpty) ∧
          t.rows = ((flushOther env faults.previous table columns).final s).rows ∧ CompactsSafely env t ∧
          Conserved env ((flushOther env faults.previous table columns).final s) t (onTable table (supplied columns batches)) ∧
          Sized env t)
      (fun e t hcons' hsized' => .inl ⟨⟨e, rfl⟩, hcons', hsized'⟩)
      (fun b t hb he hstore hctx hcat htxn hadded hsized' => .inr ⟨rfl, ⟨b, hb, he⟩, rows_of_tables hctx hstore,
        hct.of_tables hsized' hstore hctx hcat htxn, hadded, hsized'⟩) along_true
    have hnolog' : ∀ o ∈ (flushOther env faults.previous table columns).ops s ++
        (bufferRows env table columns batches).ops ((flushOther env faults.previous table columns).final s), ¬ o.LogsRows := by
      intro o ho
      rcases List.mem_append.mp ho with ho | ho
      · exact hnolog o ho
      · exact logsNothing_bufferRows table columns batches _ o ho
    dsimp only
    rw [result_bind, ops_bind]
    rcases hrows with ⟨⟨e, hr'⟩, hcons', hsized'⟩ | ⟨hr', hwaiting, hfiles, hct', hadded, hsized'⟩
    · rw [hr']
      refine iff_of_true (allOrNothing_error (after_append _ _ _) (hcons.then_none hcons') hsized' hnolog')
        (.inr ⟨hw, fun _ _ a ha => ?_⟩)
      rw [hr'] at ha
      cases ha
    · have hfull : Full env table (supplied columns batches) s ((flushOther env faults.previous table columns).final s)
          ((bufferRows env table columns batches).final ((flushOther env faults.previous table columns).final s))
          ((flushOther env faults.previous table columns).ops s ++
            (bufferRows env table columns batches).ops ((flushOther env faults.previous table columns).final s)) :=
        ⟨hcons, hadded, congrFun hfiles table, hsized', hft.congr hadded.ctx, hct', hwaiting, after_append _ _ _⟩
      rw [hr']
      dsimp only
      rw [← List.append_assoc, keepRows_iff hfull hne hnolog']
      constructor
      · refine fun hall => .inr ⟨hw, fun a' ha' u hu => ?_⟩
        exact hall
      · rintro (hzero | ⟨-, hall⟩)
        · exact absurd hzero hne
        · exact hall a hr () hr'

end

/-! ## INSERTs that fail -/

/-- A buffer of two rows is full. -/
def fullEnv : Env := { flagEnv with writeBufferRowThreshold := 2 }

/-- The row FALSE is in the buffer. -/
def heldDb : Db := (bufferInsertBatches fullEnv "t" none [falseBatch]).final flagDb

theorem flagDb_sized : Sized fullEnv flagDb := by
  intro table b hb
  cases hb

theorem heldDb_sized : Sized fullEnv heldDb := by
  intro table b hb
  have hp : (table, b) ∈ heldDb.writeBuffer.pairs := Map.mem_pairs.mpr hb
  have hall : ∀ p ∈ heldDb.writeBuffer.pairs, p.2.rowCount = totalRows p.2.batches ∧
      p.2.approxBytes = fullEnv.batchBytes p.2.batches := by decide +kernel
  exact hall _ hp

theorem fullEnv_addsBytes : fullEnv.AddsBytes := ⟨rfl, fun _ _ => rfl⟩

theorem flagDb_flushable : Flushable flagDb "t" := by
  refine (flag_housed ?_ ?_ ?_ ?_).flushable "t" <;> decide +kernel

/-- The flush of two batches that differ in schema fails with the row that was there before, and a log that fails leaves the
row in the buffer. -/
theorem failed_insert_loses_row :
    (∃ e, (bufferInsertBatches fullEnv "t" none [nullBatch]).result heldDb = .error e) ∧
    heldDb.writeBuffer.lookup "t" = some ⟨none, [falseBatch], 1, 0, 0⟩ ∧
    ((bufferInsertBatches fullEnv "t" none [nullBatch]).final heldDb).writeBuffer.lookup "t" = none ∧
    ((bufferInsertBatches fullEnv "t" none [nullBatch]).final heldDb).relation "t" = some ⟨flagSchema, [[.bool true]]⟩ ∧
    ((bufferInsertBatchesUnder fullEnv ⟨none, true, none⟩ "t" none [falseBatch]).final flagDb).writeBuffer.lookup "t" =
      some ⟨none, [falseBatch], 1, 0, 0⟩ ∧
    ¬ ∀ (env : Env) (s : Db) (table : String) (columns : Option (List String)) (batches : List RecordBatch),
      env.AddsBytes → Sized env s →
      AllOrNothing env table (supplied columns batches) s ((bufferInsertBatches env table columns batches).result s)
        ((bufferInsertBatches env table columns batches).ops s) := by
  have herror : ∃ e, (bufferInsertBatches fullEnv "t" none [nullBatch]).result heldDb = .error e := by
    refine ⟨"Mismatch between schema and batches", ?_⟩
    decide +kernel
  refine ⟨herror, by decide +kernel, by decide +kernel, by decide +kernel, by decide +kernel, fun h => ?_⟩
  obtain ⟨e, he⟩ := herror
  have hall := h fullEnv heldDb "t" none [nullBatch] fullEnv_addsBytes heldDb_sized
  rw [he] at hall
  have hcard := hall.2.1.card_gain "t"
  revert hcard
  show ((((bufferInsertBatches fullEnv "t" none [nullBatch]).final heldDb).rows "t").length +
    (((bufferInsertBatches fullEnv "t" none [nullBatch]).final heldDb).buffered "t").card = _) → False
  decide +kernel

theorem unharmed_first : Unharmed fullEnv .none "t" none [falseBatch] flagDb := by
  refine .inr ⟨fun b hb => (nomatch hb), fun _ _ _ _ => ⟨fun _ => rfl, fun _ _ full hfull hyes => ?_⟩⟩
  rw [hyes] at hfull
  exact absurd hfull (by decide +kernel)

/-- The first row goes into the buffer. -/
theorem first_insert_kept :
    AllOrNothing fullEnv "t" (supplied none [falseBatch]) flagDb
      ((bufferInsertBatchesUnder fullEnv .none "t" none [falseBatch]).result flagDb)
      ((bufferInsertBatchesUnder fullEnv .none "t" none [falseBatch]).ops flagDb) :=
  (buffer_insert_all_or_nothing fullEnv_addsBytes .none none [falseBatch] flagDb_sized flagDb_flushable (.inl rfl)).mpr
    unharmed_first

end PotatoDB
