import PotatoDB.Visibility

/-!
# Buffered rows

Rows that an INSERT has put into the buffer stay there until a flush writes them. A flush that
fails before it writes loses them.
-/

namespace PotatoDB

open Oplog Oplog.Prog
open Machine (apply)

/-! ## Rows in the buffer and in files -/

/-- A row with the column list of its INSERT. -/
abbrev Supplied := Option (List String) × Row

def supplied (columns : Option (List String)) (batches : List RecordBatch) : Multiset Supplied :=
  (allRows batches).map fun row => (columns, row)

def Db.buffered (s : Db) (table : String) : Multiset Supplied :=
  match s.writeBuffer.lookup table with
  | none => 0
  | some b => supplied b.columns b.batches

/-- The row of the table that a flush makes of a supplied row. -/
def storedAs (env : Env) (provider : Option Provider) (r : Supplied) : Except String Row :=
  match provider with
  | none => .error "table not found"
  | some p => castRow env p.schema ((insertColumns r.1).getD p.schema.names) r.2

/-- The buffer knows how many rows it has. -/
def Counted (s : Db) : Prop := ∀ table b, s.writeBuffer.lookup table = some b → b.rowCount = totalRows b.batches

/-- The rows of `t`, in files and in the buffer, are those of `s` and the rows gained, each once. -/
structure Conserved (env : Env) (s t : Db) (gain : String → Multiset Supplied) : Prop where
  ctx : ∀ u, t.ctx.lookup u = s.ctx.lookup u
  counted : Counted t
  rows : ∀ table, ∃ flushed stored, flushed + t.buffered table = s.buffered table + gain table ∧
    flushed.map (storedAs env (s.ctx.lookup table)) = stored.map .ok ∧
    (t.rows table : Multiset Row) = s.rows table + stored

/-- Where a flush takes rows from the buffer, it can write them. -/
def FlushesSafely (env : Env) (s : Db) : Op → Prop
  | .removeBuffer table => ∀ b, s.writeBuffer.lookup table = some b → ¬ b.IsEmpty →
      Flushable s table ∧ CompactsSafely env s ∧ Writable env (apply s (.removeBuffer table)) table b
  | _ => True

/-- Rows of one table. -/
def onTable (table : String) (rows : Multiset Supplied) : String → Multiset Supplied :=
  fun u => if u = table then rows else 0

section
variable {env : Env} {s t u : Db}

theorem supplied_append (columns : Option (List String)) (bs cs : List RecordBatch) :
    supplied columns (bs ++ cs) = supplied columns bs + supplied columns cs := by
  simp [supplied, allRows]

theorem card_supplied (columns : Option (List String)) (batches : List RecordBatch) :
    (supplied columns batches).card = totalRows batches := by
  simp [supplied, allRows, totalRows, RecordBatch.numRows, List.length_flatMap]

theorem supplied_eq_zero {columns : Option (List String)} {batches : List RecordBatch} (h : totalRows batches = 0) :
    supplied columns batches = 0 := by
  rw [← Multiset.card_eq_zero, card_supplied, h]

theorem Conserved.refl (h : Counted s) : Conserved env s s fun _ => 0 :=
  ⟨fun _ => rfl, h, fun _ => ⟨0, 0, by simp, by simp, by simp⟩⟩

theorem Conserved.trans {gain gain' : String → Multiset Supplied} (h : Conserved env s t gain)
    (h' : Conserved env t u gain') : Conserved env s u fun v => gain v + gain' v := by
  refine ⟨fun v => (h'.ctx v).trans (h.ctx v), h'.counted, fun table => ?_⟩
  obtain ⟨flushed, stored, hbuf, hcast, hrows⟩ := h.rows table
  obtain ⟨flushed', stored', hbuf', hcast', hrows'⟩ := h'.rows table
  refine ⟨flushed + flushed', stored + stored', ?_, ?_, ?_⟩
  · rw [Multiset.add_assoc, hbuf', ← Multiset.add_assoc, hbuf, Multiset.add_assoc]
  · rw [h.ctx] at hcast'
    rw [Multiset.map_add, Multiset.map_add, hcast, hcast']
  · rw [hrows', hrows, Multiset.add_assoc]

theorem Conserved.congr {gain gain' : String → Multiset Supplied} (h : Conserved env s t gain)
    (he : ∀ v, gain v = gain' v) : Conserved env s t gain' := by
  obtain rfl : gain = gain' := funext he
  exact h

theorem Conserved.of_same {gain : String → Multiset Supplied} (h : Conserved env s t gain)
    (hu : u.tableState = t.tableState) : Conserved env s u gain := by
  have hctx : u.ctx = t.ctx := congrArg TableState.ctx hu
  have hbuf : u.writeBuffer = t.writeBuffer := congrArg TableState.writeBuffer hu
  have hstore : u.store = t.store := congrArg TableState.store hu
  refine ⟨fun v => by rw [hctx, h.ctx], ?_, fun table => ?_⟩
  · unfold Counted
    rw [hbuf]
    exact h.counted
  · unfold Db.buffered Db.rows Db.relation
    rw [hctx, hbuf, hstore]
    exact h.rows table

/-- Rows in files and in the buffer, counted. -/
theorem Conserved.card_gain {gain : String → Multiset Supplied} (h : Conserved env s t gain) (table : String) :
    (t.rows table).length + (t.buffered table).card =
      (s.rows table).length + (s.buffered table).card + (gain table).card := by
  obtain ⟨flushed, stored, hbuf, hcast, hrows⟩ := h.rows table
  have h₁ := congrArg Multiset.card hbuf
  have h₂ := congrArg Multiset.card hcast
  have h₃ := congrArg Multiset.card hrows
  simp only [Multiset.card_add, Multiset.card_map, Multiset.coe_card] at h₁ h₂ h₃
  omega

/-! ## Flushing -/

/-- Inserted rows are the supplied rows, cast under the names of the columns. -/
theorem insertedRows_storedAs {p : Provider} {columns : Option (List String)} {batches : List RecordBatch}
    {rows : List Row} (h : insertedRows env p.schema (insertColumns columns) batches = .ok rows) :
    (supplied columns batches).map (storedAs env (some p)) = (rows : Multiset Row).map .ok := by
  rw [Multiset.map_coe, ← mapM_ok_iff.mp (insertedRows_cast h).1]
  unfold supplied
  rw [Multiset.map_coe, List.map_map]
  rfl

theorem buffered_removeBuffer (s : Db) (table u : String) :
    (apply s (.removeBuffer table)).buffered u = if u = table then 0 else s.buffered u := by
  unfold Db.buffered
  by_cases hu : u = table
  · rw [if_pos hu, hu]
    rw [show (apply s (.removeBuffer table)).writeBuffer.lookup table = none from AList.lookup_erase _ _]
  · rw [if_neg hu]
    rw [show (apply s (.removeBuffer table)).writeBuffer.lookup u = s.writeBuffer.lookup u from AList.lookup_erase_ne hu]

theorem Counted.removeBuffer (h : Counted s) (table : String) : Counted (apply s (.removeBuffer table)) := by
  intro u b hb
  change (s.writeBuffer.erase table).lookup u = some b at hb
  by_cases hu : u = table
  · rw [hu, AList.lookup_erase] at hb
    cases hb
  · rw [AList.lookup_erase_ne hu] at hb
    exact h u b hb

theorem Counted.buffered_empty (h : Counted s) {table : String} {b : BufferedInsert}
    (hb : s.writeBuffer.lookup table = some b) (he : b.IsEmpty) : s.buffered table = 0 := by
  unfold Db.buffered
  rw [hb]
  refine supplied_eq_zero ?_
  rcases he with hn | hn
  · rw [← h table b hb, hn]
  · rw [hn]
    rfl

theorem Flushed.conserved (hs : Counted s) {table : String} {b : BufferedInsert} {rows : List Row}
    (hb : s.writeBuffer.lookup table = some b) (hrows : bufferedRows env s table b = .ok rows)
    (hf : Flushed (apply s (.removeBuffer table)) table rows t) : Conserved env s t fun _ => 0 := by
  have hbuf : ∀ v, t.buffered v = if v = table then 0 else s.buffered v := by
    intro v
    rw [← buffered_removeBuffer]
    unfold Db.buffered
    rw [hf.writeBuffer]
  refine ⟨hf.ctx, ?_, fun v => ?_⟩
  · unfold Counted
    rw [hf.writeBuffer]
    exact hs.removeBuffer table
  · by_cases hv : v = table
    · subst hv
      refine ⟨s.buffered v, rows, ?_, ?_, ?_⟩
      · rw [hbuf, if_pos rfl]
      · by_cases he : b.IsEmpty
        · unfold bufferedRows at hrows
          rw [if_pos he] at hrows
          cases hrows
          rw [hs.buffered_empty hb he]
          rfl
        · unfold bufferedRows at hrows
          rw [if_neg he] at hrows
          cases hp : s.ctx.lookup v with
          | none =>
            rw [hp] at hrows
            cases hrows
          | some p =>
            rw [hp] at hrows
            unfold Db.buffered
            rw [hb]
            exact insertedRows_storedAs hrows
      · rw [Multiset.coe_add]
        exact Multiset.coe_eq_coe.mpr hf.rows
    · refine ⟨0, 0, ?_, by simp, ?_⟩
      · rw [hbuf, if_neg hv, Multiset.zero_add, Multiset.add_zero]
      · unfold Db.rows
        rw [hf.other v hv, Multiset.add_zero]
        rfl

theorem flushTable_removes {C : Db → Op → Prop} {table : String} {b : BufferedInsert}
    (hb : s.writeBuffer.lookup table = some b) (hc : Along C s ((flushTable env table).ops s)) :
    C s (.removeBuffer table) := by
  have h : wp C (flushTable env table) s fun _ _ => C s (.removeBuffer table) := by
    rw [flushTable_eq]
    simp only [wp_bind, wp_get, hb, wp_emit]
    exact fun h _ => h
  exact h hc

/-- A flush that can write changes nothing, or it has written the rows. -/
theorem wp_flush_flushed (table : String) :
    wp (FlushesSafely env) (flushTable env table) s fun _ t => t = s ∨ ∃ b rows,
      s.writeBuffer.lookup table = some b ∧ bufferedRows env s table b = .ok rows ∧
      Flushed (apply s (.removeBuffer table)) table rows t := by
  intro hc
  cases hb : s.writeBuffer.lookup table with
  | none =>
    have h : wp (FlushesSafely env) (flushTable env table) s fun _ t => t = s := by
      rw [flushTable_eq]
      simp only [wp_bind, wp_get, hb, wp_pure]
    exact .inl (h hc)
  | some b =>
    right
    by_cases he : b.IsEmpty
    · have h : wp (FlushesSafely env) (flushTable env table) s fun _ t => t = apply s (.removeBuffer table) := by
        rw [flushTable_eq]
        simp only [wp_bind, wp_get, hb, wp_emit]
        intro _
        have he' : b.rowCount = 0 ∨ b.batches = [] := he
        unfold writeBuffered
        rw [if_pos he', wp_pure]
      have hrows : bufferedRows env s table b = .ok [] := by
        unfold bufferedRows
        rw [if_pos he]
      exact ⟨b, [], rfl, hrows, h hc ▸ Flushed.of_same rfl table⟩
    · obtain ⟨hf, hsafe, hw⟩ := flushTable_removes hb hc b hb he
      refine wp_flushTable (Q := fun _ t => ∃ b' rows, some b = some b' ∧ bufferedRows env s table b' = .ok rows ∧
        Flushed (apply s (.removeBuffer table)) table rows t) (fun _ => hf) hsafe ?_ ?_ ?_ hc
      · intro hn
        rw [hb] at hn
        cases hn
      · intro b' hb' _ hw'
        obtain rfl : b = b' := Option.some.inj (hb.symm.trans hb')
        exact absurd hw hw'
      · intro b' rows hb' hrows _ _ t hf _
        exact ⟨b', rows, hb.symm.trans hb', hrows, hf⟩

/-- **A flush that can write loses no row**, whether or not it fails. -/
theorem wp_flush_conserved (hs : Counted s) (table : String) :
    wp (FlushesSafely env) (flushTable env table) s fun _ t => Conserved env s t fun _ => 0 := by
  refine wp_mono ?_ (wp_flush_flushed table)
  rintro _ t (rfl | ⟨b, rows, hb, hrows, hf⟩)
  · exact Conserved.refl hs
  · exact hf.conserved hs hb hrows

/-- A flush that cannot write loses the rows it took. -/
theorem flush_conserves_iff (hs : Counted s) {table : String} {b : BufferedInsert} (hb : s.writeBuffer.lookup table = some b)
    (he : ¬ b.IsEmpty) (hf : Flushable s table) (hsafe : CompactsSafely env s) :
    Conserved env s ((flushTable env table).final s) (fun _ => 0) ↔
      Writable env (apply s (.removeBuffer table)) table b := by
  have hsame : ∀ b', s.writeBuffer.lookup table = some b' → b' = b :=
    fun b' hb' => Option.some.inj (hb'.symm.trans hb)
  refine wp_flushTable (C := fun _ _ => True) (Q := fun _ t => Conserved env s t (fun _ => 0) ↔
    Writable env (apply s (.removeBuffer table)) table b) (fun _ => hf) hsafe ?_ ?_ ?_ along_true
  · intro hn
    rw [hb] at hn
    cases hn
  · intro b' hb' _ hw _ t ht
    obtain rfl := hsame b' hb'
    refine iff_of_false (fun hc => ?_) hw
    -- no file is new, and the buffer is gone
    have hgone : t.buffered table = 0 := by
      have hr := buffered_removeBuffer s table table
      rw [if_pos rfl] at hr
      rw [← hr]
      unfold Db.buffered
      rw [show t.writeBuffer = _ from congrArg TableState.writeBuffer ht]
      rfl
    have hfiles : t.rows table = s.rows table :=
      congrFun (rows_of_tables (congrArg TableState.ctx ht) (congrArg TableState.store ht)) table
    have hcard := hc.card_gain table
    rw [hgone, hfiles, Multiset.card_zero] at hcard
    have hzero : (s.buffered table).card = 0 := by omega
    unfold Db.buffered at hzero
    rw [hb] at hzero
    rw [card_supplied, ← hs table _ hb] at hzero
    exact he (Or.inl hzero)
  · intro b' rows hb' hrows hw _ t hf _
    obtain rfl := hsame b' hb'
    exact iff_of_true (hf.conserved hs hb' hrows) (hw he)

/-! ## Buffering -/

theorem quiet_now : Emits Op.Quiet (now env) :=
  emits_get.bind fun _ => (emits_emit fun _ => rfl).bind fun _ => emits_pure _

/-- The buffer of the table is replaced. -/
theorem Conserved.setBuffer (hs : Counted s) {table : String} {b : BufferedInsert} {gain : Multiset Supplied}
    (hn : b.rowCount = totalRows b.batches) (hb : supplied b.columns b.batches = s.buffered table + gain) :
    Conserved env s (apply s (.setBuffer table b)) (onTable table gain) := by
  have hlook : ∀ v, (apply s (.setBuffer table b)).writeBuffer.lookup v =
      if v = table then some b else s.writeBuffer.lookup v := by
    intro v
    by_cases hv : v = table
    · rw [if_pos hv, hv]
      exact AList.lookup_insert _
    · rw [if_neg hv]
      exact AList.lookup_insert_ne hv
  refine ⟨fun _ => rfl, fun v c hc => ?_, fun v => ⟨0, 0, ?_, by simp, ?_⟩⟩
  · rw [hlook] at hc
    split at hc
    · cases hc
      exact hn
    · exact hs v c hc
  · rw [Multiset.zero_add]
    unfold onTable
    by_cases hv : v = table
    · subst hv
      rw [if_pos rfl, ← hb]
      unfold Db.buffered
      rw [hlook, if_pos rfl]
    · rw [if_neg hv, Multiset.add_zero]
      unfold Db.buffered
      rw [hlook, if_neg hv]
  · rw [Multiset.add_zero]
    rfl

theorem Conserved.then_none {gain : String → Multiset Supplied} (h : Conserved env s t gain)
    (h' : Conserved env t u fun _ => 0) : Conserved env s u gain :=
  (h.trans h').congr fun _ => Multiset.add_zero _

theorem wp_keepBuffered (hs : Counted s) (table : String) (batches : List RecordBatch) :
    wp (FlushesSafely env) (keepBuffered env table batches) s fun _ t => Conserved env s t fun _ => 0 := by
  have hrest : ∀ s₁, Conserved env s s₁ (fun _ => 0) → wp (FlushesSafely env) (do
      let t' ← now env
      let shouldFlush := ((← get).writeBuffer.lookup table).any fun b =>
        b.rowCount ≥ env.writeBufferRowThreshold || b.approxBytes ≥ env.writeBufferByteThreshold ||
          t' - b.firstBufferedAt ≥ env.writeBufferTimeThreshold
      if shouldFlush then
        let _ ← flushTable env table
      else pure ()
      return (totalRows batches, shouldFlush) : M (Nat × Bool)) s₁ fun _ t => Conserved env s t fun _ => 0 := by
    intro s₁ h₁
    rw [wp_bind]
    refine wp_quiet quiet_now fun r s₂ _ h₂ => ?_
    have hc := h₁.of_same h₂
    cases r with
    | error e => exact hc
    | ok t' =>
      simp only [wp_bind, wp_get]
      split
      · rw [wp_bind]
        refine wp_mono (fun r t ht => ?_) (wp_flush_conserved hc.counted table)
        cases r with
        | error e => exact hc.then_none ht
        | ok _ => exact wp_pure.mpr (hc.then_none ht)
      · exact wp_pure.mpr hc
  unfold keepBuffered
  simp only [wp_bind, wp_get]
  split
  · rw [wp_bind, wp_emit]
    exact fun _ => hrest _ ((Conserved.refl hs).of_same rfl)
  · exact hrest s (Conserved.refl hs)

/-- The rows are added to the table, or the INSERT fails and they are added all the same or not at all. -/
def Added (env : Env) (table : String) (rows : Multiset Supplied) (s : Db) (r : Except String (Nat × Bool)) (t : Db) :
    Prop :=
  match r with
  | .ok _ => Conserved env s t (onTable table rows)
  | .error _ => ∃ gain ≤ rows, Conserved env s t (onTable table gain)

theorem wp_bufferBehind (hs : Counted s) {table : String} {entry : BufferedInsert}
    (hn : entry.rowCount = totalRows entry.batches) (hb : supplied entry.columns entry.batches = s.buffered table)
    (batches : List RecordBatch) : wp (FlushesSafely env) (bufferBehind env table entry batches) s
      (Added env table (supplied entry.columns batches) s) := by
  unfold bufferBehind
  rw [wp_bind, wp_emit]
  intro _
  have hnew : Conserved env s (apply s (.setBuffer table { entry with
      batches := entry.batches ++ batches
      rowCount := entry.rowCount + totalRows batches
      approxBytes := entry.approxBytes + env.batchBytes batches })) (onTable table (supplied entry.columns batches)) := by
    refine Conserved.setBuffer hs ?_ ?_
    · simp [hn, totalRows]
    · rw [← hb]
      exact supplied_append _ _ _
  rw [wp_bind, wp_targetColumnsOf]
  dsimp only
  rw [wp_bind, wp_attempt]
  refine wp_quiet (quiet_validate _ _ _ _) fun r t _ ht => ?_
  cases r with
  | error e =>
    -- the entry is put back
    simp only [wp_bind, wp_emit, wp_throw]
    intro _
    refine ⟨0, Multiset.zero_le _, ?_⟩
    have hlook : (apply t (.setBuffer table entry)).tableState = (apply s (.setBuffer table entry)).tableState := by
      obtain ⟨hstore, hnext, hctx, hcat, hbuf, htxn⟩ := TableState.mk.inj ht
      show TableState.mk t.store t.nextFile t.ctx t.catalog (t.writeBuffer.insert table entry) t.activeTxn = _
      rw [hstore, hnext, hctx, hcat, hbuf, htxn]
      congr 1
      exact AList.insert_insert _
    refine Conserved.of_same (Conserved.setBuffer hs hn ?_) hlook
    rw [hb, Multiset.add_zero]
  | ok _ =>
    have hc := hnew.of_same ht
    refine wp_mono (fun r u hu => ?_) (wp_keepBuffered hc.counted table batches)
    cases r with
    | error e => exact ⟨_, le_refl _, hc.then_none hu⟩
    | ok _ => exact hc.then_none hu

/-- An INSERT that succeeds adds its rows; one that fails adds all of them or none. -/
theorem wp_bufferInsertBatches (hs : Counted s) (table : String) (columns : Option (List String))
    (batches : List RecordBatch) : wp (FlushesSafely env) (bufferInsertBatches env table columns batches) s
      (Added env table (supplied columns batches) s) := by
  -- the entry has the columns of the INSERT, because another one is flushed first
  have happend : ∀ s₁, Conserved env s s₁ (fun _ => 0) →
      (∀ b, s₁.writeBuffer.lookup table = some b → b.columns = columns) →
      wp (FlushesSafely env) (appendBuffered env table columns batches) s₁ (Added env table (supplied columns batches) s) := by
    intro s₁ h₁ hcols
    unfold appendBuffered
    rw [wp_bind]
    refine wp_quiet quiet_now fun r s₂ _ h₂ => ?_
    have hc := h₁.of_same h₂
    cases r with
    | error e => exact ⟨0, Multiset.zero_le _, hc.congr fun v => by simp [onTable]⟩
    | ok t =>
      simp only [wp_bind, wp_get]
      have hentry : (bufferEntry s₂ table columns t).columns = columns ∧
          (bufferEntry s₂ table columns t).rowCount = totalRows (bufferEntry s₂ table columns t).batches ∧
          supplied (bufferEntry s₂ table columns t).columns (bufferEntry s₂ table columns t).batches =
            s₂.buffered table := by
        unfold bufferEntry Db.buffered
        cases hb : s₂.writeBuffer.lookup table with
        | none => simp [totalRows, supplied, allRows]
        | some b =>
          have hbuf : s₂.writeBuffer = s₁.writeBuffer := congrArg TableState.writeBuffer h₂
          have hcol : b.columns = columns := hcols b (by rw [← hbuf, hb])
          have hcount := hc.counted table b hb
          simp only [Option.getD_some]
          split
          · rename_i hnil
            rw [hnil] at hcount ⊢
            exact ⟨rfl, hcount, by simp [supplied, allRows]⟩
          · exact ⟨hcol, hcount, rfl⟩
      obtain ⟨hcol, hn, hb⟩ := hentry
      refine wp_mono (fun r u hu => ?_) (wp_bufferBehind hc.counted hn hb batches)
      rw [hcol] at hu
      cases r with
      | error e =>
        obtain ⟨gain, hle, hu⟩ := hu
        exact ⟨gain, hle, (hc.trans hu).congr fun _ => Multiset.zero_add _⟩
      | ok _ => exact (hc.trans hu).congr fun _ => Multiset.zero_add _
  rw [bufferInsertBatches_eq]
  split
  · rename_i hzero
    rw [wp_pure, supplied_eq_zero hzero]
    exact (Conserved.refl hs).congr fun v => by simp [onTable]
  · simp only [wp_bind, wp_get]
    cases hb : s.writeBuffer.lookup table with
    | none =>
      refine happend s (Conserved.refl hs) fun b hb' => ?_
      rw [hb] at hb'
      cases hb'
    | some existing =>
      dsimp only
      by_cases hcol : existing.columns = columns
      · rw [if_neg (not_not.mpr hcol)]
        refine happend s (Conserved.refl hs) fun b hb' => ?_
        rw [hb] at hb'
        cases hb'
        exact hcol
      · rw [if_pos hcol, wp_bind]
        have hflush : wp (FlushesSafely env) (flushTable env table) s fun _ t =>
            Conserved env s t (fun _ => 0) ∧ t.writeBuffer.lookup table = none := by
          intro hrun
          refine ⟨wp_flush_conserved hs table hrun, ?_⟩
          rw [lookup_flushTable, if_pos rfl]
        refine wp_mono (fun r s₁ h₁ => ?_) hflush
        cases r with
        | error e => exact ⟨0, Multiset.zero_le _, h₁.1.congr fun v => by simp [onTable]⟩
        | ok _ =>
          refine happend s₁ h₁.1 fun b hb' => ?_
          rw [h₁.2] at hb'
          cases hb'

end

/-! ## Runs -/

/-- A buffered INSERT, or a flush for whatever reason. -/
inductive BufferEvent where
  | insert (table : String) (columns : Option (List String)) (batches : List RecordBatch)
  | flush (table : String)

/-- The engine, with the rows of the INSERTs that succeeded and of those that failed. -/
structure Ledger where
  db : Db
  acknowledged : String → Multiset Supplied
  failed : String → Multiset Supplied

def Ledger.start (s : Db) : Ledger := ⟨s, fun _ => 0, fun _ => 0⟩

section
variable (env : Env)

def Ledger.step (l : Ledger) : BufferEvent → Ledger
  | .insert table columns batches =>
    let rows := onTable table (supplied columns batches)
    let db := (bufferInsertBatches env table columns batches).final l.db
    match (bufferInsertBatches env table columns batches).result l.db with
    | .ok _ => ⟨db, fun u => l.acknowledged u + rows u, l.failed⟩
    | .error _ => ⟨db, l.acknowledged, fun u => l.failed u + rows u⟩
  | .flush table => { l with db := (flushTable env table).final l.db }

def Ledger.run (l : Ledger) (es : List BufferEvent) : Ledger := es.foldl (Ledger.step env) l

def BufferEvent.ops (s : Db) : BufferEvent → List Op
  | .insert table columns batches => (bufferInsertBatches env table columns batches).ops s
  | .flush table => (flushTable env table).ops s

/-- Each flush of the run can write the rows it takes. -/
def Ledger.FlushesSafely : Ledger → List BufferEvent → Prop
  | _, [] => True
  | l, e :: es => Along (PotatoDB.FlushesSafely env) l.db (e.ops env l.db) ∧ Ledger.FlushesSafely (l.step env e) es

/-- The rows of the INSERTs that succeeded, some of those that failed and what was in the buffer before, are in the
buffer or in files, each once. -/
def Ledger.Kept (s : Db) (l : Ledger) : Prop :=
  ∃ extra : String → Multiset Supplied, (∀ u, extra u ≤ l.failed u) ∧
    Conserved env s l.db fun u => l.acknowledged u + extra u

end

section
variable {env : Env} {s : Db} {l : Ledger}

theorem Ledger.kept_start (hs : Counted s) : (Ledger.start s).Kept env s :=
  ⟨fun _ => 0, fun _ => le_refl _, (Conserved.refl hs).congr fun _ => (Multiset.add_zero _).symm⟩

theorem Ledger.kept_step {e : BufferEvent} (h : l.Kept env s)
    (hsafe : Along (PotatoDB.FlushesSafely env) l.db (e.ops env l.db)) : (l.step env e).Kept env s := by
  obtain ⟨extra, hle, hc⟩ := h
  cases e with
  | flush table => exact ⟨extra, hle, hc.then_none (wp_flush_conserved hc.counted table hsafe)⟩
  | insert table columns batches =>
    have hadd := wp_bufferInsertBatches hc.counted table columns batches hsafe
    unfold Ledger.step
    dsimp only
    cases hr : (bufferInsertBatches env table columns batches).result l.db with
    | ok a =>
      rw [hr] at hadd
      refine ⟨extra, hle, (hc.trans hadd).congr fun u => ?_⟩
      rw [Multiset.add_assoc, Multiset.add_comm (extra u), ← Multiset.add_assoc]
    | error e =>
      rw [hr] at hadd
      obtain ⟨gain, hgain, hadd⟩ := hadd
      refine ⟨fun u => extra u + onTable table gain u, fun u => ?_, (hc.trans hadd).congr fun u => ?_⟩
      · have hnew : onTable table gain u ≤ onTable table (supplied columns batches) u := by
          unfold onTable
          split
          · exact hgain
          · exact le_refl _
        exact (Multiset.add_le_add_iff_right.mpr (hle u)).trans (Multiset.add_le_add_iff_left.mpr hnew)
      · exact Multiset.add_assoc _ _ _

/-- **No inserted row is lost** in a run whose flushes can write what they take. -/
theorem inserted_rows_kept (hs : Counted s) (es : List BufferEvent)
    (hrun : (Ledger.start s).FlushesSafely env es) : ((Ledger.start s).run env es).Kept env s := by
  have hmain : ∀ (es : List BufferEvent) (l : Ledger), l.Kept env s → l.FlushesSafely env es →
      (l.run env es).Kept env s := by
    intro es
    induction es with
    | nil => exact fun _ h _ => h
    | cons e es ih =>
      intro l h hrun
      exact ih _ (Ledger.kept_step h hrun.1) hrun.2
  exact hmain es _ (Ledger.kept_start hs) hrun

end

/-! ## A flush of two schemas -/

/-- `INSERT INTO t VALUES (FALSE)`, as rows. -/
def falseBatch : RecordBatch := ⟨[⟨"column1", "BOOLEAN", true⟩], [[.bool false]]⟩

/-- `INSERT INTO t VALUES (NULL)`, as rows. -/
def nullBatch : RecordBatch := ⟨[⟨"column1", "Null", true⟩], [[.nullArray]]⟩

/-- Two INSERTs into `t` and a flush. -/
def mixedLedger : Ledger := (Ledger.start flagDb).run flagEnv
  [.insert "t" none [falseBatch], .insert "t" none [nullBatch], .flush "t"]

/-- **Two rows whose batches differ in schema are lost by the flush**, though both INSERTs succeeded. -/
theorem flush_loses_mixed_rows :
    mixedLedger.acknowledged "t" = ↑[((none : Option (List String)), [Value.bool false]), (none, [Value.nullArray])] ∧
      mixedLedger.db.writeBuffer.lookup "t" = none ∧
      mixedLedger.db.relation "t" = some ⟨flagSchema, [[.bool true]]⟩ ∧ ¬ mixedLedger.Kept flagEnv flagDb := by
  have hack : mixedLedger.acknowledged "t" =
      ↑[((none : Option (List String)), [Value.bool false]), (none, [Value.nullArray])] := by decide +kernel
  have hbuf : mixedLedger.db.writeBuffer.lookup "t" = none := by decide +kernel
  have hrel : mixedLedger.db.relation "t" = some ⟨flagSchema, [[.bool true]]⟩ := by decide +kernel
  refine ⟨hack, hbuf, hrel, fun hkept => ?_⟩
  obtain ⟨extra, -, hc⟩ := hkept
  have hfiles : mixedLedger.db.rows "t" = flagDb.rows "t" := by
    unfold Db.rows
    rw [hrel]
    rfl
  have hgone : mixedLedger.db.buffered "t" = 0 := by
    unfold Db.buffered
    rw [hbuf]
  have hcard := hc.card_gain "t"
  rw [hfiles, hgone, hack, Multiset.card_add, Multiset.coe_card] at hcard
  simp only [Multiset.card_zero, List.length_cons] at hcard
  omega

def Op.takesRows : Op → Bool
  | .removeBuffer _ => true
  | _ => false

theorem along_of_no_flush {env : Env} {os : List Op} {s : Db} (h : ∀ o ∈ os, o.takesRows = false) :
    Along (FlushesSafely env) s os := by
  refine along_of_forall fun o ho t => ?_
  cases o with
  | removeBuffer table => exact absurd (h _ ho) (by simp [Op.takesRows])
  | _ => trivial

/-- The state after the first of the INSERTs. -/
def bufferedDb : Db := (bufferInsertBatches flagEnv "t" none [falseBatch]).final flagDb

/-- One row is flushed safely. -/
theorem flush_keeps_row :
    ((Ledger.start flagDb).run flagEnv [.insert "t" none [falseBatch], .flush "t"]).Kept flagEnv flagDb := by
  refine inserted_rows_kept ?_ _ ⟨along_of_no_flush ?_, ?_, trivial⟩
  · intro table b hb
    cases hb
  · show ∀ o ∈ (bufferInsertBatches flagEnv "t" none [falseBatch]).ops flagDb, _
    decide +kernel
  · show Along (FlushesSafely flagEnv) bufferedDb ((flushTable flagEnv "t").ops bufferedDb)
    have hops : (flushTable flagEnv "t").ops bufferedDb =
        .removeBuffer "t" :: ((flushTable flagEnv "t").ops bufferedDb).tail := by decide +kernel
    rw [hops]
    refine ⟨?_, along_of_no_flush ?_⟩
    · intro b hb _
      have hlook : bufferedDb.writeBuffer.lookup "t" = some ⟨none, [falseBatch], 1, 0, 0⟩ := by decide +kernel
      obtain rfl := Option.some.inj (hb.symm.trans hlook)
      refine ⟨?_, Or.inl rfl, ?_, ?_, ⟨["t"], flagSchema⟩, [[.bool false]], ?_, ?_⟩
      · refine (flag_housed ?_ ?_ ?_ ?_).flushable "t" <;> decide +kernel
      all_goals decide +kernel
    · decide +kernel

end PotatoDB
