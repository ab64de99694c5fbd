import PotatoDB.LogSound

/-!
# The size of the write buffer

A table that reaches a threshold is flushed before the statement ends, and a flush takes the rows out of the buffer
before anything can fail. So between statements every buffer is smaller than both thresholds.
-/

namespace PotatoDB

open Oplog Oplog.Prog
open Machine (apply)

/-- The count is that of the rows, and rows are only there below the thresholds. -/
structure BufferedInsert.Bounded (env : Env) (b : BufferedInsert) : Prop where
  counted : b.rowCount = totalRows b.batches
  small : b.batches ≠ [] → b.rowCount < env.writeBufferRowThreshold ∧ b.approxBytes < env.writeBufferByteThreshold

/-- The buffers of all tables but the excepted ones are bounded. -/
def BoundedBut (env : Env) (except : String → Prop) (s : Db) : Prop :=
  ∀ table b, ¬ except table → s.writeBuffer.lookup table = some b → b.Bounded env

def Bounded (env : Env) (s : Db) : Prop := BoundedBut env (fun _ => False) s

section
variable {env : Env} {s t : Db} {except : String → Prop}

/-- The buffer itself stays as it is. -/
def Op.KeepsBuffer (o : Op) : Prop := ∀ s, (apply s o).writeBuffer = s.writeBuffer

theorem Op.Plain.keepsBuffer {o : Op} (h : o.Plain) : o.KeepsBuffer := by
  intro s
  cases o with
  | setBuffer _ _ | removeBuffer _ | arrowAppend _ _ | arrowCheckpoint _ | arrowCheckpointAll | setReplayingWal _
  | restoreFiles _ _ => exact h.elim
  | _ => rfl

theorem Op.Flushing.keepsBuffer {table : String} {o : Op} (h : o.Flushing table) : o.KeepsBuffer := by
  obtain h | rfl := h
  · exact h.plain.keepsBuffer
  · exact fun _ => rfl

theorem BoundedBut.congr (h : BoundedBut env except s) (hbuf : t.writeBuffer = s.writeBuffer) : BoundedBut env except t := by
  intro table b hex hb
  rw [hbuf] at hb
  exact h table b hex hb

theorem boundedBut_keeps (s : Db) (o : Op) (ho : o.KeepsBuffer) (h : BoundedBut env except s) : BoundedBut env except (apply s o) :=
  h.congr (ho s)

theorem maintains_bounded {α : Type} {p : M α} (hp : Emits Op.KeepsBuffer p) :
    Maintains (fun _ _ => True) (BoundedBut env except) p :=
  hp.maintains fun s o ho _ h => boundedBut_keeps s o ho h

theorem maintains_bounded_plain {α : Type} {p : M α} (hp : Emits Op.Plain p) : Maintains (fun _ _ => True) (Bounded env) p :=
  maintains_bounded (hp.mono fun _ h => h.keepsBuffer)

/-! ## A flush -/

/-- The table that is flushed need not have been bounded, whether or not the flush fails. -/
theorem flush_bounds (table : String) (h : BoundedBut env (· = table) s) :
    wp (fun _ _ => True) (flushTable env table) s fun _ t => Bounded env t := by
  rw [flushTable_eq, wp_bind, wp_get]
  dsimp only
  cases hb : s.writeBuffer.lookup table with
  | none =>
    intro _ u b _ hu
    refine h u b ?_ hu
    intro hut
    change s.writeBuffer.lookup u = some b at hu
    rw [hut, hb] at hu
    cases hu
  | some b =>
    dsimp only
    rw [wp_bind, wp_emit]
    intro _
    have hremoved : Bounded env (apply s (.removeBuffer table)) := by
      intro u c _ hu
      change (s.writeBuffer.erase table).lookup u = some c at hu
      by_cases hut : u = table
      · rw [hut, AList.lookup_erase] at hu
        cases hu
      · rw [AList.lookup_erase_ne hut] at hu
        exact h u c hut hu
    exact maintains_bounded ((flushing_writeBuffered table b).mono fun _ h => h.keepsBuffer) _ hremoved

theorem maintains_bounded_flush (table : String) : Maintains (fun _ _ => True) (Bounded env) (flushTable env table) :=
  fun _ hs => flush_bounds table fun u b _ hu => hs u b id hu

/-! ## Buffering -/

theorem boundedBut_setBuffer (h : Bounded env s) (table : String) (b : BufferedInsert) :
    BoundedBut env (· = table) (apply s (.setBuffer table b)) := by
  intro u c hut hu
  change (s.writeBuffer.insert table b).lookup u = some c at hu
  rw [AList.lookup_insert_ne hut] at hu
  exact h u c id hu

theorem bounded_setBuffer {table : String} (h : BoundedBut env (· = table) s) {b : BufferedInsert} (hb : b.Bounded env) :
    Bounded env (apply s (.setBuffer table b)) := by
  intro u c _ hu
  change (s.writeBuffer.insert table b).lookup u = some c at hu
  by_cases hut : u = table
  · rw [hut, AList.lookup_insert] at hu
    cases hu
    exact hb
  · rw [AList.lookup_insert_ne hut] at hu
    exact h u c hut hu

/-- One table may have reached a threshold. -/
structure Filled (env : Env) (table : String) (s : Db) : Prop where
  others : BoundedBut env (· = table) s
  counted : ∀ b, s.writeBuffer.lookup table = some b → b.rowCount = totalRows b.batches

theorem Filled.keeps {table : String} {o : Op} (h : Filled env table s) (ho : o.KeepsBuffer) : Filled env table (apply s o) where
  others := boundedBut_keeps s o ho h.others
  counted := by
    have hsame : (apply s o).writeBuffer = s.writeBuffer := ho s
    rw [hsame]
    exact h.counted

theorem Filled.bounded {table : String} (h : Filled env table s) (hsmall : ∀ b, s.writeBuffer.lookup table = some b →
    b.rowCount < env.writeBufferRowThreshold ∧ b.approxBytes < env.writeBufferByteThreshold) : Bounded env s := by
  intro u b _ hu
  by_cases hut : u = table
  · subst hut
    exact ⟨h.counted b hu, fun _ => hsmall b hu⟩
  · exact h.others u b hut hu

/-- A threshold that is reached flushes the table. -/
theorem keepBuffered_bounds {table : String} (batches : List RecordBatch) (h : Filled env table s) :
    wp (fun _ _ => True) (keepBuffered env table batches) s fun _ t => Bounded env t := by
  have hrest : ∀ s, Filled env table s → wp (fun _ _ => True) (do
      let t' ← now env
      let shouldFlush := ((← get).writeBuffer.lookup table).any fun b =>
        b.rowCount ≥ env.writeBufferRowThreshold || b.approxBytes ≥ env.writeBufferByteThreshold ||
          t' - b.firstBufferedAt ≥ env.writeBufferTimeThreshold
      if shouldFlush then
        let _ ← flushTable env table
      else pure ()
      return (totalRows batches, shouldFlush) : M (Nat × Bool)) s fun _ t => Bounded env t := by
    intro s hs
    simp only [now, wp_bind, wp_get, wp_emit, wp_pure]
    intro _
    have ht := hs.keeps (o := .setCounters { s.counters with clockReadings := s.counters.clockReadings + 1 }) fun _ => rfl
    split
    · rw [wp_bind]
      refine wp_mono (fun r u hu => ?_) (flush_bounds table ht.others)
      cases r with
      | error e => exact hu
      | ok _ => exact wp_pure.mpr hu
    · rename_i hno
      refine wp_pure.mpr (ht.bounded fun b hb => ?_)
      simp only [hb, Option.any_some, Bool.or_eq_true, decide_eq_true_eq, not_or, not_le] at hno
      exact ⟨hno.1.1, hno.1.2⟩
  unfold keepBuffered
  rw [wp_bind, wp_get]
  dsimp only
  split
  · rw [wp_bind, wp_emit]
    exact fun _ => hrest _ (h.keeps fun _ => rfl)
  · exact hrest _ h

theorem bufferBehind_bounds {table : String} {entry : BufferedInsert} (batches : List RecordBatch) (h : Bounded env s)
    (hentry : entry.Bounded env) : wp (fun _ _ => True) (bufferBehind env table entry batches) s fun _ t => Bounded env t := by
  unfold bufferBehind
  rw [wp_bind, wp_emit]
  intro _
  rw [wp_bind, wp_targetColumnsOf]
  dsimp only
  rw [wp_bind, wp_attempt]
  have hfilled : Filled env table (apply s (.setBuffer table { entry with
      batches := entry.batches ++ batches
      rowCount := entry.rowCount + totalRows batches
      approxBytes := entry.approxBytes + env.batchBytes batches })) := by
    refine ⟨boundedBut_setBuffer h table _, fun b hb => ?_⟩
    change (s.writeBuffer.insert table _).lookup table = some b at hb
    rw [AList.lookup_insert] at hb
    cases hb
    simp [totalRows, hentry.counted]
  refine wp_validate fun r t ht => ?_
  have hbuf := (LogView.mk.inj ht).1
  have ht' : Filled env table t := ⟨hfilled.others.congr hbuf, by rw [hbuf]; exact hfilled.counted⟩
  cases r with
  | error e =>
    -- the entry is put back
    simp only [wp_bind, wp_emit, wp_throw]
    exact fun _ => bounded_setBuffer ht'.others hentry
  | ok _ => exact keepBuffered_bounds batches ht'

theorem maintains_bounded_buffer (table : String) (columns : Option (List String)) (batches : List RecordBatch) :
    Maintains (fun _ _ => True) (Bounded env) (bufferInsertBatches env table columns batches) := by
  have happend : Maintains (fun _ _ => True) (Bounded env) (appendBuffered env table columns batches) := by
    refine (maintains_bounded_plain (plain_of_writing writing_now)).bind fun t s hs => ?_
    simp only [wp_bind, wp_get]
    refine bufferBehind_bounds batches hs ?_
    unfold bufferEntry
    cases hb : s.writeBuffer.lookup table with
    | none => simp only [Option.getD_none, if_true]; exact ⟨rfl, fun h => absurd rfl h⟩
    | some b =>
      have hbounded := hs table b id hb
      dsimp only [Option.getD_some]
      split
      · exact ⟨hbounded.counted, hbounded.small⟩
      · exact hbounded
  rw [bufferInsertBatches_eq]
  split
  · exact maintains_pure _
  · refine maintains_get.bind fun db => ?_
    split
    · split
      · exact (maintains_bounded_flush table).bind fun _ => happend
      · exact happend
    · exact happend

/-! ## Statements -/

theorem maintains_bounded_checkpoint : Maintains (fun _ _ => True) (Bounded env) (handleCheckpoint env) := by
  have hlog : Emits Op.KeepsBuffer (do
      if env.arrowWalEnabled then emit .arrowCheckpointAll else pure ()
      return .message "Checkpoint completed for WAL and Arrow WAL." : M QueryResult) := by
    dsimp only
    split
    · exact Emits.bind (emits_emit fun _ => rfl) fun _ => emits_pure _
    · exact emits_pure _
  have hplain : ∀ {α : Type} {p : M α}, Emits Op.Plain p → Emits Op.KeepsBuffer p := fun hp => hp.mono fun _ h => h.keepsBuffer
  refine maintains_bounded ?_
  unfold handleCheckpoint
  refine emits_get.bind fun db => ?_
  split
  · exact emits_throw _
  · dsimp only
    split
    · refine Emits.bind (hplain (emits_emit trivial)) fun _ => (hplain (plain_of_writing writing_now)).bind fun t => ?_
      exact emits_get.bind fun s => Emits.bind (hplain (emits_emit trivial)) fun _ => hlog
    · exact hlog

theorem bounded_parts : Parts env (fun _ _ => True) (Bounded env) fun _ _ => True where
  free s o ho _ := boundedBut_keeps s o ho.plain.keepsBuffer
  keep s _ _ _ := boundedBut_keeps s _ fun _ => rfl
  right _ _ _ _ _ := trivial
  register s _ _ _ _ _ := boundedBut_keeps s _ fun _ => rfl
  insert table columns batches := maintains_bounded_plain (plain_of_writing (writing_insertInto table columns batches))

theorem bounded_statements : Invariant env (fun _ _ => True) (Bounded env) (fun _ _ => True) fun _ _ => True where
  toParts := bounded_parts
  arrive sql s hs := wp_mono (fun _ _ ht => ⟨ht, fun _ => trivial⟩) (bounded_parts.arrive maintains_bounded_flush sql s hs)
  flush := maintains_bounded_flush
  buffer := maintains_bounded_buffer
  checkpoint := maintains_bounded_checkpoint
  create create s _ := maintains_bounded_plain (plain_handleCreateTable create) s
  drop name ifExists := maintains_bounded_plain (plain_handleDropTable name ifExists)
  rename _ oldName newName s _ _ := maintains_bounded_plain (plain_handleRenameTable oldName newName) s
  rollback := maintains_bounded_plain plain_handleRollback
  rollbackTo name := maintains_bounded_plain (plain_handleRollbackTo name)
  createView create s _ := maintains_bounded_plain (plain_handleCreateView create) s
  refreshView name s _ := maintains_bounded_plain (plain_handleRefreshMaterializedView name) s

end

end PotatoDB
