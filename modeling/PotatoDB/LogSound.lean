import PotatoDB.BufferSound
import PotatoDB.Handlers

/-!
# The Arrow log and the write buffer

A restart puts the rows of the Arrow log into the buffer, each under all columns of its table. These
include the rows that were in the buffer as long as the rows were inserted under all columns in the
order of the table, and CHECKPOINT finds the buffer empty.
-/

namespace PotatoDB

open Oplog Oplog.Prog
open Machine (apply)

/-! ## Rows by column -/

/-- The values of a row by column; a row of another width has none. -/
def placed (columns : List String) (row : Row) : Option (Multiset (String × Value)) :=
  if columns.length = row.length then some ((columns.zip row : List (String × Value)) : Multiset (String × Value))
  else none

def placedRows (columns : List String) (batches : List RecordBatch) :
    Multiset (Option (Multiset (String × Value))) :=
  (allRows batches).map (placed columns)

def Db.loggedBatches (s : Db) (table : String) : List RecordBatch := (s.arrowLog.lookup table).getD []

/-- The rows in the buffer of a table, by the columns of their INSERT. -/
def Db.placedBuffer (s : Db) (table : String) : Multiset (Option (Multiset (String × Value))) :=
  match s.writeBuffer.lookup table with
  | none => 0
  | some b => placedRows (flushColumns s table b.columns) b.batches

/-- The rows a restart puts in the buffer of a table of the stored catalog, by the columns of this table. -/
def Db.placedLog (s : Db) (table : String) : Multiset (Option (Multiset (String × Value))) :=
  match s.restart.catalog.tables.lookup table with
  | none => 0
  | some m => placedRows m.columnNames (s.loggedBatches table)

/-- A restart rebuilds the buffer. -/
structure Covered (s : Db) : Prop where
  rows : ∀ table, s.placedBuffer table ≤ s.placedLog table

/-- The columns of the tables with buffered rows stay as they are, in memory and in the stored catalog. -/
def SameColumns (s t : Db) : Prop :=
  ∀ table b, s.writeBuffer.lookup table = some b → b.batches ≠ [] →
    flushColumns t table b.columns = flushColumns s table b.columns ∧
      (t.restart.catalog.tables.lookup table).map (·.columnNames) =
        (s.restart.catalog.tables.lookup table).map (·.columnNames)

/-- Rows are buffered under the columns that the stored table has, these columns stay, and the log is emptied only
when nothing is buffered. -/
def LogsInPlace (s : Db) : Op → Prop
  | .setBuffer table b => b.batches ≠ [] →
      ∃ m, s.restart.catalog.tables.lookup table = some m ∧ flushColumns s table b.columns = m.columnNames
  | .arrowCheckpointAll => ∀ table b, s.writeBuffer.lookup table = some b → b.batches = []
  | .setCatalog data => SameColumns s (apply s (.setCatalog data))
  | .writeCatalog => SameColumns s (apply s .writeCatalog)
  | _ => True

/-- The rows of a buffer are the last ones of the log of the table, under the columns of the stored table. -/
structure Backed (s : Db) : Prop where
  live : s.replayingWal = false
  buffer : ∀ table b, s.writeBuffer.lookup table = some b → b.batches ≠ [] →
    (∃ m, s.restart.catalog.tables.lookup table = some m ∧ flushColumns s table b.columns = m.columnNames) ∧
      b.batches <:+ s.loggedBatches table

/-- The part of a state that the log and the buffer depend on. -/
structure LogView where
  writeBuffer : Map BufferedInsert
  arrowLog : Map (List RecordBatch)
  catalog : CatalogData
  catalogDoc : Option CatalogData
  replayingWal : Bool

def Db.logView (s : Db) : LogView := ⟨s.writeBuffer, s.arrowLog, s.catalog, s.catalogDoc, s.replayingWal⟩

section
variable {env : Env} {s t : Db}

theorem flushColumns_congr (h : t.catalog = s.catalog) (table : String) (columns : Option (List String)) :
    flushColumns t table columns = flushColumns s table columns := by
  unfold flushColumns
  rw [h]

theorem restart_congr (h : t.catalogDoc = s.catalogDoc) : t.restart.catalog = s.restart.catalog := by
  show t.catalogDoc.getD .empty = s.catalogDoc.getD .empty
  rw [h]

theorem Backed.congr (h : Backed s) (hv : t.logView = s.logView) : Backed t := by
  obtain ⟨hbuf, hlog, hcat, hdoc, hlive⟩ := LogView.mk.inj hv
  refine ⟨hlive.trans h.live, fun table b hb hne => ?_⟩
  rw [hbuf] at hb
  unfold Db.loggedBatches
  rw [flushColumns_congr hcat, restart_congr hdoc, hlog]
  exact h.buffer table b hb hne

/-! ## The buffer is covered -/

theorem placedRows_append (columns : List String) (bs cs : List RecordBatch) :
    placedRows columns (bs ++ cs) = placedRows columns bs + placedRows columns cs := by
  simp [placedRows, allRows]

theorem Backed.covered (h : Backed s) : Covered s := by
  refine ⟨fun table => ?_⟩
  unfold Db.placedBuffer
  cases hb : s.writeBuffer.lookup table with
  | none => exact Multiset.zero_le _
  | some b =>
    by_cases hne : b.batches = []
    · dsimp only
      rw [hne]
      exact Multiset.zero_le _
    · obtain ⟨⟨m, hm, hcols⟩, pre, hpre⟩ := h.buffer table b hb hne
      unfold Db.placedLog
      rw [hm]
      dsimp only
      rw [hcols, ← hpre, placedRows_append]
      exact Multiset.le_add_left _ _

/-! ## Operations -/

theorem Backed.sameColumns (h : Backed s) (hs : SameColumns s t) (hbuf : t.writeBuffer = s.writeBuffer)
    (hlog : t.arrowLog = s.arrowLog) (hlive : t.replayingWal = s.replayingWal) : Backed t := by
  refine ⟨hlive.trans h.live, fun table b hb hne => ?_⟩
  rw [hbuf] at hb
  obtain ⟨⟨m, hm, hcols⟩, hsuf⟩ := h.buffer table b hb hne
  obtain ⟨hflush, hstored⟩ := hs table b hb hne
  rw [hm, Option.map_some] at hstored
  obtain ⟨m', hm', hnames⟩ := Option.map_eq_some_iff.mp hstored
  refine ⟨⟨m', hm', ?_⟩, ?_⟩
  · rw [hflush, hcols, hnames]
  · unfold Db.loggedBatches
    rw [hlog]
    exact hsuf

theorem backed_plain (s : Db) (o : Op) (hp : o.Plain) (hc : LogsInPlace s o) (h : Backed s) : Backed (apply s o) := by
  cases o with
  | setCatalog data => exact h.sameColumns hc rfl rfl rfl
  | writeCatalog => exact h.sameColumns hc rfl rfl rfl
  | setBuffer _ _ | removeBuffer _ | arrowAppend _ _ | arrowCheckpoint _ | arrowCheckpointAll | setReplayingWal _
  | restoreFiles _ _ => exact hp.elim
  | _ => exact h.congr rfl

theorem Backed.removeBuffer (h : Backed s) (table : String) : Backed (apply s (.removeBuffer table)) := by
  refine ⟨h.live, fun u b hb hne => ?_⟩
  change (s.writeBuffer.erase table).lookup u = some b at hb
  by_cases hu : u = table
  · rw [hu, AList.lookup_erase] at hb
    cases hb
  · rw [AList.lookup_erase_ne hu] at hb
    exact h.buffer u b hb hne

/-- A flush empties the log of a table when its buffer is empty. -/
theorem maintains_flushTable (table : String) : Maintains LogsInPlace Backed (flushTable env table) := by
  rw [flushTable_eq]
  refine maintains_get.bind fun db => ?_
  split
  · exact maintains_pure _
  · rename_i b _
    intro s hs
    rw [wp_bind, wp_emit]
    intro _
    have hwrite : Maintains LogsInPlace (fun t => Backed t ∧ t.writeBuffer.lookup table = none)
        (writeBuffered env table b) := by
      refine (flushing_writeBuffered table _).maintains ?_
      rintro t o (ho | rfl) hc ⟨ht, hnone⟩
      · refine ⟨backed_plain t o ho.plain hc ht, ?_⟩
        have hbuf : (apply t o).writeBuffer = t.writeBuffer := by
          cases o <;> first | rfl | exact ho.elim
        rw [hbuf]
        exact hnone
      · refine ⟨⟨ht.live, fun u b hb hne => ?_⟩, hnone⟩
        have hu : u ≠ table := by
          rintro rfl
          have hb' : t.writeBuffer.lookup u = some b := hb
          rw [hnone] at hb'
          cases hb'
        obtain ⟨hcols, hsuf⟩ := ht.buffer u b hb hne
        refine ⟨hcols, ?_⟩
        unfold Db.loggedBatches at hsuf ⊢
        rwa [show (apply t (.arrowCheckpoint table)).arrowLog.lookup u = t.arrowLog.lookup u from AList.lookup_erase_ne hu]
    refine wp_mono (fun _ _ ht => ht.1) (hwrite _ ⟨hs.removeBuffer table, ?_⟩)
    exact AList.lookup_erase _ _

/-! ## Buffering -/

theorem Backed.setBuffer (h : Backed s) {table : String} (b : BufferedInsert)
    (hb : b.batches ≠ [] → (∃ m, s.restart.catalog.tables.lookup table = some m ∧
      flushColumns s table b.columns = m.columnNames) ∧ b.batches <:+ t.loggedBatches table)
    (hlog : ∀ u, u ≠ table → t.loggedBatches u = s.loggedBatches u)
    (ht : t.logView = { s.logView with writeBuffer := s.writeBuffer.insert table b, arrowLog := t.arrowLog }) :
    Backed t := by
  obtain ⟨hbuf, -, hcat, hdoc, hlive⟩ := LogView.mk.inj ht
  refine ⟨hlive.trans h.live, fun u c hc hne => ?_⟩
  rw [flushColumns_congr hcat, restart_congr hdoc]
  rw [hbuf] at hc
  by_cases hu : u = table
  · subst hu
    rw [AList.lookup_insert] at hc
    cases hc
    exact hb hne
  · rw [AList.lookup_insert_ne hu] at hc
    rw [hlog u hu]
    exact h.buffer u c hc hne

theorem Backed.entry_suffix (h : Backed s) {table : String} {entry : BufferedInsert}
    (hentry : entry.batches ≠ [] → s.writeBuffer.lookup table = some entry) :
    entry.batches <:+ s.loggedBatches table := by
  by_cases hne : entry.batches = []
  · rw [hne]
    exact List.nil_suffix
  · exact (h.buffer table entry (hentry hne) hne).2

theorem loggedBatches_arrowAppend (s : Db) (table u : String) (batches : List RecordBatch) :
    (apply s (.arrowAppend table batches)).loggedBatches u =
      if u = table then s.loggedBatches u ++ batches else s.loggedBatches u := by
  unfold Db.loggedBatches
  by_cases hu : u = table
  · subst hu
    rw [if_pos rfl]
    rw [show (apply s (.arrowAppend u batches)).arrowLog.lookup u = some ((s.arrowLog.lookup u).getD [] ++ batches) from
      AList.lookup_insert _]
    rfl
  · rw [if_neg hu]
    rw [show (apply s (.arrowAppend table batches)).arrowLog.lookup u = s.arrowLog.lookup u from AList.lookup_insert_ne hu]

theorem wp_validate {C : Db → Op → Prop} {table : String} {targetColumns : List String} {batches : List RecordBatch}
    {phase : ValidationPhase} {Q : Except String Merges → Db → Prop} (h : ∀ r t, t.logView = s.logView → Q r t) :
    wp C (validateConstraintsBatch env table targetColumns batches phase) s Q := by
  refine fun _ => h _ _ ((checking_validateConstraintsBatch table _ _ _).final_eq (fun t o ho => ?_) s)
  cases o with
  | cacheInsert key keys => rfl
  | _ => exact ho.elim

/-- The rows that have just been put into the buffer of the table are logged. -/
theorem maintains_keepBuffered (harrow : env.arrowWalEnabled = true) (table : String) (batches : List RecordBatch)
    (hs : s.replayingWal = false) (hlog : Backed (apply s (.arrowAppend table batches))) :
    wp LogsInPlace (keepBuffered env table batches) s fun _ t => Backed t := by
  unfold keepBuffered
  simp only [wp_bind, wp_get]
  rw [if_pos (by rw [hs, harrow]; rfl), wp_bind, wp_emit]
  intro _
  have hrest : Maintains LogsInPlace Backed (do
      let t' ← now env
      let shouldFlush := ((← get).writeBuffer.lookup table).any fun b =>
        b.rowCount ≥ env.writeBufferRowThreshold || b.approxBytes ≥ env.writeBufferByteThreshold ||
          t' - b.firstBufferedAt ≥ env.writeBufferTimeThreshold
      if shouldFlush then
        let _ ← flushTable env table
      else pure ()
      return (totalRows batches, shouldFlush) : M (Nat × Bool)) := by
    refine ((plain_of_writing writing_now).maintains backed_plain).bind fun t' => maintains_get.bind fun db => ?_
    dsimp only
    split
    · exact (maintains_flushTable table).bind fun _ => maintains_pure _
    · exact maintains_pure _
  exact hrest _ hlog

theorem maintains_bufferBehind (harrow : env.arrowWalEnabled = true) (table : String) (entry : BufferedInsert)
    (batches : List RecordBatch) (h : Backed s)
    (hentry : entry.batches ≠ [] → s.writeBuffer.lookup table = some entry) :
    wp LogsInPlace (bufferBehind env table entry batches) s fun _ t => Backed t := by
  have hsuf := h.entry_suffix hentry
  unfold bufferBehind
  rw [wp_bind, wp_emit]
  intro hc
  rw [wp_bind, wp_targetColumnsOf]
  dsimp only
  rw [wp_bind, wp_attempt]
  refine wp_validate fun r t ht => ?_
  obtain ⟨hbuf, hlog, hcat, hdoc, hlive⟩ := LogView.mk.inj ht
  cases r with
  | error e =>
    -- the entry is put back
    simp only [wp_bind, wp_emit, wp_throw]
    intro _
    refine h.setBuffer entry (fun hne => ⟨(h.buffer table entry (hentry hne) hne).1, ?_⟩) (fun u _ => ?_) ?_
    · unfold Db.loggedBatches at hsuf ⊢
      rwa [show (apply t (.setBuffer table entry)).arrowLog = s.arrowLog from hlog]
    · unfold Db.loggedBatches
      rw [show (apply t (.setBuffer table entry)).arrowLog = s.arrowLog from hlog]
    · show LogView.mk (t.writeBuffer.insert table entry) t.arrowLog t.catalog t.catalogDoc t.replayingWal = _
      rw [hbuf, hcat, hdoc, hlive]
      congr 1
      exact AList.insert_insert _
  | ok _ =>
    have hlogged : ∀ u, (apply t (.arrowAppend table batches)).loggedBatches u =
        if u = table then s.loggedBatches u ++ batches else s.loggedBatches u := by
      intro u
      rw [loggedBatches_arrowAppend]
      unfold Db.loggedBatches
      rw [hlog]
      rfl
    refine maintains_keepBuffered harrow table batches (hlive.trans h.live) ?_
    refine h.setBuffer { entry with
      batches := entry.batches ++ batches
      rowCount := entry.rowCount + totalRows batches
      approxBytes := entry.approxBytes + env.batchBytes batches } (fun hne => ⟨hc hne, ?_⟩) (fun u hu => ?_) ?_
    · rw [hlogged, if_pos rfl]
      obtain ⟨pre, hpre⟩ := hsuf
      refine ⟨pre, ?_⟩
      rw [← List.append_assoc, hpre]
    · rw [hlogged, if_neg hu]
    · show LogView.mk t.writeBuffer _ t.catalog t.catalogDoc t.replayingWal = _
      rw [hbuf, hcat, hdoc, hlive]
      rfl

theorem maintains_bufferInsertBatches (harrow : env.arrowWalEnabled = true) (table : String)
    (columns : Option (List String)) (batches : List RecordBatch) :
    Maintains LogsInPlace Backed (bufferInsertBatches env table columns batches) := by
  have happend : Maintains LogsInPlace Backed (appendBuffered env table columns batches) := by
    refine ((plain_of_writing writing_now).maintains backed_plain).bind fun t s hs => ?_
    simp only [wp_bind, wp_get]
    refine maintains_bufferBehind harrow table _ batches hs fun hne => ?_
    unfold bufferEntry at hne ⊢
    cases hb : s.writeBuffer.lookup table with
    | none => simp [hb] at hne
    | some b =>
      simp only [hb, Option.getD_some] at hne ⊢
      split at hne
      · rename_i hnil
        exact absurd hnil hne
      · rename_i hnil
        rw [if_neg hnil]
  rw [bufferInsertBatches_eq]
  split
  · exact maintains_pure _
  · refine maintains_get.bind fun db => ?_
    split
    · split
      · exact (maintains_flushTable table).bind fun _ => happend
      · exact happend
    · exact happend

theorem maintains_checkpoint : Maintains LogsInPlace Backed (handleCheckpoint env) := by
  have hlog : Maintains LogsInPlace Backed (do
      if env.arrowWalEnabled then emit .arrowCheckpointAll else pure ()
      return .message "Checkpoint completed for WAL and Arrow WAL." : M QueryResult) := by
    dsimp only
    split
    · refine Maintains.bind (maintains_emit fun s hs hc => ?_) fun _ => maintains_pure _
      exact ⟨hs.live, fun table b hb hne => absurd (hc table b hb) hne⟩
    · exact maintains_pure _
  have hplain : ∀ {α : Type} {p : M α}, Emits Op.Plain p → Maintains LogsInPlace Backed p :=
    fun hp => hp.maintains backed_plain
  unfold handleCheckpoint
  refine maintains_get.bind fun db => ?_
  split
  · exact maintains_throw _
  · dsimp only
    split
    · refine Maintains.bind (hplain (emits_emit trivial)) fun _ => (hplain (plain_of_writing writing_now)).bind fun t => ?_
      exact maintains_get.bind fun s => Maintains.bind (hplain (emits_emit trivial)) fun _ => hlog
    · exact hlog

/-! ## Runs -/

theorem backed_parts : Parts env LogsInPlace Backed fun _ _ => True where
  free s o ho := backed_plain s o ho.plain
  keep s _ _ := backed_plain s _ trivial
  right _ _ _ _ _ := trivial
  register s _ _ _ _ := backed_plain s _ trivial
  insert table columns batches := (plain_of_writing (writing_insertInto table columns batches)).maintains backed_plain

theorem backed_statements (harrow : env.arrowWalEnabled = true) :
    Invariant env LogsInPlace Backed (fun _ _ => True) fun _ _ => True where
  toParts := backed_parts
  arrive sql s hs := wp_mono (fun _ _ ht => ⟨ht, fun _ => trivial⟩) (backed_parts.arrive maintains_flushTable sql s hs)
  flush := maintains_flushTable
  buffer := maintains_bufferInsertBatches harrow
  checkpoint := maintains_checkpoint
  create create s _ := (plain_handleCreateTable create).maintains backed_plain s
  drop name ifExists := (plain_handleDropTable name ifExists).maintains backed_plain
  rename _ oldName newName s _ _ := (plain_handleRenameTable oldName newName).maintains backed_plain s
  rollback := plain_handleRollback.maintains backed_plain
  rollbackTo name := (plain_handleRollbackTo name).maintains backed_plain
  createView create s _ := (plain_handleCreateView create).maintains backed_plain s
  refreshView name s _ := (plain_handleRefreshMaterializedView name).maintains backed_plain s

/-- Opening the engine puts the logged rows of a stored table behind what the table has, under all its columns. -/
theorem wp_recoverArrowTable (hs : Counted s) {table : String} (hstored : (s.catalog.tables.lookup table).isSome)
    (batches : List RecordBatch) : wp (FlushesSafely env) (recoverArrowTable env table batches) s fun r t =>
      ∀ a, r = .ok a → Conserved env s t (onTable table (supplied none batches)) := by
  unfold recoverArrowTable
  simp only [wp_bind, wp_get]
  rw [if_pos hstored, wp_bind]
  refine wp_mono (fun r t ht => ?_) (wp_bufferInsertBatches hs table none batches)
  cases r with
  | error e => exact fun a h => absurd h (by simp)
  | ok _ =>
    have hadd : Conserved env s t (onTable table (supplied none batches)) := ht
    dsimp only
    rw [wp_bind]
    refine wp_mono (fun r u hu => ?_) (wp_flush_conserved hadd.counted table)
    cases r with
    | error e => exact fun a h => absurd h (by simp)
    | ok _ => exact wp_pure.mpr fun _ _ => hadd.then_none hu

end

/-! ## A column list, and a CHECKPOINT of one table -/

def pairColumns : List ColumnDef := [⟨"a", "BOOLEAN", true⟩, ⟨"b", "BOOLEAN", true⟩]

/-- CREATE TABLE and INSERT of TRUE and FALSE for two tables, and CHECKPOINT. -/
def pairEnv : Env := { Env.plain with
  time := fun _ => 0
  toUppercase := fun s => String.ofList (s.toList.map Char.toUpper)
  parse := fun sql =>
    if sql = "CREATE TABLE t (a BOOLEAN, b BOOLEAN)" then .createTable ⟨"t", false, pairColumns, [], [], none, sql⟩
    else if sql = "CREATE TABLE u (a BOOLEAN, b BOOLEAN)" then .createTable ⟨"u", false, pairColumns, [], [], none, sql⟩
    else if sql = "INSERT INTO t VALUES (TRUE, FALSE)" then
      .insert ⟨"t", [], some "VALUES (TRUE, FALSE)", none, none, sql⟩
    else if sql = "INSERT INTO t (b, a) VALUES (TRUE, FALSE)" then
      .insert ⟨"t", ["b", "a"], some "VALUES (TRUE, FALSE)", none, none, sql⟩
    else if sql = "INSERT INTO u VALUES (TRUE, FALSE)" then
      .insert ⟨"u", [], some "VALUES (TRUE, FALSE)", none, none, sql⟩
    else if sql = "CHECKPOINT" then .checkpoint
    else .query
  eval := fun _ _ => .ok ⟨[⟨"column1", "BOOLEAN", true⟩, ⟨"column2", "BOOLEAN", true⟩], [[.bool true, .bool false]]⟩ }

def pairDb (sqls : List String) : Db :=
  (statements pairEnv 1 ("CREATE TABLE t (a BOOLEAN, b BOOLEAN)" :: "CREATE TABLE u (a BOOLEAN, b BOOLEAN)" :: sqls)).final
    Db.new

theorem not_covered {s : Db} (table : String) (h : ¬ s.placedBuffer table ≤ s.placedLog table) : ¬ Covered s :=
  fun hs => h (hs.rows table)

/-- A row under the columns `b, a` in the buffer. -/
def swappedDb : Db := pairDb ["INSERT INTO t (b, a) VALUES (TRUE, FALSE)"]

/-- Rows of two tables in the buffer, and CHECKPOINT, whose text has the name of one of them only. -/
def checkpointedDb : Db :=
  pairDb ["INSERT INTO t VALUES (TRUE, FALSE)", "INSERT INTO u VALUES (TRUE, FALSE)", "CHECKPOINT"]

/-- An operation that is in place in every state. -/
def Op.alwaysInPlace : Op → Bool
  | setBuffer .. | arrowCheckpointAll | setCatalog _ | writeCatalog => false
  | _ => true

theorem along_alwaysInPlace {os : List Op} {s : Db} (h : ∀ o ∈ os, o.alwaysInPlace = true) : Along LogsInPlace s os := by
  refine along_of_forall fun o ho t => ?_
  cases o with
  | setBuffer _ _ | arrowCheckpointAll | setCatalog _ | writeCatalog => exact absurd (h _ ho) (by simp [Op.alwaysInPlace])
  | _ => trivial

theorem along_inPlace {os before after : List Op} {o : Op} {s : Db} (hops : os = before ++ o :: after)
    (hbefore : ∀ p ∈ before, p.alwaysInPlace = true) (hafter : ∀ p ∈ after, p.alwaysInPlace = true)
    (ho : LogsInPlace (Oplog.after s before) o) : Along LogsInPlace s os := by
  rw [hops, along_append, along_cons]
  exact ⟨along_alwaysInPlace hbefore, ho, along_alwaysInPlace hafter⟩

theorem inPlace_setBuffer {s : Db} {table : String} {b : BufferedInsert} {m : TableMeta}
    (hdoc : s.restart.catalog.tables.lookup table = some m) (hcat : s.catalog.tables.lookup table = some m)
    (hb : b.columns = none) : LogsInPlace s (.setBuffer table b) := by
  intro _
  refine ⟨m, hdoc, ?_⟩
  unfold flushColumns
  rw [hb, hcat]
  rfl

def pairMeta : TableMeta := ⟨"t", pairColumns, "t", [], none, none, [], []⟩

/-- The table `t` without rows. -/
def pairStored : Db := { Db.new with
  catalog := CatalogData.empty.addTable pairMeta
  catalogDoc := some (CatalogData.empty.addTable pairMeta)
  ctx := AList.insert "t" ⟨["t"], [⟨"a", "BOOLEAN", true⟩, ⟨"b", "BOOLEAN", true⟩]⟩ ∅ }

def pairBuffer : BufferedInsert :=
  ⟨none, [⟨[⟨"column1", "BOOLEAN", true⟩, ⟨"column2", "BOOLEAN", true⟩], [[.bool true, .bool false]]⟩], 1, 0, 0⟩

/-- The operations of an INSERT under all columns in their order. -/
def pairOps : List Op := (statements pairEnv 1 ["INSERT INTO t VALUES (TRUE, FALSE)"]).ops pairStored

end PotatoDB
