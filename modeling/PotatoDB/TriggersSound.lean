import PotatoDB.CatalogFrames
import PotatoDB.RollbackSound

/-!
# When triggers fire

A plain INSERT and a DELETE are their row change between the BEFORE triggers and the AFTER triggers,
whatever the bodies do. UPDATE fires the first half only, and an upsert, a MERGE and a COPY fire none.
-/

namespace PotatoDB

open Oplog Oplog.Prog
open Machine (apply)

/-! ## Programs around a point -/

section
variable {α β : Type} {s : Db}

theorem bind_congr_at {p q : M α} {f g : α → M β} (h : p s = q s)
    (hf : ∀ a, p.result s = .ok a → f a (p.final s) = g a (p.final s)) : (p >>= f) s = (q >>= g) s := by
  have hr : p.result s = q.result s := congrArg Prod.fst h
  have ho : p.ops s = q.ops s := congrArg Prod.snd h
  have hfinal : p.final s = q.final s := congrArg (after s) ho
  refine Prod.ext ?_ ?_
  · show (p >>= f).result s = (q >>= g).result s
    rw [result_bind, result_bind, ← hr, ← hfinal]
    cases ha : p.result s with
    | error e => rfl
    | ok a => exact congrArg Prod.fst (hf a ha)
  · show (p >>= f).ops s = (q >>= g).ops s
    rw [ops_bind, ops_bind, ← hr, ← hfinal, ← ho]
    cases ha : p.result s with
    | error e => rfl
    | ok a => exact congrArg (p.ops s ++ ·) (congrArg Prod.snd (hf a ha))

end

theorem bind_pure_right {α : Type} (p : M α) : p >>= pure = p := by
  funext s
  show Prog.bind p pure s = p s
  unfold Prog.bind
  rcases p s with ⟨r, os⟩
  cases r with
  | error e => rfl
  | ok a => exact Prod.ext rfl (List.append_nil os)

/-- The bodies run in turn; their failures are ignored. -/
def fire (exec : String → M QueryResult) (bodies : List String) : M Unit :=
  each (fun body => do
    let _ ← attempt (exec body)) bodies

/-- Bodies that leave the triggers as they are. -/
def KeepsTriggers (exec : String → M QueryResult) : Prop := ∀ body, KeepsPart CatalogData.triggers (exec body)

section
variable {s : Db} {exec : String → M QueryResult} {table event timing : String}

theorem triggersOn_congr {c c' : CatalogData} (h : c.triggers = c'.triggers) (table event timing : String) :
    c.triggersOn table event timing = c'.triggersOn table event timing := by
  unfold CatalogData.triggersOn
  rw [h]

theorem runTriggers_at {bodies : List String} (h : s.catalog.triggersOn table event timing = bodies) :
    (runTriggers exec table event timing : M Unit) s = fire exec bodies s := by
  subst h
  rfl

theorem keepsTriggers_fire (h : KeepsTriggers exec) : ∀ bodies, KeepsPart CatalogData.triggers (fire exec bodies)
  | [] => keepsPart_pure _
  | body :: bodies => KeepsPart.bind (KeepsPart.bind (h body).attempt fun _ => keepsPart_pure _)
      fun _ => keepsTriggers_fire h bodies

theorem succeeds_fire : ∀ (bodies : List String) (s : Db), (fire exec bodies).result s = .ok ()
  | [], _ => rfl
  | body :: bodies, s => by
    unfold fire at *
    rw [each, result_bind]
    exact succeeds_fire bodies _

end

/-! ## Row changes around the AFTER triggers -/

/-- The program is a row change, the programs that fire, and an answer; neither of the two others depends on the bodies,
and the row change leaves the triggers as they are. -/
def Around (fires : (String → M QueryResult) → M Unit) (Q : M QueryResult → Prop)
    (p : (String → M QueryResult) → M QueryResult) : Prop :=
  ∃ (α : Type) (row : M α) (answer : α → M QueryResult), KeepsPart CatalogData.triggers row ∧ (∀ a, Q (answer a)) ∧
    ∀ exec, p exec = row >>= fun a => fires exec >>= fun _ => answer a

section
variable {fires : (String → M QueryResult) → M Unit} {Q : M QueryResult → Prop} {β : Type}

theorem Around.here {answer : M QueryResult} (h : Q answer) : Around fires Q fun exec => fires exec >>= fun _ => answer :=
  ⟨Unit, pure (), fun _ => answer, keepsPart_pure _, fun _ => h, fun _ => rfl⟩

theorem Around.throw (e : String) : Around fires Q fun _ => throw e :=
  ⟨Empty, Prog.check (.error e), nofun, keepsPart_readOnly (readOnly_check _), nofun, fun _ => rfl⟩

theorem Around.bind {q : M β} {p : β → (String → M QueryResult) → M QueryResult} (hq : KeepsPart CatalogData.triggers q)
    (hp : ∀ b, Around fires Q (p b)) : Around fires Q fun exec => q >>= fun b => p b exec := by
  choose α row answer hrow hanswer heq using hp
  refine ⟨Σ b, α b, q >>= fun b => row b >>= fun a => pure ⟨b, a⟩, fun x => answer x.1 x.2, ?_, fun x => hanswer x.1 x.2, ?_⟩
  · exact hq.bind fun b => (hrow b).bind fun a => keepsPart_pure _
  · intro exec
    rw [bind_bind]
    refine congrArg (q >>= ·) (funext fun b => ?_)
    rw [bind_bind, heq b exec]
    rfl

theorem Around.readOnly {q : M β} {p : β → (String → M QueryResult) → M QueryResult} (hq : ReadOnly q)
    (hp : ∀ b, Around fires Q (p b)) : Around fires Q fun exec => q >>= fun b => p b exec :=
  .bind (keepsPart_readOnly hq) hp

theorem Around.emit {o : Op} {p : (String → M QueryResult) → M QueryResult} (ho : o.Uncataloged) (hp : Around fires Q p) :
    Around fires Q fun exec => Prog.emit o >>= fun _ => p exec :=
  .bind (keepsPart_emit ho) fun _ => hp

theorem Around.ite {c : Prop} [Decidable c] {p q : (String → M QueryResult) → M QueryResult} (hp : Around fires Q p)
    (hq : Around fires Q q) : Around fires Q fun exec => if c then p exec else q exec := by
  by_cases h : c
  · simpa only [if_pos h] using hp
  · simpa only [if_neg h] using hq

end

/-! ## INSERT -/

section
variable {env : Env} {Q : M QueryResult → Prop}

theorem triggers_withoutFileStats : WithoutFileStats CatalogData.triggers := fun _ _ _ => rfl

theorem keepsTriggers_validate (table : String) (targetColumns : List String) (batches : List RecordBatch)
    (phase : ValidationPhase) : KeepsPart CatalogData.triggers (validateConstraintsBatch env table targetColumns batches phase) :=
  keepsPart_of_minor ((checking_validateConstraintsBatch table _ _ _).mono fun _ h => h.minor)

theorem keepsTriggers_recordCdcEvent (table op : String) (rows : Nat) :
    KeepsPart CatalogData.triggers (recordCdcEvent table op rows) := keepsPart_emit trivial

theorem keepsTriggers_bufferInsertBatches (table : String) (columns : Option (List String)) (batches : List RecordBatch) :
    KeepsPart CatalogData.triggers (bufferInsertBatches env table columns batches) := by
  have hflush := @keepsPart_flushTable env _ CatalogData.triggers triggers_withoutFileStats table
  have hnow : KeepsPart CatalogData.triggers (now env) := keepsPart_of_minor minor_now
  have hkeep : KeepsPart CatalogData.triggers (keepBuffered env table batches) := by
    have hrest : KeepsPart CatalogData.triggers (do
        let t' ← now env
        let shouldFlush := ((← get).writeBuffer.lookup table).any fun b =>
          b.rowCount ≥ env.writeBufferRowThreshold || b.approxBytes ≥ env.writeBufferByteThreshold ||
            t' - b.firstBufferedAt ≥ env.writeBufferTimeThreshold
        if shouldFlush then
          let _ ← flushTable env table
        else pure ()
        return (totalRows batches, shouldFlush) : M (Nat × Bool)) := by
      refine hnow.bind fun t' => (keepsPart_readOnly readOnly_get).bind fun db => ?_
      dsimp only
      split
      · exact hflush.bind fun _ => keepsPart_pure _
      · exact keepsPart_pure _
    unfold keepBuffered
    refine (keepsPart_readOnly readOnly_get).bind fun db => ?_
    dsimp only
    split
    · exact KeepsPart.bind (keepsPart_emit trivial) fun _ => hrest
    · exact hrest
  have happend : KeepsPart CatalogData.triggers (appendBuffered env table columns batches) := by
    refine hnow.bind fun t => (keepsPart_readOnly readOnly_get).bind fun db => ?_
    unfold bufferBehind
    refine KeepsPart.bind (keepsPart_emit trivial) fun _ => KeepsPart.bind ?_ fun targetColumns => ?_
    · unfold targetColumnsOf
      split
      · exact keepsPart_pure _
      · exact keepsPart_of_emits (emits_get.bind fun _ => emits_pure _)
    · refine KeepsPart.bind (keepsTriggers_validate _ _ _ _).attempt fun r => ?_
      cases r with
      | error e => exact KeepsPart.bind (keepsPart_emit trivial) fun _ => keepsPart_throw _
      | ok _ => exact hkeep
  rw [bufferInsertBatches_eq]
  split
  · exact keepsPart_pure _
  · refine (keepsPart_readOnly readOnly_get).bind fun db => ?_
    split
    · split
      · exact hflush.bind fun _ => happend
      · exact happend
    · exact happend

/-- What an INSERT is after its AFTER triggers: it changes nothing, and only a RETURNING list can fail. -/
def Answers (env : Env) (insert : Insert) (p : M QueryResult) : Prop :=
  ReadOnly p ∧
    match insert.returning with
    | none => ∀ t, Succeeds p t
    | some list => ∀ t, Succeeds p t → Succeeds (runQuery env (.returning list insert.table none)) t

theorem around_insertImmediate (sql : String) (insert : Insert) (targetColumns : List String) (batches : List RecordBatch) :
    Around (fun exec => runTriggers exec insert.table "INSERT" "AFTER") (Answers env insert)
      fun exec => handleInsertImmediate env exec sql insert targetColumns batches := by
  have hanswer : Around (fun exec => runTriggers exec insert.table "INSERT" "AFTER")
      (Answers env insert) fun exec => do
        runTriggers exec insert.table "INSERT" "AFTER"
        match insert.returning with
        | none => return .records []
        | some list => return .records (← runQuery env (.returning list insert.table none)).collect := by
    refine Around.here ?_
    unfold Answers
    cases insert.returning with
    | none => exact ⟨readOnly_pure _, fun t => succeeds_pure _⟩
    | some list =>
      refine ⟨(readOnly_runQuery _).bind fun r => readOnly_pure _, fun t ht => ?_⟩
      obtain ⟨r, hr, -⟩ := succeeds_bind.mp ht
      exact ⟨r, hr⟩
  have hrecord : ∀ n, Around (fun exec => runTriggers exec insert.table "INSERT" "AFTER")
      (Answers env insert) fun exec => do
        maybeAutoAnalyze env insert.table n
        refreshTableFileStatsLight insert.table
        recordCdcEvent insert.table "INSERT" n
        runTriggers exec insert.table "INSERT" "AFTER"
        match insert.returning with
        | none => return .records []
        | some list => return .records (← runQuery env (.returning list insert.table none)).collect := fun n =>
    .bind (keepsPart_of_minor (minor_maybeAutoAnalyze _ _)) fun _ =>
      .bind (keepsPart_refreshLight triggers_withoutFileStats _) fun _ =>
        .bind (keepsTriggers_recordCdcEvent _ _ _) fun _ => hanswer
  unfold handleInsertImmediate
  dsimp only
  refine .bind (keepsPart_append _) fun _ => .bind (keepsTriggers_validate _ _ _ _) fun merges => .ite ?_ ?_
  · refine .bind (keepsPart_of_minor (minor_nextTempTableName _)) fun _ => .readOnly (readOnly_check _) fun _ => ?_
    refine .bind (keepsPart_insertInto _ _ _) fun _ => .bind (keepsTriggers_validate _ _ _ _) fun _ => .ite ?_ (hrecord _)
    exact .bind (keepsPart_of_minor (emits_each (fun m => emits_emit trivial) merges)) fun _ => hrecord _
  · refine .bind (keepsTriggers_validate _ _ _ _) fun _ => .ite ?_ (hrecord _)
    exact .bind (keepsPart_of_minor (emits_each (fun m => emits_emit trivial) merges)) fun _ => hrecord _

theorem around_bufferEnd (insert : Insert) (targetColumns : List String) (batches : List RecordBatch)
    (hn : insert.returning = none) :
    Around (fun exec => runTriggers exec insert.table "INSERT" "AFTER")
      (Answers env insert) fun exec => do
        validateNotNullPositional insert.table targetColumns batches
        let columns := if insert.columns.isEmpty then none else some targetColumns
        let (rows, flushed) ← bufferInsertBatches env insert.table columns batches
        recordCdcEvent insert.table "INSERT" rows
        runTriggers exec insert.table "INSERT" "AFTER"
        return .message (if flushed then s!"{rows} row(s) inserted into '{insert.table}' (buffer flushed)."
          else s!"{rows} row(s) buffered for '{insert.table}'.") :=
  .readOnly (readOnly_validateNotNullPositional _ _ _) fun _ =>
    .bind (keepsTriggers_bufferInsertBatches _ _ _) fun r =>
      .bind (keepsTriggers_recordCdcEvent _ _ _) fun _ => .here (by
        unfold Answers
        rw [hn]
        exact ⟨readOnly_pure _, fun t => succeeds_pure _⟩)

theorem around_insertBuffered (sql : String) (insert : Insert) (targetColumns : List String) (batches : List RecordBatch)
    (hn : insert.returning = none) :
    Around (fun exec => runTriggers exec insert.table "INSERT" "AFTER") (Answers env insert)
      fun exec => handleInsertBuffered env exec sql insert targetColumns batches := by
  have hrest := @around_bufferEnd env insert targetColumns batches hn
  unfold handleInsertBuffered
  dsimp only
  refine .ite hrest ?_
  exact .bind (keepsPart_append _) fun _ => hrest

/-- A plain INSERT is its BEFORE triggers and a row change around the AFTER triggers. -/
theorem around_handleInsert (sql : String) (insert : Insert) (hc : insert.onConflict = none) : ∃ rest,
    (∀ exec, handleInsert env exec sql insert = runTriggers exec insert.table "INSERT" "BEFORE" >>= fun _ => rest exec) ∧
    Around (fun exec => runTriggers exec insert.table "INSERT" "AFTER") (Answers env insert)
      rest := by
  refine ⟨fun exec => do
    let m ← tableMeta insert.table
    let targetColumns := if insert.columns.isEmpty then m.columnNames else insert.columns
    match insert.source with
    | none => throw "INSERT requires a source query"
    | some source =>
      let batches := (← runQuery env (.user source)).collect
      if (← get).replayingWal || insert.returning.isSome || m.constraints.any (·.isForeignKey) then
        handleInsertImmediate env exec sql insert targetColumns batches
      else handleInsertBuffered env exec sql insert targetColumns batches, fun exec => ?_, ?_⟩
  · obtain ⟨table, columns, source, returning, onConflict, display⟩ := insert
    cases hc
    rfl
  · refine .readOnly (readOnly_tableMeta _) fun m => ?_
    cases insert.source with
    | none => exact .throw _
    | some source =>
      refine .readOnly (readOnly_runQuery _) fun r => .readOnly readOnly_get fun db => ?_
      by_cases hn : insert.returning = none
      · exact .ite (around_insertImmediate sql insert _ _) (around_insertBuffered sql insert _ _ hn)
      · have hsome : insert.returning.isSome = true := Option.isSome_iff_ne_none.mpr hn
        simp only [hsome, Bool.or_true, Bool.true_or, if_true]
        exact around_insertImmediate sql insert _ _

/-! ## DELETE -/

theorem keepsTriggers_rewriteTable (table : String) (schema : Schema) (batches : List RecordBatch) (flag : Bool) :
    KeepsPart CatalogData.triggers (rewriteTable env table schema batches flag) :=
  keepsPart_rewriteTable triggers_withoutFileStats _ _ _ _

theorem keepsTriggers_runFkAction (table deleteFilter : String) (action : FkAction) :
    KeepsPart CatalogData.triggers (runFkAction env table deleteFilter action) := by
  have hkeys : ReadOnly (deletedKeys env table action.refCol deleteFilter) :=
    readOnly_selectStar.bind fun _ => readOnly_get.bind fun _ => (readOnly_check _).bind fun _ =>
      (readOnly_check _).bind fun _ => readOnly_pure _
  unfold runFkAction
  refine (keepsPart_readOnly hkeys).bind fun keys => ?_
  split
  · exact keepsPart_pure _
  · refine (keepsPart_readOnly readOnly_selectStar).bind fun child => (keepsPart_readOnly (readOnly_check _)).bind fun col => ?_
    split
    · exact keepsPart_pure _
    · split
      · exact keepsTriggers_rewriteTable _ _ _ _
      · split
        · refine KeepsPart.bind (keepsPart_readOnly (readOnly_tableMeta _)) fun m => ?_
          exact (keepsPart_readOnly (readOnly_check _)).bind fun _ => keepsTriggers_rewriteTable _ _ _ _
        · exact keepsPart_throw _

theorem keepsPart_each {τ α : Type} {g : CatalogData → τ} {f : α → M Unit} (h : ∀ x, KeepsPart g (f x)) :
    ∀ xs, KeepsPart g (each f xs)
  | [] => keepsPart_pure _
  | x :: xs => (h x).bind fun _ => keepsPart_each h xs

theorem keepsPart_backupTableForTxn {τ : Type} {g : CatalogData → τ} (table : String) :
    KeepsPart g (backupTableForTxn table) := keepsPart_of_emits (uncataloged_backupTableForTxn table)

/-- Behind the rows it keeps, a DELETE rewrites the table and answers. -/
theorem around_deleteEnd (delete : Delete) (r : Relation) (answer : Option Relation) :
    Around (fun exec => runTriggers exec delete.table "DELETE" "AFTER") (fun p => ReadOnly p ∧ ∀ t, Succeeds p t) fun exec => do
      let surviving ← match delete.selection with
        | none => pure []
        | some condition => do check (filterNotRows env condition (← get).relation r)
      let deleted := r.rows.length - surviving.length
      rewriteTable env delete.table r.schema (⟨r.schema, surviving⟩ : Relation).collect false
      recordCdcEvent delete.table "DELETE" deleted
      runTriggers exec delete.table "DELETE" "AFTER"
      match answer with
      | none => return .message s!"{deleted} row(s) deleted."
      | some rows => return .records rows.collect := by
  have hrewrite : ∀ (schema : Schema) (surviving : List Row) (n : Nat) (answer : QueryResult),
      Around (fun exec => runTriggers exec delete.table "DELETE" "AFTER") (fun p => ReadOnly p ∧ ∀ t, Succeeds p t) fun exec => do
        rewriteTable env delete.table schema (⟨schema, surviving⟩ : Relation).collect false
        recordCdcEvent delete.table "DELETE" n
        runTriggers exec delete.table "DELETE" "AFTER"
        return answer := fun schema surviving n answer =>
    .bind (keepsTriggers_rewriteTable _ _ _ _) fun _ => .bind (keepsTriggers_recordCdcEvent _ _ _) fun _ =>
      .here ⟨readOnly_pure _, fun t => succeeds_pure _⟩
  cases delete.selection with
  | none =>
    refine .readOnly (readOnly_pure _) fun surviving => ?_
    cases answer with
    | none => exact hrewrite _ _ _ _
    | some rows => exact hrewrite _ _ _ _
  | some condition =>
    refine .readOnly readOnly_get fun t => .readOnly (readOnly_check _) fun surviving => ?_
    cases answer with
    | none => exact hrewrite _ _ _ _
    | some rows => exact hrewrite _ _ _ _

/-- A DELETE is its BEFORE triggers and a row change around the AFTER triggers. -/
theorem around_handleDelete (delete : Delete) : ∃ rest,
    (∀ exec, handleDelete env exec delete = runTriggers exec delete.table "DELETE" "BEFORE" >>= fun _ => rest exec) ∧
    Around (fun exec => runTriggers exec delete.table "DELETE" "AFTER") (fun p => ReadOnly p ∧ ∀ t, Succeeds p t) rest := by
  refine ⟨_, fun exec => rfl, ?_⟩
  refine .readOnly (readOnly_tableMeta _) fun m => .bind (keepsPart_append _) fun _ => ?_
  refine .bind (keepsPart_backupTableForTxn _) fun _ => .readOnly readOnly_get fun db => ?_
  refine .bind (keepsPart_each (fun a => keepsTriggers_runFkAction _ _ a) _) fun _ => .readOnly readOnly_selectStar fun r => ?_
  have hkept := @around_deleteEnd env delete r
  cases delete.returning with
  | none => exact .readOnly (readOnly_pure _) fun returned => hkept returned
  | some list =>
    have hquery : ReadOnly (some <$> runQuery env (.returning list delete.table delete.selection) : M (Option Relation)) :=
      (readOnly_runQuery _).bind fun rel => readOnly_pure (some rel)
    exact .readOnly hquery fun returned => hkept returned

end

/-! ## Statements that change rows -/

inductive RowStatement where
  | insert (sql : String) (insert : Insert)
  | update (sql : String) (update : Update)
  | delete (delete : Delete)
  | copyFrom (sql : String) (copy : CopyFrom)
  | merge (merge : Merge)

namespace RowStatement

def run (env : Env) (exec : String → M QueryResult) : RowStatement → M QueryResult
  | .insert sql i => handleInsert env exec sql i
  | .update sql u => handleUpdate env exec sql u
  | .delete d => handleDelete env exec d
  | .copyFrom sql copy => handleCopyFrom env sql copy
  | .merge m => handleMerge env m

def table : RowStatement → String
  | .insert _ i => i.table
  | .update _ u => u.table
  | .delete d => d.table
  | .copyFrom _ copy => copy.table
  | .merge m => m.target

/-- The events of what the statement can do to rows. -/
def events : RowStatement → List String
  | .insert _ i =>
    match i.onConflict with
    | some ⟨_, .doUpdate ..⟩ => ["INSERT", "UPDATE"]
    | _ => ["INSERT"]
  | .update .. => ["UPDATE"]
  | .delete _ => ["DELETE"]
  | .copyFrom .. => ["INSERT"]
  | .merge m => (m.clauses.map fun c =>
    match c.action with
    | .update _ => "UPDATE"
    | .delete => "DELETE"
    | .insert .. => "INSERT").dedup

/-- The bodies of the triggers on the table with a matching event. -/
def matching (stmt : RowStatement) (c : CatalogData) (timing : String) : List String :=
  stmt.events.flatMap fun event => c.triggersOn stmt.table event timing

/-- Whether the path of the statement has a loop over the triggers of the timing. -/
def fires (stmt : RowStatement) (timing : String) : Bool :=
  match stmt with
  | .insert _ i => i.onConflict.isNone
  | .update .. => timing = "BEFORE"
  | .delete _ => true
  | .copyFrom .. | .merge _ => false

/-- The matching triggers that the path of the statement does not fire. -/
def missed (stmt : RowStatement) (c : CatalogData) : List String :=
  (["BEFORE", "AFTER"].filter fun timing => !stmt.fires timing).flatMap (stmt.matching c)

/-- The BEFORE triggers that the path of the statement fires. -/
def firedBefore (stmt : RowStatement) (c : CatalogData) : List String :=
  if stmt.fires "BEFORE" then stmt.matching c "BEFORE" else []

/-- The AFTER triggers that an INSERT fires ahead of its RETURNING list. -/
def answeredLate (stmt : RowStatement) (c : CatalogData) : List String :=
  match stmt with
  | .insert sql i => if i.onConflict.isNone && i.returning.isSome then (RowStatement.insert sql i).matching c "AFTER" else []
  | _ => []

/-- What a text that changes rows is. -/
def of (sql : String) : Statement → Option RowStatement
  | .insert i => some (.insert sql i)
  | .update u => some (.update sql u)
  | .delete d => some (.delete d)
  | .copyFrom copy => some (.copyFrom sql copy)
  | .merge m => some (.merge m)
  | _ => none

end RowStatement

/-- A row change and an answer between BEFORE and AFTER triggers. -/
def surrounded {α : Type} (exec : String → M QueryResult) (before after : List String) (row : M α)
    (answer : α → M QueryResult) : M QueryResult :=
  fire exec before >>= fun _ => row >>= fun a => fire exec after >>= fun _ => answer a

/-- Whatever the bodies do, short of changing the triggers, the statement runs the BEFORE triggers, changes rows, runs the
AFTER triggers and answers. -/
def FiresOnce (env : Env) (stmt : RowStatement) (s : Db) : Prop :=
  ∃ (α : Type) (row : M α) (answer : α → M QueryResult), (∀ a, ReadOnly (answer a)) ∧ ∀ exec, KeepsTriggers exec →
    stmt.run env exec s =
      surrounded exec (stmt.matching s.catalog "BEFORE") (stmt.matching s.catalog "AFTER") row answer s

/-- Bodies that do nothing. -/
def quiet (_ : String) : M QueryResult := pure (.message "")

/-- Where the statement fails, its triggers might as well not have run. -/
def Traceless (env : Env) (stmt : RowStatement) (s : Db) : Prop :=
  ∀ exec, KeepsTriggers exec → ¬ Succeeds (stmt.run env exec) s → stmt.run env exec s = stmt.run env quiet s

/-! ## The three shapes of a statement -/

section
variable {env : Env} {stmt : RowStatement}

/-- The engine runs a statement with itself as what runs the bodies. -/
theorem execute_row {sql : String} (h : RowStatement.of sql (env.parse sql) = some stmt) (fuel : Nat) :
    execute env (fuel + 1) sql = (do
      arrive env sql
      leave env (env.parse sql) (← attempt (stmt.run env (execute env fuel)))) := by
  rw [execute]
  cases hp : env.parse sql <;> rw [hp] at h <;> cases h <;> rfl

theorem matching_single {event : String} (h : stmt.events = [event]) (c : CatalogData) (timing : String) :
    stmt.matching c timing = c.triggersOn stmt.table event timing := by
  unfold RowStatement.matching
  rw [h]
  exact List.append_nil _

theorem firedBefore_of_fires (h : stmt.fires "BEFORE" = true) (c : CatalogData) :
    stmt.firedBefore c = stmt.matching c "BEFORE" := if_pos h

theorem events_insert {sql : String} {insert : Insert} (hc : insert.onConflict = none) :
    (RowStatement.insert sql insert).events = ["INSERT"] := by
  simp only [RowStatement.events, hc]

theorem runTriggers_bind {event timing : String} (h : stmt.events = [event]) (exec : String → M QueryResult)
    (p : M QueryResult) (s : Db) :
    (runTriggers exec stmt.table event timing >>= fun _ => p : M QueryResult) s =
      (fire exec (stmt.matching s.catalog timing) >>= fun _ => p : M QueryResult) s :=
  bind_congr_at (runTriggers_at (matching_single h _ _).symm) fun _ _ => rfl

/-- What a statement is after its AFTER triggers: it changes nothing, and only the RETURNING list of an INSERT can fail. -/
def AnswersLate (env : Env) (stmt : RowStatement) (p : M QueryResult) : Prop :=
  ReadOnly p ∧ (((∀ c, stmt.answeredLate c = []) ∧ ∀ t, Succeeds p t) ∨
    ∃ list, (∀ c, stmt.answeredLate c = stmt.matching c "AFTER") ∧
      ∀ t, Succeeds p t → Succeeds (runQuery env (.returning list stmt.table none)) t)

/-- A path with both loops runs the AFTER triggers around which its row change and its answer stand. -/
theorem run_around (h : stmt.fires "AFTER" = true) : ∃ event rest, stmt.events = [event] ∧
    (∀ exec s, stmt.run env exec s = (fire exec (stmt.firedBefore s.catalog) >>= fun _ => rest exec : M QueryResult) s) ∧
    Around (fun exec => runTriggers exec stmt.table event "AFTER") (AnswersLate env stmt) rest := by
  cases stmt with
  | insert sql insert =>
    have hc : insert.onConflict = none := Option.isNone_iff_eq_none.mp h
    have hevents := @events_insert sql insert hc
    obtain ⟨rest, hrun, α, row, answer, hrow, hanswer, heq⟩ := @around_handleInsert env sql insert hc
    refine ⟨"INSERT", rest, hevents, fun exec s => ?_, α, row, answer, hrow, fun a => ⟨(hanswer a).1, ?_⟩, heq⟩
    · rw [firedBefore_of_fires (show (RowStatement.insert sql insert).fires "BEFORE" = true from h)]
      exact (congrFun (hrun exec) s).trans (runTriggers_bind hevents exec _ s)
    · have hq := (hanswer a).2
      cases hret : insert.returning with
      | none =>
        rw [hret] at hq
        exact .inl ⟨fun c => by simp [RowStatement.answeredLate, hret], hq⟩
      | some list =>
        rw [hret] at hq
        refine .inr ⟨list, fun c => ?_, hq⟩
        simp [RowStatement.answeredLate, hc, hret]
  | delete delete =>
    obtain ⟨rest, hrun, α, row, answer, hrow, hanswer, heq⟩ := @around_handleDelete env delete
    refine ⟨"DELETE", rest, rfl, fun exec s => ?_, α, row, answer, hrow, fun a => ⟨(hanswer a).1, .inl ⟨fun c => rfl, (hanswer a).2⟩⟩, heq⟩
    rw [firedBefore_of_fires rfl]
    exact (congrFun (hrun exec) s).trans (@runTriggers_bind (.delete delete) _ _ rfl exec _ s)
  | update sql update => exact absurd h (by simp [RowStatement.fires])
  | copyFrom sql copy => cases h
  | merge merge => cases h

theorem fires_before_of_after (h : stmt.fires "AFTER" = true) : stmt.fires "BEFORE" = true := by
  cases stmt with
  | insert sql insert => exact h
  | update sql update => rfl
  | delete delete => rfl
  | copyFrom sql copy => exact h
  | merge merge => exact h

/-- A path with both loops is its row change and its answer between the two. -/
theorem run_surrounded (h : stmt.fires "AFTER" = true) (s : Db) : ∃ (α : Type) (row : M α) (answer : α → M QueryResult),
    (∀ a, AnswersLate env stmt (answer a)) ∧ ∀ exec, KeepsTriggers exec → stmt.run env exec s =
      surrounded exec (stmt.matching s.catalog "BEFORE") (stmt.matching s.catalog "AFTER") row answer s := by
  obtain ⟨event, rest, hevents, hrun, α, row, answer, hrow, hanswer, heq⟩ := @run_around env stmt h
  refine ⟨α, row, answer, hanswer, fun exec hexec => ?_⟩
  rw [hrun exec s, firedBefore_of_fires (fires_before_of_after h), heq exec]
  refine bind_congr_at rfl fun _ _ => bind_congr_at rfl fun a _ => bind_congr_at (runTriggers_at ?_) fun _ _ => rfl
  have hsame := (hrow _).trans (keepsTriggers_fire hexec (stmt.matching s.catalog "BEFORE") s)
  exact (triggersOn_congr hsame _ _ _).trans (matching_single hevents _ _).symm

/-- A path without a loop over the AFTER triggers is its BEFORE triggers and a row change. -/
theorem run_before (h : stmt.fires "AFTER" = false) : ∃ rest : M QueryResult, ∀ exec s,
    stmt.run env exec s = (fire exec (stmt.firedBefore s.catalog) >>= fun _ => rest : M QueryResult) s := by
  have hnone : ∀ stmt : RowStatement, stmt.fires "BEFORE" = false → (∀ exec, stmt.run env exec = stmt.run env quiet) →
      ∀ exec s, stmt.run env exec s =
        (fire exec (stmt.firedBefore s.catalog) >>= fun _ => stmt.run env quiet : M QueryResult) s := by
    intro stmt hf heq exec s
    rw [heq exec]
    unfold RowStatement.firedBefore
    rw [hf]
    rfl
  cases stmt with
  | insert sql insert =>
    refine ⟨_, hnone (.insert sql insert) h fun exec => ?_⟩
    cases hc : insert.onConflict with
    | none =>
      have hf : insert.onConflict.isNone = false := h
      rw [hc] at hf
      cases hf
    | some onConflict =>
      simp only [RowStatement.run, handleInsert, hc]
  | update sql update =>
    obtain ⟨rest, hrun⟩ : ∃ rest : M QueryResult, ∀ exec, handleUpdate env exec sql update =
        runTriggers exec update.table "UPDATE" "BEFORE" >>= fun _ => rest := ⟨_, fun exec => rfl⟩
    refine ⟨rest, fun exec s => ?_⟩
    rw [firedBefore_of_fires rfl]
    exact (congrFun (hrun exec) s).trans (@runTriggers_bind (.update sql update) _ _ rfl exec _ s)
  | delete delete => cases h
  | copyFrom sql copy => exact ⟨_, hnone (.copyFrom sql copy) rfl fun exec => rfl⟩
  | merge merge => exact ⟨_, hnone (.merge merge) rfl fun exec => rfl⟩

/-- What the BEFORE triggers are fired by looks the table up next. -/
theorem run_lookup (h : stmt.fires "BEFORE" = true) : ∃ rest : (String → M QueryResult) → TableMeta → M QueryResult, ∀ exec s,
    stmt.run env exec s =
      (fire exec (stmt.firedBefore s.catalog) >>= fun _ => tableMeta stmt.table >>= rest exec : M QueryResult) s := by
  have hlookup : ∀ (stmt : RowStatement) (event : String), stmt.fires "BEFORE" = true → stmt.events = [event] →
      (∃ rest : (String → M QueryResult) → TableMeta → M QueryResult, ∀ exec, stmt.run env exec =
        runTriggers exec stmt.table event "BEFORE" >>= fun _ => tableMeta stmt.table >>= rest exec) →
      ∃ rest : (String → M QueryResult) → TableMeta → M QueryResult, ∀ exec s, stmt.run env exec s =
        (fire exec (stmt.firedBefore s.catalog) >>= fun _ => tableMeta stmt.table >>= rest exec : M QueryResult) s := by
    rintro stmt event hf hevents ⟨rest, hrun⟩
    refine ⟨rest, fun exec s => ?_⟩
    rw [firedBefore_of_fires hf, hrun exec]
    exact runTriggers_bind hevents exec _ s
  cases stmt with
  | insert sql insert =>
    have hc : insert.onConflict = none := Option.isNone_iff_eq_none.mp h
    obtain ⟨table, columns, source, _, returning, _⟩ := insert
    cases hc
    exact hlookup _ _ h rfl ⟨_, fun exec => rfl⟩
  | update sql update => exact hlookup _ _ h rfl ⟨_, fun exec => rfl⟩
  | delete delete => exact hlookup _ _ h rfl ⟨_, fun exec => rfl⟩
  | copyFrom sql copy => cases h
  | merge merge => cases h

end

/-! ## Bodies that only leave a mark -/

/-- Bodies that make an operation that changes nothing. -/
def marked (_ : String) : M QueryResult := do
  emit (.enter .query)
  return .message ""

theorem keepsTriggers_quiet : KeepsTriggers quiet := fun _ => keepsPart_pure _

theorem keepsTriggers_marked : KeepsTriggers marked := fun _ => KeepsPart.bind (keepsPart_emit trivial) fun _ => keepsPart_pure _

theorem fire_quiet : ∀ (bodies : List String) (s : Db), (fire quiet bodies : M Unit) s = (.ok (), [])
  | [], _ => rfl
  | _ :: bodies, s => by
    have ih := fire_quiet bodies s
    show (match (fire quiet bodies : M Unit) s with | (r, ps) => (r, [] ++ ps)) = _
    rw [ih]
    rfl

theorem fire_marked : ∀ (bodies : List String) (s : Db),
    (fire marked bodies : M Unit) s = (.ok (), bodies.map fun _ => Op.enter .query)
  | [], _ => rfl
  | _ :: bodies, s => by
    have ih := fire_marked bodies s
    show (match (fire marked bodies : M Unit) s with | (r, ps) => (r, [Op.enter .query] ++ ps)) = _
    rw [ih]
    rfl

section
variable {α : Type} {s : Db} {bodies before after : List String} {p : M QueryResult}

theorem quiet_bind : (fire quiet bodies >>= fun _ => p : M QueryResult) s = p s :=
  bind_congr_at (q := (pure () : M Unit)) (g := fun _ => p) (fire_quiet bodies s) fun _ _ => by
    have hfinal : (fire quiet bodies).final s = s := congrArg (Oplog.after s) (congrArg Prod.snd (fire_quiet bodies s))
    rw [hfinal]

theorem final_marked : (fire marked bodies).final s = s := by
  have hops : (fire marked bodies).ops s = bodies.map fun _ => Op.enter .query := congrArg Prod.snd (fire_marked bodies s)
  unfold Prog.final
  rw [hops]
  induction bodies with
  | nil => rfl
  | cons _ bodies ih => exact ih (congrArg Prod.snd (fire_marked bodies s))

theorem marked_bind : ((fire marked bodies >>= fun _ => p : M QueryResult).ops s).length = bodies.length + (p.ops s).length := by
  have hresult : (fire marked bodies).result s = .ok () := congrArg Prod.fst (fire_marked bodies s)
  have hops : (fire marked bodies).ops s = bodies.map fun _ => Op.enter .query := congrArg Prod.snd (fire_marked bodies s)
  rw [ops_bind, hresult, final_marked, hops]
  simp

theorem surrounded_quiet (row : M α) (answer : α → M QueryResult) :
    surrounded quiet before after row answer s = (row >>= answer : M QueryResult) s :=
  quiet_bind.trans (bind_congr_at rfl fun _ _ => quiet_bind)

theorem surrounded_marked {row : M α} {answer : α → M QueryResult} (h : Succeeds (row >>= answer) s) :
    ((surrounded marked before after row answer).ops s).length =
      before.length + after.length + ((row >>= answer : M QueryResult).ops s).length := by
  obtain ⟨a, ha, -⟩ := succeeds_bind.mp h
  unfold surrounded
  rw [marked_bind, ops_bind, ops_bind, ha]
  simp only [List.length_append, marked_bind]
  omega

end

/-! ## Once each -/

section
variable {env : Env} {stmt : RowStatement} {s : Db}

theorem missed_eq (c : CatalogData) : stmt.missed c =
    (if stmt.fires "BEFORE" then [] else stmt.matching c "BEFORE") ++
      if stmt.fires "AFTER" then [] else stmt.matching c "AFTER" := by
  unfold RowStatement.missed
  cases hb : stmt.fires "BEFORE" <;> cases ha : stmt.fires "AFTER" <;> simp [hb, ha]

theorem missed_of_fires_after (h : stmt.fires "AFTER" = true) (c : CatalogData) : stmt.missed c = [] := by
  rw [missed_eq, if_pos h, if_pos (fires_before_of_after h)]
  rfl

theorem length_missed (h : stmt.fires "AFTER" = false) (c : CatalogData) :
    (stmt.missed c).length + (stmt.firedBefore c).length = (stmt.matching c "BEFORE").length + (stmt.matching c "AFTER").length := by
  rw [missed_eq, h]
  unfold RowStatement.firedBefore
  split <;> simp [Nat.add_comm]

theorem firesOnce_of_missed (h : stmt.missed s.catalog = []) : FiresOnce env stmt s := by
  by_cases ha : stmt.fires "AFTER" = true
  · obtain ⟨α, row, answer, hanswer, hrun⟩ := @run_surrounded env stmt ha s
    exact ⟨α, row, answer, fun a => (hanswer a).1, hrun⟩
  · have ha : stmt.fires "AFTER" = false := Bool.not_eq_true _ ▸ ha
    obtain ⟨rest, hrun⟩ := @run_before env stmt ha
    rw [missed_eq, ha] at h
    obtain ⟨hb, hafter⟩ := List.append_eq_nil_iff.mp h
    have hbefore : stmt.firedBefore s.catalog = stmt.matching s.catalog "BEFORE" := by
      unfold RowStatement.firedBefore
      by_cases hf : stmt.fires "BEFORE" = true
      · exact if_pos hf
      · rw [if_neg hf] at hb ⊢
        exact hb.symm
    have hafter : stmt.matching s.catalog "AFTER" = [] := hafter
    refine ⟨_, rest, pure, fun a => readOnly_pure a, fun exec hexec => ?_⟩
    rw [hrun exec s, hbefore, hafter]
    refine bind_congr_at rfl fun _ _ => ?_
    exact (congrFun (bind_pure_right rest) _).symm

/-- A statement that succeeds with triggers that do nothing fires each trigger once exactly where its path has the loops that
the matching triggers need. -/
theorem firesOnce_iff (h : Succeeds (stmt.run env quiet) s) : FiresOnce env stmt s ↔ stmt.missed s.catalog = [] := by
  constructor
  · rintro ⟨α, row, answer, hanswer, hrun⟩
    by_cases ha : stmt.fires "AFTER" = true
    · exact missed_of_fires_after ha _
    · have ha : stmt.fires "AFTER" = false := Bool.not_eq_true _ ▸ ha
      obtain ⟨rest, hshape⟩ := @run_before env stmt ha
      have hquiet : stmt.run env quiet s = (row >>= answer : M QueryResult) s :=
        (hrun quiet keepsTriggers_quiet).trans (surrounded_quiet row answer)
      have hrest : rest s = (row >>= answer : M QueryResult) s := by
        rw [← hquiet, hshape quiet s]
        exact quiet_bind.symm
      have hsucceeds : Succeeds (row >>= answer) s := by
        obtain ⟨r, hr⟩ := h
        exact ⟨r, (congrArg Prod.fst hquiet).symm.trans hr⟩
      have hmarks := @surrounded_marked _ _ (stmt.matching s.catalog "BEFORE") (stmt.matching s.catalog "AFTER") _ _ hsucceeds
      have hsame : (surrounded marked (stmt.matching s.catalog "BEFORE") (stmt.matching s.catalog "AFTER") row answer).ops s =
          (fire marked (stmt.firedBefore s.catalog) >>= fun _ => rest).ops s :=
        congrArg Prod.snd ((hrun marked keepsTriggers_marked).symm.trans (hshape marked s))
      have hops : rest.ops s = (row >>= answer).ops s := congrArg Prod.snd hrest
      rw [hsame, marked_bind, hops] at hmarks
      have hmissed := length_missed ha s.catalog
      exact List.eq_nil_of_length_eq_zero (by omega)
  · exact firesOnce_of_missed

end

/-! ## No trace of a failure -/

/-- Operations that change nothing. -/
def marks : Nat → M Unit
  | 0 => pure ()
  | n + 1 => do
    emit (.enter .query)
    marks n

/-- Bodies that drop a table after operations that change nothing. -/
def dropping (table : String) (n : Nat) (_ : String) : M QueryResult := do
  marks n
  modifyCatalog fun c => { c with tables := c.tables.erase table }
  emit (.deregisterTable table)
  return .message ""

section
variable {table : String} {n : Nat} {s : Db}

theorem marks_eq : ∀ (n : Nat) (s : Db), (marks n : M Unit) s = (.ok (), List.replicate n (.enter .query))
  | 0, _ => rfl
  | n + 1, s => by
    have ih := marks_eq n s
    show (match (marks n : M Unit) s with | (r, ps) => (r, [Op.enter .query] ++ ps)) = _
    rw [ih]
    rfl

theorem keepsTriggers_marks : ∀ n, KeepsPart CatalogData.triggers (marks n)
  | 0 => keepsPart_pure _
  | n + 1 => KeepsPart.bind (keepsPart_emit trivial) fun _ => keepsTriggers_marks n

theorem keepsTriggers_dropping (table : String) (n : Nat) : KeepsTriggers (dropping table n) := by
  intro body
  unfold dropping
  refine (keepsTriggers_marks n).bind fun _ => KeepsPart.bind (keepsPart_modifyCatalog ?_) fun _ => ?_
  · intro c
    rfl
  · exact KeepsPart.bind (keepsPart_emit trivial) fun _ => keepsPart_pure _

/-- The table is in neither the catalog nor DataFusion. -/
def Dropped (table : String) (s : Db) : Prop := s.catalog.tables.lookup table = none ∧ s.relation table = none

theorem dropped_dropping (body : String) : Dropped table ((dropping table n body).final s) := by
  have hresult : (marks n).result s = .ok () := congrArg Prod.fst (marks_eq n s)
  unfold dropping
  rw [final_bind, hresult]
  refine ⟨AList.lookup_erase _ ((marks n).final s).catalog.tables, ?_⟩
  exact congrArg (Option.map _) (AList.lookup_erase _ ((marks n).final s).ctx)

theorem length_dropping (body : String) : n ≤ ((dropping table n body).ops s).length := by
  have hresult : (marks n).result s = .ok () := congrArg Prod.fst (marks_eq n s)
  have hops : (marks n).ops s = List.replicate n (.enter .query) := congrArg Prod.snd (marks_eq n s)
  unfold dropping
  rw [ops_bind, hresult, hops]
  simp

theorem final_fire_cons {exec : String → M QueryResult} (body : String) (bodies : List String) :
    (fire exec (body :: bodies)).final s = (fire exec bodies).final ((exec body).final s) := by
  have hbody : (do let _ ← attempt (exec body) : M Unit).final s = (exec body).final s :=
    final_bind_readOnly fun _ => readOnly_pure _
  have hok : (do let _ ← attempt (exec body) : M Unit).result s = .ok () := rfl
  unfold fire
  rw [each, final_bind, hok, hbody]

theorem ops_fire_cons {exec : String → M QueryResult} (body : String) (bodies : List String) :
    (fire exec (body :: bodies)).ops s = (exec body).ops s ++ (fire exec bodies).ops ((exec body).final s) := by
  have hbody : (do let _ ← attempt (exec body) : M Unit).final s = (exec body).final s :=
    final_bind_readOnly fun _ => readOnly_pure _
  have hok : (do let _ ← attempt (exec body) : M Unit).result s = .ok () := rfl
  have hops : (do let _ ← attempt (exec body) : M Unit).ops s = (exec body).ops s := by
    rw [ops_bind]
    exact List.append_nil _
  unfold fire
  rw [each, ops_bind, hok, hbody, hops]

theorem dropped_fire : ∀ (bodies : List String), bodies ≠ [] → ∀ s, Dropped table ((fire (dropping table n) bodies).final s)
  | [], h, _ => absurd rfl h
  | [body], _, s => by
    rw [final_fire_cons]
    exact dropped_dropping body
  | body :: next :: bodies, _, s => by
    rw [final_fire_cons]
    exact dropped_fire (next :: bodies) (List.cons_ne_nil _ _) _

theorem length_fire_dropping {bodies : List String} (h : bodies ≠ []) :
    n ≤ ((fire (dropping table n) bodies).ops s).length := by
  obtain ⟨body, bodies, rfl⟩ := List.exists_cons_of_ne_nil h
  rw [ops_fire_cons, List.length_append]
  exact Nat.le_trans (length_dropping body) (Nat.le_add_right _ _)

end

section
variable {env : Env} {stmt : RowStatement} {s : Db}

/-- The operations of a prefix that succeeds are among the operations of the whole. -/
theorem length_ops_bind {α β : Type} {p : M α} {f : α → M β} : (p.ops s).length ≤ ((p >>= f).ops s).length := by
  rw [ops_bind]
  cases p.result s with
  | error e => exact Nat.le_refl _
  | ok a => simp

theorem firedBefore_of_traceless (h : Traceless env stmt s) : stmt.firedBefore s.catalog = [] := by
  by_contra hne
  have hf : stmt.fires "BEFORE" = true := by
    by_contra hf
    exact hne (if_neg hf)
  obtain ⟨rest, hrun⟩ := @run_lookup env stmt hf
  -- more operations than the statement makes without triggers
  obtain ⟨n, hn⟩ : ∃ n, n = ((stmt.run env quiet).ops s).length + 1 := ⟨_, rfl⟩
  have hfails : ¬ Succeeds (stmt.run env (dropping stmt.table n)) s := by
    rintro ⟨a, ha⟩
    have hgone := (@dropped_fire stmt.table n _ hne s).1
    have hr := congrArg Prod.fst (hrun (dropping stmt.table n) s)
    have hthrows : (tableMeta stmt.table).result ((fire (dropping stmt.table n) (stmt.firedBefore s.catalog)).final s) =
        .error s!"Table '{stmt.table}' does not exist" := by
      unfold tableMeta
      rw [result_bind, result_get, final_get]
      dsimp only
      rw [hgone]
      rfl
    have herror : (fire (dropping stmt.table n) (stmt.firedBefore s.catalog) >>= fun _ =>
        tableMeta stmt.table >>= rest (dropping stmt.table n) : M QueryResult).result s =
        .error s!"Table '{stmt.table}' does not exist" := by
      rw [result_bind, succeeds_fire]
      dsimp only
      rw [result_bind, hthrows]
    have hbad := ha.symm.trans (hr.trans herror)
    cases hbad
  have hsame := h _ (keepsTriggers_dropping stmt.table n) hfails
  have hlong : n ≤ ((stmt.run env (dropping stmt.table n)).ops s).length := by
    have hops : (stmt.run env (dropping stmt.table n)).ops s = _ := congrArg Prod.snd (hrun (dropping stmt.table n) s)
    rw [hops]
    exact Nat.le_trans (length_fire_dropping hne) length_ops_bind
  have hops : (stmt.run env (dropping stmt.table n)).ops s = (stmt.run env quiet).ops s := congrArg Prod.snd hsame
  rw [hops] at hlong
  omega

/-- A statement that fires no BEFORE trigger, and no AFTER trigger ahead of a RETURNING list, fails as it would without. -/
theorem traceless_of (hb : stmt.firedBefore s.catalog = []) (hl : stmt.answeredLate s.catalog = []) : Traceless env stmt s := by
  intro exec hexec hfails
  by_cases ha : stmt.fires "AFTER" = true
  · obtain ⟨α, row, answer, hanswer, hrun⟩ := @run_surrounded env stmt ha s
    rw [firedBefore_of_fires (fires_before_of_after ha)] at hb
    have hexec := hrun exec hexec
    have hquiet := hrun quiet keepsTriggers_quiet
    rw [hb] at hexec hquiet
    rw [hexec, hquiet]
    refine bind_congr_at rfl fun _ _ => bind_congr_at rfl fun a hrow => ?_
    obtain ⟨-, ⟨-, hok⟩ | ⟨list, hlate, -⟩⟩ := hanswer a
    · refine absurd ?_ hfails
      have hsucceeds : Succeeds (surrounded exec [] (stmt.matching s.catalog "AFTER") row answer) s :=
        succeeds_bind.mpr ⟨(), rfl, succeeds_bind.mpr ⟨a, hrow, succeeds_bind.mpr ⟨(), succeeds_fire _ _, hok _⟩⟩⟩
      obtain ⟨r, hr⟩ := hsucceeds
      exact ⟨r, (congrArg Prod.fst hexec).trans hr⟩
    · rw [← hlate, hl]
      rfl
  · obtain ⟨rest, hrun⟩ := @run_before env stmt (Bool.not_eq_true _ ▸ ha)
    rw [hrun exec s, hrun quiet s, hb]
    rfl

/-- An AFTER trigger that drops the table lets a RETURNING list fail that would not. -/
theorem answeredLate_of_traceless
    (hq : ∀ list table rel, rel table = none → ∃ e, env.eval (.returning list table none) rel = .error e)
    (hs : Succeeds (stmt.run env quiet) s) (h : Traceless env stmt s) : stmt.answeredLate s.catalog = [] := by
  have hbefore := firedBefore_of_traceless h
  by_cases ha : stmt.fires "AFTER" = true
  · obtain ⟨α, row, answer, hanswer, hrun⟩ := @run_surrounded env stmt ha s
    rw [firedBefore_of_fires (fires_before_of_after ha)] at hbefore
    rw [hbefore] at hrun
    have hquiet : stmt.run env quiet s = (row >>= answer : M QueryResult) s :=
      (hrun quiet keepsTriggers_quiet).trans (surrounded_quiet row answer)
    have hsucceeds : Succeeds (row >>= answer) s := by
      obtain ⟨r, hr⟩ := hs
      exact ⟨r, (congrArg Prod.fst hquiet).symm.trans hr⟩
    obtain ⟨a, hrow, -⟩ := succeeds_bind.mp hsucceeds
    obtain ⟨-, ⟨hnone, -⟩ | ⟨list, hlate, hneeds⟩⟩ := hanswer a
    · exact hnone _
    · by_contra hne
      rw [hlate] at hne
      obtain ⟨n, hn⟩ : ∃ n, n = ((stmt.run env quiet).ops s).length + 1 := ⟨_, rfl⟩
      have hdrops := hrun _ (keepsTriggers_dropping stmt.table n)
      obtain ⟨t, ht⟩ : ∃ t, t = (fire (dropping stmt.table n) (stmt.matching s.catalog "AFTER")).final (row.final s) := ⟨_, rfl⟩
      have hgone : Dropped stmt.table t := ht ▸ dropped_fire _ hne _
      have hfails : ¬ Succeeds (stmt.run env (dropping stmt.table n)) s := by
        rintro ⟨r, hr⟩
        have hr : Succeeds (surrounded (dropping stmt.table n) [] (stmt.matching s.catalog "AFTER") row answer) s :=
          ⟨r, (congrArg Prod.fst hdrops).symm.trans hr⟩
        obtain ⟨_, _, hr⟩ := succeeds_bind.mp hr
        obtain ⟨b, hb, hr⟩ := succeeds_bind.mp hr
        obtain rfl : a = b := Except.ok.inj (hrow.symm.trans hb)
        obtain ⟨_, _, hr⟩ := succeeds_bind.mp hr
        obtain ⟨r, hr⟩ := hneeds _ (ht ▸ hr)
        obtain ⟨e, he⟩ := hq list stmt.table t.relation hgone.2
        have hquery : (runQuery env (.returning list stmt.table none)).result t = .error e := he
        exact nomatch hr.symm.trans hquery
      have hops : (stmt.run env (dropping stmt.table n)).ops s = (stmt.run env quiet).ops s :=
        congrArg Prod.snd (h _ (keepsTriggers_dropping stmt.table n) hfails)
      have hlong : n ≤ ((stmt.run env (dropping stmt.table n)).ops s).length := by
        have hshape : (stmt.run env (dropping stmt.table n)).ops s = _ := congrArg Prod.snd hdrops
        rw [hshape]
        show n ≤ ((surrounded (dropping stmt.table n) [] (stmt.matching s.catalog "AFTER") row answer).ops s).length
        unfold surrounded
        rw [ops_bind]
        show n ≤ ([] ++ (row >>= fun a => _ : M QueryResult).ops s).length
        rw [ops_bind, hrow]
        have hfire := Nat.le_trans (@length_fire_dropping stmt.table n (row.final s) _ hne)
          (length_ops_bind (f := fun _ => answer a))
        simp only [List.nil_append, List.length_append]
        exact Nat.le_trans hfire (Nat.le_add_left _ _)
      rw [hops] at hlong
      omega
  · unfold RowStatement.answeredLate
    cases stmt with
    | insert sql insert =>
      have hc : insert.onConflict.isNone = false := Bool.not_eq_true _ ▸ ha
      simp [hc]
    | update | delete | copyFrom | merge => rfl

end

/-! ## The triggers of a statement -/

/-- Triggers fire once around a statement that succeeds, and a statement that fails has no trace of them, exactly where its
path has the loops that its triggers need and none of them runs ahead of what can still fail. -/
theorem triggers_exact (env : Env)
    (hq : ∀ list table rel, rel table = none → ∃ e, env.eval (.returning list table none) rel = .error e)
    (stmt : RowStatement) (s : Db) :
    (Succeeds (stmt.run env quiet) s → (FiresOnce env stmt s ↔ stmt.missed s.catalog = []) ∧
      (Traceless env stmt s ↔ stmt.firedBefore s.catalog = [] ∧ stmt.answeredLate s.catalog = [])) ∧
    (Traceless env stmt s → stmt.firedBefore s.catalog = []) ∧
    (stmt.firedBefore s.catalog = [] → stmt.answeredLate s.catalog = [] → Traceless env stmt s) := by
  refine ⟨fun hs => ⟨firesOnce_iff hs, ?_⟩, firedBefore_of_traceless, traceless_of⟩
  exact ⟨fun h => ⟨firedBefore_of_traceless h, answeredLate_of_traceless hq hs h⟩, fun ⟨hb, hl⟩ => traceless_of hb hl⟩

/-! ## Triggers on a table of one row -/

/-- The table `t` with one trigger. -/
def triggerDb (event timing body : String) : Db :=
  { flagDb with catalog := { flagDb.catalog with triggers := AList.insert "g" ⟨"g", "t", event, timing, body⟩ ∅ } }

def flagInsert : RowStatement :=
  .insert "INSERT INTO t VALUES (FALSE)" ⟨"t", [], some "VALUES (FALSE)", none, none, "INSERT INTO t VALUES (FALSE)"⟩

def flagUpdate : RowStatement := .update "UPDATE t SET a = a" ⟨"t", [("a", "a")], none, none⟩

theorem flagEnv_returning : ∀ (list table : String) (rel : String → Option Relation), rel table = none →
    ∃ e, flagEnv.eval (.returning list table none) rel = .error e := fun _ _ _ _ => ⟨_, rfl⟩

/-- An AFTER trigger on INSERT fires. -/
theorem insert_fires_after :
    flagInsert.matching (triggerDb "INSERT" "AFTER" "UPDATE t SET a = a").catalog "AFTER" = ["UPDATE t SET a = a"] ∧
      FiresOnce flagEnv flagInsert (triggerDb "INSERT" "AFTER" "UPDATE t SET a = a") :=
  ⟨by decide +kernel, ((triggers_exact flagEnv flagEnv_returning flagInsert (triggerDb "INSERT" "AFTER" "UPDATE t SET a = a")).1
    (by decide +kernel)).1.mpr (by decide +kernel)⟩

/-- **An UPDATE succeeds and does not fire its AFTER trigger**, and what an INSERT without a source makes its BEFORE trigger
do stays after its failure. -/
theorem update_fires_no_after :
    (let s := triggerDb "UPDATE" "AFTER" "INSERT INTO t VALUES (FALSE)"
     Succeeds (execute flagEnv 2 "UPDATE t SET a = a") s ∧
      flagUpdate.matching s.catalog "AFTER" = ["INSERT INTO t VALUES (FALSE)"] ∧
      ((execute flagEnv 2 "UPDATE t SET a = a").final s).writeBuffer = ∅ ∧ ¬ FiresOnce flagEnv flagUpdate s) ∧
    (let s := triggerDb "INSERT" "BEFORE" "UPDATE t SET a = a"
     let stmt := RowStatement.insert "INSERT INTO t DEFAULT VALUES" ⟨"t", [], none, none, none, "INSERT INTO t DEFAULT VALUES"⟩
     ¬ Succeeds (stmt.run flagEnv (execute flagEnv 1)) s ∧ ((stmt.run flagEnv (execute flagEnv 1)).final s).cdcLog ≠ s.cdcLog ∧
      ¬ Traceless flagEnv stmt s) := by
  refine ⟨⟨by decide +kernel, by decide +kernel, by decide +kernel, fun h => ?_⟩, by decide +kernel, by decide +kernel,
    fun h => ?_⟩
  · have hmissed := (firesOnce_iff (by decide +kernel)).mp h
    revert hmissed
    decide +kernel
  · have hfired := firedBefore_of_traceless h
    revert hfired
    decide +kernel

end PotatoDB
