import PotatoDB.BufferSound
import PotatoDB.Handlers
import PotatoDB.ServerSound

/-!
# What `execute_readonly` changes

The test of the first word lets a text pass whose plan inserts rows, such as
`EXPLAIN ANALYZE INSERT`. Apart from that, the call only flushes the write buffer.
-/

namespace PotatoDB

open Oplog Oplog.Prog
open Machine (apply)

/-- The tables have the rows they had, in files or in the buffer. Of the catalog, only the statistics of files
may differ, and only when there was something to flush. -/
structure Unchanged (env : Env) (s t : Db) : Prop where
  catalog : t.catalog.forgetFiles = s.catalog.forgetFiles
  idle : s.writeBuffer.keys = [] → t.catalog = s.catalog
  rows : Conserved env s t fun _ => 0

/-- The plan of the text, once everything is flushed, inserts a row. -/
def InsertsRow (env : Env) (insertOf : String → (String → Option Relation) → Option PlannedInsert) (s : Db)
    (sql : String) : Prop :=
  ∃ i p row rows, insertOf sql s.relation = some i ∧ s.ctx.lookup i.table = some p ∧
    insertedRows env p.schema i.columns i.batches = .ok (row :: rows)

section
variable {env : Env} {s t : Db}

/-! ## The flush -/

/-- A flush keeps the definitions of the tables and their rows. -/
structure FlushedAway (env : Env) (s t : Db) : Prop where
  catalog : t.catalog.forgetFiles = s.catalog.forgetFiles
  rows : Conserved env s t fun _ => 0

theorem wp_flushTables_away : ∀ (tables : List String) {s : Db}, Counted s →
    wp (FlushesSafely env) (flushTables env tables) s fun _ t => FlushedAway env s t
  | [], _, hs => wp_pure.mpr ⟨rfl, .refl hs⟩
  | table :: tables, s, hs => by
    have hone : wp (FlushesSafely env) (flushTable env table) s fun _ t => FlushedAway env s t := by
      refine wp_mono ?_ (wp_flush_flushed table)
      rintro _ t (rfl | ⟨b, rows, hb, hrows, hf⟩)
      · exact ⟨rfl, .refl hs⟩
      · exact ⟨hf.catalog, hf.conserved hs hb hrows⟩
    rw [flushTables, wp_bind]
    refine wp_mono (fun r t ht => ?_) hone
    cases r with
    | error e => exact ht
    | ok n =>
      dsimp only
      rw [wp_bind]
      refine wp_mono (fun r u hu => ?_) (wp_flushTables_away tables ht.rows.counted)
      have hboth : FlushedAway env s u := ⟨hu.catalog.trans ht.catalog, ht.rows.then_none hu.rows⟩
      cases r with
      | error e => exact hboth
      | ok m => exact wp_pure.mpr hboth

theorem wp_flushAll_away (hs : Counted s) :
    wp (FlushesSafely env) (flushAll env) s fun _ t => FlushedAway env s t := by
  unfold flushAll
  simp only [wp_bind, wp_get]
  exact wp_flushTables_away _ hs

theorem flushAll_idle (h : s.writeBuffer.keys = []) : (flushAll env).ops s = [] ∧ (flushAll env).result s = .ok 0 := by
  unfold flushAll
  rw [ops_bind, result_bind, result_get, final_get]
  dsimp only
  rw [h]
  exact ⟨rfl, rfl⟩

/-! ## The INSERT -/

theorem length_rows_withFile {table : String} {p : Provider} (hp : s.ctx.lookup table = some p) (rows : List Row)
    (time : Nat) : ((s.withFile p.dir (p.schema.map (·.name)) rows time).rows table).length =
      (s.rows table).length + rows.length := by
  unfold Db.rows Db.relation Db.withFile
  dsimp only
  rw [hp, Option.map_some, Option.elim_some, Option.map_some, Option.elim_some, Store.read_append, List.length_append]
  congr 1
  simp [Store.read, Store.list, ParquetFile.read]

/-- An INSERT writes a file when there is a row to write, and nothing else. -/
theorem final_insertInto (env : Env) (s : Db) (table : String) (columns : Option (List String)) (batches : List RecordBatch) :
    (∃ p row rows time, s.ctx.lookup table = some p ∧ insertedRows env p.schema columns batches = .ok (row :: rows) ∧
      (insertInto env table columns batches).final s = s.withFile p.dir (p.schema.map (·.name)) (row :: rows) time) ∨
    ((¬ ∃ p row rows, s.ctx.lookup table = some p ∧ insertedRows env p.schema columns batches = .ok (row :: rows)) ∧
      (insertInto env table columns batches).final s = s) := by
  have hunique : ∀ {p rows}, s.ctx.lookup table = some p → insertedRows env p.schema columns batches = .ok rows →
      rows = [] → ¬ ∃ p row rows, s.ctx.lookup table = some p ∧
        insertedRows env p.schema columns batches = .ok (row :: rows) := by
    rintro p rows hp hr rfl ⟨p', row, rows', hp', hr'⟩
    cases hp.symm.trans hp'
    cases hr.symm.trans hr'
  refine @wp_insertInto env (fun _ _ => True) s table columns batches (fun _ t => (∃ p row rows time, s.ctx.lookup table = some p ∧
      insertedRows env p.schema columns batches = .ok (row :: rows) ∧
      t = s.withFile p.dir (p.schema.map (·.name)) (row :: rows) time) ∨
    ((¬ ∃ p row rows, s.ctx.lookup table = some p ∧
      insertedRows env p.schema columns batches = .ok (row :: rows)) ∧ t = s)) ?_ ?_ along_true
  · intro hn _
    refine .inr ⟨?_, rfl⟩
    rintro ⟨p, row, rows, hp, hr⟩
    exact hn ⟨p, _, hp, hr⟩
  · intro p rows hp hr
    refine ⟨fun hnil => .inr ⟨hunique hp hr hnil, rfl⟩, fun hne => .inl ?_⟩
    cases rows with
    | nil => exact absurd rfl hne
    | cons row rows => exact ⟨p, row, rows, _, hp, hr, rfl⟩

/-! ## The call -/

variable {insertOf : String → (String → Option Relation) → Option PlannedInsert} {sql : String}

/-- What the call does after the flush. -/
def answerPlanned (env : Env) (insertOf : String → (String → Option Relation) → Option PlannedInsert) (sql : String) :
    M QueryResult := do
  match insertOf sql (← get).relation with
  | none => return .records (← runQuery env (.user sql)).collect
  | some i =>
    insertInto env i.table i.columns i.batches
    return .records i.answer

theorem executeReadonlyPlanned_eq (h : isReadOnlySql env sql = true) :
    executeReadonlyPlanned env insertOf sql = (do
      let _ ← flushAll env
      answerPlanned env insertOf sql) := by
  unfold executeReadonlyPlanned
  rw [h]
  rfl

/-- Without an INSERT in the plan, it is the call of the server. -/
theorem executeReadonlyPlanned_none (h : ∀ tables, insertOf sql tables = none) :
    executeReadonlyPlanned env insertOf sql = executeReadonly env sql := by
  unfold executeReadonlyPlanned executeReadonly
  simp only [h]
  rfl

theorem final_rejected (h : isReadOnlySql env sql = false) : (executeReadonlyPlanned env insertOf sql).final s = s := by
  unfold executeReadonlyPlanned
  rw [h]
  rfl

/-- The rest of the call adds a file exactly when the plan inserts a row. -/
theorem final_answerPlanned : (InsertsRow env insertOf s sql → ∃ table p row rows time, s.ctx.lookup table = some p ∧
      (answerPlanned env insertOf sql).final s = s.withFile p.dir (p.schema.map (·.name)) (row :: rows) time) ∧
    (¬ InsertsRow env insertOf s sql → (answerPlanned env insertOf sql).final s = s) := by
  unfold answerPlanned
  rw [final_bind, result_get, final_get]
  dsimp only
  cases hi : insertOf sql s.relation with
  | none =>
    have hfinal : Prog.final (do return QueryResult.records (← runQuery env (.user sql)).collect : M QueryResult) s = s :=
      ((readOnly_runQuery (.user sql)).bind fun _ => readOnly_pure _).final s
    refine ⟨?_, fun _ => hfinal⟩
    rintro ⟨i, p, row, rows, hi', -⟩
    cases hi.symm.trans hi'
  | some i =>
    dsimp only
    rw [final_bind_readOnly fun _ => readOnly_pure _]
    rcases final_insertInto env s i.table i.columns i.batches with
      ⟨p, row, rows, time, hp, hr, hfinal⟩ | ⟨hn, hfinal⟩
    · exact ⟨fun _ => ⟨i.table, p, row, rows, time, hp, hfinal⟩, fun h => absurd ⟨i, p, row, rows, hi, hp, hr⟩ h⟩
    · refine ⟨?_, fun _ => hfinal⟩
      rintro ⟨i', p, row, rows, hi', hp, hr⟩
      cases hi.symm.trans hi'
      exact absurd ⟨p, row, rows, hp, hr⟩ hn

/-- A file of new rows shows. -/
theorem not_conserved_withFile {u : Db} {table : String} {p : Provider} {row : Row} {rows : List Row} {time : Nat}
    (h : FlushedAway env s t) (hp : t.ctx.lookup table = some p)
    (hu : u = t.withFile p.dir (p.schema.map (·.name)) (row :: rows) time) : ¬ Conserved env s u fun _ => 0 := by
  intro hc
  have h₁ := h.rows.card_gain table
  have h₂ := hc.card_gain table
  have hrows := length_rows_withFile hp (row :: rows) time
  have hbuf : u.buffered table = t.buffered table := by
    rw [hu]
    rfl
  rw [← hu] at hrows
  rw [hbuf, hrows, List.length_cons, Multiset.card_zero] at h₂
  rw [Multiset.card_zero] at h₁
  omega

/-- **A read-only call changes nothing, unless its plan inserts a row.** -/
theorem readonly_unchanged_iff (hs : Counted s)
    (hc : Along (FlushesSafely env) s ((executeReadonlyPlanned env insertOf sql).ops s)) :
    Unchanged env s ((executeReadonlyPlanned env insertOf sql).final s) ↔
      isReadOnlySql env sql = false ∨
        ¬ (Succeeds (flushAll env) s ∧ InsertsRow env insertOf ((flushAll env).final s) sql) := by
  cases hread : isReadOnlySql env sql with
  | false =>
    rw [final_rejected hread]
    exact iff_of_true ⟨rfl, fun _ => rfl, .refl hs⟩ (.inl rfl)
  | true =>
    rw [executeReadonlyPlanned_eq hread] at hc ⊢
    set t := (flushAll env).final s with ht
    have haway : FlushedAway env s t := by
      rw [ops_bind] at hc
      refine wp_flushAll_away hs ?_
      split at hc
      · exact (along_append.mp hc).1
      · exact hc
    have hidle : s.writeBuffer.keys = [] → t = s := by
      intro h
      rw [ht, Prog.final, (flushAll_idle h).1]
      rfl
    have hsame : Unchanged env s t := ⟨haway.catalog, fun h => by rw [hidle h], haway.rows⟩
    rw [final_bind]
    cases hr : (flushAll env).result s with
    | error e =>
      refine iff_of_true hsame (.inr fun h => ?_)
      obtain ⟨⟨n, hn⟩, -⟩ := h
      cases hr.symm.trans hn
    | ok n =>
      dsimp only
      rw [← ht]
      by_cases hi : InsertsRow env insertOf t sql
      · obtain ⟨table, p, row, rows, time, hp, hfinal⟩ := final_answerPlanned.1 hi
        refine iff_of_false (fun h => ?_) ?_
        · exact not_conserved_withFile haway hp hfinal h.rows
        · rintro (h | h)
          · cases h
          · exact h ⟨⟨n, hr⟩, hi⟩
      · rw [final_answerPlanned.2 hi]
        exact iff_of_true hsame (.inr fun h => hi h.2)

end

/-! ## A plan that inserts -/

/-- `EXPLAIN ANALYZE` runs the plan of the INSERT. -/
def explainInsert (sql : String) (_ : String → Option Relation) : Option PlannedInsert :=
  if sql = "EXPLAIN ANALYZE INSERT INTO t VALUES (FALSE)" then some ⟨"t", none, [falseBatch], []⟩ else none

theorem flagDb_counted : Counted flagDb := by
  intro table b hb
  cases hb

theorem readonly_unchanged_query : Unchanged flagEnv flagDb
    ((executeReadonlyPlanned flagEnv explainInsert "SELECT a FROM t").final flagDb) ↔
      isReadOnlySql flagEnv "SELECT a FROM t" = false ∨
        ¬ (Succeeds (flushAll flagEnv) flagDb ∧
          InsertsRow flagEnv explainInsert ((flushAll flagEnv).final flagDb) "SELECT a FROM t") := by
  have hno : ∀ o ∈ (executeReadonlyPlanned flagEnv explainInsert "SELECT a FROM t").ops flagDb, o.takesRows = false := by
    decide +kernel
  refine readonly_unchanged_iff flagDb_counted ?_
  generalize (executeReadonlyPlanned flagEnv explainInsert "SELECT a FROM t").ops flagDb = os at hno ⊢
  exact along_of_no_flush hno

/-- The text passes as read-only and leaves a second row in `t`. -/
theorem readonly_explain_inserts :
    ¬ Unchanged flagEnv flagDb
      ((executeReadonlyPlanned flagEnv explainInsert "EXPLAIN ANALYZE INSERT INTO t VALUES (FALSE)").final flagDb) ∧
    Succeeds (executeReadonlyPlanned flagEnv explainInsert "EXPLAIN ANALYZE INSERT INTO t VALUES (FALSE)") flagDb := by
  refine ⟨fun h => ?_, _, rfl⟩
  have hcard := h.rows.card_gain "t"
  rw [Multiset.card_zero, Nat.add_zero] at hcard
  revert hcard
  decide +kernel

end PotatoDB
