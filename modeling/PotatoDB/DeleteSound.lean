import PotatoDB.FlushSound
import PotatoDB.RollbackSound
import PotatoDB.Dml

/-!
# What DELETE removes

DELETE keeps the rows on which the negation of its condition is true, and a cascade keeps the
child rows on which `NOT (fk IN (..))` is. Both also drop the rows on which the condition is NULL.
-/

namespace PotatoDB

open Oplog Oplog.Prog
open Machine (apply)

/-! ## Rows by truth value -/

/-- The rows on which the condition has the truth value. -/
def rowsWith (v : Option Bool) (rows : List Row) (values : List (Option Bool)) : List Row :=
  ((rows.zip values).filter fun p => p.2 = v).map (·.1)

theorem rowsWith_cons (v w : Option Bool) (row : Row) (rows : List Row) (values : List (Option Bool)) :
    rowsWith v (row :: rows) (w :: values) = if w = v then row :: rowsWith v rows values else rowsWith v rows values := by
  unfold rowsWith
  rw [List.zip_cons_cons]
  by_cases h : w = v
  · rw [if_pos h, List.filter_cons_of_pos (by simp [h]), List.map_cons]
  · rw [if_neg h, List.filter_cons_of_neg (by simp [h])]

theorem length_rowsWith : ∀ {rows : List Row} {values : List (Option Bool)}, rows.length = values.length →
    rows.length = (rowsWith (some true) rows values).length + (rowsWith (some false) rows values).length +
      (rowsWith none rows values).length
  | [], [], _ => rfl
  | row :: rows, v :: values, h => by
    have ih := length_rowsWith (Nat.succ.inj h)
    match v with
    | some true | some false | none =>
      simp only [rowsWith_cons, reduceCtorEq, Option.some.injEq, Bool.true_eq_false, Bool.false_eq_true, if_true, if_false,
        List.length_cons]
      omega

theorem mem_of_rowsWith {v : Option Bool} {rows : List Row} {values : List (Option Bool)} {row : Row}
    (h : row ∈ rowsWith v rows values) : row ∈ rows := by
  obtain ⟨p, hp, rfl⟩ := List.mem_map.mp h
  exact (List.of_mem_zip (List.mem_filter.mp hp).1).1

/-- The truth value of a WHERE clause on a row; without a clause every row is taken. -/
def Env.truth (env : Env) (selection : Option String) (tables : String → Option Relation) (schema : Schema) (row : Row) :
    Except String (Option Bool) :=
  match selection with
  | none => .ok (some true)
  | some condition => env.holds condition tables schema row

/-- A SELECT with a WHERE clause answers from the rows on which the clause is true. -/
def Env.SelectsTrue (env : Env) (project : String → Schema → List Row → List Row) : Prop :=
  ∀ list table selection tables rel answer values, tables table = some rel →
    env.eval (.returning list table selection) tables = .ok answer →
    rel.rows.mapM (env.truth selection tables rel.schema) = .ok values →
    answer.rows = project list rel.schema (rowsWith (some true) rel.rows values)

def QueryResult.rows : QueryResult → List Row
  | message _ => []
  | records batches => allRows batches

theorem toString_nat_inj {a b : Nat} (h : toString a = toString b) : a = b := by
  have hd : Nat.toDigits 10 a = Nat.toDigits 10 b := String.ofList_injective h
  rw [← Nat.ofDigitChars_toDigits (b := 10) (n := a) (by decide) (by decide), hd]
  exact Nat.ofDigitChars_toDigits (by decide) (by decide)

/-! ## Tables at rest -/

/-- The table is registered under its name with the columns of the catalog, and its rows need no cast. -/
structure Stored (env : Env) (s : Db) (table : String) (m : TableMeta) (schema : Schema) : Prop where
  catalog : s.catalog.tables.lookup table = some m
  columns : columnsToSchema env m.columns = .ok schema
  ctx : s.ctx.lookup table = some ⟨objPath m.path, schema⟩
  typed : ∀ row ∈ s.rows table, castRow env schema schema.names row = .ok row

instance decidableStored (env : Env) (s : Db) (table : String) (m : TableMeta) (schema : Schema) :
    Decidable (Stored env s table m schema) :=
  decidable_of_iff (s.catalog.tables.lookup table = some m ∧ columnsToSchema env m.columns = .ok schema ∧
      s.ctx.lookup table = some ⟨objPath m.path, schema⟩ ∧
      ∀ row ∈ s.rows table, castRow env schema schema.names row = .ok row)
    ⟨fun h => ⟨h.1, h.2.1, h.2.2.1, h.2.2.2⟩, fun h => ⟨h.catalog, h.columns, h.ctx, h.typed⟩⟩

theorem Stored.relation {env : Env} {s : Db} {table : String} {m : TableMeta} {schema : Schema}
    (h : Stored env s table m schema) : s.relation table = some ⟨schema, s.rows table⟩ := relation_of_lookup h.ctx

/-- The rows of the table in files that are not in the directory of its name. -/
def Db.stray (s : Db) (table : String) (m : TableMeta) (schema : Schema) : List Row :=
  Store.read (s.store.removeDir (objPath table)) (objPath m.path) schema.names

/-- A rewritten table holds the cast rows of the batches beside those that stood elsewhere. -/
theorem Rewritten.rows_cast {env : Env} {s t : Db} {table : String} {m : TableMeta} {schema : Schema}
    {batches : List RecordBatch} (h : Rewritten env s table m schema batches t) :
    ∃ rows, (allRows batches).mapM (castRow env schema schema.names) = .ok rows ∧
      t.rows table = s.stray table m schema ++ rows := by
  obtain ⟨rows, hcast, hrel⟩ := h.relation_cast
  refine ⟨rows, hcast, ?_⟩
  unfold Db.rows
  rw [hrel]
  rfl

theorem Rewritten.rows_stray {env : Env} {s t : Db} {table : String} {m : TableMeta} {schema : Schema}
    {batches : List RecordBatch} (h : Rewritten env s table m schema batches t)
    (ht : ∀ row ∈ allRows batches, castRow env schema schema.names row = .ok row) :
    t.rows table = s.stray table m schema ++ allRows batches := by
  obtain ⟨rows, hcast, hrows⟩ := h.rows_cast
  rwa [mapM_self ht hcast] at hrows

/-! ## Deleting -/

/-- What a DELETE and its cascades read. -/
def Db.held (s : Db) : Store × Map Provider × CatalogData := (s.store, s.ctx, s.catalog)

theorem relation_of_held {s t : Db} (h : t.held = s.held) : t.relation = s.relation :=
  relation_of_tables (Prod.mk.inj (Prod.mk.inj h).2).1 (Prod.mk.inj h).1

theorem catalog_of_held {s t : Db} (h : t.held = s.held) : t.catalog = s.catalog :=
  (Prod.mk.inj (Prod.mk.inj h).2).2

theorem rows_of_held {s t : Db} (h : t.held = s.held) : t.rows = s.rows :=
  rows_of_tables (Prod.mk.inj (Prod.mk.inj h).2).1 (Prod.mk.inj h).1

theorem Stored.of_held {env : Env} {s t : Db} {table : String} {m : TableMeta} {schema : Schema}
    (hs : Stored env s table m schema) (h : t.held = s.held) : Stored env t table m schema := by
  constructor
  · rw [catalog_of_held h]
    exact hs.catalog
  · exact hs.columns
  · rw [show t.ctx = s.ctx from (Prod.mk.inj (Prod.mk.inj h).2).1]
    exact hs.ctx
  · rw [rows_of_held h]
    exact hs.typed

section
variable {env : Env} {s : Db} {table : String}

theorem yields_walAppendPending {sql : String} {R : Unit → Db → Prop} (h : ∀ t, t.held = s.held → R () t) :
    Yields (walAppendPending env sql) s R := by
  unfold walAppendPending
  simp only [yields_bind, yields_get]
  split
  · exact yields_pure.mpr (h s rfl)
  · exact yields_emit.mpr (h _ rfl)

theorem yields_backupTableForTxn {R : Unit → Db → Prop} (h : ∀ t, t.held = s.held → R () t) :
    Yields (backupTableForTxn table) s R := by
  unfold backupTableForTxn
  simp only [yields_bind, yields_get]
  cases s.activeTxn with
  | none => exact yields_pure.mpr (h s rfl)
  | some txn =>
    dsimp only
    split
    · exact yields_pure.mpr (h s rfl)
    · rw [yields_bind]
      refine yields_selectStar fun r _ => ?_
      exact yields_emit.mpr (h _ rfl)

theorem yields_runTriggers_nil {exec : String → M QueryResult} {event timing : String} {R : Unit → Db → Prop}
    (hn : s.catalog.triggersOn table event timing = []) (h : R () s) : Yields (runTriggers exec table event timing) s R := by
  unfold runTriggers
  simp only [yields_bind, yields_get, hn]
  exact yields_pure.mpr h

theorem filterNotRows_eq {condition : String} {tables : String → Option Relation} {r : Relation} {kept : List Row}
    {values : List (Option Bool)} (hv : r.rows.mapM (env.truth (some condition) tables r.schema) = .ok values)
    (h : filterNotRows env condition tables r = .ok kept) : kept = rowsWith (some false) r.rows values := by
  unfold filterNotRows at h
  rw [show r.rows.mapM (env.holds condition tables r.schema) = .ok values from hv] at h
  exact (Except.ok.inj h).symm

theorem filterRows_eq {condition : String} {tables : String → Option Relation} {r : Relation} {kept : List Row}
    {values : List (Option Bool)} (hv : r.rows.mapM (env.truth (some condition) tables r.schema) = .ok values)
    (h : filterRows env condition tables r = .ok kept) : kept = rowsWith (some true) r.rows values := by
  unfold filterRows at h
  rw [show r.rows.mapM (env.holds condition tables r.schema) = .ok values from hv] at h
  exact (Except.ok.inj h).symm

/-- Without a condition every row is TRUE. -/
theorem rowsWith_unconditional {tables : String → Option Relation} {schema : Schema} {rows : List Row}
    {values : List (Option Bool)} (hv : rows.mapM (env.truth none tables schema) = .ok values) (v : Option Bool)
    (hne : v ≠ some true) : rowsWith v rows values = [] := by
  have hm := mapM_ok_iff.mp hv
  have hall : ∀ w ∈ values, w = some true := by
    intro w hw
    have : Except.ok w ∈ rows.map (env.truth none tables schema) := hm ▸ List.mem_map_of_mem hw
    obtain ⟨row, -, he⟩ := List.mem_map.mp this
    exact (Except.ok.inj he).symm
  unfold rowsWith
  rw [List.map_eq_nil_iff, List.filter_eq_nil_iff]
  intro p hp
  rw [hall p.2 (List.of_mem_zip hp).2]
  simpa using fun h => hne h.symm

/-- The rewrite of the table, before the answer. -/
theorem yields_rewriteDeleted {exec : String → M QueryResult} {m : TableMeta} {schema : Schema} {kept : List Row}
    {n : Nat} {p : M QueryResult} {R : QueryResult → Db → Prop} (hs : Stored env s table m schema)
    (hkept : ∀ row ∈ kept, row ∈ s.rows table) (htr : ∀ timing, s.catalog.triggersOn table "DELETE" timing = [])
    (h : ∀ t, t.rows table = s.stray table m schema ++ kept → Yields p t R) :
    Yields (do
        rewriteTable env table schema (⟨schema, kept⟩ : Relation).collect false
        recordCdcEvent table "DELETE" n
        runTriggers exec table "DELETE" "AFTER"
        p : M QueryResult) s R := by
  rw [yields_bind]
  refine yields_rewriteTable fun m' schema' t hm hschema hw => ?_
  obtain rfl : m = m' := Option.some.inj (hs.catalog.symm.trans hm)
  obtain rfl : schema = schema' := Except.ok.inj (hs.columns.symm.trans hschema)
  have hrows := hw.rows_stray fun row hrow => hs.typed row (hkept row (by rwa [allRows_collect] at hrow))
  rw [allRows_collect] at hrows
  have htrig : t.catalog.triggersOn table "DELETE" "AFTER" = [] := by
    obtain ⟨stats, hcat⟩ := hw.catalog
    rw [hcat]
    exact htr "AFTER"
  rw [yields_bind]
  unfold recordCdcEvent
  rw [yields_emit, yields_bind]
  exact yields_runTriggers_nil htrig (h _ hrows)

/-- The rows a RETURNING clause asks for. -/
theorem yields_returned {selection : Option String} {schema : Schema} {rows : List Row} {values : List (Option Bool)}
    {project : String → Schema → List Row → List Row} {list : String} (hr : s.relation table = some ⟨schema, rows⟩)
    (hv : rows.mapM (env.truth selection s.relation schema) = .ok values) (hsel : env.SelectsTrue project) :
    Yields (some <$> runQuery env (.returning list table selection) : M (Option Relation)) s fun returned t =>
      t = s ∧ ∃ rel, returned = some rel ∧ rel.rows = project list schema (rowsWith (some true) rows values) := by
  show Yields (runQuery env (.returning list table selection) >>= fun rel => pure (some rel) : M (Option Relation)) s _
  rw [yields_bind]
  unfold runQuery
  rw [yields_bind, yields_get, yields_check]
  intro rel hrel
  exact yields_pure.mpr ⟨rfl, rel, rfl, hsel _ _ _ _ _ _ _ hr hrel hv⟩

/-- What a successful DELETE leaves and answers: the FALSE rows, the number of the others, and the projection of the
TRUE rows. -/
theorem yields_handleDelete {exec : String → M QueryResult} {delete : Delete} {m : TableMeta} {schema : Schema}
    {values : List (Option Bool)} {project : String → Schema → List Row → List Row}
    (hs : Stored env s delete.table m schema)
    (hv : (s.rows delete.table).mapM (env.truth delete.selection s.relation schema) = .ok values)
    (hfk : s.catalog.fkActions delete.table = [])
    (htr : ∀ timing, s.catalog.triggersOn delete.table "DELETE" timing = []) (hsel : env.SelectsTrue project) :
    Yields (handleDelete env exec delete) s fun answer t =>
      t.rows delete.table = s.stray delete.table m schema ++ rowsWith (some false) (s.rows delete.table) values ∧
      match delete.returning with
      | none => answer = .message s!"{(s.rows delete.table).length -
          (rowsWith (some false) (s.rows delete.table) values).length} row(s) deleted."
      | some list => answer.rows = project list schema (rowsWith (some true) (s.rows delete.table) values) := by
  unfold handleDelete
  dsimp only
  rw [yields_bind]
  refine yields_runTriggers_nil (htr _) ?_
  rw [yields_bind]
  refine yields_tableMeta fun _ _ => ?_
  rw [yields_bind]
  refine yields_walAppendPending fun t ht => ?_
  rw [yields_bind]
  refine yields_backupTableForTxn fun u hu => ?_
  have hheld : u.held = s.held := hu.trans ht
  have hrel := relation_of_held hheld
  rw [yields_bind, yields_get, yields_bind, catalog_of_held hheld, hfk]
  refine yields_pure.mpr ?_
  rw [yields_bind]
  refine yields_selectStar fun r hr => ?_
  rw [hrel, hs.relation] at hr
  obtain rfl := Option.some.inj hr
  have hsu : Stored env u delete.table m schema := hs.of_held hheld
  have hfalse : ∀ row ∈ rowsWith (some false) (s.rows delete.table) values, row ∈ u.rows delete.table := by
    intro row hrow
    rw [rows_of_held hheld]
    exact mem_of_rowsWith hrow
  have htru : ∀ timing, u.catalog.triggersOn delete.table "DELETE" timing = [] := by
    rw [catalog_of_held hheld]
    exact htr
  have hstray : u.stray delete.table m schema = s.stray delete.table m schema := by
    unfold Db.stray
    rw [show u.store = s.store from (Prod.mk.inj hheld).1]
  rw [← hstray]
  -- the clauses are taken apart one by one: each combination is the same rewrite
  cases hret : delete.returning with
  | none =>
    dsimp only
    rw [yields_bind, yields_pure]
    cases hc : delete.selection with
    | none =>
      rw [hc] at hv
      rw [rowsWith_unconditional hv (some false) (by simp)]
      dsimp only
      rw [yields_bind, yields_pure]
      exact yields_rewriteDeleted hsu (by simp) htru fun t ht => yields_pure.mpr ⟨ht, rfl⟩
    | some condition =>
      rw [hc] at hv
      dsimp only
      rw [yields_bind, yields_get, yields_bind, yields_check, hrel]
      intro kept hkept
      obtain rfl := filterNotRows_eq hv hkept
      exact yields_rewriteDeleted hsu hfalse htru fun t ht => yields_pure.mpr ⟨ht, rfl⟩
  | some list =>
    dsimp only
    rw [yields_bind]
    refine (yields_returned (hrel ▸ hs.relation) (hrel ▸ hv) hsel).mono ?_
    rintro returned w ⟨rfl, rel, rfl, hrows⟩
    have hanswer : (QueryResult.records rel.collect).rows = project list schema (rowsWith (some true) (s.rows delete.table) values) :=
      (allRows_collect rel).trans hrows
    cases hc : delete.selection with
    | none =>
      rw [hc] at hv
      rw [rowsWith_unconditional hv (some false) (by simp)]
      dsimp only
      rw [yields_bind, yields_pure]
      exact yields_rewriteDeleted hsu (by simp) htru fun t ht => yields_pure.mpr ⟨ht, hanswer⟩
    | some condition =>
      rw [hc] at hv
      dsimp only
      rw [yields_bind, yields_get, yields_bind, yields_check, hrel]
      intro kept hkept
      obtain rfl := filterNotRows_eq hv hkept
      exact yields_rewriteDeleted hsu hfalse htru fun t ht => yields_pure.mpr ⟨ht, hanswer⟩

end

/-- The table holds the rows that were not TRUE, and the answer is the number of the TRUE rows or what RETURNING makes of
them. -/
structure RemovesTrue (project : String → Schema → List Row → List Row) (s t : Db) (delete : Delete) (schema : Schema)
    (values : List (Option Bool)) (answer : QueryResult) : Prop where
  rows : (t.rows delete.table).Perm
    (rowsWith (some false) (s.rows delete.table) values ++ rowsWith none (s.rows delete.table) values)
  answer : match delete.returning with
    | none => answer = .message s!"{(rowsWith (some true) (s.rows delete.table) values).length} row(s) deleted."
    | some list => answer.rows = project list schema (rowsWith (some true) (s.rows delete.table) values)

/-- A DELETE removes the TRUE rows if and only if the rows that stay behind in other files are the NULL rows, and there
are none of either when it answers with a number. -/
theorem removesTrue_handleDelete {env : Env} {exec : String → M QueryResult} {s : Db} {delete : Delete} {m : TableMeta}
    {schema : Schema} {values : List (Option Bool)} {project : String → Schema → List Row → List Row} {answer : QueryResult}
    (hs : Stored env s delete.table m schema)
    (hv : (s.rows delete.table).mapM (env.truth delete.selection s.relation schema) = .ok values)
    (hfk : s.catalog.fkActions delete.table = [])
    (htr : ∀ timing, s.catalog.triggersOn delete.table "DELETE" timing = []) (hsel : env.SelectsTrue project)
    (hok : (handleDelete env exec delete).result s = .ok answer) :
    RemovesTrue project s ((handleDelete env exec delete).final s) delete schema values answer ↔
      (s.stray delete.table m schema).Perm (rowsWith none (s.rows delete.table) values) ∧
      (delete.returning = none → rowsWith none (s.rows delete.table) values = []) := by
  obtain ⟨hrows, hanswer⟩ := yields_handleDelete hs hv hfk htr hsel answer hok
  have hlen : (s.rows delete.table).length = values.length := by
    have := congrArg List.length (mapM_ok_iff.mp hv)
    simpa using this
  have hsum := length_rowsWith hlen
  have hperm : ((handleDelete env exec delete).final s |>.rows delete.table).Perm
      (rowsWith (some false) (s.rows delete.table) values ++ rowsWith none (s.rows delete.table) values) ↔
      (s.stray delete.table m schema).Perm (rowsWith none (s.rows delete.table) values) := by
    rw [hrows]
    refine (List.Perm.congr_left List.perm_append_comm _).trans ?_
    exact List.perm_append_left_iff _
  cases hret : delete.returning with
  | none =>
    rw [hret] at hanswer
    constructor
    · intro h
      refine ⟨hperm.mp h.rows, fun _ => ?_⟩
      have h' := h.answer
      rw [hret, hanswer] at h'
      have hnum := toString_nat_inj ((String.append_left_inj _).mp (QueryResult.message.inj h'))
      rw [← List.length_eq_zero_iff]
      omega
    · rintro ⟨hp, hn⟩
      refine ⟨hperm.mpr hp, ?_⟩
      rw [hn rfl, List.length_nil] at hsum
      rw [hret, hanswer, hsum]
      dsimp only
      rw [show ∀ a b : Nat, a + b + 0 - b = a by omega]
  | some list =>
    rw [hret] at hanswer
    constructor
    · intro h
      exact ⟨hperm.mp h.rows, nofun⟩
    · rintro ⟨hp, -⟩
      refine ⟨hperm.mpr hp, ?_⟩
      rw [hret]
      exact hanswer

/-! ## Cascading -/

def columnValue (schema : Schema) (column : String) (row : Row) : Value := namedValue schema.names row column

/-- The keys of the rows that a DELETE removes. -/
def removedKeys (schema : Schema) (refCol : String) (removed : List Row) : List Value :=
  (removed.map (columnValue schema refCol)).filter fun v => !v.isNull

/-- `NOT (fk IN (..))` is true on a row with a value that is not in the list. -/
theorem kept_by_key (schema : Schema) (column : String) (keys : List Value) (rows : List Row) :
    ((rows.zip (rows.map fun row => [columnValue schema column row])).filter fun p =>
      p.2.all fun v => !v.isNull && !keys.contains v).map (·.1) =
    rows.filter fun row => !(columnValue schema column row).isNull && decide (columnValue schema column row ∉ keys) := by
  induction rows with
  | nil => rfl
  | cons row rows ih =>
    by_cases hn : (columnValue schema column row).isNull = true
    · simpa [hn] using ih
    · by_cases hk : columnValue schema column row ∈ keys
      · simpa [hn, hk] using ih
      · simpa [hn, hk] using ih

theorem project_singleton {r : Relation} {column : String} {rows : List Row} (h : r.project [column] = .ok rows) :
    rows = r.rows.map fun row => [columnValue r.schema column row] := by
  unfold Relation.project at h
  split at h
  · cases h
  · split at h
    · exact (Except.ok.inj h).symm
    · cases h

section
variable {env : Env} {s : Db} {table deleteFilter : String} {schema : Schema} {m : TableMeta} {values : List (Option Bool)}

theorem yields_deletedKeys {refCol : String} (hs : Stored env s table m schema)
    (hv : (s.rows table).mapM (env.truth (some deleteFilter) s.relation schema) = .ok values) :
    Yields (deletedKeys env table refCol deleteFilter) s fun keys t => t = s ∧
      keys = (removedKeys schema refCol (rowsWith (some true) (s.rows table) values)).dedup := by
  unfold deletedKeys
  rw [yields_bind]
  refine yields_selectStar fun r hr => ?_
  obtain rfl := Option.some.inj (hs.relation.symm.trans hr)
  rw [yields_bind, yields_get, yields_bind, yields_check]
  intro rows hrows
  obtain rfl := filterRows_eq hv hrows
  rw [yields_bind, yields_check]
  intro keys hkeys
  obtain rfl := project_singleton hkeys
  refine yields_pure.mpr ⟨rfl, ?_⟩
  unfold removedKeys
  rw [← List.flatMap_def, ← List.map_eq_flatMap]

/-- What a cascade leaves: nothing changed when no child row refers to a removed key, else the rows with another key. -/
theorem yields_cascade {action : FkAction} {childMeta : TableMeta} {childSchema : Schema} (hs : Stored env s table m schema)
    (hc : Stored env s action.childTable childMeta childSchema)
    (hv : (s.rows table).mapM (env.truth (some deleteFilter) s.relation schema) = .ok values)
    (hcascade : env.toUppercase action.onDelete = "CASCADE") :
    Yields (runFkAction env table deleteFilter action) s fun _ t =>
      let removed := removedKeys schema action.refCol (rowsWith (some true) (s.rows table) values)
      let key := columnValue childSchema action.fkCol
      ((∃ row ∈ s.rows action.childTable, key row ∈ removed) →
        t.rows action.childTable = s.stray action.childTable childMeta childSchema ++
          (s.rows action.childTable).filter fun row => !(key row).isNull && decide (key row ∉ removed)) ∧
      ((¬ ∃ row ∈ s.rows action.childTable, key row ∈ removed) →
        t.rows action.childTable = s.rows action.childTable) := by
  unfold runFkAction
  rw [yields_bind]
  refine (yields_deletedKeys hs hv).mono ?_
  rintro keys t ⟨rfl, hkeys⟩
  have hmem : ∀ v, v ∈ keys ↔ v ∈ removedKeys schema action.refCol (rowsWith (some true) (t.rows table) values) := by
    intro v
    rw [hkeys, List.mem_dedup]
  dsimp only
  simp only [← hmem]
  by_cases hempty : keys.isEmpty = true
  · rw [if_pos hempty]
    refine yields_pure.mpr ⟨?_, fun _ => rfl⟩
    rintro ⟨row, -, hin⟩
    rw [List.isEmpty_iff.mp hempty] at hin
    cases hin
  · rw [if_neg hempty, yields_bind]
    refine yields_selectStar fun child hchild => ?_
    obtain rfl := Option.some.inj (hc.relation.symm.trans hchild)
    rw [yields_bind, yields_check]
    intro col hcol
    obtain rfl := project_singleton hcol
    by_cases href : ∃ row ∈ t.rows action.childTable, columnValue childSchema action.fkCol row ∈ keys
    · have hsome : ¬ (((t.rows action.childTable).map fun row => [columnValue childSchema action.fkCol row]).filter fun row =>
          row.any keys.contains).isEmpty = true := by
        obtain ⟨row, hrow, hin⟩ := href
        rw [List.isEmpty_iff, List.filter_eq_nil_iff]
        intro h
        exact h _ (List.mem_map_of_mem hrow) (by simpa using hin)
      rw [if_neg hsome, if_pos hcascade]
      unfold fkCascade
      dsimp only
      rw [kept_by_key]
      refine yields_rewriteTable fun m' schema' u hm hschema hw => ?_
      obtain rfl : childMeta = m' := Option.some.inj (hc.catalog.symm.trans hm)
      obtain rfl : childSchema = schema' := Except.ok.inj (hc.columns.symm.trans hschema)
      have hrows := hw.rows_stray fun row hrow => hc.typed row (List.mem_filter.mp (by rwa [allRows_collect] at hrow)).1
      rw [allRows_collect] at hrows
      exact ⟨fun _ => hrows, fun hno => absurd href hno⟩
    · have hnone : (((t.rows action.childTable).map fun row => [columnValue childSchema action.fkCol row]).filter fun row =>
          row.any keys.contains).isEmpty = true := by
        rw [List.isEmpty_iff, List.filter_eq_nil_iff]
        intro key hkey h
        obtain ⟨row, hrow, rfl⟩ := List.mem_map.mp hkey
        exact href ⟨row, hrow, by simpa using h⟩
      rw [if_pos hnone]
      exact yields_pure.mpr ⟨fun hyes => absurd hyes href, fun _ => rfl⟩

/-- The child table holds the rows whose key was not removed. -/
def RemovesKeys (s t : Db) (action : FkAction) (childSchema : Schema) (removed : List Value) : Prop :=
  (t.rows action.childTable).Perm
    ((s.rows action.childTable).filter fun row => decide (columnValue childSchema action.fkCol row ∉ removed))

/-- A cascade removes the rows with a removed key if and only if, where there is such a row, the rows that stay behind in
other files are the rows without a key. -/
theorem removesKeys_cascade {action : FkAction} {childMeta : TableMeta} {childSchema : Schema}
    (hs : Stored env s table m schema) (hc : Stored env s action.childTable childMeta childSchema)
    (hv : (s.rows table).mapM (env.truth (some deleteFilter) s.relation schema) = .ok values)
    (hcascade : env.toUppercase action.onDelete = "CASCADE") (hok : (runFkAction env table deleteFilter action).result s = .ok ()) :
    RemovesKeys s ((runFkAction env table deleteFilter action).final s) action childSchema
      (removedKeys schema action.refCol (rowsWith (some true) (s.rows table) values)) ↔
    ((∃ row ∈ s.rows action.childTable, columnValue childSchema action.fkCol row ∈
        removedKeys schema action.refCol (rowsWith (some true) (s.rows table) values)) →
      (s.stray action.childTable childMeta childSchema).Perm
        ((s.rows action.childTable).filter fun row => (columnValue childSchema action.fkCol row).isNull)) := by
  have h := yields_cascade hs hc hv hcascade () hok
  dsimp only at h
  unfold RemovesKeys
  have hkeyed : ∀ v ∈ removedKeys schema action.refCol (rowsWith (some true) (s.rows table) values), v.isNull = false := by
    intro v hv
    simpa using (List.mem_filter.mp hv).2
  generalize removedKeys schema action.refCol (rowsWith (some true) (s.rows table) values) = removed at h hkeyed ⊢
  by_cases href : ∃ row ∈ s.rows action.childTable, columnValue childSchema action.fkCol row ∈ removed
  · rw [h.1 href]
    -- the rows that should stay are those kept and those without a key
    have hsplit := List.filter_append_perm (fun row => !(columnValue childSchema action.fkCol row).isNull)
      ((s.rows action.childTable).filter fun row => decide (columnValue childSchema action.fkCol row ∉ removed))
    rw [List.filter_filter, List.filter_filter] at hsplit
    have hnull : ((s.rows action.childTable).filter fun row => !!(columnValue childSchema action.fkCol row).isNull &&
        decide (columnValue childSchema action.fkCol row ∉ removed)) =
        (s.rows action.childTable).filter fun row => (columnValue childSchema action.fkCol row).isNull := by
      refine List.filter_congr fun row _ => ?_
      by_cases hn : (columnValue childSchema action.fkCol row).isNull = true
      · have : columnValue childSchema action.fkCol row ∉ removed := fun hin => by
          rw [hkeyed _ hin] at hn
          cases hn
        simp [hn, this]
      · simp [hn]
    rw [hnull] at hsplit
    rw [forall_prop_of_true href]
    refine (List.Perm.congr_right hsplit.symm _).trans ?_
    refine (List.Perm.congr_left List.perm_append_comm _).trans ?_
    exact List.perm_append_left_iff _
  · have hall : ((s.rows action.childTable).filter fun row => decide (columnValue childSchema action.fkCol row ∉ removed)) =
        s.rows action.childTable := by
      rw [List.filter_eq_self]
      intro row hrow
      simpa using fun hin => href ⟨row, hrow, hin⟩
    rw [h.2 href, hall]
    exact iff_of_true (List.Perm.refl _) fun hex => absurd hex href

end

/-! ## Exactly the TRUE rows -/

/-- The truth value of a flag, NULL where it is NULL. -/
def flagTruth (selection : Option String) (row : Row) : Option Bool :=
  match selection, row.head? with
  | none, _ => some true
  | some _, some (.bool b) => some b
  | some _, _ => none

/-- Every condition is the flag itself. -/
def whereEnv : Env := { flagEnv with
  holds := fun condition _ _ row => .ok (flagTruth (some condition) row)
  eval := fun q tables =>
    match q with
    | .returning _ table selection =>
      (tables table).elim (.error "table not found") fun rel =>
        .ok ⟨rel.schema, rowsWith (some true) rel.rows (rel.rows.map (flagTruth selection))⟩
    | _ => .ok ⟨[], []⟩ }

theorem whereEnv_selectsTrue : whereEnv.SelectsTrue fun _ _ rows => rows := by
  intro list table selection tables rel answer values hrel heval hv
  have htruth : whereEnv.truth selection tables rel.schema = fun row => .ok (flagTruth selection row) := by
    cases selection <;> rfl
  have hvalues : values.map Except.ok = (rel.rows.map (flagTruth selection)).map (Except.ok (ε := String)) := by
    rw [← mapM_ok_iff.mp hv, htruth, List.map_map]
    rfl
  obtain rfl : values = rel.rows.map (flagTruth selection) :=
    (List.map_inj_right fun a b he => Except.ok.inj he).mp hvalues
  simp only [whereEnv, hrel] at heval
  exact congrArg Relation.rows (Except.ok.inj heval).symm

/-- A table `t` of flags and a table `c` that refers to them. -/
def flagsDb (rows childRows : List Row) : Db := { Db.new with
  store := [(⟨["t"], 0⟩, ⟨["a"], rows, 0⟩), (⟨["c"], 1⟩, ⟨["b"], childRows, 0⟩)]
  nextFile := 2
  catalog := (CatalogData.empty.addTable flagMeta).addTable ⟨"c", [⟨"b", "BOOLEAN", true⟩], "c", [], none, none, [], []⟩
  ctx := (AList.insert "t" ⟨["t"], flagSchema⟩ ∅).insert "c" ⟨["c"], [⟨"b", "BOOLEAN", true⟩]⟩ }

def deleteFlags : Delete := ⟨"t", some "a", none, "DELETE FROM t WHERE a"⟩

def cascadeFlags : FkAction := ⟨"c", "b", "a", "CASCADE"⟩

end PotatoDB
