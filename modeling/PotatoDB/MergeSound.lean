import PotatoDB.CatalogFrames
import PotatoDB.Excluded
import PotatoDB.Merging
import PotatoDB.RewriteFaults
import PotatoDB.UpdateSound

/-!
# What MERGE leaves

Each clause is a query of the target joined with the source and a rewrite of the target, or an INSERT,
one clause after the other. The expressions of the statement reach the queries as texts in which the
names of the two tables were replaced.
-/

namespace PotatoDB

open Oplog Oplog.Prog
open Machine (apply)
open Merging

/-! ## Expressions on two rows -/

/-- How the expressions of a MERGE read a row of the target and a row of the source, where there are such rows. -/
structure MergeReading where
  truth : String → Option Row → Option Row → Bool
  value : String → Option Row → Option Row → Except String Value

/-- The rows of an expression; where it is an error the statement fails. -/
def orEmpty (row : Except String Row) : Row := row.toOption.getD []

namespace MergeReading

variable (r : MergeReading) (env : Env) (schema : Schema) (m : TableMeta)

/-- The condition of a clause. -/
def meetsAll (predicate : Option String) (row source : Option Row) : Bool := predicate.all fun p => r.truth p row source

def on (on : String) (row source : Row) : Bool := r.truth on (some row) (some source)

def applies (predicate : Option String) (row source : Row) : Bool := r.meetsAll predicate (some row) (some source)

def wants (predicate : Option String) (source : Row) : Bool := r.meetsAll predicate none (some source)

/-- `CASE WHEN .. THEN .. ELSE column END` on the rows of a join. -/
def caseJoined (row : Row) (source : Option Row) (column : String) : List (String × String) → Except String Value
  | [] => .ok (columnValue schema column row)
  | (condition, expr) :: rest =>
    if r.truth condition (some row) source then r.value expr (some row) source else caseJoined row source column rest

def joinedRow (projections : List Projection) (row : Row) (source : Option Row) : Except String Row :=
  projections.mapM fun p => r.caseJoined schema row source p.column p.branches

/-- The rows of the source that a LEFT JOIN puts beside a row. -/
def beside (on : String) (predicate : Option String) (source : List Row) (row : Row) : List (Option Row) :=
  match meets (r.on on) source (r.applies predicate) row with
  | [] => [none]
  | ss => ss.map some

def leftJoin (on : String) (predicate : Option String) (source target : List Row) : List (Row × Option Row) :=
  target.flatMap fun row => (r.beside on predicate source row).map fun s => (row, s)

/-- The list of an INSERT on a row of the source. -/
def selected (values : Option (List String)) (source : Row) : Except String Row :=
  match values with
  | none => .ok source
  | some es => es.mapM fun e => r.value e none (some source)

/-! ## The clauses as they are written -/

/-- The row with each assigned column cast to its type. -/
def updatedRow (assignments : List (String × String)) (row source : Row) : Except String Row := do
  let values ← m.columns.mapM fun c =>
    match assignments.lookup c.name with
    | none => .ok (columnValue schema c.name row)
    | some e => do
      let v ← r.value e (some row) (some source)
      env.castTo (← env.sqlStringToArrow c.dataType) v
  castRow env schema schema.names values

def insertedRow (columns : List String) (values : Option (List String)) (source : Row) : Except String Row := do
  castRow env schema (if columns.isEmpty then schema.names else columns) (← r.selected values source)

/-- A WHEN clause; none that is about the rows of the target that no row of the source matches. -/
def clause (c : MergeClause) : Option (Clause Row Row) :=
  match c.matched, c.action with
  | true, .update assignments =>
    some (.update (r.applies c.predicate) fun row s => orEmpty (r.updatedRow env schema m assignments row s))
  | true, .delete => some (.delete (r.applies c.predicate))
  | false, .insert columns values =>
    some (.insert (r.wants c.predicate) fun s => orEmpty (r.insertedRow env schema columns values s))
  | _, _ => none

end MergeReading

/-- A condition after the one of ON. -/
def mergePredicate (predicate : Option String) : String := predicate.elim "" fun p => s!" AND ({p})"

/-- The tables of a query of a MERGE. -/
structure MergeTables (IsExpr : String → Prop) (tables : String → Option Relation) (target on : String)
    (predicate : Option String) (t s : Relation) : Prop where
  target : tables target = some t
  source : tables "__merge_src" = some s
  on : IsExpr on
  predicate : ∀ p ∈ predicate, IsExpr p

/-- DataFusion joins the tables by the expressions, in any order, and reads CAST as it casts. -/
structure Env.Joins (env : Env) (reads : (String → Option Relation) → MergeReading)
    (castType : String → Except String String) (IsExpr : String → Prop) : Prop where
  count : ∀ {tables target on predicate t s answer}, MergeTables IsExpr tables target on predicate t s →
    env.eval (.mergeCount target on (mergePredicate predicate)) tables = .ok answer →
    answer.rows.length = (t.rows.flatMap (meets ((reads tables).on on) s.rows ((reads tables).applies predicate))).length
  update : ∀ {tables target on predicate t s projections answer}, MergeTables IsExpr tables target on predicate t s →
    env.eval (.mergeUpdate target on (mergePredicate predicate) projections) tables = .ok answer →
    ∃ rows, ((reads tables).leftJoin on predicate s.rows t.rows).mapM
      (fun p => (reads tables).joinedRow t.schema projections p.1 p.2) = .ok rows ∧ answer.rows.Perm rows
  keep : ∀ {tables target on predicate t s answer}, MergeTables IsExpr tables target on predicate t s →
    env.eval (.mergeKeep target on (mergePredicate predicate)) tables = .ok answer →
    answer.rows.Perm
      (t.rows.filter fun row => (meets ((reads tables).on on) s.rows ((reads tables).applies predicate) row).isEmpty)
  insert : ∀ {tables target on predicate t s values answer}, MergeTables IsExpr tables target on predicate t s →
    env.eval (.mergeInsert target on (mergePredicate predicate) values) tables = .ok answer →
    ∃ rows, ((unmatched ((reads tables).on on) s.rows t.rows).filter ((reads tables).wants predicate)).mapM
      ((reads tables).selected values) = .ok rows ∧ answer.rows.Perm rows
  matched : ∀ tables row source,
    (reads tables).truth "\"__merge_src_match\" IS NOT NULL" (some row) source = source.isSome
  cast : ∀ tables e type row source, IsExpr e → (reads tables).value s!"CAST({e} AS {type})" row source = do
    let v ← (reads tables).value e row source
    env.castTo (← castType type) v

/-! ## The statement -/

/-- The expressions that a MERGE holds. -/
def MergeClause.exprs (c : MergeClause) : List String :=
  c.predicate.toList ++ match c.action with
    | .update assignments => assignments.map (·.2)
    | .delete => []
    | .insert _ values => values.getD []

/-- The tables of the queries of a MERGE when the target holds the rows. -/
def Db.mergeTables (s : Db) (target : String) (schema : Schema) (source : Relation) (rows : List Row) :
    String → Option Relation :=
  fun name => if name = "__merge_src" then some source else s.withRelation target schema rows name

section
variable (env : Env) (reads : (String → Option Relation) → MergeReading) (castType : String → Except String String)
  (IsExpr : String → Prop) (w : MergeReading) (s : Db) (merge : Merge) (schema : Schema) (m : TableMeta) (source : Relation)

/-- Where the clauses before it have been run, a rewritten text reads the rows as the statement means it. -/
def Merge.ReadsAs (e : String) : Prop :=
  IsExpr (merge.rewrite e) ∧ ∀ rows row other,
    (reads (s.mergeTables merge.target schema source rows)).truth (merge.rewrite e) row other = w.truth e row other ∧
      (reads (s.mergeTables merge.target schema source rows)).value (merge.rewrite e) row other = w.value e row other

/-- The targets of the assignments are distinct columns by their text, with types that DataFusion reads as the
engine does. -/
def MergeClause.AssignsColumns (c : MergeClause) : Prop :=
  ∀ assignments, c.action = .update assignments → (assignments.map (·.1)).Nodup ∧
    ∀ a ∈ assignments, ∃ d ∈ m.columns, d.name = a.1 ∧ castType d.dataType = env.sqlStringToArrow d.dataType

def mergeAnswer (updated inserted : Nat) : QueryResult :=
  .message s!"{updated} row(s) updated, {inserted} row(s) inserted."

/-- The rows and the counts are those of the first clause that applies, with the rows of the target at the start. -/
structure MergesFirst (t : Db) (clauses : List (Clause Row Row)) (answer : QueryResult) : Prop where
  rows : (t.rows merge.target).Perm (merged (w.on merge.on) source.rows (s.rows merge.target) clauses)
  counts : answer = mergeAnswer (updatedCount (w.on merge.on) source.rows (s.rows merge.target) clauses)
    (insertions (w.on merge.on) source.rows (s.rows merge.target) clauses).length

/-- The statement reaches DataFusion as it is meant: each clause is about matched rows or an INSERT, each expression reads
as written, and the target's files are those in the directory of its name. -/
structure Merge.Reaches (clauses : List (Clause Row Row)) : Prop where
  name : merge.target ≠ "__merge_src"
  path : objPath m.path = objPath merge.target
  apart : s.OthersApart merge.target
  clauses : merge.clauses.map (w.clause env schema m) = clauses.map some
  on : merge.ReadsAs reads IsExpr w s schema source merge.on
  exprs : ∀ c ∈ merge.clauses, c.AssignsColumns env castType m ∧ ∀ e ∈ c.exprs, merge.ReadsAs reads IsExpr w s schema source e

/-- Each clause is independent of those before it, and the first of its kind to change a row. -/
def Merge.KeepsApart (clauses : List (Clause Row Row)) : Prop :=
  ∀ front c rest, clauses = front ++ c :: rest →
    Independent (w.on merge.on) source.rows (s.rows merge.target) front c ∧
      FirstOfKind (w.on merge.on) source.rows (s.rows merge.target) front c

end

/-! ## Rows that are errors -/

theorem rows_of_mapM {α : Type} {f : α → Except String Row} : ∀ {xs : List α} {rows : List Row}, xs.mapM f = .ok rows →
    rows = xs.map (fun x => orEmpty (f x)) ∧ ∀ x ∈ xs, f x = .ok (orEmpty (f x))
  | [], rows, h => by
    obtain rfl : rows = [] := by simpa using (mapM_ok_iff.mp h).symm
    exact ⟨rfl, nofun⟩
  | x :: xs, rows, h => by
    have hm := mapM_ok_iff.mp h
    cases rows with
    | nil => cases hm
    | cons row rows =>
      rw [List.map_cons, List.map_cons, List.cons.injEq] at hm
      obtain ⟨hrows, hall⟩ := rows_of_mapM (mapM_ok_iff.mpr hm.2)
      have hx : orEmpty (f x) = row := by rw [hm.1]; rfl
      refine ⟨?_, fun y hy => ?_⟩
      · rw [List.map_cons, hx, ← hrows]
      · cases hy with
        | head => rw [hx]; exact hm.1
        | tail _ hy => exact hall y hy

/-! ## One state to the next -/

/-- The state between two clauses. -/
structure MergeState (env : Env) (s : Db) (target : String) (schema : Schema) (t : Db) : Prop where
  stored : ∃ m, Stored env t target m schema ∧ objPath m.path = objPath target
  relation : t.relation = s.withRelation target schema (t.rows target)
  apart : t.OthersApart target

section
variable {env : Env} {s t : Db} {target : String} {schema : Schema} {source : Relation}

theorem MergeState.start {m : TableMeta} (hs : Stored env s target m schema) (hpath : objPath m.path = objPath target)
    (hap : s.OthersApart target) : MergeState env s target schema s := by
  refine ⟨⟨m, hs, hpath⟩, ?_, hap⟩
  funext name
  unfold Db.withRelation
  by_cases h : name = target
  · rw [if_pos h, h]
    exact hs.relation
  · rw [if_neg h]

theorem withRelation_withRelation (h : t.relation = s.withRelation target schema (t.rows target)) (rows : List Row) :
    t.withRelation target schema rows = s.withRelation target schema rows := by
  funext name
  unfold Db.withRelation
  by_cases hn : name = target
  · rw [if_pos hn, if_pos hn]
  · rw [if_neg hn, if_neg hn, h]
    unfold Db.withRelation
    rw [if_neg hn]

theorem stray_nil {m : TableMeta} (h : objPath m.path = objPath target) : t.stray target m schema = [] := by
  unfold Db.stray Store.read
  rw [h, Store.list_removeDir]
  rfl

theorem MergeState.rewritten (hcast : env.CastStable) (hn : schema.names.Nodup) (h : MergeState env s target schema t) {u : Db}
    {m : TableMeta} {r : Relation} (hm : t.catalog.tables.lookup target = some m)
    (hschema : columnsToSchema env m.columns = .ok schema) (hw : Rewritten env t target m schema r.collect u) :
    MergeState env s target schema u ∧ r.rows.mapM (castRow env schema schema.names) = .ok (u.rows target) := by
  obtain ⟨m', hs, hpath⟩ := h.stored
  obtain rfl : m' = m := Option.some.inj (hs.catalog.symm.trans hm)
  obtain ⟨rows, hrows, hu⟩ := hw.rows_cast
  rw [allRows_collect] at hrows
  rw [stray_nil hpath, List.nil_append] at hu
  subst hu
  refine ⟨⟨?_, ?_, ?_⟩, hrows⟩
  · obtain ⟨stats, hcat⟩ := hw.catalog
    have hforget : t.catalog.forgetFiles = u.catalog.forgetFiles := by rw [hcat, forgetFiles_setFileStats]
    obtain ⟨m'', hm'', hcols, hpath'⟩ := lookup_forgetFiles hforget hm
    refine ⟨m'', ⟨hm'', hcols ▸ hs.columns, ?_, ?_⟩, hpath' ▸ hpath⟩
    · rw [hw.ctx, hpath']
      exact AList.lookup_insert _
    · intro row hrow
      obtain ⟨row', -, hrow'⟩ := exists_of_mapM hrows hrow
      exact castRow_stable hcast hn hrow'
  · rw [hw.relation_withRelation hpath h.apart]
    exact withRelation_withRelation h.relation _
  · intro other p hne hp
    rw [hw.ctx, AList.lookup_insert_ne hne, AList.lookup_erase_ne hne] at hp
    exact h.apart other p hne hp

theorem MergeState.yields_rewriteTable (hcast : env.CastStable) (hn : schema.names.Nodup) (h : MergeState env s target schema t)
    {schema₀ : Schema} {r : Relation} {flag : Bool} {R : Unit → Db → Prop}
    (hR : ∀ u, MergeState env s target schema u → r.rows.mapM (castRow env schema schema.names) = .ok (u.rows target) → R () u) :
    Yields (rewriteTable env target schema₀ r.collect flag) t R := by
  obtain ⟨m, hs, -⟩ := h.stored
  refine PotatoDB.yields_rewriteTable fun m' schema' u hm hschema hw => ?_
  obtain rfl : m = m' := Option.some.inj (hs.catalog.symm.trans hm)
  obtain rfl : schema = schema' := Except.ok.inj (hs.columns.symm.trans hschema)
  obtain ⟨hu, hstored⟩ := h.rewritten hcast hn hm hs.columns hw
  exact hR u hu hstored

/-- A state with the same tables, and a catalog that differs in the statistics of files. -/
theorem MergeState.of_catalog (h : MergeState env s target schema t) {u : Db} (hctx : u.ctx = t.ctx) (hstore : u.store = t.store)
    (hcat : t.catalog.forgetFiles = u.catalog.forgetFiles) : MergeState env s target schema u ∧ u.rows target = t.rows target := by
  have hrel : u.relation = t.relation := relation_of_tables hctx hstore
  have hrows : u.rows target = t.rows target := congrFun (rows_of_tables hctx hstore) target
  obtain ⟨m, hs, hpath⟩ := h.stored
  obtain ⟨m', hm', hcols, hpath'⟩ := lookup_forgetFiles hcat hs.catalog
  refine ⟨⟨⟨m', ⟨hm', hcols ▸ hs.columns, ?_, ?_⟩, hpath' ▸ hpath⟩, ?_, ?_⟩, hrows⟩
  · rw [hctx, ← hpath']
    exact hs.ctx
  · rw [hrows]
    exact hs.typed
  · rw [hrel, hrows]
    exact h.relation
  · unfold Db.OthersApart
    rw [hctx]
    exact h.apart

theorem relation_putFile (hap : t.OthersApart target) (u : Db) {path : ObjPath} {file : ParquetFile}
    (hpath : path.dir = objPath target) (hctx : u.ctx = t.ctx) (hstore : u.store = t.store ++ [(path, file)]) {other : String}
    (hne : other ≠ target) : u.relation other = t.relation other := by
  unfold Db.relation
  rw [hctx]
  cases hp : t.ctx.lookup other with
  | none => rfl
  | some p =>
    obtain ⟨hdir, hout⟩ := hap other p hne hp
    have hnot : ¬ p.dir <+: path.dir := by
      intro hpre
      rw [hdir, hpath] at hpre
      exact hout _ hpre List.prefix_rfl
    have hread : Store.list u.store p.dir = t.store.list p.dir := by
      rw [hstore, Store.list_append]
      unfold Store.list
      rw [List.filter_cons_of_neg (by simpa using hnot)]
      exact List.append_nil _
    rw [Option.map_some, Option.map_some]
    unfold Store.read
    rw [hread]

theorem MergeState.yields_insertInto (hcast : env.CastStable) (hn : schema.names.Nodup) (h : MergeState env s target schema t)
    {columns : Option (List String)} {b : RecordBatch} {R : Unit → Db → Prop}
    (hR : ∀ u new, MergeState env s target schema u → b.rows.mapM (castRow env schema (columns.getD schema.names)) = .ok new →
      u.rows target = t.rows target ++ new → R () u) : Yields (insertInto env target columns [b]) t R := by
  obtain ⟨m, hs, hpath⟩ := h.stored
  refine PotatoDB.yields_insertInto fun p new hp hnew => ?_
  obtain rfl : ⟨objPath m.path, schema⟩ = p := Option.some.inj (hs.ctx.symm.trans hp)
  have hone : b.rows.mapM (castRow env schema (columns.getD schema.names)) = .ok new := by
    have hcast := (insertedRows_cast hnew).1
    rwa [show allRows [b] = b.rows from List.flatMap_singleton ..] at hcast
  constructor
  · rintro rfl
    exact hR t [] h hone (List.append_nil _).symm
  · intro _
    change R () (t.withFile (objPath m.path) schema.names new (env.time t.counters.clockReadings))
    have hput : Shows (t.withFile (objPath m.path) schema.names new (env.time t.counters.clockReadings)) target
        ⟨objPath m.path, schema⟩ _ :=
      Shows.putFile ⟨hs.ctx, rfl⟩ ⟨objPath m.path, t.nextFile⟩ ⟨schema.names, new, env.time t.counters.clockReadings⟩ rfl rfl rfl
    rw [read_self hn (castRows_length hone)] at hput
    refine hR _ new ⟨⟨m, ⟨hs.catalog, hs.columns, hput.1, ?_⟩, hpath⟩, ?_, h.apart⟩ hone hput.2
    · intro row hrow
      rw [hput.2, List.mem_append] at hrow
      cases hrow with
      | inl hold => exact hs.typed row hold
      | inr hnew' =>
        obtain ⟨source', -, hrow'⟩ := exists_of_mapM hone hnew'
        exact castRow_stable hcast hn hrow'
    · funext name
      unfold Db.withRelation
      by_cases hname : name = target
      · rw [if_pos hname, hname]
        exact relation_of_lookup hput.1
      · rw [if_neg hname]
        rw [relation_putFile h.apart (t.withFile (objPath m.path) schema.names new _) (by exact hpath) rfl rfl hname, h.relation]
        unfold Db.withRelation
        rw [if_neg hname]

theorem MergeState.yields_mergeQuery (h : MergeState env s target schema t) {q : Query} {R : Relation → Db → Prop}
    (hR : ∀ rel, env.eval q (s.mergeTables target schema source (t.rows target)) = .ok rel → R rel t) :
    Yields (mergeQuery env source q) t R := by
  have htables : (fun n => if n = "__merge_src" then some source else t.relation n) =
      s.mergeTables target schema source (t.rows target) := by
    rw [h.relation]
    rfl
  unfold mergeQuery
  rw [yields_bind, yields_get, yields_check, htables]
  exact hR

end

/-! ## One clause -/

/-- The expression that the code finds for a column is the one that is assigned. -/
theorem lookup_rewritten {assignments : List (String × String)} (hn : (assignments.map (·.1)).Nodup) (f : String → String)
    (column : String) :
    (assignments.map fun a => (a.1, f a.2)).reverse.lookup column = (assignments.lookup column).map f := by
  have hnames : (assignments.map fun a => (a.1, f a.2)).map (·.1) = assignments.map (·.1) := by
    rw [List.map_map]
    rfl
  rw [lookup_reverse (hnames ▸ hn)]
  clear hnames hn
  induction assignments with
  | nil => rfl
  | cons a as ih =>
    rw [List.map_cons, List.lookup_cons, List.lookup_cons, ih]
    by_cases h : (column == a.1) = true
    · simp [h]
    · simp [h]

section
variable {env : Env} {reads : (String → Option Relation) → MergeReading} {castType : String → Except String String}
  {IsExpr : String → Prop} {w : MergeReading} {s : Db} {merge : Merge} {schema : Schema} {m : TableMeta} {source : Relation}

section
variable (hjoin : env.Joins reads castType IsExpr) {rows : List Row}
include hjoin

/-- The projection of a joined row and the cast of the INSERT are the update of the clause. -/
theorem joined_some {assignments : List (String × String)} (hn : (assignments.map (·.1)).Nodup)
    (hcols : ∀ a ∈ assignments, ∃ d ∈ m.columns, d.name = a.1 ∧ castType d.dataType = env.sqlStringToArrow d.dataType)
    (hnames : m.columnNames.Nodup)
    (hread : ∀ a ∈ assignments, merge.ReadsAs reads IsExpr w s schema source a.2) (row x : Row) :
    (do castRow env schema schema.names (← (reads (s.mergeTables merge.target schema source rows)).joinedRow schema
        (mergeProjections m (assignments.map fun a => (a.1, merge.rewrite a.2))) row (some x)) : Except String Row) =
      w.updatedRow env schema m assignments row x := by
  unfold MergeReading.updatedRow MergeReading.joinedRow mergeProjections
  rw [mapM_map]
  refine congrArg (· >>= castRow env schema schema.names) (mapM_congr fun c hc => ?_)
  rw [Function.comp_apply, lookup_rewritten hn]
  cases hl : assignments.lookup c.name with
  | none => rfl
  | some e =>
    have hmem : (c.name, e) ∈ assignments := (lookup_iff_mem hn).mp hl
    obtain ⟨hexpr, hvalue⟩ := hread _ hmem
    obtain ⟨d, hd, hname, htype⟩ := hcols _ hmem
    obtain rfl : d = c := List.inj_on_of_nodup_map hnames hd hc hname
    rw [Option.map_some]
    unfold MergeReading.caseJoined
    rw [hjoin.matched, Option.isSome_some, if_pos rfl, hjoin.cast _ _ _ _ _ hexpr, (hvalue rows (some row) (some x)).2, htype]

theorem joined_none (assignments : List (String × String)) (hschema : columnsToSchema env m.columns = .ok schema)
    (hn : schema.names.Nodup) {row : Row} (hlen : row.length = schema.names.length) :
    (reads (s.mergeTables merge.target schema source rows)).joinedRow schema (mergeProjections m assignments) row none = .ok row := by
  unfold MergeReading.joinedRow mergeProjections
  rw [mapM_map]
  refine (mapM_congr fun c _ => ?_).trans (columns_self hschema hn hlen)
  rw [Function.comp_apply]
  cases assignments.reverse.lookup c.name with
  | none => rfl
  | some e =>
    unfold MergeReading.caseJoined
    rw [hjoin.matched, Option.isSome_none, if_neg Bool.false_ne_true]
    rfl

end

theorem updated_perm (hjoin : env.Joins reads castType IsExpr) {rows stored joined : List Row} {r : Relation}
    (hschema : columnsToSchema env m.columns = .ok schema) (hn : schema.names.Nodup)
    (htyped : ∀ row ∈ rows, castRow env schema schema.names row = .ok row) {assignments : List (String × String)}
    {predicate : Option String} (hassign : (assignments.map (·.1)).Nodup)
    (hcols : ∀ a ∈ assignments, ∃ d ∈ m.columns, d.name = a.1 ∧ castType d.dataType = env.sqlStringToArrow d.dataType)
    (hread : ∀ a ∈ assignments, merge.ReadsAs reads IsExpr w s schema source a.2)
    (hon : (reads (s.mergeTables merge.target schema source rows)).on (merge.rewrite merge.on) = w.on merge.on)
    (happ : (reads (s.mergeTables merge.target schema source rows)).applies (predicate.map merge.rewrite) = w.applies predicate)
    (hjoined : ((reads (s.mergeTables merge.target schema source rows)).leftJoin (merge.rewrite merge.on)
      (predicate.map merge.rewrite) source.rows rows).mapM (fun p =>
        (reads (s.mergeTables merge.target schema source rows)).joinedRow schema
          (mergeProjections m (assignments.map fun a => (a.1, merge.rewrite a.2))) p.1 p.2) = .ok joined)
    (hperm : r.rows.Perm joined) (hstored : r.rows.mapM (castRow env schema schema.names) = .ok stored) :
    stored.Perm (rows.flatMap (rewritten (w.on merge.on) source.rows (w.applies predicate) fun row x =>
      orEmpty (w.updatedRow env schema m assignments row x))) := by
  obtain ⟨rfl, hall⟩ := rows_of_mapM hjoined
  obtain ⟨rfl, -⟩ := rows_of_mapM hstored
  refine (hperm.map _).trans (List.Perm.of_eq ?_)
  rw [List.map_map]
  -- both casts of a joined row, and the whole row as one result
  have hone : ∀ p ∈ (reads (s.mergeTables merge.target schema source rows)).leftJoin (merge.rewrite merge.on)
      (predicate.map merge.rewrite) source.rows rows,
      ((fun row => orEmpty (castRow env schema schema.names row)) ∘ fun p : Row × Option Row =>
        orEmpty ((reads (s.mergeTables merge.target schema source rows)).joinedRow schema
          (mergeProjections m (assignments.map fun a => (a.1, merge.rewrite a.2))) p.1 p.2)) p =
      orEmpty (do castRow env schema schema.names (← (reads (s.mergeTables merge.target schema source rows)).joinedRow schema
        (mergeProjections m (assignments.map fun a => (a.1, merge.rewrite a.2))) p.1 p.2)) := by
    intro p hp
    rw [Function.comp_apply]
    generalize hj : (reads (s.mergeTables merge.target schema source rows)).joinedRow schema _ p.1 p.2 = j
    have hok := hall p hp
    rw [hj] at hok
    rw [hok]
    rfl
  rw [List.map_congr_left hone]
  unfold MergeReading.leftJoin
  rw [List.map_flatMap]
  refine List.flatMap_congr fun row hrow => ?_
  have hlen : row.length = schema.names.length := by
    rw [castRow_length (htyped row hrow)]
    simp [Schema.names]
  unfold MergeReading.beside rewritten
  rw [hon, happ]
  cases meets (w.on merge.on) source.rows (w.applies predicate) row with
  | nil =>
    dsimp only
    rw [List.map_cons, List.map_nil, List.map_cons, List.map_nil]
    dsimp only
    rw [joined_none hjoin _ hschema hn hlen]
    show [orEmpty (castRow env schema schema.names row)] = [row]
    rw [htyped row hrow]
    rfl
  | cons x xs =>
    dsimp only
    rw [List.map_map, List.map_map]
    refine List.map_congr_left fun y _ => ?_
    exact congrArg orEmpty (joined_some hjoin hassign hcols (names_of_columns hschema ▸ hn) hread row y)

theorem predicate_text (predicate : Option String) :
    (predicate.elim "" fun p => s!" AND ({merge.rewrite p})") = mergePredicate (predicate.map merge.rewrite) := by
  cases predicate with
  | none => rfl
  | some p => rfl

theorem meetsAll_rewritten {predicate : Option String} (h : ∀ p ∈ predicate, merge.ReadsAs reads IsExpr w s schema source p)
    (rows : List Row) :
    (reads (s.mergeTables merge.target schema source rows)).meetsAll (predicate.map merge.rewrite) = w.meetsAll predicate := by
  funext row other
  cases predicate with
  | none => rfl
  | some p => exact ((h p rfl).2 rows row other).1

/-- What the queries of a clause read, and how. -/
structure ClauseReads (reads : (String → Option Relation) → MergeReading) (IsExpr : String → Prop) (w : MergeReading) (s : Db)
    (merge : Merge) (schema : Schema) (source : Relation) (predicate : Option String) (rows : List Row) : Prop where
  tables : MergeTables IsExpr (s.mergeTables merge.target schema source rows) merge.target (merge.rewrite merge.on)
    (predicate.map merge.rewrite) ⟨schema, rows⟩ source
  on : (reads (s.mergeTables merge.target schema source rows)).on (merge.rewrite merge.on) = w.on merge.on
  applies : (reads (s.mergeTables merge.target schema source rows)).applies (predicate.map merge.rewrite) = w.applies predicate
  wants : (reads (s.mergeTables merge.target schema source rows)).wants (predicate.map merge.rewrite) = w.wants predicate

theorem clauseReads (hname : merge.target ≠ "__merge_src") {c : MergeClause}
    (hread : ∀ e ∈ merge.on :: c.exprs, merge.ReadsAs reads IsExpr w s schema source e) (rows : List Row) :
    ClauseReads reads IsExpr w s merge schema source c.predicate rows := by
  have hon := hread merge.on List.mem_cons_self
  have hpred : ∀ p ∈ c.predicate, merge.ReadsAs reads IsExpr w s schema source p := by
    intro p hp
    refine hread p (List.mem_cons_of_mem _ (List.mem_append_left _ ?_))
    exact Option.mem_toList.mpr hp
  have hall := meetsAll_rewritten hpred rows
  refine ⟨⟨?_, ?_, hon.1, ?_⟩, ?_, ?_, ?_⟩
  · unfold Db.mergeTables Db.withRelation
    rw [if_neg hname, if_pos rfl]
  · exact if_pos rfl
  · intro p hp
    obtain ⟨p', hp', rfl⟩ := Option.map_eq_some_iff.mp hp
    exact (hpred p' hp').1
  · funext row x
    exact (hon.2 rows (some row) (some x)).1
  · funext row x
    unfold MergeReading.applies
    rw [hall]
  · funext x
    unfold MergeReading.wants
    rw [hall]

theorem selected_rewritten {values : Option (List String)}
    (h : ∀ e ∈ values.getD [], merge.ReadsAs reads IsExpr w s schema source e) (rows : List Row) :
    (reads (s.mergeTables merge.target schema source rows)).selected (values.map (·.map merge.rewrite)) = w.selected values := by
  funext x
  cases values with
  | none => rfl
  | some es =>
    show (es.map merge.rewrite).mapM _ = es.mapM _
    rw [mapM_map]
    exact mapM_congr fun e he => ((h e he).2 rows none (some x)).2

theorem inserted_perm {columns : List String} {values : Option (List String)} {sources picked rows new : List Row}
    (hpicked : sources.mapM (w.selected values) = .ok picked) (hperm : rows.Perm picked)
    (hnew : rows.mapM (castRow env schema ((if columns.isEmpty then none else some columns).getD schema.names)) = .ok new) :
    new.Perm (sources.map fun x => orEmpty (w.insertedRow env schema columns values x)) := by
  obtain ⟨rfl, hall⟩ := rows_of_mapM hpicked
  obtain ⟨rfl, -⟩ := rows_of_mapM hnew
  have hnames : (if columns.isEmpty then none else some columns).getD schema.names =
      if columns.isEmpty then schema.names else columns := by
    by_cases h : columns.isEmpty = true
    · rw [if_pos h, if_pos h, Option.getD_none]
    · rw [if_neg h, if_neg h, Option.getD_some]
  refine (hperm.map _).trans (List.Perm.of_eq ?_)
  rw [List.map_map]
  refine List.map_congr_left fun x hx => ?_
  unfold MergeReading.insertedRow
  rw [Function.comp_apply, hnames, hall x hx]
  rfl

/-- The table and the counts after a clause. -/
structure AfterClause (env : Env) (w : MergeReading) (s : Db) (merge : Merge) (schema : Schema) (source : Relation) (t : Db)
    (done : Nat × Nat) (written : Clause Row Row) (done' : Nat × Nat) (u : Db) : Prop where
  state : MergeState env s merge.target schema u
  rows : (u.rows merge.target).Perm (written.run (w.on merge.on) source.rows (t.rows merge.target))
  counts : done' = written.report (w.on merge.on) source.rows (t.rows merge.target) done

theorem yields_clauseUpdate (hjoin : env.Joins reads castType IsExpr) (hcast : env.CastStable) (hn : schema.names.Nodup)
    (hschema : columnsToSchema env m.columns = .ok schema) {t : Db} (h : MergeState env s merge.target schema t)
    {predicate : Option String} {assignments : List (String × String)}
    (hreads : ClauseReads reads IsExpr w s merge schema source predicate (t.rows merge.target))
    (hassign : MergeClause.AssignsColumns env castType m ⟨true, predicate, .update assignments⟩)
    (hexprs : ∀ a ∈ assignments, merge.ReadsAs reads IsExpr w s schema source a.2) (done : Nat × Nat) :
    Yields (mergeClause env merge m source done ⟨true, predicate, .update assignments⟩) t
      (AfterClause env w s merge schema source t done
        (.update (w.applies predicate) fun row x => orEmpty (w.updatedRow env schema m assignments row x))) := by
  obtain ⟨m', hs, -⟩ := h.stored
  obtain ⟨hnodup, hcols⟩ := hassign assignments rfl
  unfold mergeClause
  dsimp only
  rw [predicate_text, yields_bind]
  refine h.yields_mergeQuery fun matched hmatched => ?_
  have hcount := hjoin.count hreads.tables hmatched
  rw [hreads.on, hreads.applies] at hcount
  dsimp only at hcount
  by_cases hpos : matched.rows.length > 0
  · rw [if_pos hpos, yields_bind]
    refine h.yields_mergeQuery fun joined hq => ?_
    obtain ⟨rows, hjoined, hperm⟩ := hjoin.update hreads.tables hq
    rw [yields_bind]
    refine h.yields_rewriteTable hcast hn fun u hu hstored => ?_
    refine yields_pure.mpr ⟨hu, ?_, by rw [hcount]; rfl⟩
    exact updated_perm hjoin hschema hn hs.typed hnodup hcols hexprs hreads.on hreads.applies hjoined hperm hstored
  · rw [if_neg hpos]
    refine yields_pure.mpr ⟨h, ?_, by rw [hcount]; rfl⟩
    have hnone : ∀ row ∈ t.rows merge.target, meets (w.on merge.on) source.rows (w.applies predicate) row = [] :=
      List.flatMap_eq_nil_iff.mp (List.length_eq_zero_iff.mp (by omega))
    exact List.Perm.of_eq (flatMap_self fun row hrow => rewritten_nil (hnone row hrow) _).symm

theorem yields_clauseDelete (hjoin : env.Joins reads castType IsExpr) (hcast : env.CastStable) (hn : schema.names.Nodup)
    {t : Db} (h : MergeState env s merge.target schema t) {predicate : Option String}
    (hreads : ClauseReads reads IsExpr w s merge schema source predicate (t.rows merge.target)) (done : Nat × Nat) :
    Yields (mergeClause env merge m source done ⟨true, predicate, .delete⟩) t
      (AfterClause env w s merge schema source t done (.delete (w.applies predicate))) := by
  obtain ⟨m', hs, -⟩ := h.stored
  unfold mergeClause
  dsimp only
  rw [predicate_text, yields_bind]
  refine h.yields_mergeQuery fun kept hq => ?_
  have hperm := hjoin.keep hreads.tables hq
  rw [hreads.on, hreads.applies] at hperm
  rw [yields_bind]
  refine h.yields_rewriteTable hcast hn fun u hu hstored => ?_
  have hkept : u.rows merge.target = kept.rows :=
    mapM_self (fun row hrow => hs.typed row (List.mem_filter.mp (hperm.mem_iff.mp hrow)).1) hstored
  exact yields_pure.mpr ⟨hu, by rw [hkept]; exact hperm, rfl⟩

theorem yields_clauseInsert (hjoin : env.Joins reads castType IsExpr) (hcast : env.CastStable) (hn : schema.names.Nodup)
    {t : Db} (h : MergeState env s merge.target schema t) {predicate : Option String} {columns : List String}
    {values : Option (List String)}
    (hreads : ClauseReads reads IsExpr w s merge schema source predicate (t.rows merge.target))
    (hexprs : ∀ e ∈ values.getD [], merge.ReadsAs reads IsExpr w s schema source e) (done : Nat × Nat) :
    Yields (mergeClause env merge m source done ⟨false, predicate, .insert columns values⟩) t
      (AfterClause env w s merge schema source t done
        (.insert (w.wants predicate) fun x => orEmpty (w.insertedRow env schema columns values x))) := by
  unfold mergeClause
  dsimp only
  rw [predicate_text, yields_bind]
  refine h.yields_mergeQuery fun rows hq => ?_
  obtain ⟨picked, hpicked, hperm⟩ := hjoin.insert hreads.tables hq
  rw [hreads.on, hreads.wants, selected_rewritten hexprs] at hpicked
  rw [yields_bind]
  refine h.yields_insertInto hcast hn fun u new hu hnew hrows => ?_
  have hlen : rows.rows.length =
      ((unmatched (w.on merge.on) source.rows (t.rows merge.target)).filter (w.wants predicate)).length := by
    rw [hperm.length_eq, (rows_of_mapM hpicked).1, List.length_map]
  have hfinish : ∀ v, MergeState env s merge.target schema v ∧ v.rows merge.target = u.rows merge.target →
      Yields (pure (done.1, rows.rows.length) : M (Nat × Nat)) v (AfterClause env w s merge schema source t done
        (.insert (w.wants predicate) fun x => orEmpty (w.insertedRow env schema columns values x))) := by
    intro v hv
    refine yields_pure.mpr ⟨hv.1, ?_, by rw [hlen]; rfl⟩
    rw [hv.2, hrows]
    exact (inserted_perm hpicked hperm hnew).append_left _
  rw [yields_bind]
  refine yields_refreshLight (fun stats dirty => ?_) fun _ => hfinish u ⟨hu, rfl⟩
  exact hfinish _ (hu.of_catalog rfl rfl (forgetFiles_setFileStats _ _ _).symm)

/-- What one clause of a MERGE leaves and counts. -/
theorem yields_mergeClause (hjoin : env.Joins reads castType IsExpr) (hcast : env.CastStable) (hn : schema.names.Nodup)
    (hschema : columnsToSchema env m.columns = .ok schema) (hname : merge.target ≠ "__merge_src") {t : Db}
    (h : MergeState env s merge.target schema t) {c : MergeClause} {written : Clause Row Row}
    (hc : w.clause env schema m c = some written) (hassign : c.AssignsColumns env castType m)
    (hread : ∀ e ∈ merge.on :: c.exprs, merge.ReadsAs reads IsExpr w s schema source e) (done : Nat × Nat) :
    Yields (mergeClause env merge m source done c) t (AfterClause env w s merge schema source t done written) := by
  have hreads := clauseReads hname hread (t.rows merge.target)
  have hexprs : ∀ e ∈ c.exprs, merge.ReadsAs reads IsExpr w s schema source e := fun e he => hread e (List.mem_cons_of_mem _ he)
  obtain ⟨matched, predicate, action⟩ := c
  cases matched with
  | true =>
    cases action with
    | update assignments =>
      obtain rfl := Option.some.inj hc
      refine yields_clauseUpdate hjoin hcast hn hschema h hreads hassign (fun a ha => hexprs a.2 ?_) done
      exact List.mem_append_right _ (List.mem_map_of_mem ha)
    | delete =>
      obtain rfl := Option.some.inj hc
      exact yields_clauseDelete hjoin hcast hn h hreads done
    | insert columns values => cases hc
  | false =>
    cases action with
    | update assignments => cases hc
    | delete => cases hc
    | insert columns values =>
      obtain rfl := Option.some.inj hc
      exact yields_clauseInsert hjoin hcast hn h hreads (fun e he => hexprs e (List.mem_append_right _ he)) done

/-! ## The clauses in order -/

/-- A MERGE whose clauses each are undisturbed by those before them does what the first clause that applies
says. -/
theorem yields_mergeClauses (hjoin : env.Joins reads castType IsExpr) (hcast : env.CastStable) (hn : schema.names.Nodup)
    (hschema : columnsToSchema env m.columns = .ok schema) (hname : merge.target ≠ "__merge_src")
    (hon : merge.ReadsAs reads IsExpr w s schema source merge.on) {target : List Row} :
    ∀ {cs : List MergeClause} {before after : List (Clause Row Row)} {t : Db} {done : Nat × Nat},
    MergeState env s merge.target schema t →
    Progress (w.on merge.on) source.rows target before (t.rows merge.target) done →
    cs.map (w.clause env schema m) = after.map some →
    (∀ c ∈ cs, c.AssignsColumns env castType m ∧ ∀ e ∈ c.exprs, merge.ReadsAs reads IsExpr w s schema source e) →
    (∀ front c rest, before ++ after = front ++ c :: rest → before.length ≤ front.length →
      Independent (w.on merge.on) source.rows target front c ∧ FirstOfKind (w.on merge.on) source.rows target front c) →
    Yields (mergeClauses env merge m source done cs) t fun done' u =>
      Progress (w.on merge.on) source.rows target (before ++ after) (u.rows merge.target) done'
  | [], before, after, t, done, _, hp, hcs, _, _ => by
    cases after with
    | nil =>
      rw [List.append_nil]
      exact yields_pure.mpr hp
    | cons c after => cases hcs
  | c :: cs, before, [], t, done, _, _, hcs, _, _ => by cases hcs
  | c :: cs, before, written :: after, t, done, ht, hp, hcs, hclauses, hall => by
    rw [List.map_cons, List.map_cons, List.cons.injEq] at hcs
    obtain ⟨hassign, hexprs⟩ := hclauses c List.mem_cons_self
    obtain ⟨hsettled, hcounted⟩ := hall before written after rfl le_rfl
    have hread : ∀ e ∈ merge.on :: c.exprs, merge.ReadsAs reads IsExpr w s schema source e := by
      intro e he
      cases he with
      | head => exact hon
      | tail _ he => exact hexprs e he
    rw [mergeClauses, yields_bind]
    refine (yields_mergeClause hjoin hcast hn hschema hname ht hcs.1 hassign hread done).mono fun done' u hu => ?_
    obtain ⟨hstate, hrows, hcounts⟩ := hu
    subst hcounts
    have hstep := hp.step hsettled hcounted
    have hnext : Progress (w.on merge.on) source.rows target (before ++ [written]) (u.rows merge.target) _ :=
      ⟨hrows.trans hstep.rows, hstep.updated, hstep.inserted⟩
    rw [List.append_cons]
    refine yields_mergeClauses hjoin hcast hn hschema hname hon hstate hnext hcs.2
      (fun c' hc' => hclauses c' (List.mem_cons_of_mem _ hc')) fun front c' rest heq hlen => ?_
    refine hall front c' rest ?_ ?_
    · rw [List.append_cons, heq]
    · rw [List.length_append] at hlen
      omega

/-! ## The statement -/

/-- A successful MERGE runs its clauses on the tables after a flush. -/
theorem yields_handleMerge {R : QueryResult → Db → Prop} {s₀ : Db}
    (hflush : s = (flushAll env).final s₀) (hs : Stored env s merge.target m schema)
    (hsource : env.eval (.user merge.source) s.relation = .ok source)
    (hnone : source.rows = [] → R (mergeAnswer 0 0) s)
    (hrun : ∀ m₀ : TableMeta, m₀.columns = m.columns →
      Yields (mergeClauses env merge m₀ source (0, 0) merge.clauses) s fun done t => ∀ u : Db, u.rows = t.rows → R (mergeAnswer done.1 done.2) u) :
    Yields (handleMerge env merge) s₀ R := by
  unfold handleMerge
  rw [yields_bind]
  refine yields_tableMeta fun m₀ hm₀ => ?_
  rw [yields_bind]
  intro _ _
  have hkeep : ((flushAll env).final s₀).catalog.forgetFiles = s₀.catalog.forgetFiles := by
    rw [final_flushAll]
    exact keepsPart_flushTables (g := CatalogData.forgetFiles) forgetFiles_setFileStats _ s₀
  obtain ⟨m', hm', hcols, -⟩ := lookup_forgetFiles hkeep.symm hm₀
  rw [← hflush] at hm' ⊢
  obtain rfl : m = m' := Option.some.inj (hs.catalog.symm.trans hm')
  rw [yields_bind]
  refine yields_runQuery fun source' heval => ?_
  obtain rfl : source = source' := Except.ok.inj (hsource.symm.trans heval)
  by_cases hempty : source.rows.isEmpty = true
  · rw [if_pos hempty]
    exact yields_pure.mpr (hnone (List.isEmpty_iff.mp hempty))
  · rw [if_neg hempty, yields_bind]
    refine (hrun m₀ hcols).mono fun done t hR => ?_
    rw [yields_bind, recordCdcEvent, yields_emit]
    exact yields_pure.mpr (hR _ rfl)

theorem keepsApart_one {written : Clause Row Row}
    (h : Independent (w.on merge.on) source.rows (s.rows merge.target) [] written) : merge.KeepsApart w s source [written] := by
  intro front c rest heq
  obtain ⟨rfl, rfl, rfl⟩ : front = [] ∧ c = written ∧ rest = [] := by
    cases front with
    | nil =>
      rw [List.nil_append, List.cons.injEq] at heq
      exact ⟨rfl, heq.1.symm, heq.2.symm⟩
    | cons f front => simp at heq
  have hp : Progress (w.on merge.on) source.rows (s.rows merge.target) ([] : List (Clause Row Row)) _ _ := progress_start _
  refine ⟨h, ?_⟩
  cases c with
  | update applies row => exact hp.updated.symm
  | delete applies => trivial
  | insert wants row => exact List.length_eq_zero_iff.mp hp.inserted.symm

end

/-! ## Flags -/

/-- The condition of the text of `mergePredicate`. -/
def readPredicate (text : String) : Option String :=
  if text = "" then none else some (String.ofList (text.toList.drop 6).dropLast)

theorem readPredicate_text (predicate : Option String) : readPredicate (mergePredicate predicate) = predicate := by
  cases predicate with
  | none => rfl
  | some p =>
    have htext : (mergePredicate (some p)).toList = " AND (".toList ++ (p.toList ++ [')']) := by
      rw [show mergePredicate (some p) = " AND (" ++ p ++ ")" from rfl, String.toList_append, String.toList_append,
        List.append_assoc]
      rfl
    unfold readPredicate
    rw [if_neg, htext]
    · refine congrArg some ?_
      rw [show (" AND (".toList ++ (p.toList ++ [')'])).drop 6 = p.toList ++ [')'] from rfl, List.dropLast_concat,
        String.ofList_toList]
    · intro h
      rw [h] at htext
      cases htext

/-- Rows match when they are equal, and every expression is FALSE. -/
def equalRows : MergeReading where
  truth text row source := if text = "\"__merge_src_match\" IS NOT NULL" then source.isSome else row = source
  value _ _ _ := .ok (.bool false)

def joinTables (tables : String → Option Relation) (target : String) (f : Relation → Relation → Except String Relation) :
    Except String Relation :=
  match tables target, tables "__merge_src" with
  | some t, some s => f t s
  | _, _ => .error "table not found"

/-- The USING source has the rows. -/
def mergeEnv (rows : List Row) : Env := { whereEnv with
  eval := fun q tables =>
    match q with
    | .user _ => .ok ⟨flagSchema, rows⟩
    | .mergeCount target on p => joinTables tables target fun t s =>
      .ok ⟨[], t.rows.flatMap (meets (equalRows.on on) s.rows (equalRows.applies (readPredicate p)))⟩
    | .mergeUpdate target on p projections => joinTables tables target fun t s => do
      return ⟨t.schema, ← (equalRows.leftJoin on (readPredicate p) s.rows t.rows).mapM fun q =>
        equalRows.joinedRow t.schema projections q.1 q.2⟩
    | .mergeKeep target on p => joinTables tables target fun t s =>
      .ok ⟨t.schema, t.rows.filter fun row => (meets (equalRows.on on) s.rows (equalRows.applies (readPredicate p)) row).isEmpty⟩
    | .mergeInsert target on p values => joinTables tables target fun t s => do
      return ⟨s.schema, ← ((unmatched (equalRows.on on) s.rows t.rows).filter (equalRows.wants (readPredicate p))).mapM
        (equalRows.selected values)⟩
    | _ => whereEnv.eval q tables }

theorem joinTables_eq {IsExpr : String → Prop} {tables : String → Option Relation} {target on : String} {predicate : Option String}
    {t s : Relation} (h : MergeTables IsExpr tables target on predicate t s) (f : Relation → Relation → Except String Relation) :
    joinTables tables target f = f t s := by
  unfold joinTables
  rw [h.target, h.source]

theorem mergeEnv_joins (rows : List Row) : (mergeEnv rows).Joins (fun _ => equalRows) .ok fun _ => True where
  count := by
    intro tables target on predicate t s answer h heval
    change joinTables tables target _ = _ at heval
    rw [joinTables_eq h, readPredicate_text] at heval
    rw [← Except.ok.inj heval]
  update := by
    intro tables target on predicate t s projections answer h heval
    change joinTables tables target _ = _ at heval
    rw [joinTables_eq h, readPredicate_text] at heval
    cases hj : (equalRows.leftJoin on predicate s.rows t.rows).mapM fun q => equalRows.joinedRow t.schema projections q.1 q.2 with
    | error e =>
      rw [hj] at heval
      cases heval
    | ok joined =>
      rw [hj] at heval
      rw [← Except.ok.inj heval]
      exact ⟨joined, rfl, List.Perm.refl _⟩
  keep := by
    intro tables target on predicate t s answer h heval
    change joinTables tables target _ = _ at heval
    rw [joinTables_eq h, readPredicate_text] at heval
    rw [← Except.ok.inj heval]
  insert := by
    intro tables target on predicate t s values answer h heval
    change joinTables tables target _ = _ at heval
    rw [joinTables_eq h, readPredicate_text] at heval
    cases hp : ((unmatched (equalRows.on on) s.rows t.rows).filter (equalRows.wants predicate)).mapM
        (equalRows.selected values) with
    | error e =>
      rw [hp] at heval
      cases heval
    | ok picked =>
      rw [hp] at heval
      rw [← Except.ok.inj heval]
      exact ⟨picked, rfl, List.Perm.refl _⟩
  matched _ _ _ := rfl
  cast _ _ _ _ _ _ := rfl

/-- `MERGE INTO t USING s ON t.a = s.a WHEN MATCHED THEN UPDATE SET a = FALSE`. -/
def mergeFlags : Merge := ⟨"t", none, "SELECT * FROM s", none, some "s", "t.a = s.a", [⟨true, none, .update [("a", "FALSE")]⟩]⟩

def mergeFlagsClause : Clause Row Row :=
  .update (equalRows.applies none) fun row s => orEmpty (equalRows.updatedRow whereEnv flagSchema flagMeta [("a", "FALSE")] row s)

theorem mergeFlags_reaches (rows : List Row) : mergeFlags.Reaches (mergeEnv rows) (fun _ => equalRows) .ok (fun _ => True) equalRows
    flagDb flagSchema flagMeta ⟨flagSchema, rows⟩ [mergeFlagsClause] := by
  have hon : mergeFlags.rewrite "t.a = s.a" = "t.a = \"__merge_src\".a" := by decide +kernel
  have hvalue : mergeFlags.rewrite "FALSE" = "FALSE" := by decide +kernel
  refine ⟨by decide, rfl, othersApart_flagDb, rfl, ⟨trivial, fun _ row other => ⟨?_, rfl⟩⟩, ?_⟩
  · rw [show mergeFlags.on = "t.a = s.a" from rfl, hon]
    rfl
  · intro c hc
    obtain rfl := List.mem_singleton.mp hc
    refine ⟨fun assignments h => ?_, fun e he => ?_⟩
    · obtain rfl := MergeAction.update.inj h
      refine ⟨by decide, fun a ha => ⟨_, List.mem_singleton_self _, ?_, rfl⟩⟩
      rw [List.mem_singleton.mp ha]
    · obtain rfl := List.mem_singleton.mp he
      refine ⟨trivial, fun _ row other => ⟨?_, rfl⟩⟩
      rw [hvalue]

end PotatoDB
