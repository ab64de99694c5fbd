import PotatoDB.MergeSound
import PotatoDB.ReturningSound
import PotatoDB.Upserting

/-!
# What INSERT .. ON CONFLICT leaves

The source rows are told apart by the texts of their keys, the new ones go into one INSERT, and the others into one CASE per
assigned column. Where the texts stand for the values, this is the source row by row exactly if no key comes twice.
-/

namespace PotatoDB

open Oplog Oplog.Prog
open Machine (apply)
open Upserting

/-! ## Keys -/

/-- A key, which counts without NULL. -/
def wholeKey (values : List Value) : Option (List Value) := if values.any (·.isNull) then none else some values

section
variable (env : Env) (schema : Schema) (cols : List String)

def tableKey (row : Row) : Option (List Value) := wholeKey (keyOf schema.names cols row)

/-- The value that a source row gives a column of the table. -/
def castColumn (target : List String) (source : Row) (column : String) : Except String Value :=
  match schema.find? fun f => f.name = column with
  | none => .ok .null
  | some f => env.castTo f.dataType (namedValue target source column)

def sourceKey (target : List String) (source : Row) : Option (List Value) :=
  (cols.mapM (castColumn env schema target source)).toOption.bind wholeKey

/-- The row that an INSERT stores. -/
def storedRow (target : List String) (source : Row) : Row := orEmpty (castRow env schema target source)

/-- The text by which the code knows the key of a row of the table. -/
def storedKeyText (row : Row) : String :=
  joinUnits (cols.map fun c => if schema.any (·.name = c) then literal env (namedValue schema.names row c) else "NULL")

end

def conflictPredicate (cols values : List String) : String :=
  " AND ".intercalate ((cols.zip values).map fun p => s!"\"{p.1}\" = {p.2}")

/-- The condition under which a row is updated by a source row. -/
def updateCondition (env : Env) (cols : List String) (selection : Option String) (row : UpsertRow) : String :=
  match selection with
  | none => conflictPredicate cols row.conflictValues
  | some sel => s!"({conflictPredicate cols row.conflictValues}) AND ({replaceExcluded (row.valueMap env).pairs sel})"

/-- A condition is TRUE on a row. -/
def Env.isTrue (env : Env) (condition : String) (tables : String → Option Relation) (schema : Schema) (row : Row) : Bool :=
  match env.holds condition tables schema row with
  | .ok (some true) => true
  | _ => false

/-- A SELECT of the conflicting rows. -/
def Env.SelectsConflicts (env : Env) : Prop :=
  ∀ table cols keys tables rel answer, tables table = some rel → env.eval (.conflicts table cols keys) tables = .ok answer →
    answer.schema = rel.schema ∧ answer.rows.Perm (rel.rows.filter fun row =>
      keys.any fun values => env.isTrue (conflictPredicate cols values) tables rel.schema row)

/-! ## What the statement means -/

/-- How the expressions of DO UPDATE read a row of the table and a row of the source, which is `EXCLUDED`. -/
structure UpsertReading where
  truth : String → Row → Row → Bool
  value : String → Row → Row → Except String Value

section
variable (env : Env) (w : UpsertReading) (schema : Schema) (m : TableMeta)

/-- The row with the values assigned. -/
def UpsertReading.assigned (assignments : List (String × String)) (row source : Row) : Except String Row := do
  let values ← m.columns.mapM fun c =>
    match assignments.lookup c.name with
    | none => .ok (columnValue schema c.name row)
    | some e => w.value e row source
  castRow env schema schema.names values

def UpsertReading.action (action : OnConflictAction) : Action Row Row :=
  match action with
  | .doNothing => .nothing
  | .doUpdate assignments selection =>
    .update (fun row source => selection.all fun e => w.truth e row source)
      (fun row source => orEmpty (w.assigned env schema m assignments row source))

def upsertAnswer (counts : Nat × Nat × Nat) : QueryResult :=
  .message s!"UPSERT complete: {counts.1} inserted, {counts.2.1} updated, {counts.2.2} skipped."

/-- The rows and the answer are those of the source row by row. -/
def UpsertsRowByRow (s t : Db) (table : String) (cols target : List String) (action : OnConflictAction) (source : Relation)
    (answer : QueryResult) : Prop :=
  ∃ counts, answer = upsertAnswer counts ∧
    RowByRow (tableKey schema cols) (sourceKey env schema cols target) (storedRow env schema target) (w.action env schema m action)
      (s.rows table) source.rows (t.rows table) counts

end

/-- The texts of an upsert stand for what they are texts of. -/
structure UpsertReads (env : Env) (value : Evaluate) (w : UpsertReading) (s : Db) (table : String) (schema : Schema)
    (m : TableMeta) (cols target : List String) (action : OnConflictAction) (source : Relation) : Prop where
  path : objPath m.path = objPath table
  apart : s.OthersApart table
  targets : target.Nodup
  /-- The literals of a new row are stored as its values. -/
  literals : ∀ x ∈ source.rows, ∀ values, ((target.zip x).mapM fun v => env.evalLiteral (literal env v.2)) = .ok values →
    castRow env schema target values = castRow env schema target x
  /-- Among the rows that the query of the conflicts selects, equal key texts are equal keys. -/
  keys : ∀ row ∈ s.rows table, ∀ x ∈ source.rows,
    ((∃ y ∈ source.rows, env.isTrue (conflictPredicate cols (upsertRow env target cols y).conflictValues) s.relation schema row =
      true) ∧ storedKeyText env schema cols row = (upsertRow env target cols x).conflictKey) ↔
      conflicts (tableKey schema cols) (sourceKey env schema cols target) row x = true
  /-- The assigned names are distinct columns, and the texts with the values of a source row put in are read as the
  expressions are meant. -/
  updates : ∀ assignments selection, action = .doUpdate assignments selection → (assignments.map (·.1)).Nodup ∧
    ∀ rows, ∀ row ∈ rows, castRow env schema schema.names row = .ok row → ∀ x ∈ source.rows,
      (∀ v, env.holds (updateCondition env cols selection (upsertRow env target cols x)) (s.withRelation table schema rows)
          schema row = .ok v →
        (v = some true ↔ conflicts (tableKey schema cols) (sourceKey env schema cols target) row x = true ∧
          selection.all (fun e => w.truth e row x) = true)) ∧
      ∀ a ∈ assignments, value (replaceExcluded ((upsertRow env target cols x).valueMap env).pairs a.2)
        (s.withRelation table schema rows) schema row = w.value a.2 row x

/-! ## Which rows are new -/

section
variable {env : Env} {schema : Schema} {cols target : List String}

/-- A stored row has the key of its source row. -/
theorem tableKey_stored (hn : schema.names.Nodup) {x row : Row} (h : castRow env schema target x = .ok row) :
    tableKey schema cols row = sourceKey env schema cols target x := by
  have hcolumn : ∀ c, castColumn env schema target x c = .ok (namedValue schema.names row c) := by
    intro c
    unfold castColumn
    cases hf : schema.find? fun f => f.name = c with
    | none =>
      have hnot : c ∉ schema.names := by
        intro hc
        obtain ⟨f, hmem, hname⟩ := List.mem_map.mp hc
        simpa [hname] using List.find?_eq_none.mp hf f hmem
      have hlook : (schema.names.zip row).lookup c = none := by
        rw [List.lookup_eq_none_iff]
        intro p hp
        rw [bne_iff_ne]
        rintro rfl
        exact hnot (List.of_mem_zip hp).1
      unfold namedValue
      rw [hlook]
      rfl
    | some f =>
      have hname : f.name = c := by simpa using List.find?_some hf
      have hv := @value_of_mapM Field (fun f => f.name) _ schema row h hn f (List.mem_of_find?_eq_some hf)
      rw [hname] at hv
      dsimp only
      cases hcast : env.castTo f.dataType (namedValue target x c) with
      | error e =>
        rw [hcast] at hv
        cases hv
      | ok v =>
        rw [hcast] at hv
        change (if (v.isNull && !f.nullable) = true then _ else _) = _ at hv
        split at hv
        · cases hv
        · exact hv
  unfold tableKey sourceKey
  rw [mapM_ok_iff.mpr (show cols.map (castColumn env schema target x) = (keyOf schema.names cols row).map .ok from by
    unfold keyOf
    rw [List.map_map]
    exact List.map_congr_left fun c _ => hcolumn c)]
  rfl

end

section
variable {env : Env} {value : Evaluate} {w : UpsertReading} {s : Db} {table : String} {schema : Schema} {m : TableMeta}
  {cols target : List String} {action : OnConflictAction} {source : Relation}
  (hreads : UpsertReads env value w s table schema m cols target action source)
include hreads

/-- The code takes a source row to be new if no row of the table has its key. -/
theorem existing_contains {existing : Relation} (hschema : existing.schema = schema)
    (hrows : existing.rows.Perm ((s.rows table).filter fun row =>
      ((source.rows.map (upsertRow env target cols)).map (·.conflictValues)).dedup.any fun values =>
        env.isTrue (conflictPredicate cols values) s.relation schema row)) {x : Row} (hx : x ∈ source.rows) :
    (existing.rows.map fun row => joinUnits (cols.map fun c =>
      if existing.schema.any (·.name = c) then literal env (namedValue (existing.schema.map (·.name)) row c)
      else "NULL")).contains (upsertRow env target cols x).conflictKey =
      !fresh (tableKey schema cols) (sourceKey env schema cols target) (s.rows table) x := by
  rw [hschema]
  unfold fresh
  rw [Bool.not_not, Bool.eq_iff_iff, List.contains_iff_mem, List.mem_map, List.any_eq_true]
  refine exists_congr fun row => ?_
  rw [hrows.mem_iff, List.mem_filter, List.any_eq_true, and_assoc]
  refine and_congr_right fun hrow => ?_
  rw [← hreads.keys row hrow x hx]
  refine and_congr_left fun _ => ?_
  constructor
  · rintro ⟨values, hmem, htrue⟩
    rw [List.mem_dedup, List.map_map] at hmem
    obtain ⟨y, hy, rfl⟩ := List.mem_map.mp hmem
    exact ⟨y, hy, htrue⟩
  · rintro ⟨y, hy, htrue⟩
    refine ⟨_, ?_, htrue⟩
    rw [List.mem_dedup, List.map_map]
    exact List.mem_map_of_mem hy

theorem existing_split {existing : Relation} (hschema : existing.schema = schema)
    (hrows : existing.rows.Perm ((s.rows table).filter fun row =>
      ((source.rows.map (upsertRow env target cols)).map (·.conflictValues)).dedup.any fun values =>
        env.isTrue (conflictPredicate cols values) s.relation schema row)) :
    (source.rows.map (upsertRow env target cols)).filter (fun r => (existing.rows.map fun row =>
        joinUnits (cols.map fun c =>
          if existing.schema.any (·.name = c) then literal env (namedValue (existing.schema.map (·.name)) row c)
          else "NULL")).contains r.conflictKey) =
      (stale (tableKey schema cols) (sourceKey env schema cols target) (s.rows table) source.rows).map (upsertRow env target cols) ∧
    (source.rows.map (upsertRow env target cols)).filter (fun r => !(existing.rows.map fun row =>
        joinUnits (cols.map fun c =>
          if existing.schema.any (·.name = c) then literal env (namedValue (existing.schema.map (·.name)) row c)
          else "NULL")).contains r.conflictKey) =
      (source.rows.filter (fresh (tableKey schema cols) (sourceKey env schema cols target) (s.rows table))).map
        (upsertRow env target cols) := by
  constructor
  · rw [List.filter_map]
    exact congrArg (List.map _) (List.filter_congr fun x hx => existing_contains hreads hschema hrows hx)
  · rw [List.filter_map]
    refine congrArg (List.map _) (List.filter_congr fun x hx => ?_)
    rw [Function.comp_apply, existing_contains hreads hschema hrows hx, Bool.not_not]

/-- The CASE of an assigned column takes the expression of the first source row that updates the row. -/
theorem caseValue_first {assignments : List (String × String)} {selection : Option String}
    (haction : action = .doUpdate assignments selection) {rows : List Row} {row : Row} (hrow : row ∈ rows)
    (htyped : castRow env schema schema.names row = .ok row) {column : String} {a : String × String} (ha : a ∈ assignments)
    {v : Value} : ∀ {olds : List Row}, (∀ x ∈ olds, x ∈ source.rows) →
    caseValue env value (s.withRelation table schema rows) schema row column (olds.map fun x =>
      (updateCondition env cols selection (upsertRow env target cols x),
        replaceExcluded ((upsertRow env target cols x).valueMap env).pairs a.2)) = .ok v →
    (match olds.find? fun x => conflicts (tableKey schema cols) (sourceKey env schema cols target) row x &&
        selection.all fun e => w.truth e row x with
      | none => .ok (columnValue schema column row)
      | some x => w.value a.2 row x) = Except.ok v
  | [], _, h => h
  | x :: olds, hsub, h => by
    obtain ⟨hcond, hvalue⟩ := (hreads.updates _ _ haction).2 rows row hrow htyped x (hsub x List.mem_cons_self)
    rw [List.map_cons, caseValue] at h
    cases hv : env.holds (updateCondition env cols selection (upsertRow env target cols x)) (s.withRelation table schema rows)
        schema row with
    | error e =>
      rw [hv] at h
      cases h
    | ok truth =>
      rw [hv] at h
      change (if truth = some true then _ else _) = _ at h
      by_cases htrue : truth = some true
      · obtain ⟨hc, hsel⟩ := (hcond truth hv).mp htrue
        rw [if_pos htrue, hvalue a ha] at h
        rw [List.find?_cons_of_pos (by rw [hc, hsel]; rfl)]
        exact h
      · rw [if_neg htrue] at h
        rw [List.find?_cons_of_neg]
        · exact caseValue_first haction hrow htyped ha (fun y hy => hsub y (List.mem_cons_of_mem _ hy)) h
        · rw [Bool.and_eq_true]
          exact fun hboth => htrue ((hcond truth hv).mpr hboth)

theorem stored_applied {assignments : List (String × String)} {selection : Option String}
    (haction : action = .doUpdate assignments selection) (hschema : columnsToSchema env m.columns = .ok schema)
    (hn : schema.names.Nodup) {rows : List Row} {row projected stored : Row} (hrow : row ∈ rows)
    (htyped : castRow env schema schema.names row = .ok row) {olds : List Row} (hsub : ∀ x ∈ olds, x ∈ source.rows)
    (hproj : projectRow env value (s.withRelation table schema rows) schema
      (doUpdateProjections env m cols assignments selection (olds.map (upsertRow env target cols))) row = .ok projected)
    (hcast : castRow env schema schema.names projected = .ok stored) :
    stored = applied (tableKey schema cols) (sourceKey env schema cols target)
      (fun row x => selection.all fun e => w.truth e row x)
      (fun row x => orEmpty (w.assigned env schema m assignments row x)) olds row := by
  have hlen : row.length = schema.names.length := by
    rw [castRow_length htyped]
    simp [Schema.names]
  have hnodup := (hreads.updates _ _ haction).1
  unfold projectRow doUpdateProjections at hproj
  rw [mapM_map] at hproj
  -- the columns by the source row that updates the row
  have hcolumns : m.columns.mapM (fun c => match assignments.lookup c.name with
      | none => Except.ok (columnValue schema c.name row)
      | some e => match olds.find? fun x => conflicts (tableKey schema cols) (sourceKey env schema cols target) row x &&
            selection.all fun e => w.truth e row x with
          | none => Except.ok (columnValue schema c.name row)
          | some x => w.value e row x) = .ok projected := by
    refine mapM_mono (fun c _ v hv => ?_) hproj
    rw [Function.comp_apply] at hv
    dsimp only at hv
    rw [lookup_reverse hnodup] at hv
    cases hl : assignments.lookup c.name with
    | none =>
      rw [hl] at hv
      exact hv
    | some e =>
      rw [hl] at hv
      dsimp only at hv ⊢
      rw [List.map_map] at hv
      exact caseValue_first hreads haction hrow htyped ((lookup_iff_mem hnodup).mp hl) hsub hv
  unfold applied
  cases hf : olds.find? fun x => conflicts (tableKey schema cols) (sourceKey env schema cols target) row x &&
      selection.all fun e => w.truth e row x with
  | none =>
    rw [hf] at hcolumns
    have hplain : m.columns.mapM (fun c => Except.ok (columnValue schema c.name row)) = (.ok projected : Except String Row) := by
      refine mapM_mono (fun c _ v hv => ?_) hcolumns
      cases hl : assignments.lookup c.name with
      | none =>
        rw [hl] at hv
        exact hv
      | some e =>
        rw [hl] at hv
        exact hv
    rw [columns_self hschema hn hlen] at hplain
    obtain rfl := Except.ok.inj hplain
    exact (Except.ok.inj (htyped.symm.trans hcast)).symm
  | some x =>
    rw [hf] at hcolumns
    have hassigned : w.assigned env schema m assignments row x = .ok stored := by
      unfold UpsertReading.assigned
      rw [hcolumns]
      exact hcast
    dsimp only
    rw [hassigned]
    rfl

theorem yields_upsertInsert (hcast : env.CastStable) (hn : schema.names.Nodup) {t : Db} (ht : MergeState env s table schema t)
    (hrows : t.rows table = s.rows table) {news : List Row} (hsub : ∀ x ∈ news, x ∈ source.rows) {R : Unit → Db → Prop}
    (hR : ∀ u, MergeState env s table schema u → (∀ x ∈ news, castRow env schema target x = .ok (storedRow env schema target x)) →
      u.rows table = s.rows table ++ news.map (storedRow env schema target) → R () u) :
    Yields (upsertInsert env table target (news.map (upsertRow env target cols))) t R := by
  unfold upsertInsert
  rw [yields_bind, yields_check]
  intro values hvalues
  rw [mapM_map] at hvalues
  refine ht.yields_insertInto hcast hn fun u new hu hnew hu' => ?_
  rw [hrows] at hu'
  -- the cast of the literals is the cast of the values
  have hcasts : news.mapM (castRow env schema target) = .ok new := by
    rw [mapM_ok_iff] at hvalues ⊢
    replace hnew := mapM_ok_iff.mp hnew
    clear hu' hR
    induction news generalizing values new with
    | nil =>
      obtain rfl : values = [] := by simpa using hvalues.symm
      obtain rfl : new = [] := by simpa using hnew.symm
      rfl
    | cons x news ih =>
      cases values with
      | nil => cases hvalues
      | cons v values =>
        cases new with
        | nil => cases hnew
        | cons row new =>
          rw [List.map_cons, List.map_cons, List.cons.injEq] at hvalues hnew ⊢
          refine ⟨?_, ih (fun y hy => hsub y (List.mem_cons_of_mem _ hy)) _ hvalues.2 _ hnew.2⟩
          rw [← hreads.literals x (hsub x List.mem_cons_self) v hvalues.1]
          exact hnew.1
  obtain ⟨rfl, hall⟩ := rows_of_mapM hcasts
  exact hR u hu hall hu'

theorem yields_newRows (hcast : env.CastStable) (hn : schema.names.Nodup) {t : Db} (ht : MergeState env s table schema t)
    (hrows : t.rows table = s.rows table) {p : M QueryResult} {R : QueryResult → Db → Prop}
    (hp : ∀ u, MergeState env s table schema u →
      u.rows table = withFresh (tableKey schema cols) (sourceKey env schema cols target) (storedRow env schema target)
        (s.rows table) source.rows →
      (∀ x ∈ source.rows, fresh (tableKey schema cols) (sourceKey env schema cols target) (s.rows table) x = true →
        castRow env schema target x = .ok (storedRow env schema target x)) → Yields p u R) :
    Yields (if ((source.rows.filter (fresh (tableKey schema cols) (sourceKey env schema cols target) (s.rows table))).map
        (upsertRow env target cols)).isEmpty = true then p
      else upsertInsert env table target ((source.rows.filter (fresh (tableKey schema cols) (sourceKey env schema cols target)
        (s.rows table))).map (upsertRow env target cols)) >>= fun _ => p) t R := by
  set news := source.rows.filter (fresh (tableKey schema cols) (sourceKey env schema cols target) (s.rows table)) with hnews
  have hmem : ∀ {x}, x ∈ news ↔ x ∈ source.rows ∧
      fresh (tableKey schema cols) (sourceKey env schema cols target) (s.rows table) x = true := List.mem_filter
  by_cases hnone : news = []
  · rw [if_pos (by simp [hnone])]
    refine hp t ht ?_ fun x hx hf => absurd (hmem.mpr ⟨hx, hf⟩) (by simp [hnone])
    unfold withFresh
    rw [← hnews, hnone, hrows]
    exact (List.append_nil _).symm
  · rw [if_neg (by simpa using hnone), yields_bind]
    refine yields_upsertInsert hreads hcast hn ht hrows (fun x hx => (hmem.mp hx).1) fun u hu hcasts hu' => ?_
    exact hp u hu hu' fun x hx hf => hcasts x (hmem.mpr ⟨hx, hf⟩)

theorem yields_updateRows {castType : String → Except String String} {IsExpr : String → Prop}
    (hstd : env.Standard value castType IsExpr) (hcast : env.CastStable) (hschema : columnsToSchema env m.columns = .ok schema)
    (hn : schema.names.Nodup) {assignments : List (String × String)} {selection : Option String}
    (haction : action = .doUpdate assignments selection) {t : Db} (ht : MergeState env s table schema t)
    {olds : List Row} (hsub : ∀ x ∈ olds, x ∈ source.rows) {p : M QueryResult} {R : QueryResult → Db → Prop}
    (hR : ∀ u, MergeState env s table schema u → u.rows table = (t.rows table).map (applied (tableKey schema cols)
      (sourceKey env schema cols target) (fun row x => selection.all fun e => w.truth e row x)
      (fun row x => orEmpty (w.assigned env schema m assignments row x)) olds) → Yields p u R) :
    Yields (do
      let modified ← runQuery env (.rewrite table
        (doUpdateProjections env m cols assignments selection (olds.map (upsertRow env target cols))))
      rewriteTable env table modified.schema modified.collect false
      p : M QueryResult) t R := by
  obtain ⟨m', hs, -⟩ := ht.stored
  rw [yields_bind]
  refine yields_runQuery fun modified heval => ?_
  have hproj := hstd.rewrite _ _ _ _ _ hs.relation heval
  rw [yields_bind]
  refine ht.yields_rewriteTable hcast hn fun u hu hstored => ?_
  refine hR u hu ?_
  rw [ht.relation] at hproj
  dsimp only at hproj
  obtain ⟨hrows, hall⟩ := rows_of_mapM hproj
  obtain ⟨hstored, hcasts⟩ := rows_of_mapM hstored
  rw [hstored, hrows, List.map_map]
  refine List.map_congr_left fun row hrow => ?_
  refine stored_applied hreads haction hschema hn hrow (hs.typed row hrow) hsub (hall row hrow) (hcasts _ ?_)
  rw [hrows]
  exact List.mem_map_of_mem hrow

end

theorem yields_finishUpsert {env : Env} {t : Db} {table : String} {inserted updated skipped : Nat} {R : QueryResult → Db → Prop}
    (h : ∀ u, u.rows table = t.rows table → R (upsertAnswer (inserted, updated, skipped)) u) :
    Yields (do
      validateNotNullTable table
      validateTableConstraints table
      validateCheckConstraints env table
      maybeAutoAnalyze env table (inserted + updated)
      refreshTableFileStatsLight table
      recordCdcEvent table "UPSERT" (inserted + updated)
      return .message s!"UPSERT complete: {inserted} inserted, {updated} updated, {skipped} skipped." : M QueryResult) t R := by
  rw [yields_bind]
  refine yields_readOnly (readOnly_validateNotNullTable _) fun _ _ => ?_
  rw [yields_bind]
  refine yields_readOnly readOnly_validateTableConstraints fun _ _ => ?_
  rw [yields_bind]
  refine yields_readOnly readOnly_validateCheckConstraints fun _ _ => ?_
  rw [yields_bind]
  refine yields_quiet (quiet_maybeAutoAnalyze _ _) fun _ u hu => ?_
  have hrows : u.rows = t.rows := rows_of_tables (congrArg TableState.ctx hu) (congrArg TableState.store hu)
  have hlast : ∀ v : Db, v.rows = u.rows → Yields (do
      recordCdcEvent table "UPSERT" (inserted + updated)
      return .message s!"UPSERT complete: {inserted} inserted, {updated} updated, {skipped} skipped." : M QueryResult) v R := by
    intro v hv
    rw [yields_bind, recordCdcEvent, yields_emit]
    refine yields_pure.mpr (h _ ?_)
    exact (congrFun hv table).trans (congrFun hrows table)
  rw [yields_bind]
  exact yields_refreshLight (fun _ _ => hlast _ rfl) fun _ => hlast u rfl

/-- What a successful upsert leaves and answers. -/
theorem yields_handleUpsert {env : Env} {value : Evaluate} {castType : String → Except String String} {IsExpr : String → Prop}
    {w : UpsertReading} {s₀ s : Db} {insert : Insert} {onConflict : OnConflict} {schema : Schema} {m : TableMeta}
    {cols target : List String} {text : String} {source : Relation} (hstd : env.Standard value castType IsExpr)
    (hcast : env.CastStable) (hconf : env.SelectsConflicts) (hflush : s = (flushTable env insert.table).final s₀)
    (hs : Stored env s insert.table m schema) (hn : schema.names.Nodup) (hcols : resolveConflictColumns m onConflict = .ok cols)
    (htarget : target = if insert.columns.isEmpty then m.columnNames else insert.columns) (htext : insert.source = some text)
    (hsource : env.eval (.user text) s.relation = .ok source)
    (hreads : UpsertReads env value w s insert.table schema m cols target onConflict.action source) :
    Yields (handleUpsert env insert onConflict) s₀ fun answer t =>
      t.rows insert.table = (w.action env schema m onConflict.action).bulk (tableKey schema cols)
        (sourceKey env schema cols target) (storedRow env schema target) (s.rows insert.table) source.rows ∧
      answer = upsertAnswer ((w.action env schema m onConflict.action).report (tableKey schema cols)
        (sourceKey env schema cols target) (s.rows insert.table) source.rows) ∧
      ∀ x ∈ source.rows, fresh (tableKey schema cols) (sourceKey env schema cols target) (s.rows insert.table) x = true →
        castRow env schema target x = .ok (storedRow env schema target x) := by
  have hstate : MergeState env s insert.table schema s := MergeState.start hs hreads.path hreads.apart
  unfold handleUpsert
  dsimp only
  rw [yields_bind]
  intro _ _
  rw [← hflush]
  rw [yields_bind]
  refine yields_tableMeta fun m' hm' => ?_
  obtain rfl : m = m' := Option.some.inj (hs.catalog.symm.trans hm')
  rw [yields_bind, yields_check, hcols]
  intro cols' hc
  obtain rfl := Except.ok.inj hc
  by_cases hempty : cols.isEmpty = true
  · rw [if_pos hempty]
    exact yields_throw
  rw [if_neg hempty, htext]
  dsimp only
  rw [yields_bind]
  refine yields_runQuery fun source' heval => ?_
  obtain rfl : source = source' := Except.ok.inj (hsource.symm.trans heval)
  rw [yields_bind]
  refine yields_walAppendPending fun t ht => ?_
  rw [allRows_collect, ← htarget]
  have hrel := relation_of_held ht
  have hstate : MergeState env s insert.table schema t ∧ t.rows insert.table = s.rows insert.table :=
    hstate.of_catalog (congrArg (fun h => h.2.1) ht) (congrArg (fun h => h.1) ht)
      (congrArg CatalogData.forgetFiles (catalog_of_held ht)).symm
  by_cases hrows : source.rows = []
  · rw [if_pos (by simp [hrows])]
    refine yields_pure.mpr ⟨?_, ?_, by simp [hrows]⟩
    · rw [hrows, bulk_nil]
      exact hstate.2
    · rw [hrows, report_nil]
      rfl
  rw [if_neg (by simpa using hrows), yields_bind]
  refine yields_runQuery fun existing hexisting => ?_
  rw [hrel] at hexisting
  obtain ⟨hschema, hselected⟩ := hconf _ _ _ _ _ _ hs.relation hexisting
  obtain ⟨hold, hnew⟩ := existing_split hreads hschema hselected
  rw [hold, hnew]
  obtain ⟨conflictTarget, action⟩ := onConflict
  cases action with
  | doNothing =>
    dsimp only
    refine yields_newRows hreads hcast hn hstate.1 hstate.2 fun u hu hrows hcasts => ?_
    refine yields_finishUpsert fun v hv => ⟨hv.trans hrows, ?_, hcasts⟩
    simp [Action.report, UpsertReading.action]
  | doUpdate assignments selection =>
    dsimp only
    refine yields_newRows hreads hcast hn hstate.1 hstate.2 fun u hu hrows hcasts => ?_
    by_cases hnone : stale (tableKey schema cols) (sourceKey env schema cols target) (s.rows insert.table) source.rows = []
    · rw [if_pos (by simp [hnone])]
      refine yields_finishUpsert fun v hv => ⟨?_, ?_, hcasts⟩
      · unfold UpsertReading.action Action.bulk
        dsimp only
        rw [hnone, hv, hrows, List.map_congr_left fun x _ => applied_none (by simp)]
        exact (List.map_id _).symm
      · simp [Action.report, UpsertReading.action, hnone]
    · rw [if_neg (by simpa using hnone)]
      refine yields_updateRows hreads hstd hcast hs.columns hn rfl hu (fun x hx => (mem_stale.mp hx).1) fun v _ hv => ?_
      refine yields_finishUpsert fun u' hu' => ⟨?_, ?_, hcasts⟩
      · rw [hu', hv, hrows]
        rfl
      · simp [Action.report, UpsertReading.action]

/-! ## The answer tells the counts -/

theorem blank_append_inj : ∀ {xs ys : List Char} {as bs : List Char}, (∀ c ∈ xs, c ≠ ' ') → (∀ c ∈ ys, c ≠ ' ') →
    xs ++ ' ' :: as = ys ++ ' ' :: bs → xs = ys ∧ as = bs
  | [], [], _, _, _, _, h => ⟨rfl, (List.cons.inj h).2⟩
  | [], y :: ys, _, _, _, hy, h => absurd (List.cons.inj h).1.symm (hy y List.mem_cons_self)
  | x :: xs, [], _, _, hx, _, h => absurd (List.cons.inj h).1 (hx x List.mem_cons_self)
  | x :: xs, y :: ys, _, _, hx, hy, h => by
    obtain ⟨hxs, htail⟩ := blank_append_inj (fun c hc => hx c (List.mem_cons_of_mem _ hc))
      (fun c hc => hy c (List.mem_cons_of_mem _ hc)) (List.cons.inj h).2
    exact ⟨by rw [(List.cons.inj h).1, hxs], htail⟩

theorem nat_append_inj {a b : Nat} {as bs : List Char}
    (h : (toString a).toList ++ ' ' :: as = (toString b).toList ++ ' ' :: bs) : a = b ∧ as = bs := by
  have hdigit : ∀ n : Nat, ∀ c ∈ (toString n).toList, c ≠ ' ' := by
    intro n c hc
    rw [show (toString n).toList = Nat.toDigits 10 n from String.toList_ofList] at hc
    have hd := Nat.isDigit_of_mem_toDigits (by decide) (by decide) hc
    rintro rfl
    cases hd
  obtain ⟨hdigits, htail⟩ := blank_append_inj (hdigit a) (hdigit b) h
  exact ⟨toString_nat_inj (String.toList_inj.mp hdigits), htail⟩

theorem upsertAnswer_inj {a b : Nat × Nat × Nat} (h : upsertAnswer a = upsertAnswer b) : a = b := by
  obtain ⟨inserted, updated, skipped⟩ := a
  obtain ⟨inserted', updated', skipped'⟩ := b
  have htext := congrArg String.toList (QueryResult.message.inj h)
  have hshape : ∀ i u k : Nat, (s!"UPSERT complete: {i} inserted, {u} updated, {k} skipped.").toList =
      "UPSERT complete: ".toList ++ ((toString i).toList ++ ' ' :: ("inserted, ".toList ++ ((toString u).toList ++ ' ' ::
        ("updated, ".toList ++ ((toString k).toList ++ ' ' :: "skipped.".toList))))) := by
    intro i u k
    rw [show s!"UPSERT complete: {i} inserted, {u} updated, {k} skipped." = "UPSERT complete: " ++ toString i ++ " inserted, " ++
      toString u ++ " updated, " ++ toString k ++ " skipped." from rfl]
    simp only [String.toList_append, List.append_assoc]
    rfl
  dsimp only at htext
  rw [hshape, hshape, List.append_cancel_left_eq] at htext
  obtain ⟨hi, h₁⟩ := nat_append_inj htext
  rw [List.append_cancel_left_eq] at h₁
  obtain ⟨hu, h₂⟩ := nat_append_inj h₁
  rw [List.append_cancel_left_eq] at h₂
  rw [hi, hu, (nat_append_inj h₂).1]

/-! ## Exactly row by row -/

def keyedSchema : Schema := [⟨"a", "BOOLEAN", true⟩, ⟨"b", "BOOLEAN", true⟩]

def keyedMeta : TableMeta :=
  ⟨"t", [⟨"a", "BOOLEAN", true⟩, ⟨"b", "BOOLEAN", true⟩], "t", [], none, none, [.primaryKey ["a"]], []⟩

/-- The row (TRUE, FALSE) in `t`, whose key is `a`. -/
def keyedDb : Db := { Db.new with
  store := [(⟨["t"], 0⟩, ⟨["a", "b"], [[.bool true, .bool false]], 0⟩)]
  nextFile := 1
  catalog := CatalogData.empty.addTable keyedMeta
  ctx := AList.insert "t" ⟨["t"], keyedSchema⟩ ∅ }

def flagLiteral (text : String) : Value := if text = "TRUE" then .bool true else if text = "FALSE" then .bool false else .null

def literalValue : Evaluate := fun e _ _ _ => .ok (flagLiteral e)

def keyHolds : Env := { whereEnv with
  evalLiteral := fun text => .ok (flagLiteral text)
  holds := fun condition _ _ row => .ok (some (condition = "TRUE" ∨
    condition = "\"a\" = TRUE" ∧ row.head? = some (.bool true) ∨ condition = "\"a\" = FALSE" ∧ row.head? = some (.bool false))) }

/-- The source has the rows. -/
def upsertEnv (rows : List Row) : Env := { keyHolds with
  eval := fun q tables =>
    match q with
    | .user _ => .ok ⟨keyedSchema, rows⟩
    | .conflicts table cols keys => (tables table).elim (.error "table not found") fun rel =>
      .ok ⟨rel.schema, rel.rows.filter fun row => keys.any fun values =>
        keyHolds.isTrue (conflictPredicate cols values) tables rel.schema row⟩
    | .rewrite table projections => (tables table).elim (.error "table not found") fun rel => do
      return ⟨rel.schema, ← rel.rows.mapM (projectRow keyHolds literalValue tables rel.schema projections)⟩
    | _ => whereEnv.eval q tables }

theorem upsertEnv_standard (rows : List Row) : (upsertEnv rows).Standard literalValue .ok fun _ => False where
  rewrite := by
    intro table projections tables rel answer hrel heval
    simp only [upsertEnv, hrel, Option.elim_some] at heval
    change (rel.rows.mapM (projectRow keyHolds literalValue tables rel.schema projections) >>= fun rows => .ok ⟨rel.schema, rows⟩) =
      .ok answer at heval
    rw [projectRow_congr (show (upsertEnv rows).holds = keyHolds.holds from rfl)]
    cases hrows : rel.rows.mapM (projectRow keyHolds literalValue tables rel.schema projections) with
    | error e =>
      rw [hrows] at heval
      cases heval
    | ok rows =>
      rw [hrows] at heval
      rw [← Except.ok.inj heval]
  unconditional _ _ _ := rfl
  cast _ _ _ _ _ h := h.elim
  cast_cast _ _ _ _ := rfl

theorem upsertEnv_conflicts (rows : List Row) : (upsertEnv rows).SelectsConflicts := by
  intro table cols keys tables rel answer hrel heval
  simp only [upsertEnv, hrel, Option.elim_some] at heval
  rw [← Except.ok.inj heval]
  exact ⟨rfl, List.Perm.refl _⟩

/-- `EXCLUDED.b`. -/
def excludedB : UpsertReading where
  truth _ _ _ := true
  value _ _ source := .ok (source.getD 1 .null)

/-- `INSERT INTO t .. ON CONFLICT (a) DO UPDATE SET b = EXCLUDED.b`. -/
def takeB : OnConflict := ⟨some (.columns ["a"]), .doUpdate [("b", "EXCLUDED.b")] none⟩

def upsertPairs : Insert := ⟨"t", [], some "VALUES", none, some takeB, ""⟩

theorem othersApart_keyedDb : keyedDb.OthersApart "t" := by
  intro other p hne hp
  unfold keyedDb at hp
  rw [AList.lookup_insert_ne hne] at hp
  cases hp

/-- A row of the table and one whose key is new. -/
def pairRows : List Row := [[.bool true, .bool true], [.bool false, .bool true]]

theorem pairs_conflict {row : Row} (htyped : castRow (upsertEnv pairRows) keyedSchema keyedSchema.names row = .ok row) (b c : Bool) :
    (conflicts (tableKey keyedSchema ["a"]) (sourceKey (upsertEnv pairRows) keyedSchema ["a"] ["a", "b"]) row [.bool b, .bool c] =
      true) ↔ row.head? = some (.bool b) := by
  have hlen : row.length = 2 := castRow_length htyped
  obtain ⟨v, v', rfl⟩ := List.length_eq_two.mp hlen
  rw [conflicts_iff]
  have hsource : sourceKey (upsertEnv pairRows) keyedSchema ["a"] ["a", "b"] [.bool b, .bool c] = some [.bool b] := rfl
  have htable : tableKey keyedSchema ["a"] [v, v'] = wholeKey [v] := rfl
  rw [hsource, htable]
  unfold wholeKey
  cases v with
  | null | nullArray => simp [Value.isNull]
  | _ => simp [Value.isNull]

theorem pairs_read : UpsertReads (upsertEnv pairRows) literalValue excludedB keyedDb "t" keyedSchema keyedMeta ["a"] ["a", "b"]
    takeB.action ⟨keyedSchema, pairRows⟩ where
  path := rfl
  apart := othersApart_keyedDb
  targets := by decide
  literals := by
    intro x hx values h
    cases hx with
    | head =>
      obtain rfl := Except.ok.inj (show Except.ok [Value.bool true, .bool true] = _ from h)
      rfl
    | tail _ hx =>
      obtain rfl := List.mem_singleton.mp hx
      obtain rfl := Except.ok.inj (show Except.ok [Value.bool false, .bool true] = _ from h)
      rfl
  keys := by decide +kernel
  updates := by
    intro assignments selection h
    obtain ⟨rfl, rfl⟩ := OnConflictAction.doUpdate.inj h
    refine ⟨by decide, fun rows row _ htyped x hx => ?_⟩
    -- the texts for the two source rows
    have hcondition : ∀ b : Bool, updateCondition (upsertEnv pairRows) ["a"] none
        (upsertRow (upsertEnv pairRows) ["a", "b"] ["a"] [.bool b, .bool true]) =
        if b then "\"a\" = TRUE" else "\"a\" = FALSE" := by
      decide +kernel
    have htext : ∀ b : Bool, replaceExcluded ((upsertRow (upsertEnv pairRows) ["a", "b"] ["a"] [.bool b, .bool true]).valueMap
        (upsertEnv pairRows)).pairs "EXCLUDED.b" = "TRUE" := by
      decide +kernel
    obtain ⟨b, rfl⟩ : ∃ b : Bool, x = [.bool b, .bool true] := by
      cases hx with
      | head => exact ⟨true, rfl⟩
      | tail _ hx => exact ⟨false, List.mem_singleton.mp hx⟩
    refine ⟨fun v hv => ?_, fun a ha => ?_⟩
    · rw [pairs_conflict htyped]
      rw [hcondition] at hv
      obtain rfl := Except.ok.inj hv
      cases b with
      | true => simp
      | false => simp
    · obtain rfl := List.mem_singleton.mp ha
      rw [htext]
      rfl

theorem pairs_keep : (excludedB.action (upsertEnv pairRows) keyedSchema keyedMeta takeB.action).Keeps (tableKey keyedSchema ["a"])
    (sourceKey (upsertEnv pairRows) keyedSchema ["a"] ["a", "b"]) (keyedDb.rows "t") pairRows := by
  decide +kernel

end PotatoDB
