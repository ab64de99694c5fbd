import PotatoDB.Selects

/-!
# What UPDATE changes

An UPDATE replaces each column by a CASE over the condition of the statement. The assignments are
found by the text of their targets, the last of a tuple, and each expression is cast by DataFusion's
reading of the column's type before the INSERT casts it to the column.
-/

namespace PotatoDB

open Oplog Oplog.Prog
open Machine (apply)

/-! ## Assignments -/

structure Ident where
  value : String
  quoted : Bool
deriving DecidableEq

def Ident.display (i : Ident) : String :=
  if i.quoted then "\"" ++ String.ofList (i.value.toList.flatMap fun c => if c = '"' then [c, c] else [c]) ++ "\""
  else i.value

abbrev ObjectName := List Ident

def ObjectName.display (name : ObjectName) : String := ".".intercalate (name.map (·.display))

inductive AssignmentTarget where
  | columnName (name : ObjectName)
  | tuple (names : List ObjectName)
deriving DecidableEq

structure Assignment where
  target : AssignmentTarget
  value : String
  /-- The expressions of the columns of a tuple. -/
  row : List String
deriving DecidableEq

/-- `trim_matches('"')`. -/
def trimQuotes (s : String) : String :=
  String.ofList (((s.toList.dropWhile (· = '"')).reverse.dropWhile (· = '"')).reverse)

/-- The column that the engine takes an assignment to be for. -/
def Assignment.column (a : Assignment) : String :=
  trimQuotes (match a.target with
    | .columnName name => ObjectName.display name
    | .tuple names => (names.getLast?.map ObjectName.display).getD "")

structure UpdateStatement where
  table : String
  assignments : List Assignment
  selection : Option String
  returning : Option String

/-- The statement as the handler reads it. -/
def UpdateStatement.read (u : UpdateStatement) : Update :=
  ⟨u.table, u.assignments.map fun a => (a.column, a.value), u.selection, u.returning⟩

/-- An identifier without quotes names a column in any letter case. -/
def Ident.names (i : Ident) (column : String) : Bool :=
  if i.quoted then i.value = column else i.value.toList.map Char.toLower = column.toList.map Char.toLower

def ObjectName.names (name : ObjectName) (column : String) : Bool := name.getLast?.any (·.names column)

/-- The expressions that a statement assigns to a column. -/
def assignedExprs (assignments : List Assignment) (column : String) : List String :=
  assignments.flatMap fun a =>
    match a.target with
    | .columnName name => if ObjectName.names name column then [a.value] else []
    | .tuple names => ((names.zip a.row).filter fun p => ObjectName.names p.1 column).map (·.2)

section
variable {env : Env} {value : Evaluate} {s : Db} {schema : Schema} {m : TableMeta}

/-- The row after the assignments, each evaluated on the row before them. -/
def UpdatedRow (env : Env) (value : Evaluate) (tables : String → Option Relation) (schema : Schema) (m : TableMeta)
    (assignments : List Assignment) (old new : Row) : Prop :=
  new.length = schema.length ∧ ∀ c ∈ m.columns,
    (∀ e ∈ assignedExprs assignments c.name, ∃ v type, value e tables schema old = .ok v ∧
      env.sqlStringToArrow c.dataType = .ok type ∧ env.castTo type v = .ok (columnValue schema c.name new)) ∧
    (assignedExprs assignments c.name = [] → columnValue schema c.name new = columnValue schema c.name old)

/-- Each assigned column is the target of one assignment, which the engine finds by its text, and DataFusion reads the
type of the column as the engine does. -/
def UpdateStatement.TargetsRead (env : Env) (castType : String → Except String String) (m : TableMeta) (u : UpdateStatement) :
    Prop :=
  ∀ c ∈ m.columns, assignedExprs u.assignments c.name = (u.read.assignments.lookup c.name).toList ∧
    (assignedExprs u.assignments c.name ≠ [] → castType c.dataType = env.sqlStringToArrow c.dataType)

/-- What an UPDATE should leave and answer. -/
structure UpdatesTrue (env : Env) (value : Evaluate) (s t : Db) (u : UpdateStatement) (schema : Schema) (m : TableMeta)
    (values : List (Option Bool)) (answer : QueryResult) : Prop where
  rows : ∃ news, (t.rows u.table).Perm news ∧ List.Forall₂ (fun old new =>
    if old.2 = some true then UpdatedRow env value s.relation schema m u.assignments old.1 new else new = old.1)
    ((s.rows u.table).zip values) news
  count : u.returning = none →
    answer = .message s!"{(rowsWith (some true) (s.rows u.table) values).length} row(s) updated."

/-! ## One row -/

theorem Env.Standard.truth_whereText {castType : String → Except String String} {IsExpr : String → Prop}
    (hstd : env.Standard value castType IsExpr) (selection : Option String) (tables : String → Option Relation) :
    env.truth selection tables schema = env.holds (whereText selection) tables schema := by
  funext row
  cases selection with
  | none => exact (hstd.unconditional _ _ _).symm
  | some condition => rfl

theorem caseValue_update {tables : String → Option Relation} {row : Row} {column : String} {condition : String}
    {expr : String} {truth : Option Bool} (ht : env.holds condition tables schema row = .ok truth) :
    caseValue env value tables schema row column [(condition, expr)] =
      if truth = some true then value expr tables schema row else .ok (columnValue schema column row) := by
  unfold caseValue
  rw [ht]
  rfl

theorem projected_column {tables : String → Option Relation} {u : Update} {row row' : Row} {truth : Option Bool}
    (hschema : columnsToSchema env m.columns = .ok schema) (hn : schema.names.Nodup)
    (ht : env.holds (whereText u.selection) tables schema row = .ok truth)
    (h : projectRow env value tables schema (updateProjections m u) row = .ok row') {c : ColumnDef} (hc : c ∈ m.columns) :
    (match u.assignments.lookup c.name with
      | none => .ok (columnValue schema c.name row)
      | some e => if truth = some true then value s!"CAST(({e}) AS {c.dataType})" tables schema row
        else .ok (columnValue schema c.name row)) = Except.ok (columnValue schema c.name row') := by
  unfold projectRow updateProjections at h
  rw [mapM_map] at h
  have hnames := names_of_columns hschema
  rw [hnames] at hn
  have hv := @value_of_mapM ColumnDef (fun c => c.name) _ m.columns row' h hn c hc
  have hcol : namedValue (m.columns.map fun c => c.name) row' c.name = columnValue schema c.name row' := by
    unfold columnValue
    rw [hnames]
    rfl
  rw [hcol] at hv
  rw [← hv]
  dsimp only [Function.comp_apply]
  cases u.assignments.lookup c.name with
  | none => rfl
  | some e => exact (caseValue_update ht).symm

theorem updated_row {castType : String → Except String String} {IsExpr : String → Prop} (hstd : env.Standard value castType IsExpr)
    {tables : String → Option Relation} {u : UpdateStatement} {old row new : Row} {truth : Option Bool}
    (hschema : columnsToSchema env m.columns = .ok schema) (hn : schema.names.Nodup)
    (htyped : castRow env schema schema.names old = .ok old) (hexpr : ∀ a ∈ u.assignments, IsExpr a.value)
    (hread : u.TargetsRead env castType m) (ht : env.holds (whereText u.selection) tables schema old = .ok truth)
    (hproj : projectRow env value tables schema (updateProjections m u.read) old = .ok row)
    (hcast : castRow env schema schema.names row = .ok new) :
    if truth = some true then UpdatedRow env value tables schema m u.assignments old new else new = old := by
  have hlen : new.length = schema.length := castRow_length hcast
  -- a column that keeps its value through the projection keeps it through the cast
  have hkeep : ∀ c ∈ m.columns, columnValue schema c.name row = columnValue schema c.name old →
      columnValue schema c.name new = columnValue schema c.name old := by
    intro c hc hsame
    obtain ⟨type, -, hf⟩ := field_of_column hschema hc
    have hnew := cast_of_castRow hn hcast hf
    have hold := cast_of_castRow hn htyped hf
    dsimp only at hnew hold
    rw [hsame, hold] at hnew
    exact (Except.ok.inj hnew).symm
  have hcol := fun {c : ColumnDef} (hc : c ∈ m.columns) => projected_column (u := u.read) hschema hn ht hproj hc
  by_cases htrue : truth = some true
  · rw [if_pos htrue]
    refine ⟨hlen, fun c hc => ⟨fun e he => ?_, fun hno => ?_⟩⟩
    · obtain ⟨heq, htype⟩ := hread c hc
      have htype := htype (List.ne_nil_of_mem he)
      have hlook : u.read.assignments.lookup c.name = some e := by
        rw [heq] at he
        simpa using he
      have hin : (c.name, e) ∈ u.read.assignments := by
        obtain ⟨l₁, l₂, hl, -⟩ := List.lookup_eq_some_iff.mp hlook
        rw [hl]
        simp
      obtain ⟨a, ha, hae⟩ := List.mem_map.mp hin
      have hce := hcol hc
      rw [hlook] at hce
      dsimp only at hce
      rw [if_pos htrue, hstd.cast e c.dataType tables schema old ((Prod.mk.inj hae).2 ▸ hexpr a ha)] at hce
      obtain ⟨type, hst, hf⟩ := field_of_column hschema hc
      cases hv : value e tables schema old with
      | error err =>
        rw [hv] at hce
        cases hce
      | ok v =>
        rw [hv, htype, hst] at hce
        have hce : env.castTo type v = .ok (columnValue schema c.name row) := hce
        have hnew := cast_of_castRow hn hcast hf
        dsimp only at hnew
        rw [hstd.cast_cast _ _ _ hce] at hnew
        exact ⟨v, type, rfl, hst, by rw [hce, Except.ok.inj hnew]⟩
    · have hlook : u.read.assignments.lookup c.name = none := by
        have := (hread c hc).1
        rw [hno] at this
        cases hl : u.read.assignments.lookup c.name with
        | none => rfl
        | some e =>
          rw [hl] at this
          cases this
      have hce := hcol hc
      rw [hlook] at hce
      exact hkeep c hc (Except.ok.inj hce).symm
  · rw [if_neg htrue]
    refine row_ext hn ?_ ?_ fun n hname => ?_
    · rw [hlen]
      simp [Schema.names]
    · rw [castRow_length htyped]
      simp [Schema.names]
    · rw [names_of_columns hschema] at hname
      obtain ⟨c, hc, rfl⟩ := List.mem_map.mp hname
      refine hkeep c hc ?_
      have hce := hcol hc
      cases hl : u.read.assignments.lookup c.name with
      | none =>
        rw [hl] at hce
        exact (Except.ok.inj hce).symm
      | some e =>
        rw [hl] at hce
        dsimp only at hce
        rw [if_neg htrue] at hce
        exact (Except.ok.inj hce).symm

/-! ## The whole table -/

theorem updated_rows {castType : String → Except String String} {IsExpr : String → Prop} (hstd : env.Standard value castType IsExpr)
    {tables : String → Option Relation} {u : UpdateStatement} (hschema : columnsToSchema env m.columns = .ok schema)
    (hn : schema.names.Nodup) (hexpr : ∀ a ∈ u.assignments, IsExpr a.value) (hread : u.TargetsRead env castType m) :
    ∀ {olds rows news : List Row} {values : List (Option Bool)},
    (∀ row ∈ olds, castRow env schema schema.names row = .ok row) →
    olds.mapM (env.holds (whereText u.selection) tables schema) = .ok values →
    olds.mapM (projectRow env value tables schema (updateProjections m u.read)) = .ok rows →
    rows.mapM (castRow env schema schema.names) = .ok news →
    List.Forall₂ (fun old new =>
      if old.2 = some true then UpdatedRow env value tables schema m u.assignments old.1 new else new = old.1)
      (olds.zip values) news
  | [], rows, news, values, _, hv, hp, hc => by
    obtain rfl : rows = [] := by simpa using (mapM_ok_iff.mp hp).symm
    obtain rfl : news = [] := by simpa using (mapM_ok_iff.mp hc).symm
    exact .nil
  | old :: olds, rows, news, values, htyped, hv, hp, hc => by
    have hv := mapM_ok_iff.mp hv
    have hp := mapM_ok_iff.mp hp
    cases values with
    | nil => cases hv
    | cons truth values =>
      cases rows with
      | nil => cases hp
      | cons row rows =>
        have hc := mapM_ok_iff.mp hc
        cases news with
        | nil => cases hc
        | cons new news =>
          rw [List.map_cons, List.map_cons, List.cons.injEq] at hv hp hc
          rw [List.zip_cons_cons]
          refine .cons ?_ ?_
          · exact updated_row hstd hschema hn (htyped old List.mem_cons_self) hexpr hread hv.1 hp.1 hc.1
          · exact updated_rows hstd hschema hn hexpr hread (fun row hrow => htyped row (List.mem_cons_of_mem _ hrow))
              (mapM_ok_iff.mpr hv.2) (mapM_ok_iff.mpr hp.2) (mapM_ok_iff.mpr hc.2)

/-- The files of the other tables are in the directories of their names, apart from that of the table. -/
def Db.OthersApart (s : Db) (table : String) : Prop :=
  ∀ other p, other ≠ table → s.ctx.lookup other = some p →
    p.dir = objPath other ∧ ∀ d, objPath other <+: d → ¬ objPath table <+: d

/-- The tables of a state with other rows in one of them. -/
def Db.withRelation (s : Db) (table : String) (schema : Schema) (rows : List Row) : String → Option Relation :=
  fun name => if name = table then some ⟨schema, rows⟩ else s.relation name

theorem Rewritten.relation_withRelation {s t : Db} {table : String} {batches : List RecordBatch}
    (h : Rewritten env s table m schema batches t) (hpath : objPath m.path = objPath table) (hap : s.OthersApart table) :
    t.relation = s.withRelation table schema (t.rows table) := by
  funext other
  unfold Db.withRelation
  by_cases ho : other = table
  · rw [if_pos ho, ho]
    refine @relation_of_lookup _ _ ⟨objPath m.path, schema⟩ ?_
    rw [h.ctx, AList.lookup_insert]
  · rw [if_neg ho]
    cases hp : s.ctx.lookup other with
    | none =>
      unfold Db.relation
      rw [h.ctx, AList.lookup_insert_ne ho, AList.lookup_erase_ne ho, hp]
      rfl
    | some p =>
      refine h.relation_other hpath ho ?_ (hap other p ho hp).2
      intro q hq
      obtain rfl := Option.some.inj (hp.symm.trans hq)
      exact (hap other p ho hp).1

/-- What a successful UPDATE leaves and answers: the cast rows of the projection beside the rows that stood elsewhere,
and the number of the TRUE rows or the answer of the query of its RETURNING clause. -/
theorem yields_handleUpdate {castType : String → Except String String} {IsExpr : String → Prop}
    (hstd : env.Standard value castType IsExpr) {exec : String → M QueryResult} {sql : String} (update : Update)
    {values : List (Option Bool)} (hs : Stored env s update.table m schema)
    (hv : (s.rows update.table).mapM (env.holds (whereText update.selection) s.relation schema) = .ok values)
    (htr : s.catalog.triggersOn update.table "UPDATE" "BEFORE" = []) :
    Yields (handleUpdate env exec sql update) s fun answer t => ∃ rows news,
      (s.rows update.table).mapM (projectRow env value s.relation schema (updateProjections m update)) = .ok rows ∧
      rows.mapM (castRow env schema schema.names) = .ok news ∧
      t.rows update.table = s.stray update.table m schema ++ news ∧
      t.relation update.table = some ⟨schema, t.rows update.table⟩ ∧
      (objPath m.path = objPath update.table → s.OthersApart update.table →
        t.relation = s.withRelation update.table schema (t.rows update.table)) ∧
      match update.returning with
      | none => answer = .message s!"{(rowsWith (some true) (s.rows update.table) values).length} row(s) updated."
      | some list => ∃ rel, env.eval (.returning list update.table (some (whereText update.selection))) t.relation = .ok rel ∧
          answer = .records rel.collect := by
  unfold handleUpdate
  dsimp only
  rw [yields_bind]
  refine yields_runTriggers_nil htr ?_
  rw [yields_bind]
  refine yields_tableMeta fun m' hm' => ?_
  obtain rfl : m = m' := Option.some.inj (hs.catalog.symm.trans hm')
  rw [yields_bind]
  refine yields_walAppendPending fun t ht => ?_
  rw [yields_bind]
  refine yields_backupTableForTxn fun u hu => ?_
  have hheld : u.held = s.held := hu.trans ht
  have hrel := relation_of_held hheld
  have hsu : Stored env u update.table m schema := hs.of_held hheld
  rw [yields_bind, yields_get, yields_bind]
  refine yields_selectStar fun r hr => ?_
  rw [hrel, hs.relation] at hr
  obtain rfl := Option.some.inj hr
  rw [yields_bind, yields_check, hrel]
  intro trues htrues
  obtain rfl := @filterRows_eq env (whereText update.selection) s.relation ⟨schema, s.rows update.table⟩ _ _ hv htrues
  rw [yields_bind]
  refine yields_runQuery fun modified heval => ?_
  rw [hrel] at heval
  have hproj := hstd.rewrite _ _ _ _ _ hs.relation heval
  rw [yields_bind]
  refine yields_rewriteTable fun m' schema' v hm hschema hw => ?_
  obtain rfl : m = m' := Option.some.inj (hsu.catalog.symm.trans hm)
  obtain rfl : schema = schema' := Except.ok.inj (hs.columns.symm.trans hschema)
  obtain ⟨news, hcast, hrows⟩ := hw.rows_cast
  rw [allRows_collect] at hcast
  have hstray : u.stray update.table m schema = s.stray update.table m schema := by
    unfold Db.stray
    rw [show u.store = s.store from (Prod.mk.inj hheld).1]
  rw [hstray] at hrows
  rw [yields_bind]
  refine yields_readOnly readOnly_validateTableConstraints fun _ _ => ?_
  rw [yields_bind]
  refine yields_readOnly readOnly_validateCheckConstraints fun _ _ => ?_
  rw [yields_bind, recordCdcEvent, yields_emit]
  have hrelv : v.relation update.table = some ⟨schema, v.rows update.table⟩ := by
    refine @relation_of_lookup _ _ ⟨objPath m.path, schema⟩ ?_
    exact (congrArg _ hw.ctx).trans (AList.lookup_insert _)
  have htables : objPath m.path = objPath update.table → s.OthersApart update.table →
      v.relation = s.withRelation update.table schema (v.rows update.table) := by
    intro hpath hap
    have hctx : u.ctx = s.ctx := (Prod.mk.inj (Prod.mk.inj hheld).2).1
    rw [hw.relation_withRelation hpath (by unfold Db.OthersApart; rwa [hctx])]
    unfold Db.withRelation
    rw [hrel]
  cases hret : update.returning with
  | none => exact yields_pure.mpr ⟨modified.rows, news, hproj, hcast, hrows, hrelv, htables, rfl⟩
  | some list =>
    dsimp only
    rw [yields_bind]
    refine yields_runQuery fun rel hq => ?_
    exact yields_pure.mpr ⟨modified.rows, news, hproj, hcast, hrows, hrelv, htables, rel, hq, rfl⟩

end

/-! ## Exactly the TRUE rows -/

/-- **When an UPDATE changes exactly the TRUE rows as its assignments say**: the files of the table are in the directory
of its name, and each assigned column is found by its text; and it does not without the former. -/
theorem update_exact {env : Env} {value : Evaluate} {castType : String → Except String String} {IsExpr : String → Prop}
    (hstd : env.Standard value castType IsExpr) {s : Db} {exec : String → M QueryResult} {sql : String} {u : UpdateStatement}
    {m : TableMeta} {schema : Schema} {values : List (Option Bool)} {answer : QueryResult}
    (hs : Stored env s u.table m schema) (hn : schema.names.Nodup) (hexpr : ∀ a ∈ u.assignments, IsExpr a.value)
    (hv : (s.rows u.table).mapM (env.truth u.selection s.relation schema) = .ok values)
    (htr : s.catalog.triggersOn u.table "UPDATE" "BEFORE" = [])
    (hok : (handleUpdate env exec sql u.read).result s = .ok answer) :
    (s.stray u.table m schema = [] ∧ u.TargetsRead env castType m →
      UpdatesTrue env value s ((handleUpdate env exec sql u.read).final s) u schema m values answer) ∧
    (UpdatesTrue env value s ((handleUpdate env exec sql u.read).final s) u schema m values answer →
      s.stray u.table m schema = []) := by
  rw [hstd.truth_whereText] at hv
  obtain ⟨rows, news, hproj, hcast, hrows, -, -, hanswer⟩ := yields_handleUpdate hstd u.read hs hv htr answer hok
  change (s.rows u.table).mapM _ = _ at hproj
  change ((handleUpdate env exec sql u.read).final s).rows u.table = s.stray u.table m schema ++ news at hrows
  have hlenP := congrArg List.length (mapM_ok_iff.mp hproj)
  have hlenC := congrArg List.length (mapM_ok_iff.mp hcast)
  have hlenV := congrArg List.length (mapM_ok_iff.mp hv)
  simp only [List.length_map] at hlenP hlenC hlenV
  constructor
  · rintro ⟨hstray, hread⟩
    rw [hstray, List.nil_append] at hrows
    refine ⟨⟨news, ?_, updated_rows hstd hs.columns hn hexpr hread hs.typed hv hproj hcast⟩, fun hret => ?_⟩
    · exact hrows ▸ List.Perm.refl _
    · have hret : u.read.returning = none := hret
      rw [hret] at hanswer
      exact hanswer
  · intro h
    obtain ⟨news', hperm, hforall⟩ := h.rows
    have hlen := hperm.length_eq
    rw [hrows, ← hforall.length_eq, List.length_append, List.length_zip] at hlen
    rw [← List.length_eq_zero_iff]
    omega

/-! ## A table of flags -/

/-- Every expression is FALSE, and every condition but TRUE is the flag itself. -/
def setHolds : Env := { whereEnv with
  holds := fun condition _ _ row => .ok (if condition = "TRUE" then some true else flagTruth (some condition) row) }

def falseValue : Evaluate := fun _ _ _ _ => .ok (.bool false)

def setEnv : Env := { setHolds with
  eval := fun q tables =>
    match q with
    | .rewrite table projections =>
      (tables table).elim (.error "table not found") fun rel => do
        return ⟨rel.schema, ← rel.rows.mapM (projectRow setHolds falseValue tables rel.schema projections)⟩
    | _ => whereEnv.eval q tables }

theorem setEnv_standard : setEnv.Standard falseValue .ok fun _ => True where
  rewrite := by
    intro table projections tables rel answer hrel heval
    simp only [setEnv, hrel, Option.elim_some] at heval
    change (rel.rows.mapM (projectRow setHolds falseValue tables rel.schema projections) >>= fun rows => .ok ⟨rel.schema, rows⟩) =
      .ok answer at heval
    rw [projectRow_congr (show setEnv.holds = setHolds.holds from rfl)]
    cases hrows : rel.rows.mapM (projectRow setHolds falseValue tables rel.schema projections) with
    | error e =>
      rw [hrows] at heval
      cases heval
    | ok rows =>
      rw [hrows] at heval
      rw [← Except.ok.inj heval]
  unconditional _ _ _ := rfl
  cast _ _ _ _ _ _ := rfl
  cast_cast _ _ _ _ := rfl

theorem othersApart_flagDb : flagDb.OthersApart "t" := by
  intro other p hne hp
  unfold flagDb at hp
  rw [AList.lookup_insert_ne hne] at hp
  cases hp

/-- `UPDATE t SET {column} = FALSE WHERE a`. -/
def setFlag (column : String) : UpdateStatement :=
  ⟨"t", [⟨.columnName [⟨column, false⟩], "FALSE", []⟩], some "a", none⟩

theorem flag_updated :
    UpdatesTrue setEnv falseValue (flagsDb [[.bool true], [.bool false], [.null]] [])
      ((handleUpdate setEnv (fun _ => throw "") "" (setFlag "a").read).final (flagsDb [[.bool true], [.bool false], [.null]] []))
      (setFlag "a") flagSchema flagMeta [some true, some false, none] (.message "1 row(s) updated.") :=
  (update_exact setEnv_standard (by decide +kernel) (by decide +kernel) (fun _ _ => trivial) (by decide +kernel)
    (by decide +kernel) (by decide +kernel)).1 ⟨by decide +kernel, by
      intro c hc
      obtain rfl := List.mem_singleton.mp hc
      exact ⟨by decide +kernel, fun _ => rfl⟩⟩

/-- `UPDATE t SET A = FALSE WHERE a` reports a row and changes none. -/
theorem column_not_found :
    (handleUpdate setEnv (fun _ => throw "") "" (setFlag "A").read).result (flagsDb [[.bool true]] []) =
      .ok (.message "1 row(s) updated.") ∧
    ¬ UpdatesTrue setEnv falseValue (flagsDb [[.bool true]] [])
      ((handleUpdate setEnv (fun _ => throw "") "" (setFlag "A").read).final (flagsDb [[.bool true]] []))
      (setFlag "A") flagSchema flagMeta [some true] (.message "1 row(s) updated.") := by
  refine ⟨by decide +kernel, fun h => ?_⟩
  obtain ⟨news, hperm, hforall⟩ := h.rows
  have hrows : ((handleUpdate setEnv (fun _ => throw "") "" (setFlag "A").read).final (flagsDb [[.bool true]] [])).rows "t" =
      [[.bool true]] := by decide +kernel
  rw [show (setFlag "A").table = "t" from rfl, hrows] at hperm
  obtain rfl := List.singleton_perm.mp hperm
  rw [show ((flagsDb [[.bool true]] []).rows (setFlag "A").table).zip [some true] = [([.bool true], some true)] from by
    decide +kernel] at hforall
  cases hforall with
  | cons hrow _ =>
    rw [if_pos rfl] at hrow
    obtain ⟨v, type, hv, htype, hcast⟩ := (hrow.2 ⟨"a", "BOOLEAN", true⟩ (List.mem_singleton_self _)).1 "FALSE" (by decide +kernel)
    obtain rfl := Except.ok.inj hv
    cases hcast

end PotatoDB
