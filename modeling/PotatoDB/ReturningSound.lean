import PotatoDB.UpdateSound
import PotatoDB.TextParsersSound
import PotatoDB.TriggersSound

/-!
# What RETURNING answers

The engine finds the clause in the text of the statement and asks the table for the rows: an INSERT
for all rows after it, an UPDATE for those its condition is TRUE on after it, a DELETE for those its
condition is TRUE on before it.
-/

namespace PotatoDB

open Oplog Oplog.Prog
open Machine (apply)

/-! ## The clause in the text -/

/-- A statement with its RETURNING clause: the text before, the keyword with a blank on each side, and the list. -/
structure EndsReturning (sql head list : List Char) : Prop where
  text : ∃ keyword tail, sql = head ++ keyword ++ tail ∧ Slices.bytes keyword = Slices.bytes " RETURNING ".toList ∧
    list = trimEndMatches (· = ';') (trim tail)
  nonempty : list ≠ []

/-- What the engine takes to be the clause of a statement. -/
def ReadsReturning (mapping : Texts.CaseMapping) (sql : List Char) (returning : Option String) : Prop :=
  (Texts.extractReturningClause mapping sql).result () = .ok (returning.map String.toList)

/-- The first keyword stands behind the text before the clause. -/
def FirstKeyword (mapping : Texts.CaseMapping) (sql head : List Char) : Prop :=
  Slices.find " RETURNING ".toList (mapping.toUppercase sql) = some (Slices.bytes head)

theorem EndsReturning.reads {mapping : Texts.CaseMapping} {sql head list : List Char} {returning : Option String}
    (h : EndsReturning sql head list) (hfirst : FirstKeyword mapping sql head) (hread : ReadsReturning mapping sql returning) :
    returning = some (String.ofList list) := by
  have hresult : Yields (Texts.extractReturningClause mapping sql) () fun clause _ => clause = some list := by
    obtain ⟨keyword, tail, rfl, hwidth, rfl⟩ := h.text
    have hslice : Slices.sliceFrom (head ++ keyword ++ tail) (Slices.bytes head + Slices.bytes " RETURNING ".toList) = some tail := by
      rw [← hwidth, ← Slices.bytes_append]
      exact Slices.sliceFrom_append _ _
    unfold Texts.extractReturningClause Texts.findIn
    rw [show Slices.find " RETURNING ".toList (mapping.upperPieces (head ++ keyword ++ tail)).flatten =
      some (Slices.bytes head) from hfirst]
    rw [yields_bind, yields_bind, yields_emit, yields_pure]
    dsimp only
    rw [hslice, yields_bind]
    unfold Texts.orStop
    rw [yields_pure, if_neg h.nonempty, yields_pure]
  have hclause := hresult _ hread
  cases returning with
  | none => cases hclause
  | some text =>
    rw [← Option.some.inj hclause]
    exact congrArg some String.ofList_toList.symm

/-! ## The affected rows -/

section
variable (answers : String → Schema → Row → Row) (s t : Db) (table : String) (schema : Schema) (list : String)
  (answer : QueryResult)

/-- The records are the expressions on the rows that the table has gained. -/
def ReturnsInserted : Prop :=
  ∃ inserted, (t.rows table).Perm (s.rows table ++ inserted) ∧ answer.rows.Perm (inserted.map (answers list schema))

/-- The records are the expressions on the rows that the table has lost. -/
def ReturnsDeleted : Prop :=
  ∃ deleted, (s.rows table).Perm (t.rows table ++ deleted) ∧ answer.rows.Perm (deleted.map (answers list schema))

end

section
variable (env : Env) (value : Evaluate) (s : Db) (u : UpdateStatement) (schema : Schema) (m : TableMeta)
  (values : List (Option Bool))

/-- The rows of the table with the TRUE ones updated. -/
def UpdatedRows (news : List Row) : Prop :=
  List.Forall₂ (fun old new =>
    if old.2 = some true then UpdatedRow env value s.relation schema m u.assignments old.1 new else new = old.1)
    ((s.rows u.table).zip values) news

/-- The records are the expressions on the updated rows. -/
def ReturnsUpdated (answers : String → Schema → Row → Row) (t : Db) (list : String) (answer : QueryResult) : Prop :=
  ∃ news, UpdatedRows env value s u schema m values news ∧ (t.rows u.table).Perm news ∧
    answer.rows.Perm ((rowsWith (some true) news values).map (answers list schema))

/-- The condition has truth values on the updated rows. -/
def DecidesUpdated : Prop :=
  ∀ news, UpdatedRows env value s u schema m values news →
    ∃ after, news.mapM (env.truth u.selection (s.withRelation u.table schema news) schema) = .ok after

/-- The condition is TRUE on the updated rows and no others. -/
def StaysTrue : Prop :=
  ∀ news after, UpdatedRows env value s u schema m values news →
    news.mapM (env.truth u.selection (s.withRelation u.table schema news) schema) = .ok after →
      after.map (· = some true) = values.map (· = some true)

end

/-! ## INSERT -/

section
variable {env : Env} {s : Db} {table : String}

theorem yields_quiet {α : Type} {p : M α} (hp : Emits Op.Quiet p) {R : α → Db → Prop}
    (h : ∀ a t, t.tableState = s.tableState → R a t) : Yields p s R :=
  fun a _ => h a _ (hp.final_eq (fun s _ ho => ho s) s)

theorem quiet_merges (merges : Merges) :
    Emits Op.Quiet (each (fun m => mergeUniquenessKeys m.1 m.2) merges : M Unit) := by
  induction merges with
  | nil => exact emits_pure _
  | cons m merges ih => exact (emits_emit fun _ => rfl).bind fun _ => ih

/-- DataFusion's tables and the triggers of a statement, which an INSERT leaves alone. -/
structure KeptTables (s t : Db) : Prop where
  ctx : t.ctx = s.ctx
  triggers : t.catalog.triggers = s.catalog.triggers

theorem KeptTables.trans {t u : Db} (h : KeptTables s t) (h' : KeptTables t u) : KeptTables s u :=
  ⟨h'.ctx.trans h.ctx, h'.triggers.trans h.triggers⟩

theorem keptTables_of_tableState {t : Db} (h : t.tableState = s.tableState) : KeptTables s t :=
  ⟨congrArg TableState.ctx h, congrArg (fun v => v.catalog.triggers) h⟩

theorem keptTables_of_held {t : Db} (h : t.held = s.held) : KeptTables s t :=
  ⟨(Prod.mk.inj (Prod.mk.inj h).2).1, congrArg CatalogData.triggers (catalog_of_held h)⟩

theorem yields_kept_quiet {α : Type} {p : M α} (hp : Emits Op.Quiet p) {R : α → Db → Prop}
    (h : ∀ a t, KeptTables s t → R a t) : Yields p s R :=
  yields_quiet hp fun a t ht => h a t (keptTables_of_tableState ht)

theorem yields_kept_insertInto {columns : Option (List String)} {batches : List RecordBatch} {R : Unit → Db → Prop}
    (h : ∀ t, KeptTables s t → R () t) : Yields (insertInto env table columns batches) s R :=
  yields_insertInto fun _ _ _ _ => ⟨fun _ => h s ⟨rfl, rfl⟩, fun _ => h _ ⟨rfl, rfl⟩⟩

theorem quiet_nextTempTableName (tag : String) : Emits Op.Quiet (nextTempTableName tag) :=
  emits_get.bind fun _ => (emits_emit fun _ => rfl).bind fun _ => emits_pure _

section
variable {exec : String → M QueryResult} {insert : Insert} {list : String}

/-- The table is asked for the rows with the tables as they were before. -/
def AnswersAll (env : Env) (s : Db) (insert : Insert) (list : String) (answer : QueryResult) (t : Db) : Prop :=
  KeptTables s t ∧ ∃ rel, env.eval (.returning list insert.table none) t.relation = .ok rel ∧ answer = .records rel.collect

theorem yields_answerInsert {t : Db} {n : Nat} (ht : KeptTables s t) (hret : insert.returning = some list)
    (htr : s.catalog.triggersOn insert.table "INSERT" "AFTER" = []) :
    Yields (do
      maybeAutoAnalyze env insert.table n
      refreshTableFileStatsLight insert.table
      recordCdcEvent insert.table "INSERT" n
      runTriggers exec insert.table "INSERT" "AFTER"
      match insert.returning with
      | none => return .records []
      | some list => return .records (← runQuery env (.returning list insert.table none)).collect : M QueryResult) t
    (AnswersAll env s insert list) := by
  rw [yields_bind]
  refine yields_kept_quiet (quiet_maybeAutoAnalyze _ _) fun _ u hu => ?_
  have hu := ht.trans hu
  rw [yields_bind]
  have hrest : ∀ v, KeptTables s v → Yields (do
        recordCdcEvent insert.table "INSERT" n
        runTriggers exec insert.table "INSERT" "AFTER"
        match insert.returning with
        | none => return .records []
        | some list => return .records (← runQuery env (.returning list insert.table none)).collect : M QueryResult) v
      (AnswersAll env s insert list) := by
    intro v hv
    rw [yields_bind, recordCdcEvent, yields_emit, yields_bind]
    refine yields_runTriggers_nil ?_ ?_
    · rw [← htr]
      exact triggersOn_congr hv.triggers _ _ _
    · rw [hret]
      dsimp only
      rw [yields_bind]
      refine yields_runQuery fun rel hrel => ?_
      exact yields_pure.mpr ⟨⟨hv.ctx, hv.triggers⟩, rel, hrel, rfl⟩
  refine yields_refreshLight (fun stats dirty => ?_) fun _ => hrest u hu
  exact hrest _ ⟨hu.ctx, hu.triggers⟩

/-- An INSERT that writes at once answers its RETURNING clause from all rows of the table. -/
theorem yields_handleInsertImmediate {sql : String} {targetColumns : List String} {batches : List RecordBatch}
    (hret : insert.returning = some list) (htr : s.catalog.triggersOn insert.table "INSERT" "AFTER" = []) :
    Yields (handleInsertImmediate env exec sql insert targetColumns batches) s (AnswersAll env s insert list) := by
  unfold handleInsertImmediate
  dsimp only
  rw [yields_bind]
  refine yields_walAppendPending fun s₁ h₁ => ?_
  have h₁ := keptTables_of_held h₁
  rw [yields_bind]
  refine yields_kept_quiet (quiet_validate _ _ _ _) fun merges s₂ h₂ => ?_
  have h₂ := h₁.trans h₂
  by_cases hrows : totalRows batches > 0
  · simp only [if_pos hrows]
    rw [yields_bind]
    refine yields_kept_quiet (quiet_nextTempTableName _) fun _ s₃ h₃ => ?_
    rw [yields_bind, yields_check]
    intro _ _
    rw [yields_bind]
    refine yields_kept_insertInto fun s₄ h₄ => ?_
    have h₄ := (h₂.trans h₃).trans h₄
    rw [yields_bind]
    refine yields_kept_quiet (quiet_validate _ _ _ _) fun _ s₅ h₅ => ?_
    rw [yields_bind]
    refine yields_kept_quiet (quiet_merges merges) fun _ s₆ h₆ => ?_
    exact yields_answerInsert ((h₄.trans h₅).trans h₆) hret htr
  · simp only [if_neg hrows]
    rw [yields_bind]
    refine yields_kept_quiet (quiet_validate _ _ _ _) fun _ s₃ h₃ => ?_
    exact yields_answerInsert (h₂.trans h₃) hret htr

theorem yields_handleInsert {sql : String} (hplain : insert.onConflict = none) (hret : insert.returning = some list)
    (htr : ∀ timing, s.catalog.triggersOn insert.table "INSERT" timing = []) :
    Yields (handleInsert env exec sql insert) s (AnswersAll env s insert list) := by
  unfold handleInsert
  rw [hplain]
  dsimp only
  rw [yields_bind]
  refine yields_runTriggers_nil (htr _) ?_
  rw [yields_bind]
  refine yields_tableMeta fun m _ => ?_
  cases insert.source with
  | none => exact yields_throw
  | some source =>
    dsimp only
    rw [yields_bind]
    refine yields_runQuery fun rel _ => ?_
    rw [yields_bind, yields_get, if_pos (by simp [hret])]
    exact yields_handleInsertImmediate hret (htr _)

end

end

/-! ## Rows by truth value -/

theorem perm_rowsWith : ∀ {rows : List Row} {values : List (Option Bool)}, rows.length = values.length →
    rows.Perm (rowsWith (some true) rows values ++ rowsWith (some false) rows values ++ rowsWith none rows values)
  | [], [], _ => .nil
  | row :: rows, v :: values, h => by
    have ih := List.perm_iff_count.mp (perm_rowsWith (Nat.succ.inj h))
    rw [List.perm_iff_count]
    intro a
    have ih := ih a
    match v with
    | some true | some false | none =>
      simp only [rowsWith_cons, reduceCtorEq, Option.some.injEq, Bool.true_eq_false, Bool.false_eq_true, if_true, if_false,
        List.count_append, List.count_cons] at ih ⊢
      omega

theorem rowsWith_congr : ∀ {rows : List Row} {values after : List (Option Bool)},
    after.map (· = some true) = values.map (· = some true) → rowsWith (some true) rows after = rowsWith (some true) rows values
  | [], _, _, _ => rfl
  | _ :: _, [], after, h => by
    obtain rfl : after = [] := by simpa using h
    rfl
  | row :: rows, v :: values, after, h => by
    cases after with
    | nil => cases h
    | cons w after =>
      rw [List.map_cons, List.map_cons, List.cons.injEq] at h
      rw [rowsWith_cons, rowsWith_cons, rowsWith_congr h.2]
      simp only [h.1]

/-- Truth values that come from the rows and hold wherever others do: there are no fewer of them, and no more only if
they are the same. -/
theorem rowsWith_covers {truth : Row → Except String (Option Bool)} : ∀ {rows : List Row} {values after : List (Option Bool)},
    rows.length = values.length → rows.map truth = after.map .ok →
    (∀ row ∈ rowsWith (some true) rows values, truth row = .ok (some true)) →
    (rowsWith (some true) rows values).length ≤ (rowsWith (some true) rows after).length ∧
    ((rowsWith (some true) rows after).length = (rowsWith (some true) rows values).length →
      after.map (· = some true) = values.map (· = some true))
  | [], values, after, hl, ha, _ => by
    obtain rfl : values = [] := List.length_eq_zero_iff.mp hl.symm
    obtain rfl : after = [] := by simpa using ha.symm
    exact ⟨Nat.le_refl _, fun _ => rfl⟩
  | row :: rows, values, after, hl, ha, hcover => by
    cases values with
    | nil => cases hl
    | cons v values =>
      cases after with
      | nil => cases ha
      | cons w after =>
        rw [List.map_cons, List.map_cons, List.cons.injEq] at ha
        rw [rowsWith_cons] at hcover
        have hrest : ∀ r ∈ rowsWith (some true) rows values, truth r = .ok (some true) := by
          intro r hr
          refine hcover r ?_
          by_cases hv : v = some true
          · rw [if_pos hv]
            exact List.mem_cons_of_mem _ hr
          · rwa [if_neg hv]
        obtain ⟨hle, heq⟩ := rowsWith_covers (Nat.succ.inj hl) ha.2 hrest
        rw [rowsWith_cons, rowsWith_cons]
        by_cases hv : v = some true
        · have hw : w = some true := by
            rw [if_pos hv] at hcover
            exact Except.ok.inj (ha.1.symm.trans (hcover row List.mem_cons_self))
          rw [if_pos hv, if_pos hw]
          refine ⟨Nat.succ_le_succ hle, fun h => ?_⟩
          rw [List.map_cons, List.map_cons, heq (Nat.succ.inj h), hv, hw]
        · rw [if_neg hv]
          by_cases hw : w = some true
          · rw [if_pos hw, List.length_cons]
            exact ⟨by omega, fun h => by omega⟩
          · rw [if_neg hw]
            refine ⟨hle, fun h => ?_⟩
            rw [List.map_cons, List.map_cons, heq h]
            simp only [hv, hw]

theorem truth_of_rowsWith {truth : Row → Except String (Option Bool)} {v : Option Bool} {row : Row} :
    ∀ {rows : List Row} {after : List (Option Bool)}, rows.map truth = after.map .ok → row ∈ rowsWith v rows after →
    truth row = .ok v
  | [], _, _, h => absurd h List.not_mem_nil
  | r :: rows, [], ha, _ => by cases ha
  | r :: rows, w :: after, ha, h => by
    rw [List.map_cons, List.map_cons, List.cons.injEq] at ha
    rw [rowsWith_cons] at h
    by_cases hw : w = v
    · rw [if_pos hw, List.mem_cons] at h
      cases h with
      | inl he => rw [he, ha.1, hw]
      | inr hin => exact truth_of_rowsWith ha.2 hin
    · rw [if_neg hw] at h
      exact truth_of_rowsWith ha.2 h

theorem same_of_perm {truth : Row → Except String (Option Bool)} {rows : List Row} {values after : List (Option Bool)}
    (hl : rows.length = values.length) (ha : rows.map truth = after.map .ok)
    (hp : (rowsWith (some true) rows after).Perm (rowsWith (some true) rows values)) :
    after.map (· = some true) = values.map (· = some true) := by
  refine (rowsWith_covers hl ha fun row hrow => ?_).2 hp.length_eq
  exact truth_of_rowsWith ha (hp.mem_iff.mpr hrow)

theorem rowsWith_all (env : Env) (tables : String → Option Relation) (schema : Schema) (rows : List Row) :
    ∃ values, rows.mapM (env.truth none tables schema) = .ok values ∧ rowsWith (some true) rows values = rows := by
  refine ⟨rows.map fun _ => some true, mapM_ok_iff.mpr ?_, ?_⟩
  · rw [List.map_map]
    rfl
  · induction rows with
    | nil => rfl
    | cons row rows ih => rw [List.map_cons, rowsWith_cons, if_pos rfl, ih]

/-! ## Each statement -/

section
variable {env : Env} {value : Evaluate} {castType : String → Except String String} {IsExpr : String → Prop} {s : Db}
  {answers : String → Schema → Row → Row} {m : TableMeta} {schema : Schema} {values : List (Option Bool)}
  {exec : String → M QueryResult} {sql list : String} {answer : QueryResult}

theorem returnsInserted_handleInsert (hsel : env.SelectsTrue fun list schema rows => rows.map (answers list schema))
    {insert : Insert} (hs : Stored env s insert.table m schema) (hplain : insert.onConflict = none)
    (hret : insert.returning = some list) (htr : ∀ timing, s.catalog.triggersOn insert.table "INSERT" timing = [])
    (hok : (handleInsert env exec sql insert).result s = .ok answer) :
    ReturnsInserted answers s ((handleInsert env exec sql insert).final s) insert.table schema list answer ↔
      s.rows insert.table = [] := by
  obtain ⟨hsame, rel, heval, rfl⟩ := yields_handleInsert hplain hret htr answer hok
  have hrel : ((handleInsert env exec sql insert).final s).relation insert.table =
      some ⟨schema, ((handleInsert env exec sql insert).final s).rows insert.table⟩ := by
    refine @relation_of_lookup _ _ ⟨objPath m.path, schema⟩ ?_
    rw [hsame.ctx, hs.ctx]
  obtain ⟨all, hall, htrue⟩ := rowsWith_all env ((handleInsert env exec sql insert).final s).relation schema
    (((handleInsert env exec sql insert).final s).rows insert.table)
  have hrows := hsel _ _ _ _ _ _ _ hrel heval hall
  dsimp only at hrows
  rw [htrue] at hrows
  unfold ReturnsInserted QueryResult.rows
  dsimp only
  rw [allRows_collect, hrows]
  constructor
  · rintro ⟨inserted, hperm, hanswer⟩
    have h₁ := hperm.length_eq
    have h₂ := hanswer.length_eq
    rw [List.length_append] at h₁
    rw [List.length_map, List.length_map] at h₂
    rw [← List.length_eq_zero_iff]
    omega
  · intro hnil
    exact ⟨_, by rw [hnil, List.nil_append], List.Perm.refl _⟩

theorem returnsDeleted_handleDelete (hsel : env.SelectsTrue fun list schema rows => rows.map (answers list schema))
    {delete : Delete} (hs : Stored env s delete.table m schema)
    (hv : (s.rows delete.table).mapM (env.truth delete.selection s.relation schema) = .ok values)
    (hfk : s.catalog.fkActions delete.table = []) (htr : ∀ timing, s.catalog.triggersOn delete.table "DELETE" timing = [])
    (hret : delete.returning = some list) (hok : (handleDelete env exec delete).result s = .ok answer) :
    ((s.stray delete.table m schema).Perm (rowsWith none (s.rows delete.table) values) →
      ReturnsDeleted answers s ((handleDelete env exec delete).final s) delete.table schema list answer) ∧
    ((answers list schema).Injective →
      ReturnsDeleted answers s ((handleDelete env exec delete).final s) delete.table schema list answer →
        (s.stray delete.table m schema).Perm (rowsWith none (s.rows delete.table) values)) := by
  obtain ⟨hrows, hanswer⟩ := yields_handleDelete hs hv hfk htr hsel answer hok
  rw [hret] at hanswer
  dsimp only at hanswer
  have hlen : (s.rows delete.table).length = values.length := by
    have := congrArg List.length (mapM_ok_iff.mp hv)
    simpa using this
  have hsplit := List.perm_iff_count.mp (perm_rowsWith hlen)
  unfold ReturnsDeleted
  rw [hrows, hanswer]
  constructor
  · intro hnull
    refine ⟨rowsWith (some true) (s.rows delete.table) values, List.perm_iff_count.mpr fun a => ?_, List.Perm.refl _⟩
    have h₁ := hsplit a
    have h₂ := List.perm_iff_count.mp hnull a
    simp only [List.count_append] at h₁ ⊢
    omega
  · rintro hinj ⟨deleted, hperm, htrue⟩
    have htrue := List.perm_iff_count.mp ((List.map_perm_map_iff hinj).mp htrue)
    refine List.perm_iff_count.mpr fun a => ?_
    have h₁ := hsplit a
    have h₂ := List.perm_iff_count.mp hperm a
    have h₃ := htrue a
    simp only [List.count_append] at h₁ h₂
    omega

theorem UpdatedRow.unique {tables : String → Option Relation} {assignments : List Assignment} {old new new' : Row}
    (hschema : columnsToSchema env m.columns = .ok schema) (hn : schema.names.Nodup)
    (h : UpdatedRow env value tables schema m assignments old new)
    (h' : UpdatedRow env value tables schema m assignments old new') : new = new' := by
  refine row_ext hn ?_ ?_ fun n hname => ?_
  · rw [h.1]
    simp [Schema.names]
  · rw [h'.1]
    simp [Schema.names]
  · rw [names_of_columns hschema] at hname
    obtain ⟨c, hc, rfl⟩ := List.mem_map.mp hname
    cases hexprs : assignedExprs assignments c.name with
    | nil => exact ((h.2 c hc).2 hexprs).trans ((h'.2 c hc).2 hexprs).symm
    | cons e es =>
      have hin : e ∈ assignedExprs assignments c.name := hexprs ▸ List.mem_cons_self
      obtain ⟨v, type, hv, htype, hcast⟩ := (h.2 c hc).1 e hin
      obtain ⟨v', type', hv', htype', hcast'⟩ := (h'.2 c hc).1 e hin
      obtain rfl := Except.ok.inj (hv.symm.trans hv')
      obtain rfl := Except.ok.inj (htype.symm.trans htype')
      exact Except.ok.inj (hcast.symm.trans hcast')

theorem UpdatedRows.unique {u : UpdateStatement} {news news' : List Row} (hschema : columnsToSchema env m.columns = .ok schema)
    (hn : schema.names.Nodup) (h : UpdatedRows env value s u schema m values news)
    (h' : UpdatedRows env value s u schema m values news') : news = news' := by
  unfold UpdatedRows at h h'
  generalize (s.rows u.table).zip values = olds at h h'
  induction h generalizing news' with
  | nil =>
    cases h'
    rfl
  | cons hrow _ ih =>
    cases h' with
    | cons hrow' hrest' =>
      rw [ih hrest']
      congr 1
      split at hrow
      · rename_i htrue
        rw [if_pos htrue] at hrow'
        exact hrow.unique hschema hn hrow'
      · rename_i htrue
        rw [if_neg htrue] at hrow'
        exact hrow.trans hrow'.symm

theorem returnsUpdated_handleUpdate (hstd : env.Standard value castType IsExpr)
    (hsel : env.SelectsTrue fun list schema rows => rows.map (answers list schema)) {u : UpdateStatement}
    (hs : Stored env s u.table m schema) (hn : schema.names.Nodup) (hexpr : ∀ a ∈ u.assignments, IsExpr a.value)
    (hread : u.TargetsRead env castType m) (hpath : objPath m.path = objPath u.table) (hap : s.OthersApart u.table)
    (hv : (s.rows u.table).mapM (env.truth u.selection s.relation schema) = .ok values)
    (hdec : DecidesUpdated env value s u schema m values) (htr : s.catalog.triggersOn u.table "UPDATE" "BEFORE" = [])
    (hret : u.returning = some list) (hok : (handleUpdate env exec sql u.read).result s = .ok answer) :
    (StaysTrue env value s u schema m values →
      ReturnsUpdated env value s u schema m values answers ((handleUpdate env exec sql u.read).final s) list answer) ∧
    ((answers list schema).Injective →
      ReturnsUpdated env value s u schema m values answers ((handleUpdate env exec sql u.read).final s) list answer →
        StaysTrue env value s u schema m values) := by
  have hvalues : (s.rows u.table).mapM (env.holds (whereText u.selection) s.relation schema) = .ok values := by
    rw [← hstd.truth_whereText]
    exact hv
  obtain ⟨rows, news, hproj, hcast, hrows, hrel, htables, hanswer⟩ :=
    yields_handleUpdate hstd u.read hs hvalues htr answer hok
  change ((handleUpdate env exec sql u.read).final s).rows u.table = s.stray u.table m schema ++ news at hrows
  have hstray : s.stray u.table m schema = [] := by
    unfold Db.stray
    rw [hpath]
    unfold Store.read
    rw [Store.list_removeDir]
    rfl
  rw [hstray, List.nil_append] at hrows
  have htables := htables hpath hap
  change ((handleUpdate env exec sql u.read).final s).relation =
    s.withRelation u.table schema (((handleUpdate env exec sql u.read).final s).rows u.table) at htables
  have hnews : UpdatedRows env value s u schema m values news :=
    updated_rows hstd hs.columns hn hexpr hread hs.typed hvalues hproj hcast
  have hret : u.read.returning = some list := hret
  rw [hret] at hanswer
  obtain ⟨rel, heval, rfl⟩ := hanswer
  change env.eval (.returning list u.table (some (whereText u.selection))) _ = _ at heval
  change ((handleUpdate env exec sql u.read).final s).relation u.table =
    some ⟨schema, ((handleUpdate env exec sql u.read).final s).rows u.table⟩ at hrel
  rw [hrows] at hrel htables
  -- the answer is what the condition makes of the rows that are there now
  have hanswer : ∀ after, news.mapM (env.truth u.selection (s.withRelation u.table schema news) schema) = .ok after →
      (QueryResult.records rel.collect).rows = (rowsWith (some true) news after).map (answers list schema) := by
    intro after hafter
    rw [hstd.truth_whereText, ← htables] at hafter
    exact (allRows_collect rel).trans (hsel _ _ (some (whereText u.selection)) _ _ _ _ hrel heval hafter)
  constructor
  · intro hstays
    obtain ⟨after, hafter⟩ := hdec news hnews
    refine ⟨news, hnews, hrows ▸ List.Perm.refl _, ?_⟩
    rw [hanswer after hafter, rowsWith_congr (hstays news after hnews hafter)]
  · rintro hinj ⟨news', hnews', -, hperm⟩ news'' after hnews'' hafter
    obtain rfl := hnews'.unique hs.columns hn hnews
    obtain rfl := hnews''.unique hs.columns hn hnews
    rw [hanswer after hafter] at hperm
    refine same_of_perm ?_ (mapM_ok_iff.mp hafter) ((List.map_perm_map_iff hinj).mp hperm)
    have h₁ := hnews.length_eq
    have h₂ := congrArg List.length (mapM_ok_iff.mp hv)
    rw [List.length_zip] at h₁
    simp only [List.length_map] at h₂
    omega

end

/-! ## Exactly the affected rows -/

/-- A SELECT takes the rows on which its condition is TRUE. -/
def returnEnv : Env := { setEnv with
  eval := fun q tables =>
    match q with
    | .user _ => .ok ⟨[⟨"column1", "BOOLEAN", true⟩], [[.bool false]]⟩
    | .returning _ table selection =>
      (tables table).elim (.error "table not found") fun rel => do
        return ⟨rel.schema, rowsWith (some true) rel.rows (← rel.rows.mapM (setHolds.truth selection tables rel.schema))⟩
    | _ => setEnv.eval q tables }

theorem returnEnv_standard : returnEnv.Standard falseValue .ok fun _ => True where
  rewrite := by
    intro table projections tables rel answer hrel heval
    rw [projectRow_congr (show returnEnv.holds = setEnv.holds from rfl)]
    exact setEnv_standard.rewrite _ _ _ _ _ hrel heval
  unconditional _ _ _ := rfl
  cast _ _ _ _ _ _ := rfl
  cast_cast _ _ _ _ := rfl

theorem returnEnv_selectsTrue : returnEnv.SelectsTrue fun _ _ rows => rows.map fun row => row := by
  intro list table selection tables rel answer values hrel heval hv
  have htruth : setHolds.truth selection tables rel.schema = returnEnv.truth selection tables rel.schema := by
    cases selection <;> rfl
  simp only [returnEnv, hrel, Option.elim_some] at heval
  change (rel.rows.mapM (setHolds.truth selection tables rel.schema) >>= fun values =>
    Except.ok (Relation.mk rel.schema (rowsWith (some true) rel.rows values))) = .ok answer at heval
  rw [htruth, hv] at heval
  rw [← Except.ok.inj heval]
  exact (List.map_id' _).symm

/-- `INSERT INTO t VALUES (FALSE) RETURNING a`. -/
def insertReturning : Insert := ⟨"t", [], some "VALUES (FALSE)", some "a", none, ""⟩

/-- `UPDATE t SET a = FALSE RETURNING a`. -/
def updateReturning : UpdateStatement := { setFlag "a" with selection := none, returning := some "a" }

/-- `DELETE FROM t WHERE a RETURNING a`. -/
def deleteReturning : Delete := { deleteFlags with returning := some "a" }

theorem endsReturning_a (head : List Char) : EndsReturning (head ++ " RETURNING a".toList) head ['a'] :=
  ⟨⟨" RETURNING ".toList, ['a'], by rw [List.append_assoc]; rfl, rfl, by decide +kernel⟩, by decide⟩

theorem stays_updateReturning : StaysTrue returnEnv falseValue flagDb updateReturning flagSchema flagMeta [some true] := by
  intro news after hnews hafter
  unfold UpdatedRows at hnews
  rw [show (flagDb.rows updateReturning.table).zip [some true] = [([.bool true], some true)] from by decide +kernel] at hnews
  cases hnews with
  | cons _ hrest =>
    cases hrest
    obtain rfl := Except.ok.inj hafter
    rfl

end PotatoDB
