import PotatoDB.PlanCache
import PotatoDB.RollbackSound

/-!
# When a cached plan answers as a new one

A plan that is kept for a text answers as a plan made now as long as the tables that the text reads
are registered as they were when it was made. Only some statements evict plans, and by the name that
they mutate: each change of a registration has to reach every plan that reads the table.
-/

namespace PotatoDB

open Oplog
open Oplog.Prog (attempt each)

section
variable {P D R : Type} {env : Env} {planner : Planner P D R} {s : PlanningDb P D}

/-- Two contexts have the same tables under the names that a text reads. -/
def Planner.SameTables (planner : Planner P D R) (sql : String) (ctx ctx' : Map P) : Prop :=
  ∀ n, planner.reads sql n → ctx.lookup n = ctx'.lookup n

/-- The tables that the plan kept for a text depends on: those of the text, and of the text it was made from. -/
def Planner.Uses (planner : Planner P D R) (sql : String) (plan : LogicalPlan P) (n : String) : Prop :=
  planner.reads sql n ∨ planner.reads plan.text n

/-! ## Plans made in different states -/

theorem sql_congr {sql : String} {ctx ctx' : Map P} (h : planner.SameTables sql ctx ctx') :
    planner.sql ctx' sql = (planner.plan sql ctx).map fun _ => ⟨sql, ctx'⟩ := by
  unfold Planner.sql
  rw [planner.plan_congr sql ctx ctx' h]
  cases planner.plan sql ctx' <;> rfl

theorem sql_eq_ok {sql : String} {ctx : Map P} {p : LogicalPlan P} (h : planner.sql ctx sql = .ok p) :
    planner.plan sql ctx = .ok () ∧ p = ⟨sql, ctx⟩ := by
  unfold Planner.sql at h
  cases hp : planner.plan sql ctx with
  | error e => rw [hp] at h; cases h
  | ok u => rw [hp] at h; cases h; exact ⟨rfl, rfl⟩

theorem freshPlan_of_sql {sql : String} {ctx : Map P} {p : LogicalPlan P} (h : planner.sql ctx sql = .ok p) :
    planner.freshPlan ctx sql = .ok p := by
  unfold Planner.freshPlan
  rw [h]

/-- Where the tables that a plan uses are the same, planning anew gives a plan that answers the same. -/
theorem freshPlan_congr {sql : String} {ctx ctx' : Map P} {p : LogicalPlan P} (hp : planner.freshPlan ctx sql = .ok p)
    (h : ∀ n, planner.Uses sql p n → ctx.lookup n = ctx'.lookup n) :
    ∃ p', planner.freshPlan ctx' sql = .ok p' ∧ ∀ data, planner.run p' data = planner.run p data := by
  have hsql : planner.sql ctx' sql = (planner.plan sql ctx).map fun _ => ⟨sql, ctx'⟩ :=
    sql_congr fun n hn => h n (.inl hn)
  have hanswer : ∀ text, planner.SameTables text ctx ctx' → ∀ data,
      planner.run ⟨text, ctx'⟩ data = planner.run ⟨text, ctx⟩ data := by
    intro text hsame data
    exact (planner.collect_congr text ctx ctx' data hsame).symm
  unfold Planner.freshPlan at hp ⊢
  rw [hsql]
  cases hplan : planner.plan sql ctx with
  | ok u =>
    have hown : planner.sql ctx sql = .ok ⟨sql, ctx⟩ := by
      unfold Planner.sql
      rw [hplan]
      rfl
    rw [hown] at hp
    obtain rfl := Except.ok.inj hp
    exact ⟨⟨sql, ctx'⟩, rfl, hanswer sql fun n hn => h n (.inl hn)⟩
  | error e =>
    have hown : planner.sql ctx sql = .error e := by
      unfold Planner.sql
      rw [hplan]
      rfl
    rw [hown] at hp
    dsimp only [Except.map] at hp ⊢
    by_cases hduration : containsText "coerce types Duration".toList e.toList
    · rw [if_pos hduration] at hp ⊢
      cases hrewritten : planner.rewriteDateSubtraction sql with
      | none => rw [hrewritten] at hp; cases hp
      | some text =>
        rw [hrewritten] at hp
        obtain ⟨hok, rfl⟩ := sql_eq_ok hp
        have hsame : planner.SameTables text ctx ctx' := fun n hn => h n (.inr hn)
        refine ⟨⟨text, ctx'⟩, ?_, hanswer text hsame⟩
        exact (sql_congr hsame).trans (by rw [hok]; rfl)
    · rw [if_neg hduration] at hp
      cases hp

/-! ## Plans that are up to date -/

/-- A plan is one for the text, made when the tables that it uses were registered as they are now. -/
def UpToDate (planner : Planner P D R) (ctx : Map P) (sql : String) (plan : LogicalPlan P) : Prop :=
  ∃ ctx₀, planner.freshPlan ctx₀ sql = .ok plan ∧ ∀ n, planner.Uses sql plan n → ctx₀.lookup n = ctx.lookup n

theorem upToDate_now {sql : String} {ctx : Map P} {p : LogicalPlan P} (h : planner.freshPlan ctx sql = .ok p) :
    UpToDate planner ctx sql p :=
  ⟨ctx, h, fun _ _ => rfl⟩

theorem UpToDate.mono {sql : String} {ctx ctx' : Map P} {p : LogicalPlan P} (h : UpToDate planner ctx sql p)
    (hsame : ∀ n, planner.Uses sql p n → ctx.lookup n = ctx'.lookup n) : UpToDate planner ctx' sql p := by
  obtain ⟨ctx₀, hp, h₀⟩ := h
  exact ⟨ctx₀, hp, fun n hn => (h₀ n hn).trans (hsame n hn)⟩

theorem UpToDate.answers {sql : String} {p : LogicalPlan P} (h : UpToDate planner s.ctx sql p) :
    planner.run p s.data = s.answerAfresh planner sql := by
  obtain ⟨ctx₀, hp, hsame⟩ := h
  obtain ⟨p', hp', hrun⟩ := freshPlan_congr hp hsame
  unfold PlanningDb.answerAfresh
  rw [hp']
  exact (hrun s.data).symm

/-- Every plan that is kept, in the cache or with a prepared query, is up to date. -/
structure PlanningDb.Fresh (env : Env) (planner : Planner P D R) (s : PlanningDb P D) : Prop where
  cached : ∀ sql p, s.planCache.lookup sql = some p → UpToDate planner s.ctx sql p
  prepared : ∀ name st p, s.preparedStatements.lookup name = some st → isReadOnlySql env st.sqlTemplate = true →
    st.logicalPlan = some p → UpToDate planner s.ctx st.sqlTemplate p

/-! ## One step -/

/-- Whenever a statement changes how a table is registered, it evicts every cached plan that uses the table, and no
prepared query uses it. -/
def PlanEvent.ReachesPlans (env : Env) (planner : Planner P D R) (s : PlanningDb P D) : PlanEvent P D → Prop
  | .statement stmt succeeds ctx _ => ∀ n, s.ctx.lookup n ≠ ctx.lookup n →
      (∀ sql p, s.planCache.lookup sql = some p → planner.Uses sql p n →
        stmt.isMutating = true ∧ succeeds = true ∧
          ∀ name, stmt.extractMutatedTable = some name → containsText name.toList sql.toList = true) ∧
      ∀ name st p, s.preparedStatements.lookup name = some st → isReadOnlySql env st.sqlTemplate = true →
        st.logicalPlan = some p → ¬ planner.Uses st.sqlTemplate p n
  | _ => True

theorem evict_lookup {sql : String} {p : LogicalPlan P} {table : Option String}
    (h : (s.evictPlanCache table).planCache.lookup sql = some p) :
    s.planCache.lookup sql = some p ∧ ∃ name, table = some name ∧ containsText name.toList sql.toList = false := by
  cases table with
  | none => cases h
  | some name =>
    obtain ⟨hp, hkeep⟩ := Map.lookup_retain h
    exact ⟨hp, name, rfl, by simpa using hkeep⟩

/-! What a query leaves -/

theorem tables_planAndCollect (sql : String) :
    (s.planAndCollect planner sql).2.ctx = s.ctx ∧ (s.planAndCollect planner sql).2.data = s.data := by
  unfold PlanningDb.planAndCollect
  cases planner.freshPlan s.ctx sql with
  | error e => exact ⟨rfl, rfl⟩
  | ok p =>
    dsimp only
    cases planner.run p s.data <;> exact ⟨rfl, rfl⟩

theorem tables_collectWithPlanCache (sql : String) :
    (s.collectWithPlanCache env planner sql).2.ctx = s.ctx ∧
      (s.collectWithPlanCache env planner sql).2.data = s.data := by
  unfold PlanningDb.collectWithPlanCache
  split
  · cases s.planCache.lookup sql with
    | none => exact tables_planAndCollect sql
    | some p =>
      dsimp only
      cases planner.run p s.data with
      | ok r => exact ⟨rfl, rfl⟩
      | error e => exact tables_planAndCollect sql
  · exact ⟨rfl, rfl⟩

theorem prepared_planAndCollect (sql : String) :
    (s.planAndCollect planner sql).2.preparedStatements = s.preparedStatements := by
  unfold PlanningDb.planAndCollect
  cases planner.freshPlan s.ctx sql with
  | error e => rfl
  | ok p =>
    dsimp only
    cases planner.run p s.data <;> rfl

theorem prepared_collectWithPlanCache (sql : String) :
    (s.collectWithPlanCache env planner sql).2.preparedStatements = s.preparedStatements := by
  unfold PlanningDb.collectWithPlanCache
  split
  · cases s.planCache.lookup sql with
    | none => exact prepared_planAndCollect sql
    | some p =>
      dsimp only
      cases planner.run p s.data with
      | ok r => rfl
      | error e => exact prepared_planAndCollect sql
  · rfl

/-- A plan in the cache was there before, or has just been made. -/
theorem cached_planAndCollect {sql sql' : String} {p : LogicalPlan P}
    (h : (s.planAndCollect planner sql).2.planCache.lookup sql' = some p) :
    s.planCache.lookup sql' = some p ∨ planner.freshPlan s.ctx sql' = .ok p := by
  unfold PlanningDb.planAndCollect at h
  cases hplan : planner.freshPlan s.ctx sql with
  | error e =>
    rw [hplan] at h
    exact .inl h
  | ok plan =>
    rw [hplan] at h
    dsimp only at h
    cases hrun : planner.run plan s.data with
    | error e =>
      rw [hrun] at h
      exact .inl h
    | ok r =>
      rw [hrun] at h
      by_cases hsql : sql' = sql
      · subst hsql
        obtain rfl := Option.some.inj ((AList.lookup_insert _).symm.trans h)
        exact .inr hplan
      · exact .inl ((AList.lookup_insert_ne hsql).symm.trans h)

theorem cached_collectWithPlanCache {sql sql' : String} {p : LogicalPlan P}
    (h : (s.collectWithPlanCache env planner sql).2.planCache.lookup sql' = some p) :
    s.planCache.lookup sql' = some p ∨ planner.freshPlan s.ctx sql' = .ok p := by
  unfold PlanningDb.collectWithPlanCache at h
  by_cases hread : isReadOnlySql env sql = true
  · rw [if_pos hread] at h
    cases hplan : s.planCache.lookup sql with
    | none =>
      rw [hplan] at h
      exact cached_planAndCollect h
    | some plan =>
      rw [hplan] at h
      dsimp only at h
      cases hrun : planner.run plan s.data with
      | ok r =>
        rw [hrun] at h
        exact .inl h
      | error e =>
        rw [hrun] at h
        obtain hold | hnew := cached_planAndCollect h
        · by_cases hsql : sql' = sql
          · subst hsql
            rw [AList.lookup_erase] at hold
            cases hold
          · exact .inl ((AList.lookup_erase_ne hsql).symm.trans hold)
        · exact .inr hnew
  · rw [if_neg hread] at h
    exact .inl h

/-! What PREPARE leaves -/

theorem stored_freshPlan {ctx : Map P} {sql : String} {p : LogicalPlan P}
    (h : (planner.sql ctx sql).toOption = some p) : planner.freshPlan ctx sql = .ok p := by
  cases hsql : planner.sql ctx sql with
  | error e => rw [hsql] at h; cases h
  | ok p' =>
    rw [hsql] at h
    obtain rfl := Option.some.inj h
    exact freshPlan_of_sql hsql

theorem cached_handlePrepare {name sqlTemplate sql : String} {p : LogicalPlan P}
    (h : (s.handlePrepare env planner name sqlTemplate).planCache.lookup sql = some p) :
    s.planCache.lookup sql = some p ∨ planner.freshPlan s.ctx sql = .ok p := by
  unfold PlanningDb.handlePrepare at h
  dsimp only at h
  split at h
  · rename_i p' hnew
    by_cases hsql : sql = sqlTemplate
    · subst hsql
      obtain rfl := Option.some.inj ((AList.lookup_insert _).symm.trans h)
      exact .inr (stored_freshPlan hnew)
    · exact .inl ((AList.lookup_insert_ne hsql).symm.trans h)
  · exact .inl h

theorem ctx_handlePrepare (name sqlTemplate : String) : (s.handlePrepare env planner name sqlTemplate).ctx = s.ctx := by
  unfold PlanningDb.handlePrepare
  dsimp only
  split <;> rfl

theorem prepared_handlePrepare (name sqlTemplate : String) :
    (s.handlePrepare env planner name sqlTemplate).preparedStatements =
      s.preparedStatements.insert name ⟨sqlTemplate, (planner.sql s.ctx sqlTemplate).toOption⟩ := by
  unfold PlanningDb.handlePrepare
  dsimp only
  split <;> rfl

/-! Plans stay up to date -/

theorem PlanningDb.Fresh.cached_of (h : s.Fresh env planner) {sql : String} {p : LogicalPlan P}
    (hp : s.planCache.lookup sql = some p ∨ planner.freshPlan s.ctx sql = .ok p) : UpToDate planner s.ctx sql p := by
  obtain hold | hnew := hp
  · exact h.cached sql p hold
  · exact upToDate_now hnew

theorem fresh_collectWithPlanCache (h : s.Fresh env planner) (sql : String) :
    (s.collectWithPlanCache env planner sql).2.Fresh env planner := by
  constructor
  · intro sql' p hp
    rw [(tables_collectWithPlanCache sql).1]
    exact h.cached_of (cached_collectWithPlanCache hp)
  · intro name st p hst
    rw [(tables_collectWithPlanCache sql).1]
    rw [prepared_collectWithPlanCache] at hst
    exact h.prepared name st p hst

theorem fresh_handlePrepare (h : s.Fresh env planner) (name sqlTemplate : String) :
    (s.handlePrepare env planner name sqlTemplate).Fresh env planner := by
  constructor
  · intro sql p hp
    rw [ctx_handlePrepare]
    exact h.cached_of (cached_handlePrepare hp)
  · intro name' st p hst hread hp
    rw [ctx_handlePrepare]
    rw [prepared_handlePrepare] at hst
    by_cases hname : name' = name
    · subst hname
      obtain rfl := Option.some.inj ((AList.lookup_insert _).symm.trans hst)
      exact upToDate_now (stored_freshPlan hp)
    · exact h.prepared name' st p ((AList.lookup_insert_ne hname).symm.trans hst) hread hp

theorem fresh_statement (h : s.Fresh env planner) {stmt : PlannedStatement} {succeeds : Bool} {ctx : Map P} {data : D}
    (hreach : (PlanEvent.statement stmt succeeds ctx data).ReachesPlans env planner s) :
    (s.step env planner (.statement stmt succeeds ctx data)).Fresh env planner := by
  have hprepared : ∀ name st p, s.preparedStatements.lookup name = some st → isReadOnlySql env st.sqlTemplate = true →
      st.logicalPlan = some p → UpToDate planner ctx st.sqlTemplate p := by
    intro name st p hst hread hp
    refine (h.prepared name st p hst hread hp).mono fun n hn => ?_
    by_contra hne
    exact (hreach n hne).2 name st p hst hread hp hn
  unfold PlanningDb.step
  dsimp only
  by_cases hevicts : (stmt.isMutating && succeeds) = true
  · rw [if_pos hevicts]
    constructor
    · intro sql p hp
      obtain ⟨hp, name, hname, hmiss⟩ := evict_lookup hp
      have hctx : (PlanningDb.evictPlanCache { s with ctx := ctx, data := data } stmt.extractMutatedTable).ctx = ctx := by
        rw [hname]
        rfl
      rw [hctx]
      refine (h.cached sql p hp).mono fun n hn => ?_
      by_contra hne
      obtain ⟨-, -, hoccurs⟩ := (hreach n hne).1 sql p hp hn
      rw [hoccurs name hname] at hmiss
      cases hmiss
    · cases stmt.extractMutatedTable <;> exact hprepared
  · rw [if_neg hevicts]
    constructor
    · intro sql p hp
      refine (h.cached sql p hp).mono fun n hn => ?_
      by_contra hne
      obtain ⟨hmutating, hok, -⟩ := (hreach n hne).1 sql p hp hn
      exact hevicts (by rw [hmutating, hok]; rfl)
    · exact hprepared

theorem fresh_step (h : s.Fresh env planner) {e : PlanEvent P D} (hreach : e.ReachesPlans env planner s) :
    (s.step env planner e).Fresh env planner := by
  cases e with
  | statement stmt succeeds ctx data => exact fresh_statement h hreach
  | collect sql => exact fresh_collectWithPlanCache h sql
  | prepare name sqlTemplate => exact fresh_handlePrepare h name sqlTemplate

/-! ## Runs -/

/-- The states of runs in which every change of a table reaches the plans that use it. -/
inductive PlansReached (env : Env) (planner : Planner P D R) : PlanningDb P D → Prop
  | start (ctx : Map P) (data : D) : PlansReached env planner ⟨ctx, data, ∅, ∅⟩
  | step {s : PlanningDb P D} {e : PlanEvent P D} (h : PlansReached env planner s)
      (hreach : e.ReachesPlans env planner s) : PlansReached env planner (s.step env planner e)

theorem PlansReached.fresh (h : PlansReached env planner s) : s.Fresh env planner := by
  induction h with
  | start ctx data =>
    constructor
    · intro sql p hp
      cases hp
    · intro name st p hst
      cases hst
  | step _ hreach ih => exact fresh_step ih hreach

theorem answer_planAndCollect (sql : String) : (s.planAndCollect planner sql).1 = s.answerAfresh planner sql := by
  unfold PlanningDb.planAndCollect PlanningDb.answerAfresh
  cases planner.freshPlan s.ctx sql with
  | error e => rfl
  | ok p =>
    dsimp only [bind, Except.bind]
    cases planner.run p s.data <;> rfl

/-- Where the plan kept for a text, if there is one, is up to date, the text is answered as when it is planned anew. -/
theorem answer_collectWithPlanCache {sql : String}
    (h : ∀ p, s.planCache.lookup sql = some p → UpToDate planner s.ctx sql p) :
    (s.collectWithPlanCache env planner sql).1 = s.answerAfresh planner sql := by
  unfold PlanningDb.collectWithPlanCache
  by_cases hread : isReadOnlySql env sql = true
  · rw [if_pos hread]
    cases hplan : s.planCache.lookup sql with
    | none => exact answer_planAndCollect sql
    | some p =>
      have hanswer := (h p hplan).answers
      dsimp only
      cases hrun : planner.run p s.data with
      | ok r => rw [← hanswer, hrun]
      | error e => exact answer_planAndCollect sql
  · rw [if_neg hread]

/-- **Cached and stored plans answer as the text does when it is planned anew.** -/
theorem plans_answer_afresh (h : PlansReached env planner s) :
    (∀ sql, (s.collectWithPlanCache env planner sql).1 = s.answerAfresh planner sql) ∧
      ∀ name st r, s.preparedStatements.lookup name = some st → s.executePrepared env planner name = some r →
        r = s.answerAfresh planner st.sqlTemplate := by
  constructor
  · intro sql
    exact answer_collectWithPlanCache fun p hp => h.fresh.cached sql p hp
  · intro name st r hst hr
    unfold PlanningDb.executePrepared at hr
    rw [hst] at hr
    dsimp only at hr
    by_cases hread : isReadOnlySql env st.sqlTemplate = true
    · rw [if_pos hread, Option.map_eq_some_iff] at hr
      obtain ⟨p, hp, rfl⟩ := hr
      exact (h.fresh.prepared name st p hst hread hp).answers
    · rw [if_neg hread] at hr
      cases hr

end

/-! ## The engine's sessions -/

section
variable {P D R : Type} {env : Env} {planner : Planner P D R} {s : PlanningDb P D}

def PlanningDb.run (env : Env) (planner : Planner P D R) (s : PlanningDb P D) (events : List (PlanEvent P D)) :
    PlanningDb P D :=
  events.foldl (PlanningDb.step env planner) s

theorem tables_statement (stmt : PlannedStatement) (succeeds : Bool) (ctx : Map P) (data : D) :
    (s.step env planner (.statement stmt succeeds ctx data)).ctx = ctx ∧
      (s.step env planner (.statement stmt succeeds ctx data)).data = data := by
  unfold PlanningDb.step
  dsimp only
  split
  · cases stmt.extractMutatedTable <;> exact ⟨rfl, rfl⟩
  · exact ⟨rfl, rfl⟩

end

section
variable (env : Env) (fuel : Nat) (parsed : String → PlannedStatement)

/-- What statements of the engine do to the plans: each leaves its tables, and a query is then collected. -/
def sessionEvents : Db → List String → List (PlanEvent Provider Store)
  | _, [] => []
  | db, sql :: sqls =>
    let handled := execute env fuel sql
    let after := handled.final db
    .statement (parsed sql) (handled.result db).toBool after.ctx after.store ::
      ((if env.parse sql = .query then [.collect sql] else []) ++ sessionEvents after sqls)

variable {R : Type} (planner : Planner Provider Store R)

/-- The plans are made and run on the tables and the files that the engine has. -/
theorem tables_sessionEvents (sqls : List String) (db : Db) (s : PlanningDb Provider Store) (hctx : s.ctx = db.ctx)
    (hdata : s.data = db.store) :
    (s.run env planner (sessionEvents env fuel parsed db sqls)).ctx = ((statements env fuel sqls).final db).ctx ∧
      (s.run env planner (sessionEvents env fuel parsed db sqls)).data = ((statements env fuel sqls).final db).store := by
  induction sqls generalizing db s with
  | nil => exact ⟨hctx, hdata⟩
  | cons sql sqls ih =>
    let left := (execute env fuel sql).final db
    let moved := s.step env planner (.statement (parsed sql) ((execute env fuel sql).result db).toBool left.ctx left.store)
    have hstatement : moved.ctx = left.ctx ∧ moved.data = left.store := tables_statement _ _ _ _
    have hfinal : (statements env fuel (sql :: sqls)).final db =
        (statements env fuel sqls).final ((execute env fuel sql).final db) := by
      unfold statements
      conv_lhs => unfold Prog.each
      rw [Prog.final_bind, Prog.final_bind]
      rfl
    rw [hfinal]
    unfold sessionEvents PlanningDb.run
    rw [List.foldl_cons, List.foldl_append]
    split
    · rw [List.foldl_cons, List.foldl_nil]
      have hcollect : (moved.collectWithPlanCache env planner sql).2.ctx = moved.ctx ∧
          (moved.collectWithPlanCache env planner sql).2.data = moved.data := tables_collectWithPlanCache sql
      exact ih _ _ (hcollect.1.trans hstatement.1) (hcollect.2.trans hstatement.2)
    · exact ih _ _ hstatement.1 hstatement.2

end

/-! ## ALTER TABLE in a transaction -/

/-- The table after FROM. -/
def tableOf (sql : String) : String := String.ofList ((textAfter " FROM ".toList sql.toList).getD [])

/-- Every query is `SELECT * FROM` a table. -/
def tableReader : Planner Provider Store Relation where
  plan := fun sql ctx => if (ctx.lookup (tableOf sql)).isSome then .ok () else .error "table not found"
  collect := fun sql ctx store =>
    match ctx.lookup (tableOf sql) with
    | some p => .ok ⟨p.schema, store.read p.dir (p.schema.map (·.name))⟩
    | none => .error "table not found"
  reads := fun sql n => n = tableOf sql
  plan_congr := by
    intro sql ctx ctx' h
    rw [h _ rfl]
  collect_congr := by
    intro sql ctx ctx' data h
    rw [h _ rfl]
  rewriteDateSubtraction := fun _ => none

/-- The session adds a column to `t` in a transaction, queries `t` and rolls back. -/
def alterEnv : Env := { flagEnv with
  parse := fun sql =>
    if sql = "ALTER TABLE t ADD COLUMN b BOOLEAN" then
      .alterTable ⟨"t", [.addColumn ⟨"b", "BOOLEAN", true⟩ false], false, none, none⟩
    else flagEnv.parse sql }

def alterParsed (sql : String) : PlannedStatement :=
  if sql = "ALTER TABLE t ADD COLUMN b BOOLEAN" then .alterTable "t" else .other

def planned (sqls : List String) : PlanningDb Provider Store :=
  PlanningDb.run alterEnv tableReader ⟨flagDb.ctx, flagDb.store, ∅, ∅⟩ (sessionEvents alterEnv 1 alterParsed flagDb sqls)

/-- The session with the query cached, and then the column added. -/
def cachedSession : PlanningDb Provider Store :=
  PlanningDb.step alterEnv tableReader ⟨flagDb.ctx, flagDb.store, ∅, ∅⟩ (.collect "SELECT * FROM t")

def alteredSession : PlanningDb Provider Store :=
  let after := (execute alterEnv 1 "ALTER TABLE t ADD COLUMN b BOOLEAN").final flagDb
  cachedSession.step alterEnv tableReader (.statement (.alterTable "t") true after.ctx after.store)

theorem alteredSession_reached : PlansReached alterEnv tableReader alteredSession := by
  have hcached : PlansReached alterEnv tableReader cachedSession :=
    .step (e := .collect "SELECT * FROM t") (.start flagDb.ctx flagDb.store) trivial
  let after := (execute alterEnv 1 "ALTER TABLE t ADD COLUMN b BOOLEAN").final flagDb
  refine .step (e := .statement (.alterTable "t") true after.ctx after.store) hcached fun n _ => ⟨?_, ?_⟩
  · intro sql p hp _
    have hkeys : cachedSession.planCache.keys = ["SELECT * FROM t"] := by decide +kernel
    have hin : sql ∈ cachedSession.planCache := Map.mem_iff_lookup.mpr ⟨p, hp⟩
    rw [AList.mem_keys, hkeys, List.mem_singleton] at hin
    subst hin
    refine ⟨rfl, rfl, fun name hname => ?_⟩
    obtain rfl := Option.some.inj hname
    decide
  · intro name st p hst
    have hkeys : cachedSession.preparedStatements.keys = [] := by decide +kernel
    have hin : name ∈ cachedSession.preparedStatements := Map.mem_iff_lookup.mpr ⟨st, hst⟩
    rw [AList.mem_keys, hkeys] at hin
    cases hin

/-- **After the ROLLBACK the query still answers with the column.** -/
theorem rollback_keeps_plan :
    let s := planned ["BEGIN", "ALTER TABLE t ADD COLUMN b BOOLEAN", "SELECT * FROM t", "ROLLBACK"]
    (s.collectWithPlanCache alterEnv tableReader "SELECT * FROM t").1 ≠ s.answerAfresh tableReader "SELECT * FROM t" := by
  decide +kernel

/-- ALTER TABLE on its own evicts the plan. -/
theorem alter_evicts_plan :
    (∀ sql, (alteredSession.collectWithPlanCache alterEnv tableReader sql).1 =
      alteredSession.answerAfresh tableReader sql) ∧
      ∀ name st r, alteredSession.preparedStatements.lookup name = some st →
        alteredSession.executePrepared alterEnv tableReader name = some r →
          r = alteredSession.answerAfresh tableReader st.sqlTemplate :=
  plans_answer_afresh alteredSession_reached

end PotatoDB
