import PotatoDB.PlanCacheSound
import PotatoDB.TimeTravel

/-!
# When a query about a point in time sees a snapshot

The answer is that of the query on the tables of the snapshot alone, as long as the replacements in
its text rename the tables it refers to and nothing else, and the plan that is kept for the new text
was not made for other contents.
-/

namespace PotatoDB

/-! ## Which snapshot -/

/-- The last of the latest snapshots that are not after a time. -/
def IsLatest (snapshots : List DbSnapshot) (timestampMs : Int) (snapshot : DbSnapshot) : Prop :=
  ∃ before after, snapshots = before ++ snapshot :: after ∧ snapshot.timestampMs ≤ timestampMs ∧
    (∀ s ∈ before, s.timestampMs ≤ timestampMs → s.timestampMs ≤ snapshot.timestampMs) ∧
    ∀ s ∈ after, s.timestampMs ≤ timestampMs → s.timestampMs < snapshot.timestampMs

theorem later_bounded {bound : Int} {ss : List DbSnapshot} {best : Option DbSnapshot}
    (hbest : ∀ b, best = some b → b.timestampMs ≤ bound) (h : ∀ s ∈ ss, s.timestampMs ≤ bound) :
    ∀ b, ss.foldl later best = some b → b.timestampMs ≤ bound := by
  induction ss generalizing best with
  | nil => exact hbest
  | cons s ss ih =>
    rw [List.foldl_cons]
    refine ih ?_ fun s' hs' => h s' (List.mem_cons_of_mem s hs')
    intro b hb
    have hs := h s List.mem_cons_self
    cases best with
    | none =>
      obtain rfl := Option.some.inj hb
      exact hs
    | some b' =>
      unfold later at hb
      dsimp only at hb
      split at hb
      · obtain rfl := Option.some.inj hb
        exact hs
      · obtain rfl := Option.some.inj hb
        exact hbest b' rfl

theorem later_stays {snapshot : DbSnapshot} {ss : List DbSnapshot} (h : ∀ s ∈ ss, s.timestampMs < snapshot.timestampMs) :
    ss.foldl later (some snapshot) = some snapshot := by
  induction ss with
  | nil => rfl
  | cons s ss ih =>
    have hs := h s List.mem_cons_self
    have hnext : later (some snapshot) s = some snapshot := if_neg (by omega)
    rw [List.foldl_cons, hnext]
    exact ih fun s' hs' => h s' (List.mem_cons_of_mem s hs')

section
variable {P D Q : Type} {s : TimeTravelDb P D} {timestampMs : Int}

theorem snapshotAsOf_of_isLatest {snapshot : DbSnapshot} (h : IsLatest s.snapshots timestampMs snapshot) :
    s.snapshotAsOf timestampMs = some snapshot := by
  obtain ⟨before, after, hsplit, htime, hbefore, hafter⟩ := h
  show (s.snapshots.filter (·.timestampMs ≤ timestampMs)).foldl later none = some snapshot
  rw [hsplit, List.filter_append, List.filter_cons_of_pos (by simpa using htime), List.foldl_append, List.foldl_cons]
  have hnext : ∀ best : Option DbSnapshot, (∀ b, best = some b → b.timestampMs ≤ snapshot.timestampMs) →
      later best snapshot = some snapshot := by
    intro best hbest
    cases best with
    | none => rfl
    | some b => exact if_pos (hbest b rfl)
  rw [hnext]
  · refine later_stays fun s hs => ?_
    obtain ⟨hin, hle⟩ := List.mem_filter.mp hs
    exact hafter s hin (by simpa using hle)
  · refine later_bounded (fun b hb => ?_) fun s hs => ?_
    · cases hb
    · obtain ⟨hin, hle⟩ := List.mem_filter.mp hs
      exact hbefore s hin (by simpa using hle)

theorem snapshotAsOf_none (h : ∀ snapshot ∈ s.snapshots, timestampMs < snapshot.timestampMs) :
    s.snapshotAsOf timestampMs = none := by
  unfold TimeTravelDb.snapshotAsOf
  rw [List.filter_eq_nil_iff.mpr fun snapshot hin => by simpa using h snapshot hin]
  rfl

end

/-! ## Renamed queries -/

section
variable {P D Q R : Type} {front : SqlFront P D Q R}

def ParsedQuery.rename (σ : String → String) (q : ParsedQuery Q) : ParsedQuery Q := ⟨q.tables.map σ, q.body⟩

/-- A text is that of a query with its tables renamed. -/
def SqlFront.Renames (front : SqlFront P D Q R) (σ : String → String) (sql sql' : String) : Prop :=
  ∃ q, front.parse sql = .ok q ∧ front.parse sql' = .ok (q.rename σ)

/-- The same, for the texts and for what they become when an interval has been taken for a number. -/
structure SqlFront.RenamesAll (front : SqlFront P D Q R) (σ : String → String) (sql sql' : String) : Prop where
  text : front.Renames σ sql sql'
  dates : (front.rewriteDateSubtraction sql = none ∧ front.rewriteDateSubtraction sql' = none) ∨
    ∃ dated dated', front.rewriteDateSubtraction sql = some dated ∧ front.rewriteDateSubtraction sql' = some dated' ∧
      front.Renames σ dated dated'

/-- The tables that answering a text can depend on. -/
def SqlFront.Mentions (front : SqlFront P D Q R) (sql n : String) : Prop :=
  front.Refers sql n ∨ ∃ dated, front.rewriteDateSubtraction sql = some dated ∧ front.Refers dated n

variable {σ : String → String} {ctx ctx' : Map P}

theorem tables_renamed {sql sql' : String} (h : front.Renames σ sql sql')
    (hctx : ∀ n, front.Refers sql n → ctx.lookup n = ctx'.lookup (σ n)) :
    ∃ q, front.parse sql = .ok q ∧ front.parse sql' = .ok (q.rename σ) ∧
      (q.rename σ).tables.map ctx'.lookup = q.tables.map ctx.lookup := by
  obtain ⟨q, hq, hq'⟩ := h
  refine ⟨q, hq, hq', ?_⟩
  unfold ParsedQuery.rename
  rw [List.map_map]
  exact List.map_congr_left fun n hn => (hctx n ⟨q, hq, hn⟩).symm

theorem plan_renamed {sql sql' : String} (h : front.Renames σ sql sql')
    (hctx : ∀ n, front.Refers sql n → ctx.lookup n = ctx'.lookup (σ n)) :
    front.planner.plan sql' ctx' = front.planner.plan sql ctx := by
  obtain ⟨q, hq, hq', htables⟩ := tables_renamed h hctx
  unfold SqlFront.planner
  dsimp only
  rw [hq, hq']
  dsimp only
  rw [htables]
  rfl

theorem run_renamed {sql sql' : String} (h : front.Renames σ sql sql')
    (hctx : ∀ n, front.Refers sql n → ctx.lookup n = ctx'.lookup (σ n)) (data : D) :
    front.planner.run ⟨sql', ctx'⟩ data = front.planner.run ⟨sql, ctx⟩ data := by
  obtain ⟨q, hq, hq', htables⟩ := tables_renamed h hctx
  unfold SqlFront.planner Planner.run
  dsimp only
  rw [hq, hq']
  dsimp only
  rw [htables]
  rfl

theorem rewriteDateSubtraction_planner : front.planner.rewriteDateSubtraction = front.rewriteDateSubtraction := rfl

/-- A renamed query over renamed tables answers as the query does. -/
theorem answer_renamed {sql sql' : String} (h : front.RenamesAll σ sql sql')
    (hctx : ∀ n, front.Mentions sql n → ctx.lookup n = ctx'.lookup (σ n)) {s : PlanningDb P D} :
    PlanningDb.answerAfresh front.planner { s with ctx := ctx' } sql' =
      PlanningDb.answerAfresh front.planner { s with ctx := ctx } sql := by
  have htext : ∀ n, front.Refers sql n → ctx.lookup n = ctx'.lookup (σ n) := fun n hn => hctx n (.inl hn)
  have hplan := plan_renamed h.text htext
  unfold PlanningDb.answerAfresh Planner.freshPlan Planner.sql
  dsimp only
  rw [hplan]
  cases hp : front.planner.plan sql ctx with
  | ok u => exact run_renamed h.text htext s.data
  | error e =>
    dsimp only [bind, Except.bind]
    by_cases hduration : containsText "coerce types Duration".toList e.toList
    · rw [if_pos hduration, if_pos hduration, rewriteDateSubtraction_planner]
      obtain ⟨hnone, hnone'⟩ | ⟨dated, dated', hsome, hsome', hdates⟩ := h.dates
      · rw [hnone, hnone']
      · rw [hsome, hsome']
        have hdated : ∀ n, front.Refers dated n → ctx.lookup n = ctx'.lookup (σ n) :=
          fun n hn => hctx n (.inr ⟨dated, hsome, hn⟩)
        dsimp only
        rw [plan_renamed hdates hdated]
        cases front.planner.plan dated ctx with
        | error e => rfl
        | ok u => exact run_renamed hdates hdated s.data
    · rw [if_neg hduration, if_neg hduration]

end

/-! ## The tables of a snapshot -/

theorem asofName_injective {t u : String} (h : asofName t = asofName u) : t = u := by
  have hlist := congrArg String.toList h
  unfold asofName at hlist
  rw [String.toList_append, String.toList_append] at hlist
  exact String.ext (List.append_cancel_left hlist)

section
variable {P : Type} {ctx : Map P} {rs : List (String × P)}

theorem lookup_insertAsof_of_not {n : String} (h : ∀ r ∈ rs, n ≠ asofName r.1) :
    (rs.foldl (fun ctx r => ctx.insert (asofName r.1) r.2) ctx).lookup n = ctx.lookup n := by
  induction rs generalizing ctx with
  | nil => rfl
  | cons r rs ih =>
    rw [List.foldl_cons, ih fun r' hr' => h r' (List.mem_cons_of_mem r hr')]
    exact AList.lookup_insert_ne (h r List.mem_cons_self)

/-- No name is taken, so every table is registered. -/
theorem registerAsOf_eq (hnodup : (rs.map (·.1)).Nodup) (hfree : ∀ r ∈ rs, ctx.lookup (asofName r.1) = none) :
    registerAsOf ctx rs = (rs.foldl (fun ctx r => ctx.insert (asofName r.1) r.2) ctx, true) := by
  induction rs generalizing ctx with
  | nil => rfl
  | cons r rs ih =>
    rw [List.map_cons, List.nodup_cons] at hnodup
    unfold registerAsOf
    rw [hfree r List.mem_cons_self]
    refine (if_neg (by simp)).trans (ih hnodup.2 fun r' hr' => ?_)
    refine (AList.lookup_insert_ne fun heq => ?_).trans (hfree r' (List.mem_cons_of_mem r hr'))
    exact hnodup.1 (List.mem_map.mpr ⟨r', hr', asofName_injective heq⟩)

theorem lookup_insertAsof {n : String} {p : P} (hnodup : (rs.map (·.1)).Nodup) (hin : (n, p) ∈ rs) :
    (rs.foldl (fun ctx r => ctx.insert (asofName r.1) r.2) ctx).lookup (asofName n) = some p := by
  induction rs generalizing ctx with
  | nil => cases hin
  | cons r rs ih =>
    rw [List.map_cons, List.nodup_cons] at hnodup
    rw [List.foldl_cons]
    obtain rfl | hin := List.mem_cons.mp hin
    · rw [lookup_insertAsof_of_not]
      · exact AList.lookup_insert _
      · intro r' hr' heq
        exact hnodup.1 (List.mem_map.mpr ⟨r', hr', (asofName_injective heq).symm⟩)
    · exact ih hnodup.2 hin

end

section
variable {P D Q : Type} {env : Env} {front : SqlFront P D Q (List RecordBatch)}
variable {memTable : Schema → List RecordBatch → P} {hash : HashOrder} {s : TimeTravelDb P D} {snapshot : DbSnapshot}

/-- What a snapshot says of each of its tables. -/
def DbSnapshot.contents (memTable : Schema → List RecordBatch → P) (snapshot : DbSnapshot) : Map P :=
  snapshot.tables.mapValues fun table batches =>
    memTable ((batches.head?.map (·.schema)).getD ((snapshot.columns.lookup table).getD [])) batches

/-- The answer of a query on the tables of a snapshot, and no others. -/
def TimeTravelDb.answerOn (front : SqlFront P D Q (List RecordBatch)) (memTable : Schema → List RecordBatch → P)
    (s : TimeTravelDb P D) (snapshot : DbSnapshot) (sql : String) : Except String (List RecordBatch) :=
  PlanningDb.answerAfresh front.planner { s.planning with ctx := snapshot.contents memTable } sql

theorem registrations_nodup : ((s.registrations memTable hash snapshot).map (·.1)).Nodup := by
  have hkeys : ((hash.order snapshot.tables.pairs).map (·.1)).Nodup := by
    refine ((hash.perm snapshot.tables.pairs).map (·.1)).nodup_iff.mpr ?_
    rw [Map.pairs_keys]
    exact snapshot.tables.nodupKeys
  refine hkeys.sublist ?_
  unfold TimeTravelDb.registrations
  generalize hash.order snapshot.tables.pairs = entries
  induction entries with
  | nil => exact List.Sublist.refl _
  | cons e es ih =>
    rw [List.filterMap_cons, List.map_cons]
    dsimp only
    cases e.2.head? with
    | some first => exact ih.cons_cons e.1
    | none =>
      cases s.tables.lookup e.1 with
      | none => exact ih.cons e.1
      | some schema => exact ih.cons_cons e.1

theorem mem_registrations {n : String} {p : P} :
    (n, p) ∈ s.registrations memTable hash snapshot ↔ ∃ batches, snapshot.tables.lookup n = some batches ∧
      ((∃ first, batches.head? = some first ∧ p = memTable first.schema batches) ∨
        batches.head? = none ∧ ∃ schema, s.tables.lookup n = some schema ∧ p = memTable schema batches) := by
  unfold TimeTravelDb.registrations
  rw [List.mem_filterMap]
  constructor
  · rintro ⟨⟨t, batches⟩, hin, hp⟩
    have hlook := Map.mem_pairs.mp ((hash.perm _).mem_iff.mp hin)
    dsimp only at hp
    cases hhead : batches.head? with
    | some first =>
      rw [hhead] at hp
      cases hp
      exact ⟨batches, hlook, .inl ⟨first, hhead, rfl⟩⟩
    | none =>
      rw [hhead] at hp
      cases hcat : s.tables.lookup t with
      | none => rw [hcat] at hp; cases hp
      | some schema =>
        rw [hcat] at hp
        cases hp
        exact ⟨batches, hlook, .inr ⟨hhead, schema, hcat, rfl⟩⟩
  · rintro ⟨batches, hlook, hp⟩
    refine ⟨(n, batches), (hash.perm _).mem_iff.mpr (Map.mem_pairs.mpr hlook), ?_⟩
    obtain ⟨first, hhead, rfl⟩ | ⟨hhead, schema, hcat, rfl⟩ := hp
    · dsimp only
      rw [hhead]
    · dsimp only
      rw [hhead, hcat]

/-! ## One query -/

/-- The name under which the table that a query names is looked up. -/
def TimeTravelDb.renamed (memTable : Schema → List RecordBatch → P) (hash : HashOrder) (s : TimeTravelDb P D)
    (snapshot : DbSnapshot) (n : String) : String :=
  if n ∈ (s.registrations memTable hash snapshot).map (·.1) then asofName n else n

/-- The tables that a query about a point in time runs on. -/
def TimeTravelDb.snapshotCtx (memTable : Schema → List RecordBatch → P) (hash : HashOrder) (s : TimeTravelDb P D)
    (snapshot : DbSnapshot) : Map P :=
  (s.registrations memTable hash snapshot).foldl (fun ctx r => ctx.insert (asofName r.1) r.2) s.planning.ctx

/-- The tables that the query names are those of the snapshot, the replacements rename these tables in its text and
nothing else, and a plan that is kept for the new text was made for these contents. -/
structure AsOfSafe (front : SqlFront P D Q (List RecordBatch)) (memTable : Schema → List RecordBatch → P)
    (hash : HashOrder) (s : TimeTravelDb P D) (snapshot : DbSnapshot) (bareSql : String) : Prop where
  /-- No table has a name that is taken for one of the snapshot. -/
  free : ∀ r ∈ s.registrations memTable hash snapshot, s.planning.ctx.lookup (asofName r.1) = none
  renames : front.RenamesAll (s.renamed memTable hash snapshot) bareSql (s.rewriteAsOf memTable hash snapshot bareSql)
  /-- A table without rows still has the columns that it had; a table that is not in the snapshot is not there now. -/
  tables : ∀ n, front.Mentions bareSql n →
    (∃ batches, snapshot.tables.lookup n = some batches ∧
      (batches ≠ [] ∨ ∃ schema, s.tables.lookup n = some schema ∧ snapshot.columns.lookup n = some schema)) ∨
    snapshot.tables.lookup n = none ∧ (s.snapshotCtx memTable hash snapshot).lookup n = none
  cached : ∀ plan, s.planning.planCache.lookup (s.rewriteAsOf memTable hash snapshot bareSql) = some plan →
    ∀ n, front.planner.Uses (s.rewriteAsOf memTable hash snapshot bareSql) plan n →
      plan.tables.lookup n = (s.snapshotCtx memTable hash snapshot).lookup n

theorem asofCtx_eq {bareSql : String} (h : AsOfSafe front memTable hash s snapshot bareSql) :
    s.asofCtx memTable hash snapshot = (s.snapshotCtx memTable hash snapshot, true) :=
  registerAsOf_eq registrations_nodup h.free

/-- Each table of the query is found, under its new name, as it is in the snapshot. -/
theorem lookup_snapshotCtx {bareSql n : String} (h : AsOfSafe front memTable hash s snapshot bareSql)
    (hn : front.Mentions bareSql n) : (snapshot.contents memTable).lookup n =
      (s.snapshotCtx memTable hash snapshot).lookup (s.renamed memTable hash snapshot n) := by
  have hcontents := Map.lookup_mapValues snapshot.tables (fun table batches =>
    memTable ((batches.head?.map (·.schema)).getD ((snapshot.columns.lookup table).getD [])) batches) n
  obtain ⟨batches, hlook, hrows⟩ | ⟨hlook, hgone⟩ := h.tables n hn
  · have hreg : (n, memTable ((batches.head?.map (·.schema)).getD ((snapshot.columns.lookup n).getD [])) batches) ∈
        s.registrations memTable hash snapshot := by
      refine mem_registrations.mpr ⟨batches, hlook, ?_⟩
      cases hhead : batches.head? with
      | some first => exact .inl ⟨first, rfl, rfl⟩
      | none =>
        obtain hrows | ⟨schema, hcat, hcol⟩ := hrows
        · exact absurd (List.head?_eq_none_iff.mp hhead) hrows
        · exact .inr ⟨rfl, schema, hcat, by rw [hcol]; rfl⟩
    have hname : s.renamed memTable hash snapshot n = asofName n := if_pos (List.mem_map.mpr ⟨_, hreg, rfl⟩)
    rw [hlook] at hcontents
    rw [hname]
    exact hcontents.trans (lookup_insertAsof registrations_nodup hreg).symm
  · have hname : s.renamed memTable hash snapshot n = n := by
      refine if_neg fun hin => ?_
      obtain ⟨⟨n', p⟩, hreg, rfl⟩ := List.mem_map.mp hin
      obtain ⟨batches, hsome, -⟩ := mem_registrations.mp hreg
      rw [hlook] at hsome
      cases hsome
    rw [hlook] at hcontents
    rw [hname, hgone]
    exact hcontents

/-- Every plan in the cache is one for its text, over the tables that it keeps. -/
def PlanningDb.Made {R : Type} (planner : Planner P D R) (s : PlanningDb P D) : Prop :=
  ∀ sql p, s.planCache.lookup sql = some p → planner.freshPlan p.tables sql = .ok p

theorem answer_asOf {bareSql : String} (hmade : s.planning.Made front.planner)
    (h : AsOfSafe front memTable hash s snapshot bareSql) :
    (PlanningDb.collectWithPlanCache env front.planner { s.planning with ctx := s.snapshotCtx memTable hash snapshot }
      (s.rewriteAsOf memTable hash snapshot bareSql)).1 = s.answerOn front memTable snapshot bareSql := by
  rw [answer_collectWithPlanCache]
  · exact answer_renamed h.renames fun n hn => lookup_snapshotCtx h hn
  · intro p hp
    exact ⟨p.tables, hmade _ p hp, h.cached p hp⟩

/-! ## Runs -/

theorem freshPlan_tables {R : Type} {planner : Planner P D R} {ctx : Map P} {sql : String} {p : LogicalPlan P}
    (h : planner.freshPlan ctx sql = .ok p) : p.tables = ctx := by
  unfold Planner.freshPlan at h
  cases hsql : planner.sql ctx sql with
  | ok p' =>
    rw [hsql] at h
    obtain rfl := Except.ok.inj h
    rw [(sql_eq_ok hsql).2]
  | error e =>
    rw [hsql] at h
    dsimp only at h
    by_cases hduration : containsText "coerce types Duration".toList e.toList
    · rw [if_pos hduration] at h
      cases hdated : planner.rewriteDateSubtraction sql with
      | none => rw [hdated] at h; cases h
      | some dated =>
        rw [hdated] at h
        rw [(sql_eq_ok h).2]
    · rw [if_neg hduration] at h
      cases h

section
variable {R : Type} {planner : Planner P D R} {t : PlanningDb P D}

theorem PlanningDb.Made.of_cached (h : t.Made planner) {ctx : Map P} {sql : String} {p : LogicalPlan P}
    (hp : t.planCache.lookup sql = some p ∨ planner.freshPlan ctx sql = .ok p) : planner.freshPlan p.tables sql = .ok p := by
  obtain hold | hnew := hp
  · exact h sql p hold
  · rw [freshPlan_tables hnew]
    exact hnew

theorem made_collectWithPlanCache (h : t.Made planner) (sql : String) :
    (t.collectWithPlanCache env planner sql).2.Made planner :=
  fun _ _ hp => h.of_cached (cached_collectWithPlanCache hp)

theorem made_step (h : t.Made planner) (e : PlanEvent P D) : (t.step env planner e).Made planner := by
  cases e with
  | statement stmt succeeds ctx data =>
    intro sql p hp
    unfold PlanningDb.step at hp
    dsimp only at hp
    split at hp
    · exact h sql p (evict_lookup hp).1
    · exact h sql p hp
  | collect sql => exact made_collectWithPlanCache h sql
  | prepare name sqlTemplate => exact fun _ _ hp => h.of_cached (cached_handlePrepare hp)

end

theorem planning_captureSnapshot {now : Int} {t : TimeTravelDb P D} (h : s.captureSnapshot front now = .ok t) :
    t.planning = s.planning := by
  unfold TimeTravelDb.captureSnapshot at h
  dsimp only [bind, Except.bind] at h
  split at h
  · cases h
  · cases h
    rfl

theorem planning_tryCapture (now : Int) : (s.tryCapture front now).planning = s.planning := by
  unfold TimeTravelDb.tryCapture
  cases h : s.captureSnapshot front now with
  | error e => rfl
  | ok t => exact planning_captureSnapshot h

theorem planning_enableSnapshots (now : Int) : (s.enableSnapshots front now).planning = s.planning := by
  unfold TimeTravelDb.enableSnapshots
  split
  · rfl
  · exact planning_tryCapture now

/-- The states of all runs. -/
inductive TimeTravelReached (env : Env) (front : SqlFront P D Q (List RecordBatch))
    (memTable : Schema → List RecordBatch → P) (hash : HashOrder) : TimeTravelDb P D → Prop
  | start (ctx : Map P) (data : D) (tables : Map Schema) (snapshotRetentionMs : Int) (snapshotsEnabled : Bool) :
    TimeTravelReached env front memTable hash ⟨⟨ctx, data, ∅, ∅⟩, tables, [], snapshotRetentionMs, snapshotsEnabled⟩
  | step {s : TimeTravelDb P D} (h : TimeTravelReached env front memTable hash s) (e : TimeTravelEvent P D) :
    TimeTravelReached env front memTable hash (s.step env front memTable hash e)

theorem TimeTravelReached.run (h : TimeTravelReached env front memTable hash s) (es : List (TimeTravelEvent P D)) :
    TimeTravelReached env front memTable hash (es.foldl (TimeTravelDb.step env front memTable hash) s) := by
  induction es generalizing s with
  | nil => exact h
  | cons e es ih => exact ih (h.step e)

theorem made_executeAsOfTimestamp (h : s.planning.Made front.planner) (sql : String) (timestampMs now : Int) :
    (s.executeAsOfTimestamp env front memTable hash sql timestampMs now).2.planning.Made front.planner := by
  have hs : (s.enableSnapshots front now).planning.Made front.planner := by
    rw [planning_enableSnapshots]
    exact h
  unfold TimeTravelDb.executeAsOfTimestamp
  dsimp only
  cases (s.enableSnapshots front now).snapshotAsOf timestampMs with
  | none => exact hs
  | some snapshot =>
    let t := s.enableSnapshots front now
    have hasof : PlanningDb.Made front.planner { t.planning with ctx := (t.asofCtx memTable hash snapshot).1 } := hs
    dsimp only
    split
    · intro sql' p hp
      exact made_collectWithPlanCache hasof _ sql' p hp
    · exact hasof

theorem TimeTravelReached.made (h : TimeTravelReached env front memTable hash s) : s.planning.Made front.planner := by
  induction h with
  | start =>
    intro sql p hp
    cases hp
  | step _ e ih =>
    cases e with
    | session event tables => exact made_step ih event
    | capture now =>
      unfold TimeTravelDb.step
      dsimp only
      split
      · rw [planning_tryCapture]
        exact ih
      · exact ih
    | asOf sql timestampMs now => exact made_executeAsOfTimestamp ih sql timestampMs now

end

/-! ## Two points in time -/

inductive TableProvider where
  | listing (provider : Provider)
  | mem (schema : Schema) (batches : List RecordBatch)

/-- Every query is `SELECT * FROM` a table. -/
def tableFront : SqlFront TableProvider Store Unit (List RecordBatch) where
  parse := fun sql => .ok ⟨[String.ofList (trimMatches (· = '"') (tableOf sql).toList)], ()⟩
  plan := fun _ _ => .ok ()
  collect := fun _ tables store =>
    match tables with
    | [some (.listing p)] => .ok (Relation.collect ⟨p.schema, store.read p.dir (p.schema.map (·.name))⟩)
    | [some (.mem _ batches)] => .ok batches
    | _ => .error "table not found"
  rewriteDateSubtraction := fun _ => none

def entryOrder : HashOrder := ⟨id, fun l => .refl l⟩

/-- The rows of `t` are captured before and after FALSE is inserted. -/
def capturedTwice : TimeTravelDb TableProvider Store :=
  let ctx : Map TableProvider := AList.insert "t" (.listing ⟨["t"], flagSchema⟩) ∅
  let tables : Map Schema := AList.insert "t" flagSchema ∅
  let start : TimeTravelDb TableProvider Store := ⟨⟨ctx, flagDb.store, ∅, ∅⟩, tables, [], 1000, true⟩
  let inserted := flagDb.store ++ [(⟨["t"], 1⟩, ⟨["a"], [[.bool false]], 0⟩)]
  let events := [.capture 1, .session (.statement (.insert "t") true ctx inserted) tables, .capture 2]
  events.foldl (TimeTravelDb.step flagEnv tableFront TableProvider.mem entryOrder) start

def secondSnapshot : DbSnapshot :=
  ⟨2, AList.insert "t" [⟨flagSchema, [[.bool true], [.bool false]]⟩] ∅, AList.insert "t" flagSchema ∅⟩

theorem capturedTwice_reached : TimeTravelReached flagEnv tableFront TableProvider.mem entryOrder capturedTwice :=
  (TimeTravelReached.start _ _ _ _ _).run _

/-- The query about the earlier time, asked first. -/
theorem capturedTwice_safe (snapshot : DbSnapshot)
    (h : IsLatest (capturedTwice.enableSnapshots tableFront 3).snapshots 1 snapshot) :
    AsOfSafe tableFront TableProvider.mem entryOrder (capturedTwice.enableSnapshots tableFront 3) snapshot
      (stripAsOfTimestamp flagEnv.toUppercase "SELECT * FROM t AS OF TIMESTAMP 1") := by
  have hfirst : (capturedTwice.enableSnapshots tableFront 3).snapshotAsOf 1 =
      some ⟨1, AList.insert "t" [⟨flagSchema, [[.bool true]]⟩] ∅, AList.insert "t" flagSchema ∅⟩ := by decide +kernel
  obtain rfl := Option.some.inj (hfirst.symm.trans (snapshotAsOf_of_isLatest h))
  have hbare : stripAsOfTimestamp flagEnv.toUppercase "SELECT * FROM t AS OF TIMESTAMP 1" = "SELECT * FROM t" := by
    decide +kernel
  rw [hbare]
  have hparse : tableFront.parse "SELECT * FROM t" = .ok ⟨["t"], ()⟩ := by decide +kernel
  constructor
  · decide +kernel
  · exact ⟨⟨⟨["t"], ()⟩, hparse, by decide +kernel⟩, .inl ⟨rfl, rfl⟩⟩
  · intro n hn
    obtain ⟨q, hq, hn⟩ | ⟨dated, hdated, -⟩ := hn
    · obtain rfl := Except.ok.inj (hparse.symm.trans hq)
      obtain rfl := List.mem_singleton.mp hn
      exact .inl ⟨[⟨flagSchema, [[.bool true]]⟩], by decide, .inl (by decide)⟩
    · cases hdated
  · intro plan hplan
    have hkeys : (capturedTwice.enableSnapshots tableFront 3).planning.planCache.keys = [] := by decide +kernel
    have hin := Map.mem_iff_lookup.mpr ⟨plan, hplan⟩
    rw [AList.mem_keys, hkeys] at hin
    cases hin

end PotatoDB
