import PotatoDB.Placement
import PotatoDB.RewriteFaults
import PotatoDB.ReadonlySound
import PotatoDB.Visibility

/-!
# What a compaction keeps

VACUUM and the automatic compaction read a table under its path, delete the files under its name and
write the rows under its path again. Where the two directories differ, or a row does not pass as a
row of the table any more, rows are lost or doubled.
-/

namespace PotatoDB

open Oplog Oplog.Prog
open Machine (apply)

/-! ## The rows in another order -/

theorem perm_of_mapM {α β ε : Type} {f : α → Except ε β} {l m : List α} (h : l.Perm m) :
    ∀ {as : List β}, l.mapM f = .ok as → ∃ bs, m.mapM f = .ok bs ∧ as.Perm bs := by
  simp only [mapM_ok_iff]
  induction h with
  | nil => exact fun {as} h => ⟨as, h, List.Perm.refl as⟩
  | cons x _ ih =>
    intro as h
    cases as with
    | nil => simp at h
    | cons a as =>
      obtain ⟨hx, has⟩ := List.cons.inj h
      obtain ⟨bs, hbs, hp⟩ := ih has
      exact ⟨a :: bs, by simp [hx, hbs], hp.cons a⟩
  | swap x y l =>
    intro as h
    match as with
    | [] => simp at h
    | [a] => simp at h
    | a :: b :: as =>
      simp only [List.map_cons, List.cons.injEq] at h
      exact ⟨b :: a :: as, by simp [h], List.Perm.swap b a as⟩
  | trans _ _ ih₁ ih₂ =>
    intro as h
    obtain ⟨bs, hbs, hp⟩ := ih₁ h
    obtain ⟨cs, hcs, hq⟩ := ih₂ hbs
    exact ⟨cs, hcs, hp.trans hq⟩

section
variable {env : Env} {schema : Schema} {rows rows' written : List Row}

/-- What DataFusion stores for the rows of a table that are put into it again. -/
def rewrittenRows (env : Env) (schema : Schema) (rows : List Row) : Except String (List Row) :=
  insertedRows env schema none (⟨schema, rows⟩ : Relation).collect

theorem rewrittenRows_nil : rewrittenRows env schema [] = .ok [] := rfl

theorem rewrittenRows_ok : rewrittenRows env schema rows = .ok written ↔
    rows.mapM (castRow env schema schema.names) = .ok written ∧ (rows ≠ [] → schema.names.Nodup) := by
  constructor
  · intro h
    obtain ⟨hcast, hn⟩ := insertedRows_cast h
    rw [allRows_collect] at hcast
    refine ⟨hcast, fun hne => hn ?_⟩
    simpa [Relation.collect] using hne
  · rintro ⟨hcast, hn⟩
    by_cases hr : rows = []
    · subst hr
      exact hcast
    · replace hn := hn hr
      unfold rewrittenRows Relation.collect insertedRows
      rw [if_neg (by simpa using hr)]
      dsimp only
      rw [planInsert_self hn]
      unfold allRows
      rw [List.flatMap_singleton]
      exact hcast

theorem rewrittenRows_perm (hp : rows.Perm rows') (h : rewrittenRows env schema rows = .ok written) :
    ∃ written', rewrittenRows env schema rows' = .ok written' ∧ written.Perm written' := by
  obtain ⟨hcast, hn⟩ := rewrittenRows_ok.mp h
  obtain ⟨written', hcast', hp'⟩ := perm_of_mapM hp hcast
  refine ⟨written', rewrittenRows_ok.mpr ⟨hcast', fun hne => hn ?_⟩, hp'⟩
  rintro rfl
  exact hne hp.nil_eq.symm

theorem length_rewrittenRows (h : rewrittenRows env schema rows = .ok written) : written.length = rows.length := by
  have := congrArg List.length (mapM_ok_iff.mp (rewrittenRows_ok.mp h).1)
  simpa using this.symm

end

/-! ## The files of a rewrite -/

/-- The file that rows are put into. -/
def putRows (p : Provider) (number : Nat) (rows : List Row) (time : Nat) : Store :=
  if rows = [] then [] else [(⟨p.dir, number⟩, ⟨p.schema.names, rows, time⟩)]

/-- The files listed for the table are gone, and the rows are in a new one under its path. -/
structure Replaced (s : Db) (table : String) (p : Provider) (rows : List Row) (t : Db) : Prop where
  ctx : ∀ u, t.ctx.lookup u = s.ctx.lookup u
  store : ∃ time, t.store = s.store.removeDir (objPath table) ++ putRows p s.nextFile rows time
  catalog : t.catalog.forgetStatistics = s.catalog.forgetStatistics
  writeBuffer : t.writeBuffer = s.writeBuffer

/-- Every table reads as much in the files listed for the one as in a file with the rows. -/
def Db.Trades (s : Db) (table : String) (p : Provider) (rows : List Row) : Prop :=
  ∀ u q, s.ctx.lookup u = some q →
    ((s.store.list (objPath table)).read q.dir q.schema.names).Perm ((putRows p 0 rows 0).read q.dir q.schema.names)

/-- The files under a path are among those listed for the table. -/
def Db.Swept (s : Db) (table : String) (dir : Dir) : Prop :=
  ∀ e ∈ s.store, dir <+: e.1.dir → objPath table <+: e.1.dir

section
variable {s t : Db} {table : String} {p : Provider} {rows rows' : List Row}

theorem read_putRows (p : Provider) (number : Nat) (rows : List Row) (time : Nat) (dir : Dir) (names : List String) :
    (putRows p number rows time).read dir names =
      if dir <+: p.dir then (ParquetFile.mk p.schema.names rows 0).read names else [] := by
  unfold putRows
  by_cases hr : rows = []
  · subst hr
    simp [Store.read, Store.list, ParquetFile.read]
  · rw [if_neg hr]
    by_cases hd : dir <+: p.dir
    · rw [if_pos hd]
      unfold Store.read Store.list
      rw [List.filter_cons_of_pos (by simpa using hd)]
      simp [ParquetFile.read]
    · rw [if_neg hd]
      unfold Store.read Store.list
      rw [List.filter_cons_of_neg (by simpa using hd)]
      rfl

theorem perm_putRows (h : rows.Perm rows') (number number' time time' : Nat) (dir : Dir) (names : List String) :
    ((putRows p number rows time).read dir names).Perm ((putRows p number' rows' time').read dir names) := by
  rw [read_putRows, read_putRows]
  split
  · exact h.map _
  · exact List.Perm.refl _

/-- The rows of a file, as its table reads them. -/
theorem read_putRows_self (hn : rows ≠ [] → p.schema.names.Nodup) (hlen : ∀ row ∈ rows, row.length = p.schema.names.length)
    (number time : Nat) : (putRows p number rows time).read p.dir p.schema.names = rows := by
  rw [read_putRows, if_pos List.prefix_rfl]
  by_cases hr : rows = []
  · subst hr
    rfl
  · exact read_self (hn hr) hlen

theorem Db.Trades.perm (h : s.Trades table p rows) (hp : rows.Perm rows') : s.Trades table p rows' :=
  fun u q hq => (h u q hq).trans (perm_putRows hp _ _ _ _ _ _)

/-- Reading the files in a directory and the others reads them all. -/
theorem Store.read_split (store : Store) (within dir : Dir) (names : List String) :
    (store.read dir names).Perm ((store.removeDir within).read dir names ++ (store.list within).read dir names) := by
  have hsplit : store.Perm (store.removeDir within ++ store.list within) := by
    have h := (List.filter_append_perm (fun e : ObjPath × ParquetFile => within.isPrefixOf e.1.dir) store).symm
    exact h.trans List.perm_append_comm
  rw [← Store.read_append]
  exact (hsplit.filter _).flatMap_right _

theorem Replaced.rows_iff (h : Replaced s table p rows t) :
    (∀ u, (t.rows u).Perm (s.rows u)) ↔ s.Trades table p rows := by
  obtain ⟨time, hstore⟩ := h.store
  have hread : ∀ u q, s.ctx.lookup u = some q → ((t.rows u).Perm (s.rows u) ↔
      ((s.store.list (objPath table)).read q.dir q.schema.names).Perm ((putRows p 0 rows 0).read q.dir q.schema.names)) := by
    intro u q hq
    have hnew := perm_putRows (p := p) (List.Perm.refl rows) s.nextFile 0 time 0 q.dir q.schema.names
    have hold := s.store.read_split (objPath table) q.dir q.schema.names
    rw [rows_of_lookup ((h.ctx u).trans hq), rows_of_lookup hq, hstore, Store.read_append]
    constructor
    · intro hp
      exact ((List.perm_append_left_iff _).mp (hp.trans hold)).symm.trans hnew
    · intro hp
      exact ((List.perm_append_left_iff _).mpr (hnew.trans hp.symm)).trans hold.symm
  constructor
  · exact fun hp u q hq => (hread u q hq).mp (hp u)
  · intro htrades u
    cases hq : s.ctx.lookup u with
    | none =>
      unfold Db.rows Db.relation
      rw [h.ctx, hq]
      exact List.Perm.refl _
    | some q => exact (hread u q hq).mpr (htrades u q hq)

theorem Replaced.files_iff (h : Replaced s table p rows t) (hfresh : ∀ e ∈ s.store, e.1.file < s.nextFile) :
    (∀ e ∈ t.store, p.dir <+: e.1.dir → s.nextFile ≤ e.1.file) ↔ s.Swept table p.dir := by
  obtain ⟨time, hstore⟩ := h.store
  rw [hstore]
  constructor
  · intro hnew e he hd
    refine Classical.byContradiction fun hout => ?_
    have hkept : e ∈ s.store.removeDir (objPath table) := by
      unfold Store.removeDir
      rw [List.mem_filter, Bool.not_eq_true', Bool.eq_false_iff, Ne, List.isPrefixOf_iff_prefix]
      exact ⟨he, hout⟩
    have := hnew e (List.mem_append_left _ hkept) hd
    have := hfresh e he
    omega
  · intro hswept e he hd
    rcases List.mem_append.mp he with he | he
    · obtain ⟨hin, hout⟩ := List.mem_filter.mp he
      have := List.isPrefixOf_iff_prefix.mpr (hswept e hin hd)
      simp [this] at hout
    · unfold putRows at he
      split at he
      · cases he
      · rw [List.mem_singleton.mp he]

end

/-! ## Rewriting the rows of a table -/

/-- The table is in the catalog, and where DataFusion finds it under its name, it is registered as the catalog has it. -/
structure Known (env : Env) (s : Db) (table : String) (m : TableMeta) (schema : Schema) : Prop where
  catalog : s.catalog.tables.lookup table = some m
  columns : columnsToSchema env m.columns = .ok schema
  provider : ∀ p, s.ctx.lookup table = some p → p = ⟨objPath m.path, schema⟩

/-- What a rewrite with the rows of the table leaves. -/
def Rewrote (env : Env) (s : Db) (table : String) (p : Provider) (t : Db) : Prop :=
  match rewrittenRows env p.schema (s.rows table) with
  | .ok written => ∃ rows, rows.Perm written ∧ Replaced s table p rows t
  | .error _ => Replaced s table p [] t

section
variable {env : Env} {C : Db → Op → Prop} {s : Db} {table : String} {m : TableMeta} {schema : Schema}

theorem wp_restoreUnwritable {t : Db} {rows : List Row} (hctx : t.ctx.lookup table = some ⟨objPath m.path, schema⟩)
    (hno : ¬ ∃ written, rewrittenRows env schema rows = .ok written) {Q : Except String Unit → Db → Prop} (hQ : Q (.ok ()) t) :
    wp C (restoreTableFromSnapshot env table (⟨schema, rows⟩ : Relation).collect) t Q := by
  unfold restoreTableFromSnapshot
  split
  · rw [wp_bind, wp_attempt]
    refine wp_insertInto (fun _ _ => wp_pure.mpr hQ) fun p written hp hw => absurd ?_ hno
    obtain rfl : _ = p := Option.some.inj (hctx.symm.trans hp)
    exact ⟨written, hw⟩
  · exact wp_pure.mpr hQ

theorem catalog_withFileStats (c : CatalogData) (table : String) (stats : List FileStats) :
    (c.setFileStats table stats).forgetStatistics = c.forgetStatistics := by
  refine forgetStatistics_mapValues fun k m => ?_
  split <;> rfl

theorem wp_writeRows {t : Db} {rows original : List Row} (hctx : t.ctx.lookup table = some ⟨objPath m.path, schema⟩)
    (hperm : original.Perm rows) {Q : Except String Unit → Db → Prop}
    (hok : ∀ written, rewrittenRows env schema rows = .ok written →
      (written = [] → Q (.ok ()) t) ∧
      (written ≠ [] → Q (.ok ()) (t.withFile (objPath m.path) schema.names written (env.time t.counters.clockReadings))))
    (herror : ∀ e, (¬ ∃ written, rewrittenRows env schema rows = .ok written) → Q (.error e) t) :
    wp C (writeRewritten env table schema (⟨schema, rows⟩ : Relation).collect (⟨schema, original⟩ : Relation).collect) t Q := by
  unfold writeRewritten
  by_cases hd : hasData (⟨schema, rows⟩ : Relation).collect = true
  · rw [if_pos hd, wp_bind, wp_attempt, wp_bind, wp_check, memTable_self (@collect_schema ⟨schema, rows⟩)]
    dsimp only
    refine wp_insertInto (fun hno e => ?_) fun p written hp hw => ?_
    · have hno' : ¬ ∃ written, rewrittenRows env schema rows = .ok written := by
        rintro ⟨written, hw⟩
        exact hno ⟨_, written, hctx, hw⟩
      dsimp only
      rw [wp_bind]
      refine wp_restoreUnwritable hctx (fun ⟨written, hw⟩ => ?_) (wp_throw.mpr (herror e hno'))
      obtain ⟨written', hw', -⟩ := rewrittenRows_perm hperm hw
      exact hno' ⟨written', hw'⟩
    · obtain rfl : _ = p := Option.some.inj (hctx.symm.trans hp)
      obtain ⟨hnil, hcons⟩ := hok written hw
      exact ⟨fun h => wp_pure.mpr (hnil h), fun h => wp_pure.mpr (hcons h)⟩
  · rw [if_neg hd]
    rw [Bool.not_eq_true, hasData_iff, allRows_collect] at hd
    obtain rfl : rows = [] := hd
    exact wp_pure.mpr ((hok [] rewrittenRows_nil).1 rfl)

theorem wp_rewriteRows (hs : Known env s table m schema) (hctx : s.ctx.lookup table = some ⟨objPath m.path, schema⟩)
    {rows : List Row} (hperm : rows.Perm (s.rows table)) (flag : Bool) :
    wp C (rewriteTable env table schema (⟨schema, rows⟩ : Relation).collect flag) s
      fun _ t => Rewrote env s table ⟨objPath m.path, schema⟩ t := by
  have hlook : ((s.ctx.erase table).insert table ⟨objPath m.path, schema⟩).lookup table = some ⟨objPath m.path, schema⟩ :=
    AList.lookup_insert _
  have hsame : ∀ u, ((s.ctx.erase table).insert table ⟨objPath m.path, schema⟩).lookup u = s.ctx.lookup u := by
    intro u
    by_cases hu : u = table
    · rw [hu, hlook, hctx]
    · rw [AList.lookup_insert_ne hu, AList.lookup_erase_ne hu]
  have hrewrote : ∀ written t, rewrittenRows env schema rows = .ok written →
      Replaced s table ⟨objPath m.path, schema⟩ written t → Rewrote env s table ⟨objPath m.path, schema⟩ t := by
    intro written t hw ht
    obtain ⟨written', hw', hp⟩ := rewrittenRows_perm hperm hw
    unfold Rewrote
    rw [hw']
    exact ⟨written, hp, ht⟩
  have hfailed : ∀ t, (¬ ∃ written, rewrittenRows env schema rows = .ok written) →
      Replaced s table ⟨objPath m.path, schema⟩ [] t → Rewrote env s table ⟨objPath m.path, schema⟩ t := by
    intro t hno ht
    unfold Rewrote
    split
    · rename_i written' hw'
      obtain ⟨written, hw, -⟩ := rewrittenRows_perm hperm.symm hw'
      exact absurd ⟨written, hw⟩ hno
    · exact ht
  -- the snapshot to fall back on has the same rows
  have hsnapshot : ∀ {t : Db} {Q : Except String (List RecordBatch) → Db → Prop}, t.ctx = s.ctx → t.store = s.store →
      (∀ original : List Row, original.Perm rows → Q (.ok (⟨schema, original⟩ : Relation).collect) t) →
      wp C (diskSnapshot table (⟨schema, rows⟩ : Relation).collect flag) t Q := by
    intro t Q htctx htstore hQ
    unfold diskSnapshot selectStar
    split
    · exact wp_pure.mpr (hQ rows (List.Perm.refl rows))
    · have hrel : t.relation table = some ⟨schema, s.rows table⟩ := by
        rw [relation_of_tables htctx htstore]
        exact relation_of_lookup hctx
      simp only [wp_bind, wp_get, hrel, wp_pure]
      exact hQ (s.rows table) hperm.symm
  unfold rewriteTable tableMeta registerListingTable
  simp only [wp_bind, wp_get, hs.catalog, wp_pure, wp_emit]
  intro _
  refine hsnapshot rfl rfl fun original horiginal _ => ?_
  refine wp_of_yields ?_ (yields_deleteParquetFiles ?_)
  · exact succeeds_bind.mpr ⟨_, rfl, succeeds_each_emit⟩
  rw [wp_check, hs.columns]
  dsimp only
  intro _
  refine wp_writeRows hlook horiginal (fun written hw => ⟨fun hnil => ?_, fun hne => ?_⟩) fun e hno => ?_
  · refine wp_refreshLight (fun stats dirty => ?_) ?_
    all_goals refine hrewrote written _ hw ⟨hsame, ⟨0, ?_⟩, ?_, rfl⟩
    · unfold putRows
      rw [if_pos hnil]
      exact (List.append_nil _).symm
    · exact catalog_withFileStats _ _ _
    · unfold putRows
      rw [if_pos hnil]
      exact (List.append_nil _).symm
    · rfl
  · refine wp_refreshLight (fun stats dirty => ?_) ?_
    all_goals refine hrewrote written _ hw ⟨hsame, ⟨env.time s.counters.clockReadings, ?_⟩, ?_, rfl⟩
    · unfold putRows
      rw [if_neg hne]
      rfl
    · exact catalog_withFileStats _ _ _
    · unfold putRows
      rw [if_neg hne]
      rfl
    · rfl
  · exact hfailed _ hno ⟨hsame, ⟨0, (List.append_nil _).symm⟩, rfl, rfl⟩

end

/-! ## The two compactions -/

/-- The columns that a compaction sorts by: those of the first index. -/
def Db.firstIndexColumns (s : Db) (table : String) : List IndexColumn :=
  (s.catalog.indexesForTable table).head?.elim [] (·.columns)

/-- The SELECT of a compaction finds the table under its name, and the columns of its first index. -/
def Db.Selectable (s : Db) (table : String) (schema : Schema) : Prop :=
  (s.ctx.lookup table).isSome = true ∧ ∀ c ∈ s.firstIndexColumns table, c.name ∈ schema.names

/-- The automatic compaction goes on to read the table. -/
def CompactsTable (env : Env) (s : Db) (table : String) : Prop :=
  env.autoCompactFileThreshold ≠ 0 ∧ s.activeTxn = none ∧ env.autoCompactFileThreshold ≤ (s.store.list (objPath table)).length

/-- The tables, their rows and the buffer are the same. -/
structure SameStorage (s t : Db) : Prop where
  store : t.store = s.store
  nextFile : t.nextFile = s.nextFile
  ctx : t.ctx = s.ctx
  catalog : t.catalog = s.catalog
  writeBuffer : t.writeBuffer = s.writeBuffer

theorem SameStorage.refl (s : Db) : SameStorage s s := ⟨rfl, rfl, rfl, rfl, rfl⟩

section
variable {env : Env} {C : Db → Op → Prop} {s t u : Db} {table : String} {m : TableMeta} {schema : Schema} {p : Provider}

theorem SameStorage.rewrote (h : SameStorage s t) (hr : Rewrote env t table p u) : Rewrote env s table p u := by
  have hreplaced : ∀ rows, Replaced t table p rows u → Replaced s table p rows u := by
    intro rows hu
    obtain ⟨time, hstore⟩ := hu.store
    rw [h.store, h.nextFile] at hstore
    exact ⟨fun x => by rw [hu.ctx, h.ctx], ⟨time, hstore⟩, by rw [hu.catalog, h.catalog], by rw [hu.writeBuffer, h.writeBuffer]⟩
  unfold Rewrote at hr ⊢
  rw [rows_of_tables h.ctx h.store] at hr
  split at hr
  · obtain ⟨rows, hp, hu⟩ := hr
    exact ⟨rows, hp, hreplaced rows hu⟩
  · exact hreplaced [] hr

theorem Rewrote.sameTables (h : Rewrote env s table p t) (hu : SameTables t u) : Rewrote env s table p u := by
  have hreplaced : ∀ rows, Replaced s table p rows t → Replaced s table p rows u := by
    intro rows ht
    obtain ⟨time, hstore⟩ := ht.store
    refine ⟨fun x => by rw [hu.ctx, ht.ctx], ⟨time, hu.store.trans hstore⟩, hu.catalog.trans ht.catalog, ?_⟩
    rw [hu.writeBuffer, ht.writeBuffer]
  unfold Rewrote at h ⊢
  split at h
  · obtain ⟨rows, hp, ht⟩ := h
    exact ⟨rows, hp, hreplaced rows ht⟩
  · exact hreplaced [] h

theorem Known.of_sameStorage (hs : Known env s table m schema) (h : SameStorage s t) : Known env t table m schema :=
  ⟨by rw [h.catalog]; exact hs.catalog, hs.columns, by rw [h.ctx]; exact hs.provider⟩

theorem Known.provider_eq (hs : Known env s table m schema) (hfound : (s.ctx.lookup table).isSome = true) :
    s.ctx.lookup table = some ⟨objPath m.path, schema⟩ := by
  obtain ⟨p, hp⟩ := Option.isSome_iff_exists.mp hfound
  rw [hp, hs.provider p hp]

theorem wp_selectIndexed (hs : Known env s table m schema) {Q : Except String Relation → Db → Prop}
    (hno : ¬ s.Selectable table schema → ∀ e, Q (.error e) s)
    (hok : s.Selectable table schema → ∀ rows, rows.Perm (s.rows table) → Q (.ok ⟨schema, rows⟩) s) :
    wp C (selectOrdered env table (s.firstIndexColumns table)) s Q := by
  unfold selectOrdered selectStar
  simp only [wp_bind, wp_get]
  cases hr : s.relation table with
  | none =>
    refine wp_throw.mpr (hno (fun hsel => ?_) _)
    rw [relation_of_lookup (hs.provider_eq hsel.1)] at hr
    cases hr
  | some r =>
    have hfound : (s.ctx.lookup table).isSome = true := by
      unfold Db.relation at hr
      rw [Option.map_eq_some_iff] at hr
      obtain ⟨p, hp, -⟩ := hr
      rw [hp]
      rfl
    obtain rfl : _ = r := Option.some.inj ((relation_of_lookup (hs.provider_eq hfound)).symm.trans hr)
    have hnames : ((s.firstIndexColumns table).all fun c => schema.any (·.name = c.name)) = true ↔
        ∀ c ∈ s.firstIndexColumns table, c.name ∈ schema.names := by
      simp [Schema.names]
    rw [wp_pure]
    dsimp only
    split
    · rename_i hall
      refine wp_pure.mpr (hok ⟨hfound, hnames.mp hall⟩ _ ?_)
      split
      · exact List.Perm.refl _
      · exact env.sort_perm _ _ _
    · rename_i hall
      exact wp_throw.mpr (hno (fun hsel => hall (hnames.mpr hsel.2)) _)

theorem ends_maybeAutoCompact (hs : Known env s table m schema) :
    wp C (maybeAutoCompact env table) s fun _ t =>
      (CompactsTable env s table ∧ s.Selectable table schema → Rewrote env s table ⟨objPath m.path, schema⟩ t) ∧
        (¬ (CompactsTable env s table ∧ s.Selectable table schema) → t = s) := by
  have hsame : ¬ (CompactsTable env s table ∧ s.Selectable table schema) →
      (CompactsTable env s table ∧ s.Selectable table schema → Rewrote env s table ⟨objPath m.path, schema⟩ s) ∧
        (¬ (CompactsTable env s table ∧ s.Selectable table schema) → s = s) :=
    fun h => ⟨fun h' => absurd h' h, fun _ => rfl⟩
  unfold maybeAutoCompact listParquetFiles
  simp only [wp_bind, wp_get]
  split
  · rename_i hoff
    refine wp_pure.mpr (hsame ?_)
    rintro ⟨⟨hthr, htxn, -⟩, -⟩
    rcases hoff with h | h
    · exact hthr h
    · rw [htxn] at h
      cases h
  · rename_i hon
    obtain ⟨hthr, htxn⟩ := not_or.mp hon
    simp only [wp_bind, wp_get, wp_pure, List.length_map]
    split
    · rename_i hfew
      exact wp_pure.mpr (hsame fun h => Nat.not_lt.mpr h.1.2.2 hfew)
    · rename_i hmany
      have hcompacts : CompactsTable env s table := by
        refine ⟨hthr, ?_, Nat.not_lt.mp hmany⟩
        cases htxn' : s.activeTxn with
        | none => rfl
        | some _ =>
          rw [htxn'] at htxn
          exact absurd rfl htxn
      simp only [wp_bind, wp_get]
      refine wp_selectIndexed hs (fun hno _ => hsame fun h => hno h.2) fun hsel rows hperm => ?_
      refine wp_mono (fun _ t ht => ⟨fun _ => ht, fun h => absurd ⟨hcompacts, hsel⟩ h⟩) ?_
      exact wp_rewriteRows hs (hs.provider_eq hsel.1) hperm true

/-- A backup touches no table, and is made of one that is found. -/
theorem wp_backupFound {Q : Except String Unit → Db → Prop}
    (hno : (s.ctx.lookup table).isSome = false → ∀ e, Q (.error e) s) (hok : ∀ t, SameStorage s t → Q (.ok ()) t) :
    wp C (backupTableForTxn table) s Q := by
  unfold backupTableForTxn selectStar
  simp only [wp_bind, wp_get]
  split
  · exact wp_pure.mpr (hok s (SameStorage.refl s))
  · split
    · exact wp_pure.mpr (hok s (SameStorage.refl s))
    · simp only [wp_bind, wp_get]
      cases hr : s.relation table with
      | none =>
        refine wp_throw.mpr (hno ?_ _)
        unfold Db.relation at hr
        rw [Option.map_eq_none_iff] at hr
        rw [hr]
        rfl
      | some r => exact wp_pure.mpr (wp_emit.mpr fun _ => hok _ ⟨rfl, rfl, rfl, rfl, rfl⟩)

theorem wp_applyRetentionPolicy_none (hm : s.catalog.tables.lookup table = some m) (hret : m.retentionSeconds = none)
    {Q : Except String Nat → Db → Prop} (hQ : Q (.ok 0) s) : wp C (applyRetentionPolicy env table) s Q := by
  unfold applyRetentionPolicy
  simp only [wp_bind, wp_get, hm, hret]
  exact wp_pure.mpr hQ

/-- A VACUUM compacts the table as the flush leaves it. -/
theorem ends_handleVacuum {s₀ : Db} (hflush : Succeeds (flushAll env) s₀) (hfinal : (flushAll env).final s₀ = s)
    (hs : Known env s table m schema) (hret : m.retentionSeconds = none) :
    wp C (handleVacuum env table) s₀ fun _ t =>
      (s.Selectable table schema → Rewrote env s table ⟨objPath m.path, schema⟩ t) ∧
        (¬ s.Selectable table schema → SameStorage s t) := by
  have hsame : ∀ t, ¬ s.Selectable table schema → SameStorage s t →
      (s.Selectable table schema → Rewrote env s table ⟨objPath m.path, schema⟩ t) ∧
        (¬ s.Selectable table schema → SameStorage s t) :=
    fun t hno ht => ⟨fun h => absurd h hno, fun _ => ht⟩
  unfold handleVacuum
  rw [wp_bind]
  intro _
  obtain ⟨n, hn⟩ := hflush
  rw [hn, hfinal]
  dsimp only
  unfold tableMeta
  simp only [wp_bind, wp_get, hs.catalog, wp_pure]
  refine wp_backupFound (fun hno e => ?_) fun t ht => ?_
  · refine hsame s (fun hsel => ?_) (SameStorage.refl s)
    rw [hsel.1] at hno
    cases hno
  · have hkt := hs.of_sameStorage ht
    have hindexed : ∀ t', SameStorage s t' → (t'.Selectable table schema ↔ s.Selectable table schema) := by
      intro t' ht'
      unfold Db.Selectable Db.firstIndexColumns
      rw [ht'.ctx, ht'.catalog]
    dsimp only
    refine wp_applyRetentionPolicy_none hkt.catalog hret ?_
    dsimp only
    refine wp_selectIndexed hkt (fun hno _ => hsame t (fun h => hno ((hindexed t ht).mpr h)) ht) fun hsel rows hperm => ?_
    dsimp only
    unfold listParquetFiles
    simp only [wp_bind, wp_get, wp_pure]
    refine wp_mono ?_ (wp_rewriteRows hkt (hkt.provider_eq hsel.1) hperm false)
    intro r u hu
    have hdone : ∀ v, SameTables u v →
        (s.Selectable table schema → Rewrote env s table ⟨objPath m.path, schema⟩ v) ∧
          (¬ s.Selectable table schema → SameStorage s v) :=
      fun v hv => ⟨fun _ => ht.rewrote (hu.sameTables hv), fun hno => absurd ((hindexed t ht).mp hsel) hno⟩
    cases r with
    | error e => exact hdone u ⟨rfl, rfl, rfl, rfl, rfl⟩
    | ok _ =>
      dsimp only
      have hanalyze : wp C (handleAnalyze env table) u fun _ v => SameTables u v := fun _ =>
        sameTables_handleAnalyze u table u ⟨rfl, rfl, rfl, rfl, rfl⟩ along_true
      refine wp_mono (fun r v hv => ?_) hanalyze
      cases r <;> exact hdone v hv

end

/-! ## What is kept -/

/-- The rows of every table are kept, also when the compaction runs once more, and a compaction that is due leaves
only new files under the path. -/
structure KeepsContents {α : Type} (compact : M α) (s t : Db) (dir : Dir) (due : Prop) : Prop where
  rows : ∀ u, (t.rows u).Perm (s.rows u)
  files : due → ∀ e ∈ t.store, dir <+: e.1.dir → s.nextFile ≤ e.1.file
  again : ∀ u, ((compact.final t).rows u).Perm (t.rows u)

/-- The rows of the table pass as its rows, the files under its path are among those listed for it, and every table
reads as much in these as it will in the new file. -/
structure Rewritable (env : Env) (s : Db) (table : String) (m : TableMeta) (schema : Schema) : Prop where
  swept : s.Swept table (objPath m.path)
  traded : ∃ written, rewrittenRows env schema (s.rows table) = .ok written ∧
    s.Trades table ⟨objPath m.path, schema⟩ written

/-- Where the table can be read it can be rewritten, and where not there are no files to compact. -/
def SafelyCompacted (env : Env) (s : Db) (table : String) (m : TableMeta) (schema : Schema) : Prop :=
  (s.Selectable table schema → Rewritable env s table m schema) ∧
    (¬ s.Selectable table schema → ∀ e ∈ s.store, ¬ objPath m.path <+: e.1.dir)

/-- The table has as many files as the threshold says, under its name or its path. -/
def CompactionDue (env : Env) (s : Db) (table : String) (dir : Dir) : Prop :=
  env.autoCompactFileThreshold ≠ 0 ∧ s.activeTxn = none ∧
    (env.autoCompactFileThreshold ≤ (s.store.list (objPath table)).length ∨
      env.autoCompactFileThreshold ≤ (s.store.list dir).length)

/-- The new file is among those listed for the table. -/
def RewrittenInPlace (s : Db) (table : String) (m : TableMeta) : Prop := objPath table <+: objPath m.path ∨ s.rows table = []

section
variable {env : Env} {s t u : Db} {table : String} {m : TableMeta} {schema : Schema} {p : Provider}

theorem Rewrote.replaced (h : Rewrote env s table p t) : ∃ rows, Replaced s table p rows t := by
  unfold Rewrote at h
  split at h
  · obtain ⟨rows, -, ht⟩ := h
    exact ⟨rows, ht⟩
  · exact ⟨[], h⟩

theorem Rewrote.of_ok (h : Rewrote env s table p t) {written : List Row}
    (hw : rewrittenRows env p.schema (s.rows table) = .ok written) :
    ∃ rows, rows.Perm written ∧ Replaced s table p rows t := by
  unfold Rewrote at h
  rw [hw] at h
  exact h

/-- Where the files under the path are all listed, these are what the table reads. -/
theorem Db.Swept.rows (h : s.Swept table p.dir) (hp : s.ctx.lookup table = some p) :
    s.rows table = (s.store.list (objPath table)).read p.dir p.schema.names := by
  rw [rows_of_lookup hp]
  unfold Store.read Store.list
  rw [List.filter_filter]
  refine congrArg (List.flatMap _) (List.filter_congr fun e he => ?_)
  by_cases hd : p.dir <+: e.1.dir
  · rw [List.isPrefixOf_iff_prefix.mpr hd, List.isPrefixOf_iff_prefix.mpr (h e he hd)]
    rfl
  · rw [← List.isPrefixOf_iff_prefix, Bool.not_eq_true] at hd
    rw [hd]
    rfl

/-- **The rows are kept and the old files gone exactly where the table can be rewritten.** -/
theorem Rewrote.keeps_iff (hs : s.ctx.lookup table = some ⟨objPath m.path, schema⟩) (hfresh : ∀ e ∈ s.store, e.1.file < s.nextFile)
    (h : Rewrote env s table ⟨objPath m.path, schema⟩ t) :
    ((∀ u, (t.rows u).Perm (s.rows u)) ∧ ∀ e ∈ t.store, objPath m.path <+: e.1.dir → s.nextFile ≤ e.1.file) ↔
      Rewritable env s table m schema := by
  cases hw : rewrittenRows env schema (s.rows table) with
  | ok written =>
    obtain ⟨rows, hperm, hreplaced⟩ := h.of_ok hw
    rw [hreplaced.rows_iff, hreplaced.files_iff hfresh]
    constructor
    · intro ⟨htrades, hswept⟩
      exact ⟨hswept, written, hw, htrades.perm hperm⟩
    · intro ⟨hswept, written', hw', htrades⟩
      obtain rfl : written = written' := Except.ok.inj (hw.symm.trans hw')
      exact ⟨htrades.perm hperm.symm, hswept⟩
  | error e =>
    have hreplaced : Replaced s table ⟨objPath m.path, schema⟩ [] t := by
      unfold Rewrote at h
      rwa [hw] at h
    constructor
    · intro ⟨hrows, hfiles⟩
      -- nothing is left to read, so there was nothing to write
      have hnone := hreplaced.rows_iff.mp hrows table _ hs
      rw [← ((hreplaced.files_iff hfresh).mp hfiles).rows hs, read_putRows_self (fun h => absurd rfl h) nofun] at hnone
      rw [hnone.eq_nil, rewrittenRows_nil] at hw
      cases hw
    · intro ⟨_, written, hw', _⟩
      rw [hw] at hw'
      cases hw'

theorem list_putRows (p : Provider) (number : Nat) (rows : List Row) (time : Nat) (dir : Dir) :
    (putRows p number rows time).list dir = if dir <+: p.dir then putRows p number rows time else [] := by
  unfold putRows Store.list
  by_cases hr : rows = []
  · simp [hr]
  · rw [if_neg hr]
    by_cases hd : dir <+: p.dir
    · rw [List.filter_cons_of_pos (by simpa using hd), if_pos hd]
      rfl
    · rw [List.filter_cons_of_neg (by simpa using hd), if_neg hd]
      rfl

theorem Replaced.list {rows : List Row} (h : Replaced s table p rows t) :
    ∃ time, t.store.list (objPath table) = if objPath table <+: p.dir then putRows p s.nextFile rows time else [] := by
  obtain ⟨time, hstore⟩ := h.store
  refine ⟨time, ?_⟩
  rw [hstore, Store.list_append, Store.list_removeDir, list_putRows]
  rfl

/-- A second rewrite keeps the rows where the first one put its file among those that are listed. -/
theorem Rewrote.again_iff (hs : s.ctx.lookup table = some ⟨objPath m.path, schema⟩) (hr : Rewritable env s table m schema)
    (h : Rewrote env s table ⟨objPath m.path, schema⟩ t) (hu : Rewrote env t table ⟨objPath m.path, schema⟩ u) :
    (∀ x, (u.rows x).Perm (t.rows x)) ↔ RewrittenInPlace s table m := by
  obtain ⟨written, hw, htrades⟩ := hr.traded
  obtain ⟨rows, hperm, hreplaced⟩ := h.of_ok hw
  have hkept := hreplaced.rows_iff.mpr (htrades.perm hperm.symm) table
  obtain ⟨written', hw', hperm'⟩ := rewrittenRows_perm hkept.symm hw
  obtain ⟨rows', hperm'', hreplaced'⟩ := hu.of_ok hw'
  have hall : rows.Perm rows' := hperm.trans (hperm'.trans hperm''.symm)
  have hlen : rows.length = (s.rows table).length := hperm.length_eq.trans (length_rewrittenRows hw)
  obtain ⟨time, hlist⟩ := hreplaced.list
  rw [hreplaced'.rows_iff]
  constructor
  · intro htrades'
    refine or_iff_not_imp_left.mpr fun hout => ?_
    have hnone := htrades' table _ ((hreplaced.ctx table).trans hs)
    rw [hlist, if_neg hout, read_putRows, if_pos List.prefix_rfl] at hnone
    have hzero := hnone.length_eq
    unfold ParquetFile.read at hzero
    rw [List.length_map, ← hall.length_eq, hlen] at hzero
    exact List.length_eq_zero_iff.mp hzero.symm
  · rintro (hin | hnil) x q _
    · rw [hlist, if_pos hin]
      exact perm_putRows hall _ _ _ _ _ _
    · rw [hnil, List.length_nil, List.length_eq_zero_iff] at hlen
      subst hlen
      obtain rfl : rows' = [] := hall.nil_eq.symm
      rw [hlist]
      unfold putRows
      simp

theorem Replaced.known {rows : List Row} (h : Replaced s table p rows t) (hs : Known env s table m schema) :
    ∃ m', Known env t table m' schema ∧ m'.path = m.path ∧ m'.retentionSeconds = m.retentionSeconds := by
  obtain ⟨m', hm', hcolumns, hpath, hret⟩ := lookup_forgetStatistics h.catalog hs.catalog
  refine ⟨m', ⟨hm', by rw [hcolumns, hs.columns], fun q hq => ?_⟩, hpath, hret⟩
  rw [h.ctx] at hq
  rw [hpath, hs.provider q hq]

theorem Replaced.selectable {rows : List Row} (h : Replaced s table p rows t) :
    t.Selectable table schema ↔ s.Selectable table schema := by
  have hindexes : t.catalog.indexes = s.catalog.indexes := by
    show t.catalog.forgetStatistics.indexes = s.catalog.forgetStatistics.indexes
    rw [h.catalog]
  unfold Db.Selectable Db.firstIndexColumns CatalogData.indexesForTable
  rw [h.ctx, hindexes]

/-- **The automatic compaction keeps the rows exactly where it does not fail to start and the table can be rewritten.** -/
theorem keeps_maybeAutoCompact_iff (hs : Known env s table m schema) (hfresh : ∀ e ∈ s.store, e.1.file < s.nextFile) :
    KeepsContents (maybeAutoCompact env table) s ((maybeAutoCompact env table).final s) (objPath m.path)
        (CompactionDue env s table (objPath m.path)) ↔
      (CompactionDue env s table (objPath m.path) → CompactsTable env s table ∧ SafelyCompacted env s table m schema) := by
  obtain ⟨hreads, hidle⟩ := ends_maybeAutoCompact hs along_true
  by_cases hr : CompactsTable env s table ∧ s.Selectable table schema
  · have hdue : CompactionDue env s table (objPath m.path) := ⟨hr.1.1, hr.1.2.1, Or.inl hr.1.2.2⟩
    have hctx := hs.provider_eq hr.2.1
    have hrewrote := hreads hr
    constructor
    · intro hkeeps _
      exact ⟨hr.1, fun _ => (hrewrote.keeps_iff hctx hfresh).mp ⟨hkeeps.rows, hkeeps.files hdue⟩, fun hno => absurd hr.2 hno⟩
    · intro hsafe
      have hrewritable := (hsafe hdue).2.1 hr.2
      obtain ⟨hrows, hfiles⟩ := (hrewrote.keeps_iff hctx hfresh).mpr hrewritable
      refine ⟨hrows, fun _ => hfiles, ?_⟩
      obtain ⟨rows, hreplaced⟩ := hrewrote.replaced
      obtain ⟨m', hknown, hpath, -⟩ := hreplaced.known hs
      obtain ⟨hreads', hidle'⟩ := ends_maybeAutoCompact hknown along_true
      rw [hpath] at hreads'
      by_cases hr' : CompactsTable env ((maybeAutoCompact env table).final s) table ∧
          ((maybeAutoCompact env table).final s).Selectable table schema
      · refine (hrewrote.again_iff hctx hrewritable (hreads' hr')).mpr (Or.inl ?_)
        -- a second one starts only with a file that is listed
        obtain ⟨time, hlist⟩ := hreplaced.list
        refine Classical.byContradiction fun hout => ?_
        have hmany := hr'.1.2.2
        rw [hlist, if_neg hout] at hmany
        exact hr.1.1 (Nat.le_zero.mp hmany)
      · rw [hidle' hr']
        exact fun u => List.Perm.refl _
  · rw [hidle hr]
    have hold : ∀ dir : Dir, (∀ e ∈ s.store, dir <+: e.1.dir → s.nextFile ≤ e.1.file) → ∀ e ∈ s.store, ¬ dir <+: e.1.dir := by
      intro dir hnew e he hd
      have := hnew e he hd
      have := hfresh e he
      omega
    constructor
    · intro hkeeps hdue
      have hnone := hold _ (hkeeps.files hdue)
      have hcompacts : CompactsTable env s table := by
        refine ⟨hdue.1, hdue.2.1, hdue.2.2.resolve_right fun hmany => hdue.1 (Nat.le_zero.mp ?_)⟩
        have hempty : s.store.list (objPath m.path) = [] := List.filter_eq_nil_iff.mpr (by simpa using hnone)
        rwa [hempty] at hmany
      exact ⟨hcompacts, fun hsel => absurd ⟨hcompacts, hsel⟩ hr, fun _ => hnone⟩
    · intro hsafe
      refine ⟨fun u => List.Perm.refl _, fun hdue e he hd => ?_, fun u => ?_⟩
      · obtain ⟨hcompacts, -, hnone⟩ := hsafe hdue
        exact absurd hd (hnone (fun hsel => hr ⟨hcompacts, hsel⟩) e he)
      · rw [hidle hr]

theorem flushAll_again {s₀ : Db} (hflush : Succeeds (flushAll env) s₀)
    (hbuffer : t.writeBuffer = ((flushAll env).final s₀).writeBuffer) :
    Succeeds (flushAll env) t ∧ (flushAll env).final t = t := by
  have hkeys : t.writeBuffer.keys = [] := by
    rw [List.eq_nil_iff_forall_not_mem]
    intro k hk
    have hnone := lookup_flushAll k hflush
    rw [← hbuffer, AList.lookup_eq_none] at hnone
    exact hnone (AList.mem_keys.mpr hk)
  obtain ⟨hops, hres⟩ : (flushAll env).ops t = [] ∧ (flushAll env).result t = .ok 0 := flushAll_idle hkeys
  refine ⟨⟨0, hres⟩, ?_⟩
  unfold Prog.final
  rw [hops]
  rfl

/-- **VACUUM keeps the rows exactly where the table can be rewritten in its place.** -/
theorem keeps_handleVacuum_iff {s₀ : Db} (hflush : Succeeds (flushAll env) s₀) (hfinal : (flushAll env).final s₀ = s)
    (hs : Known env s table m schema) (hret : m.retentionSeconds = none) (hfresh : ∀ e ∈ s.store, e.1.file < s.nextFile) :
    KeepsContents (handleVacuum env table) s ((handleVacuum env table).final s₀) (objPath m.path) True ↔
      SafelyCompacted env s table m schema ∧ (s.Selectable table schema → RewrittenInPlace s table m) := by
  obtain ⟨hreads, hidle⟩ := ends_handleVacuum hflush hfinal hs hret along_true
  generalize (handleVacuum env table).final s₀ = t at hreads hidle ⊢
  by_cases hsel : s.Selectable table schema
  · have hctx := hs.provider_eq hsel.1
    have hrewrote := hreads hsel
    obtain ⟨rows, hreplaced⟩ := hrewrote.replaced
    obtain ⟨m', hknown, hpath, hret'⟩ := hreplaced.known hs
    have hidleFlush := flushAll_again hflush (hreplaced.writeBuffer.trans (by rw [hfinal]))
    have hends := ends_handleVacuum hidleFlush.1 hidleFlush.2 hknown (hret'.trans hret) along_true
    have hagain := hends.1 (hreplaced.selectable.mpr hsel)
    rw [hpath] at hagain
    constructor
    · intro hkeeps
      have hrewritable := (hrewrote.keeps_iff hctx hfresh).mp ⟨hkeeps.rows, hkeeps.files trivial⟩
      refine ⟨⟨fun _ => hrewritable, fun hno => absurd hsel hno⟩, fun _ => ?_⟩
      exact (hrewrote.again_iff hctx hrewritable hagain).mp hkeeps.again
    · intro ⟨hsafe, hplace⟩
      obtain ⟨hrows, hfiles⟩ := (hrewrote.keeps_iff hctx hfresh).mpr (hsafe.1 hsel)
      exact ⟨hrows, fun _ => hfiles, (hrewrote.again_iff hctx (hsafe.1 hsel) hagain).mpr (hplace hsel)⟩
  · have hsame := hidle hsel
    constructor
    · intro hkeeps
      refine ⟨⟨fun h => absurd h hsel, fun _ e he hd => ?_⟩, fun h => absurd h hsel⟩
      have := hkeeps.files trivial e (by rwa [hsame.store]) hd
      have := hfresh e he
      omega
    · intro ⟨hsafe, _⟩
      refine ⟨fun u => ?_, fun _ e he hd => ?_, fun u => ?_⟩
      · rw [rows_of_tables hsame.ctx hsame.store]
      · rw [hsame.store] at he
        exact absurd hd (hsafe.2 hsel e he)
      · have hknown := hs.of_sameStorage hsame
        have hidleFlush := flushAll_again hflush (hsame.writeBuffer.trans (by rw [hfinal]))
        have hsel' : ¬ t.Selectable table schema := by
          unfold Db.Selectable Db.firstIndexColumns
          rw [hsame.ctx, hsame.catalog]
          exact hsel
        have hagain := (ends_handleVacuum hidleFlush.1 hidleFlush.2 hknown hret along_true).2 hsel'
        rw [rows_of_tables hagain.ctx hagain.store]

/-- A table in its place, with rows that need no cast, can be rewritten there. -/
theorem Placed.rewritable (h : Placed [] s) (hs : Known env s table m schema) (hfound : (s.ctx.lookup table).isSome = true)
    (hn : schema.names.Nodup) (ht : ∀ row ∈ s.rows table, castRow env schema schema.names row = .ok row)
    (hcatalog : ∀ u q, s.ctx.lookup u = some q → u ∈ s.catalog.tables) :
    Rewritable env s table m schema ∧ RewrittenInPlace s table m := by
  have hctx := hs.provider_eq hfound
  have hdir : objPath m.path = objPath table := h.registered table _ hctx
  have hswept : s.Swept table (objPath m.path) := fun e _ hd => hdir ▸ hd
  refine ⟨⟨hswept, s.rows table, insertedRows_self hn ht, fun u q hq => ?_⟩, Or.inl (hdir ▸ List.prefix_rfl)⟩
  by_cases hu : u = table
  · subst hu
    obtain rfl : _ = q := Option.some.inj (hctx.symm.trans hq)
    rw [← Db.Swept.rows (p := ⟨objPath m.path, schema⟩) hswept hctx, read_putRows_self (fun _ => hn) fun row hrow => ?_]
    rw [castRow_length (ht row hrow)]
    simp [Schema.names]
  · obtain ⟨hup, hdown⟩ := h.catalog.apart table (hcatalog _ _ hctx) u (mem_keys_iff.mpr (hcatalog _ _ hq)) hu
    rw [h.registered u q hq, read_putRows, if_neg (by rw [hdir]; exact hup)]
    -- no file is in both directories
    have hnone : Store.list (s.store.list (objPath table)) (objPath u) = [] := by
      rw [Store.list, List.filter_eq_nil_iff]
      intro e he hd
      exact (prefix_cases (List.isPrefixOf_iff_prefix.mp hd) (Store.mem_list.mp he).2).elim hup hdown
    unfold Store.read
    rw [hnone]
    exact List.Perm.refl _

end

/-! ## Flags -/

/-- Compactions start with one file. -/
def compactEnv : Env := { renameEnv with autoCompactFileThreshold := 1 }

instance decidableTrades (s : Db) (table : String) (p : Provider) (rows : List Row) : Decidable (s.Trades table p rows) :=
  decidable_of_iff (∀ q ∈ s.ctx.values,
      ((s.store.list (objPath table)).read q.dir q.schema.names).Perm ((putRows p 0 rows 0).read q.dir q.schema.names))
    ⟨fun h _ q hq => h q (Map.values_mem hq), fun h q hq => (Map.mem_values hq).elim fun u hu => h u q hu⟩

/-- A NULL in a column that does not take it any more. -/
def nullDb : Db := { flagsDb [[.null]] [] with
  catalog := CatalogData.empty.addTable { flagMeta with columns := [⟨"a", "BOOLEAN", false⟩] }
  ctx := AList.insert "t" ⟨["t"], [⟨"a", "BOOLEAN", false⟩]⟩ ∅ }

end PotatoDB
