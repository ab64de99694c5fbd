import PotatoDB.Constraints

/-!
# The two validators

Rows that come in are checked against the key texts of the stored rows; the whole-table
queries check the stored rows together with them. The two agree on a table and a batch unless
a key that the standard meaning allows twice, one with NULL, comes twice, or two different
keys have one text.
-/

namespace PotatoDB

open Oplog Oplog.Prog

section
variable {env : Env}

/-! ## Key texts -/

def tupleTexts (env : Env) (key : List Value) : List String :=
  key.map (arrayValueToSqlLiteral env.debug)

def keyText (env : Env) (key : List Value) : String := joinUnits (tupleTexts env key)

theorem ofList_quote_ne_null (cs : List Char) : String.ofList (quoteChar :: cs) ≠ "NULL" := by
  intro h
  have := congrArg String.toList h
  rw [String.toList_ofList] at this
  exact absurd (List.cons.inj (this.trans (show "NULL".toList = 'N' :: ['U', 'L', 'L'] from rfl))).1 (by decide)

theorem literal_eq_null {debug : Value → String} {v : Value} (h : v ≠ .nullArray) :
    arrayValueToSqlLiteral debug v = "NULL" ↔ v.isNull = true := by
  cases v with
  | null => simp [arrayValueToSqlLiteral, Value.isNull]
  | nullArray => exact absurd rfl h
  | number digits => simp [arrayValueToSqlLiteral, Value.isNull, digits.plain.1]
  | bool b => cases b <;> simp [arrayValueToSqlLiteral, Value.isNull]
  | text s => exact iff_of_false (ofList_quote_ne_null _) nofun
  | uuid hex => exact iff_of_false (ofList_quote_ne_null _) nofun
  | other t b => exact iff_of_false (ofList_quote_ne_null _) nofun

theorem tupleTexts_null (env : Env) {key : List Value} (h : Value.nullArray ∉ key) :
    ((tupleTexts env key).any (· = "NULL")) = hasNull key := by
  rw [Bool.eq_iff_iff, tupleTexts, hasNull, List.any_eq_true, List.any_eq_true]
  constructor
  · rintro ⟨t, ht, he⟩
    obtain ⟨v, hv, rfl⟩ := List.mem_map.mp ht
    exact ⟨v, hv, (literal_eq_null (fun e => h (e ▸ hv))).mp (of_decide_eq_true he)⟩
  · rintro ⟨v, hv, he⟩
    exact ⟨_, List.mem_map_of_mem hv, decide_eq_true ((literal_eq_null (fun e => h (e ▸ hv))).mpr he)⟩

theorem keyTexts_keys {skip : Bool} {names columns : List String} {rows : List Row}
    (ht : ∀ row ∈ rows, row.Typed) :
    keyTexts env skip (keys names columns rows) =
      ((keys names columns rows).filter fun k => !(skip && hasNull k)).map (keyText env) := by
  unfold keyTexts
  rw [List.filter_map, List.map_map]
  have he : ((keys names columns rows).filter
      ((fun t => !(skip && t.any (· = "NULL"))) ∘ fun key => key.map (arrayValueToSqlLiteral env.debug))) =
      (keys names columns rows).filter fun k => !(skip && hasNull k) := by
    refine List.filter_congr fun k hk => ?_
    obtain ⟨row, hrow, rfl⟩ := List.mem_map.mp hk
    rw [← tupleTexts_null env (ht row hrow).keyOf]
    rfl
  rw [he]
  rfl

/-! ## Collecting keys -/

theorem collectKeys_eq_ok {nullError : Option String} {duplicateError : String} :
    ∀ {seen : List String} {tuples values : List (List String)},
      collectKeys nullError duplicateError seen (tuples.map .ok) = .ok values ↔
        values = tuples.filter (fun t => !t.any (· = "NULL")) ∧
        (nullError.isSome → ∀ t ∈ tuples, t.any (· = "NULL") = false) ∧
        (values.map joinUnits).Nodup ∧ ∀ v ∈ values, joinUnits v ∉ seen
  | seen, [], values => by
    simp only [List.map_nil, collectKeys, List.filter_nil]
    constructor
    · intro h
      cases h
      simp
    · rintro ⟨rfl, -⟩
      rfl
  | seen, t :: ts, values => by
    simp only [List.map_cons, collectKeys]
    by_cases hn : t.any (· = "NULL") = true
    · rw [if_pos hn, List.filter_cons_of_neg (by rw [hn]; nofun)]
      cases nullError with
      | some e =>
        refine ⟨nofun, ?_⟩
        rintro ⟨-, hnull, -⟩
        exact absurd ((hnull rfl t (by simp)).symm.trans hn) nofun
      | none => simpa using @collectKeys_eq_ok none duplicateError seen ts values
    · rw [Bool.not_eq_true] at hn
      rw [if_neg (by rw [hn]; nofun), List.filter_cons_of_pos (by rw [hn]; rfl)]
      by_cases hs : seen.contains (joinUnits t) = true
      · rw [if_pos hs]
        refine ⟨nofun, ?_⟩
        rintro ⟨rfl, -, -, hseen⟩
        exact absurd (List.contains_iff_mem.mp hs) (hseen t (by simp))
      · rw [if_neg hs]
        rw [List.contains_iff_mem] at hs
        cases hc : collectKeys nullError duplicateError (joinUnits t :: seen) (ts.map .ok) with
        | error e =>
          refine ⟨nofun, ?_⟩
          rintro ⟨rfl, hnull, hnd, hseen⟩
          rw [List.map_cons, List.nodup_cons] at hnd
          have : collectKeys nullError duplicateError (joinUnits t :: seen) (ts.map .ok) =
              .ok (ts.filter fun t => !t.any (· = "NULL")) := by
            refine collectKeys_eq_ok.mpr ⟨rfl, fun h t' ht' => hnull h t' (by simp [ht']), hnd.2, ?_⟩
            intro v hv hmem
            rcases List.mem_cons.mp hmem with he | hm
            · exact hnd.1 (he ▸ List.mem_map_of_mem hv)
            · exact hseen v (by simp [hv]) hm
          rw [hc] at this
          cases this
        | ok vs =>
          obtain ⟨rfl, hnull, hnd, hseen⟩ := collectKeys_eq_ok.mp hc
          refine ⟨?_, ?_⟩
          · intro h
            cases h
            refine ⟨rfl, ?_, ?_, ?_⟩
            · intro h t' ht'
              rcases List.mem_cons.mp ht' with rfl | hm
              · exact hn
              · exact hnull h t' hm
            · rw [List.map_cons, List.nodup_cons]
              refine ⟨fun hm => ?_, hnd⟩
              obtain ⟨v, hv, he⟩ := List.mem_map.mp hm
              exact hseen v hv (by simp [he])
            · intro v hv
              rcases List.mem_cons.mp hv with rfl | hm
              · exact hs
              · exact fun h => hseen v hm (by simp [h])
          · rintro ⟨rfl, -⟩
            rfl

/-! ## The positions of columns -/

theorem columnPosition_eq {targets : List String} {c : String} {i : Nat}
    (h : columnPosition targets c = some i) : targets[i]? = some c := by
  obtain ⟨p, hp, rfl⟩ := Option.map_eq_some_iff.mp h
  have hm := List.mem_zipIdx_iff_getElem?.mp (List.mem_reverse.mp (List.mem_of_find?_eq_some hp))
  have hc := List.find?_some hp
  rwa [of_decide_eq_true hc] at hm

theorem columnPosition_mem {targets : List String} {c : String} (h : c ∈ targets) :
    ∃ i, columnPosition targets c = some i := by
  obtain ⟨i, hi, rfl⟩ := List.mem_iff_getElem.mp h
  unfold columnPosition
  cases hf : targets.zipIdx.reverse.find? (·.1 = targets[i]) with
  | some p => exact ⟨p.2, rfl⟩
  | none =>
    have := List.find?_eq_none.mp hf (targets[i], i)
      (by simp [List.mem_zipIdx_iff_getElem?, hi])
    simp at this

theorem keyTuple_eq (env : Env) {targets : List String} (hn : targets.Nodup) : ∀ {columns : List String},
    (∀ c ∈ columns, c ∈ targets) → ∃ positions, columns.mapM (columnPosition targets) = some positions ∧
      ∀ row, keyTuple env targets.length positions row = .ok (tupleTexts env (keyOf targets columns row))
  | [], _ => ⟨[], rfl, fun _ => rfl⟩
  | c :: cs, hc => by
    obtain ⟨i, hi⟩ := columnPosition_mem (hc c (by simp))
    have hcs : ∀ c' ∈ cs, c' ∈ targets := fun c' h => hc c' (List.mem_cons_of_mem _ h)
    obtain ⟨is, his, hrow⟩ := keyTuple_eq env hn hcs
    have hat := columnPosition_eq hi
    refine ⟨i :: is, by simp [List.mapM_cons, hi, his], fun row => ?_⟩
    have hlt : i < targets.length := (List.getElem?_eq_some_iff.mp hat).1
    have hv : namedValue targets row c = (row[i]?).getD .null := by
      unfold namedValue
      rw [lookup_zip hn hat]
    have := hrow row
    unfold keyTuple at this ⊢
    rw [List.mapM_cons, if_pos hlt, this, ← hv]
    rfl

theorem keyTuples_eq {targets columns : List String} {batches : List RecordBatch} {positions : List Nat}
    (hw : ∀ b ∈ batches, b.schema.length = targets.length)
    (hrow : ∀ row, keyTuple env targets.length positions row = .ok (tupleTexts env (keyOf targets columns row))) :
    keyTuples env positions batches =
      ((keys targets columns (allRows batches)).map (tupleTexts env)).map .ok := by
  induction batches with
  | nil => rfl
  | cons b bs ih =>
    have hb : b.rows.map (keyTuple env b.schema.length positions) =
        ((keys targets columns b.rows).map (tupleTexts env)).map .ok := by
      rw [hw b (by simp), List.map_congr_left fun row _ => hrow row]
      simp [keys, Function.comp_def]
    have := ih fun b' h => hw b' (by simp [h])
    unfold keyTuples allRows at this ⊢
    rw [List.flatMap_cons, List.flatMap_cons, hb, this, keys_append, List.map_append, List.map_append]

/-! ## The cache -/

/-- The cache entry of a key constraint: its key, its columns, and whether keys with NULL are left out. -/
def TableConstraint.cacheEntry (table : String) : TableConstraint → Option (String × List String × Bool)
  | primaryKey columns => some (uniquenessCacheKeyPk table columns, columns, false)
  | unique name columns => some (uniquenessCacheKeyUnique table name, columns, true)
  | check .. | foreignKey .. => none

@[simp] theorem relation_cacheInsert (s : Db) (key : String) (texts : List String) :
    (Machine.apply s (Op.cacheInsert key texts)).relation = s.relation := rfl

section
variable {s : Db} {table cacheKey : String} {columns : List String} {skip : Bool} {r : Relation}
  {ks : List (List Value)}

theorem ensureUniquenessLoaded_eq (env : Env) (hr : s.relation table = some r) (hk : r.project columns = .ok ks)
    (hc : s.uniquenessCache.lookup cacheKey = none ∨
      s.uniquenessCache.lookup cacheKey = some (keyTexts env skip ks)) :
    (ensureUniquenessLoaded env cacheKey table columns skip).result s = .ok () ∧
    ((ensureUniquenessLoaded env cacheKey table columns skip).final s = s ∨
      (ensureUniquenessLoaded env cacheKey table columns skip).final s =
        Machine.apply s (.cacheInsert cacheKey (keyTexts env skip ks))) ∧
    ((ensureUniquenessLoaded env cacheKey table columns skip).final s).uniquenessCache.lookup cacheKey =
      some (keyTexts env skip ks) := by
  unfold ensureUniquenessLoaded
  rw [result_bind, final_bind, result_get, final_get]
  rcases hc with hc | hc
  · have hs : (selectStar table).result s = .ok r ∧ (selectStar table).final s = s := by
      unfold selectStar
      rw [result_bind, final_bind, result_get, final_get]
      simp only [hr]
      exact ⟨rfl, rfl⟩
    simp only [hc, Option.isSome_none, Bool.false_eq_true, if_false]
    rw [result_bind, final_bind, hs.1]
    simp only [hs.2]
    rw [result_bind, final_bind, result_check, hk]
    refine ⟨rfl, Or.inr rfl, ?_⟩
    exact AList.lookup_insert _
  · simp only [hc, Option.isSome_some, if_true]
    exact ⟨rfl, Or.inl rfl, hc⟩

theorem checkUniqueness_eq (hr : s.relation table = some r) (hk : r.project columns = .ok ks)
    (hc : s.uniquenessCache.lookup cacheKey = none ∨
      s.uniquenessCache.lookup cacheKey = some (keyTexts env skip ks)) (values : List (List String))
    (message : String) :
    (Succeeds (checkUniquenessAgainstTableCached env cacheKey table columns values skip message) s ↔
      ∀ v ∈ values, joinUnits v ∉ keyTexts env skip ks) ∧
    ((checkUniquenessAgainstTableCached env cacheKey table columns values skip message).final s = s ∨
      (checkUniquenessAgainstTableCached env cacheKey table columns values skip message).final s =
        Machine.apply s (.cacheInsert cacheKey (keyTexts env skip ks))) := by
  obtain ⟨hres, hfin, hlook⟩ := ensureUniquenessLoaded_eq env hr hk hc
  unfold checkUniquenessAgainstTableCached
  rw [succeeds_bind_of_ok hres, succeeds_get_bind, final_bind_readOnly fun _ => readOnly_get.bind fun _ => ?_]
  · simp only [hlook, Option.getD_some]
    refine ⟨?_, hfin⟩
    by_cases ha : (values.any fun v => (keyTexts env skip ks).contains (joinUnits v)) = true
    · rw [if_pos ha]
      refine iff_of_false (not_succeeds_throw _) fun h => ?_
      obtain ⟨v, hv, hm⟩ := List.any_eq_true.mp ha
      exact h v hv (List.contains_iff_mem.mp hm)
    · rw [if_neg ha]
      refine iff_of_true (succeeds_pure _) fun v hv hm => ha ?_
      exact List.any_eq_true.mpr ⟨v, hv, List.contains_iff_mem.mpr hm⟩
  · dsimp only
    split
    · exact readOnly_throw _
    · exact readOnly_pure _

end

/-! ## Keys of incoming rows -/

/-- The incoming rows pass against the key texts of the stored rows. -/
def KeysPass (env : Env) (required : Bool) (names columns : List String) (stored incoming : List Row) : Prop :=
  (required = true → ∀ k ∈ keys names columns incoming, hasNull k = false) ∧
  ((fullKeys names columns incoming).map (keyText env)).Nodup ∧
  ∀ k ∈ fullKeys names columns incoming, keyText env k ∉ keyTexts env (!required) (keys names columns stored)

section
variable {s : Db} {table cacheKey : String} {columns targets : List String} {nullError : Option String}
  {positions : List Nat} {batches : List RecordBatch} {r : Relation} {incoming : List Row}

theorem validateKeys_eq (hr : s.relation table = some r) (hk : r.project columns = .ok (keys r.schema.names columns r.rows))
    (hc : s.uniquenessCache.lookup cacheKey = none ∨ s.uniquenessCache.lookup cacheKey =
      some (keyTexts env nullError.isNone (keys r.schema.names columns r.rows)))
    (ht : keyTuples env positions batches =
      ((keys r.schema.names columns incoming).map (tupleTexts env)).map .ok)
    (htyped : ∀ row ∈ incoming, row.Typed) (message : String) :
    (Succeeds (validateKeys env table columns cacheKey message nullError positions batches) s ↔
      KeysPass env nullError.isSome r.schema.names columns r.rows incoming) ∧
    ((validateKeys env table columns cacheKey message nullError positions batches).final s = s ∨
      (validateKeys env table columns cacheKey message nullError positions batches).final s =
        Machine.apply s (.cacheInsert cacheKey
          (keyTexts env nullError.isNone (keys r.schema.names columns r.rows)))) := by
  have hnull : ∀ k ∈ keys r.schema.names columns incoming,
      (tupleTexts env k).any (· = "NULL") = hasNull k := by
    intro k hk
    obtain ⟨row, hrow, rfl⟩ := List.mem_map.mp hk
    exact tupleTexts_null env (htyped row hrow).keyOf
  have hfilter : ((keys r.schema.names columns incoming).map (tupleTexts env)).filter
      (fun t => !t.any (· = "NULL")) = (fullKeys r.schema.names columns incoming).map (tupleTexts env) := by
    rw [List.filter_map, fullKeys]
    exact congrArg _ (List.filter_congr fun k hk => congrArg _ (hnull k hk))
  have hcollect : ∀ values, collectKeys nullError message [] (keyTuples env positions batches) = .ok values ↔
      values = (fullKeys r.schema.names columns incoming).map (tupleTexts env) ∧
      (nullError.isSome = true → ∀ k ∈ keys r.schema.names columns incoming, hasNull k = false) ∧
      ((fullKeys r.schema.names columns incoming).map (keyText env)).Nodup := by
    intro values
    rw [ht, collectKeys_eq_ok, hfilter]
    refine and_congr_right fun hv => and_congr ?_ ?_
    · refine imp_congr_right fun _ => ⟨fun h k hk => ?_, fun h t ht' => ?_⟩
      · rw [← hnull k hk]
        exact h _ (List.mem_map_of_mem hk)
      · obtain ⟨k, hk, rfl⟩ := List.mem_map.mp ht'
        rw [hnull k hk]
        exact h k hk
    · rw [hv, List.map_map]
      exact ⟨fun h => h.1, fun h => ⟨h, by simp⟩⟩
  unfold validateKeys
  rw [succeeds_check_bind, final_bind, result_check, final_check]
  cases hcol : collectKeys nullError message [] (keyTuples env positions batches) with
  | error e =>
    refine ⟨iff_of_false (by rintro ⟨_, h, -⟩; cases h) fun h => ?_, Or.inl rfl⟩
    rw [(hcollect _).mpr ⟨rfl, h.1, h.2.1⟩] at hcol
    cases hcol
  | ok values =>
    obtain ⟨rfl, hreq, hnd⟩ := (hcollect _).mp hcol
    simp only [Except.ok.injEq, exists_eq_left']
    cases hfull : fullKeys r.schema.names columns incoming with
    | nil =>
      refine ⟨iff_of_true (succeeds_pure _) ⟨hreq, ?_, ?_⟩, Or.inl rfl⟩
      · rw [hfull]
        exact List.nodup_nil
      · rw [hfull]
        simp
    | cons k ks =>
      have hu := checkUniqueness_eq hr hk hc ((k :: ks).map (tupleTexts env)) message
      simp only [List.map_cons, List.isEmpty_cons, Bool.false_eq_true, if_false] at hu ⊢
      rw [succeeds_bind_of_succeeds fun _ _ => succeeds_pure _, hu.1,
        final_bind_readOnly fun _ => readOnly_pure _]
      refine ⟨?_, hu.2⟩
      have hskip : nullError.isNone = !nullError.isSome := by cases nullError <;> rfl
      unfold KeysPass
      rw [hskip, hfull]
      refine ⟨fun h => ⟨hreq, hfull ▸ hnd, fun k' hk' => ?_⟩, fun h v hv => ?_⟩
      · have hm : tupleTexts env k' ∈ (k :: ks).map (tupleTexts env) := List.mem_map_of_mem hk'
        exact h (tupleTexts env k') hm
      · have hv' : v ∈ (k :: ks).map (tupleTexts env) := hv
        obtain ⟨k', hk', rfl⟩ := List.mem_map.mp hv'
        exact h.2.2 k' hk'

end

/-! ## A batch for a table -/

/-- A row of incoming columns in the order of the table. -/
def Row.reorder (targets names : List String) (row : Row) : Row := names.map (namedValue targets row)

/-- DataFusion finds the columns of a CHECK expression by their names. -/
structure ChecksByName (env : Env) : Prop where
  plansCheck : ∀ {expr : String} {xs ys : List (String × String)}, xs.Perm ys → (xs.map (·.1)).Nodup →
    env.plansCheck expr xs = env.plansCheck expr ys
  evalCheck : ∀ {expr : String} {xs ys : List (String × Value)}, xs.Perm ys → (xs.map (·.1)).Nodup →
    env.evalCheck expr xs = env.evalCheck expr ys

/-- The batches have the columns `targets`, which are the columns of the table, with its types;
the table's constraints are about its columns and no cache entry is loaded for them. -/
structure Supplies (db : Db) (table : String) (m : TableMeta) (r : Relation) (targets : List String)
    (schema : Schema) (batches : List RecordBatch) : Prop where
  catalog : db.catalog.tables.lookup table = some m
  relation : db.relation table = some r
  nodup : r.schema.names.Nodup
  width : schema.length = targets.length
  columns : (targets.zip (schema.map (·.dataType))).Perm (r.schema.map fun f => (f.name, f.dataType))
  batchNames : schema.names.Nodup
  batchSchema : ∀ b ∈ batches, b.schema = schema
  batchRows : ∀ row ∈ allRows batches, row.length = targets.length ∧ row.Typed
  storedRows : ∀ row ∈ r.rows, row.Typed
  wellFormed : ∀ c ∈ m.constraints, c.WellFormed r.schema.names
  unloaded : ∀ c ∈ m.constraints, ∀ e, c.cacheEntry table = some e → db.uniquenessCache.lookup e.1 = none
  ownEntry : ∀ c ∈ m.constraints, ∀ c' ∈ m.constraints, ∀ e e', c.cacheEntry table = some e →
    c'.cacheEntry table = some e' → e.1 = e'.1 → e = e'

/-- The incoming rows pass the check of one constraint. -/
def Passes (env : Env) (schema : Schema) (stored incoming : List Row) : TableConstraint → Prop
  | .primaryKey columns => KeysPass env true schema.names columns stored incoming
  | .unique _ columns => KeysPass env false schema.names columns stored incoming
  | .check _ expr => incoming = [] ∨ CheckHolds env expr schema incoming
  | .foreignKey .. => True

/-- Every loaded cache entry of the table's constraints holds the key texts of the stored rows. -/
structure Loaded (env : Env) (table : String) (m : TableMeta) (r : Relation) (s : Db) : Prop where
  relation : s.relation table = some r
  cache : ∀ c ∈ m.constraints, ∀ key columns skip, c.cacheEntry table = some (key, columns, skip) →
    s.uniquenessCache.lookup key = none ∨
      s.uniquenessCache.lookup key = some (keyTexts env skip (keys r.schema.names columns r.rows))

section
variable {db : Db} {table : String} {m : TableMeta} {r : Relation} {targets : List String} {schema : Schema}
  {batches : List RecordBatch} (h : Supplies db table m r targets schema batches)
include h

theorem Supplies.targets_perm : targets.Perm r.schema.names := by
  have := h.columns.map Prod.fst
  rw [List.map_fst_zip (by rw [List.length_map, h.width]), List.map_map] at this
  exact this

theorem Supplies.targets_nodup : targets.Nodup := h.targets_perm.nodup_iff.mpr h.nodup

theorem namedValue_reorder (row : Row) {c : String} (hc : c ∈ r.schema.names) :
    namedValue r.schema.names (row.reorder targets r.schema.names) c = namedValue targets row c := by
  obtain ⟨i, hi, rfl⟩ := List.mem_iff_getElem.mp hc
  have hat : r.schema.names[i]? = some r.schema.names[i] := List.getElem?_eq_getElem hi
  rw [namedValue, lookup_zip h.nodup hat, Row.reorder, List.getElem?_map, hat]
  rfl

theorem keys_reorder {columns : List String} (hc : ∀ c ∈ columns, c ∈ r.schema.names) (rows : List Row) :
    keys r.schema.names columns (rows.map (Row.reorder targets r.schema.names)) = keys targets columns rows := by
  rw [keys, List.map_map]
  refine List.map_congr_left fun row _ => ?_
  exact List.map_congr_left fun c hm => namedValue_reorder h row (hc c hm)

theorem reorder_perm {row : Row} (hr : row.length = targets.length) :
    (targets.zip row).Perm (r.schema.names.zip (row.reorder targets r.schema.names)) := by
  have hz : r.schema.names.zip (row.reorder targets r.schema.names) =
      r.schema.names.map fun n => (n, namedValue targets row n) := zip_map_self _ _
  have ht : targets.zip row = targets.map fun n => (n, namedValue targets row n) := by
    refine List.ext_getElem (by simp [hr]) fun i h1 h2 => ?_
    have hi : i < targets.length := by simpa using h2
    have hat : targets[i]? = some targets[i] := List.getElem?_eq_getElem hi
    rw [List.getElem_zip, List.getElem_map, namedValue, lookup_zip h.targets_nodup hat,
      List.getElem?_eq_getElem (hr ▸ hi)]
    rfl
  rw [hz, ht]
  exact h.targets_perm.map _

theorem reorder_typed : ∀ row ∈ (allRows batches).map (Row.reorder targets r.schema.names), row.Typed := by
  rintro row hrow hm
  obtain ⟨row, hin, rfl⟩ := List.mem_map.mp hrow
  exact (h.batchRows row hin).2.keyOf hm

/-! ## The incremental check -/

theorem loaded_db : Loaded env table m r db :=
  ⟨h.relation, fun c hc _ _ _ he => Or.inl (h.unloaded c hc _ he)⟩

theorem loaded_cacheInsert {s : Db} (hl : Loaded env table m r s) {c : TableConstraint} (hc : c ∈ m.constraints)
    {key : String} {columns : List String} {skip : Bool} (he : c.cacheEntry table = some (key, columns, skip)) :
    Loaded env table m r
      (Machine.apply s (.cacheInsert key (keyTexts env skip (keys r.schema.names columns r.rows)))) := by
  refine ⟨hl.relation, fun c' hc' key' columns' skip' he' => ?_⟩
  by_cases hk : key' = key
  · have := h.ownEntry c hc c' hc' _ _ he he' hk.symm
    simp only [Prod.mk.injEq] at this
    obtain ⟨rfl, rfl, rfl⟩ := this
    exact Or.inr (AList.lookup_insert _)
  · show (AList.insert key _ s.uniquenessCache).lookup key' = none ∨
      (AList.insert key _ s.uniquenessCache).lookup key' = _
    rw [AList.lookup_insert_ne hk]
    exact hl.cache c' hc' key' columns' skip' he'

/-- One key constraint: it passes or fails on the key texts, and leaves the cache loaded. -/
theorem validateKeys_iff {s : Db} (hl : Loaded env table m r s) {c : TableConstraint} (hc : c ∈ m.constraints)
    {key : String} {columns : List String} {nullError : Option String} (message : String)
    (he : c.cacheEntry table = some (key, columns, nullError.isNone))
    (hw : columns.Nodup ∧ ∀ n ∈ columns, n ∈ r.schema.names) :
    ∃ positions, columns.mapM (columnPosition targets) = some positions ∧
      (Succeeds (validateKeys env table columns key message nullError positions batches) s ↔
        KeysPass env nullError.isSome r.schema.names columns r.rows
          ((allRows batches).map (Row.reorder targets r.schema.names))) ∧
      Loaded env table m r ((validateKeys env table columns key message nullError positions batches).final s) := by
  have hmem : ∀ n ∈ columns, n ∈ targets := fun n hn => h.targets_perm.mem_iff.mpr (hw.2 n hn)
  obtain ⟨positions, hp, hrow⟩ := keyTuple_eq env h.targets_nodup hmem
  have hwidth : ∀ b ∈ batches, b.schema.length = targets.length := fun b hb => by
    rw [h.batchSchema b hb, h.width]
  have ht := keyTuples_eq hwidth hrow
  rw [← keys_reorder h hw.2] at ht
  have hv := validateKeys_eq hl.relation (project_eq hw.1 hw.2) (hl.cache c hc _ _ _ he) ht (reorder_typed h) message
  refine ⟨positions, hp, hv.1, ?_⟩
  rcases hv.2 with hf | hf
  · rw [hf]
    exact hl
  · rw [hf]
    exact loaded_cacheInsert h hl hc he

theorem incomingSchema_eq : ∃ incoming, incomingSchema targets schema = some incoming ∧
    incoming.map (fun f => (f.name, f.dataType)) = targets.zip (schema.map (·.dataType)) ∧
    incoming.names = targets := by
  refine ⟨_, if_pos ⟨h.targets_nodup, h.batchNames⟩, ?_, ?_⟩
  · rw [List.map_map, List.zip_map_right]
    rfl
  · rw [Schema.names, List.map_map]
    exact List.map_fst_zip (by rw [h.width])

theorem checkHolds_incoming (hn : ChecksByName env) (expr : String) {incoming : Schema}
    (hi : incoming.map (fun f => (f.name, f.dataType)) = targets.zip (schema.map (·.dataType)))
    (hin : incoming.names = targets) :
    CheckHolds env expr incoming (allRows batches) ↔
      CheckHolds env expr r.schema ((allRows batches).map (Row.reorder targets r.schema.names)) := by
  have hfst : ((targets.zip (schema.map (·.dataType))).map (·.1)).Nodup := by
    have := h.targets_nodup
    rwa [List.map_fst_zip (by rw [List.length_map, h.width])]
  unfold CheckHolds
  rw [hi, hin, hn.plansCheck h.columns hfst, List.forall_mem_map]
  refine and_congr_right fun _ => forall_congr' fun row => imp_congr_right fun hrow => ?_
  have hlen := (h.batchRows row hrow).1
  have hnd : ((targets.zip row).map (·.1)).Nodup := by
    rw [List.map_fst_zip (by rw [hlen])]
    exact h.targets_nodup
  rw [hn.evalCheck (reorder_perm h hlen) hnd]

omit h in
theorem allRows_nonempty (bs : List RecordBatch) : allRows (bs.filter fun b => 0 < b.numRows) = allRows bs := by
  induction bs with
  | nil => rfl
  | cons b bs ih =>
    unfold allRows at ih ⊢
    rw [List.filter_cons, List.flatMap_cons]
    by_cases hb : 0 < b.numRows
    · rw [if_pos (by simpa using hb), List.flatMap_cons, ih]
    · have : b.rows = [] := by
        unfold RecordBatch.numRows at hb
        exact List.eq_nil_of_length_eq_zero (by omega)
      rw [if_neg (by simpa using hb), ih, this, List.nil_append]

omit h in
/-- The query over the incoming rows under their target names. -/
theorem countFalse_succeeds {α : Type} {expr : String} {schema : Schema} {rows : List Row} {s : Db}
    {message : Nat → String} {k : M α} {Q : Prop} (hk : Succeeds k s ↔ Q) :
    Succeeds (check (countFalse env expr schema rows) >>= fun violating =>
      if violating > 0 then throw (message violating) else k) s ↔ CheckHolds env expr schema rows ∧ Q := by
  rw [succeeds_check_bind, ← countFalse_eq_zero]
  constructor
  · rintro ⟨n, hn, hs⟩
    by_cases hpos : n > 0
    · rw [if_pos hpos] at hs
      exact absurd hs (not_succeeds_throw _)
    · rw [if_neg hpos] at hs
      obtain rfl : n = 0 := by omega
      exact ⟨hn, hk.mp hs⟩
  · rintro ⟨hz, hq⟩
    exact ⟨0, hz, hk.mpr hq⟩

/-- **The incremental check succeeds when the incoming rows pass each constraint.** -/
theorem validateConstraintsLoop_iff (hn : ChecksByName env)
    (hT : ∀ c ∈ m.constraints, Satisfies env r.schema r.rows c) :
    ∀ {cs : List TableConstraint} {s : Db} {merges : Merges}, Loaded env table m r s →
      (∀ c ∈ cs, c ∈ m.constraints) →
      (Succeeds (validateConstraintsLoop env table targets batches .beforeInsert cs merges) s ↔
        ∀ c ∈ cs, Passes env r.schema r.rows ((allRows batches).map (Row.reorder targets r.schema.names)) c)
  | [], s, merges, _, _ => by simp [validateConstraintsLoop]
  | .primaryKey columns :: cs, s, merges, hl, hcs => by
    have hc := hcs _ List.mem_cons_self
    obtain ⟨positions, hp, hv, hl'⟩ := @validateKeys_iff env _ _ _ _ _ _ _ h _ hl _ hc _ _
      (some (primaryKeyMessage table columns)) (primaryKeyMessage table columns) rfl (h.wellFormed _ hc).2
    rw [validateConstraintsLoop, if_neg (by simp), hp, List.forall_mem_cons]
    exact succeeds_bind_iff hv fun keys =>
      validateConstraintsLoop_iff hn hT hl' fun c' h' => hcs c' (List.mem_cons_of_mem _ h')
  | .unique name columns :: cs, s, merges, hl, hcs => by
    have hc := hcs _ List.mem_cons_self
    obtain ⟨positions, hp, hv, hl'⟩ := @validateKeys_iff env _ _ _ _ _ _ _ h _ hl _ hc _ _
      none (uniqueMessage table name) rfl (h.wellFormed _ hc).2
    rw [validateConstraintsLoop, if_neg (by simp), hp, List.forall_mem_cons]
    exact succeeds_bind_iff hv fun keys =>
      validateConstraintsLoop_iff hn hT hl' fun c' h' => hcs c' (List.mem_cons_of_mem _ h')
  | .check name expr :: cs, s, merges, hl, hcs => by
    have hc := hcs _ List.mem_cons_self
    have ih := @validateConstraintsLoop_iff hn hT cs s merges hl fun c' h' => hcs c' (List.mem_cons_of_mem _ h')
    rw [validateConstraintsLoop, if_neg (by simp), List.forall_mem_cons]
    have hrows := allRows_nonempty batches
    cases hne : batches.filter fun b => 0 < b.numRows with
    | nil =>
      rw [hne] at hrows
      have hnil : allRows batches = [] := hrows.symm
      simp only [ih]
      exact (and_iff_right (Or.inl (by rw [hnil]; rfl))).symm
    | cons b bs =>
      have hin : ∀ b' ∈ b :: bs, b' ∈ batches ∧ 0 < b'.numRows := fun b' hb' => by
        rw [← hne] at hb'
        simpa using List.mem_filter.mp hb'
      have hb := hin b List.mem_cons_self
      have hsch : ∀ b' ∈ b :: bs, b'.schema = schema := fun b' hb' => h.batchSchema b' (hin b' hb').1
      have hne' : (allRows batches).map (Row.reorder targets r.schema.names) ≠ [] := by
        intro he
        have : allRows batches = [] := List.map_eq_nil_iff.mp he
        rw [← hrows, hne, allRows, List.flatMap_cons, List.append_eq_nil_iff] at this
        exact absurd hb.2 (by simp [RecordBatch.numRows, this.1])
      obtain ⟨incoming, hi, hpairs, hnames⟩ := incomingSchema_eq h
      have hplans := checkHolds_incoming h hn expr hpairs hnames
      have hplan : env.plansCheck expr (incoming.map fun f => (f.name, f.dataType)) = true := by
        have hfst : ((targets.zip (schema.map (·.dataType))).map (·.1)).Nodup := by
          rw [List.map_fst_zip (by rw [List.length_map, h.width])]
          exact h.targets_nodup
        rw [hpairs, hn.plansCheck h.columns hfst]
        exact (hT _ hc).1
      simp only [h.batchSchema b hb.1, h.width, ne_eq, not_true_eq_false, if_false, hi, hplan, if_true,
        memTable_self hsch]
      rw [succeeds_bind_of_ok (result_check _), final_check, countFalse_succeeds ih, ← hne, hrows, hplans]
      exact and_congr_left fun _ => ⟨Or.inr, fun hp => hp.resolve_left hne'⟩
  | .foreignKey name columns refTable refColumns onDelete :: cs, s, merges, hl, hcs => by
    rw [validateConstraintsLoop, if_pos (by simp), List.forall_mem_cons,
      validateConstraintsLoop_iff hn hT hl fun c' h' => hcs c' (List.mem_cons_of_mem _ h')]
    exact (and_iff_right trivial).symm

end

/-! ## The whole-table queries -/

/-- The whole-table queries of one constraint succeed. -/
def Accepted (env : Env) (table : String) (s : Db) (c : TableConstraint) : Prop :=
  Succeeds (validateTableConstraint table c) s ∧ Succeeds (validateCheckConstraint env table c) s

section
variable {table : String}

theorem succeeds_selectStar_bind {α : Type} {s : Db} {f : Relation → M α} :
    Succeeds (selectStar table >>= f) s ↔ ∃ r, s.relation table = some r ∧ Succeeds (f r) s := by
  rw [succeeds_bind, readOnly_selectStar.final]
  unfold selectStar
  rw [result_bind, result_get, final_get]
  dsimp only
  cases s.relation table <;> simp

theorem succeeds_throwIf {n : Nat} {message : String} {s : Db} :
    Succeeds (if n > 0 then throw message else pure () : M Unit) s ↔ n = 0 := by
  by_cases hn : n > 0
  · rw [if_pos hn]
    exact iff_of_false (not_succeeds_throw _) (Nat.pos_iff_ne_zero.mp hn)
  · rw [if_neg hn]
    exact iff_of_true (succeeds_pure _) (Nat.eq_zero_of_not_pos hn)

theorem validateForeignKey_iff {s : Db} {name refTable : String} {columns refColumns : List String}
    (onDelete : Option String) :
    Succeeds (validateForeignKey table name columns refTable refColumns) s ↔
      ForeignKeyHolds table s (.foreignKey name columns refTable refColumns onDelete) := by
  unfold validateForeignKey ForeignKeyHolds
  by_cases hm : columns.length ≠ refColumns.length ∨ columns = []
  · rw [if_pos hm]
    refine iff_of_false (not_succeeds_throw _) fun h => ?_
    rcases hm with hm | hm
    · exact hm h.1
    · exact h.2.1 hm
  · rw [if_neg hm, succeeds_selectStar_bind]
    rw [not_or, not_not] at hm
    simp only [succeeds_selectStar_bind, succeeds_check_bind, succeeds_throwIf, exists_eq_right, hm.1, ne_eq, hm.2,
      not_false_eq_true, true_and, exists_and_left]

theorem validateNoDuplicates_iff {s : Db} {r : Relation} {columns : List String} (message : String)
    (hr : s.relation table = some r) (hn : columns.Nodup) (hc : ∀ c ∈ columns, c ∈ r.schema.names)
    (ht : ∀ k ∈ keys r.schema.names columns r.rows, Value.nullArray ∉ k) :
    Succeeds (validateNoDuplicates table columns message) s ↔ (keys r.schema.names columns r.rows).Nodup := by
  obtain ⟨n, hd, hz⟩ := countDuplicates_eq hn hc ht
  unfold validateNoDuplicates
  simp only [succeeds_selectStar_bind, hr, Option.some.injEq, exists_eq_left', succeeds_check_bind, hd,
    Except.ok.injEq, succeeds_throwIf, hz]

theorem validateNoNull_iff {s : Db} {r : Relation} {col : String} (hr : s.relation table = some r)
    (hc : col ∈ r.schema.names) :
    Succeeds (validateNoNull table col) s ↔ ∀ k ∈ keys r.schema.names [col] r.rows, hasNull k = false := by
  have hcol : ∀ c ∈ [col], c ∈ r.schema.names := by simpa using hc
  obtain ⟨n, hcn, hz⟩ := countNull_eq (List.nodup_singleton col) hcol
  unfold validateNoNull
  simp only [succeeds_selectStar_bind, hr, Option.some.injEq, exists_eq_left', succeeds_check_bind, hcn,
    Except.ok.injEq, succeeds_throwIf, hz]

theorem nullColumns_iff {names columns : List String} {rows : List Row} :
    (∀ c ∈ columns, ∀ k ∈ keys names [c] rows, hasNull k = false) ↔
      ∀ k ∈ keys names columns rows, hasNull k = false := by
  simp only [keys, List.forall_mem_map, hasNull, keyOf, List.any_eq_false, List.map_cons, List.map_nil,
    List.mem_singleton, forall_eq, Bool.not_eq_true]
  exact ⟨fun h row hrow c hc => h c hc row hrow, fun h c hc row hrow => h row hrow c hc⟩

/-- **What the whole-table queries of a constraint find out.** -/
theorem accepted_iff {s : Db} {r : Relation} {c : TableConstraint} (hr : s.relation table = some r)
    (hw : c.WellFormed r.schema.names)
    (ht : ∀ k ∈ keys r.schema.names c.keyColumns r.rows, Value.nullArray ∉ k) :
    Accepted env table s c ↔
      Satisfies env r.schema r.rows c ∧ ¬ NullTwins r.schema r.rows c ∧ ForeignKeyHolds table s c := by
  cases c with
  | primaryKey columns =>
    have hnull : Succeeds (each (validateNoNull table) columns) s ↔
        ∀ k ∈ keys r.schema.names columns r.rows, hasNull k = false := by
      rw [succeeds_each readOnly_validateNoNull, ← nullColumns_iff]
      exact forall₂_congr fun col hcol => validateNoNull_iff hr (hw.2.2 col hcol)
    have hd := validateNoDuplicates_iff (primaryKeyMessage table columns) hr hw.2.1 hw.2.2 ht
    have hs : Succeeds (validateTableConstraint table (.primaryKey columns)) s ↔
        (∀ k ∈ keys r.schema.names columns r.rows, hasNull k = false) ∧
          (keys r.schema.names columns r.rows).Nodup := by
      refine succeeds_bind_iff hnull fun _ => ?_
      rw [(readOnly_each readOnly_validateNoNull columns).final]
      exact hd
    unfold Accepted
    rw [hs]
    simp [validateCheckConstraint, Satisfies, NullTwins, ForeignKeyHolds]
  | unique name columns =>
    have hd := validateNoDuplicates_iff (uniqueMessage table name) hr hw.2.1 hw.2.2 ht
    unfold Accepted validateTableConstraint
    rw [hd, nodup_iff_full_null]
    simp [validateCheckConstraint, Satisfies, NullTwins, ForeignKeyHolds]
  | check name expr =>
    have hk : Succeeds (validateCheckConstraint env table (.check name expr)) s ↔ CheckHolds env expr r.schema r.rows := by
      unfold validateCheckConstraint
      rw [succeeds_selectStar_bind]
      simp only [hr, Option.some.injEq, exists_eq_left']
      rw [countFalse_succeeds (iff_true_intro (succeeds_pure _)), and_true]
    unfold Accepted
    rw [hk]
    simp [validateTableConstraint, Satisfies, NullTwins, ForeignKeyHolds]
  | foreignKey name columns refTable refColumns onDelete =>
    unfold Accepted validateTableConstraint
    rw [validateForeignKey_iff onDelete]
    simp [validateCheckConstraint, Satisfies, NullTwins]

theorem validators_iff {s : Db} {m : TableMeta} (hm : s.catalog.tables.lookup table = some m) :
    (Succeeds (validateTableConstraints table) s ∧ Succeeds (validateCheckConstraints env table) s) ↔
      ∀ c ∈ m.constraints, Accepted env table s c := by
  unfold validateTableConstraints validateCheckConstraints
  rw [succeeds_get_bind, succeeds_get_bind]
  simp only [hm]
  rw [succeeds_each readOnly_validateTableConstraint, succeeds_each readOnly_validateCheckConstraint]
  exact ⟨fun h c hc => ⟨h.1 c hc, h.2 c hc⟩, fun h => ⟨fun c hc => (h c hc).1, fun c hc => (h c hc).2⟩⟩

/-- After the rows are written only the foreign keys are checked. -/
theorem validateConstraintsLoop_after {s : Db} {targets : List String} {batches : List RecordBatch} :
    ∀ {cs : List TableConstraint} {merges : Merges},
      Succeeds (validateConstraintsLoop env table targets batches .afterInsert cs merges) s ↔
        ∀ c ∈ cs, ForeignKeyHolds table s c
  | [], _ => by simp [validateConstraintsLoop]
  | .foreignKey name columns refTable refColumns onDelete :: cs, merges => by
    rw [validateConstraintsLoop, if_neg (by simp), List.forall_mem_cons]
    refine succeeds_bind_iff (validateForeignKey_iff onDelete) fun _ => ?_
    rw [(readOnly_validateForeignKey _ _ _ _).final]
    exact validateConstraintsLoop_after
  | .primaryKey _ :: cs, merges | .unique _ _ :: cs, merges | .check _ _ :: cs, merges => by
    rw [validateConstraintsLoop, if_pos (by simp), List.forall_mem_cons, validateConstraintsLoop_after]
    exact (and_iff_right trivial).symm

end

end

end PotatoDB
