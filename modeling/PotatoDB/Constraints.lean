import PotatoDB.Validators

/-!
# What the constraints of a table mean

The standard meaning of a constraint on the rows of a table, and what the fixed queries of the
whole-table validators find out about it.
-/

namespace PotatoDB

/-! ## Keys -/

def Schema.names (s : Schema) : List String := s.map (·.name)

def keyOf (names columns : List String) (row : Row) : List Value := columns.map (namedValue names row)

def hasNull (key : List Value) : Bool := key.any Value.isNull

/-- The keys of rows whose columns have the given names. -/
def keys (names columns : List String) (rows : List Row) : List (List Value) := rows.map (keyOf names columns)

/-- The keys without NULL. -/
def fullKeys (names columns : List String) (rows : List Row) : List (List Value) :=
  (keys names columns rows).filter fun k => !hasNull k

/-- The keys with NULL. -/
def nullKeys (names columns : List String) (rows : List Row) : List (List Value) :=
  (keys names columns rows).filter hasNull

@[simp] theorem keys_append (names columns : List String) (rows rows' : List Row) :
    keys names columns (rows ++ rows') = keys names columns rows ++ keys names columns rows' :=
  List.map_append

@[simp] theorem fullKeys_append (names columns : List String) (rows rows' : List Row) :
    fullKeys names columns (rows ++ rows') = fullKeys names columns rows ++ fullKeys names columns rows' := by
  simp [fullKeys]

@[simp] theorem mem_fullKeys {names columns : List String} {rows : List Row} {k : List Value} :
    k ∈ fullKeys names columns rows ↔ k ∈ keys names columns rows ∧ hasNull k = false := by
  simp [fullKeys]

theorem lookup_zip : ∀ {names : List String} {row : Row} {i : Nat} {c : String}, names.Nodup →
    names[i]? = some c → (names.zip row).lookup c = row[i]?
  | [], _, _, _, _, h => by simp at h
  | n :: ns, [], i, c, _, _ => by simp
  | n :: ns, v :: vs, 0, c, _, h => by
    obtain rfl : n = c := by simpa using h
    simp
  | n :: ns, v :: vs, i + 1, c, hn, h => by
    rw [List.nodup_cons] at hn
    have hc : ns[i]? = some c := by simpa using h
    have hne : (c == n) = false := by
      rw [beq_eq_false_iff_ne]
      rintro rfl
      exact hn.1 (List.mem_of_getElem? hc)
    rw [List.zip_cons_cons, List.lookup_cons, hne, List.getElem?_cons_succ]
    exact lookup_zip hn.2 hc

/-- A row with no element of an untyped NULL array. -/
def Row.Typed (row : Row) : Prop := Value.nullArray ∉ row

theorem namedValue_mem {names : List String} {row : Row} {name : String}
    (h : namedValue names row name ≠ .null) : namedValue names row name ∈ row := by
  unfold namedValue at h ⊢
  cases hl : (names.zip row).lookup name with
  | none => simp [hl] at h
  | some v =>
    obtain ⟨l₁, l₂, heq, -⟩ := List.lookup_eq_some_iff.mp hl
    have hm : (name, v) ∈ names.zip row := by
      rw [heq]
      simp
    exact (List.of_mem_zip hm).2

theorem Row.Typed.keyOf {names columns : List String} {row : Row} (h : row.Typed) :
    Value.nullArray ∉ keyOf names columns row := by
  intro hm
  obtain ⟨c, -, hc⟩ := List.mem_map.mp hm
  refine h ?_
  rw [← hc]
  exact namedValue_mem (by rw [hc]; nofun)

theorem map_group {key : List Value} (h : Value.nullArray ∉ key) : key.map Value.group = key := by
  refine (List.map_congr_left fun v hv => ?_).trans (List.map_id key)
  cases v with
  | nullArray => exact absurd hv h
  | _ => rfl

/-! ## Constraints -/

/-- The columns of a key constraint are columns of the table, each once. -/
def TableConstraint.WellFormed (names : List String) : TableConstraint → Prop
  | primaryKey columns | unique _ columns => columns ≠ [] ∧ columns.Nodup ∧ ∀ c ∈ columns, c ∈ names
  | check .. | foreignKey .. => True

/-- No child row has a key that no parent row has. -/
def ForeignKeyHolds (table : String) (s : Db) : TableConstraint → Prop
  | .foreignKey _ columns refTable refColumns _ =>
    columns.length = refColumns.length ∧ columns ≠ [] ∧ ∃ child parent, s.relation table = some child ∧
      s.relation refTable = some parent ∧ countOrphans child columns parent refColumns = .ok 0
  | _ => True

section
variable (env : Env)

/-- No row makes the expression FALSE. -/
def CheckHolds (expr : String) (schema : Schema) (rows : List Row) : Prop :=
  env.plansCheck expr (schema.map fun f => (f.name, f.dataType)) ∧
    ∀ row ∈ rows, ∃ v, env.evalCheck expr (schema.names.zip row) = .ok v ∧ v ≠ some false

/-- The columns of a key constraint. -/
def TableConstraint.keyColumns : TableConstraint → List String
  | primaryKey columns | unique _ columns => columns
  | check .. | foreignKey .. => []

/-- The standard meaning of a constraint on the rows of one table. -/
def Satisfies (schema : Schema) (rows : List Row) : TableConstraint → Prop
  | .primaryKey columns =>
    (∀ k ∈ keys schema.names columns rows, hasNull k = false) ∧ (keys schema.names columns rows).Nodup
  | .unique _ columns => (fullKeys schema.names columns rows).Nodup
  | .check _ expr => CheckHolds env expr schema rows
  | .foreignKey .. => True

/-- A UNIQUE constraint with two rows of one key that has a NULL. -/
def NullTwins (schema : Schema) (rows : List Row) : TableConstraint → Prop
  | .unique _ columns => ¬ (nullKeys schema.names columns rows).Nodup
  | _ => False

end

theorem nodup_iff_full_null {names columns : List String} {rows : List Row} :
    (keys names columns rows).Nodup ↔
      (fullKeys names columns rows).Nodup ∧ (nullKeys names columns rows).Nodup := by
  have hp : (fullKeys names columns rows ++ nullKeys names columns rows).Perm (keys names columns rows) := by
    have := List.filter_append_perm (fun k => !hasNull k) (keys names columns rows)
    simpa [fullKeys, nullKeys] using this
  rw [← hp.nodup_iff, List.nodup_append]
  refine ⟨fun h => ⟨h.1, h.2.1⟩, fun h => ⟨h.1, h.2, ?_⟩⟩
  rintro k hk k' hk' rfl
  have h1 := (List.mem_filter.mp hk).2
  have h2 := (List.mem_filter.mp hk').2
  simp [h2] at h1

/-! ## The queries -/

theorem project_eq {r : Relation} {columns : List String} (hn : columns.Nodup)
    (hc : ∀ c ∈ columns, c ∈ r.schema.names) :
    r.project columns = .ok (keys r.schema.names columns r.rows) := by
  have ha : (columns.all fun c => r.schema.any (·.name = c)) = true := by
    rw [List.all_eq_true]
    intro c hm
    have := hc c hm
    simp only [Schema.names, List.mem_map] at this
    simpa using this
  unfold Relation.project
  rw [if_neg (not_not.mpr hn), if_pos ha]
  rfl

theorem countDuplicates_eq {r : Relation} {columns : List String} (hn : columns.Nodup)
    (hc : ∀ c ∈ columns, c ∈ r.schema.names)
    (ht : ∀ k ∈ keys r.schema.names columns r.rows, Value.nullArray ∉ k) :
    ∃ n, r.countDuplicates columns = .ok n ∧ (n = 0 ↔ (keys r.schema.names columns r.rows).Nodup) := by
  have hg : (keys r.schema.names columns r.rows).map (·.map Value.group) = keys r.schema.names columns r.rows := by
    exact (List.map_congr_left fun k hk => map_group (ht k hk)).trans (List.map_id _)
  unfold Relation.countDuplicates
  rw [project_eq hn hc]
  refine ⟨_, rfl, ?_⟩
  simp only [hg, List.length_eq_zero_iff, List.filter_eq_nil_iff, List.mem_dedup, decide_eq_true_eq, not_lt]
  rw [List.nodup_iff_count_le_one]
  refine ⟨fun h k => ?_, fun h k _ => h k⟩
  by_cases hk : k ∈ keys r.schema.names columns r.rows
  · exact h k hk
  · rw [List.count_eq_zero_of_not_mem hk]
    exact Nat.zero_le 1

theorem countNull_eq {r : Relation} {columns : List String} (hn : columns.Nodup)
    (hc : ∀ c ∈ columns, c ∈ r.schema.names) :
    ∃ n, r.countNull columns = .ok n ∧
      (n = 0 ↔ ∀ k ∈ keys r.schema.names columns r.rows, hasNull k = false) := by
  unfold Relation.countNull
  rw [project_eq hn hc]
  refine ⟨_, rfl, ?_⟩
  simp [List.filter_eq_nil_iff, hasNull]

theorem project_perm {r r' : Relation} {columns : List String} {ks : List Row} (hs : r'.schema = r.schema)
    (hp : (keys r.schema.names columns r'.rows).Perm (keys r.schema.names columns r.rows))
    (hk : r.project columns = .ok ks) : ∃ ks', r'.project columns = .ok ks' ∧ ks'.Perm ks := by
  unfold Relation.project at hk ⊢
  rw [hs]
  split at hk
  · cases hk
  · split at hk
    · rename_i hn ha
      rw [if_neg hn, if_pos ha]
      cases hk
      exact ⟨_, rfl, hp⟩
    · cases hk

theorem countOrphans_eq_zero {child parent : Relation} {columns refColumns : List String} :
    countOrphans child columns parent refColumns = .ok 0 ↔ ∃ ks refs, child.project columns = .ok ks ∧
      parent.project refColumns = .ok refs ∧ ∀ k ∈ ks, k.any Value.isNull = false → k ∈ refs := by
  unfold countOrphans
  cases child.project columns with
  | error e => simp [bind, Except.bind]
  | ok ks =>
    cases parent.project refColumns with
    | error e => simp [bind, Except.bind]
    | ok refs => simp [bind, Except.bind, pure, Except.pure, List.filter_eq_nil_iff]

theorem countOrphans_perm {child child' parent parent' : Relation} {columns refColumns : List String}
    (hc : child'.schema = child.schema)
    (hcp : (keys child.schema.names columns child'.rows).Perm (keys child.schema.names columns child.rows))
    (hp : parent'.schema = parent.schema)
    (hpp : (keys parent.schema.names refColumns parent'.rows).Perm (keys parent.schema.names refColumns parent.rows))
    (h : countOrphans child columns parent refColumns = .ok 0) :
    countOrphans child' columns parent' refColumns = .ok 0 := by
  obtain ⟨ks, refs, hks, hrefs, hall⟩ := countOrphans_eq_zero.mp h
  obtain ⟨ks', hks', hperm⟩ := project_perm hc hcp hks
  obtain ⟨refs', hrefs', hperm'⟩ := project_perm hp hpp hrefs
  refine countOrphans_eq_zero.mpr ⟨ks', refs', hks', hrefs', ?_⟩
  intro k hk hn
  exact hperm'.mem_iff.mpr (hall k (hperm.mem_iff.mp hk) hn)

/-- A list of results as one result. -/
theorem mapM_ok_iff {α β ε : Type} {f : α → Except ε β} : ∀ {xs : List α} {ys : List β},
    xs.mapM f = .ok ys ↔ xs.map f = ys.map .ok
  | [], ys => by cases ys <;> simp [pure, Except.pure]
  | x :: xs, ys => by
    rw [List.mapM_cons]
    cases hx : f x with
    | error e => cases ys <;> simp [bind, Except.bind, hx]
    | ok y =>
      cases hxs : xs.mapM f with
      | error e =>
        cases ys with
        | nil => simp [bind, Except.bind]
        | cons z zs =>
          have : ¬ xs.map f = zs.map .ok := fun h => by
            rw [mapM_ok_iff.mpr h] at hxs
            cases hxs
          simp [bind, Except.bind, hx, this]
      | ok ys' =>
        have := mapM_ok_iff.mp hxs
        cases ys with
        | nil => simp [bind, Except.bind, pure, Except.pure]
        | cons z zs =>
          simp only [bind, Except.bind, pure, Except.pure, List.map_cons, hx, this,
            Except.ok.injEq, List.cons.injEq]
          rw [List.map_inj_right (fun a b h => Except.ok.inj h)]

theorem exists_of_mapM {α β ε : Type} {f : α → Except ε β} {xs : List α} {ys : List β} (h : xs.mapM f = .ok ys) {y : β}
    (hy : y ∈ ys) : ∃ x ∈ xs, f x = .ok y := by
  have hin : Except.ok y ∈ xs.map f := by
    rw [mapM_ok_iff.mp h]
    exact List.mem_map_of_mem hy
  exact List.mem_map.mp hin

theorem mapM_self {α ε : Type} {f : α → Except ε α} {xs ys : List α} (hf : ∀ x ∈ xs, f x = .ok x)
    (h : xs.mapM f = .ok ys) : ys = xs := by
  have hm := mapM_ok_iff.mp h
  rw [List.map_congr_left hf] at hm
  exact ((List.map_inj_right fun a b he => Except.ok.inj he).mp hm).symm

theorem countFalse_eq_zero {env : Env} {expr : String} {schema : Schema} {rows : List Row} :
    countFalse env expr schema rows = .ok 0 ↔ CheckHolds env expr schema rows := by
  unfold countFalse CheckHolds
  by_cases hp : env.plansCheck expr (schema.map fun f => (f.name, f.dataType)) = true
  · rw [if_pos hp]
    simp only [hp, true_and]
    constructor
    · intro h row hrow
      cases hm : rows.mapM fun row => env.evalCheck expr ((schema.map (·.name)).zip row) with
      | error e => simp [hm, bind, Except.bind] at h
      | ok vs =>
        have hmap := mapM_ok_iff.mp hm
        have hin : env.evalCheck expr (schema.names.zip row) ∈ vs.map .ok := by
          rw [← hmap]
          exact List.mem_map_of_mem hrow
        obtain ⟨v, hv, he⟩ := List.mem_map.mp hin
        refine ⟨v, he.symm, ?_⟩
        rintro rfl
        simp [hm, bind, Except.bind, pure, Except.pure, List.filter_eq_nil_iff] at h
        exact h _ hv rfl
    · intro h
      induction rows with
      | nil => rfl
      | cons row rows ih =>
        obtain ⟨v, hv, hne⟩ := h row (by simp)
        have := ih fun r hr => h r (by simp [hr])
        rw [List.mapM_cons]
        cases hm : rows.mapM fun row => env.evalCheck expr ((schema.map (·.name)).zip row) with
        | error e => simp [hm, bind, Except.bind] at this
        | ok vs =>
          simp only [hm, bind, Except.bind, pure, Except.pure, Except.ok.injEq] at this
          unfold Schema.names at hv
          simp only [hv, bind, Except.bind, pure, Except.pure, List.filter_cons]
          rw [if_neg (by simpa using hne)]
          exact congrArg _ this
  · simp [hp]

/-! ## Batches of one schema -/

theorem zip_map_self {α β : Type} (xs : List α) (g : α → β) : xs.zip (xs.map g) = xs.map fun x => (x, g x) := by
  have : (xs.map id).zip (xs.map g) = xs.map fun x => (id x, g x) := List.zip_map'
  rwa [List.map_id] at this

theorem memTable_self {schema : Schema} {batches : List RecordBatch} (hm : ∀ b ∈ batches, b.schema = schema) :
    memTable schema batches = .ok () := by
  refine if_pos (List.all_eq_true.mpr fun b hb => ?_)
  have hz : schema.zip schema = schema.map fun f => (f, f) := by
    have := zip_map_self schema id
    rwa [List.map_id] at this
  rw [hm b hb, hz]
  simp

/-! ## Queries only read -/

section
open Oplog Oplog.Prog
variable {env : Env} {table : String}

theorem readOnly_selectStar : ReadOnly (selectStar table) := by
  refine readOnly_get.bind fun db => ?_
  cases db.relation table with
  | none => exact readOnly_throw _
  | some r => exact readOnly_pure r

theorem readOnly_tableMeta (name : String) : ReadOnly (tableMeta name) := by
  refine readOnly_get.bind fun db => ?_
  cases db.catalog.tables.lookup name with
  | none => exact readOnly_throw _
  | some m => exact readOnly_pure m

theorem readOnly_throwIf {n : Nat} {message : String} :
    ReadOnly (if n > 0 then throw message else pure () : M Unit) := by
  split
  · exact readOnly_throw _
  · exact readOnly_pure _

theorem readOnly_validateForeignKey (name : String) (columns : List String) (refTable : String)
    (refColumns : List String) : ReadOnly (validateForeignKey table name columns refTable refColumns) := by
  unfold validateForeignKey
  split
  · exact readOnly_throw _
  · exact readOnly_selectStar.bind fun _ => readOnly_selectStar.bind fun _ =>
      (readOnly_check _).bind fun _ => readOnly_throwIf

theorem readOnly_validateNoNull (col : String) : ReadOnly (validateNoNull table col) :=
  readOnly_selectStar.bind fun _ => (readOnly_check _).bind fun _ => readOnly_throwIf

theorem readOnly_validateTableConstraint (c : TableConstraint) : ReadOnly (validateTableConstraint table c) := by
  have hdup (columns : List String) (message : String) : ReadOnly (validateNoDuplicates table columns message) :=
    readOnly_selectStar.bind fun _ => (readOnly_check _).bind fun _ => readOnly_throwIf
  cases c with
  | primaryKey columns => exact (readOnly_each readOnly_validateNoNull columns).bind fun _ => hdup _ _
  | unique name columns => exact hdup _ _
  | check name expr => exact readOnly_pure _
  | foreignKey name columns refTable refColumns _ => exact readOnly_validateForeignKey _ _ _ _

theorem readOnly_validateCheckConstraint (c : TableConstraint) : ReadOnly (validateCheckConstraint env table c) := by
  cases c with
  | check name expr =>
    exact readOnly_selectStar.bind fun _ => (readOnly_check _).bind fun _ => readOnly_throwIf
  | _ => exact readOnly_pure _

theorem readOnly_validateTableConstraints : ReadOnly (validateTableConstraints table) := by
  refine readOnly_get.bind fun db => ?_
  cases db.catalog.tables.lookup table with
  | none => exact readOnly_pure _
  | some m => exact readOnly_each readOnly_validateTableConstraint m.constraints

theorem readOnly_validateCheckConstraints : ReadOnly (validateCheckConstraints env table) := by
  refine readOnly_get.bind fun db => ?_
  cases db.catalog.tables.lookup table with
  | none => exact readOnly_pure _
  | some m => exact readOnly_each readOnly_validateCheckConstraint m.constraints

end

end PotatoDB
