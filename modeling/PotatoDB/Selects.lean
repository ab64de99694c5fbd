import PotatoDB.DeleteSound
import PotatoDB.Evolution

/-!
# What a rewriting SELECT computes

UPDATE and the update of an upsert replace a table by a projection of its rows, column by column:
`CASE WHEN .. THEN .. ELSE col END`. DataFusion's part is to evaluate it; what is stored are its
rows after the cast of the INSERT.
-/

namespace PotatoDB

open Oplog Oplog.Prog

/-- The value of an expression on a row. -/
abbrev Evaluate := String → (String → Option Relation) → Schema → Row → Except String Value

section
variable (env : Env) (value : Evaluate)

/-- `CASE WHEN .. THEN .. ELSE column END`. -/
def caseValue (tables : String → Option Relation) (schema : Schema) (row : Row) (column : String) :
    List (String × String) → Except String Value
  | [] => .ok (columnValue schema column row)
  | (condition, expr) :: rest => do
    if (← env.holds condition tables schema row) = some true then value expr tables schema row
    else caseValue tables schema row column rest

def projectRow (tables : String → Option Relation) (schema : Schema) (projections : List Projection) (row : Row) :
    Except String Row :=
  projections.mapM fun p => caseValue env value tables schema row p.column p.branches

/-- DataFusion evaluates a SELECT row by row, and CAST as it casts; `castType` is its reading of a type. The
expressions are those that the parser's tree prints. -/
structure Env.Standard (castType : String → Except String String) (IsExpr : String → Prop) : Prop where
  rewrite : ∀ table projections tables rel answer, tables table = some rel →
    env.eval (.rewrite table projections) tables = .ok answer →
    rel.rows.mapM (projectRow env value tables rel.schema projections) = .ok answer.rows
  unconditional : ∀ tables schema row, env.holds "TRUE" tables schema row = .ok (some true)
  cast : ∀ e type tables schema row, IsExpr e → value s!"CAST(({e}) AS {type})" tables schema row = do
    let v ← value e tables schema row
    env.castTo (← castType type) v
  cast_cast : ∀ type v w, env.castTo type v = .ok w → env.castTo type w = .ok w

end

theorem projectRow_congr {env env' : Env} (h : env.holds = env'.holds) (value : Evaluate) :
    projectRow env value = projectRow env' value := by
  have hcase : ∀ tables schema row column branches,
      caseValue env value tables schema row column branches = caseValue env' value tables schema row column branches := by
    intro tables schema row column branches
    induction branches with
    | nil => rfl
    | cons b bs ih => rw [caseValue, caseValue, h, ih]
  funext tables schema projections row
  unfold projectRow
  simp only [hcase]

/-! ## Rows by column -/

theorem value_of_mapM {α : Type} {name : α → String} {g : α → Except String Value} : ∀ {xs : List α} {row : Row},
    xs.mapM g = .ok row → (xs.map name).Nodup → ∀ x ∈ xs, g x = .ok (namedValue (xs.map name) row (name x))
  | [], _, _, _, x, hx => by cases hx
  | y :: ys, row, h, hn, x, hx => by
    have hm := mapM_ok_iff.mp h
    cases row with
    | nil => cases hm
    | cons v vs =>
      rw [List.map_cons, List.map_cons, List.cons.injEq] at hm
      rw [List.map_cons, List.nodup_cons] at hn
      by_cases hxy : name x = name y
      · rcases List.mem_cons.mp hx with rfl | hx
        · rw [hm.1]
          simp [namedValue]
        · exact absurd (hxy ▸ List.mem_map_of_mem hx) hn.1
      · rcases List.mem_cons.mp hx with rfl | hx
        · exact absurd rfl hxy
        · rw [value_of_mapM (mapM_ok_iff.mpr hm.2) hn.2 x hx]
          have hb : (name x == name y) = false := by simpa using hxy
          simp [namedValue, List.lookup_cons, hb]

theorem row_ext : ∀ {names : List String} {row row' : Row}, names.Nodup → row.length = names.length →
    row'.length = names.length → (∀ n ∈ names, namedValue names row n = namedValue names row' n) → row = row'
  | [], row, row', _, h, h', _ => by
    rw [List.length_eq_zero_iff.mp h, List.length_eq_zero_iff.mp h']
  | n :: ns, [], _, _, h, _, _ => by cases h
  | n :: ns, _ :: _, [], _, _, h', _ => by cases h'
  | n :: ns, v :: vs, v' :: vs', hn, h, h', he => by
    rw [List.nodup_cons] at hn
    have hhead := he n List.mem_cons_self
    simp only [namedValue, List.zip_cons_cons, List.lookup_cons, beq_self_eq_true, Option.getD_some] at hhead
    have htail : vs = vs' := by
      refine row_ext hn.2 (Nat.succ.inj h) (Nat.succ.inj h') fun n' hn' => ?_
      have hb : (n' == n) = false := by
        rw [beq_eq_false_iff_ne]
        rintro rfl
        exact hn.1 hn'
      have := he n' (List.mem_cons_of_mem _ hn')
      simpa [namedValue, List.lookup_cons, hb] using this
    rw [hhead, htail]

theorem mapM_map {α β γ : Type} {f : α → β} {g : β → Except String γ} {xs : List α} :
    (xs.map f).mapM g = xs.mapM (g ∘ f) := by
  induction xs with
  | nil => rfl
  | cons x xs ih => rw [List.map_cons, List.mapM_cons, List.mapM_cons, ih]; rfl

theorem mapM_congr {α β : Type} {f g : α → Except String β} {xs : List α} (h : ∀ x ∈ xs, f x = g x) : xs.mapM f = xs.mapM g := by
  induction xs with
  | nil => rfl
  | cons x xs ih => rw [List.mapM_cons, List.mapM_cons, h x List.mem_cons_self, ih fun y hy => h y (List.mem_cons_of_mem _ hy)]

theorem mapM_mono {α β : Type} {f g : α → Except String β} {xs : List α} {ys : List β}
    (h : ∀ x ∈ xs, ∀ y, f x = .ok y → g x = .ok y) (hf : xs.mapM f = .ok ys) : xs.mapM g = .ok ys := by
  rw [mapM_ok_iff] at hf ⊢
  rw [← hf]
  refine List.map_congr_left fun x hx => ?_
  have hmem : f x ∈ ys.map Except.ok := by
    rw [← hf]
    exact List.mem_map_of_mem hx
  obtain ⟨y, -, hy⟩ := List.mem_map.mp hmem
  rw [← hy]
  exact h x hx y hy.symm

section
variable {env : Env} {schema : Schema} {m : TableMeta}

theorem field_of_column (h : columnsToSchema env m.columns = .ok schema) {c : ColumnDef} (hc : c ∈ m.columns) :
    ∃ type, env.sqlStringToArrow c.dataType = .ok type ∧ (⟨c.name, type, c.nullable⟩ : Field) ∈ schema := by
  have hm := mapM_ok_iff.mp h
  have hin : (do return ⟨c.name, ← env.sqlStringToArrow c.dataType, c.nullable⟩ : Except String Field) ∈
      schema.map Except.ok := by
    rw [← hm]
    exact List.mem_map_of_mem hc
  obtain ⟨f, hf, he⟩ := List.mem_map.mp hin
  cases ht : env.sqlStringToArrow c.dataType with
  | error e =>
    rw [ht] at he
    cases he
  | ok type =>
    rw [ht] at he
    obtain rfl := Except.ok.inj he
    exact ⟨type, rfl, hf⟩

/-- What is stored in a column is the cast of what the projection gave for it. -/
theorem cast_of_castRow (hn : schema.names.Nodup) {row row' : Row} (h : castRow env schema schema.names row = .ok row')
    {f : Field} (hf : f ∈ schema) : env.castTo f.dataType (columnValue schema f.name row) = .ok (columnValue schema f.name row') := by
  have hv := @value_of_mapM Field (fun f => f.name) _ schema row' h hn f hf
  show env.castTo f.dataType (namedValue schema.names row f.name) = .ok (namedValue schema.names row' f.name)
  cases hc : env.castTo f.dataType (namedValue schema.names row f.name) with
  | error e =>
    rw [hc] at hv
    cases hv
  | ok v =>
    rw [hc] at hv
    change (if (v.isNull && !f.nullable) = true then _ else _) = _ at hv
    split at hv
    · cases hv
    · exact hv

theorem names_of_columns (h : columnsToSchema env m.columns = .ok schema) : schema.names = m.columnNames :=
  names_columnsToSchema h

/-- The columns of the catalog, taken from a row one by one, are the row. -/
theorem columns_self (hschema : columnsToSchema env m.columns = .ok schema) (hn : schema.names.Nodup) {row : Row}
    (hlen : row.length = schema.names.length) :
    m.columns.mapM (fun c => Except.ok (columnValue schema c.name row)) = (.ok row : Except String Row) := by
  have hself : schema.names.map (namedValue schema.names row) = row :=
    List.singleton_inj.mp (@read_self schema.names [row] 0 hn fun r hr => by rw [List.mem_singleton.mp hr, hlen])
  rw [mapM_ok_iff]
  conv_rhs => rw [← hself, names_of_columns hschema]
  unfold TableMeta.columnNames
  rw [List.map_map, List.map_map]
  refine List.map_congr_left fun c _ => ?_
  rw [Function.comp_apply, Function.comp_apply, columnValue, names_of_columns hschema]
  rfl

end

theorem yields_readOnly {α : Type} {p : M α} (hp : ReadOnly p) {s : Db} {R : α → Db → Prop}
    (h : ∀ a, p.result s = .ok a → R a s) : Yields p s R := by
  intro a ha
  rw [hp.final]
  exact h a ha

theorem yields_runQuery {env : Env} {q : Query} {s : Db} {R : Relation → Db → Prop}
    (h : ∀ rel, env.eval q s.relation = .ok rel → R rel s) : Yields (runQuery env q) s R := by
  unfold runQuery
  rw [yields_bind, yields_get, yields_check]
  exact h

end PotatoDB
