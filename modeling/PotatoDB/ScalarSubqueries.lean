import Mathlib

/-!
# Scalar subqueries of projections

The optimizer rule takes the first expression with a scalar subquery out of a projection that has several and into a projection
below. Rows, names and types stay as long as the new column is nobody else's and the expression was named without a qualifier.
-/

namespace PotatoDB.Subqueries

/-! ## Plans -/

structure Column where
  relation : Option String
  name : String
deriving DecidableEq

/-- A reference without a relation is to any column of the name. -/
def Column.refersTo (c field : Column) : Bool := (c.relation = none || c.relation = field.relation) && c.name = field.name

/-- A schema has no two columns of which one refers to the other. -/
def Distinct (columns : List Column) : Prop := columns.Pairwise fun c d => c.refersTo d = false ∧ d.refersTo c = false

instance decidableDistinct (columns : List Column) : Decidable (Distinct columns) := inferInstanceAs (Decidable (List.Pairwise _ _))

mutual
/-- A plan is a projection or another operation with its expressions and inputs. -/
inductive Plan (Op Fn Ty : Type) where
  | projection (exprs : List (Expr Op Fn Ty)) (input : Plan Op Fn Ty)
  | node (op : Op) (exprs : List (Expr Op Fn Ty)) (inputs : List (Plan Op Fn Ty))

inductive Expr (Op Fn Ty : Type) where
  | column (c : Column)
  | outerReference (ty : Ty) (c : Column)
  | aliasOf (expr : Expr Op Fn Ty) (relation : Option String) (name : String)
  | scalarSubquery (plan : Plan Op Fn Ty)
  | node (fn : Fn) (args : List (Expr Op Fn Ty))
end

variable {Op Fn Ty V : Type}

mutual
/-- `exists`, for scalar subqueries: the plans of subqueries are not looked into. -/
def Expr.hasSubquery : Expr Op Fn Ty → Bool
  | .column _ | .outerReference _ _ => false
  | .aliasOf expr _ _ => expr.hasSubquery
  | .scalarSubquery _ => true
  | .node _ args => Expr.anySubquery args
def Expr.anySubquery : List (Expr Op Fn Ty) → Bool
  | [] => false
  | e :: es => e.hasSubquery || Expr.anySubquery es
end

/-! ## Meanings -/

structure Field (Ty : Type) where
  column : Column
  ty : Ty

/-- What is in the columns that can be referred to. -/
abbrev Env (V : Type) := Column → Option V

/-- The first cell whose column a reference is to. -/
def lookup {α : Type} (columns : List Column) (cells : List α) : Env α :=
  fun c => ((columns.zip cells).find? fun cell => c.refersTo cell.1).map Prod.snd

/-- An expression is shown and named, and has a type and a value; the value is from a row and the row of the query around. -/
structure ExprMeaning (Ty V : Type) where
  shown : String
  name : Column
  ty : Env Ty → Ty
  value : Env V → Env V → V

/-- A plan has a schema, and rows of that many cells for every row of the query around. -/
structure PlanMeaning (Ty V : Type) where
  schema : List (Field Ty)
  rows : Env V → List (List V)
  shaped : ∀ outer, ∀ row ∈ rows outer, row.length = schema.length

def PlanMeaning.columns (p : PlanMeaning Ty V) : List Column := p.schema.map (·.column)

def PlanMeaning.types (p : PlanMeaning Ty V) : Env Ty := lookup p.columns (p.schema.map (·.ty))

@[ext] theorem PlanMeaning.ext {p q : PlanMeaning Ty V} (hschema : p.schema = q.schema) (hrows : p.rows = q.rows) : p = q := by
  cases p
  cases q
  cases hschema
  cases hrows
  rfl

/-- How operations and functions are evaluated and shown. What an operation makes for a row of the query around depends on that row
only by its expressions and inputs. -/
structure Semantics (Op Fn Ty V : Type) where
  nullType : Ty
  null : V
  /-- The value of a subquery, from its rows. -/
  scalar : List (List V) → V
  showColumn : Column → String
  showFn : Fn → List String → String
  typeFn : Fn → List Ty → Ty
  applyFn : Fn → List V → V
  node : Op → List (ExprMeaning Ty V) → List (PlanMeaning Ty V) → PlanMeaning Ty V
  node_local : ∀ op exprs inputs outer outer', (∀ e ∈ exprs, ∀ row, e.value row outer = e.value row outer') →
    (∀ p ∈ inputs, p.rows outer = p.rows outer') → (node op exprs inputs).rows outer = (node op exprs inputs).rows outer'

/-- The columns of a row, and behind them those of the row around. -/
def Env.over (row outer : Env V) : Env V := fun c => (row c).or (outer c)

def projectionMeaning (exprs : List (ExprMeaning Ty V)) (input : PlanMeaning Ty V) : PlanMeaning Ty V where
  schema := exprs.map fun e => ⟨e.name, e.ty input.types⟩
  rows outer := (input.rows outer).map fun row => exprs.map fun e => e.value (lookup input.columns row) outer
  shaped := by
    intro outer row hrow
    obtain ⟨row', -, rfl⟩ := List.mem_map.mp hrow
    rw [List.length_map, List.length_map]

variable (sem : Semantics Op Fn Ty V)

mutual
def Plan.meaning : Plan Op Fn Ty → PlanMeaning Ty V
  | .projection exprs input => projectionMeaning (Expr.meanings exprs) input.meaning
  | .node op exprs inputs => sem.node op (Expr.meanings exprs) (Plan.meanings inputs)
def Plan.meanings : List (Plan Op Fn Ty) → List (PlanMeaning Ty V)
  | [] => []
  | p :: ps => p.meaning :: Plan.meanings ps
def Expr.meaning : Expr Op Fn Ty → ExprMeaning Ty V
  | .column c => ⟨sem.showColumn c, c, fun types => (types c).getD sem.nullType, fun row _ => (row c).getD sem.null⟩
  | .outerReference ty c =>
    let shown := "outer_ref(" ++ sem.showColumn c ++ ")"
    ⟨shown, ⟨none, shown⟩, fun _ => ty, fun _ outer => (outer c).getD sem.null⟩
  | .aliasOf expr relation name => { expr.meaning with shown := sem.showColumn ⟨relation, name⟩, name := ⟨relation, name⟩ }
  | .scalarSubquery plan =>
    let shown := ((plan.meaning.schema.head?).map (·.column.name)).getD ""
    ⟨shown, ⟨none, shown⟩, fun _ => ((plan.meaning.schema.head?).map (·.ty)).getD sem.nullType,
      fun row outer => sem.scalar (plan.meaning.rows (row.over outer))⟩
  | .node fn args =>
    let shown := sem.showFn fn ((Expr.meanings args).map (·.shown))
    ⟨shown, ⟨none, shown⟩, fun types => sem.typeFn fn ((Expr.meanings args).map (·.ty types)),
      fun row outer => sem.applyFn fn ((Expr.meanings args).map (·.value row outer))⟩
def Expr.meanings : List (Expr Op Fn Ty) → List (ExprMeaning Ty V)
  | [] => []
  | e :: es => e.meaning :: Expr.meanings es
end

/-! ## The rule -/

/-- `LogicalPlanBuilder::project`: the names of the expressions make a schema. -/
def project (exprs : List (Expr Op Fn Ty)) (input : Plan Op Fn Ty) : Except String (Plan Op Fn Ty) :=
  if Distinct ((Expr.meanings sem exprs).map (·.name)) then .ok (.projection exprs input)
  else .error "Projections require unique expression names"

def sqIndices (exprs : List (Expr Op Fn Ty)) : List Nat := (exprs.zipIdx.filter fun e => e.1.hasSubquery).map (·.2)

def sqAlias (firstSqIdx : Nat) : String := "__potato_sq_" ++ toString firstSqIdx

/-- The expression below its alias, and the name of the alias. -/
def aliased : Expr Op Fn Ty → Expr Op Fn Ty × Option String
  | .aliasOf expr _ name => (expr, some name)
  | expr => (expr, none)

def outerRef (firstSqIdx : Nat) (origAlias : Option String) : Expr Op Fn Ty :=
  let colRef := .column ⟨none, sqAlias firstSqIdx⟩
  match origAlias with
  | some name => .aliasOf colRef none name
  | none => colRef

/-- The columns of the input, and the expression under its new name. -/
def innerExprs (e : Expr Op Fn Ty) (firstSqIdx : Nat) (input : Plan Op Fn Ty) : List (Expr Op Fn Ty) :=
  (input.meaning sem).columns.map Expr.column ++ [.aliasOf (aliased e).1 none (sqAlias firstSqIdx)]

/-- `rewrite` of the rule; `none` for a plan that is not transformed. -/
def rewrite : Plan Op Fn Ty → Except String (Option (Plan Op Fn Ty))
  | .projection exprs input =>
    match sqIndices exprs with
    | first :: _ :: _ =>
      match exprs[first]? with
      | some firstSqExpr => do
        let innerPlan ← project sem (innerExprs sem firstSqExpr first input) input
        let newPlan ← project sem (exprs.set first (outerRef first (aliased firstSqExpr).2)) innerPlan
        return some newPlan
      | none => return none
    | _ => return none
  | .node _ _ _ => return none

/-! ## Runs -/

mutual
/-- The projections of a plan, those in the plans of its subqueries with them. -/
def Plan.projections : Plan Op Fn Ty → List (Plan Op Fn Ty)
  | .projection exprs input => .projection exprs input :: (Expr.allProjections exprs ++ input.projections)
  | .node _ exprs inputs => Expr.allProjections exprs ++ Plan.allProjections inputs
def Plan.allProjections : List (Plan Op Fn Ty) → List (Plan Op Fn Ty)
  | [] => []
  | p :: ps => p.projections ++ Plan.allProjections ps
def Expr.projections : Expr Op Fn Ty → List (Plan Op Fn Ty)
  | .column _ | .outerReference _ _ => []
  | .aliasOf expr _ _ => expr.projections
  | .scalarSubquery plan => plan.projections
  | .node _ args => Expr.allProjections args
def Expr.allProjections : List (Expr Op Fn Ty) → List (Plan Op Fn Ty)
  | [] => []
  | e :: es => e.projections ++ Expr.allProjections es
end

/-- The number of output expressions with a scalar subquery. -/
def Plan.subqueryCount : Plan Op Fn Ty → Nat
  | .projection exprs _ => exprs.countP Expr.hasSubquery
  | .node _ _ _ => 0

/-- How many expressions have to be taken out. -/
def excess (projections : List (Plan Op Fn Ty)) : Nat := (projections.map fun p => p.subqueryCount - 1).sum

mutual
/-- The rule transforms one plan of a kind, anywhere. -/
inductive Plan.Step (ok : Plan Op Fn Ty → Prop) : Plan Op Fn Ty → Plan Op Fn Ty → Prop
  | here {p p' : Plan Op Fn Ty} (hok : ok p) (h : rewrite sem p = .ok (some p')) : Plan.Step ok p p'
  | projectionExpr {before after : List (Expr Op Fn Ty)} {e e' : Expr Op Fn Ty} {input : Plan Op Fn Ty} (h : Expr.Step ok e e') :
      Plan.Step ok (.projection (before ++ e :: after) input) (.projection (before ++ e' :: after) input)
  | projectionInput {exprs : List (Expr Op Fn Ty)} {input input' : Plan Op Fn Ty} (h : Plan.Step ok input input') :
      Plan.Step ok (.projection exprs input) (.projection exprs input')
  | nodeExpr {op : Op} {before after : List (Expr Op Fn Ty)} {e e' : Expr Op Fn Ty} {inputs : List (Plan Op Fn Ty)}
      (h : Expr.Step ok e e') : Plan.Step ok (.node op (before ++ e :: after) inputs) (.node op (before ++ e' :: after) inputs)
  | nodeInput {op : Op} {exprs : List (Expr Op Fn Ty)} {before after : List (Plan Op Fn Ty)} {input input' : Plan Op Fn Ty}
      (h : Plan.Step ok input input') : Plan.Step ok (.node op exprs (before ++ input :: after)) (.node op exprs (before ++ input' :: after))

inductive Expr.Step (ok : Plan Op Fn Ty → Prop) : Expr Op Fn Ty → Expr Op Fn Ty → Prop
  | aliasOf {e e' : Expr Op Fn Ty} {relation : Option String} {name : String} (h : Expr.Step ok e e') :
      Expr.Step ok (.aliasOf e relation name) (.aliasOf e' relation name)
  | scalarSubquery {p p' : Plan Op Fn Ty} (h : Plan.Step ok p p') : Expr.Step ok (.scalarSubquery p) (.scalarSubquery p')
  | arg {fn : Fn} {before after : List (Expr Op Fn Ty)} {e e' : Expr Op Fn Ty} (h : Expr.Step ok e e') :
      Expr.Step ok (.node fn (before ++ e :: after)) (.node fn (before ++ e' :: after))
end

/-- So many steps. -/
inductive Run (ok : Plan Op Fn Ty → Prop) : Nat → Plan Op Fn Ty → Plan Op Fn Ty → Prop
  | done {p : Plan Op Fn Ty} : Run ok 0 p p
  | step {n : Nat} {p q r : Plan Op Fn Ty} (hrun : Run ok n p q) (h : Plan.Step sem ok q r) : Run ok (n + 1) p r

/-! ## Projections in order -/

mutual
/-- No reference to the column in the row of the query around. -/
def Plan.AvoidsOuter (c : Column) : Plan Op Fn Ty → Prop
  | .projection exprs input => Expr.AllAvoidOuter c exprs ∧ input.AvoidsOuter c
  | .node _ exprs inputs => Expr.AllAvoidOuter c exprs ∧ Plan.AllAvoidOuter c inputs
def Plan.AllAvoidOuter (c : Column) : List (Plan Op Fn Ty) → Prop
  | [] => True
  | p :: ps => p.AvoidsOuter c ∧ Plan.AllAvoidOuter c ps
def Expr.AvoidsOuter (c : Column) : Expr Op Fn Ty → Prop
  | .column _ => True
  | .outerReference _ d => d ≠ c
  | .aliasOf expr _ _ => expr.AvoidsOuter c
  | .scalarSubquery plan => plan.AvoidsOuter c
  | .node _ args => Expr.AllAvoidOuter c args
def Expr.AllAvoidOuter (c : Column) : List (Expr Op Fn Ty) → Prop
  | [] => True
  | e :: es => e.AvoidsOuter c ∧ Expr.AllAvoidOuter c es
end

mutual
/-- No reference to the column in the row of the input. -/
def Expr.Avoids (c : Column) : Expr Op Fn Ty → Prop
  | .column d => d ≠ c
  | .outerReference _ _ => True
  | .aliasOf expr _ _ => expr.Avoids c
  | .scalarSubquery plan => plan.AvoidsOuter c
  | .node _ args => Expr.AllAvoid c args
def Expr.AllAvoid (c : Column) : List (Expr Op Fn Ty) → Prop
  | [] => True
  | e :: es => e.Avoids c ∧ Expr.AllAvoid c es
end

/-- The expression is an alias without a qualifier, or it has the name of the new column already. -/
def NameKept (e : Expr Op Fn Ty) (firstSqIdx : Nat) : Prop :=
  (∃ expr name, e = .aliasOf expr none name) ∨ (aliased e).2 = none ∧ (e.meaning sem).name = ⟨none, sqAlias firstSqIdx⟩

/-- The first expression with a subquery keeps its name, and the new column is no column of the input and is referred to by no other
expression. As in every plan the columns of the input and of the projection make schemas. -/
def InOrder : Plan Op Fn Ty → Prop
  | .projection exprs input => ∀ before e after, exprs = before ++ e :: after → (∀ b ∈ before, b.hasSubquery = false) →
      e.hasSubquery = true → NameKept sem e before.length ∧ (∀ c ∈ (input.meaning sem).columns, c.name ≠ sqAlias before.length) ∧
        (∀ other ∈ before ++ after, other.Avoids ⟨none, sqAlias before.length⟩) ∧
        Distinct (input.meaning sem).columns ∧ Distinct ((Expr.meanings sem exprs).map (·.name))
  | .node _ _ _ => True

/-! ## Lists -/

theorem meanings_eq (es : List (Expr Op Fn Ty)) : Expr.meanings sem es = es.map (Expr.meaning sem) := by
  induction es with
  | nil => rfl
  | cons e es ih => rw [Expr.meanings, ih, List.map_cons]

theorem planMeanings_eq (ps : List (Plan Op Fn Ty)) : Plan.meanings sem ps = ps.map (Plan.meaning sem) := by
  induction ps with
  | nil => rfl
  | cons p ps ih => rw [Plan.meanings, ih, List.map_cons]

theorem anySubquery_eq (es : List (Expr Op Fn Ty)) : Expr.anySubquery es = es.any Expr.hasSubquery := by
  induction es with
  | nil => rfl
  | cons e es ih => rw [Expr.anySubquery, ih, List.any_cons]

theorem allProjections_eq (es : List (Expr Op Fn Ty)) : Expr.allProjections es = es.flatMap Expr.projections := by
  induction es with
  | nil => rfl
  | cons e es ih => rw [Expr.allProjections, ih, List.flatMap_cons]

theorem planProjections_eq (ps : List (Plan Op Fn Ty)) : Plan.allProjections ps = ps.flatMap Plan.projections := by
  induction ps with
  | nil => rfl
  | cons p ps ih => rw [Plan.allProjections, ih, List.flatMap_cons]

theorem excess_append (a b : List (Plan Op Fn Ty)) : excess (a ++ b) = excess a + excess b := by
  rw [excess, List.map_append, List.sum_append]
  rfl

theorem excess_cons (p : Plan Op Fn Ty) (ps : List (Plan Op Fn Ty)) : excess (p :: ps) = (p.subqueryCount - 1) + excess ps := by
  rw [excess, List.map_cons, List.sum_cons]
  rfl

/-! ## What the rule does -/

section
variable {sem}

theorem indices_length (exprs : List (Expr Op Fn Ty)) (k : Nat) :
    (((exprs.zipIdx k).filter fun e => e.1.hasSubquery).map (·.2)).length = exprs.countP Expr.hasSubquery := by
  rw [List.length_map, ← List.countP_eq_length_filter]
  conv_rhs => rw [← List.zipIdx_map_fst k exprs, List.countP_map]
  rfl

/-- The indices of a list, by where the first of them is. -/
theorem sqIndices_cons {exprs : List (Expr Op Fn Ty)} : ∀ {k first : Nat} {rest : List Nat},
    ((exprs.zipIdx k).filter fun e => e.1.hasSubquery).map (·.2) = first :: rest →
    ∃ before e after, exprs = before ++ e :: after ∧ first = k + before.length ∧ (∀ b ∈ before, b.hasSubquery = false) ∧
      e.hasSubquery = true ∧ rest.length = after.countP Expr.hasSubquery := by
  induction exprs with
  | nil =>
    intro k first rest h
    cases h
  | cons e exprs ih =>
    intro k first rest h
    rw [List.zipIdx_cons, List.filter_cons] at h
    by_cases he : e.hasSubquery = true
    · rw [if_pos he, List.map_cons] at h
      obtain ⟨rfl, rfl⟩ := List.cons.inj h
      exact ⟨[], e, exprs, rfl, rfl, by simp, he, indices_length exprs (k + 1)⟩
    · rw [if_neg he] at h
      obtain ⟨before, e', after, rfl, rfl, hbefore, he', hrest⟩ := ih h
      refine ⟨e :: before, e', after, rfl, ?_, List.forall_mem_cons.mpr ⟨Bool.not_eq_true _ ▸ he, hbefore⟩, he', hrest⟩
      rw [List.length_cons]
      omega

/-- The two projections for one. -/
def splitPlan (sem : Semantics Op Fn Ty V) (before : List (Expr Op Fn Ty)) (e : Expr Op Fn Ty) (after : List (Expr Op Fn Ty))
    (input : Plan Op Fn Ty) : Plan Op Fn Ty :=
  .projection (before ++ outerRef before.length (aliased e).2 :: after) (.projection (innerExprs sem e before.length input) input)

theorem project_ok {exprs : List (Expr Op Fn Ty)} {input q : Plan Op Fn Ty} (h : project sem exprs input = .ok q) :
    Distinct ((Expr.meanings sem exprs).map (·.name)) ∧ q = .projection exprs input := by
  unfold project at h
  split at h
  · next hdistinct =>
    cases h
    exact ⟨hdistinct, rfl⟩
  · cases h

theorem rewrite_cases {p p' : Plan Op Fn Ty} (h : rewrite sem p = .ok (some p')) : ∃ before e after input,
    p = .projection (before ++ e :: after) input ∧ p' = splitPlan sem before e after input ∧ (∀ b ∈ before, b.hasSubquery = false) ∧
      e.hasSubquery = true ∧ 0 < after.countP Expr.hasSubquery ∧
      Distinct ((Expr.meanings sem (innerExprs sem e before.length input)).map (·.name)) := by
  cases p with
  | node op exprs inputs => cases h
  | projection exprs input =>
    rw [rewrite] at h
    split at h
    · next first second rest hindices =>
      obtain ⟨before, e, after, rfl, hfirst, hbefore, he, hcount⟩ := sqIndices_cons hindices
      rw [Nat.zero_add] at hfirst
      subst hfirst
      have hget : (before ++ e :: after)[before.length]? = some e := by simp
      have hset (x : Expr Op Fn Ty) : (before ++ e :: after).set before.length x = before ++ x :: after := by simp
      rw [hget] at h
      dsimp only at h
      rw [hset] at h
      cases hinner : project sem (innerExprs sem e before.length input) input with
      | error message =>
        rw [hinner] at h
        cases h
      | ok innerPlan =>
        rw [hinner] at h
        obtain ⟨hdistinct, rfl⟩ := project_ok hinner
        dsimp only [bind, Except.bind] at h
        split at h
        · cases h
        · next newPlan hnew =>
          obtain ⟨-, rfl⟩ := project_ok hnew
          cases h
          refine ⟨before, e, after, input, rfl, rfl, hbefore, he, ?_, hdistinct⟩
          rw [← hcount]
          exact Nat.succ_pos _
    · cases h

end

/-! ## The column that is added -/

section
variable {sem}

def AgreeOff {α : Type} (c : Column) (env env' : Env α) : Prop := ∀ d, d ≠ c → env d = env' d

theorem refersTo_self (c : Column) : c.refersTo c = true := by simp [Column.refersTo]

theorem refersTo_unqualified {d : Column} {name : String} : d.refersTo ⟨none, name⟩ = true ↔ d = ⟨none, name⟩ := by
  cases d
  simp [Column.refersTo]

theorem lookup_append {α : Type} {columns more : List Column} {cells others : List α} (hlength : cells.length = columns.length) (c : Column) :
    lookup (columns ++ more) (cells ++ others) c = (lookup columns cells c).or (lookup more others c) := by
  rw [lookup, List.zip_append hlength.symm, List.find?_append, lookup, lookup]
  cases (columns.zip cells).find? fun cell => c.refersTo cell.1 <;> rfl

/-- A column behind the others is seen by references to itself only. -/
theorem lookup_extended {α : Type} {columns : List Column} {cells : List α} (hlength : cells.length = columns.length) (name : String) (x : α) :
    AgreeOff ⟨none, name⟩ (lookup (columns ++ [⟨none, name⟩]) (cells ++ [x])) (lookup columns cells) := by
  intro d hd
  have hother : d.refersTo ⟨none, name⟩ = false := Bool.eq_false_iff.mpr fun h => hd (refersTo_unqualified.mp h)
  have hnone : lookup [⟨none, name⟩] [x] d = none := by simp [lookup, hother]
  rw [lookup_append hlength, hnone, Option.or_none]

theorem lookup_new {α : Type} {columns : List Column} {cells : List α} (hlength : cells.length = columns.length) {name : String}
    (hnew : ∀ c ∈ columns, c.name ≠ name) (x : α) : lookup (columns ++ [⟨none, name⟩]) (cells ++ [x]) ⟨none, name⟩ = some x := by
  have hnone : lookup columns cells ⟨none, name⟩ = none := by
    rw [lookup, Option.map_eq_none_iff, List.find?_eq_none]
    intro cell hcell href
    have hc := (List.of_mem_zip hcell).1
    have hname : name = cell.1.name := by
      simp only [Column.refersTo, Bool.and_eq_true] at href
      simpa using href.2
    exact hnew _ hc hname.symm
  rw [lookup_append hlength, hnone]
  simp [lookup, refersTo_self]

/-- In a schema every column refers to its own cell. -/
theorem lookup_columns {α : Type} : ∀ {columns : List Column} {cells : List α}, Distinct columns → cells.length = columns.length →
    columns.map (lookup columns cells) = cells.map some
  | [], [], _, _ => rfl
  | c :: columns, x :: cells, h, hlength => by
    obtain ⟨hc, hrest⟩ := List.pairwise_cons.mp h
    have ih := lookup_columns hrest (by simpa using hlength)
    have hfirst : lookup (c :: columns) (x :: cells) c = some x := by simp [lookup, refersTo_self]
    rw [List.map_cons, List.map_cons, hfirst, ← ih]
    congr 1
    refine List.map_congr_left fun d hd => ?_
    simp [lookup, (hc d hd).2]

theorem over_agree {c : Column} {row outer outer' : Env V} (h : AgreeOff c outer outer') : AgreeOff c (row.over outer) (row.over outer') := by
  intro d hd
  rw [Env.over, Env.over, h d hd]

theorem over_agree_row {c : Column} {row row' outer : Env V} (h : AgreeOff c row row') : AgreeOff c (row.over outer) (row'.over outer) := by
  intro d hd
  rw [Env.over, Env.over, h d hd]

theorem map_congr_meanings {α : Type} {es : List (ExprMeaning Ty V)} {f g : ExprMeaning Ty V → α} (h : ∀ e ∈ es, f e = g e) :
    es.map f = es.map g := List.map_congr_left h

mutual
/-- Without a reference to it, a column of the row around makes no difference. -/
theorem Plan.rows_local {c : Column} {outer outer' : Env V} (h : AgreeOff c outer outer') :
    ∀ p : Plan Op Fn Ty, p.AvoidsOuter c → (p.meaning sem).rows outer = (p.meaning sem).rows outer'
  | .projection exprs input, havoids => by
    have hinput := input.rows_local h havoids.2
    have hexprs := Expr.all_local h exprs havoids.1
    rw [Plan.meaning, projectionMeaning]
    dsimp only
    rw [hinput]
    refine List.map_congr_left fun row _ => List.map_congr_left fun e he => hexprs e he _
  | .node op exprs inputs, havoids => by
    rw [Plan.meaning]
    exact sem.node_local op _ _ outer outer' (Expr.all_local h exprs havoids.1) (Plan.all_rows_local h inputs havoids.2)
theorem Plan.all_rows_local {c : Column} {outer outer' : Env V} (h : AgreeOff c outer outer') :
    ∀ ps : List (Plan Op Fn Ty), Plan.AllAvoidOuter c ps → ∀ m ∈ Plan.meanings sem ps, m.rows outer = m.rows outer'
  | [], _ => by simp [Plan.meanings]
  | p :: ps, havoids => by
    rw [Plan.meanings]
    exact List.forall_mem_cons.mpr ⟨p.rows_local h havoids.1, Plan.all_rows_local h ps havoids.2⟩
theorem Expr.value_local {c : Column} {outer outer' : Env V} (h : AgreeOff c outer outer') :
    ∀ e : Expr Op Fn Ty, e.AvoidsOuter c → ∀ row, (e.meaning sem).value row outer = (e.meaning sem).value row outer'
  | .column _, _ => fun _ => by rw [Expr.meaning]
  | .outerReference _ d, havoids => fun _ => by
    rw [Expr.meaning]
    dsimp only
    rw [h d havoids]
  | .aliasOf expr _ _, havoids => fun row => by
    rw [Expr.meaning]
    exact expr.value_local h havoids row
  | .scalarSubquery plan, havoids => fun row => by
    rw [Expr.meaning]
    dsimp only
    rw [plan.rows_local (over_agree h) havoids]
  | .node fn args, havoids => fun row => by
    rw [Expr.meaning]
    dsimp only
    rw [map_congr_meanings fun e he => Expr.all_local h args havoids e he row]
theorem Expr.all_local {c : Column} {outer outer' : Env V} (h : AgreeOff c outer outer') :
    ∀ es : List (Expr Op Fn Ty), Expr.AllAvoidOuter c es → ∀ m ∈ Expr.meanings sem es, ∀ row, m.value row outer = m.value row outer'
  | [], _ => by simp [Expr.meanings]
  | e :: es, havoids => by
    rw [Expr.meanings]
    exact List.forall_mem_cons.mpr ⟨e.value_local h havoids.1, Expr.all_local h es havoids.2⟩
end

mutual
/-- Without a reference to it, neither does a column of the row. -/
theorem Expr.row_local {c : Column} {row row' : Env V} (h : AgreeOff c row row') (outer : Env V) :
    ∀ e : Expr Op Fn Ty, e.Avoids c → (e.meaning sem).value row outer = (e.meaning sem).value row' outer
  | .column d, havoids => by
    rw [Expr.meaning]
    dsimp only
    rw [h d havoids]
  | .outerReference _ _, _ => by rw [Expr.meaning]
  | .aliasOf expr _ _, havoids => by
    rw [Expr.meaning]
    exact expr.row_local h outer havoids
  | .scalarSubquery plan, havoids => by
    rw [Expr.meaning]
    dsimp only
    rw [plan.rows_local (over_agree_row h) havoids]
  | .node fn args, havoids => by
    rw [Expr.meaning]
    dsimp only
    rw [map_congr_meanings (Expr.all_row_local h outer args havoids)]
theorem Expr.all_row_local {c : Column} {row row' : Env V} (h : AgreeOff c row row') (outer : Env V) :
    ∀ es : List (Expr Op Fn Ty), Expr.AllAvoid c es → ∀ m ∈ Expr.meanings sem es, m.value row outer = m.value row' outer
  | [], _ => by simp [Expr.meanings]
  | e :: es, havoids => by
    rw [Expr.meanings]
    exact List.forall_mem_cons.mpr ⟨e.row_local h outer havoids.1, Expr.all_row_local h outer es havoids.2⟩
end

mutual
theorem Expr.type_local {c : Column} {types types' : Env Ty} (h : AgreeOff c types types') :
    ∀ e : Expr Op Fn Ty, e.Avoids c → (e.meaning sem).ty types = (e.meaning sem).ty types'
  | .column d, havoids => by
    rw [Expr.meaning]
    dsimp only
    rw [h d havoids]
  | .outerReference _ _, _ => by rw [Expr.meaning]
  | .aliasOf expr _ _, havoids => by
    rw [Expr.meaning]
    exact expr.type_local h havoids
  | .scalarSubquery _, _ => by rw [Expr.meaning]
  | .node fn args, havoids => by
    rw [Expr.meaning]
    dsimp only
    rw [map_congr_meanings (Expr.all_type_local h args havoids)]
theorem Expr.all_type_local {c : Column} {types types' : Env Ty} (h : AgreeOff c types types') :
    ∀ es : List (Expr Op Fn Ty), Expr.AllAvoid c es → ∀ m ∈ Expr.meanings sem es, m.ty types = m.ty types'
  | [], _ => by simp [Expr.meanings]
  | e :: es, havoids => by
    rw [Expr.meanings]
    exact List.forall_mem_cons.mpr ⟨e.type_local h havoids.1, Expr.all_type_local h es havoids.2⟩
end

/-! ## One projection -/

theorem columns_length (p : PlanMeaning Ty V) : p.columns.length = p.schema.length := List.length_map _

theorem aliased_meaning (e : Expr Op Fn Ty) : ((aliased e).1.meaning sem).value = (e.meaning sem).value ∧
    ((aliased e).1.meaning sem).ty = (e.meaning sem).ty := by
  cases e with
  | aliasOf expr relation name =>
    rw [aliased, Expr.meaning]
    exact ⟨rfl, rfl⟩
  | _ => exact ⟨rfl, rfl⟩

theorem fields_of_types {f : Env Ty} : ∀ {fields : List (Field Ty)}, (fields.map (·.column)).map f = (fields.map (·.ty)).map some →
    ∀ ty : Ty, (fields.map (·.column)).map (fun c => (⟨c, (f c).getD ty⟩ : Field Ty)) = fields
  | [], _, _ => rfl
  | field :: fields, h, ty => by
    obtain ⟨hfield, hfields⟩ := List.cons.inj h
    rw [List.map_cons, List.map_cons, fields_of_types hfields ty, hfield]
    rfl

/-- The projection below has the columns of the input and the new one behind them. -/
theorem inner_meaning {input : Plan Op Fn Ty} {e : Expr Op Fn Ty} {i : Nat} (hdistinct : Distinct (input.meaning sem).columns) :
    let inner := (Plan.projection (innerExprs sem e i input) input).meaning sem
    inner.schema = (input.meaning sem).schema ++ [⟨⟨none, sqAlias i⟩, (e.meaning sem).ty (input.meaning sem).types⟩] ∧
      ∀ outer, inner.rows outer = ((input.meaning sem).rows outer).map fun row =>
        row ++ [(e.meaning sem).value (lookup (input.meaning sem).columns row) outer] := by
  obtain ⟨hvalue, htype⟩ := @aliased_meaning _ _ _ _ sem e
  have hexprs : Expr.meanings sem (innerExprs sem e i input) =
      (input.meaning sem).columns.map (fun c => Expr.meaning sem (.column c)) ++ [Expr.meaning sem (.aliasOf (aliased e).1 none (sqAlias i))] := by
    rw [meanings_eq, innerExprs, List.map_append, List.map_map]
    rfl
  have hnew : Expr.meaning sem (.aliasOf (aliased e).1 none (sqAlias i)) =
      { (aliased e).1.meaning sem with shown := sem.showColumn ⟨none, sqAlias i⟩, name := ⟨none, sqAlias i⟩ } := by rw [Expr.meaning]
  constructor
  · rw [Plan.meaning, projectionMeaning]
    dsimp only
    rw [hexprs, List.map_append, List.map_map, List.map_singleton, hnew]
    dsimp only
    rw [htype]
    congr 1
    have hlength : ((input.meaning sem).schema.map (·.ty)).length = (input.meaning sem).columns.length := by
      rw [List.length_map, columns_length]
    have htypes := lookup_columns hdistinct hlength
    have hfields : (input.meaning sem).columns.map (fun c => (⟨c, ((input.meaning sem).types c).getD sem.nullType⟩ : Field Ty)) =
        (input.meaning sem).schema := fields_of_types htypes sem.nullType
    conv_rhs => rw [← hfields]
    refine List.map_congr_left fun c _ => ?_
    rw [Function.comp_apply, Expr.meaning]
  · intro outer
    rw [Plan.meaning, projectionMeaning]
    dsimp only
    refine List.map_congr_left fun row hrow => ?_
    rw [hexprs, List.map_append, List.map_map, List.map_singleton, hnew]
    dsimp only
    rw [hvalue]
    congr 1
    have hlength : row.length = (input.meaning sem).columns.length := by
      rw [columns_length, (input.meaning sem).shaped outer row hrow]
    have hcells := congrArg (List.map fun cell => cell.getD sem.null) (lookup_columns hdistinct hlength)
    rw [List.map_map, List.map_map] at hcells
    have hid : (fun cell : Option V => cell.getD sem.null) ∘ some = id := rfl
    rw [hid, List.map_id] at hcells
    conv_rhs => rw [← hcells]
    refine List.map_congr_left fun c _ => ?_
    rw [Function.comp_apply, Expr.meaning]
    rfl

theorem outerRef_meaning {e : Expr Op Fn Ty} {i : Nat} (h : NameKept sem e i) :
    ((outerRef i (aliased e).2 : Expr Op Fn Ty).meaning sem).name = (e.meaning sem).name ∧
      (∀ types, ((outerRef i (aliased e).2 : Expr Op Fn Ty).meaning sem).ty types = (types ⟨none, sqAlias i⟩).getD sem.nullType) ∧
      ∀ row outer, ((outerRef i (aliased e).2 : Expr Op Fn Ty).meaning sem).value row outer = (row ⟨none, sqAlias i⟩).getD sem.null := by
  obtain ⟨expr, name, rfl⟩ | ⟨hnone, hname⟩ := h
  · rw [aliased, outerRef, Expr.meaning, Expr.meaning, Expr.meaning]
    exact ⟨rfl, fun _ => rfl, fun _ _ => rfl⟩
  · rw [hnone, hname, outerRef, Expr.meaning]
    exact ⟨rfl, fun _ => rfl, fun _ _ => rfl⟩

/-- What the expressions of two projections give, if they differ in one of them. -/
theorem map_meanings {α : Type} {before after : List (Expr Op Fn Ty)} {e e' : Expr Op Fn Ty} {f g : ExprMeaning Ty V → α}
    (hothers : ∀ other ∈ before ++ after, f (other.meaning sem) = g (other.meaning sem)) (he : f (e'.meaning sem) = g (e.meaning sem)) :
    (Expr.meanings sem (before ++ e' :: after)).map f = (Expr.meanings sem (before ++ e :: after)).map g := by
  rw [meanings_eq, meanings_eq, List.map_map, List.map_map, List.map_append, List.map_append, List.map_cons, List.map_cons,
    Function.comp_apply, Function.comp_apply, he]
  congr 1
  · exact List.map_congr_left fun b hb => hothers b (List.mem_append_left _ hb)
  · congr 1
    exact List.map_congr_left fun a ha => hothers a (List.mem_append_right _ ha)

/-- **In order, the two projections mean what the one means.** -/
theorem split_meaning {before after : List (Expr Op Fn Ty)} {e : Expr Op Fn Ty} {input : Plan Op Fn Ty}
    (hdistinct : Distinct (input.meaning sem).columns) (hkept : NameKept sem e before.length)
    (hfresh : ∀ c ∈ (input.meaning sem).columns, c.name ≠ sqAlias before.length)
    (havoids : ∀ other ∈ before ++ after, other.Avoids ⟨none, sqAlias before.length⟩) :
    (splitPlan sem before e after input).meaning sem = (Plan.projection (before ++ e :: after) input).meaning sem := by
  obtain ⟨hname, htype, hvalue⟩ := outerRef_meaning hkept
  obtain ⟨hschema, hrows⟩ := @inner_meaning _ _ _ _ sem input e before.length hdistinct
  rw [splitPlan, Plan.meaning]
  generalize hinner : (Plan.projection (innerExprs sem e before.length input) input).meaning sem = inner at hschema hrows
  have hcolumns : inner.columns = (input.meaning sem).columns ++ [⟨none, sqAlias before.length⟩] := by
    rw [PlanMeaning.columns, hschema, List.map_append]
    rfl
  have htypes : inner.types = lookup ((input.meaning sem).columns ++ [⟨none, sqAlias before.length⟩])
      ((input.meaning sem).schema.map (·.ty) ++ [(e.meaning sem).ty (input.meaning sem).types]) := by
    rw [PlanMeaning.types, hcolumns, hschema, List.map_append]
    rfl
  have hlength : ((input.meaning sem).schema.map (·.ty)).length = (input.meaning sem).columns.length := by
    rw [List.length_map, columns_length]
  rw [Plan.meaning]
  refine PlanMeaning.ext ?_ (funext fun outer => ?_)
  · rw [projectionMeaning, projectionMeaning]
    dsimp only
    refine map_meanings (fun other hother => ?_) ?_
    · rw [Expr.type_local (htypes ▸ lookup_extended hlength _ _) other (havoids other hother)]
      rfl
    · rw [hname, htype, htypes, lookup_new hlength hfresh]
      rfl
  · rw [projectionMeaning, projectionMeaning]
    dsimp only
    rw [hrows, List.map_map]
    refine List.map_congr_left fun row hrow => ?_
    have hcells : row.length = (input.meaning sem).columns.length := by
      rw [columns_length, (input.meaning sem).shaped outer row hrow]
    rw [Function.comp_apply, hcolumns]
    refine map_meanings (fun other hother => ?_) ?_
    · exact Expr.row_local (lookup_extended hcells _ _) outer other (havoids other hother)
    · rw [hvalue, lookup_new hcells hfresh]
      rfl

theorem rewrite_meaning {p p' : Plan Op Fn Ty} (hok : InOrder sem p) (h : rewrite sem p = .ok (some p')) :
    p'.meaning sem = p.meaning sem := by
  obtain ⟨before, e, after, input, rfl, rfl, hbefore, he, -⟩ := rewrite_cases h
  rw [InOrder] at hok
  obtain ⟨hkept, hfresh, havoids, hdistinct, -⟩ := hok before e after rfl hbefore he
  exact split_meaning hdistinct hkept hfresh havoids

/-! ## Steps -/

theorem excess_exprs (before : List (Expr Op Fn Ty)) (e : Expr Op Fn Ty) (after : List (Expr Op Fn Ty)) :
    excess (Expr.allProjections (before ++ e :: after)) =
      excess (Expr.allProjections before) + (excess e.projections + excess (Expr.allProjections after)) := by
  rw [allProjections_eq, allProjections_eq, allProjections_eq, List.flatMap_append, List.flatMap_cons, excess_append, excess_append]

theorem excess_plans (before : List (Plan Op Fn Ty)) (p : Plan Op Fn Ty) (after : List (Plan Op Fn Ty)) :
    excess (Plan.allProjections (before ++ p :: after)) =
      excess (Plan.allProjections before) + (excess p.projections + excess (Plan.allProjections after)) := by
  rw [planProjections_eq, planProjections_eq, planProjections_eq, List.flatMap_append, List.flatMap_cons, excess_append, excess_append]

theorem aliased_parts (e : Expr Op Fn Ty) : (aliased e).1.hasSubquery = e.hasSubquery ∧ (aliased e).1.projections = e.projections := by
  cases e with
  | aliasOf expr relation name =>
    rw [aliased, Expr.hasSubquery, Expr.projections]
    exact ⟨rfl, rfl⟩
  | _ => exact ⟨rfl, rfl⟩

theorem outerRef_parts (i : Nat) (orig : Option String) : (outerRef i orig : Expr Op Fn Ty).hasSubquery = false ∧
    (outerRef i orig : Expr Op Fn Ty).projections = [] := by
  cases orig with
  | none => rw [outerRef, Expr.hasSubquery, Expr.projections]; exact ⟨rfl, rfl⟩
  | some name => rw [outerRef, Expr.hasSubquery, Expr.hasSubquery, Expr.projections, Expr.projections]; exact ⟨rfl, rfl⟩

theorem columns_parts (columns : List Column) : (columns.map Expr.column : List (Expr Op Fn Ty)).countP Expr.hasSubquery = 0 ∧
    Expr.allProjections (columns.map Expr.column : List (Expr Op Fn Ty)) = [] := by
  induction columns with
  | nil => exact ⟨rfl, rfl⟩
  | cons c columns ih =>
    rw [List.map_cons, List.countP_cons, Expr.allProjections, ih.1, ih.2, Expr.hasSubquery, Expr.projections]
    exact ⟨rfl, rfl⟩

/-- One expression less has to be taken out. -/
theorem rewrite_excess {p p' : Plan Op Fn Ty} (h : rewrite sem p = .ok (some p')) : excess p'.projections + 1 = excess p.projections := by
  obtain ⟨before, e, after, input, rfl, rfl, hbefore, he, hafter, -⟩ := rewrite_cases h
  obtain ⟨hasAliased, projAliased⟩ := aliased_parts e
  obtain ⟨hasOuter, projOuter⟩ := @outerRef_parts Op Fn Ty before.length (aliased e).2
  obtain ⟨countColumns, projColumns⟩ := @columns_parts Op Fn Ty (input.meaning sem).columns
  have hcount : before.countP Expr.hasSubquery = 0 := List.countP_eq_zero.mpr fun b hb => by rw [hbefore b hb]; exact Bool.false_ne_true
  have hinner : (innerExprs sem e before.length input).countP Expr.hasSubquery = 1 := by
    rw [innerExprs, List.countP_append, countColumns, List.countP_singleton, Expr.hasSubquery, hasAliased, he]
    rfl
  have hprojInner : Expr.allProjections (innerExprs sem e before.length input) = e.projections := by
    rw [innerExprs, allProjections_eq, List.flatMap_append, ← allProjections_eq, projColumns, List.flatMap_singleton, Expr.projections, projAliased]
    rfl
  rw [splitPlan, Plan.projections, Plan.projections, Plan.projections, excess_cons, excess_cons, excess_append, excess_append, excess_cons,
    excess_append, excess_exprs, excess_exprs, hprojInner, projOuter, Plan.subqueryCount, Plan.subqueryCount, Plan.subqueryCount, hinner,
    List.countP_append, List.countP_append, List.countP_cons, List.countP_cons, hcount, he, hasOuter]
  have hnil : excess ([] : List (Plan Op Fn Ty)) = 0 := rfl
  simp only [hnil, if_true, Bool.false_eq_true, if_false]
  omega

theorem Expr.Step.hasSubquery_eq {ok : Plan Op Fn Ty → Prop} : ∀ {e e' : Expr Op Fn Ty}, Expr.Step sem ok e e' →
    e'.hasSubquery = e.hasSubquery
  | _, _, .aliasOf h => by
    rw [Expr.hasSubquery, Expr.hasSubquery, h.hasSubquery_eq]
  | _, _, .scalarSubquery _ => by
    rw [Expr.hasSubquery, Expr.hasSubquery]
  | _, _, .arg h => by
    rw [Expr.hasSubquery, Expr.hasSubquery, anySubquery_eq, anySubquery_eq, List.any_append, List.any_append, List.any_cons, List.any_cons,
      h.hasSubquery_eq]

mutual
theorem Plan.Step.excess_eq {ok : Plan Op Fn Ty → Prop} : ∀ {p p' : Plan Op Fn Ty}, Plan.Step sem ok p p' →
    excess p'.projections + 1 = excess p.projections
  | _, _, .here _ h => rewrite_excess h
  | _, _, .projectionExpr h => by
    have ih := h.excess_eq
    rw [Plan.projections, Plan.projections, excess_cons, excess_cons, excess_append, excess_append, excess_exprs, excess_exprs,
      Plan.subqueryCount, Plan.subqueryCount, List.countP_append, List.countP_append, List.countP_cons, List.countP_cons, h.hasSubquery_eq]
    omega
  | _, _, .projectionInput h => by
    have ih := h.excess_eq
    rw [Plan.projections, Plan.projections, excess_cons, excess_cons, excess_append, excess_append, Plan.subqueryCount, Plan.subqueryCount]
    omega
  | _, _, .nodeExpr h => by
    have ih := h.excess_eq
    rw [Plan.projections, Plan.projections, excess_append, excess_append, excess_exprs, excess_exprs]
    omega
  | _, _, .nodeInput h => by
    have ih := h.excess_eq
    rw [Plan.projections, Plan.projections, excess_append, excess_append, excess_plans, excess_plans]
    omega
theorem Expr.Step.excess_eq {ok : Plan Op Fn Ty → Prop} : ∀ {e e' : Expr Op Fn Ty}, Expr.Step sem ok e e' →
    excess e'.projections + 1 = excess e.projections
  | _, _, .aliasOf h => by
    rw [Expr.projections, Expr.projections]
    exact h.excess_eq
  | _, _, .scalarSubquery h => by
    rw [Expr.projections, Expr.projections]
    exact h.excess_eq
  | _, _, .arg h => by
    have ih := h.excess_eq
    rw [Expr.projections, Expr.projections, excess_exprs, excess_exprs]
    omega
end

theorem meanings_congr {before after : List (Expr Op Fn Ty)} {e e' : Expr Op Fn Ty} (h : e'.meaning sem = e.meaning sem) :
    Expr.meanings sem (before ++ e' :: after) = Expr.meanings sem (before ++ e :: after) := by
  rw [meanings_eq, meanings_eq, List.map_append, List.map_append, List.map_cons, List.map_cons, h]

theorem planMeanings_congr {before after : List (Plan Op Fn Ty)} {p p' : Plan Op Fn Ty} (h : p'.meaning sem = p.meaning sem) :
    Plan.meanings sem (before ++ p' :: after) = Plan.meanings sem (before ++ p :: after) := by
  rw [planMeanings_eq, planMeanings_eq, List.map_append, List.map_append, List.map_cons, List.map_cons, h]

mutual
/-- A plan means what it means after a step in order. -/
theorem Plan.Step.meaning_eq : ∀ {p p' : Plan Op Fn Ty}, Plan.Step sem (InOrder sem) p p' → p'.meaning sem = p.meaning sem
  | _, _, .here hok h => rewrite_meaning hok h
  | _, _, .projectionExpr h => by
    rw [Plan.meaning, Plan.meaning, meanings_congr h.meaning_eq]
  | _, _, .projectionInput h => by
    rw [Plan.meaning, Plan.meaning, h.meaning_eq]
  | _, _, .nodeExpr h => by
    rw [Plan.meaning, Plan.meaning, meanings_congr h.meaning_eq]
  | _, _, .nodeInput h => by
    rw [Plan.meaning, Plan.meaning, planMeanings_congr h.meaning_eq]
theorem Expr.Step.meaning_eq : ∀ {e e' : Expr Op Fn Ty}, Expr.Step sem (InOrder sem) e e' → e'.meaning sem = e.meaning sem
  | _, _, .aliasOf h => by
    rw [Expr.meaning, Expr.meaning, h.meaning_eq]
  | _, _, .scalarSubquery h => by
    rw [Expr.meaning, Expr.meaning, h.meaning_eq]
  | _, _, .arg h => by
    rw [Expr.meaning, Expr.meaning, meanings_congr h.meaning_eq]
end

/-! ## Progress -/

theorem distinct_inner {columns : List Column} {name : String} (h : Distinct columns) (hfresh : ∀ c ∈ columns, c.name ≠ name) :
    Distinct (columns ++ [⟨none, name⟩]) := by
  refine List.pairwise_append.mpr ⟨h, List.pairwise_singleton _ _, fun c hc d hd => ?_⟩
  rw [List.mem_singleton.mp hd]
  have hname := hfresh c hc
  exact ⟨by simp [Column.refersTo, hname], by simp [Column.refersTo, Ne.symm hname]⟩

/-- In order the rule splits a projection with several subqueries. -/
theorem rewrite_progress {p : Plan Op Fn Ty} (hok : InOrder sem p) (hcount : 1 < p.subqueryCount) : ∃ p', rewrite sem p = .ok (some p') := by
  cases p with
  | node op exprs inputs => exact absurd hcount (Nat.not_lt_zero 1)
  | projection exprs input =>
    have hlength : (sqIndices exprs).length = exprs.countP Expr.hasSubquery := indices_length exprs 0
    rw [rewrite]
    split
    · next first second rest hindices =>
      obtain ⟨before, e, after, rfl, hfirst, hbefore, he, -⟩ := sqIndices_cons hindices
      rw [Nat.zero_add] at hfirst
      subst hfirst
      rw [InOrder] at hok
      obtain ⟨hkept, hfresh, -, hdistinct, hnames⟩ := hok before e after rfl hbefore he
      have hget : (before ++ e :: after)[before.length]? = some e := by simp
      have hset (x : Expr Op Fn Ty) : (before ++ e :: after).set before.length x = before ++ x :: after := by simp
      have hinner : Distinct ((Expr.meanings sem (innerExprs sem e before.length input)).map (·.name)) := by
        have hcolumns : (Expr.meanings sem (innerExprs sem e before.length input)).map (·.name) =
            (input.meaning sem).columns ++ [⟨none, sqAlias before.length⟩] := by
          have hschema := congrArg (List.map fun field => field.column) (inner_meaning (e := e) (i := before.length) hdistinct).1
          rw [Plan.meaning, projectionMeaning, List.map_append, List.map_map] at hschema
          exact hschema
        rw [hcolumns]
        exact distinct_inner hdistinct hfresh
      have houter : Distinct ((Expr.meanings sem (before ++ outerRef before.length (aliased e).2 :: after)).map (·.name)) := by
        rw [map_meanings (f := (·.name)) (g := (·.name)) (fun _ _ => rfl) (outerRef_meaning hkept).1]
        exact hnames
      refine ⟨splitPlan sem before e after input, ?_⟩
      rw [hget]
      dsimp only
      rw [hset]
      unfold project
      rw [if_pos hinner]
      dsimp only [bind, Except.bind]
      rw [if_pos houter]
      rfl
    · next hindices =>
      rw [Plan.subqueryCount, ← hlength] at hcount
      match hfirst : sqIndices exprs with
      | [] =>
        rw [hfirst] at hcount
        exact absurd hcount (Nat.not_lt_zero 1)
      | [_] =>
        rw [hfirst] at hcount
        exact absurd hcount (Nat.lt_irrefl 1)
      | first :: second :: rest => exact absurd hfirst (hindices first second rest)

mutual
/-- A step on a projection anywhere is a step on the plan. -/
theorem Plan.step_of_projection {ok : Plan Op Fn Ty → Prop} {q q' : Plan Op Fn Ty} (hok : ok q) (h : rewrite sem q = .ok (some q')) :
    ∀ p : Plan Op Fn Ty, q ∈ p.projections → ∃ p', Plan.Step sem ok p p'
  | .projection exprs input, hmem => by
    rw [Plan.projections, List.mem_cons, List.mem_append] at hmem
    obtain rfl | hmem | hmem := hmem
    · exact ⟨q', .here hok h⟩
    · obtain ⟨before, e, e', after, rfl, hstep⟩ := Expr.step_of_projections hok h exprs hmem
      exact ⟨_, .projectionExpr hstep⟩
    · obtain ⟨input', hstep⟩ := Plan.step_of_projection hok h input hmem
      exact ⟨_, .projectionInput hstep⟩
  | .node op exprs inputs, hmem => by
    rw [Plan.projections, List.mem_append] at hmem
    obtain hmem | hmem := hmem
    · obtain ⟨before, e, e', after, rfl, hstep⟩ := Expr.step_of_projections hok h exprs hmem
      exact ⟨_, .nodeExpr hstep⟩
    · obtain ⟨before, p, p', after, rfl, hstep⟩ := Plan.step_of_projections hok h inputs hmem
      exact ⟨_, .nodeInput hstep⟩
theorem Plan.step_of_projections {ok : Plan Op Fn Ty → Prop} {q q' : Plan Op Fn Ty} (hok : ok q) (h : rewrite sem q = .ok (some q')) :
    ∀ ps : List (Plan Op Fn Ty), q ∈ Plan.allProjections ps → ∃ before p p' after, ps = before ++ p :: after ∧ Plan.Step sem ok p p'
  | [], hmem => by simp [Plan.allProjections] at hmem
  | p :: ps, hmem => by
    rw [Plan.allProjections, List.mem_append] at hmem
    obtain hmem | hmem := hmem
    · obtain ⟨p', hstep⟩ := Plan.step_of_projection hok h p hmem
      exact ⟨[], p, p', ps, rfl, hstep⟩
    · obtain ⟨before, p₁, p₂, after, rfl, hstep⟩ := Plan.step_of_projections hok h ps hmem
      exact ⟨p :: before, p₁, p₂, after, rfl, hstep⟩
theorem Expr.step_of_projection {ok : Plan Op Fn Ty → Prop} {q q' : Plan Op Fn Ty} (hok : ok q) (h : rewrite sem q = .ok (some q')) :
    ∀ e : Expr Op Fn Ty, q ∈ e.projections → ∃ e', Expr.Step sem ok e e'
  | .column _, hmem => by simp [Expr.projections] at hmem
  | .outerReference _ _, hmem => by simp [Expr.projections] at hmem
  | .aliasOf expr _ _, hmem => by
    rw [Expr.projections] at hmem
    obtain ⟨expr', hstep⟩ := Expr.step_of_projection hok h expr hmem
    exact ⟨_, .aliasOf hstep⟩
  | .scalarSubquery plan, hmem => by
    rw [Expr.projections] at hmem
    obtain ⟨plan', hstep⟩ := Plan.step_of_projection hok h plan hmem
    exact ⟨_, .scalarSubquery hstep⟩
  | .node fn args, hmem => by
    rw [Expr.projections] at hmem
    obtain ⟨before, e, e', after, rfl, hstep⟩ := Expr.step_of_projections hok h args hmem
    exact ⟨_, .arg hstep⟩
theorem Expr.step_of_projections {ok : Plan Op Fn Ty → Prop} {q q' : Plan Op Fn Ty} (hok : ok q) (h : rewrite sem q = .ok (some q')) :
    ∀ es : List (Expr Op Fn Ty), q ∈ Expr.allProjections es → ∃ before e e' after, es = before ++ e :: after ∧ Expr.Step sem ok e e'
  | [], hmem => by simp [Expr.allProjections] at hmem
  | e :: es, hmem => by
    rw [Expr.allProjections, List.mem_append] at hmem
    obtain hmem | hmem := hmem
    · obtain ⟨e', hstep⟩ := Expr.step_of_projection hok h e hmem
      exact ⟨[], e, e', es, rfl, hstep⟩
    · obtain ⟨before, e₁, e₂, after, rfl, hstep⟩ := Expr.step_of_projections hok h es hmem
      exact ⟨e :: before, e₁, e₂, after, rfl, hstep⟩
end

end

/-- **Subqueries are split off.** Each step of a run in order keeps the rows and the schema and leaves one expression less to take out;
and the run can go on until no projection has several subqueries, or one of those that have is not in order. -/
theorem subqueries_split {n : Nat} {p q : Plan Op Fn Ty} (hrun : Run sem (InOrder sem) n p q) :
    q.meaning sem = p.meaning sem ∧ n + excess q.projections = excess p.projections ∧
      ((∀ sub ∈ q.projections, sub.subqueryCount ≤ 1) ∨ (∃ q', Plan.Step sem (InOrder sem) q q') ∨
        ∃ sub ∈ q.projections, 1 < sub.subqueryCount ∧ ¬ InOrder sem sub) := by
  refine ⟨?_, ?_, ?_⟩
  · induction hrun with
    | done => rfl
    | step _ h ih => rw [h.meaning_eq, ih]
  · induction hrun with
    | done => exact Nat.zero_add _
    | step _ h ih =>
      have hstep := h.excess_eq
      omega
  · by_cases hsettled : ∀ sub ∈ q.projections, sub.subqueryCount ≤ 1
    · exact .inl hsettled
    · simp only [not_forall, Nat.not_le] at hsettled
      obtain ⟨sub, hmem, hcount⟩ := hsettled
      by_cases hok : InOrder sem sub
      · obtain ⟨sub', hrewrite⟩ := rewrite_progress hok hcount
        exact .inr (.inl (Plan.step_of_projection hok hrewrite q hmem))
      · exact .inr (.inr ⟨sub, hmem, hcount, hok⟩)

/-- One operation, a table of one number. -/
def numbers : Semantics Unit Unit Unit Nat where
  nullType := ()
  null := 0
  scalar rows := ((rows.head?).bind List.head?).getD 0
  showColumn c := c.name
  showFn _ _ := ""
  typeFn _ _ := ()
  applyFn _ args := args.sum
  node _ _ _ := ⟨[⟨⟨none, "x"⟩, ()⟩], fun _ => [[7]], by intro _ row hrow; rw [List.mem_singleton.mp hrow]; rfl⟩
  node_local _ _ _ _ _ _ _ := rfl

def table : Plan Unit Unit Unit := .node () [] []

def aliasedPlan : Plan Unit Unit Unit :=
  .projection [.aliasOf (.scalarSubquery table) none "a", .aliasOf (.scalarSubquery table) none "b"] table

theorem aliased_split : ∃ q, Run numbers (InOrder numbers) 1 aliasedPlan q ∧ q.meaning numbers = aliasedPlan.meaning numbers := by
  have hok : InOrder numbers aliasedPlan := by
    intro before e after hsplit hbefore _
    cases before with
    | cons b before =>
      obtain ⟨rfl, -⟩ := List.cons.inj hsplit
      exact absurd (hbefore _ (List.mem_cons_self ..)) (by decide)
    | nil =>
      obtain ⟨rfl, rfl⟩ := List.cons.inj hsplit
      refine ⟨.inl ⟨_, _, rfl⟩, ?_, ?_, ?_, ?_⟩
      · intro c hc
        rw [List.mem_singleton.mp hc]
        decide
      · intro other hother
        rw [List.mem_singleton.mp hother]
        exact ⟨trivial, trivial⟩
      · decide +kernel
      · decide +kernel
  have hrewrite : rewrite numbers aliasedPlan = .ok (some (splitPlan numbers [] (.aliasOf (.scalarSubquery table) none "a")
      [.aliasOf (.scalarSubquery table) none "b"] table)) := by
    rfl
  have hrun := Run.step .done (.here hok hrewrite)
  exact ⟨_, hrun, (subqueries_split numbers hrun).1⟩

def unaliasedPlan : Plan Unit Unit Unit := .projection [.scalarSubquery table, .aliasOf (.scalarSubquery table) none "b"] table

/-- The column of a subquery without an alias gets the name of the new column. -/
theorem unaliased_renamed : (unaliasedPlan.meaning numbers).columns.map (·.name) = ["x", "b"] ∧
    ((rewrite numbers unaliasedPlan).map fun q => q.map fun q => (q.meaning numbers).columns.map (·.name)) =
      .ok (some ["__potato_sq_0", "b"]) := by
  exact ⟨rfl, rfl⟩

end PotatoDB.Subqueries
