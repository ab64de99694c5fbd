import PotatoDB.CatalogJson
import PotatoDB.ReferencesSound
import PotatoDB.RollbackSound

/-!
# The constraints that CREATE TABLE declares

A constraint is declared on a column or for the table. The catalog gets those for the table and the
flags for NOT NULL; what else is declared on a column is lost.
-/

namespace PotatoDB

open Oplog Oplog.Prog

/-! ## The parsed statement -/

/-- A name with its text, which has quotes around it or is the name itself. -/
structure SqlIdent where
  value : String
  display : String
  quoted : display = value ∨ value.length < display.length

inductive ReferentialAction where
  | restrict
  | cascade
  | setNull
  | noAction
  | setDefault
deriving DecidableEq

def ReferentialAction.display : ReferentialAction → String
  | restrict => "RESTRICT"
  | cascade => "CASCADE"
  | setNull => "SET NULL"
  | noAction => "NO ACTION"
  | setDefault => "SET DEFAULT"

/-- What a key is on: a column, or another expression. -/
inductive KeyExpr where
  | identifier (name : SqlIdent)
  | other (display : String)

namespace KeyExpr

def display : KeyExpr → String
  | identifier name => name.display
  | other display => display

/-- The column. -/
def column : KeyExpr → String
  | identifier name => name.value
  | other display => display

end KeyExpr

inductive ColumnOption where
  | null
  | notNull
  | unique (isPrimary : Bool)
  | check (expr : String)
  | foreignKey (foreignTable : String) (referredColumns : List SqlIdent) (onDelete onUpdate : Option ReferentialAction)
  /-- DEFAULT, COLLATE, COMMENT and others that declare no constraint. -/
  | other (display : String)

structure ColumnOptionDef where
  name : Option SqlIdent
  option : ColumnOption

structure SqlColumnDef where
  name : SqlIdent
  dataType : String
  options : List ColumnOptionDef

inductive SqlTableConstraint where
  | primaryKey (name : Option SqlIdent) (columns : List KeyExpr)
  | unique (name : Option SqlIdent) (columns : List KeyExpr)
  | check (name : Option SqlIdent) (expr : String)
  | foreignKey (name : Option SqlIdent) (columns : List SqlIdent) (foreignTable : String) (referredColumns : List SqlIdent)
      (onDelete onUpdate : Option ReferentialAction)
  /-- An index; it declares no constraint. -/
  | other (display : String)

structure SqlCreateTable where
  name : String
  ifNotExists : Bool
  columns : List SqlColumnDef
  constraints : List SqlTableConstraint
  partitionColumns : List String
  query : Option String
  display : String

/-! ## What the catalog gets -/

def sqlConstraintToCatalog (idx : Nat) : SqlTableConstraint → List CatalogJson.TableConstraint
  | .primaryKey _ columns => [.primaryKey (columns.map KeyExpr.display)]
  | .unique name columns => [.unique (name.elim s!"unique_{idx}" SqlIdent.value) (columns.map KeyExpr.display)]
  | .check name expr => [.check (name.elim s!"check_{idx}" SqlIdent.value) expr]
  | .foreignKey name columns foreignTable referredColumns onDelete onUpdate =>
    [.foreignKey (name.elim s!"fk_{idx}" SqlIdent.value) (columns.map SqlIdent.value) foreignTable
      (referredColumns.map SqlIdent.value) (onDelete.map ReferentialAction.display) (onUpdate.map ReferentialAction.display)]
  | .other _ => []

def sqlConstraintsFrom (idx : Nat) : List SqlTableConstraint → List CatalogJson.TableConstraint
  | [] => []
  | c :: constraints => sqlConstraintToCatalog idx c ++ sqlConstraintsFrom (idx + 1) constraints

def sqlConstraintsToCatalog (constraints : List SqlTableConstraint) : List CatalogJson.TableConstraint :=
  sqlConstraintsFrom 0 constraints

def ColumnOption.isNotNull : ColumnOption → Bool
  | notNull => true
  | _ => false

def sqlColumnToCatalog (col : SqlColumnDef) : ColumnDef where
  name := col.name.value
  dataType := col.dataType
  nullable := !col.options.any (·.option.isNotNull)

/-- A constraint as the statements use it, which never look at the action on an update. -/
def CatalogJson.TableConstraint.used : CatalogJson.TableConstraint → PotatoDB.TableConstraint
  | .primaryKey columns => .primaryKey columns
  | .unique name columns => .unique name columns
  | .check name expr => .check name expr
  | .foreignKey name columns refTable refColumns onDelete _ => .foreignKey name columns refTable refColumns onDelete

namespace SqlCreateTable

/-- The constraints in the catalog; those of a table from a query are none. -/
def stored (create : SqlCreateTable) : List CatalogJson.TableConstraint :=
  if create.query.isSome then [] else sqlConstraintsToCatalog create.constraints

def toCatalog (create : SqlCreateTable) : CreateTable where
  name := create.name
  ifNotExists := create.ifNotExists
  columns := create.columns.map sqlColumnToCatalog
  constraints := (sqlConstraintsToCatalog create.constraints).map CatalogJson.TableConstraint.used
  partitionColumns := create.partitionColumns
  query := create.query
  display := create.display

end SqlCreateTable

/-! ## What is declared -/

/-- A constraint, with its name if it has one, on the names of its columns. -/
inductive Declared where
  | primaryKey (columns : List String)
  | unique (name : Option String) (columns : List String)
  | check (name : Option String) (expr : String)
  | foreignKey (name : Option String) (columns : List String) (refTable : String) (refColumns : List String)
      (onDelete onUpdate : Option ReferentialAction)

def ColumnOption.declared (name : Option SqlIdent) (column : SqlIdent) : ColumnOption → List Declared
  | unique true => [.primaryKey [column.value]]
  | unique false => [.unique (name.map SqlIdent.value) [column.value]]
  | check expr => [.check (name.map SqlIdent.value) expr]
  | foreignKey foreignTable referredColumns onDelete onUpdate =>
    [.foreignKey (name.map SqlIdent.value) [column.value] foreignTable (referredColumns.map SqlIdent.value) onDelete onUpdate]
  | null | notNull | other _ => []

def SqlColumnDef.declared (col : SqlColumnDef) : List Declared :=
  col.options.flatMap fun opt => opt.option.declared opt.name col.name

def SqlTableConstraint.declared : SqlTableConstraint → List Declared
  | primaryKey _ columns => [.primaryKey (columns.map KeyExpr.column)]
  | unique name columns => [.unique (name.map SqlIdent.value) (columns.map KeyExpr.column)]
  | check name expr => [.check (name.map SqlIdent.value) expr]
  | foreignKey name columns foreignTable referredColumns onDelete onUpdate =>
    [.foreignKey (name.map SqlIdent.value) (columns.map SqlIdent.value) foreignTable
      (referredColumns.map SqlIdent.value) onDelete onUpdate]
  | other _ => []

namespace SqlCreateTable

def declared (create : SqlCreateTable) : List Declared :=
  create.columns.flatMap SqlColumnDef.declared ++ create.constraints.flatMap SqlTableConstraint.declared

/-- The columns with NOT NULL. -/
def notNull (create : SqlCreateTable) : List String :=
  (create.columns.filter fun col => col.options.any (·.option.isNotNull)).map (·.name.value)

end SqlCreateTable

/-- The entry of the catalog is this constraint; one without a name may have any. -/
def Declared.Records : Declared → CatalogJson.TableConstraint → Prop
  | .primaryKey columns, .primaryKey columns' => columns' = columns
  | .unique name columns, .unique name' columns' => (∀ n ∈ name, name' = n) ∧ columns' = columns
  | .check name expr, .check name' expr' => (∀ n ∈ name, name' = n) ∧ expr' = expr
  | .foreignKey name columns refTable refColumns onDelete onUpdate,
    .foreignKey name' columns' refTable' refColumns' onDelete' onUpdate' => (∀ n ∈ name, name' = n) ∧ columns' = columns ∧
      refTable' = refTable ∧ refColumns' = refColumns ∧ onDelete' = onDelete.map ReferentialAction.display ∧
      onUpdate' = onUpdate.map ReferentialAction.display
  | _, _ => False

/-- Each constraint that is declared has an entry of its own, there is no other, and the columns that take no NULL are those
with NOT NULL. -/
def SqlCreateTable.Recorded (create : SqlCreateTable) (columns : List ColumnDef) (constraints : List CatalogJson.TableConstraint) :
    Prop :=
  ((columns.filter (!·.nullable)).map (·.name)).Perm create.notNull ∧
    ∃ entries, entries.Perm constraints ∧ List.Forall₂ Declared.Records create.declared entries

/-- The columns of its key, if it has one, are without quotes. -/
def SqlTableConstraint.Plain : SqlTableConstraint → Prop
  | primaryKey _ columns | unique _ columns => ∀ c ∈ columns, c.display = c.column
  | check .. | foreignKey .. | other _ => True

/-! ## What of it is recorded -/

/-- The length of the columns of a key. -/
def Declared.width : Declared → Nat
  | primaryKey columns | unique _ columns => (columns.map String.length).sum
  | check .. | foreignKey .. => 0

def CatalogJson.TableConstraint.width : CatalogJson.TableConstraint → Nat
  | .primaryKey columns | .unique _ columns => (columns.map String.length).sum
  | .check .. | .foreignKey .. => 0

theorem Declared.Records.width_eq : ∀ {d : Declared} {c : CatalogJson.TableConstraint}, d.Records c → d.width = c.width
  | .primaryKey columns, .primaryKey columns', h => by
    rw [Declared.Records] at h
    rw [h]
    rfl
  | .unique name columns, .unique name' columns', h => by
    rw [Declared.Records] at h
    rw [h.2]
    rfl
  | .check .., .check .., _ => rfl
  | .foreignKey .., .foreignKey .., _ => rfl

theorem sum_width {ds : List Declared} {cs : List CatalogJson.TableConstraint} (h : List.Forall₂ Declared.Records ds cs) :
    (ds.map Declared.width).sum = (cs.map CatalogJson.TableConstraint.width).sum := by
  induction h with
  | nil => rfl
  | cons hd _ ih => rw [List.map_cons, List.map_cons, List.sum_cons, List.sum_cons, hd.width_eq, ih]

theorem KeyExpr.length_column (c : KeyExpr) : c.column.length ≤ c.display.length ∧
    (c.column.length = c.display.length → c.display = c.column) := by
  cases c with
  | identifier name =>
    rcases name.quoted with h | h
    · exact ⟨le_of_eq (congrArg String.length h.symm), fun _ => h⟩
    · exact ⟨le_of_lt h, fun heq => absurd heq (Nat.ne_of_lt h)⟩
  | other display => exact ⟨Nat.le_refl _, fun _ => rfl⟩

theorem sum_columns_le (columns : List KeyExpr) :
    ((columns.map KeyExpr.column).map String.length).sum ≤ ((columns.map KeyExpr.display).map String.length).sum ∧
      (((columns.map KeyExpr.column).map String.length).sum = ((columns.map KeyExpr.display).map String.length).sum →
        ∀ c ∈ columns, c.display = c.column) := by
  induction columns with
  | nil => exact ⟨Nat.le_refl _, fun _ => nofun⟩
  | cons c columns ih =>
    obtain ⟨hle, heq⟩ := c.length_column
    simp only [List.map_cons, List.sum_cons, List.forall_mem_cons]
    exact ⟨by omega, fun h => ⟨heq (by omega), ih.2 (by omega)⟩⟩

/-- The entry of a constraint is as wide as the constraint, or wider by its quotes. -/
theorem constraint_width_le (idx : Nat) (c : SqlTableConstraint) :
    (c.declared.map Declared.width).sum ≤ ((sqlConstraintToCatalog idx c).map CatalogJson.TableConstraint.width).sum ∧
      ((c.declared.map Declared.width).sum = ((sqlConstraintToCatalog idx c).map CatalogJson.TableConstraint.width).sum →
        c.Plain) := by
  cases c with
  | primaryKey name columns | unique name columns => exact sum_columns_le columns
  | check | foreignKey | other => exact ⟨Nat.le_refl _, fun _ => trivial⟩

theorem constraints_width_le (constraints : List SqlTableConstraint) : ∀ idx,
    ((constraints.flatMap SqlTableConstraint.declared).map Declared.width).sum ≤
        ((sqlConstraintsFrom idx constraints).map CatalogJson.TableConstraint.width).sum ∧
      (((constraints.flatMap SqlTableConstraint.declared).map Declared.width).sum =
          ((sqlConstraintsFrom idx constraints).map CatalogJson.TableConstraint.width).sum → ∀ c ∈ constraints, c.Plain) := by
  induction constraints with
  | nil => exact fun _ => ⟨Nat.le_refl _, fun _ => nofun⟩
  | cons c constraints ih =>
    intro idx
    obtain ⟨hle, heq⟩ := constraint_width_le idx c
    obtain ⟨hle', heq'⟩ := ih (idx + 1)
    simp only [List.flatMap_cons, sqlConstraintsFrom, List.map_append, List.sum_append, List.forall_mem_cons]
    exact ⟨by omega, fun h => ⟨heq (by omega), heq' (by omega)⟩⟩

theorem length_constraints (constraints : List SqlTableConstraint) : ∀ idx,
    (sqlConstraintsFrom idx constraints).length = (constraints.flatMap SqlTableConstraint.declared).length := by
  induction constraints with
  | nil => exact fun _ => rfl
  | cons c constraints ih =>
    intro idx
    rw [sqlConstraintsFrom, List.flatMap_cons, List.length_append, List.length_append, ih]
    congr 1
    cases c <;> rfl

theorem plain_columns {columns : List KeyExpr} (h : ∀ c ∈ columns, c.display = c.column) :
    columns.map KeyExpr.display = columns.map KeyExpr.column := List.map_congr_left h

theorem name_given (name : Option SqlIdent) (generated : String) :
    ∀ n ∈ name.map SqlIdent.value, name.elim generated SqlIdent.value = n := by
  cases name with
  | none => nofun
  | some name => exact fun n hn => Option.some.inj hn

theorem constraint_recorded (idx : Nat) {c : SqlTableConstraint} (h : c.Plain) :
    List.Forall₂ Declared.Records c.declared (sqlConstraintToCatalog idx c) := by
  cases c with
  | primaryKey name columns => exact .cons (plain_columns h) .nil
  | unique name columns => exact .cons ⟨name_given name _, plain_columns h⟩ .nil
  | check name expr => exact .cons ⟨name_given name _, rfl⟩ .nil
  | foreignKey name columns foreignTable referredColumns onDelete onUpdate =>
    exact .cons ⟨name_given name _, rfl, rfl, rfl, rfl, rfl⟩ .nil
  | other => exact .nil

theorem constraints_recorded {constraints : List SqlTableConstraint} (h : ∀ c ∈ constraints, c.Plain) : ∀ idx,
    List.Forall₂ Declared.Records (constraints.flatMap SqlTableConstraint.declared) (sqlConstraintsFrom idx constraints) := by
  induction constraints with
  | nil => exact fun _ => .nil
  | cons c constraints ih =>
    intro idx
    rw [List.flatMap_cons, sqlConstraintsFrom]
    rw [List.forall_mem_cons] at h
    exact List.rel_append (constraint_recorded idx h.1) (ih h.2 (idx + 1))

theorem notNull_sqlColumns (create : SqlCreateTable) :
    (((create.columns.map sqlColumnToCatalog).filter (!·.nullable)).map (·.name)) = create.notNull := by
  simp [SqlCreateTable.notNull, List.filter_map, Function.comp_def, sqlColumnToCatalog]

/-- Nothing but NOT NULL is declared on a column. -/
def SqlColumnDef.Plain (col : SqlColumnDef) : Prop := col.declared = []

theorem recorded_columns_iff (create : SqlCreateTable) :
    create.Recorded (create.columns.map sqlColumnToCatalog) (sqlConstraintsToCatalog create.constraints) ↔
      (∀ col ∈ create.columns, col.Plain) ∧ ∀ c ∈ create.constraints, c.Plain := by
  have hflags := notNull_sqlColumns create
  constructor
  · rintro ⟨-, entries, hperm, hrec⟩
    have hlen := hrec.length_eq
    rw [hperm.length_eq, sqlConstraintsToCatalog, length_constraints, SqlCreateTable.declared, List.length_append] at hlen
    have hnone : create.columns.flatMap SqlColumnDef.declared = [] := List.length_eq_zero_iff.mp (by omega)
    have hwidth := sum_width hrec
    rw [SqlCreateTable.declared, hnone, List.nil_append, (hperm.map _).sum_nat] at hwidth
    exact ⟨List.flatMap_eq_nil_iff.mp hnone, (constraints_width_le create.constraints 0).2 hwidth⟩
  · intro ⟨hcolumns, hconstraints⟩
    refine ⟨hflags ▸ List.Perm.refl _, _, List.Perm.refl _, ?_⟩
    rw [SqlCreateTable.declared, List.flatMap_eq_nil_iff.mpr hcolumns, List.nil_append]
    exact constraints_recorded hconstraints 0

theorem recorded_query_iff (create : SqlCreateTable) (columns : List ColumnDef) :
    create.Recorded columns [] ↔
      create.declared = [] ∧ ((columns.filter (!·.nullable)).map (·.name)).Perm create.notNull := by
  constructor
  · rintro ⟨hflags, entries, hperm, hrec⟩
    rw [hperm.eq_nil] at hrec
    cases hd : create.declared with
    | nil => exact ⟨rfl, hflags⟩
    | cons d ds =>
      rw [hd] at hrec
      cases hrec
  · intro ⟨hnone, hflags⟩
    refine ⟨hflags, [], List.Perm.refl _, ?_⟩
    rw [hnone]
    exact .nil

section
variable {env : Env} {s : Db}

/-- The table that CREATE TABLE makes: with the columns of the statement, or those of its query. -/
theorem yields_created (create : CreateTable) (hnew : s.catalog.tables.lookup create.name = none) :
    Yields (handleCreateTable env create) s fun _ t => ∃ m, t.catalog.tables.lookup create.name = some m ∧
      match create.query with
      | none => m.columns = create.columns ∧ m.constraints = create.constraints
      | some query => m.constraints = [] ∧ ∃ r, env.eval (.user query) s.relation = .ok r ∧ m.columns = resultColumns env r := by
  unfold handleCreateTable
  rw [yields_bind, yields_get, hnew]
  refine yields_append fun t ht hrel => ?_
  cases hq : create.query with
  | some query =>
    refine (yields_handleCtas _ _ _).mono fun _ u h => ?_
    obtain ⟨r, m, heval, hname, hcols, -, hcon, hadds⟩ := h
    obtain ⟨stats, htables⟩ := hadds.tables
    rw [hrel] at heval
    refine ⟨_, (htables create.name).trans (if_pos hname.symm), hcon, r, heval, hcols⟩
  | none =>
    dsimp only
    split
    · exact yields_throw
    · refine yields_kept (emits_check _) fun schema u _ _ => yields_kept (emits_emit trivial) fun _ v _ _ => ?_
      refine (yields_addTable ⟨create.name, create.columns, tableUrl env create.name, create.partitionColumns, none, none,
        create.constraints, []⟩ _).mono fun _ w hw => ?_
      obtain ⟨stats, htables⟩ := hw.tables
      exact ⟨_, (htables create.name).trans (if_pos rfl), rfl, rfl⟩

end

namespace SqlCreateTable

/-- The columns that the catalog gets, of the statement or of the result of its query. -/
def GivesColumns (create : SqlCreateTable) (env : Env) (s : Db) (columns : List ColumnDef) : Prop :=
  match create.query with
  | none => columns = create.columns.map sqlColumnToCatalog
  | some query => ∃ r, env.eval (.user query) s.relation = .ok r ∧ columns = resultColumns env r

/-- No constraint is on a column and no column of a key has quotes. With a query there is no constraint, and NOT NULL is on the
columns of the result that take no NULL. -/
def Recordable (create : SqlCreateTable) (env : Env) (s : Db) : Prop :=
  match create.query with
  | none => (∀ col ∈ create.columns, col.Plain) ∧ ∀ c ∈ create.constraints, c.Plain
  | some query => create.declared = [] ∧ ∀ r, env.eval (.user query) s.relation = .ok r →
      ((r.schema.filter (!·.nullable)).map (·.name)).Perm create.notNull

end SqlCreateTable

theorem notNull_resultColumns (env : Env) (r : Relation) :
    ((resultColumns env r).filter (!·.nullable)).map (·.name) = (r.schema.filter (!·.nullable)).map (·.name) := by
  simp [resultColumns, List.filter_map, Function.comp_def]

/-- **CREATE TABLE records what it declares** exactly when its constraints are for the table, on columns without quotes. -/
theorem create_table_records (env : Env) (create : SqlCreateTable) (s : Db)
    (hnew : s.catalog.tables.lookup create.name = none) (hok : Succeeds (handleCreateTable env create.toCatalog) s) :
    ∃ m, ((handleCreateTable env create.toCatalog).final s).catalog.tables.lookup create.name = some m ∧
      create.GivesColumns env s m.columns ∧ m.constraints = create.stored.map CatalogJson.TableConstraint.used ∧
      (create.Recorded m.columns create.stored ↔ create.Recordable env s) := by
  obtain ⟨r, hr⟩ := hok
  obtain ⟨m, hm, hmade⟩ := yields_created create.toCatalog hnew r hr
  refine ⟨m, hm, ?_⟩
  unfold SqlCreateTable.GivesColumns SqlCreateTable.Recordable SqlCreateTable.stored
  rw [show create.toCatalog.query = create.query from rfl] at hmade
  cases hq : create.query with
  | none =>
    rw [hq] at hmade
    obtain ⟨hcols, hcon⟩ := hmade
    have hcols : m.columns = create.columns.map sqlColumnToCatalog := hcols
    refine ⟨hcols, hcon, ?_⟩
    rw [hcols]
    exact recorded_columns_iff create
  | some query =>
    rw [hq] at hmade
    obtain ⟨hcon, r, heval, hcols⟩ := hmade
    refine ⟨⟨r, heval, hcols⟩, hcon, ?_⟩
    show create.Recorded m.columns [] ↔ _
    rw [recorded_query_iff, hcols, notNull_resultColumns]
    refine and_congr_right fun _ => ⟨fun h r' hr' => ?_, fun h => h r heval⟩
    rw [heval] at hr'
    obtain rfl := Except.ok.inj hr'
    exact h

/-! ## Statements -/

def SqlIdent.plain (value : String) : SqlIdent := ⟨value, value, .inl rfl⟩

/-- `CREATE TABLE accounts (id BOOLEAN PRIMARY KEY, email BOOLEAN UNIQUE, name BOOLEAN NOT NULL)`. -/
def createAccounts : SqlCreateTable where
  name := "accounts"
  ifNotExists := false
  columns := [⟨.plain "id", "BOOLEAN", [⟨none, .unique true⟩]⟩, ⟨.plain "email", "BOOLEAN", [⟨none, .unique false⟩]⟩,
    ⟨.plain "name", "BOOLEAN", [⟨none, .notNull⟩]⟩]
  constraints := []
  partitionColumns := []
  query := none
  display := "CREATE TABLE accounts (id BOOLEAN PRIMARY KEY, email BOOLEAN UNIQUE, name BOOLEAN NOT NULL)"

/-- `CREATE TABLE t (a BOOLEAN NOT NULL, CONSTRAINT u UNIQUE (a), FOREIGN KEY (a) REFERENCES t(a) ON UPDATE CASCADE)`. -/
def createKeyed : SqlCreateTable where
  name := "t"
  ifNotExists := false
  columns := [⟨.plain "a", "BOOLEAN", [⟨none, .notNull⟩]⟩]
  constraints := [.unique (some (.plain "u")) [.identifier (.plain "a")],
    .foreignKey none [.plain "a"] "t" [.plain "a"] none (some .cascade)]
  partitionColumns := []
  query := none
  display := "CREATE TABLE t (a BOOLEAN NOT NULL, CONSTRAINT u UNIQUE (a), FOREIGN KEY (a) REFERENCES t(a) ON UPDATE CASCADE)"

/-- The constraints on the columns are in no entry of the catalog. -/
theorem column_constraints_lost :
    Succeeds (handleCreateTable flagEnv createAccounts.toCatalog) Db.new ∧
    ((handleCreateTable flagEnv createAccounts.toCatalog).final Db.new).catalog.tables.lookup "accounts" = some
      ⟨"accounts", [⟨"id", "BOOLEAN", true⟩, ⟨"email", "BOOLEAN", true⟩, ⟨"name", "BOOLEAN", false⟩], "accounts", [], none, none, [], []⟩ ∧
    ¬ ∀ (env : Env) (create : SqlCreateTable) (s : Db), s.catalog.tables.lookup create.name = none →
      Succeeds (handleCreateTable env create.toCatalog) s →
      ∃ m, ((handleCreateTable env create.toCatalog).final s).catalog.tables.lookup create.name = some m ∧
        create.Recorded m.columns create.stored := by
  refine ⟨by decide +kernel, by decide +kernel, fun h => ?_⟩
  obtain ⟨m, -, -, entries, hperm, hrec⟩ := h flagEnv createAccounts Db.new (by decide +kernel) (by decide +kernel)
  have hlen := hrec.length_eq.trans hperm.length_eq
  cases hlen

theorem keyed_table_recorded : ∃ m, ((handleCreateTable flagEnv createKeyed.toCatalog).final Db.new).catalog.tables.lookup "t" = some m ∧
    createKeyed.GivesColumns flagEnv Db.new m.columns ∧
    m.constraints = createKeyed.stored.map CatalogJson.TableConstraint.used ∧
    (createKeyed.Recorded m.columns createKeyed.stored ↔ createKeyed.Recordable flagEnv Db.new) :=
  create_table_records flagEnv createKeyed Db.new (by decide +kernel) (by decide +kernel)

end PotatoDB
