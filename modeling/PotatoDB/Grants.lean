import PotatoDB.AccessSound

/-!
# What a run of GRANT and REVOKE leaves

A new database makes its first user an administrator. From then on CREATE USER, CREATE ROLE, GRANT and
REVOKE change the catalog of rights. What was rolled back, or not stored before a restart, is not part
of a run: the catalog is then one that the run had before.
-/

namespace PotatoDB

/-! ## The last verdict of a run -/

section
variable {S A : Type} (step : S → A → S) (verdict : S → A → Option Bool)

/-- What the last step that says so makes of a fact. -/
def lastVerdict : S → List A → Option Bool
  | _, [] => none
  | s, a :: as => (lastVerdict (step s a) as).or (verdict s a)

variable {step verdict} {Inv fact : S → Prop}

theorem fact_foldl (hinv : ∀ s a, Inv s → Inv (step s a))
    (hstep : ∀ s a, Inv s → (fact (step s a) ↔ (verdict s a).elim (fact s) (· = true))) (as : List A) :
    ∀ s, Inv s → (fact (as.foldl step s) ↔ (lastVerdict step verdict s as).elim (fact s) (· = true)) := by
  induction as with
  | nil =>
    intro s _
    exact Iff.rfl
  | cons a as ih =>
    intro s hs
    rw [List.foldl_cons, ih _ (hinv s a hs)]
    simp only [lastVerdict]
    cases lastVerdict step verdict (step s a) as with
    | none => simpa using hstep s a hs
    | some _ => simp

/-- A fact that is false at first holds when the last verdict is that it does. -/
theorem fact_foldl_new (hinv : ∀ s a, Inv s → Inv (step s a))
    (hstep : ∀ s a, Inv s → (fact (step s a) ↔ (verdict s a).elim (fact s) (· = true))) (as : List A) {s : S}
    (hs : Inv s) (hnew : ¬ fact s) : fact (as.foldl step s) ↔ lastVerdict step verdict s as = some true := by
  rw [fact_foldl hinv hstep as s hs]
  cases lastVerdict step verdict s as with
  | none => simp [hnew]
  | some _ => simp

end

/-! ## Statements on users and roles -/

section
variable (rules : TextRules)

/-- The name in CREATE USER and CREATE ROLE. -/
def createdName (sql : List Char) : Option String :=
  let tokens := splitWords rules.isWhitespace (trimEndMatches (· = ';') (trimMatches rules.isWhitespace sql))
  if tokens.length < 3 then none else some (String.ofList (trimMatches (· = '"') (tokens.getD 2 [])))

/-- `entry(name).or_default()`. -/
def Map.orDefault {α : Type} (m : Map (List α)) (name : String) : Map (List α) :=
  if name ∈ m then m else m.insert name []

def CatalogData.createUser (c : CatalogData) (name password : String) : CatalogData :=
  { c with users := c.users.insert name password, userRoles := Map.orDefault c.userRoles name }

def CatalogData.createRole (c : CatalogData) (name : String) : CatalogData :=
  { c with roles := Map.orDefault c.roles name }

/-- What `PotatoDB::new` makes of a catalog without users. -/
def CatalogData.bootstrapped (c : CatalogData) (user : String) : CatalogData :=
  if c.users.keys = [] then
    { c with
      users := c.users.insert user ""
      roles := c.roles.insert "admin" [⟨"ALL", none⟩]
      userRoles := c.userRoles.insert user ["admin"] }
  else c

inductive RightsStep where
  /-- The database is opened again, by any user. -/
  | opened (user : String)
  | createUser (sql : List Char) (password : String)
  | createRole (sql : List Char)
  | grant (sql : List Char)
  | revoke (sql : List Char)

def CatalogData.rightsStep (c : CatalogData) : RightsStep → CatalogData
  | .opened user => c.bootstrapped user
  | .createUser sql password => (createdName rules sql).elim c (c.createUser · password)
  | .createRole sql => (createdName rules sql).elim c c.createRole
  | .grant sql => (grantParts rules sql).elim c fun g => c.grant g.1 g.2
  | .revoke sql => (grantParts rules sql).elim c fun g => c.revoke g.1 g.2

/-- The text names the privilege, and the role or who the role is for. -/
def CatalogData.isNamed (c : CatalogData) (role : String) (p : Privilege) (sql : List Char) : Bool :=
  (grantParts rules sql).any fun g => g.1 = p && c.targetRole g.2 = role

/-- What a step says about a privilege of a role. -/
def privilegeVerdict (role : String) (p : Privilege) (c : CatalogData) : RightsStep → Option Bool
  | .grant sql => if c.isNamed rules role p sql then some true else none
  | .revoke sql => if c.isNamed rules role p sql then some false else none
  | _ => none

/-- A GRANT to a user gives them the role of their own. -/
def memberVerdict (user : String) (c : CatalogData) : RightsStep → Option Bool
  | .grant sql => if (grantParts rules sql).any fun g => g.2 = user && user ∈ c.users then some true else none
  | _ => none

/-- Some GRANT was to the user, and the last GRANT or REVOKE of the privilege that came to the user was a GRANT. -/
def GrantedAtLast (c : CatalogData) (steps : List RightsStep) (user : String) (p : Privilege) : Prop :=
  lastVerdict (CatalogData.rightsStep rules) (memberVerdict rules user) c steps = some true ∧
    lastVerdict (CatalogData.rightsStep rules) (privilegeVerdict rules (userRole user) p) c steps = some true

end

/-! ## One step -/

def CatalogData.privilegesOf (c : CatalogData) (role : String) : List Privilege := (c.roles.lookup role).getD []

def CatalogData.roleNames (c : CatalogData) (user : String) : List String := (c.userRoles.lookup user).getD []

section
variable {rules : TextRules} {c : CatalogData} {user first role : String} {p : Privilege} {sql : List Char}

/-- The privileges of a user, role by role. -/
theorem exists_rolesOf_iff {P : Privilege → Prop} : (∃ ps ∈ c.rolesOf user, ∃ p ∈ ps, P p) ↔
    ∃ role ∈ c.roleNames user, ∃ p ∈ c.privilegesOf role, P p := by
  unfold CatalogData.roleNames CatalogData.privilegesOf
  constructor
  · intro h
    obtain ⟨ps, hps, p, hp, hP⟩ := h
    obtain ⟨role, hr, hlook⟩ := mem_rolesOf.mp hps
    exact ⟨role, hr, p, by simpa [hlook] using hp, hP⟩
  · intro h
    obtain ⟨role, hr, p, hp, hP⟩ := h
    cases hlook : c.roles.lookup role with
    | none => simp [hlook] at hp
    | some ps => exact ⟨ps, mem_rolesOf.mpr ⟨role, hr, hlook⟩, p, by simpa [hlook] using hp, hP⟩

theorem userRole_injective {u v : String} (h : userRole u = userRole v) : u = v := by
  have := congrArg String.toList h
  simpa [userRole, String.toList_append, String.toList_inj] using this

theorem userRole_ne_admin (u : String) : userRole u ≠ "admin" := by
  intro h
  have := congrArg (fun s => s.toList.head?) h
  simp [userRole, String.toList_append] at this

theorem lookup_orDefault {α : Type} (m : Map (List α)) (name k : String) :
    ((Map.orDefault m name).lookup k).getD [] = (m.lookup k).getD [] := by
  unfold Map.orDefault
  split
  · rfl
  · rename_i hn
    by_cases hk : k = name
    · subst hk
      rw [AList.lookup_insert, AList.lookup_eq_none.mpr hn]
      rfl
    · rw [AList.lookup_insert_ne hk]

theorem grantParts_table {target : String} (h : grantParts rules sql = some (p, target)) : p.table ≠ none := by
  simp only [grantParts] at h
  split at h
  · cases h
  · obtain ⟨rfl, -⟩ := Prod.mk.inj (Option.some.inj h)
    simp

theorem mem_privilegesOf_grant {q : Privilege} {target : String} : p ∈ (c.grant q target).privilegesOf role ↔
    (q = p ∧ c.targetRole target = role) ∨ p ∈ c.privilegesOf role := by
  unfold CatalogData.privilegesOf
  obtain ⟨privileges, hmem, hlook⟩ := @lookup_addPrivilege c (c.targetRole target) q
  rw [grant_roles, hlook]
  by_cases hr : role = c.targetRole target
  · subst hr
    simp [hmem, eq_comm (a := p)]
  · simp [hr, eq_comm (a := c.targetRole target)]

theorem mem_privilegesOf_revoke {q : Privilege} {target : String} : p ∈ (c.revoke q target).privilegesOf role ↔
    ¬ (q = p ∧ c.targetRole target = role) ∧ p ∈ c.privilegesOf role := by
  unfold CatalogData.privilegesOf CatalogData.revoke Map.modify
  rw [Map.lookup_mapValues]
  cases c.roles.lookup role with
  | none => simp
  | some ps =>
    by_cases hr : role = c.targetRole target
    · subst hr
      simp [and_comm, eq_comm (a := p)]
    · simp [hr, eq_comm (a := c.targetRole target)]

/-- What holds in every run: the first user is an administrator, another user has no role but the one of their own,
and only the administrators' role has privileges on every table. -/
structure Founded (first : String) (c : CatalogData) : Prop where
  user : first ∈ c.users
  admin : "admin" ∈ c.roleNames first
  all : ⟨"ALL", none⟩ ∈ c.privilegesOf "admin"
  own : ∀ u, ∀ role ∈ c.roleNames u, role = userRole u ∨ (u = first ∧ role = "admin")
  tables : ∀ role, ∀ p ∈ c.privilegesOf role, p.table = none → role = "admin"

theorem Founded.bootstrapped_eq (h : Founded first c) (user : String) : c.bootstrapped user = c := by
  unfold CatalogData.bootstrapped
  rw [if_neg]
  intro hnil
  have := AList.mem_keys.mp h.user
  rw [hnil] at this
  cases this

/-! ## What a step does to roles -/

theorem isNamed_none (h : grantParts rules sql = none) : c.isNamed rules role p sql = false := by
  simp [CatalogData.isNamed, h]

theorem isNamed_some {g : Privilege × String} (h : grantParts rules sql = some g) :
    c.isNamed rules role p sql = true ↔ g.1 = p ∧ c.targetRole g.2 = role := by
  simp [CatalogData.isNamed, h]

/-- GRANT and REVOKE are about one table. -/
theorem privilegeVerdict_everywhere (hp : p.table = none) (s : RightsStep) : privilegeVerdict rules role p c s = none := by
  have hnamed : ∀ sql, c.isNamed rules role p sql = false := by
    intro sql
    rcases Option.eq_none_or_eq_some (grantParts rules sql) with hparts | ⟨g, hparts⟩
    · exact isNamed_none hparts
    · rw [Bool.eq_false_iff, ne_eq, isNamed_some hparts]
      intro hg
      exact grantParts_table hparts (hg.1 ▸ hp)
  cases s with
  | opened user => rfl
  | createUser sql password => rfl
  | createRole sql => rfl
  | grant sql => simp [privilegeVerdict, hnamed]
  | revoke sql => simp [privilegeVerdict, hnamed]

theorem mem_privilegesOf_step (h : Founded first c) (role : String) (p : Privilege) (s : RightsStep) :
    p ∈ (c.rightsStep rules s).privilegesOf role ↔
      (privilegeVerdict rules role p c s).elim (p ∈ c.privilegesOf role) (· = true) := by
  cases s with
  | opened user =>
    simp only [CatalogData.rightsStep, h.bootstrapped_eq, privilegeVerdict]
    rfl
  | createUser sql password =>
    simp only [CatalogData.rightsStep, privilegeVerdict]
    cases createdName rules sql <;> rfl
  | createRole sql =>
    simp only [CatalogData.rightsStep, privilegeVerdict]
    cases createdName rules sql with
    | none => rfl
    | some name =>
      have : (c.createRole name).privilegesOf role = c.privilegesOf role := lookup_orDefault c.roles name role
      simp [this]
  | grant sql =>
    simp only [CatalogData.rightsStep, privilegeVerdict]
    rcases Option.eq_none_or_eq_some (grantParts rules sql) with hparts | ⟨g, hparts⟩
    · simp [hparts, isNamed_none hparts]
    · rw [hparts, Option.elim_some, mem_privilegesOf_grant]
      by_cases hg : g.1 = p ∧ c.targetRole g.2 = role
      · simp [(isNamed_some hparts).mpr hg, hg]
      · simp [(isNamed_some hparts).not.mpr hg, hg]
  | revoke sql =>
    simp only [CatalogData.rightsStep, privilegeVerdict]
    rcases Option.eq_none_or_eq_some (grantParts rules sql) with hparts | ⟨g, hparts⟩
    · simp [hparts, isNamed_none hparts]
    · rw [hparts, Option.elim_some, mem_privilegesOf_revoke]
      by_cases hg : g.1 = p ∧ c.targetRole g.2 = role
      · simp [(isNamed_some hparts).mpr hg, hg]
      · simp [(isNamed_some hparts).not.mpr hg, hg]

theorem memberVerdict_grant : memberVerdict rules user c (.grant sql) = some true ↔
    ∃ q, grantParts rules sql = some (q, user) ∧ user ∈ c.users := by
  rcases Option.eq_none_or_eq_some (grantParts rules sql) with hparts | ⟨g, hparts⟩
  · simp [memberVerdict, hparts]
  · obtain ⟨q, target⟩ := g
    simp [memberVerdict, hparts]

theorem mem_roleNames_step (h : Founded first c) (user role : String) (s : RightsStep) :
    role ∈ (c.rightsStep rules s).roleNames user ↔
      (role = userRole user ∧ memberVerdict rules user c s = some true) ∨ role ∈ c.roleNames user := by
  cases s with
  | opened u =>
    simp only [CatalogData.rightsStep, h.bootstrapped_eq, memberVerdict]
    simp
  | createUser sql password =>
    simp only [CatalogData.rightsStep, memberVerdict]
    cases createdName rules sql with
    | none => simp
    | some name =>
      have : (c.createUser name password).roleNames user = c.roleNames user := lookup_orDefault c.userRoles name user
      simp [this]
  | createRole sql =>
    simp only [CatalogData.rightsStep, memberVerdict]
    cases createdName rules sql with
    | none => simp
    | some name => simp [CatalogData.createRole, CatalogData.roleNames]
  | grant sql =>
    rw [memberVerdict_grant]
    simp only [CatalogData.rightsStep]
    rcases Option.eq_none_or_eq_some (grantParts rules sql) with hparts | ⟨g, hparts⟩
    · simp [hparts]
    · obtain ⟨q, target⟩ := g
      have hmem : role ∈ (c.grant q target).roleNames user ↔ _ := mem_grant_roles
      rw [hparts, Option.elim_some, hmem]
      by_cases ht : target ∈ c.users ∧ target = user
      · obtain ⟨ht, rfl⟩ := ht
        simp [ht, CatalogData.targetRole, CatalogData.roleNames, or_comm]
      · have ht₁ : ¬ (target ∈ c.users ∧ target = user ∧ role = c.targetRole target) := fun h' => ht ⟨h'.1, h'.2.1⟩
        have ht₂ : ¬ (target = user ∧ user ∈ c.users) := fun h' => ht ⟨h'.1 ▸ h'.2, h'.1⟩
        simp [ht₁, ht₂, CatalogData.roleNames]
  | revoke sql =>
    simp only [CatalogData.rightsStep, memberVerdict]
    cases grantParts rules sql with
    | none => simp
    | some g => simp [CatalogData.revoke, CatalogData.roleNames]

theorem mem_member_step (h : Founded first c) (user : String) (s : RightsStep) :
    userRole user ∈ (c.rightsStep rules s).roleNames user ↔
      (memberVerdict rules user c s).elim (userRole user ∈ c.roleNames user) (· = true) := by
  rw [mem_roleNames_step h]
  cases s with
  | grant sql =>
    simp only [memberVerdict]
    split
    · simp
    · simp
  | _ => simp [memberVerdict]

theorem users_step (user : String) (s : RightsStep) (h : user ∈ c.users) : user ∈ (c.rightsStep rules s).users := by
  have hinsert : ∀ name password, user ∈ c.users.insert name password := by
    intro name password
    rw [AList.mem_insert]
    exact Or.inr h
  cases s with
  | opened u =>
    simp only [CatalogData.rightsStep, CatalogData.bootstrapped]
    split
    · exact hinsert u ""
    · exact h
  | createUser sql password =>
    simp only [CatalogData.rightsStep]
    cases createdName rules sql with
    | none => exact h
    | some name => exact hinsert name password
  | createRole sql =>
    simp only [CatalogData.rightsStep]
    cases createdName rules sql <;> exact h
  | grant sql =>
    simp only [CatalogData.rightsStep]
    cases grantParts rules sql with
    | none => exact h
    | some g =>
      simp only [Option.elim_some, CatalogData.grant]
      split <;> exact h
  | revoke sql =>
    simp only [CatalogData.rightsStep]
    cases grantParts rules sql <;> exact h

theorem Founded.step (h : Founded first c) (s : RightsStep) : Founded first (c.rightsStep rules s) := by
  refine ⟨users_step first s h.user, ?_, ?_, fun u role hr => ?_, fun role p hp ht => ?_⟩
  · exact (mem_roleNames_step h first "admin" s).mpr (Or.inr h.admin)
  · rw [mem_privilegesOf_step h, privilegeVerdict_everywhere rfl]
    exact h.all
  · rcases (mem_roleNames_step h u role s).mp hr with hr | hr
    · exact Or.inl hr.1
    · exact h.own u role hr
  · rw [mem_privilegesOf_step h, privilegeVerdict_everywhere ht] at hp
    exact h.tables role p hp ht

end

/-! ## Runs -/

/-- A catalog without users, roles and privileges: of a new database, or one written before there were any. -/
structure CatalogData.NoRights (c : CatalogData) : Prop where
  users : c.users = ∅
  roles : c.roles = ∅
  userRoles : c.userRoles = ∅

section
variable {rules : TextRules} {c : CatalogData} {user first : String}

theorem CatalogData.NoRights.roleNames (h : c.NoRights) (first user : String) :
    (c.bootstrapped first).roleNames user = if user = first then ["admin"] else [] := by
  unfold CatalogData.bootstrapped CatalogData.roleNames
  rw [if_pos (by rw [h.users]; rfl)]
  by_cases hu : user = first
  · subst hu
    simp
  · simp only [AList.lookup_insert_ne hu, if_neg hu]
    simp [h.userRoles]

theorem CatalogData.NoRights.privilegesOf (h : c.NoRights) (first role : String) :
    (c.bootstrapped first).privilegesOf role = if role = "admin" then [⟨"ALL", none⟩] else [] := by
  unfold CatalogData.bootstrapped CatalogData.privilegesOf
  rw [if_pos (by rw [h.users]; rfl)]
  by_cases hr : role = "admin"
  · subst hr
    simp
  · simp only [AList.lookup_insert_ne hr, if_neg hr]
    simp [h.roles]

theorem CatalogData.NoRights.founded (h : c.NoRights) (first : String) : Founded first (c.bootstrapped first) := by
  refine ⟨?_, ?_, ?_, fun u role hr => ?_, fun role p hp _ => ?_⟩
  · unfold CatalogData.bootstrapped
    rw [if_pos (by rw [h.users]; rfl), AList.mem_insert]
    exact Or.inl rfl
  · simp [h.roleNames]
  · simp [h.privilegesOf]
  · rw [h.roleNames] at hr
    by_cases hu : u = first
    · rw [if_pos hu, List.mem_singleton] at hr
      exact Or.inr ⟨hu, hr⟩
    · rw [if_neg hu] at hr
      cases hr
  · rw [h.privilegesOf] at hp
    by_cases hr : role = "admin"
    · exact hr
    · rw [if_neg hr] at hp
      cases hp

theorem founded_run (h : Founded first c) (steps : List RightsStep) :
    Founded first (steps.foldl (CatalogData.rightsStep rules) c) := by
  induction steps generalizing c with
  | nil => exact h
  | cons s steps ih => exact ih (h.step s)

/-- The privileges of a user but the first, after a run. -/
theorem privileges_of_run (h : c.NoRights) (hne : user ≠ first) (steps : List RightsStep) {P : Privilege → Prop} :
    (∃ ps ∈ (steps.foldl (CatalogData.rightsStep rules) (c.bootstrapped first)).rolesOf user, ∃ p ∈ ps, P p) ↔
      ∃ p, P p ∧ GrantedAtLast rules (c.bootstrapped first) steps user p := by
  have hbase := h.founded first
  have hinv : ∀ d s, Founded first d → Founded first (d.rightsStep rules s) := fun _ s hd => hd.step s
  have hmember := @fact_foldl_new _ _ _ _ (Founded first) (fun d => userRole user ∈ d.roleNames user) hinv
    (fun d s hd => mem_member_step hd user s) steps _ hbase (by rw [h.roleNames, if_neg hne]; simp)
  have hprivilege := fun p => @fact_foldl_new _ _ _ _ (Founded first) (fun d => p ∈ d.privilegesOf (userRole user)) hinv
    (fun d s hd => mem_privilegesOf_step hd (userRole user) p s) steps _ hbase
    (by rw [h.privilegesOf, if_neg (userRole_ne_admin user)]; simp)
  rw [exists_rolesOf_iff]
  constructor
  · intro hr
    obtain ⟨role, hrole, p, hp, hP⟩ := hr
    rcases (founded_run hbase steps).own user role hrole with rfl | hfirst
    · exact ⟨p, hP, hmember.mp hrole, (hprivilege p).mp hp⟩
    · exact absurd hfirst.1 hne
  · intro hp
    obtain ⟨p, hP, hm, hlast⟩ := hp
    exact ⟨userRole user, hmember.mpr hm, p, (hprivilege p).mpr hlast, hP⟩

theorem admin_of_founded (h : Founded first c) : ∃ ps ∈ c.rolesOf first, ⟨"ALL", none⟩ ∈ ps := by
  have := (@exists_rolesOf_iff c first fun p => p = ⟨"ALL", none⟩).mpr ⟨"admin", h.admin, _, h.all, rfl⟩
  obtain ⟨ps, hps, p, hp, rfl⟩ := this
  exact ⟨ps, hps, hp⟩

/-- **Whatever was granted and revoked, the first user has every right, and another user those whose last GRANT or
REVOKE to them was a GRANT; but no statement of another user passes the check for any of them, unless one is ALL or
`*`, and then every statement does.** -/
theorem rights_of_run (rules : TextRules) (c : CatalogData) (h : c.NoRights) (first user : String)
    (steps : List RightsStep) :
    (∀ action table, HasRight (steps.foldl (CatalogData.rightsStep rules) (c.bootstrapped first)) user action table ↔
      user = first ∨ ∃ p : Privilege, p.Gives action table ∧ GrantedAtLast rules (c.bootstrapped first) steps user p) ∧
    (∀ text, enforceAccess rules (steps.foldl (CatalogData.rightsStep rules) (c.bootstrapped first)) user text = true ↔
      user = first ∨ ∃ p : Privilege, (p.kind = "ALL" ∨ p.kind = "*") ∧
        GrantedAtLast rules (c.bootstrapped first) steps user p) := by
  have hrun : Founded first (steps.foldl (CatalogData.rightsStep rules) (c.bootstrapped first)) :=
    founded_run (h.founded first) steps
  by_cases hu : user = first
  · subst hu
    obtain ⟨ps, hps, hall⟩ := admin_of_founded hrun
    refine ⟨fun action table => ⟨fun _ => Or.inl rfl, fun _ => ?_⟩, fun text => ⟨fun _ => Or.inl rfl, fun _ => ?_⟩⟩
    · exact ⟨ps, hps, _, hall, Or.inr rfl, Or.inl rfl⟩
    · exact enforceAccess_iff.mpr (Or.inl ⟨ps, hps, _, hall, Or.inl rfl⟩)
  · refine ⟨fun action table => ?_, fun text => ?_⟩
    · rw [or_iff_right hu]
      exact privileges_of_run h hu steps
    · rw [or_iff_right hu, enforceAccess_iff, or_iff_left]
      · exact privileges_of_run h hu steps
      · -- a privilege on every table is the administrators'
        intro hev
        obtain ⟨role, hrole, p, hp, -, ht⟩ := (@exists_rolesOf_iff _ user fun p =>
          (p.kind = actionOf rules text ∨ p.kind = "ALL") ∧ p.table = none).mp hev
        rcases hrun.own user role hrole with rfl | hfirst
        · exact userRole_ne_admin user (hrun.tables _ p hp ht)
        · exact hu hfirst.1

end

/-- `ann` founds the database and gives `eve` SELECT on `t`, then ALL on `u`, and takes ALL back. -/
def granting : List RightsStep :=
  [.createUser "CREATE USER eve".toList "", .grant "GRANT SELECT ON t TO eve".toList,
    .grant "GRANT ALL ON u TO eve".toList, .revoke "REVOKE ALL ON u FROM eve".toList]

theorem rights_of_granting :
    HasRight (granting.foldl (CatalogData.rightsStep latinRules) (CatalogData.empty.bootstrapped "ann")) "eve" "SELECT" "t" ∧
      enforceAccess latinRules (granting.foldl (CatalogData.rightsStep latinRules) (CatalogData.empty.bootstrapped "ann"))
        "eve" "SELECT * FROM t".toList = false := by
  obtain ⟨hright, -⟩ := rights_of_run latinRules CatalogData.empty ⟨rfl, rfl, rfl⟩ "ann" "eve" granting
  refine ⟨(hright "SELECT" "t").mpr (Or.inr ⟨⟨"SELECT", some "t"⟩, by decide, ?_⟩), by decide +kernel⟩
  exact ⟨by decide +kernel, by decide +kernel⟩

end PotatoDB
