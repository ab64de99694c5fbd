import PotatoDB.Access

/-!
# Rights and the check

A privilege gives an action on its table, or on every table. The check looks at privileges on every
table, and takes ALL on one table for ALL on every table.
-/

namespace PotatoDB

/-! ## Rights -/

def Privilege.Gives (p : Privilege) (action table : String) : Prop :=
  (p.kind = action ∨ p.kind = "ALL") ∧ (p.table = none ∨ p.table = some table)

/-- A role granted to the user has a privilege for the action on the table. -/
def HasRight (c : CatalogData) (user action table : String) : Prop :=
  ∃ privileges ∈ c.rolesOf user, ∃ p ∈ privileges, p.Gives action table

instance (p : Privilege) (action table : String) : Decidable (p.Gives action table) := by
  unfold Privilege.Gives
  infer_instance

instance (c : CatalogData) (user action table : String) : Decidable (HasRight c user action table) := by
  unfold HasRight
  infer_instance

/-- A privilege for the action on every table. -/
def HasEverywhere (c : CatalogData) (user action : String) : Prop :=
  ∃ privileges ∈ c.rolesOf user, ∃ p ∈ privileges, (p.kind = action ∨ p.kind = "ALL") ∧ p.table = none

/-- ALL or `*` on some table. -/
def HasAllSomewhere (c : CatalogData) (user : String) : Prop :=
  ∃ privileges ∈ c.rolesOf user, ∃ p ∈ privileges, p.kind = "ALL" ∨ p.kind = "*"

section
variable {c : CatalogData} {user action table : String}

theorem HasEverywhere.hasRight (h : HasEverywhere c user action) : HasRight c user action table := by
  obtain ⟨ps, hps, p, hp, hk, ht⟩ := h
  exact ⟨ps, hps, p, hp, hk, Or.inl ht⟩

theorem currentUserIsAdmin_iff : currentUserIsAdmin c user = true ↔ HasAllSomewhere c user := by
  simp [currentUserIsAdmin, HasAllSomewhere]

theorem userHasPrivilege_iff :
    userHasPrivilege c user action none = true ↔ HasAllSomewhere c user ∨ HasEverywhere c user action := by
  simp [userHasPrivilege, ← currentUserIsAdmin_iff, HasEverywhere, or_comm]

theorem mem_rolesOf {privileges : List Privilege} :
    privileges ∈ c.rolesOf user ↔ ∃ role ∈ (c.userRoles.lookup user).getD [], c.roles.lookup role = some privileges :=
  List.mem_filterMap

end

/-! ## The check -/

section
variable (rules : TextRules) (c : CatalogData) (user : String) (entry : Entry) (sql : List Char) (table : String)

/-- The action of a statement, read off the text that is checked. -/
def Entry.action : String := ((entry.checkedText rules sql).map (actionOf rules)).getD (actionOf rules sql)

/-- The statement is permitted to those who have the right. -/
def MediatedExactly : Prop :=
  permits rules c user entry sql = true ↔ HasRight c user (entry.action rules sql) table

/-- The statement gives its user no right they did not have. -/
def GainsNothing : Prop :=
  ∀ action table, HasRight (rightsAfter rules c user entry sql) user action table → HasRight c user action table

/-- The check is made, and tables do not matter to its outcome; or it is not made, and need not be. -/
def CheckSuffices : Prop :=
  if entry.takes rules sql then
    match entry.checkedText rules sql with
    | none => HasRight c user (actionOf rules sql) table
    | some text => HasEverywhere c user (actionOf rules text) ∨
        (HasAllSomewhere c user ↔ HasRight c user (actionOf rules text) table)
  else ¬ HasRight c user (entry.action rules sql) table

/-- The user gets what is granted to a target. -/
def Receives (target : String) : Prop :=
  c.targetRole target ∈ (c.userRoles.lookup user).getD [] ∨ (target ∈ c.users ∧ target = user)

/-- The statement is no GRANT to its user, or gives them only what they have. -/
def GrantsNothingNew : Prop :=
  ∀ p target, grantOf rules c user entry sql = some (p, target) → Receives c user target →
    ∀ q ∈ p :: (c.roles.lookup (c.targetRole target)).getD [], ∀ action table,
      q.Gives action table → HasRight c user action table

end

section
variable {rules : TextRules} {c : CatalogData} {user : String} {entry : Entry} {sql : List Char} {table : String}

theorem enforceAccess_iff {text : List Char} : enforceAccess rules c user text = true ↔
    HasAllSomewhere c user ∨ HasEverywhere c user (actionOf rules text) := by
  rw [enforceAccess, Bool.or_eq_true, currentUserIsAdmin_iff, userHasPrivilege_iff, ← or_assoc, or_self]

theorem mediatedExactly_iff :
    MediatedExactly rules c user entry sql table ↔ CheckSuffices rules c user entry sql table := by
  unfold MediatedExactly CheckSuffices permits
  cases htakes : entry.takes rules sql with
  | false => simp
  | true =>
    rw [if_pos rfl, Bool.true_and]
    cases hchecked : entry.checkedText rules sql with
    | none => simp [Entry.action, hchecked]
    | some text =>
      simp only [Entry.action, hchecked, Option.all_some, enforceAccess_iff, Option.map_some, Option.getD_some]
      constructor
      · intro h
        by_cases he : HasEverywhere c user (actionOf rules text)
        · exact Or.inl he
        · exact Or.inr ⟨fun ha => h.mp (Or.inl ha), fun hr => (h.mpr hr).resolve_right he⟩
      · rintro (he | h)
        · exact ⟨fun _ => he.hasRight, fun _ => Or.inr he⟩
        · constructor
          · rintro (ha | he)
            · exact h.mp ha
            · exact he.hasRight
          · exact fun hr => Or.inl (h.mpr hr)

/-! ## GRANT and REVOKE -/

theorem lookup_addPrivilege (role : String) (p : Privilege) : ∃ privileges,
    (∀ q, q ∈ privileges ↔ q ∈ p :: (c.roles.lookup role).getD []) ∧
      ∀ r, (c.addPrivilege role p).roles.lookup r = if r = role then some privileges else c.roles.lookup r := by
  have hlook : ∀ privileges r, (AList.insert role privileges c.roles).lookup r =
      if r = role then some privileges else c.roles.lookup r := by
    intro privileges r
    by_cases hr : r = role
    · rw [if_pos hr, hr, AList.lookup_insert]
    · rw [if_neg hr, AList.lookup_insert_ne hr]
  refine ⟨_, fun q => ?_, hlook _⟩
  by_cases hp : p ∈ (c.roles.lookup role).getD []
  · rw [if_pos hp, List.mem_cons]
    exact ⟨Or.inr, fun h => h.elim (fun h => h ▸ hp) id⟩
  · rw [if_neg hp, List.mem_append, List.mem_singleton, List.mem_cons, or_comm]

theorem mem_addRole (target role user r : String) :
    r ∈ ((c.addRole target role).userRoles.lookup user).getD [] ↔
      r ∈ (c.userRoles.lookup user).getD [] ∨ (user = target ∧ r = role) := by
  unfold CatalogData.addRole
  by_cases hu : user = target
  · subst hu
    rw [show AList.lookup user (AList.insert _ _ _) = _ from AList.lookup_insert _, Option.getD_some]
    by_cases hr : role ∈ (c.userRoles.lookup user).getD []
    · rw [if_pos hr]
      exact ⟨Or.inl, fun h => h.elim id fun h => h.2 ▸ hr⟩
    · rw [if_neg hr, List.mem_append, List.mem_singleton]
      simp
  · rw [show AList.lookup user (AList.insert _ _ _) = _ from AList.lookup_insert_ne hu]
    simp [hu]

theorem mem_grant_roles {p : Privilege} {target r : String} :
    r ∈ ((c.grant p target).userRoles.lookup user).getD [] ↔ r ∈ (c.userRoles.lookup user).getD [] ∨
      (target ∈ c.users ∧ target = user ∧ r = c.targetRole target) := by
  unfold CatalogData.grant
  by_cases ht : target ∈ c.users
  · rw [if_pos ht, mem_addRole]
    simp [ht, eq_comm (a := user), CatalogData.addPrivilege]
  · rw [if_neg ht]
    simp [ht, CatalogData.addPrivilege]

theorem grant_roles (p : Privilege) (target : String) :
    (c.grant p target).roles = (c.addPrivilege (c.targetRole target) p).roles := by
  unfold CatalogData.grant
  split <;> rfl

/-- What the user has after a GRANT. -/
theorem hasRight_grant {p : Privilege} {target action : String} :
    HasRight (c.grant p target) user action table ↔ HasRight c user action table ∨
      (Receives c user target ∧ ∃ q ∈ p :: (c.roles.lookup (c.targetRole target)).getD [], q.Gives action table) := by
  obtain ⟨privileges, hmem, hlook⟩ := @lookup_addPrivilege c (c.targetRole target) p
  constructor
  · rintro ⟨ps, hps, q, hq, hg⟩
    obtain ⟨r, hr, hrole⟩ := mem_rolesOf.mp hps
    rw [grant_roles, hlook] at hrole
    rw [mem_grant_roles] at hr
    by_cases he : r = c.targetRole target
    · rw [if_pos he] at hrole
      obtain rfl := Option.some.inj hrole
      refine Or.inr ⟨?_, q, (hmem q).mp hq, hg⟩
      rcases hr with hr | ⟨hu, ht, -⟩
      · exact Or.inl (he ▸ hr)
      · exact Or.inr ⟨hu, ht⟩
    · rw [if_neg he] at hrole
      rcases hr with hr | ⟨-, -, hr⟩
      · exact Or.inl ⟨ps, mem_rolesOf.mpr ⟨r, hr, hrole⟩, q, hq, hg⟩
      · exact absurd hr he
  · rintro (⟨ps, hps, q, hq, hg⟩ | ⟨hrec, q, hq, hg⟩)
    · obtain ⟨r, hr, hrole⟩ := mem_rolesOf.mp hps
      by_cases he : r = c.targetRole target
      · refine ⟨privileges, mem_rolesOf.mpr ⟨r, mem_grant_roles.mpr (Or.inl hr), ?_⟩, q, (hmem q).mpr ?_, hg⟩
        · rw [grant_roles, hlook, if_pos he]
        · rw [← he, hrole]
          exact List.mem_cons_of_mem _ hq
      · refine ⟨ps, mem_rolesOf.mpr ⟨r, mem_grant_roles.mpr (Or.inl hr), ?_⟩, q, hq, hg⟩
        rw [grant_roles, hlook, if_neg he, hrole]
    · refine ⟨privileges, mem_rolesOf.mpr ⟨c.targetRole target, mem_grant_roles.mpr ?_, ?_⟩, q, (hmem q).mpr hq, hg⟩
      · exact hrec.imp id fun h => ⟨h.1, h.2, rfl⟩
      · rw [grant_roles, hlook, if_pos rfl]

theorem hasRight_revoke {p : Privilege} {target action : String}
    (h : HasRight (c.revoke p target) user action table) : HasRight c user action table := by
  obtain ⟨ps, hps, q, hq, hg⟩ := h
  obtain ⟨role, hrole, hlook⟩ := mem_rolesOf.mp hps
  unfold CatalogData.revoke Map.modify at hlook
  rw [Map.lookup_mapValues] at hlook
  obtain ⟨old, hold, rfl⟩ := Option.map_eq_some_iff.mp hlook
  refine ⟨old, mem_rolesOf.mpr ⟨role, hrole, hold⟩, q, ?_, hg⟩
  split at hq
  · exact (List.mem_filter.mp hq).1
  · exact hq

theorem gainsNothing_iff :
    GainsNothing rules c user entry sql ↔ GrantsNothingNew rules c user entry sql := by
  unfold GainsNothing GrantsNothingNew rightsAfter
  cases hg : grantOf rules c user entry sql with
  | none =>
    refine ⟨fun _ _ _ h => (nomatch h), fun _ action table h => ?_⟩
    cases hr : revokeOf rules c user entry sql with
    | none =>
      rw [hr] at h
      exact h
    | some r =>
      rw [hr] at h
      exact hasRight_revoke h
  | some g =>
    constructor
    · rintro h p target hpt hrec q hq action table hgives
      obtain rfl := Option.some.inj hpt
      exact h action table (hasRight_grant.mpr (Or.inr ⟨hrec, q, hq, hgives⟩))
    · intro h action table hr
      rcases hasRight_grant.mp hr with hr | ⟨hrec, q, hq, hgives⟩
      · exact hr
      · exact h _ _ rfl hrec q hq action table hgives

end

/-! ## Two users -/

/-- Latin texts, without rewriting. -/
def latinRules : TextRules where
  toUppercase := (·.map Char.toUpper)
  isWhitespace := Char.isWhitespace
  parseTimestamp := fun _ => none
  expandNextval := id
  rewriteCalls := id

/-- `ann` has a role with ALL on the table `a`, `eve` has none. -/
def twoUsers : CatalogData := { CatalogData.empty with
  users := AList.insert "ann" "" (AList.insert "eve" "" ∅)
  roles := AList.insert "r" [⟨"ALL", some "a"⟩] ∅
  userRoles := AList.insert "ann" ["r"] ∅ }

end PotatoDB
