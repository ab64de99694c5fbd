import PotatoDB.Catalog

/-!
# Access control

Which statements are checked on the three ways into the engine, what the check asks of the
catalog, and what GRANT and REVOKE change. Texts are lists of characters.
-/

namespace PotatoDB

/-! ## Texts -/

/-- What the engine takes from Unicode and from the parsers of dates, and its rewriting of a text
before it is looked at: sequence values first, then calls of functions and full-text matches. -/
structure TextRules where
  toUppercase : List Char → List Char
  isWhitespace : Char → Bool
  parseTimestamp : List Char → Option Int
  expandNextval : List Char → List Char
  rewriteCalls : List Char → List Char

def trimMatches (p : Char → Bool) (s : List Char) : List Char := ((s.dropWhile p).reverse.dropWhile p).reverse

def trimEndMatches (p : Char → Bool) (s : List Char) : List Char := (s.reverse.dropWhile p).reverse

/-- `split_whitespace`. -/
def splitWords (p : Char → Bool) (s : List Char) : List (List Char) :=
  (s.foldr (fun c words => if p c then [] :: words else (c :: words.headD []) :: words.tail) [[]]).filter (· ≠ [])

/-- The text after the first occurrence of another. -/
def textAfter (needle : List Char) : List Char → Option (List Char)
  | [] => if needle = [] then some [] else none
  | c :: cs => if needle.isPrefixOf (c :: cs) then some ((c :: cs).drop needle.length) else textAfter needle cs

def containsText (needle hay : List Char) : Bool := (textAfter needle hay).isSome

section
variable (rules : TextRules)

/-- `sql.trim().trim_end_matches(';').trim()`. -/
def trimStatement (sql : List Char) : List Char :=
  trimMatches rules.isWhitespace (trimEndMatches (· = ';') (trimMatches rules.isWhitespace sql))

def firstWord (sql : List Char) : List Char :=
  rules.toUppercase ((splitWords rules.isWhitespace sql).headD [])

/-- `parse_as_of_timestamp`; uppercasing keeps the positions of characters. -/
def parseAsOfTimestamp (sql : List Char) : Option Int := do
  let marker := " AS OF TIMESTAMP ".toList
  let rest ← textAfter marker (rules.toUppercase sql)
  let after := (sql.drop (sql.length - rest.length)).dropWhile rules.isWhitespace
  let token ← match after with
    | [] => some []
    | c :: stripped =>
      if c = quoteChar then
        if stripped.contains quoteChar then some (stripped.takeWhile (· ≠ quoteChar)) else none
      else some (trimEndMatches (· = ';') ((splitWords rules.isWhitespace after).headD []))
  if token = [] then none else rules.parseTimestamp token

/-! ## The check -/

def CatalogData.rolesOf (c : CatalogData) (user : String) : List (List Privilege) :=
  ((c.userRoles.lookup user).getD []).filterMap c.roles.lookup

def currentUserIsAdmin (c : CatalogData) (user : String) : Bool :=
  (c.rolesOf user).any fun privileges => privileges.any fun p => p.kind = "ALL" || p.kind = "*"

def userHasPrivilege (c : CatalogData) (user action : String) (table : Option String) : Bool :=
  currentUserIsAdmin c user || (c.rolesOf user).any fun privileges => privileges.any fun p =>
    (p.kind = "ALL" || p.kind = action) && (p.table = none || p.table = table)

def readActions : List (List Char) := ["SELECT", "WITH", "SHOW", "DESCRIBE", "EXPLAIN"].map String.toList

/-- The privilege a statement needs. -/
def actionOf (sql : List Char) : String :=
  if firstWord rules sql ∈ readActions then "SELECT" else String.ofList (firstWord rules sql)

def enforceAccess (c : CatalogData) (user : String) (sql : List Char) : Bool :=
  currentUserIsAdmin c user || userHasPrivilege c user (actionOf rules sql) none

/-! ## The ways into the engine -/

/-- Statements that `execute` hands to their handlers before the check. -/
def earlyStatements : List String :=
  ["FLUSH ", "CREATE FUNCTION ", "DROP FUNCTION ", "CREATE USER ", "CREATE ROLE ", "GRANT ", "REVOKE ", "LISTEN ",
    "NOTIFY ", "CREATE PROCEDURE ", "CALL ", "DO $$", "CREATE FULLTEXT INDEX ", "CREATE TRIGGER ", "DROP TRIGGER ",
    "SAVEPOINT ", "ROLLBACK TO ", "RELEASE SAVEPOINT ", "RELEASE ", "CREATE MIGRATION ", "MIGRATE ", "ADD REPLICA ",
    "REMOVE REPLICA "]

def earlyMarkers : List String := ["PG_CATALOG.", "PG_TYPE", "PG_CLASS", "PG_NAMESPACE", "PG_ATTRIBUTE"]

def selectMarkers : List String := ["FROM POTATODB_CDC", "FROM POTATODB_SYSTEM_STATUS"]

def isEarly (upper : List Char) : Bool :=
  upper = "FLUSH".toList || upper = "MIGRATE".toList || earlyStatements.any (·.toList.isPrefixOf upper) ||
    earlyMarkers.any (fun m => containsText m.toList upper) ||
    "SELECT ".toList.isPrefixOf upper && selectMarkers.any (fun m => containsText m.toList upper)

/-- The text `execute` checks, if it checks one. -/
def checkedText (sql : List Char) : Option (List Char) :=
  let expanded := rules.expandNextval sql
  if (parseAsOfTimestamp rules expanded).isSome then none
  else
    let trimmed := trimStatement rules (rules.rewriteCalls expanded)
    if isEarly (rules.toUppercase trimmed) then none else some trimmed

inductive Entry where
  | execute
  | executeReadonly
  | executeStream
deriving DecidableEq

def streamActions : List (List Char) :=
  ["SELECT", "EXPLAIN", "SHOW", "DESCRIBE", "WITH", "VALUES"].map String.toList

/-- `execute_readonly` takes read statements only. -/
def Entry.takes : Entry → List Char → Bool
  | executeReadonly, sql => firstWord rules sql ∈ readActions
  | _, _ => true

/-- The statement goes through `execute`. -/
def Entry.executes : Entry → List Char → Bool
  | execute, _ => true
  | executeReadonly, _ => false
  | executeStream, sql => firstWord rules sql ∉ streamActions

def Entry.checkedText (entry : Entry) (sql : List Char) : Option (List Char) :=
  if entry.executes rules sql then PotatoDB.checkedText rules sql else none

/-- The statement gets to its handler. -/
def permits (c : CatalogData) (user : String) (entry : Entry) (sql : List Char) : Bool :=
  entry.takes rules sql && (entry.checkedText rules sql).all (enforceAccess rules c user)

/-! ## GRANT and REVOKE -/

/-- The privilege, the table and the role or user that GRANT and REVOKE name. -/
def grantParts (sql : List Char) : Option (Privilege × String) :=
  let tokens := splitWords rules.isWhitespace (trimEndMatches (· = ';') (trimMatches rules.isWhitespace sql))
  let unquote (s : List Char) : String := String.ofList (trimMatches (· = '"') s)
  if tokens.length < 6 then none
  else some (⟨String.ofList (rules.toUppercase (tokens.getD 1 [])), some (unquote (tokens.getD 3 []))⟩,
    unquote (tokens.getLastD []))

def userRole (user : String) : String := "__user_" ++ user

def CatalogData.addPrivilege (c : CatalogData) (role : String) (p : Privilege) : CatalogData :=
  let privileges := (c.roles.lookup role).getD []
  { c with roles := c.roles.insert role (if p ∈ privileges then privileges else privileges ++ [p]) }

def CatalogData.addRole (c : CatalogData) (user role : String) : CatalogData :=
  let roles := (c.userRoles.lookup user).getD []
  { c with userRoles := c.userRoles.insert user (if role ∈ roles then roles else roles ++ [role]) }

/-- The role that stands for a target: a user has one of their own. -/
def CatalogData.targetRole (c : CatalogData) (target : String) : String :=
  if target ∈ c.users then userRole target else target

def CatalogData.grant (c : CatalogData) (p : Privilege) (target : String) : CatalogData :=
  if target ∈ c.users then (c.addPrivilege (c.targetRole target) p).addRole target (c.targetRole target)
  else c.addPrivilege (c.targetRole target) p

def CatalogData.revoke (c : CatalogData) (p : Privilege) (target : String) : CatalogData :=
  { c with roles := c.roles.modify (c.targetRole target) fun privileges => privileges.filter (· ≠ p) }

/-- The text of a GRANT or REVOKE that gets to its handler. -/
def rightsText (c : CatalogData) (user : String) (entry : Entry) (sql : List Char) : Option (List Char) :=
  let expanded := rules.expandNextval sql
  let trimmed := trimStatement rules (rules.rewriteCalls expanded)
  if permits rules c user entry sql && entry.executes rules sql && (parseAsOfTimestamp rules expanded).isNone &&
      !earlyMarkers.any (fun m => containsText m.toList (rules.toUppercase trimmed)) then some trimmed
  else none

/-- What GRANT gives, and to whom. -/
def grantOf (c : CatalogData) (user : String) (entry : Entry) (sql : List Char) : Option (Privilege × String) := do
  let text ← rightsText rules c user entry sql
  if "GRANT ".toList.isPrefixOf (rules.toUppercase text) then grantParts rules text else none

def revokeOf (c : CatalogData) (user : String) (entry : Entry) (sql : List Char) : Option (Privilege × String) := do
  let text ← rightsText rules c user entry sql
  if "REVOKE ".toList.isPrefixOf (rules.toUppercase text) then grantParts rules text else none

/-- The catalog after a statement of a user, as far as roles and privileges go. -/
def rightsAfter (c : CatalogData) (user : String) (entry : Entry) (sql : List Char) : CatalogData :=
  match grantOf rules c user entry sql, revokeOf rules c user entry sql with
  | some (p, target), _ => c.grant p target
  | none, some (p, target) => c.revoke p target
  | none, none => c

end

end PotatoDB
