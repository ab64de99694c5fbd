import PotatoDB.TimeTravel

/-!
# Bound parameters

The server writes the values of a portal into the text of its statement, one after the other from
the last to the first. The engine writes the values of EXECUTE into a prepared template in one pass.
-/

namespace PotatoDB

/-! ## The values of a portal -/

/-- The declared types that the server tells apart. -/
inductive PgType where
  | bool
  | int2
  | int4
  | int8
  | float4
  | float8
  | numeric
  | unknown
  | other
deriving DecidableEq

def PgType.isBare : PgType → Bool
  | bool | int2 | int4 | int8 | float4 | float8 | numeric => true
  | unknown | other => false

/-- A text without a sign at its start. -/
def dropSign : List Char → List Char
  | '+' :: cs => cs
  | '-' :: cs => cs
  | cs => cs

/-- An exponent, or nothing. -/
def isExponent : List Char → Bool
  | [] => true
  | c :: cs => (c = 'e' || c = 'E') && dropSign cs ≠ [] && (dropSign cs).all Char.isDigit

/-- Digits with a point among or beside them, and an exponent. -/
def isNumber (raw : List Char) : Bool :=
  let whole := raw.takeWhile Char.isDigit
  match raw.dropWhile Char.isDigit with
  | '.' :: rest => (whole ≠ [] || rest.takeWhile Char.isDigit ≠ []) && isExponent (rest.dropWhile Char.isDigit)
  | rest => whole ≠ [] && isExponent rest

def lower (raw : List Char) : List Char := raw.map Char.toLower

/-- `str::parse::<f64>` succeeds. -/
def parsesF64 (raw : List Char) : Bool :=
  isNumber (dropSign raw) || ["inf".toList, "infinity".toList, "nan".toList].contains (lower (dropSign raw))

def escapeQuotes (raw : List Char) : List Char := replaceFrom [quoteChar] [quoteChar, quoteChar] 0 raw

/-- `none` is NULL. -/
def formatPortalParam (param : Option (List Char)) (pgType : PgType) : List Char :=
  match param with
  | none => "NULL".toList
  | some raw =>
    if lower raw = "null".toList then "NULL".toList
    else if pgType.isBare || pgType = .unknown && parsesF64 raw then raw
    else quoteChar :: escapeQuotes raw ++ [quoteChar]

def placeholder (i : Nat) : List Char := '$' :: (toString i).toList

/-- The values from the number down to the first, each written in the place of its name. -/
def bindFrom (values : List (List Char)) : Nat → List Char → List Char
  | 0, sql => sql
  | i + 1, sql => bindFrom values i (replaceFrom (placeholder (i + 1)) (values.getD i []) 0 sql)

/-- A portal: its text, the types that were declared and the values. -/
structure Portal where
  statement : List Char
  parameterTypes : List (Option PgType)
  parameters : List (Option (List Char))

def Portal.typeOf (p : Portal) (i : Nat) : PgType := ((p.parameterTypes[i]?).join).getD .unknown

def Portal.values (p : Portal) : List (List Char) :=
  p.parameters.zipIdx.map fun v => formatPortalParam v.1 (p.typeOf v.2)

def bindPortalSql (p : Portal) : List Char := bindFrom p.values p.parameters.length p.statement

/-! ## EXECUTE -/

/-- The bytes of a character, each taken for a character. -/
def bytesAsChars (c : Char) : List Char := (String.utf8EncodeChar c).map fun b => Char.ofNat b.toNat

def decimal (digits : List Char) : Nat := digits.foldl (fun n c => 10 * n + (c.toNat - 48)) 0

/-- The number of the placeholder that a text starts with, among as many as there are. -/
def placeholderAt (n : Nat) : List Char → Option Nat
  | '$' :: cs =>
    let i := decimal (cs.takeWhile Char.isDigit)
    -- a number that does not fit into `usize` is no placeholder
    if cs.takeWhile Char.isDigit ≠ [] ∧ i < 2 ^ 64 ∧ 1 ≤ i ∧ i ≤ n then some i else none
  | _ => none

/-- The loop of `substitute_parameters`; the first number counts the characters left to skip. -/
def substituteFrom (params : List (List Char)) : Nat → List Char → List Char
  | _, [] => []
  | skip + 1, _ :: cs => substituteFrom params skip cs
  | 0, c :: cs =>
    match placeholderAt params.length (c :: cs) with
    | some i => params.getD (i - 1) [] ++ substituteFrom params (cs.takeWhile Char.isDigit).length cs
    | none => bytesAsChars c ++ substituteFrom params 0 cs

def substituteParameters (template : List Char) (params : List (List Char)) : List Char :=
  if params = [] then template else substituteFrom params 0 template

end PotatoDB
