import PotatoDB.Execute

/-!
# Scripts

`execute_file` cuts a text into statements at the semicolons that it does not see inside of a
literal or a comment, and runs them one after the other.
-/

namespace PotatoDB

open Oplog.Prog (attempt)

/-- What the splitter is inside of. -/
inductive ScanMode where
  | code
  | literal
  | lineComment
  /-- As many comments are open. The source counts in 32 bits, which are enough for a text of 2^33 characters. -/
  | blockComment (depth : Nat)
deriving DecidableEq

def trim (s : List Char) : List Char := trimMatches isWhitespace s

/-- The statement that a semicolon ends, unless it is empty. -/
def cutStatement (current : List Char) : List (List Char) :=
  if trim current = [] then [] else [trim current ++ [';']]

/-- The loop of `split_sql_statements`, with the text of the current statement. -/
def splitFrom : ScanMode → List Char → List Char → List (List Char)
  | _, current, [] => if trim current = [] then [] else [trim current]
  | .code, current, c :: rest =>
    if c = quoteChar then splitFrom .literal (current ++ [c]) rest
    else if c = ';' then cutStatement current ++ splitFrom .code [] rest
    else match c, rest with
      | '-', '-' :: rest => splitFrom .lineComment current rest
      | '/', '*' :: rest => splitFrom (.blockComment 1) current rest
      | c, rest => splitFrom .code (current ++ [c]) rest
  | .literal, current, c :: rest =>
    if c = quoteChar then
      -- two quotes stand for one
      match rest with
      | [] => splitFrom .code (current ++ [c]) []
      | d :: rest =>
        if d = quoteChar then splitFrom .literal (current ++ [c, d]) rest
        else splitFrom .code (current ++ [c]) (d :: rest)
    else splitFrom .literal (current ++ [c]) rest
  | .lineComment, current, c :: rest =>
    if c = '\n' then splitFrom .code (current ++ [' ']) rest else splitFrom .lineComment current rest
  | .blockComment depth, current, c :: rest =>
    match c, rest with
    | '*', '/' :: rest =>
      if depth = 1 then splitFrom .code (current ++ [' ']) rest else splitFrom (.blockComment (depth - 1)) current rest
    | '/', '*' :: rest => splitFrom (.blockComment (depth + 1)) current rest
    | _, rest => splitFrom (.blockComment depth) current rest

def splitSqlStatements (sql : List Char) : List (List Char) := splitFrom .code [] sql

/-- Runs the texts in order, up to the first that fails unless errors are passed over. -/
def executeTexts (exec : String → M QueryResult) (continueOnError : Bool) :
    List String → M (List (String × Except String QueryResult))
  | [] => return []
  | stmt :: rest => do
    let result ← attempt (exec stmt)
    if !result.toBool && !continueOnError then return [(stmt, result)]
    else return (stmt, result) :: (← executeTexts exec continueOnError rest)

/-- `execute_file` on a file with these contents. -/
def executeFile (exec : String → M QueryResult) (continueOnError : Bool) (contents : String) :
    M (List (String × Except String QueryResult)) :=
  executeTexts exec continueOnError ((splitSqlStatements contents.toList).map String.ofList)

/-- The statements, each followed by a semicolon. -/
def script (stmts : List (List Char)) : List Char := stmts.flatMap (· ++ [';'])

/-- A statement as a script hands it on. -/
def statementText (stmt : List Char) : List Char := trim stmt ++ [';']

end PotatoDB
