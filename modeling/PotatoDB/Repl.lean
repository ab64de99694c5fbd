import PotatoDB.Scripts

/-!
# The prompt

The lines that are typed are collected, each without its blanks and its comment, and handed to
`execute` when a line ends in a semicolon.
-/

namespace PotatoDB

/-- The loop of `strip_line_comment`, with whether it is inside of a literal. -/
def stripFrom : Bool → List Char → List Char
  | _, [] => []
  | false, c :: rest =>
    if c = quoteChar then c :: stripFrom true rest
    else match c, rest with
      | '-', '-' :: _ => []
      | c, rest => c :: stripFrom false rest
  | true, c :: rest =>
    if c = quoteChar then
      -- two quotes stand for one
      match rest with
      | [] => [c]
      | d :: rest => if d = quoteChar then c :: d :: stripFrom true rest else c :: stripFrom false (d :: rest)
    else c :: stripFrom true rest

def stripLineComment (line : List Char) : List Char := trim (stripFrom false line)

def isQuit (trimmed : List Char) : Bool := ["\\q", "quit", "exit"].any fun s => trimmed = s.toList

/-- The commands of the prompt itself, apart from those that leave it. -/
def isCommand (trimmed : List Char) : Bool :=
  ["\\timing", "\\dt", "\\di", "\\dv"].any (fun s => trimmed = s.toList) ||
    ["\\backup ", "\\restore ", "\\d ", "\\i ", ".source ", ".import ", ".export "].any fun s => s.toList.isPrefixOf trimmed

/-- The texts that the loop hands to `execute`, with the text that it has collected so far. -/
def submitted : List Char → List (List Char) → List (List Char)
  | _, [] => []
  | buffer, line :: lines =>
    let trimmed := trim line
    if buffer = [] ∧ isQuit trimmed then []
    else if buffer = [] ∧ (isCommand trimmed ∨ trimmed = []) then submitted buffer lines
    else
      let effective := stripLineComment trimmed
      if effective = [] then submitted buffer lines
      else if effective.getLast? = some ';' then trim (buffer ++ effective ++ [' ']) :: submitted [] lines
      else submitted (buffer ++ effective ++ [' ']) lines

/-- The text that lines are the lines of. -/
def joinLines : List (List Char) → List Char
  | [] => []
  | [line] => line
  | line :: lines => line ++ '\n' :: joinLines lines

end PotatoDB
