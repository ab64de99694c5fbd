import PotatoDB.LexemesSound
import PotatoDB.ExportsSound
import PotatoDB.Terminal
import PotatoDB.TypeNames

/-!
# The script of an export

The terminal writes its results as a script, one INSERT for each row, with its values as quoted literals. The script is
cut into statements again when a file is run.
-/

namespace PotatoDB.Tui

open Quoting (double enclose readBody)

/-! ## Literals -/

/-- A value as the script has it, without a quoted text for a null. -/
def importedValue (v : List Char) : Option (List Char) := if Texts.eqIgnoreAsciiCase v "null" then none else some v

def literalText : Option (List Char) → List Char
  | none => "NULL".toList
  | some v => enclose quoteChar v

/-- A literal in front of a text, and what follows. -/
def readLiteral (s : List Char) : Option (Option (List Char) × List Char) :=
  if s.head? = some quoteChar then (readBody quoteChar s.tail).map fun p => (some p.1, p.2)
  else if "NULL".toList.isPrefixOf s then some (none, s.drop 4)
  else none

/-- So many literals with commas between them, and what follows. -/
def readLiterals : Nat → List Char → Option (List (Option (List Char)) × List Char)
  | 0, s => some ([], s)
  | 1, s => (readLiteral s).map fun p => ([p.1], p.2)
  | n + 2, s => (readLiteral s).bind fun p =>
    if ", ".toList.isPrefixOf p.2 then (readLiterals (n + 1) (p.2.drop 2)).map fun q => (p.1 :: q.1, q.2) else none

theorem readLiteral_literalText (v : Option (List Char)) {rest : List Char} (h : Quoting.Clear quoteChar rest) :
    readLiteral (literalText v ++ rest) = some (v, rest) := by
  cases v with
  | none => rfl
  | some v =>
    have hread := Quoting.readBody_double h v
    simp [readLiteral, literalText, enclose, hread]

theorem readLiterals_row (vs : List (Option (List Char))) (rest : List Char) :
    readLiterals vs.length (", ".toList.intercalate (vs.map literalText) ++ ')' :: rest) = some (vs, ')' :: rest) := by
  have hclose : Quoting.Clear quoteChar (')' :: rest) := by simp [Quoting.Clear, quoteChar]
  induction vs with
  | nil => rfl
  | cons v vs ih =>
    cases vs with
    | nil => simp [readLiterals, readLiteral_literalText v hclose]
    | cons w vs =>
      have hcomma : Quoting.Clear quoteChar (", ".toList ++ (", ".toList.intercalate ((w :: vs).map literalText) ++ ')' :: rest)) := by
        simp [Quoting.Clear, quoteChar]
      have hsplit : ", ".toList.intercalate ((v :: w :: vs).map literalText) ++ ')' :: rest =
          literalText v ++ (", ".toList ++ (", ".toList.intercalate ((w :: vs).map literalText) ++ ')' :: rest)) := by
        simp [List.intercalate]
      rw [hsplit, List.length_cons, List.length_cons, readLiterals, readLiteral_literalText v hcomma, Option.bind_some]
      dsimp only
      rw [if_pos (by simp [List.isPrefixOf]), show (", ".toList ++ _).drop 2 = _ from List.drop_left' rfl]
      rw [List.length_cons] at ih
      rw [ih]
      rfl

/-! ## Statements -/

/-- What stands before the values of every row. -/
def insertHead (r : QueryResults) (table : List Char) : List Char :=
  "INSERT INTO \"".toList ++ table ++ "\" (".toList ++ ", ".toList.intercalate r.headers ++ ") VALUES (".toList

def insertText (r : QueryResults) (table : List Char) (row : List (List Char)) : List Char :=
  insertHead r table ++ (", ".toList.intercalate ((row.map importedValue).map literalText) ++ [')'])

/-- The values of a statement that has this text before them. -/
def readInsert (head : List Char) (columns : Nat) (stmt : List Char) : Option (List (Option (List Char))) :=
  if head.isPrefixOf stmt then
    (readLiterals columns (stmt.drop head.length)).bind fun p => if p.2 = ");".toList then some p.1 else none
  else none

/-! ## One statement for each row -/

theorem literalText_imported (v : List Char) : literalText (importedValue v) =
    if Texts.eqIgnoreAsciiCase v "null" then "NULL".toList
    else quoteChar :: (replaceFrom [quoteChar] [quoteChar, quoteChar] 0 v ++ [quoteChar]) := by
  unfold importedValue
  by_cases h : Texts.eqIgnoreAsciiCase v "null" = true
  · rw [if_pos h, if_pos h]
    rfl
  · rw [if_neg h, if_neg h, replaceFrom_double]
    rfl

theorem insertText_end (r : QueryResults) (table : List Char) (row : List (List Char)) : insertText r table row ++ ";\n".toList =
    "INSERT INTO \"".toList ++ table ++ "\" (".toList ++ ", ".toList.intercalate r.headers ++ ") VALUES (".toList ++
      ", ".toList.intercalate (row.map fun v => literalText (importedValue v)) ++ ");\n".toList := by
  unfold insertText insertHead
  simp only [List.append_assoc, List.map_map]
  rfl

theorem exportSql_eq (r : QueryResults) (table : List Char) :
    Terminal.exportSql r table = r.rows.flatMap fun row => insertText r table row ++ ";\n".toList := by
  unfold Terminal.exportSql
  refine List.flatMap_congr fun row _ => ?_
  rw [insertText_end]
  simp only [literalText_imported]

theorem foldl_double {x : Lex} (hx : x = .literal) (s : List Char) : (double quoteChar s).foldl Lex.step x = .literal := by
  subst hx
  induction s with
  | nil => rfl
  | cons c s ih =>
    rw [double, List.flatMap_cons, List.foldl_append]
    by_cases hc : c = quoteChar
    · rw [if_pos hc, hc]
      exact ih
    · rw [if_neg hc, List.foldl_cons, step_literal, if_neg hc]
      exact ih

/-- A literal leaves a text outside of literals. -/
theorem foldl_literalText (v : Option (List Char)) : (literalText v).foldl Lex.step .code = .code := by
  cases v with
  | none => decide
  | some v =>
    have hstart : Lex.code.step quoteChar = .literal := rfl
    rw [literalText, enclose, List.foldl_cons, hstart, List.foldl_append, foldl_double rfl]
    rfl

theorem foldl_literals (vs : List (Option (List Char))) :
    (", ".toList.intercalate (vs.map literalText)).foldl Lex.step .code = .code := by
  induction vs with
  | nil => rfl
  | cons v vs ih =>
    cases vs with
    | nil => simpa using foldl_literalText v
    | cons w vs =>
      have hsplit : ", ".toList.intercalate ((v :: w :: vs).map literalText) =
          literalText v ++ (", ".toList ++ ", ".toList.intercalate ((w :: vs).map literalText)) := by
        simp [List.intercalate]
      rw [hsplit, List.foldl_append, foldl_literalText, List.foldl_append]
      exact ih

section
variable {r : QueryResults} {table : List Char}

theorem unsplit_insertText (h : Unsplit (insertHead r table)) (row : List (List Char)) : Unsplit (insertText r table row) := by
  have hhead : lex (insertHead r table) = .code := by
    have hsplit : insertHead r table =
        ("INSERT INTO \"".toList ++ table ++ "\" (".toList ++ ", ".toList.intercalate r.headers ++ ") VALUES ".toList) ++ ['('] := by
      rw [List.append_assoc]
      rfl
    rw [Unsplit, hsplit, lex_concat] at h
    rw [hsplit, lex_concat]
    revert h
    cases lex ("INSERT INTO \"".toList ++ table ++ "\" (".toList ++ ", ".toList.intercalate r.headers ++ ") VALUES ".toList) <;>
      simp [Lex.step, Lex.isOutside, quoteChar]
  unfold Unsplit insertText
  rw [lex_append, hhead, List.foldl_append, foldl_literals]
  rfl

theorem trim_insertText (row : List (List Char)) : trim (insertText r table row) = insertText r table row := by
  have hsplit : insertText r table row = 'I' :: (("NSERT INTO \"".toList ++ table ++ "\" (".toList ++ ", ".toList.intercalate r.headers ++
      ") VALUES (".toList) ++ ", ".toList.intercalate ((row.map importedValue).map literalText)) ++ [')'] := by
    rw [insertText, ← List.append_assoc]
    rfl
  refine TypeNames.trim_self ?_ ?_
  · rw [hsplit]
    rfl
  · rw [hsplit, List.getLast?_append]
    rfl

/-- The statements of the rows, from the end of the line before them on. -/
theorem split_rows (h : Unsplit (insertHead r table)) (rows : List (List (List Char))) : ∀ blank : List Char,
    (∀ c ∈ blank, isWhitespace c = true) →
    splitSqlStatements (blank ++ rows.flatMap fun row => insertText r table row ++ ";\n".toList) =
      rows.map fun row => insertText r table row ++ [';'] := by
  induction rows with
  | nil =>
    intro blank hblank
    rw [List.flatMap_nil, List.append_nil, split_unbroken (by rw [lex_blanks hblank]; decide), lastStatement, if_pos (trim_blanks hblank)]
    rfl
  | cons row rows ih =>
    intro blank hblank
    have htrim : trim (blank ++ insertText r table row) = insertText r table row := by
      rw [trim_blanks_append hblank, trim_insertText]
    have hunsplit : Unsplit (blank ++ insertText r table row) := by
      rw [Unsplit, lex_blanks_append hblank]
      exact unsplit_insertText h row
    have hne : trim (blank ++ insertText r table row) ≠ [] := by
      rw [htrim, insertText, ← List.append_assoc]
      exact List.append_ne_nil_of_right_ne_nil _ (List.cons_ne_nil _ _)
    have hline : ∀ c ∈ ['\n'], isWhitespace c = true := fun c hc => List.mem_singleton.mp hc ▸ by decide
    have hcut : blank ++ (row :: rows).flatMap (fun row => insertText r table row ++ ";\n".toList) =
        (blank ++ insertText r table row) ++ ';' :: (['\n'] ++ rows.flatMap fun row => insertText r table row ++ ";\n".toList) := by
      rw [List.flatMap_cons]
      simp
    rw [hcut, split_unsplit hunsplit hne, statementText, htrim, ih ['\n'] hline, List.map_cons]

theorem readInsert_insertText (row : List (List Char)) :
    readInsert (insertHead r table) row.length (insertText r table row ++ [';']) = some (row.map importedValue) := by
  have hread := readLiterals_row (row.map importedValue) [';']
  rw [List.length_map] at hread
  have hsplit : insertText r table row ++ [';'] =
      insertHead r table ++ (", ".toList.intercalate ((row.map importedValue).map literalText) ++ ')' :: [';']) := by
    rw [insertText, List.append_assoc, List.append_assoc]
    rfl
  have hstart : (insertHead r table).isPrefixOf (insertText r table row ++ [';']) = true := by
    rw [List.isPrefixOf_iff_prefix, hsplit]
    exact List.prefix_append _ _
  rw [readInsert, if_pos hstart, hsplit, List.drop_left, hread]
  rfl

end

/-- **The script of an export is one statement for each row, with the values of the row.** -/
theorem export_read_back (r : QueryResults) (table : List Char) (hcells : ∀ row ∈ r.rows, row.length = r.headers.length)
    (hhead : Unsplit (insertHead r table)) :
    (splitSqlStatements (Terminal.exportSql r table)).mapM (readInsert (insertHead r table) r.headers.length) =
      some (r.rows.map fun row => row.map importedValue) := by
  rw [exportSql_eq, show r.rows.flatMap _ = [] ++ r.rows.flatMap _ from rfl, split_rows hhead r.rows [] (by simp)]
  generalize r.rows = rows at hcells
  induction rows with
  | nil => rfl
  | cons row rows ih =>
    have hfirst := @readInsert_insertText r table row
    rw [hcells row List.mem_cons_self] at hfirst
    rw [List.map_cons, List.mapM_cons, hfirst, ih fun row' hrow' => hcells row' (List.mem_cons_of_mem _ hrow')]
    rfl

/-- Two rows, with a semicolon and a quote in their values, and a null. -/
def quotedPair : QueryResults := ⟨["id".toList, "name".toList], [["1".toList, "a;b".toList], ["NULL".toList, ['i', 't', quoteChar, 's']]]⟩

theorem export_read_back_pair :
    (splitSqlStatements (Terminal.exportSql quotedPair "t".toList)).mapM (readInsert (insertHead quotedPair "t".toList) 2) =
      some [[some "1".toList, some "a;b".toList], [none, some ['i', 't', quoteChar, 's']]] := by
  have hcells : ∀ row ∈ quotedPair.rows, row.length = quotedPair.headers.length := by
    intro row hrow
    simp only [quotedPair, List.mem_cons, List.not_mem_nil, or_false] at hrow
    obtain rfl | rfl := hrow <;> rfl
  exact export_read_back quotedPair "t".toList hcells (by decide)

end PotatoDB.Tui
