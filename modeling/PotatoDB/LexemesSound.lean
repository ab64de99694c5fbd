import PotatoDB.Lexemes
import PotatoDB.ReplSound

/-!
# The splitter reads lexemes

The splitter cuts a script at the semicolons that its one reading has, writes a blank for every
comment, and cuts its own statements again into the same statements.
-/

namespace PotatoDB

/-! ## Trimming -/

theorem trim_blanks_append {blanks : List Char} (h : ∀ c ∈ blanks, isWhitespace c = true) (s : List Char) :
    trim (blanks ++ s) = trim s := by
  unfold trim trimMatches
  rw [dropWhile_blanks h]

theorem trim_append_blanks {blanks : List Char} (h : ∀ c ∈ blanks, isWhitespace c = true) (s : List Char) :
    trim (s ++ blanks) = trim s := by
  have hend := dropWhile_blanks (fun c hc => h c (List.mem_reverse.mp hc)) (s.dropWhile isWhitespace).reverse
  unfold trim trimMatches
  rw [List.dropWhile_append]
  by_cases hs : (s.dropWhile isWhitespace).isEmpty = true
  · have hblanks := dropWhile_blanks h []
    rw [List.append_nil] at hblanks
    rw [if_pos hs, hblanks, List.isEmpty_iff.mp hs]
    rfl
  · rw [if_neg hs, List.reverse_append, hend]

theorem trim_trim (s : List Char) : trim (trim s) = trim s := by
  obtain ⟨before, after, hs, hbefore, hafter⟩ := trim_decompose s
  have hwhole := congrArg trim hs
  rw [trim_append_blanks hafter, trim_blanks_append hbefore] at hwhole
  exact hwhole.symm

theorem trim_concat_blank (s : List Char) : trim (s ++ [' ']) = trim s :=
  trim_append_blanks (fun c hc => List.mem_singleton.mp hc ▸ by decide) s

/-! ## Literals and comments -/

/-- The end of a script closes its last statement. -/
def lastStatement (current : List Char) : List (List Char) := if trim current = [] then [] else [trim current]

theorem splitFrom_end (mode : ScanMode) (current : List Char) : splitFrom mode current [] = lastStatement current := by
  unfold lastStatement
  cases mode <;> exact splitFrom.eq_def _ _ _

theorem splitFrom_copies : CopiesLiteral (splitFrom .literal) (splitFrom .code) lastStatement where
  nil := splitFrom_end _
  close current _ _ := splitFrom_quote current _
  doubled current rest := by
    rw [splitFrom_literal, if_pos rfl]
    dsimp only
    rw [if_pos rfl]
  char current c hc rest := by rw [splitFrom_literal, if_neg hc]

theorem splitFrom_startLine (current rest : List Char) :
    splitFrom .code current ('-' :: '-' :: rest) = splitFrom .lineComment current rest := by
  exact splitFrom.eq_def _ _ _

theorem splitFrom_startBlock (current rest : List Char) :
    splitFrom .code current ('/' :: '*' :: rest) = splitFrom (.blockComment (0 + 1)) current rest := by
  exact splitFrom.eq_def _ _ _

theorem splitFrom_skips (current : List Char) : SkipsComment (fun depth => splitFrom (.blockComment depth) current)
    (splitFrom .code (current ++ [' '])) (lastStatement current) where
  nil _ := splitFrom_end _ _
  closed depth rest := by
    rw [splitFrom.eq_def]
    by_cases hd : depth = 0
    · subst hd
      rfl
    · simp [hd]
  nested _ _ := by exact splitFrom.eq_def _ _ _
  inside hclose hopen _ := by
    rw [splitFrom.eq_def]
    dsimp only
    split
    · exact absurd (mark_starts _ _ _) hclose
    · exact absurd (mark_starts _ _ _) hopen
    · rfl

theorem splitFrom_line {text : List Char} (h : '\n' ∉ text) (current rest : List Char) :
    splitFrom .lineComment current (text ++ rest) = splitFrom .lineComment current rest := by
  induction text with
  | nil => rfl
  | cons c text ih =>
    have hc : c ≠ '\n' := fun he => h (he ▸ List.mem_cons_self)
    rw [List.cons_append, splitFrom.eq_def]
    dsimp only
    rw [if_neg hc, ih fun hm => h (List.mem_cons_of_mem _ hm)]

theorem splitFrom_endOfLine (current rest : List Char) :
    splitFrom .lineComment current ('\n' :: rest) = splitFrom .code (current ++ [' ']) rest := by
  exact splitFrom.eq_def _ _ _

/-! ## The statements of a script -/

/-- The statements of a script whose current statement has begun. -/
def statementsFrom (current : List Char) : List Lexeme → List (List Char)
  | [] => lastStatement current
  | .semicolon :: ls => cutStatement current ++ statementsFrom [] ls
  | l :: ls => statementsFrom (current ++ l.plain) ls

theorem splitFrom_lexes {s : List Char} {ls : List Lexeme} (h : Lexes s ls) (current : List Char) :
    splitFrom .code current s = statementsFrom current ls := by
  induction h generalizing current with
  | nil => exact splitFrom_end _ _
  | literal h hrest ih =>
    rw [splitFrom_code, if_pos rfl, splitFrom_copies.literalTail h, ih, List.append_assoc]
    rfl
  | openLiteral h =>
    rw [splitFrom_code, if_pos rfl, splitFrom_copies.openLiteral _ h, List.append_assoc]
    rfl
  | lineComment h hrest ih =>
    rw [splitFrom_startLine, splitFrom_line h, splitFrom_endOfLine, ih]
    rfl
  | @openLine text h =>
    have hline := splitFrom_line h current []
    rw [List.append_nil] at hline
    rw [splitFrom_startLine, hline, splitFrom_end]
    show _ = lastStatement (current ++ [' '])
    rw [lastStatement, lastStatement, trim_concat_blank]
  | blockComment h hrest ih =>
    refine (splitFrom_startBlock _ _).trans (((splitFrom_skips current).commentTail h _ 0).trans ?_)
    rw [if_pos rfl, ih]
    rfl
  | openBlock h =>
    refine (splitFrom_startBlock _ _).trans (((splitFrom_skips current).openBlock _ _ (Nat.le_refl _) h 0).trans ?_)
    show _ = lastStatement (current ++ [' '])
    rw [lastStatement, lastStatement, trim_concat_blank]
  | semicolon hrest ih =>
    rw [splitFrom_code, if_neg (by decide), if_pos rfl, ih]
    rfl
  | @char c rest ls hquote hsemi hline hblock hrest ih =>
    rw [splitFrom_plain hquote hsemi, ih]
    · rfl
    · rintro rfl hhead
      obtain ⟨after, rfl⟩ := List.head?_eq_some_iff.mp hhead
      exact hline (mark_starts _ _ _)
    · rintro rfl hhead
      obtain ⟨after, rfl⟩ := List.head?_eq_some_iff.mp hhead
      exact hblock (mark_starts _ _ _)

theorem statementsOf_append {piece : List Lexeme} (hpiece : .semicolon ∉ piece) (ls : List Lexeme) :
    statementsOf (piece ++ ls) = statementsFrom (piece.flatMap Lexeme.plain) ls := by
  induction ls generalizing piece with
  | nil =>
    rw [List.append_nil, statementsOf, List.splitOn_eq_singleton hpiece]
    show [] ++ statementOf [] piece = _
    rw [List.nil_append, statementOf, List.append_nil]
    rfl
  | cons l ls ih =>
    by_cases hl : l = .semicolon
    · subst hl
      have hrest := @ih [] List.not_mem_nil
      rw [List.flatMap_nil, List.nil_append] at hrest
      rw [statementsFrom, ← hrest, statementsOf, statementsOf, List.splitOn_append_cons_self_of_not_mem hpiece]
      rw [List.dropLast_cons_of_ne_nil (List.splitOn_ne_nil _ _), List.flatMap_cons, List.append_assoc,
        List.getLast?_cons_of_ne_nil (List.splitOn_ne_nil _ _)]
      rfl
    · have hstep := @ih (piece ++ [l]) (by simp [hpiece, Ne.symm hl])
      rw [List.append_assoc, List.singleton_append] at hstep
      rw [hstep, List.flatMap_append, List.flatMap_singleton]
      cases l with
      | semicolon => exact absurd rfl hl
      | literal | openLiteral | comment | char => rfl

theorem statementsOf_eq (ls : List Lexeme) : statementsOf ls = statementsFrom [] ls :=
  @statementsOf_append [] List.not_mem_nil ls

theorem splitSqlStatements_lexes {s : List Char} {ls : List Lexeme} (h : Lexes s ls) : splitSqlStatements s = statementsOf ls := by
  rw [statementsOf_eq]
  exact splitFrom_lexes h []

/-! ## Cutting again -/

theorem unsplit_split {s : List Char} (hs : Unsplit s) (hne : trim s ≠ []) (rest : List Char) :
    splitSqlStatements (trim s ++ ';' :: rest) = (trim s ++ [';']) :: splitSqlStatements rest := by
  rw [split_unsplit (unsplit_trim.mpr hs) (by rwa [trim_trim]), statementText, trim_trim]

/-- A text with no semicolon and no comment outside of its literals is one statement. -/
theorem split_unbroken {s : List Char} (hs : lex s ≠ .broken) : splitSqlStatements s = lastStatement s := by
  have hrun := @splitFrom_unbroken s [] .code [] nofun hs ⟨nofun, nofun⟩
  rw [List.append_nil, List.nil_append, splitFrom_end] at hrun
  exact hrun

theorem split_flatten (sql : List Char) : splitSqlStatements (splitSqlStatements sql).flatten = splitSqlStatements sql := by
  rcases cutOff_split sql with ⟨more, rest, hlen, hout, hpieces⟩ | ⟨more, hlex, hpieces⟩
  · have ih := split_flatten rest
    rw [List.nil_append] at hout hpieces
    rw [hpieces, cutStatement]
    by_cases hblank : trim more = []
    · rw [if_pos hblank]
      exact ih
    · rw [if_neg hblank, List.singleton_append, List.flatten_cons, List.append_assoc, List.singleton_append,
        unsplit_split hout hblank, ih]
  · rw [hpieces, List.nil_append]
    rw [List.nil_append] at hlex
    by_cases hblank : trim more = []
    · rw [if_pos hblank]
      rfl
    · rw [if_neg hblank, List.flatten_singleton, split_unbroken hlex, lastStatement, trim_trim, if_neg hblank]
termination_by sql.length

end PotatoDB
