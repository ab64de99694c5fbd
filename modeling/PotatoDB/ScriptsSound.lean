import PotatoDB.Lexing

/-!
# Which statements a script keeps apart

A script runs its statements exactly when no statement has a semicolon or a comment outside of
single quotes, nor a quote that nothing closes. Other quotes do not count.
-/

namespace PotatoDB

/-- A text that ends in a literal, and not in a blank. -/
def OpenEnd (text : List Char) : Prop := lex text = .literal ∧ trim text = text.dropWhile isWhitespace

instance decidableOpenEnd (text : List Char) : Decidable (OpenEnd text) := inferInstanceAs (Decidable (_ ∧ _))

/-! ## Texts that are passed on -/

def Lex.mode : Lex → ScanMode
  | .literal => .literal
  | _ => .code

/-- What comes next does not turn the last character into the start of a comment. -/
def Lex.Fits (x : Lex) (rest : List Char) : Prop :=
  (x = .dash → rest.head? ≠ some '-') ∧ (x = .slash → rest.head? ≠ some '*')

theorem splitFrom_code (current : List Char) (c : Char) (rest : List Char) : splitFrom .code current (c :: rest) =
    if c = quoteChar then splitFrom .literal (current ++ [c]) rest
    else if c = ';' then cutStatement current ++ splitFrom .code [] rest
    else match c, rest with
      | '-', '-' :: rest => splitFrom .lineComment current rest
      | '/', '*' :: rest => splitFrom (.blockComment 1) current rest
      | c, rest => splitFrom .code (current ++ [c]) rest := by
  exact splitFrom.eq_def _ _ _

theorem splitFrom_literal (current : List Char) (c : Char) (rest : List Char) : splitFrom .literal current (c :: rest) =
    if c = quoteChar then
      match rest with
      | [] => splitFrom .code (current ++ [c]) []
      | d :: rest =>
        if d = quoteChar then splitFrom .literal (current ++ [c, d]) rest
        else splitFrom .code (current ++ [c]) (d :: rest)
    else splitFrom .literal (current ++ [c]) rest := by
  exact splitFrom.eq_def _ _ _

/-- A quote in a literal closes it, for the moment. -/
theorem splitFrom_quote (current rest : List Char) :
    splitFrom .literal current (quoteChar :: rest) = splitFrom .code (current ++ [quoteChar]) rest := by
  rw [splitFrom_literal, if_pos rfl]
  cases rest with
  | nil => rfl
  | cons d rest =>
    dsimp only
    by_cases hd : d = quoteChar
    · rw [if_pos hd, hd, splitFrom_code, if_pos rfl, List.append_assoc]
      rfl
    · rw [if_neg hd]

theorem splitFrom_plain {current rest : List Char} {c : Char} (hq : c ≠ quoteChar) (hs : c ≠ ';')
    (hd : c = '-' → rest.head? ≠ some '-') (ha : c = '/' → rest.head? ≠ some '*') :
    splitFrom .code current (c :: rest) = splitFrom .code (current ++ [c]) rest := by
  rw [splitFrom_code, if_neg hq, if_neg hs]
  split
  · exact absurd rfl (hd rfl)
  · exact absurd rfl (ha rfl)
  · rfl

theorem mode_outside {x : Lex} (hx : x.isOutside = true) : x.mode = .code := by
  cases x with
  | literal | broken => cases hx
  | code | dash | slash => rfl

theorem fits_unbroken {x : Lex} {s t : List Char} (hs : s.foldl Lex.step x ≠ .broken) (hfits : (s.foldl Lex.step x).Fits t) :
    x.Fits (s ++ t) := by
  cases s with
  | nil => exact hfits
  | cons c s =>
    refine ⟨?_, ?_⟩
    · rintro rfl hc
      obtain rfl := Option.some.inj hc
      exact hs (foldl_broken s)
    · rintro rfl hc
      obtain rfl := Option.some.inj hc
      exact hs (foldl_broken s)

/-- The splitter goes through a text with no semicolon and no comment outside of its literals and keeps all of it. -/
theorem splitFrom_unbroken {s t : List Char} : ∀ {x : Lex} {current : List Char}, x ≠ .broken →
    s.foldl Lex.step x ≠ .broken → (s.foldl Lex.step x).Fits t →
    splitFrom x.mode current (s ++ t) = splitFrom (s.foldl Lex.step x).mode (current ++ s) t := by
  induction s with
  | nil =>
    intro x current _ _ _
    rw [List.append_nil]
    rfl
  | cons c s ih =>
    intro x current hx hs hfits
    rw [List.foldl_cons] at hs hfits ⊢
    have hnext : x.step c ≠ .broken := fun h => hs (h ▸ foldl_broken s)
    have hrest := @ih (x.step c) (current ++ [c]) hnext hs hfits
    rw [List.append_assoc, List.singleton_append] at hrest
    rw [← hrest, List.cons_append]
    by_cases hlit : x = .literal
    · subst hlit
      rw [step_literal]
      by_cases hq : c = quoteChar
      · rw [if_pos hq, hq]
        exact splitFrom_quote current (s ++ t)
      · rw [if_neg hq]
        show splitFrom .literal current (c :: (s ++ t)) = _
        rw [splitFrom_literal, if_neg hq]
        rfl
    · have hout : x.isOutside = true := by
        cases x with
        | broken => exact absurd rfl hx
        | literal => exact absurd rfl hlit
        | code | dash | slash => rfl
      rw [mode_outside hout]
      by_cases hq : c = quoteChar
      · subst hq
        rw [step_quote hout, splitFrom_code, if_pos rfl]
        rfl
      · have hsemi : c ≠ ';' := fun h => hnext (h ▸ step_semicolon hout)
        obtain ⟨hdash, hslash⟩ := fits_unbroken hs hfits
        rw [mode_outside (step_outside hout hq hnext)]
        refine splitFrom_plain hq hsemi (fun h => hdash ?_) fun h => hslash ?_
        · subst h
          exact step_dash hout hnext
        · subst h
          exact step_slash hout

/-! ## Scripts -/

theorem fits_semicolon (x : Lex) (rest : List Char) : x.Fits (';' :: rest) :=
  ⟨fun _ => by simp, fun _ => by simp⟩

theorem splitFrom_unsplit {s t : List Char} (hs : Unsplit s) (hfits : (lex s).Fits t) (current : List Char) :
    splitFrom .code current (s ++ t) = splitFrom .code (current ++ s) t := by
  have hbroken : lex s ≠ .broken := by
    intro h
    unfold Unsplit at hs
    rw [h] at hs
    cases hs
  have hrun := @splitFrom_unbroken s t .code current nofun hbroken hfits
  rw [show List.foldl Lex.step .code s = lex s from rfl, mode_outside hs] at hrun
  exact hrun

theorem splitFrom_cut {s : List Char} (hs : Unsplit s) (current rest : List Char) :
    splitFrom .code current (s ++ ';' :: rest) = cutStatement (current ++ s) ++ splitSqlStatements rest := by
  rw [splitFrom_unsplit hs (fits_semicolon (lex s) rest), splitFrom_code, if_neg (by decide), if_pos rfl]
  rfl

theorem split_unsplit {s : List Char} (hs : Unsplit s) (hne : trim s ≠ []) (rest : List Char) :
    splitSqlStatements (s ++ ';' :: rest) = statementText s :: splitSqlStatements rest := by
  unfold splitSqlStatements
  rw [splitFrom_cut hs, List.nil_append, cutStatement, if_neg hne]
  rfl

theorem trim_concat_ne (s : List Char) : trim (s ++ [';']) ≠ [] := by
  obtain ⟨before, after, hs, hbefore, hafter⟩ := trim_decompose (s ++ [';'])
  intro h
  rw [h, List.append_nil] at hs
  have hmem : ';' ∈ before ++ after := hs ▸ List.mem_append_right s List.mem_cons_self
  rcases List.mem_append.mp hmem with hm | hm
  · exact absurd (hbefore _ hm) (by decide)
  · exact absurd (hafter _ hm) (by decide)

/-- A statement that ends in a literal takes its semicolon with it. -/
theorem split_open {s : List Char} (hs : lex s = .literal) :
    splitSqlStatements (s ++ [';']) = [trim (s ++ [';'])] := by
  have hend : [';'].foldl Lex.step (lex s) = .literal := by
    rw [hs]
    rfl
  rw [← lex_append] at hend
  have hbroken : lex (s ++ [';']) ≠ .broken := fun h => nomatch hend.symm.trans h
  have hrun := @splitFrom_unbroken (s ++ [';']) [] .code [] nofun hbroken ⟨nofun, nofun⟩
  rw [List.append_nil, List.nil_append] at hrun
  unfold splitSqlStatements
  refine hrun.trans ?_
  rw [splitFrom, if_neg (trim_concat_ne s)]

/-! ## What the splitter cuts off -/

/-- A statement with its semicolon. -/
def Terminated (piece : List Char) : Prop := ∃ body, piece = body ++ [';'] ∧ Unsplit body

theorem terminated_iff {piece : List Char} : Terminated piece ↔ piece.getLast? = some ';' ∧ Unsplit piece.dropLast := by
  refine ⟨?_, fun ⟨hlast, hbody⟩ => ?_⟩
  · rintro ⟨body, rfl, hbody⟩
    exact ⟨List.getLast?_concat, by rwa [List.dropLast_concat]⟩
  · obtain ⟨body, rfl⟩ := List.getLast?_eq_some_iff.mp hlast
    rw [List.dropLast_concat] at hbody
    exact ⟨body, rfl, hbody⟩

instance decidableTerminated (piece : List Char) : Decidable (Terminated piece) := decidable_of_iff _ terminated_iff.symm

/-- Each statement has its semicolon, but perhaps the last. -/
def WellCut : List (List Char) → Prop
  | [] => True
  | [piece] => Terminated piece ∨ lex piece ≠ .broken
  | piece :: piece' :: pieces => Terminated piece ∧ WellCut (piece' :: pieces)

theorem WellCut.cons {piece : List Char} {pieces : List (List Char)} (hp : Terminated piece) (h : WellCut pieces) :
    WellCut (piece :: pieces) := by
  cases pieces with
  | nil => exact .inl hp
  | cons piece' pieces => exact ⟨hp, h⟩

/-- What the current statement is like in each mode. -/
def ScanMode.Holds (current rest : List Char) : ScanMode → Prop
  | .code => Unsplit current ∧ (lex current).Fits rest
  | .literal => lex current = .literal
  | .lineComment | .blockComment _ => Unsplit current

theorem unsplit_blank {s : List Char} (hs : Unsplit s) (rest : List Char) : ScanMode.Holds (s ++ [' ']) rest .code := by
  have hlex : lex (s ++ [' ']) = .code := by
    rw [lex_concat, step_blank (by decide)]
    exact if_pos hs
  refine ⟨?_, ?_⟩
  · unfold Unsplit
    rw [hlex]
    rfl
  · rw [hlex]
    exact ⟨nofun, nofun⟩

theorem holds_closed {s : List Char} (hs : lex s = .literal) (rest : List Char) :
    ScanMode.Holds (s ++ [quoteChar]) rest .code := by
  have hlex : lex (s ++ [quoteChar]) = .code := by
    rw [lex_concat, hs]
    rfl
  refine ⟨?_, ?_⟩
  · unfold Unsplit
    rw [hlex]
    rfl
  · rw [hlex]
    exact ⟨nofun, nofun⟩

/-- A character that neither opens a literal nor ends a statement nor starts a comment. -/
theorem holds_plain {s rest : List Char} {c : Char} (hs : ScanMode.Holds s (c :: rest) .code) (hq : c ≠ quoteChar) (hsemi : c ≠ ';')
    (hdash : c = '-' → rest.head? ≠ some '-') (hslash : c = '/' → rest.head? ≠ some '*') :
    ScanMode.Holds (s ++ [c]) rest .code := by
  obtain ⟨hout, hfits⟩ := hs
  have hstep : (lex s).step c = if c = '-' then .dash else if c = '/' then .slash else .code := by
    have hd : ¬ (c = '-' ∧ lex s = .dash) := fun h => hfits.1 h.2 (congrArg some h.1)
    have ha : ¬ (c = '*' ∧ lex s = .slash) := fun h => hfits.2 h.2 (congrArg some h.1)
    unfold Unsplit at hout
    cases hx : lex s with
    | literal | broken =>
      rw [hx] at hout
      cases hout
    | code | dash | slash =>
      rw [hx] at hd ha
      simp only [Lex.step, if_neg hq, if_neg hsemi]
      split_ifs <;> simp_all
  unfold ScanMode.Holds Unsplit
  rw [lex_concat, hstep]
  split_ifs with h₁ h₂
  · exact ⟨rfl, fun _ => hdash h₁, by simp⟩
  · exact ⟨rfl, by simp, fun _ => hslash h₂⟩
  · exact ⟨rfl, by simp, by simp⟩

theorem lex_rest {mode : ScanMode} {current : List Char} (h : mode.Holds current []) : lex (trim current) ≠ .broken := by
  have hlex : Unsplit current ∨ lex current = .literal := by
    cases mode with
    | code => exact .inl h.1
    | literal => exact .inr h
    | lineComment | blockComment depth => exact .inl h
  rcases hlex with hlex | hlex
  · intro hb
    have := unsplit_trim.mpr hlex
    unfold Unsplit at this
    rw [hb] at this
    cases this
  · rw [(lex_trim current).2.mpr hlex]
    nofun

/-- What the splitter cuts off first, from a text of this length: the statement before a semicolon, or all that is left. -/
def CutOff (current : List Char) (length : Nat) (pieces : List (List Char)) : Prop :=
  (∃ more rest : List Char, rest.length < length ∧ Unsplit (current ++ more) ∧
    pieces = cutStatement (current ++ more) ++ splitSqlStatements rest) ∨
  ∃ more, lex (trim (current ++ more)) ≠ .broken ∧ pieces = if trim (current ++ more) = [] then [] else [trim (current ++ more)]

theorem CutOff.mono {current more : List Char} {n m : Nat} {pieces : List (List Char)} (h : CutOff (current ++ more) n pieces)
    (hn : n ≤ m) : CutOff current m pieces := by
  rcases h with ⟨next, rest, hlen, hout, hpieces⟩ | ⟨next, hlex, hpieces⟩
  · rw [List.append_assoc] at hout hpieces
    exact .inl ⟨_, rest, Nat.lt_of_lt_of_le hlen hn, hout, hpieces⟩
  · rw [List.append_assoc] at hlex hpieces
    exact .inr ⟨_, hlex, hpieces⟩

theorem CutOff.length_le {current : List Char} {n m : Nat} {pieces : List (List Char)} (h : CutOff current n pieces)
    (hn : n ≤ m) : CutOff current m pieces := by
  rw [← List.append_nil current] at h
  exact h.mono hn

theorem cutOff_splitFrom (mode : ScanMode) (current cs : List Char) (h : mode.Holds current cs) :
    CutOff current cs.length (splitFrom mode current cs) := by
  fun_induction splitFrom mode current cs with
  | case1 mode current he =>
    refine .inr ⟨[], ?_, ?_⟩
    · rw [List.append_nil]
      exact lex_rest h
    · rw [List.append_nil, if_pos he]
  | case2 mode current hne =>
    refine .inr ⟨[], ?_, ?_⟩
    · rw [List.append_nil]
      exact lex_rest h
    · rw [List.append_nil, if_neg hne]
  | case3 current rest ih =>
    refine (ih ?_).mono (Nat.le_succ _)
    show lex (current ++ [quoteChar]) = .literal
    rw [lex_concat, step_quote h.1]
  | case4 current rest hq ih =>
    refine .inl ⟨[], rest, Nat.lt_succ_self _, ?_, ?_⟩
    · rw [List.append_nil]
      exact h.1
    · rw [List.append_nil]
      rfl
  | case5 current rest _ _ ih => exact (ih h.1).length_le (Nat.le_add_right _ 2)
  | case6 current rest _ _ ih => exact (ih h.1).length_le (Nat.le_add_right _ 2)
  | case7 current c rest hdash hslash hq hsemi ih =>
    refine (ih (holds_plain h hq hsemi (fun hc hrest => ?_) fun hc hrest => ?_)).mono (Nat.le_succ _)
    · obtain ⟨tail, rfl⟩ := List.head?_eq_some_iff.mp hrest
      exact hdash tail hc rfl
    · obtain ⟨tail, rfl⟩ := List.head?_eq_some_iff.mp hrest
      exact hslash tail hc rfl
  | case8 current ih => exact (ih (holds_closed h [])).mono (Nat.zero_le _)
  | case9 current rest ih =>
    refine (ih ?_).mono (Nat.le_add_right _ 2)
    show lex (current ++ [quoteChar, quoteChar]) = .literal
    rw [lex_append, show lex current = .literal from h]
    rfl
  | case10 current d rest hd ih => exact (ih (holds_closed h _)).mono (Nat.le_succ _)
  | case11 current c rest hq ih =>
    refine (ih ?_).mono (Nat.le_succ _)
    show lex (current ++ [c]) = .literal
    rw [lex_concat, show lex current = .literal from h, step_literal, if_neg hq]
  | case12 current rest ih => exact (ih (unsplit_blank h rest)).mono (Nat.le_succ _)
  | case13 current c rest _ ih => exact (ih h).length_le (Nat.le_succ _)
  | case14 current rest ih => exact (ih (unsplit_blank h rest)).mono (Nat.le_add_right _ 2)
  | case15 depth current rest _ ih => exact (ih h).length_le (Nat.le_add_right _ 2)
  | case16 depth current rest ih => exact (ih h).length_le (Nat.le_add_right _ 2)
  | case17 depth current c rest _ _ ih => exact (ih h).length_le (Nat.le_succ _)

theorem cutOff_split (sql : List Char) : CutOff [] sql.length (splitSqlStatements sql) :=
  cutOff_splitFrom .code [] sql ⟨rfl, nofun, nofun⟩

theorem wellCut_split (sql : List Char) : WellCut (splitSqlStatements sql) := by
  rcases cutOff_split sql with ⟨more, rest, hlen, hout, hpieces⟩ | ⟨more, hlex, hpieces⟩
  · have hrest := wellCut_split rest
    rw [hpieces]
    unfold cutStatement
    split
    · exact hrest
    · exact hrest.cons ⟨trim more, rfl, unsplit_trim.mpr hout⟩
  · rw [hpieces]
    split
    · trivial
    · exact .inr hlex
termination_by sql.length

/-! ## Whole scripts -/

/-- Each statement but the last has its semicolons and comments in literals that it closes, and the last one closes all
literals or ends in one. -/
def Separable : List (List Char) → Prop
  | [] => True
  | [stmt] => Unsplit stmt ∨ OpenEnd stmt
  | stmt :: stmt' :: stmts => Unsplit stmt ∧ Separable (stmt' :: stmts)

instance decidableSeparable : (stmts : List (List Char)) → Decidable (Separable stmts)
  | [] => .isTrue trivial
  | [stmt] => inferInstanceAs (Decidable (Unsplit stmt ∨ OpenEnd stmt))
  | stmt :: stmt' :: stmts =>
    have : Decidable (Separable (stmt' :: stmts)) := decidableSeparable (stmt' :: stmts)
    inferInstanceAs (Decidable (Unsplit stmt ∧ Separable (stmt' :: stmts)))

theorem terminated_statementText {stmt : List Char} (h : Terminated (statementText stmt)) : Unsplit stmt := by
  obtain ⟨body, heq, hbody⟩ := h
  obtain ⟨htrim, -⟩ := List.append_inj' heq rfl
  rw [← htrim] at hbody
  exact unsplit_trim.mp hbody

theorem dropWhile_semicolon (s rest : List Char) :
    (s ++ ';' :: rest).dropWhile isWhitespace = s.dropWhile isWhitespace ++ ';' :: rest := by
  induction s with
  | nil => rfl
  | cons c s ih =>
    rw [List.cons_append, List.dropWhile_cons, List.dropWhile_cons]
    by_cases hc : isWhitespace c = true
    · rw [if_pos hc, if_pos hc]
      exact ih
    · rw [if_neg hc, if_neg hc]
      rfl

theorem trim_semicolon (s : List Char) {blanks : List Char} (h : ∀ c ∈ blanks, isWhitespace c = true) :
    trim (s ++ ';' :: blanks) = s.dropWhile isWhitespace ++ [';'] := by
  unfold trim trimMatches
  rw [dropWhile_semicolon, List.reverse_append, List.reverse_cons, List.append_assoc,
    dropWhile_blanks fun c hc => h c (List.mem_reverse.mp hc)]
  show ((';' :: (s.dropWhile isWhitespace).reverse).dropWhile isWhitespace).reverse = _
  rw [List.dropWhile_cons_of_neg (by decide), List.reverse_cons, List.reverse_reverse]

theorem trim_concat (s : List Char) : trim (s ++ [';']) = s.dropWhile isWhitespace ++ [';'] := trim_semicolon s nofun

theorem openEnd_of_literal {s : List Char} (hs : lex s = .literal)
    (h : splitSqlStatements (s ++ [';']) = [statementText s]) : OpenEnd s := by
  rw [split_open hs, trim_concat] at h
  obtain ⟨heq, -⟩ := List.append_inj' (List.cons.inj h).1 rfl
  exact ⟨hs, heq.symm⟩

theorem split_openEnd {s : List Char} (hs : OpenEnd s) : splitSqlStatements (s ++ [';']) = [statementText s] := by
  rw [split_open hs.1, trim_concat, statementText, hs.2]

/-- The text of a statement that is split off is broken when the statement is. -/
theorem lex_statementText {s : List Char} (h : lex (statementText s) ≠ .broken) : lex s = .literal := by
  unfold statementText at h
  rw [lex_concat] at h
  refine (lex_trim s).2.mp ?_
  cases hx : lex (trim s) with
  | literal => rfl
  | code | dash | slash | broken =>
    rw [hx] at h
    exact absurd rfl h

theorem split_script : ∀ {stmts : List (List Char)}, (∀ s ∈ stmts, trim s ≠ []) →
    (splitSqlStatements (script stmts) = stmts.map statementText ↔ Separable stmts)
  | [], _ => ⟨fun _ => trivial, fun _ => rfl⟩
  | [s], hne => by
    have hs := hne s List.mem_cons_self
    show splitSqlStatements (s ++ [';'] ++ []) = [statementText s] ↔ Unsplit s ∨ OpenEnd s
    rw [List.append_nil]
    refine ⟨fun h => ?_, fun h => ?_⟩
    · have hcut := wellCut_split (s ++ [';'])
      rw [h] at hcut
      rcases hcut with hcut | hcut
      · exact .inl (terminated_statementText hcut)
      · exact .inr (openEnd_of_literal (lex_statementText hcut) h)
    · rcases h with h | h
      · exact split_unsplit h hs []
      · exact split_openEnd h
  | s :: s' :: stmts, hne => by
    have hs := hne s List.mem_cons_self
    have ih := @split_script (s' :: stmts) fun t ht => hne t (List.mem_cons_of_mem _ ht)
    have hscript : script (s :: s' :: stmts) = s ++ ';' :: script (s' :: stmts) := by
      show (s ++ [';']) ++ script (s' :: stmts) = _
      rw [List.append_assoc]
      rfl
    rw [hscript]
    refine ⟨fun h => ?_, fun h => ?_⟩
    · have hcut := wellCut_split (s ++ ';' :: script (s' :: stmts))
      rw [h] at hcut
      have hunsplit := terminated_statementText hcut.1
      rw [split_unsplit hunsplit hs] at h
      exact ⟨hunsplit, ih.mp (List.cons.inj h).2⟩
    · rw [split_unsplit h.1 hs, ih.mpr h.2]
      rfl

/-! ## Running a script -/

theorem result_executeTexts (r : QueryResult) (texts : List String) (s : Db) :
    (executeTexts (fun _ => pure r) true texts).result s = .ok (texts.map fun t => (t, .ok r)) := by
  induction texts with
  | nil => rfl
  | cons t texts ih =>
    show (executeTexts (fun _ => pure r) true texts >>= fun rest => pure ((t, .ok r) :: rest) : M _).result s = _
    rw [Oplog.Prog.result_bind, ih]
    rfl

theorem executeFile_script_iff (contents : List Char) (texts : List (List Char)) :
    (∀ exec continueOnError, executeFile exec continueOnError (String.ofList contents) =
      executeTexts exec continueOnError (texts.map String.ofList)) ↔ splitSqlStatements contents = texts := by
  unfold executeFile
  rw [String.toList_ofList]
  refine ⟨fun h => ?_, fun h _ _ => by rw [h]⟩
  have hrun := congrArg (fun p => p.result Db.new) (h (fun _ => pure (.message "")) true)
  simp only [result_executeTexts] at hrun
  have hpairs := congrArg (List.map Prod.fst) (Except.ok.inj hrun)
  rw [List.map_map, List.map_map] at hpairs
  have hlists := congrArg (List.map String.toList) hpairs
  simpa [Function.comp_def] using hlists

/-- Semicolons, comment markers and quotes in a literal. -/
def literalStatements : List (List Char) :=
  ["INSERT INTO t VALUES ('a;b -- it''s')".toList, " SELECT a - b / c FROM t".toList]

/-- A procedure with a statement in its body, and a column whose name has a quote before a second statement. -/
def quotedStatements : List (List Char) :=
  ["CREATE PROCEDURE p() AS $$ DELETE FROM t; $$".toList]

def quotedName : List (List Char) := ["SELECT a AS \"it's\" FROM t".toList, "DELETE FROM t".toList]

end PotatoDB
