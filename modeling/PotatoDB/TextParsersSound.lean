import PotatoDB.TextParsers

/-!
# When no slice panics

A program stops at a keyword only if that stands in the copy as the copy of something else than
whole characters, or behind a character that the copy writes with another number of bytes.
-/

namespace PotatoDB.Texts

open Oplog
open Oplog.Prog (emit check wp wp_bind wp_mono wp_emit)
open Slices

/-- The cuts that cannot go wrong. -/
def Cut.Regular : Cut → Prop
  | keyword text copy offset needle => Slices.Regular text copy offset needle
  -- single bytes, in the text and in its copy
  | everywhere text copy => text.all (fun c => c.utf8Size = 1) = true ∧ Kept text copy
  | parentheses text => ')' ∈ text.dropWhile (· ≠ '(')

instance decidableCutRegular : (c : Cut) → Decidable c.Regular
  | .keyword text copy offset needle => decidableRegular text copy offset needle
  | .everywhere text copy => inferInstanceAs (Decidable (text.all (fun c => c.utf8Size = 1) = true ∧ List.Forall₂ _ text copy))
  | .parentheses text => inferInstanceAs (Decidable (')' ∈ text.dropWhile (· ≠ '(')))

/-! ## Answers -/

/-- As long as the cuts are regular, the program ends, and its answer has a property. -/
def Returns {α : Type} (p : P α) (Q : α → Prop) : Prop :=
  wp (fun _ c => c.Regular) p () fun r _ =>
    match r with
    | .ok a => Q a
    | .error (.error _) => True
    | .error .stop => False

section
variable {α β : Type} {p : P α} {f : α → P β} {Q : α → Prop} {R : β → Prop}

theorem Returns.pure {a : α} (h : Q a) : Returns (pure a : P α) Q := fun _ => h

theorem Returns.fail (message : String) : Returns (fail message : P α) Q := fun _ => trivial

theorem Returns.bind (hp : Returns p Q) (hf : ∀ a, Q a → Returns (f a) R) : Returns (p >>= f) R := by
  unfold Returns at hp
  unfold Returns
  rw [wp_bind]
  refine wp_mono ?_ hp
  intro r _ h
  cases r with
  | ok a => exact hf a h
  | error e =>
    cases e with
    | error message => exact trivial
    | stop => exact h

theorem Returns.okOr {o : Option α} {message : String} (h : ∀ a, o = some a → Returns (f a) R) :
    Returns (okOr o message >>= f) R := by
  cases o with
  | none => exact fun _ => trivial
  | some a => exact h a rfl

theorem Returns.orStop {o : Option α} {a : α} (ho : o = some a) (h : Returns (f a) R) : Returns (orStop o >>= f) R := by
  rw [ho]
  exact h

theorem Returns.emit {c : Cut} {f : Unit → P β} (h : c.Regular → Returns (f ()) R) : Returns (emit c >>= f) R := by
  unfold Returns at h ⊢
  rw [wp_bind, wp_emit]
  exact h

theorem Returns.ite {c : Prop} [Decidable c] {p q : P α} (hp : c → Returns p Q) (hq : ¬ c → Returns q Q) :
    Returns (if c then p else q) Q := by
  by_cases h : c
  · rw [if_pos h]
    exact hp h
  · rw [if_neg h]
    exact hq h

theorem Returns.failIf {c : Prop} [Decidable c] {message : String} (h : ¬ c → Returns p Q) :
    Returns (if c then Texts.fail message else p) Q := by
  apply Returns.ite
  · intro _
    exact .fail message
  · exact h

theorem Returns.mono {Q' : α → Prop} (hp : Returns p Q) (h : ∀ a, Q a → Q' a) : Returns p Q' := by
  refine wp_mono ?_ hp
  intro r _ hq
  cases r with
  | ok a => exact h a hq
  | error e =>
    cases e with
    | error message => exact trivial
    | stop => exact hq

end

-- `apply` looks for arguments in the target and would run the program
attribute [local irreducible] Returns

/-! ## Keywords -/

/-- A part of the text, with as many bytes as the keyword, starts at the offset. -/
def Found (text needle : List Char) (offset : Nat) : Prop :=
  ∃ p n r, text = p ++ n ++ r ∧ bytes p = offset ∧ bytes n = bytes needle

theorem Found.before {text needle : List Char} {i : Nat} (h : Found text needle i) : ∃ p, sliceTo text i = some p := by
  obtain ⟨p, n, r, rfl, rfl, -⟩ := h
  rw [List.append_assoc]
  exact ⟨p, sliceTo_append p (n ++ r)⟩

theorem Found.behind {text needle : List Char} {i : Nat} (h : Found text needle i) :
    ∃ r, sliceFrom text (i + bytes needle) = some r := by
  obtain ⟨p, n, r, rfl, rfl, hn⟩ := h
  rw [← hn, ← bytes_append]
  exact ⟨r, sliceFrom_append (p ++ n) r⟩

theorem returns_findIn (text : List Char) (copy : List (List Char)) (needle : List Char) :
    Returns (findIn text copy needle) fun o => ∀ i, o = some i → Found text needle i := by
  unfold findIn
  cases find needle copy.flatten with
  | none => exact .pure nofun
  | some i => exact .emit fun hc => .pure fun j hj => by cases hj; exact hc.split.1

theorem returns_rfindIn (text : List Char) (copy : List (List Char)) (needle : List Char) :
    Returns (rfindIn text copy needle) fun o => ∀ i, o = some i → Found text needle i := by
  unfold rfindIn
  cases rfind needle copy.flatten with
  | none => exact .pure nofun
  | some i => exact .emit fun hc => .pure fun j hj => by cases hj; exact hc.split.1

section
variable (m : CaseMapping)

theorem toUppercase_keyword {needle : List Char} (h : needle.all (fun c => c.toNat < 128 && c.toUpper = c) = true) :
    m.toUppercase needle = needle := by
  unfold CaseMapping.toUppercase CaseMapping.upperPieces
  induction needle with
  | nil => rfl
  | cons c needle ih =>
    rw [List.all_cons, Bool.and_eq_true, Bool.and_eq_true, decide_eq_true_iff, decide_eq_true_iff] at h
    rw [List.map_cons, List.flatten_cons, m.upper_ascii c h.1.1, h.1.2, ih h.2]
    rfl

theorem returns_findCi (haystack : List Char) {needle : String}
    (h : needle.toList.all (fun c => c.toNat < 128 && c.toUpper = c) = true) :
    Returns (findCi m haystack needle) fun o => ∀ i, o = some i → Found haystack needle.toList i := by
  unfold findCi
  rw [toUppercase_keyword m h]
  exact returns_findIn haystack _ _

theorem returns_afterStart (text : List Char) (start : String) : Returns (afterStart m text start) fun _ => True := by
  refine .emit fun hc => ?_
  obtain ⟨r, hr⟩ := Found.behind hc.split.1
  rw [Nat.zero_add] at hr
  rw [hr]
  exact .pure trivial

theorem returns_dollarQuotedBody (sql : List Char) : Returns (extractDollarQuotedBody sql) fun _ => True := by
  unfold extractDollarQuotedBody
  cases hstart : find "$$".toList sql with
  | none => exact .pure trivial
  | some start =>
    obtain ⟨p, r, hsql, hp⟩ := find_split hstart
    obtain ⟨tail, htail⟩ := Found.behind ⟨p, _, r, hsql, hp, rfl⟩
    refine Returns.orStop htail ?_
    cases hclose : find "$$".toList tail with
    | none => exact .pure trivial
    | some close =>
      obtain ⟨q, t, hsplit, hq⟩ := find_split hclose
      obtain ⟨body, hbody⟩ := Found.before ⟨q, _, t, hsplit, hq, rfl⟩
      exact .orStop hbody (.pure trivial)

/-! ## Parentheses -/

theorem matchParen_split : ∀ {s : List Char} {depth : Nat} {quoted : Bool} {idx close : Nat},
    matchParen depth quoted idx s = some close → ∃ v w, s = v ++ ')' :: w ∧ idx + bytes v = close
  | c :: s, depth, quoted, idx, close, h => by
    have hnext : ∀ {depth quoted}, matchParen depth quoted (idx + c.utf8Size) s = some close →
        ∃ v w, c :: s = v ++ ')' :: w ∧ idx + bytes v = close := by
      intro depth quoted h
      obtain ⟨v, w, rfl, rfl⟩ := matchParen_split h
      exact ⟨c :: v, w, rfl, by rw [bytes_cons, Nat.add_assoc]⟩
    rw [matchParen] at h
    split_ifs at h with hq hquoted hopen hclose hdepth
    · exact hnext h
    · exact hnext h
    · exact hnext h
    · cases h
      exact ⟨[], s, by rw [hclose]; rfl, rfl⟩
    · exact hnext h
    · exact hnext h

theorem findMatchingParen_split {s : List Char} {openIdx close : Nat} (h : findMatchingParen s openIdx = some close) :
    ∃ u v w, s = u ++ '(' :: (v ++ ')' :: w) ∧ bytes u = openIdx ∧ openIdx + 1 + bytes v = close := by
  unfold findMatchingParen at h
  split at h
  · rename_i rest hrest
    obtain ⟨u, hs, hu⟩ := sliceFrom_split hrest
    rw [matchParen, if_neg (by decide), if_neg nofun, if_pos rfl] at h
    obtain ⟨v, w, rfl, hclose⟩ := matchParen_split h
    exact ⟨u, v, w, hs, hu, hclose⟩
  · cases h

/-- The text between matching parentheses, and the text behind them. -/
theorem slices_of_matching {s : List Char} {openIdx close : Nat} (h : findMatchingParen s openIdx = some close) :
    (∃ v, slice s (openIdx + 1) close = some v) ∧ ∃ w, sliceFrom s (close + 1) = some w := by
  obtain ⟨u, v, w, rfl, hu, hclose⟩ := findMatchingParen_split h
  have hopen : bytes (u ++ ['(']) = openIdx + 1 := by
    rw [bytes_append, hu]
    rfl
  have hfront : bytes (u ++ ['('] ++ v ++ [')']) = close + 1 := by
    rw [bytes_append, bytes_append, hopen, hclose]
    rfl
  refine ⟨⟨v, ?_⟩, w, ?_⟩
  · rw [List.append_cons, ← List.append_assoc]
    exact slice_whole _ v _ hopen hclose
  · rw [← hfront, List.append_cons, ← List.append_assoc, List.append_cons]
    exact sliceFrom_append _ w

/-! ## Parsers -/

theorem returns_savepointName (trimmed : List Char) : Returns (savepointName m trimmed) fun _ => True :=
  (returns_afterStart m trimmed _).bind fun _ _ => .pure trivial

theorem returns_rollbackToName (trimmed : List Char) : Returns (rollbackToName m trimmed) fun _ => True :=
  (returns_afterStart m trimmed _).bind fun _ _ => .pure trivial

theorem returns_releaseName (trimmed : List Char) : Returns (releaseName m trimmed) fun _ => True :=
  (returns_afterStart m trimmed _).bind fun _ _ => .pure trivial

theorem returns_createMigration (versions : List Nat) (sql : List Char) :
    Returns (handleCreateMigration m versions sql) fun _ => True := by
  unfold handleCreateMigration
  apply Returns.bind (returns_afterStart m sql _)
  intro rest _
  apply Returns.okOr
  intro version _
  apply Returns.okOr
  intro afterVersion _
  apply Returns.bind (returns_findIn afterVersion _ _)
  intro o ho
  apply Returns.okOr
  intro asIdx hasIdx
  obtain ⟨description, hdescription⟩ := (ho asIdx hasIdx).before
  obtain ⟨body, hbody⟩ := (ho asIdx hasIdx).behind
  apply Returns.orStop hdescription
  apply Returns.orStop hbody
  apply Returns.okOr
  intro sqlBody _
  apply Returns.failIf
  intro _
  exact .pure trivial

theorem returns_migrate (sql : List Char) : Returns (handleMigrate m sql) fun _ => True := by
  unfold handleMigrate
  apply Returns.bind (returns_afterStart m sql _)
  intro rest _
  apply Returns.ite
  · intro _
    apply Returns.bind (returns_afterStart m _ _)
    intro v _
    apply Returns.okOr
    intro target _
    exact .pure trivial
  · intro _
    apply Returns.ite
    · intro _
      exact .pure trivial
    · intro _
      exact .fail _

theorem findChar_before {p : Char → Bool} {s : List Char} {i : Nat} (h : findChar p s = some i) :
    (∃ r, sliceTo s i = some r) ∧ ∃ r, sliceFrom s i = some r := by
  obtain ⟨before, c, after, rfl, -, rfl⟩ := findChar_split h
  exact ⟨⟨before, sliceTo_append before _⟩, c :: after, sliceFrom_append before _⟩

theorem returns_createFunction (sql : List Char) : Returns (parseCreateFunction m sql) fun _ => True := by
  unfold parseCreateFunction
  apply Returns.failIf
  intro _
  apply Returns.bind (returns_afterStart m _ _)
  intro rest _
  apply Returns.okOr
  intro openParen hopen
  obtain ⟨⟨name, hname⟩, -⟩ := findChar_before hopen
  apply Returns.orStop hname
  apply Returns.failIf
  intro _
  apply Returns.okOr
  intro closeParen hclose
  obtain ⟨⟨argsRaw, hargs⟩, tail, htail⟩ := slices_of_matching hclose
  apply Returns.orStop hargs
  apply Returns.orStop htail
  apply Returns.bind (returns_findCi m _ (by decide))
  intro o ho
  apply Returns.okOr
  intro returnsIdx hasReturns
  obtain ⟨afterReturns, hafter⟩ := (ho returnsIdx hasReturns).behind
  apply Returns.orStop hafter
  apply Returns.bind (returns_findCi m _ (by decide))
  intro o ho
  apply Returns.okOr
  intro asIdx hasAs
  obtain ⟨returnType, hreturnType⟩ := (ho asIdx hasAs).before
  obtain ⟨body, hbody⟩ := (ho asIdx hasAs).behind
  apply Returns.orStop hreturnType
  apply Returns.orStop hbody
  apply Returns.failIf
  intro _
  exact .pure trivial

theorem returns_dropFunction (sql : List Char) : Returns (parseDropFunction sql) fun _ => True := by
  unfold parseDropFunction
  apply Returns.failIf
  intro _
  apply Returns.failIf
  intro _
  apply Returns.okOr
  intro name _
  exact .pure trivial

theorem returns_createUser (sql : List Char) : Returns (handleCreateUser m sql) fun _ => True := by
  unfold handleCreateUser
  apply Returns.failIf
  intro _
  apply Returns.bind (returns_findCi m _ (by decide))
  intro o ho
  cases o with
  | none => exact .pure trivial
  | some idx =>
    obtain ⟨rest, hrest⟩ := (ho idx rfl).behind
    exact .orStop hrest (.pure trivial)

theorem returns_createProcedure (sql : List Char) : Returns (handleCreateProcedure m sql) fun _ => True := by
  unfold handleCreateProcedure
  apply Returns.failIf
  intro _
  apply Returns.bind (returns_afterStart m _ _)
  intro rest _
  apply Returns.okOr
  intro nameEnd hend
  obtain ⟨⟨name, hname⟩, -⟩ := findChar_before hend
  apply Returns.orStop hname
  apply Returns.bind (returns_dollarQuotedBody _)
  intro o _
  apply Returns.okOr
  intro body _
  exact .pure trivial

theorem returns_createTrigger (sql : List Char) : Returns (handleCreateTrigger m sql) fun _ => True := by
  unfold handleCreateTrigger
  apply Returns.failIf
  intro _
  apply Returns.bind (returns_afterStart m _ _)
  intro named _
  apply Returns.okOr
  intro nameEnd hend
  obtain ⟨⟨name, hname⟩, rest, hrest⟩ := findChar_before hend
  apply Returns.orStop hname
  apply Returns.orStop hrest
  apply Returns.okOr
  intro timing _
  apply Returns.bind (returns_afterStart m _ _)
  intro afterTiming _
  apply Returns.okOr
  intro event _
  apply Returns.bind (returns_afterStart m _ _)
  intro afterEvent _
  apply Returns.bind (returns_findCi m _ (by decide))
  intro o ho
  apply Returns.okOr
  intro onIdx hasOn
  obtain ⟨tablePart, htable⟩ := (ho onIdx hasOn).behind
  apply Returns.orStop htable
  apply Returns.bind (returns_findCi m _ (by decide))
  intro o ho
  apply Returns.okOr
  intro execIdx hasExec
  obtain ⟨table, htable⟩ := (ho execIdx hasExec).before
  apply Returns.orStop htable
  apply Returns.bind (returns_dollarQuotedBody _)
  intro o _
  apply Returns.okOr
  intro body _
  exact .pure trivial

theorem returns_dropTrigger (sql : List Char) : Returns (handleDropTrigger m sql) fun _ => True := by
  unfold handleDropTrigger
  apply Returns.failIf
  intro _
  apply Returns.bind (returns_afterStart m _ _)
  intro rest _
  apply Returns.okOr
  intro name _
  exact .pure trivial

/-- The last closing parenthesis is behind the first opening one. -/
theorem slice_of_parentheses {s : List Char} {opening closing : Nat} (hopen : findChar (· = '(') s = some opening)
    (hclose : rfind [')'] s = some closing) (h : ')' ∈ s.dropWhile (· ≠ '(')) : ∃ r, slice s (opening + 1) closing = some r := by
  obtain ⟨c, after, hdrop, hc, hopening⟩ := findChar_first hopen
  obtain rfl := of_decide_eq_true hc
  have hs : s = (s.takeWhile fun d => !decide (d = '(')) ++ '(' :: after := by
    rw [← hdrop, List.takeWhile_append_dropWhile]
  have hin : ')' ∈ after := by
    have hp : (fun d : Char => decide (d ≠ '(')) = fun d => !decide (d = '(') := by
      funext d
      exact decide_not
    rw [hp, hdrop] at h
    exact (List.mem_cons.mp h).resolve_left (by decide)
  revert hs hopening
  generalize (s.takeWhile fun d => !decide (d = '(')) = x
  rintro rfl rfl
  obtain ⟨y, z, rfl⟩ := List.append_of_mem hin
  obtain ⟨p, r, hp, rfl⟩ := rfind_split hclose
  have hx : bytes (x ++ ['(']) = bytes x + 1 := bytes_append x ['(']
  have hlast : bytes (x ++ ['('] ++ y) ≤ bytes p := rfind_last (r := z) hclose (by simp)
  rw [bytes_append, hx] at hlast
  rw [List.append_cons, List.append_assoc p] at hp
  obtain ⟨d, rfl, -⟩ := start_of_le hp (by rw [hx]; omega)
  refine ⟨d, ?_⟩
  rw [List.append_cons, hp]
  refine slice_whole _ d _ hx ?_
  rw [bytes_append _ d, hx]

theorem returns_createFulltextIndex (sql : List Char) : Returns (handleCreateFulltextIndex m sql) fun _ => True := by
  unfold handleCreateFulltextIndex
  apply Returns.failIf
  intro _
  apply Returns.bind (returns_afterStart m _ _)
  intro rest _
  apply Returns.bind (returns_findCi m _ (by decide))
  intro o ho
  apply Returns.okOr
  intro onIdx hasOn
  obtain ⟨name, hname⟩ := (ho onIdx hasOn).before
  obtain ⟨onRest, honRest⟩ := (ho onIdx hasOn).behind
  apply Returns.orStop hname
  apply Returns.orStop honRest
  apply Returns.okOr
  intro opening hopen
  apply Returns.okOr
  intro closing hclose
  obtain ⟨⟨table, htable⟩, -⟩ := findChar_before hopen
  apply Returns.orStop htable
  apply Returns.emit
  intro hc
  obtain ⟨columns, hcolumns⟩ := slice_of_parentheses hopen hclose hc
  apply Returns.orStop hcolumns
  apply Returns.failIf
  intro _
  exact .pure trivial

theorem returns_addReplica (sql : List Char) : Returns (handleAddReplica m sql) fun _ => True := by
  unfold handleAddReplica
  apply Returns.bind (returns_afterStart m _ _)
  intro rest _
  apply Returns.failIf
  intro _
  exact .pure trivial

theorem returns_removeReplica (sql : List Char) : Returns (handleRemoveReplica m sql) fun _ => True := by
  unfold handleRemoveReplica
  apply Returns.bind (returns_afterStart m _ _)
  intro rest _
  apply Returns.failIf
  intro _
  exact .pure trivial

theorem returns_selectCdc (sql : List Char) : Returns (handleSelectCdc m sql) fun _ => True := by
  unfold handleSelectCdc
  apply Returns.bind (returns_findIn _ _ _)
  intro o ho
  cases o with
  | none => exact .pure trivial
  | some idx =>
    obtain ⟨whereClause, hwhere⟩ := (ho idx rfl).behind
    apply Returns.orStop hwhere
    apply Returns.bind (returns_findIn _ _ _)
    intro o ho
    cases o with
    | none => exact .pure trivial
    | some eqIdx =>
      obtain ⟨rest, hrest⟩ := (ho eqIdx rfl).behind
      apply Returns.orStop hrest
      cases hpos : findChar (· = '=') rest with
      | none => exact .pure trivial
      | some pos =>
        obtain ⟨before, c, after, rfl, hc, rfl⟩ := findChar_split hpos
        obtain rfl := of_decide_eq_true hc
        have htable : sliceFrom (before ++ '=' :: after) (bytes before + 1) = some after := by
          have hfront : bytes (before ++ ['=']) = bytes before + 1 := bytes_append before ['=']
          rw [← hfront, List.append_cons]
          exact sliceFrom_append _ after
        exact .orStop htable (.pure trivial)

theorem returns_returningClause (sql : List Char) : Returns (extractReturningClause m sql) fun _ => True := by
  unfold extractReturningClause
  apply Returns.bind (returns_findIn _ _ _)
  intro o ho
  cases o with
  | none => exact .pure trivial
  | some idx =>
    obtain ⟨clause, hclause⟩ := (ho idx rfl).behind
    exact .orStop hclause (.pure trivial)

/-! ## DO -/

theorem lowerFrom_ne_nil {s : List Char} (hs : s ≠ []) (before : List Char) : (m.lowerFrom before s).flatten ≠ [] := by
  obtain ⟨c, rest, rfl⟩ := List.exists_cons_of_ne_nil hs
  rw [CaseMapping.lowerFrom, List.flatten_cons]
  exact fun h => m.lower_ne_nil before rest c (List.append_eq_nil_iff.mp h).1

theorem bytes_pos {s : List Char} (hs : s ≠ []) : 0 < bytes s := by
  obtain ⟨c, rest, rfl⟩ := List.exists_cons_of_ne_nil hs
  have := c.utf8Size_pos
  rw [bytes_cons]
  omega

theorem returns_standsAt {sql sqlLower : List Char} (hlower : ∀ c ∈ sqlLower, c.utf8Size = 1) (hbytes : bytes sqlLower = bytes sql)
    (varLower : List Char) (i : Nat) : Returns (standsAt sql sqlLower varLower i) fun _ => True := by
  unfold standsAt
  apply Returns.ite
  · intro hle
    rw [slice_single hlower (Nat.le_add_right i _) (hbytes ▸ hle)]
    exact .pure trivial
  · intro _
    exact .pure trivial

/-- Each round goes on by a byte at least, in texts of single bytes. -/
theorem returns_substituteFrom {sql sqlLower varLower : List Char} (hlower : ∀ c ∈ sqlLower, c.utf8Size = 1)
    (hbytes : bytes sqlLower = bytes sql) (hvar : varLower ≠ []) (value : List Char) :
    ∀ (rounds : Nat) (result : List Char) (i : Nat), bytes sql ≤ i + rounds →
      Returns (substituteFrom sql sqlLower varLower value rounds result i) fun _ => True := by
  intro rounds
  induction rounds with
  | zero =>
    intro result i hi
    rw [substituteFrom, if_pos (show bytes sql ≤ i from hi)]
    exact .pure trivial
  | succ rounds ih =>
    intro result i hi
    have hlen := bytes_pos hvar
    rw [substituteFrom]
    apply Returns.ite
    · intro _
      exact .pure trivial
    · intro _
      apply Returns.bind (returns_standsAt hlower hbytes varLower i)
      intro here _
      apply Returns.ite
      · intro _
        exact ih _ _ (by omega)
      · intro _
        exact ih _ _ (by omega)

theorem returns_substitutePlpgsqlVar (sql varName value : List Char) :
    Returns (substitutePlpgsqlVar m sql varName value) fun _ => True := by
  unfold substitutePlpgsqlVar
  apply Returns.ite
  · intro _
    exact .pure trivial
  · intro hname
    apply Returns.emit
    intro hc
    obtain ⟨hall, hkept⟩ := hc
    have hsingle : ∀ c ∈ sql, c.utf8Size = 1 := fun c hc => of_decide_eq_true (List.all_eq_true.mp hall c hc)
    exact returns_substituteFrom (hkept.single hsingle) hkept.bytes_eq (lowerFrom_ne_nil m hname []) value _ _ _ (Nat.le_add_left _ _)

theorem returns_substituteVars (vars : List (List Char × List Char)) :
    ∀ stmt, Returns (substituteVars m vars stmt) fun _ => True := by
  unfold substituteVars
  induction vars with
  | nil => exact fun stmt => .pure trivial
  | cons v vars ih =>
    intro stmt
    rw [List.foldlM_cons]
    exact (returns_substitutePlpgsqlVar m _ _ _).bind fun resolved _ => ih resolved

theorem returns_runStatements (exec : Nat → List Char → Except String Unit) (vars : List (List Char × List Char))
    (stmts : List (List Char)) : ∀ k, Returns (runStatements m exec vars k stmts) fun _ => True := by
  induction stmts with
  | nil => exact fun k => .pure trivial
  | cons stmt stmts ih =>
    intro k
    rw [runStatements]
    apply Returns.bind (returns_substituteVars m vars stmt)
    intro resolved _
    apply Returns.ite
    · intro _
      exact ih k
    · intro _
      cases exec k resolved with
      | error e => exact .fail e
      | ok u => exact (ih (k + 1)).bind fun rest _ => .pure trivial

theorem returns_blockSections (body : List Char) : Returns (blockSections m body) fun _ => True := by
  unfold blockSections
  apply Returns.bind (returns_findCi m _ (by decide))
  intro o ho
  cases o with
  | none => exact .pure trivial
  | some beginIdx =>
    obtain ⟨declare, hdeclare⟩ := (ho beginIdx rfl).before
    obtain ⟨exec, hexec⟩ := (ho beginIdx rfl).behind
    apply Returns.orStop hdeclare
    apply Returns.orStop hexec
    apply Returns.bind (returns_rfindIn _ _ _)
    intro o ho
    cases o with
    | none => exact .pure trivial
    | some endIdx =>
      obtain ⟨inner, hinner⟩ := (ho endIdx rfl).before
      exact .orStop hinner (.pure trivial)

theorem returns_declareBody (declareSection : List Char) : Returns (declareBody m declareSection) fun _ => True := by
  unfold declareBody
  apply Returns.ite
  · intro _
    exact (returns_afterStart m _ _).bind fun _ _ => .pure trivial
  · intro _
    exact .pure trivial

theorem returns_doBlock (exec : Nat → List Char → Except String Unit) (sql : List Char) :
    Returns (handleDoBlock m exec sql) fun _ => True := by
  unfold handleDoBlock
  apply Returns.bind (returns_dollarQuotedBody _)
  intro o _
  apply Returns.okOr
  intro body _
  apply Returns.bind (returns_blockSections m _)
  intro sections _
  apply Returns.bind (returns_declareBody m _)
  intro declared _
  exact (returns_runStatements m exec _ _ 0).bind fun stmts _ => .pure trivial

end

/-! ## Rewriting -/

section
variable (s : Session)

theorem length_pos_of_bytes {n needle : List Char} (h : bytes n = bytes needle) (hne : needle ≠ []) : 0 < n.length := by
  cases n with
  | nil => exact absurd h (by have := bytes_pos hne; rw [bytes_nil]; omega)
  | cons c n => exact Nat.succ_pos _

/-- Each round goes on behind the call that it has replaced. -/
theorem returns_expandNextvalFrom : ∀ (rounds calls : Nat) (done rest : List Char), rest.length < rounds →
    Returns (expandNextvalFrom s rounds calls (done ++ rest) (bytes done)) fun _ => True := by
  intro rounds
  induction rounds with
  | zero => exact fun _ _ _ h => absurd h (Nat.not_lt_zero _)
  | succ rounds ih =>
    intro calls done rest hlen
    rw [expandNextvalFrom]
    apply Returns.orStop (sliceFrom_append done rest)
    apply Returns.bind (returns_findIn _ _ _)
    intro o ho
    cases o with
    | none => exact .pure trivial
    | some relStart =>
      obtain ⟨p, n, r, rfl, rfl, hn⟩ := ho relStart rfl
      have hcall : sliceFrom (done ++ (p ++ n ++ r)) (bytes done + bytes p + bytes "nextval('".toList) = some r := by
        rw [← hn, ← bytes_append, ← bytes_append, ← List.append_assoc, ← List.append_assoc]
        exact sliceFrom_append _ r
      apply Returns.orStop hcall
      apply Returns.bind (returns_findIn _ _ _)
      intro o ho
      cases o with
      | none => exact .pure trivial
      | some nameEndRel =>
        obtain ⟨name, close, tail, rfl, rfl, hclose⟩ := ho nameEndRel rfl
        have hstart : bytes (done ++ p) = bytes done + bytes p := bytes_append done p
        have hname : bytes (done ++ p ++ n) = bytes done + bytes p + bytes "nextval('".toList := by
          rw [bytes_append, hstart, hn]
        have hend : bytes (done ++ p ++ n ++ name ++ close) = bytes done + bytes p + bytes "nextval('".toList + bytes name + 2 := by
          rw [bytes_append, bytes_append, hname, hclose]
          rfl
        have hslice : slice (done ++ (p ++ n ++ (name ++ close ++ tail))) (bytes done + bytes p + bytes "nextval('".toList)
            (bytes done + bytes p + bytes "nextval('".toList + bytes name) = some name := by
          rw [show done ++ (p ++ n ++ (name ++ close ++ tail)) = done ++ p ++ n ++ name ++ (close ++ tail) by simp only [List.append_assoc]]
          exact slice_whole _ name _ hname rfl
        have hhead : sliceTo (done ++ (p ++ n ++ (name ++ close ++ tail))) (bytes done + bytes p) = some (done ++ p) := by
          rw [show done ++ (p ++ n ++ (name ++ close ++ tail)) = done ++ p ++ (n ++ (name ++ close ++ tail)) by simp only [List.append_assoc],
            ← hstart]
          exact sliceTo_append (done ++ p) _
        have htail : sliceFrom (done ++ (p ++ n ++ (name ++ close ++ tail)))
            (bytes done + bytes p + bytes "nextval('".toList + bytes name + 2) = some tail := by
          rw [show done ++ (p ++ n ++ (name ++ close ++ tail)) = done ++ p ++ n ++ name ++ close ++ tail by simp only [List.append_assoc],
            ← hend]
          exact sliceFrom_append _ tail
        apply Returns.orStop hslice
        cases s.nextValue calls name with
        | error e => exact .fail e
        | ok value =>
          apply Returns.orStop hhead
          apply Returns.orStop htail
          have hnext := ih (calls + 1) (done ++ p ++ (toString value).toList) tail ?_
          · rw [bytes_append, hstart] at hnext
            exact hnext
          · have := length_pos_of_bytes hn (by decide)
            simp only [List.length_append] at hlen
            omega

theorem returns_nextvalCalls (sql : List Char) : Returns (expandNextvalCalls s sql) fun _ => True := by
  unfold expandNextvalCalls
  apply Returns.ite
  · intro _
    exact .pure trivial
  · intro _
    exact returns_expandNextvalFrom s (sql.length + 1) 0 [] sql (Nat.lt_succ_self _)

theorem returns_parseAsOf (sql : List Char) : Returns (parseAsOfTimestamp s sql) fun _ => True := by
  unfold parseAsOfTimestamp
  apply Returns.bind (returns_findIn _ _ _)
  intro o ho
  cases o with
  | none => exact .pure trivial
  | some idx =>
    obtain ⟨rest, hrest⟩ := (ho idx rfl).behind
    apply Returns.orStop hrest
    dsimp only
    cases stripStart [quoteChar] (trimStart rest) with
    | none => exact .pure trivial
    | some stripped =>
      dsimp only
      cases hclose : findChar (· = quoteChar) stripped with
      | none => exact .pure trivial
      | some close =>
        obtain ⟨⟨token, htoken⟩, -⟩ := findChar_before hclose
        exact .orStop htoken (.pure trivial)

theorem returns_stripAsOf (sql : List Char) : Returns (stripAsOfTimestamp s sql) fun _ => True := by
  unfold stripAsOfTimestamp
  apply Returns.bind (returns_findIn _ _ _)
  intro o ho
  cases o with
  | none => exact .pure trivial
  | some idx =>
    obtain ⟨rest, hrest⟩ := (ho idx rfl).behind
    obtain ⟨head, hhead⟩ := (ho idx rfl).before
    apply Returns.orStop hrest
    exact .orStop hhead (.pure trivial)

theorem returns_expandedCall (udf : UdfDef) {sql front e inner w : List Char} {args : List (List Char)} {start close : Nat}
    (hsql : sql = front ++ e ++ inner ++ w) (hstart : bytes front = start) (hclose : bytes (front ++ e ++ inner) = close + 1) :
    Returns (expandedCall udf sql args start close) fun _ => True := by
  unfold expandedCall
  apply Returns.ite
  · intro _
    exact .pure trivial
  · intro _
    have hcall : slice sql start (close + 1) = some (e ++ inner) := by
      rw [hsql, List.append_assoc front]
      refine slice_whole front _ w hstart ?_
      rw [← hclose, ← hstart, List.append_assoc front, bytes_append front]
    rw [hcall]
    exact .pure trivial

theorem returns_expandUdfFrom (udf : UdfDef) {sql needle : List Char} (hneedle : needle ≠ []) (lower : List (List Char)) :
    ∀ (rounds : Nat) (out a b : List Char), sql = a ++ b → b.length ≤ rounds →
      Returns (expandUdfFrom udf sql needle lower rounds out (bytes a)) fun _ => True := by
  intro rounds
  induction rounds with
  | zero =>
    intro out a b hsql hb
    obtain rfl := List.length_eq_zero_iff.mp (Nat.le_zero.mp hb)
    rw [expandUdfFrom, if_pos (by rw [hsql, List.append_nil])]
    exact .pure trivial
  | succ rounds ih =>
    intro out a b hsql hb
    rw [expandUdfFrom]
    apply Returns.ite
    · intro _
      exact .pure trivial
    · intro hlt
      apply Returns.emit
      intro hc
      obtain ⟨-, q, t, hlower, hq⟩ := hc.split
      have hrest : sliceFrom lower.flatten (bytes a) = some t := by
        rw [hlower, ← hq]
        exact sliceFrom_append q t
      apply Returns.orStop hrest
      cases find needle t with
      | none =>
        rw [hsql]
        exact .orStop (sliceFrom_append a b) (.pure trivial)
      | some rel =>
        apply Returns.emit
        intro hc
        obtain ⟨⟨p, n, r, hp, hstart, hn⟩, -⟩ := hc.split
        obtain ⟨d, rfl, rfl⟩ : ∃ d, p = a ++ d ∧ b = d ++ (n ++ r) := by
          refine start_of_le ?_ (hstart ▸ Nat.le_add_right _ _)
          rw [← hsql, hp, List.append_assoc]
        have hpos := length_pos_of_bytes hn hneedle
        have hbefore : sliceTo sql (bytes a + rel) = some (a ++ d) := by
          rw [← hstart, hp, List.append_assoc (a ++ d)]
          exact sliceTo_append (a ++ d) _
        apply Returns.orStop hbefore
        apply Returns.ite
        · intro _
          have hskipped : slice sql (bytes a) (bytes a + rel + bytes needle) = some (d ++ n) := by
            rw [hp, List.append_assoc a]
            refine slice_whole a _ r rfl ?_
            rw [← hstart, bytes_append, bytes_append, hn, Nat.add_assoc]
          apply Returns.orStop hskipped
          have hnext := ih (out ++ (d ++ n)) (a ++ d ++ n) r hp ?_
          · rw [bytes_append (a ++ d), hstart, hn] at hnext
            exact hnext
          · simp only [List.length_append] at hb
            omega
        · intro _
          apply Returns.okOr
          intro close hclose
          obtain ⟨⟨argsSrc, hargs⟩, -⟩ := slices_of_matching hclose
          obtain ⟨u, v, w, hu, hopening, hend⟩ := findMatchingParen_split hclose
          obtain ⟨e, rfl, -⟩ : ∃ e, u = a ++ d ++ e ∧ n ++ r = e ++ '(' :: (v ++ ')' :: w) := by
            refine start_of_le ?_ (by rw [hstart, hopening]; exact Nat.le_add_right _ _)
            rw [← hu, hp, List.append_assoc (a ++ d)]
          have hmiddle : slice sql (bytes a) (bytes a + rel) = some d := by
            rw [hp, List.append_assoc (a ++ d)]
            exact slice_whole a d _ rfl (by rw [← hstart, bytes_append])
          have hfront : bytes (a ++ d ++ e ++ '(' :: (v ++ [')'])) = close + 1 := by
            rw [bytes_append, hopening, ← hend]
            show _ + bytes ('(' :: (v ++ [')'])) = _
            rw [bytes_cons, bytes_append]
            show _ + (1 + (bytes v + 1)) = _
            omega
          have hwhole : sql = a ++ d ++ e ++ '(' :: (v ++ [')']) ++ w := by
            rw [hu]
            simp
          apply Returns.orStop hargs
          apply Returns.orStop hmiddle
          apply Returns.bind (returns_expandedCall udf hwhole hstart hfront)
          intro call _
          have hnext := ih (out ++ d ++ call) (a ++ d ++ e ++ '(' :: (v ++ [')'])) w hwhole ?_
          · rw [hfront] at hnext
            exact hnext
          · have hlen := congrArg List.length (hp.symm.trans hwhole)
            simp only [List.length_append, List.length_cons] at hb hlen
            omega

theorem returns_singleUdfCall (sql : List Char) (udf : UdfDef) : Returns (expandSingleUdfCall s sql udf) fun _ => True :=
  returns_expandUdfFrom udf (by simp) _ sql.length [] [] sql rfl (Nat.le_refl _)

theorem returns_userDefinedFunctions (sql : List Char) : Returns (expandUserDefinedFunctions s sql) fun _ => True := by
  unfold expandUserDefinedFunctions
  revert sql
  induction s.udfs.mergeSort fun a b => bytes b.name.toList ≤ bytes a.name.toList with
  | nil => exact fun sql => .pure trivial
  | cons udf udfs ih =>
    intro sql
    rw [List.foldlM_cons]
    exact (returns_singleUdfCall s sql udf).bind fun expanded _ => ih expanded

theorem returns_calls (sql : List Char) : Returns (expandCalls s sql) fun _ => True := by
  unfold expandCalls
  apply Returns.ite
  · intro _
    exact .pure trivial
  · intro _
    exact returns_userDefinedFunctions s sql

theorem returns_fulltextMatch (sql : List Char) : Returns (rewriteFulltextMatchSql s sql) fun _ => True := by
  unfold rewriteFulltextMatchSql
  apply Returns.bind (returns_findIn _ _ _)
  intro o ho
  cases o with
  | none => exact .pure trivial
  | some opening =>
    obtain ⟨p, n, r, rfl, rfl, hn⟩ := ho opening rfl
    obtain ⟨rem, hrem⟩ := Found.behind ⟨p, n, r, rfl, rfl, hn⟩
    have hr : sliceFrom (p ++ n ++ r) (bytes p + bytes "FTS_MATCH(".toList) = some r := by
      rw [← hn, ← bytes_append]
      exact sliceFrom_append _ r
    apply Returns.orStop hr
    cases hclose : findChar (· = ')') r with
    | none => exact .pure trivial
    | some close =>
      obtain ⟨before, c, after, rfl, hc, rfl⟩ := findChar_split hclose
      obtain rfl := of_decide_eq_true hc
      apply Returns.orStop (sliceTo_append before _)
      apply Returns.ite
      · intro _
        exact .pure trivial
      · intro _
        dsimp only
        split
        · exact .pure trivial
        · have hcall : slice (p ++ n ++ (before ++ ')' :: after)) (bytes p) (bytes p + bytes "FTS_MATCH(".toList + bytes before + 1) =
              some (n ++ before ++ [')']) := by
            rw [show p ++ n ++ (before ++ ')' :: after) = p ++ (n ++ before ++ [')']) ++ after by simp]
            refine slice_whole p _ after rfl ?_
            rw [bytes_append, bytes_append, hn, ← Nat.add_assoc, ← Nat.add_assoc]
            rfl
          exact .orStop hcall (.pure trivial)

/-! ## The dispatch -/

theorem returns_dispatchLater (sql trimmed upper : List Char) : Returns (dispatchLater s sql trimmed upper) fun _ => True := by
  unfold dispatchLater
  refine Returns.ite (fun _ => ?_) fun _ => ?_
  · exact Returns.bind (returns_savepointName _ _) fun name _ => Returns.pure trivial
  refine Returns.ite (fun _ => ?_) fun _ => ?_
  · exact Returns.bind (returns_rollbackToName _ _) fun name _ => Returns.pure trivial
  refine Returns.ite (fun _ => ?_) fun _ => ?_
  · exact Returns.bind (returns_releaseName _ _) fun name _ => Returns.pure trivial
  refine Returns.ite (fun _ => ?_) fun _ => ?_
  · exact returns_createMigration _ _ _
  refine Returns.ite (fun _ => ?_) fun _ => ?_
  · exact returns_migrate _ _
  refine Returns.ite (fun _ => ?_) fun _ => ?_
  · exact returns_addReplica _ _
  refine Returns.ite (fun _ => ?_) fun _ => ?_
  · exact returns_removeReplica _ _
  refine Returns.ite (fun _ => ?_) fun _ => ?_
  · exact Returns.pure trivial
  refine Returns.ite (fun _ => ?_) fun _ => ?_
  · exact Returns.bind (returns_returningClause _ _) fun clause _ => Returns.pure trivial
  exact Returns.pure trivial

theorem returns_dispatchText (sql trimmed upper : List Char) : Returns (dispatchText s sql trimmed upper) fun _ => True := by
  unfold dispatchText
  refine Returns.ite (fun _ => ?_) fun _ => ?_
  · exact Returns.pure trivial
  refine Returns.ite (fun _ => ?_) fun _ => ?_
  · exact returns_selectCdc _ _
  refine Returns.ite (fun _ => ?_) fun _ => ?_
  · exact Returns.pure trivial
  refine Returns.ite (fun _ => ?_) fun _ => ?_
  · exact Returns.pure trivial
  refine Returns.ite (fun _ => ?_) fun _ => ?_
  · exact returns_createFunction _ _
  refine Returns.ite (fun _ => ?_) fun _ => ?_
  · exact returns_dropFunction _
  refine Returns.ite (fun _ => ?_) fun _ => ?_
  · exact returns_createUser _ _
  refine Returns.ite (fun _ => ?_) fun _ => ?_
  · exact returns_createProcedure _ _
  refine Returns.ite (fun _ => ?_) fun _ => ?_
  · exact returns_doBlock _ _ _
  refine Returns.ite (fun _ => ?_) fun _ => ?_
  · exact returns_createFulltextIndex _ _
  refine Returns.ite (fun _ => ?_) fun _ => ?_
  · exact returns_createTrigger _ _
  refine Returns.ite (fun _ => ?_) fun _ => ?_
  · exact returns_dropTrigger _ _
  exact returns_dispatchLater s sql trimmed upper

theorem returns_dispatch (sql : List Char) : Returns (dispatch s sql) fun _ => True := returns_dispatchText s sql _ _

/-- **No slice panics** in a run whose cuts are regular. -/
theorem returns_execute (sql : List Char) : Returns (execute s sql) fun _ => True := by
  unfold execute
  apply Returns.bind (returns_nextvalCalls s sql)
  intro effective _
  apply Returns.bind (returns_parseAsOf s effective)
  intro o _
  cases o with
  | some timestampMs => exact (returns_stripAsOf s effective).bind fun bare _ => .pure trivial
  | none =>
    apply Returns.bind (returns_calls s effective)
    intro expanded _
    apply Returns.bind (returns_fulltextMatch s expanded)
    intro rewritten _
    exact returns_dispatch s rewritten

end

/-! ## Texts that stop -/

/-- The case mappings of ASCII, of `é`, `ß` and `ŉ`, and of letters without a case. -/
def someCases : CaseMapping where
  upper c := if c.toNat < 128 then [c.toUpper] else if c = 'é' then ['É'] else if c = 'ß' then ['S', 'S'] else if c = 'ŉ' then ['ʼ', 'N'] else [c]
  lower _ _ c := if c = 'É' then ['é'] else [c.toLower]
  upper_ascii c h := if_pos h
  lower_ne_nil before after c := by
    split <;> nofun

def plainSession : Session where
  unicode := someCases
  udfs := []
  fulltext := []
  versions := []
  nextValue _ _ := .ok 1
  parseTimestamp _ := none
  exec _ _ := .ok ()
  returns sql := "INSERT ".toList.isPrefixOf sql

def migrationText : List Char := "CREATE MIGRATION 1 é AS $$ INSERT INTO t VALUES ('ŉ') RETURNING a $$;".toList

def Stops (sql : String) : Prop := (execute plainSession sql.toList).result () = .error .stop

instance decidableStops (sql : String) : Decidable (Stops sql) :=
  match h : (execute plainSession sql.toList).result () with
  | .error .stop => isTrue h
  | .error (.error _) => isFalse fun h' => nomatch h.symm.trans h'
  | .ok _ => isFalse fun h' => nomatch h.symm.trans h'

end PotatoDB.Texts
