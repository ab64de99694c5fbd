import PotatoDB.LexemesSound
import PotatoDB.TextParsersSound

/-!
# The calls of nextval in a text

The calls of a text are replaced by the values of their sequences where the search in the copy of
the text finds them, and nothing else, at the offsets that they have in the text.
-/

namespace PotatoDB.Texts

open Oplog
open Slices (bytes find sliceFrom sliceTo slice sliceFrom_behind sliceTo_behind slice_behind slice_zero)

/-! ## The calls of a text -/

def loweredChar : Lexeme → Option Char
  | .char c => some c.toLower
  | _ => none

/-- A character that a name can go on with; all beyond ASCII are taken for letters. -/
def goesOn : Lexeme → Bool
  | .char c => c.isAlphanum || c = '_' || 128 ≤ c.toNat
  | _ => false

/-- The value of a literal, between its quotes. -/
def literalValue (text : List Char) : List Char := replaceFrom [quoteChar, quoteChar] [quoteChar] 0 (text.drop 1).dropLast

/-- The sequence of the call that a text starts with. -/
def calledSequence (ls : List Lexeme) : Option (List Char) :=
  if (ls.take 8).map loweredChar = "nextval(".toList.map some then
    match ls.drop 8 with
    | .literal text :: .char ')' :: _ => some (literalValue text)
    | _ => none
  else none

/-- The calls outside of literals and comments, each with the text before it, and the text behind the last one; the number
counts the lexemes left to skip. -/
def callsFrom : Nat → Bool → List Char → List Lexeme → List (List Char × List Char) × List Char
  | _, _, before, [] => ([], before)
  | skip + 1, _, before, _ :: ls => callsFrom skip false before ls
  | 0, inName, before, l :: ls =>
    match inName, calledSequence (l :: ls) with
    | false, some name =>
      let rest := callsFrom 9 false [] ls
      ((before, name) :: rest.1, rest.2)
    | _, _ => callsFrom 0 (goesOn l) (before ++ l.text) ls

def callsOf (ls : List Lexeme) : List (List Char × List Char) × List Char := callsFrom 0 false [] ls

/-- The text with a new value of its sequence for each call, from the left. -/
def replaced (nextValue : Nat → List Char → Except String Int) (tail : List Char) :
    Nat → List (List Char × List Char) → Except Failure (List Char)
  | _, [] => .ok tail
  | n, (before, name) :: calls =>
    match nextValue n name with
    | .error e => .error (.error e)
    | .ok value => (replaced nextValue tail (n + 1) calls).map fun rest => before ++ (toString value).toList ++ rest

/-! ## What the search finds -/

def CaseMapping.find (m : CaseMapping) (needle text : List Char) : Option Nat := Slices.find needle (m.lowerPieces text).flatten

def nextvalCall : List Char := "nextval('".toList

def callEnd : List Char := "')".toList

/-- The search in the copies finds these calls, at their offsets in the text. -/
inductive SearchFinds (m : CaseMapping) : List Char → List (List Char × List Char) → List Char → Prop
  | done {rest : List Char} (hstart : m.find nextvalCall rest = none) : SearchFinds m rest [] rest
  | unclosed {rest call : List Char} {start : Nat} (hstart : m.find nextvalCall rest = some start)
      (hcall : sliceFrom rest (start + bytes nextvalCall) = some call) (hclose : m.find callEnd call = none) : SearchFinds m rest [] rest
  | call {rest before call name after tail : List Char} {calls : List (List Char × List Char)} {start close : Nat}
      (hstart : m.find nextvalCall rest = some start) (hbefore : sliceTo rest start = some before)
      (hcall : sliceFrom rest (start + bytes nextvalCall) = some call) (hclose : m.find callEnd call = some close)
      (hname : sliceTo call close = some name) (hafter : sliceFrom call (close + 2) = some after)
      (hrest : SearchFinds m after calls tail) : SearchFinds m rest ((before, name) :: calls) tail

/-! ## One round -/

section
variable (s : Session)

theorem result_orStop {α β : Type} (o : Option α) (f : α → P β) :
    (orStop o >>= f).result () = match o with | some a => (f a).result () | none => .error .stop := by
  rw [Prog.result_bind]
  cases o <;> rfl

theorem result_findIn_copy {β : Type} (text : List Char) (copy : List (List Char)) (needle : List Char) (f : Option Nat → P β) :
    (findIn text copy needle >>= f).result () = (f (Slices.find needle copy.flatten)).result () := by
  rw [Prog.result_bind]
  unfold findIn
  cases Slices.find needle copy.flatten <;> rfl

theorem result_findIn {β : Type} (text needle : List Char) (f : Option Nat → P β) :
    (findIn text (s.unicode.lowerPieces text) needle >>= f).result () = (f (s.unicode.find needle text)).result () :=
  result_findIn_copy text (s.unicode.lowerPieces text) needle f

theorem expandNextvalFrom_round (rounds calls : Nat) (done rest : List Char) :
    (expandNextvalFrom s (rounds + 1) calls (done ++ rest) (bytes done)).result () =
      match s.unicode.find nextvalCall rest with
      | none => .ok (done ++ rest)
      | some start =>
        match sliceFrom rest (start + bytes nextvalCall) with
        | none => .error .stop
        | some call =>
          match s.unicode.find callEnd call with
          | none => .ok (done ++ rest)
          | some close =>
            match sliceTo call close with
            | none => .error .stop
            | some name =>
              match s.nextValue calls name with
              | .error e => .error (.error e)
              | .ok value =>
                match sliceTo rest start, sliceFrom call (close + 2) with
                | some before, some after =>
                  (expandNextvalFrom s rounds (calls + 1) (done ++ before ++ (toString value).toList ++ after)
                    (bytes (done ++ before ++ (toString value).toList))).result ()
                | _, _ => .error .stop := by
  have hrest : sliceFrom (done ++ rest) (bytes done) = some rest := Slices.sliceFrom_append done rest
  rw [expandNextvalFrom, result_orStop, hrest]
  dsimp only
  rw [result_findIn]
  rw [show "nextval('".toList = nextvalCall from rfl, show "')".toList = callEnd from rfl]
  cases s.unicode.find nextvalCall rest with
  | none => rfl
  | some start =>
    dsimp only
    rw [result_orStop, Nat.add_assoc, sliceFrom_behind]
    cases hcall : sliceFrom rest (start + bytes nextvalCall) with
    | none => rfl
    | some call =>
      dsimp only
      rw [result_findIn]
      cases s.unicode.find callEnd call with
      | none => rfl
      | some close =>
        dsimp only
        obtain ⟨p, rfl, hp⟩ := Slices.sliceFrom_split hcall
        rw [result_orStop, Nat.add_assoc, slice_behind, ← hp]
        have hname : slice (p ++ call) (bytes p) (bytes p + close) = sliceTo call close :=
          (slice_behind p call 0 close).trans (slice_zero call close)
        have hafter : ∀ k, sliceFrom (done ++ (p ++ call)) (bytes done + (bytes p + k)) = sliceFrom call k :=
          fun k => by rw [sliceFrom_behind, sliceFrom_behind]
        rw [hname]
        cases sliceTo call close with
        | none => rfl
        | some name =>
          dsimp only
          cases s.nextValue calls name with
          | error e => rfl
          | ok value =>
            dsimp only
            rw [result_orStop, sliceTo_behind]
            cases hbefore : sliceTo (p ++ call) start with
            | none => rfl
            | some before =>
              dsimp only [Option.map_some]
              rw [result_orStop, Nat.add_assoc, Nat.add_assoc, hafter]
              cases sliceFrom call (close + 2) with
              | none => rfl
              | some after =>
                obtain ⟨-, -, rfl⟩ := Slices.sliceTo_split hbefore
                dsimp only
                rw [Slices.bytes_append, Slices.bytes_append]

/-- The rounds keep what is done already. -/
theorem expandNextvalFrom_done (rounds : Nat) : ∀ (calls : Nat) (done rest : List Char),
    (expandNextvalFrom s rounds calls (done ++ rest) (bytes done)).result () =
      ((expandNextvalFrom s rounds calls rest 0).result ()).map (done ++ ·) := by
  induction rounds with
  | zero => exact fun _ _ _ => rfl
  | succ rounds ih =>
    intro calls done rest
    have hnil := expandNextvalFrom_round s rounds calls [] rest
    rw [List.nil_append] at hnil
    rw [expandNextvalFrom_round, show (0 : Nat) = bytes [] from rfl, hnil]
    cases s.unicode.find nextvalCall rest with
    | none => rfl
    | some start =>
      dsimp only
      cases sliceFrom rest (start + bytes nextvalCall) with
      | none => rfl
      | some call =>
        dsimp only
        cases s.unicode.find callEnd call with
        | none => rfl
        | some close =>
          dsimp only
          cases sliceTo call close with
          | none => rfl
          | some name =>
            dsimp only
            cases s.nextValue calls name with
            | error e => rfl
            | ok value =>
              dsimp only
              cases sliceTo rest start with
              | none => rfl
              | some before =>
                cases sliceFrom call (close + 2) with
                | none => rfl
                | some after =>
                  dsimp only
                  rw [ih, ih]
                  cases (expandNextvalFrom s rounds (calls + 1) after 0).result () with
                  | error e => rfl
                  | ok t => simp [Except.map]

/-- The text behind the last call, with the calls in it replaced. -/
def expandedRest (nextValue : Nat → List Char → Except String Int) (rounds calls : Nat) (rest : List Char) : Except Failure (List Char) :=
  (expandNextvalFrom { s with nextValue := nextValue } rounds calls rest 0).result ()

variable (nextValue : Nat → List Char → Except String Int)

theorem expandedRest_round (rounds calls : Nat) (rest : List Char) :
    expandedRest s nextValue (rounds + 1) calls rest =
      match s.unicode.find nextvalCall rest with
      | none => .ok rest
      | some start =>
        match sliceFrom rest (start + bytes nextvalCall) with
        | none => .error .stop
        | some call =>
          match s.unicode.find callEnd call with
          | none => .ok rest
          | some close =>
            match sliceTo call close with
            | none => .error .stop
            | some name =>
              match nextValue calls name with
              | .error e => .error (.error e)
              | .ok value =>
                match sliceTo rest start, sliceFrom call (close + 2) with
                | some before, some after =>
                  (expandedRest s nextValue rounds (calls + 1) after).map fun t => before ++ (toString value).toList ++ t
                | _, _ => .error .stop := by
  have hround := expandNextvalFrom_round { s with nextValue := nextValue } rounds calls [] rest
  simp only [expandNextvalFrom_done, List.nil_append] at hround
  exact hround

/-! ## The search against the calls -/

variable {s} {nextValue}

theorem length_sliceFrom {text rest : List Char} {i : Nat} (h : sliceFrom text i = some rest) : rest.length ≤ text.length := by
  obtain ⟨p, rfl, -⟩ := Slices.sliceFrom_split h
  rw [List.length_append]
  exact Nat.le_add_left _ _

theorem length_sliceFrom_lt {text rest : List Char} {i : Nat} (h : sliceFrom text i = some rest) (hi : 0 < i) :
    rest.length < text.length := by
  obtain ⟨p, rfl, hp⟩ := Slices.sliceFrom_split h
  cases p with
  | nil =>
    rw [Slices.bytes_nil] at hp
    omega
  | cons c p =>
    rw [List.cons_append, List.length_cons, List.length_append]
    omega

/-- What the search finds is replaced from the left. -/
theorem expandedRest_found {rest tail : List Char} {calls : List (List Char × List Char)}
    (h : SearchFinds s.unicode rest calls tail) (n : Nat) {rounds : Nat} (hrounds : rest.length < rounds) :
    expandedRest s nextValue rounds n rest = replaced nextValue tail n calls := by
  induction h generalizing n rounds with
  | done hstart =>
    obtain ⟨rounds, rfl⟩ := Nat.exists_eq_succ_of_ne_zero (Nat.ne_of_gt (Nat.lt_of_le_of_lt (Nat.zero_le _) hrounds))
    rw [expandedRest_round, hstart]
    rfl
  | unclosed hstart hcall hclose =>
    obtain ⟨rounds, rfl⟩ := Nat.exists_eq_succ_of_ne_zero (Nat.ne_of_gt (Nat.lt_of_le_of_lt (Nat.zero_le _) hrounds))
    rw [expandedRest_round, hstart]
    dsimp only
    rw [hcall]
    dsimp only
    rw [hclose]
    rfl
  | call hstart hbefore hcall hclose hname hafter hrest ih =>
    obtain ⟨rounds, rfl⟩ := Nat.exists_eq_succ_of_ne_zero (Nat.ne_of_gt (Nat.lt_of_le_of_lt (Nat.zero_le _) hrounds))
    have hshorter := length_sliceFrom_lt hcall (Nat.lt_of_lt_of_le (by decide) (Nat.le_add_left _ _))
    have hafterLen := length_sliceFrom hafter
    rw [expandedRest_round, hstart]
    dsimp only
    rw [hcall]
    dsimp only
    rw [hclose]
    dsimp only
    rw [hname, hbefore, hafter]
    dsimp only
    rw [ih (n + 1) (by omega)]
    rfl

/-- The rounds ask for the values from their number on. -/
theorem expandedRest_congr {nextValue nextValue' : Nat → List Char → Except String Int} (rounds : Nat) :
    ∀ (n : Nat) (rest : List Char), (∀ k, n ≤ k → nextValue k = nextValue' k) →
      expandedRest s nextValue rounds n rest = expandedRest s nextValue' rounds n rest := by
  induction rounds with
  | zero => exact fun _ _ _ => rfl
  | succ rounds ih =>
    intro n rest h
    have hrest := fun after => ih (n + 1) after fun k hk => h k (Nat.le_of_succ_le hk)
    rw [expandedRest_round, expandedRest_round, h n (Nat.le_refl n)]
    simp only [hrest]

theorem replaced_congr {nextValue nextValue' : Nat → List Char → Except String Int} (tail : List Char)
    (calls : List (List Char × List Char)) : ∀ n, (∀ k, n ≤ k → nextValue k = nextValue' k) →
      replaced nextValue tail n calls = replaced nextValue' tail n calls := by
  induction calls with
  | nil => exact fun _ _ => rfl
  | cons call calls ih =>
    intro n h
    rw [replaced, replaced, h n (Nat.le_refl n), ih (n + 1) fun k hk => h k (Nat.le_of_succ_le hk)]

theorem replaced_ok {f : Nat → Int} (tail : List Char) (calls : List (List Char × List Char)) :
    ∀ n, ∃ t, replaced (fun k _ => .ok (f k)) tail n calls = .ok t := by
  induction calls with
  | nil => exact fun _ => ⟨tail, rfl⟩
  | cons call calls ih =>
    intro n
    obtain ⟨t, ht⟩ := ih (n + 1)
    rw [replaced, ht]
    exact ⟨_, rfl⟩

/-- Two texts with a hole that agree with two values in it. -/
theorem hole_unique {c d : Char} (hcd : c ≠ d) {a x b y : List Char} (hc : a ++ c :: x = b ++ c :: y) (hd : a ++ d :: x = b ++ d :: y) :
    a = b ∧ x = y := by
  induction a generalizing b with
  | nil =>
    cases b with
    | nil => exact ⟨rfl, (List.cons.inj hc).2⟩
    | cons e b => exact absurd ((List.cons.inj hc).1.trans (List.cons.inj hd).1.symm) hcd
  | cons e a ih =>
    cases b with
    | nil => exact absurd ((List.cons.inj hc).1.symm.trans (List.cons.inj hd).1) hcd
    | cons e' b =>
      obtain ⟨rfl, hrest⟩ := List.cons.inj hc
      obtain ⟨rfl, hx⟩ := ih hrest (List.cons.inj hd).2
      exact ⟨rfl, hx⟩

/-- Where no value is asked for, the search has found no call. -/
theorem searchFinds_nil {rest tail : List Char} {rounds n : Nat}
    (h : expandedRest s (fun _ _ => .error "") (rounds + 1) n rest = .ok tail) : SearchFinds s.unicode rest [] tail := by
  rw [expandedRest_round] at h
  cases hstart : s.unicode.find nextvalCall rest with
  | none =>
    rw [hstart] at h
    cases h
    exact .done hstart
  | some start =>
    rw [hstart] at h
    dsimp only at h
    cases hcall : sliceFrom rest (start + bytes nextvalCall) with
    | none =>
      rw [hcall] at h
      cases h
    | some call =>
      rw [hcall] at h
      dsimp only at h
      cases hclose : s.unicode.find callEnd call with
      | none =>
        rw [hclose] at h
        cases h
        exact .unclosed hstart hcall hclose
      | some close =>
        rw [hclose] at h
        dsimp only at h
        cases hname : sliceTo call close with
        | none =>
          rw [hname] at h
          cases h
        | some name =>
          rw [hname] at h
          cases h

/-- A round in which a value is asked for. -/
structure Asks (s : Session) (rest name : List Char) (start : Nat) (call : List Char) (close : Nat) : Prop where
  findsStart : s.unicode.find nextvalCall rest = some start
  slicesCall : sliceFrom rest (start + bytes nextvalCall) = some call
  findsClose : s.unicode.find callEnd call = some close
  slicesName : sliceTo call close = some name

theorem exists_asks {rest : List Char} {rounds n : Nat} {name : List Char}
    (h : expandedRest s (fun _ m => .error (String.ofList m)) (rounds + 1) n rest = .error (.error (String.ofList name))) :
    ∃ start call close, Asks s rest name start call close := by
  rw [expandedRest_round] at h
  cases hstart : s.unicode.find nextvalCall rest with
  | none =>
    rw [hstart] at h
    cases h
  | some start =>
    rw [hstart] at h
    dsimp only at h
    cases hcall : sliceFrom rest (start + bytes nextvalCall) with
    | none =>
      rw [hcall] at h
      cases h
    | some call =>
      rw [hcall] at h
      dsimp only at h
      cases hclose : s.unicode.find callEnd call with
      | none =>
        rw [hclose] at h
        cases h
      | some close =>
        rw [hclose] at h
        dsimp only at h
        cases hname : sliceTo call close with
        | none =>
          rw [hname] at h
          cases h
        | some name' =>
          rw [hname] at h
          have hsame := congrArg String.toList (Failure.error.inj (Except.error.inj h))
          rw [String.toList_ofList, String.toList_ofList] at hsame
          exact ⟨start, call, close, hstart, hcall, hclose, hsame ▸ hname⟩

theorem Asks.round {rest name call : List Char} {start close : Nat} (h : Asks s rest name start call close) (rounds n : Nat) :
    expandedRest s nextValue (rounds + 1) n rest =
      match nextValue n name with
      | .error e => .error (.error e)
      | .ok value =>
        match sliceTo rest start, sliceFrom call (close + 2) with
        | some before, some after =>
          (expandedRest s nextValue rounds (n + 1) after).map fun t => before ++ (toString value).toList ++ t
        | _, _ => .error .stop := by
  rw [expandedRest_round, h.findsStart]
  dsimp only
  rw [h.slicesCall]
  dsimp only
  rw [h.findsClose]
  dsimp only
  rw [h.slicesName]

theorem map_inj {α β : Type} {f : α → β} (hf : ∀ a b, f a = f b → a = b) {x y : Except Failure α} (h : x.map f = y.map f) : x = y := by
  cases x with
  | error e =>
    cases y with
    | error e' => exact congrArg Except.error (Except.error.inj h)
    | ok b => cases h
  | ok a =>
    cases y with
    | error e' => cases h
    | ok b => exact congrArg Except.ok (hf a b (Except.ok.inj h))

/-- The text before a call and the text behind it are told by two values of the call. -/
theorem Asks.slices {rest name call before tail : List Char} {start close rounds n : Nat} {calls : List (List Char × List Char)}
    (h : Asks s rest name start call close)
    (hexact : ∀ nextValue, expandedRest s nextValue (rounds + 1) n rest = replaced nextValue tail n ((before, name) :: calls)) :
    sliceTo rest start = some before ∧ ∃ after, sliceFrom call (close + 2) = some after := by
  have hvalue : ∀ v : Int, (match sliceTo rest start, sliceFrom call (close + 2) with
      | some before, some after =>
        (expandedRest s (fun _ _ => .ok 0) rounds (n + 1) after).map fun t => before ++ (toString v).toList ++ t
      | _, _ => .error .stop) =
      (replaced (fun _ _ => .ok 0) tail (n + 1) calls).map fun t => before ++ (toString v).toList ++ t := by
    intro v
    have hrun := hexact fun k _ => .ok (if k = n then v else 0)
    have hother : ∀ k, n + 1 ≤ k → (fun _ : List Char => (.ok (if k = n then v else 0) : Except String Int)) = fun _ => .ok 0 := by
      intro k hk
      rw [if_neg (by omega)]
    rw [h.round, replaced, if_pos rfl] at hrun
    dsimp only at hrun
    rw [replaced_congr tail calls (n + 1) hother] at hrun
    simp only [expandedRest_congr rounds (n + 1) _ hother] at hrun
    exact hrun
  obtain ⟨t, ht⟩ := @replaced_ok (fun _ => 0) tail calls (n + 1)
  have hseven := hvalue 7
  have height := hvalue 8
  rw [ht] at hseven height
  cases hbefore : sliceTo rest start with
  | none =>
    rw [hbefore] at hseven
    cases hseven
  | some before' =>
    cases hafter : sliceFrom call (close + 2) with
    | none =>
      rw [hbefore, hafter] at hseven
      cases hseven
    | some after =>
      rw [hbefore, hafter] at hseven height
      dsimp only at hseven height
      cases hx : expandedRest s (fun _ _ => .ok 0) rounds (n + 1) after with
      | error e =>
        rw [hx] at hseven
        cases hseven
      | ok x =>
        rw [hx] at hseven height
        have hc : before' ++ '7' :: x = before ++ '7' :: t := by
          simpa [show (Int.repr 7).toList = ['7'] from rfl] using Except.ok.inj hseven
        have hd : before' ++ '8' :: x = before ++ '8' :: t := by
          simpa [show (Int.repr 8).toList = ['8'] from rfl] using Except.ok.inj height
        exact ⟨congrArg some (hole_unique (by decide) hc hd).1, after, rfl⟩

theorem found_of_exact {tail : List Char} (calls : List (List Char × List Char)) : ∀ {rounds : Nat} (n : Nat) {rest : List Char},
    rest.length < rounds → (∀ nextValue, expandedRest s nextValue rounds n rest = replaced nextValue tail n calls) →
      SearchFinds s.unicode rest calls tail := by
  induction calls with
  | nil =>
    intro rounds n rest hrounds h
    obtain ⟨rounds, rfl⟩ := Nat.exists_eq_succ_of_ne_zero (Nat.ne_of_gt (Nat.lt_of_le_of_lt (Nat.zero_le _) hrounds))
    exact searchFinds_nil (h _)
  | cons c calls ih =>
    obtain ⟨before, name⟩ := c
    intro rounds n rest hrounds h
    obtain ⟨rounds, rfl⟩ := Nat.exists_eq_succ_of_ne_zero (Nat.ne_of_gt (Nat.lt_of_le_of_lt (Nat.zero_le _) hrounds))
    obtain ⟨start, call, close, hasks⟩ := exists_asks (h fun _ m => .error (String.ofList m))
    obtain ⟨hbefore, after, hafter⟩ := hasks.slices h
    have hlen := length_sliceFrom_lt hasks.slicesCall (Nat.lt_of_lt_of_le (by decide) (Nat.le_add_left _ _))
    have hafterLen := length_sliceFrom hafter
    refine .call hasks.findsStart hbefore hasks.slicesCall hasks.findsClose hasks.slicesName hafter (@ih rounds (n + 1) after (by omega) ?_)
    intro nextValue
    -- whatever the other values are
    have hrun := h fun k m => if k = n then .ok 0 else nextValue k m
    have hother : ∀ k, n + 1 ≤ k → (fun m => if k = n then (.ok 0 : Except String Int) else nextValue k m) = nextValue k := by
      intro k hk
      funext m
      rw [if_neg (by omega)]
    rw [hasks.round, replaced, if_pos rfl, hbefore, hafter] at hrun
    dsimp only at hrun
    rw [replaced_congr tail calls (n + 1) hother, expandedRest_congr rounds (n + 1) after hother] at hrun
    exact map_inj (fun a b hab => List.append_cancel_left hab) hrun

theorem expandNextvalCalls_eq (sql : List Char) :
    (expandNextvalCalls { s with nextValue := nextValue } sql).result () = expandedRest s nextValue (sql.length + 1) 0 sql := by
  show (if (find nextvalCall (s.unicode.toLowercase sql)).isNone = true then (pure sql : P (List Char)) else _).result () = _
  by_cases hnone : (find nextvalCall (s.unicode.toLowercase sql)).isNone = true
  · have hfind : s.unicode.find nextvalCall sql = none := Option.isNone_iff_eq_none.mp hnone
    rw [if_pos hnone, expandedRest_round, hfind]
    rfl
  · rw [if_neg hnone]
    rfl

end

/-! ## The text around the calls -/

/-- A text is its calls, each behind the text before it, and the text behind the last one. -/
inductive CallsIn : List Char → List (List Char × List Char) → List Char → Prop
  | done {tail : List Char} : CallsIn tail [] tail
  | call {before word text rest tail : List Char} {calls : List (List Char × List Char)}
      (hword : word.map Char.toLower = "nextval(".toList) (hrest : CallsIn rest calls tail) :
      CallsIn (before ++ word ++ text ++ ')' :: rest) ((before, literalValue text) :: calls) tail

theorem callsFrom_skip (before : List Char) : ∀ (skip : Nat) (ls : List Lexeme),
    callsFrom skip false before ls = callsFrom 0 false before (ls.drop skip)
  | 0, _ => rfl
  | skip + 1, [] => rfl
  | skip + 1, _ :: ls => by
    rw [callsFrom, List.drop_succ_cons]
    exact callsFrom_skip before skip ls

theorem word_of_lowered {word : List Char} : ∀ {ls : List Lexeme}, ls.map loweredChar = word.map some →
    ∃ cs : List Char, ls = cs.map .char ∧ cs.map Char.toLower = word := by
  induction word with
  | nil =>
    intro ls h
    rw [List.map_eq_nil_iff.mp h]
    exact ⟨[], rfl, rfl⟩
  | cons d word ih =>
    intro ls h
    cases ls with
    | nil => cases h
    | cons l ls =>
      obtain ⟨hl, hrest⟩ := List.cons.inj h
      obtain ⟨cs, rfl, rfl⟩ := ih hrest
      cases l with
      | char c => exact ⟨c :: cs, rfl, by rw [List.map_cons, Option.some.inj hl]⟩
      | literal | openLiteral | comment | semicolon => cases hl

theorem calledSequence_eq_some {ls : List Lexeme} {name : List Char} (h : calledSequence ls = some name) :
    ∃ (word text : List Char) (rest : List Lexeme), ls = word.map .char ++ .literal text :: .char ')' :: rest ∧
      word.map Char.toLower = "nextval(".toList ∧ literalValue text = name := by
  unfold calledSequence at h
  by_cases hword : (ls.take 8).map loweredChar = "nextval(".toList.map some
  · rw [if_pos hword] at h
    obtain ⟨word, htake, hlower⟩ := word_of_lowered hword
    split at h
    · rename_i text rest hdrop
      refine ⟨word, text, rest, ?_, hlower, Option.some.inj h⟩
      rw [← htake, ← hdrop, List.take_append_drop]
    · cases h
  · rw [if_neg hword] at h
    cases h

theorem callsIn_callsFrom (n : Nat) : ∀ (inName : Bool) (before : List Char) (ls : List Lexeme), ls.length ≤ n →
    CallsIn (before ++ ls.flatMap Lexeme.text) (callsFrom 0 inName before ls).1 (callsFrom 0 inName before ls).2 := by
  induction n with
  | zero =>
    intro inName before ls hn
    rw [List.length_eq_zero_iff.mp (Nat.le_zero.mp hn), List.flatMap_nil, List.append_nil]
    exact .done
  | succ n ih =>
    intro inName before ls hn
    cases ls with
    | nil =>
      rw [List.flatMap_nil, List.append_nil]
      exact .done
    | cons l ls =>
      have hother := ih (goesOn l) (before ++ l.text) ls (Nat.le_of_succ_le_succ hn)
      rw [List.append_assoc] at hother
      rw [callsFrom.eq_def]
      dsimp only
      split
      · rename_i name hname
        obtain ⟨word, text, rest, heq, hword, rfl⟩ := calledSequence_eq_some hname
        have hlen : word.length = 8 := by rw [← List.length_map, hword]; rfl
        have hdrop : ls.drop 9 = rest := by
          have hten : (l :: ls).drop 10 = rest := by
            rw [heq, List.drop_append, List.drop_of_length_le (by simp [hlen]), List.length_map, hlen]
            rfl
          exact hten
        have hrest := ih false [] (ls.drop 9) (by simp at hn ⊢; omega)
        rw [← callsFrom_skip, List.nil_append, hdrop] at hrest
        have htext : (l :: ls).flatMap Lexeme.text = word ++ text ++ ')' :: rest.flatMap Lexeme.text := by
          rw [heq]
          simp [List.flatMap_map, Lexeme.text]
        rw [htext, ← List.append_assoc, ← List.append_assoc]
        exact .call hword hrest
      · exact hother

/-- **The calls of nextval are replaced exactly** when the search in the copies finds them and nothing else, at the offsets
that they have in the text. -/
theorem expand_nextval_calls_exact (s : Session) (sql : List Char) :
    ∃ ls, Lexes sql ls ∧ (∀ ls', Lexes sql ls' → ls' = ls) ∧ CallsIn sql (callsOf ls).1 (callsOf ls).2 ∧
      ((∀ nextValue, (expandNextvalCalls { s with nextValue := nextValue } sql).result () =
          replaced nextValue (callsOf ls).2 0 (callsOf ls).1) ↔
        SearchFinds s.unicode sql (callsOf ls).1 (callsOf ls).2) := by
  obtain ⟨ls, hls⟩ := exists_lexes sql
  have hparts := callsIn_callsFrom ls.length false [] ls (Nat.le_refl _)
  rw [List.nil_append, hls.flatMap_text] at hparts
  refine ⟨ls, hls, fun ls' hls' => hls'.unique hls, hparts, fun h => ?_, fun h nextValue => ?_⟩
  · refine found_of_exact _ 0 (Nat.lt_succ_self _) fun nextValue => ?_
    rw [← expandNextvalCalls_eq]
    exact h nextValue
  · rw [expandNextvalCalls_eq]
    exact expandedRest_found h 0 (Nat.lt_succ_self _)

/-- The letters of `someCases` and the dotted capital I, whose small form is a character longer. -/
def dottedCases : CaseMapping where
  upper := someCases.upper
  lower before after c := if c = 'İ' then ['i', '\u0307'] else someCases.lower before after c
  upper_ascii := someCases.upper_ascii
  lower_ne_nil before after c := by
    by_cases hc : c = 'İ'
    · simp [hc]
    · rw [if_neg hc]
      exact someCases.lower_ne_nil before after c

def dottedSession : Session := { plainSession with unicode := dottedCases }

instance decidableStop {α : Type} (r : Except Failure α) : Decidable (r = .error .stop) :=
  match r with
  | .error .stop => isTrue rfl
  | .error (.error _) => isFalse nofun
  | .ok _ => isFalse nofun

instance decidableOk {α : Type} [DecidableEq α] (r : Except Failure α) (a : α) : Decidable (r = .ok a) :=
  match r with
  | .error _ => isFalse nofun
  | .ok b => decidable_of_iff (b = a) ⟨congrArg _, fun h => by cases h; rfl⟩

def expandedNextval (sql : String) : Except Failure (List Char) := (expandNextvalCalls dottedSession sql.toList).result ()

/-- The call in a comment and the end of a longer word are replaced, and the copy of `İ` is longer by a byte. -/
theorem nextval_in_comment_advances :
    expandedNextval "--nextval('s')" = .ok "--1".toList ∧ expandedNextval "mynextval('s')" = .ok "my1".toList ∧
    expandedNextval "SELECT 'İ', nextval('é')" = .error .stop ∧
    ¬ ∀ (s : Session) (sql : List Char) (ls : List Lexeme), Lexes sql ls →
      (expandNextvalCalls s sql).result () = replaced s.nextValue (callsOf ls).2 0 (callsOf ls).1 := by
  refine ⟨by decide +kernel, by decide +kernel, by decide +kernel, fun h => ?_⟩
  have hcomment := h dottedSession "--nextval('s')".toList _ (@Lexes.openLine "nextval('s')".toList (by decide))
  have hread : (expandNextvalCalls dottedSession "--nextval('s')".toList).result () = .ok "--1".toList := by decide +kernel
  rw [hread] at hcomment
  exact absurd (Except.ok.inj hcomment) (by decide +kernel)

/-- The calls in both letter cases are found. -/
example : ∃ calls, SearchFinds dottedCases "SELECT NEXTVAL('s'), nextval('t');".toList calls ";".toList ∧
    calls = [("SELECT ".toList, ['s']), (", ".toList, ['t'])] := by
  refine ⟨_, ?_, rfl⟩
  refine @SearchFinds.call _ _ _ "s'), nextval('t');".toList _ ", nextval('t');".toList _ _ 7 1
    (by decide +kernel) (by decide +kernel) (by decide +kernel) (by decide +kernel) (by decide +kernel) (by decide +kernel) ?_
  refine @SearchFinds.call _ _ _ "t');".toList _ ";".toList _ _ 2 1
    (by decide +kernel) (by decide +kernel) (by decide +kernel) (by decide +kernel) (by decide +kernel) (by decide +kernel) ?_
  exact .done (by decide +kernel)

end PotatoDB.Texts
