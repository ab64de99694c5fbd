import PotatoDB.Nextval
import PotatoDB.UdfOrder

/-!
# Variables of a block in a statement

A variable is written over byte by byte and without a look at quotes. The result is the text with the references of the variable
replaced exactly if this walk meets the references and otherwise single bytes.
-/

namespace PotatoDB.Texts

open Oplog
open Slices

/-! ## References -/

/-- Where in a text a character stands. The second character of a comment mark is read for itself. -/
inductive Mode where
  | code
  | literal
  | quoted
  | lineComment
  | blockComment (depth : Nat)
  | mark (depth : Nat)

namespace Mode

def next : Mode → Char → Option Char → Mode
  | code, c, after =>
    if c = quoteChar then literal
    else if c = '"' then quoted
    else if c = '-' ∧ after = some '-' then lineComment
    else if c = '/' ∧ after = some '*' then mark 1
    else code
  | literal, c, _ => if c = quoteChar then code else literal
  | quoted, c, _ => if c = '"' then code else quoted
  | lineComment, c, _ => if c = '\n' then code else lineComment
  | blockComment depth, c, after =>
    if c = '*' ∧ after = some '/' then mark (depth - 1)
    else if c = '/' ∧ after = some '*' then mark (depth + 1)
    else blockComment depth
  | mark depth, _, _ => if depth = 0 then code else blockComment depth

/-- Outside of string literals and quoted identifiers, their quotes included. -/
def isOutside : Mode → Char → Bool
  | code, c => c ≠ quoteChar && c ≠ '"'
  | literal, _ | quoted, _ => false
  | lineComment, _ | blockComment _, _ | mark _, _ => true

end Mode

/-- The characters of a text, each with whether it is outside of literals and quoted identifiers. -/
def marked : Mode → List Char → List (Char × Bool)
  | _, [] => []
  | mode, c :: cs => (c, mode.isOutside c) :: marked (mode.next c cs.head?) cs

/-- A character of a word; as in PostgreSQL all characters beyond ASCII are. -/
def isWordPart (c : Char) : Bool := c.isAlphanum || c = '_' || decide (127 < c.toNat)

/-- The name stands at the start of a text as a whole word of so many characters, all of them outside. -/
def standsFor (m : CaseMapping) (name : List Char) (prev : Option Char) (text : List (Char × Bool)) (k : Nat) : Bool :=
  ((text.take k).all Prod.snd && m.toLowercase ((text.take k).map Prod.fst) == m.toLowercase name) &&
    (!prev.any isWordPart && !(text[k]?.map Prod.fst).any isWordPart)

/-- The length of a reference at the start of a text. -/
def reference (m : CaseMapping) (name : List Char) (prev : Option Char) (text : List (Char × Bool)) : Option Nat :=
  ((List.range text.length).map (· + 1)).find? (standsFor m name prev text)

inductive Part where
  | reference
  | char (c : Char)
deriving DecidableEq

def Part.filled (value : List Char) : Part → List Char
  | reference => value
  | char c => [c]

/-- The references of a name in a text and the characters between them, from the left. The first characters can belong to a
reference before them. -/
def partsFrom (m : CaseMapping) (name : List Char) : Option Char → Nat → List (Char × Bool) → List Part
  | _, _, [] => []
  | _, skip + 1, (c, _) :: text => partsFrom m name (some c) skip text
  | prev, 0, (c, isOutside) :: text =>
    match reference m name prev ((c, isOutside) :: text) with
    | some k => .reference :: partsFrom m name (some c) (k - 1) text
    | none => .char c :: partsFrom m name (some c) 0 text

def partsOf (m : CaseMapping) (name sql : List Char) : List Part := partsFrom m name none 0 (marked .code sql)

/-- As if no character were in a literal or a quoted identifier. -/
def unquotedPartsOf (m : CaseMapping) (name sql : List Char) : List Part := partsFrom m name none 0 (sql.map fun c => (c, true))

/-- The text with a value for the references of a name. -/
def substituted (m : CaseMapping) (name value sql : List Char) : List Char := (partsOf m name sql).flatMap (Part.filled value)

/-! ## The walk -/

/-- What the loop finds at a byte, unless a slice stops it. -/
def foundAt (sql sqlLower varLower : List Char) (i : Nat) : Option Bool :=
  let len := bytes varLower
  (if i + len ≤ bytes sql then (slice sqlLower i (i + len)).map (· == varLower) else some false).map fun here =>
    here && decide ((i = 0 ∨ isPlpgsqlIdentifierChar ((utf8 sql).getD (i - 1) 0) = false) ∧
      (bytes sql ≤ i + len ∨ isPlpgsqlIdentifierChar ((utf8 sql).getD (i + len) 0) = false))

/-- From a byte on the loop meets these parts: it finds the name at the references and nowhere else, and every other part is
the character with the number of the byte. -/
inductive InStep (sql sqlLower varLower : List Char) : Nat → List Part → Prop
  | done {i : Nat} (hi : bytes sql ≤ i) : InStep sql sqlLower varLower i []
  | reference {i : Nat} {ps : List Part} (hi : i < bytes sql) (hfound : foundAt sql sqlLower varLower i = some true)
      (hrest : InStep sql sqlLower varLower (i + bytes varLower) ps) : InStep sql sqlLower varLower i (.reference :: ps)
  | char {i : Nat} {ps : List Part} (hi : i < bytes sql) (hfound : foundAt sql sqlLower varLower i = some false)
      (hrest : InStep sql sqlLower varLower (i + 1) ps) :
      InStep sql sqlLower varLower i (.char (Char.ofNat ((utf8 sql).getD i 0).toNat) :: ps)

section
variable {sql sqlLower varLower : List Char} (hvar : 0 < bytes varLower)

/-- A round of the loop in which the name stands at the byte or does not. -/
theorem result_round {here : Bool} {alone : Prop} [Decidable alone] (a b : P (List Char)) :
    (if here = true ∧ alone then a else b).result () = match some (here && decide alone) with
      | none => .error .stop
      | some true => a.result ()
      | some false => b.result () := by
  by_cases h : here = true ∧ alone
  · rw [if_pos h, h.1, decide_eq_true h.2]
    rfl
  · have hfound : (here && decide alone) = false := by
      rw [Bool.and_eq_false_iff, decide_eq_false_iff_not]
      by_cases hhere : here = true
      · exact .inr fun halone => h ⟨hhere, halone⟩
      · exact .inl (Bool.not_eq_true _ ▸ hhere)
    rw [if_neg h, hfound]

theorem substituteFrom_succ (value : List Char) (rounds : Nat) (result : List Char) {i : Nat} (hi : i < bytes sql) :
    (substituteFrom sql sqlLower varLower value (rounds + 1) result i).result () =
      match foundAt sql sqlLower varLower i with
      | none => .error .stop
      | some true => (substituteFrom sql sqlLower varLower value rounds (result ++ value) (i + bytes varLower)).result ()
      | some false => (substituteFrom sql sqlLower varLower value rounds
          (result ++ [Char.ofNat ((utf8 sql).getD i 0).toNat]) (i + 1)).result () := by
  rw [substituteFrom, if_neg (Nat.not_le.mpr hi)]
  dsimp only
  rw [standsAt, foundAt]
  by_cases hle : i + bytes varLower ≤ bytes sql
  · rw [if_pos hle, if_pos hle, result_orStop]
    cases slice sqlLower i (i + bytes varLower) with
    | none => rfl
    | some piece => exact result_round _ _
  · rw [if_neg hle, if_neg hle, Prog.result_bind]
    exact result_round _ _

theorem substituteFrom_end (value : List Char) (rounds : Nat) (result : List Char) {i : Nat} (hi : bytes sql ≤ i) :
    (substituteFrom sql sqlLower varLower value rounds result i).result () = .ok result := by
  cases rounds <;> rw [substituteFrom, if_pos hi] <;> rfl

/-- The loop only adds to its result. -/
theorem substituteFrom_extends (value : List Char) (rounds : Nat) : ∀ (result : List Char) (i : Nat) {text : List Char},
    (substituteFrom sql sqlLower varLower value rounds result i).result () = .ok text → ∃ rest, text = result ++ rest := by
  induction rounds with
  | zero =>
    intro result i text h
    by_cases hi : bytes sql ≤ i
    · rw [substituteFrom_end _ _ _ hi] at h
      exact ⟨[], by rw [List.append_nil, Except.ok.inj h]⟩
    · rw [substituteFrom, if_neg hi] at h
      cases h
  | succ rounds ih =>
    intro result i text h
    by_cases hi : bytes sql ≤ i
    · rw [substituteFrom_end _ _ _ hi] at h
      exact ⟨[], by rw [List.append_nil, Except.ok.inj h]⟩
    · rw [substituteFrom_succ _ _ _ (Nat.not_le.mp hi)] at h
      split at h
      · cases h
      · obtain ⟨rest, rfl⟩ := ih _ _ h
        exact ⟨value ++ rest, List.append_assoc ..⟩
      · obtain ⟨rest, rfl⟩ := ih _ _ h
        exact ⟨_ ++ rest, List.append_assoc ..⟩

theorem exists_ne (c : Char) : ∃ d : Char, d ≠ c := by
  by_cases h : c = 'a'
  · exact ⟨'b', by rw [h]; decide⟩
  · exact ⟨'a', fun heq => h heq.symm⟩

theorem nil_of_exact {value : List Char} (hvalue : value ≠ []) {done : List Char} {ps : List Part}
    (h : done = done ++ ps.flatMap (Part.filled value)) : ps = [] := by
  have hnil := List.self_eq_append_right.mp h
  cases ps with
  | nil => rfl
  | cons p ps =>
    have hfirst := (List.append_eq_nil_iff.mp hnil).1
    cases p with
    | reference => exact absurd hfirst hvalue
    | char c => cases hfirst

include hvar

/-- If the loop fills in some parts for every value, it is in step with them. -/
theorem inStep_of_exact (rounds : Nat) : ∀ (ps : List Part) (i : Nat) (done : List Char → List Char),
    bytes sql ≤ i + rounds →
    (∀ value, (substituteFrom sql sqlLower varLower value rounds (done value) i).result () =
      .ok (done value ++ ps.flatMap (Part.filled value))) → InStep sql sqlLower varLower i ps := by
  have hend {rounds : Nat} {ps : List Part} {i : Nat} {done : List Char → List Char} (hi : bytes sql ≤ i)
      (h : ∀ value, (substituteFrom sql sqlLower varLower value rounds (done value) i).result () =
        .ok (done value ++ ps.flatMap (Part.filled value))) : InStep sql sqlLower varLower i ps := by
    have hstop := h ['a']
    rw [substituteFrom_end _ _ _ hi] at hstop
    rw [nil_of_exact (List.cons_ne_nil _ _) (Except.ok.inj hstop)]
    exact .done hi
  induction rounds with
  | zero => exact fun ps i done hi h => hend hi h
  | succ rounds ih =>
    intro ps i done hi h
    by_cases hle : bytes sql ≤ i
    · exact hend hle h
    · have hlt := Nat.not_le.mp hle
      simp only [substituteFrom_succ _ _ _ hlt] at h
      cases hfound : foundAt sql sqlLower varLower i with
      | none =>
        have hstop := h []
        rw [hfound] at hstop
        cases hstop
      | some found =>
        rw [hfound] at h
        cases found with
        | true =>
          dsimp only at h
          cases ps with
          | nil =>
            obtain ⟨rest, hrest⟩ := substituteFrom_extends _ _ _ _ (h ['a'])
            simp at hrest
          | cons p ps =>
            cases p with
            | reference =>
              refine .reference hlt hfound (ih ps _ (fun value => done value ++ value) (by omega) fun value => ?_)
              rw [h value]
              simp [Part.filled]
            | char c =>
              obtain ⟨d, hd⟩ := exists_ne c
              obtain ⟨rest, hrest⟩ := substituteFrom_extends _ _ _ _ (h [d])
              simp [Part.filled] at hrest
              exact absurd hrest.1.symm hd
        | false =>
          dsimp only at h
          cases ps with
          | nil =>
            obtain ⟨rest, hrest⟩ := substituteFrom_extends _ _ _ _ (h ['a'])
            simp at hrest
          | cons p ps =>
            cases p with
            | reference =>
              obtain ⟨d, hd⟩ := exists_ne (Char.ofNat ((utf8 sql).getD i 0).toNat)
              obtain ⟨rest, hrest⟩ := substituteFrom_extends _ _ _ _ (h [d])
              simp [Part.filled] at hrest
              exact absurd hrest.1 (by simpa using hd)
            | char c =>
              have hc : c = Char.ofNat ((utf8 sql).getD i 0).toNat := by
                obtain ⟨rest, hrest⟩ := substituteFrom_extends _ _ _ _ (h [])
                simp [Part.filled] at hrest
                simpa using hrest.1
              subst hc
              refine .char hlt hfound (ih ps _ (fun value => done value ++ [Char.ofNat ((utf8 sql).getD i 0).toNat]) (by omega)
                fun value => ?_)
              rw [h value]
              simp [Part.filled]

theorem exact_of_inStep (value : List Char) {ps : List Part} {i : Nat}
    (h : InStep sql sqlLower varLower i ps) : ∀ (rounds : Nat) (done : List Char), bytes sql ≤ i + rounds →
      (substituteFrom sql sqlLower varLower value rounds done i).result () = .ok (done ++ ps.flatMap (Part.filled value)) := by
  induction h with
  | done hi =>
    intro rounds done _
    rw [substituteFrom_end _ _ _ hi, List.flatMap_nil, List.append_nil]
  | reference hi hfound _ ih =>
    intro rounds done hrounds
    obtain ⟨rounds, rfl⟩ := Nat.exists_eq_succ_of_ne_zero (show rounds ≠ 0 by omega)
    rw [substituteFrom_succ _ _ _ hi, hfound]
    dsimp only
    rw [ih rounds (done ++ value) (by omega)]
    simp [Part.filled]
  | char hi hfound _ ih =>
    intro rounds done hrounds
    obtain ⟨rounds, rfl⟩ := Nat.exists_eq_succ_of_ne_zero (show rounds ≠ 0 by omega)
    rw [substituteFrom_succ _ _ _ hi, hfound]
    dsimp only
    rw [ih rounds _ (by omega)]
    simp [Part.filled]

end

/-! ## Texts of single bytes -/

theorem lowercase_ne_nil (m : CaseMapping) {s : List Char} (hs : s ≠ []) : m.toLowercase s ≠ [] := lowerFrom_ne_nil m hs []

theorem partsFrom_skip (m : CaseMapping) (name : List Char) : ∀ (skip : Nat) (prev : Option Char) (text : List (Char × Bool)),
    partsFrom m name prev skip text =
      partsFrom m name (((text.take skip).map Prod.fst).getLast?.or prev) 0 (text.drop skip)
  | 0, prev, text => by simp
  | skip + 1, prev, [] => by simp [partsFrom]
  | skip + 1, prev, (c, b) :: text => by
    rw [partsFrom, partsFrom_skip m name skip (some c) text, List.take_succ_cons, List.map_cons, List.drop_succ_cons]
    congr 1
    cases h : ((text.take skip).map Prod.fst).getLast? with
    | none =>
      rw [List.getLast?_eq_none_iff.mp h]
      rfl
    | some d =>
      rw [List.getLast?_cons, h]
      rfl

theorem utf8_single {s : List Char} (h : ∀ c ∈ s, c.utf8Size = 1) : utf8 s = s.map fun c => UInt8.ofNat c.toNat := by
  induction s with
  | nil => rfl
  | cons c s ih =>
    obtain ⟨hc, hs⟩ := List.forall_mem_cons.mp h
    have hbyte : String.utf8EncodeChar c = [UInt8.ofNat c.toNat] := if_pos (Char.utf8Size_eq_one_iff.mp hc)
    rw [utf8, List.flatMap_cons, hbyte, ← utf8, ih hs]
    rfl

/-- What a single byte is to the loop is what its character is, and its small letter is a single byte too. -/
theorem single_byte {c : Char} (h : c.utf8Size = 1) : Char.ofNat (UInt8.ofNat c.toNat).toNat = c ∧
    isPlpgsqlIdentifierChar (UInt8.ofNat c.toNat) = isWordPart c ∧ c.toLower.utf8Size = 1 :=
  forall_ascii (P := fun c => Char.ofNat (UInt8.ofNat c.toNat).toNat = c ∧
    isPlpgsqlIdentifierChar (UInt8.ofNat c.toNat) = isWordPart c ∧ c.toLower.utf8Size = 1) (by decide +kernel)
    (Nat.lt_succ_of_le (Char.utf8Size_eq_one_iff.mp h))

theorem find?_only {l : List Nat} {p : Nat → Bool} {a : Nat} (h : ∀ x ∈ l, p x = true → x = a) :
    l.find? p = if a ∈ l ∧ p a = true then some a else none := by
  cases hfind : l.find? p with
  | none =>
    rw [List.find?_eq_none] at hfind
    rw [if_neg fun hmem => hfind a hmem.1 hmem.2]
  | some x =>
    have hmem := List.mem_of_find?_eq_some hfind
    have hp := List.find?_some hfind
    obtain rfl := h x hmem hp
    rw [if_pos ⟨hmem, hp⟩]

section
variable {m : CaseMapping} (hm : m.LowersAscii)

/-- The small letters of a name stand at the start of a text of single bytes, alone. -/
def Alone (varLower : List Char) (prev : Option Char) (rest : List Char) : Prop :=
  (rest.take varLower.length).map Char.toLower = varLower ∧ prev.any isWordPart = false ∧
    rest[varLower.length]?.any isWordPart = false

instance decidableAlone (varLower : List Char) (prev : Option Char) (rest : List Char) : Decidable (Alone varLower prev rest) :=
  inferInstanceAs (Decidable (_ ∧ _ ∧ _))

include hm

theorem reference_unquoted {name rest : List Char} (hname : name ≠ []) (hrest : ∀ c ∈ rest, c.utf8Size = 1) (prev : Option Char) :
    reference m name prev (rest.map fun c => (c, true)) =
      if Alone (m.toLowercase name) prev rest then some (m.toLowercase name).length else none := by
  have hpos := List.length_pos_of_ne_nil (lowercase_ne_nil m hname)
  have hlower (k : Nat) : m.toLowercase (rest.take k) = (rest.take k).map Char.toLower :=
    lowerFrom_ascii hm [] fun c hc => Nat.lt_succ_of_le (Char.utf8Size_eq_one_iff.mp (hrest c (List.mem_of_mem_take hc)))
  have hstands (k : Nat) : standsFor m name prev (rest.map fun c => (c, true)) k = true ↔
      (rest.take k).map Char.toLower = m.toLowercase name ∧ prev.any isWordPart = false ∧ rest[k]?.any isWordPart = false := by
    have hall : ((rest.take k).map fun c => (c, true)).all Prod.snd = true := by simp [-List.map_take]
    have hid : ((rest.take k).map fun c => (c, true)).map Prod.fst = rest.take k := by rw [List.map_map]; exact List.map_id _
    have hidOption : (rest[k]?.map fun c => (c, true)).map Prod.fst = rest[k]? := by rw [Option.map_map]; exact congrFun Option.map_id _
    rw [standsFor, ← List.map_take, List.getElem?_map, hall, hid, hidOption, hlower]
    simp [-List.map_take]
  have honly : ∀ k ∈ (List.range (rest.map fun c => (c, true)).length).map (· + 1),
      standsFor m name prev (rest.map fun c => (c, true)) k = true → k = (m.toLowercase name).length := by
    intro k hk hst
    obtain ⟨j, hj, rfl⟩ := List.mem_map.mp hk
    rw [List.mem_range, List.length_map] at hj
    rw [← ((hstands _).mp hst).1, List.length_map, List.length_take]
    omega
  rw [reference, find?_only honly]
  by_cases halone : Alone (m.toLowercase name) prev rest
  · have hle : (m.toLowercase name).length ≤ rest.length := by
      have hlength := congrArg List.length halone.1
      rw [List.length_map, List.length_take] at hlength
      omega
    rw [if_pos halone, if_pos]
    refine ⟨List.mem_map.mpr ⟨(m.toLowercase name).length - 1, ?_, by omega⟩, (hstands _).mpr halone⟩
    rw [List.mem_range, List.length_map]
    omega
  · rw [if_neg halone, if_neg fun h => halone ((hstands _).mp h.2)]

/-- The slice of the copy is the small letters of the characters there. -/
theorem slice_copy {done rest : List Char} (hsql : ∀ c ∈ done ++ rest, c.utf8Size = 1) (len : Nat)
    (hle : done.length + len ≤ bytes (done ++ rest)) :
    slice (m.toLowercase (done ++ rest)) done.length (done.length + len) = some ((rest.take len).map Char.toLower) := by
  have hlower : m.toLowercase (done ++ rest) = (done ++ rest).map Char.toLower :=
    lowerFrom_ascii hm [] fun c hc => Nat.lt_succ_of_le (Char.utf8Size_eq_one_iff.mp (hsql c hc))
  have hsingle : ∀ c ∈ (done ++ rest).map Char.toLower, c.utf8Size = 1 := by
    intro c hc
    obtain ⟨d, hd, rfl⟩ := List.mem_map.mp hc
    exact (single_byte (hsql d hd)).2.2
  have hbytes : bytes ((done ++ rest).map Char.toLower) = bytes (done ++ rest) := by
    rw [bytes_eq_length hsingle, bytes_eq_length hsql, List.length_map]
  rw [hlower, slice_single hsingle (Nat.le_add_right _ _) (hbytes ▸ hle), Nat.add_sub_cancel_left, ← List.map_drop, ← List.map_take,
    List.drop_left]

theorem stands_single {varLower done rest : List Char} (hsql : ∀ c ∈ done ++ rest, c.utf8Size = 1) :
    (if done.length + bytes varLower ≤ bytes (done ++ rest) then
      (slice (m.toLowercase (done ++ rest)) done.length (done.length + bytes varLower)).map (· == varLower) else some false) =
      some (decide ((rest.take varLower.length).map Char.toLower = varLower)) := by
  have htaken : ∀ k, ∀ c ∈ (rest.take k).map Char.toLower, c.utf8Size = 1 := by
    intro k c hc
    obtain ⟨d, hd, rfl⟩ := List.mem_map.mp hc
    exact (single_byte (hsql d (List.mem_append_right _ (List.mem_of_mem_take hd)))).2.2
  by_cases hvar : ∀ c ∈ varLower, c.utf8Size = 1
  · rw [bytes_eq_length hvar]
    by_cases hle : done.length + varLower.length ≤ bytes (done ++ rest)
    · rw [if_pos hle, slice_copy hm hsql _ hle, Option.map_some, beq_eq_decide]
    · have hshort : (rest.take varLower.length).map Char.toLower ≠ varLower := by
        intro h
        have hlength := congrArg List.length h
        rw [bytes_eq_length hsql, List.length_append] at hle
        rw [List.length_map, List.length_take] at hlength
        omega
      rw [if_neg hle, decide_eq_false hshort]
  · have hother : ∀ k, (rest.take k).map Char.toLower ≠ varLower := by
      intro k h
      rw [← h] at hvar
      exact hvar (htaken k)
    rw [decide_eq_false (hother _)]
    by_cases hle : done.length + bytes varLower ≤ bytes (done ++ rest)
    · rw [if_pos hle, slice_copy hm hsql _ hle, Option.map_some, beq_false_of_ne (hother _)]
    · rw [if_neg hle]

omit hm in
theorem utf8_getD {s : List Char} (h : ∀ c ∈ s, c.utf8Size = 1) {i : Nat} {c : Char} (hc : s[i]? = some c) :
    (utf8 s).getD i 0 = UInt8.ofNat c.toNat := by
  rw [utf8_single h, List.getD_eq_getElem?_getD, List.getElem?_map, hc]
  rfl

omit hm in
/-- The byte before, if there is one, is of a word if the character before is. -/
theorem before_single {done rest : List Char} (hsql : ∀ c ∈ done ++ rest, c.utf8Size = 1) :
    (done.length = 0 ∨ isPlpgsqlIdentifierChar ((utf8 (done ++ rest)).getD (done.length - 1) 0) = false) ↔
      done.getLast?.any isWordPart = false := by
  cases hlast : done.getLast? with
  | none => simp [List.getLast?_eq_none_iff.mp hlast]
  | some d =>
    obtain ⟨front, rfl⟩ := List.getLast?_eq_some_iff.mp hlast
    have hd : (front ++ [d] ++ rest)[(front ++ [d]).length - 1]? = some d := by simp
    rw [utf8_getD hsql hd, (single_byte (hsql d (by simp))).2.1]
    simp

omit hm in
theorem behind_single {done rest : List Char} (hsql : ∀ c ∈ done ++ rest, c.utf8Size = 1) (len : Nat) :
    (bytes (done ++ rest) ≤ done.length + len ∨
      isPlpgsqlIdentifierChar ((utf8 (done ++ rest)).getD (done.length + len) 0) = false) ↔ rest[len]?.any isWordPart = false := by
  rw [bytes_eq_length hsql, List.length_append]
  cases hnext : rest[len]? with
  | none =>
    have hend := List.getElem?_eq_none_iff.mp hnext
    simp only [Option.any_none, iff_true]
    exact .inl (by omega)
  | some d =>
    obtain ⟨hlt, -⟩ := List.getElem?_eq_some_iff.mp hnext
    have hd : (done ++ rest)[done.length + len]? = some d := by
      rw [List.getElem?_append_right (Nat.le_add_right _ _), Nat.add_sub_cancel_left, hnext]
    rw [utf8_getD hsql hd, (single_byte (hsql d (List.mem_of_getElem? hd))).2.1]
    have hle : ¬ done.length + rest.length ≤ done.length + len := by omega
    simp only [hle, false_or, Option.any_some]

theorem foundAt_single (varLower : List Char) {done rest : List Char} (hsql : ∀ c ∈ done ++ rest, c.utf8Size = 1) :
    foundAt (done ++ rest) (m.toLowercase (done ++ rest)) varLower done.length =
      some (decide (Alone varLower done.getLast? rest)) := by
  rw [foundAt, stands_single hm hsql, Option.map_some]
  by_cases hstands : (rest.take varLower.length).map Char.toLower = varLower
  · have hvar : bytes varLower = varLower.length := by
      refine bytes_eq_length fun c hc => ?_
      rw [← hstands] at hc
      obtain ⟨d, hd, rfl⟩ := List.mem_map.mp hc
      exact (single_byte (hsql d (List.mem_append_right _ (List.mem_of_mem_take hd)))).2.2
    rw [decide_eq_true hstands, Bool.true_and, hvar]
    congr 1
    rw [decide_eq_decide, before_single hsql, behind_single hsql, Alone]
    exact ⟨fun h => ⟨hstands, h⟩, fun h => h.2⟩
  · rw [decide_eq_false hstands, Bool.false_and, decide_eq_false fun h : Alone _ _ _ => hstands h.1]

/-- Over single bytes the loop is in step with the references that the text has if quotes mean nothing. -/
theorem inStep_unquoted {name : List Char} (hname : name ≠ []) (n : Nat) : ∀ done rest : List Char, rest.length ≤ n →
    (∀ c ∈ done ++ rest, c.utf8Size = 1) → InStep (done ++ rest) (m.toLowercase (done ++ rest)) (m.toLowercase name) done.length
      (partsFrom m name done.getLast? 0 (rest.map fun c => (c, true))) := by
  induction n with
  | zero =>
    intro done rest hn hsql
    rw [List.length_eq_zero_iff.mp (Nat.le_zero.mp hn), List.append_nil] at hsql ⊢
    exact .done (Nat.le_of_eq (bytes_eq_length hsql))
  | succ n ih =>
    intro done rest hn hsql
    have hfound := foundAt_single hm (m.toLowercase name) hsql
    cases rest with
    | nil =>
      rw [List.append_nil] at hsql ⊢
      exact .done (Nat.le_of_eq (bytes_eq_length hsql))
    | cons c rest =>
      have hlt : done.length < bytes (done ++ c :: rest) := by
        rw [bytes_eq_length hsql, List.length_append, List.length_cons]
        omega
      have href := reference_unquoted hm hname (fun d hd => hsql d (List.mem_append_right _ hd)) done.getLast?
      rw [List.map_cons] at href ⊢
      rw [partsFrom, href]
      by_cases halone : Alone (m.toLowercase name) done.getLast? (c :: rest)
      · obtain ⟨j, hj⟩ := Nat.exists_eq_add_one_of_ne_zero (Nat.ne_of_gt (List.length_pos_of_ne_nil (lowercase_ne_nil m hname)))
        have hlength := congrArg List.length halone.1
        rw [List.length_map, List.length_take, hj, List.length_cons] at hlength
        have hbytes : bytes (m.toLowercase name) = j + 1 := by
          rw [← hj]
          refine bytes_eq_length fun d hd => ?_
          rw [← halone.1] at hd
          obtain ⟨e, he, rfl⟩ := List.mem_map.mp hd
          exact (single_byte (hsql e (List.mem_append_right _ (List.mem_of_mem_take he)))).2.2
        have hsplit : done ++ c :: rest = (done ++ c :: rest.take j) ++ rest.drop j := by
          rw [List.append_assoc, List.cons_append, List.take_append_drop]
        have hdone : (done ++ c :: rest.take j).length = done.length + (j + 1) := by
          rw [List.length_append, List.length_cons, List.length_take]
          omega
        have hlast : (done ++ c :: rest.take j).getLast? = (rest.take j).getLast?.or (some c) := by
          rw [List.getLast?_append, List.getLast?_cons]
          cases (rest.take j).getLast? <;> rfl
        have htail := ih (done ++ c :: rest.take j) (rest.drop j) (by rw [List.length_drop]; simp at hn; omega) (hsplit ▸ hsql)
        have htaken : (((rest.map fun c => (c, true)).take j).map Prod.fst) = rest.take j := by
          rw [← List.map_take, List.map_map]
          exact List.map_id _
        rw [← hsplit, hdone, hlast] at htail
        rw [if_pos halone, hj]
        dsimp only
        rw [Nat.add_sub_cancel, partsFrom_skip, htaken, ← List.map_drop]
        refine .reference hlt (by rw [hfound, decide_eq_true halone]) ?_
        rw [hbytes]
        exact htail
      · have hbyte : Char.ofNat ((utf8 (done ++ c :: rest)).getD done.length 0).toNat = c := by
          have hc : (done ++ c :: rest)[done.length]? = some c := by simp
          rw [utf8_getD hsql hc]
          exact (single_byte (hsql c (by simp))).1
        have hsplit : done ++ c :: rest = (done ++ [c]) ++ rest := by simp
        have htail := ih (done ++ [c]) rest (by simpa using hn) (hsplit ▸ hsql)
        rw [← hsplit, List.length_append, List.length_singleton, List.getLast?_concat] at htail
        have hstep := InStep.char hlt (by rw [hfound, decide_eq_false halone]) htail
        rw [hbyte] at hstep
        rw [if_neg halone]
        exact hstep

end

theorem InStep.unique {sql sqlLower varLower : List Char} {i : Nat} {ps ps' : List Part} (h : InStep sql sqlLower varLower i ps)
    (h' : InStep sql sqlLower varLower i ps') : ps = ps' := by
  induction h generalizing ps' with
  | done hi =>
    cases h' with
    | done => rfl
    | reference hi' => exact absurd hi (Nat.not_le.mpr hi')
    | char hi' => exact absurd hi (Nat.not_le.mpr hi')
  | reference hi hfound _ ih =>
    cases h' with
    | done hi' => exact absurd hi' (Nat.not_le.mpr hi)
    | reference _ _ hrest => rw [ih hrest]
    | char _ hfound' =>
      rw [hfound] at hfound'
      cases hfound'
  | char hi hfound _ ih =>
    cases h' with
    | done hi' => exact absurd hi' (Nat.not_le.mpr hi)
    | reference _ hfound' =>
      rw [hfound] at hfound'
      cases hfound'
    | char _ _ hrest => rw [ih hrest]

/-! ## The result -/

theorem marked_fst (mode : Mode) (sql : List Char) : (marked mode sql).map Prod.fst = sql := by
  induction sql generalizing mode with
  | nil => rfl
  | cons c sql ih => rw [marked, List.map_cons, ih]

/-- A name of no characters has no references. -/
theorem partsFrom_no_name (m : CaseMapping) (value : List Char) : ∀ (prev : Option Char) (text : List (Char × Bool)),
    (partsFrom m [] prev 0 text).flatMap (Part.filled value) = text.map Prod.fst
  | _, [] => rfl
  | prev, (c, b) :: text => by
    have hnone : reference m [] prev ((c, b) :: text) = none := by
      refine List.find?_eq_none.mpr fun k hk => ?_
      obtain ⟨j, -, rfl⟩ := List.mem_map.mp hk
      have hne := lowercase_ne_nil m (List.cons_ne_nil c ((text.map Prod.fst).take j))
      simp [standsFor, show m.toLowercase [] = [] from rfl, hne]
    rw [partsFrom, hnone]
    dsimp only
    rw [List.flatMap_cons, partsFrom_no_name m value (some c) text]
    rfl

/-- **A variable is replaced exactly** for every value if and only if the loop is in step with the references of the name; and
over single bytes it is if reading quotes makes no difference to the references. -/
theorem substitute_var_exact (m : CaseMapping) (hm : m.LowersAscii) (name sql : List Char) :
    ((∀ value, (substitutePlpgsqlVar m sql name value).result () = .ok (substituted m name value sql)) ↔
      name = [] ∨ InStep sql (m.toLowercase sql) (m.toLowercase name) 0 (partsOf m name sql)) ∧
    ((∀ c ∈ sql, c.utf8Size = 1) → name ≠ [] →
      (InStep sql (m.toLowercase sql) (m.toLowercase name) 0 (partsOf m name sql) ↔ partsOf m name sql = unquotedPartsOf m name sql)) := by
  constructor
  · by_cases hname : name = []
    · subst hname
      refine ⟨fun _ => .inl rfl, fun _ value => ?_⟩
      rw [substituted, partsOf, partsFrom_no_name, marked_fst]
      rfl
    · have hvar := bytes_pos (lowercase_ne_nil m hname)
      have hresult (value : List Char) : (substitutePlpgsqlVar m sql name value).result () =
          (substituteFrom sql (m.toLowercase sql) (m.toLowercase name) value (bytes sql) [] 0).result () := by
        rw [substitutePlpgsqlVar, if_neg hname, result_emit_bind]
      constructor
      · intro h
        refine .inr (inStep_of_exact hvar (bytes sql) _ 0 (fun _ => []) (Nat.le_add_left _ _) fun value => ?_)
        rw [← hresult, h value]
        rfl
      · intro h value
        rw [hresult, exact_of_inStep hvar value (h.resolve_left hname) _ [] (Nat.le_add_left _ _)]
        rfl
  · intro hsql hname
    have hunquoted := inStep_unquoted hm hname sql.length [] sql (Nat.le_refl _) hsql
    constructor
    · intro h
      exact h.unique hunquoted
    · intro h
      rw [h]
      exact hunquoted

theorem plain_text_exact : (substitutePlpgsqlVar someCases "x + xy * X".toList ['x'] "(1)".toList).result () =
    .ok "(1) + xy * (1)".toList := by
  obtain ⟨hexact, hsingle⟩ := substitute_var_exact someCases lowersAscii_someCases ['x'] "x + xy * X".toList
  have hbytes : "x + xy * X".toList.all (fun c => c.utf8Size = 1) = true := by decide
  have hstep := (hsingle (fun c hc => of_decide_eq_true (List.all_eq_true.mp hbytes c hc)) (List.cons_ne_nil _ _)).mpr
    (by decide +kernel)
  exact hexact.mpr (.inr hstep) "(1)".toList

/-- A literal is written over, a character of several bytes stops the loop and its bytes become characters. -/
theorem substitution_ignores_quotes :
    (substitutePlpgsqlVar someCases "'x'".toList ['x'] ['1']).result () = .ok "'1'".toList ∧
    substituted someCases ['x'] ['1'] "'x'".toList = "'x'".toList ∧
    (substitutePlpgsqlVar someCases "é".toList ['x'] ['1']).result () = .error .stop ∧
    (substitutePlpgsqlVar someCases "é".toList ['x', 'y'] ['1']).result () = .ok "Ã©".toList ∧
    substituted someCases ['x', 'y'] ['1'] "é".toList = "é".toList := by
  exact ⟨by decide +kernel, by decide +kernel, by decide +kernel, by decide +kernel, by decide +kernel⟩

end PotatoDB.Texts
