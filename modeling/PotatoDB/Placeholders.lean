import PotatoDB.LexemesSound
import PotatoDB.ParametersSound

/-!
# Placeholders of a template

EXECUTE writes its values over the names that a template has in its literals too, and takes the
bytes of a character for characters.
-/

namespace PotatoDB

/-- What a template is made of: literals, of which the last can be open, the names of values and other characters. -/
inductive Segment where
  | literal (text : List Char)
  | hole (digits : List Char)
  | char (c : Char)
deriving DecidableEq

namespace Segment

def text : Segment → List Char
  | literal text => text
  | hole digits => '$' :: digits
  | char c => [c]

/-- With the values in the places of their names. -/
def filled (values : List (List Char)) : Segment → List Char
  | literal text => text
  | hole digits => values.getD (decimal digits - 1) []
  | char c => [c]

/-- A literal has no name of a value in it. -/
def HasNoName (n : Nat) : Segment → Prop
  | literal text => ∀ s, s <:+ text → placeholderAt n s = none
  | hole _ | char _ => True

end Segment

/-- The digits that a text goes on with number one of the values, and are all the digits there. -/
structure NamesValue (n : Nat) (digits rest : List Char) : Prop where
  areDigits : digits ≠ [] ∧ ∀ d ∈ digits, d.isDigit = true
  maximal : ∀ d, rest.head? = some d → d.isDigit = false
  inRange : 1 ≤ decimal digits ∧ decimal digits ≤ n

/-- A text reads as these segments, where as many values are given. -/
inductive Segmented (n : Nat) : List Char → List Segment → Prop
  | nil : Segmented n [] []
  | literal {text rest : List Char} {ps : List Segment} (h : LiteralTail text rest) (hrest : Segmented n rest ps) :
      Segmented n (quoteChar :: (text ++ rest)) (.literal (quoteChar :: text) :: ps)
  | openLiteral {text : List Char} (h : ∀ s t, text = s ++ t → ¬ LiteralTail s t) :
      Segmented n (quoteChar :: text) [.literal (quoteChar :: text)]
  | hole {digits rest : List Char} {ps : List Segment} (h : NamesValue n digits rest) (hrest : Segmented n rest ps) :
      Segmented n ('$' :: (digits ++ rest)) (.hole digits :: ps)
  | char {c : Char} {rest : List Char} {ps : List Segment} (hquote : c ≠ quoteChar)
      (hhole : ∀ digits after, c :: rest = '$' :: (digits ++ after) → ¬ NamesValue n digits after) (hrest : Segmented n rest ps) :
      Segmented n (c :: rest) (.char c :: ps)

/-! ## Each template has one reading -/

section
variable {n : Nat}

theorem NamesValue.eq_takeWhile {digits rest : List Char} (h : NamesValue n digits rest) :
    digits = (digits ++ rest).takeWhile Char.isDigit := by
  have hrest : rest.takeWhile Char.isDigit = [] := by
    cases rest with
    | nil => rfl
    | cons d rest => rw [List.takeWhile_cons, if_neg (by rw [h.maximal d rfl]; exact Bool.false_ne_true)]
  rw [List.takeWhile_append_of_pos h.areDigits.2, hrest, List.append_nil]

theorem NamesValue.unique {digits rest digits' rest' : List Char} (h : NamesValue n digits rest) (h' : NamesValue n digits' rest')
    (heq : digits ++ rest = digits' ++ rest') : digits = digits' ∧ rest = rest' := by
  have hdigits : digits = digits' := by rw [h.eq_takeWhile, h'.eq_takeWhile, heq]
  subst hdigits
  exact ⟨rfl, List.append_cancel_left heq⟩

theorem Segmented.unique {s : List Char} {ps ps' : List Segment} (h : Segmented n s ps) (h' : Segmented n s ps') : ps = ps' := by
  induction h generalizing ps' with
  | nil => cases h'; rfl
  | literal h hrest ih =>
    generalize heq : quoteChar :: (_ ++ _) = s at h'
    cases h' with
    | nil => cases heq
    | literal h' hrest' =>
      obtain ⟨rfl, rfl⟩ := h.unique h' (List.cons.inj heq).2
      rw [ih hrest']
    | openLiteral hno => exact absurd h (hno _ _ (List.cons.inj heq).2.symm)
    | hole => cases (List.cons.inj heq).1
    | char hquote => exact absurd (List.cons.inj heq).1.symm hquote
  | openLiteral hno =>
    generalize heq : quoteChar :: _ = s at h'
    cases h' with
    | nil => cases heq
    | literal h' => exact absurd h' (hno _ _ (List.cons.inj heq).2)
    | openLiteral => rfl
    | hole => cases (List.cons.inj heq).1
    | char hquote => exact absurd (List.cons.inj heq).1.symm hquote
  | hole h hrest ih =>
    generalize heq : '$' :: (_ ++ _) = s at h'
    cases h' with
    | nil => cases heq
    | literal | openLiteral => cases (List.cons.inj heq).1
    | hole h' hrest' =>
      obtain ⟨rfl, rfl⟩ := h.unique h' (List.cons.inj heq).2
      rw [ih hrest']
    | char _ hhole => exact absurd h (hhole _ _ heq.symm)
  | char hquote hhole hrest ih =>
    generalize heq : _ :: _ = s at h'
    cases h' with
    | nil => cases heq
    | literal | openLiteral => exact absurd (List.cons.inj heq).1 hquote
    | hole h' => exact absurd h' (hhole _ _ heq)
    | char _ _ hrest' =>
      obtain ⟨rfl, rfl⟩ := List.cons.inj heq
      rw [ih hrest']

theorem Segmented.flatMap_text {s : List Char} {ps : List Segment} (h : Segmented n s ps) : ps.flatMap Segment.text = s := by
  induction h with
  | nil => rfl
  | literal _ _ ih | hole _ _ ih | char _ _ _ ih =>
    rw [List.flatMap_cons, ih]
    rfl
  | openLiteral => exact List.flatMap_singleton _ _

theorem exists_segmented_of_length (m : Nat) : ∀ s : List Char, s.length ≤ m → ∃ ps, Segmented n s ps := by
  induction m with
  | zero =>
    intro s hs
    rw [List.length_eq_zero_iff.mp (Nat.le_zero.mp hs)]
    exact ⟨[], .nil⟩
  | succ m ih =>
    intro s hs
    cases s with
    | nil => exact ⟨[], .nil⟩
    | cons c rest =>
      have hrest : rest.length ≤ m := Nat.le_of_succ_le_succ hs
      by_cases hquote : c = quoteChar
      · subst hquote
        by_cases hclosed : ∃ text after, rest = text ++ after ∧ LiteralTail text after
        · obtain ⟨text, after, rfl, h⟩ := hclosed
          obtain ⟨ps, hps⟩ := ih after (by simp at hrest; omega)
          exact ⟨_, .literal h hps⟩
        · exact ⟨_, .openLiteral fun text after heq h => hclosed ⟨text, after, heq, h⟩⟩
      by_cases hhole : ∃ digits after, c :: rest = '$' :: (digits ++ after) ∧ NamesValue n digits after
      · obtain ⟨digits, after, heq, h⟩ := hhole
        obtain ⟨rfl, rfl⟩ := List.cons.inj heq
        obtain ⟨ps, hps⟩ := ih after (by simp at hrest; omega)
        exact ⟨_, .hole h hps⟩
      · obtain ⟨ps, hps⟩ := ih rest hrest
        exact ⟨_, .char hquote (fun digits after heq h => hhole ⟨digits, after, heq, h⟩) hps⟩

/-! ## What the engine writes -/

theorem placeholderAt_eq_some {i : Nat} {cs : List Char} : placeholderAt n ('$' :: cs) = some i ↔
    (cs.takeWhile Char.isDigit ≠ [] ∧ decimal (cs.takeWhile Char.isDigit) < 2 ^ 64 ∧
      1 ≤ decimal (cs.takeWhile Char.isDigit) ∧ decimal (cs.takeWhile Char.isDigit) ≤ n) ∧ decimal (cs.takeWhile Char.isDigit) = i := by
  show (if _ then some _ else none) = some i ↔ _
  split_ifs with h
  · exact ⟨fun hi => ⟨h, Option.some.inj hi⟩, fun hi => congrArg some hi.2⟩
  · exact ⟨nofun, fun hin => absurd hin.1 h⟩

/-- What is left after the digits of a name does not go on with a digit. -/
theorem head?_dropWhile_isDigit (cs : List Char) (d : Char) (h : (cs.dropWhile Char.isDigit).head? = some d) : d.isDigit = false := by
  have hnot := List.head?_dropWhile_not Char.isDigit cs
  rw [h] at hnot
  exact hnot

theorem placeholderAt_range {i : Nat} {cs : List Char} (h : placeholderAt n cs = some i) : 1 ≤ i ∧ i ≤ n := by
  cases cs with
  | nil => cases h
  | cons c cs =>
    by_cases hc : c = '$'
    · subst hc
      obtain ⟨⟨-, -, hrange⟩, rfl⟩ := placeholderAt_eq_some.mp h
      exact hrange
    · rw [placeholderAt_of_ne hc] at h
      cases h

theorem namesValue_of_placeholderAt {i : Nat} {cs : List Char} (h : placeholderAt n ('$' :: cs) = some i) :
    NamesValue n (cs.takeWhile Char.isDigit) (cs.dropWhile Char.isDigit) :=
  have ⟨⟨hne, _, hrange⟩, _⟩ := placeholderAt_eq_some.mp h
  ⟨⟨hne, isDigit_takeWhile cs⟩, head?_dropWhile_isDigit cs, hrange⟩

theorem placeholderAt_of_namesValue (hn : n < 2 ^ 64) {digits rest : List Char} (h : NamesValue n digits rest) :
    placeholderAt n ('$' :: (digits ++ rest)) = some (decimal digits) := by
  rw [placeholderAt_eq_some, ← h.eq_takeWhile]
  exact ⟨⟨h.areDigits.1, Nat.lt_of_le_of_lt h.inRange.2 hn, h.inRange⟩, rfl⟩

theorem placeholderAt_char {c : Char} {rest : List Char}
    (h : ∀ digits after, c :: rest = '$' :: (digits ++ after) → ¬ NamesValue n digits after) : placeholderAt n (c :: rest) = none := by
  by_cases hc : c = '$'
  · subst hc
    cases hp : placeholderAt n ('$' :: rest) with
    | none => rfl
    | some i =>
      refine absurd (namesValue_of_placeholderAt hp) (h _ _ ?_)
      rw [List.takeWhile_append_dropWhile]
  · exact placeholderAt_of_ne hc _ _

theorem segmented_zero {s : List Char} {ps : List Segment} (h : Segmented 0 s ps) (values : List (List Char)) :
    ps.flatMap (Segment.filled values) = s := by
  induction h with
  | nil => rfl
  | literal _ _ ih | char _ _ _ ih =>
    rw [List.flatMap_cons, ih]
    rfl
  | openLiteral => exact List.flatMap_singleton _ _
  | hole h => exact absurd (Nat.le_trans h.inRange.1 h.inRange.2) (by decide)

end

section
variable {values : List (List Char)}

theorem takeWhile_append_of_mem {s : List Char} (h : quoteChar ∈ s) (rest : List Char) :
    (s ++ rest).takeWhile Char.isDigit = s.takeWhile Char.isDigit := by
  rw [List.takeWhile_append, if_neg]
  intro hlen
  have hall := (List.takeWhile_prefix Char.isDigit).eq_of_length hlen
  rw [← hall] at h
  exact absurd (List.mem_takeWhile_imp h) (by decide)

theorem substituteFrom_skip : ∀ s rest : List Char, substituteFrom values s.length (s ++ rest) = substituteFrom values 0 rest := by
  intro s rest
  induction s with
  | nil => rfl
  | cons c s ih => exact ih

/-- No name of a value reaches beyond the closing quote of a literal. -/
theorem substituteFrom_append (rest : List Char) : ∀ (s : List Char) (skip : Nat), skip ≤ s.length → s.getLast? = some quoteChar ∨ s = [] →
    substituteFrom values skip (s ++ rest) = substituteFrom values skip s ++ substituteFrom values 0 rest := by
  intro s
  induction s with
  | nil =>
    intro skip hskip _
    rw [Nat.le_zero.mp hskip]
    rfl
  | cons c s ih =>
    intro skip hskip hlast
    have hlast' : s.getLast? = some quoteChar ∨ s = [] := by
      cases s with
      | nil => exact .inr rfl
      | cons d s => exact .inl (hlast.resolve_right (List.cons_ne_nil _ _))
    cases skip with
    | succ skip => exact ih skip (Nat.le_of_succ_le_succ hskip) hlast'
    | zero =>
      have hnone : placeholderAt values.length (c :: (s ++ rest)) = none → placeholderAt values.length (c :: s) = none →
          substituteFrom values 0 (c :: (s ++ rest)) = substituteFrom values 0 (c :: s) ++ substituteFrom values 0 rest := by
        intro h h'
        rw [substituteFrom, h, substituteFrom, h']
        dsimp only
        rw [ih 0 (Nat.zero_le _) hlast', List.append_assoc]
      by_cases hc : c = '$'
      · subst hc
        have hdigits : (s ++ rest).takeWhile Char.isDigit = s.takeWhile Char.isDigit := by
          refine takeWhile_append_of_mem ?_ rest
          rcases hlast' with hlast' | rfl
          · exact List.mem_of_getLast? hlast'
          · exact absurd (hlast.resolve_right (List.cons_ne_nil _ _)) (by decide)
        have hsame : placeholderAt values.length ('$' :: (s ++ rest)) = placeholderAt values.length ('$' :: s) := by
          rw [placeholderAt, placeholderAt, hdigits]
        cases hp : placeholderAt values.length ('$' :: s) with
        | none => exact hnone (hsame.trans hp) hp
        | some i =>
          rw [List.cons_append, substituteFrom, hsame, hp, substituteFrom, hp]
          dsimp only
          rw [hdigits, ih _ (List.takeWhile_prefix _).length_le hlast', List.append_assoc]
      · exact hnone (placeholderAt_of_ne hc _ _) (placeholderAt_of_ne hc _ _)

theorem length_bytesAsChars (c : Char) : 1 ≤ (bytesAsChars c).length ∧ ((bytesAsChars c).length = 1 → c.toNat < 128) := by
  unfold bytesAsChars
  rw [List.length_map, String.length_utf8EncodeChar]
  exact ⟨c.utf8Size_pos, fun h => Nat.lt_succ_of_le (Char.utf8Size_eq_one_iff.mp h)⟩

/-- Values longer than a text make it longer where they are written over a name, and so do characters of several bytes. -/
theorem length_substituteFrom {m : Nat} (hvalues : ∀ i, 1 ≤ i → i ≤ values.length → m < (values.getD (i - 1) []).length) :
    ∀ (s : List Char) (skip : Nat), skip ≤ s.length → s.length ≤ m →
      s.length ≤ (substituteFrom values skip s).length + skip ∧
      (s.length = (substituteFrom values skip s).length + skip →
        (∀ c ∈ s.drop skip, c.toNat < 128) ∧ ∀ t, t <:+ s.drop skip → placeholderAt values.length t = none) := by
  intro s
  induction s with
  | nil =>
    intro skip hskip _
    rw [Nat.le_zero.mp hskip]
    refine ⟨Nat.zero_le _, fun _ => ⟨nofun, fun t ht => ?_⟩⟩
    rw [List.suffix_nil.mp ht]
    rfl
  | cons c s ih =>
    intro skip hskip hm
    have hm' : s.length ≤ m := Nat.le_of_succ_le hm
    cases skip with
    | succ skip =>
      obtain ⟨hle, heq⟩ := ih skip (Nat.le_of_succ_le_succ hskip) hm'
      exact ⟨Nat.succ_le_succ hle, fun h => heq (Nat.succ.inj h)⟩
    | zero =>
      rw [substituteFrom]
      cases hp : placeholderAt values.length (c :: s) with
      | none =>
        obtain ⟨hle, heq⟩ := ih 0 (Nat.zero_le _) hm'
        obtain ⟨hone, hascii⟩ := length_bytesAsChars c
        dsimp only
        rw [List.length_append, List.length_cons]
        refine ⟨by omega, fun h => ?_⟩
        obtain ⟨hrest, hnone⟩ := heq (by omega)
        refine ⟨List.forall_mem_cons.mpr ⟨hascii (by omega), hrest⟩, fun t ht => ?_⟩
        rcases List.suffix_cons_iff.mp ht with rfl | ht
        · exact hp
        · exact hnone t ht
      | some i =>
        -- a value is written, which is too long
        have hvalue := hvalues i (placeholderAt_range hp).1 (placeholderAt_range hp).2
        dsimp only
        rw [List.length_append]
        rw [List.length_cons] at hm ⊢
        exact ⟨by omega, fun h => by omega⟩

/-- A text of single bytes with no name in it stays as it is. -/
theorem substituteFrom_plain : ∀ {s : List Char}, (∀ c ∈ s, c.toNat < 128) → (∀ t, t <:+ s → placeholderAt values.length t = none) →
    substituteFrom values 0 s = s
  | [], _, _ => rfl
  | c :: s, hascii, hnone => by
    rw [substituteFrom, hnone _ List.suffix_rfl]
    dsimp only
    rw [bytesAsChars_ascii (hascii c List.mem_cons_self), substituteFrom_plain (fun d hd => hascii d (List.mem_cons_of_mem _ hd))
      fun t ht => hnone t (ht.trans (List.suffix_cons _ _))]
    rfl

/-- What the engine writes for a segment. -/
def Segment.substituted (values : List (List Char)) : Segment → List Char
  | literal text => substituteFrom values 0 text
  | hole digits => values.getD (decimal digits - 1) []
  | char c => bytesAsChars c

theorem substituteFrom_segmented {n : Nat} (hn : n < 2 ^ 64) (hvalues : values.length = n) {s : List Char} {ps : List Segment}
    (h : Segmented n s ps) : substituteFrom values 0 s = ps.flatMap (Segment.substituted values) := by
  induction h with
  | nil => rfl
  | @literal text rest ps h hrest ih =>
    have hlast : (quoteChar :: text).getLast? = some quoteChar := List.mem_getLast?_cons h.getLast?
    rw [List.flatMap_cons, ← ih, ← List.cons_append, substituteFrom_append rest _ 0 (Nat.zero_le _) (.inl hlast)]
    rfl
  | openLiteral h => rw [List.flatMap_singleton]; rfl
  | @hole digits rest ps h hrest ih =>
    rw [List.flatMap_cons, ← ih, substituteFrom, hvalues, placeholderAt_of_namesValue hn h]
    dsimp only
    rw [← h.eq_takeWhile, substituteFrom_skip]
    rfl
  | char hquote hhole hrest ih =>
    rw [List.flatMap_cons, ← ih, substituteFrom, hvalues, placeholderAt_char hhole]
    rfl

theorem toNat_of_isDigit {d : Char} (h : d.isDigit = true) : d.toNat < 128 := by
  have hle : d.toNat ≤ 57 := by
    simp only [Char.isDigit, Bool.and_eq_true, decide_eq_true_eq] at h
    exact h.2
  omega

/-- A segment of single bytes with no name in it, unless it is one. -/
def Segment.IsPlain (n : Nat) (p : Segment) : Prop := (∀ c ∈ p.text, c.toNat < 128) ∧ p.HasNoName n

theorem substituted_eq_filled {n : Nat} (hvalues : values.length = n) {p : Segment} (h : p.IsPlain n) :
    p.substituted values = p.filled values := by
  subst hvalues
  cases p with
  | literal text => exact substituteFrom_plain h.1 h.2
  | hole => rfl
  | char c => exact bytesAsChars_ascii (h.1 c List.mem_cons_self)

theorem length_substituted {n m : Nat} (hvalues : values.length = n)
    (hlong : ∀ i, 1 ≤ i → i ≤ values.length → m < (values.getD (i - 1) []).length) {p : Segment} (hm : p.text.length ≤ m)
    (hdigits : ∀ digits, p = .hole digits → ∀ d ∈ digits, d.isDigit = true) :
    (p.filled values).length ≤ (p.substituted values).length ∧
      ((p.filled values).length = (p.substituted values).length → p.IsPlain n) := by
  subst hvalues
  cases p with
  | literal text =>
    obtain ⟨hle, heq⟩ := length_substituteFrom hlong text 0 (Nat.zero_le _) hm
    exact ⟨hle, heq⟩
  | hole digits =>
    refine ⟨Nat.le_refl _, fun _ => ⟨List.forall_mem_cons.mpr ⟨by decide, fun d hd => ?_⟩, trivial⟩⟩
    exact toNat_of_isDigit (hdigits digits rfl d hd)
  | char c =>
    obtain ⟨hone, hascii⟩ := length_bytesAsChars c
    refine ⟨hone, fun h => ⟨?_, trivial⟩⟩
    intro d hd
    rw [List.mem_singleton.mp hd]
    exact hascii h.symm

end

theorem isDigit_hole {n : Nat} {s : List Char} {ps : List Segment} (h : Segmented n s ps) :
    ∀ p ∈ ps, ∀ digits, p = .hole digits → ∀ d ∈ digits, d.isDigit = true := by
  induction h with
  | nil => nofun
  | openLiteral => simp
  | literal _ _ ih | char _ _ _ ih => exact List.forall_mem_cons.mpr ⟨nofun, ih⟩
  | hole h _ ih =>
    refine List.forall_mem_cons.mpr ⟨?_, ih⟩
    rintro _ ⟨⟩
    exact h.areDigits.2

theorem length_flatMap_le {α : Type} {f g : α → List Char} {ps : List α} (hle : ∀ p ∈ ps, (f p).length ≤ (g p).length) :
    (ps.flatMap f).length ≤ (ps.flatMap g).length ∧
      ((ps.flatMap f).length = (ps.flatMap g).length → ∀ p ∈ ps, (f p).length = (g p).length) := by
  induction ps with
  | nil => exact ⟨Nat.le_refl _, fun _ => nofun⟩
  | cons p ps ih =>
    obtain ⟨hp, hrest⟩ := List.forall_mem_cons.mp hle
    obtain ⟨hsum, heq⟩ := ih hrest
    rw [List.flatMap_cons, List.flatMap_cons, List.length_append, List.length_append]
    exact ⟨by omega, fun h => List.forall_mem_cons.mpr ⟨by omega, heq (by omega)⟩⟩

theorem isPlain_iff {n : Nat} {s : List Char} {ps : List Segment} (h : Segmented n s ps) :
    (∀ p ∈ ps, p.IsPlain n) ↔ (∀ c ∈ s, c.toNat < 128) ∧ ∀ p ∈ ps, p.HasNoName n := by
  rw [← h.flatMap_text]
  unfold Segment.IsPlain
  refine ⟨fun hplain => ⟨fun c hc => ?_, fun p hp => (hplain p hp).2⟩, fun ⟨hascii, hnone⟩ p hp => ⟨fun c hc => ?_, hnone p hp⟩⟩
  · obtain ⟨p, hp, hc⟩ := List.mem_flatMap.mp hc
    exact (hplain p hp).1 c hc
  · exact hascii c (List.mem_flatMap.mpr ⟨p, hp, hc⟩)

theorem substitute_exact_iff {n : Nat} (hn : n < 2 ^ 64) {template : List Char} {ps : List Segment} (h : Segmented n template ps) :
    (∀ values : List (List Char), values.length = n → substituteParameters template values = ps.flatMap (Segment.filled values)) ↔
      n = 0 ∨ (∀ c ∈ template, c.toNat < 128) ∧ ∀ p ∈ ps, p.HasNoName n := by
  rw [← isPlain_iff h]
  refine ⟨fun hexact => ?_, fun hplain values hvalues => ?_⟩
  · by_cases hzero : n = 0
    · exact .inl hzero
    -- values that are longer than the whole template
    let long := List.replicate n (List.replicate (template.length + 1) '1')
    have hlen : long.length = n := List.length_replicate
    have hne : long ≠ [] := fun he => hzero (by rw [← hlen, he]; rfl)
    have hrun := hexact long hlen
    rw [substituteParameters, if_neg hne, substituteFrom_segmented hn hlen h] at hrun
    have hlong : ∀ i, 1 ≤ i → i ≤ long.length → template.length < (long.getD (i - 1) []).length := by
      intro i hi hin
      have hlt : i - 1 < n := by omega
      simp [long, List.getD_eq_getElem?_getD, hlt]
    have hparts : ∀ p ∈ ps, p.text.length ≤ template.length := by
      intro p hp
      rw [← h.flatMap_text]
      exact (List.sublist_flatten_of_mem (List.mem_map_of_mem hp)).length_le
    have hle := fun p hp => length_substituted hlen hlong (hparts p hp) (isDigit_hole h p hp)
    refine .inr fun p hp => (hle p hp).2 ?_
    exact (length_flatMap_le fun p hp => (hle p hp).1).2 (congrArg List.length hrun.symm) p hp
  · by_cases hempty : values = []
    · subst hempty
      subst hvalues
      rw [substituteParameters, if_pos rfl]
      exact (segmented_zero h []).symm
    · have hzero : n ≠ 0 := by
        rintro rfl
        exact hempty (List.length_eq_zero_iff.mp hvalues)
      rw [substituteParameters, if_neg hempty, substituteFrom_segmented hn hvalues h]
      exact List.flatMap_congr fun p hp => substituted_eq_filled hvalues (hplain.resolve_left hzero p hp)

/-- **EXECUTE writes its values exactly in the places of their names** where it has none, or where the template has only
single bytes and no name in a literal. -/
theorem substitute_parameters_exact {n : Nat} (hn : n < 2 ^ 64) (template : List Char) :
    ∃ ps, Segmented n template ps ∧ (∀ ps', Segmented n template ps' → ps' = ps) ∧ ps.flatMap Segment.text = template ∧
      ((∀ values : List (List Char), values.length = n →
          substituteParameters template values = ps.flatMap (Segment.filled values)) ↔
        n = 0 ∨ (∀ c ∈ template, c.toNat < 128) ∧ ∀ p ∈ ps, p.HasNoName n) := by
  obtain ⟨ps, hps⟩ := exists_segmented_of_length template.length template (Nat.le_refl _)
  exact ⟨ps, hps, fun ps' hps' => hps'.unique hps, hps.flatMap_text, substitute_exact_iff hn hps⟩

/-- `$1` in a literal and behind it. -/
def quotedTemplate : List Char := "'$1' $1".toList

theorem segmented_quotedTemplate : Segmented 1 quotedTemplate [.literal "'$1'".toList, .char ' ', .hole ['1']] := by
  have hdigit : ∀ d ∈ ['1'], d.isDigit = true := fun d hd => List.mem_singleton.mp hd ▸ rfl
  have hhole : NamesValue 1 ['1'] [] := ⟨⟨List.cons_ne_nil _ _, hdigit⟩, nofun, by decide⟩
  have hblank : Segmented 1 " $1".toList [.char ' ', .hole ['1']] :=
    .char (by decide) (fun _ _ h => nomatch (List.cons.inj h).1) (.hole hhole .nil)
  exact .literal (.char (by decide) (.char (by decide) (.close (by decide)))) hblank

/-- **The value is written into the literal too**, and a character of two bytes becomes two characters. -/
theorem literal_is_overwritten :
    substituteParameters quotedTemplate ["5".toList] = "'5' 5".toList ∧
    substituteParameters "'é' $1".toList ["5".toList] = "'Ã©' 5".toList ∧
    ¬ ∀ (template : List Char) (values : List (List Char)) (ps : List Segment), Segmented values.length template ps →
      substituteParameters template values = ps.flatMap (Segment.filled values) := by
  refine ⟨by decide +kernel, by decide +kernel, fun h => ?_⟩
  have hexact := h quotedTemplate ["5".toList] _ segmented_quotedTemplate
  exact absurd hexact (by decide +kernel)

/-- A template with an escaped quote in its literal and a number that is out of range. -/
theorem plain_template_exact : substituteParameters "'it''s' $2 $1".toList ["5".toList] = "'it''s' $2 5".toList ∧
    ∃ ps, Segmented 1 "'it''s' $2 $1".toList ps ∧ (∀ ps', Segmented 1 "'it''s' $2 $1".toList ps' → ps' = ps) ∧
      ps.flatMap Segment.text = "'it''s' $2 $1".toList ∧
      ((∀ values : List (List Char), values.length = 1 →
          substituteParameters "'it''s' $2 $1".toList values = ps.flatMap (Segment.filled values)) ↔
        1 = 0 ∨ (∀ c ∈ "'it''s' $2 $1".toList, c.toNat < 128) ∧ ∀ p ∈ ps, p.HasNoName 1) :=
  ⟨by decide +kernel, substitute_parameters_exact (by decide) _⟩

end PotatoDB
