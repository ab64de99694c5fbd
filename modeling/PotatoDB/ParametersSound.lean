import PotatoDB.Parameters

/-!
# Values in the places of their names

Writing the values one after the other comes to the same as writing them all at once, where the
text has their names only outside of literals, no value has the name of an earlier one in it, and
every value is written as a literal.
-/

namespace PotatoDB

/-! ## What a text is inside of -/

inductive Scan where
  | code
  | dash
  | slash
  | literal
  | name
  | lineComment
  /-- As many comments are open; the character before. -/
  | blockComment (depth : Nat) (last : Char)
deriving DecidableEq

namespace Scan

def isOutside : Scan → Bool
  | code | dash | slash => true
  | _ => false

def step : Scan → Char → Scan
  | literal, c => if c = quoteChar then code else literal
  | name, c => if c = '"' then code else name
  | lineComment, c => if c = '\n' then code else lineComment
  | blockComment depth last, c =>
    if last = '*' ∧ c = '/' then if depth ≤ 1 then code else blockComment (depth - 1) ' '
    else if last = '/' ∧ c = '*' then blockComment (depth + 1) ' '
    else blockComment depth c
  | s, c =>
    if c = quoteChar then literal
    else if c = '"' then name
    else if c = '-' then if s = dash then lineComment else dash
    else if c = '*' ∧ s = slash then blockComment 1 ' '
    else if c = '/' then slash
    else code

end Scan

def scanText (s : Scan) (text : List Char) : Scan := text.foldl Scan.step s

/-! ## Texts with holes -/

inductive Piece where
  | char (c : Char)
  | hole (i : Nat)
deriving DecidableEq

/-- The names of as many values outside of literals, and the characters between them; the second number counts the
characters left to skip. -/
def piecesFrom (n : Nat) : Nat → Scan → List Char → List Piece
  | _, _, [] => []
  | skip + 1, s, _ :: cs => piecesFrom n skip s cs
  | 0, s, c :: cs =>
    match s.isOutside, placeholderAt n (c :: cs) with
    | true, some i => .hole i :: piecesFrom n (cs.takeWhile Char.isDigit).length .code cs
    | _, _ => .char c :: piecesFrom n 0 (s.step c) cs

def pieces (n : Nat) (sql : List Char) : List Piece := piecesFrom n 0 .code sql

namespace Piece

def text : Piece → List Char
  | char c => [c]
  | hole i => placeholder i

/-- With the values in the places of their names. -/
def fill (values : List (List Char)) : Piece → List Char
  | char c => [c]
  | hole i => values.getD (i - 1) []

/-- With the values above a number in the places of their names. -/
def render (values : List (List Char)) (n : Nat) : Piece → List Char
  | char c => [c]
  | hole i => if n < i then values.getD (i - 1) [] else placeholder i

end Piece

/-- The digits that a text starts with. -/
def digitsAfter : List Piece → List Char
  | .char c :: ps => if c.isDigit then c :: digitsAfter ps else []
  | _ => []

def startsWithHole : List Piece → Bool
  | .hole _ :: _ => true
  | _ => false

/-- The digits after a dollar sign are no name, and no name is at their start. -/
def Unnamed (n : Nat) (digits : List Char) : Prop :=
  ¬ (1 ≤ decimal digits ∧ decimal digits ≤ n) ∧ ∀ k ∈ List.range n, ¬ (toString (k + 1)).toList <+: digits

/-- The names of the values are in the text only as holes, which stand neither side by side nor behind what could be the
start of a name. -/
def Steady (n : Nat) : List Piece → Prop
  | [] => True
  | .char c :: ps =>
    (c = '$' → Unnamed n (digitsAfter ps)) ∧ ((c = '$' ∨ c.isDigit = true) → startsWithHole ps = false) ∧ Steady n ps
  | .hole i :: ps => (1 ≤ i ∧ i ≤ n) ∧ digitsAfter ps = [] ∧ startsWithHole ps = false ∧ Steady n ps

/-! ## Literals -/

/-- A single literal of SQL, and the value that it denotes. -/
inductive Denotes : Option (List Char) → List Char → Prop
  | null : Denotes none "NULL".toList
  | text (raw : List Char) : Denotes (some raw) (quoteChar :: escapeQuotes raw ++ [quoteChar])
  | number {raw : List Char} (h : isNumber raw = true) : Denotes (some raw) raw
  | boolean {raw : List Char} (h : lower raw = "true".toList ∨ lower raw = "false".toList) : Denotes (some raw) raw

/-- A value is not the text `null`, and it is a number or a truth value where it is not quoted. -/
def Faithful (param : Option (List Char)) (pgType : PgType) : Prop :=
  ∀ raw ∈ param, lower raw ≠ "null".toList ∧ ((pgType.isBare = true ∨ pgType = .unknown ∧ parsesF64 raw = true) →
    isNumber raw = true ∨ lower raw = "true".toList ∨ lower raw = "false".toList)

/-! ## Replacing in pieces -/

theorem replaceFrom_skip (needle new : List Char) : ∀ s rest, replaceFrom needle new s.length (s ++ rest) = replaceFrom needle new 0 rest := by
  intro s rest
  induction s with
  | nil => rfl
  | cons c s ih => exact ih

theorem replaceFrom_match {needle : List Char} (h : needle ≠ []) (new rest : List Char) :
    replaceFrom needle new 0 (needle ++ rest) = new ++ replaceFrom needle new 0 rest := by
  obtain ⟨c, cs, rfl⟩ := List.exists_cons_of_ne_nil h
  rw [List.cons_append, replaceFrom, if_pos]
  · exact congrArg (new ++ ·) (replaceFrom_skip _ _ cs rest)
  · exact List.isPrefixOf_iff_prefix.mpr ⟨rest, rfl⟩

/-- A part of the text in which no match starts stays as it is. -/
theorem replaceFrom_keep (needle new : List Char) {part rest : List Char}
    (h : ∀ s t, part = s ++ t → t ≠ [] → ¬ needle <+: t ++ rest) :
    replaceFrom needle new 0 (part ++ rest) = part ++ replaceFrom needle new 0 rest := by
  induction part with
  | nil => rfl
  | cons c part ih =>
    have hhere := h [] (c :: part) rfl (List.cons_ne_nil _ _)
    rw [List.cons_append, replaceFrom, if_neg]
    · refine congrArg (c :: ·) (ih fun s t hst ht => h (c :: s) t ?_ ht)
      rw [hst, List.cons_append]
    · intro hp
      exact hhere (List.isPrefixOf_iff_prefix.mp hp)

/-! ## Numbers and names -/

theorem toList_toString (n : Nat) : (toString n).toList = Nat.toDigits 10 n := Nat.toList_repr

theorem isDigit_toString (n : Nat) : ∀ c ∈ (toString n).toList, c.isDigit = true := by
  intro c hc
  rw [toList_toString] at hc
  exact Nat.isDigit_of_mem_toDigits (by decide) (by decide) hc

theorem decimal_eq (digits : List Char) : decimal digits = Nat.ofDigitChars 10 digits 0 := by
  rw [Nat.ofDigitChars_eq_foldl]
  rfl

theorem decimal_toString (n : Nat) : decimal (toString n).toList = n := by
  rw [decimal_eq, toList_toString]
  exact Nat.ofDigitChars_toDigits (by decide) (by decide)

theorem decimal_append (s t : List Char) : decimal s ≤ decimal (s ++ t) := by
  have hgrows : ∀ m, m ≤ t.foldl (fun n c => 10 * n + (c.toNat - 48)) m := by
    induction t with
    | nil => exact fun m => Nat.le_refl m
    | cons c t ih => exact fun m => Nat.le_trans (show m ≤ 10 * m + (c.toNat - 48) by omega) (ih _)
  unfold decimal
  rw [List.foldl_append]
  exact hgrows _

/-- The name of a value starts with that of another one only where its number is no smaller. -/
theorem le_of_toString_prefix {i k : Nat} (h : (toString i).toList <+: (toString k).toList) : i ≤ k := by
  obtain ⟨t, ht⟩ := h
  have hle := decimal_append (toString i).toList t
  rwa [ht, decimal_toString, decimal_toString] at hle

/-! ## One value after the other -/

/-- What follows a value cannot complete a name that starts in it. -/
def Closed (value : List Char) : Prop := '$' ∉ value ∨ value.getLast? = some quoteChar

theorem placeholder_ne_nil (i : Nat) : placeholder i ≠ [] := List.cons_ne_nil _ _

/-- A name that does not occur in a value does not start in it either. -/
theorem not_starts_in_value {value rest : List Char} {i : Nat} (hc : Closed value) (hi : ¬ placeholder i <:+: value)
    (s t : List Char) (hst : value = s ++ t) (ht : t ≠ []) : ¬ placeholder i <+: t ++ rest := by
  intro hp
  rcases List.prefix_or_prefix_of_prefix hp (List.prefix_append t rest) with hin | hout
  · exact hi (hst ▸ hin.isInfix.trans (List.suffix_append s t).isInfix)
  · -- the value ends within the name
    obtain ⟨c, cs, rfl⟩ := List.exists_cons_of_ne_nil ht
    obtain ⟨u, hu⟩ := hout
    obtain ⟨rfl, hdigits⟩ := List.cons.inj hu
    have hmem : '$' ∈ value := by
      rw [hst]
      exact List.mem_append_right _ List.mem_cons_self
    rcases hc with hno | hquote
    · exact hno hmem
    · have hlast : ('$' :: cs).getLast? = some quoteChar := by
        rw [hst, List.getLast?_append_of_ne_nil _ ht] at hquote
        exact hquote
      rcases List.mem_cons.mp (List.mem_of_getLast? hlast) with hq | hq
      · exact absurd hq (by decide)
      · have hdigit := isDigit_toString i quoteChar (hdigits ▸ List.mem_append_left _ hq)
        exact absurd hdigit (by decide)

section
variable {values : List (List Char)} {n : Nat}

/-- Digits that the written text starts with are digits that the pieces start with. -/
theorem prefix_digitsAfter {m : Nat} : ∀ {ps : List Piece} {ds : List Char}, Steady n ps → startsWithHole ps = false →
    (∀ d ∈ ds, d.isDigit = true) → ds <+: ps.flatMap (Piece.render values m) → ds <+: digitsAfter ps := by
  intro ps ds hs hh hd hp
  induction ps generalizing ds with
  | nil => exact hp
  | cons p ps ih =>
    cases p with
    | hole i => cases hh
    | char c =>
      cases ds with
      | nil => exact List.nil_prefix
      | cons d ds =>
        obtain ⟨rfl, hrest⟩ := List.cons_prefix_cons.mp hp
        have hdigit := hd d List.mem_cons_self
        have ih := ih hs.2.2 (hs.2.1 (.inr hdigit)) (fun e he => hd e (List.mem_cons_of_mem _ he)) hrest
        rw [digitsAfter, if_pos hdigit]
        exact List.cons_prefix_cons.mpr ⟨rfl, ih⟩

/-- A step of the loop puts one value in the places of its name. -/
theorem replace_pieces {i : Nat} (hi : i < n) (hclosed : ∀ k, Closed (values.getD k []))
    (hfresh : ∀ k, i < k → ¬ placeholder (i + 1) <:+: values.getD k []) {ps : List Piece} (hs : Steady n ps) :
    replaceFrom (placeholder (i + 1)) (values.getD i []) 0 (ps.flatMap (Piece.render values (i + 1))) =
      ps.flatMap (Piece.render values i) := by
  induction ps with
  | nil => rfl
  | cons p ps ih =>
    rw [List.flatMap_cons, List.flatMap_cons]
    cases p with
    | char c =>
      obtain ⟨hdollar, hhole, hs⟩ := hs
      rw [← ih hs]
      refine replaceFrom_keep _ _ fun s t hst ht hp => ?_
      have hone : t = [c] := by
        cases s with
        | nil => exact hst.symm
        | cons d s =>
          obtain ⟨-, hnil⟩ := List.cons.inj hst
          exact absurd (List.append_eq_nil_iff.mp hnil.symm).2 ht
      subst hone
      obtain ⟨rfl, hrest⟩ := List.cons_prefix_cons.mp hp
      have hin := prefix_digitsAfter hs (hhole (.inl rfl)) (isDigit_toString _) hrest
      exact (hdollar rfl).2 i (List.mem_range.mpr hi) hin
    | hole k =>
      obtain ⟨hk, hdigits, hhole, hs⟩ := hs
      rw [← ih hs]
      by_cases hlt : i + 1 < k
      · simp only [Piece.render, if_pos hlt, if_pos (Nat.lt_of_succ_lt hlt)]
        exact replaceFrom_keep _ _ (not_starts_in_value (hclosed _) (hfresh _ (by omega)))
      · by_cases heq : k = i + 1
        · subst heq
          simp only [Piece.render, if_neg (Nat.lt_irrefl _), if_pos (Nat.lt_succ_self _)]
          exact replaceFrom_match (placeholder_ne_nil _) _ _
        · have hle : ¬ i < k := by omega
          simp only [Piece.render, if_neg hlt, if_neg hle]
          refine replaceFrom_keep _ _ fun s t hst ht hp => ?_
          cases s with
          | nil =>
            -- the name of an earlier value is too short
            subst hst
            obtain ⟨-, hrest⟩ := List.cons_prefix_cons.mp hp
            rcases List.prefix_or_prefix_of_prefix hrest (List.prefix_append _ _) with hshort | hlong
            · have hle := le_of_toString_prefix hshort
              omega
            · obtain ⟨u, hu⟩ := hlong
              have hrest : u <+: ps.flatMap (Piece.render values (i + 1)) := by
                rw [← hu] at hrest
                exact (List.prefix_append_right_inj _).mp hrest
              have hdigit : ∀ d ∈ u, d.isDigit = true := fun d hd =>
                isDigit_toString (i + 1) d (hu ▸ List.mem_append_right _ hd)
              have hnil := prefix_digitsAfter hs hhole hdigit hrest
              rw [hdigits, List.prefix_nil] at hnil
              rw [hnil, List.append_nil] at hu
              have hsame := congrArg decimal hu
              rw [decimal_toString, decimal_toString] at hsame
              omega
          | cons d s =>
            obtain ⟨c, cs, rfl⟩ := List.exists_cons_of_ne_nil ht
            obtain ⟨rfl, -⟩ := List.cons_prefix_cons.mp hp
            obtain ⟨-, hst⟩ := List.cons.inj hst
            have hdigit := isDigit_toString k '$' (hst ▸ List.mem_append_right _ List.mem_cons_self)
            exact absurd hdigit (by decide)

theorem bindFrom_pieces (hclosed : ∀ k, Closed (values.getD k []))
    (hfresh : ∀ i k, i < k → ¬ placeholder (i + 1) <:+: values.getD k []) {ps : List Piece} (hs : Steady n ps) :
    ∀ i, i ≤ n → bindFrom values i (ps.flatMap (Piece.render values i)) = ps.flatMap (Piece.render values 0) := by
  intro i hi
  induction i with
  | zero => rfl
  | succ i ih =>
    rw [bindFrom, replace_pieces hi hclosed (fun k hk => hfresh i k hk) hs]
    exact ih (Nat.le_of_succ_le hi)

theorem render_all {ps : List Piece} (hs : Steady n ps) : ps.flatMap (Piece.render values n) = ps.flatMap Piece.text := by
  induction ps with
  | nil => rfl
  | cons p ps ih =>
    rw [List.flatMap_cons, List.flatMap_cons]
    cases p with
    | char c => rw [ih hs.2.2]; rfl
    | hole i =>
      obtain ⟨⟨-, hi⟩, -, -, hs⟩ := hs
      rw [ih hs]
      simp only [Piece.render, if_neg (Nat.not_lt.mpr hi), Piece.text]

theorem render_none {ps : List Piece} (hs : Steady n ps) : ps.flatMap (Piece.render values 0) = ps.flatMap (Piece.fill values) := by
  induction ps with
  | nil => rfl
  | cons p ps ih =>
    rw [List.flatMap_cons, List.flatMap_cons]
    cases p with
    | char c => rw [ih hs.2.2]; rfl
    | hole i =>
      obtain ⟨⟨hi, -⟩, -, -, hs⟩ := hs
      rw [ih hs]
      simp only [Piece.render, if_pos (Nat.lt_of_lt_of_le Nat.zero_lt_one hi), Piece.fill]

end

/-! ## All at once -/

section
variable {values : List (List Char)} {n : Nat}

theorem bytesAsChars_ascii {c : Char} (h : c.toNat < 128) : bytesAsChars c = [c] := by
  have hbyte : String.utf8EncodeChar c = [UInt8.ofNat c.toNat] := if_pos (Nat.le_of_lt_succ h)
  have hval : (UInt8.ofNat c.toNat).toNat = c.toNat := by
    rw [UInt8.toNat_ofNat']
    exact Nat.mod_eq_of_lt (Nat.lt_trans h (by decide))
  unfold bytesAsChars
  rw [hbyte, List.map_singleton, hval, Char.ofNat_toNat]

theorem placeholderAt_of_ne {c : Char} (h : c ≠ '$') (n : Nat) (cs : List Char) : placeholderAt n (c :: cs) = none := by
  unfold placeholderAt
  split
  · rename_i heq
    exact absurd (List.cons.inj heq).1 h
  · rfl

theorem digitsAfter_piecesFrom (s : Scan) (cs : List Char) : digitsAfter (piecesFrom n 0 s cs) = cs.takeWhile Char.isDigit := by
  induction cs generalizing s with
  | nil => rfl
  | cons c cs ih =>
    by_cases hd : c.isDigit = true
    · have hne : c ≠ '$' := by
        rintro rfl
        exact absurd hd (by decide)
      rw [piecesFrom, placeholderAt_of_ne hne]
      cases s.isOutside <;> simp [digitsAfter, hd, ih]
    · rw [List.takeWhile_cons, if_neg hd, piecesFrom]
      split
      · rfl
      · simp [digitsAfter, hd]

/-- The engine writes the values in the same places. -/
theorem substituteFrom_pieces (hn : values.length = n) (text : List Char) (hascii : ∀ c ∈ text, c.toNat < 128) :
    ∀ skip s, Steady n (piecesFrom n skip s text) →
      substituteFrom values skip text = (piecesFrom n skip s text).flatMap (Piece.fill values) := by
  induction text with
  | nil => exact fun skip _ _ => by cases skip <;> rfl
  | cons c cs ih =>
    have ih := ih fun d hd => hascii d (List.mem_cons_of_mem _ hd)
    intro skip s hs
    cases skip with
    | succ skip => exact ih skip s hs
    | zero =>
      have hchar : placeholderAt n (c :: cs) = none → Steady n (.char c :: piecesFrom n 0 (s.step c) cs) →
          substituteFrom values 0 (c :: cs) = (.char c :: piecesFrom n 0 (s.step c) cs).flatMap (Piece.fill values) := by
        intro hp hs
        rw [substituteFrom, hn, hp, List.flatMap_cons, ← ih 0 _ hs.2.2]
        exact congrArg (· ++ _) (bytesAsChars_ascii (hascii c List.mem_cons_self))
      rw [piecesFrom] at hs ⊢
      cases hout : s.isOutside with
      | false =>
        rw [hout] at hs
        refine hchar ?_ hs
        by_cases hc : c = '$'
        · subst hc
          have hno := (hs.1 rfl).1
          rw [digitsAfter_piecesFrom] at hno
          simp only [placeholderAt]
          rw [if_neg]
          rintro ⟨-, -, hin⟩
          exact hno hin
        · exact placeholderAt_of_ne hc _ _
      | true =>
        rw [hout] at hs
        cases hp : placeholderAt n (c :: cs) with
        | none =>
          rw [hp] at hs
          exact hchar hp hs
        | some i =>
          rw [hp] at hs
          dsimp only at hs ⊢
          rw [substituteFrom, hn, hp, List.flatMap_cons, ← ih _ .code hs.2.2.2]
          rfl

end

/-! ## Literals -/

theorem escapeQuotes_eq (raw : List Char) :
    escapeQuotes raw = raw.flatMap fun c => if c = quoteChar then [quoteChar, quoteChar] else [c] := by
  unfold escapeQuotes
  induction raw with
  | nil => rfl
  | cons c raw ih =>
    rw [replaceFrom, List.flatMap_cons, ← ih]
    by_cases hc : c = quoteChar
    · subst hc
      rfl
    · rw [if_neg hc, if_neg]
      · rfl
      · intro hp
        obtain ⟨heq, -⟩ := List.cons_prefix_cons.mp (List.isPrefixOf_iff_prefix.mp hp)
        exact hc heq.symm

theorem escapeQuotes_cons (c : Char) (raw : List Char) :
    escapeQuotes (c :: raw) = (if c = quoteChar then [quoteChar, quoteChar] else [c]) ++ escapeQuotes raw := by
  rw [escapeQuotes_eq, escapeQuotes_eq, List.flatMap_cons]

theorem length_escapeQuotes (raw : List Char) : raw.length ≤ (escapeQuotes raw).length := by
  induction raw with
  | nil => exact Nat.le_refl _
  | cons c raw ih =>
    rw [escapeQuotes_cons, List.length_append, List.length_cons]
    split
    · simp only [List.length_cons, List.length_nil]
      omega
    · simp only [List.length_cons, List.length_nil]
      omega

theorem quoted_ne_raw (raw : List Char) : raw ≠ quoteChar :: escapeQuotes raw ++ [quoteChar] := by
  intro h
  have hlen := congrArg List.length h
  have hle := length_escapeQuotes raw
  simp only [List.length_append, List.length_cons, List.length_nil] at hlen
  omega

theorem denotes_some {raw value : List Char} : Denotes (some raw) value ↔ value = quoteChar :: escapeQuotes raw ++ [quoteChar] ∨
    (isNumber raw = true ∨ lower raw = "true".toList ∨ lower raw = "false".toList) ∧ value = raw := by
  constructor
  · intro h
    cases h with
    | text => exact .inl rfl
    | number h => exact .inr ⟨.inl h, rfl⟩
    | boolean h => exact .inr ⟨.inr h, rfl⟩
  · rintro (rfl | ⟨h | h, rfl⟩)
    · exact .text raw
    · exact .number h
    · exact .boolean h

/-- **What is written for a value is a literal that denotes it exactly where the value is faithful to its type.** -/
theorem denotes_format (param : Option (List Char)) (t : PgType) : Denotes param (formatPortalParam param t) ↔ Faithful param t := by
  cases param with
  | none => exact ⟨fun _ => nofun, fun _ => .null⟩
  | some raw =>
    have hmem : Faithful (some raw) t ↔ lower raw ≠ "null".toList ∧
        ((t.isBare = true ∨ t = .unknown ∧ parsesF64 raw = true) →
          isNumber raw = true ∨ lower raw = "true".toList ∨ lower raw = "false".toList) := by
      simp [Faithful]
    rw [hmem]
    unfold formatPortalParam
    by_cases hnull : lower raw = "null".toList
    · simp only [if_pos hnull, denotes_some]
      constructor
      · rintro (h | ⟨h, rfl⟩)
        · exact absurd (List.cons.inj h).1 (by decide)
        · exact absurd h (by decide)
      · exact fun h => absurd hnull h.1
    · simp only [if_neg hnull, denotes_some]
      by_cases hbare : t.isBare = true ∨ t = .unknown ∧ parsesF64 raw = true
      · have hb : (t.isBare || decide (t = .unknown) && parsesF64 raw) = true := by simpa using hbare
        rw [if_pos hb]
        constructor
        · rintro (h | h)
          · exact absurd h (quoted_ne_raw raw)
          · exact ⟨hnull, fun _ => h.1⟩
        · exact fun h => .inr ⟨h.2 hbare, rfl⟩
      · have hb : ¬(t.isBare || decide (t = .unknown) && parsesF64 raw) = true := by simpa using hbare
        rw [if_neg hb]
        exact ⟨fun _ => ⟨hnull, fun h => absurd h hbare⟩, fun _ => .inl rfl⟩

/-! ## What a literal leaves behind -/

/-- A character that starts and ends nothing. -/
def Inert (c : Char) : Prop := c ≠ quoteChar ∧ c ≠ '"' ∧ c ≠ '-' ∧ c ≠ '*' ∧ c ≠ '/'

instance decidableInert (c : Char) : Decidable (Inert c) := inferInstanceAs (Decidable (_ ∧ _ ∧ _ ∧ _ ∧ _))

theorem step_inert {s : Scan} {c : Char} (hs : s.isOutside = true) (hc : Inert c) : s.step c = .code := by
  obtain ⟨hq, hn, hd, ha, hl⟩ := hc
  cases s with
  | code | dash | slash => simp [Scan.step, hq, hn, hd, ha, hl]
  | literal | name | lineComment | blockComment => cases hs

theorem scan_inert {text : List Char} (h : ∀ c ∈ text, Inert c) {s : Scan} (hs : s.isOutside = true) (hne : text ≠ []) :
    scanText s text = .code := by
  induction text generalizing s with
  | nil => exact absurd rfl hne
  | cons c text ih =>
    show scanText (s.step c) text = .code
    rw [step_inert hs (h c List.mem_cons_self)]
    by_cases ht : text = []
    · rw [ht]
      rfl
    · exact ih (fun d hd => h d (List.mem_cons_of_mem _ hd)) rfl ht

theorem inert_digit {c : Char} (h : c.isDigit = true) : Inert c := by
  refine ⟨?_, ?_, ?_, ?_, ?_⟩ <;> intro hc <;> subst hc <;> exact absurd h (by decide)

theorem scan_placeholder (i : Nat) {s : Scan} (hs : s.isOutside = true) : scanText s (placeholder i) = .code := by
  refine scan_inert (fun c hc => ?_) hs (placeholder_ne_nil i)
  rcases List.mem_cons.mp hc with rfl | hc
  · exact ⟨by decide, by decide, by decide, by decide, by decide⟩
  · exact inert_digit (isDigit_toString i c hc)

theorem scan_append (s : Scan) (a b : List Char) : scanText s (a ++ b) = scanText (scanText s a) b := List.foldl_append

theorem scan_digits {ds : List Char} (h : ∀ c ∈ ds, c.isDigit = true) :
    '$' ∉ ds ∧ ∀ s : Scan, s.isOutside = true → (scanText s ds).isOutside = true ∧ (ds ≠ [] → scanText s ds = .code) := by
  refine ⟨fun hd => absurd (h _ hd) (by decide), fun s hs => ?_⟩
  by_cases hne : ds = []
  · subst hne
    exact ⟨hs, fun hne => absurd rfl hne⟩
  · have hcode := scan_inert (fun c hc => inert_digit (h c hc)) hs hne
    exact ⟨by rw [hcode]; rfl, fun _ => hcode⟩

theorem dropSign_cases (cs : List Char) : cs = '+' :: dropSign cs ∨ cs = '-' :: dropSign cs ∨ cs = dropSign cs := by
  unfold dropSign
  split
  · exact .inl rfl
  · exact .inr (.inl rfl)
  · exact .inr (.inr rfl)

theorem scan_exponent {cs : List Char} (h : isExponent cs = true) : '$' ∉ cs ∧ scanText .code cs = .code := by
  cases cs with
  | nil => exact ⟨List.not_mem_nil, rfl⟩
  | cons c cs =>
    simp only [isExponent, Bool.and_eq_true, Bool.or_eq_true, decide_eq_true_eq] at h
    obtain ⟨⟨hc, hne⟩, hall⟩ := h
    obtain ⟨hdollar, hdigits⟩ := scan_digits fun d hd => List.all_eq_true.mp hall d hd
    have hletter : scanText .code (c :: cs) = scanText .code cs ∧ '$' ≠ c := by
      rcases hc with rfl | rfl <;> exact ⟨rfl, by decide⟩
    rw [hletter.1, List.mem_cons]
    rcases dropSign_cases cs with hcs | hcs | hcs
    · rw [hcs]
      refine ⟨?_, (hdigits .code rfl).2 hne⟩
      rintro (h | h)
      · exact hletter.2 h
      · exact hdollar ((List.mem_cons.mp h).resolve_left (by decide))
    · rw [hcs]
      refine ⟨?_, (hdigits .dash rfl).2 hne⟩
      rintro (h | h)
      · exact hletter.2 h
      · exact hdollar ((List.mem_cons.mp h).resolve_left (by decide))
    · rw [hcs]
      refine ⟨?_, (hdigits .code rfl).2 hne⟩
      rintro (h | h)
      · exact hletter.2 h
      · exact hdollar h

theorem isDigit_takeWhile (cs : List Char) : ∀ c ∈ cs.takeWhile Char.isDigit, c.isDigit = true :=
  fun _ hc => List.mem_takeWhile_imp hc

/-- A number has no dollar sign, and leaves nothing open. -/
theorem scan_number {raw : List Char} (h : isNumber raw = true) :
    '$' ∉ raw ∧ ∀ s : Scan, s.isOutside = true → scanText s raw = .code := by
  obtain ⟨hwhole, hscan⟩ := scan_digits (isDigit_takeWhile raw)
  have hraw : raw = raw.takeWhile Char.isDigit ++ raw.dropWhile Char.isDigit := List.takeWhile_append_dropWhile.symm
  unfold isNumber at h
  dsimp only at h
  split at h
  · rename_i rest heq
    obtain ⟨hfrac, hfscan⟩ := scan_digits (isDigit_takeWhile rest)
    obtain ⟨hexp, hescan⟩ := scan_exponent (Bool.and_eq_true_iff.mp h).2
    have hrest : rest = rest.takeWhile Char.isDigit ++ rest.dropWhile Char.isDigit := List.takeWhile_append_dropWhile.symm
    rw [heq] at hraw
    constructor
    · rw [hraw, List.mem_append, List.mem_cons, hrest, List.mem_append]
      rintro (h | h | h | h)
      · exact hwhole h
      · exact absurd h (by decide)
      · exact hfrac h
      · exact hexp h
    · intro s hs
      have hpoint : scanText (scanText s (raw.takeWhile Char.isDigit)) ('.' :: rest) = scanText .code rest := by
        show scanText ((scanText s (raw.takeWhile Char.isDigit)).step '.') rest = _
        rw [step_inert (hscan s hs).1 (by decide)]
      have hcode : scanText .code (rest.takeWhile Char.isDigit) = .code := by
        by_cases hne : rest.takeWhile Char.isDigit = []
        · rw [hne]
          rfl
        · exact (hfscan .code rfl).2 hne
      rw [hraw, scan_append, hpoint, hrest, scan_append, hcode]
      exact hescan
  · obtain ⟨hne, he⟩ := Bool.and_eq_true_iff.mp h
    obtain ⟨hexp, hescan⟩ := scan_exponent he
    constructor
    · rw [hraw, List.mem_append]
      rintro (h | h)
      · exact hwhole h
      · exact hexp h
    · intro s hs
      rw [hraw, scan_append, (hscan s hs).2 (of_decide_eq_true hne)]
      exact hescan

theorem inert_of_lower {raw word : List Char} (h : lower raw = word) (hw : ∀ c ∈ word, Inert c ∧ c ≠ '$') :
    '$' ∉ raw ∧ ∀ c ∈ raw, Inert c := by
  have hlower : ∀ c ∈ raw, c.toLower ∈ word := fun c hc => h ▸ List.mem_map_of_mem hc
  refine ⟨fun hd => (hw _ (hlower _ hd)).2 (by decide), fun c hc => ?_⟩
  obtain ⟨hq, hn, hd, ha, hl⟩ := (hw _ (hlower c hc)).1
  refine ⟨?_, ?_, ?_, ?_, ?_⟩ <;> intro he <;> subst he
  · exact hq (by decide)
  · exact hn (by decide)
  · exact hd (by decide)
  · exact ha (by decide)
  · exact hl (by decide)

theorem scan_escapeQuotes (raw : List Char) : scanText .literal (escapeQuotes raw) = .literal := by
  induction raw with
  | nil => rfl
  | cons c raw ih =>
    rw [escapeQuotes_cons, scan_append]
    by_cases hc : c = quoteChar
    · rw [if_pos hc]
      exact ih
    · rw [if_neg hc]
      have hstep : scanText .literal [c] = .literal := if_neg hc
      rw [hstep]
      exact ih

theorem scan_word {word : List Char} (h : word.all (fun c => decide (Inert c ∧ c ≠ '$')) = true) (hne : word ≠ []) {raw : List Char}
    (hraw : lower raw = word) : Closed raw ∧ ∀ s : Scan, s.isOutside = true → scanText s raw = .code := by
  obtain ⟨hdollar, hinert⟩ := inert_of_lower hraw fun c hc => of_decide_eq_true (List.all_eq_true.mp h c hc)
  refine ⟨.inl hdollar, fun s hs => scan_inert hinert hs ?_⟩
  rintro rfl
  exact hne hraw.symm

/-- A literal leaves nothing open. -/
theorem closed_scan_of_denotes {param : Option (List Char)} {value : List Char} (h : Denotes param value) :
    Closed value ∧ ∀ s : Scan, s.isOutside = true → scanText s value = .code := by
  cases h with
  | null => exact @scan_word "null".toList (by decide) (by decide) _ rfl
  | text raw =>
    refine ⟨.inr List.getLast?_concat, fun s hs => ?_⟩
    have hopen : s.step quoteChar = .literal := by
      cases s with
      | code | dash | slash => rfl
      | literal | name | lineComment | blockComment => cases hs
    rw [scan_append]
    show scanText (scanText (s.step quoteChar) (escapeQuotes raw)) [quoteChar] = .code
    rw [hopen, scan_escapeQuotes]
    rfl
  | number hn => exact ⟨.inl (scan_number hn).1, (scan_number hn).2⟩
  | boolean hb =>
    rcases hb with hb | hb
    · exact scan_word (by decide) (by decide) hb
    · exact scan_word (by decide) (by decide) hb

/-! ## Names in values -/

theorem prefix_escapeQuotes {needle raw : List Char} (hq : quoteChar ∉ needle) (h : needle <+: escapeQuotes raw) : needle <+: raw := by
  induction raw generalizing needle with
  | nil => exact h
  | cons c raw ih =>
    cases needle with
    | nil => exact List.nil_prefix
    | cons d needle =>
      rw [escapeQuotes_cons] at h
      by_cases hc : c = quoteChar
      · rw [if_pos hc] at h
        obtain ⟨rfl, -⟩ := List.cons_prefix_cons.mp h
        exact absurd List.mem_cons_self hq
      · rw [if_neg hc] at h
        obtain ⟨rfl, hrest⟩ := List.cons_prefix_cons.mp h
        exact List.cons_prefix_cons.mpr ⟨rfl, ih (fun hm => hq (List.mem_cons_of_mem _ hm)) hrest⟩

theorem infix_escapeQuotes {needle raw : List Char} (hq : quoteChar ∉ needle) (hne : needle ≠ []) (h : needle <:+: escapeQuotes raw) :
    needle <:+: raw := by
  induction raw with
  | nil => exact h
  | cons c raw ih =>
    rw [escapeQuotes_cons] at h
    by_cases hc : c = quoteChar
    · rw [if_pos hc] at h
      rcases List.infix_cons_iff.mp h with hp | h
      · obtain ⟨d, ds, rfl⟩ := List.exists_cons_of_ne_nil hne
        obtain ⟨rfl, -⟩ := List.cons_prefix_cons.mp hp
        exact absurd List.mem_cons_self hq
      · rcases List.infix_cons_iff.mp h with hp | h
        · obtain ⟨d, ds, rfl⟩ := List.exists_cons_of_ne_nil hne
          obtain ⟨rfl, -⟩ := List.cons_prefix_cons.mp hp
          exact absurd List.mem_cons_self hq
        · exact List.infix_cons (ih h)
    · rw [if_neg hc] at h
      rcases List.infix_cons_iff.mp h with hp | h
      · obtain ⟨d, ds, rfl⟩ := List.exists_cons_of_ne_nil hne
        obtain ⟨rfl, hrest⟩ := List.cons_prefix_cons.mp hp
        have hrest := prefix_escapeQuotes (fun hm => hq (List.mem_cons_of_mem _ hm)) hrest
        exact (List.cons_prefix_cons.mpr ⟨rfl, hrest⟩).isInfix
      · exact List.infix_cons (ih h)

theorem quote_not_mem_placeholder (i : Nat) : quoteChar ∉ placeholder i := by
  intro h
  rcases List.mem_cons.mp h with h | h
  · exact absurd h (by decide)
  · exact absurd (isDigit_toString i _ h) (by decide)

/-- A name in what is written for a value is in the value. -/
theorem infix_of_denotes {param : Option (List Char)} {value : List Char} (h : Denotes param value) {i : Nat}
    (hi : placeholder i <:+: value) : ∃ raw ∈ param, placeholder i <:+: raw := by
  have hdollar : '$' ∈ value := hi.subset List.mem_cons_self
  cases h with
  | null => exact absurd hdollar (by decide)
  | text raw =>
    have hquote := quote_not_mem_placeholder i
    refine ⟨raw, rfl, infix_escapeQuotes hquote (placeholder_ne_nil i) ?_⟩
    rw [List.cons_append] at hi
    rcases List.infix_cons_iff.mp hi with hp | hi
    · obtain ⟨hq, -⟩ := List.cons_prefix_cons.mp hp
      exact absurd hq (by decide)
    · obtain ⟨s, u, hu⟩ := hi
      rcases List.eq_nil_or_concat u with rfl | ⟨u, c, rfl⟩
      · rw [List.append_nil] at hu
        have hlast := congrArg List.getLast? hu
        rw [List.getLast?_append_of_ne_nil _ (placeholder_ne_nil i), List.getLast?_concat] at hlast
        exact absurd (List.mem_of_getLast? hlast) hquote
      · rw [List.concat_eq_append, ← List.append_assoc] at hu
        exact ⟨s, u, (List.append_inj' hu rfl).1⟩
  | number hn => exact ⟨_, rfl, hi⟩
  | boolean hb => exact ⟨_, rfl, hi⟩

/-! ## Portals -/

/-- Every name stands in a state outside of literals. -/
def HolesOutside : Scan → List Piece → Prop
  | _, [] => True
  | s, .char c :: ps => HolesOutside (s.step c) ps
  | s, .hole _ :: ps => s.isOutside = true ∧ HolesOutside .code ps

theorem holesOutside_piecesFrom (n : Nat) (text : List Char) : ∀ skip s, HolesOutside s (piecesFrom n skip s text) := by
  induction text with
  | nil => exact fun skip _ => by cases skip <;> trivial
  | cons c text ih =>
    intro skip s
    cases skip with
    | succ skip => exact ih skip s
    | zero =>
      rw [piecesFrom]
      split
      · rename_i hout _
        exact ⟨hout, ih _ _⟩
      · exact ih _ _

theorem scan_pieces {values : List (List Char)} {n : Nat}
    (hv : ∀ i < n, ∀ s : Scan, s.isOutside = true → scanText s (values.getD i []) = .code) {ps qs : List Piece} :
    ∀ s, HolesOutside s (ps ++ qs) → Steady n (ps ++ qs) →
      scanText s (ps.flatMap (Piece.fill values)) = scanText s (ps.flatMap Piece.text) := by
  induction ps with
  | nil => exact fun _ _ _ => rfl
  | cons p ps ih =>
    intro s hout hs
    rw [List.flatMap_cons, List.flatMap_cons, scan_append, scan_append]
    cases p with
    | char c => exact ih _ hout hs.2.2
    | hole i =>
      obtain ⟨⟨hi, hin⟩, -, -, hs⟩ := hs
      have hfill : scanText s (Piece.fill values (.hole i)) = .code := hv (i - 1) (by omega) s hout.1
      have htext : scanText s (Piece.text (.hole i)) = .code := scan_placeholder i hout.1
      rw [hfill, htext]
      exact ih _ hout.2 hs

def Portal.pieces (p : Portal) : List Piece := PotatoDB.pieces p.parameters.length p.statement

/-- The names of the values are in the text only as holes, no value has the name of an earlier one in it, and the text is
ASCII. -/
structure Portal.Undisturbed (p : Portal) : Prop where
  canonical : p.pieces.flatMap Piece.text = p.statement
  steady : Steady p.parameters.length p.pieces
  fresh : ∀ k raw, p.parameters[k]? = some (some raw) → ∀ i < k, ¬ placeholder (i + 1) <:+: raw
  ascii : p.parameters = [] ∨ ∀ c ∈ p.statement, c.toNat < 128

/-- The bound text is the text with a literal for each value in the places of its name, which leaves every other character
inside of what it was inside of, and the engine writes the same. -/
structure Portal.BindsLiterals (p : Portal) : Prop where
  filled : bindPortalSql p = p.pieces.flatMap (Piece.fill p.values)
  literal : ∀ v ∈ p.parameters.zipIdx, Denotes v.1 (formatPortalParam v.1 (p.typeOf v.2))
  scanned : ∀ ps qs, p.pieces = ps ++ qs →
    scanText .code (ps.flatMap (Piece.fill p.values)) = scanText .code (ps.flatMap Piece.text)
  engine : substituteParameters p.statement p.values = bindPortalSql p

theorem length_values (p : Portal) : p.values.length = p.parameters.length := by
  simp [Portal.values]

theorem values_getD {p : Portal} {k : Nat} {param : Option (List Char)} (hk : p.parameters[k]? = some param) :
    p.values.getD k [] = formatPortalParam param (p.typeOf k) := by
  unfold Portal.values
  rw [List.getD_eq_getElem?_getD, List.getElem?_map, List.getElem?_zipIdx, hk]
  simp

instance decidableUnnamed (n : Nat) (digits : List Char) : Decidable (Unnamed n digits) :=
  inferInstanceAs (Decidable (_ ∧ _))

instance decidableSteady (n : Nat) : (ps : List Piece) → Decidable (Steady n ps)
  | [] => isTrue trivial
  | .char c :: ps =>
    have := decidableSteady n ps
    inferInstanceAs (Decidable ((c = '$' → Unnamed n (digitsAfter ps)) ∧
      ((c = '$' ∨ c.isDigit = true) → startsWithHole ps = false) ∧ Steady n ps))
  | .hole i :: ps =>
    have := decidableSteady n ps
    inferInstanceAs (Decidable ((1 ≤ i ∧ i ≤ n) ∧ digitsAfter ps = [] ∧ startsWithHole ps = false ∧ Steady n ps))

/-- A quote in the first value and the name of the second in a literal of the text would be trouble; the dollar sign is not. -/
def calmPortal : Portal :=
  ⟨"SELECT $1 FROM t WHERE a < $2 AND b = '$ $3'".toList, [none, some .int4], [some "it's $2".toList, some "42".toList]⟩

/-- The second value is the name of the first, which is a piece of SQL. -/
def namingPortal : Portal :=
  ⟨"SELECT $1, $2".toList, [], [some ", password FROM users --".toList, some "$1".toList]⟩

end PotatoDB
