import PotatoDB.Brackets
import PotatoDB.TextParsersSound

/-!
# Argument lists

Calls and lists of columns are taken apart at their parentheses and at the commas outside of them, both by a scan that knows
single-quoted literals.
-/

namespace PotatoDB

open Slices (bytes)
open Brackets (Nested Balanced State)

/-- Literals in single quotes, and parentheses. -/
def sqlMarks : Brackets.Marks Char where
  quote := quoteChar
  opening := '('
  closing := ')'
  quote_ne_opening := by decide
  quote_ne_closing := by decide
  opening_ne_closing := by decide

/-- An item of a list: not empty, without blanks around it, its parentheses balanced and its literals closed, and commas only
inside of them. -/
structure IsItem (item : List Char) : Prop where
  ne_nil : item ≠ []
  trimmed : trim item = item
  nested : Nested sqlMarks (· ≠ ',') item

/-- The parenthesis that closes the one at an offset: between them the parentheses are balanced and the literals closed. -/
def Closing (s : List Char) (openIdx close : Nat) : Prop :=
  ∃ u inner w, s = u ++ '(' :: (inner ++ ')' :: w) ∧ bytes u = openIdx ∧ Balanced sqlMarks inner ∧ close = openIdx + 1 + bytes inner

theorem advance_sqlMarks (depth : Nat) (quoted : Bool) (c : Char) : Brackets.advance sqlMarks ⟨depth, quoted⟩ c =
    if c = quoteChar then ⟨depth, !quoted⟩
    else if quoted then ⟨depth, quoted⟩
    else if c = '(' then ⟨depth + 1, false⟩
    else if c = ')' then ⟨depth - 1, false⟩
    else ⟨depth, quoted⟩ := rfl

/-! ## Items -/

/-- A doubled quote is read as a quote that ends a literal and one that starts the next. -/
theorem splitTopLevelCsv_quote (depth : Nat) (cur s : List Char) :
    splitTopLevelCsv true depth cur (quoteChar :: s) = splitTopLevelCsv false depth (quoteChar :: cur) s := by
  cases s with
  | nil => simp only [splitTopLevelCsv]
  | cons c s =>
    rw [splitTopLevelCsv, if_pos rfl]
    by_cases hc : c = quoteChar
    · rw [if_pos hc]
      conv_rhs => rw [splitTopLevelCsv, if_pos hc]
    · rw [if_neg hc]

theorem splitTopLevelCsv_quoted (depth : Nat) (cur s : List Char) {c : Char} (h : c ≠ quoteChar) :
    splitTopLevelCsv true depth cur (c :: s) = splitTopLevelCsv true depth (c :: cur) s := by
  cases s with
  | nil => simp only [splitTopLevelCsv]
  | cons d s => rw [splitTopLevelCsv, if_neg h]

theorem splitTopLevelCsv_cons (quoted : Bool) (depth : Nat) (cur s : List Char) {c : Char}
    (h : ¬ (depth = 0 ∧ quoted = false ∧ c = ',')) : splitTopLevelCsv quoted depth cur (c :: s) =
      splitTopLevelCsv (Brackets.advance sqlMarks ⟨depth, quoted⟩ c).quoted (Brackets.advance sqlMarks ⟨depth, quoted⟩ c).depth
        (c :: cur) s := by
  rw [advance_sqlMarks]
  cases quoted with
  | true =>
    by_cases hq : c = quoteChar
    · subst hq
      rw [splitTopLevelCsv_quote, if_pos rfl]
      rfl
    · rw [splitTopLevelCsv_quoted depth cur s hq, if_neg hq, if_pos rfl]
  | false =>
    have hcomma : ¬ (c = ',' ∧ depth = 0) := fun hstop => h ⟨hstop.2, rfl, hstop.1⟩
    rw [splitTopLevelCsv, if_neg hcomma, if_neg Bool.false_ne_true]
    split_ifs <;> rfl

theorem splitTopLevelCsv_pieces (s : List Char) : ∀ (quoted : Bool) (depth : Nat) (cur : List Char),
    splitTopLevelCsv quoted depth cur s =
      ((Brackets.pieces sqlMarks ',' ⟨depth, quoted⟩ s).modifyHead (cur.reverse ++ ·)).flatMap fun piece => csvItem piece.reverse := by
  induction s with
  | nil => simp [splitTopLevelCsv, Brackets.pieces]
  | cons c s ih =>
    intro quoted depth cur
    rw [Brackets.pieces]
    by_cases hstop : depth = 0 ∧ quoted = false ∧ c = ','
    · rw [if_pos hstop]
      obtain ⟨rfl, rfl, rfl⟩ := hstop
      have hread : splitTopLevelCsv false 0 cur (',' :: s) = csvItem cur ++ splitTopLevelCsv false 0 [] s := by
        simp [splitTopLevelCsv, quoteChar]
      have hpieces := ih false 0 []
      rw [hread, hpieces]
      cases hs : Brackets.pieces sqlMarks ',' ⟨0, false⟩ s <;> simp
    · rw [if_neg hstop, splitTopLevelCsv_cons quoted depth cur s hstop, ih, List.modifyHead_modifyHead]
      congr 2
      funext piece
      simp

theorem csvItem_item {item : List Char} (h : IsItem item) : csvItem item.reverse = [item] := by
  have htrimmed : trimMatches isWhitespace item = item := h.trimmed
  simp only [csvItem, List.reverse_reverse, htrimmed, if_neg h.ne_nil]

theorem split_items {items : List (List Char)} (h : ∀ item ∈ items, IsItem item) :
    splitTopLevelCsv false 0 [] ([','].intercalate items) = items := by
  cases items with
  | nil => rfl
  | cons item items =>
    rw [splitTopLevelCsv_pieces, Brackets.pieces_joined (by decide) (by decide) fun t ht => (h t ht).nested]
    have hitems : (item :: items).flatMap (fun t => csvItem t.reverse) = (item :: items).flatMap fun t => [t] :=
      List.flatMap_congr fun t ht => csvItem_item (h t ht)
    simpa using hitems

/-! ## The closing parenthesis -/

theorem foldl_utf8Size (s : List Char) (idx : Nat) : s.foldl (fun idx c => idx + c.utf8Size) idx = idx + bytes s := by
  induction s generalizing idx with
  | nil => rfl
  | cons c s ih => rw [List.foldl_cons, ih, Slices.bytes_cons, Nat.add_assoc]

theorem matchParen_ending (s : List Char) (depth : Nat) (quoted : Bool) (idx : Nat) :
    Texts.matchParen (depth + 1) quoted idx s = (Brackets.ending sqlMarks ⟨depth, quoted⟩ s).map fun r => idx + bytes r.1 := by
  have hloop := @Brackets.ending_loop Char Nat _ sqlMarks Nat (fun d q idx s => Texts.matchParen (d + 1) q idx s)
    (fun idx c => idx + c.utf8Size) (fun idx _ => idx) (fun _ _ _ => rfl) ?_ s depth quoted idx
  · simpa only [foldl_utf8Size] using hloop
  · intro d q idx c s
    rw [Texts.matchParen]
    cases d <;> rfl

theorem findMatchingParen_iff (s : List Char) (openIdx close : Nat) :
    Texts.findMatchingParen s openIdx = some close ↔ Closing s openIdx close := by
  have hscan : ∀ rest, Texts.matchParen 0 false openIdx ('(' :: rest) =
      (Brackets.ending sqlMarks ⟨0, false⟩ rest).map fun r => openIdx + 1 + bytes r.1 := by
    intro rest
    rw [Texts.matchParen, if_neg (by decide), if_neg Bool.false_ne_true, if_pos rfl]
    exact matchParen_ending rest 0 false (openIdx + 1)
  constructor
  · intro h
    unfold Texts.findMatchingParen at h
    split at h
    · rename_i rest hrest
      obtain ⟨u, hs, hu⟩ := Slices.sliceFrom_split hrest
      rw [hscan] at h
      obtain ⟨⟨inner, w⟩, hending, heq⟩ := Option.map_eq_some_iff.mp h
      obtain ⟨hsplit, hbalanced⟩ := Brackets.ending_iff.mp hending
      exact ⟨u, inner, w, by rw [hs, hsplit]; rfl, hu, hbalanced, heq.symm⟩
    · cases h
  · rintro ⟨u, inner, w, hs, hu, hbalanced, hclose⟩
    have hslice : Slices.sliceFrom s openIdx = some ('(' :: (inner ++ ')' :: w)) := by
      rw [hs, ← hu, Slices.sliceFrom_append]
    have hending : Brackets.ending sqlMarks ⟨0, false⟩ (inner ++ ')' :: w) = some (inner, w) :=
      Brackets.ending_iff.mpr ⟨rfl, hbalanced⟩
    rw [Texts.findMatchingParen, hslice]
    simp only [hscan, hending, Option.map_some, hclose]

/-- The scan that the full-text functions use finds the same parenthesis. -/
theorem findMatchingParen_ending (s : List Char) (depth : Nat) (quoted : Bool) (acc : List Char) :
    findMatchingParen (depth + 1) quoted acc s =
      (Brackets.ending sqlMarks ⟨depth, quoted⟩ s).map fun r => (acc.reverse ++ r.1, r.2) := by
  have hloop := @Brackets.ending_loop Char (List Char × List Char) _ sqlMarks (List Char)
    (fun d q acc s => findMatchingParen (d + 1) q acc s) (fun acc c => c :: acc) (fun acc s => (acc.reverse, s)) (fun _ _ _ => rfl)
    ?_ s depth quoted acc
  · simpa using hloop
  · intro d q acc c s
    rw [findMatchingParen]
    cases d <;> simp [sqlMarks]

/-- A list of items joined by commas is split into them, and of every opening parenthesis the closing one is found, if there
is one. -/
theorem argument_scans :
    (∀ items : List (List Char), (∀ item ∈ items, IsItem item) → splitTopLevelCsv false 0 [] ([','].intercalate items) = items) ∧
      ∀ s openIdx, (∀ close, Texts.findMatchingParen s openIdx = some close ↔ Closing s openIdx close) ∧
        (Texts.findMatchingParen s openIdx = none ↔ ∀ close, ¬ Closing s openIdx close) := by
  refine ⟨fun items h => split_items h, fun s openIdx => ⟨findMatchingParen_iff s openIdx, ?_⟩⟩
  rw [Option.eq_none_iff_forall_ne_some]
  exact forall_congr' fun close => not_congr (findMatchingParen_iff s openIdx close)

/-- A call and a literal, each with a comma in it. -/
def callAndLiteral : List (List Char) := ["f(a,b)".toList, "'x, (y'".toList]

theorem callAndLiteral_items : ∀ item ∈ callAndLiteral, IsItem item := by
  have hplain : ∀ {p : Char → Prop} {c : Char} {s : List Char}, c ≠ quoteChar ∧ c ≠ '(' ∧ c ≠ ')' → p c → Nested sqlMarks p s →
      Nested sqlMarks p (c :: s) := fun hc hp h => .plain hc hp h
  have harguments : Balanced sqlMarks "a,b".toList :=
    hplain (by decide) trivial (hplain (by decide) trivial (hplain (by decide) trivial .nil))
  have hcall : Nested sqlMarks (· ≠ ',') "f(a,b)".toList := hplain (by decide) (by decide) (.group harguments .nil)
  have hliteral : Nested sqlMarks (· ≠ ',') "'x, (y'".toList := .literal "x, (y".toList .nil
  intro item hitem
  simp only [callAndLiteral, List.mem_cons, List.not_mem_nil, or_false] at hitem
  obtain rfl | rfl := hitem
  · exact ⟨by decide, by decide, hcall⟩
  · exact ⟨by decide, by decide, hliteral⟩

theorem callAndLiteral_split : splitTopLevelCsv false 0 [] ([','].intercalate callAndLiteral) = callAndLiteral :=
  argument_scans.1 callAndLiteral callAndLiteral_items

end PotatoDB
