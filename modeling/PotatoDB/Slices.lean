import Mathlib

/-!
# Texts cut at byte offsets

A text is a list of characters of one to four bytes each, and is cut at byte offsets that are
between two characters. An offset found in a copy of a text is between the same characters of the
text when every character before it has kept its length.
-/

namespace Slices

/-! ## Texts -/

def bytes (s : List Char) : Nat := (s.map Char.utf8Size).sum

/-- `&s[i..]`. -/
def sliceFrom : List Char → Nat → Option (List Char)
  | s, 0 => some s
  | [], _ + 1 => none
  | c :: s, i + 1 => if c.utf8Size ≤ i + 1 then sliceFrom s (i + 1 - c.utf8Size) else none

/-- `&s[..i]`. -/
def sliceTo : List Char → Nat → Option (List Char)
  | _, 0 => some []
  | [], _ + 1 => none
  | c :: s, i + 1 => if c.utf8Size ≤ i + 1 then (sliceTo s (i + 1 - c.utf8Size)).map (c :: ·) else none

/-- `&s[i..j]`. -/
def slice (s : List Char) (i j : Nat) : Option (List Char) :=
  if i ≤ j then (sliceFrom s i).bind fun r => sliceTo r (j - i) else none

/-- The offset of the first occurrence of a text. -/
def find (needle : List Char) : List Char → Option Nat
  | [] => if needle = [] then some 0 else none
  | c :: s => if needle.isPrefixOf (c :: s) then some 0 else (find needle s).map (· + c.utf8Size)

/-- The offset of the last occurrence of a text. -/
def rfind (needle : List Char) : List Char → Option Nat
  | [] => if needle = [] then some 0 else none
  | c :: s =>
    match rfind needle s with
    | some i => some (i + c.utf8Size)
    | none => if needle.isPrefixOf (c :: s) then some 0 else none

/-- The offset of the first of some characters. -/
def findChar (p : Char → Bool) : List Char → Option Nat
  | [] => none
  | c :: s => if p c then some 0 else (findChar p s).map (· + c.utf8Size)

@[simp] theorem bytes_nil : bytes [] = 0 := rfl

@[simp] theorem bytes_cons (c : Char) (s : List Char) : bytes (c :: s) = c.utf8Size + bytes s := by
  simp [bytes]

@[simp] theorem bytes_append (s t : List Char) : bytes (s ++ t) = bytes s + bytes t := by
  simp [bytes]

theorem sliceFrom_behind (p r : List Char) (i : Nat) : sliceFrom (p ++ r) (bytes p + i) = sliceFrom r i := by
  induction p with
  | nil => rw [List.nil_append, bytes_nil, Nat.zero_add]
  | cons c p ih =>
    obtain ⟨n, hn⟩ := Nat.exists_eq_succ_of_ne_zero (Nat.pos_iff_ne_zero.mp c.utf8Size_pos)
    have hb : bytes (c :: p) + i = n + bytes p + i + 1 := by
      rw [bytes_cons, hn]
      omega
    rw [List.cons_append, hb, sliceFrom, if_pos (by omega), show n + bytes p + i + 1 - c.utf8Size = bytes p + i by omega]
    exact ih

theorem sliceTo_behind (p r : List Char) (i : Nat) : sliceTo (p ++ r) (bytes p + i) = (sliceTo r i).map (p ++ ·) := by
  induction p with
  | nil =>
    rw [List.nil_append, bytes_nil, Nat.zero_add]
    exact Option.map_id'.symm
  | cons c p ih =>
    obtain ⟨n, hn⟩ := Nat.exists_eq_succ_of_ne_zero (Nat.pos_iff_ne_zero.mp c.utf8Size_pos)
    have hb : bytes (c :: p) + i = n + bytes p + i + 1 := by
      rw [bytes_cons, hn]
      omega
    rw [List.cons_append, hb, sliceTo, if_pos (by omega), show n + bytes p + i + 1 - c.utf8Size = bytes p + i by omega, ih,
      Option.map_map]
    rfl

theorem slice_behind (p r : List Char) (i j : Nat) : slice (p ++ r) (bytes p + i) (bytes p + j) = slice r i j := by
  unfold slice
  by_cases hij : i ≤ j
  · rw [if_pos (Nat.add_le_add_left hij _), if_pos hij, sliceFrom_behind, show bytes p + j - (bytes p + i) = j - i by omega]
  · rw [if_neg hij, if_neg (by omega)]

theorem sliceFrom_append (p r : List Char) : sliceFrom (p ++ r) (bytes p) = some r := by
  have hwhole : sliceFrom r 0 = some r := by cases r <;> rfl
  exact (sliceFrom_behind p r 0).trans hwhole

theorem sliceTo_append (p r : List Char) : sliceTo (p ++ r) (bytes p) = some p := by
  have hnone : sliceTo r 0 = some [] := by cases r <;> rfl
  have hbehind := sliceTo_behind p r 0
  rw [hnone, Option.map_some, List.append_nil] at hbehind
  exact hbehind

theorem slice_zero (r : List Char) (j : Nat) : slice r 0 j = sliceTo r j := by
  have hwhole : sliceFrom r 0 = some r := by cases r <;> rfl
  rw [slice, if_pos (Nat.zero_le j), hwhole]
  rfl

theorem slice_append (p q r : List Char) : slice (p ++ q ++ r) (bytes p) (bytes p + bytes q) = some q := by
  unfold slice
  rw [if_pos (Nat.le_add_right _ _), List.append_assoc, sliceFrom_append, Nat.add_sub_cancel_left]
  exact sliceTo_append q r

theorem sliceFrom_split : ∀ {s : List Char} {i : Nat} {r : List Char}, sliceFrom s i = some r → ∃ p, s = p ++ r ∧ bytes p = i
  | s, 0, r, h => by
    rw [sliceFrom] at h
    cases h
    exact ⟨[], rfl, rfl⟩
  | [], i + 1, r, h => by
    rw [sliceFrom] at h
    cases h
  | c :: s, i + 1, r, h => by
    rw [sliceFrom] at h
    by_cases hc : c.utf8Size ≤ i + 1
    · rw [if_pos hc] at h
      obtain ⟨p, rfl, hp⟩ := sliceFrom_split h
      exact ⟨c :: p, rfl, by rw [bytes_cons, hp]; omega⟩
    · rw [if_neg hc] at h
      cases h

theorem sliceTo_split : ∀ {s : List Char} {i : Nat} {p : List Char}, sliceTo s i = some p → ∃ r, s = p ++ r ∧ bytes p = i
  | s, 0, p, h => by
    rw [sliceTo] at h
    cases h
    exact ⟨s, rfl, rfl⟩
  | [], i + 1, p, h => by
    rw [sliceTo] at h
    cases h
  | c :: s, i + 1, p, h => by
    rw [sliceTo] at h
    by_cases hc : c.utf8Size ≤ i + 1
    · rw [if_pos hc] at h
      obtain ⟨q, hq, rfl⟩ := Option.map_eq_some_iff.mp h
      obtain ⟨r, rfl, hb⟩ := sliceTo_split hq
      exact ⟨r, rfl, by rw [bytes_cons, hb]; omega⟩
    · rw [if_neg hc] at h
      cases h

theorem find_split {needle : List Char} : ∀ {s : List Char} {i : Nat}, find needle s = some i →
    ∃ p r, s = p ++ needle ++ r ∧ bytes p = i
  | [], i, h => by
    rw [find] at h
    by_cases hn : needle = []
    · rw [if_pos hn] at h
      cases h
      exact ⟨[], [], by rw [hn]; rfl, rfl⟩
    · rw [if_neg hn] at h
      cases h
  | c :: s, i, h => by
    rw [find] at h
    by_cases hp : needle.isPrefixOf (c :: s) = true
    · rw [if_pos hp] at h
      cases h
      obtain ⟨r, hr⟩ := List.isPrefixOf_iff_prefix.mp hp
      exact ⟨[], r, hr.symm, rfl⟩
    · rw [if_neg hp] at h
      obtain ⟨j, hj, rfl⟩ := Option.map_eq_some_iff.mp h
      obtain ⟨p, r, rfl, rfl⟩ := find_split hj
      exact ⟨c :: p, r, rfl, by rw [bytes_cons, Nat.add_comm]⟩

theorem rfind_split {needle : List Char} : ∀ {s : List Char} {i : Nat}, rfind needle s = some i →
    ∃ p r, s = p ++ needle ++ r ∧ bytes p = i
  | [], i, h => by
    rw [rfind] at h
    by_cases hn : needle = []
    · rw [if_pos hn] at h
      cases h
      exact ⟨[], [], by rw [hn]; rfl, rfl⟩
    · rw [if_neg hn] at h
      cases h
  | c :: s, i, h => by
    rw [rfind] at h
    cases hs : rfind needle s with
    | some j =>
      rw [hs] at h
      cases h
      obtain ⟨p, r, rfl, rfl⟩ := rfind_split hs
      exact ⟨c :: p, r, rfl, by rw [bytes_cons, Nat.add_comm]⟩
    | none =>
      rw [hs] at h
      dsimp only at h
      by_cases hp : needle.isPrefixOf (c :: s) = true
      · rw [if_pos hp] at h
        cases h
        obtain ⟨r, hr⟩ := List.isPrefixOf_iff_prefix.mp hp
        exact ⟨[], r, hr.symm, rfl⟩
      · rw [if_neg hp] at h
        cases h

theorem rfind_ne_none {needle : List Char} : ∀ {p r : List Char}, rfind needle (p ++ needle ++ r) ≠ none
  | [], r => by
    cases hn : needle ++ r with
    | nil =>
      obtain ⟨rfl, rfl⟩ := List.append_eq_nil_iff.mp hn
      nofun
    | cons c s =>
      rw [List.nil_append, hn, rfind]
      cases rfind needle s with
      | some j => nofun
      | none =>
        dsimp only
        rw [if_pos (List.isPrefixOf_iff_prefix.mpr ⟨r, hn⟩)]
        nofun
  | c :: p, r => by
    rw [List.cons_append, List.cons_append, rfind]
    cases hrest : rfind needle (p ++ needle ++ r) with
    | some j => nofun
    | none => exact absurd hrest rfind_ne_none

theorem findChar_split {p : Char → Bool} : ∀ {s : List Char} {i : Nat}, findChar p s = some i →
    ∃ before c after, s = before ++ c :: after ∧ p c = true ∧ bytes before = i
  | c :: s, i, h => by
    rw [findChar] at h
    by_cases hp : p c = true
    · rw [if_pos hp] at h
      cases h
      exact ⟨[], c, s, rfl, hp, rfl⟩
    · rw [if_neg hp] at h
      obtain ⟨j, hj, rfl⟩ := Option.map_eq_some_iff.mp h
      obtain ⟨before, d, after, rfl, hd, rfl⟩ := findChar_split hj
      exact ⟨c :: before, d, after, rfl, hd, by rw [bytes_cons, Nat.add_comm]⟩

theorem slice_whole (p q r : List Char) {i j : Nat} (hi : bytes p = i) (hj : i + bytes q = j) : slice (p ++ q ++ r) i j = some q := by
  rw [← hj, ← hi]
  exact slice_append p q r

/-- Of two starts of a text, the one with fewer bytes is a start of the other. -/
theorem start_of_le {a b : List Char} : ∀ {p q : List Char}, a ++ p = b ++ q → bytes a ≤ bytes b → ∃ d, b = a ++ d ∧ p = d ++ q := by
  induction a generalizing b with
  | nil => exact fun h _ => ⟨b, rfl, h⟩
  | cons c a ih =>
    intro p q h hle
    cases b with
    | nil =>
      rw [bytes_cons, bytes_nil] at hle
      exact absurd hle (by have := c.utf8Size_pos; omega)
    | cons d b =>
      obtain ⟨rfl, htail⟩ := List.cons.inj h
      rw [bytes_cons, bytes_cons] at hle
      obtain ⟨e, rfl, hq⟩ := ih htail (by omega)
      exact ⟨e, rfl, hq⟩

/-! ## Copies -/

/-- The characters of a text and the pieces of its copy have the same lengths. -/
def Kept (s : List Char) (copy : List (List Char)) : Prop := List.Forall₂ (fun c piece => bytes piece = c.utf8Size) s copy

theorem Kept.bytes_eq {s : List Char} {copy : List (List Char)} (h : Kept s copy) : bytes copy.flatten = bytes s := by
  induction h with
  | nil => rfl
  | cons hc _ ih => rw [List.flatten_cons, bytes_append, bytes_cons, hc, ih]

/-- The copy starts with this text, which is the copy of whole characters of their lengths. -/
def Whole : List Char → List (List Char) → List Char → Prop
  | _, _, [] => True
  | c :: s, piece :: copy, d :: needle =>
    bytes piece = c.utf8Size ∧ piece <+: d :: needle ∧ Whole s copy ((d :: needle).drop piece.length)
  | _, _, _ => False

/-- The text stands at the offset in the copy, as the copy of whole characters, and nothing before its end has changed its
length. -/
def Regular : List Char → List (List Char) → Nat → List Char → Prop
  | s, copy, 0, needle => Whole s copy needle
  | c :: s, piece :: copy, offset + 1, needle =>
    bytes piece = c.utf8Size ∧ c.utf8Size ≤ offset + 1 ∧ Regular s copy (offset + 1 - c.utf8Size) needle
  | _, _, _, _ => False

instance decidableWhole : (s : List Char) → (copy : List (List Char)) → (needle : List Char) → Decidable (Whole s copy needle)
  | [], _, [] => .isTrue trivial
  | _ :: _, [], [] => .isTrue trivial
  | _ :: _, _ :: _, [] => .isTrue trivial
  | c :: s, piece :: copy, d :: needle =>
    have := decidableWhole s copy ((d :: needle).drop piece.length)
    inferInstanceAs (Decidable (bytes piece = c.utf8Size ∧ piece <+: d :: needle ∧ Whole s copy ((d :: needle).drop piece.length)))
  | [], _, _ :: _ => .isFalse nofun
  | _ :: _, [], _ :: _ => .isFalse nofun

instance decidableRegular : (s : List Char) → (copy : List (List Char)) → (offset : Nat) → (needle : List Char) →
    Decidable (Regular s copy offset needle)
  | [], copy, 0, needle => decidableWhole [] copy needle
  | c :: s, [], 0, needle => decidableWhole (c :: s) [] needle
  | c :: s, piece :: copy, 0, needle => decidableWhole (c :: s) (piece :: copy) needle
  | c :: s, piece :: copy, offset + 1, needle =>
    have := decidableRegular s copy (offset + 1 - c.utf8Size) needle
    inferInstanceAs (Decidable
      (bytes piece = c.utf8Size ∧ c.utf8Size ≤ offset + 1 ∧ Regular s copy (offset + 1 - c.utf8Size) needle))
  | [], _, _ + 1, _ => .isFalse nofun
  | _ :: _, [], _ + 1, _ => .isFalse nofun

theorem Whole.split : ∀ {s : List Char} {copy : List (List Char)} {needle : List Char}, Whole s copy needle →
    ∃ n r, s = n ++ r ∧ bytes n = bytes needle
  | s, _, [], _ => ⟨[], s, rfl, rfl⟩
  | c :: s, piece :: copy, d :: needle, h => by
    obtain ⟨hc, ⟨rest, hrest⟩, htail⟩ := h
    rw [← hrest, List.drop_left] at htail
    obtain ⟨n, r, rfl, hn⟩ := htail.split
    exact ⟨c :: n, r, rfl, by rw [← hrest, bytes_append, bytes_cons, hn, hc]⟩
  | [], _, _ :: _, h => by cases h
  | _ :: _, [], _ :: _, h => by cases h

/-- The offset and the end of the text are between characters, of the text and of its copy. -/
theorem Regular.split : ∀ {s : List Char} {copy : List (List Char)} {offset : Nat} {needle : List Char},
    Regular s copy offset needle → (∃ p n r, s = p ++ n ++ r ∧ bytes p = offset ∧ bytes n = bytes needle) ∧
      ∃ p r, copy.flatten = p ++ r ∧ bytes p = offset
  | [], copy, 0, needle, h => by
    obtain ⟨n, r, hs, hn⟩ := Whole.split h
    exact ⟨⟨[], n, r, hs, rfl, hn⟩, [], copy.flatten, rfl, rfl⟩
  | c :: s, copy, 0, needle, h => by
    have hw : Whole (c :: s) copy needle := by
      cases copy with
      | nil => exact h
      | cons => exact h
    obtain ⟨n, r, hs, hn⟩ := hw.split
    exact ⟨⟨[], n, r, hs, rfl, hn⟩, [], copy.flatten, rfl, rfl⟩
  | c :: s, piece :: copy, offset + 1, needle, h => by
    obtain ⟨hc, hle, htail⟩ := h
    obtain ⟨⟨p, n, r, rfl, hp, hn⟩, q, t, hq, hb⟩ := htail.split
    refine ⟨⟨c :: p, n, r, rfl, ?_, hn⟩, piece ++ q, t, ?_, ?_⟩
    · rw [bytes_cons, hp]
      omega
    · rw [List.flatten_cons, hq, List.append_assoc]
    · rw [bytes_append, hc, hb]
      omega
  | [], _, _ + 1, _, h => by cases h
  | _ :: _, [], _ + 1, _, h => by cases h

/-! ## Texts of single bytes -/

theorem bytes_eq_length {s : List Char} (h : ∀ c ∈ s, c.utf8Size = 1) : bytes s = s.length := by
  induction s with
  | nil => rfl
  | cons c s ih =>
    rw [bytes_cons, h c List.mem_cons_self, ih fun d hd => h d (List.mem_cons_of_mem _ hd), List.length_cons, Nat.add_comm]

theorem slice_single {s : List Char} (h : ∀ c ∈ s, c.utf8Size = 1) {i j : Nat} (hij : i ≤ j) (hj : j ≤ bytes s) :
    slice s i j = some ((s.drop i).take (j - i)) := by
  rw [bytes_eq_length h] at hj
  have hsplit : s = s.take i ++ (s.drop i).take (j - i) ++ (s.drop i).drop (j - i) := by
    rw [List.append_assoc, List.take_append_drop, List.take_append_drop]
  conv_lhs => rw [hsplit]
  refine slice_whole _ _ _ ?_ ?_
  · rw [bytes_eq_length fun c hc => h c (List.mem_of_mem_take hc), List.length_take]
    omega
  · rw [bytes_eq_length fun c hc => h c (List.mem_of_mem_drop (List.mem_of_mem_take hc)), List.length_take, List.length_drop]
    omega

/-- The copy of a text of single bytes that keeps all lengths. -/
theorem Kept.single {s : List Char} {copy : List (List Char)} (h : Kept s copy) (hs : ∀ c ∈ s, c.utf8Size = 1) :
    ∀ d ∈ copy.flatten, d.utf8Size = 1 := by
  induction h with
  | nil => nofun
  | @cons c piece s copy hc _ ih =>
    intro d hd
    rw [List.flatten_cons] at hd
    rcases List.mem_append.mp hd with hd | hd
    · rw [hs c List.mem_cons_self] at hc
      obtain ⟨u, v, rfl⟩ := List.append_of_mem hd
      rw [bytes_append, bytes_cons] at hc
      have := d.utf8Size_pos
      omega
    · exact ih (fun e he => hs e (List.mem_cons_of_mem _ he)) d hd

/-! ## First and last -/

theorem findChar_first {p : Char → Bool} : ∀ {s : List Char} {i : Nat}, findChar p s = some i →
    ∃ c after, s.dropWhile (fun d => !p d) = c :: after ∧ p c = true ∧ i = bytes (s.takeWhile fun d => !p d)
  | c :: s, i, h => by
    rw [findChar] at h
    by_cases hp : p c = true
    · rw [if_pos hp] at h
      cases h
      exact ⟨c, s, by rw [List.dropWhile_cons_of_neg (by simp [hp])], hp, by rw [List.takeWhile_cons_of_neg (by simp [hp])]; rfl⟩
    · rw [if_neg hp] at h
      obtain ⟨j, hj, rfl⟩ := Option.map_eq_some_iff.mp h
      obtain ⟨d, after, hd, hpd, rfl⟩ := findChar_first hj
      refine ⟨d, after, ?_, hpd, ?_⟩
      · rw [List.dropWhile_cons_of_pos (by simp [hp])]
        exact hd
      · rw [List.takeWhile_cons_of_pos (by simp [hp]), bytes_cons, Nat.add_comm]

theorem rfind_last {needle : List Char} : ∀ {s p r : List Char} {i : Nat}, rfind needle s = some i → s = p ++ needle ++ r →
    bytes p ≤ i
  | [], p, r, i, _, hs => by
    obtain rfl : p = [] := (List.append_eq_nil_iff.mp (List.append_eq_nil_iff.mp hs.symm).1).1
    exact Nat.zero_le _
  | c :: s, [], r, i, _, _ => Nat.zero_le _
  | c :: s, d :: p, r, i, h, hs => by
    obtain ⟨rfl, htail⟩ := List.cons.inj hs
    rw [rfind] at h
    cases hrest : rfind needle s with
    | some j =>
      rw [hrest] at h
      cases h
      have := rfind_last hrest htail
      rw [bytes_cons]
      omega
    | none => exact absurd hrest (by rw [htail]; exact rfind_ne_none)

end Slices
