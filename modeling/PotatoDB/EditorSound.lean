import PotatoDB.Editor
import PotatoDB.TextParsersSound

/-!
# The cursor of the editor

The column of the cursor stays between two characters exactly as long as no key steps over a
character of several bytes, or keeps the column on a line that has a character there.
-/

namespace PotatoDB.Tui

open Slices (bytes sliceFrom sliceTo)
open Texts (CaseMapping)

/-- Between two characters of a text, or at an end of it. -/
def IsBoundary (s : List Char) (i : Nat) : Prop := ∃ p r, s = p ++ r ∧ bytes p = i

namespace App

/-- The cursor is in a line, between two characters of it. -/
def CursorOk (a : App) : Prop := ∃ line, a.inputLines[a.cursorRow]? = some line ∧ IsBoundary line a.cursorCol

/-- With the positions in the history and in the completion that the keys leave. -/
structure Valid (a : App) : Prop where
  cursor : a.CursorOk
  history : ∀ i, a.historyPos = some i → i < a.history.length
  completion : ∀ comp line, a.completion = some comp → a.inputLines[a.cursorRow]? = some line →
    comp.startCol ≤ a.cursorCol ∧ IsBoundary line comp.startCol

/-- The character before the cursor. -/
def charBefore (a : App) : Option Char := (a.currentLine.bind fun line => sliceTo line a.cursorCol).bind List.getLast?

def charAt (a : App) : Option Char := (a.currentLine.bind fun line => sliceFrom line a.cursorCol).bind List.head?

/-- The last character before the cursor that is not of a word. -/
def breakBefore (a : App) : Option Char :=
  (a.currentLine.bind fun line => sliceTo line a.cursorCol).bind fun s => (s.reverse.dropWhile isWord).head?

/-- A row on which the cursor can keep its column. -/
def FitsRow (a : App) (row : Nat) : Prop := ∀ line, a.inputLines[row]? = some line → IsBoundary line (min a.cursorCol (bytes line))

/-- The character that the event types, steps over or takes a word to start behind has one byte, and the column that it keeps
is between two characters. -/
def Fits (a : App) : Event → Prop
  | .tab => a.completion = none → ∀ c, a.breakBefore = some c → c.utf8Size = 1
  | .key modifiers code =>
    match code with
    | .char c => modifiers = .none ∨ modifiers = .shift → c.utf8Size = 1
    | .left | .backspace => ∀ c, a.charBefore = some c → c.utf8Size = 1
    | .right => ∀ c, a.charAt = some c → c.utf8Size = 1
    | .up => 0 < a.cursorRow → a.FitsRow (a.cursorRow - 1)
    | .down => a.FitsRow (a.cursorRow + 1)
    | _ => True

/-- No event fails, and the cursor is between two characters before and behind each. -/
def Keeps (m : CaseMapping) (a : App) : List Event → Prop
  | [] => a.CursorOk
  | e :: es => a.CursorOk ∧ ∃ r, a.handle m e = some r ∧ r.1.Keeps m es

theorem Keeps.cursorOk {m : CaseMapping} {a : App} {es : List Event} (h : a.Keeps m es) : a.CursorOk := by
  cases es with
  | nil => exact h
  | cons e es => exact h.1

/-- Every event fits the state that the ones before it leave. -/
def FitsAll (m : CaseMapping) (a : App) : List Event → Prop
  | [] => True
  | e :: es => a.Fits e ∧ ∀ r, a.handle m e = some r → r.1.FitsAll m es

def typed (c : Char) : Event := .key .none (.char c)

def erased : Event := .key .none .backspace

/-- The text and the cursor are back. -/
def Restores (a : App) (o : Option App) : Prop :=
  ∃ b, o = some b ∧ b.inputLines = a.inputLines ∧ b.cursorRow = a.cursorRow ∧ b.cursorCol = a.cursorCol

/-- The editor as it opens, over any history, tables and schema. -/
structure Fresh (a : App) : Prop where
  lines : a.inputLines = [[]]
  row : a.cursorRow = 0
  col : a.cursorCol = 0
  pos : a.historyPos = none
  completion : a.completion = none

end App

/-! ## Boundaries -/

theorem isBoundary_zero (s : List Char) : IsBoundary s 0 := ⟨[], s, rfl, rfl⟩

theorem isBoundary_bytes (s : List Char) : IsBoundary s (bytes s) := ⟨s, [], (List.append_nil s).symm, rfl⟩

theorem isBoundary_append (p r : List Char) : IsBoundary (p ++ r) (bytes p) := ⟨p, r, rfl, rfl⟩

theorem IsBoundary.le {s : List Char} {i : Nat} (h : IsBoundary s i) : i ≤ bytes s := by
  obtain ⟨p, r, rfl, rfl⟩ := h
  rw [Slices.bytes_append]
  exact Nat.le_add_right _ _

/-- A boundary behind the start of a character is behind the character. -/
theorem IsBoundary.over {p r : List Char} {c : Char} {i : Nat} (h : IsBoundary (p ++ c :: r) i) (hi : bytes p < i) :
    bytes p + c.utf8Size ≤ i := by
  obtain ⟨p', r', heq, rfl⟩ := h
  obtain ⟨d, rfl, hd⟩ := Slices.start_of_le heq (Nat.le_of_lt hi)
  cases d with
  | nil =>
    rw [List.append_nil] at hi
    exact absurd hi (Nat.lt_irrefl _)
  | cons e d =>
    obtain ⟨rfl, -⟩ := List.cons.inj hd
    rw [Slices.bytes_append, Slices.bytes_cons]
    omega

/-- A byte behind the start of a character is behind the character if this has one byte only. -/
theorem isBoundary_next (p r : List Char) (c : Char) : IsBoundary (p ++ c :: r) (bytes p + 1) ↔ c.utf8Size = 1 := by
  have hsize := c.utf8Size_pos
  constructor
  · intro h
    have := h.over (by omega)
    omega
  · intro h
    refine ⟨p ++ [c], r, by simp, ?_⟩
    rw [Slices.bytes_append, Slices.bytes_cons, Slices.bytes_nil, h]

/-- And the byte before the end of a character is its start. -/
theorem isBoundary_last (p r : List Char) (c : Char) : IsBoundary (p ++ c :: r) (bytes p + (c.utf8Size + 0) - 1) ↔ c.utf8Size = 1 := by
  have hsize := c.utf8Size_pos
  constructor
  · intro h
    by_contra hne
    have := h.over (by omega)
    omega
  · intro h
    refine ⟨p, c :: r, rfl, ?_⟩
    omega

theorem sliceTo_none {s : List Char} {i : Nat} (h : ¬ IsBoundary s i) : sliceTo s i = none := by
  cases hs : sliceTo s i with
  | none => rfl
  | some p =>
    obtain ⟨r, rfl, hp⟩ := Slices.sliceTo_split hs
    exact absurd ⟨p, r, rfl, hp⟩ h

theorem sliceFrom_none {s : List Char} {i : Nat} (h : ¬ IsBoundary s i) : sliceFrom s i = none := by
  cases hs : sliceFrom s i with
  | none => rfl
  | some r =>
    obtain ⟨p, rfl, hp⟩ := Slices.sliceFrom_split hs
    exact absurd ⟨p, r, rfl, hp⟩ h

theorem truncate_append (p r : List Char) : truncate (p ++ r) (bytes p) = some p := by
  rw [truncate, if_neg (by rw [Slices.bytes_append]; omega), Slices.sliceTo_append]

theorem replaceRange_append (p q r text : List Char) : replaceRange (p ++ q ++ r) (bytes p) (bytes p + bytes q) text =
    some (p ++ text ++ r) := by
  have hto : sliceTo (p ++ q ++ r) (bytes p) = some p := by
    rw [List.append_assoc]
    exact Slices.sliceTo_append p _
  have hfrom : sliceFrom (p ++ q ++ r) (bytes p + bytes q) = some r := by
    rw [← Slices.bytes_append]
    exact Slices.sliceFrom_append _ r
  rw [replaceRange, if_pos (Nat.le_add_right _ _), hto, hfrom]
  rfl

theorem insertStr_append (p r text : List Char) : insertStr (p ++ r) (bytes p) text = some (p ++ text ++ r) := by
  have hreplace := replaceRange_append p [] r text
  rw [List.append_nil] at hreplace
  exact hreplace

theorem insertStr_none {s : List Char} {i : Nat} (h : ¬ IsBoundary s i) (text : List Char) : insertStr s i text = none := by
  rw [insertStr, replaceRange, if_pos (Nat.le_refl i), sliceTo_none h]
  rfl

theorem removeChar_append (p r : List Char) (c : Char) : removeChar (p ++ c :: r) (bytes p) = some (p ++ r) := by
  rw [removeChar, Slices.sliceTo_append, Slices.sliceFrom_append]
  rfl

theorem removeChar_none {s : List Char} {i : Nat} (h : ¬ IsBoundary s i) : removeChar s i = none := by
  rw [removeChar, sliceTo_none h]
  rfl

namespace App

/-! ## The line under the cursor -/

/-- The texts of the line before and behind the cursor. -/
structure At (a : App) (p r : List Char) : Prop where
  line : a.inputLines[a.cursorRow]? = some (p ++ r)
  col : a.cursorCol = bytes p

theorem CursorOk.at {a : App} (h : a.CursorOk) : ∃ p r, a.At p r := by
  obtain ⟨_, hline, p, r, rfl, hcol⟩ := h
  exact ⟨p, r, hline, hcol.symm⟩

theorem At.cursorOk {a : App} {p r : List Char} (h : a.At p r) : a.CursorOk := ⟨_, h.line, p, r, rfl, h.col.symm⟩

theorem cursorOk_iff {a : App} {line : List Char} (h : a.inputLines[a.cursorRow]? = some line) :
    a.CursorOk ↔ IsBoundary line a.cursorCol := by
  constructor
  · intro ⟨line', hline, hcol⟩
    rw [h] at hline
    cases hline
    exact hcol
  · intro hcol
    exact ⟨line, h, hcol⟩

theorem At.currentLine {a : App} {p r : List Char} (h : a.At p r) : a.currentLine = some (p ++ r) := h.line

theorem At.row_lt {a : App} {p r : List Char} (h : a.At p r) : a.cursorRow < a.inputLines.length :=
  (List.getElem?_eq_some_iff.mp h.line).1

theorem At.dismissed {a : App} {p r : List Char} (h : a.At p r) : a.dismissCompletion.At p r := ⟨h.line, h.col⟩

theorem At.charBefore {a : App} {p r : List Char} (h : a.At p r) : a.charBefore = p.getLast? := by
  simp [App.charBefore, h.currentLine, h.col, Slices.sliceTo_append]

theorem At.charAt {a : App} {p r : List Char} (h : a.At p r) : a.charAt = r.head? := by
  simp [App.charAt, h.currentLine, h.col, Slices.sliceFrom_append]

/-- The line under the cursor after it is replaced. -/
theorem At.set {a : App} {p r : List Char} (h : a.At p r) (line : List Char) :
    (a.inputLines.set a.cursorRow line)[a.cursorRow]? = some line := List.getElem?_set_self h.row_lt

theorem eq_nil_or_snoc (s : List Char) : s = [] ∨ ∃ p c, s = p ++ [c] := by
  simpa only [List.concat_eq_append] using List.eq_nil_or_concat s

/-- What a handler does when its event fits the state, and that it does not otherwise. -/
structure Decides (o : Option App) (fits : Prop) : Prop where
  valid : fits → ∃ b, o = some b ∧ b.Valid
  only : ∀ b, o = some b → b.CursorOk → fits

theorem Decides.always {o : Option App} {fits : Prop} {b : App} (ho : o = some b) (hb : b.Valid) (h : fits) : Decides o fits :=
  ⟨fun _ => ⟨b, ho, hb⟩, fun _ _ _ => h⟩

theorem Valid.keeping {a b : App} (ha : a.Valid) (hcompletion : b.completion = none) (hhistory : b.history = a.history)
    (hpos : b.historyPos = a.historyPos) (hb : b.CursorOk) : b.Valid := by
  refine ⟨hb, ?_, ?_⟩
  · rw [hhistory, hpos]
    exact ha.history
  · intro comp _ hcomp
    rw [hcompletion] at hcomp
    cases hcomp

theorem Valid.dismissed {a : App} (ha : a.Valid) : a.dismissCompletion.Valid := ha.keeping rfl rfl rfl ha.cursor

section
variable {a : App} (ha : a.Valid) (hnone : a.completion = none)
include ha hnone

/-- A handler that changes the lines and the cursor only. -/
theorem decides_lines {o : Option App} {fits : Prop} {lines : List (List Char)} {row col : Nat} {line : List Char}
    (ho : o = some { a with inputLines := lines, cursorRow := row, cursorCol := col }) (hline : lines[row]? = some line)
    (h : IsBoundary line col ↔ fits) : Decides o fits := by
  subst ho
  constructor
  · intro hfits
    exact ⟨_, rfl, ha.keeping hnone rfl rfl ⟨line, hline, h.mpr hfits⟩⟩
  · intro b hb hok
    cases hb
    exact h.mp ((cursorOk_iff hline).mp hok)

theorem decides_splitLine : Decides a.splitLine True := by
  obtain ⟨p, r, hat⟩ := ha.cursor.at
  have hline : ((a.inputLines.set a.cursorRow p).insertIdx (a.cursorRow + 1) r)[a.cursorRow + 1]? = some r := by
    have hrow := hat.row_lt
    rw [List.getElem?_insertIdx_self, if_pos (by rw [List.length_set]; omega)]
  refine decides_lines ha hnone ?_ hline ⟨fun _ => trivial, fun _ => isBoundary_zero r⟩
  simp [splitLine, hat.currentLine, hat.col, Slices.sliceFrom_append, truncate_append]

theorem decides_deleteToStart : Decides a.deleteToStart True := by
  obtain ⟨p, r, hat⟩ := ha.cursor.at
  refine decides_lines ha hnone ?_ (hat.set r) ⟨fun _ => trivial, fun _ => isBoundary_zero r⟩
  simp [deleteToStart, hat.currentLine, hat.col, Slices.sliceFrom_append]

theorem decides_deleteToEnd : Decides a.deleteToEnd True := by
  obtain ⟨p, r, hat⟩ := ha.cursor.at
  refine decides_lines ha hnone ?_ (hat.set p) ⟨fun _ => trivial, fun _ => isBoundary_bytes p⟩
  simp [deleteToEnd, hat.currentLine, hat.col, truncate_append]

theorem decides_toEnd : Decides a.toEnd True := by
  obtain ⟨p, r, hat⟩ := ha.cursor.at
  refine decides_lines ha hnone ?_ hat.line ⟨fun _ => trivial, fun _ => isBoundary_bytes _⟩
  simp [toEnd, hat.currentLine]

theorem decides_home : Decides (some { a with cursorCol := 0 }) True := by
  obtain ⟨p, r, hat⟩ := ha.cursor.at
  exact decides_lines ha hnone rfl hat.line ⟨fun _ => trivial, fun _ => isBoundary_zero _⟩

theorem decides_typeChar (c : Char) : Decides (a.typeChar c) (c.utf8Size = 1) := by
  obtain ⟨p, r, hat⟩ := ha.cursor.at
  have hcol : IsBoundary (p ++ [c] ++ r) (bytes p + 1) ↔ c.utf8Size = 1 := by
    rw [List.append_assoc, List.singleton_append]
    exact isBoundary_next p r c
  refine decides_lines ha hnone ?_ (hat.set (p ++ [c] ++ r)) hcol
  simp [typeChar, hat.currentLine, hat.col, insertStr_append]

theorem decides_moveTo {row : Nat} (hrow : row < a.inputLines.length) : Decides (a.moveTo row) (a.FitsRow row) := by
  have hline := List.getElem?_eq_getElem hrow
  have ho : a.moveTo row = some { a with cursorRow := row, cursorCol := min a.cursorCol (bytes a.inputLines[row]) } := by
    simp [moveTo, hline]
  refine decides_lines ha hnone ho hline ?_
  constructor
  · intro hcol line hline'
    rw [hline] at hline'
    cases hline'
    exact hcol
  · intro hfits
    exact hfits _ hline

theorem decides_left : Decides a.left (∀ c, a.charBefore = some c → c.utf8Size = 1) := by
  obtain ⟨p, r, hat⟩ := ha.cursor.at
  rw [hat.charBefore]
  obtain rfl | ⟨p, c, rfl⟩ := eq_nil_or_snoc p
  · have hcol : a.cursorCol = 0 := hat.col
    have hfits : ∀ c, ([] : List Char).getLast? = some c → c.utf8Size = 1 := by simp
    by_cases hrow : 0 < a.cursorRow
    · have hrowLt := hat.row_lt
      have hlt : a.cursorRow - 1 < a.inputLines.length := by omega
      have hline : a.inputLines[a.cursorRow - 1]? = some a.inputLines[a.cursorRow - 1] := List.getElem?_eq_getElem hlt
      refine decides_lines ha hnone ?_ hline ⟨fun _ => hfits, fun _ => isBoundary_bytes _⟩
      simp [left, hcol, hrow, hline]
    · refine .always ?_ ha hfits
      simp [left, hcol, hrow]
  · have hsize := c.utf8Size_pos
    have hcol := hat.col
    rw [Slices.bytes_append, Slices.bytes_cons, Slices.bytes_nil] at hcol
    have ho : a.left = some { a with cursorCol := a.cursorCol - 1 } := by
      rw [left, if_pos (by omega)]
    refine decides_lines ha hnone ho hat.line ?_
    rw [hcol, List.append_assoc, List.singleton_append, isBoundary_last]
    simp

theorem decides_right : Decides a.right (∀ c, a.charAt = some c → c.utf8Size = 1) := by
  obtain ⟨p, r, hat⟩ := ha.cursor.at
  rw [hat.charAt]
  cases r with
  | nil =>
    have hcol : a.cursorCol = bytes (p ++ []) := by rw [hat.col, List.append_nil]
    have hfits : ∀ c, ([] : List Char).head? = some c → c.utf8Size = 1 := by simp
    by_cases hrow : a.cursorRow + 1 < a.inputLines.length
    · refine decides_lines ha hnone ?_ (List.getElem?_eq_getElem hrow) ⟨fun _ => hfits, fun _ => isBoundary_zero _⟩
      simp [right, hat.currentLine, hcol, hrow]
    · refine .always ?_ ha hfits
      simp [right, hat.currentLine, hcol, hrow]
  | cons c r =>
    have hsize := c.utf8Size_pos
    have ho : a.right = some { a with cursorCol := a.cursorCol + 1 } := by
      have hlt : a.cursorCol < bytes (p ++ c :: r) := by
        rw [hat.col, Slices.bytes_append, Slices.bytes_cons]
        omega
      simp only [right, hat.currentLine, Option.bind_eq_bind, Option.bind_some, if_pos hlt]
    refine decides_lines ha hnone ho hat.line ?_
    rw [hat.col, isBoundary_next]
    simp

theorem decides_delete : Decides a.delete True := by
  obtain ⟨p, r, hat⟩ := ha.cursor.at
  cases r with
  | nil =>
    have hcol : a.cursorCol = bytes (p ++ []) := by rw [hat.col, List.append_nil]
    by_cases hrow : a.cursorRow + 1 < a.inputLines.length
    · have hnext := List.getElem?_eq_getElem hrow
      have ho : a.delete = some { a with inputLines :=
          (a.inputLines.eraseIdx (a.cursorRow + 1)).set a.cursorRow (p ++ a.inputLines[a.cursorRow + 1]) } := by
        simp [delete, hat.currentLine, hcol, hrow]
      refine decides_lines ha hnone ho (List.getElem?_set_self ?_) ⟨fun _ => trivial, fun _ => ?_⟩
      · rw [List.length_eraseIdx, if_pos hrow]
        omega
      · rw [hat.col]
        exact isBoundary_append p _
    · refine .always ?_ ha trivial
      simp [delete, hat.currentLine, hcol, hrow]
  | cons c r =>
    have hsize := c.utf8Size_pos
    refine decides_lines ha hnone ?_ (hat.set (p ++ r)) ⟨fun _ => trivial, fun _ => isBoundary_append p r⟩
    have hlt : a.cursorCol < bytes (p ++ c :: r) := by
      rw [hat.col, Slices.bytes_append, Slices.bytes_cons]
      omega
    simp only [delete, hat.currentLine, Option.bind_eq_bind, Option.bind_some, if_pos hlt]
    rw [hat.col, removeChar_append]
    rfl

theorem decides_backspace : Decides a.backspace (∀ c, a.charBefore = some c → c.utf8Size = 1) := by
  obtain ⟨p, r, hat⟩ := ha.cursor.at
  have hrow := hat.row_lt
  rw [hat.charBefore]
  obtain rfl | ⟨p, c, rfl⟩ := eq_nil_or_snoc p
  · have hcol : a.cursorCol = 0 := hat.col
    have hfits : ∀ c, ([] : List Char).getLast? = some c → c.utf8Size = 1 := by simp
    by_cases hpos : 0 < a.cursorRow
    · have hlt : a.cursorRow - 1 < a.inputLines.length := by omega
      have hline : (a.inputLines.eraseIdx a.cursorRow)[a.cursorRow - 1]? = some (a.inputLines[a.cursorRow - 1]) := by
        rw [List.getElem?_eraseIdx_of_lt (by omega), List.getElem?_eq_getElem hlt]
      have ho : a.backspace = some { a with
          inputLines := (a.inputLines.eraseIdx a.cursorRow).set (a.cursorRow - 1) (a.inputLines[a.cursorRow - 1] ++ r)
          cursorRow := a.cursorRow - 1
          cursorCol := bytes a.inputLines[a.cursorRow - 1] } := by
        simp [backspace, hcol, hpos, hat.currentLine, hline]
      refine decides_lines ha hnone ho (List.getElem?_set_self ?_) ⟨fun _ => hfits, fun _ => isBoundary_append _ r⟩
      rw [List.length_eraseIdx, if_pos hrow]
      omega
    · refine .always ?_ ha hfits
      simp [backspace, hcol, hpos]
  · have hsize := c.utf8Size_pos
    have hcol := hat.col
    rw [Slices.bytes_append, Slices.bytes_cons, Slices.bytes_nil] at hcol
    have hpos : 0 < a.cursorCol := by omega
    by_cases hone : c.utf8Size = 1
    · have hremove : removeChar (p ++ [c] ++ r) (a.cursorCol - 1) = some (p ++ r) := by
        rw [hcol, hone, List.append_assoc]
        exact removeChar_append p r c
      have hend : IsBoundary (p ++ r) (a.cursorCol - 1) ↔ ∀ d, (p ++ [c]).getLast? = some d → d.utf8Size = 1 := by
        rw [show a.cursorCol - 1 = bytes p by omega]
        simp [hone, isBoundary_append]
      refine decides_lines ha hnone ?_ (hat.set (p ++ r)) hend
      simp only [backspace, if_pos hpos, hat.currentLine, Option.bind_eq_bind, Option.bind_some, hremove]
    · have hremove : removeChar (p ++ [c] ++ r) (a.cursorCol - 1) = none := by
        refine removeChar_none ?_
        rw [hcol, List.append_assoc, List.singleton_append, isBoundary_last]
        exact hone
      constructor
      · intro hfits
        exact absurd (hfits c (by simp)) hone
      · intro b hb
        simp only [backspace, if_pos hpos, hat.currentLine, Option.bind_eq_bind, Option.bind_some, hremove] at hb
        cases hb

omit ha in
theorem recalled_valid {pos : Option Nat} (hpos : ∀ i, pos = some i → i < a.history.length) {lines : List (List Char)}
    {row col : Nat} {line : List Char} (hline : lines[row]? = some line) (hcol : IsBoundary line col) :
    { a with historyPos := pos, inputLines := lines, cursorRow := row, cursorCol := col }.Valid := by
  refine ⟨⟨line, hline, hcol⟩, hpos, ?_⟩
  intro comp _ hcomp
  rw [show _ = none from hnone] at hcomp
  cases hcomp

omit ha in
theorem decides_recall {fits : Prop} (hfits : fits) {idx : Nat} (hidx : idx < a.history.length) : Decides (do
    let lines := (← a.history[idx]?).splitOn '\n'
    let last ← lines[lines.length - 1]?
    some { a with historyPos := some idx, inputLines := lines, cursorRow := lines.length - 1, cursorCol := bytes last }) fits := by
  have hlines : 0 < (a.history[idx].splitOn '\n').length := List.length_pos_of_ne_nil (List.splitOn_ne_nil _ _)
  have hlast := List.getElem?_eq_getElem (Nat.sub_lt hlines Nat.one_pos)
  have hpos : ∀ i, some idx = some i → i < a.history.length := by simp [hidx]
  refine .always ?_ (recalled_valid hnone hpos hlast (isBoundary_bytes _)) hfits
  simp only [List.getElem?_eq_getElem hidx, Option.bind_eq_bind, Option.bind_some, hlast]

theorem decides_up : Decides a.up (0 < a.cursorRow → a.FitsRow (a.cursorRow - 1)) := by
  obtain ⟨p, r, hat⟩ := ha.cursor.at
  have hrow := hat.row_lt
  by_cases hpos : 0 < a.cursorRow
  · rw [up, if_pos hpos]
    have habove : a.cursorRow - 1 < a.inputLines.length := by omega
    obtain ⟨hvalid, honly⟩ := decides_moveTo ha hnone habove
    exact ⟨fun h => hvalid (h hpos), fun b hb hok _ => honly b hb hok⟩
  · have hfits : 0 < a.cursorRow → a.FitsRow (a.cursorRow - 1) := fun h => absurd h hpos
    by_cases hempty : a.history = []
    · exact .always (by simp [up, hpos, hempty]) ha hfits
    · have hlength := List.length_pos_of_ne_nil hempty
      rw [up, if_neg hpos, if_neg hempty]
      cases hp : a.historyPos with
      | none => exact decides_recall hnone hfits (Nat.sub_lt hlength Nat.one_pos)
      | some i =>
        have hi := ha.history i hp
        refine decides_recall hnone hfits ?_
        change (if 0 < i then i - 1 else i) < a.history.length
        split <;> omega

theorem decides_down : Decides a.down (a.FitsRow (a.cursorRow + 1)) := by
  by_cases hrow : a.cursorRow + 1 < a.inputLines.length
  · rw [down, if_pos hrow]
    exact decides_moveTo ha hnone hrow
  · have hfits : a.FitsRow (a.cursorRow + 1) := by
      intro line hline
      exact absurd (List.getElem?_eq_some_iff.mp hline).1 hrow
    cases hp : a.historyPos with
    | none => exact .always (by simp [down, hrow, hp]) ha hfits
    | some idx =>
      by_cases hnext : idx + 1 < a.history.length
      · have hlines : 0 < (a.history[idx + 1].splitOn '\n').length := List.length_pos_of_ne_nil (List.splitOn_ne_nil _ _)
        have hpos : ∀ i, some (idx + 1) = some i → i < a.history.length := by simp [hnext]
        refine .always ?_ (recalled_valid hnone hpos (List.getElem?_eq_getElem hlines) (isBoundary_zero _)) hfits
        simp [down, hrow, hp, hnext]
      · have hpos : ∀ i, none = some i → i < a.history.length := by simp
        have hline : ([[]] : List (List Char))[0]? = some [] := rfl
        refine .always ?_ (recalled_valid hnone hpos hline (isBoundary_zero [])) hfits
        simp [down, hrow, hp, hnext, clearInput, hnone]

end

theorem clearInput_valid {a : App} (hhistory : ∀ i, a.historyPos = some i → i < a.history.length) : a.clearInput.Valid :=
  ⟨⟨[], rfl, isBoundary_zero []⟩, hhistory, fun _ _ h => by cases h⟩

theorem tryExecute_valid {a : App} (ha : a.Valid) : a.tryExecute.1.Valid := by
  by_cases hempty : trim a.inputText = []
  · simpa [tryExecute, hempty] using ha
  · have hcleared : (a.saveHistoryEntry a.inputText).clearInput.Valid := by
      refine clearInput_valid ?_
      intro i hi
      simp [saveHistoryEntry, hempty] at hi
    simp only [tryExecute, if_neg hempty]
    split
    · exact hcleared
    · split <;> exact hcleared

theorem bytes_reverse (s : List Char) : bytes s.reverse = bytes s := by
  induction s with
  | nil => rfl
  | cons c s ih =>
    rw [List.reverse_cons, Slices.bytes_append, ih, Slices.bytes_cons, Slices.bytes_cons, Slices.bytes_nil]
    omega

theorem rfindBreak_none {s : List Char} (h : (s.reverse.dropWhile isWord).head? = none) : rfindBreak s = none := by
  rw [List.head?_eq_none_iff] at h
  rw [rfindBreak, h]

theorem rfindBreak_some {s : List Char} {c : Char} (h : (s.reverse.dropWhile isWord).head? = some c) :
    ∃ p r, s = p ++ c :: r ∧ rfindBreak s = some (bytes p) := by
  obtain ⟨rest, hrest⟩ := List.head?_eq_some_iff.mp h
  refine ⟨rest.reverse, (s.reverse.takeWhile isWord).reverse, ?_, ?_⟩
  · calc s = (s.reverse.takeWhile isWord ++ s.reverse.dropWhile isWord).reverse := by
          rw [List.takeWhile_append_dropWhile, List.reverse_reverse]
      _ = rest.reverse ++ c :: (s.reverse.takeWhile isWord).reverse := by
          rw [hrest]
          simp
  · rw [rfindBreak, hrest]
    simp only [bytes_reverse]

theorem At.before {a : App} {p r : List Char} (h : a.At p r) : sliceTo (p ++ r) a.cursorCol = some p := by
  rw [h.col]
  exact Slices.sliceTo_append p r

theorem At.word_split {a : App} {p r : List Char} (h : a.At p r) {start : Nat} {word : List Char}
    (hword : a.wordBeforeCursor = some (start, word)) : ∃ q, p = q ++ word ∧ bytes q = start := by
  simp only [App.wordBeforeCursor, h.currentLine, Option.bind_eq_bind, Option.bind_some, h.before, Option.bind_eq_some_iff,
    Option.some.injEq, Prod.mk.injEq] at hword
  obtain ⟨_, hslice, hstart, rfl⟩ := hword
  rw [hstart] at hslice
  exact Slices.sliceFrom_split hslice

/-- The word before the cursor can be cut out if the character before it has one byte. -/
theorem At.word_iff {a : App} {p r : List Char} (h : a.At p r) :
    (∃ found, a.wordBeforeCursor = some found) ↔ ∀ c, a.breakBefore = some c → c.utf8Size = 1 := by
  have hbreak : a.breakBefore = (p.reverse.dropWhile isWord).head? := by
    simp [breakBefore, h.currentLine, h.before]
  rw [hbreak]
  cases hc : (p.reverse.dropWhile isWord).head? with
  | none =>
    have hword : a.wordBeforeCursor = some (0, p) := by
      simp only [App.wordBeforeCursor, h.currentLine, Option.bind_eq_bind, Option.bind_some, h.before, rfindBreak_none hc]
      rw [show sliceFrom p 0 = some p from Slices.sliceFrom_append [] p]
      rfl
    simp [hword]
  | some c =>
    obtain ⟨q, word, rfl, hfind⟩ := rfindBreak_some hc
    have hword : a.wordBeforeCursor = (sliceFrom (q ++ c :: word) (bytes q + 1)).map fun word => (bytes q + 1, word) := by
      simp only [App.wordBeforeCursor, h.currentLine, Option.bind_eq_bind, Option.bind_some, h.before, hfind]
      cases sliceFrom (q ++ c :: word) (bytes q + 1) <;> rfl
    by_cases hone : c.utf8Size = 1
    · have hq : bytes q + 1 = bytes (q ++ [c]) := by
        rw [Slices.bytes_append, Slices.bytes_cons, Slices.bytes_nil, hone]
      rw [hword, hq, show q ++ c :: word = q ++ [c] ++ word by simp, Slices.sliceFrom_append]
      simp [hone]
    · rw [hword, sliceFrom_none (mt (isBoundary_next q word c).mp hone)]
      simp [hone]

theorem decides_tabComplete {a : App} (ha : a.Valid) (m : CaseMapping) :
    Decides (a.tabComplete m) (a.completion = none → ∀ c, a.breakBefore = some c → c.utf8Size = 1) := by
  obtain ⟨p, r, hat⟩ := ha.cursor.at
  cases hcomp : a.completion with
  | some comp =>
    have hfits : some comp = none → ∀ c, a.breakBefore = some c → c.utf8Size = 1 := fun h => by cases h
    by_cases hempty : comp.candidates = []
    · refine .always (b := { a with completion := none }) (by simp [tabComplete, hcomp, hempty]) ?_ hfits
      exact ha.keeping rfl rfl rfl ha.cursor
    · obtain ⟨hle, q, r', hsplit, hq⟩ := ha.completion comp _ hcomp hat.line
      rw [hat.col, ← hq] at hle
      obtain ⟨word, rfl, -⟩ := Slices.start_of_le hsplit.symm hle
      have hindex := Nat.mod_lt (comp.index + 1) (List.length_pos_of_ne_nil hempty)
      have hnext := List.getElem?_eq_getElem hindex
      obtain ⟨next, hnext⟩ : ∃ next, comp.candidates[(comp.index + 1) % comp.candidates.length]? = some next := ⟨_, hnext⟩
      have hremoved : replaceRange (q ++ word ++ r) comp.startCol a.cursorCol [] = some (q ++ r) := by
        rw [← hq, hat.col, Slices.bytes_append, replaceRange_append, List.append_nil]
      have hinserted : insertStr (q ++ r) comp.startCol next = some (q ++ next ++ r) := by
        rw [← hq, insertStr_append]
      refine .always (b := { a with
        inputLines := a.inputLines.set a.cursorRow (q ++ next ++ r)
        cursorCol := comp.startCol + bytes next
        completion := some { comp with index := (comp.index + 1) % comp.candidates.length } }) ?_ ⟨?_, ha.history, ?_⟩ hfits
      · simp only [tabComplete, hcomp, if_neg hempty, hat.currentLine, Option.bind_eq_bind, Option.bind_some, hremoved, hnext,
          hinserted]
      · refine ⟨_, hat.set _, q ++ next, r, rfl, ?_⟩
        rw [Slices.bytes_append, hq]
      · intro comp' line hcomp' hline
        cases hcomp'
        rw [show _ = _ from hat.set _] at hline
        cases hline
        refine ⟨Nat.le_add_right _ _, q, next ++ r, List.append_assoc .., hq⟩
  | none =>
    rw [forall_prop_of_true rfl, ← hat.word_iff]
    cases hword : a.wordBeforeCursor with
    | none =>
      constructor
      · simp
      · intro b hb
        simp [tabComplete, hcomp, hword] at hb
    | some found =>
      obtain ⟨start, word⟩ := found
      obtain ⟨q, rfl, rfl⟩ := hat.word_split hword
      have hfound : ∃ found, some (bytes q, word) = some found := ⟨_, rfl⟩
      by_cases hempty : word = []
      · exact .always (by simp [tabComplete, hcomp, hword, hempty]) ha hfound
      · cases hcands : a.buildCandidates m word with
        | nil => exact .always (by simp [tabComplete, hcomp, hword, hempty, hcands]) ha hfound
        | cons first rest =>
          have hreplaced : replaceRange (q ++ word ++ r) (bytes q) a.cursorCol first = some (q ++ first ++ r) := by
            rw [hat.col, Slices.bytes_append, replaceRange_append]
          refine .always (b := { a with
            inputLines := a.inputLines.set a.cursorRow (q ++ first ++ r)
            cursorCol := bytes q + bytes first
            completion := some ⟨bytes q, first :: rest, 0⟩ }) ?_ ⟨?_, ha.history, ?_⟩ hfound
          · simp only [tabComplete, hcomp, hword, Option.bind_eq_bind, Option.bind_some, if_neg hempty, hcands, hat.currentLine,
              hreplaced]
          · refine ⟨_, hat.set _, q ++ first, r, rfl, ?_⟩
            rw [Slices.bytes_append]
          · intro comp line hcomp' hline
            cases hcomp'
            rw [show _ = _ from hat.set _] at hline
            cases hline
            exact ⟨Nat.le_add_right _ _, q, first ++ r, List.append_assoc .., rfl⟩

/-! ## Every key -/

theorem Decides.done {o : Option App} {fits : Prop} (h : Decides o fits) :
    Decides ((o.map fun a => (a, Action.none)).map Prod.fst) fits := by
  cases o <;> exact h

theorem decides_char {a : App} (ha : a.Valid) (modifiers : KeyModifiers) (c : Char) :
    Decides ((a.handleQueryKey modifiers (.char c)).map Prod.fst) (modifiers = .none ∨ modifiers = .shift → c.utf8Size = 1) := by
  have hd := ha.dismissed
  have htype := (decides_typeChar hd rfl c).done
  cases modifiers with
  | none => simpa [handleQueryKey] using htype
  | shift => simpa [handleQueryKey] using htype
  | alt => exact .always rfl hd (by simp)
  | mixed => exact .always rfl hd (by simp)
  | control =>
    have hfits : KeyModifiers.control = .none ∨ KeyModifiers.control = .shift → c.utf8Size = 1 := by simp
    have htrue : (KeyModifiers.control = .none ∨ KeyModifiers.control = .shift → c.utf8Size = 1) = True := eq_true hfits
    rw [htrue]
    simp only [handleQueryKey]
    split
    · exact .always rfl (tryExecute_valid hd) trivial
    · split
      · exact (decides_deleteToStart hd rfl).done
      · split
        · exact (decides_deleteToEnd hd rfl).done
        · split
          · exact .always rfl (clearInput_valid hd.history) trivial
          · split
            · cases a.dismissCompletion.tables[a.dismissCompletion.selectedTable]? <;> exact .always rfl hd trivial
            · exact .always rfl hd trivial

theorem decides_enter {a : App} (ha : a.Valid) (modifiers : KeyModifiers) :
    Decides ((a.handleQueryKey modifiers .enter).map Prod.fst) True := by
  have hd := ha.dismissed
  simp only [handleQueryKey]
  split
  · exact .always rfl (tryExecute_valid hd) trivial
  · split
    · exact .always rfl (tryExecute_valid hd) trivial
    · exact (decides_splitLine hd rfl).done

theorem decides_handle {a : App} (ha : a.Valid) (m : CaseMapping) (e : Event) :
    Decides ((a.handle m e).map Prod.fst) (a.Fits e) := by
  have hd := ha.dismissed
  cases e with
  | tab => exact (decides_tabComplete ha m).done
  | key modifiers code =>
    cases code with
    | char c => exact decides_char ha modifiers c
    | f n =>
      by_cases hn : n = 5
      · exact .always (by simp [handle, handleQueryKey, hn]) (tryExecute_valid hd) trivial
      · exact .always (by simp [handle, handleQueryKey, hn]) hd trivial
    | enter => exact decides_enter ha modifiers
    | up => exact (decides_up hd rfl).done
    | down => exact (decides_down hd rfl).done
    | left => exact (decides_left hd rfl).done
    | right => exact (decides_right hd rfl).done
    | home => exact decides_home hd rfl
    | endKey => exact (decides_toEnd hd rfl).done
    | backspace => exact (decides_backspace hd rfl).done
    | delete => exact (decides_delete hd rfl).done
    | other => exact .always rfl hd trivial

/-- A state keeps its cursor over one event if the event fits. -/
theorem keeps_cons {a : App} (ha : a.Valid) (m : CaseMapping) (e : Event) (es : List Event)
    (ih : ∀ b : App, b.Valid → (b.Keeps m es ↔ b.FitsAll m es)) : a.Keeps m (e :: es) ↔ a.FitsAll m (e :: es) := by
  obtain ⟨hvalid, honly⟩ := decides_handle ha m e
  constructor
  · intro ⟨_, r, hr, hkeeps⟩
    have hfits : a.Fits e := honly r.1 (by rw [hr]; rfl) hkeeps.cursorOk
    obtain ⟨b, hb, hok⟩ := hvalid hfits
    rw [hr] at hb
    cases hb
    refine ⟨hfits, ?_⟩
    intro r' hr'
    rw [hr] at hr'
    cases hr'
    exact (ih r.1 hok).mp hkeeps
  · intro ⟨hfits, hall⟩
    obtain ⟨b, hb, hok⟩ := hvalid hfits
    obtain ⟨r, hr, rfl⟩ := Option.map_eq_some_iff.mp hb
    exact ⟨ha.cursor, r, hr, (ih r.1 hok).mpr (hall r hr)⟩

theorem keeps_iff (m : CaseMapping) (es : List Event) : ∀ a : App, a.Valid → (a.Keeps m es ↔ a.FitsAll m es) := by
  induction es with
  | nil =>
    intro a ha
    exact ⟨fun _ => trivial, fun _ => ha.cursor⟩
  | cons e es ih =>
    intro a ha
    exact keeps_cons ha m e es ih

/-! ## Typing and taking back -/

theorem run_valid (m : CaseMapping) (es : List Event) : ∀ a : App, a.Valid → a.FitsAll m es → ∃ b, a.run m es = some b ∧ b.Valid := by
  induction es with
  | nil =>
    intro a ha _
    exact ⟨a, rfl, ha⟩
  | cons e es ih =>
    intro a ha ⟨hfits, hall⟩
    obtain ⟨b, hb, hok⟩ := (decides_handle ha m e).valid hfits
    obtain ⟨r, hr, rfl⟩ := Option.map_eq_some_iff.mp hb
    obtain ⟨b, hrun, hvalid⟩ := ih r.1 hok (hall r hr)
    exact ⟨b, by rw [run, hr]; exact hrun, hvalid⟩

theorem run_append (m : CaseMapping) (es es' : List Event) : ∀ a : App, a.run m (es ++ es') = (a.run m es).bind fun b => b.run m es' := by
  induction es with
  | nil =>
    intro a
    rfl
  | cons e es ih =>
    intro a
    rw [List.cons_append, run, run]
    cases a.handle m e with
    | none => rfl
    | some r => exact ih r.1

theorem At.typeChar {a : App} {p r : List Char} (h : a.At p r) (c : Char) : a.typeChar c =
    some { a with inputLines := a.inputLines.set a.cursorRow (p ++ [c] ++ r), cursorCol := bytes p + 1 } := by
  simp [App.typeChar, h.currentLine, h.col, insertStr_append]

theorem At.run_typed {a : App} {p r : List Char} (h : a.At p r) (m : CaseMapping) (c : Char) (es : List Event) :
    a.run m (typed c :: es) = { a.dismissCompletion with
      inputLines := a.inputLines.set a.cursorRow (p ++ [c] ++ r), cursorCol := bytes p + 1 }.run m es := by
  have htype : a.handle m (typed c) = (a.dismissCompletion.typeChar c).map fun a => (a, .none) := rfl
  rw [run, htype, h.dismissed.typeChar]
  rfl

/-- The character before the cursor of a state is taken back, also one of several bytes that the cursor is inside. -/
theorem restores_erased {a b : App} {p r : List Char} (h : a.At p r) (m : CaseMapping) (c : Char)
    (hlines : b.inputLines = a.inputLines.set a.cursorRow (p ++ [c] ++ r)) (hrow : b.cursorRow = a.cursorRow)
    (hcol : b.cursorCol = bytes p + 1) : a.Restores (b.run m [erased]) := by
  have hline : b.dismissCompletion.currentLine = some (p ++ [c] ++ r) := by
    rw [currentLine, dismissCompletion, hlines, hrow]
    exact h.set _
  have hremove : removeChar (p ++ [c] ++ r) (bytes p) = some (p ++ r) := by
    rw [List.append_assoc]
    exact removeChar_append p r c
  have hback : b.dismissCompletion.backspace = some { b.dismissCompletion with
      inputLines := b.inputLines.set b.cursorRow (p ++ r), cursorCol := bytes p } := by
    have hpos : 0 < b.dismissCompletion.cursorCol := by
      rw [dismissCompletion, hcol]
      exact Nat.succ_pos _
    rw [backspace, if_pos hpos, hline]
    simp only [dismissCompletion, hcol, Nat.add_sub_cancel, Option.bind_eq_bind, Option.bind_some, hremove]
  have hhandle : b.handle m erased = b.dismissCompletion.backspace.map fun b => (b, .none) := rfl
  have hrun : b.run m [erased] = some { b.dismissCompletion with
      inputLines := b.inputLines.set b.cursorRow (p ++ r), cursorCol := bytes p } := by
    rw [run, hhandle, hback]
    rfl
  refine ⟨_, hrun, ?_, hrow, h.col.symm⟩
  obtain ⟨hlt, hget⟩ := List.getElem?_eq_some_iff.mp h.line
  simp only [hlines, hrow, List.set_set]
  rw [← hget, List.set_getElem_self]

theorem restores_of_single (m : CaseMapping) (cs : List Char) : ∀ a : App, a.Valid → (∀ c ∈ cs.dropLast, c.utf8Size = 1) →
    a.Restores (a.run m (cs.map typed ++ List.replicate cs.length erased)) := by
  induction cs with
  | nil =>
    intro a _ _
    exact ⟨a, rfl, rfl, rfl, rfl⟩
  | cons c cs ih =>
    intro a ha hone
    obtain ⟨p, r, hat⟩ := ha.cursor.at
    have hsplit : (c :: cs).map typed ++ List.replicate (c :: cs).length erased =
        typed c :: ((cs.map typed ++ List.replicate cs.length erased) ++ [erased]) := by
      rw [List.length_cons, List.replicate_succ']
      simp
    rw [hsplit, hat.run_typed, run_append]
    cases cs with
    | nil => exact restores_erased hat m c rfl rfl rfl
    | cons c' cs =>
      have hc : c.utf8Size = 1 := hone c (by simp)
      obtain ⟨b, hb, hvalid⟩ := (decides_typeChar ha.dismissed rfl c).valid hc
      rw [hat.dismissed.typeChar] at hb
      cases hb
      obtain ⟨b, hrun, hlines, hrow, hcol⟩ := ih _ hvalid fun d hd => hone d (by
        rw [List.dropLast_cons_cons]
        exact List.mem_cons_of_mem _ hd)
      simp only [dismissCompletion] at hrun ⊢
      rw [hrun]
      exact restores_erased hat m c hlines hrow hcol

theorem run_inside {a : App} (m : CaseMapping) (c : Char) (es : List Event) {line : List Char}
    (hline : a.inputLines[a.cursorRow]? = some line) (hinside : ¬ IsBoundary line a.cursorCol) : a.run m (typed c :: es) = none := by
  have htype : a.handle m (typed c) = (a.dismissCompletion.typeChar c).map fun a => (a, .none) := rfl
  have hnone : a.dismissCompletion.typeChar c = none := by
    simp only [App.typeChar, currentLine, dismissCompletion, hline, Option.bind_eq_bind, Option.bind_some, insertStr_none hinside]
    rfl
  rw [run, htype, hnone]
  rfl

/-- A character that the cursor is put inside of lets no other be typed. -/
theorem single_of_run (m : CaseMapping) (es : List Event) (cs : List Char) : ∀ a b : App, a.Valid →
    a.run m (cs.map typed ++ es) = some b → ∀ c ∈ cs.dropLast, c.utf8Size = 1 := by
  induction cs with
  | nil => simp
  | cons c cs ih =>
    intro a b ha hrun
    obtain ⟨p, r, hat⟩ := ha.cursor.at
    cases cs with
    | nil => simp
    | cons c' cs =>
      rw [List.map_cons, List.cons_append, hat.run_typed] at hrun
      have hc : c.utf8Size = 1 := by
        by_contra hne
        have hinside : ¬ IsBoundary (p ++ [c] ++ r) (bytes p + 1) := by
          rw [List.append_assoc]
          exact mt (isBoundary_next p r c).mp hne
        rw [List.map_cons, List.cons_append, run_inside m c' _ (hat.set _) hinside] at hrun
        cases hrun
      obtain ⟨b', hb, hvalid⟩ := (decides_typeChar ha.dismissed rfl c).valid hc
      rw [hat.dismissed.typeChar] at hb
      cases hb
      have htail := ih _ b hvalid hrun
      intro d hd
      rw [List.dropLast_cons_cons] at hd
      cases hd with
      | head => exact hc
      | tail _ hd => exact htail d hd

theorem restores_iff {a : App} (ha : a.Valid) (m : CaseMapping) (cs : List Char) :
    a.Restores (a.run m (cs.map typed ++ List.replicate cs.length erased)) ↔ ∀ c ∈ cs.dropLast, c.utf8Size = 1 := by
  constructor
  · intro ⟨b, hrun, _⟩
    exact single_of_run m _ cs a b ha hrun
  · exact restores_of_single m cs a ha

theorem Fresh.valid {a : App} (h : a.Fresh) : a.Valid := by
  refine ⟨⟨[], by rw [h.lines, h.row]; rfl, ?_⟩, ?_, ?_⟩
  · rw [h.col]
    exact isBoundary_zero []
  · simp [h.pos]
  · simp [h.completion]

/-- From the editor as it opens, the cursor stays in a line and between two characters of it, and no event fails, exactly if
each event fits; and in every state so reached characters that are typed can be taken back exactly if all but the last have
one byte. -/
theorem editor_runs_iff (m : CaseMapping) (a : App) (ha : a.Fresh) :
    (∀ es, a.Keeps m es ↔ a.FitsAll m es) ∧
    ∀ es b, a.FitsAll m es → a.run m es = some b → ∀ cs : List Char,
      b.Restores (b.run m (cs.map typed ++ List.replicate cs.length erased)) ↔ ∀ c ∈ cs.dropLast, c.utf8Size = 1 := by
  constructor
  · intro es
    exact keeps_iff m es a ha.valid
  · intro es b hall hrun cs
    obtain ⟨b', hrun', hvalid⟩ := run_valid m es a ha.valid hall
    rw [hrun] at hrun'
    cases hrun'
    exact restores_iff hvalid m cs

/-- An editor as it opens, without a history and tables. -/
def opened : App := ⟨[[]], 0, 0, [], none, none, [], 0, []⟩

theorem ascii_keys_keep :
    opened.Keeps Texts.someCases [typed 'a', typed 'b', .key .none .left, erased, .key .none .enter] ∧
    opened.Restores (opened.run Texts.someCases [typed 'a', typed 'é', erased, erased]) := by
  obtain ⟨hkeeps, hrestores⟩ := editor_runs_iff Texts.someCases opened ⟨rfl, rfl, rfl, rfl, rfl⟩
  constructor
  · rw [hkeeps]
    refine ⟨fun _ => rfl, fun r hr => ?_⟩
    cases hr
    refine ⟨fun _ => rfl, fun r hr => ?_⟩
    cases hr
    refine ⟨fun c hc => ?_, fun r hr => ?_⟩
    · cases hc
      rfl
    cases hr
    refine ⟨fun c hc => ?_, fun r hr => ?_⟩
    · cases hc
      rfl
    cases hr
    exact ⟨trivial, fun _ _ => trivial⟩
  · exact (hrestores [] opened trivial rfl ['a', 'é']).mpr (by simp; decide)

/-- The cursor is inside a character of two bytes after it is typed, and the next character makes the editor fail. -/
theorem wide_character_stops : ¬ opened.Keeps Texts.someCases [typed 'é'] ∧
    opened.run Texts.someCases [typed 'é', typed 'x'] = none ∧
    ¬ opened.Restores (opened.run Texts.someCases [typed 'é', typed 'x', erased, erased]) := by
  have hfails (es : List Event) : opened.run Texts.someCases (typed 'é' :: typed 'x' :: es) = none := rfl
  refine ⟨?_, hfails [], ?_⟩
  · intro ⟨_, r, hr, line, hline, hcol⟩
    cases hr
    cases hline
    exact absurd ((isBoundary_next [] [] 'é').mp hcol) (by decide)
  · intro ⟨b, hb, _⟩
    rw [hfails] at hb
    cases hb

end App

end PotatoDB.Tui
