import PotatoDB.BatchRows

/-!
# The frame of a result table

Every line of a table has as many characters as its top border exactly if every text in it is of characters of one byte, none
of them a line feed.
-/

namespace PotatoDB.Display

open Slices (bytes)

variable {schema : List Field}

/-- The rows of a batch as texts. -/
def RecordBatch.rowTexts (b : RecordBatch schema) : List (List (List Char)) :=
  (List.range b.numRows).map fun i => b.columns.map fun column => (columnToStrings column)[i]?.getD []

def allRows (batches : List (RecordBatch schema)) : List (List (List Char)) := batches.flatMap RecordBatch.rowTexts

/-- All rows when they are few, else the first and the last ones. -/
def shownRows (batches : List (RecordBatch schema)) : List (List (List Char)) :=
  if rowCount batches ≤ maxDisplayRows then allRows batches
  else (allRows batches).take (maxDisplayRows / 2) ++ (allRows batches).drop (rowCount batches - maxDisplayRows / 2)

/-- Of characters of one byte, and of one line. -/
def Plain (s : List Char) : Prop := ∀ c ∈ s, c.utf8Size = 1 ∧ c ≠ '\n'

/-- There is a column, and all texts of the table are plain. -/
structure Fits (batches : List (RecordBatch schema)) : Prop where
  columns : 0 < schema.length
  names : ∀ field ∈ schema, Plain field.name ∧ Plain (friendlyType field.dataType)
  cells : ∀ row ∈ shownRows batches, ∀ text ∈ row, Plain text

/-- A line with separators at some positions, its ends among them, and a text with blanks behind it between each two. -/
def Shows (l : List Char) : List Nat → List (List Char) → Prop
  | [i], [] => l[i]? = some '│' ∧ i + 1 = l.length
  | i :: j :: seps, text :: texts => l[i]? = some '│' ∧
    (∃ blanks, (∀ c ∈ blanks, c = ' ') ∧ (l.drop (i + 1)).take (j - (i + 1)) = ' ' :: (text ++ blanks)) ∧
    Shows l (j :: seps) texts
  | _, _ => False

/-- The lines of a table: of one length, and with the separators of all rows at the same positions. -/
structure IsTable (f : FloatFormat) (batches : List (RecordBatch schema)) (lines : List (List Char)) : Prop where
  length : ∃ w, ∀ line ∈ lines, line.length = w
  rows : ∃ seps top names types middle head dots tail rest,
    lines = top :: names :: types :: middle :: (head ++ dots ++ tail ++ rest) ∧
    Shows names seps (schema.map Field.name) ∧ Shows types seps (schema.map fun field => friendlyType field.dataType) ∧
    List.Forall₂ (fun line row => Shows line seps row) (head ++ tail) (shownRows batches) ∧
    if rowCount batches ≤ maxDisplayRows then dots = [] ∧ ∃ bottom, rest = [bottom]
    else head.length = maxDisplayRows / 2 ∧ dots.length = 3 ∧ ∃ border blanks bottom, (∀ c ∈ blanks, c = ' ') ∧
      rest = [border, '│' :: ' ' :: (footerLeft f (rowCount batches) (maxDisplayRows / 2) ++ blanks ++
        footerRight schema.length ++ [' ', '│']), bottom]

/-- A text is returned, and it is a table if there is a row. -/
def Meets (f : FloatFormat) (batches : List (RecordBatch schema)) : Prop :=
  ∃ out, formatBatchesTruncated f batches = some out ∧ (rowCount batches ≠ 0 → IsTable f batches (out.splitOn '\n'))

/-! ## Slices -/

theorem columnToStrings_slice (column : Column) (skip take : Nat) :
    columnToStrings { column with cells := (column.cells.drop skip).take take } =
      ((columnToStrings column).drop skip).take take := by
  simp [columnToStrings, List.map_take, List.map_drop]

theorem rowTexts_slice (b : RecordBatch schema) (skip take : Nat) :
    (b.slice skip take).rowTexts = (b.rowTexts.drop skip).take take := by
  refine List.ext_getElem ?_ ?_
  · simp [RecordBatch.rowTexts, RecordBatch.slice]
  · intro i hi hi'
    have hlt : i < take := by
      rw [List.length_take] at hi'
      omega
    simp only [RecordBatch.rowTexts, RecordBatch.slice, List.getElem_map, List.getElem_range, List.getElem_take, List.getElem_drop,
      List.map_map]
    refine List.map_congr_left fun column _ => ?_
    simp only [Function.comp_apply, columnToStrings_slice, List.getElem?_take_of_lt hlt, List.getElem?_drop]

theorem rowTexts_length (b : RecordBatch schema) : b.rowTexts.length = b.numRows := by
  simp [RecordBatch.rowTexts]

def textView : RowView schema (List (List Char)) where
  rows := RecordBatch.rowTexts
  length_rows := rowTexts_length
  rows_slice := rowTexts_slice

theorem allRows_length (batches : List (RecordBatch schema)) : (allRows batches).length = rowCount batches :=
  textView.length_all batches

theorem allRows_append (before after : List (RecordBatch schema)) : allRows (before ++ after) = allRows before ++ allRows after :=
  textView.all_append before after

theorem allRows_sliceBatches (batches : List (RecordBatch schema)) (offset length : Nat) :
    allRows (sliceBatches batches offset length) = ((allRows batches).drop offset).take length :=
  textView.all_sliceBatches batches offset length

/-- The rows of the batches that are displayed. -/
theorem allRows_display (batches : List (RecordBatch schema)) :
    allRows (if decide (maxDisplayRows < rowCount batches) then sliceBatches batches 0 (maxDisplayRows / 2) ++
      sliceBatches batches (rowCount batches - maxDisplayRows / 2) (maxDisplayRows / 2) else batches) = shownRows batches := by
  by_cases hmany : maxDisplayRows < rowCount batches
  · have hrest : ((allRows batches).drop (rowCount batches - maxDisplayRows / 2)).length ≤ maxDisplayRows / 2 := by
      rw [List.length_drop, allRows_length]
      omega
    rw [shownRows, if_neg (Nat.not_le.mpr hmany), if_pos (decide_eq_true hmany), allRows_append, allRows_sliceBatches,
      allRows_sliceBatches, List.drop_zero, List.take_of_length_le hrest]
  · rw [shownRows, if_pos (Nat.not_lt.mp hmany), if_neg (by simpa using hmany)]

/-! ## Columns -/

/-- Columns of one height that hold some rows. -/
structure Holds (columns : List (List (List Char))) (rows : List (List (List Char))) : Prop where
  height : ∀ col ∈ columns, col.length = rows.length
  row : ∀ r (h : r < rows.length), columns.mapM (fun col => col[r]?) = some rows[r]

theorem mapM_behind {cols : List (List (List Char))} {height : Nat} (hheight : ∀ col ∈ cols, col.length = height) (r : Nat) :
    ∀ cols' : List (List (List Char)), cols'.length = cols.length →
      (List.zipWith (fun col col' => col ++ col') cols cols').mapM (fun col => col[r]?) =
        if r < height then cols.mapM (fun col => col[r]?) else cols'.mapM (fun col => col[r - height]?) := by
  induction cols with
  | nil =>
    intro cols' hlength
    rw [List.length_eq_zero_iff.mp hlength]
    simp
  | cons col cols ih =>
    intro cols' hlength
    obtain ⟨col', cols', rfl⟩ := List.exists_cons_of_length_eq_add_one hlength
    have hcol := hheight col (by simp)
    have htail := ih (fun c hc => hheight c (List.mem_cons_of_mem _ hc)) cols' (by simpa using hlength)
    rw [List.zipWith_cons_cons, List.mapM_cons, List.mapM_cons, List.mapM_cons, htail]
    by_cases hr : r < height
    · simp only [if_pos hr, List.getElem?_append_left (hcol ▸ hr)]
    · simp only [if_neg hr, List.getElem?_append_right (Nat.not_lt.mp (hcol ▸ hr)), hcol]

theorem Holds.behind {cols cols' : List (List (List Char))} {rows rows' : List (List (List Char))} (h : Holds cols rows)
    (h' : Holds cols' rows') (hlength : cols'.length = cols.length) :
    Holds (List.zipWith (fun col col' => col ++ col') cols cols') (rows ++ rows') := by
  constructor
  · intro col hcol
    obtain ⟨i, hi, rfl⟩ := List.getElem_of_mem hcol
    rw [List.length_zipWith] at hi
    rw [List.getElem_zipWith, List.length_append, List.length_append, h.height _ (List.getElem_mem _),
      h'.height _ (List.getElem_mem _)]
  · intro r hr
    rw [mapM_behind h.height r cols' hlength]
    by_cases hfirst : r < rows.length
    · rw [if_pos hfirst, h.row r hfirst, List.getElem_append_left hfirst]
    · rw [List.length_append] at hr
      rw [if_neg hfirst, h'.row (r - rows.length) (by omega), List.getElem_append_right (by omega)]

theorem mapM_some {α β : Type} {f : α → Option β} {g : α → β} {l : List α} (h : ∀ a ∈ l, f a = some (g a)) :
    l.mapM f = some (l.map g) := by
  induction l with
  | nil => rfl
  | cons a l ih =>
    rw [List.mapM_cons, h a (by simp), ih fun b hb => h b (List.mem_cons_of_mem _ hb)]
    rfl

theorem holds_batch (b : RecordBatch schema) : Holds (b.columns.map columnToStrings) b.rowTexts := by
  have hheight : ∀ column ∈ b.columns, (columnToStrings column).length = b.numRows := by
    intro column hcolumn
    rw [columnToStrings, List.length_map, b.cells_length column hcolumn]
  constructor
  · intro col hcol
    obtain ⟨column, hcolumn, rfl⟩ := List.mem_map.mp hcol
    rw [hheight column hcolumn, rowTexts_length]
  · intro r hr
    rw [rowTexts_length] at hr
    rw [List.mapM_map, mapM_some (g := fun column => (columnToStrings column)[r]?.getD [])]
    · simp [RecordBatch.rowTexts]
    · intro column hcolumn
      simp [hheight column hcolumn, hr]

theorem holds_from (batches : List (RecordBatch schema)) : ∀ cols rows, cols.length = schema.length → Holds cols rows →
    let all := batches.foldl (fun columns batch =>
      List.zipWith (fun col column => col ++ columnToStrings column) columns batch.columns) cols
    all.length = schema.length ∧ Holds all (rows ++ allRows batches) := by
  induction batches with
  | nil =>
    intro cols rows hlength hcols
    refine ⟨hlength, ?_⟩
    rw [allRows, List.flatMap_nil, List.append_nil]
    exact hcols
  | cons b batches ih =>
    intro cols rows hlength hcols
    have hcolumns : (b.columns.map columnToStrings).length = cols.length := by rw [List.length_map, b.columns_length, hlength]
    have hnext := hcols.behind (holds_batch b) hcolumns
    rw [List.zipWith_map_right] at hnext
    rw [List.foldl_cons, allRows, List.flatMap_cons, ← List.append_assoc]
    refine ih _ _ ?_ hnext
    rw [List.length_zipWith, b.columns_length, hlength, Nat.min_self]

theorem columnTexts_holds (batches : List (RecordBatch schema)) :
    (columnTexts batches).length = schema.length ∧ Holds (columnTexts batches) (allRows batches) := by
  refine holds_from batches (List.replicate schema.length []) [] List.length_replicate ⟨?_, ?_⟩
  · intro col hcol
    rw [List.eq_of_mem_replicate hcol]
    rfl
  · intro r hr
    cases hr

/-! ## Widths -/

/-- Texts that fit into some widths. -/
def Wide (widths : List Nat) (texts : List (List Char)) : Prop := List.Forall₂ (fun w text => bytes text ≤ w) widths texts

theorem Wide.mono {widths widths' : List Nat} {texts : List (List Char)} (h : Wide widths texts)
    (hle : List.Forall₂ (· ≤ ·) widths widths') : Wide widths' texts := by
  induction h generalizing widths' with
  | nil =>
    cases hle
    exact .nil
  | cons hw _ ih =>
    cases hle with
    | cons hle hrest => exact .cons (Nat.le_trans hw hle) (ih hrest)

theorem le_foldl_max (l : List Nat) : ∀ start n, n ≤ start ∨ n ∈ l → n ≤ l.foldl max start := by
  induction l with
  | nil => simp
  | cons m l ih =>
    intro start n h
    refine ih _ n ?_
    obtain h | h := h
    · exact .inl (by omega)
    · obtain rfl | h := List.mem_cons.mp h
      · exact .inl (Nat.le_max_right _ _)
      · exact .inr h

theorem columnWidths_length : ∀ (schema : List Field) (columns : List (List (List Char))), columns.length = schema.length →
    (columnWidths schema columns).length = schema.length
  | [], _, _ => rfl
  | field :: schema, [], h => by cases h
  | field :: schema, column :: columns, h => by
    rw [columnWidths, List.length_cons, columnWidths_length schema columns (by simpa using h), List.length_cons]

theorem columnWidths_pos : ∀ (schema : List Field) (columns : List (List (List Char))), ∀ w ∈ columnWidths schema columns, 1 ≤ w
  | [], _ => by simp [columnWidths]
  | field :: schema, [] => by simp [columnWidths]
  | field :: schema, column :: columns => by
    intro w hw
    rw [columnWidths, List.mem_cons] at hw
    obtain rfl | hw := hw
    · exact Nat.le_max_right _ _
    · exact columnWidths_pos schema columns w hw

theorem columnWidths_fields (schema : List Field) : ∀ columns : List (List (List Char)), columns.length = schema.length →
    Wide (columnWidths schema columns) (schema.map Field.name) ∧
      Wide (columnWidths schema columns) (schema.map fun field => friendlyType field.dataType) := by
  induction schema with
  | nil => exact fun _ _ => ⟨.nil, .nil⟩
  | cons field schema ih =>
    intro columns h
    obtain ⟨column, columns, rfl⟩ := List.exists_cons_of_length_eq_add_one h
    obtain ⟨hnames, htypes⟩ := ih columns (by simpa using h)
    exact ⟨.cons (by omega) hnames, .cons (by dsimp only; omega) htypes⟩

theorem columnWidths_row (r : Nat) (schema : List Field) : ∀ (columns : List (List (List Char))) (row : List (List Char)),
    columns.length = schema.length → columns.mapM (fun col => col[r]?) = some row → Wide (columnWidths schema columns) row := by
  induction schema with
  | nil =>
    intro columns row h hrow
    rw [List.length_eq_zero_iff.mp h] at hrow
    cases hrow
    exact .nil
  | cons field schema ih =>
    intro columns row h hrow
    obtain ⟨column, columns, rfl⟩ := List.exists_cons_of_length_eq_add_one h
    rw [List.mapM_cons] at hrow
    simp only [Option.bind_eq_bind, Option.bind_eq_some_iff, Option.pure_def, Option.some.injEq] at hrow
    obtain ⟨text, htext, texts, htexts, rfl⟩ := hrow
    have hmax := le_foldl_max (column.map bytes) 0 (bytes text)
      (.inr (List.mem_map_of_mem (List.mem_of_getElem? htext)))
    exact .cons (by omega) (ih columns texts (by simpa using h) htexts)

/-! ## Lines -/

/-- The characters of a line of the frame. -/
def frame (widths : List Nat) : Nat := widths.sum + 3 * widths.length + 1

/-- A text that is one line of the frame. -/
def IsLine (widths : List Nat) (text : List Char) : Prop := ∃ line, text = line ++ ['\n'] ∧ '\n' ∉ line ∧ line.length = frame widths

theorem length_le_bytes (s : List Char) : s.length ≤ bytes s := by
  induction s with
  | nil => exact Nat.le_refl 0
  | cons c s ih =>
    have hc := c.utf8Size_pos
    rw [List.length_cons, Slices.bytes_cons]
    omega

theorem bytes_eq_length_iff (s : List Char) : bytes s = s.length ↔ ∀ c ∈ s, c.utf8Size = 1 := by
  constructor
  · induction s with
    | nil => simp
    | cons c s ih =>
      have hc := c.utf8Size_pos
      have hs := length_le_bytes s
      intro h
      rw [List.length_cons, Slices.bytes_cons] at h
      intro d hd
      obtain rfl | hd := List.mem_cons.mp hd
      · omega
      · exact ih (by omega) d hd
  · exact Slices.bytes_eq_length

theorem border_length (mid : Char) : ∀ widths : List Nat, widths ≠ [] →
    ([mid].intercalate (widths.map fun w => List.replicate (w + 2) '─')).length + 1 = widths.sum + 3 * widths.length
  | [], h => absurd rfl h
  | [w], _ => by simp
  | w :: w' :: widths, _ => by
    have ih := border_length mid (w' :: widths) (by simp)
    rw [List.map_cons, List.map_cons, List.intercalate_cons_cons, ← List.map_cons (f := fun w => List.replicate (w + 2) '─')]
    simp only [List.length_append, List.length_replicate, List.length_cons, List.length_nil, List.sum_cons] at ih ⊢
    omega

theorem border_chars (mid : Char) : ∀ widths : List Nat,
    ∀ c ∈ [mid].intercalate (widths.map fun w => List.replicate (w + 2) '─'), c = mid ∨ c = '─'
  | [] => by simp
  | [w] => by simp
  | w :: w' :: widths => by
    intro c hc
    rw [List.map_cons, List.map_cons, List.intercalate_cons_cons, ← List.map_cons (f := fun w => List.replicate (w + 2) '─')] at hc
    simp only [List.mem_append, List.mem_replicate, List.mem_singleton] at hc
    obtain (⟨-, rfl⟩ | rfl) | hc := hc
    · exact .inr rfl
    · exact .inl rfl
    · exact border_chars mid (w' :: widths) c hc

theorem pushBorder_isLine {widths : List Nat} (h : widths ≠ []) (left mid right : Char) (hleft : left ≠ '\n') (hmid : mid ≠ '\n')
    (hright : right ≠ '\n') : IsLine widths (pushBorder widths left mid right) := by
  have hlength := border_length mid widths h
  refine ⟨left :: ([mid].intercalate (widths.map fun w => List.replicate (w + 2) '─') ++ [right]), by simp [pushBorder], ?_, ?_⟩
  · intro hn
    simp only [List.mem_cons, List.mem_append, List.not_mem_nil, or_false] at hn
    obtain rfl | hn | rfl := hn
    · exact hleft rfl
    · obtain rfl | hdash := border_chars mid widths _ hn
      · exact hmid rfl
      · cases hdash
    · exact hright rfl
  · rw [List.length_cons, List.length_append, List.length_singleton, frame]
    omega

theorem pushCell_length (w : Nat) (val : List Char) : (pushCell w val).length = val.length + (w - bytes val) + 3 := by
  simp [pushCell]
  omega

theorem pushCells_length {widths : List Nat} {values : List (List Char)} (h : Wide widths values) :
    (pushCells widths values).length ≤ widths.sum + 3 * widths.length ∧
      ((pushCells widths values).length = widths.sum + 3 * widths.length ↔ ∀ val ∈ values, ∀ c ∈ val, c.utf8Size = 1) := by
  induction h with
  | nil => simp [pushCells]
  | @cons w val widths values hw _ ih =>
    have hval := length_le_bytes val
    have hsingle := bytes_eq_length_iff val
    obtain ⟨hle, heq⟩ := ih
    rw [pushCells, List.length_append, pushCell_length, List.sum_cons, List.length_cons, List.forall_mem_cons, ← hsingle, ← heq]
    constructor
    · omega
    · constructor <;> intro h <;> omega

theorem newline_pushCells {widths : List Nat} {values : List (List Char)} (h : Wide widths values) :
    '\n' ∈ pushCells widths values ↔ ∃ val ∈ values, '\n' ∈ val := by
  induction h with
  | nil => simp [pushCells]
  | @cons w val widths values _ _ ih =>
    simp [pushCells, pushCell, ih]

/-- The positions of the separators of a row. -/
def separators : Nat → List Nat → List Nat
  | i, [] => [i]
  | i, w :: widths => i :: separators (i + w + 3) widths

theorem separators_cons (i : Nat) (widths : List Nat) : ∃ seps, separators i widths = i :: seps := by
  cases widths with
  | nil => exact ⟨[], rfl⟩
  | cons w widths => exact ⟨_, rfl⟩

theorem shows_cells {widths : List Nat} {values : List (List Char)} (h : Wide widths values) : ∀ start : List Char,
    (∀ val ∈ values, ∀ c ∈ val, c.utf8Size = 1) →
    Shows (start ++ '│' :: pushCells widths values) (separators start.length widths) values := by
  induction h with
  | nil =>
    intro start _
    simp [separators, Shows, pushCells]
  | @cons w val widths values hw _ ih =>
    intro start hsingle
    obtain ⟨hval, hvalues⟩ := List.forall_mem_cons.mp hsingle
    have hbytes := (bytes_eq_length_iff val).mpr hval
    let cell := ' ' :: (val ++ (List.replicate (w - bytes val) ' ' ++ [' ']))
    have hcell : cell.length = w + 2 := by
      simp [cell]
      omega
    have hline : start ++ '│' :: pushCells (w :: widths) (val :: values) = (start ++ '│' :: cell) ++ '│' :: pushCells widths values := by
      simp [pushCells, pushCell, cell]
    have hbehind : (start ++ '│' :: cell).length = start.length + w + 3 := by
      rw [List.length_append, List.length_cons, hcell]
      omega
    have htail := ih (start ++ '│' :: cell) hvalues
    rw [hbehind, ← hline] at htail
    obtain ⟨seps, hseps⟩ := separators_cons (start.length + w + 3) widths
    rw [hseps] at htail
    rw [separators, hseps]
    refine ⟨by simp, ⟨List.replicate (w - bytes val) ' ' ++ [' '], ?_, ?_⟩, htail⟩
    · intro c hc
      obtain hc | hc := List.mem_append.mp hc
      · exact List.eq_of_mem_replicate hc
      · exact List.mem_singleton.mp hc
    · rw [hline, show start ++ '│' :: cell = (start ++ ['│']) ++ cell by simp, List.append_assoc,
        show start.length + 1 = (start ++ ['│']).length by simp, List.drop_left,
        show start.length + w + 3 - (start ++ ['│']).length = cell.length by rw [hcell, List.length_append]; simp; omega,
        List.take_left]

theorem pushDotRow_isLine {widths : List Nat} (h : ∀ w ∈ widths, 1 ≤ w) : IsLine widths (pushDotRow widths) := by
  refine ⟨'│' :: widths.flatMap fun w => ' ' :: '·' :: (List.replicate (w - 1) ' ' ++ [' ', '│']), by simp [pushDotRow], by simp, ?_⟩
  rw [List.length_cons, frame]
  induction widths with
  | nil => rfl
  | cons w widths ih =>
    obtain ⟨hw, hwidths⟩ := List.forall_mem_cons.mp h
    have ih := ih hwidths
    simp only [List.flatMap_cons, List.length_append, List.sum_cons, List.length_cons, List.length_replicate, List.length_nil] at ih ⊢
    omega

/-! ## The footer -/

theorem Plain.append {s t : List Char} (hs : Plain s) (ht : Plain t) : Plain (s ++ t) := by
  intro c hc
  obtain hc | hc := List.mem_append.mp hc
  · exact hs c hc
  · exact ht c hc

theorem plain_isDigit {c : Char} (h : c.isDigit = true) : c.utf8Size = 1 ∧ c ≠ '\n' := by
  rw [Char.isDigit_iff_toNat] at h
  constructor
  · rw [Char.utf8Size_eq_one_iff, UInt32.le_iff_toNat_le]
    exact Nat.le_trans h.2 (by decide)
  · rintro rfl
    exact absurd h.1 (by decide)

theorem plain_digits (n : Nat) : Plain (Nat.toDigits 10 n) := by
  intro c hc
  exact plain_isDigit (Nat.isDigit_of_mem_toDigits (by decide) (by decide) hc)

theorem plain_ratio (f : FloatFormat) (n d p : Nat) : Plain (f.ratio n d p) := by
  intro c hc
  obtain h | rfl := f.ratio_chars n d p c hc
  · exact plain_isDigit h
  · exact ⟨rfl, by decide⟩

instance decidablePlain (s : List Char) : Decidable (Plain s) := List.decidableBAll _ s

theorem plain_friendlyRowCount (f : FloatFormat) (n : Nat) : Plain (friendlyRowCount f n) := by
  rw [friendlyRowCount]
  split
  · exact (plain_ratio f n _ _).append (by decide)
  · split
    · exact (plain_ratio f n _ _).append (by decide)
    · exact plain_digits n

theorem plain_footerLeft (f : FloatFormat) (total half : Nat) : Plain (footerLeft f total half) :=
  (((((plain_digits total).append (by decide)).append (plain_friendlyRowCount f total)).append (by decide)).append
    (plain_digits _)).append (by decide)

theorem plain_footerRight (numCols : Nat) : Plain (footerRight numCols) := (plain_digits numCols).append (by decide)

theorem innerWidth_frame {widths : List Nat} (h : widths ≠ []) : ∃ inner, innerWidth widths = some inner ∧ inner + 2 = frame widths := by
  have hlength := List.length_pos_of_ne_nil h
  refine ⟨widths.sum + 3 * widths.length - 1, ?_, ?_⟩
  · rw [innerWidth, if_pos (by omega)]
  · rw [frame]
    omega

theorem pushFooterContent_isLine (f : FloatFormat) {total half numCols inner : Nat} {widths : List Nat}
    (hinner : innerWidth widths = some inner) (hframe : inner + 2 = frame widths) (hwide : footerTextLen f total half numCols + 2 ≤ inner) :
    ∃ blanks : List Char, (∀ c ∈ blanks, c = ' ') ∧
      let line := '│' :: ' ' :: (footerLeft f total half ++ blanks ++ footerRight numCols ++ [' ', '│'])
      pushFooterContent widths (footerLeft f total half) (footerRight numCols) = some (line ++ ['\n']) ∧ '\n' ∉ line ∧
        line.length = frame widths := by
  have hleft := plain_footerLeft f total half
  have hright := plain_footerRight numCols
  have hl := Slices.bytes_eq_length fun c hc => (hleft c hc).1
  have hr := Slices.bytes_eq_length fun c hc => (hright c hc).1
  rw [footerTextLen] at hwide
  refine ⟨List.replicate (inner - (2 + bytes (footerLeft f total half) + bytes (footerRight numCols))) ' ', ?_, ?_, ?_, ?_⟩
  · intro c hc
    exact List.eq_of_mem_replicate hc
  · simp [pushFooterContent, hinner]
  · have hnl : '\n' ∉ footerLeft f total half := fun h => (hleft _ h).2 rfl
    have hnr : '\n' ∉ footerRight numCols := fun h => (hright _ h).2 rfl
    simp [hnl, hnr]
  · simp only [List.length_cons, List.length_append, List.length_replicate, List.length_nil]
    omega

theorem pushFullBorder_isLine {widths : List Nat} {inner : Nat} (hinner : innerWidth widths = some inner)
    (hframe : inner + 2 = frame widths) : ∃ text, pushFullBorder widths '└' '┘' = some text ∧ IsLine widths text := by
  refine ⟨_, by rw [pushFullBorder, hinner]; rfl, '└' :: (List.replicate inner '─' ++ ['┘']), by simp, by simp, ?_⟩
  simp only [List.length_cons, List.length_append, List.length_replicate, List.length_nil]
  omega

/-- The lines behind the rows, with the numbers of rows and columns between frames if rows are left out. -/
def IsFooter (f : FloatFormat) (truncated : Bool) (total half numCols : Nat) (rest : List (List Char)) : Prop :=
  if truncated then ∃ border blanks bottom, (∀ c ∈ blanks, c = ' ') ∧
    rest = [border, '│' :: ' ' :: (footerLeft f total half ++ blanks ++ footerRight numCols ++ [' ', '│']), bottom]
  else ∃ bottom, rest = [bottom]

def Framed (widths : List Nat) (line : List Char) : Prop := '\n' ∉ line ∧ line.length = frame widths

theorem footer_lines (f : FloatFormat) {truncated : Bool} {total half numCols inner : Nat} {widths : List Nat} (h : widths ≠ [])
    (hinner : innerWidth widths = some inner) (hwide : truncated = true → footerTextLen f total half numCols + 2 ≤ inner) :
    ∃ rest, footer f truncated total half numCols widths = some (rest.flatMap (· ++ ['\n'])) ∧ (∀ line ∈ rest, Framed widths line) ∧
      IsFooter f truncated total half numCols rest := by
  have hframe : inner + 2 = frame widths := by
    obtain ⟨inner', hinner', hframe⟩ := innerWidth_frame h
    rw [hinner] at hinner'
    cases hinner'
    exact hframe
  cases truncated with
  | false =>
    obtain ⟨bottom, hbottom, hline⟩ := pushBorder_isLine h '└' '┴' '┘' (by decide) (by decide) (by decide)
    refine ⟨[bottom], ?_, by simpa [Framed] using hline, bottom, rfl⟩
    simp [footer, hbottom]
  | true =>
    obtain ⟨border, hborder, hline⟩ := pushBorder_isLine h '├' '┴' '┤' (by decide) (by decide) (by decide)
    obtain ⟨blanks, hblanks, hcontent, hcline⟩ := pushFooterContent_isLine f hinner hframe (hwide rfl)
    obtain ⟨_, hlast, bottom, rfl, hbottom⟩ := pushFullBorder_isLine hinner hframe
    refine ⟨_, ?_, ?_, border, blanks, bottom, hblanks, rfl⟩
    · simp only [footer, if_true, hcontent, hlast, hborder, Option.bind_eq_bind, Option.bind_some]
      simp
    · intro line hmem
      simp only [List.mem_cons, List.not_mem_nil, or_false] at hmem
      obtain rfl | rfl | rfl := hmem
      · exact hline
      · exact hcline
      · exact hbottom

theorem le_refl_list : ∀ l : List Nat, List.Forall₂ (· ≤ ·) l l
  | [] => .nil
  | n :: l => .cons (Nat.le_refl n) (le_refl_list l)

theorem modify_le (extra : Nat) : ∀ (widths : List Nat) (i : Nat), i < widths.length →
    List.Forall₂ (· ≤ ·) widths (widths.modify i fun last => last + extra) ∧
      (widths.modify i fun last => last + extra).sum = widths.sum + extra
  | w :: widths, 0, _ => by
    refine ⟨.cons (Nat.le_add_right w extra) (le_refl_list widths), ?_⟩
    simp only [List.modify_zero_cons, List.sum_cons]
    omega
  | w :: widths, i + 1, h => by
    obtain ⟨hle, hsum⟩ := modify_le extra widths i (by simpa using h)
    refine ⟨.cons (Nat.le_refl w) hle, ?_⟩
    simp only [List.modify_succ_cons, List.sum_cons, hsum]
    omega

/-- The last column makes room for the footer of a truncated table. -/
theorem widened_wide (f : FloatFormat) (truncated : Bool) (total half numCols : Nat) {widths : List Nat} (h : widths ≠ []) :
    ∃ widths' inner, widened f truncated total half numCols widths = some widths' ∧ List.Forall₂ (· ≤ ·) widths widths' ∧
      innerWidth widths' = some inner ∧ (truncated = true → footerTextLen f total half numCols + 2 ≤ inner) := by
  have hlength := List.length_pos_of_ne_nil h
  obtain ⟨inner, hinner, hframe⟩ := innerWidth_frame h
  by_cases hnarrow : truncated = true ∧ inner < footerTextLen f total half numCols + 2
  · obtain ⟨htruncated, hnarrow⟩ := hnarrow
    obtain ⟨hle, hsum⟩ := modify_le (footerTextLen f total half numCols + 2 - inner) widths (widths.length - 1) (by omega)
    have hwidths' := (List.Forall₂.length_eq hle).symm
    rw [frame] at hframe
    refine ⟨_, footerTextLen f total half numCols + 2, ?_, hle, ?_, fun _ => Nat.le_refl _⟩
    · simp [widened, htruncated, hinner, hnarrow]
    · rw [innerWidth, hsum, hwidths', if_pos (by omega)]
      congr 1
      omega
  · refine ⟨widths, inner, ?_, le_refl_list widths, hinner, fun ht => Nat.not_lt.mp (not_and.mp hnarrow ht)⟩
    cases truncated with
    | false => rfl
    | true => simp [widened, hinner, not_and.mp hnarrow rfl]

/-! ## Rows -/

def rowLine (widths : List Nat) (values : List (List Char)) : List Char := '│' :: pushCells widths values

theorem pushRow_rowLine (widths : List Nat) (values : List (List Char)) : pushRow widths values = rowLine widths values ++ ['\n'] := rfl

/-- What is put before a row. -/
def dotsBefore (truncated : Bool) (half : Nat) (widths : List Nat) (row : Nat) : List Char :=
  if truncated && row == half then (List.replicate 3 (pushDotRow widths)).flatten else []

theorem mapM_dataRow (truncated : Bool) (half : Nat) (widths : List Nat) {cols rows : List (List (List Char))} (h : Holds cols rows) :
    (List.range rows.length).mapM (dataRow truncated half widths cols) =
      some (rows.zipIdx.map fun p => dotsBefore truncated half widths p.2 ++ pushRow widths p.1) := by
  rw [mapM_some (g := fun r => dotsBefore truncated half widths r ++ pushRow widths (rows[r]?.getD []))]
  · congr 1
    refine List.ext_getElem (by simp) ?_
    intro r hr hr'
    rw [List.length_map, List.length_range] at hr
    simp [hr]
  · intro r hr
    have hr := List.mem_range.mp hr
    simp [dataRow, h.row r hr, hr, dotsBefore]

theorem flatten_rows (truncated : Bool) (half : Nat) (widths : List Nat) : ∀ (rows : List (List (List Char))) (k : Nat),
    (truncated = true → half < k ∨ k + rows.length ≤ half) →
    ((rows.zipIdx k).map fun p => dotsBefore truncated half widths p.2 ++ pushRow widths p.1).flatten =
      (rows.map (rowLine widths)).flatMap (· ++ ['\n'])
  | [], _, _ => rfl
  | row :: rows, k, h => by
    have htail := flatten_rows truncated half widths rows (k + 1) fun ht => by
      have := h ht
      rw [List.length_cons] at this
      omega
    have hdots : dotsBefore truncated half widths k = [] := by
      rw [dotsBefore, if_neg]
      simp only [Bool.and_eq_true, beq_iff_eq, not_and]
      intro ht
      have := h ht
      rw [List.length_cons] at this
      omega
    rw [List.zipIdx_cons, List.map_cons, List.flatten_cons, htail, List.map_cons, List.flatMap_cons, hdots]
    rfl

/-- The rows, with three rows of dots between the first and the last ones of a truncated table. -/
theorem data_lines (truncated : Bool) {half : Nat} {widths : List Nat} (hpos : ∀ w ∈ widths, 1 ≤ w) (rows : List (List (List Char)))
    (hhalf : truncated = true → half < rows.length) :
    ∃ head tail dots, head ++ tail = rows ∧ (∀ line ∈ dots, Framed widths line) ∧
      (if truncated then head.length = half ∧ dots.length = 3 else dots = []) ∧
      (rows.zipIdx.map fun p => dotsBefore truncated half widths p.2 ++ pushRow widths p.1).flatten =
        (head.map (rowLine widths) ++ dots ++ tail.map (rowLine widths)).flatMap (· ++ ['\n']) := by
  cases truncated with
  | false =>
    refine ⟨rows, [], [], by simp, by simp, by simp, ?_⟩
    rw [flatten_rows false half widths rows 0 (by simp)]
    simp
  | true =>
    have hlt := hhalf rfl
    obtain ⟨dot, hdot, hline⟩ := pushDotRow_isLine hpos
    obtain ⟨row, tail, htail⟩ := List.exists_cons_of_ne_nil (List.drop_eq_nil_iff.not.mpr (Nat.not_le.mpr hlt))
    have hhead : (rows.take half).length = half := by
      rw [List.length_take]
      omega
    refine ⟨rows.take half, rows.drop half, List.replicate 3 dot, List.take_append_drop half rows, ?_, ⟨hhead, rfl⟩, ?_⟩
    · intro line hmem
      rw [List.eq_of_mem_replicate hmem]
      exact hline
    · have hfirst := flatten_rows true half widths (rows.take half) 0 fun _ => .inr (by omega)
      have hlast := flatten_rows true half widths tail (half + 1) fun _ => .inl (by omega)
      have hdots : dotsBefore true half widths half = (List.replicate 3 dot).flatMap (· ++ ['\n']) := by
        simp [dotsBefore, hdot, List.replicate, List.flatMap]
      conv_lhs => rw [← List.take_append_drop half rows]
      rw [List.zipIdx_append, List.map_append, List.flatten_append, hfirst, hhead, Nat.zero_add, htail, List.zipIdx_cons,
        List.map_cons, List.flatten_cons, hlast, hdots, List.map_cons]
      simp [pushRow_rowLine]

/-! ## The whole table -/

/-- The lines that are written over some widths. -/
structure Layout (f : FloatFormat) (batches : List (RecordBatch schema)) (widths : List Nat) (lines : List (List Char)) : Prop where
  names : Wide widths (schema.map Field.name)
  types : Wide widths (schema.map fun field => friendlyType field.dataType)
  cells : ∀ row ∈ shownRows batches, Wide widths row
  parts : ∃ top middle head dots tail rest,
    lines = top :: rowLine widths (schema.map Field.name) :: rowLine widths (schema.map fun field => friendlyType field.dataType) ::
      middle :: (head.map (rowLine widths) ++ dots ++ tail.map (rowLine widths) ++ rest) ∧
    head ++ tail = shownRows batches ∧ (∀ line ∈ top :: middle :: (dots ++ rest), Framed widths line) ∧
    (if decide (maxDisplayRows < rowCount batches) then head.length = maxDisplayRows / 2 ∧ dots.length = 3 else dots = []) ∧
    IsFooter f (decide (maxDisplayRows < rowCount batches)) (rowCount batches) (maxDisplayRows / 2) schema.length rest

theorem rowCount_pos {batches : List (RecordBatch schema)} (h : rowCount batches ≠ 0) :
    ¬ (batches = [] ∨ batches.all (fun b => b.numRows == 0)) := by
  intro hempty
  refine h ?_
  rw [rowCount, List.sum_eq_zero_iff_forall_eq_nat]
  intro n hn
  obtain ⟨b, hb, rfl⟩ := List.mem_map.mp hn
  obtain rfl | hall := hempty
  · cases hb
  · exact beq_iff_eq.mp (List.all_eq_true.mp hall b hb)

theorem pos_of_le {widths widths' : List Nat} (hle : List.Forall₂ (· ≤ ·) widths widths') (h : ∀ w ∈ widths, 1 ≤ w) :
    ∀ w ∈ widths', 1 ≤ w := by
  induction hle with
  | nil => simp
  | cons hle _ ih =>
    obtain ⟨hw, hwidths⟩ := List.forall_mem_cons.mp h
    exact List.forall_mem_cons.mpr ⟨Nat.le_trans hw hle, ih hwidths⟩

theorem getLast?_lines {lines : List (List Char)} (h : lines ≠ []) : (lines.flatMap (· ++ ['\n'])).getLast? = some '\n' := by
  obtain ⟨lines, line, rfl⟩ : ∃ ls line, lines = ls ++ [line] := ⟨_, _, (List.dropLast_append_getLast h).symm⟩
  simp

/-- The lines of a text are those of its lines. -/
theorem splitOn_lines : ∀ {lines : List (List Char)}, lines ≠ [] →
    (lines.flatMap (· ++ ['\n'])).dropLast.splitOn '\n' = lines.flatMap fun line => line.splitOn '\n'
  | [], h => absurd rfl h
  | [line], _ => by simp
  | line :: line' :: lines, _ => by
    have ih := splitOn_lines (List.cons_ne_nil line' lines)
    have hne : (line' :: lines).flatMap (· ++ ['\n']) ≠ [] := by simp
    rw [List.flatMap_cons, List.append_assoc, List.singleton_append, List.dropLast_append_of_ne_nil (List.cons_ne_nil _ _),
      List.dropLast_cons_of_ne_nil hne, List.splitOn_append_cons_self, ih]
    rfl

theorem format_layout (f : FloatFormat) {batches : List (RecordBatch schema)} (hrows : rowCount batches ≠ 0) (hcols : 0 < schema.length) :
    ∃ widths lines, Layout f batches widths lines ∧
      formatBatchesTruncated f batches = some (lines.flatMap (· ++ ['\n'])).dropLast := by
  obtain ⟨hlength, hholds⟩ := columnTexts_holds (if decide (maxDisplayRows < rowCount batches) then
    sliceBatches batches 0 (maxDisplayRows / 2) ++
      sliceBatches batches (rowCount batches - maxDisplayRows / 2) (maxDisplayRows / 2) else batches)
  rw [allRows_display] at hholds
  generalize hcolumns : columnTexts (if decide (maxDisplayRows < rowCount batches) then
    sliceBatches batches 0 (maxDisplayRows / 2) ++
      sliceBatches batches (rowCount batches - maxDisplayRows / 2) (maxDisplayRows / 2) else batches) = columns at hlength hholds
  have hcount := columnWidths_length schema columns hlength
  have hne : columnWidths schema columns ≠ [] := List.ne_nil_of_length_pos (by omega)
  obtain ⟨widths, inner, hwidths, hle, hinner, hwide⟩ := widened_wide f (decide (maxDisplayRows < rowCount batches))
    (rowCount batches) (maxDisplayRows / 2) schema.length hne
  have hne' : widths ≠ [] := List.ne_nil_of_length_pos (by rw [← List.Forall₂.length_eq hle]; omega)
  obtain ⟨column, rest, hcolumn⟩ := List.exists_cons_of_ne_nil (List.ne_nil_of_length_pos (show 0 < columns.length by omega))
  have hfirst : columns[0]? = some column := by rw [hcolumn]; rfl
  have hheight : column.length = (shownRows batches).length := hholds.height column (by simp [hcolumn])
  have hhalf : decide (maxDisplayRows < rowCount batches) = true → maxDisplayRows / 2 < (shownRows batches).length := by
    intro hmany
    have hmany := of_decide_eq_true hmany
    rw [shownRows, if_neg (Nat.not_le.mpr hmany), List.length_append, List.length_take, List.length_drop, allRows_length]
    simp only [maxDisplayRows] at hmany ⊢
    omega
  obtain ⟨head, tail, dots, hshown, hdots, hcounts, hdata⟩ := data_lines (decide (maxDisplayRows < rowCount batches))
    (pos_of_le hle (columnWidths_pos schema columns)) (shownRows batches) hhalf
  obtain ⟨foot, hfoot, hframed, hfooter⟩ := footer_lines f hne' hinner hwide
  obtain ⟨top, htop, htopLine⟩ := pushBorder_isLine hne' '┌' '┬' '┐' (by decide) (by decide) (by decide)
  obtain ⟨middle, hmiddle, hmiddleLine⟩ := pushBorder_isLine hne' '├' '┼' '┤' (by decide) (by decide) (by decide)
  obtain ⟨hnames, htypes⟩ := columnWidths_fields schema columns hlength
  refine ⟨widths, _, ⟨hnames.mono hle, htypes.mono hle, ?_, top, middle, head, dots, tail, foot, rfl, hshown, ?_, hcounts, hfooter⟩, ?_⟩
  · intro row hrow
    obtain ⟨r, hr, rfl⟩ := List.getElem_of_mem hrow
    exact (columnWidths_row r schema columns _ hlength (hholds.row r hr)).mono hle
  · intro line hline
    simp only [List.mem_cons, List.mem_append] at hline
    obtain rfl | rfl | hline | hline := hline
    · exact htopLine
    · exact hmiddleLine
    · exact hdots line hline
    · exact hframed line hline
  · have hout : top ++ ['\n'] ++ pushRow widths (schema.map Field.name) ++
        pushRow widths (schema.map fun field => friendlyType field.dataType) ++ (middle ++ ['\n']) ++
        (head.map (rowLine widths) ++ dots ++ tail.map (rowLine widths)).flatMap (· ++ ['\n']) ++ foot.flatMap (· ++ ['\n']) =
        (top :: rowLine widths (schema.map Field.name) :: rowLine widths (schema.map fun field => friendlyType field.dataType) ::
          middle :: (head.map (rowLine widths) ++ dots ++ tail.map (rowLine widths) ++ foot)).flatMap (· ++ ['\n']) := by
      simp [pushRow_rowLine]
    simp only [formatBatchesTruncated, if_neg (rowCount_pos hrows), hcolumns, hwidths, Option.bind_eq_bind, Option.bind_some, hfirst,
      hheight, mapM_dataRow _ _ widths hholds, hfoot, hdata, htop, hmiddle]
    rw [hout, if_pos (getLast?_lines (by simp))]

/-- A line of a length whose pieces have that length is one piece. -/
theorem whole_of_pieces {line : List Char} {w : Nat} (hle : line.length ≤ w) (h : ∀ piece ∈ line.splitOn '\n', piece.length = w) :
    '\n' ∉ line ∧ line.length = w := by
  have hone : '\n' ∉ line := by
    intro hmem
    obtain ⟨p, r, rfl, hp⟩ := List.eq_append_cons_of_mem hmem
    have hfirst := h p (by rw [List.splitOn_append_cons_self_of_not_mem hp]; exact List.mem_cons_self)
    rw [List.length_append, List.length_cons] at hle
    omega
  refine ⟨hone, h line ?_⟩
  rw [List.splitOn_eq_singleton hone]
  exact List.mem_singleton_self line

theorem rowLine_length {widths : List Nat} {values : List (List Char)} (h : Wide widths values) :
    (rowLine widths values).length ≤ frame widths ∧
      (Framed widths (rowLine widths values) ↔ ∀ val ∈ values, Plain val) := by
  obtain ⟨hle, heq⟩ := pushCells_length h
  have hnewline := newline_pushCells h
  have hframed : Framed widths (rowLine widths values) ↔
      '\n' ∉ pushCells widths values ∧ (pushCells widths values).length = widths.sum + 3 * widths.length := by
    rw [Framed, rowLine, frame, List.length_cons, Nat.add_right_cancel_iff, List.mem_cons]
    simp
  rw [hframed, heq, hnewline, rowLine, List.length_cons, frame]
  refine ⟨by omega, ?_⟩
  constructor
  · intro ⟨hn, hsize⟩ val hval c hc
    refine ⟨hsize val hval c hc, ?_⟩
    rintro rfl
    exact hn ⟨val, hval, hc⟩
  · intro hplain
    refine ⟨?_, fun val hval c hc => (hplain val hval c hc).1⟩
    intro ⟨val, hval, hc⟩
    exact (hplain val hval _ hc).2 rfl

theorem Layout.fits {f : FloatFormat} {batches : List (RecordBatch schema)} {widths : List Nat} {lines : List (List Char)}
    (h : Layout f batches widths lines) (hcols : 0 < schema.length) {w : Nat}
    (hw : ∀ line ∈ lines.flatMap fun line => line.splitOn '\n', line.length = w) : Fits batches := by
  obtain ⟨top, middle, head, dots, tail, rest, rfl, hshown, hframed, -, -⟩ := h.parts
  obtain ⟨htop, htopw⟩ := hframed top (by simp)
  have hframe : w = frame widths := by
    rw [← htopw]
    refine (hw top (List.mem_flatMap.mpr ⟨top, by simp, ?_⟩)).symm
    rw [List.splitOn_eq_singleton htop]
    exact List.mem_singleton_self top
  have hplain : ∀ values, Wide widths values → rowLine widths values ∈ top :: rowLine widths (schema.map Field.name) ::
      rowLine widths (schema.map fun field => friendlyType field.dataType) ::
      middle :: (head.map (rowLine widths) ++ dots ++ tail.map (rowLine widths) ++ rest) → ∀ val ∈ values, Plain val := by
    intro values hwide hmem
    obtain ⟨hle, hiff⟩ := rowLine_length hwide
    rw [← hiff]
    refine whole_of_pieces hle fun piece hpiece => ?_
    rw [← hframe]
    exact hw piece (List.mem_flatMap.mpr ⟨_, hmem, hpiece⟩)
  refine ⟨hcols, ?_, ?_⟩
  · intro field hfield
    exact ⟨hplain _ h.names (by simp) _ (List.mem_map_of_mem hfield), hplain _ h.types (by simp) _ (List.mem_map_of_mem hfield)⟩
  · intro row hrow
    refine hplain row (h.cells row hrow) ?_
    rw [← hshown, List.mem_append] at hrow
    obtain hrow | hrow := hrow
    · simp only [List.mem_cons, List.mem_append, List.mem_map_of_mem hrow, true_or, or_true]
    · simp only [List.mem_cons, List.mem_append, List.mem_map_of_mem hrow, true_or, or_true]

theorem splitOn_framed {lines : List (List Char)} (h : ∀ line ∈ lines, '\n' ∉ line) :
    (lines.flatMap fun line => line.splitOn '\n') = lines := by
  induction lines with
  | nil => rfl
  | cons line lines ih =>
    obtain ⟨hline, hlines⟩ := List.forall_mem_cons.mp h
    rw [List.flatMap_cons, List.splitOn_eq_singleton hline, ih hlines]
    rfl

theorem shows_rowLine {widths : List Nat} {values : List (List Char)} (h : Wide widths values) (hplain : ∀ val ∈ values, Plain val) :
    Shows (rowLine widths values) (separators 0 widths) values :=
  shows_cells h [] fun val hval c hc => (hplain val hval c hc).1

theorem forall₂_rows {widths : List Nat} {rows : List (List (List Char))} (hwide : ∀ row ∈ rows, Wide widths row)
    (hplain : ∀ row ∈ rows, ∀ text ∈ row, Plain text) :
    List.Forall₂ (fun line row => Shows line (separators 0 widths) row) (rows.map (rowLine widths)) rows := by
  induction rows with
  | nil => exact .nil
  | cons row rows ih =>
    obtain ⟨hrow, hrows⟩ := List.forall_mem_cons.mp hwide
    obtain ⟨hp, hps⟩ := List.forall_mem_cons.mp hplain
    exact .cons (shows_rowLine hrow hp) (ih hrows hps)

theorem Layout.isTable {f : FloatFormat} {batches : List (RecordBatch schema)} {widths : List Nat} {lines : List (List Char)}
    (h : Layout f batches widths lines) (hfits : Fits batches) : IsTable f batches (lines.flatMap fun line => line.splitOn '\n') := by
  obtain ⟨top, middle, head, dots, tail, rest, rfl, hshown, hframed, hcounts, hfooter⟩ := h.parts
  have hnames : ∀ val ∈ schema.map Field.name, Plain val := by
    intro val hval
    obtain ⟨field, hfield, rfl⟩ := List.mem_map.mp hval
    exact (hfits.names field hfield).1
  have htypes : ∀ val ∈ schema.map fun field => friendlyType field.dataType, Plain val := by
    intro val hval
    obtain ⟨field, hfield, rfl⟩ := List.mem_map.mp hval
    exact (hfits.names field hfield).2
  have hrows : ∀ row ∈ head ++ tail, Framed widths (rowLine widths row) := by
    rw [hshown]
    intro row hrow
    exact (rowLine_length (h.cells row hrow)).2.mpr (hfits.cells row hrow)
  have hall : ∀ line ∈ top :: rowLine widths (schema.map Field.name) ::
      rowLine widths (schema.map fun field => friendlyType field.dataType) ::
      middle :: (head.map (rowLine widths) ++ dots ++ tail.map (rowLine widths) ++ rest), Framed widths line := by
    intro line hline
    simp only [List.mem_cons, List.mem_append, List.mem_map, or_assoc] at hline
    obtain rfl | rfl | rfl | rfl | ⟨row, hrow, rfl⟩ | hline | ⟨row, hrow, rfl⟩ | hline := hline
    · exact hframed _ (by simp)
    · exact (rowLine_length h.names).2.mpr hnames
    · exact (rowLine_length h.types).2.mpr htypes
    · exact hframed _ (by simp)
    · exact hrows row (List.mem_append_left _ hrow)
    · exact hframed line (by simp [hline])
    · exact hrows row (List.mem_append_right _ hrow)
    · exact hframed line (by simp [hline])
  rw [splitOn_framed fun line hline => (hall line hline).1]
  refine ⟨⟨frame widths, fun line hline => (hall line hline).2⟩, separators 0 widths, top, _, _, middle, head.map (rowLine widths), dots,
    tail.map (rowLine widths), rest, rfl, shows_rowLine h.names hnames, shows_rowLine h.types htypes, ?_, ?_⟩
  · rw [← List.map_append, hshown]
    exact forall₂_rows h.cells hfits.cells
  · by_cases hfew : rowCount batches ≤ maxDisplayRows
    · rw [decide_eq_false (Nat.not_lt.mpr hfew)] at hcounts hfooter
      rw [if_pos hfew]
      exact ⟨hcounts, hfooter⟩
    · rw [decide_eq_true (Nat.not_le.mp hfew)] at hcounts hfooter
      rw [if_neg hfew, List.length_map]
      exact ⟨hcounts.1, hcounts.2, hfooter⟩

theorem format_empty (f : FloatFormat) {batches : List (RecordBatch schema)} (h : rowCount batches = 0) :
    formatBatchesTruncated f batches = some "(0 rows)".toList := by
  rw [formatBatchesTruncated, if_pos]
  refine .inr (List.all_eq_true.mpr fun b hb => beq_iff_eq.mpr ?_)
  rw [rowCount, List.sum_eq_zero_iff_forall_eq_nat] at h
  exact h _ (List.mem_map_of_mem hb)

/-- Without columns there is no first one to count the rows of. -/
theorem format_no_columns (f : FloatFormat) {batches : List (RecordBatch schema)} (hrows : rowCount batches ≠ 0)
    (hcols : schema.length = 0) : formatBatchesTruncated f batches = none := by
  have hcolumns (display : List (RecordBatch schema)) : (columnTexts display)[0]? = none := by
    have hlength := (columnTexts_holds display).1
    exact List.getElem?_eq_none (by omega)
  simp only [formatBatchesTruncated, if_neg (rowCount_pos hrows), hcolumns, Option.bind_eq_bind, Option.bind_none]
  cases widened f _ _ _ _ _ <;> rfl

/-- A table comes out, of lines of one length over the same separators and with the first and the last rows, exactly if there
is a row and then a column and every text that is shown is plain, or there is no row. -/
theorem format_batches_iff (f : FloatFormat) (batches : List (RecordBatch schema)) :
    Meets f batches ↔ (rowCount batches ≠ 0 → Fits batches) := by
  by_cases hrows : rowCount batches = 0
  · constructor
    · intro _ h
      exact absurd hrows h
    · intro _
      exact ⟨_, format_empty f hrows, fun h => absurd hrows h⟩
  · by_cases hcols : 0 < schema.length
    · obtain ⟨widths, lines, hlayout, hout⟩ := format_layout f hrows hcols
      have hne : lines ≠ [] := by
        obtain ⟨_, _, _, _, _, _, rfl, -⟩ := hlayout.parts
        simp
      constructor
      · intro ⟨out, hformat, htable⟩ _
        rw [hout] at hformat
        cases hformat
        obtain ⟨w, hw⟩ := (htable hrows).length
        rw [splitOn_lines hne] at hw
        exact hlayout.fits hcols hw
      · intro hfits
        refine ⟨_, hout, fun _ => ?_⟩
        rw [splitOn_lines hne]
        exact hlayout.isTable (hfits hrows)
    · constructor
      · intro ⟨out, hformat, _⟩
        rw [format_no_columns f hrows (by omega)] at hformat
        cases hformat
      · intro hfits
        exact absurd (hfits hrows).columns hcols

/-- The texts that the numbers of a short result never need. -/
def someFloats : FloatFormat := ⟨fun _ _ _ => ['1', '.', '0'], by simp⟩

def accented : RecordBatch [⟨"name".toList, .utf8⟩] where
  numRows := 1
  columns := [⟨true, [some "José".toList]⟩]
  columns_length := rfl
  cells_length := by simp

/-- The row of a name with an accent is one character shorter than the frame. -/
theorem accent_breaks_frame : ¬ Meets someFloats [accented] := by
  have hout : formatBatchesTruncated someFloats [accented] = some
      "┌─────────┐\n│ name    │\n│ varchar │\n├─────────┤\n│ José   │\n└─────────┘".toList := by
    decide +kernel
  intro ⟨out, hformat, htable⟩
  have heq := Option.some.inj (hformat.symm.trans hout)
  obtain ⟨w, hw⟩ := (htable (by decide)).length
  rw [heq] at hw
  have hnarrow := hw "│ José   │".toList (by decide +kernel)
  have hframe := hw "│ name    │".toList (by decide +kernel)
  rw [← hframe] at hnarrow
  exact absurd hnarrow (by decide)

end PotatoDB.Display
