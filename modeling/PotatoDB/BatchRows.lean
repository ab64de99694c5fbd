import PotatoDB.ResultTable

/-!
# Rows of batches

The rows of a result lie in batches behind each other, some of them without rows. The pages of a table and the C interface
find a row by its index in all of them.
-/

namespace PotatoDB

namespace Display

variable {schema : List Field} {α : Type}

/-- A way to read the rows of a batch, the same for a slice of it. -/
structure RowView (schema : List Field) (α : Type) where
  rows : RecordBatch schema → List α
  length_rows : ∀ b, (rows b).length = b.numRows
  rows_slice : ∀ b skip take, rows (b.slice skip take) = ((rows b).drop skip).take take

namespace RowView

variable (v : RowView schema α)

def all (batches : List (RecordBatch schema)) : List α := batches.flatMap v.rows

@[simp] theorem all_nil : v.all [] = [] := rfl

theorem all_cons (b : RecordBatch schema) (batches : List (RecordBatch schema)) : v.all (b :: batches) = v.rows b ++ v.all batches :=
  List.flatMap_cons

theorem all_append (before after : List (RecordBatch schema)) : v.all (before ++ after) = v.all before ++ v.all after :=
  List.flatMap_append

theorem length_all (batches : List (RecordBatch schema)) : (v.all batches).length = rowCount batches := by
  induction batches with
  | nil => rfl
  | cons b batches ih =>
    rw [all_cons, List.length_append, v.length_rows, ih]
    simp [rowCount]

/-- The rows of the first batch that a slice takes, and what it still takes of the others. -/
theorem take_behind (b : RecordBatch schema) (rest : List α) {skip : Nat} (remaining : Nat) (h : skip ≤ b.numRows) :
    ((v.rows b ++ rest).drop skip).take remaining =
      ((v.rows b).drop skip).take (min remaining (b.numRows - skip)) ++ rest.take (remaining - min remaining (b.numRows - skip)) := by
  have hlength := v.length_rows b
  have hfirst : ((v.rows b).drop skip).take remaining = ((v.rows b).drop skip).take (min remaining (b.numRows - skip)) := by
    rw [← hlength, ← List.length_drop, ← List.take_take, List.take_length]
  rw [List.drop_append, Nat.sub_eq_zero_of_le (show skip ≤ (v.rows b).length by omega), List.drop_zero, List.take_append, hfirst,
    List.length_drop, hlength]
  congr 2
  omega

theorem all_sliceFrom (offset : Nat) (batches : List (RecordBatch schema)) : ∀ seen remaining : Nat,
    v.all (sliceBatchesFrom offset seen remaining batches) = ((v.all batches).drop (offset - seen)).take remaining := by
  induction batches with
  | nil => simp [sliceBatchesFrom]
  | cons b batches ih =>
    intro seen remaining
    have hlength := v.length_rows b
    rw [sliceBatchesFrom, all_cons]
    by_cases hbefore : seen + b.numRows ≤ offset
    · have hdrop : (v.rows b).drop (offset - seen) = [] := List.drop_eq_nil_iff.mpr (by omega)
      rw [if_pos hbefore, ih, List.drop_append, hdrop, List.nil_append, hlength, Nat.sub_sub]
    · rw [if_neg hbefore, v.take_behind b _ _ (by omega)]
      have hrest : v.all (if remaining - min remaining (b.numRows - (offset - seen)) = 0 then []
          else sliceBatchesFrom offset (seen + b.numRows) (remaining - min remaining (b.numRows - (offset - seen))) batches) =
          (v.all batches).take (remaining - min remaining (b.numRows - (offset - seen))) := by
        split
        · rename_i hdone
          rw [hdone]
          rfl
        · rw [ih, Nat.sub_eq_zero_of_le (show offset ≤ seen + b.numRows by omega), List.drop_zero]
      simp only
      by_cases htake : 0 < min remaining (b.numRows - (offset - seen))
      · rw [if_pos htake, all_cons, v.rows_slice, hrest]
      · rw [if_neg htake, hrest, Nat.eq_zero_of_not_pos htake]
        rfl

theorem all_sliceBatches (batches : List (RecordBatch schema)) (offset length : Nat) :
    v.all (sliceBatches batches offset length) = ((v.all batches).drop offset).take length :=
  v.all_sliceFrom offset batches 0 length

end RowView

/-! ## Rows of values -/

/-- The values of a row, column by column, with the nulls. -/
def RecordBatch.cellRows (b : RecordBatch schema) : List (List (Option (List Char))) :=
  (List.range b.numRows).map fun i => b.columns.map fun column => column.cells[i]?.join

/-- The rows of the batches behind each other. -/
def concatRows (batches : List (RecordBatch schema)) : List (List (Option (List Char))) := batches.flatMap RecordBatch.cellRows

theorem cellRows_slice (b : RecordBatch schema) (skip take : Nat) :
    (b.slice skip take).cellRows = (b.cellRows.drop skip).take take := by
  refine List.ext_getElem ?_ ?_
  · simp [RecordBatch.cellRows, RecordBatch.slice]
  · intro i hi hi'
    have hlt : i < take := by
      rw [List.length_take] at hi'
      omega
    simp only [RecordBatch.cellRows, RecordBatch.slice, List.getElem_map, List.getElem_range, List.getElem_take, List.getElem_drop,
      List.map_map]
    refine List.map_congr_left fun column _ => ?_
    simp only [Function.comp_apply, List.getElem?_take_of_lt hlt, List.getElem?_drop]

def cellView : RowView schema (List (Option (List Char))) where
  rows := RecordBatch.cellRows
  length_rows b := by simp [RecordBatch.cellRows]
  rows_slice := cellRows_slice

end Display

namespace Ffi

open Display

variable {schema : List Field}

def resolveRowFrom (row offset : Nat) : List (RecordBatch schema) → Option (RecordBatch schema × Nat)
  | [] => none
  | batch :: batches =>
    let n := batch.numRows
    if row < offset + n then some (batch, row - offset) else resolveRowFrom row (offset + n) batches

def resolveRow (batches : List (RecordBatch schema)) (row : Nat) : Option (RecordBatch schema × Nat) :=
  resolveRowFrom row 0 batches

def potatoResultIsNull (batches : List (RecordBatch schema)) (row col : Nat) : Bool :=
  match resolveRow batches row with
  | none => true
  | some (batch, localRow) =>
    match batch.columns[col]? with
    | none => true
    | some column => column.cells[localRow]?.join.isNone

/-- The batch that a row index falls into lies behind all rows before it. -/
structure Locates (batches : List (RecordBatch schema)) (row : Nat) (batch : RecordBatch schema) (localRow : Nat) : Prop where
  split : ∃ before after, batches = before ++ batch :: after ∧ row = rowCount before + localRow
  inside : localRow < batch.numRows

theorem resolveRowFrom_none {row : Nat} {batches : List (RecordBatch schema)} : ∀ {offset : Nat}, offset ≤ row →
    (resolveRowFrom row offset batches = none ↔ offset + rowCount batches ≤ row) := by
  induction batches with
  | nil =>
    intro offset hle
    simpa [resolveRowFrom, rowCount] using hle
  | cons batch batches ih =>
    intro offset hle
    have hcount : rowCount (batch :: batches) = batch.numRows + rowCount batches := by simp [rowCount]
    rw [resolveRowFrom, hcount, ← Nat.add_assoc]
    by_cases hrow : row < offset + batch.numRows
    · simp only [if_pos hrow, reduceCtorEq, false_iff]
      omega
    · simp only [if_neg hrow]
      exact ih (by omega)

theorem resolveRowFrom_some {row : Nat} {batches : List (RecordBatch schema)} {batch : RecordBatch schema} {localRow : Nat} :
    ∀ {offset : Nat}, offset ≤ row → resolveRowFrom row offset batches = some (batch, localRow) →
      Locates batches (row - offset) batch localRow := by
  induction batches with
  | nil =>
    intro offset _ h
    cases h
  | cons first batches ih =>
    intro offset hle h
    rw [resolveRowFrom] at h
    by_cases hrow : row < offset + first.numRows
    · simp only [if_pos hrow] at h
      cases h
      exact ⟨⟨[], batches, rfl, by simp [rowCount]⟩, by omega⟩
    · simp only [if_neg hrow] at h
      obtain ⟨⟨before, after, rfl, heq⟩, hinside⟩ := ih (by omega) h
      refine ⟨⟨first :: before, after, rfl, ?_⟩, hinside⟩
      have hcount : rowCount (first :: before) = first.numRows + rowCount before := by simp [rowCount]
      omega

theorem Locates.row {α : Type} (v : RowView schema α) {batches : List (RecordBatch schema)} {row localRow : Nat}
    {batch : RecordBatch schema} (h : Locates batches row batch localRow) : (v.all batches)[row]? = (v.rows batch)[localRow]? := by
  obtain ⟨⟨before, after, rfl, rfl⟩, hinside⟩ := h
  rw [v.all_append, v.all_cons, List.getElem?_append_right (by rw [v.length_all]; omega), v.length_all, Nat.add_sub_cancel_left,
    List.getElem?_append_left (by rw [v.length_rows]; exact hinside)]

/-- A null is read where the row, the column or the value is missing, and nowhere else. -/
theorem potatoResultIsNull_iff (batches : List (RecordBatch schema)) (row col : Nat) :
    potatoResultIsNull batches row col = true ↔
      ∀ values, (concatRows batches)[row]? = some values → values[col]?.join = none := by
  have hlength : (concatRows batches).length = rowCount batches := cellView.length_all batches
  unfold potatoResultIsNull
  cases hresolve : resolveRow batches row with
  | none =>
    have hpast := (resolveRowFrom_none (Nat.zero_le row)).mp hresolve
    rw [List.getElem?_eq_none (by omega)]
    simp
  | some found =>
    obtain ⟨batch, localRow⟩ := found
    have hlocates : Locates batches row batch localRow := resolveRowFrom_some (Nat.zero_le row) hresolve
    have hrow : (concatRows batches)[row]? = batch.cellRows[localRow]? := hlocates.row cellView
    have hcells : batch.cellRows[localRow]? = some (batch.columns.map fun column => column.cells[localRow]?.join) := by
      simp [RecordBatch.cellRows, hlocates.inside]
    rw [hrow, hcells]
    cases hcolumn : batch.columns[col]? with
    | none => simp [hcolumn]
    | some column => simp [hcolumn]

/-- A slice of the batches is the slice of their rows behind each other, and an index is resolved to the row there that has
it, unless it is past the end. -/
theorem batch_rows (batches : List (RecordBatch schema)) :
    (∀ offset length, concatRows (sliceBatches batches offset length) = ((concatRows batches).drop offset).take length) ∧
      ∀ row, (resolveRow batches row = none ↔ (concatRows batches).length ≤ row) ∧
        ∀ batch localRow, resolveRow batches row = some (batch, localRow) →
          Locates batches row batch localRow ∧ batch.cellRows[localRow]? = (concatRows batches)[row]? := by
  have hlength : (concatRows batches).length = rowCount batches := cellView.length_all batches
  refine ⟨cellView.all_sliceBatches batches, fun row => ⟨?_, ?_⟩⟩
  · have hnone : resolveRow batches row = none ↔ 0 + rowCount batches ≤ row := resolveRowFrom_none (Nat.zero_le row)
    rw [hnone, hlength, Nat.zero_add]
  · intro batch localRow hresolve
    have hlocates : Locates batches row batch localRow := resolveRowFrom_some (Nat.zero_le row) hresolve
    exact ⟨hlocates, (hlocates.row cellView).symm⟩

end Ffi

end PotatoDB
