import PotatoDB.Slices

/-!
# Result tables

Query results are shown in a frame of box-drawing characters, the first and the last rows only when there are many. Widths
are counted in bytes.
-/

namespace PotatoDB.Display

open Slices (bytes)

/-- Arrow types by the name that a table shows for them, the others with the text of their `Display`. -/
inductive DataType where
  | boolean
  | int8
  | int16
  | int32
  | int64
  | uint8
  | uint16
  | uint32
  | uint64
  | float16
  | float32
  | float64
  | utf8
  | largeUtf8
  | binary
  | largeBinary
  | date32
  | date64
  | time32
  | time64
  | timestamp
  | decimal128
  | decimal256
  | null
  | other (text : List Char)

structure Field where
  name : List Char
  dataType : DataType

/-- An array: the texts of its values, none for a null, and whether Arrow has a formatter for them. -/
structure Column where
  formatted : Bool
  cells : List (Option (List Char))

structure RecordBatch (schema : List Field) where
  numRows : Nat
  columns : List Column
  columns_length : columns.length = schema.length
  cells_length : ∀ column ∈ columns, column.cells.length = numRows

/-- Numbers of type `f64` as texts: `format!("{:.p}", n as f64 / d)` for a precision `p`. -/
structure FloatFormat where
  ratio : Nat → Nat → Nat → List Char
  ratio_chars : ∀ n d p, ∀ c ∈ ratio n d p, c.isDigit = true ∨ c = '.'

def maxDisplayRows : Nat := 40

namespace RecordBatch

variable {schema : List Field}

def slice (b : RecordBatch schema) (skip take : Nat) : RecordBatch schema where
  numRows := min take (b.numRows - skip)
  columns := b.columns.map fun column => { column with cells := (column.cells.drop skip).take take }
  columns_length := by rw [List.length_map, b.columns_length]
  cells_length := by
    intro column hcolumn
    obtain ⟨whole, hwhole, rfl⟩ := List.mem_map.mp hcolumn
    rw [List.length_take, List.length_drop, b.cells_length whole hwhole]

end RecordBatch

def sliceBatchesFrom {schema : List Field} (offset seen remaining : Nat) : List (RecordBatch schema) → List (RecordBatch schema)
  | [] => []
  | batch :: batches =>
    let n := batch.numRows
    if seen + n ≤ offset then sliceBatchesFrom offset (seen + n) remaining batches
    else
      let skip := offset - seen
      let take := min remaining (n - skip)
      let rest := if remaining - take = 0 then [] else sliceBatchesFrom offset (seen + n) (remaining - take) batches
      if 0 < take then batch.slice skip take :: rest else rest

def sliceBatches {schema : List Field} (batches : List (RecordBatch schema)) (offset length : Nat) : List (RecordBatch schema) :=
  sliceBatchesFrom offset 0 length batches

def rowCount {schema : List Field} (batches : List (RecordBatch schema)) : Nat := (batches.map RecordBatch.numRows).sum

def columnToStrings (column : Column) : List (List Char) :=
  column.cells.map fun
    | none => "NULL".toList
    | some text => if column.formatted then text else "?".toList

def friendlyType : DataType → List Char
  | .boolean => "boolean".toList
  | .int8 => "int8".toList
  | .int16 => "int16".toList
  | .int32 => "int32".toList
  | .int64 => "int64".toList
  | .uint8 => "uint8".toList
  | .uint16 => "uint16".toList
  | .uint32 => "uint32".toList
  | .uint64 => "uint64".toList
  | .float16 => "float16".toList
  | .float32 => "float".toList
  | .float64 => "double".toList
  | .utf8 | .largeUtf8 => "varchar".toList
  | .binary | .largeBinary => "blob".toList
  | .date32 | .date64 => "date".toList
  | .time32 | .time64 => "time".toList
  | .timestamp => "timestamp".toList
  | .decimal128 | .decimal256 => "decimal".toList
  | .null => "null".toList
  | .other text => text

def friendlyRowCount (f : FloatFormat) (n : Nat) : List Char :=
  if 1000000 ≤ n then f.ratio n 1000000 2 ++ " million".toList
  else if 1000 ≤ n then f.ratio n 1000 1 ++ ['K']
  else Nat.toDigits 10 n

/-- It fails on no columns, where the subtraction goes below zero. -/
def innerWidth (widths : List Nat) : Option Nat :=
  if 1 ≤ widths.sum + 3 * widths.length then some (widths.sum + 3 * widths.length - 1) else none

def footerLeft (f : FloatFormat) (total half : Nat) : List Char :=
  Nat.toDigits 10 total ++ " rows (".toList ++ friendlyRowCount f total ++ ", ".toList ++ Nat.toDigits 10 (half * 2) ++ " shown)".toList

def footerRight (numCols : Nat) : List Char := Nat.toDigits 10 numCols ++ " column(s)".toList

def footerTextLen (f : FloatFormat) (total half numCols : Nat) : Nat :=
  bytes (footerLeft f total half) + bytes (footerRight numCols)

/-! ## Lines -/

def pushBorder (widths : List Nat) (left mid right : Char) : List Char :=
  left :: ([mid].intercalate (widths.map fun w => List.replicate (w + 2) '─') ++ [right, '\n'])

def pushCell (w : Nat) (val : List Char) : List Char := ' ' :: (val ++ List.replicate (w - bytes val) ' ' ++ [' ', '│'])

/-- The cells of a row, empty behind the last value. -/
def pushCells : List Nat → List (List Char) → List Char
  | [], _ => []
  | w :: widths, [] => pushCell w [] ++ pushCells widths []
  | w :: widths, val :: values => pushCell w val ++ pushCells widths values

def pushRow (widths : List Nat) (values : List (List Char)) : List Char := '│' :: (pushCells widths values ++ ['\n'])

def pushDotRow (widths : List Nat) : List Char :=
  '│' :: (widths.flatMap (fun w => ' ' :: '·' :: (List.replicate (w - 1) ' ' ++ [' ', '│'])) ++ ['\n'])

def pushFooterContent (widths : List Nat) (left right : List Char) : Option (List Char) := do
  let total ← innerWidth widths
  let padding := total - (2 + bytes left + bytes right)
  some ('│' :: ' ' :: (left ++ List.replicate padding ' ' ++ right ++ [' ', '│', '\n']))

def pushFullBorder (widths : List Nat) (left right : Char) : Option (List Char) := do
  let total ← innerWidth widths
  some (left :: (List.replicate total '─' ++ [right, '\n']))

/-! ## The table -/

/-- The columns as texts, the batches behind each other. -/
def columnTexts {schema : List Field} (batches : List (RecordBatch schema)) : List (List (List Char)) :=
  batches.foldl (fun columns batch => List.zipWith (fun col column => col ++ columnToStrings column) columns batch.columns)
    (List.replicate schema.length [])

def columnWidths : List Field → List (List (List Char)) → List Nat
  | field :: schema, column :: columns =>
    max (max (max (bytes field.name) (bytes (friendlyType field.dataType))) ((column.map bytes).foldl max 0)) 1 ::
      columnWidths schema columns
  | _, _ => []

/-- Wide enough for the footer of a truncated table. -/
def widened (f : FloatFormat) (truncated : Bool) (total half numCols : Nat) (widths : List Nat) : Option (List Nat) :=
  if truncated then do
    let footerLen := footerTextLen f total half numCols
    let curInner ← innerWidth widths
    if curInner < footerLen + 2 then some (widths.modify (widths.length - 1) fun last => last + (footerLen + 2 - curInner))
    else some widths
  else some widths

def dataRow (truncated : Bool) (half : Nat) (widths : List Nat) (columns : List (List (List Char))) (row : Nat) :
    Option (List Char) := do
  let items ← columns.mapM fun col => col[row]?
  some ((if truncated && row == half then (List.replicate 3 (pushDotRow widths)).flatten else []) ++ pushRow widths items)

def footer (f : FloatFormat) (truncated : Bool) (total half numCols : Nat) (widths : List Nat) : Option (List Char) :=
  if truncated then do
    let content ← pushFooterContent widths (footerLeft f total half) (footerRight numCols)
    let last ← pushFullBorder widths '└' '┘'
    some (pushBorder widths '├' '┴' '┤' ++ content ++ last)
  else some (pushBorder widths '└' '┴' '┘')

def formatBatchesTruncated (f : FloatFormat) {schema : List Field} (batches : List (RecordBatch schema)) : Option (List Char) :=
  if batches = [] ∨ batches.all (fun b => b.numRows == 0) then some "(0 rows)".toList
  else do
    let total := rowCount batches
    let numCols := schema.length
    let truncated := decide (maxDisplayRows < total)
    let half := maxDisplayRows / 2
    let display := if truncated then sliceBatches batches 0 half ++ sliceBatches batches (total - half) half else batches
    let columns := columnTexts display
    let widths := columnWidths schema columns
    let widths ← widened f truncated total half numCols widths
    let displayed := (← columns[0]?).length
    let rows ← (List.range displayed).mapM (dataRow truncated half widths columns)
    let foot ← footer f truncated total half numCols widths
    let out := pushBorder widths '┌' '┬' '┐' ++ pushRow widths (schema.map Field.name) ++
      pushRow widths (schema.map fun field => friendlyType field.dataType) ++ pushBorder widths '├' '┼' '┤' ++ rows.flatten ++ foot
    some (if out.getLast? = some '\n' then out.dropLast else out)

end PotatoDB.Display
