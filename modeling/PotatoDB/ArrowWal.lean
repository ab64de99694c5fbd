import PotatoDB.Tables

/-!
# The Arrow log

One directory a table, one numbered segment an append. Recovery reads the segments of each
directory in the order of their names.
-/

namespace PotatoDB

/-! ## Segment names -/

/-- `format!("{:06}.arrow", seq)`. -/
def segmentName (seq : Nat) : String :=
  let digits := Nat.toDigits 10 seq
  String.ofList (List.replicate (6 - digits.length) '0' ++ digits ++ ".arrow".toList)

/-- `Path::file_stem` and `Path::extension`: a name is split at its last dot, unless that is its first letter. -/
def splitExtension (name : List Char) : List Char × Option (List Char) :=
  match name.reverse.span (· ≠ '.') with
  | (_, []) | (_, [_]) => (name, none)
  | (extension, _ :: stem) => (stem.reverse, some extension.reverse)

/-- `str::parse::<u64>`. -/
def parseU64 (text : List Char) : Option Nat :=
  let digits := if text.head? = some '+' then text.tail else text
  if digits ≠ [] ∧ digits.all (·.isDigit) then
    let n := Nat.ofDigitChars 10 digits 0
    if n < 2 ^ 64 then some n else none
  else none

/-! ## The log -/

/-- The segments of a table's directory, by file name. -/
abbrev SegmentDir := Map (List RecordBatch)

structure ArrowWal where
  dirs : Map SegmentDir
  seq : Nat
  knownDirs : List String

namespace ArrowWal

/-- `max_existing_seq`. -/
def maxExistingSeq (dirs : Map SegmentDir) : Option Nat :=
  (dirs.values.flatMap fun dir => dir.keys.filterMap fun name => parseU64 (splitExtension name.toList).1).max?

/-- `ArrowWal::open` on the directories a process left. -/
def openDirs (dirs : Map SegmentDir) : ArrowWal := ⟨dirs, (maxExistingSeq dirs).getD 0, []⟩

/-- `create_dir_all`. -/
def createDir (dirs : Map SegmentDir) (table : String) : Map SegmentDir :=
  if table ∈ dirs then dirs else dirs.insert table ∅

/-- The counter is a `u64`, which wraps in a release build; `File::create` needs the directory. -/
def append (w : ArrowWal) (table : String) (batches : List RecordBatch) : Except String ArrowWal :=
  if batches = [] then .ok w
  else
    let dirs := if table ∈ w.knownDirs then w.dirs else createDir w.dirs table
    let seq := (w.seq + 1) % 2 ^ 64
    match dirs.lookup table with
    | none => .error "No such file or directory"
    | some dir => .ok ⟨dirs.insert table (dir.insert (segmentName seq) batches), seq, table :: w.knownDirs⟩

def checkpointTable (w : ArrowWal) (table : String) : ArrowWal :=
  { w with dirs := w.dirs.erase table, knownDirs := w.knownDirs.filter (· ≠ table) }

def checkpointAll (w : ArrowWal) : ArrowWal := { w with dirs := ∅, knownDirs := [] }

end ArrowWal

/-- The segments of a directory in the order of their names. -/
def SegmentDir.sorted (dir : SegmentDir) : List (String × List RecordBatch) :=
  (dir.pairs.filter fun f => (splitExtension f.1.toList).2 = some "arrow".toList).insertionSort (·.1 ≤ ·.1)

/-- `ArrowWal::recover`. -/
def ArrowWal.recover (w : ArrowWal) : Map (List RecordBatch) :=
  w.dirs.mapValues fun _ dir => dir.sorted.flatMap (·.2)

/-! ## Runs -/

inductive ArrowOp where
  | append (table : String) (batches : List RecordBatch)
  | checkpointTable (table : String)
  | checkpointAll
  | reopen
deriving DecidableEq

def ArrowWal.step (w : ArrowWal) : ArrowOp → Except String ArrowWal
  | .append table batches => w.append table batches
  | .checkpointTable table => .ok (w.checkpointTable table)
  | .checkpointAll => .ok w.checkpointAll
  | .reopen => .ok (.openDirs w.dirs)

def ArrowWal.run (w : ArrowWal) : List ArrowOp → Except String ArrowWal
  | [] => .ok w
  | op :: ops => do (← w.step op).run ops

/-- A log in a directory that did not exist. -/
def ArrowWal.fresh : ArrowWal := .openDirs ∅

/-- What the log is for: the batches of each table since its last checkpoint. -/
def ArrowOp.record (log : Map (List RecordBatch)) : ArrowOp → Map (List RecordBatch)
  | .append table batches =>
    if batches = [] then log else log.insert table ((log.lookup table).getD [] ++ batches)
  | .checkpointTable table => log.erase table
  | .checkpointAll => ∅
  | .reopen => log

end PotatoDB
