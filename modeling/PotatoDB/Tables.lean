import Mathlib

/-!
# Values, rows and batches

Arrow arrays are lists of values; a NULL of a typed array and an element of an untyped NULL
array differ, as they do for `array_value_to_sql_literal`.
-/

namespace PotatoDB

/-- A map with text keys; insertion order stands for the order of iteration. -/
abbrev Map (α : Type) := AList fun _ : String => α

instance Map.decidableEq {α : Type} [DecidableEq α] : DecidableEq (Map α) := fun m m' =>
  decidable_of_iff (m.entries = m'.entries) AList.ext_iff.symm

def Map.values {α : Type} (m : Map α) : List α := m.entries.map Sigma.snd

def Map.pairs {α : Type} (m : Map α) : List (String × α) := m.entries.map fun p => (p.1, p.2)

def Map.retain {α : Type} (m : Map α) (keep : String → α → Bool) : Map α :=
  ⟨m.entries.filter fun p => keep p.1 p.2, m.nodupKeys.sublist List.filter_sublist⟩

def Map.mapValues {α β : Type} (m : Map α) (f : String → α → β) : Map β :=
  ⟨m.entries.map fun p => ⟨p.1, f p.1 p.2⟩, by
    have h : (m.entries.map fun p => (⟨p.1, f p.1 p.2⟩ : Sigma fun _ : String => β)).keys = m.entries.keys := by
      simp [List.keys]
    rw [List.NodupKeys, h]
    exact m.nodupKeys⟩

/-- Changes the value under a key, if there is one. -/
def Map.modify {α : Type} (m : Map α) (k : String) (f : α → α) : Map α :=
  m.mapValues fun k' a => if k' = k then f a else a

theorem Map.lookup_mapValues {α β : Type} (m : Map α) (f : String → α → β) (k : String) :
    (m.mapValues f).lookup k = (m.lookup k).map (f k) := by
  obtain ⟨es, hn⟩ := m
  show (es.map fun p => (⟨p.1, f p.1 p.2⟩ : Sigma fun _ : String => β)).dlookup k = (es.dlookup k).map (f k)
  clear hn
  induction es with
  | nil => rfl
  | cons e es ih =>
    obtain ⟨k', a⟩ := e
    by_cases hk : k = k'
    · subst hk
      simp
    · rw [List.map_cons, List.dlookup_cons_ne _ _ hk, List.dlookup_cons_ne _ _ hk, ih]

theorem Map.lookup_retain {α : Type} {m : Map α} {keep : String → α → Bool} {k : String} {a : α}
    (h : (m.retain keep).lookup k = some a) : m.lookup k = some a ∧ keep k a = true := by
  have hmem := AList.mem_lookup_iff.mp h
  obtain ⟨hin, hkeep⟩ := List.mem_filter.mp hmem
  exact ⟨AList.mem_lookup_iff.mpr hin, hkeep⟩

theorem Map.mem_pairs {α : Type} {m : Map α} {k : String} {a : α} : (k, a) ∈ m.pairs ↔ m.lookup k = some a := by
  rw [← Option.mem_def, AList.mem_lookup_iff, Map.pairs]
  constructor
  · intro h
    obtain ⟨⟨k', a'⟩, he, heq⟩ := List.mem_map.mp h
    cases heq
    exact he
  · intro h
    exact List.mem_map.mpr ⟨⟨k, a⟩, h, rfl⟩

theorem Map.mem_values {α : Type} {m : Map α} {a : α} (h : a ∈ m.values) : ∃ k, m.lookup k = some a := by
  obtain ⟨⟨k, a'⟩, he, rfl⟩ := List.mem_map.mp h
  exact ⟨k, AList.mem_lookup_iff.mpr he⟩

theorem Map.values_mem {α : Type} {m : Map α} {k : String} {a : α} (h : m.lookup k = some a) : a ∈ m.values :=
  List.mem_map.mpr ⟨⟨k, a⟩, AList.mem_lookup_iff.mp h, rfl⟩

theorem Map.values_map_keys {α : Type} {m : Map α} {key : α → String} (h : ∀ k a, m.lookup k = some a → key a = k) :
    m.values.map key = m.keys := by
  unfold Map.values AList.keys List.keys
  rw [List.map_map]
  refine List.map_congr_left fun p hp => ?_
  exact h p.1 p.2 (AList.mem_lookup_iff.mpr hp)

theorem Map.pairs_keys {α : Type} (m : Map α) : m.pairs.map (·.1) = m.keys := by
  simp [Map.pairs, AList.keys, List.keys, Function.comp_def]

theorem Map.mem_iff_lookup {α : Type} {m : Map α} {k : String} : k ∈ m ↔ ∃ a, m.lookup k = some a := by
  rw [← AList.lookup_isSome, Option.isSome_iff_exists]

theorem Map.mapValues_mapValues {α β γ : Type} (m : Map α) (f : String → α → β) (g : String → β → γ) :
    (m.mapValues f).mapValues g = m.mapValues fun k a => g k (f k a) := by
  apply AList.ext
  simp [Map.mapValues]

/-! ## Values -/

def quoteChar : Char := Char.ofNat 39

def unitSeparator : Char := Char.ofNat 31

/-- Text that needs no quoting, such as the digits of a number. -/
structure PlainText where
  text : String
  plain : text ≠ "NULL" ∧ ∀ c ∈ text.toList, c ≠ quoteChar ∧ c ≠ unitSeparator
deriving DecidableEq

inductive Value where
  /-- NULL in a typed array. -/
  | null
  /-- An element of an untyped NULL array. -/
  | nullArray
  /-- An integer or a float, by its decimal text. -/
  | number (digits : PlainText)
  | bool (b : Bool)
  | text (s : String)
  /-- A `FixedSizeBinary(16)` value, by its hyphenated hexadecimal digits. -/
  | uuid (hex : PlainText)
  /-- A value of any other Arrow type. -/
  | other (dataType bits : String)
deriving DecidableEq

abbrev Row := List Value

/-- SQL NULL. -/
def Value.isNull : Value → Bool
  | null | nullArray => true
  | _ => false

/-- `s.replace('\'', "''")` between quotes. -/
def sqlQuote (s : String) : String :=
  String.ofList (quoteChar ::
    ((s.toList.flatMap fun c => if c = quoteChar then [c, c] else [c]) ++ [quoteChar]))

/-- `debug` is Arrow's debug text of a one-element array. -/
def arrayValueToSqlLiteral (debug : Value → String) : Value → String
  | .null => "NULL"
  | .number digits => digits.text
  | .bool b => if b then "TRUE" else "FALSE"
  | .text s => sqlQuote s
  | .uuid hex => String.ofList (quoteChar :: (hex.text.toList ++ [quoteChar]))
  | v => sqlQuote (debug v)

/-- `join("\x1f")`. -/
def joinUnits : List String → String
  | [] => ""
  | [s] => s
  | s :: ss => s ++ String.singleton unitSeparator ++ joinUnits ss

/-! ## Replaced texts -/

/-- `str::replace`, for a text that is not empty; the first argument counts the characters left to skip. -/
def replaceFrom (needle new : List Char) : Nat → List Char → List Char
  | _, [] => []
  | skip + 1, _ :: cs => replaceFrom needle new skip cs
  | 0, c :: cs =>
    if needle.isPrefixOf (c :: cs) then new ++ replaceFrom needle new (needle.length - 1) cs
    else c :: replaceFrom needle new 0 cs

def replaceText (s needle new : String) : String := String.ofList (replaceFrom needle.toList new.toList 0 s.toList)

/-! ## Batches -/

structure Field where
  name : String
  dataType : String
  nullable : Bool
deriving DecidableEq

abbrev Schema := List Field

structure RecordBatch where
  schema : Schema
  rows : List Row
deriving DecidableEq

def RecordBatch.numRows (b : RecordBatch) : Nat := b.rows.length

def RecordBatch.column (b : RecordBatch) (i row : Nat) : Value :=
  ((b.rows[row]?).bind (·[i]?)).getD .null

def totalRows (batches : List RecordBatch) : Nat := (batches.map (·.numRows)).sum

def allRows (batches : List RecordBatch) : List Row := batches.flatMap (·.rows)

/-- What a query returns: its columns and its rows. -/
structure Relation where
  schema : Schema
  rows : List Row
deriving DecidableEq

/-- `DataFrame::collect`: one batch, or none when there are no rows. -/
def Relation.collect (r : Relation) : List RecordBatch :=
  if r.rows.isEmpty then [] else [⟨r.schema, r.rows⟩]

/-- The value a row has under a column name, NULL where it has none. -/
def namedValue (names : List String) (row : Row) (name : String) : Value :=
  ((names.zip row).lookup name).getD .null

/-! ## Files -/

/-- The segments of a directory below the data directory. -/
abbrev Dir := List String

def splitSegments : List Char → List Char → List (List Char)
  | acc, [] => [acc.reverse]
  | acc, c :: cs => if c = '/' then acc.reverse :: splitSegments [] cs else splitSegments (c :: acc) cs

/-- The components of a path in the file system. -/
def fsPath (s : String) : Dir := ((splitSegments [] s.toList).filter (· ≠ [])).map String.ofList

def hexDigit (n : Nat) : Char := Char.ofNat (if n < 10 then 48 + n else 55 + n)

def percentByte (b : UInt8) : List Char := ['%', hexDigit (b.toNat / 16), hexDigit (b.toNat % 16)]

/-- The characters that a segment of an object path does not have. -/
def isInvalidInPath (c : Char) : Bool :=
  c.toNat < 32 || 127 ≤ c.toNat || "/\\\x7b^\x7d%`]\">[~<#|*?".toList.contains c

/-- `PathPart::from`. -/
def encodeSegment (seg : String) : String :=
  if seg = "." then "%2E"
  else if seg = ".." then "%2E%2E"
  else String.ofList (seg.toList.flatMap fun c =>
    if isInvalidInPath c then (String.utf8EncodeChar c).flatMap percentByte else [c])

/-- `object_store::path::Path::from`: the nonempty segments, percent-encoded. A listing table, too, is taken to read
the directory of the encoded path. -/
def objPath (s : String) : Dir := (fsPath s).map encodeSegment

structure ObjPath where
  dir : Dir
  file : Nat
deriving DecidableEq

structure ParquetFile where
  columns : List String
  rows : List Row
  modified : Nat
deriving DecidableEq

abbrev Store := List (ObjPath × ParquetFile)

/-- The files at or below a directory, as `ObjectStore::list` gives them. -/
def Store.list (s : Store) (dir : Dir) : Store := s.filter fun e => dir.isPrefixOf e.1.dir

def Store.delete (s : Store) (path : ObjPath) : Store := s.filter fun e => e.1 ≠ path

def Store.removeDir (s : Store) (dir : Dir) : Store := s.filter fun e => !dir.isPrefixOf e.1.dir

/-- A listing table reads the columns of its schema by name. -/
def ParquetFile.read (f : ParquetFile) (columns : List String) : List Row :=
  f.rows.map fun row => columns.map (namedValue f.columns row)

def Store.read (s : Store) (dir : Dir) (columns : List String) : List Row :=
  (s.list dir).flatMap fun e => e.2.read columns

theorem Store.read_append (s s' : Store) (dir : Dir) (columns : List String) :
    Store.read (s ++ s') dir columns = s.read dir columns ++ Store.read s' dir columns := by
  unfold Store.read Store.list
  rw [List.filter_append, List.flatMap_append]

end PotatoDB
