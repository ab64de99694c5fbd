import PotatoDB.CatalogFileSound

/-!
# Sequences

`CREATE SEQUENCE`, and the expansion of the `nextval` calls of a text, which happens once, when
the text passes through `execute`.
-/

namespace PotatoDB

open Oplog
open Oplog.Prog (get emit attempt each)

/-! ## Definitions -/

/-- The options of `CREATE SEQUENCE` that are read. -/
inductive SequenceOption where
  | startWith (n : Int64)
  | incrementBy (n : Int64)
  | minValue (n : Int64)
  | maxValue (n : Int64)

def SequenceOption.set (d : SequenceDef) : SequenceOption → SequenceDef
  | startWith n => { d with currentValue := n.toInt }
  | incrementBy n => { d with increment := n.toInt }
  | minValue n => { d with minValue := some n.toInt }
  | maxValue n => { d with maxValue := some n.toInt }

/-- The definition that `handle_create_sequence` adds. -/
def sequenceDef (name : String) (options : List SequenceOption) : SequenceDef :=
  options.foldl SequenceOption.set ⟨name, 1, 1, none, none⟩

/-! ## `expand_nextval_calls` -/

/-- What stands before and after the first occurrence of a text, in either case. -/
def splitAtText (text : List Char) : List Char → Option (List Char × List Char)
  | [] => none
  | c :: cs =>
    if text.isPrefixOf ((c :: cs).map Char.toLower) then some ([], (c :: cs).drop text.length)
    else (splitAtText text cs).map fun parts => (c :: parts.1, parts.2)

def nextSequenceValue (name : String) : Prog History CatalogCall String Int := do
  let h ← get
  emit (.mutate (.nextSequenceValue name))
  match h.file.data.nextSequenceValue name with
  | .ok (value, _) => return value
  | .error e => throw e

/-- `out` is the text before `rest`, where the search goes on. -/
def expandNextvalFrom : Nat → List Char → List Char → Prog History CatalogCall String (List Char)
  | 0, out, rest => return out ++ rest
  | fuel + 1, out, rest =>
    match splitAtText "nextval('".toList rest with
    | none => return out ++ rest
    | some (before, call) =>
      match splitAtText "')".toList call with
      | none => return out ++ rest
      | some (name, tail) => do
        let value ← nextSequenceValue (String.ofList name)
        expandNextvalFrom fuel (out ++ before ++ (toString value).toList) tail

def expandNextvalCalls (sql : List Char) : Prog History CatalogCall String (List Char) :=
  expandNextvalFrom sql.length [] sql

theorem length_splitAtText {text : List Char} : ∀ {cs before tail : List Char},
    splitAtText text cs = some (before, tail) → tail.length ≤ cs.length
  | [], _, _, h => nomatch h
  | c :: cs, _, _, h => by
    rw [splitAtText] at h
    split at h
    · cases h
      rw [List.length_drop]
      omega
    · obtain ⟨⟨before', tail'⟩, hs, heq⟩ := Option.map_eq_some_iff.mp h
      cases heq
      exact Nat.le_succ_of_le (length_splitAtText hs)

theorem length_splitAtText_lt {text cs before tail : List Char} (ht : text ≠ [])
    (h : splitAtText text cs = some (before, tail)) : tail.length < cs.length := by
  cases cs with
  | nil => nomatch h
  | cons c cs =>
    rw [splitAtText] at h
    split at h
    · cases h
      have := List.length_pos_iff.mpr ht
      rw [List.length_drop, List.length_cons]
      omega
    · obtain ⟨⟨before', tail'⟩, hs, heq⟩ := Option.map_eq_some_iff.mp h
      cases heq
      exact Nat.lt_succ_of_le (length_splitAtText hs)

/-- The length of the text is enough fuel: the search goes on in a shorter one. -/
theorem expandNextvalFrom_fuel : ∀ (n m : Nat) (out rest : List Char), rest.length ≤ n → rest.length ≤ m →
    expandNextvalFrom n out rest = expandNextvalFrom m out rest
  | 0, 0, _, _, _, _ => rfl
  | 0, m + 1, out, rest, hn, _ => by
    obtain rfl := List.length_eq_zero_iff.mp (Nat.le_zero.mp hn)
    rfl
  | n + 1, 0, out, rest, _, hm => by
    obtain rfl := List.length_eq_zero_iff.mp (Nat.le_zero.mp hm)
    rfl
  | n + 1, m + 1, out, rest, hn, hm => by
    rw [expandNextvalFrom, expandNextvalFrom]
    rcases hs : splitAtText "nextval('".toList rest with _ | ⟨before, call⟩
    · rfl
    · dsimp only
      rcases hc : splitAtText "')".toList call with _ | ⟨name, tail⟩
      · rfl
      · dsimp only
        have h₁ := length_splitAtText_lt (by decide) hs
        have h₂ := length_splitAtText_lt (by decide) hc
        congr 1
        funext value
        exact expandNextvalFrom_fuel n m _ tail (by omega) (by omega)

/-! ## Runs -/

/-- A text that passes through `execute`, or a call to the catalog that something else makes. -/
inductive Passage where
  | text (sql : List Char)
  | call (call : CatalogCall)

def passages : List Passage → Prog History CatalogCall String Unit :=
  each fun
    | .text sql => do
      let _ ← attempt (expandNextvalCalls sql)
    | .call call => emit call

/-- The answers to the uses of a sequence. -/
def sequenceUses (name : String) : History → List CatalogCall → List (Except String Int)
  | _, [] => []
  | h, call :: calls =>
    let rest := sequenceUses name (call.apply h) calls
    match call with
    | .mutate (.nextSequenceValue n) =>
      if n = name then (h.file.data.nextSequenceValue name).map (·.1) :: rest else rest
    | _ => rest

end PotatoDB
