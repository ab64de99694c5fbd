import PotatoDB.Sorting
import PotatoDB.TextParsersSound

/-!
# The order in which functions are expanded

Functions are expanded by the lengths of their names, and functions with names of one length in the
order of the map. That order shows where two of them do not commute.
-/

namespace PotatoDB.Texts

open Oplog
open Slices (bytes find sliceFrom sliceTo slice)

/-- The longest names first. -/
def longestFirst (f g : UdfDef) : Bool := bytes g.name.toList ≤ bytes f.name.toList

namespace Session

/-- The text, or its failure, with the functions in this order in their map. -/
def expanded (s : Session) (defs : List UdfDef) (sql : List Char) : Except Failure (List Char) :=
  (expandUserDefinedFunctions { s with udfs := defs } sql).result ()

def expandedOnce (s : Session) (sql : List Char) (udf : UdfDef) : Except Failure (List Char) :=
  (expandSingleUdfCall s sql udf).result ()

/-- Every order of the functions in their map gives the same text, or the same failure. -/
def OrderFree (s : Session) (defs : List UdfDef) : Prop :=
  ∀ sql defs', defs'.Perm defs → s.expanded defs' sql = s.expanded defs sql

/-- The functions expand every text alike in both orders. -/
def Commute (s : Session) (f g : UdfDef) : Prop := ∀ sql,
  (s.expandedOnce sql f >>= fun t => s.expandedOnce t g) = (s.expandedOnce sql g >>= fun t => s.expandedOnce t f)

end Session

/-! ## One function after the other -/

theorem longestFirst_trans (f g h : UdfDef) (hfg : longestFirst f g = true) (hgh : longestFirst g h = true) :
    longestFirst f h = true := by
  unfold longestFirst at *
  simp only [decide_eq_true_eq] at *
  omega

theorem longestFirst_total (f g : UdfDef) : (longestFirst f g || longestFirst g f) = true := by
  unfold longestFirst
  simp only [Bool.or_eq_true, decide_eq_true_eq]
  omega

theorem longestFirst_both {f g : UdfDef} : longestFirst f g = true ∧ longestFirst g f = true ↔
    bytes f.name.toList = bytes g.name.toList := by
  unfold longestFirst
  simp only [decide_eq_true_eq]
  omega

section
variable (s : Session)

theorem result_foldlM (defs : List UdfDef) (sql : List Char) :
    (defs.foldlM (expandSingleUdfCall s) sql).result () = defs.foldlM s.expandedOnce sql := by
  induction defs generalizing sql with
  | nil => rfl
  | cons udf defs ih =>
    rw [List.foldlM_cons, List.foldlM_cons, Prog.result_bind]
    show _ = (expandSingleUdfCall s sql udf).result () >>= _
    cases (expandSingleUdfCall s sql udf).result () with
    | error e => rfl
    | ok t => exact ih t

theorem expanded_eq (defs : List UdfDef) (sql : List Char) :
    s.expanded defs sql = (defs.mergeSort longestFirst).foldlM s.expandedOnce sql := result_foldlM s _ sql

theorem orderFree_of_commute {defs : List UdfDef}
    (h : ∀ f ∈ defs, ∀ g ∈ defs, bytes f.name.toList = bytes g.name.toList → s.Commute f g) : s.OrderFree defs := by
  intro sql defs' hperm
  rw [expanded_eq, expanded_eq]
  refine Sorting.foldlM_sorted (List.pairwise_mergeSort longestFirst_trans longestFirst_total defs')
    (List.pairwise_mergeSort longestFirst_trans longestFirst_total defs)
    ((List.mergeSort_perm _ _).trans (hperm.trans (List.mergeSort_perm _ _).symm)) ?_ sql
  intro f hf g hg hfg hgf
  have hin : ∀ u ∈ defs'.mergeSort longestFirst, u ∈ defs := fun u hu => hperm.mem_iff.mp (List.mem_mergeSort.mp hu)
  exact h f (hin f hf) g (hin g hg) (longestFirst_both.mp ⟨hfg, hgf⟩)

theorem commute_of_orderFree {f g : UdfDef} (hlen : bytes f.name.toList = bytes g.name.toList) (h : s.OrderFree [f, g]) :
    s.Commute f g := by
  obtain ⟨hfg, hgf⟩ := longestFirst_both.mpr hlen
  intro sql
  have hrun := h sql [g, f] (List.Perm.swap f g [])
  rw [expanded_eq, expanded_eq, List.mergeSort_of_pairwise (List.pairwise_pair.mpr hgf),
    List.mergeSort_of_pairwise (List.pairwise_pair.mpr hfg)] at hrun
  simpa using hrun.symm

theorem commute_symm {f g : UdfDef} (h : s.Commute f g) : s.Commute g f := fun sql => (h sql).symm

theorem orderFree_iff (defs : List UdfDef) : (∀ sub, sub.Sublist defs → s.OrderFree sub) ↔
    ∀ f ∈ defs, ∀ g ∈ defs, bytes f.name.toList = bytes g.name.toList → s.Commute f g := by
  refine ⟨fun h f hf g hg hlen => ?_, fun h sub hsub => ?_⟩
  · by_cases hsame : f = g
    · subst hsame
      exact fun sql => rfl
    · obtain ⟨a, b, rfl⟩ := List.append_of_mem hf
      rcases List.mem_append.mp hg with hg | hg
      · refine commute_symm s (commute_of_orderFree s hlen.symm (h _ ?_))
        exact (List.singleton_sublist.mpr hg).append (List.singleton_sublist.mpr List.mem_cons_self)
      · rcases List.mem_cons.mp hg with rfl | hg
        · exact absurd rfl hsame
        · refine commute_of_orderFree s hlen (h _ ?_)
          exact ((List.singleton_sublist.mpr hg).cons_cons f).trans (List.sublist_append_right a _)
  · exact orderFree_of_commute s fun f hf g hg => h f (hsub.subset hf) g (hsub.subset hg)

end

/-! ## One call without arguments -/

section
variable (udf : UdfDef) {sql needle : List Char} {lower : List (List Char)}

theorem result_orStop_some {α β : Type} (a : α) (f : α → P β) : (orStop (some a) >>= f).result () = (f a).result () := by
  rw [Prog.result_bind]
  rfl

theorem result_emit_bind {β : Type} (c : Cut) (f : Unit → P β) : (Prog.emit c >>= f).result () = (f ()).result () := by
  rw [Prog.result_bind]
  rfl

/-- Behind the last call, the text is copied. -/
theorem expandUdfFrom_end {a b : List Char} (hsql : sql = a ++ b) (hlower : lower.flatten = sql) (hnone : find needle b = none)
    {rounds : Nat} (hrounds : b.length ≤ rounds) (out : List Char) :
    (expandUdfFrom udf sql needle lower rounds out (bytes a)).result () = .ok (out ++ b) := by
  cases b with
  | nil =>
    have hle : bytes sql ≤ bytes a := by rw [hsql, List.append_nil]
    rw [List.append_nil]
    cases rounds <;> rw [expandUdfFrom, if_pos hle] <;> rfl
  | cons c b =>
    obtain ⟨rounds, rfl⟩ := Nat.exists_eq_succ_of_ne_zero (Nat.ne_of_gt (Nat.lt_of_lt_of_le (Nat.succ_pos _) hrounds))
    have hlt : ¬ bytes sql ≤ bytes a := by
      have := c.utf8Size_pos
      rw [hsql, Slices.bytes_append, Slices.bytes_cons]
      omega
    have hrest : sliceFrom sql (bytes a) = some (c :: b) := by
      rw [hsql]
      exact Slices.sliceFrom_append a _
    rw [expandUdfFrom, if_neg hlt]
    dsimp only
    rw [result_emit_bind, hlower, hrest, result_orStop_some, hnone]
    dsimp only
    rw [result_orStop_some]
    rfl

theorem exists_round {p q : List Char} (hsql : sql = p ++ needle ++ q) (hne : needle ≠ []) : ∃ rounds, sql.length = rounds + 1 := by
  refine Nat.exists_eq_succ_of_ne_zero fun hzero => hne ?_
  rw [hsql] at hzero
  simp only [List.length_append] at hzero
  exact List.length_eq_zero_iff.mp (by omega)

/-- A name that ends a longer word is passed over. -/
theorem expandUdfFrom_word {p q : List Char} (hsql : sql = p ++ needle ++ q) (hlower : lower.flatten = sql) (hne : needle ≠ [])
    (hfind : find needle sql = some (bytes p)) (hword : p.getLast?.any (fun c => c.isAlphanum || c = '_') = true)
    (hrest : find needle q = none) : (expandUdfFrom udf sql needle lower sql.length [] 0).result () = .ok sql := by
  obtain ⟨rounds, hrounds⟩ := exists_round hsql hne
  have hlen := congrArg List.length hsql
  simp only [List.length_append] at hlen
  have hpos : 0 < bytes sql := by
    have := bytes_pos hne
    rw [hsql, Slices.bytes_append, Slices.bytes_append]
    omega
  have hneedle := List.length_pos_iff.mpr hne
  have hend := expandUdfFrom_end udf (a := p ++ needle) hsql hlower hrest (show q.length ≤ rounds by omega) (p ++ needle)
  rw [Slices.bytes_append, ← hsql] at hend
  rw [hrounds, expandUdfFrom, if_neg (Nat.not_le_of_lt hpos)]
  dsimp only
  rw [result_emit_bind, hlower, show sliceFrom sql 0 = some sql by cases sql <;> rfl, result_orStop_some, hfind]
  dsimp only
  rw [result_emit_bind, Nat.zero_add, show sliceTo sql (bytes p) = some p by
    rw [hsql, List.append_assoc]; exact Slices.sliceTo_append p _, result_orStop_some, if_pos hword,
    show slice sql 0 (bytes p + bytes needle) = some (p ++ needle) by
      simpa [hsql] using Slices.slice_append [] (p ++ needle) q, result_orStop_some]
  exact hend

theorem instantiate_nil : udf.instantiate [] = udf.body.toList := by
  simp [UdfDef.instantiate]

/-- The first call is expanded, where it has no arguments and nothing follows. -/
theorem expandUdfFrom_call {p name q : List Char} (hsql : sql = p ++ name ++ '(' :: ')' :: q)
    (hname : bytes name = bytes udf.name.toList) (hlower : lower.flatten = sql)
    (hfind : find (name ++ ['(']) sql = some (bytes p)) (hword : p.getLast?.any (fun c => c.isAlphanum || c = '_') = false)
    (hrest : find (name ++ ['(']) q = none) : (expandUdfFrom udf sql (name ++ ['(']) lower sql.length [] 0).result () =
      .ok (if udf.args = [] then p ++ '(' :: udf.body.toList ++ ')' :: q else sql) := by
  have hlen := congrArg List.length hsql
  simp only [List.length_append, List.length_cons] at hlen
  obtain ⟨rounds, hrounds⟩ := Nat.exists_eq_succ_of_ne_zero (show sql.length ≠ 0 by omega)
  have hpos : 0 < bytes sql := bytes_pos fun he => by
    rw [he] at hlen
    simp only [List.length_nil] at hlen
    omega
  have hone : Char.utf8Size '(' = 1 ∧ Char.utf8Size ')' = 1 := ⟨rfl, rfl⟩
  have hopening : sliceFrom sql (bytes p + bytes udf.name.toList) = some ('(' :: ')' :: q) := by
    rw [hsql, ← hname, ← Slices.bytes_append]
    exact Slices.sliceFrom_append (p ++ name) _
  have hclose : findMatchingParen sql (bytes p + bytes udf.name.toList) = some (bytes p + bytes udf.name.toList + 1) := by
    rw [findMatchingParen, hopening]
    rfl
  have hcall : slice sql (bytes p) (bytes p + bytes udf.name.toList + 1 + 1) = some (name ++ ['(', ')']) := by
    have := Slices.slice_append p (name ++ ['(', ')']) q
    rw [hsql]
    simpa [← hname, hone, Nat.add_assoc] using this
  have hargs : slice sql (bytes p + bytes udf.name.toList + 1) (bytes p + bytes udf.name.toList + 1) = some [] := by
    have := Slices.slice_append (p ++ name ++ ['(']) [] (')' :: q)
    rw [hsql]
    simpa [← hname, hone, Nat.add_assoc] using this
  have hbefore : slice sql 0 (bytes p) = some p := by
    simpa [hsql] using Slices.slice_append [] p (name ++ '(' :: ')' :: q)
  have hend : ∀ out, (expandUdfFrom udf sql (name ++ ['(']) lower rounds out (bytes p + bytes udf.name.toList + 1 + 1)).result () =
      .ok (out ++ q) := by
    intro out
    have hrun := expandUdfFrom_end udf (a := p ++ name ++ ['(', ')']) (by rw [hsql]; simp) hlower hrest
      (show q.length ≤ rounds by omega) out
    simpa [← hname, hone, Nat.add_assoc] using hrun
  rw [hrounds, expandUdfFrom, if_neg (Nat.not_le_of_lt hpos)]
  dsimp only
  rw [result_emit_bind, hlower, show sliceFrom sql 0 = some sql by cases sql <;> rfl, result_orStop_some, hfind]
  dsimp only
  rw [result_emit_bind, Nat.zero_add, show sliceTo sql (bytes p) = some p by
    rw [hsql, List.append_assoc]; exact Slices.sliceTo_append p _, result_orStop_some, if_neg (by rw [hword]; exact Bool.false_ne_true),
    hclose]
  show (orStop (some _) >>= _).result () = _
  have hnoargs : splitTopLevelCsv false 0 [] [] = [] := rfl
  rw [result_orStop_some, hargs, result_orStop_some, hbefore, result_orStop_some, hnoargs]
  by_cases hnone : udf.args = []
  · rw [expandedCall, if_pos (by rw [hnone]; rfl), instantiate_nil, if_pos hnone]
    show (expandUdfFrom _ _ _ _ _ _ _).result () = _
    rw [hend]
    simp
  · rw [expandedCall, if_neg (fun he => hnone (List.length_eq_zero_iff.mp he.symm)), hcall, result_orStop_some, if_neg hnone, hend, hsql]
    simp

end

/-! ## Texts with one call -/

/-- A letter, a digit or an underscore. -/
def isWordChar (c : Char) : Bool := c.isAlphanum || c = '_'

/-- The names that a call can have without quotes. -/
def IsIdentifier (name : List Char) : Prop := name ≠ [] ∧ ∀ c ∈ name, isWordChar c = true

instance decidableIsIdentifier (name : List Char) : Decidable (IsIdentifier name) :=
  @instDecidableAnd _ _ inferInstance (List.decidableBAll _ name)

/-- ASCII characters are mapped one by one. -/
def CaseMapping.LowersAscii (m : CaseMapping) : Prop := ∀ before after c, c.toNat < 128 → m.lower before after c = [c.toLower]

def opened (k : Nat) : List Char := List.replicate k '('

def closed (k : Nat) : List Char := List.replicate k ')'

/-- A call without arguments, in parentheses. -/
def callText (k : Nat) (name : List Char) : List Char := opened k ++ name ++ '(' :: ')' :: closed k

/-- A number in parentheses. -/
def doneText (k : Nat) : List Char := opened k ++ '1' :: closed k

theorem forall_ascii {P : Char → Prop} (h : ∀ i : Fin 128, P (Char.ofNat i)) {c : Char} (hc : c.toNat < 128) : P c := by
  have hi := h ⟨c.toNat, hc⟩
  rwa [Char.ofNat_toNat] at hi

theorem toNat_of_isWordChar {c : Char} (h : isWordChar c = true) : c.toNat < 128 := by
  unfold isWordChar Char.isAlphanum Char.isAlpha Char.isUpper Char.isLower Char.isDigit at h
  simp only [Bool.or_eq_true, Bool.and_eq_true, decide_eq_true_eq] at h
  have hval : c.toNat = c.val.toNat := rfl
  rcases h with ((h | h) | h) | rfl
  · have := h.2
    have : c.val.toNat ≤ 90 := this
    omega
  · have : c.val.toNat ≤ 122 := h.2
    omega
  · have : c.val.toNat ≤ 57 := h.2
    omega
  · decide

theorem toLower_word {c : Char} (h : isWordChar c = true) :
    isWordChar c.toLower = true ∧ c.toLower.toLower = c.toLower ∧ c.toLower.utf8Size = 1 ∧ c.utf8Size = 1 := by
  have hall : isWordChar c = true →
      isWordChar c.toLower = true ∧ c.toLower.toLower = c.toLower ∧ c.toLower.utf8Size = 1 ∧ c.utf8Size = 1 :=
    forall_ascii (P := fun c => isWordChar c = true →
      isWordChar c.toLower = true ∧ c.toLower.toLower = c.toLower ∧ c.toLower.utf8Size = 1 ∧ c.utf8Size = 1)
      (by decide +kernel) (toNat_of_isWordChar h)
  exact hall h

theorem paren_not_word : isWordChar '(' = false ∧ isWordChar ')' = false := by decide

section
variable {m : CaseMapping} (hm : m.LowersAscii)

include hm in
theorem lowerFrom_ascii (before : List Char) {s : List Char} (hs : ∀ c ∈ s, c.toNat < 128) :
    (m.lowerFrom before s).flatten = s.map Char.toLower := by
  induction s generalizing before with
  | nil => rfl
  | cons c s ih =>
    rw [CaseMapping.lowerFrom, hm before s c (hs c List.mem_cons_self), List.flatten_cons,
      ih _ fun d hd => hs d (List.mem_cons_of_mem _ hd)]
    rfl

include hm in
theorem toLowercase_identifier {name : List Char} (hname : IsIdentifier name) : m.toLowercase name = name.map Char.toLower :=
  lowerFrom_ascii hm [] fun c hc => toNat_of_isWordChar (hname.2 c hc)

end

theorem isIdentifier_lower {name : List Char} (h : IsIdentifier name) : IsIdentifier (name.map Char.toLower) := by
  refine ⟨fun he => h.1 (List.map_eq_nil_iff.mp he), fun c hc => ?_⟩
  obtain ⟨d, hd, rfl⟩ := List.mem_map.mp hc
  exact (toLower_word (h.2 d hd)).1

theorem bytes_lower {name : List Char} (h : IsIdentifier name) : bytes (name.map Char.toLower) = bytes name := by
  have hsingle : ∀ c ∈ name.map Char.toLower, c.utf8Size = 1 := by
    intro c hc
    obtain ⟨d, hd, rfl⟩ := List.mem_map.mp hc
    exact (toLower_word (h.2 d hd)).2.2.1
  rw [Slices.bytes_eq_length hsingle, Slices.bytes_eq_length fun c hc => (toLower_word (h.2 c hc)).2.2.2, List.length_map]

/-! ## Where a call is found -/

theorem find_within {needle : List Char} : ∀ (p r : List Char), find needle (p ++ needle ++ r) ≠ none
  | [], r => by
    rw [List.nil_append]
    cases hs : needle ++ r with
    | nil =>
      have hnil : needle = [] := (List.append_eq_nil_iff.mp hs).1
      rw [find, if_pos hnil]
      simp
    | cons c s =>
      rw [find, if_pos (List.isPrefixOf_iff_prefix.mpr ⟨r, hs⟩)]
      simp
  | c :: p, r => by
    rw [List.cons_append, List.cons_append, find]
    split
    · simp
    · exact fun h => find_within p r (Option.map_eq_none_iff.mp h)

theorem find_eq_none {needle s : List Char} (h : ∀ p r, s ≠ p ++ needle ++ r) : find needle s = none := by
  cases hf : find needle s with
  | none => rfl
  | some i =>
    obtain ⟨p, r, hs, -⟩ := Slices.find_split hf
    exact absurd hs (h p r)

theorem find_eq_some {needle p r : List Char} (h : ∀ p' r', p ++ needle ++ r = p' ++ needle ++ r' → p' = p) :
    find needle (p ++ needle ++ r) = some (bytes p) := by
  cases hf : find needle (p ++ needle ++ r) with
  | none => exact absurd hf (find_within p r)
  | some i =>
    obtain ⟨p', r', hs, rfl⟩ := Slices.find_split hf
    rw [h p' r' hs]

theorem not_mem_word {name : List Char} (h : ∀ c ∈ name, isWordChar c = true) : '(' ∉ name :=
  fun hm => nomatch (h _ hm).symm.trans paren_not_word.1

theorem not_mem_closed (k : Nat) : '(' ∉ closed k := fun h => nomatch List.eq_of_mem_replicate h

/-- A name does not end among opening parentheses. -/
theorem name_not_opened {name p t : List Char} (hname : IsIdentifier name) (k : Nat) : opened k ≠ p ++ name ++ t := by
  intro h
  obtain ⟨c, cs, rfl⟩ := List.exists_cons_of_ne_nil hname.1
  have hmem : c ∈ opened k := h ▸ List.mem_append_left t (List.mem_append_right p List.mem_cons_self)
  rw [List.eq_of_mem_replicate hmem] at hname
  exact not_mem_word hname.2 List.mem_cons_self

theorem doneText_ne {name : List Char} (hname : IsIdentifier name) (k : Nat) (p r : List Char) :
    doneText k ≠ p ++ (name ++ ['(']) ++ r := by
  intro h
  have h' : opened k ++ '1' :: closed k = (p ++ name) ++ '(' :: r := by
    rw [← doneText, h]
    simp
  rcases List.append_eq_append_iff.mp h' with ⟨a, ha, hr⟩ | ⟨a, ha, hr⟩
  · have hmem : '(' ∈ '1' :: closed k := hr ▸ List.mem_append_right a List.mem_cons_self
    rcases List.mem_cons.mp hmem with h1 | h1
    · cases h1
    · exact not_mem_closed k h1
  · exact name_not_opened hname k ha

/-- The one opening parenthesis behind a word is the one of the call. -/
theorem callText_eq {name w p r : List Char} (hname : IsIdentifier name) (hw : IsIdentifier w) {k : Nat}
    (h : callText k w = p ++ (name ++ ['(']) ++ r) : ∃ u, p = opened k ++ u ∧ w = u ++ name := by
  have h' : opened k ++ (w ++ '(' :: ')' :: closed k) = (p ++ name) ++ '(' :: r := by
    rw [← List.append_assoc, ← callText, h]
    simp
  rcases List.append_eq_append_iff.mp h' with ⟨a, ha, hr⟩ | ⟨a, ha, hr⟩
  · -- the only one behind the word
    have hrest : '(' ∉ ')' :: closed k := by simp [not_mem_closed]
    obtain ⟨rfl, -, -⟩ := (List.append_cons_inj_of_notMem (not_mem_word hw.2) hrest).mp hr
    rcases List.append_eq_append_iff.mp ha with ⟨u, hu, hnu⟩ | ⟨u, hu, hwu⟩
    · cases u with
      | nil => exact ⟨[], by rw [hu, List.append_nil, List.append_nil], hnu.symm⟩
      | cons c u =>
        have hc : c ∈ opened k := hu ▸ List.mem_append_right p List.mem_cons_self
        rw [List.eq_of_mem_replicate hc] at hnu
        exact absurd (hnu ▸ List.mem_cons_self) (not_mem_word hname.2)
    · exact ⟨u, hu, hwu⟩
  · exact absurd ha (name_not_opened hname k)

/-! ## What a function makes of a call -/

section
variable (s : Session) (hm : s.unicode.LowersAscii)

theorem isAscii_text {t : List Char} (h : ∀ c ∈ t, isWordChar c = true ∨ c = '(' ∨ c = ')') : ∀ c ∈ t, c.toNat < 128 := by
  intro c hc
  rcases h c hc with hw | rfl | rfl
  · exact toNat_of_isWordChar hw
  · decide
  · decide

theorem map_toLower_self {t : List Char} (h : ∀ c ∈ t, c.toLower = c) : t.map Char.toLower = t := by
  rw [List.map_congr_left h, List.map_id']

/-- The names in lower case, and parentheses. -/
def IsLowered (t : List Char) : Prop := ∀ c ∈ t, (isWordChar c = true ∨ c = '(' ∨ c = ')') ∧ c.toLower = c

theorem isLowered_doneText (k : Nat) : IsLowered (doneText k) := by
  intro c hc
  rcases List.mem_append.mp hc with hc | hc
  · rw [List.eq_of_mem_replicate hc]
    decide
  · rcases List.mem_cons.mp hc with rfl | hc
    · decide
    · rw [List.eq_of_mem_replicate hc]
      decide

theorem isLowered_callText {name : List Char} (h : IsIdentifier name) (k : Nat) : IsLowered (callText k (name.map Char.toLower)) := by
  intro c hc
  rcases List.mem_append.mp hc with hc | hc
  · rcases List.mem_append.mp hc with hc | hc
    · rw [List.eq_of_mem_replicate hc]
      decide
    · obtain ⟨d, hd, rfl⟩ := List.mem_map.mp hc
      have hword := toLower_word (h.2 d hd)
      exact ⟨.inl hword.1, hword.2.1⟩
  · rcases List.mem_cons.mp hc with rfl | hc
    · decide
    · rcases List.mem_cons.mp hc with rfl | hc
      · decide
      · rw [List.eq_of_mem_replicate hc]
        decide

include hm in
theorem lowerPieces_lowered {t : List Char} (h : IsLowered t) : (s.unicode.lowerPieces t).flatten = t := by
  have hlower := lowerFrom_ascii hm [] (isAscii_text fun c hc => (h c hc).1)
  rw [map_toLower_self fun c hc => (h c hc).2] at hlower
  exact hlower

include hm in
theorem expandedOnce_doneText {udf : UdfDef} (hname : IsIdentifier udf.name.toList) (k : Nat) :
    s.expandedOnce (doneText k) udf = .ok (doneText k) := by
  have hidentifier := isIdentifier_lower hname
  have hnone : find (s.unicode.toLowercase udf.name.toList ++ ['(']) (doneText k) = none := by
    rw [toLowercase_identifier hm hname]
    exact find_eq_none (doneText_ne hidentifier k)
  exact expandUdfFrom_end udf (a := []) rfl (lowerPieces_lowered s hm (isLowered_doneText k)) hnone (Nat.le_refl _) []

theorem find_closed (name : List Char) {rest : List Char} (hrest : '(' ∉ rest) : find (name ++ ['(']) rest = none := by
  refine find_eq_none fun p r h => hrest ?_
  rw [h]
  simp

include hm in
/-- A function expands the call of its name where it has no arguments, and leaves any other call alone. -/
theorem expandedOnce_callText {udf : UdfDef} (hname : IsIdentifier udf.name.toList) {name : List Char} (hcall : IsIdentifier name)
    (k : Nat) : s.expandedOnce (callText k (name.map Char.toLower)) udf =
      .ok (if udf.name.toList.map Char.toLower = name.map Char.toLower ∧ udf.args = [] then
        opened k ++ '(' :: udf.body.toList ++ ')' :: closed k else callText k (name.map Char.toLower)) := by
  have hn := isIdentifier_lower hname
  have hw := isIdentifier_lower hcall
  have hlower := lowerPieces_lowered s hm (isLowered_callText hcall k)
  have hneedle := toLowercase_identifier hm hname
  have hbytes := bytes_lower hname
  unfold Session.expandedOnce expandSingleUdfCall
  rw [hneedle]
  generalize udf.name.toList.map Char.toLower = n at hn hbytes ⊢
  generalize name.map Char.toLower = w at hw hlower ⊢
  by_cases hsuffix : ∃ u, w = u ++ n
  · obtain ⟨u, rfl⟩ := hsuffix
    have hsql : callText k (u ++ n) = opened k ++ u ++ (n ++ ['(']) ++ ')' :: closed k := by simp [callText]
    have hfind : find (n ++ ['(']) (callText k (u ++ n)) = some (bytes (opened k ++ u)) := by
      rw [hsql]
      refine find_eq_some fun p' r' h => ?_
      rw [← hsql] at h
      obtain ⟨u', rfl, hu'⟩ := callText_eq hn hw h
      rw [List.append_cancel_right hu']
    by_cases hu : u = []
    · subst hu
      rw [List.append_nil] at hfind
      rw [List.nil_append] at hfind hlower ⊢
      have hlast : (opened k).getLast?.any (fun c => c.isAlphanum || c = '_') = false := by
        cases hc : (opened k).getLast? with
        | none => rfl
        | some c =>
          rw [List.eq_of_mem_replicate (List.mem_of_getLast? hc)]
          decide
      have hsplit : callText k n = opened k ++ n ++ '(' :: ')' :: closed k := rfl
      rw [expandUdfFrom_call udf hsplit hbytes hlower hfind hlast (find_closed n (not_mem_closed k))]
      simp
    · have hc := List.getLast?_eq_some_getLast hu
      have hlast : (opened k ++ u).getLast?.any (fun c => c.isAlphanum || c = '_') = true := by
        rw [List.getLast?_append_of_ne_nil _ hu, hc]
        exact hw.2 _ (List.mem_append_left n (List.getLast_mem hu))
      have hrest : '(' ∉ ')' :: closed k := by simp [not_mem_closed]
      rw [expandUdfFrom_word udf hsql hlower (by simp) hfind hlast (find_closed n hrest), if_neg]
      rintro ⟨heq, -⟩
      exact hu (List.self_eq_append_left.mp heq)
  · have hnone : find (n ++ ['(']) (callText k w) = none := by
      refine find_eq_none fun p r h => hsuffix ?_
      obtain ⟨u, -, hu⟩ := callText_eq hn hw h
      exact ⟨u, hu⟩
    have hrun := expandUdfFrom_end udf (a := []) rfl hlower hnone (Nat.le_refl _) []
    rw [if_neg fun h => hsuffix ⟨[], h.1.symm⟩]
    exact hrun

end

/-! ## Names of one length -/

theorem foldlM_same {α β : Type} {step : β → α → Except Failure β} {t : β} {xs : List α} (h : ∀ a ∈ xs, step t a = .ok t) :
    xs.foldlM step t = .ok t := by
  induction xs with
  | nil => rfl
  | cons a xs ih =>
    rw [List.foldlM_cons, h a List.mem_cons_self]
    exact ih fun b hb => h b (List.mem_cons_of_mem _ hb)

theorem foldlM_two {α β : Type} {step : β → α → Except Failure β} {t t' t'' : β} {f g : α} {x y z : List α}
    (hf : step t f = .ok t') (hg : step t' g = .ok t'') (hx : ∀ a ∈ x, step t a = .ok t) (hy : ∀ a ∈ y, step t' a = .ok t')
    (hz : ∀ a ∈ z, step t'' a = .ok t'') : (x ++ f :: (y ++ g :: z)).foldlM step t = .ok t'' := by
  rw [List.foldlM_append, foldlM_same hx]
  show List.foldlM step t (f :: (y ++ g :: z)) = _
  rw [List.foldlM_cons, hf]
  show List.foldlM step t' (y ++ g :: z) = _
  rw [List.foldlM_append, foldlM_same hy]
  show List.foldlM step t' (g :: z) = _
  rw [List.foldlM_cons, hg]
  exact foldlM_same hz

/-- Two functions that are first in their map are expanded in their order there, among the others. -/
theorem exists_sorted {f g : UdfDef} (hlen : bytes f.name.toList = bytes g.name.toList) (others : List UdfDef) :
    ∃ x y z, (f :: g :: others).mergeSort longestFirst = x ++ f :: (y ++ g :: z) ∧ ∀ d ∈ x ++ (y ++ z), d ∈ others := by
  have hpair : [f, g].Sublist ((f :: g :: others).mergeSort longestFirst) :=
    List.pair_sublist_mergeSort longestFirst_trans longestFirst_total (longestFirst_both.mpr hlen).1
      (((List.nil_sublist others).cons_cons g).cons_cons f)
  obtain ⟨r₁, r₂, hsort, hf, hrest⟩ := List.cons_sublist_iff.mp hpair
  obtain ⟨x, y₁, rfl⟩ := List.append_of_mem hf
  obtain ⟨y₂, z, rfl⟩ := List.append_of_mem (List.singleton_sublist.mp hrest)
  have hwhole : (f :: g :: others).mergeSort longestFirst = x ++ f :: ((y₁ ++ y₂) ++ g :: z) := by
    rw [hsort]
    simp
  refine ⟨x, y₁ ++ y₂, z, hwhole, fun d hd => ?_⟩
  have hperm := List.mergeSort_perm (f :: g :: others) longestFirst
  rw [hwhole] at hperm
  have hperm' := (List.perm_middle.symm.trans hperm).cons_inv
  rw [← List.append_assoc] at hperm'
  have hothers := (List.perm_middle.symm.trans hperm').cons_inv
  rw [List.append_assoc] at hothers
  exact hothers.mem_iff.mp hd

section
variable (s : Session) (hm : s.unicode.LowersAscii) {f g : UdfDef} {others : List UdfDef}

/-- A function without arguments whose body calls another one. -/
def Calls (f g : UdfDef) : Prop :=
  f.args = [] ∧ f.body.toList = callText 0 (g.name.toList.map Char.toLower) ∧ g.args = [] ∧ g.body.toList = ['1']

include hm in
theorem expandedOnce_caller (hf : IsIdentifier f.name.toList) (hcalls : Calls f g) :
    s.expandedOnce (callText 0 (f.name.toList.map Char.toLower)) f = .ok (callText 1 (g.name.toList.map Char.toLower)) := by
  rw [expandedOnce_callText s hm hf hf, if_pos ⟨rfl, hcalls.1⟩, hcalls.2.1]
  simp [callText, opened, closed]

include hm in
theorem expandedOnce_callee (hg : IsIdentifier g.name.toList) (hcalls : Calls f g) (k : Nat) :
    s.expandedOnce (callText k (g.name.toList.map Char.toLower)) g = .ok (doneText (k + 1)) := by
  rw [expandedOnce_callText s hm hg hg, if_pos ⟨rfl, hcalls.2.2.1⟩, hcalls.2.2.2]
  have hopen : opened (k + 1) = opened k ++ ['('] := List.replicate_succ'
  have hclose : closed (k + 1) = ')' :: closed k := List.replicate_succ
  rw [doneText, hopen, hclose]
  simp

include hm in
/-- A function with arguments leaves a call without arguments alone. -/
theorem expandedOnce_other (hname : IsIdentifier f.name.toList) (hargs : f.args ≠ []) {name : List Char} (hcall : IsIdentifier name)
    (k : Nat) : s.expandedOnce (callText k (name.map Char.toLower)) f = .ok (callText k (name.map Char.toLower)) := by
  rw [expandedOnce_callText s hm hname hcall, if_neg fun h => hargs h.2]

include hm in
theorem expanded_callerFirst (hlen : bytes f.name.toList = bytes g.name.toList) (hcalls : Calls f g)
    (hf : IsIdentifier f.name.toList) (hg : IsIdentifier g.name.toList)
    (hothers : ∀ d ∈ others, IsIdentifier d.name.toList ∧ d.args ≠ []) :
    s.expanded (f :: g :: others) (callText 0 (f.name.toList.map Char.toLower)) = .ok (doneText 2) := by
  obtain ⟨x, y, z, hsort, hin⟩ := exists_sorted hlen others
  have hin := fun d hd => hothers d (hin d hd)
  rw [expanded_eq, hsort]
  refine foldlM_two (expandedOnce_caller s hm hf hcalls) (expandedOnce_callee s hm hg hcalls 1) (fun d hd => ?_)
    (fun d hd => ?_) fun d hd => ?_
  · obtain ⟨hname, hargs⟩ := hin d (List.mem_append_left _ hd)
    exact expandedOnce_other s hm hname hargs hf 0
  · obtain ⟨hname, hargs⟩ := hin d (List.mem_append_right _ (List.mem_append_left _ hd))
    exact expandedOnce_other s hm hname hargs hg 1
  · exact expandedOnce_doneText s hm (hin d (List.mem_append_right _ (List.mem_append_right _ hd))).1 2

include hm in
theorem expanded_callerLast (hlen : bytes f.name.toList = bytes g.name.toList) (hcalls : Calls f g)
    (hf : IsIdentifier f.name.toList) (hg : IsIdentifier g.name.toList)
    (hothers : ∀ d ∈ others, IsIdentifier d.name.toList ∧ d.args ≠ []) :
    s.expanded (g :: f :: others) (callText 0 (f.name.toList.map Char.toLower)) =
      .ok (if g.name.toList.map Char.toLower = f.name.toList.map Char.toLower then doneText 1
        else callText 1 (g.name.toList.map Char.toLower)) := by
  obtain ⟨x, y, z, hsort, hin⟩ := exists_sorted hlen.symm others
  have hin := fun d hd => hothers d (hin d hd)
  have hkeep : ∀ d ∈ x ++ (y ++ z), ∀ name, IsIdentifier name → ∀ k,
      s.expandedOnce (callText k (name.map Char.toLower)) d = .ok (callText k (name.map Char.toLower)) :=
    fun d hd name hname k => expandedOnce_other s hm (hin d hd).1 (hin d hd).2 hname k
  rw [expanded_eq, hsort]
  by_cases hsame : g.name.toList.map Char.toLower = f.name.toList.map Char.toLower
  · have hfirst := expandedOnce_callee s hm hg hcalls 0
    rw [hsame] at hfirst
    rw [if_pos hsame]
    refine foldlM_two hfirst (expandedOnce_doneText s hm hf 1) (fun d hd => ?_) (fun d hd => ?_) fun d hd => ?_
    · exact hkeep d (List.mem_append_left _ hd) _ hf 0
    · exact expandedOnce_doneText s hm (hin d (List.mem_append_right _ (List.mem_append_left _ hd))).1 1
    · exact expandedOnce_doneText s hm (hin d (List.mem_append_right _ (List.mem_append_right _ hd))).1 1
  · have hfirst := expandedOnce_callText s hm hg hf 0
    rw [if_neg fun h => hsame h.1] at hfirst
    rw [if_neg hsame]
    refine foldlM_two hfirst (expandedOnce_caller s hm hf hcalls) (fun d hd => ?_) (fun d hd => ?_) fun d hd => ?_
    · exact hkeep d (List.mem_append_left _ hd) _ hf 0
    · exact hkeep d (List.mem_append_right _ (List.mem_append_left _ hd)) _ hf 0
    · exact hkeep d (List.mem_append_right _ (List.mem_append_right _ hd)) _ hg 1

end

/-! ## Which names leave the order open -/

/-- The definitions that show the order of two names, among other names. -/
def showing (a b n : String) : UdfDef :=
  if n = a then ⟨a, [], "INT", String.ofList (callText 0 (b.toList.map Char.toLower))⟩
  else if n = b then ⟨b, [], "INT", "1"⟩
  else ⟨n, ["x"], "INT", "1"⟩

theorem showing_name (a b n : String) : (showing a b n).name = n := by
  unfold showing
  split_ifs with ha hb
  · exact ha.symm
  · exact hb.symm
  · rfl

theorem calls_showing {a b : String} (hab : a ≠ b) : Calls (showing a b a) (showing a b b) := by
  unfold showing
  rw [if_pos rfl, if_neg hab.symm, if_pos rfl]
  exact ⟨rfl, String.toList_ofList, rfl, show "1".toList = ['1'] by decide⟩

theorem args_showing {a b n : String} (ha : n ≠ a) (hb : n ≠ b) : (showing a b n).args ≠ [] := by
  unfold showing
  rw [if_neg ha, if_neg hb]
  exact List.cons_ne_nil _ _

section
variable (s : Session) (hm : s.unicode.LowersAscii)

include hm in
theorem not_orderFree {names : List String} (hnodup : names.Nodup) (hnames : ∀ n ∈ names, IsIdentifier n.toList) {a b : String}
    (ha : a ∈ names) (hb : b ∈ names) (hab : a ≠ b) (hlen : bytes a.toList = bytes b.toList) :
    ¬ s.OrderFree (names.map (showing a b)) := by
  intro h
  have hb' : b ∈ names.erase a := (List.mem_erase_of_ne hab.symm).mpr hb
  have hperm : names.Perm (a :: b :: (names.erase a).erase b) :=
    (List.perm_cons_erase ha).trans ((List.perm_cons_erase hb').cons a)
  have hothers : ∀ d ∈ ((names.erase a).erase b).map (showing a b), IsIdentifier d.name.toList ∧ d.args ≠ [] := by
    intro d hd
    obtain ⟨n, hn, rfl⟩ := List.mem_map.mp hd
    obtain ⟨hnb, hn⟩ := (hnodup.erase a).mem_erase_iff.mp hn
    obtain ⟨hna, hn⟩ := hnodup.mem_erase_iff.mp hn
    rw [showing_name]
    exact ⟨hnames n hn, args_showing hna hnb⟩
  have hcalls := calls_showing hab
  have hfirst := expanded_callerFirst s hm (by rw [showing_name, showing_name]; exact hlen) hcalls
    (by rw [showing_name]; exact hnames a ha) (by rw [showing_name]; exact hnames b hb) hothers
  have hlast := expanded_callerLast s hm (by rw [showing_name, showing_name]; exact hlen) hcalls
    (by rw [showing_name]; exact hnames a ha) (by rw [showing_name]; exact hnames b hb) hothers
  have hsame := h (callText 0 ((showing a b a).name.toList.map Char.toLower)) _ (hperm.map (showing a b)).symm
  have hswap := h (callText 0 ((showing a b a).name.toList.map Char.toLower)) _
    (((List.Perm.swap a b _).trans hperm.symm).map (showing a b))
  rw [List.map_cons, List.map_cons, hfirst] at hsame
  rw [List.map_cons, List.map_cons, hlast, ← hsame] at hswap
  have htext := Except.ok.inj hswap
  split_ifs at htext with hcase
  · exact absurd htext (by decide)
  · refine doneText_ne (isIdentifier_lower (hnames b hb)) 2 (opened 1) (')' :: closed 1) ?_
    rw [← htext, showing_name]
    simp [callText]

theorem orderFree_of_nodup {defs : List UdfDef} (h : (defs.map fun f => bytes f.name.toList).Nodup) : s.OrderFree defs := by
  refine orderFree_of_commute s fun f hf g hg hlen => ?_
  obtain rfl := List.inj_on_of_nodup_map h hf hg hlen
  exact fun sql => rfl

include hm in
theorem orderFree_names_iff {names : List String} (hnodup : names.Nodup) (hnames : ∀ n ∈ names, IsIdentifier n.toList) :
    (∀ defs : List UdfDef, defs.map UdfDef.name = names → s.OrderFree defs) ↔ (names.map fun n => bytes n.toList).Nodup := by
  refine ⟨fun h => ?_, fun h defs hdefs => orderFree_of_nodup s ?_⟩
  · refine hnodup.map_on fun a ha b hb hlen => by_contra fun hab => ?_
    refine not_orderFree s hm hnodup hnames ha hb hab hlen (h _ ?_)
    rw [List.map_map]
    exact (List.map_congr_left fun n _ => showing_name a b n).trans (List.map_id names)
  · rw [← hdefs, List.map_map] at h
    exact h

include hm in
/-- **The order of the map shows exactly where functions with names of one length do not commute.** Names of different
lengths hide it whatever the functions are, and no other names of calls do. -/
theorem udf_expansion_order :
    (∀ defs : List UdfDef, (∀ sub, sub.Sublist defs → s.OrderFree sub) ↔
      ∀ f ∈ defs, ∀ g ∈ defs, bytes f.name.toList = bytes g.name.toList → s.Commute f g) ∧
    (∀ defs : List UdfDef, (defs.map fun f => bytes f.name.toList).Nodup → s.OrderFree defs) ∧
    ∀ names : List String, names.Nodup → (∀ n ∈ names, IsIdentifier n.toList) →
      ((∀ defs : List UdfDef, defs.map UdfDef.name = names → s.OrderFree defs) ↔ (names.map fun n => bytes n.toList).Nodup) :=
  ⟨orderFree_iff s, fun _ => orderFree_of_nodup s, fun _ hnodup hnames => orderFree_names_iff s hm hnodup hnames⟩

end

theorem lowersAscii_someCases : someCases.LowersAscii := by
  intro before after c hc
  refine if_neg ?_
  rintro rfl
  exact absurd hc (by decide)

/-- `f() = g()` and `g() = 1`. -/
def callerUdf : UdfDef := ⟨"f", [], "INT", "g()"⟩

def calleeUdf : UdfDef := ⟨"g", [], "INT", "1"⟩

/-- **A call in a body is expanded or left**, by the order of the map. -/
theorem order_of_map_shows :
    plainSession.expanded [callerUdf, calleeUdf] "f()".toList = .ok "((1))".toList ∧
    plainSession.expanded [calleeUdf, callerUdf] "f()".toList = .ok "(g())".toList ∧
    ¬ ∀ (s : Session) (defs : List UdfDef), (defs.map UdfDef.name).Nodup → s.OrderFree defs := by
  have hcalls : Calls callerUdf calleeUdf := ⟨rfl, by decide, rfl, by decide⟩
  have hcaller : IsIdentifier callerUdf.name.toList := by decide +kernel
  have hcallee : IsIdentifier calleeUdf.name.toList := by decide +kernel
  have hfirst : plainSession.expanded [callerUdf, calleeUdf] "f()".toList = .ok "((1))".toList :=
    expanded_callerFirst plainSession lowersAscii_someCases (by decide) hcalls hcaller hcallee nofun
  have hlast : plainSession.expanded [calleeUdf, callerUdf] "f()".toList = .ok "(g())".toList :=
    expanded_callerLast plainSession lowersAscii_someCases (by decide) hcalls hcaller hcallee nofun
  refine ⟨hfirst, hlast, fun h => ?_⟩
  have hsame := h plainSession [callerUdf, calleeUdf] (by decide) "f()".toList [calleeUdf, callerUdf] (List.Perm.swap _ _ _)
  exact absurd (Except.ok.inj (hlast.symm.trans (hsame.trans hfirst))) (by decide)

/-- Functions with names of different lengths, one of which calls the other. -/
theorem lengths_hide_order :
    plainSession.OrderFree [callerUdf, ⟨"gg", ["x"], "INT", "x + f()"⟩] :=
  (udf_expansion_order plainSession lowersAscii_someCases).2.1 _ (by decide)

end PotatoDB.Texts
