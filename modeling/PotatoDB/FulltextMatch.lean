import PotatoDB.AsOfClause
import PotatoDB.ExportsSound
import PotatoDB.Patterns

/-!
# Calls of `fts_match`

The first text that looks like a call is written over by ILIKE conditions on the columns of an index whose table stands behind some
FROM. This is what the call means if it is the only one, its value is plain and only indexes of the queried table are named.
-/

namespace PotatoDB.Texts

open Oplog
open Slices
open Patterns (Like Contains IsPlain)

/-! ## Calls and conditions -/

/-- A call with a string literal. -/
def IsCall (call value : List Char) : Prop :=
  ∃ name gap front back : List Char, call = name ++ (gap ++ '(' :: (front ++ (Quoting.enclose quoteChar value ++ (back ++ [')'])))) ∧
    name.map Char.toUpper = "FTS_MATCH".toList ∧ gap.all isWhitespace = true ∧ front.all isWhitespace = true ∧
    back.all isWhitespace = true

/-- A call stands at the start of a text, in the code and not inside of a word. -/
def StartsCall (prev : Option Char) (mode : Mode) (text call value rest : List Char) : Prop :=
  mode = .code ∧ prev.any isWordPart = false ∧ text = call ++ rest ∧ IsCall call value

/-- The text of the condition that a column, as a text, is like a pattern. -/
def conditionText (condition : String × List Char) : String :=
  "CAST(" ++ String.ofList (Quoting.enclose '"' condition.1.toList) ++ " AS VARCHAR) ILIKE " ++
    String.ofList (Quoting.enclose quoteChar condition.2)

def predicateText (conditions : List (String × List Char)) : List Char :=
  ("(" ++ " OR ".intercalate (conditions.map conditionText) ++ ")").toList

/-- Whether one of the conditions is true of a row, which has texts in the columns that are not NULL. -/
def IsTrue (same : Char → Char → Prop) (conditions : List (String × List Char)) (row : String → Option (List Char)) : Prop :=
  ∃ condition ∈ conditions, ∃ content, row condition.1 = some content ∧ Like same condition.2 content

/-- The text of conditions that are true of the rows with the value in one of the columns. -/
def FindsValue (same : Char → Char → Prop) (columns : List String) (value predicate : List Char) : Prop :=
  ∃ conditions, conditions ≠ [] ∧ predicate = predicateText conditions ∧
    ∀ row, IsTrue same conditions row ↔ ∃ c ∈ columns, ∃ content, row c = some content ∧ Contains same value content

/-- A text with such conditions for every call and nothing else changed. -/
inductive Rewritten (same : Char → Char → Prop) (columns : List String) : Option Char → Mode → List Char → List Char → Prop
  | done {prev : Option Char} {mode : Mode} : Rewritten same columns prev mode [] []
  | char {prev : Option Char} {mode : Mode} {c : Char} {sql text : List Char}
      (hno : ∀ call value rest, ¬ StartsCall prev mode (c :: sql) call value rest)
      (h : Rewritten same columns (some c) (mode.next c sql.head?) sql text) : Rewritten same columns prev mode (c :: sql) (c :: text)
  | call {prev : Option Char} {mode : Mode} {sql call value rest predicate text : List Char}
      (hcall : StartsCall prev mode sql call value rest) (hfinds : FindsValue same columns value predicate)
      (h : Rewritten same columns (some ')') .code rest text) : Rewritten same columns prev mode sql (predicate ++ text)

/-- The columns of the indexes of a table. -/
def indexedColumns (fulltext : List FulltextIndexDef) (table : String) : List String :=
  (fulltext.filter fun idx => idx.tableName = table).flatMap (·.columns)

/-- The calls in a text on a table are written as they are to be, whatever the order of the indexes. -/
structure FulltextExact (same : Char → Char → Prop) (s : Session) (table : String) (sql : List Char) : Prop where
  rewritten : ∃ text, (rewriteFulltextMatchSql s sql).result () = .ok text ∧
    Rewritten same (indexedColumns s.fulltext table) none .code sql text
  anyOrder : ∀ fulltext : List FulltextIndexDef, fulltext.Perm s.fulltext →
    (rewriteFulltextMatchSql { s with fulltext := fulltext } sql).result () = (rewriteFulltextMatchSql s sql).result ()

/-! ## Texts in order -/

/-- No call starts in the first text, with the second behind it. -/
def Callless : Option Char → Mode → List Char → List Char → Prop
  | _, _, [], _ => True
  | prev, mode, c :: cs, rest => (∀ call value rest', ¬ StartsCall prev mode (c :: (cs ++ rest)) call value rest') ∧
      Callless (some c) (mode.next c (cs ++ rest).head?) cs rest

/-- The table of an index stands behind a FROM of the text. -/
def IsNamed (m : CaseMapping) (sql : List Char) (idx : FulltextIndexDef) : Prop :=
  containsText (m.toUppercase ("FROM \"" ++ idx.tableName ++ "\"").toList) (m.toUppercase sql) = true ∨
    containsText (m.toUppercase ("FROM " ++ idx.tableName).toList) (m.toUppercase sql) = true

/-- A value that is read and searched for as it is. -/
structure PlainValue (value : List Char) : Prop where
  nonempty : value ≠ []
  pattern : IsPlain value
  quote : quoteChar ∉ value
  paren : ')' ∉ value
  ends : value.head? ≠ some '"' ∧ value.getLast? ≠ some '"'

def callName : List Char := "FTS_MATCH(".toList

/-- One call, found in place, and indexes of its table with the same columns and no others that are named. -/
structure OneCall (s : Session) (table : String) (before words behind value after : List Char) (idx : FulltextIndexDef) : Prop where
  place : FoundInPlace s.unicode callName before words behind
  argument : ∃ front back : List Char, behind = front ++ (quoteChar :: (value ++ quoteChar :: back)) ++ ')' :: after ∧
    front.all isWhitespace = true ∧ back.all isWhitespace = true
  plain : PlainValue value
  code : Mode.behind .code before (words ++ behind) = .code
  word : before.getLast?.any isWordPart = false
  only : Callless none .code before (words ++ behind) ∧ Callless (some ')') .code after []
  index : idx ∈ s.fulltext ∧ idx.tableName = table ∧ IsNamed s.unicode (before ++ words ++ behind) idx
  columns : idx.columns ≠ [] ∧ ∀ c ∈ idx.columns, '"' ∉ c.toList
  others : ∀ other ∈ s.fulltext, other.tableName = table ∨ IsNamed s.unicode (before ++ words ++ behind) other →
    other.tableName = table ∧ other.columns = idx.columns

/-- What is between the parentheses without white space and quotes around it. -/
def argumentOf (inner : List Char) : List Char := unquote (trimMatches (· = quoteChar) (trim inner))

/-- No call, and the name of the function nowhere in the copy, or in place with no parenthesis or nothing behind it or no index named. -/
def NoCall (s : Session) (sql : List Char) : Prop :=
  Callless none .code sql [] ∧ (find callName (s.unicode.toUppercase sql) = none ∨
    ∃ before words behind, sql = before ++ words ++ behind ∧ FoundInPlace s.unicode callName before words behind ∧
      (')' ∉ behind ∨ (∃ inner after, behind = inner ++ ')' :: after ∧ ')' ∉ inner ∧ argumentOf inner = []) ∨
        ∀ idx ∈ s.fulltext, ¬ IsNamed s.unicode sql idx))

/-! ## The text that comes out -/

section
variable {same : Char → Char → Prop} {columns : List String}

theorem rewritten_callless {out rest : List Char} : ∀ {text : List Char} {prev : Option Char} {mode : Mode}, Callless prev mode text rest →
    Rewritten same columns (text.getLast?.or prev) (mode.behind text rest) rest out →
    Rewritten same columns prev mode (text ++ rest) (text ++ out)
  | [], prev, mode, _, h => h
  | c :: cs, prev, mode, hno, h => by
    refine .char hno.1 (rewritten_callless hno.2 ?_)
    rw [Mode.behind] at h
    rw [List.getLast?_cons] at h
    cases hlast : cs.getLast? with
    | none =>
      rw [hlast] at h
      exact h
    | some d =>
      rw [hlast] at h
      exact h

theorem conditionText_plain {c : String} {pattern : List Char} (hc : '"' ∉ c.toList) (hpattern : quoteChar ∉ pattern) :
    conditionText (c, pattern) = "CAST(\"" ++ c ++ "\" AS VARCHAR) ILIKE " ++ String.singleton quoteChar ++ String.ofList pattern ++
      String.singleton quoteChar := by
  rw [conditionText, Quoting.enclose, Quoting.enclose, Quoting.double_of_notMem hc, Quoting.double_of_notMem hpattern]
  apply String.toList_inj.mp
  simp only [String.toList_append, String.toList_ofList, String.toList_singleton]
  simp

theorem predicate_plain {columns : List String} {value : List Char} (hcolumns : ∀ c ∈ columns, '"' ∉ c.toList) (hquote : quoteChar ∉ value) :
    fulltextPredicate columns value = predicateText (columns.map fun c => (c, '%' :: (value ++ ['%']))) := by
  have hpattern : quoteChar ∉ '%' :: (value ++ ['%']) := by
    have hpercent : quoteChar ≠ '%' := by decide
    simp [hquote, hpercent]
  rw [fulltextPredicate, predicateText, List.map_map, Tui.replaceFrom_double, Quoting.double_of_notMem hquote]
  congr 4
  refine List.map_congr_left fun c hc => ?_
  rw [Function.comp_apply, conditionText_plain (hcolumns c hc) hpattern]
  apply String.toList_inj.mp
  simp

/-- The conditions find the value in the columns of the index. -/
theorem predicate_finds {columns : List String} {value : List Char} (hne : columns ≠ []) (hcolumns : ∀ c ∈ columns, '"' ∉ c.toList)
    (hvalue : PlainValue value) : FindsValue same columns value (fulltextPredicate columns value) := by
  refine ⟨columns.map fun c => (c, '%' :: (value ++ ['%'])), by simpa using hne, predicate_plain hcolumns hvalue.quote, ?_⟩
  intro row
  constructor
  · rintro ⟨condition, hcondition, content, hcontent, hlike⟩
    obtain ⟨c, hc, rfl⟩ := List.mem_map.mp hcondition
    exact ⟨c, hc, content, hcontent, (Patterns.like_contains hvalue.pattern).mp hlike⟩
  · rintro ⟨c, hc, content, hcontent, hfound⟩
    exact ⟨_, List.mem_map.mpr ⟨c, hc, rfl⟩, content, hcontent, (Patterns.like_contains hvalue.pattern).mpr hfound⟩

end

/-! ## The first call -/

theorem callName_ascii : callName.all (fun d => d.toNat < 128) = true := by decide

theorem replaceFirst_at {call new after : List Char} (hcall : call ≠ []) : ∀ {before : List Char},
    (∀ p r, before ++ (call ++ after) = p ++ (call ++ r) → before.length ≤ p.length) →
    replaceFirst call new (before ++ (call ++ after)) = before ++ (new ++ after)
  | [], _ => by
    obtain ⟨c, tail, rfl⟩ := List.exists_cons_of_ne_nil hcall
    have hstart : (c :: tail).isPrefixOf (c :: (tail ++ after)) = true := List.isPrefixOf_iff_prefix.mpr ⟨after, rfl⟩
    rw [List.nil_append, List.cons_append, replaceFirst, if_pos hstart, ← List.cons_append, List.drop_left, List.nil_append]
  | c :: before, hfirst => by
    have hlater : ¬ call.isPrefixOf (c :: (before ++ (call ++ after))) = true := by
      intro hstart
      obtain ⟨r, hr⟩ := List.isPrefixOf_iff_prefix.mp hstart
      have hle := hfirst [] r hr.symm
      simp at hle
    have htail : replaceFirst call new (before ++ (call ++ after)) = before ++ (new ++ after) := replaceFirst_at hcall fun p r heq => by
      have hle := hfirst (c :: p) r (congrArg (c :: ·) heq)
      simpa using hle
    rw [List.cons_append, replaceFirst, if_neg hlater, htail]
    rfl

/-- The text of the call is nowhere before its name. -/
theorem call_first {m : CaseMapping} {before words behind inner after : List Char} (h : FoundInPlace m callName before words behind)
    (hbehind : behind = inner ++ after) : ∀ p r, before ++ ((words ++ inner) ++ after) = p ++ ((words ++ inner) ++ r) →
      before.length ≤ p.length := by
  intro p r heq
  refine Nat.not_lt.mp fun hlt => ?_
  have hsql : before ++ words ++ behind = p ++ words ++ (inner ++ r) := by
    rw [hbehind]
    simpa [List.append_assoc] using heq
  have hcopy : m.toUppercase (before ++ words ++ behind) = m.toUppercase p ++ callName ++ m.toUppercase (inner ++ r) := by
    rw [hsql, copy_split callName_ascii h.upper]
  have hle := h.first _ _ hcopy
  have hsplit : ∃ d, before = p ++ d := by
    have htake := congrArg (List.take p.length) heq
    rw [List.take_left, List.take_append_of_le_length (Nat.le_of_lt hlt)] at htake
    refine ⟨before.drop p.length, ?_⟩
    conv_lhs => rw [← List.take_append_drop p.length before, htake]
  obtain ⟨d, rfl⟩ := hsplit
  have hkept := h.kept
  rw [toUppercase_append, bytes_append] at hkept
  have hd : d ≠ [] := by
    rintro rfl
    simp at hlt
  -- the part between would start with the name, so its upper case is not empty
  obtain ⟨c, d, rfl⟩ := List.exists_cons_of_ne_nil hd
  have hc : c.toNat < 128 := by
    have hwords : words ≠ [] := by
      rintro rfl
      exact absurd h.upper (by decide)
    obtain ⟨w, words, rfl⟩ := List.exists_cons_of_ne_nil hwords
    have hsame : c = w := by
      simp only [List.append_assoc, List.cons_append] at heq
      exact (List.cons.inj (List.append_cancel_left heq)).1
    rw [hsame]
    exact words_ascii callName_ascii h.upper w (List.mem_cons_self ..)
  have hpositive : 0 < bytes (m.toUppercase (c :: d)) := by
    have hcons := toUppercase_append m [c] d
    have hone : m.toUppercase [c] = [c.toUpper] := toUppercase_ascii m (by simpa using hc)
    rw [List.singleton_append, hone] at hcons
    rw [hcons, bytes_append]
    exact Nat.add_pos_left (bytes_pos (by simp)) _
  omega

/-- The argument is read as its value. -/
theorem term_value {front value back : List Char} (hfront : front.all isWhitespace = true) (hback : back.all isWhitespace = true)
    (hvalue : PlainValue value) :
    argumentOf (front ++ (quoteChar :: (value ++ quoteChar :: back))) = value := by
  have hkeep {p : Char → Bool} {text : List Char} (hfirst : ∀ c, text.head? = some c → p c = false)
      (hlast : ∀ c, text.getLast? = some c → p c = false) : trimMatches p text = text := by
    have hdrop {text : List Char} (h : ∀ c, text.head? = some c → p c = false) : text.dropWhile p = text := by
      cases text with
      | nil => rfl
      | cons c text => rw [List.dropWhile_cons, if_neg (by rw [h c rfl]; exact Bool.false_ne_true)]
    rw [trimMatches, hdrop hfirst, hdrop (by rw [List.head?_reverse]; exact hlast), List.reverse_reverse]
  have htrim : trim (front ++ (quoteChar :: (value ++ quoteChar :: back))) = quoteChar :: (value ++ [quoteChar]) := by
    have hdrop : (front ++ (quoteChar :: (value ++ quoteChar :: back))).dropWhile isWhitespace = quoteChar :: (value ++ quoteChar :: back) := by
      rw [List.dropWhile_append_of_pos (List.all_eq_true.mp hfront), List.dropWhile_cons, if_neg (by decide)]
    have hreverse : (quoteChar :: (value ++ quoteChar :: back)).reverse = back.reverse ++ (quoteChar :: (value.reverse ++ [quoteChar])) := by
      simp
    have hback' : ∀ c ∈ back.reverse, isWhitespace c = true := fun c hc => List.all_eq_true.mp hback c (List.mem_reverse.mp hc)
    rw [trim, trimMatches, hdrop, hreverse, List.dropWhile_append_of_pos hback', List.dropWhile_cons, if_neg (by decide)]
    simp
  have hquotes : trimMatches (· = quoteChar) (quoteChar :: (value ++ [quoteChar])) = value := by
    have hno : ∀ c ∈ value, c ≠ quoteChar := fun c hc heq => hvalue.quote (heq ▸ hc)
    obtain ⟨c, tail, hcons⟩ := List.exists_cons_of_ne_nil hvalue.nonempty
    have hfirst : (value ++ [quoteChar]).dropWhile (fun d => decide (d = quoteChar)) = value ++ [quoteChar] := by
      rw [hcons, List.cons_append, List.dropWhile_cons, if_neg]
      simpa using hno c (hcons ▸ List.mem_cons_self ..)
    have hlast : value.reverse.dropWhile (fun d => decide (d = quoteChar)) = value.reverse := by
      cases hrev : value.reverse with
      | nil => rfl
      | cons d tail =>
        have hd : d ∈ value := List.mem_reverse.mp (hrev ▸ List.mem_cons_self ..)
        rw [List.dropWhile_cons, if_neg]
        simpa using hno d hd
    rw [trimMatches, List.dropWhile_cons, if_pos (by simp), hfirst, List.reverse_append, List.reverse_singleton, List.singleton_append,
      List.dropWhile_cons, if_pos (by simp), hlast, List.reverse_reverse]
  rw [argumentOf, htrim, hquotes, unquote]
  refine hkeep ?_ ?_
  · intro c hc
    exact decide_eq_false fun heq => hvalue.ends.1 (heq ▸ hc)
  · intro c hc
    exact decide_eq_false fun heq => hvalue.ends.2 (heq ▸ hc)

section
variable {s : Session} {table : String} {before words behind value after : List Char} {idx : FulltextIndexDef}

theorem OneCall.result (h : OneCall s table before words behind value after idx) :
    (rewriteFulltextMatchSql s (before ++ words ++ behind)).result () = .ok (before ++ (fulltextPredicate idx.columns value ++ after)) := by
  obtain ⟨front, back, hbehind, hfront, hback⟩ := h.argument
  have hfind := h.place.find callName_ascii
  have hslice : sliceFrom (before ++ words ++ behind) (bytes before + bytes callName) = some behind := slice_after callName_ascii h.place.upper
  have hclose : findChar (fun c => decide (c = ')')) behind = some (bytes (front ++ (quoteChar :: (value ++ quoteChar :: back)))) := by
    rw [hbehind]
    refine findChar_at (by simp) fun d hd => decide_eq_false ?_
    rintro rfl
    have hspace {gap : List Char} (hgap : gap.all isWhitespace = true) : ')' ∉ gap :=
      fun hmem => absurd (List.all_eq_true.mp hgap _ hmem) (by decide)
    have hquote : ')' ≠ quoteChar := by decide
    simp only [List.mem_append, List.mem_cons, hspace hfront, hspace hback, h.plain.paren, hquote, or_self] at hd
  have hinner : sliceTo behind (bytes (front ++ (quoteChar :: (value ++ quoteChar :: back)))) =
      some (front ++ (quoteChar :: (value ++ quoteChar :: back))) := by
    rw [hbehind, sliceTo_append]
  have hcall : slice (before ++ words ++ behind) (bytes before)
      (bytes before + bytes callName + bytes (front ++ (quoteChar :: (value ++ quoteChar :: back))) + 1) =
        some (words ++ (front ++ (quoteChar :: (value ++ quoteChar :: back)) ++ [')'])) := by
    have hsql : before ++ words ++ behind =
        before ++ (words ++ (front ++ (quoteChar :: (value ++ quoteChar :: back)) ++ [')'])) ++ after := by
      rw [hbehind]
      simp only [List.append_assoc, List.cons_append, List.nil_append]
    rw [hsql]
    refine slice_whole before _ after rfl ?_
    have hone : bytes [')'] = 1 := by decide
    rw [bytes_append words, bytes_words callName_ascii h.place.upper, bytes_append _ [')'], hone]
    omega
  unfold CaseMapping.toUppercase callName at hfind
  unfold callName at hslice hcall
  unfold rewriteFulltextMatchSql
  rw [result_findIn_copy, hfind]
  dsimp only
  rw [hslice, result_orStop]
  dsimp only
  rw [hclose]
  dsimp only
  rw [hinner, result_orStop]
  dsimp only
  have hterm := term_value hfront hback h.plain
  rw [argumentOf] at hterm
  rw [hterm, if_neg h.plain.nonempty]
  split
  · next hnone =>
    have hnamed := List.find?_eq_none.mp hnone idx h.index.1
    rw [Bool.or_eq_true] at hnamed
    exact absurd h.index.2.2 hnamed
  · next other hother =>
    have hnamed := List.find?_some hother
    rw [Bool.or_eq_true] at hnamed
    have hcolumns := (h.others other (List.mem_of_find?_eq_some hother) (.inr hnamed)).2
    have hinner : behind = (front ++ (quoteChar :: (value ++ quoteChar :: back)) ++ [')']) ++ after := by
      rw [hbehind, List.append_assoc _ [')']]
      rfl
    have hfirst := call_first h.place hinner
    have hsql : before ++ words ++ behind =
        before ++ ((words ++ (front ++ (quoteChar :: (value ++ quoteChar :: back)) ++ [')'])) ++ after) := by
      rw [hbehind]
      simp only [List.append_assoc, List.cons_append, List.nil_append]
    rw [hcall, result_orStop, hcolumns, hsql]
    dsimp only
    rw [replaceFirst_at (by simp) hfirst]
    rfl

theorem OneCall.perm (h : OneCall s table before words behind value after idx) {fulltext : List FulltextIndexDef}
    (hperm : fulltext.Perm s.fulltext) : OneCall { s with fulltext := fulltext } table before words behind value after idx :=
  { h with
    index := ⟨hperm.mem_iff.mpr h.index.1, h.index.2⟩
    others := fun other hother => h.others other (hperm.mem_iff.mp hother) }

theorem OneCall.isCall (h : OneCall s table before words behind value after idx) :
    ∃ call, words ++ behind = call ++ after ∧ IsCall call value := by
  obtain ⟨front, back, hbehind, hfront, hback⟩ := h.argument
  have hname : callName = "FTS_MATCH".toList ++ ['('] := rfl
  have hwords := h.place.upper
  rw [hname] at hwords
  obtain ⟨name, paren, rfl, hletters, hparen⟩ := List.map_eq_append_iff.mp hwords
  rw [single_of_toUpper (by decide) hparen, hbehind]
  refine ⟨name ++ ([] ++ '(' :: (front ++ (Quoting.enclose quoteChar value ++ (back ++ [')'])))), ?_,
    name, [], front, back, rfl, hletters, rfl, hfront, hback⟩
  rw [Quoting.enclose, Quoting.double_of_notMem h.plain.quote]
  simp only [List.append_assoc, List.cons_append, List.nil_append]

theorem OneCall.rewritten {same : Char → Char → Prop} (h : OneCall s table before words behind value after idx) :
    Rewritten same (indexedColumns s.fulltext table) none .code (before ++ (words ++ behind))
      (before ++ (fulltextPredicate idx.columns value ++ after)) := by
  obtain ⟨call, hsplit, hcall⟩ := h.isCall
  have hcolumns (c : String) : c ∈ indexedColumns s.fulltext table ↔ c ∈ idx.columns := by
    rw [indexedColumns, List.mem_flatMap]
    constructor
    · rintro ⟨other, hother, hc⟩
      obtain ⟨hother, htable⟩ := List.mem_filter.mp hother
      rwa [(h.others other hother (.inl (of_decide_eq_true htable))).2] at hc
    · intro hc
      exact ⟨idx, List.mem_filter.mpr ⟨h.index.1, decide_eq_true h.index.2.1⟩, hc⟩
  have hpredicate : FindsValue same idx.columns value (fulltextPredicate idx.columns value) :=
    predicate_finds h.columns.1 h.columns.2 h.plain
  obtain ⟨conditions, hne, htext, htrue⟩ := hpredicate
  have hfinds : FindsValue same (indexedColumns s.fulltext table) value (fulltextPredicate idx.columns value) := by
    refine ⟨conditions, hne, htext, fun row => (htrue row).trans ?_⟩
    simp only [hcolumns]
  have hafter : Rewritten same (indexedColumns s.fulltext table) (some ')') .code (after ++ []) (after ++ []) :=
    rewritten_callless h.only.2 .done
  rw [List.append_nil] at hafter
  refine rewritten_callless h.only.1 ?_
  rw [h.code]
  refine .call ⟨rfl, ?_, hsplit, hcall⟩ hfinds hafter
  rw [Option.or_none]
  exact h.word

/-- Without a call the text stays. -/
theorem NoCall.result {sql : List Char} (h : NoCall s sql) : (rewriteFulltextMatchSql s sql).result () = .ok sql := by
  obtain ⟨-, hnone | ⟨before, words, behind, rfl, hplace, hnothing⟩⟩ := h
  · unfold CaseMapping.toUppercase callName at hnone
    unfold rewriteFulltextMatchSql
    rw [result_findIn_copy, hnone]
    rfl
  · have hfind := hplace.find callName_ascii
    have hslice : sliceFrom (before ++ words ++ behind) (bytes before + bytes callName) = some behind :=
      slice_after callName_ascii hplace.upper
    unfold CaseMapping.toUppercase callName at hfind
    unfold callName at hslice
    unfold rewriteFulltextMatchSql
    rw [result_findIn_copy, hfind]
    dsimp only
    rw [hslice, result_orStop]
    dsimp only
    obtain hparen | ⟨inner, after, rfl, hparen, hempty⟩ | hno := hnothing
    · cases hclose : findChar (fun c => decide (c = ')')) behind with
      | none => rfl
      | some close =>
        obtain ⟨inner, c, rest, rfl, hc, -⟩ := findChar_split hclose
        obtain rfl := of_decide_eq_true hc
        exact absurd (List.mem_append_right inner (List.mem_cons_self ..)) hparen
    · have hclose : findChar (fun c => decide (c = ')')) (inner ++ ')' :: after) = some (bytes inner) :=
        findChar_at (by simp) fun d hd => decide_eq_false fun heq => hparen (heq ▸ hd)
      rw [argumentOf] at hempty
      rw [hclose]
      dsimp only
      rw [sliceTo_append, result_orStop]
      dsimp only
      rw [if_pos hempty]
      rfl
    · cases hclose : findChar (fun c => decide (c = ')')) behind with
      | none => rfl
      | some close =>
        obtain ⟨inner, c, rest, rfl, -, rfl⟩ := findChar_split hclose
        dsimp only
        rw [sliceTo_append, result_orStop]
        dsimp only
        split
        · rfl
        · split
          · rfl
          · next other hother =>
            have hnamed := List.find?_some hother
            rw [Bool.or_eq_true] at hnamed
            exact absurd hnamed (hno other (List.mem_of_find?_eq_some hother))

theorem NoCall.perm {sql : List Char} (h : NoCall s sql) {fulltext : List FulltextIndexDef} (hperm : fulltext.Perm s.fulltext) :
    NoCall { s with fulltext := fulltext } sql := by
  obtain ⟨hcalls, hnone | ⟨before, words, behind, hsql, hplace, hnothing⟩⟩ := h
  · exact ⟨hcalls, .inl hnone⟩
  · refine ⟨hcalls, .inr ⟨before, words, behind, hsql, hplace, hnothing.imp_right (Or.imp_right ?_)⟩⟩
    intro hno idx hidx
    exact hno idx (hperm.mem_iff.mp hidx)

end

/-- **Calls of `fts_match` are written as they are to be** in a text without one, and in a text with one that is in order. -/
theorem fulltext_match_exact (same : Char → Char → Prop) (s : Session) (table : String) {sql : List Char}
    (h : NoCall s sql ∨ ∃ before words behind value after idx, sql = before ++ words ++ behind ∧
      OneCall s table before words behind value after idx) : FulltextExact same s table sql := by
  obtain hno | ⟨before, words, behind, value, after, idx, rfl, hone⟩ := h
  · constructor
    · have hkept : Rewritten same (indexedColumns s.fulltext table) none .code (sql ++ []) (sql ++ []) := rewritten_callless hno.1 .done
      rw [List.append_nil] at hkept
      exact ⟨sql, hno.result, hkept⟩
    · intro fulltext hperm
      rw [(hno.perm hperm).result, hno.result]
  · constructor
    · refine ⟨_, hone.result, ?_⟩
      rw [List.append_assoc]
      exact hone.rewritten
    · intro fulltext hperm
      rw [(hone.perm hperm).result, hone.result]

/-- A text that stays as it is has no call. -/
theorem callless_of_rewritten {same : Char → Char → Prop} {columns : List String} {prev : Option Char} {mode : Mode} {sql text : List Char}
    (h : Rewritten same columns prev mode sql text) : text = sql → Callless prev mode sql [] := by
  induction h with
  | done => exact fun _ => trivial
  | @char prev mode c sql text hno _ ih =>
    intro heq
    rw [Callless, List.append_nil]
    exact ⟨hno, ih (List.cons.inj heq).2⟩
  | @call prev mode sql call value rest predicate text hcall hfinds _ _ =>
    intro heq
    obtain ⟨-, -, hsplit, name, gap, front, back, rfl, hname, -⟩ := hcall
    obtain ⟨conditions, -, rfl, -⟩ := hfinds
    cases name with
    | nil => cases hname
    | cons c name =>
      have hfirst := congrArg List.head? (heq.trans hsplit)
      have hparen : (predicateText conditions).head? = some '(' := by
        rw [predicateText, String.toList_append, String.toList_append]
        rfl
      rw [List.head?_append, hparen] at hfirst
      have hc : '(' = c := by simpa using hfirst
      have hletter : c.toUpper = 'F' := (List.cons.inj hname).1
      rw [← hc] at hletter
      exact absurd hletter (by decide)

theorem callless_split {rest : List Char} : ∀ {text : List Char} {prev : Option Char} {mode : Mode} {more : List Char},
    Callless prev mode (text ++ more) rest → Callless (text.getLast?.or prev) (mode.behind text (more ++ rest)) more rest
  | [], _, _, _, h => h
  | c :: cs, prev, mode, more, h => by
    rw [List.cons_append, Callless, List.append_assoc] at h
    have htail := callless_split h.2
    rw [Mode.behind, List.getLast?_cons]
    cases hlast : cs.getLast? with
    | none =>
      rw [hlast] at htail
      exact htail
    | some d =>
      rw [hlast] at htail
      exact htail

/-- The name starts nowhere in the first text, with the second behind it. -/
def nameless : List Char → List Char → Bool
  | [], _ => true
  | c :: cs, rest => ((c :: (cs ++ rest)).take 9).map Char.toUpper ≠ "FTS_MATCH".toList && nameless cs rest

theorem callless_of_nameless {rest : List Char} : ∀ {text : List Char} {prev : Option Char} {mode : Mode},
    nameless text rest = true → Callless prev mode text rest
  | [], _, _, _ => trivial
  | c :: cs, prev, mode, h => by
    rw [nameless, Bool.and_eq_true] at h
    refine ⟨?_, callless_of_nameless h.2⟩
    rintro call value rest' ⟨-, -, hsplit, name, gap, front, back, rfl, hname, -⟩
    have hlength : name.length = 9 := by
      have hnine := congrArg List.length hname
      rw [List.length_map] at hnine
      exact hnine
    refine absurd ?_ (of_decide_eq_true h.1)
    rw [hsplit, List.append_assoc, List.take_left' hlength]
    exact hname

/-- A session with an index on the text of the documents. -/
def docsSession : Session := { plainSession with fulltext := [⟨"docs", ["body"]⟩] }

theorem one_call_exact : FulltextExact (· = ·) docsSession "docs" "SELECT id FROM docs WHERE fts_match('rust') ORDER BY id".toList := by
  have hsplit : "SELECT id FROM docs WHERE fts_match('rust') ORDER BY id".toList =
      "SELECT id FROM docs WHERE ".toList ++ "fts_match(".toList ++ "'rust') ORDER BY id".toList := rfl
  have hfind : find callName (docsSession.unicode.toUppercase ("SELECT id FROM docs WHERE ".toList ++ "fts_match(".toList ++
      "'rust') ORDER BY id".toList)) = some 26 := by decide +kernel
  have hplain : "rust".toList.all (fun c => c ≠ '%' ∧ c ≠ '_' ∧ c ≠ '\\') = true := by decide
  refine fulltext_match_exact _ docsSession "docs" (.inr ⟨_, _, _, "rust".toList, " ORDER BY id".toList, ⟨"docs", ["body"]⟩, hsplit, ?_⟩)
  exact {
    place := ⟨rfl, by decide +kernel, fun p r hcopy => find_first hfind hcopy⟩
    argument := ⟨[], [], rfl, rfl, rfl⟩
    plain := ⟨List.cons_ne_nil _ _, fun c hc => of_decide_eq_true (List.all_eq_true.mp hplain c hc), by decide, by decide, by decide⟩
    code := rfl
    word := rfl
    only := ⟨callless_of_nameless (by decide +kernel), callless_of_nameless (by decide +kernel)⟩
    index := ⟨List.mem_singleton_self _, rfl, .inr (by decide +kernel)⟩
    columns := ⟨List.cons_ne_nil _ _, by decide⟩
    others := by
      intro other hother _
      rw [List.mem_singleton.mp hother]
      exact ⟨rfl, rfl⟩ }

/-- A call stays if two spaces are behind FROM, and so does a second call. -/
theorem calls_stay : ¬ FulltextExact (· = ·) docsSession "docs" "SELECT id FROM  docs WHERE fts_match('a')".toList ∧
    (rewriteFulltextMatchSql docsSession "SELECT id FROM docs WHERE fts_match('a') OR fts_match('b')".toList).result () =
      .ok "SELECT id FROM docs WHERE (CAST(\"body\" AS VARCHAR) ILIKE '%a%') OR fts_match('b')".toList ∧
    (rewriteFulltextMatchSql docsSession "SELECT id FROM docs_old WHERE fts_match('_')".toList).result () =
      .ok "SELECT id FROM docs_old WHERE (CAST(\"body\" AS VARCHAR) ILIKE '%_%')".toList := by
  refine ⟨?_, by decide +kernel, by decide +kernel⟩
  intro h
  obtain ⟨text, htext, hrewritten⟩ := h.rewritten
  have hstays : (rewriteFulltextMatchSql docsSession "SELECT id FROM  docs WHERE fts_match('a')".toList).result () =
      .ok "SELECT id FROM  docs WHERE fts_match('a')".toList := by decide +kernel
  rw [hstays] at htext
  cases htext
  have hcallless := callless_of_rewritten hrewritten rfl
  have hsplit : "SELECT id FROM  docs WHERE fts_match('a')".toList = "SELECT id FROM  docs WHERE ".toList ++ "fts_match('a')".toList := rfl
  rw [hsplit] at hcallless
  have hcall := callless_split hcallless
  refine hcall.1 "fts_match('a')".toList ['a'] [] ⟨rfl, rfl, rfl, "fts_match".toList, [], [], [], rfl, rfl, rfl, rfl, rfl⟩

end PotatoDB.Texts
