import PotatoDB.Dml
import PotatoDB.ParametersSound

/-!
# The columns of EXCLUDED

An upsert puts the values of a row into its expressions by one textual replacement for each column
and spelling, in the order in which a hash map is iterated. This is the simultaneous substitution
where, at every stage, a name stands only in the places of its references.
-/

namespace PotatoDB

/-! ## Replacing one name after the other -/

/-- A part of an expression: a reference to a column of EXCLUDED as it is written, or anything else. -/
inductive ExprPart where
  | text (s : List Char)
  | reference (written : List Char) (column : String)
deriving DecidableEq

/-- Names and what they are replaced by. -/
abbrev Names := List (List Char × List Char)

def replaceNames (names : Names) (text : List Char) : List Char :=
  names.foldl (fun text n => replaceFrom n.1 n.2 0 text) text

/-- A part when some of the names have been replaced. -/
def ExprPart.shown (done : Names) : ExprPart → List Char
  | .text s => s
  | .reference written _ => (done.lookup written).getD written

theorem shown_reference (done : Names) (written : List Char) (column : String) :
    (ExprPart.reference written column).shown done = (done.lookup written).getD written := rfl

def shownText (done : Names) (parts : List ExprPart) : List Char := parts.flatMap (ExprPart.shown done)

/-- The reference is written as the name. -/
def ExprPart.Writes (name : List Char) : ExprPart → Prop
  | .text _ => False
  | .reference written _ => written = name

instance (name : List Char) : (p : ExprPart) → Decidable (p.Writes name)
  | .text _ => inferInstanceAs (Decidable False)
  | .reference written _ => inferInstanceAs (Decidable (written = name))

/-- The name starts in the text only where a reference that is written so does. -/
def Alone (done : Names) (name : List Char) : List ExprPart → Prop
  | [] => True
  | p :: ps =>
    (∀ i < (p.shown done).length, name <+: (p.shown done).drop i ++ shownText done ps → i = 0 ∧ p.Writes name) ∧
      Alone done name ps

instance decidableAlone (done : Names) (name : List Char) : (ps : List ExprPart) → Decidable (Alone done name ps)
  | [] => inferInstanceAs (Decidable True)
  | p :: ps =>
    have : Decidable (Alone done name ps) := decidableAlone done name ps
    inferInstanceAs (Decidable ((∀ i < (p.shown done).length, name <+: (p.shown done).drop i ++ shownText done ps →
      i = 0 ∧ p.Writes name) ∧ Alone done name ps))

/-- Whichever names have been replaced, each of the others is alone. -/
def Steadfast (names : Names) (parts : List ExprPart) : Prop :=
  ∀ done ∈ names.sublists, ∀ n ∈ names, n ∉ done → Alone done n.1 parts

/-- One name is replaced in its places. -/
theorem replaceFrom_shown (new : List Char) {done : Names} {name : List Char} (hne : name ≠ []) (hnew : done.lookup name = none) :
    ∀ {parts : List ExprPart}, Alone done name parts →
    replaceFrom name new 0 (shownText done parts) = shownText ((name, new) :: done) parts
  | [], _ => rfl
  | p :: ps, h => by
    have ih := replaceFrom_shown new hne hnew h.2
    unfold shownText at ih ⊢
    rw [List.flatMap_cons, List.flatMap_cons]
    by_cases hw : p.Writes name
    · cases p with
      | text s => exact hw.elim
      | reference written column =>
        obtain rfl : written = name := hw
        have hbefore : (ExprPart.reference written column).shown done = written := by
          rw [shown_reference, hnew]
          rfl
        have hafter : (ExprPart.reference written column).shown ((written, new) :: done) = new := by
          rw [shown_reference, List.lookup_cons_self]
          rfl
        rw [hbefore, hafter, replaceFrom_match hne, ih]
    · have hsame : p.shown ((name, new) :: done) = p.shown done := by
        cases p with
        | text s => rfl
        | reference written column =>
          have hb : (written == name) = false := beq_false_of_ne hw
          rw [shown_reference, shown_reference, List.lookup_cons, hb]
      rw [hsame, replaceFrom_keep, ih]
      rintro s t hst ht hpre
      have hlen : s.length < (p.shown done).length := by
        rw [hst, List.length_append]
        have := List.length_pos_iff.mpr ht
        omega
      refine hw (h.1 s.length hlen ?_).2
      rw [hst, List.drop_left]
      exact hpre

/-! ## All names, in any order -/

theorem lookup_iff_mem {α β : Type} [BEq α] [LawfulBEq α] {l : List (α × β)} (hn : (l.map (·.1)).Nodup) {a : α} {b : β} :
    l.lookup a = some b ↔ (a, b) ∈ l := by
  induction l with
  | nil => simp
  | cons p l ih =>
    rw [List.map_cons, List.nodup_cons] at hn
    rw [List.lookup_cons, List.mem_cons]
    by_cases ha : a = p.1
    · rw [show (a == p.1) = true from beq_iff_eq.mpr ha]
      constructor
      · intro h
        exact .inl (by rw [ha, ← Option.some.inj h])
      · intro h
        cases h with
        | inl h => rw [← h]
        | inr h => exact absurd (List.mem_map_of_mem h) (ha ▸ hn.1)
    · rw [beq_false_of_ne ha]
      refine (ih hn.2).trans ?_
      constructor
      · exact .inr
      · intro h
        cases h with
        | inl h => exact absurd (congrArg Prod.fst h) ha
        | inr h => exact h

theorem lookup_congr {α β : Type} [BEq α] [LawfulBEq α] {l l' : List (α × β)} (hn : (l.map (·.1)).Nodup)
    (hn' : (l'.map (·.1)).Nodup) (h : ∀ p, p ∈ l ↔ p ∈ l') (a : α) : l.lookup a = l'.lookup a := by
  apply Option.ext
  intro b
  rw [lookup_iff_mem hn, lookup_iff_mem hn']
  exact h _

theorem lookup_reverse {α β : Type} [BEq α] [LawfulBEq α] {l : List (α × β)} (hn : (l.map (·.1)).Nodup) (a : α) :
    l.reverse.lookup a = l.lookup a := by
  refine lookup_congr ?_ hn (fun _ => List.mem_reverse) a
  rw [List.map_reverse, List.nodup_reverse]
  exact hn

section
variable {done done' : Names} (hsame : ∀ w, done.lookup w = done'.lookup w)
include hsame

theorem shown_congr (p : ExprPart) : p.shown done = p.shown done' := by
  cases p with
  | text s => rfl
  | reference written column => rw [shown_reference, shown_reference, hsame]

theorem shownText_congr (ps : List ExprPart) : shownText done ps = shownText done' ps :=
  List.flatMap_congr fun p _ => shown_congr hsame p

theorem Alone.congr {name : List Char} : ∀ {ps : List ExprPart}, Alone done name ps → Alone done' name ps
  | [], _ => trivial
  | p :: ps, h => by
    unfold Alone at h ⊢
    rw [← shown_congr hsame, ← shownText_congr hsame]
    exact ⟨h.1, h.2.congr⟩

end

/-- Names that stay alone are all replaced in their places, whatever the order. -/
theorem replaceNames_shown {names : Names} {parts : List ExprPart} (hn : (names.map (·.1)).Nodup)
    (hne : ∀ n ∈ names, n.1 ≠ []) (hs : Steadfast names parts) : ∀ (rest done : Names), (rest ++ done).Perm names →
    replaceNames rest (shownText done parts) = shownText (rest.reverse ++ done) parts
  | [], _, _ => rfl
  | n :: rest, done, hp => by
    have hin : n ∈ names := hp.mem_iff.mp List.mem_cons_self
    have hnodup : (((n :: rest) ++ done).map (·.1)).Nodup := (hp.map _).nodup_iff.mpr hn
    rw [List.cons_append, List.map_cons, List.nodup_cons, List.map_append, List.mem_append, not_or] at hnodup
    have hdone : (done.map (·.1)).Nodup := (List.nodup_append.mp hnodup.2).2.1
    have hfilter : ∀ p, p ∈ names.filter (· ∈ done) ↔ p ∈ done := by
      intro p
      simp only [List.mem_filter, decide_eq_true_eq, and_iff_right_iff_imp]
      exact fun hpd => hp.mem_iff.mp (List.mem_append_right _ hpd)
    have hnot : n ∉ done := fun h => hnodup.1.2 (List.mem_map_of_mem h)
    have halone : Alone done n.1 parts :=
      Alone.congr (lookup_congr (hn.sublist (List.filter_sublist.map _)) hdone hfilter)
        (hs _ (List.mem_sublists.mpr List.filter_sublist) n hin fun h => hnot ((hfilter n).mp h))
    have hnew : done.lookup n.1 = none := by
      cases hl : done.lookup n.1 with
      | none => rfl
      | some v => exact absurd (List.mem_map_of_mem (f := (·.1)) ((lookup_iff_mem hdone).mp hl)) hnodup.1.2
    have hstep := replaceFrom_shown n.2 (hne n hin) hnew halone
    rw [replaceNames, List.foldl_cons, hstep]
    rw [show rest.foldl (fun text n => replaceFrom n.1 n.2 0 text) _ = replaceNames rest _ from rfl]
    rw [replaceNames_shown hn hne hs rest ((n.1, n.2) :: done) (List.perm_middle.trans hp), List.reverse_cons,
      List.append_assoc, List.singleton_append]

/-! ## EXCLUDED -/

/-- The two spellings of the references to the columns. -/
def spellings (values : List (String × String)) : Names :=
  values.flatMap fun v => [(("EXCLUDED." ++ v.1).toList, v.2.toList), (("excluded." ++ v.1).toList, v.2.toList)]

theorem toList_replaceExcluded (values : List (String × String)) (text : String) :
    (replaceExcluded values text).toList = replaceNames (spellings values) text.toList := by
  induction values generalizing text with
  | nil => rfl
  | cons v values ih =>
    rw [replaceExcluded, List.foldl_cons]
    refine (ih _).trans ?_
    unfold replaceText spellings replaceNames
    rw [List.flatMap_cons, List.foldl_append, String.toList_ofList, String.toList_ofList]
    rfl

/-- The text of an expression. -/
def exprText (parts : List ExprPart) : List Char := shownText [] parts

/-- The part with the value of its column. -/
def ExprPart.filled (values : List (String × String)) : ExprPart → List Char
  | .text s => s
  | .reference written column => ((values.lookup column).map String.toList).getD written

/-- The references are written in one of the two spellings, and at every stage of the replacements each spelling stands
only in the places of its references. -/
structure Undisturbed (values : List (String × String)) (parts : List ExprPart) : Prop where
  spelled : ∀ p ∈ parts, ∀ written column, p = .reference written column →
    column ∈ values.map (·.1) ∧ (written = ("EXCLUDED." ++ column).toList ∨ written = ("excluded." ++ column).toList)
  alone : Steadfast (spellings values) parts

theorem excluded_ne_nil (start name : String) (h : start ≠ "") : (start ++ name).toList ≠ [] := by
  rw [String.toList_append]
  intro he
  exact h (String.toList_eq_nil_iff.mp (List.append_eq_nil_iff.mp he).1)

theorem spelling_inj {start c c' : String} (h : (start ++ c).toList = (start ++ c').toList) : c = c' := by
  rw [String.toList_append, String.toList_append] at h
  exact String.toList_injective (List.append_cancel_left h)

theorem spellings_ne (c c' : String) : ("EXCLUDED." ++ c).toList ≠ ("excluded." ++ c').toList := by
  rw [String.toList_append, String.toList_append]
  intro h
  have h : 'E' :: ("XCLUDED.".toList ++ c.toList) = 'e' :: ("xcluded.".toList ++ c'.toList) := h
  exact absurd (List.cons.inj h).1 (by decide)

theorem mem_spellings {values : List (String × String)} {n : List Char × List Char} :
    n ∈ spellings values ↔ ∃ v ∈ values, n = (("EXCLUDED." ++ v.1).toList, v.2.toList) ∨
      n = (("excluded." ++ v.1).toList, v.2.toList) := by
  unfold spellings
  rw [List.mem_flatMap]
  simp only [List.mem_cons, List.not_mem_nil, or_false]

theorem nodup_spellings {values : List (String × String)} (hn : (values.map (·.1)).Nodup) :
    ((spellings values).map (·.1)).Nodup := by
  induction values with
  | nil => exact List.nodup_nil
  | cons v values ih =>
    rw [List.map_cons, List.nodup_cons] at hn
    have hfresh : ∀ {start : String}, (start = "EXCLUDED." ∨ start = "excluded.") →
        (start ++ v.1).toList ∉ (spellings values).map (·.1) := by
      intro start hstart hin
      obtain ⟨n, hmem, he⟩ := List.mem_map.mp hin
      obtain ⟨u, hu, h⟩ := mem_spellings.mp hmem
      have hcol : u.1 ≠ v.1 := fun hc => hn.1 (hc ▸ List.mem_map_of_mem hu)
      cases hstart with
      | inl hs =>
        subst hs
        cases h with
        | inl h => exact hcol (spelling_inj (h ▸ he))
        | inr h => exact spellings_ne _ _ (h ▸ he).symm
      | inr hs =>
        subst hs
        cases h with
        | inl h => exact spellings_ne _ _ (h ▸ he)
        | inr h => exact hcol (spelling_inj (h ▸ he))
    show (_ :: _ :: (spellings values).map (·.1)).Nodup
    rw [List.nodup_cons, List.nodup_cons, List.mem_cons, not_or]
    exact ⟨⟨spellings_ne _ _, hfresh (.inl rfl)⟩, hfresh (.inr rfl), ih hn.2⟩

/-- **The chain of replacements is the simultaneous substitution**, whatever the order of the map, where nothing disturbs it. -/
theorem replaceExcluded_exact {values : List (String × String)} (hn : (values.map (·.1)).Nodup) {parts : List ExprPart}
    (h : Undisturbed values parts) (order : List (String × String)) (horder : order.Perm values) :
    replaceExcluded order (String.ofList (exprText parts)) = String.ofList (parts.flatMap (ExprPart.filled values)) := by
  have hperm : (spellings order).Perm (spellings values) := horder.flatMap_right _
  have hnodup := nodup_spellings hn
  apply String.toList_injective
  rw [toList_replaceExcluded, String.toList_ofList, String.toList_ofList]
  unfold exprText
  rw [replaceNames_shown hnodup ?_ h.alone (spellings order) [] (by rwa [List.append_nil]), List.append_nil]
  · refine List.flatMap_congr fun p hp => ?_
    cases p with
    | text s => rfl
    | reference written column =>
      obtain ⟨hcol, hwritten⟩ := h.spelled _ hp _ _ rfl
      obtain ⟨v, hv, rfl⟩ := List.mem_map.mp hcol
      have hlook : values.lookup v.1 = some v.2 := (lookup_iff_mem hn).mpr hv
      have hrev : ((spellings order).reverse.map (·.1)).Nodup := by
        rw [List.map_reverse, List.nodup_reverse]
        exact (hperm.map _).nodup_iff.mpr hnodup
      have hname : (spellings order).reverse.lookup written = some v.2.toList := by
        rw [lookup_iff_mem hrev, List.mem_reverse, hperm.mem_iff, mem_spellings]
        cases hwritten with
        | inl hw => exact ⟨v, hv, .inl (by rw [hw])⟩
        | inr hw => exact ⟨v, hv, .inr (by rw [hw])⟩
      rw [shown_reference, hname]
      unfold ExprPart.filled
      dsimp only
      rw [hlook]
      rfl
  · intro n hmem
    obtain ⟨v, -, hv⟩ := mem_spellings.mp hmem
    cases hv with
    | inl hv => exact hv ▸ excluded_ne_nil _ _ (by decide)
    | inr hv => exact hv ▸ excluded_ne_nil _ _ (by decide)

/-- `b || EXCLUDED.b || excluded.a`. -/
def concatParts : List ExprPart :=
  [.text "b || ".toList, .reference "EXCLUDED.b".toList "b", .text " || ".toList, .reference "excluded.a".toList "a"]

theorem undisturbed_concatParts : Undisturbed [("a", "1"), ("b", "'x'")] concatParts where
  spelled := by
    intro p hp written column he
    subst he
    simp only [concatParts, List.mem_cons, List.not_mem_nil, or_false, reduceCtorEq, false_or, ExprPart.reference.injEq] at hp
    cases hp with
    | inl h => exact ⟨by rw [h.2]; decide, .inl (by rw [h.1, h.2]; decide)⟩
    | inr h => exact ⟨by rw [h.2]; decide, .inr (by rw [h.1, h.2]; decide)⟩
  alone := by
    unfold Steadfast
    decide +kernel

theorem concat_replaced :
    replaceExcluded [("b", "'x'"), ("a", "1")] (String.ofList (exprText concatParts)) =
      String.ofList (concatParts.flatMap (ExprPart.filled [("a", "1"), ("b", "'x'")])) :=
  replaceExcluded_exact (by decide) undisturbed_concatParts _ (List.Perm.swap _ _ _)

/-- `EXCLUDED.ab` is taken for `EXCLUDED.a` when the column `a` comes first. -/
theorem prefix_replaced :
    replaceExcluded [("a", "1"), ("ab", "2")] (String.ofList (exprText [.reference "EXCLUDED.ab".toList "ab"])) = "1b" ∧
    replaceExcluded [("ab", "2"), ("a", "1")] (String.ofList (exprText [.reference "EXCLUDED.ab".toList "ab"])) = "2" ∧
    String.ofList ([ExprPart.reference "EXCLUDED.ab".toList "ab"].flatMap (ExprPart.filled [("a", "1"), ("ab", "2")])) = "2" := by
  decide +kernel

end PotatoDB
