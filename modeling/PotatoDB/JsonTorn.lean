import PotatoDB.JsonText

/-!
# Torn documents

A reader that stops before the end of a text stops at the same place of a longer text, and the reader of an array or an
object never stops at the end of a text that goes on. So no proper beginning of a written array or object is a document.
-/

namespace Codecs

/-- More text behind an end that was not the end of the text changes nothing. -/
def Extends {α : Type} (item : Reader α) : Prop :=
  ∀ s a rest, item s = some (a, rest) → rest ≠ [] → ∀ t, item (s ++ t) = some (a, rest ++ t)

/-- More text behind the end changes nothing. -/
def Closes {α : Type} (item : Reader α) : Prop :=
  ∀ s a rest, item s = some (a, rest) → ∀ t, item (s ++ t) = some (a, rest ++ t)

theorem Closes.extends {α : Type} {item : Reader α} (h : Closes item) : Extends item :=
  fun s a rest hs _ => h s a rest hs

theorem Closes.map {α β : Type} {item : Reader α} (h : Closes item) (f : α → β) : Closes fun s => (item s).map fun r => (f r.1, r.2) := by
  intro s b rest hs t
  simp only [Option.map_eq_some_iff, Prod.exists, Prod.mk.injEq] at hs
  obtain ⟨a, _, hitem, rfl, rfl⟩ := hs
  simp only [h s a _ hitem t, Option.map_some]

theorem skipBlank_extend {s : List Char} (h : skipBlank s ≠ []) (t : List Char) : skipBlank (s ++ t) = skipBlank s ++ t := by
  induction s with
  | nil => exact absurd rfl h
  | cons c s ih =>
    by_cases hc : isBlank c = true
    · simp only [skipBlank, List.dropWhile_cons, hc, ite_true, List.cons_append] at h ih ⊢
      exact ih h
    · simp [skipBlank, hc]

theorem readDigits_extend {s : List Char} (h : (readDigits s).2 ≠ []) (t : List Char) :
    readDigits (s ++ t) = ((readDigits s).1, (readDigits s).2 ++ t) := by
  induction s with
  | nil => exact absurd rfl h
  | cons c s ih =>
    by_cases hc : c.isDigit = true
    · simp only [readDigits, List.dropWhile_cons, List.takeWhile_cons, hc, ite_true, List.cons_append, Prod.mk.injEq] at h ih ⊢
      exact ⟨congrArg (c :: ·) (ih h).1, (ih h).2⟩
    · simp [readDigits, hc]

theorem closes_readHex : Closes readHex := by
  intro s n rest hs t
  unfold readHex at hs
  split at hs
  · simp only [Option.bind_eq_bind, Option.bind_eq_some_iff, Option.pure_def, Option.some.injEq, Prod.mk.injEq] at hs
    obtain ⟨digits, hdigits, rfl, rfl⟩ := hs
    simp only [List.cons_append, readHex, hdigits, Option.bind_eq_bind, Option.bind_some, Option.pure_def]
  · cases hs

theorem closes_readUnit : Closes readUnit := by
  intro s c rest hs t
  unfold readUnit at hs ⊢
  simp only [Option.bind_eq_bind, Option.bind_eq_some_iff, Prod.exists] at hs
  obtain ⟨n, mid, hn, hs⟩ := hs
  rw [closes_readHex s n mid hn t]
  simp only [Option.bind_eq_bind, Option.bind_some]
  by_cases hplain : n < 0xD800 ∨ 0xE000 ≤ n
  · rw [if_pos hplain] at hs ⊢
    simp_all
  rw [if_neg hplain] at hs ⊢
  by_cases hlow : 0xDC00 ≤ n
  · rw [if_pos hlow] at hs
    cases hs
  rw [if_neg hlow] at hs ⊢
  split at hs
  · simp only [Option.bind_eq_some_iff, Prod.exists] at hs
    obtain ⟨m, rest', hm, hs⟩ := hs
    by_cases hpair : 0xDC00 ≤ m ∧ m < 0xE000
    · rw [if_pos hpair] at hs
      simp only [List.cons_append, closes_readHex _ m rest' hm t, Option.bind_some, if_pos hpair]
      simp_all
    · rw [if_neg hpair] at hs
      cases hs
  · cases hs

theorem closes_readChar : Closes readChar := by
  intro s c rest hs t
  unfold readChar at hs
  split at hs
  · exact closes_readUnit _ c rest hs t
  · rename_i e rest' hu
    simp only [Option.map_eq_some_iff, Prod.mk.injEq] at hs
    obtain ⟨_, hlookup, rfl, rfl⟩ := hs
    rw [List.cons_append, List.cons_append, readChar, hlookup]
    · rfl
    · exact hu
  · rename_i d rest' _ _
    split at hs
    · cases hs
    · rename_i hd
      simp only [Option.some.injEq, Prod.mk.injEq] at hs
      obtain ⟨rfl, rfl⟩ := hs
      rw [List.cons_append, readChar]
      · rw [if_neg hd]
      · simp_all
      · simp_all
  · cases hs

theorem readChars_extend : ∀ {fuel : Nat} {s cs rest : List Char}, readChars fuel s = some (cs, rest) →
    ∀ {fuel' : Nat} (t : List Char), fuel ≤ fuel' → readChars fuel' (s ++ t) = some (cs, rest ++ t) := by
  intro fuel
  induction fuel with
  | zero =>
    intro s cs rest hs
    cases hs
  | succ fuel ih =>
    intro s cs rest hs fuel' t hle
    obtain ⟨fuel', rfl⟩ : ∃ k, fuel' = k + 1 := ⟨fuel' - 1, by omega⟩
    rw [readChars] at hs ⊢
    by_cases hquote : s.head? = some '"'
    · obtain ⟨c, s', rfl⟩ : ∃ c s', s = c :: s' := by cases s <;> simp_all
      simp_all
    · rw [if_neg hquote] at hs
      simp only [Option.bind_eq_bind, Option.bind_eq_some_iff, Prod.exists, Option.pure_def, Option.some.injEq, Prod.mk.injEq] at hs
      obtain ⟨c, mid, hc, cs', rest', hcs, rfl, rfl⟩ := hs
      have hhead : (s ++ t).head? ≠ some '"' := by cases s <;> simp_all [readChar]
      rw [if_neg hhead, closes_readChar s c mid hc t]
      simp only [Option.bind_eq_bind, Option.bind_some, ih hcs t (show fuel ≤ fuel' by omega), Option.pure_def]

theorem closes_readString : Closes readString := by
  intro s text rest hs t
  unfold readString at hs ⊢
  by_cases hquote : s.head? = some '"'
  · obtain ⟨c, s', rfl⟩ : ∃ c s', s = c :: s' := by cases s <;> simp_all
    rw [if_pos hquote] at hs
    rw [if_pos (by simpa using hquote)]
    simp only [Option.map_eq_some_iff, Prod.mk.injEq, Prod.exists] at hs
    obtain ⟨cs, _, hcs, rfl, rfl⟩ := hs
    simp only [List.cons_append, List.tail_cons] at hcs ⊢
    rw [readChars_extend hcs t (by simp)]
    rfl
  · rw [if_neg hquote] at hs
    cases hs

theorem readFraction_extend : Extends readFraction := by
  intro s ds rest hs hrest t
  unfold readFraction at hs
  split at hs
  · rename_i rest'
    split at hs
    · cases hs
    · rename_i hdigits
      simp only [Option.some.injEq, Prod.mk.injEq] at hs
      obtain ⟨rfl, rfl⟩ := hs
      rw [List.cons_append, readFraction, readDigits_extend hrest t, if_neg hdigits]
  · rename_i hdot
    simp only [Option.some.injEq, Prod.mk.injEq] at hs
    obtain ⟨rfl, rfl⟩ := hs
    obtain ⟨c, s', rfl⟩ := List.exists_cons_of_ne_nil hrest
    rw [List.cons_append, readFraction]
    intro rest' heq
    exact hdot s' (by rw [(List.cons.inj heq).1])

theorem readExponent_extend : Extends readExponent := by
  intro s ds rest hs hrest t
  cases s with
  | nil =>
    simp only [readExponent, Option.some.injEq, Prod.mk.injEq] at hs
    exact absurd hs.2.symm hrest
  | cons c s =>
    rw [List.cons_append]
    rw [readExponent] at hs ⊢
    dsimp only at hs ⊢
    by_cases he : c = 'e' ∨ c = 'E'
    · rw [if_pos he] at hs ⊢
      split at hs
      · cases hs
      · rename_i hdigits
        simp only [Option.some.injEq, Prod.mk.injEq] at hs
        obtain ⟨rfl, rfl⟩ := hs
        have hne : s ≠ [] := by
          intro h
          subst h
          exact hdigits rfl
        obtain ⟨d, s', rfl⟩ := List.exists_cons_of_ne_nil hne
        have hsign : splitSign (d :: s' ++ t) = ((splitSign (d :: s')).1, (splitSign (d :: s')).2 ++ t) := by
          simp only [List.cons_append, splitSign]
          split <;> rfl
        simp only [hsign, readDigits_extend hrest t, if_neg hdigits]
    · rw [if_neg he] at hs ⊢
      simp only [Option.some.injEq, Prod.mk.injEq] at hs ⊢
      exact ⟨hs.1, by rw [← hs.2]; rfl⟩

theorem readUnsigned_extend (negative : Bool) : Extends (readUnsigned negative) := by
  intro s j rest hs hrest t
  unfold readUnsigned at hs ⊢
  dsimp only at hs ⊢
  split at hs
  · cases hs
  · rename_i hlead
    simp only [Option.bind_eq_bind, Option.bind_eq_some_iff, Prod.exists, Option.pure_def, Option.some.injEq, Prod.mk.injEq] at hs
    obtain ⟨fraction, mid, hfraction, exponent, rest', hexponent, rfl, rfl⟩ := hs
    have hmid : mid ≠ [] := by
      intro h
      subst h
      simp only [readExponent, Option.some.injEq, Prod.mk.injEq] at hexponent
      exact hrest hexponent.2.symm
    have hdigits : (readDigits s).2 ≠ [] := by
      intro h
      rw [h] at hfraction
      simp only [readFraction, Option.some.injEq, Prod.mk.injEq] at hfraction
      exact hmid hfraction.2.symm
    rw [readDigits_extend hdigits t, if_neg hlead]
    simp only [readFraction_extend _ _ _ hfraction hmid t, readExponent_extend _ _ _ hexponent hrest t, Option.bind_eq_bind,
      Option.bind_some, Option.pure_def]

theorem readNumber_extend : Extends readNumber := by
  intro s j rest hs hrest t
  unfold readNumber at hs
  split at hs
  · exact readUnsigned_extend true _ j rest hs hrest t
  · rename_i hminus
    have hread := readUnsigned_extend false s j rest hs hrest t
    cases s with
    | nil => cases hs
    | cons c s =>
      rw [List.cons_append] at hread ⊢
      rw [readNumber]
      · exact hread
      · intro rest' heq
        exact hminus s (by rw [(List.cons.inj heq).1])

theorem closes_readWord (word : String) (j : Json) : Closes (readWord word j) := by
  intro s j' rest hs t
  unfold readWord at hs ⊢
  split at hs
  · rename_i h
    simp only [Option.some.injEq, Prod.mk.injEq] at hs
    obtain ⟨rfl, rfl⟩ := hs
    obtain ⟨rest, rfl⟩ := List.isPrefixOf_iff_prefix.mp h
    rw [List.append_assoc, if_pos (by simp)]
    simp [← String.length_toList]
  · cases hs

section Brackets

variable {α : Type} {item : Reader α} (hitem : Extends item) (right : Char)
include hitem

theorem readItems_extend : ∀ {fuel : Nat} {s : List Char} {as : List α} {rest : List Char}, readItems item right fuel s = some (as, rest) →
    ∀ {fuel' : Nat} (t : List Char), fuel ≤ fuel' → readItems item right fuel' (s ++ t) = some (as, rest ++ t) := by
  intro fuel
  induction fuel with
  | zero =>
    intro s as rest hs
    cases hs
  | succ fuel ih =>
    intro s as rest hs fuel' t hle
    obtain ⟨fuel', rfl⟩ : ∃ k, fuel' = k + 1 := ⟨fuel' - 1, by omega⟩
    rw [readItems] at hs ⊢
    split at hs
    · cases hs
    · rename_i c mid hskip
      rw [skipBlank_extend (by rw [hskip]; exact List.cons_ne_nil _ _) t, hskip, List.cons_append]
      dsimp only
      by_cases hright : c = right
      · rw [if_pos hright] at hs ⊢
        simp_all
      · rw [if_neg hright] at hs ⊢
        by_cases hcomma : c = ','
        · rw [if_pos hcomma] at hs ⊢
          simp only [Option.bind_eq_bind, Option.bind_eq_some_iff, Prod.exists, Option.pure_def, Option.some.injEq, Prod.mk.injEq] at hs
          obtain ⟨a, mid', ha, as', rest', has, rfl, rfl⟩ := hs
          have hmid : mid' ≠ [] := by
            intro h
            subst h
            cases fuel <;> simp [readItems, skipBlank] at has
          simp only [hitem _ a mid' ha hmid t, ih has t (show fuel ≤ fuel' by omega), Option.bind_eq_bind, Option.bind_some,
            Option.pure_def]
        · rw [if_neg hcomma] at hs
          cases hs

theorem closes_readBody (hblank : ∀ s, skipBlank s = [] → item s = none) : Closes (readBody item right) := by
  intro s as rest hs t
  unfold readBody at hs ⊢
  by_cases hright : (skipBlank s).head? = some right
  · have hne : skipBlank s ≠ [] := by
      intro h
      rw [h] at hright
      cases hright
    obtain ⟨c, mid, hskip⟩ := List.exists_cons_of_ne_nil hne
    rw [skipBlank_extend hne t]
    rw [hskip] at hs hright ⊢
    rw [if_pos hright] at hs
    rw [List.cons_append, if_pos (by simpa using hright)]
    simp only [List.tail_cons, Option.some.injEq, Prod.mk.injEq] at hs ⊢
    obtain ⟨rfl, rfl⟩ := hs
    exact ⟨rfl, rfl⟩
  · rw [if_neg hright] at hs
    simp only [Option.bind_eq_bind, Option.bind_eq_some_iff, Prod.exists, Option.pure_def, Option.some.injEq, Prod.mk.injEq] at hs
    obtain ⟨a, mid, ha, as', rest', has, rfl, rfl⟩ := hs
    have hmid : mid ≠ [] := by
      intro h
      subst h
      simp [readItems] at has
    have hne : skipBlank s ≠ [] := by
      intro h
      rw [hblank s h] at ha
      cases ha
    obtain ⟨c, mid', hskip⟩ := List.exists_cons_of_ne_nil hne
    have hlength : mid.length ≤ (mid ++ t).length := by simp
    rw [hskip] at hright
    rw [skipBlank_extend hne t, hskip, List.cons_append, if_neg (by simpa using hright)]
    simp only [hitem s a mid ha hmid t, readItems_extend hitem right has t hlength, Option.bind_eq_bind, Option.bind_some,
      Option.pure_def]

end Brackets

theorem readField_extend {value : Reader Json} (hvalue : Extends value) : Extends (readField value) := by
  intro s f rest hs hrest t
  unfold readField at hs ⊢
  simp only [Option.bind_eq_bind, Option.bind_eq_some_iff, Prod.exists] at hs
  obtain ⟨name, mid, hname, hs⟩ := hs
  have hne : skipBlank s ≠ [] := by
    intro h
    rw [h] at hname
    cases hname
  rw [skipBlank_extend hne t, closes_readString _ name mid hname t]
  simp only [Option.bind_eq_bind, Option.bind_some]
  split at hs
  · rename_i mid' hcolon
    simp only [Option.bind_eq_some_iff, Prod.exists, Option.pure_def, Option.some.injEq, Prod.mk.injEq] at hs
    obtain ⟨j, rest', hj, rfl, rfl⟩ := hs
    rw [skipBlank_extend (by rw [hcolon]; exact List.cons_ne_nil _ _) t, hcolon, List.cons_append]
    simp only [hvalue _ j rest' hj hrest t, Option.bind_some, Option.pure_def]
  · cases hs

theorem readField_blank (value : Reader Json) (s : List Char) (h : skipBlank s = []) : readField value s = none := by
  rw [readField, h]
  rfl

theorem readWith_nothing (inner : Option (Reader Json)) (s : List Char) (h : skipBlank s = []) : readWith inner s = none := by
  rw [readWith, h]

/-- The reader of the elements, if there is one. -/
def ExtendsInner (inner : Option (Reader Json)) : Prop :=
  ∀ value ∈ inner, Extends value ∧ ∀ s, skipBlank s = [] → value s = none

theorem readToken_brackets {inner : Option (Reader Json)} (hinner : ExtendsInner inner) {c : Char} (hc : c = '[' ∨ c = '{') :
    Closes (readToken inner c) := by
  intro s j rest hs t
  obtain rfl | rfl := hc
  · simp only [readToken, Option.bind_eq_some_iff] at hs ⊢
    obtain ⟨value, hvalue, hs⟩ := hs
    obtain ⟨hextends, hblank⟩ := hinner value hvalue
    exact ⟨value, hvalue, (closes_readBody hextends ']' hblank).map Json.array s j rest hs t⟩
  · simp only [readToken, Option.bind_eq_some_iff] at hs ⊢
    obtain ⟨value, hvalue, hs⟩ := hs
    obtain ⟨hextends, hblank⟩ := hinner value hvalue
    exact ⟨value, hvalue,
      (closes_readBody (readField_extend hextends) '}' (readField_blank value)).map Json.object s j rest hs t⟩

theorem readToken_extend {inner : Option (Reader Json)} (hinner : ExtendsInner inner) (c : Char) : Extends (readToken inner c) := by
  intro s j rest hs hrest t
  unfold readToken at hs ⊢
  split at hs
  · exact closes_readString.map Json.string _ j rest hs t
  · exact readToken_brackets hinner (.inl rfl) s j rest hs t
  · exact readToken_brackets hinner (.inr rfl) s j rest hs t
  · exact closes_readWord "null" .null _ j rest hs t
  · exact closes_readWord "true" (.bool true) _ j rest hs t
  · exact closes_readWord "false" (.bool false) _ j rest hs t
  · exact readNumber_extend _ j rest hs hrest t

theorem readWith_extend {inner : Option (Reader Json)} (hinner : ExtendsInner inner) : Extends (readWith inner) := by
  intro s j rest hs hrest t
  unfold readWith at hs ⊢
  split at hs
  · cases hs
  · rename_i c mid hskip
    rw [skipBlank_extend (by rw [hskip]; exact List.cons_ne_nil _ _) t, hskip, List.cons_append]
    exact readToken_extend hinner c mid j rest hs hrest t

theorem readValue_inner : ∀ n, ∃ inner, readValue n = readWith inner ∧ ExtendsInner inner := by
  intro n
  induction n with
  | zero => exact ⟨none, rfl, fun value h => by cases h⟩
  | succ n ih =>
    obtain ⟨inner, hinner, hextends⟩ := ih
    refine ⟨some (readValue n), rfl, ?_⟩
    intro value hvalue
    obtain rfl : readValue n = value := by simpa using hvalue
    rw [hinner]
    exact ⟨readWith_extend hextends, readWith_nothing inner⟩

/-- **A proper beginning of an array or an object is no document.** -/
theorem parse_torn {c : Char} (hc : c = '[' ∨ c = '{') {body torn rest : List Char} {j : Json}
    (hread : readValue 127 (c :: body) = some (j, [])) (hsplit : c :: body = torn ++ rest) (hrest : rest ≠ []) :
    Json.parse torn = none := by
  obtain ⟨inner, hinner, hextends⟩ := readValue_inner 127
  have hblank : isBlank c = false := by obtain rfl | rfl := hc <;> decide
  cases torn with
  | nil => rw [Json.parse, hinner, readWith_nothing inner [] rfl]; rfl
  | cons d torn =>
    obtain ⟨rfl, rfl⟩ := List.cons.inj hsplit
    rw [hinner, readWith_cons hblank] at hread
    rw [Json.parse, hinner, readWith_cons hblank]
    cases htorn : readToken inner c torn with
    | none => rfl
    | some r =>
      obtain ⟨j', rest'⟩ := r
      have hmore := readToken_brackets hextends hc torn j' rest' htorn rest
      have hsame := hread.symm.trans hmore
      simp only [Option.some.injEq, Prod.mk.injEq] at hsame
      exact absurd (List.append_eq_nil_iff.mp hsame.2.symm).2 hrest

/-- An array or an object. -/
def Json.isBracketed : Json → Bool
  | .array _ => true
  | .object _ => true
  | _ => false

theorem head_enclose (style : JsonStyle) (d : Nat) (left right : Char) (texts : List (List Char)) :
    ∃ body, enclose style d left right texts = left :: body := by
  cases texts with
  | nil => exact ⟨[right], rfl⟩
  | cons e es => exact ⟨_, rfl⟩

/-- What was written and is torn is not read. -/
theorem parse_print_torn (style : JsonStyle) {j : Json} (h : j.Within 127) (hj : j.isBracketed = true) {torn rest : List Char}
    (hsplit : j.print style 0 = torn ++ rest) (hrest : rest ≠ []) : Json.parse torn = none := by
  have hread := (reads_print style 0 h).read [] [] rfl ends_nil
  rw [List.nil_append, List.append_nil] at hread
  obtain ⟨c, body, hc, hbody⟩ : ∃ c body, (c = '[' ∨ c = '{') ∧ j.print style 0 = c :: body := by
    cases j with
    | array js =>
      obtain ⟨body, hbody⟩ := head_enclose style 0 '[' ']' (printElements style 1 js)
      exact ⟨'[', body, .inl rfl, by rw [Json.print, hbody]⟩
    | object fs =>
      obtain ⟨body, hbody⟩ := head_enclose style 0 '{' '}' (printFields style 1 fs)
      exact ⟨'{', body, .inr rfl, by rw [Json.print, hbody]⟩
    | null => cases hj
    | bool b => cases hj
    | integer n => cases hj
    | decimal text => cases hj
    | string s => cases hj
  rw [hbody] at hread hsplit
  exact parse_torn hc hread hsplit hrest

end Codecs
