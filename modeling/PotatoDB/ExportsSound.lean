import PotatoDB.Exports

/-!
# What the exports are read as

The CSV export and the JSON export are read back as the headers and the cells exactly where these hold
none of the characters that the two encoders leave as they are.
-/

namespace PotatoDB.Tui

/-! ## What a line of the export reads as -/

/-- A way of writing a field that no other field is taken for. -/
def WrittenAs (f : List Char → List Char) : Prop :=
  ∀ {v t r r' : List Char}, CsvField t v → Stops r → Stops r' → t ++ r = f v ++ r' → t = f v

theorem csvRecord_line {f : List Char → List Char} (hf : WrittenAs f) {v : List Char} {vs : List (List Char)} {t r r' : List Char}
    (h : CsvRecord t (v :: vs)) (hr : Stops r) (hr' : Stops r') (heq : t ++ r = [','].intercalate (f v :: vs.map f) ++ r') :
    (∀ w ∈ v :: vs, CsvField (f w) w) ∧ r = r' := by
  induction vs generalizing t v with
  | nil =>
    cases h with
    | last h =>
      rw [List.map_nil, List.intercalate_singleton] at heq
      obtain rfl := hf h hr hr' heq
      exact ⟨fun w hw => List.mem_singleton.mp hw ▸ h, List.append_cancel_left heq⟩
    | field _ hrest => cases hrest
  | cons w vs ih =>
    cases h with
    | field h hrest =>
      rw [List.map_cons, List.intercalate_cons_cons, List.append_assoc, List.append_assoc, List.append_assoc] at heq
      obtain rfl := hf h (stops_comma _) (stops_comma _) heq
      obtain ⟨hall, hrest⟩ := ih hrest (List.cons.inj (List.append_cancel_left heq)).2
      exact ⟨List.forall_mem_cons.mpr ⟨h, hall⟩, hrest⟩

theorem csvRecord_written {f : List Char → List Char} {v : List Char} {vs : List (List Char)} (h : ∀ w ∈ v :: vs, CsvField (f w) w) :
    CsvRecord ([','].intercalate (f v :: vs.map f)) (v :: vs) := by
  induction vs generalizing v with
  | nil =>
    rw [List.map_nil, List.intercalate_singleton]
    exact .last (h v List.mem_cons_self)
  | cons w vs ih =>
    rw [List.map_cons, List.intercalate_cons_cons, List.append_assoc]
    exact .field (h v List.mem_cons_self) (ih fun u hu => h u (List.mem_cons_of_mem _ hu))

theorem csvFile_line {f : List Char → List Char} (hf : WrittenAs f) (v : List Char) (vs : List (List Char)) (rest : List Char)
    (records : List (List (List Char))) : CsvFile ([','].intercalate (f v :: vs.map f) ++ '\n' :: rest) ((v :: vs) :: records) ↔
      (∀ w ∈ v :: vs, CsvField (f w) w) ∧ CsvFile rest records := by
  refine ⟨fun h => ?_, fun h => .record (csvRecord_written h.1) (.inl rfl) h.2⟩
  generalize heq : (_ ++ _ : List Char) = text at h
  cases h with
  | openEnd hne h =>
    rw [← List.append_nil text] at heq
    cases (csvRecord_line hf h stops_nil (stops_newline rest) heq.symm).2
  | record h hbr hrest =>
    obtain ⟨hall, hbreak⟩ := csvRecord_line hf h (stops_break hbr) (stops_newline rest) heq.symm
    obtain rfl := break_append_inj hbr (.inl rfl) hbreak
    exact ⟨hall, hrest⟩

/-! ## The fields of the export -/

/-- The number of quotes that a text starts with. -/
def leadingQuotes (s : List Char) : Nat := (s.takeWhile (· = '"')).length

theorem leadingQuotes_quote (s : List Char) : leadingQuotes ('"' :: s) = leadingQuotes s + 1 := by
  simp [leadingQuotes]

theorem leadingQuotes_ne {c : Char} (hc : c ≠ '"') (s : List Char) : leadingQuotes (c :: s) = 0 := by
  simp [leadingQuotes, hc]

theorem leadingQuotes_double (v s : List Char) {r : List Char} (hr : Stops r) :
    leadingQuotes (v ++ r) ≤ leadingQuotes (Quoting.double '"' v ++ s) := by
  induction v with
  | nil =>
    cases r with
    | nil => exact Nat.zero_le _
    | cons c r =>
      have hc : c ≠ '"' := fun he => hr.clear (congrArg some he)
      rw [List.nil_append, leadingQuotes_ne hc]
      exact Nat.zero_le _
  | cons c v ih =>
    rw [Quoting.double, List.flatMap_cons]
    by_cases hc : c = '"'
    · subst hc
      rw [if_pos rfl, List.cons_append, List.append_assoc, List.cons_append, List.cons_append, leadingQuotes_quote,
        leadingQuotes_quote, leadingQuotes_quote]
      exact Nat.le_succ_of_le (Nat.succ_le_succ ih)
    · rw [List.cons_append, leadingQuotes_ne hc]
      exact Nat.zero_le _

/-- A quoted field starts with more quotes than its value. -/
theorem enclose_ne_self {v r r' : List Char} (hr' : Stops r') : Quoting.enclose '"' v ++ r ≠ v ++ r' := by
  intro heq
  have hcount := leadingQuotes_double v ('"' :: r) hr'
  rw [← heq, Quoting.enclose, List.cons_append, List.append_assoc, leadingQuotes_quote] at hcount
  exact Nat.not_succ_le_self _ hcount

theorem writtenAs_raw : WrittenAs fun h => h := by
  intro v t r r' h hr hr' heq
  cases h with
  | plain => rfl
  | quoted => exact absurd heq (enclose_ne_self hr')

theorem replaceFrom_double (q : Char) (c : List Char) : replaceFrom [q] [q, q] 0 c = Quoting.double q c := by
  induction c with
  | nil => rfl
  | cons d c ih =>
    rw [replaceFrom, Quoting.double, List.flatMap_cons]
    by_cases hd : d = q
    · subst hd
      rw [if_pos (by simp [List.isPrefixOf]), if_pos rfl]
      exact congrArg ([d, d] ++ ·) ih
    · have hstart : [q].isPrefixOf (d :: c) = false := by simp [List.isPrefixOf, Ne.symm hd]
      rw [hstart, if_neg hd]
      exact congrArg (d :: ·) ih

theorem csvCell_eq (c : List Char) : csvCell c = if ',' ∈ c ∨ '"' ∈ c ∨ '\n' ∈ c then Quoting.enclose '"' c else c := by
  unfold csvCell
  rw [replaceFrom_double]
  rfl

theorem writtenAs_csvCell : WrittenAs csvCell := by
  intro v t r r' h hr hr' heq
  rw [csvCell_eq] at heq ⊢
  split_ifs at heq ⊢ with hmark
  · cases h with
    | plain hp =>
      rcases hmark with hm | hm | hm <;> cases hp _ hm
    | quoted => rfl
  · exact writtenAs_raw h hr hr' heq

theorem CsvField.plain_of_eq {t v : List Char} (h : CsvField t v) (heq : t = v) : ∀ c ∈ v, csvMark c = false := by
  cases h with
  | plain hp => exact hp
  | quoted => exact absurd (congrArg (· ++ []) heq) (enclose_ne_self stops_nil)

theorem csvField_self_iff {v : List Char} : CsvField v v ↔ ∀ c ∈ v, csvMark c = false :=
  ⟨fun h => h.plain_of_eq rfl, .plain⟩

theorem csvField_csvCell_iff {c : List Char} : CsvField (csvCell c) c ↔ ('\r' ∈ c → ',' ∈ c ∨ '"' ∈ c ∨ '\n' ∈ c) := by
  rw [csvCell_eq]
  split_ifs with hmark
  · exact ⟨fun _ _ => hmark, fun _ => .quoted c⟩
  · rw [csvField_self_iff]
    refine ⟨fun h hr => absurd (h _ hr) (by decide), fun h d hd => ?_⟩
    have hr : '\r' ∉ c := fun hr => hmark (h hr)
    simp only [not_or] at hmark
    unfold csvMark
    simp only [Bool.or_eq_false_iff, decide_eq_false_iff_not]
    refine ⟨⟨⟨?_, ?_⟩, ?_⟩, ?_⟩
    · rintro rfl
      exact hmark.1 hd
    · rintro rfl
      exact hmark.2.1 hd
    · rintro rfl
      exact hr hd
    · rintro rfl
      exact hmark.2.2 hd

theorem csvFile_rows {rows : List (List (List Char))} (hne : ∀ row ∈ rows, row ≠ []) :
    CsvFile (rows.flatMap fun row => [','].intercalate (row.map csvCell) ++ ['\n']) rows ↔
      ∀ row ∈ rows, ∀ c ∈ row, CsvField (csvCell c) c := by
  induction rows with
  | nil => exact ⟨fun _ => nofun, fun _ => .nil⟩
  | cons row rows ih =>
    obtain ⟨hrow, hrest⟩ := List.forall_mem_cons.mp hne
    obtain ⟨c, cs, rfl⟩ := List.exists_cons_of_ne_nil hrow
    rw [List.flatMap_cons, List.append_assoc, List.map_cons,
      List.forall_mem_cons (p := fun row => ∀ c ∈ row, CsvField (csvCell c) c)]
    exact (csvFile_line writtenAs_csvCell c cs _ rows).trans (and_congr_right fun _ => ih hrest)

/-- The headers and the cells that are read back from the CSV export. -/
theorem exportCsv_iff (r : QueryResults) (hrect : ∀ row ∈ r.rows, row.length = r.headers.length) :
    CsvFile r.exportCsv (r.headers :: r.rows) ↔ r.headers ≠ [] ∧ (∀ h ∈ r.headers, ∀ c ∈ h, csvMark c = false) ∧
      ∀ row ∈ r.rows, ∀ c ∈ row, '\r' ∈ c → ',' ∈ c ∨ '"' ∈ c ∨ '\n' ∈ c := by
  obtain ⟨headers, rows⟩ := r
  cases headers with
  | nil =>
    refine ⟨fun h => ?_, fun h => absurd rfl h.1⟩
    generalize QueryResults.exportCsv _ = text at h
    cases h with
    | openEnd _ h => cases h
    | record h => cases h
  | cons h hs =>
    have hne : ∀ row ∈ rows, row ≠ [] := by
      rintro row hrow rfl
      cases hrect [] hrow
    have hline := csvFile_line writtenAs_raw h hs (rows.flatMap fun row => [','].intercalate (row.map csvCell) ++ ['\n']) rows
    rw [List.map_id'] at hline
    refine hline.trans ?_
    rw [csvFile_rows hne]
    simp only [csvField_self_iff, csvField_csvCell_iff]
    exact ⟨fun hall => ⟨List.cons_ne_nil _ _, hall⟩, fun hall => hall.2⟩

/-! ## The strings of the JSON export -/

/-- A character that stands for itself in a string. -/
def jsonPlain (c : Char) : Prop := c ≠ '"' ∧ c ≠ '\\' ∧ 32 ≤ c.toNat

instance decidableJsonPlain (c : Char) : Decidable (jsonPlain c) := inferInstanceAs (Decidable (_ ∧ _ ∧ _))

theorem codeUnit_digits {digits : List Char} {n : Nat} (h : codeUnit digits = some n) :
    digits.length = 4 ∧ ∀ c ∈ digits, (hexDigit c).isSome = true := by
  unfold codeUnit at h
  split_ifs at h with hd
  exact hd

theorem notMem_codeUnit {digits : List Char} {n : Nat} (h : codeUnit digits = some n) {c : Char} (hc : hexDigit c = none) :
    c ∉ digits := by
  intro hm
  have hsome := (codeUnit_digits h).2 c hm
  rw [hc] at hsome
  cases hsome

theorem jsonEscapes_letter {e c : Char} (h : (e, c) ∈ jsonEscapes) : e ≠ '\n' ∧ e ≠ ' ' := by
  have hall : ∀ m ∈ jsonEscapes, m.1 ≠ '\n' ∧ m.1 ≠ ' ' := by decide
  exact hall _ h

/-- The least number of characters that a string is written with. -/
def jsonWeight (c : Char) : Nat := if jsonPlain c then 1 else 2

theorem jsonWeight_le (c : Char) : jsonWeight c ≤ 2 := by
  unfold jsonWeight
  split_ifs <;> decide

theorem one_le_jsonWeight (c : Char) : 1 ≤ jsonWeight c := by
  unfold jsonWeight
  split_ifs <;> decide

theorem jsonWeight_plain {c : Char} (h : jsonPlain c) : jsonWeight c = 1 := if_pos h

theorem JsonChars.weight_le {t v : List Char} (h : JsonChars t v) : (v.map jsonWeight).sum ≤ t.length := by
  induction h with
  | nil => exact Nat.le_refl _
  | char hquote hback hctl _ ih =>
    rw [List.map_cons, List.sum_cons, jsonWeight_plain ⟨hquote, hback, hctl⟩, List.length_cons]
    omega
  | @escape e c _ _ _ _ ih =>
    have hc := jsonWeight_le c
    rw [List.map_cons, List.sum_cons, List.length_cons, List.length_cons]
    omega
  | @unit digits _ _ n hunit _ _ ih =>
    have hc := jsonWeight_le (Char.ofNat n)
    have hlen := (codeUnit_digits hunit).1
    rw [List.map_cons, List.sum_cons, List.length_cons, List.length_cons, List.length_append]
    omega
  | @surrogates digits digits' _ _ n n' hunit hunit' _ _ _ ih =>
    have hc := jsonWeight_le (Char.ofNat (0x10000 + (n - 0xD800) * 0x400 + (n' - 0xDC00)))
    have hlen := (codeUnit_digits hunit).1
    rw [List.map_cons, List.sum_cons, List.length_cons, List.length_cons, List.length_append, List.length_cons, List.length_cons,
      List.length_append]
    omega

theorem JsonChars.newline_notMem {t v : List Char} (h : JsonChars t v) : '\n' ∉ t := by
  have hdigits : ∀ {digits : List Char} {n : Nat}, codeUnit digits = some n → '\n' ∉ digits := fun h => notMem_codeUnit h (by decide)
  induction h with
  | nil => nofun
  | @char c _ _ _ _ hctl _ ih =>
    have hc : '\n' ≠ c := by
      rintro rfl
      exact absurd hctl (by decide)
    simp [hc, ih]
  | escape he _ ih => simp [ih, (jsonEscapes_letter he).1.symm]
  | unit hunit _ _ ih => simp [ih, hdigits hunit]
  | surrogates hunit hunit' _ _ _ ih => simp [ih, hdigits hunit, hdigits hunit']

theorem JsonChars.value_nil {v : List Char} (h : JsonChars [] v) : v = [] := by
  cases h
  rfl

/-- A string that ends in a blank has a value that does. -/
theorem JsonChars.blank_last {t v : List Char} (h : JsonChars t v) (hlast : t.getLast? = some ' ') : v.getLast? = some ' ' := by
  have hdigits : ∀ {digits : List Char} {n : Nat}, codeUnit digits = some n → digits.getLast? ≠ some ' ' :=
    fun h hl => notMem_codeUnit h (by decide) (List.mem_of_getLast? hl)
  have hletter : ∀ {e c : Char} {text : List Char}, (e, c) ∈ jsonEscapes → ('\\' :: e :: text).getLast? = some ' ' →
      text.getLast? = some ' ' := by
    intro e c text he hl
    cases text with
    | nil => exact absurd (Option.some.inj hl) (jsonEscapes_letter he).2
    | cons d text => simpa using hl
  have hrest : ∀ {digits text : List Char} {n : Nat}, codeUnit digits = some n →
      ('\\' :: 'u' :: (digits ++ text)).getLast? = some ' ' → text.getLast? = some ' ' := by
    intro digits text n hunit hl
    obtain ⟨d, ds, rfl⟩ := List.exists_cons_of_ne_nil fun he : digits = [] => by simpa [he] using (codeUnit_digits hunit).1
    cases text with
    | nil =>
      refine absurd ?_ (hdigits hunit)
      simpa using hl
    | cons e text => exact (List.getLast?_append_of_ne_nil ('\\' :: 'u' :: (d :: ds)) (List.cons_ne_nil e text)).symm.trans hl
  induction h with
  | nil => cases hlast
  | @char c text _ _ _ _ h ih =>
    cases text with
    | nil =>
      rw [h.value_nil]
      exact hlast
    | cons d text => exact List.mem_getLast?_cons (ih (by simpa using hlast))
  | escape he _ ih => exact List.mem_getLast?_cons (ih (hletter he hlast))
  | unit hunit _ _ ih => exact List.mem_getLast?_cons (ih (hrest hunit hlast))
  | surrogates hunit hunit' _ _ _ ih => exact List.mem_getLast?_cons (ih (hrest hunit' (hrest hunit hlast)))

/-- A quote in a string is behind a backslash. -/
def Escaped (t : List Char) : Prop := ∀ x y, t = x ++ '"' :: y → x.getLast? = some '\\'

theorem Escaped.append {s t : List Char} (hs : '"' ∉ s) (h : Escaped t) : Escaped (s ++ t) := by
  intro x y heq
  rcases List.append_eq_append_iff.mp heq with ⟨a, rfl, ha⟩ | ⟨a, rfl, ha⟩
  · rw [List.getLast?_append, h a y ha]
    rfl
  · cases a with
    | nil =>
      have hnone := h [] y ha.symm
      cases hnone
    | cons c a =>
      obtain ⟨rfl, -⟩ := List.cons.inj ha
      exact absurd (List.mem_append_right _ List.mem_cons_self) hs

theorem JsonChars.escaped {t v : List Char} (h : JsonChars t v) : Escaped t := by
  have hquote : ∀ {digits : List Char} {n : Nat}, codeUnit digits = some n → '"' ∉ '\\' :: 'u' :: digits := by
    intro digits n hunit
    simp [notMem_codeUnit hunit (show hexDigit '"' = none by decide)]
  induction h with
  | nil => intro x y heq; simp at heq
  | @char c text _ hc _ _ _ ih => exact Escaped.append (s := [c]) (by simpa using Ne.symm hc) ih
  | @escape e c text _ _ _ ih =>
    intro x y heq
    match x, heq with
    | [], heq => cases (List.cons.inj heq).1
    | [d], heq => rw [← (List.cons.inj heq).1]; rfl
    | d :: d' :: x, heq =>
      have hx := ih x y (List.cons.inj (List.cons.inj heq).2).2
      exact List.mem_getLast?_cons (List.mem_getLast?_cons hx)
  | unit hunit _ _ ih => exact Escaped.append (hquote hunit) ih
  | surrogates hunit hunit' _ _ _ ih => exact Escaped.append (hquote hunit) (Escaped.append (hquote hunit') ih)

/-! ## What the encoder writes -/

def escapeCell (v : List Char) : List Char := replaceFrom ['"'] ['\\', '"'] 0 v

theorem escapeCell_cons (c : Char) (v : List Char) :
    escapeCell (c :: v) = (if c = '"' then ['\\', '"'] else [c]) ++ escapeCell v := by
  unfold escapeCell
  rw [replaceFrom]
  by_cases hc : c = '"'
  · subst hc
    rfl
  · have hstart : ['"'].isPrefixOf (c :: v) = false := by simp [List.isPrefixOf, Ne.symm hc]
    rw [hstart, if_neg hc]
    rfl

theorem length_escapeCell_le (v : List Char) : (escapeCell v).length ≤ (v.map jsonWeight).sum := by
  induction v with
  | nil => exact Nat.le_refl _
  | cons c v ih =>
    have hc : (if c = '"' then ['\\', '"'] else [c]).length ≤ jsonWeight c := by
      by_cases hq : c = '"'
      · subst hq
        decide
      · rw [if_neg hq]
        exact one_le_jsonWeight c
    rw [escapeCell_cons, List.length_append, List.map_cons, List.sum_cons]
    exact Nat.add_le_add hc ih

/-- A cell that stands for itself, its quotes escaped. -/
def cellPlain (v : List Char) : Prop := ∀ c ∈ v, c ≠ '\\' ∧ 32 ≤ c.toNat

instance decidableCellPlain (v : List Char) : Decidable (cellPlain v) := List.decidableBAll _ v

theorem cellPlain_of_length {v : List Char} (h : (v.map jsonWeight).sum ≤ (escapeCell v).length) : cellPlain v := by
  induction v with
  | nil => nofun
  | cons c v ih =>
    rw [escapeCell_cons, List.length_append, List.map_cons, List.sum_cons] at h
    have hrest := length_escapeCell_le v
    by_cases hq : c = '"'
    · subst hq
      have hw : jsonWeight '"' = 2 := rfl
      rw [hw, if_pos rfl, List.length_cons, List.length_singleton] at h
      exact List.forall_mem_cons.mpr ⟨by decide, ih (by omega)⟩
    · rw [if_neg hq, List.length_singleton] at h
      have hplain : jsonPlain c := by_contra fun hp => by
        rw [jsonWeight, if_neg hp] at h
        omega
      rw [jsonWeight_plain hplain] at h
      exact List.forall_mem_cons.mpr ⟨hplain.2, ih (by omega)⟩

theorem jsonChars_escapeCell {v : List Char} (h : cellPlain v) : JsonChars (escapeCell v) v := by
  induction v with
  | nil => exact .nil
  | cons c v ih =>
    obtain ⟨hc, hv⟩ := List.forall_mem_cons.mp h
    rw [escapeCell_cons]
    by_cases hq : c = '"'
    · subst hq
      exact .escape (by decide) (ih hv)
    · rw [if_neg hq]
      exact .char hq hc.1 hc.2 (ih hv)

theorem length_le_weight (h : List Char) : h.length ≤ (h.map jsonWeight).sum := by
  induction h with
  | nil => exact Nat.le_refl _
  | cons c h ih =>
    have hc := one_le_jsonWeight c
    rw [List.length_cons, List.map_cons, List.sum_cons]
    omega

theorem jsonPlain_of_length {h : List Char} (hlen : (h.map jsonWeight).sum ≤ h.length) : ∀ c ∈ h, jsonPlain c := by
  induction h with
  | nil => nofun
  | cons c h ih =>
    have hrest := length_le_weight h
    rw [List.length_cons, List.map_cons, List.sum_cons] at hlen
    have hplain : jsonPlain c := by_contra fun hp => by
      rw [jsonWeight, if_neg hp] at hlen
      omega
    rw [jsonWeight_plain hplain] at hlen
    exact List.forall_mem_cons.mpr ⟨hplain, ih (by omega)⟩

theorem jsonChars_self {h : List Char} (hh : ∀ c ∈ h, jsonPlain c) : JsonChars h h := by
  induction h with
  | nil => exact .nil
  | cons c h ih =>
    obtain ⟨hc, hrest⟩ := List.forall_mem_cons.mp hh
    exact .char hc.1 hc.2.1 hc.2.2 (ih hrest)

/-- A name is read as a header only when it is written as one: the quote that opens the cell follows a blank. -/
theorem read_name {name h X Y : List Char} (hn : JsonChars name h)
    (heq : name ++ '"' :: X = h ++ '"' :: ':' :: ' ' :: '"' :: Y) : (∀ c ∈ h, jsonPlain c) ∧ X = ':' :: ' ' :: '"' :: Y := by
  have hweight := hn.weight_le
  have hlen := length_le_weight h
  rcases List.append_eq_append_iff.mp heq with ⟨a, ha, hX⟩ | ⟨a, rfl, hX⟩
  · have hname := congrArg List.length ha
    rw [List.length_append] at hname
    obtain rfl : a = [] := List.length_eq_zero_iff.mp (by omega)
    exact ⟨jsonPlain_of_length (by omega), (List.cons.inj hX).2⟩
  · match a, hX with
    | [], hX => exact ⟨jsonPlain_of_length (by simpa using hweight), (List.cons.inj hX).2.symm⟩
    | [_], hX => cases (List.cons.inj (List.cons.inj hX).2).1
    | [_, _], hX => cases (List.cons.inj (List.cons.inj (List.cons.inj hX).2).2).1
    | [a₁, a₂, a₃], hX =>
      -- the closing quote of the name would be the last character of the header
      obtain ⟨rfl, h₁⟩ := List.cons.inj hX
      obtain ⟨rfl, h₂⟩ := List.cons.inj h₁
      obtain ⟨rfl, -⟩ := List.cons.inj h₂
      have hback := hn.escaped h [':', ' '] rfl
      have hblank := hn.blank_last (by simp)
      rw [hback] at hblank
      cases Option.some.inj hblank
    | a₁ :: a₂ :: a₃ :: a₄ :: a, hX =>
      obtain ⟨rfl, h₁⟩ := List.cons.inj hX
      obtain ⟨rfl, h₂⟩ := List.cons.inj h₁
      obtain ⟨rfl, h₃⟩ := List.cons.inj h₂
      obtain ⟨rfl, -⟩ := List.cons.inj h₃
      have hback := hn.escaped (h ++ ['"', ':', ' ']) a (by simp)
      rw [List.getLast?_append] at hback
      cases Option.some.inj hback

/-- What follows a cell: a line feed, behind a comma if there is more. -/
def NextLine (R : List Char) : Prop := ∃ r, R = '\n' :: r ∨ R = ',' :: '\n' :: r

theorem read_cell {value v X R : List Char} (hv : JsonChars value v) (hR : NextLine R)
    (heq : value ++ '"' :: X = escapeCell v ++ '"' :: R) : cellPlain v ∧ X = R := by
  have hweight := hv.weight_le
  have hlen := length_escapeCell_le v
  rcases List.append_eq_append_iff.mp heq with ⟨a, ha, hX⟩ | ⟨a, rfl, hX⟩
  · have hvalue := congrArg List.length ha
    rw [List.length_append] at hvalue
    obtain rfl : a = [] := List.length_eq_zero_iff.mp (by omega)
    exact ⟨cellPlain_of_length (by omega), (List.cons.inj hX).2⟩
  · obtain ⟨r, hR⟩ := hR
    match a, hX with
    | [], hX => exact ⟨cellPlain_of_length (by simpa using hweight), (List.cons.inj hX).2.symm⟩
    | _ :: a, hX =>
      -- a line feed does not stand in a string, nor a quote before it
      have hrest := (List.cons.inj hX).2
      have hnewline := hv.newline_notMem
      rcases hR with rfl | rfl
      · cases a with
        | nil => cases (List.cons.inj hrest).1
        | cons c a =>
          obtain ⟨rfl, -⟩ := List.cons.inj hrest
          exact absurd (by simp) hnewline
      · match a, hrest with
        | [], hrest => cases (List.cons.inj hrest).1
        | [_], hrest => cases (List.cons.inj (List.cons.inj hrest).2).1
        | _ :: c :: a, hrest =>
          obtain ⟨rfl, -⟩ := List.cons.inj (List.cons.inj hrest).2
          exact absurd (by simp) hnewline

/-! ## The parts of the JSON export -/

theorem jsonBlank_nil : JsonBlank [] := by
  intro c hc
  cases hc

theorem jsonBlank_newline : JsonBlank ['\n'] := fun _ hc => .inr (.inr (.inl (List.mem_singleton.mp hc)))

theorem jsonBlank_append {b b' : List Char} (hb : JsonBlank b) (hb' : JsonBlank b') : JsonBlank (b ++ b') :=
  fun c hc => (List.mem_append.mp hc).elim (hb c) (hb' c)

/-- The white space before a token ends where the token starts. -/
theorem blank_token_inj {b b' r r' : List Char} {c c' : Char} (hb : JsonBlank b) (hb' : JsonBlank b') (hc : ¬ JsonBlank [c])
    (hc' : ¬ JsonBlank [c']) (heq : b ++ c :: r = b' ++ c' :: r') : b = b' ∧ c = c' ∧ r = r' := by
  induction b generalizing b' with
  | nil =>
    cases b' with
    | nil => exact ⟨rfl, List.cons.inj heq⟩
    | cons d b' =>
      obtain ⟨rfl, -⟩ := List.cons.inj heq
      exact absurd (fun e he => List.mem_singleton.mp he ▸ hb' c List.mem_cons_self) hc
  | cons d b ih =>
    cases b' with
    | nil =>
      obtain ⟨rfl, -⟩ := List.cons.inj heq
      exact absurd (fun e he => List.mem_singleton.mp he ▸ hb d List.mem_cons_self) hc'
    | cons d' b' =>
      obtain ⟨rfl, hrest⟩ := List.cons.inj heq
      obtain ⟨rfl, hr⟩ := ih (fun e he => hb e (List.mem_cons_of_mem _ he)) (fun e he => hb' e (List.mem_cons_of_mem _ he)) hrest
      exact ⟨rfl, hr⟩

theorem not_blank {c : Char} (h : (c = ' ' ∨ c = '\t' ∨ c = '\n' ∨ c = '\r') = False) : ¬ JsonBlank [c] := fun hb => by
  have hc := hb c List.mem_cons_self
  rwa [h] at hc

/-- A way of writing the parts between two lines, and what is written for the parts that are read back. -/
structure ReadsBack {α : Type} (part : List Char → α → Prop) (write : α → List Char) (ok : α → Prop) : Prop where
  read : ∀ {text pre T R : List Char} {a : α}, part text a → JsonBlank pre → NextLine R → text ++ T = pre ++ (write a ++ R) →
    ok a ∧ ∃ b, JsonBlank b ∧ R = b ++ T
  written : ∀ {pre post : List Char} {a : α}, ok a → JsonBlank pre → JsonBlank post → part (pre ++ (write a ++ post)) a

section
variable {α : Type} {part : List Char → α → Prop} {write : α → List Char} {ok : α → Prop} (h : ReadsBack part write ok)

def lines (write : α → List Char) (as : List α) : List Char := ",\n".toList.intercalate (as.map write)

theorem lines_cons (a a' : α) (as : List α) : lines write (a :: a' :: as) = write a ++ ',' :: '\n' :: lines write (a' :: as) := by
  unfold lines
  rw [List.map_cons, List.map_cons, List.intercalate_cons_cons, List.append_assoc]
  rfl

include h in
theorem ReadsBack.parts {k : Char} (hk : ¬ JsonBlank [k]) {as : List α} {text pre post Z Z' : List Char} (hpre : JsonBlank pre)
    (hpost : JsonBlank post) (hparts : JsonParts part text as)
    (heq : text ++ k :: Z = pre ++ (lines write as ++ '\n' :: (post ++ k :: Z'))) : (∀ a ∈ as, ok a) ∧ Z = Z' := by
  induction hparts generalizing pre with
  | @last text a hpart =>
    unfold lines at heq
    rw [List.map_singleton, List.intercalate_singleton] at heq
    obtain ⟨ha, b, hb, hR⟩ := h.read hpart hpre ⟨_, .inl rfl⟩ heq
    have hline : JsonBlank ('\n' :: post) := jsonBlank_append jsonBlank_newline hpost
    obtain ⟨-, -, rfl⟩ := blank_token_inj hline hb hk hk hR
    exact ⟨fun a' ha' => List.mem_singleton.mp ha' ▸ ha, rfl⟩
  | @cons text rest a as hpart hrest ih =>
    obtain ⟨a', as, rfl⟩ : ∃ a' as', as = a' :: as' := by
      cases hrest with
      | last => exact ⟨_, _, rfl⟩
      | cons => exact ⟨_, _, rfl⟩
    rw [lines_cons, List.append_assoc, List.append_assoc] at heq
    obtain ⟨ha, b, hb, hR⟩ := h.read hpart hpre ⟨_, .inr rfl⟩ heq
    have hcomma : ¬ JsonBlank [','] := not_blank (by decide)
    obtain ⟨-, -, hR⟩ := blank_token_inj jsonBlank_nil hb hcomma hcomma hR
    obtain ⟨hall, hZ⟩ := ih jsonBlank_newline hR.symm
    exact ⟨List.forall_mem_cons.mpr ⟨ha, hall⟩, hZ⟩

include h in
theorem ReadsBack.parts_written {as : List α} (hne : as ≠ []) (hall : ∀ a ∈ as, ok a) {pre post : List Char} (hpre : JsonBlank pre)
    (hpost : JsonBlank post) : JsonParts part (pre ++ (lines write as ++ post)) as := by
  induction as generalizing pre with
  | nil => exact absurd rfl hne
  | cons a as ih =>
    obtain ⟨ha, hrest⟩ := List.forall_mem_cons.mp hall
    cases as with
    | nil =>
      unfold lines
      rw [List.map_singleton, List.intercalate_singleton]
      exact .last (h.written ha hpre hpost)
    | cons a' as =>
      have hfirst := h.written ha hpre jsonBlank_nil
      have htail := ih (List.cons_ne_nil _ _) hrest jsonBlank_newline
      have hparts := JsonParts.cons hfirst htail
      rw [lines_cons]
      simpa using hparts

include h in
theorem ReadsBack.body {k : Char} (hk : ¬ JsonBlank [k]) {as : List α} {body post Z Z' : List Char} (hpost : JsonBlank post)
    (hbody : JsonBody part body as) (heq : body ++ k :: Z = '\n' :: (lines write as ++ '\n' :: (post ++ k :: Z'))) :
    (∀ a ∈ as, ok a) ∧ Z = Z' := by
  cases hbody with
  | none hb =>
    have hblank : JsonBlank ('\n' :: '\n' :: post) := jsonBlank_append jsonBlank_newline (jsonBlank_append jsonBlank_newline hpost)
    obtain ⟨-, -, rfl⟩ := blank_token_inj hb hblank hk hk heq
    exact ⟨nofun, rfl⟩
  | parts hparts => exact h.parts hk jsonBlank_newline hpost hparts heq

include h in
theorem ReadsBack.body_written {as : List α} (hall : ∀ a ∈ as, ok a) {post : List Char} (hpost : JsonBlank post) :
    JsonBody part ('\n' :: (lines write as ++ '\n' :: post)) as := by
  cases as with
  | nil => exact .none (jsonBlank_append jsonBlank_newline (jsonBlank_append jsonBlank_newline hpost))
  | cons a as => exact .parts (h.parts_written (List.cons_ne_nil _ _) hall jsonBlank_newline (jsonBlank_append jsonBlank_newline hpost))

end

/-! ## The members, the objects and the list -/

def memberText (m : List Char × List Char) : List Char := jsonPair m.1 m.2

def MemberPlain (m : List Char × List Char) : Prop := (∀ c ∈ m.1, jsonPlain c) ∧ cellPlain m.2

def objectText (members : List (List Char × List Char)) : List Char :=
  "  \x7b\n".toList ++ lines memberText members ++ "\n  \x7d".toList

theorem quote_not_blank : ¬ JsonBlank ['"'] := not_blank (by decide)

theorem blank_spaces (n : Nat) : JsonBlank (List.replicate n ' ') := fun _ hc => .inl (List.eq_of_mem_replicate hc)

theorem memberText_append (m : List Char × List Char) (R : List Char) : memberText m ++ R =
    List.replicate 4 ' ' ++ '"' :: (m.1 ++ '"' :: ':' :: ' ' :: '"' :: (escapeCell m.2 ++ '"' :: R)) := by
  unfold memberText jsonPair
  rw [List.append_assoc, List.append_assoc, List.append_assoc, List.append_assoc]
  rfl

theorem readsBack_member : ReadsBack JsonMember memberText MemberPlain where
  read := by
    intro text pre T R m hm hpre hR heq
    rw [memberText_append, ← List.append_assoc] at heq
    cases hm with
    | mk h₀ h₁ h₂ h₃ hname hvalue =>
      simp only [List.append_assoc, List.cons_append] at heq
      rw [← List.append_assoc] at heq
      obtain ⟨-, -, hheader⟩ := blank_token_inj h₀ (jsonBlank_append hpre (blank_spaces 4)) quote_not_blank quote_not_blank heq
      obtain ⟨hplain, hcolon⟩ := read_name hname hheader
      obtain ⟨-, -, hblank⟩ := blank_token_inj h₁ jsonBlank_nil (not_blank (by decide)) (not_blank (by decide)) hcolon
      obtain ⟨-, -, hcell⟩ := blank_token_inj h₂ (blank_spaces 1) quote_not_blank quote_not_blank hblank
      obtain ⟨hcellPlain, hrest⟩ := read_cell hvalue hR hcell
      exact ⟨⟨hplain, hcellPlain⟩, _, h₃, hrest.symm⟩
  written := by
    intro pre post m hm hpre hpost
    rw [memberText_append, ← List.append_assoc]
    exact .mk (jsonBlank_append hpre (blank_spaces 4)) jsonBlank_nil (blank_spaces 1) hpost (jsonChars_self hm.1)
      (jsonChars_escapeCell hm.2)

theorem objectText_append (members : List (List Char × List Char)) (R : List Char) : objectText members ++ R =
    List.replicate 2 ' ' ++ '\x7b' :: '\n' :: (lines memberText members ++ '\n' :: (List.replicate 2 ' ' ++ '\x7d' :: R)) := by
  unfold objectText
  rw [List.append_assoc, List.append_assoc]
  rfl

theorem readsBack_object : ReadsBack JsonObject objectText fun members => ∀ m ∈ members, MemberPlain m where
  read := by
    intro text pre T R members ho hpre hR heq
    rw [objectText_append, ← List.append_assoc] at heq
    cases ho with
    | mk h₀ h₁ hbody =>
      rw [List.append_assoc, List.cons_append, List.append_assoc, List.cons_append] at heq
      obtain ⟨-, -, hopen⟩ := blank_token_inj h₀ (jsonBlank_append hpre (blank_spaces 2)) (not_blank (by decide))
        (not_blank (by decide)) heq
      obtain ⟨hall, hrest⟩ := readsBack_member.body (not_blank (by decide)) (blank_spaces 2) hbody hopen
      exact ⟨hall, _, h₁, hrest.symm⟩
  written := by
    intro pre post members hall hpre hpost
    have hbody := readsBack_member.body_written hall (blank_spaces 2)
    have hobject := JsonObject.mk (jsonBlank_append hpre (blank_spaces 2)) hpost hbody
    rw [objectText_append]
    simpa using hobject

theorem exportJson_eq (r : QueryResults) : r.exportJson =
    '[' :: '\n' :: (lines objectText (r.rows.map (r.headers.zip ·)) ++ '\n' :: ([] ++ ']' :: [])) := by
  have hpairs : ∀ row : List (List Char), List.zipWith jsonPair r.headers row = (r.headers.zip row).map memberText := by
    intro row
    rw [List.zip, List.map_zipWith]
    rfl
  unfold QueryResults.exportJson lines objectText lines
  simp only [hpairs, List.map_map]
  rfl

/-- The headers and the cells that are read back from the JSON export. -/
theorem exportJson_iff (r : QueryResults) : JsonArray r.exportJson (r.rows.map (r.headers.zip ·)) ↔
    ∀ row ∈ r.rows, ∀ m ∈ r.headers.zip row, MemberPlain m := by
  have hrows : (∀ members ∈ r.rows.map (r.headers.zip ·), ∀ m ∈ members, MemberPlain m) ↔
      ∀ row ∈ r.rows, ∀ m ∈ r.headers.zip row, MemberPlain m := List.forall_mem_map
  rw [exportJson_eq, ← hrows]
  have hclose : ¬ JsonBlank [']'] := not_blank (by decide)
  refine ⟨fun h => ?_, fun hall => ?_⟩
  · generalize heq : '[' :: '\n' :: _ = text at h
    cases h with
    | mk h₀ h₁ hbody =>
      obtain ⟨-, -, hopen⟩ := blank_token_inj h₀ jsonBlank_nil (not_blank (by decide)) (not_blank (by decide)) heq.symm
      exact (readsBack_object.body hclose jsonBlank_nil hbody hopen).1
  · have hbody := readsBack_object.body_written hall jsonBlank_nil
    have harray := JsonArray.mk jsonBlank_nil jsonBlank_nil hbody
    simpa using harray

instance decidableMemberPlain (m : List Char × List Char) : Decidable (MemberPlain m) :=
  @instDecidableAnd _ _ (List.decidableBAll _ m.1) (List.decidableBAll _ m.2)

/-- **The exports are read back** where the headers hold no mark of the formats, and the cells none that stays as it is. -/
theorem exports_decode_iff (r : QueryResults) (hrect : ∀ row ∈ r.rows, row.length = r.headers.length) :
    (CsvFile r.exportCsv (r.headers :: r.rows) ↔ r.headers ≠ [] ∧ (∀ h ∈ r.headers, ∀ c ∈ h, csvMark c = false) ∧
      ∀ row ∈ r.rows, ∀ c ∈ row, '\r' ∈ c → ',' ∈ c ∨ '"' ∈ c ∨ '\n' ∈ c) ∧
    ((JsonArray r.exportJson (r.rows.map (r.headers.zip ·)) ∧ ∀ row ∈ r.rows, IsMapping (r.headers.zip row)) ↔
      ∀ row ∈ r.rows, (∀ m ∈ r.headers.zip row, MemberPlain m) ∧ IsMapping (r.headers.zip row)) := by
  refine ⟨exportCsv_iff r hrect, ?_⟩
  rw [exportJson_iff]
  exact forall₂_and.symm

/-- A header with a comma in it, over a backslash. -/
def markedResults : QueryResults := ⟨["a,b".toList], [["\\".toList]]⟩

/-- **A header is read as two**, and the JSON export with a backslash as no document. -/
theorem exports_lose_cells :
    CsvFile markedResults.exportCsv [["a".toList, "b".toList], ["\\".toList]] ∧
    ¬ CsvFile markedResults.exportCsv (markedResults.headers :: markedResults.rows) ∧
    ¬ JsonArray markedResults.exportJson (markedResults.rows.map (markedResults.headers.zip ·)) ∧
    ¬ ∀ r : QueryResults, (∀ row ∈ r.rows, row.length = r.headers.length) → CsvFile r.exportCsv (r.headers :: r.rows) ∧
      JsonArray r.exportJson (r.rows.map (r.headers.zip ·)) ∧ ∀ row ∈ r.rows, IsMapping (r.headers.zip row) := by
  have hread : CsvFile markedResults.exportCsv [["a".toList, "b".toList], ["\\".toList]] := by
    have hfield : ∀ c : Char, csvMark c = false → CsvField [c] [c] := fun c hc => .plain fun d hd => List.mem_singleton.mp hd ▸ hc
    exact .record (.field (hfield 'a' rfl) (.last (hfield 'b' rfl))) (.inl rfl) (.record (.last (hfield '\\' rfl)) (.inl rfl) .nil)
  have hcsv : ¬ CsvFile markedResults.exportCsv (markedResults.headers :: markedResults.rows) :=
    fun h => absurd (congrArg List.length (List.cons.inj (hread.unique h)).1) (by decide)
  have hrect : ∀ row ∈ markedResults.rows, row.length = markedResults.headers.length := fun row hrow => List.mem_singleton.mp hrow ▸ rfl
  refine ⟨hread, hcsv, fun h => ?_, fun h => hcsv (h markedResults hrect).1⟩
  have hplain := (exportJson_iff markedResults).mp h ["\\".toList] List.mem_cons_self _ List.mem_cons_self
  exact absurd (hplain.2 '\\' List.mem_cons_self).1 (by decide)

/-- A cell with quotes and a comma. -/
def quotedResults : QueryResults := ⟨["id".toList], [["\"1\",".toList]]⟩

theorem quoted_cells_decode : CsvFile quotedResults.exportCsv [["id".toList], ["\"1\",".toList]] ∧
    JsonArray quotedResults.exportJson [[("id".toList, "\"1\",".toList)]] := by
  obtain ⟨hcsv, hjson⟩ := exports_decode_iff quotedResults (by decide)
  refine ⟨hcsv.mpr ⟨by decide, by simp [quotedResults, csvMark], by simp [quotedResults]⟩, (hjson.mpr fun row hrow => ?_).1⟩
  obtain rfl := List.mem_singleton.mp hrow
  refine ⟨fun m hm => List.mem_singleton.mp hm ▸ by decide, fun m hm m' hm' _ => ?_⟩
  rw [List.mem_singleton.mp hm, List.mem_singleton.mp hm']

end PotatoDB.Tui
