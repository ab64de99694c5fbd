import PotatoDB.ValidatorsSound
import PotatoDB.Quoting

/-!
# The texts of keys

The uniqueness checks compare the joined literals of an incoming key, with the arrays the source
query gave it, and of the stored keys, with the arrays of the table. They agree with the comparison
after the cast of the insert where the cast keeps what the literal shows.
-/

namespace PotatoDB

open Quoting

/-! ## Literals as tokens -/

section
variable {debug : Value → String}

theorem toList_sqlQuote (s : String) : (sqlQuote s).toList = enclose quoteChar s.toList := by
  unfold sqlQuote
  rw [String.toList_ofList]
  rfl

/-- What a literal has between its quotes. -/
def Value.quoted (debug : Value → String) : Value → Option String
  | .null | .number _ | .bool _ => none
  | .text s => some s
  | .uuid hex => some hex.text
  | v => some (debug v)

theorem literal_quoted {v : Value} {s : String} (h : v.quoted debug = some s) :
    (arrayValueToSqlLiteral debug v).toList = enclose quoteChar s.toList := by
  cases v with
  | null => cases h
  | number d => cases h
  | bool b => cases h
  | text s' =>
    obtain rfl := Option.some.inj h
    exact toList_sqlQuote s'
  | uuid hex =>
    obtain rfl := Option.some.inj h
    have hplain : quoteChar ∉ hex.text.toList := fun hin => (hex.plain.2 _ hin).1 rfl
    unfold arrayValueToSqlLiteral enclose
    rw [String.toList_ofList, double_of_notMem hplain]
  | nullArray | other t b =>
    obtain rfl := Option.some.inj h
    exact toList_sqlQuote _

theorem plain_literal {v : Value} (h : v.quoted debug = none) :
    quoteChar ∉ (arrayValueToSqlLiteral debug v).toList ∧ unitSeparator ∉ (arrayValueToSqlLiteral debug v).toList := by
  cases v with
  | null => exact (by decide : quoteChar ∉ "NULL".toList ∧ unitSeparator ∉ "NULL".toList)
  | number d => exact ⟨fun hin => (d.plain.2 _ hin).1 rfl, fun hin => (d.plain.2 _ hin).2 rfl⟩
  | bool b =>
    cases b
    · exact (by decide : quoteChar ∉ "FALSE".toList ∧ unitSeparator ∉ "FALSE".toList)
    · exact (by decide : quoteChar ∉ "TRUE".toList ∧ unitSeparator ∉ "TRUE".toList)
  | _ => cases h

theorem isToken_literal (v : Value) : IsToken quoteChar unitSeparator (arrayValueToSqlLiteral debug v).toList := by
  cases h : v.quoted debug with
  | none => exact .inr (plain_literal h)
  | some s => exact .inl ⟨s.toList, literal_quoted h⟩

theorem toList_joinUnits : ∀ texts : List String, (joinUnits texts).toList = joined unitSeparator (texts.map String.toList)
  | [] => rfl
  | [_] => rfl
  | s :: t :: ts => by
    rw [joinUnits, String.toList_append, String.toList_append, toList_joinUnits (t :: ts), String.toList_singleton,
      List.append_assoc]
    · rfl
    · exact nofun

/-- The text of a key is the list of its literals. -/
theorem keyText_inj {env : Env} {key key' : List Value} (hl : key.length = key'.length) :
    keyText env key = keyText env key' ↔ tupleTexts env key = tupleTexts env key' := by
  constructor
  · intro h
    have hjoin : joined unitSeparator ((tupleTexts env key).map String.toList) =
        joined unitSeparator ((tupleTexts env key').map String.toList) := by
      rw [← toList_joinUnits, ← toList_joinUnits]
      exact congrArg String.toList h
    have htokens : ∀ k : List Value, ∀ t ∈ (tupleTexts env k).map String.toList, IsToken quoteChar unitSeparator t := by
      intro k t ht
      obtain ⟨s, hs, rfl⟩ := List.mem_map.mp ht
      obtain ⟨v, -, rfl⟩ := List.mem_map.mp hs
      exact isToken_literal v
    have hmap := joined_inj (by decide) (by simpa [tupleTexts] using hl) (htokens key) (htokens key') hjoin
    exact (List.map_inj_right fun _ _ he => String.toList_injective he).mp hmap
  · intro h
    exact congrArg joinUnits h

/-! ## Equal literals -/

/-- The digits of a number are not the name of a truth value. -/
def Value.Numeric : Value → Prop
  | .number d => d.text ≠ "TRUE" ∧ d.text ≠ "FALSE"
  | _ => True

/-- Two values are shown alike: NULL, the same digits, the same truth value, or the same characters between quotes. -/
def Value.Keeps (debug : Value → String) : Value → Value → Prop
  | .null, .null => True
  | .number d, .number d' => d = d'
  | .bool b, .bool b' => b = b'
  | v, w => ∃ s, v.quoted debug = some s ∧ w.quoted debug = some s

theorem keeps_quoted {v w : Value} {s : String} (h : v.quoted debug = some s ∨ w.quoted debug = some s) :
    v.Keeps debug w ↔ v.quoted debug = some s ∧ w.quoted debug = some s := by
  have hexists : (∃ s', v.quoted debug = some s' ∧ w.quoted debug = some s') ↔
      v.quoted debug = some s ∧ w.quoted debug = some s := by
    constructor
    · rintro ⟨s', hv, hw⟩
      have hs : s' = s := by
        cases h with
        | inl h => exact Option.some.inj (hv.symm.trans h)
        | inr h => exact Option.some.inj (hw.symm.trans h)
      exact hs ▸ ⟨hv, hw⟩
    · exact fun h => ⟨s, h⟩
  rw [← hexists]
  cases v <;> cases w <;> first | exact Iff.rfl | (cases h with | inl h => cases h | inr h => cases h)

theorem PlainText.text_inj {d d' : PlainText} (h : d.text = d'.text) : d = d' := by
  cases d
  cases d'
  cases h
  rfl

theorem literal_eq_iff {v w : Value} (hv : v.Numeric) (hw : w.Numeric) :
    arrayValueToSqlLiteral debug v = arrayValueToSqlLiteral debug w ↔ v.Keeps debug w := by
  have hmixed : ∀ {v w : Value} {s : String}, v.quoted debug = some s → w.quoted debug = none →
      arrayValueToSqlLiteral debug v ≠ arrayValueToSqlLiteral debug w := by
    intro v w s hs hn he
    refine (plain_literal hn).1 ?_
    rw [← he, literal_quoted hs]
    exact List.mem_cons_self
  cases hqv : v.quoted debug with
  | some s =>
    rw [keeps_quoted (.inl hqv)]
    cases hqw : w.quoted debug with
    | none => exact iff_of_false (hmixed hqv hqw) (by simp)
    | some s' =>
      rw [← String.toList_inj, literal_quoted hqv, literal_quoted hqw]
      constructor
      · intro he
        have hs : s = s' := String.toList_inj.mp (enclose_inj he)
        exact ⟨hqv, congrArg some hs.symm⟩
      · rintro ⟨-, he⟩
        rw [Option.some.inj he]
  | none =>
    cases hqw : w.quoted debug with
    | some s =>
      rw [keeps_quoted (.inr hqw), hqv]
      exact iff_of_false (fun he => hmixed hqw hqv he.symm) (by simp)
    | none =>
      cases v with
      | nullArray | text _ | uuid _ | other _ _ => cases hqv
      | null =>
        cases w with
        | nullArray | text _ | uuid _ | other _ _ => cases hqw
        | null => exact iff_of_true rfl trivial
        | number d => exact iff_of_false (fun he => d.plain.1 he.symm) (by simp [Value.Keeps, Value.quoted])
        | bool b => cases b <;> simp [arrayValueToSqlLiteral, Value.Keeps, Value.quoted]
      | number d =>
        cases w with
        | nullArray | text _ | uuid _ | other _ _ => cases hqw
        | null => exact iff_of_false d.plain.1 (by simp [Value.Keeps, Value.quoted])
        | number d' => exact ⟨PlainText.text_inj, fun he => congrArg PlainText.text he⟩
        | bool b =>
          cases b
          · exact iff_of_false hv.2 (by simp [Value.Keeps, Value.quoted])
          · exact iff_of_false hv.1 (by simp [Value.Keeps, Value.quoted])
      | bool b =>
        cases w with
        | nullArray | text _ | uuid _ | other _ _ => cases hqw
        | null => cases b <;> simp [arrayValueToSqlLiteral, Value.Keeps, Value.quoted]
        | number d =>
          cases b
          · exact iff_of_false (fun he => hw.2 he.symm) (by simp [Value.Keeps, Value.quoted])
          · exact iff_of_false (fun he => hw.1 he.symm) (by simp [Value.Keeps, Value.quoted])
        | bool b' => cases b <;> cases b' <;> simp [arrayValueToSqlLiteral, Value.Keeps]

end

/-! ## Kinds of columns -/

/-- The kinds of arrays of a column. -/
inductive ColumnKind where
  | number
  | boolean
  | text
  | uuid
  | other (dataType : String)
deriving DecidableEq

/-- A value of a column: NULL of a typed array or a value of the kind. -/
def Value.HasKind : ColumnKind → Value → Prop
  | _, .null => True
  | .number, .number _ => True
  | .boolean, .bool _ => True
  | .text, .text _ => True
  | .uuid, .uuid _ => True
  | .other dataType, .other dataType' _ => dataType' = dataType
  | _, _ => False

/-- Arrow's debug texts tell the values of a type apart. -/
def DebugInjective (debug : Value → String) : Prop :=
  ∀ dataType bits bits', debug (.other dataType bits) = debug (.other dataType bits') → bits = bits'

theorem HasKind.ne_nullArray {kind : ColumnKind} {v : Value} (h : v.HasKind kind) : v ≠ .nullArray := by
  rintro rfl
  cases kind <;> exact h

theorem ne_nullArray_of_mem {kinds : List ColumnKind} {vs : List Value} (h : List.Forall₂ Value.HasKind kinds vs) {v : Value}
    (hv : v ∈ vs) : v ≠ .nullArray := by
  induction h with
  | nil => cases hv
  | cons hkind _ ih =>
    cases List.mem_cons.mp hv with
    | inl he => exact he ▸ HasKind.ne_nullArray hkind
    | inr hin => exact ih hin

/-- Values of one kind that are shown alike are equal. -/
theorem eq_of_keeps {debug : Value → String} (hdebug : DebugInjective debug) {kind : ColumnKind} {v w : Value}
    (hv : v.HasKind kind) (hw : w.HasKind kind) (h : v.Keeps debug w) : v = w := by
  have hquoted : ∀ {u : Value} {s : String}, u.quoted debug = some s → u ≠ .null := by
    rintro u s hs rfl
    cases hs
  cases v with
  | nullArray => exact absurd rfl (HasKind.ne_nullArray hv)
  | null =>
    cases w with
    | null => rfl
    | _ => exact absurd rfl (hquoted h.choose_spec.1)
  | number d =>
    cases w with
    | number d' => rw [show d = d' from h]
    | _ => cases h.choose_spec.1
  | bool b =>
    cases w with
    | bool b' => rw [show b = b' from h]
    | _ => cases h.choose_spec.1
  | text s =>
    obtain ⟨s', hs, hs'⟩ := h
    cases kind with
    | text =>
      cases w with
      | null => cases hs'
      | text t => rw [← Option.some.inj hs, Option.some.inj hs'] at *
      | _ => exact hw.elim
    | _ => exact hv.elim
  | uuid hex =>
    obtain ⟨s', hs, hs'⟩ := h
    cases kind with
    | uuid =>
      cases w with
      | null => cases hs'
      | uuid hex' => rw [PlainText.text_inj ((Option.some.inj hs).trans (Option.some.inj hs').symm)]
      | _ => exact hw.elim
    | _ => exact hv.elim
  | other type bits =>
    obtain ⟨s', hs, hs'⟩ := h
    cases kind with
    | other dataType =>
      cases w with
      | null => cases hs'
      | other type' bits' =>
        obtain rfl : type = dataType := hv
        obtain rfl : type' = type := hw
        rw [hdebug _ _ _ ((Option.some.inj hs).trans (Option.some.inj hs').symm)]
      | _ => exact hw.elim
    | _ => exact hv.elim

theorem eq_of_forall₂_keeps {debug : Value → String} (hdebug : DebugInjective debug) {kinds : List ColumnKind} {vs ws : List Value}
    (hv : List.Forall₂ Value.HasKind kinds vs) (hw : List.Forall₂ Value.HasKind kinds ws)
    (h : List.Forall₂ (Value.Keeps debug) vs ws) : vs = ws := by
  induction h generalizing kinds with
  | nil => rfl
  | cons hkeeps _ ih =>
    cases hv with
    | cons hv hvs =>
      cases hw with
      | cons hw hws => rw [eq_of_keeps hdebug hv hw hkeeps, ih hvs hws]

theorem keeps_refl {debug : Value → String} (v : Value) : v.Keeps debug v := by
  cases v with
  | null => trivial
  | number d => exact rfl
  | bool b => exact rfl
  | _ => exact ⟨_, rfl, rfl⟩

/-! ## Keys -/

variable {env : Env}

theorem tupleTexts_eq_iff (env : Env) {vs ws : List Value} (hv : ∀ v ∈ vs, v.Numeric) (hw : ∀ w ∈ ws, w.Numeric) :
    tupleTexts env vs = tupleTexts env ws ↔ List.Forall₂ (Value.Keeps env.debug) vs ws := by
  induction vs generalizing ws with
  | nil =>
    cases ws with
    | nil => exact iff_of_true rfl .nil
    | cons w ws => exact iff_of_false nofun nofun
  | cons v vs ih =>
    cases ws with
    | nil => exact iff_of_false nofun nofun
    | cons w ws =>
      unfold tupleTexts
      rw [List.map_cons, List.map_cons, List.cons.injEq, List.forall₂_cons,
        literal_eq_iff (hv v List.mem_cons_self) (hw w List.mem_cons_self)]
      exact and_congr_right fun _ => ih (fun v hin => hv v (List.mem_cons_of_mem _ hin)) fun w hin => hw w (List.mem_cons_of_mem _ hin)

/-- The cast of an INSERT to the types of the key's columns. -/
def castKey (env : Env) (types : List String) (key : List Value) : Except String (List Value) :=
  (types.zip key).mapM fun p => env.castTo p.1 p.2

/-- The text of an incoming key is that of a stored key if and only if the insert casts the one to the other, and its
components are shown as NULL if and only if they are. -/
structure KeyFaithful (env : Env) (kinds : List ColumnKind) (incoming cast : List Value) : Prop where
  equal : ∀ stored, List.Forall₂ Value.HasKind kinds stored → (∀ w ∈ stored, w.Numeric) →
    (keyText env incoming = keyText env stored ↔ cast = stored)
  null : ∀ v ∈ incoming ++ cast, arrayValueToSqlLiteral env.debug v = "NULL" ↔ v.isNull = true

/-- **When the texts of keys are faithful**: the cast of each component is shown as the component was, and no component
is from an untyped NULL array. -/
theorem keyFaithful_iff (hdebug : DebugInjective env.debug) {types : List String} {kinds : List ColumnKind}
    {incoming cast : List Value} (hwidth : types.length = incoming.length) (hcast : castKey env types incoming = .ok cast)
    (hkinds : List.Forall₂ Value.HasKind kinds cast) (hnum : ∀ v ∈ incoming, v.Numeric) (hnum' : ∀ v ∈ cast, v.Numeric) :
    KeyFaithful env kinds incoming cast ↔
      List.Forall₂ (Value.Keeps env.debug) incoming cast ∧ Value.nullArray ∉ incoming := by
  have hlen : incoming.length = cast.length := by
    have := congrArg List.length (mapM_ok_iff.mp hcast)
    simp only [List.length_map, List.length_zip] at this
    omega
  constructor
  · intro h
    constructor
    · rw [← tupleTexts_eq_iff env hnum hnum', ← keyText_inj hlen]
      exact (h.equal cast hkinds hnum').mpr rfl
    · intro hin
      have hnull := (h.null _ (List.mem_append_left _ hin)).mpr rfl
      have hquoted := congrArg String.toList hnull
      rw [literal_quoted (v := .nullArray) rfl] at hquoted
      cases hquoted
  · rintro ⟨hkeeps, hno⟩
    refine ⟨fun stored hstored hnumw => ?_, fun v hv => literal_eq_null ?_⟩
    · have htexts := (tupleTexts_eq_iff env hnum hnum').mpr hkeeps
      have hlen' : cast.length = stored.length := hkinds.length_eq.symm.trans hstored.length_eq
      rw [show keyText env incoming = keyText env cast from congrArg joinUnits htexts, keyText_inj hlen',
        tupleTexts_eq_iff env hnum' hnumw]
      constructor
      · exact eq_of_forall₂_keeps hdebug hkinds hstored
      · rintro rfl
        exact List.forall₂_same.mpr fun v _ => keeps_refl v
    · cases List.mem_append.mp hv with
      | inl hin => exact fun he => hno (he ▸ hin)
      | inr hin => exact ne_nullArray_of_mem hkinds hin

/-- Two UUID columns and a DATE column, where a UUID can be given by its text and a date by its digits. -/
def keyEnv : Env := { Env.plain with
  castTo := fun type v =>
    match type, v with
    | "DATE", .text s => .ok (.other "Date32" s)
    | _, .nullArray => .ok .null
    | _, v => .ok v
  debug := fun
    | .other dataType bits => s!"PrimitiveArray<{dataType}>[{bits}]"
    | _ => "NullArray(1)" }

theorem keyEnv_debug : DebugInjective keyEnv.debug := by
  intro dataType bits bits' h
  exact (String.append_right_inj _).mp ((String.append_left_inj _).mp h)

/-- Digits that are seen to need no quoting. -/
def plainText (text : String) (h : text ≠ "NULL") (hall : (text.toList.all fun c => c ≠ quoteChar && c ≠ unitSeparator) = true) :
    PlainText :=
  ⟨text, h, fun c hc => by simpa using List.all_eq_true.mp hall c hc⟩

/-- A text with the separator and a quote, and a number. -/
def separatorKey : List Value := [.text "a\x1f'b", .number (plainText "-7" (by decide) (by decide))]

theorem numeric_separatorKey : ∀ v ∈ separatorKey, v.Numeric := by
  intro v hv
  cases hv with
  | head => trivial
  | tail _ hv =>
    obtain rfl := List.mem_singleton.mp hv
    exact (by decide : "-7" ≠ "TRUE" ∧ "-7" ≠ "FALSE")

theorem separator_faithful : KeyFaithful keyEnv [.text, .number] separatorKey separatorKey :=
  (keyFaithful_iff keyEnv_debug (by decide) (show castKey keyEnv ["TEXT", "INT"] separatorKey = .ok separatorKey from rfl)
    (.cons (show Value.HasKind .text (.text _) from trivial) (.cons (show Value.HasKind .number (.number _) from trivial) .nil))
    numeric_separatorKey numeric_separatorKey).mpr ⟨List.forall₂_same.mpr fun v _ => keeps_refl v, by decide +kernel⟩

/-- The text of a date is not shown as the date that it is cast to. -/
theorem date_text_differs :
    castKey keyEnv ["DATE"] [.text "2024-01-01"] = .ok [.other "Date32" "2024-01-01"] ∧
    ¬ KeyFaithful keyEnv [.other "Date32"] [.text "2024-01-01"] [.other "Date32" "2024-01-01"] := by
  refine ⟨rfl, fun h => ?_⟩
  have := (h.equal [.other "Date32" "2024-01-01"] (.cons rfl .nil) (by simp [Value.Numeric])).mpr rfl
  revert this
  decide +kernel

end PotatoDB
