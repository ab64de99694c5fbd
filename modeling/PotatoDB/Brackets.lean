import PotatoDB.Quoting

/-!
# Texts with brackets and quotes

A text is scanned character by character with the number of open brackets and whether a quote is open. A doubled quote opens
and closes again, so that brackets and separators in quoted texts do not count.
-/

namespace Brackets

variable {α β : Type} [DecidableEq α]

structure Marks (α : Type) where
  quote : α
  opening : α
  closing : α
  quote_ne_opening : quote ≠ opening
  quote_ne_closing : quote ≠ closing
  opening_ne_closing : opening ≠ closing

structure State where
  depth : Nat
  quoted : Bool

variable (m : Marks α)

def Marks.Plain (c : α) : Prop := c ≠ m.quote ∧ c ≠ m.opening ∧ c ≠ m.closing

/-- Its brackets are balanced and its quotes closed, and outside of all of them are only some characters. -/
inductive Nested : (α → Prop) → List α → Prop
  | nil {p : α → Prop} : Nested p []
  | plain {p : α → Prop} {c : α} {s : List α} (hc : m.Plain c) (hp : p c) (h : Nested p s) : Nested p (c :: s)
  | literal {p : α → Prop} (body : List α) {s : List α} (h : Nested p s) : Nested p (Quoting.enclose m.quote body ++ s)
  | group {p : α → Prop} {inner s : List α} (hinner : Nested (fun _ => True) inner) (h : Nested p s) :
      Nested p (m.opening :: (inner ++ m.closing :: s))

abbrev Balanced (s : List α) : Prop := Nested m (fun _ => True) s

def advance (σ : State) (c : α) : State :=
  if c = m.quote then ⟨σ.depth, !σ.quoted⟩
  else if σ.quoted then σ
  else if c = m.opening then ⟨σ.depth + 1, false⟩
  else if c = m.closing then ⟨σ.depth - 1, false⟩
  else σ

/-- A loop over a text that goes on at every character, except for some outside of brackets and quotes. -/
structure Scanner (β : Type) where
  read : State → List α → β
  push : List α → β → β
  stops : α → Prop
  push_nil : ∀ b, push [] b = b
  push_append : ∀ s t b, push (s ++ t) b = push s (push t b)
  goes_quote : ¬ stops m.quote
  goes_opening : ¬ stops m.opening
  read_cons : ∀ σ c s, (σ.depth = 0 → σ.quoted = false → ¬ stops c) → read σ (c :: s) = push [c] (read (advance m σ c) s)

variable {m}

@[simp] theorem advance_quote (d : Nat) (q : Bool) : advance m ⟨d, q⟩ m.quote = ⟨d, !q⟩ := if_pos rfl

theorem advance_quoted (d : Nat) {c : α} (h : c ≠ m.quote) : advance m ⟨d, true⟩ c = ⟨d, true⟩ := by
  rw [advance, if_neg h, if_pos rfl]

@[simp] theorem advance_opening (d : Nat) : advance m ⟨d, false⟩ m.opening = ⟨d + 1, false⟩ := by
  rw [advance, if_neg m.quote_ne_opening.symm, if_neg Bool.false_ne_true, if_pos rfl]

@[simp] theorem advance_closing (d : Nat) : advance m ⟨d, false⟩ m.closing = ⟨d - 1, false⟩ := by
  rw [advance, if_neg m.quote_ne_closing.symm, if_neg Bool.false_ne_true, if_neg m.opening_ne_closing.symm, if_pos rfl]

theorem advance_plain (d : Nat) {c : α} (h : m.Plain c) : advance m ⟨d, false⟩ c = ⟨d, false⟩ := by
  rw [advance, if_neg h.1, if_neg Bool.false_ne_true, if_neg h.2.1, if_neg h.2.2]

namespace Scanner

variable (f : Scanner m β)

theorem read_quoted (d : Nat) (c : α) (s : List α) : f.read ⟨d, true⟩ (c :: s) = f.push [c] (f.read (advance m ⟨d, true⟩ c) s) :=
  f.read_cons ⟨d, true⟩ c s fun _ h => Bool.noConfusion h

theorem read_quote (d : Nat) (q : Bool) (s : List α) : f.read ⟨d, q⟩ (m.quote :: s) = f.push [m.quote] (f.read ⟨d, !q⟩ s) := by
  rw [f.read_cons _ _ _ (fun _ _ => f.goes_quote), advance_quote]

theorem read_body (d : Nat) (rest : List α) : ∀ body : List α,
    f.read ⟨d, true⟩ (Quoting.double m.quote body ++ rest) = f.push (Quoting.double m.quote body) (f.read ⟨d, true⟩ rest)
  | [] => (f.push_nil _).symm
  | c :: body => by
    have ih := read_body d rest body
    have hdouble : Quoting.double m.quote (c :: body) =
        (if c = m.quote then [c, c] else [c]) ++ Quoting.double m.quote body := List.flatMap_cons
    rw [hdouble, List.append_assoc, f.push_append, ← ih]
    by_cases hc : c = m.quote
    · subst hc
      rw [if_pos rfl, List.cons_append, List.singleton_append, f.read_quote, f.read_quote, ← f.push_append]
      rfl
    · rw [if_neg hc, List.singleton_append, f.read_quoted, advance_quoted d hc]

theorem read_literal (d : Nat) (body rest : List α) : f.read ⟨d, false⟩ (Quoting.enclose m.quote body ++ rest) =
    f.push (Quoting.enclose m.quote body) (f.read ⟨d, false⟩ rest) := by
  have henclose : Quoting.enclose m.quote body = [m.quote] ++ (Quoting.double m.quote body ++ [m.quote]) := rfl
  rw [henclose, List.append_assoc, List.append_assoc, List.singleton_append, f.read_quote,
    Bool.not_false, f.read_body, List.singleton_append, f.read_quote, Bool.not_true, ← f.push_append, ← f.push_append,
    List.append_assoc]

/-- A nested text is read as a whole, and the loop is then where it was before. -/
theorem read_nested {p : α → Prop} {s : List α} (h : Nested m p s) (rest : List α) : ∀ {d : Nat},
    (d = 0 → ∀ c, m.Plain c → p c → ¬ f.stops c) → f.read ⟨d, false⟩ (s ++ rest) = f.push s (f.read ⟨d, false⟩ rest) := by
  induction h generalizing rest with
  | nil => exact fun _ => (f.push_nil _).symm
  | @plain p c s hc hp h ih =>
    intro d hd
    rw [List.cons_append, f.read_cons _ _ _ (fun h0 _ => hd h0 c hc hp), advance_plain d hc, ih rest hd, ← f.push_append,
      List.singleton_append]
  | literal body h ih =>
    intro d hd
    rw [List.append_assoc, f.read_literal, ih rest hd, ← f.push_append]
  | @group p inner s hinner h ihinner ih =>
    intro d hd
    rw [List.cons_append, f.read_cons _ _ _ (fun _ _ => f.goes_opening), advance_opening, List.append_assoc,
      ihinner _ (fun h0 => absurd h0 (Nat.succ_ne_zero d)), List.cons_append,
      f.read_cons _ _ _ (fun h0 => absurd h0 (Nat.succ_ne_zero d)), advance_closing, Nat.succ_sub_one, ih rest hd,
      ← f.push_append, ← f.push_append, ← f.push_append]
    simp

end Scanner

/-! ## The closing bracket -/

variable (m)

/-- The text up to the bracket that closes the group, and what follows. -/
def ending (σ : State) : List α → Option (List α × List α)
  | [] => none
  | c :: s =>
    if σ.depth = 0 ∧ σ.quoted = false ∧ c = m.closing then some ([], s)
    else (ending (advance m σ c) s).map fun r => (c :: r.1, r.2)

def endings : Scanner m (Option (List α × List α)) where
  read := ending m
  push s o := o.map fun r => (s ++ r.1, r.2)
  stops := (· = m.closing)
  push_nil o := by cases o <;> rfl
  push_append s t o := by cases o <;> simp
  goes_quote := m.quote_ne_closing
  goes_opening := m.opening_ne_closing
  read_cons σ c s h := by
    rw [ending, if_neg fun hstop => h hstop.1 hstop.2.1 hstop.2.2]
    rfl

/-- Balanced texts with a closing bracket between each two. -/
def Closes : Nat → List α → Prop
  | 0, s => Balanced m s
  | d + 1, s => ∃ inner rest, Balanced m inner ∧ s = inner ++ m.closing :: rest ∧ Closes d rest

variable {m}

theorem Closes.behind {front : List α} (h : ∀ {s}, Balanced m s → Balanced m (front ++ s)) : ∀ {d : Nat} {s : List α},
    Closes m d s → Closes m d (front ++ s)
  | 0, _, hs => h hs
  | _ + 1, _, ⟨inner, rest, hinner, hs, hrest⟩ => ⟨front ++ inner, rest, h hinner, by rw [hs, List.append_assoc], hrest⟩

/-- The rest of a text in which a quote may be open. -/
def State.Closes (m : Marks α) (σ : State) (s : List α) : Prop :=
  if σ.quoted then ∃ body rest, m.quote ∉ body ∧ s = body ++ m.quote :: rest ∧ Brackets.Closes m σ.depth rest
  else Brackets.Closes m σ.depth s

theorem Closes.cons {d : Nat} {q : Bool} {c : α} {s : List α} (h : (advance m ⟨d, q⟩ c).Closes m s)
    (hgoes : ¬ (d = 0 ∧ q = false ∧ c = m.closing)) : State.Closes m ⟨d, q⟩ (c :: s) := by
  by_cases hquote : c = m.quote
  · subst hquote
    rw [advance_quote] at h
    cases q with
    | true => exact ⟨[], s, List.not_mem_nil, rfl, h⟩
    | false =>
      obtain ⟨body, rest, hbody, rfl, hrest⟩ := h
      have hliteral : m.quote :: (body ++ m.quote :: rest) = Quoting.enclose m.quote body ++ rest := by
        rw [Quoting.enclose, Quoting.double_of_notMem hbody]
        simp
      show Brackets.Closes m d (m.quote :: (body ++ m.quote :: rest))
      rw [hliteral]
      exact hrest.behind (.literal body)
  · cases q with
    | true =>
      rw [advance_quoted d hquote] at h
      obtain ⟨body, rest, hbody, rfl, hrest⟩ := h
      exact ⟨c :: body, rest, by simp [hbody, Ne.symm hquote], rfl, hrest⟩
    | false =>
      by_cases hopening : c = m.opening
      · subst hopening
        rw [advance_opening] at h
        obtain ⟨inner, rest, hinner, rfl, hrest⟩ := h
        have hgroup : m.opening :: (inner ++ m.closing :: rest) = (m.opening :: (inner ++ [m.closing])) ++ rest := by simp
        show Brackets.Closes m d (m.opening :: (inner ++ m.closing :: rest))
        rw [hgroup]
        refine hrest.behind fun {s} hs => ?_
        have hbalanced : Balanced m (m.opening :: (inner ++ m.closing :: s)) := .group hinner hs
        simpa using hbalanced
      · by_cases hclosing : c = m.closing
        · subst hclosing
          rw [advance_closing] at h
          obtain ⟨d, rfl⟩ := Nat.exists_eq_add_one_of_ne_zero fun h0 => hgoes ⟨h0, rfl, rfl⟩
          exact ⟨[], s, .nil, rfl, h⟩
        · have hplain : m.Plain c := ⟨hquote, hopening, hclosing⟩
          rw [advance_plain d hplain] at h
          show Brackets.Closes m d ([c] ++ s)
          exact Closes.behind (.plain hplain trivial) h

theorem ending_closes : ∀ {s : List α} {d : Nat} {q : Bool} {v rest : List α}, ending m ⟨d, q⟩ s = some (v, rest) →
    s = v ++ m.closing :: rest ∧ State.Closes m ⟨d, q⟩ v
  | [], _, _, _, _, h => nomatch h
  | c :: s, d, q, v, rest, h => by
    rw [ending] at h
    by_cases hstop : d = 0 ∧ q = false ∧ c = m.closing
    · obtain ⟨rfl, rfl, rfl⟩ := hstop
      rw [if_pos ⟨rfl, rfl, rfl⟩] at h
      cases h
      exact ⟨rfl, Nested.nil⟩
    · rw [if_neg hstop] at h
      obtain ⟨⟨v', rest'⟩, hnext, heq⟩ := Option.map_eq_some_iff.mp h
      cases heq
      obtain ⟨rfl, hcloses⟩ := ending_closes hnext
      exact ⟨rfl, Closes.cons hcloses hstop⟩

/-- The closing bracket of a group is the one behind a balanced text. -/
theorem ending_iff {s v rest : List α} : ending m ⟨0, false⟩ s = some (v, rest) ↔ s = v ++ m.closing :: rest ∧ Balanced m v := by
  constructor
  · exact ending_closes
  · intro ⟨hs, hv⟩
    have hread : ending m ⟨0, false⟩ (v ++ m.closing :: rest) =
        (ending m ⟨0, false⟩ (m.closing :: rest)).map fun r => (v ++ r.1, r.2) :=
      (endings m).read_nested hv _ fun _ _ hc _ => hc.2.2
    rw [hs, hread, ending, if_pos ⟨rfl, rfl, rfl⟩, Option.map_some, List.append_nil]

/-- A loop with the same cases, which keeps something of the text it has read. -/
theorem ending_loop {γ : Type} {g : Nat → Bool → γ → List α → Option β} {step : γ → α → γ} {done : γ → List α → β}
    (hnil : ∀ d q a, g d q a [] = none)
    (hcons : ∀ d q a c s, g d q a (c :: s) =
      if c = m.quote then g d (!q) (step a c) s
      else if q then g d q (step a c) s
      else if c = m.opening then g (d + 1) q (step a c) s
      else if c = m.closing then if d = 0 then some (done a s) else g (d - 1) q (step a c) s
      else g d q (step a c) s) :
    ∀ (s : List α) (d : Nat) (q : Bool) (a : γ), g d q a s = (ending m ⟨d, q⟩ s).map fun r => done (r.1.foldl step a) r.2 := by
  intro s
  induction s with
  | nil => exact hnil
  | cons c s ih =>
    intro d q a
    rw [hcons, ending]
    by_cases hstop : d = 0 ∧ q = false ∧ c = m.closing
    · obtain ⟨rfl, rfl, rfl⟩ := hstop
      rw [if_neg m.quote_ne_closing.symm, if_neg Bool.false_ne_true, if_neg m.opening_ne_closing.symm, if_pos rfl, if_pos rfl,
        if_pos ⟨rfl, rfl, rfl⟩]
      rfl
    · rw [if_neg hstop, Option.map_map, advance]
      by_cases hquote : c = m.quote
      · rw [if_pos hquote, if_pos hquote]
        exact ih d (!q) (step a c)
      · rw [if_neg hquote, if_neg hquote]
        cases q with
        | true => exact ih d true (step a c)
        | false =>
          rw [if_neg Bool.false_ne_true, if_neg Bool.false_ne_true]
          by_cases hopening : c = m.opening
          · rw [if_pos hopening, if_pos hopening]
            exact ih (d + 1) false (step a c)
          · rw [if_neg hopening, if_neg hopening]
            by_cases hclosing : c = m.closing
            · have hdepth : d ≠ 0 := fun h0 => hstop ⟨h0, rfl, hclosing⟩
              rw [if_pos hclosing, if_pos hclosing, if_neg hdepth]
              exact ih (d - 1) false (step a c)
            · rw [if_neg hclosing, if_neg hclosing]
              exact ih d false (step a c)

/-! ## Separated texts -/

section
variable (m)

/-- The pieces between the separators outside of brackets and quotes. -/
def pieces (separator : α) (σ : State) : List α → List (List α)
  | [] => [[]]
  | c :: s =>
    if σ.depth = 0 ∧ σ.quoted = false ∧ c = separator then [] :: pieces separator σ s
    else (pieces separator (advance m σ c) s).modifyHead (c :: ·)

def piecing {separator : α} (hquote : m.quote ≠ separator) (hopening : m.opening ≠ separator) : Scanner m (List (List α)) where
  read := pieces m separator
  push s ps := ps.modifyHead (s ++ ·)
  stops := (· = separator)
  push_nil ps := by cases ps <;> rfl
  push_append s t ps := by cases ps <;> simp
  goes_quote := hquote
  goes_opening := hopening
  read_cons σ c s h := by
    rw [pieces, if_neg fun hstop => h hstop.1 hstop.2.1 hstop.2.2]
    rfl

end

variable {separator : α} (hquote : m.quote ≠ separator) (hopening : m.opening ≠ separator)
include hquote hopening

theorem pieces_nested {s : List α} (h : Nested m (· ≠ separator) s) (rest : List α) :
    pieces m separator ⟨0, false⟩ (s ++ rest) = (pieces m separator ⟨0, false⟩ rest).modifyHead (s ++ ·) :=
  (piecing m hquote hopening).read_nested h rest fun _ _ _ hp => hp

/-- Joined texts without separators outside of brackets and quotes are taken apart again. -/
theorem pieces_joined {s : List α} {items : List (List α)} (h : ∀ item ∈ s :: items, Nested m (· ≠ separator) item) :
    pieces m separator ⟨0, false⟩ ([separator].intercalate (s :: items)) = s :: items := by
  induction items generalizing s with
  | nil =>
    have hs := h s List.mem_cons_self
    rw [List.intercalate_singleton, ← List.append_nil s, pieces_nested hquote hopening hs]
    simp [pieces]
  | cons t items ih =>
    have hs := h s List.mem_cons_self
    have htail := ih fun item hitem => h item (List.mem_cons_of_mem _ hitem)
    rw [List.intercalate_cons_cons, List.append_assoc, pieces_nested hquote hopening hs, List.singleton_append, pieces,
      if_pos ⟨rfl, rfl, rfl⟩, htail]
    simp

end Brackets
