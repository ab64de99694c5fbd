import Mathlib

/-!
# Codecs between values and documents

A document is a tree of arrays and objects. A codec carries the proof that what it writes reads
back. The fields of a record are read by name from an object, or by position from an array.
-/

namespace Codecs

inductive Json where
  | null
  | bool (b : Bool)
  | integer (n : Int)
  /-- A number with a fraction or an exponent. -/
  | decimal (text : String)
  | string (s : String)
  | array (elements : List Json)
  | object (fields : List (String × Json))

structure Codec (α : Type) where
  encode : α → Json
  decode : Json → Except String α
  decode_encode : ∀ a, decode (encode a) = .ok a

attribute [simp] Codec.decode_encode

section
variable {α : Type}

/-! ## Scalars -/

def Codec.string : Codec String where
  encode := .string
  decode
    | .string s => .ok s
    | _ => .error "invalid type: expected a string"
  decode_encode _ := rfl

def Codec.bool : Codec Bool where
  encode := .bool
  decode
    | .bool b => .ok b
    | _ => .error "invalid type: expected a boolean"
  decode_encode _ := rfl

def Codec.u64 : Codec UInt64 where
  encode n := .integer n.toNat
  decode
    | .integer n => if 0 ≤ n ∧ n < 2 ^ 64 then .ok (UInt64.ofNat n.toNat) else .error "invalid value: expected u64"
    | _ => .error "invalid type: expected u64"
  decode_encode n := by
    have h := n.toNat_lt
    dsimp only
    rw [if_pos (by omega), Int.toNat_natCast, UInt64.ofNat_toNat]

def Codec.i64 : Codec Int64 where
  encode n := .integer n.toInt
  decode
    | .integer n => if -2 ^ 63 ≤ n ∧ n < 2 ^ 63 then .ok (Int64.ofInt n) else .error "invalid value: expected i64"
    | _ => .error "invalid type: expected i64"
  decode_encode n := by
    have hlo := n.le_toInt
    have hhi := n.toInt_lt
    dsimp only
    rw [if_pos (by omega), Int64.ofInt_toInt]

/-! ## Collections -/

/-- An absent value is written as `null`. -/
def Codec.option (c : Codec α) (h : ∀ a, c.encode a ≠ .null) : Codec (Option α) where
  encode
    | none => .null
    | some a => c.encode a
  decode
    | .null => .ok none
    | j => some <$> c.decode j
  decode_encode
    | none => rfl
    | some a => by
      have ha := h a
      have hd := c.decode_encode a
      dsimp only
      generalize c.encode a = j at ha hd
      cases j with
      | null => exact absurd rfl ha
      | _ =>
        dsimp only
        rw [hd]
        rfl

theorem mapM_encode {β : Type} {f : α → β} {g : β → Except String α} (h : ∀ a, g (f a) = .ok a) (as : List α) :
    (as.map f).mapM g = .ok as := by
  induction as with
  | nil => rfl
  | cons a as ih =>
    rw [List.map_cons, List.mapM_cons, h, ih]
    rfl

def Codec.list (c : Codec α) : Codec (List α) where
  encode as := .array (as.map c.encode)
  decode
    | .array js => js.mapM c.decode
    | _ => .error "invalid type: expected a sequence"
  decode_encode as := mapM_encode c.decode_encode as

/-- Puts a value under a key: in place of an earlier one, or at the end. -/
def put (m : AList fun _ : String => α) (k : String) (a : α) : AList fun _ : String => α :=
  if h : k ∈ m then
    ⟨m.entries.map fun e => if e.1 = k then ⟨k, a⟩ else e, by
      have hk : (m.entries.map fun e => if e.1 = k then (⟨k, a⟩ : Sigma fun _ => α) else e).keys = m.entries.keys := by
        unfold List.keys
        rw [List.map_map]
        refine List.map_congr_left fun e _ => ?_
        by_cases he : e.1 = k <;> simp [he]
      rw [List.NodupKeys, hk]
      exact m.nodupKeys⟩
  else
    ⟨m.entries ++ [⟨k, a⟩], by
      rw [List.NodupKeys, List.keys, List.map_append]
      refine List.nodup_append.mpr ⟨m.nodupKeys, by simp, ?_⟩
      intro k' hk' k'' hk'' he
      obtain rfl : k'' = k := List.mem_singleton.mp hk''
      exact h (he ▸ hk')⟩

/-- The map of the pairs; the last pair of a key counts. -/
def ofPairs (pairs : List (String × α)) : AList fun _ : String => α :=
  pairs.foldl (fun m p => put m p.1 p.2) ∅

theorem entries_foldl_put : ∀ (pairs : List (String × α)) (m : AList fun _ : String => α),
    (m.keys ++ pairs.map (·.1)).Nodup →
    (pairs.foldl (fun m p => put m p.1 p.2) m).entries = m.entries ++ pairs.map fun p => ⟨p.1, p.2⟩
  | [], m, _ => by simp
  | p :: ps, m, h => by
    have hp : p.1 ∉ m := by
      intro hin
      exact (List.nodup_append.mp h).2.2 p.1 hin p.1 (by simp) rfl
    have he : (put m p.1 p.2).entries = m.entries ++ [⟨p.1, p.2⟩] := by
      unfold put
      rw [dif_neg hp]
    have hkeys : (put m p.1 p.2).keys = m.keys ++ [p.1] := by
      unfold AList.keys
      rw [he, List.keys, List.map_append]
      rfl
    rw [List.foldl_cons, entries_foldl_put ps _ (by simpa [hkeys] using h), he, List.map_cons, List.append_assoc]
    rfl

theorem ofPairs_pairs (m : AList fun _ : String => α) : ofPairs (m.entries.map fun e => (e.1, e.2)) = m := by
  apply AList.ext
  unfold ofPairs
  rw [entries_foldl_put]
  · simp [List.map_map, Function.comp_def]
  · have hn := m.keys_nodup
    simpa [AList.keys, List.keys, List.map_map, Function.comp_def] using hn

def Codec.map (c : Codec α) : Codec (AList fun _ : String => α) where
  encode m := .object (m.entries.map fun e => (e.1, c.encode e.2))
  decode
    | .object fields => ofPairs <$> fields.mapM fun f => (f.1, ·) <$> c.decode f.2
    | _ => .error "invalid type: expected a map"
  decode_encode m := by
    have h := mapM_encode (f := fun p : String × α => (p.1, c.encode p.2))
      (g := fun f => (f.1, ·) <$> c.decode f.2) (fun p => by rw [c.decode_encode]; rfl)
      (m.entries.map fun e => (e.1, e.2))
    rw [List.map_map] at h
    dsimp only
    rw [show (fun e : Sigma fun _ : String => α => (e.1, c.encode e.2)) =
      (fun p : String × α => (p.1, c.encode p.2)) ∘ fun e => (e.1, e.2) from rfl, h]
    exact congrArg Except.ok (ofPairs_pairs m)

/-! ## Records -/

/-- What a document gives for a field of a record. -/
inductive Slot where
  | given (j : Json)
  /-- The object has no such field. -/
  | absent
  /-- The array ends before it. -/
  | short

/-- A field of an object. -/
def slotOf (fields : List (String × Json)) (name : String) : Except String Slot :=
  match fields.filter fun f => f.1 = name with
  | [] => .ok .absent
  | [f] => .ok (.given f.2)
  | _ => .error s!"duplicate field {name}"

/-- The fields of a record, in order, as a document has them. -/
def Json.slots (names : List String) : Json → Except String (String → Except String Slot)
  | .object fields => .ok (slotOf fields)
  | .array js =>
    if js.length ≤ names.length then .ok fun name => .ok (((names.zip js).lookup name).elim .short .given)
    else .error "invalid length"
  | _ => .error "invalid type: expected a struct"

/-- A field that must be there. -/
def Codec.required (c : Codec α) (slots : String → Except String Slot) (name : String) : Except String α := do
  match ← slots name with
  | .given j => c.decode j
  | .absent => .error s!"missing field {name}"
  | .short => .error "invalid length"

/-- A field whose type stands for its absence. -/
def Codec.optional (c : Codec (Option α)) (slots : String → Except String Slot) (name : String) :
    Except String (Option α) := do
  match ← slots name with
  | .given j => c.decode j
  | .absent => .ok none
  | .short => .error "invalid length"

/-- A field with a default. -/
def Codec.defaulted (c : Codec α) (default : α) (slots : String → Except String Slot) (name : String) :
    Except String α := do
  match ← slots name with
  | .given j => c.decode j
  | .absent | .short => .ok default

/-! ### What was written is read -/

theorem slots_object (names : List String) (fields : List (String × Json)) :
    (Json.object fields).slots names = .ok (slotOf fields) := (rfl)

theorem slotOf_cons_self {name : String} {j : Json} {fields : List (String × Json)}
    (h : (fields.all fun f => f.1 ≠ name) = true) : slotOf ((name, j) :: fields) name = .ok (.given j) := by
  have hnil : (fields.filter fun f => f.1 = name) = [] := by
    rw [List.filter_eq_nil_iff]
    intro f hf
    simpa using List.all_eq_true.mp h f hf
  unfold slotOf
  rw [List.filter_cons_of_pos (by simp), hnil]

theorem slotOf_cons_ne {name name' : String} {j : Json} {fields : List (String × Json)} (h : name' ≠ name) :
    slotOf ((name', j) :: fields) name = slotOf fields name := by
  unfold slotOf
  rw [List.filter_cons_of_neg (by simpa using h)]

@[simp] theorem ok_bind {β : Type} (a : α) (f : α → Except String β) : (Except.ok a >>= f) = f a := (rfl)

section
variable (c : Codec α) (a : α) {name name' : String} {j : Json} {fields : List (String × Json)}

@[simp] theorem required_cons_self (h : (fields.all fun f => f.1 ≠ name) = true) :
    c.required (slotOf ((name, c.encode a) :: fields)) name = .ok a := by
  unfold Codec.required
  rw [slotOf_cons_self h]
  exact c.decode_encode a

@[simp] theorem required_cons_ne (h : name' ≠ name) :
    c.required (slotOf ((name', j) :: fields)) name = c.required (slotOf fields) name := by
  unfold Codec.required
  rw [slotOf_cons_ne h]

@[simp] theorem optional_cons_self (c : Codec (Option α)) (a : Option α) (h : (fields.all fun f => f.1 ≠ name) = true) :
    c.optional (slotOf ((name, c.encode a) :: fields)) name = .ok a := by
  unfold Codec.optional
  rw [slotOf_cons_self h]
  exact c.decode_encode a

@[simp] theorem optional_cons_ne (c : Codec (Option α)) (h : name' ≠ name) :
    c.optional (slotOf ((name', j) :: fields)) name = c.optional (slotOf fields) name := by
  unfold Codec.optional
  rw [slotOf_cons_ne h]

@[simp] theorem defaulted_cons_self (d : α) (h : (fields.all fun f => f.1 ≠ name) = true) :
    c.defaulted d (slotOf ((name, c.encode a) :: fields)) name = .ok a := by
  unfold Codec.defaulted
  rw [slotOf_cons_self h]
  exact c.decode_encode a

@[simp] theorem defaulted_cons_ne (d : α) (h : name' ≠ name) :
    c.defaulted d (slotOf ((name', j) :: fields)) name = c.defaulted d (slotOf fields) name := by
  unfold Codec.defaulted
  rw [slotOf_cons_ne h]

end

/-- A required text is in the object. -/
theorem mem_of_required {fields : List (String × Json)} {names : List String} {slots : String → Except String Slot}
    {c : Codec α} {name : String} {a : α} (hs : (Json.object fields).slots names = .ok slots)
    (h : c.required slots name = .ok a) : ∃ j, (name, j) ∈ fields ∧ c.decode j = .ok a := by
  obtain rfl := Except.ok.inj hs
  unfold Codec.required slotOf at h
  match hf : fields.filter fun f => f.1 = name with
  | [] =>
    rw [hf] at h
    cases h
  | [f] =>
    rw [hf] at h
    have hin : f ∈ fields.filter fun f => f.1 = name := hf ▸ List.mem_singleton_self f
    obtain ⟨hmem, hname⟩ := List.mem_filter.mp hin
    obtain rfl : f.1 = name := by simpa using hname
    exact ⟨f.2, hmem, h⟩
  | f :: g :: fs =>
    rw [hf] at h
    cases h

/-- A map is read from an object. -/
theorem fields_of_map {c : Codec α} {doc : Json} {m : AList fun _ : String => α} (h : c.map.decode doc = .ok m) :
    ∃ fields pairs, doc = .object fields ∧ (fields.mapM fun f => (f.1, ·) <$> c.decode f.2) = .ok pairs := by
  unfold Codec.map at h
  cases doc with
  | object fields =>
    dsimp only at h
    cases hp : fields.mapM fun f => (f.1, ·) <$> c.decode f.2 with
    | error e =>
      rw [hp] at h
      cases h
    | ok pairs => exact ⟨fields, pairs, rfl, hp⟩
  | _ => cases h

/-- Every entry of a map that is read is read. -/
theorem decode_of_mem {c : Codec α} : ∀ {fields : List (String × Json)} {pairs : List (String × α)},
    (fields.mapM fun f => (f.1, ·) <$> c.decode f.2) = .ok pairs → ∀ f ∈ fields, ∃ a, c.decode f.2 = .ok a
  | [], _, _, f, hf => by cases hf
  | g :: fields, pairs, h, f, hf => by
    rw [List.mapM_cons] at h
    cases hg : c.decode g.2 with
    | error e =>
      rw [hg] at h
      cases h
    | ok a =>
      rcases List.mem_cons.mp hf with rfl | hf
      · exact ⟨a, hg⟩
      · rw [hg] at h
        cases hr : fields.mapM fun f => (f.1, ·) <$> c.decode f.2 with
        | error e =>
          rw [hr] at h
          cases h
        | ok rest => exact decode_of_mem hr f hf

end

end Codecs
