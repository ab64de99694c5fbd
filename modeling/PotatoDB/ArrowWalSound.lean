import PotatoDB.ArrowWal

/-!
# Recovery of the Arrow log

Recovery returns what was appended as long as each new segment's name comes after the names of the
live segments of its table. Below a million appends it does; the millionth name is shorter in the
order of texts than the one before it.
-/

namespace PotatoDB

/-! ## Names -/

def segmentDigits (seq : Nat) : List Char :=
  List.replicate (6 - (Nat.toDigits 10 seq).length) '0' ++ Nat.toDigits 10 seq

theorem segmentName_toList (seq : Nat) : (segmentName seq).toList = segmentDigits seq ++ ".arrow".toList := by
  simp [segmentName, segmentDigits]

theorem segmentDigits_isDigit {seq : Nat} {c : Char} (h : c ∈ segmentDigits seq) : c.isDigit := by
  rcases List.mem_append.mp h with h | h
  · obtain rfl := List.eq_of_mem_replicate h
    rfl
  · exact Nat.isDigit_of_mem_toDigits (by decide) (by decide) h

theorem segmentDigits_value (seq : Nat) : Nat.ofDigitChars 10 (segmentDigits seq) 0 = seq := by
  simp [segmentDigits, Nat.ofDigitChars_append]

theorem segmentDigits_ne_nil (seq : Nat) : segmentDigits seq ≠ [] := by
  simp [segmentDigits, Nat.toDigits_ne_nil]

theorem segmentDigits_length {seq : Nat} (h : seq < 10 ^ 6) : (segmentDigits seq).length = 6 := by
  have hlen : (Nat.toDigits 10 seq).length ≤ 6 := (Nat.length_toDigits_le_iff (by decide) (by decide)).mpr h
  simp only [segmentDigits, List.length_append, List.length_replicate]
  omega

/-- A name with a dot and no other after it. -/
theorem splitExtension_append {stem extension : List Char} (hs : stem ≠ []) (he : '.' ∉ extension) :
    splitExtension (stem ++ '.' :: extension) = (stem, some extension) := by
  unfold splitExtension
  have hspan : (stem ++ '.' :: extension).reverse.span (· ≠ '.') = (extension.reverse, '.' :: stem.reverse) := by
    have hnot : ∀ c ∈ extension.reverse, decide (c ≠ '.') = true := by
      intro c hc
      rw [List.mem_reverse] at hc
      simpa using fun h : c = '.' => he (h ▸ hc)
    rw [List.reverse_append, List.reverse_cons, List.append_assoc, List.span_eq_takeWhile_dropWhile,
      List.takeWhile_append_of_pos hnot, List.dropWhile_append_of_pos hnot]
    simp
  rw [hspan]
  obtain ⟨c, cs, hcs⟩ := List.exists_cons_of_ne_nil (List.reverse_ne_nil_iff.mpr hs)
  rw [hcs]
  simp [← hcs]

theorem splitExtension_segment (seq : Nat) :
    splitExtension (segmentName seq).toList = (segmentDigits seq, some "arrow".toList) := by
  rw [segmentName_toList]
  exact splitExtension_append (segmentDigits_ne_nil seq) (by decide)

theorem parseU64_segment {seq : Nat} (h : seq < 2 ^ 64) : parseU64 (segmentDigits seq) = some seq := by
  unfold parseU64
  have hplus : (segmentDigits seq).head? ≠ some '+' := by
    intro h
    have := segmentDigits_isDigit (List.mem_of_mem_head? h)
    exact absurd this (by decide)
  have hall : (segmentDigits seq).all (·.isDigit) = true :=
    List.all_eq_true.mpr fun c hc => segmentDigits_isDigit hc
  rw [if_neg hplus, if_pos ⟨segmentDigits_ne_nil seq, hall⟩, segmentDigits_value, if_pos h]

theorem digit_toNat {c : Char} (h : c.isDigit) : 48 ≤ c.toNat ∧ c.toNat ≤ 57 := Char.isDigit_iff_toNat.mp h

theorem ofDigitChars_head (c : Char) (l : List Char) :
    Nat.ofDigitChars 10 (c :: l) 0 = 10 ^ l.length * (c.toNat - 48) + Nat.ofDigitChars 10 l 0 := by
  rw [Nat.ofDigitChars_cons, Nat.ofDigitChars_eq_ofDigitChars_zero, Nat.mul_zero, Nat.zero_add]
  rfl

theorem digits_bound : ∀ {l : List Char}, (∀ c ∈ l, c.isDigit) → Nat.ofDigitChars 10 l 0 < 10 ^ l.length
  | [], _ => by simp
  | c :: l, h => by
    have hc : c.toNat - 48 ≤ 9 := by
      have := digit_toNat (h c List.mem_cons_self)
      omega
    have ih := digits_bound fun d hd => h d (List.mem_cons_of_mem _ hd)
    rw [ofDigitChars_head, List.length_cons, Nat.pow_succ]
    have := Nat.mul_le_mul_left (10 ^ l.length) hc
    omega

/-- Digits of equal length are in the order of their numbers, whatever follows them. -/
theorem digits_lt : ∀ {l m : List Char}, (∀ c ∈ l, c.isDigit) → (∀ c ∈ m, c.isDigit) → l.length = m.length →
    Nat.ofDigitChars 10 l 0 < Nat.ofDigitChars 10 m 0 → ∀ s t : List Char, l ++ s < m ++ t
  | [], [], _, _, _, h, _, _ => absurd h (Nat.lt_irrefl _)
  | c :: l, d :: m, hl, hm, hlen, h, s, t => by
    have hlen' : l.length = m.length := Nat.succ.inj hlen
    rw [ofDigitChars_head, ofDigitChars_head, hlen'] at h
    have hc := digit_toNat (hl c List.mem_cons_self)
    have hd := digit_toNat (hm d List.mem_cons_self)
    have hbound := digits_bound fun x hx => hm x (List.mem_cons_of_mem d hx)
    rw [List.cons_append, List.cons_append, List.cons_lt_cons_iff]
    rcases Nat.lt_trichotomy c.toNat d.toNat with hlt | heq | hgt
    · exact Or.inl hlt
    · refine Or.inr ⟨Char.toNat_inj.mp heq, digits_lt (fun x hx => hl x (List.mem_cons_of_mem c hx))
        (fun x hx => hm x (List.mem_cons_of_mem d hx)) hlen' ?_ s t⟩
      rw [heq] at h
      omega
    · have := Nat.mul_le_mul_left (10 ^ m.length) (show (d.toNat - 48) + 1 ≤ c.toNat - 48 by omega)
      rw [Nat.mul_add] at this
      omega

/-- **Below a million, names are in the order of their numbers.** -/
theorem segmentName_lt {m n : Nat} (h : m < n) (hn : n < 10 ^ 6) : segmentName m < segmentName n := by
  rw [String.lt_iff_toList_lt, segmentName_toList, segmentName_toList]
  refine digits_lt (fun _ => segmentDigits_isDigit) (fun _ => segmentDigits_isDigit) ?_ ?_ _ _
  · rw [segmentDigits_length hn, segmentDigits_length (by omega)]
  · rwa [segmentDigits_value, segmentDigits_value]

/-! ## One step -/

/-- The name of the new segment comes after the names of the live segments of its table. -/
def ArrowOp.InOrder (w : ArrowWal) : ArrowOp → Prop
  | .append table batches => batches ≠ [] → ∀ dir, w.dirs.lookup table = some dir →
    ∀ name ∈ dir, name < segmentName ((w.seq + 1) % 2 ^ 64)
  | _ => True

/-- Directories that `append` does not create again are there. -/
def ArrowWal.KnowsDirs (w : ArrowWal) : Prop := ∀ table ∈ w.knownDirs, table ∈ w.dirs

/-- The log gives back a record of batches. -/
def ArrowWal.Recovers (w : ArrowWal) (log : Map (List RecordBatch)) : Prop :=
  ∀ table, w.recover.lookup table = log.lookup table

section
variable {w : ArrowWal} {log : Map (List RecordBatch)}

theorem lookup_recover (w : ArrowWal) (table : String) :
    w.recover.lookup table = (w.dirs.lookup table).map fun dir => dir.sorted.flatMap (·.2) :=
  Map.lookup_mapValues _ _ _

theorem sorted_insert {dir : SegmentDir} {seq : Nat} {batches : List RecordBatch}
    (h : ∀ name ∈ dir, name < segmentName seq) :
    SegmentDir.sorted (dir.insert (segmentName seq) batches) = dir.sorted ++ [(segmentName seq, batches)] := by
  have hnot : segmentName seq ∉ dir := fun hm => lt_irrefl _ (h _ hm)
  have hpairs : Map.pairs (dir.insert (segmentName seq) batches) = (segmentName seq, batches) :: Map.pairs dir := by
    unfold Map.pairs
    rw [AList.entries_insert_of_notMem hnot, List.map_cons]
  unfold SegmentDir.sorted
  rw [hpairs, List.filter_cons_of_pos (by simp [splitExtension_segment]), List.insertionSort_cons_eq_take_drop]
  have hlater : ∀ f ∈ ((Map.pairs dir).filter fun f => (splitExtension f.1.toList).2 = some "arrow".toList).insertionSort
      (·.1 ≤ ·.1), decide (¬ segmentName seq ≤ f.1) = true := by
    intro f hf
    rw [List.mem_insertionSort, List.mem_filter] at hf
    rw [decide_eq_true_eq, not_le]
    exact h _ (Map.mem_iff_lookup.mpr ⟨f.2, Map.mem_pairs.mp hf.1⟩)
  rw [List.takeWhile_eq_self_iff.mpr hlater, List.dropWhile_eq_nil_iff.mpr hlater]

/-- The directories after `create_dir_all`. -/
theorem lookup_createDir (dirs : Map SegmentDir) (table : String) :
    (ArrowWal.createDir dirs table).lookup table = some ((dirs.lookup table).getD ∅) ∧
      ∀ t, t ≠ table → (ArrowWal.createDir dirs table).lookup t = dirs.lookup t := by
  unfold ArrowWal.createDir
  by_cases h : table ∈ dirs
  · rw [if_pos h]
    obtain ⟨dir, hdir⟩ := Map.mem_iff_lookup.mp h
    exact ⟨by rw [hdir, Option.getD_some], fun _ _ => rfl⟩
  · rw [if_neg h, AList.lookup_insert, AList.lookup_eq_none.mpr h, Option.getD_none]
    exact ⟨rfl, fun t ht => AList.lookup_insert_ne ht⟩

/-- One more segment, in a table's directory that is there. -/
theorem appended (hk : w.KnowsDirs) {table : String} {dirs : Map SegmentDir} (hother : ∀ t, t ≠ table → dirs.lookup t = w.dirs.lookup t)
    (segment : String) (batches : List RecordBatch) (seq : Nat) (dir : SegmentDir) :
    (⟨dirs.insert table (dir.insert segment batches), seq, table :: w.knownDirs⟩ : ArrowWal).KnowsDirs ∧
      (dirs.insert table (dir.insert segment batches)).lookup table = some (dir.insert segment batches) ∧
      ∀ t, t ≠ table → (dirs.insert table (dir.insert segment batches)).lookup t = w.dirs.lookup t := by
  refine ⟨fun t ht => ?_, AList.lookup_insert _, fun t ht => (AList.lookup_insert_ne ht).trans (hother t ht)⟩
  rw [AList.mem_insert]
  rcases List.mem_cons.mp ht with ht | ht
  · exact Or.inl ht
  · by_cases hne : t = table
    · exact Or.inl hne
    · obtain ⟨dir, hdir⟩ := Map.mem_iff_lookup.mp (hk t ht)
      exact Or.inr (Map.mem_iff_lookup.mpr ⟨dir, (hother t hne).trans hdir⟩)

/-- Appending never fails, and writes one segment. -/
theorem append_eq (hk : w.KnowsDirs) {table : String} {batches : List RecordBatch} (hb : batches ≠ []) :
    ∃ w', w.append table batches = .ok w' ∧ w'.KnowsDirs ∧ w'.seq = (w.seq + 1) % 2 ^ 64 ∧
      w'.dirs.lookup table = some (((w.dirs.lookup table).getD ∅).insert (segmentName ((w.seq + 1) % 2 ^ 64)) batches) ∧
      ∀ t, t ≠ table → w'.dirs.lookup t = w.dirs.lookup t := by
  unfold ArrowWal.append
  rw [if_neg hb]
  by_cases ht : table ∈ w.knownDirs
  · obtain ⟨dir, hdir⟩ := Map.mem_iff_lookup.mp (hk table ht)
    have hlook : w.dirs.lookup table = some ((w.dirs.lookup table).getD ∅) := by rw [hdir, Option.getD_some]
    have hdone := @appended w hk table w.dirs (fun _ _ => rfl) (segmentName ((w.seq + 1) % 2 ^ 64)) batches ((w.seq + 1) % 2 ^ 64) ((w.dirs.lookup table).getD ∅)
    simp only [if_pos ht]
    rw [hlook]
    exact ⟨_, rfl, hdone.1, rfl, hdone.2⟩
  · have hlook := lookup_createDir w.dirs table
    have hdone := appended hk hlook.2 (segmentName ((w.seq + 1) % 2 ^ 64)) batches ((w.seq + 1) % 2 ^ 64) ((w.dirs.lookup table).getD ∅)
    simp only [if_neg ht]
    rw [hlook.1]
    exact ⟨_, rfl, hdone.1, rfl, hdone.2⟩

theorem step_ok (hk : w.KnowsDirs) (op : ArrowOp) : ∃ w', w.step op = .ok w' ∧ w'.KnowsDirs := by
  cases op with
  | append table batches =>
    simp only [ArrowWal.step]
    by_cases hb : batches = []
    · exact ⟨w, if_pos hb, hk⟩
    · obtain ⟨w', hw, hk', -⟩ := append_eq hk hb
      exact ⟨w', hw, hk'⟩
  | checkpointTable table =>
    refine ⟨_, rfl, fun t ht => ?_⟩
    obtain ⟨ht, hne⟩ := List.mem_filter.mp ht
    exact AList.mem_erase.mpr ⟨of_decide_eq_true hne, hk t ht⟩
  | checkpointAll | reopen => exact ⟨_, rfl, fun _ h => absurd h List.not_mem_nil⟩

/-- **One step keeps the record.** -/
theorem recovers_step (hk : w.KnowsDirs) (hr : w.Recovers log) {op : ArrowOp} (ho : op.InOrder w) {w' : ArrowWal}
    (hs : w.step op = .ok w') : w'.Recovers (op.record log) := by
  cases op with
  | append table batches =>
    simp only [ArrowWal.step, ArrowOp.record] at hs ⊢
    by_cases hb : batches = []
    · rw [if_pos hb]
      obtain rfl := Except.ok.inj ((if_pos hb : w.append table batches = .ok w).symm.trans hs)
      exact hr
    · rw [if_neg hb]
      obtain ⟨w₁, hw, -, -, hdir, hother⟩ := append_eq hk hb
      obtain rfl := Except.ok.inj (hw.symm.trans hs)
      intro t
      by_cases ht : t = table
      · subst ht
        rw [lookup_recover, hdir, AList.lookup_insert, Option.map_some, ← hr t, lookup_recover]
        cases hold : w.dirs.lookup t with
        | none =>
          rw [Option.getD_none, sorted_insert (by simp)]
          simp [SegmentDir.sorted, Map.pairs]
        | some dir =>
          rw [Option.getD_some, sorted_insert (ho hb dir hold)]
          simp
      · rw [lookup_recover, hother t ht, AList.lookup_insert_ne ht, ← hr t, lookup_recover]
  | checkpointTable table =>
    obtain rfl := Except.ok.inj hs
    intro t
    unfold ArrowOp.record
    by_cases ht : t = table
    · subst ht
      rw [lookup_recover, AList.lookup_erase]
      exact (congrArg _ (AList.lookup_erase _ _)).trans rfl
    · rw [lookup_recover, AList.lookup_erase_ne ht, ← hr t, lookup_recover]
      exact congrArg _ (AList.lookup_erase_ne ht)
  | checkpointAll =>
    obtain rfl := Except.ok.inj hs
    exact fun _ => rfl
  | reopen =>
    obtain rfl := Except.ok.inj hs
    exact hr

end

/-! ## Runs -/

/-- Each segment of the run comes after the live ones of its table. -/
def ArrowWal.InOrder : ArrowWal → List ArrowOp → Prop
  | _, [] => True
  | w, op :: ops => op.InOrder w ∧ ∀ w', w.step op = .ok w' → w'.InOrder ops

theorem run_recovers : ∀ {ops : List ArrowOp} {w : ArrowWal} {log : Map (List RecordBatch)}, w.KnowsDirs →
    w.Recovers log → w.InOrder ops → ∃ w', w.run ops = .ok w' ∧ w'.Recovers (ops.foldl ArrowOp.record log)
  | [], w, _, _, hr, _ => ⟨w, rfl, hr⟩
  | op :: ops, w, log, hk, hr, ho => by
    obtain ⟨w₁, hw₁, hk₁⟩ := step_ok hk op
    obtain ⟨w', hw', hr'⟩ := run_recovers hk₁ (recovers_step hk hr ho.1 hw₁) (ho.2 w₁ hw₁)
    refine ⟨w', ?_, hr'⟩
    unfold ArrowWal.run
    rw [hw₁]
    exact hw'

/-- **The log gives back what was appended since the last checkpoint, in order.** -/
theorem arrowWal_recovers {ops : List ArrowOp} (h : ArrowWal.fresh.InOrder ops) :
    ∃ w, ArrowWal.fresh.run ops = .ok w ∧
      ∀ table, w.recover.lookup table = (ops.foldl ArrowOp.record ∅).lookup table :=
  run_recovers (fun _ h => absurd h List.not_mem_nil) (fun _ => rfl) h

/-! ## Fewer than a million appends -/

/-- The live segments have numbers up to the counter. -/
def ArrowWal.Numbered (w : ArrowWal) : Prop :=
  ∀ table dir, w.dirs.lookup table = some dir → ∀ name ∈ dir, ∃ n ≤ w.seq, name = segmentName n

theorem maxExistingSeq_numbered {dirs : Map SegmentDir} {bound : Nat} (hb : bound < 2 ^ 64)
    (h : ∀ table dir, dirs.lookup table = some dir → ∀ name ∈ dir, ∃ n ≤ bound, name = segmentName n) :
    (ArrowWal.openDirs dirs).seq ≤ bound ∧ (ArrowWal.openDirs dirs).Numbered := by
  have hparse : ∀ n ≤ bound, parseU64 (splitExtension (segmentName n).toList).1 = some n := by
    intro n hn
    rw [splitExtension_segment]
    exact parseU64_segment (by omega)
  unfold ArrowWal.openDirs ArrowWal.Numbered
  show (ArrowWal.maxExistingSeq dirs).getD 0 ≤ bound ∧
    ∀ table dir, dirs.lookup table = some dir → ∀ name ∈ dir, ∃ n ≤ (ArrowWal.maxExistingSeq dirs).getD 0,
      name = segmentName n
  have hmem : ∀ n, n ∈ (dirs.values.flatMap fun dir => dir.keys.filterMap fun name =>
      parseU64 (splitExtension name.toList).1) ↔ ∃ table dir, dirs.lookup table = some dir ∧
        ∃ name ∈ dir, n ≤ bound ∧ name = segmentName n := by
    intro n
    rw [List.mem_flatMap]
    constructor
    · rintro ⟨dir, hdir, hn⟩
      obtain ⟨table, ht⟩ := Map.mem_values hdir
      obtain ⟨name, hname, hp⟩ := List.mem_filterMap.mp hn
      obtain ⟨k, hk, rfl⟩ := h table dir ht name (AList.mem_keys.mpr hname)
      obtain rfl := Option.some.inj ((hparse k hk).symm.trans hp)
      exact ⟨table, dir, ht, _, hname, hk, rfl⟩
    · rintro ⟨table, dir, ht, _, hname, hn, rfl⟩
      exact ⟨dir, Map.values_mem ht, List.mem_filterMap.mpr ⟨_, hname, hparse n hn⟩⟩
  cases hmax : ArrowWal.maxExistingSeq dirs with
  | none =>
    refine ⟨Nat.zero_le _, fun table dir ht name hname => ?_⟩
    obtain ⟨n, hn, rfl⟩ := h table dir ht name hname
    have := (hmem n).mpr ⟨table, dir, ht, _, hname, hn, rfl⟩
    rw [List.max?_eq_none_iff.mp hmax] at this
    exact absurd this List.not_mem_nil
  | some m =>
    obtain ⟨hin, hle⟩ := List.max?_eq_some_iff.mp hmax
    obtain ⟨-, -, -, -, -, hm, -⟩ := (hmem m).mp hin
    refine ⟨hm, fun table dir ht name hname => ?_⟩
    obtain ⟨n, hn, rfl⟩ := h table dir ht name hname
    exact ⟨n, hle n ((hmem n).mpr ⟨table, dir, ht, _, hname, hn, rfl⟩), rfl⟩

def ArrowOp.isAppend : ArrowOp → Bool
  | .append .. => true
  | _ => false

/-- A step other than an append does not raise the counter, and an append raises it by one. -/
theorem numbered_step {w w' : ArrowWal} (hk : w.KnowsDirs) (hn : w.Numbered) {op : ArrowOp}
    (hseq : w.seq + 1 < 2 ^ 64) (hs : w.step op = .ok w') :
    w'.Numbered ∧ w'.seq ≤ w.seq + (if op.isAppend then 1 else 0) := by
  cases op with
  | append table batches =>
    unfold ArrowWal.step at hs
    by_cases hb : batches = []
    · have : w.append table batches = .ok w := if_pos hb
      obtain rfl := Except.ok.inj (this.symm.trans hs)
      exact ⟨hn, Nat.le_add_right _ _⟩
    · obtain ⟨w₁, hw, -, hs₁, hdir, hother⟩ := append_eq hk hb
      obtain rfl := Except.ok.inj (hw.symm.trans hs)
      rw [Nat.mod_eq_of_lt hseq] at hs₁ hdir
      refine ⟨fun t dir ht name hname => ?_, Nat.le_of_eq hs₁⟩
      rw [hs₁]
      by_cases hne : t = table
      · subst hne
        obtain rfl := Option.some.inj (hdir.symm.trans ht)
        rcases (AList.mem_insert _).mp hname with rfl | hname
        · exact ⟨_, Nat.le_refl _, rfl⟩
        · cases hold : w.dirs.lookup t with
          | none =>
            rw [hold] at hname
            exact absurd hname (AList.notMem_empty _)
          | some dir =>
            rw [hold] at hname
            obtain ⟨n, hle, rfl⟩ := hn t dir hold name hname
            exact ⟨n, Nat.le_succ_of_le hle, rfl⟩
      · obtain ⟨n, hle, rfl⟩ := hn t dir ((hother t hne).symm.trans ht) name hname
        exact ⟨n, Nat.le_succ_of_le hle, rfl⟩
  | checkpointTable table =>
    obtain rfl := Except.ok.inj hs
    refine ⟨fun t dir ht name hname => ?_, Nat.le_refl _⟩
    by_cases hne : t = table
    · subst hne
      cases (AList.lookup_erase _ _).symm.trans ht
    · exact hn t dir ((AList.lookup_erase_ne hne).symm.trans ht) name hname
  | checkpointAll =>
    obtain rfl := Except.ok.inj hs
    exact ⟨fun _ _ ht => (nomatch ht), Nat.le_refl _⟩
  | reopen =>
    obtain rfl := Except.ok.inj hs
    obtain ⟨hle, hn'⟩ := maxExistingSeq_numbered (Nat.lt_of_succ_lt hseq) hn
    exact ⟨hn', hle⟩

/-- **A run with fewer than a million appends is in order.** -/
theorem inOrder_of_few : ∀ {ops : List ArrowOp} {w : ArrowWal}, w.KnowsDirs → w.Numbered →
    w.seq + (ops.filter ArrowOp.isAppend).length < 10 ^ 6 → w.InOrder ops
  | [], _, _, _, _ => trivial
  | op :: ops, w, hk, hn, hlt => by
    refine ⟨?_, fun w' hw => ?_⟩
    · cases op with
      | append table batches =>
        intro _ dir hdir name hname
        obtain ⟨n, hle, rfl⟩ := hn table dir hdir name hname
        rw [List.filter_cons_of_pos rfl, List.length_cons] at hlt
        rw [Nat.mod_eq_of_lt (by omega)]
        exact segmentName_lt (by omega) (by omega)
      | _ => trivial
    · have hcount : (if op.isAppend then 1 else 0) + (ops.filter ArrowOp.isAppend).length =
          ((op :: ops).filter ArrowOp.isAppend).length := by
        cases hop : op.isAppend
        · rw [List.filter_cons_of_neg (by simp [hop])]
          simp
        · rw [List.filter_cons_of_pos hop, List.length_cons, if_pos rfl, Nat.add_comm]
      obtain ⟨w₁, hw₁, hk₁⟩ := step_ok hk op
      obtain rfl := Except.ok.inj (hw₁.symm.trans hw)
      obtain ⟨hn', hle⟩ := numbered_step hk hn (by omega) hw
      exact inOrder_of_few hk₁ hn' (by omega)

/-- With fewer than a million appends since the log was created, nothing is lost or reordered. -/
theorem arrowWal_recovers_few {ops : List ArrowOp} (h : (ops.filter ArrowOp.isAppend).length < 10 ^ 6) :
    ∃ w, ArrowWal.fresh.run ops = .ok w ∧
      ∀ table, w.recover.lookup table = (ops.foldl ArrowOp.record ∅).lookup table :=
  run_recovers (fun _ h => absurd h List.not_mem_nil) (fun _ => rfl)
    (inOrder_of_few (fun _ h => absurd h List.not_mem_nil) (fun _ _ h => by cases h) ((Nat.zero_add _).symm ▸ h))

/-! ## A million appends -/

def flagBatch (b : Bool) : RecordBatch := ⟨[⟨"a", "BOOLEAN", true⟩], [[.bool b]]⟩

/-- A segment before a reopening and one after it. -/
theorem arrowWal_recovers_reopened :
    ∃ w, ArrowWal.fresh.run [.append "t" [flagBatch true], .reopen, .append "t" [flagBatch false]] = .ok w ∧
      ∀ table, w.recover.lookup table = (([.append "t" [flagBatch true], .reopen, .append "t" [flagBatch false]] :
        List ArrowOp).foldl ArrowOp.record ∅).lookup table :=
  arrowWal_recovers (inOrder_of_few (fun _ h => absurd h List.not_mem_nil) (fun _ _ h => by cases h) (by decide))

theorem run_append : ∀ {ops ops' : List ArrowOp} {w w₁ : ArrowWal}, w.run ops = .ok w₁ →
    w.run (ops ++ ops') = w₁.run ops'
  | [], _, _, _, h => by
    obtain rfl := Except.ok.inj h
    rfl
  | op :: ops, ops', w, w₁, h => by
    unfold ArrowWal.run at h
    rw [List.cons_append, ArrowWal.run]
    cases hs : w.step op with
    | error e =>
      rw [hs] at h
      cases h
    | ok w₂ =>
      rw [hs] at h
      exact run_append h

/-- Appends to one table raise the counter and leave another table alone. -/
theorem run_replicate {table other : String} (hne : other ≠ table) {batches : List RecordBatch} (hb : batches ≠ []) :
    ∀ (n : Nat) {w : ArrowWal}, w.KnowsDirs → w.seq + n < 2 ^ 64 →
      ∃ w', w.run (List.replicate n (.append table batches)) = .ok w' ∧ w'.KnowsDirs ∧ w'.seq = w.seq + n ∧
        w'.dirs.lookup other = w.dirs.lookup other
  | 0, w, hk, _ => ⟨w, rfl, hk, rfl, rfl⟩
  | n + 1, w, hk, hseq => by
    obtain ⟨w₁, hw, hk₁, hs₁, -, hother⟩ := append_eq hk hb
    rw [Nat.mod_eq_of_lt (by omega)] at hs₁
    obtain ⟨w', hw', hk', hs', hother'⟩ := run_replicate hne hb n hk₁ (by omega)
    refine ⟨w', ?_, hk', by omega, hother'.trans (hother other hne)⟩
    rw [List.replicate_succ, ArrowWal.run]
    show (w.append table batches >>= fun w => w.run _) = _
    rw [hw]
    exact hw'

theorem record_replicate {table other : String} (hne : other ≠ table) (batches : List RecordBatch) :
    ∀ (n : Nat) (log : Map (List RecordBatch)),
      ((List.replicate n (ArrowOp.append table batches)).foldl ArrowOp.record log).lookup other = log.lookup other
  | 0, _ => rfl
  | n + 1, log => by
    rw [List.replicate_succ, List.foldl_cons, record_replicate hne batches n]
    simp only [ArrowOp.record]
    by_cases hb : batches = []
    · rw [if_pos hb]
    · rw [if_neg hb, AList.lookup_insert_ne hne]

theorem sorted_million (a b : List RecordBatch) :
    SegmentDir.sorted (AList.insert (segmentName 1000000) b (AList.insert (segmentName 999999) a ∅)) =
      [(segmentName 1000000, b), (segmentName 999999, a)] := by
  have hlt : segmentName 1000000 < segmentName 999999 := by
    rw [String.lt_iff_toList_lt, segmentName_toList, segmentName_toList]
    decide
  have hnot : segmentName 1000000 ∉ AList.insert (segmentName 999999) a (∅ : SegmentDir) := by
    rw [AList.mem_insert]
    rintro (h | h)
    · exact absurd h hlt.ne
    · exact absurd h (AList.notMem_empty _)
  have hpairs : Map.pairs (AList.insert (segmentName 1000000) b (AList.insert (segmentName 999999) a ∅)) =
      [(segmentName 1000000, b), (segmentName 999999, a)] := by
    unfold Map.pairs
    rw [AList.entries_insert_of_notMem hnot]
    rfl
  unfold SegmentDir.sorted
  rw [hpairs, List.filter_eq_self.mpr (by simp [splitExtension_segment])]
  refine List.insertionSort_cons_of_forall_rel _ fun f hf => ?_
  obtain rfl := List.mem_singleton.mp hf
  exact hlt.le

/-- **The millionth segment is recovered before the one it follows.** -/
theorem millionth_segment_reorders :
    let ops := List.replicate 999998 (.append "u" [flagBatch true]) ++
      [.append "t" [flagBatch true], .append "t" [flagBatch false]]
    ∃ w, ArrowWal.fresh.run ops = .ok w ∧
      w.recover.lookup "t" = some [flagBatch false, flagBatch true] ∧
      (ops.foldl ArrowOp.record ∅).lookup "t" = some [flagBatch true, flagBatch false] := by
  have hne : "t" ≠ "u" := by decide
  have hk : ArrowWal.fresh.KnowsDirs := fun _ h => absurd h List.not_mem_nil
  obtain ⟨w₀, hw₀, hk₀, hs₀, ht₀⟩ := run_replicate hne (List.cons_ne_nil (flagBatch true) []) 999998 hk (by decide)
  obtain ⟨w₁, hw₁, hk₁, hs₁, ht₁, -⟩ := append_eq hk₀ (List.cons_ne_nil (flagBatch true) [])
  obtain ⟨w₂, hw₂, -, -, ht₂, -⟩ := append_eq hk₁ (List.cons_ne_nil (flagBatch false) [])
  rw [show (w₀.seq + 1) % 2 ^ 64 = 999999 by rw [hs₀]; rfl] at hs₁ ht₁
  rw [hs₁, ht₁, ht₀] at ht₂
  refine ⟨w₂, ?_, ?_, ?_⟩
  · rw [run_append hw₀, ArrowWal.run]
    show (w₀.append _ _ >>= _) = _
    rw [hw₁]
    show (w₁.append _ _ >>= _) = _
    rw [hw₂]
    rfl
  · rw [lookup_recover, ht₂]
    show some ((SegmentDir.sorted _).flatMap _) = _
    exact congrArg (fun l => some (l.flatMap Prod.snd)) (sorted_million _ _)
  · rw [List.foldl_append, List.foldl_cons, List.foldl_cons, List.foldl_nil]
    have hrec := record_replicate hne [flagBatch true] 999998 ∅
    simp only [ArrowOp.record, List.cons_ne_nil, if_false, AList.lookup_insert, hrec]
    rfl

end PotatoDB
