import PotatoDB.WalSound

/-!
# Appending after a reopen

The engine opens the log in append mode and truncates it only after replaying something.
Appended entries are then recovered exactly when the old file was truncated, or when it had
neither a torn tail nor an abort marker.
-/

namespace PotatoDB

/-! ## Lengths of texts -/

theorem asBytes_eq (s : String) : asBytes s = s.toList.flatMap String.utf8EncodeChar := by
  have h : s.toByteArray = s.toList.utf8Encode := by
    rw [← String.toByteArray_ofList, String.ofList_toList]
  rw [asBytes, String.toUTF8_eq_toByteArray, h, List.utf8Encode, List.data_toByteArray]

theorem flatMap_utf8_length : ∀ (cs : List Char),
    cs.length ≤ (cs.flatMap String.utf8EncodeChar).length ∧
      (cs.flatMap String.utf8EncodeChar).length ≤ 4 * cs.length
  | [] => by simp
  | c :: cs => by
    have ih := flatMap_utf8_length cs
    have h1 := Char.utf8Size_pos c
    have h4 := Char.utf8Size_le_four c
    simp only [List.flatMap_cons, List.length_append, String.length_utf8EncodeChar, List.length_cons]
    omega

theorem asBytes_length (s : String) :
    s.length ≤ (asBytes s).length ∧ (asBytes s).length ≤ 4 * s.length := by
  rw [asBytes_eq, ← String.length_toList]
  exact flatMap_utf8_length s.toList

theorem asBytes_of_fromUTF8? {bs : Bytes} {s : String} (h : String.fromUTF8? ⟨bs.toArray⟩ = some s) :
    asBytes s = bs := by
  unfold String.fromUTF8? at h
  split at h
  · cases h; rfl
  · cases h

theorem decodeStep_le (b : UInt8) (bs : Bytes) : (decodeStep b bs).2 ≤ 3 := by
  unfold decodeStep
  split <;> repeat' split
  all_goals simp

theorem decodeLossy_length : ∀ (n : Nat) (bs : Bytes), bs.length ≤ n →
    (decodeLossy n bs).length ≤ bs.length ∧ bs.length ≤ 4 * (decodeLossy n bs).length
  | 0, bs, h => by
    have hb : bs = [] := List.length_eq_zero_iff.mp (by omega)
    subst hb
    simp [decodeLossy]
  | n + 1, [], _ => by simp [decodeLossy]
  | n + 1, b :: bs, h => by
    have hstep := decodeStep_le b bs
    have ih := decodeLossy_length n (bs.drop (decodeStep b bs).2) (by simp at h ⊢; omega)
    rw [List.length_drop] at ih
    simp only [decodeLossy, List.length_cons]
    omega

theorem fromUtf8Lossy_length (bs : Bytes) :
    (fromUtf8Lossy bs).length ≤ bs.length ∧ bs.length ≤ 4 * (fromUtf8Lossy bs).length := by
  unfold fromUtf8Lossy
  split
  · rename_i s h
    have hs := asBytes_length s
    rwa [asBytes_of_fromUTF8? h] at hs
  · rw [String.length_ofList]
    exact decodeLossy_length bs.length bs (Nat.le_refl _)

/-- A text of `n` one-byte characters. -/
def filler (n : Nat) : String := String.ofList (List.replicate n 'x')

@[simp] theorem filler_length (n : Nat) : (filler n).length = n := by
  simp [filler, String.length_ofList]

@[simp] theorem asBytes_filler_length (n : Nat) : (asBytes (filler n)).length = n := by
  rw [asBytes_eq, filler, String.toList_ofList]
  induction n with
  | zero => rfl
  | succ n ih =>
    have hx : (String.utf8EncodeChar 'x').length = 1 := rfl
    rw [List.replicate_succ, List.flatMap_cons, List.length_append, ih, hx, Nat.add_comm]

theorem filler_ne_empty {n : Nat} (h : 0 < n) : filler n ≠ "" := by
  intro he
  have hl := filler_length n
  rw [he, String.length_empty] at hl
  omega

section
variable (crc : Bytes → UInt32)

/-! ## Intact frames and the tail -/

/-- The file is the intact frames of `es` followed by a tail at which the scan stops. -/
inductive Frames : Bytes → List WalEntry → Bytes → Prop where
  | stop {tail : Bytes} (h : readFrame crc tail = .ok none) : Frames tail [] tail
  | frame {file rest tail : Bytes} {e : WalEntry} {es : List WalEntry}
      (h : readFrame crc file = .ok (some (e, rest))) (t : Frames rest es tail) :
      Frames file (e :: es) tail

variable {crc}

theorem Frames.scan_eq {file tail : Bytes} {es : List WalEntry} (h : Frames crc file es tail) :
    scan crc file = .ok es := by
  induction h with
  | stop h => exact scan_stop crc h
  | frame h _ ih => rw [scan_frame crc h, ih]; rfl

theorem Frames.stuck {file tail : Bytes} {es : List WalEntry} (h : Frames crc file es tail) :
    readFrame crc tail = .ok none := by
  induction h with
  | stop h => exact h
  | frame _ _ ih => exact ih

theorem frames_of_scan : ∀ (n : Nat) (file : Bytes), file.length ≤ n → ∀ {es : List WalEntry},
    scan crc file = .ok es → ∃ tail, Frames crc file es tail
  | 0, file, hn, es, h => by
    have hr : readFrame crc file = .ok none := readFrame_tiny crc (by omega)
    rw [scan_stop crc hr] at h
    cases h
    exact ⟨file, .stop hr⟩
  | n + 1, file, hn, es, h => by
    cases hr : readFrame crc file with
    | error err => rw [scan_error crc hr] at h; cases h
    | ok r =>
      cases r with
      | none =>
        rw [scan_stop crc hr] at h
        cases h
        exact ⟨file, .stop hr⟩
      | some p =>
        obtain ⟨e, rest⟩ := p
        have hlt := readFrame_shrinks crc hr
        rw [scan_frame crc hr] at h
        cases hs : scan crc rest with
        | error err => rw [hs] at h; cases h
        | ok es' =>
          rw [hs] at h
          cases h
          obtain ⟨tail, ht⟩ := frames_of_scan n rest (by omega) hs
          exact ⟨tail, .frame hr ht⟩

/-- How the scan loop judges the head of a file: too short, too small a length, a frame that
is cut off, a wrong checksum, or a whole frame. -/
theorem readFrame_cases (file : Bytes) :
    file.length < 4 ∨
      (4 ≤ file.length ∧ fromLeBytes (file.take 4) < 13) ∨
      (4 ≤ file.length ∧ 13 ≤ fromLeBytes (file.take 4) ∧
        file.length < 4 + fromLeBytes (file.take 4)) ∨
      ∃ body rest, 13 ≤ body.length ∧ body.length < 2 ^ 32 ∧
        file = toLeBytes 4 body.length ++ (body ++ rest) := by
  by_cases h4 : file.length < 4
  · exact .inl h4
  by_cases hmin : fromLeBytes (file.take 4) < 13
  · exact .inr (.inl ⟨by omega, hmin⟩)
  by_cases hlen : file.length < 4 + fromLeBytes (file.take 4)
  · exact .inr (.inr (.inl ⟨by omega, by omega, hlen⟩))
  refine .inr (.inr (.inr ⟨(file.drop 4).take (fromLeBytes (file.take 4)),
    (file.drop 4).drop (fromLeBytes (file.take 4)), ?_, ?_, ?_⟩))
  · simp; omega
  · have hlt := fromLeBytes_lt (file.take 4)
    rw [List.length_take, Nat.min_eq_left (by omega)] at hlt
    simp; omega
  · have htake : toLeBytes 4 (fromLeBytes (file.take 4)) = file.take 4 := by
      have h := toLeBytes_fromLeBytes (file.take 4)
      rwa [List.length_take, Nat.min_eq_left (by omega)] at h
    rw [List.take_append_drop, List.length_take, List.length_drop, Nat.min_eq_left (by omega), htake,
      List.take_append_drop]

theorem take_frame (body rest : Bytes) :
    (toLeBytes 4 body.length ++ (body ++ rest)).take 4 = toLeBytes 4 body.length := by simp

theorem readFrame_some {file rest : Bytes} {e : WalEntry} (h : readFrame crc file = .ok (some (e, rest))) :
    ∃ body, 13 ≤ body.length ∧ body.length < 2 ^ 32 ∧ file = toLeBytes 4 body.length ++ (body ++ rest) ∧
      ¬ UInt32.ofNat (fromLeBytes (body.take 4)) ≠ crc (body.drop 4) ∧ decodePayload (body.drop 4) = .ok e := by
  obtain h4 | ⟨_, hmin⟩ | ⟨_, _, hlen⟩ | ⟨body, rest', hmin, hlen, rfl⟩ := readFrame_cases file
  · rw [readFrame_tiny crc h4] at h; cases h
  · rw [readFrame_corrupt crc hmin] at h; cases h
  · rw [readFrame_short crc hlen] at h; cases h
  rw [readFrame_frame crc hlen hmin] at h
  split at h
  · cases h
  · rename_i hcrc
    cases hd : decodePayload (body.drop 4) with
    | error err => rw [hd] at h; cases h
    | ok e' =>
      rw [hd] at h
      cases h
      exact ⟨body, hmin, hlen, rfl, hcrc, hd⟩

/-- An intact frame is read the same way whatever is appended to the file. -/
theorem readFrame_append {file rest : Bytes} {e : WalEntry}
    (h : readFrame crc file = .ok (some (e, rest))) (more : Bytes) :
    readFrame crc (file ++ more) = .ok (some (e, rest ++ more)) := by
  obtain ⟨body, hmin, hlen, rfl, hcrc, hd⟩ := readFrame_some h
  rw [List.append_assoc, List.append_assoc, readFrame_frame crc hlen hmin, if_neg hcrc, hd]
  rfl

theorem Frames.append {file : Bytes} {es : List WalEntry} {tail : Bytes} (h : Frames crc file es tail)
    (more : Bytes) : scan crc (file ++ more) = (scan crc (tail ++ more)).map (es ++ ·) := by
  induction h with
  | stop _ => cases scan crc (_ ++ more) <;> rfl
  | frame hr _ ih => rw [scan_frame crc (readFrame_append hr more), ih, map_map_append]

/-! ## Nothing after a stuck tail is recovered -/

theorem decodePayload_sql {payload : Bytes} {e : WalEntry} (h : decodePayload payload = .ok e) :
    e.sql = fromUtf8Lossy (payload.drop 9) := by
  unfold decodePayload at h
  cases hs : EntryStatus.tryFrom (payload.getD 8 0) with
  | error err => rw [hs] at h; cases h
  | ok st => rw [hs] at h; cases h; rfl

/-- A frame read from the file is `17` bytes and the text. -/
theorem readFrame_sql {file rest : Bytes} {e : WalEntry}
    (h : readFrame crc file = .ok (some (e, rest))) :
    ∃ m, m + 13 = fromLeBytes (file.take 4) ∧ file.length = 17 + m + rest.length ∧
      e.sql.length ≤ m ∧ m ≤ 4 * e.sql.length := by
  obtain ⟨body, hmin, hlen, rfl, -, hd⟩ := readFrame_some h
  have hl := fromUtf8Lossy_length ((body.drop 4).drop 9)
  rw [← decodePayload_sql hd, List.length_drop, List.length_drop] at hl
  refine ⟨body.length - 13, ?_, ?_, ?_, ?_⟩
  · rw [take_frame, fromLeBytes_of_lt (show _ < 256 ^ 4 from hlen)]
    omega
  · simp; omega
  · omega
  · omega

theorem scan_sql_length : ∀ (n : Nat) (file : Bytes), file.length ≤ n → ∀ {es : List WalEntry},
    scan crc file = .ok es → ∀ e ∈ es, e.sql.length + 17 ≤ file.length
  | n, file, hn, es, h, e, he => by
    cases hr : readFrame crc file with
    | error err => rw [scan_error crc hr] at h; cases h
    | ok r =>
      cases r with
      | none => rw [scan_stop crc hr] at h; cases h; cases he
      | some p =>
        obtain ⟨e', rest⟩ := p
        obtain ⟨m, _, hlen, hle, _⟩ := readFrame_sql hr
        rw [scan_frame crc hr] at h
        cases hs : scan crc rest with
        | error err => rw [hs] at h; cases h
        | ok es' =>
          rw [hs] at h
          cases h
          rcases List.mem_cons.mp he with rfl | he
          · omega
          · match n, hn with
            | 0, hn => omega
            | n + 1, hn =>
              have := scan_sql_length n rest (by omega) hs e he
              omega

/-- Entries appended after a tail at which the scan stops are behind that stop, or behind a
frame that the tail's length field makes out of them. -/
theorem readFrame_stuck {tail : Bytes} (h : readFrame crc tail = .ok none) (h4 : 4 ≤ tail.length)
    (more : Bytes) :
    readFrame crc (tail ++ more) = .ok none ∨ tail.length < 4 + fromLeBytes (tail.take 4) := by
  obtain ht | ⟨_, hmin⟩ | ⟨_, _, hlen⟩ | ⟨body, rest, hmin, hlen, rfl⟩ := readFrame_cases tail
  · omega
  · left
    apply readFrame_corrupt
    rwa [List.take_append_of_le_length h4]
  · exact .inr hlen
  · left
    rw [readFrame_frame crc hlen hmin] at h
    rw [List.append_assoc, List.append_assoc, readFrame_frame crc hlen hmin]
    split at h
    · rename_i hcrc
      rw [if_pos hcrc]
    · cases hd : decodePayload (body.drop 4) <;> rw [hd] at h <;> cases h

/-- An auto-commit statement of `n` bytes. -/
def autoPending (n : Nat) : WalEntry := ⟨0, .pending, filler n⟩

theorem autoPending_fits {n : Nat} (h : n ≤ 5) : (autoPending n).Fits := by
  have hl := asBytes_filler_length n
  show 13 + (asBytes (filler n)).length < 2 ^ 32
  omega

/-- One to three torn bytes turn the length field of the next entry into at least `14 * 256`. -/
theorem readFrame_tiny_tail {tail : Bytes} (hne : tail ≠ []) (h4 : tail.length < 4) :
    readFrame crc (tail ++ writeEntry crc (autoPending 1)) = .ok none := by
  have hfit := autoPending_fits (show 1 ≤ 5 by omega)
  have hlen := writeEntry_length crc hfit
  have hl : (asBytes (autoPending 1).sql).length = 1 := asBytes_filler_length 1
  have hw := writeEntry_eq crc hfit
  rw [hl] at hlen hw
  apply readFrame_short
  rw [List.length_append, hlen, hw]
  match tail, hne, h4 with
  | [a], _, _ => simp [toLeBytes, fromLeBytes]; omega
  | [a, b], _, _ => simp [toLeBytes, fromLeBytes]; omega
  | [a, b, c], _, _ => simp [toLeBytes, fromLeBytes]; omega

/-- **After a torn tail some statement is lost.** -/
theorem stuck_misses {tail : Bytes} (hne : tail ≠ []) (h : readFrame crc tail = .ok none) :
    ∃ n, 0 < n ∧ n ≤ 5 ∧ ∀ es, scan crc (tail ++ writeEntry crc (autoPending n)) = .ok es →
      autoPending n ∉ es := by
  by_cases h4 : tail.length < 4
  · refine ⟨1, by omega, by omega, ?_⟩
    intro es hs
    rw [scan_stop crc (readFrame_tiny_tail hne h4)] at hs
    cases hs
    simp
  -- A text of one character is too short for a frame of more than four bytes of text, a text
  -- of five too long for the others.
  obtain ⟨n, hn, hn5, hmis⟩ : ∃ n, 0 < n ∧ n ≤ 5 ∧
      ∀ m, m + 13 = fromLeBytes (tail.take 4) → m < n ∨ 4 * n < m := by
    by_cases hm : fromLeBytes (tail.take 4) ≤ 17
    · exact ⟨5, by omega, by omega, fun m hm' => by omega⟩
    · exact ⟨1, by omega, by omega, fun m hm' => by omega⟩
  refine ⟨n, hn, hn5, ?_⟩
  intro es hs hmem
  obtain hstop | hcut := readFrame_stuck h (by omega) (writeEntry crc (autoPending n))
  · rw [scan_stop crc hstop] at hs
    cases hs
    cases hmem
  cases hr : readFrame crc (tail ++ writeEntry crc (autoPending n)) with
  | error err => rw [scan_error crc hr] at hs; cases hs
  | ok r =>
    cases r with
    | none => rw [scan_stop crc hr] at hs; cases hs; cases hmem
    | some p =>
      obtain ⟨e, rest⟩ := p
      obtain ⟨m, hm, hlen, hle, hge⟩ := readFrame_sql hr
      rw [List.take_append_of_le_length (by omega)] at hm
      have hw := writeEntry_length crc (autoPending_fits hn5)
      have hl : (asBytes (autoPending n).sql).length = n := asBytes_filler_length n
      have hsql : (autoPending n).sql.length = n := filler_length n
      rw [List.length_append, hw, hl] at hlen
      rw [scan_frame crc hr] at hs
      cases hrest : scan crc rest with
      | error err => rw [hrest] at hs; cases hs
      | ok es' =>
        rw [hrest] at hs
        cases hs
        rcases List.mem_cons.mp hmem with rfl | hmem
        · have := hmis m hm
          omega
        · have := scan_sql_length _ rest (Nat.le_refl _) hrest _ hmem
          omega

/-! ## Reopening -/

variable (crc)

/-- After reopening the file, whatever is appended is recovered. -/
def SurvivesReopen (file : Bytes) : Prop :=
  ∀ file', reopen crc file = .ok file' → ∀ (es : List WalEntry), (∀ e ∈ es, e.Fits) →
    ∃ replay, recover crc (some (appendEntries crc file' es)) = .ok replay ∧
      (replayEntries es).Sublist replay

variable {crc}

theorem recover_of_scan {file : Bytes} {es : List WalEntry} (h : scan crc file = .ok es) :
    recover crc (some file) = .ok (replayEntries es) := by
  rw [recover, h]; rfl

theorem Frames.reopen_eq {file tail : Bytes} {es : List WalEntry} (h : Frames crc file es tail) :
    reopen crc file = .ok (if (replayEntries es).isEmpty then file else []) := by
  rw [reopen, recover_of_scan h.scan_eq]; rfl

theorem scan_writeEntries_nil {es : List WalEntry} (h : ∀ e ∈ es, e.Fits) :
    scan crc (writeEntries crc es) = .ok es := by
  have hs := scan_writeEntries_stop crc h (readFrame_tiny crc (show ([] : Bytes).length < 4 by simp))
  rwa [List.append_nil] at hs

theorem Replayed.append {es es' : List WalEntry} {e : WalEntry} (h : Replayed es' e)
    (hab : ∀ a ∈ es, a.status ≠ .aborted) : Replayed (es ++ es') e := by
  obtain ⟨hp, hs, hc, ha⟩ := h
  refine ⟨hp, hs, ?_, ?_⟩
  · rcases hc with h0 | ⟨c, hmem, hc⟩
    · exact .inl h0
    · exact .inr ⟨c, List.mem_append_right _ hmem, hc⟩
  · rintro ⟨a, hmem, hst, hid⟩
    rcases List.mem_append.mp hmem with hmem | hmem
    · exact hab a hmem hst
    · exact ha ⟨a, hmem, hst, hid⟩

theorem replayEntries_append_sublist {es es' : List WalEntry} (hab : ∀ a ∈ es, a.status ≠ .aborted) :
    (replayEntries es').Sublist (replayEntries (es ++ es')) := by
  have hsub : replayEntries es' =
      (es'.filter fun e => decide (Replayed (es ++ es') e)).filter fun e => decide (Replayed es' e) := by
    rw [List.filter_filter, replayEntries_eq]
    apply List.filter_congr
    intro e _
    by_cases he : Replayed es' e
    · simp [he, he.append hab]
    · simp [he]
  rw [hsub, replayEntries_eq (es ++ es'), List.filter_append]
  exact List.filter_sublist.trans (List.sublist_append_right _ _)

theorem not_replayed_of_aborted {es es' : List WalEntry} {e a : WalEntry} (ha : a ∈ es)
    (hst : a.status = .aborted) (hid : a.txnId = e.txnId) : e ∉ replayEntries (es ++ es') := by
  intro h
  obtain ⟨_, _, _, _, hab⟩ := mem_replayEntries.mp h
  exact hab ⟨a, List.mem_append_left _ ha, hst, hid⟩

section
variable {file tail : Bytes} {es : List WalEntry} (h : Frames crc file es tail)
include h

theorem survives_of_replayed {e : WalEntry} (he : e ∈ es) (hr : Replayed es e) :
    SurvivesReopen crc file := by
  intro file' hf new hnew
  have hmem := mem_replayEntries.mpr ⟨he, hr⟩
  rw [h.reopen_eq, if_neg (by simp [List.ne_nil_of_mem hmem])] at hf
  cases hf
  exact ⟨replayEntries new, recover_of_scan (scan_writeEntries_nil hnew), .refl _⟩

theorem survives_of_clean (htail : tail = []) (hab : ∀ a ∈ es, a.status ≠ .aborted) :
    SurvivesReopen crc file := by
  by_cases hr : replayEntries es = []
  · intro file' hf new hnew
    rw [h.reopen_eq, hr, List.isEmpty_nil, if_pos rfl] at hf
    cases hf
    subst htail
    refine ⟨replayEntries (es ++ new), recover_of_scan ?_, replayEntries_append_sublist hab⟩
    rw [appendEntries, h.append, List.nil_append, scan_writeEntries_nil hnew]
    rfl
  · obtain ⟨e, he⟩ := List.exists_mem_of_ne_nil _ hr
    obtain ⟨he, hrep⟩ := mem_replayEntries.mp he
    exact survives_of_replayed h he hrep

/-- A statement committed after the reopen of a file that is kept. -/
theorem recovered_of_survives (hs : SurvivesReopen crc file) (hr : replayEntries es = [])
    {new : List WalEntry} (hnew : ∀ e ∈ new, e.Fits) {e : WalEntry} (he : e ∈ replayEntries new) :
    ∃ es', scan crc (tail ++ writeEntries crc new) = .ok es' ∧ e ∈ replayEntries (es ++ es') := by
  have hre := h.reopen_eq
  rw [hr] at hre
  obtain ⟨replay, hrec, hsub⟩ := hs file hre new hnew
  rw [appendEntries, recover, h.append] at hrec
  cases hscan : scan crc (tail ++ writeEntries crc new) with
  | error err => rw [hscan] at hrec; cases hrec
  | ok es' =>
    rw [hscan] at hrec
    cases hrec
    exact ⟨es', rfl, hsub.subset he⟩

theorem tail_nil_of_survives (hs : SurvivesReopen crc file) (hr : replayEntries es = []) : tail = [] := by
  by_contra hne
  obtain ⟨n, hn, hn5, hmis⟩ := stuck_misses hne h.stuck
  have hnew : autoPending n ∈ replayEntries [autoPending n] :=
    mem_replayEntries.mpr ⟨by simp, rfl, filler_ne_empty hn, .inl rfl, by simp [autoPending]⟩
  obtain ⟨es', hscan, hmem⟩ := recovered_of_survives h hs hr
    (by simpa using autoPending_fits hn5) hnew
  obtain ⟨hmem, hrep⟩ := mem_replayEntries.mp hmem
  rcases List.mem_append.mp hmem with hold | hnew
  · -- an old entry of the same text would have been replayed before
    have : autoPending n ∈ replayEntries es := by
      refine mem_replayEntries.mpr ⟨hold, hrep.1, hrep.2.1, .inl rfl, ?_⟩
      rintro ⟨a, ha, hst, hid⟩
      exact hrep.2.2.2 ⟨a, List.mem_append_left _ ha, hst, hid⟩
    rw [hr] at this
    cases this
  · exact hmis es' (by simpa [writeEntries] using hscan) hnew

theorem no_abort_of_survives (hs : SurvivesReopen crc file) (hr : replayEntries es = []) :
    ∀ a ∈ es, a.status ≠ .aborted := by
  intro a ha hst
  let e : WalEntry := ⟨a.txnId, .pending, filler 1⟩
  let c : WalEntry := ⟨a.txnId, .committed, ""⟩
  have he : e ∈ replayEntries [e, c] := by
    refine mem_replayEntries.mpr ⟨by simp, rfl, filler_ne_empty (by omega), ?_, by simp [e, c]⟩
    exact .inr ⟨c, by simp, rfl, rfl⟩
  have hfit : ∀ x ∈ [e, c], x.Fits := by
    intro x hx
    simp only [List.mem_cons, List.not_mem_nil, or_false] at hx
    rcases hx with rfl | rfl
    · have hl := asBytes_filler_length 1
      show 13 + (asBytes (filler 1)).length < 2 ^ 32
      omega
    · exact (by decide : 13 + (asBytes "").length < 2 ^ 32)
  obtain ⟨es', _, hmem⟩ := recovered_of_survives h hs hr hfit he
  exact @not_replayed_of_aborted es es' e a ha hst rfl hmem

end

/-- **Appended entries survive a reopen** exactly when the reopen truncated the file, or the
file ends with an intact frame and holds no abort marker. -/
theorem survivesReopen_iff (file : Bytes) :
    SurvivesReopen crc file ↔ ∀ es tail, Frames crc file es tail →
      (∃ e ∈ es, Replayed es e) ∨ (tail = [] ∧ ∀ a ∈ es, a.status ≠ .aborted) := by
  constructor
  · intro hs es tail h
    by_cases hr : replayEntries es = []
    · exact .inr ⟨tail_nil_of_survives h hs hr, no_abort_of_survives h hs hr⟩
    · obtain ⟨e, he⟩ := List.exists_mem_of_ne_nil _ hr
      obtain ⟨he, hrep⟩ := mem_replayEntries.mp he
      exact .inl ⟨e, he, hrep⟩
  · intro hc
    cases hscan : scan crc file with
    | error err =>
      intro file' hf
      rw [reopen, recover, hscan] at hf
      cases hf
    | ok es =>
      obtain ⟨tail, h⟩ := frames_of_scan _ file (Nat.le_refl _) hscan
      rcases hc es tail h with ⟨e, he, hr⟩ | ⟨ht, hab⟩
      · exact survives_of_replayed h he hr
      · exact survives_of_clean h ht hab

/-- Three bytes of a torn length field hide everything appended after them. -/
theorem torn_tail_loses_appends : ¬ SurvivesReopen (fun _ => 0) [38, 0, 0] := by
  intro h
  obtain ⟨replay, hrec, hsub⟩ := h [38, 0, 0] (by decide)
    [⟨0, .pending, "INSERT INTO t VALUES (1);"⟩, ⟨0, .committed, ""⟩] (by decide)
  have hnone : recover (fun _ => 0) (some (appendEntries (fun _ => 0) [38, 0, 0]
      [⟨0, .pending, "INSERT INTO t VALUES (1);"⟩, ⟨0, .committed, ""⟩])) = .ok [] := by decide
  rw [hnone] at hrec
  cases hrec
  exact absurd hsub (by decide)

end

end PotatoDB
