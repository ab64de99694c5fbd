import PotatoDB.Wal

/-!
# The WAL codec and recovery

A written entry reads back as itself whatever follows it, and a strict prefix of a written
entry stops the scan. So recovery over written entries and a torn one is the replay filter.
-/

namespace PotatoDB

/-! ## Little-endian integers -/

@[simp] theorem toLeBytes_length : ∀ (w n : Nat), (toLeBytes w n).length = w
  | 0, _ => rfl
  | w + 1, n => by simp [toLeBytes, toLeBytes_length w]

theorem fromLeBytes_toLeBytes : ∀ (w n : Nat), fromLeBytes (toLeBytes w n) = n % 256 ^ w
  | 0, n => by simp [toLeBytes, fromLeBytes, Nat.mod_one]
  | w + 1, n => by
    have hb : (UInt8.ofNat n).toNat = n % 256 := by simp
    rw [toLeBytes, fromLeBytes, fromLeBytes_toLeBytes w, hb, Nat.pow_succ, Nat.mul_comm (256 ^ w),
      Nat.mod_mul]

theorem fromLeBytes_of_lt {w n : Nat} (h : n < 256 ^ w) : fromLeBytes (toLeBytes w n) = n := by
  rw [fromLeBytes_toLeBytes, Nat.mod_eq_of_lt h]

theorem fromLeBytes_lt : ∀ (bs : Bytes), fromLeBytes bs < 256 ^ bs.length
  | [] => by simp [fromLeBytes]
  | b :: bs => by
    have ih := fromLeBytes_lt bs
    have hb : b.toNat < 256 := b.toNat_lt
    simp only [fromLeBytes, List.length_cons, Nat.pow_succ]
    omega

theorem toLeBytes_fromLeBytes : ∀ (bs : Bytes), toLeBytes bs.length (fromLeBytes bs) = bs
  | [] => rfl
  | b :: bs => by
    have hlt : b.toNat < 256 := b.toNat_lt
    have hb : UInt8.ofNat (b.toNat + 256 * fromLeBytes bs) = b := by
      apply UInt8.toNat_inj.mp
      rw [UInt8.toNat_ofNat']
      omega
    have hd : (b.toNat + 256 * fromLeBytes bs) / 256 = fromLeBytes bs := by omega
    rw [List.length_cons, fromLeBytes, toLeBytes, hb, hd, toLeBytes_fromLeBytes bs]

/-! ## Text -/

theorem fromUtf8Lossy_asBytes (s : String) : fromUtf8Lossy (asBytes s) = s := by
  have h : String.fromUTF8? ⟨(asBytes s).toArray⟩ = some s := by
    have he : (⟨(asBytes s).toArray⟩ : ByteArray) = s.toUTF8 := by simp [asBytes]
    rw [he, String.fromUTF8?, String.toUTF8_eq_toByteArray, dif_pos s.isValidUTF8]
    rfl
  simp [fromUtf8Lossy, h]

/-! ## Frames -/

theorem EntryStatus.tryFrom_toU8 (st : EntryStatus) : EntryStatus.tryFrom st.toU8 = .ok st := by
  cases st <;> rfl

@[simp] theorem payload_length (e : WalEntry) : e.payload.length = 9 + (asBytes e.sql).length := by
  simp [WalEntry.payload]; omega

/-- **The payload of an entry decodes to the entry.** -/
theorem decodePayload_payload (e : WalEntry) : decodePayload e.payload = .ok e := by
  have htxn : e.payload.take 8 = toLeBytes 8 e.txnId.toNat := by simp [WalEntry.payload]
  have hst : e.payload.getD 8 0 = e.status.toU8 := by
    simp [WalEntry.payload, List.getD_eq_getElem?_getD]
  have hsql : e.payload.drop 9 = asBytes e.sql := by simp [WalEntry.payload, List.drop_append]
  have hid : UInt64.ofNat (fromLeBytes (toLeBytes 8 e.txnId.toNat)) = e.txnId := by
    rw [fromLeBytes_of_lt (show _ < 256 ^ 8 from e.txnId.toNat_lt), UInt64.ofNat_toNat]
  rw [decodePayload, hst, EntryStatus.tryFrom_toU8, htxn, hid, hsql, fromUtf8Lossy_asBytes]
  rfl

theorem toNat_totalLen {e : WalEntry} (he : e.Fits) :
    (UInt32.ofNat (4 + (8 + 1 + (asBytes e.sql).length))).toNat = 13 + (asBytes e.sql).length := by
  unfold WalEntry.Fits at he
  rw [UInt32.toNat_ofNat', Nat.mod_eq_of_lt (by omega)]
  omega

section
variable (crc : Bytes → UInt32)

theorem writeEntry_eq {e : WalEntry} (he : e.Fits) :
    writeEntry crc e =
      toLeBytes 4 (13 + (asBytes e.sql).length) ++ (toLeBytes 4 (crc e.payload).toNat ++ e.payload) := by
  simp only [writeEntry, toNat_totalLen he, List.append_assoc]

theorem writeEntry_length {e : WalEntry} (he : e.Fits) :
    (writeEntry crc e).length = 17 + (asBytes e.sql).length := by
  simp [writeEntry_eq crc he]; omega

/-- What the scan loop reads at a whole frame. -/
theorem readFrame_frame {body : Bytes} (hlen : body.length < 2 ^ 32) (hmin : 13 ≤ body.length)
    (rest : Bytes) :
    readFrame crc (toLeBytes 4 body.length ++ (body ++ rest)) =
      if UInt32.ofNat (fromLeBytes (body.take 4)) ≠ crc (body.drop 4) then .ok none
      else (decodePayload (body.drop 4)).map fun e => some (e, rest) := by
  have htake : (toLeBytes 4 body.length ++ (body ++ rest)).take 4 = toLeBytes 4 body.length := by
    simp
  have hdrop : (toLeBytes 4 body.length ++ (body ++ rest)).drop 4 = body ++ rest := by
    simp
  have hrest : (toLeBytes 4 body.length ++ (body ++ rest)).drop (4 + body.length) = rest := by
    rw [← List.drop_drop, hdrop, List.drop_left]
  have h4 : ¬ (toLeBytes 4 body.length ++ (body ++ rest)).length < 4 := by simp
  have hn : fromLeBytes (toLeBytes 4 body.length) = body.length :=
    fromLeBytes_of_lt (show _ < 256 ^ 4 from hlen)
  unfold readFrame
  rw [if_neg h4]
  simp only [htake, hdrop, hn, hrest, List.take_left]
  rw [if_neg (by omega), if_neg (by simp)]
  cases decodePayload (body.drop 4) <;> rfl

/-- **A written entry reads back as itself**, whatever follows. -/
theorem readFrame_writeEntry {e : WalEntry} (he : e.Fits) (rest : Bytes) :
    readFrame crc (writeEntry crc e ++ rest) = .ok (some (e, rest)) := by
  have hbody : (toLeBytes 4 (crc e.payload).toNat ++ e.payload).length = 13 + (asBytes e.sql).length := by
    simp; omega
  have hcrc : (toLeBytes 4 (crc e.payload).toNat ++ e.payload).take 4 = toLeBytes 4 (crc e.payload).toNat := by
    simp
  have hpay : (toLeBytes 4 (crc e.payload).toNat ++ e.payload).drop 4 = e.payload := by simp
  have hsum : UInt32.ofNat (fromLeBytes (toLeBytes 4 (crc e.payload).toNat)) = crc e.payload := by
    rw [fromLeBytes_of_lt (show _ < 256 ^ 4 from (crc e.payload).toNat_lt), UInt32.ofNat_toNat]
  have hlen : 13 + (asBytes e.sql).length < 2 ^ 32 := he
  rw [writeEntry_eq crc he, List.append_assoc, ← hbody, readFrame_frame crc (by omega) (by omega),
    hcrc, hpay, hsum, if_neg (by simp), decodePayload_payload]
  rfl

theorem readFrame_short {file : Bytes} (h : file.length < 4 + fromLeBytes (file.take 4)) :
    readFrame crc file = .ok none := by
  unfold readFrame
  split
  · rfl
  · simp only []
    split
    · rfl
    · rw [if_pos (by rw [List.length_drop]; omega)]

theorem readFrame_tiny {file : Bytes} (h : file.length < 4) : readFrame crc file = .ok none := by
  unfold readFrame; rw [if_pos h]

theorem readFrame_corrupt {file : Bytes} (h : fromLeBytes (file.take 4) < 13) :
    readFrame crc file = .ok none := by
  unfold readFrame
  split
  · rfl
  · simp only []
    rw [if_pos (by omega)]

theorem readFrame_torn {e : WalEntry} (he : e.Fits) {torn : Bytes} (hp : torn <+: writeEntry crc e)
    (hs : torn ≠ writeEntry crc e) : readFrame crc torn = .ok none := by
  have hlt : torn.length < (writeEntry crc e).length :=
    Nat.lt_of_le_of_ne hp.length_le fun h => hs (hp.eq_of_length h)
  by_cases h4 : torn.length < 4
  · exact readFrame_tiny crc h4
  apply readFrame_short
  have htake : torn.take 4 = toLeBytes 4 (13 + (asBytes e.sql).length) := by
    have := List.prefix_iff_eq_take.mp hp
    rw [this, List.take_take, Nat.min_eq_left (by omega), writeEntry_eq crc he]
    simp
  rw [writeEntry_length crc he] at hlt
  rw [htake, fromLeBytes_of_lt (show _ < 256 ^ 4 from he)]
  omega

/-! ## The scan loop -/

theorem readFrame_shrinks {file rest : Bytes} {e : WalEntry}
    (h : readFrame crc file = .ok (some (e, rest))) : rest.length + 17 ≤ file.length := by
  unfold readFrame at h
  split at h
  · cases h
  simp only [] at h
  split at h
  · cases h
  split at h
  · cases h
  rename_i h4 hmin hlen
  split at h
  · cases h
  cases hd : decodePayload (((file.drop 4).take (fromLeBytes (file.take 4))).drop 4) with
  | error err => rw [hd] at h; cases h
  | ok e' =>
    rw [hd] at h
    cases h
    rw [List.length_drop] at hlen ⊢
    omega

theorem scanLoop_fuel : ∀ (fuel : Nat) (file : Bytes), file.length ≤ fuel →
    scanLoop crc (fuel + 1) file = scanLoop crc fuel file
  | 0, file, h => by
    have hf : file = [] := List.length_eq_zero_iff.mp (by omega)
    subst hf
    simp [scanLoop, readFrame_tiny, bind, Except.bind]
  | fuel + 1, file, h => by
    rw [scanLoop, scanLoop]
    cases hr : readFrame crc file with
    | error err => rfl
    | ok r =>
      cases r with
      | none => rfl
      | some p =>
        obtain ⟨e, rest⟩ := p
        have hlt := readFrame_shrinks crc hr
        simp only [bind, Except.bind]
        rw [scanLoop_fuel fuel rest (by omega)]

theorem scanLoop_eq_scan (file : Bytes) : ∀ (k : Nat), scanLoop crc (file.length + k) file = scan crc file
  | 0 => rfl
  | k + 1 => by rw [← Nat.add_assoc, scanLoop_fuel crc _ _ (by omega), scanLoop_eq_scan file k]

theorem scan_stop {file : Bytes} (h : readFrame crc file = .ok none) : scan crc file = .ok [] := by
  rw [← scanLoop_eq_scan crc file 1, scanLoop, h]; rfl

theorem scan_error {file : Bytes} {err : IoError} (h : readFrame crc file = .error err) :
    scan crc file = .error err := by
  rw [← scanLoop_eq_scan crc file 1, scanLoop, h]; rfl

theorem scan_frame {file rest : Bytes} {e : WalEntry} (h : readFrame crc file = .ok (some (e, rest))) :
    scan crc file = (scan crc rest).map (e :: ·) := by
  have hlt := readFrame_shrinks crc h
  obtain ⟨k, hk⟩ := Nat.exists_eq_add_of_le (show rest.length ≤ file.length by omega)
  rw [← scanLoop_eq_scan crc file 1, scanLoop, h]
  simp only [bind, Except.bind]
  rw [hk, scanLoop_eq_scan crc rest k]
  cases scan crc rest <;> rfl

theorem scan_writeEntry {e : WalEntry} (he : e.Fits) (rest : Bytes) :
    scan crc (writeEntry crc e ++ rest) = (scan crc rest).map (e :: ·) :=
  scan_frame crc (readFrame_writeEntry crc he rest)

theorem map_map_append {ε α : Type} (x : α) (xs : List α) (r : Except ε (List α)) :
    (r.map (xs ++ ·)).map (x :: ·) = r.map ((x :: xs) ++ ·) := by
  cases r <;> rfl

theorem scan_writeEntries : ∀ (es : List WalEntry), (∀ e ∈ es, e.Fits) → ∀ (rest : Bytes),
    scan crc (writeEntries crc es ++ rest) = (scan crc rest).map (es ++ ·)
  | [], _, rest => by
    simp only [writeEntries, List.flatMap_nil, List.nil_append]
    cases scan crc rest <;> rfl
  | e :: es, h, rest => by
    simp only [writeEntries, List.flatMap_cons, List.append_assoc]
    rw [scan_writeEntry crc (h e (by simp)), ← writeEntries,
      scan_writeEntries es (fun x hx => h x (by simp [hx])) rest, map_map_append]

theorem scan_writeEntries_stop {es : List WalEntry} (h : ∀ e ∈ es, e.Fits) {tail : Bytes}
    (ht : readFrame crc tail = .ok none) : scan crc (writeEntries crc es ++ tail) = .ok es := by
  rw [scan_writeEntries crc es h, scan_stop crc ht]
  simp [Except.map]

/-! ## The replay filter -/

/-- An entry recovery hands to the engine: pending, with text, of a transaction that
committed (or none) and did not abort. -/
def Replayed (es : List WalEntry) (e : WalEntry) : Prop :=
  e.status = .pending ∧ e.sql ≠ "" ∧
    (e.txnId = 0 ∨ ∃ c ∈ es, c.status = .committed ∧ c.txnId = e.txnId) ∧
    ¬ ∃ a ∈ es, a.status = .aborted ∧ a.txnId = e.txnId

instance (es : List WalEntry) : DecidablePred (Replayed es) := fun e => by
  unfold Replayed; infer_instance

theorem mem_committedTxns {es : List WalEntry} {k : UInt64} :
    k ∈ committedTxns es ↔ ∃ c ∈ es, c.status = .committed ∧ c.txnId = k := by
  simp [committedTxns, and_assoc]

theorem mem_abortedTxns {es : List WalEntry} {k : UInt64} :
    k ∈ abortedTxns es ↔ ∃ a ∈ es, a.status = .aborted ∧ a.txnId = k := by
  simp [abortedTxns, and_assoc]

theorem replayEntries_eq (es : List WalEntry) :
    replayEntries es = es.filter fun e => decide (Replayed es e) := by
  apply List.filter_congr
  intro e _
  have hc := @mem_committedTxns es e.txnId
  have ha := @mem_abortedTxns es e.txnId
  simp only [Replayed, ← hc, ← ha, Bool.decide_and, Bool.decide_or, decide_not, List.contains_eq_mem]
  simp [Bool.and_assoc]

theorem mem_replayEntries {es : List WalEntry} {e : WalEntry} :
    e ∈ replayEntries es ↔ e ∈ es ∧ Replayed es e := by
  simp [replayEntries_eq]

/-- **Recovery of written entries and a torn one.** -/
theorem recover_writeEntries (es : List WalEntry) (next : WalEntry) (torn : Bytes)
    (hes : ∀ e ∈ es, 13 + (asBytes e.sql).length < 2 ^ 32)
    (hnext : 13 + (asBytes next.sql).length < 2 ^ 32)
    (hp : torn <+: writeEntry crc next) (hs : torn ≠ writeEntry crc next) :
    recover crc (some (writeEntries crc es ++ torn)) =
      .ok (es.filter fun e => decide (Replayed es e)) := by
  rw [← replayEntries_eq, recover, scan_writeEntries_stop crc hes (readFrame_torn crc hnext hp hs)]
  rfl

end

theorem recover_writeEntries_interleaved :
    recover (fun _ => 7) (some (writeEntries (fun _ => 7)
      [⟨1, .pending, "INSERT INTO a VALUES (1);"⟩, ⟨2, .pending, "INSERT INTO a VALUES (2);"⟩,
        ⟨1, .committed, ""⟩] ++ [13, 0, 0])) =
      .ok [⟨1, .pending, "INSERT INTO a VALUES (1);"⟩] :=
  recover_writeEntries (fun _ => 7) _ ⟨2, .committed, ""⟩ [13, 0, 0] (by decide) (by decide)
    (by decide) (by decide)

end PotatoDB
