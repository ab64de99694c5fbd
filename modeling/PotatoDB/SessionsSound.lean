import PotatoDB.Sessions
import PotatoDB.WalReopenSound

/-!
# Transaction ids keep sessions apart

In a run whose transactions take unused ids, two entries of the log have one id exactly when
they have one owner. The sets of committed and aborted ids then decide each transaction by
its own record.
-/

namespace PotatoDB

def SessionState.entries (s : SessionState) : List WalEntry := s.log.map (·.entry)

/-- What the log satisfies on its own. -/
structure LogInv (log : List Logged) (nextOwner : Nat) : Prop where
  fits : ∀ l ∈ log, l.entry.Fits
  auto : ∀ l ∈ log, l.owner = none ↔ l.entry.txnId = 0
  ids : ∀ l ∈ log, ∀ m ∈ log, l.entry.txnId = m.entry.txnId → l.owner = m.owner
  owners : ∀ l ∈ log, ∀ m ∈ log, l.owner = m.owner → l.entry.txnId = m.entry.txnId
  decided : ∀ l ∈ log, l.entry.status = .aborted → l.owner ≠ none ∧
    ∀ m ∈ log, m.entry.status = .committed → m.owner ≠ l.owner
  bounded : ∀ l ∈ log, ∀ t, l.owner = some t → t < nextOwner

/-- The open transaction owns its id and has no record yet. -/
structure ActiveInv (log : List Logged) (nextOwner : Nat) (txn : ActiveTxn) : Prop where
  explicit : txn.walTxnId ≠ 0
  bounded : txn.owner < nextOwner
  mine : ∀ l ∈ log, l.entry.txnId = txn.walTxnId ↔ l.owner = some txn.owner
  undecided : ∀ l ∈ log, l.owner = some txn.owner → l.entry.status = .pending

section
variable (crc : Bytes → UInt32)

structure SessionInv (s : SessionState) : Prop where
  log : LogInv s.log s.nextOwner
  file : ∃ torn, readFrame crc torn = .ok none ∧ s.file = writeEntries crc s.entries ++ torn ∧
    (s.session.isSome → torn = [])
  counter : ∀ ses, s.session = some ses → ses.txnCounter ≠ 0
  active : ∀ ses txn, s.session = some ses → ses.activeTxn = some txn →
    ActiveInv s.log s.nextOwner txn

variable {crc}

theorem SessionInv.entries_fit {s : SessionState} (h : SessionInv crc s) : ∀ e ∈ s.entries, e.Fits := by
  intro e he
  obtain ⟨l, hl, rfl⟩ := List.mem_map.mp he
  exact h.log.fits l hl

theorem SessionInv.scan_eq {s : SessionState} (h : SessionInv crc s) : scan crc s.file = .ok s.entries := by
  obtain ⟨torn, ht, hf, _⟩ := h.file
  rw [hf]
  exact scan_writeEntries_stop crc h.entries_fit ht

/-! ## The invariant decides recovery -/

theorem LogInv.committed_iff {log : List Logged} {n : Nat} (h : LogInv log n) {l : Logged} (hl : l ∈ log) :
    (∃ c ∈ log.map (·.entry), c.status = .committed ∧ c.txnId = l.entry.txnId) ↔
      ∃ c ∈ log, c.entry.status = .committed ∧ c.owner = l.owner := by
  constructor
  · rintro ⟨c, hc, hst, hid⟩
    obtain ⟨m, hm, rfl⟩ := List.mem_map.mp hc
    exact ⟨m, hm, hst, h.ids m hm l hl hid⟩
  · rintro ⟨m, hm, hst, ho⟩
    exact ⟨m.entry, List.mem_map_of_mem hm, hst, h.owners m hm l hl ho⟩

theorem LogInv.not_aborted {log : List Logged} {n : Nat} (h : LogInv log n) {l : Logged} (hl : l ∈ log)
    (hc : l.owner = none ∨ ∃ c ∈ log, c.entry.status = .committed ∧ c.owner = l.owner) :
    ¬ ∃ a ∈ log.map (·.entry), a.status = .aborted ∧ a.txnId = l.entry.txnId := by
  rintro ⟨a, ha, hst, hid⟩
  obtain ⟨m, hm, rfl⟩ := List.mem_map.mp ha
  obtain ⟨hsome, hcom⟩ := h.decided m hm hst
  have ho := h.ids m hm l hl hid
  rcases hc with hnone | ⟨c, hc, hcst, hco⟩
  · exact hsome (ho.trans hnone)
  · exact hcom c hc hcst (hco.trans ho.symm)

theorem LogInv.replayed_iff {log : List Logged} {n : Nat} (h : LogInv log n) {l : Logged} (hl : l ∈ log) :
    Replayed (log.map (·.entry)) l.entry ↔ Decided log l := by
  constructor
  · rintro ⟨hp, hs, hc, _⟩
    refine ⟨hp, hs, ?_⟩
    rcases hc with h0 | hc
    · exact .inl ((h.auto l hl).mpr h0)
    · exact .inr ((h.committed_iff hl).mp hc)
  · rintro ⟨hp, hs, hc⟩
    refine ⟨hp, hs, ?_, h.not_aborted hl hc⟩
    rcases hc with h0 | hc
    · exact .inl ((h.auto l hl).mp h0)
    · exact .inr ((h.committed_iff hl).mpr hc)

theorem SessionInv.apart {s : SessionState} (h : SessionInv crc s) : s.Apart crc := by
  rw [SessionState.Apart, recover_of_scan h.scan_eq, replayEntries_eq, SessionState.entries,
    List.filter_map]
  congr 2
  apply List.filter_congr
  intro l hl
  exact decide_eq_decide.mpr (h.log.replayed_iff hl)

/-! ## Each action keeps the invariant -/

theorem LogInv.nil (n : Nat) : LogInv [] n := by
  constructor <;> simp

theorem LogInv.mono {log : List Logged} {n m : Nat} (h : LogInv log n) (hnm : n ≤ m) : LogInv log m :=
  { h with bounded := fun l hl t ht => Nat.lt_of_lt_of_le (h.bounded l hl t ht) hnm }

/-- One more entry, with an id of its own for each owner and no second decision. -/
theorem LogInv.append {log : List Logged} {n : Nat} (h : LogInv log n) {l₀ : Logged} (hfit : l₀.entry.Fits)
    (hauto : l₀.owner = none ↔ l₀.entry.txnId = 0)
    (hsame : ∀ l ∈ log, l.entry.txnId = l₀.entry.txnId ↔ l.owner = l₀.owner)
    (hearlier : ∀ l ∈ log, l.entry.status = .aborted → l₀.entry.status = .committed → l₀.owner ≠ l.owner)
    (haborted : l₀.entry.status = .aborted → l₀.owner ≠ none ∧ ∀ m ∈ log, m.entry.status = .committed → m.owner ≠ l₀.owner)
    (hbounded : ∀ t, l₀.owner = some t → t < n) : LogInv (log ++ [l₀]) n where
  fits l hl := by
    rcases List.mem_append.mp hl with hl | hl
    · exact h.fits l hl
    · rw [List.mem_singleton.mp hl]; exact hfit
  auto l hl := by
    rcases List.mem_append.mp hl with hl | hl
    · exact h.auto l hl
    · rw [List.mem_singleton.mp hl]; exact hauto
  ids l hl m hm he := by
    rcases List.mem_append.mp hl with hl | hl <;> rcases List.mem_append.mp hm with hm | hm
    · exact h.ids l hl m hm he
    · rw [List.mem_singleton.mp hm] at he ⊢
      exact (hsame l hl).mp he
    · rw [List.mem_singleton.mp hl] at he ⊢
      exact ((hsame m hm).mp he.symm).symm
    · rw [List.mem_singleton.mp hl, List.mem_singleton.mp hm]
  owners l hl m hm he := by
    rcases List.mem_append.mp hl with hl | hl <;> rcases List.mem_append.mp hm with hm | hm
    · exact h.owners l hl m hm he
    · rw [List.mem_singleton.mp hm] at he ⊢
      exact (hsame l hl).mpr he
    · rw [List.mem_singleton.mp hl] at he ⊢
      exact ((hsame m hm).mpr he.symm).symm
    · rw [List.mem_singleton.mp hl, List.mem_singleton.mp hm]
  decided l hl hab := by
    rcases List.mem_append.mp hl with hl | hl
    · obtain ⟨hs, hc⟩ := h.decided l hl hab
      refine ⟨hs, fun m hm hmc => ?_⟩
      rcases List.mem_append.mp hm with hm | hm
      · exact hc m hm hmc
      · rw [List.mem_singleton.mp hm] at hmc ⊢
        exact hearlier l hl hab hmc
    · rw [List.mem_singleton.mp hl] at hab ⊢
      refine ⟨(haborted hab).1, fun m hm hmc => ?_⟩
      rcases List.mem_append.mp hm with hm | hm
      · exact (haborted hab).2 m hm hmc
      · rw [List.mem_singleton.mp hm, hab] at hmc
        cases hmc
  bounded l hl t ht := by
    rcases List.mem_append.mp hl with hl | hl
    · exact h.bounded l hl t ht
    · rw [List.mem_singleton.mp hl] at ht
      exact hbounded t ht

/-- An auto-commit entry, which is never an abort marker. -/
theorem LogInv.append_auto {log : List Logged} {n : Nat} (h : LogInv log n) {e : WalEntry}
    (hfit : e.Fits) (hid : e.txnId = 0) (hst : e.status ≠ .aborted) : LogInv (log ++ [⟨e, none⟩]) n := by
  refine h.append hfit (iff_of_true rfl hid) (fun l hl => ?_) (fun l hl hab _ ho => ?_) (fun hab => absurd hab hst)
    (fun t ht => by cases ht)
  · rw [hid]
    exact (h.auto l hl).symm
  · exact (h.decided l hl hab).1 ho.symm

/-- An entry of the open transaction: a statement or its one record. -/
theorem LogInv.append_txn {log : List Logged} {n : Nat} (h : LogInv log n) {txn : ActiveTxn}
    (ha : ActiveInv log n txn) {e : WalEntry} (hfit : e.Fits) (hid : e.txnId = txn.walTxnId) :
    LogInv (log ++ [⟨e, some txn.owner⟩]) n := by
  refine h.append hfit (iff_of_false (by simp) fun h0 => ha.explicit (hid.symm.trans h0)) (fun l hl => ?_)
    (fun l hl hab _ ho => ?_) (fun _ => ⟨by simp, fun m hm hmc ho => ?_⟩) (fun t ht => ?_)
  · rw [hid]
    exact ha.mine l hl
  · rw [ha.undecided l hl ho.symm] at hab
    cases hab
  · rw [ha.undecided m hm ho] at hmc
    cases hmc
  · cases ht
    exact ha.bounded

theorem ActiveInv.append_statement {log : List Logged} {n : Nat} {txn : ActiveTxn}
    (h : ActiveInv log n txn) (sql : String) :
    ActiveInv (log ++ [⟨⟨txn.walTxnId, .pending, sql⟩, some txn.owner⟩]) n txn where
  explicit := h.explicit
  bounded := h.bounded
  mine l hl := by
    rcases List.mem_append.mp hl with hl | hl
    · exact h.mine l hl
    · rw [List.mem_singleton.mp hl]; simp
  undecided l hl ho := by
    rcases List.mem_append.mp hl with hl | hl
    · exact h.undecided l hl ho
    · rw [List.mem_singleton.mp hl]

theorem ActiveInv.fresh {log : List Logged} {n : Nat} (h : LogInv log n) {k : UInt64} (hk : k ≠ 0)
    (hfresh : ∀ l ∈ log, l.entry.txnId ≠ k) : ActiveInv log (n + 1) ⟨k, n⟩ where
  explicit := hk
  bounded := Nat.lt_succ_self n
  mine l hl := by
    refine ⟨fun he => absurd he (hfresh l hl), fun ho => ?_⟩
    exact absurd (h.bounded l hl n ho) (Nat.lt_irrefl n)
  undecided l hl ho := absurd (h.bounded l hl n ho) (Nat.lt_irrefl n)

theorem saturatingSucc_ne_zero (k : UInt64) (hk : k ≠ 0) : saturatingSucc k ≠ 0 := by
  unfold saturatingSucc
  split
  · rename_i hlt
    intro h0
    have := congrArg UInt64.toNat h0
    rw [UInt64.toNat_add, UInt64.toNat_one, Nat.mod_eq_of_lt hlt] at this
    simp at this
  · exact hk

theorem marker_fits (k : UInt64) (st : EntryStatus) : (⟨k, st, ""⟩ : WalEntry).Fits :=
  (by decide : 13 + (asBytes "").length < 2 ^ 32)

theorem SessionState.append_file {s : SessionState} {torn : Bytes} (e : WalEntry) (o : Option Nat)
    (hf : s.file = writeEntries crc s.entries ++ torn) (ht : torn = []) :
    (s.append crc e o).file = writeEntries crc (s.append crc e o).entries ++ [] := by
  subst ht
  simp [append, appendEntries, entries, writeEntries, hf]

/-- Appending an entry to the file of an open session. -/
theorem SessionInv.append {s : SessionState} (h : SessionInv crc s) (hopen : s.session.isSome)
    {e : WalEntry} {o : Option Nat} {ses : Option Session}
    (hlog : LogInv (s.log ++ [⟨e, o⟩]) s.nextOwner)
    (hcounter : ∀ x, ses = some x → x.txnCounter ≠ 0)
    (hactive : ∀ x txn, ses = some x → x.activeTxn = some txn →
      ActiveInv (s.log ++ [⟨e, o⟩]) s.nextOwner txn) :
    SessionInv crc ({ s with session := ses }.append crc e o) where
  log := hlog
  file := by
    obtain ⟨torn, _, hf, ht⟩ := h.file
    refine ⟨[], readFrame_tiny crc (by simp), ?_, fun _ => rfl⟩
    exact SessionState.append_file (s := { s with session := ses }) e o hf (ht hopen)
  counter := hcounter
  active := hactive

theorem truncated_inv {s : SessionState} {ses : Option Session}
    (hcounter : ∀ x, ses = some x → x.txnCounter ≠ 0) (hidle : ∀ x, ses = some x → x.activeTxn = none) :
    SessionInv crc { s with file := [], log := [], session := ses } where
  log := LogInv.nil _
  file := ⟨[], readFrame_tiny crc (by simp), by simp [SessionState.entries, writeEntries], fun _ => rfl⟩
  counter := hcounter
  active x txn hx ht := by rw [hidle x hx] at ht; cases ht

theorem sessionInv_initial : SessionInv crc .initial where
  log := LogInv.nil _
  file := ⟨[], readFrame_tiny crc (by simp), rfl, fun _ => rfl⟩
  counter x hx := by cases hx
  active x txn hx := by cases hx

theorem sessionInv_open {s s' : SessionState} (h : SessionInv crc s)
    (hok : s.StepOk crc .openEngine) (hs : s.openEngine crc = some s') : SessionInv crc s' := by
  have hrec := recover_of_scan h.scan_eq
  unfold SessionState.openEngine at hs
  rw [reopen, hrec] at hs
  cases hs
  have hcounter : ∀ x : Session, some ⟨1, none⟩ = some x → x.txnCounter ≠ 0 := by
    intro x hx; cases hx; decide
  have hidle : ∀ x : Session, some ⟨1, none⟩ = some x → x.activeTxn = none := by
    intro x hx; cases hx; rfl
  by_cases hr : replayEntries s.entries = []
  · have hnone : ∀ e ∈ s.entries, ¬ Replayed s.entries e := by
      intro e he hrep
      have hmem := mem_replayEntries.mpr ⟨he, hrep⟩
      rw [hr] at hmem
      cases hmem
    have hfile := hok s.entries (by rw [h.scan_eq]; rfl) hnone
    simp only [hr, List.isEmpty_nil, if_true]
    exact {
      log := h.log
      file := ⟨[], readFrame_tiny crc (by simp), by simpa [SessionState.entries] using hfile, fun _ => rfl⟩
      counter := hcounter
      active := fun x txn hx ht => by rw [hidle x hx] at ht; cases ht }
  · have hne : (replayEntries s.entries).isEmpty = false := by simpa using hr
    simp only [hne]
    exact truncated_inv hcounter hidle

theorem sessionInv_begin {s : SessionState} (h : SessionInv crc s) (hok : s.StepOk crc .begin)
    {ses : Session} (hses : s.session = some ses) :
    SessionInv crc { s with
      session := some ⟨saturatingSucc ses.txnCounter, some ⟨ses.txnCounter, s.nextOwner⟩⟩
      nextOwner := s.nextOwner + 1 } where
  log := h.log.mono (Nat.le_succ _)
  file := by
    obtain ⟨torn, hr, hf, ht⟩ := h.file
    exact ⟨torn, hr, hf, fun _ => ht (by simp [hses])⟩
  counter x hx := by
    cases hx
    exact saturatingSucc_ne_zero _ (h.counter ses hses)
  active x txn hx ht := by
    cases hx
    cases ht
    refine ActiveInv.fresh h.log (h.counter ses hses) fun l hl => ?_
    exact hok ses hses s.entries (by rw [h.scan_eq]; rfl) l.entry (List.mem_map_of_mem hl)

theorem sessionInv_statement {s : SessionState} (h : SessionInv crc s) {sql : String}
    (hok : s.StepOk crc (.statement sql)) {ses : Session} (hses : s.session = some ses) :
    SessionInv crc
      (s.append crc ⟨ses.currentWalTxnId, .pending, sql⟩ (ses.activeTxn.map (·.owner))) := by
  have hopen : s.session.isSome := by simp [hses]
  have hfit : ∀ k, (⟨k, .pending, sql⟩ : WalEntry).Fits := fun _ => hok
  have hsame : s = { s with session := s.session } := rfl
  unfold Session.currentWalTxnId
  rw [hsame]
  cases ht : ses.activeTxn with
  | none =>
    refine h.append hopen (h.log.append_auto (hfit _) rfl (by simp)) h.counter ?_
    intro x txn hx hxt
    rw [hses] at hx
    cases hx
    rw [ht] at hxt
    cases hxt
  | some txn =>
    have ha := h.active ses txn hses ht
    refine h.append hopen (h.log.append_txn ha (hfit _) rfl) h.counter ?_
    intro x txn' hx hxt
    rw [hses] at hx
    cases hx
    rw [ht] at hxt
    cases hxt
    exact ha.append_statement sql

/-- The record that ends the open transaction. -/
theorem sessionInv_record {s : SessionState} (h : SessionInv crc s) {ses : Session} {txn : ActiveTxn}
    (hses : s.session = some ses) (ht : ses.activeTxn = some txn) (st : EntryStatus) :
    SessionInv crc ({ s with session := some { ses with activeTxn := none } }.append crc
      ⟨txn.walTxnId, st, ""⟩ (some txn.owner)) := by
  have ha := h.active ses txn hses ht
  refine h.append (by simp [hses]) (h.log.append_txn ha (marker_fits _ _) rfl) ?_ ?_
  · intro x hx
    cases hx
    exact h.counter ses hses
  · intro x txn' hx hxt
    cases hx
    cases hxt

/-- **One action keeps the invariant** where its condition holds. -/
theorem sessionInv_step {s s' : SessionState} {a : SessionAction} (h : SessionInv crc s)
    (hok : s.StepOk crc a) (hs : s.step crc a = some s') : SessionInv crc s' := by
  cases a with
  | openEngine =>
    simp only [SessionState.step] at hs
    split at hs
    · exact sessionInv_open h hok hs
    · cases hs
  | begin =>
    obtain ⟨ses, hses, hs⟩ := Option.bind_eq_some_iff.mp hs
    split at hs
    · cases hs
    · cases hs
      exact sessionInv_begin h hok hses
  | statement sql =>
    obtain ⟨ses, hses, hs⟩ := Option.bind_eq_some_iff.mp hs
    cases hs
    exact sessionInv_statement h hok hses
  | finishAutocommit =>
    obtain ⟨ses, hses, hs⟩ := Option.bind_eq_some_iff.mp hs
    split at hs
    · cases hs
    · rename_i hidle
      cases hs
      have hopen : s.session.isSome := by simp [hses]
      refine h.append hopen (h.log.append_auto (marker_fits _ _) rfl (by simp)) h.counter ?_
      intro x txn hx hxt
      rw [hses] at hx
      cases hx
      rw [hxt] at hidle
      exact absurd rfl hidle
  | commit =>
    obtain ⟨ses, hses, hs⟩ := Option.bind_eq_some_iff.mp hs
    obtain ⟨txn, ht, hs⟩ := Option.bind_eq_some_iff.mp hs
    cases hs
    exact sessionInv_record h hses ht .committed
  | rollback =>
    obtain ⟨ses, hses, hs⟩ := Option.bind_eq_some_iff.mp hs
    obtain ⟨txn, ht, hs⟩ := Option.bind_eq_some_iff.mp hs
    cases hs
    exact sessionInv_record h hses ht .aborted
  | abandon =>
    obtain ⟨ses, hses, hs⟩ := Option.bind_eq_some_iff.mp hs
    split at hs
    · cases hs
      refine ⟨h.log, ?_, ?_, ?_⟩
      · obtain ⟨torn, hr, hf, ht⟩ := h.file
        exact ⟨torn, hr, hf, fun _ => ht (by simp [hses])⟩
      · intro x hx
        cases hx
        exact h.counter ses hses
      · intro x txn hx hxt
        cases hx
        cases hxt
    · cases hs
  | checkpoint =>
    obtain ⟨ses, hses, hs⟩ := Option.bind_eq_some_iff.mp hs
    split at hs
    · cases hs
    · rename_i hidle
      cases hs
      refine truncated_inv h.counter ?_
      intro x hx
      rw [hses] at hx
      cases hx
      simpa using hidle
  | close =>
    obtain ⟨ses, hses, hs⟩ := Option.bind_eq_some_iff.mp hs
    cases hs
    exact truncated_inv nofun nofun
  | crash writing written =>
    obtain ⟨ses, hses, hs⟩ := Option.bind_eq_some_iff.mp hs
    split at hs
    · rename_i hlt
      cases hs
      refine ⟨h.log, ?_, nofun, nofun⟩
      obtain ⟨torn, hr, hf, ht⟩ := h.file
      refine ⟨(writeEntry crc writing).take written, ?_, ?_, nofun⟩
      · refine readFrame_torn crc hok (List.take_prefix _ _) ?_
        intro he
        have := congrArg List.length he
        rw [List.length_take] at this
        omega
      · rw [hf, ht (by simp [hses]), List.append_nil]
        rfl
    · cases hs

/-- **In a run whose steps meet their conditions, recovery returns in every state exactly the
statements of the committed transactions and the auto-commit statements.** -/
theorem apart_of_runOk (as : List SessionAction) (s : SessionState)
    (hrun : SessionState.initial.run crc as = some s) (hok : SessionState.initial.RunOk crc as) :
    s.Apart crc := by
  have hinv : ∀ (as : List SessionAction) (s₀ : SessionState), SessionInv crc s₀ →
      s₀.run crc as = some s → s₀.RunOk crc as → SessionInv crc s := by
    intro as
    induction as with
    | nil =>
      intro s₀ h hrun _
      cases hrun
      exact h
    | cons a as ih =>
      intro s₀ h hrun hok
      obtain ⟨s₁, hs₁, hrun⟩ := Option.bind_eq_some_iff.mp hrun
      exact ih s₁ (sessionInv_step h hok.1 hs₁) hrun (hok.2 s₁ hs₁)
  exact (hinv as _ sessionInv_initial hrun hok).apart

end

/-- A session whose transaction commits and one that crashes in its transaction. -/
theorem apart_after_crash : ((SessionState.initial.run (fun _ => 0)
    [.openEngine, .begin, .statement "INSERT INTO t VALUES (1)", .commit, .crash ⟨0, .pending, ""⟩ 0,
      .openEngine, .begin, .statement "INSERT INTO t VALUES (2)", .crash ⟨1, .committed, ""⟩ 3]).get
        (by decide)).Apart (fun _ => 0) :=
  apart_of_runOk _ _ (Option.some_get _).symm (by decide)

/-- The second session's transaction takes the id of the first one's, and its commit record
revives the statement that never committed. -/
theorem reused_id_revives_statement : ∃ s ∈ SessionState.initial.run (fun _ => 0)
    [.openEngine, .begin, .statement "UPDATE t SET v = 1", .crash ⟨1, .committed, ""⟩ 0,
      .openEngine, .begin, .statement "UPDATE t SET v = 2", .commit, .crash ⟨0, .pending, ""⟩ 0],
    s.log = [⟨⟨1, .pending, "UPDATE t SET v = 1"⟩, some 0⟩, ⟨⟨1, .pending, "UPDATE t SET v = 2"⟩, some 1⟩,
      ⟨⟨1, .committed, ""⟩, some 1⟩] ∧
    recover (fun _ => 0) (some s.file) =
      .ok [⟨1, .pending, "UPDATE t SET v = 1"⟩, ⟨1, .pending, "UPDATE t SET v = 2"⟩] ∧
    ¬ s.Apart (fun _ => 0) := by
  decide

end PotatoDB
