import PotatoDB.WalSound

/-!
# Sessions on one log file

The engine opens the log, numbers its transactions from one, writes statements and
transaction records, truncates the file between transactions, and is closed or crashes.
The log since the last truncation is kept beside the file, each entry with the explicit
transaction that wrote it.
-/

namespace PotatoDB

/-- An entry and the explicit transaction it belongs to. -/
structure Logged where
  entry : WalEntry
  owner : Option Nat
deriving DecidableEq

structure ActiveTxn where
  walTxnId : UInt64
  owner : Nat
deriving DecidableEq

structure Session where
  txnCounter : UInt64
  activeTxn : Option ActiveTxn
deriving DecidableEq

structure SessionState where
  file : Bytes
  session : Option Session
  log : List Logged
  nextOwner : Nat
deriving DecidableEq

/-- No log file has been written yet. -/
def SessionState.initial : SessionState := ⟨[], none, [], 0⟩

inductive SessionAction where
  | openEngine
  | begin
  | statement (sql : String)
  | finishAutocommit
  | commit
  | rollback
  /-- COMMIT or ROLLBACK fails after taking the transaction and before its record. -/
  | abandon
  | checkpoint
  | close
  /-- The process stops; `written` bytes of the entry it was writing are in the file. -/
  | crash (writing : WalEntry) (written : Nat)
deriving DecidableEq

/-- `u64::saturating_add(1)`. -/
def saturatingSucc (n : UInt64) : UInt64 := if n.toNat + 1 < 2 ^ 64 then n + 1 else n

def Session.currentWalTxnId (s : Session) : UInt64 := (s.activeTxn.map (·.walTxnId)).getD 0

section
variable (crc : Bytes → UInt32)

def SessionState.append (s : SessionState) (e : WalEntry) (owner : Option Nat) : SessionState :=
  { s with file := appendEntries crc s.file [e], log := s.log ++ [⟨e, owner⟩] }

/-- `PotatoDB::new`: replays, truncates if anything was replayed, and counts from one. -/
def SessionState.openEngine (s : SessionState) : Option SessionState :=
  match recover crc (some s.file), reopen crc s.file with
  | .ok replay, .ok file =>
    some { s with
      file := file
      session := some ⟨1, none⟩
      log := if replay.isEmpty then s.log else [] }
  | _, _ => none

/-- The effect of one action; `none` where it cannot happen. -/
def SessionState.step (s : SessionState) : SessionAction → Option SessionState
  | .openEngine => if s.session.isNone then s.openEngine crc else none
  | .begin => do
    let ses ← s.session
    if ses.activeTxn.isSome then none
    else
      some { s with
        session := some ⟨saturatingSucc ses.txnCounter, some ⟨ses.txnCounter, s.nextOwner⟩⟩
        nextOwner := s.nextOwner + 1 }
  | .statement sql => do
    let ses ← s.session
    some (s.append crc ⟨ses.currentWalTxnId, .pending, sql⟩ (ses.activeTxn.map (·.owner)))
  | .finishAutocommit => do
    let ses ← s.session
    if ses.activeTxn.isSome then none else some (s.append crc ⟨0, .committed, ""⟩ none)
  | .commit => do
    let ses ← s.session
    let txn ← ses.activeTxn
    some ({ s with session := some { ses with activeTxn := none } }.append crc
      ⟨txn.walTxnId, .committed, ""⟩ (some txn.owner))
  | .rollback => do
    let ses ← s.session
    let txn ← ses.activeTxn
    some ({ s with session := some { ses with activeTxn := none } }.append crc
      ⟨txn.walTxnId, .aborted, ""⟩ (some txn.owner))
  | .abandon => do
    let ses ← s.session
    if ses.activeTxn.isSome then some { s with session := some { ses with activeTxn := none } } else none
  | .checkpoint => do
    let ses ← s.session
    if ses.activeTxn.isSome then none else some { s with file := [], log := [] }
  | .close => do
    let _ ← s.session
    some { s with file := [], log := [], session := none }
  | .crash writing written => do
    let _ ← s.session
    if written < (writeEntry crc writing).length then
      some { s with session := none, file := s.file ++ (writeEntry crc writing).take written }
    else none

def SessionState.run (s : SessionState) : List SessionAction → Option SessionState
  | [] => some s
  | a :: as => do (← s.step crc a).run as

/-! ## What recovery should return -/

/-- A logged statement of a transaction that committed, or of none. -/
def Decided (log : List Logged) (l : Logged) : Prop :=
  l.entry.status = .pending ∧ l.entry.sql ≠ "" ∧
    (l.owner = none ∨ ∃ c ∈ log, c.entry.status = .committed ∧ c.owner = l.owner)

instance (log : List Logged) : DecidablePred (Decided log) := fun l => by
  unfold Decided; infer_instance

/-- Recovery returns the auto-commit statements and the statements of the explicit
transactions that committed since the last truncation, and nothing else. -/
def SessionState.Apart (s : SessionState) : Prop :=
  recover crc (some s.file) =
    .ok ((s.log.filter fun l => decide (Decided s.log l)).map (·.entry))

instance (s : SessionState) : Decidable (s.Apart crc) := by
  unfold SessionState.Apart; infer_instance

/-! ## Where ids keep transactions apart -/

/-- BEGIN takes an id that no entry of the file has; an open with nothing to replay finds no
torn tail; and every text fits its length field. -/
def SessionState.StepOk (s : SessionState) : SessionAction → Prop
  | .openEngine => ∀ es ∈ (scan crc s.file).toOption, (∀ e ∈ es, ¬ Replayed es e) →
      s.file = writeEntries crc es
  | .begin => ∀ ses ∈ s.session, ∀ es ∈ (scan crc s.file).toOption, ∀ e ∈ es, e.txnId ≠ ses.txnCounter
  | .statement sql => 13 + (asBytes sql).length < 2 ^ 32
  | .crash writing _ => writing.Fits
  | _ => True

def SessionState.RunOk (s : SessionState) : List SessionAction → Prop
  | [] => True
  | a :: as => s.StepOk crc a ∧ ∀ s' ∈ s.step crc a, s'.RunOk as

instance (s : SessionState) (a : SessionAction) : Decidable (s.StepOk crc a) := by
  cases a <;> unfold SessionState.StepOk <;> infer_instance

instance decidableRunOk : ∀ (as : List SessionAction) (s : SessionState), Decidable (s.RunOk crc as)
  | [], _ => inferInstanceAs (Decidable True)
  | a :: as, s =>
    have (s' : SessionState) : Decidable (s'.RunOk crc as) := decidableRunOk as s'
    inferInstanceAs (Decidable (s.StepOk crc a ∧ ∀ s' ∈ s.step crc a, s'.RunOk crc as))

end

end PotatoDB
