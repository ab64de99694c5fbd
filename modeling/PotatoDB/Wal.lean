import Mathlib

/-!
# The SQL write-ahead log file

A WAL file is a byte list. An entry is framed by its length and a checksum of its
payload; recovery scans frames from the start and keeps the entries of committed
transactions. The checksum is a parameter.
-/

namespace PotatoDB

abbrev Bytes := List UInt8

/-! ## Little-endian integers -/

def toLeBytes : Nat → Nat → Bytes
  | 0, _ => []
  | w + 1, n => UInt8.ofNat n :: toLeBytes w (n / 256)

def fromLeBytes : Bytes → Nat
  | [] => 0
  | b :: bs => b.toNat + 256 * fromLeBytes bs

/-! ## Text -/

def asBytes (s : String) : Bytes := s.toUTF8.data.toList

def isContinuation (b : UInt8) : Bool := 0x80 ≤ b && b ≤ 0xBF

def utf8CharWidth (b : UInt8) : Nat :=
  if b < 0x80 then 1
  else if 0xC2 ≤ b && b ≤ 0xDF then 2
  else if 0xE0 ≤ b && b ≤ 0xEF then 3
  else if 0xF0 ≤ b && b ≤ 0xF4 then 4
  else 0

/-- Bytes that may stand second after the lead byte `b` of a long sequence. -/
def secondByteOk (b c : UInt8) : Bool :=
  if b = 0xE0 then 0xA0 ≤ c && c ≤ 0xBF
  else if b = 0xED then 0x80 ≤ c && c ≤ 0x9F
  else if b = 0xF0 then 0x90 ≤ c && c ≤ 0xBF
  else if b = 0xF4 then 0x80 ≤ c && c ≤ 0x8F
  else isContinuation c

def replacementChar : Char := '\uFFFD'

def sixBits (acc : Nat) (c : UInt8) : Nat := acc * 64 + c.toNat % 64

/-- The character at the head of `b :: bs` and how many bytes of `bs` it takes; a maximal
ill-formed prefix stands for one replacement character. -/
def decodeStep (b : UInt8) (bs : Bytes) : Char × Nat :=
  match utf8CharWidth b, bs with
  | 1, _ => (Char.ofNat b.toNat, 0)
  | 2, c₁ :: _ =>
    if isContinuation c₁ then (Char.ofNat (sixBits (b.toNat % 32) c₁), 1) else (replacementChar, 0)
  | 3, c₁ :: cs =>
    if secondByteOk b c₁ then
      match cs with
      | c₂ :: _ =>
        if isContinuation c₂ then (Char.ofNat (sixBits (sixBits (b.toNat % 16) c₁) c₂), 2)
        else (replacementChar, 1)
      | [] => (replacementChar, 1)
    else (replacementChar, 0)
  | 4, c₁ :: cs =>
    if secondByteOk b c₁ then
      match cs with
      | c₂ :: cs =>
        if isContinuation c₂ then
          match cs with
          | c₃ :: _ =>
            if isContinuation c₃ then
              (Char.ofNat (sixBits (sixBits (sixBits (b.toNat % 8) c₁) c₂) c₃), 3)
            else (replacementChar, 2)
          | [] => (replacementChar, 2)
        else (replacementChar, 1)
      | [] => (replacementChar, 1)
    else (replacementChar, 0)
  | _, _ => (replacementChar, 0)

/-- The fuel is at least the number of bytes left. -/
def decodeLossy : Nat → Bytes → List Char
  | 0, _ => []
  | _, [] => []
  | n + 1, b :: bs => (decodeStep b bs).1 :: decodeLossy n (bs.drop (decodeStep b bs).2)

def fromUtf8Lossy (bs : Bytes) : String :=
  match String.fromUTF8? ⟨bs.toArray⟩ with
  | some s => s
  | none => String.ofList (decodeLossy bs.length bs)

/-! ## Entries -/

inductive IoError where
  | invalidData (message : String)
deriving DecidableEq, Repr

inductive EntryStatus where
  | pending
  | committed
  | aborted
deriving DecidableEq, Repr

def EntryStatus.toU8 : EntryStatus → UInt8
  | pending => 0
  | committed => 1
  | aborted => 2

def EntryStatus.tryFrom (value : UInt8) : Except IoError EntryStatus :=
  if value = 0 then .ok .pending
  else if value = 1 then .ok .committed
  else if value = 2 then .ok .aborted
  else .error (.invalidData s!"invalid WAL entry status: {value}")

structure WalEntry where
  txnId : UInt64
  status : EntryStatus
  sql : String
deriving DecidableEq, Repr

/-- Entries whose length field does not overflow. -/
def WalEntry.Fits (e : WalEntry) : Prop := 13 + (asBytes e.sql).length < 2 ^ 32

instance : DecidablePred WalEntry.Fits := fun e =>
  inferInstanceAs (Decidable (13 + (asBytes e.sql).length < 2 ^ 32))

def WalEntry.payload (e : WalEntry) : Bytes :=
  toLeBytes 8 e.txnId.toNat ++ [e.status.toU8] ++ asBytes e.sql

section
variable (crc : Bytes → UInt32)

def writeEntry (e : WalEntry) : Bytes :=
  let sqlBytes := asBytes e.sql
  let payloadLen := 8 + 1 + sqlBytes.length
  let totalLen := UInt32.ofNat (4 + payloadLen)
  toLeBytes 4 totalLen.toNat ++ toLeBytes 4 (crc e.payload).toNat ++ e.payload

def writeEntries (es : List WalEntry) : Bytes := es.flatMap (writeEntry crc)

/-! ## Recovery -/

def decodePayload (payload : Bytes) : Except IoError WalEntry := do
  let txnId := UInt64.ofNat (fromLeBytes (payload.take 8))
  let status ← EntryStatus.tryFrom (payload.getD 8 0)
  return ⟨txnId, status, fromUtf8Lossy (payload.drop 9)⟩

/-- One round of the scan loop: `none` where the loop stops. -/
def readFrame (file : Bytes) : Except IoError (Option (WalEntry × Bytes)) :=
  if file.length < 4 then .ok none
  else
    let totalLen := fromLeBytes (file.take 4)
    if totalLen < 4 + 8 + 1 then .ok none
    else if (file.drop 4).length < totalLen then .ok none
    else
      let buf := (file.drop 4).take totalLen
      let storedCrc := UInt32.ofNat (fromLeBytes (buf.take 4))
      let payload := buf.drop 4
      if storedCrc ≠ crc payload then .ok none
      else do return some (← decodePayload payload, file.drop (4 + totalLen))

def scanLoop : Nat → Bytes → Except IoError (List WalEntry)
  | 0, _ => .ok []
  | fuel + 1, file => do
    match ← readFrame crc file with
    | none => .ok []
    | some (e, rest) => return e :: (← scanLoop fuel rest)

/-- Every frame takes at least 17 bytes, so the length is fuel enough. -/
def scan (file : Bytes) : Except IoError (List WalEntry) := scanLoop crc file.length file

def committedTxns (entries : List WalEntry) : List UInt64 :=
  (entries.filter (·.status = .committed)).map (·.txnId)

def abortedTxns (entries : List WalEntry) : List UInt64 :=
  (entries.filter (·.status = .aborted)).map (·.txnId)

def replayEntries (entries : List WalEntry) : List WalEntry :=
  entries.filter fun e =>
    e.status = .pending && e.sql ≠ "" &&
      (e.txnId = 0 || (committedTxns entries).contains e.txnId) &&
      !(abortedTxns entries).contains e.txnId

/-- `none` is a missing file. -/
def recover : Option Bytes → Except IoError (List WalEntry)
  | none => .ok []
  | some file => do return replayEntries (← scan crc file)

/-! ## Opening the engine -/

/-- The log file when `PotatoDB::new` has replayed it: truncated if anything was replayed,
and left as it is otherwise. -/
def reopen (file : Bytes) : Except IoError Bytes := do
  let replay ← recover crc (some file)
  return if replay.isEmpty then file else []

/-- `Wal::open` appends at the end of whatever is there. -/
def appendEntries (file : Bytes) (es : List WalEntry) : Bytes := file ++ writeEntries crc es

end

end PotatoDB
