import Mathlib.Data.Nat.Bitwise
import NatsServer.Lib.Assoc
import NatsServer.Lib.Varint

/-!
# The encoded state of a consumer

`encodeConsumerState` writes the ack floor and the delivered pair as uvarints, then the pending
map with its sequences taken relative to the ack floor and its timestamps as seconds below a
base `mints`, then the redelivered map. `decodeConsumerState` reads versions 1 and 2 of the
format with a read position that a failed read sets to `-1` (`none` here).

The clock `encodeConsumerState` reads is its argument `mints`; a Go map is ranged over in the
order of its entries.
-/

namespace NatsServer.Store

open NatsServer.Lib NatsServer.Lib.Binary

structure SequencePair where
  Consumer : UInt64
  Stream : UInt64
  deriving DecidableEq, Repr

structure Pending where
  Sequence : UInt64
  Timestamp : Int64
  deriving DecidableEq, Repr

structure ConsumerState where
  Delivered : SequencePair
  AckFloor : SequencePair
  Pending : Assoc.Map UInt64 Pending
  Redelivered : Assoc.Map UInt64 UInt64

def magic : UInt8 := 22
def hdrLen : Nat := 2
def seqsHdrSize : Nat := 6 * MaxVarintLen64 + hdrLen
def second : Int64 := 1000000000

inductive ConsumerError
  | corruptState
  | unsupportedVersion (version : UInt8)
  deriving DecidableEq, Repr

def ConsumerError.Error : ConsumerError → String
  | .corruptState => "corrupt state file"
  | .unsupportedVersion version => "unsupported version: " ++ toString version

/-! ## Encoding -/

def pendingEntry (mints : Int64) (asflr adflr : UInt64) : UInt64 × Pending → List UInt8
  | (k, v) =>
    putUvarint (k - asflr) ++ putUvarint (v.Sequence - adflr) ++
      putVarint (mints - v.Timestamp / second)

def redeliveredEntry (asflr : UInt64) : UInt64 × UInt64 → List UInt8
  | (k, v) => putUvarint (k - asflr) ++ putUvarint v

def pendingBytes (mints : Int64) (state : ConsumerState) : List UInt8 :=
  putUvarint (UInt64.ofNat state.Pending.len) ++
    if state.Pending.len > 0 then
      putVarint mints ++
        state.Pending.entries.flatMap
          (pendingEntry mints state.AckFloor.Stream state.AckFloor.Consumer)
    else []

def redeliveredBytes (state : ConsumerState) : List UInt8 :=
  putUvarint (UInt64.ofNat state.Redelivered.len) ++
    state.Redelivered.entries.flatMap (redeliveredEntry state.AckFloor.Stream)

def encodeConsumerState (mints : Int64) (state : ConsumerState) : List UInt8 :=
  [magic, 2] ++
    putUvarint state.AckFloor.Consumer ++ putUvarint state.AckFloor.Stream ++
    putUvarint state.Delivered.Consumer ++ putUvarint state.Delivered.Stream ++
    pendingBytes mints state ++ redeliveredBytes state

def encodeMaxSize (state : ConsumerState) : Nat :=
  seqsHdrSize +
    (if state.Pending.len > 0 then state.Pending.len * (3 * MaxVarintLen64) + MaxVarintLen64
    else 0) +
    (if state.Redelivered.len > 0 then
      state.Redelivered.len * (2 * MaxVarintLen64) + MaxVarintLen64
    else 0)

/-! ## Decoding -/

def checkConsumerHeader (hdr : List UInt8) : Except ConsumerError UInt8 :=
  match hdr with
  | m :: version :: _ =>
    if m ≠ magic then .error .corruptState
    else if version = 1 ∨ version = 2 then .ok version
    else .error (.unsupportedVersion version)
  | _ => .error .corruptState

def readSeq (buf : List UInt8) : Option Nat → UInt64 × Option Nat
  | none => (0, none)
  | some bi =>
    let (seq, n) := uvarint (buf.drop bi)
    if n ≤ 0 then (0, none) else (seq, some (bi + n.toNat))

def readTimeStamp (buf : List UInt8) : Option Nat → Int64 × Option Nat
  | none => (0, none)
  | some bi =>
    let (ts, n) := varint (buf.drop bi)
    if n ≤ 0 then (-1, none) else (ts, some (bi + n.toNat))

def loopCount (n : UInt64) : Nat := n.toInt64.toInt.toNat

def pendingLoop (buf : List UInt8) (version : UInt8) (afloor : SequencePair) (mints : Int64) :
    Nat → Option Nat → Assoc.Map UInt64 Pending →
      Except ConsumerError (Option Nat × Assoc.Map UInt64 Pending)
  | 0, bi, pending => .ok (bi, pending)
  | i + 1, bi, pending =>
    let (sseq, bi) := readSeq buf bi
    let (dseq, bi) := if version = 2 then readSeq buf bi else (0, bi)
    let (ts, bi) := readTimeStamp buf bi
    -- the state machine is checked for corruption, not the value which could be -1
    if bi = none then .error .corruptState
    else
      let sseq := sseq + afloor.Stream
      if sseq = 0 then .error .corruptState
      else
        let dseq := if version = 2 then dseq + afloor.Consumer else dseq
        let ts := if version = 1 then (ts + mints) * second else (mints - ts) * second
        pendingLoop buf version afloor mints i bi (pending.set sseq ⟨dseq, ts⟩)

def redeliveredLoop (buf : List UInt8) (asflr : UInt64) :
    Nat → Option Nat → Assoc.Map UInt64 UInt64 → Option Nat × Assoc.Map UInt64 UInt64
  | 0, bi, redelivered => (bi, redelivered)
  | i + 1, bi, redelivered =>
    let (seq, bi) := readSeq buf bi
    let (n, bi) := readSeq buf bi
    redeliveredLoop buf asflr i bi
      (if seq > 0 ∧ n > 0 then redelivered.set (seq + asflr) n else redelivered)

-- Generate the equation lemmas of pendingLoop and redeliveredLoop here, once, before the proofs
-- below unfold them in parallel.
section
attribute [local simp] pendingLoop redeliveredLoop
end


def readPending (buf : List UInt8) (version : UInt8) (afloor : SequencePair) (bi : Option Nat) :
    Except ConsumerError (Option Nat × Assoc.Map UInt64 Pending) :=
  let (numPending, bi) := readSeq buf bi
  if numPending > 0 then
    let (mints, bi) := readTimeStamp buf bi
    pendingLoop buf version afloor mints (loopCount numPending) bi .empty
  else .ok (bi, .empty)

def readRedelivered (buf : List UInt8) (asflr : UInt64) (bi : Option Nat) :
    Option Nat × Assoc.Map UInt64 UInt64 :=
  let (numRedelivered, bi) := readSeq buf bi
  if numRedelivered > 0 then redeliveredLoop buf asflr (loopCount numRedelivered) bi .empty
  else (bi, .empty)

def hbit : UInt64 := (1 : UInt64) <<< 63

def decodeConsumerState (buf : List UInt8) : Except ConsumerError ConsumerState := do
  let version ← checkConsumerHeader buf
  let (afc, bi) := readSeq buf (some hdrLen)
  let (afs, bi) := readSeq buf bi
  let (dc, bi) := readSeq buf bi
  let (ds, bi) := readSeq buf bi
  if bi = none then throw .corruptState
  -- version 1 stored delivered as the next to be delivered
  let dc := if version = 1 ∧ afc > 1 then dc + (afc - 1) else dc
  let ds := if version = 1 ∧ afs > 1 then ds + (afs - 1) else ds
  -- protect against rolling backwards
  if afs &&& hbit ≠ 0 ∨ ds &&& hbit ≠ 0 then throw .corruptState
  let (bi, pending) ← readPending buf version ⟨afc, afs⟩ bi
  return ⟨⟨dc, ds⟩, ⟨afc, afs⟩, pending, (readRedelivered buf afs bi).2⟩

example : (decodeConsumerState [22, 1, 3, 5, 2, 4, 0, 0]).toOption.map
      (fun d => (d.Delivered, d.AckFloor)) = some (⟨4, 8⟩, ⟨3, 5⟩) ∧
    (decodeConsumerState [22, 3]).map (fun _ => ()) = .error (.unsupportedVersion 3) ∧
    (decodeConsumerState [22, 2, 0, 128, 128, 128, 128, 128, 128, 128, 128, 128, 1, 0, 0]).map
      (fun _ => ()) = .error .corruptState := by
  decide +kernel

end NatsServer.Store
