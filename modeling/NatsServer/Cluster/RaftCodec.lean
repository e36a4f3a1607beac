import NatsServer.Cluster.StreamMsgRoundTrip

/-!
# Raft's wire formats

The messages raft sends between peers, as `raft.go` lays them out: an append entry (a header of
the leader id and four 64-bit words, a 16-bit count, each entry behind a 32-bit length that
counts its type byte, and a trailing uvarint `lterm` that older nodes ignore), its response, a
vote request and a vote response, and the peer state (the cluster size, the count of peers and
their ids, and a 16-bit extension state).

Ids are their bytes. `copy` writes what fits (`copyAt`); a buffer the caller passes for reuse is
the bytes of its capacity. Where a decoder indexes or slices outside the message, which panics
in Go, it returns `outOfRange`; the peer and vote decoders check the whole length first and
read plainly. The interning of the peer id in decodeAppendEntryResponse returns an equal string
and is left out.
-/

namespace NatsServer.Cluster.Wire

open NatsServer.Lib.Bytes NatsServer.Lib.Binary

def idLen : Nat := 8
def MaxInt32 : Nat := 2147483647

inductive CodecError
  | errLeaderLen
  | errTooManyEntries
  | errBadAppendEntry
  | errCorruptPeers
  | outOfRange
  deriving DecidableEq, Repr

def CodecError.Error : CodecError → String
  | .errLeaderLen => "raft: leader should be exactly 8 bytes"
  | .errTooManyEntries => "raft: append entry can contain a max of 64k entries"
  | .errBadAppendEntry => "raft: append entry corrupt"
  | .errCorruptPeers => "raft: corrupt peer state"
  | .outOfRange => "runtime error: slice bounds out of range"

def failWith (err : CodecError) (cond : Prop) [Decidable cond] : Except CodecError Unit :=
  if cond then .error err else .ok ()

def copyAt (buf : List UInt8) (i : Nat) (src : List UInt8) : List UInt8 :=
  buf.take i ++ src.take (buf.length - i) ++ buf.drop (i + src.length)

def byteAt (msg : List UInt8) (i : Nat) : Except CodecError UInt8 :=
  match msg[i]? with
  | some b => .ok b
  | none => .error .outOfRange

def sliceAt (msg : List UInt8) (lo hi : Nat) : Except CodecError (List UInt8) :=
  if lo ≤ hi ∧ hi ≤ msg.length then .ok ((msg.drop lo).take (hi - lo)) else .error .outOfRange

def wordAt (msg : List UInt8) (i w : Nat) : Except CodecError Nat :=
  if i + w ≤ msg.length then .ok (getLE msg i w) else .error .outOfRange

/-! ## Append entries -/

structure Entry where
  type : UInt8
  data : List UInt8
  deriving DecidableEq, Repr

structure AppendEntry where
  leader : List UInt8
  term : UInt64
  commit : UInt64
  pterm : UInt64
  pindex : UInt64
  entries : List Entry
  lterm : UInt64
  deriving DecidableEq, Repr

def appendEntryBaseLen : Nat := idLen + 4 * 8 + 2

/-- The loop of encode over the entries: their length on the wire, or errBadAppendEntry for one
longer than MaxInt32, so that its length and type byte fit in a uint32. -/
def entriesLen : List Entry → Except CodecError Nat
  | [] => .ok 0
  | e :: es => do
    failWith .errBadAppendEntry (e.data.length > MaxInt32)
    let elen ← entriesLen es
    return e.data.length + 1 + 4 + elen

def entryBytes (e : Entry) : List UInt8 := leBytes 4 (1 + e.data.length) ++ [e.type] ++ e.data

def AppendEntry.encode (ae : AppendEntry) (b : List UInt8) : Except CodecError (List UInt8) := do
  let ll := ae.leader.length
  failWith .errLeaderLen (ll ≠ idLen ∧ ll ≠ 0)
  failWith .errTooManyEntries (ae.entries.length > MaxUint16)
  let elen ← entriesLen ae.entries
  let lterm := putUvarint ae.lterm
  let tlen := appendEntryBaseLen + elen + lterm.length
  -- the caller's buffer is reused when it can hold the whole entry
  let buf := if b.length ≥ tlen then b.take idLen else List.replicate idLen 0
  let buf := copyAt buf 0 ae.leader
  return buf ++ leBytes 8 ae.term.toNat ++ leBytes 8 ae.commit.toNat ++ leBytes 8 ae.pterm.toNat ++
    leBytes 8 ae.pindex.toNat ++ leBytes 2 ae.entries.length ++ ae.entries.flatMap entryBytes ++
    lterm

/-- One round of decodeAppendEntry's loop at offset `ri`: the entry there and the offset after
it. The first check is on uint64s; `ri` never passes the end (`decodeEntries_sound`). -/
def decodeEntry (msg : List UInt8) (ri : Nat) : Except CodecError (Entry × Nat) := do
  let max := msg.length
  failWith .errBadAppendEntry (UInt64.ofNat max - UInt64.ofNat ri < 4)
  let ml ← wordAt msg ri 4
  let ri := ri + 4
  failWith .errBadAppendEntry (ml ≤ 0 ∨ ri + ml > max)
  let type ← byteAt msg ri
  let data ← sliceAt msg (ri + 1) (ri + ml)
  return (⟨type, data⟩, ri + ml)

def decodeEntries (msg : List UInt8) : Nat → Nat → Except CodecError (List Entry × Nat)
  | 0, ri => .ok ([], ri)
  | ne + 1, ri => do
    let (e, ri) ← decodeEntry msg ri
    let (es, ri) ← decodeEntries msg ne ri
    return (e :: es, ri)

def decodeAppendEntry (msg : List UInt8) : Except CodecError AppendEntry := do
  failWith .errBadAppendEntry (msg.length < appendEntryBaseLen)
  let leader ← sliceAt msg 0 idLen
  let term ← wordAt msg 8 8
  let commit ← wordAt msg 16 8
  let pterm ← wordAt msg 24 8
  let pindex ← wordAt msg 32 8
  let ne ← wordAt msg 40 2
  let (entries, ri) ← decodeEntries msg ne appendEntryBaseLen
  -- a node that knows of lterm writes it after the entries
  let rest ← sliceAt msg ri msg.length
  let lterm := if rest.length > 0 ∧ (uvarint rest).2 > 0 then (uvarint rest).1 else 0
  return ⟨leader, UInt64.ofNat term, UInt64.ofNat commit, UInt64.ofNat pterm, UInt64.ofNat pindex,
    entries, lterm⟩

/-! ## Responses and votes -/

def appendEntryResponseLen : Nat := 24 + 1

structure AppendEntryResponse where
  term : UInt64
  index : UInt64
  peer : List UInt8
  success : Bool
  deriving DecidableEq, Repr

def AppendEntryResponse.encode (ar : AppendEntryResponse) (b : List UInt8) : List UInt8 :=
  let buf := if b.length ≥ appendEntryResponseLen then b.take appendEntryResponseLen
    else List.replicate appendEntryResponseLen 0
  let buf := copyAt buf 0 (leBytes 8 ar.term.toNat)
  let buf := copyAt buf 8 (leBytes 8 ar.index.toNat)
  -- copy(buf[16:16+idLen], ar.peer) copies idLen bytes at most
  let buf := copyAt buf 16 (ar.peer.take idLen)
  let buf := buf.set 24 (if ar.success then 1 else 0)
  buf.take appendEntryResponseLen

def decodeAppendEntryResponse (msg : List UInt8) : Option AppendEntryResponse :=
  if msg.length ≠ appendEntryResponseLen then none
  else some ⟨UInt64.ofNat (getLE msg 0 8), UInt64.ofNat (getLE msg 8 8), (msg.drop 16).take idLen,
    msg.getD 24 0 == 1⟩

def voteRequestLen : Nat := 24 + idLen

structure VoteRequest where
  term : UInt64
  lastTerm : UInt64
  lastIndex : UInt64
  candidate : List UInt8
  deriving DecidableEq, Repr

def VoteRequest.encode (vr : VoteRequest) : List UInt8 :=
  let buf := List.replicate voteRequestLen 0
  let buf := copyAt buf 0 (leBytes 8 vr.term.toNat)
  let buf := copyAt buf 8 (leBytes 8 vr.lastTerm.toNat)
  let buf := copyAt buf 16 (leBytes 8 vr.lastIndex.toNat)
  copyAt buf 24 (vr.candidate.take idLen)

def decodeVoteRequest (msg : List UInt8) : Option VoteRequest :=
  if msg.length ≠ voteRequestLen then none
  else some ⟨UInt64.ofNat (getLE msg 0 8), UInt64.ofNat (getLE msg 8 8),
    UInt64.ofNat (getLE msg 16 8), (msg.drop 24).take idLen⟩

def voteResponseLen : Nat := 8 + 8 + 1

structure VoteResponse where
  term : UInt64
  peer : List UInt8
  granted : Bool
  empty : Bool
  deriving DecidableEq, Repr

def VoteResponse.encode (vr : VoteResponse) : List UInt8 :=
  let buf := List.replicate voteResponseLen 0
  let buf := copyAt buf 0 (leBytes 8 vr.term.toNat)
  -- copy(buf[8:], vr.peer): an id longer than idLen runs into the flags
  let buf := copyAt buf 8 vr.peer
  let buf := if vr.granted then buf.modify 16 (· ||| 1) else buf
  if vr.empty then buf.modify 16 (· ||| 2) else buf

def decodeVoteResponse (msg : List UInt8) : Option VoteResponse :=
  if msg.length ≠ voteResponseLen then none
  else some ⟨UInt64.ofNat (getLE msg 0 8), (msg.drop 8).take 8, msg.getD 16 0 &&& 1 != 0,
    msg.getD 16 0 &&& 2 != 0⟩

/-! ## Peer state -/

structure PeerState where
  knownPeers : List (List UInt8)
  clusterSize : Int64
  domainExt : UInt16
  deriving DecidableEq, Repr

def peerStateBufSize (ps : PeerState) : Nat := 4 + 4 + idLen * ps.knownPeers.length + 2

def writePeers : List UInt8 → Nat → List (List UInt8) → List UInt8 × Nat
  | buf, wi, [] => (buf, wi)
  | buf, wi, peer :: peers => writePeers (copyAt buf wi peer) (wi + idLen) peers

def encodePeerState (ps : PeerState) : List UInt8 :=
  let buf := List.replicate (peerStateBufSize ps) 0
  let buf := copyAt buf 0 (leBytes 4 ps.clusterSize.toUInt64.toNat)
  let buf := copyAt buf 4 (leBytes 4 ps.knownPeers.length)
  let (buf, wi) := writePeers buf 8 ps.knownPeers
  copyAt buf wi (leBytes 2 ps.domainExt.toNat)

def readPeers (buf : List UInt8) : Nat → Nat → List (List UInt8) × Nat
  | 0, ri => ([], ri)
  | n + 1, ri =>
    if ri + idLen ≤ buf.length then
      let (peers, ri') := readPeers buf n (ri + idLen)
      ((buf.drop ri).take idLen :: peers, ri')
    else ([], ri)

def decodePeerState (buf : List UInt8) : Except CodecError PeerState := do
  failWith .errCorruptPeers (buf.length < 8)
  let clusterSize := Int64.ofNat (getLE buf 0 4)
  let expectedPeers := getLE buf 4 4
  let buf := buf.drop 8
  let (knownPeers, ri) := readPeers buf expectedPeers 0
  failWith .errCorruptPeers (knownPeers.length ≠ expectedPeers)
  let domainExt := if (buf.drop ri).length ≥ 2 then UInt16.ofNat (getLE buf ri 2) else 0
  return ⟨knownPeers, clusterSize, domainExt⟩

end NatsServer.Cluster.Wire
