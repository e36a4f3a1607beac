import NatsServer.Lib.Bytes
import NatsServer.Lib.Varint

/-!
# Replicated stream messages

`encodeStreamMsgAllowCompressAndBatch` writes an op byte, then the sequence and timestamp as
64-bit words, the subject, reply and header behind 16-bit lengths, the payload behind a 32-bit
length, and a uvarint of flags; with a batch id the op byte is preceded by the batch header,
and a large message may be replaced by its compressed form. `decodeStreamMsg` and
`decodeBatchMsg` read the two formats back.

Strings are their bytes; a byte slice is `some` bytes, or `none` for a nil slice. A slice or
an index past the end of the buffer, which panics in Go, is the error `outOfRange` here. The
compressor is the argument `s2Encode`.
-/

namespace NatsServer.Cluster

open NatsServer.Lib NatsServer.Lib.Bytes NatsServer.Lib.Binary

def streamMsgOp : UInt8 := 4
def compressedStreamMsgOp : UInt8 := 14
def batchMsgOp : UInt8 := 16
def batchCommitMsgOp : UInt8 := 17

def msgFlagFromSourceOrMirror : UInt64 := 1
def compressThreshold : Nat := 8192
def MaxUint16 : Nat := 65535
def MaxUint32 : Nat := 4294967295

inductive DecodeError
  | errBadStreamMsg
  | outOfRange
  deriving DecidableEq, Repr

def DecodeError.Error : DecodeError → String
  | .errBadStreamMsg => "jetstream cluster bad replicated stream msg"
  | .outOfRange => "runtime error: slice bounds out of range"

/-! ## Slices -/

def sliceTo (buf : List UInt8) (n : Nat) : Except DecodeError (List UInt8) :=
  if n ≤ buf.length then .ok (buf.take n) else .error .outOfRange

def sliceFrom (buf : List UInt8) (n : Nat) : Except DecodeError (List UInt8) :=
  if n ≤ buf.length then .ok (buf.drop n) else .error .outOfRange

def index (buf : List UInt8) (i : Nat) : Except DecodeError UInt8 :=
  match buf[i]? with
  | some b => .ok b
  | none => .error .outOfRange

def readLE (buf : List UInt8) (w : Nat) : Except DecodeError Nat :=
  if w ≤ buf.length then .ok (leValue (buf.take w)) else .error .outOfRange

def failIf (cond : Prop) [Decidable cond] : Except DecodeError Unit :=
  if cond then .error .errBadStreamMsg else .ok ()

def nilIfEmpty (b : List UInt8) : Option (List UInt8) := if b.length = 0 then none else some b

/-! ## Encoding -/

def encodeStreamMsgAllowCompressAndBatch (s2Encode : List UInt8 → List UInt8)
    (subject reply hdr msg : List UInt8) (lseq : UInt64) (ts : Int64) (sourced : Bool)
    (batchId : List UInt8) (batchSeq : UInt64) (batchCommit : Bool) : List UInt8 :=
  -- clip the subject, reply, header and msg down
  let slen := min subject.length MaxUint16
  let rlen := min reply.length MaxUint16
  let hlen := min hdr.length MaxUint16
  let mlen := min msg.length MaxUint32
  let total := slen + rlen + hlen + mlen
  let shouldCompress := total > compressThreshold
  let blen := min batchId.length MaxUint16
  let flags : UInt64 := if sourced then 0 ||| msgFlagFromSourceOrMirror else 0
  -- the batch header ends where the op byte of the message is
  let batchHdr :=
    if batchId ≠ [] then
      [if batchCommit then batchCommitMsgOp else batchMsgOp] ++ leBytes 2 blen ++
        batchId.take blen ++ putUvarint batchSeq
    else []
  let opIndex := batchHdr.length
  let buf := batchHdr ++ [streamMsgOp] ++
    leBytes 8 lseq.toNat ++ leBytes 8 ts.toUInt64.toNat ++
    leBytes 2 slen ++ subject.take slen ++ leBytes 2 rlen ++ reply.take rlen ++
    leBytes 2 hlen ++ hdr.take hlen ++ leBytes 4 mlen ++ msg.take mlen ++ putUvarint flags
  if shouldCompress then
    let ebuf := s2Encode (buf.drop (opIndex + 1))
    -- only pay the cost of decode on the other side if we compressed
    if ebuf.length < buf.length then buf.take opIndex ++ [compressedStreamMsgOp] ++ ebuf
    else buf
  else buf

def encodeStreamMsgAllowCompress (s2Encode : List UInt8 → List UInt8)
    (subject reply hdr msg : List UInt8) (lseq : UInt64) (ts : Int64) (sourced : Bool) :
    List UInt8 :=
  encodeStreamMsgAllowCompressAndBatch s2Encode subject reply hdr msg lseq ts sourced [] 0 false

def encodeStreamMsg (s2Encode : List UInt8 → List UInt8)
    (subject reply hdr msg : List UInt8) (lseq : UInt64) (ts : Int64) (sourced : Bool) :
    List UInt8 :=
  encodeStreamMsgAllowCompress s2Encode subject reply hdr msg lseq ts sourced

/-! ## Decoding -/

structure StreamMsg where
  subject : List UInt8
  reply : List UInt8
  hdr : Option (List UInt8)
  msg : Option (List UInt8)
  lseq : UInt64
  ts : Int64
  sourced : Bool
  deriving DecidableEq, Repr

def decodeStreamMsg (buf : List UInt8) : Except DecodeError StreamMsg := do
  failIf (buf.length < 26)
  let lseq ← readLE buf 8
  let buf ← sliceFrom buf 8
  let ts ← readLE buf 8
  let buf ← sliceFrom buf 8
  let sl ← readLE buf 2
  let buf ← sliceFrom buf 2
  failIf (buf.length < sl)
  let subject ← sliceTo buf sl
  let buf ← sliceFrom buf sl
  failIf (buf.length < 2)
  let rl ← readLE buf 2
  let buf ← sliceFrom buf 2
  failIf (buf.length < rl)
  let reply ← sliceTo buf rl
  let buf ← sliceFrom buf rl
  failIf (buf.length < 2)
  let hl ← readLE buf 2
  let buf ← sliceFrom buf 2
  failIf (buf.length < hl)
  let hdr ← sliceTo buf hl
  let buf ← sliceFrom buf hl
  failIf (buf.length < 4)
  -- a 64-bit int holds any 32-bit length, so ml is never negative here
  let ml : Int := ↑(← readLE buf 4)
  let buf ← sliceFrom buf 4
  failIf (ml < 0 ∨ buf.length < ml)
  let msg ← sliceTo buf ml.toNat
  let buf ← sliceFrom buf ml.toNat
  let sourced : Bool :=
    if buf.length > 0 then (uvarint buf).1 &&& msgFlagFromSourceOrMirror != 0 else false
  return ⟨subject, reply, nilIfEmpty hdr, nilIfEmpty msg, UInt64.ofNat lseq,
    (UInt64.ofNat ts).toInt64, sourced⟩

structure BatchMsg where
  batchId : List UInt8
  batchSeq : UInt64
  op : UInt8
  mbuf : List UInt8
  deriving DecidableEq, Repr

def decodeBatchMsg (buf : List UInt8) : Except DecodeError BatchMsg := do
  failIf (buf.length < 2)
  let bl ← readLE buf 2
  let buf ← sliceFrom buf 2
  failIf (buf.length < bl)
  let batchId ← sliceTo buf bl
  let buf ← sliceFrom buf bl
  let (batchSeq, n) := uvarint buf
  failIf (n ≤ 0)
  let buf ← sliceFrom buf n.toNat
  failIf (buf.length < 1)
  let op ← index buf 0
  let mbuf ← sliceFrom buf 1
  return ⟨batchId, batchSeq, op, mbuf⟩

example :
    decodeStreamMsg (encodeStreamMsg id [102, 111, 111] [] [] [104, 105] 7 (-2) true).tail =
      .ok ⟨[102, 111, 111], [], none, some [104, 105], 7, -2, true⟩ ∧
    (decodeStreamMsg [1, 2, 3]).map (fun _ => ()) = .error .errBadStreamMsg := by
  decide +kernel

end NatsServer.Cluster
