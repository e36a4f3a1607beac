import NatsServer.Store.MemStore
import NatsServer.Store.ConsumerRoundTrip
import NatsServer.Avl.Codec

/-!
# The encoded state of a memory stream

`EncodedStreamState` writes the message and byte counts, the first and last sequences, the
failed count and the number of deleted messages as uvarints after a two-byte header, then the
delete map when that number is positive. `DecodeStreamState` reads them back, then reads
self-describing delete blocks (an AVL sequence set, or a run of deleted sequences) up to the end
of the buffer, with a read position that a failed read sets to `-1` (`none` here).

The number of deleted messages is computed from the counters, `LastSeq - FirstSeq + 1 - Msgs`,
and not from the delete map: a store reset to sequence `0` counts one deleted message and writes
an empty map for it.
-/

namespace NatsServer.Store

open NatsServer.Lib NatsServer.Lib.Binary
open NatsServer.Avl (SequenceSet truncH baseLt)

def streamStateMagic : UInt8 := 42
def streamStateVersion : UInt8 := 1
def runLengthMagic : UInt8 := 33
def seqSetMagic : UInt8 := 22

def uvarintLen (v : UInt64) : Nat := ((v ||| 1).toNat.size + 6) / 7

inductive DeleteBlock
  | seqSet (ss : SequenceSet)
  | range (First Num : UInt64)

def DeleteBlock.has : DeleteBlock → UInt64 → Bool
  | .seqSet ss, seq => ss.Exists seq
  | .range first num, seq => first ≤ seq && seq < first + num

structure StreamReplicatedState where
  Msgs : UInt64
  Bytes : UInt64
  FirstSeq : UInt64
  LastSeq : UInt64
  Failed : UInt64
  Deleted : List DeleteBlock

inductive StreamStateError
  | ErrBadStreamStateEncoding
  | ErrCorruptStreamState
  deriving DecidableEq, Repr

def StreamStateError.Error : StreamStateError → String
  | .ErrBadStreamStateEncoding => "bad stream state encoding"
  | .ErrCorruptStreamState => "stream state snapshot is corrupt"

namespace MemStore

def numDeleted (ms : MemStore) : UInt64 :=
  let n := ms.state.LastSeq - ms.state.FirstSeq + 1 - ms.state.Msgs
  if n.toInt64 < 0 then 0 else n

def encodedCounts (ms : MemStore) (failed : UInt64) : List UInt8 :=
  [streamStateMagic, streamStateVersion] ++ putUvarint ms.state.Msgs ++
    putUvarint ms.state.Bytes ++ putUvarint ms.state.FirstSeq ++ putUvarint ms.state.LastSeq ++
    putUvarint failed ++ putUvarint ms.numDeleted

def encodedTotal (ms : MemStore) (failed : UInt64) : Nat :=
  hdrLen + uvarintLen ms.state.Msgs + uvarintLen ms.state.Bytes + uvarintLen ms.state.FirstSeq +
    uvarintLen ms.state.LastSeq + uvarintLen failed + uvarintLen ms.numDeleted +
    if ms.numDeleted > 0 then ms.dmap.EncodeLen else 0

/-- EncodedStreamState. The size check against `encodedTotal` only logs; an error is the panic of
a delete map whose tree outgrows its node count. -/
def EncodedStreamState (ms : MemStore) (failed : UInt64) : Except Avl.SsError (List UInt8) :=
  if ms.numDeleted > 0 then (ms.dmap.Encode).map (ms.encodedCounts failed ++ ·)
  else .ok (ms.encodedCounts failed)

end MemStore

def readU64 (buf : List UInt8) : Option Nat → UInt64 × Option Nat
  | none => (0, none)
  | some bi =>
    if bi ≥ buf.length then (0, none)
    else
      let (num, n) := uvarint (buf.drop bi)
      if n ≤ 0 then (0, none) else (num, some (bi + n.toNat))

theorem readU64_eq_readSeq (buf : List UInt8) (bi : Option Nat) :
    readU64 buf bi = readSeq buf bi := by
  cases bi with
  | none => rfl
  | some bi =>
    by_cases h : bi ≥ buf.length
    · simp [readU64, readSeq, h, List.drop_eq_nil_of_le h, uvarint, uvarintLoop]
    · simp [readU64, readSeq, h]

/-- The block loop of DecodeStreamState, from read position `bi` to the end of the buffer. Each
block takes a byte at least, so the bytes bound the rounds. -/
def decodeBlocks (buf : List UInt8) : Nat → Nat → List DeleteBlock →
    Except StreamStateError (List DeleteBlock)
  | 0, _, acc => .ok acc
  | fuel + 1, bi, acc =>
    match buf[bi]? with
    | none => .ok acc
    | some b =>
      if b = seqSetMagic then
        match SequenceSet.Decode (buf.drop bi) with
        | .ok (dmap, n) => decodeBlocks buf fuel (bi + n) (acc ++ [.seqSet dmap])
        | .error _ => .error .ErrCorruptStreamState
      else if b = runLengthMagic then
        let (first, p) := readU64 buf (some (bi + 1))
        let (num, p) := readU64 buf p
        match p with
        | none => .error .ErrCorruptStreamState
        | some bi => decodeBlocks buf fuel bi (acc ++ [.range first num])
      else .error .ErrCorruptStreamState

def DecodeStreamState (buf : List UInt8) : Except StreamStateError StreamReplicatedState :=
  if buf.length < hdrLen ∨ buf[0]? ≠ some streamStateMagic ∨ buf[1]? ≠ some streamStateVersion then
    .error .ErrBadStreamStateEncoding
  else
    let (msgs, bi) := readU64 buf (some hdrLen)
    let (bytes, bi) := readU64 buf bi
    let (firstSeq, bi) := readU64 buf bi
    let (lastSeq, bi) := readU64 buf bi
    let (failed, bi) := readU64 buf bi
    match bi with
    | none => .error .ErrCorruptStreamState
    | some _ =>
      let (numDeleted, bi) := readU64 buf bi
      if numDeleted > 0 then
        match bi with
        | some bi => (decodeBlocks buf buf.length bi []).map
            fun d => ⟨msgs, bytes, firstSeq, lastSeq, failed, d⟩
        -- a failed read gives 0, so a positive count was read
        | none => .ok ⟨msgs, bytes, firstSeq, lastSeq, failed, []⟩
      else .ok ⟨msgs, bytes, firstSeq, lastSeq, failed, []⟩

/-! ## Reading back what EncodedStreamState wrote -/

section Reads

variable {buf rest : List UInt8} {bi : Nat}

theorem readU64_of_drop {x : UInt64} (h : buf.drop bi = putUvarint x ++ rest) :
    readU64 buf (some bi) = (x, some (bi + (putUvarint x).length)) := by
  rw [readU64_eq_readSeq, readSeq_of_drop h]

theorem decodeBlocks_seqSet_end {enc : List UInt8} {ss : SequenceSet} (fuel : Nat)
    (acc : List DeleteBlock) (h : buf.drop bi = enc) (hm : enc.head? = some seqSetMagic)
    (hd : SequenceSet.Decode enc = .ok (ss, enc.length)) :
    decodeBlocks buf (fuel + 2) bi acc = .ok (acc ++ [.seqSet ss]) := by
  have hb : buf[bi]? = some seqSetMagic := by
    rw [← hm, ← h, List.head?_drop]
  have hlen : buf.length = bi + enc.length := by
    have hpos : 0 < enc.length := List.length_pos_of_ne_nil (by rintro rfl; simp at hm)
    rw [← h, List.length_drop] at hpos ⊢
    omega
  have hend : buf[bi + enc.length]? = none := by
    rw [List.getElem?_eq_none_iff, hlen]
  rw [decodeBlocks, hb]
  simp only [↓reduceIte, h, hd]
  rw [decodeBlocks, hend]

end Reads

namespace MemStore

theorem DecodeStreamState_encodedCounts (ms : MemStore) (failed : UInt64) (rest : List UInt8) :
    DecodeStreamState (ms.encodedCounts failed ++ rest) =
      if ms.numDeleted > 0 then
        (decodeBlocks (ms.encodedCounts failed ++ rest) (ms.encodedCounts failed ++ rest).length
          (ms.encodedCounts failed).length []).map
          fun d => ⟨ms.state.Msgs, ms.state.Bytes, ms.state.FirstSeq, ms.state.LastSeq, failed, d⟩
      else .ok ⟨ms.state.Msgs, ms.state.Bytes, ms.state.FirstSeq, ms.state.LastSeq, failed, []⟩ := by
  set buf := ms.encodedCounts failed ++ rest with hbuf
  -- the reads in the order the encoder wrote
  have h0 : buf.drop hdrLen = putUvarint ms.state.Msgs ++ (putUvarint ms.state.Bytes ++
      (putUvarint ms.state.FirstSeq ++ (putUvarint ms.state.LastSeq ++ (putUvarint failed ++
        (putUvarint ms.numDeleted ++ rest))))) := by
    simp only [hbuf, encodedCounts, List.append_assoc]
    rfl
  have h1 := drop_add_of_drop_eq h0
  have h2 := drop_add_of_drop_eq h1
  have h3 := drop_add_of_drop_eq h2
  have h4 := drop_add_of_drop_eq h3
  have h5 := drop_add_of_drop_eq h4
  have hend : hdrLen + (putUvarint ms.state.Msgs).length + (putUvarint ms.state.Bytes).length +
      (putUvarint ms.state.FirstSeq).length + (putUvarint ms.state.LastSeq).length +
      (putUvarint failed).length + (putUvarint ms.numDeleted).length =
      (ms.encodedCounts failed).length := by
    simp only [encodedCounts, List.length_append]
    rfl
  have hhdr : ¬ (buf.length < hdrLen ∨ buf[0]? ≠ some streamStateMagic ∨
      buf[1]? ≠ some streamStateVersion) := by
    simp [hbuf, encodedCounts, hdrLen, streamStateMagic, streamStateVersion]
  rw [DecodeStreamState, if_neg hhdr]
  simp only [readU64_of_drop h0, readU64_of_drop h1, readU64_of_drop h2, readU64_of_drop h3,
    readU64_of_drop h4, readU64_of_drop h5, hend]

theorem EncodedStreamState_eq_ok (ms : MemStore) (failed : UInt64)
    (hn : ms.dmap.root.size = ms.dmap.nodes) :
    ∃ enc, ms.dmap.Encode = .ok enc ∧ enc.head? = some Avl.magic ∧
      enc.length = ms.dmap.EncodeLen ∧
      ms.EncodedStreamState failed = .ok (ms.encodedCounts failed ++
        if ms.numDeleted > 0 then enc else []) := by
  obtain ⟨enc, henc, hm, hlen⟩ := ms.dmap.Encode_ok_length hn
  refine ⟨enc, henc, hm, hlen, ?_⟩
  by_cases hd : ms.numDeleted > 0
  · simp [EncodedStreamState, hd, henc, Except.map]
  · simp [EncodedStreamState, hd]

theorem DecodeStreamState_EncodedStreamState (ms : MemStore) (failed : UInt64)
    (hs : BTree.Searchable baseLt ms.dmap.root) (hn : ms.dmap.root.size = ms.dmap.nodes)
    (h32 : ms.dmap.nodes < 2 ^ 32) :
    ∃ b, ms.EncodedStreamState failed = .ok b ∧ DecodeStreamState b = .ok
      ⟨ms.state.Msgs, ms.state.Bytes, ms.state.FirstSeq, ms.state.LastSeq, failed,
        if ms.numDeleted > 0 then
          [.seqSet ⟨ms.dmap.root.map truncH, ms.dmap.size % 2 ^ 32, ms.dmap.nodes⟩]
        else []⟩ := by
  obtain ⟨enc, henc, hm, hlen, hb⟩ := ms.EncodedStreamState_eq_ok failed hn
  refine ⟨_, hb, ?_⟩
  by_cases hd : ms.numDeleted > 0
  · have hdec := SequenceSet.Decode_Encode ms.dmap hs hn h32
    rw [henc, ← hlen] at hdec
    -- the delete map is the last block, and it ends the buffer
    obtain ⟨k, hk⟩ : ∃ k, (ms.encodedCounts failed ++ enc).length = k + 2 :=
      ⟨_, (Nat.sub_add_cancel (by simp [encodedCounts])).symm⟩
    rw [if_pos hd, DecodeStreamState_encodedCounts, if_pos hd, hk,
      decodeBlocks_seqSet_end k [] List.drop_left hm hdec]
    simp [hd, Except.map]
  · simpa [hd] using DecodeStreamState_encodedCounts ms failed []

/-- A store truncated to `0` has sequence `0` for its first and last, and no message there; the
snapshot of it counts the one deleted message, but the delete map it writes is empty. -/
theorem EncodedStreamState_reset (ms : MemStore) (failed : UInt64) :
    (ms.Truncate 0).msgs.find 0 = none ∧
      ∃ b d, (ms.Truncate 0).EncodedStreamState failed = .ok b ∧ DecodeStreamState b = .ok d ∧
        d.FirstSeq = 0 ∧ d.LastSeq = 0 ∧ d.Failed = failed ∧
        ∀ blk ∈ d.Deleted, blk.has 0 = false := by
  have hr : ms.Truncate 0 = ms.reset := by simp [Truncate]
  have hs : BTree.Searchable baseLt ms.reset.dmap.root := List.Pairwise.nil
  obtain ⟨b, hb, hdec⟩ := DecodeStreamState_EncodedStreamState ms.reset failed hs rfl
    (show 0 < 2 ^ 32 by decide)
  rw [hr]
  refine ⟨rfl, b, _, hb, hdec, rfl, rfl, rfl, ?_⟩
  -- the reset store counts sequence 0 as deleted, and writes its empty delete map for it
  have hnd : ms.reset.numDeleted = 1 := by simp [numDeleted, reset]
  have hroot : ms.reset.dmap.root = .nil := rfl
  simp [hnd, hroot, DeleteBlock.has, SequenceSet.Exists, Avl.existsWalk]

end MemStore

end NatsServer.Store
