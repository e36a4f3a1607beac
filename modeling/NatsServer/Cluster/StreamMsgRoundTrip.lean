import NatsServer.Cluster.StreamMsg

/-!
# Decoding what encodeStreamMsg wrote

`decodeStreamMsg_layout` reads a buffer laid out as the encoder lays out a message, whatever
follows it; the round trips of the plain and the batched message are that lemma at the
encoder's output. `decodeStreamMsg_sound` is the other direction for any buffer: each slice the
decoder takes is checked first, so it fails only with its own error, and what it returns lies
in the buffer.
-/

namespace NatsServer.Cluster

open NatsServer.Lib NatsServer.Lib.Bytes NatsServer.Lib.Binary

section Slices

variable (pre rest : List UInt8)

@[simp] theorem sliceFrom_append : sliceFrom (pre ++ rest) pre.length = .ok rest := by
  simp [sliceFrom]

@[simp] theorem sliceTo_append : sliceTo (pre ++ rest) pre.length = .ok pre := by
  simp [sliceTo]

@[simp] theorem sliceFrom_leBytes (w n : Nat) : sliceFrom (leBytes w n ++ rest) w = .ok rest := by
  simpa using sliceFrom_append (leBytes w n) rest

@[simp] theorem readLE_leBytes (w n : Nat) :
    readLE (leBytes w n ++ rest) w = .ok (n % 256 ^ w) := by
  simp [readLE, List.take_left', leValue_leBytes]

@[simp] theorem sliceFrom_cons_one (a : UInt8) : sliceFrom (a :: rest) 1 = .ok rest :=
  sliceFrom_append [a] rest

@[simp] theorem index_cons_zero (a : UInt8) : index (a :: rest) 0 = .ok a := rfl

end Slices

section Steps

variable {α β : Type}

@[simp] theorem ok_bind (a : α) (f : α → Except DecodeError β) : (Except.ok a >>= f) = f a := rfl

theorem failIf_bind_of_not {c : Prop} [Decidable c] (h : ¬c) (k : Unit → Except DecodeError β) :
    (failIf c >>= k) = k () := by
  rw [failIf, if_neg h]
  rfl

theorem failIf_bind {c : Prop} [Decidable c] (k : Unit → Except DecodeError β) :
    (failIf c >>= k) = if c then .error .errBadStreamMsg else k () := by
  unfold failIf
  split <;> rfl

end Steps

section Guarded

variable {buf : List UInt8} {n : Nat}

theorem readLE_of_le (h : n ≤ buf.length) : readLE buf n = .ok (leValue (buf.take n)) := if_pos h

theorem sliceFrom_of_le (h : n ≤ buf.length) : sliceFrom buf n = .ok (buf.drop n) := if_pos h

theorem sliceTo_of_le (h : n ≤ buf.length) : sliceTo buf n = .ok (buf.take n) := if_pos h

/-! The same reads at an offset `i`, with the bound stated on the whole buffer. -/

variable {i : Nat}

theorem readLE_drop_of_le (h : i + n ≤ buf.length) :
    readLE (buf.drop i) n = .ok (leValue ((buf.drop i).take n)) :=
  readLE_of_le (by rw [List.length_drop]; omega)

theorem sliceFrom_drop_of_le (h : i + n ≤ buf.length) :
    sliceFrom (buf.drop i) n = .ok (buf.drop (i + n)) := by
  rw [sliceFrom_of_le (by rw [List.length_drop]; omega), List.drop_drop]

theorem sliceTo_drop_of_le (h : i + n ≤ buf.length) :
    sliceTo (buf.drop i) n = .ok ((buf.drop i).take n) :=
  sliceTo_of_le (by rw [List.length_drop]; omega)

end Guarded

theorem infix_take_drop (l : List UInt8) (i n : Nat) : (l.drop i).take n <:+: l :=
  (List.take_prefix n _).isInfix.trans (List.drop_suffix i l).isInfix

theorem eq_of_nilIfEmpty_eq_some {b b' : List UInt8} (h : nilIfEmpty b = some b') : b' = b := by
  unfold nilIfEmpty at h
  split at h
  · cases h
  · exact (Option.some.inj h).symm

theorem ofNat_toNat_mod (x : UInt64) : UInt64.ofNat (x.toNat % 256 ^ 8) = x := by
  rw [Nat.mod_eq_of_lt (by simpa using x.toNat_lt), UInt64.ofNat_toNat]

theorem decodeStreamMsg_layout (lseq : UInt64) (ts : Int64) (S R H M tail : List UInt8)
    (hS : S.length ≤ MaxUint16) (hR : R.length ≤ MaxUint16) (hH : H.length ≤ MaxUint16)
    (hM : M.length ≤ MaxUint32) :
    decodeStreamMsg (leBytes 8 lseq.toNat ++ leBytes 8 ts.toUInt64.toNat ++ leBytes 2 S.length ++
        S ++ leBytes 2 R.length ++ R ++ leBytes 2 H.length ++ H ++ leBytes 4 M.length ++ M ++
        tail) =
      .ok ⟨S, R, nilIfEmpty H, nilIfEmpty M, lseq, ts,
        if tail.length > 0 then (uvarint tail).1 &&& msgFlagFromSourceOrMirror != 0 else false⟩ := by
  unfold MaxUint16 at hS hR hH
  unfold MaxUint32 at hM
  have hS' : S.length % 256 ^ 2 = S.length := Nat.mod_eq_of_lt (by omega)
  have hR' : R.length % 256 ^ 2 = R.length := Nat.mod_eq_of_lt (by omega)
  have hH' : H.length % 256 ^ 2 = H.length := Nat.mod_eq_of_lt (by omega)
  have hM' : M.length % 256 ^ 4 = M.length := Nat.mod_eq_of_lt (by omega)
  -- each length guard passes, since the field it checks follows
  simp (disch := omega) only [decodeStreamMsg, List.append_assoc, readLE_leBytes,
    sliceFrom_leBytes, hS', hR', hH', hM', sliceTo_append, sliceFrom_append, ok_bind,
    ofNat_toNat_mod, Int64.toInt64_toUInt64, List.length_append, length_leBytes,
    failIf_bind_of_not, Int.toNat_natCast]
  rfl

theorem encodeStreamMsgAllowCompressAndBatch_eq (s2Encode : List UInt8 → List UInt8)
    (S R H M : List UInt8) (lseq : UInt64) (ts : Int64) (sourced : Bool) (B : List UInt8)
    (batchSeq : UInt64) (batchCommit : Bool) (hS : S.length ≤ MaxUint16)
    (hR : R.length ≤ MaxUint16) (hH : H.length ≤ MaxUint16) (hM : M.length ≤ MaxUint32)
    (hB : B.length ≤ MaxUint16)
    (hc : S.length + R.length + H.length + M.length ≤ compressThreshold) :
    encodeStreamMsgAllowCompressAndBatch s2Encode S R H M lseq ts sourced B batchSeq batchCommit =
      (if B ≠ [] then
        [if batchCommit then batchCommitMsgOp else batchMsgOp] ++ leBytes 2 B.length ++ B ++
          putUvarint batchSeq
      else []) ++ streamMsgOp ::
        (leBytes 8 lseq.toNat ++ leBytes 8 ts.toUInt64.toNat ++ leBytes 2 S.length ++ S ++
          leBytes 2 R.length ++ R ++ leBytes 2 H.length ++ H ++ leBytes 4 M.length ++ M ++
          putUvarint (if sourced then 1 else 0)) := by
  have hflags : (if sourced then 0 ||| msgFlagFromSourceOrMirror else 0) =
      if sourced then (1 : UInt64) else 0 := by
    cases sourced <;> rfl
  simp only [encodeStreamMsgAllowCompressAndBatch, Nat.min_eq_left hS, Nat.min_eq_left hR,
    Nat.min_eq_left hH, Nat.min_eq_left hM, Nat.min_eq_left hB, List.take_length, hflags,
    gt_iff_lt, Nat.not_lt.mpr hc, if_false]
  simp only [List.append_assoc, List.cons_append, List.nil_append]

theorem sourced_putUvarint (sourced : Bool) :
    (if (putUvarint (if sourced then 1 else 0)).length > 0 then
        (uvarint (putUvarint (if sourced then 1 else 0))).1 &&& msgFlagFromSourceOrMirror != 0
      else false) = sourced := by
  cases sourced <;> decide +kernel

theorem decodeStreamMsg_encodeStreamMsg (s2Encode : List UInt8 → List UInt8)
    (S R H M : List UInt8) (lseq : UInt64) (ts : Int64) (sourced : Bool)
    (hS : S.length ≤ MaxUint16) (hR : R.length ≤ MaxUint16) (hH : H.length ≤ MaxUint16)
    (hM : M.length ≤ MaxUint32)
    (hc : S.length + R.length + H.length + M.length ≤ compressThreshold) :
    let b := encodeStreamMsgAllowCompressAndBatch s2Encode S R H M lseq ts sourced [] 0 false
    b.head? = some streamMsgOp ∧
      decodeStreamMsg b.tail = .ok ⟨S, R, nilIfEmpty H, nilIfEmpty M, lseq, ts, sourced⟩ := by
  intro b
  have hb : b = streamMsgOp :: _ := encodeStreamMsgAllowCompressAndBatch_eq s2Encode S R H M lseq
    ts sourced [] 0 false hS hR hH hM (by decide) hc
  rw [hb]
  refine ⟨rfl, ?_⟩
  rw [List.tail_cons, decodeStreamMsg_layout lseq ts S R H M _ hS hR hH hM, sourced_putUvarint]

theorem decodeBatchMsg_encodeStreamMsg (s2Encode : List UInt8 → List UInt8)
    (S R H M : List UInt8) (lseq : UInt64) (ts : Int64) (sourced : Bool) (B : List UInt8)
    (batchSeq : UInt64) (batchCommit : Bool) (hne : B ≠ []) (hS : S.length ≤ MaxUint16)
    (hR : R.length ≤ MaxUint16) (hH : H.length ≤ MaxUint16) (hM : M.length ≤ MaxUint32)
    (hB : B.length ≤ MaxUint16)
    (hc : S.length + R.length + H.length + M.length ≤ compressThreshold) :
    let b := encodeStreamMsgAllowCompressAndBatch s2Encode S R H M lseq ts sourced B batchSeq
      batchCommit
    b.head? = some (if batchCommit then batchCommitMsgOp else batchMsgOp) ∧
      ∃ mbuf, decodeBatchMsg b.tail = .ok ⟨B, batchSeq, streamMsgOp, mbuf⟩ ∧
        decodeStreamMsg mbuf = .ok ⟨S, R, nilIfEmpty H, nilIfEmpty M, lseq, ts, sourced⟩ := by
  intro b
  have hb := encodeStreamMsgAllowCompressAndBatch_eq s2Encode S R H M lseq ts sourced B batchSeq
    batchCommit hS hR hH hM hB hc
  rw [if_pos hne] at hb
  simp only [b, hb, List.append_assoc, List.cons_append, List.nil_append, List.head?_cons,
    List.tail_cons, true_and]
  refine ⟨_, ?_, (decodeStreamMsg_layout lseq ts S R H M _ hS hR hH hM).trans
    (by rw [sourced_putUvarint])⟩
  unfold MaxUint16 at hB
  have hB' : B.length % 256 ^ 2 = B.length := Nat.mod_eq_of_lt (by omega)
  have hn := length_putUvarint_pos batchSeq
  simp (disch := omega) only [decodeBatchMsg, readLE_leBytes, sliceFrom_leBytes, hB',
    sliceTo_append, sliceFrom_append, ok_bind, failIf_bind_of_not, List.length_append,
    length_leBytes, List.length_cons, uvarint_putUvarint, Int.toNat_natCast,
    index_cons_zero, sliceFrom_cons_one]
  simp only [List.append_assoc]
  rfl

theorem decodeStreamMsg_sound (buf : List UInt8) :
    decodeStreamMsg buf = .error .errBadStreamMsg ∨
      ∃ m, decodeStreamMsg buf = .ok m ∧ m.subject <:+: buf ∧ m.reply <:+: buf ∧
        (∀ h, m.hdr = some h → h <:+: buf) ∧ ∀ b, m.msg = some b → b <:+: buf := by
  obtain ⟨r, hr⟩ : ∃ r, decodeStreamMsg buf = r := ⟨_, rfl⟩
  rw [hr]
  unfold decodeStreamMsg at hr
  -- one check at a time: a check that fires is the error, the reads behind it are in range
  rw [failIf_bind] at hr
  split_ifs at hr with g0
  · exact .inl hr.symm
  rw [readLE_of_le (by omega), ok_bind, sliceFrom_of_le (by omega), ok_bind] at hr
  -- the subject
  simp (disch := omega) only [readLE_drop_of_le, sliceFrom_drop_of_le, ok_bind] at hr
  generalize leValue (List.take 2 (List.drop (8 + 8) buf)) = sl at hr
  rw [failIf_bind] at hr
  split_ifs at hr with g1
  · exact .inl hr.symm
  rw [List.length_drop] at g1
  simp (disch := omega) only [sliceTo_drop_of_le, sliceFrom_drop_of_le, ok_bind] at hr
  rw [failIf_bind] at hr
  split_ifs at hr with g2
  · exact .inl hr.symm
  rw [List.length_drop] at g2
  -- the reply
  simp (disch := omega) only [readLE_drop_of_le, sliceFrom_drop_of_le, ok_bind] at hr
  generalize leValue (List.take 2 (List.drop (8 + 8 + 2 + sl) buf)) = rl at hr
  rw [failIf_bind] at hr
  split_ifs at hr with g3
  · exact .inl hr.symm
  rw [List.length_drop] at g3
  simp (disch := omega) only [sliceTo_drop_of_le, sliceFrom_drop_of_le, ok_bind] at hr
  rw [failIf_bind] at hr
  split_ifs at hr with g4
  · exact .inl hr.symm
  rw [List.length_drop] at g4
  -- the header
  simp (disch := omega) only [readLE_drop_of_le, sliceFrom_drop_of_le, ok_bind] at hr
  generalize leValue (List.take 2 (List.drop (8 + 8 + 2 + sl + 2 + rl) buf)) = hl at hr
  rw [failIf_bind] at hr
  split_ifs at hr with g5
  · exact .inl hr.symm
  rw [List.length_drop] at g5
  simp (disch := omega) only [sliceTo_drop_of_le, sliceFrom_drop_of_le, ok_bind] at hr
  rw [failIf_bind] at hr
  split_ifs at hr with g6
  · exact .inl hr.symm
  rw [List.length_drop] at g6
  -- the payload
  simp (disch := omega) only [readLE_drop_of_le, sliceFrom_drop_of_le, ok_bind] at hr
  generalize leValue (List.take 4 (List.drop (8 + 8 + 2 + sl + 2 + rl + 2 + hl) buf)) = ml at hr
  rw [failIf_bind] at hr
  split_ifs at hr with g7
  · exact .inl hr.symm
  rw [List.length_drop] at g7
  simp (disch := omega) only [sliceTo_drop_of_le, sliceFrom_drop_of_le, ok_bind,
    Int.toNat_natCast] at hr
  -- every field is a slice taken at an offset
  subst hr
  refine .inr ⟨_, rfl, ?_, ?_, fun h hh => ?_, fun b hb => ?_⟩
  · exact infix_take_drop buf _ _
  · exact infix_take_drop buf _ _
  · rw [eq_of_nilIfEmpty_eq_some hh]
    exact infix_take_drop buf _ _
  · rw [eq_of_nilIfEmpty_eq_some hb]
    exact infix_take_drop buf _ _

/-- The codec of replicated stream messages: the plain and the batched encodings read back, and
the decoder is safe on any buffer. -/
theorem decodeStreamMsg_spec :
    (∀ (s2Encode : List UInt8 → List UInt8) (S R H M : List UInt8) (lseq : UInt64) (ts : Int64)
        (sourced : Bool), S.length ≤ MaxUint16 → R.length ≤ MaxUint16 → H.length ≤ MaxUint16 →
        M.length ≤ MaxUint32 → S.length + R.length + H.length + M.length ≤ compressThreshold →
        let b := encodeStreamMsgAllowCompressAndBatch s2Encode S R H M lseq ts sourced [] 0 false
        b.head? = some streamMsgOp ∧
          decodeStreamMsg b.tail = .ok ⟨S, R, nilIfEmpty H, nilIfEmpty M, lseq, ts, sourced⟩) ∧
    (∀ (s2Encode : List UInt8 → List UInt8) (S R H M : List UInt8) (lseq : UInt64) (ts : Int64)
        (sourced : Bool) (B : List UInt8) (batchSeq : UInt64) (batchCommit : Bool), B ≠ [] →
        B.length ≤ MaxUint16 → S.length ≤ MaxUint16 → R.length ≤ MaxUint16 →
        H.length ≤ MaxUint16 → M.length ≤ MaxUint32 →
        S.length + R.length + H.length + M.length ≤ compressThreshold →
        let b := encodeStreamMsgAllowCompressAndBatch s2Encode S R H M lseq ts sourced B batchSeq
          batchCommit
        ∃ mbuf, decodeBatchMsg b.tail = .ok ⟨B, batchSeq, streamMsgOp, mbuf⟩ ∧
          decodeStreamMsg mbuf = .ok ⟨S, R, nilIfEmpty H, nilIfEmpty M, lseq, ts, sourced⟩) ∧
    ∀ buf : List UInt8, decodeStreamMsg buf = .error .errBadStreamMsg ∨
      ∃ m, decodeStreamMsg buf = .ok m ∧ m.subject <:+: buf ∧ m.reply <:+: buf ∧
        (∀ h, m.hdr = some h → h <:+: buf) ∧ ∀ b, m.msg = some b → b <:+: buf :=
  ⟨fun s2Encode S R H M lseq ts sourced hS hR hH hM hc =>
      decodeStreamMsg_encodeStreamMsg s2Encode S R H M lseq ts sourced hS hR hH hM hc,
    fun s2Encode S R H M lseq ts sourced B batchSeq batchCommit hne hB hS hR hH hM hc =>
      (decodeBatchMsg_encodeStreamMsg s2Encode S R H M lseq ts sourced B batchSeq batchCommit hne
        hS hR hH hM hB hc).2,
    decodeStreamMsg_sound⟩

/-- The subject "foo" and payload "hi", plain and in batch "b". -/
theorem decodeStreamMsg_spec_foo :
    decodeStreamMsg (encodeStreamMsgAllowCompressAndBatch id [102, 111, 111] [] [] [104, 105] 7
        (-2) true [] 0 false).tail = .ok ⟨[102, 111, 111], [], none, some [104, 105], 7, -2, true⟩ ∧
      ∃ mbuf, decodeBatchMsg (encodeStreamMsgAllowCompressAndBatch id [102, 111, 111] [] []
          [104, 105] 7 (-2) true [98] 3 true).tail = .ok ⟨[98], 3, streamMsgOp, mbuf⟩ ∧
        decodeStreamMsg mbuf = .ok ⟨[102, 111, 111], [], none, some [104, 105], 7, -2, true⟩ :=
  ⟨(decodeStreamMsg_spec.1 id [102, 111, 111] [] [] [104, 105] 7 (-2) true (by decide) (by decide)
      (by decide) (by decide) (by decide)).2,
    decodeStreamMsg_spec.2.1 id [102, 111, 111] [] [] [104, 105] 7 (-2) true [98] 3 true
      (by decide) (by decide) (by decide) (by decide) (by decide) (by decide) (by decide)⟩

end NatsServer.Cluster
