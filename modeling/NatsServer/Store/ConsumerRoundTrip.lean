import NatsServer.Store.Consumer

/-!
# Decoding what encodeConsumerState wrote

The decoder walks the buffer with its read position `bi`; each lemma below says what a read
returns when the bytes from `bi` on start with what the encoder wrote, and where the next read
starts (`drop_add_of_drop_eq`). The two loops are read entry by entry, and the main theorem
chains the reads over the whole encoding.
-/

namespace NatsServer.Store

open NatsServer.Lib NatsServer.Lib.Binary

section Reads

variable {buf rest : List UInt8} {bi : Nat}

theorem drop_add_of_drop_eq {pre : List UInt8} (h : buf.drop bi = pre ++ rest) :
    buf.drop (bi + pre.length) = rest := by
  rw [← List.drop_drop, h, List.drop_left]

theorem readSeq_of_drop {x : UInt64} (h : buf.drop bi = putUvarint x ++ rest) :
    readSeq buf (some bi) = (x, some (bi + (putUvarint x).length)) := by
  have hpos := length_putUvarint_pos x
  simp only [readSeq, h, uvarint_putUvarint]
  rw [if_neg (by omega), Int.toNat_natCast]

theorem readTimeStamp_of_drop {x : Int64} (h : buf.drop bi = putVarint x ++ rest) :
    readTimeStamp buf (some bi) = (x, some (bi + (putVarint x).length)) := by
  have hpos := length_putVarint_pos x
  simp only [readTimeStamp, h, varint_putVarint]
  rw [if_neg (by omega), Int.toNat_natCast]

end Reads

theorem pendingLoop_entries (buf rest : List UInt8) (mints : Int64) (af : SequencePair)
    (L : List (UInt64 × Pending)) (hL : ∀ e ∈ L, e.1 ≠ 0) (bi : Nat)
    (m : Assoc.Map UInt64 Pending)
    (h : buf.drop bi = L.flatMap (pendingEntry mints af.Stream af.Consumer) ++ rest) :
    pendingLoop buf 2 af mints L.length (some bi) m =
      .ok (some (bi + (L.flatMap (pendingEntry mints af.Stream af.Consumer)).length),
        L.foldl (fun m e => m.set e.1 ⟨e.2.Sequence, e.2.Timestamp / second * second⟩) m) := by
  induction L generalizing bi m with
  | nil => simp [pendingLoop]
  | cons e L ih =>
    obtain ⟨k, v⟩ := e
    have hk : k ≠ 0 := hL (k, v) List.mem_cons_self
    simp only [List.flatMap_cons, pendingEntry, List.append_assoc] at h
    have h1 := drop_add_of_drop_eq h
    have h2 := drop_add_of_drop_eq h1
    have h3 := drop_add_of_drop_eq h2
    have hts : (mints - (mints - v.Timestamp / second)) * second = v.Timestamp / second * second := by
      grind
    rw [List.length_cons, pendingLoop]
    simp only [readSeq_of_drop h, readSeq_of_drop h1, readTimeStamp_of_drop h2, if_true,
      UInt64.sub_add_cancel, reduceCtorEq, if_false, hk, hts]
    rw [ih (fun e he => hL e (List.mem_cons_of_mem _ he)) _ _ h3]
    simp only [List.flatMap_cons, pendingEntry, List.length_append, List.foldl_cons]
    congr 3
    omega

theorem redeliveredLoop_entries (buf rest : List UInt8) (asflr : UInt64)
    (L : List (UInt64 × UInt64)) (hL : ∀ e ∈ L, e.1 ≠ asflr ∧ e.2 > 0) (bi : Nat)
    (m : Assoc.Map UInt64 UInt64)
    (h : buf.drop bi = L.flatMap (redeliveredEntry asflr) ++ rest) :
    redeliveredLoop buf asflr L.length (some bi) m =
      (some (bi + (L.flatMap (redeliveredEntry asflr)).length),
        L.foldl (fun m e => m.set e.1 e.2) m) := by
  induction L generalizing bi m with
  | nil => simp [redeliveredLoop]
  | cons e L ih =>
    obtain ⟨k, n⟩ := e
    obtain ⟨hk, hn⟩ := hL (k, n) List.mem_cons_self
    -- the entry is kept: its key is off the floor and its count positive
    have hseq : k - asflr > 0 := by grind
    simp only [List.flatMap_cons, redeliveredEntry, List.append_assoc] at h
    have h1 := drop_add_of_drop_eq h
    have h2 := drop_add_of_drop_eq h1
    rw [List.length_cons, redeliveredLoop]
    simp only [readSeq_of_drop h, readSeq_of_drop h1, UInt64.sub_add_cancel, hseq, hn, and_self,
      if_true]
    rw [ih (fun e he => hL e (List.mem_cons_of_mem _ he)) _ _ h2]
    simp only [List.flatMap_cons, redeliveredEntry, List.length_append, List.foldl_cons]
    congr 2
    omega

theorem loopCount_ofNat {n : Nat} (h : n < 2 ^ 63) : loopCount (UInt64.ofNat n) = n := by
  rw [loopCount, ← Int64.toInt_toBitVec, UInt64.toBitVec_toInt64, BitVec.toInt_eq_toNat_of_lt] <;>
    simp <;> omega

theorem ofNat_pos_iff {n : Nat} (h : n < 2 ^ 63) : UInt64.ofNat n > 0 ↔ n > 0 := by
  rw [gt_iff_lt, UInt64.lt_iff_toNat_lt, UInt64.toNat_ofNat', Nat.mod_eq_of_lt (by omega)]
  rfl

section Blocks

variable (mints : Int64) (s : ConsumerState)

theorem readPending_pendingBytes (buf rest : List UInt8) (bi : Nat)
    (hpend : ∀ k p, (k, p) ∈ s.Pending.entries → k ≠ 0) (hlp : s.Pending.len < 2 ^ 63)
    (h : buf.drop bi = pendingBytes mints s ++ rest) :
    ∃ p, readPending buf 2 s.AckFloor (some bi) = .ok (some (bi + (pendingBytes mints s).length), p) ∧
      ∀ k, p.find k =
        (s.Pending.find k).map fun v => ⟨v.Sequence, v.Timestamp / second * second⟩ := by
  unfold Assoc.Map.len at hlp
  simp only [pendingBytes, Assoc.Map.len, List.append_assoc] at h ⊢
  have h1 := drop_add_of_drop_eq h
  by_cases hp : s.Pending.entries.length > 0
  · -- the base timestamp, then the entries
    simp only [hp, ↓reduceIte, List.append_assoc] at h1
    have h2 := drop_add_of_drop_eq h1
    refine ⟨s.Pending.entries.foldl
      (fun m e => m.set e.1 ⟨e.2.Sequence, e.2.Timestamp / second * second⟩) .empty, ?_,
      fun k => ?_⟩
    swap
    · rw [Assoc.Map.find_foldl_set (fun v : Pending => (⟨v.Sequence, v.Timestamp / second * second⟩ : Pending))
        _ _ s.Pending.nodup k, Assoc.Map.find_empty, Option.or_none]
      rfl
    rw [readPending]
    simp only [readSeq_of_drop h, (ofNat_pos_iff hlp).mpr hp, if_true, readTimeStamp_of_drop h1]
    rw [loopCount_ofNat hlp,
      pendingLoop_entries buf rest mints s.AckFloor _ (fun e he => hpend e.1 e.2 he) _ _ h2]
    simp only [hp, ↓reduceIte, List.length_append]
    congr 3
    omega
  · -- no entries: the len 0 alone
    have hnil : s.Pending.entries = [] := List.eq_nil_of_length_eq_zero (by omega)
    refine ⟨.empty, ?_, fun k => ?_⟩
    · rw [readPending]
      simp only [readSeq_of_drop h, (ofNat_pos_iff hlp).not.mpr hp, if_false]
      simp [hp]
    · rw [Assoc.Map.find_empty, Assoc.Map.find, hnil]
      rfl

theorem readRedelivered_redeliveredBytes (buf rest : List UInt8) (bi : Nat)
    (hred : ∀ k n, (k, n) ∈ s.Redelivered.entries → k ≠ s.AckFloor.Stream ∧ n > 0)
    (hlr : s.Redelivered.len < 2 ^ 63) (h : buf.drop bi = redeliveredBytes s ++ rest) :
    ∀ k, (readRedelivered buf s.AckFloor.Stream (some bi)).2.find k = s.Redelivered.find k := by
  unfold Assoc.Map.len at hlr
  simp only [redeliveredBytes, Assoc.Map.len, List.append_assoc] at h
  have h1 := drop_add_of_drop_eq h
  intro k
  rw [readRedelivered]
  by_cases hr : s.Redelivered.entries.length > 0
  · simp only [readSeq_of_drop h, (ofNat_pos_iff hlr).mpr hr, if_true]
    rw [loopCount_ofNat hlr,
      redeliveredLoop_entries buf rest _ _ (fun e he => hred e.1 e.2 he) _ _ h1]
    exact (Assoc.Map.find_foldl_set id _ _ s.Redelivered.nodup k).trans
      (by simp [Assoc.Map.find, Assoc.Map.empty])
  · have hnil : s.Redelivered.entries = [] := List.eq_nil_of_length_eq_zero (by omega)
    simp only [readSeq_of_drop h, (ofNat_pos_iff hlr).not.mpr hr, if_false]
    rw [Assoc.Map.find_empty, Assoc.Map.find, hnil]
    rfl

end Blocks

theorem and_hbit_of_lt {x : UInt64} (hx : x.toNat < 2 ^ 63) : x &&& hbit = 0 := by
  apply UInt64.toNat_inj.mp
  rw [UInt64.toNat_and, show hbit.toNat = 2 ^ 63 by decide +kernel, UInt64.toNat_zero]
  apply Nat.eq_of_testBit_eq
  intro i
  rw [Nat.testBit_and, Nat.testBit_two_pow, Nat.zero_testBit]
  by_cases hi : 63 = i
  · subst hi
    simp [Nat.testBit_eq_false_of_lt hx]
  · simp [hi]

theorem checkConsumerHeader_encodeConsumerState (mints : Int64) (s : ConsumerState) :
    checkConsumerHeader (encodeConsumerState mints s) = .ok 2 := rfl

theorem decodeConsumerState_encodeConsumerState (mints : Int64) (s : ConsumerState)
    (hds : s.Delivered.Stream.toNat < 2 ^ 63) (hafs : s.AckFloor.Stream.toNat < 2 ^ 63)
    (hred : ∀ k n, (k, n) ∈ s.Redelivered.entries → k ≠ s.AckFloor.Stream ∧ n > 0)
    (hpend : ∀ k p, (k, p) ∈ s.Pending.entries → k ≠ 0)
    (hlp : s.Pending.len < 2 ^ 63) (hlr : s.Redelivered.len < 2 ^ 63) :
    ∃ d, decodeConsumerState (encodeConsumerState mints s) = .ok d ∧
      d.Delivered = s.Delivered ∧ d.AckFloor = s.AckFloor ∧
      (∀ k, d.Pending.find k =
        (s.Pending.find k).map fun p => ⟨p.Sequence, p.Timestamp / second * second⟩) ∧
      ∀ k, d.Redelivered.find k = s.Redelivered.find k := by
  -- the reads in the order the encoder wrote: four sequences, then the two blocks
  have h0 : (encodeConsumerState mints s).drop hdrLen =
      putUvarint s.AckFloor.Consumer ++ (putUvarint s.AckFloor.Stream ++
        (putUvarint s.Delivered.Consumer ++ (putUvarint s.Delivered.Stream ++
          (pendingBytes mints s ++ redeliveredBytes s)))) := by
    simp only [encodeConsumerState, List.append_assoc]
    rfl
  have h1 := drop_add_of_drop_eq h0
  have h2 := drop_add_of_drop_eq h1
  have h3 := drop_add_of_drop_eq h2
  have h4 := drop_add_of_drop_eq h3
  have h5 := drop_add_of_drop_eq h4
  obtain ⟨p, hpd, hp⟩ := readPending_pendingBytes mints s _ _ _ hpend hlp h4
  have hr := readRedelivered_redeliveredBytes s _ [] _ hred hlr (by rw [h5, List.append_nil])
  refine ⟨⟨s.Delivered, s.AckFloor, p, _⟩, ?_, rfl, rfl, hp, hr⟩
  simp [decodeConsumerState, checkConsumerHeader_encodeConsumerState, readSeq_of_drop h0,
    readSeq_of_drop h1, readSeq_of_drop h2, readSeq_of_drop h3, hpd, and_hbit_of_lt hafs,
    and_hbit_of_lt hds, bind, Except.bind, pure, Except.pure]

theorem length_flatMap_le {γ : Type} (f : γ → List UInt8) {c : Nat}
    (hf : ∀ x, (f x).length ≤ c) (L : List γ) : (L.flatMap f).length ≤ c * L.length := by
  induction L with
  | nil => simp
  | cons x L ih =>
    rw [List.flatMap_cons, List.length_append, List.length_cons, Nat.mul_succ]
    have := hf x
    omega

/-- Every write of encodeConsumerState falls inside the buffer it makes: each varint takes at
most MaxVarintLen64 bytes. -/
theorem length_encodeConsumerState_le (mints : Int64) (s : ConsumerState) :
    (encodeConsumerState mints s).length ≤ encodeMaxSize s := by
  have hp := length_flatMap_le (pendingEntry mints s.AckFloor.Stream s.AckFloor.Consumer)
    (c := 3 * MaxVarintLen64) (fun ⟨k, v⟩ => by
      simp only [pendingEntry, List.length_append]
      have := length_putUvarint_le (k - s.AckFloor.Stream)
      have := length_putUvarint_le (v.Sequence - s.AckFloor.Consumer)
      have := length_putVarint_le (mints - v.Timestamp / second)
      omega) s.Pending.entries
  have hr := length_flatMap_le (redeliveredEntry s.AckFloor.Stream) (c := 2 * MaxVarintLen64)
    (fun ⟨k, v⟩ => by
      simp only [redeliveredEntry, List.length_append]
      have := length_putUvarint_le (k - s.AckFloor.Stream)
      have := length_putUvarint_le v
      omega) s.Redelivered.entries
  have h1 := length_putUvarint_le s.AckFloor.Consumer
  have h2 := length_putUvarint_le s.AckFloor.Stream
  have h3 := length_putUvarint_le s.Delivered.Consumer
  have h4 := length_putUvarint_le s.Delivered.Stream
  have h5 := length_putUvarint_le (UInt64.ofNat s.Pending.len)
  have h6 := length_putUvarint_le (UInt64.ofNat s.Redelivered.len)
  have h7 := length_putVarint_le mints
  simp only [encodeConsumerState, pendingBytes, redeliveredBytes, encodeMaxSize, seqsHdrSize,
    hdrLen, MaxVarintLen64, List.length_append, List.length_cons, List.length_nil,
    Assoc.Map.len] at *
  -- an empty map adds nothing to either side
  by_cases hlp : s.Pending.entries.length > 0 <;>
    by_cases hlr : s.Redelivered.entries.length > 0 <;>
    simp only [hlp, hlr, ↓reduceIte, List.length_append, List.length_nil] <;> omega

/-- Keys on both sides of the ack floor, and a negative timestamp cut toward zero. -/
theorem decodeConsumerState_encodeConsumerState_wrap :
    let s : ConsumerState := ⟨⟨10, 20⟩, ⟨4, 8⟩,
      ⟨[(9, ⟨6, 7500000000⟩), (3, ⟨2, -1500000000⟩)], by decide⟩, ⟨[(12, 2), (5, 1)], by decide⟩⟩
    (∀ k n, (k, n) ∈ s.Redelivered.entries → k ≠ s.AckFloor.Stream ∧ n > 0) ∧
      (∀ k p, (k, p) ∈ s.Pending.entries → k ≠ 0) ∧
      ∃ d, decodeConsumerState (encodeConsumerState 100 s) = .ok d ∧
        d.Delivered = s.Delivered ∧ d.AckFloor = s.AckFloor ∧
        (∀ k, d.Pending.find k =
          (s.Pending.find k).map fun p => ⟨p.Sequence, p.Timestamp / second * second⟩) ∧
        ∀ k, d.Redelivered.find k = s.Redelivered.find k := by
  intro s
  have hred : ∀ k n, (k, n) ∈ s.Redelivered.entries → k ≠ s.AckFloor.Stream ∧ n > 0 := by
    intro k n h
    simp only [s, List.mem_cons, Prod.mk.injEq, List.not_mem_nil, or_false] at h
    rcases h with ⟨rfl, rfl⟩ | ⟨rfl, rfl⟩ <;> decide
  have hpend : ∀ k p, (k, p) ∈ s.Pending.entries → k ≠ 0 := by
    intro k p h
    simp only [s, List.mem_cons, Prod.mk.injEq, List.not_mem_nil, or_false] at h
    rcases h with ⟨rfl, -⟩ | ⟨rfl, -⟩ <;> decide
  exact ⟨hred, hpend, decodeConsumerState_encodeConsumerState 100 s (by decide) (by decide) hred
    hpend (by decide) (by decide)⟩

/-! ## A buffer that ends inside the redelivered block

The redelivered loop reads its pairs without looking at the read position: a read past the end
sets it to `none`, every later read returns `0`, and a pair with a zero in it is skipped. -/

theorem redeliveredLoop_none (buf : List UInt8) (asflr : UInt64) (k : Nat)
    (m : Assoc.Map UInt64 UInt64) : redeliveredLoop buf asflr k none m = (none, m) := by
  induction k with
  | zero => rfl
  | succ k ih =>
    rw [redeliveredLoop]
    simpa [readSeq] using ih

theorem readSeq_end (buf : List UInt8) : readSeq buf (some buf.length) = (0, none) := by
  simp [readSeq, uvarint, uvarintLoop]

theorem redeliveredLoop_end (buf : List UInt8) (asflr : UInt64) (k : Nat)
    (m : Assoc.Map UInt64 UInt64) : (redeliveredLoop buf asflr k (some buf.length) m).2 = m := by
  cases k with
  | zero => rfl
  | succ k =>
    rw [redeliveredLoop, readSeq_end]
    simp [readSeq, redeliveredLoop_none]

/-- A buffer that announces `n` redelivered entries and ends there decodes without an error,
with no redelivered entry. -/
theorem decodeConsumerState_truncated_redelivered (n : UInt64) (hn : 0 < n) :
    (decodeConsumerState ([magic, 2, 0, 0, 0, 0, 0] ++ putUvarint n)).map
      (fun s => s.Redelivered.len) = .ok 0 := by
  set buf := [magic, 2, 0, 0, 0, 0, 0] ++ putUvarint n
  -- the header, the four sequences and an empty pending block read as zeros
  have hhdr : checkConsumerHeader buf = pure 2 := rfl
  have h2 : readSeq buf (some 2) = (0, some 3) := rfl
  have h3 : readSeq buf (some 3) = (0, some 4) := rfl
  have h4 : readSeq buf (some 4) = (0, some 5) := rfl
  have h5 : readSeq buf (some 5) = (0, some 6) := rfl
  have hpend : readPending buf 2 ⟨0, 0⟩ (some 6) = pure (some 7, .empty) := rfl
  have hred : (readRedelivered buf 0 (some 7)).2 = .empty := by
    have h7 : buf.drop 7 = putUvarint n ++ [] := by simp [buf]
    have hlen : 7 + (putUvarint n).length = buf.length := by simp [buf]; omega
    rw [readRedelivered, readSeq_of_drop h7, hlen]
    simp only [gt_iff_lt, hn, if_true]
    exact redeliveredLoop_end buf 0 _ _
  simp only [decodeConsumerState, hhdr, hdrLen, h2, h3, h4, h5, hpend, hred, pure_bind]
  rfl

theorem decodeConsumerState_truncated_redelivered_three :
    0 < (3 : UInt64) ∧
      (decodeConsumerState ([magic, 2, 0, 0, 0, 0, 0] ++ putUvarint 3)).map
        (fun s => s.Redelivered.len) = .ok 0 :=
  ⟨by decide, decodeConsumerState_truncated_redelivered 3 (by decide)⟩

end NatsServer.Store
