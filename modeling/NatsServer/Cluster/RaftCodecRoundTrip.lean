import NatsServer.Cluster.RaftCodec

/-!
# Decoding what raft's encoders wrote

Each encoder has a layout lemma (`encode_eq`): with ids of idLen bytes, the copies into its
buffer fill it, so the message is its fields' bytes one after the other, whatever buffer the
caller passed. Each decoder reads such a layout back, and the round trips are the two together.
-/

namespace NatsServer.Cluster.Wire

open NatsServer.Lib.Bytes NatsServer.Lib.Binary NatsServer.Cluster

/-! ## Copies that fit -/

section Copy

variable {buf src : List UInt8} {i : Nat}

theorem copyAt_eq (h : i + src.length ≤ buf.length) :
    copyAt buf i src = buf.take i ++ src ++ buf.drop (i + src.length) := by
  have hs : src.take (buf.length - i) = src := List.take_of_length_le (by omega)
  rw [copyAt, hs]

theorem copyAt_zero_of_length_eq (h : src.length = buf.length) : copyAt buf 0 src = src := by
  rw [copyAt_eq (by omega), Nat.zero_add, h, List.drop_length, List.take_zero, List.nil_append,
    List.append_nil]

theorem copyAt_append_right {pre rest : List UInt8} (h : pre.length ≤ i) :
    copyAt (pre ++ rest) i src = pre ++ copyAt rest (i - pre.length) src := by
  have hlen : (pre ++ rest).length - i = rest.length - (i - pre.length) := by
    rw [List.length_append]
    omega
  rw [copyAt, copyAt, hlen, List.take_append, List.take_of_length_le h, List.drop_append,
    List.drop_eq_nil_of_le (by omega), List.nil_append,
    show i + src.length - pre.length = i - pre.length + src.length by omega]
  simp only [List.append_assoc]

theorem copyAt_append_left {mid post : List UInt8} (h : i + src.length ≤ mid.length) :
    copyAt (mid ++ post) i src = copyAt mid i src ++ post := by
  rw [copyAt_eq (by simp; omega), copyAt_eq h, List.take_append_of_le_length (by omega),
    List.drop_append_of_le_length (by omega)]
  simp only [List.append_assoc]

theorem modify_last (f : UInt8 → UInt8) (pre : List UInt8) (x : UInt8) :
    (pre ++ [x]).modify pre.length f = pre ++ [f x] := by
  induction pre with
  | nil => rfl
  | cons a pre ih => rw [List.cons_append, List.length_cons, List.modify_succ_cons, ih]; rfl

end Copy

section Words

@[simp] theorem getLE_leBytes_append (w n : Nat) (post : List UInt8) :
    getLE (leBytes w n ++ post) 0 w = n % 256 ^ w := by
  simpa using getLE_leBytes [] post w n

theorem getLE_append_of_le {pre post : List UInt8} {i w : Nat} (h : pre.length ≤ i) :
    getLE (pre ++ post) i w = getLE post (i - pre.length) w := by
  rw [getLE, getLE, List.drop_append, List.drop_eq_nil_of_le h, List.nil_append]

end Words

section Steps

variable {α β : Type}

@[simp] theorem ok_bind (a : α) (f : α → Except CodecError β) : (Except.ok a >>= f) = f a := rfl

@[simp] theorem error_bind (e : CodecError) (f : α → Except CodecError β) :
    (Except.error e >>= f) = .error e := rfl

theorem failWith_bind_of_not {c : Prop} [Decidable c] (e : CodecError) (h : ¬c)
    (k : Unit → Except CodecError β) : (failWith e c >>= k) = k () := by
  rw [failWith, if_neg h]
  rfl

theorem failWith_bind {c : Prop} [Decidable c] (e : CodecError) (k : Unit → Except CodecError β) :
    (failWith e c >>= k) = if c then .error e else k () := by
  unfold failWith
  split <;> rfl

end Steps

/-! ## Votes and responses -/

theorem VoteResponse.encode_eq (vr : VoteResponse) (h : vr.peer.length = idLen) :
    ∃ flags : UInt8, vr.encode = leBytes 8 vr.term.toNat ++ vr.peer ++ [flags] ∧
      (flags &&& 1 != 0) = vr.granted ∧ (flags &&& 2 != 0) = vr.empty := by
  obtain ⟨term, peer, granted, empty⟩ := vr
  have hbuf : copyAt (copyAt (List.replicate voteResponseLen 0) 0 (leBytes 8 term.toNat)) 8 peer =
      leBytes 8 term.toNat ++ peer ++ [0] := by
    simp only at h
    simp [copyAt_eq, h, idLen, voteResponseLen, List.drop_append, List.drop_eq_nil_of_le]
  have hlen : (leBytes 8 term.toNat ++ peer).length = 16 := by simp_all [idLen]
  simp only [VoteResponse.encode, hbuf, ← hlen]
  -- the flags are or-ed into the last byte
  cases granted <;> cases empty
  · exact ⟨0, by simp only [Bool.false_eq_true, ↓reduceIte], by decide, by decide⟩
  · exact ⟨2, by simp only [Bool.false_eq_true, ↓reduceIte, modify_last]; rfl, by decide, by decide⟩
  · exact ⟨1, by simp only [Bool.false_eq_true, ↓reduceIte, modify_last]; rfl, by decide, by decide⟩
  · exact ⟨3, by simp only [↓reduceIte, modify_last]; rfl, by decide, by decide⟩

example :
    decodeVoteResponse (VoteResponse.encode ⟨7, [1, 2, 3, 4, 5, 6, 7, 8], true, false⟩) =
      some ⟨7, [1, 2, 3, 4, 5, 6, 7, 8], true, false⟩ ∧
    decodeVoteResponse (VoteResponse.encode ⟨7, [1, 2, 3, 4, 5, 6, 7, 8, 3], false, false⟩) =
      some ⟨7, [1, 2, 3, 4, 5, 6, 7, 8], true, true⟩ := by
  decide +kernel

theorem VoteRequest.encode_eq (vr : VoteRequest) (h : vr.candidate.length = idLen) :
    vr.encode = leBytes 8 vr.term.toNat ++ leBytes 8 vr.lastTerm.toNat ++
      leBytes 8 vr.lastIndex.toNat ++ vr.candidate := by
  simp [VoteRequest.encode, copyAt_eq, h, idLen, voteRequestLen, List.take_append,
    List.drop_append, List.take_of_length_le, List.drop_eq_nil_of_le]

theorem AppendEntryResponse.encode_eq (ar : AppendEntryResponse) (b : List UInt8)
    (h : ar.peer.length = idLen) :
    ar.encode b = leBytes 8 ar.term.toNat ++ leBytes 8 ar.index.toNat ++ ar.peer ++
      [if ar.success then 1 else 0] := by
  have hfill : ∀ buf : List UInt8, buf.length = appendEntryResponseLen →
      ((copyAt (copyAt (copyAt buf 0 (leBytes 8 ar.term.toNat)) 8 (leBytes 8 ar.index.toNat)) 16
        (ar.peer.take idLen)).set 24 (if ar.success then 1 else 0)).take appendEntryResponseLen =
      leBytes 8 ar.term.toNat ++ leBytes 8 ar.index.toNat ++ ar.peer ++
        [if ar.success then 1 else 0] := by
    intro buf hbuf
    obtain ⟨pre, x, rfl⟩ : ∃ pre x, buf = pre ++ [x] :=
      ⟨buf.dropLast, buf.getLast (List.ne_nil_of_length_pos (by rw [hbuf]; decide)),
        (List.dropLast_append_getLast _).symm⟩
    have hpre : pre.length = 24 := by
      simp only [appendEntryResponseLen, List.length_append, List.length_singleton] at hbuf
      omega
    simp [copyAt_eq, h, idLen, hpre, appendEntryResponseLen, List.take_append, List.drop_append,
      List.take_of_length_le, List.drop_eq_nil_of_le]
  rw [AppendEntryResponse.encode]
  split
  · next hb => exact hfill _ (by simp only [List.length_take]; omega)
  · exact hfill _ (by simp)

section Decode

variable (a b c : Nat) (d : List UInt8)

theorem decodeVoteRequest_layout (hd : d.length = idLen) :
    decodeVoteRequest (leBytes 8 a ++ leBytes 8 b ++ leBytes 8 c ++ d) =
      some ⟨UInt64.ofNat (a % 256 ^ 8), UInt64.ofNat (b % 256 ^ 8), UInt64.ofNat (c % 256 ^ 8), d⟩ := by
  rw [decodeVoteRequest, if_neg (by simp [hd, idLen, voteRequestLen])]
  simp [getLE_append_of_le, hd, idLen, List.drop_append, List.drop_eq_nil_of_le,
    List.take_of_length_le]

theorem decodeVoteResponse_layout (flags : UInt8) (hd : d.length = idLen) :
    decodeVoteResponse (leBytes 8 a ++ d ++ [flags]) =
      some ⟨UInt64.ofNat (a % 256 ^ 8), d, flags &&& 1 != 0, flags &&& 2 != 0⟩ := by
  rw [decodeVoteResponse, if_neg (by simp [hd, idLen, voteResponseLen])]
  simp [hd, idLen, List.getD_eq_getElem?_getD]

theorem decodeAppendEntryResponse_layout (s : UInt8) (hd : d.length = idLen) :
    decodeAppendEntryResponse (leBytes 8 a ++ leBytes 8 b ++ d ++ [s]) =
      some ⟨UInt64.ofNat (a % 256 ^ 8), UInt64.ofNat (b % 256 ^ 8), d, s == 1⟩ := by
  rw [decodeAppendEntryResponse, if_neg (by simp [hd, idLen, appendEntryResponseLen])]
  simp [getLE_append_of_le, hd, idLen, List.getD_eq_getElem?_getD, List.drop_append,
    List.drop_eq_nil_of_le]

end Decode

/-! ## Peer state -/

section Peers

variable {peers : List (List UInt8)}

theorem length_flatten_ids (hp : ∀ p ∈ peers, p.length = idLen) :
    peers.flatten.length = idLen * peers.length := by
  induction peers with
  | nil => rfl
  | cons p peers ih =>
    rw [List.flatten_cons, List.length_append, hp p List.mem_cons_self,
      ih (fun q hq => hp q (List.mem_cons_of_mem _ hq)), List.length_cons, Nat.mul_succ, Nat.add_comm]

theorem writePeers_eq (hp : ∀ p ∈ peers, p.length = idLen) (pre post : List UInt8) :
    writePeers (pre ++ (List.replicate (idLen * peers.length) 0 ++ post)) pre.length peers =
      (pre ++ (peers.flatten ++ post), pre.length + idLen * peers.length) := by
  induction peers generalizing pre with
  | nil => simp [writePeers]
  | cons p peers ih =>
    have hp0 : p.length = idLen := hp p List.mem_cons_self
    -- the first id takes the place of the first idLen zeros
    have hzeros : List.replicate (idLen * (p :: peers).length) (0 : UInt8) =
        List.replicate idLen 0 ++ List.replicate (idLen * peers.length) 0 := by
      rw [← List.replicate_add, List.length_cons, Nat.mul_succ, Nat.add_comm]
    have hcopy : copyAt (pre ++ (List.replicate (idLen * (p :: peers).length) 0 ++ post))
        pre.length p = (pre ++ p) ++ (List.replicate (idLen * peers.length) 0 ++ post) := by
      rw [copyAt_append_right (Nat.le_refl _), Nat.sub_self, hzeros, List.append_assoc,
        copyAt_append_left (by simp [hp0]),
        copyAt_zero_of_length_eq (by simp [hp0]), List.append_assoc]
    have hlen : pre.length + idLen = (pre ++ p).length := by simp [hp0]
    rw [writePeers, hcopy, hlen, ih (fun q hq => hp q (List.mem_cons_of_mem _ hq))]
    simp [hp0, Nat.mul_succ]
    omega

theorem encodePeerState_eq (ps : PeerState) (hp : ∀ p ∈ ps.knownPeers, p.length = idLen) :
    encodePeerState ps = leBytes 4 ps.clusterSize.toUInt64.toNat ++
      leBytes 4 ps.knownPeers.length ++ ps.knownPeers.flatten ++ leBytes 2 ps.domainExt.toNat := by
  -- the zeroed buffer: two words, the ids, the extension state
  have hrep : List.replicate (peerStateBufSize ps) (0 : UInt8) = List.replicate 4 0 ++
      (List.replicate 4 0 ++ (List.replicate (idLen * ps.knownPeers.length) 0 ++
        List.replicate 2 0)) := by
    simp only [← List.replicate_add]
    congr 1
    simp only [peerStateBufSize]
    omega
  have hA : (leBytes 4 ps.clusterSize.toUInt64.toNat).length = 4 := length_leBytes _ _
  have hAB : (leBytes 4 ps.clusterSize.toUInt64.toNat ++ leBytes 4 ps.knownPeers.length).length = 8 := by
    simp
  have hflat := length_flatten_ids hp
  rw [encodePeerState]
  simp only [hrep]
  -- the two words
  rw [copyAt_append_left (by simp), copyAt_zero_of_length_eq (by simp),
    copyAt_append_right (by rw [hA]), hA, Nat.sub_self, copyAt_append_left (by simp),
    copyAt_zero_of_length_eq (by simp)]
  -- the ids
  rw [← List.append_assoc, ← hAB, writePeers_eq hp]
  simp only
  -- the extension state
  rw [copyAt_append_right (Nat.le_add_right _ _), Nat.add_sub_cancel_left,
    copyAt_append_right (by rw [hflat]), hflat, Nat.sub_self, copyAt_zero_of_length_eq (by simp)]
  simp only [List.append_assoc]

theorem readPeers_eq (hp : ∀ p ∈ peers, p.length = idLen) (buf rest : List UInt8) (ri : Nat)
    (h : buf.drop ri = peers.flatten ++ rest) :
    readPeers buf peers.length ri = (peers, ri + idLen * peers.length) := by
  induction peers generalizing ri with
  | nil => rfl
  | cons p peers ih =>
    have hp0 : p.length = idLen := hp p List.mem_cons_self
    have hlen := congrArg List.length h
    simp only [List.length_drop, List.flatten_cons, List.length_append, hp0, idLen] at hlen
    have hfit : ri + idLen ≤ buf.length := by simp only [idLen]; omega
    have hid : (buf.drop ri).take idLen = p := by
      rw [h, List.flatten_cons, List.append_assoc, List.take_left' hp0]
    have hnext : buf.drop (ri + idLen) = peers.flatten ++ rest := by
      rw [← List.drop_drop, h, List.flatten_cons, List.append_assoc, List.drop_left' hp0]
    rw [List.length_cons, readPeers, if_pos hfit]
    simp only [ih (fun q hq => hp q (List.mem_cons_of_mem _ hq)) (ri + idLen) hnext, hid]
    congr 1
    rw [Nat.mul_succ]
    omega

theorem readPeers_fit (buf : List UInt8) (n ri : Nat) (hri : ri ≤ buf.length)
    (h : (readPeers buf n ri).1.length = n) : ri + idLen * n ≤ buf.length := by
  induction n generalizing ri with
  | zero => simpa using hri
  | succ n ih =>
    rw [readPeers] at h
    split at h
    · next hfit =>
      simp only [List.length_cons] at h
      have := ih (ri + idLen) hfit (by omega)
      rw [Nat.mul_succ]
      omega
    · simp at h

theorem decodePeerState_layout (cs ext : Nat) (hp : ∀ p ∈ peers, p.length = idLen)
    (hn : peers.length < 2 ^ 32) :
    decodePeerState (leBytes 4 cs ++ leBytes 4 peers.length ++ peers.flatten ++ leBytes 2 ext) =
      .ok ⟨peers, Int64.ofNat (cs % 256 ^ 4), UInt16.ofNat (ext % 256 ^ 2)⟩ := by
  have hflat := length_flatten_ids hp
  have hcs : getLE (leBytes 4 cs ++ leBytes 4 peers.length ++ peers.flatten ++ leBytes 2 ext) 0 4 =
      cs % 256 ^ 4 := by
    simp only [List.append_assoc, getLE_leBytes_append]
  have hcount : getLE (leBytes 4 cs ++ leBytes 4 peers.length ++ peers.flatten ++ leBytes 2 ext) 4 4 =
      peers.length := by
    simp only [List.append_assoc]
    rw [getLE_append_of_le (by simp), length_leBytes, Nat.sub_self, getLE_leBytes_append,
      Nat.mod_eq_of_lt (by omega)]
  have hdrop : (leBytes 4 cs ++ leBytes 4 peers.length ++ peers.flatten ++ leBytes 2 ext).drop 8 =
      peers.flatten ++ leBytes 2 ext := by
    rw [List.append_assoc _ peers.flatten, List.drop_left' (by simp)]
  have hread := readPeers_eq hp (peers.flatten ++ leBytes 2 ext) (leBytes 2 ext) 0 (by simp)
  have hext : getLE (peers.flatten ++ leBytes 2 ext) (idLen * peers.length) 2 = ext % 256 ^ 2 := by
    rw [getLE_append_of_le (by omega), hflat, Nat.sub_self, getLE, List.drop_zero,
      List.take_of_length_le (by simp), leValue_leBytes]
  rw [decodePeerState, failWith_bind_of_not _
    (by simp only [List.length_append, length_leBytes, hflat]; omega)]
  simp only [hcs, hcount, hdrop, hread, ne_eq, not_true_eq_false, failWith_bind_of_not _ not_false,
    Nat.zero_add, hext]
  rw [List.drop_append_of_le_length (by omega), List.drop_eq_nil_of_le (by omega), List.nil_append,
    if_pos (by simp)]
  rfl

theorem decodePeerState_sound (buf : List UInt8) :
    decodePeerState buf = .error .errCorruptPeers ∨
      ∃ ps, decodePeerState buf = .ok ps ∧ ps.knownPeers.length = getLE buf 4 4 ∧
        8 + idLen * getLE buf 4 4 ≤ buf.length := by
  rw [decodePeerState, failWith_bind]
  split
  · exact .inl rfl
  · next hshort =>
    simp only
    rcases hr : readPeers (buf.drop 8) (getLE buf 4 4) 0 with ⟨knownPeers, ri⟩
    simp only [failWith_bind]
    split
    · exact .inl rfl
    · next hfound =>
      have hfit := readPeers_fit (buf.drop 8) (getLE buf 4 4) 0 (Nat.zero_le _)
        (by rw [hr]; exact Decidable.of_not_not hfound)
      rw [List.length_drop] at hfit
      exact .inr ⟨_, rfl, Decidable.of_not_not hfound, by omega⟩

end Peers

theorem ofNat_clusterSize {x : Int64} (h0 : 0 ≤ x.toInt) (h1 : x.toInt < 2 ^ 32) :
    Int64.ofNat (x.toUInt64.toNat % 256 ^ 4) = x := by
  have hx : 0 ≤ x := Int64.le_iff_toInt_le.mpr (by simpa using h0)
  have hc := Int64.cast_toNatClampNeg x hx
  rw [Int64.toNat_toUInt64_of_le hx, Nat.mod_eq_of_lt (by omega), Int64.ofNat_toNatClampNeg x hx]

theorem ofNat_domainExt (x : UInt16) : UInt16.ofNat (x.toNat % 256 ^ 2) = x := by
  rw [Nat.mod_eq_of_lt (by simpa using x.toNat_lt), UInt16.ofNat_toNat]

/-! ## The control messages -/

theorem success_byte (s : Bool) : ((if s then (1 : UInt8) else 0) == 1) = s := by
  cases s <;> rfl

/-- The vote request, the vote response, the append entry response and the peer state come back
as they were written, when ids are idLen bytes, the cluster size fits a uint32 and there are
fewer than `2^32` peers; and decodePeerState takes a buffer only when the announced ids are in
it. -/
theorem decode_encode_control (vr : VoteRequest) (vs : VoteResponse) (ar : AppendEntryResponse)
    (b : List UInt8) (ps : PeerState) (hvr : vr.candidate.length = idLen)
    (hvs : vs.peer.length = idLen) (har : ar.peer.length = idLen)
    (hps : ∀ p ∈ ps.knownPeers, p.length = idLen) (hcs0 : 0 ≤ ps.clusterSize.toInt)
    (hcs : ps.clusterSize.toInt < 2 ^ 32) (hn : ps.knownPeers.length < 2 ^ 32) :
    decodeVoteRequest vr.encode = some vr ∧ decodeVoteResponse vs.encode = some vs ∧
      decodeAppendEntryResponse (ar.encode b) = some ar ∧
      decodePeerState (encodePeerState ps) = .ok ps ∧
      ∀ buf, decodePeerState buf = .error .errCorruptPeers ∨
        ∃ ps', decodePeerState buf = .ok ps' ∧ ps'.knownPeers.length = getLE buf 4 4 ∧
          8 + idLen * getLE buf 4 4 ≤ buf.length := by
  refine ⟨?_, ?_, ?_, ?_, decodePeerState_sound⟩
  · rw [VoteRequest.encode_eq vr hvr, decodeVoteRequest_layout _ _ _ _ hvr, ofNat_toNat_mod,
      ofNat_toNat_mod, ofNat_toNat_mod]
  · obtain ⟨flags, henc, hgranted, hempty⟩ := VoteResponse.encode_eq vs hvs
    rw [henc, decodeVoteResponse_layout _ _ _ hvs, hgranted, hempty, ofNat_toNat_mod]
  · rw [AppendEntryResponse.encode_eq ar b har, decodeAppendEntryResponse_layout _ _ _ _ har,
      ofNat_toNat_mod, ofNat_toNat_mod, success_byte]
  · rw [encodePeerState_eq ps hps, decodePeerState_layout _ _ hps hn, ofNat_clusterSize hcs0 hcs,
      ofNat_domainExt]

theorem decode_encode_control_two_peers :
    decodePeerState (encodePeerState ⟨[[1, 2, 3, 4, 5, 6, 7, 8], [9, 9, 9, 9, 9, 9, 9, 9]], 3, 1⟩) =
      .ok ⟨[[1, 2, 3, 4, 5, 6, 7, 8], [9, 9, 9, 9, 9, 9, 9, 9]], 3, 1⟩ :=
  (decode_encode_control ⟨1, 2, 3, [1, 2, 3, 4, 5, 6, 7, 8]⟩ ⟨1, [1, 2, 3, 4, 5, 6, 7, 8], true, false⟩
    ⟨1, 2, [1, 2, 3, 4, 5, 6, 7, 8], true⟩ [] ⟨[[1, 2, 3, 4, 5, 6, 7, 8], [9, 9, 9, 9, 9, 9, 9, 9]], 3, 1⟩
    (by decide) (by decide) (by decide) (by decide) (by decide) (by decide) (by decide)).2.2.2.1

/-! ## Append entries -/

section Reads

variable {msg : List UInt8}

theorem wordAt_of_le {i w : Nat} (h : i + w ≤ msg.length) : wordAt msg i w = .ok (getLE msg i w) :=
  if_pos h

theorem byteAt_of_lt {i : Nat} (h : i < msg.length) : byteAt msg i = .ok msg[i] := by
  rw [byteAt, List.getElem?_eq_getElem h]

theorem sliceAt_of_le {lo hi : Nat} (h1 : lo ≤ hi) (h2 : hi ≤ msg.length) :
    sliceAt msg lo hi = .ok ((msg.drop lo).take (hi - lo)) :=
  if_pos ⟨h1, h2⟩

theorem wordAt_of_drop {i w n : Nat} {rest : List UInt8} (hw : 0 < w)
    (h : msg.drop i = leBytes w n ++ rest) : wordAt msg i w = .ok (n % 256 ^ w) := by
  have hlen := congrArg List.length h
  simp only [List.length_drop, List.length_append, length_leBytes] at hlen
  rw [wordAt_of_le (by omega), getLE, h, List.take_left' (length_leBytes w n), leValue_leBytes]

theorem byteAt_of_drop {i : Nat} {x : UInt8} {rest : List UInt8} (h : msg.drop i = x :: rest) :
    byteAt msg i = .ok x := by
  have hx : msg[i]? = some x := by
    rw [← Nat.add_zero i, ← List.getElem?_drop, h]
    rfl
  rw [byteAt, hx]

theorem sliceAt_of_drop {i : Nat} {d rest : List UInt8} (hi : i ≤ msg.length)
    (h : msg.drop i = d ++ rest) : sliceAt msg i (i + d.length) = .ok d := by
  have hlen := congrArg List.length h
  simp only [List.length_drop, List.length_append] at hlen
  rw [sliceAt_of_le (by omega) (by omega), h, Nat.add_sub_cancel_left, List.take_left]

end Reads

theorem toNat_ofNat_sub_ofNat {a b : Nat} (h : b ≤ a) :
    (UInt64.ofNat a - UInt64.ofNat b).toNat = (a - b) % 2 ^ 64 := by
  rw [UInt64.toNat_sub, UInt64.toNat_ofNat', UInt64.toNat_ofNat']
  omega

theorem le_of_not_sub_lt {a b : Nat} (h : b ≤ a) (hlt : ¬UInt64.ofNat a - UInt64.ofNat b < 4) :
    b + 4 ≤ a := by
  rw [UInt64.lt_iff_toNat_lt, toNat_ofNat_sub_ofNat h] at hlt
  have : (a - b) % 2 ^ 64 ≤ a - b := Nat.mod_le _ _
  simp only [UInt64.reduceToNat] at hlt
  omega

theorem not_sub_lt_of_le {a b : Nat} (h : b + 4 ≤ a) (ha : a < 2 ^ 64) :
    ¬UInt64.ofNat a - UInt64.ofNat b < 4 := by
  rw [UInt64.lt_iff_toNat_lt, toNat_ofNat_sub_ofNat (by omega), Nat.mod_eq_of_lt (by omega)]
  simp only [UInt64.reduceToNat]
  omega

section Entries

variable {msg : List UInt8}

theorem decodeEntry_layout (e : Entry) (rest : List UInt8) {ri : Nat}
    (h : msg.drop ri = entryBytes e ++ rest) (hd : e.data.length ≤ MaxInt32)
    (hmax : msg.length < 2 ^ 64) :
    decodeEntry msg ri = .ok (e, ri + (entryBytes e).length) := by
  have hlen := congrArg List.length h
  simp only [List.length_drop, entryBytes, List.length_append, length_leBytes,
    List.length_singleton] at hlen
  have hw : msg.drop ri = leBytes 4 (1 + e.data.length) ++ (e.type :: (e.data ++ rest)) := by
    rw [h, entryBytes]
    simp
  have ht : msg.drop (ri + 4) = e.type :: (e.data ++ rest) := by
    rw [← List.drop_drop, hw, List.drop_left' (length_leBytes _ _)]
  have hs : msg.drop (ri + 4 + 1) = e.data ++ rest := by
    rw [← List.drop_drop, ht]
    rfl
  -- the length word counts the type byte and fits in 32 bits
  have hml : (1 + e.data.length) % 256 ^ 4 = 1 + e.data.length :=
    Nat.mod_eq_of_lt (by unfold MaxInt32 at hd; omega)
  have hend : ri + 4 + (1 + e.data.length) = ri + 4 + 1 + e.data.length := by omega
  simp only [decodeEntry]
  rw [failWith_bind_of_not _ (not_sub_lt_of_le (by omega) hmax), wordAt_of_drop (by decide) hw, ok_bind,
    hml, failWith_bind_of_not _ (by omega), byteAt_of_drop ht, ok_bind, hend,
    sliceAt_of_drop (by omega) hs, ok_bind]
  simp only [entryBytes, List.length_append, length_leBytes, List.length_singleton]
  congr 2
  omega

theorem decodeEntries_layout (rest : List UInt8) (hmax : msg.length < 2 ^ 64) :
    ∀ (es : List Entry) (ri : Nat), (∀ e ∈ es, e.data.length ≤ MaxInt32) →
      msg.drop ri = es.flatMap entryBytes ++ rest →
      decodeEntries msg es.length ri = .ok (es, ri + (es.flatMap entryBytes).length)
  | [], ri, _, _ => by simp [decodeEntries]
  | e :: es, ri, hd, h => by
    have hrest : msg.drop (ri + (entryBytes e).length) = es.flatMap entryBytes ++ rest := by
      rw [← List.drop_drop, h, List.flatMap_cons, List.append_assoc, List.drop_left]
    rw [List.length_cons, decodeEntries, decodeEntry_layout e _ (by rw [h, List.flatMap_cons,
      List.append_assoc]) (hd e List.mem_cons_self) hmax, ok_bind]
    simp only
    rw [decodeEntries_layout rest hmax es _ (fun e' he' => hd e' (List.mem_cons_of_mem _ he')) hrest,
      ok_bind, List.flatMap_cons, List.length_append, Nat.add_assoc]
    rfl

theorem decodeEntry_sound {ri : Nat} (h : ri ≤ msg.length) :
    decodeEntry msg ri = .error .errBadAppendEntry ∨
      ∃ e ri', decodeEntry msg ri = .ok (e, ri') ∧ ri < ri' ∧ ri' ≤ msg.length ∧
        e.data <:+: msg := by
  simp only [decodeEntry]
  rw [failWith_bind]
  split
  · exact .inl rfl
  · next hroom =>
    have h4 := le_of_not_sub_lt h hroom
    rw [wordAt_of_le h4, ok_bind, failWith_bind]
    split
    · exact .inl rfl
    · next hml =>
      simp only [not_or, Nat.not_le, Nat.not_lt] at hml
      rw [byteAt_of_lt (by omega), ok_bind, sliceAt_of_le (by omega) hml.2, ok_bind]
      exact .inr ⟨_, _, rfl, by omega, hml.2, infix_take_drop msg _ _⟩

theorem decodeEntries_sound :
    ∀ (ne ri : Nat), ri ≤ msg.length →
      decodeEntries msg ne ri = .error .errBadAppendEntry ∨
        ∃ es ri', decodeEntries msg ne ri = .ok (es, ri') ∧ ri' ≤ msg.length ∧
          ∀ e ∈ es, e.data <:+: msg
  | 0, ri, h => .inr ⟨[], ri, rfl, h, by simp⟩
  | ne + 1, ri, h => by
    rw [decodeEntries]
    rcases decodeEntry_sound h with herr | ⟨e, ri', he, -, hri', hin⟩
    · rw [herr, error_bind]
      exact .inl rfl
    · rw [he, ok_bind]
      simp only
      rcases decodeEntries_sound ne ri' hri' with herr | ⟨es, ri'', hes, hri'', hins⟩
      · rw [herr, error_bind]
        exact .inl rfl
      · rw [hes, ok_bind]
        refine .inr ⟨e :: es, ri'', rfl, hri'', fun e' he' => ?_⟩
        rcases List.mem_cons.mp he' with rfl | he'
        · exact hin
        · exact hins e' he'

theorem length_entryBytes (e : Entry) : (entryBytes e).length = 5 + e.data.length := by
  simp only [entryBytes, List.length_append, length_leBytes, List.length_singleton]

theorem length_flatMap_entryBytes_le {es : List Entry} (hd : ∀ e ∈ es, e.data.length ≤ MaxInt32) :
    (es.flatMap entryBytes).length ≤ es.length * (5 + MaxInt32) := by
  induction es with
  | nil => simp
  | cons e es ih =>
    have h1 := hd e List.mem_cons_self
    have h2 := ih (fun e' he' => hd e' (List.mem_cons_of_mem _ he'))
    rw [List.flatMap_cons, List.length_append, length_entryBytes, List.length_cons, Nat.succ_mul]
    omega

theorem entriesLen_eq {es : List Entry} (hd : ∀ e ∈ es, e.data.length ≤ MaxInt32) :
    entriesLen es = .ok (es.flatMap entryBytes).length := by
  induction es with
  | nil => rfl
  | cons e es ih =>
    rw [entriesLen, failWith_bind_of_not _ (Nat.not_lt.mpr (hd e List.mem_cons_self)),
      ih (fun e' he' => hd e' (List.mem_cons_of_mem _ he')), ok_bind, List.flatMap_cons,
      List.length_append, length_entryBytes]
    show Except.ok _ = Except.ok _
    congr 1
    omega

theorem AppendEntry.encode_eq (ae : AppendEntry) (b : List UInt8) (hl : ae.leader.length = idLen)
    (hn : ae.entries.length ≤ MaxUint16) (hd : ∀ e ∈ ae.entries, e.data.length ≤ MaxInt32) :
    ae.encode b = .ok (ae.leader ++ leBytes 8 ae.term.toNat ++ leBytes 8 ae.commit.toNat ++
      leBytes 8 ae.pterm.toNat ++ leBytes 8 ae.pindex.toNat ++ leBytes 2 ae.entries.length ++
      ae.entries.flatMap entryBytes ++ putUvarint ae.lterm) := by
  have hleader : ∀ buf : List UInt8, buf.length = idLen → copyAt buf 0 ae.leader = ae.leader :=
    fun buf hbuf => copyAt_zero_of_length_eq (by rw [hl, hbuf])
  rw [AppendEntry.encode, failWith_bind_of_not _ (by rw [hl]; simp),
    failWith_bind_of_not _ (Nat.not_lt.mpr hn), entriesLen_eq hd, ok_bind]
  simp only
  -- the leader fills the idLen bytes taken from either buffer
  split
  · next hb =>
    rw [hleader _ (by rw [List.length_take]; simp only [appendEntryBaseLen, idLen] at hb ⊢; omega)]
    rfl
  · rw [hleader _ (List.length_replicate ..)]
    rfl

theorem decodeAppendEntry_layout (leader : List UInt8) (t c pt pi : Nat) (es : List Entry)
    (lterm : UInt64) (hl : leader.length = idLen) (hn : es.length ≤ MaxUint16)
    (hd : ∀ e ∈ es, e.data.length ≤ MaxInt32) :
    decodeAppendEntry (leader ++ leBytes 8 t ++ leBytes 8 c ++ leBytes 8 pt ++ leBytes 8 pi ++
        leBytes 2 es.length ++ es.flatMap entryBytes ++ putUvarint lterm) =
      .ok ⟨leader, UInt64.ofNat (t % 256 ^ 8), UInt64.ofNat (c % 256 ^ 8),
        UInt64.ofNat (pt % 256 ^ 8), UInt64.ofNat (pi % 256 ^ 8), es, lterm⟩ := by
  generalize hE : es.flatMap entryBytes = E
  generalize hM : leader ++ leBytes 8 t ++ leBytes 8 c ++ leBytes 8 pt ++ leBytes 8 pi ++
    leBytes 2 es.length ++ E ++ putUvarint lterm = M
  have hEl : E.length ≤ es.length * (5 + MaxInt32) := hE ▸ length_flatMap_entryBytes_le hd
  have hU := length_putUvarint_le lterm
  have hU0 := length_putUvarint_pos lterm
  have hlen : M.length = 42 + E.length + (putUvarint lterm).length := by
    rw [← hM]
    simp only [List.length_append, length_leBytes, hl, idLen]
  have hmax : M.length < 2 ^ 64 := by
    unfold MaxUint16 at hn
    unfold MaxInt32 at hEl
    unfold MaxVarintLen64 at hU
    omega
  -- where each field starts
  have hdrop : ∀ k, k ≤ 42 → M.drop k = (leader ++ leBytes 8 t ++ leBytes 8 c ++ leBytes 8 pt ++
      leBytes 8 pi ++ leBytes 2 es.length).drop k ++ (E ++ putUvarint lterm) := by
    intro k hk
    rw [← hM, List.append_assoc _ E, List.drop_append_of_le_length (by simp [hl, idLen]; omega)]
  have hne : es.length % 256 ^ 2 = es.length := Nat.mod_eq_of_lt (by unfold MaxUint16 at hn; omega)
  have hentries := decodeEntries_layout (putUvarint lterm) hmax es 42 hd
    (by rw [hdrop 42 (Nat.le_refl _), ← hE]; simp [hl, idLen])
  rw [hE] at hentries
  have hrest : M.drop (42 + E.length) = putUvarint lterm ++ [] := by
    rw [← hM, List.append_nil, List.drop_left' (by simp [hl, idLen]; omega)]
  have hlead : sliceAt M 0 idLen = .ok leader := by
    rw [sliceAt_of_le (Nat.zero_le _) (by rw [hlen]; simp only [idLen]; omega), List.drop_zero,
      Nat.sub_zero, ← hM]
    simp only [List.append_assoc]
    rw [List.take_left' hl]
  have hbase : appendEntryBaseLen = 42 := rfl
  have hword : ∀ k w n, k + w ≤ 42 → getLE M k w = n → wordAt M k w = .ok n := fun k w n hk h => by
    rw [wordAt_of_le (by omega), h]
  have h8 : getLE M 8 8 = t % 256 ^ 8 := by rw [← hM]; simp [getLE_append_of_le, hl, idLen]
  have h16 : getLE M 16 8 = c % 256 ^ 8 := by rw [← hM]; simp [getLE_append_of_le, hl, idLen]
  have h24 : getLE M 24 8 = pt % 256 ^ 8 := by rw [← hM]; simp [getLE_append_of_le, hl, idLen]
  have h32 : getLE M 32 8 = pi % 256 ^ 8 := by rw [← hM]; simp [getLE_append_of_le, hl, idLen]
  have h40 : getLE M 40 2 = es.length % 256 ^ 2 := by
    rw [← hM]
    simp [getLE_append_of_le, hl, idLen]
  simp only [decodeAppendEntry, hbase]
  rw [failWith_bind_of_not _ (by omega), hlead, ok_bind, hword 8 8 _ (by omega) h8, ok_bind,
    hword 16 8 _ (by omega) h16, ok_bind, hword 24 8 _ (by omega) h24, ok_bind,
    hword 32 8 _ (by omega) h32, ok_bind, hword 40 2 _ (by omega) h40, ok_bind, hne,
    hentries, ok_bind]
  simp only
  -- the lterm that follows the entries
  have hu := uvarint_putUvarint lterm []
  rw [List.append_nil] at hu
  rw [show M.length = 42 + E.length + (putUvarint lterm).length from hlen,
    sliceAt_of_drop (by omega) hrest, ok_bind, hu, if_pos ⟨hU0, by simpa using hU0⟩]
  rfl

theorem decodeAppendEntry_sound (msg : List UInt8) :
    decodeAppendEntry msg = .error .errBadAppendEntry ∨
      ∃ ae, decodeAppendEntry msg = .ok ae ∧ ∀ e ∈ ae.entries, e.data <:+: msg := by
  simp only [decodeAppendEntry]
  rw [failWith_bind]
  split
  · exact .inl rfl
  · next hshort =>
    have hbase : appendEntryBaseLen ≤ msg.length := Nat.not_lt.mp hshort
    simp only [appendEntryBaseLen, idLen] at hbase
    -- the header lies within the base length
    rw [sliceAt_of_le (Nat.zero_le _) (by simp only [idLen]; omega), ok_bind,
      wordAt_of_le (by omega), ok_bind, wordAt_of_le (by omega), ok_bind,
      wordAt_of_le (by omega), ok_bind, wordAt_of_le (by omega), ok_bind,
      wordAt_of_le (by omega), ok_bind]
    rcases decodeEntries_sound (getLE msg 40 2) appendEntryBaseLen
        (by simp only [appendEntryBaseLen, idLen]; omega) with herr | ⟨es, ri, hes, hri, hin⟩
    · rw [herr, error_bind]
      exact .inl rfl
    · rw [hes, ok_bind]
      simp only
      rw [sliceAt_of_le hri (Nat.le_refl _), ok_bind]
      exact .inr ⟨_, rfl, hin⟩

end Entries

/-- An append entry whose leader has idLen bytes, with at most 65535 entries and none longer than
MaxInt32, encodes into any buffer to bytes that decode to it; on any bytes the decoder fails with
errBadAppendEntry or returns entries that lie in them. -/
theorem decodeAppendEntry_encode (ae : AppendEntry) (b : List UInt8)
    (hl : ae.leader.length = idLen) (hn : ae.entries.length ≤ MaxUint16)
    (hd : ∀ e ∈ ae.entries, e.data.length ≤ MaxInt32) :
    (∃ buf, ae.encode b = .ok buf ∧ decodeAppendEntry buf = .ok ae) ∧
      ∀ msg, decodeAppendEntry msg = .error .errBadAppendEntry ∨
        ∃ ae', decodeAppendEntry msg = .ok ae' ∧ ∀ e ∈ ae'.entries, e.data <:+: msg := by
  refine ⟨⟨_, AppendEntry.encode_eq ae b hl hn hd, ?_⟩, decodeAppendEntry_sound⟩
  rw [decodeAppendEntry_layout _ _ _ _ _ _ _ hl hn hd, ofNat_toNat_mod, ofNat_toNat_mod,
    ofNat_toNat_mod, ofNat_toNat_mod]

theorem decodeAppendEntry_encode_two_entries :
    ∃ buf, AppendEntry.encode ⟨[1, 2, 3, 4, 5, 6, 7, 8], 5, 4, 3, 2, [⟨1, [7, 7]⟩, ⟨2, []⟩], 9⟩
        [] = .ok buf ∧
      decodeAppendEntry buf = .ok ⟨[1, 2, 3, 4, 5, 6, 7, 8], 5, 4, 3, 2, [⟨1, [7, 7]⟩, ⟨2, []⟩], 9⟩ :=
  (decodeAppendEntry_encode ⟨[1, 2, 3, 4, 5, 6, 7, 8], 5, 4, 3, 2, [⟨1, [7, 7]⟩, ⟨2, []⟩], 9⟩ []
    (by decide) (by decide) (by decide)).1

end NatsServer.Cluster.Wire
