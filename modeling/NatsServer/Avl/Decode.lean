import NatsServer.Avl.Codec

/-!
# What `Decode` does with an arbitrary buffer

`Decode` checks the header and compares the node count `nn` against the bytes left by division,
`nn > (len(buf) - minLen) / perNode`; past that guard every fixed-offset read of the node loops
stays inside the buffer. So whatever the buffer, `Decode` fails only with `badEncoding` or
`badVersion`, never by reading past the end; it reports at most the buffer's length as read; a
version 2 set has exactly the nodes the buffer holds; and a version 1 set has the size its
header gives, the decoder's own check (`Decode_safe`).

A version 1 buffer is decoded by inserting every set bit, and the nodes those inserts make are
not bounded by the buffer: with a node based in the top block `[2^64 - 2048, 2^64)`, whose upper
end wraps around, every insert makes a node of its own (`Decode_v1_top_block`).
-/

namespace NatsServer.Avl

open NatsServer.Lib NatsServer.Lib.Bytes

namespace SequenceSet

theorem decodeNodes_ok (buf : List UInt8) (k index : Nat) (ss : SequenceSet)
    (h : index + k * nodeLen ≤ buf.length) :
    ∃ ss', decodeNodes buf k index ss = .ok (ss', index + k * nodeLen) ∧
      ss'.nodes = ss.nodes + k ∧ ss'.size = ss.size := by
  induction k generalizing index ss with
  | zero => exact ⟨ss, rfl, rfl, rfl⟩
  | succ k ih =>
    have hnode : index + nodeLen ≤ buf.length := by rw [Nat.succ_mul] at h; omega
    obtain ⟨c, hc⟩ : ∃ c, readNode buf index = some c := ⟨_, if_pos hnode⟩
    obtain ⟨ss', hrun, hnodes, hsize⟩ :=
      ih (index + nodeLen) (ss.insertNode c) (by rw [Nat.succ_mul] at h; omega)
    refine ⟨ss', ?_, ?_, hsize⟩
    · simp only [decodeNodes, hc, hrun, Nat.succ_mul, Nat.add_assoc, Nat.add_comm nodeLen]
    · simp only [hnodes, insertNode]
      omega

theorem decodeV1Nodes_ok (buf : List UInt8) (k index : Nat) (ss : SequenceSet)
    (h : index + k * v1NodeLen ≤ buf.length) :
    ∃ ss', decodeV1Nodes buf k index ss = .ok (ss', index + k * v1NodeLen) := by
  induction k generalizing index ss with
  | zero => exact ⟨ss, rfl⟩
  | succ k ih =>
    have hnode : index + v1NodeLen ≤ buf.length := by rw [Nat.succ_mul] at h; omega
    obtain ⟨ss', hrun⟩ := ih (index + v1NodeLen) _ (by rw [Nat.succ_mul] at h; omega)
    refine ⟨ss', ?_⟩
    rw [decodeV1Nodes, if_pos hnode, hrun, Nat.succ_mul, Nat.add_assoc, Nat.add_comm v1NodeLen]

theorem nodes_fit {len nn per : Nat} (hper : 0 < per) (hlen : minLen ≤ len)
    (h : ¬ nn > (len - minLen) / per) : minLen + nn * per ≤ len := by
  have := (Nat.le_div_iff_mul_le hper).mp (Nat.le_of_not_gt h)
  omega

theorem decodev2_cases {buf : List UInt8} (hlen : minLen ≤ buf.length) :
    decodev2 buf = .error .badEncoding ∨
      ∃ ss, decodev2 buf = .ok (ss, minLen + ss.Nodes * nodeLen) ∧
        minLen + ss.Nodes * nodeLen ≤ buf.length := by
  unfold decodev2
  dsimp only
  split_ifs with hg
  · exact .inl rfl
  · have hfit := nodes_fit (by decide) hlen hg
    obtain ⟨ss, hrun, hnodes, -⟩ :=
      decodeNodes_ok buf (getLE buf hdrLen 4) (hdrLen + 8) ⟨.nil, getLE buf (hdrLen + 4) 4, 0⟩ hfit
    have hn : ss.Nodes = getLE buf hdrLen 4 := by rw [Nodes, hnodes, Nat.zero_add]
    exact .inr ⟨ss, by rw [hrun, hn]; rfl, hn ▸ hfit⟩

theorem decodev1_cases {buf : List UInt8} (hlen : minLen ≤ buf.length) :
    decodev1 buf = .error .badEncoding ∨
      ∃ ss n, decodev1 buf = .ok (ss, n) ∧ n ≤ buf.length ∧
        ss.Size = getLE buf (hdrLen + 4) 4 := by
  unfold decodev1
  dsimp only
  split_ifs with hg
  · exact .inl rfl
  · have hfit := nodes_fit (by decide) hlen hg
    obtain ⟨ss, hrun⟩ := decodeV1Nodes_ok buf (getLE buf hdrLen 4) (hdrLen + 8) empty hfit
    rw [hrun]
    dsimp only
    split_ifs with hs
    · exact .inl rfl
    · exact .inr ⟨ss, _, rfl, hfit, not_not.mp hs⟩

/-- Whatever the buffer, `Decode` fails only with `badEncoding` or `badVersion`: past the node
count guard no read runs off the end. On success it has read at most the buffer, a version 2
set has exactly the nodes the bytes read hold, and a version 1 set has the size in its header. -/
theorem Decode_safe (buf : List UInt8) :
    (∀ e, Decode buf = .error e → e = .badEncoding ∨ e = .badVersion) ∧
      ∀ ss n, Decode buf = .ok (ss, n) → n ≤ buf.length ∧
        (buf[1]? = some 2 → minLen + ss.Nodes * nodeLen = n) ∧
        (buf[1]? = some 1 → ss.Size = getLE buf (hdrLen + 4) 4) := by
  unfold Decode
  split_ifs with hhdr h1 h2
  · exact ⟨fun e he => .inl (Except.error.inj he).symm, fun _ _ h => by cases h⟩
  · have hlen : minLen ≤ buf.length := by omega
    rcases decodev1_cases hlen with he | ⟨ss, n, he, hn, hsize⟩ <;> rw [he]
    · exact ⟨fun e h => .inl (Except.error.inj h).symm, fun _ _ h => by cases h⟩
    · refine ⟨fun _ h => (by cases h), fun ss' n' h => ?_⟩
      cases h
      exact ⟨hn, fun h => (by rw [h1] at h; cases h), fun _ => hsize⟩
  · have hlen : minLen ≤ buf.length := by omega
    rcases decodev2_cases hlen with he | ⟨ss, he, hn⟩ <;> rw [he]
    · exact ⟨fun e h => .inl (Except.error.inj h).symm, fun _ _ h => by cases h⟩
    · refine ⟨fun _ h => (by cases h), fun ss' n' h => ?_⟩
      cases h
      exact ⟨hn, fun _ => rfl, fun h => by rw [h2] at h; cases h⟩
  · exact ⟨fun e he => .inr (Except.error.inj he).symm, fun _ _ h => by cases h⟩

/-- A version 1 buffer of one node based at `2^64 - 2048` whose first bucket has all 64 bits
set: every insert of that block misses the nodes made before it, since `base + numEntries` wraps
to `0`, and makes a node of its own. The 532 bytes, room for one node of either version, decode
to a set of 64 nodes. -/
theorem Decode_v1_top_block :
    ([22, 1] ++ leBytes 4 1 ++ leBytes 4 64 ++ leBytes 8 (2 ^ 64 - 2048) ++ List.replicate 8 255 ++
        List.replicate (63 * 8 + 2) 0).length = 532 ∧
      (532 - minLen) / v1NodeLen = 1 ∧ (532 - minLen) / nodeLen = 1 ∧
      (Decode ([22, 1] ++ leBytes 4 1 ++ leBytes 4 64 ++ leBytes 8 (2 ^ 64 - 2048) ++
          List.replicate 8 255 ++ List.replicate (63 * 8 + 2) 0)).map
        (fun r => (r.1.Nodes, r.1.Size, r.2)) = .ok (64, 64, 532) := by
  decide +kernel

end SequenceSet

end NatsServer.Avl
