import NatsServer.Avl.Refine
import NatsServer.Lib.Bytes

/-!
# The binary encoding of a sequence set

`Encode` writes a two-byte header (`magic`, `version`), the node count and the size as `uint32`,
and then every node in pre-order: its base, its 32 buckets and `uint16(h)`. `Decode` checks the
header and the node count against the buffer length and rebuilds the tree with `insertNode`,
plain search-tree insertion that keeps the stored heights; version 1 buffers, with 64 buckets per
node, are decoded by inserting every set bit.

The round trip (`Decode_Encode`): on a search tree whose node count fits in `uint32`, decoding
the encoding gives the same tree with each height reduced modulo `2^16`, the size reduced modulo
`2^32`, the same node count, and reports `EncodeLen` bytes read. Pre-order insertion rebuilds a
search tree exactly (`BTree.rebuild_preorder`). Along runs of `Insert` (below the top block),
`Delete` and `Empty` the tree is a search tree and there are at most as many nodes as members,
which gives `Decode_Encode_run`; a set whose top block was inserted into repeatedly has nodes
with equal bases, and its tree is not rebuilt (`Decode_Encode_top_block`).
-/

namespace NatsServer.Avl

open NatsServer.Lib NatsServer.Lib.Bytes

def magic : UInt8 := 22
def version : UInt8 := 2
def hdrLen : Nat := 2
def minLen : Nat := 2 + 8

def nodeLen : Nat := (numBuckets + 1) * 8 + 2

def v1NumBuckets : Nat := 64

def v1NodeLen : Nat := (v1NumBuckets + 1) * 8 + 2

def encodeNode (c : Cell) : List UInt8 :=
  leBytes 8 c.base.toNat ++ (c.bits.toList.map UInt64.toNat).flatMap (leBytes 8) ++ leBytes 2 c.h

def readNode (buf : List UInt8) (index : Nat) : Option Cell :=
  if index + nodeLen ≤ buf.length then
    some ⟨UInt64.ofNat (getLE buf index 8),
      Vector.ofFn fun b : Fin numBuckets => UInt64.ofNat (getLE buf (index + 8 + 8 * b) 8),
      getLE buf (index + 8 + 8 * numBuckets) 2⟩
  else none

def trailingZeros (n : UInt64) : Nat := ((List.range 64).find? (Bits.bit n)).getD 64

namespace SequenceSet

def EncodeLen (ss : SequenceSet) : Nat := minLen + ss.Nodes * nodeLen

/-- `Encode`. It writes into a buffer of `EncodeLen` bytes, so a tree with more nodes than
`nodes` runs past its end, the runtime panic `indexOutOfRange`. The buffer passed in only saves
an allocation: the result is the bytes written. -/
def Encode (ss : SequenceSet) : Except SsError (List UInt8) :=
  if ss.root.size ≤ ss.Nodes then
    .ok (magic :: version ::
      (leBytes 4 ss.Nodes ++ leBytes 4 ss.size ++ ss.root.preorder.flatMap encodeNode))
  else .error .indexOutOfRange

def insertNode (ss : SequenceSet) (c : Cell) : SequenceSet :=
  { ss with root := ss.root.insertBy (fun a b => decide (a.base < b.base)) c, nodes := ss.nodes + 1 }

def decodeNodes (buf : List UInt8) : Nat → Nat → SequenceSet → Except SsError (SequenceSet × Nat)
  | 0, index, ss => .ok (ss, index)
  | k + 1, index, ss =>
    match readNode buf index with
    | some c => decodeNodes buf k (index + nodeLen) (ss.insertNode c)
    | none => .error .indexOutOfRange

def decodev2 (buf : List UInt8) : Except SsError (SequenceSet × Nat) :=
  let nn := getLE buf hdrLen 4
  let sz := getLE buf (hdrLen + 4) 4
  if nn > (buf.length - minLen) / nodeLen then .error .badEncoding
  else decodeNodes buf nn (hdrLen + 8) ⟨.nil, sz, 0⟩

/-- The innermost loop of `decodev1`: while `n != 0`, insert `base + nb*64 + TrailingZeros64(n)`
and clear the lowest set bit of `n`. Each round clears a bit, so `64` rounds do any word. -/
def insertSetBits (base nb : UInt64) : Nat → SequenceSet → UInt64 → SequenceSet
  | 0, ss, _ => ss
  | fuel + 1, ss, n =>
    if n = 0 then ss
    else insertSetBits base nb fuel
      (ss.Insert (base + nb * UInt64.ofNat bitsPerBucket + UInt64.ofNat (trailingZeros n)))
      (n &&& (n - 1))

def decodeV1Nodes (buf : List UInt8) : Nat → Nat → SequenceSet → Except SsError (SequenceSet × Nat)
  | 0, index, ss => .ok (ss, index)
  | k + 1, index, ss =>
    if index + v1NodeLen ≤ buf.length then
      let base := UInt64.ofNat (getLE buf index 8)
      let ss := (List.range v1NumBuckets).foldl (fun ss nb =>
        insertSetBits base (UInt64.ofNat nb) 64 ss (UInt64.ofNat (getLE buf (index + 8 + 8 * nb) 8)))
        ss
      decodeV1Nodes buf k (index + v1NodeLen) ss
    else .error .indexOutOfRange

-- Generate the equation lemmas of decodeNodes and decodeV1Nodes here, once, before the proofs
-- below unfold them in parallel.
section
attribute [local simp] decodeNodes decodeV1Nodes
end


def decodev1 (buf : List UInt8) : Except SsError (SequenceSet × Nat) :=
  let nn := getLE buf hdrLen 4
  let sz := getLE buf (hdrLen + 4) 4
  if nn > (buf.length - minLen) / v1NodeLen then .error .badEncoding
  else
    match decodeV1Nodes buf nn (hdrLen + 8) empty with
    | .ok (ss, index) => if ss.Size ≠ sz then .error .badEncoding else .ok (ss, index)
    | .error e => .error e

def Decode (buf : List UInt8) : Except SsError (SequenceSet × Nat) :=
  if buf.length < minLen ∨ buf.head? ≠ some magic then .error .badEncoding
  else if buf[1]? = some 1 then decodev1 buf
  else if buf[1]? = some 2 then decodev2 buf
  else .error .badVersion

end SequenceSet

/-! ## Reading back what `Encode` wrote -/

def truncH (c : Cell) : Cell := { c with h := c.h % 2 ^ 16 }

def baseLt (a b : Cell) : Bool := decide (a.base < b.base)

theorem length_encodeNode (c : Cell) : (encodeNode c).length = nodeLen := by
  rw [encodeNode, List.length_append, List.length_append, length_leBytes, length_flatMap_leBytes,
    length_leBytes, List.length_map, Vector.length_toList]
  rfl

theorem readNode_encodeNode (pre post : List UInt8) (c : Cell) :
    readNode (pre ++ encodeNode c ++ post) pre.length = some (truncH c) := by
  have hlen : pre.length + nodeLen ≤ (pre ++ encodeNode c ++ post).length := by
    simp [length_encodeNode]
  rw [readNode, if_pos hlen]
  congr 1
  -- the three fields, each read at its offset inside the node's bytes
  have hbase : getLE (pre ++ encodeNode c ++ post) pre.length 8 = c.base.toNat := by
    rw [encodeNode, List.append_assoc, List.append_assoc, List.append_assoc, ← List.append_assoc pre,
      getLE_leBytes]
    exact Nat.mod_eq_of_lt c.base.toNat_lt
  have hbits : ∀ b : Fin numBuckets,
      getLE (pre ++ encodeNode c ++ post) (pre.length + 8 + 8 * b) 8 = c.bits[b].toNat := by
    intro b
    have h := getLE_words (pre ++ leBytes 8 c.base.toNat) (leBytes 2 c.h ++ post) 8
      (c.bits.toList.map UInt64.toNat) (i := b) (by simp)
    simp only [List.length_append, length_leBytes, List.append_assoc] at h
    simp only [encodeNode, List.append_assoc]
    rw [h]
    simp
  have hh : getLE (pre ++ encodeNode c ++ post) (pre.length + 8 + 8 * numBuckets) 2 = c.h % 2 ^ 16 := by
    have h := getLE_leBytes (pre ++ leBytes 8 c.base.toNat ++ (c.bits.toList.map UInt64.toNat).flatMap (leBytes 8)) post 2 c.h
    simp only [List.length_append, length_leBytes, length_flatMap_leBytes, List.length_map,
      Vector.length_toList] at h
    simp only [encodeNode, List.append_assoc] at h ⊢
    rw [show pre.length + 8 + 8 * numBuckets = pre.length + (8 + numBuckets * 8) by
      unfold numBuckets; omega]
    exact h
  simp only [truncH, hbase, UInt64.ofNat_toNat, hh, Cell.mk.injEq, and_true, true_and]
  refine Vector.ext fun b hb => ?_
  rw [Vector.getElem_ofFn, hbits ⟨b, hb⟩, UInt64.ofNat_toNat]
  rfl

namespace SequenceSet

theorem decodeNodes_encode (pre post : List UInt8) (cs : List Cell) (ss : SequenceSet) :
    decodeNodes (pre ++ cs.flatMap encodeNode ++ post) cs.length pre.length ss =
      .ok (cs.foldl (fun s c => s.insertNode (truncH c)) ss, pre.length + cs.length * nodeLen) := by
  induction cs generalizing pre ss with
  | nil => simp [decodeNodes]
  | cons c cs ih =>
    -- the first node joins the prefix
    have hbuf : pre ++ (c :: cs).flatMap encodeNode ++ post =
        pre ++ encodeNode c ++ (cs.flatMap encodeNode ++ post) := by
      simp [List.append_assoc]
    have hrest := ih (pre ++ encodeNode c) (ss.insertNode (truncH c))
    rw [List.length_append, length_encodeNode, List.append_assoc (pre ++ encodeNode c)] at hrest
    rw [List.length_cons, decodeNodes, hbuf, readNode_encodeNode]
    simp only [List.foldl_cons]
    rw [hrest]
    congr 2
    rw [Nat.succ_mul]
    omega

theorem foldl_insertNode (cs : List Cell) (ss : SequenceSet) :
    cs.foldl insertNode ss = ⟨cs.foldl (BTree.insertBy baseLt) ss.root, ss.size, ss.nodes + cs.length⟩ := by
  induction cs generalizing ss with
  | nil => rfl
  | cons c cs ih =>
    rw [List.foldl_cons, ih, List.foldl_cons, List.length_cons]
    simp only [insertNode, SequenceSet.mk.injEq, true_and]
    exact ⟨rfl, by omega⟩

end SequenceSet

theorem searchable_map_truncH {t : Node} (ht : BTree.Searchable baseLt t) :
    BTree.Searchable baseLt (t.map truncH) := by
  rw [BTree.Searchable, BTree.inorder_map, List.pairwise_map]
  exact ht

theorem searchable_of_ordered {t : Node} (ho : Ordered (blocks t)) : BTree.Searchable baseLt t := by
  have hp := ho.1
  rw [blocks, List.pairwise_map] at hp
  have hN : numEntries = 2048 := rfl
  refine hp.imp fun {a b} hab => ⟨?_, ?_⟩
  · rw [Cell.eraseH_base, Cell.eraseH_base] at hab
    rw [baseLt, decide_eq_true_eq, UInt64.lt_iff_toNat_lt]
    omega
  · rw [Cell.eraseH_base, Cell.eraseH_base] at hab
    rw [baseLt, decide_eq_false_iff_not, UInt64.lt_iff_toNat_lt]
    omega

namespace SequenceSet

theorem Decode_Encode (ss : SequenceSet) (hs : BTree.Searchable baseLt ss.root)
    (hn : ss.root.size = ss.nodes) (h32 : ss.nodes < 2 ^ 32) :
    (ss.Encode >>= Decode) =
      .ok (⟨ss.root.map truncH, ss.size % 2 ^ 32, ss.nodes⟩, ss.EncodeLen) := by
  have hpre : ss.root.preorder.length = ss.nodes := by rw [BTree.length_preorder, hn]
  -- the bytes `Encode` writes: header, counts, nodes
  set body := ss.root.preorder.flatMap encodeNode with hbody
  have hlenBody : body.length = ss.nodes * nodeLen := by
    rw [hbody, List.length_flatMap]
    simp [length_encodeNode, hpre]
  have henc : ss.Encode = .ok (magic :: version :: (leBytes 4 ss.nodes ++ leBytes 4 ss.size ++ body)) := by
    rw [Encode, if_pos (by rw [Nodes, hn])]
    rfl
  set buf := magic :: version :: (leBytes 4 ss.nodes ++ leBytes 4 ss.size ++ body) with hbuf
  have hlen : buf.length = minLen + ss.nodes * nodeLen := by
    simp [hbuf, hlenBody, minLen]
    omega
  -- the header reads
  have hnn : getLE buf hdrLen 4 = ss.nodes := by
    have h := getLE_leBytes [magic, version] (leBytes 4 ss.size ++ body) 4 ss.nodes
    rw [Nat.mod_eq_of_lt (by simpa using h32)] at h
    simpa [hbuf, hdrLen, List.append_assoc] using h
  have hsz : getLE buf (hdrLen + 4) 4 = ss.size % 2 ^ 32 := by
    have h := getLE_leBytes ([magic, version] ++ leBytes 4 ss.nodes) body 4 ss.size
    simpa [hbuf, hdrLen, List.append_assoc] using h
  have hcount : ¬ ss.nodes > (buf.length - minLen) / nodeLen := by
    rw [hlen, Nat.add_sub_cancel_left, Nat.mul_div_cancel _ (by decide)]
    exact lt_irrefl _
  -- the node loop rebuilds the tree from its pre-order walk
  have hloop : decodeNodes buf ss.nodes (hdrLen + 8) ⟨.nil, ss.size % 2 ^ 32, 0⟩ =
      .ok (⟨ss.root.map truncH, ss.size % 2 ^ 32, ss.nodes⟩, ss.EncodeLen) := by
    have h := decodeNodes_encode (magic :: version :: (leBytes 4 ss.nodes ++ leBytes 4 ss.size)) []
      ss.root.preorder ⟨.nil, ss.size % 2 ^ 32, 0⟩
    rw [List.append_nil, hpre] at h
    have hb : magic :: version :: (leBytes 4 ss.nodes ++ leBytes 4 ss.size) ++ body = buf := by
      simp [hbuf]
    rw [hb] at h
    have hrebuild : (ss.root.preorder.map truncH).foldl (BTree.insertBy baseLt) .nil =
        ss.root.map truncH := by
      rw [← BTree.preorder_map]
      exact BTree.rebuild_preorder (searchable_map_truncH hs)
    rw [show hdrLen + 8 = (magic :: version :: (leBytes 4 ss.nodes ++ leBytes 4 ss.size)).length by
      simp [hdrLen], h, ← List.foldl_map, foldl_insertNode]
    simp [hrebuild, EncodeLen, Nodes, minLen, hpre, Nat.mul_comm]
  rw [henc]
  simp only [bind, Except.bind]
  have hhead : ¬ (buf.length < minLen ∨ buf.head? ≠ some magic) := by
    rw [hlen]
    simp [hbuf]
  rw [Decode, if_neg hhead, if_neg (by simp [hbuf, version]), if_pos (by simp [hbuf, version]),
    decodev2]
  simp only [hnn, hsz, if_neg hcount]
  exact hloop

theorem Encode_ok_length (ss : SequenceSet) (hn : ss.root.size = ss.nodes) :
    ∃ enc, ss.Encode = .ok enc ∧ enc.head? = some magic ∧ enc.length = ss.EncodeLen := by
  refine ⟨_, by rw [Encode, if_pos (by rw [Nodes, hn])], rfl, ?_⟩
  simp [List.length_flatMap, length_encodeNode, BTree.length_preorder, hn, EncodeLen, Nodes,
    minLen]
  omega

/-! ## Along runs of `Insert`, `Delete` and `Empty` -/

/-- The calls that keep every node holding a sequence: `SetInitialMin` makes an empty node, and
an `Insert` into the top block makes a node whose range wraps around. -/
def Op.Fills : Op → Prop
  | .insert x => x.toNat + numEntries < 2 ^ 64
  | .delete _ => True
  | .empty => True
  | .setInitialMin _ => False

instance : DecidablePred Op.Fills := fun op =>
  match op with
  | .insert x => inferInstanceAs (Decidable (x.toNat + numEntries < 2 ^ 64))
  | .delete _ => inferInstanceAs (Decidable True)
  | .empty => inferInstanceAs (Decidable True)
  | .setInitialMin _ => inferInstanceAs (Decidable False)

theorem Op.Fills.valid {op : Op} (h : op.Fills) : op.Valid := by
  cases op with
  | insert x => exact h
  | delete x => trivial
  | empty => trivial
  | setInitialMin m => exact h.elim

def AllNonEmpty (ss : SequenceSet) : Prop := ∀ c ∈ blocks ss.root, c.NonEmpty

theorem allNonEmpty_step {ss : SequenceSet} {A : Finset UInt64} (h : Refines ss A)
    (hne : AllNonEmpty ss) {op : Op} (hop : op.Fills) : AllNonEmpty (step ss op) := by
  cases op with
  | insert x =>
    intro c hc
    rw [step, (Insert_walk ss x h.wellFormed.ordered).1] at hc
    exact insertBlocks_nonEmpty hne c hc
  | delete x =>
    intro c hc
    rcases Delete_root ss x with hr | hr <;> rw [step, hr] at hc
    · simp at hc
    · have hw := delete_walk ss.root x h.wellFormed.ordered
      rw [Prod.mk.injEq] at hw
      rw [hw.1] at hc
      exact deleteBlocks_nonEmpty hne c hc
  | empty => simp [AllNonEmpty, step, Empty]
  | setInitialMin m => exact hop.elim

end SequenceSet

theorem Cell.NonEmpty.exists_mem {c : Cell} (hne : c.NonEmpty)
    (hfit : c.base.toNat + numEntries < 2 ^ 64) : ∃ x, c.Mem x := by
  obtain ⟨o, ho, hhas⟩ := hne
  have hx : (UInt64.ofNat (c.base.toNat + o)).toNat = c.base.toNat + o := by
    rw [UInt64.toNat_ofNat']
    omega
  refine ⟨UInt64.ofNat (c.base.toNat + o), ⟨?_, ?_⟩, ?_⟩
  · omega
  · omega
  · rwa [Cell.offset, hx, Nat.add_sub_cancel_left]

theorem length_le_card {cs : List Cell} (ho : Ordered cs) (hne : ∀ c ∈ cs, c.NonEmpty)
    {A : Finset UInt64} (hA : ∀ x, MemBlocks cs x → x ∈ A) : cs.length ≤ A.card := by
  induction cs generalizing A with
  | nil => exact Nat.zero_le _
  | cons c cs ih =>
    obtain ⟨m, hm⟩ := (hne c (List.mem_cons_self ..)).exists_mem (ho.2 c (List.mem_cons_self ..))
    have hmA : m ∈ A := hA m (memBlocks_cons.mpr (.inl hm))
    -- the members held behind `c` avoid `m`, which lies in the range of `c`
    have hrest : ∀ x, MemBlocks cs x → x ∈ A.erase m := by
      intro x hx
      refine Finset.mem_erase.mpr ⟨?_, hA x (memBlocks_cons.mpr (.inr hx))⟩
      rintro rfl
      exact ho.not_mem_tail hm.1.2 hx
    have hlen := ih ho.cons (fun d hd => hne d (List.mem_cons_of_mem _ hd)) hrest
    rw [Finset.card_erase_of_mem hmA] at hlen
    have hpos := Finset.card_pos.mpr ⟨m, hmA⟩
    rw [List.length_cons]
    omega

namespace SequenceSet

/-- Along every run of `Insert` (below the top block), `Delete` and `Empty` from the empty set
that leaves fewer than `2^32` members, decoding the encoding gives the set back, each stored
height reduced modulo `2^16`, and reports `EncodeLen` bytes read. -/
theorem Decode_Encode_run (ops : List Op) (hops : ∀ op ∈ ops, op.Fills)
    (hsize : (run step empty ops).Size < 2 ^ 32) :
    ((run step empty ops).Encode >>= Decode) =
      .ok ({ run step empty ops with root := (run step empty ops).root.map truncH },
        (run step empty ops).EncodeLen) := by
  have h : Refines (run step empty ops) (run absStep ∅ ops) ∧ AllNonEmpty (run step empty ops) :=
    @run_simulation _ _ _ step absStep Op.Fills (fun ss A => Refines ss A ∧ AllNonEmpty ss)
      (fun _ _ _ hv h => ⟨h.1.step hv.valid, allNonEmpty_step h.1 h.2 hv⟩) _ _
      ⟨refines_empty, by simp [AllNonEmpty, empty]⟩ ops hops
  obtain ⟨hr, hne⟩ := h
  -- no more nodes than members, so the node count fits in `uint32`
  have hnodes : (run step empty ops).nodes ≤ (run step empty ops).size := by
    rw [hr.nodes_eq, ← length_blocks, hr.size_eq]
    exact length_le_card hr.wellFormed.ordered hne fun x hx => (hr.mem_iff x).mp hx
  rw [Decode_Encode _ (searchable_of_ordered hr.wellFormed.ordered) hr.nodes_eq.symm
    (by simp only [Size] at hsize; omega)]
  simp only [Size] at hsize
  rw [Nat.mod_eq_of_lt hsize]

theorem Decode_Encode_run_small :
    (∀ op ∈ [Op.insert 1, .insert 5000, .delete 1], op.Fills) ∧
      (run step empty [.insert 1, .insert 5000, .delete 1]).Size < 2 ^ 32 ∧
      ((run step empty [.insert 1, .insert 5000, .delete 1]).Encode >>= Decode) =
        .ok ({ run step empty [.insert 1, .insert 5000, .delete 1] with
            root := (run step empty [.insert 1, .insert 5000, .delete 1]).root.map truncH },
          (run step empty [.insert 1, .insert 5000, .delete 1]).EncodeLen) :=
  ⟨by decide, by decide +kernel, Decode_Encode_run _ (by decide) (by decide +kernel)⟩

/-- Three inserts of `2^64 - 1` make three nodes with the same base, since the test
`seq >= n.base + numEntries` wraps to `seq >= 0` in the top block; the middle one is the root
after a rotation, and `insertNode` puts both others to its right. -/
theorem Decode_Encode_top_block :
    ((run step empty [.insert 18446744073709551615, .insert 18446744073709551615,
        .insert 18446744073709551615]).Encode >>= Decode).map (fun r => r.1.root) ≠
      .ok (run step empty [.insert 18446744073709551615, .insert 18446744073709551615,
        .insert 18446744073709551615]).root := by
  decide +kernel

end SequenceSet

end NatsServer.Avl
