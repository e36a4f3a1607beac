import Mathlib.Data.Finset.Sort
import NatsServer.Avl.Codec
import NatsServer.Lib.Calls

/-!
# Walking a sequence set: `Range`, `MinMax` and `State`

`node.iter` walks the tree in order and, inside a node, the set bits of each bucket by
`TrailingZeros64` and `b &= b - 1`, stopping at the first `false` of the callback. Its calls are
those of `callUntil` over `members`, the sequences of the nodes in tree order
(`iter_eq`); on the sorted, disjoint ranges that every run of valid calls keeps, that list is
the abstract set in increasing order (`Refines.members_eq`), so `Range` calls the callback on
each member once, in increasing order, until it answers `false`.

`MinMax` reads `node.min` of the leftmost node and `node.max` of the rightmost one. These are
the least and greatest members only when those nodes hold something: the node `SetInitialMin`
makes is empty, and while it is the leftmost or rightmost node `MinMax` reports `0` for it.
Runs without `SetInitialMin` keep every node non-empty (`AllNonEmpty`).
-/

namespace NatsServer.Avl

open NatsServer.Lib

def leadingZeros (n : UInt64) : Nat := ((List.range 64).reverse.find? (Bits.bit n)).elim 64 (63 - ·)

/-- The innermost loop of `node.iter`: while `b != 0`, call `f` on `base` plus the lowest set
bit of `b`, stop if it answers `false`, and clear that bit. Each round clears a bit, so `64`
rounds do any word. -/
def bucketIter (f : UInt64 → Bool) (base : UInt64) : Nat → UInt64 → List UInt64 × Bool
  | 0, _ => ([], true)
  | fuel + 1, b =>
    if b = 0 then ([], true)
    else
      let x := base + UInt64.ofNat (trailingZeros b)
      if f x then
        let r := bucketIter f base fuel (b &&& (b - 1))
        (x :: r.1, r.2)
      else ([x], false)

/-- The bucket loop of `node.iter` over the words `ws` of a node based at `nbase`, the first of
them bucket `i`: `base := n.base + uint64(i)*bitsPerBucket`. -/
def bucketsIter (f : UInt64 → Bool) (nbase : UInt64) : Nat → List UInt64 → List UInt64 × Bool
  | _, [] => ([], true)
  | i, b :: bs =>
    Calls.seq (bucketIter f (nbase + UInt64.ofNat i * UInt64.ofNat bitsPerBucket) 64 b)
      (bucketsIter f nbase (i + 1) bs)

/-- `node.iter`: the left subtree, the buckets of the node, the right subtree, each only while
no call has answered `false`. -/
def iter (f : UInt64 → Bool) : Node → List UInt64 × Bool
  | .nil => ([], true)
  | .node l c r => Calls.seq (iter f l) (Calls.seq (bucketsIter f c.base 0 c.bits.toList) (iter f r))

-- Generate the equation lemmas of bucketIter, bucketsIter and iter here, once, before the proofs
-- below unfold them in parallel.
section
attribute [local simp] bucketIter bucketsIter iter
end


namespace Cell

def min (c : Cell) : UInt64 :=
  match c.bits.toList.zipIdx.find? (fun p => p.1 != 0) with
  | some (b, i) => c.base + UInt64.ofNat (i * bitsPerBucket) + UInt64.ofNat (trailingZeros b)
  | none => 0

/-- `node.max`: the highest bit of the last non-zero bucket, read as
`bitsPerBucket - LeadingZeros64(b >> 1)`; `0` for an empty node. -/
def max (c : Cell) : UInt64 :=
  match c.bits.toList.zipIdx.reverse.find? (fun p => p.1 != 0) with
  | some (b, i) =>
    c.base + UInt64.ofNat (i * bitsPerBucket) + UInt64.ofNat (bitsPerBucket - leadingZeros (b >>> 1))
  | none => 0

end Cell

def minLoop : Node → UInt64 → UInt64
  | .nil, m => m
  | .node l c _, m => minLoop l (match l with | .nil => c.min | _ => m)

def maxLoop : Node → UInt64 → UInt64
  | .nil, m => m
  | .node _ c r, m => maxLoop r (match r with | .nil => c.max | _ => m)

-- Generate the equation lemmas of maxLoop here, once, before the proofs below unfold them in
-- parallel.
section
attribute [local simp] maxLoop
end


namespace SequenceSet

def Range (ss : SequenceSet) (f : UInt64 → Bool) : List UInt64 := (iter f ss.root).1

def MinMax (ss : SequenceSet) : UInt64 × UInt64 :=
  match ss.root with
  | .nil => (0, 0)
  | root => (minLoop root 0, maxLoop root 0)

def State (ss : SequenceSet) : UInt64 × UInt64 × UInt64 :=
  match ss.root with
  | .nil => (0, 0, 0)
  | _ => (ss.MinMax.1, ss.MinMax.2, UInt64.ofNat ss.Size)

end SequenceSet

/-! ## The bit scans -/

theorem trailingZeros_of_bits {b : UInt64} {t : Nat} {ts : List Nat} (h : Bits.bits b = t :: ts) :
    trailingZeros b = t := by
  rw [trailingZeros, ← List.head?_filter]
  change ((Bits.bits b).head?).getD 64 = t
  rw [h]
  rfl

theorem leadingZeros_eq (n : UInt64) :
    leadingZeros n = ((Bits.bits n).getLast?).elim 64 (63 - ·) := by
  rw [leadingZeros, ← List.getLast?_filter]
  rfl

theorem topBit_of_bits {b : UInt64} {p : Nat} (h : (Bits.bits b).getLast? = some p) :
    bitsPerBucket - leadingZeros (b >>> 1) = p := by
  obtain ⟨hp, hmax⟩ := Bits.getLast?_bits_eq_some.mp h
  have hp64 : p < 64 := by
    by_contra hge
    rw [Bits.bit_of_ge (by omega)] at hp
    exact absurd hp (by decide)
  rw [leadingZeros_eq]
  rcases Nat.eq_zero_or_pos p with rfl | hpos
  · -- only bit 0 is set, so `b >> 1` is zero
    have : Bits.bits (b >>> 1) = [] := by
      rw [List.eq_nil_iff_forall_not_mem]
      intro k hk
      have := hmax (k + 1) (by rw [← Bits.bit_shiftRight_one]; exact Bits.mem_bits.mp hk)
      omega
    simp [this, bitsPerBucket]
  · have : (Bits.bits (b >>> 1)).getLast? = some (p - 1) := by
      rw [Bits.getLast?_bits_eq_some, Bits.bit_shiftRight_one, Nat.sub_add_cancel hpos]
      refine ⟨hp, fun k hk => ?_⟩
      have := hmax (k + 1) (by rwa [← Bits.bit_shiftRight_one])
      omega
    simp only [this, Option.elim, bitsPerBucket]
    omega

/-! ## The calls of `node.iter` -/

section Iter

variable (f : UInt64 → Bool)

theorem bucketIter_eq (base : UInt64) (fuel : Nat) (b : UInt64) (hfuel : (Bits.bits b).length ≤ fuel) :
    bucketIter f base fuel b = callUntil f ((Bits.bits b).map (base + UInt64.ofNat ·)) := by
  induction fuel generalizing b with
  | zero =>
    rw [Nat.le_zero, List.length_eq_zero_iff] at hfuel
    simp [bucketIter, hfuel]
  | succ fuel ih =>
    by_cases hb : b = 0
    · subst hb
      simp [bucketIter, (Bits.bits_eq_nil_iff 0).mpr rfl]
    · obtain ⟨t, ts, hts⟩ := List.exists_cons_of_ne_nil (mt (Bits.bits_eq_nil_iff b).mp hb)
      have hrest := ih (b &&& (b - 1)) (by rw [Bits.bits_and_sub_one hts]; simp [hts] at hfuel; omega)
      rw [Bits.bits_and_sub_one hts] at hrest
      simp only [bucketIter, hb, if_false, trailingZeros_of_bits hts, hrest, hts, List.map_cons,
        callUntil]

theorem bucketsIter_eq (nbase : UInt64) (i : Nat) (ws : List UInt64) :
    bucketsIter f nbase i ws =
      callUntil f ((Bits.wordBits ws).map fun o => nbase + UInt64.ofNat (64 * i + o)) := by
  induction ws generalizing i with
  | nil => rfl
  | cons b ws ih =>
    have hlen : (Bits.bits b).length ≤ 64 :=
      (List.length_filter_le _ _).trans (List.length_range ..).le
    rw [bucketsIter, Bits.wordBits_cons, List.map_append, callUntil_append,
      bucketIter_eq f _ 64 b hlen, ih, List.map_map]
    congr 3
    · funext k
      simp [bitsPerBucket, Nat.mul_comm, UInt64.add_assoc]
    · funext o
      simp only [Function.comp]
      congr 2
      omega

end Iter

/-! ## The sequences of a node and of a tree -/

def Cell.members (c : Cell) : List UInt64 :=
  ((List.range numEntries).filter c.has).map (c.base + UInt64.ofNat ·)

def membersOf (cs : List Cell) : List UInt64 := cs.flatMap Cell.members

theorem wordBits_bits (c : Cell) : Bits.wordBits c.bits.toList = (List.range numEntries).filter c.has := by
  rw [Bits.wordBits, Vector.length_toList]
  apply List.filter_congr
  intro o ho
  rw [List.mem_range] at ho
  have hb : o / 64 < numBuckets := by simp only [numBuckets] at ho ⊢; omega
  simp [Cell.has, bucketOf, Nat.mod_eq_of_lt hb, bitsPerBucket, hb]

theorem iter_eq (f : UInt64 → Bool) (t : Node) : iter f t = callUntil f (membersOf (blocks t)) := by
  induction t with
  | nil => rfl
  | node l c r ihl ihr =>
    have hc : bucketsIter f c.base 0 c.bits.toList = callUntil f c.members := by
      rw [bucketsIter_eq, wordBits_bits, Cell.members]
      simp
    rw [iter, ihl, ihr, hc, blocks_node]
    simp only [membersOf, List.flatMap_append, List.flatMap_cons, callUntil_append]
    rfl

/-! ## On sorted, disjoint ranges the members come in increasing order -/

theorem toNat_base_add {c : Cell} (hfit : c.base.toNat + numEntries < 2 ^ 64) {o : Nat}
    (ho : o < numEntries) : (c.base + UInt64.ofNat o).toNat = c.base.toNat + o := by
  rw [UInt64.toNat_add, UInt64.toNat_ofNat', Nat.mod_eq_of_lt (by omega), Nat.mod_eq_of_lt (by omega)]

section Fit

variable {c : Cell} (hfit : c.base.toNat + numEntries < 2 ^ 64)
include hfit

theorem Cell.mem_members {x : UInt64} : x ∈ c.members ↔ c.Mem x := by
  simp only [Cell.members, List.mem_map, List.mem_filter, List.mem_range]
  constructor
  · rintro ⟨o, ⟨ho, hh⟩, rfl⟩
    have hx := toNat_base_add hfit ho
    refine ⟨⟨by omega, by omega⟩, ?_⟩
    rwa [Cell.offset, hx, Nat.add_sub_cancel_left]
  · rintro ⟨hcov, hh⟩
    refine ⟨c.offset x, ⟨c.offset_lt hcov, hh⟩, UInt64.toNat_inj.mp ?_⟩
    rw [toNat_base_add hfit (c.offset_lt hcov), Cell.offset]
    have := hcov.1
    omega

theorem Cell.members_pairwise : c.members.Pairwise (· < ·) := by
  rw [Cell.members, List.pairwise_map]
  refine (List.pairwise_lt_range.filter _).imp_of_mem ?_
  intro a b ha hb hab
  rw [List.mem_filter, List.mem_range] at ha hb
  rw [UInt64.lt_iff_toNat_lt, toNat_base_add hfit ha.1, toNat_base_add hfit hb.1]
  omega

end Fit

section Ordered

variable {cs : List Cell} (ho : Ordered cs)
include ho

theorem mem_membersOf {x : UInt64} : x ∈ membersOf cs ↔ MemBlocks cs x := by
  simp only [membersOf, List.mem_flatMap, MemBlocks]
  exact exists_congr fun c => and_congr_right fun hc => Cell.mem_members (ho.2 c hc)

theorem membersOf_pairwise : (membersOf cs).Pairwise (· < ·) := by
  rw [membersOf, List.pairwise_flatMap]
  refine ⟨fun c hc => Cell.members_pairwise (ho.2 c hc), ho.1.imp_of_mem ?_⟩
  intro a b ha hb hab x hx y hy
  rw [Cell.mem_members (ho.2 a ha)] at hx
  rw [Cell.mem_members (ho.2 b hb)] at hy
  rw [UInt64.lt_iff_toNat_lt]
  have := hx.1.2
  have := hy.1.1
  omega

end Ordered

namespace SequenceSet

theorem sort_pairwise_lt (A : Finset UInt64) : (A.sort (· ≤ ·)).Pairwise (· < ·) :=
  ((A.pairwise_sort (· ≤ ·)).and (A.sort_nodup (· ≤ ·))).imp fun h => UInt64.lt_of_le_of_ne h.1 h.2

theorem Refines.members_eq {ss : SequenceSet} {A : Finset UInt64} (h : Refines ss A) :
    membersOf (blocks ss.root) = A.sort (· ≤ ·) :=
  (membersOf_pairwise h.wellFormed.ordered).eq_of_mem_iff (sort_pairwise_lt A)
    fun x => by rw [mem_membersOf h.wellFormed.ordered, h.mem_iff, Finset.mem_sort]

theorem Refines.Range {ss : SequenceSet} {A : Finset UInt64} (h : Refines ss A)
    (f : UInt64 → Bool) : ss.Range f = (callUntil f (A.sort (· ≤ ·))).1 := by
  rw [SequenceSet.Range, iter_eq, h.members_eq]

end SequenceSet

/-! ## The first and last member of a node -/

theorem find?_zipIdx (ws : List UInt64) (n : Nat) :
    ((ws.zipIdx n).find? (fun p => p.1 != 0)).map (fun p => 64 * p.2 + trailingZeros p.1) =
      (Bits.wordBits ws).head?.map (64 * n + ·) := by
  induction ws generalizing n with
  | nil => rfl
  | cons b ws ih =>
    rw [List.zipIdx_cons, List.find?_cons, Bits.wordBits_cons]
    by_cases hb : b = 0
    · subst hb
      rw [(Bits.bits_eq_nil_iff 0).mpr rfl]
      simp only [bne_self_eq_false, ih, List.nil_append, List.head?_map, Option.map_map]
      congr 1
      funext o
      simp only [Function.comp]
      omega
    · obtain ⟨t, ts, hts⟩ := List.exists_cons_of_ne_nil (mt (Bits.bits_eq_nil_iff b).mp hb)
      rw [show (b != 0) = true from bne_iff_ne.mpr hb]
      simp [hts, trailingZeros_of_bits hts]

theorem find?_zipIdx_reverse (ws : List UInt64) (n : Nat) :
    ((ws.zipIdx n).reverse.find? (fun p => p.1 != 0)).map
        (fun p : UInt64 × Nat => 64 * p.2 + (bitsPerBucket - leadingZeros (p.1 >>> 1))) =
      (Bits.wordBits ws).getLast?.map (64 * n + ·) := by
  induction ws generalizing n with
  | nil => rfl
  | cons b ws ih =>
    rw [List.zipIdx_cons, List.reverse_cons, List.find?_append, Option.map_or, ih,
      Bits.wordBits_cons, List.getLast?_append, Option.map_or, List.getLast?_map, Option.map_map]
    have hshift : ((64 * n + ·) ∘ (64 + ·)) = (64 * (n + 1) + ·) := by
      funext o
      simp only [Function.comp]
      omega
    rw [hshift]
    congr 1
    by_cases hb : b = 0
    · subst hb
      simp [(Bits.bits_eq_nil_iff 0).mpr rfl]
    · obtain ⟨p, hp⟩ := Option.ne_none_iff_exists'.mp
        (mt List.getLast?_eq_none_iff.mp (mt (Bits.bits_eq_nil_iff b).mp hb))
      rw [List.find?_cons, List.find?_nil, show (b != 0) = true from bne_iff_ne.mpr hb]
      simp [hp, topBit_of_bits hp]

theorem Cell.members_head? (c : Cell) :
    c.members.head? = (c.bits.toList.zipIdx.find? (fun p => p.1 != 0)).map
      fun p => c.base + UInt64.ofNat (64 * p.2 + trailingZeros p.1) := by
  have h := find?_zipIdx c.bits.toList 0
  rw [wordBits_bits, Nat.mul_zero] at h
  have hg : (fun p : UInt64 × Nat => c.base + UInt64.ofNat (64 * p.2 + trailingZeros p.1)) =
      (c.base + UInt64.ofNat ·) ∘ fun p => 64 * p.2 + trailingZeros p.1 := rfl
  rw [Cell.members, List.head?_map, hg, ← Option.map_map, h, Option.map_map]
  simp only [Function.comp_def, Nat.zero_add]

theorem Cell.members_getLast? (c : Cell) :
    c.members.getLast? = (c.bits.toList.zipIdx.reverse.find? (fun p => p.1 != 0)).map
      fun p : UInt64 × Nat =>
        c.base + UInt64.ofNat (64 * p.2 + (bitsPerBucket - leadingZeros (p.1 >>> 1))) := by
  have h := find?_zipIdx_reverse c.bits.toList 0
  rw [wordBits_bits, Nat.mul_zero] at h
  have hg : (fun p : UInt64 × Nat =>
        c.base + UInt64.ofNat (64 * p.2 + (bitsPerBucket - leadingZeros (p.1 >>> 1)))) =
      (c.base + UInt64.ofNat ·) ∘
        fun p : UInt64 × Nat => 64 * p.2 + (bitsPerBucket - leadingZeros (p.1 >>> 1)) :=
    rfl
  rw [Cell.members, List.getLast?_map, hg, ← Option.map_map, h, Option.map_map]
  simp only [Function.comp_def, Nat.zero_add]

theorem Cell.members_ne_nil {c : Cell} (hc : c.NonEmpty) : c.members ≠ [] := by
  obtain ⟨o, ho, hh⟩ := hc
  exact List.ne_nil_of_mem (List.mem_map.mpr ⟨o, List.mem_filter.mpr ⟨List.mem_range.mpr ho, hh⟩, rfl⟩)

theorem Cell.head?_members {c : Cell} (hc : c.NonEmpty) : c.members.head? = some c.min := by
  rw [Cell.members_head?]
  rcases hf : c.bits.toList.zipIdx.find? (fun p => p.1 != 0) with _ | ⟨b, i⟩
  · have := c.members_head?
    rw [hf, Option.map_none, List.head?_eq_none_iff] at this
    exact absurd this (Cell.members_ne_nil hc)
  · simp [Cell.min, hf, bitsPerBucket, Nat.mul_comm, UInt64.add_assoc]

theorem Cell.getLast?_members {c : Cell} (hc : c.NonEmpty) : c.members.getLast? = some c.max := by
  rw [Cell.members_getLast?]
  rcases hf : c.bits.toList.zipIdx.reverse.find? (fun p => p.1 != 0) with _ | ⟨b, i⟩
  · have := c.members_getLast?
    rw [hf, Option.map_none, List.getLast?_eq_none_iff] at this
    exact absurd this (Cell.members_ne_nil hc)
  · simp [Cell.max, hf, bitsPerBucket, Nat.mul_comm, UInt64.add_assoc]

/-! ## The spines of `MinMax` -/

theorem minLoop_eq (t : Node) (m : UInt64) :
    minLoop t m = ((blocks t).head?.map Cell.min).getD m := by
  induction t generalizing m with
  | nil => rfl
  | node l c r ihl _ =>
    cases l with
    | nil => rfl
    | node ll lc lr =>
      show minLoop (.node ll lc lr) m = _
      rw [ihl, blocks_node (.node ll lc lr), List.head?_append_of_ne_nil _ (by simp)]

theorem maxLoop_eq (t : Node) (m : UInt64) :
    maxLoop t m = ((blocks t).getLast?.map Cell.max).getD m := by
  induction t generalizing m with
  | nil => rfl
  | node l c r _ ihr =>
    cases r with
    | nil => simp [maxLoop, Cell.max, Cell.eraseH]
    | node rl rc rr =>
      show maxLoop (.node rl rc rr) m = _
      have hne : (blocks (.node rl rc rr)).getLast? ≠ none := by simp
      obtain ⟨d, hd⟩ := Option.ne_none_iff_exists'.mp hne
      have hlast : (c.eraseH :: blocks (.node rl rc rr)).getLast? = some d := by
        rw [← List.singleton_append, List.getLast?_append, hd]
        rfl
      rw [ihr, blocks_node l, List.getLast?_append, hd, hlast]
      rfl

theorem le_of_head? {l : List UInt64} (hl : l.Pairwise (· < ·)) {m : UInt64}
    (h : l.head? = some m) : ∀ y ∈ l, m ≤ y := by
  obtain ⟨rest, rfl⟩ : ∃ rest, l = m :: rest := List.head?_eq_some_iff.mp h
  intro y hy
  rcases List.mem_cons.mp hy with rfl | hy
  · exact UInt64.le_refl _
  · exact UInt64.le_of_lt ((List.pairwise_cons.mp hl).1 y hy)

theorem le_of_getLast? {l : List UInt64} (hl : l.Pairwise (· < ·)) {m : UInt64}
    (h : l.getLast? = some m) : ∀ y ∈ l, y ≤ m := by
  obtain ⟨ys, rfl⟩ := List.getLast?_eq_some_iff.mp h
  intro y hy
  rcases List.mem_append.mp hy with hy | hy
  · exact UInt64.le_of_lt ((List.pairwise_append.mp hl).2.2 y hy m (List.mem_singleton_self m))
  · rw [List.mem_singleton.mp hy]
    exact UInt64.le_refl _

namespace SequenceSet

section Step

variable {ss : SequenceSet} {A : Finset UInt64}

theorem MinMax_of_ne_nil (hroot : ss.root ≠ .nil) :
    ss.MinMax = (minLoop ss.root 0, maxLoop ss.root 0) := by
  unfold MinMax
  split
  · contradiction
  · rfl

theorem State_of_ne_nil (hroot : ss.root ≠ .nil) :
    ss.State = (ss.MinMax.1, ss.MinMax.2, UInt64.ofNat ss.Size) := by
  unfold State
  split
  · contradiction
  · rfl

theorem Refines.blocks_ne_nil (h : Refines ss A) (hA : A.Nonempty) : blocks ss.root ≠ [] := by
  obtain ⟨x, hx⟩ := hA
  intro h0
  have := (h.mem_iff x).mpr hx
  rw [h0] at this
  simp at this

theorem Refines.root_ne_nil (h : Refines ss A) (hA : A.Nonempty) : ss.root ≠ .nil :=
  fun h0 => h.blocks_ne_nil hA (by rw [h0]; rfl)

theorem Refines.MinMax (h : Refines ss A) (hn : AllNonEmpty ss) (hA : A.Nonempty) :
    (ss.MinMax.1 ∈ A ∧ ∀ y ∈ A, ss.MinMax.1 ≤ y) ∧ (ss.MinMax.2 ∈ A ∧ ∀ y ∈ A, y ≤ ss.MinMax.2) := by
  have hne := h.blocks_ne_nil hA
  have hroot := h.root_ne_nil hA
  obtain ⟨c, cs, hcs⟩ := List.exists_cons_of_ne_nil hne
  obtain ⟨ds, d, hds⟩ := (List.eq_nil_or_concat (blocks ss.root)).resolve_left hne
  rw [List.concat_eq_append] at hds
  have hc : c.NonEmpty := hn c (by rw [hcs]; exact List.mem_cons_self ..)
  have hd : d.NonEmpty := hn d (by rw [hds]; simp)
  -- the sorted set begins with `min()` of the first node and ends with `max()` of the last
  have hfirst : (A.sort (· ≤ ·)).head? = some c.min := by
    rw [← h.members_eq, hcs, membersOf, List.flatMap_cons,
      List.head?_append_of_ne_nil _ (Cell.members_ne_nil hc), Cell.head?_members hc]
  have hlast : (A.sort (· ≤ ·)).getLast? = some d.max := by
    rw [← h.members_eq, hds, membersOf, List.flatMap_append, List.flatMap_singleton,
      List.getLast?_append, Cell.getLast?_members hd]
    rfl
  have hmin : ss.MinMax.1 = c.min := by
    rw [MinMax_of_ne_nil hroot, minLoop_eq, hcs]
    rfl
  have hmax : ss.MinMax.2 = d.max := by
    rw [MinMax_of_ne_nil hroot, maxLoop_eq, hds, List.getLast?_append]
    rfl
  have hmem : ∀ y, y ∈ A.sort (· ≤ ·) ↔ y ∈ A := fun y => Finset.mem_sort _
  refine ⟨⟨?_, ?_⟩, ⟨?_, ?_⟩⟩
  · rw [hmin, ← hmem]
    exact List.mem_of_mem_head? hfirst
  · intro y hy
    rw [hmin]
    exact le_of_head? (sort_pairwise_lt A) hfirst y ((hmem y).mpr hy)
  · rw [hmax, ← hmem]
    exact List.mem_of_getLast? hlast
  · intro y hy
    rw [hmax]
    exact le_of_getLast? (sort_pairwise_lt A) hlast y ((hmem y).mpr hy)

end Step

/-- Along every run of valid calls, `Range` calls the callback on the members in increasing
order, each once, until it answers `false`; along those without `SetInitialMin`, `MinMax` and
`State` give the least and the greatest member of a non-empty set. -/
theorem Range_MinMax_run (ops : List Op) (hops : ∀ op ∈ ops, op.Valid) (f : UInt64 → Bool) :
    (run step empty ops).Range f = (callUntil f ((run absStep ∅ ops).sort (· ≤ ·))).1 ∧
      ((∀ m, Op.setInitialMin m ∉ ops) → (run absStep ∅ ops).Nonempty →
        ((run step empty ops).MinMax.1 ∈ run absStep ∅ ops ∧
            ∀ y ∈ run absStep ∅ ops, (run step empty ops).MinMax.1 ≤ y) ∧
          ((run step empty ops).MinMax.2 ∈ run absStep ∅ ops ∧
            ∀ y ∈ run absStep ∅ ops, y ≤ (run step empty ops).MinMax.2) ∧
          (run step empty ops).State = ((run step empty ops).MinMax.1,
            (run step empty ops).MinMax.2, UInt64.ofNat (run absStep ∅ ops).card)) := by
  have hR : Refines (run step empty ops) (run absStep ∅ ops) :=
    run_simulation (f := step) (g := absStep) Op.Valid Refines (fun _ _ _ hv h => h.step hv)
      refines_empty ops hops
  refine ⟨hR.Range f, fun hno hA => ?_⟩
  -- without `SetInitialMin` no node is empty along the run
  have hfills : ∀ op ∈ ops, op.Fills := by
    intro op hop
    cases op with
    | insert x => exact hops _ hop
    | delete x => trivial
    | empty => trivial
    | setInitialMin m => exact hno m hop
  have hN : Refines (run step empty ops) (run absStep ∅ ops) ∧ AllNonEmpty (run step empty ops) :=
    run_simulation (f := step) (g := absStep) Op.Fills (fun ss A => Refines ss A ∧ AllNonEmpty ss)
      (fun _ _ _ hv h => ⟨h.1.step hv.valid, allNonEmpty_step h.1 h.2 hv⟩)
      ⟨refines_empty, by simp [AllNonEmpty, empty]⟩ ops hfills
  obtain ⟨hmin, hmax⟩ := hN.1.MinMax hN.2 hA
  refine ⟨hmin, hmax, ?_⟩
  rw [State_of_ne_nil (hN.1.root_ne_nil hA), Size, hN.1.size_eq]

theorem Range_MinMax_run_small :
    (∀ op ∈ [Op.insert 70, .insert 3, .delete 70, .insert 5000], op.Valid) ∧
      ((run step empty [.insert 70, .insert 3, .delete 70, .insert 5000]).Range (· < 10) =
          (callUntil (· < 10) ((run absStep ∅ [.insert 70, .insert 3, .delete 70, .insert 5000]).sort
            (· ≤ ·))).1 ∧
        ((∀ m, Op.setInitialMin m ∉ [Op.insert 70, .insert 3, .delete 70, .insert 5000]) →
          (run absStep ∅ [.insert 70, .insert 3, .delete 70, .insert 5000]).Nonempty →
          ((run step empty [.insert 70, .insert 3, .delete 70, .insert 5000]).MinMax.1 ∈
                run absStep ∅ [.insert 70, .insert 3, .delete 70, .insert 5000] ∧
              ∀ y ∈ run absStep ∅ [.insert 70, .insert 3, .delete 70, .insert 5000],
                (run step empty [.insert 70, .insert 3, .delete 70, .insert 5000]).MinMax.1 ≤ y) ∧
            ((run step empty [.insert 70, .insert 3, .delete 70, .insert 5000]).MinMax.2 ∈
                run absStep ∅ [.insert 70, .insert 3, .delete 70, .insert 5000] ∧
              ∀ y ∈ run absStep ∅ [.insert 70, .insert 3, .delete 70, .insert 5000],
                y ≤ (run step empty [.insert 70, .insert 3, .delete 70, .insert 5000]).MinMax.2) ∧
            (run step empty [.insert 70, .insert 3, .delete 70, .insert 5000]).State =
              ((run step empty [.insert 70, .insert 3, .delete 70, .insert 5000]).MinMax.1,
                (run step empty [.insert 70, .insert 3, .delete 70, .insert 5000]).MinMax.2,
                UInt64.ofNat (run absStep ∅ [.insert 70, .insert 3, .delete 70, .insert 5000]).card))) :=
  ⟨by decide, Range_MinMax_run _ (by decide) _⟩

/-- The node `SetInitialMin(2048)` makes stays empty below the node of 5000, and `MinMax` reads
`0` from it; with the unaligned minimum 1000, the node made for 3100 is based at 2048, overlaps
the first one, takes 2100 once it is the root, and `Range` meets 3000 before 2100. -/
theorem MinMax_empty_node :
    (run step empty [.setInitialMin 2048, .insert 5000]).MinMax = (0, 5000) ∧
      run absStep ∅ [.setInitialMin 2048, .insert 5000] = {5000} ∧
      (run step empty [.setInitialMin 1000, .insert 3000, .insert 3100, .insert 5000,
          .insert 2100]).Range (fun _ => true) = [3000, 2100, 3100, 5000] := by
  decide +kernel


end SequenceSet

end NatsServer.Avl
