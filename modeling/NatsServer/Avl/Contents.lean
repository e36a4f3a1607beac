import NatsServer.Avl.Blocks
import NatsServer.Lib.Bits

/-!
# What a node and a block list contain

A node covers the `numEntries` sequences from its base on, and holds those whose bit is set:
`Cell.Mem`. This module gives the bit operations of the source their meaning (`set` adds one
sequence, `clear` removes one, `exists` tests one, the zero scan of `clear` says the node is
empty) and then does the same for the walks of `Blocks`: on a block list with sorted, disjoint,
aligned ranges, `insertBlocks` adds `seq`, `deleteBlocks` removes it, `findBlocks` tests it,
and the flags they return say whether `seq` was there before.
-/

namespace NatsServer.Avl

open NatsServer.Lib

def bucketOf (off : Nat) : Fin numBuckets :=
  ⟨off / bitsPerBucket % numBuckets, Nat.mod_lt _ (by decide)⟩

def Cell.has (c : Cell) (off : Nat) : Bool := Bits.bit c.bits[bucketOf off] (off % bitsPerBucket)

def Cell.Covers (c : Cell) (x : UInt64) : Prop :=
  c.base.toNat ≤ x.toNat ∧ x.toNat < c.base.toNat + numEntries

def Cell.offset (c : Cell) (x : UInt64) : Nat := x.toNat - c.base.toNat

theorem Cell.offset_lt {c : Cell} {x : UInt64} (h : c.Covers x) : c.offset x < numEntries := by
  have := h.2
  simp only [Cell.offset, numEntries, numBuckets, bitsPerBucket] at *
  omega

theorem slot_of_covers {c : Cell} {x : UInt64} (h : c.Covers x) :
    ∃ s : UInt64, slot c.base x = (bucketOf (c.offset x), 1 <<< s) ∧
      s.toNat % 64 = c.offset x % bitsPerBucket := by
  obtain ⟨h1, h2⟩ := h
  have hsub : (x - c.base).toNat = x.toNat - c.base.toNat := by
    rw [UInt64.toNat_sub_of_le]
    exact UInt64.le_iff_toNat_le.mpr h1
  refine ⟨(x - c.base) % UInt64.ofNat bitsPerBucket, ?_, ?_⟩
  · simp only [slot, bucketOf, Cell.offset, Prod.mk.injEq, and_true]
    apply Fin.ext
    simp [UInt64.toNat_div, hsub, bitsPerBucket]
  · simp [UInt64.toNat_mod, hsub, Cell.offset, bitsPerBucket]

theorem offset_eq_iff {o o' : Nat} (ho : o < numEntries) (ho' : o' < numEntries) :
    o = o' ↔ bucketOf o = bucketOf o' ∧ o % bitsPerBucket = o' % bitsPerBucket := by
  simp only [bucketOf, Fin.mk.injEq, numEntries, numBuckets, bitsPerBucket] at *
  omega

theorem Cell.exists_eq_has {c : Cell} {x : UInt64} (h : c.Covers x) :
    c.exists x = c.has (c.offset x) := by
  obtain ⟨s, hslot, hs⟩ := slot_of_covers h
  simp only [Cell.exists, hslot, Cell.has]
  rw [← hs, Bool.eq_iff_iff, bne_iff_ne]
  exact Bits.and_one_shiftLeft_ne_zero _ _

theorem Cell.set_has {c : Cell} {x : UInt64} (h : c.Covers x) {o : Nat} (ho : o < numEntries) :
    (c.set x).1.has o = (c.has o || o == c.offset x) := by
  obtain ⟨s, hslot, hs⟩ := slot_of_covers h
  have hoff := c.offset_lt h
  simp only [Cell.set, hslot]
  have hiff := offset_eq_iff ho hoff
  split_ifs with hz
  · simp only [Cell.has, Fin.getElem_fin, Vector.getElem_set]
    by_cases hb : (bucketOf (c.offset x) : Nat) = bucketOf o
    · -- the bucket that changed
      have hb' : bucketOf o = bucketOf (c.offset x) := Fin.ext hb.symm
      have hlt : o % bitsPerBucket < 64 := Nat.mod_lt _ (by decide)
      rw [if_pos hb]
      simp only [hb', Bits.bit_or, Bits.bit_one_shiftLeft, hs]
      by_cases heq : o % bitsPerBucket = c.offset x % bitsPerBucket
      · have ho' : o = c.offset x := hiff.mpr ⟨hb', heq⟩
        subst ho'
        simp [hlt]
      · have ho' : o ≠ c.offset x := fun h' => heq (hiff.mp h').2
        rw [beq_false_of_ne heq, beq_false_of_ne ho']
        simp
    · -- any other bucket
      have ho' : o ≠ c.offset x := fun h' => hb (congrArg Fin.val (hiff.mp h').1).symm
      rw [if_neg hb]
      simp [ho']
  · -- the bit was already set
    have hset : c.has (c.offset x) = true := by
      have hne : c.bits[bucketOf (c.offset x)] &&& 1 <<< s ≠ 0 := by simpa using hz
      rw [Bits.and_one_shiftLeft_ne_zero, hs] at hne
      exact hne
    by_cases ho' : o = c.offset x
    · subst ho'; simp [hset]
    · simp [ho']

theorem Cell.slot_test {c : Cell} {x : UInt64} (h : c.Covers x) :
    (c.bits[(slot c.base x).1] &&& (slot c.base x).2 == 0) = !c.has (c.offset x) := by
  rw [← c.exists_eq_has h]
  simp [Cell.exists, bne]

theorem Cell.set_flag {c : Cell} {x : UInt64} (h : c.Covers x) :
    (c.set x).2 = !c.has (c.offset x) := by
  have ht := c.slot_test h
  simp only [Cell.set]
  split_ifs with hz <;> simp_all

theorem Cell.clear_flag {c : Cell} {x : UInt64} (h : c.Covers x) :
    (c.clear x).2.1 = c.has (c.offset x) := by
  have ht := c.slot_test h
  simp only [Cell.clear]
  split_ifs with hz <;> simp_all

theorem Cell.clear_has {c : Cell} {x : UInt64} (h : c.Covers x) {o : Nat} (ho : o < numEntries) :
    (c.clear x).1.has o = (c.has o && o != c.offset x) := by
  have ht := c.slot_test h
  obtain ⟨s, hslot, hs⟩ := slot_of_covers h
  have hoff := c.offset_lt h
  have hiff := offset_eq_iff ho hoff
  simp only [Cell.clear]
  split_ifs with hz
  · -- nothing was set: the node is unchanged and the bit of `x` is clear
    rw [hz] at ht
    have hclr : c.has (c.offset x) = false := by simpa using ht.symm
    by_cases ho' : o = c.offset x
    · subst ho'; simp [hclr]
    · simp [ho']
  · rw [hslot] at hz ⊢
    simp only [Cell.has, Fin.getElem_fin, Vector.getElem_set]
    by_cases hb : (bucketOf (c.offset x) : Nat) = bucketOf o
    · have hb' : bucketOf o = bucketOf (c.offset x) := Fin.ext hb.symm
      have hlt : o % bitsPerBucket < 64 := Nat.mod_lt _ (by decide)
      rw [if_pos hb]
      simp only [hb', Bits.bit_and_not, Bits.bit_one_shiftLeft, hs]
      by_cases heq : o % bitsPerBucket = c.offset x % bitsPerBucket
      · have ho' : o = c.offset x := hiff.mpr ⟨hb', heq⟩
        subst ho'
        simp [hlt]
      · have ho' : o ≠ c.offset x := fun h' => heq (hiff.mp h').2
        rw [beq_false_of_ne heq, bne_iff_ne.mpr ho']
        simp
    · have ho' : o ≠ c.offset x := fun h' => hb (congrArg Fin.val (hiff.mp h').1).symm
      rw [if_neg hb]
      simp [ho']

theorem Cell.all_zero_iff (c : Cell) :
    c.bits.all (· == 0) = true ↔ ∀ o < numEntries, c.has o = false := by
  rw [Vector.all_eq_true]
  constructor
  · intro hz o _
    have h0 : c.bits[bucketOf o] = 0 := by simpa using hz (bucketOf o).1 (bucketOf o).2
    simp [Cell.has, h0]
  · intro hno i hi
    rw [beq_iff_eq, Bits.eq_zero_iff]
    intro k hk
    have ho : 64 * i + k < numEntries := by
      simp only [numEntries, numBuckets, bitsPerBucket] at hi ⊢
      omega
    have hbk : bucketOf (64 * i + k) = ⟨i, hi⟩ := by
      apply Fin.ext
      simp only [bucketOf, bitsPerBucket, numBuckets] at hi ⊢
      omega
    have hmod : (64 * i + k) % bitsPerBucket = k := by
      simp only [bitsPerBucket]
      omega
    have := hno _ ho
    simpa [Cell.has, hbk, hmod] using this

theorem Cell.clear_empty {c : Cell} {x : UInt64} (h : c.Covers x) :
    (c.clear x).2.2 = true ↔
      c.has (c.offset x) = true ∧ ∀ o < numEntries, (c.clear x).1.has o = false := by
  have ht := c.slot_test h
  have hflag := c.clear_flag h
  simp only [Cell.clear] at hflag ⊢
  split_ifs with hz
  · simp_all
  · have hz' : (c.bits[(slot c.base x).1] &&& (slot c.base x).2 == 0) = false := by simpa using hz
    rw [hz'] at ht
    have hset : c.has (c.offset x) = true := by simpa using ht.symm
    simp only [hset, true_and]
    exact Cell.all_zero_iff ⟨c.base, _, c.h⟩

/-! ## The sequences a node holds -/

def Cell.Mem (c : Cell) (x : UInt64) : Prop := c.Covers x ∧ c.has (c.offset x) = true

def Cell.NonEmpty (c : Cell) : Prop := ∃ o < numEntries, c.has o = true

@[simp] theorem Cell.set_base (c : Cell) (x : UInt64) : (c.set x).1.base = c.base := by
  simp only [Cell.set]
  split_ifs <;> rfl

@[simp] theorem Cell.clear_base (c : Cell) (x : UInt64) : (c.clear x).1.base = c.base := by
  simp only [Cell.clear]
  split_ifs <;> rfl

theorem Cell.covers_of_not_lt {c : Cell} {x : UInt64} (hlt : ¬ x < c.base) (hge : ¬ x ≥ c.top) :
    c.Covers x := by
  rw [UInt64.lt_iff_toNat_lt] at hlt
  rw [ge_iff_le, UInt64.le_iff_toNat_le] at hge
  simp only [Cell.top, UInt64.toNat_add, UInt64.toNat_ofNat'] at hge
  have hb := c.base.toNat_lt
  simp only [Cell.Covers, numEntries, numBuckets, bitsPerBucket] at hge ⊢
  omega

theorem Cell.offset_inj {c : Cell} {x y : UInt64} (hx : c.Covers x) (hy : c.Covers y) :
    c.offset y = c.offset x ↔ y = x := by
  rw [← UInt64.toNat_inj]
  simp only [Cell.offset, Cell.Covers] at hx hy ⊢
  omega

/-! Range and offsets depend on the base alone, which `set` and `clear` keep. -/

@[simp] theorem Cell.set_covers {c : Cell} {x y : UInt64} : (c.set x).1.Covers y ↔ c.Covers y := by
  simp [Cell.Covers]

@[simp] theorem Cell.set_offset {c : Cell} {x y : UInt64} : (c.set x).1.offset y = c.offset y := by
  simp [Cell.offset]

@[simp] theorem Cell.clear_covers {c : Cell} {x y : UInt64} :
    (c.clear x).1.Covers y ↔ c.Covers y := by
  simp [Cell.Covers]

@[simp] theorem Cell.clear_offset {c : Cell} {x y : UInt64} :
    (c.clear x).1.offset y = c.offset y := by
  simp [Cell.offset]

theorem Cell.set_mem {c : Cell} {x y : UInt64} (hx : c.Covers x) :
    (c.set x).1.Mem y ↔ c.Mem y ∨ y = x := by
  simp only [Cell.Mem, Cell.set_covers, Cell.set_offset]
  constructor
  · rintro ⟨hy, hhas⟩
    rw [Cell.set_has hx (c.offset_lt hy)] at hhas
    simp only [Bool.or_eq_true, beq_iff_eq, c.offset_inj hx hy] at hhas
    exact hhas.imp (fun h => ⟨hy, h⟩) id
  · rintro (⟨hy, hhas⟩ | rfl)
    · exact ⟨hy, by rw [Cell.set_has hx (c.offset_lt hy), hhas, Bool.true_or]⟩
    · exact ⟨hx, by rw [Cell.set_has hx (c.offset_lt hx)]; simp⟩

theorem Cell.clear_mem {c : Cell} {x y : UInt64} (hx : c.Covers x) :
    (c.clear x).1.Mem y ↔ c.Mem y ∧ y ≠ x := by
  simp only [Cell.Mem, Cell.clear_covers, Cell.clear_offset]
  constructor
  · rintro ⟨hy, hhas⟩
    rw [Cell.clear_has hx (c.offset_lt hy)] at hhas
    simp only [Bool.and_eq_true, bne_iff_ne, ne_eq, c.offset_inj hx hy] at hhas
    exact ⟨⟨hy, hhas.1⟩, hhas.2⟩
  · rintro ⟨⟨hy, hhas⟩, hne⟩
    refine ⟨hy, ?_⟩
    rw [Cell.clear_has hx (c.offset_lt hy), hhas, Bool.true_and, bne_iff_ne, ne_eq,
      c.offset_inj hx hy]
    exact hne

theorem Cell.mem_of_clear_empty {c : Cell} {x y : UInt64} (hx : c.Covers x)
    (he : (c.clear x).2.2 = true) (hy : c.Mem y) : y = x := by
  obtain ⟨-, hnone⟩ := (Cell.clear_empty hx).mp he
  have hclr := hnone _ (c.offset_lt hy.1)
  rw [Cell.clear_has hx (c.offset_lt hy.1), hy.2, Bool.true_and, bne_eq_false_iff_eq] at hclr
  exact (c.offset_inj hx hy.1).mp hclr

theorem Cell.clear_eq_self {c : Cell} {x : UInt64} (hd : (c.clear x).2.1 = false) :
    (c.clear x).1 = c := by
  simp only [Cell.clear] at hd ⊢
  split_ifs at hd ⊢
  rfl

theorem Cell.clear_empty_eq (c : Cell) (x : UInt64) :
    (c.clear x).2.2 = ((c.clear x).2.1 && (c.clear x).1.bits.all (· == 0)) := by
  simp only [Cell.clear]
  split_ifs <;> rfl

theorem Cell.clear_nonEmpty {c : Cell} {x : UInt64} (hc : c.NonEmpty)
    (he : (c.clear x).2.2 = false) : (c.clear x).1.NonEmpty := by
  cases hd : (c.clear x).2.1
  · rw [Cell.clear_eq_self hd]
    exact hc
  · -- a bit was cleared and the scan found a non-zero bucket
    rw [Cell.clear_empty_eq, hd, Bool.true_and] at he
    have hnz : ¬ ∀ o < numEntries, (c.clear x).1.has o = false := by
      rw [← Cell.all_zero_iff, he]
      simp
    push Not at hnz
    obtain ⟨o, ho, hhas⟩ := hnz
    exact ⟨o, ho, by simpa using hhas⟩

/-! ## The node `insert` creates -/

theorem numEntries_eq : numEntries = 2048 := rfl

theorem freshCell_base_toNat (x : UInt64) :
    (freshCell x).base.toNat = x.toNat / numEntries * numEntries := by
  have hx := x.toNat_lt
  have hN : (UInt64.ofNat 2048).toNat = 2048 := rfl
  simp only [freshCell, numEntries_eq, UInt64.toNat_mul, UInt64.toNat_div, hN]
  omega

theorem freshCell_covers (x : UInt64) : (freshCell x).Covers x := by
  simp only [Cell.Covers, freshCell_base_toNat, numEntries_eq]
  omega

theorem freshCell_has (x : UInt64) (o : Nat) : (freshCell x).has o = false := by
  simp [freshCell, Cell.has, zeroBits]

theorem freshCell_set_mem (x y : UInt64) : ((freshCell x).set x).1.Mem y ↔ y = x := by
  rw [Cell.set_mem (freshCell_covers x)]
  simp [Cell.Mem, freshCell_has]

theorem freshCell_set_flag (x : UInt64) : ((freshCell x).set x).2 = true := by
  rw [Cell.set_flag (freshCell_covers x), freshCell_has, Bool.not_false]

theorem Cell.set_nonEmpty {c : Cell} {x : UInt64} (hx : c.Covers x) : (c.set x).1.NonEmpty :=
  ⟨c.offset x, c.offset_lt hx, by simpa using ((c.set_mem hx).mpr (.inr rfl)).2⟩

/-! ## What a block list holds -/

def MemBlocks (cs : List Cell) (x : UInt64) : Prop := ∃ c ∈ cs, c.Mem x

@[simp] theorem memBlocks_nil (x : UInt64) : ¬ MemBlocks [] x := by simp [MemBlocks]

@[simp] theorem memBlocks_cons {c : Cell} {cs : List Cell} {x : UInt64} :
    MemBlocks (c :: cs) x ↔ c.Mem x ∨ MemBlocks cs x := by
  simp [MemBlocks]

/-- A block list a set can hold: ranges sorted and disjoint, bases multiples of `numEntries`.
`SetInitialMin` with an aligned minimum keeps this, although its node is empty. -/
structure WellFormed (cs : List Cell) : Prop where
  ordered : Ordered cs
  aligned : ∀ c ∈ cs, c.base.toNat % numEntries = 0

theorem WellFormed.cons {c : Cell} {cs : List Cell} (hw : WellFormed (c :: cs)) :
    WellFormed cs :=
  ⟨hw.ordered.cons, fun d hd => hw.aligned d (List.mem_cons_of_mem _ hd)⟩

theorem WellFormed.cons_of_below {c : Cell} {cs : List Cell} (hw : WellFormed cs)
    (hfit : c.base.toNat + numEntries < 2 ^ 64) (hal : c.base.toNat % numEntries = 0)
    (hbelow : ∀ d ∈ cs, c.base.toNat + numEntries ≤ d.base.toNat) :
    WellFormed (c :: cs) := by
  refine ⟨⟨List.pairwise_cons.mpr ⟨hbelow, hw.ordered.1⟩, ?_⟩, ?_⟩
  · intro d hd
    rcases List.mem_cons.mp hd with rfl | hd
    · exact hfit
    · exact hw.ordered.2 d hd
  · intro d hd
    rcases List.mem_cons.mp hd with rfl | hd
    · exact hal
    · exact hw.aligned d hd

theorem Ordered.not_mem_tail {c : Cell} {cs : List Cell} {x : UInt64} (ho : Ordered (c :: cs))
    (hx : x.toNat < c.base.toNat + numEntries) : ¬ MemBlocks cs x := by
  rintro ⟨d, hd, hcov, -⟩
  have hsep := (List.pairwise_cons.mp ho.1).1 d hd
  exact absurd hcov.1 (by omega)

theorem Ordered.not_mem_of_lt {c : Cell} {cs : List Cell} {x : UInt64} (ho : Ordered (c :: cs))
    (hx : x < c.base) : ¬ MemBlocks (c :: cs) x := by
  rw [UInt64.lt_iff_toNat_lt] at hx
  rw [memBlocks_cons, not_or]
  exact ⟨fun h => absurd h.1.1 (by omega), ho.not_mem_tail (by omega)⟩

theorem not_mem_of_ge_top {c : Cell} {x : UInt64} (hfit : c.base.toNat + numEntries < 2 ^ 64)
    (hge : x ≥ c.top) : ¬ c.Mem x := by
  rw [ge_top_iff hfit] at hge
  exact fun h => absurd h.1.2 (by omega)

theorem Ordered.cons_of_base {c c' : Cell} {cs : List Cell} (ho : Ordered (c :: cs))
    (hb : c'.base = c.base) : Ordered (c' :: cs) := by
  obtain ⟨hp, hfit⟩ := ho
  rw [List.pairwise_cons] at hp
  refine ⟨List.pairwise_cons.mpr ⟨fun d hd => hb ▸ hp.1 d hd, hp.2⟩, ?_⟩
  intro d hd
  rcases List.mem_cons.mp hd with rfl | hd
  · exact hb ▸ hfit c (List.mem_cons_self ..)
  · exact hfit d (List.mem_cons_of_mem _ hd)

theorem WellFormed.cons_of_base {c c' : Cell} {cs : List Cell} (hw : WellFormed (c :: cs))
    (hb : c'.base = c.base) : WellFormed (c' :: cs) := by
  refine ⟨hw.ordered.cons_of_base hb, ?_⟩
  intro d hd
  rcases List.mem_cons.mp hd with rfl | hd
  · rw [hb]; exact hw.aligned c (List.mem_cons_self ..)
  · exact hw.aligned d (List.mem_cons_of_mem _ hd)

/-! ## The walks on a block list

Each proof is an induction on the list whose step splits on the walk's two comparisons. The
flags and lengths need no invariant; which sequences the list holds afterwards needs the
ranges sorted, and keeping the invariant needs `seq` below the top block, whose upper end
would wrap around. -/

theorem findBlocks_iff {cs : List Cell} {x : UInt64} (ho : Ordered cs) :
    findBlocks cs x = true ↔ MemBlocks cs x := by
  induction cs with
  | nil => simp
  | cons c cs ih =>
    have hfit := ho.2 c (List.mem_cons_self ..)
    by_cases hlt : x < c.base
    · rw [findBlocks_of_lt hlt]
      simpa using ho.not_mem_of_lt hlt
    by_cases hge : x ≥ c.top
    · rw [findBlocks_of_ge hlt hge, ih ho.cons, memBlocks_cons]
      simp [not_mem_of_ge_top hfit hge]
    · have hcov := c.covers_of_not_lt hlt hge
      rw [findBlocks_of_covers hlt hge, c.exists_eq_has hcov, memBlocks_cons]
      have htail := ho.not_mem_tail (x := x) hcov.2
      simp [Cell.Mem, hcov, htail]

theorem insertBlocks_flag (cs : List Cell) (x : UInt64) :
    (insertBlocks cs x).2.1 = !findBlocks cs x := by
  induction cs with
  | nil => simp [freshCell_set_flag]
  | cons c cs ih =>
    by_cases hlt : x < c.base
    · simp [insertBlocks_of_lt hlt, findBlocks_of_lt hlt, freshCell_set_flag]
    by_cases hge : x ≥ c.top
    · rw [insertBlocks_of_ge hlt hge, findBlocks_of_ge hlt hge]
      exact ih
    · have hcov := c.covers_of_not_lt hlt hge
      rw [insertBlocks_of_covers hlt hge, findBlocks_of_covers hlt hge, c.set_flag hcov,
        c.exists_eq_has hcov]

theorem length_insertBlocks (cs : List Cell) (x : UInt64) :
    (insertBlocks cs x).1.length = cs.length + (insertBlocks cs x).2.2.toNat := by
  induction cs with
  | nil => rfl
  | cons c cs ih =>
    by_cases hlt : x < c.base
    · simp [insertBlocks_of_lt hlt]
    by_cases hge : x ≥ c.top
    · simp only [insertBlocks_of_ge hlt hge, List.length_cons, ih]
      omega
    · simp [insertBlocks_of_covers hlt hge]

theorem mem_insertBlocks (cs : List Cell) (x y : UInt64) :
    MemBlocks (insertBlocks cs x).1 y ↔ MemBlocks cs y ∨ y = x := by
  induction cs with
  | nil => simp [freshCell_set_mem]
  | cons c cs ih =>
    by_cases hlt : x < c.base
    · rw [insertBlocks_of_lt hlt, memBlocks_cons, freshCell_set_mem]
      exact or_comm
    by_cases hge : x ≥ c.top
    · rw [insertBlocks_of_ge hlt hge, memBlocks_cons, ih, memBlocks_cons]
      exact or_assoc.symm
    · rw [insertBlocks_of_covers hlt hge, memBlocks_cons, memBlocks_cons,
        c.set_mem (c.covers_of_not_lt hlt hge)]
      exact or_right_comm

theorem mem_insertBlocks_cases {cs : List Cell} {x : UInt64} {d : Cell}
    (hd : d ∈ (insertBlocks cs x).1) :
    d ∈ cs ∨ (∃ c ∈ cs, c.Covers x ∧ d = (c.set x).1) ∨ d = ((freshCell x).set x).1 := by
  induction cs with
  | nil =>
    rw [insertBlocks_nil, List.mem_singleton] at hd
    exact .inr (.inr hd)
  | cons c cs ih =>
    by_cases hlt : x < c.base
    · rw [insertBlocks_of_lt hlt] at hd
      rcases List.mem_cons.mp hd with rfl | hd
      · exact .inr (.inr rfl)
      · exact .inl hd
    by_cases hge : x ≥ c.top
    · rw [insertBlocks_of_ge hlt hge] at hd
      rcases List.mem_cons.mp hd with rfl | hd
      · exact .inl (List.mem_cons_self ..)
      · rcases ih hd with hd | ⟨e, he, hcov, rfl⟩ | rfl
        · exact .inl (List.mem_cons_of_mem _ hd)
        · exact .inr (.inl ⟨e, List.mem_cons_of_mem _ he, hcov, rfl⟩)
        · exact .inr (.inr rfl)
    · rw [insertBlocks_of_covers hlt hge] at hd
      rcases List.mem_cons.mp hd with rfl | hd
      · exact .inr (.inl ⟨c, List.mem_cons_self .., c.covers_of_not_lt hlt hge, rfl⟩)
      · exact .inl (List.mem_cons_of_mem _ hd)

theorem base_mem_insertBlocks {cs : List Cell} {x : UInt64} {d : Cell}
    (hd : d ∈ (insertBlocks cs x).1) :
    (∃ e ∈ cs, d.base = e.base) ∨ d.base = (freshCell x).base := by
  rcases mem_insertBlocks_cases hd with hd | ⟨c, hc, -, rfl⟩ | rfl
  · exact .inl ⟨d, hd, rfl⟩
  · exact .inl ⟨c, hc, Cell.set_base ..⟩
  · exact .inr (Cell.set_base ..)

theorem insertBlocks_nonEmpty {cs : List Cell} {x : UInt64} (hne : ∀ c ∈ cs, c.NonEmpty) :
    ∀ d ∈ (insertBlocks cs x).1, d.NonEmpty := by
  intro d hd
  rcases mem_insertBlocks_cases hd with hd | ⟨c, -, hcov, rfl⟩ | rfl
  · exact hne d hd
  · exact c.set_nonEmpty hcov
  · exact (freshCell x).set_nonEmpty (freshCell_covers x)

section Fresh

variable {x : UInt64} (hx : x.toNat + numEntries < 2 ^ 64)
include hx

theorem freshCell_fit : (freshCell x).base.toNat + numEntries < 2 ^ 64 := by
  rw [freshCell_base_toNat]
  have := Nat.div_mul_le_self x.toNat numEntries
  omega

theorem insertBlocks_wellFormed {cs : List Cell} (hw : WellFormed cs) :
    WellFormed (insertBlocks cs x).1 := by
  have hB : (freshCell x).base.toNat = x.toNat / 2048 * 2048 := freshCell_base_toNat x
  have hfit := freshCell_fit hx
  have hal : ((freshCell x).set x).1.base.toNat % numEntries = 0 := by
    rw [Cell.set_base, hB, numEntries_eq]
    omega
  induction cs with
  | nil =>
    rw [insertBlocks_nil]
    exact WellFormed.cons_of_below ⟨⟨.nil, by simp⟩, by simp⟩ (by rwa [Cell.set_base]) hal
      (by simp)
  | cons c cs ih =>
    have hc := hw.aligned c (List.mem_cons_self ..)
    rw [numEntries_eq] at hc
    by_cases hlt : x < c.base
    · -- the new block goes in front: it ends at or below the aligned base of `c`
      rw [insertBlocks_of_lt hlt]
      rw [UInt64.lt_iff_toNat_lt] at hlt
      refine hw.cons_of_below (by rwa [Cell.set_base]) hal ?_
      intro d hd
      rw [Cell.set_base, hB, numEntries_eq]
      rcases List.mem_cons.mp hd with rfl | hd
      · omega
      · have := (List.pairwise_cons.mp hw.ordered.1).1 d hd
        rw [numEntries_eq] at this
        omega
    by_cases hge : x ≥ c.top
    · -- the walk goes on behind `c`; a new block lies past the aligned upper end of `c`
      have hcfit := hw.ordered.2 c (List.mem_cons_self ..)
      rw [insertBlocks_of_ge hlt hge]
      rw [ge_top_iff hcfit, numEntries_eq] at hge
      refine (ih hw.cons).cons_of_below hcfit (hw.aligned c (List.mem_cons_self ..)) ?_
      intro d hd
      rcases base_mem_insertBlocks hd with ⟨e, he, hb⟩ | hb
      · rw [hb]
        exact (List.pairwise_cons.mp hw.ordered.1).1 e he
      · rw [hb, hB, numEntries_eq]
        omega
    · -- the bit goes into `c`, whose base stays
      rw [insertBlocks_of_covers hlt hge]
      exact hw.cons_of_base (Cell.set_base ..)

end Fresh

theorem deleteBlocks_flag (cs : List Cell) (x : UInt64) :
    (deleteBlocks cs x).2.1 = findBlocks cs x := by
  induction cs with
  | nil => rfl
  | cons c cs ih =>
    by_cases hlt : x < c.base
    · rw [deleteBlocks_of_lt hlt, findBlocks_of_lt hlt]
    by_cases hge : x ≥ c.top
    · rw [deleteBlocks_of_ge hlt hge, findBlocks_of_ge hlt hge]
      exact ih
    · have hcov := c.covers_of_not_lt hlt hge
      rw [findBlocks_of_covers hlt hge, c.exists_eq_has hcov, ← c.clear_flag hcov]
      cases he : (c.clear x).2.2
      · rw [deleteBlocks_of_nonempty hlt hge he]
      · rw [deleteBlocks_of_empty hlt hge he]

theorem deleteBlocks_gone (cs : List Cell) (x : UInt64) (h : (deleteBlocks cs x).2.2 = true) :
    (deleteBlocks cs x).2.1 = true := by
  induction cs with
  | nil => cases h
  | cons c cs ih =>
    by_cases hlt : x < c.base
    · rw [deleteBlocks_of_lt hlt] at h
      cases h
    by_cases hge : x ≥ c.top
    · rw [deleteBlocks_of_ge hlt hge] at h ⊢
      exact ih h
    · have hcov := c.covers_of_not_lt hlt hge
      cases he : (c.clear x).2.2
      · rw [deleteBlocks_of_nonempty hlt hge he] at h
        cases h
      · rw [deleteBlocks_of_empty hlt hge he, c.clear_flag hcov]
        exact ((Cell.clear_empty hcov).mp he).1

theorem length_deleteBlocks (cs : List Cell) (x : UInt64) :
    (deleteBlocks cs x).1.length + (deleteBlocks cs x).2.2.toNat = cs.length := by
  induction cs with
  | nil => rfl
  | cons c cs ih =>
    by_cases hlt : x < c.base
    · simp [deleteBlocks_of_lt hlt]
    by_cases hge : x ≥ c.top
    · simp only [deleteBlocks_of_ge hlt hge, List.length_cons]
      omega
    · cases he : (c.clear x).2.2
      · simp [deleteBlocks_of_nonempty hlt hge he]
      · simp [deleteBlocks_of_empty hlt hge he]

theorem mem_deleteBlocks_cases {cs : List Cell} {x : UInt64} {d : Cell}
    (hd : d ∈ (deleteBlocks cs x).1) :
    d ∈ cs ∨ ∃ c ∈ cs, (c.clear x).2.2 = false ∧ d = (c.clear x).1 := by
  induction cs with
  | nil => simp at hd
  | cons c cs ih =>
    by_cases hlt : x < c.base
    · rw [deleteBlocks_of_lt hlt] at hd
      exact .inl hd
    by_cases hge : x ≥ c.top
    · rw [deleteBlocks_of_ge hlt hge] at hd
      rcases List.mem_cons.mp hd with rfl | hd
      · exact .inl (List.mem_cons_self ..)
      · rcases ih hd with hd | ⟨e, he, hne, rfl⟩
        · exact .inl (List.mem_cons_of_mem _ hd)
        · exact .inr ⟨e, List.mem_cons_of_mem _ he, hne, rfl⟩
    cases he : (c.clear x).2.2
    · rw [deleteBlocks_of_nonempty hlt hge he] at hd
      rcases List.mem_cons.mp hd with rfl | hd
      · exact .inr ⟨c, List.mem_cons_self .., he, rfl⟩
      · exact .inl (List.mem_cons_of_mem _ hd)
    · rw [deleteBlocks_of_empty hlt hge he] at hd
      exact .inl (List.mem_cons_of_mem _ hd)

theorem base_mem_deleteBlocks {cs : List Cell} {x : UInt64} {d : Cell}
    (hd : d ∈ (deleteBlocks cs x).1) : ∃ e ∈ cs, d.base = e.base := by
  rcases mem_deleteBlocks_cases hd with hd | ⟨c, hc, -, rfl⟩
  · exact ⟨d, hd, rfl⟩
  · exact ⟨c, hc, Cell.clear_base ..⟩

theorem deleteBlocks_nonEmpty {cs : List Cell} {x : UInt64} (hne : ∀ c ∈ cs, c.NonEmpty) :
    ∀ d ∈ (deleteBlocks cs x).1, d.NonEmpty := by
  intro d hd
  rcases mem_deleteBlocks_cases hd with hd | ⟨c, hc, he, rfl⟩
  · exact hne d hd
  · exact Cell.clear_nonEmpty (hne c hc) he

theorem mem_deleteBlocks {cs : List Cell} {x : UInt64} (ho : Ordered cs) (y : UInt64) :
    MemBlocks (deleteBlocks cs x).1 y ↔ MemBlocks cs y ∧ y ≠ x := by
  induction cs with
  | nil => simp
  | cons c cs ih =>
    have hfit := ho.2 c (List.mem_cons_self ..)
    by_cases hlt : x < c.base
    · -- `x` is below every block, so it is not held
      have hnot := ho.not_mem_of_lt hlt
      rw [deleteBlocks_of_lt hlt]
      exact ⟨fun h => ⟨h, by rintro rfl; exact hnot h⟩, And.left⟩
    by_cases hge : x ≥ c.top
    · have hc := not_mem_of_ge_top hfit hge
      rw [deleteBlocks_of_ge hlt hge, memBlocks_cons, ih ho.cons, memBlocks_cons]
      constructor
      · rintro (h | ⟨h, hne⟩)
        · exact ⟨.inl h, by rintro rfl; exact hc h⟩
        · exact ⟨.inr h, hne⟩
      · rintro ⟨h | h, hne⟩
        · exact .inl h
        · exact .inr ⟨h, hne⟩
    have hcov := c.covers_of_not_lt hlt hge
    have htail := ho.not_mem_tail (x := x) hcov.2
    cases he : (c.clear x).2.2
    · rw [deleteBlocks_of_nonempty hlt hge he, memBlocks_cons, memBlocks_cons, c.clear_mem hcov]
      constructor
      · rintro (⟨h, hne⟩ | h)
        · exact ⟨.inl h, hne⟩
        · exact ⟨.inr h, by rintro rfl; exact htail h⟩
      · rintro ⟨h | h, hne⟩
        · exact .inl ⟨h, hne⟩
        · exact .inr h
    · -- the node held `x` alone and goes
      rw [deleteBlocks_of_empty hlt hge he, memBlocks_cons]
      constructor
      · exact fun h => ⟨.inr h, by rintro rfl; exact htail h⟩
      · rintro ⟨h | h, hne⟩
        · exact absurd (c.mem_of_clear_empty hcov he h) hne
        · exact h

theorem deleteBlocks_wellFormed {cs : List Cell} {x : UInt64} (hw : WellFormed cs) :
    WellFormed (deleteBlocks cs x).1 := by
  induction cs with
  | nil => exact hw
  | cons c cs ih =>
    by_cases hlt : x < c.base
    · rw [deleteBlocks_of_lt hlt]
      exact hw
    by_cases hge : x ≥ c.top
    · rw [deleteBlocks_of_ge hlt hge]
      refine (ih hw.cons).cons_of_below (hw.ordered.2 c (List.mem_cons_self ..))
        (hw.aligned c (List.mem_cons_self ..)) ?_
      intro d hd
      obtain ⟨e, he, hb⟩ := base_mem_deleteBlocks hd
      rw [hb]
      exact (List.pairwise_cons.mp hw.ordered.1).1 e he
    cases he : (c.clear x).2.2
    · rw [deleteBlocks_of_nonempty hlt hge he]
      exact hw.cons_of_base (Cell.clear_base ..)
    · rw [deleteBlocks_of_empty hlt hge he]
      exact hw.cons

end NatsServer.Avl
