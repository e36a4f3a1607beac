import NatsServer.Avl.SeqSet

/-!
# The tree operations as walks along the sorted list of nodes

A search tree is a sorted list with a faster way in. `blocks t` is the in-order list of the
nodes of `t` with their heights forgotten; when the node ranges are sorted and disjoint, every
search of the source (`Insert`, its fast path, `Exists`, `Delete`) is a left-to-right walk along
that list that skips the blocks below `seq` and stops at the first block not below it. The
walks are `insertBlocks`, `setBlocks`, `findBlocks` and `deleteBlocks`, and the main lemmas of
this module say that each tree operation changes `blocks` as its walk does. Rotations and
rebalancing leave `blocks` unchanged, which is where the AVL surgery stops mattering.
-/

namespace NatsServer.Avl

open NatsServer.Lib

def Cell.top (c : Cell) : UInt64 := c.base + UInt64.ofNat numEntries

def Cell.eraseH (c : Cell) : Cell := { c with h := 0 }

@[simp] theorem Cell.eraseH_base (c : Cell) : c.eraseH.base = c.base := rfl
@[simp] theorem Cell.eraseH_bits (c : Cell) : c.eraseH.bits = c.bits := rfl
@[simp] theorem Cell.eraseH_top (c : Cell) : c.eraseH.top = c.top := rfl

theorem Cell.set_eraseH (c : Cell) (seq : UInt64) :
    (c.eraseH.set seq) = ((c.set seq).1.eraseH, (c.set seq).2) := by
  rcases hs : slot c.base seq with ⟨i, mask⟩
  simp only [Cell.set, Cell.eraseH, hs]
  split_ifs <;> rfl

theorem Cell.clear_eraseH (c : Cell) (seq : UInt64) :
    (c.eraseH.clear seq) = ((c.clear seq).1.eraseH, (c.clear seq).2) := by
  rcases hs : slot c.base seq with ⟨i, mask⟩
  simp only [Cell.clear, Cell.eraseH, hs]
  split_ifs <;> rfl

theorem Cell.exists_eraseH (c : Cell) (seq : UInt64) : c.eraseH.exists seq = c.exists seq := rfl

def blocks (t : Node) : List Cell := t.inorder.map Cell.eraseH

@[simp] theorem blocks_nil : blocks .nil = [] := rfl

@[simp] theorem blocks_node (l r : Node) (c : Cell) :
    blocks (.node l c r) = blocks l ++ c.eraseH :: blocks r := by
  simp [blocks]

theorem length_blocks (t : Node) : (blocks t).length = t.size := by
  simp [blocks, BTree.length_inorder]

/-! ## Rebalancing does not move a block -/

@[simp] theorem blocks_fixH (t : Node) : blocks (fixH t) = blocks t := by
  cases t with
  | nil => rfl
  | node l c r => simp [fixH, Cell.eraseH]

theorem blocks_rotateL_node {l r : Node} {c : Cell} (hr : r ≠ .nil) :
    blocks (rotateL (.node l c r)) = blocks (.node l c r) := by
  cases r with
  | nil => exact absurd rfl hr
  | node rl rc rr => simp [rotateL]

theorem blocks_rotateR_node {l r : Node} {c : Cell} (hl : l ≠ .nil) :
    blocks (rotateR (.node l c r)) = blocks (.node l c r) := by
  cases l with
  | nil => exact absurd rfl hl
  | node ll lc lr => simp [rotateR]

theorem rotateL_ne_nil {l r : Node} {c : Cell} (hr : r ≠ .nil) : rotateL (.node l c r) ≠ .nil := by
  cases r with
  | nil => exact absurd rfl hr
  | node rl rc rr => simp [rotateL, fixH]

theorem rotateR_ne_nil {l r : Node} {c : Cell} (hl : l ≠ .nil) : rotateR (.node l c r) ≠ .nil := by
  cases l with
  | nil => exact absurd rfl hl
  | node ll lc lr => simp [rotateR, fixH]

/-! A balance factor outside `[-1, 1]` needs a child of height at least two, and a negative
(positive) factor needs a right (left) child, because stored heights are natural numbers: so
the rotations of `rebalance` always have the child they rotate about. -/

theorem left_ne_nil_of_balanceF_pos {l r : Node} {c : Cell} (h : 0 < balanceF (.node l c r)) :
    l ≠ .nil := by
  rintro rfl
  simp [balanceF, hOf] at h
  omega

theorem right_ne_nil_of_balanceF_neg {l r : Node} {c : Cell} (h : balanceF (.node l c r) < 0) :
    r ≠ .nil := by
  rintro rfl
  simp [balanceF, hOf] at h
  omega

theorem node_of_balanceF_ne_zero {t : Node} (h : balanceF t ≠ 0) :
    ∃ l c r, t = .node l c r := by
  cases t with
  | nil => exact absurd rfl h
  | node l c r => exact ⟨l, c, r, rfl⟩

theorem blocks_rotateL_of_neg {t : Node} (h : balanceF t < 0) :
    blocks (rotateL t) = blocks t ∧ rotateL t ≠ .nil := by
  obtain ⟨l, c, r, rfl⟩ := node_of_balanceF_ne_zero h.ne
  have hr := right_ne_nil_of_balanceF_neg h
  exact ⟨blocks_rotateL_node hr, rotateL_ne_nil hr⟩

theorem blocks_rotateR_of_pos {t : Node} (h : 0 < balanceF t) :
    blocks (rotateR t) = blocks t ∧ rotateR t ≠ .nil := by
  obtain ⟨l, c, r, rfl⟩ := node_of_balanceF_ne_zero h.ne'
  have hl := left_ne_nil_of_balanceF_pos h
  exact ⟨blocks_rotateR_node hl, rotateR_ne_nil hl⟩

@[simp] theorem blocks_rebalance (t : Node) : blocks (rebalance t) = blocks t := by
  match t with
  | .nil => rfl
  | .node l c r =>
    simp only [rebalance]
    split_ifs with hpos hl hneg hr
    · -- double rotation, left then right
      obtain ⟨hrot, hne⟩ := blocks_rotateL_of_neg hl
      rw [blocks_rotateR_node hne, blocks_node, hrot, blocks_node]
    · rw [blocks_rotateR_node (left_ne_nil_of_balanceF_pos (show 0 < balanceF (.node l c r) by omega))]
    · -- double rotation, right then left
      obtain ⟨hrot, hne⟩ := blocks_rotateR_of_pos hr
      rw [blocks_rotateL_node hne, blocks_node, hrot, blocks_node]
    · rw [blocks_rotateL_node (right_ne_nil_of_balanceF_neg (show balanceF (.node l c r) < 0 by omega))]
    · rfl

theorem blocks_insertNodePrev (n nn : Node) :
    blocks (insertNodePrev n nn) = blocks nn ++ blocks n := by
  induction n with
  | nil => simp [insertNodePrev]
  | node l c r ihl _ => simp [insertNodePrev, ihl]

theorem blocks_graft (l r : Node) : blocks (graft l r) = blocks l ++ blocks r := by
  rcases l with _ | ⟨ll, lc, lr⟩ <;> rcases r with _ | ⟨rl, rc, rr⟩ <;>
    simp [graft, blocks_insertNodePrev]

/-! ## Sorted, disjoint node ranges -/

def Ordered (cs : List Cell) : Prop :=
  cs.Pairwise (fun a b => a.base.toNat + numEntries ≤ b.base.toNat) ∧
    ∀ c ∈ cs, c.base.toNat + numEntries < 2 ^ 64

theorem top_toNat {c : Cell} (h : c.base.toNat + numEntries < 2 ^ 64) :
    c.top.toNat = c.base.toNat + numEntries := by
  simp only [Cell.top, UInt64.toNat_add, UInt64.toNat_ofNat']
  simp only [numEntries, numBuckets, bitsPerBucket] at h ⊢
  omega

theorem ge_top_iff {c : Cell} {seq : UInt64} (h : c.base.toNat + numEntries < 2 ^ 64) :
    seq ≥ c.top ↔ c.base.toNat + numEntries ≤ seq.toNat := by
  rw [ge_iff_le, UInt64.le_iff_toNat_le, top_toNat h]

theorem Ordered.cons {c : Cell} {cs : List Cell} (h : Ordered (c :: cs)) : Ordered cs :=
  ⟨(List.pairwise_cons.mp h.1).2, fun a ha => h.2 a (List.mem_cons_of_mem _ ha)⟩

theorem Ordered.split {L R : List Cell} {c : Cell} (h : Ordered (L ++ c :: R)) :
    Ordered L ∧ Ordered (c :: R) ∧ ∀ a ∈ L, a.base.toNat + numEntries ≤ c.base.toNat := by
  obtain ⟨hp, hfit⟩ := h
  rw [List.pairwise_append] at hp
  refine ⟨⟨hp.1, fun a ha => hfit a (List.mem_append_left _ ha)⟩,
    ⟨hp.2.1, fun a ha => hfit a (List.mem_append_right _ ha)⟩, ?_⟩
  intro a ha
  exact hp.2.2 a ha c (List.mem_cons_self ..)

theorem skip_of_below {L : List Cell} {c : Cell} {seq : UInt64} (hL : Ordered L)
    (hbelow : ∀ a ∈ L, a.base.toNat + numEntries ≤ c.base.toNat) (hseq : c.base ≤ seq) :
    ∀ a ∈ L, ¬ seq < a.base ∧ seq ≥ a.top := by
  intro a ha
  have hfit := hL.2 a ha
  have hle := hbelow a ha
  rw [UInt64.le_iff_toNat_le] at hseq
  rw [UInt64.lt_iff_toNat_lt, ge_top_iff hfit]
  omega

/-! ## The walks along the block list -/

def freshCell (seq : UInt64) : Cell :=
  ⟨seq / UInt64.ofNat numEntries * UInt64.ofNat numEntries, zeroBits, 0⟩

def insertBlocks : List Cell → UInt64 → List Cell × Bool × Bool
  | [], seq => ([((freshCell seq).set seq).1], ((freshCell seq).set seq).2, true)
  | c :: cs, seq =>
    if seq < c.base then (((freshCell seq).set seq).1 :: c :: cs, ((freshCell seq).set seq).2, true)
    else if seq ≥ c.top then
      let r := insertBlocks cs seq
      (c :: r.1, r.2)
    else ((c.set seq).1 :: cs, (c.set seq).2, false)

def setBlocks : List Cell → UInt64 → Option (List Cell × Bool)
  | [], _ => none
  | c :: cs, seq =>
    if seq < c.base then none
    else if seq ≥ c.top then (setBlocks cs seq).map fun r => (c :: r.1, r.2)
    else some ((c.set seq).1 :: cs, (c.set seq).2)

def findBlocks : List Cell → UInt64 → Bool
  | [], _ => false
  | c :: cs, seq =>
    if seq < c.base then false
    else if seq ≥ c.top then findBlocks cs seq
    else c.exists seq

def deleteBlocks : List Cell → UInt64 → List Cell × Bool × Bool
  | [], _ => ([], false, false)
  | c :: cs, seq =>
    if seq < c.base then (c :: cs, false, false)
    else if seq ≥ c.top then
      let r := deleteBlocks cs seq
      (c :: r.1, r.2)
    else
      let r := c.clear seq
      if r.2.2 then (cs, r.2.1, true) else (r.1 :: cs, r.2.1, false)

-- Generate the equation lemmas of insertBlocks, setBlocks, findBlocks and deleteBlocks here, once,
-- before the proofs below unfold them in parallel.
section
attribute [local simp] insertBlocks setBlocks findBlocks deleteBlocks
end


section Equations

variable {c : Cell} {cs : List Cell} {seq : UInt64}

/-! One equation per branch of each walk, so that proofs about a walk split on the two
comparisons and never unfold it. -/

@[simp] theorem insertBlocks_nil (seq : UInt64) :
    insertBlocks [] seq = ([((freshCell seq).set seq).1], ((freshCell seq).set seq).2, true) := rfl

theorem insertBlocks_of_lt (hlt : seq < c.base) :
    insertBlocks (c :: cs) seq =
      (((freshCell seq).set seq).1 :: c :: cs, ((freshCell seq).set seq).2, true) := by
  simp [insertBlocks, hlt]

theorem insertBlocks_of_ge (hlt : ¬ seq < c.base) (hge : seq ≥ c.top) :
    insertBlocks (c :: cs) seq = (c :: (insertBlocks cs seq).1, (insertBlocks cs seq).2) := by
  simp only [insertBlocks, hlt, hge, if_false, if_true]

theorem insertBlocks_of_covers (hlt : ¬ seq < c.base) (hge : ¬ seq ≥ c.top) :
    insertBlocks (c :: cs) seq = ((c.set seq).1 :: cs, (c.set seq).2, false) := by
  simp only [insertBlocks, hlt, hge, if_false]

@[simp] theorem findBlocks_nil (seq : UInt64) : findBlocks [] seq = false := rfl

theorem findBlocks_of_lt (hlt : seq < c.base) : findBlocks (c :: cs) seq = false := by
  simp [findBlocks, hlt]

theorem findBlocks_of_ge (hlt : ¬ seq < c.base) (hge : seq ≥ c.top) :
    findBlocks (c :: cs) seq = findBlocks cs seq := by
  simp only [findBlocks, hlt, hge, if_false, if_true]

theorem findBlocks_of_covers (hlt : ¬ seq < c.base) (hge : ¬ seq ≥ c.top) :
    findBlocks (c :: cs) seq = c.exists seq := by
  simp only [findBlocks, hlt, hge, if_false]

@[simp] theorem deleteBlocks_nil (seq : UInt64) : deleteBlocks [] seq = ([], false, false) := rfl

theorem deleteBlocks_of_lt (hlt : seq < c.base) :
    deleteBlocks (c :: cs) seq = (c :: cs, false, false) := by
  simp [deleteBlocks, hlt]

theorem deleteBlocks_of_ge (hlt : ¬ seq < c.base) (hge : seq ≥ c.top) :
    deleteBlocks (c :: cs) seq = (c :: (deleteBlocks cs seq).1, (deleteBlocks cs seq).2) := by
  simp only [deleteBlocks, hlt, hge, if_false, if_true]

theorem deleteBlocks_of_empty (hlt : ¬ seq < c.base) (hge : ¬ seq ≥ c.top)
    (he : (c.clear seq).2.2 = true) :
    deleteBlocks (c :: cs) seq = (cs, (c.clear seq).2.1, true) := by
  simp only [deleteBlocks, hlt, hge, he, if_false, if_true]

theorem deleteBlocks_of_nonempty (hlt : ¬ seq < c.base) (hge : ¬ seq ≥ c.top)
    (he : (c.clear seq).2.2 = false) :
    deleteBlocks (c :: cs) seq = ((c.clear seq).1 :: cs, (c.clear seq).2.1, false) := by
  simp only [deleteBlocks, hlt, hge, he, if_false, Bool.false_eq_true]

end Equations

/-! Each walk either stops inside a prefix or passes all of it: stopping before a block `d`
gives the same answer with or without `d :: R` behind, and a prefix whose blocks all lie below
`seq` is passed unchanged. -/

theorem insertBlocks_append_of_lt {L R : List Cell} {d : Cell} {seq : UInt64}
    (hd : seq < d.base) :
    insertBlocks (L ++ d :: R) seq =
      ((insertBlocks L seq).1 ++ d :: R, (insertBlocks L seq).2) := by
  induction L with
  | nil => simp [insertBlocks, hd]
  | cons a L ih =>
    simp only [List.cons_append, insertBlocks]
    split_ifs <;> simp [ih]

theorem insertBlocks_append_of_skip {L R : List Cell} {seq : UInt64}
    (hL : ∀ a ∈ L, ¬ seq < a.base ∧ seq ≥ a.top) :
    insertBlocks (L ++ R) seq = (L ++ (insertBlocks R seq).1, (insertBlocks R seq).2) := by
  induction L with
  | nil => rfl
  | cons a L ih =>
    obtain ⟨hlt, hge⟩ := hL a (List.mem_cons_self ..)
    simp only [List.cons_append, insertBlocks, hlt, hge, if_false, if_true]
    rw [ih (fun b hb => hL b (List.mem_cons_of_mem _ hb))]

theorem deleteBlocks_append_of_lt {L R : List Cell} {d : Cell} {seq : UInt64}
    (hd : seq < d.base) :
    deleteBlocks (L ++ d :: R) seq =
      ((deleteBlocks L seq).1 ++ d :: R, (deleteBlocks L seq).2) := by
  induction L with
  | nil => simp [deleteBlocks, hd]
  | cons a L ih =>
    simp only [List.cons_append, deleteBlocks]
    split_ifs <;> simp_all

theorem deleteBlocks_append_of_skip {L R : List Cell} {seq : UInt64}
    (hL : ∀ a ∈ L, ¬ seq < a.base ∧ seq ≥ a.top) :
    deleteBlocks (L ++ R) seq = (L ++ (deleteBlocks R seq).1, (deleteBlocks R seq).2) := by
  induction L with
  | nil => rfl
  | cons a L ih =>
    obtain ⟨hlt, hge⟩ := hL a (List.mem_cons_self ..)
    simp only [List.cons_append, deleteBlocks, hlt, hge, if_false, if_true]
    rw [ih (fun b hb => hL b (List.mem_cons_of_mem _ hb))]

theorem findBlocks_append_of_lt {L R : List Cell} {d : Cell} {seq : UInt64}
    (hd : seq < d.base) : findBlocks (L ++ d :: R) seq = findBlocks L seq := by
  induction L with
  | nil => simp [findBlocks, hd]
  | cons a L ih =>
    simp only [List.cons_append, findBlocks]
    split_ifs <;> simp_all

theorem findBlocks_append_of_skip {L R : List Cell} {seq : UInt64}
    (hL : ∀ a ∈ L, ¬ seq < a.base ∧ seq ≥ a.top) :
    findBlocks (L ++ R) seq = findBlocks R seq := by
  induction L with
  | nil => rfl
  | cons a L ih =>
    obtain ⟨hlt, hge⟩ := hL a (List.mem_cons_self ..)
    simp only [List.cons_append, findBlocks, hlt, hge, if_false, if_true]
    exact ih (fun b hb => hL b (List.mem_cons_of_mem _ hb))

theorem setBlocks_append_of_lt {L R : List Cell} {d : Cell} {seq : UInt64}
    (hd : seq < d.base) :
    setBlocks (L ++ d :: R) seq = (setBlocks L seq).map fun r => (r.1 ++ d :: R, r.2) := by
  induction L with
  | nil => simp [setBlocks, hd]
  | cons a L ih =>
    simp only [List.cons_append, setBlocks]
    split_ifs <;> simp_all [Option.map_map, Function.comp_def]

theorem setBlocks_append_of_skip {L R : List Cell} {seq : UInt64}
    (hL : ∀ a ∈ L, ¬ seq < a.base ∧ seq ≥ a.top) :
    setBlocks (L ++ R) seq = (setBlocks R seq).map fun r => (L ++ r.1, r.2) := by
  induction L with
  | nil => simp
  | cons a L ih =>
    obtain ⟨hlt, hge⟩ := hL a (List.mem_cons_self ..)
    simp only [List.cons_append, setBlocks, hlt, hge, if_false, if_true]
    rw [ih (fun b hb => hL b (List.mem_cons_of_mem _ hb))]
    simp [Option.map_map, Function.comp_def]

theorem insertBlocks_of_setBlocks {cs cs' : List Cell} {seq : UInt64} {b : Bool}
    (h : setBlocks cs seq = some (cs', b)) : insertBlocks cs seq = (cs', b, false) := by
  induction cs generalizing cs' with
  | nil => simp [setBlocks] at h
  | cons c cs ih =>
    simp only [setBlocks] at h
    simp only [insertBlocks]
    split_ifs at h ⊢ with hlt hge
    · obtain ⟨⟨rs, rb⟩, hr, heq⟩ := Option.map_eq_some_iff.mp h
      obtain ⟨rfl, rfl⟩ := Prod.mk.inj heq
      rw [ih hr]
    · cases h
      rfl

/-! ## Every tree operation is its walk -/

theorem base_le_of_ge_top {c : Cell} {seq : UInt64} (hfit : c.base.toNat + numEntries < 2 ^ 64)
    (hge : seq ≥ c.top) : c.base ≤ seq := by
  rw [ge_top_iff hfit] at hge
  rw [UInt64.le_iff_toNat_le]
  omega

theorem insert_walk (t : Node) (seq : UInt64) (ho : Ordered (blocks t)) :
    (blocks (insert t seq).1, (insert t seq).2) = insertBlocks (blocks t) seq := by
  induction t with
  | nil =>
    have hf : freshCell seq =
        (⟨seq / UInt64.ofNat numEntries * UInt64.ofNat numEntries, zeroBits, 1⟩ : Cell).eraseH := rfl
    simp only [insert, blocks_node, blocks_nil, insertBlocks, hf, Cell.set_eraseH]
    rfl
  | node l c r ihl ihr =>
    rw [blocks_node] at ho
    obtain ⟨hoL, hoR, hbelow⟩ := ho.split
    have hfit : c.base.toNat + numEntries < 2 ^ 64 := hoR.2 c.eraseH (List.mem_cons_self ..)
    simp only [insert]
    split_ifs with hlt hge
    · rcases hl : insert l seq with ⟨l', ins, made⟩
      have ih := ihl hoL
      rw [hl] at ih
      simp only [blocks_rebalance, blocks_fixH, blocks_node]
      rw [insertBlocks_append_of_lt (show seq < c.eraseH.base from hlt), ← ih]
    · rcases hr : insert r seq with ⟨r', ins, made⟩
      have ih := ihr hoR.cons
      rw [hr] at ih
      have hskip := skip_of_below hoL hbelow (base_le_of_ge_top hfit hge)
      simp only [blocks_rebalance, blocks_fixH, blocks_node]
      rw [insertBlocks_append_of_skip hskip]
      have hge' : seq ≥ c.top := hge
      simp only [insertBlocks, Cell.eraseH_base, Cell.eraseH_top, hlt, hge', if_false, if_true, ← ih]
    · have hskip := skip_of_below hoL hbelow (by simpa using hlt)
      simp only [blocks_rebalance, blocks_fixH, blocks_node]
      rw [insertBlocks_append_of_skip hskip]
      have hge' : ¬ seq ≥ c.top := hge
      simp only [insertBlocks, Cell.eraseH_base, Cell.eraseH_top, hlt, hge', if_false,
        Cell.set_eraseH]

theorem setExisting_walk (t : Node) (seq : UInt64) (ho : Ordered (blocks t)) :
    (setExisting t seq).map (fun r => (blocks r.1, r.2)) = setBlocks (blocks t) seq := by
  induction t with
  | nil => rfl
  | node l c r ihl ihr =>
    rw [blocks_node] at ho
    obtain ⟨hoL, hoR, hbelow⟩ := ho.split
    have hfit : c.base.toNat + numEntries < 2 ^ 64 := hoR.2 c.eraseH (List.mem_cons_self ..)
    simp only [setExisting]
    split_ifs with hlt hge
    · rw [blocks_node, setBlocks_append_of_lt (show seq < c.eraseH.base from hlt), ← ihl hoL]
      simp [Option.map_map, Function.comp_def]
    · have hskip := skip_of_below hoL hbelow (base_le_of_ge_top hfit hge)
      have hge' : seq ≥ c.top := hge
      rw [blocks_node, setBlocks_append_of_skip hskip]
      simp only [setBlocks, Cell.eraseH_base, Cell.eraseH_top, hlt, hge', if_false, if_true,
        ← ihr hoR.cons, Option.map_map, Function.comp_def, blocks_node]
    · have hskip := skip_of_below hoL hbelow (by simpa using hlt)
      have hge' : ¬ seq ≥ c.top := hge
      rw [blocks_node, setBlocks_append_of_skip hskip]
      simp only [setBlocks, Cell.eraseH_base, Cell.eraseH_top, hlt, hge', if_false,
        Cell.set_eraseH, Option.map_some, blocks_node]

theorem existsWalk_eq (t : Node) (seq : UInt64) (ho : Ordered (blocks t)) :
    existsWalk t seq = findBlocks (blocks t) seq := by
  induction t with
  | nil => rfl
  | node l c r ihl ihr =>
    rw [blocks_node] at ho
    obtain ⟨hoL, hoR, hbelow⟩ := ho.split
    have hfit : c.base.toNat + numEntries < 2 ^ 64 := hoR.2 c.eraseH (List.mem_cons_self ..)
    simp only [existsWalk]
    split_ifs with hlt hge
    · rw [blocks_node, findBlocks_append_of_lt (show seq < c.eraseH.base from hlt), ihl hoL]
    · have hskip := skip_of_below hoL hbelow (base_le_of_ge_top hfit hge)
      have hge' : seq ≥ c.top := hge
      rw [blocks_node, findBlocks_append_of_skip hskip]
      simp only [findBlocks, Cell.eraseH_base, Cell.eraseH_top, hlt, hge', if_false, if_true,
        ihr hoR.cons]
    · have hskip := skip_of_below hoL hbelow (by simpa using hlt)
      have hge' : ¬ seq ≥ c.top := hge
      rw [blocks_node, findBlocks_append_of_skip hskip]
      simp only [findBlocks, Cell.eraseH_base, Cell.eraseH_top, hlt, hge', if_false,
        Cell.exists_eraseH]

theorem delete_walk (t : Node) (seq : UInt64) (ho : Ordered (blocks t)) :
    (blocks (delete t seq).1, (delete t seq).2) = deleteBlocks (blocks t) seq := by
  induction t with
  | nil => rfl
  | node l c r ihl ihr =>
    rw [blocks_node] at ho
    obtain ⟨hoL, hoR, hbelow⟩ := ho.split
    have hfit : c.base.toNat + numEntries < 2 ^ 64 := hoR.2 c.eraseH (List.mem_cons_self ..)
    unfold delete
    split_ifs with hlt hge
    · rcases hl : delete l seq with ⟨l', del, gone⟩
      have ih := ihl hoL
      rw [hl] at ih
      simp only [blocks_rebalance, blocks_fixH, blocks_node]
      rw [deleteBlocks_append_of_lt (show seq < c.eraseH.base from hlt), ← ih]
    · rcases hr : delete r seq with ⟨r', del, gone⟩
      have ih := ihr hoR.cons
      rw [hr] at ih
      have hskip := skip_of_below hoL hbelow (base_le_of_ge_top hfit hge)
      have hge' : seq ≥ c.top := hge
      simp only [blocks_rebalance, blocks_fixH, blocks_node]
      rw [deleteBlocks_append_of_skip hskip]
      simp only [deleteBlocks, Cell.eraseH_base, Cell.eraseH_top, hlt, hge', if_false, if_true, ← ih]
    · have hskip := skip_of_below hoL hbelow (by simpa using hlt)
      have hge' : ¬ seq ≥ c.top := hge
      rw [blocks_node, deleteBlocks_append_of_skip hskip]
      rcases hc : c.clear seq with ⟨c', del, empty⟩
      simp only [deleteBlocks, Cell.eraseH_base, Cell.eraseH_top, hlt, hge', if_false,
        Cell.clear_eraseH, hc]
      cases empty
      · simp
      · simp [blocks_graft]
end NatsServer.Avl
