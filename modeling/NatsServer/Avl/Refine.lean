import Mathlib.Data.Finset.Card
import NatsServer.Avl.Contents

/-!
# The sequence set refines a finite set

What a `SequenceSet` is for is `absStep`: a finite set of `uint64` with insert, erase and clear.
`Refines ss A` says that the tree of `ss` is a well-formed block list holding exactly `A`, that
`size` counts `A` and that `nodes` counts the tree. Each call keeps the relation
(`Refines.step`) provided its argument is `Valid`: an `Insert` argument lies below the top
block `[2^64 - 2048, 2^64)`, whose upper end `base + numEntries` wraps around in `uint64`, and a
`SetInitialMin` minimum is a multiple of `numEntries`, as the bases of the nodes `insert`
creates are. Along every run of valid calls, `Exists`, `Size` and `Delete` then answer as the
abstract set does (`run_refines`). Without the two conditions they do not (the failing inputs
at the end).
-/

namespace NatsServer.Avl

open NatsServer.Lib

namespace SequenceSet

def absStep (A : Finset UInt64) : Op → Finset UInt64
  | .insert x => Insert.insert x A
  | .delete x => A.erase x
  | .empty => ∅
  | .setInitialMin _ => A

def Op.Valid : Op → Prop
  | .insert x => x.toNat + numEntries < 2 ^ 64
  | .delete _ => True
  | .empty => True
  | .setInitialMin m => m.toNat % numEntries = 0 ∧ m.toNat + numEntries < 2 ^ 64

instance : DecidablePred Op.Valid := fun op =>
  match op with
  | .insert x => inferInstanceAs (Decidable (x.toNat + numEntries < 2 ^ 64))
  | .delete _ => inferInstanceAs (Decidable True)
  | .empty => inferInstanceAs (Decidable True)
  | .setInitialMin m =>
    inferInstanceAs (Decidable (m.toNat % numEntries = 0 ∧ m.toNat + numEntries < 2 ^ 64))

structure Refines (ss : SequenceSet) (A : Finset UInt64) : Prop where
  wellFormed : WellFormed (blocks ss.root)
  nodes_eq : ss.nodes = ss.root.size
  mem_iff : ∀ x, MemBlocks (blocks ss.root) x ↔ x ∈ A
  size_eq : ss.size = A.card

/-! ## The public calls as walks on the block list -/

theorem ite_succ_eq_add_toNat (b : Bool) (n : Nat) : (if b = true then n + 1 else n) = n + b.toNat := by
  cases b <;> rfl

theorem Insert_walk (ss : SequenceSet) (x : UInt64) (ho : Ordered (blocks ss.root)) :
    blocks (ss.Insert x).root = (insertBlocks (blocks ss.root) x).1 ∧
      (ss.Insert x).size = ss.size + (insertBlocks (blocks ss.root) x).2.1.toNat ∧
      (ss.Insert x).nodes = ss.nodes + (insertBlocks (blocks ss.root) x).2.2.toNat := by
  rcases hs : setExisting ss.root x with _ | ⟨root, changed⟩
  · -- the walk fell off the tree: `node.insert`
    have hw := insert_walk ss.root x ho
    rcases hi : insert ss.root x with ⟨root, ins, made⟩
    rw [hi] at hw
    simp only [Insert, hs, hi, ← hw]
    exact ⟨trivial, ite_succ_eq_add_toNat .., ite_succ_eq_add_toNat ..⟩
  · -- a node on the search path covers `x`
    have hw := setExisting_walk ss.root x ho
    rw [hs, Option.map_some] at hw
    simp only [Insert, hs, insertBlocks_of_setBlocks hw.symm]
    exact ⟨trivial, ite_succ_eq_add_toNat .., rfl⟩

theorem Delete_eq (ss : SequenceSet) (x : UInt64) :
    ss.Delete x =
      if (delete ss.root x).2.1 then
        (if ss.size - 1 == 0 then ⟨.nil, 0, 0⟩
          else ⟨(delete ss.root x).1, ss.size - 1,
            if (delete ss.root x).2.2 then ss.nodes - 1 else ss.nodes⟩, true)
      else (⟨(delete ss.root x).1, ss.size,
          if (delete ss.root x).2.2 then ss.nodes - 1 else ss.nodes⟩, false) := by
  rcases ss with ⟨_ | ⟨l, c, r⟩, size, nodes⟩
  · rfl
  · simp only [Delete]
    split_ifs <;> rfl

theorem Delete_root (ss : SequenceSet) (x : UInt64) :
    (ss.Delete x).1.root = .nil ∨ (ss.Delete x).1.root = (delete ss.root x).1 := by
  rw [Delete_eq]
  split_ifs <;> simp

/-! ## Each call keeps the relation -/

section Step

variable {ss : SequenceSet} {A : Finset UInt64}

theorem Refines.find_eq (h : Refines ss A) (x : UInt64) :
    findBlocks (blocks ss.root) x = decide (x ∈ A) := by
  rw [Bool.eq_iff_iff, findBlocks_iff h.wellFormed.ordered, h.mem_iff, decide_eq_true_iff]

theorem Refines.exists_eq (h : Refines ss A) (x : UInt64) : ss.Exists x = decide (x ∈ A) := by
  rw [SequenceSet.Exists, existsWalk_eq _ _ h.wellFormed.ordered, h.find_eq]

theorem refines_Empty (ss : SequenceSet) : Refines ss.Empty ∅ := by
  refine ⟨⟨⟨.nil, ?_⟩, ?_⟩, rfl, ?_, rfl⟩ <;> simp [Empty]

theorem Refines.Insert (h : Refines ss A) {x : UInt64} (hx : x.toNat + numEntries < 2 ^ 64) :
    Refines (ss.Insert x) (Insert.insert x A) := by
  obtain ⟨hroot, hsize, hnodes⟩ := Insert_walk ss x h.wellFormed.ordered
  have hflag : (insertBlocks (blocks ss.root) x).2.1 = !decide (x ∈ A) := by
    rw [insertBlocks_flag, h.find_eq]
  refine ⟨hroot ▸ insertBlocks_wellFormed hx h.wellFormed, ?_, ?_, ?_⟩
  · rw [hnodes, h.nodes_eq, ← length_blocks, ← length_blocks, hroot, length_insertBlocks]
  · intro y
    rw [hroot, mem_insertBlocks, h.mem_iff, Finset.mem_insert]
    exact or_comm
  · rw [hsize, hflag, h.size_eq]
    by_cases hxA : x ∈ A
    · simp [hxA]
    · simp [hxA, Finset.card_insert_of_notMem]

theorem Refines.Delete (h : Refines ss A) (x : UInt64) :
    Refines (ss.Delete x).1 (A.erase x) ∧ (ss.Delete x).2 = decide (x ∈ A) := by
  rcases hd : delete ss.root x with ⟨root, del, gone⟩
  have hw := delete_walk ss.root x h.wellFormed.ordered
  rw [hd] at hw
  have hdel : del = decide (x ∈ A) := by
    rw [← h.find_eq, ← deleteBlocks_flag, ← hw]
  have hlen : root.size + gone.toNat = ss.root.size := by
    have := length_deleteBlocks (blocks ss.root) x
    rwa [← hw, length_blocks, length_blocks] at this
  have hwf : WellFormed (blocks root) := by
    have := deleteBlocks_wellFormed (x := x) h.wellFormed
    rwa [← hw] at this
  have hmem : ∀ y, MemBlocks (blocks root) y ↔ y ∈ A.erase x := by
    intro y
    have := mem_deleteBlocks (x := x) h.wellFormed.ordered y
    rw [← hw, h.mem_iff] at this
    rw [this, Finset.mem_erase]
    exact and_comm
  rw [Delete_eq, hd]
  cases del
  · -- `x` was not a member, so no node went
    have hxA : x ∉ A := by simpa using hdel.symm
    have hgone : gone = false := by
      cases gone
      · rfl
      · have := deleteBlocks_gone (blocks ss.root) x
        rw [← hw] at this
        exact absurd (this rfl) (by simp)
    subst hgone
    refine ⟨⟨hwf, ?_, hmem, ?_⟩, by simpa using hdel⟩
    · simp only [Bool.toNat_false, Nat.add_zero] at hlen
      simp [h.nodes_eq, hlen]
    · simp [Finset.erase_eq_of_notMem hxA, h.size_eq]
  · have hxA : x ∈ A := by simpa using hdel.symm
    have hcard : (A.erase x).card = ss.size - 1 := by
      rw [Finset.card_erase_of_mem hxA, h.size_eq]
    refine ⟨?_, by simpa using hdel⟩
    simp only [if_true]
    by_cases hz : (ss.size - 1 == 0) = true
    · -- the last member went: `Empty`
      rw [if_pos hz]
      have hz' : ss.size - 1 = 0 := by simpa using hz
      have hA : A.erase x = ∅ := Finset.card_eq_zero.mp (hcard.trans hz')
      rw [hA]
      exact refines_Empty ss
    · rw [if_neg hz]
      refine ⟨hwf, ?_, hmem, hcard.symm⟩
      cases gone <;> simp [h.nodes_eq, ← hlen]

theorem Refines.SetInitialMin (h : Refines ss A) {m : UInt64}
    (hal : m.toNat % numEntries = 0) (hfit : m.toNat + numEntries < 2 ^ 64) :
    Refines (step ss (.setInitialMin m)) A := by
  rcases ss with ⟨_ | ⟨l, c, r⟩, size, nodes⟩
  · -- an empty tree holds nothing, so `A` is empty; the new node holds nothing either
    have hA : A = ∅ := by
      ext y
      simpa using (h.mem_iff y).symm
    have hsize : size = 0 := by simpa [hA] using h.size_eq
    subst hA hsize
    show Refines ⟨.node .nil ⟨m, zeroBits, 1⟩ .nil, 0, 1⟩ ∅
    refine ⟨WellFormed.cons_of_below ⟨⟨.nil, by simp⟩, by simp⟩ hfit hal (by simp), rfl, ?_, rfl⟩
    intro y
    simp [Cell.Mem, Cell.has, Cell.eraseH, zeroBits]
  · exact h

theorem Refines.step (h : Refines ss A) {op : Op} (hop : op.Valid) :
    Refines (step ss op) (absStep A op) := by
  cases op with
  | insert x => exact h.Insert hop
  | delete x => exact (h.Delete x).1
  | empty => exact refines_Empty ss
  | setInitialMin m => exact h.SetInitialMin hop.1 hop.2

end Step

theorem refines_empty : Refines empty ∅ := refines_Empty empty

/-- Along every run of valid calls from the empty set, `Exists`, `Size` and the result of
`Delete` are those of the abstract set. -/
theorem run_refines (ops : List Op) (hops : ∀ op ∈ ops, op.Valid) (x : UInt64) :
    (run step empty ops).Exists x = decide (x ∈ run absStep ∅ ops) ∧
      (run step empty ops).Size = (run absStep ∅ ops).card ∧
      ((run step empty ops).Delete x).2 = decide (x ∈ run absStep ∅ ops) := by
  have h : Refines (run step empty ops) (run absStep ∅ ops) :=
    @run_simulation _ _ _ step absStep Op.Valid Refines (fun _ _ _ hv h => h.step hv) _ _
      refines_empty ops hops
  exact ⟨h.exists_eq x, h.size_eq, (h.Delete x).2⟩

theorem run_refines_aligned :
    (∀ op ∈ [Op.setInitialMin 2048, .insert 2500, .insert 3100, .insert 5000], op.Valid) ∧
      (run step empty [.setInitialMin 2048, .insert 2500, .insert 3100, .insert 5000]).Exists 2500 =
        decide (2500 ∈ run absStep ∅ [.setInitialMin 2048, .insert 2500, .insert 3100, .insert 5000]) :=
  ⟨by decide, (run_refines _ (by decide) 2500).1⟩

/-- An unaligned `SetInitialMin` lets the node `insert` creates for 3100, based at 2048,
overlap the node based at 1000 that holds 2500; once a rotation puts it above, the search
for 2500 ends in it. -/
theorem Exists_unaligned_min :
    (run step empty [.setInitialMin 1000, .insert 2500, .insert 3100, .insert 5000]).Exists 2500 =
        false ∧
      2500 ∈ run absStep ∅ [.setInitialMin 1000, .insert 2500, .insert 3100, .insert 5000] := by
  decide +kernel

end SequenceSet

end NatsServer.Avl
