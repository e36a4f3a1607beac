import NatsServer.Avl.Refine

/-!
# Stored heights and balance

Every node stores its height `h`, and the balance checks read only stored heights. `HeightsOk`
says each stored height is one more than the larger stored height of the children, so that it
is the height of the subtree (`hOf_eq_height`). Every mutation keeps it: `fixH`, the rotations,
`rebalance`, `insertNodePrev`, `insert`, `delete`, and the fast path of `Insert`, which only
touches bits; so it holds along every run of calls (`heightsOk_run`). The rotations in
`rebalance` always find the child they turn about (`left_ne_nil_of_balanceF_pos` and its mirror),
whatever the stored heights are.

`Balanced` asks in addition that every node's balance factor lie in `[-1, 1]`. `delete` does not
keep that: a node emptied with two children is replaced by its right subtree with the left one
grafted under its leftmost node, and the single rotation per level that follows can leave a node
two levels out of balance (`Delete_unbalances`).
-/

namespace NatsServer.Avl

open NatsServer.Lib

def HeightsOk : Node → Prop :=
  BTree.AllNodes fun l c r => c.h = max (hOf l) (hOf r) + 1

def Balanced : Node → Prop :=
  BTree.AllNodes fun l c r => c.h = max (hOf l) (hOf r) + 1 ∧ (balanceF (.node l c r)).natAbs ≤ 1

instance : DecidablePred HeightsOk := fun t => inferInstanceAs (Decidable (BTree.AllNodes _ t))

instance : DecidablePred Balanced := fun t => inferInstanceAs (Decidable (BTree.AllNodes _ t))

@[simp] theorem heightsOk_nil : HeightsOk .nil := trivial

@[simp] theorem heightsOk_node {l r : Node} {c : Cell} :
    HeightsOk (.node l c r) ↔ c.h = max (hOf l) (hOf r) + 1 ∧ HeightsOk l ∧ HeightsOk r :=
  Iff.rfl

@[simp] theorem Cell.set_h (c : Cell) (x : UInt64) : (c.set x).1.h = c.h := by
  simp only [Cell.set]
  split_ifs <;> rfl

@[simp] theorem Cell.clear_h (c : Cell) (x : UInt64) : (c.clear x).1.h = c.h := by
  simp only [Cell.clear]
  split_ifs <;> rfl

/-! ## The repairs keep the stored heights right -/

theorem heightsOk_fixH {l r : Node} {c : Cell} (hl : HeightsOk l) (hr : HeightsOk r) :
    HeightsOk (fixH (.node l c r)) :=
  ⟨rfl, hl, hr⟩

theorem fixH_of_heightsOk {t : Node} (h : HeightsOk t) : fixH t = t := by
  cases t with
  | nil => rfl
  | node l c r =>
    obtain ⟨hc, -, -⟩ := heightsOk_node.mp h
    simp only [fixH, ← hc]

theorem heightsOk_rotateL {l r : Node} {c : Cell} (hl : HeightsOk l) (hr : HeightsOk r) :
    HeightsOk (rotateL (.node l c r)) := by
  cases r with
  | nil => exact heightsOk_nil
  | node rl rc rr =>
    obtain ⟨-, hrl, hrr⟩ := heightsOk_node.mp hr
    exact heightsOk_fixH (heightsOk_fixH hl hrl) hrr

theorem heightsOk_rotateR {l r : Node} {c : Cell} (hl : HeightsOk l) (hr : HeightsOk r) :
    HeightsOk (rotateR (.node l c r)) := by
  cases l with
  | nil => exact heightsOk_nil
  | node ll lc lr =>
    obtain ⟨-, hll, hlr⟩ := heightsOk_node.mp hl
    exact heightsOk_fixH hll (heightsOk_fixH hlr hr)

theorem heightsOk_rotateL_of {t : Node} (h : HeightsOk t) : HeightsOk (rotateL t) := by
  cases t with
  | nil => exact heightsOk_nil
  | node l c r => exact heightsOk_rotateL (heightsOk_node.mp h).2.1 (heightsOk_node.mp h).2.2

theorem heightsOk_rotateR_of {t : Node} (h : HeightsOk t) : HeightsOk (rotateR t) := by
  cases t with
  | nil => exact heightsOk_nil
  | node l c r => exact heightsOk_rotateR (heightsOk_node.mp h).2.1 (heightsOk_node.mp h).2.2

theorem heightsOk_rebalance {t : Node} (h : HeightsOk t) : HeightsOk (rebalance t) := by
  cases t with
  | nil => exact heightsOk_nil
  | node l c r =>
    obtain ⟨-, hl, hr⟩ := heightsOk_node.mp h
    simp only [rebalance]
    split_ifs
    · exact heightsOk_rotateR (heightsOk_rotateL_of hl) hr
    · exact heightsOk_rotateR hl hr
    · exact heightsOk_rotateL hl (heightsOk_rotateR_of hr)
    · exact heightsOk_rotateL hl hr
    · exact h

theorem heightsOk_repair {l r : Node} {c : Cell} (hl : HeightsOk l) (hr : HeightsOk r) :
    HeightsOk (rebalance (fixH (.node l c r))) :=
  heightsOk_rebalance (heightsOk_fixH hl hr)

/-! ## The mutations keep them right -/

theorem heightsOk_insertNodePrev {n nn : Node} (hn : HeightsOk n) (hnn : HeightsOk nn) :
    HeightsOk (insertNodePrev n nn) := by
  induction n with
  | nil => exact hnn
  | node l c r ihl _ =>
    obtain ⟨-, hl, hr⟩ := heightsOk_node.mp hn
    exact heightsOk_repair (ihl hl) hr

theorem heightsOk_graft {l r : Node} (hl : HeightsOk l) (hr : HeightsOk r) :
    HeightsOk (graft l r) := by
  rcases l with _ | ⟨ll, lc, lr⟩ <;> rcases r with _ | ⟨rl, rc, rr⟩
  · exact heightsOk_nil
  · exact hr
  · exact hl
  · exact heightsOk_insertNodePrev hr hl

theorem heightsOk_insert {t : Node} (h : HeightsOk t) (x : UInt64) : HeightsOk (insert t x).1 := by
  induction t with
  | nil => simp [insert, hOf]
  | node l c r ihl ihr =>
    obtain ⟨-, hl, hr⟩ := heightsOk_node.mp h
    by_cases hlt : x < c.base
    · rw [insert_of_lt hlt]
      exact heightsOk_repair (ihl hl) hr
    by_cases hge : x ≥ c.base + UInt64.ofNat numEntries
    · rw [insert_of_ge hlt hge]
      exact heightsOk_repair hl (ihr hr)
    · rw [insert_of_covers hlt hge]
      exact heightsOk_repair hl hr

theorem heightsOk_delete {t : Node} (h : HeightsOk t) (x : UInt64) : HeightsOk (delete t x).1 := by
  induction t with
  | nil => exact heightsOk_nil
  | node l c r ihl ihr =>
    obtain ⟨-, hl, hr⟩ := heightsOk_node.mp h
    by_cases hlt : x < c.base
    · rw [delete_of_lt hlt]
      exact heightsOk_repair (ihl hl) hr
    by_cases hge : x ≥ c.base + UInt64.ofNat numEntries
    · rw [delete_of_ge hlt hge]
      exact heightsOk_repair hl (ihr hr)
    cases he : (c.clear x).2.2
    · rw [delete_of_nonempty hlt hge he]
      exact heightsOk_repair hl hr
    · -- the emptied node goes; what replaces it has right heights, so `fixH` keeps them
      rw [delete_of_empty hlt hge he]
      have hg := heightsOk_graft hl hr
      exact heightsOk_rebalance (by rw [fixH_of_heightsOk hg]; exact hg)

theorem heightsOk_setExisting {t t' : Node} {x : UInt64} {b : Bool}
    (hs : setExisting t x = some (t', b)) (h : HeightsOk t) : hOf t' = hOf t ∧ HeightsOk t' := by
  induction t generalizing t' b with
  | nil => cases hs
  | node l c r ihl ihr =>
    obtain ⟨hc, hl, hr⟩ := heightsOk_node.mp h
    simp only [setExisting] at hs
    split_ifs at hs
    · obtain ⟨⟨l', b'⟩, hl', heq⟩ := Option.map_eq_some_iff.mp hs
      cases heq
      obtain ⟨hh, hok⟩ := ihl hl' hl
      exact ⟨rfl, by simp [hc, hh], hok, hr⟩
    · obtain ⟨⟨r', b'⟩, hr', heq⟩ := Option.map_eq_some_iff.mp hs
      cases heq
      obtain ⟨hh, hok⟩ := ihr hr' hr
      exact ⟨rfl, by simp [hc, hh], hl, hok⟩
    · cases hs
      exact ⟨by simp [hOf], by simp [hc], hl, hr⟩

namespace SequenceSet

theorem heightsOk_step {ss : SequenceSet} (h : HeightsOk ss.root) (op : Op) :
    HeightsOk (step ss op).root := by
  cases op with
  | insert x =>
    simp only [step, Insert]
    rcases hs : setExisting ss.root x with _ | ⟨root, b⟩
    · exact heightsOk_insert h x
    · exact (heightsOk_setExisting hs h).2
  | delete x =>
    rcases Delete_root ss x with hr | hr <;> rw [step, hr]
    · exact heightsOk_nil
    · exact heightsOk_delete h x
  | empty => exact heightsOk_nil
  | setInitialMin m =>
    simp only [step, SetInitialMin]
    split_ifs
    · exact h
    · simp [hOf]

/-- Along every run of calls, with any arguments, every stored height is right. -/
theorem heightsOk_run (ops : List Op) : HeightsOk (run step empty ops).root :=
  run_invariant (fun ss : SequenceSet => HeightsOk ss.root) (fun _ op h => heightsOk_step h op)
    heightsOk_nil ops

/-- Seven inserts build a balanced tree; deleting its root, which has two children, grafts the
left subtree under the leftmost node of the right one, and the repair on the way up leaves a
node with balance factor two. -/
theorem Delete_unbalances :
    Balanced (run step empty [.insert 8192, .insert 2048, .insert 12288, .insert 0,
        .insert 4096, .insert 10240, .insert 6144]).root ∧
      ¬ Balanced (run step empty [.insert 8192, .insert 2048, .insert 12288, .insert 0,
        .insert 4096, .insert 10240, .insert 6144, .delete 8192]).root := by
  decide +kernel

end SequenceSet

end NatsServer.Avl
