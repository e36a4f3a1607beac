import NatsServer.Avl.Range
import NatsServer.Lib.Run

/-!
# Clone, Equal and Union

`Equal` compares emptiness and sizes and then looks up each member of one set in the other;
`Union` clones the largest set and inserts the members of the others through `Range`, and the
method `Union` inserts the members of each argument node by node, in the order of `nodeIter`.
Along runs of Insert below the top block, Delete and Empty from the empty set, a set refines
its abstract set, every member is below the top block and the root is nil exactly when the set
is empty (`Tracks`); then `Equal` is equality of the abstract sets and both unions hold the union
of the members (`Union_Equal_run`). In the top block `Equal` fails on a set and itself.
-/

namespace NatsServer.Avl

open NatsServer.Lib

namespace SequenceSet

def Clone (ss : SequenceSet) : SequenceSet := ⟨ss.root, ss.size, ss.nodes⟩

/-- Equal: the loop over `ss` keeps the last answer of `other.Exists` and stops at the first
false one, so the result is whether the loop ran to its end. -/
def Equal (ss other : SequenceSet) : Bool :=
  if ss.IsEmpty || other.IsEmpty then ss.IsEmpty && other.IsEmpty
  else if ss.size != other.size then false
  else (iter other.Exists ss.root).2

/-- The sequences the method `Union` inserts for one argument: `nodeIter` visits the nodes in
preorder, each node's buckets and bits in increasing order. -/
def nodeMembers (t : Node) : List UInt64 := t.preorder.flatMap Cell.members

def Union (ss : SequenceSet) (ssa : List SequenceSet) : SequenceSet :=
  ssa.foldl (fun ss sa => (nodeMembers sa.root).foldl SequenceSet.Insert ss) ss

end SequenceSet

/-- The function `Union`; `none` is the nil it returns for no sets. The source's sort leaves the
order of sets of equal size open, and a stable sort is one of its orders. -/
def Union (ssa : List SequenceSet) : Option SequenceSet :=
  match ssa.mergeSort (fun a b => b.Size ≤ a.Size) with
  | [] => none
  | first :: rest =>
    some (rest.foldl (fun ss sa => (sa.Range fun _ => true).foldl SequenceSet.Insert ss)
      first.Clone)

namespace SequenceSet

/-- The calls of the runs `Union` and `Equal` are stated for: no `SetInitialMin`, whose empty
node makes a set with no member that is not `IsEmpty`, and no Insert in the top block. -/
def Op.Plain : Op → Prop
  | .insert x => x.toNat + numEntries < 2 ^ 64
  | .delete _ => True
  | .empty => True
  | .setInitialMin _ => False

instance : DecidablePred Op.Plain := fun op =>
  match op with
  | .insert x => inferInstanceAs (Decidable (x.toNat + numEntries < 2 ^ 64))
  | .delete _ => inferInstanceAs (Decidable True)
  | .empty => inferInstanceAs (Decidable True)
  | .setInitialMin _ => inferInstanceAs (Decidable False)

def contents (ss : SequenceSet) : Finset UInt64 := (membersOf (blocks ss.root)).toFinset

structure Tracks (ss : SequenceSet) (A : Finset UInt64) : Prop where
  refines : Refines ss A
  fit : ∀ x ∈ A, x.toNat + numEntries < 2 ^ 64
  root_nil : ss.size = 0 → ss.root = .nil

section Tracks

variable {ss sa : SequenceSet} {A B : Finset UInt64}

theorem Refines.contents_eq (h : Refines ss A) : ss.contents = A := by
  rw [contents, h.members_eq, Finset.sort_toFinset]

theorem Cell.members_eraseH (c : Cell) : c.eraseH.members = c.members := rfl

theorem Refines.toFinset_nodeMembers (h : Refines ss A) : (nodeMembers ss.root).toFinset = A := by
  have hperm : (nodeMembers ss.root).Perm (membersOf (blocks ss.root)) := by
    rw [nodeMembers, membersOf, blocks, List.flatMap_map]
    simp only [Cell.members_eraseH]
    exact (BTree.preorder_perm_inorder _).flatMap_right _
  rw [List.toFinset_eq_of_perm _ _ hperm, ← contents, h.contents_eq]

theorem Refines.toFinset_Range (h : Refines ss A) : (ss.Range fun _ => true).toFinset = A := by
  rw [h.Range, callUntil_of_forall _ (fun _ _ => rfl), Finset.sort_toFinset]

theorem tracks_empty : Tracks empty ∅ := ⟨refines_empty, by simp, fun _ => rfl⟩

theorem Tracks.card_ne_zero_of_root (h : Tracks ss A) {l r : Node} {c : Cell}
    (hr : ss.root = .node l c r) : A.card ≠ 0 := by
  intro h0
  rw [← h.refines.size_eq] at h0
  rw [h.root_nil h0] at hr
  cases hr

theorem Tracks.root_nil_Delete (h : Tracks ss A) (x : UInt64) :
    (ss.Delete x).1.size = 0 → (ss.Delete x).1.root = .nil := by
  unfold SequenceSet.Delete
  split
  next hr => exact fun _ => hr
  next l c r hr =>
    rcases hd : delete (.node l c r) x with ⟨root, del, gone⟩
    cases del
    · intro h0
      simp only [Bool.false_eq_true, if_false] at h0
      exact absurd (h.refines.size_eq ▸ h0) (h.card_ne_zero_of_root hr)
    · by_cases hs : ss.size - 1 = 0
      · simp [hs, SequenceSet.Empty]
      · simp [hs]

theorem Tracks.step (h : Tracks ss A) {op : Op} (hop : op.Plain) :
    Tracks (step ss op) (absStep A op) := by
  cases op with
  | insert x =>
    have hr := h.refines.Insert hop
    refine ⟨hr, ?_, fun h0 => ?_⟩
    · intro y hy
      rcases Finset.mem_insert.mp hy with rfl | hy
      · exact hop
      · exact h.fit y hy
    · rw [SequenceSet.step, hr.size_eq] at h0
      simp at h0
  | delete x =>
    exact ⟨(h.refines.Delete x).1, fun y hy => h.fit y (Finset.mem_of_mem_erase hy),
      h.root_nil_Delete x⟩
  | empty => exact ⟨refines_Empty ss, by simp [absStep], fun _ => rfl⟩
  | setInitialMin m => exact hop.elim

theorem run_tracks (ops : List Op) (hops : ∀ op ∈ ops, op.Plain) :
    Tracks (run step empty ops) (run absStep ∅ ops) :=
  @run_simulation _ _ _ SequenceSet.step absStep Op.Plain Tracks (fun _ _ _ hv h => h.step hv) _ _
    tracks_empty ops hops

theorem Tracks.isEmpty_eq (h : Tracks ss A) : ss.IsEmpty = decide (A = ∅) := by
  cases hr : ss.root with
  | nil =>
    have hA : A = ∅ := by
      ext x
      simp [← h.refines.mem_iff, hr]
    simp [IsEmpty, hr, hA]
  | node l c r =>
    have hA : A ≠ ∅ := fun e => h.card_ne_zero_of_root hr (by simp [e])
    simp [IsEmpty, hr, hA]

theorem Tracks.equal_eq (h : Tracks ss A) (h' : Tracks sa B) : ss.Equal sa = decide (A = B) := by
  unfold Equal
  rw [h.isEmpty_eq, h'.isEmpty_eq]
  by_cases hA : A = ∅
  · subst hA
    by_cases hB : B = ∅ <;> simp [hB, eq_comm]
  by_cases hB : B = ∅
  · simp [hA, hB]
  rw [h.refines.size_eq, h'.refines.size_eq]
  by_cases hc : A.card = B.card
  · have hall : (iter sa.Exists ss.root).2 = decide (A ⊆ B) := by
      have hex : sa.Exists = fun x => decide (x ∈ B) := funext h'.refines.exists_eq
      rw [iter_eq, h.refines.members_eq, callUntil_eq, hex, Bool.eq_iff_iff]
      simp [Finset.subset_iff]
    have hsub : A ⊆ B ↔ A = B := ⟨fun hs => Finset.eq_of_subset_of_card_le hs hc.ge, fun e => e ▸ subset_rfl⟩
    simp [hA, hB, hc, hall, hsub]
  · have hne : A ≠ B := fun e => hc (e ▸ rfl)
    simp [hA, hB, hc, hne]

theorem Tracks.foldl_Insert (h : Tracks ss A) {xs : List UInt64}
    (hxs : ∀ x ∈ xs, x.toNat + numEntries < 2 ^ 64) :
    Tracks (xs.foldl SequenceSet.Insert ss) (A ∪ xs.toFinset) := by
  induction xs generalizing ss A with
  | nil => simpa using h
  | cons x xs ih =>
    have hx := hxs x List.mem_cons_self
    have h1 : Tracks (ss.Insert x) (Insert.insert x A) := h.step (show Op.Plain (.insert x) from hx)
    have e : A ∪ (x :: xs).toFinset = Insert.insert x A ∪ xs.toFinset := by
      ext y
      simp
    rw [List.foldl_cons, e]
    exact ih h1 fun y hy => hxs y (List.mem_cons_of_mem _ hy)

theorem Tracks.foldl_union (g : SequenceSet → List UInt64) {ssa : List SequenceSet}
    (hs : ∀ sa ∈ ssa, Tracks sa sa.contents ∧ (g sa).toFinset = sa.contents) (h : Tracks ss A) :
    Tracks (ssa.foldl (fun ss sa => (g sa).foldl SequenceSet.Insert ss) ss)
      (ssa.foldl (fun U sa => U ∪ sa.contents) A) := by
  induction ssa generalizing ss A with
  | nil => exact h
  | cons sa ssa ih =>
    obtain ⟨hsa, hg⟩ := hs sa List.mem_cons_self
    have hfit : ∀ x ∈ g sa, x.toNat + numEntries < 2 ^ 64 :=
      fun x hx => hsa.fit x (hg ▸ List.mem_toFinset.mpr hx)
    have h1 := h.foldl_Insert hfit
    rw [hg] at h1
    exact ih (fun sb hb => hs sb (List.mem_cons_of_mem _ hb)) h1

theorem Tracks.Union (h : Tracks ss A) {ssa : List SequenceSet}
    (hs : ∀ sa ∈ ssa, Tracks sa sa.contents) :
    Tracks (ss.Union ssa) (ssa.foldl (fun U sa => U ∪ sa.contents) A) :=
  h.foldl_union (fun sa => nodeMembers sa.root)
    (fun sa hsa => ⟨hs sa hsa, (hs sa hsa).refines.toFinset_nodeMembers⟩)

end Tracks

end SequenceSet

open SequenceSet in
theorem Union_tracks {ssa : List SequenceSet} (hs : ∀ sa ∈ ssa, Tracks sa sa.contents)
    (hne : ssa ≠ []) :
    ∃ u, Union ssa = some u ∧ Tracks u (ssa.foldl (fun U sa => U ∪ sa.contents) ∅) := by
  have hperm := List.mergeSort_perm ssa (fun a b => b.Size ≤ a.Size)
  have hU : (ssa.mergeSort fun a b => b.Size ≤ a.Size).foldl (fun U sa => U ∪ sa.contents) ∅ =
      ssa.foldl (fun U sa => U ∪ sa.contents) ∅ :=
    @List.Perm.foldl_eq _ _ (fun U (sa : SequenceSet) => U ∪ sa.contents) _ _
      ⟨fun U a b => Finset.union_right_comm U _ _⟩ hperm ∅
  unfold Union
  split
  next hnil =>
    rw [hnil] at hperm
    exact absurd hperm.nil_eq.symm hne
  next first rest hsort =>
    have hs' : ∀ sa ∈ first :: rest, Tracks sa sa.contents :=
      fun sa hsa => hs sa (hperm.subset (hsort ▸ hsa))
    have hfirst : Tracks first.Clone first.contents := hs' first List.mem_cons_self
    refine ⟨_, rfl, ?_⟩
    rw [← hU, hsort, List.foldl_cons, Finset.empty_union]
    exact hfirst.foldl_union (fun sa => sa.Range fun _ => true)
      (fun sa hsa => ⟨hs' sa (List.mem_cons_of_mem _ hsa),
        (hs' sa (List.mem_cons_of_mem _ hsa)).refines.toFinset_Range⟩)

open SequenceSet in
theorem foldl_contents_run (runs : List (List Op)) (hruns : ∀ r ∈ runs, ∀ op ∈ r, op.Plain)
    (A : Finset UInt64) :
    (runs.map (run SequenceSet.step empty)).foldl (fun U sa => U ∪ sa.contents) A =
      (runs.map (run absStep ∅)).foldl (· ∪ ·) A := by
  induction runs generalizing A with
  | nil => rfl
  | cons r runs ih =>
    have hr := (run_tracks r (hruns r List.mem_cons_self)).refines.contents_eq
    simp only [List.map_cons, List.foldl_cons, hr]
    exact ih (fun r' hr' => hruns r' (List.mem_cons_of_mem _ hr')) _

open SequenceSet in
/-- Along runs of Insert below the top block, Delete and Empty from the empty set: the function
`Union` of the sets of some runs holds the union of their members and counts it, the method
`Union` adds them to a set's members, and `Equal` is equality of the members. -/
theorem Union_Equal_run (ops : List Op) (runs : List (List Op))
    (hops : ∀ op ∈ ops, op.Plain) (hruns : ∀ r ∈ runs, ∀ op ∈ r, op.Plain) :
    (runs ≠ [] → ∃ u, Avl.Union (runs.map (run SequenceSet.step empty)) = some u ∧
        (∀ x, u.Exists x = decide (x ∈ (runs.map (run absStep ∅)).foldl (· ∪ ·) ∅)) ∧
        u.Size = ((runs.map (run absStep ∅)).foldl (· ∪ ·) ∅).card) ∧
      (∀ x, ((run SequenceSet.step empty ops).Union (runs.map (run SequenceSet.step empty))).Exists x =
        decide (x ∈ (runs.map (run absStep ∅)).foldl (· ∪ ·) (run absStep ∅ ops))) ∧
      ∀ ops', (∀ op ∈ ops', op.Plain) →
        (run SequenceSet.step empty ops).Equal (run SequenceSet.step empty ops') =
          decide (run absStep ∅ ops = run absStep ∅ ops') := by
  have hs : ∀ sa ∈ runs.map (run SequenceSet.step empty), Tracks sa sa.contents := by
    intro sa hsa
    obtain ⟨r, hr, rfl⟩ := List.mem_map.mp hsa
    have ht := run_tracks r (hruns r hr)
    rwa [← ht.refines.contents_eq] at ht
  refine ⟨fun hne => ?_, fun x => ?_, fun ops' hops' => ?_⟩
  · obtain ⟨u, hu, ht⟩ := Union_tracks hs (by simpa using hne)
    rw [foldl_contents_run runs hruns] at ht
    exact ⟨u, hu, ht.refines.exists_eq, ht.refines.size_eq⟩
  · have ht := (run_tracks ops hops).Union hs
    rw [foldl_contents_run runs hruns] at ht
    exact ht.refines.exists_eq x
  · exact (run_tracks ops hops).equal_eq (run_tracks ops' hops')

open SequenceSet in
theorem Union_Equal_run_small :
    (∀ op ∈ [Op.insert 1, .insert 5000, .delete 1], op.Plain) ∧
      (∀ r ∈ [[Op.insert 5000, .insert 7], [.insert 9000]], ∀ op ∈ r, op.Plain) ∧
      ∀ x, ((run SequenceSet.step empty [Op.insert 1, .insert 5000, .delete 1]).Union
          ([[Op.insert 5000, .insert 7], [.insert 9000]].map (run SequenceSet.step empty))).Exists x =
        decide (x ∈ ([[Op.insert 5000, .insert 7], [.insert 9000]].map
          (run SequenceSet.absStep ∅)).foldl (· ∪ ·)
          (run SequenceSet.absStep ∅ [Op.insert 1, .insert 5000, .delete 1])) := by
  have hops : ∀ op ∈ [Op.insert 1, .insert 5000, .delete 1], SequenceSet.Op.Plain op := by decide
  have hruns : ∀ r ∈ [[Op.insert 5000, .insert 7], [.insert 9000]], ∀ op ∈ r,
      SequenceSet.Op.Plain op := by decide
  exact ⟨hops, hruns, (Union_Equal_run _ _ hops hruns).2.1⟩

/-- In the top block the range test of `exists` wraps around, and `Equal` finds a set of one
member different from itself. -/
theorem Equal_top_block :
    (SequenceSet.empty.Insert 18446744073709551615).Equal
        (SequenceSet.empty.Insert 18446744073709551615) = false := by
  decide +kernel

end NatsServer.Avl
