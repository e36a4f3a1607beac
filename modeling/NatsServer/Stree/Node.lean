import Mathlib.Data.List.Perm.Basic
import Mathlib.Data.List.Sort
import NatsServer.Lib.Assoc

/-!
# The nodes of the subject tree

The adaptive radix tree of the stree package. A leaf keeps the rest of its subject (`suffix`);
an inner node keeps a compressed `prefix` and its children, each under its pivot byte. The
node kinds differ in capacity and in how they keep their slots: node4 to node48 append a child
and move the last one into the slot of a deleted one, node256 keeps child `c` in slot `c`. A
node is its kind, prefix and children list in the order `children()` returns them, so the
key table of node48 is the map from a pivot to its slot in that list.

What a node stores is `entries`: the leaves' subjects with the prefixes on the way down put back.
`WF` is the shape the tree operations keep: no byte `noPivot` anywhere, children under distinct
pivots, each child `Placed` under the pivot of its path.
-/

namespace NatsServer.Stree

open NatsServer.Lib

def noPivot : UInt8 := 127

def pwc : UInt8 := '*'.toUInt8
def fwc : UInt8 := '>'.toUInt8
def tsep : UInt8 := '.'.toUInt8

def commonPrefixLen : List UInt8 → List UInt8 → Nat
  | a :: s1, b :: s2 => if a = b then commonPrefixLen s1 s2 + 1 else 0
  | _, _ => 0

def pivot (subject : List UInt8) (pos : Nat) : UInt8 := subject.getD pos noPivot

inductive Kind
  | node4
  | node10
  | node16
  | node48
  | node256
  deriving DecidableEq, Repr

inductive Node (α : Type) where
  | leaf (suffix : List UInt8) (value : α)
  | node (kind : Kind) (pre : List UInt8) (children : List (UInt8 × Node α))

namespace Node

variable {α : Type}

@[induction_eliminator]
theorem ind {motive : Node α → Prop} (leaf : ∀ suffix value, motive (.leaf suffix value))
    (node : ∀ kind pre children, (∀ e ∈ children, motive e.2) → motive (.node kind pre children))
    (n : Node α) : motive n := by
  induction n using Node.rec (motive_2 := fun cs => ∀ e ∈ cs, motive e.2)
    (motive_3 := fun e => motive e.2) with
  | leaf suffix value => exact leaf suffix value
  | node kind pre cs ih => exact node kind pre cs ih
  | nil e he => cases he
  | cons e cs ihe ihcs x hx =>
    rcases List.mem_cons.mp hx with rfl | hx
    · exact ihe
    · exact ihcs x hx
  | mk c n ih => exact ih

def path : Node α → List UInt8
  | leaf suffix _ => suffix
  | node _ pre _ => pre

/-! ## The operations of the node kinds -/

def setSorted (c : UInt8) (n : Node α) : List (UInt8 × Node α) → List (UInt8 × Node α)
  | [] => [(c, n)]
  | (d, m) :: cs => if c < d then (c, n) :: (d, m) :: cs
      else if c = d then (c, n) :: cs else (d, m) :: setSorted c n cs

def addChild : Kind → UInt8 → Node α → List (UInt8 × Node α) → List (UInt8 × Node α)
  | .node256, c, n, cs => setSorted c n cs
  | _, c, n, cs => cs ++ [(c, n)]

@[simp] theorem addChild_node4 (c : UInt8) (n : Node α) (cs : List (UInt8 × Node α)) :
    addChild .node4 c n cs = cs ++ [(c, n)] := rfl

def findChild (c : UInt8) (cs : List (UInt8 × Node α)) : Option (Node α) := Assoc.find c cs

def swapDelete (c : UInt8) (cs : List (UInt8 × Node α)) : List (UInt8 × Node α) :=
  match cs.findIdx? (fun e => e.1 = c), cs.getLast? with
  | some i, some last => (cs.set i last).dropLast
  | _, _ => cs

def deleteChild : Kind → UInt8 → List (UInt8 × Node α) → List (UInt8 × Node α)
  | .node256, c, cs => Assoc.erase c cs
  | _, c, cs => swapDelete c cs

def isFull : Kind → List (UInt8 × Node α) → Bool
  | .node4, cs => 4 ≤ cs.length
  | .node10, cs => 10 ≤ cs.length
  | .node16, cs => 16 ≤ cs.length
  | .node48, cs => 48 ≤ cs.length
  | .node256, _ => false

def byKey (cs : List (UInt8 × Node α)) : List (UInt8 × Node α) :=
  cs.foldl (fun acc e => setSorted e.1 e.2 acc) []

def grow : Kind → List (UInt8 × Node α) → Kind × List (UInt8 × Node α)
  | .node4, cs => (.node10, cs)
  | .node10, cs => (.node16, cs)
  | .node16, cs => (.node48, cs)
  | .node48, cs => (.node256, byKey cs)
  | .node256, cs => (.node256, cs)

def shrink : Kind → List (UInt8 × Node α) → Option (Node α)
  | .node4, cs => if cs.length = 1 then cs.head?.map (·.2) else none
  | .node10, cs => if cs.length > 4 then none else some (node .node4 [] cs)
  | .node16, cs => if cs.length > 10 then none else some (node .node10 [] cs)
  | .node48, cs => if cs.length > 16 then none else some (node .node16 [] (byKey cs))
  | .node256, cs => if cs.length > 48 then none else some (node .node48 [] cs)

/-! ## What a node stores -/

mutual
def entries : Node α → List (List UInt8 × α)
  | leaf suffix value => [(suffix, value)]
  | node _ pre cs => (entriesOf cs).map fun e => (pre ++ e.1, e.2)
def entriesOf : List (UInt8 × Node α) → List (List UInt8 × α)
  | [] => []
  | (_, n) :: cs => entries n ++ entriesOf cs
end

def Placed (c : UInt8) : Node α → Prop
  | leaf suffix _ => pivot suffix 0 = c
  | node _ pre _ => pre ≠ [] ∧ pivot pre 0 = c

inductive WF : Node α → Prop
  | leaf {suffix : List UInt8} {value : α} : noPivot ∉ suffix → WF (leaf suffix value)
  | node {kind : Kind} {pre : List UInt8} {cs : List (UInt8 × Node α)} : noPivot ∉ pre →
      (cs.map Prod.fst).Nodup → (∀ e ∈ cs, Placed e.1 e.2) → (∀ e ∈ cs, WF e.2) →
      WF (node kind pre cs)

theorem entriesOf_eq_flatMap (cs : List (UInt8 × Node α)) :
    entriesOf cs = cs.flatMap fun e => entries e.2 := by
  induction cs with
  | nil => rfl
  | cons e cs ih => simp [entriesOf, ih]

@[simp] theorem entries_leaf (suffix : List UInt8) (value : α) :
    entries (leaf suffix value) = [(suffix, value)] := rfl

@[simp] theorem entries_node (k : Kind) (pre : List UInt8) (cs : List (UInt8 × Node α)) :
    entries (node k pre cs) = Assoc.mapKey (pre ++ ·) (entriesOf cs) := rfl

@[simp] theorem entriesOf_nil : entriesOf ([] : List (UInt8 × Node α)) = [] := rfl

@[simp] theorem entriesOf_cons (c : UInt8) (n : Node α) (cs : List (UInt8 × Node α)) :
    entriesOf ((c, n) :: cs) = entries n ++ entriesOf cs := rfl

@[simp] theorem entriesOf_append (A B : List (UInt8 × Node α)) :
    entriesOf (A ++ B) = entriesOf A ++ entriesOf B := by
  simp [entriesOf_eq_flatMap]

theorem mem_entriesOf {cs : List (UInt8 × Node α)} {e : List UInt8 × α} :
    e ∈ entriesOf cs ↔ ∃ ch ∈ cs, e ∈ entries ch.2 := by
  simp [entriesOf_eq_flatMap]

theorem mem_entries_node {k : Kind} {pre : List UInt8} {cs : List (UInt8 × Node α)}
    {e : List UInt8 × α} : e ∈ entries (node k pre cs) ↔ ∃ x ∈ entriesOf cs, e = (pre ++ x.1, x.2) := by
  simp only [entries_node, Assoc.mapKey, List.mem_map]
  exact exists_congr fun _ => and_congr_right fun _ => eq_comm

@[simp] theorem path_leaf (suffix : List UInt8) (value : α) : (leaf suffix value).path = suffix :=
  rfl

@[simp] theorem path_node (k : Kind) (pre : List UInt8) (cs : List (UInt8 × Node α)) :
    (node k pre cs).path = pre := rfl

theorem pivot_append_of_ne_nil {a : List UInt8} (b : List UInt8) (ha : a ≠ []) :
    pivot (a ++ b) 0 = pivot a 0 := by
  obtain ⟨x, a, rfl⟩ := List.exists_cons_of_ne_nil ha
  rfl

theorem Placed.pivot_of_mem {c : UInt8} {n : Node α} (hp : Placed c n) {e : List UInt8 × α}
    (he : e ∈ entries n) : pivot e.1 0 = c := by
  cases n with
  | leaf suffix value =>
    rw [entries_leaf, List.mem_singleton] at he
    subst he
    exact hp
  | node k pre cs =>
    obtain ⟨x, -, rfl⟩ := mem_entries_node.mp he
    rw [pivot_append_of_ne_nil _ hp.1]
    exact hp.2

/-! ## The node operations move children around and lose none -/

section Slots

variable {c : UInt8} {n : Node α} {cs : List (UInt8 × Node α)}

theorem setSorted_perm (hc : c ∉ cs.map Prod.fst) : (setSorted c n cs).Perm ((c, n) :: cs) := by
  induction cs with
  | nil => rfl
  | cons e cs ih =>
    obtain ⟨d, m⟩ := e
    simp only [List.map_cons, List.mem_cons, not_or] at hc
    simp only [setSorted, if_neg hc.1]
    split
    · rfl
    · exact ((ih hc.2).cons _).trans (List.Perm.swap _ _ _)

theorem addChild_perm (k : Kind) (hc : c ∉ cs.map Prod.fst) :
    (addChild k c n cs).Perm (cs ++ [(c, n)]) := by
  cases k with
  | node256 => exact (setSorted_perm hc).trans (List.perm_append_singleton _ _).symm
  | node4 | node10 | node16 | node48 => rfl

theorem swapDelete_perm (hn : (cs.map Prod.fst).Nodup) :
    (swapDelete c cs).Perm (Assoc.erase c cs) := by
  by_cases hc : c ∈ cs.map Prod.fst
  · obtain ⟨x, hx⟩ := Option.isSome_iff_exists.mp
      (by rw [Option.isSome_iff_ne_none, Ne, Assoc.find_eq_none_iff, not_not]; exact hc :
        (Assoc.find c cs).isSome)
    obtain ⟨A, B, rfl, hA⟩ := (Assoc.find_eq_some_iff c cs).mp hx
    have hB : c ∉ B.map Prod.fst := by
      simp only [List.map_append, List.map_cons] at hn
      exact (List.nodup_cons.mp (List.nodup_append.mp hn).2.1).1
    rw [Assoc.erase_append_cons c x A B hA hB]
    have hidx : (A ++ (c, x) :: B).findIdx? (fun e => e.1 = c) = some A.length := by
      have hnone : A.findIdx? (fun e => e.1 = c) = none := by
        simpa [List.findIdx?_eq_none_iff] using fun e he h => hA (List.mem_map.mpr ⟨e, he, h⟩)
      simp [List.findIdx?_append, hnone, List.findIdx?_cons]
    -- the last slot moves into the hole; without one after it, the hole is the last slot
    rcases List.eq_nil_or_concat B with rfl | ⟨B', z, rfl⟩
    · simp [swapDelete, hidx]
    · rw [List.concat_eq_append] at hidx ⊢
      have hsplit : A ++ (c, x) :: (B' ++ [z]) = A ++ (c, x) :: B' ++ [z] := by simp
      have hlast : (A ++ (c, x) :: B' ++ [z]).getLast? = some z := List.getLast?_concat ..
      simp only [swapDelete, hsplit] at hidx ⊢
      rw [hidx, hlast]
      simp only
      rw [List.set_append_left _ _ (by simp), List.set_append_right _ _ (by simp)]
      simp only [Nat.sub_self, List.set_cons_zero, List.dropLast_concat]
      exact (List.perm_append_singleton z B').symm.append_left A
  · rw [Assoc.erase_of_not_mem c cs hc]
    have hnone : cs.findIdx? (fun e => e.1 = c) = none := by
      simpa [List.findIdx?_eq_none_iff] using fun e he h => hc (List.mem_map.mpr ⟨e, he, h⟩)
    simp [swapDelete, hnone]

theorem deleteChild_perm (k : Kind) (hn : (cs.map Prod.fst).Nodup) :
    (deleteChild k c cs).Perm (Assoc.erase c cs) := by
  cases k with
  | node256 => rfl
  | node4 | node10 | node16 | node48 => exact swapDelete_perm hn

theorem nodup_keys_of_perm {cs' : List (UInt8 × Node α)} (h : cs.Perm cs')
    (hn : (cs.map Prod.fst).Nodup) : (cs'.map Prod.fst).Nodup :=
  (h.map Prod.fst).nodup_iff.mp hn

theorem deleteChild_subperm (k : Kind) (hn : (cs.map Prod.fst).Nodup) :
    (deleteChild k c cs).Subperm cs := by
  refine (deleteChild_perm k hn).subperm.trans ?_
  rw [Assoc.erase_eq_filter]
  exact List.filter_sublist.subperm

theorem foldl_setSorted_perm (acc : List (UInt8 × Node α))
    (h : (acc.map Prod.fst ++ cs.map Prod.fst).Nodup) :
    (cs.foldl (fun acc e => setSorted e.1 e.2 acc) acc).Perm (acc ++ cs) := by
  induction cs generalizing acc with
  | nil => simp
  | cons e cs ih =>
    have he : e.1 ∉ acc.map Prod.fst := by
      rw [List.map_cons, List.nodup_append] at h
      exact fun hm => h.2.2 _ hm _ (List.mem_cons_self ..) rfl
    have hperm : (setSorted e.1 e.2 acc).Perm (acc ++ [e]) :=
      (setSorted_perm he).trans (List.perm_append_singleton _ _).symm
    rw [List.foldl_cons]
    refine (ih _ ?_).trans ?_
    · refine ((hperm.map Prod.fst).append_right (cs.map Prod.fst)).nodup_iff.mpr ?_
      simpa using h
    · simpa using hperm.append_right cs

theorem byKey_perm (hn : (cs.map Prod.fst).Nodup) : (byKey cs).Perm cs := by
  simpa [byKey] using foldl_setSorted_perm [] (by simpa using hn)

theorem grow_perm (k : Kind) (hn : (cs.map Prod.fst).Nodup) : (grow k cs).2.Perm cs := by
  cases k with
  | node48 => exact byKey_perm hn
  | node4 | node10 | node16 | node256 => rfl

theorem entriesOf_perm {cs' : List (UInt8 × Node α)} (h : cs.Perm cs') :
    (entriesOf cs).Perm (entriesOf cs') := by
  rw [entriesOf_eq_flatMap, entriesOf_eq_flatMap]
  exact h.flatMap_right _

theorem entries_of_shrink {k : Kind} {sn : Node α} (h : shrink k cs = some sn)
    (hn : (cs.map Prod.fst).Nodup) : (entries sn).Perm (entriesOf cs) := by
  cases k with
  | node4 =>
    simp only [shrink] at h
    split at h
    · obtain ⟨e, rfl⟩ := List.length_eq_one_iff.mp ‹_›
      simp only [List.head?_cons, Option.map_some, Option.some.injEq] at h
      subst h
      simp [entriesOf]
    · cases h
  | node10 | node16 | node256 =>
    simp only [shrink] at h
    split at h
    · cases h
    · cases h
      simp [Assoc.mapKey]
  | node48 =>
    simp only [shrink] at h
    split at h
    · cases h
    · cases h
      simpa [Assoc.mapKey] using entriesOf_perm (byKey_perm hn)

end Slots

/-! ## What a well-formed node stores -/

theorem WF.node_of_subperm {k j : Kind} {pre pre' : List UInt8}
    {cs cs' : List (UInt8 × Node α)} (hw : WF (Node.node k pre cs)) (hpre : noPivot ∉ pre')
    (h : cs'.Subperm cs) : WF (Node.node j pre' cs') := by
  obtain ⟨l, hl, hsub⟩ := h
  cases hw with
  | node _ hkeys hplaced hwf =>
    have hmem : ∀ e ∈ cs', e ∈ cs := fun e he => hsub.subset (hl.symm.subset he)
    exact .node hpre (nodup_keys_of_perm hl ((hsub.map Prod.fst).nodup hkeys))
      (fun e he => hplaced e (hmem e he)) (fun e he => hwf e (hmem e he))

theorem WF.of_shrink {k : Kind} {pre : List UInt8} {cs : List (UInt8 × Node α)} {sn : Node α}
    (hw : WF (Node.node k pre cs)) (h : shrink k cs = some sn) : WF sn := by
  have hnil : noPivot ∉ ([] : List UInt8) := List.not_mem_nil
  cases k with
  | node4 =>
    simp only [shrink] at h
    split at h
    · obtain ⟨e, rfl⟩ := List.length_eq_one_iff.mp ‹_›
      simp only [List.head?_cons, Option.map_some, Option.some.injEq] at h
      subst h
      cases hw with
      | node _ _ _ hwf => exact hwf e (List.mem_singleton_self e)
    · cases h
  | node10 | node16 | node256 =>
    simp only [shrink] at h
    split at h
    · cases h
    · cases h
      exact hw.node_of_subperm hnil (List.Subperm.refl cs)
  | node48 =>
    simp only [shrink] at h
    split at h
    · cases h
    · cases h
      have hkeys : (cs.map Prod.fst).Nodup := by
        cases hw
        assumption
      exact hw.node_of_subperm hnil (byKey_perm hkeys).subperm

theorem WF.nodup_keys {n : Node α} (hw : WF n) : ((entries n).map Prod.fst).Nodup := by
  induction hw with
  | leaf _ => simp
  | @node k pre cs _ hkeys hplaced _ ih =>
    rw [entries_node, Assoc.mapKey, List.map_map, entriesOf_eq_flatMap]
    have hinj : Function.Injective fun x : List UInt8 => pre ++ x := List.append_right_injective pre
    have hflat : ((cs.flatMap fun e => entries e.2).map Prod.fst).Nodup := by
      rw [List.map_flatMap, List.nodup_flatMap]
      refine ⟨fun e he => ih e he, ?_⟩
      -- children under distinct pivots store subjects with distinct pivots
      refine (List.pairwise_map.mp hkeys).imp_of_mem fun {a b} ha hb hab => ?_
      show List.Disjoint _ _
      rw [List.disjoint_left]
      intro x hxa hxb
      obtain ⟨ea, hea, rfl⟩ := List.mem_map.mp hxa
      obtain ⟨eb, heb, hx⟩ := List.mem_map.mp hxb
      apply hab
      rw [← (hplaced a ha).pivot_of_mem hea, ← (hplaced b hb).pivot_of_mem heb, hx]
    simpa [Function.comp_def] using hflat.map hinj

end Node

end NatsServer.Stree
