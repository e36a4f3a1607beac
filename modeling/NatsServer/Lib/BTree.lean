import Mathlib.Data.List.Pairwise
import Mathlib.Data.List.Perm.Basic

/-!
# Binary trees, their walks, and rebuilding a search tree from its pre-order walk

A `BTree α` is a binary tree with a payload at every node. `inorder` and `preorder` are the two
walks; `insertBy lt` is plain search-tree insertion without rebalancing (an element goes left
of a node exactly when `lt` says it comes before it). The main result, `rebuild_preorder`,
says that inserting the pre-order walk of a search tree into the empty tree, one element after
the other, gives the same tree back: same shape, same payloads.
-/

namespace NatsServer.Lib

inductive BTree (α : Type) where
  | nil
  | node (l : BTree α) (a : α) (r : BTree α)
  deriving DecidableEq, Repr

namespace BTree

variable {α β : Type}

def inorder : BTree α → List α
  | nil => []
  | node l a r => inorder l ++ a :: inorder r

def preorder : BTree α → List α
  | nil => []
  | node l a r => a :: (preorder l ++ preorder r)

def size : BTree α → Nat
  | nil => 0
  | node l _ r => size l + 1 + size r

def height : BTree α → Nat
  | nil => 0
  | node l _ r => max (height l) (height r) + 1

def map (f : α → β) : BTree α → BTree β
  | nil => nil
  | node l a r => node (map f l) (f a) (map f r)

def AllNodes (p : BTree α → α → BTree α → Prop) : BTree α → Prop
  | nil => True
  | node l a r => p l a r ∧ AllNodes p l ∧ AllNodes p r

instance decAllNodes (p : BTree α → α → BTree α → Prop) [∀ l a r, Decidable (p l a r)] :
    DecidablePred (AllNodes p)
  | nil => isTrue trivial
  | node l a r =>
    haveI := decAllNodes p l
    haveI := decAllNodes p r
    inferInstanceAs (Decidable (p l a r ∧ AllNodes p l ∧ AllNodes p r))

@[simp] theorem inorder_nil : (nil : BTree α).inorder = [] := rfl
@[simp] theorem inorder_node (l r : BTree α) (a : α) :
    (node l a r).inorder = l.inorder ++ a :: r.inorder := rfl
@[simp] theorem preorder_nil : (nil : BTree α).preorder = [] := rfl
@[simp] theorem preorder_node (l r : BTree α) (a : α) :
    (node l a r).preorder = a :: (l.preorder ++ r.preorder) := rfl
@[simp] theorem size_nil : (nil : BTree α).size = 0 := rfl
@[simp] theorem size_node (l r : BTree α) (a : α) : (node l a r).size = l.size + 1 + r.size := rfl
@[simp] theorem height_nil : (nil : BTree α).height = 0 := rfl
@[simp] theorem height_node (l r : BTree α) (a : α) :
    (node l a r).height = max l.height r.height + 1 := rfl
@[simp] theorem allNodes_nil (p : BTree α → α → BTree α → Prop) : AllNodes p nil := trivial
@[simp] theorem allNodes_node (p : BTree α → α → BTree α → Prop) (l r : BTree α) (a : α) :
    AllNodes p (node l a r) ↔ p l a r ∧ AllNodes p l ∧ AllNodes p r := Iff.rfl
@[simp] theorem map_nil (f : α → β) : (nil : BTree α).map f = nil := rfl
@[simp] theorem map_node (f : α → β) (l r : BTree α) (a : α) :
    (node l a r).map f = node (l.map f) (f a) (r.map f) := rfl

theorem length_inorder (t : BTree α) : t.inorder.length = t.size := by
  induction t with
  | nil => rfl
  | node l a r ihl ihr => simp [ihl, ihr]; omega

theorem preorder_perm_inorder (t : BTree α) : t.preorder.Perm t.inorder := by
  induction t with
  | nil => exact List.Perm.refl _
  | node l a r ihl ihr =>
    simp only [preorder_node, inorder_node]
    exact ((ihl.append ihr).cons a).trans List.perm_middle.symm

theorem length_preorder (t : BTree α) : t.preorder.length = t.size := by
  rw [(preorder_perm_inorder t).length_eq, length_inorder]

theorem mem_preorder {t : BTree α} {a : α} : a ∈ t.preorder ↔ a ∈ t.inorder :=
  (preorder_perm_inorder t).mem_iff

theorem inorder_map (f : α → β) (t : BTree α) : (t.map f).inorder = t.inorder.map f := by
  induction t with
  | nil => rfl
  | node l a r ihl ihr => simp [ihl, ihr]

theorem preorder_map (f : α → β) (t : BTree α) : (t.map f).preorder = t.preorder.map f := by
  induction t with
  | nil => rfl
  | node l a r ihl ihr => simp [ihl, ihr]

section Insert

variable (lt : α → α → Bool)

/-- Search-tree insertion without rebalancing: `a` goes left of a node `b` when `lt a b`,
and right otherwise (so ties go right). -/
def insertBy : BTree α → α → BTree α
  | nil, a => node nil a nil
  | node l b r, a => if lt a b then node (insertBy l a) b r else node l b (insertBy r a)

-- Generate the equation lemmas of insertBy here, once, before the proofs below unfold them in
-- parallel.
section
attribute [local simp] insertBy
end


def Searchable (t : BTree α) : Prop :=
  t.inorder.Pairwise (fun x y => lt x y = true ∧ lt y x = false)

variable {lt}

theorem foldl_insertBy_left {l r : BTree α} {b : α} {xs : List α}
    (hxs : ∀ x ∈ xs, lt x b = true) :
    xs.foldl (insertBy lt) (node l b r) = node (xs.foldl (insertBy lt) l) b r := by
  induction xs generalizing l with
  | nil => rfl
  | cons x xs ih =>
    have hx : lt x b = true := hxs x (List.mem_cons_self ..)
    simp only [List.foldl_cons, insertBy, hx, if_true]
    exact ih (fun y hy => hxs y (List.mem_cons_of_mem _ hy))

theorem foldl_insertBy_right {l r : BTree α} {b : α} {xs : List α}
    (hxs : ∀ x ∈ xs, lt x b = false) :
    xs.foldl (insertBy lt) (node l b r) = node l b (xs.foldl (insertBy lt) r) := by
  induction xs generalizing r with
  | nil => rfl
  | cons x xs ih =>
    have hx : lt x b = false := hxs x (List.mem_cons_self ..)
    simp only [List.foldl_cons, insertBy, hx]
    exact ih (fun y hy => hxs y (List.mem_cons_of_mem _ hy))

theorem rebuild_preorder {t : BTree α} (ht : Searchable lt t) :
    t.preorder.foldl (insertBy lt) nil = t := by
  induction t with
  | nil => rfl
  | node l a r ihl ihr =>
    simp only [Searchable, inorder_node, List.pairwise_append, List.pairwise_cons,
      List.mem_cons] at ht
    obtain ⟨hl, ⟨har, hr⟩, hcross⟩ := ht
    -- every element of `l` comes before `a`, and `a` before every element of `r`
    have hbefore : ∀ x ∈ l.preorder, lt x a = true := fun x hx =>
      (hcross x (mem_preorder.mp hx) a (Or.inl rfl)).1
    have hafter : ∀ y ∈ r.preorder, lt y a = false := fun y hy =>
      (har y (mem_preorder.mp hy)).2
    simp only [preorder_node, List.foldl_cons, List.foldl_append, insertBy]
    rw [foldl_insertBy_left hbefore, foldl_insertBy_right hafter, ihl hl, ihr hr]

end Insert

end BTree

end NatsServer.Lib
