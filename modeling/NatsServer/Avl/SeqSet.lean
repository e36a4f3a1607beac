import Mathlib.Data.Vector.Basic
import NatsServer.Lib.BTree
import NatsServer.Lib.Run

/-!
# The sequence set of `server/avl/seqset.go`

A `SequenceSet` is an AVL tree of nodes; a node covers the `numEntries` = 2048 sequences from
its `base` on, one bit each in 32 buckets of 64 bits. This module embeds the mutating half of
the source: the bit operations of a node, the rotations and the rebalancing block the source
repeats after every recursive step, `node.insert`, `node.delete`, `node.insertNodePrev`, and
the public `Insert` (with its fast path), `Exists`, `Delete`, `SetInitialMin` and `Empty`.

Pointers are values: a `*node` is a `Node`, nil included, and a method that mutates a node in
place returns the new subtree. The out-parameters `inserted`, `deleted` and `nodes` of the
recursive calls are returned as flags. The `changed` field of `SequenceSet` is only scratch
space for those flags and is `false` between calls, so it is not part of the state.
-/

namespace NatsServer.Avl

open NatsServer.Lib

def bitsPerBucket : Nat := 64
def numBuckets : Nat := 32
def numEntries : Nat := numBuckets * bitsPerBucket

/-- The payload of a source `node`: `base`, the bucket words and the stored height `h`; its
children `l` and `r` are the children in the enclosing tree. -/
structure Cell where
  base : UInt64
  bits : Vector UInt64 numBuckets
  h : Nat
  deriving DecidableEq, Repr

abbrev Node := BTree Cell

def zeroBits : Vector UInt64 numBuckets := Vector.replicate numBuckets 0

/-- Bucket and one-bit mask of `seq` in a node based at `base`:
`seq -= n.base; i := seq / bitsPerBucket; mask := uint64(1) << (seq % bitsPerBucket)`.
Every caller has checked `seq - base < numEntries`, where the reduction of the bucket index
modulo `numBuckets` changes nothing; on a larger index the source would panic. -/
def slot (base seq : UInt64) : Fin numBuckets × UInt64 :=
  let off := seq - base
  (⟨(off / UInt64.ofNat bitsPerBucket).toNat % numBuckets, Nat.mod_lt _ (by decide)⟩,
    1 <<< (off % UInt64.ofNat bitsPerBucket))

-- Generate the equation lemmas of bitsPerBucket, numBuckets, numEntries and slot here, once,
-- before the proofs below unfold them in parallel.
section
attribute [local simp] bitsPerBucket numBuckets numEntries slot
end

namespace Cell

def set (c : Cell) (seq : UInt64) : Cell × Bool :=
  let (i, mask) := slot c.base seq
  if c.bits[i] &&& mask == 0 then
    ({ c with bits := c.bits.set i.val (c.bits[i] ||| mask) i.isLt }, true)
  else (c, false)

/-- `node.clear`: clear the bit of `seq`. The first flag says it was set (`*deleted = true`),
the second that every bucket is now zero. A bit that was not set returns early without the
scan, since nodes in the tree are never empty. -/
def clear (c : Cell) (seq : UInt64) : Cell × Bool × Bool :=
  let (i, mask) := slot c.base seq
  if c.bits[i] &&& mask == 0 then (c, false, false)
  else
    let bits := c.bits.set i.val (c.bits[i] &&& ~~~mask) i.isLt
    ({ c with bits }, true, bits.all (· == 0))

-- Generate the equation lemmas of set and clear here, once, before the proofs below unfold them in
-- parallel.
section
attribute [local simp] set clear
end

def «exists» (c : Cell) (seq : UInt64) : Bool :=
  let (i, mask) := slot c.base seq
  c.bits[i] &&& mask != 0

end Cell

/-- The stored height of a child, `0` for a missing one (the `if n.l != nil { lh = n.l.h }`
reads of `maxH` and `balanceF`). -/
def hOf : Node → Nat
  | .nil => 0
  | .node _ c _ => c.h

def maxH : Node → Nat
  | .nil => 0
  | .node l _ r => max (hOf l) (hOf r)

def balanceF : Node → Int
  | .nil => 0
  | .node l _ r => (hOf l : Int) - hOf r

def fixH : Node → Node
  | .nil => .nil
  | .node l c r => .node l { c with h := max (hOf l) (hOf r) + 1 } r

/-- `node.rotateL`. Without a right child the source returns that nil child, dropping the
node (it only recomputes the node's height first). -/
def rotateL : Node → Node
  | .node l c (.node rl rc rr) => fixH (.node (fixH (.node l c rl)) rc rr)
  | _ => .nil

def rotateR : Node → Node
  | .node (.node ll lc lr) c r => fixH (.node ll lc (fixH (.node lr c r)))
  | _ => .nil

/-- The balance check the source writes out after `insert`, `delete` and `insertNodePrev`:
one single or double rotation at this node when its balance factor leaves `[-1, 1]`. -/
def rebalance (n : Node) : Node :=
  match n with
  | .nil => .nil
  | .node l c r =>
    if balanceF n > 1 then
      rotateR (.node (if balanceF l < 0 then rotateL l else l) c r)
    else if balanceF n < -1 then
      rotateL (.node l c (if balanceF r > 0 then rotateR r else r))
    else n

/-- `node.insert`: the new subtree, whether a bit was set, and whether a node was created
(`*nodes++`). A new node is based at `seq` rounded down to a multiple of `numEntries`. -/
def insert : Node → UInt64 → Node × Bool × Bool
  | .nil, seq =>
    let base := seq / UInt64.ofNat numEntries * UInt64.ofNat numEntries
    let (c, ins) := Cell.set ⟨base, zeroBits, 1⟩ seq
    (.node .nil c .nil, ins, true)
  | .node l c r, seq =>
    if seq < c.base then
      let (l', ins, made) := insert l seq
      (rebalance (fixH (.node l' c r)), ins, made)
    else if seq ≥ c.base + UInt64.ofNat numEntries then
      let (r', ins, made) := insert r seq
      (rebalance (fixH (.node l c r')), ins, made)
    else
      let (c', ins) := c.set seq
      (rebalance (fixH (.node l c' r)), ins, false)

/-- `node.insertNodePrev`: graft `nn`, all of whose sequences lie below those of `n`, under the
leftmost node of `n`, rebalancing on the way up. The `nil` equation is the source's
`if n.l == nil { n.l = nn }`. -/
def insertNodePrev : Node → Node → Node
  | .nil, nn => nn
  | .node l c r, nn => rebalance (fixH (.node (insertNodePrev l nn) c r))

/-- What replaces a node that `delete` empties: its only child, or, with two children, its
right subtree with the left one grafted in by `insertNodePrev`. -/
def graft : Node → Node → Node
  | .nil, r => r
  | l, .nil => l
  | l, r => insertNodePrev r l

def delete : Node → UInt64 → Node × Bool × Bool
  | .nil, _ => (.nil, false, false)
  | .node l c r, seq =>
    if seq < c.base then
      let (l', del, gone) := delete l seq
      (rebalance (fixH (.node l' c r)), del, gone)
    else if seq ≥ c.base + UInt64.ofNat numEntries then
      let (r', del, gone) := delete r seq
      (rebalance (fixH (.node l c r')), del, gone)
    else
      let (c', del, empty) := c.clear seq
      if empty then (rebalance (fixH (graft l r)), del, true)
      else (rebalance (fixH (.node l c' r)), del, false)

-- Generate the equation lemmas of hOf, fixH, insert, insertNodePrev and delete here, once, before
-- the proofs below unfold them in parallel.
section
attribute [local simp] hOf fixH insert insertNodePrev delete
end


section Equations

variable {l r : Node} {c : Cell} {seq : UInt64}

/-! One equation per branch of `insert` and `delete`. -/

theorem insert_of_lt (hlt : seq < c.base) :
    insert (.node l c r) seq = (rebalance (fixH (.node (insert l seq).1 c r)), (insert l seq).2) := by
  simp only [insert, if_pos hlt]

theorem insert_of_ge (hlt : ¬ seq < c.base) (hge : seq ≥ c.base + UInt64.ofNat numEntries) :
    insert (.node l c r) seq = (rebalance (fixH (.node l c (insert r seq).1)), (insert r seq).2) := by
  simp only [insert, if_neg hlt, if_pos hge]

theorem insert_of_covers (hlt : ¬ seq < c.base) (hge : ¬ seq ≥ c.base + UInt64.ofNat numEntries) :
    insert (.node l c r) seq = (rebalance (fixH (.node l (c.set seq).1 r)), (c.set seq).2, false) := by
  simp only [insert, if_neg hlt, if_neg hge]

theorem delete_of_lt (hlt : seq < c.base) :
    delete (.node l c r) seq = (rebalance (fixH (.node (delete l seq).1 c r)), (delete l seq).2) := by
  simp only [delete, if_pos hlt]

theorem delete_of_ge (hlt : ¬ seq < c.base) (hge : seq ≥ c.base + UInt64.ofNat numEntries) :
    delete (.node l c r) seq = (rebalance (fixH (.node l c (delete r seq).1)), (delete r seq).2) := by
  simp only [delete, if_neg hlt, if_pos hge]

theorem delete_of_empty (hlt : ¬ seq < c.base) (hge : ¬ seq ≥ c.base + UInt64.ofNat numEntries)
    (he : (c.clear seq).2.2 = true) :
    delete (.node l c r) seq = (rebalance (fixH (graft l r)), (c.clear seq).2.1, true) := by
  simp only [delete, if_neg hlt, if_neg hge, he, if_true]

theorem delete_of_nonempty (hlt : ¬ seq < c.base) (hge : ¬ seq ≥ c.base + UInt64.ofNat numEntries)
    (he : (c.clear seq).2.2 = false) :
    delete (.node l c r) seq = (rebalance (fixH (.node l (c.clear seq).1 r)), (c.clear seq).2.1, false) := by
  simp only [delete, if_neg hlt, if_neg hge, he, Bool.false_eq_true, if_false]

end Equations

/-- The loop at the top of `Insert`: when a node on the search path covers `seq`, set its bit
in place and report whether it was new; `none` when the walk falls off the tree. -/
def setExisting : Node → UInt64 → Option (Node × Bool)
  | .nil, _ => none
  | .node l c r, seq =>
    if seq < c.base then (setExisting l seq).map fun (l', b) => (.node l' c r, b)
    else if seq ≥ c.base + UInt64.ofNat numEntries then
      (setExisting r seq).map fun (r', b) => (.node l c r', b)
    else
      let (c', b) := c.set seq
      some (.node l c' r, b)

def existsWalk : Node → UInt64 → Bool
  | .nil, _ => false
  | .node l c r, seq =>
    if seq < c.base then existsWalk l seq
    else if seq ≥ c.base + UInt64.ofNat numEntries then existsWalk r seq
    else c.exists seq

-- Generate the equation lemmas of setExisting and existsWalk here, once, before the proofs below
-- unfold them in parallel.
section
attribute [local simp] setExisting existsWalk
end


/-- The errors of the package. `indexOutOfRange` is not an error value of the source: it
stands for the runtime panic of an out-of-range slice access. -/
inductive SsError
  | badEncoding
  | badVersion
  | setNotEmpty
  | indexOutOfRange
  deriving DecidableEq, Repr

def SsError.message : SsError → String
  | .badEncoding => "ss: bad encoding"
  | .badVersion => "ss: bad version"
  | .setNotEmpty => "ss: set not empty"
  | .indexOutOfRange => "runtime error: index out of range"

structure SequenceSet where
  root : Node
  size : Nat
  nodes : Nat
  deriving DecidableEq, Repr

namespace SequenceSet

def empty : SequenceSet := ⟨.nil, 0, 0⟩

def Insert (ss : SequenceSet) (seq : UInt64) : SequenceSet :=
  match setExisting ss.root seq with
  | some (root, changed) => { ss with root, size := if changed then ss.size + 1 else ss.size }
  | none =>
    let (root, changed, made) := insert ss.root seq
    { root
      size := if changed then ss.size + 1 else ss.size
      nodes := if made then ss.nodes + 1 else ss.nodes }

def «Exists» (ss : SequenceSet) (seq : UInt64) : Bool := existsWalk ss.root seq

def IsEmpty (ss : SequenceSet) : Bool :=
  match ss.root with
  | .nil => true
  | _ => false

def Empty (_ : SequenceSet) : SequenceSet := ⟨.nil, 0, 0⟩

def SetInitialMin (ss : SequenceSet) (min : UInt64) : Except SsError SequenceSet :=
  if !ss.IsEmpty then .error .setNotEmpty
  else .ok { ss with root := .node .nil ⟨min, zeroBits, 1⟩ .nil, nodes := 1 }

/-- `Delete`: the new set and whether `seq` was a member. The root is replaced even when
nothing was deleted, since the walk rebalances every node on its path. -/
def Delete (ss : SequenceSet) (seq : UInt64) : SequenceSet × Bool :=
  match ss.root with
  | .nil => (ss, false)
  | .node l c r =>
    let (root, deleted, gone) := delete (.node l c r) seq
    let ss := { ss with root, nodes := if gone then ss.nodes - 1 else ss.nodes }
    if deleted then
      let ss := { ss with size := ss.size - 1 }
      (if ss.size == 0 then ss.Empty else ss, true)
    else (ss, false)

def Size (ss : SequenceSet) : Nat := ss.size

def Nodes (ss : SequenceSet) : Nat := ss.nodes

inductive Op
  | insert (seq : UInt64)
  | delete (seq : UInt64)
  | empty
  | setInitialMin (min : UInt64)
  deriving DecidableEq, Repr

def step (ss : SequenceSet) : Op → SequenceSet
  | .insert seq => ss.Insert seq
  | .delete seq => (ss.Delete seq).1
  | .empty => ss.Empty
  | .setInitialMin m =>
    match ss.SetInitialMin m with
    | .ok ss' => ss'
    | .error _ => ss

end SequenceSet

end NatsServer.Avl
