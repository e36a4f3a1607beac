import NatsServer.Stree.Node

/-!
# Insert, Find and Delete of the subject tree

The recursive `insert` and `delete` of the source walk down from the root, skipping the prefix of
each inner node and following the child under the pivot of what is left of the subject; the
walk down to a child is `insertChild` and `deleteWalk`, which rewrite the slot they pass through
as the source rewrites `*np`. Positions `si` into the subject are kept as the rest of the
subject from `si` on.
-/

namespace NatsServer.Stree

open NatsServer.Lib Node

structure SubjectTree (α : Type) where
  root : Option (Node α)
  size : Nat

namespace SubjectTree

variable {α : Type}

def NewSubjectTree : SubjectTree α := ⟨none, 0⟩

def Size (t : SubjectTree α) : Nat := t.size

@[simp] theorem Size_NewSubjectTree : (NewSubjectTree : SubjectTree α).Size = 0 := rfl

def Empty (_ : SubjectTree α) : SubjectTree α := ⟨none, 0⟩

/-- The leaf case of insert: replace the value, or split the leaf under a node4 holding the
common prefix. The recursive call the source makes when both halves would sit under one pivot
needs a subject holding `noPivot`; each such call consumes `cpi ≥ 1` bytes, so `fuel`, the bytes
left, bounds it. -/
def insertLeaf (value : α) : Nat → List UInt8 → α → List UInt8 → Node α × Option α
  | fuel, suffix, old, rest =>
    if suffix = rest then (leaf suffix value, some old)
    else
      let cpi := commonPrefixLen suffix rest
      let suffix' := suffix.drop cpi
      let rest' := rest.drop cpi
      if 0 < cpi ∧ rest' ≠ [] ∧ pivot suffix' 0 = pivot rest' 0 then
        match fuel with
        | 0 => (leaf suffix old, none)
        | fuel + 1 =>
          (node .node4 (rest.take cpi)
            (addChild .node4 (pivot suffix' 0) (insertLeaf value fuel suffix' old rest').1 []), none)
      else
        (node .node4 (rest.take cpi) (addChild .node4 (pivot suffix' 0) (leaf suffix' old)
          (addChild .node4 (pivot rest' 0) (leaf rest' value) [])), none)

mutual
/-- insert below a node: the new node for its slot, and the old value if the subject was
there. A node with no prefix is the first case with nothing to skip. -/
def insertNode (value : α) : Node α → List UInt8 → Node α × Option α
  | leaf suffix old, rest => insertLeaf value rest.length suffix old rest
  | node k pre cs, rest =>
    let cpi := commonPrefixLen pre rest
    if pre.length ≤ cpi then
      let rest' := rest.drop pre.length
      match insertChild value (pivot rest' 0) cs rest' with
      | some r => (node k pre r.1, r.2)
      | none =>
        let g := if isFull k cs then grow k cs else (k, cs)
        (node g.1 pre (addChild g.1 (pivot rest' 0) (leaf rest' value) g.2), none)
    else
      let rest' := rest.drop cpi
      let n' := node k (pre.drop cpi) cs
      (node .node4 (rest.take cpi) (addChild .node4 (pivot rest' 0) (leaf rest' value)
        (addChild .node4 (pivot n'.path 0) n' [])), none)
def insertChild (value : α) (p : UInt8) :
    List (UInt8 × Node α) → List UInt8 → Option (List (UInt8 × Node α) × Option α)
  | [], _ => none
  | (c, n) :: cs, rest =>
    if c = p then some ((c, (insertNode value n rest).1) :: cs, (insertNode value n rest).2)
    else (insertChild value p cs rest).map fun r => ((c, n) :: r.1, r.2)
end

/-- Insert: refused for a subject holding `noPivot`; the old value when the subject was
there, which is when the source returns `updated`. -/
def Insert (t : SubjectTree α) (subject : List UInt8) (value : α) : SubjectTree α × Option α :=
  if noPivot ∈ subject then (t, none)
  else
    let r := match t.root with
      | none => (leaf subject value, none)
      | some n => insertNode value n subject
    (⟨some r.1, if r.2.isSome then t.size else t.size + 1⟩, r.2)

@[simp] theorem Insert_of_noPivot {t : SubjectTree α} {subject : List UInt8}
    (h : noPivot ∈ subject) (value : α) : t.Insert subject value = (t, none) := by
  simp [Insert, h]

mutual
def findNode : Node α → List UInt8 → Option α
  | leaf suffix value, rest => if suffix = rest then some value else none
  | node _ pre cs, rest =>
    if rest.take pre.length = pre then
      findIn (pivot (rest.drop pre.length) 0) cs (rest.drop pre.length)
    else none
def findIn (p : UInt8) : List (UInt8 × Node α) → List UInt8 → Option α
  | [], _ => none
  | (c, n) :: cs, rest => if c = p then findNode n rest else findIn p cs rest
end

def Find (t : SubjectTree α) (subject : List UInt8) : Option α :=
  t.root.bind fun n => findNode n subject

@[simp] theorem Find_NewSubjectTree (subject : List UInt8) :
    (NewSubjectTree : SubjectTree α).Find subject = none := rfl

def prependPre (pre : List UInt8) : Node α → Node α
  | leaf suffix value => leaf (pre ++ suffix) value
  | node k p cs => if 0 < pre.length then node k (pre ++ p) cs else node k p cs

mutual
/-- delete below an inner node: the new node for its slot and the deleted value. A leaf child
is deleted here, by its parent, which then may shrink. -/
def deleteInner : Node α → List UInt8 → Option (Node α × α)
  | leaf _ _, _ => none
  | node k pre cs, rest =>
    if rest.length < pre.length then none
    else if rest.take pre.length ≠ pre then none
    else
      let rest' := rest.drop pre.length
      let p := pivot rest' 0
      match findChild p cs with
      | none => none
      | some (leaf suffix value) =>
        if suffix = rest' then
          let cs' := deleteChild k p cs
          some ((match shrink k cs' with
            | none => node k pre cs'
            | some sn => prependPre pre sn), value)
        else none
      | some (node ..) => (deleteWalk p cs rest').map fun r => (node k pre r.1, r.2)
def deleteWalk (p : UInt8) :
    List (UInt8 × Node α) → List UInt8 → Option (List (UInt8 × Node α) × α)
  | [], _ => none
  | (c, n) :: cs, rest =>
    if c = p then (deleteInner n rest).map fun r => ((c, r.1) :: cs, r.2)
    else (deleteWalk p cs rest).map fun r => ((c, n) :: r.1, r.2)
end

def deleteRoot : Node α → List UInt8 → Option (Option (Node α) × α)
  | leaf suffix value, rest => if suffix = rest then some (none, value) else none
  | node k pre cs, rest => (deleteInner (node k pre cs) rest).map fun r => (some r.1, r.2)

def Delete (t : SubjectTree α) (subject : List UInt8) : SubjectTree α × Option α :=
  if subject = [] then (t, none)
  else
    match t.root with
    | none => (t, none)
    | some n =>
      match deleteRoot n subject with
      | none => (t, none)
      | some r => (⟨r.1, t.size - 1⟩, some r.2)

/-! ## Runs of operations -/

inductive Op (α : Type)
  | insert (subject : List UInt8) (value : α)
  | delete (subject : List UInt8)
  | empty

def apply (t : SubjectTree α) : Op α → SubjectTree α × Option α
  | .insert subject value => t.Insert subject value
  | .delete subject => t.Delete subject
  | .empty => (t.Empty, none)

def step (t : SubjectTree α) (o : Op α) : SubjectTree α := (t.apply o).1

def Op.Valid : Op α → Prop
  | .insert subject _ => subject ≠ [] ∧ noPivot ∉ subject
  | .delete subject => subject ≠ [] ∧ noPivot ∉ subject
  | .empty => True

instance (o : Op α) : Decidable o.Valid :=
  match o with
  | .insert subject _ => inferInstanceAs (Decidable (subject ≠ [] ∧ noPivot ∉ subject))
  | .delete subject => inferInstanceAs (Decidable (subject ≠ [] ∧ noPivot ∉ subject))
  | .empty => inferInstanceAs (Decidable True)

def absApply (M : Assoc.Map (List UInt8) α) : Op α → Assoc.Map (List UInt8) α × Option α
  | .insert subject value => (M.set subject value, M.find subject)
  | .delete subject => (M.erase subject, M.find subject)
  | .empty => (Assoc.Map.empty, none)

def absStep (M : Assoc.Map (List UInt8) α) (o : Op α) : Assoc.Map (List UInt8) α :=
  (absApply M o).1

end SubjectTree

end NatsServer.Stree
