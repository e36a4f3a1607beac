import NatsServer.Lib.Assoc

/-!
# Tries over association-list levels

A `Trie K P` node holds a payload and a level of children, an association list from keys to
nodes. Paths are lists of keys; `get?` follows one from a node, `payloadAt d` reads the payload
at the end of it, with `d` where no node is, and `Present` says a node is there. The lemmas
below say how these read back after a child of the first level is set or erased; a program
that walks a path and rebuilds the nodes on it is proved correct from them by induction on
the path.
-/

namespace NatsServer.Lib

structure Trie (K P : Type) where
  payload : P
  children : List (K × Trie K P)

namespace Trie

@[simp] theorem mk_payload_children {K P : Type} (t : Trie K P) : mk t.payload t.children = t := by
  cases t; rfl

variable {K P : Type} [DecidableEq K]

def get? (t : Trie K P) : List K → Option (Trie K P)
  | [] => some t
  | k :: ks => (Assoc.find k t.children).bind fun n => n.get? ks

def slot (d : P) (l : List (K × Trie K P)) (k : K) : Trie K P := (Assoc.find k l).getD ⟨d, []⟩

def payloadAt (d : P) (t : Trie K P) (p : List K) : P := ((t.get? p).map payload).getD d

def Present (t : Trie K P) (p : List K) : Prop := (t.get? p).isSome

-- Generate the equation lemmas of slot, payloadAt and Present here, once, before the proofs below
-- unfold them in parallel.
section
attribute [local simp] slot payloadAt Present
end

instance (t : Trie K P) (p : List K) : Decidable (t.Present p) :=
  inferInstanceAs (Decidable ((t.get? p).isSome = true))

section Lemmas

variable (d x : P) (t n : Trie K P) (l : List (K × Trie K P)) (k k' : K) (ks p : List K)

@[simp] theorem get?_nil : t.get? [] = some t := rfl

theorem get?_cons : t.get? (k :: ks) = (Assoc.find k t.children).bind fun n => n.get? ks := rfl

@[simp] theorem get?_set_self : (mk x (Assoc.set k n l)).get? (k :: ks) = n.get? ks := by
  simp [get?_cons]

theorem get?_set_of_ne (h : k' ≠ k) :
    (mk x (Assoc.set k n l)).get? (k' :: ks) = (mk x l).get? (k' :: ks) := by
  simp [get?_cons, Assoc.find_set_of_ne _ _ _ _ h]

@[simp] theorem get?_erase_self : (mk x (Assoc.erase k l)).get? (k :: ks) = none := by
  simp [get?_cons]

theorem get?_erase_of_ne (h : k' ≠ k) :
    (mk x (Assoc.erase k l)).get? (k' :: ks) = (mk x l).get? (k' :: ks) := by
  simp [get?_cons, Assoc.find_erase_of_ne _ _ _ h]

@[simp] theorem get?_leaf : (mk x ([] : List (K × Trie K P))).get? (k :: ks) = none := rfl

@[simp] theorem payloadAt_nil : payloadAt d t [] = t.payload := rfl

theorem payloadAt_cons : payloadAt d t (k :: ks) = payloadAt d (slot d t.children k) ks := by
  cases h : Assoc.find k t.children with
  | none =>
    cases ks <;> simp [payloadAt, get?_cons, slot, h]
  | some n => simp [payloadAt, get?_cons, slot, h]

@[simp] theorem slot_set_self : slot d (Assoc.set k n l) k = n := by
  simp [slot]

@[simp] theorem slot_erase_self : slot d (Assoc.erase k l) k = mk d [] := by
  simp [slot]

theorem payloadAt_cons_of_children {t t' : Trie K P} (h : t.children = t'.children) :
    payloadAt d t (k :: ks) = payloadAt d t' (k :: ks) := by
  simp [payloadAt_cons, h]

@[simp] theorem payloadAt_leaf : payloadAt d (mk d ([] : List (K × Trie K P))) p = d := by
  cases p <;> simp [payloadAt]

@[simp] theorem payloadAt_set_self :
    payloadAt d (mk x (Assoc.set k n l)) (k :: ks) = payloadAt d n ks := by
  simp [payloadAt_cons]

theorem payloadAt_set_of_ne (h : k' ≠ k) :
    payloadAt d (mk x (Assoc.set k n l)) (k' :: ks) = payloadAt d (mk x l) (k' :: ks) := by
  simp [payloadAt, get?_set_of_ne _ _ _ _ _ _ h]

@[simp] theorem payloadAt_erase_self : payloadAt d (mk x (Assoc.erase k l)) (k :: ks) = d := by
  simp [payloadAt_cons]

theorem payloadAt_erase_of_ne (h : k' ≠ k) :
    payloadAt d (mk x (Assoc.erase k l)) (k' :: ks) = payloadAt d (mk x l) (k' :: ks) := by
  simp [payloadAt, get?_erase_of_ne _ _ _ _ _ h]

theorem present_cons :
    t.Present (k :: ks) ↔ ∃ n, Assoc.find k t.children = some n ∧ n.Present ks := by
  cases h : Assoc.find k t.children <;> simp [Present, get?_cons, h]

@[simp] theorem present_nil : t.Present [] := rfl

@[simp] theorem present_set_self : (mk x (Assoc.set k n l)).Present (k :: ks) ↔ n.Present ks := by
  simp [Present]

theorem present_set_of_ne (h : k' ≠ k) :
    (mk x (Assoc.set k n l)).Present (k' :: ks) ↔ (mk x l).Present (k' :: ks) := by
  simp [Present, get?_set_of_ne _ _ _ _ _ _ h]

@[simp] theorem not_present_erase_self : ¬ (mk x (Assoc.erase k l)).Present (k :: ks) := by
  simp [Present]

theorem present_erase_of_ne (h : k' ≠ k) :
    (mk x (Assoc.erase k l)).Present (k' :: ks) ↔ (mk x l).Present (k' :: ks) := by
  simp [Present, get?_erase_of_ne _ _ _ _ _ h]

@[simp] theorem not_present_leaf : ¬ (mk x ([] : List (K × Trie K P))).Present (k :: ks) := by
  simp [Present]

theorem present_cons_of_children {t t' : Trie K P} (h : t.children = t'.children) :
    t.Present (k :: ks) ↔ t'.Present (k :: ks) := by
  simp [Present, get?_cons, h]

theorem Present.of_children {t t' : Trie K P} (h : t.children = t'.children) (hp : t.Present p) :
    t'.Present p := by
  cases p with
  | nil => exact present_nil t'
  | cons k ks => exact (present_cons_of_children k ks h).mp hp

theorem children_ne_nil_of_present (h : t.Present (k :: ks)) : t.children ≠ [] := by
  intro hc
  obtain ⟨n, hn, -⟩ := (present_cons t k ks).mp h
  simp [hc] at hn

theorem present_of_slot {y : P} (h : (mk y (slot d l k).children).Present ks) :
    (mk x l).Present (k :: ks) ∨ ks = [] := by
  cases ks with
  | nil => exact .inr rfl
  | cons k' ks' =>
    left
    cases hf : Assoc.find k l with
    | none =>
      rw [slot, hf, Option.getD_none] at h
      exact absurd h (not_present_leaf _ _ _)
    | some n =>
      rw [slot, hf, Option.getD_some] at h
      exact (present_cons _ _ _).mpr ⟨n, hf, (present_cons_of_children _ _ rfl).mp h⟩

end Lemmas

end Trie

end NatsServer.Lib
