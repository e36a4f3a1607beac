import Mathlib.Data.List.TakeWhile

/-!
# Loops that call back until the callback says stop

The iterators of the source take a callback `f : α → Bool`, stop right after the first call
that answers `false`, and return whether they ran to the end. Such a loop is observed through
the arguments of its calls and the flag it returns: `callUntil f xs` for a loop over `xs`.
`Calls.seq` runs a second loop only when the first one ran to its end, so consecutive and
nested loops compose into `callUntil` of the concatenation (`callUntil_append`), and the calls
are the prefix of `xs` up to the first `false` answer (`callUntil_eq`).
-/

namespace NatsServer.Lib

variable {α : Type}

def callUntil (f : α → Bool) : List α → List α × Bool
  | [] => ([], true)
  | x :: xs => if f x then (x :: (callUntil f xs).1, (callUntil f xs).2) else ([x], false)


def Calls.seq (r k : List α × Bool) : List α × Bool := if r.2 then (r.1 ++ k.1, k.2) else r

-- Generate the equation lemmas of callUntil and Calls.seq here, once, before the proofs below
-- unfold them in parallel.
section
attribute [local simp] callUntil Calls.seq
end

variable (f : α → Bool)

@[simp] theorem callUntil_nil : callUntil f [] = ([], true) := rfl

theorem callUntil_append (xs ys : List α) :
    callUntil f (xs ++ ys) = Calls.seq (callUntil f xs) (callUntil f ys) := by
  induction xs with
  | nil => simp [Calls.seq]
  | cons x xs ih =>
    by_cases hx : f x
    · simp only [List.cons_append, callUntil, hx, if_true, ih, Calls.seq]
      split <;> simp
    · simp [callUntil, hx, Calls.seq]

theorem callUntil_eq (xs : List α) :
    callUntil f xs = (xs.take ((xs.takeWhile f).length + 1), xs.all f) := by
  induction xs with
  | nil => rfl
  | cons x xs ih =>
    by_cases hx : f x
    · simp [callUntil, hx, ih, List.takeWhile_cons_of_pos]
    · simp [callUntil, hx, List.takeWhile_cons_of_neg]

theorem callUntil_of_forall {xs : List α} (h : ∀ x ∈ xs, f x = true) :
    callUntil f xs = (xs, true) := by
  rw [callUntil_eq, List.takeWhile_eq_self_iff.mpr h, List.all_eq_true.mpr h,
    List.take_of_length_le (Nat.le_succ _)]

/-! ## Counting loops over sequence numbers

`for seq := lo; seq <= hi; seq++` visits `upFrom lo hi`, `for seq := lo; seq < hi; seq++` visits
`upTo lo hi`, and `for seq := hi; seq > lo; seq--` visits `downFrom hi lo`. A loop that reaches
the largest `uint64` in the source wraps around and never ends; here it stops there.
-/

def upFrom (lo hi : UInt64) : List UInt64 :=
  (List.range (hi.toNat + 1 - lo.toNat)).map fun i => lo + UInt64.ofNat i

def upTo (lo hi : UInt64) : List UInt64 :=
  (List.range (hi.toNat - lo.toNat)).map fun i => lo + UInt64.ofNat i

def downFrom (hi lo : UInt64) : List UInt64 :=
  (List.range (hi.toNat - lo.toNat)).map fun i => hi - UInt64.ofNat i

end NatsServer.Lib
