import Mathlib.Data.List.Basic
import Mathlib.Algebra.Order.Group.Nat

/-!
# Fixed-width little-endian words in byte buffers

`leBytes w n` writes the low `w` bytes of `n`, least significant first; `leValue` reads a list
of bytes back as a number; `getLE buf i w` reads the `w` bytes at offset `i`. The round-trip
lemmas are stated at an offset inside a larger buffer, the way a decoder walking an index meets
them: one word (`getLE_leBytes`), and word `i` of a run of words (`getLE_words`).
-/

namespace NatsServer.Lib.Bytes

def leBytes : Nat → Nat → List UInt8
  | 0, _ => []
  | w + 1, n => UInt8.ofNat (n % 256) :: leBytes w (n / 256)

def leValue : List UInt8 → Nat
  | [] => 0
  | b :: bs => b.toNat + 256 * leValue bs

-- Generate the equation lemmas of leBytes and leValue here, once, before the proofs below unfold
-- them in parallel.
section
attribute [local simp] leBytes leValue
end


def getLE (buf : List UInt8) (i w : Nat) : Nat := leValue ((buf.drop i).take w)

@[simp] theorem length_leBytes (w n : Nat) : (leBytes w n).length = w := by
  induction w generalizing n with
  | zero => rfl
  | succ w ih => simp [leBytes, ih]

theorem leValue_leBytes (w n : Nat) : leValue (leBytes w n) = n % 256 ^ w := by
  induction w generalizing n with
  | zero => simp [leBytes, leValue, Nat.mod_one]
  | succ w ih =>
    have hlow : (UInt8.ofNat (n % 256)).toNat = n % 256 := by
      rw [UInt8.toNat_ofNat']
      omega
    simp only [leBytes, leValue, hlow, ih]
    rw [pow_succ', Nat.mod_mul]

theorem length_flatMap_leBytes (w : Nat) (xs : List Nat) :
    (xs.flatMap (leBytes w)).length = w * xs.length := by
  induction xs with
  | nil => rfl
  | cons x xs ih =>
    rw [List.flatMap_cons, List.length_append, length_leBytes, ih, List.length_cons, Nat.mul_succ]
    omega

theorem getLE_leBytes (pre post : List UInt8) (w n : Nat) :
    getLE (pre ++ leBytes w n ++ post) pre.length w = n % 256 ^ w := by
  rw [getLE, List.append_assoc, List.drop_left, List.take_left' (length_leBytes w n),
    leValue_leBytes]

theorem getLE_words (pre post : List UInt8) (w : Nat) (xs : List Nat) {i : Nat}
    (hi : i < xs.length) :
    getLE (pre ++ xs.flatMap (leBytes w) ++ post) (pre.length + w * i) w = xs[i] % 256 ^ w := by
  induction xs generalizing pre i with
  | nil => simp at hi
  | cons x xs ih =>
    cases i with
    | zero =>
      simpa [List.flatMap_cons, List.append_assoc] using
        getLE_leBytes pre (xs.flatMap (leBytes w) ++ post) w x
    | succ i =>
      -- word `i + 1` of `x :: xs` is word `i` of `xs`, once `x` has joined the prefix
      have h := ih (pre ++ leBytes w x) (by simpa using hi)
      simp only [List.length_append, length_leBytes, List.append_assoc] at h
      have hidx : pre.length + w * (i + 1) = pre.length + w + w * i := by
        rw [Nat.mul_succ]
        omega
      simp only [List.flatMap_cons, List.append_assoc, List.getElem_cons_succ, hidx]
      exact h

end NatsServer.Lib.Bytes
