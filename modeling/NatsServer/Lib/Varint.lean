import Mathlib.Data.List.Basic
import Mathlib.Data.Nat.Size
import Mathlib.Tactic.Ring

/-!
# Go's varints

`Binary.putUvarint` is the byte list `binary.PutUvarint` writes: seven bits a byte, low group
first, the high bit set on every byte but the last. `Binary.uvarint` is `binary.Uvarint` with
its two overflow checks, returning the value and the count of bytes read (`0` when the buffer
ends, negative on overflow). `putVarint` and `varint` zigzag a signed value onto an unsigned
one. The round trips hold with any bytes after the varint (`uvarint_putUvarint`,
`varint_putVarint`), which is how a decoder walking a buffer meets them. `length_putUvarint`
gives the length of a uvarint from the bit length of the value.
-/

namespace NatsServer.Lib.Binary

def MaxVarintLen64 : Nat := 10

def putUvarintLoop : Nat → UInt64 → List UInt8
  | 0, x => [x.toUInt8]
  | n + 1, x => if x < 0x80 then [x.toUInt8] else (x.toUInt8 ||| 0x80) :: putUvarintLoop n (x >>> 7)

def putUvarint (x : UInt64) : List UInt8 := putUvarintLoop (MaxVarintLen64 - 1) x

def uvarintLoop : Nat → Nat → UInt64 → List UInt8 → UInt64 × Int
  | _, _, _, [] => (0, 0)
  | i, s, x, b :: bs =>
    -- catch byte reads past MaxVarintLen64
    if i = MaxVarintLen64 then (0, -(i + 1 : Int))
    else if b < 0x80 then
      if i = MaxVarintLen64 - 1 ∧ b > 1 then (0, -(i + 1 : Int))
      else (x ||| b.toUInt64 <<< s.toUInt64, i + 1)
    else uvarintLoop (i + 1) (s + 7) (x ||| (b &&& 0x7f).toUInt64 <<< s.toUInt64) bs

-- Generate the equation lemmas of putUvarintLoop and uvarintLoop here, once, before the proofs
-- below unfold them in parallel.
section
attribute [local simp] putUvarintLoop uvarintLoop
end


def uvarint (buf : List UInt8) : UInt64 × Int := uvarintLoop 0 0 0 buf

def putVarint (x : Int64) : List UInt8 :=
  let ux := x.toUInt64 <<< 1
  putUvarint (if x < 0 then ~~~ux else ux)

def varint (buf : List UInt8) : Int64 × Int :=
  let (ux, n) := uvarint buf
  let x := (ux >>> 1).toInt64
  (if ux &&& 1 ≠ 0 then ~~~x else x, n)

example : putUvarint 300 = [172, 2] ∧ uvarint [172, 2, 5] = (300, 2) ∧
    putUvarint 0xFFFFFFFFFFFFFFFF = [255, 255, 255, 255, 255, 255, 255, 255, 255, 1] := by
  decide +kernel

example : uvarint [255, 255, 255, 255, 255, 255, 255, 255, 255, 2] = (0, -10) ∧
    uvarint [128, 128] = (0, 0) ∧ varint (putVarint (-3)) = (-3, 1) := by
  decide +kernel

section Lemmas

theorem putUvarintLoop_ne_nil (n : Nat) (x : UInt64) : putUvarintLoop n x ≠ [] := by
  cases n with
  | zero => simp [putUvarintLoop]
  | succ n =>
    rw [putUvarintLoop]
    split <;> simp

theorem length_putUvarintLoop_le (n : Nat) (x : UInt64) : (putUvarintLoop n x).length ≤ n + 1 := by
  induction n generalizing x with
  | zero => simp [putUvarintLoop]
  | succ n ih =>
    rw [putUvarintLoop]
    split
    · simp
    · simpa using ih (x >>> 7)

theorem length_putUvarint_pos (x : UInt64) : 0 < (putUvarint x).length :=
  List.length_pos_of_ne_nil (putUvarintLoop_ne_nil _ x)

theorem length_putUvarint_le (x : UInt64) : (putUvarint x).length ≤ MaxVarintLen64 :=
  length_putUvarintLoop_le _ x

theorem length_putVarint_pos (x : Int64) : 0 < (putVarint x).length := length_putUvarint_pos _

theorem length_putVarint_le (x : Int64) : (putVarint x).length ≤ MaxVarintLen64 :=
  length_putUvarint_le _

theorem toNat_or_shiftLeft (a b : UInt64) {s : Nat} (hs : s < 64) (ha : a.toNat < 2 ^ s)
    (hb : b.toNat * 2 ^ s < 2 ^ 64) :
    (a ||| b <<< s.toUInt64).toNat = a.toNat + b.toNat * 2 ^ s := by
  have hs' : s.toUInt64.toNat % 64 = s := by
    rw [Nat.toUInt64_eq, UInt64.toNat_ofNat']
    omega
  rw [UInt64.toNat_or, UInt64.toNat_shiftLeft, hs', Nat.shiftLeft_eq, Nat.mod_eq_of_lt hb,
    Nat.or_comm, ← Nat.shiftLeft_eq, ← Nat.shiftLeft_add_eq_or_of_lt ha, Nat.shiftLeft_eq,
    Nat.add_comm]

theorem low_bits_byte (x : UInt64) :
    ((x.toUInt8 ||| 0x80) &&& 0x7f).toUInt64.toNat = x.toNat % 128 := by
  have h : ∀ n < 2 ^ 8, (n ||| 128) &&& 127 = n % 128 := by decide +kernel
  rw [UInt8.toNat_toUInt64, UInt8.toNat_and, UInt8.toNat_or, UInt64.toNat_toUInt8]
  change ((x.toNat % 2 ^ 8) ||| 128) &&& 127 = _
  rw [h _ (Nat.mod_lt _ (by norm_num)), Nat.mod_mod_of_dvd _ (by norm_num)]

theorem not_lt_byte (x : UInt64) : ¬ (x.toUInt8 ||| 0x80) < 0x80 := by
  have h : ∀ n < 2 ^ 8, 128 ≤ n ||| 128 := by decide +kernel
  rw [UInt8.lt_iff_toNat_lt, UInt8.toNat_or, UInt64.toNat_toUInt8]
  exact Nat.not_lt.mpr (h _ (Nat.mod_lt _ (by norm_num)))

theorem uvarintLoop_last (i : Nat) (x acc : UInt64) (rest : List UInt8) (hi : i ≤ 9)
    (hx : x < 0x80) (hacc : acc.toNat < 2 ^ (7 * i)) (hb : x.toNat * 2 ^ (7 * i) < 2 ^ 64) :
    uvarintLoop i (7 * i) acc (x.toUInt8 :: rest) =
      (UInt64.ofNat (acc.toNat + x.toNat * 2 ^ (7 * i)), (i : Int) + 1) := by
  have hx' : x.toNat < 128 := UInt64.lt_iff_toNat_lt.mp hx
  have hbyte : x.toUInt8.toUInt64 = x := by
    apply UInt64.toNat_inj.mp
    rw [UInt8.toNat_toUInt64, UInt64.toNat_toUInt8, Nat.mod_eq_of_lt (by omega)]
  have hlt : x.toUInt8 < 0x80 := by
    rw [UInt8.lt_iff_toNat_lt, UInt64.toNat_toUInt8, Nat.mod_eq_of_lt (by omega)]
    exact hx'
  -- at byte 9 a single bit is left, so the overflow check passes
  have hover : ¬ (i = MaxVarintLen64 - 1 ∧ x.toUInt8 > 1) := by
    rintro ⟨rfl, h⟩
    rw [gt_iff_lt, UInt8.lt_iff_toNat_lt, UInt64.toNat_toUInt8, Nat.mod_eq_of_lt (by omega)] at h
    change 1 < x.toNat at h
    change x.toNat * 2 ^ 63 < 2 ^ 64 at hb
    omega
  rw [uvarintLoop.eq_2, if_neg (by unfold MaxVarintLen64; omega), if_pos hlt, if_neg hover, hbyte,
    ← toNat_or_shiftLeft acc x (by omega) hacc hb, UInt64.ofNat_toNat]

theorem uvarintLoop_putUvarintLoop (n : Nat) (x : UInt64) (i : Nat) (acc : UInt64)
    (rest : List UInt8) (hi : i + n = 9) (hacc : acc.toNat < 2 ^ (7 * i))
    (hb : x.toNat * 2 ^ (7 * i) < 2 ^ 64) :
    uvarintLoop i (7 * i) acc (putUvarintLoop n x ++ rest) =
      (UInt64.ofNat (acc.toNat + x.toNat * 2 ^ (7 * i)),
        (i : Int) + (putUvarintLoop n x).length) := by
  induction n generalizing x i acc with
  | zero =>
    have h2 : x.toNat < 128 := by
      subst hi
      change x.toNat * 2 ^ 63 < 2 ^ 64 at hb
      omega
    exact uvarintLoop_last i x acc rest (by omega) (UInt64.lt_iff_toNat_lt.mpr h2) hacc hb
  | succ n ih =>
    by_cases hx : x < 0x80
    · simp only [putUvarintLoop, if_pos hx, List.singleton_append, List.length_singleton]
      exact uvarintLoop_last i x acc rest (by omega) hx hacc hb
    -- a byte of the seven low bits, then the rest of x from bit 7 * (i + 1) on
    have hx' : 128 ≤ x.toNat := by
      rw [UInt64.not_lt, UInt64.le_iff_toNat_le] at hx
      exact hx
    have hP : 2 ^ (7 * (i + 1)) = 2 ^ (7 * i) * 128 := by rw [Nat.mul_succ, pow_add]; rfl
    have hlow : (x.toNat % 128) * 2 ^ (7 * i) ≤ 127 * 2 ^ (7 * i) :=
      Nat.mul_le_mul_right _ (by omega)
    have hshr : (x >>> 7).toNat = x.toNat / 128 := by
      rw [UInt64.toNat_shiftRight, Nat.shiftRight_eq_div_pow]
      rfl
    have hdiv : x.toNat / 128 * 2 ^ (7 * (i + 1)) ≤ x.toNat * 2 ^ (7 * i) := by
      rw [hP, ← Nat.mul_assoc, Nat.mul_right_comm]
      exact Nat.mul_le_mul_right _ (Nat.div_mul_le_self _ _)
    have h128 : 128 * 2 ^ (7 * i) ≤ x.toNat * 2 ^ (7 * i) := Nat.mul_le_mul_right _ hx'
    have hacc' := toNat_or_shiftLeft acc ((x.toUInt8 ||| 0x80) &&& 0x7f).toUInt64
      (s := 7 * i) (by omega) hacc (by rw [low_bits_byte]; omega)
    rw [low_bits_byte] at hacc'
    have ih' := ih (x >>> 7) (i + 1) _ (by omega) (by rw [hacc', hP]; omega)
      (by rw [hshr]; omega)
    rw [putUvarintLoop, if_neg hx, List.cons_append, uvarintLoop.eq_2,
      if_neg (by unfold MaxVarintLen64; omega), if_neg (not_lt_byte x),
      show 7 * i + 7 = 7 * (i + 1) by ring, ih', hacc', hshr, hP]
    refine Prod.ext (congrArg UInt64.ofNat ?_) ?_
    · calc acc.toNat + x.toNat % 128 * 2 ^ (7 * i) + x.toNat / 128 * (2 ^ (7 * i) * 128)
          = acc.toNat + (x.toNat % 128 + 128 * (x.toNat / 128)) * 2 ^ (7 * i) := by ring
        _ = acc.toNat + x.toNat * 2 ^ (7 * i) := by rw [Nat.mod_add_div]
    · simp only [List.length_cons]
      push_cast
      ring

theorem uvarint_putUvarint (x : UInt64) (rest : List UInt8) :
    uvarint (putUvarint x ++ rest) = (x, ((putUvarint x).length : Int)) := by
  rw [uvarint.eq_1, putUvarint, ← Nat.mul_zero 7,
    uvarintLoop_putUvarintLoop _ x 0 0 rest (by rfl) (by decide) (by simpa using x.toNat_lt)]
  simp

theorem unzigzag_zigzag (x : Int64) :
    let ux := x.toUInt64 <<< 1
    let u := if x < 0 then ~~~ux else ux
    (if u &&& 1 ≠ 0 then ~~~(u >>> 1).toInt64 else (u >>> 1).toInt64) = x := by
  intro ux u
  have hneg : x < 0 ↔ 2 ^ 63 ≤ x.toUInt64.toNat := by
    rw [Int64.lt_iff_toInt_lt, Int64.toInt_zero, ← Int64.toInt_toBitVec,
      BitVec.toInt_eq_toNat_cond]
    change (if 2 * x.toUInt64.toNat < 2 ^ 64 then _ else _) < 0 ↔ _
    split <;> omega
  have hn := x.toUInt64.toNat_lt
  have hux : ux.toNat = 2 * x.toUInt64.toNat % 2 ^ 64 := by
    rw [UInt64.toNat_shiftLeft, Nat.shiftLeft_eq]
    change x.toUInt64.toNat * 2 % 2 ^ 64 = _
    omega
  have hand : ∀ u : UInt64, u &&& 1 ≠ 0 ↔ u.toNat % 2 = 1 := by
    intro u
    rw [ne_eq, ← UInt64.toNat_inj, UInt64.toNat_and]
    simp
  have hshr : ∀ u : UInt64, (u >>> 1).toNat = u.toNat / 2 := by
    intro u
    simp [UInt64.toNat_shiftRight, Nat.shiftRight_eq_div_pow]
  have hnot : ∀ y : Int64, (~~~y).toUInt64.toNat = 2 ^ 64 - 1 - y.toUInt64.toNat := by
    intro y
    change (~~~y.toUInt64).toNat = _
    rw [UInt64.toNat_not]
    rfl
  -- compare the unsigned bits, one sign at a time
  apply Int64.toBitVec_inj.mp
  apply BitVec.eq_of_toNat_eq
  change (if _ then _ else _ : Int64).toUInt64.toNat = x.toUInt64.toNat
  rw [apply_ite Int64.toUInt64, apply_ite UInt64.toNat, hnot]
  simp only [hand, UInt64.toUInt64_toInt64, hshr]
  by_cases h : x < 0
  · have := hneg.mp h
    simp only [u, h, if_true, UInt64.toNat_not, hux, UInt64.size]
    split <;> omega
  · have := mt hneg.mpr h
    simp only [u, h, if_false, hux]
    split <;> omega

theorem varint_putVarint (x : Int64) (rest : List UInt8) :
    varint (putVarint x ++ rest) = (x, ((putVarint x).length : Int)) := by
  simp only [varint, putVarint, uvarint_putUvarint]
  exact Prod.ext (unzigzag_zigzag x) rfl

end Lemmas

end NatsServer.Lib.Binary
