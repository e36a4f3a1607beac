import Mathlib.Data.Nat.Bitwise

/-!
# Single-bit masks in 64-bit words

`bit w k` reads bit `k` of a word. The lemmas say what a one-bit mask `1 <<< s` is, what
setting a bit (`w ||| m`) and clearing it (`w &&& ~~~m`) do to every bit, when a masked
test `w &&& m ≠ 0` succeeds, and that a word is zero exactly when no bit is set.

`bits w` lists the set bits of a word, lowest first, and `wordBits` those of consecutive words.
Loops over the set bits of a word take the lowest one and go on with `w &&& (w - 1)`, which is
the rest of the list (`bits_and_sub_one`).
-/

namespace NatsServer.Lib.Bits

def bit (w : UInt64) (k : Nat) : Bool := w.toBitVec.getLsbD k

-- Generate the equation lemmas of bit here, once, before the proofs below unfold them in parallel.
section
attribute [local simp] bit
end

theorem bit_of_ge {w : UInt64} {k : Nat} (hk : 64 ≤ k) : bit w k = false :=
  BitVec.getLsbD_of_ge _ _ hk

@[simp] theorem bit_zero (k : Nat) : bit 0 k = false := by
  simp [bit]

@[simp] theorem bit_or (a b : UInt64) (k : Nat) : bit (a ||| b) k = (bit a k || bit b k) := by
  simp [bit]

theorem bit_and_not (a b : UInt64) (k : Nat) : bit (a &&& ~~~b) k = (bit a k && !bit b k) := by
  by_cases hk : k < 64
  · simp [bit, hk]
  · simp [bit_of_ge (show 64 ≤ k by omega)]

theorem bit_one_shiftLeft (s : UInt64) (k : Nat) :
    bit (1 <<< s) k = (decide (k < 64) && k == s.toNat % 64) := by
  simp only [bit, UInt64.toBitVec_shiftLeft]
  rw [BitVec.getLsbD_shiftLeft']
  have hs : s.toNat % 64 < 64 := Nat.mod_lt _ (by decide)
  by_cases hlt : k < s.toNat % 64
  · simp [hlt, show k ≠ s.toNat % 64 by omega]
  · by_cases heq : k = s.toNat % 64
    · subst heq; simp [hs]
    · simp [hlt, heq, show k - s.toNat % 64 ≠ 0 by omega]

theorem eq_zero_iff (w : UInt64) : w = 0 ↔ ∀ k < 64, bit w k = false := by
  constructor
  · rintro rfl k _
    exact bit_zero k
  · intro h
    apply UInt64.toBitVec_inj.mp
    apply BitVec.eq_of_getLsbD_eq
    intro k hk
    simpa [bit] using h k hk

@[simp] theorem bit_and (a b : UInt64) (k : Nat) : bit (a &&& b) k = (bit a k && bit b k) := by
  simp [bit]

theorem and_one_shiftLeft_ne_zero (w s : UInt64) :
    (w &&& (1 <<< s) ≠ 0) ↔ bit w (s.toNat % 64) = true := by
  have hs : s.toNat % 64 < 64 := Nat.mod_lt _ (by decide)
  rw [Ne, eq_zero_iff]
  simp only [bit_and, bit_one_shiftLeft]
  constructor
  · intro h
    by_contra hb
    apply h
    intro k hk
    by_cases hks : k = s.toNat % 64
    · subst hks
      simp [hs, show bit w (s.toNat % 64) = false by simpa using hb]
    · simp [hks]
  · intro hb h
    simpa [hs, hb] using h _ hs

/-! ## The set bits of a word -/

theorem bit_eq_testBit (w : UInt64) (k : Nat) : bit w k = w.toNat.testBit k := rfl

theorem testBit_and_sub_one {n t : Nat} (ht : n.testBit t = true)
    (hlow : ∀ k < t, n.testBit k = false) (k : Nat) :
    (n &&& (n - 1)).testBit k = (n.testBit k && k != t) := by
  -- `n = 2^t * (2q + 1)`: the bits below `t` are clear and bit `t` is set
  have hmod : n % 2 ^ t = 0 := by
    apply Nat.eq_of_testBit_eq
    intro i
    rw [Nat.testBit_mod_two_pow, Nat.zero_testBit]
    by_cases hi : i < t
    · simp [hi, hlow i hi]
    · simp [hi]
  obtain ⟨m, hn⟩ : ∃ m, n = 2 ^ t * m :=
    ⟨n / 2 ^ t, by have := Nat.div_add_mod n (2 ^ t); omega⟩
  have hodd : m.testBit 0 = true := by
    rw [hn, Nat.testBit_two_pow_mul] at ht
    simpa using ht
  obtain ⟨q, rfl⟩ : ∃ q, m = 2 * q + 1 := ⟨m / 2, by simp at hodd; omega⟩
  have hpow : 0 < 2 ^ t := Nat.two_pow_pos t
  have hsub : n - 1 = 2 ^ t * (2 * q) + (2 ^ t - 1) := by
    have : 2 ^ t * (2 * q + 1) = 2 ^ t * (2 * q) + 2 ^ t := Nat.mul_add_one _ _
    omega
  rw [Nat.testBit_and, hsub, Nat.testBit_two_pow_mul_add _ (by omega : 2 ^ t - 1 < 2 ^ t), hn,
    Nat.testBit_two_pow_mul]
  by_cases hk : k < t
  · simp [hk]
  · obtain ⟨j, rfl⟩ : ∃ j, k = t + j := ⟨k - t, by omega⟩
    cases j with
    | zero => simp [Nat.testBit_zero]
    | succ j =>
      have h1 : (2 * q + 1) / 2 = q := by omega
      have h2 : 2 * q / 2 = q := by omega
      simp [hk, Nat.testBit_succ, h1, h2]

def bits (w : UInt64) : List Nat := (List.range 64).filter (bit w)

-- Generate the equation lemmas of bits here, once, before the proofs below unfold them in
-- parallel.
section
attribute [local simp] bits
end

theorem mem_bits {w : UInt64} {k : Nat} : k ∈ bits w ↔ bit w k = true := by
  simp only [bits, List.mem_filter, List.mem_range, and_iff_right_iff_imp]
  intro hk
  by_contra h
  rw [bit_of_ge (by omega)] at hk
  exact absurd hk (by decide)

theorem bits_pairwise (w : UInt64) : (bits w).Pairwise (· < ·) :=
  List.pairwise_lt_range.filter _

theorem bits_eq_nil_iff (w : UInt64) : bits w = [] ↔ w = 0 := by
  rw [eq_zero_iff, List.eq_nil_iff_forall_not_mem]
  simp only [mem_bits, Bool.not_eq_true]
  exact ⟨fun h k _ => h k, fun h k => if hk : k < 64 then h k hk else bit_of_ge (by omega)⟩

theorem head?_bits_eq_some {w : UInt64} {t : Nat} :
    (bits w).head? = some t ↔ bit w t = true ∧ ∀ k < t, bit w k = false := by
  rw [bits, List.head?_filter, List.find?_range_eq_some]
  constructor
  · rintro ⟨ht, -, hlow⟩
    exact ⟨ht, fun k hk => by simpa using hlow k hk⟩
  · rintro ⟨ht, hlow⟩
    refine ⟨ht, List.mem_range.mpr ?_, fun k hk => by simp [hlow k hk]⟩
    by_contra h
    rw [bit_of_ge (by omega)] at ht
    exact absurd ht (by decide)

theorem getLast?_bits_eq_some {w : UInt64} {p : Nat} :
    (bits w).getLast? = some p ↔ bit w p = true ∧ ∀ k, bit w k = true → k ≤ p := by
  constructor
  · intro h
    obtain ⟨ys, hys⟩ := List.getLast?_eq_some_iff.mp h
    have hp : p ∈ bits w := by rw [hys]; simp
    refine ⟨mem_bits.mp hp, fun k hk => ?_⟩
    have hk' : k ∈ ys ++ [p] := hys ▸ mem_bits.mpr hk
    rcases List.mem_append.mp hk' with hk' | hk'
    · have := bits_pairwise w
      rw [hys, List.pairwise_append] at this
      exact Nat.le_of_lt (this.2.2 k hk' p (List.mem_singleton_self p))
    · exact Nat.le_of_eq (List.mem_singleton.mp hk')
  · rintro ⟨hp, hmax⟩
    have hne : bits w ≠ [] := List.ne_nil_of_mem (mem_bits.mpr hp)
    obtain ⟨ys, q, hys⟩ := (List.eq_nil_or_concat (bits w)).resolve_left hne
    rw [List.concat_eq_append] at hys
    have hq : bit w q = true := mem_bits.mp (by rw [hys]; simp)
    have hpq : p = q := by
      have hp' : p ∈ ys ++ [q] := hys ▸ mem_bits.mpr hp
      rcases List.mem_append.mp hp' with hp' | hp'
      · have := bits_pairwise w
        rw [hys, List.pairwise_append] at this
        have := this.2.2 p hp' q (List.mem_singleton_self q)
        exact absurd (hmax q hq) (by omega)
      · exact List.mem_singleton.mp hp'
    rw [hys, hpq]
    simp

theorem bits_and_sub_one {w : UInt64} {t : Nat} {ts : List Nat} (h : bits w = t :: ts) :
    bits (w &&& (w - 1)) = ts := by
  obtain ⟨ht, hlow⟩ := head?_bits_eq_some.mp (by rw [h]; rfl)
  have hw : (1 : UInt64) ≤ w := by
    rw [UInt64.le_iff_toNat_le, UInt64.toNat_one, Nat.one_le_iff_ne_zero]
    intro h0
    rw [bit_eq_testBit, h0, Nat.zero_testBit] at ht
    exact absurd ht (by decide)
  have hbit : ∀ k, bit (w &&& (w - 1)) k = (bit w k && k != t) := by
    intro k
    simp only [bit_eq_testBit, UInt64.toNat_and, UInt64.toNat_sub_of_le _ _ hw, UInt64.toNat_one]
    exact testBit_and_sub_one ht hlow k
  have hts : ∀ k ∈ ts, t < k := by
    have := bits_pairwise w
    rw [h, List.pairwise_cons] at this
    exact this.1
  have : bits (w &&& (w - 1)) = (bits w).filter (· != t) := by
    rw [bits, bits, List.filter_filter, funext hbit]
    simp only [Bool.and_comm]
  rw [this, h, List.filter_cons_of_neg (by simp), List.filter_eq_self.mpr]
  intro k hk
  have := hts k hk
  simp; omega

theorem bit_shiftRight_one (w : UInt64) (k : Nat) : bit (w >>> 1) k = bit w (k + 1) := by
  simp [bit, Nat.add_comm]

def wordBits (ws : List UInt64) : List Nat :=
  (List.range (64 * ws.length)).filter fun o => bit (ws.getD (o / 64) 0) (o % 64)

@[simp] theorem wordBits_nil : wordBits [] = [] := rfl

theorem wordBits_cons (w : UInt64) (ws : List UInt64) :
    wordBits (w :: ws) = bits w ++ (wordBits ws).map (64 + ·) := by
  rw [wordBits, List.length_cons, Nat.mul_add_one, Nat.add_comm, List.range_add, List.filter_append,
    List.filter_map, bits, wordBits]
  refine congrArg₂ (· ++ ·) (List.filter_congr fun o ho => ?_)
    (congrArg (List.map _) (List.filter_congr fun o _ => ?_))
  · -- the first word
    rw [List.mem_range] at ho
    simp [Nat.div_eq_of_lt ho, Nat.mod_eq_of_lt ho]
  · -- the words after it, shifted by one word
    have h1 : (64 + o) / 64 = o / 64 + 1 := by omega
    have h2 : (64 + o) % 64 = o % 64 := by omega
    simp [h1, h2]

end NatsServer.Lib.Bits
