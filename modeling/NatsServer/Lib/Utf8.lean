import Mathlib.Data.List.Basic

/-!
# Runes of Go strings

A Go string is its bytes, and a rune is a code point, here a `Nat`. `utf8.DecodeRune` is
`utf8.DecodeRuneInString`: the rune the bytes start with and its size, `RuneError` of size 1 for
a byte that starts no valid sequence, and `RuneError` of size 0 for no bytes. `utf8.EncodeRune`
writes a rune back, `RuneError` for one that has no encoding, and `utf8.runes` is what a
`for range` loop over a string visits: each rune with the bytes it was read from.

`unicode.IsSpace` is exact. `unicode.IsDigit` and `unicode.ToLower` are exact on Latin-1 and on
ASCII, and read the rest of Go's tables from `unicode.Tables`, which every result here holds
for. `strings.ToLower` and `strings.TrimSpace` work on the runes as the source does.
-/

namespace NatsServer.Lib

namespace utf8

def RuneError : Nat := 0xFFFD
def MaxRune : Nat := 0x10FFFF

/-- The `first` and `acceptRanges` tables: the size of the sequence a byte from 0xC2 starts and
the range of its second byte, or none for a byte that starts none. -/
def first (s0 : UInt8) : Option (Nat × UInt8 × UInt8) :=
  if s0 < 0xC2 then none
  else if s0 ≤ 0xDF then some (2, 0x80, 0xBF)
  else if s0 = 0xE0 then some (3, 0xA0, 0xBF)
  else if s0 = 0xED then some (3, 0x80, 0x9F)
  else if s0 ≤ 0xEF then some (3, 0x80, 0xBF)
  else if s0 = 0xF0 then some (4, 0x90, 0xBF)
  else if s0 ≤ 0xF3 then some (4, 0x80, 0xBF)
  else if s0 = 0xF4 then some (4, 0x80, 0x8F)
  else none

def isCont (b : UInt8) : Bool := 0x80 ≤ b && b ≤ 0xBF

def DecodeRune : List UInt8 → Nat × Nat
  | [] => (RuneError, 0)
  | s0 :: rest =>
    if s0 < 0x80 then (s0.toNat, 1) else
    match first s0 with
    | none => (RuneError, 1)
    | some (sz, lo, hi) =>
      match rest with
      | [] => (RuneError, 1)
      | s1 :: rest =>
        if s1 < lo || hi < s1 then (RuneError, 1)
        else if sz ≤ 2 then ((s0.toNat % 32) * 64 + s1.toNat % 64, 2)
        else match rest with
          | [] => (RuneError, 1)
          | s2 :: rest =>
            if !isCont s2 then (RuneError, 1)
            else if sz ≤ 3 then ((s0.toNat % 16) * 4096 + (s1.toNat % 64) * 64 + s2.toNat % 64, 3)
            else match rest with
              | [] => (RuneError, 1)
              | s3 :: _ =>
                if !isCont s3 then (RuneError, 1)
                else ((s0.toNat % 8) * 262144 + (s1.toNat % 64) * 4096 + (s2.toNat % 64) * 64 +
                  s3.toNat % 64, 4)

def EncodeRune (r : Nat) : List UInt8 :=
  if r < 0x80 then [r.toUInt8]
  else if r < 0x800 then [(0xC0 + r / 64).toUInt8, (0x80 + r % 64).toUInt8]
  else if r < 0xD800 ∨ (0xDFFF < r ∧ r < 0x10000) then
    [(0xE0 + r / 4096).toUInt8, (0x80 + r / 64 % 64).toUInt8, (0x80 + r % 64).toUInt8]
  else if r ≤ MaxRune then
    [(0xF0 + r / 262144).toUInt8, (0x80 + r / 4096 % 64).toUInt8, (0x80 + r / 64 % 64).toUInt8,
      (0x80 + r % 64).toUInt8]
  else [0xEF, 0xBF, 0xBD]

/-- The runes of a `for range` loop over `s`, each with its bytes; the fuel is the length of
`s`, and each rune takes one byte at least. -/
def runesLoop : Nat → List UInt8 → List (Nat × List UInt8)
  | 0, _ => []
  | _, [] => []
  | n + 1, b :: s =>
    let d := DecodeRune (b :: s)
    (d.1, (b :: s).take d.2) :: runesLoop n ((b :: s).drop d.2)

def runes (s : List UInt8) : List (Nat × List UInt8) := runesLoop s.length s

section Decode

variable {b c : UInt8} {s : List UInt8}

@[simp] theorem DecodeRune_nil : DecodeRune [] = (RuneError, 0) := rfl

theorem DecodeRune_ascii (h : b < 0x80) : DecodeRune (b :: s) = (b.toNat, 1) := by
  rw [DecodeRune, if_pos h]

theorem first_lo {sz : Nat} {lo hi : UInt8} (h : first b = some (sz, lo, hi)) : 0x80 ≤ lo := by
  unfold first at h
  split_ifs at h <;> cases h <;> decide

theorem DecodeRune_size_of_ascii (hc : c < 0x80) : (DecodeRune (b :: c :: s)).2 = 1 := by
  rw [DecodeRune]
  split
  · rfl
  · split
    · rfl
    · rename_i hf
      have : c < _ := UInt8.lt_of_lt_of_le hc (first_lo hf)
      simp [this]

theorem first_cases {lo hi : UInt8} {sz : Nat} (h : first b = some (sz, lo, hi)) :
    hi.toNat ≤ 0xBF ∧ ((sz = 2 ∧ 0xC2 ≤ b.toNat ∧ b.toNat ≤ 0xDF) ∨
    (sz = 3 ∧ 0xE0 ≤ b.toNat ∧ b.toNat ≤ 0xEF ∧ (b.toNat = 0xE0 → lo = 0xA0)) ∨
    (sz = 4 ∧ 0xF0 ≤ b.toNat ∧ b.toNat ≤ 0xF4 ∧ (b.toNat = 0xF0 → lo = 0x90))) := by
  unfold first at h
  simp only [UInt8.lt_iff_toNat_lt, UInt8.le_iff_toNat_le] at h
  split_ifs at h <;> cases h <;> simp_all [UInt8.ext_iff] <;> omega

theorem DecodeRune_fst_ge (hb : ¬ b < 0x80) :
    0x80 ≤ (DecodeRune (b :: s)).1 := by
  rw [DecodeRune, if_neg hb]
  split
  · simp [RuneError]
  · rename_i sz lo hi hf
    split
    · simp [RuneError]
    · rename_i s1 rest
      split
      · simp [RuneError]
      · rename_i h1
        simp only [Bool.or_eq_true, decide_eq_true_eq, not_or, UInt8.lt_iff_toNat_lt] at h1
        obtain ⟨hhi, hsz⟩ := first_cases hf
        rcases hsz with ⟨rfl, hb1, hb2⟩ | ⟨rfl, hb1, hb2, he⟩ | ⟨rfl, hb1, hb2, he⟩
        · simp only [Nat.le_refl, if_true]
          omega
        · simp only [show ¬ (3 ≤ 2) from by omega, if_false]
          split
          · simp [RuneError]
          · split
            · simp [RuneError]
            · simp only [Nat.le_refl, if_true]
              by_cases h0 : b.toNat = 0xE0
              · have hlo := he h0
                subst hlo
                simp at h1
                omega
              · omega
        · simp only [show ¬ (4 ≤ 2) from by omega, show ¬ (4 ≤ 3) from by omega, if_false]
          split
          · simp [RuneError]
          · split
            · simp [RuneError]
            · split
              · simp [RuneError]
              · split
                · simp [RuneError]
                · by_cases h0 : b.toNat = 0xF0
                  · have hlo := he h0
                    subst hlo
                    simp at h1 ⊢
                    omega
                  · simp only
                    omega

theorem DecodeRune_of_fst_lt (h : (DecodeRune (b :: s)).1 < 0x80) :
    DecodeRune (b :: s) = (b.toNat, 1) :=
  DecodeRune_ascii <| Decidable.byContradiction fun hb =>
    absurd h (Nat.not_lt.mpr (DecodeRune_fst_ge hb))

theorem DecodeRune_size_pos (h : s ≠ []) : 0 < (DecodeRune s).2 := by
  obtain ⟨b, s, rfl⟩ := List.exists_cons_of_ne_nil h
  rw [DecodeRune]
  repeat' split
  all_goals simp

theorem DecodeRune_size_le : (DecodeRune s).2 ≤ s.length := by
  match s with
  | [] => simp
  | b :: s =>
    rw [DecodeRune]
    repeat' split
    all_goals simp_all

end Decode

end utf8

namespace unicode

structure Tables where
  digit : Nat → Bool
  lower : Nat → Nat

def IsSpace (r : Nat) : Bool :=
  if r ≤ 0xFF then r = 0x09 || r = 0x0A || r = 0x0B || r = 0x0C || r = 0x0D || r = 0x20 ||
    r = 0x85 || r = 0xA0
  else r = 0x1680 || (0x2000 ≤ r && r ≤ 0x200A) || r = 0x2028 || r = 0x2029 || r = 0x202F ||
    r = 0x205F || r = 0x3000

def IsDigit (uc : Tables) (r : Nat) : Bool :=
  if r ≤ 0xFF then 0x30 ≤ r && r ≤ 0x39 else uc.digit r

def ToLower (uc : Tables) (r : Nat) : Nat :=
  if r ≤ 0x7F then (if 0x41 ≤ r ∧ r ≤ 0x5A then r + 32 else r) else uc.lower r

end unicode

namespace strings

def lowerByte (c : UInt8) : UInt8 := if 0x41 ≤ c ∧ c ≤ 0x5A then c + 32 else c

/-- strings.ToLower: byte by byte for ASCII, else strings.Map of unicode.ToLower, which writes
each rune lowered and a byte that starts no rune as RuneError. -/
def ToLower (uc : unicode.Tables) (s : List UInt8) : List UInt8 :=
  if s.all (· < 0x80) then s.map lowerByte
  else (utf8.runes s).flatMap fun r => utf8.EncodeRune (unicode.ToLower uc r.1)

/-- strings.TrimSpace: the runes that are spaces cut at both ends. Go reads the end backwards with
DecodeLastRune; a rune it finds that way starts at a byte that starts a rune, where the forward
reading has a boundary too, so both readings cut the same runes. -/
def TrimSpace (s : List UInt8) : List UInt8 :=
  ((((utf8.runes s).dropWhile (unicode.IsSpace ·.1)).reverse.dropWhile
    (unicode.IsSpace ·.1)).reverse).flatMap (·.2)

end strings

/-! ## The bytes of a Lean string

A Go string literal of the source is modelled by the UTF-8 bytes of a Lean string; these lemmas
read those bytes as the encodings of its characters, so that a text can be compared with another
without running the encoder. -/

theorem ByteArray.toList_loop_eq (bs : ByteArray) (i : Nat) (r : List UInt8) :
    ByteArray.toList.loop bs i r = r.reverse ++ bs.data.toList.drop i := by
  fun_induction ByteArray.toList.loop bs i r with
  | case1 i r h ih =>
    rw [ih, List.reverse_cons, List.append_assoc]
    congr 1
    have hi : i < bs.data.toList.length := by simpa using h
    rw [List.drop_eq_getElem_cons hi]
    simp [ByteArray.get!, h]
  | case2 i r h =>
    rw [List.drop_eq_nil_of_le (by simpa using h), List.append_nil]

theorem ByteArray.toList_eq (bs : ByteArray) : bs.toList = bs.data.toList := by
  rw [ByteArray.toList, ByteArray.toList_loop_eq]
  simp

theorem String.toUTF8_toList (s : String) :
    s.toUTF8.toList = s.toList.flatMap String.utf8EncodeChar := by
  rw [String.toUTF8_eq_toByteArray, ← String.utf8Encode_toList, List.utf8Encode,
    ByteArray.toList_eq, List.toList_data_toByteArray]

theorem String.toUTF8_toList_inj {s t : String} : s.toUTF8.toList = t.toUTF8.toList ↔ s = t := by
  rw [ByteArray.toList_eq, ByteArray.toList_eq, Array.toList_inj, ← ByteArray.ext_iff]
  simp [String.toByteArray_inj]

end NatsServer.Lib
