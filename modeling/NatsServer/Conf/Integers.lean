import NatsServer.Conf.Parse

/-!
# Integer values

processItem reads an integer item as the digits (and '-') in front, which strconv.ParseInt reads
with its range check, and a size suffix after them, trimmed and lowered, that multiplies the
number by a power of 1000 or 1024 (`sizeSuffixes`). The multiplication is Go's int64 one: the
value set is the product reduced to 64 bits, which is the product itself exactly when that fits in
an int64, and no error when it does not. A suffix that is none of the cases sets no value, and is
no error either.
-/

namespace NatsServer.Conf

open NatsServer.Lib

@[simp] theorem txt_inj {s t : String} : txt s = txt t ↔ s = t := String.toUTF8_toList_inj

/-- The size suffixes of processItem and what each multiplies by: the i-th of k, m, g, t, p, e
by 1000^i, and followed by b, i or ib by 1024^i. -/
def sizeSuffixes : List (List UInt8 × Int) :=
  [(txt "", 1),
    (txt "k", 1000 ^ 1), (txt "kb", 1024 ^ 1), (txt "ki", 1024 ^ 1), (txt "kib", 1024 ^ 1),
    (txt "m", 1000 ^ 2), (txt "mb", 1024 ^ 2), (txt "mi", 1024 ^ 2), (txt "mib", 1024 ^ 2),
    (txt "g", 1000 ^ 3), (txt "gb", 1024 ^ 3), (txt "gi", 1024 ^ 3), (txt "gib", 1024 ^ 3),
    (txt "t", 1000 ^ 4), (txt "tb", 1024 ^ 4), (txt "ti", 1024 ^ 4), (txt "tib", 1024 ^ 4),
    (txt "p", 1000 ^ 5), (txt "pb", 1024 ^ 5), (txt "pi", 1024 ^ 5), (txt "pib", 1024 ^ 5),
    (txt "e", 1000 ^ 6), (txt "eb", 1024 ^ 6), (txt "ei", 1024 ^ 6), (txt "eib", 1024 ^ 6)]

def Value.int? : Value → Option Int64
  | .int n => some n
  | _ => none

section Integers

variable (uc : unicode.Tables)

theorem integerValue_eq_ok {val : List UInt8} {r : Option Int64} (h : integerValue uc val = .ok r) :
    ∃ pre post num, val = pre ++ post ∧ strconv.ParseInt pre = .ok num ∧
      r = (Assoc.find (strings.ToLower uc (strings.TrimSpace post)) sizeSuffixes).map
        fun m => num * Int64.ofInt m := by
  unfold integerValue at h
  dsimp only at h
  split at h
  · cases h
  · cases h
  · rename_i num hnum
    refine ⟨_, _, num, (List.take_append_drop _ val).symm, hnum, ?_⟩
    generalize strings.ToLower uc _ = s at h ⊢
    by_cases hs : s ∈ sizeSuffixes.map Prod.fst
    · -- a suffix of the table: its case of the switch
      simp only [sizeSuffixes, List.map_cons, List.map_nil, List.mem_cons, List.not_mem_nil,
        or_false] at hs
      rcases hs with rfl | rfl | rfl | rfl | rfl | rfl | rfl | rfl | rfl | rfl | rfl | rfl | rfl | rfl | rfl | rfl | rfl | rfl | rfl | rfl | rfl | rfl | rfl | rfl | rfl
      all_goals
        simp only [txt_inj, ite_or] at h
        simp [Int64.mul_assoc] at h
        subst h
        simp [Assoc.find, sizeSuffixes]
    · -- any other suffix fails every case
      rw [(Assoc.find_eq_none_iff _ _).mpr hs]
      simp only [sizeSuffixes, List.map_cons, List.map_nil, List.mem_cons, List.not_mem_nil,
        or_false, not_or] at hs
      simp [hs] at h
      exact h.symm

/-- An integer whose suffix is none of the cases sets no value: `a = 1kb` stores `a`, and
`a = 1kbb`, which the lexer accepts as well, stores nothing, with no error. The text is ASCII, so
the unicode tables are not read. -/
theorem Parse_drops_unmatched_suffix :
    ((Parse ⟨fun _ => false, id⟩ [] (fun _ _ _ => .ok []) (txt "a = 1kb")).toOption.map
      fun m => m.map Prod.fst) = some [txt "a"] ∧
    ((Parse ⟨fun _ => false, id⟩ [] (fun _ _ _ => .ok []) (txt "a = 1kbb")).toOption.map
      fun m => m.map Prod.fst) = some [] := by
  decide +kernel

/-- What an integer item sets, as an integer: the number times the multiplier reduced to 64 bits,
which is the product itself when that fits in an int64. -/
theorem integerValue_toInt {val : List UInt8} {v : Int64} (h : integerValue uc val = .ok (some v)) :
    ∃ pre post num m, val = pre ++ post ∧ strconv.ParseInt pre = .ok num ∧
      Assoc.find (strings.ToLower uc (strings.TrimSpace post)) sizeSuffixes = some m ∧
      v.toInt = (num.toInt * m).bmod (2 ^ 64) ∧
      (-2 ^ 63 ≤ num.toInt * m → num.toInt * m < 2 ^ 63 → v.toInt = num.toInt * m) := by
  obtain ⟨pre, post, num, hval, hnum, hr⟩ := integerValue_eq_ok uc h
  obtain ⟨m, hm, hv⟩ := Option.map_eq_some_iff.mp hr.symm
  have hwrap : v.toInt = (num.toInt * m).bmod (2 ^ 64) := by
    rw [← hv, Int64.toInt_mul, Int64.toInt_ofInt]
    exact Int.mul_bmod_bmod
  refine ⟨pre, post, num, m, hval, hnum, hm, hwrap, fun hlo hhi => ?_⟩
  rw [hwrap]
  exact Int.bmod_eq_of_le (by omega) (by omega)

theorem integerValue_toInt_kilo :
    integerValue ⟨fun _ => false, id⟩ (txt "2k") = .ok (some 2000) ∧
    ∃ pre post num m, txt "2k" = pre ++ post ∧ strconv.ParseInt pre = .ok num ∧
      Assoc.find (strings.ToLower ⟨fun _ => false, id⟩ (strings.TrimSpace post)) sizeSuffixes = some m ∧
      (2000 : Int64).toInt = (num.toInt * m).bmod (2 ^ 64) ∧
      (-2 ^ 63 ≤ num.toInt * m → num.toInt * m < 2 ^ 63 → (2000 : Int64).toInt = num.toInt * m) :=
  have h : integerValue ⟨fun _ => false, id⟩ (txt "2k") = .ok (some 2000) := by decide +kernel
  ⟨h, integerValue_toInt _ h⟩

/-- 8eb is 2^63, one past the largest int64: Parse stores it wrapped to -2^63, with no error. -/
theorem Parse_wraps_eb :
    ((Parse ⟨fun _ => false, id⟩ [] (fun _ _ _ => .ok []) (txt "a = 8eb")).toOption.map
      fun m => m.map fun kv => (kv.1, kv.2.int?)) = some [(txt "a", some Int64.minValue)] := by
  decide +kernel

end Integers

end NatsServer.Conf
