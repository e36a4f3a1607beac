import NatsServer.Lib.Time

/-!
# Sequences and TTLs read from message headers

`sliceHeader` finds a header's value in the raw header block: the key must start a line (a CRLF
before it) and be followed by `:`; blanks before the value are skipped and the value runs to the
next CRLF. `getExpectedLastSeq` and `getExpectedLastSeqPerSubject` read their value with
`parseInt64`, which multiplies by ten and adds in `int64` with no overflow check, and convert the
result to `uint64`; `parseMessageTTL` reads a duration, or else a count of seconds with
`parseInt64`. `parseUint64`, right beside it in the source, checks for overflow.

So a value of twenty digits or more wraps: `parseInt64` is the value modulo `2^64`, read as an
`int64` (`parseInt64_eq_ofNat`), exact below `2^63` and `-1` only for what is not a number.
-/

namespace NatsServer.Stream

open NatsServer.Lib

def asciiZero : UInt8 := 48
def asciiNine : UInt8 := 57

def JSExpectedLastSeq : String := "Nats-Expected-Last-Sequence"
def JSExpectedLastSubjSeq : String := "Nats-Expected-Last-Subject-Sequence"
def JSMessageTTL : String := "Nats-TTL"

def bytesIndex (sep : List UInt8) : List UInt8 → Option Nat
  | [] => if sep.isPrefixOf [] then some 0 else none
  | c :: s => if sep.isPrefixOf (c :: s) then some 0 else (bytesIndex sep s).map (· + 1)

/-- The loop of getHeaderKeyIndex from `offset`: an occurrence that does not start a line or is
not followed by `:` moves the offset past it. An occurrence less than two bytes after the offset
ends the search, as the source's `index < 2` does. -/
def headerKeyLoop (bkey hdr : List UInt8) : Nat → Nat → Option Nat
  | 0, _ => none
  | fuel + 1, offset =>
    match bytesIndex bkey (hdr.drop offset) with
    | none => none
    | some index =>
      if index < 2 then none
      else
        let index := index + offset
        -- there should be a terminating CRLF
        if index ≥ hdr.length - 1 ∨ hdr[index - 1]? ≠ some 10 ∨ hdr[index - 2]? ≠ some 13 then
          headerKeyLoop bkey hdr fuel (index + bkey.length)
        else if index + bkey.length ≥ hdr.length then none
        else if hdr[index + bkey.length]? ≠ some 58 then headerKeyLoop bkey hdr fuel (index + bkey.length)
        else some index

def getHeaderKeyIndex (key : String) (hdr : List UInt8) : Option Nat :=
  if hdr.length = 0 then none else headerKeyLoop key.toUTF8.toList hdr (hdr.length + 1) 0

def untilCRLF : List UInt8 → List UInt8
  | [] => []
  | c :: s =>
    match s with
    | d :: _ => if c = 13 ∧ d = 10 then [] else c :: untilCRLF s
    | [] => [c]

def sliceHeader (key : String) (hdr : List UInt8) : Option (List UInt8) :=
  if hdr.length = 0 then none
  else
    match getHeaderKeyIndex key hdr with
    | none => none
    | some index =>
      -- skip over the key, the separator and the blanks before the value
      let value := (hdr.drop (index + key.toUTF8.toList.length + 1)).dropWhile (· = 32)
      some (untilCRLF value)

def getHeader (key : String) (hdr : List UInt8) : Option (List UInt8) := sliceHeader key hdr

def parseInt64Loop : Int64 → List UInt8 → Int64
  | n, [] => n
  | n, dec :: d =>
    if dec < asciiZero || dec > asciiNine then -1
    else parseInt64Loop (n * 10 + (Int64.ofNat dec.toNat - Int64.ofNat asciiZero.toNat)) d

def parseInt64 (d : List UInt8) : Int64 := if d.length = 0 then -1 else parseInt64Loop 0 d

def maxUint64 : UInt64 := 0xFFFFFFFFFFFFFFFF

def parseUint64Loop : UInt64 → List UInt8 → UInt64 × Bool
  | n, [] => (n, true)
  | n, dec :: d =>
    if dec < asciiZero || dec > asciiNine then (0, false)
    else
      let digit := dec.toUInt64 - asciiZero.toUInt64
      if n > maxUint64 / 10 || (n == maxUint64 / 10 && digit > maxUint64 % 10) then (0, false)
      else parseUint64Loop (n * 10 + digit) d

def parseUint64 (d : List UInt8) : UInt64 × Bool :=
  if d.length = 0 then (0, false) else parseUint64Loop 0 d

def expectedSeqHeader (key : String) (hdr : List UInt8) : UInt64 × Bool :=
  let bseq := (sliceHeader key hdr).getD []
  if bseq.length = 0 then (0, false) else ((parseInt64 bseq).toUInt64, true)

def getExpectedLastSeq (hdr : List UInt8) : UInt64 × Bool := expectedSeqHeader JSExpectedLastSeq hdr

def getExpectedLastSeqPerSubject (hdr : List UInt8) : UInt64 × Bool :=
  expectedSeqHeader JSExpectedLastSubjSeq hdr

inductive TTLError
  | JSMessageTTLInvalidError
  deriving DecidableEq, Repr

/-- strings.ToLower, as far as a comparison with a lower-case ASCII word sees it: no other rune
lowers to one of its letters. -/
def asciiLower (s : List UInt8) : List UInt8 :=
  s.map fun c => if 65 ≤ c ∧ c ≤ 90 then c + 32 else c

/-- parseMessageTTL: `-1` never expires; a duration must be a second at least; otherwise a count
of seconds, where a negative parseInt64 is a parse failure. -/
def parseMessageTTL (ttl : List UInt8) : Except TTLError Int64 :=
  if asciiLower ttl = "never".toUTF8.toList then .ok (-1)
  else
    match Time.ParseDuration ttl with
    | .ok dur =>
      if dur < Time.Second.toInt64 then .error .JSMessageTTLInvalidError
      else .ok (Time.Duration.Seconds dur).toInt64
    | .error _ =>
      let t := parseInt64 ttl
      if t < 0 then .error .JSMessageTTLInvalidError else .ok t

def getMessageTTL (hdr : List UInt8) : Except TTLError Int64 :=
  let ttl := (getHeader JSMessageTTL hdr).getD []
  if ttl.length = 0 then .ok 0 else parseMessageTTL ttl

/-! ## parseInt64 and parseUint64 on digits -/

section Digits

def digitsFrom (m : Nat) (d : List UInt8) : Nat := d.foldl (fun v c => 10 * v + (c.toNat - 48)) m

def digitsValue (d : List UInt8) : Nat := digitsFrom 0 d

variable {d : List UInt8}

theorem digitsFrom_cons (m : Nat) (c : UInt8) (d : List UInt8) :
    digitsFrom m (c :: d) = digitsFrom (10 * m + (c.toNat - 48)) d := by
  rw [digitsFrom, digitsFrom, List.foldl_cons]

theorem notDigit_eq (c : UInt8) : (c < asciiZero || c > asciiNine) = !Time.isDigitByte c := by
  have h0 : '0'.toNat.toUInt8 = asciiZero := rfl
  have h9 : '9'.toNat.toUInt8 = asciiNine := rfl
  rw [Time.isDigitByte, h0, h9, Bool.eq_iff_iff]
  simp only [Bool.or_eq_true, decide_eq_true_eq, Bool.not_eq_true', Bool.and_eq_false_iff,
    decide_eq_false_iff_not, UInt8.not_le]

theorem digit_range {c : UInt8} (hc : Time.isDigitByte c = true) : 48 ≤ c.toNat ∧ c.toNat ≤ 57 := by
  simp only [Time.isDigitByte, Bool.and_eq_true, decide_eq_true_eq] at hc
  exact ⟨UInt8.le_iff_toNat_le.mp hc.1, UInt8.le_iff_toNat_le.mp hc.2⟩

theorem ofNat_sub_asciiZero {c : UInt8} (hc : Time.isDigitByte c = true) :
    Int64.ofNat c.toNat - Int64.ofNat asciiZero.toNat = Int64.ofNat (c.toNat - 48) := by
  rw [show asciiZero.toNat = 48 from rfl, ← Int64.ofNat_sub _ _ (digit_range hc).1]

theorem parseInt64Loop_digits (m : Nat) (hd : ∀ c ∈ d, Time.isDigitByte c = true) :
    parseInt64Loop (Int64.ofNat m) d = Int64.ofNat (digitsFrom m d) := by
  induction d generalizing m with
  | nil => rfl
  | cons c d ih =>
    have hc := hd c List.mem_cons_self
    have hnot : (c < asciiZero || c > asciiNine) = false := by rw [notDigit_eq, hc]; rfl
    rw [parseInt64Loop, hnot, if_neg Bool.false_ne_true, ofNat_sub_asciiZero hc,
      show Int64.ofNat m * 10 = Int64.ofNat (10 * m) by rw [Nat.mul_comm, Int64.ofNat_mul]; rfl,
      ← Int64.ofNat_add, digitsFrom_cons]
    exact ih _ (fun c hc => hd c (List.mem_cons_of_mem _ hc))

theorem parseInt64_eq_ofNat (hne : d ≠ []) (hd : ∀ c ∈ d, Time.isDigitByte c = true) :
    parseInt64 d = Int64.ofNat (digitsValue d) := by
  rw [parseInt64, if_neg (by simpa using hne)]
  exact parseInt64Loop_digits 0 hd

theorem toInt_ofNat_of_mod_lt {v : Nat} (h : v % 2 ^ 64 < 2 ^ 63) :
    (Int64.ofNat v).toInt = ((v % 2 ^ 64 : Nat) : Int) := by
  have hm : Int64.ofNat v = Int64.ofNat (v % 2 ^ 64) := by
    apply Int64.toBitVec_inj.mp
    apply BitVec.eq_of_toNat_eq
    simp
  rw [hm, Int64.toInt_ofNat_of_lt h]

end Digits

/-! ## A header block with one header -/

section OneHeader

def oneHeader (key : String) (value : List UInt8) : List UInt8 :=
  "NATS/1.0\r\n".toUTF8.toList ++ key.toUTF8.toList ++ ([58, 32] ++ value ++ [13, 10, 13, 10])

theorem isPrefixOf_append_of_le {sep x : List UInt8} (r : List UInt8)
    (h : sep.length ≤ x.length) : sep.isPrefixOf (x ++ r) = sep.isPrefixOf x := by
  induction sep generalizing x with
  | nil => rfl
  | cons a sep ih =>
    cases x with
    | nil => simp at h
    | cons b x => simp [List.isPrefixOf, ih (x := x) (by simpa using h)]

theorem bytesIndex_of_isPrefixOf {sep s : List UInt8} (h : sep.isPrefixOf s = true) :
    bytesIndex sep s = some 0 := by
  cases s <;> simp [bytesIndex, h]

theorem bytesIndex_append (pre sep rest : List UInt8)
    (h : ∀ i < pre.length, sep.isPrefixOf ((pre ++ sep).drop i) = false) :
    bytesIndex sep (pre ++ sep ++ rest) = some pre.length := by
  induction pre with
  | nil => exact bytesIndex_of_isPrefixOf (List.isPrefixOf_iff_prefix.mpr (List.prefix_append _ _))
  | cons c pre ih =>
    have h0 : sep.isPrefixOf (c :: (pre ++ sep ++ rest)) = false := by
      rw [← List.cons_append, isPrefixOf_append_of_le rest (by simp; omega)]
      exact h 0 (by simp)
    have hrest : ∀ i < pre.length, sep.isPrefixOf ((pre ++ sep).drop i) = false :=
      fun i hi => h (i + 1) (by simp; omega)
    rw [List.cons_append, List.cons_append, bytesIndex, if_neg (by rw [h0]; simp), ih hrest]
    rfl

theorem untilCRLF_append {v : List UInt8} (rest : List UInt8) (hv : 13 ∉ v) :
    untilCRLF (v ++ 13 :: 10 :: rest) = v := by
  induction v with
  | nil => simp [untilCRLF]
  | cons c v ih =>
    have hc : c ≠ 13 := fun h => hv (h ▸ List.mem_cons_self)
    have hv' : 13 ∉ v := fun h => hv (List.mem_cons_of_mem _ h)
    obtain ⟨d, t, ht⟩ : ∃ d t, v ++ 13 :: 10 :: rest = d :: t := by
      cases v <;> simp
    rw [List.cons_append, ht, untilCRLF, if_neg (fun h => hc h.1), ← ht, ih hv']

theorem sliceHeader_oneHeader (key : String) (value : List UInt8)
    (hk : ∀ i < 10, key.toUTF8.toList.isPrefixOf
      (("NATS/1.0\r\n".toUTF8.toList ++ key.toUTF8.toList).drop i) = false)
    (hv : value.head? ≠ some 32) (hcr : 13 ∉ value) :
    sliceHeader key (oneHeader key value) = some value := by
  have hpre : "NATS/1.0\r\n".toUTF8.toList = [78, 65, 84, 83, 47, 49, 46, 48, 13, 10] := by
    decide +kernel
  rw [hpre] at hk
  generalize hK : key.toUTF8.toList = K at hk
  have hhdr : oneHeader key value =
      [78, 65, 84, 83, 47, 49, 46, 48, 13, 10] ++ K ++ ([58, 32] ++ value ++ [13, 10, 13, 10]) := by
    rw [oneHeader, hpre, hK]
  have hlen : (oneHeader key value).length = 10 + K.length + (value.length + 6) := by
    simp [hhdr]
    omega
  have hidx : bytesIndex K (oneHeader key value) = some 10 :=
    hhdr ▸ bytesIndex_append _ K _ hk
  -- the occurrence at 10 starts a line and is followed by ':'
  have hcrlf : (oneHeader key value)[10 - 1]? = some 10 ∧ (oneHeader key value)[10 - 2]? = some 13 := by
    rw [hhdr, List.append_assoc]
    simp
  have hPK : ([78, 65, 84, 83, 47, 49, 46, 48, 13, 10] ++ K).length = 10 + K.length := by
    simp
    omega
  have hcolon : (oneHeader key value)[10 + K.length]? = some 58 := by
    rw [hhdr, ← hPK, List.getElem?_append_right (Nat.le_refl _), Nat.sub_self]
    rfl
  have hkey : getHeaderKeyIndex key (oneHeader key value) = some 10 := by
    rw [getHeaderKeyIndex, if_neg (by rw [hlen]; omega), headerKeyLoop, List.drop_zero, hK, hidx]
    simp only [Nat.add_zero]
    rw [if_neg (by omega), if_neg (by rw [hlen, hcrlf.1, hcrlf.2]; simp; omega),
      if_neg (by rw [hlen]; omega), if_neg (by rw [hcolon]; simp)]
  -- the value follows the key, the colon and one blank
  have hdrop : (oneHeader key value).drop (10 + K.length + 1) = 32 :: (value ++ [13, 10, 13, 10]) := by
    rw [hhdr, ← hPK, List.drop_append, List.drop_eq_nil_of_le (by omega), Nat.add_sub_cancel_left]
    rfl
  have hd : (value ++ [13, 10, 13, 10]).dropWhile (· = 32) = value ++ [13, 10, 13, 10] := by
    cases value with
    | nil => simp
    | cons c v => exact List.dropWhile_cons_of_neg (by simpa using hv)
  rw [sliceHeader, if_neg (by rw [hlen]; omega), hkey]
  simp only
  rw [hK, hdrop, List.dropWhile_cons_of_pos (by simp), hd, untilCRLF_append _ hcr]

theorem expectedSeqHeader_oneHeader (key : String) (hd : ∀ c ∈ d, Time.isDigitByte c = true)
    (hne : d ≠ [])
    (hk : ∀ i < 10, key.toUTF8.toList.isPrefixOf
      (("NATS/1.0\r\n".toUTF8.toList ++ key.toUTF8.toList).drop i) = false) :
    expectedSeqHeader key (oneHeader key d) = ((parseInt64 d).toUInt64, true) := by
  -- digits are neither a blank nor a carriage return
  have hv : d.head? ≠ some 32 := by
    cases d with
    | nil => exact absurd rfl hne
    | cons c d =>
      have := digit_range (hd c List.mem_cons_self)
      simp only [List.head?_cons, ne_eq, Option.some.injEq]
      rintro rfl
      simp at this
  have hcr : 13 ∉ d := fun h => by simpa using (digit_range (hd 13 h)).1
  rw [expectedSeqHeader, sliceHeader_oneHeader key d hk hv hcr, Option.getD_some,
    if_neg (by simpa using hne)]

theorem asciiLower_digits (hd : ∀ c ∈ d, Time.isDigitByte c = true) :
    asciiLower d ≠ "never".toUTF8.toList := by
  have hlow : asciiLower d = d := by
    rw [asciiLower]
    refine (List.map_congr_left fun c hc => if_neg fun h => ?_).trans (List.map_id' d)
    have h1 := digit_range (hd c hc)
    have h2 := UInt8.le_iff_toNat_le.mp h.1
    simp at h2
    omega
  have hnever : "never".toUTF8.toList = [110, 101, 118, 101, 114] := by decide +kernel
  rw [hlow, hnever]
  intro h
  have := digit_range (hd 110 (h ▸ List.mem_cons_self))
  simp at this

end OneHeader


/-! ## Values past `int64` -/

/-- parseInt64 does not check for overflow, as parseUint64 does: a value of digits past `2^64`
whose remainder is below `2^63` reads as that remainder and not as `-1`, and the expected last
sequences and the TTL take it. -/
theorem parseInt64_wraps (d : List UInt8) (hd : ∀ c ∈ d, Time.isDigitByte c = true)
    (hv : 2 ^ 64 ≤ digitsValue d) (hlt : digitsValue d % 2 ^ 64 < 2 ^ 63) :
    parseInt64 d ≠ -1 ∧ (parseInt64 d).toInt = ((digitsValue d % 2 ^ 64 : Nat) : Int) ∧
      getExpectedLastSeq (oneHeader JSExpectedLastSeq d) = (UInt64.ofNat (digitsValue d), true) ∧
      getExpectedLastSeqPerSubject (oneHeader JSExpectedLastSubjSeq d) =
        (UInt64.ofNat (digitsValue d), true) ∧
      parseMessageTTL d = .ok (Int64.ofNat (digitsValue d)) := by
  have hne : d ≠ [] := by
    rintro rfl
    simp [digitsValue, digitsFrom] at hv
  have hp := parseInt64_eq_ofNat hne hd
  have hint : (parseInt64 d).toInt = ((digitsValue d % 2 ^ 64 : Nat) : Int) := by
    rw [hp]
    exact toInt_ofNat_of_mod_lt hlt
  have hnn : ¬ parseInt64 d < 0 := by
    rw [Int64.lt_iff_toInt_lt, hint]
    simp only [Int64.toInt_zero]
    exact Int.not_lt.mpr (Int.natCast_nonneg _)
  have hu : (parseInt64 d).toUInt64 = UInt64.ofNat (digitsValue d) := by
    rw [hp, Int64.toUInt64_ofNat']
  refine ⟨fun h => hnn (by rw [h]; decide), hint, ?_, ?_, ?_⟩
  · rw [getExpectedLastSeq, expectedSeqHeader_oneHeader _ hd hne (by decide +kernel), hu]
  · rw [getExpectedLastSeqPerSubject, expectedSeqHeader_oneHeader _ hd hne (by decide +kernel), hu]
  · -- no unit follows the digits, so ParseDuration fails and the count of seconds is taken
    have h0 : d ≠ ['0'.toNat.toUInt8] := by
      rintro rfl
      simp [digitsValue, digitsFrom] at hv
    obtain ⟨e, he⟩ := Time.ParseDuration_digits d hne hd h0
    rw [parseMessageTTL, if_neg (asciiLower_digits hd), he]
    simp only
    rw [if_neg hnn, hp]

theorem parseInt64_wraps_to_one :
    parseInt64 "18446744073709551617".toUTF8.toList = 1 ∧
      getExpectedLastSeq (oneHeader JSExpectedLastSeq "18446744073709551617".toUTF8.toList) =
        (1, true) ∧
      parseMessageTTL "18446744073709551617".toUTF8.toList = .ok 1 := by
  have hd : ∀ c ∈ "18446744073709551617".toUTF8.toList, Time.isDigitByte c = true := by
    decide +kernel
  have hv : digitsValue "18446744073709551617".toUTF8.toList = 18446744073709551617 := by
    decide +kernel
  obtain ⟨-, hint, hseq, -, httl⟩ :=
    parseInt64_wraps _ hd (by rw [hv]; decide) (by rw [hv]; decide)
  rw [hv] at hint hseq httl
  exact ⟨Int64.toInt_inj.mp (by rw [hint]; decide), hseq, httl⟩

end NatsServer.Stream
