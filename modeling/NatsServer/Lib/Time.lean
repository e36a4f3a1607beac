import Mathlib.Data.List.Basic
import Mathlib.Algebra.GroupWithZero.Nat
import Mathlib.Algebra.Group.Int.Defs

/-!
# Durations of Go's standard library

`Time.ParseDuration s` is `time.ParseDuration` on the bytes of `s`: an optional sign, then one or
more decimal numbers, each with an optional fraction and a unit among `ns`, `us`, `µs`, `μs`,
`ms`, `s`, `m` and `h`; the duration is a count of nanoseconds, and a count beyond `2^63` is an
error. The fraction is scaled through `float64`, as the source does. The errors keep what their
text names (the input, and the unit) and not the text itself.

A number with no unit is an error unless it is `0` (`ParseDuration_digits`), which is how the
callers tell a duration from a plain count of seconds.
-/

namespace NatsServer.Lib

namespace Time

abbrev Duration := Int64

def Nanosecond : UInt64 := 1
def Microsecond : UInt64 := 1000
def Millisecond : UInt64 := 1000000
def Second : UInt64 := 1000000000
def Minute : UInt64 := 60000000000
def Hour : UInt64 := 3600000000000

inductive DurationError
  | invalid (orig : List UInt8)
  | missingUnit (orig : List UInt8)
  | unknownUnit (u orig : List UInt8)
  deriving DecidableEq, Repr

def isDigitByte (c : UInt8) : Bool := '0'.toNat.toUInt8 ≤ c && c ≤ '9'.toNat.toUInt8

def leadingInt : UInt64 → List UInt8 → Option (UInt64 × List UInt8)
  | x, [] => some (x, [])
  | x, c :: s =>
    if !isDigitByte c then some (x, c :: s)
    else if x > ((1 : UInt64) <<< 63) / 10 then none
    else
      let x := x * 10 + c.toUInt64 - '0'.toNat.toUInt64
      if x > ((1 : UInt64) <<< 63) then none else leadingInt x s

/-- leadingFraction: the leading `[0-9]*` as a value and its scale; past `2^63` it stops taking
precision but goes on consuming digits. -/
def leadingFraction : UInt64 × Float × Bool → List UInt8 → UInt64 × Float × List UInt8
  | (x, scale, _), [] => (x, scale, [])
  | (x, scale, overflow), c :: s =>
    if !isDigitByte c then (x, scale, c :: s)
    else if overflow then leadingFraction (x, scale, true) s
    else if x > (((1 : UInt64) <<< 63) - 1) / 10 then leadingFraction (x, scale, true) s
    else
      let y := x * 10 + c.toUInt64 - '0'.toNat.toUInt64
      if y > ((1 : UInt64) <<< 63) then leadingFraction (x, scale, true) s
      else leadingFraction (y, scale * 10, false) s

def unitMap (u : List UInt8) : Option UInt64 :=
  if u = "ns".toUTF8.toList then some Nanosecond
  else if u = "us".toUTF8.toList then some Microsecond
  else if u = "µs".toUTF8.toList then some Microsecond
  else if u = "μs".toUTF8.toList then some Microsecond
  else if u = "ms".toUTF8.toList then some Millisecond
  else if u = "s".toUTF8.toList then some Second
  else if u = "m".toUTF8.toList then some Minute
  else if u = "h".toUTF8.toList then some Hour
  else none

/-- The loop of ParseDuration over `number unit` pairs, adding to `d`; every round consumes a
byte at least, so the bytes bound the rounds. -/
def parseLoop (orig : List UInt8) : Nat → UInt64 → List UInt8 → Except DurationError UInt64
  | _, d, [] => .ok d
  | 0, _, _ :: _ => .error (.invalid orig)
  | fuel + 1, d, c :: s =>
    -- the next character must be [0-9.]
    if !(c = '.'.toNat.toUInt8 || isDigitByte c) then .error (.invalid orig)
    else
      match leadingInt 0 (c :: s) with
      | none => .error (.invalid orig)
      | some (v, s') =>
        let pre := (c :: s).length != s'.length
        let (f, scale, s', post) := match s' with
          | c' :: rest =>
            if c' = '.'.toNat.toUInt8 then
              let r := leadingFraction (0, 1, false) rest
              (r.1, r.2.1, r.2.2, rest.length != r.2.2.length)
            else (0, 1, s', false)
          | [] => (0, 1, [], false)
        if !pre && !post then .error (.invalid orig)
        else
          let u := s'.takeWhile fun c => !(c = '.'.toNat.toUInt8 || isDigitByte c)
          let s' := s'.drop u.length
          if u.length = 0 then .error (.missingUnit orig)
          else
            match unitMap u with
            | none => .error (.unknownUnit u orig)
            | some unit =>
              if v > ((1 : UInt64) <<< 63) / unit then .error (.invalid orig)
              else
                let v := v * unit
                let v := if f > 0 then v + (f.toFloat * (unit.toFloat / scale)).toUInt64 else v
                if f > 0 ∧ v > ((1 : UInt64) <<< 63) then .error (.invalid orig)
                else
                  let d := d + v
                  if d > ((1 : UInt64) <<< 63) then .error (.invalid orig) else parseLoop orig fuel d s'

def ParseDuration (orig : List UInt8) : Except DurationError Duration :=
  let (neg, s) := match orig with
    | c :: s => if c = '-'.toNat.toUInt8 then (true, s)
      else if c = '+'.toNat.toUInt8 then (false, s) else (false, orig)
    | [] => (false, [])
  -- special case: if all that is left is "0", this is zero
  if s = ['0'.toNat.toUInt8] then .ok 0
  else if s = [] then .error (.invalid orig)
  else
    match parseLoop orig s.length 0 s with
    | .error e => .error e
    | .ok d =>
      if neg then .ok (-d.toInt64)
      else if d > ((1 : UInt64) <<< 63) - 1 then .error (.invalid orig)
      else .ok d.toInt64

def Duration.Seconds (d : Duration) : Float :=
  let sec := d / Second.toInt64
  let nsec := d % Second.toInt64
  sec.toFloat + nsec.toFloat / 1e9

section Digits

theorem leadingInt_digits (x : UInt64) (s : List UInt8) (hs : ∀ c ∈ s, isDigitByte c = true) :
    leadingInt x s = none ∨ ∃ v, leadingInt x s = some (v, []) := by
  induction s generalizing x with
  | nil => exact .inr ⟨x, rfl⟩
  | cons c s ih =>
    have hc : isDigitByte c = true := hs c List.mem_cons_self
    have hrest := fun x => ih x (fun c hc => hs c (List.mem_cons_of_mem _ hc))
    simp only [leadingInt, hc, Bool.not_true, Bool.false_eq_true, if_false]
    split
    · exact .inl rfl
    · split
      · exact .inl rfl
      · exact hrest _

theorem ParseDuration_digits (s : List UInt8) (hne : s ≠ []) (hs : ∀ c ∈ s, isDigitByte c = true)
    (h0 : s ≠ ['0'.toNat.toUInt8]) : ∃ e, ParseDuration s = .error e := by
  obtain ⟨c, s', rfl⟩ := List.exists_cons_of_ne_nil hne
  have hc : isDigitByte c = true := hs c List.mem_cons_self
  -- a digit is no sign
  have hsign : c ≠ '-'.toNat.toUInt8 ∧ c ≠ '+'.toNat.toUInt8 := by
    constructor <;> (rintro rfl; simp [isDigitByte] at hc)
  simp only [ParseDuration, if_neg hsign.1, if_neg hsign.2, if_neg h0, reduceCtorEq, if_false]
  rw [List.length_cons, parseLoop]
  simp only [hc, Bool.or_true, Bool.not_true, Bool.false_eq_true, if_false]
  rcases leadingInt_digits 0 (c :: s') hs with h | ⟨v, h⟩
  · rw [h]
    exact ⟨_, rfl⟩
  · rw [h]
    simp
end Digits

end Time

end NatsServer.Lib
