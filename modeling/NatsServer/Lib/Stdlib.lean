import Mathlib.Data.List.Basic
import Mathlib.Algebra.GroupWithZero.Nat
import Mathlib.Algebra.Group.Int.Defs

/-!
# Numbers, hex and dates from bytes

What a configuration parser calls from Go's standard library besides runes, on the bytes of a
Go string. `strconv.ParseInt` and `strconv.ParseUint` in base 10 on 64 bits are exact, errors
included: a value out of range is reported as soon as the digits pass it, before a later byte
that is no digit. `strconv.ParseFloat` on 64 bits reads an optional sign, digits with one
optional point and an optional exponent, keeps the decimal it reads, and reports the range
error when the decimal rounds past the largest `float64`; hexadecimal floats, underscores,
`inf` and `nan` are not read. `hex.DecodeString` is exact, and `time.Parse` reads the layout
`2006-01-02T15:04:05Z` as the value is laid out there, with its range checks.
-/

namespace NatsServer.Lib

namespace strconv

inductive NumError
  | ErrSyntax
  | ErrRange
  deriving DecidableEq, Repr

def maxUint64 : Nat := 2 ^ 64 - 1

def digitVal (c : UInt8) : Option Nat := if 0x30 ≤ c ∧ c ≤ 0x39 then some (c.toNat - 0x30) else none

def parseUintLoop : Nat → List UInt8 → Except NumError Nat
  | n, [] => .ok n
  | n, c :: cs =>
    match digitVal c with
    | none => .error .ErrSyntax
    | some d =>
      -- cutoff = maxUint64/10 + 1: n*10 overflows
      if n ≥ maxUint64 / 10 + 1 then .error .ErrRange
      else if n * 10 + d > maxUint64 then .error .ErrRange
      else parseUintLoop (n * 10 + d) cs

def ParseUint (s : List UInt8) : Except NumError Nat :=
  if s = [] then .error .ErrSyntax else parseUintLoop 0 s

/-- strconv.ParseInt(s, 10, 64): the sign, then ParseUint, whose range error becomes maxUint64
and so a range error here too. -/
def ParseInt (s : List UInt8) : Except NumError Int64 :=
  if s = [] then .error .ErrSyntax else
  let (neg, s) : Bool × List UInt8 := match s with
    | 0x2B :: s => (false, s)
    | 0x2D :: s => (true, s)
    | s => (false, s)
  match ParseUint s with
  | .error .ErrSyntax => .error .ErrSyntax
  | r =>
    let un := match r with
      | .ok n => n
      | .error _ => maxUint64
    if !neg ∧ un ≥ 2 ^ 63 then .error .ErrRange
    else if neg ∧ un > 2 ^ 63 then .error .ErrRange
    else .ok (if neg then -Int64.ofNat un else Int64.ofNat un)

structure Decimal where
  neg : Bool
  mant : Nat
  exp : Int
  deriving DecidableEq, Repr

def readDigits : List UInt8 → Nat × Nat × List UInt8
  | [] => (0, 0, [])
  | c :: cs =>
    match digitVal c with
    | none => (0, 0, c :: cs)
    | some d =>
      let (v, k, rest) := readDigits cs
      (d * 10 ^ k + v, k + 1, rest)

/-- Whether a decimal rounds past the largest float64, 2^1024 - 2^971: from halfway to the next
power of two, 2^1024 - 2^970, it rounds to infinity. -/
def Decimal.overflows (x : Decimal) : Bool :=
  if x.exp ≥ 0 then x.mant * 10 ^ x.exp.toNat ≥ 2 ^ 1024 - 2 ^ 970
  else x.mant ≥ (2 ^ 1024 - 2 ^ 970) * 10 ^ (-x.exp).toNat

def ParseFloat (s : List UInt8) : Except NumError Decimal :=
  let (neg, s) : Bool × List UInt8 := match s with
    | 0x2B :: s => (false, s)
    | 0x2D :: s => (true, s)
    | s => (false, s)
  let (ip, ik, s) := readDigits s
  let (fp, fk, s) : Nat × Nat × List UInt8 := match s with
    | 0x2E :: s => readDigits s
    | s => (0, 0, s)
  let (e, s) : Int × List UInt8 := match s with
    | c :: s =>
      if c = 0x65 ∨ c = 0x45 then
        let (eneg, s) : Bool × List UInt8 := match s with
          | 0x2B :: s => (false, s)
          | 0x2D :: s => (true, s)
          | s => (false, s)
        let (ev, ek, s) := readDigits s
        if ek = 0 then (0, c :: s) else (if eneg then -(ev : Int) else ev, s)
      else (0, c :: s)
    | [] => (0, [])
  if ik + fk = 0 ∨ s ≠ [] then .error .ErrSyntax
  else
    let x : Decimal := ⟨neg, ip * 10 ^ fk + fp, e - fk⟩
    if x.overflows then .error .ErrRange else .ok x

end strconv

namespace hex

def fromHexChar (c : UInt8) : Option Nat :=
  if 0x30 ≤ c ∧ c ≤ 0x39 then some (c.toNat - 0x30)
  else if 0x61 ≤ c ∧ c ≤ 0x66 then some (c.toNat - 0x61 + 10)
  else if 0x41 ≤ c ∧ c ≤ 0x46 then some (c.toNat - 0x41 + 10)
  else none

def DecodeString : List UInt8 → Option (List UInt8)
  | [] => some []
  | [_] => none
  | a :: b :: s =>
    match fromHexChar a, fromHexChar b, DecodeString s with
    | some x, some y, some bs => some ((x * 16 + y).toUInt8 :: bs)
    | _, _, _ => none

end hex

namespace time

structure DateTime where
  year : Nat
  month : Nat
  day : Nat
  hour : Nat
  min : Nat
  sec : Nat
  deriving DecidableEq, Repr

def isLeap (year : Nat) : Bool := year % 4 = 0 ∧ (year % 100 ≠ 0 ∨ year % 400 = 0)

def daysIn (month year : Nat) : Nat :=
  if month = 2 then (if isLeap year then 29 else 28)
  else if month = 4 ∨ month = 6 ∨ month = 9 ∨ month = 11 then 30 else 31

def num2 (a b : UInt8) : Option Nat :=
  match strconv.digitVal a, strconv.digitVal b with
  | some x, some y => some (10 * x + y)
  | _, _ => none

def ParseZulu : List UInt8 → Option DateTime
  | [y1, y2, y3, y4, 0x2D, m1, m2, 0x2D, d1, d2, 0x54, h1, h2, 0x3A, i1, i2, 0x3A, s1, s2, 0x5A] =>
    match num2 y1 y2, num2 y3 y4, num2 m1 m2, num2 d1 d2, num2 h1 h2, num2 i1 i2, num2 s1 s2 with
    | some yh, some yl, some month, some day, some hour, some min, some sec =>
      let year := 100 * yh + yl
      if month < 1 ∨ 12 < month ∨ hour ≥ 24 ∨ min ≥ 60 ∨ sec ≥ 60 ∨ day < 1 ∨ day > daysIn month year
      then none
      else some ⟨year, month, day, hour, min, sec⟩
    | _, _, _, _, _, _, _ => none
  | _ => none

end time

end NatsServer.Lib
