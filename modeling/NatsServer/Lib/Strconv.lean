import Mathlib.Data.List.Basic
import Mathlib.Algebra.Group.Int.Defs

/-!
# Decimal integers and string helpers of Go's standard library

`Strconv.parseInt s bits` is `strconv.ParseInt(s, 10, bits)`: an optional sign and at least one
decimal digit, in the range of a signed `bits`-bit integer; `Strconv.atoi` is `strconv.Atoi` for
a 64-bit `int`, and `Strconv.itoa` prints an integer back. `Strings.trim s cutset` cuts the
characters of `cutset` at both ends, `Strings.split s sep` cuts at every occurrence of `sep`
from the left, and into single characters for an empty `sep`, and `Strings.contains` tests for
a substring. Strings are read as their characters.
-/

namespace NatsServer.Lib

namespace Strconv

def digitsValue (ds : List Char) : Nat := ds.foldl (fun n c => 10 * n + (c.toNat - '0'.toNat)) 0

def parseInt (s : String) (bits : Nat) : Option Int :=
  let (neg, ds) : Bool × List Char := match s.toList with
    | '-' :: ds => (true, ds)
    | '+' :: ds => (false, ds)
    | ds => (false, ds)
  if ds ≠ [] ∧ ds.all Char.isDigit then
    let v : Int := if neg then -(digitsValue ds : Int) else digitsValue ds
    if -(2 ^ (bits - 1) : Int) ≤ v ∧ v < 2 ^ (bits - 1) then some v else none
  else none

def atoi (s : String) : Option Int := parseInt s 64

def itoa (n : Int) : String :=
  if n < 0 then "-" ++ String.ofList (Nat.toDigits 10 n.natAbs)
  else String.ofList (Nat.toDigits 10 n.toNat)

example : atoi "42" = some 42 ∧ atoi "-7" = some (-7) ∧ atoi "+3" = some 3 ∧ atoi "4a" = none ∧
    atoi "" = none ∧ atoi "-" = none := by
  decide +kernel

example : parseInt "2147483648" 32 = none ∧ parseInt "-2147483648" 32 = some (-2147483648) := by
  decide +kernel

end Strconv

namespace Strings

def trim (s : String) (cutset : List Char) : String :=
  String.ofList (((s.toList.dropWhile (· ∈ cutset)).reverse.dropWhile (· ∈ cutset)).reverse)

/-- The pieces of `s` between the occurrences of a non-empty `sep`, found from the left; `skip`
counts the characters of a separator still to pass. -/
def splitSep (sep : List Char) : Nat → List Char → List Char → List (List Char)
  | _, acc, [] => [acc]
  | skip + 1, acc, _ :: cs => splitSep sep skip acc cs
  | 0, acc, c :: cs =>
    if sep.isPrefixOf (c :: cs) then acc :: splitSep sep (sep.length - 1) [] cs
    else splitSep sep 0 (acc ++ [c]) cs

def split (s sep : String) : List String :=
  if sep.isEmpty then s.toList.map fun c => String.ofList [c]
  else (splitSep sep.toList 0 [] s.toList).map String.ofList

theorem splitSep_replicate (c : Char) (k : Nat) :
    splitSep [c] 0 [] (List.replicate k c) = List.replicate (k + 1) [] := by
  induction k with
  | zero => rfl
  | succ k ih =>
    rw [List.replicate_succ, splitSep, if_pos (by simp), List.length_singleton, ih]
    rfl

def occurs (sub : List Char) : List Char → Bool
  | [] => sub.isEmpty
  | c :: cs => sub.isPrefixOf (c :: cs) || occurs sub cs

def contains (s sub : String) : Bool := occurs sub.toList s.toList

example : split "a-b--c-" "-" = ["a", "b", "", "c", ""] ∧ split "abc" "" = ["a", "b", "c"] ∧
    split "" "" = [] ∧ split "" "-" = [""] ∧ split "a::b" "::" = ["a", "b"] := by
  decide +kernel

end Strings

end NatsServer.Lib
