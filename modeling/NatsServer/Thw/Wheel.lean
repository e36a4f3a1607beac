import Mathlib.Data.Fintype.Basic
import NatsServer.Lib.Assoc

/-!
# The timing hash wheel

`thw.HashWheel` keeps `(seq, expires)` entries in 4096 slots, one per second modulo the wheel
size. Each slot is a map from sequence to expiration and remembers a lowest expiration; the
wheel remembers a lowest one across the slots. Both are maintained lazily: `Add` lowers them,
`Remove` leaves them, and `expireTasks` recomputes them while it deletes what expired.

The slots are a function from positions, a slot's map an association list; the callback of
`expireTasks` is a pure function, and the run records the arguments of its calls.
-/

namespace NatsServer.Thw

open NatsServer.Lib

inductive ThwError
  | taskNotFound
  deriving DecidableEq, Repr

def tickDuration : Int64 := 1000000000
def wheelBits : Nat := 12
def wheelSize : Nat := 1 <<< wheelBits
def wheelMask : Int64 := Int64.ofNat (wheelSize - 1)

structure Slot where
  entries : List (UInt64 × Int64)
  lowest : Int64

structure HashWheel where
  wheel : Fin wheelSize → Option Slot
  lowest : Int64
  count : UInt64

def NewHashWheel : HashWheel := ⟨fun _ => none, Int64.maxValue, 0⟩

def getPosition (expires : Int64) : Int64 := (expires / tickDuration) &&& wheelMask

theorem getPosition_lt (expires : Int64) : (getPosition expires).toNatClampNeg < wheelSize := by
  have h : (getPosition expires).toBitVec.toNat ≤ 4095 := by
    rw [getPosition, Int64.toBitVec_and, BitVec.toNat_and]
    exact Nat.and_le_right
  rw [Int64.toNatClampNeg, ← Int64.toInt_toBitVec, BitVec.toInt_eq_toNat_of_lt (by omega)]
  change _ < 4096
  omega

def slotOf (expires : Int64) : Fin wheelSize :=
  ⟨(getPosition expires).toNatClampNeg, getPosition_lt expires⟩

def newSlot : Slot := ⟨[], Int64.maxValue⟩

namespace HashWheel

def Add (hw : HashWheel) (seq : UInt64) (expires : Int64) : HashWheel :=
  let pos := slotOf expires
  -- the slot is made on its first entry
  let s := (hw.wheel pos).getD newSlot
  let count := if (Assoc.find seq s.entries).isSome then hw.count else hw.count + 1
  let entries := Assoc.set seq expires s.entries
  if expires < s.lowest then
    { wheel := Function.update hw.wheel pos (some ⟨entries, expires⟩)
      lowest := if expires < hw.lowest then expires else hw.lowest
      count := count }
  else
    { wheel := Function.update hw.wheel pos (some ⟨entries, s.lowest⟩)
      lowest := hw.lowest
      count := count }

def Remove (hw : HashWheel) (seq : UInt64) (expires : Int64) : Except ThwError HashWheel :=
  let pos := slotOf expires
  match hw.wheel pos with
  | none => .error .taskNotFound
  | some s =>
    match Assoc.find seq s.entries with
    | none => .error .taskNotFound
    | some _ =>
      let entries := Assoc.erase seq s.entries
      -- an empty slot is set to nil
      .ok { hw with
        wheel := Function.update hw.wheel pos
          (if entries.length = 0 then none else some ⟨entries, s.lowest⟩)
        count := hw.count - 1 }

def Update (hw : HashWheel) (seq : UInt64) (oldExpires newExpires : Int64) :
    Except ThwError HashWheel := do
  let hw ← hw.Remove seq oldExpires
  return hw.Add seq newExpires

end HashWheel

/-- The state of the loop of `expireTasks` over the entries of one slot: the slot's map, the
wheel's count, the new lowest of the slot and the calls made so far. -/
structure Scan where
  entries : List (UInt64 × Int64)
  count : UInt64
  slotLowest : Int64
  calls : List (UInt64 × Int64)

def scanEntry (ts : Int64) (callback : UInt64 → Int64 → Bool) (st : Scan) :
    UInt64 × Int64 → Scan
  | (seq, expires) =>
    -- the callback runs only on what expired
    let st := { st with calls := if expires ≤ ts then st.calls ++ [(seq, expires)] else st.calls }
    if decide (expires ≤ ts) && callback seq expires then
      match Assoc.find seq st.entries with
      | some _ => { st with entries := Assoc.erase seq st.entries, count := st.count - 1 }
      | none => st
    else { st with slotLowest := if expires < st.slotLowest then expires else st.slotLowest }

structure Sweep where
  wheel : Fin wheelSize → Option Slot
  count : UInt64
  globalLowest : Int64
  calls : List (UInt64 × Int64)

def sweepSlot (ts : Int64) (callback : UInt64 → Int64 → Bool) (st : Sweep)
    (pos : Fin wheelSize) : Sweep :=
  match st.wheel pos with
  | none => st
  | some s =>
    if s.lowest > ts then
      { st with globalLowest := if s.lowest < st.globalLowest then s.lowest else st.globalLowest }
    else
      let r := s.entries.foldl (scanEntry ts callback)
        ⟨s.entries, st.count, Int64.maxValue, st.calls⟩
      if r.entries.length = 0 then
        { st with wheel := Function.update st.wheel pos none, count := r.count, calls := r.calls }
      else
        { wheel := Function.update st.wheel pos (some ⟨r.entries, r.slotLowest⟩)
          count := r.count
          globalLowest := if r.slotLowest < st.globalLowest then r.slotLowest else st.globalLowest
          calls := r.calls }

namespace HashWheel

def expireTasks (hw : HashWheel) (ts : Int64) (callback : UInt64 → Int64 → Bool) :
    HashWheel × List (UInt64 × Int64) :=
  -- quick return if nothing is expired
  if hw.lowest > ts then (hw, [])
  else
    match (List.finRange wheelSize).foldl (sweepSlot ts callback)
        ⟨hw.wheel, hw.count, Int64.maxValue, []⟩ with
    | ⟨wheel, count, globalLowest, calls⟩ => (⟨wheel, globalLowest, count⟩, calls)

def GetNextExpiration (hw : HashWheel) (before : Int64) : Int64 :=
  if hw.lowest < before then hw.lowest else Int64.maxValue

def Count (hw : HashWheel) : UInt64 := hw.count

end HashWheel

inductive Op where
  | add (seq : UInt64) (expires : Int64)
  | remove (seq : UInt64) (expires : Int64)
  | update (seq : UInt64) (oldExpires newExpires : Int64)
  | expireTasks (ts : Int64) (callback : UInt64 → Int64 → Bool)

def step (hw : HashWheel) : Op → HashWheel
  | .add seq expires => hw.Add seq expires
  | .remove seq expires =>
    match hw.Remove seq expires with
    | .ok hw' => hw'
    | .error _ => hw
  | .update seq oldExpires newExpires =>
    match hw.Update seq oldExpires newExpires with
    | .ok hw' => hw'
    | .error _ => hw
  | .expireTasks ts callback => (hw.expireTasks ts callback).1

def entriesOf : Option Slot → List (UInt64 × Int64)
  | none => []
  | some s => s.entries

def stored (wheel : Fin wheelSize → Option Slot) : List (UInt64 × Int64) :=
  (List.finRange wheelSize).flatMap fun p => entriesOf (wheel p)

-- Generate the equation lemmas of entriesOf and stored here, once, before the proofs below unfold
-- them in parallel.
section
attribute [local simp] entriesOf stored
end

end NatsServer.Thw
