import NatsServer.Lib.Bytes
import NatsServer.Lib.Varint
import NatsServer.Thw.Expire

/-!
# Snapshots of the wheel

`Encode` writes a version byte, the count and the high sequence as little-endian words, then
every entry, slot after slot, as a varint expiration and a uvarint sequence. `Decode` reads the
header, empties the wheel (its count it keeps, as the source does) and `Add`s each pair it reads.
A slot's map is written in the order of its entries.
-/

namespace NatsServer.Thw

open NatsServer.Lib NatsServer.Lib.Bytes NatsServer.Lib.Binary

def headerLen : Nat := 17

inductive DecodeError
  | ErrShortBuffer
  | ErrInvalidVersion
  | ErrUnexpectedEOF
  deriving DecidableEq, Repr

def DecodeError.Error : DecodeError → String
  | .ErrShortBuffer => "short buffer"
  | .ErrInvalidVersion => "thw: encoded version not known"
  | .ErrUnexpectedEOF => "unexpected EOF"

def entryBytes : UInt64 × Int64 → List UInt8
  | (v, ts) => putVarint ts ++ putUvarint v

namespace HashWheel

def Encode (hw : HashWheel) (highSeq : UInt64) : List UInt8 :=
  [1] ++ leBytes 8 hw.count.toNat ++ leBytes 8 highSeq.toNat ++
    (stored hw.wheel).flatMap entryBytes

def decodeLoop : Nat → List UInt8 → HashWheel → HashWheel × Except DecodeError Unit
  | 0, _, hw => (hw, .ok ())
  | i + 1, b, hw =>
    let (ts, tn) := varint b
    if tn ≤ 0 then (hw, .error .ErrUnexpectedEOF)
    else
      let (v, vn) := uvarint (b.drop tn.toNat)
      if vn ≤ 0 then (hw, .error .ErrUnexpectedEOF)
      else decodeLoop i (b.drop (tn.toNat + vn.toNat)) (hw.Add v ts)

def Decode (hw : HashWheel) (b : List UInt8) : HashWheel × Except DecodeError UInt64 :=
  if b.length < headerLen then (hw, .error .ErrShortBuffer)
  else if b.head? ≠ some 1 then (hw, .error .ErrInvalidVersion)
  else
    let hw := { hw with wheel := fun _ => none, lowest := Int64.maxValue }
    let count := getLE b 1 8
    let stamp := UInt64.ofNat (getLE b 9 8)
    match decodeLoop count (b.drop headerLen) hw with
    | (hw, .ok ()) => (hw, .ok stamp)
    | (hw, .error e) => (hw, .error e)

-- Generate the equation lemmas of decodeLoop here, once, before the proofs below unfold it in
-- parallel.
section
attribute [local simp] decodeLoop
end

end HashWheel

/-- `b` begins with the pairs `L`, each read as the decoder reads it: a varint expiration of
`tn > 0` bytes, then a uvarint sequence of `vn > 0` bytes; `rest` follows them. -/
inductive Pairs : List UInt8 → List (UInt64 × Int64) → List UInt8 → Prop
  | nil (b : List UInt8) : Pairs b [] b
  | cons {b : List UInt8} {ts : Int64} {tn : Int} {v : UInt64} {vn : Int}
      {L : List (UInt64 × Int64)} {rest : List UInt8} :
      varint b = (ts, tn) → 0 < tn → uvarint (b.drop tn.toNat) = (v, vn) → 0 < vn →
      Pairs (b.drop (tn.toNat + vn.toNat)) L rest → Pairs b ((v, ts) :: L) rest

namespace HashWheel

/-! ## The decode loop -/

theorem decodeLoop_entries (L : List (UInt64 × Int64)) (rest : List UInt8) (hw : HashWheel) :
    decodeLoop L.length (L.flatMap entryBytes ++ rest) hw =
      (L.foldl (fun hw e => hw.Add e.1 e.2) hw, .ok ()) := by
  induction L generalizing hw with
  | nil => rfl
  | cons e L ih =>
    obtain ⟨v, ts⟩ := e
    have htn := length_putVarint_pos ts
    have hvn := length_putUvarint_pos v
    rw [List.length_cons, decodeLoop]
    simp only [List.flatMap_cons, entryBytes, List.append_assoc, varint_putVarint,
      Int.toNat_natCast, List.drop_left, uvarint_putUvarint]
    rw [if_neg (by omega), if_neg (by omega), ← List.drop_drop, List.drop_left, List.drop_left, ih]
    rfl

theorem decodeLoop_ok {k : Nat} {b : List UInt8} {hw hw' : HashWheel}
    (h : decodeLoop k b hw = (hw', .ok ())) :
    ∃ L rest, Pairs b L rest ∧ L.length = k ∧ hw' = L.foldl (fun hw e => hw.Add e.1 e.2) hw := by
  induction k generalizing b hw with
  | zero =>
    simp only [decodeLoop, Prod.mk.injEq] at h
    exact ⟨[], b, .nil b, rfl, h.1.symm⟩
  | succ k ih =>
    rw [decodeLoop] at h
    generalize hr : varint b = r at h
    obtain ⟨ts, tn⟩ := r
    simp only at h
    split at h
    · simp at h
    rename_i htn
    generalize hr' : uvarint (b.drop tn.toNat) = r' at h
    obtain ⟨v, vn⟩ := r'
    simp only at h
    split at h
    · simp at h
    rename_i hvn
    obtain ⟨L, rest, hp, hl, he⟩ := ih h
    exact ⟨(v, ts) :: L, rest, .cons hr (by omega) hr' (by omega) hp, by simp [hl], he⟩

/-! ## What a fold of `Add` stores -/

theorem Inv.foldl_Add {W : HashWheel} (h : W.Inv) (L : List (UInt64 × Int64)) :
    (L.foldl (fun hw e => hw.Add e.1 e.2) W).Inv := by
  induction L generalizing W with
  | nil => exact h
  | cons e L ih => exact ih (h.Add e.1 e.2)

theorem entriesOf_foldl_Add (L : List (UInt64 × Int64)) (W : HashWheel) (p : Fin wheelSize) :
    entriesOf ((L.foldl (fun hw e => hw.Add e.1 e.2) W).wheel p) =
      (L.filter fun e => slotOf e.2 = p).foldl (fun es e => Assoc.set e.1 e.2 es)
        (entriesOf (W.wheel p)) := by
  induction L generalizing W with
  | nil => rfl
  | cons e L ih =>
    -- one Add changes only the slot of its expiration
    have hadd : entriesOf ((W.Add e.1 e.2).wheel p) = if slotOf e.2 = p then
        Assoc.set e.1 e.2 (entriesOf (W.wheel p)) else entriesOf (W.wheel p) := by
      rw [Add_wheel rfl]
      by_cases hp : slotOf e.2 = p
      · subst hp
        rw [Function.update_self, if_pos rfl, entriesOf_eq_getD (W.wheel _)]
        rfl
      · simp [Function.update_of_ne (Ne.symm hp), hp]
    rw [List.foldl_cons, ih, List.filter_cons]
    by_cases hp : slotOf e.2 = p <;> simp [hadd, hp]

theorem filter_stored {w : Fin wheelSize → Option Slot}
    (hpos : ∀ q, ∀ x ∈ entriesOf (w q), slotOf x.2 = q) (p : Fin wheelSize) :
    (stored w).filter (fun e => slotOf e.2 = p) = entriesOf (w p) := by
  have h : ∀ q, (entriesOf (w q)).filter (fun e => slotOf e.2 = p) =
      if q = p then entriesOf (w p) else [] := by
    intro q
    by_cases hq : q = p
    · subst hq
      simpa using fun x hx => hpos q x hx
    · simpa [hq] using fun x hx hxp => hq ((hpos q x hx).symm.trans hxp)
  rw [stored, List.filter_flatMap]
  simp only [h]
  exact flatMap_ite_eq (List.nodup_finRange _) (List.mem_finRange p) _

theorem stored_congr {w w' : Fin wheelSize → Option Slot}
    (h : ∀ p, entriesOf (w p) = entriesOf (w' p)) : stored w = stored w' := by
  simp only [stored, h]

/-! ## Round trip -/

theorem Decode_Encode_eq (W hw : HashWheel) (highSeq : UInt64) :
    W.Decode (hw.Encode highSeq) =
      ((decodeLoop hw.count.toNat ((stored hw.wheel).flatMap entryBytes)
          { W with wheel := fun _ => none, lowest := Int64.maxValue }).1,
        (decodeLoop hw.count.toNat ((stored hw.wheel).flatMap entryBytes)
          { W with wheel := fun _ => none, lowest := Int64.maxValue }).2.map fun _ => highSeq) := by
  have hc : getLE (hw.Encode highSeq) 1 8 = hw.count.toNat := by
    have := getLE_leBytes [1] (leBytes 8 highSeq.toNat ++ (stored hw.wheel).flatMap entryBytes)
      8 hw.count.toNat
    simp only [List.append_assoc, List.length_singleton] at this
    rw [Encode, List.append_assoc, List.append_assoc, this]
    exact Nat.mod_eq_of_lt hw.count.toNat_lt
  have hs : getLE (hw.Encode highSeq) 9 8 = highSeq.toNat := by
    have := getLE_leBytes ([1] ++ leBytes 8 hw.count.toNat) ((stored hw.wheel).flatMap entryBytes)
      8 highSeq.toNat
    simp only [List.length_append, length_leBytes, List.length_cons, List.length_nil] at this
    rw [Encode, this]
    exact Nat.mod_eq_of_lt highSeq.toNat_lt
  have hbody : (hw.Encode highSeq).drop headerLen = (stored hw.wheel).flatMap entryBytes := by
    rw [Encode, show headerLen =
      ([1] ++ leBytes 8 hw.count.toNat ++ leBytes 8 highSeq.toNat).length by simp [headerLen],
      List.drop_left]
  have hshort : ¬(hw.Encode highSeq).length < headerLen := by
    simp only [Encode, headerLen, List.length_append, length_leBytes, List.length_singleton]
    omega
  have hhead : (hw.Encode highSeq).head? = some 1 := rfl
  rw [Decode, if_neg hshort, if_neg (not_not.mpr hhead)]
  simp only [hc, hs, hbody, UInt64.ofNat_toNat]
  generalize decodeLoop hw.count.toNat ((stored hw.wheel).flatMap entryBytes)
    { W with wheel := fun _ => none, lowest := Int64.maxValue } = r
  obtain ⟨w, e | u⟩ := r <;> rfl

theorem Decode_Encode_wheel {hw : HashWheel} (h : hw.Inv)
    (hlen : (stored hw.wheel).length < 2 ^ 64) (highSeq : UInt64) :
    (NewHashWheel.Decode (hw.Encode highSeq)).2 = .ok highSeq ∧
      (∀ p, entriesOf ((NewHashWheel.Decode (hw.Encode highSeq)).1.wheel p) =
        entriesOf (hw.wheel p)) ∧
      (NewHashWheel.Decode (hw.Encode highSeq)).1.Count = hw.Count := by
  set D := (stored hw.wheel).foldl (fun hw e => hw.Add e.1 e.2) NewHashWheel
  have hcount : hw.count.toNat = (stored hw.wheel).length := by
    rw [h.count, UInt64.toNat_ofNat', Nat.mod_eq_of_lt hlen]
  have hdec : NewHashWheel.Decode (hw.Encode highSeq) = (D, .ok highSeq) := by
    have hloop := decodeLoop_entries (stored hw.wheel) [] NewHashWheel
    rw [List.append_nil] at hloop
    have hfresh : ({ NewHashWheel with wheel := fun _ => none, lowest := Int64.maxValue } :
        HashWheel) = NewHashWheel := rfl
    rw [Decode_Encode_eq, hcount, hfresh, hloop]
    dsimp only [Except.map]
  have hpos : ∀ q, ∀ x ∈ entriesOf (hw.wheel q), slotOf x.2 = q := fun q x hx => by
    rw [entriesOf_eq_getD] at hx
    exact (h.slot_getD q).pos x hx
  -- a slot's keys are distinct, so setting them one after the other rebuilds the slot
  have hslots : ∀ p, entriesOf (D.wheel p) = entriesOf (hw.wheel p) := by
    intro p
    have hnd := (h.slot_getD p).nodup
    rw [← entriesOf_eq_getD] at hnd
    rw [entriesOf_foldl_Add, filter_stored hpos, show entriesOf (NewHashWheel.wheel p) = [] from rfl]
    simpa using Assoc.foldl_set_of_nodup (entriesOf (hw.wheel p)) [] (by simpa using hnd)
  rw [hdec]
  dsimp only [Count]
  refine ⟨rfl, hslots, ?_⟩
  have hD : D.Inv := Inv.new.foldl_Add _
  rw [hD.count, h.count, stored_congr hslots]

theorem Decode_ok {hw : HashWheel} {b : List UInt8} {stamp : UInt64}
    (h : (hw.Decode b).2 = .ok stamp) :
    ∃ L rest, Pairs (b.drop headerLen) L rest ∧ L.length = getLE b 1 8 ∧
      (hw.Decode b).1 = L.foldl (fun hw e => hw.Add e.1 e.2)
        { hw with wheel := fun _ => none, lowest := Int64.maxValue } := by
  unfold Decode at h ⊢
  split at h
  · simp at h
  split at h
  · simp at h
  rename_i hl hv
  rw [if_neg hl, if_neg hv]
  dsimp only at h ⊢
  split at h
  · rename_i hw' hloop
    exact decodeLoop_ok hloop
  · simp at h

end HashWheel

/-- Along every run of `Add`, `Remove`, `Update` and `expireTasks` from a new wheel with fewer
than `2^64` entries, the snapshot decodes into a fresh wheel with the high sequence, the same
entries in the same slots and the same count; and any accepted buffer was read as whole pairs. -/
theorem wheel_Decode_Encode_run (ops : List Op) (highSeq : UInt64)
    (hlen : (stored (run step NewHashWheel ops).wheel).length < 2 ^ 64) :
    (NewHashWheel.Decode ((run step NewHashWheel ops).Encode highSeq)).2 = .ok highSeq ∧
      (∀ p, entriesOf ((NewHashWheel.Decode ((run step NewHashWheel ops).Encode highSeq)).1.wheel
        p) = entriesOf ((run step NewHashWheel ops).wheel p)) ∧
      (NewHashWheel.Decode ((run step NewHashWheel ops).Encode highSeq)).1.Count =
        (run step NewHashWheel ops).Count ∧
      ∀ (hw : HashWheel) (b : List UInt8) (stamp : UInt64), (hw.Decode b).2 = .ok stamp →
        ∃ L rest, Pairs (b.drop headerLen) L rest ∧ L.length = getLE b 1 8 ∧
          (hw.Decode b).1 = L.foldl (fun hw e => hw.Add e.1 e.2)
            { hw with wheel := fun _ => none, lowest := Int64.maxValue } := by
  have h : (run step NewHashWheel ops).Inv :=
    run_invariant _ (fun s op hs => hs.step op) HashWheel.Inv.new ops
  exact ⟨(HashWheel.Decode_Encode_wheel h hlen highSeq).1,
    (HashWheel.Decode_Encode_wheel h hlen highSeq).2.1,
    (HashWheel.Decode_Encode_wheel h hlen highSeq).2.2, fun _ _ _ => HashWheel.Decode_ok⟩

theorem wheel_Decode_Encode_run_add :
    (stored (run step NewHashWheel [.add 7 5000000000]).wheel).length < 2 ^ 64 ∧
      (NewHashWheel.Decode ((run step NewHashWheel [.add 7 5000000000]).Encode 9)).2 = .ok 9 ∧
      (∀ p, entriesOf ((NewHashWheel.Decode
        ((run step NewHashWheel [.add 7 5000000000]).Encode 9)).1.wheel p) =
          entriesOf ((run step NewHashWheel [.add 7 5000000000]).wheel p)) ∧
      (NewHashWheel.Decode ((run step NewHashWheel [.add 7 5000000000]).Encode 9)).1.Count =
        (run step NewHashWheel [.add 7 5000000000]).Count ∧
      ∀ (hw : HashWheel) (b : List UInt8) (stamp : UInt64), (hw.Decode b).2 = .ok stamp →
        ∃ L rest, Pairs (b.drop headerLen) L rest ∧ L.length = getLE b 1 8 ∧
          (hw.Decode b).1 = L.foldl (fun hw e => hw.Add e.1 e.2)
            { hw with wheel := fun _ => none, lowest := Int64.maxValue } := by
  have hlen : (stored (run step NewHashWheel [.add 7 5000000000]).wheel).length < 2 ^ 64 := by
    rw [show run step NewHashWheel [.add 7 5000000000] = NewHashWheel.Add 7 5000000000 from rfl,
      HashWheel.stored_Add_new]
    decide
  exact ⟨hlen, wheel_Decode_Encode_run [.add 7 5000000000] 9 hlen⟩

end NatsServer.Thw
