import NatsServer.Thw.Invariant

/-!
# What `expireTasks` calls and removes

The loop over one slot visits the slot's own entries once each, in the map's order, while it
deletes from the map: with distinct sequences every deletion hits the entry being visited, so
the loop removes exactly the entries that fire and keeps the others in order (`scan_entries`).
The loop over the slots touches each position once, so after the positions `done` those slots
are swept and the others untouched (`SweepInv`); the invariant of the wheel supplies what the
skipped slots need, that nothing in them has expired.
-/

namespace NatsServer.Thw

open NatsServer.Lib

def fires (ts : Int64) (callback : UInt64 → Int64 → Bool) (x : UInt64 × Int64) : Bool :=
  decide (x.2 ≤ ts) && callback x.1 x.2

-- Generate the equation lemmas of fires here, once, before the proofs below unfold them in
-- parallel.
section
attribute [local simp] fires
end

section Scan

variable (ts : Int64) (cb : UInt64 → Int64 → Bool)

theorem scanEntry_calls (st : Scan) (x : UInt64 × Int64) :
    (scanEntry ts cb st x).calls = st.calls ++ [x].filter fun x => decide (x.2 ≤ ts) := by
  obtain ⟨seq, e⟩ := x
  simp only [scanEntry]
  by_cases he : e ≤ ts
  · simp only [he, decide_true, Bool.true_and, if_true, List.filter_singleton, cond_true]
    split
    · split <;> rfl
    · rfl
  · simp only [he, decide_false, Bool.false_and, Bool.false_eq_true, if_false,
      List.filter_singleton, cond_false, List.append_nil]

theorem scanEntry_keep {st : Scan} {x : UInt64 × Int64} (h : fires ts cb x = false) :
    (scanEntry ts cb st x).entries = st.entries ∧ (scanEntry ts cb st x).count = st.count ∧
      (scanEntry ts cb st x).slotLowest =
        if x.2 < st.slotLowest then x.2 else st.slotLowest := by
  obtain ⟨seq, e⟩ := x
  simp only [fires] at h
  simp only [scanEntry, h, Bool.false_eq_true, if_false, and_self]

theorem scanEntry_fire {st : Scan} {x : UInt64 × Int64} (h : fires ts cb x = true) :
    (scanEntry ts cb st x).slotLowest = st.slotLowest ∧
      ((Assoc.find x.1 st.entries).isSome →
        (scanEntry ts cb st x).entries = Assoc.erase x.1 st.entries ∧
          (scanEntry ts cb st x).count = st.count - 1) := by
  obtain ⟨seq, e⟩ := x
  simp only [fires] at h
  simp only [scanEntry, h, if_true]
  cases hf : Assoc.find seq st.entries with
  | none => exact ⟨rfl, fun h => by cases h⟩
  | some v => exact ⟨rfl, fun _ => ⟨rfl, rfl⟩⟩

theorem scan_calls (xs : List (UInt64 × Int64)) (st : Scan) :
    (xs.foldl (scanEntry ts cb) st).calls = st.calls ++ xs.filter fun x => decide (x.2 ≤ ts) := by
  induction xs generalizing st with
  | nil => simp
  | cons x xs ih =>
    rw [List.foldl_cons, ih, scanEntry_calls, List.append_assoc, ← List.filter_append,
      List.singleton_append]

theorem scan_slotLowest (xs : List (UInt64 × Int64)) (st : Scan) :
    (xs.foldl (scanEntry ts cb) st).slotLowest ≤ st.slotLowest ∧
      ∀ x ∈ xs, fires ts cb x = false → (xs.foldl (scanEntry ts cb) st).slotLowest ≤ x.2 := by
  induction xs generalizing st with
  | nil => exact ⟨Int64.le_refl _, fun _ h => by cases h⟩
  | cons x xs ih =>
    obtain ⟨ih₁, ih₂⟩ := ih (scanEntry ts cb st x)
    have hstep : (scanEntry ts cb st x).slotLowest ≤ st.slotLowest ∧
        (fires ts cb x = false → (scanEntry ts cb st x).slotLowest ≤ x.2) := by
      cases hf : fires ts cb x with
      | true =>
        rw [(scanEntry_fire ts cb hf).1]
        exact ⟨Int64.le_refl _, fun h => by cases h⟩
      | false =>
        rw [(scanEntry_keep ts cb hf).2.2]
        by_cases hl : x.2 < st.slotLowest
        · simp only [hl, if_true]
          exact ⟨Int64.le_of_lt hl, fun _ => Int64.le_refl _⟩
        · simp only [hl, if_false]
          exact ⟨Int64.le_refl _, fun _ => Int64.not_lt.mp hl⟩
    refine ⟨Int64.le_trans ih₁ hstep.1, fun y hy hf => ?_⟩
    rcases List.mem_cons.mp hy with rfl | hy
    · exact Int64.le_trans ih₁ (hstep.2 hf)
    · exact ih₂ y hy hf

theorem scan_entries (xs A : List (UInt64 × Int64)) (st : Scan) (hst : st.entries = A ++ xs)
    (hnd : ((A ++ xs).map Prod.fst).Nodup) :
    (xs.foldl (scanEntry ts cb) st).entries = A ++ xs.filter (fun x => !fires ts cb x) ∧
      (xs.foldl (scanEntry ts cb) st).count + UInt64.ofNat (xs.filter (fires ts cb)).length =
        st.count := by
  induction xs generalizing A st with
  | nil => simp [hst]
  | cons x xs ih =>
    rw [List.foldl_cons]
    cases hf : fires ts cb x with
    | false =>
      obtain ⟨hent, hcount, -⟩ := @scanEntry_keep ts cb st x hf
      obtain ⟨ih₁, ih₂⟩ := ih (A ++ [x]) _ (by rw [hent, hst, List.append_assoc]; rfl)
        (by rw [List.append_assoc]; exact hnd)
      refine ⟨?_, ?_⟩
      · rw [ih₁, List.filter_cons_of_pos (by simp [hf]), List.append_assoc]
        rfl
      · rw [List.filter_cons_of_neg (by simp [hf]), ih₂, hcount]
    | true =>
      -- the visited entry is in the map once, so erasing its sequence drops just it
      rw [List.map_append, List.map_cons, List.nodup_middle, List.nodup_cons,
        List.mem_append, not_or] at hnd
      have hfind : (Assoc.find x.1 st.entries).isSome :=
        Assoc.isSome_find_of_mem x.1 st.entries (b := x.2) (by rw [hst]; simp)
      obtain ⟨hent, hcount⟩ := (@scanEntry_fire ts cb st x hf).2 hfind
      have herase : Assoc.erase x.1 st.entries = A ++ xs := by
        rw [hst]
        exact Assoc.erase_append_cons x.1 x.2 A xs hnd.1.1 hnd.1.2
      obtain ⟨ih₁, ih₂⟩ := ih A _ (by rw [hent, herase]) (by rw [List.map_append]; exact hnd.2)
      refine ⟨?_, ?_⟩
      · rw [ih₁, List.filter_cons_of_neg (by simp [hf])]
      · rw [List.filter_cons_of_pos hf, List.length_cons, UInt64.ofNat_add, ← UInt64.add_assoc,
          ih₂, hcount]
        exact UInt64.sub_add_cancel _ _

theorem scan_slot (s : Slot) (hnd : (s.entries.map Prod.fst).Nodup) (count : UInt64)
    (calls : List (UInt64 × Int64)) :
    let r := s.entries.foldl (scanEntry ts cb) ⟨s.entries, count, Int64.maxValue, calls⟩
    r.entries = s.entries.filter (fun x => !fires ts cb x) ∧
      r.count + UInt64.ofNat (s.entries.filter (fires ts cb)).length = count ∧
      (∀ x ∈ r.entries, r.slotLowest ≤ x.2) ∧
      r.calls = calls ++ s.entries.filter fun x => decide (x.2 ≤ ts) := by
  intro r
  obtain ⟨hent, hcount⟩ :=
    scan_entries ts cb s.entries [] ⟨s.entries, count, Int64.maxValue, calls⟩ rfl hnd
  refine ⟨hent, hcount, fun x hx => ?_, scan_calls ts cb _ _⟩
  rw [hent, List.nil_append, List.mem_filter, Bool.not_eq_true'] at hx
  exact (scan_slotLowest ts cb _ _).2 x hx.1 hx.2

end Scan

section Sweep

variable {ts : Int64} {cb : UInt64 → Int64 → Bool} {st : Sweep} {pos : Fin wheelSize}

theorem sweepSlot_none (h : st.wheel pos = none) : sweepSlot ts cb st pos = st := by
  simp only [sweepSlot, h]

theorem sweepSlot_skip {s : Slot} (h : st.wheel pos = some s) (hl : s.lowest > ts) :
    sweepSlot ts cb st pos = { st with
      globalLowest := if s.lowest < st.globalLowest then s.lowest else st.globalLowest } := by
  simp only [sweepSlot, h, hl, if_true]

theorem sweepSlot_scan {s : Slot} (h : st.wheel pos = some s) (hl : ¬ s.lowest > ts) :
    sweepSlot ts cb st pos =
      let r := s.entries.foldl (scanEntry ts cb) ⟨s.entries, st.count, Int64.maxValue, st.calls⟩
      if r.entries.length = 0 then
        { st with wheel := Function.update st.wheel pos none, count := r.count, calls := r.calls }
      else
        { wheel := Function.update st.wheel pos (some ⟨r.entries, r.slotLowest⟩)
          count := r.count
          globalLowest := if r.slotLowest < st.globalLowest then r.slotLowest else st.globalLowest
          calls := r.calls } := by
  simp only [sweepSlot, h, hl, if_false]

end Sweep

theorem min_le_left' (a b : Int64) : (if a < b then a else b) ≤ a := by
  by_cases h : a < b
  · rw [if_pos h]; exact Int64.le_refl _
  · rw [if_neg h]; exact Int64.not_lt.mp h

theorem min_le_right' (a b : Int64) : (if a < b then a else b) ≤ b := by
  by_cases h : a < b
  · rw [if_pos h]; exact Int64.le_of_lt h
  · rw [if_neg h]; exact Int64.le_refl _

/-- What the loop over the slots of `hw` has done after the positions `done`: those slots are
swept, with their invariant and a global lowest below them, the others are untouched, and the
count and the calls account for the swept slots. -/
structure SweepInv (hw : HashWheel) (ts : Int64) (cb : UInt64 → Int64 → Bool)
    (done : List (Fin wheelSize)) (st : Sweep) : Prop where
  rest : ∀ q, q ∉ done → st.wheel q = hw.wheel q
  entries : ∀ q ∈ done,
    entriesOf (st.wheel q) = (entriesOf (hw.wheel q)).filter fun x => !fires ts cb x
  slot : ∀ q ∈ done, ∀ s, st.wheel q = some s → SlotInv q s ∧ st.globalLowest ≤ s.lowest
  count : st.count + UInt64.ofNat
      ((done.flatMap fun q => entriesOf (hw.wheel q)).filter (fires ts cb)).length = hw.count
  calls : st.calls = (done.flatMap fun q => entriesOf (hw.wheel q)).filter fun x => decide (x.2 ≤ ts)

namespace SweepInv

variable {hw : HashWheel} {ts : Int64} {cb : UInt64 → Int64 → Bool} {done : List (Fin wheelSize)}
  {st : Sweep}

theorem start : SweepInv hw ts cb [] ⟨hw.wheel, hw.count, Int64.maxValue, []⟩ where
  rest _ _ := rfl
  entries _ h := by cases h
  slot _ h := by cases h
  count := by simp
  calls := by simp

theorem extend (hI : SweepInv hw ts cb done st) {q : Fin wheelSize} (hq : q ∉ done) {st' : Sweep}
    (o : Option Slot) (hwheel : st'.wheel = Function.update st.wheel q o)
    (hlow : st'.globalLowest ≤ st.globalLowest)
    (hent : entriesOf o = (entriesOf (hw.wheel q)).filter fun x => !fires ts cb x)
    (hslot : ∀ s, o = some s → SlotInv q s ∧ st'.globalLowest ≤ s.lowest)
    (hcount : st'.count + UInt64.ofNat ((entriesOf (hw.wheel q)).filter (fires ts cb)).length =
      st.count)
    (hcalls : st'.calls = st.calls ++ (entriesOf (hw.wheel q)).filter fun x => decide (x.2 ≤ ts)) :
    SweepInv hw ts cb (done ++ [q]) st' where
  rest r hr := by
    have hrq : r ≠ q := fun h => hr (h ▸ List.mem_append_right _ (List.mem_singleton_self _))
    rw [hwheel, Function.update_of_ne hrq]
    exact hI.rest r fun h => hr (List.mem_append_left _ h)
  entries r hr := by
    rw [hwheel]
    by_cases hrq : r = q
    · subst hrq
      rw [Function.update_self, hent]
    · rw [Function.update_of_ne hrq]
      exact hI.entries r ((List.mem_append.mp hr).resolve_right (by simpa using hrq))
  slot r hr s hs := by
    rw [hwheel] at hs
    by_cases hrq : r = q
    · subst hrq
      rw [Function.update_self] at hs
      exact hslot s hs
    · rw [Function.update_of_ne hrq] at hs
      obtain ⟨hsi, hl⟩ := hI.slot r ((List.mem_append.mp hr).resolve_right (by simpa using hrq)) s hs
      exact ⟨hsi, Int64.le_trans hlow hl⟩
  count := by
    rw [← hI.count, ← hcount, List.flatMap_append, List.flatMap_singleton, List.filter_append,
      List.length_append, UInt64.ofNat_add]
    ac_rfl
  calls := by
    rw [hcalls, hI.calls, List.flatMap_append, List.flatMap_singleton, List.filter_append]

end SweepInv

theorem filter_of_lowest_gt {p : Fin wheelSize} {s : Slot} (hs : SlotInv p s) {ts : Int64}
    (hl : s.lowest > ts) (cb : UInt64 → Int64 → Bool) :
    s.entries.filter (fun x => !fires ts cb x) = s.entries ∧
      s.entries.filter (fires ts cb) = [] ∧ s.entries.filter (fun x => decide (x.2 ≤ ts)) = [] := by
  have hgt : ∀ x ∈ s.entries, ¬ x.2 ≤ ts := fun x hx h =>
    Int64.not_le.mpr hl (Int64.le_trans (hs.lowest x hx) h)
  refine ⟨List.filter_eq_self.mpr fun x hx => ?_, List.filter_eq_nil_iff.mpr fun x hx => ?_,
    List.filter_eq_nil_iff.mpr fun x hx => by simpa using hgt x hx⟩
  · simp [fires, hgt x hx]
  · simp [fires, hgt x hx]

theorem sweepSlot_inv {hw : HashWheel} (h : hw.Inv) {ts : Int64} {cb : UInt64 → Int64 → Bool}
    {done : List (Fin wheelSize)} {st : Sweep} (hI : SweepInv hw ts cb done st)
    {q : Fin wheelSize} (hq : q ∉ done) : SweepInv hw ts cb (done ++ [q]) (sweepSlot ts cb st q) := by
  have hrest := hI.rest q hq
  cases hs : hw.wheel q with
  | none =>
    rw [hs] at hrest
    rw [sweepSlot_none hrest]
    refine hI.extend hq none (by rw [← hrest, Function.update_eq_self]) (Int64.le_refl _)
      (by simp [entriesOf, hs]) (fun _ h => by cases h) (by simp [entriesOf, hs])
      (by simp [entriesOf, hs])
  | some s =>
    rw [hs] at hrest
    have hsi := h.slot q s hs
    have he : entriesOf (hw.wheel q) = s.entries := by rw [hs]; rfl
    by_cases hl : s.lowest > ts
    · -- a slot with nothing expired is only read for its lowest
      obtain ⟨hkeep, hfire, hcall⟩ := filter_of_lowest_gt hsi hl cb
      rw [sweepSlot_skip hrest hl]
      refine hI.extend hq (some s) (by rw [← hrest, Function.update_eq_self])
        (min_le_right' _ _) (by rw [he, hkeep]; rfl) (fun s' h => ?_)
        (by rw [he, hfire]; simp) (by rw [he, hcall, List.append_nil])
      cases h
      exact ⟨hsi, min_le_left' _ _⟩
    · obtain ⟨hent, hcount, hlow, hcalls⟩ := scan_slot ts cb s hsi.nodup st.count st.calls
      rw [sweepSlot_scan hrest hl]
      dsimp only
      set r := s.entries.foldl (scanEntry ts cb) ⟨s.entries, st.count, Int64.maxValue, st.calls⟩
      by_cases h0 : r.entries.length = 0
      · rw [if_pos h0]
        refine hI.extend hq none rfl (Int64.le_refl _) ?_ (fun _ h => by cases h)
          (by rw [he]; exact hcount) (by rw [he]; exact hcalls)
        rw [he, ← hent]
        exact (List.eq_nil_of_length_eq_zero h0).symm
      · rw [if_neg h0]
        refine hI.extend hq (some ⟨r.entries, r.slotLowest⟩) rfl (min_le_right' _ _)
          (by rw [he, ← hent]; rfl) (fun s' h => ?_) (by rw [he]; exact hcount)
          (by rw [he]; exact hcalls)
        cases h
        exact ⟨hsi.sublist (hent ▸ List.filter_sublist) hlow, min_le_left' _ _⟩

theorem sweep_all {hw : HashWheel} (h : hw.Inv) (ts : Int64) (cb : UInt64 → Int64 → Bool) :
    SweepInv hw ts cb (List.finRange wheelSize)
      ((List.finRange wheelSize).foldl (sweepSlot ts cb) ⟨hw.wheel, hw.count, Int64.maxValue, []⟩) := by
  refine foldl_prefix (P := SweepInv hw ts cb) _ _ SweepInv.start fun ys q zs st hxs hI => ?_
  -- the positions are distinct, so `q` is not among those done
  have hnd := List.nodup_finRange wheelSize
  rw [← hxs, List.nodup_middle, List.nodup_cons] at hnd
  exact sweepSlot_inv h hI fun hq => hnd.1 (List.mem_append_left _ hq)

theorem SweepInv.result {hw : HashWheel} (h : hw.Inv) {ts : Int64} {cb : UInt64 → Int64 → Bool}
    {r : Sweep} (hI : SweepInv hw ts cb (List.finRange wheelSize) r) :
    r.calls = (stored hw.wheel).filter (fun x => decide (x.2 ≤ ts)) ∧
      (∀ p, entriesOf (r.wheel p) = (entriesOf (hw.wheel p)).filter fun x => !fires ts cb x) ∧
      HashWheel.Inv ⟨r.wheel, r.globalLowest, r.count⟩ := by
  have hent : ∀ p, entriesOf (r.wheel p) =
      (entriesOf (hw.wheel p)).filter fun x => !fires ts cb x :=
    fun p => hI.entries p (List.mem_finRange p)
  refine ⟨hI.calls, hent, ⟨fun p s hs => (hI.slot p (List.mem_finRange p) s hs).1,
    fun p s hs => (hI.slot p (List.mem_finRange p) s hs).2, ?_⟩⟩
  -- the count lost one for each entry that fired
  have hcount := hI.count
  rw [h.count, ← List.countP_eq_length_filter] at hcount
  change r.count = _
  rw [stored_of_filter _ hent, ← List.countP_eq_length_filter]
  have hsplit := List.length_eq_countP_add_countP (fires ts cb) (l := stored hw.wheel)
  rw [show (List.countP (fun a => decide ¬fires ts cb a = true) (stored hw.wheel)) =
    List.countP (fun x => !fires ts cb x) (stored hw.wheel) by simp] at hsplit
  rw [hsplit, Nat.add_comm, UInt64.ofNat_add] at hcount
  exact (UInt64.add_left_inj _).mp hcount

namespace HashWheel

variable {hw : HashWheel}

theorem expireTasks_spec (h : hw.Inv) (ts : Int64) (cb : UInt64 → Int64 → Bool) :
    (hw.expireTasks ts cb).2 = (stored hw.wheel).filter (fun x => decide (x.2 ≤ ts)) ∧
      (∀ p, entriesOf ((hw.expireTasks ts cb).1.wheel p) =
        (entriesOf (hw.wheel p)).filter fun x => !fires ts cb x) ∧
      (hw.expireTasks ts cb).1.Inv := by
  unfold expireTasks
  split_ifs with hl
  · -- the quick return: the wheel's lowest bounds every entry, so nothing has expired
    have hgt : ∀ x ∈ stored hw.wheel, ¬ x.2 ≤ ts := fun x hx hle =>
      Int64.not_le.mpr hl (Int64.le_trans (h.lowest_le hx) hle)
    refine ⟨(List.filter_eq_nil_iff.mpr fun x hx => by simpa using hgt x hx).symm,
      fun p => (List.filter_eq_self.mpr fun x hx => ?_).symm, h⟩
    have hx' : x ∈ stored hw.wheel := List.mem_flatMap.mpr ⟨p, List.mem_finRange p, hx⟩
    simp [fires, hgt x hx']
  · -- the sweep's state is taken apart by the match, never reduced: the kernel would otherwise
    -- unfold the loop over the 4096 positions
    have hI := sweep_all h ts cb
    split
    rename_i heq
    rw [heq] at hI
    exact hI.result h

theorem Inv.expireTasks (h : hw.Inv) (ts : Int64) (cb : UInt64 → Int64 → Bool) :
    (hw.expireTasks ts cb).1.Inv :=
  (expireTasks_spec h ts cb).2.2

theorem Inv.step (h : hw.Inv) (op : Op) : (Thw.step hw op).Inv := by
  cases op with
  | add seq expires => exact h.Add seq expires
  | remove seq expires =>
    simp only [Thw.step]
    split
    · exact h.Remove ‹_›
    · exact h
  | update seq oldExpires newExpires =>
    simp only [Thw.step]
    split
    · exact h.Update ‹_›
    · exact h
  | expireTasks ts callback => exact h.expireTasks ts callback

theorem GetNextExpiration_lt (h : hw.Inv) {x : UInt64 × Int64} (hx : x ∈ stored hw.wheel)
    {before : Int64} (hb : x.2 < before) : hw.GetNextExpiration before < before := by
  have hlt := Int64.lt_of_le_of_lt (h.lowest_le hx) hb
  rw [GetNextExpiration, if_pos hlt]
  exact hlt

end HashWheel

/-- Along every run of `Add`, `Remove`, `Update` and `expireTasks` from a new wheel, every entry
sits in the slot of its expiration and is stored once, the count is the number of entries, the
lowests bound the entries; so `expireTasks ts cb` calls `cb` on exactly the entries expired by
`ts`, once each, removes those it accepts and keeps the others, and an entry expiring before `b`
makes `GetNextExpiration b` fall before `b`. -/
theorem wheel_run_spec (ops : List Op) :
    let hw := run step NewHashWheel ops
    (∀ p, ∀ x ∈ entriesOf (hw.wheel p), slotOf x.2 = p) ∧
      (stored hw.wheel).Nodup ∧
      hw.Count = UInt64.ofNat (stored hw.wheel).length ∧
      (∀ p s, hw.wheel p = some s → ∀ x ∈ s.entries, s.lowest ≤ x.2) ∧
      (∀ x ∈ stored hw.wheel, hw.lowest ≤ x.2) ∧
      (∀ ts cb, (hw.expireTasks ts cb).2 = (stored hw.wheel).filter (fun x => decide (x.2 ≤ ts)) ∧
        ∀ p, entriesOf ((hw.expireTasks ts cb).1.wheel p) =
          (entriesOf (hw.wheel p)).filter fun x => !fires ts cb x) ∧
      ∀ b, (∃ x ∈ stored hw.wheel, x.2 < b) → hw.GetNextExpiration b < b := by
  intro hw
  have h : hw.Inv := run_invariant _ (fun s op hs => hs.step op) HashWheel.Inv.new ops
  refine ⟨fun p x hx => ?_, h.stored_nodup, h.count, fun p s hs => (h.slot p s hs).lowest,
    fun x hx => h.lowest_le hx, fun ts cb => ⟨(HashWheel.expireTasks_spec h ts cb).1,
      (HashWheel.expireTasks_spec h ts cb).2.1⟩,
    fun b ⟨x, hx, hb⟩ => HashWheel.GetNextExpiration_lt h hx hb⟩
  rw [entriesOf_eq_getD] at hx
  exact (h.slot_getD p).pos x hx

theorem wheel_run_spec_add :
    (∃ x ∈ stored (run step NewHashWheel [.add 7 5000000000]).wheel, x.2 < 6000000000) ∧
      (run step NewHashWheel [.add 7 5000000000]).GetNextExpiration 6000000000 < 6000000000 := by
  have hx : ∃ x ∈ stored (run step NewHashWheel [.add 7 5000000000]).wheel, x.2 < 6000000000 :=
    ⟨(7, 5000000000),
      List.mem_flatMap.mpr ⟨slotOf 5000000000, List.mem_finRange _, by decide +kernel⟩, by decide⟩
  exact ⟨hx, (wheel_run_spec [.add 7 5000000000]).2.2.2.2.2.2 6000000000 hx⟩

end NatsServer.Thw
