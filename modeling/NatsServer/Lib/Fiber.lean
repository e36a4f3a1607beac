import Mathlib.Data.Multiset.Filter
import Mathlib.Algebra.BigOperators.Group.Multiset.Basic

/-!
# Splitting a multiset along a map

The elements of `S` whose image under `g` lies in a list `ps` of distinct points are the sum of
the fibres over those points (`sum_map_filter_eq`). A walk that visits a list of keys once each
and collects what it finds at every key (`coe_flatMap`) is compared with a filter of the whole
set this way.
-/

namespace NatsServer.Lib

variable {α β γ : Type} [DecidableEq β]

theorem sum_map_filter_eq (S : Multiset α) (g : α → β) (h : α → γ) {ps : List β}
    (hps : ps.Nodup) :
    (ps.map fun p => (S.filter (g · = p)).map h).sum = (S.filter (g · ∈ ps)).map h := by
  induction ps with
  | nil => simp
  | cons p ps ih =>
    obtain ⟨hp, hps'⟩ := List.nodup_cons.mp hps
    have hdisj : S.filter (fun a => g a = p ∧ g a ∈ ps) = 0 :=
      Multiset.filter_eq_nil.mpr fun a _ ha => hp (ha.1 ▸ ha.2)
    rw [List.map_cons, List.sum_cons, ih hps', ← Multiset.map_add,
      Multiset.filter_add_filter, hdisj, add_zero]
    simp [List.mem_cons]

omit [DecidableEq β] in
theorem coe_flatMap (ps : List β) (g : β → List γ) :
    ((ps.flatMap g : List γ) : Multiset γ) = (ps.map fun p => (g p : Multiset γ)).sum := by
  induction ps with
  | nil => simp
  | cons p ps ih => rw [List.flatMap_cons, ← Multiset.coe_add, ih, List.map_cons, List.sum_cons]

end NatsServer.Lib
