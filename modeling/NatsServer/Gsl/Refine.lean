import NatsServer.Gsl.Sublist
import NatsServer.Lib.Run
import NatsServer.Lib.Fiber
import Mathlib.Data.Finset.Card

/-!
# What the generic sublist stores

The abstract state of a `GenericSublist` is the finite set of (filter, value) pairs that
successful Inserts added and successful Removes have not taken out (`absStep`: an Insert
succeeds exactly on a valid filter, `Insert_snd`, and a Remove exactly on a stored pair,
`Remove_ok_iff`). `Stores` relates the trie to that set key path by key path, and every call
keeps it, failed Inserts included, since the nodes they leave behind hold nothing; so `Match`
calls back once for each stored pair whose filter matches (`Match_run`).

`HasInterest` answers true on reaching a `>` node without looking into it, so it is right only
while every such node holds a value (`Tidy`). Valid Inserts and all Removes keep that, but a
failed Insert of `foo.>.bar` leaves an empty `>` node under `foo`. `Count` counts successful
calls, so it is the number of stored pairs only while no Insert adds a pair already stored.
-/

namespace NatsServer.Gsl

open NatsServer.Lib NatsServer.Subject

variable {T : Type} [DecidableEq T]

namespace GenericSublist

def absStep (F : Finset (String × T)) : Op T → Finset (String × T)
  | .insert subject value =>
    if validFilter (tokens subject) = true then insert (subject, value) F else F
  | .remove subject value => F.erase (subject, value)

def pathOf (e : String × T) : List Key := keyPath (tokens e.1)

omit [DecidableEq T] in
theorem fst_eq_of_pathOf_eq {e e' : String × T} (h : pathOf e = pathOf e') : e.1 = e'.1 :=
  tokens_injective (keyPath_injective h)

structure Stores (s : GenericSublist T) (F : Finset (String × T)) : Prop where
  valid : ∀ e ∈ F, validFilter (tokens e.1) = true
  mem_iff : ∀ p v, v ∈ (s.subsAt p).map Prod.fst ↔ ∃ e ∈ F, pathOf e = p ∧ e.2 = v
  nodup : ∀ p, ((s.subsAt p).map Prod.fst).Nodup

omit [DecidableEq T] in
theorem stores_new : Stores (NewSublist : GenericSublist T) ∅ where
  valid := by simp
  mem_iff := by intro p v; simp [subsAt, NewSublist, Trie.payloadAt_leaf]
  nodup := by intro p; simp [subsAt, NewSublist, Trie.payloadAt_leaf]

section Stores

variable {s : GenericSublist T} {F : Finset (String × T)}

omit [DecidableEq T] in
theorem Stores.mem_subsAt (h : Stores s F) {e : String × T} :
    e ∈ F ↔ validFilter (tokens e.1) = true ∧ e.2 ∈ (s.subsAt (pathOf e)).map Prod.fst := by
  constructor
  · intro he
    exact ⟨h.valid e he, (h.mem_iff _ _).mpr ⟨e, he, rfl, rfl⟩⟩
  · rintro ⟨-, hv⟩
    obtain ⟨e', he', hp, h2⟩ := (h.mem_iff _ _).mp hv
    have h1 := fst_eq_of_pathOf_eq hp
    rwa [show e = e' from Prod.ext h1.symm h2.symm]

theorem Remove_ok_iff (h : Stores s F) (subject : String) (value : T) :
    (∃ s', s.Remove subject value = .ok s') ↔ (subject, value) ∈ F := by
  rw [Remove_isOk, h.mem_subsAt, pathOf, Option.isSome_iff_ne_none, Ne,
    Assoc.find_eq_none_iff, not_not]

theorem stores_insert (h : Stores s F) (subject : String) (value : T) :
    Stores (s.Insert subject value).1 (absStep F (.insert subject value)) := by
  by_cases hv : validFilter (tokens subject) = true
  · simp only [absStep, if_pos hv]
    refine ⟨?_, fun p w => ?_, fun p => ?_⟩
    · intro e he
      rcases Finset.mem_insert.mp he with rfl | he
      · exact hv
      · exact h.valid e he
    · rw [subsAt_Insert]
      by_cases hp : p = keyPath (tokens subject)
      · subst hp
        rw [if_pos ⟨hv, rfl⟩, Assoc.mem_keys_set, h.mem_iff]
        simp only [Finset.exists_mem_insert, pathOf, true_and]
        tauto
      · rw [if_neg fun h' => hp h'.2, h.mem_iff]
        simp only [Finset.exists_mem_insert, pathOf]
        constructor
        · exact .inr
        · rintro (⟨hp', -⟩ | he)
          · exact absurd hp'.symm hp
          · exact he
    · rw [subsAt_Insert]
      split_ifs
      · exact Assoc.nodup_keys_set _ _ _ (h.nodup p)
      · exact h.nodup p
  · simp only [absStep, if_neg hv]
    refine ⟨h.valid, fun p w => ?_, fun p => ?_⟩
    · rw [subsAt_Insert, if_neg fun h' => hv h'.1, h.mem_iff]
    · rw [subsAt_Insert, if_neg fun h' => hv h'.1]
      exact h.nodup p

theorem stores_remove (h : Stores s F) {subject : String} {value : T} {s' : GenericSublist T}
    (hr : s.Remove subject value = .ok s') : Stores s' (F.erase (subject, value)) := by
  obtain ⟨-, -, hsubs, -⟩ := Remove_eq_ok s subject value hr
  refine ⟨fun e he => h.valid e (Finset.mem_of_mem_erase he), fun p w => ?_, fun p => ?_⟩
  · rw [hsubs]
    split_ifs with hp
    · subst hp
      rw [Assoc.mem_keys_erase, h.mem_iff]
      constructor
      · rintro ⟨hw, e, he, hpe, rfl⟩
        exact ⟨e, Finset.mem_erase.mpr ⟨fun hev => hw (by rw [hev]), he⟩, hpe, rfl⟩
      · rintro ⟨e, he, hpe, rfl⟩
        obtain ⟨hne, he⟩ := Finset.mem_erase.mp he
        refine ⟨fun hv => hne (Prod.ext (fst_eq_of_pathOf_eq hpe) hv), e, he, hpe, rfl⟩
    · rw [h.mem_iff]
      constructor
      · rintro ⟨e, he, hpe, rfl⟩
        refine ⟨e, Finset.mem_erase.mpr ⟨?_, he⟩, hpe, rfl⟩
        rintro rfl
        exact hp hpe.symm
      · rintro ⟨e, he, hpe, rfl⟩
        exact ⟨e, Finset.mem_of_mem_erase he, hpe, rfl⟩
  · rw [hsubs]
    split_ifs
    · exact Assoc.nodup_keys_erase _ _ (h.nodup p)
    · exact h.nodup p

theorem Stores.not_mem_of_Remove (h : Stores s F) {subject : String} {value : T} {e : SubError}
    (hr : s.Remove subject value = .error e) : (subject, value) ∉ F := by
  intro hin
  obtain ⟨s', hs'⟩ := (Remove_ok_iff h subject value).mpr hin
  rw [hs'] at hr
  cases hr

theorem stores_step (h : Stores s F) (op : Op T) : Stores (step s op) (absStep F op) := by
  cases op with
  | insert subject value => exact stores_insert h subject value
  | remove subject value =>
    simp only [step]
    split
    · rename_i s' hr
      exact stores_remove h hr
    · rename_i e hr
      simpa [absStep, Finset.erase_eq_of_notMem (h.not_mem_of_Remove hr)] using h

omit [DecidableEq T] in
theorem Stores.coe_subsAt (h : Stores s F) (p : List Key) :
    (((s.subsAt p).map Prod.fst : List T) : Multiset T) =
      (F.val.filter (fun e => pathOf e = p)).map Prod.snd := by
  refine (Multiset.Nodup.ext (Multiset.coe_nodup.mpr (h.nodup p)) ?_).mpr fun v => ?_
  · -- pairs with one path have one filter, so their values tell them apart
    refine Multiset.Nodup.map_on ?_ (F.nodup.filter _)
    intro e he e' he' hv
    rw [Multiset.mem_filter] at he he'
    exact Prod.ext (fst_eq_of_pathOf_eq (he.2.trans he'.2.symm)) hv
  · simp only [Multiset.mem_coe, h.mem_iff, Multiset.mem_map, Multiset.mem_filter,
      Finset.mem_val]
    constructor
    · rintro ⟨e, he, hp, hv⟩
      exact ⟨e, ⟨he, hp⟩, hv⟩
    · rintro ⟨e, ⟨he, hp⟩, hv⟩
      exact ⟨e, he, hp, hv⟩

omit [DecidableEq T] in
theorem coe_flatMap_subsAt (h : Stores s F) {ps : List (List Key)} (hps : ps.Nodup) :
    ((ps.flatMap fun p => (s.subsAt p).map Prod.fst : List T) : Multiset T) =
      (F.filter (fun e => pathOf e ∈ ps)).val.map Prod.snd := by
  rw [coe_flatMap, List.map_congr_left (fun p _ => h.coe_subsAt p),
    sum_map_filter_eq F.val pathOf Prod.snd hps, Finset.filter_val]
  congr

omit [DecidableEq T] in
theorem Match_of_stores (h : Stores s F) {subject : String}
    (hs : IsValidLiteralSubject subject = true) :
    (s.Match subject : Multiset T) =
      (F.filter (fun e => subjectMatches e.1 subject = true)).val.map Prod.snd := by
  rw [Match_eq s (subjectTokens_of_literal hs), coe_flatMap_subsAt h (nodup_matchPaths _)]
  congr 2
  exact Finset.filter_congr fun e _ => keyPath_mem_matchPaths hs (tokens_ne_nil subject) _

end Stores

/-! ## The `>` nodes and `HasInterest` -/

structure Tidy (s : GenericSublist T) : Prop where
  fwc_holds : FwcHolds [] hasSubs (⟨[], s.root⟩ : Node (Subs T))
  fwc_last : ∀ q k ks, ¬ s.present (q ++ .fwc :: k :: ks)

omit [DecidableEq T] in
theorem tidy_new : Tidy (NewSublist : GenericSublist T) where
  fwc_holds := fun q hq => by
    obtain ⟨k, ks, hq'⟩ := List.exists_cons_of_ne_nil (show q ++ [Key.fwc] ≠ [] by simp)
    rw [hq'] at hq
    exact absurd hq (Trie.not_present_leaf _ _ _)
  fwc_last := fun q k ks hq => by
    obtain ⟨k', ks', hq'⟩ :=
      List.exists_cons_of_ne_nil (show q ++ Key.fwc :: k :: ks ≠ [] by simp)
    rw [present, hq'] at hq
    exact Trie.not_present_leaf _ _ _ hq

section Tidy

variable {s : GenericSublist T}

omit [DecidableEq T] in
theorem hasSubs_iff {subs : Subs T} : hasSubs subs = true ↔ subs ≠ [] := by
  simp [hasSubs, List.length_pos_iff]

theorem tidy_insert (h : Tidy s) {subject : String} (hv : validFilter (tokens subject) = true)
    (value : T) : Tidy (s.Insert subject value).1 := by
  constructor
  · intro q hq
    change hasSubs ((s.Insert subject value).1.subsAt (q ++ [.fwc])) = true
    rw [subsAt_Insert]
    split_ifs with hp
    · exact hasSubs_iff.mpr (Assoc.set_ne_nil _ _ _)
    · rcases present_Insert s subject value hq with hq | hpre
      · exact h.fwc_holds q hq
      · -- a new `>` node lies on the subject's path, so it is the subject's own node
        exact absurd ⟨hv, (fwc_last_of_validFilter hv hpre).2⟩ hp
  · intro q k ks hq
    rcases present_Insert s subject value hq with hq | hpre
    · exact h.fwc_last q k ks hq
    · exact List.cons_ne_nil _ _ (fwc_last_of_validFilter hv hpre).1

theorem tidy_remove (h : Tidy s) {subject : String} {value : T} {s' : GenericSublist T}
    (hr : s.Remove subject value = .ok s') : Tidy s' := by
  obtain ⟨-, -, hsubs, -, hpres, hpruned⟩ := Remove_eq_ok s subject value hr
  constructor
  · intro q hq
    change hasSubs (s'.subsAt (q ++ [.fwc])) = true
    by_cases hp : q ++ [.fwc] = keyPath (tokens subject)
    · -- the emptied `>` node has nothing below it, so the removal pruned it
      rcases hpruned _ (by simp) (hp ▸ List.prefix_refl _) hq with hne | ⟨k, hk⟩
      · exact hasSubs_iff.mpr hne
      · exact absurd (hpres _ hk) (by simpa using h.fwc_last q k [])
    · rw [hsubs, if_neg hp]
      exact h.fwc_holds q (hpres _ hq)
  · intro q k ks hq
    exact h.fwc_last q k ks (hpres _ hq)

omit [DecidableEq T] in
theorem HasInterest_of_stores {F : Finset (String × T)} (h : Stores s F) (ht : Tidy s)
    {subject : String} (hs : IsValidLiteralSubject subject = true) :
    s.HasInterest subject = true ↔ ∃ e ∈ F, subjectMatches e.1 subject = true := by
  rw [HasInterest_eq s (subjectTokens_of_literal hs) ht.fwc_holds, List.any_eq_true]
  constructor
  · rintro ⟨p, hp, hsubs⟩
    obtain ⟨⟨v, w⟩, l', hvw⟩ := List.exists_cons_of_ne_nil (hasSubs_iff.mp hsubs)
    obtain ⟨e, he, hpe, -⟩ := (h.mem_iff p v).mp (by simp [hvw])
    have hpe' : pathOf e ∈ matchPaths (tokens subject) := hpe ▸ hp
    exact ⟨e, he, (keyPath_mem_matchPaths hs (tokens_ne_nil subject) _).mp hpe'⟩
  · rintro ⟨e, he, hm⟩
    refine ⟨pathOf e, (keyPath_mem_matchPaths hs (tokens_ne_nil subject) _).mpr hm, ?_⟩
    apply hasSubs_iff.mpr
    intro hnil
    have := (h.mem_iff (pathOf e) e.2).mpr ⟨e, he, rfl, rfl⟩
    simp [hnil] at this

def ValidInsert : Op T → Prop
  | .insert subject _ => validFilter (tokens subject) = true
  | .remove _ _ => True

instance (op : Op T) : Decidable (ValidInsert op) := by
  cases op <;> unfold ValidInsert <;> infer_instance

theorem tidy_step (h : Tidy s) {op : Op T} (hop : ValidInsert op) : Tidy (step s op) := by
  cases op with
  | insert subject value => exact tidy_insert h hop value
  | remove subject value =>
    simp only [step]
    split
    · rename_i s' hr
      exact tidy_remove h hr
    · exact h

end Tidy

/-! ## Runs -/

/-- The condition on each call under which the sublist keeps all it should: an Insert is given a
valid filter and a pair that is not stored yet. -/
def Admissible (F : Finset (String × T)) : Op T → Prop
  | .insert subject value => validFilter (tokens subject) = true ∧ (subject, value) ∉ F
  | .remove _ _ => True

instance (F : Finset (String × T)) (op : Op T) : Decidable (Admissible F op) := by
  cases op <;> unfold Admissible <;> infer_instance

omit [DecidableEq T] in
theorem Admissible.validInsert {F : Finset (String × T)} {op : Op T} (h : Admissible F op) :
    ValidInsert op := by
  cases op with
  | insert subject value => exact h.1
  | remove subject value => trivial

theorem count_step {s : GenericSublist T} {F : Finset (String × T)} (h : Stores s F)
    (hc : s.count.toNat = F.card % 2 ^ 32) {op : Op T} (hop : Admissible F op) :
    (step s op).count.toNat = (absStep F op).card % 2 ^ 32 := by
  cases op with
  | insert subject value =>
    simp only [step, absStep, count_Insert, if_pos hop.1, Finset.card_insert_of_notMem hop.2,
      UInt32.toNat_add, UInt32.toNat_one]
    omega
  | remove subject value =>
    simp only [step]
    split
    · rename_i s' hr
      obtain ⟨-, -, -, hcount, -⟩ := Remove_eq_ok s subject value hr
      have hin := (Remove_ok_iff h subject value).mp ⟨s', hr⟩
      have hpos : 0 < F.card := Finset.card_pos.mpr ⟨_, hin⟩
      simp only [absStep, hcount, UInt32.toNat_sub, UInt32.toNat_one,
        Finset.card_erase_of_mem hin]
      omega
    · rename_i e hr
      simpa [absStep, Finset.erase_eq_of_notMem (h.not_mem_of_Remove hr)] using hc

structure Keeps (s : GenericSublist T) (F : Finset (String × T)) : Prop where
  stores : Stores s F
  tidy : Tidy s
  count : s.count.toNat = F.card % 2 ^ 32

theorem keeps_step {s : GenericSublist T} {F : Finset (String × T)} (h : Keeps s F) {op : Op T}
    (hop : Admissible F op) : Keeps (step s op) (absStep F op) :=
  ⟨stores_step h.stores op, tidy_step h.tidy hop.validInsert, count_step h.stores h.count hop⟩

/-- Along every run of Inserts and Removes, with any subjects, failed calls included, `Match`
calls back once for each stored pair whose filter matches a literal subject. -/
theorem Match_run (ops : List (Op T)) {subject : String}
    (hs : IsValidLiteralSubject subject = true) :
    ((run step NewSublist ops).Match subject : Multiset T) =
      ((run absStep ∅ ops).filter (fun e => subjectMatches e.1 subject = true)).val.map
        Prod.snd := by
  have h := @run_simulation _ _ _ step absStep (fun _ => True) Stores
    (fun _ _ op _ hs' => stores_step hs' op) _ _ stores_new ops (fun _ _ => trivial)
  exact Match_of_stores h hs

/-- Along every run whose Inserts are given valid filters, repeated pairs and any Removes
included, `HasInterest` says whether some stored pair's filter matches a literal subject. -/
theorem HasInterest_run (ops : List (Op T)) (hops : ∀ op ∈ ops, ValidInsert op)
    {subject : String} (hs : IsValidLiteralSubject subject = true) :
    (run step NewSublist ops).HasInterest subject = true ↔
      ∃ e ∈ run absStep ∅ ops, subjectMatches e.1 subject = true := by
  have h := @run_simulation _ _ _ step absStep ValidInsert (fun s F => Stores s F ∧ Tidy s)
    (fun _ _ op hop hs' => ⟨stores_step hs'.1 op, tidy_step hs'.2 hop⟩) _ _
    ⟨stores_new, tidy_new⟩ ops hops
  exact HasInterest_of_stores h.1 h.2 hs

theorem HasInterest_run_repeated :
    (∀ op ∈ [Op.insert "foo.*" (1 : Nat), .insert "foo.*" 1, .remove "foo.*" 1], ValidInsert op) ∧
      IsValidLiteralSubject "foo.bar" = true ∧
      ((run step NewSublist [Op.insert "foo.*" (1 : Nat), .insert "foo.*" 1,
          .remove "foo.*" 1]).HasInterest "foo.bar" = true ↔
        ∃ e ∈ run absStep ∅ [Op.insert "foo.*" (1 : Nat), .insert "foo.*" 1, .remove "foo.*" 1],
          subjectMatches e.1 "foo.bar" = true) := by
  have hops : ∀ op ∈ [Op.insert "foo.*" (1 : Nat), .insert "foo.*" 1, .remove "foo.*" 1],
      ValidInsert op := by
    decide
  have hs : IsValidLiteralSubject "foo.bar" = true := by decide
  exact ⟨hops, hs, HasInterest_run _ hops hs⟩

theorem Match_run_failed_insert :
    IsValidLiteralSubject "foo.baz" = true ∧
      ((run step NewSublist [Op.insert "foo.>.bar" (1 : Nat), .insert "foo.*" 2,
          .remove "foo.bar" 2]).Match "foo.baz" : Multiset Nat) =
        ((run absStep ∅ [Op.insert "foo.>.bar" (1 : Nat), .insert "foo.*" 2,
          .remove "foo.bar" 2]).filter (fun e => subjectMatches e.1 "foo.baz" = true)).val.map
          Prod.snd := by
  have hs : IsValidLiteralSubject "foo.baz" = true := by decide
  exact ⟨hs, Match_run _ hs⟩

/-- Along every run in which each Insert is given a valid filter and a pair not yet stored,
`Match` calls back once per stored pair whose filter matches a literal subject, `HasInterest`
says whether there is such a pair, and `Count` is the number of stored pairs modulo `2^32`. -/
theorem run_admissible (ops : List (Op T)) (hops : Guarded absStep Admissible ∅ ops)
    {subject : String} (hs : IsValidLiteralSubject subject = true) :
    ((run step NewSublist ops).Match subject : Multiset T) =
        ((run absStep ∅ ops).filter (fun e => subjectMatches e.1 subject = true)).val.map
          Prod.snd ∧
      ((run step NewSublist ops).HasInterest subject = true ↔
        ∃ e ∈ run absStep ∅ ops, subjectMatches e.1 subject = true) ∧
      (run step NewSublist ops).Count.toNat = (run absStep ∅ ops).card % 2 ^ 32 := by
  have h := @run_simulation_guarded _ _ _ step absStep Admissible Keeps
    (fun _ _ _ hop hk => keeps_step hk hop) _ _ ⟨stores_new, tidy_new, by simp [NewSublist]⟩
    ops hops
  exact ⟨Match_of_stores h.stores hs, HasInterest_of_stores h.stores h.tidy hs, h.count⟩

theorem run_admissible_small :
    Guarded absStep Admissible ∅
        [Op.insert "foo.*" (1 : Nat), .insert "foo.>" 2, .insert "foo.bar" 3, .remove "foo.*" 1] ∧
      IsValidLiteralSubject "foo.bar" = true ∧
      ((run step NewSublist
          [Op.insert "foo.*" (1 : Nat), .insert "foo.>" 2, .insert "foo.bar" 3,
            .remove "foo.*" 1]).Match "foo.bar" : Multiset Nat) =
        ((run absStep ∅ [Op.insert "foo.*" (1 : Nat), .insert "foo.>" 2, .insert "foo.bar" 3,
            .remove "foo.*" 1]).filter (fun e => subjectMatches e.1 "foo.bar" = true)).val.map
          Prod.snd := by
  have hops : Guarded absStep Admissible ∅
      [Op.insert "foo.*" (1 : Nat), .insert "foo.>" 2, .insert "foo.bar" 3, .remove "foo.*" 1] := by
    decide +kernel
  have hs : IsValidLiteralSubject "foo.bar" = true := by decide
  exact ⟨hops, hs, (run_admissible _ hops hs).1⟩

/-- Inserting a pair twice counts it twice; a value under two matching filters is called back
twice; and the failed Insert of `bar.>.x` leaves an empty `>` node under `bar`, which makes
`HasInterest` answer true for `bar.y` although no stored filter matches it. -/
theorem run_counterexample :
    (run step NewSublist [Op.insert "foo" (1 : Nat), .insert "foo" 1, .insert "*" 1,
        .insert "bar.>.x" 2]).Count.toNat = 3 ∧
      (run absStep ∅ [Op.insert "foo" (1 : Nat), .insert "foo" 1, .insert "*" 1,
        .insert "bar.>.x" 2]).card = 2 ∧
      (run step NewSublist [Op.insert "foo" (1 : Nat), .insert "foo" 1, .insert "*" 1,
        .insert "bar.>.x" 2]).Match "foo" = [1, 1] ∧
      (run step NewSublist [Op.insert "foo" (1 : Nat), .insert "foo" 1, .insert "*" 1,
        .insert "bar.>.x" 2]).HasInterest "bar.y" = true ∧
      ¬ ∃ e ∈ run absStep ∅ [Op.insert "foo" (1 : Nat), .insert "foo" 1, .insert "*" 1,
        .insert "bar.>.x" 2], subjectMatches e.1 "bar.y" = true := by
  decide +kernel

/-- With values under `foo.>` and `foo.bar`, `Match` of `foo.bar` calls back twice and
`NumInterest` counts only the `>` node, where the interest walk stops. -/
theorem NumInterest_stops_at_fwc :
    (run step NewSublist [Op.insert "foo.>" (1 : Nat), .insert "foo.bar" 2]).Match "foo.bar" =
        [1, 2] ∧
      (run step NewSublist [Op.insert "foo.>" (1 : Nat), .insert "foo.bar" 2]).NumInterest
        "foo.bar" = 1 := by
  decide +kernel

/-- The refused Insert of `bar.>.x` leaves the nodes of `bar` and `bar.>`; after the Insert of
`foo` the only stored filter is `foo`, but the root has two literal nodes and
`MatchesSingleFilter` answers that there is no single filter. -/
theorem MatchesSingleFilter_failed_insert :
    (run step NewSublist [Op.insert "bar.>.x" (1 : Nat), .insert "foo" 2]).MatchesSingleFilter =
        ("", false) ∧
      run absStep ∅ [Op.insert "bar.>.x" (1 : Nat), .insert "foo" 2] = {("foo", 2)} := by
  decide +kernel

end GenericSublist

end NatsServer.Gsl
