import NatsServer.Stree.Tree
import NatsServer.Lib.Run

/-!
# The subject tree is a finite map

Every run of Insert, Delete and Empty on non-empty subjects without `noPivot` keeps the tree `WF`
and its `entries` a permutation of the entries of the finite map the same run builds; Find,
the values Insert and Delete return and Size are then those of the map
(`Insert_Find_Delete_refine`).

The proof follows the recursion of `insert` and `delete`: a lemma for each way a node can be
rewritten (a leaf replaced or split, a child rewritten below, a leaf added, a prefix split, a
leaf child deleted and the node shrunk), each saying what the new node stores (`InsertSpec`,
`DeleteSpec`), and an induction over the node that picks the case.
-/

namespace NatsServer.Stree

open NatsServer.Lib Node SubjectTree

variable {α : Type}

/-! ## Common prefixes and pivots -/

theorem pivot_zero (l : List UInt8) : pivot l 0 = l.head?.getD noPivot := by
  cases l <;> rfl

theorem commonPrefixLen_le_right (a b : List UInt8) : commonPrefixLen a b ≤ b.length := by
  induction a generalizing b with
  | nil => simp [commonPrefixLen]
  | cons x a ih =>
    cases b with
    | nil => simp [commonPrefixLen]
    | cons y b =>
      simp only [commonPrefixLen, List.length_cons]
      split
      · exact Nat.succ_le_succ (ih b)
      · exact Nat.zero_le _

theorem take_commonPrefixLen (a b : List UInt8) :
    a.take (commonPrefixLen a b) = b.take (commonPrefixLen a b) := by
  induction a generalizing b with
  | nil => simp [commonPrefixLen]
  | cons x a ih =>
    cases b with
    | nil => simp [commonPrefixLen]
    | cons y b =>
      simp only [commonPrefixLen]
      split
      · simp [*]
      · simp

theorem le_commonPrefixLen_iff {a b : List UInt8} :
    a.length ≤ commonPrefixLen a b ↔ a <+: b := by
  induction a generalizing b with
  | nil => simp
  | cons x a ih =>
    cases b with
    | nil => simp [commonPrefixLen]
    | cons y b =>
      simp only [commonPrefixLen, List.length_cons, List.cons_prefix_cons]
      split
      · simp [*]
      · simp [*]

theorem head?_drop_commonPrefixLen (a b : List UInt8)
    (h : (a.drop (commonPrefixLen a b)).head? = (b.drop (commonPrefixLen a b)).head?) :
    a.drop (commonPrefixLen a b) = [] ∧ b.drop (commonPrefixLen a b) = [] := by
  induction a generalizing b with
  | nil => simpa [commonPrefixLen] using h.symm
  | cons x a ih =>
    cases b with
    | nil => simp [commonPrefixLen] at h
    | cons y b =>
      simp only [commonPrefixLen] at h ⊢
      split at h
      · rw [if_pos ‹_›]
        exact ih b h
      · simp only [List.drop_zero, List.head?_cons, Option.some.injEq] at h
        contradiction

theorem pivot_drop_commonPrefixLen_ne {a b : List UInt8} (ha : noPivot ∉ a) (hb : noPivot ∉ b)
    (h : a.drop (commonPrefixLen a b) ≠ [] ∨ b.drop (commonPrefixLen a b) ≠ []) :
    pivot (a.drop (commonPrefixLen a b)) 0 ≠ pivot (b.drop (commonPrefixLen a b)) 0 := by
  intro hp
  rw [pivot_zero, pivot_zero] at hp
  have hsub : ∀ {l : List UInt8} {y : UInt8} {t : List UInt8} {n : Nat}, l.drop n = y :: t →
      y ∈ l := fun hl => List.mem_of_mem_drop (hl ▸ List.mem_cons_self ..)
  -- an ended slice reads `noPivot`, which the other one does not hold
  have hhead : (a.drop (commonPrefixLen a b)).head? = (b.drop (commonPrefixLen a b)).head? := by
    cases hA : a.drop (commonPrefixLen a b) with
    | nil =>
      cases hB : b.drop (commonPrefixLen a b) with
      | nil => rfl
      | cons y t =>
        rw [hA, hB] at hp
        have hy : noPivot = y := hp
        exact absurd (hy ▸ hsub hB) hb
    | cons x t =>
      cases hB : b.drop (commonPrefixLen a b) with
      | nil =>
        rw [hA, hB] at hp
        have hx : x = noPivot := hp
        exact absurd (hx ▸ hsub hA) ha
      | cons y t' =>
        rw [hA, hB] at hp
        simpa using hp
  obtain ⟨hA, hB⟩ := head?_drop_commonPrefixLen a b hhead
  rcases h with h | h <;> contradiction

theorem commonPrefixLen_pos {a b : List UInt8} (ha : a ≠ []) (hna : noPivot ∉ a)
    (h : pivot a 0 = pivot b 0) : 0 < commonPrefixLen a b := by
  obtain ⟨x, a, rfl⟩ := List.exists_cons_of_ne_nil ha
  cases b with
  | nil =>
    have hx : x = noPivot := h
    exact absurd (hx ▸ List.mem_cons_self ..) hna
  | cons y b =>
    have hxy : x = y := h
    simp [commonPrefixLen, hxy]

theorem pivot_take {l : List UInt8} {n : Nat} (hn : 0 < n) : pivot (l.take n) 0 = pivot l 0 := by
  obtain ⟨n, rfl⟩ := Nat.exists_eq_add_one_of_ne_zero (Nat.pos_iff_ne_zero.mp hn)
  cases l <;> rfl

/-! ## The walk to a child -/

section Walk

variable {p : UInt8} {m : Node α} {A B cs : List (UInt8 × Node α)}

theorem findIn_of_not_mem (h : p ∉ cs.map Prod.fst) (r : List UInt8) : findIn p cs r = none := by
  induction cs with
  | nil => rfl
  | cons e cs ih =>
    obtain ⟨c, n⟩ := e
    simp only [List.map_cons, List.mem_cons, not_or] at h
    simp [findIn, Ne.symm h.1, ih h.2]

theorem findIn_of_split (hA : p ∉ A.map Prod.fst) (r : List UInt8) :
    findIn p (A ++ (p, m) :: B) r = findNode m r := by
  induction A with
  | nil => simp [findIn]
  | cons e A ih =>
    obtain ⟨c, n⟩ := e
    simp only [List.map_cons, List.mem_cons, not_or] at hA
    simp [findIn, Ne.symm hA.1, ih hA.2]

theorem insertChild_of_not_mem (value : α) (h : p ∉ cs.map Prod.fst) (r : List UInt8) :
    insertChild value p cs r = none := by
  induction cs with
  | nil => rfl
  | cons e cs ih =>
    obtain ⟨c, n⟩ := e
    simp only [List.map_cons, List.mem_cons, not_or] at h
    simp [insertChild, Ne.symm h.1, ih h.2]

theorem insertChild_of_split (value : α) (hA : p ∉ A.map Prod.fst) (r : List UInt8) :
    insertChild value p (A ++ (p, m) :: B) r =
      some (A ++ (p, (insertNode value m r).1) :: B,
        (insertNode value m r).2) := by
  induction A with
  | nil => simp [insertChild]
  | cons e A ih =>
    obtain ⟨c, n⟩ := e
    simp only [List.map_cons, List.mem_cons, not_or] at hA
    simp [insertChild, Ne.symm hA.1, ih hA.2]

theorem deleteWalk_of_split (hA : p ∉ A.map Prod.fst) (r : List UInt8) :
    deleteWalk p (A ++ (p, m) :: B) r =
      (deleteInner m r).map fun x => (A ++ (p, x.1) :: B, x.2) := by
  induction A with
  | nil => simp [deleteWalk]
  | cons e A ih =>
    obtain ⟨c, n⟩ := e
    simp only [List.map_cons, List.mem_cons, not_or] at hA
    simp only [List.cons_append, deleteWalk, if_neg (Ne.symm hA.1), ih hA.2,
      Option.map_map]
    rfl

theorem split_of_findChild (h : findChild p cs = some m) :
    ∃ A B, cs = A ++ (p, m) :: B ∧ p ∉ A.map Prod.fst :=
  (Assoc.find_eq_some_iff p cs).mp h

theorem not_mem_keys_entriesOf (hplaced : ∀ e ∈ cs, Placed e.1 e.2) {r : List UInt8}
    (hr : pivot r 0 ∉ cs.map Prod.fst) : r ∉ (entriesOf cs).map Prod.fst := by
  intro hmem
  obtain ⟨x, hx, rfl⟩ := List.mem_map.mp hmem
  obtain ⟨ch, hch, hxe⟩ := mem_entriesOf.mp hx
  exact hr (List.mem_map.mpr ⟨ch, hch, ((hplaced ch hch).pivot_of_mem hxe).symm⟩)

end Walk

/-! ## Find -/

section Find

variable {p : UInt8} {m : Node α} {A B cs : List (UInt8 × Node α)}

theorem find_entriesOf_split (hkeys : (cs.map Prod.fst).Nodup)
    (hplaced : ∀ e ∈ cs, Placed e.1 e.2) (hcs : cs = A ++ (p, m) :: B) {r : List UInt8}
    (hr : pivot r 0 = p) : Assoc.find r (entriesOf cs) = Assoc.find r (entries m) := by
  subst hcs
  simp only [List.map_append, List.map_cons, List.nodup_append, List.nodup_cons] at hkeys
  have hA : r ∉ (entriesOf A).map Prod.fst :=
    not_mem_keys_entriesOf (fun e he => hplaced e (by simp [he]))
      (hr ▸ fun h => hkeys.2.2 _ h _ (List.mem_cons_self ..) rfl)
  have hB : r ∉ (entriesOf B).map Prod.fst :=
    not_mem_keys_entriesOf (fun e he => hplaced e (by simp [he])) (hr ▸ hkeys.2.1.1)
  simp [Assoc.find_append, (Assoc.find_eq_none_iff r _).mpr hA,
    (Assoc.find_eq_none_iff r _).mpr hB]

theorem find_entries_node_eq_none {k : Kind} {pre r : List UInt8} (h : ¬pre <+: r) :
    Assoc.find r (entries (node k pre cs)) = none := by
  rw [entries_node]
  exact Assoc.find_mapKey_of_not_mem _ fun x hx => h ⟨x, hx⟩

theorem find_entries_node_append {k : Kind} (pre r : List UInt8) :
    Assoc.find (pre ++ r) (entries (node k pre cs)) = Assoc.find r (entriesOf cs) := by
  rw [entries_node]
  exact Assoc.find_mapKey _ _ (List.append_right_injective pre)

theorem eq_append_drop_of_take {pre r : List UInt8} (h : r.take pre.length = pre) :
    r = pre ++ r.drop pre.length := by
  conv_lhs => rw [← List.take_append_drop pre.length r, h]

theorem findNode_eq {n : Node α} (hw : WF n) (r : List UInt8) :
    findNode n r = Assoc.find r (entries n) := by
  induction hw generalizing r with
  | @leaf suffix value _ =>
    by_cases h : suffix = r <;> simp [findNode, Assoc.find, h]
  | @node k pre cs _ hkeys hplaced _ ih =>
    rw [findNode]
    split
    · rename_i htake
      have hr : r = pre ++ r.drop pre.length := eq_append_drop_of_take htake
      set r' := r.drop pre.length
      rw [hr, find_entries_node_append]
      cases hc : findChild (pivot r' 0) cs with
      | none =>
        have hnot : pivot r' 0 ∉ cs.map Prod.fst := (Assoc.find_eq_none_iff _ _).mp hc
        rw [findIn_of_not_mem hnot, (Assoc.find_eq_none_iff _ _).mpr
          (not_mem_keys_entriesOf hplaced hnot)]
      | some m =>
        obtain ⟨A, B, hcs, hA⟩ := split_of_findChild hc
        rw [hcs, findIn_of_split hA, ← hcs, find_entriesOf_split hkeys hplaced hcs rfl]
        exact ih (pivot r' 0, m) (by rw [hcs]; simp) r'
    · rename_i htake
      exact (find_entries_node_eq_none fun h =>
        htake (List.prefix_iff_eq_take.mp h).symm).symm

end Find

/-! ## Insert -/

/-- What an insert of `value` at `rest` below `n` gives: a well-formed node storing what `n`
stored with `rest` set to `value`, the old value at `rest`, and a node that stays placed under
the pivot of `rest`. -/
structure InsertSpec (value : α) (n : Node α) (rest : List UInt8) (r : Node α × Option α) :
    Prop where
  wf : WF r.1
  old : r.2 = Assoc.find rest (entries n)
  perm : (entries r.1).Perm (Assoc.set rest value (entries n))
  placed : ∀ c, Placed c n → pivot rest 0 = c → Placed c r.1

section Insert

variable (value : α) {k : Kind} {pre : List UInt8} {cs : List (UInt8 × Node α)}

theorem insertLeaf_spec {suffix rest : List UInt8} {old : α} (hs : noPivot ∉ suffix)
    (hr : noPivot ∉ rest) (fuel : Nat) :
    InsertSpec value (leaf suffix old) rest (insertLeaf value fuel suffix old rest) := by
  rw [insertLeaf]
  by_cases h : suffix = rest
  · subst h
    rw [if_pos rfl]
    exact ⟨.leaf hr, by simp [Assoc.find], by simp [Assoc.set], fun _ hc _ => hc⟩
  rw [if_neg h]
  set cpi := commonPrefixLen suffix rest
  have htake : rest.take cpi = suffix.take cpi := (take_commonPrefixLen suffix rest).symm
  -- the two rests cannot both be empty, so their pivots differ
  have hne : suffix.drop cpi ≠ [] ∨ rest.drop cpi ≠ [] := by
    by_contra hboth
    push Not at hboth
    exact h (by rw [← List.take_append_drop cpi suffix, ← List.take_append_drop cpi rest,
      hboth.1, hboth.2, htake])
  have hpiv := pivot_drop_commonPrefixLen_ne hs hr hne
  rw [if_neg fun hc => hpiv hc.2.2]
  refine ⟨?_, ?_, ?_, ?_⟩
  · refine .node (fun hm => hr (List.mem_of_mem_take hm))
      (by simpa [addChild] using Ne.symm hpiv) ?_ ?_
    · simp [Placed]
    · simp only [addChild_node4, List.nil_append, List.cons_append, List.mem_cons,
        List.not_mem_nil, or_false]
      rintro e (rfl | rfl)
      · exact .leaf fun hm => hr (List.mem_of_mem_drop hm)
      · exact .leaf fun hm => hs (List.mem_of_mem_drop hm)
  · simp [Assoc.find, h]
  · rw [Assoc.set_of_not_mem _ _ _ (by simpa using Ne.symm h)]
    simp only [entries_node, addChild_node4, List.nil_append, entriesOf_cons, entries_leaf,
      entriesOf_nil, List.cons_append, Assoc.mapKey, List.map_cons, List.map_nil,
      List.take_append_drop]
    rw [htake, List.take_append_drop]
    exact List.Perm.swap _ _ _
  · intro c hc hrc
    have hsuffix : suffix ≠ [] := by
      rintro rfl
      have hrnil : rest = [] := by
        cases rest with
        | nil => rfl
        | cons y t =>
          have hy : noPivot = y := hc.trans hrc.symm
          exact absurd (hy ▸ List.mem_cons_self ..) hr
      exact h hrnil.symm
    have hpos : 0 < cpi := commonPrefixLen_pos hsuffix hs (hc.trans hrc.symm)
    have hrest : rest ≠ [] :=
      List.ne_nil_of_length_pos (lt_of_lt_of_le hpos (commonPrefixLen_le_right suffix rest))
    refine ⟨?_, ?_⟩
    · simpa [List.take_eq_nil_iff, hrest] using Nat.pos_iff_ne_zero.mp hpos
    · rw [pivot_take hpos, hrc]

theorem InsertSpec.child (hw : WF (node k pre cs)) {A B : List (UInt8 × Node α)} {p : UInt8}
    {m : Node α} (hcs : cs = A ++ (p, m) :: B) {rest rest' : List UInt8}
    (hrest : rest = pre ++ rest') (hp : pivot rest' 0 = p) {r : Node α × Option α}
    (hm : InsertSpec value m rest' r) :
    InsertSpec value (node k pre cs) rest (node k pre (A ++ (p, r.1) :: B), r.2) := by
  subst hrest hcs
  cases hw with
  | node hpre hkeys hplaced hwf =>
  have hkeys' := hkeys
  simp only [List.map_append, List.map_cons, List.nodup_append, List.nodup_cons] at hkeys'
  have hA : rest' ∉ (entriesOf A).map Prod.fst :=
    not_mem_keys_entriesOf (fun e he => hplaced e (by simp [he]))
      (hp ▸ fun h => hkeys'.2.2 _ h _ (List.mem_cons_self ..) rfl)
  have hB : rest' ∉ (entriesOf B).map Prod.fst :=
    not_mem_keys_entriesOf (fun e he => hplaced e (by simp [he])) (hp ▸ hkeys'.2.1.1)
  refine ⟨?_, ?_, ?_, fun c hc _ => hc⟩
  · refine .node hpre (by simpa using hkeys) ?_ ?_
    · intro e he
      simp only [List.mem_append, List.mem_cons] at he
      rcases he with he | rfl | he
      · exact hplaced e (by simp [he])
      · exact hm.placed p (hplaced (p, m) (by simp)) hp
      · exact hplaced e (by simp [he])
    · intro e he
      simp only [List.mem_append, List.mem_cons] at he
      rcases he with he | rfl | he
      · exact hwf e (by simp [he])
      · exact hm.wf
      · exact hwf e (by simp [he])
  · rw [hm.old, find_entries_node_append, find_entriesOf_split hkeys hplaced rfl hp]
  · rw [entries_node, entries_node, Assoc.set_mapKey _ _ _ (List.append_right_injective pre),
      entriesOf_append, entriesOf_append, entriesOf_cons, entriesOf_cons,
      Assoc.set_append_of_not_mem _ _ _ _ hA]
    refine List.Perm.map _ (List.Perm.append_left _ ?_)
    exact (hm.perm.append_right _).trans (Assoc.set_append_perm _ _ _ _ hB).symm

theorem InsertSpec.newLeaf (hw : WF (node k pre cs)) {rest rest' : List UInt8}
    (hrest : rest = pre ++ rest') (hr : noPivot ∉ rest')
    (hnot : pivot rest' 0 ∉ cs.map Prod.fst)
    {g : Kind × List (UInt8 × Node α)} (hg : g.2.Perm cs) :
    InsertSpec value (node k pre cs) rest
      (node g.1 pre (addChild g.1 (pivot rest' 0) (leaf rest' value) g.2), none) := by
  subst hrest
  cases hw with
  | node hpre hkeys hplaced hwf =>
  have hnot' : pivot rest' 0 ∉ g.2.map Prod.fst := fun h => hnot ((hg.map Prod.fst).subset h)
  have hperm : (addChild g.1 (pivot rest' 0) (leaf rest' value) g.2).Perm
      (cs ++ [(pivot rest' 0, leaf rest' value)]) :=
    (addChild_perm g.1 hnot').trans (hg.append_right _)
  have hkeyr : rest' ∉ (entriesOf cs).map Prod.fst := not_mem_keys_entriesOf hplaced hnot
  refine ⟨?_, ?_, ?_, fun c hc _ => hc⟩
  · refine .node hpre (nodup_keys_of_perm hperm.symm (by simpa using hkeys.concat hnot)) ?_ ?_
    · intro e he
      rcases List.mem_append.mp (hperm.subset he) with he | he
      · exact hplaced e he
      · rw [List.mem_singleton.mp he]
        rfl
    · intro e he
      rcases List.mem_append.mp (hperm.subset he) with he | he
      · exact hwf e he
      · rw [List.mem_singleton.mp he]
        exact .leaf hr
  · rw [find_entries_node_append, (Assoc.find_eq_none_iff _ _).mpr hkeyr]
  · rw [entries_node, entries_node, Assoc.set_mapKey _ _ _ (List.append_right_injective pre),
      Assoc.set_of_not_mem _ _ _ hkeyr]
    refine List.Perm.map _ ?_
    simpa using entriesOf_perm hperm

theorem InsertSpec.split (hw : WF (node k pre cs)) {rest : List UInt8} (hr : noPivot ∉ rest)
    (hcpi : commonPrefixLen pre rest < pre.length) :
    InsertSpec value (node k pre cs) rest
      (node .node4 (rest.take (commonPrefixLen pre rest))
        (addChild .node4 (pivot (rest.drop (commonPrefixLen pre rest)) 0)
          (leaf (rest.drop (commonPrefixLen pre rest)) value)
          (addChild .node4 (pivot (node k (pre.drop (commonPrefixLen pre rest)) cs).path 0)
            (node k (pre.drop (commonPrefixLen pre rest)) cs) [])), none) := by
  cases hw with
  | node hpre hkeys hplaced hwf =>
  set cpi := commonPrefixLen pre rest
  have hdrop : pre.drop cpi ≠ [] := by simp [List.drop_eq_nil_iff]; omega
  have hpiv := pivot_drop_commonPrefixLen_ne hpre hr (.inl hdrop)
  have hnotpre : ¬pre <+: rest := fun h => by
    have := le_commonPrefixLen_iff.mpr h
    omega
  have hkey : rest ∉ (entries (node k pre cs)).map Prod.fst :=
    (Assoc.find_eq_none_iff _ _).mp (find_entries_node_eq_none hnotpre)
  refine ⟨?_, ?_, ?_, ?_⟩
  · refine .node (fun hm => hr (List.mem_of_mem_take hm)) (by simpa using hpiv) ?_ ?_
    · simp only [addChild_node4, List.nil_append, List.cons_append, List.mem_cons,
        List.not_mem_nil, or_false]
      rintro e (rfl | rfl)
      · exact ⟨hdrop, rfl⟩
      · rfl
    · simp only [addChild_node4, List.nil_append, List.cons_append, List.mem_cons,
        List.not_mem_nil, or_false]
      rintro e (rfl | rfl)
      · exact .node (fun hm => hpre (List.mem_of_mem_drop hm)) hkeys hplaced hwf
      · exact .leaf fun hm => hr (List.mem_of_mem_drop hm)
  · exact (find_entries_node_eq_none hnotpre).symm
  · rw [Assoc.set_of_not_mem _ _ _ hkey]
    have htake : rest.take cpi ++ pre.drop cpi = pre := by
      rw [← take_commonPrefixLen pre rest, List.take_append_drop]
    simp only [entries_node, addChild_node4, List.nil_append, List.cons_append, entriesOf_cons,
      entries_leaf, entriesOf_nil, List.append_nil, Assoc.mapKey, List.map_append, List.map_map,
      List.map_cons, List.map_nil, Function.comp_def, ← List.append_assoc, htake,
      List.take_append_drop]
    exact List.Perm.refl _
  · rintro c ⟨hne, hc⟩ hrc
    have hpos : 0 < cpi := commonPrefixLen_pos hne hpre (hc.trans hrc.symm)
    have hrest : rest ≠ [] :=
      List.ne_nil_of_length_pos (lt_of_lt_of_le hpos (commonPrefixLen_le_right pre rest))
    refine ⟨?_, ?_⟩
    · simpa [List.take_eq_nil_iff, hrest] using Nat.pos_iff_ne_zero.mp hpos
    · rw [pivot_take hpos, hrc]

theorem insertNode_spec {n : Node α} (hw : WF n) {rest : List UInt8} (hr : noPivot ∉ rest) :
    InsertSpec value n rest (insertNode value n rest) := by
  induction hw generalizing rest with
  | @leaf suffix old hs => exact insertLeaf_spec value hs hr _
  | @node k pre cs hpre hkeys hplaced hwf ih =>
    have hw : WF (node k pre cs) := .node hpre hkeys hplaced hwf
    rw [insertNode]
    dsimp only
    split
    · rename_i hle
      set rest' := rest.drop pre.length
      have hrest : rest = pre ++ rest' :=
        (List.prefix_iff_eq_append.mp (le_commonPrefixLen_iff.mp hle)).symm
      have hr' : noPivot ∉ rest' := fun h => hr (List.mem_of_mem_drop h)
      cases hc : findChild (pivot rest' 0) cs with
      | none =>
        have hnot := (Assoc.find_eq_none_iff _ _).mp hc
        rw [insertChild_of_not_mem value hnot]
        refine InsertSpec.newLeaf value hw hrest hr' hnot ?_
        split
        · exact grow_perm k hkeys
        · exact .refl _
      | some m =>
        obtain ⟨A, B, hcs, hA⟩ := split_of_findChild hc
        have hins := insertChild_of_split (m := m) (B := B) value hA rest'
        rw [← hcs] at hins
        rw [hins]
        exact InsertSpec.child value hw hcs hrest rfl
          (ih (pivot rest' 0, m) (by rw [hcs]; simp) hr')
    · exact InsertSpec.split value hw hr (by omega)

end Insert

/-! ## Delete -/

section Delete

variable {k : Kind} {pre : List UInt8} {cs : List (UInt8 × Node α)}

theorem entries_prependPre (pre : List UInt8) (n : Node α) :
    entries (prependPre pre n) = Assoc.mapKey (pre ++ ·) (entries n) := by
  cases n with
  | leaf suffix value => rfl
  | node k p cs =>
    simp only [prependPre]
    split
    · simp [Assoc.mapKey, Function.comp_def]
    · obtain rfl : pre = [] := List.eq_nil_of_length_eq_zero (by omega)
      simp [Assoc.mapKey]

theorem WF.prependPre (hpre : noPivot ∉ pre) {n : Node α} (hw : WF n) : WF (prependPre pre n) := by
  cases hw with
  | leaf h => exact .leaf (by simp [hpre, h])
  | node hp hkeys hplaced hwf =>
    simp only [SubjectTree.prependPre]
    split
    · exact .node (by simp [hpre, hp]) hkeys hplaced hwf
    · exact .node hp hkeys hplaced hwf

theorem Placed.prependPre {c : UInt8} (hne : pre ≠ []) (hc : pivot pre 0 = c) (n : Node α) :
    Placed c (prependPre pre n) := by
  cases n with
  | leaf suffix value =>
    show pivot (pre ++ suffix) 0 = c
    rw [pivot_append_of_ne_nil _ hne, hc]
  | node k p cs =>
    simp only [SubjectTree.prependPre, if_pos (List.length_pos_of_ne_nil hne)]
    exact ⟨by simp [hne], by rw [pivot_append_of_ne_nil _ hne, hc]⟩

/-- What a delete of `rest` below `n` gives: nothing when `n` does not store `rest`; otherwise
the value, and a well-formed node storing what `n` stored but `rest`, placed where `n` was. -/
def DeleteSpec (n : Node α) (rest : List UInt8) : Option (Node α × α) → Prop
  | none => Assoc.find rest (entries n) = none
  | some (n', v) => WF n' ∧ Assoc.find rest (entries n) = some v ∧
      (entries n').Perm (Assoc.erase rest (entries n)) ∧ ∀ c, Placed c n → Placed c n'

theorem DeleteSpec.leafChild (hw : WF (node k pre cs)) {A B : List (UInt8 × Node α)} {p : UInt8}
    {value : α} {rest rest' : List UInt8} (hcs : cs = A ++ (p, leaf rest' value) :: B)
    (hrest : rest = pre ++ rest') (hp : pivot rest' 0 = p) {n' : Node α} (hw' : WF n')
    (hperm : (entries n').Perm (entries (node k pre (deleteChild k p cs))))
    (hplaced' : ∀ c, Placed c (node k pre cs) → Placed c n') :
    DeleteSpec (node k pre cs) rest (some (n', value)) := by
  subst hrest
  have hw₀ := hw
  cases hw with
  | node _ hkeys hplaced _ =>
  have hkeys' := hkeys
  rw [hcs] at hkeys'
  simp only [List.map_append, List.map_cons, List.nodup_append, List.nodup_cons] at hkeys'
  have hA : p ∉ A.map Prod.fst := fun h => hkeys'.2.2 _ h _ (List.mem_cons_self ..) rfl
  have hplacedA : ∀ e ∈ A, Placed e.1 e.2 := fun e he => hplaced e (by simp [hcs, he])
  have hplacedB : ∀ e ∈ B, Placed e.1 e.2 := fun e he => hplaced e (by simp [hcs, he])
  refine ⟨hw', ?_, ?_, hplaced'⟩
  · rw [find_entries_node_append, find_entriesOf_split hkeys hplaced hcs hp]
    simp [Assoc.find]
  · refine hperm.trans ?_
    rw [entries_node, entries_node, Assoc.erase_mapKey _ _ (List.append_right_injective pre)]
    refine List.Perm.map _ ((entriesOf_perm (deleteChild_perm k hkeys)).trans ?_)
    rw [hcs, Assoc.erase_append_cons p _ A B hA hkeys'.2.1.1, entriesOf_append, entriesOf_append,
      entriesOf_cons, entries_leaf, Assoc.erase_append, Assoc.erase_append,
      Assoc.erase_of_not_mem _ _ (not_mem_keys_entriesOf hplacedA (hp ▸ hA)),
      Assoc.erase_of_not_mem _ _ (not_mem_keys_entriesOf hplacedB (hp ▸ hkeys'.2.1.1))]
    simp [Assoc.erase]

theorem DeleteSpec.child (hw : WF (node k pre cs)) {A B : List (UInt8 × Node α)} {p : UInt8}
    {m : Node α} (hcs : cs = A ++ (p, m) :: B) {rest rest' : List UInt8}
    (hrest : rest = pre ++ rest') (hp : pivot rest' 0 = p) {r : Option (Node α × α)}
    (hm : DeleteSpec m rest' r) :
    DeleteSpec (node k pre cs) rest (r.map fun x => (node k pre (A ++ (p, x.1) :: B), x.2)) := by
  subst hrest
  have hfind := find_entriesOf_split (r := rest') (by cases hw; assumption)
    (by cases hw; assumption) hcs hp
  cases r with
  | none =>
    show Assoc.find _ _ = none
    rw [find_entries_node_append, hfind]
    exact hm
  | some x =>
    obtain ⟨m', v⟩ := x
    obtain ⟨hwm, hfm, hpm, hplm⟩ := hm
    subst hcs
    cases hw with
    | node hpre hkeys hplaced hwf =>
    have hkeys' := hkeys
    simp only [List.map_append, List.map_cons, List.nodup_append, List.nodup_cons] at hkeys'
    have hA : rest' ∉ (entriesOf A).map Prod.fst :=
      not_mem_keys_entriesOf (fun e he => hplaced e (by simp [he]))
        (hp ▸ fun h => hkeys'.2.2 _ h _ (List.mem_cons_self ..) rfl)
    have hB : rest' ∉ (entriesOf B).map Prod.fst :=
      not_mem_keys_entriesOf (fun e he => hplaced e (by simp [he])) (hp ▸ hkeys'.2.1.1)
    refine ⟨?_, by rw [find_entries_node_append, hfind, hfm], ?_, fun c hc => hc⟩
    · refine .node hpre (by simpa using hkeys) ?_ ?_
      · intro e he
        simp only [List.mem_append, List.mem_cons] at he
        rcases he with he | rfl | he
        · exact hplaced e (by simp [he])
        · exact hplm p (hplaced (p, m) (by simp))
        · exact hplaced e (by simp [he])
      · intro e he
        simp only [List.mem_append, List.mem_cons] at he
        rcases he with he | rfl | he
        · exact hwf e (by simp [he])
        · exact hwm
        · exact hwf e (by simp [he])
    · rw [entries_node, entries_node, Assoc.erase_mapKey _ _ (List.append_right_injective pre),
        entriesOf_append, entriesOf_append, entriesOf_cons, entriesOf_cons, Assoc.erase_append,
        Assoc.erase_append, Assoc.erase_of_not_mem _ _ hA, Assoc.erase_of_not_mem _ _ hB]
      exact List.Perm.map _ (List.Perm.append_left _ (hpm.append_right _))

theorem deleteInner_spec {n : Node α} (hw : WF n) (hn : ∀ suffix v, n ≠ leaf suffix v)
    (rest : List UInt8) : DeleteSpec n rest (deleteInner n rest) := by
  induction hw generalizing rest with
  | leaf _ => exact absurd rfl (hn _ _)
  | @node k pre cs hpre hkeys hplaced hwf ih =>
    have hw : WF (node k pre cs) := .node hpre hkeys hplaced hwf
    rw [deleteInner]
    dsimp only
    split
    · rename_i hlen
      exact find_entries_node_eq_none fun h => absurd h.length_le (by omega)
    split
    · rename_i htake
      exact find_entries_node_eq_none fun h =>
        htake (List.prefix_iff_eq_take.mp h).symm
    rename_i htake
    set rest' := rest.drop pre.length
    have hrest : rest = pre ++ rest' := eq_append_drop_of_take (not_not.mp htake)
    cases hc : findChild (pivot rest' 0) cs with
    | none =>
      show Assoc.find _ _ = none
      rw [hrest, find_entries_node_append]
      exact (Assoc.find_eq_none_iff _ _).mpr
        (not_mem_keys_entriesOf hplaced ((Assoc.find_eq_none_iff _ _).mp hc))
    | some m =>
      obtain ⟨A, B, hcs, hA⟩ := split_of_findChild hc
      have hfind : Assoc.find rest (entries (node k pre cs)) = Assoc.find rest' (entries m) := by
        rw [hrest, find_entries_node_append, find_entriesOf_split hkeys hplaced hcs rfl]
      cases m with
      | leaf suffix value =>
        dsimp only
        split
        · rename_i hsuffix
          subst hsuffix
          -- the leaf goes, and the node left either stays or shrinks into the child left
          split
          · exact DeleteSpec.leafChild hw hcs hrest rfl
              (hw.node_of_subperm hpre (deleteChild_subperm k hkeys)) (List.Perm.refl _)
              fun c hc => hc
          · rename_i sn hsn
            have hkeys' : ((deleteChild k (pivot rest' 0) cs).map Prod.fst).Nodup :=
              nodup_keys_of_perm (deleteChild_perm k hkeys).symm (Assoc.nodup_keys_erase _ _ hkeys)
            refine DeleteSpec.leafChild hw hcs hrest rfl
              (WF.prependPre hpre ((hw.node_of_subperm (j := k) hpre
                (deleteChild_subperm k hkeys)).of_shrink hsn)) ?_ ?_
            · rw [entries_prependPre, entries_node]
              exact (entries_of_shrink hsn hkeys').map _
            · rintro c ⟨hne, hc⟩
              exact Placed.prependPre hne hc sn
        · rename_i hsuffix
          show Assoc.find _ _ = none
          rw [hfind]
          simp [Assoc.find, hsuffix]
      | node k' pre' cs' =>
        dsimp only
        have hwalk := deleteWalk_of_split (m := node k' pre' cs') (B := B) hA rest'
        rw [← hcs] at hwalk
        rw [hwalk, Option.map_map]
        exact DeleteSpec.child hw hcs hrest rfl
          (ih (pivot rest' 0, node k' pre' cs') (by rw [hcs]; simp) (fun _ _ h => by cases h) rest')

end Delete

/-! ## The tree refines a finite map -/

def Stores : Option (Node α) → List (List UInt8 × α) → Prop
  | none, E => E = []
  | some n, E => WF n ∧ (entries n).Perm E

@[simp] theorem stores_none (E : List (List UInt8 × α)) : Stores none E ↔ E = [] := Iff.rfl

@[simp] theorem stores_some (n : Node α) (E : List (List UInt8 × α)) :
    Stores (some n) E ↔ WF n ∧ (entries n).Perm E := Iff.rfl

structure Refines (t : SubjectTree α) (M : Assoc.Map (List UInt8) α) : Prop where
  stores : Stores t.root M.entries
  size : t.size = M.len

section Refines

variable {t : SubjectTree α} {M : Assoc.Map (List UInt8) α}

theorem new_refines_empty : Refines (NewSubjectTree : SubjectTree α) Assoc.Map.empty :=
  ⟨rfl, rfl⟩

theorem Refines.find (h : Refines t M) (s : List UInt8) : t.Find s = M.find s := by
  obtain ⟨root, size⟩ := t
  cases root with
  | none =>
    have hE : M.entries = [] := h.stores
    simp [Find, Assoc.Map.find, hE]
  | some n =>
    obtain ⟨hw, hperm⟩ := h.stores
    simp only [Find, Option.bind_some]
    rw [findNode_eq hw, Assoc.find_of_perm _ _ hperm hw.nodup_keys, Assoc.Map.find]

theorem Refines.erase_of_find_eq_none (h : Refines t M) {s : List UInt8}
    (hs : M.find s = none) : Refines t (M.erase s) := by
  rw [Assoc.Map.erase_of_find_eq_none hs]
  exact h

theorem Refines.insert (h : Refines t M) {subject : List UInt8} (hs : noPivot ∉ subject)
    (value : α) :
    Refines (t.Insert subject value).1 (M.set subject value) ∧
      (t.Insert subject value).2 = M.find subject := by
  obtain ⟨root, size⟩ := t
  have hsize : size = M.len := h.size
  cases root with
  | none =>
    have hE : M.entries = [] := h.stores
    have hfind : M.find subject = none := by simp [Assoc.Map.find, hE]
    simp only [SubjectTree.Insert, if_neg hs]
    refine ⟨⟨⟨.leaf hs, ?_⟩, ?_⟩, hfind.symm⟩
    · simp [Assoc.Map.set, hE, Assoc.set]
    · simp [Assoc.Map.len_set, hfind, hsize]
  | some n =>
    obtain ⟨hw, hperm⟩ := h.stores
    have spec := insertNode_spec value hw hs
    have hold : (insertNode value n subject).2 = M.find subject :=
      spec.old.trans (Assoc.find_of_perm _ _ hperm hw.nodup_keys)
    simp only [SubjectTree.Insert, if_neg hs]
    refine ⟨⟨⟨spec.wf, spec.perm.trans (Assoc.set_perm _ _ _ hperm hw.nodup_keys)⟩, ?_⟩,
      hold⟩
    simp [Assoc.Map.len_set, hold, hsize]

theorem Refines.delete (h : Refines t M) {subject : List UInt8} (hs : subject ≠ []) :
    Refines (t.Delete subject).1 (M.erase subject) ∧
      (t.Delete subject).2 = M.find subject := by
  obtain ⟨root, size⟩ := t
  cases root with
  | none =>
    have hE : M.entries = [] := h.stores
    have hfind : M.find subject = none := by simp [Assoc.Map.find, hE]
    simp only [Delete, if_neg hs]
    exact ⟨h.erase_of_find_eq_none hfind, hfind.symm⟩
  | some n =>
    obtain ⟨hw, hperm⟩ := h.stores
    have hfindM : ∀ s, Assoc.find s (entries n) = M.find s := fun s =>
      Assoc.find_of_perm _ _ hperm hw.nodup_keys
    -- what is left after the subject is found with `v`: the size drops by one
    have hlen : ∀ v, M.find subject = some v → size - 1 = (M.erase subject).len := by
      intro v hv
      have := Assoc.Map.len_erase_add_one (k := subject) (m := M) (by rw [hv]; rfl)
      have hsize : size = M.len := h.size
      omega
    cases n with
    | leaf suffix value =>
      by_cases heq : suffix = subject
      · subst heq
        have hfound : M.find suffix = some value := by
          rw [← hfindM]
          simp [Assoc.find]
        simp only [Delete, if_neg hs, deleteRoot, if_true]
        refine ⟨⟨?_, hlen value hfound⟩, hfound.symm⟩
        -- the leaf held the only entry
        have hnil := Assoc.erase_perm suffix _ hperm
        simp only [entries_leaf, Assoc.erase, if_true] at hnil
        exact hnil.nil_eq.symm
      · have hfind : M.find subject = none := by
          rw [← hfindM]
          simp [Assoc.find, heq]
        simp only [Delete, if_neg hs, deleteRoot, if_neg heq]
        exact ⟨h.erase_of_find_eq_none hfind, hfind.symm⟩
    | node k pre cs =>
      have spec := deleteInner_spec hw (fun _ _ h => by cases h) subject
      simp only [Delete, if_neg hs, deleteRoot]
      cases hd : deleteInner (node k pre cs) subject with
      | none =>
        rw [hd] at spec
        have hfind : M.find subject = none := by rw [← hfindM]; exact spec
        exact ⟨h.erase_of_find_eq_none hfind, hfind.symm⟩
      | some r =>
        obtain ⟨n', v⟩ := r
        rw [hd] at spec
        obtain ⟨hw', hf, hp, -⟩ := spec
        have hfound : M.find subject = some v := by rw [← hfindM]; exact hf
        exact ⟨⟨⟨hw', hp.trans (Assoc.erase_perm _ _ hperm)⟩, hlen v hfound⟩,
          hfound.symm⟩

theorem Refines.apply (h : Refines t M) {o : Op α} (ho : o.Valid) :
    Refines (t.apply o).1 (absApply M o).1 ∧ (t.apply o).2 = (absApply M o).2 := by
  cases o with
  | insert subject value => exact h.insert ho.2 value
  | delete subject => exact h.delete ho.1
  | empty => exact ⟨⟨rfl, rfl⟩, rfl⟩

end Refines

theorem Insert_Find_Delete_refine (ops : List (Op α)) (hops : ∀ o ∈ ops, o.Valid) (o : Op α)
    (ho : o.Valid) :
    (∀ s, (run step NewSubjectTree ops).Find s = (run absStep Assoc.Map.empty ops).find s) ∧
      (run step NewSubjectTree ops).Size = (run absStep Assoc.Map.empty ops).len ∧
      ((run step NewSubjectTree ops).apply o).2 =
        (absApply (run absStep Assoc.Map.empty ops) o).2 := by
  have hrun : Refines (run step NewSubjectTree ops) (run absStep Assoc.Map.empty ops) :=
    run_simulation Op.Valid Refines (fun _ _ _ hx h => (h.apply hx).1) new_refines_empty ops hops
  exact ⟨hrun.find, hrun.size, (hrun.apply ho).2⟩

theorem Insert_Find_Delete_refine_split :
    (∀ o ∈ ([.insert [1, 2] 5, .insert [1, 3] 6, .delete [1, 2]] : List (Op Nat)), o.Valid) ∧
      (Op.insert [1] 7 : Op Nat).Valid ∧
      (∀ s, (run step NewSubjectTree
          ([.insert [1, 2] 5, .insert [1, 3] 6, .delete [1, 2]] : List (Op Nat))).Find s =
        (run absStep Assoc.Map.empty
          ([.insert [1, 2] 5, .insert [1, 3] 6, .delete [1, 2]] : List (Op Nat))).find s) ∧
      (run step NewSubjectTree
          ([.insert [1, 2] 5, .insert [1, 3] 6, .delete [1, 2]] : List (Op Nat))).Size =
        (run absStep Assoc.Map.empty
          ([.insert [1, 2] 5, .insert [1, 3] 6, .delete [1, 2]] : List (Op Nat))).len ∧
      ((run step NewSubjectTree
          ([.insert [1, 2] 5, .insert [1, 3] 6, .delete [1, 2]] : List (Op Nat))).apply
          (.insert [1] 7)).2 =
        (absApply (run absStep Assoc.Map.empty
          ([.insert [1, 2] 5, .insert [1, 3] 6, .delete [1, 2]] : List (Op Nat)))
          (.insert [1] 7)).2 := by
  have hops : ∀ o ∈ ([.insert [1, 2] 5, .insert [1, 3] 6, .delete [1, 2]] : List (Op Nat)),
      o.Valid := by decide
  have ho : (Op.insert [1] 7 : Op Nat).Valid := by decide
  exact ⟨hops, ho, Insert_Find_Delete_refine _ hops _ ho⟩

end NatsServer.Stree
