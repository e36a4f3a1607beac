import NatsServer.Server.Calls
import NatsServer.Lib.Run

/-!
# No empty nodes

Every node of the trie other than the root holds a subscription or has a node below it, as long
as no Insert is refused: a successful Insert makes nodes only on the way to a node it fills,
and a removal prunes the nodes it empties on its path and keeps every other node. A refused
Insert breaks it (`Insert_invalid_orphan`).
-/

namespace NatsServer.Server

open NatsServer.Lib NatsServer.Subject

namespace Sublist

def NoEmptyNodes (s : Sublist) : Prop :=
  ∀ p, p ≠ [] → s.present p → subsEmpty (s.subsAt p) = false ∨ ∃ k, s.present (p ++ [k])

def ValidInsert : Op → Prop
  | .insert sub => validFilter (tokens sub.subject) = true
  | _ => True

instance (op : Op) : Decidable (ValidInsert op) := by
  cases op <;> unfold ValidInsert <;> infer_instance

theorem subsEmpty_addSub (sub : Subscription) (n : NodeSubs) : subsEmpty (addSub sub n) = false := by
  unfold addSub subsEmpty
  cases sub.queue <;> simp

section Invariant

variable {s : Sublist}

theorem NoEmptyNodes.of_root_eq {s' : Sublist} (h : s'.root = s.root) (hs : NoEmptyNodes s) :
    NoEmptyNodes s' := by
  unfold NoEmptyNodes subsAt present
  rw [h]
  exact hs

theorem noEmptyNodes_new (enableCache : Bool) : NoEmptyNodes (NewSublist enableCache) := by
  intro p hp hpres
  obtain ⟨k, ks, rfl⟩ := List.exists_cons_of_ne_nil hp
  exact absurd hpres (Trie.not_present_leaf _ _ _)

theorem NoEmptyNodes.Insert (h : NoEmptyNodes s) {sub : Subscription}
    (hv : validFilter (tokens sub.subject) = true) : NoEmptyNodes (s.Insert sub).1 := by
  obtain ⟨t, rest, ht⟩ := List.exists_cons_of_ne_nil (tokens_ne_nil sub.subject)
  have hacc : (!false && validFilter (t :: rest)) = true := by simpa [ht] using hv
  intro p hp hpres
  by_cases hpre : p <+: keyPath (tokens sub.subject)
  · by_cases hpath : p = keyPath (tokens sub.subject)
    · exact .inl (by rw [subsAt_Insert, if_pos ⟨hv, hpath⟩]; exact subsEmpty_addSub _ _)
    · -- a node short of the subscription's own has the next node of the path below it
      obtain ⟨r, hr⟩ := hpre
      obtain ⟨k, r', rfl⟩ := List.exists_cons_of_ne_nil
        (show r ≠ [] by rintro rfl; exact hpath (by simpa using hr))
      refine .inr ⟨k, ?_⟩
      rw [present, root_Insert s sub ht]
      refine present_insertWalk_prefix newNode (addSub sub) newNode hacc ⟨r', ?_⟩
      rw [← ht, ← hr]
      simp
  · have hold := (present_Insert s sub hpres).resolve_right hpre
    rw [subsAt_Insert, if_neg (by rintro ⟨-, rfl⟩; exact hpre (List.prefix_refl _))]
    rcases h p hp hold with hne | ⟨k, hk⟩
    · exact .inl hne
    · refine .inr ⟨k, ?_⟩
      rw [present, root_Insert s sub ht]
      exact present_insertWalk_of_present newNode (addSub sub) newNode hk

theorem NoEmptyNodes.remove (h : NoEmptyNodes s) {sub : Subscription} {b : Bool} {s' : Sublist}
    (hr : s.remove sub b = .ok s') : NoEmptyNodes s' := by
  obtain ⟨t, rest, last, -, hw, -⟩ := remove_walk hr
  obtain ⟨-, p', -, hpay⟩ := removeWalk_eq_ok (removeFromNode sub) newNode hempty_subs hw
  intro p hp hpres
  by_cases hpre : p <+: keyPath (t :: rest)
  · -- on the path the removal pruned what it emptied
    exact removeWalk_pruned (d := newNode) (removeFromNode sub) newNode hw hp hpre hpres
  · have hold := present_removeWalk (removeFromNode sub) newNode hw hpres
    have hsubs : s'.subsAt p = s.subsAt p := by
      simp only [subsAt]
      rw [hpay, if_neg (by rintro rfl; exact hpre (List.prefix_refl _))]
    rw [hsubs]
    rcases h p hp hold with hne | ⟨k, hk⟩
    · exact .inl hne
    · refine .inr ⟨k, present_removeWalk_of_present (removeFromNode sub) newNode hw hk ?_⟩
      exact fun hpk => hpre ((List.prefix_append p [k]).trans hpk)

theorem NoEmptyNodes.RemoveBatch (h : NoEmptyNodes s) (subs : List Subscription) :
    NoEmptyNodes (s.RemoveBatch subs).1 := by
  unfold Sublist.RemoveBatch
  split
  · exact h
  · -- the batch removes one subscription after another on the same trie
    refine NoEmptyNodes.of_root_eq
      (s := (subs.foldl removeBatchStep (({ s with cache := none } : Sublist), none)).1) rfl ?_
    refine run_invariant (fun acc : Sublist × Option SubError => NoEmptyNodes acc.1) ?_
      (h.of_root_eq rfl) subs
    rintro ⟨s₁, e⟩ sub h₁
    unfold removeBatchStep
    split
    · rename_i s₂ hr
      exact h₁.remove hr
    · exact h₁

theorem root_registerNotification (subject queue : String) (notify : Option Chan) :
    (s.registerNotification subject queue notify).1.root = s.root := by
  unfold registerNotification
  split
  · rfl
  · split
    · rfl
    · dsimp only
      split <;> simp [sendNotification]

theorem root_clearNotification (subject queue : String) (notify : Chan) :
    (s.clearNotification subject queue notify).1.root = s.root := by
  unfold clearNotification
  split <;> rfl

theorem NoEmptyNodes.step (h : NoEmptyNodes s) {op : Op} (hop : ValidInsert op) :
    NoEmptyNodes (step s op) := by
  cases op with
  | insert sub => exact h.Insert hop
  | remove sub =>
    simp only [Sublist.step]
    split
    · rename_i s' hr
      exact h.remove hr
    · exact h
  | removeBatch subs => exact h.RemoveBatch subs
  | updateRemoteQSub sub => exact h.of_root_eq (root_removeFromCache _ _)
  | matchSubject subject => exact h.of_root_eq (root_Match _ _)
  | reduceCacheCount => exact h.of_root_eq rfl
  | registerNotification subject queue notify =>
    exact h.of_root_eq (root_registerNotification subject queue notify)
  | clearNotification subject queue notify =>
    exact h.of_root_eq (root_clearNotification subject queue notify)

end Invariant

/-- In every state a sublist reaches without a refused Insert, every node other than the root
holds a subscription or has a node below it. -/
theorem noEmptyNodes_run (enableCache : Bool) (ops : List Op) (hops : ∀ op ∈ ops, ValidInsert op) :
    NoEmptyNodes (run step (NewSublist enableCache) ops) :=
  run_invariant_on ValidInsert NoEmptyNodes (fun _ _ hop hs => hs.step hop)
    (noEmptyNodes_new enableCache) ops hops

theorem noEmptyNodes_run_small :
    (∀ op ∈ [Op.insert ⟨1, "foo.bar", none, false, 1⟩, .insert ⟨2, "foo.*", some "q", false, 1⟩,
        .remove ⟨1, "foo.bar", none, false, 1⟩], ValidInsert op) ∧
      NoEmptyNodes (run step (NewSublist true) [Op.insert ⟨1, "foo.bar", none, false, 1⟩,
        .insert ⟨2, "foo.*", some "q", false, 1⟩, .remove ⟨1, "foo.bar", none, false, 1⟩]) := by
  have hops : ∀ op ∈ [Op.insert ⟨1, "foo.bar", none, false, 1⟩,
      .insert ⟨2, "foo.*", some "q", false, 1⟩, .remove ⟨1, "foo.bar", none, false, 1⟩],
      ValidInsert op := by
    decide +kernel
  exact ⟨hops, noEmptyNodes_run true _ hops⟩

end Sublist

end NatsServer.Server
