import NatsServer.Server.Sublist

/-!
# What each call of the server's sublist does

Each call is described once: which fields it leaves alone (the frame lemmas), what it does to
the subscriptions at each key path (`subsAt`) and to the nodes (`present`), through the lemmas
of the shared walks. A failed Insert changes only the trie, and there only by nodes that hold
nothing, so `Match` answers as before; but a node left at `>` answers `HasInterest` for every
subject below it.
-/

namespace NatsServer.Server

open NatsServer.Lib NatsServer.Subject

namespace Sublist

section Frames

/-! Each call changes only some fields; these say which stay. -/

variable (s : Sublist) (subject queue : String) (sub : Subscription)

theorem foldl_sendNotification (b : Bool) (chs : List Chan) (s : Sublist) :
    chs.foldl (fun s ch => s.sendNotification ch b) s =
      { s with sent := s.sent ++ chs.map fun ch => (ch, b) } := by
  induction chs generalizing s with
  | nil => simp
  | cons ch chs ih =>
    rw [List.foldl_cons, ih]
    simp [sendNotification]

@[simp] theorem root_addToCache : (s.addToCache subject sub).root = s.root := by
  unfold addToCache
  split <;> (try split) <;> (try split) <;> rfl

@[simp] theorem count_addToCache : (s.addToCache subject sub).count = s.count := by
  unfold addToCache
  split <;> (try split) <;> (try split) <;> rfl

@[simp] theorem root_removeFromCache : (s.removeFromCache subject).root = s.root := by
  unfold removeFromCache
  split <;> (try split) <;> rfl

@[simp] theorem count_removeFromCache : (s.removeFromCache subject).count = s.count := by
  unfold removeFromCache
  split <;> (try split) <;> rfl

@[simp] theorem root_Match : (s.Match subject).2.root = s.root := by
  unfold Match
  split <;> (try split) <;> rfl

@[simp] theorem count_Match : (s.Match subject).2.count = s.count := by
  unfold Match
  split <;> (try split) <;> rfl

@[simp] theorem root_chkForInsertNotification :
    (s.chkForInsertNotification subject queue).root = s.root := by
  unfold chkForInsertNotification
  split
  · rfl
  · dsimp only
    split
    · simp [foldl_sendNotification]
    · rfl

@[simp] theorem count_chkForInsertNotification :
    (s.chkForInsertNotification subject queue).count = s.count := by
  unfold chkForInsertNotification
  split
  · rfl
  · dsimp only
    split
    · simp [foldl_sendNotification]
    · rfl

@[simp] theorem root_chkForRemoveNotification :
    (s.chkForRemoveNotification subject queue).root = s.root := by
  unfold chkForRemoveNotification
  split
  · rfl
  · dsimp only
    split
    · split
      · simp [matchNoLock]
      · simp [foldl_sendNotification, matchNoLock]
    · rfl

@[simp] theorem count_chkForRemoveNotification :
    (s.chkForRemoveNotification subject queue).count = s.count := by
  unfold chkForRemoveNotification
  split
  · rfl
  · dsimp only
    split
    · split
      · simp [matchNoLock]
      · simp [foldl_sendNotification, matchNoLock]
    · rfl

end Frames

/-! ## Insert -/

section Insert

variable (s : Sublist) (sub : Subscription)

theorem root_Insert {t : String} {rest : List String} (ht : tokens sub.subject = t :: rest) :
    (s.Insert sub).1.root = (insertWalk newNode (addSub sub) false t rest s.root).1 := by
  simp only [Insert, ht]
  split
  · rfl
  · split <;> simp

theorem Insert_snd :
    (s.Insert sub).2 =
      if validFilter (tokens sub.subject) = true then .ok () else .error .invalidSubject := by
  obtain ⟨t, rest, ht⟩ := List.exists_cons_of_ne_nil (tokens_ne_nil sub.subject)
  simp only [Insert, ht, insertWalk_snd _ _ newNode, Bool.not_false, Bool.true_and]
  split_ifs <;> rfl

theorem Insert_of_error {e : SubError} (h : (s.Insert sub).2 = .error e) :
    (s.Insert sub).1 = { s with root := (s.Insert sub).1.root } := by
  obtain ⟨t, rest, ht⟩ := List.exists_cons_of_ne_nil (tokens_ne_nil sub.subject)
  have hnone : (insertWalk newNode (addSub sub) false t rest s.root).2 = none := by
    revert h
    simp only [Insert, ht]
    split
    · intro _; assumption
    · intro h
      split at h <;> cases h
  simp only [Insert, ht, hnone]

theorem subsAt_Insert (p : List Key) :
    (s.Insert sub).1.subsAt p =
      if validFilter (tokens sub.subject) = true ∧ p = keyPath (tokens sub.subject) then
        addSub sub (s.subsAt p)
      else s.subsAt p := by
  obtain ⟨t, rest, ht⟩ := List.exists_cons_of_ne_nil (tokens_ne_nil sub.subject)
  simp only [subsAt, root_Insert s sub ht, payloadAt_insertWalk, ht, Bool.not_false,
    Bool.true_and]

theorem present_Insert {p : List Key} (h : (s.Insert sub).1.present p) :
    s.present p ∨ p <+: keyPath (tokens sub.subject) := by
  obtain ⟨t, rest, ht⟩ := List.exists_cons_of_ne_nil (tokens_ne_nil sub.subject)
  rw [present, root_Insert s sub ht] at h
  rw [ht]
  exact present_insertWalk _ _ _ h

end Insert

/-! ## remove -/

theorem hempty_subs : ∀ n : NodeSubs, subsEmpty n = true → n = newNode := by
  intro n hn
  obtain ⟨ps, qs, pl, hpl⟩ := n
  simp only [subsEmpty, Bool.and_eq_true, beq_iff_eq, List.length_eq_zero_iff] at hn
  -- a node without subscriptions has no plist
  cases pl with
  | none => simp [newNode, hn]
  | some l => exact absurd hn.1 (hpl rfl)

theorem remove_walk {s s' : Sublist} {sub : Subscription} {b : Bool}
    (h : s.remove sub b = .ok s') :
    ∃ t rest last, tokens sub.subject = t :: rest ∧
      removeWalk subsEmpty (removeFromNode sub) false t rest s.root = .ok (s'.root, last) ∧
      s'.count = s.count - 1 := by
  obtain ⟨t, rest, ht⟩ := List.exists_cons_of_ne_nil (tokens_ne_nil sub.subject)
  simp only [remove, ht] at h
  split at h
  · cases h
  · rename_i root last hw
    cases h
    refine ⟨t, rest, last, ht, ?_, ?_⟩ <;> split_ifs <;> simp [hw]

/-- The refused Insert of `foo.>.bar` leaves the nodes of `foo` and `foo.>` behind, the second
with no subscription and no next level, and with it interest in every subject below `foo`. -/
theorem Insert_invalid_orphan :
    ((NewSublist false).Insert ⟨1, "foo.>.bar", none, false, 1⟩).2 = .error .invalidSubject ∧
      ((⟨newNode, ((NewSublist false).Insert ⟨1, "foo.>.bar", none, false, 1⟩).1.root⟩ :
          Node NodeSubs).get? [.lit "foo", .fwc]).map
          (fun n => (subsEmpty n.payload, n.children.length)) = some (true, 0) ∧
      (NewSublist false).HasInterest "foo.x" = false ∧
      ((NewSublist false).Insert ⟨1, "foo.>.bar", none, false, 1⟩).1.HasInterest "foo.x" = true := by
  decide +kernel

/-! ## Match -/

theorem addNodeToResults_newNode (r : SublistResult) : addNodeToResults newNode r = r := by
  simp [addNodeToResults, newNode]

theorem Match_fst_of_uncached (s : Sublist) {subject : String} {toks : List String}
    (hc : s.cache.bind (Assoc.find subject) = none) (ht : subjectTokens subject = some toks) :
    (s.Match subject).1 =
      (matchPaths toks).foldl (fun r p => addNodeToResults (s.subsAt p) r) emptyResult := by
  have hfold := @matchLevel_eq_foldl NodeSubs SublistResult newNode newNode
    (fun r n => addNodeToResults n r) addNodeToResults_newNode s.root toks emptyResult
  simp only [Match, hc, ht, subsAt]
  split_ifs with he
  · -- an empty result is replaced by emptyResult, which it equals
    rw [← hfold]
    simp only [Bool.and_eq_true, beq_iff_eq, List.length_eq_zero_iff] at he
    exact (congrArg₂ SublistResult.mk he.1 he.2).symm
  · exact hfold

/-- A refused Insert changes no answer of Match: the nodes it leaves behind hold nothing. -/
theorem Match_Insert_error (s : Sublist) (sub : Subscription) {e : SubError}
    (h : (s.Insert sub).2 = .error e) (subject : String) :
    ((s.Insert sub).1.Match subject).1 = (s.Match subject).1 := by
  have hs := Insert_of_error s sub h
  have hv : validFilter (tokens sub.subject) = false := by
    rw [Insert_snd] at h
    cases hv : validFilter (tokens sub.subject)
    · rfl
    · rw [if_pos hv] at h
      cases h
  have hsubs : ∀ p, (s.Insert sub).1.subsAt p = s.subsAt p := fun p => by
    rw [subsAt_Insert, if_neg (by simp [hv])]
  cases hc : s.cache.bind (Assoc.find subject) with
  | some r =>
    have hc' : (s.Insert sub).1.cache.bind (Assoc.find subject) = some r := by rw [hs]; exact hc
    simp only [Match, hc, hc']
  | none =>
    have hc' : (s.Insert sub).1.cache.bind (Assoc.find subject) = none := by rw [hs]; exact hc
    cases ht : subjectTokens subject with
    | none => simp only [Match, hc, hc', ht]
    | some toks =>
      rw [Match_fst_of_uncached _ hc' ht, Match_fst_of_uncached _ hc ht]
      simp only [hsubs]

theorem Match_Insert_error_foo :
    ((NewSublist true).Insert ⟨1, "foo.>.bar", none, false, 1⟩).2 = .error .invalidSubject ∧
      ((((NewSublist true).Insert ⟨1, "foo.>.bar", none, false, 1⟩).1.Match "foo.x").1 =
        ((NewSublist true).Match "foo.x").1) := by
  have h : ((NewSublist true).Insert ⟨1, "foo.>.bar", none, false, 1⟩).2 =
      .error .invalidSubject := by
    decide +kernel
  exact ⟨h, Match_Insert_error _ _ h _⟩

/-- With the cache on, a remote queue subscription of weight 2 inserted after a match of its
subject is added to the cached result once, while a match without the cache shadows it
twice. -/
theorem Match_cached_weight :
    ((((NewSublist true).Match "foo").2.Insert ⟨1, "foo", some "q", true, 2⟩).1.Match "foo").1 =
        ⟨[], [[⟨1, "foo", some "q", true, 2⟩]]⟩ ∧
      ((((NewSublist false).Match "foo").2.Insert ⟨1, "foo", some "q", true, 2⟩).1.Match
          "foo").1 =
        ⟨[], [[⟨1, "foo", some "q", true, 2⟩, ⟨1, "foo", some "q", true, 2⟩]]⟩ := by
  decide +kernel

end Sublist

end NatsServer.Server
