import NatsServer.Subject.Level

/-!
# The generic sublist of gsl

`GenericSublist T` of gsl.go on the shared level trie: a node's payload is its `subs` map from
values to the subject they were inserted with. `Insert` and `Remove` are the walks of
`NatsServer.Subject.Level` with the map update of each, `Match` calls back every value of every
node the match walk reaches, and `HasInterest` and `NumInterest` are the interest walk. A
callback is modelled by the list of the values passed to it, in call order; Go leaves the
iteration order of a map open, and the order of an association list stands for it.

Below the definitions, each call is described once by what it does to the subscriptions at a
key path (`subsAt`) and to the nodes (`present`); the refinement proofs use only these lemmas.
-/

namespace NatsServer.Gsl

open NatsServer.Lib NatsServer.Subject

abbrev Subs (T : Type) := List (T × String)

structure GenericSublist (T : Type) where
  root : Level (Subs T)
  count : UInt32

variable {T : Type} [DecidableEq T]

namespace GenericSublist

def NewSublist : GenericSublist T := ⟨[], 0⟩

def Insert (s : GenericSublist T) (subject : String) (value : T) :
    GenericSublist T × Except SubError Unit :=
  match tokens subject with
  -- SplitSeq yields at least one token (`tokens_ne_nil`)
  | [] => (s, .error .invalidSubject)
  | t :: rest =>
    let r := insertWalk [] (Assoc.set value subject) false t rest s.root
    match r.2 with
    | none => (⟨r.1, s.count⟩, .error .invalidSubject)
    | some _ => (⟨r.1, s.count + 1⟩, .ok ())

def removeFromNode (value : T) (subs : Subs T) : Option (Subs T × Unit) :=
  if (Assoc.find value subs).isSome then some (Assoc.erase value subs, ()) else none

def subsEmpty (subs : Subs T) : Bool := subs.length == 0

def Remove (s : GenericSublist T) (subject : String) (value : T) :
    Except SubError (GenericSublist T) :=
  match tokens subject with
  | [] => .error .notFound
  | t :: rest =>
    match removeWalk subsEmpty (removeFromNode value) false t rest s.root with
    | .error e => .error e
    | .ok (root, ()) => .ok ⟨root, s.count - 1⟩

def callbacksForResults (results : List T) (subs : Subs T) : List T :=
  results ++ subs.map Prod.fst

def Match (s : GenericSublist T) (subject : String) : List T :=
  match subjectTokens subject with
  | none => []
  | some toks => matchLevel callbacksForResults s.root toks []

-- Generate the equation lemmas of Insert and Match here, once, before the proofs below unfold them
-- in parallel.
section
attribute [local simp] Insert Match
end

def hasSubs (subs : Subs T) : Bool := decide (subs.length > 0)

def HasInterest (s : GenericSublist T) (subject : String) : Bool :=
  match subjectTokens subject with
  | none => false
  | some toks => (matchLevelForAny hasSubs List.length s.root toks).1

def NumInterest (s : GenericSublist T) (subject : String) : Nat :=
  match subjectTokens subject with
  | none => 0
  | some toks => (matchLevelForAny hasSubs List.length s.root toks).2

def Count (s : GenericSublist T) : UInt32 := s.count

def MatchesFullWildcard (s : GenericSublist T) : Bool := (Assoc.find .fwc s.root).isSome

/-! singleFilter: every node Insert makes has a next level, so the source's tests for a missing
level never hold and are left out. -/

mutual

def singleFilter : Level (Subs T) → String → String × Bool
  | l, filter =>
    if (l.filter fun e => e.1 matches .lit _).length > 1 then ("", false)
    else
      match l with
      -- exactly one branch: a literal node, the `*` node or the `>` node
      | [e] => singleFilterEntry e filter
      | _ => ("", false)

def singleFilterEntry : Key × Node (Subs T) → String → String × Bool
  | (_, n), filter => singleFilterNode n filter

def singleFilterNode : Node (Subs T) → String → String × Bool
  | ⟨subs, next⟩, filter =>
    let filter :=
      match subs with
      | (_, subj) :: _ => subj
      | [] => filter
    if filter != "" then
      if numNodes next > 0 then ("", false) else (filter, true)
    else singleFilter next filter

end

def MatchesSingleFilter (s : GenericSublist T) : String × Bool := singleFilter s.root ""

/-! ## Runs of calls -/

inductive Op (T : Type)
  | insert (subject : String) (value : T)
  | remove (subject : String) (value : T)

def step (s : GenericSublist T) : Op T → GenericSublist T
  | .insert subject value => (s.Insert subject value).1
  | .remove subject value =>
    match s.Remove subject value with
    | .ok s' => s'
    | .error _ => s

/-! ## The calls described by the subscriptions at each key path -/

def subsAt (s : GenericSublist T) (p : List Key) : Subs T := Trie.payloadAt [] ⟨[], s.root⟩ p

def present (s : GenericSublist T) (p : List Key) : Prop := (⟨[], s.root⟩ : Node (Subs T)).Present p

-- Generate the equation lemmas of subsAt and present here, once, before the proofs below unfold
-- them in parallel.
section
attribute [local simp] subsAt present
end

theorem tokens_eq_cons (subject : String) : ∃ t rest, tokens subject = t :: rest :=
  List.exists_cons_of_ne_nil (tokens_ne_nil subject)

section Calls

variable (s : GenericSublist T) (subject : String) (value : T)

theorem count_Insert :
    (s.Insert subject value).1.count =
      if validFilter (tokens subject) = true then s.count + 1 else s.count := by
  obtain ⟨t, rest, ht⟩ := tokens_eq_cons subject
  simp only [Insert, ht, insertWalk_snd _ _ ([] : Subs T), Bool.not_false, Bool.true_and]
  split_ifs <;> rfl

theorem subsAt_Insert (p : List Key) :
    (s.Insert subject value).1.subsAt p =
      if validFilter (tokens subject) = true ∧ p = keyPath (tokens subject) then
        Assoc.set value subject (s.subsAt p)
      else s.subsAt p := by
  obtain ⟨t, rest, ht⟩ := tokens_eq_cons subject
  have hroot : (s.Insert subject value).1.root =
      (insertWalk [] (Assoc.set value subject) false t rest s.root).1 := by
    simp only [Insert, ht]
    split <;> rfl
  simp only [subsAt, hroot, payloadAt_insertWalk, ht, Bool.not_false, Bool.true_and]

theorem present_Insert {p : List Key} (h : (s.Insert subject value).1.present p) :
    s.present p ∨ p <+: keyPath (tokens subject) := by
  obtain ⟨t, rest, ht⟩ := tokens_eq_cons subject
  have hroot : (s.Insert subject value).1.root =
      (insertWalk [] (Assoc.set value subject) false t rest s.root).1 := by
    simp only [Insert, ht]
    split <;> rfl
  rw [present, hroot] at h
  rw [ht]
  exact present_insertWalk _ _ _ h

omit [DecidableEq T] in
theorem hempty_subs : ∀ p : Subs T, subsEmpty p = true → p = [] := by
  intro p hp
  simpa [subsEmpty] using hp

theorem removeFromNode_nil : removeFromNode value ([] : Subs T) = none := rfl

theorem Remove_isOk :
    (∃ s', s.Remove subject value = .ok s') ↔
      validFilter (tokens subject) = true ∧
        (Assoc.find value (s.subsAt (keyPath (tokens subject)))).isSome := by
  obtain ⟨t, rest, ht⟩ := tokens_eq_cons subject
  simp only [Remove, ht]
  constructor
  · rintro ⟨s', hs'⟩
    split at hs'
    · cases hs'
    · rename_i root hw
      obtain ⟨hacc, p', hrm, -⟩ := removeWalk_eq_ok _ [] hempty_subs hw
      refine ⟨by simpa using hacc, ?_⟩
      unfold removeFromNode at hrm
      split_ifs at hrm with hf
      exact hf
  · rintro ⟨hv, hf⟩
    have hp : removeFromNode value
        (Trie.payloadAt [] (⟨[], s.root⟩ : Node (Subs T)) (keyPath (t :: rest))) =
          some (Assoc.erase value (s.subsAt (keyPath (t :: rest))), ()) := by
      simp only [subsAt] at hf ⊢
      simp only [removeFromNode]
      rw [if_pos hf]
    obtain ⟨l', hl'⟩ := removeWalk_ok_of [] subsEmpty (removeFromNode value) []
      (removeFromNode_nil value) (show (!false && validFilter (t :: rest)) = true by simpa using hv)
      hp
    exact ⟨_, by rw [hl']⟩

theorem Remove_eq_ok {s' : GenericSublist T} (h : s.Remove subject value = .ok s') :
    validFilter (tokens subject) = true ∧
      (Assoc.find value (s.subsAt (keyPath (tokens subject)))).isSome ∧
      (∀ p, s'.subsAt p =
        if p = keyPath (tokens subject) then Assoc.erase value (s.subsAt p) else s.subsAt p) ∧
      s'.count = s.count - 1 ∧
      (∀ p, s'.present p → s.present p) ∧
      (∀ p, p ≠ [] → p <+: keyPath (tokens subject) → s'.present p →
        s'.subsAt p ≠ [] ∨ ∃ k, s'.present (p ++ [k])) := by
  obtain ⟨t, rest, ht⟩ := tokens_eq_cons subject
  simp only [Remove, ht] at h
  split at h
  · cases h
  · rename_i root hw
    cases h
    obtain ⟨hacc, p', hrm, hpay⟩ := removeWalk_eq_ok _ [] hempty_subs hw
    unfold removeFromNode at hrm
    split_ifs at hrm with hf
    cases hrm
    refine ⟨by simpa [ht] using hacc, by rwa [ht], fun p => ?_, rfl, fun p hp => ?_,
      fun p hne hpre hp => ?_⟩
    · rw [subsAt, hpay, ht]
      split_ifs with hp
      · subst hp; rfl
      · rfl
    · exact present_removeWalk _ _ hw hp
    · rw [ht] at hpre
      rcases removeWalk_pruned (d := []) _ _ hw hne hpre hp with he | hk
      · left
        simpa [subsEmpty, subsAt] using he
      · exact .inr hk

end Calls

/-! ## What the match walks read -/

omit [DecidableEq T] in
theorem Match_eq (s : GenericSublist T) {subject : String} {toks : List String}
    (h : subjectTokens subject = some toks) :
    s.Match subject = (matchPaths toks).flatMap fun p => (s.subsAt p).map Prod.fst := by
  have hfold : ∀ (ps : List (List Key)) (r : List T),
      ps.foldl (fun r p => callbacksForResults r (s.subsAt p)) r =
        r ++ ps.flatMap fun p => (s.subsAt p).map Prod.fst := by
    intro ps
    induction ps with
    | nil => simp
    | cons p ps ih =>
      intro r
      rw [List.foldl_cons, ih, List.flatMap_cons, callbacksForResults, List.append_assoc]
  rw [Match, h]
  simp only
  rw [matchLevel_eq_foldl [] [] (fun r => by simp [callbacksForResults])]
  exact hfold _ []

omit [DecidableEq T] in
theorem HasInterest_eq (s : GenericSublist T) {subject : String} {toks : List String}
    (h : subjectTokens subject = some toks)
    (hf : FwcHolds [] hasSubs (⟨[], s.root⟩ : Node (Subs T))) :
    s.HasInterest subject = (matchPaths toks).any fun p => hasSubs (s.subsAt p) := by
  rw [HasInterest, h]
  exact matchLevelForAny_fst [] [] rfl List.length hf toks

end GenericSublist

end NatsServer.Gsl
