import Mathlib.Data.List.Nodup

/-!
# Subjects, tokens and wildcard matching

A subject is a string of tokens separated by `.`. In a filter the token `*` stands for any one
token and a last token `>` for one or more; any other token stands for itself (`matchTokens`).
Both sublists store filters in a trie whose levels have a slot per literal token and one each
for `*` and `>` (`keyOf`). For a literal subject their match walks visit the key paths
`matchPaths`, and a filter's path is among them exactly when the filter matches
(`keyPath_mem_matchPaths`).
-/

namespace NatsServer.Subject

def tokens (subject : String) : List String := (subject.toList.splitOn '.').map String.ofList

inductive Key
  | lit (t : String)
  | pwc
  | fwc
  deriving DecidableEq, Repr

/-- The slot a non-empty token selects in a level: the source tests the length first and then
the single byte, which singles out exactly the tokens `*` and `>`. -/
def keyOf (t : String) : Key :=
  if t = "*" then .pwc else if t = ">" then .fwc else .lit t

def keyPath (toks : List String) : List Key := toks.map keyOf

def matchTokens : List String → List String → Bool
  | [], [] => true
  | [">"], _ :: _ => true
  | f :: fs, t :: ts => (f == "*" || f == t) && matchTokens fs ts
  | _, _ => false

def subjectMatches (filter subject : String) : Bool := matchTokens (tokens filter) (tokens subject)

def isValidLiteralSubject (toks : List String) : Bool :=
  toks.all fun t => t.length != 0 && t != "*" && t != ">"

def IsValidLiteralSubject (subject : String) : Bool := isValidLiteralSubject (tokens subject)

/-- isSubsetMatchTokenized: whether every subject the tokens stand for is one the test subject
stands for. A test token is read as `*` by its first byte alone. -/
def isSubsetMatchTokenized : List String → List String → Bool
  | tokens, [] => tokens.isEmpty
  | [], _ :: _ => false
  | t1 :: tokens, t2 :: test =>
    if t2.length = 0 then false
    else if t2 = ">" then true
    else if t1.length = 0 ∨ t1 = ">" then false
    else if t1 = "*" then t2 = "*" && isSubsetMatchTokenized tokens test
    else if t2.toList.head? ≠ some '*' ∧ t1 ≠ t2 then false
    else isSubsetMatchTokenized tokens test

def isSubsetMatch (tokens : List String) (test : String) : Bool :=
  isSubsetMatchTokenized tokens (Subject.tokens test)

def subjectTokens (subject : String) : Option (List String) :=
  if (tokens subject).all (fun t => t.length != 0) then some (tokens subject) else none

def validFilter : List String → Bool
  | [] => true
  | t :: rest => t.length != 0 && (t != ">" || rest.isEmpty) && validFilter rest

/-- The key paths the match walk of a level visits for a subject's tokens, in its order: the
`>` slot, then what lies under the `*` slot, then what lies under the token's own slot; at the
last token the token's slot and the `*` slot themselves. -/
def matchPaths : List String → List (List Key)
  | [] => []
  | [t] => [[.fwc], [.lit t], [.pwc]]
  | t :: t' :: rest =>
    [.fwc] :: ((matchPaths (t' :: rest)).map (.pwc :: ·) ++
      (matchPaths (t' :: rest)).map (.lit t :: ·))

-- Generate the equation lemmas of keyOf, matchTokens, validFilter and matchPaths here, once,
-- before the proofs below unfold them in parallel.
section
attribute [local simp] keyOf matchTokens validFilter matchPaths
end


section Lemmas

theorem tokens_ne_nil (s : String) : tokens s ≠ [] := by
  simp [tokens, List.splitOn_ne_nil]

theorem tokens_injective : Function.Injective tokens := by
  intro s s' h
  have hsplit : s.toList.splitOn '.' = s'.toList.splitOn '.' := by
    have := congrArg (List.map String.toList) h
    simpa [tokens, List.map_map, Function.comp_def, String.toList_ofList] using this
  rw [← String.toList_inj, ← @List.intercalate_splitOn _ s.toList _ _ '.',
    ← @List.intercalate_splitOn _ s'.toList _ _ '.', hsplit]

@[simp] theorem keyOf_eq_pwc {t : String} : keyOf t = .pwc ↔ t = "*" := by
  unfold keyOf
  split_ifs <;> simp_all

@[simp] theorem keyOf_eq_fwc {t : String} : keyOf t = .fwc ↔ t = ">" := by
  unfold keyOf
  split_ifs <;> simp_all

theorem keyOf_eq_lit {t a : String} (ha : a ≠ "*" ∧ a ≠ ">") : keyOf t = .lit a ↔ t = a := by
  unfold keyOf
  split_ifs with h1 h2
  · subst h1; simp [Ne.symm ha.1]
  · subst h2; simp [Ne.symm ha.2]
  · simp

theorem keyOf_injective : Function.Injective keyOf := by
  intro t t' h
  unfold keyOf at h
  split_ifs at h <;> simp_all

theorem keyPath_injective : Function.Injective keyPath :=
  List.map_injective_iff.mpr keyOf_injective

@[simp] theorem keyPath_nil : keyPath [] = [] := rfl

@[simp] theorem keyPath_cons (t : String) (ts : List String) :
    keyPath (t :: ts) = keyOf t :: keyPath ts := rfl

@[simp] theorem keyPath_eq_nil {ts : List String} : keyPath ts = [] ↔ ts = [] := by
  cases ts <;> simp

theorem isValidLiteralSubject_cons {t : String} {ts : List String} :
    isValidLiteralSubject (t :: ts) = true ↔
      (t.length ≠ 0 ∧ t ≠ "*" ∧ t ≠ ">") ∧ isValidLiteralSubject ts = true := by
  simp [isValidLiteralSubject, and_assoc]

@[simp] theorem matchTokens_nil_right {fs : List String} : matchTokens fs [] = true ↔ fs = [] := by
  cases fs <;> simp [matchTokens]

theorem matchTokens_cons_cons {f t : String} {fs ts : List String} :
    matchTokens (f :: fs) (t :: ts) = true ↔
      (f = ">" ∧ fs = []) ∨ ((f = "*" ∨ f = t) ∧ matchTokens fs ts = true) := by
  by_cases hf : f = ">"
  · subst hf
    cases fs <;> simp [matchTokens]
  · simp [matchTokens, hf]

theorem mem_matchPaths_single {t : String} {k : Key} {ks : List Key} :
    k :: ks ∈ matchPaths [t] ↔ ks = [] ∧ (k = .fwc ∨ k = .lit t ∨ k = .pwc) := by
  simp only [matchPaths, List.mem_cons, List.cons.injEq, List.not_mem_nil, or_false]
  tauto

theorem mem_matchPaths_cons_cons {t t' : String} {rest : List String} {k : Key} {ks : List Key} :
    k :: ks ∈ matchPaths (t :: t' :: rest) ↔
      (k = .fwc ∧ ks = []) ∨ ((k = .pwc ∨ k = .lit t) ∧ ks ∈ matchPaths (t' :: rest)) := by
  simp only [matchPaths, List.mem_cons, List.cons.injEq, List.mem_append, List.mem_map]
  constructor
  · rintro (h | ⟨q, hq, h⟩ | ⟨q, hq, h⟩) <;> simp_all
  · rintro (h | ⟨rfl | rfl, hq⟩)
    · exact .inl h
    · exact .inr (.inl ⟨ks, hq, rfl, rfl⟩)
    · exact .inr (.inr ⟨ks, hq, rfl, rfl⟩)

theorem nodup_matchPaths (toks : List String) : (matchPaths toks).Nodup := by
  induction toks with
  | nil => simp [matchPaths]
  | cons t rest ih =>
    cases rest with
    | nil => simp [matchPaths]
    | cons t' rest' =>
      rw [matchPaths, List.nodup_cons, List.nodup_append]
      refine ⟨by simp, List.Nodup.map List.cons_injective ih,
        List.Nodup.map List.cons_injective ih, ?_⟩
      simp only [List.mem_map]
      rintro _ ⟨q, -, rfl⟩ _ ⟨q', -, rfl⟩
      simp

theorem subjectTokens_of_literal {subject : String} (h : IsValidLiteralSubject subject = true) :
    subjectTokens subject = some (tokens subject) := by
  simp only [IsValidLiteralSubject, isValidLiteralSubject, List.all_eq_true, Bool.and_eq_true,
    bne_iff_ne, ne_eq] at h
  simp only [subjectTokens, List.all_eq_true, bne_iff_ne, ne_eq]
  rw [if_pos fun t ht => (h t ht).1.1]

theorem keyPath_mem_matchPaths {toks : List String} (hl : isValidLiteralSubject toks = true)
    (hne : toks ≠ []) (fs : List String) :
    keyPath fs ∈ matchPaths toks ↔ matchTokens fs toks = true := by
  induction toks generalizing fs with
  | nil => exact absurd rfl hne
  | cons t rest ih =>
    obtain ⟨⟨-, ht1, ht2⟩, hrest⟩ := isValidLiteralSubject_cons.mp hl
    cases fs with
    | nil => cases rest <;> simp [matchPaths, matchTokens]
    | cons f fs' =>
      rw [keyPath_cons, matchTokens_cons_cons]
      cases rest with
      | nil =>
        rw [mem_matchPaths_single, keyPath_eq_nil, keyOf_eq_fwc, keyOf_eq_pwc,
          keyOf_eq_lit ⟨ht1, ht2⟩, matchTokens_nil_right]
        tauto
      | cons t' rest' =>
        rw [mem_matchPaths_cons_cons, keyOf_eq_fwc, keyPath_eq_nil, keyOf_eq_pwc,
          keyOf_eq_lit ⟨ht1, ht2⟩, ih hrest (List.cons_ne_nil _ _)]

theorem fwc_last_of_validFilter {toks : List String} (h : validFilter toks = true)
    {q r : List Key} (hp : q ++ .fwc :: r <+: keyPath toks) :
    r = [] ∧ q ++ [.fwc] = keyPath toks := by
  induction toks generalizing q with
  | nil => simp at hp
  | cons t ts ih =>
    simp only [validFilter, Bool.and_eq_true, bne_iff_ne, ne_eq, Bool.or_eq_true,
      List.isEmpty_iff] at h
    obtain ⟨⟨-, hlast⟩, hts⟩ := h
    cases q with
    | nil =>
      obtain ⟨hk, hr⟩ := List.cons_prefix_cons.mp hp
      have ht : t = ">" := keyOf_eq_fwc.mp hk.symm
      obtain rfl : ts = [] := hlast.resolve_left (by simpa using ht)
      exact ⟨List.prefix_nil.mp hr, by simp [hk]⟩
    | cons k q' =>
      obtain ⟨hk, hr⟩ := List.cons_prefix_cons.mp hp
      obtain ⟨rfl, hq'⟩ := ih hts hr
      exact ⟨rfl, by simp [hk, hq']⟩

end Lemmas

end NatsServer.Subject
