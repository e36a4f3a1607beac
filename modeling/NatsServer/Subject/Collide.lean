import NatsServer.Subject.Tokens

/-!
# Subset and collision of subjects

`SubjectMatchesFilter` and `SubjectsCollide` of sublist.go compare two subjects that may both
hold wildcards. Both read a token as a wildcard by its first byte in places where the trie
reads it as a wildcard only when it is exactly `*` or `>`: a test token such as `*x` counts as
`*` in `isSubsetMatchTokenized`, and any token starting with `*` or `>` can match in
`tokensCanMatch`.
-/

namespace NatsServer.Subject

/-- analyzeTokens: whether a token is exactly `*`, and whether one is exactly `>` (the source
skips tokens whose length is not one). -/
def analyzeTokens (toks : List String) : Bool × Bool :=
  (toks.any (· == "*"), toks.any (· == ">"))

def tokensCanMatch (t1 t2 : String) : Bool :=
  match t1.toList, t2.toList with
  | c1 :: _, c2 :: _ => c1 == '*' || c2 == '*' || c1 == '>' || c2 == '>' || t1 == t2
  | _, _ => false

def SubjectsCollide (subj1 subj2 : String) : Bool :=
  if subj1 == subj2 then true
  else
    let toks1 := tokens subj1
    let toks2 := tokens subj2
    let (pwc1, fwc1) := analyzeTokens toks1
    let (pwc2, fwc2) := analyzeTokens toks2
    let l1 := !(pwc1 || fwc1)
    let l2 := !(pwc2 || fwc2)
    if l1 && l2 then subj1 == subj2
    else if l1 && !l2 then isSubsetMatchTokenized toks1 toks2
    else if l2 && !l1 then isSubsetMatchTokenized toks2 toks1
    else if !fwc1 && !fwc2 && toks1.length != toks2.length then false
    else if toks1.length != toks2.length &&
        (toks1.length < toks2.length && !fwc1 || toks2.length < toks1.length && !fwc2) then false
    -- the loop up to the shorter length looks for a pair of tokens that cannot match
    else (toks1.zip toks2).all fun p => tokensCanMatch p.1 p.2

def subjectIsSubsetMatch (subject test : String) : Bool := isSubsetMatch (tokens subject) test

def SubjectMatchesFilter (subject filter : String) : Bool := subjectIsSubsetMatch subject filter

def Covers (subject literal : String) : Prop :=
  IsValidLiteralSubject literal = true ∧ subjectMatches subject literal = true

theorem tokens_first_of_covers {subject literal : String} {t : String} {rest : List String}
    (hs : tokens subject = t :: rest) (ht : t ≠ "*" ∧ t ≠ ">") (h : Covers subject literal) :
    ∃ ts, tokens literal = t :: ts := by
  obtain ⟨l, ls, hl⟩ := List.exists_cons_of_ne_nil (tokens_ne_nil literal)
  have hm := h.2
  rw [subjectMatches, hs, hl, matchTokens_cons_cons] at hm
  rcases hm with ⟨e, -⟩ | ⟨e | e, -⟩
  · exact absurd e ht.2
  · exact absurd e ht.1
  · exact ⟨ls, e ▸ hl⟩

/-- The token `*x` of the filter is read as `*`: `foo` is found a subset of `*x`, though the
filter matches no subject whose first token is not `*x`. -/
theorem SubjectMatchesFilter_star_prefix :
    validFilter (tokens "foo") = true ∧ validFilter (tokens "*x") = true ∧
      SubjectMatchesFilter "foo" "*x" = true ∧ Covers "foo" "foo" ∧ ¬ Covers "*x" "foo" := by
  refine ⟨by decide, by decide, by decide, ⟨by decide, by decide⟩, ?_⟩
  rintro ⟨-, h⟩
  exact absurd h (by decide)

/-- `foo.bar` and `*x.>` collide by `SubjectsCollide`, though no literal subject is matched by
both: every subject `*x.>` matches starts with the token `*x`. -/
theorem SubjectsCollide_star_prefix :
    validFilter (tokens "foo.bar") = true ∧ validFilter (tokens "*x.>") = true ∧
      SubjectsCollide "foo.bar" "*x.>" = true ∧
      ¬ ∃ literal, Covers "foo.bar" literal ∧ Covers "*x.>" literal := by
  refine ⟨by decide, by decide, by decide, ?_⟩
  rintro ⟨literal, h1, h2⟩
  obtain ⟨ts, hts⟩ := @tokens_first_of_covers _ _ "foo" ["bar"] (by decide) (by decide) h1
  obtain ⟨ts', hts'⟩ := @tokens_first_of_covers _ _ "*x" [">"] (by decide) (by decide) h2
  rw [hts] at hts'
  exact absurd (List.cons.inj hts').1 (by decide)

end NatsServer.Subject
