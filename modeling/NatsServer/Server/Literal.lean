import NatsServer.Server.Sublist

/-!
# The literal matcher of the cache

`matchLiteral` walks the characters of a subject against those of a literal, skipping a token of
the literal for a `*` token. A subject is the separator-joined list of its tokens; the walk
consumes one token of each (`matchLiteralFrom_token`) and then the separator
(`matchLiteralFrom_dot`), so for a literal with no empty token it answers what `subjectMatches`
answers on the tokens (`matchLiteral_eq_subjectMatches`).
-/

namespace NatsServer.Server

open NatsServer.Subject

def afterToken : List (List Char) → List Char
  | [] => []
  | t :: ts => '.' :: ['.'].intercalate (t :: ts)

-- Generate the equation lemmas of afterToken here, once, before the proofs below unfold them in
-- parallel.
section
attribute [local simp] afterToken
end

theorem intercalate_eq_append_afterToken (l : List Char) (ls : List (List Char)) :
    ['.'].intercalate (l :: ls) = l ++ afterToken ls := by
  cases ls <;> simp [afterToken, List.intercalate_cons_cons]

theorem afterToken_cons (t : List Char) (ts : List (List Char)) :
    afterToken (t :: ts) = '.' :: (t ++ afterToken ts) := by
  rw [afterToken, intercalate_eq_append_afterToken]

theorem not_mem_of_mem_splitOn {xs t : List Char} (ht : t ∈ xs.splitOn '.') : '.' ∉ t := by
  induction xs generalizing t with
  | nil => simp_all
  | cons x xs ih =>
    rw [List.splitOn_cons_eq_if_modifyHead] at ht
    split at ht
    · rcases List.mem_cons.mp ht with rfl | ht
      · simp
      · exact ih ht
    next hx =>
      obtain ⟨h, tl, hsplit⟩ := List.exists_cons_of_ne_nil (List.splitOn_ne_nil '.' xs)
      rw [hsplit, List.modifyHead_cons] at ht
      rcases List.mem_cons.mp ht with rfl | ht
      · have hh : '.' ∉ h := ih (by simp [hsplit])
        simp only [List.mem_cons, not_or]
        exact ⟨fun e => hx (by subst e; rfl), hh⟩
      · exact ih (by simp [hsplit, ht])

/-! ## Matching tokens one at a time -/

theorem matchTokens_cons_cons_of {f t : String} {fs ts : List String} (hf : f ≠ ">" ∨ fs ≠ []) :
    matchTokens (f :: fs) (t :: ts) = ((f == "*" || f == t) && matchTokens fs ts) := by
  rcases hf with hf | hf
  · simp [matchTokens, hf]
  · obtain ⟨f', fs', rfl⟩ := List.exists_cons_of_ne_nil hf
    simp [matchTokens]

theorem matchTokens_cons_nil (f : String) (fs : List String) : matchTokens (f :: fs) [] = false := by
  cases fs <;> simp [matchTokens]

/-! ## The character walk -/

theorem matchLiteralFrom_dot (b : Bool) (lit cs : List Char) :
    matchLiteralFrom b ('.' :: lit) ('.' :: cs) = matchLiteralFrom true lit cs := by
  cases b <;> rfl

theorem dropWhile_append_of_no_dot {l : List Char} (hl : '.' ∉ l) (x : List Char) :
    (l ++ x).dropWhile (· != '.') = x.dropWhile (· != '.') := by
  rw [List.dropWhile_append_of_pos]
  intro a ha
  simpa using fun e : a = '.' => hl (e ▸ ha)

theorem dropWhile_afterToken (ls : List (List Char)) :
    (afterToken ls).dropWhile (· != '.') = afterToken ls := by
  cases ls <;> simp [afterToken]

theorem matchLiteralFrom_star_dot {lit : List Char} (h : lit ≠ []) (cs : List Char) :
    matchLiteralFrom true lit ('*' :: '.' :: cs) =
      matchLiteralFrom false (lit.dropWhile (· != '.')) ('.' :: cs) := by
  obtain ⟨l, ls, rfl⟩ := List.exists_cons_of_ne_nil h
  simp only [matchLiteralFrom]
  rcases hd : (l :: ls).dropWhile (· != '.') with _ | ⟨d, rest⟩
  · rfl
  · have hdot : d = '.' := by
      have := @List.head_dropWhile_not _ (· != '.') (l :: ls) (by simp [hd])
      simpa [hd] using this
    subst hdot
    rw [matchLiteralFrom_dot]

theorem matchLiteralFrom_start {s : List Char} {ss : List (List Char)} (hs : '.' ∉ s)
    (h1 : s ≠ ['*']) (h2 : ¬(s = ['>'] ∧ ss = [])) (lit : List Char) :
    matchLiteralFrom true lit (s ++ afterToken ss) = matchLiteralFrom false lit (s ++ afterToken ss) := by
  rcases lit with _ | ⟨l, ls⟩
  · cases s <;> cases ss <;> simp [afterToken, matchLiteralFrom]
  rcases s with _ | ⟨c, s'⟩
  · cases ss <;> simp [afterToken, matchLiteralFrom]
  by_cases hc : c = '*'
  · subst hc
    rcases s' with _ | ⟨d, s''⟩
    · exact absurd rfl h1
    · have hd : d ≠ '.' := fun e => hs (by simp [e])
      simp [matchLiteralFrom, hd]
  · by_cases hc' : c = '>' ∧ s' = [] ∧ ss = []
    · obtain ⟨rfl, rfl, rfl⟩ := hc'
      exact absurd ⟨rfl, rfl⟩ h2
    · rcases s' with _ | ⟨d, s''⟩
      · rcases ss with _ | ⟨t, ts⟩
        · have : c ≠ '>' := fun e => hc' ⟨e, rfl, rfl⟩
          simp [matchLiteralFrom, hc, this]
        · simp [afterToken, matchLiteralFrom, hc]
      · simp [matchLiteralFrom, hc]

theorem matchLiteralFrom_token {w l : List Char} (hw : '.' ∉ w) (hl : '.' ∉ l)
    (ls ss : List (List Char)) :
    matchLiteralFrom false (l ++ afterToken ls) (w ++ afterToken ss) =
      (w == l && matchLiteralFrom false (afterToken ls) (afterToken ss)) := by
  induction w generalizing l with
  | nil =>
    rcases l with _ | ⟨d, l'⟩
    · simp
    · have hd : d ≠ '.' := fun e => hl (by simp [e])
      cases ss <;> simp [afterToken, matchLiteralFrom, Ne.symm hd]
  | cons c w ih =>
    have hc' : c ≠ '.' := fun e => hw (by simp [e])
    have hc : (c == '.') = false := by simpa using hc'
    rcases l with _ | ⟨d, l'⟩
    · cases ls <;> simp [afterToken, matchLiteralFrom, hc']
    · have hl' : '.' ∉ l' := fun e => hl (List.mem_cons_of_mem _ e)
      by_cases hcd : c = d
      · subst hcd
        simp [matchLiteralFrom, hc, ih (fun e => hw (List.mem_cons_of_mem _ e)) hl']
      · simp [matchLiteralFrom, hcd]

theorem matchLiteralFrom_afterToken (S L : List (List Char)) (hS : ∀ t ∈ S, '.' ∉ t)
    (hL : ∀ t ∈ L, t ≠ [] ∧ '.' ∉ t) :
    matchLiteralFrom false (afterToken L) (afterToken S) =
      matchTokens (S.map String.ofList) (L.map String.ofList) := by
  induction S generalizing L with
  | nil => cases L <;> rfl
  | cons s ss ih =>
    rcases L with _ | ⟨l, ls⟩
    · rw [afterToken_cons, List.map_cons, List.map_nil, matchTokens_cons_nil]
      rfl
    obtain ⟨hl0, hl⟩ := hL l List.mem_cons_self
    have hs : '.' ∉ s := hS s List.mem_cons_self
    have ih' := ih ls (fun t ht => hS t (List.mem_cons_of_mem _ ht))
      (fun t ht => hL t (List.mem_cons_of_mem _ ht))
    obtain ⟨c, l', rfl⟩ := List.exists_cons_of_ne_nil hl0
    have hc : c ≠ '.' := fun e => hl (by simp [e])
    rw [afterToken_cons, afterToken_cons, matchLiteralFrom_dot, List.map_cons, List.map_cons]
    by_cases hstar : s = ['*']
    · -- a `*` token takes the literal's token whole
      subst hstar
      have e : String.ofList ['*'] = "*" := rfl
      rcases ss with _ | ⟨s', ss'⟩
      · have hl' : '.' ∉ l' := fun e => hl (List.mem_cons_of_mem _ e)
        cases ls <;> simp [afterToken, matchLiteralFrom, matchTokens, e, hl', Ne.symm hc]
      · rw [e, matchTokens_cons_cons_of (.inl (by decide)), ← ih', List.singleton_append,
          afterToken_cons, matchLiteralFrom_star_dot (by simp),
          dropWhile_append_of_no_dot hl, dropWhile_afterToken, ← afterToken_cons]
        rfl
    · by_cases hfwc : s = ['>'] ∧ ss = []
      · -- a last `>` takes whatever is left
        obtain ⟨rfl, rfl⟩ := hfwc
        simp [afterToken, matchLiteralFrom, matchTokens]
      · -- any other token is compared with the literal's, character by character
        have hne : String.ofList s ≠ ">" ∨ (ss.map String.ofList) ≠ [] := by
          by_cases h : ss = []
          · left
            intro e
            exact hfwc ⟨String.ofList_inj.mp (e.trans rfl), h⟩
          · exact .inr (by simpa using h)
        have hstar' : (String.ofList s == "*") = false := by
          simpa using fun e : String.ofList s = "*" => hstar (String.ofList_inj.mp (e.trans rfl))
        have hof : (String.ofList s == String.ofList (c :: l')) = (s == c :: l') := by
          rw [Bool.eq_iff_iff]
          simp only [beq_iff_eq, String.ofList_inj]
        rw [matchLiteralFrom_start hs hstar hfwc, matchLiteralFrom_token hs hl ls ss, ih',
          matchTokens_cons_cons_of hne, hstar', Bool.false_or, hof]

/-- For a literal subject the character walk of the cache and the token match agree, whatever
the subject: a `*` or `>` that is not a whole token, and a `>` before the last token, are
compared as characters by both. -/
theorem matchLiteral_eq_subjectMatches (literal subject : String)
    (hl : IsValidLiteralSubject literal = true) :
    matchLiteral literal subject = subjectMatches subject literal := by
  have hL : ∀ t ∈ literal.toList.splitOn '.', t ≠ [] ∧ '.' ∉ t := by
    intro t ht
    have hall := List.all_eq_true.mp hl (String.ofList t) (List.mem_map_of_mem ht)
    refine ⟨fun e => ?_, not_mem_of_mem_splitOn ht⟩
    simp [e] at hall
  obtain ⟨s, ss, hs⟩ := List.exists_cons_of_ne_nil (List.splitOn_ne_nil '.' subject.toList)
  obtain ⟨l, ls, hls⟩ := List.exists_cons_of_ne_nil (List.splitOn_ne_nil '.' literal.toList)
  have h := matchLiteralFrom_afterToken (s :: ss) (l :: ls)
    (fun t ht => not_mem_of_mem_splitOn (hs ▸ ht)) (fun t ht => hL t (hls ▸ ht))
  rw [afterToken_cons, afterToken_cons, matchLiteralFrom_dot, ← intercalate_eq_append_afterToken,
    ← intercalate_eq_append_afterToken, ← hs, ← hls, List.intercalate_splitOn,
    List.intercalate_splitOn] at h
  exact h

theorem matchLiteral_eq_subjectMatches_foo :
    IsValidLiteralSubject "foo.bar" = true ∧
      matchLiteral "foo.bar" "foo.*" = subjectMatches "foo.*" "foo.bar" := by
  have h : IsValidLiteralSubject "foo.bar" = true := by decide
  exact ⟨h, matchLiteral_eq_subjectMatches "foo.bar" "foo.*" h⟩

end NatsServer.Server
