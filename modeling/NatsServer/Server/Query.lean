import NatsServer.Server.Calls

/-!
# Interest counts and the reverse match

`NumInterest` counts the subscriptions of the nodes the interest walk looks at, and that walk
stops at the first `>` node; `Match` collects every matching node, so the counts fall short
where a `>` filter and a longer one both match. `ReverseMatch` walks the trie with a pattern
that may hold wildcards; at the end of a walk through a `*` slot it adds the node of the
token before, not the `*` node, and `getAllNodes` does not descend below `*` and `>` nodes.
-/

namespace NatsServer.Server

open NatsServer.Lib NatsServer.Subject

namespace Sublist

mutual

def allBelowNode : Node NodeSubs → SublistResult → SublistResult
  | ⟨n, next⟩, r =>
    allBelowLevel next (addAt (fun r n => addNodeToResults n r) next .fwc
      (addAt (fun r n => addNodeToResults n r) next .pwc (addNodeToResults n r)))

def allBelowLevel : Level NodeSubs → SublistResult → SublistResult
  | [], r => r
  | e :: rest, r => allBelowLevel rest (allBelowEntry e r)

def allBelowEntry : Key × Node NodeSubs → SublistResult → SublistResult
  | (.lit _, n), r => allBelowNode n r
  | _, r => r

end

def getAllNodes (l : Level NodeSubs) (r : SublistResult) : SublistResult :=
  allBelowLevel l (addAt (fun r n => addNodeToResults n r) l .fwc
    (addAt (fun r n => addNodeToResults n r) l .pwc r))

def reverseMatchLevel : Level NodeSubs → List String → Option NodeSubs → SublistResult →
    SublistResult
  | _, [], n, r =>
    match n with
    | some n => addNodeToResults n r
    | none => r
  | l, t :: rest, n, r =>
    if t = ">" then getAllNodes l r
    else if t = "*" then
      let r := l.foldl (fun r e =>
        match e with
        | (.lit _, c) => reverseMatchLevel c.children rest (some c.payload) r
        | _ => r) r
      -- the walk below the `*` node passes on the node of the token before
      let r :=
        match Assoc.find .pwc l with
        | some p => reverseMatchLevel p.children rest n r
        | none => r
      match Assoc.find .fwc l with
      | some _ => getAllNodes l r
      | none => r
    else
      match Assoc.find .fwc l with
      | some _ => getAllNodes l r
      | none =>
        let r :=
          match Assoc.find .pwc l with
          | some p => reverseMatchLevel p.children rest n r
          | none => r
        match Assoc.find (.lit t) l with
        | some c => reverseMatchLevel c.children rest (some c.payload) r
        | none => r

def ReverseMatch (s : Sublist) (subject : String) : SublistResult :=
  let result := reverseMatchLevel s.root (tokens subject) none emptyResult
  if result.psubs.length == 0 && result.qsubs.length == 0 then emptyResult else result

/-- With subscriptions on `foo.>` and `foo.bar`, `Match` of `foo.bar` returns both, and the
counts of `NumInterest` are those of the `>` node alone; once `Match` has filled the cache,
`NumInterest` counts both. -/
theorem NumInterest_fwc_stop :
    ((((NewSublist true).Insert ⟨1, "foo.>", none, false, 1⟩).1.Insert
        ⟨2, "foo.bar", none, false, 1⟩).1.Match "foo.bar").1.psubs.length = 2 ∧
      (((NewSublist true).Insert ⟨1, "foo.>", none, false, 1⟩).1.Insert
        ⟨2, "foo.bar", none, false, 1⟩).1.NumInterest "foo.bar" = (1, 0) ∧
      ((((NewSublist true).Insert ⟨1, "foo.>", none, false, 1⟩).1.Insert
        ⟨2, "foo.bar", none, false, 1⟩).1.Match "foo.bar").2.NumInterest "foo.bar" = (2, 0) := by
  decide +kernel

/-- With subscriptions on `foo` and `foo.*`, the reverse match of `foo.bar` returns the one on
`foo`, which no subject of `foo.bar` matches, and misses the one on `foo.*`. -/
theorem ReverseMatch_pwc_previous :
    (((NewSublist false).Insert ⟨1, "foo", none, false, 1⟩).1.Insert
        ⟨2, "foo.*", none, false, 1⟩).1.ReverseMatch "foo.bar" = ⟨[⟨1, "foo", none, false, 1⟩], []⟩ ∧
      subjectMatches "foo.*" "foo.bar" = true ∧ subjectMatches "foo" "foo.bar" = false := by
  decide +kernel

end Sublist

end NatsServer.Server
