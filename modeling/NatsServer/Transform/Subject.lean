import NatsServer.Lib.Strconv
import NatsServer.Subject.Tokens
import Mathlib.Algebra.GroupWithZero.Nat

/-!
# Subject transforms

A subject transform maps the subjects its source matches to subjects built from its
destination: a destination token is a literal, a placeholder `$n` or `{{wildcard(n)}}` for the
token of the `n`-th `*` of the source, or another mapping function of source tokens. The
constructor `NewSubjectTransformWithStrict` classifies every destination token
(`indexPlaceHolders`), resolves wildcard numbers to source positions and, when strict, admits
only literals and wildcard placeholders, which it counts against the source's `*` tokens.
`reverse` builds the transform back from the destination.

The mapping-function regexes `{{\s*name\s*\((.*)\)\s*}}` are modelled by their leftmost
match with the greedy group (`findFunction`); `Random` takes its draws from a function of the
destination position.
-/

namespace NatsServer.Transform

open NatsServer.Lib NatsServer.Subject

inductive TransformType
  | NoTransform
  | BadTransform
  | Partition
  | Wildcard
  | SplitFromLeft
  | SplitFromRight
  | SliceFromLeft
  | SliceFromRight
  | Split
  | Left
  | Right
  | Random
  deriving DecidableEq, Repr

inductive MappingError
  | notSupportedForImport
  | indexOutOfRange
  | notUsingAllWildcards
  | notEnoughArgs
  | tooManyArgs
  | invalidArg
  | unknownFunction
  deriving DecidableEq, Repr

inductive TransformError
  | badSubject
  | noTransforms
  | mappingDestination (token : String) (err : MappingError)
  deriving DecidableEq, Repr

structure PlaceHolder where
  transformType : TransformType
  indexes : List Int
  intArg : Int32
  stringArg : String
  deriving DecidableEq, Repr

structure SubjectTransform where
  src : String
  dest : String
  dtoks : List String
  stoks : List String
  dtokmf : List PlaceHolder
  deriving DecidableEq, Repr

section Regex

def isSpace (c : Char) : Bool := c == ' ' || c == '\t' || c == '\n' || c == '\x0c' || c == '\r'

def nameClasses (name : String) : List (List Char) :=
  name.toList.map fun c => if c.isUpper then [c.toLower, c] else [c]

def matchClasses : List (List Char) → List Char → Option (List Char)
  | [], cs => some cs
  | _ :: _, [] => none
  | cls :: name, c :: cs => if c ∈ cls then matchClasses name cs else none

def groupEnd (rest : List Char) (k : Nat) : Bool :=
  rest.getD k ' ' == ')' && !(rest.take k).contains '\n' &&
    ((rest.drop (k + 1)).dropWhile isSpace).take 2 == ['}', '}']

/-- The greedy group `(.*)` of `\((.*)\)\s*}}` after the parenthesis: up to the last closing
parenthesis the rest of the pattern follows. -/
def greedyGroup (rest : List Char) : Option (List Char) :=
  ((List.range rest.length).reverse.find? (groupEnd rest)).map rest.take

def matchFunctionAt (name : List (List Char)) : List Char → Option (List Char)
  | '{' :: '{' :: cs =>
    match matchClasses name (cs.dropWhile isSpace) with
    | some r =>
      match r.dropWhile isSpace with
      | '(' :: rest => greedyGroup rest
      | _ => none
    | none => none
  | _ => none

def findFunction (name : List (List Char)) : List Char → Option (List Char)
  | [] => none
  | c :: cs => (matchFunctionAt name (c :: cs)).orElse fun _ => findFunction name cs

def splitArgs (group : List Char) : List String :=
  match group.splitOn ',' with
  | [] => []
  | p :: ps => String.ofList p :: ps.map fun q => String.ofList (q.dropWhile isSpace)

def getMappingFunctionArgs (functionRegEx : List (List Char)) (token : String) :
    Option (List String) :=
  (findFunction functionRegEx token.toList).map splitArgs

def partitionMappingFunctionRegEx : List (List Char) := nameClasses "Partition"
def wildcardMappingFunctionRegEx : List (List Char) := nameClasses "Wildcard"
def splitFromLeftMappingFunctionRegEx : List (List Char) := nameClasses "SplitFromLeft"
def splitFromRightMappingFunctionRegEx : List (List Char) := nameClasses "SplitFromRight"
def sliceFromLeftMappingFunctionRegEx : List (List Char) := nameClasses "SliceFromLeft"
def sliceFromRightMappingFunctionRegEx : List (List Char) := nameClasses "SliceFromRight"
def splitMappingFunctionRegEx : List (List Char) := nameClasses "Split"
def leftMappingFunctionRegEx : List (List Char) := nameClasses "Left"
def rightMappingFunctionRegEx : List (List Char) := nameClasses "Right"
def randomMappingFunctionRegEx : List (List Char) := nameClasses "Random"

example : getMappingFunctionArgs wildcardMappingFunctionRegEx "{{ Wildcard( 2 ) }}" = some [" 2 "] ∧
    getMappingFunctionArgs partitionMappingFunctionRegEx "{{partition(3, 1,2)}}" =
      some ["3", "1", "2"] ∧
    getMappingFunctionArgs wildcardMappingFunctionRegEx "{{split(1,-)}}" = none := by
  decide +kernel

end Regex

section PlaceHolders

def trimBlanks (s : String) : String := Strings.trim s [' ']

def maxInt32 : Int := 2147483647

def transformIndexIntArgsHelper (token : String) (args : List String)
    (transformType : TransformType) : Except TransformError PlaceHolder :=
  if args.length < 2 then .error (.mappingDestination token .notEnoughArgs)
  else if args.length > 2 then .error (.mappingDestination token .tooManyArgs)
  else
    match Strconv.atoi (trimBlanks (args.getD 0 "")), Strconv.parseInt (trimBlanks (args.getD 1 "")) 32 with
    | some i, some m => .ok ⟨transformType, [i], Int32.ofInt m, ""⟩
    | _, _ => .error (.mappingDestination token .invalidArg)

def wildcardArgs (token : String) (args : List String) : Except TransformError PlaceHolder :=
  if args.length = 1 ∧ args.getD 0 "" = "" then .error (.mappingDestination token .notEnoughArgs)
  else if args.length = 1 then
    match Strconv.atoi (trimBlanks (args.getD 0 "")) with
    | some tokenIndex => .ok ⟨.Wildcard, [tokenIndex], -1, ""⟩
    | none => .error (.mappingDestination token .invalidArg)
  else .error (.mappingDestination token .tooManyArgs)

def partitionArgs (token : String) (args : List String) : Except TransformError PlaceHolder :=
  if args.length < 1 then .error (.mappingDestination token .notEnoughArgs)
  else
    match Strconv.atoi (trimBlanks (args.getD 0 "")) with
    | none => .error (.mappingDestination token .invalidArg)
    | some n =>
      if n > maxInt32 then .error (.mappingDestination token .invalidArg)
      else if args.length = 1 then .ok ⟨.Partition, [], Int32.ofInt n, ""⟩
      else
        match (args.drop 1).mapM fun t => Strconv.atoi (trimBlanks t) with
        | some tokenIndexes => .ok ⟨.Partition, tokenIndexes, Int32.ofInt n, ""⟩
        | none => .error (.mappingDestination token .invalidArg)

def splitArgsOf (token : String) (args : List String) : Except TransformError PlaceHolder :=
  if args.length < 2 then .error (.mappingDestination token .notEnoughArgs)
  else if args.length > 2 then .error (.mappingDestination token .tooManyArgs)
  else
    match Strconv.atoi (trimBlanks (args.getD 0 "")) with
    | none => .error (.mappingDestination token .invalidArg)
    | some i =>
      if Strings.contains (args.getD 1 "") " " || Strings.contains (args.getD 1 "") "." then
        .error (.mappingDestination token .invalidArg)
      else .ok ⟨.Split, [i], -1, args.getD 1 ""⟩

def randomArgs (token : String) (args : List String) : Except TransformError PlaceHolder :=
  if args.length ≠ 1 then .error (.mappingDestination token .notEnoughArgs)
  else
    match Strconv.atoi (trimBlanks (args.getD 0 "")) with
    | some n =>
      if n > maxInt32 then .error (.mappingDestination token .invalidArg)
      else .ok ⟨.Random, [], Int32.ofInt n, ""⟩
    | none => .error (.mappingDestination token .invalidArg)

def mappingFunctions (token : String) :
    List (List (List Char) × (List String → Except TransformError PlaceHolder)) :=
  [(wildcardMappingFunctionRegEx, wildcardArgs token),
   (partitionMappingFunctionRegEx, partitionArgs token),
   (splitFromLeftMappingFunctionRegEx, fun args => transformIndexIntArgsHelper token args .SplitFromLeft),
   (splitFromRightMappingFunctionRegEx, fun args => transformIndexIntArgsHelper token args .SplitFromRight),
   (sliceFromLeftMappingFunctionRegEx, fun args => transformIndexIntArgsHelper token args .SliceFromLeft),
   (sliceFromRightMappingFunctionRegEx, fun args => transformIndexIntArgsHelper token args .SliceFromRight),
   (rightMappingFunctionRegEx, fun args => transformIndexIntArgsHelper token args .Right),
   (leftMappingFunctionRegEx, fun args => transformIndexIntArgsHelper token args .Left),
   (splitMappingFunctionRegEx, splitArgsOf token),
   (randomMappingFunctionRegEx, randomArgs token)]

def firstMapping (token : String) :
    List (List (List Char) × (List String → Except TransformError PlaceHolder)) →
      Except TransformError PlaceHolder
  | [] => .error (.mappingDestination token .unknownFunction)
  | (functionRegEx, handle) :: rest =>
    match getMappingFunctionArgs functionRegEx token with
    | some args => handle args
    | none => firstMapping token rest

def indexPlaceHolders (token : String) : Except TransformError PlaceHolder :=
  let cs := token.toList
  let length := cs.length
  if length > 1 then
    -- the old $1, $2 format; other tokens starting with $ stay literal
    if cs.head? = some '$' then
      match Strconv.atoi (String.ofList cs.tail) with
      | some tp => .ok ⟨.Wildcard, [tp], -1, ""⟩
      | none => .ok ⟨.NoTransform, [-1], -1, ""⟩
    else if length > 4 ∧ cs.take 2 = ['{', '{'] ∧ cs.drop (length - 2) = ['}', '}'] then
      firstMapping token (mappingFunctions token)
    else .ok ⟨.NoTransform, [-1], -1, ""⟩
  else .ok ⟨.NoTransform, [-1], -1, ""⟩

example : indexPlaceHolders "$2" = .ok ⟨.Wildcard, [2], -1, ""⟩ ∧
    indexPlaceHolders "$foo" = .ok ⟨.NoTransform, [-1], -1, ""⟩ ∧
    indexPlaceHolders "{{splitFromLeft(1,3)}}" = .ok ⟨.SplitFromLeft, [1], 3, ""⟩ ∧
    indexPlaceHolders "{{unimplemented(1)}}" =
      .error (.mappingDestination "{{unimplemented(1)}}" .unknownFunction) := by
  decide +kernel

end PlaceHolders

section Constructor

/-- The loop of subjectInfo over the tokens: the number of `*` tokens and whether a `>` was
seen, or none for an invalid subject. -/
def subjectInfoLoop : List String → Nat → Bool → Option (Nat × Bool)
  | [], npwcs, sfwc => some (npwcs, sfwc)
  | t :: ts, npwcs, sfwc =>
    if t.length = 0 ∨ sfwc then none
    else if t.length > 1 then subjectInfoLoop ts npwcs sfwc
    else if t = ">" then subjectInfoLoop ts npwcs true
    else if t = "*" then subjectInfoLoop ts (npwcs + 1) sfwc
    else subjectInfoLoop ts npwcs sfwc

def subjectInfo (subject : String) : Option (List String × Nat × Bool) :=
  if subject = "" then none
  else (subjectInfoLoop (tokens subject) 0 false).map fun r => (tokens subject, r.1, r.2)

def sti (stokens : List String) (k : Int) : Int :=
  let positions := (List.range stokens.length).filter fun i => stokens.getD i "" = "*"
  if 1 ≤ k then ((positions[(k - 1).toNat]?).map Int.ofNat).getD 0 else 0

def mapToken (strict : Bool) (stokens : List String) (npwcs : Nat) (token : String) :
    Except TransformError (PlaceHolder × Nat) := do
  let ph ← indexPlaceHolders token
  if strict ∧ ph.transformType ≠ .NoTransform ∧ ph.transformType ≠ .Wildcard then
    throw (.mappingDestination token .notSupportedForImport)
  if ph.transformType = .NoTransform then return (⟨.NoTransform, [-1], -1, ""⟩, 0)
  else if ph.transformType = .Random then return (⟨.Random, [], ph.intArg, ""⟩, 0)
  else
    let stis ← ph.indexes.mapM fun (wildcardIndex : Int) =>
      if wildcardIndex > (npwcs : Int) then
        throw (.mappingDestination (token ++ ": [" ++ Strconv.itoa wildcardIndex ++ "]")
          .indexOutOfRange)
      else pure (sti stokens wildcardIndex)
    return (⟨ph.transformType, stis, ph.intArg, ph.stringArg⟩, ph.indexes.length)

def mapLiteralToken (token : String) : Except TransformError PlaceHolder := do
  let ph ← indexPlaceHolders token
  if ph.transformType = .NoTransform then return ⟨.NoTransform, [-1], -1, ""⟩
  else if ph.transformType = .Random ∨ ph.transformType = .Partition then
    return ⟨ph.transformType, [], ph.intArg, ""⟩
  else throw (.mappingDestination token .indexOutOfRange)

def NewSubjectTransformWithStrict (src dest : String) (strict : Bool) :
    Except TransformError (Option SubjectTransform) :=
  if dest = "" then .ok none
  else
    -- no source is the source `>`
    let src := if src = "" then ">" else src
    match subjectInfo src, subjectInfo dest with
    | some (stokens, npwcs, hasFwc), some (dtokens, dnpwcs, dHasFwc) =>
      if dnpwcs > 0 ∨ hasFwc ≠ dHasFwc then .error .badSubject
      else if npwcs > 0 ∨ hasFwc then do
        let phs ← dtokens.mapM (mapToken strict stokens npwcs)
        if strict ∧ (phs.map Prod.snd).sum < npwcs then
          throw (.mappingDestination dest .notUsingAllWildcards)
        return some ⟨src, dest, dtokens, stokens, phs.map Prod.fst⟩
      else do
        let phs ← dtokens.mapM mapLiteralToken
        return some ⟨src, dest, dtokens, stokens, phs⟩
    | _, _ => .error .badSubject

def NewSubjectTransform (src dest : String) : Except TransformError (Option SubjectTransform) :=
  NewSubjectTransformWithStrict src dest false

def NewSubjectTransformStrict (src dest : String) : Except TransformError (Option SubjectTransform) :=
  NewSubjectTransformWithStrict src dest true

end Constructor

section Apply

def fnv32a (bytes : List UInt8) : UInt32 :=
  bytes.foldl (fun h b => (h ^^^ b.toUInt32) * 16777619) 2166136261

def getHashPartition (key : List UInt8) (numBuckets : Int) : String :=
  if numBuckets = 0 then "0"
  else Strconv.itoa (fnv32a key % UInt32.ofNat (numBuckets % 4294967296).toNat).toNat

def getRandomPartition (ceiling : Int) (r : Nat) : String :=
  if ceiling = 0 then "0" else Strconv.itoa (Int.tmod r ceiling)

def stringBytes (s : String) : List UInt8 := s.toList.flatMap String.utf8EncodeChar

def splitFromLeft (t : List UInt8) (position : Int) : List UInt8 :=
  if 0 < position ∧ position < t.length then
    t.take position.toNat ++ [0x2E] ++ t.drop position.toNat
  else t

def splitFromRight (t : List UInt8) (position : Int) : List UInt8 :=
  if 0 < position ∧ position < t.length then
    t.take (t.length - position.toNat) ++ [0x2E] ++ t.drop (t.length - position.toNat)
  else t

def sliceFromLeftLoop (k : Nat) (first : Bool) : Nat → List UInt8 → List UInt8
  | 0, _ => []
  | fuel + 1, cs =>
    if k ≤ cs.length then
      let sep := if first then [] else [0x2E]
      -- the piece after the last full slice goes out with it
      if cs.length ≠ k ∧ k + k > cs.length then sep ++ cs.take k ++ [0x2E] ++ cs.drop k
      else sep ++ cs.take k ++ sliceFromLeftLoop k false fuel (cs.drop k)
    else []

def sliceFromLeft (t : List UInt8) (sliceSize : Int) : List UInt8 :=
  if 0 < sliceSize ∧ sliceSize < t.length then sliceFromLeftLoop sliceSize.toNat true (t.length + 1) t
  else t

def sliceFromRightLoop (k : Nat) : Nat → List UInt8 → List UInt8
  | 0, _ => []
  | fuel + 1, cs =>
    if k ≤ cs.length then
      cs.take k ++ (if k < cs.length then [0x2E] else []) ++ sliceFromRightLoop k fuel (cs.drop k)
    else []

def sliceFromRight (t : List UInt8) (sliceSize : Int) : List UInt8 :=
  if 0 < sliceSize ∧ sliceSize < t.length then
    let remainder := t.length % sliceSize.toNat
    (if remainder > 0 then t.take remainder ++ [0x2E] else []) ++
      sliceFromRightLoop sliceSize.toNat (t.length + 1) (t.drop remainder)
  else t

def splitLoop : Nat → List String → String
  | _, [] => ""
  | j, split :: rest =>
    let sep := match rest with
      | next :: _ => if next ≠ "" ∧ ¬(j = 0 ∧ split = "") then "." else ""
      | [] => ""
    split ++ sep ++ splitLoop (j + 1) rest

theorem splitLoop_replicate_empty (j n : Nat) : splitLoop j (List.replicate n "") = "" := by
  induction n generalizing j with
  | zero => rfl
  | succ n ih =>
    rw [List.replicate_succ]
    unfold splitLoop
    rw [ih]
    cases n <;> simp [List.replicate_succ]

def left (t : List UInt8) (sliceSize : Int) : List UInt8 :=
  if 0 < sliceSize ∧ sliceSize < t.length then t.take sliceSize.toNat else t

def right (t : List UInt8) (sliceSize : Int) : List UInt8 :=
  if 0 < sliceSize ∧ sliceSize < t.length then t.drop (t.length - sliceSize.toNat) else t

/-- What destination token `i` writes, from the subject's tokens; `rand i` is its draw. The
length-based cuts slice the token's bytes, as Go slices a string. -/
def writeToken (tokens : List String) (rand : Nat → Nat) (i : Nat) (dtok : String)
    (ph : PlaceHolder) : List UInt8 :=
  let sourceToken := stringBytes (tokens.getD ((ph.indexes.getD 0 0).toNat) "")
  match ph.transformType with
  | .NoTransform => stringBytes dtok
  | .Partition =>
    let key := if ph.indexes.length > 0 then (ph.indexes.map fun j => tokens.getD j.toNat "").foldl
        (fun acc t => acc ++ t.toUTF8.toList) []
      else (String.intercalate "." tokens).toUTF8.toList
    stringBytes (getHashPartition key ph.intArg.toInt)
  | .Wildcard =>
    match ph.indexes with
    | [] => []
    | j :: _ => if tokens.length ≤ j then [] else stringBytes (tokens.getD j.toNat "")
  | .SplitFromLeft => splitFromLeft sourceToken ph.intArg.toInt
  | .SplitFromRight => splitFromRight sourceToken ph.intArg.toInt
  | .SliceFromLeft => sliceFromLeft sourceToken ph.intArg.toInt
  | .SliceFromRight => sliceFromRight sourceToken ph.intArg.toInt
  | .Split => stringBytes (splitLoop 0 (Strings.split (tokens.getD ((ph.indexes.getD 0 0).toNat) "")
      ph.stringArg))
  | .Left => left sourceToken ph.intArg.toInt
  | .Right => right sourceToken ph.intArg.toInt
  | .Random => stringBytes (getRandomPartition ph.intArg.toInt (rand i))
  | .BadTransform => []

/-- The loop of TransformTokenizedSubject over the destination tokens from position `i`; it
breaks at the destination's `>`. -/
def transformLoop (tokens : List String) (rand : Nat → Nat) (li : Nat) :
    Nat → List (String × PlaceHolder) → List UInt8
  | _, [] => []
  | i, (dtok, ph) :: rest =>
    if ph.transformType = .NoTransform ∧ dtok = ">" then []
    else writeToken tokens rand i dtok ph ++ (if i < li then [0x2E] else []) ++
      transformLoop tokens rand li (i + 1) rest

namespace SubjectTransform

def TransformTokenizedSubject (tr : SubjectTransform) (rand : Nat → Nat)
    (tokens : List String) : List UInt8 :=
  if tr.dtokmf.length = 0 then stringBytes tr.dest
  else
    let body := transformLoop tokens rand (tr.dtokmf.length - 1) 0 (tr.dtoks.zip tr.dtokmf)
    -- the tokens a source `>` matched follow, in order
    if tr.dtoks.getLast? = some ">" then
      body ++ stringBytes (String.intercalate "." (tokens.drop (tr.stoks.length - 1)))
    else body

def TransformSubject (tr : SubjectTransform) (rand : Nat → Nat) (subject : String) : List UInt8 :=
  tr.TransformTokenizedSubject rand (tokens subject)

def Match (tr : SubjectTransform) (rand : Nat → Nat) (subject : String) :
    Except TransformError (List UInt8) :=
  if (tr.src = ">" ∨ tr.src = "") ∧ (tr.dest = ">" ∨ tr.dest = "") then .ok (stringBytes subject)
  else
    let tts := tokens subject
    if !isValidLiteralSubject tts then .error .badSubject
    else if (tr.src = "" ∨ tr.src = ">") ∨ isSubsetMatch tts tr.src then
      .ok (tr.TransformTokenizedSubject rand tts)
    else .error .noTransforms

end SubjectTransform

end Apply

/-- With the destination `bar.{{split(1,-)}}`, a subject `foo.t` whose second token is made of
`-` only maps to `bar.`: the split of `t` is all empty pieces, which write nothing, and the
separator after `bar` is written all the same. -/
theorem Match_split_delimiters (rand : Nat → Nat) (k : Nat) (hk : 0 < k) :
    ((NewSubjectTransform "foo.*" "bar.{{split(1,-)}}").map fun o => o.map fun tr =>
      tr.Match rand ("foo." ++ String.ofList (List.replicate k '-'))) = .ok (some (.ok (stringBytes "bar."))) ∧
      IsValidLiteralSubject ("foo." ++ String.ofList (List.replicate k '-')) = true ∧
      IsValidLiteralSubject "bar." = false := by
  set t := String.ofList (List.replicate k '-')
  have htr : NewSubjectTransform "foo.*" "bar.{{split(1,-)}}" = .ok (some
      ⟨"foo.*", "bar.{{split(1,-)}}", ["bar", "{{split(1,-)}}"], ["foo", "*"],
        [⟨.NoTransform, [-1], -1, ""⟩, ⟨.Split, [1], -1, "-"⟩]⟩) := by decide +kernel
  have htoks : tokens ("foo." ++ t) = ["foo", t] := by
    have hdot : '.' ∉ List.replicate k '-' := by simp [List.mem_replicate]
    simp only [tokens, t, String.toList_append, String.toList_ofList]
    rw [show "foo.".toList = ['f', 'o', 'o'] ++ ['.'] from rfl, List.append_assoc,
      List.singleton_append, List.splitOn_append_cons_self_of_not_mem (by decide),
      List.splitOn_eq_singleton hdot]
    rfl
  have ht : t.length ≠ 0 ∧ t ≠ "*" ∧ t ≠ ">" := by
    refine ⟨by simp [t]; omega, fun h => ?_, fun h => ?_⟩ <;>
    · have := congrArg (fun s : String => s.toList.head?) h
      simp [t, List.head?_replicate, Nat.pos_iff_ne_zero.mp hk] at this
  have hvalid : isValidLiteralSubject ["foo", t] = true := by
    simp [isValidLiteralSubject, ht]
  have hsub : isSubsetMatch ["foo", t] "foo.*" = true := by
    have hsrc : tokens "foo.*" = ["foo", "*"] := by decide
    simp [isSubsetMatch, hsrc, isSubsetMatchTokenized, ht]
  have hsplit : Strings.split t "-" = List.replicate (k + 1) "" := by
    simp [t, Strings.split, Strings.splitSep_replicate]
  refine ⟨?_, by rw [IsValidLiteralSubject, htoks, hvalid], by decide⟩
  rw [htr]
  simp [Except.map, SubjectTransform.Match, htoks, hvalid, hsub,
    SubjectTransform.TransformTokenizedSubject, transformLoop, writeToken, hsplit,
    splitLoop_replicate_empty]
  rfl

theorem Match_split_delimiters_dash :
    0 < 1 ∧
      ((NewSubjectTransform "foo.*" "bar.{{split(1,-)}}").map fun o => o.map fun tr =>
        tr.Match (fun _ => 0) ("foo." ++ String.ofList (List.replicate 1 '-'))) =
          .ok (some (.ok (stringBytes "bar."))) ∧
      IsValidLiteralSubject ("foo." ++ String.ofList (List.replicate 1 '-')) = true ∧
      IsValidLiteralSubject "bar." = false :=
  ⟨by decide, Match_split_delimiters (fun _ => 0) 1 (by decide)⟩

/-! ## The pieces a split or a slice writes -/

section Pieces

def WritesPieces (t out : List UInt8) (pieces : List (List UInt8)) : Prop :=
  out = [0x2E].intercalate pieces ∧ pieces.flatten = t ∧ ∀ p ∈ pieces, p ≠ []

theorem WritesPieces.single {p : List UInt8} (hp : p ≠ []) : WritesPieces p p [p] :=
  ⟨List.intercalate_singleton.symm, List.flatten_singleton, fun q hq => by
    rw [List.mem_singleton.mp hq]; exact hp⟩

theorem WritesPieces.cons {p t out : List UInt8} {pieces : List (List UInt8)} (hp : p ≠ [])
    (h : WritesPieces t out pieces) (hne : pieces ≠ []) :
    WritesPieces (p ++ t) (p ++ [0x2E] ++ out) (p :: pieces) := by
  obtain ⟨hout, hflat, hpieces⟩ := h
  refine ⟨?_, ?_, ?_⟩
  · rw [List.intercalate_cons_of_ne_nil hne, hout]
  · rw [List.flatten_cons, hflat]
  · intro q hq
    rcases List.mem_cons.mp hq with rfl | hq
    · exact hp
    · exact hpieces q hq

theorem WritesPieces.two {a b : List UInt8} (ha : a ≠ []) (hb : b ≠ []) :
    WritesPieces (a ++ b) (a ++ [0x2E] ++ b) [a, b] :=
  WritesPieces.cons ha (WritesPieces.single hb) (List.cons_ne_nil _ _)

theorem take_ne_nil_of_pos {cs : List UInt8} {k : Nat} (hk : 0 < k) (hcs : 0 < cs.length) :
    cs.take k ≠ [] :=
  List.ne_nil_of_length_pos (by rw [List.length_take]; omega)

theorem drop_ne_nil_of_lt {cs : List UInt8} {k : Nat} (hk : k < cs.length) : cs.drop k ≠ [] :=
  List.ne_nil_of_length_pos (by rw [List.length_drop]; omega)

variable {k : Nat}

theorem sliceFromLeftLoop_nil (hk : 0 < k) (first : Bool) (fuel : Nat) :
    sliceFromLeftLoop k first fuel [] = [] := by
  cases fuel with
  | zero => rfl
  | succ fuel => simp [sliceFromLeftLoop, Nat.pos_iff_ne_zero.mp hk]

theorem sliceFromLeftLoop_false {cs : List UInt8} {fuel : Nat} (hkc : k ≤ cs.length) (hf : 0 < fuel) :
    sliceFromLeftLoop k false fuel cs = 0x2E :: sliceFromLeftLoop k true fuel cs := by
  obtain ⟨fuel, rfl⟩ : ∃ f, fuel = f + 1 := ⟨fuel - 1, by omega⟩
  simp only [sliceFromLeftLoop, if_pos hkc, Bool.false_eq_true, if_false, if_true, List.nil_append]
  split <;> rfl

theorem sliceFromLeftLoop_pieces (hk : 0 < k) :
    ∀ fuel (cs : List UInt8), k ≤ cs.length → cs.length < fuel →
      ∃ full last, WritesPieces cs (sliceFromLeftLoop k true fuel cs) (full ++ [last]) ∧
        (∀ p ∈ full, p.length = k) ∧ last.length ≤ k := by
  intro fuel
  induction fuel with
  | zero => intro cs _ hf; omega
  | succ fuel ih =>
    intro cs hkc hf
    have htake : cs.take k ≠ [] := take_ne_nil_of_pos hk (by omega)
    have hlen : (cs.take k).length = k := by rw [List.length_take]; omega
    simp only [sliceFromLeftLoop, if_pos hkc, if_true, List.nil_append]
    split
    · -- the piece after this slice is shorter than a slice: it goes out with it
      rename_i hlast
      refine ⟨[cs.take k], cs.drop k, ?_, by simpa using hlen, by rw [List.length_drop]; omega⟩
      have h := WritesPieces.two htake (drop_ne_nil_of_lt (Nat.lt_of_le_of_ne hkc (Ne.symm hlast.1)))
      rwa [List.take_append_drop] at h
    · rename_i hmore
      by_cases hend : cs.length = k
      · -- this slice ends the token
        have hdrop : cs.drop k = [] := List.drop_eq_nil_of_le (by omega)
        refine ⟨[], cs, ?_, by simp, by omega⟩
        rw [hdrop, sliceFromLeftLoop_nil hk, List.append_nil, List.take_of_length_le (by omega)]
        exact WritesPieces.single (List.ne_nil_of_length_pos (by omega))
      · -- a full slice follows
        have hkd : k ≤ (cs.drop k).length := by rw [List.length_drop]; omega
        have hfd : (cs.drop k).length < fuel := by rw [List.length_drop]; omega
        obtain ⟨full, last, hw, hfull, hl⟩ := ih (cs.drop k) hkd hfd
        refine ⟨cs.take k :: full, last, ?_, ?_, hl⟩
        · rw [sliceFromLeftLoop_false hkd (by omega), ← List.singleton_append, ← List.append_assoc]
          have h := WritesPieces.cons htake hw (by simp)
          rwa [List.take_append_drop] at h
        · intro p hp
          rcases List.mem_cons.mp hp with rfl | hp
          · exact hlen
          · exact hfull p hp

theorem sliceFromRightLoop_nil (hk : 0 < k) (fuel : Nat) : sliceFromRightLoop k fuel [] = [] := by
  cases fuel with
  | zero => rfl
  | succ fuel => simp [sliceFromRightLoop, Nat.pos_iff_ne_zero.mp hk]

theorem sliceFromRightLoop_pieces (hk : 0 < k) :
    ∀ n fuel (cs : List UInt8), cs.length = k * (n + 1) → n < fuel →
      ∃ pieces, WritesPieces cs (sliceFromRightLoop k fuel cs) pieces ∧ pieces ≠ [] ∧
        ∀ p ∈ pieces, p.length = k := by
  intro n
  induction n with
  | zero =>
    intro fuel cs hcs hf
    obtain ⟨fuel, rfl⟩ : ∃ f, fuel = f + 1 := ⟨fuel - 1, by omega⟩
    have hdrop : cs.drop k = [] := List.drop_eq_nil_of_le (by omega)
    refine ⟨[cs], ?_, List.cons_ne_nil _ _, by simp; omega⟩
    simp only [sliceFromRightLoop, if_pos (show k ≤ cs.length by omega),
      if_neg (show ¬k < cs.length by omega), hdrop, sliceFromRightLoop_nil hk, List.append_nil,
      List.take_of_length_le (show cs.length ≤ k by omega)]
    exact WritesPieces.single (List.ne_nil_of_length_pos (by omega))
  | succ n ih =>
    intro fuel cs hcs hf
    obtain ⟨fuel, rfl⟩ : ∃ f, fuel = f + 1 := ⟨fuel - 1, by omega⟩
    -- `cs` holds a slice and then `n + 1` more
    have hsplit : cs.length = k * (n + 1) + k := by rw [hcs, Nat.mul_succ k (n + 1)]
    have hpos : 0 < k * (n + 1) := Nat.mul_pos hk (Nat.succ_pos n)
    have htake : cs.take k ≠ [] := take_ne_nil_of_pos hk (by omega)
    have hlen : (cs.take k).length = k := by rw [List.length_take]; omega
    have hdrop : (cs.drop k).length = k * (n + 1) := by rw [List.length_drop]; omega
    obtain ⟨pieces, hw, hne, hall⟩ := ih fuel (cs.drop k) hdrop (by omega)
    refine ⟨cs.take k :: pieces, ?_, List.cons_ne_nil _ _, ?_⟩
    · simp only [sliceFromRightLoop, if_pos (show k ≤ cs.length by omega),
        if_pos (show k < cs.length by omega)]
      have h := WritesPieces.cons htake hw hne
      rwa [List.take_append_drop] at h
    · intro p hp
      rcases List.mem_cons.mp hp with rfl | hp
      · exact hlen
      · exact hall p hp

theorem WritesPieces.cut {t : List UInt8} {i : Nat} (h0 : 0 < i) (hi : i < t.length) :
    WritesPieces t (t.take i ++ [0x2E] ++ t.drop i) [t.take i, t.drop i] := by
  have ht : 0 < t.length := by omega
  have h := WritesPieces.two (take_ne_nil_of_pos h0 ht) (drop_ne_nil_of_lt hi)
  rwa [List.take_append_drop] at h

theorem sliceFromRight_pieces {t : List UInt8} {k : Int} (hk : 0 < k) (hkt : k < t.length) :
    ∃ first full, WritesPieces t (sliceFromRight t k) (first :: full) ∧
      first.length ≤ k.toNat ∧ ∀ q ∈ full, q.length = k.toNat := by
  rw [sliceFromRight, if_pos ⟨hk, hkt⟩]
  simp only
  generalize hm : k.toNat = m
  have hm0 : 0 < m := by omega
  -- after the remainder come `t.length / m` full slices
  have hq : 0 < t.length / m := Nat.div_pos (by omega) hm0
  have hrest : (t.drop (t.length % m)).length = m * (t.length / m - 1 + 1) := by
    rw [List.length_drop, Nat.sub_add_cancel hq]
    have := Nat.div_add_mod t.length m
    omega
  obtain ⟨pieces, hw, hne, hall⟩ := sliceFromRightLoop_pieces hm0 _ (t.length + 1) _ hrest
    (by have := Nat.div_le_self t.length m; omega)
  by_cases hr : t.length % m > 0
  · -- the remainder is the first piece
    refine ⟨t.take (t.length % m), pieces, ?_, ?_, hall⟩
    · rw [if_pos hr]
      have ht : 0 < t.length := by omega
      have h := WritesPieces.cons (take_ne_nil_of_pos hr ht) hw hne
      rwa [List.take_append_drop] at h
    · rw [List.length_take]
      have := Nat.mod_lt t.length hm0
      omega
  · -- no remainder: the first piece is a full slice
    obtain ⟨first, full, rfl⟩ := List.exists_cons_of_ne_nil hne
    have ht : t.drop (t.length % m) = t := by rw [show t.length % m = 0 by omega, List.drop_zero]
    refine ⟨first, full, ?_, Nat.le_of_eq (hall first List.mem_cons_self),
      fun q hq => hall q (List.mem_cons_of_mem _ hq)⟩
    rw [if_neg hr, List.nil_append]
    rw [ht] at hw ⊢
    exact hw

/-- SliceFromLeft writes slices of `k`, the last one of at most `k`; SliceFromRight writes them
with the short one first; SplitFromLeft and SplitFromRight write two pieces, the one on their
side of length `p`. The pieces make up the token and none is empty. -/
theorem split_slice_pieces (t : List UInt8) (k p : Int) (hk : 0 < k) (hkt : k < t.length)
    (hp : 0 < p) (hpt : p < t.length) :
    (∃ full last, WritesPieces t (sliceFromLeft t k) (full ++ [last]) ∧
      (∀ q ∈ full, q.length = k.toNat) ∧ last.length ≤ k.toNat) ∧
    (∃ first full, WritesPieces t (sliceFromRight t k) (first :: full) ∧
      first.length ≤ k.toNat ∧ ∀ q ∈ full, q.length = k.toNat) ∧
    (∃ a b, WritesPieces t (splitFromLeft t p) [a, b] ∧ a.length = p.toNat) ∧
    (∃ a b, WritesPieces t (splitFromRight t p) [a, b] ∧ b.length = p.toNat) := by
  refine ⟨?_, sliceFromRight_pieces hk hkt, ?_, ?_⟩
  · rw [sliceFromLeft, if_pos ⟨hk, hkt⟩]
    exact sliceFromLeftLoop_pieces (by omega) _ t (by omega) (by omega)
  · rw [splitFromLeft, if_pos ⟨hp, hpt⟩]
    exact ⟨_, _, WritesPieces.cut (by omega) (by omega), by rw [List.length_take]; omega⟩
  · rw [splitFromRight, if_pos ⟨hp, hpt⟩]
    exact ⟨_, _, WritesPieces.cut (by omega) (by omega), by rw [List.length_drop]; omega⟩

theorem split_slice_pieces_seven :
    (0 : Int) < 3 ∧ (3 : Int) < (stringBytes "abcdefg").length ∧
      sliceFromLeft (stringBytes "abcdefg") 3 = stringBytes "abc.def.g" ∧
      sliceFromRight (stringBytes "abcdefg") 3 = stringBytes "a.bcd.efg" ∧
      (∃ full last, WritesPieces (stringBytes "abcdefg")
        (sliceFromLeft (stringBytes "abcdefg") 3) (full ++ [last]) ∧
        (∀ q ∈ full, q.length = (3 : Int).toNat) ∧ last.length ≤ (3 : Int).toNat) :=
  ⟨by decide, by decide, by decide, by decide,
    (split_slice_pieces (stringBytes "abcdefg") 3 3 (by decide) (by decide) (by decide)
      (by decide)).1⟩

end Pieces

section Reverse

def tokenizeLoop : Nat → List String → List String
  | _, [] => []
  | i, t :: ts => if t = "*" then ("$" ++ Strconv.itoa i) :: tokenizeLoop (i + 1) ts
    else t :: tokenizeLoop i ts

def transformTokenize (subject : String) : String :=
  String.intercalate "." (tokenizeLoop 1 (tokens subject))

def isPlaceHolder (token : String) : Bool :=
  (match token.toList with
    | '$' :: c :: _ => decide ('1' ≤ c ∧ c ≤ '9')
    | _ => false) ||
  (match getMappingFunctionArgs wildcardMappingFunctionRegEx token with
    | some [arg] => arg != ""
    | _ => false)

def transformUntokenize (subject : String) : String × List String :=
  (String.intercalate "." ((tokens subject).map fun t => if isPlaceHolder t then "*" else t),
    (tokens subject).filter isPlaceHolder)

def reverseDest : List String → List String → Option (List String)
  | _, [] => some []
  | phs, t :: ts =>
    if t = "*" then
      match phs with
      | [] => none
      | ph :: phs => (reverseDest phs ts).map (ph :: ·)
    else (reverseDest phs ts).map (t :: ·)

def strictOrNil (src dest : String) : Option SubjectTransform :=
  match NewSubjectTransformStrict src dest with
  | .ok rtr => rtr
  | .error _ => none

def SubjectTransform.reverse (tr : SubjectTransform) : Option SubjectTransform :=
  if tr.dtokmf.length = 0 then strictOrNil tr.dest tr.src
  else
    let (nsrc, phs) := transformUntokenize tr.dest
    match reverseDest phs tr.stoks with
    | none => none
    | some nda => strictOrNil nsrc (String.intercalate "." nda)

/-- `reverse` gives each source `*` the next placeholder of the destination in turn, so a
destination that permutes the wildcards is reversed by the same permutation, not its inverse.
The strict check only counts placeholders, so a wildcard may be placed twice and another not at
all, or placed by a `$0` that names no wildcard, and then there is no reverse. -/
theorem reverse_three_cycle (rand : Nat → Nat) :
    ((NewSubjectTransformStrict "foo.*.*.*" "bar.$2.$3.$1").map fun o => o.map fun tr =>
        (tr.Match rand "foo.a.b.c", tr.reverse.map fun rtr => rtr.Match rand "bar.b.c.a")) =
      .ok (some (.ok (stringBytes "bar.b.c.a"), some (.ok (stringBytes "foo.c.a.b")))) ∧
    ((NewSubjectTransformStrict "foo.*.*" "bar.$1.$1").map fun o => o.map fun tr =>
        (tr.Match rand "foo.a.b", tr.reverse.map fun rtr => rtr.Match rand "bar.a.a")) =
      .ok (some (.ok (stringBytes "bar.a.a"), some (.ok (stringBytes "foo.a.a")))) ∧
    ((NewSubjectTransformStrict "foo.*" "bar.$0").map fun o => o.map fun tr =>
        (tr.Match rand "foo.a", tr.reverse.isSome)) =
      .ok (some (.ok (stringBytes "bar.foo"), false)) :=
  ⟨rfl, rfl, rfl⟩

end Reverse

end NatsServer.Transform
