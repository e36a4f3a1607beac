import NatsServer.Subject.Level
import Mathlib.Algebra.Group.Prod

/-!
# The server's sublist

`Sublist` of sublist.go on the level trie of `NatsServer.Subject.Level`: a node's payload is its
`psubs` set, the `plist` that `Match` reads them from once there are more than `plistMin`, and
its `qsubs` map from queue names to sets. A set is ranged over in the order of its entries. Over the trie sit the result cache,
keyed by the subjects `Match` was called with and patched by `Insert` and `remove`, and the
notification maps, between which a channel moves when the exact interest in its subject
changes. The values sent on notification channels are kept in `sent`, in order.

Subjects are read as lists of characters where the source reads bytes: the only bytes the
source compares are `.`, `*` and `>`, which in UTF-8 are characters of their own.
-/

namespace NatsServer.Server

open NatsServer.Lib NatsServer.Subject

/-- The fields of a subscription the sublist reads: `id` stands for the pointer, `remote` for a
client of kind ROUTER or LEAF, `qw` for the queue weight. -/
structure Subscription where
  id : Nat
  subject : String
  queue : Option String
  remote : Bool
  qw : Int32
  deriving DecidableEq, Repr

abbrev SubSet := List (Subscription × Unit)

def plistMin : Nat := 256

/-- A node's subscriptions. Only a node with plain subscriptions has a `plist`: the removal of
one drops it. -/
structure NodeSubs where
  psubs : SubSet
  qsubs : List (String × SubSet)
  plist : Option (List Subscription)
  plist_psubs : plist.isSome → psubs ≠ []
  deriving DecidableEq, Repr

def newNode : NodeSubs := ⟨[], [], none, fun h => absurd h (by simp)⟩

structure SublistResult where
  psubs : List Subscription
  qsubs : List (List Subscription)
  deriving DecidableEq, Repr

def emptyResult : SublistResult := ⟨[], []⟩

abbrev Chan := Nat

structure NotifyMaps where
  insert : List (String × List Chan)
  remove : List (String × List Chan)
  deriving DecidableEq, Repr

abbrev Cache := List (String × SublistResult)

structure Sublist where
  root : Level NodeSubs
  cache : Option Cache
  notify : Option NotifyMaps
  count : UInt32
  sent : List (Chan × Bool)

def slCacheSweep : Nat := 256

/-! ## Subjects as the cache reads them -/

/-- The scan of subjectHasWildcard and subjectIsLiteral: a `*` or `>` that is a token of its
own; `atStart` says there is no character before or it is a separator. -/
def wildcardToken : Bool → List Char → Bool
  | _, [] => false
  | atStart, c :: cs =>
    ((c == '*' || c == '>') && atStart && (cs.head? == none || cs.head? == some '.')) ||
      wildcardToken (c == '.') cs

def subjectHasWildcard (subject : String) : Bool := wildcardToken true subject.toList

def subjectIsLiteral (subject : String) : Bool := !wildcardToken true subject.toList

def matchLiteralFrom : Bool → List Char → List Char → Bool
  | _, lit, [] => lit.isEmpty
  | _, [], _ :: _ => false
  -- a last `*` takes the rest of the literal when it is one token
  | true, lit, ['*'] => !lit.contains '.'
  -- `*` before a separator skips the literal's token and its separator
  | true, lit, '*' :: '.' :: cs =>
    match lit.dropWhile (· != '.') with
    | [] => false
    | _ :: rest => matchLiteralFrom true rest cs
  | true, _, ['>'] => true
  | _, l :: ls, c :: cs => if c != l then false else matchLiteralFrom (c == '.') ls cs

-- Generate the equation lemmas of newNode and matchLiteralFrom here, once, before the proofs below
-- unfold them in parallel.
section
attribute [local simp] newNode matchLiteralFrom
end


def matchLiteral (literal subject : String) : Bool :=
  matchLiteralFrom true literal.toList subject.toList

def hasWildcard (toks : List String) : Bool := toks.any fun t => t == "*" || t == ">"

/-! ## Results -/

def isRemoteQSub (sub : Subscription) : Bool := sub.queue.isSome && sub.remote

def findQSlot (queue : Option String) (qsl : List (List Subscription)) : Option Nat :=
  match queue with
  | none => none
  | some q =>
    qsl.findIdx? fun qr =>
      match qr with
      | [] => false
      | s :: _ => s.queue.getD "" == q

namespace SublistResult

def addSubToResult (r : SublistResult) (sub : Subscription) : SublistResult :=
  match sub.queue with
  | none => { r with psubs := r.psubs ++ [sub] }
  | some _ =>
    match findQSlot sub.queue r.qsubs with
    | some i => { r with qsubs := r.qsubs.modify i (· ++ [sub]) }
    | none => { r with qsubs := r.qsubs ++ [[sub]] }

end SublistResult

def qsubCopies (sub : Subscription) : List Subscription :=
  if isRemoteQSub sub then List.replicate sub.qw.toInt.toNat sub else [sub]

def addQueueGroup (results : SublistResult) (group : String × SubSet) : SublistResult :=
  if group.2.length == 0 then results
  else
    let (qsubs, i) :=
      match findQSlot (some group.1) results.qsubs with
      | some i => (results.qsubs, i)
      | none => (results.qsubs ++ [[]], results.qsubs.length)
    { results with qsubs := qsubs.modify i (· ++ group.2.flatMap fun e => qsubCopies e.1) }

def addNodeToResults (n : NodeSubs) (results : SublistResult) : SublistResult :=
  let psubs :=
    match n.plist with
    | some plist => plist
    | none => n.psubs.map Prod.fst
  n.qsubs.foldl addQueueGroup { results with psubs := results.psubs ++ psubs }

/-! ## Node updates -/

theorem set_ne_nil (sub : Subscription) (m : SubSet) : Assoc.set sub () m ≠ [] := by
  intro h
  have hf := Assoc.find_set_self sub () m
  rw [h, Assoc.find_nil] at hf
  exact absurd hf (by simp)

def addSub (sub : Subscription) (n : NodeSubs) : NodeSubs :=
  match sub.queue with
  | none =>
    let psubs := Assoc.set sub () n.psubs
    -- a subscription stored again is appended to the plist again
    let plist :=
      match n.plist with
      | some plist => some (plist ++ [sub])
      | none => if psubs.length > plistMin then some (psubs.map Prod.fst) else none
    { n with psubs := psubs, plist := plist, plist_psubs := fun _ => set_ne_nil sub n.psubs }
  | some qname =>
    let subs := (Assoc.find qname n.qsubs).getD []
    { n with qsubs := Assoc.set qname (Assoc.set sub () subs) n.qsubs }

/-- The plist holds the node's subscriptions in their order, when there is one. -/
def PlistMirrors (n : NodeSubs) : Prop := n.plist = none ∨ n.plist = some (n.psubs.map Prod.fst)

/-- A node whose plist mirrors its subscriptions adds them to a result as the set would. -/
theorem addNodeToResults_of_mirrors {n : NodeSubs} (h : PlistMirrors n) (r : SublistResult) :
    addNodeToResults n r =
      n.qsubs.foldl addQueueGroup { r with psubs := r.psubs ++ n.psubs.map Prod.fst } := by
  unfold addNodeToResults
  rcases h with h | h <;> rw [h]

/-- Storing a subscription the node does not hold keeps the plist a mirror. -/
theorem PlistMirrors.addSub {n : NodeSubs} (h : PlistMirrors n) {sub : Subscription}
    (hfresh : Assoc.find sub n.psubs = none) : PlistMirrors (addSub sub n) := by
  unfold NatsServer.Server.addSub
  split
  · have hset : Assoc.set sub () n.psubs = n.psubs ++ [(sub, ())] :=
      Assoc.set_of_not_mem _ _ _ ((Assoc.find_eq_none_iff _ _).mp hfresh)
    rcases h with h | h
    · -- no plist yet: one is made from the set, or there is still none
      simp only [PlistMirrors, h]
      split_ifs <;> simp
    · simp [PlistMirrors, h, hset]
  · exact h

def isNew (sub : Subscription) (n : NodeSubs) : Bool :=
  match sub.queue with
  | none => (Assoc.set sub () n.psubs).length == 1
  | some qname => (Assoc.find qname n.qsubs).isNone

def removeFromNode (sub : Subscription) (n : NodeSubs) : Option (NodeSubs × Bool) :=
  match sub.queue with
  | none =>
    if (Assoc.find sub n.psubs).isSome then
      -- the plist goes with the first removal, to be built again by later inserts
      let n' : NodeSubs :=
        { n with
          psubs := Assoc.erase sub n.psubs
          plist := none
          plist_psubs := fun h => absurd h (by simp) }
      some (n', (Assoc.erase sub n.psubs).length == 0)
    else none
  | some qname =>
    let qsub := (Assoc.find qname n.qsubs).getD []
    if (Assoc.find sub qsub).isSome then
      if (Assoc.erase sub qsub).length == 0 then
        some ({ n with qsubs := Assoc.erase qname n.qsubs }, true)
      else some ({ n with qsubs := Assoc.set qname (Assoc.erase sub qsub) n.qsubs }, false)
    else none

def subsEmpty (n : NodeSubs) : Bool := n.psubs.length == 0 && n.qsubs.length == 0

def nodeHasSubs (n : NodeSubs) : Bool := n.psubs.length > 0 || n.qsubs.length > 0

def nodeCounts (n : NodeSubs) : Nat × Nat := (n.psubs.length, (n.qsubs.map fun q => q.2.length).sum)

/-- Whether a match result holds a subscription on exactly the subject (and queue): the check of
registerNotification and chkForRemoveNotification. Of each queue group only the first entry is
looked at; on an empty group, which only remote subscriptions of weight 0 or less leave,
`qsub[0]` panics, read here as no interest. -/
def exactInterest (r : SublistResult) (subject queue : String) : Bool :=
  if r.psubs.length + r.qsubs.length > 0 then
    if queue == "" then r.psubs.any fun sub => sub.subject == subject
    else
      r.qsubs.any fun qsub =>
        match qsub with
        | [] => false
        | qs :: _ => qs.subject == subject && qs.queue.getD "" == queue
  else false

def keyFromSubjectAndQueue (subject queue : String) : String :=
  if queue.length == 0 then subject else subject ++ " " ++ queue

inductive NotifyError
  | invalidSubject
  | nilChan
  | alreadyRegistered
  deriving DecidableEq, Repr

def addNotify (m : List (String × List Chan)) (subject : String) (notify : Chan) :
    Except NotifyError (List (String × List Chan)) :=
  let chs := (Assoc.find subject m).getD []
  if chs.contains notify then .error .alreadyRegistered else .ok (Assoc.set subject (chs ++ [notify]) m)

/-- chkAndRemove: `chs[i] = chs[len(chs)-1]` writes the array the map entry shares, and the
shortened slice stays local, so the entry keeps its length unless it is deleted. -/
def chkAndRemove (key : String) (notify : Chan) (ms : List (String × List Chan)) :
    Bool × List (String × List Chan) :=
  let chs := (Assoc.find key ms).getD []
  match chs.idxOf? notify with
  | none => (false, ms)
  | some i =>
    if chs.length - 1 == 0 then (true, Assoc.erase key ms)
    else (true, Assoc.set key (chs.set i (chs.getLastD notify)) ms)

namespace Sublist

def NewSublist (enableCache : Bool) : Sublist :=
  ⟨[], if enableCache then some [] else none, none, 0, []⟩

def subsAt (s : Sublist) (p : List Key) : NodeSubs := Trie.payloadAt newNode ⟨newNode, s.root⟩ p

def present (s : Sublist) (p : List Key) : Prop := (⟨newNode, s.root⟩ : Node NodeSubs).Present p

-- Generate the equation lemmas of subsAt and present here, once, before the proofs below unfold
-- them in parallel.
section
attribute [local simp] subsAt present
end

instance (s : Sublist) (p : List Key) : Decidable (s.present p) :=
  inferInstanceAs (Decidable ((⟨newNode, s.root⟩ : Node NodeSubs).Present p))

/-! ## The cache -/

def addToCache (s : Sublist) (subject : String) (sub : Subscription) : Sublist :=
  match s.cache with
  | none => s
  | some c =>
    if subjectIsLiteral subject then
      match Assoc.find subject c with
      | some r => { s with cache := some (Assoc.set subject (r.addSubToResult sub) c) }
      | none => s
    else
      { s with cache := some (c.map fun e =>
          if matchLiteral e.1 subject then (e.1, e.2.addSubToResult sub) else e) }

def removeFromCache (s : Sublist) (subject : String) : Sublist :=
  match s.cache with
  | none => s
  | some c =>
    if subjectIsLiteral subject then { s with cache := some (Assoc.erase subject c) }
    else { s with cache := some (c.filter fun e => !matchLiteral e.1 subject) }

def sweep : Cache → Cache
  | [] => []
  | _ :: rest => if rest.length ≤ slCacheSweep then rest else sweep rest

def reduceCacheCount (s : Sublist) : Sublist := { s with cache := s.cache.map sweep }

def Match (s : Sublist) (subject : String) : SublistResult × Sublist :=
  match s.cache.bind (Assoc.find subject) with
  | some r => (r, s)
  | none =>
    match subjectTokens subject with
    | none => (emptyResult, s)
    | some toks =>
      let result := matchLevel (fun r n => addNodeToResults n r) s.root toks emptyResult
      let result :=
        if result.psubs.length == 0 && result.qsubs.length == 0 then emptyResult else result
      (result, { s with cache := s.cache.map (Assoc.set subject result) })

def matchNoLock (s : Sublist) (subject : String) : SublistResult × Sublist := s.Match subject

def hasInterest (s : Sublist) (subject : String) : Bool × (Nat × Nat) :=
  match s.cache.bind (Assoc.find subject) with
  | some r =>
    (r.psubs.length + r.qsubs.length > 0, (r.psubs.length, (r.qsubs.map List.length).sum))
  | none =>
    match subjectTokens subject with
    | none => (false, (0, 0))
    | some toks => matchLevelForAny nodeHasSubs nodeCounts s.root toks

def HasInterest (s : Sublist) (subject : String) : Bool := (s.hasInterest subject).1

def NumInterest (s : Sublist) (subject : String) : Nat × Nat := (s.hasInterest subject).2

/-! ## Notifications -/

def sendNotification (s : Sublist) (ch : Chan) (hasInterest : Bool) : Sublist :=
  { s with sent := s.sent ++ [(ch, hasInterest)] }

def chkForInsertNotification (s : Sublist) (subject queue : String) : Sublist :=
  match s.notify with
  | none => s
  | some nm =>
    let key := keyFromSubjectAndQueue subject queue
    let chs := (Assoc.find key nm.insert).getD []
    if chs.length > 0 then
      let s := chs.foldl (fun s ch => s.sendNotification ch true) s
      { s with notify := some ⟨Assoc.erase key nm.insert,
          Assoc.set key ((Assoc.find key nm.remove).getD [] ++ chs) nm.remove⟩ }
    else s

def chkForRemoveNotification (s : Sublist) (subject queue : String) : Sublist :=
  match s.notify with
  | none => s
  | some nm =>
    let key := keyFromSubjectAndQueue subject queue
    let chs := (Assoc.find key nm.remove).getD []
    if chs.length > 0 then
      let (r, s) := s.matchNoLock subject
      if exactInterest r subject queue then s
      else
        let s := chs.foldl (fun s ch => s.sendNotification ch false) s
        { s with notify := some ⟨Assoc.set key ((Assoc.find key nm.insert).getD [] ++ chs)
            nm.insert, Assoc.erase key nm.remove⟩ }
    else s

def insertPending (s : Sublist) : Bool :=
  match s.notify with
  | some nm => nm.insert.length > 0
  | none => false

def removePending (s : Sublist) : Bool :=
  match s.notify with
  | some nm => nm.remove.length > 0
  | none => false

def registerNotification (s : Sublist) (subject queue : String) (notify : Option Chan) :
    Sublist × Except NotifyError Unit :=
  if subjectHasWildcard subject then (s, .error .invalidSubject)
  else
    match notify with
    | none => (s, .error .nilChan)
    | some ch =>
      let (r, s) := s.Match subject
      let hasInterest := exactInterest r subject queue
      let key := keyFromSubjectAndQueue subject queue
      let nm := s.notify.getD ⟨[], []⟩
      let added :=
        if hasInterest then (addNotify nm.remove key ch).map fun m => { nm with remove := m }
        else (addNotify nm.insert key ch).map fun m => { nm with insert := m }
      match added with
      | .error e => ({ s with notify := some nm }, .error e)
      | .ok nm => ({ s with notify := some nm }.sendNotification ch hasInterest, .ok ())

def RegisterNotification (s : Sublist) (subject : String) (notify : Option Chan) :
    Sublist × Except NotifyError Unit :=
  s.registerNotification subject "" notify

def RegisterQueueNotification (s : Sublist) (subject queue : String) (notify : Option Chan) :
    Sublist × Except NotifyError Unit :=
  s.registerNotification subject queue notify

def clearNotification (s : Sublist) (subject queue : String) (notify : Chan) : Sublist × Bool :=
  match s.notify with
  | none => (s, false)
  | some nm =>
    let key := keyFromSubjectAndQueue subject queue
    let (didRemove, remove) := chkAndRemove key notify nm.remove
    let (didRemove, insert) :=
      if didRemove then (true, nm.insert) else chkAndRemove key notify nm.insert
    let notify := if remove.length + insert.length == 0 then none else some ⟨insert, remove⟩
    ({ s with notify }, didRemove)

def ClearNotification (s : Sublist) (subject : String) (notify : Chan) : Sublist × Bool :=
  s.clearNotification subject "" notify

def ClearQueueNotification (s : Sublist) (subject queue : String) (notify : Chan) :
    Sublist × Bool :=
  s.clearNotification subject queue notify

/-! ## Insert and remove -/

def Insert (s : Sublist) (sub : Subscription) : Sublist × Except SubError Unit :=
  match tokens sub.subject with
  -- SplitSeq yields at least one token (`tokens_ne_nil`)
  | [] => (s, .error .invalidSubject)
  | t :: rest =>
    let r := insertWalk newNode (addSub sub) false t rest s.root
    match r.2 with
    | none => ({ s with root := r.1 }, .error .invalidSubject)
    | some old =>
      let s := ({ s with root := r.1, count := s.count + 1 } : Sublist).addToCache sub.subject sub
      let s :=
        if s.notify.isSome && isNew sub old && !hasWildcard (t :: rest) && s.insertPending then
          s.chkForInsertNotification sub.subject (sub.queue.getD "")
        else s
      (s, .ok ())

-- Generate the equation lemmas of Match and Insert here, once, before the proofs below unfold them
-- in parallel.
section
attribute [local simp] Match Insert
end

def remove (s : Sublist) (sub : Subscription) (doCacheUpdates : Bool) :
    Except SubError Sublist :=
  match tokens sub.subject with
  | [] => .error .notFound
  | t :: rest =>
    match removeWalk subsEmpty (removeFromNode sub) false t rest s.root with
    | .error e => .error e
    | .ok (root, last) =>
      let s : Sublist := { s with root, count := s.count - 1 }
      let s := if doCacheUpdates then s.removeFromCache sub.subject else s
      .ok (if s.notify.isSome && last && !hasWildcard (t :: rest) && s.removePending then
          s.chkForRemoveNotification sub.subject (sub.queue.getD "")
        else s)

def Remove (s : Sublist) (sub : Subscription) : Except SubError Sublist := s.remove sub true

def removeBatchStep (acc : Sublist × Option SubError) (sub : Subscription) :
    Sublist × Option SubError :=
  match acc.1.remove sub false with
  | .ok s' => (s', acc.2)
  | .error e => (acc.1, acc.2.or (some e))

/-- RemoveBatch: the cache is off while the subscriptions are removed and comes back empty;
the first error is reported, and the removals after it are still made. -/
def RemoveBatch (s : Sublist) (subs : List Subscription) : Sublist × Except SubError Unit :=
  if subs.length == 0 then (s, .ok ())
  else
    let r := subs.foldl removeBatchStep ({ s with cache := none }, none)
    ({ r.1 with cache := if s.cache.isSome then some [] else none },
      match r.2 with
      | none => .ok ()
      | some e => .error e)

def UpdateRemoteQSub (s : Sublist) (sub : Subscription) : Sublist :=
  s.removeFromCache sub.subject

def Count (s : Sublist) : UInt32 := s.count

/-! ## Runs of calls -/

inductive Op
  | insert (sub : Subscription)
  | remove (sub : Subscription)
  | removeBatch (subs : List Subscription)
  | updateRemoteQSub (sub : Subscription)
  | matchSubject (subject : String)
  | reduceCacheCount
  | registerNotification (subject queue : String) (notify : Option Chan)
  | clearNotification (subject queue : String) (notify : Chan)

def step (s : Sublist) : Op → Sublist
  | .insert sub => (s.Insert sub).1
  | .remove sub =>
    match s.Remove sub with
    | .ok s' => s'
    | .error _ => s
  | .removeBatch subs => (s.RemoveBatch subs).1
  | .updateRemoteQSub sub => s.UpdateRemoteQSub sub
  | .matchSubject subject => (s.Match subject).2
  | .reduceCacheCount => s.reduceCacheCount
  | .registerNotification subject queue notify => (s.registerNotification subject queue notify).1
  | .clearNotification subject queue notify => (s.clearNotification subject queue notify).1

end Sublist

end NatsServer.Server
