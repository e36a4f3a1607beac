import NatsServer.Store.MemStore
import NatsServer.Server.Sublist
import NatsServer.Subject.Collide

/-!
# Queries of the memory store

GetSeqFromTime's binary search over sequences with interior deletes, filteredStateLocked with
its two ways of correcting the per-subject totals, the loads of the next and the previous
matching message, and PurgeEx, which is built on FilteredState.

A Go map is ranged over in the order of its entries. `fss.Match` and `fss.MatchUntil` call back
with the subjects of the tree, in the order of its contents, that the filter matches token by
token: the walk of the tree is not modelled here.
-/

namespace NatsServer.Store

open NatsServer.Lib NatsServer.Stree NatsServer.Subject NatsServer.Server NatsServer.Avl

def SimpleState.empty : SimpleState := ⟨0, 0, 0, false, false⟩

/-- update of filteredStateLocked: a subject's state added to the running one; with
`lastPerSubject` a subject counts once, at its last message. -/
def SimpleState.add (lastPerSubject : Bool) (ss fss : SimpleState) : SimpleState :=
  let msgs := if lastPerSubject then 1 else fss.Msgs
  let first := if lastPerSubject then fss.Last else fss.First
  { ss with
    Msgs := ss.Msgs + msgs
    First := if ss.First == 0 || first < ss.First then first else ss.First
    Last := if fss.Last > ss.Last then fss.Last else ss.Last }

def matchParts : List (List UInt8) → List (List UInt8) → Bool
  | [], [] => true
  | f :: fs, t :: ts => (f == [fwc] && fs.isEmpty) || ((f == [pwc] || f == t) && matchParts fs ts)
  | _, _ => false

def compareFn (subject : String) : String → String → Bool :=
  if subject == "" || subject == ">" then fun _ _ => true
  else if subjectHasWildcard subject then subjectIsSubsetMatch
  else fun a b => a == b

namespace MemStore

/-! ## GetSeqFromTime -/

/-- The binary search of GetSeqFromTime over `[fseq, lseq]`, with `seq` the best sequence so
far. A probe that lands in a gap walks on to the next stored message, or gives up the right half
when there is none. Each pass stops or narrows the range, so its width bounds the passes. -/
def seqFromTimeLoop (ms : MemStore) (ts : Int64) : Nat → UInt64 → UInt64 → UInt64 → UInt64
  | 0, _, _, seq => seq
  | fuel + 1, fseq, lseq, seq =>
    if fseq ≤ lseq then
      let mid := fseq + (lseq - fseq) / 2
      match (upFrom mid lseq).findSome? (fun s => (ms.msgs.find s).map fun m => (s, m)) with
      | none => ms.seqFromTimeLoop ts fuel fseq (mid - 1) seq
      | some (s, msg) =>
        if msg.ts ≥ ts then
          if mid == fseq then msg.seq else ms.seqFromTimeLoop ts fuel fseq (mid - 1) msg.seq
        -- continue to the right, past the gap
        else ms.seqFromTimeLoop ts fuel (s + 1) lseq seq
    else seq

def GetSeqFromTime (ms : MemStore) (ts : Int64) : Option UInt64 :=
  if ms.msgs.len == 0 then some (ms.state.LastSeq + 1)
  else
    match ms.msgs.find ms.state.FirstSeq with
    | none => none
    | some fm =>
      if ts ≤ fm.ts then some ms.state.FirstSeq
      else
        -- LastSeq is not guaranteed to be present since last does not go backwards
        match (downFrom ms.state.LastSeq ms.state.FirstSeq).findSome? ms.msgs.find with
        | none => some (ms.state.LastSeq + 1)
        | some lmsg =>
          if ts == lmsg.ts then some lmsg.seq
          else if ts > lmsg.ts then some (ms.state.LastSeq + 1)
          else
            some (ms.seqFromTimeLoop ts (ms.state.LastSeq.toNat + 1 - ms.state.FirstSeq.toNat)
              ms.state.FirstSeq ms.state.LastSeq (ms.state.LastSeq + 1))

/-! ## Matching the subject tree -/

def fssMatch (ms : MemStore) (filter : String) : List (List UInt8 × SimpleState) :=
  let fsa := (stringToBytes filter).splitOn tsep
  let contents := match ms.fss.root with
    | none => []
    | some n => n.entries
  contents.filter fun e => matchParts fsa (e.1.splitOn tsep)

/-- Match with the recalculation its callbacks make first: the store with the matched subjects
recalculated, and the states the callbacks go on to read. -/
def matchRefresh (ms : MemStore) (filter : String) :
    MemStore × List (List UInt8 × SimpleState) :=
  (ms.fssMatch filter).foldl
    (fun acc e =>
      let r := acc.1.refresh e.1 e.2
      (r.1, acc.2 ++ [(e.1, r.2)]))
    (ms, [])

/-! ## filteredStateLocked -/

/-- The totals of the matched subjects: the sum of those at or after `sseq`, whether some subject
straddles `sseq`, and the messages of the subjects that end before it. -/
def matchTotals (sseq : UInt64) (lastPerSubject : Bool) (matched : List (List UInt8 × SimpleState)) :
    SimpleState × Bool × UInt64 :=
  matched.foldl
    (fun acc e =>
      if sseq ≤ e.2.First then (acc.1.add lastPerSubject e.2, acc.2.1, acc.2.2)
      -- a partial: keep tracking its last
      else if sseq ≤ e.2.Last then (acc.1.add lastPerSubject e.2, true, acc.2.2)
      else (acc.1, acc.2.1, acc.2.2 + e.2.Msgs))
    (.empty, false, 0)

/-- The scan of filteredStateLocked once some subject straddles `sseq`: the totals `ss` of the
matched subjects are either counted again over `[first, last]` (inclusive), or corrected by the
matches before `first` and after `last` (exclusive), whichever scans less. -/
def filteredScan (ms : MemStore) (sseq : UInt64) (isMatch : String → Bool)
    (lastPerSubject : Bool) (ss : SimpleState) (totalSkipped : UInt64) : SimpleState :=
  let last := ss.Last
  let needScanFirst := ss.First < sseq
  let first := if needScanFirst then sseq else ss.First
  let toScan := last - first
  let toExclude := first - ms.state.FirstSeq + ms.state.LastSeq - ss.Last
  let track := fun (seen : List String) (sm : Store.StoreMsg) =>
    if lastPerSubject then sm.subj :: seen else seen
  if toScan < toExclude then
    let visit := fun (acc : SimpleState × List String) (sm : Store.StoreMsg) =>
      if !acc.2.contains sm.subj && isMatch sm.subj then
        ({ acc.1 with
            Msgs := acc.1.Msgs + 1
            First := if acc.1.First == 0 then sm.seq else acc.1.First }, track acc.2 sm)
      else acc
    let start : SimpleState × List String := ({ ss with Msgs := 0, First := 0 }, [])
    -- scan the map when that is shorter than the range, as with many interior deletes
    if last - first > UInt64.ofNat ms.msgs.len then
      ((ms.msgs.entries.map Prod.snd).filter (fun sm => first ≤ sm.seq && sm.seq ≤ last)).foldl
        visit start |>.1
    else ((upFrom first last).filterMap ms.msgs.find).foldl visit start |>.1
  else
    let ss := { ss with First := first, Msgs := ss.Msgs + totalSkipped }
    -- with lastPerSubject only a subject all of whose messages are before `first` is taken off
    let exclude := fun (acc : UInt64 × List String) (sm : Store.StoreMsg) =>
      if !acc.2.contains sm.subj && isMatch sm.subj then
        let tss := if lastPerSubject then ms.fss.Find (stringToBytes sm.subj) else none
        let adj : UInt64 :=
          match tss with
          | none => 1
          | some tss => if tss.Last < first then tss.Msgs else 0
        (acc.1 + adj, track acc.2 sm)
      else acc
    let before :=
      if first - ms.state.FirstSeq > UInt64.ofNat ms.msgs.len then
        (ms.msgs.entries.map Prod.snd).filter fun sm => sm.seq < first
      else (upTo ms.state.FirstSeq first).filterMap ms.msgs.find
    let acc := before.foldl exclude (0, [])
    -- the range at the end
    let acc := ((upTo (last + 1) ms.state.LastSeq).filterMap ms.msgs.find).foldl
      (fun acc sm =>
        if !acc.2.contains sm.subj && isMatch sm.subj then (acc.1 + 1, track acc.2 sm) else acc)
      acc
    let ss := { ss with Msgs := ss.Msgs - acc.1 }
    if needScanFirst then
      if last - first > 100 * UInt64.ofNat ms.msgs.len then
        let low := (ms.msgs.entries.map Prod.snd).foldl
          (fun low sm =>
            if first ≤ sm.seq && sm.seq < last && isMatch sm.subj && sm.seq < low then sm.seq
            else low)
          ms.state.LastSeq
        if low < ms.state.LastSeq then { ss with First := low } else ss
      else
        match (upTo first last).find? (fun s =>
            match ms.msgs.find s with
            | some sm => isMatch sm.subj
            | none => false) with
        | some s => { ss with First := s }
        | none => ss
    else ss

/-- filteredStateLocked: the store, whose matched subjects were recalculated, and the state of
the messages at or after `sseq` that `filter` matches. -/
def filteredStateLocked (ms : MemStore) (sseq : UInt64) (filter : String)
    (lastPerSubject : Bool) : MemStore × SimpleState :=
  let sseq := if sseq < ms.state.FirstSeq then ms.state.FirstSeq else sseq
  -- past the end, no results
  if sseq > ms.state.LastSeq then (ms, .empty)
  else
    let filter := if filter == "" then ">" else filter
    let isAll := filter == ">"
    -- all, starting before this store
    if isAll && sseq ≤ ms.state.FirstSeq then
      (ms, ⟨if lastPerSubject then UInt64.ofNat ms.fss.Size else ms.state.Msgs,
        ms.state.FirstSeq, ms.state.LastSeq, false, false⟩)
    else
      let wc := subjectHasWildcard filter
      let isMatch : String → Bool := fun subj =>
        isAll || if wc then isSubsetMatchTokenized (tokens subj) (tokens filter) else subj == filter
      let (ms, matched) := ms.matchRefresh filter
      let (ss, havePartial, totalSkipped) := matchTotals sseq lastPerSubject matched
      if !havePartial then (ms, ss)
      else (ms, ms.filteredScan sseq isMatch lastPerSubject ss totalSkipped)

def FilteredState (ms : MemStore) (sseq : UInt64) (subj : String) : MemStore × SimpleState :=
  ms.filteredStateLocked sseq subj false

def NumPending (ms : MemStore) (sseq : UInt64) (filter : String) (lastPerSubject : Bool) :
    MemStore × UInt64 × UInt64 :=
  let r := ms.filteredStateLocked sseq filter lastPerSubject
  (r.1, r.2.Msgs, r.1.state.LastSeq)

/-! ## Loading the next and the previous message -/

def shouldLinearScan (ms : MemStore) (filter : String) (wc : Bool) (start : UInt64) : Bool :=
  filter == ">" || (2 * (ms.state.LastSeq - start).toInt64).toInt < ms.fss.Size ||
    (wc && ms.fss.Size > 256)

/-- nextWildcardMatchLocked: the store and the bounds of the matches at or after `start`. The
walk stops at the first subject that straddles `start`. -/
def nextWildcardMatchLocked (ms : MemStore) (filter : String) (start : UInt64) :
    MemStore × Option (UInt64 × UInt64) :=
  let r := (ms.fssMatch filter).foldl
    (fun (acc : MemStore × Bool × UInt64 × UInt64 × Bool) e =>
      let (ms, found, first, last, going) := acc
      if !going then acc
      else
        let (ms, ss) := ms.refresh e.1 e.2
        -- skip matches below the starting sequence
        if start > ss.Last then (ms, found, first, last, true)
        else
          let first := if ss.First < first then ss.First else first
          let last := if ss.Last > last then ss.Last else last
          (ms, true, first, last, first > start))
    (ms, false, ms.state.LastSeq, 0, true)
  let (ms, found, first, last, _) := r
  if !found then (ms, none) else (ms, some (max first start, last))

def nextLiteralMatchLocked (ms : MemStore) (filter : String) (start : UInt64) :
    MemStore × Option (UInt64 × UInt64) :=
  match ms.fss.Find (stringToBytes filter) with
  | none => (ms, none)
  | some ss =>
    let (ms, ss) := ms.refresh (stringToBytes filter) ss
    if start > ss.Last then (ms, none) else (ms, some (max start ss.First, ss.Last))

def firstMatch (ms : MemStore) (isAll : Bool) (eq : String → String → Bool) (filter : String)
    (seqs : List UInt64) : Option (Store.StoreMsg × UInt64) :=
  seqs.findSome? fun n =>
    (ms.msgs.find n).bind fun sm => if isAll || eq sm.subj filter then some (sm, n) else none

def loadNextMsgLocked (ms : MemStore) (filter : String) (wc : Bool) (start : UInt64) :
    MemStore × Except StoreError (Store.StoreMsg × UInt64) :=
  let start := if start < ms.state.FirstSeq then ms.state.FirstSeq else start
  -- past the end, no results
  if start > ms.state.LastSeq || ms.state.Msgs == 0 then (ms, .error .ErrStoreEOF)
  else
    let filter := if filter == "" then ">" else filter
    let isAll := filter == ">"
    let (ms, bounds) :=
      if !ms.shouldLinearScan filter wc start then
        if wc then ms.nextWildcardMatchLocked filter start
        else ms.nextLiteralMatchLocked filter start
      else (ms, some (start, ms.state.LastSeq))
    match bounds with
    | none => (ms, .error .ErrStoreEOF)
    | some (fseq, lseq) =>
      let eq : String → String → Bool := if wc then matchLiteral else fun a b => a == b
      match ms.firstMatch isAll eq filter (upFrom fseq lseq) with
      | some r => (ms, .ok r)
      | none => (ms, .error .ErrStoreEOF)

def LoadPrevMsg (ms : MemStore) (filter : String) (wc : Bool) (start : UInt64) :
    Except StoreError (Store.StoreMsg × UInt64) :=
  if ms.state.Msgs == 0 || start < ms.state.FirstSeq then .error .ErrStoreEOF
  else
    let start := if start > ms.state.LastSeq then ms.state.LastSeq else start
    let (filter, wc) := if filter == "" then (">", true) else (filter, wc)
    let eq : String → String → Bool := if wc then matchLiteral else fun a b => a == b
    match ms.firstMatch (filter == ">") eq filter (upFrom ms.state.FirstSeq start).reverse with
    | some r => .ok r
    | none => .error .ErrStoreEOF

/-! ## PurgeEx -/

def purgeExLoop (eq : String → Bool) (maxp : UInt64) :
    List UInt64 → MemStore × UInt64 → MemStore × UInt64
  | [], acc => acc
  | seq :: seqs, (ms, purged) =>
    match ms.msgs.find seq with
    | some sm =>
      if eq sm.subj then
        match ms.removeMsgNoCB sm.seq with
        | (ms, some _) =>
          if maxp > 0 && purged + 1 ≥ maxp then (ms, purged + 1)
          else purgeExLoop eq maxp seqs (ms, purged + 1)
        | (ms, none) => purgeExLoop eq maxp seqs (ms, purged)
      else purgeExLoop eq maxp seqs (ms, purged)
    | none => purgeExLoop eq maxp seqs (ms, purged)

def PurgeEx (ms : MemStore) (subject : String) (sequence keep : UInt64) :
    MemStore × Except StoreError UInt64 :=
  -- purge up to but not including 1: nothing
  if sequence == 1 then (ms, .ok 0)
  else if (subject == "" || subject == ">") && keep == 0 && sequence == 0 then
    match ms.purge 0 with
    | .ok r => (r.1, .ok r.2)
    | .error e => (ms, .error e)
  else if (subject == "" || subject == ">") && sequence > 1 then
    match ms.compact sequence with
    | .ok r => (r.1, .ok r.2)
    | .error e => (ms, .error e)
  else
    let subject := if subject == "" then ">" else subject
    let eq := compareFn subject
    -- FilteredState narrows the search range
    let (ms, ss) := ms.FilteredState 1 subject
    if ss.Msgs == 0 then (ms, .ok 0)
    else if keep > 0 && keep ≥ ss.Msgs then (ms, .ok 0)
    else
      let maxp := if keep > 0 then ss.Msgs - keep else 0
      let last := if sequence ≥ 1 then sequence - 1 else ss.Last
      let r := purgeExLoop (fun subj => eq subj subject) maxp (upFrom ss.First last) (ms, 0)
      (r.1, .ok r.2)

/-! ## What the queries answer -/

/-- Timestamps 0, 5 and 5 at sequences 1, 2 and 3: at time 5 GetSeqFromTime answers 3, the last
message's sequence, though message 2 already has timestamp 5. -/
theorem GetSeqFromTime_equal_timestamps :
    (newMemStore false 0).map (fun ms =>
      ((run step ms [.storeMsg "a" ⟨0, none, []⟩ 0 0 0, .storeMsg "a" ⟨0, none, []⟩ 0 0 5,
          .storeMsg "a" ⟨0, none, []⟩ 0 0 5]).GetSeqFromTime 5,
        ((run step ms [.storeMsg "a" ⟨0, none, []⟩ 0 0 0, .storeMsg "a" ⟨0, none, []⟩ 0 0 5,
          .storeMsg "a" ⟨0, none, []⟩ 0 0 5]).msgs.find 2).map Store.StoreMsg.ts)) =
      .ok (some 3, some 5) := by
  decide +kernel

/-- Messages on `a`, `b`, `b` and `a`: from sequence 2 one message matches `a`, the one at 4, but
FilteredState answers First 2, where the message is on `b`. The exclusive scan looks for the
first match below `last` only. -/
theorem FilteredState_first_unmatched :
    (newMemStore false 0).map (fun ms =>
      (((run step ms [.storeMsg "a" ⟨0, none, []⟩ 0 0 0, .storeMsg "b" ⟨0, none, []⟩ 0 0 0,
          .storeMsg "b" ⟨0, none, []⟩ 0 0 0, .storeMsg "a" ⟨0, none, []⟩ 0 0 0]).FilteredState 2 "a").2,
        (run step ms [.storeMsg "a" ⟨0, none, []⟩ 0 0 0, .storeMsg "b" ⟨0, none, []⟩ 0 0 0,
          .storeMsg "b" ⟨0, none, []⟩ 0 0 0, .storeMsg "a" ⟨0, none, []⟩ 0 0 0]).msgs.entries.map
            fun e => (e.1, e.2.subj))) =
      .ok (⟨1, 2, 4, false, false⟩, [(1, "a"), (2, "b"), (3, "b"), (4, "a")]) := by
  decide +kernel

/-- A message on a subject holding `noPivot` has no per-subject state, and a literal load finds
its bounds in the tree: LoadNextMsg of that subject answers EOF, though the message is there. -/
theorem loadNextMsgLocked_untracked (subj : String) (hs : noPivot ∈ stringToBytes subj)
    (hdr : Hdr) (msgLen : Nat) (ttl ts : Int64) :
    (newMemStore false 0).map (fun ms =>
      ((run step ms [.storeMsg subj hdr msgLen ttl ts]).loadNextMsgLocked subj false 0).2) =
        .ok (.error .ErrStoreEOF) ∧
    (newMemStore false 0).map (fun ms =>
      ((run step ms [.storeMsg subj hdr msgLen ttl ts]).msgs.find 1).map Store.StoreMsg.subj) =
        .ok (some subj) := by
  have h := run_storeMsg_untracked_fresh hs hdr msgLen ttl ts
  obtain ⟨ms0, h0⟩ : ∃ ms0, newMemStore false 0 = .ok ms0 := ⟨_, rfl⟩
  rw [h0] at h ⊢
  simp only [Except.map, Except.ok.injEq] at h ⊢
  rw [h]
  obtain ⟨hne, hgt⟩ := beq_all_of_noPivot hs
  constructor
  · simp [loadNextMsgLocked, shouldLinearScan, nextLiteralMatchLocked, hne, hgt]
  · rfl

theorem loadNextMsgLocked_untracked_del :
    noPivot ∈ stringToBytes "a\x7f" ∧
    (newMemStore false 0).map (fun ms =>
      ((run step ms [.storeMsg "a\x7f" ⟨0, none, []⟩ 0 0 0]).loadNextMsgLocked "a\x7f" false 0).2) =
        .ok (.error .ErrStoreEOF) :=
  ⟨by decide +kernel, (loadNextMsgLocked_untracked "a\x7f" (by decide +kernel) ⟨0, none, []⟩ 0 0 0).1⟩

/-- The same message survives PurgeEx of its own subject, with no sequence and nothing to keep:
FilteredState finds no message to purge. -/
theorem PurgeEx_untracked (subj : String) (hs : noPivot ∈ stringToBytes subj) (hdr : Hdr)
    (msgLen : Nat) (ttl ts : Int64) :
    (newMemStore false 0).map (fun ms =>
      ((run step ms [.storeMsg subj hdr msgLen ttl ts]).PurgeEx subj 0 0).2) = .ok (.ok 0) ∧
    (newMemStore false 0).map (fun ms =>
      (((run step ms [.storeMsg subj hdr msgLen ttl ts]).PurgeEx subj 0 0).1.msgs.find 1).map
        Store.StoreMsg.subj) = .ok (some subj) := by
  have h := run_storeMsg_untracked_fresh hs hdr msgLen ttl ts
  obtain ⟨ms0, h0⟩ : ∃ ms0, newMemStore false 0 = .ok ms0 := ⟨_, rfl⟩
  rw [h0] at h ⊢
  simp only [Except.map, Except.ok.injEq] at h ⊢
  rw [h]
  obtain ⟨hne, hgt⟩ := beq_all_of_noPivot hs
  set ms1 : MemStore :=
    { cfg := {}
      state := ⟨1, memStoreMsgSize subj hdr msgLen, 1, 1⟩
      msgs := Assoc.Map.empty.set 1 ⟨subj, hdr, msgLen, 1, ts⟩
      fss := SubjectTree.NewSubjectTree
      dmap := SequenceSet.empty
      maxp := 0
      ttls := none }
  -- the subject has no state in the tree, so FilteredState counts nothing
  have hpurge : ms1.PurgeEx subj 0 0 = (ms1, .ok 0) := by
    simp [ms1, PurgeEx, FilteredState, filteredStateLocked, matchRefresh, fssMatch, matchTotals,
      hne, hgt, SubjectTree.NewSubjectTree, SimpleState.empty]
  rw [hpurge]
  exact ⟨rfl, rfl⟩

theorem PurgeEx_untracked_del :
    noPivot ∈ stringToBytes "a\x7f" ∧
    (newMemStore false 0).map (fun ms =>
      ((run step ms [.storeMsg "a\x7f" ⟨0, none, []⟩ 0 0 0]).PurgeEx "a\x7f" 0 0).2) = .ok (.ok 0) :=
  ⟨by decide +kernel, (PurgeEx_untracked "a\x7f" (by decide +kernel) ⟨0, none, []⟩ 0 0 0).1⟩

end MemStore

end NatsServer.Store
