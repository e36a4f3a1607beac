import NatsServer.Store.Consumer
import NatsServer.Thw.Expire
import NatsServer.Stree.Tree
import NatsServer.Avl.SeqSet
import NatsServer.Lib.Calls

/-!
# The memory store

`memStore` of memstore.go with what its sequence bookkeeping reads and writes: the map of
messages, the counters and first and last sequences of its state, the per-subject states in a
subject tree (`fss`), the delete map `dmap`, the limits of its config and the TTL hash wheel. A
message header is read only for its length, for `getMessageTTL` and for the rollup header that
the DiscardNewPer check lets through. The clock of `StoreMsg` and `expireMsgs` is an argument
that stays fixed through one call. Schedules, subject delete markers, the age timer and the
storage callback are left out.

The subject tree keys a subject by its bytes and refuses one holding `Stree.noPivot`; the store
ignores the refusal, so such a subject has no per-subject state.

`purge`, `reset` and `Truncate` drop messages without touching the wheel, and `expireMsgs`
removes by sequence alone: a later message that reuses a truncated sequence is removed by the
expiry of the message that registered it.
-/

namespace NatsServer.Store

open NatsServer.Lib NatsServer.Thw NatsServer.Stree NatsServer.Avl

/-- The message header as the store reads it: its length, the value of its TTL header (`none`
when there is none, an error when it does not parse) and the value of its rollup header, empty
when there is none. -/
structure Hdr where
  len : Nat
  ttl : Option (Except Unit Int64)
  rollup : List UInt8
  deriving DecidableEq, Repr

structure StoreMsg where
  subj : String
  hdr : Hdr
  msgLen : Nat
  seq : UInt64
  ts : Int64
  deriving DecidableEq, Repr

structure StreamState where
  Msgs : UInt64
  Bytes : UInt64
  FirstSeq : UInt64
  LastSeq : UInt64
  deriving DecidableEq, Repr

inductive DiscardPolicy
  | DiscardOld
  | DiscardNew
  deriving DecidableEq, Repr

structure StreamConfig where
  MaxMsgs : Int64 := 0
  MaxBytes : Int64 := 0
  MaxMsgsPer : Int64 := 0
  MaxAge : Int64 := 0
  Discard : DiscardPolicy := .DiscardOld
  DiscardNewPer : Bool := false
  deriving DecidableEq, Repr

structure SimpleState where
  Msgs : UInt64
  First : UInt64
  Last : UInt64
  firstNeedsUpdate : Bool
  lastNeedsUpdate : Bool
  deriving DecidableEq, Repr

structure MemStore where
  cfg : StreamConfig
  state : StreamState
  msgs : Assoc.Map UInt64 StoreMsg
  fss : SubjectTree SimpleState
  dmap : SequenceSet
  maxp : Int64
  ttls : Option HashWheel

/-- The errors of the store. `inconsistentState` is not an error value of the source: it stands
for the panic of deleteFirstMsgOrPanic. -/
inductive StoreError
  | ErrSequenceMismatch
  | partialPurge
  | ErrMaxMsgs
  | ErrMaxBytes
  | ErrMaxMsgsPerSubject
  | ErrStoreEOF
  | inconsistentState
  deriving DecidableEq, Repr

def StoreError.Error : StoreError → String
  | .ErrSequenceMismatch => "expected sequence does not match store"
  | .partialPurge => "partial purges not supported on memory store"
  | .ErrMaxMsgs => "maximum messages exceeded"
  | .ErrMaxBytes => "maximum bytes exceeded"
  | .ErrMaxMsgsPerSubject => "maximum messages per subject exceeded"
  | .ErrStoreEOF => "stream store EOF"
  | .inconsistentState => "jetstream memstore has inconsistent state, can\x27t find first seq msg"

def getMessageTTL (hdr : Hdr) : Except Unit Int64 := hdr.ttl.getD (.ok 0)

def memStoreMsgSizeRaw (slen hlen mlen : Nat) : UInt64 := UInt64.ofNat (slen + hlen + mlen + 16)

def memStoreMsgSize (subj : String) (hdr : Hdr) (mlen : Nat) : UInt64 :=
  memStoreMsgSizeRaw subj.utf8ByteSize hdr.len mlen

def ttlExpires (ts ttl : Int64) : Int64 := ts + second * ttl

def stringToBytes (s : String) : List UInt8 := s.toUTF8.toList

theorem isEmpty_of_noPivot {s : String} (h : noPivot ∈ stringToBytes s) : s.isEmpty = false := by
  cases hs : s.isEmpty
  · rfl
  · rw [String.isEmpty_iff] at hs
    subst hs
    exact absurd h (by decide +kernel)

theorem ne_of_noPivot {s t : String} (hs : noPivot ∈ stringToBytes s)
    (ht : noPivot ∉ stringToBytes t) : s ≠ t := by
  rintro rfl
  exact ht hs

theorem beq_all_of_noPivot {s : String} (hs : noPivot ∈ stringToBytes s) :
    (s == "") = false ∧ (s == ">") = false :=
  ⟨beq_eq_false_iff_ne.mpr (ne_of_noPivot hs (by decide +kernel)),
    beq_eq_false_iff_ne.mpr (ne_of_noPivot hs (by decide +kernel))⟩

def SimpleState.removeSeq (ss : SimpleState) (seq : UInt64) : Option SimpleState :=
  if ss.Msgs == 1 then none
  else
    let ss := { ss with Msgs := ss.Msgs - 1 }
    -- only one left
    if ss.Msgs == 1 && !ss.lastNeedsUpdate && seq != ss.Last then
      some { ss with First := ss.Last, firstNeedsUpdate := false }
    else if ss.Msgs == 1 && !ss.firstNeedsUpdate && seq != ss.First then
      some { ss with Last := ss.First, lastNeedsUpdate := false }
    else
      some { ss with
        firstNeedsUpdate := seq == ss.First || ss.firstNeedsUpdate
        lastNeedsUpdate := seq == ss.Last || ss.lastNeedsUpdate }

namespace MemStore

def setSS (ms : MemStore) (subj : List UInt8) (ss : SimpleState) : MemStore :=
  { ms with fss := (ms.fss.Insert subj ss).1 }

def onSubj (ms : MemStore) (subj : List UInt8) (seq : UInt64) : Bool :=
  match ms.msgs.find seq with
  | some sm => stringToBytes sm.subj == subj
  | none => false

/-- recalculateForSubj: a First and a Last flagged for an update looked up again, by the scan up
from `First + 1` and the scan down from `Last - 1`. -/
def recalculateForSubj (ms : MemStore) (subj : List UInt8) (ss : SimpleState) : SimpleState :=
  let ss :=
    if ss.firstNeedsUpdate then
      let tseq := if ss.First + 1 < ms.state.FirstSeq then ms.state.FirstSeq else ss.First + 1
      match (upFrom tseq ss.Last).find? (ms.onSubj subj) with
      | some tseq =>
        if ss.Msgs == 1 then
          { ss with First := tseq, firstNeedsUpdate := false, Last := tseq,
                    lastNeedsUpdate := false }
        else { ss with First := tseq, firstNeedsUpdate := false }
      | none => ss
    else ss
  if ss.lastNeedsUpdate then
    let tseq := if ss.Last - 1 > ms.state.LastSeq then ms.state.LastSeq else ss.Last - 1
    match (upFrom ss.First tseq).reverse.find? (ms.onSubj subj) with
    | some tseq =>
      if ss.Msgs == 1 then
        { ss with Last := tseq, lastNeedsUpdate := false, First := tseq,
                  firstNeedsUpdate := false }
      else { ss with Last := tseq, lastNeedsUpdate := false }
    | none => ss
  else ss

def refresh (ms : MemStore) (subj : List UInt8) (ss : SimpleState) : MemStore × SimpleState :=
  if ss.firstNeedsUpdate || ss.lastNeedsUpdate then
    let ss := ms.recalculateForSubj subj ss
    (ms.setSS subj ss, ss)
  else (ms, ss)

def removeSeqPerSubject (ms : MemStore) (subj : String) (seq : UInt64) : MemStore :=
  match ms.fss.Find (stringToBytes subj) with
  | none => ms
  | some ss =>
    match ss.removeSeq seq with
    | none => { ms with fss := (ms.fss.Delete (stringToBytes subj)).1 }
    | some ss => ms.setSS (stringToBytes subj) ss

def purge (ms : MemStore) (fseq : UInt64) : Except StoreError (MemStore × UInt64) :=
  if fseq != 0 && fseq < ms.state.LastSeq then .error .partialPurge
  else
    let fseq := if fseq == 0 then ms.state.LastSeq + 1 else fseq
    .ok ({ ms with
      msgs := Assoc.Map.empty
      state := ⟨0, 0, fseq, fseq - 1⟩
      fss := SubjectTree.NewSubjectTree
      dmap := ms.dmap.Empty }, UInt64.ofNat ms.msgs.len)

def Purge (ms : MemStore) : Except StoreError (MemStore × UInt64) := ms.purge 0

def firstStored (ms : MemStore) (lo hi : UInt64) : Option UInt64 :=
  ((ms.msgs.entries.map Prod.fst).filter fun s => lo ≤ s && s ≤ hi).min?

def updateFirstSeq (ms : MemStore) (seq : UInt64) : MemStore :=
  if seq != ms.state.FirstSeq then ms
  else
    let oldFirst := ms.state.FirstSeq
    let first :=
      match ms.firstStored (ms.state.FirstSeq + 1) ms.state.LastSeq with
      | some nseq => nseq
      | none => ms.state.LastSeq + 1
    let dmap :=
      if oldFirst == first - 1 then (ms.dmap.Delete oldFirst).1
      else (upTo oldFirst first).foldl (fun d s => (d.Delete s).1) ms.dmap
    { ms with state := { ms.state with FirstSeq := first }, dmap }

/-- removeMsgNoCB: the store and the removed message's subject and size, if there was one. The
TTL entry is looked up with the expiration the message's own header gives; a failed removal
from the wheel is ignored. -/
def removeMsgNoCB (ms : MemStore) (seq : UInt64) : MemStore × Option (String × UInt64) :=
  match ms.msgs.find seq with
  | none => (ms, none)
  | some sm =>
    let size := memStoreMsgSize sm.subj sm.hdr sm.msgLen
    let (ms, size) :=
      if ms.state.Msgs > 0 then
        let size := if size > ms.state.Bytes then ms.state.Bytes else size
        ({ ms with state := ⟨ms.state.Msgs - 1, ms.state.Bytes - size, ms.state.FirstSeq,
            ms.state.LastSeq⟩ }, size)
      else (ms, size)
    let ms := { ms with dmap := ms.dmap.Insert seq }
    let ms := ms.updateFirstSeq seq
    let ms := ms.removeSeqPerSubject sm.subj seq
    let ttls :=
      match ms.ttls, getMessageTTL sm.hdr with
      | some hw, .ok ttl =>
        match hw.Remove seq (ttlExpires sm.ts ttl) with
        | .ok hw' => some hw'
        | .error _ => some hw
      | ttls, _ => ttls
    ({ ms with msgs := ms.msgs.erase seq, ttls }, some (sm.subj, size))

def removeMsg (ms : MemStore) (seq : UInt64) : MemStore := (ms.removeMsgNoCB seq).1

def RemoveMsg (ms : MemStore) (seq : UInt64) : MemStore × Bool :=
  ((ms.removeMsgNoCB seq).1, (ms.removeMsgNoCB seq).2.isSome)

/-! ## Limits -/

/-- The loop of enforcePerSubjectLimit, `ss` the subject's state as its pointer reads it. A pass
that removes nothing ends it; every other pass removes a message, so one pass more than there
are messages is enough. -/
def enforcePerSubjectLoop (subj : String) : Nat → MemStore → SimpleState → MemStore
  | 0, ms, _ => ms
  | fuel + 1, ms, ss =>
    if ss.Msgs > ms.maxp.toUInt64 then
      let (ms, ss) := ms.refresh (stringToBytes subj) ss
      match ms.removeMsgNoCB ss.First with
      | (_, none) => ms
      | (ms, some _) =>
        enforcePerSubjectLoop subj fuel ms ((ms.fss.Find (stringToBytes subj)).getD ss)
    else ms

def enforcePerSubjectLimit (ms : MemStore) (subj : String) (ss : SimpleState) : MemStore :=
  if ms.maxp ≤ 0 then ms else enforcePerSubjectLoop subj (ms.msgs.len + 1) ms ss

def deleteFirstWhile (exceeded : StreamState → Bool) : Nat → MemStore → Except StoreError MemStore
  | 0, ms => .ok ms
  | fuel + 1, ms =>
    if exceeded ms.state then
      match ms.removeMsgNoCB ms.state.FirstSeq with
      | (_, none) => .error .inconsistentState
      | (ms, some _) => deleteFirstWhile exceeded fuel ms
    else .ok ms

/-- enforceMsgLimit and enforceBytesLimit, for the limit `limit` on the counter `count`: with
DiscardOld, the first message goes while the counter is over the limit. -/
def enforceLimit (limit : Int64) (count : StreamState → UInt64) (ms : MemStore) :
    Except StoreError MemStore :=
  if ms.cfg.Discard != .DiscardOld then .ok ms
  else if limit ≤ 0 || count ms.state ≤ limit.toUInt64 then .ok ms
  else deleteFirstWhile (fun st => count st > limit.toUInt64) (ms.msgs.len + 1) ms

def enforceMsgLimit (ms : MemStore) : Except StoreError MemStore :=
  enforceLimit ms.cfg.MaxMsgs StreamState.Msgs ms

def enforceBytesLimit (ms : MemStore) : Except StoreError MemStore :=
  enforceLimit ms.cfg.MaxBytes StreamState.Bytes ms

/-! ## Storing -/

/-- The DiscardNew checks of storeRawMsg, made before anything is stored: the store, the
subject's state `ss` (recalculated where the bytes check reads its first message) and the error
refusing the message. `asl` says the subject is at its limit. -/
def discardNew (ms : MemStore) (subj : String) (hdr : Hdr) (size : UInt64)
    (ss : Option SimpleState) (asl : Bool) : MemStore × Option SimpleState × Option StoreError :=
  -- a rollup message gets through: it purges the subject's old messages once stored
  if asl && ms.cfg.DiscardNewPer && hdr.rollup.length == 0 then (ms, ss, some .ErrMaxMsgsPerSubject)
  -- at the subject's limit the message replaces one, so the store keeps its count
  else if ms.cfg.MaxMsgs > 0 && ms.state.Msgs ≥ ms.cfg.MaxMsgs.toUInt64 && !asl then
    (ms, ss, some .ErrMaxMsgs)
  else if ms.cfg.MaxBytes > 0 && ms.state.Bytes + size > ms.cfg.MaxBytes.toUInt64 then
    match asl, ss with
    | true, some ss =>
      -- dropping the subject's first message must make room
      let (ms, ss) := ms.refresh (stringToBytes subj) ss
      match ms.msgs.find ss.First with
      | some sm =>
        (ms, some ss,
          if memStoreMsgSize sm.subj sm.hdr sm.msgLen < size then some .ErrMaxBytes else none)
      | none => (ms, some ss, some .ErrMaxBytes)
    | _, _ => (ms, ss, some .ErrMaxBytes)
  else (ms, ss, none)

def storeRawMsg (ms : MemStore) (subj : String) (hdr : Hdr) (msgLen : Nat) (seq : UInt64)
    (ts ttl : Int64) (discardNewCheck : Bool) : MemStore × Except StoreError Unit :=
  -- tracking by subject
  let ss := if subj.isEmpty then none else ms.fss.Find (stringToBytes subj)
  let asl :=
    match ss with
    | some ss => ms.maxp > 0 && ss.Msgs ≥ ms.maxp.toUInt64
    | none => false
  let size := memStoreMsgSize subj hdr msgLen
  let (ms, ss, refused) :=
    if discardNewCheck && ms.cfg.Discard == .DiscardNew then ms.discardNew subj hdr size ss asl
    else (ms, ss, none)
  match refused with
  | some e => (ms, .error e)
  | none =>
    if seq != ms.state.LastSeq + 1 && seq > 0 then (ms, .error .ErrSequenceMismatch)
    else
      let seq := ms.state.LastSeq + 1
      let firstSeq := if ms.state.Msgs == 0 then seq else ms.state.FirstSeq
      let ms := { ms with
        msgs := ms.msgs.set seq ⟨subj, hdr, msgLen, seq, ts⟩
        state := ⟨ms.state.Msgs + 1, ms.state.Bytes + size, firstSeq, seq⟩ }
      let ms :=
        if subj.isEmpty then ms
        else
          match ss with
          | some ss =>
            let ss := { ss with Msgs := ss.Msgs + 1, Last := seq, lastNeedsUpdate := false }
            let ms := ms.setSS (stringToBytes subj) ss
            if ms.maxp > 0 && ss.Msgs > ms.maxp.toUInt64 then ms.enforcePerSubjectLimit subj ss
            else ms
          | none => { ms with fss := (ms.fss.Insert (stringToBytes subj) ⟨1, seq, seq, false, false⟩).1 }
      match ms.enforceMsgLimit >>= enforceBytesLimit with
      | .error e => (ms, .error e)
      | .ok ms =>
        ({ ms with
          ttls := match ms.ttls with
            | some hw => if ttl > 0 then some (hw.Add seq (ttlExpires ts ttl)) else some hw
            | none => none }, .ok ())

def StoreMsg (ms : MemStore) (subj : String) (hdr : Hdr) (msgLen : Nat) (ttl ts : Int64) :
    MemStore × Except StoreError UInt64 :=
  let seq := ms.state.LastSeq + 1
  let r := ms.storeRawMsg subj hdr msgLen seq ts ttl true
  (r.1, r.2.map fun _ => seq)

def skipMsg (ms : MemStore) (seq : UInt64) : MemStore × Except StoreError UInt64 :=
  if seq != ms.state.LastSeq + 1 && seq > 0 then (ms, .error .ErrSequenceMismatch)
  else
    let seq := ms.state.LastSeq + 1
    let ms := { ms with state := { ms.state with LastSeq := seq } }
    if ms.state.Msgs == 0 then ({ ms with state := { ms.state with FirstSeq := seq + 1 } }, .ok seq)
    else ({ ms with dmap := ms.dmap.Insert seq }, .ok seq)

def SkipMsgs (ms : MemStore) (seq num : UInt64) : Except StoreError MemStore :=
  if seq != ms.state.LastSeq + 1 && seq > 0 then .error .ErrSequenceMismatch
  else
    let seq := ms.state.LastSeq + 1
    let lseq := seq + num - 1
    let ms := { ms with state := { ms.state with LastSeq := lseq } }
    if ms.state.Msgs == 0 then .ok { ms with state := { ms.state with FirstSeq := lseq + 1 } }
    else .ok { ms with dmap := (upFrom seq lseq).foldl SequenceSet.Insert ms.dmap }

/-! ## Removing ranges -/

/-- One pass of the removal loops of compact and Truncate at `seq`, with the count and the bytes
removed so far: a message there goes and is counted; a sequence with none leaves the delete map. -/
def dropSeq (acc : MemStore × UInt64 × UInt64) (seq : UInt64) : MemStore × UInt64 × UInt64 :=
  let (ms, purged, bytes) := acc
  match ms.msgs.find seq with
  | some sm =>
    let ms := ms.removeSeqPerSubject sm.subj seq
    ({ ms with msgs := ms.msgs.erase seq }, purged + 1,
      bytes + memStoreMsgSize sm.subj sm.hdr sm.msgLen)
  | none => (if ms.dmap.IsEmpty then ms else { ms with dmap := (ms.dmap.Delete seq).1 }, purged, bytes)

def compact (ms : MemStore) (seq : UInt64) : Except StoreError (MemStore × UInt64) :=
  if seq == 0 then ms.Purge
  else if ms.state.FirstSeq > seq then .ok (ms, 0)
  else if seq ≤ ms.state.LastSeq then
    let fseq := ms.state.FirstSeq
    -- the new first sequence: where the scan up from `seq` stops
    let (ms, seq) :=
      match (upFrom seq ms.state.LastSeq).find? (fun s => (ms.msgs.find s).isSome) with
      | some s => ({ ms with state := { ms.state with FirstSeq := s } }, s)
      | none => (ms, ms.state.LastSeq + 1)
    let (ms, purged, bytes) := (upFrom fseq (seq - 1)).reverse.foldl dropSeq (ms, 0, 0)
    let purged := if purged > ms.state.Msgs then ms.state.Msgs else purged
    let left := ms.state.Msgs - purged
    let bytes := if bytes > ms.state.Bytes then ms.state.Bytes else bytes
    .ok ({ ms with
      state := ⟨left, ms.state.Bytes - bytes,
        if left == 0 then ms.state.LastSeq + 1 else ms.state.FirstSeq, ms.state.LastSeq⟩ },
      purged)
  else
    -- compacting past the end: a purge that sets the next sequence to `seq`
    .ok ({ ms with
      msgs := Assoc.Map.empty
      state := ⟨0, 0, seq, seq - 1⟩
      fss := SubjectTree.NewSubjectTree
      dmap := ms.dmap.Empty }, UInt64.ofNat ms.msgs.len)

def reset (ms : MemStore) : MemStore :=
  { ms with
    msgs := Assoc.Map.empty
    state := ⟨0, 0, 0, 0⟩
    fss := SubjectTree.NewSubjectTree
    dmap := ms.dmap.Empty }

def Truncate (ms : MemStore) (seq : UInt64) : MemStore :=
  if seq == 0 then ms.reset
  else
    let (ms', purged, bytes) := (downFrom ms.state.LastSeq seq).foldl dropSeq (ms, 0, 0)
    let purged := if purged > ms.state.Msgs then ms.state.Msgs else purged
    let bytes := if bytes > ms.state.Bytes then ms.state.Bytes else bytes
    { ms' with state := ⟨ms.state.Msgs - purged, ms.state.Bytes - bytes, ms.state.FirstSeq, seq⟩ }

/-- The test of the MaxAge loop: a header that sets a negative TTL keeps its message. -/
def neverExpires (hdr : Hdr) : Bool :=
  decide (hdr.len > 0) &&
    match getMessageTTL hdr with
    | .ok ttl => decide (ttl < 0)
    | .error _ => false

/-- LoadNextMsg with the filter `>`, which scans the sequences one by one: the first stored
message at or after `start`, and its sequence. -/
def loadNextAll (ms : MemStore) (start : UInt64) : Option (UInt64 × Store.StoreMsg) :=
  let start := if start < ms.state.FirstSeq then ms.state.FirstSeq else start
  (ms.firstStored start ms.state.LastSeq).bind fun s => (ms.msgs.find s).map (s, ·)

/-- The MaxAge loop of expireMsgs from `seq` on: the next stored message, while it is no newer
than `minAge`, goes unless its header sets a negative TTL. Every pass moves past a stored
message, so one pass more than there are messages is enough; the source's `seq + 1` at the top
sequence wraps to the first message, where the fuel stops the loop. -/
def expireAgeLoop (minAge : Int64) : Nat → MemStore → UInt64 → MemStore
  | 0, ms, _ => ms
  | fuel + 1, ms, seq =>
    match ms.loadNextAll seq with
    | some (seq, sm) =>
      if sm.ts ≤ minAge then
        if neverExpires sm.hdr then expireAgeLoop minAge fuel ms (seq + 1)
        else expireAgeLoop minAge fuel (ms.removeMsg seq) (seq + 1)
      else ms
    | none => ms

/-- expireMsgs without subject delete markers: with a MaxAge, the messages older than it go
first; then the wheel's callback keeps every entry, and each expired sequence is removed from
the store. -/
def expireMsgs (ms : MemStore) (now : Int64) : MemStore :=
  let maxAge := ms.cfg.MaxAge
  let ms := if maxAge > 0 then expireAgeLoop (now - maxAge) (ms.msgs.len + 1) ms 0 else ms
  match ms.ttls with
  | none => ms
  | some hw =>
    let r := hw.expireTasks now fun _ _ => false
    r.2.foldl (fun ms rm => ms.removeMsg rm.1) { ms with ttls := some r.1 }

end MemStore

def newMemStore (allowMsgTTL : Bool) (firstSeq : UInt64) (cfg : StreamConfig := {}) :
    Except StoreError MemStore :=
  let ms : MemStore :=
    { cfg
      state := ⟨0, 0, 0, 0⟩
      msgs := Assoc.Map.empty
      fss := SubjectTree.NewSubjectTree
      dmap := SequenceSet.empty
      maxp := cfg.MaxMsgsPer
      ttls := if allowMsgTTL then some NewHashWheel else none }
  if firstSeq > 0 then (ms.purge firstSeq).map Prod.fst else .ok ms

namespace MemStore

inductive Op
  | storeMsg (subj : String) (hdr : Hdr) (msgLen : Nat) (ttl ts : Int64)
  | storeRawMsg (subj : String) (hdr : Hdr) (msgLen : Nat) (seq : UInt64) (ts ttl : Int64)
      (discardNewCheck : Bool)
  | skipMsg (seq : UInt64)
  | skipMsgs (seq num : UInt64)
  | removeMsg (seq : UInt64)
  | purge
  | compact (seq : UInt64)
  | truncate (seq : UInt64)
  | expireMsgs (now : Int64)

def step (ms : MemStore) : Op → MemStore
  | .storeMsg subj hdr msgLen ttl ts => (ms.StoreMsg subj hdr msgLen ttl ts).1
  | .storeRawMsg subj hdr msgLen seq ts ttl d => (ms.storeRawMsg subj hdr msgLen seq ts ttl d).1
  | .skipMsg seq => (ms.skipMsg seq).1
  | .skipMsgs seq num =>
    match ms.SkipMsgs seq num with
    | .ok ms' => ms'
    | .error _ => ms
  | .removeMsg seq => (ms.RemoveMsg seq).1
  | .purge =>
    match ms.Purge with
    | .ok r => r.1
    | .error _ => ms
  | .compact seq =>
    match ms.compact seq with
    | .ok r => r.1
    | .error _ => ms
  | .truncate seq => ms.Truncate seq
  | .expireMsgs now => ms.expireMsgs now

/-! ## What removal and expiry do -/

@[simp] theorem msgs_updateFirstSeq (ms : MemStore) (seq : UInt64) :
    (ms.updateFirstSeq seq).msgs = ms.msgs := by
  unfold updateFirstSeq
  split
  · rfl
  · split <;> rfl

theorem find_removeMsg_self (ms : MemStore) (seq : UInt64) : (ms.removeMsg seq).msgs.find seq = none := by
  unfold removeMsg removeMsgNoCB
  split
  next hf => exact hf
  next sm hf =>
    simp only [Assoc.Map.find, Assoc.Map.erase]
    exact Assoc.find_erase_self _ _

@[simp] theorem msgs_removeSeqPerSubject (ms : MemStore) (subj : String) (seq : UInt64) :
    (ms.removeSeqPerSubject subj seq).msgs = ms.msgs := by
  unfold removeSeqPerSubject setSS
  split
  · rfl
  · split <;> rfl

theorem find_removeMsg_of_ne (ms : MemStore) {seq s : UInt64} (h : s ≠ seq) :
    (ms.removeMsg seq).msgs.find s = ms.msgs.find s := by
  unfold removeMsg removeMsgNoCB
  split
  next => rfl
  next sm hf =>
    simp only [Assoc.Map.find, Assoc.Map.erase]
    rw [Assoc.find_erase_of_ne _ _ _ h]
    split <;> simp

theorem find_of_loadNextAll {ms : MemStore} {start s : UInt64} {sm : Store.StoreMsg}
    (h : ms.loadNextAll start = some (s, sm)) : ms.msgs.find s = some sm := by
  obtain ⟨t, -, ht⟩ := Option.bind_eq_some_iff.mp h
  obtain ⟨sm', hf, heq⟩ := Option.map_eq_some_iff.mp ht
  cases heq
  exact hf

theorem expireMsgs_of_ttls {ms : MemStore} {hw : HashWheel} (hage : ms.cfg.MaxAge ≤ 0)
    (h : ms.ttls = some hw) (now : Int64) :
    ms.expireMsgs now = (hw.expireTasks now fun _ _ => false).2.foldl (fun ms rm => ms.removeMsg rm.1)
      { ms with ttls := some (hw.expireTasks now fun _ _ => false).1 } := by
  have hn : ¬ ms.cfg.MaxAge > 0 := by
    rw [gt_iff_lt, Int64.lt_iff_toInt_lt]
    rw [Int64.le_iff_toInt_le] at hage
    exact not_lt.mpr hage
  simp only [expireMsgs, if_neg hn, h]

theorem expireTasks_single {seq : UInt64} {expires now : Int64} (hle : expires ≤ now)
    (cb : UInt64 → Int64 → Bool) :
    ((NewHashWheel.Add seq expires).expireTasks now cb).2 = [(seq, expires)] := by
  rw [(HashWheel.expireTasks_spec (HashWheel.Inv.new.Add seq expires) now cb).1,
    HashWheel.stored_Add_new]
  simp [hle]

/-! ## Subjects the tree refuses -/

theorem enforceLimit_of_nonpos {limit : Int64} (h : limit ≤ 0) (count : StreamState → UInt64)
    (ms : MemStore) : enforceLimit limit count ms = .ok ms := by
  unfold enforceLimit
  simp [h]

theorem storeRawMsg_untracked {ms : MemStore} {subj : String} {hdr : Hdr} {msgLen : Nat}
    {ts ttl : Int64} (d : Bool) (hs : noPivot ∈ stringToBytes subj)
    (hf : ms.fss.Find (stringToBytes subj) = none) (hd : ms.cfg.Discard = .DiscardOld)
    (hm : ms.cfg.MaxMsgs ≤ 0) (hb : ms.cfg.MaxBytes ≤ 0) :
    ms.storeRawMsg subj hdr msgLen (ms.state.LastSeq + 1) ts ttl d =
      ({ ms with
        msgs := ms.msgs.set (ms.state.LastSeq + 1) ⟨subj, hdr, msgLen, ms.state.LastSeq + 1, ts⟩
        state := ⟨ms.state.Msgs + 1, ms.state.Bytes + memStoreMsgSize subj hdr msgLen,
          if ms.state.Msgs == 0 then ms.state.LastSeq + 1 else ms.state.FirstSeq,
          ms.state.LastSeq + 1⟩
        ttls := ms.ttls.map fun hw =>
          if ttl > 0 then hw.Add (ms.state.LastSeq + 1) (ttlExpires ts ttl) else hw }, .ok ()) := by
  simp only [storeRawMsg, isEmpty_of_noPivot hs, hf, hd, SubjectTree.Insert_of_noPivot hs]
  simp [enforceMsgLimit, enforceBytesLimit, enforceLimit_of_nonpos hm,
    enforceLimit_of_nonpos hb, Bind.bind, Except.bind]
  cases ms.ttls with
  | none => rfl
  | some hw => by_cases h : 0 < ttl <;> simp [h]

theorem run_storeMsg_untracked {ms : MemStore} {subj : String} {hdr : Hdr} {msgLen : Nat}
    {ttl ts : Int64} (hs : noPivot ∈ stringToBytes subj) (h0 : ms.msgs = Assoc.Map.empty)
    (hl : ms.state.LastSeq = 0) (hf : ms.fss = SubjectTree.NewSubjectTree)
    (hd : ms.cfg.Discard = .DiscardOld) (hm : ms.cfg.MaxMsgs ≤ 0) (hb : ms.cfg.MaxBytes ≤ 0)
    (k : Nat) (hk : k < 2 ^ 64) :
    let ms' := run step ms (List.replicate k (.storeMsg subj hdr msgLen ttl ts))
    ms'.msgs.entries = (List.range k).map (fun i =>
        (UInt64.ofNat (i + 1), ⟨subj, hdr, msgLen, UInt64.ofNat (i + 1), ts⟩)) ∧
      ms'.state.LastSeq = UInt64.ofNat k ∧ ms'.fss = ms.fss ∧ ms'.cfg = ms.cfg := by
  induction k with
  | zero => simp [h0, hl, Assoc.Map.empty]
  | succ k ih =>
    obtain ⟨he, hlk, hfk, hck⟩ := ih (by omega)
    intro ms'
    set msk := run step ms (List.replicate k (.storeMsg subj hdr msgLen ttl ts)) with hmsk
    have hrun : ms' = step msk (.storeMsg subj hdr msgLen ttl ts) := by
      simp only [ms', hmsk, List.replicate_succ', run_append, run_cons, run_nil]
    have hnext : msk.state.LastSeq + 1 = UInt64.ofNat (k + 1) := by
      rw [hlk]; simp
    have hfind : msk.fss.Find (stringToBytes subj) = none := by rw [hfk, hf]; rfl
    have hfresh : UInt64.ofNat (k + 1) ∉ msk.msgs.entries.map Prod.fst := by
      rw [he]
      simp only [List.map_map, List.mem_map, List.mem_range, Function.comp_apply, not_exists,
        not_and]
      intro i hi heq
      have := congrArg UInt64.toNat heq
      rw [UInt64.toNat_ofNat_of_lt' (show i + 1 < 2 ^ 64 by omega),
        UInt64.toNat_ofNat_of_lt' (show k + 1 < 2 ^ 64 by omega)] at this
      omega
    rw [hrun]
    simp only [step, StoreMsg, storeRawMsg_untracked true hs hfind (hck ▸ hd) (hck ▸ hm)
      (hck ▸ hb)]
    refine ⟨?_, hnext, hfk, hck⟩
    rw [hnext]
    rw [Assoc.Map.set]
    dsimp only
    rw [Assoc.set_of_not_mem _ _ _ hfresh, he, List.range_succ, List.map_append, List.map_cons,
      List.map_nil]

theorem run_storeMsg_untracked_fresh {subj : String} (hs : noPivot ∈ stringToBytes subj)
    (hdr : Hdr) (msgLen : Nat) (ttl ts : Int64) :
    (newMemStore false 0).map (fun ms => run step ms [.storeMsg subj hdr msgLen ttl ts]) =
      .ok { cfg := {}
            state := ⟨1, memStoreMsgSize subj hdr msgLen, 1, 1⟩
            msgs := Assoc.Map.empty.set 1 ⟨subj, hdr, msgLen, 1, ts⟩
            fss := SubjectTree.NewSubjectTree
            dmap := SequenceSet.empty
            maxp := 0
            ttls := none } := by
  set ms0 : MemStore :=
    { cfg := {}
      state := ⟨0, 0, 0, 0⟩
      msgs := Assoc.Map.empty
      fss := SubjectTree.NewSubjectTree
      dmap := SequenceSet.empty
      maxp := 0
      ttls := none }
  have h0 : newMemStore false 0 = .ok ms0 := rfl
  rw [h0]
  simp only [Except.map, run_cons, run_nil, step, StoreMsg]
  rw [storeRawMsg_untracked true hs (by rfl) (by rfl) (by decide) (by decide)]
  simp [ms0]

end MemStore

/-- The message `a` with a TTL of one second registers `(1, 10^9)` in the wheel; `Truncate 0`
drops the message and keeps the entry; `b`, stored without a TTL, reuses sequence 1, and the
expiry of `a`'s entry at `10^9` removes `b`. -/
theorem expireMsgs_removes_reused_seq :
    ((newMemStore true 0).map fun ms =>
        ((run MemStore.step ms [.storeMsg "a" ⟨0, some (.ok 1), []⟩ 1 1 0, .truncate 0]).msgs.len,
          (run MemStore.step ms [.storeMsg "a" ⟨0, some (.ok 1), []⟩ 1 1 0, .truncate 0]).ttls.map
            fun hw => stored hw.wheel)) = .ok (0, some [(1, 1000000000)]) ∧
      ((newMemStore true 0).map fun ms =>
        (run MemStore.step ms [.storeMsg "a" ⟨0, some (.ok 1), []⟩ 1 1 0, .truncate 0,
          .storeMsg "b" ⟨0, none, []⟩ 1 0 0]).msgs.find 1) = .ok (some ⟨"b", ⟨0, none, []⟩, 1, 1, 0⟩) ∧
      ((newMemStore true 0).map fun ms =>
        (run MemStore.step ms [.storeMsg "a" ⟨0, some (.ok 1), []⟩ 1 1 0, .truncate 0,
          .storeMsg "b" ⟨0, none, []⟩ 1 0 0, .expireMsgs 1000000000]).msgs.find 1) = .ok none := by
  -- the fresh store
  set ms0 : MemStore :=
    { cfg := {}
      state := ⟨0, 0, 0, 0⟩
      msgs := Assoc.Map.empty
      fss := SubjectTree.NewSubjectTree
      dmap := SequenceSet.empty
      maxp := 0
      ttls := some NewHashWheel } with hms0
  have h0 : newMemStore true 0 = .ok ms0 := rfl
  -- after `Truncate 0` the wheel still holds `a`'s entry
  have h2 : run MemStore.step ms0 [.storeMsg "a" ⟨0, some (.ok 1), []⟩ 1 1 0, .truncate 0] =
      { ms0 with ttls := some (NewHashWheel.Add 1 1000000000) } := rfl
  have h3 : run MemStore.step ms0
      [.storeMsg "a" ⟨0, some (.ok 1), []⟩ 1 1 0, .truncate 0, .storeMsg "b" ⟨0, none, []⟩ 1 0 0] =
      { ms0 with
        msgs := Assoc.Map.empty.set 1 ⟨"b", ⟨0, none, []⟩, 1, 1, 0⟩
        state := ⟨1, 18, 1, 1⟩
        fss := (SubjectTree.NewSubjectTree.Insert (stringToBytes "b") ⟨1, 1, 1, false, false⟩).1
        ttls := some (NewHashWheel.Add 1 1000000000) } := rfl
  refine ⟨?_, ?_, ?_⟩
  · rw [h0, Except.map, h2]
    simp [hms0, HashWheel.stored_Add_new, Assoc.Map.len, Assoc.Map.empty]
  · rw [h0, Except.map, h3]
    rfl
  · rw [h0, Except.map, show [MemStore.Op.storeMsg "a" ⟨0, some (.ok 1), []⟩ 1 1 0, .truncate 0,
        .storeMsg "b" ⟨0, none, []⟩ 1 0 0, .expireMsgs 1000000000] =
        [.storeMsg "a" ⟨0, some (.ok 1), []⟩ 1 1 0, .truncate 0, .storeMsg "b" ⟨0, none, []⟩ 1 0 0] ++
          [.expireMsgs 1000000000] from rfl, run_append, h3, run_cons, run_nil, MemStore.step,
      MemStore.expireMsgs_of_ttls (by decide) rfl, MemStore.expireTasks_single (by decide)]
    exact congrArg Except.ok (MemStore.find_removeMsg_self _ 1)

/-- A subject holding `noPivot` has no per-subject state, so its limit is never enforced:
with MaxMsgsPer `m`, the call storing its `m + 1`-th message succeeds and leaves `m + 1`
messages on it. -/
theorem StoreMsg_untracked_over_limit (subj : String) (hs : noPivot ∈ stringToBytes subj)
    (m : Int64) (hdr : Hdr) (msgLen : Nat) (ttl ts : Int64) :
    (newMemStore false 0 { MaxMsgsPer := m }).map (fun ms =>
      ((run MemStore.step ms (List.replicate m.toInt.toNat (.storeMsg subj hdr msgLen ttl ts))).StoreMsg
          subj hdr msgLen ttl ts).2) = .ok (.ok (UInt64.ofNat (m.toInt.toNat + 1))) ∧
    (newMemStore false 0 { MaxMsgsPer := m }).map (fun ms =>
      ((run MemStore.step ms (List.replicate (m.toInt.toNat + 1)
        (.storeMsg subj hdr msgLen ttl ts))).msgs.entries.filter fun e => e.2.subj == subj).length) =
      .ok (m.toInt.toNat + 1) := by
  set ms0 : MemStore :=
    { cfg := { MaxMsgsPer := m }
      state := ⟨0, 0, 0, 0⟩
      msgs := Assoc.Map.empty
      fss := SubjectTree.NewSubjectTree
      dmap := SequenceSet.empty
      maxp := m
      ttls := none } with hms0
  have h0 : newMemStore false 0 { MaxMsgsPer := m } = .ok ms0 := rfl
  have hlt : m.toInt.toNat < 2 ^ 63 := by
    have := Int64.toInt_lt m
    omega
  have hrun := fun k => @MemStore.run_storeMsg_untracked ms0 subj hdr msgLen ttl ts hs rfl rfl rfl
    rfl (show (0 : Int64) ≤ 0 by decide) (show (0 : Int64) ≤ 0 by decide) k
  rw [h0]
  constructor
  · obtain ⟨-, hl, hf, hc⟩ := hrun m.toInt.toNat (by omega)
    simp only [Except.map, MemStore.StoreMsg]
    rw [MemStore.storeRawMsg_untracked true hs (by rw [hf]; rfl) (by rw [hc])
      (by rw [hc]; exact show (0 : Int64) ≤ 0 by decide)
      (by rw [hc]; exact show (0 : Int64) ≤ 0 by decide), hl]
    simp
  · obtain ⟨he, -⟩ := hrun (m.toInt.toNat + 1) (by omega)
    simp only [Except.map]
    rw [he, List.filter_eq_self.mpr (by simp), List.length_map, List.length_range]

theorem StoreMsg_untracked_over_limit_del :
    noPivot ∈ stringToBytes "a\x7f" ∧
    (newMemStore false 0 { MaxMsgsPer := 1 }).map (fun ms =>
      ((run MemStore.step ms (List.replicate 2 (.storeMsg "a\x7f" ⟨0, none, []⟩ 0 0 0))).msgs.entries.filter
        fun e => e.2.subj == "a\x7f").length) = .ok 2 :=
  ⟨by decide +kernel, (StoreMsg_untracked_over_limit "a\x7f" (by decide +kernel) 1 ⟨0, none, []⟩ 0 0 0).2⟩

end NatsServer.Store
