import NatsServer.Lib.Run

/-!
# A raft node's term and vote

The part of a raft node that elections run on: the term, the vote, the term and vote file and
the handlers that change them. `processVoteRequest` bumps the term on a newer request and grants
a vote after `writeTermVote` has written it; an election timeout switches to candidate, adds one
to the term and votes for the node itself in `requestVote`; a newer term seen in a vote response
(as candidate) or in a rejected append entry response (as leader) is taken over with no vote.

`writeTermVote` writes through a file whose outcome each event carries: the write succeeds, fails
with an error `os.IsNotExist` accepts, or fails otherwise. The file itself is `tvFile`, the term
and vote a restart reads back. A write error that `setWriteErrLocked` keeps shuts the node down.

Every change of state goes through `switchState`, which writes the term and vote again; the
writes of one event share its outcome, the vote request's grant apart. Of catch-up only whether
there is one is kept, which `cancelCatchup` clears. Timers, the log and the messages' delivery are
not modelled, nor `processAppendEntry`; the tallies of `runAsCandidate` are fields, reset when it
starts.

The switch to candidate adds one to the term, and so wraps at the top of `uint64`.
-/

namespace NatsServer.Cluster

open NatsServer.Lib

def noVote : String := ""
def noLeader : String := ""

inductive RaftState
  | Follower
  | Leader
  | Candidate
  | Closed
  deriving DecidableEq, Repr

inductive WriteResult
  | ok
  | notExist
  | failed
  deriving DecidableEq, Repr

structure VoteRequest where
  term : UInt64
  lastTerm : UInt64
  lastIndex : UInt64
  candidate : String
  deriving DecidableEq, Repr

structure VoteResponse where
  term : UInt64
  peer : String
  granted : Bool
  empty : Bool
  deriving DecidableEq, Repr

structure Raft where
  id : String
  state : RaftState
  term : UInt64
  vote : String
  pterm : UInt64
  pindex : UInt64
  leader : String
  initializing : Bool
  observer : Bool
  paused : Bool
  processed : UInt64
  commit : UInt64
  membChange : Option String
  peers : List String
  csz : Nat
  qn : Nat
  werr : Bool
  wtv : Option (UInt64 × String)
  tvFile : Option (UInt64 × String)
  catchingUp : Bool
  outOfResources : Bool
  votes : List String
  emptyVotes : List String
  deriving DecidableEq, Repr

inductive Sent
  | voteRequest (vr : VoteRequest)
  | voteResponse (vresp : VoteResponse)
  deriving DecidableEq, Repr

namespace Raft

def setWriteErrLocked (n : Raft) (err : WriteResult) : Raft :=
  if n.state = .Closed then n
  else if err = .ok || err = .notExist then n
  else { n with werr := true, state := .Closed }

def writeTermVote (n : Raft) (io : WriteResult) : Raft × Bool :=
  if n.werr then (n, true)
  else if n.wtv = some (n.term, n.vote) then (n, false)
  else
    let n := { n with wtv := some (n.term, n.vote) }
    match io with
    | .ok => ({ n with tvFile := some (n.term, n.vote) }, false)
    | err =>
      if n.state = .Closed then (n, false)
      else ({ n with wtv := none }.setWriteErrLocked err, true)

def switchState (n : Raft) (state : RaftState) (io : WriteResult) : Raft :=
  if n.state = .Closed then n else ({ n with state }.writeTermVote io).1

def stepdownLocked (n : Raft) (newLeader : String) (io : WriteResult) : Raft :=
  if n.state = .Closed then n else { n with leader := newLeader }.switchState .Follower io

def switchToCandidate (n : Raft) (io : WriteResult) : Raft :=
  if n.state = .Closed then n
  else if n.observer || n.paused || n.processed < n.commit then n
  -- no campaign with an uncommitted membership change about us
  else if n.membChange = some n.id then n
  else { n with term := n.term + 1, vote := noVote, leader := noLeader }.switchState .Candidate io

def switchToLeader (n : Raft) (io : WriteResult) : Raft :=
  if n.state = .Closed then n else { n with leader := n.id }.switchState .Leader io

def cancelCatchup (n : Raft) : Raft := { n with catchingUp := false }

def shouldCountVoteFromPeer (n : Raft) (peer : String) : Bool :=
  n.peers.contains peer || n.peers.length < n.csz

def wonElection (n : Raft) (votes : Nat) : Bool := votes ≥ n.qn

def requestVote (n : Raft) (io : WriteResult) : Raft × List Sent :=
  if n.state ≠ .Candidate then (n, [])
  else
    let w := { n with vote := n.id }.writeTermVote io
    -- the self vote is written before the campaign, or there is no campaign
    if w.2 then ({ w.1 with vote := noVote }, [])
    else (w.1, [.voteRequest ⟨w.1.term, w.1.pterm, w.1.pindex, w.1.id⟩])

def adoptTerm (n : Raft) (term : UInt64) (io : WriteResult) : Raft :=
  ({ n with term := term, vote := noVote }.writeTermVote io).1

def processVoteRequest (n : Raft) (vr : VoteRequest) (io₁ io₂ : WriteResult) :
    Raft × VoteResponse :=
  let vresp : VoteResponse := ⟨n.term, n.id, false, n.pindex == 0⟩
  if vr.term < n.term then (n, vresp)
  else
    let n :=
      if vr.term > n.term then
        (if n.state ≠ .Follower then n.stepdownLocked noLeader io₁ else n).cancelCatchup.adoptTerm
          vr.term io₁
      else n
    let voteOk := n.vote == noVote || n.vote == vr.candidate
    let empty := if voteOk && vresp.empty && n.initializing then false else vresp.empty
    if voteOk && (vr.lastTerm > n.pterm || vr.lastTerm == n.pterm && vr.lastIndex ≥ n.pindex) then
      -- the vote is written before it is granted, or taken back
      let w := { n with term := vr.term, vote := vr.candidate }.writeTermVote io₂
      if w.2 then ({ w.1 with vote := noVote }, ⟨w.1.term, vresp.peer, false, empty⟩)
      else (w.1, ⟨w.1.term, vresp.peer, true, empty⟩)
    else (n, ⟨n.term, vresp.peer, false, empty⟩)

def tally (n : Raft) (vresp : VoteResponse) : Raft :=
  if n.shouldCountVoteFromPeer vresp.peer then
    if !vresp.empty then { n with votes := n.votes.insert vresp.peer }
    else { n with emptyVotes := n.emptyVotes.insert vresp.peer }
  else n

def candidateVoteResponse (n : Raft) (vresp : VoteResponse) (io : WriteResult) : Raft :=
  let nterm := n.term
  if vresp.granted && nterm == vresp.term then
    let n := n.tally vresp
    if n.wonElection n.votes.length then n.switchToLeader io
    -- voted in by every server, some of them with empty logs
    else if n.votes.length + n.emptyVotes.length == n.csz then n.switchToLeader io
    else n
  else if vresp.term > nterm then (n.adoptTerm vresp.term io).stepdownLocked noLeader io
  else n

/-- The last case of processAppendEntryResponse: a response that reports no success and asks for
no catch-up carries the follower's term. -/
def processRejectedAppendEntryResponse (n : Raft) (term : UInt64) (io : WriteResult) : Raft :=
  if term > n.term then (n.adoptTerm term io).stepdownLocked noLeader io else n

def onElectionTimer (n : Raft) (io : WriteResult) : Raft :=
  match n.state with
  | .Follower =>
    if n.outOfResources || n.observer || n.catchingUp then n else n.switchToCandidate io
  | .Candidate => n.switchToCandidate io
  | _ => n

def electionTimeout (n : Raft) (io : WriteResult) : Raft × List Sent :=
  let n := n.onElectionTimer io
  if n.state = .Candidate then { n with votes := [], emptyVotes := [] }.requestVote io
  else (n, [])

end Raft

inductive Event
  | voteRequest (vr : VoteRequest) (io₁ io₂ : WriteResult)
  | voteResponse (vresp : VoteResponse) (io : WriteResult)
  | rejectedAppendEntryResponse (term : UInt64) (io : WriteResult)
  | electionTimeout (io : WriteResult)
  | stepdown (newLeader : String) (io : WriteResult)
  deriving DecidableEq, Repr

namespace Raft

/-- One event, as the run loop of the node's state takes it: vote responses reach the candidate
loop, and a leader steps down on a newer one; append entry responses reach the leader loop. -/
def handle (n : Raft) : Event → Raft × List Sent
  | .voteRequest vr io₁ io₂ =>
    let r := n.processVoteRequest vr io₁ io₂
    (r.1, [.voteResponse r.2])
  | .voteResponse vresp io =>
    match n.state with
    | .Candidate => (n.candidateVoteResponse vresp io, [])
    | .Leader => (if vresp.term > n.term then n.stepdownLocked noLeader io else n, [])
    | _ => (n, [])
  | .rejectedAppendEntryResponse term io =>
    (if n.state = .Leader then n.processRejectedAppendEntryResponse term io else n, [])
  | .electionTimeout io => n.electionTimeout io
  | .stepdown newLeader io => (n.stepdownLocked newLeader io, [])

def step (n : Raft) (e : Event) : Raft := (n.handle e).1

variable (n : Raft) (io : WriteResult)

/-! ## writeTermVote -/

theorem setWriteErrLocked_cases (err : WriteResult) :
    n.setWriteErrLocked err = n ∨
      n.state ≠ .Closed ∧ n.setWriteErrLocked err = { n with werr := true, state := .Closed } := by
  unfold setWriteErrLocked
  split
  · exact .inl rfl
  split
  · exact .inl rfl
  · exact .inr ⟨‹_›, rfl⟩

theorem writeTermVote_cases :
    n.werr = true ∧ n.writeTermVote io = (n, true) ∨
    n.werr = false ∧ n.wtv = some (n.term, n.vote) ∧ n.writeTermVote io = (n, false) ∨
    n.werr = false ∧ io = .ok ∧ n.writeTermVote io =
      ({ n with wtv := some (n.term, n.vote), tvFile := some (n.term, n.vote) }, false) ∨
    n.werr = false ∧ io ≠ .ok ∧ n.state = .Closed ∧ n.writeTermVote io =
      ({ n with wtv := some (n.term, n.vote) }, false) ∨
    n.werr = false ∧ io ≠ .ok ∧ n.state ≠ .Closed ∧ n.writeTermVote io =
      ({ n with wtv := none }.setWriteErrLocked io, true) := by
  unfold writeTermVote
  cases hw : n.werr
  · by_cases hs : n.wtv = some (n.term, n.vote)
    · simp [hs]
    · cases io with
      | ok => simp [hs]
      | notExist => by_cases hc : n.state = .Closed <;> simp [hs, hc]
      | failed => by_cases hc : n.state = .Closed <;> simp [hs, hc]
  · simp

theorem writeTermVote_frame :
    ∃ w f e s, (n.writeTermVote io).1 = { n with wtv := w, tvFile := f, werr := e, state := s } := by
  rcases writeTermVote_cases n io with ⟨-, h⟩ | ⟨-, -, h⟩ | ⟨-, -, h⟩ | ⟨-, -, -, h⟩ | ⟨-, -, -, h⟩ <;>
    rw [h]
  · exact ⟨_, _, _, _, rfl⟩
  · exact ⟨_, _, _, _, rfl⟩
  · exact ⟨_, _, _, _, rfl⟩
  · exact ⟨_, _, _, _, rfl⟩
  · rcases setWriteErrLocked_cases { n with wtv := none } io with h' | ⟨-, h'⟩ <;> rw [h'] <;>
      exact ⟨_, _, _, _, rfl⟩

@[simp] theorem writeTermVote_term : (n.writeTermVote io).1.term = n.term := by
  obtain ⟨w, f, e, s, h⟩ := writeTermVote_frame n io
  rw [h]

@[simp] theorem writeTermVote_vote : (n.writeTermVote io).1.vote = n.vote := by
  obtain ⟨w, f, e, s, h⟩ := writeTermVote_frame n io
  rw [h]

@[simp] theorem writeTermVote_id : (n.writeTermVote io).1.id = n.id := by
  obtain ⟨w, f, e, s, h⟩ := writeTermVote_frame n io
  rw [h]

@[simp] theorem writeTermVote_pterm : (n.writeTermVote io).1.pterm = n.pterm := by
  obtain ⟨w, f, e, s, h⟩ := writeTermVote_frame n io
  rw [h]

@[simp] theorem writeTermVote_pindex : (n.writeTermVote io).1.pindex = n.pindex := by
  obtain ⟨w, f, e, s, h⟩ := writeTermVote_frame n io
  rw [h]

variable {n io}

/-! ## Votes granted and terms -/

@[simp] theorem switchState_term (state : RaftState) : (n.switchState state io).term = n.term := by
  unfold Raft.switchState
  split <;> simp

@[simp] theorem stepdownLocked_term (newLeader : String) :
    (n.stepdownLocked newLeader io).term = n.term := by
  unfold Raft.stepdownLocked
  split <;> simp

@[simp] theorem switchToLeader_term : (n.switchToLeader io).term = n.term := by
  unfold Raft.switchToLeader
  split <;> simp

@[simp] theorem adoptTerm_term (term : UInt64) (io : WriteResult) :
    (n.adoptTerm term io).term = term := by
  simp [Raft.adoptTerm]

@[simp] theorem requestVote_term : (n.requestVote io).1.term = n.term := by
  unfold Raft.requestVote
  split
  · rfl
  · dsimp only
    split <;> simp

@[simp] theorem tally_term (vresp : VoteResponse) : (n.tally vresp).term = n.term := by
  unfold Raft.tally
  split
  · split <;> rfl
  · rfl

@[simp] theorem electionTimeout_term :
    (n.electionTimeout io).1.term = (n.onElectionTimer io).term := by
  unfold Raft.electionTimeout
  dsimp only
  split <;> simp

/-! ## The term at the top -/

section Guards

@[simp] theorem writeTermVote_observer : (n.writeTermVote io).1.observer = n.observer := by
  obtain ⟨w, f, e, s, h⟩ := writeTermVote_frame n io
  rw [h]

@[simp] theorem writeTermVote_paused : (n.writeTermVote io).1.paused = n.paused := by
  obtain ⟨w, f, e, s, h⟩ := writeTermVote_frame n io
  rw [h]

@[simp] theorem writeTermVote_processed : (n.writeTermVote io).1.processed = n.processed := by
  obtain ⟨w, f, e, s, h⟩ := writeTermVote_frame n io
  rw [h]

@[simp] theorem writeTermVote_commit : (n.writeTermVote io).1.commit = n.commit := by
  obtain ⟨w, f, e, s, h⟩ := writeTermVote_frame n io
  rw [h]

@[simp] theorem writeTermVote_membChange : (n.writeTermVote io).1.membChange = n.membChange := by
  obtain ⟨w, f, e, s, h⟩ := writeTermVote_frame n io
  rw [h]

@[simp] theorem writeTermVote_outOfResources :
    (n.writeTermVote io).1.outOfResources = n.outOfResources := by
  obtain ⟨w, f, e, s, h⟩ := writeTermVote_frame n io
  rw [h]

@[simp] theorem writeTermVote_catchingUp : (n.writeTermVote io).1.catchingUp = n.catchingUp := by
  obtain ⟨w, f, e, s, h⟩ := writeTermVote_frame n io
  rw [h]

@[simp] theorem writeTermVote_state_ok : (n.writeTermVote .ok).1.state = n.state := by
  unfold Raft.writeTermVote
  split
  · rfl
  split <;> rfl

theorem stepdownLocked_of_ne (hc : n.state ≠ .Closed) (newLeader : String) :
    n.stepdownLocked newLeader io =
      ({ n with leader := newLeader, state := .Follower }.writeTermVote io).1 := by
  simp [Raft.stepdownLocked, Raft.switchState, hc]

end Guards

theorem processVoteRequest_newer (hc : n.state ≠ .Closed) (vr : VoteRequest) (hgt : vr.term > n.term) :
    let m := (n.processVoteRequest vr .ok .ok).1
    m.term = vr.term ∧ m.state = .Follower ∧ m.id = n.id ∧ m.observer = n.observer ∧
      m.paused = n.paused ∧ m.processed = n.processed ∧ m.commit = n.commit ∧
      m.membChange = n.membChange ∧ m.outOfResources = n.outOfResources ∧
      m.catchingUp = false := by
  -- the node after the newer term is taken over
  obtain ⟨n1, hn1, h1⟩ : ∃ n1, (if n.state ≠ .Follower then n.stepdownLocked noLeader .ok
      else n).cancelCatchup.adoptTerm vr.term .ok = n1 ∧ n1.state = .Follower ∧ n1.term = vr.term ∧
      n1.id = n.id ∧ n1.observer = n.observer ∧ n1.paused = n.paused ∧
      n1.processed = n.processed ∧ n1.commit = n.commit ∧ n1.membChange = n.membChange ∧
      n1.outOfResources = n.outOfResources ∧ n1.catchingUp = false := by
    refine ⟨_, rfl, ?_⟩
    split
    · simp [Raft.adoptTerm, Raft.cancelCatchup, stepdownLocked_of_ne hc]
    · next hf => simp [Raft.adoptTerm, Raft.cancelCatchup, not_not.mp hf]
  obtain ⟨hs, ht, hi, ho, hp, hpr, hco, hm, hr, hcu⟩ := h1
  unfold Raft.processVoteRequest
  rw [if_neg (UInt64.not_lt.mpr (UInt64.le_of_lt hgt)), if_pos hgt, hn1]
  dsimp only
  -- granted or not, the vote is written with the node's fields left
  split
  · split <;> simp [hs, hi, ho, hp, hpr, hco, hm, hr, hcu]
  · exact ⟨ht, hs, hi, ho, hp, hpr, hco, hm, hr, hcu⟩

theorem electionTimeout_follower_term (hs : n.state = .Follower) (hr : n.outOfResources = false)
    (ho : n.observer = false) (hcu : n.catchingUp = false) (hp : n.paused = false)
    (hpc : n.commit ≤ n.processed) (hm : n.membChange ≠ some n.id) :
    (n.electionTimeout io).1.term = n.term + 1 := by
  rw [electionTimeout_term]
  simp [Raft.onElectionTimer, Raft.switchToCandidate, hs, hr, ho, hcu, hp, UInt64.not_lt.mpr hpc, hm]

/-- A running node that takes a vote request with the top term, then its election timer, ends
in term 0. -/
theorem electionTimeout_wraps_term (n : Raft) (hc : n.state ≠ .Closed) (hr : n.outOfResources = false)
    (ho : n.observer = false) (hcu : n.catchingUp = false) (hp : n.paused = false)
    (hpc : n.commit ≤ n.processed) (hm : n.membChange ≠ some n.id)
    (hlt : n.term < 0xFFFFFFFFFFFFFFFF) (vr : VoteRequest) (hvr : vr.term = 0xFFFFFFFFFFFFFFFF)
    (io : WriteResult) :
    (run step n [.voteRequest vr .ok .ok]).term = 0xFFFFFFFFFFFFFFFF ∧
      (run step n [.voteRequest vr .ok .ok, .electionTimeout io]).term = 0 := by
  obtain ⟨ht, hs, hi, ho', hp', hpr, hco, hm', hr', hcu'⟩ :=
    processVoteRequest_newer hc vr (hvr ▸ hlt)
  simp only [run_cons, run_nil, Raft.step, Raft.handle]
  refine ⟨ht.trans hvr, ?_⟩
  -- the vote request cancelled any catch-up, so the timer campaigns
  rw [electionTimeout_follower_term hs (hr' ▸ hr) (ho' ▸ ho) hcu' (hp' ▸ hp)
    (hco ▸ hpr ▸ hpc) (hi ▸ hm' ▸ hm), ht, hvr]
  rfl

theorem electionTimeout_wraps_term_top :
    (run step ⟨"a", .Follower, 1, noVote, 0, 0, noLeader, false, false, false, 0, 0, none,
      ["a", "b", "c"], 3, 2, false, none, none, false, false, [], []⟩
      [.voteRequest ⟨0xFFFFFFFFFFFFFFFF, 0, 0, "b"⟩ .ok .ok, .electionTimeout .ok]).term = 0 :=
  (electionTimeout_wraps_term _ (by decide) rfl rfl rfl rfl (by decide) (by decide) (by decide)
    ⟨0xFFFFFFFFFFFFFFFF, 0, 0, "b"⟩ rfl .ok).2

end Raft

end NatsServer.Cluster
