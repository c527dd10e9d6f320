import Mathlib

/-! Vote handling of one Raft replica (`consensus/raft_consensus.cc`,
`consensus/replica_state.cc`). The state is what the handlers read and write:
the term and vote of the consensus metadata, the leader the replica follows,
the time before which it withholds votes, the pending election OpId and the
last OpId of its log. Every handler runs under the replica state lock, so a
run of the replica is a sequence of the handlers below. An error status that
a handler returns comes before any change to this state. -/
namespace FrescoDB.Consensus

/-- `ConsensusTerm` (`int64_t`; the increments never reach its bound). -/
abbrev ConsensusTerm := Int

structure OpId where
  term : Int
  index : Int
  deriving DecidableEq, Repr

/-- `OpIdLessThan`: lexicographic on `(term, index)`. -/
def opIdLessThan (left right : OpId) : Bool :=
  if left.term < right.term then true
  else if left.term > right.term then false
  else left.index < right.index

/-- `MonoTime`: `MonoTime::Min()` is `0` and `MonoTime::Max()` is `⊤`. -/
abbrev MonoTime := WithTop Nat

structure VoteRequest where
  candidateUuid : String
  candidateTerm : ConsensusTerm
  preelection : Bool
  ignoreLiveLeader : Bool
  /-- `candidate_status().last_received()`. -/
  lastReceived : OpId

/-- What an update request brings besides its term: whether it passes the log checks of
`CheckLeaderRequestUnlocked` that follow the term check, and the last OpId of the log once its
operations are appended. -/
structure LeaderUpdate where
  callerUuid : String
  callerTerm : ConsensusTerm
  logMatches : Bool
  lastLoggedOpId : OpId

/-- The `ConsensusErrorPB::Code`s a vote or an update is refused with. -/
inductive ConsensusErrorCode
  | invalidTerm
  | alreadyVoted
  | lastOpIdTooOld
  | leaderIsAlive
  | consensusBusy
  deriving DecidableEq, Repr

structure VoteResponse where
  responderUuid : String
  preelection : Bool
  responderTerm : ConsensusTerm
  voteGranted : Bool
  consensusError : Option ConsensusErrorCode
  deriving DecidableEq, Repr

/-- The part of `RaftConsensus`, its `ReplicaState` and its log that vote handling touches.
`isVoter` is this peer's membership in the active config, `minimumElectionTimeout` the
`MinimumElectionTimeout()` of its options. -/
structure Replica where
  peerUuid : String
  isVoter : Bool
  minimumElectionTimeout : Nat
  currentTerm : ConsensusTerm
  votedFor : Option String
  leaderUuid : String
  withholdVotesUntil : MonoTime
  pendingElectionOpId : Option OpId
  /-- `GetLatestOpIdFromLog()`. -/
  lastLoggedOpId : OpId

namespace Replica

def hasLeaderUnlocked (s : Replica) : Bool := s.leaderUuid != ""

def clearLeaderUnlocked (s : Replica) : Replica := { s with leaderUuid := "" }

/-- `GetActiveRoleUnlocked() == RaftPeerPB::LEADER`. -/
def isLeader (s : Replica) : Bool := s.leaderUuid == s.peerUuid && s.isVoter

def hasVotedCurrentTermUnlocked (s : Replica) : Bool := s.votedFor.isSome

def clearPendingElectionOpIdUnlocked (s : Replica) : Replica :=
  { s with pendingElectionOpId := none }

/-- `ReplicaState::SetCurrentTermUnlocked`: a higher term clears the vote and the leader. -/
def setCurrentTermUnlocked (s : Replica) (newTerm : ConsensusTerm) : Except String Replica :=
  if newTerm ≤ s.currentTerm then
    .error ("Cannot change term to a term that is lower than or equal to the current one. " ++
      "Current: " ++ toString s.currentTerm ++ ", Proposed: " ++ toString newTerm)
  else .ok { s.clearLeaderUnlocked with currentTerm := newTerm, votedFor := none }

def setVotedForCurrentTermUnlocked (s : Replica) (uuid : String) : Replica :=
  { s with votedFor := some uuid }

/-- `BecomeReplicaUnlocked`, without the failure detector and the peer queue. -/
def becomeReplicaUnlocked (s : Replica) : Replica :=
  { s.clearLeaderUnlocked with withholdVotesUntil := (0 : Nat) }

def handleTermAdvanceUnlocked (s : Replica) (newTerm : ConsensusTerm) : Except String Replica :=
  if newTerm ≤ s.currentTerm then
    .error ("Can\x27t advance term to: " ++ toString newTerm ++ " current term: " ++
      toString s.currentTerm ++ " is higher.")
  else
    -- a leader steps down before it moves to the new term
    let s := if s.isLeader then s.becomeReplicaUnlocked else s
    s.setCurrentTermUnlocked newTerm

def incrementTermUnlocked (s : Replica) : Except String Replica :=
  s.handleTermAdvanceUnlocked (s.currentTerm + 1)

/-! The responses of `RequestVote`. -/

def fillVoteResponseVoteGranted (request : VoteRequest) (response : VoteResponse) :
    VoteResponse :=
  { response with responderTerm := request.candidateTerm, voteGranted := true }

def fillVoteResponseVoteDenied (s : Replica) (errorCode : ConsensusErrorCode)
    (response : VoteResponse) : VoteResponse :=
  { response with responderTerm := s.currentTerm, voteGranted := false,
                  consensusError := some errorCode }

def requestVoteRespondInvalidTerm (s : Replica) (response : VoteResponse) : VoteResponse :=
  s.fillVoteResponseVoteDenied .invalidTerm response

def requestVoteRespondVoteAlreadyGranted (request : VoteRequest) (response : VoteResponse) :
    VoteResponse :=
  fillVoteResponseVoteGranted request response

def requestVoteRespondAlreadyVotedForOther (s : Replica) (response : VoteResponse) :
    VoteResponse :=
  s.fillVoteResponseVoteDenied .alreadyVoted response

def requestVoteRespondLastOpIdTooOld (s : Replica) (response : VoteResponse) : VoteResponse :=
  s.fillVoteResponseVoteDenied .lastOpIdTooOld response

def requestVoteRespondLeaderIsAlive (s : Replica) (response : VoteResponse) : VoteResponse :=
  s.fillVoteResponseVoteDenied .leaderIsAlive response

def requestVoteRespondIsBusy (s : Replica) (response : VoteResponse) : VoteResponse :=
  s.fillVoteResponseVoteDenied .consensusBusy response

/-- `RequestVoteRespondVoteGranted`: the vote is persisted before it is sent. -/
def requestVoteRespondVoteGranted (s : Replica) (request : VoteRequest)
    (response : VoteResponse) : Replica × VoteResponse :=
  (s.setVotedForCurrentTermUnlocked request.candidateUuid,
    fillVoteResponseVoteGranted request response)

/-- The end of `RequestVote` once the term is settled: the candidate's log must not be behind
the replica's, and a real vote is persisted. -/
def requestVoteCheckLog (s : Replica) (request : VoteRequest) (response : VoteResponse) :
    Replica × VoteResponse :=
  let preelection := request.preelection
  let localLastLoggedOpid := s.lastLoggedOpId
  if opIdLessThan request.lastReceived localLastLoggedOpid then
    (s, s.requestVoteRespondLastOpIdTooOld response)
  else
    let s := if !preelection then s.clearPendingElectionOpIdUnlocked else s
    if preelection then (s, fillVoteResponseVoteGranted request response)
    else s.requestVoteRespondVoteGranted request response

/-- `RaftConsensus::RequestVote` at time `now`; `ownsLock` is whether the update lock was
taken (it is always taken when leader failure detection is off). -/
def requestVote (s : Replica) (request : VoteRequest) (now : Nat) (ownsLock : Bool) :
    Except String (Replica × VoteResponse) :=
  let preelection := request.preelection
  let response : VoteResponse :=
    ⟨s.peerUuid, preelection, 0, false, none⟩
  if !ownsLock then .ok (s, s.requestVoteRespondIsBusy response)
  -- a vote is withheld while a live leader other than the candidate is believed in
  else if request.candidateUuid != s.leaderUuid && !request.ignoreLiveLeader &&
      decide ((now : MonoTime) < s.withholdVotesUntil) then
    .ok (s, s.requestVoteRespondLeaderIsAlive response)
  else if request.candidateTerm < s.currentTerm then
    .ok (s, s.requestVoteRespondInvalidTerm response)
  else if request.candidateTerm = s.currentTerm && s.hasVotedCurrentTermUnlocked then
    if s.votedFor == some request.candidateUuid then
      .ok (s, requestVoteRespondVoteAlreadyGranted request response)
    else .ok (s, s.requestVoteRespondAlreadyVotedForOther response)
  else if request.candidateTerm > s.currentTerm && !preelection then
    ((s.handleTermAdvanceUnlocked request.candidateTerm).mapError fun e =>
        "Could not step down in RequestVote. Current term: " ++ toString s.currentTerm ++
          ", candidate term: " ++ toString request.candidateTerm ++ ": " ++ e).map
      fun s => s.requestVoteCheckLog request response
  else .ok (s.requestVoteCheckLog request response)

/-! Updates from a leader, elections, and term notifications. -/

/-- `HandleLeaderRequestTermUnlocked`: the state and the error code of a refused request. -/
def handleLeaderRequestTermUnlocked (s : Replica) (callerTerm : ConsensusTerm) :
    Except String (Replica × Option ConsensusErrorCode) :=
  if callerTerm != s.currentTerm then
    if callerTerm < s.currentTerm then .ok (s, some .invalidTerm)
    else do
      let s ← s.handleTermAdvanceUnlocked callerTerm
      pure (s, none)
  else .ok (s, none)

/-- `UpdateReplica` as far as votes see it: the term check, the caller taking the leadership
of the term, votes withheld for the minimum election timeout, and the appended log. -/
def updateReplica (s : Replica) (request : LeaderUpdate) (now : Nat) :
    Except String Replica := do
  let (s, error) ← s.handleLeaderRequestTermUnlocked request.callerTerm
  if error.isSome || !request.logMatches then return s
  if s.hasLeaderUnlocked && s.leaderUuid != request.callerUuid then
    throw ("Unexpected new leader in same term! Existing leader UUID: " ++ s.leaderUuid ++
      ", new leader UUID: " ++ request.callerUuid)
  let s := if !s.hasLeaderUnlocked then { s with leaderUuid := request.callerUuid } else s
  return { s with withholdVotesUntil := ((now + s.minimumElectionTimeout : Nat) : MonoTime),
                  lastLoggedOpId := request.lastLoggedOpId }

/-- `CreateElectionUnlocked`: the state and the term of the election. A real election moves to
the next term and votes for this peer. -/
def createElectionUnlocked (s : Replica) (preelection : Bool) :
    Except String (Replica × ConsensusTerm) :=
  if preelection then .ok (s, s.currentTerm + 1)
  else do
    let s ← s.incrementTermUnlocked
    let newTerm := s.currentTerm
    pure (s.setVotedForCurrentTermUnlocked s.peerUuid, newTerm)

/-- `DoElectionCallback` for a real election won in `electionTerm`: a defunct term, a peer
outside the config or one that already leads changes nothing; otherwise it becomes leader
(`SetLeaderUuidUnlocked` and `BecomeLeaderUnlocked`, which withholds votes for good). -/
def electionWon (s : Replica) (electionTerm : ConsensusTerm) : Replica :=
  if electionTerm != s.currentTerm || !s.isVoter || s.isLeader then s
  else { s with leaderUuid := s.peerUuid, withholdVotesUntil := ⊤ }

/-- `NotifyTermChange`, and a lost election that saw a higher term: the error of a term that is
not higher is only logged. -/
def notifyTermChange (s : Replica) (term : ConsensusTerm) : Replica :=
  match s.handleTermAdvanceUnlocked term with
  | .ok s' => s'
  | .error _ => s

end Replica

/-- The handlers a replica runs, one at a time under its lock. -/
inductive Event
  | requestVote (request : VoteRequest) (now : Nat) (ownsLock : Bool)
  | update (request : LeaderUpdate) (now : Nat)
  | startElection (preelection : Bool)
  | electionWon (electionTerm : ConsensusTerm)
  | notifyTermChange (term : ConsensusTerm)

namespace Replica

/-- One handler, and the real (not pre-election) votes it grants as `(term, candidate)`:
a granted `RequestVote`, and the vote for itself of a real election. -/
def handle (s : Replica) : Event → Except String (Replica × List (ConsensusTerm × String))
  | .requestVote request now ownsLock => do
    let (s', response) ← s.requestVote request now ownsLock
    pure (s', if response.voteGranted && !request.preelection then
      [(request.candidateTerm, request.candidateUuid)] else [])
  | .update request now => do
    let s' ← s.updateReplica request now
    pure (s', [])
  | .startElection preelection => do
    let (s', term) ← s.createElectionUnlocked preelection
    pure (s', if preelection then [] else [(term, s.peerUuid)])
  | .electionWon electionTerm => pure (s.electionWon electionTerm, [])
  | .notifyTermChange term => pure (s.notifyTermChange term, [])

end Replica

/-- The runs of one replica from any state it starts in, with every real vote granted along
them, the latest first. A handler that returns an error does not change the state. -/
inductive Reachable : Replica → List (ConsensusTerm × String) → Prop
  | init (s : Replica) : Reachable s []
  | step {s s' : Replica} {votes vs : List (ConsensusTerm × String)} (e : Event) :
      Reachable s votes → s.handle e = .ok (s', vs) → Reachable s' (vs ++ votes)

end FrescoDB.Consensus
