import FrescoDB.Consensus.RaftConsensus

/-! The pending operations of a replica (`consensus/replica_state.cc`) and the
handlers of `consensus/raft_consensus.cc` that change them: a leader appending
new rounds, a follower taking an update from its leader, a leader learning
what a majority has replicated, an election that waits for a commit, and a term
advance. Each handler runs under the replica state lock. `none` is a crash: a
failed `CHECK`, or a missing round that the source dereferences. -/
namespace FrescoDB.Consensus

inductive OperationType
  | unknownOp
  | noOp
  | writeOp
  | changeMetadataOp
  | changeConfigOp
  | updateTransactionOp
  | snapshotOp
  | truncateOp
  deriving DecidableEq, Repr

/-- A `ConsensusRound` as the pending operations see it. -/
structure ConsensusRound where
  id : OpId
  opType : OperationType
  deriving DecidableEq, Repr

/-- The status of a call this model leaves out: the checks of `AddPendingOperation` and
`StartReplicaOperation` (run state, leases, a pending config change, retryable requests), and an
append to the consensus queue. -/
inductive Outcome
  | ok
  | alreadyPresent
  | serviceUnavailable
  | failed
  deriving DecidableEq, Repr

namespace OpId

/-- `yb::OpId::empty()`: an OpId converts to `true` unless it is `{0, 0}`. -/
def empty (o : OpId) : Bool := o.term == 0 && o.index == 0

/-- `operator<<` of `yb::OpId`. -/
def toText (o : OpId) : String :=
  "\x7b term: " ++ toString o.term ++ " index: " ++ toString o.index ++ " \x7d"

end OpId

structure ReplicaState where
  currentTerm : Int
  pendingOperations : List ConsensusRound
  lastCommittedOpId : OpId
  lastReceivedOpId : OpId
  nextIndex : Int

namespace ReplicaState

/-- `FindPendingOperation`: the position of the round of `index` and the round, found by the
offset of `index` from the front. -/
def findPendingOperation (s : ReplicaState) (index : Int) : Option (Nat × ConsensusRound) :=
  match s.pendingOperations with
  | [] => none
  | front :: _ =>
    -- a negative offset wraps to a huge `size_t`, so one bound check covers both ends
    let offset := index - front.id.index
    if offset < 0 then none
    else s.pendingOperations[offset.toNat]?.map fun round => (offset.toNat, round)

def getPendingOpByIndexOrNullUnlocked (s : ReplicaState) (index : Int) : Option ConsensusRound :=
  (s.findPendingOperation index).map (·.2)

/-- `AbortOpsAfterUnlocked`: drop the rounds after `newPrecedingIdx`, which must be pending or be
the committed index. -/
def abortOpsAfterUnlocked (s : ReplicaState) (newPrecedingIdx : Int) : Option ReplicaState :=
  let truncate (newPreceding : OpId) (keep : Nat) : ReplicaState :=
    { s with lastReceivedOpId := newPreceding, nextIndex := newPreceding.index + 1,
             pendingOperations := s.pendingOperations.take keep }
  match s.findPendingOperation newPrecedingIdx with
  | some (position, round) => some (truncate round.id (position + 1))
  | none =>
    if newPrecedingIdx != s.lastCommittedOpId.index then none
    else
      let keep := match s.pendingOperations with
        | front :: _ => if front.id.index > newPrecedingIdx then 0 else s.pendingOperations.length
        | [] => 0
      some (truncate s.lastCommittedOpId keep)

/-- `AddPendingOperation`, with the outcome of its checks. -/
def addPendingOperation (s : ReplicaState) (round : ConsensusRound) (check : Outcome) :
    Outcome × ReplicaState :=
  if check = .ok then (.ok, { s with pendingOperations := s.pendingOperations ++ [round] })
  else (check, s)

def newIdUnlocked (s : ReplicaState) : OpId × ReplicaState :=
  (⟨s.currentTerm, s.nextIndex⟩, { s with nextIndex := s.nextIndex + 1 })

/-- `CancelPendingOperation`: give back the id just taken, and the round if it was added. -/
def cancelPendingOperation (s : ReplicaState) (id : OpId) (shouldExist : Bool) :
    Option ReplicaState :=
  if s.currentTerm != id.term || s.nextIndex != id.index + 1 then none
  else
    let s := { s with nextIndex := id.index, lastReceivedOpId := ⟨id.term, id.index - 1⟩ }
    some (if shouldExist then { s with pendingOperations := s.pendingOperations.dropLast } else s)

def updateLastReceivedOpIdUnlocked (s : ReplicaState) (opId : OpId) : ReplicaState :=
  { s with lastReceivedOpId := opId, nextIndex := opId.index + 1 }

/-- `GetLastPendingOperationOpIdUnlocked`, with `MinimumOpId()` for no pending round. -/
def getLastPendingOperationOpIdUnlocked (s : ReplicaState) : OpId :=
  match s.pendingOperations.getLast? with
  | some round => round.id
  | none => ⟨0, 0⟩

def setLastCommittedIndexUnlocked (s : ReplicaState) (committedOpId : OpId) :
    Option ReplicaState :=
  if s.lastReceivedOpId.index < committedOpId.index then none
  else some { s with lastCommittedOpId := committedOpId }

def checkOpInSequence (previous current : OpId) : Except String Unit :=
  if current.term < previous.term then
    .error ("New operation\x27s term is not >= than the previous op\x27s term. Current: " ++
      current.toText ++ ". Previous: " ++ previous.toText)
  else if current.index != previous.index + 1 then
    .error ("New operation\x27s index does not follow the previous op\x27s index. Current: " ++
      current.toText ++ ". Previous: " ++ previous.toText)
  else .ok ()

/-- The loop of `ApplyPendingOperationsUnlocked` from the front: the last OpId applied and the
rounds left. Before the `n`-th round applied, the operation factory answers `shouldApplyWrite n`
to a write that may stop the loop. -/
def applyLoop (committedOpId : OpId) (couldStop : Bool) (shouldApplyWrite : Nat → Bool) :
    OpId → List ConsensusRound → Nat → Option (OpId × List ConsensusRound)
  | prevId, [], _ => some (prevId, [])
  | prevId, round :: rest, n =>
    if round.id.index > committedOpId.index then some (prevId, round :: rest)
    else if !prevId.empty && (checkOpInSequence prevId round.id matches .error _) then none
    else if round.opType = .writeOp && couldStop && !shouldApplyWrite n then
      some (prevId, round :: rest)
    else applyLoop committedOpId couldStop shouldApplyWrite round.id rest (n + 1)

def applyPendingOperationsUnlocked (s : ReplicaState) (committedOpId : OpId) (couldStop : Bool)
    (shouldApplyWrite : Nat → Bool) : Option ReplicaState := do
  let (prevId, rest) ←
    applyLoop committedOpId couldStop shouldApplyWrite s.lastCommittedOpId s.pendingOperations 0
  { s with pendingOperations := rest }.setLastCommittedIndexUnlocked prevId

/-- `AdvanceCommittedOpIdUnlocked`: the state and whether the committed OpId moved. -/
def advanceCommittedOpIdUnlocked (s : ReplicaState) (committedOpId : OpId) (couldStop : Bool)
    (shouldApplyWrite : Nat → Bool) : Option (ReplicaState × Except String Bool) :=
  if s.lastCommittedOpId.index ≥ committedOpId.index then some (s, .ok false)
  else match s.pendingOperations with
    | [] => some (s, .error ("No pending entries, requested to advance last committed OpId from " ++
        s.lastCommittedOpId.toText ++ " to " ++ committedOpId.toText ++ ", last received: " ++
        s.lastReceivedOpId.toText))
    | front :: _ =>
      if front.id.index != s.lastCommittedOpId.index + 1 then none
      else do
        let s' ← s.applyPendingOperationsUnlocked committedOpId couldStop shouldApplyWrite
        some (s', .ok (s'.lastCommittedOpId.index != s.lastCommittedOpId.index))

def initCommittedOpIdUnlocked (s : ReplicaState) (committedOpId : OpId) :
    Option (ReplicaState × Except String Unit) :=
  if !s.lastCommittedOpId.empty then
    some (s, .error ("Committed index already initialized to: " ++ s.lastCommittedOpId.toText ++
      ", tried to set " ++ committedOpId.toText))
  else do
    let s ← match s.pendingOperations with
      | front :: _ =>
        if committedOpId.index ≥ front.id.index then
          s.applyPendingOperationsUnlocked committedOpId false fun _ => true
        else some s
      | [] => some s
    let s ← s.setLastCommittedIndexUnlocked committedOpId
    some (s, .ok ())

/-- `UpdateMajorityReplicatedUnlocked` of a running replica: the committed OpId follows the
majority only while the committed or the majority-replicated OpId is of the current term. -/
def updateMajorityReplicatedUnlocked (s : ReplicaState) (majorityReplicated : OpId) :
    Option (ReplicaState × Except String (OpId × Bool)) :=
  let advance := do
    let (s', changed) ← s.advanceCommittedOpIdUnlocked majorityReplicated false fun _ => true
    some (s', changed.map fun c => (s'.lastCommittedOpId, c))
  if s.lastCommittedOpId.term = s.currentTerm then advance
  -- advancing across terms
  else if majorityReplicated.term = s.currentTerm then advance
  else some (s, .ok (s.lastCommittedOpId, false))

/-- `IsOpCommittedOrPending`: whether the OpId is committed or pending, and whether a pending
round of its index has another term. -/
def isOpCommittedOrPending (s : ReplicaState) (opId : OpId) : Option (Bool × Bool) :=
  if opId.index ≤ s.lastCommittedOpId.index then some (true, false)
  else if opId.index > s.lastReceivedOpId.index then some (false, false)
  else match s.getPendingOpByIndexOrNullUnlocked opId.index with
    | none => none
    | some round => if round.id.term != opId.term then some (false, true) else some (true, false)

/-! The leader's side: `AppendNewRoundsToQueueUnlocked`. -/

/-- Give back, in the order listed, the ids of rounds that were added. -/
def rollbackIds (s : ReplicaState) : List OpId → Option ReplicaState
  | [] => some s
  | id :: rest => do
    let s ← s.cancelPendingOperation id true
    rollbackIds s rest

/-- The loop over the new rounds, each given by its type and the outcome of its
`AddPendingOperation` checks: the state, and the ids added (`none` when a failed round ended the
loop after rolling the others back). -/
def appendRoundsLoop (s : ReplicaState) (appended : List OpId) :
    List (OperationType × Outcome) → Option (ReplicaState × Option (List OpId))
  | [] => some (s, some appended)
  | (opType, check) :: rest =>
    let (id, s) := s.newIdUnlocked
    let (status, s) := s.addPendingOperation ⟨id, opType⟩ check
    if status = .ok then appendRoundsLoop s (appended ++ [id]) rest
    else do
      let s ← s.cancelPendingOperation id false
      -- a duplicate request is cancelled alone
      if status = .alreadyPresent then appendRoundsLoop s appended rest
      else
        let s ← s.rollbackIds appended.reverse
        some (s, none)

/-- `AppendNewRoundsToQueueUnlocked`, with the outcome of the append to the consensus queue. -/
def appendNewRoundsToQueueUnlocked (s : ReplicaState) (rounds : List (OperationType × Outcome))
    (appendOutcome : Outcome) : Option ReplicaState := do
  let (s, appended) ← s.appendRoundsLoop [] rounds
  match appended with
  | none => some s
  | some appended =>
    match appended.getLast? with
    | none => some s
    | some last =>
      match appendOutcome with
      | .ok => some (s.updateLastReceivedOpIdUnlocked last)
      -- a full queue gives all the ids back; another error leaves them pending
      | .serviceUnavailable => s.rollbackIds appended.reverse
      | _ => some s

/-! The follower's side: the part of `UpdateReplica` that touches the pending operations. -/

/-- `ConsensusRequestPB` as the pending operations see it. -/
structure ConsensusRequest where
  callerTerm : Int
  precedingId : OpId
  ops : List ConsensusRound
  committedIndex : OpId

/-- `LeaderRequest`: the preceding OpId and the messages left after deduplication. -/
structure LeaderRequest where
  precedingOpId : OpId
  messages : List ConsensusRound
  /-- `first_message_idx`: the position in the request of the first message kept, `-1` before
  one is. -/
  firstMessageIdx : Int

/-- The loop of `DeduplicateLeaderRequestUnlocked` over the messages from position `i` on. -/
def dedupLoop (s : ReplicaState) (dedupUpToIndex : Int) (deduped : LeaderRequest) (i : Nat) :
    List ConsensusRound → Option LeaderRequest
  | [] => some deduped
  | leaderMsg :: rest =>
    if leaderMsg.id.index ≤ s.lastCommittedOpId.index then
      s.dedupLoop dedupUpToIndex { deduped with precedingOpId := leaderMsg.id } (i + 1) rest
    else
      let add (upTo : Int) := s.dedupLoop upTo
        { deduped with messages := deduped.messages ++ [leaderMsg],
                       firstMessageIdx :=
                         if deduped.firstMessageIdx = -1 then i else deduped.firstMessageIdx }
        (i + 1) rest
      if leaderMsg.id.index ≤ dedupUpToIndex then
        match s.getPendingOpByIndexOrNullUnlocked leaderMsg.id.index with
        | none => none
        | some round =>
          -- the same OpId is a duplicate; another term makes every later message new
          if round.id = leaderMsg.id then
            s.dedupLoop dedupUpToIndex { deduped with precedingOpId := leaderMsg.id } (i + 1) rest
          else add leaderMsg.id.index
      else add dedupUpToIndex

def deduplicateLeaderRequestUnlocked (s : ReplicaState) (request : ConsensusRequest) :
    Option LeaderRequest :=
  s.dedupLoop s.lastReceivedOpId.index ⟨request.precedingId, [], -1⟩ 0 request.ops

/-- The loop of `CheckLeaderRequestOpIdSequence`. -/
def checkSequence (prev : OpId) : List ConsensusRound → Except String Unit
  | [] => .ok ()
  | message :: rest => do
    checkOpInSequence prev message.id
    checkSequence message.id rest

def checkLeaderRequestOpIdSequence (deduped : LeaderRequest) : Except String Unit :=
  checkSequence deduped.precedingOpId deduped.messages

/-- `EnforceLogMatchingPropertyMatchesUnlocked`: the state, and whether the preceding OpId
matched; on a term mismatch the rounds from the preceding index on are aborted. -/
def enforceLogMatchingPropertyMatchesUnlocked (s : ReplicaState) (deduped : LeaderRequest) :
    Option (ReplicaState × Bool) := do
  let (committedOrPending, termMismatch) ← s.isOpCommittedOrPending deduped.precedingOpId
  if committedOrPending then some (s, true)
  else if termMismatch then
    let s ← s.abortOpsAfterUnlocked (deduped.precedingOpId.index - 1)
    some (s, false)
  else some (s, false)

/-- `CheckLeaderRequestUnlocked`: the state, and the deduplicated request if the update goes on.
A term above the replica's is taken on (`HandleTermAdvanceUnlocked`). -/
def checkLeaderRequestUnlocked (s : ReplicaState) (request : ConsensusRequest) :
    Option (ReplicaState × Option LeaderRequest) := do
  let deduped ← s.deduplicateLeaderRequestUnlocked request
  match checkLeaderRequestOpIdSequence deduped with
  | .error _ => some (s, none)
  | .ok () =>
    if request.callerTerm < s.currentTerm then some (s, none)
    else
      let s := if request.callerTerm > s.currentTerm then { s with currentTerm := request.callerTerm }
        else s
      let (s, matched) ← s.enforceLogMatchingPropertyMatchesUnlocked deduped
      if !matched then some (s, none)
      else match deduped.messages with
        | [] => some (s, some deduped)
        | first :: _ =>
          let (committedOrPending, termMismatch) ← s.isOpCommittedOrPending first.id
          -- "First deduped message is committed or pending"
          if committedOrPending then some (s, none)
          else if termMismatch then
            let s ← s.abortOpsAfterUnlocked deduped.precedingOpId.index
            some (s, some deduped)
          else some (s, some deduped)

def earlyCommitUnlocked (s : ReplicaState) (request : ConsensusRequest) (deduped : LeaderRequest)
    (shouldApplyWrite : Nat → Bool) : Option (ReplicaState × Except String Bool) :=
  let earlyApplyUpTo := s.getLastPendingOperationOpIdUnlocked
  let earlyApplyUpTo := if deduped.precedingOpId.index < earlyApplyUpTo.index then
    deduped.precedingOpId else earlyApplyUpTo
  let earlyApplyUpTo := if request.committedIndex.index < earlyApplyUpTo.index then
    request.committedIndex else earlyApplyUpTo
  s.advanceCommittedOpIdUnlocked earlyApplyUpTo true shouldApplyWrite

/-- The loop of `EnqueuePreparesUnlocked`: add the messages until one fails to start; the state
and the messages added. -/
def prepareLoop (s : ReplicaState) (prepare : ConsensusRound → Outcome) :
    List ConsensusRound → ReplicaState × List ConsensusRound
  | [] => (s, [])
  | msg :: rest =>
    match s.addPendingOperation msg (prepare msg) with
    | (.ok, s) =>
      let (s, started) := prepareLoop s prepare rest
      (s, msg :: started)
    | (_, s) => (s, [])

/-- `EnqueuePreparesUnlocked`: the state, the request cut to the messages started, and whether
the update goes on (it stops when no message at all could start). -/
def enqueuePreparesUnlocked (s : ReplicaState) (deduped : LeaderRequest)
    (prepare : ConsensusRound → Outcome) : ReplicaState × LeaderRequest × Bool :=
  let (s, started) := s.prepareLoop prepare deduped.messages
  (s, { deduped with messages := started }, !(started.isEmpty && !deduped.messages.isEmpty))

/-- `EnqueueWritesUnlocked`: the last OpId the leader sent. -/
def enqueueWritesUnlocked (deduped : LeaderRequest) : OpId :=
  match deduped.messages.getLast? with
  | some last => last.id
  | none => deduped.precedingOpId

def markOperationsAsCommittedUnlocked (s : ReplicaState) (request : ConsensusRequest)
    (deduped : LeaderRequest) (lastFromLeader : OpId) (shouldApplyWrite : Nat → Bool) :
    Option (ReplicaState × Except String Bool) :=
  let applyUpTo := if lastFromLeader.index < request.committedIndex.index then lastFromLeader
    else request.committedIndex
  match deduped.messages.getLast? with
  | some lastAppended =>
    (s.updateLastReceivedOpIdUnlocked lastAppended.id).advanceCommittedOpIdUnlocked applyUpTo true
      shouldApplyWrite
  | none =>
    if s.lastReceivedOpId.index < deduped.precedingOpId.index then
      some (s, .error ("Bad preceding_opid: " ++ deduped.precedingOpId.toText ++
        ", last received: " ++ s.lastReceivedOpId.toText))
    else s.advanceCommittedOpIdUnlocked applyUpTo true shouldApplyWrite

/-- `UpdateReplica`, as far as the pending operations see it. The operation factory's answers to
the early commit and to the commit at the end are given apart. -/
def updateReplica (s : ReplicaState) (request : ConsensusRequest)
    (prepare : ConsensusRound → Outcome) (earlyApplyWrite markApplyWrite : Nat → Bool) :
    Option ReplicaState := do
  let (s, deduped) ← s.checkLeaderRequestUnlocked request
  match deduped with
  | none => some s
  | some deduped =>
    let (s, early) ← s.earlyCommitUnlocked request deduped earlyApplyWrite
    match early with
    | .error _ => some s
    | .ok _ =>
      let (s, deduped, prepared) := s.enqueuePreparesUnlocked deduped prepare
      if !prepared then some s
      else
        let lastFromLeader := enqueueWritesUnlocked deduped
        let (s, _) ← s.markOperationsAsCommittedUnlocked request deduped lastFromLeader
          markApplyWrite
        some s

/-! Start, and the runs of a replica. -/

/-- `ConsensusBootstrapInfo`. -/
structure ConsensusBootstrapInfo where
  lastId : OpId
  lastCommittedId : OpId
  orphanedReplicates : List ConsensusRound

/-- `RaftConsensus::Start` on a fresh `ReplicaState` of term `term`: `StartUnlocked`, every
orphaned replicate started, and `InitCommittedOpIdUnlocked`. A failed start leaves no replica
to run. -/
def start (term : Int) (info : ConsensusBootstrapInfo) : Option ReplicaState := do
  if info.lastId.term > term then none
  let s : ReplicaState := ⟨term, info.orphanedReplicates, ⟨0, 0⟩, info.lastId,
    info.lastId.index + 1⟩
  let (s, status) ← s.initCommittedOpIdUnlocked info.lastCommittedId
  match status with
  | .ok () => some s
  | .error _ => none

/-- The handlers that change the pending operations. -/
inductive Event
  | replicate (rounds : List (OperationType × Outcome)) (appendOutcome : Outcome)
  | update (request : ConsensusRequest) (prepare : ConsensusRound → Outcome)
      (earlyApplyWrite markApplyWrite : Nat → Bool)
  | majorityReplicated (opId : OpId)
  /-- `DoStartElection` of an election pending on the commit of `opId`. -/
  | electionPendingCommit (opId : OpId)
  | termAdvance (term : Int)

def handle (s : ReplicaState) : Event → Option ReplicaState
  | .replicate rounds appendOutcome => s.appendNewRoundsToQueueUnlocked rounds appendOutcome
  | .update request prepare earlyApplyWrite markApplyWrite =>
    s.updateReplica request prepare earlyApplyWrite markApplyWrite
  | .majorityReplicated opId => (s.updateMajorityReplicatedUnlocked opId).map (·.1)
  -- the failure of the advance is only logged
  | .electionPendingCommit opId => (s.advanceCommittedOpIdUnlocked opId false fun _ => true).map (·.1)
  | .termAdvance term => some (if term > s.currentTerm then { s with currentTerm := term } else s)

/-- The runs of a replica started on a bootstrap info that `boot` admits, taking only the handler
calls that `allowed` admits. -/
inductive Reachable (boot : ConsensusBootstrapInfo → Prop) (allowed : Event → Prop) :
    ReplicaState → Prop
  | start {s : ReplicaState} (term : Int) (info : ConsensusBootstrapInfo) :
      boot info → start term info = some s → Reachable boot allowed s
  | step {s s' : ReplicaState} (e : Event) :
      Reachable boot allowed s → allowed e → s.handle e = some s' → Reachable boot allowed s'

end ReplicaState

end FrescoDB.Consensus
