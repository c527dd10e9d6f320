import Mathlib
import FrescoDB.Consensus.RaftConsensus

/-! `RetryableRequests` (`consensus/retryable_requests.cc`): for each client, the write requests
that are running and the ids of those already replicated, compressed into ranges, so that a
retried write is not replicated twice. `replicated` is a `multi_index_container` ordered by
`last_id` and unique also in `min_op_id`; here it is the list in `LastIdIndex` order, and the
`OpIdIndex` is the same ranges sorted by `min_op_id`. A `LOG(DFATAL)` ends a debug build and only
logs in a release build (`ndebug`). -/
namespace FrescoDB.Consensus.RetryableRequests

/-- `RetryableRequestId` (`int64_t`; a client's ids stay far from its bounds). -/
abbrev RetryableRequestId := Int

/-- `RestartSafeCoarseTimePoint` as its count of ticks; `RestartSafeCoarseTimePoint()` is `0`.
Durations (`RangeTimeLimit()`, the request timeout) are in the same ticks. -/
abbrev RestartSafeCoarseTimePoint := Int

/-- `yb::OpId`'s `operator<`: lexicographic on `(term, index)`. -/
instance : LinearOrder OpId :=
  LinearOrder.lift' (fun o => toLex (o.term, o.index)) fun a b h => by
    cases a
    cases b
    simp_all

theorem OpId.lt_iff {a b : OpId} :
    a < b ↔ a.term < b.term ∨ a.term = b.term ∧ a.index < b.index :=
  Prod.Lex.lt_iff

/-- `ClientId`: a pair of `uint64_t`. -/
structure ClientId where
  id1 : UInt64
  id2 : UInt64
  deriving DecidableEq, Repr

/-- `ClientId::IsNil`. -/
def ClientId.isNil (c : ClientId) : Bool := c.id1 == 0 && c.id2 == 0

/-- The fields of `tserver::WriteRequestPB` that `ReplicateData` reads. -/
structure WriteRequestPB where
  clientId1 : UInt64
  clientId2 : UInt64
  requestId : RetryableRequestId
  minRunningRequestId : RetryableRequestId
  deriving DecidableEq, Repr

/-- The fields of a `ReplicateMsg` that `ReplicateData::FromMsg` reads. -/
structure ReplicateMsg where
  id : OpId
  writeRequest : Option WriteRequestPB
  deriving DecidableEq, Repr

/-- `ReplicateData`, when `FromMsg` finds a write request of a client that is not nil. -/
structure ReplicateData where
  clientId : ClientId
  requestId : RetryableRequestId
  minRunningRequestId : RetryableRequestId
  opId : OpId
  deriving DecidableEq, Repr

/-- `ReplicateData::FromMsg`, `none` where the data converts to `false`. -/
def ReplicateData.fromMsg (msg : ReplicateMsg) : Option ReplicateData :=
  match msg.writeRequest with
  | none => none
  | some w =>
    let clientId : ClientId := ⟨w.clientId1, w.clientId2⟩
    if clientId.isNil then none
    else some ⟨clientId, w.requestId, w.minRunningRequestId, msg.id⟩

/-- A `ConsensusRound` as `RetryableRequests` sees it. -/
structure ConsensusRound where
  replicateMsg : ReplicateMsg
  boundTerm : Int
  deriving DecidableEq, Repr

inductive StatusCode where
  | kOk | kExpired | kAlreadyPresent | kAborted | kIllegalState | kServiceUnavailable
  | kTimedOut
  deriving DecidableEq, Repr

structure Status where
  code : StatusCode
  message : String
  deriving DecidableEq, Repr

def Status.ok (s : Status) : Bool := s.code == .kOk

/-- `round->NotifyReplicationFinished(status, term)`. -/
structure Notification where
  round : ConsensusRound
  status : Status
  term : Int
  deriving DecidableEq, Repr

structure RunningRetryableRequest where
  requestId : RetryableRequestId
  opId : OpId
  time : RestartSafeCoarseTimePoint
  duplicateRounds : List ConsensusRound
  deriving DecidableEq, Repr

structure ReplicatedRetryableRequestRange where
  firstId : RetryableRequestId
  lastId : RetryableRequestId
  minOpId : OpId
  minTime : RestartSafeCoarseTimePoint
  maxTime : RestartSafeCoarseTimePoint
  deriving DecidableEq, Repr

namespace ReplicatedRetryableRequestRange

/-- The constructor: the range of one id. -/
def ofRequest (id : RetryableRequestId) (opId : OpId) (time : RestartSafeCoarseTimePoint) :
    ReplicatedRetryableRequestRange :=
  ⟨id, id, opId, time, time⟩

def insertTime (r : ReplicatedRetryableRequestRange) (time : RestartSafeCoarseTimePoint) :
    ReplicatedRetryableRequestRange :=
  { r with minTime := min r.minTime time, maxTime := max r.maxTime time }

def prepareJoinWithPrev (r prev : ReplicatedRetryableRequestRange) :
    ReplicatedRetryableRequestRange :=
  { r with minTime := min r.minTime prev.minTime, maxTime := max r.maxTime prev.maxTime,
           firstId := prev.firstId }

end ReplicatedRetryableRequestRange

structure ClientRetryableRequests where
  running : List RunningRetryableRequest := []
  replicated : List ReplicatedRetryableRequestRange := []
  minRunningRequestId : RetryableRequestId := 0
  emptySince : RestartSafeCoarseTimePoint := 0
  deriving DecidableEq, Repr

/-- The checks of the source whose failure is a `LOG(DFATAL)`. -/
inductive Fatal where
  /-- "Request already replicated" -/
  | requestAlreadyReplicated
  /-- "Replication finished for request with unknown id" -/
  | unknownRequest
  /-- "Bootstrapped running request" -/
  | bootstrappedRunningRequest
  deriving DecidableEq, Repr

abbrev Range := ReplicatedRetryableRequestRange

/-- `lower_bound(id)` of `LastIdIndex`: the position of the first range whose `last_id` is not
below `id`. -/
def lowerBound (rs : List Range) (id : RetryableRequestId) : Nat :=
  (rs.takeWhile (·.lastId < id)).length

/-- `it != end() && it->first_id <= id` for `it` the `lower_bound(id)`: a range holds `id`. -/
def holds (rs : List Range) (id : RetryableRequestId) : Bool :=
  match rs[lowerBound rs id]? with
  | some r => decide (r.firstId ≤ id)
  | none => false

/-- `replicated.emplace(request_id, op_id, time)`: the range at its place in `LastIdIndex`,
unless its `last_id` or its `min_op_id` is taken. -/
def emplaceRange (rs : List Range) (r : Range) : List Range :=
  if rs.any fun o => o.lastId = r.lastId || o.minOpId = r.minOpId then rs
  else rs.insertIdx (lowerBound rs r.lastId) r

/-- `UpdateMinOpId` on the range at `k`: `modify` erases an entry whose new key collides in
`OpIdIndex`. -/
def updateMinOpId (rs : List Range) (k : Nat) (minOpId : OpId) : List Range :=
  match rs[k]? with
  | some r =>
    if minOpId < r.minOpId then
      if rs.any (·.minOpId = minOpId) then rs.eraseIdx k
      else rs.set k { r with minOpId := minOpId }
    else rs
  | none => rs

variable (rangeTimeLimit : Int)

/-- `TryJoinRanges` for the range at `k`: with the range before it, one id apart and within
the time limit, it becomes one range, in the place of the second; `none` is `false`. -/
def tryJoinRanges (rs : List Range) (k : Nat) (minOpId : OpId) : Option (List Range) :=
  match k with
  | 0 => none
  | k + 1 =>
    match rs[k + 1]?, rs[k]? with
    | some r, some prev =>
      if prev.lastId + 2 ≠ r.firstId then none
      else if r.maxTime > prev.minTime + rangeTimeLimit then none
      else
        let minOpId := min minOpId prev.minOpId
        let rs := (rs.set (k + 1) (r.prepareJoinWithPrev prev)).eraseIdx k
        some (updateMinOpId rs k minOpId)
    | _, _ => none

/-- `TryJoinToEndOfRange` for the position `k` of `lower_bound(request_id)`: the range before
it grows by the id, if it ends right before it and within the time limit. -/
def tryJoinToEndOfRange (rs : List Range) (k : Nat) (opId : OpId) (requestId : RetryableRequestId)
    (time : RestartSafeCoarseTimePoint) : Option (List Range) :=
  match k with
  | 0 => none
  | k + 1 =>
    match rs[k]? with
    | some prev =>
      if prev.lastId + 1 ≠ requestId then none
      else if time > prev.minTime + rangeTimeLimit then none
      else
        let opId := min prev.minOpId opId
        -- `++last_id` through `const_cast`, in place in `LastIdIndex`
        let rs := rs.set k { prev.insertTime time with lastId := prev.lastId + 1 }
        some (updateMinOpId rs k opId)
    | none => none

/-- `AddReplicated`: the id extends the range after it (joined with the range before it where
it closes the gap), or the range before it, or starts a range of its own. -/
def addReplicated (ndebug : Bool) (opId : OpId) (requestId : RetryableRequestId)
    (time : RestartSafeCoarseTimePoint) (c : ClientRetryableRequests) :
    Except Fatal ClientRetryableRequests :=
  let rs := c.replicated
  let k := lowerBound rs requestId
  if holds rs requestId then
    if ndebug then .ok c else .error .requestAlreadyReplicated
  else
    match rs[k]? with
    | some r =>
      if r.firstId = requestId + 1 then
        let opId := min r.minOpId opId
        let r := r.insertTime time
        let rs := rs.set k r
        match tryJoinRanges rangeTimeLimit rs k opId with
        | some rs => .ok { c with replicated := rs }
        | none =>
          let rs := rs.set k { r with firstId := r.firstId - 1 }
          .ok { c with replicated := updateMinOpId rs k opId }
      else .ok { c with replicated := joinOrEmplace rs k }
    | none => .ok { c with replicated := joinOrEmplace rs k }
where
  /-- `TryJoinToEndOfRange`, else `replicated.emplace`. -/
  joinOrEmplace (rs : List Range) (k : Nat) : List Range :=
    match tryJoinToEndOfRange rangeTimeLimit rs k opId requestId time with
    | some rs => rs
    | none => emplaceRange rs (.ofRequest requestId opId time)

namespace ClientRetryableRequests

/-- `CleanupReplicatedRequests`: a higher `min_running_request_id` drops the ids below it, trimming
the range at `lower_bound` and erasing those before it. -/
def cleanupReplicatedRequests (newMinRunningRequestId : RetryableRequestId)
    (c : ClientRetryableRequests) : ClientRetryableRequests :=
  if c.minRunningRequestId < newMinRunningRequestId then
    { c with
      replicated := match c.replicated.dropWhile (·.lastId < newMinRunningRequestId) with
        | r :: rs =>
          (if r.firstId < newMinRunningRequestId then { r with firstId := newMinRunningRequestId }
            else r) :: rs
        | [] => []
      minRunningRequestId := newMinRunningRequestId }
  else c

/-- `running.emplace(request_id, op_id, time)`: `error` is the position of the entry that bans
the insertion, first in the request id index, then in the op id index. -/
def emplaceRunning (c : ClientRetryableRequests) (requestId : RetryableRequestId) (opId : OpId)
    (time : RestartSafeCoarseTimePoint) : Except Nat (List RunningRetryableRequest) :=
  match c.running.findIdx? (·.requestId = requestId) with
  | some i => .error i
  | none =>
    match c.running.findIdx? (·.opId = opId) with
    | some i => .error i
    | none => .ok (c.running ++ [⟨requestId, opId, time, []⟩])

/-- The `OpIdIndex` of the replicated ranges. -/
def opIdIndex (c : ClientRetryableRequests) : List Range :=
  c.replicated.mergeSort fun a b => decide (a.minOpId ≤ b.minOpId)

/-- The body of the loop of `CleanExpiredReplicatedAndGetMinOpId` over the ranges of a client: it
erases the ranges in `OpIdIndex` order up to the first that has not expired, whose `min_op_id`
it returns. -/
def cleanExpiredReplicated (cleanStart : RestartSafeCoarseTimePoint)
    (c : ClientRetryableRequests) : Option OpId × ClientRetryableRequests :=
  let expired := c.opIdIndex.takeWhile (·.maxTime < cleanStart)
  match c.opIdIndex.drop expired.length with
  | first :: _ => (some first.minOpId, { c with replicated := c.replicated.filter (· ∉ expired) })
  | [] => (none, { c with replicated := [] })

end ClientRetryableRequests

/-- `RetryableRequests::Impl`: `clients_`, an `unordered_map` from client to its requests, in the
order its loop visits them. -/
structure Impl where
  clients : List (ClientId × ClientRetryableRequests) := []
  deriving DecidableEq, Repr

namespace Impl

/-- `clients_[id]`: a client not in the map reads as a default one, which `setClient` inserts. -/
def client (s : Impl) (id : ClientId) : ClientRetryableRequests :=
  (s.clients.lookup id).getD {}

-- Equation lemmas, made once before their uses.
section
attribute [local simp] client
end

/-- The write back through the reference `clients_[id]`. -/
def setClient (s : Impl) (id : ClientId) (c : ClientRetryableRequests) : Impl :=
  if (s.clients.lookup id).isSome then
    { clients := s.clients.map fun e => if e.1 = id then (id, c) else e }
  else { clients := s.clients ++ [(id, c)] }

/-- `Register`: whether the round is accepted for replication, and the notifications of a round
that is not. `entry_time` left at `RestartSafeCoarseTimePoint()` is `now`. -/
def register (s : Impl) (round : ConsensusRound) (entryTime now : RestartSafeCoarseTimePoint) :
    Bool × List Notification × Impl :=
  match ReplicateData.fromMsg round.replicateMsg with
  | none => (true, [], s)
  | some data =>
    let entryTime := if entryTime = 0 then now else entryTime
    let c := (s.client data.clientId).cleanupReplicatedRequests data.minRunningRequestId
    if data.requestId < c.minRunningRequestId then
      (false, [⟨round, ⟨.kExpired, "Request id is below than min running"⟩, round.boundTerm⟩],
        s.setClient data.clientId c)
    else if holds c.replicated data.requestId then
      (false, [⟨round, ⟨.kAlreadyPresent, "Duplicate request"⟩, round.boundTerm⟩],
        s.setClient data.clientId c)
    else
      match c.emplaceRunning data.requestId round.replicateMsg.id entryTime with
      | .error i =>
        (false, [], s.setClient data.clientId
          { c with
            running := c.running.modify i
              (fun e => { e with duplicateRounds := e.duplicateRounds ++ [round] }) })
      | .ok running => (true, [], s.setClient data.clientId { c with running })

variable (rangeTimeLimit : Int) (ndebug : Bool)

/-- `ReplicationFinished`: the duplicates of the request learn its status (`AlreadyPresent` for
a success), and a replicated request joins the ranges. -/
def replicationFinished (s : Impl) (msg : ReplicateMsg) (status : Status) (leaderTerm : Int) :
    Except Fatal (List Notification × Impl) :=
  match ReplicateData.fromMsg msg with
  | none => .ok ([], s)
  | some data =>
    let c := s.client data.clientId
    match c.running.find? (·.requestId = data.requestId) with
    | none => if ndebug then .ok ([], s.setClient data.clientId c) else .error .unknownRequest
    | some e =>
      let statusForDuplicate : Status :=
        if status.ok then ⟨.kAlreadyPresent, "Duplicate request"⟩ else status
      let notifications := e.duplicateRounds.map fun d => ⟨d, statusForDuplicate, leaderTerm⟩
      let c := { c with running := c.running.filter (·.requestId ≠ data.requestId) }
      if status.ok then
        (addReplicated rangeTimeLimit ndebug msg.id data.requestId e.time c).map
          fun c => (notifications, s.setClient data.clientId c)
      else .ok (notifications, s.setClient data.clientId c)

/-- `Bootstrap` of a replicated request read from the log. -/
def bootstrap (s : Impl) (msg : ReplicateMsg) (entryTime : RestartSafeCoarseTimePoint) :
    Except Fatal Impl :=
  match ReplicateData.fromMsg msg with
  | none => .ok s
  | some data =>
    let c := s.client data.clientId
    if c.running.any (·.requestId = data.requestId) then
      if ndebug then .ok (s.setClient data.clientId c) else .error .bootstrappedRunningRequest
    else
      let c := c.cleanupReplicatedRequests data.minRunningRequestId
      (addReplicated rangeTimeLimit ndebug msg.id data.requestId entryTime c).map
        (s.setClient data.clientId)

/-- The loop of `CleanExpiredReplicatedAndGetMinOpId` over the clients: a client with nothing
left is marked empty at `now`, and erased once it has been empty since before `clean_start`. -/
def cleanClients (now cleanStart : RestartSafeCoarseTimePoint) :
    List (ClientId × ClientRetryableRequests) → OpId → OpId × List (ClientId × ClientRetryableRequests)
  | [], result => (result, [])
  | (id, c) :: cs, result =>
    let (first, c) := c.cleanExpiredReplicated cleanStart
    let result := match first with
      | some o => min result o
      | none => result
    if c.replicated.isEmpty && c.running.isEmpty then
      if c.emptySince = 0 then
        let (result, cs) := cleanClients now cleanStart cs result
        (result, (id, { c with emptySince := now }) :: cs)
      else if c.emptySince < cleanStart then cleanClients now cleanStart cs result
      else
        let (result, cs) := cleanClients now cleanStart cs result
        (result, (id, c) :: cs)
    else
      let (result, cs) := cleanClients now cleanStart cs result
      (result, (id, c) :: cs)

/-- `OpId(std::numeric_limits<int64_t>::max(), std::numeric_limits<int64_t>::max())`. -/
def maxOpId : OpId := ⟨2 ^ 63 - 1, 2 ^ 63 - 1⟩

/-- `CleanExpiredReplicatedAndGetMinOpId`: `clean_start` is `now` less the request timeout. -/
def cleanExpiredReplicatedAndGetMinOpId (requestTimeout : Int) (s : Impl)
    (now : RestartSafeCoarseTimePoint) : OpId × Impl :=
  let (result, clients) := cleanClients now (now - requestTimeout) s.clients maxOpId
  (result, { clients })

end Impl

/-- A call of a public method of `RetryableRequests`. -/
inductive Event where
  | register (round : ConsensusRound) (entryTime now : RestartSafeCoarseTimePoint)
  | replicationFinished (msg : ReplicateMsg) (status : Status) (leaderTerm : Int)
  | bootstrap (msg : ReplicateMsg) (entryTime : RestartSafeCoarseTimePoint)
  | cleanExpiredReplicatedAndGetMinOpId (now : RestartSafeCoarseTimePoint)
  deriving DecidableEq, Repr

inductive Reply where
  | registered (accepted : Bool)
  | done
  | minOpId (opId : OpId)
  deriving DecidableEq, Repr

/-- One call, with its reply and the rounds it notifies. -/
def step (rangeTimeLimit requestTimeout : Int) (ndebug : Bool) (s : Impl) :
    Event → Except Fatal (Reply × List Notification × Impl)
  | .register round entryTime now =>
    let (accepted, notifications, s) := s.register round entryTime now
    .ok (.registered accepted, notifications, s)
  | .replicationFinished msg status leaderTerm =>
    (s.replicationFinished rangeTimeLimit ndebug msg status leaderTerm).map
      fun (notifications, s) => (.done, notifications, s)
  | .bootstrap msg entryTime =>
    (s.bootstrap rangeTimeLimit ndebug msg entryTime).map fun s => (.done, [], s)
  | .cleanExpiredReplicatedAndGetMinOpId now =>
    let (result, s) := s.cleanExpiredReplicatedAndGetMinOpId requestTimeout now
    .ok (.minOpId result, [], s)

/-- Calls one after another, with their replies and notifications; the first failed check ends
the run. -/
def runEvents (rangeTimeLimit requestTimeout : Int) (ndebug : Bool) (s : Impl) :
    List Event → Except Fatal (List (Reply × List Notification) × Impl)
  | [] => .ok ([], s)
  | e :: es => do
    let (r, ns, s) ← step rangeTimeLimit requestTimeout ndebug s e
    let (replies, s) ← runEvents rangeTimeLimit requestTimeout ndebug s es
    return ((r, ns) :: replies, s)

end FrescoDB.Consensus.RetryableRequests
