import FrescoDB.Docdb.ConflictResolution

/-! The running requests of a `TransactionParticipant` (`tablet/transaction_participant.cc`,
`common/transaction.h`). A read registers a request under a `RequestScope` before it reads the
provisional records and unregisters it when the scope ends, in any order. `running_requests_`
holds the ids from the oldest request still running on; an id unregistered out of order waits in
the min-heap `complete_requests_` until the front of the deque reaches it. A transaction removed
while requests run waits in `cleanup_queue_`, tagged with the current `request_serial_`, which the
status RPCs of running transactions also advance. Every method holds `mutex_`, so a call is one
atomic step.

`transactions_` is the ids of the transactions it holds: nothing here reads the rest of a
`RunningTransaction`. `complete_requests_` is kept as its elements in ascending order: `top()` is
the head and `pop()` drops it. -/
namespace FrescoDB.Tablet

open FrescoDB.Docdb

/-- `CleanupQueueEntry`. -/
structure CleanupQueueEntry where
  requestId : Int
  transactionId : TransactionId
  deriving DecidableEq

/-- The fields of `TransactionParticipant::Impl` that the request methods read and write, with
`request_serial_` of its `RunningTransactionContext`. -/
structure Participant where
  requestSerial : Int := 0
  transactions : List TransactionId := []
  runningRequests : List Int := []
  completeRequests : List Int := []
  cleanupQueue : List CleanupQueueEntry := []
  deriving DecidableEq

namespace Participant

/-- `std::numeric_limits<int64_t>::max()`. -/
def kInt64Max : Int := 2 ^ 63 - 1

/-- `RunningTransactionContext::NextRequestIdUnlocked`. -/
def nextRequestIdUnlocked (p : Participant) : Int × Participant :=
  (p.requestSerial + 1, { p with requestSerial := p.requestSerial + 1 })

/-- `RegisterRequest`. -/
def registerRequest (p : Participant) : Int × Participant :=
  let (result, p) := p.nextRequestIdUnlocked
  (result, { p with runningRequests := p.runningRequests ++ [result] })

/-- The loop of `UnregisterRequest`: both pop while the top of the heap is the front of the
deque; `none` reads the front of an empty deque. -/
def popCompleteRequests : List Int → List Int → Option (List Int × List Int)
  | runningRequests, [] => some (runningRequests, [])
  | [], _ :: _ => none
  | front :: rest, top :: completeRequests =>
    if top = front then popCompleteRequests rest completeRequests
    else some (front :: rest, top :: completeRequests)

/-- The loop of `CleanTransactionsUnlocked`: the front entry's transaction is erased while its
request id is below `minRequest`. -/
def cleanLoop (minRequest : Int) :
    List CleanupQueueEntry → List TransactionId → List CleanupQueueEntry × List TransactionId
  | [], transactions => ([], transactions)
  | entry :: queue, transactions =>
    if entry.requestId < minRequest then
      cleanLoop minRequest queue (transactions.filter (· ≠ entry.transactionId))
    else (entry :: queue, transactions)

/-- `CleanTransactionsUnlocked`. -/
def cleanTransactionsUnlocked (p : Participant) : Participant :=
  let minRequest := p.runningRequests.headD kInt64Max
  let (cleanupQueue, transactions) := cleanLoop minRequest p.cleanupQueue p.transactions
  { p with cleanupQueue, transactions }

/-- `UnregisterRequest`; `none` is the `DCHECK` of an empty deque, whose front a release build
would read. -/
def unregisterRequest (p : Participant) (request : Int) : Option Participant :=
  match p.runningRequests with
  | [] => none
  | front :: rest =>
    if front ≠ request then
      some { p with completeRequests := p.completeRequests.orderedInsert (· ≤ ·) request }
    else do
      let (runningRequests, completeRequests) ← popCompleteRequests rest p.completeRequests
      pure (cleanTransactionsUnlocked { p with runningRequests, completeRequests })

/-- `RemoveUnlocked(id)`, with whether the transaction is gone after the call. -/
def removeUnlocked (p : Participant) (id : TransactionId) : Bool × Participant :=
  if id ∉ p.transactions then (true, p)
  else if p.runningRequests.isEmpty then
    (true, { p with transactions := p.transactions.filter (· ≠ id) })
  -- requests launched before this call may still ask for the transaction's status
  else (false, { p with cleanupQueue := p.cleanupQueue ++ [⟨p.requestSerial, id⟩] })

-- Equation lemmas, made once before their uses.
section
attribute [local simp] removeUnlocked
end

/-- `transactions_.insert` of a transaction added or loaded: the `hashed_unique` index keeps the
one it holds. -/
def addTransaction (p : Participant) (id : TransactionId) : Participant :=
  if id ∈ p.transactions then p else { p with transactions := p.transactions ++ [id] }

/-- A call under `mutex_`. -/
inductive Event
  | registerRequest
  | unregisterRequest (request : Int)
  /-- A running transaction draws the serial number of a status RPC. -/
  | nextRequestId
  | addTransaction (id : TransactionId)
  | removeUnlocked (id : TransactionId)
  deriving DecidableEq

def step (p : Participant) : Event → Option Participant
  | .registerRequest => some p.registerRequest.2
  | .unregisterRequest request => p.unregisterRequest request
  | .nextRequestId => some p.nextRequestIdUnlocked.2
  | .addTransaction id => some (p.addTransaction id)
  | .removeUnlocked id => some (p.removeUnlocked id).2

end Participant

end FrescoDB.Tablet
