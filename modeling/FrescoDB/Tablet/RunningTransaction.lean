import FrescoDB.Common.Transaction
import FrescoDB.Util.Status

/-! The status requests of a participant's `RunningTransaction`
(`tablet/transaction_participant.cc`). `RequestStatusAt` answers a waiter from the last status it
knows, or queues it; one `GetTransactionStatus` RPC at a time asks the status tablet, and each
reply answers the waiters it decides and sends the next RPC for the rest. The callbacks a handler
invokes are its output; `none` is a crash (`FATAL_INVALID_ENUM_VALUE`, or the `DFATAL` of
`NotifyWaiters`). The intents cleanup an `ABORTED` reply starts is left out. -/
namespace FrescoDB.Tablet

open FrescoDB.Common FrescoDB.Util

/-- A callback invoked with a status or an error. -/
abbrev Notification := Nat × Except Status TransactionStatusResult

/-- The fields of `GetTransactionStatusResponsePB` that the participant reads. -/
structure GetTransactionStatusResponse where
  status : TransactionStatus
  statusHybridTime : Option HybridTime
  deriving DecidableEq, Repr

structure RunningTransaction where
  lastKnownStatus : TransactionStatus
  lastKnownStatusHybridTime : HybridTime
  statusWaiters : List StatusRequest
  /-- `request_serial_` of the context, shared with the participant's other requests. -/
  requestSerial : Int
  /-- The serial numbers of the status RPCs sent and not answered yet. -/
  statusRpcs : List Int

namespace RunningTransaction

/-- `GetStatusAt`; the inner `none` is `boost::none`. -/
def getStatusAt (time lastKnownStatusHybridTime : HybridTime)
    (lastKnownStatus : TransactionStatus) : Option (Option TransactionStatus) :=
  match lastKnownStatus with
  | .ABORTED => some (some .ABORTED)
  | .COMMITTED => some (some (if lastKnownStatusHybridTime > time then .PENDING else .COMMITTED))
  | .PENDING => some (if lastKnownStatusHybridTime ≥ time then some .PENDING else none)
  | _ => none

def nextRequestIdUnlocked (t : RunningTransaction) : Int × RunningTransaction :=
  (t.requestSerial + 1, { t with requestSerial := t.requestSerial + 1 })

def sendStatusRequest (t : RunningTransaction) (serialNo : Int) : RunningTransaction :=
  { t with statusRpcs := t.statusRpcs ++ [serialNo] }

/-- The end of `RequestStatusAt`: the waiter is queued, and the first one sends an RPC. -/
def queueStatusWaiter (t : RunningTransaction) (request : StatusRequest) :
    RunningTransaction × List Notification :=
  let wasEmpty := t.statusWaiters.isEmpty
  let t := { t with statusWaiters := t.statusWaiters ++ [request] }
  if !wasEmpty then (t, [])
  else
    let (requestId, t) := t.nextRequestIdUnlocked
    (t.sendStatusRequest requestId, [])

def requestStatusAt (t : RunningTransaction) (request : StatusRequest) :
    Option (RunningTransaction × List Notification) :=
  if t.lastKnownStatusHybridTime > HybridTime.kMin then
    (getStatusAt request.globalLimitHt t.lastKnownStatusHybridTime t.lastKnownStatus).map fun
      | some status =>
        (t, [(request.callback, .ok ⟨status, t.lastKnownStatusHybridTime⟩)])
      | none => t.queueStatusWaiter request
  else some (t.queueStatusWaiter request)

/-- Whether `ExtractFinishedStatusWaitersUnlocked` takes a waiter out; `GetStatusAt` is asked only
for a waiter of a later serial number. -/
def isFinished (serialNo : Int) (timeOfStatus : HybridTime) (transactionStatus : TransactionStatus)
    (waiter : StatusRequest) : Option Bool :=
  if waiter.serialNo ≤ serialNo then some true
  else (getStatusAt waiter.globalLimitHt timeOfStatus transactionStatus).map fun known =>
    known.isSome || decide (timeOfStatus < waiter.readHt)

/-- `ExtractFinishedStatusWaitersUnlocked`: the waiters taken out and those left, each in order. -/
def extractFinishedStatusWaitersUnlocked (serialNo : Int) (timeOfStatus : HybridTime)
    (transactionStatus : TransactionStatus) :
    List StatusRequest → Option (List StatusRequest × List StatusRequest)
  | [] => some ([], [])
  | waiter :: rest => do
    let finished ← isFinished serialNo timeOfStatus transactionStatus waiter
    let (taken, left) ←
      extractFinishedStatusWaitersUnlocked serialNo timeOfStatus transactionStatus rest
    if finished then some (waiter :: taken, left) else some (taken, waiter :: left)

/-- The answer `NotifyWaiters` gives one waiter. -/
def notifyWaiter (serialNo : Int) (timeOfStatus : HybridTime)
    (transactionStatus : TransactionStatus) (waiter : StatusRequest) : Option Notification := do
  match ← getStatusAt waiter.globalLimitHt timeOfStatus transactionStatus with
  | some statusForWaiter => some (waiter.callback, .ok ⟨statusForWaiter, timeOfStatus⟩)
  | none =>
    if timeOfStatus ≥ waiter.readHt then
      -- pending from `read_ht` on; `LOG_IF(DFATAL)` for a waiter newer than the request
      if waiter.serialNo > serialNo then none
      else some (waiter.callback, .ok ⟨.PENDING, timeOfStatus⟩)
    else
      let readHt := waiter.readHt.toString
      let globalLimitHt := waiter.globalLimitHt.toString
      let name := transactionStatus.name
      let time := timeOfStatus.toString
      some (waiter.callback, .error ⟨.kTryAgain,
        s!"Cannot determine transaction status with read_ht {readHt}, and global_limit_ht {globalLimitHt}, last known: {name} at {time}"⟩)

def notifyWaiters (serialNo : Int) (timeOfStatus : HybridTime)
    (transactionStatus : TransactionStatus) (waiters : List StatusRequest) :
    Option (List Notification) :=
  waiters.mapM (notifyWaiter serialNo timeOfStatus transactionStatus)

/-- The last known status and its time after an OK reply: a reply at a time not before the
known one replaces it. -/
def updateLastKnown (lastKnownStatus : TransactionStatus) (lastKnownStatusHybridTime : HybridTime)
    (response : GetTransactionStatusResponse) : TransactionStatus × HybridTime :=
  let timeOfStatus := response.statusHybridTime.getD HybridTime.kMax
  if lastKnownStatusHybridTime ≤ timeOfStatus then (response.status, timeOfStatus)
  else (lastKnownStatus, lastKnownStatusHybridTime)

/-- `DoStatusReceived` for the RPC of `serialNo`. An RPC error answers every waiter with it. -/
def doStatusReceived (t : RunningTransaction) (serialNo : Int)
    (reply : Except Status GetTransactionStatusResponse) :
    Option (RunningTransaction × List Notification) :=
  let t := { t with statusRpcs := t.statusRpcs.erase serialNo }
  match reply with
  | .error status =>
    some ({ t with statusWaiters := [] }, t.statusWaiters.map fun w => (w.callback, .error status))
  | .ok response => do
    let (transactionStatus, timeOfStatus) :=
      updateLastKnown t.lastKnownStatus t.lastKnownStatusHybridTime response
    let (finished, left) ← extractFinishedStatusWaitersUnlocked serialNo timeOfStatus
      transactionStatus t.statusWaiters
    let t := { t with lastKnownStatus := transactionStatus,
                      lastKnownStatusHybridTime := timeOfStatus, statusWaiters := left }
    let t := if left.isEmpty then t
      else
        let (requestId, t) := t.nextRequestIdUnlocked
        t.sendStatusRequest requestId
    let notifications ← notifyWaiters serialNo timeOfStatus transactionStatus finished
    some (t, notifications)

inductive Event
  | requestStatusAt (request : StatusRequest)
  | statusReceived (serialNo : Int) (reply : Except Status GetTransactionStatusResponse)
  /-- Another request of the participant takes a serial number. -/
  | nextRequestId

def handle (t : RunningTransaction) : Event → Option (RunningTransaction × List Notification)
  | .requestStatusAt request => t.requestStatusAt request
  | .statusReceived serialNo reply => t.doStatusReceived serialNo reply
  | .nextRequestId => some (t.nextRequestIdUnlocked.2, [])

end RunningTransaction

end FrescoDB.Tablet
