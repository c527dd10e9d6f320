import FrescoDB.Util.Status

/-! `OperationDriver` (`tablet/operations/operation_driver.{h,cc}`): the state machine that takes
one operation through prepare, replication and apply. Its calls run on different threads, the
preparer's (`PrepareAndStart`, and on the leader `ReplicateBatch`, which calls
`HandleConsensusAppend` and `ReplicationFailed`), the consensus one's (`ReplicationFinished`) and
any other (`HandleFailure`, `Abort`); they meet in `lock_`, which guards `replication_state_`,
`prepare_state_` and `operation_status_`.

A call in flight is the block it runs next. A block is one critical section with the code after
it that only reads the call's own copies, or a stretch of code outside the lock that asks
something of the operation (`Start`, `Apply`, `Finish`), of its state (`CompleteWithStatus`) or of
the tracker (`Release`); these requests are the block's output. `none` stops the process: a failed
`CHECK`, `LOG(FATAL)`, a call through a null `operation_`, and in a debug build (`ndebug` false) a
failed `DCHECK` or `LOG(DFATAL)`.
What the operation's `Prepare` and `Apply` return is an input. The order verifier, the trace, the
op id copies and the propagated safe time are left out. -/
namespace FrescoDB.Tablet

open FrescoDB.Util

inductive ReplicationState
  | NOT_REPLICATING
  | REPLICATING
  | REPLICATION_FAILED
  | REPLICATED
  deriving DecidableEq, Repr

inductive PrepareState
  | NOT_PREPARED
  | PREPARED
  deriving DecidableEq, Repr

/-- `Operation::OperationResult`. -/
inductive OperationResult
  | COMMITTED
  | ABORTED
  deriving DecidableEq, Repr

/-- What a call asks of the operation, of its state and of the operation tracker. -/
inductive DriverEffect
  | start
  | apply
  | finish (result : OperationResult)
  | completeWithStatus (status : Status)
  | release
  deriving DecidableEq, Repr

structure OperationDriver where
  replicationState : ReplicationState := .NOT_REPLICATING
  prepareState : PrepareState := .NOT_PREPARED
  operationStatus : Status := Status.OK
  /-- Whether `operation_` is set. -/
  hasOperation : Bool := true
  deriving DecidableEq, Repr

namespace OperationDriver

/-- `Init`: the driver of a replica's operation (`term == OpId::kUnknownTerm`) is already
`REPLICATING`. -/
def init (hasOperation replica : Bool) : OperationDriver :=
  { hasOperation, replicationState := if replica then .REPLICATING else .NOT_REPLICATING }

/-- A call in flight, by the block it runs next. -/
inductive Call
  /-- `PrepareAndStart` as the preparer runs it, with what `Prepare` returns: on a failure the
  caller, `PrepareAndStartTask` or the leader's batch, calls `HandleFailure` with it. -/
  | prepareAndStart (prepareStatus : Status)
  /-- `StartOperation` in `PrepareAndStart`, after its first critical section. -/
  | prepareAndStartStart
  /-- The second critical section of `PrepareAndStart`, which sets `PREPARED`. -/
  | prepareAndStartPrepared
  /-- The third: a driver not yet replicating starts `REPLICATING`. -/
  | prepareAndStartReplicating
  | applyOperation
  /-- `ApplyTask`: `Apply`, then `Finalize`. -/
  | applyTask
  | handleFailure (status : Status)
  /-- The end of `HandleFailure` outside the lock: the operation is aborted with `status`. -/
  | handleFailureAbort (status : Status)
  | replicationFinished (status : Status)
  | replicationFailed (status : Status)
  | abort (status : Status)
  | handleConsensusAppend
  deriving DecidableEq, Repr

/-- `StartOperation`: without an operation the driver releases itself and the caller stops. -/
def startOperation (d : OperationDriver) : Bool × List DriverEffect :=
  if d.hasOperation then (true, [.start]) else (false, [.release])

/-- One block of a call: the driver after it, what it asks for, and the block the call runs next,
`none` once it returns. -/
def Call.step (ndebug : Bool) (applyStatus : Status) (d : OperationDriver) :
    Call → Option (OperationDriver × List DriverEffect × Option Call)
  | .prepareAndStart prepareStatus =>
    -- `Prepare` runs outside the lock, then the first critical section
    if d.hasOperation && !prepareStatus.ok then some (d, [], some (.handleFailure prepareStatus))
    else if d.prepareState ≠ .NOT_PREPARED then none
    else if d.replicationState ≠ .NOT_REPLICATING then some (d, [], some .prepareAndStartStart)
    else some (d, [], some .prepareAndStartPrepared)
  | .prepareAndStartStart =>
    let (started, effects) := d.startOperation
    some (d, effects, if started then some .prepareAndStartPrepared else none)
  | .prepareAndStartPrepared =>
    if d.prepareState ≠ .NOT_PREPARED then none
    else
      let d := { d with prepareState := .PREPARED }
      match d.replicationState with
      | .NOT_REPLICATING => some (d, [], some .prepareAndStartReplicating)
      | .REPLICATING => some (d, [], none)
      | .REPLICATION_FAILED =>
        if !ndebug && d.operationStatus.ok then none else some (d, [], some .applyOperation)
      | .REPLICATED => some (d, [], some .applyOperation)
  | .prepareAndStartReplicating => some ({ d with replicationState := .REPLICATING }, [], none)
  | .applyOperation =>
    if !ndebug && d.prepareState ≠ .PREPARED then none
    else if d.operationStatus.ok then
      if !ndebug && d.replicationState ≠ .REPLICATED then none
      else some (d, [], some .applyTask)
    else if !ndebug && d.replicationState ≠ .REPLICATION_FAILED then none
    else some (d, [], some (.handleFailure Status.OK))
  | .applyTask =>
    -- the `DCHECK`s of a debug build under the lock, `CHECK_OK(operation_->Apply(leader_term))`,
    -- then `Finalize`
    if !ndebug && (d.replicationState ≠ .REPLICATED || d.prepareState ≠ .PREPARED) then none
    else if !d.hasOperation || !applyStatus.ok then none
    else some (d, [.apply, .finish .COMMITTED, .completeWithStatus Status.OK, .release], none)
  | .handleFailure status =>
    if !ndebug && !status.ok && !d.operationStatus.ok then none
    else
      let (d, status) :=
        if !status.ok then ({ d with operationStatus := status }, status) else (d, d.operationStatus)
      if status.ok then none
      else match d.replicationState with
        | .NOT_REPLICATING | .REPLICATION_FAILED => some (d, [], some (.handleFailureAbort status))
        -- "Cannot cancel operations that have already replicated"
        | .REPLICATING | .REPLICATED => none
  | .handleFailureAbort status =>
    if !d.hasOperation then none
    else some (d, [.finish .ABORTED, .completeWithStatus status, .release], none)
  | .replicationFinished status =>
    -- `mutable_state()->consensus_round()` reads through `operation_`
    if !d.hasOperation then none
    else if d.replicationState ≠ .REPLICATING then none
    else
      let d := if status.ok then { d with replicationState := .REPLICATED }
        else { d with replicationState := .REPLICATION_FAILED, operationStatus := status }
      -- `CHECK_OK(ApplyOperation(leader_term))`: `ApplyOperation` returns `OK`
      if d.prepareState = .PREPARED then some (d, [], some .applyOperation) else some (d, [], none)
  | .replicationFailed status =>
    if d.replicationState = .REPLICATION_FAILED then some (d, [], none)
    else if d.replicationState ≠ .REPLICATING then none
    else some ({ d with operationStatus := status, replicationState := .REPLICATION_FAILED }, [],
      some (.handleFailure Status.OK))
  | .abort status =>
    if status.ok then none
    else
      let d' := { d with operationStatus := status }
      if d.replicationState = .NOT_REPLICATING then some (d', [], some (.handleFailure Status.OK))
      else some (d', [], none)
  | .handleConsensusAppend => some (d, d.startOperation.2, none)

end OperationDriver

/-- A driver with its calls in flight, each as the call made and the block it runs next, the
calls that returned, and what its calls asked for, in order. -/
structure DriverCalls where
  driver : OperationDriver
  running : List (OperationDriver.Call × OperationDriver.Call) := []
  returned : List OperationDriver.Call := []
  effects : List DriverEffect := []

/-- What happens to one driver: a call is made, or the `k`-th call in flight runs a block. -/
inductive DriverEvent
  | call (c : OperationDriver.Call)
  | run (k : Nat)
  deriving DecidableEq, Repr

namespace DriverCalls

open OperationDriver

/-- The driver after one event, with what the event asked for; `none` stops the process. -/
def step (ndebug : Bool) (applyStatus : Status) (dc : DriverCalls) :
    DriverEvent → Option (DriverCalls × List DriverEffect)
  | .call c => some ({ dc with running := dc.running ++ [(c, c)] }, [])
  | .run k => do
    let (made, block) ← dc.running[k]?
    let (driver, effects, next) ← block.step ndebug applyStatus dc.driver
    let dc := { dc with driver, effects := dc.effects ++ effects }
    match next with
    | some block => pure ({ dc with running := dc.running.set k (made, block) }, effects)
    | none => pure ({ dc with running := dc.running.eraseIdx k, returned := dc.returned ++ [made] },
        effects)

end DriverCalls

/-- The drivers of one tablet by op index, and what their calls asked for, in the order asked. -/
structure TabletDrivers where
  drivers : List DriverCalls
  log : List (Nat × DriverEffect) := []

namespace TabletDrivers

/-- An event of the `i`-th driver, in any interleaving with the others. -/
def step (ndebug : Bool) (applyStatus : Nat → Status) (t : TabletDrivers) (i : Nat)
    (e : DriverEvent) : Option TabletDrivers := do
  let dc ← t.drivers[i]?
  let (dc, effects) ← dc.step ndebug (applyStatus i) e
  pure { drivers := t.drivers.set i dc, log := t.log ++ effects.map (i, ·) }

end TabletDrivers

-- Equation lemmas, made once before their uses.
section
attribute [local simp] OperationDriver.Call.step DriverCalls.step TabletDrivers.step
end

end FrescoDB.Tablet
