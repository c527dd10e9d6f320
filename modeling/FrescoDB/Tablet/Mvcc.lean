import FrescoDB.Common.HybridTime

/-! `MvccManager` (`tablet/mvcc.h`, `tablet/mvcc.cc`): the hybrid times of the tablet's
operations in flight, and the safe time below them at which reads may run. Every method holds
`mutex_` for its whole body, so a call is one atomic step. A call that waits on `cond_` either
finds its predicate true, or times out, or waits; a waiting caller re-evaluates the same
predicate after a later call, which is that call made again (the lease update it repeats is a
`max`, so it changes nothing the second time). `clock_->Now()` is the argument `now`, read only
where the source reads the clock. The `source` of a `SafeTimeWithSource` and the log texts are
left out: nothing but logging reads them. -/
namespace FrescoDB.Tablet

open FrescoDB.Common HybridTime

/-- The fields of `MvccManager` that its methods read. `abortedHeap` is the min-heap `aborted_`,
kept as its elements in ascending order: `top()` is the head and `pop()` drops it. -/
structure MvccManager where
  queue : List HybridTime := []
  abortedHeap : List HybridTime := []
  lastReplicated : HybridTime := kMin
  propagatedSafeTime : HybridTime := kMin
  maxHtLeaseSeen : HybridTime := kMin
  maxSafeTimeReturnedWithLease : HybridTime := kMin
  maxSafeTimeReturnedWithoutLease : HybridTime := kMin
  maxSafeTimeReturnedForFollower : HybridTime := kMin
  deriving DecidableEq, Repr

/-- The `CHECK`s and the `LOG(FATAL)` of `mvcc.cc`, and the reads of an empty container that the
source does not guard. -/
inductive MvccCheck
  | queueEmpty
  | replicatedNotFront
  | queueShorterThanAborted
  | frontOfEmptyQueue
  | frontNotBelowAbortedTop
  | abortedNotInQueue
  | topOfEmptyHeap
  | htTooLow
  | leaseInvalid
  | minAllowedAboveLease
  | nowBelowMinAllowed
  | safeTimeWentBack
  | followerSafeTimeWentBack
  | propagatedWentBack
  deriving DecidableEq, Repr

/-- The `deadline` argument: `CoarseTimePoint::max()`, or a finite one that passes while the
predicate stays false. -/
inductive Deadline
  | max
  | finite
  deriving DecidableEq, Repr

inductive MvccReply
  | done
  | time (ht : HybridTime)
  | waiting
  /-- The wait reached its deadline: the source returns `HybridTime::kInvalid`. -/
  | timedOut
  deriving DecidableEq, Repr

/-- The public methods of `MvccManager` with their arguments. -/
inductive MvccCall
  | setLastReplicated (ht : HybridTime)
  | setPropagatedSafeTimeOnFollower (ht : HybridTime)
  | updatePropagatedSafeTimeOnLeader (htLease now : HybridTime)
  | addPending (ht now : HybridTime)
  | replicated (ht : HybridTime)
  | aborted (ht : HybridTime)
  | safeTimeForFollower (minAllowed : HybridTime) (deadline : Deadline)
  | safeTime (minAllowed : HybridTime) (deadline : Deadline) (htLease now : HybridTime)
  | lastReplicatedHybridTime
  deriving DecidableEq, Repr

namespace MvccManager

/-- The loop of `PopFront`: while the heap is not empty, drop the front and the top together
when they are equal. -/
def dropAbortedFront : List HybridTime → List HybridTime →
    Except MvccCheck (List HybridTime × List HybridTime)
  | queue, [] => .ok (queue, [])
  | [], _ :: _ => .error .frontOfEmptyQueue
  | front :: queue, top :: heap =>
    if front ≠ top then
      if front < top then .ok (front :: queue, top :: heap) else .error .frontNotBelowAbortedTop
    else dropAbortedFront queue heap

/-- `PopFront`; its callers have checked that the queue is not empty. -/
def popFront (s : MvccManager) : Except MvccCheck MvccManager := do
  let queue := s.queue.tail
  if queue.length < s.abortedHeap.length then throw .queueShorterThanAborted
  let (queue, abortedHeap) ← dropAbortedFront queue s.abortedHeap
  return { s with queue, abortedHeap }

/-- `Replicated`. -/
def replicated (s : MvccManager) (ht : HybridTime) : Except MvccCheck MvccManager :=
  match s.queue with
  | [] => .error .queueEmpty
  | front :: _ =>
    if front ≠ ht then .error .replicatedNotFront
    else (s.popFront).map fun s => { s with lastReplicated := ht }

/-- `Aborted`: the front is popped at once, any other time waits in the heap. -/
def aborted (s : MvccManager) (ht : HybridTime) : Except MvccCheck MvccManager :=
  match s.queue with
  | [] => .error .queueEmpty
  | front :: _ =>
    if front = ht then s.popFront
    else .ok { s with abortedHeap := s.abortedHeap.orderedInsert (· ≤ ·) ht }

/-- The loop of `AddPending` that erases a run of aborted times: it walks the queue from
`std::lower_bound(..., aborted_.top())`, popping the heap while the time it reaches is the top. It
reads `top()` before it checks that the heap is not empty. -/
def eraseAbortedRun : List HybridTime → List HybridTime →
    Except MvccCheck (List HybridTime × List HybridTime)
  | [], heap => .ok ([], heap)
  | _ :: _, [] => .error .topOfEmptyHeap
  | time :: rest, top :: heap =>
    if time = top then eraseAbortedRun rest heap else .ok (time :: rest, top :: heap)

/-- The first branch of `AddPending`: a new time not above the newest pending one, with aborted
times parked, erases the aborted run that starts at the heap minimum. `std::lower_bound` is a
binary search, which on the sorted queue splits it at the first time not below the top. -/
def eraseAbortedTail (s : MvccManager) (ht : HybridTime) :
    Except MvccCheck (List HybridTime × List HybridTime) :=
  match s.queue.getLast?, s.abortedHeap with
  | some back, top :: _ =>
    if ht ≤ back then
      let (before, fromTop) := s.queue.span (· < top)
      if fromTop = [] then .error .abortedNotInQueue
      else (eraseAbortedRun fromTop s.abortedHeap).map fun (rest, heap) => (before ++ rest, heap)
    else .ok (s.queue, s.abortedHeap)
  | _, _ => .ok (s.queue, s.abortedHeap)

/-- `sanity_check_lower_bound` of `AddPending`. -/
def sanityCheckLowerBound (s : MvccManager) (lastHtInQueue : HybridTime) : HybridTime :=
  max (max (max (max s.maxSafeTimeReturnedWithLease s.maxSafeTimeReturnedWithoutLease)
    s.maxSafeTimeReturnedForFollower) s.lastReplicated) lastHtInQueue

/-- `AddPending`. A valid `ht` is a follower's, known in advance; otherwise the leader takes
`now` from the clock. `ndebug` is a release build, which raises a leader's time that is too low
before it checks it again. -/
def addPending (ndebug : Bool) (s : MvccManager) (ht now : HybridTime) :
    Except MvccCheck (HybridTime × MvccManager) := do
  let isFollowerSide := ht.isValid
  let ht := if isFollowerSide then ht else now
  let (queue, abortedHeap) ← s.eraseAbortedTail ht
  let lastHtInQueue := queue.getLast?.getD kMin
  let bound := s.sanityCheckLowerBound lastHtInQueue
  let ht ← if queue ≠ [] ∧ ht ≤ bound then
      let ht := if ndebug && !isFollowerSide && bound.isValid && bound ≠ kMax
        then bound.incremented else ht
      if ht ≤ bound then throw .htTooLow else pure ht
    else pure ht
  return (ht, { s with queue := queue ++ [ht], abortedHeap })

/-- `has_lease` of `DoGetSafeTime`. -/
def hasLease (htLease : HybridTime) : Bool :=
  htLease.getPhysicalValueMicros < kMaxHybridTimePhysicalMicros

/-- The candidate safe time that the predicate of `DoGetSafeTime` computes: the clock when the
queue is empty, else just below the front; capped by the largest lease seen, and at least the
last replicated time. -/
def safeTimeCandidate (s : MvccManager) (minAllowed : HybridTime) (hasLease : Bool)
    (now : HybridTime) : Except MvccCheck HybridTime := do
  let result ← match s.queue with
    | [] => if now < minAllowed then throw .nowBelowMinAllowed else pure now
    | front :: _ => pure front.decremented
  let result := if hasLease && s.maxHtLeaseSeen < result then s.maxHtLeaseSeen else result
  return max result s.lastReplicated

/-- `DoGetSafeTime`, which `SafeTime` runs under the lock. -/
def doGetSafeTime (s : MvccManager) (minAllowed : HybridTime) (deadline : Deadline)
    (htLease now : HybridTime) : Except MvccCheck (MvccReply × MvccManager) := do
  if !htLease.isValid then throw .leaseInvalid
  if htLease < minAllowed then throw .minAllowedAboveLease
  let hasLease := hasLease htLease
  let s := if hasLease then { s with maxHtLeaseSeen := max htLease s.maxHtLeaseSeen } else s
  let result ← s.safeTimeCandidate minAllowed hasLease now
  if result < minAllowed then
    match deadline with
    | .max => return (.waiting, s)
    | .finite => return (.timedOut, s)
  let enforcedMinTime :=
    if hasLease then s.maxSafeTimeReturnedWithLease else s.maxSafeTimeReturnedWithoutLease
  if result < enforcedMinTime then throw .safeTimeWentBack
  let s := if hasLease then { s with maxSafeTimeReturnedWithLease := result }
    else { s with maxSafeTimeReturnedWithoutLease := result }
  return (.time result, s)

/-- `SafeTimeForFollower`. -/
def safeTimeForFollower (s : MvccManager) (minAllowed : HybridTime) (deadline : Deadline) :
    Except MvccCheck (MvccReply × MvccManager) := do
  let result :=
    if s.lastReplicated < s.propagatedSafeTime then s.propagatedSafeTime else s.lastReplicated
  if result < minAllowed then
    match deadline with
    | .max => return (.waiting, s)
    | .finite => return (.timedOut, s)
  if result < s.maxSafeTimeReturnedForFollower then throw .followerSafeTimeWentBack
  return (.time result, { s with maxSafeTimeReturnedForFollower := result })

/-- `UpdatePropagatedSafeTimeOnLeader`: a debug build checks that the propagated safe time does
not go back, a release build keeps the old one. -/
def updatePropagatedSafeTimeOnLeader (ndebug : Bool) (s : MvccManager) (htLease now : HybridTime) :
    Except MvccCheck (MvccReply × MvccManager) := do
  let (reply, s) ← s.doGetSafeTime kMin .max htLease now
  match reply with
  | .time ht =>
    if ht < s.propagatedSafeTime then
      if ndebug then return (.done, s) else throw .propagatedWentBack
    return (.done, { s with propagatedSafeTime := ht })
  -- with `min_allowed` at `kMin` the predicate holds at once
  | _ => return (.done, s)

/-- One call of a public method, under the lock. -/
def step (ndebug : Bool) (s : MvccManager) : MvccCall → Except MvccCheck (MvccReply × MvccManager)
  | .setLastReplicated ht => .ok (.done, { s with lastReplicated := ht })
  | .setPropagatedSafeTimeOnFollower ht =>
    .ok (.done, if s.propagatedSafeTime ≤ ht then { s with propagatedSafeTime := ht } else s)
  | .updatePropagatedSafeTimeOnLeader htLease now => s.updatePropagatedSafeTimeOnLeader ndebug htLease now
  | .addPending ht now => (s.addPending ndebug ht now).map fun (ht, s) => (.time ht, s)
  | .replicated ht => (s.replicated ht).map fun s => (.done, s)
  | .aborted ht => (s.aborted ht).map fun s => (.done, s)
  | .safeTimeForFollower minAllowed deadline => s.safeTimeForFollower minAllowed deadline
  | .safeTime minAllowed deadline htLease now => s.doGetSafeTime minAllowed deadline htLease now
  | .lastReplicatedHybridTime => .ok (.time s.lastReplicated, s)

-- Equation lemmas, made once before their uses.
section
attribute [local simp] step
end

/-- Calls one after another, each under the lock; the first failed check ends the run. -/
def runCalls (ndebug : Bool) (s : MvccManager) : List MvccCall → Except MvccCheck MvccManager
  | [] => .ok s
  | c :: calls => (s.step ndebug c) >>= fun (_, s) => runCalls ndebug s calls

end MvccManager

end FrescoDB.Tablet
