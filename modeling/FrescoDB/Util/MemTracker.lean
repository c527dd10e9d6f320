import Mathlib.Logic.Function.Basic

/-! `MemTracker` of `util/mem_tracker.cc`: a tree of trackers, each with a consumption and an
optional limit, where a tracker created with `add_to_parent` passes every change of its
consumption on to its parent. The constructor flattens that into `all_trackers_`, the tracker and
its ancestors up to the first link without `add_to_parent`, and `Consume`, `Release` and
`TryConsume` walk that list. `GcMemory` asks the tracker's garbage collectors, then its children,
to free memory. The root's consumption is not read from tcmalloc here: every tracker counts what
is consumed and released through it. Single-threaded: each call runs to its end. -/

namespace FrescoDB.Util

/-- `GarbageCollector::CollectGarbage(required)`: the `Release` calls by which it frees memory,
each on a tracker with a number of bytes, as a function of `required` and of the consumption of
every tracker. -/
def GarbageCollector := Nat → (Nat → Int) → List (Nat × Nat)

/-- A `MemTracker` and the trackers under it: its id, `limit_` (negative for none),
`add_to_parent_`, the live collectors of `gcs_`, and `child_trackers_` in the order the map
iterates them. -/
inductive MemTracker
  | mk (id : Nat) (limit : Int) (addToParent : Bool) (gcs : List GarbageCollector)
      (children : List MemTracker)

namespace MemTracker

def id : MemTracker → Nat
  | mk id .. => id

def limit : MemTracker → Int
  | mk _ limit .. => limit

mutual
/-- Every tracker of the tree by its id, with its `all_trackers_` as the constructor computes it
from the parent's (here `above`): the tracker itself, then, when it was created with
`add_to_parent`, its parent's. -/
def entries (above : List MemTracker) : MemTracker → List (Nat × List MemTracker)
  | t@(mk id _ addToParent _ children) =>
    let allTrackers := t :: if addToParent then above else []
    (id, allTrackers) :: entriesOf allTrackers children

def entriesOf (above : List MemTracker) : List MemTracker → List (Nat × List MemTracker)
  | [] => []
  | t :: ts => entries above t ++ entriesOf above ts
end

end MemTracker

/-- The consumption of every tracker (`consumption_`), and, as a ghost, the bytes each call has
consumed minus released through a tracker itself. -/
structure MemTrackerState where
  consumption : Nat → Int
  consumed : Nat → Int

section Tree

variable (root : MemTracker)

/-- `all_trackers_` of the tracker with this id; none for an id the tree lacks. -/
def allTrackers (v : Nat) : List MemTracker :=
  ((root.entries []).lookup v).getD []

/-- `IncrementBy` on one tracker's `consumption_`. -/
def incrementBy (u : Nat) (amount : Int) (st : MemTrackerState) : MemTrackerState :=
  { st with consumption := Function.update st.consumption u (st.consumption u + amount) }

/-- The loop of `Consume` and `Release`: `IncrementBy` on every tracker of `all_trackers_`; the
call is recorded against the tracker it was made on. -/
def changeAll (v : Nat) (amount : Int) (st : MemTrackerState) : MemTrackerState :=
  let st := (allTrackers root v).foldl (fun st u => incrementBy u.id amount st) st
  { st with consumed := Function.update st.consumed v (st.consumed v + amount) }

/-- `Consume`: a negative amount is released. -/
def consume (v : Nat) (bytes : Int) (st : MemTrackerState) : MemTrackerState :=
  -- Release(-bytes), whose loop adds bytes
  if bytes < 0 then changeAll root v bytes st
  else if bytes = 0 then st
  else changeAll root v bytes st

/-- `Release`: a negative amount is consumed. -/
def release (v : Nat) (bytes : Int) (st : MemTrackerState) : MemTrackerState :=
  if bytes < 0 then consume root v (-bytes) st
  else if bytes = 0 then st
  else changeAll root v (-bytes) st

/-- The `Release` calls of one collector, in order. -/
def releaseAll (calls : List (Nat × Nat)) (st : MemTrackerState) : MemTrackerState :=
  calls.foldl (fun st call => release root call.1 call.2 st) st

/-- The loop of `GcMemory` over the collectors: each is asked for what is still over
`max_consumption`, until the tracker is within it. -/
def collectGarbage (id : Nat) (maxConsumption : Int) :
    List GarbageCollector → MemTrackerState → MemTrackerState
  | [], st => st
  | gc :: gcs, st =>
    let required := (st.consumption id - maxConsumption).toNat
    let st := releaseAll root (gc required st.consumption) st
    if st.consumption id ≤ maxConsumption then st
    else collectGarbage id maxConsumption gcs st

mutual
/-- `GcMemory(max_consumption)`: the collectors, then the children, each asked to free what the
tracker is still over. The answer is meant to say that `max_consumption` is still exceeded. -/
def gcMemory : MemTracker → Int → MemTrackerState → Bool × MemTrackerState
  | .mk id _ _ gcs children, maxConsumption, st =>
    -- impossible to GC enough memory to reach the goal
    if maxConsumption < 0 then (true, st)
    -- someone gc'd before us
    else if st.consumption id ≤ maxConsumption then (false, st)
    else
      let st := collectGarbage root id maxConsumption gcs st
      let current := st.consumption id
      if current > maxConsumption then
        match gcChildren id maxConsumption current children st with
        | (some answer, st) => (answer, st)
        | (none, st) => (decide (st.consumption id > maxConsumption), st)
      else (decide (st.consumption id > maxConsumption), st)

/-- The loop of `GcMemory` over the children: each is asked to come down by what the tracker is
over, by its `current_consumption`, which is read again only after a child answers `true`. -/
def gcChildren (id : Nat) (maxConsumption current : Int) :
    List MemTracker → MemTrackerState → Option Bool × MemTrackerState
  | [], st => (none, st)
  | child :: children, st =>
    let (didGc, st) := gcMemory child (maxConsumption - current + st.consumption child.id) st
    if didGc then
      let current := st.consumption id
      if current ≤ maxConsumption then (some true, st)
      else gcChildren id maxConsumption current children st
    else gcChildren id maxConsumption current children st
end

/-- `ExpandLimit`: a tracker's limit is never expanded. -/
def expandLimit (_bytes : Int) : Bool := false

/-- `TryIncrementBy`: the bytes are added when the sum stays within `max`. -/
def tryIncrementBy (u : Nat) (bytes max : Int) (st : MemTrackerState) : Option MemTrackerState :=
  if st.consumption u + bytes > max then none else some (incrementBy u bytes st)

/-- The walk of `TryConsume` over `all_trackers_` from the top, after the trackers in `taken`
took the bytes: the trackers that took them, and the one that refused them if one did. A tracker
with a limit that refuses is asked to `GcMemory` down to `limit - bytes`, and tried once more
when that succeeds. -/
def tryConsumeWalk (bytes : Int) :
    List MemTracker → List MemTracker → MemTrackerState →
      (List MemTracker × Option MemTracker) × MemTrackerState
  | taken, [], st => ((taken, none), st)
  | taken, tracker :: trackers, st =>
    if tracker.limit < 0 then
      tryConsumeWalk bytes (taken ++ [tracker]) trackers (incrementBy tracker.id bytes st)
    else
      match tryIncrementBy tracker.id bytes tracker.limit st with
      | some st => tryConsumeWalk bytes (taken ++ [tracker]) trackers st
      | none =>
        let (exceeded, st) := gcMemory root tracker (tracker.limit - bytes) st
        if !exceeded || expandLimit bytes then
          match tryIncrementBy tracker.id bytes tracker.limit st with
          | some st => tryConsumeWalk bytes (taken ++ [tracker]) trackers st
          | none => ((taken, some tracker), st)
        else ((taken, some tracker), st)

-- Equation lemmas, made once before their uses.
section
attribute [local simp] tryConsumeWalk
end

/-- `TryConsume(bytes, blocking_mem_tracker)`: the answer, the tracker that refused, and the
state. When a tracker refuses, the trackers above it that took the bytes give them back. -/
def tryConsume (v : Nat) (bytes : Int) (st : MemTrackerState) :
    (Bool × Option MemTracker) × MemTrackerState :=
  if bytes ≤ 0 then ((true, none), st)
  else
    match tryConsumeWalk root bytes [] (allTrackers root v).reverse st with
    | ((_, none), st) =>
      ((true, none), { st with consumed := Function.update st.consumed v (st.consumed v + bytes) })
    | ((taken, some blocking), st) =>
      let st := taken.foldl (fun st u => incrementBy u.id (-bytes) st) st
      ((false, some blocking), st)

end Tree

/-- A call a thread makes on the tracker with an id. -/
inductive MemTrackerCall
  | consume (v : Nat) (bytes : Int)
  | release (v : Nat) (bytes : Int)
  | tryConsume (v : Nat) (bytes : Int)

/-- One call on the trackers of `root`. -/
def applyCall (root : MemTracker) : MemTrackerCall → MemTrackerState → MemTrackerState
  | .consume v bytes, st => consume root v bytes st
  | .release v bytes, st => release root v bytes st
  | .tryConsume v bytes, st => (tryConsume root v bytes st).2

/-- The calls of one thread, one after the other. -/
def runCalls (root : MemTracker) (calls : List MemTrackerCall) (st : MemTrackerState) :
    MemTrackerState :=
  calls.foldl (fun st call => applyCall root call st) st

end FrescoDB.Util
