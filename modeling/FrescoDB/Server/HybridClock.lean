import FrescoDB.Common.HybridTime

/-! The hybrid clock (`server/hybrid_clock.{h,cc}`). Its state is the pair
`(last_usec, logical)` held in one atomic; `NowWithError` and `Update` each
end in one successful compare-and-swap, so a run of the clock under any
interleaving is a sequence of the atomic steps modelled here. The physical
clock is an input: any reading, going backwards or not. -/
namespace FrescoDB.Server

open FrescoDB.Common

/-- `MicrosTime`, `LogicalTimeComponent`. -/
abbrev MicrosTime := UInt64
abbrev LogicalTimeComponent := UInt32

/-- `PhysicalTime`: a reading of the physical clock. -/
structure PhysicalTime where
  timePoint : MicrosTime
  maxError : MicrosTime

/-- `HybridClock::HybridClockComponents`. -/
structure HybridClockComponents where
  lastUsec : MicrosTime
  logical : LogicalTimeComponent
  deriving DecidableEq, Repr

namespace HybridClockComponents

/-- `operator<`: lexicographic on `(last_usec, logical)`. -/
def lt (a b : HybridClockComponents) : Bool :=
  a.lastUsec < b.lastUsec || (a.lastUsec = b.lastUsec && a.logical < b.logical)

/-- `kMaxOverflowValue`. -/
def kMaxOverflowValue : UInt64 := 1 <<< HybridTime.kBitsForLogicalComponent

/-- `HandleLogicalComponentOverflow`: a logical value of `2^12` carries into the microseconds;
a larger one is `LOG(FATAL)`, which is `none` here. -/
def handleLogicalComponentOverflow (c : HybridClockComponents) : Option HybridClockComponents :=
  if c.logical.toUInt64 > HybridTime.kLogicalBitMask then
    if c.logical.toUInt64 > kMaxOverflowValue then none
    else some ⟨c.lastUsec + (c.logical.toUInt64 >>> HybridTime.kBitsForLogicalComponent),
      c.logical &&& HybridTime.kLogicalBitMask.toUInt32⟩
  else some c

end HybridClockComponents

open HybridClockComponents

/-- `NowWithError` from the components and the physical reading: the hybrid time, the error
bound, and the components its compare-and-swap stores. `none` is the `LOG(FATAL)` of an
overflow. -/
def nowWithError (c : HybridClockComponents) (now : PhysicalTime) :
    Option (HybridTime × UInt64 × HybridClockComponents) :=
  -- The physical clock has passed the last reading: it is returned with a fresh logical count.
  if now.timePoint > c.lastUsec then
    some (HybridTime.fromMicros now.timePoint, now.maxError, ⟨now.timePoint, 1⟩)
  else do
    let newComponents ← handleLogicalComponentOverflow ⟨c.lastUsec, c.logical + 1⟩
    -- The logical value was incremented before it is read, so the result is decremented.
    some ((HybridTime.fromMicrosecondsAndLogicalValue newComponents.lastUsec
        newComponents.logical).decremented,
      newComponents.lastUsec - (now.timePoint - now.maxError), newComponents)

/-- `Now`. -/
def now (c : HybridClockComponents) (reading : PhysicalTime) :
    Option (HybridTime × HybridClockComponents) :=
  (nowWithError c reading).map fun r => (r.1, r.2.2)

/-- `Update`: the components after the compare-and-swap loop, which stores the successor of the
given time unless the clock is already at or past it. -/
def update (c : HybridClockComponents) (toUpdate : HybridTime) : Option HybridClockComponents :=
  if !toUpdate.isValid then some c
  else do
    let newComponents ← handleLogicalComponentOverflow
      ⟨toUpdate.getPhysicalValueMicros, toUpdate.getLogicalValue + 1⟩
    some (if c.lt newComponents then newComponents else c)

/-- A clock and what it has handed out or been told: the ghost list `seen` of every time `Now`
returned and every valid time passed to `Update`. -/
structure ClockRun where
  components : HybridClockComponents
  seen : List HybridTime

/-- The runs of one clock, from its initial components `{0, 0}`. -/
inductive Reachable : ClockRun → Prop
  | init : Reachable ⟨⟨0, 0⟩, []⟩
  | now {r : ClockRun} {reading : PhysicalTime} {t : HybridTime} {c : HybridClockComponents} :
      Reachable r → now r.components reading = some (t, c) → Reachable ⟨c, t :: r.seen⟩
  | update {r : ClockRun} {ht : HybridTime} {c : HybridClockComponents} :
      Reachable r → update r.components ht = some c →
      Reachable ⟨c, if ht.isValid then ht :: r.seen else r.seen⟩

end FrescoDB.Server
