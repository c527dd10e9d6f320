import Mathlib

/-! `CoarseTimePoint` (`util/monotime.h`): a point of the coarse monotonic clock, held as its
count of nanoseconds, an `int64_t`. -/
namespace FrescoDB.Util

/-- `CoarseTimePoint`: its count of nanoseconds. -/
structure CoarseTimePoint where
  nanos : Int
  deriving DecidableEq, Repr

/-- `CoarseTimePoint::min()`, `CoarseTimePoint::max()` and `CoarseTimePoint()`. -/
def CoarseTimePoint.min : CoarseTimePoint := ⟨-2 ^ 63⟩
def CoarseTimePoint.max : CoarseTimePoint := ⟨2 ^ 63 - 1⟩
def CoarseTimePoint.epoch : CoarseTimePoint := ⟨0⟩

end FrescoDB.Util
