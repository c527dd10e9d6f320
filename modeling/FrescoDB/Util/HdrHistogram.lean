import FrescoDB.Gutil.Bits

/-! `HdrHistogram` (`util/hdr_histogram.{h,cc}`): counts of 64-bit values in buckets that keep a
fixed number of significant digits. `Init` sizes the sub-buckets to a power of two above
`2 * 10^digits` and doubles a trackable value until it reaches the highest one, one bucket a
doubling. A value's bucket is the magnitude of `value | sub_bucket_mask`, its sub-bucket the value
shifted down by the bucket, and every bucket after the first uses the upper half of its
sub-buckets only. The atomics are read and written by one thread; `ValueAtPercentile`'s double
arithmetic is taken exact, over the rationals. -/
namespace FrescoDB.Util

open FrescoDB.Gutil

/-- The fields of an `HdrHistogram`. -/
structure HdrHistogram where
  highestTrackableValue : UInt64
  numSignificantDigits : Int
  countsArrayLength : Int
  bucketCount : Int
  subBucketCount : Int
  subBucketHalfCountMagnitude : UInt8
  subBucketHalfCount : Int
  subBucketMask : UInt32
  totalCount : UInt64
  totalSum : Int64
  minValue : Int64
  maxValue : Int64
  counts : List UInt64

namespace HdrHistogram

def kMinHighestTrackableValue : UInt64 := 2
def kMinValidNumSignificantDigits : Int := 1
def kMaxValidNumSignificantDigits : Int := 5

/-- `IsValidHighestTrackableValue`. -/
def isValidHighestTrackableValue (highestTrackableValue : UInt64) : Bool :=
  highestTrackableValue ≥ kMinHighestTrackableValue

/-- `IsValidNumSignificantDigits`. -/
def isValidNumSignificantDigits (numSignificantDigits : Int) : Bool :=
  numSignificantDigits ≥ kMinValidNumSignificantDigits &&
    numSignificantDigits ≤ kMaxValidNumSignificantDigits

/-- The loop of `Init` that counts the buckets: `trackable_value`, a `uint64_t`, doubles until it
reaches the highest trackable value. It runs on `fuel`. -/
def bucketsNeededLoop (highestTrackableValue : UInt64) : Nat → UInt64 → Int → Option Int
  | 0, _, _ => none
  | fuel + 1, trackableValue, bucketsNeeded =>
    if trackableValue < highestTrackableValue then
      bucketsNeededLoop highestTrackableValue fuel (trackableValue <<< 1) (bucketsNeeded + 1)
    else some bucketsNeeded

/-- The constructor and `Init`, with `fuel` for the loop: `none` when a `CHECK` fails, which
aborts, or when the loop runs out of fuel. -/
def init (fuel : Nat) (highestTrackableValue : UInt64) (numSignificantDigits : Int) :
    Option HdrHistogram :=
  if !isValidHighestTrackableValue highestTrackableValue then none
  else if !isValidNumSignificantDigits numSignificantDigits then none
  else
    let largestValueWithSingleUnitResolution : UInt32 :=
      2 * UInt32.ofNat (10 ^ numSignificantDigits.toNat)
    let subBucketCountMagnitude := log2Ceiling largestValueWithSingleUnitResolution
    let subBucketHalfCountMagnitude : UInt8 :=
      if subBucketCountMagnitude ≥ 1 then UInt8.ofInt (subBucketCountMagnitude - 1) else 0
    let subBucketCount : Int := 2 ^ (subBucketHalfCountMagnitude.toNat + 1)
    let subBucketMask := UInt32.ofInt (subBucketCount - 1)
    let subBucketHalfCount := subBucketCount / 2
    let trackableValue := UInt64.ofInt (subBucketCount - 1)
    (bucketsNeededLoop highestTrackableValue fuel trackableValue 1).map fun bucketCount =>
      let countsArrayLength := (bucketCount + 1) * subBucketHalfCount
      { highestTrackableValue, numSignificantDigits, countsArrayLength, bucketCount,
        subBucketCount, subBucketHalfCountMagnitude, subBucketHalfCount, subBucketMask,
        totalCount := 0, totalSum := 0, minValue := Int64.maxValue, maxValue := 0,
        counts := List.replicate countsArrayLength.toNat 0 }

variable (h : HdrHistogram)

/-- `BucketIndex`: the magnitude of the value, less that of the sub-buckets. -/
def bucketIndex (value : UInt64) : Int :=
  let value := if value > h.highestTrackableValue then h.highestTrackableValue else value
  -- the smallest power of two containing the value
  let pow2ceiling := log2Ceiling64 (value ||| h.subBucketMask.toUInt64)
  pow2ceiling - (h.subBucketHalfCountMagnitude.toNat + 1)

/-- `SubBucketIndex`: the value shifted down by its bucket. -/
def subBucketIndex (value : UInt64) (bucketIndex : Int) : Int :=
  let value := if value > h.highestTrackableValue then h.highestTrackableValue else value
  (value >>> UInt64.ofInt bucketIndex).toNat

/-- `CountsArrayIndex`: `(bucket_index + 1) << sub_bucket_half_count_magnitude_`, then the
offset of the sub-bucket above the half count. -/
def countsArrayIndex (bucketIndex subBucketIndex : Int) : Int :=
  let bucketBaseIndex := (bucketIndex + 1) * 2 ^ h.subBucketHalfCountMagnitude.toNat
  let offsetInBucket := subBucketIndex - h.subBucketHalfCount
  bucketBaseIndex + offsetInBucket

/-- `CountAt`. -/
def countAt (bucketIndex subBucketIndex : Int) : UInt64 :=
  h.counts.getD (h.countsArrayIndex bucketIndex subBucketIndex).toNat 0

/-- `ValueFromIndex`. -/
def valueFromIndex (bucketIndex subBucketIndex : Int) : UInt64 :=
  UInt64.ofInt subBucketIndex <<< UInt64.ofInt bucketIndex

/-- `SizeOfEquivalentValueRange`: the literal `1` is an `int`, so the shift is made in 32 bits
and its result sign-extended to `uint64_t`. -/
def sizeOfEquivalentValueRange (value : UInt64) : UInt64 :=
  let bucketIndex := h.bucketIndex value
  let subBucketIndex := h.subBucketIndex value bucketIndex
  let distanceToNextValue : Int32 :=
    1 <<< Int32.ofInt
      (if subBucketIndex ≥ h.subBucketCount then bucketIndex + 1 else bucketIndex)
  UInt64.ofInt distanceToNextValue.toInt

/-- `LowestEquivalentValue`. -/
def lowestEquivalentValue (value : UInt64) : UInt64 :=
  let bucketIndex := h.bucketIndex value
  let subBucketIndex := h.subBucketIndex value bucketIndex
  valueFromIndex bucketIndex subBucketIndex

/-- `NextNonEquivalentValue`. -/
def nextNonEquivalentValue (value : UInt64) : UInt64 :=
  h.lowestEquivalentValue value + h.sizeOfEquivalentValueRange value

/-- `HighestEquivalentValue`. -/
def highestEquivalentValue (value : UInt64) : UInt64 :=
  h.nextNonEquivalentValue value - 1

/-- `IncrementBy`. `MinValue()` and `MaxValue()` read `0` while the total count is `0`, and the
compare-and-swap loops store the value when it passes them. -/
def incrementBy (value count : Int64) : HdrHistogram :=
  let bucketIndex := h.bucketIndex value.toUInt64
  let subBucketIndex := h.subBucketIndex value.toUInt64 bucketIndex
  let countsIndex := h.countsArrayIndex bucketIndex subBucketIndex
  let totalCount := h.totalCount + count.toUInt64
  let minVal := if totalCount = 0 then 0 else h.minValue
  let maxVal := if totalCount = 0 then 0 else h.maxValue
  { h with
    counts := h.counts.modify countsIndex.toNat (· + count.toUInt64)
    totalCount
    totalSum := h.totalSum + value * count
    minValue := if value < minVal then value else h.minValue
    maxValue := if value > maxVal then value else h.maxValue }

/-- `Increment`. -/
def increment (value : Int64) : HdrHistogram := h.incrementBy value 1

/-- The (bucket, sub-bucket) pairs the loops of `ValueAtPercentile` visit, in order: every
sub-bucket of the first bucket, the upper half of every later one. -/
def walkPairs : List (Int × Int) :=
  (List.range h.bucketCount.toNat).flatMap fun i : Nat =>
    let j : Int := if i = 0 then 0 else h.subBucketCount / 2
    (List.range (h.subBucketCount - j).toNat).map fun t : Nat => ((i : Int), j + t)

/-- The loops of `ValueAtPercentile`: add up the counts and stop at the first pair where the
running total reaches `count_at_percentile`. -/
def percentileWalk (countAtPercentile : UInt64) : List (Int × Int) → UInt64 → Option UInt64
  | [], _ => none
  | (i, j) :: rest, totalToCurrentIJ =>
    let totalToCurrentIJ := totalToCurrentIJ + h.countAt i j
    if totalToCurrentIJ ≥ countAtPercentile then some (valueFromIndex i j)
    else percentileWalk countAtPercentile rest totalToCurrentIJ

/-- `ValueAtPercentile`; falling through the loops is logged and returns `0`. -/
def valueAtPercentile (percentile : ℚ) : UInt64 :=
  let count := h.totalCount
  if count = 0 then 0
  else
    let requestedPercentile := min percentile 100
    let countAtPercentile := UInt64.ofNat ⌊requestedPercentile / 100 * count.toNat + 1 / 2⌋.toNat
    -- make sure we at least reach the first recorded entry
    let countAtPercentile := max countAtPercentile 1
    (h.percentileWalk countAtPercentile h.walkPairs 0).getD 0

end HdrHistogram

end FrescoDB.Util
