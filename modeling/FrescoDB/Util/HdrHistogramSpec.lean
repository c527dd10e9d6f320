import FrescoDB.Util.HdrHistogramLayout
import FrescoDB.Lib.RunningTotal
import FrescoDB.Lib.OrderStatistic
import FrescoDB.Lib.MachineInt

/-! What a histogram reports after a run of increments. Each increment adds one to the count at
the value's index and keeps the layout, so after recording a list of values the count at an index
is the number of values there. The walk of `ValueAtPercentile` visits the indexes in order, and
the index grows with the value: the walk stops at the index of the value of the requested rank,
and returns the first value of its sub-bucket. -/
namespace FrescoDB.Util

open FrescoDB.Lib FrescoDB.Gutil

namespace HdrHistogram

/-! Increments keep the layout. -/

section Fields

variable (h : HdrHistogram) (value : Int64)

@[simp] theorem increment_highestTrackableValue :
    (h.increment value).highestTrackableValue = h.highestTrackableValue := rfl

@[simp] theorem increment_subBucketHalfCountMagnitude :
    (h.increment value).subBucketHalfCountMagnitude = h.subBucketHalfCountMagnitude := rfl

@[simp] theorem increment_walkPairs : (h.increment value).walkPairs = h.walkPairs := rfl

@[simp] theorem increment_lowestEquivalentValue :
    (h.increment value).lowestEquivalentValue = h.lowestEquivalentValue := rfl

@[simp] theorem increment_totalCount :
    (h.increment value).totalCount = h.totalCount + 1 := rfl

end Fields

theorem foldl_increment_invariant {β : Type} (f : HdrHistogram → β)
    (hf : ∀ h value, f (h.increment value) = f h) :
    ∀ (values : List Int64) (h : HdrHistogram), f (values.foldl increment h) = f h
  | [], _ => rfl
  | value :: values, h => by
    rw [List.foldl_cons, foldl_increment_invariant f hf values, hf]

section FoldFields

variable (values : List Int64) (h : HdrHistogram)

@[simp] theorem foldl_increment_highestTrackableValue :
    (values.foldl increment h).highestTrackableValue = h.highestTrackableValue :=
  foldl_increment_invariant _ (fun _ _ => rfl) values h

@[simp] theorem foldl_increment_subBucketHalfCountMagnitude :
    (values.foldl increment h).subBucketHalfCountMagnitude = h.subBucketHalfCountMagnitude :=
  foldl_increment_invariant _ (fun _ _ => rfl) values h

@[simp] theorem foldl_increment_countsArrayLength :
    (values.foldl increment h).countsArrayLength = h.countsArrayLength :=
  foldl_increment_invariant _ (fun _ _ => rfl) values h

@[simp] theorem foldl_increment_lowestEquivalentValue :
    (values.foldl increment h).lowestEquivalentValue = h.lowestEquivalentValue :=
  foldl_increment_invariant _ (fun _ _ => rfl) values h

end FoldFields

theorem WellFormed.increment {h : HdrHistogram} (hw : h.WellFormed) (value : Int64) :
    (h.increment value).WellFormed :=
  ⟨hw.magnitude_bounds, hw.digits, hw.subBucketCount_eq, hw.subBucketHalfCount_eq,
    hw.subBucketMask_eq, hw.bucketCount_pos, hw.trackable, hw.countsArrayLength_eq,
    (List.length_modify ..).trans hw.length_counts⟩

theorem wellFormed_foldl_increment :
    ∀ (values : List Int64) {h : HdrHistogram}, h.WellFormed → (values.foldl increment h).WellFormed
  | [], _, hw => hw
  | value :: values, _, hw => wellFormed_foldl_increment values (hw.increment value)

/-! Counts. -/

section Counts

variable {h : HdrHistogram} (hw : h.WellFormed)
include hw

theorem counts_increment {value : Int64} (hvalue : value.toUInt64 ≤ h.highestTrackableValue)
    (i : Nat) :
    (h.increment value).counts.getD i 0 = h.counts.getD i 0 +
      if indexOf h.subBucketHalfCountMagnitude.toNat value.toUInt64.toNat = i then 1 else 0 := by
  obtain ⟨hindex, hlt⟩ := countsArrayIndex_eq hw hvalue
  have hlen : indexOf h.subBucketHalfCountMagnitude.toNat value.toUInt64.toNat < h.counts.length := by
    rw [hw.length_counts]
    omega
  have hone : (1 : Int64).toUInt64 = 1 := rfl
  simp only [increment, incrementBy, hindex, Int.toNat_natCast, List.getD_eq_getElem?_getD,
    List.getElem?_modify, hone]
  by_cases hi : indexOf h.subBucketHalfCountMagnitude.toNat value.toUInt64.toNat = i
  · subst hi
    simp [List.getElem?_eq_getElem hlen]
  · simp [hi]

end Counts

/-- After recording a list of trackable values, the count at an index has grown by the number of
values there. -/
theorem counts_foldl_increment :
    ∀ (values : List Int64) {h : HdrHistogram}, h.WellFormed →
      (∀ v ∈ values, v.toUInt64 ≤ h.highestTrackableValue) → ∀ i,
      (values.foldl increment h).counts.getD i 0 = h.counts.getD i 0 +
        UInt64.ofNat (values.countP fun v =>
          indexOf h.subBucketHalfCountMagnitude.toNat v.toUInt64.toNat = i)
  | [], _, _, _, i => by simp
  | value :: values, h, hw, hvalues, i => by
    have hrest := counts_foldl_increment values (hw.increment value)
      (fun v hv => hvalues v (List.mem_cons_of_mem _ hv)) i
    rw [List.foldl_cons, hrest, counts_increment hw (hvalues value List.mem_cons_self) i,
      List.countP_cons, increment_subBucketHalfCountMagnitude, UInt64.ofNat_add]
    by_cases hi : indexOf h.subBucketHalfCountMagnitude.toNat value.toUInt64.toNat = i
    · simp only [hi, if_true, decide_true]
      rw [UInt64.add_assoc, UInt64.add_comm 1, UInt64.ofNat_one]
    · simp [hi]

theorem totalCount_foldl_increment :
    ∀ (values : List Int64) (h : HdrHistogram),
      (values.foldl increment h).totalCount = h.totalCount + UInt64.ofNat values.length
  | [], _ => by simp
  | value :: values, h => by
    rw [List.foldl_cons, totalCount_foldl_increment values, increment_totalCount,
      List.length_cons, UInt64.ofNat_add, UInt64.ofNat_one, UInt64.add_assoc, UInt64.add_comm 1]

/-! The walk of `ValueAtPercentile`. -/

/-- The (bucket, sub-bucket) pair of counts index `t`: the first bucket holds the first
`2^(m+1)` indexes, every later one the next `2^m`, from its half count. -/
def pairAt (m t : Nat) : Int × Int :=
  if t < 2 ^ (m + 1) then (0, t) else ((t / 2 ^ m - 1 : Nat), (t % 2 ^ m + 2 ^ m : Nat))

-- Equation lemmas, made once before their uses.
section
attribute [local simp] pairAt
end

theorem pairAt_bucket {m i r : Nat} (hi : 1 ≤ i) (hr : r < 2 ^ m) :
    pairAt m ((i + 1) * 2 ^ m + r) = ((i : Int), ((r + 2 ^ m : Nat) : Int)) := by
  have hpos := Nat.two_pow_pos m
  have hge : ¬ (i + 1) * 2 ^ m + r < 2 ^ (m + 1) := by
    have hle : 2 * 2 ^ m ≤ (i + 1) * 2 ^ m := Nat.mul_le_mul_right _ (by omega)
    rw [Nat.pow_succ]
    omega
  have hdiv : ((i + 1) * 2 ^ m + r) / 2 ^ m = i + 1 := by
    rw [Nat.add_comm, Nat.add_mul_div_right _ _ hpos, Nat.div_eq_of_lt hr, Nat.zero_add]
  have hmod : ((i + 1) * 2 ^ m + r) % 2 ^ m = r := by
    rw [Nat.add_comm, Nat.add_mul_mod_self_right, Nat.mod_eq_of_lt hr]
  simp only [pairAt, if_neg hge, hdiv, hmod, Nat.add_sub_cancel]

theorem pairAt_indexOf (m value : Nat) :
    pairAt m (indexOf m value) = ((bucketOf m value : Int), (subBucketOf m value : Int)) := by
  by_cases hb : bucketOf m value = 0
  · -- bucket 0: the value is its own sub-bucket, below `2^(m+1)`
    have hlt : value < 2 ^ (m + 1) := by
      by_contra hge
      have := (bucketOf_of_le (Nat.not_lt.mp hge)).2
      rw [(bucketOf_of_le (Nat.not_lt.mp hge)).1] at hb
      omega
    have hsub : subBucketOf m value = value := by simp [subBucketOf, hb]
    simp [indexOf, hb, hsub, pairAt, hlt]
  · -- a later bucket: the sub-bucket is in the upper half
    have hhalf : 2 ^ m ≤ subBucketOf m value := le_subBucketOf hb
    have hlt : subBucketOf m value < 2 ^ (m + 1) := subBucketOf_lt value
    have hindex : indexOf m value =
        (bucketOf m value + 1) * 2 ^ m + (subBucketOf m value - 2 ^ m) := by
      rw [indexOf, Nat.add_mul, Nat.one_mul]
      omega
    rw [hindex, pairAt_bucket (by omega) (by rw [Nat.pow_succ] at hlt; omega),
      Nat.sub_add_cancel hhalf]

/-- Buckets that each list their own stretch of indexes, the first `2^(m+1)` long and every later
one `2^m`, list all `(buckets + 1) * 2^m` indexes in order. -/
theorem flatMap_range_buckets {m : Nat} {F : Nat → List (Int × Int)}
    (hfirst : F 0 = (List.range (2 ^ (m + 1))).map (pairAt m))
    (hlater : ∀ i, 1 ≤ i →
      F i = (List.range (2 ^ m)).map fun r => pairAt m ((i + 1) * 2 ^ m + r)) :
    ∀ buckets, 1 ≤ buckets →
      (List.range buckets).flatMap F = (List.range ((buckets + 1) * 2 ^ m)).map (pairAt m) := by
  intro buckets hbuckets
  induction buckets, hbuckets using Nat.le_induction with
  | base =>
    rw [List.range_one, List.flatMap_singleton, hfirst,
      show (1 + 1) * 2 ^ m = 2 ^ (m + 1) by rw [Nat.pow_succ]; ring]
  | succ n hn ih =>
    -- bucket `n` adds the next `2^m` indexes
    rw [List.range_succ, List.flatMap_append, ih, List.flatMap_singleton, hlater n hn,
      show (n + 1 + 1) * 2 ^ m = (n + 1) * 2 ^ m + 2 ^ m by ring, List.range_add,
      List.map_append, List.map_map]
    rfl

/-- While the counts add up below `2^64`, the walk is `firstReaching` over the counts, and returns
the first value of the pair where it stops. -/
theorem percentileWalk_eq (h : HdrHistogram) (countAtPercentile : UInt64) :
    ∀ (pairs : List (Int × Int)) (total : UInt64),
      total.toNat + (pairs.map fun p => (h.countAt p.1 p.2).toNat).sum < 2 ^ 64 →
      h.percentileWalk countAtPercentile pairs total =
        (firstReaching (fun p => (h.countAt p.1 p.2).toNat) countAtPercentile.toNat pairs
          total.toNat).map fun p => valueFromIndex p.1 p.2
  | [], _, _ => rfl
  | (i, j) :: pairs, total, hfit => by
    simp only [List.map_cons, List.sum_cons] at hfit
    have hadd : (total + h.countAt i j).toNat = total.toNat + (h.countAt i j).toNat := by
      rw [UInt64.toNat_add, Nat.mod_eq_of_lt (by omega)]
    have hreach : total + h.countAt i j ≥ countAtPercentile ↔
        countAtPercentile.toNat ≤ total.toNat + (h.countAt i j).toNat := by
      rw [ge_iff_le, UInt64.le_iff_toNat_le, hadd]
    by_cases hstop : countAtPercentile.toNat ≤ total.toNat + (h.countAt i j).toNat
    · simp [percentileWalk, firstReaching, hreach.mpr hstop, hstop]
    · -- the walk goes on, with the total still exact
      simp only [percentileWalk, firstReaching, if_neg (mt hreach.mp hstop), if_neg hstop]
      rw [← hadd]
      exact percentileWalk_eq h countAtPercentile pairs _ (by rw [hadd]; omega)

section Walk

variable {h : HdrHistogram} (hw : h.WellFormed)
include hw

theorem countsArrayIndex_pairAt (t : Nat) :
    h.countsArrayIndex (pairAt h.subBucketHalfCountMagnitude.toNat t).1
      (pairAt h.subBucketHalfCountMagnitude.toNat t).2 = t := by
  set m := h.subBucketHalfCountMagnitude.toNat
  have hhalf : h.subBucketHalfCount = 2 ^ m := hw.subBucketHalfCount_eq
  unfold pairAt
  split
  · simp only [countsArrayIndex, hhalf]
    ring
  · rename_i hge
    -- the bucket is the quotient less one, and at least one
    have hq : 1 ≤ t / 2 ^ m := by
      rw [Nat.le_div_iff_mul_le (Nat.two_pow_pos m)]
      rw [Nat.pow_succ] at hge
      omega
    have hdiv : (t : Int) = 2 ^ m * (t / 2 ^ m : Nat) + (t % 2 ^ m : Nat) := by
      exact_mod_cast (Nat.div_add_mod t (2 ^ m)).symm
    simp only [countsArrayIndex, hhalf]
    generalize t / 2 ^ m = q at hq hdiv ⊢
    generalize t % 2 ^ m = r at hdiv ⊢
    push_cast [Nat.cast_sub hq]
    linear_combination hdiv.symm

theorem walkPairs_eq :
    h.walkPairs = (List.range h.countsArrayLength.toNat).map
      (pairAt h.subBucketHalfCountMagnitude.toNat) := by
  set m := h.subBucketHalfCountMagnitude.toNat
  have hcount : h.subBucketCount = 2 ^ (m + 1) := hw.subBucketCount_eq
  have hbuckets := hw.bucketCount_pos
  have hhalf : (2 : Int) ^ (m + 1) / 2 = 2 ^ m := by
    rw [pow_succ, Int.mul_ediv_cancel _ (by norm_num)]
  have hlength : h.countsArrayLength.toNat = (h.bucketCount.toNat + 1) * 2 ^ m := by
    rw [hw.countsArrayLength_eq]
    have hcast : (h.bucketCount + 1) * (2 : Int) ^ m = (((h.bucketCount.toNat + 1) * 2 ^ m : Nat) : Int) := by
      push_cast
      rw [Int.toNat_of_nonneg (by omega)]
    rw [hcast, Int.toNat_natCast]
  rw [walkPairs, hlength]
  apply flatMap_range_buckets _ _ _ (by omega)
  · -- the first bucket walks all its sub-buckets
    have htoNat : ((2 : Int) ^ (m + 1)).toNat = 2 ^ (m + 1) := by
      exact_mod_cast Int.toNat_natCast (2 ^ (m + 1))
    simp only [if_pos, hcount, sub_zero, htoNat]
    apply List.map_congr_left
    intro t ht
    simp [pairAt, List.mem_range.mp ht]
  · -- a later bucket walks the upper half of its sub-buckets
    intro i hi
    have hne : i ≠ 0 := by omega
    have htoNat : ((2 : Int) ^ (m + 1) - 2 ^ m).toNat = 2 ^ m := by
      have : (2 : Int) ^ (m + 1) - 2 ^ m = ((2 ^ m : Nat) : Int) := by push_cast; ring
      rw [this, Int.toNat_natCast]
    simp only [if_neg hne, hcount, hhalf, htoNat]
    apply List.map_congr_left
    intro r hr
    rw [pairAt_bucket hi (List.mem_range.mp hr)]
    push_cast
    rw [Int.add_comm]

theorem lowestEquivalentValue_eq_valueFromIndex {value : UInt64}
    (hvalue : value ≤ h.highestTrackableValue) :
    h.lowestEquivalentValue value =
      valueFromIndex (pairAt h.subBucketHalfCountMagnitude.toNat
          (indexOf h.subBucketHalfCountMagnitude.toNat value.toNat)).1
        (pairAt h.subBucketHalfCountMagnitude.toNat
          (indexOf h.subBucketHalfCountMagnitude.toNat value.toNat)).2 := by
  rw [pairAt_indexOf, lowestEquivalentValue, subBucketIndex_eq hw hvalue, bucketIndex_eq hw hvalue]

end Walk

/-! The percentile of a run of increments. -/

theorem indexOf_mono_of_toInt_le (m : Nat) {v w : Int64} (hv : 0 ≤ v.toInt) (hw : 0 ≤ w.toInt)
    (hvw : v.toInt ≤ w.toInt) : indexOf m v.toUInt64.toNat ≤ indexOf m w.toUInt64.toNat := by
  apply indexOf_mono
  have hv' := int64_toUInt64_toNat_of_nonneg hv
  have hw' := int64_toUInt64_toNat_of_nonneg hw
  omega

section Percentile

variable {h : HdrHistogram} (hw : h.WellFormed) {values : List Int64}
  (hvalues : ∀ v ∈ values, 0 ≤ v.toInt ∧ v.toUInt64 ≤ h.highestTrackableValue)
  (hzero : ∀ i, h.counts.getD i 0 = 0) (hlength : values.length < 2 ^ 64)
include hw hvalues

include hzero hlength in
theorem countAt_pairAt_foldl_increment (t : Nat) :
    ((values.foldl increment h).countAt (pairAt h.subBucketHalfCountMagnitude.toNat t).1
        (pairAt h.subBucketHalfCountMagnitude.toNat t).2).toNat =
      values.countP fun v => indexOf h.subBucketHalfCountMagnitude.toNat v.toUInt64.toNat = t := by
  have hindex := countsArrayIndex_pairAt (wellFormed_foldl_increment values hw) t
  rw [foldl_increment_subBucketHalfCountMagnitude] at hindex
  have hcount : values.countP (fun v =>
      indexOf h.subBucketHalfCountMagnitude.toNat v.toUInt64.toNat = t) < 2 ^ 64 :=
    lt_of_le_of_lt List.countP_le_length hlength
  rw [countAt, hindex, Int.toNat_natCast,
    counts_foldl_increment values hw (fun v hv => (hvalues v hv).2) t, hzero, UInt64.zero_add,
    UInt64.toNat_ofNat', Nat.mod_eq_of_lt hcount]

/-- Adding up the numbers of values at each counts index first reaches `k` at the index of the
value the sort puts at position `k - 1`: fewer than `k` values lie at earlier indexes, since
those are smaller, and at least `k` lie at it or before. -/
theorem firstReaching_countP_indexOf {k : Nat} (hk : 1 ≤ k) {w : Int64}
    (hnth : nthByKey Int64.toInt values (k - 1) = some w) :
    firstReaching (fun t => values.countP fun v =>
        indexOf h.subBucketHalfCountMagnitude.toNat v.toUInt64.toNat = t) k
      (List.range h.countsArrayLength.toNat) 0 =
      some (indexOf h.subBucketHalfCountMagnitude.toNat w.toUInt64.toNat) := by
  set m := h.subBucketHalfCountMagnitude.toNat
  obtain ⟨hbelow, hatMost⟩ := nthByKey_rank hnth
  obtain ⟨hw0, hwH⟩ := hvalues w (nthByKey_mem hnth)
  obtain ⟨-, hindex⟩ := countsArrayIndex_eq hw hwH
  set i := indexOf m w.toUInt64.toNat
  have hL : i < h.countsArrayLength.toNat := by omega
  -- a value at an earlier index is smaller than `w`
  have hbefore : values.countP (fun v => indexOf m v.toUInt64.toNat < i) ≤
      values.countP (fun v => v.toInt < w.toInt) :=
    List.countP_mono_left fun v hv hlt => by
      simp only [decide_eq_true_eq] at hlt ⊢
      by_contra hge
      exact absurd (indexOf_mono_of_toInt_le m hw0 (hvalues v hv).1 (not_lt.mp hge))
        (not_le.mpr hlt)
  -- a value up to `w` lies at its index or before
  have hreach : values.countP (fun v => v.toInt ≤ w.toInt) ≤
      values.countP (fun v => indexOf m v.toUInt64.toNat < i + 1) :=
    List.countP_mono_left fun v hv hle => by
      simp only [decide_eq_true_eq] at hle ⊢
      exact Nat.lt_succ_of_le (indexOf_mono_of_toInt_le m (hvalues v hv).1 hw0 hle)
  have hstop := @firstReaching_eq_getElem Nat
    (fun t => values.countP fun v => indexOf m v.toUInt64.toNat = t) k
    (List.range h.countsArrayLength.toNat) 0 i (by simpa using hL)
    (by rw [List.take_range, Nat.min_eq_left hL.le, sum_countP_eq]; omega)
    (by rw [List.take_range, Nat.min_eq_left (show i + 1 ≤ _ from hL), sum_countP_eq]; omega)
  rw [hstop, List.getElem_range]

include hzero hlength in
/-- Walking to a rank `k` between `1` and the number of values returns the lowest equivalent
value of the value the sort puts at position `k - 1`. -/
theorem percentileWalk_foldl_increment {countAtPercentile : UInt64}
    (hk : 1 ≤ countAtPercentile.toNat ∧ countAtPercentile.toNat ≤ values.length) :
    ∃ w, nthByKey Int64.toInt values (countAtPercentile.toNat - 1) = some w ∧
      (values.foldl increment h).percentileWalk countAtPercentile
        (values.foldl increment h).walkPairs 0 = some (h.lowestEquivalentValue w.toUInt64) := by
  set m := h.subBucketHalfCountMagnitude.toNat
  obtain ⟨w, hnth⟩ :=
    @nthByKey_isSome Int64 Int _ Int64.toInt values (countAtPercentile.toNat - 1) (by omega)
  have hwH := (hvalues w (nthByKey_mem hnth)).2
  have hwalk : (values.foldl increment h).walkPairs =
      (List.range h.countsArrayLength.toNat).map (pairAt m) := by
    simpa using walkPairs_eq (wellFormed_foldl_increment values hw)
  have hweight : (fun t => ((values.foldl increment h).countAt (pairAt m t).1
      (pairAt m t).2).toNat) = fun t => values.countP fun v => indexOf m v.toUInt64.toNat = t :=
    funext (countAt_pairAt_foldl_increment hw hvalues hzero hlength)
  -- the counts add up to the number of values, so the running total stays exact
  have hfit : (0 : UInt64).toNat + (((List.range h.countsArrayLength.toNat).map (pairAt m)).map
      fun p => ((values.foldl increment h).countAt p.1 p.2).toNat).sum < 2 ^ 64 := by
    simp only [List.map_map, Function.comp_def, UInt64.toNat_zero, Nat.zero_add]
    rw [hweight, sum_countP_eq]
    exact lt_of_le_of_lt List.countP_le_length hlength
  refine ⟨w, hnth, ?_⟩
  rw [hwalk, percentileWalk_eq _ _ _ _ hfit, firstReaching_map, UInt64.toNat_zero, hweight,
    firstReaching_countP_indexOf hw hvalues hk.1 hnth, lowestEquivalentValue_eq_valueFromIndex hw hwH]
  rfl

include hzero hlength in
/-- `ValueAtPercentile` after recording a nonempty list of values into an empty histogram: with
`k = max 1 (round (p / 100 * n))`, the lowest equivalent value of the `k`-th smallest value. -/
theorem valueAtPercentile_foldl_increment (htotal : h.totalCount = 0) (hne : values ≠ [])
    {percentile : ℚ} (hp : 0 ≤ percentile ∧ percentile ≤ 100) :
    ∃ w, nthByKey Int64.toInt values
        (max 1 ⌊percentile / 100 * values.length + 1 / 2⌋.toNat - 1) = some w ∧
      (values.foldl increment h).valueAtPercentile percentile =
        h.lowestEquivalentValue w.toUInt64 := by
  set n := values.length
  have hpos : 0 < n := List.length_pos_of_ne_nil hne
  have hcount : (values.foldl increment h).totalCount = UInt64.ofNat n := by
    rw [totalCount_foldl_increment, htotal, UInt64.zero_add]
  have hcountNat : (UInt64.ofNat n).toNat = n := by
    rw [UInt64.toNat_ofNat', Nat.mod_eq_of_lt hlength]
  have hne0 : UInt64.ofNat n ≠ 0 := by
    intro hempty
    have := congrArg UInt64.toNat hempty
    rw [hcountNat, UInt64.toNat_zero] at this
    omega
  -- the rounded rank is at most `n`
  set rank := ⌊percentile / 100 * n + 1 / 2⌋.toNat
  have hrank : rank ≤ n := by
    have hscale : percentile / 100 * n ≤ n := by
      apply mul_le_of_le_one_left (by positivity)
      rw [div_le_one (by norm_num)]
      exact hp.2
    have hfloor : ⌊percentile / 100 * n + 1 / 2⌋ < (n : Int) + 1 := by
      rw [Int.floor_lt]
      push_cast
      linarith
    omega
  have hrankNat : (max (UInt64.ofNat rank) 1).toNat = max 1 rank := by
    rw [UInt64.toNat_max, UInt64.toNat_ofNat', Nat.mod_eq_of_lt (by omega), UInt64.toNat_one,
      max_comm]
  have hk : 1 ≤ (max (UInt64.ofNat rank) 1).toNat ∧
      (max (UInt64.ofNat rank) 1).toNat ≤ values.length := by
    rw [hrankNat]
    omega
  obtain ⟨w, hnth, hwalk⟩ := percentileWalk_foldl_increment hw hvalues hzero hlength hk
  rw [hrankNat] at hnth
  refine ⟨w, hnth, ?_⟩
  simp only [valueAtPercentile, hcount, if_neg hne0, min_eq_left hp.2, hcountNat]
  rw [hwalk]
  rfl

end Percentile

/-! What `Init` returns, and what it reports. -/

/-- Up to bucket 30, the equivalent range is one value wide below `2 * 10^digits` and at most
`value / 10^digits` wide from there on. -/
theorem width_equivalentRange_le {h : HdrHistogram} (hw : h.WellFormed) {value : UInt64}
    (hvalue : value ≤ h.highestTrackableValue)
    (hbucket : bucketOf h.subBucketHalfCountMagnitude.toNat value.toNat ≤ 30) :
    (value.toNat < 2 * 10 ^ h.numSignificantDigits.toNat ∧
        (h.highestEquivalentValue value).toNat + 1 - (h.lowestEquivalentValue value).toNat = 1) ∨
      ((h.highestEquivalentValue value).toNat + 1 - (h.lowestEquivalentValue value).toNat) *
        10 ^ h.numSignificantDigits.toNat ≤ value.toNat := by
  rw [width_equivalentRange hw hvalue hbucket]
  by_cases hb : bucketOf h.subBucketHalfCountMagnitude.toNat value.toNat = 0
  · -- bucket 0 has unit resolution
    rw [hb, Nat.pow_zero]
    by_cases hsmall : value.toNat < 2 * 10 ^ h.numSignificantDigits.toNat
    · exact Or.inl ⟨hsmall, rfl⟩
    · right
      omega
  · exact Or.inr (two_pow_bucketOf_mul_le hw hb)

end HdrHistogram

end FrescoDB.Util
