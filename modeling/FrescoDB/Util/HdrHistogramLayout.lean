import FrescoDB.Util.HdrHistogram

/-! The layout of an `HdrHistogram` as arithmetic. With `m` the sub-bucket half-count magnitude,
a value below `2^(m+1)` lies in bucket `0` at its own sub-bucket; a larger value of magnitude `f`
lies in bucket `f - m` at sub-bucket `value >> (f - m)`, in the upper half of the sub-buckets. The
counts index `bucket * 2^m + sub_bucket` then grows with the value and stays below
`(bucket_count + 1) * 2^m` for every trackable value. The equivalent range of a value is its
sub-bucket's: `2^bucket` values from `sub_bucket << bucket`, which `SizeOfEquivalentValueRange`
gets right up to bucket 30; at bucket 31 the `int` shift is negative. -/
namespace FrescoDB.Util

open FrescoDB.Gutil

namespace HdrHistogram

/-! Buckets of natural numbers. -/

/-- The bucket of `value` for sub-bucket half-count magnitude `m`. -/
def bucketOf (m value : Nat) : Nat := if value < 2 ^ (m + 1) then 0 else value.log2 - m

/-- The sub-bucket of `value`. -/
def subBucketOf (m value : Nat) : Nat := value / 2 ^ bucketOf m value

-- Equation lemmas, made once before their uses.
section
attribute [local simp] bucketOf subBucketOf
end

/-- The counts index of `value`. -/
def indexOf (m value : Nat) : Nat := bucketOf m value * 2 ^ m + subBucketOf m value

theorem log2_mono {v w : Nat} (hvw : v ≤ w) : v.log2 ≤ w.log2 := by
  rw [Nat.log2_eq_log_two, Nat.log2_eq_log_two]
  exact Nat.log_mono_right hvw

theorem or_mask_of_lt {r c : Nat} (hr : r < 2 ^ c) : r ||| (2 ^ c - 1) = 2 ^ c - 1 := by
  apply Nat.eq_of_testBit_eq
  intro i
  rw [Nat.testBit_or, Nat.testBit_two_pow_sub_one]
  by_cases hi : i < c
  · simp [hi]
  · simp only [hi, decide_false, Bool.or_false]
    exact Nat.testBit_lt_two_pow (lt_of_lt_of_le hr (Nat.pow_le_pow_right (by norm_num) (by omega)))

theorem or_two_pow_sub_one (value c : Nat) :
    value ||| (2 ^ c - 1) = 2 ^ c * (value / 2 ^ c) + (2 ^ c - 1) := by
  have hr : value % 2 ^ c < 2 ^ c := Nat.mod_lt _ (Nat.two_pow_pos c)
  have hmask : 2 ^ c - 1 < 2 ^ c := Nat.sub_lt (Nat.two_pow_pos c) Nat.one_pos
  conv_lhs => rw [← Nat.div_add_mod value (2 ^ c), Nat.two_pow_add_eq_or_of_lt hr]
  rw [Nat.or_assoc, or_mask_of_lt hr, ← Nat.two_pow_add_eq_or_of_lt hmask]

/-- The magnitude of `value | (2^(m+1) - 1)`: that of the mask below `2^(m+1)`, and that of the
value above. -/
theorem log2_or_mask (m value : Nat) :
    (value ||| (2 ^ (m + 1) - 1)).log2 = if value < 2 ^ (m + 1) then m else value.log2 := by
  rw [or_two_pow_sub_one]
  have hpow := Nat.two_pow_pos (m + 1)
  split
  · rename_i hlt
    rw [Nat.div_eq_of_lt hlt, Nat.mul_zero, Nat.zero_add, Nat.log2_eq_iff (by omega)]
    constructor
    · rw [Nat.pow_succ] at hpow ⊢
      omega
    · omega
  · rename_i hge
    have hne : value ≠ 0 := by omega
    have hlow := Nat.log2_self_le hne
    have hhigh := (Nat.log2_lt hne).mp (Nat.lt_succ_self value.log2)
    have hm : m + 1 ≤ value.log2 := by
      by_contra hlt
      exact hge (lt_of_lt_of_le hhigh (Nat.pow_le_pow_right (by norm_num) (by omega)))
    -- `2^(m+1)` divides `2^(log2 value + 1)`, so rounding up to it stays below
    obtain ⟨k, hk⟩ : ∃ k, 2 ^ (value.log2 + 1) = 2 ^ (m + 1) * k :=
      ⟨2 ^ (value.log2 - m), by rw [← Nat.pow_add]; congr 1; omega⟩
    have hq : value / 2 ^ (m + 1) < k := by
      rw [Nat.div_lt_iff_lt_mul hpow, Nat.mul_comm, ← hk]
      exact hhigh
    have hround : 2 ^ (m + 1) * (value / 2 ^ (m + 1)) + 2 ^ (m + 1) ≤ 2 ^ (value.log2 + 1) := by
      rw [hk, ← Nat.mul_succ]
      exact Nat.mul_le_mul_left _ hq
    have hdiv := Nat.div_add_mod value (2 ^ (m + 1))
    have hmod := Nat.mod_lt value hpow
    rw [Nat.log2_eq_iff (by omega)]
    omega

section Buckets

variable {m : Nat}

theorem bucketOf_of_lt {value : Nat} (h : value < 2 ^ (m + 1)) : bucketOf m value = 0 := by
  simp [bucketOf, h]

theorem bucketOf_of_le {value : Nat} (h : 2 ^ (m + 1) ≤ value) :
    bucketOf m value = value.log2 - m ∧ m + 1 ≤ value.log2 := by
  have hne : value ≠ 0 := by have := Nat.two_pow_pos (m + 1); omega
  refine ⟨by simp [bucketOf, Nat.not_lt.mpr h], ?_⟩
  by_contra hlt
  have hhigh := (Nat.log2_lt hne).mp (Nat.lt_succ_self value.log2)
  exact absurd h (Nat.not_le.mpr
    (lt_of_lt_of_le hhigh (Nat.pow_le_pow_right (by norm_num) (by omega))))

theorem two_pow_le_of_bucketOf_ne_zero {value : Nat} (h : bucketOf m value ≠ 0) :
    2 ^ (bucketOf m value + m) ≤ value := by
  have hge : 2 ^ (m + 1) ≤ value := by
    by_contra hlt
    exact h (bucketOf_of_lt (by omega))
  obtain ⟨hb, hm⟩ := bucketOf_of_le hge
  rw [hb, Nat.sub_add_cancel (by omega)]
  exact Nat.log2_self_le (by have := Nat.two_pow_pos (m + 1); omega)

theorem lt_two_pow_bucketOf (value : Nat) : value < 2 ^ (bucketOf m value + m + 1) := by
  by_cases hlt : value < 2 ^ (m + 1)
  · rw [bucketOf_of_lt hlt, Nat.zero_add]
    exact hlt
  · obtain ⟨hb, hm⟩ := bucketOf_of_le (Nat.not_lt.mp hlt)
    rw [hb, Nat.sub_add_cancel (by omega)]
    exact Nat.lt_log2_self

theorem subBucketOf_lt (value : Nat) : subBucketOf m value < 2 ^ (m + 1) := by
  rw [subBucketOf, Nat.div_lt_iff_lt_mul (Nat.two_pow_pos _), ← Nat.pow_add,
    show m + 1 + bucketOf m value = bucketOf m value + m + 1 by omega]
  exact lt_two_pow_bucketOf value

theorem le_subBucketOf {value : Nat} (h : bucketOf m value ≠ 0) : 2 ^ m ≤ subBucketOf m value := by
  rw [subBucketOf, Nat.le_div_iff_mul_le (Nat.two_pow_pos _), ← Nat.pow_add, Nat.add_comm]
  exact two_pow_le_of_bucketOf_ne_zero h

theorem subBucketOf_mul_le (value : Nat) :
    subBucketOf m value * 2 ^ bucketOf m value ≤ value :=
  Nat.div_mul_le_self _ _

theorem lt_subBucketOf_succ_mul (value : Nat) :
    value < (subBucketOf m value + 1) * 2 ^ bucketOf m value := by
  rw [subBucketOf]
  exact Nat.lt_div_mul_add (Nat.two_pow_pos _) |>.trans_le (by rw [Nat.add_mul, Nat.one_mul])

theorem bucketOf_mono {v w : Nat} (hvw : v ≤ w) : bucketOf m v ≤ bucketOf m w := by
  by_cases hv : v < 2 ^ (m + 1)
  · rw [bucketOf_of_lt hv]
    exact Nat.zero_le _
  · have hw : 2 ^ (m + 1) ≤ w := by omega
    rw [(bucketOf_of_le (Nat.not_lt.mp hv)).1, (bucketOf_of_le hw).1]
    exact Nat.sub_le_sub_right (log2_mono hvw) m

theorem bucketOf_add_lt {value : Nat} (m : Nat) {n : Nat} (hvalue : value < 2 ^ n) (hm : m < n) :
    bucketOf m value + m < n := by
  by_cases hb : bucketOf m value = 0
  · omega
  · have hlow := two_pow_le_of_bucketOf_ne_zero hb
    exact (Nat.pow_lt_pow_iff_right (by norm_num)).mp (lt_of_le_of_lt hlow hvalue)

theorem indexOf_mono {v w : Nat} (hvw : v ≤ w) : indexOf m v ≤ indexOf m w := by
  have hmono : bucketOf m v ≤ bucketOf m w := bucketOf_mono hvw
  rcases Nat.lt_or_eq_of_le hmono with hlt | heq
  · -- a later bucket starts past every sub-bucket of an earlier one
    have hsv : subBucketOf m v < 2 ^ (m + 1) := subBucketOf_lt v
    have hsw : 2 ^ m ≤ subBucketOf m w := le_subBucketOf (by omega)
    have hstep : (bucketOf m v + 2) * 2 ^ m ≤ (bucketOf m w + 1) * 2 ^ m :=
      Nat.mul_le_mul_right _ (by omega)
    rw [Nat.pow_succ] at hsv
    simp only [indexOf, Nat.add_mul] at hstep ⊢
    omega
  · simp only [indexOf, subBucketOf, heq]
    exact Nat.add_le_add_left (Nat.div_le_div_right hvw) _

theorem bucketOf_lt {value buckets : Nat} (hbuckets : 1 ≤ buckets)
    (hvalue : value ≤ (2 ^ (m + 1) - 1) * 2 ^ (buckets - 1)) : bucketOf m value < buckets := by
  by_cases hb : bucketOf m value = 0
  · omega
  · have hlow := two_pow_le_of_bucketOf_ne_zero hb
    by_contra hge
    have hpow : 2 ^ (m + 1) * 2 ^ (buckets - 1) ≤ 2 ^ (bucketOf m value + m) := by
      rw [← Nat.pow_add]
      exact Nat.pow_le_pow_right (by norm_num) (by omega)
    have hmask : (2 ^ (m + 1) - 1) * 2 ^ (buckets - 1) < 2 ^ (m + 1) * 2 ^ (buckets - 1) :=
      Nat.mul_lt_mul_of_pos_right (by have := Nat.two_pow_pos (m + 1); omega) (Nat.two_pow_pos _)
    omega

theorem indexOf_lt {value buckets : Nat} (hbuckets : 1 ≤ buckets)
    (hvalue : value ≤ (2 ^ (m + 1) - 1) * 2 ^ (buckets - 1)) :
    indexOf m value < (buckets + 1) * 2 ^ m := by
  have hb := bucketOf_lt hbuckets hvalue
  have hs : subBucketOf m value < 2 ^ (m + 1) := subBucketOf_lt value
  have hstep : (bucketOf m value + 2) * 2 ^ m ≤ (buckets + 1) * 2 ^ m :=
    Nat.mul_le_mul_right _ (by omega)
  rw [Nat.pow_succ] at hs
  simp only [indexOf, Nat.add_mul] at hstep ⊢
  omega

end Buckets

/-! The layout `Init` sets up. -/

/-- What `Init` establishes about the layout of a histogram, in its sub-bucket half-count
magnitude; an increment keeps it. -/
structure WellFormed (h : HdrHistogram) : Prop where
  magnitude_bounds :
    4 ≤ h.subBucketHalfCountMagnitude.toNat ∧ h.subBucketHalfCountMagnitude.toNat ≤ 17
  digits : 1 ≤ h.numSignificantDigits ∧
    10 ^ h.numSignificantDigits.toNat ≤ 2 ^ h.subBucketHalfCountMagnitude.toNat
  subBucketCount_eq : h.subBucketCount = 2 ^ (h.subBucketHalfCountMagnitude.toNat + 1)
  subBucketHalfCount_eq : h.subBucketHalfCount = 2 ^ h.subBucketHalfCountMagnitude.toNat
  subBucketMask_eq : h.subBucketMask.toNat = 2 ^ (h.subBucketHalfCountMagnitude.toNat + 1) - 1
  bucketCount_pos : 1 ≤ h.bucketCount
  trackable : h.highestTrackableValue.toNat ≤
    (2 ^ (h.subBucketHalfCountMagnitude.toNat + 1) - 1) * 2 ^ (h.bucketCount.toNat - 1)
  countsArrayLength_eq :
    h.countsArrayLength = (h.bucketCount + 1) * 2 ^ h.subBucketHalfCountMagnitude.toNat
  length_counts : h.counts.length = h.countsArrayLength.toNat

theorem valueFromIndex_toNat {bucketIndex subBucketIndex : Nat} (hbucket : bucketIndex < 64)
    (hfit : subBucketIndex * 2 ^ bucketIndex < 2 ^ 64) :
    (valueFromIndex bucketIndex subBucketIndex).toNat = subBucketIndex * 2 ^ bucketIndex := by
  have hs : subBucketIndex < 2 ^ 64 :=
    lt_of_le_of_lt (Nat.le_mul_of_pos_right _ (Nat.two_pow_pos _)) hfit
  have hofInt : ∀ x : Nat, x < 2 ^ 64 → (UInt64.ofInt x).toNat = x := fun x hx => by
    simp only [UInt64.ofInt, UInt64.toNat_ofNat']
    omega
  rw [valueFromIndex, UInt64.toNat_shiftLeft, hofInt _ hs, hofInt _ (by omega),
    Nat.mod_eq_of_lt hbucket, Nat.shiftLeft_eq, Nat.mod_eq_of_lt hfit]

theorem int32_one_shiftLeft {k : Nat} (hk : k < 31) : ((1 : Int32) <<< Int32.ofInt k).toInt = 2 ^ k := by
  have key : ∀ k : Nat, k < 31 → ((1 : Int32) <<< Int32.ofInt k).toInt = 2 ^ k := by decide
  exact key k hk

theorem int32_one_shiftLeft_31 : ((1 : Int32) <<< Int32.ofInt ((31 : Nat) : Int)).toInt = -2 ^ 31 := by
  decide

section Layout

variable {h : HdrHistogram} (hw : h.WellFormed) {value : UInt64}
  (hvalue : value ≤ h.highestTrackableValue)
include hw hvalue

theorem bucketIndex_eq :
    h.bucketIndex value = bucketOf h.subBucketHalfCountMagnitude.toNat value.toNat := by
  set m := h.subBucketHalfCountMagnitude.toNat
  have hm := hw.magnitude_bounds
  -- the mask sets the two lowest bits, so the ceiling is one above the magnitude
  have hor : (value ||| h.subBucketMask.toUInt64).toNat = value.toNat ||| (2 ^ (m + 1) - 1) := by
    rw [UInt64.toNat_or, UInt32.toNat_toUInt64, hw.subBucketMask_eq]
  have hfour : (value.toNat ||| (2 ^ (m + 1) - 1)) % 4 = 3 := by
    rw [or_two_pow_sub_one]
    have hpow : 2 ^ (m + 1) = 4 * 2 ^ (m - 1) := by
      rw [show m + 1 = 2 + (m - 1) by omega, Nat.pow_add]
    rw [hpow, Nat.mul_assoc]
    have := Nat.two_pow_pos (m - 1)
    omega
  have hclamp : ¬ value > h.highestTrackableValue := UInt64.not_lt.mpr hvalue
  simp only [bucketIndex, if_neg hclamp]
  rw [log2Ceiling64_of_mod_four (hor ▸ hfour), hor, log2_or_mask, bucketOf]
  split
  · omega
  · rename_i hge
    have : m + 1 ≤ value.toNat.log2 := (bucketOf_of_le (Nat.not_lt.mp hge)).2
    omega

theorem subBucketIndex_eq :
    h.subBucketIndex value (h.bucketIndex value) =
      subBucketOf h.subBucketHalfCountMagnitude.toNat value.toNat := by
  have hclamp : ¬ value > h.highestTrackableValue := UInt64.not_lt.mpr hvalue
  have hb := bucketIndex_eq hw hvalue
  have hbucket := bucketOf_add_lt (h.subBucketHalfCountMagnitude.toNat) value.toNat_lt
    (by have := hw.magnitude_bounds; omega)
  set m := h.subBucketHalfCountMagnitude.toNat
  -- the bucket is below 64, so the shift is exact
  have hshift : (UInt64.ofInt (bucketOf m value.toNat)).toNat % 64 = bucketOf m value.toNat := by
    simp only [UInt64.ofInt, UInt64.toNat_ofNat']
    omega
  simp only [subBucketIndex, if_neg hclamp, hb, UInt64.toNat_shiftRight, hshift,
    Nat.shiftRight_eq_div_pow, subBucketOf]

theorem countsArrayIndex_eq :
    h.countsArrayIndex (h.bucketIndex value) (h.subBucketIndex value (h.bucketIndex value)) =
      indexOf h.subBucketHalfCountMagnitude.toNat value.toNat ∧
    indexOf h.subBucketHalfCountMagnitude.toNat value.toNat < h.countsArrayLength := by
  have hbuckets := hw.bucketCount_pos
  have hlength := hw.countsArrayLength_eq
  have hhalf := hw.subBucketHalfCount_eq
  have hs := subBucketIndex_eq hw hvalue
  have hb := bucketIndex_eq hw hvalue
  have hlt : indexOf h.subBucketHalfCountMagnitude.toNat value.toNat <
      (h.bucketCount.toNat + 1) * 2 ^ h.subBucketHalfCountMagnitude.toNat :=
    indexOf_lt (by omega) (le_trans (UInt64.le_iff_toNat_le.mp hvalue) hw.trackable)
  set m := h.subBucketHalfCountMagnitude.toNat
  constructor
  · rw [countsArrayIndex, hs, hb, hhalf, indexOf]
    push_cast
    ring
  · have hcast : ((h.bucketCount.toNat + 1) * 2 ^ m : Nat) = (h.bucketCount + 1) * (2 : Int) ^ m := by
      push_cast
      rw [Int.toNat_of_nonneg (by omega)]
    rw [hlength]
    omega

theorem lowestEquivalentValue_eq :
    (h.lowestEquivalentValue value).toNat =
      subBucketOf h.subBucketHalfCountMagnitude.toNat value.toNat *
        2 ^ bucketOf h.subBucketHalfCountMagnitude.toNat value.toNat := by
  have hb := bucketIndex_eq hw hvalue
  have hs := subBucketIndex_eq hw hvalue
  have hbucket := bucketOf_add_lt (h.subBucketHalfCountMagnitude.toNat) value.toNat_lt
    (by have := hw.magnitude_bounds; omega)
  have hle : subBucketOf h.subBucketHalfCountMagnitude.toNat value.toNat *
      2 ^ bucketOf h.subBucketHalfCountMagnitude.toNat value.toNat ≤ value.toNat :=
    subBucketOf_mul_le _
  rw [lowestEquivalentValue, hs, hb]
  exact valueFromIndex_toNat (by omega) (lt_of_le_of_lt hle value.toNat_lt)

theorem lowestEquivalentValue_le : h.lowestEquivalentValue value ≤ value := by
  rw [UInt64.le_iff_toNat_le, lowestEquivalentValue_eq hw hvalue]
  exact subBucketOf_mul_le _

/-- The sub-bucket of a trackable value is below the sub-bucket count: the range is one shift of
the bucket. -/
theorem sizeOfEquivalentValueRange_eq :
    h.sizeOfEquivalentValueRange value = UInt64.ofInt ((1 : Int32) <<<
      Int32.ofInt (bucketOf h.subBucketHalfCountMagnitude.toNat value.toNat)).toInt := by
  have hb := bucketIndex_eq hw hvalue
  have hs := subBucketIndex_eq hw hvalue
  have hlt : subBucketOf h.subBucketHalfCountMagnitude.toNat value.toNat <
      2 ^ (h.subBucketHalfCountMagnitude.toNat + 1) := subBucketOf_lt _
  have hcount := hw.subBucketCount_eq
  have hnot : ¬ h.subBucketIndex value (h.bucketIndex value) ≥ h.subBucketCount := by
    rw [hs, hcount]
    exact_mod_cast Nat.not_le.mpr hlt
  rw [sizeOfEquivalentValueRange, if_neg hnot, hb]

theorem highestEquivalentValue_eq
    (hbucket : bucketOf h.subBucketHalfCountMagnitude.toNat value.toNat ≤ 30) :
    (h.highestEquivalentValue value).toNat =
      subBucketOf h.subBucketHalfCountMagnitude.toNat value.toNat *
        2 ^ bucketOf h.subBucketHalfCountMagnitude.toNat value.toNat +
      2 ^ bucketOf h.subBucketHalfCountMagnitude.toNat value.toNat - 1 := by
  have hlow := lowestEquivalentValue_eq hw hvalue
  have hsize := sizeOfEquivalentValueRange_eq hw hvalue
  have hend := bucketOf_add_lt (h.subBucketHalfCountMagnitude.toNat) value.toNat_lt
    (by have := hw.magnitude_bounds; omega)
  set m := h.subBucketHalfCountMagnitude.toNat
  set b := bucketOf m value.toNat
  set s := subBucketOf m value.toNat
  -- the sub-bucket's last value is still a 64-bit value
  have hfit : s * 2 ^ b + 2 ^ b ≤ 2 ^ 64 := by
    have hs : s < 2 ^ (m + 1) := subBucketOf_lt _
    calc s * 2 ^ b + 2 ^ b = (s + 1) * 2 ^ b := by ring
      _ ≤ 2 ^ (m + 1) * 2 ^ b := Nat.mul_le_mul_right _ hs
      _ = 2 ^ (b + m + 1) := by rw [← Nat.pow_add]; congr 1; omega
      _ ≤ 2 ^ 64 := Nat.pow_le_pow_right (by norm_num) (by omega)
  have hsizeNat : (h.sizeOfEquivalentValueRange value).toNat = 2 ^ b := by
    have hpow : 2 ^ b < 2 ^ 64 := Nat.pow_lt_pow_right (by norm_num) (by omega)
    have hcast : (2 : Int) ^ b = ((2 ^ b : Nat) : Int) := by push_cast; rfl
    rw [hsize, int32_one_shiftLeft (by omega), hcast]
    simp only [UInt64.ofInt, UInt64.toNat_ofNat']
    rw [Int.emod_eq_of_lt (by positivity) (by exact_mod_cast hpow), Int.toNat_natCast,
      Nat.mod_eq_of_lt hpow]
  have hpos := Nat.two_pow_pos b
  rw [highestEquivalentValue, nextNonEquivalentValue, UInt64.toNat_sub, UInt64.toNat_add, hlow,
    hsizeNat]
  simp only [UInt64.toNat_one]
  omega

theorem le_highestEquivalentValue
    (hbucket : bucketOf h.subBucketHalfCountMagnitude.toNat value.toNat ≤ 30) :
    value ≤ h.highestEquivalentValue value := by
  have hhigh := highestEquivalentValue_eq hw hvalue hbucket
  have hlt := lt_subBucketOf_succ_mul (m := h.subBucketHalfCountMagnitude.toNat) value.toNat
  rw [Nat.add_mul, Nat.one_mul] at hlt
  rw [UInt64.le_iff_toNat_le, hhigh]
  omega

theorem width_equivalentRange
    (hbucket : bucketOf h.subBucketHalfCountMagnitude.toNat value.toNat ≤ 30) :
    (h.highestEquivalentValue value).toNat + 1 - (h.lowestEquivalentValue value).toNat =
      2 ^ bucketOf h.subBucketHalfCountMagnitude.toNat value.toNat := by
  have hhigh := highestEquivalentValue_eq hw hvalue hbucket
  have hlow := lowestEquivalentValue_eq hw hvalue
  have hpos := Nat.two_pow_pos (bucketOf h.subBucketHalfCountMagnitude.toNat value.toNat)
  rw [hhigh, hlow]
  omega

/-- At bucket 31 the range size is `1 << 31` sign-extended, and `HighestEquivalentValue` falls
below the value. -/
theorem highestEquivalentValue_lt
    (hbucket : bucketOf h.subBucketHalfCountMagnitude.toNat value.toNat = 31) :
    h.highestEquivalentValue value < value := by
  have hlow := lowestEquivalentValue_eq hw hvalue
  have hsize := sizeOfEquivalentValueRange_eq hw hvalue
  have hle : subBucketOf h.subBucketHalfCountMagnitude.toNat value.toNat *
      2 ^ bucketOf h.subBucketHalfCountMagnitude.toNat value.toNat ≤ value.toNat :=
    subBucketOf_mul_le _
  have hhalf : 2 ^ h.subBucketHalfCountMagnitude.toNat ≤
      subBucketOf h.subBucketHalfCountMagnitude.toNat value.toNat :=
    le_subBucketOf (by omega)
  have hsizeNat : (h.sizeOfEquivalentValueRange value).toNat = 2 ^ 64 - 2 ^ 31 := by
    rw [hsize, hbucket, int32_one_shiftLeft_31]
    rfl
  -- the lowest value is above `2^31`, so adding `2^64 - 2^31` wraps below it
  have hbig : 2 * 2 ^ 31 ≤ subBucketOf h.subBucketHalfCountMagnitude.toNat value.toNat * 2 ^ 31 := by
    have hm : 2 ≤ 2 ^ h.subBucketHalfCountMagnitude.toNat :=
      Nat.le_self_pow (by have := hw.magnitude_bounds; omega) 2
    exact Nat.mul_le_mul_right _ (hm.trans hhalf)
  have hlt := value.toNat_lt
  rw [UInt64.lt_iff_toNat_lt, highestEquivalentValue, nextNonEquivalentValue, UInt64.toNat_sub,
    UInt64.toNat_add, hlow, hsizeNat, hbucket]
  rw [hbucket] at hle
  simp only [UInt64.toNat_one]
  omega

end Layout

/-- A value past bucket 0 is at least `2^bucket * 10^digits`: its sub-bucket is in the upper
half, at least `2^m`, which `Init` sizes to reach `10^digits`. -/
theorem two_pow_bucketOf_mul_le {h : HdrHistogram} (hw : h.WellFormed) {value : Nat}
    (hb : bucketOf h.subBucketHalfCountMagnitude.toNat value ≠ 0) :
    2 ^ bucketOf h.subBucketHalfCountMagnitude.toNat value * 10 ^ h.numSignificantDigits.toNat ≤
      value :=
  calc 2 ^ bucketOf h.subBucketHalfCountMagnitude.toNat value * 10 ^ h.numSignificantDigits.toNat
      ≤ 2 ^ bucketOf h.subBucketHalfCountMagnitude.toNat value *
          subBucketOf h.subBucketHalfCountMagnitude.toNat value :=
        Nat.mul_le_mul_left _ (hw.digits.2.trans (le_subBucketOf hb))
    _ = subBucketOf h.subBucketHalfCountMagnitude.toNat value *
          2 ^ bucketOf h.subBucketHalfCountMagnitude.toNat value := Nat.mul_comm _ _
    _ ≤ value := subBucketOf_mul_le value

/-! `Init`. -/

/-- The sub-bucket half-count magnitude `Init` derives from the number of significant digits. -/
def magnitudeFor (numSignificantDigits : Int) : Nat :=
  let subBucketCountMagnitude := log2Ceiling (2 * UInt32.ofNat (10 ^ numSignificantDigits.toNat))
  (if subBucketCountMagnitude ≥ 1 then UInt8.ofInt (subBucketCountMagnitude - 1) else 0).toNat

/-- The largest value the trackable value of `Init` reaches before its doubling wraps:
`(2^(m+1) - 1) << (63 - m)`. -/
def trackableLimit (numSignificantDigits : Int) : Nat :=
  (2 ^ (magnitudeFor numSignificantDigits + 1) - 1) * 2 ^ (63 - magnitudeFor numSignificantDigits)

theorem magnitudeFor_bounds {numSignificantDigits : Int}
    (hdigits : 1 ≤ numSignificantDigits ∧ numSignificantDigits ≤ 5) :
    4 ≤ magnitudeFor numSignificantDigits ∧ magnitudeFor numSignificantDigits ≤ 17 ∧
      10 ^ numSignificantDigits.toNat ≤ 2 ^ magnitudeFor numSignificantDigits := by
  obtain ⟨hlo, hhi⟩ := hdigits
  interval_cases numSignificantDigits <;> decide +kernel

theorem toNat_shiftLeft_one (t : UInt64) : (t <<< 1).toNat = t.toNat * 2 % 2 ^ 64 := by
  rw [UInt64.toNat_shiftLeft, show (1 : UInt64).toNat % 64 = 1 from rfl, Nat.shiftLeft_eq,
    Nat.pow_one]

/-- Doubling `(2^c - 1)` in 64 bits never passes `(2^c - 1) << (64 - c)`: once it would, the
high bits are shifted out. -/
theorem mul_two_pow_mod_le {c : Nat} (hc : 1 ≤ c ∧ c ≤ 64) (k : Nat) :
    (2 ^ c - 1) * 2 ^ k % 2 ^ 64 ≤ (2 ^ c - 1) * 2 ^ (64 - c) := by
  have hpos := Nat.two_pow_pos c
  have hlimit : (2 ^ c - 1) * 2 ^ (64 - c) = 2 ^ 64 - 2 ^ (64 - c) := by
    rw [Nat.sub_mul, ← Nat.pow_add, Nat.one_mul, show c + (64 - c) = 64 by omega]
  by_cases hk : k ≤ 64 - c
  · -- no bit has been shifted out yet
    have hle : (2 ^ c - 1) * 2 ^ k ≤ (2 ^ c - 1) * 2 ^ (64 - c) :=
      Nat.mul_le_mul_left _ (Nat.pow_le_pow_right (by norm_num) hk)
    exact (Nat.mod_le _ _).trans hle
  · rcases Nat.lt_or_ge k 64 with hk64 | hk64
    · -- `(2^c - 1) * 2^k` is `2^64 * (2^j - 1) + (2^64 - 2^k)`
      obtain ⟨j, hj⟩ : ∃ j, c + k = 64 + j := ⟨c + k - 64, by omega⟩
      have hsplit : (2 ^ c - 1) * 2 ^ k = 2 ^ 64 * (2 ^ j - 1) + (2 ^ 64 - 2 ^ k) := by
        have hj1 : 1 ≤ 2 ^ j := Nat.one_le_two_pow
        have hk1 : 2 ^ k ≤ 2 ^ 64 := Nat.pow_le_pow_right (by norm_num) hk64.le
        have hprod : 2 ^ c * 2 ^ k = 2 ^ 64 * 2 ^ j := by rw [← Nat.pow_add, ← Nat.pow_add, hj]
        rw [Nat.sub_mul, Nat.one_mul, hprod, Nat.mul_sub, Nat.mul_one]
        have : 2 ^ 64 ≤ 2 ^ 64 * 2 ^ j := Nat.le_mul_of_pos_right _ (Nat.two_pow_pos j)
        omega
      have hkc : 2 ^ (64 - c) ≤ 2 ^ k := Nat.pow_le_pow_right (by norm_num) (by omega)
      rw [hsplit, Nat.mul_add_mod, Nat.mod_eq_of_lt (by have := Nat.two_pow_pos k; omega),
        hlimit]
      omega
    · -- every bit has been shifted out
      have hdvd : 2 ^ 64 ∣ (2 ^ c - 1) * 2 ^ k :=
        Dvd.dvd.mul_left (Nat.pow_dvd_pow 2 hk64) _
      rw [Nat.mod_eq_zero_of_dvd hdvd]
      exact Nat.zero_le _

section Loop

variable {highestTrackableValue : UInt64} {c : Nat}

/-- Up to the limit, the loop stops at the first doubling of `2^c - 1` that reaches the highest
trackable value, and that many doublings plus one are the buckets. -/
theorem bucketsNeededLoop_eq_some (hc : 1 ≤ c ∧ c ≤ 64)
    (hlimit : highestTrackableValue.toNat ≤ (2 ^ c - 1) * 2 ^ (64 - c)) :
    ∀ fuel k (trackableValue : UInt64), trackableValue.toNat = (2 ^ c - 1) * 2 ^ k →
      k ≤ 64 - c → 64 - c - k < fuel →
      ∃ bucketCount, bucketsNeededLoop highestTrackableValue fuel trackableValue (k + 1) =
        some bucketCount ∧ 1 ≤ bucketCount ∧
        highestTrackableValue.toNat ≤ (2 ^ c - 1) * 2 ^ (bucketCount.toNat - 1)
  | 0, _, _, _, _, hfuel => absurd hfuel (Nat.not_lt_zero _)
  | fuel + 1, k, trackableValue, ht, hk, hfuel => by
    by_cases hbelow : trackableValue < highestTrackableValue
    · -- another doubling, still below the limit
      rw [UInt64.lt_iff_toNat_lt, ht] at hbelow
      have hk' : k + 1 ≤ 64 - c := by
        by_contra hge
        have : (2 ^ c - 1) * 2 ^ (64 - c) ≤ (2 ^ c - 1) * 2 ^ k :=
          Nat.mul_le_mul_left _ (Nat.pow_le_pow_right (by norm_num) (by omega))
        omega
      have hnext : (trackableValue <<< 1).toNat = (2 ^ c - 1) * 2 ^ (k + 1) := by
        have hfit : (2 ^ c - 1) * 2 ^ (k + 1) < 2 ^ 64 := by
          have hle : (2 ^ c - 1) * 2 ^ (k + 1) ≤ (2 ^ c - 1) * 2 ^ (64 - c) :=
            Nat.mul_le_mul_left _ (Nat.pow_le_pow_right (by norm_num) hk')
          have := mul_two_pow_mod_le hc 0
          have hlim : (2 ^ c - 1) * 2 ^ (64 - c) < 2 ^ 64 := by
            rw [Nat.sub_mul, ← Nat.pow_add, Nat.one_mul, show c + (64 - c) = 64 by omega]
            have := Nat.two_pow_pos (64 - c)
            omega
          omega
        rw [toNat_shiftLeft_one, ht, Nat.mul_assoc, ← Nat.pow_succ, Nat.mod_eq_of_lt hfit]
      obtain ⟨bucketCount, hloop, hpos, hcover⟩ :=
        bucketsNeededLoop_eq_some hc hlimit fuel (k + 1) _ hnext hk' (by omega)
      refine ⟨bucketCount, ?_, hpos, hcover⟩
      rw [bucketsNeededLoop, if_pos (UInt64.lt_iff_toNat_lt.mpr (by omega))]
      push_cast at hloop ⊢
      exact hloop
    · -- the trackable value has reached the highest one
      refine ⟨k + 1, by rw [bucketsNeededLoop, if_neg hbelow], by omega, ?_⟩
      rw [UInt64.lt_iff_toNat_lt, ht, Nat.not_lt] at hbelow
      simpa using hbelow

theorem bucketsNeededLoop_eq_none (hc : 1 ≤ c ∧ c ≤ 64)
    (hlimit : (2 ^ c - 1) * 2 ^ (64 - c) < highestTrackableValue.toNat) :
    ∀ fuel k (trackableValue : UInt64) bucketsNeeded,
      trackableValue.toNat = (2 ^ c - 1) * 2 ^ k % 2 ^ 64 →
      bucketsNeededLoop highestTrackableValue fuel trackableValue bucketsNeeded = none
  | 0, _, _, _, _ => rfl
  | fuel + 1, k, trackableValue, bucketsNeeded, ht => by
    have hbelow : trackableValue < highestTrackableValue := by
      rw [UInt64.lt_iff_toNat_lt, ht]
      exact lt_of_le_of_lt (mul_two_pow_mod_le hc k) hlimit
    have hnext : (trackableValue <<< 1).toNat = (2 ^ c - 1) * 2 ^ (k + 1) % 2 ^ 64 := by
      rw [toNat_shiftLeft_one, ht, Nat.mod_mul_mod, Nat.mul_assoc, ← Nat.pow_succ]
    rw [bucketsNeededLoop, if_pos hbelow]
    exact bucketsNeededLoop_eq_none hc hlimit fuel (k + 1) _ _ hnext

end Loop

section Init

variable {highestTrackableValue : UInt64} {numSignificantDigits : Int}

theorem toNat_ofInt_mask {m : Nat} (hm : m ≤ 17) :
    (UInt64.ofInt (2 ^ (m + 1) - 1)).toNat = 2 ^ (m + 1) - 1 ∧
      (UInt32.ofInt (2 ^ (m + 1) - 1)).toNat = 2 ^ (m + 1) - 1 := by
  have hpow : 2 ^ (m + 1) ≤ 2 ^ 18 := Nat.pow_le_pow_right (by norm_num) (by omega)
  have hcast : (2 : Int) ^ (m + 1) - 1 = ((2 ^ (m + 1) - 1 : Nat) : Int) := by
    push_cast [Nat.one_le_two_pow]
    rfl
  rw [hcast]
  simp only [UInt64.ofInt, UInt64.toNat_ofNat', UInt32.ofInt, UInt32.toNat_ofNat']
  omega

theorem toNat_magnitude (numSignificantDigits : Int) :
    (if log2Ceiling (2 * UInt32.ofNat (10 ^ numSignificantDigits.toNat)) ≥ 1 then
        UInt8.ofInt (log2Ceiling (2 * UInt32.ofNat (10 ^ numSignificantDigits.toNat)) - 1)
      else 0).toNat = magnitudeFor numSignificantDigits := rfl

/-- A valid configuration up to the limit: `Init` returns within 64 doublings, with the layout
of its digits and no count. -/
theorem init_eq_some (hvalue : 2 ≤ highestTrackableValue)
    (hdigits : 1 ≤ numSignificantDigits ∧ numSignificantDigits ≤ 5)
    (hlimit : highestTrackableValue.toNat ≤ trackableLimit numSignificantDigits) :
    ∃ h, init 64 highestTrackableValue numSignificantDigits = some h ∧ h.WellFormed ∧
      h.highestTrackableValue = highestTrackableValue ∧
      h.numSignificantDigits = numSignificantDigits ∧
      h.subBucketHalfCountMagnitude.toNat = magnitudeFor numSignificantDigits ∧
      h.totalCount = 0 ∧ ∀ i, h.counts.getD i 0 = 0 := by
  obtain ⟨hlo, hhi, hten⟩ := magnitudeFor_bounds hdigits
  have hvalidValue : isValidHighestTrackableValue highestTrackableValue = true :=
    decide_eq_true hvalue
  have hvalidDigits : isValidNumSignificantDigits numSignificantDigits = true := by
    simp only [isValidNumSignificantDigits, kMinValidNumSignificantDigits,
      kMaxValidNumSignificantDigits, Bool.and_eq_true]
    exact ⟨decide_eq_true hdigits.1, decide_eq_true hdigits.2⟩
  set m := magnitudeFor numSignificantDigits with hm
  -- the first trackable value is the sub-bucket mask, `2^(m+1) - 1`
  have hfirst : (UInt64.ofInt (2 ^ (m + 1) - 1)).toNat = (2 ^ (m + 1) - 1) * 2 ^ 0 := by
    rw [(toNat_ofInt_mask hhi).1, Nat.pow_zero, Nat.mul_one]
  have hlimit' : highestTrackableValue.toNat ≤ (2 ^ (m + 1) - 1) * 2 ^ (64 - (m + 1)) := by
    rw [show 64 - (m + 1) = 63 - m by omega]
    exact hlimit
  obtain ⟨bucketCount, hloop, hpos, hcover⟩ :=
    @bucketsNeededLoop_eq_some highestTrackableValue (m + 1) (by omega) hlimit' 64 0 _ hfirst
      (by omega) (by omega)
  rw [Nat.cast_zero, Int.zero_add] at hloop
  rw [init, if_neg (by simp [hvalidValue]), if_neg (by simp [hvalidDigits])]
  simp only [toNat_magnitude, ← hm, hloop, Option.map_some]
  have hX := (toNat_magnitude numSignificantDigits).trans hm.symm
  have hhalf : (2 : Int) ^ (m + 1) / 2 = 2 ^ m := by
    rw [pow_succ, Int.mul_ediv_cancel _ (by norm_num)]
  have hmask := (toNat_ofInt_mask hhi).2
  refine ⟨_, rfl, ⟨?_, ?_, ?_, ?_, ?_, hpos, ?_, ?_, ?_⟩, rfl, rfl, hX, rfl, fun i => ?_⟩ <;>
    simp only [hX]
  · exact ⟨hlo, hhi⟩
  · exact ⟨hdigits.1, hten⟩
  · exact hhalf
  · exact hmask
  · exact hcover
  · rw [hhalf]
  · simp
  · simp

theorem init_eq_none (hdigits : 1 ≤ numSignificantDigits ∧ numSignificantDigits ≤ 5)
    (hlimit : trackableLimit numSignificantDigits < highestTrackableValue.toNat) (fuel : Nat) :
    init fuel highestTrackableValue numSignificantDigits = none := by
  obtain ⟨hlo, hhi, -⟩ := magnitudeFor_bounds hdigits
  set m := magnitudeFor numSignificantDigits with hm
  have hfirst : (UInt64.ofInt (2 ^ (m + 1) - 1)).toNat = (2 ^ (m + 1) - 1) * 2 ^ 0 % 2 ^ 64 := by
    have hpow : 2 ^ (m + 1) ≤ 2 ^ 18 := Nat.pow_le_pow_right (by norm_num) (by omega)
    rw [(toNat_ofInt_mask hhi).1, Nat.pow_zero, Nat.mul_one, Nat.mod_eq_of_lt (by omega)]
  have hlimit' : (2 ^ (m + 1) - 1) * 2 ^ (64 - (m + 1)) < highestTrackableValue.toNat := by
    rw [show 64 - (m + 1) = 63 - m by omega]
    exact hlimit
  rw [init]
  split_ifs
  · rfl
  · rfl
  · simp only [toNat_magnitude, ← hm]
    rw [@bucketsNeededLoop_eq_none highestTrackableValue (m + 1) (by omega) hlimit' fuel 0 _ 1
      hfirst]
    rfl

end Init

end HdrHistogram

end FrescoDB.Util
