import FrescoDB.Common.QLValuePB
import FrescoDB.Docdb.DocQLScanSpec
import FrescoDB.Lib.Bitfield

/-! `PrimitiveValue::FromQLValuePB` (`docdb/primitive_value.cc`) on the members of `QLValuePB`
that key columns hold, and how the order of the keys it makes compares with `Compare`, the
order in which conditions are evaluated. A floating-point key is the bit pattern with its sign
bit flipped, or all bits complemented for a negative value (`AppendDoubleToKey`): that orders
as `Compare` save for `+0` and `-0`, which `Compare` finds equal and the keys tell apart. A NaN
is canonicalized first, so all NaNs share the greatest key, as `Compare` has them. -/
namespace FrescoDB.Docdb

open FrescoDB.Lib FrescoDB.Util FrescoDB.Common ValueType BinaryFormat

namespace PrimitiveValue

/-- The `type_` that `PrimitiveValue::Int32(v, sort_order)` and the other constructors with a
sort order set. -/
def sortedType (sortOrder : SortOrder) (ascending descending : ValueType) : ValueType :=
  if sortOrder = .kDescending then descending else ascending

/-- `PrimitiveValue::FromQLValuePB`: the members of the narrow integer types widen to `int32`,
`binary_value` is a string, and a `bool_value` is a type with no payload. -/
def fromQLValuePB (value : QLValuePB) (sortingType : SortingType) : PrimitiveValue :=
  let sortOrder := sortOrderFromColumnSchemaSortingType sortingType
  match value with
  | .int8Value v | .int16Value v | .int32Value v =>
    int32 (sortedType sortOrder kInt32 kInt32Descending) v
  | .int64Value v => int64 (sortedType sortOrder kInt64 kInt64Descending) v
  | .uint32Value v => uint32 (sortedType sortOrder kUInt32 kUInt32Descending) v
  | .floatValue f => float (sortedType sortOrder kFloat kFloatDescending) (canonicalizeFloat f)
  | .doubleValue d => double (sortedType sortOrder kDouble kDoubleDescending) (canonicalizeDouble d)
  | .decimalValue s => str (sortedType sortOrder kDecimal kDecimalDescending) s
  | .varintValue s => str (sortedType sortOrder kVarInt kVarIntDescending) s
  | .stringValue s | .binaryValue s => str (sortedType sortOrder kString kStringDescending) s
  | .boolValue b =>
    ofType (if sortOrder = .kDescending then (if b then kTrueDescending else kFalseDescending)
      else (if b then kTrue else kFalse))
  | .timestampValue t => timestamp (sortedType sortOrder kTimestamp kTimestampDescending) t
  | .dateValue d => uint32 (sortedType sortOrder kUInt32 kUInt32Descending) d
  | .timeValue t => int64 (sortedType sortOrder kInt64 kInt64Descending) t

theorem toNat_doubleKeyWord (val : UInt64) :
    (if val >>> 63 ≠ 0 then ~~~val else val ^^^ kInt64SignBitFlipMask).toNat =
      binary64.signFlip val.toNat := by
  have hshift : val >>> 63 ≠ 0 ↔ 2 ^ 63 ≤ val.toNat := by
    rw [ne_eq, ← UInt64.toNat_inj, UInt64.toNat_shiftRight, ← ne_eq]
    exact shiftRight_ne_zero_iff
  rw [signFlip_eq_xor val.toNat_lt, apply_ite UInt64.toNat, if_congr hshift rfl rfl,
    UInt64.toNat_not, UInt64.toNat_xor]
  rfl

theorem toNat_floatKeyWord (val : UInt32) :
    (if val >>> 31 ≠ 0 then ~~~val else val ^^^ kInt32SignBitFlipMask).toNat =
      binary32.signFlip val.toNat := by
  have hshift : val >>> 31 ≠ 0 ↔ 2 ^ 31 ≤ val.toNat := by
    rw [ne_eq, ← UInt32.toNat_inj, UInt32.toNat_shiftRight, ← ne_eq]
    exact shiftRight_ne_zero_iff
  rw [signFlip_eq_xor val.toNat_lt, apply_ite UInt32.toNat, if_congr hshift rfl rfl,
    UInt32.toNat_not, UInt32.toNat_xor]
  rfl

theorem appendDoubleToKey_eq (val : UInt64) (dest : List UInt8) (descending : Bool) :
    appendDoubleToKey val dest descending = dest ++ toBytesBE 8
      (if descending then 256 ^ 8 - 1 - binary64.signFlip val.toNat
        else binary64.signFlip val.toNat) := by
  unfold appendDoubleToKey store64
  cases descending
  · simp only [Bool.false_eq_true, if_false]
    rw [toNat_doubleKeyWord]
  · simp only [if_true]
    rw [UInt64.toNat_not, toNat_doubleKeyWord]
    rfl

theorem appendFloatToKey_eq (val : UInt32) (dest : List UInt8) (descending : Bool) :
    appendFloatToKey val dest descending = dest ++ toBytesBE 4
      (if descending then 256 ^ 4 - 1 - binary32.signFlip val.toNat
        else binary32.signFlip val.toNat) := by
  unfold appendFloatToKey store32
  cases descending
  · simp only [Bool.false_eq_true, if_false]
    rw [toNat_floatKeyWord]
  · simp only [if_true]
    rw [UInt32.toNat_not, toNat_floatKeyWord]
    rfl

theorem compare_toBytesBE_oriented {w a b : Nat} (ha : a < 256 ^ w) (hb : b < 256 ^ w)
    (descending : Bool) :
    compare (toBytesBE w (if descending then 256 ^ w - 1 - a else a))
        (toBytesBE w (if descending then 256 ^ w - 1 - b else b)) =
      if descending then (compare a b).swap else compare a b := by
  cases descending
  · exact compare_toBytesBE w a b ha hb
  · simp only [if_true]
    rw [compare_toBytesBE w _ _ (by omega) (by omega), compare_sub_sub (by omega) (by omega)]
    exact Std.OrientedCmp.eq_swap

section Floating

variable {f : BinaryFormat} (hm : 0 < f.mBits)
include hm

/-- Through `signFlip` of the canonical patterns, numbers order as `Compare` orders them and
every NaN sits above them all; the one pair whose orders differ is `+0` and `-0`. -/
theorem compare_signFlip_canonicalize_iff {x y : Nat} (hx : x < 2 ^ (f.eBits + f.mBits + 1))
    (hy : y < 2 ^ (f.eBits + f.mBits + 1)) :
    compare (f.signFlip (canonicalizeOf f.isNaN f.quietNaN x))
        (f.signFlip (canonicalizeOf f.isNaN f.quietNaN y)) =
      compare (compareFloating f.isNaN f.lt x y) 0 ↔ ¬ f.OppositeZeros x y := by
  have hneg : compare (-1 : Int) 0 = .lt := by decide
  have hpos : compare (1 : Int) 0 = .gt := by decide
  unfold canonicalizeOf compareFloating
  cases hnx : f.isNaN x <;> cases hny : f.isNaN y
  · -- two numbers: IEEE order, which the zeros break
    simp only [Bool.false_eq_true, if_false, Bool.and_false, Bool.not_false, Bool.and_true]
    by_cases hz : f.OppositeZeros x y
    · have hne : f.signFlip x ≠ f.signFlip y := fun h => hz.2.2 (signFlip_injective hx hy h)
      simp [genericCompare, lt_eq_false_of_oppositeZeros hx hy hz,
        lt_eq_false_of_oppositeZeros hy hx hz.symm, hz, hne]
    · have hlt := lt_iff_signFlip_lt hx hy hnx hny hz
      have hgt := lt_iff_signFlip_lt hy hx hny hnx (fun h => hz h.symm)
      simp only [hz, not_false_eq_true, iff_true, genericCompare]
      rcases Nat.lt_trichotomy (f.signFlip x) (f.signFlip y) with h | h | h
      · simp [hlt.2 h, Nat.compare_eq_lt.2 h, hneg]
      · have h1 : f.lt x y = false := by simpa [h] using hlt
        have h2 : f.lt y x = false := by simpa [h] using hgt
        simp [h, h1, h2]
      · have h1 : f.lt x y = false := by simpa [Nat.not_lt.2 h.le] using hlt
        simp [h1, hgt.2 h, Nat.compare_eq_gt.2 h, hpos]
  · -- only `y` is a NaN
    have hz : ¬ f.OppositeZeros x y := fun h => by simp [h.symm.isNaN_left] at hny
    simp [Nat.compare_eq_lt.2 (signFlip_lt_signFlip_quietNaN hm hx hnx), hz, hneg]
  · -- only `x` is a NaN
    have hz : ¬ f.OppositeZeros x y := fun h => by simp [h.isNaN_left] at hnx
    simp [Nat.compare_eq_gt.2 (signFlip_lt_signFlip_quietNaN hm hy hny), hz, hpos]
  · have hz : ¬ f.OppositeZeros x y := fun h => by simp [h.isNaN_left] at hnx
    simp [hz]

end Floating

section Keys

variable [UuidVersion]

theorem toKeyBytes_fromQLValuePB_doubleValue (d : UInt64) (s : SortingType) :
    (fromQLValuePB (.doubleValue d) s).toKeyBytes =
      appendDoubleToKey (canonicalizeDouble d) [(fromQLValuePB (.doubleValue d) s).type.toByte]
        (sortOrderFromColumnSchemaSortingType s = .kDescending) := by
  cases s <;> rfl

theorem toKeyBytes_fromQLValuePB_floatValue (f : UInt32) (s : SortingType) :
    (fromQLValuePB (.floatValue f) s).toKeyBytes =
      appendFloatToKey (canonicalizeFloat f) [(fromQLValuePB (.floatValue f) s).type.toByte]
        (sortOrderFromColumnSchemaSortingType s = .kDescending) := by
  cases s <;> rfl

/-- Two doubles of one column: their keys compare as the flipped canonical patterns, the other
way round in a descending column. -/
theorem compare_toKeyBytes_doubleValue (x y : UInt64) (s : SortingType) :
    compare (fromQLValuePB (.doubleValue x) s).toKeyBytes
        (fromQLValuePB (.doubleValue y) s).toKeyBytes =
      if sortOrderFromColumnSchemaSortingType s = .kDescending then
        (compare (binary64.signFlip (canonicalizeDouble x).toNat)
          (binary64.signFlip (canonicalizeDouble y).toNat)).swap
      else compare (binary64.signFlip (canonicalizeDouble x).toNat)
        (binary64.signFlip (canonicalizeDouble y).toNat) := by
  have ha : binary64.signFlip (canonicalizeDouble x).toNat < 256 ^ 8 :=
    binary64.signFlip_lt (UInt64.toNat_lt _)
  have hb : binary64.signFlip (canonicalizeDouble y).toNat < 256 ^ 8 :=
    binary64.signFlip_lt (UInt64.toNat_lt _)
  have htype : (fromQLValuePB (.doubleValue y) s).type = (fromQLValuePB (.doubleValue x) s).type :=
    rfl
  rw [toKeyBytes_fromQLValuePB_doubleValue, toKeyBytes_fromQLValuePB_doubleValue, htype,
    appendDoubleToKey_eq, appendDoubleToKey_eq, compare_append_left]
  simpa using compare_toBytesBE_oriented ha hb (sortOrderFromColumnSchemaSortingType s = .kDescending)

theorem compare_toKeyBytes_floatValue (x y : UInt32) (s : SortingType) :
    compare (fromQLValuePB (.floatValue x) s).toKeyBytes
        (fromQLValuePB (.floatValue y) s).toKeyBytes =
      if sortOrderFromColumnSchemaSortingType s = .kDescending then
        (compare (binary32.signFlip (canonicalizeFloat x).toNat)
          (binary32.signFlip (canonicalizeFloat y).toNat)).swap
      else compare (binary32.signFlip (canonicalizeFloat x).toNat)
        (binary32.signFlip (canonicalizeFloat y).toNat) := by
  have ha : binary32.signFlip (canonicalizeFloat x).toNat < 256 ^ 4 :=
    binary32.signFlip_lt (UInt32.toNat_lt _)
  have hb : binary32.signFlip (canonicalizeFloat y).toNat < 256 ^ 4 :=
    binary32.signFlip_lt (UInt32.toNat_lt _)
  have htype : (fromQLValuePB (.floatValue y) s).type = (fromQLValuePB (.floatValue x) s).type :=
    rfl
  rw [toKeyBytes_fromQLValuePB_floatValue, toKeyBytes_fromQLValuePB_floatValue, htype,
    appendFloatToKey_eq, appendFloatToKey_eq, compare_append_left]
  simpa using compare_toBytesBE_oriented ha hb (sortOrderFromColumnSchemaSortingType s = .kDescending)

/-- Keys of doubles, ascending and descending, order as `Compare` exactly when the two values
are not `+0` and `-0`. -/
theorem compare_toKeyBytes_doubleValue_iff (x y : UInt64) (c : Int)
    (hc : (QLValuePB.doubleValue x).compare (.doubleValue y) = some c) :
    (compare (fromQLValuePB (.doubleValue x) .kAscending).toKeyBytes
          (fromQLValuePB (.doubleValue y) .kAscending).toKeyBytes = compare c 0 ∧
        compare (fromQLValuePB (.doubleValue x) .kDescending).toKeyBytes
          (fromQLValuePB (.doubleValue y) .kDescending).toKeyBytes = compare 0 c) ↔
      ¬ binary64.OppositeZeros x.toNat y.toNat := by
  have hc' : c = compareFloating binary64.isNaN binary64.lt x.toNat y.toNat := by
    rw [← compareFloating_toNat UInt64.toNat binary64 isNanDouble_eq]
    exact (Option.some.inj hc).symm
  have hswap : compare (0 : Int) c = (compare c 0).swap := Std.OrientedCmp.eq_swap
  rw [compare_toKeyBytes_doubleValue, compare_toKeyBytes_doubleValue, toNat_canonicalizeDouble,
    toNat_canonicalizeDouble, hswap, hc']
  simp only [sortOrderFromColumnSchemaSortingType, reduceCtorEq, if_false, if_true,
    Ordering.swap_inj, and_self]
  exact compare_signFlip_canonicalize_iff (by decide) (UInt64.toNat_lt x) (UInt64.toNat_lt y)

theorem compare_toKeyBytes_floatValue_iff (x y : UInt32) (c : Int)
    (hc : (QLValuePB.floatValue x).compare (.floatValue y) = some c) :
    (compare (fromQLValuePB (.floatValue x) .kAscending).toKeyBytes
          (fromQLValuePB (.floatValue y) .kAscending).toKeyBytes = compare c 0 ∧
        compare (fromQLValuePB (.floatValue x) .kDescending).toKeyBytes
          (fromQLValuePB (.floatValue y) .kDescending).toKeyBytes = compare 0 c) ↔
      ¬ binary32.OppositeZeros x.toNat y.toNat := by
  have hc' : c = compareFloating binary32.isNaN binary32.lt x.toNat y.toNat := by
    rw [← compareFloating_toNat UInt32.toNat binary32 isNanFloat_eq]
    exact (Option.some.inj hc).symm
  have hswap : compare (0 : Int) c = (compare c 0).swap := Std.OrientedCmp.eq_swap
  rw [compare_toKeyBytes_floatValue, compare_toKeyBytes_floatValue, toNat_canonicalizeFloat,
    toNat_canonicalizeFloat, hswap, hc']
  simp only [sortOrderFromColumnSchemaSortingType, reduceCtorEq, if_false, if_true,
    Ordering.swap_inj, and_self]
  exact compare_signFlip_canonicalize_iff (by decide) (UInt32.toNat_lt x) (UInt32.toNat_lt y)

end Keys

/-- `0.0` and `-0.0`: `Compare` finds them equal, and their keys differ. -/
theorem compare_toKeyBytes_doubleValue_zeros :
    (QLValuePB.doubleValue 0).compare (.doubleValue 0x8000000000000000) = some 0 ∧
      ¬ (compare (@toKeyBytes nibbleVersion (fromQLValuePB (.doubleValue 0) .kAscending))
            (@toKeyBytes nibbleVersion
              (fromQLValuePB (.doubleValue 0x8000000000000000) .kAscending)) = compare (0 : Int) 0 ∧
          compare (@toKeyBytes nibbleVersion (fromQLValuePB (.doubleValue 0) .kDescending))
            (@toKeyBytes nibbleVersion
              (fromQLValuePB (.doubleValue 0x8000000000000000) .kDescending)) = compare (0 : Int) 0) := by
  have hc : (QLValuePB.doubleValue 0).compare (.doubleValue 0x8000000000000000) = some 0 := by
    decide
  exact ⟨hc, fun h => (@compare_toKeyBytes_doubleValue_iff nibbleVersion _ _ _ hc).1 h
    (by decide)⟩

end PrimitiveValue

end FrescoDB.Docdb
