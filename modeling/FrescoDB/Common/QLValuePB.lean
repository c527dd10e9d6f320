import FrescoDB.Lib.Ieee

/-! The scalar members of `QLValuePB` (`common/common.proto`) that key columns hold, and the
comparator `Compare(const QLValuePB&, const QLValuePB&)` of `common/ql_value.cc`, with which
conditions are evaluated and scan ranges computed. Floating-point members are their bit
patterns. IEEE leaves a NaN unordered; `Compare` makes every NaN equal to every other and
greater than every number, by the tests `IsNanFloat`, `IsNanDouble` of `util/decimal.h`, and
`CanonicalizeFloat`, `CanonicalizeDouble` there replace a NaN by one quiet NaN. -/
namespace FrescoDB.Util

open FrescoDB.Lib BinaryFormat

/-- `IsNanFloat`, `IsNanDouble`: the exponent field (`GetFloatExp`, `GetDoubleExp`) is all ones
and the fraction field (`GetFloatFraction`, `GetDoubleFraction`) is not zero. -/
def isNanOf (f : BinaryFormat) (allOnes x : Nat) : Bool :=
  f.exponent x = allOnes && f.fraction x ≠ 0

def isNanFloat (f : UInt32) : Bool := isNanOf binary32 0b11111111 f.toNat
def isNanDouble (d : UInt64) : Bool := isNanOf binary64 0b11111111111 d.toNat

/-- `CreateFloat`, `CreateDouble`: the three fields put together. -/
def createFloat (sign exponent fraction : UInt32) : UInt32 :=
  (sign <<< 31) ||| (exponent <<< 23) ||| fraction

def createDouble (sign exp fraction : UInt64) : UInt64 :=
  (sign <<< 63) ||| (exp <<< 52) ||| fraction

/-- `CanonicalizeFloat`, `CanonicalizeDouble`: a NaN is replaced by `nan`. -/
def canonicalizeOf {α : Type} (isNan : α → Bool) (nan x : α) : α := if isNan x then nan else x

def canonicalizeFloat (f : UInt32) : UInt32 :=
  canonicalizeOf isNanFloat (createFloat 0 0b11111111 ((1 : UInt32) <<< 22)) f

def canonicalizeDouble (d : UInt64) : UInt64 :=
  canonicalizeOf isNanDouble (createDouble 0 0b11111111111 ((1 : UInt64) <<< 51)) d

theorem isNanOf_eq {f : BinaryFormat} {allOnes : Nat} (h : allOnes = 2 ^ f.eBits - 1) (x : Nat) :
    isNanOf f allOnes x = f.isNaN x := by
  rw [Bool.eq_iff_iff, isNaN_iff, isNanOf, h]
  simp

theorem isNanFloat_eq (f : UInt32) : isNanFloat f = binary32.isNaN f.toNat :=
  isNanOf_eq (by decide) _

theorem isNanDouble_eq (d : UInt64) : isNanDouble d = binary64.isNaN d.toNat :=
  isNanOf_eq (by decide) _

theorem createFloat_quietNaN :
    (createFloat 0 0b11111111 ((1 : UInt32) <<< 22)).toNat = binary32.quietNaN := by
  decide

theorem createDouble_quietNaN :
    (createDouble 0 0b11111111111 ((1 : UInt64) <<< 51)).toNat = binary64.quietNaN := by
  decide

theorem toNat_canonicalizeFloat (f : UInt32) :
    (canonicalizeFloat f).toNat = canonicalizeOf binary32.isNaN binary32.quietNaN f.toNat := by
  unfold canonicalizeFloat canonicalizeOf
  rw [isNanFloat_eq]
  split <;> simp [createFloat_quietNaN]

theorem toNat_canonicalizeDouble (d : UInt64) :
    (canonicalizeDouble d).toNat = canonicalizeOf binary64.isNaN binary64.quietNaN d.toNat := by
  unfold canonicalizeDouble canonicalizeOf
  rw [isNanDouble_eq]
  split <;> simp [createDouble_quietNaN]

end FrescoDB.Util

namespace FrescoDB.Common

open FrescoDB.Lib FrescoDB.Util BinaryFormat

/-- The members of the `value` oneof of `QLValuePB` that a key column holds, save
`inetaddress_value`, `uuid_value`, `timeuuid_value` and `frozen_value`. `int8_value` and
`int16_value` are `int32` fields; `decimal_value` and `varint_value` hold comparable encodings. -/
inductive QLValuePB where
  | int8Value (v : Int32)
  | int16Value (v : Int32)
  | int32Value (v : Int32)
  | int64Value (v : Int64)
  | floatValue (bits : UInt32)
  | doubleValue (bits : UInt64)
  | stringValue (v : List UInt8)
  | boolValue (v : Bool)
  | timestampValue (v : Int64)
  | binaryValue (v : List UInt8)
  | decimalValue (v : List UInt8)
  | varintValue (v : List UInt8)
  | dateValue (v : UInt32)
  | timeValue (v : Int64)
  | uint32Value (v : UInt32)
  deriving DecidableEq, Repr

/-- `GenericCompare`: `-1`, `1` or `0` by the type's `operator<`. -/
def genericCompare {α : Type} (lt : α → α → Bool) (lhs rhs : α) : Int :=
  if lt lhs rhs then -1 else if lt rhs lhs then 1 else 0

/-- `Compare(bool, bool)`: Cassandra orders `false` before `true`. -/
def compareBool (lhs rhs : Bool) : Int :=
  if lhs then (if rhs then 0 else 1) else (if rhs then -1 else 0)

/-- `std::string::compare`, by its sign: the bytes compare as unsigned characters. -/
def stringCompare (lhs rhs : List UInt8) : Int :=
  match compare lhs rhs with
  | .lt => -1
  | .eq => 0
  | .gt => 1

/-- The `kFloatValue` and `kDoubleValue` cases of `Compare`: NaNs first, then `GenericCompare`. -/
def compareFloating {α : Type} (isNan : α → Bool) (lt : α → α → Bool) (lhs rhs : α) : Int :=
  let isNan0 := isNan lhs
  let isNan1 := isNan rhs
  if isNan0 && isNan1 then 0
  else if isNan0 && !isNan1 then 1
  else if !isNan0 && isNan1 then -1
  else genericCompare lt lhs rhs

namespace QLValuePB

/-- `Compare(const QLValuePB&, const QLValuePB&)`; `none` is the failure of
`CHECK(Comparable(lhs, rhs))`, values of two different members. -/
def compare : QLValuePB → QLValuePB → Option Int
  | int8Value a, int8Value b | int16Value a, int16Value b | int32Value a, int32Value b =>
    some (genericCompare (fun x y => decide (x < y)) a b)
  | int64Value a, int64Value b | timestampValue a, timestampValue b
  | timeValue a, timeValue b => some (genericCompare (fun x y => decide (x < y)) a b)
  | uint32Value a, uint32Value b | dateValue a, dateValue b =>
    some (genericCompare (fun x y => decide (x < y)) a b)
  | floatValue a, floatValue b =>
    some (compareFloating isNanFloat (fun x y => binary32.lt x.toNat y.toNat) a b)
  | doubleValue a, doubleValue b =>
    some (compareFloating isNanDouble (fun x y => binary64.lt x.toNat y.toNat) a b)
  | decimalValue a, decimalValue b | varintValue a, varintValue b
  | stringValue a, stringValue b | binaryValue a, binaryValue b => some (stringCompare a b)
  | boolValue a, boolValue b => some (compareBool a b)
  | _, _ => none

end QLValuePB

/-- Read through the bit patterns, the floating-point cases of `Compare` are `compareFloating` of
the format's NaN test and `<`. -/
theorem compareFloating_toNat {α : Type} (toNat : α → Nat) (f : BinaryFormat) {isNan : α → Bool}
    (h : ∀ x, isNan x = f.isNaN (toNat x)) (a b : α) :
    compareFloating isNan (fun x y => f.lt (toNat x) (toNat y)) a b =
      compareFloating f.isNaN f.lt (toNat a) (toNat b) := by
  simp only [compareFloating, genericCompare, h]

end FrescoDB.Common
