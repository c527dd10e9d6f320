import FrescoDB.Docdb.ValueType
import FrescoDB.Docdb.DocKvUtil
import FrescoDB.Docdb.Intent
import FrescoDB.Util.Uuid
import FrescoDB.Util.InetAddress
import FrescoDB.Common.DocHybridTime
import FrescoDB.Lib.Ieee

/-! `PrimitiveValue` (`docdb/primitive_value.{h,cc}`): a value type and the
member of the union it selects, its key encoding `AppendToKey`, and the
in-memory `CompareTo` and `operator==`. Floating-point members are held as
their bit patterns; decimals and varints as their comparable encodings, as
the source holds them in `decimal_val_` and `varint_val_`. -/
namespace FrescoDB.Docdb

open FrescoDB.Lib FrescoDB.Util FrescoDB.Common

/-- `PrimitiveValue`: `type_` with the union member the source reads for it. `ofType` holds the
types with no member; `str` holds `str_val_`, `decimal_val_`, `varint_val_` and `json_val_`. -/
inductive PrimitiveValue where
  | ofType (type : ValueType)
  | str (type : ValueType) (v : List UInt8)
  | int32 (type : ValueType) (v : Int32)
  | uint32 (type : ValueType) (v : UInt32)
  | int64 (type : ValueType) (v : Int64)
  | uint16 (type : ValueType) (v : UInt16)
  | float (type : ValueType) (bits : UInt32)
  | double (type : ValueType) (bits : UInt64)
  | timestamp (type : ValueType) (v : Int64)
  | inetaddress (type : ValueType) (v : InetAddress)
  | uuid (type : ValueType) (v : Uuid)
  | hybridTime (v : DocHybridTime)
  | columnId (type : ValueType) (v : Int32)
  | frozen (type : ValueType) (vs : List PrimitiveValue)

namespace PrimitiveValue

open ValueType

/-- `value_type()`. -/
def type : PrimitiveValue → ValueType
  | ofType t | str t _ | int32 t _ | uint32 t _ | int64 t _ | uint16 t _ | float t _
  | double t _ | timestamp t _ | inetaddress t _ | uuid t _ | columnId t _ | frozen t _ => t
  | hybridTime _ => kHybridTime

/-- The types `AppendToKey` writes without a payload. -/
def noPayloadTypes : List ValueType :=
  [kLowest, kHighest, kMaxByte, kNullDescending, kNull, kCounter, kSSForward, kSSReverse, kFalse,
    kTrue, kFalseDescending, kTrueDescending]

/-- `KeyBytes::AppendDecimalDescending`, `AppendVarIntDescending`: every byte is complemented,
except for the encoding of zero, whose first byte `128` is kept alone. -/
def appendComparableDescending (encoded dest : List UInt8) : List UInt8 :=
  if encoded.headD 0 = 128 then dest ++ [encoded.headD 0] else dest ++ encoded.map (~~~·)

theorem appendComparableDescending_eq (encoded kb : List UInt8) :
    appendComparableDescending encoded kb = kb ++ appendComparableDescending encoded [] := by
  unfold appendComparableDescending
  split <;> rfl

/-- `AppendIntentTypeSet`: the byte `static_cast<char>(intent_type_set.ToUIntPtr())`. -/
def appendIntentTypeSet (s : IntentTypeSet) (dest : List UInt8) : List UInt8 :=
  dest ++ [s.toUIntPtr.toUInt8]

variable [UuidVersion]

/-- The cases of `AppendToKey` after the value type byte, except frozen values. A member that
`type_` does not select is never built by the source; it writes nothing more here. -/
def appendPayloadToKey (v : PrimitiveValue) (kb : List UInt8) : List UInt8 :=
  match v with
  | str kString s => zeroEncodeAndAppendStrToKey s kb
  | str kStringDescending s => complementZeroEncodeAndAppendStrToKey s kb
  | int64 kInt64 x => appendInt64ToKey x kb
  | int32 kInt32 x | int32 kWriteId x => appendInt32ToKey x kb
  | uint32 kUInt32 x => appendUInt32ToKey x kb
  | uint32 kUInt32Descending x => appendUInt32ToKey (~~~x) kb
  | int32 kInt32Descending x => appendInt32ToKey (~~~x) kb
  | int64 kInt64Descending x => appendInt64ToKey (~~~x) kb
  | double kDouble x => appendDoubleToKey x kb false
  | double kDoubleDescending x => appendDoubleToKey x kb true
  | float kFloat x => appendFloatToKey x kb false
  | float kFloatDescending x => appendFloatToKey x kb true
  | str kDecimal s => kb ++ s
  | str kDecimalDescending s => appendComparableDescending s kb
  | str kVarInt s => kb ++ s
  | str kVarIntDescending s => appendComparableDescending s kb
  | timestamp kTimestamp x => appendInt64ToKey x kb
  | timestamp kTimestampDescending x => appendInt64ToKey (~~~x) kb
  | inetaddress kInetaddress a => zeroEncodeAndAppendStrToKey a.toBytes kb
  | inetaddress kInetaddressDescending a => complementZeroEncodeAndAppendStrToKey a.toBytes kb
  | uuid kTransactionId u | uuid kTableId u | uuid kUuid u =>
    zeroEncodeAndAppendStrToKey u.encodeToComparable kb
  | uuid kUuidDescending u => complementZeroEncodeAndAppendStrToKey u.encodeToComparable kb
  | int64 kArrayIndex x => appendInt64ToKey x kb
  | hybridTime d => d.appendEncodedInDocDbFormat kb
  | uint16 kUInt16Hash x => appendUInt16ToKey x kb
  | columnId kColumnId c | columnId kSystemColumnId c => appendColumnIdToKey c kb
  | uint16 kObsoleteIntentType x => appendIntentTypeSet (obsoleteIntentTypeToSet x.toUInt8) kb
  | uint16 kObsoleteIntentTypeSet x =>
    appendIntentTypeSet (obsoleteIntentTypeSetToNew x.toUInt8) kb
  | uint16 kIntentTypeSet x => appendIntentTypeSet (IntentTypeSet.ofNat x.toNat) kb
  | _ => kb

-- Equation lemmas, made once before their uses.
section
attribute [local simp] type appendPayloadToKey
end

mutual

/-- `AppendToKey`: the value type byte, then the payload; a frozen value writes its elements and
a group end marker of its direction. -/
def appendToKey : PrimitiveValue → List UInt8 → List UInt8
  | frozen t vs, kb =>
    appendFrozenToKey vs (kb ++ [t.toByte]) ++
      [if t = kFrozenDescending then kGroupEndDescending.toByte else kGroupEnd.toByte]
  | v, kb => appendPayloadToKey v (kb ++ [v.type.toByte])

/-- The loop of `AppendToKey` over `*frozen_val_`. -/
def appendFrozenToKey : List PrimitiveValue → List UInt8 → List UInt8
  | [], kb => kb
  | v :: vs, kb => appendFrozenToKey vs (appendToKey v kb)

end

theorem appendPayloadToKey_eq (v : PrimitiveValue) (kb : List UInt8) :
    appendPayloadToKey v kb = kb ++ appendPayloadToKey v [] := by
  unfold appendPayloadToKey
  split <;> first
    | exact appendComparableDescending_eq _ _
    | simp [zeroEncodeAndAppendStrToKey_eq, complementZeroEncodeAndAppendStrToKey_eq,
        appendInt64ToKey, appendInt32ToKey, appendUInt32ToKey, appendDoubleToKey, appendFloatToKey,
        appendUInt16ToKey, appendColumnIdToKey, appendIntentTypeSet,
        DocHybridTime.appendEncodedInDocDbFormat]

/-- Whether a value is frozen, the one case of `AppendToKey` that recurses. -/
def isFrozen : PrimitiveValue → Bool
  | frozen _ _ => true
  | _ => false

theorem appendToKey_of_not_frozen {v : PrimitiveValue} (h : v.isFrozen = false) (kb : List UInt8) :
    appendToKey v kb = appendPayloadToKey v (kb ++ [v.type.toByte]) :=
  appendToKey.eq_2 v kb fun t vs hv => by simp [hv, isFrozen] at h

mutual

theorem appendToKey_eq_append :
    ∀ (v : PrimitiveValue) (kb : List UInt8), appendToKey v kb = kb ++ appendToKey v []
  | frozen t vs, kb => by
    rw [appendToKey, appendToKey, appendFrozenToKey_eq_append vs,
      appendFrozenToKey_eq_append vs ([] ++ _)]
    simp
  | ofType _, kb | str _ _, kb | int32 _ _, kb | uint32 _ _, kb | int64 _ _, kb
  | uint16 _ _, kb | float _ _, kb | double _ _, kb | timestamp _ _, kb | inetaddress _ _, kb
  | uuid _ _, kb | hybridTime _, kb | columnId _ _, kb => by
    rw [appendToKey_of_not_frozen rfl, appendToKey_of_not_frozen rfl, appendPayloadToKey_eq,
      appendPayloadToKey_eq _ ([] ++ _)]
    simp

theorem appendFrozenToKey_eq_append :
    ∀ (vs : List PrimitiveValue) (kb : List UInt8), appendFrozenToKey vs kb = kb ++ appendFrozenToKey vs []
  | [], kb => by simp [appendFrozenToKey]
  | v :: vs, kb => by
    rw [appendFrozenToKey, appendFrozenToKey, appendFrozenToKey_eq_append vs,
      appendToKey_eq_append v kb, appendFrozenToKey_eq_append vs (appendToKey v [])]
    simp

end

/-- `ToKeyBytes`. -/
def toKeyBytes (v : PrimitiveValue) : List UInt8 := appendToKey v []

theorem toKeyBytes_eq_cons (v : PrimitiveValue) : toKeyBytes v = v.type.toByte :: (toKeyBytes v).tail := by
  cases v with
  | frozen t vs =>
    rw [toKeyBytes, appendToKey, appendFrozenToKey_eq_append vs]
    rfl
  | _ =>
    rw [toKeyBytes, appendToKey_of_not_frozen (by rfl), appendPayloadToKey_eq]
    rfl

/-- `CompareUsingLessThan` on a type with a decidable `<`. -/
def compareLt {α : Type} [LT α] [DecidableRel (α := α) (· < ·)] (a b : α) : Ordering :=
  compareUsingLessThan (fun x y => decide (x < y)) a b

/-- The cases of `CompareTo` for two values of one type, except frozen values. The types that no
case handles end in `LOG(FATAL)` in the source; they give `eq` here. -/
def comparePayload (a b : PrimitiveValue) : Ordering :=
  match a, b with
  | ofType _, ofType _ => .eq
  | str kStringDescending s, str _ s' => compare s' s
  | str kString s, str _ s' => compare s s'
  | int64 kInt64Descending x, int64 _ y => compareLt y x
  | int32 kInt32Descending x, int32 _ y => compareLt y x
  | int32 kInt32 x, int32 _ y | int32 kWriteId x, int32 _ y => compareLt x y
  | uint32 kUInt32Descending x, uint32 _ y => compareLt y x
  | uint32 kUInt32 x, uint32 _ y => compareLt x y
  | int64 kInt64 x, int64 _ y | int64 kArrayIndex x, int64 _ y => compareLt x y
  | double kDoubleDescending x, double _ y =>
    compareUsingLessThan (fun p q : UInt64 => BinaryFormat.binary64.lt p.toNat q.toNat) y x
  | double kDouble x, double _ y =>
    compareUsingLessThan (fun p q : UInt64 => BinaryFormat.binary64.lt p.toNat q.toNat) x y
  | float kFloatDescending x, float _ y =>
    compareUsingLessThan (fun p q : UInt32 => BinaryFormat.binary32.lt p.toNat q.toNat) y x
  | float kFloat x, float _ y =>
    compareUsingLessThan (fun p q : UInt32 => BinaryFormat.binary32.lt p.toNat q.toNat) x y
  | str kDecimalDescending s, str _ s' => compare s' s
  | str kDecimal s, str _ s' => compare s s'
  | str kVarIntDescending s, str _ s' => compare s' s
  | str kVarInt s, str _ s' => compare s s'
  | uint16 _ x, uint16 _ y => compareLt x y
  | timestamp kTimestampDescending x, timestamp _ y => compareLt y x
  | timestamp kTimestamp x, timestamp _ y => compareLt x y
  | inetaddress kInetaddress x, inetaddress _ y => compareUsingLessThan InetAddress.lt x y
  | inetaddress kInetaddressDescending x, inetaddress _ y => compareUsingLessThan InetAddress.lt y x
  | uuid kTransactionId u, uuid _ u' | uuid kTableId u, uuid _ u'
  | uuid kUuidDescending u, uuid _ u' => compareUsingLessThan Uuid.lt u' u
  | uuid kUuid u, uuid _ u' => compareUsingLessThan Uuid.lt u u'
  | columnId _ c, columnId _ c' => compareLt c c'
  -- Hybrid times sort in reverse order when wrapped in a `PrimitiveValue`.
  | hybridTime d, hybridTime d' => (d.compareTo d').swap
  | _, _ => .eq

mutual

/-- `CompareTo`: by value type (as the `int` values of the enumerators), then by payload; frozen
values element by element, then by size, reversed for `kFrozenDescending`. -/
def compareTo : PrimitiveValue → PrimitiveValue → Ordering
  | a, b =>
    match compareLt a.type.toInt b.type.toInt with
    | .eq =>
      match a, b with
      | frozen t as, frozen _ bs =>
        match compareElements as bs with
        | .eq => if t = kFrozenDescending then compare bs.length as.length
                 else compare as.length bs.length
        | r => r
      | a, b => comparePayload a b
    | r => r

/-- The loop of `CompareTo` over the first `min_size` elements. -/
def compareElements : List PrimitiveValue → List PrimitiveValue → Ordering
  | a :: as, b :: bs =>
    match compareTo a b with
    | .eq => compareElements as bs
    | r => r
  | _, _ => .eq

end

-- Equation lemmas, made once before their uses.
section
attribute [local simp] comparePayload compareTo compareElements
end

end PrimitiveValue

end FrescoDB.Docdb
