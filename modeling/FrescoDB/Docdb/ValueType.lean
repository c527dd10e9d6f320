import Mathlib

/-! The DocDB value type bytes (`docdb/value_type.h`).
Every encoded key component and every stored value starts with one of these
bytes; their numeric order is what makes group ends and hybrid times sort
below every primitive value. -/
namespace FrescoDB.Docdb

/-- `DOCDB_VALUE_TYPES`, in the order of the source. -/
inductive ValueType where
  | kLowest | kObsoleteIntentPrefix | kIntentTypeSet | kObsoleteIntentTypeSet | kObsoleteIntentType
  | kGroupEnd | kHybridTime | kNull | kCounter | kSSForward | kSSReverse | kRedisSet | kRedisList
  | kRedisTS | kRedisSortedSet | kInetaddress | kInetaddressDescending | kJsonb | kFrozen
  | kFrozenDescending | kArray | kVarInt | kFloat | kDouble | kDecimal | kFalse | kUInt16Hash
  | kInt32 | kInt64 | kSystemColumnId | kColumnId | kDoubleDescending | kFloatDescending | kUInt32
  | kString | kTrue | kTombstone | kArrayIndex | kUuid | kUuidDescending | kStringDescending
  | kInt64Descending | kTimestampDescending | kDecimalDescending | kInt32Descending
  | kVarIntDescending | kUInt32Descending | kTrueDescending | kFalseDescending | kMergeFlags
  | kTimestamp | kTtl | kUserTimestamp | kWriteId | kTransactionId | kTableId | kObject
  | kNullDescending | kGroupEndDescending | kHighest | kInvalid | kMaxByte
  deriving DecidableEq, Repr

namespace ValueType

/-- The byte `AppendValueType` writes: `static_cast<char>(value_type)`. -/
def toByte : ValueType → UInt8
  | kLowest => 0 | kObsoleteIntentPrefix => 10 | kIntentTypeSet => 13
  | kObsoleteIntentTypeSet => 15 | kObsoleteIntentType => 20 | kGroupEnd => 33
  | kHybridTime => 35 | kNull => 36 | kCounter => 37 | kSSForward => 38 | kSSReverse => 39
  | kRedisSet => 40 | kRedisList => 41 | kRedisTS => 43 | kRedisSortedSet => 44
  | kInetaddress => 45 | kInetaddressDescending => 46 | kJsonb => 50 | kFrozen => 60
  | kFrozenDescending => 62 | kArray => 65 | kVarInt => 66 | kFloat => 67 | kDouble => 68
  | kDecimal => 69 | kFalse => 70 | kUInt16Hash => 71 | kInt32 => 72 | kInt64 => 73
  | kSystemColumnId => 74 | kColumnId => 75 | kDoubleDescending => 76 | kFloatDescending => 77
  | kUInt32 => 79 | kString => 83 | kTrue => 84 | kTombstone => 88 | kArrayIndex => 91
  | kUuid => 95 | kUuidDescending => 96 | kStringDescending => 97 | kInt64Descending => 98
  | kTimestampDescending => 99 | kDecimalDescending => 100 | kInt32Descending => 101
  | kVarIntDescending => 102 | kUInt32Descending => 103 | kTrueDescending => 104
  | kFalseDescending => 105 | kMergeFlags => 107 | kTimestamp => 115 | kTtl => 116
  | kUserTimestamp => 117 | kWriteId => 119 | kTransactionId => 120 | kTableId => 121
  | kObject => 123 | kNullDescending => 124 | kGroupEndDescending => 125 | kHighest => 126
  | kInvalid => 127 | kMaxByte => 255

/-- The enumerator's value in the `enum class`, whose underlying type is `int`. `kMaxByte` is
the literal `'\xff'`, a `char` that is `-1` where `char` is signed (x86-64): it sorts below
`kLowest` in `CompareUsingLessThan(type_, other.type_)` although its byte sorts above all. -/
def toInt (t : ValueType) : Int :=
  if t = kMaxByte then -1 else t.toByte.toNat

/-- `static_cast<ValueType>(byte)` for the bytes that name an enumerator; `none` for the others,
which no `switch` of the source handles. -/
def ofByte (b : UInt8) : Option ValueType :=
  match b.toNat with
  | 0 => some kLowest | 10 => some kObsoleteIntentPrefix | 13 => some kIntentTypeSet
  | 15 => some kObsoleteIntentTypeSet | 20 => some kObsoleteIntentType | 33 => some kGroupEnd
  | 35 => some kHybridTime | 36 => some kNull | 37 => some kCounter | 38 => some kSSForward
  | 39 => some kSSReverse | 40 => some kRedisSet | 41 => some kRedisList | 43 => some kRedisTS
  | 44 => some kRedisSortedSet | 45 => some kInetaddress | 46 => some kInetaddressDescending
  | 50 => some kJsonb | 60 => some kFrozen | 62 => some kFrozenDescending | 65 => some kArray
  | 66 => some kVarInt | 67 => some kFloat | 68 => some kDouble | 69 => some kDecimal
  | 70 => some kFalse | 71 => some kUInt16Hash | 72 => some kInt32 | 73 => some kInt64
  | 74 => some kSystemColumnId | 75 => some kColumnId | 76 => some kDoubleDescending
  | 77 => some kFloatDescending | 79 => some kUInt32 | 83 => some kString | 84 => some kTrue
  | 88 => some kTombstone | 91 => some kArrayIndex | 95 => some kUuid | 96 => some kUuidDescending
  | 97 => some kStringDescending | 98 => some kInt64Descending | 99 => some kTimestampDescending
  | 100 => some kDecimalDescending | 101 => some kInt32Descending | 102 => some kVarIntDescending
  | 103 => some kUInt32Descending | 104 => some kTrueDescending | 105 => some kFalseDescending
  | 107 => some kMergeFlags | 115 => some kTimestamp | 116 => some kTtl
  | 117 => some kUserTimestamp | 119 => some kWriteId | 120 => some kTransactionId
  | 121 => some kTableId | 123 => some kObject | 124 => some kNullDescending
  | 125 => some kGroupEndDescending | 126 => some kHighest | 127 => some kInvalid
  | 255 => some kMaxByte
  | _ => none

@[simp] theorem ofByte_toByte (t : ValueType) : ofByte t.toByte = some t := by
  cases t <;> rfl

theorem toByte_injective : Function.Injective toByte := by
  intro s t h
  have hs := ofByte_toByte s
  rw [h, ofByte_toByte] at hs
  exact (Option.some.inj hs).symm

theorem toInt_injective : Function.Injective toInt := by
  intro s t h
  unfold toInt at h
  by_cases hs : s = kMaxByte <;> by_cases ht : t = kMaxByte
  · rw [hs, ht]
  · simp only [hs, ht, if_true, if_false] at h
    omega
  · simp only [hs, ht, if_true, if_false] at h
    omega
  · simp only [hs, ht, if_false] at h
    exact toByte_injective (UInt8.toNat_inj.mp (by exact_mod_cast h))

/-- `IsObjectType`. -/
def IsObjectType (t : ValueType) : Bool :=
  t == kRedisTS || t == kObject || t == kRedisSet || t == kRedisSortedSet || t == kSSForward ||
    t == kSSReverse || t == kRedisList

/-- `IsCollectionType`. -/
def IsCollectionType (t : ValueType) : Bool :=
  IsObjectType t || t == kArray

/-- `IsPrimitiveValueType`: between `kNull` and `kNullDescending`, and neither a collection nor a
tombstone. -/
def IsPrimitiveValueType (t : ValueType) : Bool :=
  decide (kNull.toInt ≤ t.toInt) && decide (t.toInt ≤ kNullDescending.toInt) &&
    !IsCollectionType t && t != kTombstone

/-- `IsSpecialValueType`. -/
def IsSpecialValueType (t : ValueType) : Bool :=
  t == kLowest || t == kHighest

/-- `IsPrimitiveOrSpecialValueType`. -/
def IsPrimitiveOrSpecialValueType (t : ValueType) : Bool :=
  IsPrimitiveValueType t || IsSpecialValueType t

/-- `kMinPrimitiveValueType`. -/
def kMinPrimitiveValueType : ValueType := kNull

end ValueType

/-- `SortOrder`. -/
inductive SortOrder where
  | kAscending | kDescending
  deriving DecidableEq, Repr

end FrescoDB.Docdb
