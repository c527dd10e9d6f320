import FrescoDB.Docdb.PrimitiveValue
import FrescoDB.Util.FastUnsignedVarint
import FrescoDB.Util.VarInt
import FrescoDB.Lib.ExceptStep

/-! `Value` (`docdb/value.{h,cc}`): a stored DocDB value is a header of
optional control fields followed by a primitive value. Each field is tagged by
a value type byte and written only when it differs from its default: merge
flags (an unsigned varint), the hybrid time of the intent the value was applied
from, the TTL (a signed varint of milliseconds) and the user timestamp (eight
big-endian bytes), in this order. `Decode` reads the four fields;
`DecodePrimitiveValueType`, which the compaction filter calls, reads all but
the intent's hybrid time. `PrimitiveValue::ToValue` is given here; its inverse
`DecodeFromValue` enters `Decode` as a parameter. -/
namespace FrescoDB.Docdb

open FrescoDB.Lib FrescoDB.Util FrescoDB.Common ValueType

/-- `MonoDelta`: a signed number of nanoseconds. -/
structure MonoDelta where
  nanoDelta : Int64
  deriving DecidableEq, Repr

namespace MonoDelta

/-- `MonoTime::kNanosecondsPerMillisecond`. -/
def kNanosecondsPerMillisecond : Int64 := 1000000

/-- `FromMilliseconds`; `none` is its failed `CHECK_LE`, which keeps the product in 64 bits. -/
def fromMilliseconds (ms : Int64) : Option MonoDelta :=
  if ms ≤ Int64.maxValue / kNanosecondsPerMillisecond then some ⟨ms * kNanosecondsPerMillisecond⟩
  else none

/-- `ToMilliseconds`: the quotient, truncated toward zero. -/
def toMilliseconds (d : MonoDelta) : Int64 := d.nanoDelta / kNanosecondsPerMillisecond

theorem fromMilliseconds_toMilliseconds (d : MonoDelta) :
    fromMilliseconds d.toMilliseconds =
      some ⟨d.toMilliseconds * kNanosecondsPerMillisecond⟩ := by
  have hlo := Int64.le_toInt d.nanoDelta
  have hhi := Int64.toInt_lt d.nanoDelta
  -- the truncated quotient of a 64-bit number by a million is at most the largest one's
  have hq : d.nanoDelta.toInt.tdiv 1000000 ≤ 9223372036854 ∧
      -9223372036854 ≤ d.nanoDelta.toInt.tdiv 1000000 := by
    rcases le_or_gt 0 d.nanoDelta.toInt with h | h
    · rw [Int.tdiv_eq_ediv_of_nonneg h]
      omega
    · rw [show d.nanoDelta.toInt.tdiv 1000000 = -((-d.nanoDelta.toInt).tdiv 1000000) by
          rw [Int.neg_tdiv, neg_neg], Int.tdiv_eq_ediv_of_nonneg (by omega)]
      omega
  have hms : d.toMilliseconds.toInt = d.nanoDelta.toInt.tdiv 1000000 := by
    rw [toMilliseconds, Int64.toInt_div, show kNanosecondsPerMillisecond.toInt = 1000000
      from rfl, Int.bmod_eq_of_le (by omega) (by omega)]
  have hmax : (Int64.maxValue / kNanosecondsPerMillisecond).toInt = 9223372036854 := by
    decide
  rw [fromMilliseconds, if_pos (Int64.le_iff_toInt_le.mpr (by omega))]

end MonoDelta

/-- `Value::kMaxTtl`, which is `common::kMaxTtl`. -/
def kMaxTtl : MonoDelta := ⟨Int64.maxValue⟩

/-- `Value::kInvalidUserTimestamp`, which is `common::kInvalidUserTimestamp`. -/
def kInvalidUserTimestamp : Int64 := Int64.minValue

/-- `Value::kBytesPerInt64`. -/
def kBytesPerInt64 : Nat := 8

/-- `PrimitiveValue::kCompleteJsonb`. -/
def kCompleteJsonb : Int64 := 1

/-- `DecodeValueType(slice)`: the first byte, or `kInvalid` for an empty slice. The enumeration's
underlying type is `char`, so the cast compares with an enumerator as its byte does. -/
def decodeValueType (slice : List UInt8) : UInt8 :=
  match slice with
  | [] => kInvalid.toByte
  | b :: _ => b

namespace PrimitiveValue

variable [UuidVersion]

/-- `PrimitiveValue::ToValue`: the value type byte, then the member in its value form; a frozen
value is written as its key. `none` is the `LOG(FATAL)` of an array index and the
`FATAL_INVALID_ENUM_VALUE` that ends the types with no value form. A member that `type_` does not
select is never built by the source. -/
def toValue (v : PrimitiveValue) : Option (List UInt8) :=
  let result := [v.type.toByte]
  match v with
  | ofType t =>
    if t ∈ [kNullDescending, kNull, kCounter, kSSForward, kSSReverse, kFalse, kTrue,
        kFalseDescending, kTrueDescending, kTombstone, kObject, kArray, kRedisTS, kRedisList,
        kRedisSortedSet, kRedisSet] then some result
    else none
  | str kStringDescending s | str kString s | str kDecimalDescending s | str kDecimal s
  | str kVarIntDescending s | str kVarInt s => some (result ++ s)
  | str kJsonb s => some (appendBigEndianUInt64 kCompleteJsonb.toUInt64 result ++ s)
  | int32 kInt32Descending x | int32 kInt32 x | int32 kWriteId x =>
    some (appendBigEndianUInt32 x.toUInt32 result)
  | uint32 kUInt32Descending x | uint32 kUInt32 x => some (appendBigEndianUInt32 x result)
  | int64 kInt64Descending x | int64 kInt64 x => some (appendBigEndianUInt64 x.toUInt64 result)
  | double kDoubleDescending x | double kDouble x => some (appendBigEndianUInt64 x result)
  | float kFloatDescending x | float kFloat x => some (appendBigEndianUInt32 x result)
  | frozen kFrozenDescending _ | frozen kFrozen _ => some (appendToKey v [])
  | timestamp kTimestampDescending x | timestamp kTimestamp x =>
    some (appendBigEndianUInt64 x.toUInt64 result)
  | inetaddress kInetaddressDescending a | inetaddress kInetaddress a => some (result ++ a.toBytes)
  | uuid kUuidDescending u | uuid kTransactionId u | uuid kTableId u | uuid kUuid u =>
    some (result ++ u.encodeToComparable)
  | _ => none

end PrimitiveValue

/-- `Value`. `intentDocHt` starts as `DocHybridTime()`: an invalid hybrid time and the default
write id. -/
structure Value where
  primitiveValue : PrimitiveValue
  ttl : MonoDelta := kMaxTtl
  userTimestamp : Int64 := kInvalidUserTimestamp
  mergeFlags : UInt64 := 0
  intentDocHt : DocHybridTime := ⟨HybridTime.kInvalid, kDefaultWriteId⟩

/-- What `DecodePrimitiveValueType` reports: the value type byte after the fields it reads, and
those fields. -/
structure DecodedPrimitiveValueType where
  valueType : UInt8
  mergeFlags : UInt64
  ttl : MonoDelta
  userTimestamp : Int64
  deriving DecidableEq, Repr

/-- `RETURN_NOT_OK_PREPEND`: the message goes before the error's, with `": "` between them unless
the error's message is empty. -/
def prependError {α : Type} (msg : String) (r : Except String α) : Except String α :=
  r.mapError fun e => if e.isEmpty then msg else msg ++ ": " ++ e

namespace Value

/-- `DecodeType`: the slice past the value type byte when it is the expected one, `none` when
the field is absent. -/
def decodeType (expectedValueType : ValueType) (slice : List UInt8) : Option (List UInt8) :=
  if decodeValueType slice = expectedValueType.toByte then some slice.tail else none

/-- The shape of the four field decoders: `DecodeType` with the field's default, then the
decoding of the field's bytes when it is present. -/
def decodeTypedField {α : Type} (expectedValueType : ValueType) (defaultValue : α)
    (decodeBody : List UInt8 → Except String (α × List UInt8)) (slice : List UInt8) :
    Except String (α × List UInt8) :=
  match decodeType expectedValueType slice with
  | none => .ok (defaultValue, slice)
  | some s => decodeBody s

/-- `Value::DecodeMergeFlags`. -/
def decodeMergeFlags (slice : List UInt8) : Except String (UInt64 × List UInt8) :=
  decodeTypedField kMergeFlags 0 fastDecodeUnsignedVarIntSlice slice

/-- `DecodeIntentDocHT`. -/
def decodeIntentDocHT (slice : List UInt8) : Except String (DocHybridTime × List UInt8) :=
  decodeTypedField kHybridTime DocHybridTime.kInvalid DocHybridTime.decodeFrom slice

/-- The bytes of a TTL: `FromMilliseconds` of the signed varint. -/
def decodeTTLBody (slice : List UInt8) : Except String (MonoDelta × List UInt8) := do
  let (ms, slice) ← fastDecodeSignedVarIntSlice slice
  match MonoDelta.fromMilliseconds ms with
  | some ttl => return (ttl, slice)
  | none => throw "Check failed: ms <= kint64max / MonoTime::kNanosecondsPerMillisecond"

/-- `Value::DecodeTTL(Slice*)`. -/
def decodeTTL (slice : List UInt8) : Except String (MonoDelta × List UInt8) :=
  decodeTypedField kTtl kMaxTtl decodeTTLBody slice

/-- The bytes of a user timestamp. The message of the short case asks for `$1` and `$2` of two
arguments: `Substitute` finds the format invalid and returns the empty string. -/
def decodeUserTimestampBody (slice : List UInt8) : Except String (Int64 × List UInt8) :=
  if slice.length < kBytesPerInt64 then throw ""
  else return ((load64 slice).toInt64, slice.drop kBytesPerInt64)

/-- `Value::DecodeUserTimestamp(Slice*)`. -/
def decodeUserTimestamp (slice : List UInt8) : Except String (Int64 × List UInt8) :=
  decodeTypedField kUserTimestamp kInvalidUserTimestamp decodeUserTimestampBody slice

/-- `Value::DecodeTTL(const Slice&)`: merge flags, then the TTL. -/
def decodeTTLOfValue (rocksdbValue : List UInt8) : Except String MonoDelta := do
  let (_, slice) ← decodeMergeFlags rocksdbValue
  let (ttl, _) ← decodeTTL slice
  return ttl

/-- `Value::DecodeUserTimestamp(const Slice&)`: the TTL, then the user timestamp. -/
def decodeUserTimestampOfValue (rocksdbValue : List UInt8) : Except String Int64 := do
  let (_, slice) ← decodeTTL rocksdbValue
  let (userTimestamp, _) ← decodeUserTimestamp slice
  return userTimestamp

/-- `Value::DecodeControlFields`: the four fields replace the value's, and the slice is left at
the primitive value. -/
def decodeControlFields (v : Value) (slice : List UInt8) : Except String (Value × List UInt8) := do
  if slice.isEmpty then throw "Cannot decode a value from an empty slice"
  let original := toDebugHexString slice
  let (mergeFlags, slice) ←
    prependError ("Failed to decode merge flags in " ++ original) (decodeMergeFlags slice)
  let (intentDocHt, slice) ←
    prependError ("Failed to decode intent ht in " ++ original) (decodeIntentDocHT slice)
  let (ttl, slice) ← prependError ("Failed to decode TTL in " ++ original) (decodeTTL slice)
  let (userTimestamp, slice) ←
    prependError ("Failed to decode user timestamp in " ++ original) (decodeUserTimestamp slice)
  return ({ v with mergeFlags, intentDocHt, ttl, userTimestamp }, slice)

/-- `Value::Decode`, with `PrimitiveValue::DecodeFromValue` as `decodeFromValue`. -/
def decode (decodeFromValue : List UInt8 → Except String PrimitiveValue) (v : Value)
    (rocksdbValue : List UInt8) : Except String Value := do
  let (v, slice) ← decodeControlFields v rocksdbValue
  let primitiveValue ← prependError ("Failed to decode value in " ++ toDebugHexString rocksdbValue)
    (decodeFromValue slice)
  return { v with primitiveValue }

/-- `Value::DecodePrimitiveValueType`: merge flags, TTL and user timestamp, then the value type
of what follows them. -/
def decodePrimitiveValueType (rocksdbValue : List UInt8) :
    Except String DecodedPrimitiveValueType := do
  let (mergeFlags, slice) ← decodeMergeFlags rocksdbValue
  let (ttl, slice) ← decodeTTL slice
  let (userTimestamp, slice) ← decodeUserTimestamp slice
  return ⟨decodeValueType slice, mergeFlags, ttl, userTimestamp⟩

section Encode

variable [UuidVersion]

/-- `Value::EncodeAndAppend`: the fields that differ from their defaults, then the external value
if there is one and the primitive value's `ToValue` otherwise. -/
def encodeAndAppend (v : Value) (valueBytes : List UInt8) (externalValue : Option (List UInt8)) :
    Option (List UInt8) :=
  let valueBytes :=
    if v.mergeFlags ≠ 0 then valueBytes ++ kMergeFlags.toByte :: fastEncodeUnsignedVarInt v.mergeFlags
    else valueBytes
  let valueBytes :=
    if v.intentDocHt.isValid then
      v.intentDocHt.appendEncodedInDocDbFormat (valueBytes ++ [kHybridTime.toByte])
    else valueBytes
  let valueBytes :=
    if v.ttl ≠ kMaxTtl then valueBytes ++ kTtl.toByte :: fastEncodeSignedVarInt v.ttl.toMilliseconds
    else valueBytes
  let valueBytes :=
    if v.userTimestamp ≠ kInvalidUserTimestamp then
      appendBigEndianUInt64 v.userTimestamp.toUInt64 (valueBytes ++ [kUserTimestamp.toByte])
    else valueBytes
  match externalValue with
  | none => v.primitiveValue.toValue.map (valueBytes ++ ·)
  | some e => some (valueBytes ++ e)

/-- `Value::Encode`. -/
def encode (v : Value) (externalValue : Option (List UInt8)) : Option (List UInt8) :=
  encodeAndAppend v [] externalValue

end Encode

/-! The fields as `EncodeAndAppend` writes them. -/

/-- A control field: its value type byte and its bytes when it is present. -/
def optionalField (present : Bool) (tag : ValueType) (bytes : List UInt8) : List UInt8 :=
  if present then tag.toByte :: bytes else []

-- Equation lemmas, made once before their uses.
section
attribute [local simp] optionalField
end

def mergeFlagsField (v : Value) : List UInt8 :=
  optionalField (v.mergeFlags ≠ 0) kMergeFlags (fastEncodeUnsignedVarInt v.mergeFlags)

def intentDocHtField (v : Value) : List UInt8 :=
  optionalField v.intentDocHt.isValid kHybridTime v.intentDocHt.encodedInDocDbFormat

def ttlField (v : Value) : List UInt8 :=
  optionalField (v.ttl ≠ kMaxTtl) kTtl (fastEncodeSignedVarInt v.ttl.toMilliseconds)

def userTimestampField (v : Value) : List UInt8 :=
  optionalField (v.userTimestamp ≠ kInvalidUserTimestamp) kUserTimestamp
    (store64 v.userTimestamp.toUInt64)

/-- The header of control fields `EncodeAndAppend` writes before the primitive value. -/
def encodedControlFields (v : Value) : List UInt8 :=
  v.mergeFlagsField ++ v.intentDocHtField ++ v.ttlField ++ v.userTimestampField

/-- The TTL that decoding gives back: the whole milliseconds `EncodeAndAppend` writes. -/
def decodedTtl (v : Value) : MonoDelta :=
  if v.ttl = kMaxTtl then kMaxTtl else ⟨v.ttl.toMilliseconds * MonoDelta.kNanosecondsPerMillisecond⟩

/-- The value types that tag a control field. -/
def controlFieldTypes : List ValueType := [kMergeFlags, kHybridTime, kTtl, kUserTimestamp]

/-! Each step of `EncodeAndAppend` appends one field. -/

theorem append_mergeFlagsField (v : Value) (b : List UInt8) :
    (if v.mergeFlags ≠ 0 then b ++ kMergeFlags.toByte :: fastEncodeUnsignedVarInt v.mergeFlags
      else b) = b ++ v.mergeFlagsField := by
  by_cases h : v.mergeFlags = 0 <;> simp [mergeFlagsField, optionalField, h]

theorem append_intentDocHtField (v : Value) (b : List UInt8) :
    (if v.intentDocHt.isValid then v.intentDocHt.appendEncodedInDocDbFormat (b ++ [kHybridTime.toByte])
      else b) = b ++ v.intentDocHtField := by
  cases h : v.intentDocHt.isValid <;>
    simp [intentDocHtField, optionalField, h, DocHybridTime.appendEncodedInDocDbFormat]

theorem append_ttlField (v : Value) (b : List UInt8) :
    (if v.ttl ≠ kMaxTtl then b ++ kTtl.toByte :: fastEncodeSignedVarInt v.ttl.toMilliseconds
      else b) = b ++ v.ttlField := by
  by_cases h : v.ttl = kMaxTtl <;> simp [ttlField, optionalField, h]

theorem append_userTimestampField (v : Value) (b : List UInt8) :
    (if v.userTimestamp ≠ kInvalidUserTimestamp then
        appendBigEndianUInt64 v.userTimestamp.toUInt64 (b ++ [kUserTimestamp.toByte])
      else b) = b ++ v.userTimestampField := by
  by_cases h : v.userTimestamp = kInvalidUserTimestamp <;>
    simp [userTimestampField, optionalField, h, appendBigEndianUInt64]

section Encode

variable [UuidVersion]

theorem encodeAndAppend_eq (v : Value) (valueBytes : List UInt8) (externalValue : Option (List UInt8)) :
    v.encodeAndAppend valueBytes externalValue =
      (match externalValue with
        | none => v.primitiveValue.toValue
        | some e => some e).map (valueBytes ++ v.encodedControlFields ++ ·) := by
  simp only [encodeAndAppend, append_mergeFlagsField, append_intentDocHtField, append_ttlField,
    append_userTimestampField, encodedControlFields]
  cases externalValue <;> simp

end Encode

/-! Decoding the fields. -/

@[simp] theorem decodeValueType_cons (b : UInt8) (s : List UInt8) : decodeValueType (b :: s) = b :=
  rfl

theorem decodeValueType_optionalField_ne {present : Bool} {tag t : ValueType} {bytes s : List UInt8}
    (htag : tag.toByte ≠ t.toByte) (hs : decodeValueType s ≠ t.toByte) :
    decodeValueType (optionalField present tag bytes ++ s) ≠ t.toByte := by
  cases present <;> simpa [optionalField]

theorem decodeTypedField_cons_self {α : Type} {tag : ValueType} {defaultValue : α}
    {decodeBody : List UInt8 → Except String (α × List UInt8)} (s : List UInt8) :
    decodeTypedField tag defaultValue decodeBody (tag.toByte :: s) = decodeBody s := by
  simp [decodeTypedField, decodeType]

/-- A field decoder gives its default, and keeps the slice, when the slice starts with another
tag. -/
theorem decodeTypedField_of_ne {α : Type} {tag : ValueType} {defaultValue : α}
    {decodeBody : List UInt8 → Except String (α × List UInt8)} {s : List UInt8}
    (h : decodeValueType s ≠ tag.toByte) :
    decodeTypedField tag defaultValue decodeBody s = .ok (defaultValue, s) := by
  simp [decodeTypedField, decodeType, h]

/-- A field decoder reads its field back, or gives its default when the field is absent and what
follows does not start with its tag. -/
theorem decodeTypedField_optionalField {α : Type} {tag : ValueType} {defaultValue a : α}
    {decodeBody : List UInt8 → Except String (α × List UInt8)} {present : Bool}
    {bytes s : List UInt8} (hpresent : present = true → decodeBody (bytes ++ s) = .ok (a, s))
    (habsent : present = false → a = defaultValue ∧ decodeValueType s ≠ tag.toByte) :
    decodeTypedField tag defaultValue decodeBody (optionalField present tag bytes ++ s) =
      .ok (a, s) := by
  cases present with
  | true => exact (decodeTypedField_cons_self _).trans (hpresent rfl)
  | false =>
    obtain ⟨rfl, hne⟩ := habsent rfl
    exact decodeTypedField_of_ne hne

theorem decodeTTLBody_encode (d : MonoDelta) (s : List UInt8) :
    decodeTTLBody (fastEncodeSignedVarInt d.toMilliseconds ++ s) =
      .ok (⟨d.toMilliseconds * MonoDelta.kNanosecondsPerMillisecond⟩, s) := by
  simp [decodeTTLBody, fastDecodeSignedVarIntSlice_encode, MonoDelta.fromMilliseconds_toMilliseconds]

theorem decodeUserTimestampBody_encode (u : Int64) (s : List UInt8) :
    decodeUserTimestampBody (store64 u.toUInt64 ++ s) = .ok (u, s) := by
  have hlen : (store64 u.toUInt64 ++ s).length = 8 + s.length := by simp [store64]
  simp only [decodeUserTimestampBody, hlen, kBytesPerInt64, load64_store64]
  simp [store64]

theorem decodeMergeFlags_mergeFlagsField (v : Value) {s : List UInt8}
    (hs : v.mergeFlags = 0 → decodeValueType s ≠ kMergeFlags.toByte) :
    decodeMergeFlags (v.mergeFlagsField ++ s) = .ok (v.mergeFlags, s) :=
  decodeTypedField_optionalField (fun _ => fastDecodeUnsignedVarIntSlice_encode _ _)
    (fun h => by simp at h; exact ⟨h, hs h⟩)

theorem decodeIntentDocHT_intentDocHtField (v : Value) {s : List UInt8}
    (hs : v.intentDocHt.isValid = false → decodeValueType s ≠ kHybridTime.toByte) :
    decodeIntentDocHT (v.intentDocHtField ++ s) =
      .ok (if v.intentDocHt.isValid then v.intentDocHt else DocHybridTime.kInvalid, s) :=
  decodeTypedField_optionalField
    (fun h => by rw [if_pos h]; exact DocHybridTime.decodeFrom_encodedInDocDbFormat _ _)
    (fun h => ⟨by rw [h, if_neg (by decide)], hs h⟩)

theorem decodeTTL_ttlField (v : Value) {s : List UInt8}
    (hs : v.ttl = kMaxTtl → decodeValueType s ≠ kTtl.toByte) :
    decodeTTL (v.ttlField ++ s) = .ok (v.decodedTtl, s) :=
  decodeTypedField_optionalField
    (fun h => by simp at h; rw [decodedTtl, if_neg h]; exact decodeTTLBody_encode _ _)
    (fun h => by simp at h; exact ⟨by rw [decodedTtl, if_pos h], hs h⟩)

theorem decodeUserTimestamp_userTimestampField (v : Value) {s : List UInt8}
    (hs : v.userTimestamp = kInvalidUserTimestamp → decodeValueType s ≠ kUserTimestamp.toByte) :
    decodeUserTimestamp (v.userTimestampField ++ s) = .ok (v.userTimestamp, s) :=
  decodeTypedField_optionalField (fun _ => decodeUserTimestampBody_encode _ _)
    (fun h => by simp at h; exact ⟨h, hs h⟩)

end Value

namespace PrimitiveValue

variable [UuidVersion]

theorem toValue_head {v : PrimitiveValue} {p : List UInt8} (h : v.toValue = some p) :
    p = v.type.toByte :: p.tail ∧ v.type ∉ Value.controlFieldTypes := by
  unfold toValue at h
  split at h
  case h_1 t =>
    split at h
    · rename_i hmem
      cases h
      refine ⟨rfl, fun hc => ?_⟩
      simp only [Value.controlFieldTypes, List.mem_cons, List.not_mem_nil, or_false] at hmem hc
      rcases hc with rfl | rfl | rfl | rfl <;> simp at hmem
    · cases h
  -- the other cases write the type byte first; a frozen value writes its key
  all_goals first
    | (cases h; exact ⟨rfl, by simp [Value.controlFieldTypes, type]⟩)
    | (cases h
       refine ⟨?_, by simp [Value.controlFieldTypes, type]⟩
       rw [← toKeyBytes, toKeyBytes_eq_cons]
       rfl)
    | cases h

end PrimitiveValue

namespace Value

/-- The header of a value written without an intent time, read field by field. -/
structure HeaderReads (x : Value) (p : List UInt8) : Prop where
  mergeFlags : decodeMergeFlags (x.encodedControlFields ++ p) =
    .ok (x.mergeFlags, x.ttlField ++ (x.userTimestampField ++ p))
  intentDocHt : decodeIntentDocHT (x.ttlField ++ (x.userTimestampField ++ p)) =
    .ok (DocHybridTime.kInvalid, x.ttlField ++ (x.userTimestampField ++ p))
  ttl : decodeTTL (x.ttlField ++ (x.userTimestampField ++ p)) = .ok (x.decodedTtl, x.userTimestampField ++ p)
  userTimestamp : decodeUserTimestamp (x.userTimestampField ++ p) = .ok (x.userTimestamp, p)

/-- Each decoder reads its field of a header with no intent time, when what follows the header
starts with no control field's tag. -/
theorem headerReads {x : Value} {p : List UInt8} (hintent : x.intentDocHt.isValid = false)
    (hp : ∀ t ∈ controlFieldTypes, decodeValueType p ≠ t.toByte) : HeaderReads x p := by
  have hfield : x.intentDocHtField = [] := by simp [intentDocHtField, optionalField, hintent]
  have hne : ∀ t ∈ controlFieldTypes, t ≠ kUserTimestamp → t ≠ kTtl →
      decodeValueType (x.ttlField ++ (x.userTimestampField ++ p)) ≠ t.toByte := by
    intro t ht hu htt
    apply decodeValueType_optionalField_ne fun h => htt (ValueType.toByte_injective h).symm
    exact decodeValueType_optionalField_ne (fun h => hu (ValueType.toByte_injective h).symm) (hp t ht)
  have hcontrol : x.encodedControlFields ++ p = x.mergeFlagsField ++ (x.ttlField ++ (x.userTimestampField ++ p)) := by
    simp [encodedControlFields, hfield]
  have hi := x.decodeIntentDocHT_intentDocHtField (s := x.ttlField ++ (x.userTimestampField ++ p))
    fun _ => hne kHybridTime (by simp [controlFieldTypes]) (by decide) (by decide)
  rw [hfield, hintent, List.nil_append] at hi
  refine ⟨?_, hi, ?_, ?_⟩
  · rw [hcontrol]
    exact x.decodeMergeFlags_mergeFlagsField fun _ =>
      hne kMergeFlags (by simp [controlFieldTypes]) (by decide) (by decide)
  · exact x.decodeTTL_ttlField fun _ =>
      decodeValueType_optionalField_ne (by decide) (hp kTtl (by simp [controlFieldTypes]))
  · exact x.decodeUserTimestamp_userTimestampField fun _ =>
      hp kUserTimestamp (by simp [controlFieldTypes])

section Encoded

variable [UuidVersion]

/-- What `Value::Encode` writes without an external value: the header, then what `ToValue`
wrote, which starts with the primitive value's type and so with no control field's tag. -/
theorem encode_none_eq {x : Value} {e : List UInt8} (he : x.encode none = some e) :
    ∃ p, x.primitiveValue.toValue = some p ∧ e = x.encodedControlFields ++ p ∧ p ≠ [] ∧
      decodeValueType p = x.primitiveValue.type.toByte ∧
      ∀ t ∈ controlFieldTypes, decodeValueType p ≠ t.toByte := by
  rw [encode, encodeAndAppend_eq] at he
  dsimp only at he
  obtain ⟨p, hp, rfl⟩ := Option.map_eq_some_iff.mp he
  obtain ⟨hcons, htype⟩ := PrimitiveValue.toValue_head hp
  have hhead : decodeValueType p = x.primitiveValue.type.toByte := by
    rw [hcons]
    rfl
  refine ⟨p, hp, by simp, by rw [hcons]; exact List.cons_ne_nil _ _, hhead, ?_⟩
  intro t ht heq
  rw [hhead] at heq
  exact htype (ValueType.toByte_injective heq ▸ ht)

/-- `Value::Encode` of a value without an intent time decodes back: `DecodeControlFields` gives its
fields (the TTL in whole milliseconds) and stops at what `ToValue` wrote, and
`DecodePrimitiveValueType` agrees with it. -/
theorem encode_decodeControlFields (v x : Value) {e : List UInt8} (he : x.encode none = some e)
    (hintent : x.intentDocHt.isValid = false) :
    ∃ p, x.primitiveValue.toValue = some p ∧ e = x.encodedControlFields ++ p ∧
      decodeControlFields v e =
        .ok ({ v with
          mergeFlags := x.mergeFlags
          intentDocHt := DocHybridTime.kInvalid
          ttl := x.decodedTtl
          userTimestamp := x.userTimestamp }, p) ∧
      decodePrimitiveValueType e =
        .ok ⟨x.primitiveValue.type.toByte, x.mergeFlags, x.decodedTtl, x.userTimestamp⟩ := by
  obtain ⟨p, hp, rfl, hnil, hhead, hne⟩ := encode_none_eq he
  have hr := headerReads hintent hne
  have hempty : (x.encodedControlFields ++ p).isEmpty = false := by
    simp [hnil]
  refine ⟨p, hp, rfl, ?_, ?_⟩
  · simp [decodeControlFields, hempty, hr.mergeFlags, hr.intentDocHt, hr.ttl, hr.userTimestamp,
      prependError]
  · simp [decodePrimitiveValueType, hr.mergeFlags, hr.ttl, hr.userTimestamp, hhead]

/-- A value applied from an intent is stored as `kHybridTime`, the intent's time, then
`Value::Encode` of the value the transaction wrote. `DecodePrimitiveValueType` reads no intent
time: it stops at the tag `kHybridTime` and reports it as the value type, with no merge flags,
TTL or user timestamp. `DecodeControlFields` reads the intent time and then, for a value without
merge flags, the value's own TTL and user timestamp, up to what `ToValue` wrote, whose type is
not `kHybridTime`; for a value with merge flags it leaves their field, tag first, in front of the
primitive value. -/
theorem decodePrimitiveValueType_intentValue_mismatch (v x : Value) (d : DocHybridTime)
    {e : List UInt8} (he : x.encode none = some e) (hintent : x.intentDocHt.isValid = false) :
    decodePrimitiveValueType (kHybridTime.toByte :: d.encodedInDocDbFormat ++ e) =
        .ok ⟨kHybridTime.toByte, 0, kMaxTtl, kInvalidUserTimestamp⟩ ∧
      ∃ p, x.primitiveValue.toValue = some p ∧
        decodeValueType p = x.primitiveValue.type.toByte ∧ x.primitiveValue.type ≠ kHybridTime ∧
        (x.mergeFlags = 0 →
          decodeControlFields v (kHybridTime.toByte :: d.encodedInDocDbFormat ++ e) =
            .ok ({ v with
              mergeFlags := 0
              intentDocHt := d
              ttl := x.decodedTtl
              userTimestamp := x.userTimestamp }, p)) ∧
        (x.mergeFlags ≠ 0 → decodeValueType e = kMergeFlags.toByte ∧
          decodeControlFields v (kHybridTime.toByte :: d.encodedInDocDbFormat ++ e) =
            .ok ({ v with
              mergeFlags := 0
              intentDocHt := d
              ttl := kMaxTtl
              userTimestamp := kInvalidUserTimestamp }, e)) := by
  obtain ⟨p, hp, rfl, -, hhead, hne⟩ := encode_none_eq he
  have hr := headerReads hintent hne
  rw [List.cons_append]
  -- every decoder that does not expect `kHybridTime` gives its default at the intent's tag
  have hm := @decodeTypedField_of_ne _ kMergeFlags 0 fastDecodeUnsignedVarIntSlice
    (kHybridTime.toByte :: (d.encodedInDocDbFormat ++ (x.encodedControlFields ++ p)))
    (show kHybridTime.toByte ≠ kMergeFlags.toByte by decide)
  have hi : decodeIntentDocHT (kHybridTime.toByte :: (d.encodedInDocDbFormat ++
      (x.encodedControlFields ++ p))) = .ok (d, x.encodedControlFields ++ p) :=
    (decodeTypedField_cons_self _).trans (DocHybridTime.decodeFrom_encodedInDocDbFormat _ _)
  have htype : x.primitiveValue.type ≠ kHybridTime := fun h =>
    hne kHybridTime (by simp [controlFieldTypes]) (by rw [hhead, h])
  refine ⟨?_, p, hp, hhead, htype, ?_, ?_⟩
  · have ht := @decodeTypedField_of_ne _ kTtl kMaxTtl decodeTTLBody
      (kHybridTime.toByte :: (d.encodedInDocDbFormat ++ (x.encodedControlFields ++ p)))
      (show kHybridTime.toByte ≠ kTtl.toByte by decide)
    have hu := @decodeTypedField_of_ne _ kUserTimestamp kInvalidUserTimestamp decodeUserTimestampBody
      (kHybridTime.toByte :: (d.encodedInDocDbFormat ++ (x.encodedControlFields ++ p)))
      (show kHybridTime.toByte ≠ kUserTimestamp.toByte by decide)
    simp [decodePrimitiveValueType, decodeMergeFlags, decodeTTL, decodeUserTimestamp, hm, ht, hu]
  · -- without merge flags the header after the intent time is the value's TTL and user timestamp
    intro h0
    have hcf : x.encodedControlFields ++ p = x.ttlField ++ (x.userTimestampField ++ p) := by
      simp [encodedControlFields, mergeFlagsField, intentDocHtField, optionalField, h0, hintent]
    rw [hcf] at hi hm ⊢
    simp [decodeControlFields, decodeMergeFlags, hm, hi, hr.ttl, hr.userTimestamp, prependError]
  · -- with merge flags the TTL and user timestamp decoders meet the merge flags' tag
    intro h0
    have hfirst : decodeValueType (x.encodedControlFields ++ p) = kMergeFlags.toByte := by
      simp [encodedControlFields, mergeFlagsField, optionalField, h0]
    have ht := @decodeTypedField_of_ne _ kTtl kMaxTtl decodeTTLBody (x.encodedControlFields ++ p)
      (by rw [hfirst]; decide)
    have hu := @decodeTypedField_of_ne _ kUserTimestamp kInvalidUserTimestamp
      decodeUserTimestampBody (x.encodedControlFields ++ p) (by rw [hfirst]; decide)
    refine ⟨hfirst, ?_⟩
    simp [decodeControlFields, decodeMergeFlags, decodeTTL, decodeUserTimestamp, hm, hi, ht, hu,
      prependError]

end Encoded

/-- A 32-bit integer written with a TTL of two seconds and applied from an intent at hybrid time
`4096`: the compaction filter's decoder reports the type `kHybridTime` and no TTL, while
`DecodeControlFields` reads the intent time and the TTL. -/
theorem decodePrimitiveValueType_intentValue_mismatch_ttl :
    @encode nibbleVersion { primitiveValue := .int32 kInt32 5, ttl := ⟨2000000000⟩ } none =
        some [116, 199, 208, 72, 0, 0, 0, 5] ∧
      decodePrimitiveValueType (kHybridTime.toByte ::
          DocHybridTime.encodedInDocDbFormat ⟨⟨4096⟩, 0⟩ ++ [116, 199, 208, 72, 0, 0, 0, 5]) =
        .ok ⟨kHybridTime.toByte, 0, kMaxTtl, kInvalidUserTimestamp⟩ ∧
      decodeControlFields { primitiveValue := .ofType kNull } (kHybridTime.toByte ::
          DocHybridTime.encodedInDocDbFormat ⟨⟨4096⟩, 0⟩ ++ [116, 199, 208, 72, 0, 0, 0, 5]) =
        .ok ({ primitiveValue := .ofType kNull, ttl := ⟨2000000000⟩, intentDocHt := ⟨⟨4096⟩, 0⟩ },
          [72, 0, 0, 0, 5]) := by
  have he : @encode nibbleVersion { primitiveValue := .int32 kInt32 5, ttl := ⟨2000000000⟩ } none =
      some [116, 199, 208, 72, 0, 0, 0, 5] := by
    decide
  obtain ⟨hpv, p, hp, -, -, hno, -⟩ := @decodePrimitiveValueType_intentValue_mismatch nibbleVersion
    { primitiveValue := .ofType kNull } _ ⟨⟨4096⟩, 0⟩ _ he rfl
  have hp' : p = [72, 0, 0, 0, 5] := by
    have hv : @PrimitiveValue.toValue nibbleVersion (.int32 kInt32 5) = some [72, 0, 0, 0, 5] := by
      decide
    exact Option.some.inj (hp.symm.trans hv)
  have httl : decodedTtl { primitiveValue := .int32 kInt32 5, ttl := ⟨2000000000⟩ } = ⟨2000000000⟩ := by
    decide
  refine ⟨he, hpv, ?_⟩
  rw [hno rfl, hp', httl]

end Value

end FrescoDB.Docdb
