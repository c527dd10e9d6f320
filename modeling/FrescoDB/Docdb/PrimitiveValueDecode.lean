import FrescoDB.Docdb.PrimitiveValue
import FrescoDB.Util.Decimal
import FrescoDB.Lib.ExceptStep

/-! `PrimitiveValue::DecodeKey` (`docdb/primitive_value.cc`), with an output value: the value
type byte selects how the rest of the slice is read, and the value is returned with what is left
of the slice. Strings, addresses and UUIDs are read up to their escaped terminator, numbers from
their fixed widths, decimals and varints from their comparable encodings (negated back for a
descending column and held re-encoded), column ids from a signed varint, and a frozen value
element by element up to the group end marker of its direction. -/
namespace FrescoDB.Docdb

open FrescoDB.Lib FrescoDB.Util FrescoDB.Common ValueType

namespace PrimitiveValue

/-- The message of a key component decoder, reported as a `Corruption`. -/
def corruption {α : Type} (r : Except String α) : Except Status α :=
  r.mapError fun message => ⟨.kCorruption, message⟩

/-- The message of `InetAddress::FromBytes` and `Uuid::DecodeFromComparable`, reported as an
`InvalidArgument`. -/
def invalidArgument {α : Type} (r : Except String α) : Except Status α :=
  r.mapError fun message => ⟨.kInvalidArgument, message⟩

/-- `ColumnId::FromInt64`: a column id is a non-negative `int32_t`. -/
def columnIdFromInt64 (value : Int64) : Except Status Int32 :=
  if value.toInt > Int32.maxValue.toInt ∨ value.toInt < 0 then
    .error ⟨.kCorruption, toString value.toInt ++ " not valid for column id representation"⟩
  else .ok value.toInt32

/-- The fixed-width cases of `DecodeKey`: `size` bytes are read, or the slice is too short. -/
def decodeFixed {α : Type} (size : Nat) (tooShort : Nat → String) (read : List UInt8 → α)
    (slice : List UInt8) : Except Status (α × List UInt8) :=
  if slice.length < size then .error ⟨.kCorruption, tooShort slice.length⟩
  else .ok (read slice, slice.drop size)

/-- The decimal cases of `DecodeKey`: the comparable encoding is read, negated back for a
descending column, and held re-encoded. -/
def decodeDecimalKey (descending : Bool) (slice : List UInt8) :
    Except Status (List UInt8 × List UInt8) := do
  let (decimal, numDecodedBytes) ← Decimal.decodeFromComparable slice
  let decimal := if descending then decimal.negate else decimal
  pure (decimal.encodeToComparable, slice.drop numDecodedBytes)

/-- The varint cases of `DecodeKey`, as the decimal ones. -/
def decodeVarIntKey (descending : Bool) (slice : List UInt8) :
    Except Status (List UInt8 × List UInt8) := do
  let (varint, numDecodedBytes) ← corruption (VarInt.decodeFromComparable slice 0)
  let varint := if descending then VarInt.negate varint else varint
  pure (VarInt.encodeToComparable varint 0, slice.drop numDecodedBytes)

/-- The types `DecodeKey` reads without a payload. `kMaxByte`, which `AppendToKey` writes without
one, is not among them. -/
def decodedWithoutPayload : List ValueType :=
  [kNullDescending, kNull, kCounter, kSSForward, kSSReverse, kFalse, kTrue, kFalseDescending,
    kTrueDescending, kHighest, kLowest]

/-- The `Corruption` of the types `DecodeKey` does not read; the source adds the name of the type
and a debug print of the slice. -/
def cannotDecode : Status := ⟨.kCorruption, "Cannot decode value type from the key encoding format"⟩

/-- The cases of `DecodeKey` after the value type byte, except frozen values. -/
def decodeKeyPayload (t : ValueType) (slice : List UInt8) :
    Except Status (PrimitiveValue × List UInt8) :=
  if t ∈ decodedWithoutPayload then .ok (ofType t, slice)
  else match t with
  | kStringDescending => do
    let (s, rest) ← corruption (decodeComplementZeroEncodedStr slice)
    pure (str t s, rest)
  | kString => do
    let (s, rest) ← corruption (decodeZeroEncodedStr slice)
    pure (str t s, rest)
  | kDecimalDescending | kDecimal => do
    let (s, rest) ← decodeDecimalKey (t = kDecimalDescending) slice
    pure (str t s, rest)
  | kVarIntDescending | kVarInt => do
    let (s, rest) ← decodeVarIntKey (t = kVarIntDescending) slice
    pure (str t s, rest)
  | kInt32Descending | kInt32 | kWriteId =>
    decodeFixed 4 (fun n => "Not enough bytes to decode a 32-bit integer: " ++ toString n)
      (fun s =>
        let x := (load32 s ^^^ kInt32SignBitFlipMask).toInt32
        int32 t (if t = kInt32Descending then ~~~x else x)) slice
  | kUInt32Descending | kUInt32 =>
    decodeFixed 4 (fun n => "Not enough bytes to decode a 32-bit integer: " ++ toString n)
      (fun s => uint32 t (if t = kUInt32Descending then ~~~load32 s else load32 s)) slice
  | kInt64Descending | kInt64 | kArrayIndex =>
    decodeFixed 8 (fun n => "Not enough bytes to decode a 64-bit integer: " ++ toString n)
      (fun s =>
        int64 t (if t = kInt64Descending then ~~~decodeInt64FromKey s else decodeInt64FromKey s))
      slice
  | kUInt16Hash =>
    decodeFixed 2 (fun n => "Not enough bytes to decode a 16-bit hash: " ++ toString n)
      (fun s => uint16 t (load16 s)) slice
  | kTimestampDescending | kTimestamp =>
    decodeFixed 8 (fun n => "Not enough bytes to decode a Timestamp: " ++ toString n ++ ", need 8")
      (fun s => timestamp t
        (if t = kTimestampDescending then ~~~decodeInt64FromKey s else decodeInt64FromKey s))
      slice
  | kInetaddress => do
    let (bytes, rest) ← corruption (decodeZeroEncodedStr slice)
    let a ← invalidArgument (InetAddress.fromBytes bytes)
    pure (inetaddress t a, rest)
  | kInetaddressDescending => do
    let (bytes, rest) ← corruption (decodeComplementZeroEncodedStr slice)
    let a ← invalidArgument (InetAddress.fromBytes bytes)
    pure (inetaddress t a, rest)
  | kTransactionId | kTableId | kUuid => do
    let (bytes, rest) ← corruption (decodeZeroEncodedStr slice)
    let u ← invalidArgument (Uuid.decodeFromComparableSlice bytes)
    pure (uuid t u, rest)
  | kUuidDescending => do
    let (bytes, rest) ← corruption (decodeComplementZeroEncodedStr slice)
    let u ← invalidArgument (Uuid.decodeFromComparableSlice bytes)
    pure (uuid t u, rest)
  | kColumnId | kSystemColumnId => do
    let (c, rest) ← corruption (fastDecodeSignedVarIntSlice slice)
    let c ← columnIdFromInt64 c
    pure (columnId t c, rest)
  | kHybridTime => do
    let (d, rest) ← corruption (DocHybridTime.decodeFrom slice)
    pure (hybridTime d, rest)
  | kIntentTypeSet | kObsoleteIntentTypeSet | kObsoleteIntentType =>
    -- the source reads and consumes the byte without checking that there is one
    .ok (uint16 t (slice.headD 0).toUInt16, slice.tail)
  | kFloatDescending | kFloat =>
    decodeFixed 4 (fun n => "Not enough bytes to decode a float: " ++ toString n)
      (fun s => float t (decodeFloatFromKey s (t = kFloatDescending))) slice
  | kDoubleDescending | kDouble =>
    decodeFixed 8 (fun n => "Not enough bytes to decode a float: " ++ toString n)
      (fun s => double t (decodeDoubleFromKey s (t = kDoubleDescending))) slice
  | _ => .error cannotDecode

/-- The `Corruption` of an empty slice; the source adds a debug print of it. -/
def emptySlice : Status :=
  ⟨.kCorruption, "Cannot decode a primitive value in the key encoding format from an empty slice: "⟩

mutual

/-- `DecodeKey`, its recursion into frozen values bounded by `fuel`; `decodeKey` gives enough. -/
def decodeKeyFuel : Nat → List UInt8 → Except Status (PrimitiveValue × List UInt8)
  | _, [] => .error emptySlice
  | 0, _ :: _ => .error cannotDecode
  | fuel + 1, b :: slice =>
    match ValueType.ofByte b with
    | some kFrozenDescending => do
      let (vs, rest) ← decodeFrozenFuel fuel kGroupEndDescending slice []
      pure (frozen kFrozenDescending vs, rest)
    | some kFrozen => do
      let (vs, rest) ← decodeFrozenFuel fuel kGroupEnd slice []
      pure (frozen kFrozen vs, rest)
    | some t => decodeKeyPayload t slice
    | none => .error cannotDecode

/-- The loop of `DecodeKey` over the elements of a frozen value, up to `endMarker`. -/
def decodeFrozenFuel : Nat → ValueType → List UInt8 → List PrimitiveValue →
    Except Status (List PrimitiveValue × List UInt8)
  | _, _, [], _ => .error ⟨.kCorruption, "Reached end of slice looking for frozen group end marker"⟩
  | 0, _, _ :: _, _ => .error cannotDecode
  | fuel + 1, endMarker, c :: rest, acc =>
    if c = endMarker.toByte then .ok (acc, rest)
    else do
      let (v, rest') ← decodeKeyFuel fuel (c :: rest)
      decodeFrozenFuel fuel endMarker rest' (acc ++ [v])

end

-- Equation lemmas, made once before their uses.
section
attribute [local simp] decodeKeyFuel decodeFrozenFuel
end

/-- `DecodeKey`. Every value takes its type byte, and a value and the loop over a frozen one's
elements each take one step of fuel, so twice the length of the slice is never the limit. -/
def decodeKey (slice : List UInt8) : Except Status (PrimitiveValue × List UInt8) :=
  decodeKeyFuel (2 * slice.length) slice

end PrimitiveValue

end FrescoDB.Docdb
