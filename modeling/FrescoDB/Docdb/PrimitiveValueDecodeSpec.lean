import FrescoDB.Docdb.PrimitiveValueDecode
import FrescoDB.Util.DecimalComparable
import FrescoDB.Util.UuidOrder
import FrescoDB.Lib.Bitfield

/-! `DecodeKey` reads back what `AppendToKey` writes: every value whose member fits its type is
decoded from its key encoding, whatever follows it, and exactly that rest is left. A decimal or a
varint must be held as the comparable encoding of a canonical decimal or of a number, a column id
must not be negative and an intent type set must fit its four bits; `kMaxByte`, which
`AppendToKey` writes, and the obsolete intent types, which it converts, are not read back. -/
namespace FrescoDB.Docdb

open FrescoDB.Lib FrescoDB.Util FrescoDB.Common ValueType

namespace PrimitiveValue

/-- The values `DecodeKey` reads back from their key encoding. -/
inductive KeyDecodable : PrimitiveValue → Prop
  | ofType {t : ValueType} (ht : t ∈ decodedWithoutPayload) : KeyDecodable (ofType t)
  | str {t : ValueType} (ht : t ∈ [kString, kStringDescending]) (s : List UInt8) :
      KeyDecodable (str t s)
  | decimal {t : ValueType} (ht : t ∈ [kDecimal, kDecimalDescending]) {d : Decimal}
      (hd : d.Valid) : KeyDecodable (str t d.encodeToComparable)
  | varInt {t : ValueType} (ht : t ∈ [kVarInt, kVarIntDescending]) (v : Int) :
      KeyDecodable (str t (VarInt.encodeToComparable v 0))
  | int32 {t : ValueType} (ht : t ∈ [kInt32, kInt32Descending, kWriteId]) (x : Int32) :
      KeyDecodable (int32 t x)
  | uint32 {t : ValueType} (ht : t ∈ [kUInt32, kUInt32Descending]) (x : UInt32) :
      KeyDecodable (uint32 t x)
  | int64 {t : ValueType} (ht : t ∈ [kInt64, kInt64Descending, kArrayIndex]) (x : Int64) :
      KeyDecodable (int64 t x)
  | uint16Hash (x : UInt16) : KeyDecodable (uint16 kUInt16Hash x)
  | intentTypeSet {x : UInt16} (hx : x.toNat < 16) : KeyDecodable (uint16 kIntentTypeSet x)
  | float {t : ValueType} (ht : t ∈ [kFloat, kFloatDescending]) (bits : UInt32) :
      KeyDecodable (float t bits)
  | double {t : ValueType} (ht : t ∈ [kDouble, kDoubleDescending]) (bits : UInt64) :
      KeyDecodable (double t bits)
  | timestamp {t : ValueType} (ht : t ∈ [kTimestamp, kTimestampDescending]) (x : Int64) :
      KeyDecodable (timestamp t x)
  | inetaddress {t : ValueType} (ht : t ∈ [kInetaddress, kInetaddressDescending])
      (a : InetAddress) : KeyDecodable (inetaddress t a)
  | uuid {t : ValueType} (ht : t ∈ [kTransactionId, kTableId, kUuid, kUuidDescending]) (u : Uuid) :
      KeyDecodable (uuid t u)
  | hybridTime (d : DocHybridTime) : KeyDecodable (hybridTime d)
  | columnId {t : ValueType} (ht : t ∈ [kColumnId, kSystemColumnId]) {c : Int32}
      (hc : 0 ≤ c.toInt) : KeyDecodable (columnId t c)
  | frozen {t : ValueType} (ht : t ∈ [kFrozen, kFrozenDescending]) {vs : List PrimitiveValue}
      (hvs : ∀ v ∈ vs, KeyDecodable v) : KeyDecodable (frozen t vs)

/-! ### Reading the members -/

@[simp] theorem corruption_ok {α : Type} (a : α) : corruption (.ok a : Except String α) = .ok a :=
  rfl

@[simp] theorem invalidArgument_ok {α : Type} (a : α) :
    invalidArgument (.ok a : Except String α) = .ok a :=
  rfl

theorem decodeFixed_append {α : Type} {size : Nat} (tooShort : Nat → String)
    (read : List UInt8 → α) {bytes : List UInt8} (hlen : bytes.length = size) (rest : List UInt8) :
    decodeFixed size tooShort read (bytes ++ rest) = .ok (read (bytes ++ rest), rest) := by
  rw [decodeFixed, if_neg (by rw [List.length_append]; omega), List.drop_left' hlen]

theorem topBit32_iff (y : UInt32) : y >>> 31 ≠ 0 ↔ 2 ^ 31 ≤ y.toNat := by
  rw [ne_eq, ← UInt32.toNat_inj, UInt32.toNat_shiftRight, ← ne_eq]
  exact shiftRight_ne_zero_iff

theorem topBit64_iff (y : UInt64) : y >>> 63 ≠ 0 ↔ 2 ^ 63 ≤ y.toNat := by
  rw [ne_eq, ← UInt64.toNat_inj, UInt64.toNat_shiftRight, ← ne_eq]
  exact shiftRight_ne_zero_iff

theorem decodeFloatFromKey_appendFloatToKey (x : UInt32) (descending : Bool)
    (rest : List UInt8) :
    decodeFloatFromKey (appendFloatToKey x [] descending ++ rest) descending = x := by
  have hmask : kInt32SignBitFlipMask.toNat = 2 ^ 31 := rfl
  have hsize : UInt32.size = 2 ^ 32 := rfl
  -- the word stored, complemented for a descending column, is complemented back
  have hload : (if descending = true then ~~~load32 (appendFloatToKey x [] descending ++ rest)
      else load32 (appendFloatToKey x [] descending ++ rest)) =
      if x >>> 31 ≠ 0 then ~~~x else x ^^^ kInt32SignBitFlipMask := by
    cases descending <;> simp [appendFloatToKey, load32_store32]
  simp only [decodeFloatFromKey]
  rw [hload]
  by_cases hx : x >>> 31 ≠ 0
  · -- a negative pattern was complemented, which clears its sign bit
    have hclear : ¬ (~~~x >>> 31 ≠ 0) := by
      rw [topBit32_iff, UInt32.toNat_not, hsize]
      have := (topBit32_iff x).mp hx
      omega
    rw [if_pos hx, if_neg hclear, UInt32.not_not]
  · -- a positive pattern got its sign bit set
    have hlow := mt (topBit32_iff x).mpr hx
    have hset : (x ^^^ kInt32SignBitFlipMask) >>> 31 ≠ 0 := by
      rw [topBit32_iff, UInt32.toNat_xor, hmask, xor_two_pow_of_lt (by omega)]
      omega
    rw [if_neg hx, if_pos hset, xor_cancel_right]

theorem decodeDoubleFromKey_appendDoubleToKey (x : UInt64) (descending : Bool)
    (rest : List UInt8) :
    decodeDoubleFromKey (appendDoubleToKey x [] descending ++ rest) descending = x := by
  have hmask : kInt64SignBitFlipMask.toNat = 2 ^ 63 := rfl
  have hsize : UInt64.size = 2 ^ 64 := rfl
  have hload : (if descending = true then ~~~load64 (appendDoubleToKey x [] descending ++ rest)
      else load64 (appendDoubleToKey x [] descending ++ rest)) =
      if x >>> 63 ≠ 0 then ~~~x else x ^^^ kInt64SignBitFlipMask := by
    cases descending <;> simp [appendDoubleToKey, load64_store64]
  simp only [decodeDoubleFromKey]
  rw [hload]
  by_cases hx : x >>> 63 ≠ 0
  · have hclear : ¬ (~~~x >>> 63 ≠ 0) := by
      rw [topBit64_iff, UInt64.toNat_not, hsize]
      have := (topBit64_iff x).mp hx
      omega
    rw [if_pos hx, if_neg hclear, UInt64.not_not]
  · have hlow := mt (topBit64_iff x).mpr hx
    have hset : (x ^^^ kInt64SignBitFlipMask) >>> 63 ≠ 0 := by
      rw [topBit64_iff, UInt64.toNat_xor, hmask, xor_two_pow_of_lt (by omega)]
      omega
    rw [if_neg hx, if_pos hset, xor_cancel_right]

/-! ### Decimals and varints -/

theorem appendComparableDescending_of_headD_ne {s : List UInt8} (h : s.headD 0 ≠ 128) :
    appendComparableDescending s [] = VarInt.flipBits s := by
  rw [appendComparableDescending, if_neg h, List.nil_append]
  rfl

theorem decodeFromComparable_zero_head (tl : List UInt8) :
    VarInt.decodeFromComparable (128 :: tl) 0 = .ok (0, 1) := by
  simp [VarInt.decodeFromComparable, VarInt.restoreReservedBits, VarInt.leadingFullBytes,
    VarInt.clearLeadingOnes, bnBin2bn, ofBytesBE]

theorem headD_encodeToComparable_ne {v : Int} (hv : v ≠ 0) :
    (VarInt.encodeToComparable v 0).headD 0 ≠ 128 := by
  intro h
  obtain ⟨c, tl, henc, -⟩ := VarInt.head_encodeToComparable v (r := 0) (by decide)
  rw [henc, List.headD_cons] at h
  subst h
  have hread := VarInt.decodeFromComparable_encodeToComparable v (r := 0) (by decide) []
  rw [henc, List.cons_append, decodeFromComparable_zero_head] at hread
  exact hv (congrArg Prod.fst (Except.ok.inj hread)).symm

theorem headD_decimal_encodeToComparable_ne {d : Decimal} (hne : d.digits ≠ []) :
    d.encodeToComparable.headD 0 ≠ 128 := by
  obtain ⟨c, tl, hc64, -, henc⟩ := Decimal.encodeToComparable_of_ne_nil hne
  obtain ⟨hpos, -, hneg, -⟩ := Decimal.firstByte_set c hc64
  rw [henc]
  split
  · exact hpos
  · exact hneg

theorem decodeDecimalKey_ascending {d : Decimal} (hd : d.Valid) (rest : List UInt8) :
    decodeDecimalKey false (d.encodeToComparable ++ rest) = .ok (d.encodeToComparable, rest) := by
  simp [decodeDecimalKey, Decimal.decodeFromComparable_encodeToComparable hd rest]

theorem decodeDecimalKey_descending {d : Decimal} (hd : d.Valid) (rest : List UInt8) :
    decodeDecimalKey true (appendComparableDescending d.encodeToComparable [] ++ rest) =
      .ok (d.encodeToComparable, rest) := by
  -- zero keeps its one byte; any other encoding is complemented, read as the negation and negated
  by_cases hne : d.digits = []
  · obtain rfl := Decimal.eq_zero_of_digits_eq_nil hd hne
    have hread := Decimal.decodeFromComparable_encodeToComparable Decimal.valid_zero rest
    simp only [decodeDecimalKey, appendComparableDescending]
    simp [Decimal.zero, Decimal.encodeToComparable] at hread ⊢
    simp [hread, Decimal.negate]
  · have hflip := Decimal.encodeToComparable_neg hd hne
    have hread := Decimal.decodeFromComparable_encodeToComparable (Decimal.valid_neg hd) rest
    have hback : d.neg.negate = d := by
      rw [Decimal.neg_of_ne_nil hd hne]
      simp [Decimal.negate]
    rw [appendComparableDescending_of_headD_ne (headD_decimal_encodeToComparable_ne hne), hflip]
    simp [decodeDecimalKey, hread, hback]

theorem decodeVarIntKey_ascending (v : Int) (rest : List UInt8) :
    decodeVarIntKey false (VarInt.encodeToComparable v 0 ++ rest) =
      .ok (VarInt.encodeToComparable v 0, rest) := by
  simp [decodeVarIntKey, VarInt.decodeFromComparable_encodeToComparable v (r := 0) (by decide)]

theorem decodeVarIntKey_descending (v : Int) (rest : List UInt8) :
    decodeVarIntKey true (appendComparableDescending (VarInt.encodeToComparable v 0) [] ++ rest) =
      .ok (VarInt.encodeToComparable v 0, rest) := by
  by_cases hv : v = 0
  · subst hv
    simp [decodeVarIntKey, appendComparableDescending, VarInt.encodeToComparable,
      decodeFromComparable_zero_head, VarInt.negate]
  · have hread := VarInt.decodeFromComparable_encodeToComparable (-v) (r := 0) (by decide) rest
    rw [appendComparableDescending_of_headD_ne (headD_encodeToComparable_ne hv),
      VarInt.flipBits_encodeToComparable hv]
    simp [decodeVarIntKey, hread, VarInt.negate]

/-! ### The other members -/

theorem decodeZeroEncodedStr_zeroEncode (s rest : List UInt8) :
    decodeZeroEncodedStr (zeroEncodeAndAppendStrToKey s [] ++ rest) = .ok (s, rest) := by
  rw [zeroEncodeAndAppendStrToKey_eq, List.nil_append, decodeZeroEncodedStr,
    decodeEncodedStr_escapeEncode]

theorem decodeComplementZeroEncodedStr_complementZeroEncode (s rest : List UInt8) :
    decodeComplementZeroEncodedStr (complementZeroEncodeAndAppendStrToKey s [] ++ rest) =
      .ok (s, rest) := by
  rw [complementZeroEncodeAndAppendStrToKey_eq, List.nil_append, decodeComplementZeroEncodedStr,
    decodeEncodedStr_escapeEncode]

theorem load32_appendInt32ToKey (x : Int32) (rest : List UInt8) :
    (load32 (appendInt32ToKey x [] ++ rest) ^^^ kInt32SignBitFlipMask).toInt32 = x := by
  rw [appendInt32ToKey, List.nil_append, load32_store32, xor_cancel_right, Int32.toInt32_toUInt32]

theorem decodeInt64FromKey_appendInt64ToKey (x : Int64) (rest : List UInt8) :
    decodeInt64FromKey (appendInt64ToKey x [] ++ rest) = x := by
  rw [decodeInt64FromKey, appendInt64ToKey, List.nil_append, load64_store64, xor_cancel_right,
    Int64.toInt64_toUInt64]

theorem columnIdFromInt64_toInt64 {c : Int32} (hc : 0 ≤ c.toInt) :
    columnIdFromInt64 c.toInt64 = .ok c := by
  have hle := Int32.toInt_le c
  rw [columnIdFromInt64, Int32.toInt_toInt64, if_neg (by omega), Int32.toInt32_toInt64]

/-! ### Reading each payload back -/

section Payload

variable [UuidVersion] {t : ValueType} (rest : List UInt8)

theorem decodeKeyPayload_str (ht : t ∈ [kString, kStringDescending]) (s : List UInt8) :
    decodeKeyPayload t (appendPayloadToKey (str t s) [] ++ rest) = .ok (str t s, rest) := by
  simp only [List.mem_cons, List.not_mem_nil, or_false] at ht
  rcases ht with rfl | rfl <;> unfold decodeKeyPayload appendPayloadToKey <;>
    rw [if_neg (by decide)] <;> dsimp only
  · rw [decodeZeroEncodedStr_zeroEncode, corruption_ok, except_ok_bind, except_pure_eq]
  · rw [decodeComplementZeroEncodedStr_complementZeroEncode, corruption_ok, except_ok_bind,
      except_pure_eq]

theorem decodeKeyPayload_decimal (ht : t ∈ [kDecimal, kDecimalDescending]) {d : Decimal}
    (hd : d.Valid) :
    decodeKeyPayload t (appendPayloadToKey (str t d.encodeToComparable) [] ++ rest) =
      .ok (str t d.encodeToComparable, rest) := by
  simp only [List.mem_cons, List.not_mem_nil, or_false] at ht
  rcases ht with rfl | rfl <;> unfold decodeKeyPayload appendPayloadToKey <;>
    rw [if_neg (by decide)] <;> dsimp only
  · rw [List.nil_append, decide_eq_false (by decide), decodeDecimalKey_ascending hd,
      except_ok_bind, except_pure_eq]
  · rw [decide_eq_true rfl, decodeDecimalKey_descending hd, except_ok_bind, except_pure_eq]

theorem decodeKeyPayload_varInt (ht : t ∈ [kVarInt, kVarIntDescending]) (v : Int) :
    decodeKeyPayload t (appendPayloadToKey (str t (VarInt.encodeToComparable v 0)) [] ++ rest) =
      .ok (str t (VarInt.encodeToComparable v 0), rest) := by
  simp only [List.mem_cons, List.not_mem_nil, or_false] at ht
  rcases ht with rfl | rfl <;> unfold decodeKeyPayload appendPayloadToKey <;>
    rw [if_neg (by decide)] <;> dsimp only
  · rw [List.nil_append, decide_eq_false (by decide), decodeVarIntKey_ascending, except_ok_bind,
      except_pure_eq]
  · rw [decide_eq_true rfl, decodeVarIntKey_descending, except_ok_bind, except_pure_eq]

theorem decodeKeyPayload_int32 (ht : t ∈ [kInt32, kInt32Descending, kWriteId]) (x : Int32) :
    decodeKeyPayload t (appendPayloadToKey (int32 t x) [] ++ rest) = .ok (int32 t x, rest) := by
  have hlen (y : Int32) : (appendInt32ToKey y []).length = 4 := by simp [appendInt32ToKey, store32]
  simp only [List.mem_cons, List.not_mem_nil, or_false] at ht
  rcases ht with rfl | rfl | rfl <;> unfold decodeKeyPayload appendPayloadToKey <;>
    rw [if_neg (by decide)] <;> dsimp only <;> rw [decodeFixed_append _ _ (hlen _) rest]
  · rw [if_neg (by decide), load32_appendInt32ToKey]
  · rw [if_pos rfl, load32_appendInt32ToKey, Int32.not_not]
  · rw [if_neg (by decide), load32_appendInt32ToKey]

theorem decodeKeyPayload_uint32 (ht : t ∈ [kUInt32, kUInt32Descending]) (x : UInt32) :
    decodeKeyPayload t (appendPayloadToKey (uint32 t x) [] ++ rest) = .ok (uint32 t x, rest) := by
  have hlen (y : UInt32) : (appendUInt32ToKey y []).length = 4 := by
    simp [appendUInt32ToKey, store32]
  have hload (y : UInt32) : load32 (appendUInt32ToKey y [] ++ rest) = y := by
    rw [appendUInt32ToKey, List.nil_append, load32_store32]
  simp only [List.mem_cons, List.not_mem_nil, or_false] at ht
  rcases ht with rfl | rfl <;> unfold decodeKeyPayload appendPayloadToKey <;>
    rw [if_neg (by decide)] <;> dsimp only <;> rw [decodeFixed_append _ _ (hlen _) rest]
  · rw [if_neg (by decide), hload]
  · rw [if_pos rfl, hload, UInt32.not_not]

theorem decodeKeyPayload_int64 (ht : t ∈ [kInt64, kInt64Descending, kArrayIndex]) (x : Int64) :
    decodeKeyPayload t (appendPayloadToKey (int64 t x) [] ++ rest) = .ok (int64 t x, rest) := by
  have hlen (y : Int64) : (appendInt64ToKey y []).length = 8 := by simp [appendInt64ToKey, store64]
  simp only [List.mem_cons, List.not_mem_nil, or_false] at ht
  rcases ht with rfl | rfl | rfl <;> unfold decodeKeyPayload appendPayloadToKey <;>
    rw [if_neg (by decide)] <;> dsimp only <;> rw [decodeFixed_append _ _ (hlen _) rest]
  · rw [if_neg (by decide), decodeInt64FromKey_appendInt64ToKey]
  · rw [if_pos rfl, decodeInt64FromKey_appendInt64ToKey, Int64.not_not]
  · rw [if_neg (by decide), decodeInt64FromKey_appendInt64ToKey]

theorem decodeKeyPayload_timestamp (ht : t ∈ [kTimestamp, kTimestampDescending]) (x : Int64) :
    decodeKeyPayload t (appendPayloadToKey (timestamp t x) [] ++ rest) =
      .ok (timestamp t x, rest) := by
  have hlen (y : Int64) : (appendInt64ToKey y []).length = 8 := by simp [appendInt64ToKey, store64]
  simp only [List.mem_cons, List.not_mem_nil, or_false] at ht
  rcases ht with rfl | rfl <;> unfold decodeKeyPayload appendPayloadToKey <;>
    rw [if_neg (by decide)] <;> dsimp only <;> rw [decodeFixed_append _ _ (hlen _) rest]
  · rw [if_neg (by decide), decodeInt64FromKey_appendInt64ToKey]
  · rw [if_pos rfl, decodeInt64FromKey_appendInt64ToKey, Int64.not_not]

theorem decodeKeyPayload_uint16Hash (x : UInt16) :
    decodeKeyPayload kUInt16Hash (appendPayloadToKey (uint16 kUInt16Hash x) [] ++ rest) =
      .ok (uint16 kUInt16Hash x, rest) := by
  have hlen : (appendUInt16ToKey x []).length = 2 := by simp [appendUInt16ToKey, store16]
  unfold decodeKeyPayload appendPayloadToKey
  rw [if_neg (by decide)]
  dsimp only
  rw [decodeFixed_append _ _ hlen rest, appendUInt16ToKey, List.nil_append, load16_store16]

theorem decodeKeyPayload_intentTypeSet {x : UInt16} (hx : x.toNat < 16) :
    decodeKeyPayload kIntentTypeSet (appendPayloadToKey (uint16 kIntentTypeSet x) [] ++ rest) =
      .ok (uint16 kIntentTypeSet x, rest) := by
  have hbyte : (IntentTypeSet.ofNat x.toNat).toUIntPtr.toUInt8.toUInt16 = x := by
    rw [← UInt16.toNat_inj]
    simp [IntentTypeSet.ofNat, IntentTypeSet.toUIntPtr]
    omega
  unfold decodeKeyPayload appendPayloadToKey
  rw [if_neg (by decide)]
  dsimp only
  rw [appendIntentTypeSet, List.nil_append, List.singleton_append, List.headD_cons, List.tail_cons,
    hbyte]

theorem decodeKeyPayload_float (ht : t ∈ [kFloat, kFloatDescending]) (bits : UInt32) :
    decodeKeyPayload t (appendPayloadToKey (float t bits) [] ++ rest) =
      .ok (float t bits, rest) := by
  have hlen (descending : Bool) : (appendFloatToKey bits [] descending).length = 4 := by
    simp [appendFloatToKey, store32]
  simp only [List.mem_cons, List.not_mem_nil, or_false] at ht
  rcases ht with rfl | rfl <;> unfold decodeKeyPayload appendPayloadToKey <;>
    rw [if_neg (by decide)] <;> dsimp only <;> rw [decodeFixed_append _ _ (hlen _) rest]
  · rw [decide_eq_false (by decide), decodeFloatFromKey_appendFloatToKey]
  · rw [decide_eq_true rfl, decodeFloatFromKey_appendFloatToKey]

theorem decodeKeyPayload_double (ht : t ∈ [kDouble, kDoubleDescending]) (bits : UInt64) :
    decodeKeyPayload t (appendPayloadToKey (double t bits) [] ++ rest) =
      .ok (double t bits, rest) := by
  have hlen (descending : Bool) : (appendDoubleToKey bits [] descending).length = 8 := by
    simp [appendDoubleToKey, store64]
  simp only [List.mem_cons, List.not_mem_nil, or_false] at ht
  rcases ht with rfl | rfl <;> unfold decodeKeyPayload appendPayloadToKey <;>
    rw [if_neg (by decide)] <;> dsimp only <;> rw [decodeFixed_append _ _ (hlen _) rest]
  · rw [decide_eq_false (by decide), decodeDoubleFromKey_appendDoubleToKey]
  · rw [decide_eq_true rfl, decodeDoubleFromKey_appendDoubleToKey]

theorem decodeKeyPayload_inetaddress (ht : t ∈ [kInetaddress, kInetaddressDescending])
    (a : InetAddress) :
    decodeKeyPayload t (appendPayloadToKey (inetaddress t a) [] ++ rest) =
      .ok (inetaddress t a, rest) := by
  simp only [List.mem_cons, List.not_mem_nil, or_false] at ht
  rcases ht with rfl | rfl <;> unfold decodeKeyPayload appendPayloadToKey <;>
    rw [if_neg (by decide)] <;> dsimp only
  · rw [decodeZeroEncodedStr_zeroEncode]
    simp only [corruption_ok, except_ok_bind, InetAddress.fromBytes_toBytes, invalidArgument_ok,
      except_pure_eq]
  · rw [decodeComplementZeroEncodedStr_complementZeroEncode]
    simp only [corruption_ok, except_ok_bind, InetAddress.fromBytes_toBytes, invalidArgument_ok,
      except_pure_eq]

theorem decodeKeyPayload_uuid [LawfulUuidVersion]
    (ht : t ∈ [kTransactionId, kTableId, kUuid, kUuidDescending]) (u : Uuid) :
    decodeKeyPayload t (appendPayloadToKey (uuid t u) [] ++ rest) = .ok (uuid t u, rest) := by
  simp only [List.mem_cons, List.not_mem_nil, or_false] at ht
  rcases ht with rfl | rfl | rfl | rfl <;> unfold decodeKeyPayload appendPayloadToKey <;>
    rw [if_neg (by decide)] <;> dsimp only <;>
    simp only [decodeZeroEncodedStr_zeroEncode, decodeComplementZeroEncodedStr_complementZeroEncode,
      corruption_ok, except_ok_bind, Uuid.decodeFromComparableSlice_encodeToComparable,
      invalidArgument_ok, except_pure_eq]

theorem decodeKeyPayload_hybridTime (d : DocHybridTime) :
    decodeKeyPayload kHybridTime (appendPayloadToKey (hybridTime d) [] ++ rest) =
      .ok (hybridTime d, rest) := by
  unfold decodeKeyPayload appendPayloadToKey
  rw [if_neg (by decide)]
  dsimp only
  rw [DocHybridTime.appendEncodedInDocDbFormat, List.nil_append,
    DocHybridTime.decodeFrom_encodedInDocDbFormat, corruption_ok, except_ok_bind, except_pure_eq]

theorem decodeKeyPayload_columnId (ht : t ∈ [kColumnId, kSystemColumnId]) {c : Int32}
    (hc : 0 ≤ c.toInt) :
    decodeKeyPayload t (appendPayloadToKey (columnId t c) [] ++ rest) =
      .ok (columnId t c, rest) := by
  simp only [List.mem_cons, List.not_mem_nil, or_false] at ht
  rcases ht with rfl | rfl <;> unfold decodeKeyPayload appendPayloadToKey <;>
    rw [if_neg (by decide)] <;> dsimp only <;>
    rw [appendColumnIdToKey, List.nil_append, fastDecodeSignedVarIntSlice_encode, corruption_ok,
      except_ok_bind, columnIdFromInt64_toInt64 hc, except_ok_bind, except_pure_eq]

end Payload

/-! ### The type byte -/

theorem decodeKeyPayload_eq_error {t : ValueType}
    (ht : t ∈ [kFrozen, kFrozenDescending, kGroupEnd, kGroupEndDescending]) (slice : List UInt8) :
    decodeKeyPayload t slice = .error cannotDecode := by
  simp only [List.mem_cons, List.not_mem_nil, or_false] at ht
  rcases ht with rfl | rfl | rfl | rfl <;> unfold decodeKeyPayload <;> rw [if_neg (by decide)]

theorem decodeKeyFuel_typeByte {t : ValueType} (ht : t ≠ kFrozen ∧ t ≠ kFrozenDescending)
    (fuel : Nat) (slice : List UInt8) :
    decodeKeyFuel (fuel + 1) (t.toByte :: slice) = decodeKeyPayload t slice := by
  rw [decodeKeyFuel, ValueType.ofByte_toByte]
  split <;> rename_i heq
  · exact absurd (Option.some.inj heq) ht.2
  · exact absurd (Option.some.inj heq) ht.1
  · rw [Option.some.inj heq]
  · cases heq

theorem decodeKeyFuel_frozenTypeByte {t : ValueType} (ht : t ∈ [kFrozen, kFrozenDescending])
    (fuel : Nat) (slice : List UInt8) :
    decodeKeyFuel (fuel + 1) (t.toByte :: slice) = (do
      let (vs, rest) ← decodeFrozenFuel fuel
        (if t = kFrozenDescending then kGroupEndDescending else kGroupEnd) slice []
      pure (frozen t vs, rest)) := by
  simp only [List.mem_cons, List.not_mem_nil, or_false] at ht
  rcases ht with rfl | rfl <;> rw [decodeKeyFuel, ValueType.ofByte_toByte] <;> rfl

theorem decodeKeyFuel_groupEnd {t : ValueType} (ht : t ∈ [kGroupEnd, kGroupEndDescending])
    (fuel : Nat) (slice : List UInt8) : ∃ e, decodeKeyFuel fuel (t.toByte :: slice) = .error e := by
  cases fuel with
  | zero => exact ⟨cannotDecode, rfl⟩
  | succ fuel =>
    have hne : t ≠ kFrozen ∧ t ≠ kFrozenDescending := by
      simp only [List.mem_cons, List.not_mem_nil, or_false] at ht
      rcases ht with rfl | rfl <;> decide
    refine ⟨cannotDecode, ?_⟩
    rw [decodeKeyFuel_typeByte hne, decodeKeyPayload_eq_error (by simp_all)]

/-! ### The frozen loop -/

section Frozen

variable [UuidVersion]

theorem decodeFrozenFuel_appendFrozenToKey {endMarker : ValueType}
    (hend : endMarker ∈ [kGroupEnd, kGroupEndDescending]) {vs : List PrimitiveValue}
    (hvs : ∀ v ∈ vs, ∀ (rest : List UInt8) (fuel : Nat),
      2 * (v.toKeyBytes ++ rest).length ≤ fuel →
        decodeKeyFuel fuel (v.toKeyBytes ++ rest) = .ok (v, rest))
    (rest : List UInt8) (acc : List PrimitiveValue) {fuel : Nat}
    (hfuel : 2 * (appendFrozenToKey vs [] ++ endMarker.toByte :: rest).length + 1 ≤ fuel) :
    decodeFrozenFuel fuel endMarker (appendFrozenToKey vs [] ++ endMarker.toByte :: rest) acc =
      .ok (acc ++ vs, rest) := by
  -- the loop and each element take a step of fuel, so one more than twice the length is enough
  induction vs generalizing acc fuel with
  | nil =>
    obtain ⟨g, rfl⟩ : ∃ g, fuel = g + 1 := ⟨fuel - 1, by omega⟩
    simp [appendFrozenToKey, decodeFrozenFuel]
  | cons v vs ih =>
    obtain ⟨g, rfl⟩ : ∃ g, fuel = g + 1 := ⟨fuel - 1, by omega⟩
    set R := appendFrozenToKey vs [] ++ endMarker.toByte :: rest with hR
    have hbytes :
        appendFrozenToKey (v :: vs) [] ++ endMarker.toByte :: rest = v.toKeyBytes ++ R := by
      rw [appendFrozenToKey, appendFrozenToKey_eq_append, hR, toKeyBytes, List.append_assoc]
    have hlen : 1 ≤ v.toKeyBytes.length := by
      rw [toKeyBytes_eq_cons]
      simp
    rw [hbytes] at hfuel ⊢
    simp only [List.length_append] at hfuel
    have hdec := hvs v List.mem_cons_self R g (by simp only [List.length_append]; omega)
    -- the element's first byte is its type byte, which is not the marker
    have hne : v.toKeyBytes.headD 0 ≠ endMarker.toByte := by
      intro h
      obtain ⟨e, he⟩ := decodeKeyFuel_groupEnd hend g (v.toKeyBytes.tail ++ R)
      rw [toKeyBytes_eq_cons, List.headD_cons] at h
      rw [toKeyBytes_eq_cons, h, List.cons_append] at hdec
      rw [hdec] at he
      cases he
    obtain ⟨c, tl, hct⟩ : ∃ c tl, v.toKeyBytes = c :: tl := ⟨_, _, toKeyBytes_eq_cons v⟩
    rw [hct, List.headD_cons] at hne
    rw [hct] at hdec
    rw [hct, List.cons_append, decodeFrozenFuel, if_neg hne, ← List.cons_append, hdec,
      except_ok_bind]
    dsimp only
    rw [ih (fun w hw => hvs w (List.mem_cons_of_mem v hw)) (acc ++ [v]) (by omega),
      List.append_assoc, List.singleton_append]

end Frozen

/-! ### The round trip -/

section RoundTrip

variable [UuidVersion] [LawfulUuidVersion]

theorem decodeKeyPayload_appendPayloadToKey {v : PrimitiveValue} (hv : KeyDecodable v)
    (hf : v.isFrozen = false) (rest : List UInt8) :
    decodeKeyPayload v.type (appendPayloadToKey v [] ++ rest) = .ok (v, rest) := by
  cases hv with
  | @ofType t ht =>
    -- nothing follows the type byte
    show decodeKeyPayload t ([] ++ rest) = .ok (ofType t, rest)
    unfold decodeKeyPayload
    rw [if_pos ht]
    rfl
  | str ht s => exact decodeKeyPayload_str rest ht s
  | decimal ht hd => exact decodeKeyPayload_decimal rest ht hd
  | varInt ht v => exact decodeKeyPayload_varInt rest ht v
  | int32 ht x => exact decodeKeyPayload_int32 rest ht x
  | uint32 ht x => exact decodeKeyPayload_uint32 rest ht x
  | int64 ht x => exact decodeKeyPayload_int64 rest ht x
  | uint16Hash x => exact decodeKeyPayload_uint16Hash rest x
  | intentTypeSet hx => exact decodeKeyPayload_intentTypeSet rest hx
  | float ht bits => exact decodeKeyPayload_float rest ht bits
  | double ht bits => exact decodeKeyPayload_double rest ht bits
  | timestamp ht x => exact decodeKeyPayload_timestamp rest ht x
  | inetaddress ht a => exact decodeKeyPayload_inetaddress rest ht a
  | uuid ht u => exact decodeKeyPayload_uuid rest ht u
  | hybridTime d => exact decodeKeyPayload_hybridTime rest d
  | columnId ht hc => exact decodeKeyPayload_columnId rest ht hc
  | frozen => cases hf

theorem decodeKeyFuel_of_not_frozen {v : PrimitiveValue} (hv : KeyDecodable v)
    (hf : v.isFrozen = false) (rest : List UInt8) {fuel : Nat}
    (hfuel : 2 * (v.toKeyBytes ++ rest).length ≤ fuel) :
    decodeKeyFuel fuel (v.toKeyBytes ++ rest) = .ok (v, rest) := by
  have hpay := decodeKeyPayload_appendPayloadToKey hv hf rest
  -- a frozen type has no payload case, so the type is not one
  have hne : v.type ≠ kFrozen ∧ v.type ≠ kFrozenDescending := by
    constructor <;> intro h <;> rw [h, decodeKeyPayload_eq_error (by simp)] at hpay <;> cases hpay
  have hbytes : v.toKeyBytes = v.type.toByte :: appendPayloadToKey v [] := by
    rw [toKeyBytes, appendToKey_of_not_frozen hf, appendPayloadToKey_eq]
    rfl
  obtain ⟨g, rfl⟩ : ∃ g, fuel = g + 1 := ⟨fuel - 1, by simp [hbytes] at hfuel; omega⟩
  rw [hbytes, List.cons_append, decodeKeyFuel_typeByte hne, hpay]

theorem decodeKeyFuel_toKeyBytes {v : PrimitiveValue} (hv : KeyDecodable v) (rest : List UInt8)
    {fuel : Nat} (hfuel : 2 * (v.toKeyBytes ++ rest).length ≤ fuel) :
    decodeKeyFuel fuel (v.toKeyBytes ++ rest) = .ok (v, rest) := by
  induction hv generalizing rest fuel with
  | @frozen t ht vs hvs ih =>
    -- the type byte, the elements, the end marker of the direction
    set endMarker := if t = kFrozenDescending then kGroupEndDescending else kGroupEnd
    have hend : endMarker ∈ [kGroupEnd, kGroupEndDescending] := by
      simp only [endMarker]
      split <;> simp
    have hbytes : (frozen t vs).toKeyBytes ++ rest =
        t.toByte :: (appendFrozenToKey vs [] ++ endMarker.toByte :: rest) := by
      rw [toKeyBytes, appendToKey, appendFrozenToKey_eq_append, apply_ite ValueType.toByte]
      simp
    rw [hbytes] at hfuel ⊢
    obtain ⟨g, rfl⟩ : ∃ g, fuel = g + 1 := ⟨fuel - 1, by simp at hfuel; omega⟩
    rw [decodeKeyFuel_frozenTypeByte ht,
      decodeFrozenFuel_appendFrozenToKey hend (fun w hw => ih w hw) rest []
        (by simp only [List.length_cons] at hfuel; omega)]
    rfl
  | ofType ht => exact decodeKeyFuel_of_not_frozen (.ofType ht) rfl rest hfuel
  | str ht s => exact decodeKeyFuel_of_not_frozen (.str ht s) rfl rest hfuel
  | decimal ht hd => exact decodeKeyFuel_of_not_frozen (.decimal ht hd) rfl rest hfuel
  | varInt ht v => exact decodeKeyFuel_of_not_frozen (.varInt ht v) rfl rest hfuel
  | int32 ht x => exact decodeKeyFuel_of_not_frozen (.int32 ht x) rfl rest hfuel
  | uint32 ht x => exact decodeKeyFuel_of_not_frozen (.uint32 ht x) rfl rest hfuel
  | int64 ht x => exact decodeKeyFuel_of_not_frozen (.int64 ht x) rfl rest hfuel
  | uint16Hash x => exact decodeKeyFuel_of_not_frozen (.uint16Hash x) rfl rest hfuel
  | intentTypeSet hx => exact decodeKeyFuel_of_not_frozen (.intentTypeSet hx) rfl rest hfuel
  | float ht bits => exact decodeKeyFuel_of_not_frozen (.float ht bits) rfl rest hfuel
  | double ht bits => exact decodeKeyFuel_of_not_frozen (.double ht bits) rfl rest hfuel
  | timestamp ht x => exact decodeKeyFuel_of_not_frozen (.timestamp ht x) rfl rest hfuel
  | inetaddress ht a => exact decodeKeyFuel_of_not_frozen (.inetaddress ht a) rfl rest hfuel
  | uuid ht u => exact decodeKeyFuel_of_not_frozen (.uuid ht u) rfl rest hfuel
  | hybridTime d => exact decodeKeyFuel_of_not_frozen (.hybridTime d) rfl rest hfuel
  | columnId ht hc => exact decodeKeyFuel_of_not_frozen (.columnId ht hc) rfl rest hfuel

/-- `DecodeKey` reads back every value `AppendToKey` writes whose member fits its type, frozen
values element by element and at any depth, whatever bytes follow it, and leaves exactly them. -/
theorem decodeKey_toKeyBytes {v : PrimitiveValue} (hv : KeyDecodable v) (rest : List UInt8) :
    decodeKey (v.toKeyBytes ++ rest) = .ok (v, rest) :=
  decodeKeyFuel_toKeyBytes hv rest le_rfl

end RoundTrip

theorem decodeKey_toKeyBytes_nested :
    KeyDecodable
        (frozen kFrozen [str kString [0, 7], frozen kFrozenDescending [columnId kColumnId 5]]) ∧
      decodeKey (@toKeyBytes nibbleVersion
          (frozen kFrozen [str kString [0, 7], frozen kFrozenDescending [columnId kColumnId 5]]) ++
        [9]) =
        .ok (frozen kFrozen [str kString [0, 7], frozen kFrozenDescending [columnId kColumnId 5]],
          [9]) := by
  have hv : KeyDecodable
      (frozen kFrozen [str kString [0, 7], frozen kFrozenDescending [columnId kColumnId 5]]) := by
    refine .frozen (by decide) ?_
    simp only [List.mem_cons, List.not_mem_nil, or_false]
    rintro v (rfl | rfl)
    · exact .str (by decide) _
    · refine .frozen (by decide) ?_
      simp only [List.mem_cons, List.not_mem_nil, or_false]
      rintro w rfl
      exact .columnId (by decide) (by decide)
  exact ⟨hv, @decodeKey_toKeyBytes nibbleVersion lawfulNibbleVersion _ hv [9]⟩

end PrimitiveValue

end FrescoDB.Docdb
