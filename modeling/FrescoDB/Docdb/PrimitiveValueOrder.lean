import FrescoDB.Docdb.PrimitiveValue

/-! How `PrimitiveValue::CompareTo` relates to the byte order of
`ToKeyBytes`. Values of different types are ordered by their type bytes on
both sides, save `kMaxByte`, whose enumerator is `-1`; strings agree in both
directions through the escape encoding. `kTableId` and `kTransactionId`
values are compared in reverse although their keys are written ascending. -/
namespace FrescoDB.Docdb

open FrescoDB.Lib FrescoDB.Util

namespace PrimitiveValue

open ValueType

/-- Two time UUIDs that differ only in their last byte. -/
def timeUuidLow : Uuid := ⟨[0, 0, 0, 0, 0, 0, 0x10, 0, 0, 0, 0, 0, 0, 0, 0, 0], rfl⟩
def timeUuidHigh : Uuid := ⟨[0, 0, 0, 0, 0, 0, 0x10, 0, 0, 0, 0, 0, 0, 0, 0, 1], rfl⟩

theorem compareLt_natCast (m n : Nat) : compareLt (m : Int) (n : Int) = compare m n := by
  unfold compareLt compareUsingLessThan
  rcases Nat.lt_trichotomy m n with h | rfl | h
  · simp [h, Nat.compare_eq_lt.2 h]
  · simp
  · simp [h, Nat.not_lt.2 h.le, Nat.compare_eq_gt.2 h]

theorem toInt_of_ne_maxByte {t : ValueType} (h : t ≠ kMaxByte) : t.toInt = t.toByte.toNat := by
  simp [ValueType.toInt, h]

section Order

variable [UuidVersion]

theorem compareTo_of_type_ne {a b : PrimitiveValue} (h : a.type ≠ b.type) :
    compareTo a b = compareLt a.type.toInt b.type.toInt := by
  have hne : compareLt a.type.toInt b.type.toInt ≠ .eq := by
    intro heq
    apply h
    apply ValueType.toInt_injective
    unfold compareLt compareUsingLessThan at heq
    split_ifs at heq with h1 h2
    simp only [decide_eq_true_eq, not_lt] at h1 h2
    omega
  rw [compareTo.eq_def]
  rcases hc : compareLt a.type.toInt b.type.toInt with _ | _ | _
  · simp only [hc]
  · exact absurd hc hne
  · simp only [hc]

theorem compare_toKeyBytes_of_type_ne {a b : PrimitiveValue} (h : a.type ≠ b.type)
    (ha : a.type ≠ kMaxByte) (hb : b.type ≠ kMaxByte) :
    compare (toKeyBytes a) (toKeyBytes b) = compareTo a b := by
  have hbyte : a.type.toByte ≠ b.type.toByte := fun e => h (ValueType.toByte_injective e)
  have hcmp : compare a.type.toByte b.type.toByte ≠ .eq :=
    fun e => hbyte (Std.LawfulEqCmp.eq_of_compare e)
  rw [compareTo_of_type_ne h, toKeyBytes_eq_cons a, toKeyBytes_eq_cons b, List.compare_cons_cons,
    then_of_ne_eq hcmp, toInt_of_ne_maxByte ha, toInt_of_ne_maxByte hb, compareLt_natCast,
    compare_uint8]

theorem toKeyBytes_string (s : List UInt8) :
    toKeyBytes (str kString s) = kString.toByte :: escapeEncode 0 s := by
  rw [toKeyBytes, appendToKey_of_not_frozen (by rfl)]
  simp [appendPayloadToKey, type, zeroEncodeAndAppendStrToKey_eq]

theorem toKeyBytes_stringDescending (s : List UInt8) :
    toKeyBytes (str kStringDescending s) = kStringDescending.toByte :: escapeEncode 0xff s := by
  rw [toKeyBytes, appendToKey_of_not_frozen (by rfl)]
  simp [appendPayloadToKey, type, complementZeroEncodeAndAppendStrToKey_eq]

theorem compareTo_same_type {a b : PrimitiveValue} (h : a.type = b.type) (ha : a.isFrozen = false) :
    compareTo a b = comparePayload a b := by
  have heq : compareLt a.type.toInt b.type.toInt = .eq := by
    simp [compareLt, compareUsingLessThan, h]
  rw [compareTo.eq_def]
  simp only [heq]
  cases a <;> first | rfl | simp [isFrozen] at ha

theorem compare_toKeyBytes_string (s s' : List UInt8) :
    compare (toKeyBytes (str kString s)) (toKeyBytes (str kString s')) =
      compareTo (str kString s) (str kString s') := by
  rw [compareTo_same_type (show (str kString s).type = (str kString s').type from rfl) rfl,
    toKeyBytes_string, toKeyBytes_string, List.compare_cons_cons,
    compare_uint8_self, Ordering.eq_then, ← List.append_nil (escapeEncode 0 s),
    ← List.append_nil (escapeEncode 0 s'), compare_escapeEncode_append (.inl rfl)]
  simp [orient, comparePayload]

theorem compare_toKeyBytes_stringDescending (s s' : List UInt8) :
    compare (toKeyBytes (str kStringDescending s)) (toKeyBytes (str kStringDescending s')) =
      compareTo (str kStringDescending s) (str kStringDescending s') := by
  rw [compareTo_same_type
      (show (str kStringDescending s).type = (str kStringDescending s').type from rfl) rfl,
    toKeyBytes_stringDescending, toKeyBytes_stringDescending,
    List.compare_cons_cons, compare_uint8_self, Ordering.eq_then,
    ← List.append_nil (escapeEncode 0xff s), ← List.append_nil (escapeEncode 0xff s'),
    compare_escapeEncode_append (.inr rfl)]
  simp [orient, comparePayload, compare_bytes_swap s s']

/-- `CompareTo` orders `kTableId` values by `other.uuid_val_ < uuid_val_`, while `AppendToKey`
writes their comparable bytes ascending: the two orders disagree. -/
theorem tableId_compareTo_reverses_key_order [LawfulUuidVersion] :
    compareTo (uuid kTableId timeUuidLow) (uuid kTableId timeUuidHigh) = .gt ∧
    compare (toKeyBytes (uuid kTableId timeUuidLow)) (toKeyBytes (uuid kTableId timeUuidHigh)) =
      .lt := by
  have hlow : UuidVersion.version timeUuidLow = versionTimeBased :=
    (LawfulUuidVersion.timeBased_iff timeUuidLow).2 (by decide)
  have hhigh : UuidVersion.version timeUuidHigh = versionTimeBased :=
    (LawfulUuidVersion.timeBased_iff timeUuidHigh).2 (by decide)
  constructor
  · rw [compareTo_same_type
      (show (uuid kTableId timeUuidLow).type = (uuid kTableId timeUuidHigh).type from rfl) rfl]
    simp only [comparePayload, compareUsingLessThan, Uuid.lt, hlow, hhigh, lt_irrefl, if_false,
      if_true]
    decide
  · simp only [toKeyBytes, appendToKey, appendPayloadToKey, Uuid.encodeToComparable, type]
    rw [if_pos hlow, if_pos hhigh]
    decide

end Order

theorem tableId_compareTo_reverses_key_order_nibble :
    @compareTo nibbleVersion (uuid kTableId timeUuidLow) (uuid kTableId timeUuidHigh) = .gt ∧
    compare (@toKeyBytes nibbleVersion (uuid kTableId timeUuidLow))
      (@toKeyBytes nibbleVersion (uuid kTableId timeUuidHigh)) = .lt :=
  @tableId_compareTo_reverses_key_order nibbleVersion lawfulNibbleVersion

end PrimitiveValue

end FrescoDB.Docdb
