import Mathlib

/-! `HybridTime` (`common/hybrid_time.h`): a 64-bit value whose high 52 bits
are microseconds and whose low 12 bits are a logical counter. Arithmetic is
that of `uint64_t`, so the packing wraps when the microseconds do not fit. -/
namespace FrescoDB.Common

/-- `HybridTimeRepr`. -/
abbrev HybridTimeRepr := UInt64

/-- `HybridTime`, its `v` field. -/
structure HybridTime where
  v : HybridTimeRepr
  deriving DecidableEq, Repr

namespace HybridTime

/-- `kBitsForLogicalComponent`. -/
def kBitsForLogicalComponent : UInt64 := 12

/-- `kLogicalBitMask`. -/
def kLogicalBitMask : UInt64 := (1 <<< kBitsForLogicalComponent) - 1

/-- `kMaxHybridTimeValue`, `kInvalidHybridTimeValue`. -/
def kMaxHybridTimeValue : HybridTimeRepr := 0xFFFFFFFFFFFFFFFF
def kInvalidHybridTimeValue : HybridTimeRepr := kMaxHybridTimeValue - 1

/-- `kMaxHybridTimePhysicalMicros`: the largest microsecond count that still fits. -/
def kMaxHybridTimePhysicalMicros : UInt64 := kMaxHybridTimeValue >>> kBitsForLogicalComponent

/-- `HybridTime::kMin`, `HybridTime::kMax`, `HybridTime::kInvalid`. -/
def kMin : HybridTime := ⟨0⟩
def kMax : HybridTime := ⟨kMaxHybridTimeValue⟩
def kInvalid : HybridTime := ⟨kInvalidHybridTimeValue⟩

/-- `HybridTime(MicrosTime micros, LogicalTimeComponent logical_value)`. -/
def fromMicrosecondsAndLogicalValue (micros : UInt64) (logical : UInt32) : HybridTime :=
  ⟨(micros <<< kBitsForLogicalComponent) + logical.toUInt64⟩

/-- `FromMicros`. -/
def fromMicros (micros : UInt64) : HybridTime := fromMicrosecondsAndLogicalValue micros 0

/-- `GetPhysicalValueMicros`. -/
def getPhysicalValueMicros (h : HybridTime) : UInt64 := h.v >>> kBitsForLogicalComponent

/-- `GetLogicalValue`. -/
def getLogicalValue (h : HybridTime) : UInt32 := (h.v &&& kLogicalBitMask).toUInt32

/-- `Decremented`: `kMin` stays itself. -/
def decremented (h : HybridTime) : HybridTime := if h.v = 0 then h else ⟨h.v - 1⟩

/-- `is_valid`. -/
def isValid (h : HybridTime) : Bool := h.v != kInvalidHybridTimeValue

/-- `CompareTo`, on the representation. -/
def compareTo (h o : HybridTime) : Ordering := compare h.v o.v

instance : LT HybridTime := ⟨fun a b => a.v < b.v⟩
instance : LE HybridTime := ⟨fun a b => a.v ≤ b.v⟩
instance (a b : HybridTime) : Decidable (a < b) := inferInstanceAs (Decidable (a.v < b.v))
instance (a b : HybridTime) : Decidable (a ≤ b) := inferInstanceAs (Decidable (a.v ≤ b.v))

theorem lt_iff_toNat (a b : HybridTime) : a < b ↔ a.v.toNat < b.v.toNat :=
  UInt64.lt_iff_toNat_lt

theorem toNat_fromMicrosecondsAndLogicalValue (micros : UInt64) (logical : UInt32)
    (hm : micros.toNat < 2 ^ 52) (hl : logical.toNat < 2 ^ 12) :
    (fromMicrosecondsAndLogicalValue micros logical).v.toNat = micros.toNat * 4096 + logical.toNat := by
  have shift : (micros <<< kBitsForLogicalComponent).toNat = micros.toNat * 4096 := by
    rw [UInt64.toNat_shiftLeft]
    have e : kBitsForLogicalComponent.toNat % 64 = 12 := rfl
    rw [e, Nat.shiftLeft_eq]
    exact Nat.mod_eq_of_lt (by omega)
  simp only [fromMicrosecondsAndLogicalValue, UInt64.toNat_add, shift, UInt32.toNat_toUInt64]
  exact Nat.mod_eq_of_lt (by omega)

theorem fromMicrosecondsAndLogicalValue_components (h : HybridTime) :
    fromMicrosecondsAndLogicalValue h.getPhysicalValueMicros h.getLogicalValue = h := by
  obtain ⟨v⟩ := h
  simp only [fromMicrosecondsAndLogicalValue, HybridTime.mk.injEq]
  apply UInt64.toNat_inj.mp
  have hv := v.toNat_lt
  have hmask : kLogicalBitMask.toNat = 2 ^ 12 - 1 := rfl
  have hshift : kBitsForLogicalComponent.toNat % 64 = 12 := rfl
  simp only [getPhysicalValueMicros, getLogicalValue, UInt64.toNat_add, UInt64.toNat_shiftLeft, UInt64.toNat_shiftRight, hshift,
    UInt32.toNat_toUInt64, UInt64.toNat_toUInt32, UInt64.toNat_and, hmask,
    Nat.and_two_pow_sub_one_eq_mod, Nat.shiftLeft_eq, Nat.shiftRight_eq_div_pow]
  omega

/-- `Incremented`: the invalid and the maximum hybrid time stay themselves. -/
def incremented (h : HybridTime) : HybridTime := if h.v ≥ kInvalidHybridTimeValue then h else ⟨h.v + 1⟩

theorem le_iff_toNat (a b : HybridTime) : a ≤ b ↔ a.v.toNat ≤ b.v.toNat :=
  UInt64.le_iff_toNat_le

theorem ext_toNat {a b : HybridTime} (h : a.v.toNat = b.v.toNat) : a = b := by
  obtain ⟨a⟩ := a
  obtain ⟨b⟩ := b
  simpa using UInt64.toNat_inj.mp h

/-- The order of the representation is a linear order; its `<` and `≤` are the ones above. -/
instance : LinearOrder HybridTime where
  le := (· ≤ ·)
  lt := (· < ·)
  le_refl a := (le_iff_toNat a a).mpr le_rfl
  le_trans a b c hab hbc :=
    (le_iff_toNat a c).mpr (le_trans ((le_iff_toNat a b).mp hab) ((le_iff_toNat b c).mp hbc))
  lt_iff_le_not_ge a b := by
    simp only [lt_iff_toNat, le_iff_toNat]
    omega
  le_antisymm a b hab hba := by
    simp only [le_iff_toNat] at hab hba
    exact ext_toNat (by omega)
  le_total a b := by
    simp only [le_iff_toNat]
    omega
  toDecidableLE := inferInstance
  toDecidableLT := inferInstance
  toDecidableEq := inferInstance

theorem toNat_max (a b : HybridTime) : (max a b).v.toNat = max a.v.toNat b.v.toNat := by
  rcases le_total a b with h | h
  · rw [max_eq_right h, Nat.max_eq_right ((le_iff_toNat a b).mp h)]
  · rw [max_eq_left h, Nat.max_eq_left ((le_iff_toNat b a).mp h)]

theorem toNat_decremented (h : HybridTime) : h.decremented.v.toNat = h.v.toNat - 1 := by
  unfold decremented
  split
  · rename_i h0
    simp [h0]
  · rename_i h0
    have hpos : h.v.toNat ≠ 0 := fun e => h0 (UInt64.toNat_inj.mp (by simpa using e))
    rw [UInt64.toNat_sub_of_le]
    · rfl
    · rw [UInt64.le_iff_toNat_le]
      simp only [UInt64.toNat_one]
      omega

theorem le_decremented {a m : HybridTime} (h : m < a) : m ≤ a.decremented := by
  rw [le_iff_toNat, toNat_decremented]
  rw [lt_iff_toNat] at h
  omega

theorem decremented_lt {a m : HybridTime} (h : m < a) : a.decremented < a := by
  rw [lt_iff_toNat, toNat_decremented]
  rw [lt_iff_toNat] at h
  omega

theorem kMin_le (h : HybridTime) : kMin ≤ h := by
  rw [le_iff_toNat]
  exact Nat.zero_le _

theorem le_kMax (h : HybridTime) : h ≤ kMax := by
  have hv := h.v.toNat_lt
  have hmax : kMax.v.toNat = 2 ^ 64 - 1 := rfl
  rw [le_iff_toNat, hmax]
  omega

/-- `ToString`, outside the pretty mode that tests turn on. -/
def toString (h : HybridTime) : String :=
  if h.v = kInvalidHybridTimeValue then "<invalid>"
  else if h.v = kMaxHybridTimeValue then "<max>"
  else if h.v = 0 then "<min>"
  else if h.v = 1 then "<initial>"
  else
    let physical := ToString.toString h.getPhysicalValueMicros
    let logical := h.getLogicalValue
    if logical ≠ 0 then
      "\x7b physical: " ++ physical ++ " logical: " ++ ToString.toString logical ++ " \x7d"
    else "\x7b physical: " ++ physical ++ " \x7d"

end HybridTime

end FrescoDB.Common
