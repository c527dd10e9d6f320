import FrescoDB.Util.DecimalValue
import FrescoDB.Lib.ExceptStep

/-! The serialized `BigDecimal` of `util::Decimal` (`util/decimal.cc`), the decimal of Cassandra:
the scale, the number of digits after the point, in four bytes of two's complement, then the
unscaled number in two's complement, for the number `unscaled × 10 ^ -scale`.
`DecodeFromSerializedBigDecimal` reads every string of five bytes or more as the valid decimal of
that number; `EncodeToSerializedBigDecimal` writes a valid decimal so when its scale fits in four
bytes, and it reads back. -/
namespace FrescoDB.Util

open FrescoDB.Lib

namespace Decimal

/-! ### Reading -/

theorem decodeFromSerializedBigDecimal_eq {slice : List UInt8} (h : 5 ≤ slice.length) :
    ∃ ds, DigitsLt ds ∧ digitsValue ds = (signedBE (slice.drop 4)).natAbs ∧
      decodeFromSerializedBigDecimal slice =
        .ok (makeCanonical ⟨ds, ds.length - signedBE (slice.take 4),
          !decide (signedBE (slice.drop 4) < 0)⟩) := by
  have htake : slice.take 4 ≠ [] := by
    rw [← List.length_pos_iff, List.length_take]
    omega
  have hdrop : slice.drop 4 ≠ [] := by
    rw [← List.length_pos_iff, List.length_drop]
    omega
  obtain ⟨ds, -, hds, hval, htext⟩ :=
    toString_of_nonneg (Int.natCast_nonneg (signedBE (slice.drop 4)).natAbs)
  refine ⟨ds, hds, by rwa [Int.natAbs_natCast] at hval, ?_⟩
  simp only [decodeFromSerializedBigDecimal, if_neg (by omega : ¬ slice.length < 5),
    VarInt.decodeFromTwosComplement_eq htake, VarInt.decodeFromTwosComplement_eq hdrop,
    except_ok_bind, except_pure_eq, htext, map_digitChar_sub_zero hds]

/-- `DecodeFromSerializedBigDecimal` fails on fewer than five bytes, saying how many it found, and
reads every longer string as the valid decimal of `unscaled × 10 ^ -scale`. -/
theorem decodeFromSerializedBigDecimal_spec (slice : List UInt8) :
    (slice.length < 5 → decodeFromSerializedBigDecimal slice =
      .error ⟨.kCorruption, "Serialized BigDecimal must have at least 5 bytes. Found " ++
        ToString.toString slice.length⟩) ∧
    (5 ≤ slice.length → ∃ c, decodeFromSerializedBigDecimal slice = .ok c ∧ c.Valid ∧
      c.value = signedBE (slice.drop 4) * 10 ^ (-signedBE (slice.take 4))) := by
  refine ⟨fun h => by simp only [decodeFromSerializedBigDecimal, if_pos h]; rfl, fun h => ?_⟩
  obtain ⟨ds, hds, hval, hdec⟩ := decodeFromSerializedBigDecimal_eq h
  exact ⟨_, hdec, valid_makeCanonical hds, by rw [makeCanonical_value, value_unscaled hval]⟩

/-! ### Writing -/

theorem encodeToSerializedBigDecimal_of_not_fit {d : Decimal}
    (h : 4 < (VarInt.encodeToTwosComplement (d.digits.length - d.exponent)).length) :
    d.encodeToSerializedBigDecimal = some ([], true) := by
  simp [encodeToSerializedBigDecimal, h]

theorem encodeToSerializedBigDecimal_of_fit {d : Decimal} {scale : List UInt8}
    (hd : DigitsLt d.digits)
    (hscale : VarInt.encodeToTwosComplement (d.digits.length - d.exponent) = scale)
    (h : scale.length ≤ 4) :
    d.encodeToSerializedBigDecimal = some (List.replicate (4 - scale.length) (signByte scale) ++
      scale ++ VarInt.encodeToTwosComplement
        (if d.isPositive then (digitsValue d.digits : Int) else -digitsValue d.digits), false) := by
  have hread (hne : d.digits ≠ []) :
      VarInt.fromString (d.digits.map digitChar) = .ok (digitsValue d.digits : Int) := by
    simpa using fromString_digits hne hd false
  have hsign : (if (d.digits.length : Int) - d.exponent < 0 then (0xff : UInt8) else 0) =
      signByte scale := by
    rw [← hscale, VarInt.signByte_encodeToTwosComplement]
  simp only [encodeToSerializedBigDecimal, hscale, gt_iff_lt, not_lt.mpr h, if_false, hsign]
  -- the source reads no digits as the number zero
  split
  · rename_i hempty
    simp [List.isEmpty_iff.mp hempty]
  · rename_i hne
    rw [hread (by simpa using hne)]
    rfl

/-! ### The round trip -/

theorem unscaled_value (d : Decimal) :
    ((if d.isPositive then (digitsValue d.digits : Int) else -digitsValue d.digits : Int) : ℚ) *
      10 ^ (-((d.digits.length : Int) - d.exponent)) = d.value := by
  rw [show d.value = _ from value_eq_digitsValue d.digits d.exponent d.isPositive, neg_sub]
  cases d.isPositive <;> simp

/-- For a valid decimal, `EncodeToSerializedBigDecimal` reports the scale out of range exactly when
four bytes of two's complement do not hold it. Otherwise it writes four bytes of scale and at least
one byte of unscaled number, `unscaled × 10 ^ -scale` is the decimal, and
`DecodeFromSerializedBigDecimal` reads the decimal back. -/
theorem serializedBigDecimal_roundTrip {d : Decimal} (hv : d.Valid) :
    ∃ bytes outOfRange, d.encodeToSerializedBigDecimal = some (bytes, outOfRange) ∧
      (outOfRange = true ↔ ¬ InTwosRange 4 (d.digits.length - d.exponent)) ∧
      (outOfRange = false → 4 < bytes.length ∧
        (signedBE (bytes.drop 4) : ℚ) * 10 ^ (-signedBE (bytes.take 4)) = d.value ∧
        decodeFromSerializedBigDecimal bytes = .ok d) := by
  obtain ⟨-, hS⟩ := VarInt.signedBE_encodeToTwosComplement (d.digits.length - d.exponent)
  have hfit := VarInt.length_encodeToTwosComplement_le_iff (by norm_num : 1 ≤ 4)
    ((d.digits.length : Int) - d.exponent)
  generalize hscale : VarInt.encodeToTwosComplement (d.digits.length - d.exponent) = S at hS hfit
  by_cases hle : S.length ≤ 4
  · -- the scale fits: four bytes of it, then the unscaled number
    generalize hm : (if d.isPositive then (digitsValue d.digits : Int)
      else -digitsValue d.digits) = m
    obtain ⟨hMne, hM⟩ := VarInt.signedBE_encodeToTwosComplement m
    set A := List.replicate (4 - S.length) (signByte S) ++ S with hA
    set M := VarInt.encodeToTwosComplement m
    have hlen4 : A.length = 4 := by
      simp only [hA, List.length_append, List.length_replicate]
      omega
    have hlen : 5 ≤ (A ++ M).length := by
      rw [List.length_append, hlen4]
      have := List.length_pos_iff.mpr hMne
      omega
    have htake : (A ++ M).take 4 = A := List.take_left' hlen4
    have hdrop : (A ++ M).drop 4 = M := List.drop_left' hlen4
    have hvalue : (signedBE M : ℚ) * 10 ^ (-signedBE A) = d.value := by
      rw [hA, signedBE_signExtend, hS, hM, ← hm, unscaled_value]
    have henc : d.encodeToSerializedBigDecimal = some (A ++ M, false) :=
      (encodeToSerializedBigDecimal_of_fit hv.digitsLt hscale hle).trans (by rw [hm])
    refine ⟨A ++ M, false, henc, by simpa using hfit.mp hle,
      fun _ => ⟨by omega, by rw [htake, hdrop, hvalue], ?_⟩⟩
    obtain ⟨ds, hds, hval, hdec⟩ := decodeFromSerializedBigDecimal_eq hlen
    rw [hdrop] at hval
    rw [htake, hdrop] at hdec
    rw [hdec, makeCanonical_eq_of_value_eq hv hds (by rw [value_unscaled hval, hvalue])]
  · have henc := encodeToSerializedBigDecimal_of_not_fit (by rw [hscale]; omega : 4 < _)
    refine ⟨[], true, henc, ?_, by simp⟩
    simpa using fun hin => hle (hfit.mpr hin)

theorem serializedBigDecimal_roundTrip_negative :
    (⟨[1, 2, 5], 2, false⟩ : Decimal).Valid ∧
      ∃ bytes outOfRange,
        (⟨[1, 2, 5], 2, false⟩ : Decimal).encodeToSerializedBigDecimal = some (bytes, outOfRange) ∧
        (outOfRange = true ↔ ¬ InTwosRange 4 ((3 : Nat) - (2 : Int))) ∧
        (outOfRange = false → 4 < bytes.length ∧
          (signedBE (bytes.drop 4) : ℚ) * 10 ^ (-signedBE (bytes.take 4)) =
            (⟨[1, 2, 5], 2, false⟩ : Decimal).value ∧
          decodeFromSerializedBigDecimal bytes = .ok ⟨[1, 2, 5], 2, false⟩) :=
  ⟨by decide, serializedBigDecimal_roundTrip (by decide)⟩

end Decimal

end FrescoDB.Util
