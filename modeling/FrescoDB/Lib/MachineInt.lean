import Mathlib

/-! Signed 64-bit integers through their unsigned bits.
`Int64` is two's complement over `UInt64`: a value is negative exactly when
its bits reach `2^63`, and arithmetic and shifts act on the bits. Facts about
codecs are proved on `Nat`, so these lemmas move between the three views. -/
namespace FrescoDB.Lib

theorem int64_toUInt64_toNat (v : Int64) : v.toUInt64.toNat = v.toBitVec.toNat := rfl

theorem int64_toInt_eq (v : Int64) :
    v.toInt = if v.toUInt64.toNat < 2 ^ 63 then (v.toUInt64.toNat : Int)
      else (v.toUInt64.toNat : Int) - 2 ^ 64 := by
  rw [int64_toUInt64_toNat]
  simp only [Int64.toInt, BitVec.toInt]
  split <;> omega

theorem int64_toUInt64_toNat_of_nonneg {v : Int64} (hv : 0 ≤ v.toInt) :
    (v.toUInt64.toNat : Int) = v.toInt := by
  have hlt := v.toUInt64.toNat_lt
  rw [int64_toInt_eq] at hv ⊢
  split_ifs at hv ⊢ <;> omega

theorem int64_lt_zero_iff (v : Int64) : v < 0 ↔ 2 ^ 63 ≤ v.toUInt64.toNat := by
  rw [Int64.lt_iff_toInt_lt, int64_toInt_eq]
  have := v.toUInt64.toNat_lt
  split <;> simp <;> omega

theorem int64_toUInt64_shiftRight {y s : Int64} {k : Nat} (hs : s.toBitVec.smod 64 = k)
    (hk : k < 64) (hy : y.toUInt64.toNat < 2 ^ 63) : (y >>> s).toUInt64.toNat = y.toUInt64.toNat / 2 ^ k := by
  have hmsb : y.toBitVec.msb = false := by
    rw [BitVec.msb_eq_decide, ← int64_toUInt64_toNat]
    simp only [decide_eq_false_iff_not, not_le]
    omega
  rw [int64_toUInt64_toNat, int64_toUInt64_toNat, Int64.toBitVec_shiftRight, hs,
    BitVec.sshiftRight', BitVec.sshiftRight_eq_of_msb_false hmsb, BitVec.toNat_ushiftRight,
    Nat.shiftRight_eq_div_pow]
  simp only [BitVec.natCast_eq_ofNat, BitVec.toNat_ofNat]
  rw [Nat.mod_eq_of_lt (show k < 2 ^ 64 by omega)]

theorem int64_toUInt64_shiftLeft {a s : Int64} {k : Nat} (hs : s.toBitVec.smod 64 = k)
    (hk : k < 64) :
    (a <<< s).toUInt64.toNat = a.toUInt64.toNat * 2 ^ k % 2 ^ 64 := by
  rw [int64_toUInt64_toNat, int64_toUInt64_toNat, Int64.toBitVec_shiftLeft, hs,
    BitVec.shiftLeft_eq', BitVec.toNat_shiftLeft, Nat.shiftLeft_eq]
  simp only [BitVec.natCast_eq_ofNat, BitVec.toNat_ofNat]
  rw [Nat.mod_eq_of_lt (show k < 2 ^ 64 by omega)]

end FrescoDB.Lib
