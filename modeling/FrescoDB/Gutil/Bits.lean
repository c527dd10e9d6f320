import Mathlib

/-! Base-2 logarithms of machine words (`gutil/bits.{h,cc}`). `Log2Floor` is the position of the
highest set bit, through `__builtin_clz`; `Log2Ceiling` adds one unless the word is zero or a
power of two, which it tests as `n == (n & ~(n - 1))`. A word whose two lowest bits are set is
neither, so its ceiling is its floor plus one. -/
namespace FrescoDB.Gutil

/-- `Bits::Log2Floor` and `Bits::Log2Floor64` on a `w`-bit word: `(w - 1) ^ __builtin_clz(n)`,
the position of the highest set bit, and `-1` for zero. -/
def log2FloorOf {w : Nat} (n : BitVec w) : Int := if n = 0 then -1 else n.toNat.log2

/-- `Bits::Log2Ceiling` and `Bits::Log2Ceiling64` on a `w`-bit word. -/
def log2CeilingOf {w : Nat} (n : BitVec w) : Int :=
  let floor := log2FloorOf n
  -- zero or a power of two
  if n = (n &&& ~~~(n - 1)) then floor else floor + 1

/-- `Bits::Log2Ceiling(uint32)`. -/
def log2Ceiling (n : UInt32) : Int := log2CeilingOf n.toBitVec

/-- `Bits::Log2Ceiling64(uint64)`. -/
def log2Ceiling64 (n : UInt64) : Int := log2CeilingOf n.toBitVec

theorem and_not_sub_one_ne {w : Nat} {n : BitVec w} (hw : 2 ≤ w) (hn : n.toNat % 4 = 3) :
    n ≠ (n &&& ~~~(n - 1)) := by
  intro h
  have hbit := congrArg (fun x => x.getLsbD 1) h
  simp only [BitVec.getLsbD_and, BitVec.getLsbD_not] at hbit
  have hlt := n.isLt
  have hbit1 : n.getLsbD 1 = true := by
    simp only [BitVec.getLsbD, Nat.testBit_eq_decide_div_mod_eq]
    simp
    omega
  -- `n - 1` ends in `10`, so its complement clears bit 1
  have hpred : (n - 1).getLsbD 1 = true := by
    have hpow : 2 ≤ 2 ^ w :=
      calc 2 = 2 ^ 1 := by norm_num
        _ ≤ 2 ^ w := Nat.pow_le_pow_right (by norm_num) (by omega)
    have hone : (1 : BitVec w).toNat = 1 := BitVec.toNat_one (by omega)
    have hsub : (n - 1).toNat = n.toNat - 1 := by
      rw [BitVec.toNat_sub, hone, show 2 ^ w - 1 + n.toNat = n.toNat - 1 + 2 ^ w by omega,
        Nat.add_mod_right, Nat.mod_eq_of_lt (by omega)]
    simp only [BitVec.getLsbD, hsub, Nat.testBit_eq_decide_div_mod_eq]
    simp
    omega
  rw [hbit1, hpred] at hbit
  simp at hbit

/-- The ceiling of a word with its two lowest bits set is one above the position of its highest
bit. -/
theorem log2CeilingOf_of_mod_four {w : Nat} {n : BitVec w} (hw : 2 ≤ w) (hn : n.toNat % 4 = 3) :
    log2CeilingOf n = n.toNat.log2 + 1 := by
  have hne : n ≠ 0 := by
    intro h
    rw [h] at hn
    simp at hn
  simp only [log2CeilingOf, log2FloorOf, if_neg hne, if_neg (and_not_sub_one_ne hw hn)]

theorem log2Ceiling64_of_mod_four {n : UInt64} (hn : n.toNat % 4 = 3) :
    log2Ceiling64 n = n.toNat.log2 + 1 :=
  log2CeilingOf_of_mod_four (by norm_num) hn

end FrescoDB.Gutil
