import Mathlib

/-! Fields of a machine word held as a natural number: field `i` of width
`w` is bits `w * i` to `w * i + w - 1`. A word masked with an `|||` of field
masks is zero exactly when each of those fields is zero; this is how a set
of packed counters is tested against a set of fields in one instruction. -/
namespace FrescoDB.Lib

/-- Field `i` of width `w` of `x`. -/
def field (w i x : Nat) : Nat := x / 2 ^ (w * i) % 2 ^ w

/-- All ones in field `i`: `((1 << w) - 1) << (w * i)`. -/
def fieldMask (w i : Nat) : Nat := (2 ^ w - 1) <<< (w * i)

theorem and_fieldMask (w i x : Nat) : x &&& fieldMask w i = field w i x <<< (w * i) := by
  apply Nat.eq_of_testBit_eq
  intro j
  simp only [fieldMask, field, Nat.testBit_and, Nat.testBit_shiftLeft, Nat.testBit_two_pow_sub_one,
    Nat.testBit_mod_two_pow, ← Nat.shiftRight_eq_div_pow, Nat.testBit_shiftRight]
  by_cases hj : w * i ≤ j
  · have e : w * i + (j - w * i) = j := by omega
    simp [hj, e, Bool.and_comm]
  · simp [hj]

theorem and_fieldMask_eq_zero (w i x : Nat) : x &&& fieldMask w i = 0 ↔ field w i x = 0 := by
  rw [and_fieldMask, Nat.shiftLeft_eq_zero_iff]

theorem and_foldl_or_eq_zero (x r : Nat) (ms : List Nat) :
    x &&& ms.foldl (· ||| ·) r = 0 ↔ x &&& r = 0 ∧ ∀ m ∈ ms, x &&& m = 0 := by
  induction ms generalizing r with
  | nil => simp
  | cons m ms ih =>
    rw [List.foldl_cons, ih, Nat.and_or_distrib_left, Nat.or_eq_zero_iff]
    simp only [List.mem_cons, forall_eq_or_imp]
    tauto

theorem xor_two_pow_of_lt {x n : Nat} (h : x < 2 ^ n) : x ^^^ 2 ^ n = x + 2 ^ n := by
  apply Nat.eq_of_testBit_eq
  intro i
  rw [Nat.add_comm, Nat.testBit_xor, Nat.testBit_two_pow]
  rcases Nat.lt_trichotomy i n with hi | rfl | hi
  · rw [Nat.testBit_two_pow_add_gt hi]
    simp [Nat.ne_of_gt hi]
  · rw [Nat.testBit_two_pow_add_eq, Nat.testBit_lt_two_pow h]
    simp
  · -- above bit `n` both sides are zero
    have hle : 2 ^ (n + 1) ≤ 2 ^ i := Nat.pow_le_pow_right (by norm_num) hi
    rw [Nat.pow_succ] at hle
    rw [Nat.testBit_lt_two_pow (show x < 2 ^ i by omega),
      Nat.testBit_lt_two_pow (show 2 ^ n + x < 2 ^ i by omega)]
    simp [Nat.ne_of_lt hi]

theorem shiftRight_ne_zero_iff {x n : Nat} : x >>> n ≠ 0 ↔ 2 ^ n ≤ x := by
  rw [Nat.shiftRight_eq_div_pow, ne_eq, Nat.div_eq_zero_iff]
  have := Nat.two_pow_pos n
  omega

end FrescoDB.Lib
