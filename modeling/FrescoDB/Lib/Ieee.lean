import FrescoDB.Lib.Bitfield

/-! The IEEE 754 `<` of binary floating-point numbers, read off their bit
patterns: a sign bit above `eBits` exponent bits and `mBits` fraction bits.
NaNs are unordered, the two zeros are equal, and otherwise the order is that
of sign and magnitude. Reflecting the negative patterns below the sign bit and
moving the others above it (`signFlip`) turns that order into the order of
unsigned numbers, save for the two zeros, which it separates, and for NaNs,
which it places at both ends. -/
namespace FrescoDB.Lib

/-- A binary interchange format. -/
structure BinaryFormat where
  eBits : Nat
  mBits : Nat

namespace BinaryFormat

/-- `binary32` (`float`) and `binary64` (`double`). -/
def binary32 : BinaryFormat := ⟨8, 23⟩
def binary64 : BinaryFormat := ⟨11, 52⟩

/-- The sign bit of a bit pattern. -/
def sign (f : BinaryFormat) (x : Nat) : Bool := x / 2 ^ (f.eBits + f.mBits) % 2 = 1

/-- Exponent and fraction together, below the sign bit. -/
def magnitude (f : BinaryFormat) (x : Nat) : Nat := x % 2 ^ (f.eBits + f.mBits)

/-- All exponent bits set and a nonzero fraction. -/
def isNaN (f : BinaryFormat) (x : Nat) : Bool := f.magnitude x > (2 ^ f.eBits - 1) * 2 ^ f.mBits

/-- IEEE `<` on bit patterns. -/
def lt (f : BinaryFormat) (x y : Nat) : Bool :=
  if f.isNaN x || f.isNaN y then false
  else match f.sign x, f.sign y with
    | false, false => f.magnitude x < f.magnitude y
    | true, true => f.magnitude y < f.magnitude x
    | true, false => !(f.magnitude x = 0 && f.magnitude y = 0)
    | false, true => false

theorem lt_irrefl (f : BinaryFormat) (x : Nat) : f.lt x x = false := by
  unfold lt
  split
  · rfl
  · split <;> simp_all

variable (f : BinaryFormat)

/-- The biased exponent field. -/
def exponent (x : Nat) : Nat := x / 2 ^ f.mBits % 2 ^ f.eBits

/-- The fraction field. -/
def fraction (x : Nat) : Nat := x % 2 ^ f.mBits

/-- The quiet NaN with a clear sign bit and only the top fraction bit set. -/
def quietNaN : Nat := (2 ^ f.eBits - 1) * 2 ^ f.mBits + 2 ^ (f.mBits - 1)

/-- The unsigned number whose order is that of the value of a pattern below `2 ^ (eBits + mBits + 1)`:
a negative pattern is reflected below the sign bit, a positive one moved above it. -/
def signFlip (x : Nat) : Nat :=
  if f.sign x then 2 ^ (f.eBits + f.mBits + 1) - 1 - x else x + 2 ^ (f.eBits + f.mBits)

-- Equation lemmas, made once before their uses.
section
attribute [local simp] isNaN signFlip
end

/-- `x` and `y` are the two zeros, `+0` and `-0` in some order. -/
def OppositeZeros (x y : Nat) : Prop := f.magnitude x = 0 ∧ f.magnitude y = 0 ∧ x ≠ y

instance (x y : Nat) : Decidable (f.OppositeZeros x y) := inferInstanceAs (Decidable (_ ∧ _ ∧ _))

variable {f}

theorem magnitude_eq (x : Nat) : f.magnitude x = f.exponent x * 2 ^ f.mBits + f.fraction x := by
  rw [magnitude, exponent, fraction, Nat.pow_add, Nat.mul_comm (2 ^ f.eBits), Nat.mod_mul]
  ring

theorem isNaN_iff (x : Nat) :
    f.isNaN x = true ↔ f.exponent x = 2 ^ f.eBits - 1 ∧ f.fraction x ≠ 0 := by
  have he : f.exponent x < 2 ^ f.eBits := Nat.mod_lt _ (Nat.two_pow_pos _)
  have hm : f.fraction x < 2 ^ f.mBits := Nat.mod_lt _ (Nat.two_pow_pos _)
  rw [isNaN, magnitude_eq, decide_eq_true_iff]
  constructor
  · intro h
    have hexp : f.exponent x = 2 ^ f.eBits - 1 := by
      by_contra hne
      have hle : f.exponent x + 1 ≤ 2 ^ f.eBits - 1 := by omega
      have := Nat.mul_le_mul_right (2 ^ f.mBits) hle
      rw [Nat.add_mul, Nat.one_mul] at this
      omega
    refine ⟨hexp, ?_⟩
    rw [hexp] at h
    omega
  · rintro ⟨hexp, hfrac⟩
    rw [hexp]
    omega

theorem sign_eq (x : Nat) (hx : x < 2 ^ (f.eBits + f.mBits + 1)) :
    f.sign x = decide (2 ^ (f.eBits + f.mBits) ≤ x) := by
  rw [Nat.pow_succ] at hx
  rw [sign]
  by_cases h : 2 ^ (f.eBits + f.mBits) ≤ x
  · have : x / 2 ^ (f.eBits + f.mBits) = 1 := Nat.div_eq_of_lt_le (by omega) (by omega)
    simp [this, h]
  · have : x / 2 ^ (f.eBits + f.mBits) = 0 := Nat.div_eq_of_lt (by omega)
    simp [this, h]

theorem magnitude_of_lt {x : Nat} (hx : x < 2 ^ (f.eBits + f.mBits)) : f.magnitude x = x :=
  Nat.mod_eq_of_lt hx

theorem magnitude_of_le {x : Nat} (h1 : 2 ^ (f.eBits + f.mBits) ≤ x)
    (h2 : x < 2 ^ (f.eBits + f.mBits + 1)) : f.magnitude x = x - 2 ^ (f.eBits + f.mBits) := by
  rw [magnitude, Nat.mod_eq_sub_mod h1, Nat.mod_eq_of_lt]
  rw [Nat.pow_succ] at h2
  omega

theorem signFlip_lt {x : Nat} (hx : x < 2 ^ (f.eBits + f.mBits + 1)) :
    f.signFlip x < 2 ^ (f.eBits + f.mBits + 1) := by
  have hW := Nat.pow_succ 2 (f.eBits + f.mBits)
  rw [signFlip, f.sign_eq x hx]
  by_cases hs : 2 ^ (f.eBits + f.mBits) ≤ x <;> simp [hs] <;> omega

/-- `signFlip` as the bit operations compute it: a negative pattern is complemented, a positive
one gets its sign bit set. -/
theorem signFlip_eq_xor {x : Nat} (hx : x < 2 ^ (f.eBits + f.mBits + 1)) :
    f.signFlip x = if 2 ^ (f.eBits + f.mBits) ≤ x then 2 ^ (f.eBits + f.mBits + 1) - 1 - x
      else x ^^^ 2 ^ (f.eBits + f.mBits) := by
  rw [signFlip, f.sign_eq x hx]
  by_cases hs : 2 ^ (f.eBits + f.mBits) ≤ x
  · simp [hs]
  · simp [hs, xor_two_pow_of_lt (Nat.lt_of_not_le hs)]

theorem OppositeZeros.symm {x y : Nat} (h : f.OppositeZeros x y) : f.OppositeZeros y x :=
  ⟨h.2.1, h.1, h.2.2.symm⟩

theorem OppositeZeros.isNaN_left {x y : Nat} (h : f.OppositeZeros x y) : f.isNaN x = false := by
  simp [isNaN, h.1]

/-- Away from NaNs and from the two zeros of opposite signs, IEEE < is the order of the flipped
patterns. -/
theorem lt_iff_signFlip_lt {x y : Nat} (hx : x < 2 ^ (f.eBits + f.mBits + 1))
    (hy : y < 2 ^ (f.eBits + f.mBits + 1)) (hnx : f.isNaN x = false) (hny : f.isNaN y = false)
    (hz : ¬ f.OppositeZeros x y) :
    f.lt x y = true ↔ f.signFlip x < f.signFlip y := by
  have hW := Nat.pow_succ 2 (f.eBits + f.mBits)
  simp only [OppositeZeros, not_and] at hz
  simp only [lt, hnx, hny, Bool.or_false, Bool.false_eq_true, if_false, signFlip, f.sign_eq x hx,
    f.sign_eq y hy]
  by_cases hsx : 2 ^ (f.eBits + f.mBits) ≤ x <;> by_cases hsy : 2 ^ (f.eBits + f.mBits) ≤ y
  · -- two negative patterns: the larger magnitude is the smaller value
    rw [magnitude_of_le hsx hx, magnitude_of_le hsy hy]
    simp [hsx, hsy]
    omega
  · rw [magnitude_of_le hsx hx, magnitude_of_lt (Nat.lt_of_not_le hsy)] at hz ⊢
    simp [hsx, hsy]
    omega
  · simp [hsx, hsy]
    omega
  · rw [magnitude_of_lt (Nat.lt_of_not_le hsx), magnitude_of_lt (Nat.lt_of_not_le hsy)]
    simp [hsx, hsy]

theorem lt_eq_false_of_oppositeZeros {x y : Nat} (hx : x < 2 ^ (f.eBits + f.mBits + 1))
    (hy : y < 2 ^ (f.eBits + f.mBits + 1)) (hz : f.OppositeZeros x y) : f.lt x y = false := by
  have hnx := hz.isNaN_left
  have hny := hz.symm.isNaN_left
  obtain ⟨hmx, hmy, hne⟩ := hz
  have hW := Nat.pow_succ 2 (f.eBits + f.mBits)
  simp only [lt, hnx, hny, Bool.or_false, Bool.false_eq_true, if_false, f.sign_eq x hx,
    f.sign_eq y hy, hmx, hmy]
  by_cases hsx : 2 ^ (f.eBits + f.mBits) ≤ x <;> by_cases hsy : 2 ^ (f.eBits + f.mBits) ≤ y
  · rw [magnitude_of_le hsx hx] at hmx
    rw [magnitude_of_le hsy hy] at hmy
    omega
  · simp [hsx, hsy]
  · simp [hsx, hsy]
  · rw [magnitude_of_lt (Nat.lt_of_not_le hsx)] at hmx
    rw [magnitude_of_lt (Nat.lt_of_not_le hsy)] at hmy
    omega

theorem signFlip_injective {x y : Nat} (hx : x < 2 ^ (f.eBits + f.mBits + 1))
    (hy : y < 2 ^ (f.eBits + f.mBits + 1)) (h : f.signFlip x = f.signFlip y) : x = y := by
  have hW := Nat.pow_succ 2 (f.eBits + f.mBits)
  simp only [signFlip, f.sign_eq x hx, f.sign_eq y hy] at h
  by_cases hsx : 2 ^ (f.eBits + f.mBits) ≤ x <;> by_cases hsy : 2 ^ (f.eBits + f.mBits) ≤ y <;>
    simp [hsx, hsy] at h <;> omega

section QuietNaN

variable (hm : 0 < f.mBits)
include hm

theorem quietNaN_lt : f.quietNaN < 2 ^ (f.eBits + f.mBits) := by
  have hhalf : 2 ^ (f.mBits - 1) < 2 ^ f.mBits := Nat.pow_lt_pow_right (by norm_num) (by omega)
  have hE : 1 ≤ 2 ^ f.eBits := Nat.one_le_two_pow
  have hEM : (2 ^ f.eBits - 1) * 2 ^ f.mBits + 2 ^ f.mBits = 2 ^ (f.eBits + f.mBits) := by
    rw [Nat.sub_one_mul, Nat.pow_add, Nat.sub_add_cancel (Nat.le_mul_of_pos_left _ hE)]
  rw [quietNaN]
  omega

theorem isNaN_quietNaN : f.isNaN f.quietNaN = true := by
  have hhalf : 0 < 2 ^ (f.mBits - 1) := Nat.two_pow_pos _
  rw [isNaN, magnitude_of_lt (quietNaN_lt hm), quietNaN]
  simp [hhalf]

theorem signFlip_quietNaN : f.signFlip f.quietNaN = f.quietNaN + 2 ^ (f.eBits + f.mBits) := by
  have hq := quietNaN_lt hm
  rw [signFlip, f.sign_eq _ (by rw [Nat.pow_succ]; omega)]
  simp [Nat.not_le.2 hq]

theorem signFlip_lt_signFlip_quietNaN {x : Nat} (hx : x < 2 ^ (f.eBits + f.mBits + 1))
    (hnx : f.isNaN x = false) : f.signFlip x < f.signFlip f.quietNaN := by
  have hW := Nat.pow_succ 2 (f.eBits + f.mBits)
  rw [signFlip_quietNaN hm, signFlip, f.sign_eq x hx]
  by_cases hs : 2 ^ (f.eBits + f.mBits) ≤ x
  · simp only [hs, decide_true, if_true]
    omega
  · have hmag : x ≤ (2 ^ f.eBits - 1) * 2 ^ f.mBits := by
      simpa [isNaN, magnitude_of_lt (Nat.lt_of_not_le hs)] using hnx
    have hhalf : 0 < 2 ^ (f.mBits - 1) := Nat.two_pow_pos _
    simp only [hs, decide_false, Bool.false_eq_true, if_false, quietNaN]
    omega

end QuietNaN

end BinaryFormat

end FrescoDB.Lib
