import FrescoDB.Lib.BigEndian

/-! Two's complement in big-endian bytes. A string's value is its unsigned value, less `256 ^ n`
when the top bit of its first byte is set. `n` bytes write exactly the numbers of
`[-2 ^ (8n - 1), 2 ^ (8n - 1))`, each as the `n` low bytes of the number, so the shortest string
that writes a number has the least width whose range holds it. The complement of a string and the
string itself add up to `256 ^ n - 1`. -/
namespace FrescoDB.Lib

/-- The numbers `w` bytes of two's complement write. -/
def InTwosRange (w : Nat) (v : Int) : Prop := -2 ^ (8 * w - 1) ≤ v ∧ v < 2 ^ (8 * w - 1)

/-- The two's complement value of a big-endian byte string. -/
def signedBE (bs : List UInt8) : Int :=
  ofBytesBE bs - if 128 ≤ (bs.headD 0).toNat then 256 ^ bs.length else 0

-- Equation lemmas, made once before their uses.
section
attribute [local simp] signedBE
end

theorem two_pow_width (l : Nat) : (2 : Int) ^ (8 * (l + 1) - 1) = 128 * 256 ^ l := by
  rw [show 8 * (l + 1) - 1 = 7 + 8 * l by omega, pow_add, pow_mul]
  norm_num

theorem two_pow_width_nat (l : Nat) : 2 ^ (8 * (l + 1) - 1) = 128 * 256 ^ l := by
  rw [show 8 * (l + 1) - 1 = 7 + 8 * l by omega, pow_add, pow_mul]
  rfl

/-- `w` is the least width whose range holds `v`. -/
def IsLeastWidth (w : Nat) (v : Int) : Prop :=
  1 ≤ w ∧ InTwosRange w v ∧ (w = 1 ∨ ¬ InTwosRange (w - 1) v)

theorem InTwosRange.mono {w w' : Nat} {v : Int} (h : InTwosRange w v) (hw : w ≤ w') :
    InTwosRange w' v := by
  have hpow : (2 : Int) ^ (8 * w - 1) ≤ 2 ^ (8 * w' - 1) :=
    pow_le_pow_right₀ (by norm_num) (by omega)
  exact ⟨by linarith [h.1], by linarith [h.2]⟩

theorem inTwosRange_iff_natAbs {w : Nat} {v : Int} :
    InTwosRange w v ↔
      if v < 0 then v.natAbs ≤ 2 ^ (8 * w - 1) else v.natAbs < 2 ^ (8 * w - 1) := by
  have hcast : ((2 ^ (8 * w - 1) : Nat) : Int) = 2 ^ (8 * w - 1) := by push_cast; rfl
  unfold InTwosRange
  split <;> omega

set_option maxRecDepth 8192 in
theorem and_0x80_ne_zero_iff (b : UInt8) : b &&& 0x80 ≠ 0 ↔ 128 ≤ b.toNat := by
  have hb := b.toNat_lt
  rw [ne_eq, ← UInt8.toNat_inj, UInt8.toNat_and]
  have key : ∀ n < 256, (¬ n &&& 128 = 0 ↔ 128 ≤ n) := by decide
  exact key b.toNat hb

theorem toNat_emod_pow_of_neg {w : Nat} {v : Int} (hv : v < 0) (hm : v.natAbs ≤ 256 ^ w) :
    (v % 256 ^ w).toNat = 256 ^ w - v.natAbs := by
  have hcast : ((256 ^ w : Nat) : Int) = 256 ^ w := by push_cast; rfl
  have hmod : v % 256 ^ w = v + 256 ^ w := by
    rw [← Int.add_emod_right, Int.emod_eq_of_lt (by omega) (by omega)]
  omega

theorem toNat_emod_pow_of_nonneg {w : Nat} {v : Int} (hv : 0 ≤ v) (hm : v.natAbs < 256 ^ w) :
    (v % 256 ^ w).toNat = v.natAbs := by
  have hcast : ((256 ^ w : Nat) : Int) = 256 ^ w := by push_cast; rfl
  rw [Int.emod_eq_of_lt hv (by omega)]
  omega

/-! Values of byte strings. -/

theorem ofBytesBE_append_singleton (bs : List UInt8) (b : UInt8) :
    ofBytesBE (bs ++ [b]) = ofBytesBE bs * 256 + b.toNat := by
  induction bs with
  | nil => simp [ofBytesBE]
  | cons c bs ih =>
    simp only [List.cons_append, ofBytesBE, List.length_append, List.length_singleton, ih,
      pow_succ]
    ring

theorem ofBytesBE_map_not (bs : List UInt8) :
    ofBytesBE (bs.map (~~~·)) + ofBytesBE bs + 1 = 256 ^ bs.length := by
  induction bs with
  | nil => rfl
  | cons b bs ih =>
    have hb : b.toNat ≤ 255 := Nat.lt_succ_iff.mp b.toNat_lt
    have hnot : (~~~b).toNat + b.toNat = 255 := by
      rw [UInt8.toNat_not]
      change 256 - 1 - b.toNat + b.toNat = 255
      omega
    simp only [List.map_cons, ofBytesBE, List.length_map, List.length_cons, pow_succ]
    calc (~~~b).toNat * 256 ^ bs.length + ofBytesBE (bs.map (~~~·)) +
          (b.toNat * 256 ^ bs.length + ofBytesBE bs) + 1
        = ((~~~b).toNat + b.toNat) * 256 ^ bs.length +
            (ofBytesBE (bs.map (~~~·)) + ofBytesBE bs + 1) := by ring
      _ = 256 ^ bs.length * 256 := by rw [hnot, ih]; ring

theorem ofBytesBE_eq_zero_of_forall {bs : List UInt8} (h : ∀ b ∈ bs, b = 0) : ofBytesBE bs = 0 := by
  induction bs with
  | nil => rfl
  | cons b bs ih =>
    rw [List.forall_mem_cons] at h
    simp [ofBytesBE, h.1, ih h.2]

theorem not_eq_0xff_iff (b : UInt8) : ~~~b = 0xff ↔ b = 0 := by
  rw [← UInt8.toNat_inj, UInt8.toNat_not, ← UInt8.toNat_inj]
  change 256 - 1 - b.toNat = 255 ↔ b.toNat = 0
  have := b.toNat_lt
  omega

theorem toBytesBE_add_of_lt {k m : Nat} (hm : m < 256 ^ k) (j : Nat) :
    toBytesBE (j + k) m = List.replicate j 0 ++ toBytesBE k m := by
  induction j with
  | zero => simp
  | succ j ih =>
    have hle : 256 ^ k ≤ 256 ^ (j + k) := Nat.pow_le_pow_right (by decide) (by omega)
    rw [Nat.add_right_comm, toBytesBE, ih, List.replicate_succ, List.cons_append,
      Nat.div_eq_of_lt (lt_of_lt_of_le hm hle)]
    rfl

theorem top_bit_iff (b : UInt8) (bs : List UInt8) :
    128 ≤ b.toNat ↔ 128 * 256 ^ bs.length ≤ ofBytesBE (b :: bs) := by
  have hlt := ofBytesBE_lt bs
  simp only [ofBytesBE]
  constructor
  · intro h
    nlinarith
  · intro h
    by_contra hb
    have : b.toNat * 256 ^ bs.length ≤ 127 * 256 ^ bs.length :=
      Nat.mul_le_mul_right _ (by omega)
    omega

/-! Signed values. -/

theorem inTwosRange_signedBE {bs : List UInt8} (h : bs ≠ []) :
    InTwosRange bs.length (signedBE bs) := by
  obtain ⟨b, rest, rfl⟩ := List.exists_cons_of_ne_nil h
  have hlt := ofBytesBE_lt (b :: rest)
  have hP : ((256 ^ rest.length : Nat) : Int) = 256 ^ rest.length := by push_cast; rfl
  simp only [List.length_cons, pow_succ] at hlt
  by_cases hb : 128 ≤ b.toNat
  · -- the upper half: the number less `256 ^ n`
    have hup := (top_bit_iff b rest).mp hb
    simp only [InTwosRange, signedBE, List.length_cons, List.headD_cons, two_pow_width, hb,
      if_true, pow_succ]
    constructor <;> zify at hup hlt <;> omega
  · have hlow := mt (top_bit_iff b rest).mpr hb
    simp only [InTwosRange, signedBE, List.length_cons, List.headD_cons, two_pow_width, hb,
      if_false]
    constructor <;> zify at hlow hlt <;> omega

theorem signedBE_neg_iff {bs : List UInt8} (h : bs ≠ []) :
    signedBE bs < 0 ↔ 128 ≤ (bs.headD 0).toNat := by
  obtain ⟨b, rest, rfl⟩ := List.exists_cons_of_ne_nil h
  have hlt := ofBytesBE_lt (b :: rest)
  have hcast : ((256 ^ (b :: rest).length : Nat) : Int) = 256 ^ (b :: rest).length := by
    push_cast; rfl
  by_cases hb : 128 ≤ b.toNat
  · simp only [signedBE, List.headD_cons, hb, if_true, iff_true]
    omega
  · simp only [signedBE, List.headD_cons, hb, if_false, iff_false]
    omega

theorem signedBE_cons (b : UInt8) (bs : List UInt8) :
    signedBE (b :: bs) = ofBytesBE (b :: bs) -
      if 128 * 256 ^ bs.length ≤ ofBytesBE (b :: bs) then 256 ^ (bs.length + 1) else 0 := by
  by_cases hb : 128 ≤ b.toNat
  · simp [signedBE, hb, (top_bit_iff b bs).mp hb]
  · simp [signedBE, hb, mt (top_bit_iff b bs).mpr hb]

theorem signedBE_toBytesBE_of_lt {l x : Nat} (hx : x < 256 ^ (l + 1)) :
    signedBE (toBytesBE (l + 1) x) = x - if 128 * 256 ^ l ≤ x then 256 ^ (l + 1) else 0 := by
  have hval : ofBytesBE (toBytesBE (l + 1) x) = x := by
    rw [ofBytesBE_toBytesBE, Nat.mod_eq_of_lt hx]
  have hcons : toBytesBE (l + 1) x = UInt8.ofNat (x / 256 ^ l % 256) :: toBytesBE l x := rfl
  rw [hcons, signedBE_cons, ← hcons, hval, length_toBytesBE]

theorem signedBE_toBytesBE {w : Nat} {v : Int} (hw : 1 ≤ w) (hv : InTwosRange w v) :
    signedBE (toBytesBE w (v % 256 ^ w).toNat) = v := by
  obtain ⟨l, rfl⟩ : ∃ l, w = l + 1 := ⟨w - 1, by omega⟩
  obtain ⟨hlo, hhi⟩ := hv
  rw [two_pow_width] at hlo hhi
  have hM : (256 : Int) ^ (l + 1) = 256 * 256 ^ l := by ring
  have hpos : (0 : Int) < 256 ^ l := by positivity
  have hx := Int.emod_nonneg v (by positivity : (256 : Int) ^ (l + 1) ≠ 0)
  have hxlt := Int.emod_lt_of_pos v (by positivity : (0 : Int) < 256 ^ (l + 1))
  have hxnat : (v % 256 ^ (l + 1)).toNat < 256 ^ (l + 1) := by zify; omega
  rw [signedBE_toBytesBE_of_lt hxnat]
  rcases lt_or_ge v 0 with hneg | hnn
  · -- a negative number is written as `v + 256 ^ w`
    have hmod : v % 256 ^ (l + 1) = v + 256 ^ (l + 1) := by
      rw [← Int.add_emod_right, Int.emod_eq_of_lt (by omega) (by omega)]
    have hup : 128 * 256 ^ l ≤ (v % 256 ^ (l + 1)).toNat := by zify; omega
    rw [if_pos hup]
    omega
  · have hmod : v % 256 ^ (l + 1) = v := Int.emod_eq_of_lt hnn (by omega)
    have hlow : ¬ 128 * 256 ^ l ≤ (v % 256 ^ (l + 1)).toNat := by zify; omega
    rw [if_neg hlow]
    omega

/-- The sign byte of a string: `0xff` before a negative one, `0` before another. -/
def signByte (bs : List UInt8) : UInt8 := if 128 ≤ (bs.headD 0).toNat then 0xff else 0

theorem signByte_cons_signByte (bs rest : List UInt8) :
    signByte (signByte bs :: rest) = signByte bs := by
  unfold signByte
  split <;> simp

theorem signedBE_cons_signByte (bs : List UInt8) :
    signedBE (signByte bs :: bs) = signedBE bs := by
  by_cases hb : 128 ≤ (bs.headD 0).toNat
  · have hpow : (256 : Int) ^ (bs.length + 1) = 256 * 256 ^ bs.length := by ring
    simp only [signByte, signedBE, ofBytesBE, List.headD_cons, hb, if_true, List.length_cons]
    push_cast
    rw [hpow]
    ring
  · simp only [signByte, signedBE, ofBytesBE, List.headD_cons, if_neg hb]
    simp

theorem signedBE_signExtend (bs : List UInt8) (k : Nat) :
    signedBE (List.replicate k (signByte bs) ++ bs) = signedBE bs := by
  induction k with
  | zero => rfl
  | succ k ih =>
    -- the longer string starts with the same sign byte
    have hsign : signByte (List.replicate k (signByte bs) ++ bs) = signByte bs := by
      cases k with
      | zero => rfl
      | succ k => exact signByte_cons_signByte bs _
    rw [List.replicate_succ, List.cons_append]
    nth_rewrite 1 [← hsign]
    rw [signedBE_cons_signByte, ih]

end FrescoDB.Lib
