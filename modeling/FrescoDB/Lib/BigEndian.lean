import Mathlib

/-! Fixed-width big-endian byte strings of natural numbers.
The unsigned lexicographic order of two strings of one width is the numeric
order of the numbers they carry; this is what every fixed-width key encoding
of a sortable store rests on. -/
namespace FrescoDB.Lib

/-- The `w` low bytes of `v`, most significant first. -/
def toBytesBE : Nat → Nat → List UInt8
  | 0, _ => []
  | w + 1, v => UInt8.ofNat (v / 256 ^ w % 256) :: toBytesBE w v

/-- The number a big-endian byte string carries. -/
def ofBytesBE : List UInt8 → Nat
  | [] => 0
  | b :: bs => b.toNat * 256 ^ bs.length + ofBytesBE bs

-- Equation lemmas, made once before their uses.
section
attribute [local simp] toBytesBE ofBytesBE
end

@[simp] theorem length_toBytesBE (w v : Nat) : (toBytesBE w v).length = w := by
  induction w with
  | zero => rfl
  | succ w ih => simp [toBytesBE, ih]

theorem compare_uint8 (x y : UInt8) : compare x y = compare x.toNat y.toNat := by
  simp only [compare, compareOfLessAndEq, UInt8.lt_iff_toNat_lt, ← UInt8.toNat_inj]

@[simp] theorem compare_uint8_self (c : UInt8) : compare c c = .eq := Std.ReflCmp.compare_self

theorem compare_div_mod (a b M : Nat) (hM : 0 < M) :
    compare a b = (compare (a / M) (b / M)).then (compare (a % M) (b % M)) := by
  have ha := Nat.div_add_mod a M
  have hb := Nat.div_add_mod b M
  have hra := Nat.mod_lt a hM
  have hrb := Nat.mod_lt b hM
  rcases Nat.lt_trichotomy (a / M) (b / M) with h | h | h
  · have hle : M * (a / M) + M ≤ M * (b / M) := by nlinarith
    rw [Nat.compare_eq_lt.mpr h, Nat.compare_eq_lt.mpr (by omega)]
    rfl
  · rw [Nat.compare_eq_eq.mpr h, Ordering.eq_then]
    rw [h] at ha
    generalize M * (b / M) = t at ha hb
    rcases Nat.lt_trichotomy (a % M) (b % M) with h' | h' | h'
    · rw [Nat.compare_eq_lt.mpr h', Nat.compare_eq_lt.mpr (by omega)]
    · rw [h', Nat.compare_eq_eq.mpr (by omega), Nat.compare_eq_eq.mpr rfl]
    · rw [Nat.compare_eq_gt.mpr h', Nat.compare_eq_gt.mpr (by omega)]
  · have hle : M * (b / M) + M ≤ M * (a / M) := by nlinarith
    rw [Nat.compare_eq_gt.mpr h, Nat.compare_eq_gt.mpr (by omega)]
    rfl

theorem toNat_digit (v w : Nat) : (UInt8.ofNat (v / 256 ^ w % 256)).toNat = v / 256 ^ w % 256 := by
  rw [UInt8.toNat_ofNat']
  omega

theorem toBytesBE_mod (w v : Nat) : toBytesBE w (v % 256 ^ w) = toBytesBE w v := by
  induction w generalizing v with
  | zero => rfl
  | succ w ih =>
    have digit : v % 256 ^ (w + 1) / 256 ^ w % 256 = v / 256 ^ w % 256 := by
      rw [Nat.pow_succ, Nat.mod_mul_right_div_self, Nat.mod_mod]
    have low : v % 256 ^ (w + 1) % 256 ^ w = v % 256 ^ w :=
      Nat.mod_mod_of_dvd v (Nat.pow_dvd_pow 256 (Nat.le_succ w))
    simp only [toBytesBE, digit]
    rw [← ih (v % 256 ^ (w + 1)), low, ih]

theorem ofBytesBE_lt (bs : List UInt8) : ofBytesBE bs < 256 ^ bs.length := by
  induction bs with
  | nil => simp [ofBytesBE]
  | cons b bs ih =>
    have hb : b.toNat < 256 := b.toNat_lt
    have step : (b.toNat + 1) * 256 ^ bs.length ≤ 256 * 256 ^ bs.length :=
      Nat.mul_le_mul_right _ hb
    simp only [ofBytesBE, List.length_cons, Nat.pow_succ]
    nlinarith

theorem ofBytesBE_toBytesBE (w v : Nat) : ofBytesBE (toBytesBE w v) = v % 256 ^ w := by
  induction w with
  | zero => simp [toBytesBE, ofBytesBE, Nat.mod_one]
  | succ w ih =>
    simp only [toBytesBE, ofBytesBE, length_toBytesBE, ih, toNat_digit]
    rw [Nat.pow_succ, Nat.mod_mul]
    ring

theorem toBytesBE_ofBytesBE (bs : List UInt8) : toBytesBE bs.length (ofBytesBE bs) = bs := by
  induction bs with
  | nil => rfl
  | cons b bs ih =>
    have hlt := ofBytesBE_lt bs
    have hpos : 0 < 256 ^ bs.length := Nat.pow_pos (by decide)
    have hdiv : (b.toNat * 256 ^ bs.length + ofBytesBE bs) / 256 ^ bs.length = b.toNat := by
      rw [Nat.add_comm, Nat.add_mul_div_right _ _ hpos, Nat.div_eq_of_lt hlt, Nat.zero_add]
    have hmod : (b.toNat * 256 ^ bs.length + ofBytesBE bs) % 256 ^ bs.length = ofBytesBE bs := by
      rw [Nat.add_comm, Nat.add_mul_mod_self_right, Nat.mod_eq_of_lt hlt]
    have head : UInt8.ofNat (b.toNat % 256) = b := by
      rw [Nat.mod_eq_of_lt b.toNat_lt]
      exact UInt8.ofNat_toNat
    simp only [ofBytesBE, List.length_cons, toBytesBE, hdiv, head]
    rw [← toBytesBE_mod, hmod, ih]

theorem compare_toBytesBE (w a b : Nat) (ha : a < 256 ^ w) (hb : b < 256 ^ w) :
    compare (toBytesBE w a) (toBytesBE w b) = compare a b := by
  induction w generalizing a b with
  | zero =>
    have ha0 : a = 0 := by simpa using ha
    have hb0 : b = 0 := by simpa using hb
    simp [toBytesBE, ha0, hb0]
  | succ w ih =>
    have hpos : 0 < 256 ^ w := Nat.pow_pos (by decide)
    have hqa : a / 256 ^ w < 256 := by
      rw [Nat.div_lt_iff_lt_mul hpos]; rw [Nat.pow_succ] at ha; linarith
    have hqb : b / 256 ^ w < 256 := by
      rw [Nat.div_lt_iff_lt_mul hpos]; rw [Nat.pow_succ] at hb; linarith
    have tail := ih (a % 256 ^ w) (b % 256 ^ w) (Nat.mod_lt _ hpos) (Nat.mod_lt _ hpos)
    rw [toBytesBE_mod, toBytesBE_mod] at tail
    simp only [toBytesBE, List.compare_cons_cons, compare_uint8, toNat_digit, tail]
    rw [Nat.mod_eq_of_lt hqa, Nat.mod_eq_of_lt hqb]
    exact (compare_div_mod a b _ hpos).symm

theorem compare_sub_sub {n a b : Nat} (ha : a ≤ n) (hb : b ≤ n) :
    compare (n - a) (n - b) = compare b a := by
  rcases Nat.lt_trichotomy a b with h | rfl | h
  · rw [Nat.compare_eq_gt.2 (by omega), Nat.compare_eq_gt.2 h]
  · simp
  · rw [Nat.compare_eq_lt.2 (by omega), Nat.compare_eq_lt.2 h]

theorem toBytesBE_eq_map_range (w x : Nat) :
    toBytesBE w x = (List.range w).map fun k => UInt8.ofNat (x / 256 ^ (w - 1 - k) % 256) := by
  induction w with
  | zero => rfl
  | succ w ih =>
    rw [List.range_succ_eq_map, List.map_cons, List.map_map, toBytesBE, ih]
    simp only [Nat.add_sub_cancel, Nat.sub_zero, List.cons.injEq, true_and]
    apply List.map_congr_left
    intro k _
    simp only [Function.comp_apply, Nat.succ_eq_add_one]
    rw [show w - (k + 1) = w - 1 - k by omega]

theorem toBytesBE_succ_eq_concat (w x : Nat) :
    toBytesBE (w + 1) x = toBytesBE w (x / 256) ++ [UInt8.ofNat (x % 256)] := by
  induction w generalizing x with
  | zero => simp [toBytesBE]
  | succ w ih =>
    rw [toBytesBE, ih, toBytesBE, Nat.div_div_eq_div_mul, ← Nat.pow_succ']
    rfl

end FrescoDB.Lib
