import FrescoDB.Util.Decimal
import FrescoDB.Lib.DigitFraction

/-! The number a `Decimal` writes, and its canonical form. `make_canonical` keeps the number and
always ends canonical. A canonical decimal of digits below ten is determined by its number, so
`IsIdenticalTo` is the equality of numbers, and `CompareTo` compares the numbers. -/
namespace FrescoDB.Util

open FrescoDB.Lib

namespace Decimal

/-- The number `± 0.d₁d₂…dₖ × 10 ^ exponent`. -/
def value (d : Decimal) : ℚ :=
  (if d.isPositive then 1 else -1) * fractionValue d.digits * 10 ^ d.exponent

-- Equation lemmas, made once before their uses.
section
attribute [local simp] value
end

theorem value_eq_digitsValue (ds : List Nat) (x : Int) (p : Bool) :
    value ⟨ds, x, p⟩ = (if p then 1 else -1) * digitsValue ds * 10 ^ (x - ds.length) := by
  rw [value, mul_assoc, fractionValue_mul_zpow, mul_assoc]

theorem value_unscaled {ds : List Nat} {m : Int} (hval : digitsValue ds = m.natAbs)
    (scale : Int) : value ⟨ds, ds.length - scale, !decide (m < 0)⟩ = m * 10 ^ (-scale) := by
  rw [value_eq_digitsValue, hval, show (ds.length : Int) - scale - ds.length = -scale by ring]
  rcases lt_or_ge m 0 with hm | hm
  · have habs : ((m.natAbs : Int) : ℚ) = -m := by
      rw [Int.ofNat_natAbs_of_nonpos hm.le, Int.cast_neg]
    rw [← Int.cast_natCast, habs]
    simp [hm]
  · have habs : ((m.natAbs : Int) : ℚ) = m := by rw [Int.natAbs_of_nonneg hm]
    rw [← Int.cast_natCast, habs]
    simp [not_lt.mpr hm]

/-- What every decimal the source builds satisfies: digits below ten, in canonical form. -/
structure Valid (d : Decimal) : Prop where
  digitsLt : DigitsLt d.digits
  isCanonical : d.isCanonical = true

instance (d : Decimal) : Decidable d.Valid :=
  decidable_of_iff (DigitsLt d.digits ∧ d.isCanonical = true)
    ⟨fun h => ⟨h.1, h.2⟩, fun h => ⟨h.1, h.2⟩⟩

theorem isCanonical_iff {d : Decimal} : d.isCanonical = true ↔
    d.digits = [] ∧ d.isPositive = true ∧ d.exponent = 0 ∨
      ∃ first rest, d.digits = first :: rest ∧ first ≠ 0 ∧ NoTrailingZero d.digits := by
  obtain ⟨digits, exponent, isPositive⟩ := d
  cases digits with
  | nil => simp [isCanonical]
  | cons first rest => simp [isCanonical, NoTrailingZero]

@[simp] theorem value_zero : zero.value = 0 := by simp [value, zero]

theorem valid_zero : zero.Valid := ⟨by simp [zero, DigitsLt], rfl⟩

/-! ### `make_canonical` -/

theorem makeCanonical_of_isCanonical {d : Decimal} (h : d.isCanonical = true) :
    makeCanonical d = d := by
  simp [makeCanonical, h]

theorem digits_split (d : Decimal) :
    d.digits = List.replicate (d.digits.takeWhile (· == 0)).length 0 ++
        d.digits.drop (d.digits.takeWhile (· == 0)).length ∧
      (d.digits.drop (d.digits.takeWhile (· == 0)).length).head? ≠ some 0 := by
  rw [drop_takeWhile_length]
  exact eq_zeros_append_dropWhile d.digits

theorem makeCanonical_cases (d : Decimal) :
    makeCanonical d = d ∧ d.isCanonical = true ∨
      ∃ k m, d.digits = List.replicate k 0 ++ m ∧ m.head? ≠ some 0 ∧
        makeCanonical d = if (popTrailingZeros (m ++ List.replicate k 0)).isEmpty then zero
          else ⟨popTrailingZeros (m ++ List.replicate k 0), d.exponent - k, d.isPositive⟩ := by
  by_cases h : d.isCanonical = true
  · exact .inl ⟨makeCanonical_of_isCanonical h, h⟩
  · obtain ⟨hsplit, hhead⟩ := digits_split d
    refine .inr ⟨_, _, hsplit, hhead, ?_⟩
    rw [makeCanonical, if_neg h]

theorem makeCanonical_value (d : Decimal) : (makeCanonical d).value = d.value := by
  rcases makeCanonical_cases d with ⟨hd, -⟩ | ⟨k, m, hsplit, -, hd⟩
  · rw [hd]
  obtain ⟨j, hj⟩ := eq_dropTrailingZeros_append (m ++ List.replicate k 0)
  -- the digits kept write the number of the digits after the zeros at the front
  have hkept : fractionValue (popTrailingZeros (m ++ List.replicate k 0)) = fractionValue m := by
    rw [← fractionValue_append_zeros _ j, popTrailingZeros, ← hj, fractionValue_append_zeros]
  have hfront : fractionValue d.digits = fractionValue m / 10 ^ k := by
    rw [hsplit, fractionValue_zeros_append]
  rw [hd]
  split
  · rename_i hempty
    rw [List.isEmpty_iff] at hempty
    rw [hempty, fractionValue_nil] at hkept
    simp [value, zero, hfront, ← hkept]
  · simp only [value, hkept, hfront, zpow_sub₀ (by norm_num : (10 : ℚ) ≠ 0), zpow_natCast]
    ring

theorem isCanonical_makeCanonical (d : Decimal) : (makeCanonical d).isCanonical = true := by
  rcases makeCanonical_cases d with ⟨hd, hcanonical⟩ | ⟨k, m, -, hhead, hd⟩
  · rwa [hd]
  rw [hd]
  split
  · rfl
  · rename_i hne
    cases m with
    | nil =>
      -- nothing but zeros: no digit is kept
      simp [popTrailingZeros] at hne
    | cons x m' =>
      obtain ⟨j, hj⟩ := eq_dropTrailingZeros_append (x :: m' ++ List.replicate k 0)
      rw [← popTrailingZeros] at hj
      obtain ⟨first, rest, hp⟩ := List.exists_cons_of_ne_nil (List.isEmpty_eq_false_iff.mp
        (Bool.eq_false_iff.mpr hne))
      -- the first digit kept is the first digit after the zeros at the front
      rw [hp, List.cons_append, List.cons_append, List.cons.injEq] at hj
      refine isCanonical_iff.mpr (.inr ⟨first, rest, hp, ?_, ?_⟩)
      · rw [← hj.1]
        simpa using hhead
      · exact noTrailingZero_dropTrailingZeros _

theorem makeCanonical_of_head_ne_zero {ds : List Nat} (hne : ds ≠ []) (hhead : ds.head? ≠ some 0)
    (e : Int) (p : Bool) :
    (makeCanonical ⟨ds, e, p⟩).exponent = e ∧ (makeCanonical ⟨ds, e, p⟩).isPositive = p ∧
      (makeCanonical ⟨ds, e, p⟩).digits ≠ [] ∧
      ∃ j, (makeCanonical ⟨ds, e, p⟩).digits ++ List.replicate j 0 = ds := by
  rcases makeCanonical_cases ⟨ds, e, p⟩ with ⟨hd, -⟩ | ⟨k, m, hsplit, -, hd⟩
  · rw [hd]
    exact ⟨rfl, rfl, hne, 0, List.append_nil ds⟩
  dsimp only at hsplit hd
  -- no zeros at the front to move into the exponent
  obtain rfl : k = 0 := by
    cases k with
    | zero => rfl
    | succ k =>
      rw [hsplit, List.replicate_succ, List.cons_append, List.head?_cons] at hhead
      exact absurd rfl hhead
  simp only [List.replicate_zero, List.nil_append, List.append_nil, Nat.cast_zero,
    sub_zero] at hsplit hd
  subst hsplit
  obtain ⟨j, hj⟩ := eq_dropTrailingZeros_append ds
  rw [← popTrailingZeros] at hj
  -- digits that are all zeros would start with zero
  have hpop : popTrailingZeros ds ≠ [] := by
    intro hnil
    rw [hnil, List.nil_append] at hj
    cases j with
    | zero => exact hne hj
    | succ j => exact hhead (by rw [hj, List.replicate_succ, List.head?_cons])
  rw [hd, if_neg (by simpa using hpop)]
  exact ⟨rfl, rfl, hpop, j, hj.symm⟩

theorem digitsLt_makeCanonical {d : Decimal} (h : DigitsLt d.digits) :
    DigitsLt (makeCanonical d).digits := by
  rcases makeCanonical_cases d with ⟨hd, -⟩ | ⟨k, m, hsplit, -, hd⟩
  · rwa [hd]
  obtain ⟨j, hj⟩ := eq_dropTrailingZeros_append (m ++ List.replicate k 0)
  rw [← popTrailingZeros] at hj
  rw [hd]
  split
  · simp [zero, DigitsLt]
  · -- a digit kept is a digit of the decimal or a zero
    intro x hx
    have hmem : x ∈ m ++ List.replicate k 0 := by
      rw [hj]
      exact List.mem_append_left _ hx
    rcases List.mem_append.mp hmem with hxm | hxz
    · exact h x (by rw [hsplit]; exact List.mem_append_right _ hxm)
    · rw [List.eq_of_mem_replicate hxz]
      decide

theorem valid_makeCanonical {d : Decimal} (h : DigitsLt d.digits) : (makeCanonical d).Valid :=
  ⟨digitsLt_makeCanonical h, isCanonical_makeCanonical d⟩

/-- `make_canonical` gives every decimal of digits below ten its canonical form, of the same
number. -/
theorem makeCanonical_valid_value {d : Decimal} (h : DigitsLt d.digits) :
    (makeCanonical d).Valid ∧ (makeCanonical d).value = d.value :=
  ⟨valid_makeCanonical h, makeCanonical_value d⟩

theorem makeCanonical_valid_value_padded :
    DigitsLt (⟨[0, 0, 1, 2, 0], 3, true⟩ : Decimal).digits ∧
      (makeCanonical ⟨[0, 0, 1, 2, 0], 3, true⟩).Valid ∧
      (makeCanonical ⟨[0, 0, 1, 2, 0], 3, true⟩).value = (⟨[0, 0, 1, 2, 0], 3, true⟩ : Decimal).value :=
  ⟨by decide, makeCanonical_valid_value (by decide)⟩

/-! ### Negation -/

theorem value_neg_eq (d : Decimal) : d.neg.value = -d.value := by
  rw [neg, ofDigits, makeCanonical_value]
  obtain ⟨digits, exponent, isPositive⟩ := d
  cases isPositive <;> simp [value]

theorem valid_neg {d : Decimal} (hv : d.Valid) : d.neg.Valid :=
  valid_makeCanonical hv.digitsLt

theorem neg_of_ne_nil {d : Decimal} (hv : d.Valid) (hne : d.digits ≠ []) :
    d.neg = ⟨d.digits, d.exponent, !d.isPositive⟩ := by
  apply makeCanonical_of_isCanonical
  obtain ⟨first, rest, hcons, hfirst, ht⟩ := isCanonical_iff.mp hv.isCanonical |>.resolve_left
    (fun h => hne h.1)
  exact isCanonical_iff.mpr (.inr ⟨first, rest, hcons, hfirst, ht⟩)

/-! ### A canonical decimal is its number -/

/-- The number without its sign. -/
def magnitude (d : Decimal) : ℚ := fractionValue d.digits * 10 ^ d.exponent

-- Equation lemmas, made once before their uses.
section
attribute [local simp] magnitude
end

theorem value_eq_magnitude (d : Decimal) :
    d.value = if d.isPositive then d.magnitude else -d.magnitude := by
  unfold value magnitude
  split <;> ring

theorem eq_zero_of_digits_eq_nil {d : Decimal} (hv : d.Valid) (h : d.digits = []) : d = zero := by
  obtain ⟨digits, exponent, isPositive⟩ := d
  rcases isCanonical_iff.mp hv.isCanonical with ⟨-, hpos, hexp⟩ | ⟨first, rest, hcons, -⟩
  · simp_all [zero]
  · simp_all

theorem digits_cons {d : Decimal} (hv : d.Valid) (hne : d.digits ≠ []) :
    ∃ first rest, d.digits = first :: rest ∧ first ≠ 0 ∧ NoTrailingZero d.digits := by
  rcases isCanonical_iff.mp hv.isCanonical with ⟨hnil, -⟩ | h
  · exact absurd hnil hne
  · exact h

theorem magnitude_bounds {d : Decimal} (hv : d.Valid) (hne : d.digits ≠ []) :
    (10 : ℚ) ^ (d.exponent - 1) ≤ d.magnitude ∧ d.magnitude < 10 ^ d.exponent := by
  obtain ⟨first, rest, hcons, hfirst, -⟩ := digits_cons hv hne
  have hlo : 1 / 10 ≤ fractionValue d.digits := by
    rw [hcons]
    exact fractionValue_cons_ge hfirst rest
  have hhi := fractionValue_lt_one hv.digitsLt
  have hpow : (0 : ℚ) < 10 ^ d.exponent := by positivity
  have hdown : (10 : ℚ) ^ (d.exponent - 1) = 1 / 10 * 10 ^ d.exponent := by
    rw [zpow_sub₀ (by norm_num), zpow_one]
    ring
  unfold magnitude
  constructor
  · rw [hdown]
    exact mul_le_mul_of_nonneg_right hlo hpow.le
  · calc fractionValue d.digits * 10 ^ d.exponent < 1 * 10 ^ d.exponent :=
          mul_lt_mul_of_pos_right hhi hpow
      _ = 10 ^ d.exponent := one_mul _

theorem magnitude_pos {d : Decimal} (hv : d.Valid) (hne : d.digits ≠ []) : 0 < d.magnitude :=
  lt_of_lt_of_le (by positivity) (magnitude_bounds hv hne).1

theorem magnitude_lt_of_exponent_lt {a b : Decimal} (ha : a.Valid) (hb : b.Valid)
    (hane : a.digits ≠ []) (hbne : b.digits ≠ []) (h : a.exponent < b.exponent) :
    a.magnitude < b.magnitude := by
  have hpow : (10 : ℚ) ^ a.exponent ≤ 10 ^ (b.exponent - 1) :=
    zpow_le_zpow_right₀ (by norm_num) (by omega)
  calc a.magnitude < 10 ^ a.exponent := (magnitude_bounds ha hane).2
    _ ≤ 10 ^ (b.exponent - 1) := hpow
    _ ≤ b.magnitude := (magnitude_bounds hb hbne).1

theorem exponent_eq_of_magnitude_eq {a b : Decimal} (ha : a.Valid) (hb : b.Valid)
    (hane : a.digits ≠ []) (hbne : b.digits ≠ []) (h : a.magnitude = b.magnitude) :
    a.exponent = b.exponent := by
  rcases lt_trichotomy a.exponent b.exponent with hlt | heq | hgt
  · exact absurd h (magnitude_lt_of_exponent_lt ha hb hane hbne hlt).ne
  · exact heq
  · exact absurd h (magnitude_lt_of_exponent_lt hb ha hbne hane hgt).ne'

theorem eq_of_value_eq {a b : Decimal} (ha : a.Valid) (hb : b.Valid) (h : a.value = b.value) :
    a = b := by
  by_cases hane : a.digits = []
  · by_cases hbne : b.digits = []
    · rw [eq_zero_of_digits_eq_nil ha hane, eq_zero_of_digits_eq_nil hb hbne]
    · -- zero against a number that is not zero
      have hpos := magnitude_pos hb hbne
      rw [eq_zero_of_digits_eq_nil ha hane, value_zero, value_eq_magnitude] at h
      split at h <;> linarith
  · by_cases hbne : b.digits = []
    · have hpos := magnitude_pos ha hane
      rw [eq_zero_of_digits_eq_nil hb hbne, value_zero, value_eq_magnitude] at h
      split at h <;> linarith
    · have hapos := magnitude_pos ha hane
      have hbpos := magnitude_pos hb hbne
      -- the signs agree, then the magnitudes, the exponents and the digits
      have hsign : a.isPositive = b.isPositive := by
        rw [value_eq_magnitude, value_eq_magnitude] at h
        cases hpa : a.isPositive <;> cases hpb : b.isPositive <;>
          simp only [hpa, hpb, Bool.false_eq_true, ↓reduceIte] at h <;> first | rfl | linarith
      have hmag : a.magnitude = b.magnitude := by
        rw [value_eq_magnitude, value_eq_magnitude, hsign] at h
        split at h <;> linarith
      have hexp := exponent_eq_of_magnitude_eq ha hb hane hbne hmag
      have hfrac : fractionValue a.digits = fractionValue b.digits := by
        unfold magnitude at hmag
        rw [hexp] at hmag
        exact mul_right_cancel₀ (by positivity) hmag
      obtain ⟨-, -, -, -, hat⟩ := digits_cons ha hane
      obtain ⟨-, -, -, -, hbt⟩ := digits_cons hb hbne
      have hdigits := eq_of_fractionValue_eq ha.digitsLt hb.digitsLt hat hbt hfrac
      obtain ⟨_, _, _⟩ := a
      obtain ⟨_, _, _⟩ := b
      simp_all

theorem value_eq_of_scaled {ds ds' : List Nat} {e e' : Int} {p : Bool}
    (h : fractionValue ds' * 10 ^ e' = fractionValue ds * 10 ^ e) :
    value ⟨ds', e', p⟩ = value ⟨ds, e, p⟩ := by
  simp only [value, mul_assoc, h]

theorem makeCanonical_eq_of_value_eq {d d' : Decimal} (hv : d.Valid) (hd' : DigitsLt d'.digits)
    (h : d'.value = d.value) : makeCanonical d' = d :=
  eq_of_value_eq (valid_makeCanonical hd') hv (by rw [makeCanonical_value, h])

/-! ### `CompareTo` -/

theorem digits_ne_nil_of_not_isPositive {d : Decimal} (hv : d.Valid) (h : d.isPositive = false) :
    d.digits ≠ [] := by
  intro hnil
  rw [eq_zero_of_digits_eq_nil hv hnil] at h
  cases h

theorem value_nonneg {d : Decimal} (h : d.isPositive = true) : 0 ≤ d.value := by
  rw [value, h, if_pos rfl, one_mul]
  exact mul_nonneg (fractionValue_nonneg _) (by positivity)

theorem value_neg {d : Decimal} (hv : d.Valid) (h : d.isPositive = false) : d.value < 0 := by
  have hpos := magnitude_pos hv (digits_ne_nil_of_not_isPositive hv h)
  rw [value_eq_magnitude, h]
  simpa using hpos

theorem compare_varIntCompareTo (a b : Int) : compare (VarInt.compareTo a b) 0 = compare a b := by
  unfold VarInt.compareTo
  rcases lt_trichotomy a b with h | rfl | h
  · rw [if_pos h, compare_lt_iff_lt.mpr h]
    decide
  · simp
  · rw [if_neg (by omega), if_neg (by omega), compare_gt_iff_gt.mpr h]
    decide

theorem compare_compareDigits : ∀ {ds es : List Nat}, DigitsLt ds → DigitsLt es →
    NoTrailingZero ds → NoTrailingZero es →
    compare (compareDigits ds es) 0 = compare (fractionValue ds) (fractionValue es)
  | [], [], _, _, _, _ => by simp [compareDigits]
  | [], e :: es, _, _, _, het => by
    have hpos := fractionValue_pos (List.cons_ne_nil e es) het
    rw [compare_lt_iff_lt.mpr (by simp only [compareDigits, List.length_nil, List.length_cons]; omega),
      fractionValue_nil,
      compare_lt_iff_lt.mpr hpos]
  | d :: ds, [], _, _, hdt, _ => by
    have hpos := fractionValue_pos (List.cons_ne_nil d ds) hdt
    rw [compare_gt_iff_gt.mpr (by simp only [compareDigits, List.length_nil, List.length_cons]; omega),
      fractionValue_nil,
      compare_gt_iff_gt.mpr hpos]
  | d :: ds, e :: es, hdl, hel, hdt, het => by
    by_cases hde : (d : Int) - e = 0
    · obtain rfl : d = e := by omega
      rw [compareDigits, if_neg (not_not.mpr hde),
        compare_compareDigits hdl.tail hel.tail hdt.tail het.tail]
      exact compare_eq_compare (fractionValue_cons_lt_cons_iff d ds es).symm
        (by rw [fractionValue_cons, fractionValue_cons]; constructor <;> intro h <;> linarith)
    · rw [compareDigits, if_pos hde]
      rcases Nat.lt_or_gt_of_ne (show d ≠ e by omega) with hlt | hlt
      · rw [compare_lt_iff_lt.mpr (by omega),
          compare_lt_iff_lt.mpr (fractionValue_lt_of_head_lt hdl.tail hlt es)]
      · rw [compare_gt_iff_gt.mpr (by omega),
          compare_gt_iff_gt.mpr (fractionValue_lt_of_head_lt hel.tail hlt ds)]

section CompareTo

variable {a b : Decimal}

theorem compare_compareTo_of_sign_ne (ha : a.Valid) (hb : b.Valid)
    (hsign : a.isPositive ≠ b.isPositive) :
    compare (a.compareTo b) 0 = compare a.value b.value := by
  have hdiff : (a.isPositive != b.isPositive) = true := by simpa using hsign
  rw [compareTo, if_pos hdiff]
  cases hpa : a.isPositive
  · have hpb : b.isPositive = true := by simpa [hpa] using hsign.symm
    have hlt : a.value < b.value := lt_of_lt_of_le (value_neg ha hpa) (value_nonneg hpb)
    rw [hpb, compare_lt_iff_lt.mpr hlt]
    decide
  · have hpb : b.isPositive = false := by simpa [hpa] using hsign.symm
    have hgt : b.value < a.value := lt_of_lt_of_le (value_neg hb hpb) (value_nonneg hpa)
    rw [hpb, compare_gt_iff_gt.mpr hgt]
    decide

theorem compare_compareTo_of_zero (ha : a.Valid) (hb : b.Valid)
    (hsign : a.isPositive = b.isPositive) (hzero : a.digits = [] ∨ b.digits = []) :
    compare (a.compareTo b) 0 = compare a.value b.value := by
  have hsame : (a.isPositive != b.isPositive) = false := by simp [hsign]
  have hempty : (a.digits.isEmpty || b.digits.isEmpty) = true := by
    rcases hzero with h | h <;> simp [h]
  rw [compareTo, if_neg (by simp [hsame]), if_pos hempty]
  rcases hzero with hza | hzb
  · obtain rfl := eq_zero_of_digits_eq_nil ha hza
    have hpb : b.isPositive = true := hsign.symm
    by_cases hzb : b.digits = []
    · obtain rfl := eq_zero_of_digits_eq_nil hb hzb
      simp [zero]
    · have hpos := magnitude_pos hb hzb
      have hlt : zero.value < b.value := by
        rw [value_zero, value_eq_magnitude, hpb, if_pos rfl]
        exact hpos
      have hbe : b.digits.isEmpty = false := List.isEmpty_eq_false_iff.mpr hzb
      rw [compare_lt_iff_lt.mpr hlt]
      simp only [zero, hbe, List.isEmpty_nil, Bool.toNat_true, Bool.toNat_false, if_true]
      decide
  · obtain rfl := eq_zero_of_digits_eq_nil hb hzb
    have hpa : a.isPositive = true := hsign
    by_cases hza : a.digits = []
    · obtain rfl := eq_zero_of_digits_eq_nil ha hza
      simp [zero]
    · have hpos := magnitude_pos ha hza
      have hgt : zero.value < a.value := by
        rw [value_zero, value_eq_magnitude, hpa, if_pos rfl]
        exact hpos
      have hae : a.digits.isEmpty = false := List.isEmpty_eq_false_iff.mpr hza
      rw [compare_gt_iff_gt.mpr hgt]
      simp only [zero, hae, hpa, List.isEmpty_nil, Bool.toNat_true, Bool.toNat_false, if_true]
      decide

theorem compare_neg_of_compare {x : Int} {p q : ℚ} (h : compare x 0 = compare p q) :
    compare (-x) 0 = compare (-p) (-q) := by
  have hgt : 0 < x ↔ q < p := by rw [← compare_gt_iff_gt, h, compare_gt_iff_gt]
  have heq : x = 0 ↔ p = q := by rw [← compare_eq_iff_eq, h, compare_eq_iff_eq]
  refine compare_eq_compare ?_ ?_
  · rw [neg_lt_neg_iff, neg_lt_zero]
    exact hgt
  · rw [neg_eq_zero, neg_inj]
    exact heq

theorem compare_compareTo_of_ne_nil (ha : a.Valid) (hb : b.Valid)
    (hsign : a.isPositive = b.isPositive) (hane : a.digits ≠ []) (hbne : b.digits ≠ []) :
    compare (a.compareTo b) 0 = compare a.value b.value := by
  have hsame : (a.isPositive != b.isPositive) = false := by simp [hsign]
  have hempty : (a.digits.isEmpty || b.digits.isEmpty) = false := by simp [hane, hbne]
  -- the magnitudes compare as the exponents, or as the digits when the exponents are equal
  have hmag : compare (if VarInt.compareTo a.exponent b.exponent ≠ 0 then
      VarInt.compareTo a.exponent b.exponent else compareDigits a.digits b.digits) 0 =
      compare a.magnitude b.magnitude := by
    split
    · rename_i hne
      rw [compare_varIntCompareTo]
      have hexp : a.exponent ≠ b.exponent := by
        intro h
        rw [h] at hne
        simp [VarInt.compareTo] at hne
      exact compare_eq_compare
        ⟨magnitude_lt_of_exponent_lt ha hb hane hbne, fun h => by
          rcases lt_trichotomy a.exponent b.exponent with hlt | heq | hgt
          · exact hlt
          · exact absurd heq hexp
          · exact absurd h (magnitude_lt_of_exponent_lt hb ha hbne hane hgt).asymm⟩
        ⟨fun h => absurd h hexp, exponent_eq_of_magnitude_eq ha hb hane hbne⟩
    · rename_i heq
      have hexp : a.exponent = b.exponent := by
        rw [← compare_eq_iff_eq, ← compare_varIntCompareTo]
        simpa using heq
      obtain ⟨-, -, -, -, hat⟩ := digits_cons ha hane
      obtain ⟨-, -, -, -, hbt⟩ := digits_cons hb hbne
      rw [compare_compareDigits ha.digitsLt hb.digitsLt hat hbt, magnitude, magnitude, hexp]
      exact compare_eq_compare (mul_lt_mul_iff_of_pos_right (by positivity)).symm
        (mul_left_inj' (by positivity)).symm
  rw [compareTo, if_neg (by simp [hsame]), if_neg (by simp [hempty]), value_eq_magnitude,
    value_eq_magnitude, ← hsign]
  cases hpa : a.isPositive
  · have hneg := compare_neg_of_compare hmag
    rw [apply_ite Neg.neg] at hneg
    simpa using hneg
  · simpa using hmag

end CompareTo

/-- `CompareTo` of canonical decimals compares their numbers. -/
theorem compare_compareTo {a b : Decimal} (ha : a.Valid) (hb : b.Valid) :
    compare (a.compareTo b) 0 = compare a.value b.value := by
  by_cases hsign : a.isPositive = b.isPositive
  · by_cases hzero : a.digits = [] ∨ b.digits = []
    · exact compare_compareTo_of_zero ha hb hsign hzero
    · simp only [not_or] at hzero
      exact compare_compareTo_of_ne_nil ha hb hsign hzero.1 hzero.2
  · exact compare_compareTo_of_sign_ne ha hb hsign

theorem compare_compareTo_mixed_signs :
    (⟨[1, 2, 5], 2, false⟩ : Decimal).Valid ∧ (⟨[3], -1, true⟩ : Decimal).Valid ∧
      compare ((⟨[1, 2, 5], 2, false⟩ : Decimal).compareTo ⟨[3], -1, true⟩) 0 =
        compare (⟨[1, 2, 5], 2, false⟩ : Decimal).value (⟨[3], -1, true⟩ : Decimal).value :=
  ⟨by decide, by decide, compare_compareTo (by decide) (by decide)⟩

theorem isIdenticalTo_iff (a b : Decimal) : a.isIdenticalTo b = true ↔ a = b := by
  obtain ⟨_, _, _⟩ := a
  obtain ⟨_, _, _⟩ := b
  simp [isIdenticalTo, and_comm]

/-- On canonical decimals `operator==`, which is `CompareTo(other) == 0`, is `IsIdenticalTo`:
every number has one canonical decimal. -/
theorem isIdenticalTo_iff_compareTo_eq_zero {a b : Decimal} (ha : a.Valid) (hb : b.Valid) :
    a.isIdenticalTo b = true ↔ a.compareTo b = 0 := by
  have hcmp := compare_compareTo ha hb
  rw [isIdenticalTo_iff]
  constructor
  · rintro rfl
    rw [compare_eq_iff_eq.mpr rfl] at hcmp
    exact compare_eq_iff_eq.mp hcmp
  · intro hzero
    rw [hzero, compare_eq_iff_eq.mpr rfl] at hcmp
    exact eq_of_value_eq ha hb (compare_eq_iff_eq.mp hcmp.symm)

theorem isIdenticalTo_iff_compareTo_eq_zero_twelve :
    (⟨[1, 2], 2, true⟩ : Decimal).Valid ∧ (⟨[1, 2], 2, true⟩ : Decimal).Valid ∧
      ((⟨[1, 2], 2, true⟩ : Decimal).isIdenticalTo ⟨[1, 2], 2, true⟩ = true ↔
        (⟨[1, 2], 2, true⟩ : Decimal).compareTo ⟨[1, 2], 2, true⟩ = 0) :=
  ⟨by decide, by decide, isIdenticalTo_iff_compareTo_eq_zero (by decide) (by decide)⟩

end Decimal

end FrescoDB.Util
