import FrescoDB.Lib.DigitList

/-! Lists of decimal digits read after a point, `0.d₁d₂…dₖ`. Zeros at the back change nothing,
zeros at the front divide by ten each. Digits below ten write a number in `[0, 1)`, at least a
tenth when the first is not zero. Two lists of digits below ten with no zero at the back write
one number only when they are equal, and they compare as their first difference, a proper prefix
first. -/
namespace FrescoDB.Lib

theorem compare_eq_compare {α β : Type} [LinearOrder α] [LinearOrder β] {x y : α} {p q : β}
    (hlt : x < y ↔ p < q) (heq : x = y ↔ p = q) : compare x y = compare p q := by
  rcases lt_trichotomy p q with h | h | h
  · rw [compare_lt_iff_lt.mpr (hlt.mpr h), compare_lt_iff_lt.mpr h]
  · rw [compare_eq_iff_eq.mpr (heq.mpr h), compare_eq_iff_eq.mpr h]
  · have hyx : y < x := by
      rcases lt_trichotomy x y with hxy | hxy | hxy
      · exact absurd (hlt.mp hxy) (not_lt.mpr h.le)
      · exact absurd (heq.mp hxy) h.ne'
      · exact hxy
    rw [compare_gt_iff_gt.mpr hyx, compare_gt_iff_gt.mpr h]

/-- The number `0.d₁d₂…dₖ`. -/
def fractionValue (ds : List Nat) : ℚ := digitsValue ds / 10 ^ ds.length

/-- The last digit is not zero, or there is none. -/
def NoTrailingZero (ds : List Nat) : Prop := ds.getLast? ≠ some 0

/-- Every digit is below ten. -/
def DigitsLt (ds : List Nat) : Prop := ∀ d ∈ ds, d < 10

-- Equation lemmas, made once before their uses.
section
attribute [local simp] fractionValue NoTrailingZero DigitsLt
end

instance : DecidablePred DigitsLt := fun ds => inferInstanceAs (Decidable (∀ d ∈ ds, d < 10))

instance : DecidablePred NoTrailingZero := fun ds => inferInstanceAs (Decidable (ds.getLast? ≠ some 0))

@[simp] theorem fractionValue_nil : fractionValue [] = 0 := by simp [fractionValue]

theorem fractionValue_cons (d : Nat) (ds : List Nat) :
    fractionValue (d :: ds) = (d + fractionValue ds) / 10 := by
  simp only [fractionValue, digitsValue_cons, List.length_cons, Nat.cast_add, Nat.cast_mul,
    Nat.cast_pow, Nat.cast_ofNat, pow_succ]
  field_simp

@[simp] theorem fractionValue_append_zeros (ds : List Nat) (k : Nat) :
    fractionValue (ds ++ List.replicate k 0) = fractionValue ds := by
  simp only [fractionValue, digitsValue_append_zeros, List.length_append, List.length_replicate,
    Nat.cast_mul, Nat.cast_pow, Nat.cast_ofNat, pow_add]
  field_simp

theorem fractionValue_zeros_append (k : Nat) (ds : List Nat) :
    fractionValue (List.replicate k 0 ++ ds) = fractionValue ds / 10 ^ k := by
  simp only [fractionValue, digitsValue_zeros_append, List.length_append, List.length_replicate,
    pow_add]
  field_simp

theorem fractionValue_mul_zpow (ds : List Nat) (x : Int) :
    fractionValue ds * 10 ^ x = digitsValue ds * 10 ^ (x - ds.length) := by
  rw [fractionValue, zpow_sub₀ (by norm_num), zpow_natCast]
  ring

theorem fractionValue_nonneg (ds : List Nat) : 0 ≤ fractionValue ds := by
  unfold fractionValue
  positivity

theorem fractionValue_lt_one {ds : List Nat} (h : DigitsLt ds) : fractionValue ds < 1 := by
  have hlt : (digitsValue ds : ℚ) < 10 ^ ds.length := by exact_mod_cast digitsValue_lt h
  unfold fractionValue
  rw [div_lt_one (by positivity)]
  exact hlt

theorem fractionValue_cons_ge {d : Nat} (hd : d ≠ 0) (ds : List Nat) :
    1 / 10 ≤ fractionValue (d :: ds) := by
  have hd1 : (1 : ℚ) ≤ d := by exact_mod_cast Nat.one_le_iff_ne_zero.mpr hd
  rw [fractionValue_cons]
  have := fractionValue_nonneg ds
  linarith

theorem DigitsLt.tail {d : Nat} {ds : List Nat} (h : DigitsLt (d :: ds)) : DigitsLt ds :=
  fun x hx => h x (List.mem_cons_of_mem d hx)

theorem DigitsLt.head {d : Nat} {ds : List Nat} (h : DigitsLt (d :: ds)) : d < 10 :=
  h d List.mem_cons_self

@[simp] theorem digitsLt_nil : DigitsLt [] := by simp [DigitsLt]

@[simp] theorem digitsLt_cons {d : Nat} {ds : List Nat} : DigitsLt (d :: ds) ↔ d < 10 ∧ DigitsLt ds := by
  simp [DigitsLt]

@[simp] theorem digitsLt_append {ds es : List Nat} : DigitsLt (ds ++ es) ↔ DigitsLt ds ∧ DigitsLt es := by
  simp only [DigitsLt, List.mem_append]
  constructor
  · intro h
    exact ⟨fun d hd => h d (.inl hd), fun d hd => h d (.inr hd)⟩
  · rintro ⟨hds, hes⟩ d (hd | hd)
    exacts [hds d hd, hes d hd]

@[simp] theorem digitsLt_replicate_zero (n : Nat) : DigitsLt (List.replicate n 0) := by
  simp [DigitsLt, List.mem_replicate]

theorem DigitsLt.take {ds : List Nat} (h : DigitsLt ds) (n : Nat) : DigitsLt (ds.take n) :=
  fun x hx => h x (List.mem_of_mem_take hx)

theorem NoTrailingZero.tail {d : Nat} {ds : List Nat} (h : NoTrailingZero (d :: ds)) :
    NoTrailingZero ds := by
  cases ds with
  | nil => simp [NoTrailingZero]
  | cons e es => simpa [NoTrailingZero, List.getLast?_cons_cons] using h

theorem DigitsLt.drop {ds : List Nat} (h : DigitsLt ds) (n : Nat) : DigitsLt (ds.drop n) :=
  fun x hx => h x (List.mem_of_mem_drop hx)

theorem NoTrailingZero.drop : ∀ {ds : List Nat}, NoTrailingZero ds → ∀ n, NoTrailingZero (ds.drop n)
  | [], h, _ => by simpa using h
  | _ :: _, h, 0 => h
  | _ :: _, h, n + 1 => h.tail.drop n

theorem fractionValue_pos {ds : List Nat} (hne : ds ≠ []) (h : NoTrailingZero ds) :
    0 < fractionValue ds := by
  obtain ⟨init, last, rfl⟩ := List.eq_nil_or_concat ds |>.resolve_left hne
  rw [List.concat_eq_append] at h ⊢
  have hlast : last ≠ 0 := by simpa [NoTrailingZero] using h
  have hpos : 0 < digitsValue (init ++ [last]) := by
    rw [digitsValue_append]
    simp only [digitsValue_cons, digitsValue_nil, List.length_nil, pow_zero, mul_one, add_zero,
      List.length_singleton, pow_one]
    omega
  have hcast : (0 : ℚ) < digitsValue (init ++ [last]) := by exact_mod_cast hpos
  unfold fractionValue
  exact div_pos hcast (by positivity)

theorem fractionValue_lt_of_head_lt {d e : Nat} {ds : List Nat} (hds : DigitsLt ds) (hde : d < e)
    (es : List Nat) : fractionValue (d :: ds) < fractionValue (e :: es) := by
  have hd1 : (d : ℚ) + 1 ≤ e := by exact_mod_cast hde
  have hlt := fractionValue_lt_one hds
  have hnonneg := fractionValue_nonneg es
  rw [fractionValue_cons, fractionValue_cons]
  linarith

theorem fractionValue_cons_lt_cons_iff (d : Nat) (ds es : List Nat) :
    fractionValue (d :: ds) < fractionValue (d :: es) ↔ fractionValue ds < fractionValue es := by
  rw [fractionValue_cons, fractionValue_cons]
  constructor <;> intro h <;> linarith

theorem eq_of_fractionValue_eq : ∀ {ds es : List Nat}, DigitsLt ds → DigitsLt es →
    NoTrailingZero ds → NoTrailingZero es → fractionValue ds = fractionValue es → ds = es
  | [], [], _, _, _, _, _ => rfl
  | [], e :: es, _, _, _, hes, h => by
    have := fractionValue_pos (List.cons_ne_nil e es) hes
    rw [fractionValue_nil] at h
    linarith
  | d :: ds, [], _, _, hds, _, h => by
    have := fractionValue_pos (List.cons_ne_nil d ds) hds
    rw [fractionValue_nil] at h
    linarith
  | d :: ds, e :: es, hdl, hel, hdt, het, h => by
    have hde : d = e := by
      by_contra hne
      rcases Nat.lt_or_gt_of_ne hne with hlt | hlt
      · exact absurd h (fractionValue_lt_of_head_lt hdl.tail hlt es).ne
      · exact absurd h (fractionValue_lt_of_head_lt hel.tail hlt ds).ne'
    subst hde
    have htail : fractionValue ds = fractionValue es := by
      rw [fractionValue_cons, fractionValue_cons] at h
      linarith
    rw [eq_of_fractionValue_eq hdl.tail hel.tail hdt.tail het.tail htail]

/-! ### Zeros at the ends -/

theorem eq_zeros_append_dropWhile (ds : List Nat) :
    ds = List.replicate (ds.takeWhile (· == 0)).length 0 ++ ds.dropWhile (· == 0) ∧
      (ds.dropWhile (· == 0)).head? ≠ some 0 := by
  induction ds with
  | nil => simp
  | cons d ds ih =>
    by_cases hd : d = 0
    · subst hd
      simp only [List.takeWhile_cons, List.dropWhile_cons, beq_self_eq_true, if_true,
        List.length_cons, List.replicate_succ, List.cons_append]
      exact ⟨congrArg _ ih.1, ih.2⟩
    · have hne : (d == 0) = false := by simpa using hd
      simp [hne, hd]

theorem drop_takeWhile_length {α : Type} (p : α → Bool) (ds : List α) :
    ds.drop (ds.takeWhile p).length = ds.dropWhile p := by
  have h := @List.drop_left _ (ds.takeWhile p) (ds.dropWhile p)
  rwa [List.takeWhile_append_dropWhile] at h

theorem eq_dropTrailingZeros_append (ds : List Nat) :
    ∃ j, ds = (ds.reverse.dropWhile (· == 0)).reverse ++ List.replicate j 0 := by
  refine ⟨(ds.reverse.takeWhile (· == 0)).length, ?_⟩
  have h := congrArg List.reverse (eq_zeros_append_dropWhile ds.reverse).1
  rw [List.reverse_reverse, List.reverse_append, List.reverse_replicate] at h
  exact h

theorem noTrailingZero_dropTrailingZeros (ds : List Nat) :
    NoTrailingZero (ds.reverse.dropWhile (· == 0)).reverse := by
  rw [NoTrailingZero, List.getLast?_reverse]
  exact (eq_zeros_append_dropWhile ds.reverse).2

theorem dropWhile_zeros_append (k : Nat) (ds : List Nat) :
    (List.replicate k 0 ++ ds).dropWhile (· == 0) = ds.dropWhile (· == 0) := by
  induction k with
  | zero => rfl
  | succ k ih => simp [List.replicate_succ, ih]

theorem dropTrailingZeros_append_zeros {ds : List Nat} (h : NoTrailingZero ds) (k : Nat) :
    ((ds ++ List.replicate k 0).reverse.dropWhile (· == 0)).reverse = ds := by
  rw [List.reverse_append, List.reverse_replicate, dropWhile_zeros_append]
  rw [NoTrailingZero, ← List.head?_reverse] at h
  cases hr : ds.reverse with
  | nil => simp_all
  | cons x xs =>
    have hx : (x == 0) = false := by simpa [hr] using h
    simp only [List.dropWhile_cons, hx, Bool.false_eq_true, if_false]
    rw [← hr, List.reverse_reverse]

end FrescoDB.Lib
