import FrescoDB.Util.DecimalValue

/-! `Decimal::operator+`. Both decimals are brought to the larger exponent by zeros in front and to
one count of digits by zeros behind; then the mantissas are added place by place from the last,
carrying ten into the place before or into a new first digit, or, for two signs apart, the
smaller mantissa is taken from the larger, each borrow raising the other's digit before. Each
loop keeps an invariant on the numbers its digits write: the digits of the state and the places
still to do make the sum, or the difference, of the two mantissas. The sum of two canonical
decimals is the canonical decimal of the sum of their numbers, and the one failure is the
`CHECK` on an exponent difference beyond `int64_t`. -/
namespace FrescoDB.Util

open FrescoDB.Lib

namespace Decimal

/-! ### The adding loop -/

/-- The state of the adding loop with the places below `i` still to do: the digits so far and
the other's digits left make the sum of the two mantissas, the exponent moves with the length,
and every digit is below ten but the one at `i - 1`, which may hold a carry. -/
structure AddInv (a b : List Nat) (n : Nat) (e : Int) (i : Nat) (state : List Nat × Int) :
    Prop where
  sum : digitsValue state.1 + digitsValue (b.take i) * 10 ^ (n - i) =
    digitsValue a + digitsValue b
  scale : state.2 - state.1.length = e - n
  length : state.1.length = n ∨ i = 0 ∧ state.1.length = n + 1
  digits : ∀ j, state.1.getD j 0 ≤ 9 + if j + 1 = i then 1 else 0

section Adding

variable {a b : List Nat} {n : Nat} {e : Int}

theorem addAt_inv (hb : DigitsLt b) (hbn : b.length = n) {k : Nat} (hk : k < n)
    {state : List Nat × Int} (h : AddInv a b n e (k + 1) state) :
    AddInv a b n e k (addAt b k state) := by
  obtain ⟨D, x⟩ := state
  obtain ⟨hsum, hscale, hlen, hdig⟩ := h
  dsimp only at hsum hscale hlen hdig
  have hD : D.length = n := hlen.resolve_right (by omega)
  have hbk : b.getD k 0 < 10 := by
    rw [List.getD_eq_getElem _ _ (by omega)]
    exact hb _ (List.getElem_mem _)
  have hDk : D.getD k 0 ≤ 10 := by simpa using hdig k
  have hrest : ∀ m, m ≠ k → D.getD m 0 ≤ 9 := fun m hmk => by simpa [hmk] using hdig m
  -- the place of `k`, a tenth of the place before it
  obtain ⟨P, hP⟩ : ∃ P, 10 ^ (n - (k + 1)) = P := ⟨_, rfl⟩
  have hpow : 10 ^ (n - k) = 10 * P := by
    rw [← hP, ← pow_succ']
    congr 1
    omega
  rw [digitsValue_take_succ (show k < b.length by omega), hP] at hsum
  -- the other digit added at place `k`
  have hD1 : digitsValue (D.modify k (· + b.getD k 0)) = digitsValue D + b.getD k 0 * P := by
    rw [digitsValue_modify_add (by omega), hD, show n - 1 - k = n - (k + 1) by omega, hP]
  have hD1k : (D.modify k (· + b.getD k 0)).getD k 0 = D.getD k 0 + b.getD k 0 :=
    getD_modify_self _ _ (by omega) 0
  simp only [addAt, hD1k]
  split
  · rename_i hcarry
    -- ten taken from place `k`
    have hD2 : digitsValue ((D.modify k (· + b.getD k 0)).modify k (· - 10)) + 10 * P =
        digitsValue (D.modify k (· + b.getD k 0)) := by
      have h10 := @digitsValue_modify_sub (D.modify k (· + b.getD k 0)) k (by simp; omega) 10
        (by rw [← List.getD_eq_getElem _ 0, hD1k]; omega)
      rw [List.length_modify, hD, show n - 1 - k = n - (k + 1) by omega, hP] at h10
      omega
    have hD2k : ((D.modify k (· + b.getD k 0)).modify k (· - 10)).getD k 0 =
        D.getD k 0 + b.getD k 0 - 10 := by
      rw [getD_modify_self _ _ (by simp; omega), hD1k]
    have hD2m : ∀ m, m ≠ k →
        ((D.modify k (· + b.getD k 0)).modify k (· - 10)).getD m 0 = D.getD m 0 := by
      intro m hmk
      rw [getD_modify_of_ne _ _ (Ne.symm hmk), getD_modify_of_ne _ _ (Ne.symm hmk)]
    have hD2len : ((D.modify k (· + b.getD k 0)).modify k (· - 10)).length = n := by simp [hD]
    generalize (D.modify k (· + b.getD k 0)).modify k (· - 10) = D2 at hD2 hD2k hD2m hD2len ⊢
    cases k with
    | zero =>
      -- a new first digit, and the exponent one up
      have hpow0 : 10 ^ n = 10 * P := by simpa using hpow
      refine ⟨?_, ?_, .inr ⟨rfl, by simp [hD2len]⟩, ?_⟩
      · calc digitsValue (1 :: D2) + digitsValue (b.take 0) * 10 ^ (n - 0)
            = digitsValue D2 + 10 * P := by
              rw [digitsValue_cons, hD2len, hpow0]
              simp only [List.take_zero, digitsValue_nil]
              ring
          _ = digitsValue D + (digitsValue (b.take 0) * 10 + b.getD 0 0) * P := by
              rw [hD2, hD1]
              simp
          _ = digitsValue a + digitsValue b := hsum
      · simp only [List.length_cons, hD2len]
        push_cast
        omega
      · intro m
        cases m with
        | zero => simp
        | succ m =>
          rw [List.getD_cons_succ, if_neg (by omega)]
          rcases Nat.eq_zero_or_pos m with rfl | hm0
          · omega
          · rw [hD2m m (by omega)]
            exact hrest m (by omega)
    | succ j =>
      -- the carry goes to place `j`
      have hD3 : digitsValue (D2.modify j (· + 1)) = digitsValue D2 + 10 * P := by
        rw [digitsValue_modify_add (by omega), hD2len, show n - 1 - j = n - (j + 1) by omega,
          hpow, one_mul]
      refine ⟨?_, ?_, .inl (by simp [hD2len]), ?_⟩
      · calc digitsValue (D2.modify j (· + 1)) + digitsValue (b.take (j + 1)) * 10 ^ (n - (j + 1))
            = digitsValue D2 + 10 * P + digitsValue (b.take (j + 1)) * (10 * P) := by
              rw [hD3, hpow]
          _ = digitsValue D + (digitsValue (b.take (j + 1)) * 10 + b.getD (j + 1) 0) * P := by
              rw [hD2, hD1]
              ring
          _ = digitsValue a + digitsValue b := hsum
      · simpa [hD2len, hD] using hscale
      · intro m
        by_cases hmj : m = j
        · -- the place that took the carry
          subst hmj
          rw [getD_modify_self _ _ (by omega), hD2m m (by omega), if_pos rfl]
          have := hrest m (by omega)
          omega
        · rw [getD_modify_of_ne _ _ (Ne.symm hmj), if_neg (by omega)]
          by_cases hmk : m = j + 1
          · subst hmk
            omega
          · rw [hD2m m hmk]
            exact hrest m hmk
  · rename_i hno
    refine ⟨?_, ?_, .inl (by simp [hD]), ?_⟩
    · calc digitsValue (D.modify k (· + b.getD k 0)) + digitsValue (b.take k) * 10 ^ (n - k)
          = digitsValue D + (digitsValue (b.take k) * 10 + b.getD k 0) * P := by
            rw [hD1, hpow]
            ring
        _ = digitsValue a + digitsValue b := hsum
    · simpa [hD] using hscale
    · intro m
      by_cases hmk : m = k
      · subst hmk
        rw [hD1k]
        omega
      · rw [getD_modify_of_ne _ _ (Ne.symm hmk)]
        have := hrest m hmk
        omega

theorem addLoop_inv (hb : DigitsLt b) (hbn : b.length = n) :
    ∀ i, i ≤ n → ∀ state, AddInv a b n e i state → AddInv a b n e 0 (addLoop b i state)
  | 0, _, _, h => h
  | i + 1, hi, _, h => addLoop_inv hb hbn i (by omega) _ (addAt_inv hb hbn (by omega) h)

theorem addInv_start (ha : DigitsLt a) (han : a.length = n) (hbn : b.length = n) :
    AddInv a b n e n (a, e) where
  sum := by simp [List.take_of_length_le (le_of_eq hbn)]
  scale := by simp [han]
  length := .inl han
  digits j := by
    show a.getD j 0 ≤ _
    by_cases hj : j < a.length
    · have := ha _ (List.getElem_mem hj)
      rw [List.getD_eq_getElem _ _ hj]
      omega
    · rw [List.getD_eq_default _ _ (by omega)]
      omega

theorem AddInv.digitsLt {state : List Nat × Int} (h : AddInv a b n e 0 state) :
    DigitsLt state.1 := by
  intro d hd
  obtain ⟨j, hj, rfl⟩ := List.getElem_of_mem hd
  have := h.digits j
  rw [List.getD_eq_getElem _ _ hj, if_neg (by omega)] at this
  omega

end Adding

/-! ### The subtracting loop -/

/-- The state of the subtracting loop with the places below `i` still to do: the digits so far
less what is left of the other's digits make the difference of the two mantissas, every digit
of the state is below ten, and every digit of the other left is below ten but the one at
`i - 1`, which may hold a borrow. -/
structure SubInv (f s : List Nat) (n : Nat) (i : Nat) (state : List Nat × List Nat) : Prop where
  diff : (digitsValue state.1 : Int) - ((digitsValue (state.2.take i) * 10 ^ (n - i) : Nat) : Int) =
    digitsValue f - digitsValue s
  length : state.1.length = n
  lengthOther : state.2.length = n
  digits : ∀ j, state.1.getD j 0 ≤ 9
  digitsOther : ∀ j < i, state.2.getD j 0 ≤ 9 + if j + 1 = i then 1 else 0

section Subtracting

variable {f s : List Nat} {n : Nat}

theorem subtractAt_inv (hle : digitsValue s ≤ digitsValue f) {k : Nat} (hk : k < n)
    {state : List Nat × List Nat} (h : SubInv f s n (k + 1) state) :
    ∃ state', subtractAt k state = some state' ∧ SubInv f s n k state' := by
  obtain ⟨D, O⟩ := state
  obtain ⟨hdiff, hD, hO, hdig, hodig⟩ := h
  dsimp only at hdiff hD hO hdig hodig
  have hOk : O.getD k 0 ≤ 10 := by simpa using hodig k (by omega)
  have hOrest : ∀ m < k, O.getD m 0 ≤ 9 := fun m hm => by
    simpa [show m ≠ k by omega] using hodig m (by omega)
  obtain ⟨P, hP⟩ : ∃ P, 10 ^ (n - (k + 1)) = P := ⟨_, rfl⟩
  have hpow : 10 ^ (n - k) = 10 * P := by
    rw [← hP, ← pow_succ']
    congr 1
    omega
  rw [digitsValue_take_succ (show k < O.length by omega), hP] at hdiff
  simp only [subtractAt]
  split
  · rename_i hge
    -- the other digit taken from place `k`
    have hD1 : digitsValue (D.modify k (· - O.getD k 0)) + O.getD k 0 * P = digitsValue D := by
      have h1 := @digitsValue_modify_sub D k (by omega) (O.getD k 0)
        (by rw [← List.getD_eq_getElem _ 0]; omega)
      rwa [hD, show n - 1 - k = n - (k + 1) by omega, hP] at h1
    refine ⟨_, rfl, ⟨?_, by simp [hD], hO, ?_, ?_⟩⟩
    · rw [hpow]
      push_cast [← hD1] at hdiff ⊢
      linarith
    · intro m
      by_cases hmk : m = k
      · subst hmk
        rw [getD_modify_self _ _ (by omega)]
        have := hdig m
        omega
      · rw [getD_modify_of_ne _ _ (Ne.symm hmk)]
        exact hdig m
    · intro m hm
      dsimp only
      have := hOrest m hm
      split <;> omega
  · rename_i hlt
    cases k with
    | zero =>
      -- a borrow at the first place: the state writes less than the other's first digit
      exfalso
      obtain ⟨d, ds, rfl⟩ :=
        List.exists_cons_of_ne_nil (List.ne_nil_of_length_pos (show 0 < D.length by omega))
      have hds : ∀ x ∈ ds, x < 10 := fun x hx => by
        obtain ⟨j, hj, rfl⟩ := List.getElem_of_mem hx
        have := hdig (j + 1)
        simp only [List.getD_cons_succ, List.getD_eq_getElem _ _ hj] at this
        omega
      have hbound := digitsValue_cons_lt (d := d) hds
      simp only [List.length_cons] at hD
      simp only [List.getD_cons_zero] at hlt
      rw [show ds.length = n - (0 + 1) by omega, hP] at hbound
      simp only [List.take_zero, digitsValue_nil, zero_mul, zero_add] at hdiff
      have hmul : (d + 1) * P ≤ O.getD 0 0 * P := Nat.mul_le_mul_right _ (by omega)
      have : (digitsValue f : Int) - digitsValue s ≥ 0 := by omega
      push_cast at hdiff
      nlinarith
    | succ j =>
      -- ten borrowed at place `k`, paid back by the other's digit before it
      have hfun : (fun x => x + 10 - O.getD (j + 1) 0) = (· + (10 - O.getD (j + 1) 0)) := by
        funext x
        omega
      have hD1 : digitsValue (D.modify (j + 1) (fun x => x + 10 - O.getD (j + 1) 0)) =
          digitsValue D + (10 - O.getD (j + 1) 0) * P := by
        rw [hfun, digitsValue_modify_add (by omega), hD, show n - 1 - (j + 1) = n - (j + 1 + 1) by omega,
          hP]
      have hO1 : digitsValue ((O.modify j (· + 1)).take (j + 1)) =
          digitsValue (O.take (j + 1)) + 1 := by
        rw [List.take_modify, digitsValue_modify_add (by simp; omega)]
        simp [show min (j + 1) O.length = j + 1 by omega]
      refine ⟨_, rfl, ⟨?_, by simp [hD], by simp [hO], ?_, ?_⟩⟩
      · rw [hO1, hD1, hpow]
        have hsub : ((10 - O.getD (j + 1) 0 : Nat) : Int) = 10 - O.getD (j + 1) 0 := by
          push_cast [Nat.cast_sub hOk]
          ring
        push_cast [hsub] at hdiff ⊢
        linarith
      · intro m
        by_cases hmk : m = j + 1
        · subst hmk
          rw [getD_modify_self _ _ (by omega)]
          omega
        · rw [getD_modify_of_ne _ _ (Ne.symm hmk)]
          exact hdig m
      · intro m hm
        by_cases hmj : m = j
        · subst hmj
          rw [getD_modify_self _ _ (by omega), if_pos rfl]
          have := hOrest m (by omega)
          omega
        · rw [getD_modify_of_ne _ _ (Ne.symm hmj), if_neg (by omega)]
          exact hOrest m (by omega)

theorem subtractLoop_inv (hle : digitsValue s ≤ digitsValue f) :
    ∀ i, i ≤ n → ∀ state, SubInv f s n i state →
      ∃ state', subtractLoop i state = some state' ∧ SubInv f s n 0 state'
  | 0, _, state, h => ⟨state, rfl, h⟩
  | i + 1, hi, state, h => by
    obtain ⟨state₁, h₁, hinv₁⟩ := subtractAt_inv hle (by omega) h
    obtain ⟨state', h', hinv'⟩ := subtractLoop_inv hle i (by omega) state₁ hinv₁
    exact ⟨state', by rw [subtractLoop, h₁]; exact h', hinv'⟩

theorem subInv_start (hf : DigitsLt f) (hs : DigitsLt s) (hfn : f.length = n)
    (hsn : s.length = n) : SubInv f s n n (f, s) where
  diff := by simp [List.take_of_length_le (le_of_eq hsn)]
  length := hfn
  lengthOther := hsn
  digits j := by
    show f.getD j 0 ≤ 9
    by_cases hj : j < f.length
    · have := hf _ (List.getElem_mem hj)
      rw [List.getD_eq_getElem _ _ hj]
      omega
    · rw [List.getD_eq_default _ _ (by omega)]
      omega
  digitsOther j _ := by
    show s.getD j 0 ≤ _
    by_cases hj : j < s.length
    · have := hs _ (List.getElem_mem hj)
      rw [List.getD_eq_getElem _ _ hj]
      omega
    · rw [List.getD_eq_default _ _ (by omega)]
      omega

theorem SubInv.digitsLt {state : List Nat × List Nat} (h : SubInv f s n 0 state) :
    DigitsLt state.1 := by
  intro d hd
  obtain ⟨j, hj, rfl⟩ := List.getElem_of_mem hd
  have := h.digits j
  rw [List.getD_eq_getElem _ _ hj] at this
  omega

end Subtracting

/-! ### Alignment -/

theorem alignExponent_eq {d : Decimal} {m : Int} (hle : d.exponent ≤ m)
    (hfit : m - d.exponent < 2 ^ 63) :
    alignExponent d m =
      some ⟨List.replicate (m - d.exponent).toNat 0 ++ d.digits, m, d.isPositive⟩ := by
  unfold alignExponent
  split
  · have hok : VarInt.toInt64 (m - d.exponent) = .ok (m - d.exponent) := by
      unfold VarInt.toInt64
      rw [if_neg (by omega)]
    rw [hok]
  · obtain rfl : d.exponent = m := by omega
    simp

theorem alignExponent_eq_none {d : Decimal} {m : Int} (hfit : 2 ^ 63 ≤ m - d.exponent) :
    alignExponent d m = none := by
  unfold alignExponent
  have herr : VarInt.toInt64 (m - d.exponent) =
      .error ⟨.kInvalidArgument, "VarInt " ++ String.ofList (VarInt.toString (m - d.exponent)) ++
        " cannot be converted to int64 due to overflow"⟩ := by
    unfold VarInt.toInt64
    rw [if_pos (by omega)]
  rw [if_pos (by omega), herr]

theorem value_align (d : Decimal) {m : Int} (hle : d.exponent ≤ m) :
    value ⟨List.replicate (m - d.exponent).toNat 0 ++ d.digits, m, d.isPositive⟩ = d.value := by
  apply value_eq_of_scaled
  obtain ⟨k, hk⟩ : ∃ k : Nat, (m - d.exponent).toNat = k := ⟨_, rfl⟩
  have hm : m = (k : Int) + d.exponent := by omega
  rw [hk, fractionValue_zeros_append, hm, zpow_add₀ (by norm_num), zpow_natCast]
  field_simp

theorem value_padDigits (d : Decimal) (maxDigits : Nat) : (padDigits d maxDigits).value = d.value :=
  value_eq_of_scaled (by simp)

theorem compare_compareMantissas : ∀ {ds es : List Nat}, ds.length = es.length → DigitsLt ds →
    DigitsLt es → compare (compareMantissas ds es) 0 = compare (digitsValue ds) (digitsValue es)
  | [], [], _, _, _ => rfl
  | d :: ds, e :: es, hlen, hds, hes => by
    simp only [List.length_cons, Nat.add_right_cancel_iff] at hlen
    unfold compareMantissas
    split
    · rename_i hne
      rcases Nat.lt_or_gt_of_ne (show d ≠ e by omega) with hlt | hgt
      · rw [compare_lt_iff_lt.mpr (by omega), compare_lt_iff_lt.mpr
          (digitsValue_lt_of_lt_head hlen hlt hds.tail)]
      · rw [compare_gt_iff_gt.mpr (by omega), compare_gt_iff_gt.mpr
          (digitsValue_lt_of_lt_head hlen.symm hgt hes.tail)]
    · rename_i heq
      obtain rfl : d = e := by omega
      rw [compare_compareMantissas hlen hds.tail hes.tail, digitsValue_cons, digitsValue_cons, hlen]
      exact compare_eq_compare (by simp) (by simp)

/-! ### The sum -/

section Loops

variable {A B : List Nat} {n : Nat}

theorem addLoop_value (hA : DigitsLt A) (hB : DigitsLt B) (hAn : A.length = n) (hBn : B.length = n)
    (m : Int) (p : Bool) :
    (makeCanonical ⟨(addLoop B n (A, m)).1, (addLoop B n (A, m)).2, p⟩).Valid ∧
      (makeCanonical ⟨(addLoop B n (A, m)).1, (addLoop B n (A, m)).2, p⟩).value =
        value ⟨A, m, p⟩ + value ⟨B, m, p⟩ := by
  have hinv := addLoop_inv hB hBn n le_rfl _ (addInv_start hA hAn hBn : AddInv A B n m n (A, m))
  refine ⟨valid_makeCanonical hinv.digitsLt, ?_⟩
  generalize addLoop B n (A, m) = r at hinv ⊢
  obtain ⟨D, x⟩ := r
  have hsum : (digitsValue D : ℚ) = digitsValue A + digitsValue B := by
    exact_mod_cast (by simpa using hinv.sum)
  have hscale : x - D.length = m - n := hinv.scale
  rw [makeCanonical_value, value_eq_digitsValue, value_eq_digitsValue, value_eq_digitsValue,
    hscale, hAn, hBn, hsum]
  ring

theorem subtractLoop_value (hA : DigitsLt A) (hB : DigitsLt B) (hAn : A.length = n)
    (hBn : B.length = n) (hle : digitsValue B ≤ digitsValue A) (m : Int) (p : Bool) :
    ∃ D O, subtractLoop n (A, B) = some (D, O) ∧ (makeCanonical ⟨D, m, p⟩).Valid ∧
      (makeCanonical ⟨D, m, p⟩).value = value ⟨A, m, p⟩ + value ⟨B, m, !p⟩ := by
  obtain ⟨⟨D, O⟩, hloop, hinv⟩ :=
    subtractLoop_inv hle n le_rfl _ (subInv_start hA hB hAn hBn)
  refine ⟨D, O, hloop, valid_makeCanonical hinv.digitsLt, ?_⟩
  have hdiff : (digitsValue D : ℚ) = digitsValue A - digitsValue B := by
    have h := hinv.diff
    simp only [List.take_zero, digitsValue_nil, zero_mul, Nat.cast_zero, sub_zero] at h
    exact_mod_cast h
  have hD : D.length = n := hinv.length
  rw [makeCanonical_value, value_eq_digitsValue, value_eq_digitsValue, value_eq_digitsValue, hD,
    hAn, hBn, hdiff]
  cases p <;> simp <;> ring

end Loops

theorem add_eq_some {a b : Decimal} (ha : a.Valid) (hb : b.Valid)
    (hfit : |a.exponent - b.exponent| < 2 ^ 63) :
    ∃ c, a.add b = some c ∧ c.Valid ∧ c.value = a.value + b.value := by
  have hofa : ofDigits a.digits a.exponent a.isPositive = a :=
    makeCanonical_of_isCanonical ha.isCanonical
  have hofb : ofDigits b.digits b.exponent b.isPositive = b :=
    makeCanonical_of_isCanonical hb.isCanonical
  have hfit' := abs_lt.mp hfit
  have hma : a.exponent ≤ max b.exponent a.exponent := le_max_right _ _
  have hmb : b.exponent ≤ max b.exponent a.exponent := le_max_left _ _
  simp only [add, hofa, hofb]
  rw [alignExponent_eq hma (by rw [max_def]; split <;> omega),
    alignExponent_eq hmb (by rw [max_def]; split <;> omega)]
  simp only [Option.bind_eq_bind, Option.bind_some]
  -- the aligned mantissas
  have hva := value_align a hma
  have hvb := value_align b hmb
  have hA₁ : DigitsLt (List.replicate (max b.exponent a.exponent - a.exponent).toNat 0 ++ a.digits) := by
    simp [ha.digitsLt]
  have hB₁ : DigitsLt (List.replicate (max b.exponent a.exponent - b.exponent).toNat 0 ++ b.digits) := by
    simp [hb.digitsLt]
  generalize List.replicate (max b.exponent a.exponent - a.exponent).toNat 0 ++ a.digits = A₁ at *
  generalize List.replicate (max b.exponent a.exponent - b.exponent).toNat 0 ++ b.digits = B₁ at *
  generalize max b.exponent a.exponent = m at *
  -- both padded to one count of digits
  have hvA : value ⟨A₁ ++ List.replicate (max A₁.length B₁.length - A₁.length) 0, m,
      a.isPositive⟩ = a.value := by
    rw [← hva]
    exact value_eq_of_scaled (by simp)
  have hvB : value ⟨B₁ ++ List.replicate (max A₁.length B₁.length - B₁.length) 0, m,
      b.isPositive⟩ = b.value := by
    rw [← hvb]
    exact value_eq_of_scaled (by simp)
  have hAn : (A₁ ++ List.replicate (max A₁.length B₁.length - A₁.length) 0).length =
      max A₁.length B₁.length := by simp
  have hBn : (B₁ ++ List.replicate (max A₁.length B₁.length - B₁.length) 0).length =
      max A₁.length B₁.length := by simp
  have hA : DigitsLt (A₁ ++ List.replicate (max A₁.length B₁.length - A₁.length) 0) := by
    simp [hA₁]
  have hB : DigitsLt (B₁ ++ List.replicate (max A₁.length B₁.length - B₁.length) 0) := by
    simp [hB₁]
  generalize max A₁.length B₁.length = n at *
  rw [show padDigits ⟨A₁, m, a.isPositive⟩ n = ⟨A₁ ++ List.replicate (n - A₁.length) 0, m,
      a.isPositive⟩ from rfl, show padDigits ⟨B₁, m, b.isPositive⟩ n =
      ⟨B₁ ++ List.replicate (n - B₁.length) 0, m, b.isPositive⟩ from rfl]
  generalize A₁ ++ List.replicate (n - A₁.length) 0 = A at *
  generalize B₁ ++ List.replicate (n - B₁.length) 0 = B at *
  split
  · -- one sign: the mantissas are added
    rename_i hsign
    obtain ⟨hvalid, hvalue⟩ := addLoop_value hA hB hAn hBn m a.isPositive
    refine ⟨_, rfl, hvalid, ?_⟩
    rw [hvalue, hvA, hsign, hvB]
  · -- signs apart: the smaller mantissa is taken from the larger
    rename_i hsign
    have hpb : b.isPositive = !a.isPositive := by
      revert hsign
      cases a.isPositive <;> cases b.isPositive <;> decide
    have hcmp := compare_compareMantissas (hAn.trans hBn.symm) hA hB
    by_cases hlt : compareMantissas A B < 0
    · have hNlt : digitsValue A < digitsValue B := by
        rw [← compare_lt_iff_lt, ← hcmp]
        exact compare_lt_iff_lt.mpr hlt
      obtain ⟨D, O, hloop, hvalid, hvalue⟩ :=
        subtractLoop_value hB hA hBn hAn hNlt.le m (!a.isPositive)
      simp only [if_pos hlt, hloop, Option.bind_some]
      refine ⟨_, rfl, hvalid, ?_⟩
      rw [hvalue, Bool.not_not, hvA, ← hpb, hvB, add_comm]
    · have hNle : digitsValue B ≤ digitsValue A := by
        rw [← not_lt, ← compare_lt_iff_lt, ← hcmp, compare_lt_iff_lt]
        exact hlt
      obtain ⟨D, O, hloop, hvalid, hvalue⟩ := subtractLoop_value hA hB hAn hBn hNle m a.isPositive
      simp only [if_neg hlt, hloop, Option.bind_some]
      refine ⟨_, rfl, hvalid, ?_⟩
      rw [hvalue, hvA, ← hpb, hvB]

theorem add_eq_none {a b : Decimal} (ha : a.Valid) (hb : b.Valid)
    (hfit : 2 ^ 63 ≤ |a.exponent - b.exponent|) : a.add b = none := by
  have hofa : ofDigits a.digits a.exponent a.isPositive = a :=
    makeCanonical_of_isCanonical ha.isCanonical
  have hofb : ofDigits b.digits b.exponent b.isPositive = b :=
    makeCanonical_of_isCanonical hb.isCanonical
  simp only [add, hofa, hofb]
  rcases le_or_gt a.exponent b.exponent with hab | hab
  · -- `a` is the one moved, too far
    rw [max_eq_left hab, alignExponent_eq_none (by rw [abs_sub_comm, abs_of_nonneg (by omega)] at hfit; omega)]
    rfl
  · -- `a` stays, `b` is moved too far
    rw [max_eq_right hab.le, alignExponent_eq le_rfl (by omega),
      alignExponent_eq_none (by rw [abs_of_pos (by omega)] at hfit; omega)]
    rfl

/-- `operator+` of two canonical decimals fails exactly when their exponents are `2^63` or more
apart, and otherwise gives the canonical decimal of the exact sum. -/
theorem add_exact {a b : Decimal} (ha : a.Valid) (hb : b.Valid) :
    ((a.add b).isSome ↔ |a.exponent - b.exponent| < 2 ^ 63) ∧
      ∀ c, a.add b = some c → c.Valid ∧ c.value = a.value + b.value := by
  by_cases hfit : |a.exponent - b.exponent| < 2 ^ 63
  · obtain ⟨c, hc, hvalid, hvalue⟩ := add_eq_some ha hb hfit
    refine ⟨by simpa [hc] using hfit, ?_⟩
    intro c' hc'
    obtain rfl : c = c' := Option.some.inj (hc.symm.trans hc')
    exact ⟨hvalid, hvalue⟩
  · have hnone := add_eq_none ha hb (not_lt.mp hfit)
    refine ⟨by simpa [hnone] using hfit, ?_⟩
    intro c hc
    rw [hnone] at hc
    cases hc

theorem add_exact_mixed_signs :
    (⟨[1, 2, 5], 2, false⟩ : Decimal).Valid ∧ (⟨[3], -1, true⟩ : Decimal).Valid ∧
      ((((⟨[1, 2, 5], 2, false⟩ : Decimal).add ⟨[3], -1, true⟩).isSome ↔
          |(⟨[1, 2, 5], 2, false⟩ : Decimal).exponent - (⟨[3], -1, true⟩ : Decimal).exponent| <
            2 ^ 63) ∧
        ∀ c, (⟨[1, 2, 5], 2, false⟩ : Decimal).add ⟨[3], -1, true⟩ = some c →
          c.Valid ∧ c.value = (⟨[1, 2, 5], 2, false⟩ : Decimal).value +
            (⟨[3], -1, true⟩ : Decimal).value) :=
  ⟨by decide, by decide, add_exact (by decide) (by decide)⟩

end Decimal

end FrescoDB.Util
