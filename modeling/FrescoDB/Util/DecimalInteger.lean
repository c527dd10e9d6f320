import FrescoDB.Util.DecimalText

/-! The integers among decimals (`util/decimal.cc`): `is_integer`, `ToVarInt` and `FromVarInt`.
A canonical decimal passes `is_integer` exactly when its number is an integer. `ToVarInt` writes
the point text within `kUnlimitedMaxLength` characters and reads it as a `VarInt`: it returns the
number of every decimal that passes `is_integer` and whose sign and exponent fit the length, and
fails on every other. `FromVarInt` reads the text of a `VarInt` as a canonical decimal, and
`ToVarInt` gives the `VarInt` back exactly when its text fits the length. -/
namespace FrescoDB.Util

open FrescoDB.Lib

namespace Decimal

/-! ### Pushing with the length check -/

theorem pushChecked_eq {maxLength : Nat} :
    ∀ {output cs : List Char}, output.length + cs.length ≤ maxLength →
      pushChecked maxLength output cs = .ok (output ++ cs)
  | output, [], _ => by simp [pushChecked]
  | output, c :: cs, h => by
    simp only [List.length_cons] at h
    have hfit : ¬ (output ++ [c]).length > maxLength := by
      simp only [List.length_append, List.length_singleton]
      omega
    have hrest : (output ++ [c]).length + cs.length ≤ maxLength := by
      simp only [List.length_append, List.length_singleton]
      omega
    rw [pushChecked, if_neg hfit, pushChecked_eq hrest, List.append_assoc, List.singleton_append]

theorem pushChecked_length {maxLength : Nat} :
    ∀ {output cs result : List Char}, pushChecked maxLength output cs = .ok result →
      cs ≠ [] → result.length ≤ maxLength
  | _, [], _, _, hne => absurd rfl hne
  | output, c :: cs, result, h, _ => by
    unfold pushChecked at h
    split at h
    · cases h
    · rename_i hfit
      cases cs with
      | nil =>
        simp only [pushChecked, Except.ok.injEq] at h
        rw [← h]
        omega
      | cons c' cs => exact pushChecked_length h (List.cons_ne_nil _ _)

/-! ### The point text of an integer -/

theorem toPointString_length {d : Decimal} (hne : d.digits ≠ []) {maxLength : Nat}
    {output : List Char} (h : d.toPointString maxLength = .ok output) :
    output.length ≤ maxLength := by
  have hempty : d.digits.isEmpty = false := List.isEmpty_eq_false_iff.mpr hne
  have hmap : d.digits.map digitChar ≠ [] := by simpa using hne
  simp only [toPointString, hempty, Bool.false_eq_true, if_false] at h
  obtain ⟨exponent, hexp, h⟩ := except_bind_eq_ok.mp h
  obtain rfl := toInt64_ok hexp
  split at h
  · cases h
  split at h
  · exact pushChecked_length h hmap
  · -- the whole digits are at least one, so every later push starts within the limit
    obtain ⟨whole, hwhole, h⟩ := except_bind_eq_ok.mp h
    have htake : (d.digits.take d.exponent.toNat).map digitChar ≠ [] := by
      simp only [ne_eq, List.map_eq_nil_iff, List.take_eq_nil_iff, not_or]
      exact ⟨by omega, hne⟩
    simp only [List.splitAt_eq] at hwhole h
    have hwholeLen := pushChecked_length hwhole htake
    -- the last push, of the zeros, starts within the limit and may push nothing
    have hlast : ∀ {before : List Char}, before.length ≤ maxLength →
        pushChecked maxLength before (List.replicate (d.exponent.toNat - d.digits.length) '0') =
          .ok output → output.length ≤ maxLength := by
      intro before hbefore hpush
      by_cases hzeros : d.exponent.toNat - d.digits.length = 0
      · rw [hzeros, List.replicate_zero] at hpush
        simp only [pushChecked, Except.ok.injEq] at hpush
        rwa [← hpush]
      · exact pushChecked_length hpush (by simpa using hzeros)
    split at h
    · simp only [except_pure_eq, except_ok_bind] at h
      exact hlast hwholeLen h
    · rename_i hdrop
      obtain ⟨fraction, hfraction, h⟩ := except_bind_eq_ok.mp h
      exact hlast (pushChecked_length hfraction (by simpa using hdrop)) h

theorem toPointString_of_length_le {d : Decimal} (hne : d.digits ≠ []) {maxLength : Nat}
    (hmax : maxLength < 2 ^ 63) (hlen : (d.digits.length : Int) ≤ d.exponent)
    (hfit : (if d.isPositive then 0 else 1) + d.exponent.toNat ≤ maxLength) :
    d.toPointString maxLength = .ok ((if d.isPositive then [] else ['-']) ++
      (d.digits ++ List.replicate (d.exponent.toNat - d.digits.length) 0).map digitChar) := by
  have hempty : d.digits.isEmpty = false := List.isEmpty_eq_false_iff.mpr hne
  have hlen1 : 0 < d.digits.length := List.length_pos_iff.mpr hne
  have hle : d.digits.length ≤ d.exponent.toNat := by omega
  have hexp : VarInt.toInt64 d.exponent = .ok d.exponent := by
    rw [VarInt.toInt64, if_neg (by omega)]
  have hsign : ((if d.isPositive then [] else ['-']) : List Char).length =
      if d.isPositive then 0 else 1 := by
    split <;> rfl
  have h0 : digitChar 0 = '0' := by decide
  simp only [toPointString, hempty, Bool.false_eq_true, if_false, hexp, except_ok_bind]
  rw [if_neg (by omega), if_neg (by omega)]
  simp only [List.splitAt_eq, List.take_of_length_le hle, List.drop_of_length_le hle,
    List.isEmpty_nil, if_true, except_pure_eq, except_ok_bind]
  -- the digits, then the zeros, each push within the limit
  have hdigits : ((if d.isPositive then [] else ['-']) : List Char).length +
      (d.digits.map digitChar).length ≤ maxLength := by
    rw [List.length_map, hsign]
    omega
  have hzeros : ((if d.isPositive then [] else ['-']) ++ d.digits.map digitChar).length +
      (List.replicate (d.exponent.toNat - d.digits.length) '0').length ≤ maxLength := by
    rw [List.length_append, List.length_map, List.length_replicate, hsign]
    omega
  rw [pushChecked_eq hdigits, except_ok_bind, pushChecked_eq hzeros]
  simp [h0, List.map_replicate]

theorem fromString_pointText_integer {d : Decimal} (hd : DigitsLt d.digits) (hne : d.digits ≠ [])
    (hlen : (d.digits.length : Int) ≤ d.exponent) :
    ∃ n : Int, VarInt.fromString ((if d.isPositive then [] else ['-']) ++
        (d.digits ++ List.replicate (d.exponent.toNat - d.digits.length) 0).map digitChar) =
      .ok n ∧ (n : ℚ) = d.value := by
  have hdz : DigitsLt (d.digits ++ List.replicate (d.exponent.toNat - d.digits.length) 0) := by
    simp [hd]
  have hread := fromString_digits (by simp [hne]) hdz (!d.isPositive)
  have hsign : ((if !d.isPositive then ['-'] else []) : List Char) =
      if d.isPositive then [] else ['-'] := by
    cases d.isPositive <;> rfl
  rw [hsign] at hread
  refine ⟨_, hread, ?_⟩
  -- the zeros after the digits make up the exponent
  have hk : d.exponent - d.digits.length = ((d.exponent.toNat - d.digits.length : Nat) : Int) := by
    omega
  rw [show d.value = _ from value_eq_digitsValue d.digits d.exponent d.isPositive, hk,
    zpow_natCast, digitsValue_append_zeros]
  cases d.isPositive <;> simp

/-! ### `is_integer` -/

theorem not_ten_dvd_digitsValue {ds : List Nat} (hds : DigitsLt ds) (hne : ds ≠ [])
    (ht : NoTrailingZero ds) : ¬ 10 ∣ digitsValue ds := by
  obtain ⟨init, x, rfl⟩ := (List.eq_nil_or_concat ds).resolve_left hne
  have hx : x < 10 := hds x (by simp)
  have hx0 : x ≠ 0 := by simpa [NoTrailingZero] using ht
  rw [List.concat_eq_append, digitsValue_append]
  simp only [List.length_singleton, pow_one, digitsValue_cons, digitsValue_nil, List.length_nil,
    pow_zero, mul_one, add_zero]
  omega

theorem isInteger_of_value_eq {d : Decimal} (hv : d.Valid) {n : Int} (hn : d.value = n) :
    d.isInteger = true := by
  by_contra hnot
  simp only [isInteger, Bool.or_eq_true, List.isEmpty_iff, decide_eq_true_eq, not_or,
    not_le] at hnot
  obtain ⟨hne, hlt⟩ := hnot
  obtain ⟨-, -, -, -, ht⟩ := digits_cons hv hne
  obtain ⟨k, hk⟩ : ∃ k : Nat, d.exponent - d.digits.length = -((k + 1 : Nat) : Int) :=
    ⟨(d.digits.length - d.exponent - 1).toNat, by omega⟩
  -- the digits are the integer times a positive power of ten
  have hscaled :
      (digitsValue d.digits : ℚ) = (if d.isPositive then n else -n) * 10 ^ (k + 1) := by
    rw [show d.value = _ from value_eq_digitsValue d.digits d.exponent d.isPositive, hk,
      zpow_neg, zpow_natCast] at hn
    have hpow : (10 : ℚ) ^ (k + 1) ≠ 0 := by positivity
    cases hp : d.isPositive
    · simp only [hp, Bool.false_eq_true, if_false] at hn ⊢
      push_cast
      field_simp at hn
      linarith
    · simp only [hp, if_true] at hn ⊢
      field_simp at hn
      linarith
  have hcast : (digitsValue d.digits : Int) = (if d.isPositive then n else -n) * 10 ^ (k + 1) := by
    exact_mod_cast hscaled
  refine not_ten_dvd_digitsValue hv.digitsLt hne ht (Int.natCast_dvd_natCast.mp ?_)
  rw [hcast]
  exact ⟨(if d.isPositive then n else -n) * 10 ^ k, by ring⟩

/-- A canonical decimal passes `is_integer` exactly when its number is an integer. -/
theorem isInteger_iff {d : Decimal} (hv : d.Valid) :
    d.isInteger = true ↔ ∃ n : Int, d.value = n := by
  refine ⟨fun hint => ?_, fun ⟨n, hn⟩ => isInteger_of_value_eq hv hn⟩
  by_cases hne : d.digits = []
  · exact ⟨0, by simp [value, hne]⟩
  · have hlen : (d.digits.length : Int) ≤ d.exponent := by
      simpa [isInteger, hne] using hint
    obtain ⟨n, -, hn⟩ := fromString_pointText_integer hv.digitsLt hne hlen
    exact ⟨n, hn.symm⟩

theorem isInteger_iff_twelve_and_a_half :
    (⟨[1, 2, 5], 2, false⟩ : Decimal).Valid ∧
      ((⟨[1, 2, 5], 2, false⟩ : Decimal).isInteger = true ↔
        ∃ n : Int, (⟨[1, 2, 5], 2, false⟩ : Decimal).value = n) :=
  ⟨by decide, isInteger_iff (by decide)⟩

/-! ### `ToVarInt` -/

theorem fromString_zero_text : VarInt.fromString ['0'] = .ok 0 := by
  have h0 : digitChar 0 = '0' := by decide
  simpa [h0, digitsValue_cons] using fromString_digits (List.cons_ne_nil 0 []) (by simp) false

theorem toVarInt_ok {d : Decimal} (hd : DigitsLt d.digits) {n : Int} (h : d.toVarInt = .ok n) :
    d.isInteger = true ∧ (n : ℚ) = d.value ∧
      (d.digits = [] ∨ (if d.isPositive then 0 else 1) + d.exponent ≤ kUnlimitedMaxLength) := by
  obtain ⟨text, htext, h⟩ := except_bind_eq_ok.mp h
  -- the test of `is_integer` comes after the text is written
  by_cases hint : d.isInteger = true
  swap
  · simp [hint, bind, Except.bind, throw, throwThe, MonadExceptOf.throw] at h
  simp only [hint, Bool.not_true, Bool.false_eq_true, if_false] at h
  by_cases hne : d.digits = []
  · have htext' : text = ['0'] := by simpa [toPointString, hne] using htext.symm
    rw [htext', fromString_zero_text, Except.ok.injEq] at h
    exact ⟨hint, by simp [← h, value, hne], .inl hne⟩
  have hlen : (d.digits.length : Int) ≤ d.exponent := by simpa [isInteger, hne] using hint
  rcases toPointString_cases hne htext with ⟨hle, -⟩ | ⟨-, rfl⟩
  · have := List.length_pos_iff.mpr hne
    omega
  rw [pointText_of_length_le (by omega)] at htext h
  obtain ⟨m, hm, hmv⟩ := fromString_pointText_integer hd hne hlen
  rw [hm, Except.ok.injEq] at h
  subst h
  refine ⟨hint, hmv, .inr ?_⟩
  -- the text written fits the length, and it is the sign and as many characters as the exponent
  have hfit := toPointString_length hne htext
  simp only [List.length_append, List.length_map, List.length_replicate] at hfit
  cases hp : d.isPositive
  · simp only [hp, Bool.false_eq_true, if_false, List.length_singleton] at hfit ⊢
    omega
  · simp only [hp, if_true, List.length_nil] at hfit ⊢
    omega

theorem toVarInt_of_fit {d : Decimal} (hd : DigitsLt d.digits) (hint : d.isInteger = true)
    (hfit : d.digits = [] ∨
      (if d.isPositive then 0 else 1) + d.exponent ≤ kUnlimitedMaxLength) :
    ∃ n, d.toVarInt = .ok n := by
  by_cases hne : d.digits = []
  · refine ⟨0, ?_⟩
    simp [toVarInt, toPointString, hne, hint, fromString_zero_text]
  have hlen : (d.digits.length : Int) ≤ d.exponent := by simpa [isInteger, hne] using hint
  have hfitNat : (if d.isPositive then 0 else 1) + d.exponent.toNat ≤ kUnlimitedMaxLength := by
    have hfit := hfit.resolve_left hne
    cases hp : d.isPositive
    · simp only [hp, Bool.false_eq_true, if_false] at hfit ⊢
      omega
    · simp only [hp, if_true] at hfit ⊢
      omega
  have htext := toPointString_of_length_le hne (by decide) hlen hfitNat
  obtain ⟨m, hm, -⟩ := fromString_pointText_integer hd hne hlen
  refine ⟨m, ?_⟩
  simp only [toVarInt, htext, except_ok_bind, hint, Bool.not_true, Bool.false_eq_true, if_false]
  exact hm

theorem toVarInt_zero : zero.toVarInt = .ok 0 := by
  simp [toVarInt, toPointString, zero, isInteger, fromString_zero_text]

/-- `FromVarInt` reads every `VarInt` as the canonical decimal of its number, and `ToVarInt` gives
the `VarInt` back from that decimal exactly when the text of the `VarInt` fits
`kUnlimitedMaxLength` characters. -/
theorem fromVarInt_toVarInt (v : Int) :
    ∃ d, fromVarInt v = .ok d ∧ d.Valid ∧ d.value = v ∧
      (d.toVarInt = .ok v ↔ (VarInt.toString v).length ≤ kUnlimitedMaxLength) := by
  by_cases hv0 : v = 0
  · subst hv0
    have htext : VarInt.toString 0 = ['0'] := rfl
    refine ⟨zero, by rw [fromVarInt, htext]; exact fromString_zero, valid_zero,
      by simp [value, zero], fun _ => by simp [htext, kUnlimitedMaxLength],
      fun _ => toVarInt_zero⟩
  obtain ⟨ds, hne, hhead, hds, hval, htext⟩ := toString_of_ne_zero hv0
  -- the text is read with the point after its last digit
  have hread : fromVarInt v = .ok (makeCanonical ⟨ds, ds.length, !decide (v < 0)⟩) := by
    have h := fromString_digitsText (!decide (v < 0)) hne hds
    rw [fromVarInt, htext]
    by_cases hneg : v < 0 <;> simpa [hneg] using h
  obtain ⟨hexp, hsign, hdne, j, hj⟩ :=
    makeCanonical_of_head_ne_zero hne hhead ds.length (!decide (v < 0))
  have hvalid : (makeCanonical ⟨ds, ds.length, !decide (v < 0)⟩).Valid :=
    valid_makeCanonical hds
  have hvalue : (makeCanonical ⟨ds, ds.length, !decide (v < 0)⟩).value = v := by
    rw [makeCanonical_value]
    simpa using value_unscaled hval 0
  -- the text of the `VarInt` is its sign and as many digits as the decimal's exponent
  have hlength : ((VarInt.toString v).length : Int) =
      (if (makeCanonical ⟨ds, ds.length, !decide (v < 0)⟩).isPositive then 0 else 1) +
        (makeCanonical ⟨ds, ds.length, !decide (v < 0)⟩).exponent := by
    rw [htext, hsign, hexp]
    by_cases hneg : v < 0 <;> simp [hneg, add_comm]
  refine ⟨_, hread, hvalid, hvalue, fun h => ?_, fun hlen => ?_⟩
  · obtain ⟨-, -, hfit⟩ := toVarInt_ok hvalid.digitsLt h
    have hfit := hfit.resolve_left hdne
    rw [← hlength] at hfit
    exact_mod_cast hfit
  · have hint : (makeCanonical ⟨ds, ds.length, !decide (v < 0)⟩).isInteger = true := by
      have hcount := congrArg List.length hj
      rw [List.length_append, List.length_replicate] at hcount
      simp only [isInteger, hexp, Bool.or_eq_true, decide_eq_true_eq]
      exact .inr (by omega)
    obtain ⟨n, hn⟩ := toVarInt_of_fit hvalid.digitsLt hint
      (.inr (by rw [← hlength]; exact_mod_cast hlen))
    have hnv := (toVarInt_ok hvalid.digitsLt hn).2.1
    rw [hvalue] at hnv
    rw [hn, show n = v by exact_mod_cast hnv]

end Decimal

end FrescoDB.Util
