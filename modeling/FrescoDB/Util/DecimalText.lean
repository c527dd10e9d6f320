import FrescoDB.Util.DecimalValue
import FrescoDB.Lib.ExceptStep

/-! The text of `Decimal` (`ToPointString`, `ToScientificString`, `ToString`, `FromString`).
`FromString` reads digits, at most one point and an optional exponent, and always makes a
canonical decimal of digits below ten. Each text `ToString` writes, in the point notation or the
scientific one, reads back to a decimal of the same number, so by the uniqueness of canonical
decimals to the decimal itself. -/
namespace FrescoDB.Util

open FrescoDB.Lib

namespace Decimal

/-! ### Reading -/

theorem digitChar_facts : ∀ d : Fin 10, digitChar d.val ≠ 'e' ∧ digitChar d.val ≠ 'E' ∧
    digitChar d.val ≠ '.' ∧ '0' ≤ digitChar d.val ∧ digitChar d.val ≤ '9' ∧
      (digitChar d.val).toNat - '0'.toNat = d.val := by
  decide

theorem fromStringLoop_digits (slice : List Char) :
    ∀ (ds : List Nat), DigitsLt ds → ∀ (i : Nat) (rest : List Char) (pointPosition : Option Nat)
      (digits : List Nat),
      fromStringLoop slice i (ds.map digitChar ++ rest) pointPosition digits =
        fromStringLoop slice (i + ds.length) rest pointPosition (digits ++ ds)
  | [], _, i, rest, pointPosition, digits => by simp
  | d :: ds, h, i, rest, pointPosition, digits => by
    obtain ⟨he, hE, hpoint, hlo, hhi, hval⟩ := digitChar_facts ⟨d, h.head⟩
    simp only [List.map_cons, List.cons_append, fromStringLoop, he, hE, or_self, if_false,
      hpoint, false_and, hlo, hhi, and_self, if_true, hval]
    rw [fromStringLoop_digits slice ds h.tail]
    simp only [List.length_cons, List.append_assoc, List.singleton_append]
    congr 1
    omega

theorem fromStringLoop_point (slice : List Char) (i : Nat) (rest : List Char) (digits : List Nat) :
    fromStringLoop slice i ('.' :: rest) none digits =
      fromStringLoop slice (i + 1) rest (some digits.length) digits := by
  simp [fromStringLoop]

theorem fromStringLoop_exponent (slice : List Char) (i : Nat) (rest : List Char)
    (pointPosition : Option Nat) (digits : List Nat) :
    fromStringLoop slice i ('e' :: rest) pointPosition digits =
      .ok (digits, pointPosition, 'e' :: rest) := by
  simp [fromStringLoop]

theorem fromStringLoop_digitsLt (slice : List Char) :
    ∀ (i : Nat) (input : List Char) (pointPosition : Option Nat) (digits : List Nat)
      {result : List Nat × Option Nat × List Char}, DigitsLt digits →
      fromStringLoop slice i input pointPosition digits = .ok result → DigitsLt result.1
  | _, [], _, _, _, h, hloop => by
    simp only [fromStringLoop, Except.ok.injEq] at hloop
    rw [← hloop]
    exact h
  | i, c :: cs, pointPosition, digits, _, h, hloop => by
    unfold fromStringLoop at hloop
    split at hloop
    · simp only [Except.ok.injEq] at hloop
      rw [← hloop]
      exact h
    split at hloop
    · exact fromStringLoop_digitsLt slice _ cs _ _ h hloop
    split at hloop
    · rename_i hdigit
      refine fromStringLoop_digitsLt slice _ cs _ _ (fun x hx => ?_) hloop
      rcases List.mem_append.mp hx with hx | hx
      · exact h x hx
      · -- a character from `'0'` to `'9'` is a digit below ten
        simp only [List.mem_singleton] at hx
        subst hx
        obtain ⟨hlo, hhi⟩ := hdigit
        rw [Char.le_def] at hlo hhi
        simp only [Char.toNat, UInt32.le_iff_toNat_le] at hlo hhi ⊢
        have : '9'.val.toNat = 57 := rfl
        have : '0'.val.toNat = 48 := rfl
        omega
    · cases hloop

/-- What follows the digits: nothing, and the exponent is zero, or an `e` and the text of the
exponent. -/
def ReadsExponent (rest : List Char) (exponent : Int) : Prop :=
  rest = [] ∧ exponent = 0 ∨ ∃ t, rest = 'e' :: t ∧ VarInt.fromString t = .ok exponent

theorem ReadsExponent.loop_stop {rest : List Char} {exponent : Int} (h : ReadsExponent rest exponent)
    (slice : List Char) (i : Nat) (pointPosition : Option Nat) (digits : List Nat) :
    fromStringLoop slice i rest pointPosition digits = .ok (digits, pointPosition, rest) := by
  rcases h with ⟨rfl, -⟩ | ⟨t, rfl, -⟩
  · rfl
  · exact fromStringLoop_exponent slice i t pointPosition digits

theorem fromStringLoop_pointText (slice : List Char) (i : Nat) {ds₁ ds₂ : List Nat}
    (h₁ : DigitsLt ds₁) (h₂ : DigitsLt ds₂) (rest : List Char) :
    fromStringLoop slice i (ds₁.map digitChar ++ '.' :: (ds₂.map digitChar ++ rest)) none [] =
      fromStringLoop slice (i + ds₁.length + 1 + ds₂.length) rest (some ds₁.length) (ds₁ ++ ds₂) := by
  rw [fromStringLoop_digits slice ds₁ h₁, List.nil_append, fromStringLoop_point,
    fromStringLoop_digits slice ds₂ h₂]

theorem fromString_signed (p : Bool) {ds : List Nat} (hne : ds ≠ []) (hds : DigitsLt ds)
    (more : List Char) {digits : List Nat} {pointFound : Option Nat} {rest : List Char}
    {exponent : Int}
    (hloop : ∀ slice i, fromStringLoop slice i (ds.map digitChar ++ more) none [] =
      .ok (digits, pointFound, rest))
    (hdigits : digits ≠ []) (hexp : ReadsExponent rest exponent) :
    fromString ((if p then [] else ['-']) ++ ds.map digitChar ++ more) =
      .ok (makeCanonical ⟨digits, exponent + (pointFound.getD digits.length : Nat), p⟩) := by
  obtain ⟨d, ds, rfl⟩ := List.exists_cons_of_ne_nil hne
  obtain ⟨-, -, -, hlo, -, -⟩ := digitChar_facts ⟨d, hds.head⟩
  -- the first digit is neither sign
  have hplus : digitChar d ≠ '+' := fun h => absurd (h ▸ hlo) (by decide)
  have hminus : digitChar d ≠ '-' := fun h => absurd (h ▸ hlo) (by decide)
  have hpositive : (digitChar d != '-') = true := bne_iff_ne.mpr hminus
  simp only [List.map_cons, List.cons_append] at hloop
  rcases hexp with ⟨rfl, rfl⟩ | ⟨t, rfl, ht⟩
  · cases p <;> simp [fromString, hplus, hminus, hpositive, hloop, hdigits]
  · cases p <;> simp [fromString, hplus, hminus, hpositive, hloop, hdigits, ht]

theorem fromString_pointText (p : Bool) {ds₁ ds₂ : List Nat} (hne : ds₁ ≠ []) (h₁ : DigitsLt ds₁)
    (h₂ : DigitsLt ds₂) {rest : List Char} {exponent : Int} (hexp : ReadsExponent rest exponent) :
    fromString ((if p then [] else ['-']) ++ ds₁.map digitChar ++ '.' :: (ds₂.map digitChar ++ rest)) =
      .ok (makeCanonical ⟨ds₁ ++ ds₂, exponent + ds₁.length, p⟩) :=
  fromString_signed p hne h₁ _
    (fun slice i => by rw [fromStringLoop_pointText slice i h₁ h₂, hexp.loop_stop]) (by simp [hne])
    hexp

theorem fromString_digitsText (p : Bool) {ds : List Nat} (hne : ds ≠ []) (hds : DigitsLt ds) :
    fromString ((if p then [] else ['-']) ++ ds.map digitChar) =
      .ok (makeCanonical ⟨ds, ds.length, p⟩) := by
  have hloop : ∀ slice i, fromStringLoop slice i (ds.map digitChar ++ []) none [] =
      .ok (ds, none, []) := fun slice i => by
    rw [fromStringLoop_digits slice ds hds]
    rfl
  have h := fromString_signed p hne hds [] hloop hne (.inl ⟨rfl, rfl⟩)
  simpa using h

theorem fromString_zero : fromString ['0'] = .ok zero := rfl

/-! ### Writing -/

theorem pushChecked_ok {maxLength : Nat} :
    ∀ {output cs result : List Char}, pushChecked maxLength output cs = .ok result →
      result = output ++ cs
  | output, [], result, h => by
    simp only [pushChecked, Except.ok.injEq] at h
    simp [h]
  | output, c :: cs, result, h => by
    unfold pushChecked at h
    split at h
    · cases h
    · rw [pushChecked_ok h, List.append_assoc, List.singleton_append]

theorem toInt64_ok {v r : Int} (h : VarInt.toInt64 v = .ok r) : r = v := by
  unfold VarInt.toInt64 at h
  split at h
  · cases h
  · exact (Except.ok.inj h).symm

theorem toPointString_cases {d : Decimal} (hne : d.digits ≠ []) {maxLength : Nat}
    {output : List Char} (h : d.toPointString maxLength = .ok output) :
    d.exponent ≤ 0 ∧ output = (if d.isPositive then [] else ['-']) ++
        '0' :: '.' :: List.replicate d.exponent.natAbs '0' ++ d.digits.map digitChar ∨
      0 < d.exponent ∧ output = (if d.isPositive then [] else ['-']) ++
        (d.digits.take d.exponent.toNat).map digitChar ++
        (if d.digits.length ≤ d.exponent.toNat then []
          else '.' :: (d.digits.drop d.exponent.toNat).map digitChar) ++
        List.replicate (d.exponent.toNat - d.digits.length) '0' := by
  have hempty : d.digits.isEmpty = false := List.isEmpty_eq_false_iff.mpr hne
  simp only [toPointString, hempty, Bool.false_eq_true, if_false] at h
  obtain ⟨exponent, hexp, h⟩ := except_bind_eq_ok.mp h
  obtain rfl := toInt64_ok hexp
  split at h
  · cases h
  split at h
  · exact .inl ⟨‹_›, pushChecked_ok h⟩
  · refine .inr ⟨by omega, ?_⟩
    obtain ⟨whole, hwhole, h⟩ := except_bind_eq_ok.mp h
    rw [pushChecked_ok hwhole] at h
    simp only [List.splitAt_eq, List.isEmpty_iff, List.drop_eq_nil_iff] at h
    split at h
    · rename_i hlen
      rw [pushChecked_ok h, if_pos hlen, List.append_nil]
    · rename_i hlen
      obtain ⟨fraction, hfraction, h⟩ := except_bind_eq_ok.mp h
      rw [pushChecked_ok h, pushChecked_ok hfraction, if_neg hlen]
      simp

theorem pointText_of_length_le {d : Decimal} (hlen : d.digits.length ≤ d.exponent.toNat) :
    ((if d.isPositive then [] else ['-']) ++ (d.digits.take d.exponent.toNat).map digitChar ++
        (if d.digits.length ≤ d.exponent.toNat then []
          else '.' :: (d.digits.drop d.exponent.toNat).map digitChar)) ++
        List.replicate (d.exponent.toNat - d.digits.length) '0' =
      (if d.isPositive then [] else ['-']) ++
        (d.digits ++ List.replicate (d.exponent.toNat - d.digits.length) 0).map digitChar := by
  have h0 : digitChar 0 = '0' := by decide
  simp [hlen, List.take_of_length_le hlen, h0, List.map_replicate]

/-! ### The round trip -/

theorem fromString_toPointString {d : Decimal} (hv : d.Valid) {maxLength : Nat}
    {output : List Char} (h : d.toPointString maxLength = .ok output) : fromString output = .ok d := by
  by_cases hne : d.digits = []
  · obtain rfl := eq_zero_of_digits_eq_nil hv hne
    have hout : output = ['0'] := by simpa [toPointString, zero] using h.symm
    rw [hout, fromString_zero]
  have hds := hv.digitsLt
  rcases toPointString_cases hne h with ⟨hle, rfl⟩ | ⟨hpos, rfl⟩
  · -- `0.`, the zeros the exponent asks for, then the digits
    have h0 : digitChar 0 = '0' := by decide
    have htext : (if d.isPositive then [] else ['-']) ++
        '0' :: '.' :: List.replicate d.exponent.natAbs '0' ++ d.digits.map digitChar =
        (if d.isPositive then [] else ['-']) ++ [0].map digitChar ++
          '.' :: ((List.replicate d.exponent.natAbs 0 ++ d.digits).map digitChar ++ []) := by
      simp [h0, List.map_replicate]
    rw [htext, fromString_pointText _ (List.cons_ne_nil 0 []) (by simp) (by simp [hds])
      (.inl ⟨rfl, rfl⟩)]
    congr 1
    refine makeCanonical_eq_of_value_eq hv (by simp [hds]) (value_eq_of_scaled ?_)
    have hpow : (10 : ℚ) ^ d.exponent = ((10 : ℚ) ^ d.exponent.natAbs)⁻¹ := by
      rw [← zpow_natCast, ← zpow_neg, Int.ofNat_natAbs_of_nonpos hle, neg_neg]
    rw [hpow, List.singleton_append, fractionValue_cons, fractionValue_zeros_append]
    simp [div_eq_mul_inv]
  · by_cases hlen : d.digits.length ≤ d.exponent.toNat
    · -- every digit before the point, then the zeros the exponent asks for
      rw [pointText_of_length_le hlen, fromString_digitsText _ (by simp [hne]) (by simp [hds])]
      congr 1
      refine makeCanonical_eq_of_value_eq hv (by simp [hds]) (value_eq_of_scaled ?_)
      have hk : (((d.digits ++ List.replicate (d.exponent.toNat - d.digits.length) 0).length : Nat)
          : Int) = d.exponent := by
        simp only [List.length_append, List.length_replicate]
        omega
      rw [hk, fractionValue_append_zeros]
    · -- the point among the digits, and no zeros after them
      have hk : d.exponent.toNat - d.digits.length = 0 := by omega
      have htake : d.digits.take d.exponent.toNat ≠ [] := by
        simp only [ne_eq, List.take_eq_nil_iff, not_or]
        exact ⟨by omega, hne⟩
      have htext : ((if d.isPositive then [] else ['-']) ++
          (d.digits.take d.exponent.toNat).map digitChar ++
          (if d.digits.length ≤ d.exponent.toNat then []
            else '.' :: (d.digits.drop d.exponent.toNat).map digitChar)) ++
          List.replicate (d.exponent.toNat - d.digits.length) '0' =
          (if d.isPositive then [] else ['-']) ++ (d.digits.take d.exponent.toNat).map digitChar ++
            '.' :: ((d.digits.drop d.exponent.toNat).map digitChar ++ []) := by
        simp [hlen, hk]
      rw [htext, fromString_pointText _ htake (hds.take _) (hds.drop _) (.inl ⟨rfl, rfl⟩)]
      have hexp : (0 : Int) + ((d.digits.take d.exponent.toNat).length : Nat) = d.exponent := by
        rw [List.length_take]
        omega
      rw [List.take_append_drop, hexp]
      exact congrArg Except.ok (makeCanonical_of_isCanonical hv.isCanonical)

theorem fromString_toScientificString {d : Decimal} (hv : d.Valid) :
    fromString d.toScientificString = .ok d := by
  cases hds : d.digits with
  | nil =>
    obtain rfl := eq_zero_of_digits_eq_nil hv hds
    exact fromString_zero
  | cons first rest =>
    have hd := hv.digitsLt
    rw [hds] at hd
    -- the exponent is written less one, after a `+` when that is not negative
    have hexp : ReadsExponent ('e' :: ((if d.exponent + -1 ≥ 0 then ['+'] else []) ++
        VarInt.toString (d.exponent + -1))) (d.exponent + -1) := by
      refine .inr ⟨_, rfl, ?_⟩
      split
      · exact fromString_plus_toString ‹_›
      · exact fromString_toString _
    have htext : d.toScientificString = (if d.isPositive then [] else ['-']) ++
        [first].map digitChar ++ '.' :: (rest.map digitChar ++ 'e' ::
          ((if d.exponent + -1 ≥ 0 then ['+'] else []) ++ VarInt.toString (d.exponent + -1))) := by
      simp [toScientificString, hds]
    rw [htext, fromString_pointText _ (List.cons_ne_nil first []) (by simp [hd.head]) hd.tail hexp]
    have hexponent : d.exponent + -1 + (([first].length : Nat) : Int) = d.exponent := by simp
    rw [List.singleton_append, ← hds, hexponent]
    exact congrArg Except.ok (makeCanonical_of_isCanonical hv.isCanonical)

/-- `FromString` reads back every valid decimal `ToString` writes. -/
theorem fromString_toString_of_valid {d : Decimal} (hv : d.Valid) :
    fromString d.toString = .ok d := by
  unfold Decimal.toString
  split
  · exact fromString_toPointString hv ‹_›
  · exact fromString_toScientificString hv

theorem fromString_toString_of_valid_negative :
    (⟨[1, 2, 5], 2, false⟩ : Decimal).Valid ∧
      fromString (⟨[1, 2, 5], 2, false⟩ : Decimal).toString = .ok ⟨[1, 2, 5], 2, false⟩ :=
  ⟨by decide, fromString_toString_of_valid (by decide)⟩

end Decimal

end FrescoDB.Util
