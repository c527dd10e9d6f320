import FrescoDB.Util.Status
import FrescoDB.Lib.DigitList

/-! The decimal text of `util::VarInt` (`util/varint.cc`): `ToString` through OpenSSL's
`BN_bn2dec`, `FromString` through `BN_dec2bn`, and `ToInt64`. The text of a number reads back as
the number. -/
namespace FrescoDB.Util

open FrescoDB.Lib

/-- `'0' + digit`. -/
def digitChar (digit : Nat) : Char := Char.ofNat ('0'.toNat + digit)

/-- `BN_bn2dec`: a minus sign for a negative number, then its decimal digits; `0` for zero. -/
def bnBn2dec (v : Int) : List Char :=
  (if v < 0 then ['-'] else []) ++
    (if v = 0 then ['0'] else (Nat.digits 10 v.natAbs).reverse.map digitChar)

/-- `BN_dec2bn`: an optional minus sign and the run of decimal digits after it; the number and
how many characters it took, `0` when no digit follows (a negative zero is zero). -/
def bnDec2bn (a : List Char) : Int × Nat :=
  let neg := a.head? = some '-'
  let a := if neg then a.tail else a
  let digits := a.takeWhile Char.isDigit
  if digits = [] then (0, 0)
  else
    let m := digitsValue (digits.map fun c => c.toNat - '0'.toNat)
    (if neg then -(m : Int) else m, digits.length + if neg then 1 else 0)

namespace VarInt

/-- `ToString`. -/
def toString (v : Int) : List Char := bnBn2dec v

/-- `FromString(const std::string&)`: the C string of the input, up to its first NUL, without one
leading `+`; `BN_dec2bn` must take all of it. -/
def fromString (input : List Char) : Except Status Int :=
  let cstr := input.takeWhile (· ≠ Char.ofNat 0)
  let cstr := if cstr.head? = some '+' then cstr.tail else cstr
  let (value, parsed) := bnDec2bn cstr
  if parsed = 0 ∨ parsed ≠ cstr.length then
    .error ⟨.kInvalidArgument, "Cannot parse varint: " ++ String.ofList cstr⟩
  else .ok value

/-- `ToInt64`: `BN_get_word` against the bound of the sign. -/
def toInt64 (v : Int) : Except Status Int :=
  if v < -2 ^ 63 ∨ 2 ^ 63 - 1 < v then
    .error ⟨.kInvalidArgument,
      "VarInt " ++ String.ofList (toString v) ++ " cannot be converted to int64 due to overflow"⟩
  else .ok v

end VarInt

/-! The text of a number reads back. -/

theorem isDigit_digitChar {d : Nat} (hd : d < 10) : (digitChar d).isDigit = true := by
  interval_cases d <;> decide

theorem digitChar_sub_zero {d : Nat} (hd : d < 10) : (digitChar d).toNat - '0'.toNat = d := by
  interval_cases d <;> decide

theorem map_digitChar_sub_zero {ds : List Nat} (hds : ∀ d ∈ ds, d < 10) :
    (ds.map digitChar).map (fun c => c.toNat - '0'.toNat) = ds := by
  rw [List.map_map]
  conv_rhs => rw [← List.map_id ds]
  exact List.map_congr_left fun d hd => digitChar_sub_zero (hds d hd)

theorem digitChar_ne_zero_char {d : Nat} (hd : d < 10) : digitChar d ≠ Char.ofNat 0 := by
  interval_cases d <;> decide

theorem bnBn2dec_digits (m : Nat) :
    ∃ ds : List Nat, ds ≠ [] ∧ (∀ d ∈ ds, d < 10) ∧ digitsValue ds = m ∧
      (if m = 0 then ['0'] else (Nat.digits 10 m).reverse.map digitChar) = ds.map digitChar := by
  by_cases hm : m = 0
  · subst hm
    exact ⟨[0], by simp, by simp, rfl, rfl⟩
  · refine ⟨(Nat.digits 10 m).reverse,
      List.reverse_ne_nil_iff.mpr (Nat.digits_ne_nil_iff_ne_zero.mpr hm), fun d hd => ?_,
      digitsValue_digits_reverse m, by simp [hm]⟩
    exact Nat.digits_lt_base (by decide) (List.mem_reverse.mp hd)

theorem toString_of_ne_zero {v : Int} (hv : v ≠ 0) :
    ∃ ds : List Nat, ds ≠ [] ∧ ds.head? ≠ some 0 ∧ (∀ d ∈ ds, d < 10) ∧
      digitsValue ds = v.natAbs ∧
      VarInt.toString v = (if v < 0 then ['-'] else []) ++ ds.map digitChar := by
  have hm : v.natAbs ≠ 0 := Int.natAbs_ne_zero.mpr hv
  have hdigits : Nat.digits 10 v.natAbs ≠ [] := Nat.digits_ne_nil_iff_ne_zero.mpr hm
  refine ⟨(Nat.digits 10 v.natAbs).reverse, List.reverse_ne_nil_iff.mpr hdigits, ?_,
    fun d hd => ?_, digitsValue_digits_reverse _, by simp [VarInt.toString, bnBn2dec, hv]⟩
  · -- the first digit written is the last of the base-ten digits, which is not zero
    rw [List.head?_reverse, List.getLast?_eq_some_getLast hdigits, ne_eq, Option.some.injEq]
    exact Nat.getLast_digit_ne_zero 10 hm
  · exact Nat.digits_lt_base (by decide) (List.mem_reverse.mp hd)

theorem bnDec2bn_digits {ds : List Nat} (hne : ds ≠ []) (hds : ∀ d ∈ ds, d < 10) (neg : Bool) :
    bnDec2bn ((if neg then ['-'] else []) ++ ds.map digitChar) =
      (if neg then -(digitsValue ds : Int) else digitsValue ds,
        ds.length + if neg then 1 else 0) := by
  have htake : (ds.map digitChar).takeWhile Char.isDigit = ds.map digitChar :=
    List.takeWhile_eq_self_iff.mpr fun c hc => by
      obtain ⟨d, hd, rfl⟩ := List.mem_map.mp hc
      exact isDigit_digitChar (hds d hd)
  have hvals := map_digitChar_sub_zero hds
  have hhead : (ds.map digitChar).head? ≠ some '-' := by
    cases ds with
    | nil => exact absurd rfl hne
    | cons d ds =>
      have hd := hds d (List.mem_cons_self ..)
      simp only [List.map_cons, List.head?_cons, ne_eq, Option.some.injEq]
      interval_cases d <;> decide
  have hmapne : ds.map digitChar ≠ [] := by simpa using hne
  cases neg
  · simp only [bnDec2bn, Bool.false_eq_true, if_false, List.nil_append, if_neg hhead, htake,
      if_neg hmapne, hvals, List.length_map]
  · simp only [bnDec2bn, if_true, List.cons_append, List.nil_append, List.head?_cons,
      List.tail_cons, htake, if_neg hmapne, hvals, List.length_map]

theorem fromString_digits {ds : List Nat} (hne : ds ≠ []) (hds : ∀ d ∈ ds, d < 10) (neg : Bool) :
    VarInt.fromString ((if neg then ['-'] else []) ++ ds.map digitChar) =
      .ok (if neg then -(digitsValue ds : Int) else digitsValue ds) := by
  have hnul : ∀ c ∈ (if neg then ['-'] else []) ++ ds.map digitChar, c ≠ Char.ofNat 0 := by
    intro c hc
    rcases List.mem_append.mp hc with hc | hc
    · cases neg <;> simp at hc
      subst hc
      decide
    · obtain ⟨d, hd, rfl⟩ := List.mem_map.mp hc
      exact digitChar_ne_zero_char (hds d hd)
  have hplus : ((if neg then ['-'] else []) ++ ds.map digitChar).head? ≠ some '+' := by
    cases neg
    · cases ds with
      | nil => exact absurd rfl hne
      | cons d ds =>
        have hd := hds d (List.mem_cons_self ..)
        simp only [List.map_cons, if_false, List.nil_append, List.head?_cons, ne_eq,
          Option.some.injEq, Bool.false_eq_true]
        interval_cases d <;> decide
    · simp
  have hlen : ((if neg then ['-'] else []) ++ ds.map digitChar).length =
      ds.length + if neg then 1 else 0 := by
    cases neg <;> simp
  have htake := List.takeWhile_eq_self_iff.mpr fun c hc => decide_eq_true (hnul c hc)
  simp only [VarInt.fromString, htake, if_neg hplus, bnDec2bn_digits hne hds neg, hlen]
  simp [hne]

theorem fromString_toString (v : Int) : VarInt.fromString (VarInt.toString v) = .ok v := by
  obtain ⟨ds, hne, hds, hval, hchars⟩ := bnBn2dec_digits v.natAbs
  have htext : VarInt.toString v = (if decide (v < 0) then ['-'] else []) ++ ds.map digitChar := by
    rw [VarInt.toString, bnBn2dec, ← hchars]
    simp [Int.natAbs_eq_zero]
  rw [htext, fromString_digits hne hds, hval]
  by_cases hv : v < 0
  · simp [hv, abs_of_neg hv]
  · simp [hv, abs_of_nonneg (not_lt.mp hv)]

theorem toString_of_nonneg {v : Int} (hv : 0 ≤ v) :
    ∃ ds : List Nat, ds ≠ [] ∧ (∀ d ∈ ds, d < 10) ∧ digitsValue ds = v.natAbs ∧
      VarInt.toString v = ds.map digitChar := by
  obtain ⟨ds, hne, hds, hval, hchars⟩ := bnBn2dec_digits v.natAbs
  refine ⟨ds, hne, hds, hval, ?_⟩
  rw [VarInt.toString, bnBn2dec, ← hchars]
  simp [not_lt.mpr hv, Int.natAbs_eq_zero]

theorem fromString_plus_toString {v : Int} (hv : 0 ≤ v) :
    VarInt.fromString ('+' :: VarInt.toString v) = .ok v := by
  obtain ⟨ds, hne, hds, hval, htext⟩ := toString_of_nonneg hv
  have htake : (ds.map digitChar).takeWhile (· ≠ Char.ofNat 0) = ds.map digitChar :=
    List.takeWhile_eq_self_iff.mpr fun c hc => by
      obtain ⟨d, hd, rfl⟩ := List.mem_map.mp hc
      exact decide_eq_true (digitChar_ne_zero_char (hds d hd))
  have hread := bnDec2bn_digits hne hds false
  simp only [Bool.false_eq_true, if_false, List.nil_append, add_zero] at hread
  simp only [VarInt.fromString, htext, List.takeWhile_cons, htake]
  simp [hread, hne, hval, Int.natAbs_of_nonneg hv]

end FrescoDB.Util
