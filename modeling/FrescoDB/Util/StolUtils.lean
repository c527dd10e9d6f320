import FrescoDB.Lib.DigitList

/-! `util::CheckedStoll` (`util/stol_utils.cc`) over the C library's `strtoll` in base 10, and
`std::to_string` of an `int64_t`. `strtoll` takes leading white space, a sign and the longest run
of digits after it, and clamps a value out of range with `ERANGE`; `CheckedStoll` refuses a first
byte that is white space, a value out of range and any byte left after the digits. So it accepts
exactly a sign or none, then one or more digits, leading zeros included, of a value in range; the
text `std::to_string` writes is one of them and reads back as its value. -/
namespace FrescoDB.Util

open FrescoDB.Lib

/-- The least `int64_t`. -/
def int64Min : Int := -2 ^ 63

/-- The greatest `int64_t`. -/
def int64Max : Int := 2 ^ 63 - 1

/-- `isspace` in the C locale: space, and tab through carriage return. -/
def isSpace (c : UInt8) : Bool := c = 32 || (9 ≤ c && c ≤ 13)

def isDigit (c : UInt8) : Bool := 48 ≤ c && c ≤ 57

-- Equation lemmas, made once before their uses.
section
attribute [local simp] int64Min int64Max isDigit
end

/-- The values of the digits at the front of `s`, up to the first byte that is not one. -/
def digitPrefix : List UInt8 → List Nat
  | [] => []
  | c :: cs => if isDigit c then (c.toNat - 48) :: digitPrefix cs else []

/-- The sign `strtoll` reads before the digits: whether it is a minus, and its length. -/
def signOf : List UInt8 → Bool × Nat
  | 45 :: _ => (true, 1)
  | 43 :: _ => (false, 1)
  | _ => (false, 0)

/-- `strtoll(s, &end, 10)`: the value, the number of bytes up to `end`, and whether `errno` is
`ERANGE`. With no digit, nothing is converted and `end` is `s`. -/
def strtoll (s : List UInt8) : Int × Nat × Bool :=
  let ws := (s.takeWhile isSpace).length
  let rest := s.drop ws
  let (neg, signLen) := signOf rest
  let ds := digitPrefix (rest.drop signLen)
  if ds = [] then (0, 0, false)
  else
    let v : Int := if neg then -(digitsValue ds : Int) else digitsValue ds
    let consumed := ws + signLen + ds.length
    if v < int64Min then (int64Min, consumed, true)
    else if int64Max < v then (int64Max, consumed, true)
    else (v, consumed, false)

/-- `CheckedStoll`; its `InvalidArgument` message is dropped, as both callers modelled here
drop it. -/
def checkedStoll (s : List UInt8) : Option Int :=
  match s with
  | [] => none
  | c :: _ =>
    -- CheckNotSpace: strtoll would skip leading white space
    if isSpace c then none
    else
      let (v, consumed, erange) := strtoll s
      if erange then none else if consumed ≠ s.length then none else some v

/-- The byte of a decimal digit. -/
def digitByte (d : Nat) : UInt8 := (48 + d).toUInt8

/-- The decimal digits of `n`, most significant first; `0` has one. -/
def decimalDigits (n : Nat) : List Nat := if n = 0 then [0] else (Nat.digits 10 n).reverse

/-- `std::to_string` of an `int64_t`: a minus sign for a negative value, then its digits. -/
def toDecimalString (v : Int) : List UInt8 :=
  (if v < 0 then [45] else []) ++ (decimalDigits v.natAbs).map digitByte

/-! ### Digits -/

theorem isDigit_digitByte {d : Nat} (hd : d < 10) : isDigit (digitByte d) = true := by
  have h : (digitByte d).toNat = 48 + d := by
    simp only [digitByte, Nat.toUInt8, UInt8.toNat_ofNat']
    omega
  have h48 : (48 : UInt8).toNat = 48 := rfl
  have h57 : (57 : UInt8).toNat = 57 := rfl
  simp only [isDigit, Bool.and_eq_true, decide_eq_true_eq, UInt8.le_iff_toNat_le, h, h48, h57]
  omega

theorem toNat_digitByte {d : Nat} (hd : d < 10) : (digitByte d).toNat = 48 + d := by
  simp only [digitByte, Nat.toUInt8, UInt8.toNat_ofNat']
  omega

theorem not_isSpace_digitByte {d : Nat} (hd : d < 10) : isSpace (digitByte d) = false := by
  have h := toNat_digitByte hd
  simp only [isSpace, Bool.or_eq_false_iff, decide_eq_false_iff_not, Bool.and_eq_false_imp,
    decide_eq_true_eq]
  refine ⟨fun heq => ?_, fun _ hle => ?_⟩
  · have := congrArg UInt8.toNat heq
    simp at this
    omega
  · rw [UInt8.le_iff_toNat_le, h] at hle
    simp at hle
    omega

@[simp] theorem digitPrefix_nil : digitPrefix [] = [] := rfl

theorem digitPrefix_map_digitByte_append {ds : List Nat} (hds : ∀ d ∈ ds, d < 10)
    (rest : List UInt8) :
    digitPrefix (ds.map digitByte ++ rest) = ds ++ digitPrefix rest := by
  induction ds with
  | nil => rfl
  | cons d ds ih =>
    have hd := hds d (List.mem_cons_self ..)
    simp only [List.map_cons, List.cons_append, digitPrefix, isDigit_digitByte hd, if_true,
      toNat_digitByte hd, ih fun x hx => hds x (List.mem_cons_of_mem _ hx)]
    congr 1
    omega

theorem eq_map_digitByte_of_digitPrefix {s : List UInt8}
    (hlen : (digitPrefix s).length = s.length) :
    s = (digitPrefix s).map digitByte ∧ ∀ d ∈ digitPrefix s, d < 10 := by
  induction s with
  | nil => simp [digitPrefix]
  | cons c cs ih =>
    by_cases hc : isDigit c
    · simp only [digitPrefix, hc, if_true, List.length_cons, Nat.add_right_cancel_iff] at hlen ⊢
      obtain ⟨hcs, hlt⟩ := ih hlen
      simp only [isDigit, Bool.and_eq_true, decide_eq_true_eq, UInt8.le_iff_toNat_le] at hc
      have hc₁ : (48 : UInt8).toNat = 48 := rfl
      have hc₂ : (57 : UInt8).toNat = 57 := rfl
      refine ⟨?_, ?_⟩
      · rw [List.map_cons, ← hcs]
        congr 1
        apply UInt8.toNat_inj.mp
        rw [toNat_digitByte (by omega)]
        omega
      · intro d hd
        rcases List.mem_cons.mp hd with rfl | hd
        · omega
        · exact hlt d hd
    · simp [digitPrefix, hc] at hlen

theorem decimalDigits_ne_nil (n : Nat) : decimalDigits n ≠ [] := by
  unfold decimalDigits
  split_ifs with hn
  · simp
  · simpa using Nat.digits_ne_nil_iff_ne_zero.mpr hn

theorem decimalDigits_lt_ten (n : Nat) : ∀ d ∈ decimalDigits n, d < 10 := by
  unfold decimalDigits
  split_ifs
  · simp
  · intro d hd
    exact Nat.digits_lt_base (by decide) (List.mem_reverse.mp hd)

theorem digitsValue_decimalDigits (n : Nat) : digitsValue (decimalDigits n) = n := by
  unfold decimalDigits
  split_ifs with hn
  · simp [hn, digitsValue]
  · exact digitsValue_digits_reverse n

/-! ### What `CheckedStoll` accepts -/

/-- What `CheckedStoll` makes of the bytes after the sign: all of them digits, at least one, of
a value in range. -/
def readDigits (neg : Bool) (cs : List UInt8) : Option Int :=
  let ds := digitPrefix cs
  let v : Int := if neg then -(digitsValue ds : Int) else digitsValue ds
  if ds = [] ∨ ds.length ≠ cs.length then none
  else if int64Min ≤ v ∧ v ≤ int64Max then some v else none

theorem signOf_cases (c : UInt8) (cs : List UInt8) :
    (c = 45 ∧ signOf (c :: cs) = (true, 1)) ∨ (c = 43 ∧ signOf (c :: cs) = (false, 1)) ∨
      (c ≠ 45 ∧ c ≠ 43 ∧ signOf (c :: cs) = (false, 0)) := by
  by_cases h45 : c = 45
  · subst h45
    exact Or.inl ⟨rfl, rfl⟩
  · by_cases h43 : c = 43
    · subst h43
      exact Or.inr (Or.inl ⟨rfl, rfl⟩)
    · refine Or.inr (Or.inr ⟨h45, h43, ?_⟩)
      unfold signOf
      split <;> simp_all

theorem checkedStoll_cons {c : UInt8} {cs : List UInt8} (hsp : isSpace c = false) :
    checkedStoll (c :: cs) =
      readDigits (signOf (c :: cs)).1 ((c :: cs).drop (signOf (c :: cs)).2) := by
  have hws : ((c :: cs).takeWhile isSpace).length = 0 := by simp [List.takeWhile, hsp]
  have hsign : (signOf (c :: cs)).2 ≤ 1 := by
    rcases signOf_cases c cs with ⟨-, h⟩ | ⟨-, h⟩ | ⟨-, -, h⟩ <;> simp [h]
  generalize hsg : signOf (c :: cs) = sg at hsign ⊢
  obtain ⟨neg, signLen⟩ := sg
  simp only [checkedStoll, hsp, Bool.false_eq_true, if_false, strtoll, hws, List.drop_zero, hsg]
  unfold readDigits
  dsimp only
  generalize hrest : (c :: cs).drop signLen = rest
  have hlen : signLen + rest.length = cs.length + 1 := by
    rw [← hrest]
    simp
    omega
  by_cases hds : digitPrefix rest = []
  · simp [hds]
  · -- the value is in range exactly when strtoll sets no ERANGE
    generalize hv : (if neg = true then -(digitsValue (digitPrefix rest) : Int)
      else (digitsValue (digitPrefix rest) : Int)) = v
    simp only [hds, if_false, false_or]
    by_cases hlo : v < int64Min
    · simp [hlo, not_le.mpr hlo]
    · by_cases hhi : int64Max < v
      · simp [hlo, hhi, not_le.mpr hhi]
      · simp only [hlo, hhi, if_false, Bool.false_eq_true, ne_eq, List.length_cons]
        simp only [not_lt] at hlo hhi
        by_cases hall : (digitPrefix rest).length = rest.length
        · simp [hall, hlo, hhi]
          omega
        · simp [hall]
          omega

theorem readDigits_eq_some {neg : Bool} {cs : List UInt8} {v : Int} :
    readDigits neg cs = some v ↔
      ∃ ds : List Nat, ds ≠ [] ∧ (∀ d ∈ ds, d < 10) ∧ cs = ds.map digitByte ∧
        v = (if neg then -(digitsValue ds : Int) else digitsValue ds) ∧
        int64Min ≤ v ∧ v ≤ int64Max := by
  unfold readDigits
  constructor
  · intro h
    have hds : ¬(digitPrefix cs = [] ∨ (digitPrefix cs).length ≠ cs.length) := by
      intro hds
      simp [hds] at h
    rw [if_neg hds] at h
    have hrange := (ite_eq_iff.mp h).elim (fun h => h) (fun h => by simp at h)
    simp only [not_or, ne_eq, not_not] at hds
    obtain ⟨hcs, hlt⟩ := eq_map_digitByte_of_digitPrefix hds.2
    refine ⟨digitPrefix cs, hds.1, hlt, hcs, ?_⟩
    obtain ⟨hr, hv⟩ := hrange
    cases hv
    exact ⟨rfl, hr⟩
  · rintro ⟨ds, hne, hlt, rfl, rfl, hrange⟩
    have hpre : digitPrefix (ds.map digitByte) = ds := by
      simpa using digitPrefix_map_digitByte_append hlt []
    simp [hpre, hne, hrange]

theorem signOf_digitByte {d : Nat} (hd : d < 10) (cs : List UInt8) :
    signOf (digitByte d :: cs) = (false, 0) := by
  have h := toNat_digitByte hd
  rcases signOf_cases (digitByte d) cs with ⟨h45, -⟩ | ⟨h43, -⟩ | ⟨-, -, hs⟩
  · have := congrArg UInt8.toNat h45
    simp at this
    omega
  · have := congrArg UInt8.toNat h43
    simp at this
    omega
  · exact hs

/-- `CheckedStoll` accepts a sign or none, then one or more digits of a value in range, and
reads that value; nothing else. -/
theorem checkedStoll_eq_some {s : List UInt8} {v : Int} :
    checkedStoll s = some v ↔
      ∃ (neg : Bool) (ds : List Nat), ds ≠ [] ∧ (∀ d ∈ ds, d < 10) ∧
        (s = (if neg then [45] else []) ++ ds.map digitByte ∨
          (neg = false ∧ s = 43 :: ds.map digitByte)) ∧
        v = (if neg then -(digitsValue ds : Int) else digitsValue ds) ∧
        int64Min ≤ v ∧ v ≤ int64Max := by
  constructor
  · intro h
    match s, h with
    | c :: cs, h =>
      by_cases hsp : isSpace c = true
      · simp [checkedStoll, hsp] at h
      · rw [checkedStoll_cons (by simpa using hsp)] at h
        -- the sign decides where the digits start
        rcases signOf_cases c cs with ⟨rfl, hs⟩ | ⟨rfl, hs⟩ | ⟨-, -, hs⟩
        · rw [hs] at h
          obtain ⟨ds, hne, hlt, hcs, hv, hr⟩ := readDigits_eq_some.mp h
          exact ⟨true, ds, hne, hlt, Or.inl (by simpa using hcs), hv, hr⟩
        · rw [hs] at h
          obtain ⟨ds, hne, hlt, hcs, hv, hr⟩ := readDigits_eq_some.mp h
          exact ⟨false, ds, hne, hlt, Or.inr ⟨rfl, by simpa using hcs⟩, hv, hr⟩
        · rw [hs] at h
          obtain ⟨ds, hne, hlt, hcs, hv, hr⟩ := readDigits_eq_some.mp h
          exact ⟨false, ds, hne, hlt, Or.inl (by simpa using hcs), hv, hr⟩
  · rintro ⟨neg, ds, hne, hlt, hs | ⟨rfl, rfl⟩, hv, hr⟩
    · cases neg with
      | false =>
        obtain ⟨d, ds', rfl⟩ := List.exists_cons_of_ne_nil hne
        have hd := hlt d (List.mem_cons_self ..)
        simp only [Bool.false_eq_true, if_false, List.nil_append, List.map_cons] at hs
        subst hs
        rw [checkedStoll_cons (not_isSpace_digitByte hd), signOf_digitByte hd]
        exact readDigits_eq_some.mpr ⟨d :: ds', hne, hlt, rfl, hv, hr⟩
      | true =>
        simp only [if_true, List.cons_append, List.nil_append] at hs
        subst hs
        rw [checkedStoll_cons (by decide)]
        exact readDigits_eq_some.mpr ⟨ds, hne, hlt, rfl, hv, hr⟩
    · rw [checkedStoll_cons (by decide)]
      exact readDigits_eq_some.mpr ⟨ds, hne, hlt, rfl, hv, hr⟩

example : checkedStoll [43, 48, 48, 55] = some 7 := by decide

theorem checkedStoll_toDecimalString {v : Int} (hmin : int64Min ≤ v) (hmax : v ≤ int64Max) :
    checkedStoll (toDecimalString v) = some v := by
  apply checkedStoll_eq_some.mpr
  refine ⟨decide (v < 0), decimalDigits v.natAbs, decimalDigits_ne_nil _, decimalDigits_lt_ten _,
    Or.inl ?_, ?_, hmin, hmax⟩
  · by_cases hv : v < 0 <;> simp [toDecimalString, hv]
  · rw [digitsValue_decimalDigits]
    by_cases hv : v < 0
    · simp [hv, abs_of_neg hv]
    · simp [hv, abs_of_nonneg (not_lt.mp hv)]

end FrescoDB.Util
