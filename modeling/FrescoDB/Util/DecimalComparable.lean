import FrescoDB.Util.DecimalValue
import FrescoDB.Util.VarInt
import FrescoDB.Lib.LexOrder

/-! The comparable encoding of `Decimal` (`EncodeToComparable`, `DecodeFromComparable`), which
keys of decimals use. The digit pairs end at the first byte whose low bit is clear and sort as
the fractions they write; the exponent is the comparable `VarInt` with two reserved bits, both set,
so that a positive decimal starts above zero's byte `128`; a negative decimal is the complement.
Every canonical decimal decodes back from its encoding whatever follows it, and the encodings sort
as the numbers. -/
namespace FrescoDB.Util

open FrescoDB.Lib

namespace Decimal

/-! ### Digit pairs -/

theorem pairByte {p c : Nat} (hp : p < 100) (hc : c < 2) :
    (UInt8.ofNat (p * 2 + c) / 2).toNat = p ∧ (UInt8.ofNat (p * 2 + c) &&& 1 = 0 ↔ c = 0) := by
  have hto : (UInt8.ofNat (p * 2 + c)).toNat = p * 2 + c :=
    UInt8.toNat_ofNat_of_lt' (by simp only [UInt8.size]; omega)
  constructor
  · rw [UInt8.toNat_div, hto]
    simp only [UInt8.reduceToNat]
    omega
  · rw [← UInt8.toNat_inj, UInt8.toNat_and, hto]
    change p * 2 + c &&& 1 = 0 ↔ c = 0
    rw [Nat.and_one_is_mod]
    omega

theorem pairByte_last {p : Nat} (hp : p < 100) :
    (UInt8.ofNat (p * 2) / 2).toNat = p ∧ UInt8.ofNat (p * 2) &&& 1 = 0 := by
  obtain ⟨hpair, hlast⟩ := pairByte (c := 0) hp (by decide)
  exact ⟨hpair, hlast.mpr rfl⟩

theorem pairByte_more {p : Nat} (hp : p < 100) :
    (UInt8.ofNat (p * 2 + 1) / 2).toNat = p ∧ ¬(UInt8.ofNat (p * 2 + 1) &&& 1 = 0) := by
  obtain ⟨hpair, hmore⟩ := pairByte (c := 1) hp (by decide)
  exact ⟨hpair, fun h => absurd (hmore.mp h) (by decide)⟩

theorem encodeToDigitPairs_cons (d : Nat) (ds : List Nat) :
    encodeToDigitPairs (d :: ds) =
      UInt8.ofNat ((d * 10 + ds.headD 0) * 2 + if ds.drop 1 = [] then 0 else 1) ::
        encodeToDigitPairs (ds.drop 1) := by
  match ds with
  | [] => simp [encodeToDigitPairs]
  | [e] => simp [encodeToDigitPairs]
  | e :: f :: rest => simp [encodeToDigitPairs]

theorem fractionValue_cons_pair (d : Nat) (ds : List Nat) :
    fractionValue (d :: ds) = ((d * 10 + ds.headD 0 : Nat) + fractionValue (ds.drop 1)) / 100 := by
  cases ds with
  | nil =>
    simp only [fractionValue_cons, fractionValue_nil, List.headD_nil, List.drop_nil]
    push_cast
    ring
  | cons e es =>
    simp only [fractionValue_cons, List.headD_cons, List.drop_succ_cons, List.drop_zero]
    push_cast
    ring

theorem decodeDigitPairsLoop_encodeToDigitPairs : ∀ (d : Nat) (ds : List Nat),
    DigitsLt (d :: ds) → ∀ rest : List UInt8, ∃ k,
      decodeDigitPairsLoop (encodeToDigitPairs (d :: ds) ++ rest) =
        some (d :: ds ++ List.replicate k 0, (encodeToDigitPairs (d :: ds)).length)
  | d, [], h, rest => by
    obtain ⟨hpair, hlast⟩ := pairByte_last (p := d * 10) (by have := h.head; omega)
    refine ⟨1, ?_⟩
    simp only [encodeToDigitPairs, List.singleton_append, decodeDigitPairsLoop, hpair, hlast,
      if_true, List.length_singleton]
    simp
  | d, [e], h, rest => by
    have hd := h.head
    have he := h.tail.head
    obtain ⟨hpair, hlast⟩ := pairByte_last (p := d * 10 + e) (by omega)
    refine ⟨0, ?_⟩
    simp only [encodeToDigitPairs, List.singleton_append, decodeDigitPairsLoop, hpair, hlast,
      if_true, List.length_singleton]
    simp only [List.replicate_zero, List.append_nil, Option.some.injEq, Prod.mk.injEq,
      List.cons.injEq, and_true]
    omega
  | d, e :: f :: more, h, rest => by
    have hd := h.head
    have he := h.tail.head
    obtain ⟨hpair, hmore⟩ := pairByte_more (p := d * 10 + e) (by omega)
    obtain ⟨k, hk⟩ := decodeDigitPairsLoop_encodeToDigitPairs f more h.tail.tail rest
    refine ⟨k, ?_⟩
    simp only [encodeToDigitPairs, List.cons_append, decodeDigitPairsLoop, hpair, hmore, if_false,
      hk, Option.map_some, List.length_cons]
    simp only [Option.some.injEq, Prod.mk.injEq, List.cons.injEq, and_true]
    omega

theorem popTrailingZeros_append_zeros {ds : List Nat} (h : NoTrailingZero ds) (k : Nat) :
    popTrailingZeros (ds ++ List.replicate k 0) = ds :=
  dropTrailingZeros_append_zeros h k

theorem decodeFromDigitPairs_encodeToDigitPairs {ds : List Nat} (hne : ds ≠ []) (h : DigitsLt ds)
    (ht : NoTrailingZero ds) (rest : List UInt8) :
    decodeFromDigitPairs (encodeToDigitPairs ds ++ rest) = .ok (ds, (encodeToDigitPairs ds).length) := by
  obtain ⟨d, ds', rfl⟩ := List.exists_cons_of_ne_nil hne
  obtain ⟨k, hk⟩ := decodeDigitPairsLoop_encodeToDigitPairs d ds' h rest
  rw [decodeFromDigitPairs, hk]
  simp only [popTrailingZeros_append_zeros ht]

theorem pair_lt {d : Nat} {ds : List Nat} (h : DigitsLt (d :: ds)) : d * 10 + ds.headD 0 < 100 := by
  have hd := h.head
  have he : ds.headD 0 < 10 := by
    cases ds with
    | nil => simp
    | cons e es => exact h.tail.head
  omega

theorem diffLt_encodeToDigitPairs {d e : Nat} {ds es : List Nat} (hdl : DigitsLt (d :: ds))
    (hel : DigitsLt (e :: es)) (hdt : NoTrailingZero (d :: ds)) (het : NoTrailingZero (e :: es))
    (hlt : fractionValue (d :: ds) < fractionValue (e :: es)) :
    DiffLt (encodeToDigitPairs (d :: ds)) (encodeToDigitPairs (e :: es)) := by
  have hp1 := pair_lt hdl
  have hp2 := pair_lt hel
  have hr1 := fractionValue_lt_one (hdl.tail.drop 1)
  have hr2 := fractionValue_lt_one (hel.tail.drop 1)
  have hr1' := fractionValue_nonneg (ds.drop 1)
  have hr2' := fractionValue_nonneg (es.drop 1)
  rw [fractionValue_cons_pair, fractionValue_cons_pair] at hlt
  rw [encodeToDigitPairs_cons, encodeToDigitPairs_cons]
  -- the bytes of the first pairs, below 200
  have hbyte : ∀ p c : Nat, p < 100 → c < 2 → (UInt8.ofNat (p * 2 + c)).toNat = p * 2 + c :=
    fun p c hp hc => UInt8.toNat_ofNat_of_lt' (by simp only [UInt8.size]; omega)
  have hc1 : (if ds.drop 1 = [] then 0 else 1) < 2 := by split <;> omega
  have hc2 : (if es.drop 1 = [] then 0 else 1) < 2 := by split <;> omega
  rcases Nat.lt_trichotomy (d * 10 + ds.headD 0) (e * 10 + es.headD 0) with hpair | hpair | hpair
  · -- the first pairs differ
    refine ⟨[], _, _, _, _, rfl, rfl, ?_⟩
    rw [UInt8.lt_iff_toNat_lt, hbyte _ _ hp1 hc1, hbyte _ _ hp2 hc2]
    omega
  · -- equal first pairs: the rests decide
    have hrest : fractionValue (ds.drop 1) < fractionValue (es.drop 1) := by
      rw [hpair] at hlt
      push_cast at hlt
      linarith
    have hne2 : es.drop 1 ≠ [] := by
      intro hnil
      rw [hnil, fractionValue_nil] at hrest
      linarith
    by_cases hnil : ds.drop 1 = []
    · -- the first list ends at this pair, the second goes on
      refine ⟨[], _, _, _, _, rfl, rfl, ?_⟩
      rw [if_pos hnil, if_neg hne2, UInt8.lt_iff_toNat_lt, hbyte _ _ hp1 (by decide),
        hbyte _ _ hp2 (by decide), hpair]
      omega
    · obtain ⟨f, more, hfm⟩ := List.exists_cons_of_ne_nil hnil
      obtain ⟨g, more', hgm⟩ := List.exists_cons_of_ne_nil hne2
      have hfl : DigitsLt (f :: more) := hfm ▸ hdl.tail.drop 1
      have hgl : DigitsLt (g :: more') := hgm ▸ hel.tail.drop 1
      have hft : NoTrailingZero (f :: more) := hfm ▸ hdt.tail.drop 1
      have hgt : NoTrailingZero (g :: more') := hgm ▸ het.tail.drop 1
      rw [hfm, hgm] at hrest
      have htail := diffLt_encodeToDigitPairs hfl hgl hft hgt hrest
      rw [if_neg hnil, if_neg hne2, hpair, hfm, hgm]
      exact htail.append_left [_]
  · -- a larger first pair is a larger fraction
    have : ((e * 10 + es.headD 0 : Nat) : ℚ) + 1 ≤ (d * 10 + ds.headD 0 : Nat) := by
      exact_mod_cast hpair
    linarith
termination_by ds.length
decreasing_by
  have := congrArg List.length hfm
  simp only [List.length_drop, List.length_cons] at this
  omega

/-! ### The exponent under the reserved bits -/

set_option maxRecDepth 100000 in
theorem reserved_set : ∀ c : UInt8,
    ((c ||| (0xc0 : UInt8)) &&& UInt8.ofNat (0x80 >>> 2) = 0 ↔ c &&& UInt8.ofNat (0x80 >>> 2) = 0) ∧
      VarInt.restoreReservedBits 2 [c ||| (0xc0 : UInt8)] = VarInt.restoreReservedBits 2 [c] ∧
      VarInt.restoreReservedBits 2 [~~~(c ||| (0xc0 : UInt8))] = VarInt.restoreReservedBits 2 [~~~c] := by
  decide

theorem decodeFromComparable_orHead {c : UInt8} {tl : List UInt8} {r : Int × Nat}
    (h : VarInt.decodeFromComparable (c :: tl) 2 = .ok r) :
    VarInt.decodeFromComparable ((c ||| (0xc0 : UInt8)) :: tl) 2 = .ok r := by
  obtain ⟨hsign, hrestore, hrestoreFlip⟩ := reserved_set c
  have hflip : VarInt.restoreReservedBits 2 (VarInt.flipBits ((c ||| (0xc0 : UInt8)) :: tl)) =
      VarInt.restoreReservedBits 2 (VarInt.flipBits (c :: tl)) := by
    simp only [VarInt.flipBits, List.map_cons]
    rw [VarInt.restoreReservedBits_cons, VarInt.restoreReservedBits_cons 2 (~~~c)]
    exact congrArg (· ++ _) hrestoreFlip
  have hkeep : VarInt.restoreReservedBits 2 ((c ||| (0xc0 : UInt8)) :: tl) =
      VarInt.restoreReservedBits 2 (c :: tl) := by
    rw [VarInt.restoreReservedBits_cons, VarInt.restoreReservedBits_cons 2 c]
    exact congrArg (· ++ _) hrestore
  unfold VarInt.decodeFromComparable at h ⊢
  dsimp only at h ⊢
  -- after the sign test and the restore both slices are one buffer; only the texts of the errors
  -- name the slice
  by_cases hc : c &&& UInt8.ofNat (0x80 >>> 2) = 0
  · simp only [hc, hsign.mpr hc, if_true, hflip, List.length_cons] at h ⊢
    split at h
    · cases h
    · split at h
      · cases h
      · rename_i hcond
        simpa only [if_neg hcond] using h
  · simp only [hc, mt hsign.mp hc, if_false, hkeep, List.length_cons] at h ⊢
    split at h
    · cases h
    · split at h
      · cases h
      · rename_i hcond
        simpa only [if_neg hcond] using h

/-! ### The round trip -/

set_option maxRecDepth 100000 in
theorem firstByte_set : ∀ c : UInt8, c.toNat < 64 →
    c ||| (0xc0 : UInt8) ≠ 128 ∧ c ||| (0xc0 : UInt8) ≥ 128 ∧
      ~~~(c ||| (0xc0 : UInt8)) ≠ 128 ∧ ¬(~~~(c ||| (0xc0 : UInt8)) ≥ 128) := by
  decide

theorem encodeToComparable_of_ne_nil {d : Decimal} (hne : d.digits ≠ []) :
    ∃ c tl, c.toNat < 64 ∧ VarInt.encodeToComparable d.exponent 2 = c :: tl ∧
      d.encodeToComparable = if d.isPositive then
          (c ||| (0xc0 : UInt8)) :: (tl ++ encodeToDigitPairs d.digits)
        else VarInt.flipBits ((c ||| (0xc0 : UInt8)) :: (tl ++ encodeToDigitPairs d.digits)) := by
  obtain ⟨c, tl, hc, hctop, -⟩ := VarInt.head_encodeToComparable d.exponent (r := 2) (by decide)
  refine ⟨c, tl, by simpa using hctop, hc, ?_⟩
  have hempty : d.digits.isEmpty = false := List.isEmpty_eq_false_iff.mpr hne
  simp only [encodeToComparable, hempty, Bool.false_eq_true, if_false, hc, List.cons_append,
    VarInt.orHead]

theorem decodeFromComparable_encodeToComparable {d : Decimal} (hv : d.Valid)
    (rest : List UInt8) :
    decodeFromComparable (d.encodeToComparable ++ rest) = .ok (d, d.encodeToComparable.length) := by
  by_cases hne : d.digits = []
  · obtain rfl := eq_zero_of_digits_eq_nil hv hne
    rfl
  obtain ⟨c, tl, hc64, hexp, henc⟩ := encodeToComparable_of_ne_nil hne
  obtain ⟨-, -, -, -, ht⟩ := digits_cons hv hne
  obtain ⟨hpos1, hpos2, hneg1, hneg2⟩ := firstByte_set c hc64
  -- both signs read the same buffer: the set exponent, the pairs and what follows
  have hread : ∀ after : List UInt8,
      VarInt.decodeFromComparable ((c ||| (0xc0 : UInt8)) :: (tl ++ encodeToDigitPairs d.digits ++
        after)) 2 = .ok (d.exponent, (c :: tl).length) := by
    intro after
    apply decodeFromComparable_orHead
    have h := VarInt.decodeFromComparable_encodeToComparable d.exponent (r := 2) (by decide)
      (encodeToDigitPairs d.digits ++ after)
    rw [hexp] at h
    simpa only [List.cons_append, List.append_assoc] using h
  have hpairs : ∀ after : List UInt8,
      (((c ||| (0xc0 : UInt8)) :: (tl ++ encodeToDigitPairs d.digits ++ after)).drop
        (c :: tl).length) = encodeToDigitPairs d.digits ++ after := by
    intro after
    simp
  have hdigits := fun after => decodeFromDigitPairs_encodeToDigitPairs hne hv.digitsLt ht after
  have hlength : ((c ||| (0xc0 : UInt8)) :: (tl ++ encodeToDigitPairs d.digits)).length =
      (c :: tl).length + (encodeToDigitPairs d.digits).length := by
    simp only [List.length_cons, List.length_append]
    omega
  obtain ⟨digits, exponent, isPositive⟩ := d
  dsimp only at hread hpairs hdigits hlength henc
  cases isPositive
  · -- a negative decimal is read from the complement of the whole slice
    simp only [Bool.false_eq_true, if_false] at henc
    have hslice : VarInt.flipBits (~~~(c ||| (0xc0 : UInt8)) ::
        (List.map (~~~·) (tl ++ encodeToDigitPairs digits) ++ rest)) =
        (c ||| (0xc0 : UInt8)) :: (tl ++ encodeToDigitPairs digits ++ VarInt.flipBits rest) := by
      simp [VarInt.flipBits, Function.comp_def]
    rw [henc]
    simp only [VarInt.flipBits, List.length_map]
    rw [hlength]
    simp only [List.map_cons, List.cons_append]
    simp only [decodeFromComparable, if_neg hneg1, hneg2, decide_false, Bool.false_eq_true,
      if_false]
    simp only [hslice, hread, hpairs, hdigits]
  · simp only [if_true] at henc
    rw [henc, hlength, List.cons_append]
    simp only [decodeFromComparable, if_neg hpos1, hpos2, decide_true, if_true]
    simp only [hread, hpairs, hdigits]

/-- The decoder reads back every canonical decimal from its encoding, whatever follows it, and
the length of the encoding. -/
theorem decodeFromComparable_of_valid {d : Decimal} (hv : d.Valid)
    (rest : List UInt8) :
    decodeFromComparable (d.encodeToComparable ++ rest) = .ok (d, d.encodeToComparable.length) :=
  decodeFromComparable_encodeToComparable hv rest

theorem decodeFromComparable_of_valid_negative :
    (⟨[1, 2, 5], 2, false⟩ : Decimal).Valid ∧
      decodeFromComparable ((⟨[1, 2, 5], 2, false⟩ : Decimal).encodeToComparable ++ [7]) =
        .ok (⟨[1, 2, 5], 2, false⟩, (⟨[1, 2, 5], 2, false⟩ : Decimal).encodeToComparable.length) :=
  ⟨by decide, decodeFromComparable_of_valid (by decide) [7]⟩

/-! ### The order -/

set_option maxRecDepth 100000 in
theorem toNat_or_reserved : ∀ c : UInt8, c.toNat < 64 →
    (c ||| (0xc0 : UInt8)).toNat = c.toNat + 192 := by
  decide

theorem diffLt_orReserved {c c' : UInt8} {x y : List UInt8} (hc : c.toNat < 64)
    (hc' : c'.toNat < 64) (h : DiffLt (c :: x) (c' :: y)) :
    DiffLt ((c ||| (0xc0 : UInt8)) :: x) ((c' ||| (0xc0 : UInt8)) :: y) := by
  obtain ⟨p, a, b, x', y', hx, hy, hab⟩ := h
  cases p with
  | nil =>
    simp only [List.nil_append, List.cons.injEq] at hx hy
    obtain ⟨rfl, rfl⟩ := hx
    obtain ⟨rfl, rfl⟩ := hy
    refine ⟨[], _, _, _, _, rfl, rfl, ?_⟩
    rw [UInt8.lt_iff_toNat_lt, toNat_or_reserved c hc, toNat_or_reserved c' hc']
    have := UInt8.lt_iff_toNat_lt.mp hab
    omega
  | cons q p =>
    simp only [List.cons_append, List.cons.injEq] at hx hy
    obtain ⟨rfl, rfl⟩ := hx
    obtain ⟨rfl, rfl⟩ := hy
    exact ⟨_ :: p, a, b, x', y', rfl, rfl, hab⟩

theorem diffLt_of_magnitude_lt {a b : Decimal} (ha : a.Valid) (hb : b.Valid)
    (hane : a.digits ≠ []) (hbne : b.digits ≠ []) (hlt : a.magnitude < b.magnitude)
    {ca cb : UInt8} {tla tlb : List UInt8} (hca : ca.toNat < 64) (hcb : cb.toNat < 64)
    (hEa : VarInt.encodeToComparable a.exponent 2 = ca :: tla)
    (hEb : VarInt.encodeToComparable b.exponent 2 = cb :: tlb) :
    DiffLt ((ca ||| (0xc0 : UInt8)) :: (tla ++ encodeToDigitPairs a.digits))
      ((cb ||| (0xc0 : UInt8)) :: (tlb ++ encodeToDigitPairs b.digits)) := by
  rcases lt_trichotomy a.exponent b.exponent with hexp | hexp | hexp
  · -- the exponents decide
    have hE := VarInt.diffLt_encodeToComparable hexp (r := 2) (by decide)
    rw [hEa, hEb] at hE
    have happ := hE.append (encodeToDigitPairs a.digits) (encodeToDigitPairs b.digits)
    simp only [List.cons_append] at happ
    exact diffLt_orReserved hca hcb happ
  · -- one exponent: the digit pairs decide
    rw [hexp, hEb] at hEa
    obtain ⟨rfl, rfl⟩ := List.cons.inj hEa
    have hfrac : fractionValue a.digits < fractionValue b.digits := by
      unfold magnitude at hlt
      rw [hexp] at hlt
      exact lt_of_mul_lt_mul_right hlt (by positivity)
    obtain ⟨d, ds, hd, -, hdt⟩ := digits_cons ha hane
    obtain ⟨e, es, he, -, het⟩ := digits_cons hb hbne
    have hpairs := diffLt_encodeToDigitPairs (hd ▸ ha.digitsLt) (he ▸ hb.digitsLt) (hd ▸ hdt)
      (he ▸ het) (by rwa [hd, he] at hfrac)
    rw [hd, he]
    exact hpairs.append_left (_ :: _)
  · exact absurd hlt (magnitude_lt_of_exponent_lt hb ha hbne hane hexp).asymm

theorem firstByte_order : ∀ c c' : UInt8, c.toNat < 64 → c'.toNat < 64 →
    ~~~(c ||| (0xc0 : UInt8)) < 128 ∧ (128 : UInt8) < c' ||| (0xc0 : UInt8) ∧
      ~~~(c ||| (0xc0 : UInt8)) < c' ||| (0xc0 : UInt8) := by
  intro c c' hc hc'
  have h1 := toNat_or_reserved c hc
  have h2 := toNat_or_reserved c' hc'
  have hsize : UInt8.size = 256 := rfl
  refine ⟨?_, ?_, ?_⟩ <;> simp only [UInt8.lt_iff_toNat_lt, UInt8.toNat_not, UInt8.reduceToNat] <;>
    omega

theorem diffLt_encodeToComparable {a b : Decimal} (ha : a.Valid) (hb : b.Valid)
    (hlt : a.value < b.value) : DiffLt a.encodeToComparable b.encodeToComparable := by
  by_cases hane : a.digits = []
  · -- zero against a positive decimal
    obtain rfl := eq_zero_of_digits_eq_nil ha hane
    have hbne : b.digits ≠ [] := fun h => by
      rw [eq_zero_of_digits_eq_nil hb h] at hlt
      exact lt_irrefl _ hlt
    have hbpos : b.isPositive = true := by
      by_contra hneg
      have := value_neg hb (by simpa using hneg)
      rw [value_zero] at hlt
      linarith
    obtain ⟨cb, tlb, hcb, -, hencb⟩ := encodeToComparable_of_ne_nil hbne
    rw [hencb, if_pos hbpos]
    exact ⟨[], _, _, _, _, rfl, rfl, (firstByte_order cb cb hcb hcb).2.1⟩
  by_cases hbne : b.digits = []
  · -- a negative decimal against zero
    obtain rfl := eq_zero_of_digits_eq_nil hb hbne
    have hapos : a.isPositive = false := by
      by_contra hpos
      have := value_nonneg (d := a) (by simpa using hpos)
      rw [value_zero] at hlt
      linarith
    obtain ⟨ca, tla, hca, -, henca⟩ := encodeToComparable_of_ne_nil hane
    rw [henca, if_neg (by simp [hapos])]
    exact ⟨[], _, _, _, _, rfl, rfl, (firstByte_order ca ca hca hca).1⟩
  obtain ⟨ca, tla, hca, hEa, henca⟩ := encodeToComparable_of_ne_nil hane
  obtain ⟨cb, tlb, hcb, hEb, hencb⟩ := encodeToComparable_of_ne_nil hbne
  rw [henca, hencb]
  have hmag := magnitude_pos ha hane
  have hmagb := magnitude_pos hb hbne
  rw [value_eq_magnitude, value_eq_magnitude] at hlt
  cases hpa : a.isPositive <;> cases hpb : b.isPositive <;>
    simp only [hpa, hpb, Bool.false_eq_true, if_false, if_true] at hlt ⊢
  · -- two negative decimals: the larger magnitude, complemented, is the smaller
    exact (diffLt_of_magnitude_lt hb ha hbne hane (by linarith) hcb hca hEb hEa).complement
  · exact ⟨[], _, _, _, _, rfl, rfl, (firstByte_order ca cb hca hcb).2.2⟩
  · linarith
  · exact diffLt_of_magnitude_lt ha hb hane hbne hlt hca hcb hEa hEb

/-- The comparable encodings of canonical decimals sort, byte by byte, as the numbers. -/
theorem compare_encodeToComparable {a b : Decimal} (ha : a.Valid) (hb : b.Valid) :
    compare a.encodeToComparable b.encodeToComparable = compare a.value b.value := by
  rcases lt_trichotomy a.value b.value with h | h | h
  · rw [(diffLt_encodeToComparable ha hb h).compare_eq_lt, compare_lt_iff_lt.mpr h]
  · obtain rfl := eq_of_value_eq ha hb h
    simp
  · rw [(diffLt_encodeToComparable hb ha h).compare_eq_gt, compare_gt_iff_gt.mpr h]

theorem compare_encodeToComparable_mixed_signs :
    (⟨[1, 2, 5], 2, false⟩ : Decimal).Valid ∧ (⟨[3], -1, true⟩ : Decimal).Valid ∧
      compare (⟨[1, 2, 5], 2, false⟩ : Decimal).encodeToComparable
        (⟨[3], -1, true⟩ : Decimal).encodeToComparable =
        compare (⟨[1, 2, 5], 2, false⟩ : Decimal).value (⟨[3], -1, true⟩ : Decimal).value :=
  ⟨by decide, by decide, compare_encodeToComparable (by decide) (by decide)⟩

theorem encodeToComparable_neg {d : Decimal} (hv : d.Valid) (hne : d.digits ≠ []) :
    VarInt.flipBits d.encodeToComparable = d.neg.encodeToComparable := by
  have hempty : d.digits.isEmpty = false := List.isEmpty_eq_false_iff.mpr hne
  rw [neg_of_ne_nil hv hne]
  cases hpos : d.isPositive <;>
    simp [encodeToComparable, hempty, hpos, VarInt.flipBits_flipBits]

end Decimal

end FrescoDB.Util
