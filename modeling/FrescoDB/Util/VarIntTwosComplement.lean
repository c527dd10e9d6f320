import FrescoDB.Util.VarInt
import FrescoDB.Util.Status
import FrescoDB.Lib.TwosComplement

/-! The two's complement form of `util::VarInt` (`util/varint.cc`): `EncodeToTwosComplement`
writes the magnitude with a zero byte in front when its bit count fills whole bytes, and a
negative number as the complement of that plus one, dropping the front byte again for
`-2 ^ (8k - 1)`; `DecodeFromTwosComplement` undoes it with a borrow and the complement. The
encoding of every number is the shortest two's complement string that writes it, and it decodes
to the number. -/
namespace FrescoDB.Util

open FrescoDB.Lib

namespace VarInt

/-- `kBitsPerWord`. -/
def kBitsPerWord : Nat := 8

/-- `while (--back >= data && *back == 0xff) *back = 0; ++*back;`, over the bytes from the back.
When every byte is `0xff` the loop runs off the front; the encoder never gets there. -/
def carryFromBack : List UInt8 → List UInt8
  | [] => []
  | b :: bs => if b = 0xff then 0 :: carryFromBack bs else (b + 1) :: bs

/-- `while (--back >= data && *back == 0x00) *back = 0xff; --*back;`, over the bytes from the
back. -/
def borrowFromBack : List UInt8 → List UInt8
  | [] => []
  | b :: bs => if b = 0 then 0xff :: borrowFromBack bs else (b - 1) :: bs

/-- `EncodeToTwosComplement`. -/
def encodeToTwosComplement (v : Int) : List UInt8 :=
  if v = 0 then [0]
  else
    let numBits := bnNumBits v.natAbs
    let offset := if numBits % kBitsPerWord = 0 then 1 else 0
    let count := (numBits + kBitsPerWord - 1) / kBitsPerWord + offset
    let result := List.replicate offset 0 ++ bnBn2bin v.natAbs
    if v < 0 then
      let flipped := flipBits result
      -- the `0xff` bytes the carry loop zeroes; `back` stops before them
      let ones := (flipped.reverse.takeWhile (· = 0xff)).length
      let result := (carryFromBack flipped.reverse).reverse
      -- `offset == 1 && back > data && (data[1] & 0x80)`: the number is `-2 ^ (8k - 1)`
      if offset = 1 ∧ ones + 1 < count ∧ result.getD 1 0 &&& 0x80 ≠ 0 then result.drop 1
      else result
    else result

/-- `DecodeFromTwosComplement`. -/
def decodeFromTwosComplement (input : List UInt8) : Except Status Int :=
  match input with
  | [] => .error ⟨.kCorruption, "Cannot decode varint from empty slice"⟩
  | first :: _ =>
    if first &&& 0x80 = 0 then .ok (bnBin2bn input)
    else .ok (-(bnBin2bn (flipBits (borrowFromBack input.reverse).reverse) : Int))

/-! The carry and the borrow. -/

@[simp] theorem length_carryFromBack (bs : List UInt8) :
    (carryFromBack bs).length = bs.length := by
  induction bs with
  | nil => rfl
  | cons b bs ih => by_cases hb : b = 0xff <;> simp [carryFromBack, hb, ih]

@[simp] theorem length_borrowFromBack (bs : List UInt8) :
    (borrowFromBack bs).length = bs.length := by
  induction bs with
  | nil => rfl
  | cons b bs ih => by_cases hb : b = 0 <;> simp [borrowFromBack, hb, ih]

theorem ofBytesBE_carryFromBack (bs : List UInt8)
    (h : ofBytesBE bs.reverse + 1 < 256 ^ bs.length) :
    ofBytesBE (carryFromBack bs).reverse = ofBytesBE bs.reverse + 1 := by
  induction bs with
  | nil => simp [ofBytesBE] at h
  | cons b bs ih =>
    rw [List.reverse_cons, ofBytesBE_append_singleton] at h ⊢
    rw [List.length_cons, pow_succ] at h
    by_cases hb : b = 0xff
    · -- the byte becomes zero and the carry moves on
      subst hb
      have hrest : ofBytesBE bs.reverse + 1 < 256 ^ bs.length := by
        change ofBytesBE bs.reverse * 256 + 255 + 1 < 256 ^ bs.length * 256 at h
        omega
      rw [carryFromBack, if_pos rfl, List.reverse_cons, ofBytesBE_append_singleton, ih hrest]
      change (ofBytesBE bs.reverse + 1) * 256 + 0 = ofBytesBE bs.reverse * 256 + 255 + 1
      ring
    · have hsucc : (b + 1).toNat = b.toNat + 1 := by
        rw [UInt8.toNat_add]
        have : b.toNat ≠ 255 := fun h' => hb (UInt8.toNat_inj.mp h')
        have := b.toNat_lt
        change (b.toNat + 1) % 256 = _
        omega
      rw [carryFromBack, if_neg hb, List.reverse_cons, ofBytesBE_append_singleton, hsucc]
      ring

theorem ofBytesBE_borrowFromBack (bs : List UInt8) (h : 1 ≤ ofBytesBE bs.reverse) :
    ofBytesBE (borrowFromBack bs).reverse + 1 = ofBytesBE bs.reverse := by
  induction bs with
  | nil => simp [ofBytesBE] at h
  | cons b bs ih =>
    rw [List.reverse_cons, ofBytesBE_append_singleton] at h ⊢
    by_cases hb : b = 0
    · -- the byte becomes `0xff` and the borrow moves on
      subst hb
      have hrest : 1 ≤ ofBytesBE bs.reverse := by
        change 1 ≤ ofBytesBE bs.reverse * 256 + 0 at h
        omega
      have := ih hrest
      rw [borrowFromBack, if_pos rfl, List.reverse_cons, ofBytesBE_append_singleton]
      change ofBytesBE (borrowFromBack bs).reverse * 256 + 255 + 1 = ofBytesBE bs.reverse * 256 + 0
      omega
    · have hpred : (b - 1).toNat + 1 = b.toNat := by
        rw [UInt8.toNat_sub_of_le _ _ (UInt8.le_iff_toNat_le.mpr ?_)]
        · change b.toNat - 1 + 1 = b.toNat
          have : b.toNat ≠ 0 := fun h' => hb (UInt8.toNat_inj.mp h')
          omega
        · change 1 ≤ b.toNat
          have : b.toNat ≠ 0 := fun h' => hb (UInt8.toNat_inj.mp h')
          omega
      rw [borrowFromBack, if_neg hb, List.reverse_cons, ofBytesBE_append_singleton]
      omega

/-! Decoding. -/

theorem decodeFromTwosComplement_eq {bs : List UInt8} (h : bs ≠ []) :
    decodeFromTwosComplement bs = .ok (signedBE bs) := by
  obtain ⟨b, rest, rfl⟩ := List.exists_cons_of_ne_nil h
  have hsign := and_0x80_ne_zero_iff b
  by_cases hb : b &&& 0x80 = 0
  · have hlow : ¬ 128 ≤ b.toNat := fun h' => hsign.mpr h' hb
    simp [decodeFromTwosComplement, hb, signedBE, hlow, bnBin2bn]
  · -- a negative number: borrow one, complement, negate
    have hup := (top_bit_iff b rest).mp (hsign.mp hb)
    have hpos : 0 < 256 ^ rest.length := Nat.pow_pos (by decide)
    have hborrow := ofBytesBE_borrowFromBack (b :: rest).reverse
      (by rw [List.reverse_reverse]; nlinarith)
    rw [List.reverse_reverse] at hborrow
    have hflip := ofBytesBE_map_not (borrowFromBack (b :: rest).reverse).reverse
    rw [List.length_reverse, length_borrowFromBack, List.length_reverse] at hflip
    have hlt := ofBytesBE_lt (b :: rest)
    simp only [decodeFromTwosComplement, hb, if_false, bnBin2bn, flipBits, signedBE,
      List.headD_cons, hsign.mp hb, if_true, Except.ok.injEq]
    zify at hborrow hflip hlt ⊢
    omega

/-! Encoding. -/

theorem numBits_bounds {m : Nat} (hm : m ≠ 0) :
    1 ≤ bnNumBits m ∧ 2 ^ (bnNumBits m - 1) ≤ m ∧ m < 2 ^ bnNumBits m := by
  have h1 : 0 < Nat.size m := Nat.size_pos.mpr (Nat.pos_of_ne_zero hm)
  exact ⟨h1, Nat.lt_size.mp (Nat.sub_lt h1 Nat.one_pos), Nat.lt_size_self m⟩

theorem two_pow_eight_mul (k : Nat) : 2 ^ (8 * k) = 256 ^ k := by
  rw [pow_mul]
  rfl

/-- The bytes before the sign is applied: the magnitude in `numBits / 8 + 1` bytes, the first of
them zero when the bits fill whole bytes. -/
theorem magnitude_bytes {m : Nat} (hm : m ≠ 0) :
    List.replicate (if bnNumBits m % kBitsPerWord = 0 then 1 else 0) 0 ++ bnBn2bin m =
      toBytesBE (bnNumBits m / 8 + 1) m := by
  obtain ⟨-, -, hlt⟩ := numBits_bounds hm
  have hfit : m < 256 ^ ((bnNumBits m + 7) / 8) := by
    calc m < 2 ^ bnNumBits m := hlt
      _ ≤ 2 ^ (8 * ((bnNumBits m + 7) / 8)) := Nat.pow_le_pow_right (by decide) (by omega)
      _ = 256 ^ ((bnNumBits m + 7) / 8) := two_pow_eight_mul _
  rw [bnBn2bin, ← toBytesBE_add_of_lt hfit]
  congr 1
  by_cases h : bnNumBits m % 8 = 0 <;> simp [kBitsPerWord, h] <;> omega

theorem count_eq (n : Nat) :
    (n + kBitsPerWord - 1) / kBitsPerWord + (if n % kBitsPerWord = 0 then 1 else 0) = n / 8 + 1 := by
  by_cases h : n % 8 = 0 <;> simp [kBitsPerWord, h] <;> omega

theorem carry_flipBits {w m : Nat} (h1 : 1 ≤ m) (hm : m < 256 ^ w) :
    (carryFromBack (flipBits (toBytesBE w m)).reverse).reverse = toBytesBE w (256 ^ w - m) := by
  have hflip := ofBytesBE_map_not (toBytesBE w m)
  rw [ofBytesBE_toBytesBE, Nat.mod_eq_of_lt hm, length_toBytesBE] at hflip
  have hcarry := ofBytesBE_carryFromBack (flipBits (toBytesBE w m)).reverse (by
    rw [List.reverse_reverse, List.length_reverse, flipBits, List.length_map, length_toBytesBE]
    omega)
  rw [List.reverse_reverse] at hcarry
  rw [← toBytesBE_ofBytesBE (carryFromBack _).reverse, hcarry]
  simp only [List.length_reverse, length_carryFromBack, flipBits, List.length_map,
    length_toBytesBE]
  congr 1
  omega

/-- Behind a leading zero byte, the carry stops before the front: the magnitude has a byte that
is not zero. -/
theorem ones_lt_count {k m : Nat} (h1 : 1 ≤ m) (hm : m < 256 ^ k) :
    ((flipBits (toBytesBE (k + 1) m)).reverse.takeWhile (· = 0xff)).length + 1 < k + 1 := by
  have hcons : toBytesBE (k + 1) m = 0 :: toBytesBE k m := by
    rw [Nat.add_comm]
    simpa using toBytesBE_add_of_lt hm 1
  -- some byte of the complemented magnitude is not `0xff`
  have hsome : ∃ b ∈ (flipBits (toBytesBE k m)).reverse, ¬ decide (b = 0xff) = true := by
    by_contra hall
    push Not at hall
    have hzero : ∀ b ∈ toBytesBE k m, b = 0 := fun b hb =>
      (not_eq_0xff_iff b).mp (of_decide_eq_true (hall (~~~b)
        (List.mem_reverse.mpr (List.mem_map.mpr ⟨b, hb, rfl⟩))))
    have hval := ofBytesBE_eq_zero_of_forall hzero
    rw [ofBytesBE_toBytesBE, Nat.mod_eq_of_lt hm] at hval
    omega
  obtain ⟨b, hb, hnot⟩ := hsome
  have hshort : ((flipBits (toBytesBE k m)).reverse.takeWhile (· = 0xff)).length < k := by
    have hle := (List.takeWhile_prefix (fun x => decide (x = (0xff : UInt8)))
      (l := (flipBits (toBytesBE k m)).reverse)).length_le
    have hne : ((flipBits (toBytesBE k m)).reverse.takeWhile (· = 0xff)).length ≠
        (flipBits (toBytesBE k m)).reverse.length := fun heq => by
      have := (List.takeWhile_prefix _).eq_of_length heq
      rw [List.takeWhile_eq_self_iff] at this
      exact hnot (this b hb)
    simp only [List.length_reverse, flipBits, List.length_map, length_toBytesBE] at hle hne ⊢
    omega
  rw [hcons, flipBits, List.map_cons, List.reverse_cons, List.takeWhile_append, ← flipBits]
  rw [if_neg (by simpa using Nat.ne_of_lt (by simpa [flipBits] using hshort))]
  omega

/-- The test on `data[1]` after the carry: the second byte's top bit is set exactly for the least
number of the width. -/
theorem second_top_bit_iff {j m : Nat} (h1 : 1 ≤ m) (hm : m ≤ 256 ^ (j + 1)) :
    (toBytesBE (j + 2) (256 ^ (j + 2) - m)).getD 1 0 &&& 0x80 ≠ 0 ↔ m ≤ 128 * 256 ^ j := by
  have hsecond : (toBytesBE (j + 2) (256 ^ (j + 2) - m)).getD 1 0 =
      (toBytesBE (j + 1) ((256 ^ (j + 2) - m) % 256 ^ (j + 1))).headD 0 := by
    rw [toBytesBE_mod]
    rfl
  have hmod : (256 ^ (j + 2) - m) % 256 ^ (j + 1) = 256 ^ (j + 1) - m := by
    have hsplit : 256 ^ (j + 2) - m = 256 ^ (j + 1) - m + 255 * 256 ^ (j + 1) := by
      rw [pow_succ 256 (j + 1)]
      omega
    rw [hsplit, Nat.add_mul_mod_self_right, Nat.mod_eq_of_lt (by omega)]
  have hcons : toBytesBE (j + 1) (256 ^ (j + 1) - m) =
      UInt8.ofNat ((256 ^ (j + 1) - m) / 256 ^ j % 256) :: toBytesBE j (256 ^ (j + 1) - m) := rfl
  have hval : ofBytesBE (toBytesBE (j + 1) (256 ^ (j + 1) - m)) = 256 ^ (j + 1) - m := by
    rw [ofBytesBE_toBytesBE]
    exact Nat.mod_eq_of_lt (by omega)
  have htop := top_bit_iff (UInt8.ofNat ((256 ^ (j + 1) - m) / 256 ^ j % 256))
    (toBytesBE j (256 ^ (j + 1) - m))
  rw [← hcons, hval, length_toBytesBE] at htop
  rw [hsecond, hmod, hcons, List.headD_cons, and_0x80_ne_zero_iff, htop, pow_succ]
  omega

theorem encodeToTwosComplement_of_pos {v : Int} (hv : 0 < v) :
    encodeToTwosComplement v = toBytesBE (bnNumBits v.natAbs / 8 + 1) v.natAbs := by
  simp only [encodeToTwosComplement, if_neg hv.ne', if_neg (not_lt.mpr hv.le)]
  exact magnitude_bytes (by omega)

/-- A negative number: `256 ^ w - m` in `numBits / 8 + 1` bytes, one fewer for the least number
of a width. -/
theorem encodeToTwosComplement_of_neg {v : Int} (hv : v < 0) :
    encodeToTwosComplement v =
      if bnNumBits v.natAbs % 8 = 0 ∧ v.natAbs ≤ 128 * 256 ^ (bnNumBits v.natAbs / 8 - 1) then
        toBytesBE (bnNumBits v.natAbs / 8) (256 ^ (bnNumBits v.natAbs / 8 + 1) - v.natAbs)
      else toBytesBE (bnNumBits v.natAbs / 8 + 1) (256 ^ (bnNumBits v.natAbs / 8 + 1) - v.natAbs) := by
  have hm : v.natAbs ≠ 0 := by omega
  obtain ⟨hn, hlow, hhigh⟩ := numBits_bounds hm
  have hfit : v.natAbs < 256 ^ (bnNumBits v.natAbs / 8 + 1) := by
    calc v.natAbs < 2 ^ bnNumBits v.natAbs := hhigh
      _ ≤ 2 ^ (8 * (bnNumBits v.natAbs / 8 + 1)) := Nat.pow_le_pow_right (by decide) (by omega)
      _ = 256 ^ (bnNumBits v.natAbs / 8 + 1) := two_pow_eight_mul _
  simp only [encodeToTwosComplement, if_neg hv.ne, if_pos hv, magnitude_bytes hm, count_eq,
    carry_flipBits (by omega : 1 ≤ v.natAbs) hfit]
  generalize v.natAbs = m at *
  generalize bnNumBits m = n at *
  by_cases hoff : n % 8 = 0
  · -- whole bytes of bits: a zero byte in front of `k` bytes
    obtain ⟨j, hj⟩ : ∃ j, n / 8 = j + 1 := ⟨n / 8 - 1, by omega⟩
    have hk : m < 256 ^ (j + 1) := by
      calc m < 2 ^ n := hhigh
        _ = 2 ^ (8 * (j + 1)) := by congr 1; omega
        _ = 256 ^ (j + 1) := two_pow_eight_mul _
    have hones := ones_lt_count (by omega : 1 ≤ m) hk
    have hbyte := second_top_bit_iff (by omega : 1 ≤ m) hk.le
    rw [hj, Nat.add_sub_cancel] at *
    simp only [kBitsPerWord, hoff, if_true, true_and, hones]
    rw [show j + 1 + 1 = j + 2 by rfl] at *
    by_cases hleast : m ≤ 128 * 256 ^ j
    · rw [if_pos (hbyte.mpr hleast), if_pos hleast]
      rfl
    · rw [if_neg (mt hbyte.mp hleast), if_neg hleast]
  · simp [kBitsPerWord, hoff]

/-- The widths of the encoder, on the magnitude `m` of `n` bits: `n / 8 + 1` bytes, or `n / 8`
for the least negative number of a width. -/
theorem isLeastWidth_of_pos {v : Int} (hv : 0 < v) :
    IsLeastWidth (bnNumBits v.natAbs / 8 + 1) v := by
  obtain ⟨hn, hlow, hhigh⟩ := numBits_bounds (by omega : v.natAbs ≠ 0)
  have hnn : ¬ v < 0 := by omega
  refine ⟨by omega, ?_, ?_⟩
  · rw [inTwosRange_iff_natAbs, if_neg hnn]
    exact lt_of_lt_of_le hhigh (Nat.pow_le_pow_right (by decide) (by omega))
  · rcases Nat.eq_zero_or_pos (bnNumBits v.natAbs / 8) with h0 | hpos
    · exact Or.inl (by omega)
    · right
      rw [inTwosRange_iff_natAbs, if_neg hnn, not_lt, Nat.add_sub_cancel]
      exact le_trans (Nat.pow_le_pow_right (by decide) (by omega)) hlow

theorem isLeastWidth_of_neg {v : Int} (hv : v < 0) :
    if bnNumBits v.natAbs % 8 = 0 ∧ v.natAbs ≤ 128 * 256 ^ (bnNumBits v.natAbs / 8 - 1) then
      IsLeastWidth (bnNumBits v.natAbs / 8) v
    else IsLeastWidth (bnNumBits v.natAbs / 8 + 1) v := by
  obtain ⟨hn, hlow, hhigh⟩ := numBits_bounds (by omega : v.natAbs ≠ 0)
  simp only [IsLeastWidth, inTwosRange_iff_natAbs, if_pos hv]
  generalize v.natAbs = m at *
  generalize bnNumBits m = n at *
  split
  · -- whole bytes of bits and the least magnitude: `2 ^ (n - 1)` itself
    rename_i hleast
    obtain ⟨hoff, hle⟩ := hleast
    obtain ⟨j, hj⟩ : ∃ j, n / 8 = j + 1 := ⟨n / 8 - 1, by omega⟩
    rw [hj, Nat.add_sub_cancel] at hle ⊢
    have hexp : 8 * (j + 1) - 1 = n - 1 := by omega
    refine ⟨by omega, by rw [two_pow_width_nat]; exact hle, ?_⟩
    rcases j with _ | j
    · exact Or.inl rfl
    · right
      rw [not_le, two_pow_width_nat]
      have hm : 128 * 256 ^ (j + 1) ≤ m := by rw [← two_pow_width_nat, hexp]; exact hlow
      have : 0 < 256 ^ j := Nat.pow_pos (by decide)
      rw [pow_succ] at hm
      omega
  · rename_i hother
    refine ⟨by omega, ?_, ?_⟩
    · exact le_of_lt (lt_of_lt_of_le hhigh (Nat.pow_le_pow_right (by decide) (by omega)))
    · rcases Nat.eq_zero_or_pos (n / 8) with h0 | hpos
      · exact Or.inl (by omega)
      · right
        rw [Nat.add_sub_cancel, not_le]
        by_cases hoff : n % 8 = 0
        · -- whole bytes of bits, above the least magnitude
          obtain ⟨j, hj⟩ : ∃ j, n / 8 = j + 1 := ⟨n / 8 - 1, by omega⟩
          rw [hj, two_pow_width_nat]
          rw [hj, Nat.add_sub_cancel] at hother
          omega
        · exact lt_of_lt_of_le (Nat.pow_lt_pow_right (by decide) (by omega)) hlow

theorem pow_succ_sub_mod {k m : Nat} (h1 : 1 ≤ m) (hm : m ≤ 256 ^ k) :
    (256 ^ (k + 1) - m) % 256 ^ k = 256 ^ k - m := by
  have hsplit : 256 ^ (k + 1) - m = 256 ^ k - m + 255 * 256 ^ k := by
    rw [pow_succ]
    omega
  rw [hsplit, Nat.add_mul_mod_self_right, Nat.mod_eq_of_lt (by omega)]

/-- What `EncodeToTwosComplement` writes: the low bytes of the number in the least width whose
range holds it. -/
theorem encodeToTwosComplement_spec (v : Int) :
    ∃ w, IsLeastWidth w v ∧ encodeToTwosComplement v = toBytesBE w (v % 256 ^ w).toNat := by
  rcases lt_trichotomy v 0 with hneg | rfl | hpos
  · have hwidth := isLeastWidth_of_neg hneg
    have hm1 : 1 ≤ v.natAbs := by omega
    rw [encodeToTwosComplement_of_neg hneg]
    split at hwidth
    · rename_i hleast
      rw [if_pos hleast]
      refine ⟨_, hwidth, ?_⟩
      have hbound : v.natAbs ≤ 256 ^ (bnNumBits v.natAbs / 8) := by
        have := hwidth.2.1
        rw [inTwosRange_iff_natAbs, if_pos hneg] at this
        exact le_trans this (Nat.pow_le_pow_right (by decide) (by omega)) |>.trans_eq
          (two_pow_eight_mul _)
      rw [toNat_emod_pow_of_neg hneg hbound, ← toBytesBE_mod, pow_succ_sub_mod hm1 hbound]
    · rename_i hother
      rw [if_neg hother]
      refine ⟨_, hwidth, ?_⟩
      have hbound : v.natAbs ≤ 256 ^ (bnNumBits v.natAbs / 8 + 1) := by
        have := hwidth.2.1
        rw [inTwosRange_iff_natAbs, if_pos hneg] at this
        exact le_trans this (Nat.pow_le_pow_right (by decide) (by omega)) |>.trans_eq
          (two_pow_eight_mul _)
      rw [toNat_emod_pow_of_neg hneg hbound]
  · exact ⟨1, ⟨le_rfl, by norm_num [InTwosRange], Or.inl rfl⟩, rfl⟩
  · refine ⟨_, isLeastWidth_of_pos hpos, ?_⟩
    have hbound : v.natAbs < 256 ^ (bnNumBits v.natAbs / 8 + 1) := by
      have := (isLeastWidth_of_pos hpos).2.1
      rw [inTwosRange_iff_natAbs, if_neg (by omega)] at this
      exact lt_of_lt_of_le this (Nat.pow_le_pow_right (by decide) (by omega)) |>.trans_eq
        (two_pow_eight_mul _)
    rw [encodeToTwosComplement_of_pos hpos, toNat_emod_pow_of_nonneg hpos.le hbound]

/-! The encoding as a field of a wider format. -/

theorem signedBE_encodeToTwosComplement (v : Int) :
    encodeToTwosComplement v ≠ [] ∧ signedBE (encodeToTwosComplement v) = v := by
  obtain ⟨w, ⟨hw, hrange, -⟩, henc⟩ := encodeToTwosComplement_spec v
  rw [henc, ← List.length_pos_iff, length_toBytesBE]
  exact ⟨hw, signedBE_toBytesBE hw hrange⟩

theorem length_encodeToTwosComplement_le_iff {w : Nat} (hw : 1 ≤ w) (v : Int) :
    (encodeToTwosComplement v).length ≤ w ↔ InTwosRange w v := by
  obtain ⟨w₀, ⟨hw₀, hrange, hleast⟩, henc⟩ := encodeToTwosComplement_spec v
  rw [henc, length_toBytesBE]
  refine ⟨hrange.mono, fun hin => ?_⟩
  by_contra hlt
  rcases hleast with h1 | hnot
  · omega
  · exact hnot (hin.mono (by omega))

theorem signByte_encodeToTwosComplement (v : Int) :
    signByte (encodeToTwosComplement v) = if v < 0 then 0xff else 0 := by
  obtain ⟨hne, hsigned⟩ := signedBE_encodeToTwosComplement v
  have hsign := signedBE_neg_iff hne
  rw [hsigned] at hsign
  by_cases hv : v < 0
  · rw [if_pos hv, signByte, if_pos (hsign.mp hv)]
  · rw [if_neg hv, signByte, if_neg (mt hsign.mpr hv)]

/-- `DecodeFromTwosComplement` reads back what `EncodeToTwosComplement` writes, and the encoding
is the shortest two's complement string of the number: its first bit is the sign, and without its
first byte it writes another number. -/
theorem twosComplement_roundTrip_shortest (v : Int) :
    decodeFromTwosComplement (encodeToTwosComplement v) = .ok v ∧
      signedBE (encodeToTwosComplement v) = v ∧
      ((encodeToTwosComplement v).headD 0 &&& 0x80 ≠ 0 ↔ v < 0) ∧
      (∀ bs : List UInt8, bs ≠ [] → signedBE bs = v →
        (encodeToTwosComplement v).length ≤ bs.length) ∧
      (2 ≤ (encodeToTwosComplement v).length → signedBE (encodeToTwosComplement v).tail ≠ v) := by
  obtain ⟨w, ⟨hw, hrange, hleast⟩, henc⟩ := encodeToTwosComplement_spec v
  have hsigned : signedBE (encodeToTwosComplement v) = v := by
    rw [henc]
    exact signedBE_toBytesBE hw hrange
  have hne : encodeToTwosComplement v ≠ [] := by
    rw [henc, ← List.length_pos_iff, length_toBytesBE]
    exact hw
  -- no string shorter than `w` writes `v`
  have hshorter : ∀ bs : List UInt8, bs ≠ [] → signedBE bs = v → w ≤ bs.length := by
    intro bs hbs heq
    by_contra hlt
    have hin := (inTwosRange_signedBE hbs).mono (by omega : bs.length ≤ w - 1)
    rw [heq] at hin
    have hbs1 : 1 ≤ bs.length := List.length_pos_iff.mpr hbs
    exact hleast.elim (fun h1 => by omega) (fun hnot => hnot hin)
  have hlen : (encodeToTwosComplement v).length = w := by rw [henc, length_toBytesBE]
  refine ⟨by rw [decodeFromTwosComplement_eq hne, hsigned], hsigned, ?_, ?_, ?_⟩
  · rw [and_0x80_ne_zero_iff, ← signedBE_neg_iff hne, hsigned]
  · intro bs hbs heq
    rw [hlen]
    exact hshorter bs hbs heq
  · intro h2 heq
    have htail : (encodeToTwosComplement v).tail ≠ [] := by
      rw [← List.length_pos_iff, List.length_tail]
      omega
    have := hshorter _ htail heq
    rw [List.length_tail, hlen] at this
    omega

end VarInt

end FrescoDB.Util
