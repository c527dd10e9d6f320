import FrescoDB.Lib.LeadingOnes
import FrescoDB.Lib.MachineInt

/-! The signed comparable varint of `util/fast_varint.cc`.
A sign bit, a unary byte count, and the magnitude; negative numbers are the
one's complement of the encoding of their magnitude, so that the bytes sort
as the numbers do. -/
namespace FrescoDB.Util

open FrescoDB.Lib

/-- The loop of `SignedPositiveVarIntLength` after `v >>= 6`; each round drops seven bits, so ten
rounds empty any 64-bit value. -/
def varIntLengthLoop : Nat → UInt64 → Nat → Nat
  | 0, _, n => n
  | fuel + 1, v, n => if v = 0 then n else varIntLengthLoop fuel (v >>> 7) (n + 1)

/-- `SignedPositiveVarIntLength`: the number of bytes that encode the magnitude `v`. -/
def signedPositiveVarIntLength (v : UInt64) : Nat := varIntLengthLoop 10 (v >>> 6) 1

/-- `FastEncodeSignedVarInt`: the `n` bytes written to `dest`. -/
def fastEncodeSignedVarInt (v : Int64) : List UInt8 :=
  let negative := v < 0
  let uv : UInt64 := if negative then 1 + ~~~v.toUInt64 else v.toUInt64
  let n := signedPositiveVarIntLength uv
  -- The first one or two bytes carry the unary size prefix.
  let head : List UInt8 :=
    if n = 10 then [0xff, 0xc0]
    else if n = 9 then [0xff, (0x80 : UInt8) ||| (uv >>> 56).toUInt8]
    else [~~~(((1 : UInt8) <<< (8 - n).toUInt8) - 1) ||| (uv >>> (8 * (n - 1)).toUInt64).toUInt8]
  let body := (List.range (n - head.length)).map fun k =>
    (uv >>> (8 * (n - 1 - (k + head.length))).toUInt64).toUInt8
  if negative then (head ++ body).map (~~~·) else head ++ body

/-- `FastEncodeDescendingSignedVarInt`: the encoding of `-v`. -/
def fastEncodeDescendingSignedVarInt (v : Int64) : List UInt8 := fastEncodeSignedVarInt (-v)

/-- `kVarIntMasks`. -/
def kVarIntMasks : List UInt64 :=
  [0, 0x3f, 0x1fff, 0xfffff, 0x7ffffff, 0x3ffffffff, 0x1ffffffffff, 0xffffffffffff,
    0x7fffffffffffff, 0x3fffffffffffffff, 0xffffffffffffffff]

/-- `__builtin_clz` on a nonzero 32-bit value. -/
def clz32 (x : Nat) : Nat := 32 - (Nat.log2 x + 1)

/-- `NotEnoughEncodedBytes`. -/
def notEnoughEncodedBytes (decodedVarintSize bytesProvided : Nat) : String :=
  s!"Decoded VarInt size as {decodedVarintSize} but only {bytesProvided} bytes provided"

/-- `FastDecodeSignedVarInt(src, src_size)`: the value and the number of bytes it took. The
source loads the eight bytes that end at `src + n_bytes` and masks them; the mask keeps only bits
of the first `n_bytes` bytes, so this is the big-endian value of those bytes modulo `2^64`. -/
def fastDecodeSignedVarInt (src : List UInt8) : Except String (Int64 × Nat) :=
  match src with
  | [] => .error "Cannot decode a variable-length integer of zero size"
  | b0 :: rest =>
    let header : UInt16 := (b0.toUInt16 <<< 8) ||| (rest.headD 0).toUInt16
    let negative : UInt64 := if header &&& 0x8000 = 0 then ~~~0 else 0
    let header := header ^^^ negative.toUInt16
    let nBytes := clz32 (((~~~header).toNat &&& 0x7fff) ||| 0x20) - 16
    if src.length < nBytes then .error (notEnoughEncodedBytes nBytes src.length)
    else
      let mask := kVarIntMasks.getD nBytes 0
      let raw := UInt64.ofNat (ofBytesBE (src.take nBytes))
      .ok ((((raw &&& mask) ||| (~~~mask &&& negative)) - negative).toInt64, nBytes)

/-- `FastDecodeSignedVarInt(Slice*)`: the value and the rest of the slice. -/
def fastDecodeSignedVarIntSlice (slice : List UInt8) : Except String (Int64 × List UInt8) := do
  let (v, n) ← fastDecodeSignedVarInt slice
  return (v, slice.drop n)

/-- `FastDecodeDescendingSignedVarInt(Slice*)`. -/
def fastDecodeDescendingSignedVarInt (slice : List UInt8) :
    Except String (Int64 × List UInt8) := do
  let (v, n) ← fastDecodeSignedVarInt slice
  return (-v, slice.drop n)

/-! The length of the encoding. -/

theorem varIntLengthLoop_le : ∀ (fuel j : Nat) (v : UInt64) (n : Nat),
    v.toNat < 2 ^ (7 * j) → j ≤ fuel →
      ∃ k ≤ j, varIntLengthLoop fuel v n = n + k ∧ v.toNat < 2 ^ (7 * k)
  | 0, j, v, n, hv, hj => by
    obtain rfl : j = 0 := by omega
    exact ⟨0, le_refl 0, rfl, hv⟩
  | fuel + 1, j, v, n, hv, hj => by
    have hshift : (v >>> 7).toNat = v.toNat / 2 ^ 7 := by
      simp [UInt64.toNat_shiftRight, Nat.shiftRight_eq_div_pow]
    by_cases h0 : v = 0
    · subst h0
      exact ⟨0, Nat.zero_le _, by simp [varIntLengthLoop], by decide⟩
    · have hpos : v.toNat ≠ 0 := fun h => h0 (UInt64.toNat_inj.mp h)
      have hj1 : 1 ≤ j := by
        rcases Nat.eq_zero_or_pos j with rfl | h
        · simp at hv; omega
        · exact h
      have hlt : (v >>> 7).toNat < 2 ^ (7 * (j - 1)) := by
        rw [hshift, Nat.div_lt_iff_lt_mul (by decide), ← Nat.pow_add,
          show 7 * (j - 1) + 7 = 7 * j by omega]
        exact hv
      obtain ⟨k, hk, hloop, hk'⟩ :=
        varIntLengthLoop_le fuel (j - 1) (v >>> 7) (n + 1) hlt (by omega)
      refine ⟨k + 1, by omega, ?_, ?_⟩
      · rw [varIntLengthLoop, if_neg h0, hloop]
        omega
      · rw [hshift, Nat.div_lt_iff_lt_mul (by decide), ← Nat.pow_add] at hk'
        rwa [show 7 * (k + 1) = 7 * k + 7 by omega]

theorem signedPositiveVarIntLength_spec (uv : UInt64) :
    1 ≤ signedPositiveVarIntLength uv ∧ signedPositiveVarIntLength uv ≤ 10 ∧
      uv.toNat < 2 ^ (7 * signedPositiveVarIntLength uv - 1) := by
  have hshift : (uv >>> 6).toNat = uv.toNat / 2 ^ 6 := by
    simp [UInt64.toNat_shiftRight, Nat.shiftRight_eq_div_pow]
  have hlt : (uv >>> 6).toNat < 2 ^ (7 * 9) := by
    have := uv.toNat_lt
    rw [hshift]
    omega
  obtain ⟨k, hk, hloop, hk'⟩ := varIntLengthLoop_le 10 9 (uv >>> 6) 1 hlt (by decide)
  rw [hshift, Nat.div_lt_iff_lt_mul (by decide), ← Nat.pow_add] at hk'
  unfold signedPositiveVarIntLength
  rw [hloop, show 7 * (1 + k) - 1 = 7 * k + 6 by omega]
  exact ⟨by omega, by omega, hk'⟩

theorem shiftRight_toUInt8 (uv : UInt64) {j : Nat} (hj : j < 8) :
    (uv >>> (8 * j).toUInt64).toUInt8 = UInt8.ofNat (uv.toNat / 256 ^ j % 256) := by
  apply UInt8.toNat_inj.mp
  rw [UInt64.toNat_toUInt8, UInt64.toNat_shiftRight, UInt8.toNat_ofNat']
  have h8 : (8 * j).toUInt64.toNat % 64 = 8 * j := by simp; omega
  rw [h8, Nat.shiftRight_eq_div_pow, two_pow_eight_mul]
  omega

theorem body_eq (uv : UInt64) (n h : Nat) (hn : n - h ≤ 8) :
    (List.range (n - h)).map (fun k => (uv >>> (8 * (n - 1 - (k + h))).toUInt64).toUInt8) =
      toBytesBE (n - h) uv.toNat := by
  rw [toBytesBE_eq_map_range]
  apply List.map_congr_left
  intro k hk
  rw [List.mem_range] at hk
  rw [show n - 1 - (k + h) = n - h - 1 - k by omega, shiftRight_toUInt8 uv (by omega)]

set_option maxRecDepth 100000 in
theorem headByte_or : ∀ n : Fin 9, ∀ c : Fin 128, 1 ≤ n.val → c.val < 2 ^ (7 - n.val) →
    ~~~((1 : UInt8) <<< (8 - n.val).toUInt8 - 1) ||| UInt8.ofNat c.val =
      UInt8.ofNat (256 - 2 ^ (8 - n.val) + c.val) := by
  decide

set_option maxRecDepth 100000 in
theorem signByte_or : ∀ c : Fin 64, (0x80 : UInt8) ||| UInt8.ofNat c.val = UInt8.ofNat (128 + c.val) := by
  decide

theorem magnitude_toNat (v : Int64) :
    (if v < 0 then 1 + ~~~v.toUInt64 else v.toUInt64).toNat = v.toInt.natAbs := by
  have hlt := v.toUInt64.toNat_lt
  rw [int64_toInt_eq]
  split
  · rename_i hv
    have h63 := (int64_lt_zero_iff v).mp hv
    rw [if_neg (by omega), UInt64.toNat_add, UInt64.toNat_not]
    simp only [UInt64.toNat_one, UInt64.size]
    omega
  · rename_i hv
    rw [if_pos (Nat.lt_of_not_le (mt (int64_lt_zero_iff v).mpr hv))]
    omega

theorem fastEncodeSignedVarInt_eq (v : Int64) :
    ∃ n, signedPositiveVarIntLength (if v < 0 then 1 + ~~~v.toUInt64 else v.toUInt64) = n ∧
      1 ≤ n ∧ n ≤ 10 ∧ v.toInt.natAbs < 2 ^ (7 * n - 1) ∧
      fastEncodeSignedVarInt v =
        if v < 0 then (toBytesBE n (onesPrefix n n v.toInt.natAbs)).map (~~~·)
        else toBytesBE n (onesPrefix n n v.toInt.natAbs) := by
  obtain ⟨hn1, hn10, hm⟩ :=
    signedPositiveVarIntLength_spec (if v < 0 then 1 + ~~~v.toUInt64 else v.toUInt64)
  have hmag := magnitude_toNat v
  unfold fastEncodeSignedVarInt
  dsimp only
  generalize (if v < 0 then 1 + ~~~v.toUInt64 else v.toUInt64) = uv at hn1 hn10 hm hmag ⊢
  generalize signedPositiveVarIntLength uv = n at hn1 hn10 hm ⊢
  refine ⟨n, rfl, hn1, hn10, hmag ▸ hm, ?_⟩
  rw [← hmag]
  have hsign : ∀ X : List UInt8, X = toBytesBE n (onesPrefix n n uv.toNat) →
      (if v < 0 then X.map (~~~·) else X) =
        if v < 0 then (toBytesBE n (onesPrefix n n uv.toNat)).map (~~~·)
        else toBytesBE n (onesPrefix n n uv.toNat) := by
    rintro X rfl
    rfl
  apply hsign
  have h64 : uv.toNat < 256 ^ 8 := uv.toNat_lt
  split_ifs with h10 h9
  · subst h10
    have hsplit : onesPrefix 10 10 uv.toNat = (256 ^ 2 - 2 ^ 6) * 256 ^ 8 + uv.toNat :=
      onesPrefix_split 1 2 8 uv.toNat (by decide)
    have hword : toBytesBE 10 ((256 ^ 2 - 2 ^ 6) * 256 ^ 8 + uv.toNat) =
        [0xff] ++ UInt8.ofNat (256 - 2 ^ 6 + uv.toNat / 256 ^ 8) :: toBytesBE 8 uv.toNat := by
      have h := @toBytesBE_onesWord 1 8 2 uv.toNat (by decide) (by norm_num; omega)
      simpa using h
    rw [body_eq uv 10 _ (by simp), hsplit, hword, Nat.div_eq_of_lt h64]
    simp
  · subst h9
    have hsplit : onesPrefix 9 9 uv.toNat = (256 ^ 2 - 2 ^ 7) * 256 ^ 7 + uv.toNat :=
      onesPrefix_split 1 1 7 uv.toNat (by decide)
    have hword : toBytesBE 9 ((256 ^ 2 - 2 ^ 7) * 256 ^ 7 + uv.toNat) =
        [0xff] ++ UInt8.ofNat (256 - 2 ^ 7 + uv.toNat / 256 ^ 7) :: toBytesBE 7 uv.toNat := by
      have h := @toBytesBE_onesWord 1 7 1 uv.toNat (by decide) (by norm_num; omega)
      simpa using h
    have hq : uv.toNat / 256 ^ 7 < 64 := by
      rw [Nat.div_lt_iff_lt_mul (by decide)]
      omega
    rw [body_eq uv 9 _ (by simp), hsplit, hword,
      show (56 : UInt64) = (8 * 7 : Nat).toUInt64 from rfl, shiftRight_toUInt8 uv (by decide),
      Nat.mod_eq_of_lt (by omega), signByte_or ⟨_, hq⟩]
    simp
  · obtain ⟨t, rfl⟩ : ∃ t, n = t + 1 := ⟨n - 1, by omega⟩
    have ht : t < 8 := by omega
    have hsplit : onesPrefix (t + 1) (t + 1) uv.toNat = (256 - 2 ^ (8 - (t + 1))) * 256 ^ t + uv.toNat := by
      have h := onesPrefix_split 0 (t + 1) t uv.toNat (by omega)
      rwa [show 0 + 1 + t = t + 1 by omega, show 8 * 0 + (t + 1) = t + 1 by omega, Nat.zero_add, pow_one] at h
    have hbound : uv.toNat < 2 ^ (8 - (t + 1)) * 256 ^ t := by
      rw [← two_pow_eight_mul, ← Nat.pow_add]
      exact lt_of_lt_of_le hm (Nat.pow_le_pow_right (by decide) (by omega))
    have hword : toBytesBE (t + 1) ((256 - 2 ^ (8 - (t + 1))) * 256 ^ t + uv.toNat) =
        UInt8.ofNat (256 - 2 ^ (8 - (t + 1)) + uv.toNat / 256 ^ t) :: toBytesBE t uv.toNat := by
      have h := toBytesBE_onesWord 0 t (show t + 1 ≤ 8 by omega) hbound
      rwa [show 0 + 1 + t = t + 1 by omega, Nat.zero_add, pow_one] at h
    have hq : uv.toNat / 256 ^ t < 2 ^ (7 - (t + 1)) := by
      rw [Nat.div_lt_iff_lt_mul (show 0 < 256 ^ t from Nat.pow_pos (by decide)), ← two_pow_eight_mul,
        ← Nat.pow_add]
      exact lt_of_lt_of_le hm (Nat.pow_le_pow_right (by decide) (by omega))
    have hq128 : uv.toNat / 256 ^ t < 128 := by
      have : 2 ^ (7 - (t + 1)) ≤ 2 ^ 7 := Nat.pow_le_pow_right (by decide) (by omega)
      omega
    rw [body_eq uv (t + 1) _ (by simp; omega), hsplit, hword, Nat.add_sub_cancel,
      shiftRight_toUInt8 uv ht, Nat.mod_eq_of_lt (by omega),
      headByte_or ⟨t + 1, by omega⟩ ⟨_, hq128⟩ (by simp) hq]
    simp

/-! The decoder. -/

theorem header_toNat (b0 b1 : UInt8) :
    ((b0.toUInt16 <<< 8) ||| b1.toUInt16).toNat = b0.toNat * 256 + b1.toNat := by
  have hb0 := b0.toNat_lt
  have hb1 : b1.toNat < 2 ^ 8 := b1.toNat_lt
  rw [UInt16.toNat_or, UInt16.toNat_shiftLeft, UInt8.toNat_toUInt16, UInt8.toNat_toUInt16,
    show (8 : UInt16).toNat % 16 = 8 from rfl, Nat.shiftLeft_eq, Nat.mod_eq_of_lt (by omega),
    Nat.mul_comm b0.toNat, ← Nat.two_pow_add_eq_or_of_lt hb1]

theorem header_and_sign (H : UInt16) : H &&& 0x8000 = 0 ↔ H.toNat < 2 ^ 15 := by
  have hlt := H.toNat_lt
  rw [← UInt16.toNat_inj, UInt16.toNat_and, show (0x8000 : UInt16).toNat = 2 ^ 15 from rfl,
    UInt16.toNat_zero, Nat.and_two_pow, Nat.testBit_eq_decide_div_mod_eq]
  by_cases h : H.toNat / 2 ^ 15 % 2 = 1
  · simp only [h, decide_true, Bool.toNat_true]
    omega
  · simp only [h, decide_false, Bool.toNat_false]
    omega

/-- `__builtin_clz` finds the zero after the unary count: the complemented header has its highest
one at bit `15 - n`. -/
theorem clz32_header {Y n : Nat} (hn1 : 1 ≤ n) (hn : n ≤ 10) (hlo : 2 ^ (15 - n) ≤ Y)
    (hhi : Y < 2 ^ (16 - n)) : clz32 ((Y &&& 0x7fff) ||| 0x20) - 16 = n := by
  have hY15 : Y < 2 ^ 15 := lt_of_lt_of_le hhi (Nat.pow_le_pow_right (by decide) (by omega))
  have hmask : Y &&& 0x7fff = Y := by
    rw [show (0x7fff : Nat) = 2 ^ 15 - 1 from rfl, Nat.and_two_pow_sub_one_eq_mod,
      Nat.mod_eq_of_lt hY15]
  have h32 : (0x20 : Nat) < 2 ^ (16 - n) :=
    lt_of_lt_of_le (by decide : (0x20 : Nat) < 2 ^ 6) (Nat.pow_le_pow_right (by decide) (by omega))
  have hpos : 0 < 2 ^ (15 - n) := Nat.pow_pos (by decide)
  have hlog : Nat.log2 (Y ||| 0x20) = 15 - n := by
    rw [Nat.log2_eq_iff (by have := @Nat.left_le_or Y 0x20; omega),
      show 15 - n + 1 = 16 - n by omega]
    exact ⟨le_trans hlo Nat.left_le_or, Nat.or_lt_two_pow hhi h32⟩
  rw [hmask, clz32, hlog]
  omega

set_option maxRecDepth 10000 in
theorem kVarIntMasks_getD : ∀ n : Fin 11, 1 ≤ n.val →
    (kVarIntMasks.getD n.val 0).toNat = 2 ^ min (7 * n.val - 1) 64 - 1 := by
  decide

theorem decode_value_pos {X K m : Nat} {mask : UInt64} (hK : K ≤ 64)
    (hmask : mask.toNat = 2 ^ K - 1) (hX : X % 2 ^ K = m) :
    ((UInt64.ofNat X &&& mask) ||| (~~~mask &&& 0)) - 0 = UInt64.ofNat m := by
  apply UInt64.toNat_inj.mp
  have hm : m < 2 ^ 64 := hX ▸ lt_of_lt_of_le (Nat.mod_lt _ (Nat.pow_pos (by decide)))
    (Nat.pow_le_pow_right (by decide) hK)
  simp only [UInt64.sub_zero, UInt64.and_zero, UInt64.or_zero, UInt64.toNat_and,
    UInt64.toNat_ofNat', hmask, Nat.and_two_pow_sub_one_eq_mod]
  rw [Nat.mod_mod_of_dvd _ (Nat.pow_dvd_pow 2 hK), hX, Nat.mod_eq_of_lt hm]

theorem decode_value_neg {X K m : Nat} {mask : UInt64} (hK : K ≤ 64)
    (hmask : mask.toNat = 2 ^ K - 1) (hm : m < 2 ^ K) (hX : X % 2 ^ K = 2 ^ K - 1 - m) :
    ((UInt64.ofNat X &&& mask) ||| (~~~mask &&& ~~~0)) - ~~~0 = -UInt64.ofNat m := by
  apply UInt64.toNat_inj.mp
  have hsplit : 2 ^ 64 = 2 ^ K * 2 ^ (64 - K) := by rw [← Nat.pow_add, Nat.add_sub_cancel' hK]
  have hone : 1 ≤ 2 ^ (64 - K) := Nat.one_le_two_pow
  have hmul := Nat.mul_sub (2 ^ K) (2 ^ (64 - K)) 1
  have hlow : (UInt64.ofNat X &&& mask).toNat = 2 ^ K - 1 - m := by
    rw [UInt64.toNat_and, UInt64.toNat_ofNat', hmask, Nat.and_two_pow_sub_one_eq_mod,
      Nat.mod_mod_of_dvd _ (Nat.pow_dvd_pow 2 hK), hX]
  have hhigh : (~~~mask &&& ~~~0).toNat = 2 ^ K * (2 ^ (64 - K) - 1) := by
    rw [UInt64.toNat_and, UInt64.toNat_not, UInt64.toNat_not, hmask, UInt64.toNat_zero,
      show UInt64.size - 1 - 0 = 2 ^ 64 - 1 from rfl, Nat.and_two_pow_sub_one_eq_mod,
      show UInt64.size = 2 ^ 64 from rfl]
    omega
  -- the ones above the mask and the masked bits do not overlap
  have hor : ((UInt64.ofNat X &&& mask) ||| (~~~mask &&& ~~~0)).toNat =
      2 ^ K * (2 ^ (64 - K) - 1) + (2 ^ K - 1 - m) := by
    rw [UInt64.toNat_or, hlow, hhigh, Nat.lor_comm,
      Nat.two_pow_add_eq_or_of_lt (show 2 ^ K - 1 - m < 2 ^ K by omega)]
  rw [UInt64.toNat_sub, hor, UInt64.toNat_not, UInt64.toNat_zero, UInt64.toNat_neg,
    UInt64.toNat_ofNat', show UInt64.size = 2 ^ 64 from rfl]
  have hpos : 0 < 2 ^ K := Nat.pow_pos (by decide)
  have hP : 2 ^ K ≤ 2 ^ 64 := Nat.pow_le_pow_right (by decide) hK
  generalize 2 ^ K = P at *
  generalize 2 ^ (64 - K) = Q at *
  rw [Nat.mul_one] at hmul
  generalize P * (Q - 1) = R at *
  generalize P * Q = S at *
  omega

theorem header_div {n X : Nat} (hn1 : 1 ≤ n) (hn : n ≤ 10) (hX : X < 256 ^ n)
    (rest : List UInt8) :
    ∃ b0 tl, toBytesBE n X ++ rest = b0 :: tl ∧
      (b0.toNat * 256 + (tl.headD 0).toNat) / 2 ^ (15 - n) = X / 2 ^ (7 * n - 1) := by
  obtain ⟨t, rfl⟩ : ∃ t, n = t + 1 := ⟨n - 1, by omega⟩
  have hq : X / 256 ^ t < 256 := by
    rw [Nat.div_lt_iff_lt_mul (Nat.pow_pos (by decide))]
    rw [Nat.pow_succ] at hX
    linarith
  refine ⟨UInt8.ofNat (X / 256 ^ t % 256), toBytesBE t X ++ rest, rfl, ?_⟩
  rw [UInt8.toNat_ofNat', show (2 : Nat) ^ 8 = 256 from rfl, Nat.mod_mod, Nat.mod_eq_of_lt hq]
  cases t with
  | zero =>
    -- one byte: the second byte read is the first one of `rest`
    have hb := (rest.headD 0).toNat_lt
    rw [show 15 - (0 + 1) = 14 by rfl, show 7 * (0 + 1) - 1 = 6 by rfl,
      show (2 : Nat) ^ 14 = 256 * 2 ^ 6 by norm_num, ← Nat.div_div_eq_div_mul]
    simp only [pow_zero, Nat.div_one, List.nil_append, toBytesBE]
    rw [Nat.mul_comm, Nat.mul_add_div (by decide), Nat.div_eq_of_lt hb, Nat.add_zero]
  | succ s =>
    -- the second byte is the next byte of the word
    have hpos : 0 < 256 ^ s := Nat.pow_pos (by decide)
    have hsplit : X / 256 ^ s = X / 256 ^ (s + 1) * 256 + X / 256 ^ s % 256 := by
      rw [Nat.pow_succ, ← Nat.div_div_eq_div_mul]
      exact (Nat.div_add_mod' _ _).symm
    have hexp : 256 ^ s * 2 ^ (15 - (s + 1 + 1)) = 2 ^ (7 * (s + 1 + 1) - 1) := by
      rw [← two_pow_eight_mul, ← Nat.pow_add]
      congr 1
      omega
    simp only [toBytesBE, List.cons_append, List.headD_cons, UInt8.toNat_ofNat']
    rw [show (2 : Nat) ^ 8 = 256 from rfl, Nat.mod_mod, ← hsplit, Nat.div_div_eq_div_mul, hexp]

theorem onesPrefix_self_eq {n m : Nat} (hn1 : 1 ≤ n) :
    onesPrefix n n m = 2 ^ (7 * n - 1) * (2 ^ (n + 1) - 2) + m := by
  have h8 : 2 ^ (8 * n) = 2 ^ (7 * n - 1) * 2 ^ (n + 1) := by
    rw [← Nat.pow_add]
    congr 1
    omega
  have h7 : 2 ^ (8 * n - n) = 2 ^ (7 * n - 1) * 2 := by
    rw [← Nat.pow_succ]
    congr 1
    omega
  have hmul := Nat.mul_sub (2 ^ (7 * n - 1)) (2 ^ (n + 1)) 2
  unfold onesPrefix
  rw [h8, h7, hmul]

theorem complement_onesPrefix_self_eq {n m : Nat} (hn1 : 1 ≤ n) (hm : m < 2 ^ (7 * n - 1)) :
    256 ^ n - 1 - onesPrefix n n m = 2 ^ (7 * n - 1) + (2 ^ (7 * n - 1) - 1 - m) := by
  have h8 : 256 ^ n = 2 ^ (7 * n - 1) * 2 ^ (n + 1) := by
    rw [← two_pow_eight_mul, ← Nat.pow_add]
    congr 1
    omega
  have hQ : 2 ≤ 2 ^ (n + 1) := by
    calc 2 = 2 ^ 1 := rfl
      _ ≤ 2 ^ (n + 1) := Nat.pow_le_pow_right (by decide) (by omega)
  have hmul := Nat.mul_sub (2 ^ (7 * n - 1)) (2 ^ (n + 1)) 2
  rw [onesPrefix_self_eq hn1, h8]
  generalize 2 ^ (7 * n - 1) = P at *
  generalize 2 ^ (n + 1) = Q at *
  have hle : P * 2 ≤ P * Q := Nat.mul_le_mul_left P hQ
  generalize P * Q = S at *
  omega

theorem header_bounds_pos {H n : Nat} (hn1 : 1 ≤ n) (hn : n ≤ 10) (hlt : H < 2 ^ 16)
    (hH : H / 2 ^ (15 - n) = 2 ^ (n + 1) - 2) :
    2 ^ 15 ≤ H ∧ 2 ^ (15 - n) ≤ 2 ^ 16 - 1 - H ∧ 2 ^ 16 - 1 - H < 2 ^ (16 - n) := by
  have hpow : 2 ^ (15 - n) * 2 ^ (n + 1) = 2 ^ 16 := by
    rw [← Nat.pow_add]
    congr 1
    omega
  have hpow2 : 2 ^ (15 - n) * 2 = 2 ^ (16 - n) := by
    rw [← Nat.pow_succ]
    congr 1
    omega
  have hQ : 4 ≤ 2 ^ (n + 1) := by
    calc 4 = 2 ^ 2 := rfl
      _ ≤ 2 ^ (n + 1) := Nat.pow_le_pow_right (by decide) (by omega)
  have hP : 2 ^ (15 - n) ≤ 2 ^ 14 := Nat.pow_le_pow_right (by decide) (by omega)
  have hpos : 0 < 2 ^ (15 - n) := Nat.pow_pos (by decide)
  have hdm := Nat.div_add_mod H (2 ^ (15 - n))
  have hml := Nat.mod_lt H hpos
  have hmul := Nat.mul_sub (2 ^ (15 - n)) (2 ^ (n + 1)) 2
  rw [hH] at hdm
  generalize 2 ^ (15 - n) = P at *
  generalize 2 ^ (n + 1) = Q at *
  have hle : P * 4 ≤ P * Q := Nat.mul_le_mul_left P hQ
  generalize P * (Q - 2) = T at *
  generalize P * Q = S at *
  omega

theorem header_bounds_neg {H n : Nat} (hn1 : 1 ≤ n) (hn : n ≤ 10) (hH : H / 2 ^ (15 - n) = 1) :
    H < 2 ^ 15 ∧ 2 ^ (15 - n) ≤ H ∧ H < 2 ^ (16 - n) := by
  have hpow2 : 2 ^ (15 - n) * 2 = 2 ^ (16 - n) := by
    rw [← Nat.pow_succ]
    congr 1
    omega
  have hP : 2 ^ (16 - n) ≤ 2 ^ 15 := Nat.pow_le_pow_right (by decide) (by omega)
  have hpos : 0 < 2 ^ (15 - n) := Nat.pow_pos (by decide)
  have hdm := Nat.div_add_mod H (2 ^ (15 - n))
  have hml := Nat.mod_lt H hpos
  rw [hH] at hdm
  omega

theorem fastDecodeSignedVarInt_word {n m : Nat} (hn1 : 1 ≤ n) (hn : n ≤ 10)
    (hm : m < 2 ^ (7 * n - 1)) (hm64 : m < 2 ^ 64) (neg : Bool) (rest : List UInt8) :
    fastDecodeSignedVarInt
        ((if neg then (toBytesBE n (onesPrefix n n m)).map (~~~·)
          else toBytesBE n (onesPrefix n n m)) ++ rest) =
      .ok ((if neg then -UInt64.ofNat m else UInt64.ofNat m).toInt64, n) := by
  have hmask := kVarIntMasks_getD ⟨n, by omega⟩ hn1
  dsimp only at hmask
  have hK : min (7 * n - 1) 64 ≤ 64 := Nat.min_le_right _ _
  have hKn : min (7 * n - 1) 64 ≤ 7 * n - 1 := Nat.min_le_left _ _
  have hmK : m < 2 ^ min (7 * n - 1) 64 := by
    rcases Nat.le_total (7 * n - 1) 64 with h | h
    · rwa [Nat.min_eq_left h]
    · rwa [Nat.min_eq_right h]
  -- the mask keeps `K` bits, which divide the word's `7 n - 1` low bits
  obtain ⟨c, hc⟩ : 2 ^ min (7 * n - 1) 64 ∣ 2 ^ (7 * n - 1) := Nat.pow_dvd_pow 2 hKn
  have hc1 : 1 ≤ c := by
    rcases Nat.eq_zero_or_pos c with h | h
    · rw [h, Nat.mul_zero] at hc
      exact absurd hc (Nat.pos_iff_ne_zero.mp (Nat.pow_pos (by decide)))
    · exact h
  have hW : onesPrefix n n m < 256 ^ n :=
    onesPrefix_lt (by omega) (lt_of_lt_of_le hm (Nat.pow_le_pow_right (by decide) (by omega)))
  obtain ⟨X, hX, hbytes, htop, hlow⟩ : ∃ X, X < 256 ^ n ∧
      (if neg then (toBytesBE n (onesPrefix n n m)).map (~~~·)
        else toBytesBE n (onesPrefix n n m)) = toBytesBE n X ∧
      X / 2 ^ (7 * n - 1) = (if neg then 1 else 2 ^ (n + 1) - 2) ∧
      X % 2 ^ min (7 * n - 1) 64 = (if neg then 2 ^ min (7 * n - 1) 64 - 1 - m else m) := by
    have hP : 0 < 2 ^ (7 * n - 1) := Nat.pow_pos (by decide)
    cases neg
    · refine ⟨_, hW, rfl, ?_, ?_⟩
      · rw [onesPrefix_self_eq hn1, Nat.mul_add_div hP, Nat.div_eq_of_lt hm, Nat.add_zero]
        rfl
      · rw [onesPrefix_self_eq hn1, hc, Nat.mul_assoc, Nat.mul_add_mod, Nat.mod_eq_of_lt hmK]
        rfl
    · refine ⟨_, by omega, toBytesBE_complement n hW, ?_, ?_⟩
      · rw [complement_onesPrefix_self_eq hn1 hm, Nat.add_comm, Nat.add_div_right _ hP,
          Nat.div_eq_of_lt (by omega)]
        rfl
      · rw [complement_onesPrefix_self_eq hn1 hm]
        have hsub := Nat.mul_sub (2 ^ min (7 * n - 1) 64) c 1
        generalize 2 ^ min (7 * n - 1) 64 = R at *
        have hle : R ≤ R * c := Nat.le_mul_of_pos_right R hc1
        have hsplit : R * c + (R * c - 1 - m) = R * (c + (c - 1)) + (R - 1 - m) := by
          rw [Nat.mul_add, hsub, Nat.mul_one]
          omega
        rw [hc, hsplit, Nat.mul_add_mod, Nat.mod_eq_of_lt (by omega)]
        rfl
  obtain ⟨b0, tl, hsrc, hH⟩ := header_div hn1 hn hX rest
  have hlen : n ≤ (b0 :: tl).length := by
    rw [← hsrc, List.length_append, length_toBytesBE]
    omega
  have htake : (b0 :: tl).take n = toBytesBE n X := by
    rw [← hsrc]
    exact List.take_left' (length_toBytesBE _ _)
  rw [hbytes, hsrc]
  unfold fastDecodeSignedVarInt
  dsimp only
  have hHdr := header_toNat b0 (tl.headD 0)
  generalize (b0.toUInt16 <<< 8 ||| (tl.headD 0).toUInt16) = hdr at hHdr ⊢
  rw [← hHdr, htop] at hH
  have hhdr := hdr.toNat_lt
  cases neg
  · -- a positive number: the sign bit is set
    simp only [Bool.false_eq_true, if_false] at hH hlow ⊢
    obtain ⟨hsign, hlo, hhi⟩ := header_bounds_pos hn1 hn hhdr hH
    have hflag : ¬ (hdr &&& 32768 = 0) := by
      rw [header_and_sign]
      omega
    have hnb : clz32 ((~~~(hdr ^^^ (0 : UInt64).toUInt16)).toNat &&& 32767 ||| 32) - 16 = n := by
      have hz : hdr ^^^ (0 : UInt64).toUInt16 = hdr := by simp
      rw [hz, UInt16.toNat_not]
      exact clz32_header hn1 hn hlo hhi
    rw [if_neg hflag, hnb, if_neg (by omega), htake, ofBytesBE_toBytesBE, Nat.mod_eq_of_lt hX,
      decode_value_pos hK hmask hlow]
  · -- a negative number: the decoder complements the header back
    simp only [if_true] at hH hlow ⊢
    obtain ⟨hsign, hlo, hhi⟩ := header_bounds_neg hn1 hn hH
    have hflag : hdr &&& 32768 = 0 := (header_and_sign hdr).mpr hsign
    have hnb : clz32 ((~~~(hdr ^^^ (~~~0 : UInt64).toUInt16)).toNat &&& 32767 ||| 32) - 16 = n := by
      have hz : ~~~(hdr ^^^ (~~~0 : UInt64).toUInt16) = hdr := by simp
      rw [hz]
      exact clz32_header hn1 hn hlo hhi
    rw [if_pos hflag, hnb, if_neg (by omega), htake, ofBytesBE_toBytesBE, Nat.mod_eq_of_lt hX,
      decode_value_neg hK hmask hmK hlow]

theorem ofNat_magnitude (v : Int64) :
    (if v < 0 then -UInt64.ofNat v.toInt.natAbs else UInt64.ofNat v.toInt.natAbs) = v.toUInt64 := by
  have hmag := magnitude_toNat v
  have hu : ∀ u : UInt64, UInt64.ofNat u.toNat = u := fun u => UInt64.ofNat_toNat
  split
  · rename_i hv
    rw [if_pos hv] at hmag
    rw [← hmag, hu]
    apply UInt64.toNat_inj.mp
    have hx := v.toUInt64.toNat_lt
    rw [UInt64.toNat_neg, UInt64.toNat_add, UInt64.toNat_not, UInt64.toNat_one]
    simp only [UInt64.size]
    omega
  · rename_i hv
    rw [if_neg hv] at hmag
    rw [← hmag, hu]

/-- `FastDecodeSignedVarInt` reads back every 64-bit integer from its encoding, whatever follows
it, and reports the encoding's length. -/
theorem fastDecodeSignedVarInt_fastEncodeSignedVarInt (v : Int64) (rest : List UInt8) :
    fastDecodeSignedVarInt (fastEncodeSignedVarInt v ++ rest) =
      .ok (v, (fastEncodeSignedVarInt v).length) := by
  obtain ⟨n, -, hn1, hn, hm, henc⟩ := fastEncodeSignedVarInt_eq v
  have hm64 : v.toInt.natAbs < 2 ^ 64 := magnitude_toNat v ▸ UInt64.toNat_lt _
  have hdec := fastDecodeSignedVarInt_word hn1 hn hm hm64 (decide (v < 0)) rest
  simp only [decide_eq_true_eq, ofNat_magnitude, Int64.toInt64_toUInt64] at hdec
  have hlen : (fastEncodeSignedVarInt v).length = n := by
    rw [henc]
    split <;> simp
  rw [hlen, henc, hdec]

theorem fastDecodeSignedVarIntSlice_encode (v : Int64) (rest : List UInt8) :
    fastDecodeSignedVarIntSlice (fastEncodeSignedVarInt v ++ rest) = .ok (v, rest) := by
  simp [fastDecodeSignedVarIntSlice, fastDecodeSignedVarInt_fastEncodeSignedVarInt]

theorem signedPositiveVarIntLength_le (uv : UInt64) {k : Nat} (hk1 : 1 ≤ k) (hk : k ≤ 10)
    (hv : uv.toNat < 2 ^ (7 * k - 1)) : signedPositiveVarIntLength uv ≤ k := by
  have hshift : (uv >>> 6).toNat = uv.toNat / 2 ^ 6 := by
    simp [UInt64.toNat_shiftRight, Nat.shiftRight_eq_div_pow]
  have hlt : (uv >>> 6).toNat < 2 ^ (7 * (k - 1)) := by
    rw [hshift, Nat.div_lt_iff_lt_mul (by decide), ← Nat.pow_add,
      show 7 * (k - 1) + 6 = 7 * k - 1 by omega]
    exact hv
  obtain ⟨j, hj, hloop, -⟩ := varIntLengthLoop_le 10 (k - 1) (uv >>> 6) 1 hlt (by omega)
  unfold signedPositiveVarIntLength
  omega

theorem length_fastEncodeSignedVarInt (v : Int64) :
    (fastEncodeSignedVarInt v).length =
      signedPositiveVarIntLength (if v < 0 then 1 + ~~~v.toUInt64 else v.toUInt64) := by
  obtain ⟨n, hn, -, -, -, henc⟩ := fastEncodeSignedVarInt_eq v
  rw [henc, hn]
  split <;> simp

theorem length_fastEncodeSignedVarInt_le (v : Int64) {k : Nat} (hk1 : 1 ≤ k) (hk : k ≤ 10)
    (hv : v.toInt.natAbs < 2 ^ (7 * k - 1)) : (fastEncodeSignedVarInt v).length ≤ k := by
  rw [length_fastEncodeSignedVarInt]
  exact signedPositiveVarIntLength_le _ hk1 hk (by rw [magnitude_toNat]; exact hv)

theorem fastDecodeDescendingSignedVarInt_encode (v : Int64) (rest : List UInt8) :
    fastDecodeDescendingSignedVarInt (fastEncodeDescendingSignedVarInt v ++ rest) =
      .ok (v, rest) := by
  rw [fastDecodeDescendingSignedVarInt, fastEncodeDescendingSignedVarInt,
    fastDecodeSignedVarInt_fastEncodeSignedVarInt]
  simp

/-! A proper prefix of an encoding: its header asks for more bytes than it has. -/

theorem two_le_clz32 {Y : Nat} (hY : Y < 2 ^ 14) : 2 ≤ clz32 (Y ||| 0x20) - 16 := by
  have hlt : Y ||| 0x20 < 2 ^ 14 := Nat.or_lt_two_pow hY (by decide)
  have hpos : Y ||| 0x20 ≠ 0 := by
    have := @Nat.right_le_or Y 0x20
    omega
  have hlog : Nat.log2 (Y ||| 0x20) < 14 := (Nat.log2_lt hpos).mpr hlt
  unfold clz32
  omega

theorem fastDecodeSignedVarInt_single {b0 : UInt8} (hb : 192 ≤ b0.toNat ∨ b0.toNat < 64) :
    ∃ e, fastDecodeSignedVarInt [b0] = .error e := by
  unfold fastDecodeSignedVarInt
  dsimp only
  have hHdr := header_toNat b0 (([] : List UInt8).headD 0)
  generalize (b0.toUInt16 <<< 8 ||| (([] : List UInt8).headD 0).toUInt16) = hdr at hHdr ⊢
  simp only [List.headD_nil, UInt8.toNat_zero, Nat.add_zero] at hHdr
  have hlt := hdr.toNat_lt
  have hnb : 2 ≤ clz32 ((~~~(hdr ^^^ (if hdr &&& 32768 = 0 then ~~~0 else 0 : UInt64).toUInt16)).toNat &&& 32767 ||| 32) - 16 := by
    apply two_le_clz32
    refine lt_of_le_of_lt Nat.and_le_left ?_
    rcases hb with hb | hb
    · -- a positive number: the sign bit and the first bit of the count are set
      have hflag : ¬ (hdr &&& 32768 = 0) := by
        rw [header_and_sign]
        omega
      rw [if_neg hflag, UInt16.toNat_not]
      have hz : hdr ^^^ (0 : UInt64).toUInt16 = hdr := by simp
      rw [hz, show UInt16.size = 2 ^ 16 from rfl]
      omega
    · -- a negative number: both bits are clear, and the decoder complements them
      have hflag : hdr &&& 32768 = 0 := by
        rw [header_and_sign]
        omega
      rw [if_pos hflag]
      have hz : ~~~(hdr ^^^ (~~~0 : UInt64).toUInt16) = hdr := by simp
      rw [hz]
      omega
  rw [if_pos (by simp only [List.length_singleton]; omega)]
  exact ⟨_, rfl⟩

theorem fastDecodeSignedVarInt_error_of_ok {b0 : UInt8} {tl tl' : List UInt8} {x : Int64} {n : Nat}
    (h : fastDecodeSignedVarInt (b0 :: tl) = .ok (x, n)) (hhead : tl'.headD 0 = tl.headD 0)
    (hlen : tl'.length + 1 < n) : ∃ e, fastDecodeSignedVarInt (b0 :: tl') = .error e := by
  unfold fastDecodeSignedVarInt at h ⊢
  dsimp only at h ⊢
  rw [hhead]
  -- the sign of the header, then the length check; only the accepted branch gives `n`
  split at h <;> rename_i hsign <;> split at h <;> try (simp at h; done)
  all_goals
    have hn := congrArg Prod.snd (Except.ok.inj h)
    dsimp only at hn
    simp only [hsign, if_true, if_false]
    rw [if_pos (by rw [hn, List.length_cons]; exact hlen)]
    exact ⟨_, rfl⟩

/-- The first byte of an encoding of two bytes or more has its top two bits equal: both set for a
positive number, both clear for a negative one. -/
theorem head_fastEncodeSignedVarInt (v : Int64) (h2 : 2 ≤ (fastEncodeSignedVarInt v).length) :
    ∃ b0 tl, fastEncodeSignedVarInt v = b0 :: tl ∧ (192 ≤ b0.toNat ∨ b0.toNat < 64) := by
  obtain ⟨n, hn, hn1, hn10, hm, henc⟩ := fastEncodeSignedVarInt_eq v
  have hlen : (fastEncodeSignedVarInt v).length = n := by
    rw [henc]
    split <;> simp
  obtain ⟨c, rest, hc, hc192⟩ := @le_head_toBytesBE_onesPrefix n 2 _ hn1 (by omega) (by decide) hm
  rw [henc, hc]
  split
  · -- complemented: the two top bits are clear
    refine ⟨~~~c, rest.map (~~~·), rfl, .inr ?_⟩
    rw [UInt8.toNat_not]
    have : UInt8.size = 256 := rfl
    omega
  · exact ⟨c, rest, rfl, .inl (by simpa using hc192)⟩

theorem fastDecodeSignedVarInt_take (v : Int64) {k : Nat} (hk : k < (fastEncodeSignedVarInt v).length) :
    ∃ e, fastDecodeSignedVarInt ((fastEncodeSignedVarInt v).take k) = .error e := by
  have hdec := fastDecodeSignedVarInt_fastEncodeSignedVarInt v []
  rw [List.append_nil] at hdec
  match k, hk with
  | 0, _ => exact ⟨_, rfl⟩
  | 1, hk =>
    -- one byte: the header reads a zero second byte, and still counts two bytes or more
    obtain ⟨b0, tl, henc, hb⟩ := head_fastEncodeSignedVarInt v (by omega)
    rw [henc, List.take_succ_cons, List.take_zero]
    exact fastDecodeSignedVarInt_single hb
  | k + 2, hk =>
    -- two bytes or more: the header is the encoding's own
    obtain ⟨b0, tl, henc, -⟩ := head_fastEncodeSignedVarInt v (by omega)
    rw [henc] at hdec hk ⊢
    rw [List.take_succ_cons]
    refine fastDecodeSignedVarInt_error_of_ok hdec ?_ ?_
    · cases tl with
      | nil => rfl
      | cons b1 tl => rfl
    · simp only [List.length_take, List.length_cons] at hk ⊢
      omega

/-! The low bits of the last byte. `DocHybridTime` stores its size in the five low bits of the
last byte of its last varint, a negative number whose magnitude has these bits zero. -/

set_option maxRecDepth 10000 in
theorem setLowBits_complement : ∀ a : Fin 8, ∀ s : Fin 32,
    (~~~UInt8.ofNat (32 * a.val) &&& ~~~31) ||| UInt8.ofNat s.val =
      ~~~UInt8.ofNat (32 * a.val + 31 - s.val) := by
  decide

theorem setLowBits_onesPrefix {n M s : Nat} (hn1 : 1 ≤ n) (hM : M % 32 = 0) (hs : s < 32) :
    ((toBytesBE n (onesPrefix n n M)).map (~~~·)).dropLast ++
        [(((toBytesBE n (onesPrefix n n M)).map (~~~·)).getLastD 0 &&& ~~~31) ||| UInt8.ofNat s] =
      (toBytesBE n (onesPrefix n n (M + 31 - s))).map (~~~·) := by
  obtain ⟨t, rfl⟩ : ∃ t, n = t + 1 := ⟨n - 1, by omega⟩
  have h32 : 2 ^ (7 * (t + 1) - 1) % 32 = 0 := by
    rw [show 7 * (t + 1) - 1 = 5 + (7 * t + 1) by omega, Nat.pow_add]
    exact Nat.mul_mod_right _ _
  have hW := @onesPrefix_self_eq (t + 1) M hn1
  have hW' := @onesPrefix_self_eq (t + 1) (M + 31 - s) hn1
  generalize onesPrefix (t + 1) (t + 1) M = W at hW ⊢
  generalize onesPrefix (t + 1) (t + 1) (M + 31 - s) = W' at hW' ⊢
  have hmul32 : 2 ^ (7 * (t + 1) - 1) * (2 ^ (t + 1 + 1) - 2) % 32 = 0 := by
    rw [Nat.mul_mod, h32, Nat.zero_mul, Nat.zero_mod]
  generalize 2 ^ (7 * (t + 1) - 1) * (2 ^ (t + 1 + 1) - 2) = A at hW hW' hmul32
  -- the low byte of the word has its five low bits zero, and the others carry over
  have hlow : W % 256 = 32 * (W % 256 / 32) := by omega
  have hdiv : W' / 256 = W / 256 := by omega
  have hmod : W' % 256 = 32 * (W % 256 / 32) + 31 - s := by omega
  rw [toBytesBE_succ_eq_concat, toBytesBE_succ_eq_concat, hdiv, hmod, List.map_append,
    List.map_append, List.map_singleton, List.map_singleton, List.dropLast_concat,
    List.getLastD_concat, hlow, setLowBits_complement ⟨W % 256 / 32, by omega⟩ ⟨s, hs⟩]
  simp

theorem int64_neg_toInt {x : Int64} (hpos : 0 < x.toInt) :
    -x < 0 ∧ (-x).toInt.natAbs = x.toInt.toNat := by
  have hx := int64_toInt_eq x
  have hnx := int64_toInt_eq (-x)
  have hlt := x.toUInt64.toNat_lt
  rw [Int64.toUInt64_neg, UInt64.toNat_neg] at hnx
  simp only [UInt64.size] at hnx
  have h63 : x.toUInt64.toNat < 2 ^ 63 := by
    by_contra h
    rw [if_neg h] at hx
    omega
  rw [if_pos h63] at hx
  refine ⟨?_, ?_⟩
  · rw [int64_lt_zero_iff, Int64.toUInt64_neg, UInt64.toNat_neg]
    simp only [UInt64.size]
    omega
  · rw [hnx, if_neg (by omega), hx]
    omega

/-- A negative number whose magnitude has its five low bits zero, with the low bits of its last
byte replaced by `s`, decodes as the magnitude plus `31 - s`. -/
theorem fastDecodeDescendingSignedVarInt_setLowBits {x : Int64} (hpos : 0 < x.toInt)
    (hx : x.toInt % 32 = 0) {s : Nat} (hs : s < 32) (rest : List UInt8) :
    fastDecodeDescendingSignedVarInt
        ((fastEncodeDescendingSignedVarInt x).dropLast ++
          [((fastEncodeDescendingSignedVarInt x).getLastD 0 &&& ~~~31) ||| UInt8.ofNat s] ++ rest) =
      .ok ((UInt64.ofNat (x.toInt.toNat + 31 - s)).toInt64, rest) := by
  obtain ⟨hneg, habs⟩ := int64_neg_toInt hpos
  obtain ⟨n, -, hn1, hn, hm, henc⟩ := fastEncodeSignedVarInt_eq (-x)
  rw [if_pos hneg, habs] at henc
  rw [habs] at hm
  have h32 : 2 ^ (7 * n - 1) % 32 = 0 := by
    rw [show 7 * n - 1 = 5 + (7 * n - 6) by omega, Nat.pow_add]
    exact Nat.mul_mod_right _ _
  have hM : x.toInt.toNat % 32 = 0 := by omega
  have hm' : x.toInt.toNat + 31 - s < 2 ^ (7 * n - 1) := by omega
  have hx63 : x.toInt < 2 ^ 63 := Int64.toInt_lt x
  have hdec := fastDecodeSignedVarInt_word hn1 hn hm' (by omega) true rest
  simp only [if_true] at hdec
  rw [fastEncodeDescendingSignedVarInt, henc, setLowBits_onesPrefix hn1 hM hs,
    fastDecodeDescendingSignedVarInt, hdec]
  simp

/-! The order of the encoding: a smaller number first differs from a larger one by a smaller
byte, so encodings sort as the numbers do whatever follows them. -/

theorem le_varIntLengthLoop : ∀ (fuel : Nat) (v : UInt64) (n : Nat), n ≤ varIntLengthLoop fuel v n
  | 0, _, _ => le_rfl
  | fuel + 1, v, n => by
    unfold varIntLengthLoop
    split
    · exact le_rfl
    · exact le_trans (Nat.le_succ n) (le_varIntLengthLoop fuel _ _)

theorem varIntLengthLoop_mono : ∀ (fuel : Nat) {v w : UInt64} (n : Nat), v.toNat ≤ w.toNat →
    varIntLengthLoop fuel v n ≤ varIntLengthLoop fuel w n
  | 0, _, _, _, _ => le_rfl
  | fuel + 1, v, w, n, h => by
    by_cases hv : v = 0
    · rw [varIntLengthLoop, if_pos hv]
      exact le_varIntLengthLoop _ _ _
    · have hw : w ≠ 0 := by
        rintro rfl
        exact hv (UInt64.toNat_inj.mp (by simp at h ⊢; omega))
      rw [varIntLengthLoop, varIntLengthLoop, if_neg hv, if_neg hw]
      apply varIntLengthLoop_mono fuel
      simp only [UInt64.toNat_shiftRight, Nat.shiftRight_eq_div_pow]
      exact Nat.div_le_div_right h

theorem signedPositiveVarIntLength_mono {v w : UInt64} (h : v.toNat ≤ w.toNat) :
    signedPositiveVarIntLength v ≤ signedPositiveVarIntLength w := by
  apply varIntLengthLoop_mono
  simp only [UInt64.toNat_shiftRight, Nat.shiftRight_eq_div_pow]
  exact Nat.div_le_div_right h

theorem diffLt_fastEncodeSignedVarInt {a b : Int64} (h : a < b) :
    DiffLt (fastEncodeSignedVarInt a) (fastEncodeSignedVarInt b) := by
  have hab : a.toInt < b.toInt := Int64.lt_iff_toInt_lt.mp h
  obtain ⟨na, hna, hna1, -, hma, hea⟩ := fastEncodeSignedVarInt_eq a
  obtain ⟨nb, hnb, hnb1, -, hmb, heb⟩ := fastEncodeSignedVarInt_eq b
  -- the lengths follow the magnitudes
  have hmono : a.toInt.natAbs ≤ b.toInt.natAbs → na ≤ nb := fun hle =>
    hna ▸ hnb ▸ signedPositiveVarIntLength_mono (by rw [magnitude_toNat, magnitude_toNat]; exact hle)
  have hmono' : b.toInt.natAbs ≤ a.toInt.natAbs → nb ≤ na := fun hle =>
    hna ▸ hnb ▸ signedPositiveVarIntLength_mono (by rw [magnitude_toNat, magnitude_toNat]; exact hle)
  have hsign : ∀ x : Int64, x < 0 ↔ x.toInt < 0 := fun x => by
    rw [Int64.lt_iff_toInt_lt]
    simp
  rw [hea, heb]
  by_cases ha : a < 0
  · rw [if_pos ha]
    by_cases hb : b < 0
    · -- both negative: the larger magnitude is the smaller number, and the bytes are complemented
      rw [if_pos hb]
      have hmag : b.toInt.natAbs < a.toInt.natAbs := by
        have := (hsign b).mp hb
        omega
      have hn : nb ≤ na := hmono' hmag.le
      exact (diffLt_onesPrefix hnb1 hmb hma (by omega)).complement
    · -- a negative number starts with a byte below `0x80`, a positive one with a byte above
      rw [if_neg hb]
      obtain ⟨c, rest, hc, hc128⟩ := head_toBytesBE_onesPrefix hna1 hma
      obtain ⟨d, rest', hd, hd128⟩ := head_toBytesBE_onesPrefix hnb1 hmb
      rw [hc, hd]
      refine ⟨[], ~~~c, d, rest.map (~~~·), rest', rfl, rfl, ?_⟩
      rw [UInt8.lt_iff_toNat_lt, UInt8.toNat_not]
      have := c.toNat_lt
      have : UInt8.size = 256 := rfl
      omega
  · have hb : ¬ b < 0 := by
      rw [hsign] at ha ⊢
      omega
    rw [if_neg ha, if_neg hb]
    have hmag : a.toInt.natAbs < b.toInt.natAbs := by
      rw [hsign] at ha hb
      omega
    have hn : na ≤ nb := hmono hmag.le
    exact diffLt_onesPrefix hna1 hma hmb (by omega)

/-- The descending encoding reverses the order, away from the one number whose negation
overflows. -/
theorem diffLt_fastEncodeDescendingSignedVarInt {a b : Int64} (h : a.toInt < b.toInt)
    (ha : -2 ^ 63 < a.toInt) :
    DiffLt (fastEncodeDescendingSignedVarInt b) (fastEncodeDescendingSignedVarInt a) := by
  have hb := Int64.toInt_lt b
  unfold fastEncodeDescendingSignedVarInt
  apply diffLt_fastEncodeSignedVarInt
  rw [Int64.lt_iff_toInt_lt, Int64.toInt_neg, Int64.toInt_neg,
    Int.bmod_eq_of_le (by omega) (by omega), Int.bmod_eq_of_le (by omega) (by omega)]
  omega

theorem compare_fastEncodeSignedVarInt_eq_lt_iff (a b : Int64) :
    compare (fastEncodeSignedVarInt a) (fastEncodeSignedVarInt b) = .lt ↔ a < b := by
  constructor
  · intro h
    by_contra hab
    have hle : b.toInt ≤ a.toInt := Int64.le_iff_toInt_le.mp (Int64.not_lt.mp hab)
    rcases hle.lt_or_eq with hba | hba
    · rw [(diffLt_fastEncodeSignedVarInt (Int64.lt_iff_toInt_lt.mpr hba)).compare_eq_gt] at h
      cases h
    · rw [Int64.toInt_inj.mp hba] at h
      simp at h
  · intro h
    exact (diffLt_fastEncodeSignedVarInt h).compare_eq_lt

theorem compare_fastEncodeDescendingSignedVarInt_eq_lt_iff {a b : Int64}
    (ha : Int64.minValue < a) (hb : Int64.minValue < b) :
    compare (fastEncodeDescendingSignedVarInt b) (fastEncodeDescendingSignedVarInt a) = .lt ↔
      a < b := by
  have hmin : ∀ x : Int64, Int64.minValue < x → -2 ^ 63 < x.toInt := fun x hx => by
    rw [Int64.lt_iff_toInt_lt, Int64.toInt_minValue] at hx
    exact hx
  constructor
  · intro h
    by_contra hab
    have hle : b.toInt ≤ a.toInt := Int64.le_iff_toInt_le.mp (Int64.not_lt.mp hab)
    rcases hle.lt_or_eq with hba | hba
    · rw [(diffLt_fastEncodeDescendingSignedVarInt hba (hmin b hb)).compare_eq_gt] at h
      cases h
    · rw [Int64.toInt_inj.mp hba] at h
      simp at h
  · intro h
    exact (diffLt_fastEncodeDescendingSignedVarInt (Int64.lt_iff_toInt_lt.mp h) (hmin a ha)).compare_eq_lt

/-- The comparable signed varint: it decodes back with its length, whatever follows it, sorts as
the numbers do (the descending form the other way, above the minimum), and a proper prefix of it
does not decode. -/
theorem fastSignedVarInt_roundTrip_and_order (v a b : Int64) (rest : List UInt8) :
    fastDecodeSignedVarInt (fastEncodeSignedVarInt v ++ rest) =
        .ok (v, (fastEncodeSignedVarInt v).length) ∧
      1 ≤ (fastEncodeSignedVarInt v).length ∧ (fastEncodeSignedVarInt v).length ≤ 10 ∧
      (fastEncodeSignedVarInt v).length = signedPositiveVarIntLength (UInt64.ofNat v.toInt.natAbs) ∧
      (a < b ↔ compare (fastEncodeSignedVarInt a) (fastEncodeSignedVarInt b) = .lt) ∧
      (Int64.minValue < a → Int64.minValue < b →
        (a < b ↔ compare (fastEncodeDescendingSignedVarInt b) (fastEncodeDescendingSignedVarInt a) = .lt)) ∧
      fastDecodeDescendingSignedVarInt (fastEncodeDescendingSignedVarInt v ++ rest) = .ok (v, rest) ∧
      ∀ k < (fastEncodeSignedVarInt v).length,
        ∃ e, fastDecodeSignedVarInt ((fastEncodeSignedVarInt v).take k) = .error e := by
  obtain ⟨n, hn, hn1, hn10, -, henc⟩ := fastEncodeSignedVarInt_eq v
  have hlen : (fastEncodeSignedVarInt v).length = n := by
    rw [henc]
    split <;> simp
  have hmag : (if v < 0 then 1 + ~~~v.toUInt64 else v.toUInt64) = UInt64.ofNat v.toInt.natAbs := by
    rw [← magnitude_toNat v, UInt64.ofNat_toNat]
  refine ⟨fastDecodeSignedVarInt_fastEncodeSignedVarInt v rest, by omega, by omega, ?_,
    (compare_fastEncodeSignedVarInt_eq_lt_iff a b).symm,
    fun ha hb => (compare_fastEncodeDescendingSignedVarInt_eq_lt_iff ha hb).symm,
    fastDecodeDescendingSignedVarInt_encode v rest, fun k hk => fastDecodeSignedVarInt_take v hk⟩
  rw [length_fastEncodeSignedVarInt, hmag]

/-- The descending encoding at two numbers above the minimum: `2` sorts before `1`. -/
theorem fastSignedVarInt_descending_one_two :
    Int64.minValue < (1 : Int64) ∧ Int64.minValue < (2 : Int64) ∧
      compare (fastEncodeDescendingSignedVarInt 2) (fastEncodeDescendingSignedVarInt 1) = .lt :=
  ⟨by decide, by decide,
    ((fastSignedVarInt_roundTrip_and_order 0 1 2 []).2.2.2.2.2.1 (by decide) (by decide)).mp
      (by decide)⟩

end FrescoDB.Util
