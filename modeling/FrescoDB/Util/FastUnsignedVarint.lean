import FrescoDB.Util.FastVarint

/-! The unsigned varint of `util/fast_varint.cc`.
A unary byte count in the top bits of the first byte, then the value in the
bits that follow; a value of more than 56 bits takes a whole first byte of ones
and marks the ten-byte form in the top bit of the second. -/
namespace FrescoDB.Util

open FrescoDB.Lib

/-- `UnsignedVarIntLength`: one byte, and one more for every seven bits after the first seven. -/
def unsignedVarIntLength (v : UInt64) : Nat := varIntLengthLoop 10 (v >>> 7) 1

/-- `FastEncodeUnsignedVarInt`: the `n` bytes written to `dest`. The first byte is computed in
64 bits, as the source promotes `~((1 << (9 - n)) - 1)` to the type of `v`. -/
def fastEncodeUnsignedVarInt (v : UInt64) : List UInt8 :=
  let n := unsignedVarIntLength v
  let head : List UInt8 :=
    if n = 10 then [0xff, 0x80]
    else if n = 9 then [0xff, (v >>> 56).toUInt8]
    else [(~~~(((1 : UInt64) <<< (9 - n).toUInt64) - 1) ||| v >>> (8 * (n - 1)).toUInt64).toUInt8]
  let body := (List.range (n - head.length)).map fun k =>
    (v >>> (8 * (n - 1 - (k + head.length))).toUInt64).toUInt8
  head ++ body

/-- `kUnsignedVarIntSize[first_byte]`: one more than the number of leading one bits. -/
def kUnsignedVarIntSize (firstByte : UInt8) : Nat := clz32 ((firstByte.toNat <<< 1) ^^^ 0x1ff) - 23 + 1

/-- The loop of `FastDecodeUnsignedVarInt` over the bytes from `i` to `n_bytes`: each byte is
shifted in below the 64-bit result. -/
def shiftInBytes (result : UInt64) (bytes : List UInt8) : UInt64 :=
  bytes.foldl (fun r b => r <<< 8 ||| b.toUInt64) result

/-- `FastDecodeUnsignedVarInt(src, src_size, v, decoded_size)`: the value and the number of bytes
it took. -/
def fastDecodeUnsignedVarInt (src : List UInt8) : Except String (UInt64 × Nat) :=
  match src with
  | [] => .error "Cannot decode a variable-length integer of zero size"
  | firstByte :: rest =>
    let nBytes := kUnsignedVarIntSize firstByte
    if src.length < nBytes then .error (notEnoughEncodedBytes nBytes src.length)
    else if nBytes = 1 then .ok ((firstByte &&& 0x7f).toUInt64, 1)
    else if nBytes = 9 then
      -- the top bit of the second byte tells the nine-byte form from the ten-byte one
      let (nBytes, result, i) : Nat × UInt64 × Nat :=
        if rest.headD 0 &&& 0x80 ≠ 0 then (10, (rest.headD 0 &&& 0x3f).toUInt64, 2) else (9, 0, 0)
      if src.length < nBytes then .error (notEnoughEncodedBytes nBytes src.length)
      else .ok (shiftInBytes result ((src.take nBytes).drop i), nBytes)
    else
      let result := (firstByte &&& (((1 : UInt8) <<< (8 - nBytes).toUInt8) - 1)).toUInt64
      .ok (shiftInBytes result ((src.take nBytes).drop 1), nBytes)

/-- `FastDecodeUnsignedVarInt(Slice*)`: the value and the rest of the slice. -/
def fastDecodeUnsignedVarIntSlice (slice : List UInt8) : Except String (UInt64 × List UInt8) := do
  let (v, n) ← fastDecodeUnsignedVarInt slice
  return (v, slice.drop n)

/-! The encoding. -/

theorem unsignedVarIntLength_spec (v : UInt64) :
    1 ≤ unsignedVarIntLength v ∧ unsignedVarIntLength v ≤ 10 ∧
      v.toNat < 2 ^ (7 * unsignedVarIntLength v) := by
  have hshift : (v >>> 7).toNat = v.toNat / 2 ^ 7 := by
    simp [UInt64.toNat_shiftRight, Nat.shiftRight_eq_div_pow]
  have hlt : (v >>> 7).toNat < 2 ^ (7 * 9) := by
    have := v.toNat_lt
    rw [hshift]
    omega
  obtain ⟨k, hk, hloop, hk'⟩ := varIntLengthLoop_le 10 9 (v >>> 7) 1 hlt (by decide)
  rw [hshift, Nat.div_lt_iff_lt_mul (by decide), ← Nat.pow_add] at hk'
  unfold unsignedVarIntLength
  rw [hloop, show 7 * (1 + k) = 7 * k + 7 by omega]
  exact ⟨by omega, by omega, hk'⟩

set_option maxRecDepth 100000 in
theorem headByte_unsigned : ∀ t : Fin 8, ∀ c : Fin 128, c.val < 2 ^ (7 - t.val) →
    (~~~(((1 : UInt64) <<< (8 - t.val).toUInt64) - 1) ||| UInt64.ofNat c.val).toUInt8 =
      UInt8.ofNat (256 - 2 ^ (8 - t.val) + c.val) := by
  decide

/-- The bytes of the encoding: the first byte holds `n - 1` ones, a zero and the top bits of the
value, unless the value takes nine or ten bytes. -/
theorem fastEncodeUnsignedVarInt_eq (v : UInt64) :
    (unsignedVarIntLength v = 10 ∧
        fastEncodeUnsignedVarInt v = 0xff :: 0x80 :: toBytesBE 8 v.toNat) ∨
      (unsignedVarIntLength v = 9 ∧ v.toNat < 2 ^ 63 ∧
        fastEncodeUnsignedVarInt v = 0xff :: toBytesBE 8 v.toNat) ∨
      ∃ t < 8, unsignedVarIntLength v = t + 1 ∧ v.toNat < 2 ^ (7 * (t + 1)) ∧
        fastEncodeUnsignedVarInt v =
          UInt8.ofNat (256 - 2 ^ (8 - t) + v.toNat / 256 ^ t) :: toBytesBE t v.toNat := by
  obtain ⟨hn1, hn10, hm⟩ := unsignedVarIntLength_spec v
  unfold fastEncodeUnsignedVarInt
  dsimp only
  generalize unsignedVarIntLength v = n at hn1 hn10 hm ⊢
  split_ifs with h10 h9
  · subst h10
    left
    refine ⟨rfl, ?_⟩
    rw [body_eq v 10 _ (by simp)]
    rfl
  · subst h9
    right; left
    refine ⟨rfl, hm, ?_⟩
    have h8 : toBytesBE 8 v.toNat = UInt8.ofNat (v.toNat / 256 ^ 7 % 256) :: toBytesBE 7 v.toNat :=
      rfl
    rw [body_eq v 9 _ (by simp), h8, show (56 : UInt64) = (8 * 7 : Nat).toUInt64 from rfl,
      shiftRight_toUInt8 v (by decide)]
    rfl
  · right; right
    obtain ⟨t, rfl⟩ : ∃ t, n = t + 1 := ⟨n - 1, by omega⟩
    have ht : t < 8 := by omega
    -- the top bits of the value fit below the zero that ends the count
    have hq : v.toNat / 256 ^ t < 2 ^ (7 - t) := by
      rw [Nat.div_lt_iff_lt_mul (Nat.pow_pos (by decide)), ← two_pow_eight_mul, ← Nat.pow_add]
      exact lt_of_lt_of_le hm (Nat.pow_le_pow_right (by decide) (by omega))
    have hq128 : v.toNat / 256 ^ t < 128 :=
      lt_of_lt_of_le hq (Nat.pow_le_pow_right (by decide) (by omega) : 2 ^ (7 - t) ≤ 2 ^ 7)
    have hshift : v >>> (8 * (t + 1 - 1)).toUInt64 = UInt64.ofNat (v.toNat / 256 ^ t) := by
      apply UInt64.toNat_inj.mp
      have h8 : (8 * t).toUInt64.toNat % 64 = 8 * t := by simp; omega
      rw [Nat.add_sub_cancel, UInt64.toNat_shiftRight, h8, Nat.shiftRight_eq_div_pow,
        two_pow_eight_mul, UInt64.toNat_ofNat', Nat.mod_eq_of_lt (by omega)]
    refine ⟨t, ht, rfl, hm, ?_⟩
    rw [body_eq v (t + 1) _ (by simp; omega), hshift, show 9 - (t + 1) = 8 - t by omega,
      headByte_unsigned ⟨t, ht⟩ ⟨_, hq128⟩ hq]
    simp

/-! The decoder. -/

theorem shiftInBytes_eq (result : UInt64) (bytes : List UInt8) :
    shiftInBytes result bytes = UInt64.ofNat (result.toNat * 256 ^ bytes.length + ofBytesBE bytes) := by
  induction bytes generalizing result with
  | nil => simp [shiftInBytes, ofBytesBE]
  | cons b bs ih =>
    -- the shifted result has eight zero low bits, so the or is a sum
    have hstep : (result <<< 8 ||| b.toUInt64).toNat = (result.toNat * 256 + b.toNat) % 2 ^ 64 := by
      have hb : b.toNat < 2 ^ 8 := b.toNat_lt
      have hlow : result.toNat * 2 ^ 8 % 2 ^ 64 = 2 ^ 8 * (result.toNat % 2 ^ 56) := by
        rw [show (2 : Nat) ^ 64 = 2 ^ 8 * 2 ^ 56 from rfl, Nat.mul_comm, Nat.mul_mod_mul_left]
      rw [UInt64.toNat_or, UInt64.toNat_shiftLeft, UInt8.toNat_toUInt64,
        show (8 : UInt64).toNat % 64 = 8 from rfl, Nat.shiftLeft_eq, hlow,
        ← Nat.two_pow_add_eq_or_of_lt hb]
      omega
    have hsh : shiftInBytes result (b :: bs) = shiftInBytes (result <<< 8 ||| b.toUInt64) bs := rfl
    apply UInt64.toNat_inj.mp
    rw [hsh, ih, UInt64.toNat_ofNat', UInt64.toNat_ofNat', hstep, List.length_cons, ofBytesBE,
      Nat.pow_succ, Nat.add_mod, Nat.mul_mod, Nat.mod_mod, ← Nat.mul_mod, ← Nat.add_mod]
    congr 1
    ring

set_option maxRecDepth 100000 in
theorem xor_511 : ∀ x : Fin 512, x.val ^^^ 0x1ff = 511 - x.val := by
  decide

theorem kUnsignedVarIntSize_head {t c : Nat} (ht : t < 8) (hc : c < 2 ^ (7 - t)) :
    kUnsignedVarIntSize (UInt8.ofNat (256 - 2 ^ (8 - t) + c)) = t + 1 := by
  have hP : 2 ^ (8 - t) = 2 * 2 ^ (7 - t) := by
    rw [← Nat.pow_succ']
    congr 1
    omega
  have h9 : 2 ^ (9 - t) = 2 * 2 ^ (8 - t) := by
    rw [← Nat.pow_succ']
    congr 1
    omega
  have hP7 : 2 ^ (7 - t) ≤ 2 ^ 7 := Nat.pow_le_pow_right (by decide) (by omega)
  have hbyte : (UInt8.ofNat (256 - 2 ^ (8 - t) + c)).toNat = 256 - 2 ^ (8 - t) + c := by
    rw [UInt8.toNat_ofNat']
    exact Nat.mod_eq_of_lt (by omega)
  -- the complemented doubled byte has its highest one at bit `8 - t`
  have hx : ((256 - 2 ^ (8 - t) + c) <<< 1) ^^^ 0x1ff = 2 ^ (9 - t) - 1 - 2 * c := by
    rw [Nat.shiftLeft_eq, xor_511 ⟨_, by omega⟩]
    dsimp only
    omega
  have hlog : Nat.log2 (2 ^ (9 - t) - 1 - 2 * c) = 8 - t := by
    rw [Nat.log2_eq_iff (by omega), show 8 - t + 1 = 9 - t by omega]
    omega
  rw [kUnsignedVarIntSize, hbyte, hx, clz32, hlog]
  omega

theorem kUnsignedVarIntSize_ff : kUnsignedVarIntSize 0xff = 9 := by
  have hlog : Nat.log2 1 = 0 := by decide
  simp only [kUnsignedVarIntSize, clz32]
  rw [show ((0xff : UInt8).toNat <<< 1) ^^^ 0x1ff = 1 by decide, hlog]

set_option maxRecDepth 100000 in
theorem headByte_mask : ∀ t : Fin 8, ∀ c : Fin 128, 1 ≤ t.val → c.val < 2 ^ (7 - t.val) →
    UInt8.ofNat (256 - 2 ^ (8 - t.val) + c.val) &&& (((1 : UInt8) <<< (8 - (t.val + 1)).toUInt8) - 1)
      = UInt8.ofNat c.val := by
  decide

set_option maxRecDepth 10000 in
theorem headByte_one : ∀ c : Fin 128, UInt8.ofNat (256 - 2 ^ (8 - 0) + c.val) &&& 0x7f = UInt8.ofNat c.val := by
  decide

theorem fastDecodeUnsignedVarInt_ten {x : List UInt8} (hx : x.length = 8) (rest : List UInt8) :
    fastDecodeUnsignedVarInt (0xff :: 0x80 :: (x ++ rest)) = .ok (shiftInBytes 0 x, 10) := by
  have hlen : (0xff :: 0x80 :: (x ++ rest)).length = 10 + rest.length := by
    simp [hx]
    omega
  have htake : ((0xff :: 0x80 :: (x ++ rest) : List UInt8).take 10).drop 2 = x := by
    simp [List.take_left' hx]
  simp only [fastDecodeUnsignedVarInt, kUnsignedVarIntSize_ff, List.headD_cons]
  simp [hlen]
  rw [if_neg (by omega), List.take_left' hx]
  rfl

theorem fastDecodeUnsignedVarInt_nine {b : UInt8} {x : List UInt8} (hb : b &&& 0x80 = 0)
    (hx : x.length = 7) (rest : List UInt8) :
    fastDecodeUnsignedVarInt (0xff :: b :: (x ++ rest)) =
      .ok (shiftInBytes 0 (0xff :: b :: x), 9) := by
  have hlen : (0xff :: b :: (x ++ rest)).length = 9 + rest.length := by
    simp [hx]
    omega
  have htake : ((0xff :: b :: (x ++ rest) : List UInt8).take 9) = 0xff :: b :: x := by
    simp [List.take_left' hx]
  simp only [fastDecodeUnsignedVarInt, kUnsignedVarIntSize_ff, List.headD_cons]
  simp [hlen, htake, hb]

/-- The forms of up to eight bytes: the bits of the first byte below the count, then the other
bytes. -/
theorem fastDecodeUnsignedVarInt_short {t c : Nat} (ht : t < 8) (hc : c < 2 ^ (7 - t))
    {x : List UInt8} (hx : x.length = t) (rest : List UInt8) :
    fastDecodeUnsignedVarInt (UInt8.ofNat (256 - 2 ^ (8 - t) + c) :: (x ++ rest)) =
      .ok (shiftInBytes (UInt8.ofNat c).toUInt64 x, t + 1) := by
  have hc128 : c < 128 :=
    lt_of_lt_of_le hc (Nat.pow_le_pow_right (by decide) (by omega) : 2 ^ (7 - t) ≤ 2 ^ 7)
  have hlen : (UInt8.ofNat (256 - 2 ^ (8 - t) + c) :: (x ++ rest)).length = t + 1 + rest.length := by
    simp [hx]
    omega
  have htake : ((UInt8.ofNat (256 - 2 ^ (8 - t) + c) :: (x ++ rest)).take (t + 1)).drop 1 = x := by
    simp [List.take_left' hx]
  simp only [fastDecodeUnsignedVarInt, kUnsignedVarIntSize_head ht hc]
  rw [hlen, if_neg (by omega)]
  by_cases ht0 : t = 0
  · -- one byte: the fast path masks off the top bit
    subst ht0
    obtain rfl : x = [] := List.length_eq_zero_iff.mp hx
    rw [if_pos rfl, headByte_one ⟨c, hc128⟩]
    rfl
  · rw [if_neg (by omega), if_neg (by omega), htake,
      headByte_mask ⟨t, ht⟩ ⟨c, hc128⟩ (by simp; omega) hc]

/-- `FastDecodeUnsignedVarInt` reads back every 64-bit value from its encoding, whatever follows
it, and reports the encoding's length. -/
theorem fastDecodeUnsignedVarInt_fastEncodeUnsignedVarInt (v : UInt64) (rest : List UInt8) :
    fastDecodeUnsignedVarInt (fastEncodeUnsignedVarInt v ++ rest) =
      .ok (v, (fastEncodeUnsignedVarInt v).length) := by
  have hv64 : v.toNat < 256 ^ 8 := v.toNat_lt
  have hv : UInt64.ofNat v.toNat = v := UInt64.ofNat_toNat
  rcases fastEncodeUnsignedVarInt_eq v with ⟨-, henc⟩ | ⟨-, h63, henc⟩ | ⟨t, ht, -, hm, henc⟩
  · rw [henc, List.cons_append, List.cons_append, fastDecodeUnsignedVarInt_ten (length_toBytesBE _ _),
      shiftInBytes_eq, ofBytesBE_toBytesBE, Nat.mod_eq_of_lt hv64]
    simp [hv]
  · -- the second byte is the top byte of a value below `2 ^ 63`
    have h8 : toBytesBE 8 v.toNat = UInt8.ofNat (v.toNat / 256 ^ 7 % 256) :: toBytesBE 7 v.toNat :=
      rfl
    have hsecond : UInt8.ofNat (v.toNat / 256 ^ 7 % 256) &&& 0x80 = 0 := by
      have hq : v.toNat / 256 ^ 7 % 256 < 128 := by omega
      generalize v.toNat / 256 ^ 7 % 256 = q at hq
      obtain ⟨q, rfl⟩ : ∃ f : Fin 128, f.val = q := ⟨⟨q, hq⟩, rfl⟩
      revert q
      decide
    have hval : ofBytesBE (0xff :: toBytesBE 8 v.toNat) = 255 * 2 ^ 64 + v.toNat := by
      simp only [ofBytesBE, length_toBytesBE, ofBytesBE_toBytesBE, Nat.mod_eq_of_lt hv64]
      rfl
    rw [henc, List.cons_append, h8, List.cons_append, fastDecodeUnsignedVarInt_nine hsecond
      (length_toBytesBE _ _), shiftInBytes_eq, ← h8, hval]
    simp [UInt64.ofNat_add, hv]
  · obtain ⟨q, hq⟩ : ∃ q, q = v.toNat / 256 ^ t := ⟨_, rfl⟩
    have hqlt : q < 2 ^ (7 - t) := by
      rw [hq, Nat.div_lt_iff_lt_mul (Nat.pow_pos (by decide)), ← two_pow_eight_mul, ← Nat.pow_add]
      exact lt_of_lt_of_le hm (Nat.pow_le_pow_right (by decide) (by omega))
    have hval : (UInt8.ofNat q).toUInt64.toNat = q := by
      have : q < 2 ^ 7 := lt_of_lt_of_le hqlt (Nat.pow_le_pow_right (by decide) (by omega))
      rw [UInt8.toNat_toUInt64, UInt8.toNat_ofNat']
      omega
    have hsplit : q * 256 ^ t + v.toNat % 256 ^ t = v.toNat := by
      rw [hq]
      exact Nat.div_add_mod' _ _
    rw [henc, ← hq, List.cons_append, fastDecodeUnsignedVarInt_short ht hqlt (length_toBytesBE _ _),
      shiftInBytes_eq, hval, length_toBytesBE, ofBytesBE_toBytesBE, hsplit, hv]
    simp

theorem fastDecodeUnsignedVarIntSlice_encode (v : UInt64) (rest : List UInt8) :
    fastDecodeUnsignedVarIntSlice (fastEncodeUnsignedVarInt v ++ rest) = .ok (v, rest) := by
  simp [fastDecodeUnsignedVarIntSlice, fastDecodeUnsignedVarInt_fastEncodeUnsignedVarInt]

end FrescoDB.Util
