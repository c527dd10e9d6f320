import FrescoDB.Lib.LeadingOnes
import Mathlib.Data.Nat.Size

/-! `util::VarInt` (`util/varint.{h,cc}`): an integer of any size, held by an
OpenSSL `BIGNUM`, and its comparable encoding `EncodeToComparable`. After
`num_reserved_bits` bits left to the caller, a number is written as its byte
count in unary, a zero bit, and its magnitude; a negative number is the
complement of the encoding of its magnitude. `DecodeFromComparable` reads the
unary count back and returns the number of bytes it took, so that an encoding
followed by anything decodes to the number. -/
namespace FrescoDB.Util

open FrescoDB.Lib

/-- `BN_num_bits`: the number of bits of the magnitude. -/
def bnNumBits (m : Nat) : Nat := Nat.size m

/-- `BN_bn2bin`: the magnitude in as few big-endian bytes as it needs. -/
def bnBn2bin (m : Nat) : List UInt8 := toBytesBE ((bnNumBits m + 7) / 8) m

/-- `BN_bin2bn`. -/
def bnBin2bn (bytes : List UInt8) : Nat := ofBytesBE bytes

/-- One byte as `%02X` prints it. -/
def hexUpper2 (b : UInt8) : String :=
  let d (n : Nat) : Char := if n < 10 then Char.ofNat (48 + n) else Char.ofNat (55 + n)
  String.ofList [d (b.toNat / 16), d (b.toNat % 16)]

/-- `Slice::ToDebugHexString`. -/
def toDebugHexString (s : List UInt8) : String := String.join (s.map hexUpper2)

namespace VarInt

/-- `FlipBits`. -/
def flipBits (data : List UInt8) : List UInt8 := data.map (~~~·)

/-- `0xff ^ ((1 << (8 - num_ones)) - 1)`: the top `numOnes` bits of a byte. -/
def topBits (numOnes : Nat) : UInt8 := 0xff ^^^ UInt8.ofNat (2 ^ (8 - numOnes) - 1)

/-- `(1 << (8 - num_reserved_bits)) - 1`: the bits of the first byte below the reserved ones. -/
def belowReserved (numReservedBits : Nat) : UInt8 := UInt8.ofNat (2 ^ (8 - numReservedBits) - 1)

/-- `data[0] &= mask`. -/
def andHead (mask : UInt8) : List UInt8 → List UInt8
  | [] => []
  | b :: bs => (b &&& mask) :: bs

/-- `buffer[0] |= mask`. -/
def orHead (mask : UInt8) : List UInt8 → List UInt8
  | [] => []
  | b :: bs => (b ||| mask) :: bs

/-- The last step of `EncodeToComparable`: `data[0] &= (1 << (8 - num_reserved_bits)) - 1`. -/
def resetReservedBits (numReservedBits : Nat) (data : List UInt8) : List UInt8 :=
  if numReservedBits ≠ 0 then andHead (belowReserved numReservedBits) data else data

/-- `buffer[0] |= ~((1 << (8 - num_reserved_bits)) - 1)` in `DecodeFromComparable`. -/
def restoreReservedBits (numReservedBits : Nat) (buffer : List UInt8) : List UInt8 :=
  if numReservedBits ≠ 0 then orHead (~~~belowReserved numReservedBits) buffer else buffer

/-- The header loop of `EncodeToComparable`: whole bytes of ones, then the last ones merged into
the next byte. -/
def fillOnes : Nat → List UInt8 → List UInt8
  | _, [] => []
  | numOnes, b :: bs =>
    if numOnes > 8 then 0xff :: fillOnes (numOnes - 8) bs else (b ||| topBits numOnes) :: bs

/-- `EncodeToComparable(num_reserved_bits)`. -/
def encodeToComparable (v : Int) (numReservedBits : Nat) : List UInt8 :=
  -- zero is encoded as a positive value of length 0
  if v = 0 then [UInt8.ofNat (0x80 >>> numReservedBits)]
  else
    let numBits := bnNumBits v.natAbs
    let totalNumBits := numBits + 1 + numReservedBits
    let numBytes := (totalNumBits + 6) / 7
    let roundingPadding := numBytes * 7 - totalNumBits
    let headerLength := 1 + numBytes + roundingPadding
    let wordsCount := (numBits + headerLength + 7) / 8
    let offset := wordsCount - (numBits + 7) / 8
    -- `result` starts as zeros; `BN_bn2bin` writes the magnitude at `offset`
    let data := List.replicate offset 0 ++ bnBn2bin v.natAbs
    -- the reserved bits are filled with ones too, then reset
    let data := fillOnes (numBytes + numReservedBits) data
    let data := if v < 0 then flipBits data else data
    resetReservedBits numReservedBits data

/-- The first loop of `DecodeFromComparable`: the number of leading `0xff` bytes; `none` when they
run to the end of the slice. -/
def leadingFullBytes : List UInt8 → Option Nat
  | [] => none
  | b :: bs => if b = 0xff then (leadingFullBytes bs).map (· + 1) else some 0

/-- The second loop: clear the leading one bits of a byte from `temp` down, counting them. -/
def clearLeadingOnes : Nat → UInt8 → UInt8 → Nat → UInt8 × Nat
  | 0, b, _, n => (b, n)
  | fuel + 1, b, temp, n =>
    if b &&& temp ≠ 0 then clearLeadingOnes fuel (b ^^^ temp) (temp >>> 1) (n + 1) else (b, n)

/-- `DecodeFromComparable(slice, num_decoded_bytes, num_reserved_bits)`: the number and the
bytes it took. -/
def decodeFromComparable (slice : List UInt8) (numReservedBits : Nat) :
    Except String (Int × Nat) :=
  match slice with
  | [] => .error "Cannot decode varint from empty slice"
  | first :: _ =>
    let len := slice.length
    let negative := first &&& UInt8.ofNat (0x80 >>> numReservedBits) = 0
    let buffer := if negative then flipBits slice else slice
    let buffer := restoreReservedBits numReservedBits buffer
    match leadingFullBytes buffer with
    | none => .error ("Encoded varint failure, no prefix termination: " ++ toDebugHexString slice)
    | some idx =>
      let (cleared, ones) := clearLeadingOnes 8 (buffer.getD idx 0) 0x80 0
      -- `num_ones -= num_reserved_bits` wraps in `size_t` below zero
      if 8 * idx + ones < numReservedBits ∨ len < 8 * idx + ones - numReservedBits then
        .error ("Not enough data in encoded varint: " ++ toDebugHexString slice ++ ", " ++
          toString (8 * idx + ones - numReservedBits))
      else
        let numOnes := 8 * idx + ones - numReservedBits
        let magnitude := bnBin2bn (((buffer.set idx cleared).take numOnes).drop idx)
        .ok (if negative then -(magnitude : Int) else magnitude, numOnes)

/-- `Negate`. -/
def negate (v : Int) : Int := -v

/-! Bytes of the header. -/

set_option maxRecDepth 100000 in
theorem or_topBits : ∀ i : Fin 9, ∀ c : Fin 256, 1 ≤ i.val → c.val < 2 ^ (8 - i.val) →
    UInt8.ofNat c.val ||| topBits i.val = UInt8.ofNat (256 - 2 ^ (8 - i.val) + c.val) := by
  decide

set_option maxRecDepth 100000 in
theorem clearLeadingOnes_ones : ∀ i : Fin 8, ∀ c : Fin 128, c.val < 2 ^ (7 - i.val) →
    clearLeadingOnes 8 (UInt8.ofNat (256 - 2 ^ (8 - i.val) + c.val)) 0x80 0 =
      (UInt8.ofNat c.val, i.val) := by
  decide

set_option maxRecDepth 100000 in
/-- A first byte whose top `r + 1` bits are ones keeps its sign bit through the reset of the
reserved bits, and the decoder's restore gives it back, also through a complement. -/
theorem reserved_of_top : ∀ r : Fin 7, ∀ b : UInt8, 256 - 2 ^ (7 - r.val) ≤ b.toNat →
    (resetReservedBits r.val [b]).headD 0 &&& UInt8.ofNat (0x80 >>> r.val) ≠ 0 ∧
      restoreReservedBits r.val (resetReservedBits r.val [b]) = [b] ∧
      (resetReservedBits r.val [~~~b]).headD 0 &&& UInt8.ofNat (0x80 >>> r.val) = 0 ∧
      restoreReservedBits r.val (flipBits (resetReservedBits r.val [~~~b])) = [b] := by
  decide

set_option maxRecDepth 100000 in
theorem zero_header : ∀ r : Fin 7,
    UInt8.ofNat (0x80 >>> r.val) &&& UInt8.ofNat (0x80 >>> r.val) ≠ 0 ∧
      ∃ b, restoreReservedBits r.val [UInt8.ofNat (0x80 >>> r.val)] = [b] ∧ b ≠ 0xff ∧
        clearLeadingOnes 8 b 0x80 0 = (0, r.val + 1) := by
  decide

/-! The header around the magnitude. -/

theorem resetReservedBits_cons (r : Nat) (b : UInt8) (bs : List UInt8) :
    resetReservedBits r (b :: bs) = resetReservedBits r [b] ++ bs := by
  unfold resetReservedBits
  split <;> rfl

theorem restoreReservedBits_cons (r : Nat) (b : UInt8) (bs : List UInt8) :
    restoreReservedBits r (b :: bs) = restoreReservedBits r [b] ++ bs := by
  unfold restoreReservedBits
  split <;> rfl

theorem length_resetReservedBits (r : Nat) (data : List UInt8) :
    (resetReservedBits r data).length = data.length := by
  unfold resetReservedBits
  split
  · cases data <;> rfl
  · rfl

@[simp] theorem flipBits_append (xs ys : List UInt8) :
    flipBits (xs ++ ys) = flipBits xs ++ flipBits ys := List.map_append

@[simp] theorem flipBits_flipBits (xs : List UInt8) : flipBits (flipBits xs) = xs := by
  simp [flipBits, Function.comp_def]

theorem fillOnes_replicate (j : Nat) {i : Nat} (hi : 1 ≤ i) (hi8 : i ≤ 8) (b : UInt8)
    (rest : List UInt8) :
    fillOnes (8 * j + i) (List.replicate j 0 ++ b :: rest) =
      List.replicate j 0xff ++ (b ||| topBits i) :: rest := by
  induction j with
  | zero => simp [fillOnes, show ¬ i > 8 by omega]
  | succ j ih =>
    rw [List.replicate_succ, List.cons_append, fillOnes, if_pos (by omega),
      show 8 * (j + 1) + i - 8 = 8 * j + i by omega, ih]
    rfl

theorem fillOnes_toBytesBE {n k m : Nat} (hk : 1 ≤ k) (hkn : k ≤ 8 * n)
    (hm : m < 2 ^ (8 * n - k)) : fillOnes k (toBytesBE n m) = toBytesBE n (onesPrefix n k m) := by
  -- `k` ones: `j` whole bytes and `i` bits of the next byte, then `t` bytes
  obtain ⟨j, i, t, rfl, rfl, hi, hi8⟩ : ∃ j i t, k = 8 * j + i ∧ n = j + 1 + t ∧ 1 ≤ i ∧ i ≤ 8 :=
    ⟨(k - 1) / 8, (k - 1) % 8 + 1, n - (k - 1) / 8 - 1, by omega, by omega, by omega, by omega⟩
  have hexp : 8 * (j + 1 + t) - (8 * j + i) = (8 - i) + 8 * t := by omega
  rw [hexp, Nat.pow_add, two_pow_eight_mul] at hm
  have hpos : 0 < 256 ^ t := Nat.pow_pos (by decide)
  have hq : m / 256 ^ t < 2 ^ (8 - i) := (Nat.div_lt_iff_lt_mul hpos).mpr hm
  have hbit : 2 ^ (8 - i) ≤ 256 := by
    calc 2 ^ (8 - i) ≤ 2 ^ 8 := Nat.pow_le_pow_right (by decide) (by omega)
      _ = 256 := rfl
  have hsmall : m < 256 ^ (t + 1) := by
    rw [Nat.pow_succ]
    have : 2 ^ (8 - i) * 256 ^ t ≤ 256 ^ t * 256 := by
      rw [Nat.mul_comm]; exact Nat.mul_le_mul_left _ hbit
    omega
  rw [onesPrefix_split j i t m hi8, toBytesBE_onesWord j t hi8 hm,
    show j + 1 + t = j + (t + 1) by omega, toBytesBE_replicate_zero j hsmall, toBytesBE,
    fillOnes_replicate j hi hi8, Nat.mod_eq_of_lt (by omega : m / 256 ^ t < 256),
    or_topBits ⟨i, by omega⟩ ⟨m / 256 ^ t, by omega⟩ hi hq]

/-- A word of `k` ones over `m`, with a zero bit after the ones: `k / 8` bytes `0xff`, the byte
of the last ones and of the top bits of `m`, then the other bytes of `m`. -/
theorem toBytesBE_onesPrefix {n k m : Nat} (hkn : k < 8 * n) (hm : m < 2 ^ (8 * n - k - 1)) :
    toBytesBE n (onesPrefix n k m) =
      List.replicate (k / 8) 0xff ++
        UInt8.ofNat (256 - 2 ^ (8 - k % 8) + m / 256 ^ (n - k / 8 - 1)) ::
          toBytesBE (n - k / 8 - 1) m ∧
      m / 256 ^ (n - k / 8 - 1) < 2 ^ (7 - k % 8) := by
  obtain ⟨j, i, t, rfl, rfl, hi⟩ : ∃ j i t, k = 8 * j + i ∧ n = j + 1 + t ∧ i < 8 :=
    ⟨k / 8, k % 8, n - k / 8 - 1, by omega, by omega, by omega⟩
  have hj : (8 * j + i) / 8 = j := by omega
  have hi' : (8 * j + i) % 8 = i := by omega
  have ht : j + 1 + t - j - 1 = t := by omega
  rw [hj, hi', ht]
  have hexp : 8 * (j + 1 + t) - (8 * j + i) - 1 = (7 - i) + 8 * t := by omega
  rw [hexp, Nat.pow_add, two_pow_eight_mul] at hm
  have hm' : m < 2 ^ (8 - i) * 256 ^ t := by
    have : 2 ^ (7 - i) ≤ 2 ^ (8 - i) := Nat.pow_le_pow_right (by decide) (by omega)
    exact lt_of_lt_of_le hm (Nat.mul_le_mul_right _ this)
  refine ⟨?_, (Nat.div_lt_iff_lt_mul (Nat.pow_pos (by decide))).mpr hm⟩
  rw [onesPrefix_split _ _ _ m (by omega), toBytesBE_onesWord _ _ (by omega) hm']

theorem leadingFullBytes_replicate (j : Nat) {b : UInt8} (hb : b ≠ 0xff) (rest : List UInt8) :
    leadingFullBytes (List.replicate j 0xff ++ b :: rest) = some j := by
  induction j with
  | zero => simp [leadingFullBytes, hb]
  | succ j ih => simp [List.replicate_succ, leadingFullBytes, ih]

/-- What the decoder's loops find in a word of ones followed by anything: the full bytes, the
ones of the next byte, and below them the magnitude. -/
theorem decode_onesPrefix {n k m : Nat} (hkn : k < 8 * n) (hm : m < 2 ^ (8 * n - k - 1))
    (rest : List UInt8) :
    ∃ cleared, leadingFullBytes (toBytesBE n (onesPrefix n k m) ++ rest) = some (k / 8) ∧
      clearLeadingOnes 8 ((toBytesBE n (onesPrefix n k m) ++ rest).getD (k / 8) 0) 0x80 0 =
        (cleared, k % 8) ∧
      bnBin2bn ((((toBytesBE n (onesPrefix n k m) ++ rest).set (k / 8) cleared).take n).drop
        (k / 8)) = m := by
  obtain ⟨hbytes, hq⟩ := toBytesBE_onesPrefix hkn hm
  have hq7 : m / 256 ^ (n - k / 8 - 1) < 128 := lt_of_lt_of_le hq
    (by calc 2 ^ (7 - k % 8) ≤ 2 ^ 7 := Nat.pow_le_pow_right (by decide) (by omega)
          _ = 128 := rfl)
  have hclear := clearLeadingOnes_ones ⟨k % 8, by omega⟩ ⟨_, hq7⟩ hq
  have hne : UInt8.ofNat (256 - 2 ^ (8 - k % 8) + m / 256 ^ (n - k / 8 - 1)) ≠ 0xff := by
    intro h
    have h' := congrArg UInt8.toNat h
    have hpow : 2 ^ (8 - k % 8) = 2 * 2 ^ (7 - k % 8) := by
      rw [show 8 - k % 8 = (7 - k % 8) + 1 by omega, Nat.pow_succ, Nat.mul_comm]
    have hpos : 0 < 2 ^ (7 - k % 8) := Nat.pow_pos (by decide)
    have hle : 2 ^ (7 - k % 8) ≤ 128 := by
      calc 2 ^ (7 - k % 8) ≤ 2 ^ 7 := Nat.pow_le_pow_right (by decide) (by omega)
        _ = 128 := rfl
    have hlt : 256 - 2 ^ (8 - k % 8) + m / 256 ^ (n - k / 8 - 1) < 255 := by omega
    rw [UInt8.toNat_ofNat', Nat.mod_eq_of_lt (by simp only [Nat.reducePow]; omega)] at h'
    simp only [UInt8.reduceToNat] at h'
    omega
  refine ⟨UInt8.ofNat (m / 256 ^ (n - k / 8 - 1)), ?_, ?_, ?_⟩
  · rw [hbytes, List.append_assoc, List.cons_append, leadingFullBytes_replicate _ hne]
  · rw [hbytes, List.append_assoc, List.cons_append, List.getD_eq_getElem?_getD,
      List.getElem?_append_right (by simp), List.length_replicate, Nat.sub_self,
      List.getElem?_cons_zero, Option.getD_some]
    exact hclear
  · have hlen : (List.replicate (k / 8) (0xff : UInt8)).length = k / 8 := List.length_replicate
    rw [hbytes, List.append_assoc, List.cons_append, List.set_append_right _ _ (by simp),
      hlen, Nat.sub_self, List.set_cons_zero, ← List.cons_append, ← List.append_assoc,
      List.take_append_of_le_length (by simp; omega), List.take_of_length_le (by simp; omega),
      List.drop_left' hlen]
    have hpos : 0 < 256 ^ (n - k / 8 - 1) := Nat.pow_pos (by decide)
    simp only [bnBin2bn, ofBytesBE, length_toBytesBE, ofBytesBE_toBytesBE, UInt8.toNat_ofNat']
    rw [Nat.mod_eq_of_lt (by omega : m / 256 ^ (n - k / 8 - 1) < 2 ^ 8), Nat.mul_comm]
    exact Nat.div_add_mod m _

/-- The decoder on a slice whose buffer, after the sign flip and the restore of the reserved
bits, is a word of `n + r` ones over `m` followed by anything. -/
theorem decodeFromComparable_of_buffer {first : UInt8} {tl : List UInt8} {r n m : Nat}
    (hr : r < 7) (hn : 1 ≤ n) (hm : m < 2 ^ (8 * n - (n + r) - 1)) (rest : List UInt8)
    (hbuf : restoreReservedBits r (if first &&& UInt8.ofNat (0x80 >>> r) = 0 then
        flipBits (first :: tl) else first :: tl) = toBytesBE n (onesPrefix n (n + r) m) ++ rest)
    (hlen : n ≤ (first :: tl).length) :
    decodeFromComparable (first :: tl) r =
      .ok (if first &&& UInt8.ofNat (0x80 >>> r) = 0 then -(m : Int) else m, n) := by
  obtain ⟨cleared, hfull, hclear, hmag⟩ := decode_onesPrefix (show n + r < 8 * n by omega) hm rest
  have hk : 8 * ((n + r) / 8) + (n + r) % 8 = n + r := Nat.div_add_mod _ _
  unfold decodeFromComparable
  dsimp only
  rw [hbuf, hfull]
  dsimp only
  rw [hclear]
  dsimp only
  rw [if_neg (by omega), hk, Nat.add_sub_cancel, hmag]

/-- The encoding of a nonzero number: the reserved bits reset on a word of `n + r` ones over the
magnitude, complemented for a negative number. -/
theorem encodeToComparable_of_ne_zero {v : Int} (hv : v ≠ 0) (r : Nat) (hr : r < 7) :
    let n := (bnNumBits v.natAbs + 1 + r + 6) / 7
    encodeToComparable v r = resetReservedBits r
      (if v < 0 then flipBits (toBytesBE n (onesPrefix n (n + r) v.natAbs))
        else toBytesBE n (onesPrefix n (n + r) v.natAbs)) := by
  intro n
  have hsize : v.natAbs < 2 ^ bnNumBits v.natAbs := Nat.lt_size_self _
  have hoff : (bnNumBits v.natAbs + (1 + n + (n * 7 - (bnNumBits v.natAbs + 1 + r))) + 7) / 8 -
      (bnNumBits v.natAbs + 7) / 8 + (bnNumBits v.natAbs + 7) / 8 = n := by omega
  have hbn : v.natAbs < 256 ^ ((bnNumBits v.natAbs + 7) / 8) := by
    rw [← two_pow_eight_mul]
    exact lt_of_lt_of_le hsize (Nat.pow_le_pow_right (by decide) (by omega))
  have hm : v.natAbs < 2 ^ (8 * n - (n + r)) :=
    lt_of_lt_of_le hsize (Nat.pow_le_pow_right (by decide) (by omega))
  unfold encodeToComparable
  rw [if_neg hv]
  dsimp only
  rw [bnBn2bin, ← toBytesBE_replicate_zero _ hbn, hoff, fillOnes_toBytesBE (by omega) (by omega) hm]

theorem resetReservedBits_singleton (r : Nat) (b : UInt8) :
    resetReservedBits r [b] = [(resetReservedBits r [b]).headD 0] := by
  unfold resetReservedBits
  split <;> rfl

theorem restoreReservedBits_flip_singleton (r : Nat) (b : UInt8) :
    flipBits (resetReservedBits r [b]) = [~~~(resetReservedBits r [b]).headD 0] := by
  rw [resetReservedBits_singleton]
  rfl

theorem head_onesPrefix {n r m : Nat} (hr : r < 7) (hn : 1 ≤ n)
    (hm : m < 2 ^ (8 * n - (n + r) - 1)) :
    ∃ h0 tl, toBytesBE n (onesPrefix n (n + r) m) = h0 :: tl ∧ 256 - 2 ^ (7 - r) ≤ h0.toNat := by
  obtain ⟨hbytes, hq⟩ := toBytesBE_onesPrefix (show n + r < 8 * n by omega) hm
  rw [hbytes]
  cases hj : (n + r) / 8 with
  | zero =>
    -- all the ones are in the first byte, and there are more than `r` of them
    have hi : (n + r) % 8 = n + r := by omega
    refine ⟨_, _, rfl, ?_⟩
    have hpow : 2 ^ (8 - (n + r) % 8) ≤ 2 ^ (7 - r) := Nat.pow_le_pow_right (by decide) (by omega)
    have hlt : 2 ^ (8 - (n + r) % 8) ≤ 256 := le_trans hpow
      (by calc 2 ^ (7 - r) ≤ 2 ^ 7 := Nat.pow_le_pow_right (by decide) (by omega)
            _ ≤ 256 := by decide)
    have hq' : m / 256 ^ (n - 0 - 1) < 2 ^ (8 - (n + r) % 8) := by
      rw [← hj]
      exact lt_of_lt_of_le hq (Nat.pow_le_pow_right (by decide) (by omega))
    rw [UInt8.toNat_ofNat', Nat.mod_eq_of_lt (by simp only [Nat.reducePow]; omega)]
    generalize 2 ^ (7 - r) = A at *
    generalize 2 ^ (8 - (n + r) % 8) = B at *
    generalize m / 256 ^ (n - 0 - 1) = G at *
    omega
  | succ j =>
    have : 1 ≤ 2 ^ (7 - r) := Nat.one_le_two_pow
    exact ⟨0xff, _, rfl, by simp only [UInt8.reduceToNat]; omega⟩

/-- The decoder reads back every number from its encoding, whatever follows it, and reports the
length of the encoding. -/
theorem decodeFromComparable_encodeToComparable (v : Int) {r : Nat} (hr : r < 7)
    (rest : List UInt8) :
    decodeFromComparable (encodeToComparable v r ++ rest) r =
      .ok (v, (encodeToComparable v r).length) := by
  by_cases hv : v = 0
  · obtain ⟨hsign, b, hb, hbff, hclear⟩ := zero_header ⟨r, hr⟩
    subst hv
    simp only [encodeToComparable, if_true, List.singleton_append, List.length_singleton]
    unfold decodeFromComparable
    dsimp only
    rw [if_neg hsign, restoreReservedBits_cons, hb, List.singleton_append, leadingFullBytes,
      if_neg hbff]
    dsimp only
    rw [List.getD_cons_zero, hclear]
    dsimp only
    rw [if_neg (by simp)]
    simp [bnBin2bn, ofBytesBE]
  -- a nonzero number: `n` bytes, whose header has `n + r` ones
  have hsize : v.natAbs < 2 ^ bnNumBits v.natAbs := Nat.lt_size_self _
  have hpos : 0 < v.natAbs := Int.natAbs_pos.mpr hv
  have hbits : 1 ≤ bnNumBits v.natAbs := Nat.size_pos.mpr hpos
  generalize hn : (bnNumBits v.natAbs + 1 + r + 6) / 7 = n
  have henc := encodeToComparable_of_ne_zero hv r hr
  simp only [hn] at henc
  have hn1 : 1 ≤ n := by omega
  have hm : v.natAbs < 2 ^ (8 * n - (n + r) - 1) :=
    lt_of_lt_of_le hsize (Nat.pow_le_pow_right (by decide) (by omega))
  obtain ⟨h0, tl, hbytes, htop⟩ := head_onesPrefix hr hn1 hm
  obtain ⟨hsign, hrestore, hsign', hrestore'⟩ := reserved_of_top ⟨r, hr⟩ h0 htop
  dsimp only at hsign hrestore hsign' hrestore'
  have hlen : (h0 :: tl).length = n := hbytes ▸ length_toBytesBE _ _
  have hlenEnc : (encodeToComparable v r).length = n := by
    rw [henc, length_resetReservedBits, hbytes]
    split
    · simp only [flipBits, List.length_map]
      exact hlen
    · exact hlen
  rw [hlenEnc, henc, hbytes]
  by_cases hneg : v < 0
  · -- a negative number is read through the complement of its slice
    have hslice : resetReservedBits r (flipBits (h0 :: tl)) ++ rest =
        (resetReservedBits r [~~~h0]).headD 0 :: (flipBits tl ++ rest) := by
      rw [flipBits, List.map_cons, resetReservedBits_cons, resetReservedBits_singleton]
      rfl
    have hflip : flipBits ((resetReservedBits r [~~~h0]).headD 0 :: (flipBits tl ++ rest)) =
        ~~~(resetReservedBits r [~~~h0]).headD 0 :: (tl ++ flipBits rest) := by
      simp [flipBits, Function.comp_def]
    rw [if_pos hneg, hslice, decodeFromComparable_of_buffer hr hn1 hm (flipBits rest),
      if_pos hsign']
    · rw [show -((v.natAbs : Nat) : Int) = v by omega]
    · rw [if_pos hsign', hflip, restoreReservedBits_cons,
        ← restoreReservedBits_flip_singleton, hrestore', hbytes]
      rfl
    · simp only [List.length_cons, List.length_append, flipBits, List.length_map] at hlen ⊢
      omega
  · -- a positive number is read as it is
    have hslice : resetReservedBits r (h0 :: tl) ++ rest =
        (resetReservedBits r [h0]).headD 0 :: (tl ++ rest) := by
      rw [resetReservedBits_cons, resetReservedBits_singleton]
      rfl
    rw [if_neg hneg, hslice, decodeFromComparable_of_buffer hr hn1 hm rest,
      if_neg hsign]
    · rw [show ((v.natAbs : Nat) : Int) = v by omega]
    · rw [if_neg hsign, restoreReservedBits_cons, ← resetReservedBits_singleton, hrestore, hbytes]
      rfl
    · simp only [List.length_cons, List.length_append] at hlen ⊢
      omega

/-! The order of the encoding: a word of ones over the magnitude, reset or complemented. -/

set_option maxRecDepth 10000 in
theorem zero_onesPrefix : ∀ r : Fin 7, [UInt8.ofNat (0x80 >>> r.val)] =
    resetReservedBits r.val (toBytesBE 1 (onesPrefix 1 (1 + r.val) 0)) := by
  decide

theorem toNat_and_belowReserved {r : Nat} (hr : r ≤ 8) (x : UInt8) :
    (x &&& belowReserved r).toNat = x.toNat % 2 ^ (8 - r) := by
  have hlt : 2 ^ (8 - r) - 1 < 2 ^ 8 := by
    have : 2 ^ (8 - r) ≤ 2 ^ 8 := Nat.pow_le_pow_right (by decide) (by omega)
    omega
  rw [UInt8.toNat_and, belowReserved, UInt8.toNat_ofNat', Nat.mod_eq_of_lt hlt,
    Nat.and_two_pow_sub_one_eq_mod]

theorem resetReservedBits_cons_toNat {r : Nat} (hr : r ≤ 8) (c : UInt8) (tl : List UInt8) :
    ∃ c', resetReservedBits r (c :: tl) = c' :: tl ∧ c'.toNat = c.toNat % 2 ^ (8 - r) := by
  unfold resetReservedBits
  split
  · exact ⟨_, rfl, toNat_and_belowReserved hr c⟩
  · rename_i h0
    have h0 : r = 0 := by simpa using h0
    subst h0
    exact ⟨c, rfl, (Nat.mod_eq_of_lt c.toNat_lt).symm⟩

theorem numBytes_mono (r : Nat) {a b : Nat} (h : a ≤ b) :
    (bnNumBits a + 1 + r + 6) / 7 ≤ (bnNumBits b + 1 + r + 6) / 7 :=
  Nat.div_le_div_right (by have := Nat.size_le_size h; unfold bnNumBits; omega)

theorem magnitude_lt (r m : Nat) :
    m < 2 ^ (8 * ((bnNumBits m + 1 + r + 6) / 7) - ((bnNumBits m + 1 + r + 6) / 7 + r) - 1) :=
  lt_of_lt_of_le (Nat.lt_size_self m) (Nat.pow_le_pow_right (by decide) (by unfold bnNumBits; omega))

/-- A number that is not negative: the reserved bits reset on a word of `n + r` ones over the
magnitude; zero is the word of one byte over a zero magnitude. -/
theorem encodeToComparable_of_nonneg {v : Int} (hv : 0 ≤ v) {r : Nat} (hr : r < 7) :
    let n := (bnNumBits v.natAbs + 1 + r + 6) / 7
    encodeToComparable v r = resetReservedBits r (toBytesBE n (onesPrefix n (n + r) v.natAbs)) := by
  intro n
  rcases hv.lt_or_eq with hpos | rfl
  · rw [encodeToComparable_of_ne_zero (by omega) r hr, if_neg (by omega)]
  · have hn : n = 1 := by
      change (Nat.size 0 + 1 + r + 6) / 7 = 1
      rw [Nat.size_zero]
      omega
    have hz := zero_onesPrefix ⟨r, hr⟩
    dsimp only at hz
    rw [hn, Int.natAbs_zero, ← hz]
    simp [encodeToComparable]

/-- A negative number: the complement of the word of its magnitude, whose reserved bits are
already clear. -/
theorem encodeToComparable_of_neg {v : Int} (hv : v < 0) {r : Nat} (hr : r < 7) :
    let n := (bnNumBits v.natAbs + 1 + r + 6) / 7
    encodeToComparable v r = flipBits (toBytesBE n (onesPrefix n (n + r) v.natAbs)) := by
  intro n
  have hn1 : 1 ≤ n := by omega
  obtain ⟨h0, tl, hbytes, htop⟩ := head_onesPrefix hr hn1 (magnitude_lt r v.natAbs)
  rw [encodeToComparable_of_ne_zero (by omega) r hr, if_pos hv, hbytes, flipBits, List.map_cons]
  obtain ⟨c', hc', hc'n⟩ := resetReservedBits_cons_toNat (show r ≤ 8 by omega) (~~~h0)
    (tl.map (~~~·))
  rw [hc']
  congr 1
  apply UInt8.toNat_inj.mp
  have h7 : 2 ^ (7 - r) ≤ 2 ^ (8 - r) := Nat.pow_le_pow_right (by decide) (by omega)
  rw [hc'n, UInt8.toNat_not, Nat.mod_eq_of_lt (by have := h0.toNat_lt; simp only [UInt8.size] at *; omega)]

theorem mod_two_pow_of_top {r x : Nat} (hr : r ≤ 8) (hlo : 256 - 2 ^ (8 - r) ≤ x) (hx : x < 256) :
    x % 2 ^ (8 - r) = x - (256 - 2 ^ (8 - r)) := by
  have h256 : 2 ^ (8 - r) * 2 ^ r = 256 := by
    rw [← Nat.pow_add, Nat.sub_add_cancel hr]
  have hmul : 2 ^ (8 - r) * (2 ^ r - 1) = 256 - 2 ^ (8 - r) := by
    rw [Nat.mul_sub_one, h256]
  obtain ⟨t, ht⟩ : ∃ t, x = 2 ^ (8 - r) * (2 ^ r - 1) + t := ⟨x - (256 - 2 ^ (8 - r)), by omega⟩
  have htP : t < 2 ^ (8 - r) := by omega
  rw [ht, Nat.mul_add_mod, Nat.mod_eq_of_lt htP]
  omega

/-- The first byte of an encoding: its reserved bits are clear, and the bit under them is set
exactly for a number that is not negative. -/
theorem head_encodeToComparable (v : Int) {r : Nat} (hr : r < 7) :
    ∃ c tl, encodeToComparable v r = c :: tl ∧ c.toNat < 2 ^ (8 - r) ∧
      (0 ≤ v ↔ 2 ^ (7 - r) ≤ c.toNat) := by
  have hn1 : 1 ≤ (bnNumBits v.natAbs + 1 + r + 6) / 7 := by omega
  obtain ⟨h0, tl, hbytes, htop⟩ := head_onesPrefix hr hn1 (magnitude_lt r v.natAbs)
  have h8 : 2 ^ (8 - r) = 2 * 2 ^ (7 - r) := by
    rw [← Nat.pow_succ']
    congr 1
    omega
  have hle : 2 ^ (8 - r) ≤ 256 := by
    calc 2 ^ (8 - r) ≤ 2 ^ 8 := Nat.pow_le_pow_right (by decide) (by omega)
      _ = 256 := rfl
  have hh0 : h0.toNat < 256 := h0.toNat_lt
  by_cases hv : 0 ≤ v
  · rw [encodeToComparable_of_nonneg hv hr, hbytes]
    obtain ⟨c', hc', hc'n⟩ := resetReservedBits_cons_toNat (show r ≤ 8 by omega) h0 tl
    have hmod := mod_two_pow_of_top (show r ≤ 8 by omega) (by omega) hh0
    refine ⟨c', tl, hc', ?_, ?_⟩
    · rw [hc'n]
      exact Nat.mod_lt _ (Nat.pow_pos (by decide))
    · simp only [hv, true_iff]
      rw [hc'n, hmod]
      omega
  · rw [encodeToComparable_of_neg (by omega) hr, hbytes]
    refine ⟨~~~h0, tl.map (~~~·), rfl, ?_, ?_⟩
    · rw [UInt8.toNat_not, show UInt8.size = 256 from rfl]
      omega
    · simp only [hv, false_iff, not_le]
      rw [UInt8.toNat_not, show UInt8.size = 256 from rfl]
      omega

/-- The reset of the reserved bits keeps the order of two strings whose first bytes have them
set. -/
theorem diffLt_resetReservedBits {r : Nat} (hr : r ≤ 8) {c d : UInt8} {x y : List UInt8}
    (h : DiffLt (c :: x) (d :: y)) (hc : 256 - 2 ^ (8 - r) ≤ c.toNat)
    (hd : 256 - 2 ^ (8 - r) ≤ d.toNat) :
    DiffLt (VarInt.resetReservedBits r (c :: x)) (VarInt.resetReservedBits r (d :: y)) := by
  obtain ⟨c', hc', hc'n⟩ := resetReservedBits_cons_toNat hr c x
  obtain ⟨d', hd', hd'n⟩ := resetReservedBits_cons_toNat hr d y
  rw [hc', hd', mod_two_pow_of_top hr hc c.toNat_lt] at *
  rw [mod_two_pow_of_top hr hd d.toNat_lt] at hd'n
  obtain ⟨p, e, f, x', y', h1, h2, hef⟩ := h
  cases p with
  | nil =>
    -- the first bytes differ
    obtain ⟨rfl, rfl⟩ := List.cons.inj h1
    obtain ⟨rfl, rfl⟩ := List.cons.inj h2
    refine ⟨[], c', d', x, y, rfl, rfl, ?_⟩
    rw [UInt8.lt_iff_toNat_lt] at hef ⊢
    omega
  | cons q p =>
    -- the first bytes agree, and so do their resets
    obtain ⟨rfl, rfl⟩ := List.cons.inj h1
    obtain ⟨hqd, rfl⟩ := List.cons.inj h2
    subst hqd
    have hcd : c' = d' := UInt8.toNat_inj.mp (by omega)
    subst hcd
    exact ⟨c' :: p, e, f, x', y', rfl, rfl, hef⟩

theorem diffLt_encodeToComparable {a b : Int} (h : a < b) {r : Nat} (hr : r < 7) :
    DiffLt (encodeToComparable a r) (encodeToComparable b r) := by
  have hma := magnitude_lt r a.natAbs
  have hmb := magnitude_lt r b.natAbs
  -- the words sort by the magnitudes, their lengths first
  have hwords : ∀ {x y : Nat}, x < y →
      DiffLt (toBytesBE ((bnNumBits x + 1 + r + 6) / 7)
          (onesPrefix ((bnNumBits x + 1 + r + 6) / 7) ((bnNumBits x + 1 + r + 6) / 7 + r) x))
        (toBytesBE ((bnNumBits y + 1 + r + 6) / 7)
          (onesPrefix ((bnNumBits y + 1 + r + 6) / 7) ((bnNumBits y + 1 + r + 6) / 7 + r) y)) := by
    intro x y hxy
    have hn := numBytes_mono r hxy.le
    apply diffLt_onesPrefix_ones (by omega) (magnitude_lt r x) (by omega) (magnitude_lt r y)
    omega
  by_cases ha : 0 ≤ a
  · -- both not negative: the reset keeps the order of the words
    have hb : 0 ≤ b := by omega
    rw [encodeToComparable_of_nonneg ha hr, encodeToComparable_of_nonneg hb hr]
    obtain ⟨c, x, hc, hctop⟩ := head_onesPrefix hr (by omega) hma
    obtain ⟨d, y, hd, hdtop⟩ := head_onesPrefix hr (by omega) hmb
    have hw := hwords (show a.natAbs < b.natAbs by omega)
    rw [hc, hd] at hw ⊢
    have h7 : 2 ^ (7 - r) ≤ 2 ^ (8 - r) := Nat.pow_le_pow_right (by decide) (by omega)
    exact diffLt_resetReservedBits (by omega) hw (by omega) (by omega)
  · by_cases hb : 0 ≤ b
    · -- a negative number against one that is not: the bit under the reserved ones decides
      obtain ⟨c, x, hc, -, hca⟩ := head_encodeToComparable a hr
      obtain ⟨d, y, hd, -, hdb⟩ := head_encodeToComparable b hr
      rw [hc, hd]
      refine ⟨[], c, d, x, y, rfl, rfl, ?_⟩
      rw [UInt8.lt_iff_toNat_lt]
      have := hdb.mp hb
      have := mt hca.mpr ha
      omega
    · -- both negative: the larger magnitude is the smaller number, and the words are complemented
      rw [encodeToComparable_of_neg (by omega) hr, encodeToComparable_of_neg (by omega) hr]
      exact (hwords (show b.natAbs < a.natAbs by omega)).complement

theorem flipBits_encodeToComparable {a : Int} (ha : a ≠ 0) :
    flipBits (encodeToComparable a 0) = encodeToComparable (-a) 0 := by
  have hreset : ∀ data, VarInt.resetReservedBits 0 data = data := fun _ => rfl
  rcases lt_or_gt_of_ne ha with hneg | hpos
  · rw [encodeToComparable_of_neg hneg (by decide),
      encodeToComparable_of_nonneg (by omega : (0 : Int) ≤ -a) (by decide), flipBits_flipBits,
      hreset, Int.natAbs_neg]
  · rw [encodeToComparable_of_nonneg hpos.le (by decide),
      encodeToComparable_of_neg (by omega : -a < 0) (by decide), hreset, Int.natAbs_neg]

theorem compare_encodeToComparable_eq_lt_iff (a b : Int) {r : Nat} (hr : r < 7) :
    compare (encodeToComparable a r) (encodeToComparable b r) = .lt ↔ a < b := by
  constructor
  · intro h
    by_contra hab
    rcases (not_lt.mp hab).lt_or_eq with hba | rfl
    · rw [(diffLt_encodeToComparable hba hr).compare_eq_gt] at h
      cases h
    · simp at h
  · intro h
    exact (diffLt_encodeToComparable h hr).compare_eq_lt

/-- The comparable encoding of `VarInt` with the reserved bits the keys use: it decodes back with
its length, whatever follows it, leaves the reserved bits clear, sorts as the numbers do, and
without reserved bits its complement is the encoding of the negated number. -/
theorem encodeToComparable_roundTrip_and_order (a b : Int) {r : Nat} (hr : r = 0 ∨ r = 2)
    (rest : List UInt8) :
    decodeFromComparable (encodeToComparable a r ++ rest) r =
        .ok (a, (encodeToComparable a r).length) ∧
      (∃ c tl, encodeToComparable a r = c :: tl ∧ c.toNat < 2 ^ (8 - r)) ∧
      (a < b ↔ compare (encodeToComparable a r) (encodeToComparable b r) = .lt) ∧
      (a ≠ 0 → flipBits (encodeToComparable a 0) = encodeToComparable (-a) 0) := by
  have hr7 : r < 7 := by omega
  obtain ⟨c, tl, hc, hcr, -⟩ := head_encodeToComparable a hr7
  exact ⟨decodeFromComparable_encodeToComparable a hr7 rest, ⟨c, tl, hc, hcr⟩,
    (compare_encodeToComparable_eq_lt_iff a b hr7).symm, flipBits_encodeToComparable⟩

/-- Five, with two reserved bits, and its complement without them. -/
theorem encodeToComparable_complement_five :
    ((2 : Nat) = 0 ∨ (2 : Nat) = 2) ∧ (5 : Int) ≠ 0 ∧
      flipBits (encodeToComparable 5 0) = encodeToComparable (-5) 0 :=
  ⟨.inr rfl, by decide, (encodeToComparable_roundTrip_and_order 5 7 (.inr rfl) []).2.2.2 (by decide)⟩

end VarInt

end FrescoDB.Util
