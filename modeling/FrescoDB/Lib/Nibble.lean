import FrescoDB.Lib.BigEndian

/-! Nibbles of a byte, and the order of byte strings of one width. `(x & 0xF0) >> 4` is the high
nibble, `(x & 0x0F) << 4` moves the low nibble up, and the `|` of a byte whose low nibble is clear
with a nibble is their sum: so every byte of a nibble shuffle is a small sum of quotients and
remainders by 16, and the strings compare as the numbers they write. -/
namespace FrescoDB.Lib

set_option maxRecDepth 8192 in
theorem toNat_hiNibble (x : UInt8) : ((x &&& 0xF0) >>> 4).toNat = x.toNat / 16 := by
  have hx := x.toNat_lt
  rw [UInt8.toNat_shiftRight, UInt8.toNat_and]
  have key : ∀ n < 256, (n &&& 240) >>> (4 % 8) = n / 16 := by decide
  exact key _ hx

set_option maxRecDepth 8192 in
theorem toNat_loNibble (x : UInt8) : ((x &&& 0x0F) <<< 4).toNat = x.toNat % 16 * 16 := by
  have hx := x.toNat_lt
  rw [UInt8.toNat_shiftLeft, UInt8.toNat_and]
  have key : ∀ n < 256, ((n &&& 15) <<< (4 % 8)) % 2 ^ 8 = n % 16 * 16 := by decide
  exact key _ hx

set_option maxRecDepth 8192 in
theorem toNat_and_f0 (x : UInt8) : (x &&& 0xF0).toNat = x.toNat / 16 * 16 := by
  have hx := x.toNat_lt
  rw [UInt8.toNat_and]
  have key : ∀ n < 256, n &&& 240 = n / 16 * 16 := by decide
  exact key _ hx

theorem toNat_and_0f (x : UInt8) : (x &&& 0x0F).toNat = x.toNat % 16 := by
  rw [UInt8.toNat_and]
  exact Nat.and_two_pow_sub_one_eq_mod _ 4

theorem toNat_or_nibble {x y : UInt8} (hx : x.toNat % 16 = 0) (hy : y.toNat < 16) :
    (x ||| y).toNat = x.toNat + y.toNat := by
  rw [UInt8.toNat_or]
  have h := Nat.two_pow_add_eq_or_of_lt (show y.toNat < 2 ^ 4 from hy) (x.toNat / 16)
  have hx' : 2 ^ 4 * (x.toNat / 16) = x.toNat := by omega
  rw [hx'] at h
  exact h.symm

set_option maxRecDepth 8192 in
theorem toNat_and_0f_or_0x10 (x : UInt8) : ((x &&& 0x0F) ||| 0x10).toNat = x.toNat % 16 + 16 := by
  have hx := x.toNat_lt
  rw [UInt8.toNat_or, UInt8.toNat_and]
  have key : ∀ n < 256, (n &&& 15 ||| 16) = n % 16 + 16 := by decide
  exact key _ hx

set_option maxRecDepth 8192 in
theorem and_0f_or_0x10_and_0f (x : UInt8) : ((x &&& 0x0F) ||| 0x10) &&& 0x0F = x &&& 0x0F := by
  have hx := x.toNat_lt
  apply UInt8.toNat_inj.mp
  rw [UInt8.toNat_and, UInt8.toNat_or, UInt8.toNat_and]
  have key : ∀ n < 256, ((n &&& 15 ||| 16) &&& 15) = n &&& 15 := by decide
  exact key _ hx

theorem toNat_or_lo_hi (x y : UInt8) :
    ((x &&& 0x0F) <<< 4 ||| (y &&& 0xF0) >>> 4).toNat = x.toNat % 16 * 16 + y.toNat / 16 := by
  have hy : ((y &&& 0xF0) >>> 4).toNat < 16 := by rw [toNat_hiNibble]; have := y.toNat_lt; omega
  rw [toNat_or_nibble (by rw [toNat_loNibble]; omega) hy, toNat_loNibble, toNat_hiNibble]

theorem toNat_or_and_hi (x y : UInt8) :
    ((x &&& (0xF0 : UInt8)) ||| (y &&& 0xF0) >>> 4).toNat = x.toNat / 16 * 16 + y.toNat / 16 := by
  have hy : ((y &&& 0xF0) >>> 4).toNat < 16 := by rw [toNat_hiNibble]; have := y.toNat_lt; omega
  rw [toNat_or_nibble (by rw [toNat_and_f0]; omega) hy, toNat_and_f0, toNat_hiNibble]

theorem toNat_or_lo_and (x y : UInt8) :
    ((x &&& 0x0F) <<< 4 ||| (y &&& 0x0F)).toNat = x.toNat % 16 * 16 + y.toNat % 16 := by
  have hy : (y &&& 0x0F).toNat < 16 := by rw [toNat_and_0f]; omega
  rw [toNat_or_nibble (by rw [toNat_loNibble]; omega) hy, toNat_loNibble, toNat_and_0f]

theorem toNat_or_and_and (x y : UInt8) :
    ((x &&& 0xF0) ||| (y &&& 0x0F)).toNat = x.toNat / 16 * 16 + y.toNat % 16 := by
  have hy : (y &&& 0x0F).toNat < 16 := by rw [toNat_and_0f]; omega
  rw [toNat_or_nibble (by rw [toNat_and_f0]; omega) hy, toNat_and_f0, toNat_and_0f]

theorem compare_congr_of_iff {a b c d : Nat} (hlt : a < b ↔ c < d) (heq : a = b ↔ c = d) :
    compare a b = compare c d := by
  rcases lt_trichotomy a b with h | h | h
  · rw [Nat.compare_eq_lt.mpr h, Nat.compare_eq_lt.mpr (hlt.mp h)]
  · rw [Nat.compare_eq_eq.mpr h, Nat.compare_eq_eq.mpr (heq.mp h)]
  · have hcd : d < c := by
      rcases lt_trichotomy c d with h' | h' | h'
      · exact absurd (hlt.mpr h') (by omega)
      · exact absurd (heq.mpr h') (by omega)
      · exact h'
    rw [Nat.compare_eq_gt.mpr h, Nat.compare_eq_gt.mpr hcd]

/-! Byte strings of one width. -/

theorem compare_eq_compare_ofBytesBE {xs ys : List UInt8} (h : xs.length = ys.length) :
    compare xs ys = compare (ofBytesBE xs) (ofBytesBE ys) := by
  conv_lhs => rw [← toBytesBE_ofBytesBE xs, ← toBytesBE_ofBytesBE ys, ← h]
  exact compare_toBytesBE _ _ _ (ofBytesBE_lt xs) (h ▸ ofBytesBE_lt ys)

theorem compare_append_of_length_eq {α : Type} [Ord α] :
    ∀ {xs ys : List α}, xs.length = ys.length → ∀ r r' : List α,
      compare (xs ++ r) (ys ++ r') = (compare xs ys).then (compare r r')
  | [], [], _, r, r' => by simp [List.compare_nil_nil]
  | x :: xs, y :: ys, h, r, r' => by
    rw [List.cons_append, List.cons_append, List.compare_cons_cons, List.compare_cons_cons,
      compare_append_of_length_eq (by simpa using h) r r', Ordering.then_assoc]

end FrescoDB.Lib
