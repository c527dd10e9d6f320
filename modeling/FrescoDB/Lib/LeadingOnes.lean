import FrescoDB.Lib.BigEndian
import FrescoDB.Lib.LexOrder

/-! Big-endian words that start with a run of one bits.
Self-delimiting integer encodings write their length in unary in the top bits
of the first bytes: a word of `n` bytes whose top `k` bits are ones and whose
low bits carry a magnitude `m`. This file gives the bytes of such a word (full
`0xff` bytes, one byte that mixes ones and magnitude, then the magnitude's
low bytes), the bytes of a number below a power of 256 (leading zero bytes),
and the bytes of the complement of a word. -/
namespace FrescoDB.Lib

/-- The word of `n` bytes whose top `k` bits are ones, with `m` in the bits below them. -/
def onesPrefix (n k m : Nat) : Nat := 2 ^ (8 * n) - 2 ^ (8 * n - k) + m

theorem two_pow_eight_mul (n : Nat) : 2 ^ (8 * n) = 256 ^ n := by
  rw [Nat.pow_mul]

/-- The ones of `onesPrefix` split as `j` full bytes and `i` bits of the next byte, with `t`
bytes after it. -/
theorem onesPrefix_split (j i t m : Nat) (hi : i ≤ 8) :
    onesPrefix (j + 1 + t) (8 * j + i) m = (256 ^ (j + 1) - 2 ^ (8 - i)) * 256 ^ t + m := by
  have hexp : 8 * (j + 1 + t) - (8 * j + i) = (8 - i) + 8 * t := by omega
  have hle : 2 ^ (8 - i) ≤ 256 ^ (j + 1) := by
    calc 2 ^ (8 - i) ≤ 2 ^ 8 := Nat.pow_le_pow_right (by decide) (by omega)
      _ = 256 ^ 1 := rfl
      _ ≤ 256 ^ (j + 1) := Nat.pow_le_pow_right (by decide) (by omega)
  unfold onesPrefix
  rw [hexp, Nat.pow_add, two_pow_eight_mul, two_pow_eight_mul,
    show j + 1 + t = (j + 1) + t from rfl, Nat.pow_add, Nat.sub_mul]

theorem onesPrefix_lt {n k m : Nat} (hk : k ≤ 8 * n) (hm : m < 2 ^ (8 * n - k)) :
    onesPrefix n k m < 256 ^ n := by
  have hle : 2 ^ (8 * n - k) ≤ 2 ^ (8 * n) := Nat.pow_le_pow_right (by decide) (by omega)
  unfold onesPrefix
  rw [← two_pow_eight_mul]
  omega

theorem toBytesBE_replicate_zero (a : Nat) {b m : Nat} (hm : m < 256 ^ b) :
    toBytesBE (a + b) m = List.replicate a 0 ++ toBytesBE b m := by
  induction a with
  | zero => simp
  | succ a ih =>
    have hpow : 256 ^ b ≤ 256 ^ (a + b) := Nat.pow_le_pow_right (by decide) (by omega)
    have hzero : m / 256 ^ (a + b) = 0 := Nat.div_eq_of_lt (by omega)
    rw [show a + 1 + b = (a + b) + 1 by omega, toBytesBE, hzero, ih]
    rfl

theorem toBytesBE_succ_of_lt {w x : Nat} (hx : x < 256 ^ (w + 1)) :
    toBytesBE (w + 1) x = UInt8.ofNat (x / 256 ^ w) :: toBytesBE w (x % 256 ^ w) := by
  have hq : x / 256 ^ w < 256 := by
    rw [Nat.div_lt_iff_lt_mul (Nat.pow_pos (by decide))]
    rw [Nat.pow_succ] at hx
    linarith
  rw [toBytesBE, Nat.mod_eq_of_lt hq, toBytesBE_mod]

theorem toBytesBE_onesWord (j t : Nat) {i m : Nat} (hi : i ≤ 8) (hm : m < 2 ^ (8 - i) * 256 ^ t) :
    toBytesBE (j + 1 + t) ((256 ^ (j + 1) - 2 ^ (8 - i)) * 256 ^ t + m) =
      List.replicate j 0xff ++ UInt8.ofNat (256 - 2 ^ (8 - i) + m / 256 ^ t) :: toBytesBE t m := by
  have hpos : 0 < 256 ^ t := Nat.pow_pos (by decide)
  have hbit : 2 ^ (8 - i) ≤ 256 := by
    calc 2 ^ (8 - i) ≤ 2 ^ 8 := Nat.pow_le_pow_right (by decide) (by omega)
      _ = 256 := rfl
  have hbelow : 2 ^ (8 - i) * 256 ^ t ≤ 256 * 256 ^ t := Nat.mul_le_mul_right _ hbit
  induction j with
  | zero =>
    have hq : m / 256 ^ t < 2 ^ (8 - i) := by
      rw [Nat.div_lt_iff_lt_mul hpos]
      exact hm
    have hsub := Nat.sub_mul 256 (2 ^ (8 - i)) (256 ^ t)
    have hx : (256 - 2 ^ (8 - i)) * 256 ^ t + m < 256 ^ (t + 1) := by
      rw [Nat.pow_succ]
      omega
    rw [show 0 + 1 + t = t + 1 by omega, Nat.zero_add, Nat.pow_one, toBytesBE_succ_of_lt hx,
      Nat.add_comm, Nat.add_mul_div_right _ _ hpos, Nat.add_mul_mod_self_right, toBytesBE_mod,
      Nat.add_comm]
    rfl
  | succ j ih =>
    -- one more full byte of ones in front of the word of `j` full bytes
    have hle : 2 ^ (8 - i) ≤ 256 ^ (j + 1) := le_trans hbit (Nat.le_self_pow (by omega) _)
    have hle' : 2 ^ (8 - i) * 256 ^ t ≤ 256 ^ (j + 1) * 256 ^ t := Nat.mul_le_mul_right _ hle
    have hsub := Nat.sub_mul (256 ^ (j + 1)) (2 ^ (8 - i)) (256 ^ t)
    have hsub' := Nat.sub_mul (256 * 256 ^ (j + 1)) (2 ^ (8 - i)) (256 ^ t)
    have hassoc : 256 * 256 ^ (j + 1) * 256 ^ t = 256 * (256 ^ (j + 1) * 256 ^ t) :=
      Nat.mul_assoc _ _ _
    have hlow : (256 ^ (j + 1) - 2 ^ (8 - i)) * 256 ^ t + m < 256 ^ (j + 1 + t) := by
      rw [Nat.pow_add 256 (j + 1) t]
      omega
    have hsplit : (256 * 256 ^ (j + 1) - 2 ^ (8 - i)) * 256 ^ t + m =
        255 * 256 ^ (j + 1 + t) + ((256 ^ (j + 1) - 2 ^ (8 - i)) * 256 ^ t + m) := by
      rw [Nat.pow_add 256 (j + 1) t]
      omega
    have hx : 255 * 256 ^ (j + 1 + t) + ((256 ^ (j + 1) - 2 ^ (8 - i)) * 256 ^ t + m) <
        256 ^ (j + 1 + t + 1) := by
      rw [Nat.pow_succ 256 (j + 1 + t)]
      omega
    have hpos' : 0 < 256 ^ (j + 1 + t) := Nat.pow_pos (by decide)
    rw [show j + 1 + 1 + t = (j + 1 + t) + 1 by omega, show 256 ^ (j + 1 + 1) =
      256 * 256 ^ (j + 1) by rw [Nat.pow_succ, Nat.mul_comm], hsplit, toBytesBE_succ_of_lt hx,
      Nat.add_comm, Nat.add_mul_div_right _ _ hpos', Nat.div_eq_of_lt hlow,
      Nat.add_mul_mod_self_right, Nat.mod_eq_of_lt hlow, ih]
    rfl

theorem toBytesBE_complement (w : Nat) {x : Nat} (hx : x < 256 ^ w) :
    (toBytesBE w x).map (~~~·) = toBytesBE w (256 ^ w - 1 - x) := by
  induction w generalizing x with
  | zero => rfl
  | succ w ih =>
    have hpos : 0 < 256 ^ w := Nat.pow_pos (by decide)
    have hq : x / 256 ^ w < 256 := by
      rw [Nat.div_lt_iff_lt_mul hpos]
      rw [Nat.pow_succ] at hx
      linarith
    have hr : x % 256 ^ w < 256 ^ w := Nat.mod_lt _ hpos
    have hx' : x = 256 ^ w * (x / 256 ^ w) + x % 256 ^ w := (Nat.div_add_mod x _).symm
    -- split the complement at the head byte
    have hdecomp : 256 ^ (w + 1) - 1 - x =
        (255 - x / 256 ^ w) * 256 ^ w + (256 ^ w - 1 - x % 256 ^ w) := by
      have hsub := Nat.sub_mul 255 (x / 256 ^ w) (256 ^ w)
      have hle : x / 256 ^ w * 256 ^ w ≤ 255 * 256 ^ w := Nat.mul_le_mul_right _ (by omega)
      have hcomm : 256 ^ w * (x / 256 ^ w) = x / 256 ^ w * 256 ^ w := Nat.mul_comm _ _
      rw [Nat.pow_succ]
      omega
    have hy : 256 ^ (w + 1) - 1 - x < 256 ^ (w + 1) := by
      have : 0 < 256 ^ (w + 1) := Nat.pow_pos (by decide)
      omega
    have hs : 256 ^ w - 1 - x % 256 ^ w < 256 ^ w := by omega
    have hdiv : (256 ^ (w + 1) - 1 - x) / 256 ^ w = 255 - x / 256 ^ w := by
      rw [hdecomp, Nat.add_comm, Nat.add_mul_div_right _ _ hpos, Nat.div_eq_of_lt hs,
        Nat.zero_add]
    have hmod : (256 ^ (w + 1) - 1 - x) % 256 ^ w = 256 ^ w - 1 - x % 256 ^ w := by
      rw [hdecomp, Nat.add_comm, Nat.add_mul_mod_self_right, Nat.mod_eq_of_lt hs]
    rw [toBytesBE_succ_of_lt hx, toBytesBE_succ_of_lt hy, List.map_cons, ih hr, hdiv, hmod]
    congr 1
    apply UInt8.toNat_inj.mp
    rw [UInt8.toNat_not, UInt8.toNat_ofNat', UInt8.toNat_ofNat']
    simp only [UInt8.size, Nat.reducePow]
    omega

/-! The order of such words. A word of `n` bytes whose `n` top bits are ones, followed by a zero
bit, starts below every longer one: the length decides, then the magnitude. -/

theorem toBytesBE_add (a b x : Nat) :
    toBytesBE (a + b) x = toBytesBE a (x / 256 ^ b) ++ toBytesBE b x := by
  induction a with
  | zero => simp [toBytesBE]
  | succ a ih =>
    rw [show a + 1 + b = (a + b) + 1 by omega, toBytesBE, toBytesBE, ih, Nat.div_div_eq_div_mul,
      ← Nat.pow_add, Nat.add_comm b a]
    rfl

theorem diffLt_toBytesBE {w x y : Nat} (hxy : x < y) (hy : y < 256 ^ w) :
    DiffLt (toBytesBE w x) (toBytesBE w y) :=
  diffLt_of_compare_eq_lt (by simp)
    (by rw [compare_toBytesBE w x y (by omega) hy]; exact Nat.compare_eq_lt.2 hxy)

/-- The word of `n` bytes with its `n` top bits ones and a magnitude below the zero bit under
them. -/
theorem onesPrefix_bounds {n m : Nat} (hn : 1 ≤ n) (hm : m < 2 ^ (7 * n - 1)) :
    2 ^ (8 * n) - 2 ^ (7 * n) ≤ onesPrefix n n m ∧
      onesPrefix n n m < 2 ^ (8 * n) - 2 ^ (7 * n - 1) := by
  have h7 : 2 ^ (7 * n) = 2 * 2 ^ (7 * n - 1) := by
    rw [← Nat.pow_succ']
    congr 1
    omega
  have hle : 2 ^ (7 * n) ≤ 2 ^ (8 * n) := Nat.pow_le_pow_right (by decide) (by omega)
  unfold onesPrefix
  rw [show 8 * n - n = 7 * n by omega]
  omega

theorem onesPrefix_lt_pow {n m : Nat} (hn : 1 ≤ n) (hm : m < 2 ^ (7 * n - 1)) :
    onesPrefix n n m < 256 ^ n := by
  have := (onesPrefix_bounds hn hm).2
  rw [← two_pow_eight_mul]
  omega

/-- The word starts with its unary length: its first byte has at least its top `k` bits set, for
`k` up to the length and up to a byte. -/
theorem le_head_toBytesBE_onesPrefix {n k m : Nat} (hn : 1 ≤ n) (hk : k ≤ n) (hk8 : k ≤ 8)
    (hm : m < 2 ^ (7 * n - 1)) :
    ∃ c rest, toBytesBE n (onesPrefix n n m) = c :: rest ∧ 256 - 2 ^ (8 - k) ≤ c.toNat := by
  obtain ⟨t, rfl⟩ : ∃ t, n = t + 1 := ⟨n - 1, by omega⟩
  have hlo := (onesPrefix_bounds hn hm).1
  have hlt := onesPrefix_lt_pow hn hm
  refine ⟨_, _, toBytesBE_succ_of_lt hlt, ?_⟩
  -- the word is at least `(256 - 2 ^ (8 - k)) * 256 ^ t`, since `2 ^ (7 n) ≤ 2 ^ (8 n - k)`
  have hpow : (256 - 2 ^ (8 - k)) * 256 ^ t ≤ 2 ^ (8 * (t + 1)) - 2 ^ (7 * (t + 1)) := by
    have h1 : 2 ^ (8 * (t + 1)) = 256 * 256 ^ t := by
      rw [two_pow_eight_mul, Nat.pow_succ, Nat.mul_comm]
    have h2 : 2 ^ (7 * (t + 1)) ≤ 2 ^ (8 - k) * 256 ^ t := by
      calc 2 ^ (7 * (t + 1)) ≤ 2 ^ (8 - k + 8 * t) := Nat.pow_le_pow_right (by decide) (by omega)
        _ = 2 ^ (8 - k) * 256 ^ t := by rw [Nat.pow_add, two_pow_eight_mul]
    rw [Nat.sub_mul, h1]
    omega
  have hq : 256 - 2 ^ (8 - k) ≤ onesPrefix (t + 1) (t + 1) m / 256 ^ t :=
    (Nat.le_div_iff_mul_le (Nat.pow_pos (by decide))).mpr (by omega)
  have hq' : onesPrefix (t + 1) (t + 1) m / 256 ^ t < 256 := by
    rw [Nat.div_lt_iff_lt_mul (Nat.pow_pos (by decide))]
    rw [Nat.pow_succ] at hlt
    omega
  rw [UInt8.toNat_ofNat', Nat.mod_eq_of_lt hq']
  exact hq

theorem head_toBytesBE_onesPrefix {n m : Nat} (hn : 1 ≤ n) (hm : m < 2 ^ (7 * n - 1)) :
    ∃ c rest, toBytesBE n (onesPrefix n n m) = c :: rest ∧ 128 ≤ c.toNat := by
  obtain ⟨c, rest, hc, hle⟩ := @le_head_toBytesBE_onesPrefix n 1 m hn hn (by decide) hm
  exact ⟨c, rest, hc, hle⟩

/-- A word of `k` ones over a magnitude below the zero bit that follows them lies below the word
of `k + 1` ones. -/
theorem onesPrefix_lt_next {n k m : Nat} (hk : k < 8 * n) (hm : m < 2 ^ (8 * n - k - 1)) :
    onesPrefix n k m < 2 ^ (8 * n) - 2 ^ (8 * n - k - 1) := by
  have h2 : 2 ^ (8 * n - k) = 2 * 2 ^ (8 * n - k - 1) := by
    rw [← Nat.pow_succ']
    congr 1
    omega
  have hle : 2 ^ (8 * n - k) ≤ 2 ^ (8 * n) := Nat.pow_le_pow_right (by decide) (by omega)
  unfold onesPrefix
  omega

theorem diffLt_onesPrefix_ones {n₁ n₂ k₁ k₂ m₁ m₂ : Nat} (hk₁ : k₁ < 8 * n₁)
    (hm₁ : m₁ < 2 ^ (8 * n₁ - k₁ - 1)) (hk₂ : k₂ < 8 * n₂) (hm₂ : m₂ < 2 ^ (8 * n₂ - k₂ - 1))
    (h : n₁ < n₂ ∧ k₁ < k₂ ∨ n₁ = n₂ ∧ k₁ = k₂ ∧ m₁ < m₂) :
    DiffLt (toBytesBE n₁ (onesPrefix n₁ k₁ m₁)) (toBytesBE n₂ (onesPrefix n₂ k₂ m₂)) := by
  have hlt₂ : onesPrefix n₂ k₂ m₂ < 256 ^ n₂ :=
    onesPrefix_lt (by omega) (lt_of_lt_of_le hm₂ (Nat.pow_le_pow_right (by decide) (by omega)))
  rcases h with ⟨hn, hk⟩ | ⟨rfl, rfl, hm⟩
  · -- the shorter word is below the high bytes of the longer one, which have one more one
    obtain ⟨d, rfl⟩ : ∃ d, n₂ = n₁ + d := ⟨n₂ - n₁, by omega⟩
    have hpos : 0 < 2 ^ (8 * d) := Nat.pow_pos (by decide)
    have hhi₁ := onesPrefix_lt_next hk₁ hm₁
    have hmul : (2 ^ (8 * n₁) - 2 ^ (8 * n₁ - k₁ - 1)) * 2 ^ (8 * d) ≤
        2 ^ (8 * (n₁ + d)) - 2 ^ (8 * (n₁ + d) - k₂) := by
      rw [Nat.sub_mul, ← Nat.pow_add, ← Nat.pow_add, show 8 * n₁ + 8 * d = 8 * (n₁ + d) by ring]
      exact Nat.sub_le_sub_left (Nat.pow_le_pow_right (by decide) (by omega)) _
    have hlo₂ : 2 ^ (8 * (n₁ + d)) - 2 ^ (8 * (n₁ + d) - k₂) ≤ onesPrefix (n₁ + d) k₂ m₂ := by
      unfold onesPrefix
      omega
    have hhigh : 2 ^ (8 * n₁) - 2 ^ (8 * n₁ - k₁ - 1) ≤ onesPrefix (n₁ + d) k₂ m₂ / 256 ^ d := by
      rw [← two_pow_eight_mul]
      exact (Nat.le_div_iff_mul_le hpos).mpr (le_trans hmul hlo₂)
    have hbound : onesPrefix (n₁ + d) k₂ m₂ / 256 ^ d < 256 ^ n₁ := by
      rw [Nat.div_lt_iff_lt_mul (Nat.pow_pos (by decide)), ← Nat.pow_add]
      exact hlt₂
    rw [toBytesBE_add]
    simpa using (diffLt_toBytesBE (by omega) hbound).append [] (toBytesBE d _)
  · exact diffLt_toBytesBE (by unfold onesPrefix; omega) hlt₂

theorem diffLt_onesPrefix {n₁ n₂ m₁ m₂ : Nat} (hn₁ : 1 ≤ n₁) (hm₁ : m₁ < 2 ^ (7 * n₁ - 1))
    (hm₂ : m₂ < 2 ^ (7 * n₂ - 1)) (h : n₁ < n₂ ∨ n₁ = n₂ ∧ m₁ < m₂) :
    DiffLt (toBytesBE n₁ (onesPrefix n₁ n₁ m₁)) (toBytesBE n₂ (onesPrefix n₂ n₂ m₂)) := by
  have hexp : ∀ n, 1 ≤ n → 8 * n - n - 1 = 7 * n - 1 := fun n _ => by omega
  have hn₂ : 1 ≤ n₂ := by omega
  apply diffLt_onesPrefix_ones (by omega) (by rwa [hexp n₁ hn₁]) (by omega) (by rwa [hexp n₂ hn₂])
  omega

end FrescoDB.Lib
