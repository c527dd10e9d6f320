import FrescoDB.Lib.Escape

/-! Byte strings in the order of `memcmp`, a proper prefix first: the lexicographic `compare` of
`List UInt8`. A piece that stays below another whatever follows either decides the comparison of
two strings that start with them, and strings built piece by piece from such pieces compare as
their first pieces that differ. -/
namespace FrescoDB.Lib

/-- `a` is below `b` whatever follows each of them. -/
def PrefixLt (a b : List UInt8) : Prop := ∀ x y, compare (a ++ x) (b ++ y) = .lt

/-- `a` is `b`, or below it whatever follows each of them. -/
def PrefixLe (a b : List UInt8) : Prop := a = b ∨ PrefixLt a b

theorem prefixLt_of_head_lt {c d : UInt8} (h : c < d) (a b : List UInt8) :
    PrefixLt (c :: a) (d :: b) := by
  intro x y
  have hcd : compare c d = .lt := by
    rw [compare_uint8]
    exact Nat.compare_eq_lt.2 (UInt8.lt_iff_toNat_lt.1 h)
  rw [List.cons_append, List.cons_append, List.compare_cons_cons, hcd, Ordering.lt_then]

theorem PrefixLt.append {a b : List UInt8} (h : PrefixLt a b) (x y : List UInt8) :
    PrefixLt (a ++ x) (b ++ y) := by
  intro u v
  rw [List.append_assoc, List.append_assoc]
  exact h _ _

theorem PrefixLt.prefixLe {a b : List UInt8} (h : PrefixLt a b) : PrefixLe a b := .inr h

theorem PrefixLe.refl (a : List UInt8) : PrefixLe a a := .inl rfl

theorem PrefixLe.append {a b x y : List UInt8} (hab : PrefixLe a b) (hxy : PrefixLe x y) :
    PrefixLe (a ++ x) (b ++ y) := by
  rcases hab with rfl | hab
  · rcases hxy with rfl | hxy
    · exact .refl _
    · refine .inr fun u v => ?_
      rw [List.append_assoc, List.append_assoc, compare_append_left]
      exact hxy u v
  · exact .inr (hab.append x y)

theorem PrefixLe.flatten {as bs : List (List UInt8)} (h : List.Forall₂ PrefixLe as bs) :
    PrefixLe as.flatten bs.flatten := by
  induction h with
  | nil => exact .refl _
  | cons hab _ ih => exact hab.append ih

theorem PrefixLe.compare_append_ne_gt {a b x y : List UInt8} (h : PrefixLe a b)
    (hxy : compare x y ≠ .gt) : compare (a ++ x) (b ++ y) ≠ .gt := by
  rcases h with rfl | h
  · rwa [compare_append_left]
  · rw [h x y]
    decide

/-- `a` and `b` first differ at a byte, the one of `a` the smaller. -/
def DiffLt (a b : List UInt8) : Prop :=
  ∃ p c d a' b', a = p ++ c :: a' ∧ b = p ++ d :: b' ∧ c < d

namespace DiffLt

variable {a b : List UInt8}

theorem prefixLt (h : DiffLt a b) : PrefixLt a b := by
  obtain ⟨p, c, d, a', b', rfl, rfl, hcd⟩ := h
  intro x y
  rw [List.append_assoc, List.append_assoc, compare_append_left]
  exact prefixLt_of_head_lt hcd a' b' x y

theorem compare_eq_lt (h : DiffLt a b) : compare a b = .lt := by
  simpa using h.prefixLt [] []

theorem compare_eq_gt (h : DiffLt a b) : compare b a = .gt := by
  obtain ⟨p, c, d, a', b', rfl, rfl, hcd⟩ := h
  have hdc : compare d c = .gt := by
    rw [compare_uint8]
    exact Nat.compare_eq_gt.2 (UInt8.lt_iff_toNat_lt.1 hcd)
  rw [compare_append_left, List.compare_cons_cons, hdc, Ordering.gt_then]

theorem append (h : DiffLt a b) (x y : List UInt8) : DiffLt (a ++ x) (b ++ y) := by
  obtain ⟨p, c, d, a', b', rfl, rfl, hcd⟩ := h
  exact ⟨p, c, d, a' ++ x, b' ++ y, by simp, by simp, hcd⟩

theorem append_left (h : DiffLt a b) (q : List UInt8) : DiffLt (q ++ a) (q ++ b) := by
  obtain ⟨p, c, d, a', b', rfl, rfl, hcd⟩ := h
  exact ⟨q ++ p, c, d, a', b', by simp, by simp, hcd⟩

theorem complement (h : DiffLt a b) : DiffLt (b.map (~~~·)) (a.map (~~~·)) := by
  obtain ⟨p, c, d, a', b', rfl, rfl, hcd⟩ := h
  refine ⟨p.map (~~~·), ~~~d, ~~~c, b'.map (~~~·), a'.map (~~~·), by simp, by simp, ?_⟩
  rw [UInt8.lt_iff_toNat_lt, UInt8.toNat_not, UInt8.toNat_not]
  have := UInt8.lt_iff_toNat_lt.mp hcd
  have := d.toNat_lt
  have : UInt8.size = 256 := rfl
  omega

end DiffLt

/-- A string at or above `p ++ a` and below `p ++ b` starts with `p`, and what follows `p` lies
between `a` and `b`. -/
theorem exists_append_of_between : ∀ (p : List UInt8) {a b k : List UInt8},
    compare (p ++ a) k ≠ .gt → compare k (p ++ b) = .lt →
    ∃ c, k = p ++ c ∧ compare a c ≠ .gt ∧ compare c b = .lt
  | [], _, _, k, hlo, hhi => ⟨k, rfl, hlo, hhi⟩
  | x :: p, a, b, [], hlo, _ => by
    rw [List.cons_append, List.compare_cons_nil] at hlo
    exact absurd rfl hlo
  | x :: p, a, b, y :: k, hlo, hhi => by
    rw [List.cons_append, List.compare_cons_cons] at hlo hhi
    rcases Nat.lt_trichotomy x.toNat y.toNat with hxy | hxy | hxy
    · -- `k` starts above `p ++ b`
      have hgt : compare y x = .gt := by
        rw [compare_uint8]
        exact Nat.compare_eq_gt.2 hxy
      rw [hgt, Ordering.gt_then] at hhi
      cases hhi
    · obtain rfl := UInt8.toNat_inj.mp hxy
      rw [compare_uint8_self, Ordering.eq_then] at hlo hhi
      obtain ⟨c, rfl, hac, hcb⟩ := exists_append_of_between p hlo hhi
      exact ⟨c, rfl, hac, hcb⟩
    · -- `k` starts below `p ++ a`
      have hgt : compare x y = .gt := by
        rw [compare_uint8]
        exact Nat.compare_eq_gt.2 hxy
      rw [hgt, Ordering.gt_then] at hlo
      exact absurd rfl hlo

theorem le_of_compare_cons_lt {b d : UInt8} {c e : List UInt8}
    (h : compare (b :: c) (d :: e) = .lt) : b ≤ d := by
  rw [List.compare_cons_cons] at h
  rw [UInt8.le_iff_toNat_le]
  by_contra hgt
  have hbd : compare b d = .gt := by
    rw [compare_uint8]
    exact Nat.compare_eq_gt.2 (by omega)
  rw [hbd, Ordering.gt_then] at h
  cases h

theorem lt_of_compare_cons_singleton_lt {b d : UInt8} {c : List UInt8}
    (h : compare (b :: c) [d] = .lt) : b < d := by
  have hle := UInt8.le_iff_toNat_le.mp (le_of_compare_cons_lt h)
  rw [UInt8.lt_iff_toNat_lt]
  rcases Nat.lt_or_eq_of_le hle with hlt | heq
  · exact hlt
  · obtain rfl := UInt8.toNat_inj.mp heq
    rw [List.compare_cons_cons, compare_uint8_self, Ordering.eq_then] at h
    cases c with
    | nil => simp at h
    | cons _ _ => simp [List.compare_cons_nil] at h

theorem diffLt_of_compare_eq_lt : ∀ {a b : List UInt8}, a.length = b.length →
    compare a b = .lt → DiffLt a b
  | [], [], _, h => by simp at h
  | c :: a, d :: b, hlen, h => by
    rw [List.compare_cons_cons] at h
    rcases Nat.lt_trichotomy c.toNat d.toNat with hcd | hcd | hcd
    · exact ⟨[], c, d, a, b, rfl, rfl, UInt8.lt_iff_toNat_lt.2 hcd⟩
    · obtain rfl := UInt8.toNat_inj.mp hcd
      rw [compare_uint8_self, Ordering.eq_then] at h
      obtain ⟨p, c', d', a', b', rfl, rfl, hcd'⟩ :=
        diffLt_of_compare_eq_lt (by simpa using hlen) h
      exact ⟨c :: p, c', d', a', b', rfl, rfl, hcd'⟩
    · have hgt : compare c d = .gt := by
        rw [compare_uint8]
        exact Nat.compare_eq_gt.2 hcd
      rw [hgt] at h
      cases h

end FrescoDB.Lib
