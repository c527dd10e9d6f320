import Mathlib.Data.List.Basic

/-! Lists whose items carry consecutive indexes: `IsWindow idx base l` says
that `l` holds the indexes `base + 1, …, base + l.length` in order. A queue
of operations waiting for commitment has this shape: appending the next index,
dropping from either end and looking an index up by its offset from the front
all keep it. -/
namespace FrescoDB.Lib

variable {α : Type*} {idx : α → Int}

def IsWindow (idx : α → Int) (base : Int) (l : List α) : Prop :=
  ∀ (k : Nat) (hk : k < l.length), idx l[k] = base + 1 + k

theorem isWindow_nil (base : Int) : IsWindow idx base [] :=
  fun k hk => absurd hk (Nat.not_lt_zero k)

theorem isWindow_cons {base : Int} {a : α} {l : List α} :
    IsWindow idx base (a :: l) ↔ idx a = base + 1 ∧ IsWindow idx (base + 1) l := by
  constructor
  · intro h
    have h0 := h 0 (by simp)
    simp only [List.getElem_cons_zero] at h0
    refine ⟨by omega, fun k hk => ?_⟩
    have hk1 := h (k + 1) (by simp [hk])
    simp only [List.getElem_cons_succ] at hk1
    omega
  · rintro ⟨ha, hl⟩ k hk
    cases k with
    | zero => simpa using ha
    | succ k =>
      simp only [List.getElem_cons_succ]
      rw [hl k (by simpa using hk)]
      omega

theorem IsWindow.append {base : Int} {l l' : List α} (h : IsWindow idx base l)
    (h' : IsWindow idx (base + l.length) l') : IsWindow idx base (l ++ l') := by
  intro k hk
  by_cases hkl : k < l.length
  · rw [List.getElem_append_left hkl]
    exact h k hkl
  · have hk' : k - l.length < l'.length := by simp at hk; omega
    rw [List.getElem_append_right (by omega), h' (k - l.length) hk']
    omega

theorem IsWindow.concat {base : Int} {l : List α} {a : α} (h : IsWindow idx base l)
    (ha : idx a = base + l.length + 1) : IsWindow idx base (l ++ [a]) :=
  h.append (isWindow_cons.mpr ⟨ha, isWindow_nil _⟩)

theorem IsWindow.take {base : Int} {l : List α} (h : IsWindow idx base l) (n : Nat) :
    IsWindow idx base (l.take n) := by
  intro k hk
  rw [List.getElem_take]
  exact h k (by simp at hk; omega)

theorem IsWindow.dropLast {base : Int} {l : List α} (h : IsWindow idx base l) :
    IsWindow idx base l.dropLast := by
  rw [List.dropLast_eq_take]
  exact h.take _

theorem IsWindow.drop {base : Int} {l : List α} (h : IsWindow idx base l) {n : Nat}
    (hn : n ≤ l.length) : IsWindow idx (base + n) (l.drop n) := by
  intro k hk
  rw [List.getElem_drop, h (n + k) (by simp at hk; omega)]
  omega

theorem IsWindow.getLast {base : Int} {l : List α} (h : IsWindow idx base l) (hne : l ≠ []) :
    idx (l.getLast hne) = base + l.length := by
  have hlen : 0 < l.length := List.length_pos_iff.mpr hne
  rw [List.getLast_eq_getElem, h _ (by omega)]
  omega

theorem IsWindow.getElem?_offset {base : Int} {l : List α} (h : IsWindow idx base l) {i : Int}
    (hlo : base < i) (hhi : i ≤ base + l.length) :
    ∃ (hk : (i - (base + 1)).toNat < l.length), l[(i - (base + 1)).toNat]? =
      some l[(i - (base + 1)).toNat] ∧ idx l[(i - (base + 1)).toNat] = i := by
  have hk : (i - (base + 1)).toNat < l.length := by omega
  refine ⟨hk, List.getElem?_eq_getElem hk, ?_⟩
  rw [h _ hk, Int.toNat_of_nonneg (by omega)]
  omega

end FrescoDB.Lib
