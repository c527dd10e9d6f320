import Mathlib

/-! A sorted list of cuts splits an ordered key space into pieces: piece `i` runs from cut `i` up
to, and without, cut `i + 1`, and the last piece is open above. When the first cut is at or below
every key, each key lies in exactly one piece, and `std::lower_bound` finds it: it stops at the
piece's own cut when the key is that cut, and one past it otherwise. The order is any `compare`
that is transitive, as that of byte strings is. -/
namespace FrescoDB.Lib

variable {α : Type}

theorem length_takeWhile_eq {p : α → Bool} :
    ∀ {xs : List α} {m : Nat} (hm : m ≤ xs.length), (∀ j (hj : j < m), p xs[j] = true) →
      (∀ hm : m < xs.length, p xs[m] = false) → (xs.takeWhile p).length = m
  | [], m, hm, _, _ => by simp at hm; simp [hm]
  | x :: xs, 0, _, _, hstop => by
    have hx : p x = false := hstop (by simp)
    simp [hx]
  | x :: xs, m + 1, hm, hrun, hstop => by
    have hx : p x = true := hrun 0 (by omega)
    have hrest := @length_takeWhile_eq p xs m (by simpa using hm)
      (fun j hj => hrun (j + 1) (by omega)) (fun h => hstop (by simpa using h))
    simp [hx, hrest]

variable [Ord α]

/-- `std::lower_bound` over a range sorted by `compare`: the length of the run of elements below
the key, which is the position of the first element that is not. -/
def lowerBound (xs : List α) (key : α) : Nat := (xs.takeWhile fun x => compare x key == .lt).length

/-- `key` lies in piece `i` of `cuts`: at or above cut `i`, and below cut `i + 1` if there is
one. -/
def InPiece (cuts : List α) (key : α) (i : Nat) : Prop :=
  ∃ hi : i < cuts.length, compare cuts[i] key ≠ .gt ∧
    ∀ hnext : i + 1 < cuts.length, compare key cuts[i + 1] = .lt

theorem compare_nil_ne_gt {β : Type} [Ord β] (key : List β) : compare [] key ≠ .gt := by
  cases key with
  | nil => simp [List.compare_nil_nil]
  | cons b bs => simp [List.compare_nil_cons]

section Transitive

variable [Std.TransOrd α]

theorem le_of_pairwise {cuts : List α} (hs : cuts.Pairwise fun a b => compare a b = .lt) {i j : Nat}
    (hij : i ≤ j) (hj : j < cuts.length) :
    (compare cuts[i] cuts[j]).isLE = true := by
  rcases Nat.lt_or_eq_of_le hij with hlt | rfl
  · rw [List.pairwise_iff_getElem.mp hs i j (by omega) hj hlt]
    rfl
  · exact Std.ReflCmp.isLE_rfl

theorem inPiece_unique {cuts : List α} (hs : cuts.Pairwise fun a b => compare a b = .lt)
    {key : α} {i j : Nat} (hi : InPiece cuts key i) (hj : InPiece cuts key j) : i = j := by
  -- the key is below the cut after the lower piece, which is at or below the higher piece's cut
  have below : ∀ {i j}, InPiece cuts key i → InPiece cuts key j → ¬ i < j := by
    intro i j ⟨hi, _, hnext⟩ ⟨hj, hcut, _⟩ hij
    have hlt : compare key cuts[j] = .lt :=
      Std.TransCmp.lt_of_lt_of_isLE (hnext (by omega)) (le_of_pairwise hs hij hj)
    exact hcut (Std.OrientedCmp.gt_iff_lt.mpr hlt)
  rcases Nat.lt_trichotomy i j with h | h | h
  · exact absurd h (below hi hj)
  · exact h
  · exact absurd h (below hj hi)

theorem exists_inPiece {key : α} :
    ∀ {cuts : List α}, (∃ h : 0 < cuts.length, compare cuts[0] key ≠ .gt) →
      ∃ i, InPiece cuts key i
  | [], ⟨h, _⟩ => absurd h (by simp)
  | [c], ⟨_, hc⟩ => ⟨0, by simp, hc, fun h => absurd h (by simp)⟩
  | c :: d :: rest, ⟨_, hc⟩ => by
    by_cases hd : compare d key = .gt
    · -- the key is below the second cut: the first piece
      exact ⟨0, by simp, hc, fun _ => Std.OrientedCmp.gt_iff_lt.mp hd⟩
    · -- otherwise the key lies in a piece of the cuts from the second on
      obtain ⟨i, hi, hcut, hnext⟩ := @exists_inPiece key (d :: rest) ⟨by simp, hd⟩
      exact ⟨i + 1, by simp at hi ⊢; omega, hcut, fun h => hnext (by simp at h ⊢; omega)⟩

/-- `lower_bound` of a key in piece `i` is `i` when the key is not above cut `i`, and `i + 1`
when it is. -/
theorem lowerBound_of_inPiece {cuts : List α} (hs : cuts.Pairwise fun a b => compare a b = .lt)
    {key : α} {i : Nat} (hin : InPiece cuts key i) :
    ∃ hi : i < cuts.length,
      (compare cuts[i] key = .lt ∧ lowerBound cuts key = i + 1) ∨
        (compare cuts[i] key ≠ .lt ∧ lowerBound cuts key = i) := by
  obtain ⟨hi, hcut, hnext⟩ := hin
  -- every cut before `i` is below cut `i`, so below the key
  have hbefore : ∀ j (hj : j < i), (compare cuts[j] key == .lt) = true := by
    intro j hj
    have hlt : compare cuts[j] cuts[i] = .lt :=
      List.pairwise_iff_getElem.mp hs j i (by omega) hi hj
    exact beq_iff_eq.mpr (Std.TransCmp.lt_of_lt_of_isLE hlt (Ordering.isLE_iff_ne_gt.mpr hcut))
  refine ⟨hi, ?_⟩
  by_cases hlt : compare cuts[i] key = .lt
  · -- the run goes through cut `i` and stops at the next cut, which is above the key
    refine .inl ⟨hlt, length_takeWhile_eq (by omega) (fun j hj => ?_) (fun h => ?_)⟩
    · rcases Nat.lt_or_eq_of_le (Nat.le_of_lt_succ hj) with hj | rfl
      · exact hbefore j hj
      · exact beq_iff_eq.mpr hlt
    · have habove : compare cuts[i + 1] key = .gt := Std.OrientedCmp.gt_iff_lt.mpr (hnext h)
      simp [habove]
  · exact .inr ⟨hlt, length_takeWhile_eq (by omega) hbefore (fun _ => by simp [hlt])⟩

end Transitive

end FrescoDB.Lib
