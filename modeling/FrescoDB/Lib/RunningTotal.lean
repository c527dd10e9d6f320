import Mathlib

/-! Running totals over a list. A walk that adds up weights and stops at the first element where
the total reaches a threshold returns the element whose prefix total first reaches it. When the
weight at each position counts the items of a list that map to that position, the prefix totals
count the items that map below it. -/
namespace FrescoDB.Lib

variable {α : Type}

/-- Walk `xs` adding up `w` from `total`, and stop at the first element where the running total
reaches `k`. -/
def firstReaching (w : α → Nat) (k : Nat) : List α → Nat → Option α
  | [], _ => none
  | x :: xs, total => if k ≤ total + w x then some x else firstReaching w k xs (total + w x)

/-- The walk stops at `xs[i]` when the running total is below `k` before it and reaches `k`
with it. -/
theorem firstReaching_eq_getElem {w : α → Nat} {k : Nat} :
    ∀ {xs : List α} {total i : Nat} (hi : i < xs.length),
      total + ((xs.take i).map w).sum < k → k ≤ total + ((xs.take (i + 1)).map w).sum →
      firstReaching w k xs total = some xs[i]
  | x :: xs, total, 0, _, _, hreach => by
    simp only [List.take_succ_cons, List.take_zero, List.map_cons, List.map_nil,
      List.sum_cons, List.sum_nil, Nat.add_zero] at hreach
    simp [firstReaching, hreach]
  | x :: xs, total, i + 1, hi, hbefore, hreach => by
    have hpass : ¬ k ≤ total + w x := by
      have hle : w x ≤ ((List.take (i + 1) (x :: xs)).map w).sum := by simp
      omega
    simp only [List.take_succ_cons, List.map_cons, List.sum_cons] at hbefore hreach
    rw [firstReaching, if_neg hpass, List.getElem_cons_succ]
    exact firstReaching_eq_getElem (by simpa using hi) (by omega) (by omega)

theorem firstReaching_map {β : Type} (w : α → Nat) (k : Nat) (f : β → α) :
    ∀ (xs : List β) (total : Nat),
      firstReaching w k (xs.map f) total = (firstReaching (fun b => w (f b)) k xs total).map f
  | [], _ => rfl
  | x :: xs, total => by
    by_cases hk : k ≤ total + w (f x)
    · simp [firstReaching, hk]
    · simp only [List.map_cons, firstReaching, if_neg hk]
      exact firstReaching_map w k f xs _

theorem countP_lt_succ (l : List α) (f : α → Nat) (n : Nat) :
    l.countP (fun a => f a < n + 1) = l.countP (fun a => f a < n) + l.countP (fun a => f a = n) := by
  induction l with
  | nil => rfl
  | cons a l ih =>
    simp only [List.countP_cons, ih]
    by_cases hlt : f a < n
    · simp [hlt, Nat.lt_succ_of_lt hlt, Nat.ne_of_lt hlt]
      omega
    · by_cases heq : f a = n
      · simp [heq]
        omega
      · have hge : ¬ f a < n + 1 := by omega
        simp [hlt, heq, hge]

/-- Counting the items of `l` at each position below `n` and adding up counts the items below
`n`. -/
theorem sum_countP_eq (l : List α) (f : α → Nat) (n : Nat) :
    ((List.range n).map fun t => l.countP fun a => f a = t).sum = l.countP fun a => f a < n := by
  induction n with
  | zero => simp
  | succ n ih =>
    rw [List.range_succ, List.map_append, List.sum_append, ih, List.map_singleton,
      List.sum_singleton, countP_lt_succ]

end FrescoDB.Lib
