import Mathlib

/-! The item a sort by key puts at a given position, and how many items reach its key. In a list
sorted by key, the item at position `i` is reached by the `length - i` items from it on and
passed strictly by fewer: its key is the `(length - i)`-th largest. A watermark that a quorum
holds is read this way. -/
namespace FrescoDB.Lib

variable {α β : Type*} [LinearOrder β] (key : α → β)

/-- The item `std::nth_element` with a comparator on `key` leaves at position `i`: the one a
sort by `key` puts there. -/
def nthByKey (l : List α) (i : Nat) : Option α :=
  (l.insertionSort fun a b => key a ≤ key b)[i]?

/-- How many items have a key of at least `v`. -/
def countAtLeast (l : List α) (v : β) : Nat := l.countP fun a => v ≤ key a

/-- How many items have a key above `v`. -/
def countAbove (l : List α) (v : β) : Nat := l.countP fun a => v < key a

variable {key}

theorem countAtLeast_le_countAbove {l : List α} {v w : β} (h : w < v) :
    countAtLeast key l v ≤ countAbove key l w :=
  List.countP_mono_left fun a _ hv => by
    simp only [decide_eq_true_eq] at hv ⊢
    exact lt_of_lt_of_le h hv

/-- In a list sorted by key, the items from position `i` on reach its key, and only those after
it can pass it. -/
theorem count_of_sorted : ∀ {s : List α} {i : Nat} (hi : i < s.length),
    s.Pairwise (fun a b => key a ≤ key b) →
    s.length - i ≤ countAtLeast key s (key s[i]) ∧ countAbove key s (key s[i]) < s.length - i
  | a :: t, 0, _, hs => by
    have ht : ∀ b ∈ t, key a ≤ key b := (List.pairwise_cons.mp hs).1
    have hge : countAtLeast key t (key a) = t.length :=
      List.countP_eq_length.mpr fun b hb => decide_eq_true (ht b hb)
    have habove : countAbove key t (key a) ≤ t.length := List.countP_le_length
    simp only [countAtLeast, countAbove, List.countP_cons, List.getElem_cons_zero, le_refl,
      lt_irrefl, decide_true, decide_false, if_true] at hge habove ⊢
    simp only [Bool.false_eq_true, if_false, List.length_cons]
    omega
  | a :: t, i + 1, hi, hs => by
    have hit : i < t.length := by simpa using hi
    have ha : key a ≤ key t[i] := (List.pairwise_cons.mp hs).1 _ (List.getElem_mem hit)
    obtain ⟨hge, habove⟩ := count_of_sorted hit (List.pairwise_cons.mp hs).2
    have hnot : ¬ key t[i] < key a := not_lt.mpr ha
    simp only [countAtLeast, countAbove, List.countP_cons, List.getElem_cons_succ,
      List.length_cons, hnot, decide_false] at hge habove ⊢
    constructor
    · split <;> omega
    · simp only [Bool.false_eq_true, if_false]
      omega

theorem nthByKey_mem {l : List α} {i : Nat} {w : α} (h : nthByKey key l i = some w) : w ∈ l :=
  (List.perm_insertionSort _ l).subset (List.mem_of_getElem? h)

theorem nthByKey_isSome {l : List α} {i : Nat} (hi : i < l.length) :
    ∃ w, nthByKey key l i = some w :=
  ⟨_, List.getElem?_eq_getElem (by rwa [List.length_insertionSort])⟩

theorem countP_lt_add_countAtLeast (l : List α) (v : β) :
    l.countP (fun a => key a < v) + countAtLeast key l v = l.length := by
  rw [List.length_eq_countP_add_countP fun a => key a < v, countAtLeast]
  simp [not_lt]

theorem countP_le_add_countAbove (l : List α) (v : β) :
    l.countP (fun a => key a ≤ v) + countAbove key l v = l.length := by
  rw [List.length_eq_countP_add_countP fun a => key a ≤ v, countAbove]
  simp [not_le]

theorem nthByKey_count {l : List α} {i : Nat} {w : α} (h : nthByKey key l i = some w) :
    l.length - i ≤ countAtLeast key l (key w) ∧ countAbove key l (key w) < l.length - i := by
  have : Std.Total fun a b : α => key a ≤ key b := ⟨fun a b => le_total (key a) (key b)⟩
  have : IsTrans α fun a b => key a ≤ key b := ⟨fun _ _ _ => le_trans⟩
  set s := l.insertionSort fun a b => key a ≤ key b
  have hperm : s.Perm l := List.perm_insertionSort _ l
  obtain ⟨hi, rfl⟩ := List.getElem?_eq_some_iff.mp h
  have hcount := count_of_sorted hi (List.pairwise_insertionSort _ l)
  rw [hperm.length_eq] at hcount
  unfold countAtLeast countAbove at hcount ⊢
  rwa [hperm.countP_eq, hperm.countP_eq] at hcount

/-- The item at position `i` of the sort has at most `i` items below it and more than `i` at or
below it. -/
theorem nthByKey_rank {l : List α} {i : Nat} {w : α} (h : nthByKey key l i = some w) :
    l.countP (fun a => key a < key w) ≤ i ∧ i < l.countP (fun a => key a ≤ key w) := by
  obtain ⟨hge, habove⟩ := nthByKey_count h
  have hbelow := @countP_lt_add_countAtLeast α β _ key l (key w)
  have hatMost := @countP_le_add_countAbove α β _ key l (key w)
  omega

end FrescoDB.Lib
