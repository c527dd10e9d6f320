import Mathlib

/-! Strictly increasing lists and their sorted sublists. Such a sublist is fixed by its elements,
so the operations of a sorted container (insert in order, drop a matched head, split at the first
element not below a bound) keep it a sublist. A seek in a sorted list, a `dropWhile` by a test
that holds below some point, keeps exactly the elements that fail the test, and a run from it
reaches every element whose predecessors in it all pass. -/
namespace FrescoDB.Lib

variable {α : Type*} [LinearOrder α]

theorem orderedInsert_sublist_of_mem {l q : List α} {x : α} (hq : q.Pairwise (· < ·))
    (hl : l.Sublist q) (hx : x ∈ q) (hxl : x ∉ l) : (l.orderedInsert (· ≤ ·) x).Sublist q := by
  have hsorted : l.Pairwise (· < ·) := hq.sublist hl
  have hnodup : (l.orderedInsert (· ≤ ·) x).Nodup :=
    (List.perm_orderedInsert (· ≤ ·) x l).nodup_iff.mpr (List.nodup_cons.mpr ⟨hxl, hsorted.nodup⟩)
  have hsub : l.orderedInsert (· ≤ ·) x ⊆ q := by
    intro y hy
    rcases (List.mem_orderedInsert _).mp hy with rfl | hy
    · exact hx
    · exact hl.subset hy
  exact List.sublist_of_subperm_of_pairwise (hnodup.subperm hsub)
    ((hsorted.imp le_of_lt).orderedInsert x l) (hq.imp le_of_lt)

theorem span_lt_of_pairwise {before rest : List α} {a : α}
    (h : (before ++ a :: rest).Pairwise (· < ·)) :
    (before ++ a :: rest).span (· < a) = (before, a :: rest) := by
  have hbefore : ∀ b ∈ before, decide (b < a) = true := by
    intro b hb
    have := (List.pairwise_append.mp h).2.2 b hb a (List.mem_cons_self ..)
    simpa using this
  rw [List.span_eq_takeWhile_dropWhile, List.takeWhile_append_of_pos hbefore,
    List.dropWhile_append_of_pos hbefore]
  simp

theorem head_lt_of_sublist_tail {q l : List α} {a : α} (hq : (a :: q).Pairwise (· < ·))
    (hl : l.Sublist q) : ∀ x ∈ l, a < x :=
  fun _ hx => List.rel_of_pairwise_cons hq (hl.subset hx)

/-- In a strictly increasing list, a `dropWhile` keeps everything at or above the first element
that fails the test. -/
theorem mem_dropWhile_iff {P : α → Bool} :
    ∀ {l : List α}, l.Pairwise (· < ·) →
      ∀ x, x ∈ l.dropWhile P ↔ x ∈ l ∧ ∃ y ∈ l, P y = false ∧ y ≤ x
  | [], _, x => by simp
  | a :: l, hl, x => by
    have hrest := List.pairwise_cons.mp hl
    by_cases ha : P a = true
    · rw [List.dropWhile_cons_of_pos ha, mem_dropWhile_iff hrest.2 x]
      constructor
      · rintro ⟨hx, y, hy, hPy, hyx⟩
        exact ⟨List.mem_cons_of_mem a hx, y, List.mem_cons_of_mem a hy, hPy, hyx⟩
      · rintro ⟨hx, y, hy, hPy, hyx⟩
        rcases List.mem_cons.mp hy with rfl | hyl
        · rw [ha] at hPy
          cases hPy
        rcases List.mem_cons.mp hx with rfl | hxl
        · exact absurd hyx (not_le.mpr (hrest.1 y hyl))
        · exact ⟨hxl, y, hyl, hPy, hyx⟩
    · rw [List.dropWhile_cons_of_neg ha]
      refine ⟨fun hx => ⟨hx, a, List.mem_cons_self .., by simpa using ha, ?_⟩, fun h => h.1⟩
      rcases List.mem_cons.mp hx with rfl | hx
      · exact le_rfl
      · exact (hrest.1 x hx).le

/-- Inserting in order, into the elements of a strictly increasing list that pass a test, an
element of the list that fails it is passing it as well. -/
theorem orderedInsert_filter {P : α → Bool} {x : α} :
    ∀ {l : List α}, l.Pairwise (· < ·) → x ∈ l → P x = false →
      (l.filter P).orderedInsert (· ≤ ·) x = l.filter (fun y => P y || decide (y = x))
  | a :: l, hl, hx, hPx => by
    have hrest := List.pairwise_cons.mp hl
    rcases List.mem_cons.mp hx with rfl | hx
    · -- the element is the head, so it goes in front of what passes after it
      have hfilter : l.filter (fun y => P y || decide (y = x)) = l.filter P :=
        List.filter_congr fun y hy => by simp [ne_of_gt (hrest.1 y hy)]
      rw [List.filter_cons_of_neg (by simpa using hPx), List.filter_cons_of_pos (by simp), hfilter]
      cases hf : l.filter P with
      | nil => rfl
      | cons b bs =>
        have hb : b ∈ l := List.mem_of_mem_filter (hf ▸ List.mem_cons_self ..)
        simp [List.orderedInsert, (hrest.1 b hb).le]
    · have hax : a < x := hrest.1 x hx
      by_cases ha : P a = true
      · rw [List.filter_cons_of_pos ha, List.filter_cons_of_pos (by simp [ha]),
          List.orderedInsert_cons, if_neg (not_le.mpr hax), orderedInsert_filter hrest.2 hx hPx]
      · rw [List.filter_cons_of_neg ha, List.filter_cons_of_neg (by simp [ha, ne_of_lt hax]),
          orderedInsert_filter hrest.2 hx hPx]

section Scan

variable {β : Type*} {P : β → Bool}

theorem mem_dropWhile_of_not {a : β} (hna : P a = false) :
    ∀ {l : List β}, a ∈ l → a ∈ l.dropWhile P
  | b :: l, ha => by
    by_cases hb : P b = true
    · rw [List.dropWhile_cons_of_pos hb]
      rcases List.mem_cons.mp ha with rfl | ha
      · rw [hna] at hb
        cases hb
      · exact mem_dropWhile_of_not hna ha
    · rw [List.dropWhile_cons_of_neg hb]
      exact ha

/-- In a list ordered by `R`, where the test passes below anything it passes on, no element
that survives the `dropWhile` passes it. -/
theorem not_of_mem_dropWhile {R : β → β → Prop} (hdown : ∀ a b, R a b → P b = true → P a = true) :
    ∀ {l : List β}, l.Pairwise R → ∀ e ∈ l.dropWhile P, P e = false
  | [], _, e, he => by simp at he
  | a :: l, hl, e, he => by
    by_cases ha : P a = true
    · rw [List.dropWhile_cons_of_pos ha] at he
      exact not_of_mem_dropWhile hdown (List.pairwise_cons.mp hl).2 e he
    · rw [List.dropWhile_cons_of_neg ha] at he
      rcases List.mem_cons.mp he with rfl | he
      · simpa using ha
      · by_contra hpe
        exact ha (hdown a e ((List.pairwise_cons.mp hl).1 e he) (by simpa using hpe))

theorem mem_takeWhile_of_forall {A B : List β} {a : β} (hA : ∀ e ∈ A, P e = true)
    (ha : P a = true) : a ∈ (A ++ a :: B).takeWhile P := by
  rw [List.takeWhile_append_of_pos hA, List.takeWhile_cons_of_pos ha]
  simp

theorem dropWhile_dropWhile_of_imp {Q : β → Bool} (h : ∀ a, P a = true → Q a = true) :
    ∀ l : List β, (l.dropWhile P).dropWhile Q = l.dropWhile Q
  | [] => rfl
  | a :: l => by
    by_cases ha : P a = true
    · rw [List.dropWhile_cons_of_pos ha, List.dropWhile_cons_of_pos (h a ha)]
      exact dropWhile_dropWhile_of_imp h l
    · rw [List.dropWhile_cons_of_neg ha]

/-- In a list ordered by a key, an element whose key is below a bound is in the run of elements
below it. -/
theorem mem_takeWhile_of_lt {γ : Type*} [LinearOrder γ] {f : β → γ} {m : γ} :
    ∀ {l : List β}, l.Pairwise (fun a b => f a ≤ f b) →
      ∀ x ∈ l, f x < m → x ∈ l.takeWhile (fun e => decide (f e < m))
  | a :: l, hl, x, hx, hxm => by
    have hrest := List.pairwise_cons.mp hl
    have ha : f a < m := by
      rcases List.mem_cons.mp hx with rfl | hx
      · exact hxm
      · exact lt_of_le_of_lt (hrest.1 x hx) hxm
    rw [List.takeWhile_cons_of_pos (by simpa using ha)]
    rcases List.mem_cons.mp hx with rfl | hx
    · exact List.mem_cons_self ..
    · exact List.mem_cons_of_mem a (mem_takeWhile_of_lt hrest.2 x hx hxm)

end Scan

section Keys

variable {β : Type*} {f : β → Int}

theorem add_le_key_of_pairwise_lt {l : List β} (hl : l.Pairwise fun a b => f a < f b) :
    ∀ (i j : Nat) (hi : i < l.length) (hj : j < l.length), i ≤ j → f l[i] + (j - i : Nat) ≤ f l[j]
  | i, 0, hi, hj, hij => by
    obtain rfl : i = 0 := by omega
    simp
  | i, j + 1, hi, hj, hij => by
    rcases Nat.eq_or_lt_of_le hij with rfl | hlt
    · simp
    · have hstep : f l[j] < f l[j + 1] := List.pairwise_iff_getElem.mp hl j (j + 1) _ hj (by omega)
      have hrest := add_le_key_of_pairwise_lt hl i j hi (by omega) (by omega)
      have hsub : ((j + 1 - i : Nat) : Int) = (j - i : Nat) + 1 := by omega
      rw [hsub]
      omega

theorem key_eq_of_pairwise_lt {l : List β} (hl : l.Pairwise fun a b => f a < f b) {p : Nat}
    (hp : p < l.length) (hkey : f l[p] = f l[0] + p) (k : Nat) (hk : k ≤ p) :
    f l[k] = f l[0] + k := by
  have hlow := add_le_key_of_pairwise_lt hl 0 k (by omega) (by omega) (Nat.zero_le k)
  have hhigh := add_le_key_of_pairwise_lt hl k p (by omega) hp hk
  have hcast : ((p - k : Nat) : Int) = p - k := by omega
  rw [hcast] at hhigh
  simp only [Nat.sub_zero] at hlow
  omega

end Keys

end FrescoDB.Lib
