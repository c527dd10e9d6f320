import Mathlib

/-! A container of records kept as a list, followed through its updates: what `modify` of one
record and `filter` of one key do to what is read from all records, and `set`, `eraseIdx` and
`insertIdx` at the point where the list splits in two. -/
namespace FrescoDB.Lib

variable {α β γ : Type*}

theorem map_modify_of_eq {f : α → α} {g : α → β} (hf : ∀ a, g (f a) = g a) :
    ∀ (l : List α) (i : Nat), (l.modify i f).map g = l.map g
  | [], _ => by simp
  | a :: l, 0 => by simp [hf]
  | a :: l, i + 1 => by simp [map_modify_of_eq hf l i]

theorem mem_modify {f : α → α} :
    ∀ {l : List α} {i : Nat} {x : α}, x ∈ l.modify i f → x ∈ l ∨ ∃ h : i < l.length, x = f l[i]
  | [], _, _, h => by simp at h
  | a :: l, 0, x, h => by
    rcases List.mem_cons.mp (by simpa using h) with rfl | h
    · exact .inr ⟨by simp, rfl⟩
    · exact .inl (List.mem_cons_of_mem _ h)
  | a :: l, i + 1, x, h => by
    rcases List.mem_cons.mp (by simpa using h) with rfl | h
    · exact .inl (List.mem_cons_self ..)
    · rcases mem_modify h with h | ⟨hi, rfl⟩
      · exact .inl (List.mem_cons_of_mem _ h)
      · exact .inr ⟨by simpa using hi, rfl⟩

theorem flatMap_modify_perm {f : α → α} {g : α → List β} {extra : List β}
    (hf : ∀ a, g (f a) = g a ++ extra) :
    ∀ {l : List α} {i : Nat}, i < l.length → ((l.modify i f).flatMap g).Perm (l.flatMap g ++ extra)
  | a :: l, 0, _ => by
    simp only [List.modify_zero_cons, List.flatMap_cons, hf, List.append_assoc]
    have hcomm : List.Perm (extra ++ l.flatMap g) (l.flatMap g ++ extra) := List.perm_append_comm
    exact hcomm.append_left _
  | a :: l, i + 1, hi => by
    simp only [List.modify_succ_cons, List.flatMap_cons, List.append_assoc]
    exact (flatMap_modify_perm hf (by simpa using hi)).append_left _

theorem flatMap_filter_perm_of_nodup [DecidableEq β] {k : α → β} {g : α → List γ} {r : β} :
    ∀ {l : List α}, (l.map k).Nodup → ∀ {e : α}, e ∈ l → k e = r →
      (g e ++ (l.filter fun a => decide (k a ≠ r)).flatMap g).Perm (l.flatMap g)
  | [], _, _, he, _ => by simp at he
  | a :: l, hnodup, e, he, hr => by
    have hna : k a ∉ l.map k := (List.nodup_cons.mp hnodup).1
    by_cases ha : k a = r
    · have hea : e = a := by
        rcases List.mem_cons.mp he with rfl | he
        · rfl
        · exact absurd (hr.trans ha.symm ▸ List.mem_map_of_mem he) hna
      have hkeep : l.filter (fun a => decide (k a ≠ r)) = l := by
        refine List.filter_eq_self.mpr fun b hb => ?_
        have : k b ≠ r := fun h => hna (ha.trans h.symm ▸ List.mem_map_of_mem hb)
        simpa using this
      subst hea
      rw [List.filter_cons_of_neg (by simp [ha]), hkeep, List.flatMap_cons]
    · have he' : e ∈ l := by
        rcases List.mem_cons.mp he with rfl | he
        · exact absurd hr ha
        · exact he
      have ih : (g e ++ (l.filter fun a => decide (k a ≠ r)).flatMap g).Perm (l.flatMap g) :=
        flatMap_filter_perm_of_nodup (List.nodup_cons.mp hnodup).2 he' hr
      simp only [List.filter_cons, ha, ne_eq, not_false_eq_true, decide_true, if_true,
        List.flatMap_cons]
      exact (List.perm_append_comm_assoc _ _ _).trans (ih.append_left _)

theorem drop_length_takeWhile (p : α → Bool) : ∀ l : List α,
    l.drop (l.takeWhile p).length = l.dropWhile p
  | [] => rfl
  | a :: l => by
    by_cases h : p a
    · simp [List.takeWhile_cons_of_pos h, List.dropWhile_cons_of_pos h, drop_length_takeWhile p l]
    · simp [List.takeWhile_cons_of_neg h, List.dropWhile_cons_of_neg h]

theorem getElem?_append_length (l₁ l₂ : List α) : (l₁ ++ l₂)[l₁.length]? = l₂.head? := by
  rw [List.getElem?_append_right le_rfl, Nat.sub_self, List.head?_eq_getElem?]

theorem set_append_length (l₁ l₂ : List α) (a b : α) :
    (l₁ ++ a :: l₂).set l₁.length b = l₁ ++ b :: l₂ := by
  simp

theorem eraseIdx_append_length (l₁ l₂ : List α) (a : α) :
    (l₁ ++ a :: l₂).eraseIdx l₁.length = l₁ ++ l₂ := by
  rw [List.eraseIdx_append_of_length_le le_rfl, Nat.sub_self, List.eraseIdx_cons_zero]

theorem insertIdx_append_length (a : α) : ∀ (l₁ l₂ : List α),
    (l₁ ++ l₂).insertIdx l₁.length a = l₁ ++ a :: l₂
  | [], l₂ => List.insertIdx_zero
  | b :: l₁, l₂ => by
    rw [List.cons_append, List.length_cons, List.insertIdx_succ_cons, insertIdx_append_length a l₁ l₂]
    rfl

/-- What is read at an index after writing at `i`: the value written there, and the old value
elsewhere. -/
theorem getElem?_set_eq_some {l : List α} {i j : Nat} {a x : α} (hi : i < l.length)
    (h : (l.set i a)[j]? = some x) : (j = i ∧ x = a) ∨ (j ≠ i ∧ l[j]? = some x) := by
  by_cases hji : j = i
  · subst hji
    rw [List.getElem?_set_self hi] at h
    exact .inl ⟨rfl, (Option.some.inj h).symm⟩
  · rw [List.getElem?_set_ne (Ne.symm hji)] at h
    exact .inr ⟨hji, h⟩

end FrescoDB.Lib
