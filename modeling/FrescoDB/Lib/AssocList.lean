import Mathlib

/-! Association lists as the models of hash maps: what `List.lookup` finds is an entry of the
list, and an `Option` traversal with `List.mapM` relates each entry to its image. -/
namespace FrescoDB.Lib

variable {α β γ : Type*}

theorem mem_of_lookup_eq_some [BEq α] [LawfulBEq α] {l : List (α × β)} {a : α} {b : β}
    (h : l.lookup a = some b) : (a, b) ∈ l := by
  induction l with
  | nil => simp at h
  | cons e l ih =>
    obtain ⟨k, v⟩ := e
    by_cases hk : a = k
    · subst hk
      simp only [List.lookup_cons_self, Option.some.injEq] at h
      subst h
      exact List.mem_cons_self ..
    · have hne : (a == k) = false := by simpa using hk
      simp only [List.lookup, hne] at h
      exact List.mem_cons_of_mem _ (ih h)

theorem forall₂_of_mapM_eq_some {f : α → Option β} {l : List α} {r : List β}
    (h : l.mapM f = some r) : List.Forall₂ (fun a b => f a = some b) l r := by
  induction l generalizing r with
  | nil =>
    simp only [List.mapM_nil, pure, Option.some.injEq] at h
    subst h
    exact .nil
  | cons a l ih =>
    simp only [List.mapM_cons, bind, pure, Option.bind_eq_some_iff, Option.some.injEq] at h
    obtain ⟨b, hb, bs, hbs, rfl⟩ := h
    exact .cons hb (ih hbs)

theorem lookup_isSome_of_map_fst_eq [BEq α] {l₁ : List (α × β)} {l₂ : List (α × γ)}
    (h : l₁.map Prod.fst = l₂.map Prod.fst) (a : α) :
    (l₁.lookup a).isSome = (l₂.lookup a).isSome := by
  induction l₁ generalizing l₂ with
  | nil =>
    obtain rfl := List.map_eq_nil_iff.mp h.symm
    rfl
  | cons e l₁ ih =>
    cases l₂ with
    | nil => simp at h
    | cons e' l₂ =>
      simp only [List.map_cons, List.cons.injEq] at h
      obtain ⟨k, v⟩ := e
      obtain ⟨k', v'⟩ := e'
      obtain rfl : k = k' := h.1
      cases hk : a == k <;> simp [List.lookup, hk, ih h.2]

theorem mapM_eq_some_map {f : α → Option β} {g : α → β} {l : List α}
    (h : ∀ a ∈ l, f a = some (g a)) : l.mapM f = some (l.map g) := by
  induction l with
  | nil => rfl
  | cons a l ih =>
    rw [List.mapM_cons, h a (List.mem_cons_self ..), ih fun b hb => h b (List.mem_cons_of_mem _ hb)]
    rfl

theorem map_eq_of_mapM_eq_some {f : α → Option β} {g : β → γ} {k : α → γ}
    (hf : ∀ a b, f a = some b → g b = k a) {l : List α} {r : List β} (h : l.mapM f = some r) :
    r.map g = l.map k := by
  have hall := forall₂_of_mapM_eq_some h
  clear h
  induction hall with
  | nil => rfl
  | cons hab _ ih => rw [List.map_cons, List.map_cons, hf _ _ hab, ih]

/-- Two traversals of one list that succeed together at each element, with related results,
succeed together with related lists. -/
theorem forall₂_of_mapM_of_mapM {f : α → Option β} {g : α → Option γ} {R : β → γ → Prop}
    {l : List α} (h : ∀ a ∈ l, ∃ b c, f a = some b ∧ g a = some c ∧ R b c) :
    ∃ bs cs, l.mapM f = some bs ∧ l.mapM g = some cs ∧ List.Forall₂ R bs cs := by
  induction l with
  | nil => exact ⟨[], [], rfl, rfl, .nil⟩
  | cons a l ih =>
    obtain ⟨b, c, hb, hc, hbc⟩ := h a (List.mem_cons_self ..)
    obtain ⟨bs, cs, hbs, hcs, hrel⟩ := ih fun x hx => h x (List.mem_cons_of_mem _ hx)
    refine ⟨b :: bs, c :: cs, ?_, ?_, .cons hbc hrel⟩
    · rw [List.mapM_cons, hb, hbs]
      rfl
    · rw [List.mapM_cons, hc, hcs]
      rfl

theorem exists_of_mem_mapM {f : α → Option β} {l : List α} {r : List β}
    (h : l.mapM f = some r) {b : β} (hb : b ∈ r) : ∃ a ∈ l, f a = some b := by
  induction l generalizing r with
  | nil =>
    simp only [List.mapM_nil, pure, Option.some.injEq] at h
    simp [← h] at hb
  | cons a l ih =>
    simp only [List.mapM_cons, bind, pure, Option.bind_eq_some_iff, Option.some.injEq] at h
    obtain ⟨b', hb', bs, hbs, rfl⟩ := h
    rcases List.mem_cons.mp hb with rfl | hb
    · exact ⟨a, List.mem_cons_self .., hb'⟩
    · obtain ⟨a', ha', h'⟩ := ih hbs hb
      exact ⟨a', List.mem_cons_of_mem _ ha', h'⟩

/-! ## Writing through a key -/

section Update

variable [DecidableEq α]

theorem lookup_cons_of_ne {l : List (α × β)} {a k : α} {v : β} (h : a ≠ k) :
    ((k, v) :: l).lookup a = l.lookup a := by
  have hbeq : (a == k) = false := by simpa using h
  simp [List.lookup_cons, hbeq]

theorem lookup_map_replace (l : List (α × β)) (k a : α) (v : β) :
    (l.map fun e => if e.1 = k then (k, v) else e).lookup a =
      if a = k then (l.lookup k).map fun _ => v else l.lookup a := by
  induction l with
  | nil => split <;> rfl
  | cons e l ih =>
    obtain ⟨k', v'⟩ := e
    by_cases hk : k' = k
    · subst hk
      by_cases ha : a = k'
      · subst ha
        simp
      · simp only [List.map_cons, if_true, lookup_cons_of_ne ha, ih, ha, if_false]
    · by_cases ha : a = k
      · subst ha
        simp only [List.map_cons, hk, if_false, lookup_cons_of_ne (Ne.symm hk), ih, if_true]
      · simp only [List.map_cons, hk, if_false, ha]
        by_cases hak : a = k'
        · subst hak
          simp
        · rw [lookup_cons_of_ne hak, lookup_cons_of_ne hak, ih, if_neg ha]

theorem map_fst_map_replace (l : List (α × β)) (k : α) (v : β) :
    (l.map fun e => if e.1 = k then (k, v) else e).map Prod.fst = l.map Prod.fst := by
  induction l with
  | nil => rfl
  | cons e l ih =>
    by_cases hk : e.1 = k
    · simp [hk, ih]
    · simp [hk, ih]

/-- Entries kept or dropped one by one, their keys unchanged: with distinct keys, the value of a key
is what becomes of its entry. -/
theorem lookup_filterMap_of_nodup {f : β → Option γ} :
    ∀ {l : List (α × β)}, (l.map Prod.fst).Nodup → ∀ a : α,
      (l.filterMap fun e => (f e.2).map (e.1, ·)).lookup a = (l.lookup a).bind f
  | [], _, _ => rfl
  | (k, v) :: l, hnodup, a => by
    have hk : k ∉ l.map Prod.fst := (List.nodup_cons.mp hnodup).1
    have ih : (l.filterMap fun e => (f e.2).map (e.1, ·)).lookup a = (l.lookup a).bind f :=
      lookup_filterMap_of_nodup (List.nodup_cons.mp hnodup).2 a
    by_cases ha : a = k
    · subst ha
      have hnone : l.lookup a = none := by
        refine List.lookup_eq_none_iff.mpr fun e he => ?_
        have hne : a ≠ e.1 := fun h => hk (h ▸ List.mem_map_of_mem he)
        simpa using hne
      cases hf : f v with
      | none => simp [hf, ih, hnone]
      | some w => simp [hf]
    · cases hf : f v with
      | none => simp [hf, ih, lookup_cons_of_ne ha]
      | some w => simp [hf, ih, lookup_cons_of_ne ha]

theorem lookup_eq_of_mem_of_nodup {l : List (α × β)} (hnodup : (l.map Prod.fst).Nodup) {k : α}
    {v : β} (h : (k, v) ∈ l) : l.lookup k = some v := by
  induction l with
  | nil => simp at h
  | cons e l ih =>
    obtain ⟨k', v'⟩ := e
    rcases List.mem_cons.mp h with heq | hl
    · obtain ⟨rfl, rfl⟩ := Prod.mk.inj heq
      simp
    · have hk : k ≠ k' := by
        rintro rfl
        have hmem : (k, v).1 ∈ l.map Prod.fst := List.mem_map_of_mem hl
        exact (List.nodup_cons.mp hnodup).1 hmem
      rw [lookup_cons_of_ne hk]
      exact ih (List.nodup_cons.mp hnodup).2 hl

omit [DecidableEq α] in
theorem map_fst_filterMap_sublist {f : β → Option γ} (l : List (α × β)) :
    ((l.filterMap fun e => (f e.2).map (e.1, ·)).map Prod.fst).Sublist (l.map Prod.fst) := by
  induction l with
  | nil => exact List.Sublist.slnil
  | cons e l ih =>
    cases hf : f e.2 with
    | none => simpa [hf] using ih.cons e.1
    | some w => simpa [hf] using ih.cons_cons e.1

end Update

/-! ## Keys absent from a list -/

section Absent

variable [BEq α] [LawfulBEq α]

theorem lookup_eq_none_iff_not_mem {l : List (α × β)} {a : α} :
    l.lookup a = none ↔ a ∉ l.map Prod.fst := by
  induction l with
  | nil => simp
  | cons e l ih =>
    by_cases hae : a = e.1
    · subst hae
      simp
    · have hbeq : (a == e.1) = false := by simpa using hae
      rw [List.lookup_cons, hbeq, ih, List.map_cons, List.mem_cons]
      exact ⟨fun h h' => h.elim (h'.resolve_left hae), fun h h' => h (.inr h')⟩

theorem lookup_append_of_not_mem {l₁ l₂ : List (α × β)} {a : α} (h : a ∉ l₁.map Prod.fst) :
    (l₁ ++ l₂).lookup a = l₂.lookup a := by
  induction l₁ with
  | nil => rfl
  | cons e l₁ ih =>
    have hne : (a == e.1) = false := by
      have : a ≠ e.1 := fun hae => h (hae ▸ List.mem_map_of_mem (List.mem_cons_self ..))
      simpa using this
    rw [List.cons_append, List.lookup_cons, hne]
    exact ih fun hmem => h (List.mem_cons_of_mem _ hmem)

theorem filter_ne_key_of_not_mem {l : List (α × β)} {a : α} (h : a ∉ l.map Prod.fst) :
    l.filter (fun e => e.1 != a) = l := by
  refine List.filter_eq_self.mpr fun e he => ?_
  have hne : e.1 ≠ a := fun hea => h (hea ▸ List.mem_map_of_mem he)
  simpa using hne

theorem perm_cons_filter_ne_key : ∀ {l : List (α × β)}, (l.map Prod.fst).Nodup → ∀ {k : α} {v : β},
    (k, v) ∈ l → l.Perm ((k, v) :: l.filter fun e => e.1 != k)
  | [], _, _, _, h => by simp at h
  | e :: l, hnodup, k, v, h => by
    have hk : e.1 ∉ l.map Prod.fst := (List.nodup_cons.mp hnodup).1
    rcases List.mem_cons.mp h with rfl | h
    · have hrest : l.filter (fun e' => e'.1 != k) = l := filter_ne_key_of_not_mem hk
      simp [hrest]
    · have hne : e.1 ≠ k := fun hek => hk (hek ▸ List.mem_map_of_mem h)
      have ih := perm_cons_filter_ne_key (List.nodup_cons.mp hnodup).2 h
      have hbne : (e.1 != k) = true := by simpa using hne
      rw [List.filter_cons, if_pos hbne]
      exact (ih.cons e).trans (List.Perm.swap _ _ _)

theorem lookup_filter_ne_key {l : List (α × β)} {a k : α} (h : a ≠ k) :
    (l.filter fun e => e.1 != k).lookup a = l.lookup a := by
  induction l with
  | nil => rfl
  | cons e l ih =>
    by_cases hek : e.1 = k
    · have hbne : (e.1 != k) = false := by simpa using hek
      have hae : (a == e.1) = false := by simpa [hek] using h
      rw [List.filter_cons, if_neg (by simp [hbne]), ih, List.lookup_cons, hae]
    · have hbne : (e.1 != k) = true := by simpa using hek
      rw [List.filter_cons, if_pos hbne, List.lookup_cons, List.lookup_cons, ih]

theorem lookup_eq_some_of_mem {l : List (α × β)} (hnodup : (l.map Prod.fst).Nodup) {k : α}
    {v : β} (h : (k, v) ∈ l) : l.lookup k = some v := by
  induction l with
  | nil => simp at h
  | cons e l ih =>
    rcases List.mem_cons.mp h with rfl | hl
    · simp
    · have hk : k ≠ e.1 := by
        rintro rfl
        have hmem : (e.1, v).1 ∈ l.map Prod.fst := List.mem_map_of_mem hl
        exact (List.nodup_cons.mp hnodup).1 hmem
      rw [List.lookup_cons, show (k == e.1) = false by simpa using hk]
      exact ih (List.nodup_cons.mp hnodup).2 hl

end Absent

/-! ## Writing at an index -/

section Index

variable [DecidableEq α]

theorem lookup_set_of_nodup {a : α} {b b' : β} :
    ∀ {l : List (α × β)} {k : Nat}, (l.map Prod.fst).Nodup → l[k]? = some (a, b) → ∀ a' : α,
      (l.set k (a, b')).lookup a' = if a' = a then some b' else l.lookup a'
  | [], _, _, h, _ => by simp at h
  | (c, v) :: l, 0, _, h, a' => by
    obtain ⟨rfl, rfl⟩ : c = a ∧ v = b := by simpa using h
    by_cases ha : a' = c
    · subst ha
      simp
    · simp [lookup_cons_of_ne ha, ha]
  | (c, v) :: l, k + 1, hnodup, h, a' => by
    have hl : l[k]? = some (a, b) := by simpa using h
    have hkey : a ∈ l.map Prod.fst := List.mem_map_of_mem (List.mem_of_getElem? hl)
    have hca : c ≠ a := fun hc => (List.nodup_cons.mp hnodup).1 (by rw [hc]; exact hkey)
    have ih : (l.set k (a, b')).lookup a' = if a' = a then some b' else l.lookup a' :=
      lookup_set_of_nodup (List.nodup_cons.mp hnodup).2 hl a'
    by_cases ha : a' = c
    · subst ha
      simp [List.set_cons_succ, hca]
    · simp only [List.set_cons_succ, lookup_cons_of_ne ha, ih]

theorem lookup_eraseIdx_of_nodup {a : α} {b : β} :
    ∀ {l : List (α × β)} {k : Nat}, (l.map Prod.fst).Nodup → l[k]? = some (a, b) → ∀ a' : α,
      (l.eraseIdx k).lookup a' = if a' = a then none else l.lookup a'
  | [], _, _, h, _ => by simp at h
  | (c, v) :: l, 0, hnodup, h, a' => by
    obtain ⟨rfl, rfl⟩ : c = a ∧ v = b := by simpa using h
    by_cases ha : a' = c
    · subst ha
      rw [if_pos rfl]
      exact lookup_eq_none_iff_not_mem.mpr (List.nodup_cons.mp hnodup).1
    · simp [lookup_cons_of_ne ha, ha]
  | (c, v) :: l, k + 1, hnodup, h, a' => by
    have hl : l[k]? = some (a, b) := by simpa using h
    have hkey : a ∈ l.map Prod.fst := List.mem_map_of_mem (List.mem_of_getElem? hl)
    have hca : c ≠ a := fun hc => (List.nodup_cons.mp hnodup).1 (by rw [hc]; exact hkey)
    have ih := lookup_eraseIdx_of_nodup (List.nodup_cons.mp hnodup).2 hl a'
    by_cases ha : a' = c
    · subst ha
      simp [List.eraseIdx_cons_succ, hca]
    · simp only [List.eraseIdx_cons_succ, lookup_cons_of_ne ha, ih]

theorem lookup_append_singleton {a : α} {b : β} :
    ∀ {l : List (α × β)}, l.lookup a = none → ∀ a' : α,
      (l ++ [(a, b)]).lookup a' = if a' = a then some b else l.lookup a'
  | [], _, a' => by
    by_cases ha : a' = a
    · subst ha
      simp
    · simp [lookup_cons_of_ne ha, ha]
  | (c, v) :: l, h, a' => by
    have hca : a ≠ c := fun hac => by simp [hac] at h
    have hl : l.lookup a = none := by rwa [lookup_cons_of_ne hca] at h
    by_cases ha : a' = c
    · subst ha
      simp [Ne.symm hca]
    · rw [List.cons_append, lookup_cons_of_ne ha, lookup_cons_of_ne ha]
      exact lookup_append_singleton hl a'

omit [DecidableEq α] in
theorem map_fst_set_of_getElem? {a : α} {b b' : β} :
    ∀ {l : List (α × β)} {k : Nat}, l[k]? = some (a, b) →
      (l.set k (a, b')).map Prod.fst = l.map Prod.fst
  | [], _, h => by simp at h
  | (c, v) :: l, 0, h => by
    obtain ⟨rfl, rfl⟩ : c = a ∧ v = b := by simpa using h
    rfl
  | (c, v) :: l, k + 1, h => by
    have hl : l[k]? = some (a, b) := by simpa using h
    simp [map_fst_set_of_getElem? hl]

end Index

end FrescoDB.Lib
