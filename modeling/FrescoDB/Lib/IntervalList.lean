import Mathlib

/-! Lists of closed integer intervals `[lo b, hi b]`, each nonempty and each ending before the next
begins: the compressed form of a finite set of integers kept by a container ordered by the upper
ends. A lookup of `x` splits such a list at the first interval that does not end below `x`; that
interval is the only one that can hold `x`. -/
namespace FrescoDB.Lib

namespace IntervalList

variable {β : Type*} (lo hi : β → ℤ)

/-- The integers that the intervals of a list cover. -/
def Covers (l : List β) : Set ℤ := {x | ∃ b ∈ l, lo b ≤ x ∧ x ≤ hi b}

/-- Nonempty intervals, each ending before the next begins. -/
structure Separated (l : List β) : Prop where
  lo_le_hi : ∀ b ∈ l, lo b ≤ hi b
  pairwise : l.Pairwise fun a b => hi a < lo b

variable {lo hi}

@[simp] theorem not_mem_covers_nil (x : ℤ) : x ∉ Covers lo hi ([] : List β) := by
  simp [Covers]

@[simp] theorem mem_covers_cons {b : β} {l : List β} {x : ℤ} :
    x ∈ Covers lo hi (b :: l) ↔ (lo b ≤ x ∧ x ≤ hi b) ∨ x ∈ Covers lo hi l := by
  simp [Covers]

@[simp] theorem mem_covers_append {l₁ l₂ : List β} {x : ℤ} :
    x ∈ Covers lo hi (l₁ ++ l₂) ↔ x ∈ Covers lo hi l₁ ∨ x ∈ Covers lo hi l₂ := by
  simp only [Covers, Set.mem_ofPred_eq, List.mem_append]
  constructor
  · rintro ⟨b, hb | hb, hx⟩
    · exact .inl ⟨b, hb, hx⟩
    · exact .inr ⟨b, hb, hx⟩
  · rintro (⟨b, hb, hx⟩ | ⟨b, hb, hx⟩)
    · exact ⟨b, .inl hb, hx⟩
    · exact ⟨b, .inr hb, hx⟩

theorem covers_mono {l₁ l₂ : List β} (h : l₁ ⊆ l₂) : Covers lo hi l₁ ⊆ Covers lo hi l₂ := by
  rintro x ⟨b, hb, hx⟩
  exact ⟨b, h hb, hx⟩

namespace Separated

theorem nil : Separated lo hi ([] : List β) := ⟨by simp, List.Pairwise.nil⟩

theorem sublist {l₁ l₂ : List β} (h : Separated lo hi l₂) (hs : l₁.Sublist l₂) :
    Separated lo hi l₁ :=
  ⟨fun b hb => h.lo_le_hi b (hs.subset hb), h.pairwise.sublist hs⟩

/-- Two separated lists with every interval of the first ending before any of the second begins
are one separated list. -/
theorem append {l₁ l₂ : List β} (h₁ : Separated lo hi l₁) (h₂ : Separated lo hi l₂)
    (h : ∀ a ∈ l₁, ∀ b ∈ l₂, hi a < lo b) : Separated lo hi (l₁ ++ l₂) := by
  refine ⟨?_, List.pairwise_append.mpr ⟨h₁.pairwise, h₂.pairwise, h⟩⟩
  intro b hb
  rcases List.mem_append.mp hb with hb | hb
  · exact h₁.lo_le_hi b hb
  · exact h₂.lo_le_hi b hb

theorem of_append_left {l₁ l₂ : List β} (h : Separated lo hi (l₁ ++ l₂)) : Separated lo hi l₁ :=
  h.sublist (List.sublist_append_left _ _)

theorem of_append_right {l₁ l₂ : List β} (h : Separated lo hi (l₁ ++ l₂)) :
    Separated lo hi l₂ :=
  h.sublist (List.sublist_append_right _ _)

theorem lt_of_mem_append {l₁ l₂ : List β} (h : Separated lo hi (l₁ ++ l₂)) {a b : β}
    (ha : a ∈ l₁) (hb : b ∈ l₂) : hi a < lo b :=
  (List.pairwise_append.mp h.pairwise).2.2 a ha b hb

theorem cons {b : β} {l : List β} (hb : lo b ≤ hi b) (h : Separated lo hi l)
    (hlt : ∀ c ∈ l, hi b < lo c) : Separated lo hi (b :: l) := by
  have hsingle : Separated lo hi [b] := ⟨by simpa using hb, List.pairwise_singleton _ _⟩
  simpa using hsingle.append h (by simpa using hlt)

theorem replace {l₁ l₂ : List β} {b b' : β} (h : Separated lo hi (l₁ ++ b :: l₂))
    (hb' : lo b' ≤ hi b') (hleft : ∀ a ∈ l₁, hi a < lo b') (hright : ∀ c ∈ l₂, hi b' < lo c) :
    Separated lo hi (l₁ ++ b' :: l₂) := by
  have hrest : Separated lo hi (b :: l₂) := h.of_append_right
  refine h.of_append_left.append (.cons hb' (hrest.sublist (List.sublist_cons_self _ _)) hright)
    fun a ha c hc => ?_
  rcases List.mem_cons.mp hc with rfl | hc
  · exact hleft a ha
  · exact h.lt_of_mem_append ha (List.mem_cons_of_mem _ hc)

end Separated

theorem hi_lt_of_mem_takeWhile {l : List β} {x : ℤ} {a : β}
    (ha : a ∈ l.takeWhile fun b => decide (hi b < x)) : hi a < x := by
  simpa using List.mem_takeWhile_imp ha

theorem le_hi_of_dropWhile_eq_cons {l rest : List β} {x : ℤ} {b : β}
    (h : l.dropWhile (fun b => decide (hi b < x)) = b :: rest) : x ≤ hi b := by
  have := List.head_dropWhile_not (fun b => decide (hi b < x)) (by simp [h] : l.dropWhile _ ≠ [])
  simp only [h, List.head_cons, decide_eq_false_iff_not, not_lt] at this
  exact this

theorem lt_lo_of_dropWhile_eq_cons {l rest : List β} {x : ℤ} {b : β}
    (h : l.dropWhile (fun b => decide (hi b < x)) = b :: rest) (hx : x ∉ Covers lo hi l) :
    x < lo b := by
  have hb : b ∈ l := (List.dropWhile_sublist _).subset (h ▸ List.mem_cons_self ..)
  by_contra hle
  exact hx ⟨b, hb, not_lt.mp hle, le_hi_of_dropWhile_eq_cons h⟩

theorem Separated.lt_lo_of_mem_dropWhile {l : List β} (h : Separated lo hi l) {x : ℤ}
    (hx : x ∉ Covers lo hi l) {c : β} (hc : c ∈ l.dropWhile fun b => decide (hi b < x)) :
    x < lo c := by
  cases hdrop : l.dropWhile (fun b => decide (hi b < x)) with
  | nil => simp [hdrop] at hc
  | cons b rest =>
    have hb := lt_lo_of_dropWhile_eq_cons hdrop hx
    rw [hdrop] at hc
    rcases List.mem_cons.mp hc with rfl | hc
    · exact hb
    · have hsep : Separated lo hi (b :: rest) := hdrop ▸ h.sublist (List.dropWhile_sublist _)
      have hbc : hi b < lo c := List.rel_of_pairwise_cons hsep.pairwise hc
      have := hsep.lo_le_hi b (List.mem_cons_self ..)
      omega

theorem not_mem_covers_takeWhile {l : List β} {x : ℤ} :
    x ∉ Covers lo hi (l.takeWhile fun b => decide (hi b < x)) := by
  rintro ⟨a, ha, -, hx⟩
  exact absurd (hi_lt_of_mem_takeWhile ha) (not_lt.mpr hx)

theorem Separated.mem_covers_iff {l : List β} (h : Separated lo hi l) {x : ℤ} :
    x ∈ Covers lo hi l ↔
      ∃ b rest, l.dropWhile (fun b => decide (hi b < x)) = b :: rest ∧ lo b ≤ x := by
  have hsplit : l.takeWhile (fun b => decide (hi b < x)) ++ l.dropWhile (fun b => decide (hi b < x))
      = l := List.takeWhile_append_dropWhile
  constructor
  · intro hx
    rw [← hsplit, mem_covers_append] at hx
    rcases hx with hx | hx
    · exact absurd hx not_mem_covers_takeWhile
    · obtain ⟨c, hc, hlo, hhi⟩ := hx
      cases hdrop : l.dropWhile (fun b => decide (hi b < x)) with
      | nil => simp [hdrop] at hc
      | cons b rest =>
        refine ⟨b, rest, rfl, ?_⟩
        rw [hdrop] at hc
        rcases List.mem_cons.mp hc with rfl | hc
        · exact hlo
        · have hsep : Separated lo hi (b :: rest) := hdrop ▸ (hsplit ▸ h).of_append_right
          have hbc : hi b < lo c := List.rel_of_pairwise_cons hsep.pairwise hc
          have := le_hi_of_dropWhile_eq_cons hdrop
          omega
  · rintro ⟨b, rest, hdrop, hlo⟩
    rw [← hsplit, hdrop]
    exact mem_covers_append.mpr
      (.inr (mem_covers_cons.mpr (.inl ⟨hlo, le_hi_of_dropWhile_eq_cons hdrop⟩)))

theorem mem_covers_dropWhile_of_le {l : List β} {m x : ℤ} (hx : m ≤ x) :
    x ∈ Covers lo hi (l.dropWhile fun b => decide (hi b < m)) ↔ x ∈ Covers lo hi l := by
  have hsplit : l.takeWhile (fun b => decide (hi b < m)) ++ l.dropWhile (fun b => decide (hi b < m))
      = l := List.takeWhile_append_dropWhile
  conv_rhs => rw [← hsplit]
  rw [mem_covers_append, iff_or_self]
  rintro ⟨a, ha, -, hax⟩
  have := hi_lt_of_mem_takeWhile ha
  omega

end IntervalList

end FrescoDB.Lib
