import Mathlib

/-! Coalescing a list sorted by key: each run of items with one key merged into its first item.
Over a list sorted by a total order on the keys, the result is strictly increasing by key, has
exactly the keys of the input, and a merged item has a property exactly when an input item with
its key has it, for every property that a merge turns into a disjunction: a merge that unions
sets yields, for each key, the union of the sets of that key. -/
namespace FrescoDB.Lib

variable {α κ : Type*} [DecidableEq κ] (key : α → κ) (combine : α → α → α)

/-- The write position `w` and the items after it: an item with `w`'s key is merged into `w`, any
other item is written after `w` and becomes the write position. -/
def coalesce : α → List α → List α
  | w, [] => [w]
  | w, it :: rest =>
    if key it = key w then coalesce (combine w it) rest else w :: coalesce it rest

variable {key combine}

section Keys

variable (hkey : ∀ a b, key (combine a b) = key a)
include hkey

theorem mem_map_key_coalesce :
    ∀ (w : α) (l : List α) (k : κ), k ∈ (coalesce key combine w l).map key ↔ k ∈ (w :: l).map key
  | w, [], k => Iff.rfl
  | w, it :: rest, k => by
    rw [coalesce]
    split
    · rename_i h
      rw [mem_map_key_coalesce (combine w it) rest k]
      simp [hkey, h]
    · rw [List.map_cons, List.mem_cons, mem_map_key_coalesce it rest k]
      simp

end Keys

/-! Sorted inputs. -/

section Sorted

variable {cmp : κ → κ → Ordering} [Std.TransCmp cmp] [Std.LawfulEqCmp cmp]

omit [DecidableEq κ] in
theorem eq_of_cmp_ne_gt {a b : κ} (hab : cmp a b ≠ .gt) (hba : cmp b a ≠ .gt) : a = b := by
  refine @Std.LawfulEqCmp.eq_of_compare _ cmp _ a b ?_
  rw [@Std.OrientedCmp.eq_swap _ cmp _ b a] at hba
  cases h : cmp a b with
  | lt => simp [h] at hba
  | eq => rfl
  | gt => exact absurd h hab

omit [DecidableEq κ] in
theorem cmp_eq_lt_of_sorted {w it : α} {rest : List α}
    (hs : ((w :: it :: rest).map key).Pairwise fun a b => cmp a b ≠ .gt) (hne : key it ≠ key w) :
    ∀ y ∈ it :: rest, cmp (key w) (key y) = .lt := by
  simp only [List.map_cons, List.pairwise_cons, List.mem_cons, List.mem_map] at hs
  obtain ⟨hw, hit, -⟩ := hs
  intro y hy
  have hle : cmp (key w) (key y) ≠ .gt := by
    rcases List.mem_cons.mp hy with rfl | hy
    · exact hw _ (.inl rfl)
    · exact hw _ (.inr ⟨y, hy, rfl⟩)
  cases h : cmp (key w) (key y) with
  | lt => rfl
  | gt => exact absurd h hle
  | eq =>
    -- a key equal to `w`'s after `it` would force `it`'s key to be `w`'s
    have hwy := Std.LawfulEqCmp.eq_of_compare h
    rcases List.mem_cons.mp hy with rfl | hy
    · exact absurd hwy.symm hne
    · have hity : cmp (key it) (key y) ≠ .gt := hit _ ⟨y, hy, rfl⟩
      rw [← hwy] at hity
      exact absurd (eq_of_cmp_ne_gt hity (hw _ (.inl rfl))) hne

omit [DecidableEq κ] [Std.TransCmp cmp] [Std.LawfulEqCmp cmp] in
theorem sorted_merge {w it : α} {rest : List α} (hkey : ∀ a b, key (combine a b) = key a)
    (hs : ((w :: it :: rest).map key).Pairwise fun a b => cmp a b ≠ .gt) :
    ((combine w it :: rest).map key).Pairwise fun a b => cmp a b ≠ .gt := by
  rw [List.map_cons, hkey]
  exact hs.sublist ((List.sublist_cons_self _ _).cons_cons _)

variable (hkey : ∀ a b, key (combine a b) = key a)
include hkey

theorem pairwise_coalesce : ∀ (w : α) (l : List α),
    ((w :: l).map key).Pairwise (fun a b => cmp a b ≠ .gt) →
    ((coalesce key combine w l).map key).Pairwise fun a b => cmp a b = .lt
  | w, [], _ => by simp [coalesce]
  | w, it :: rest, hs => by
    rw [coalesce]
    split
    · exact pairwise_coalesce (combine w it) rest (sorted_merge hkey hs)
    · rename_i hne
      rw [List.map_cons, List.pairwise_cons]
      refine ⟨fun k hk => ?_, pairwise_coalesce it rest (List.pairwise_cons.mp hs).2⟩
      obtain ⟨y, hy, rfl⟩ := List.mem_map.mp ((mem_map_key_coalesce hkey it rest k).mp hk)
      exact cmp_eq_lt_of_sorted hs hne y hy

/-- Over a sorted input a merged item has a property exactly when an input item with its key has
it, for a property that holds of a merge when it holds of either side. -/
theorem coalesce_iff (Q : α → Prop) (hQ : ∀ a b, Q (combine a b) ↔ Q a ∨ Q b) :
    ∀ (w : α) (l : List α), ((w :: l).map key).Pairwise (fun a b => cmp a b ≠ .gt) →
    ∀ x ∈ coalesce key combine w l, (Q x ↔ ∃ y ∈ w :: l, key y = key x ∧ Q y)
  | w, [], _, x, hx => by
    rw [coalesce, List.mem_singleton] at hx
    subst hx
    refine ⟨fun hq => ⟨x, List.mem_singleton_self x, rfl, hq⟩, ?_⟩
    rintro ⟨y, hy, -, hq⟩
    rw [List.mem_singleton] at hy
    exact hy ▸ hq
  | w, it :: rest, hs, x, hx => by
    rw [coalesce] at hx
    split at hx
    · rename_i heq
      -- `it` is merged into `w`: the merged item stands for both
      rw [coalesce_iff Q hQ (combine w it) rest (sorted_merge hkey hs) x hx]
      simp only [List.mem_cons, exists_eq_or_imp, hkey, hQ, heq]
      tauto
    · rename_i hne
      have hlt := cmp_eq_lt_of_sorted hs hne
      rcases List.mem_cons.mp hx with rfl | hxr
      · -- `x` is the write position: no later item has its key
        refine ⟨fun hq => ⟨x, List.mem_cons_self .., rfl, hq⟩, ?_⟩
        rintro ⟨y, hy, hyx, hq⟩
        rcases List.mem_cons.mp hy with rfl | hy
        · exact hq
        · have := hlt y hy
          rw [hyx, @Std.ReflCmp.compare_self _ cmp _ (key x)] at this
          cases this
      · -- `x` comes later: `w` has a smaller key than `x`
        rw [coalesce_iff Q hQ it rest (List.pairwise_cons.mp hs).2 x hxr]
        refine ⟨fun ⟨y, hy, hyx, hq⟩ => ⟨y, List.mem_cons_of_mem _ hy, hyx, hq⟩, ?_⟩
        rintro ⟨y, hy, hyx, hq⟩
        rcases List.mem_cons.mp hy with rfl | hy
        · obtain ⟨z, hz, hzx⟩ := List.mem_map.mp
            ((mem_map_key_coalesce hkey it rest (key x)).mp (List.mem_map_of_mem hxr))
          have := hlt z hz
          rw [hzx, ← hyx, @Std.ReflCmp.compare_self _ cmp _ (key y)] at this
          cases this
        · exact ⟨y, hy, hyx, hq⟩

end Sorted

end FrescoDB.Lib
