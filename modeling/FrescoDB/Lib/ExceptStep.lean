import Mathlib

/-! Steps of a computation in `Except` that succeed: a successful step hands its value to the
rest, and a mapped error or a `pure` changes no success. A fold whose every step extends its
accumulator, and leaves a fact about the item it took that later extensions keep, ends with every
item's fact. -/
namespace FrescoDB.Lib

variable {ε ε' α β : Type}

@[simp] theorem except_ok_bind (a : α) (f : α → Except ε β) : (Except.ok a >>= f) = f a := rfl

@[simp] theorem except_pure_eq (a : α) : (pure a : Except ε α) = .ok a := rfl

@[simp] theorem except_map_ok (f : α → β) (a : α) :
    (f <$> (Except.ok a : Except ε α)) = .ok (f a) := rfl

@[simp] theorem except_mapError_ok (f : ε → ε') (a : α) :
    (Except.ok a : Except ε α).mapError f = .ok a := rfl

theorem except_bind_eq_ok {x : Except ε α} {f : α → Except ε β} {b : β} :
    (x >>= f) = .ok b ↔ ∃ a, x = .ok a ∧ f a = .ok b := by
  cases x <;> simp [bind, Except.bind]

section Fold

variable {σ : Type} {R : σ → σ → Prop} {Q : β → σ → Prop}

/-- A fold whose steps each extend the accumulator and establish a fact about their item that
extensions keep. -/
theorem foldlM_ok_forall (htrans : ∀ {a b c}, R a b → R b c → R a c) (hrefl : ∀ s, R s s)
    (hmono : ∀ x {s s'}, R s s' → Q x s → Q x s') {f : σ → β → Except ε σ}
    (hf : ∀ s x s', f s x = .ok s' → R s s' ∧ Q x s') :
    ∀ (xs : List β) (s s' : σ), xs.foldlM f s = .ok s' → R s s' ∧ ∀ x ∈ xs, Q x s'
  | [], s, s', h => by
    cases h
    exact ⟨hrefl s, by simp⟩
  | x :: xs, s, s', h => by
    rw [List.foldlM_cons] at h
    cases hx : f s x with
    | error e => rw [hx] at h; cases h
    | ok s₁ =>
      rw [hx] at h
      obtain ⟨hR₁, hQ₁⟩ := hf s x s₁ hx
      obtain ⟨hR, hQ⟩ := foldlM_ok_forall htrans hrefl hmono hf xs s₁ s' h
      refine ⟨htrans hR₁ hR, fun y hy => ?_⟩
      rcases List.mem_cons.mp hy with rfl | hy
      · exact hmono y hR hQ₁
      · exact hQ y hy

end Fold

end FrescoDB.Lib
