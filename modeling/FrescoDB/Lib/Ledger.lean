import Mathlib

/-! Counters that each call raises along a path of keys: a call made on key `v` adds its amount
to the counter of every key on the path of `v`. Whatever the calls, each counter then holds the
sum, over the keys whose path passes through it, of that key's net amount, the calls made on it
added up. -/
namespace FrescoDB.Lib

variable {α : Type} [DecidableEq α]

/-- Raise the counter of every key on `path` by `amount`, one key after the other. -/
def addAlong (path : List α) (amount : Int) (counters : α → Int) : α → Int :=
  path.foldl (fun c u => Function.update c u (c u + amount)) counters

@[simp] theorem addAlong_apply (path : List α) (amount : Int) (counters : α → Int) (x : α) :
    addAlong path amount counters x = counters x + path.count x * amount := by
  induction path generalizing counters with
  | nil => simp [addAlong]
  | cons u path ih =>
    simp only [addAlong, List.foldl_cons] at ih ⊢
    rw [ih, List.count_cons]
    by_cases hx : x = u
    · subst hx
      simp only [Function.update_self, beq_self_eq_true, if_true]
      push_cast
      ring
    · simp [Function.update_of_ne hx, Ne.symm hx]

/-- The counter of `x` when each key `v` of `keys` has raised the counters along `path v` by its
net amount `net v`. -/
def aggregate (path : α → List α) (keys : Finset α) (net : α → Int) (x : α) : Int :=
  ∑ v ∈ keys, (path v).count x * net v

@[simp] theorem aggregate_zero (path : α → List α) (keys : Finset α) (x : α) :
    aggregate path keys 0 x = 0 := by
  simp [aggregate]

/-- One more call on `v`: the counters along the path of `v` gain its amount. A key outside
`keys` counts only when its path is empty. -/
theorem aggregate_update (path : α → List α) (keys : Finset α) (net : α → Int) {v : α} (d : Int)
    (hv : v ∈ keys ∨ path v = []) (x : α) :
    aggregate path keys (Function.update net v (net v + d)) x =
      aggregate path keys net x + (path v).count x * d := by
  have hsplit : ∀ w, (path w).count x * Function.update net v (net v + d) w =
      (path w).count x * net w + if w = v then (path w).count x * d else 0 := by
    intro w
    by_cases hw : w = v
    · subst hw
      simp only [Function.update_self, if_true]
      ring
    · simp [hw]
  unfold aggregate
  rw [Finset.sum_congr rfl fun w _ => hsplit w, Finset.sum_add_distrib, Finset.sum_ite_eq']
  rcases hv with hv | hv
  · rw [if_pos hv]
  · simp [hv]

end FrescoDB.Lib
