import Mathlib

/-! Lists of decimal digits, most significant first, and the number they write. A digit may stand
above nine for a while, as it does between the steps of a carry: the value is still the sum of
each digit times its place. Leading zeros change no value, trailing zeros scale it; a list of
digits below ten is below the next power of ten, and two such lists of one length compare as
their values do. -/
namespace FrescoDB.Lib

/-- The number a list of digits writes, most significant first. -/
def digitsValue (ds : List Nat) : Nat := ds.foldl (fun acc d => 10 * acc + d) 0

-- Equation lemmas, made once before their uses.
section
attribute [local simp] digitsValue
end

theorem foldl_digits (ds : List Nat) (acc : Nat) :
    ds.foldl (fun acc d => 10 * acc + d) acc = acc * 10 ^ ds.length + digitsValue ds := by
  induction ds generalizing acc with
  | nil => simp [digitsValue]
  | cons d ds ih =>
    simp only [List.foldl_cons, digitsValue, List.length_cons]
    rw [ih, ih (10 * 0 + d), pow_succ]
    ring

@[simp] theorem digitsValue_nil : digitsValue [] = 0 := rfl

theorem digitsValue_cons (d : Nat) (ds : List Nat) :
    digitsValue (d :: ds) = d * 10 ^ ds.length + digitsValue ds := by
  simp only [digitsValue, List.foldl_cons]
  rw [foldl_digits]
  simp [digitsValue]

theorem digitsValue_append (l r : List Nat) :
    digitsValue (l ++ r) = digitsValue l * 10 ^ r.length + digitsValue r := by
  simp only [digitsValue, List.foldl_append]
  exact foldl_digits r _

@[simp] theorem digitsValue_replicate_zero (k : Nat) : digitsValue (List.replicate k 0) = 0 := by
  induction k with
  | zero => rfl
  | succ k ih => rw [List.replicate_succ, digitsValue_cons, ih]; simp

theorem digitsValue_zeros_append (k : Nat) (l : List Nat) :
    digitsValue (List.replicate k 0 ++ l) = digitsValue l := by
  simp [digitsValue_append]

theorem digitsValue_append_zeros (l : List Nat) (k : Nat) :
    digitsValue (l ++ List.replicate k 0) = digitsValue l * 10 ^ k := by
  simp [digitsValue_append]

theorem digitsValue_lt : ∀ {ds : List Nat}, (∀ d ∈ ds, d < 10) → digitsValue ds < 10 ^ ds.length
  | [], _ => by simp
  | d :: ds, h => by
    have hd : d < 10 := h d (List.mem_cons_self ..)
    have ih := digitsValue_lt fun x hx => h x (List.mem_cons_of_mem _ hx)
    rw [digitsValue_cons, List.length_cons, pow_succ]
    calc d * 10 ^ ds.length + digitsValue ds
        < d * 10 ^ ds.length + 10 ^ ds.length := by omega
      _ = (d + 1) * 10 ^ ds.length := by ring
      _ ≤ 10 * 10 ^ ds.length := Nat.mul_le_mul_right _ hd
      _ = 10 ^ ds.length * 10 := Nat.mul_comm ..

theorem digitsValue_modify_add {ds : List Nat} {i : Nat} (hi : i < ds.length) (x : Nat) :
    digitsValue (ds.modify i (· + x)) = digitsValue ds + x * 10 ^ (ds.length - 1 - i) := by
  induction ds generalizing i with
  | nil => simp at hi
  | cons d ds ih =>
    cases i with
    | zero =>
      simp only [List.modify_zero_cons, digitsValue_cons, List.length_cons]
      simp only [Nat.add_sub_cancel, Nat.sub_zero]
      ring
    | succ i =>
      have hi' : i < ds.length := by simpa using hi
      simp only [List.modify_succ_cons, digitsValue_cons, List.length_modify, ih hi',
        List.length_cons]
      rw [show ds.length + 1 - 1 - (i + 1) = ds.length - 1 - i by omega]
      ring

theorem digitsValue_modify_sub {ds : List Nat} {i : Nat} (hi : i < ds.length) {x : Nat}
    (hx : x ≤ ds[i]) :
    digitsValue (ds.modify i (· - x)) + x * 10 ^ (ds.length - 1 - i) = digitsValue ds := by
  have hback : (ds.modify i (· - x)).modify i (· + x) = ds := by
    rw [List.modify_modify_eq]
    apply List.ext_getElem (by simp)
    intro j hj _
    rw [List.getElem_modify]
    split
    · subst j
      simp only [Function.comp]
      omega
    · rfl
  have h := @digitsValue_modify_add (ds.modify i (· - x)) i (by simpa using hi) x
  rw [hback, List.length_modify] at h
  omega

theorem digitsValue_lt_of_lt_head {d e : Nat} {ds es : List Nat} (hlen : ds.length = es.length)
    (hde : d < e) (hds : ∀ x ∈ ds, x < 10) :
    digitsValue (d :: ds) < digitsValue (e :: es) := by
  rw [digitsValue_cons, digitsValue_cons, hlen]
  have := digitsValue_lt hds
  rw [hlen] at this
  calc d * 10 ^ es.length + digitsValue ds
      < d * 10 ^ es.length + 10 ^ es.length := by omega
    _ = (d + 1) * 10 ^ es.length := by ring
    _ ≤ e * 10 ^ es.length := Nat.mul_le_mul_right _ hde
    _ ≤ e * 10 ^ es.length + digitsValue es := Nat.le_add_right ..

theorem digitsValue_digits_reverse (n : Nat) : digitsValue (Nat.digits 10 n).reverse = n := by
  have h : ∀ l : List Nat, digitsValue l.reverse = Nat.ofDigits 10 l := by
    intro l
    induction l with
    | nil => rfl
    | cons d l ih =>
      rw [List.reverse_cons, digitsValue_append, ih, Nat.ofDigits_cons]
      simp [digitsValue]
      ring
  rw [h, Nat.ofDigits_digits]

/-! ### Places -/

theorem getD_modify_of_ne {α : Type} (f : α → α) (l : List α) {i j : Nat} (h : i ≠ j) (d : α) :
    (l.modify i f).getD j d = l.getD j d := by
  simp only [List.getD_eq_getElem?_getD, List.getElem?_modify, if_neg h]
  cases l[j]? <;> rfl

theorem getD_modify_self {α : Type} (f : α → α) (l : List α) {i : Nat} (hi : i < l.length)
    (d : α) : (l.modify i f).getD i d = f (l.getD i d) := by
  rw [List.getD_eq_getElem _ _ (by simpa using hi), List.getElem_modify, if_pos rfl,
    List.getD_eq_getElem _ _ hi]

theorem digitsValue_take_succ {ds : List Nat} {k : Nat} (hk : k < ds.length) :
    digitsValue (ds.take (k + 1)) = digitsValue (ds.take k) * 10 + ds.getD k 0 := by
  rw [List.take_add_one, List.getElem?_eq_getElem hk, Option.toList_some, digitsValue_append,
    List.getD_eq_getElem _ _ hk]
  simp [digitsValue]

theorem digitsValue_cons_lt {d : Nat} {ds : List Nat} (hds : ∀ x ∈ ds, x < 10) :
    digitsValue (d :: ds) < (d + 1) * 10 ^ ds.length := by
  have := digitsValue_lt hds
  rw [digitsValue_cons, add_mul, one_mul]
  omega

end FrescoDB.Lib
