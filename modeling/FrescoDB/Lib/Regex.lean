import Mathlib

/-! Regular expressions of the ECMAScript fragment without assertions and back references, matched
the way a backtracking matcher does: alternatives and greedy quantifiers are tried in their order
of priority, and the first way to match the whole input gives the groups. A group is kept as the
lengths of the input left at its start and at its end, which says where it stands in any input of
that length.

Matching reads the symbols only through the sets of the expression. So a map of symbols that
every set tells apart as it tells apart their images changes no match: it gives the same spans
(`regexMatch_map`), and the groups of the image are the images of the groups (`capture_map`).
That is how a match over a whole family of inputs is read off one representative. -/
namespace FrescoDB.Lib

/-- An expression over symbols of type `α`. A set is a predicate on one symbol: a literal, a
class such as `\d`, or `.`. -/
inductive Regex (α : Type) where
  | empty
  | set (p : α → Bool)
  | seq (r s : Regex α)
  | alt (r s : Regex α)
  /-- `r?`, greedy. -/
  | opt (r : Regex α)
  /-- `[p]*`, greedy. -/
  | star (p : α → Bool)
  | group (index : Nat) (r : Regex α)

/-- For each group, the lengths of the input left at its start and at its end; `none` for a group
that took no part in the match. -/
abbrev Spans := List (Option (Nat × Nat))

namespace Regex

variable {α β : Type}

/-- The concatenation of expressions, the way a pattern is written by joining the texts of its
parts. -/
def seqs : List (Regex α) → Regex α
  | [] => empty
  | r :: rs => seq r (seqs rs)

/-- `r` exactly `n` times. -/
def power (r : Regex α) : Nat → Regex α
  | 0 => empty
  | n + 1 => seq r (power r n)

/-- `r` up to `n` times, as many as the rest allows, most first. -/
def upTo (r : Regex α) : Nat → Regex α
  | 0 => empty
  | n + 1 => opt (seq r (upTo r n))

/-- `r{lo,hi}`, greedy. -/
def rep (r : Regex α) (lo hi : Nat) : Regex α := seq (power r lo) (upTo r (hi - lo))

/-- The largest group number, which sizes the spans of a match. -/
def groupCount : Regex α → Nat
  | empty | set _ | star _ => 0
  | seq r s | alt r s => max r.groupCount s.groupCount
  | opt r => r.groupCount
  | group index r => max index r.groupCount

/-- `[p]*` at the front of the input: the longest run of `p` first, then one symbol fewer at each
failure of the rest `k`. -/
def goStar (p : α → Bool) (k : List α → Spans → Option β) : List α → Spans → Option β
  | a :: input, spans =>
    if p a then (goStar p k input spans).orElse fun _ => k (a :: input) spans
    else k (a :: input) spans
  | [], spans => k [] spans

/-- Match `r` at the front of the input and hand what is left to the rest of the pattern `k`,
trying the ways to match in their order of priority until `k` accepts one. -/
def go : Regex α → List α → Spans → (List α → Spans → Option β) → Option β
  | empty, input, spans, k => k input spans
  | set p, a :: input, spans, k => if p a then k input spans else none
  | set _, [], _, _ => none
  | seq r s, input, spans, k => r.go input spans fun rest spans => s.go rest spans k
  | alt r s, input, spans, k => (r.go input spans k).orElse fun _ => s.go input spans k
  | opt r, input, spans, k => (r.go input spans k).orElse fun _ => k input spans
  | star p, input, spans, k => goStar p k input spans
  | group index r, input, spans, k =>
    r.go input spans fun rest spans => k rest (spans.set index (some (input.length, rest.length)))

-- Equation lemmas, made once before their uses.
section
attribute [local simp] go
end

end Regex

open Regex

/-- `regex_match`: the spans of the first way of matching the whole input. -/
def regexMatch {α : Type} (r : Regex α) (input : List α) : Option Spans :=
  r.go input (List.replicate (r.groupCount + 1) none) fun rest spans =>
    if rest.isEmpty then some spans else none

/-- `m.str(index)`: the symbols of a group, empty for a group that took no part. -/
def capture {α : Type} (input : List α) (spans : Spans) (index : Nat) : List α :=
  match spans[index]? with
  | some (some (start, stop)) => (input.drop (input.length - start)).take (start - stop)
  | _ => []

namespace Regex

variable {α β : Type}

/-! ### Matching through a map of symbols -/

/-- Every set of the expression tells the images under `f` apart as it tells apart the symbols. -/
def Respects (f : α → α) : Regex α → Prop
  | empty => True
  | set p | star p => ∀ a, p (f a) = p a
  | seq r s | alt r s => r.Respects f ∧ s.Respects f
  | opt r | group _ r => r.Respects f

@[simp] theorem respects_group {f : α → α} {index : Nat} {r : Regex α} :
    (group index r).Respects f ↔ r.Respects f := Iff.rfl

@[simp] theorem respects_alt {f : α → α} {r s : Regex α} :
    (alt r s).Respects f ↔ r.Respects f ∧ s.Respects f := Iff.rfl

@[simp] theorem respects_opt {f : α → α} {r : Regex α} : (opt r).Respects f ↔ r.Respects f :=
  Iff.rfl

@[simp] theorem respects_seqs {f : α → α} {rs : List (Regex α)} :
    (seqs rs).Respects f ↔ ∀ r ∈ rs, r.Respects f := by
  induction rs with
  | nil => simp [seqs, Respects]
  | cons r rs ih => simp [seqs, Respects, ih]

theorem respects_power {f : α → α} {r : Regex α} (hr : r.Respects f) (n : Nat) :
    (power r n).Respects f := by
  induction n with
  | zero => trivial
  | succ n ih => exact ⟨hr, ih⟩

theorem respects_upTo {f : α → α} {r : Regex α} (hr : r.Respects f) (n : Nat) :
    (upTo r n).Respects f := by
  induction n with
  | zero => trivial
  | succ n ih => exact ⟨hr, ih⟩

theorem respects_rep {f : α → α} {r : Regex α} (hr : r.Respects f) (lo hi : Nat) :
    (rep r lo hi).Respects f :=
  ⟨respects_power hr lo, respects_upTo hr (hi - lo)⟩

variable {f : α → α}

theorem goStar_map {p : α → Bool} (hp : ∀ a, p (f a) = p a) {k₁ k₂ : List α → Spans → Option β}
    (hk : ∀ rest spans, k₁ (rest.map f) spans = k₂ rest spans) (input : List α) (spans : Spans) :
    goStar p k₁ (input.map f) spans = goStar p k₂ input spans := by
  induction input with
  | nil => exact hk [] spans
  | cons a input ih =>
    have hhead := hk (a :: input) spans
    simp only [List.map_cons] at hhead
    simp only [List.map_cons, goStar, hp, ih, hhead]

/-- Matching the images is matching the symbols, when the rests agree on images. The induction is
on the expression, with the rest of the pattern generalized. -/
theorem go_map {r : Regex α} (hr : r.Respects f) {k₁ k₂ : List α → Spans → Option β}
    (hk : ∀ rest spans, k₁ (rest.map f) spans = k₂ rest spans) (input : List α) (spans : Spans) :
    r.go (input.map f) spans k₁ = r.go input spans k₂ := by
  induction r generalizing k₁ k₂ input spans with
  | empty => exact hk input spans
  | set p =>
    cases input with
    | nil => rfl
    | cons a input => simp only [List.map_cons, go, show p (f a) = p a from hr a, hk]
  | seq r s ihr ihs =>
    exact ihr hr.1 (fun rest spans => ihs hr.2 hk rest spans) input spans
  | alt r s ihr ihs =>
    simp only [go, ihr hr.1 hk, ihs hr.2 hk]
  | opt r ih =>
    simp only [go, ih hr hk, hk]
  | star p => exact goStar_map hr hk input spans
  | group index r ih =>
    refine ih hr (fun rest spans => ?_) input spans
    simp only [List.length_map, hk]

theorem regexMatch_map {r : Regex α} (hr : r.Respects f) (input : List α) :
    regexMatch r (input.map f) = regexMatch r input :=
  go_map hr (fun rest spans => by simp only [List.isEmpty_map]) input _

end Regex

theorem capture_map {α : Type} (f : α → α) (input : List α) (spans : Spans) (index : Nat) :
    capture (input.map f) spans index = (capture input spans index).map f := by
  unfold capture
  split <;> simp [List.map_take, List.map_drop]

theorem capture_eq_of_span {α : Type} {input : List α} {spans : Spans} {index : Nat}
    (pre mid post : List α) (hinput : input = pre ++ mid ++ post)
    (hspan : spans[index]? = some (some ((mid ++ post).length, post.length))) :
    capture input spans index = mid := by
  subst hinput
  have hpre : (pre ++ mid ++ post).length - (mid ++ post).length = pre.length := by
    simp only [List.length_append]
    omega
  have hmid : (mid ++ post).length - post.length = mid.length := by
    simp only [List.length_append]
    omega
  simp only [capture, hspan]
  rw [hpre, hmid, List.append_assoc, List.drop_left, List.take_left]

theorem findSome?_regexMatch_map {α : Type} {f : α → α} {regexes : List (Regex α)}
    (hregexes : ∀ r ∈ regexes, r.Respects f) (input : List α) :
    regexes.findSome? (fun r => regexMatch r (input.map f)) =
      regexes.findSome? (fun r => regexMatch r input) := by
  induction regexes with
  | nil => rfl
  | cons r regexes ih =>
    have hhead := regexMatch_map (hregexes r List.mem_cons_self) input
    have htail := ih fun s hs => hregexes s (List.mem_cons_of_mem r hs)
    simp only [List.findSome?_cons, hhead, htail]

end FrescoDB.Lib
