import Mathlib

/-! A voter that grants at most one vote per term. Its durable state is a
term and the choice recorded for it; a move to a higher term forgets the
choice, a vote is cast only for a term with no choice yet (which records it),
or again for the recorded choice. Every run of such a voter grants, in each
term, votes for one candidate only, and its term never goes down. -/
namespace FrescoDB.Lib

structure Ballot (τ α : Type*) where
  term : τ
  choice : Option α

namespace Ballot

variable {τ α : Type*} [LinearOrder τ]

/-- One atomic change of the voter, with the vote it grants, if any. -/
inductive Step : Ballot τ α → Option (τ × α) → Ballot τ α → Prop
  | advance {b : Ballot τ α} {t : τ} : b.term < t → Step b none ⟨t, none⟩
  | cast {b : Ballot τ α} (c : α) : b.choice = none → Step b (some (b.term, c)) ⟨b.term, some c⟩
  | recast {b : Ballot τ α} {c : α} : b.choice = some c → Step b (some (b.term, c)) b

/-- A run of steps and the votes granted along it, the latest first. -/
inductive Steps : Ballot τ α → List (τ × α) → Ballot τ α → Prop
  | refl (b : Ballot τ α) : Steps b [] b
  | step {b b' b'' : Ballot τ α} {v : Option (τ × α)} {vs : List (τ × α)} :
      Step b v b' → Steps b' vs b'' → Steps b (vs ++ v.toList) b''

theorem Steps.single {b b' : Ballot τ α} {v : Option (τ × α)} (h : Step b v b') :
    Steps b v.toList b' := by
  simpa using Steps.step h (Steps.refl b')

theorem Steps.advance_cast {b : Ballot τ α} {t : τ} (c : α) (h : b.term < t) :
    Steps b [(t, c)] ⟨t, some c⟩ :=
  Steps.step (Step.advance h) (Steps.single (@Step.cast τ α _ ⟨t, none⟩ c rfl))

/-- Every vote granted is backed by the voter's state: its term has reached the vote's, and
while it is still at that term its choice names the vote's candidate. -/
def Backed (b : Ballot τ α) (votes : List (τ × α)) : Prop :=
  ∀ v ∈ votes, v.1 ≤ b.term ∧ (v.1 = b.term → b.choice = some v.2)

/-- At most one candidate per term. -/
def Unique (votes : List (τ × α)) : Prop :=
  ∀ v ∈ votes, ∀ w ∈ votes, v.1 = w.1 → v.2 = w.2

structure Inv (b : Ballot τ α) (votes : List (τ × α)) : Prop where
  backed : Backed b votes
  unique : Unique votes

theorem inv_nil (b : Ballot τ α) : Inv b [] where
  backed := by simp [Backed]
  unique := by simp [Unique]

theorem Inv.vote {b : Ballot τ α} {votes : List (τ × α)} {c : α} (hi : Inv b votes)
    (hc : b.choice = none ∨ b.choice = some c) :
    Unique ((b.term, c) :: votes) := by
  -- an old vote in the same term is backed by the choice, so it names `c`
  have old : ∀ w ∈ votes, w.1 = b.term → w.2 = c := by
    intro w hw ht
    have hw' := (hi.backed w hw).2 ht
    rcases hc with hc | hc
    · rw [hc] at hw'; cases hw'
    · rw [hc] at hw'; exact (Option.some.inj hw').symm
  intro v hv w hw hvw
  rcases List.mem_cons.mp hv with rfl | hv <;> rcases List.mem_cons.mp hw with rfl | hw
  · rfl
  · exact (old w hw hvw.symm).symm
  · exact old v hv hvw
  · exact hi.unique v hv w hw hvw

theorem Step.inv {b b' : Ballot τ α} {v : Option (τ × α)} {votes : List (τ × α)}
    (h : Step b v b') (hi : Inv b votes) : Inv b' (v.toList ++ votes) := by
  cases h with
  | advance hlt =>
    refine ⟨fun w hw => ?_, hi.unique⟩
    have hwt : w.1 < _ := lt_of_le_of_lt (hi.backed w (by simpa using hw)).1 hlt
    exact ⟨le_of_lt hwt, fun heq => absurd heq (ne_of_lt hwt)⟩
  | cast c hnone =>
    refine ⟨fun w hw => ?_, hi.vote (.inl hnone)⟩
    rcases List.mem_cons.mp hw with rfl | hw
    · exact ⟨le_refl _, fun _ => rfl⟩
    · obtain ⟨hle, hchoice⟩ := hi.backed w hw
      refine ⟨hle, fun heq => ?_⟩
      rw [hchoice heq] at hnone
      cases hnone
  | recast hsome =>
    refine ⟨fun w hw => ?_, hi.vote (.inr hsome)⟩
    rcases List.mem_cons.mp hw with rfl | hw
    · exact ⟨le_refl _, fun _ => hsome⟩
    · exact hi.backed w hw

theorem Steps.inv {b b' : Ballot τ α} {vs votes : List (τ × α)} (h : Steps b vs b')
    (hi : Inv b votes) : Inv b' (vs ++ votes) := by
  induction h generalizing votes with
  | refl => simpa using hi
  | step hstep _ ih =>
    simpa [List.append_assoc] using ih (hstep.inv hi)

theorem Step.term_le {b b' : Ballot τ α} {v : Option (τ × α)} (h : Step b v b') :
    b.term ≤ b'.term := by
  cases h with
  | advance hlt => exact le_of_lt hlt
  | cast => exact le_refl _
  | recast => exact le_refl _

theorem Steps.term_le {b b' : Ballot τ α} {vs : List (τ × α)} (h : Steps b vs b') :
    b.term ≤ b'.term := by
  induction h with
  | refl => exact le_refl _
  | step hstep _ ih => exact le_trans hstep.term_le ih

theorem Steps.vote_term {b b' : Ballot τ α} {vs : List (τ × α)} (h : Steps b vs b') :
    ∀ v ∈ vs, b.term ≤ v.1 ∧ v.1 ≤ b'.term := by
  induction h with
  | refl => simp
  | step hstep hrest ih =>
    intro v hv
    rcases List.mem_append.mp hv with hv | hv
    · exact ⟨le_trans hstep.term_le (ih v hv).1, (ih v hv).2⟩
    · -- the vote of the first step is for the term it starts in
      cases hstep with
      | advance => simp at hv
      | cast | recast =>
        simp only [Option.toList_some, List.mem_singleton] at hv
        subst hv
        exact ⟨le_refl _, hrest.term_le⟩

/-- The choice at the end of a run was there from its start, in the same term, or was voted
for along it. -/
theorem Steps.choice_source {b b' : Ballot τ α} {vs : List (τ × α)} (h : Steps b vs b') {c : α}
    (hc : b'.choice = some c) : (b'.term = b.term ∧ b.choice = some c) ∨ (b'.term, c) ∈ vs := by
  induction h with
  | refl => exact .inl ⟨rfl, hc⟩
  | step hstep _ ih =>
    rcases ih hc with ⟨ht, hc'⟩ | hmem
    · cases hstep with
      | advance => cases hc'
      | cast c0 =>
        cases hc'
        exact .inr (List.mem_append_right _ (by simp [ht]))
      | recast hsome => exact .inl ⟨ht, hc'⟩
    · exact .inr (List.mem_append_left _ hmem)

theorem Steps.choice_stable {b b' : Ballot τ α} {vs : List (τ × α)} (h : Steps b vs b')
    (ht : b'.term = b.term) {c : α} (hc : b.choice = some c) : b'.choice = some c := by
  induction h with
  | refl => exact hc
  | step hstep hrest ih =>
    have hle := hrest.term_le
    cases hstep with
    | advance hlt => exact absurd (ht ▸ hle) (not_le.mpr hlt)
    | cast _ hnone => rw [hnone] at hc; cases hc
    | recast => exact ih ht hc

end Ballot

end FrescoDB.Lib
