import FrescoDB.Consensus.ReplicaState
import FrescoDB.Lib.IndexWindow
import Mathlib

/-! The pending operations of a replica form the window of indexes right after
its committed index and up to its last received one, and the next index is the
one after that. Each handler keeps this, except a leader's append whose queue
fails with an error other than a full queue: the rounds stay pending, but the
last received OpId and the ids are not given back. -/
namespace FrescoDB.Consensus

open FrescoDB.Lib

namespace ReplicaState

def roundIndex (r : ConsensusRound) : Int := r.id.index

-- Equation lemmas, made once before their uses.
section
attribute [local simp] roundIndex
end

structure Inv (s : ReplicaState) : Prop where
  window : IsWindow roundIndex s.lastCommittedOpId.index s.pendingOperations
  received : s.lastReceivedOpId.index = s.lastCommittedOpId.index + s.pendingOperations.length
  next : s.nextIndex = s.lastReceivedOpId.index + 1

section Window

variable {s : ReplicaState}

theorem findPendingOperation_eq
    (hw : IsWindow roundIndex s.lastCommittedOpId.index s.pendingOperations) (i : Int) :
    s.findPendingOperation i = if s.lastCommittedOpId.index < i then
      s.pendingOperations[(i - (s.lastCommittedOpId.index + 1)).toNat]?.map
        (fun round => ((i - (s.lastCommittedOpId.index + 1)).toNat, round)) else none := by
  unfold findPendingOperation
  cases hp : s.pendingOperations with
  | nil => simp
  | cons front rest =>
    have hfront : front.id.index = s.lastCommittedOpId.index + 1 := by
      rw [hp] at hw
      exact (isWindow_cons.mp hw).1
    dsimp only
    by_cases hi : s.lastCommittedOpId.index < i
    · rw [if_pos hi, if_neg (by omega), hfront]
    · rw [if_neg hi, if_pos (by omega)]

theorem findPendingOperation_of_pending
    (hw : IsWindow roundIndex s.lastCommittedOpId.index s.pendingOperations) {i : Int}
    (hlo : s.lastCommittedOpId.index < i)
    (hhi : i ≤ s.lastCommittedOpId.index + s.pendingOperations.length) :
    ∃ position round, s.findPendingOperation i = some (position, round) ∧
      s.pendingOperations[position]? = some round ∧ round.id.index = i ∧
      (position : Int) = i - (s.lastCommittedOpId.index + 1) := by
  obtain ⟨hk, hget, hidx⟩ := hw.getElem?_offset hlo hhi
  refine ⟨_, _, ?_, hget, hidx, Int.toNat_of_nonneg (by omega)⟩
  rw [findPendingOperation_eq hw, if_pos hlo, hget]
  rfl

theorem findPendingOperation_of_not_pending
    (hw : IsWindow roundIndex s.lastCommittedOpId.index s.pendingOperations) {i : Int}
    (hi : i ≤ s.lastCommittedOpId.index ∨
      s.lastCommittedOpId.index + s.pendingOperations.length < i) :
    s.findPendingOperation i = none := by
  rw [findPendingOperation_eq hw]
  split
  · rw [List.getElem?_eq_none_iff.mpr (by omega)]
    rfl
  · rfl

end Window

theorem abortOpsAfterUnlocked_inv {s s' : ReplicaState} {i : Int} (hi : Inv s)
    (h : s.abortOpsAfterUnlocked i = some s') :
    Inv s' ∧ s'.lastCommittedOpId = s.lastCommittedOpId ∧ s'.currentTerm = s.currentTerm ∧
      s'.lastReceivedOpId.index = i ∧ s.lastCommittedOpId.index ≤ i ∧
      i ≤ s.lastReceivedOpId.index := by
  unfold abortOpsAfterUnlocked at h
  by_cases hpend : s.lastCommittedOpId.index < i ∧
      i ≤ s.lastCommittedOpId.index + s.pendingOperations.length
  · obtain ⟨position, round, hfind, hget, hidx, hpos⟩ :=
      findPendingOperation_of_pending hi.window hpend.1 hpend.2
    rw [hfind] at h
    cases h
    have hlen : position < s.pendingOperations.length := by
      rw [List.getElem?_eq_some_iff] at hget
      exact hget.1
    refine ⟨⟨hi.window.take _, ?_, rfl⟩, rfl, rfl, hidx, le_of_lt hpend.1, hi.received ▸ hpend.2⟩
    simp only [List.length_take]
    omega
  · rw [findPendingOperation_of_not_pending hi.window (by omega)] at h
    dsimp only at h
    split at h
    · cases h
    · rename_i hc
      simp only [bne_iff_ne, ne_eq, Decidable.not_not] at hc
      subst hc
      -- the committed round is the new preceding one: every pending round follows it
      have hw := hi.window
      revert h hw
      cases hp : s.pendingOperations with
      | nil =>
        intro h _
        cases h
        exact ⟨⟨isWindow_nil _, by simp, rfl⟩, rfl, rfl, rfl, le_refl _, by
          have := hi.received; rw [hp] at this; simp at this; omega⟩
      | cons front rest =>
        intro h hw
        have hfront : front.id.index = s.lastCommittedOpId.index + 1 := (isWindow_cons.mp hw).1
        dsimp only at h
        rw [if_pos (by omega), List.take_zero] at h
        cases h
        exact ⟨⟨isWindow_nil _, by simp, rfl⟩, rfl, rfl, rfl, le_refl _, by
          have := hi.received; rw [hp] at this; simp at this; omega⟩

/-- Under the invariant the check finds every pending round it looks for; what it answers is
decided by where the index falls. -/
theorem isOpCommittedOrPending_inv {s : ReplicaState} (hi : Inv s) (opId : OpId) :
    ∃ committedOrPending termMismatch,
      s.isOpCommittedOrPending opId = some (committedOrPending, termMismatch) ∧
      (committedOrPending = true → opId.index ≤ s.lastReceivedOpId.index) ∧
      (termMismatch = true → committedOrPending = false ∧
        s.lastCommittedOpId.index < opId.index ∧ opId.index ≤ s.lastReceivedOpId.index) ∧
      (committedOrPending = false → termMismatch = false →
        s.lastReceivedOpId.index < opId.index) := by
  have hr := hi.received
  unfold isOpCommittedOrPending
  by_cases hc : opId.index ≤ s.lastCommittedOpId.index
  · rw [if_pos hc]
    exact ⟨_, _, rfl, fun _ => by omega, by simp, by simp⟩
  rw [if_neg hc]
  by_cases hgt : opId.index > s.lastReceivedOpId.index
  · rw [if_pos hgt]
    exact ⟨_, _, rfl, by simp, by simp, fun _ _ => hgt⟩
  rw [if_neg hgt]
  obtain ⟨position, round, hfind, -, -, -⟩ :=
    findPendingOperation_of_pending hi.window (not_le.mp hc) (by omega)
  simp only [getPendingOpByIndexOrNullUnlocked, hfind, Option.map_some]
  split
  · exact ⟨_, _, rfl, by simp, fun _ => ⟨rfl, not_le.mp hc, not_lt.mp hgt⟩, by simp⟩
  · exact ⟨_, _, rfl, fun _ => not_lt.mp hgt, by simp, by simp⟩

/-! Applying committed rounds. -/

/-- The apply loop takes rounds off the front of a window: it stops after `k` of them, the last
applied being the `k`-th. -/
theorem applyLoop_window {committedOpId : OpId} {couldStop : Bool} {shouldApplyWrite : Nat → Bool}
    {l : List ConsensusRound} :
    ∀ {prevId prevId' : OpId} {n : Nat} {rest : List ConsensusRound},
      IsWindow roundIndex prevId.index l →
      applyLoop committedOpId couldStop shouldApplyWrite prevId l n = some (prevId', rest) →
      ∃ k ≤ l.length, rest = l.drop k ∧ prevId'.index = prevId.index + k := by
  induction l with
  | nil =>
    intro prevId prevId' n rest _ h
    cases h
    exact ⟨0, le_refl _, rfl, by simp⟩
  | cons round l ih =>
    intro prevId prevId' n rest hw h
    obtain ⟨hround, hw'⟩ := isWindow_cons.mp hw
    have hround' : round.id.index = prevId.index + 1 := hround
    simp only [applyLoop] at h
    -- the loop stops before this round, crashes, or applies it and goes on
    split_ifs at h
    · cases h
      exact ⟨0, Nat.zero_le _, rfl, by simp⟩
    · cases h
      exact ⟨0, Nat.zero_le _, rfl, by simp⟩
    rw [← hround'] at hw'
    obtain ⟨k, hk, rfl, hidx⟩ := ih hw' h
    refine ⟨k + 1, by simp [hk], by simp, ?_⟩
    omega

/-- What applying committed rounds does: the committed OpId moves up through the window, and
nothing else changes. -/
structure Applies (s s' : ReplicaState) : Prop where
  inv : Inv s'
  committed_le : s.lastCommittedOpId.index ≤ s'.lastCommittedOpId.index
  received : s'.lastReceivedOpId = s.lastReceivedOpId
  term : s'.currentTerm = s.currentTerm
  next : s'.nextIndex = s.nextIndex

theorem Applies.refl {s : ReplicaState} (hi : Inv s) : Applies s s :=
  ⟨hi, le_refl _, rfl, rfl, rfl⟩

theorem applyPendingOperationsUnlocked_applies {s s' : ReplicaState} {committedOpId : OpId}
    {couldStop : Bool} {shouldApplyWrite : Nat → Bool} (hi : Inv s)
    (h : s.applyPendingOperationsUnlocked committedOpId couldStop shouldApplyWrite = some s') :
    Applies s s' := by
  unfold applyPendingOperationsUnlocked at h
  cases hloop : applyLoop committedOpId couldStop shouldApplyWrite s.lastCommittedOpId
      s.pendingOperations 0 with
  | none => simp [hloop] at h
  | some r =>
    obtain ⟨prevId, rest⟩ := r
    obtain ⟨k, hk, rfl, hprev⟩ := applyLoop_window hi.window hloop
    simp only [hloop, bind, Option.bind, setLastCommittedIndexUnlocked] at h
    split at h
    · cases h
    · cases h
      have hr := hi.received
      refine ⟨⟨?_, ?_, hi.next⟩, show _ ≤ prevId.index by omega, rfl, rfl, rfl⟩
      · rw [hprev]
        exact hi.window.drop hk
      · simp only [List.length_drop, hprev]
        omega

theorem advanceCommittedOpIdUnlocked_applies {s s' : ReplicaState} {committedOpId : OpId}
    {couldStop : Bool} {shouldApplyWrite : Nat → Bool} {r : Except String Bool} (hi : Inv s)
    (h : s.advanceCommittedOpIdUnlocked committedOpId couldStop shouldApplyWrite = some (s', r)) :
    Applies s s' := by
  unfold advanceCommittedOpIdUnlocked at h
  split at h
  · cases h
    exact Applies.refl hi
  split at h
  · cases h
    exact Applies.refl hi
  split at h
  · cases h
  cases happly : s.applyPendingOperationsUnlocked committedOpId couldStop shouldApplyWrite with
  | none => simp [happly] at h
  | some s₁ =>
    simp only [happly, bind, Option.bind] at h
    cases h
    exact applyPendingOperationsUnlocked_applies hi happly

/-! The leader's append. -/

theorem appendRoundsLoop_cons_ok (s : ReplicaState) (appended : List OpId)
    (opType : OperationType) (rest : List (OperationType × Outcome)) :
    s.appendRoundsLoop appended ((opType, .ok) :: rest) =
      appendRoundsLoop
        { s with nextIndex := s.nextIndex + 1,
                 pendingOperations := s.pendingOperations ++ [⟨⟨s.currentTerm, s.nextIndex⟩, opType⟩] }
        (appended ++ [⟨s.currentTerm, s.nextIndex⟩]) rest := by
  simp only [appendRoundsLoop, newIdUnlocked, addPendingOperation, if_pos]

/-- A round whose checks fail gives its id back at once, which sets the last received OpId to
the one before it. -/
theorem appendRoundsLoop_cons_of_ne_ok (s : ReplicaState) (appended : List OpId)
    (opType : OperationType) {check : Outcome} (hcheck : check ≠ .ok)
    (rest : List (OperationType × Outcome)) :
    s.appendRoundsLoop appended ((opType, check) :: rest) =
      let s' := { s with lastReceivedOpId := ⟨s.currentTerm, s.nextIndex - 1⟩ }
      if check = .alreadyPresent then s'.appendRoundsLoop appended rest
      else (s'.rollbackIds appended.reverse).bind fun s => some (s, none) := by
  simp [appendRoundsLoop, newIdUnlocked, addPendingOperation, hcheck, cancelPendingOperation]

/-- The state of the leader's append loop over `s₀`: the rounds `added`, of the current term,
follow the pending rounds of `s₀`; the last received OpId may lag only while rounds are added. -/
structure Appending (s₀ s : ReplicaState) (added : List ConsensusRound) : Prop where
  pending : s.pendingOperations = s₀.pendingOperations ++ added
  window : IsWindow roundIndex s₀.lastCommittedOpId.index s.pendingOperations
  next : s.nextIndex = s₀.lastCommittedOpId.index + s.pendingOperations.length + 1
  term : s.currentTerm = s₀.currentTerm
  committed : s.lastCommittedOpId = s₀.lastCommittedOpId
  added_term : ∀ r ∈ added, r.id.term = s₀.currentTerm
  received : added = [] →
    s.lastReceivedOpId.index = s₀.lastCommittedOpId.index + s.pendingOperations.length

section Appending

variable {s₀ s : ReplicaState} {added : List ConsensusRound}

theorem Inv.appending (hi : Inv s) : Appending s s [] where
  pending := by simp
  window := hi.window
  next := by rw [hi.next, hi.received]
  term := rfl
  committed := rfl
  added_term := by simp
  received := fun _ => hi.received

theorem Appending.inv_of_nil (h : Appending s₀ s []) : Inv s := by
  have hr := h.received rfl
  refine ⟨?_, ?_, ?_⟩
  · rw [h.committed]
    exact h.window
  · rw [h.committed, hr]
  · rw [h.next, hr]

theorem Appending.add (h : Appending s₀ s added) (opType : OperationType) :
    Appending s₀
      { s with nextIndex := s.nextIndex + 1,
               pendingOperations := s.pendingOperations ++ [⟨⟨s.currentTerm, s.nextIndex⟩, opType⟩] }
      (added ++ [⟨⟨s.currentTerm, s.nextIndex⟩, opType⟩]) where
  pending := by simp [h.pending]
  window := h.window.concat (by simp only [roundIndex, h.next])
  next := by
    simp only [List.length_append, List.length_singleton, h.next]
    omega
  term := h.term
  committed := h.committed
  added_term := by
    intro r hr
    rcases List.mem_append.mp hr with hr | hr
    · exact h.added_term r hr
    · rw [List.mem_singleton.mp hr]
      exact h.term
  received := by simp

/-- Giving the id of a failed round back leaves the last received OpId right before the next
index. -/
theorem Appending.cancel (h : Appending s₀ s added) :
    Appending s₀ { s with lastReceivedOpId := ⟨s.currentTerm, s.nextIndex - 1⟩ } added ∧
      s.nextIndex - 1 = s₀.lastCommittedOpId.index + s.pendingOperations.length := by
  have hn := h.next
  exact ⟨⟨h.pending, h.window, h.next, h.term, h.committed, h.added_term,
    fun _ => by simp only; omega⟩, by omega⟩

theorem Appending.inv_of_cancel (h : Appending s₀ s added) (added_eq : added = []) :
    Inv { s with lastReceivedOpId := ⟨s.currentTerm, s.nextIndex - 1⟩ } :=
  added_eq ▸ h.cancel.1 |>.inv_of_nil

theorem Appending.last_index {r : ConsensusRound} (h : Appending s₀ s (added ++ [r])) :
    r.id.index = s₀.lastCommittedOpId.index + s.pendingOperations.length := by
  have hne : s.pendingOperations ≠ [] := by simp [h.pending]
  have hr : s.pendingOperations.getLast hne = r := by simp [h.pending, ← List.append_assoc]
  simpa only [roundIndex, hr] using h.window.getLast hne

theorem Appending.cancel_last {r : ConsensusRound} (h : Appending s₀ s (added ++ [r])) :
    ∃ s', s.cancelPendingOperation r.id true = some s' ∧ Appending s₀ s' added := by
  have hlast := h.last_index
  have hterm : r.id.term = s.currentTerm := by
    rw [h.term]
    exact h.added_term r (by simp)
  have hlen : s.pendingOperations.length = s₀.pendingOperations.length + added.length + 1 := by
    simp [h.pending, Nat.add_assoc]
  refine ⟨{ s with nextIndex := r.id.index, lastReceivedOpId := ⟨r.id.term, r.id.index - 1⟩,
                   pendingOperations := s.pendingOperations.dropLast }, ?_, ?_⟩
  · unfold cancelPendingOperation
    rw [if_neg (by simp [hterm, h.next, hlast])]
    rfl
  · have hdrop : s.pendingOperations.dropLast = s₀.pendingOperations ++ added := by
      rw [h.pending, ← List.append_assoc, List.dropLast_concat]
    refine ⟨hdrop, ?_, ?_, h.term, h.committed, ?_, fun _ => ?_⟩
    · exact h.window.dropLast
    · simp only [hdrop, List.length_append]
      omega
    · exact fun r' hr' => h.added_term r' (by simp [hr'])
    · simp only [hdrop, List.length_append, hlast, hlen]
      omega

theorem Appending.rollbackIds_inv {s' : ReplicaState} (h : Appending s₀ s added)
    (hroll : s.rollbackIds (added.map (·.id)).reverse = some s') :
    Inv s' ∧ s'.currentTerm = s₀.currentTerm ∧ s'.lastCommittedOpId = s₀.lastCommittedOpId := by
  induction added using List.reverseRecOn generalizing s with
  | nil =>
    cases hroll
    exact ⟨h.inv_of_nil, h.term, h.committed⟩
  | append_singleton added r ih =>
    obtain ⟨s₁, hcancel, h₁⟩ := h.cancel_last
    simp only [List.map_append, List.map_cons, List.map_nil, List.reverse_append,
      List.reverse_cons, List.reverse_nil, List.nil_append, List.singleton_append, rollbackIds,
      hcancel, bind, Option.bind] at hroll
    exact ih h₁ hroll

/-- The loop ends with the invariant restored after a failed round, or with the added rounds
waiting for the consensus queue. -/
theorem Appending.appendRoundsLoop_spec {rounds : List (OperationType × Outcome)} :
    ∀ {s s' : ReplicaState} {added : List ConsensusRound} {r : Option (List OpId)},
      Appending s₀ s added → s.appendRoundsLoop (added.map (·.id)) rounds = some (s', r) →
      (r = none → Inv s' ∧ s'.currentTerm = s₀.currentTerm ∧
        s'.lastCommittedOpId = s₀.lastCommittedOpId) ∧
      ∀ ids, r = some ids → ∃ added', Appending s₀ s' added' ∧ ids = added'.map (·.id) := by
  induction rounds with
  | nil =>
    intro s s' added r hA h
    cases h
    exact ⟨nofun, fun ids hids => ⟨added, hA, (Option.some.inj hids).symm⟩⟩
  | cons round rest ih =>
    intro s s' added r hA h
    obtain ⟨opType, check⟩ := round
    by_cases hc : check = .ok
    · -- the round is added with the next id
      subst hc
      rw [appendRoundsLoop_cons_ok] at h
      have hids : added.map (·.id) ++ [(⟨s.currentTerm, s.nextIndex⟩ : OpId)] =
          (added ++ [(⟨⟨s.currentTerm, s.nextIndex⟩, opType⟩ : ConsensusRound)]).map (·.id) := by
        simp
      rw [hids] at h
      exact ih (hA.add opType) h
    rw [appendRoundsLoop_cons_of_ne_ok _ _ _ hc] at h
    dsimp only at h
    split at h
    · exact ih hA.cancel.1 h
    -- any other failure rolls back the rounds added so far
    cases hroll : (ReplicaState.rollbackIds { s with lastReceivedOpId := ⟨s.currentTerm, s.nextIndex - 1⟩ }
        (added.map (·.id)).reverse) with
    | none => simp [hroll] at h
    | some s₁ =>
      simp only [hroll, Option.bind_some, Option.some.injEq, Prod.mk.injEq] at h
      obtain ⟨rfl, rfl⟩ := h
      exact ⟨fun _ => hA.cancel.1.rollbackIds_inv hroll, nofun⟩

end Appending

/-- A leader's append leaves the committed OpId alone, and keeps the invariant when the consensus
queue takes the rounds or is full. -/
theorem appendNewRoundsToQueueUnlocked_inv {s s' : ReplicaState}
    {rounds : List (OperationType × Outcome)} {appendOutcome : Outcome} (hi : Inv s)
    (h : s.appendNewRoundsToQueueUnlocked rounds appendOutcome = some s') :
    s'.lastCommittedOpId = s.lastCommittedOpId ∧
      (appendOutcome = .ok ∨ appendOutcome = .serviceUnavailable → Inv s') := by
  unfold appendNewRoundsToQueueUnlocked at h
  cases hloop : s.appendRoundsLoop [] rounds with
  | none => simp [hloop] at h
  | some p =>
    obtain ⟨s₁, r⟩ := p
    have hspec := hi.appending.appendRoundsLoop_spec
      (show s.appendRoundsLoop (([] : List ConsensusRound).map (·.id)) rounds = some (s₁, r) from hloop)
    simp only [hloop, bind, Option.bind] at h
    cases r with
    | none =>
      cases h
      exact ⟨(hspec.1 rfl).2.2, fun _ => (hspec.1 rfl).1⟩
    | some ids =>
      obtain ⟨added, hA, rfl⟩ := hspec.2 _ rfl
      rcases List.eq_nil_or_concat added with rfl | ⟨init, last, rfl⟩
      · cases h
        exact ⟨hA.committed, fun _ => hA.inv_of_nil⟩
      rw [List.concat_eq_append] at hA
      simp only [List.concat_eq_append, List.map_append, List.map_cons, List.map_nil,
        List.getLast?_concat] at h
      cases appendOutcome with
      | ok =>
        -- the queue took the rounds: the last one is the last received
        cases h
        have hlast := hA.last_index
        refine ⟨hA.committed, fun _ => ⟨?_, ?_, rfl⟩⟩
        · simpa only [updateLastReceivedOpIdUnlocked, hA.committed] using hA.window
        · simpa only [updateLastReceivedOpIdUnlocked, hA.committed] using hlast
      | serviceUnavailable =>
        have := hA.rollbackIds_inv (by simpa only [List.map_append, List.map_cons, List.map_nil] using h)
        exact ⟨this.2.2, fun _ => this.1⟩
      | alreadyPresent =>
        cases h
        exact ⟨hA.committed, by simp⟩
      | failed =>
        cases h
        exact ⟨hA.committed, by simp⟩

/-! The follower's update. -/

theorem checkOpInSequence_ok {previous current : OpId}
    (h : checkOpInSequence previous current = .ok ()) :
    previous.term ≤ current.term ∧ current.index = previous.index + 1 := by
  unfold checkOpInSequence at h
  split_ifs at h with hterm hindex
  simp only [bne_iff_ne, ne_eq, Decidable.not_not] at hindex
  exact ⟨not_lt.mp hterm, hindex⟩

theorem checkSequence_window : ∀ {prev : OpId} {messages : List ConsensusRound},
    checkSequence prev messages = .ok () → IsWindow roundIndex prev.index messages
  | _, [], _ => isWindow_nil _
  | prev, message :: rest, h => by
    cases hc : checkOpInSequence prev message.id with
    | error e => simp [checkSequence, hc, bind, Except.bind] at h
    | ok u =>
      simp only [checkSequence, hc, bind, Except.bind] at h
      have hidx := (checkOpInSequence_ok hc).2
      refine isWindow_cons.mpr ⟨hidx, ?_⟩
      rw [← hidx]
      exact checkSequence_window h

theorem enforceLogMatchingPropertyMatchesUnlocked_spec {s s' : ReplicaState}
    {deduped : LeaderRequest} {matched : Bool} (hi : Inv s)
    (h : s.enforceLogMatchingPropertyMatchesUnlocked deduped = some (s', matched)) :
    Inv s' ∧ s'.lastCommittedOpId = s.lastCommittedOpId ∧
      (matched = true → s' = s ∧ deduped.precedingOpId.index ≤ s.lastReceivedOpId.index) := by
  obtain ⟨committedOrPending, termMismatch, hcp, hle, -, -⟩ :=
    isOpCommittedOrPending_inv hi deduped.precedingOpId
  unfold enforceLogMatchingPropertyMatchesUnlocked at h
  simp only [hcp, bind, Option.bind] at h
  split_ifs at h with hc ht
  · cases h
    exact ⟨hi, rfl, fun _ => ⟨rfl, hle hc⟩⟩
  · cases habort : s.abortOpsAfterUnlocked (deduped.precedingOpId.index - 1) with
    | none => simp [habort] at h
    | some s₁ =>
      simp only [habort, Option.some.injEq, Prod.mk.injEq] at h
      obtain ⟨rfl, rfl⟩ := h
      obtain ⟨hi₁, hc₁, -⟩ := abortOpsAfterUnlocked_inv hi habort
      exact ⟨hi₁, hc₁, nofun⟩
  · cases h
    exact ⟨hi, rfl, nofun⟩

/-- What the follower takes on from a checked request: the messages follow the preceding OpId,
which is the last received one when there are messages. -/
structure Accepted (s : ReplicaState) (deduped : LeaderRequest) : Prop where
  inv : Inv s
  window : IsWindow roundIndex deduped.precedingOpId.index deduped.messages
  preceding : deduped.messages ≠ [] → deduped.precedingOpId.index = s.lastReceivedOpId.index

/-- The check of the first deduplicated message: a pending round of its index with another term
is aborted, so that the message follows the last received OpId. -/
theorem Accepted.of_first {s s' : ReplicaState} {deduped : LeaderRequest}
    {first : ConsensusRound} {rest : List ConsensusRound} {r : Option LeaderRequest}
    (hi : Inv s) (hmsg : deduped.messages = first :: rest)
    (hw : IsWindow roundIndex deduped.precedingOpId.index deduped.messages)
    (hprec : deduped.precedingOpId.index ≤ s.lastReceivedOpId.index)
    (h : (do
      let (committedOrPending, termMismatch) ← s.isOpCommittedOrPending first.id
      if committedOrPending then some (s, none)
      else if termMismatch then
        let s ← s.abortOpsAfterUnlocked deduped.precedingOpId.index
        some (s, some deduped)
      else some (s, some deduped)) = some (s', r)) :
    s'.lastCommittedOpId = s.lastCommittedOpId ∧ Inv s' ∧
      ∀ deduped', r = some deduped' → deduped' = deduped ∧ Accepted s' deduped := by
  have hfirst : first.id.index = deduped.precedingOpId.index + 1 := by
    rw [hmsg] at hw
    exact (isWindow_cons.mp hw).1
  obtain ⟨committedOrPending, termMismatch, hcp, -, htm, hnone⟩ := isOpCommittedOrPending_inv hi first.id
  simp only [hcp, bind, Option.bind] at h
  split_ifs at h with hc ht
  · cases h
    exact ⟨rfl, hi, nofun⟩
  · cases habort : s.abortOpsAfterUnlocked deduped.precedingOpId.index with
    | none => simp [habort] at h
    | some s₁ =>
      simp only [habort, Option.some.injEq, Prod.mk.injEq] at h
      obtain ⟨rfl, rfl⟩ := h
      obtain ⟨hi₁, hc₁, -, hr₁, -⟩ := abortOpsAfterUnlocked_inv hi habort
      exact ⟨hc₁, hi₁, fun _ hd => ⟨(Option.some.inj hd).symm, hi₁, hw, fun _ => hr₁.symm⟩⟩
  · cases h
    -- neither committed nor pending: the first message is past the last received OpId
    have hgt := hnone (by simpa using hc) (by simpa using ht)
    exact ⟨rfl, hi, fun _ hd => ⟨(Option.some.inj hd).symm, hi, hw, fun _ => by omega⟩⟩

theorem checkLeaderRequestUnlocked_spec {s s' : ReplicaState} {request : ConsensusRequest}
    {r : Option LeaderRequest} (hi : Inv s)
    (h : s.checkLeaderRequestUnlocked request = some (s', r)) :
    s'.lastCommittedOpId = s.lastCommittedOpId ∧ Inv s' ∧
      ∀ deduped, r = some deduped → Accepted s' deduped := by
  unfold checkLeaderRequestUnlocked at h
  cases hd : s.deduplicateLeaderRequestUnlocked request with
  | none => simp [hd] at h
  | some deduped =>
    simp only [hd, bind, Option.bind] at h
    cases hseq : checkLeaderRequestOpIdSequence deduped with
    | error e =>
      simp only [hseq, Option.some.injEq, Prod.mk.injEq] at h
      obtain ⟨rfl, rfl⟩ := h
      exact ⟨rfl, hi, nofun⟩
    | ok u =>
      have hw := checkSequence_window hseq
      simp only [hseq] at h
      by_cases hlt : request.callerTerm < s.currentTerm
      · rw [if_pos hlt] at h
        cases h
        exact ⟨rfl, hi, nofun⟩
      rw [if_neg hlt] at h
      -- the term advance leaves the pending operations alone
      generalize hs₁ : (if request.callerTerm > s.currentTerm then
        { s with currentTerm := request.callerTerm } else s) = s₁ at h
      have hs₁' : Inv s₁ ∧ s₁.lastCommittedOpId = s.lastCommittedOpId := by
        subst hs₁
        split
        · exact ⟨⟨hi.window, hi.received, hi.next⟩, rfl⟩
        · exact ⟨hi, rfl⟩
      cases hm : s₁.enforceLogMatchingPropertyMatchesUnlocked deduped with
      | none => simp [hm] at h
      | some p =>
        obtain ⟨s₂, matched⟩ := p
        obtain ⟨hi₂, hc₂, hmatch⟩ := enforceLogMatchingPropertyMatchesUnlocked_spec hs₁'.1 hm
        simp only [hm] at h
        cases matched with
        | false =>
          simp only [Bool.not_false, if_true, Option.some.injEq, Prod.mk.injEq] at h
          obtain ⟨rfl, rfl⟩ := h
          exact ⟨hc₂.trans hs₁'.2, hi₂, nofun⟩
        | true =>
          obtain ⟨rfl, hprec⟩ := hmatch rfl
          simp only [Bool.not_true] at h
          cases hmsg : deduped.messages with
          | nil =>
            simp only [hmsg] at h
            cases h
            exact ⟨hs₁'.2, hi₂, fun _ hd => Option.some.inj hd ▸ ⟨hi₂, hw, by simp [hmsg]⟩⟩
          | cons first rest =>
            simp only [hmsg] at h
            obtain ⟨hc₃, hi₃, hr₃⟩ := Accepted.of_first hi₂ hmsg hw hprec h
            exact ⟨hc₃.trans hs₁'.2, hi₃, fun d hd => (hr₃ d hd).1 ▸ (hr₃ d hd).2⟩

theorem Accepted.of_applies {s s' : ReplicaState} {deduped : LeaderRequest}
    (hA : Accepted s deduped) (happ : Applies s s') : Accepted s' deduped :=
  ⟨happ.inv, hA.window, fun hne => happ.received ▸ hA.preceding hne⟩

theorem Accepted.take {s : ReplicaState} {deduped : LeaderRequest} (hA : Accepted s deduped)
    (k : Nat) : Accepted s { deduped with messages := deduped.messages.take k } :=
  ⟨hA.inv, hA.window.take k, fun hne => hA.preceding fun h => hne (by simp [h])⟩

theorem Accepted.inv_append {s : ReplicaState} {deduped : LeaderRequest} {last : ConsensusRound}
    (hA : Accepted s deduped) (hlast : deduped.messages.getLast? = some last) :
    Inv ({ s with pendingOperations := s.pendingOperations ++ deduped.messages }.updateLastReceivedOpIdUnlocked
      last.id) := by
  have hne : deduped.messages ≠ [] := by
    intro h
    simp [h] at hlast
  have hget : deduped.messages.getLast hne = last := by
    rw [List.getLast?_eq_some_getLast hne] at hlast
    exact Option.some.inj hlast
  have hprec := hA.preceding hne
  have hr := hA.inv.received
  have hidx := hA.window.getLast hne
  rw [hget] at hidx
  refine ⟨?_, ?_, rfl⟩
  · refine hA.inv.window.append ?_
    rw [← hr, ← hprec]
    exact hA.window
  · simp only [updateLastReceivedOpIdUnlocked, List.length_append]
    simp only [roundIndex] at hidx
    omega

theorem earlyCommitUnlocked_applies {s s' : ReplicaState} {request : ConsensusRequest}
    {deduped : LeaderRequest} {shouldApplyWrite : Nat → Bool} {r : Except String Bool}
    (hi : Inv s) (h : s.earlyCommitUnlocked request deduped shouldApplyWrite = some (s', r)) :
    Applies s s' :=
  advanceCommittedOpIdUnlocked_applies hi h

theorem prepareLoop_spec {prepare : ConsensusRound → Outcome} {messages : List ConsensusRound} :
    ∀ {s s' : ReplicaState} {started : List ConsensusRound},
      s.prepareLoop prepare messages = (s', started) →
      ∃ k, started = messages.take k ∧
        s' = { s with pendingOperations := s.pendingOperations ++ started } := by
  induction messages with
  | nil =>
    intro s s' started h
    cases h
    exact ⟨0, rfl, by simp⟩
  | cons msg rest ih =>
    intro s s' started h
    by_cases hp : prepare msg = .ok
    · simp only [prepareLoop, addPendingOperation, hp, if_true] at h
      cases hl : prepareLoop { s with pendingOperations := s.pendingOperations ++ [msg] } prepare
          rest with
      | mk s₁ started₁ =>
        rw [hl] at h
        cases h
        obtain ⟨k, rfl, rfl⟩ := ih hl
        exact ⟨k + 1, rfl, by simp⟩
    · have hadd : s.addPendingOperation msg (prepare msg) = (prepare msg, s) := by
        simp [addPendingOperation, hp]
      simp only [prepareLoop, hadd] at h
      cases h
      exact ⟨0, rfl, by simp⟩

theorem enqueuePreparesUnlocked_spec {s s' : ReplicaState} {deduped deduped' : LeaderRequest}
    {prepare : ConsensusRound → Outcome} {prepared : Bool}
    (h : s.enqueuePreparesUnlocked deduped prepare = (s', deduped', prepared)) :
    ∃ k, deduped' = { deduped with messages := deduped.messages.take k } ∧
      s' = { s with pendingOperations := s.pendingOperations ++ deduped'.messages } ∧
      (prepared = false → deduped'.messages = []) := by
  unfold enqueuePreparesUnlocked at h
  cases hl : s.prepareLoop prepare deduped.messages with
  | mk s₁ started =>
    rw [hl] at h
    cases h
    obtain ⟨k, rfl, rfl⟩ := prepareLoop_spec hl
    refine ⟨k, rfl, rfl, fun hprep => ?_⟩
    simp only [Bool.not_eq_eq_eq_not, Bool.not_false, Bool.and_eq_true] at hprep
    exact List.isEmpty_iff.mp hprep.1

theorem markOperationsAsCommittedUnlocked_inv {s s' : ReplicaState} {request : ConsensusRequest}
    {deduped : LeaderRequest} {lastFromLeader : OpId} {shouldApplyWrite : Nat → Bool}
    {r : Except String Bool} (hA : Accepted s deduped)
    (h : { s with pendingOperations := s.pendingOperations ++ deduped.messages
      }.markOperationsAsCommittedUnlocked request deduped lastFromLeader shouldApplyWrite =
        some (s', r)) :
    Inv s' ∧ s.lastCommittedOpId.index ≤ s'.lastCommittedOpId.index := by
  unfold markOperationsAsCommittedUnlocked at h
  dsimp only at h
  split at h
  · -- the last message appended is the last received
    rename_i last hlast
    have happ := advanceCommittedOpIdUnlocked_applies (hA.inv_append hlast) h
    exact ⟨happ.inv, happ.committed_le⟩
  · rename_i hnone
    have hnil : deduped.messages = [] := List.getLast?_eq_none_iff.mp hnone
    simp only [hnil, List.append_nil] at h
    split at h
    · cases h
      exact ⟨hA.inv, le_refl _⟩
    · have happ := advanceCommittedOpIdUnlocked_applies hA.inv h
      exact ⟨happ.inv, happ.committed_le⟩

theorem updateReplica_inv {s s' : ReplicaState} {request : ConsensusRequest}
    {prepare : ConsensusRound → Outcome} {earlyApplyWrite markApplyWrite : Nat → Bool}
    (hi : Inv s) (h : s.updateReplica request prepare earlyApplyWrite markApplyWrite = some s') :
    Inv s' ∧ s.lastCommittedOpId.index ≤ s'.lastCommittedOpId.index := by
  unfold updateReplica at h
  cases hc : s.checkLeaderRequestUnlocked request with
  | none => simp [hc] at h
  | some p =>
    obtain ⟨s₁, r⟩ := p
    obtain ⟨hc₁, hi₁, hacc⟩ := checkLeaderRequestUnlocked_spec hi hc
    simp only [hc, bind, Option.bind] at h
    cases r with
    | none =>
      cases h
      exact ⟨hi₁, by rw [hc₁]⟩
    | some deduped =>
      simp only at h
      cases he : s₁.earlyCommitUnlocked request deduped earlyApplyWrite with
      | none => simp [he] at h
      | some q =>
        obtain ⟨s₂, early⟩ := q
        have happ := earlyCommitUnlocked_applies hi₁ he
        have hle₂ : s.lastCommittedOpId.index ≤ s₂.lastCommittedOpId.index :=
          hc₁ ▸ happ.committed_le
        simp only [he] at h
        cases early with
        | error e =>
          cases h
          exact ⟨happ.inv, hle₂⟩
        | ok changed =>
          simp only at h
          cases hq : s₂.enqueuePreparesUnlocked deduped prepare with
          | mk s₃ rest =>
            obtain ⟨deduped', prepared⟩ := rest
            obtain ⟨k, rfl, rfl, hprep⟩ := enqueuePreparesUnlocked_spec hq
            have hA := ((hacc deduped rfl).of_applies happ).take k
            simp only [hq] at h
            cases prepared with
            | false =>
              -- nothing could start: the state is the one after the early commit
              simp only [Bool.not_false, if_true, Option.some.injEq] at h
              subst h
              have hnil : deduped.messages.take k = [] := hprep rfl
              simp only [hnil, List.append_nil]
              exact ⟨happ.inv, hle₂⟩
            | true =>
              simp only [Bool.not_true] at h
              cases hm : ({ s₂ with pendingOperations := s₂.pendingOperations ++
                  (deduped.messages.take k) }.markOperationsAsCommittedUnlocked request
                  { deduped with messages := deduped.messages.take k }
                  (enqueueWritesUnlocked { deduped with messages := deduped.messages.take k })
                  markApplyWrite) with
              | none => simp [hm] at h
              | some t =>
                obtain ⟨s₄, r₄⟩ := t
                simp only [hm, Bool.false_eq_true, if_false, Option.some.injEq] at h
                subst h
                obtain ⟨hi₄, hle₄⟩ := markOperationsAsCommittedUnlocked_inv hA hm
                exact ⟨hi₄, le_trans hle₂ hle₄⟩

/-! The commit of a majority, and the runs. -/

theorem updateMajorityReplicatedUnlocked_applies {s s' : ReplicaState} {majorityReplicated : OpId}
    {r : Except String (OpId × Bool)} (hi : Inv s)
    (h : s.updateMajorityReplicatedUnlocked majorityReplicated = some (s', r)) :
    Applies s s' := by
  -- the two branches that commit share this tail of the definition
  have hadvance : ∀ {t : ReplicaState × Except String (OpId × Bool)},
      (s.advanceCommittedOpIdUnlocked majorityReplicated false fun _ => true).bind
        (fun p => some (p.1, p.2.map fun c => (p.1.lastCommittedOpId, c))) = some t →
        Applies s t.1 := by
    intro t ht
    obtain ⟨⟨s₁, changed⟩, hadv, ht⟩ := Option.bind_eq_some_iff.mp ht
    cases ht
    exact advanceCommittedOpIdUnlocked_applies hi hadv
  unfold updateMajorityReplicatedUnlocked at h
  dsimp only at h
  split_ifs at h
  · exact hadvance h
  · exact hadvance h
  · cases h
    exact Applies.refl hi

/-- The commit of a majority moves the committed OpId only while the committed or the
majority-replicated OpId is of the current term. -/
theorem updateMajorityReplicatedUnlocked_current_term {s s' : ReplicaState}
    {majorityReplicated : OpId} {r : Except String (OpId × Bool)}
    (h : s.updateMajorityReplicatedUnlocked majorityReplicated = some (s', r))
    (hmoved : s'.lastCommittedOpId ≠ s.lastCommittedOpId) :
    s.lastCommittedOpId.term = s.currentTerm ∨ majorityReplicated.term = s.currentTerm := by
  unfold updateMajorityReplicatedUnlocked at h
  split_ifs at h with hcommitted hmajority
  · exact Or.inl hcommitted
  · exact Or.inr hmajority
  · cases h
    exact absurd rfl hmoved

/-- The runs in which each append to the consensus queue either succeeds or finds it full. -/
def Event.QueueAppendSettled : Event → Prop
  | .replicate _ appendOutcome => appendOutcome = .ok ∨ appendOutcome = .serviceUnavailable
  | _ => True

/-- Each handler keeps the committed index from going down, and keeps the invariant unless its
append to the consensus queue fails with another error than a full queue. -/
theorem handle_inv {s s' : ReplicaState} {e : Event} (hi : Inv s) (h : s.handle e = some s') :
    s.lastCommittedOpId.index ≤ s'.lastCommittedOpId.index ∧ (e.QueueAppendSettled → Inv s') := by
  cases e with
  | replicate rounds appendOutcome =>
    obtain ⟨hc, hinv⟩ := appendNewRoundsToQueueUnlocked_inv hi h
    exact ⟨by rw [hc], hinv⟩
  | update request prepare earlyApplyWrite markApplyWrite =>
    obtain ⟨hinv, hle⟩ := updateReplica_inv hi h
    exact ⟨hle, fun _ => hinv⟩
  | majorityReplicated opId =>
    obtain ⟨⟨s₁, r⟩, hu, rfl⟩ := Option.map_eq_some_iff.mp h
    have happ := updateMajorityReplicatedUnlocked_applies hi hu
    exact ⟨happ.committed_le, fun _ => happ.inv⟩
  | electionPendingCommit opId =>
    obtain ⟨⟨s₁, r⟩, ha, rfl⟩ := Option.map_eq_some_iff.mp h
    have happ := advanceCommittedOpIdUnlocked_applies hi ha
    exact ⟨happ.committed_le, fun _ => happ.inv⟩
  | termAdvance term =>
    cases h
    -- the term is no part of the invariant
    split
    · exact ⟨le_refl _, fun _ => ⟨hi.window, hi.received, hi.next⟩⟩
    · exact ⟨le_refl _, fun _ => hi⟩

/-- What a bootstrap from the log hands over: the orphaned replicates are the rounds after the
committed OpId, up to the last OpId. -/
structure ConsensusBootstrapInfo.Consistent (info : ConsensusBootstrapInfo) : Prop where
  window : IsWindow roundIndex info.lastCommittedId.index info.orphanedReplicates
  last : info.lastId.index = info.lastCommittedId.index + info.orphanedReplicates.length

theorem initCommittedOpIdUnlocked_window {s : ReplicaState} {committedOpId : OpId}
    (hempty : s.lastCommittedOpId.empty = true)
    (hw : IsWindow roundIndex committedOpId.index s.pendingOperations)
    (hr : s.lastReceivedOpId.index = committedOpId.index + s.pendingOperations.length) :
    s.initCommittedOpIdUnlocked committedOpId =
      some ({ s with lastCommittedOpId := committedOpId }, .ok ()) := by
  have hset : s.setLastCommittedIndexUnlocked committedOpId =
      some { s with lastCommittedOpId := committedOpId } := by
    unfold setLastCommittedIndexUnlocked
    rw [if_neg (by omega)]
  unfold initCommittedOpIdUnlocked
  rw [hempty]
  cases hp : s.pendingOperations with
  | nil => simp [hset, hp]
  | cons front rest =>
    have hfront : front.id.index = committedOpId.index + 1 := by
      rw [hp] at hw
      exact (isWindow_cons.mp hw).1
    simp [hset, hp, show ¬ committedOpId.index ≥ front.id.index by omega]

theorem start_inv {term : Int} {info : ConsensusBootstrapInfo} {s : ReplicaState}
    (hinfo : info.Consistent) (h : start term info = some s) : Inv s := by
  unfold start at h
  by_cases hterm : info.lastId.term > term
  · simp [hterm] at h
  dsimp only at h
  rw [if_neg hterm] at h
  rw [initCommittedOpIdUnlocked_window rfl hinfo.window hinfo.last] at h
  cases h
  exact ⟨hinfo.window, hinfo.last, rfl⟩

theorem Reachable.inv {s : ReplicaState}
    (h : Reachable ConsensusBootstrapInfo.Consistent Event.QueueAppendSettled s) : Inv s := by
  induction h with
  | start term info hinfo hstart => exact start_inv hinfo hstart
  | step e _ hallowed hstep ih => exact (handle_inv ih hstep).2 hallowed

end ReplicaState

end FrescoDB.Consensus
