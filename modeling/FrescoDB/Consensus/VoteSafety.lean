import FrescoDB.Consensus.RaftConsensus
import FrescoDB.Lib.Ballot

/-! The replica's term and vote refine the abstract voter of `Lib.Ballot`:
every handler moves `(current_term, voted_for)` by a run of ballot steps that
grants exactly the real votes the handler grants. The safety of the votes then
follows from the ballot invariant. -/
namespace FrescoDB.Consensus

open FrescoDB.Lib

namespace Replica

def ballot (s : Replica) : Ballot ConsensusTerm String := ⟨s.currentTerm, s.votedFor⟩

theorem setCurrentTermUnlocked_ok {s s' : Replica} {t : ConsensusTerm}
    (h : s.setCurrentTermUnlocked t = .ok s') :
    s.currentTerm < t ∧ s' = { s.clearLeaderUnlocked with currentTerm := t, votedFor := none } := by
  unfold setCurrentTermUnlocked at h
  split at h
  · cases h
  · rename_i hle
    cases h
    exact ⟨not_le.mp hle, rfl⟩

theorem handleTermAdvanceUnlocked_ok {s s' : Replica} {t : ConsensusTerm}
    (h : s.handleTermAdvanceUnlocked t = .ok s') :
    s.currentTerm < t ∧ s'.ballot = ⟨t, none⟩ ∧ s'.lastLoggedOpId = s.lastLoggedOpId ∧
      s'.peerUuid = s.peerUuid := by
  unfold handleTermAdvanceUnlocked at h
  split at h
  · cases h
  · -- stepping down keeps the term, the log and the peer
    split at h <;>
    · obtain ⟨hlt, rfl⟩ := setCurrentTermUnlocked_ok h
      exact ⟨hlt, rfl, rfl, rfl⟩

theorem requestVoteCheckLog_cases {s s' : Replica} {request : VoteRequest}
    {response response' : VoteResponse}
    (h : s.requestVoteCheckLog request response = (s', response')) :
    (s' = s ∧ (response'.voteGranted = true → request.preelection = true)) ∨
    (request.preelection = false ∧ response'.voteGranted = true ∧
      opIdLessThan request.lastReceived s.lastLoggedOpId = false ∧
      s' = s.clearPendingElectionOpIdUnlocked.setVotedForCurrentTermUnlocked
        request.candidateUuid) := by
  unfold requestVoteCheckLog at h
  dsimp only at h
  split at h
  · cases h
    exact .inl ⟨rfl, by simp [requestVoteRespondLastOpIdTooOld, fillVoteResponseVoteDenied]⟩
  · rename_i hlog
    cases hpre : request.preelection
    · simp only [hpre, Bool.not_false, if_true, Bool.false_eq_true, if_false,
        requestVoteRespondVoteGranted] at h
      cases h
      exact .inr ⟨rfl, rfl, by simpa using hlog, rfl⟩
    · simp only [hpre, Bool.not_true, Bool.false_eq_true, if_false, if_true] at h
      cases h
      exact .inl ⟨rfl, fun _ => rfl⟩

theorem requestVote_cases {s s' : Replica} {request : VoteRequest} {now : Nat} {ownsLock : Bool}
    {response : VoteResponse} (h : s.requestVote request now ownsLock = .ok (s', response)) :
    (s' = s ∧ (response.voteGranted = true → request.preelection = true)) ∨
    (s' = s ∧ s.currentTerm = request.candidateTerm ∧ s.votedFor = some request.candidateUuid) ∨
    (s.handleTermAdvanceUnlocked request.candidateTerm = .ok s' ∧ response.voteGranted = false) ∨
    (request.preelection = false ∧ response.voteGranted = true ∧
      opIdLessThan request.lastReceived s.lastLoggedOpId = false ∧
      ∃ s₁, ((s₁ = s ∧ s.currentTerm = request.candidateTerm ∧ s.votedFor = none) ∨
          s.handleTermAdvanceUnlocked request.candidateTerm = .ok s₁) ∧
        s' = (s₁.clearPendingElectionOpIdUnlocked).setVotedForCurrentTermUnlocked
          request.candidateUuid) := by
  unfold requestVote at h
  dsimp only at h
  split at h
  · cases h
    exact .inl ⟨rfl, by simp [requestVoteRespondIsBusy, fillVoteResponseVoteDenied]⟩
  split at h
  · cases h
    exact .inl ⟨rfl, by simp [requestVoteRespondLeaderIsAlive, fillVoteResponseVoteDenied]⟩
  split at h
  · cases h
    exact .inl ⟨rfl, by simp [requestVoteRespondInvalidTerm, fillVoteResponseVoteDenied]⟩
  split at h
  · rename_i hvoted
    split at h
    · rename_i hfor
      cases h
      simp only [Bool.and_eq_true, decide_eq_true_eq] at hvoted
      exact .inr (.inl ⟨rfl, hvoted.1.symm, by simpa using hfor⟩)
    · cases h
      exact .inl ⟨rfl, by simp [requestVoteRespondAlreadyVotedForOther, fillVoteResponseVoteDenied]⟩
  rename_i hbusy halive hterm hvoted
  split at h
  · -- a real vote for a later term moves to that term first
    rename_i hadvance
    simp only [Bool.and_eq_true, decide_eq_true_eq, Bool.not_eq_true'] at hadvance
    cases hadv : s.handleTermAdvanceUnlocked request.candidateTerm with
    | error e => simp [hadv, Except.mapError, Except.map] at h
    | ok s₁ =>
      simp only [hadv, Except.mapError, Except.map, Except.ok.injEq] at h
      have hlast := (handleTermAdvanceUnlocked_ok hadv).2.2.1
      rcases requestVoteCheckLog_cases h with ⟨rfl, hgr⟩ | ⟨hpre, hgr, hlog, rfl⟩
      · have hrefused : response.voteGranted = false := by
          cases hg : response.voteGranted
          · rfl
          · simp [hgr hg] at hadvance
        exact .inr (.inr (.inl ⟨rfl, hrefused⟩))
      · exact .inr (.inr (.inr ⟨hpre, hgr, hlast ▸ hlog, s₁, .inr rfl, rfl⟩))
  · -- otherwise the term is the candidate's, or this is a pre-election
    rename_i hnoadvance
    rcases requestVoteCheckLog_cases (Except.ok.inj h) with ⟨rfl, hgr⟩ | ⟨hpre, hgr, hlog, rfl⟩
    · exact .inl ⟨rfl, hgr⟩
    · have hgt : ¬ s.currentTerm < request.candidateTerm := by simpa [hpre] using hnoadvance
      have heq : s.currentTerm = request.candidateTerm :=
        le_antisymm (not_lt.mp hterm) (not_lt.mp hgt)
      have hnone : s.votedFor = none := by simpa [heq, hasVotedCurrentTermUnlocked] using hvoted
      exact .inr (.inr (.inr ⟨hpre, hgr, hlog, s, .inl ⟨rfl, heq, hnone⟩, rfl⟩))

theorem ballot_vote (s : Replica) (c : String) :
    (s.clearPendingElectionOpIdUnlocked.setVotedForCurrentTermUnlocked c).ballot =
      ⟨s.currentTerm, some c⟩ := rfl

theorem handleTermAdvanceUnlocked_steps {s s' : Replica} {t : ConsensusTerm}
    (h : s.handleTermAdvanceUnlocked t = .ok s') : Ballot.Steps s.ballot [] s'.ballot := by
  obtain ⟨hlt, hb, -, -⟩ := handleTermAdvanceUnlocked_ok h
  rw [hb]
  exact Ballot.Steps.single (Ballot.Step.advance hlt)

theorem requestVote_steps {s s' : Replica} {request : VoteRequest} {now : Nat} {ownsLock : Bool}
    {response : VoteResponse} (h : s.requestVote request now ownsLock = .ok (s', response)) :
    Ballot.Steps s.ballot (if response.voteGranted && !request.preelection then
      [(request.candidateTerm, request.candidateUuid)] else []) s'.ballot := by
  rcases requestVote_cases h with ⟨rfl, hgr⟩ | ⟨rfl, hterm, hfor⟩ | ⟨hadv, hgr⟩ |
    ⟨hpre, hgr, -, s₁, hs₁, rfl⟩
  · -- nothing changes, and any vote granted is a pre-election's
    have hnone : (response.voteGranted && !request.preelection) = false := by
      cases hg : response.voteGranted <;> simp_all
    rw [hnone]
    exact Ballot.Steps.refl _
  · -- the vote recorded for the candidate is granted again
    split
    · rw [← hterm]
      exact Ballot.Steps.single (Ballot.Step.recast hfor)
    · exact Ballot.Steps.refl _
  · simpa [hgr] using handleTermAdvanceUnlocked_steps hadv
  · simp only [hgr, hpre, Bool.not_false, Bool.and_self, if_true, ballot_vote]
    rcases hs₁ with ⟨rfl, hterm, hnone⟩ | hadv
    · rw [← hterm]
      exact Ballot.Steps.single (Ballot.Step.cast _ hnone)
    · obtain ⟨hlt, hb, -, -⟩ := handleTermAdvanceUnlocked_ok hadv
      have hb' : s₁.currentTerm = request.candidateTerm := congrArg Ballot.term hb
      rw [hb']
      exact Ballot.Steps.advance_cast _ hlt

theorem handleLeaderRequestTermUnlocked_steps {s s' : Replica} {callerTerm : ConsensusTerm}
    {error : Option ConsensusErrorCode}
    (h : s.handleLeaderRequestTermUnlocked callerTerm = .ok (s', error)) :
    Ballot.Steps s.ballot [] s'.ballot := by
  unfold handleLeaderRequestTermUnlocked at h
  split at h
  · split at h
    · cases h
      exact Ballot.Steps.refl _
    · cases hadv : s.handleTermAdvanceUnlocked callerTerm with
      | error e => simp [hadv] at h
      | ok s₁ =>
        simp only [hadv] at h
        cases h
        exact handleTermAdvanceUnlocked_steps hadv
  · cases h
    exact Ballot.Steps.refl _

theorem updateReplica_steps {s s' : Replica} {request : LeaderUpdate} {now : Nat}
    (h : s.updateReplica request now = .ok s') : Ballot.Steps s.ballot [] s'.ballot := by
  unfold updateReplica at h
  cases hterm : s.handleLeaderRequestTermUnlocked request.callerTerm with
  | error e => simp only [hterm, bind, Except.bind, reduceCtorEq] at h
  | ok r =>
    obtain ⟨s₁, error⟩ := r
    have hsteps := handleLeaderRequestTermUnlocked_steps hterm
    simp only [hterm, bind, Except.bind] at h
    split at h
    · cases h
      exact hsteps
    · split at h
      · cases h
      · cases h
        split <;> exact hsteps

theorem createElectionUnlocked_steps {s s' : Replica} {preelection : Bool} {term : ConsensusTerm}
    (h : s.createElectionUnlocked preelection = .ok (s', term)) :
    Ballot.Steps s.ballot (if preelection then [] else [(term, s.peerUuid)]) s'.ballot := by
  unfold createElectionUnlocked at h
  cases preelection with
  | true =>
    cases h
    exact Ballot.Steps.refl _
  | false =>
    -- a real election moves to the next term and votes for this peer in it
    cases hinc : s.incrementTermUnlocked with
    | error e => simp [hinc] at h
    | ok s₁ =>
      simp only [hinc, if_false, Bool.false_eq_true] at h
      cases h
      obtain ⟨hlt, hb, -, hpeer⟩ := handleTermAdvanceUnlocked_ok hinc
      have ht : s₁.currentTerm = s.currentTerm + 1 := congrArg Ballot.term hb
      simp only [if_false, Bool.false_eq_true]
      rw [← hpeer]
      have : (s₁.setVotedForCurrentTermUnlocked s₁.peerUuid).ballot =
          ⟨s.currentTerm + 1, some s₁.peerUuid⟩ := by
        simp [ballot, setVotedForCurrentTermUnlocked, ht]
      rw [this, ht]
      exact Ballot.Steps.advance_cast _ hlt

theorem electionWon_ballot (s : Replica) (electionTerm : ConsensusTerm) :
    (s.electionWon electionTerm).ballot = s.ballot := by
  unfold electionWon
  split <;> rfl

theorem notifyTermChange_steps (s : Replica) (term : ConsensusTerm) :
    Ballot.Steps s.ballot [] (s.notifyTermChange term).ballot := by
  unfold notifyTermChange
  split
  · rename_i s' hadv
    exact handleTermAdvanceUnlocked_steps hadv
  · exact Ballot.Steps.refl _

theorem handle_steps {s s' : Replica} {e : Event} {vs : List (ConsensusTerm × String)}
    (h : s.handle e = .ok (s', vs)) : Ballot.Steps s.ballot vs s'.ballot := by
  cases e with
  | requestVote request now ownsLock =>
    simp only [handle] at h
    cases hr : s.requestVote request now ownsLock with
    | error err => simp [hr] at h
    | ok r =>
      obtain ⟨s₁, response⟩ := r
      simp only [hr] at h
      cases h
      exact requestVote_steps hr
  | update request now =>
    simp only [handle] at h
    cases hu : s.updateReplica request now with
    | error err => simp [hu] at h
    | ok s₁ =>
      simp only [hu] at h
      cases h
      exact updateReplica_steps hu
  | startElection preelection =>
    simp only [handle] at h
    cases hc : s.createElectionUnlocked preelection with
    | error err => simp [hc] at h
    | ok r =>
      obtain ⟨s₁, term⟩ := r
      simp only [hc] at h
      cases h
      exact createElectionUnlocked_steps hc
  | electionWon electionTerm =>
    cases h
    rw [electionWon_ballot]
    exact Ballot.Steps.refl _
  | notifyTermChange term =>
    cases h
    exact notifyTermChange_steps s term

/-- What one handler does to the term and the vote: the term never goes down, a vote is never
for a term below it, within a term the vote is kept, and across a term advance it is cleared
unless the handler itself votes in the new term. -/
theorem handle_term_vote {s s' : Replica} {e : Event} {vs : List (ConsensusTerm × String)}
    (h : s.handle e = .ok (s', vs)) :
    s.currentTerm ≤ s'.currentTerm ∧ (∀ v ∈ vs, s.currentTerm ≤ v.1) ∧
      (s'.currentTerm = s.currentTerm → ∀ u, s.votedFor = some u → s'.votedFor = some u) ∧
      (s.currentTerm < s'.currentTerm → ∀ u, s'.votedFor = some u → (s'.currentTerm, u) ∈ vs) := by
  have hsteps := handle_steps h
  refine ⟨hsteps.term_le, fun v hv => (hsteps.vote_term v hv).1,
    fun ht u hu => hsteps.choice_stable ht hu, fun hlt u hu => ?_⟩
  rcases hsteps.choice_source hu with ⟨ht, -⟩ | hmem
  · exact absurd ht (ne_of_gt hlt)
  · exact hmem

/-- A real vote granted by `RequestVote` is recorded for the candidate's term; it is sent again
to the candidate already recorded, or the candidate's log is not behind the replica's. -/
theorem requestVote_granted {s s' : Replica} {request : VoteRequest} {now : Nat}
    {ownsLock : Bool} {response : VoteResponse}
    (h : s.requestVote request now ownsLock = .ok (s', response))
    (hgranted : response.voteGranted = true) (hreal : request.preelection = false) :
    s'.currentTerm = request.candidateTerm ∧ s'.votedFor = some request.candidateUuid ∧
      ((s.currentTerm = request.candidateTerm ∧ s.votedFor = some request.candidateUuid) ∨
        opIdLessThan request.lastReceived s.lastLoggedOpId = false) := by
  rcases requestVote_cases h with ⟨-, hpre⟩ | ⟨rfl, hterm, hfor⟩ | ⟨-, hrefused⟩ |
    ⟨-, -, hlog, s₁, hs₁, rfl⟩
  · simp [hpre hgranted] at hreal
  · exact ⟨hterm, hfor, .inl ⟨hterm, hfor⟩⟩
  · simp [hrefused] at hgranted
  · -- the term is the candidate's whether or not it had to advance
    have hterm : s₁.currentTerm = request.candidateTerm := by
      rcases hs₁ with ⟨rfl, ht, -⟩ | hadv
      · exact ht
      · exact congrArg Ballot.term (handleTermAdvanceUnlocked_ok hadv).2.1
    exact ⟨hterm, rfl, .inr hlog⟩

end Replica

theorem Reachable.ballot_inv {s : Replica} {votes : List (ConsensusTerm × String)}
    (h : Reachable s votes) : Ballot.Inv s.ballot votes := by
  induction h with
  | init s => exact Ballot.inv_nil _
  | step e _ hstep ih => exact (Replica.handle_steps hstep).inv ih

theorem replica_votes_once_per_term :
    (∀ s votes, Reachable s votes → ∀ v ∈ votes, ∀ w ∈ votes, v.1 = w.1 → v.2 = w.2) ∧
    (∀ (s s' : Replica) (e : Event) vs, s.handle e = .ok (s', vs) →
      s.currentTerm ≤ s'.currentTerm ∧ (∀ v ∈ vs, s.currentTerm ≤ v.1) ∧
      (s'.currentTerm = s.currentTerm → ∀ u, s.votedFor = some u → s'.votedFor = some u) ∧
      (s.currentTerm < s'.currentTerm → ∀ u, s'.votedFor = some u → (s'.currentTerm, u) ∈ vs)) ∧
    (∀ (s s' : Replica) request now ownsLock response,
      s.requestVote request now ownsLock = .ok (s', response) →
      response.voteGranted = true → request.preelection = false →
      s'.currentTerm = request.candidateTerm ∧ s'.votedFor = some request.candidateUuid ∧
      ((s.currentTerm = request.candidateTerm ∧ s.votedFor = some request.candidateUuid) ∨
        opIdLessThan request.lastReceived s.lastLoggedOpId = false)) :=
  ⟨fun _ _ h => h.ballot_inv.unique, fun _ _ _ _ h => Replica.handle_term_vote h,
    fun _ _ _ _ _ _ h hgranted hreal => Replica.requestVote_granted h hgranted hreal⟩

/-- The first real vote of a replica in term 1, for a candidate whose log is level with its own. -/
theorem replica_votes_once_per_term_first_vote :
    (⟨"a", true, 500, 1, some "b", "", (0 : Nat), none, ⟨1, 5⟩⟩ : Replica).votedFor = some "b" ∧
      opIdLessThan ⟨1, 5⟩ ⟨1, 5⟩ = false :=
  have h := replica_votes_once_per_term.2.2 ⟨"a", true, 500, 1, none, "", (0 : Nat), none, ⟨1, 5⟩⟩
    ⟨"a", true, 500, 1, some "b", "", (0 : Nat), none, ⟨1, 5⟩⟩ ⟨"b", 1, false, false, ⟨1, 5⟩⟩ 0 true
    ⟨"a", false, 1, true, none⟩ rfl rfl rfl
  ⟨h.2.1, by decide⟩

/-- A duplicate of a vote request that arrives after the candidate, now leader, has appended to
the replica's log is granted again, though the candidate's last OpId is now behind. -/
theorem requestVote_regrants_behind_log :
    ∃ (s : Replica) (votes : List (ConsensusTerm × String)) (request : VoteRequest) (now : Nat)
      (response : VoteResponse), Reachable s votes ∧
      s.requestVote request now true = .ok (s, response) ∧ response.voteGranted = true ∧
      request.preelection = false ∧ opIdLessThan request.lastReceived s.lastLoggedOpId = true := by
  let s₀ : Replica := ⟨"a", true, 500, 1, none, "", (0 : Nat), none, ⟨1, 5⟩⟩
  let request : VoteRequest := ⟨"b", 1, false, false, ⟨1, 5⟩⟩
  let s₁ : Replica := { s₀ with votedFor := some "b" }
  let s₂ : Replica := { s₁ with leaderUuid := "b", withholdVotesUntil := ((0 + 500 : Nat) : MonoTime),
                                lastLoggedOpId := ⟨1, 6⟩ }
  -- the replica votes for the candidate, which then leads term 1 and appends an operation
  have h₁ : s₀.handle (.requestVote request 0 true) = .ok (s₁, [(1, "b")]) := rfl
  have h₂ : s₁.handle (.update ⟨"b", 1, true, ⟨1, 6⟩⟩ 0) = .ok (s₂, []) := rfl
  exact ⟨s₂, _, request, 1, ⟨"a", false, 1, true, none⟩,
    ((Reachable.init s₀).step _ h₁).step _ h₂, rfl, rfl, rfl, rfl⟩

end FrescoDB.Consensus
