import FrescoDB.Util.Status

/-! `VoteCounter` (`consensus/leader_election.{h,cc}`): the votes of one election, by voter.
A new voter's vote is recorded in `votes_` and counted, a repeated vote is a duplicate or, when
it changed, an error, and no new voter is taken once every voter has voted. The counter keeps
the `CHECK`s of its constructor as fields. -/
namespace FrescoDB.Consensus

open FrescoDB.Util

inductive ElectionVote
  | kDenied
  | kGranted
  | kUnknown
  deriving DecidableEq, Repr

/-- The name `YB_DEFINE_ENUM` prints. -/
def ElectionVote.toString : ElectionVote → String
  | .kDenied => "kDenied"
  | .kGranted => "kGranted"
  | .kUnknown => "kUnknown"

structure VoteCounter where
  numVoters : Nat
  majoritySize : Nat
  /-- `votes_`, a `std::map` from voter to vote, in the order of its keys. -/
  votes : List (String × ElectionVote)
  yesVotes : Nat
  noVotes : Nat
  majoritySize_le : majoritySize ≤ numVoters
  numVoters_pos : 0 < numVoters
  majoritySize_pos : 0 < majoritySize

namespace VoteCounter

/-- The constructor; `none` is a failed `CHECK`. -/
def new (numVoters majoritySize : Nat) : Option VoteCounter :=
  if h : majoritySize ≤ numVoters ∧ 0 < numVoters ∧ 0 < majoritySize then
    some ⟨numVoters, majoritySize, [], 0, 0, h.1, h.2.1, h.2.2⟩
  else none

/-- `InsertOrDie(&votes_, voter_uuid, vote)`: the map keeps its keys in order. -/
def insertVote (votes : List (String × ElectionVote)) (voterUuid : String) (vote : ElectionVote) :
    List (String × ElectionVote) :=
  votes.orderedInsert (fun a b => a.1 ≤ b.1) (voterUuid, vote)

/-- `JoinKeysIterator(votes_.begin(), votes_.end(), ", ")`. -/
def joinKeys (votes : List (String × ElectionVote)) : String :=
  ", ".intercalate (votes.map (·.1))

/-- `RegisterVote`: the counter after the call, and the status with `*is_duplicate`. -/
def registerVote (c : VoteCounter) (voterUuid : String) (vote : ElectionVote) :
    VoteCounter × Except Status Bool :=
  match c.votes.lookup voterUuid with
  | some priorVote =>
    if priorVote ≠ vote then
      let first := priorVote.toString
      let second := vote.toString
      (c, .error ⟨.kInvalidArgument, s!"Peer {voterUuid} voted a different way twice in the same election. First vote: {first}, second vote: {second}."⟩)
    else (c, .ok true)
  | none =>
    if c.yesVotes + c.noVotes = c.numVoters then
      let numVoters := c.numVoters
      let received := joinKeys c.votes
      (c, .error ⟨.kInvalidArgument, s!"Vote from peer {voterUuid} would cause the number of votes to exceed the expected number of voters, which is {numVoters}. Votes already received from the following peers: \x7b{received}\x7d"⟩)
    else
      -- the vote is stored before it is checked: an invalid one stays recorded
      let c := { c with votes := insertVote c.votes voterUuid vote }
      match vote with
      | .kGranted => ({ c with yesVotes := c.yesVotes + 1 }, .ok false)
      | .kDenied => ({ c with noVotes := c.noVotes + 1 }, .ok false)
      | .kUnknown =>
        let invalid := vote.toString
        (c, .error ⟨.kInvalidArgument, s!"Invalid vote: {invalid}"⟩)

def getDecision (c : VoteCounter) : ElectionVote :=
  if c.yesVotes ≥ c.majoritySize then .kGranted
  else if c.noVotes > c.numVoters - c.majoritySize then .kDenied
  else .kUnknown

def getTotalVotesCounted (c : VoteCounter) : Nat := c.yesVotes + c.noVotes

def areAllVotesIn (c : VoteCounter) : Bool := c.getTotalVotesCounted = c.numVoters

/-- The states a counter reaches from its constructor by `RegisterVote` calls. -/
inductive Reachable : VoteCounter → Prop
  | new {c : VoteCounter} {numVoters majoritySize : Nat} :
      VoteCounter.new numVoters majoritySize = some c → Reachable c
  | registerVote {c : VoteCounter} (voterUuid : String) (vote : ElectionVote) :
      Reachable c → Reachable (c.registerVote voterUuid vote).1

/-! The counts agree with the record, the decision follows the counts, and it sticks. -/

/-- The voters recorded with vote `v`. -/
def votesFor (votes : List (String × ElectionVote)) (v : ElectionVote) : Nat :=
  votes.countP fun e => e.2 = v

theorem votesFor_insertVote (votes : List (String × ElectionVote)) (voterUuid : String)
    (vote v : ElectionVote) :
    votesFor (insertVote votes voterUuid vote) v = votesFor votes v + if vote = v then 1 else 0 := by
  unfold votesFor insertVote
  rw [(List.perm_orderedInsert _ _ _).countP_eq, List.countP_cons]
  simp

theorem keys_insertVote (votes : List (String × ElectionVote)) (voterUuid : String)
    (vote : ElectionVote) :
    ((insertVote votes voterUuid vote).map Prod.fst).Perm (voterUuid :: votes.map Prod.fst) :=
  ((List.perm_orderedInsert _ _ _).map Prod.fst)

theorem lookup_eq_none_iff {votes : List (String × ElectionVote)} {voterUuid : String} :
    votes.lookup voterUuid = none ↔ voterUuid ∉ votes.map Prod.fst := by
  induction votes with
  | nil => simp
  | cons e votes ih =>
    obtain ⟨k, v⟩ := e
    by_cases hk : voterUuid = k
    · subst hk
      simp
    · have hne : (voterUuid == k) = false := by simpa using hk
      simp [List.lookup, hne, ih, hk]

/-- What one call does: the counter is unchanged, or a new voter is recorded and its vote
counted, with an error exactly for an invalid vote. -/
theorem registerVote_spec (c : VoteCounter) (voterUuid : String) (vote : ElectionVote) :
    (c.registerVote voterUuid vote).1.numVoters = c.numVoters ∧
      (c.registerVote voterUuid vote).1.majoritySize = c.majoritySize ∧
      ((c.registerVote voterUuid vote).1.votes = c.votes ∧
          (c.registerVote voterUuid vote).1.yesVotes = c.yesVotes ∧
          (c.registerVote voterUuid vote).1.noVotes = c.noVotes ∨
        voterUuid ∉ c.votes.map Prod.fst ∧ c.yesVotes + c.noVotes ≠ c.numVoters ∧
          (c.registerVote voterUuid vote).1.votes = insertVote c.votes voterUuid vote ∧
          (c.registerVote voterUuid vote).1.yesVotes =
            c.yesVotes + (if vote = .kGranted then 1 else 0) ∧
          (c.registerVote voterUuid vote).1.noVotes =
            c.noVotes + (if vote = .kDenied then 1 else 0) ∧
          ((∃ e, (c.registerVote voterUuid vote).2 = .error e) ↔ vote = .kUnknown)) := by
  unfold registerVote
  split
  · -- a voter seen before: nothing changes
    split <;> exact ⟨rfl, rfl, .inl ⟨rfl, rfl, rfl⟩⟩
  · rename_i hnone
    split
    · exact ⟨rfl, rfl, .inl ⟨rfl, rfl, rfl⟩⟩
    · rename_i hfull
      have hnew := lookup_eq_none_iff.mp hnone
      cases vote with
      | kGranted => exact ⟨rfl, rfl, .inr ⟨hnew, hfull, rfl, by simp, by simp, by simp⟩⟩
      | kDenied => exact ⟨rfl, rfl, .inr ⟨hnew, hfull, rfl, by simp, by simp, by simp⟩⟩
      | kUnknown => exact ⟨rfl, rfl, .inr ⟨hnew, hfull, rfl, by simp, by simp, by simp⟩⟩

/-- The counts are those of the record, which holds each voter once, and they stay within the
number of voters. -/
structure Inv (c : VoteCounter) : Prop where
  nodup : (c.votes.map Prod.fst).Nodup
  yes : c.yesVotes = votesFor c.votes .kGranted
  no : c.noVotes = votesFor c.votes .kDenied
  bound : c.yesVotes + c.noVotes ≤ c.numVoters

theorem inv_new {c : VoteCounter} {numVoters majoritySize : Nat}
    (h : VoteCounter.new numVoters majoritySize = some c) : c.Inv := by
  unfold VoteCounter.new at h
  split at h
  · cases h
    exact ⟨List.nodup_nil, rfl, rfl, Nat.zero_le _⟩
  · cases h

theorem Inv.registerVote {c : VoteCounter} (hc : c.Inv) (voterUuid : String) (vote : ElectionVote) :
    (c.registerVote voterUuid vote).1.Inv := by
  obtain ⟨hN, -, hcase⟩ := registerVote_spec c voterUuid vote
  rcases hcase with ⟨hv, hy, hn⟩ | ⟨hnew, hfull, hv, hy, hn, -⟩
  · exact ⟨hv ▸ hc.nodup, hv ▸ hy ▸ hc.yes, hv ▸ hn ▸ hc.no, hN ▸ hy ▸ hn ▸ hc.bound⟩
  · refine ⟨?_, ?_, ?_, ?_⟩
    · rw [hv]
      exact (keys_insertVote c.votes voterUuid vote).nodup_iff.mpr (List.nodup_cons.mpr ⟨hnew, hc.nodup⟩)
    · rw [hy, hv, votesFor_insertVote, hc.yes]
    · rw [hn, hv, votesFor_insertVote, hc.no]
    · -- a new vote is counted only below the number of voters
      have := hc.bound
      rw [hN, hy, hn]
      split <;> split <;> simp_all <;> omega

theorem Reachable.inv {c : VoteCounter} (h : c.Reachable) : c.Inv := by
  induction h with
  | new h => exact inv_new h
  | registerVote voterUuid vote _ ih => exact ih.registerVote voterUuid vote

theorem Inv.getDecision_eq_kGranted_iff {c : VoteCounter} (hc : c.Inv) :
    c.getDecision = .kGranted ↔ c.majoritySize ≤ votesFor c.votes .kGranted := by
  rw [← hc.yes]
  unfold getDecision
  split
  · simpa using ‹_›
  · split <;> simp_all

/-- More than `numVoters - majoritySize` denials leave fewer than `majoritySize` grants, so the
first test of `GetDecision` cannot hide a denial. -/
theorem Inv.getDecision_eq_kDenied_iff {c : VoteCounter} (hc : c.Inv) :
    c.getDecision = .kDenied ↔ c.numVoters - c.majoritySize < votesFor c.votes .kDenied := by
  rw [← hc.no]
  have hb := hc.bound
  have hm := c.majoritySize_le
  unfold getDecision
  split
  · rename_i hyes
    simp only [reduceCtorEq, false_iff, not_lt]
    omega
  · split <;> simp_all

theorem Inv.getDecision_registerVote {c : VoteCounter} (hc : c.Inv) (voterUuid : String)
    (vote : ElectionVote) (hd : c.getDecision ≠ .kUnknown) :
    (c.registerVote voterUuid vote).1.getDecision = c.getDecision := by
  have hc' := hc.registerVote voterUuid vote
  obtain ⟨hN, hM, hcase⟩ := registerVote_spec c voterUuid vote
  have hb' := hc'.bound
  have hgrow : c.yesVotes ≤ (c.registerVote voterUuid vote).1.yesVotes ∧
      c.noVotes ≤ (c.registerVote voterUuid vote).1.noVotes := by
    rcases hcase with ⟨-, hy, hn⟩ | ⟨-, -, -, hy, hn, -⟩ <;> omega
  have hm := c.majoritySize_le
  unfold getDecision at hd ⊢
  rw [hN] at hb'
  rw [hN, hM]
  split at hd
  · rw [if_pos (by omega), if_pos ‹_›]
  · split at hd
    · rw [if_neg (by omega), if_pos (by omega), if_neg ‹_›, if_pos ‹_›]
    · exact absurd rfl hd

/-- Along every run of a counter: the counts are the voters recorded with each vote, within the
number of voters; the decision is a majority of grants or more denials than a majority can
spare, and once taken it stays; and a call that fails counts nothing, and leaves the record as
it was unless it recorded a new voter's invalid vote. -/
theorem voteCounter_registerVote {c : VoteCounter} (hc : c.Reachable) (voterUuid : String)
    (vote : ElectionVote) :
    c.yesVotes = votesFor c.votes .kGranted ∧ c.noVotes = votesFor c.votes .kDenied ∧
      c.yesVotes + c.noVotes ≤ c.numVoters ∧ (c.votes.map Prod.fst).Nodup ∧
      (c.getDecision = .kGranted ↔ c.majoritySize ≤ votesFor c.votes .kGranted) ∧
      (c.getDecision = .kDenied ↔ c.numVoters - c.majoritySize < votesFor c.votes .kDenied) ∧
      (c.getDecision ≠ .kUnknown → (c.registerVote voterUuid vote).1.getDecision = c.getDecision) ∧
      ∀ e, (c.registerVote voterUuid vote).2 = .error e →
        (c.registerVote voterUuid vote).1.yesVotes = c.yesVotes ∧
        (c.registerVote voterUuid vote).1.noVotes = c.noVotes ∧
        ((c.registerVote voterUuid vote).1.votes = c.votes ∨
          vote = .kUnknown ∧ voterUuid ∉ c.votes.map Prod.fst ∧
            (c.registerVote voterUuid vote).1.votes.Perm ((voterUuid, .kUnknown) :: c.votes)) := by
  have hi := hc.inv
  refine ⟨hi.yes, hi.no, hi.bound, hi.nodup, hi.getDecision_eq_kGranted_iff,
    hi.getDecision_eq_kDenied_iff, hi.getDecision_registerVote voterUuid vote, ?_⟩
  intro e he
  obtain ⟨-, -, hcase⟩ := registerVote_spec c voterUuid vote
  rcases hcase with ⟨hv, hy, hn⟩ | ⟨hnew, -, hv, hy, hn, herr⟩
  · exact ⟨hy, hn, .inl hv⟩
  · -- only an invalid vote fails after the new voter is recorded
    obtain rfl := herr.mp ⟨e, he⟩
    refine ⟨by simp [hy], by simp [hn], .inr ⟨rfl, hnew, ?_⟩⟩
    rw [hv]
    exact List.perm_orderedInsert _ _ _

/-- An invalid vote from a new voter: the call fails, but the voter is recorded, and its later
valid vote is refused as a changed one. -/
theorem voteCounter_registerVote_unknown :
    ∃ c, VoteCounter.new 3 2 = some c ∧
      (c.registerVote "A" .kUnknown).2 = .error ⟨.kInvalidArgument, "Invalid vote: kUnknown"⟩ ∧
      (c.registerVote "A" .kUnknown).1.votes = [("A", .kUnknown)] ∧
      (c.registerVote "A" .kUnknown).1.yesVotes + (c.registerVote "A" .kUnknown).1.noVotes = 0 ∧
      ((c.registerVote "A" .kUnknown).1.registerVote "A" .kGranted).2 =
        .error ⟨.kInvalidArgument,
          "Peer A voted a different way twice in the same election. First vote: kUnknown, second vote: kGranted."⟩ := by
  let c : VoteCounter := ⟨3, 2, [], 0, 0, by decide, by decide, by decide⟩
  have hc : VoteCounter.new 3 2 = some c := rfl
  have herr : (c.registerVote "A" .kUnknown).2 =
      .error ⟨.kInvalidArgument, "Invalid vote: kUnknown"⟩ := rfl
  -- the failed call counted nothing, by the run theorem
  obtain ⟨hy, hn, -⟩ := (voteCounter_registerVote (.new hc) "A" .kUnknown).2.2.2.2.2.2.2 _ herr
  exact ⟨c, hc, herr, rfl, by rw [hy, hn]; rfl, rfl⟩

end VoteCounter

end FrescoDB.Consensus
