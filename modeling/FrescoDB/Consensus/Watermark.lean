import FrescoDB.Consensus.RaftConsensus
import FrescoDB.Common.HybridTime
import FrescoDB.Lib.OrderStatistic
import FrescoDB.Util.MonoTime

/-! `PeerMessageQueue::GetWatermark` (`consensus/consensus_queue.cc`): the value that a majority
of the active config's voters holds, read off the peers the leader tracks. Its three policies are
the leader lease, the hybrid time lease and the OpId; for the two leases the leader counts itself
as holding an infinite value and leaves itself out of the array it sorts. -/
namespace FrescoDB.Consensus

open FrescoDB.Lib FrescoDB.Common FrescoDB.Util

/-- `RaftPeerPB::MemberType`. -/
inductive MemberType
  | unknownMemberType | voter | preVoter | observer | preObserver
  deriving DecidableEq, Repr

/-- `RaftPeerPB`: the fields the queue reads. -/
structure RaftPeer where
  permanentUuid : String
  memberType : MemberType
  deriving DecidableEq, Repr

/-- `IsRaftConfigVoter`: the first peer of the uuid decides. -/
def isRaftConfigVoter (uuid : String) : List RaftPeer → Bool
  | [] => false
  | peer :: peers =>
    if peer.permanentUuid = uuid then peer.memberType == .voter else isRaftConfigVoter uuid peers

/-- `MicrosTime`. -/
abbrev MicrosTime := UInt64

/-- `MinimumOpId`, `MaximumOpId`. -/
def minimumOpId : OpId := ⟨0, 0⟩
def maximumOpId : OpId := ⟨2 ^ 63 - 1, 2 ^ 63 - 1⟩

/-- `TrackedPeer`: the fields the watermarks read. -/
structure TrackedPeer where
  uuid : String
  lastReceived : OpId
  isLastExchangeSuccessful : Bool
  lastLeaderLeaseExpirationReceivedByFollower : CoarseTimePoint
  lastHtLeaseExpirationReceivedByFollower : MicrosTime

/-- What `GetWatermark` reads of the queue: the tracked peers of `peers_map_` in uuid order,
`local_peer_uuid_`, `queue_state_.majority_size_` and the peers of the active config. -/
structure PeerMessageQueue where
  peersMap : List TrackedPeer
  localPeerUuid : String
  majoritySize : Int
  activeConfig : List RaftPeer

/-- `kUninitializedMajoritySize`. -/
def kUninitializedMajoritySize : Int := -1

/-- A `Policy` of `GetWatermark`: its `result_type` is `α`, and its `Comparator` compares `key`. -/
structure WatermarkPolicy (α β : Type) [LinearOrder β] where
  min : α
  max : α
  extractValue : TrackedPeer → α
  key : α → β
  localPeerHasInfiniteWatermark : Bool

/-- The `Policy` of `LeaderLeaseExpirationWatermark`: a lease never received reads as `min()`. -/
def leaderLeasePolicy : WatermarkPolicy CoarseTimePoint Int where
  min := CoarseTimePoint.min
  max := CoarseTimePoint.max
  extractValue peer :=
    let leaseExp := peer.lastLeaderLeaseExpirationReceivedByFollower
    if leaseExp ≠ CoarseTimePoint.epoch then leaseExp else CoarseTimePoint.min
  key := CoarseTimePoint.nanos
  localPeerHasInfiniteWatermark := true

/-- The `Policy` of `HybridTimeLeaseExpirationWatermark`. -/
def hybridTimeLeasePolicy : WatermarkPolicy MicrosTime Nat where
  min := HybridTime.kMin.getPhysicalValueMicros
  max := HybridTime.kMax.getPhysicalValueMicros
  extractValue peer := peer.lastHtLeaseExpirationReceivedByFollower
  key := UInt64.toNat
  localPeerHasInfiniteWatermark := true

/-- The `Policy` of `OpIdWatermark`: OpIds compare by index only. -/
def opIdPolicy : WatermarkPolicy OpId Int where
  min := minimumOpId
  max := maximumOpId
  extractValue peer := peer.lastReceived
  key := OpId.index
  localPeerHasInfiniteWatermark := false

namespace PeerMessageQueue

variable {α β : Type} [LinearOrder β]

/-- The loop over `peers_map_`: the values of the voters whose last exchange succeeded, without
the local peer where it counts as infinite. -/
def watermarks (q : PeerMessageQueue) (P : WatermarkPolicy α β) : List α :=
  q.peersMap.filterMap fun peer =>
    if peer.uuid = q.localPeerUuid && P.localPeerHasInfiniteWatermark then none
    else if !isRaftConfigVoter peer.uuid q.activeConfig then none
    else if peer.isLastExchangeSuccessful then some (P.extractValue peer)
    else none

/-- `num_responsive_peers`: the array and the infinite local peer. -/
def numResponsivePeers (q : PeerMessageQueue) (P : WatermarkPolicy α β) : Nat :=
  (q.watermarks P).length + if P.localPeerHasInfiniteWatermark then 1 else 0

/-- `GetWatermark<Policy>`; `none` is a failed `CHECK_GE`, or the `DCHECK_LT` on the index
of interest (past the array, a release build reads out of bounds). -/
def getWatermark (q : PeerMessageQueue) (P : WatermarkPolicy α β) : Option α :=
  let numPeersRequired := q.majoritySize
  if numPeersRequired = kUninitializedMajoritySize then some P.min
  else if numPeersRequired < 0 then none
  else if (q.peersMap.length : Int) < numPeersRequired then some P.min
  else if numPeersRequired = 1 then some P.max
  else if (q.numResponsivePeers P : Int) < numPeersRequired then some P.min
  else
    let indexOfInterest := q.numResponsivePeers P - numPeersRequired.toNat
    if indexOfInterest < (q.watermarks P).length then
      nthByKey P.key (q.watermarks P) indexOfInterest
    else none

-- Equation lemmas, made once before their uses.
section
attribute [local simp] getWatermark
end

/-- How many of the responsive voters hold a value whose key reaches `k`, the local peer
counted as infinite where the policy says so. -/
def holdersAtLeast (q : PeerMessageQueue) (P : WatermarkPolicy α β) (k : β) : Nat :=
  countAtLeast P.key (q.watermarks P) k + if P.localPeerHasInfiniteWatermark then 1 else 0

/-- `w` is what a majority of `m` holds: `m` responsive voters reach it and no larger key is
reached by `m` of them. -/
def IsMajorityWatermark (q : PeerMessageQueue) (P : WatermarkPolicy α β) (m : Nat) (w : α) :
    Prop :=
  m ≤ q.holdersAtLeast P (P.key w) ∧ ∀ k, P.key w < k → q.holdersAtLeast P k < m

end PeerMessageQueue

/-- `LeaderLeaseExpirationWatermark`, `HybridTimeLeaseExpirationWatermark`, `OpIdWatermark`. -/
def PeerMessageQueue.leaderLeaseExpirationWatermark (q : PeerMessageQueue) :
    Option CoarseTimePoint :=
  q.getWatermark leaderLeasePolicy
def PeerMessageQueue.hybridTimeLeaseExpirationWatermark (q : PeerMessageQueue) :
    Option MicrosTime :=
  q.getWatermark hybridTimeLeasePolicy
def PeerMessageQueue.opIdWatermark (q : PeerMessageQueue) : Option OpId :=
  q.getWatermark opIdPolicy

namespace PeerMessageQueue

variable {α β : Type} [LinearOrder β] {q : PeerMessageQueue} {P : WatermarkPolicy α β}

theorem mem_watermarks {w : α} :
    w ∈ q.watermarks P ↔ ∃ peer ∈ q.peersMap,
      ¬ (peer.uuid = q.localPeerUuid ∧ P.localPeerHasInfiniteWatermark = true) ∧
      isRaftConfigVoter peer.uuid q.activeConfig = true ∧
      peer.isLastExchangeSuccessful = true ∧ P.extractValue peer = w := by
  simp only [watermarks, List.mem_filterMap]
  refine exists_congr fun peer => and_congr_right fun _ => ?_
  by_cases hlocal : peer.uuid = q.localPeerUuid ∧ P.localPeerHasInfiniteWatermark = true
  · simp [hlocal]
  · by_cases hvoter : isRaftConfigVoter peer.uuid q.activeConfig = true
    · cases hok : peer.isLastExchangeSuccessful <;> simp_all
    · simp_all

theorem holdersAtLeast_le_numResponsivePeers (k : β) :
    q.holdersAtLeast P k ≤ q.numResponsivePeers P := by
  have hcount : countAtLeast P.key (q.watermarks P) k ≤ (q.watermarks P).length :=
    List.countP_le_length
  unfold holdersAtLeast numResponsivePeers
  omega

theorem isMajorityWatermark_of_nthByKey {m : Nat} {w : α} (hmn : m ≤ q.numResponsivePeers P)
    (h : nthByKey P.key (q.watermarks P) (q.numResponsivePeers P - m) = some w) :
    q.IsMajorityWatermark P m w := by
  obtain ⟨hge, habove⟩ := nthByKey_count h
  have hinf : (if P.localPeerHasInfiniteWatermark then 1 else 0) ≤ 1 := by split <;> omega
  unfold numResponsivePeers at hmn hge habove
  refine ⟨?_, fun k hk => ?_⟩
  · unfold holdersAtLeast
    omega
  · have hle := @countAtLeast_le_countAbove _ _ _ P.key (q.watermarks P) _ _ hk
    unfold holdersAtLeast
    omega

theorem getWatermark_of_uninitialized (h : q.majoritySize = kUninitializedMajoritySize) :
    q.getWatermark P = some P.min := by
  simp only [getWatermark, if_pos h]

theorem getWatermark_of_negative (hneg : q.majoritySize < 0)
    (hinit : q.majoritySize ≠ kUninitializedMajoritySize) : q.getWatermark P = none := by
  simp only [getWatermark, if_neg hinit, if_pos hneg]

theorem getWatermark_of_few_peers (hpos : 0 ≤ q.majoritySize)
    (hfew : (q.peersMap.length : Int) < q.majoritySize) : q.getWatermark P = some P.min := by
  have hinit : q.majoritySize ≠ kUninitializedMajoritySize := by
    unfold kUninitializedMajoritySize
    omega
  simp only [getWatermark, if_neg hinit, if_neg (not_lt.mpr hpos), if_pos hfew]

theorem getWatermark_of_one (h : q.majoritySize = 1) (hpeers : 1 ≤ q.peersMap.length) :
    q.getWatermark P = some P.max := by
  have hinit : q.majoritySize ≠ kUninitializedMajoritySize := by
    unfold kUninitializedMajoritySize
    omega
  have hmany : ¬ (q.peersMap.length : Int) < q.majoritySize := by omega
  simp only [getWatermark, if_neg hinit, if_neg (show ¬ q.majoritySize < 0 by omega), if_neg hmany,
    if_pos h]

/-- Past the first checks, the watermark is read at `num_responsive_peers - m`, or is `Min()`
when fewer than `m` respond; a majority size of 0 fails the check on that index. -/
theorem getWatermark_of_many_peers {m : Nat} (hm : q.majoritySize = m) (hone : m ≠ 1)
    (hpeers : m ≤ q.peersMap.length) :
    q.getWatermark P =
      if q.numResponsivePeers P < m then some P.min
      else if q.numResponsivePeers P - m < (q.watermarks P).length then
        nthByKey P.key (q.watermarks P) (q.numResponsivePeers P - m)
      else none := by
  have hinit : q.majoritySize ≠ kUninitializedMajoritySize := by
    unfold kUninitializedMajoritySize
    omega
  have hmany : ¬ (q.peersMap.length : Int) < q.majoritySize := by omega
  have hone' : q.majoritySize ≠ 1 := by omega
  simp only [getWatermark]
  rw [if_neg hinit, if_neg (show ¬ q.majoritySize < 0 by omega), if_neg hmany, if_neg hone', hm,
    Int.toNat_natCast]
  simp only [Nat.cast_lt]

theorem getWatermark_of_zero (h : q.majoritySize = 0) : q.getWatermark P = none := by
  rw [getWatermark_of_many_peers (show q.majoritySize = ((0 : Nat) : Int) from h) (by omega)
    (Nat.zero_le _)]
  unfold numResponsivePeers
  simp

theorem getWatermark_of_few_responsive {m : Nat} (hm : q.majoritySize = m) (hone : m ≠ 1)
    (hpeers : m ≤ q.peersMap.length) (hfew : q.numResponsivePeers P < m) :
    q.getWatermark P = some P.min := by
  rw [getWatermark_of_many_peers hm hone hpeers, if_pos hfew]

/-- With a majority of at least two and enough responsive voters, the watermark is the value of
one of them, and it is what a majority holds. -/
theorem getWatermark_of_quorum {m : Nat} (hm : q.majoritySize = m) (htwo : 2 ≤ m)
    (hpeers : m ≤ q.peersMap.length) (hquorum : m ≤ q.numResponsivePeers P) :
    ∃ w, q.getWatermark P = some w ∧ q.IsMajorityWatermark P m w ∧ w ∈ q.watermarks P := by
  have hinf : (if P.localPeerHasInfiniteWatermark then 1 else 0) ≤ 1 := by split <;> omega
  -- the index of interest falls inside the array: `m` exceeds the one infinite local peer
  have hindex : q.numResponsivePeers P - m < (q.watermarks P).length := by
    unfold numResponsivePeers at hquorum ⊢
    omega
  obtain ⟨w, hw⟩ := @nthByKey_isSome _ _ _ P.key _ _ hindex
  refine ⟨w, ?_, isMajorityWatermark_of_nthByKey hquorum hw, nthByKey_mem hw⟩
  rw [getWatermark_of_many_peers hm (by omega) hpeers, if_neg (not_lt.mpr hquorum),
    if_pos hindex, hw]

/-- `GetWatermark` for every policy: `Min()` before the majority size is known, with fewer
tracked peers than it or with fewer responsive voters; `Max()` for a majority of one; a failed
check for a negative or zero majority size; otherwise the value of a responsive voter that a
majority holds and no larger value is held by a majority. -/
theorem getWatermark_majority (q : PeerMessageQueue) (P : WatermarkPolicy α β) :
    (q.majoritySize = kUninitializedMajoritySize → q.getWatermark P = some P.min) ∧
    (q.majoritySize < 0 → q.majoritySize ≠ kUninitializedMajoritySize →
      q.getWatermark P = none) ∧
    (q.majoritySize = 0 → q.getWatermark P = none) ∧
    (0 ≤ q.majoritySize → (q.peersMap.length : Int) < q.majoritySize →
      q.getWatermark P = some P.min) ∧
    (q.majoritySize = 1 → 1 ≤ q.peersMap.length → q.getWatermark P = some P.max) ∧
    ∀ m : Nat, q.majoritySize = m → 2 ≤ m → m ≤ q.peersMap.length →
      (q.numResponsivePeers P < m → q.getWatermark P = some P.min) ∧
      (m ≤ q.numResponsivePeers P → ∃ w, q.getWatermark P = some w ∧
        q.IsMajorityWatermark P m w ∧
        ∃ peer ∈ q.peersMap, isRaftConfigVoter peer.uuid q.activeConfig = true ∧
          peer.isLastExchangeSuccessful = true ∧ P.extractValue peer = w) := by
  refine ⟨getWatermark_of_uninitialized, getWatermark_of_negative, getWatermark_of_zero,
    getWatermark_of_few_peers, getWatermark_of_one, fun m hm htwo hpeers =>
      ⟨getWatermark_of_few_responsive hm (by omega) hpeers, fun hquorum => ?_⟩⟩
  obtain ⟨w, hw, hmajority, hmem⟩ := getWatermark_of_quorum hm htwo hpeers hquorum
  obtain ⟨peer, hpeer, -, hvoter, hok, hvalue⟩ := mem_watermarks.mp hmem
  exact ⟨w, hw, hmajority, peer, hpeer, hvoter, hok, hvalue⟩

/-- Three responsive voters and a majority of two: the OpId watermark is the middle index. -/
theorem getWatermark_majority_three_voters :
    ∃ w, PeerMessageQueue.opIdWatermark
        ⟨[⟨"a", ⟨1, 5⟩, true, .epoch, 0⟩, ⟨"b", ⟨1, 7⟩, true, .epoch, 0⟩,
          ⟨"c", ⟨1, 6⟩, true, .epoch, 0⟩], "a", 2,
          [⟨"a", .voter⟩, ⟨"b", .voter⟩, ⟨"c", .voter⟩]⟩ = some w ∧
      PeerMessageQueue.IsMajorityWatermark
        ⟨[⟨"a", ⟨1, 5⟩, true, .epoch, 0⟩, ⟨"b", ⟨1, 7⟩, true, .epoch, 0⟩,
          ⟨"c", ⟨1, 6⟩, true, .epoch, 0⟩], "a", 2,
          [⟨"a", .voter⟩, ⟨"b", .voter⟩, ⟨"c", .voter⟩]⟩ opIdPolicy 2 w := by
  obtain ⟨w, hw, hmajority, -⟩ := ((getWatermark_majority
    ⟨[⟨"a", ⟨1, 5⟩, true, .epoch, 0⟩, ⟨"b", ⟨1, 7⟩, true, .epoch, 0⟩,
      ⟨"c", ⟨1, 6⟩, true, .epoch, 0⟩], "a", 2,
      [⟨"a", .voter⟩, ⟨"b", .voter⟩, ⟨"c", .voter⟩]⟩ opIdPolicy).2.2.2.2.2 2 rfl
    (by decide) (by decide)).2 (by decide)
  exact ⟨w, hw, hmajority⟩

example : PeerMessageQueue.opIdWatermark
    ⟨[⟨"a", ⟨1, 5⟩, true, .epoch, 0⟩, ⟨"b", ⟨1, 7⟩, true, .epoch, 0⟩,
      ⟨"c", ⟨1, 6⟩, true, .epoch, 0⟩], "a", 2,
      [⟨"a", .voter⟩, ⟨"b", .voter⟩, ⟨"c", .voter⟩]⟩ = some ⟨1, 6⟩ := by
  decide

/-- A majority of one gives `Max()` even when no voter responds: the local peer, tracked but
with its last exchange not yet successful, is the only peer. -/
theorem opIdWatermark_one_unresponsive :
    PeerMessageQueue.opIdWatermark ⟨[⟨"a", ⟨0, 0⟩, false, .epoch, 0⟩], "a", 1, [⟨"a", .voter⟩]⟩ =
        some maximumOpId ∧
      PeerMessageQueue.numResponsivePeers
        ⟨[⟨"a", ⟨0, 0⟩, false, .epoch, 0⟩], "a", 1, [⟨"a", .voter⟩]⟩ opIdPolicy = 0 :=
  ⟨rfl, rfl⟩

end PeerMessageQueue

end FrescoDB.Consensus
