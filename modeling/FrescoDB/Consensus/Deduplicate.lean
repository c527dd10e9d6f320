import FrescoDB.Consensus.PendingInvariant

/-! What `DeduplicateLeaderRequestUnlocked` keeps of a leader's request. On a replica whose
pending operations are the window after its committed index, the loop skips the ops the
replica already holds, committed or pending with the same OpId, and keeps every op from the
first new one on: the kept messages are one run of the request, at the position the loop
records for `ExtractSubrange`. -/
namespace FrescoDB.Consensus

open FrescoDB.Lib

namespace ReplicaState

/-- An op the replica already holds: committed, or pending with the same OpId. -/
def isDuplicate (s : ReplicaState) (op : ConsensusRound) : Bool :=
  decide (op.id.index ≤ s.lastCommittedOpId.index) ||
    (s.getPendingOpByIndexOrNullUnlocked op.id.index).any fun round => decide (round.id = op.id)

/-- The messages `ExtractSubrange(first_message_idx, messages.size())` takes from the request. -/
def extractSubrange (ops : List ConsensusRound) (start : Int) (count : Nat) :
    List ConsensusRound :=
  (ops.drop start.toNat).take count

section Loop

variable {s : ReplicaState}

/-- After the first kept message every op is new: past the committed index and past the index up
to which the loop still compares. -/
theorem dedupLoop_keep {upTo : Int} {deduped : LeaderRequest} {i : Nat}
    {ops : List ConsensusRound} (hnew : ∀ op ∈ ops, s.lastCommittedOpId.index < op.id.index ∧
      upTo < op.id.index) (hfirst : deduped.firstMessageIdx ≠ -1) :
    s.dedupLoop upTo deduped i ops = some { deduped with messages := deduped.messages ++ ops } := by
  induction ops generalizing deduped i with
  | nil => simp [dedupLoop]
  | cons op rest ih =>
    obtain ⟨hc, hu⟩ := hnew op (List.mem_cons_self ..)
    rw [dedupLoop, if_neg (by omega)]
    dsimp only
    rw [if_neg (by omega), if_neg hfirst,
      @ih { deduped with messages := deduped.messages ++ [op] } (i + 1)
        (fun o ho => hnew o (List.mem_cons_of_mem _ ho)) hfirst]
    simp

theorem getD_getLast?_cons (op : ConsensusRound) (l : List ConsensusRound) (p : OpId) :
    (((op :: l).getLast?).map (·.id)).getD p = ((l.getLast?).map (·.id)).getD op.id := by
  rw [List.getLast?_cons]
  cases l.getLast? <;> rfl

/-- Before the first kept message the loop compares up to the last received index and skips
exactly the duplicates; from the first new op on it keeps everything. -/
theorem dedupLoop_skip (hi : Inv s) {base : Int} {deduped : LeaderRequest} {i : Nat}
    {ops : List ConsensusRound} (hops : IsWindow roundIndex base ops)
    (hmsg : deduped.messages = []) (hfirst : deduped.firstMessageIdx = -1) :
    s.dedupLoop s.lastReceivedOpId.index deduped i ops =
      some ⟨(((ops.takeWhile s.isDuplicate).getLast?).map (·.id)).getD deduped.precedingOpId,
        ops.dropWhile s.isDuplicate,
        if ops.dropWhile s.isDuplicate = [] then -1
        else i + (ops.takeWhile s.isDuplicate).length⟩ := by
  induction ops generalizing base deduped i with
  | nil =>
    obtain ⟨p, m, f⟩ := deduped
    simp only at hmsg hfirst
    subst hmsg hfirst
    simp [dedupLoop]
  | cons op rest ih =>
    obtain ⟨hop, hrest⟩ := isWindow_cons.mp hops
    have hr := hi.received
    -- the later ops are past this one
    have hlater : ∀ o ∈ rest, op.id.index < o.id.index := by
      intro o ho
      obtain ⟨k, hk, rfl⟩ := List.getElem_of_mem ho
      have := hrest k hk
      simp only [roundIndex] at this hop
      omega
    -- a skipped op: the loop goes on with it as the preceding OpId
    have hskip : s.isDuplicate op = true →
        s.dedupLoop s.lastReceivedOpId.index { deduped with precedingOpId := op.id } (i + 1) rest =
          some ⟨(((op :: rest).takeWhile s.isDuplicate).getLast?.map (·.id)).getD
              deduped.precedingOpId,
            (op :: rest).dropWhile s.isDuplicate,
            if (op :: rest).dropWhile s.isDuplicate = [] then -1
            else i + ((op :: rest).takeWhile s.isDuplicate).length⟩ := by
      intro hd
      rw [@ih (base + 1) { deduped with precedingOpId := op.id } (i + 1) hrest hmsg hfirst,
        List.takeWhile_cons_of_pos hd, List.dropWhile_cons_of_pos hd, getD_getLast?_cons,
        List.length_cons]
      congr 3
      omega
    -- a kept op: every later op is kept after it
    have hkeep : ∀ upTo, upTo ≤ op.id.index → s.isDuplicate op = false →
        s.lastCommittedOpId.index < op.id.index →
        s.dedupLoop upTo
            { deduped with
              messages := deduped.messages ++ [op],
              firstMessageIdx := (if deduped.firstMessageIdx = -1 then i
                else deduped.firstMessageIdx) } (i + 1) rest =
          some ⟨(((op :: rest).takeWhile s.isDuplicate).getLast?.map (·.id)).getD
              deduped.precedingOpId,
            (op :: rest).dropWhile s.isDuplicate,
            if (op :: rest).dropWhile s.isDuplicate = [] then -1
            else i + ((op :: rest).takeWhile s.isDuplicate).length⟩ := by
      intro upTo hup hd hc
      have hd' : ¬ s.isDuplicate op = true := by simp [hd]
      have hne : (if deduped.firstMessageIdx = -1 then (i : Int) else deduped.firstMessageIdx) ≠ -1 := by
        rw [if_pos hfirst]
        omega
      have hnew : ∀ o ∈ rest, s.lastCommittedOpId.index < o.id.index ∧ upTo < o.id.index :=
        fun o ho => by
          have := hlater o ho
          omega
      rw [dedupLoop_keep hnew hne, List.takeWhile_cons_of_neg hd', List.dropWhile_cons_of_neg hd']
      simp [hmsg, hfirst]
    rw [dedupLoop]
    by_cases hc : op.id.index ≤ s.lastCommittedOpId.index
    · -- committed
      rw [if_pos hc]
      exact hskip (by simp [isDuplicate, hc])
    rw [if_neg hc]
    dsimp only
    by_cases hu : op.id.index ≤ s.lastReceivedOpId.index
    · -- pending: a duplicate when the OpIds agree
      rw [if_pos hu]
      obtain ⟨position, round, hfind, -, -, -⟩ :=
        findPendingOperation_of_pending hi.window (not_le.mp hc) (by omega)
      have hget : s.getPendingOpByIndexOrNullUnlocked op.id.index = some round := by
        simp [getPendingOpByIndexOrNullUnlocked, hfind]
      rw [hget]
      dsimp only
      by_cases hid : round.id = op.id
      · rw [if_pos hid]
        exact hskip (by simp [isDuplicate, hget, hid])
      · rw [if_neg hid]
        exact hkeep _ le_rfl (by simp [isDuplicate, hc, hget, hid]) (not_le.mp hc)
    · -- past the last received index: nothing pending there
      rw [if_neg hu]
      have hnone : s.getPendingOpByIndexOrNullUnlocked op.id.index = none := by
        simp [getPendingOpByIndexOrNullUnlocked,
          @findPendingOperation_of_not_pending s hi.window op.id.index (.inr (by omega))]
      exact hkeep _ (by omega) (by simp [isDuplicate, hc, hnone]) (not_le.mp hc)

end Loop

/-! The kept messages and the OpId before them, read off the request: the skipped ops are the
longest prefix of duplicates, and the preceding OpId is the last of them. -/

section Suffix

variable {p : ConsensusRound → Bool}

theorem dropWhile_eq_drop_length (ops : List ConsensusRound) :
    ops.dropWhile p = ops.drop (ops.takeWhile p).length :=
  calc ops.dropWhile p
      = (ops.takeWhile p ++ ops.dropWhile p).drop (ops.takeWhile p).length := List.drop_left.symm
    _ = ops.drop (ops.takeWhile p).length := by rw [List.takeWhile_append_dropWhile]

/-- The preceding OpId followed by the kept messages is the request's OpId sequence with the
skipped ops dropped. -/
theorem cons_map_id_dropWhile (pre : OpId) (ops : List ConsensusRound) :
    (((ops.takeWhile p).getLast?).map (·.id)).getD pre :: (ops.dropWhile p).map (·.id) =
      (pre :: ops.map (·.id)).drop (ops.takeWhile p).length := by
  induction ops generalizing pre with
  | nil => rfl
  | cons op rest ih =>
    by_cases hp : p op = true
    · rw [List.takeWhile_cons_of_pos hp, List.dropWhile_cons_of_pos hp, getD_getLast?_cons,
        ih op.id]
      rfl
    · rw [List.takeWhile_cons_of_neg hp, List.dropWhile_cons_of_neg hp]
      rfl

theorem index_getD_getLast? {pre : OpId} {ops : List ConsensusRound}
    (hops : IsWindow roundIndex pre.index ops) :
    ((((ops.takeWhile p).getLast?).map (·.id)).getD pre).index =
      pre.index + (ops.takeWhile p).length := by
  induction ops generalizing pre with
  | nil => simp
  | cons op rest ih =>
    obtain ⟨hop, hrest⟩ := isWindow_cons.mp hops
    simp only [roundIndex] at hop
    by_cases hp : p op = true
    · rw [List.takeWhile_cons_of_pos hp, getD_getLast?_cons, ih (by rwa [hop]), hop,
        List.length_cons]
      omega
    · rw [List.takeWhile_cons_of_neg hp]
      simp

end Suffix

theorem checkOpInSequence_of_le {previous current : OpId} (hterm : previous.term ≤ current.term)
    (hindex : current.index = previous.index + 1) : checkOpInSequence previous current = .ok () := by
  unfold checkOpInSequence
  rw [if_neg (not_lt.mpr hterm), if_neg (by simp [hindex])]

theorem checkSequence_ok : ∀ {prev : OpId} {messages : List ConsensusRound},
    IsWindow roundIndex prev.index messages →
    (prev :: messages.map (·.id)).Pairwise (fun a b => a.term ≤ b.term) →
    checkSequence prev messages = .ok ()
  | _, [], _, _ => rfl
  | prev, message :: rest, hw, hterms => by
    obtain ⟨hidx, hrest⟩ := isWindow_cons.mp hw
    have hle : prev.term ≤ message.id.term :=
      (List.pairwise_cons.mp hterms).1 _ (List.mem_cons_self ..)
    rw [checkSequence, checkOpInSequence_of_le hle hidx]
    rw [← hidx] at hrest
    exact checkSequence_ok hrest (List.pairwise_cons.mp hterms).2

/-- `DeduplicateLeaderRequestUnlocked` on a request whose ops follow its preceding OpId: the
messages are the request from its first op that is neither committed nor pending with the same
OpId, the preceding OpId is the last op skipped, `first_message_idx` is the number of ops
skipped, and `ExtractSubrange` takes back exactly the messages. The sequence check accepts
them when the request's terms never go down. -/
theorem deduplicateLeaderRequestUnlocked_suffix {s : ReplicaState} (hi : Inv s)
    {request : ConsensusRequest}
    (hops : IsWindow roundIndex request.precedingId.index request.ops) :
    ∃ deduped, s.deduplicateLeaderRequestUnlocked request = some deduped ∧
      deduped.messages = request.ops.dropWhile s.isDuplicate ∧
      deduped.precedingOpId =
        (((request.ops.takeWhile s.isDuplicate).getLast?).map (·.id)).getD request.precedingId ∧
      deduped.firstMessageIdx =
        (if deduped.messages = [] then -1
        else ((request.ops.takeWhile s.isDuplicate).length : Int)) ∧
      extractSubrange request.ops deduped.firstMessageIdx deduped.messages.length =
        deduped.messages ∧
      ((request.precedingId :: request.ops.map (·.id)).Pairwise (fun a b => a.term ≤ b.term) →
        checkLeaderRequestOpIdSequence deduped = .ok ()) := by
  have hloop := @dedupLoop_skip s hi _ ⟨request.precedingId, [], -1⟩ 0 _ hops rfl rfl
  refine ⟨_, hloop, rfl, rfl, by simp, ?_, ?_⟩
  · -- the kept messages start right after the skipped ops
    simp only [extractSubrange]
    split_ifs with hnil
    · rw [hnil]
      rfl
    · rw [Int.natCast_zero, Int.zero_add, Int.toNat_natCast, ← dropWhile_eq_drop_length,
        List.take_length]
  · intro hterms
    have hdrop := @dropWhile_eq_drop_length s.isDuplicate request.ops
    have hwin : IsWindow roundIndex
        ((((request.ops.takeWhile s.isDuplicate).getLast?).map (·.id)).getD
          request.precedingId).index (request.ops.dropWhile s.isDuplicate) := by
      rw [index_getD_getLast? hops, hdrop]
      exact hops.drop (List.takeWhile_prefix _).length_le
    apply checkSequence_ok hwin
    rw [cons_map_id_dropWhile]
    exact hterms.sublist (List.drop_sublist _ _)

theorem deduplicateLeaderRequestUnlocked_skips_pending :
    Inv ⟨1, [⟨⟨1, 1⟩, .writeOp⟩], ⟨0, 0⟩, ⟨1, 1⟩, 2⟩ ∧
      IsWindow roundIndex 0 [⟨⟨1, 1⟩, .writeOp⟩, ⟨⟨1, 2⟩, .writeOp⟩] ∧
      ∃ deduped, deduplicateLeaderRequestUnlocked
          ⟨1, [⟨⟨1, 1⟩, .writeOp⟩], ⟨0, 0⟩, ⟨1, 1⟩, 2⟩
          ⟨1, ⟨0, 0⟩, [⟨⟨1, 1⟩, .writeOp⟩, ⟨⟨1, 2⟩, .writeOp⟩], ⟨0, 0⟩⟩ = some deduped ∧
        deduped.messages = [⟨⟨1, 2⟩, .writeOp⟩] ∧ deduped.precedingOpId = ⟨1, 1⟩ ∧
        checkLeaderRequestOpIdSequence deduped = .ok () := by
  have hi : Inv ⟨1, [⟨⟨1, 1⟩, .writeOp⟩], ⟨0, 0⟩, ⟨1, 1⟩, 2⟩ :=
    ⟨isWindow_cons.mpr ⟨rfl, isWindow_nil _⟩, rfl, rfl⟩
  have hops : IsWindow roundIndex 0 [⟨⟨1, 1⟩, .writeOp⟩, ⟨⟨1, 2⟩, .writeOp⟩] :=
    isWindow_cons.mpr ⟨rfl, isWindow_cons.mpr ⟨rfl, isWindow_nil _⟩⟩
  obtain ⟨deduped, hd, hmsg, hpre, -, -, hcheck⟩ :=
    @deduplicateLeaderRequestUnlocked_suffix _ hi
      ⟨1, ⟨0, 0⟩, [⟨⟨1, 1⟩, .writeOp⟩, ⟨⟨1, 2⟩, .writeOp⟩], ⟨0, 0⟩⟩ hops
  exact ⟨hi, hops, deduped, hd, by rw [hmsg]; decide, by rw [hpre]; decide, hcheck (by decide)⟩

/-- Without the order on terms the claim's conclusion fails: a request whose op has a lower
term than its preceding OpId is kept whole, and the sequence check rejects it. -/
theorem deduplicateLeaderRequestUnlocked_term_regress :
    Inv ⟨1, [], ⟨0, 0⟩, ⟨0, 0⟩, 1⟩ ∧ IsWindow roundIndex 0 [⟨⟨1, 1⟩, .writeOp⟩] ∧
      ∃ deduped, deduplicateLeaderRequestUnlocked ⟨1, [], ⟨0, 0⟩, ⟨0, 0⟩, 1⟩
          ⟨1, ⟨2, 0⟩, [⟨⟨1, 1⟩, .writeOp⟩], ⟨0, 0⟩⟩ = some deduped ∧
        deduped.messages = [⟨⟨1, 1⟩, .writeOp⟩] ∧
        ∃ e, checkLeaderRequestOpIdSequence deduped = .error e :=
  ⟨⟨isWindow_nil _, rfl, rfl⟩, isWindow_cons.mpr ⟨rfl, isWindow_nil _⟩, _, rfl, rfl, _, rfl⟩

end ReplicaState

end FrescoDB.Consensus
