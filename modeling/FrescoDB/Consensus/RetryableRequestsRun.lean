import Mathlib
import FrescoDB.Consensus.RetryableRequestsRefinement

/-! Runs of `RetryableRequests` under the protocol of its callers: every round has an op id of its
own, `ReplicationFinished` is called for the round of a running request, and `Bootstrap` for a
request that is neither running nor retained. Along every such run no `LOG(DFATAL)` check fails and
the requests refine the abstract ones of `Spec`. -/
namespace FrescoDB.Consensus.RetryableRequests

open FrescoDB.Lib IntervalList
open ReplicatedRetryableRequestRange (firstId lastId)

/-- The op ids a call brings into the log: that of a registered or a bootstrapped round. -/
def Event.newOpIds : Event → List OpId
  | .register round _ _ => [round.replicateMsg.id]
  | .bootstrap msg _ => [msg.id]
  | _ => []

/-- The calls the callers make in the state `s`, `used` being the op ids of the rounds so far. -/
def Allowed (s : Impl) (used : List OpId) : Event → Prop
  | .register round _ _ => round.replicateMsg.id ∉ used
  | .replicationFinished msg _ _ => ∀ data, ReplicateData.fromMsg msg = some data →
      ∃ e ∈ (s.client data.clientId).running, e.requestId = data.requestId ∧ e.opId = msg.id
  | .bootstrap msg _ => msg.id ∉ used ∧ ∀ data, ReplicateData.fromMsg msg = some data →
      (∀ e ∈ (s.client data.clientId).running, e.requestId ≠ data.requestId) ∧
      holds ((s.client data.clientId).cleanupReplicatedRequests data.minRunningRequestId).replicated
        data.requestId = false
  | .cleanExpiredReplicatedAndGetMinOpId _ => True

variable (rangeTimeLimit requestTimeout : Int) (ndebug : Bool)

/-- The runs of allowed calls from the empty requests, with the op ids of their rounds and the
calls with their replies and notifications. -/
inductive Run : Impl → List OpId → List Call → Prop
  | init : Run {} [] []
  | step {s s' : Impl} {used : List OpId} {trace : List Call} {e : Event} {r : Reply}
      {ns : List Notification} :
      Run s used trace → Allowed s used e →
      RetryableRequests.step rangeTimeLimit requestTimeout ndebug s e = .ok (r, ns, s') →
      Run s' (used ++ e.newOpIds) (trace ++ [⟨e, r, ns⟩])

variable {rangeTimeLimit requestTimeout ndebug} {used : List OpId} {s : Impl} {σ : Spec.State}

theorem step_refines (hinv : Inv used s) (href : Refines s σ) {e : Event}
    (hallowed : Allowed s used e) :
    ∃ r ns s', step rangeTimeLimit requestTimeout ndebug s e = .ok (r, ns, s') ∧
      ∃ σ', Spec.Step requestTimeout σ e r ns σ' ∧ Refines s' σ' ∧ Inv (used ++ e.newOpIds) s' := by
  cases e with
  | register round entryTime now =>
    obtain ⟨h1, h2, href', hinv'⟩ := register_refines hinv href hallowed entryTime now
    refine ⟨.registered (s.register round entryTime now).1, (s.register round entryTime now).2.1,
      (s.register round entryTime now).2.2, rfl, _, ?_, href', hinv'⟩
    rw [h1, h2]
    exact .register σ round entryTime now
  | replicationFinished msg status leaderTerm =>
    obtain ⟨ns, s', heq, hns, href', hinv'⟩ :=
      replicationFinished_refines rangeTimeLimit ndebug hinv href hallowed status leaderTerm
    refine ⟨.done, ns, s', by simp only [step, heq]; rfl, _, ?_, href',
      by simpa only [Event.newOpIds, List.append_nil] using hinv'⟩
    rw [hns]
    exact .replicationFinished σ msg status leaderTerm
  | bootstrap msg entryTime =>
    obtain ⟨s', heq, href', hinv'⟩ :=
      bootstrap_refines rangeTimeLimit ndebug hinv href hallowed.1 hallowed.2 entryTime
    exact ⟨.done, [], s', by simp only [step, heq]; rfl, _, .bootstrap σ msg entryTime, href', hinv'⟩
  | cleanExpiredReplicatedAndGetMinOpId now =>
    obtain ⟨σ', hexp, href', hinv'⟩ := cleanExpired_refines hinv href requestTimeout now
    have hmin := cleanExpiredReplicatedAndGetMinOpId_min hinv requestTimeout now Prod.mk.eta.symm
    refine ⟨.minOpId (s.cleanExpiredReplicatedAndGetMinOpId requestTimeout now).1, [],
      (s.cleanExpiredReplicatedAndGetMinOpId requestTimeout now).2, rfl, σ',
      .cleanExpired hexp hmin.1 fun id x o t hx => ?_, href',
      by simpa only [Event.newOpIds, List.append_nil] using hinv'⟩
    -- the range that holds `x` has a `min_op_id` at most the op id of `x`
    obtain ⟨b, hb, hlo, hhi⟩ := ((href' id).mem_covers x).mpr (by simp [hx])
    obtain ⟨o', t', hx', hbounds⟩ := (href' id).bounds b hb x hlo hhi
    rw [hx] at hx'
    obtain ⟨rfl, -⟩ := Prod.mk.inj (Option.some.inj hx')
    exact (hmin.2.1 id b hb).trans hbounds.1

theorem Run.refines {trace : List Call} (run : Run rangeTimeLimit requestTimeout ndebug s used trace) :
    Inv used s ∧ ∃ σ, Spec.Run requestTimeout σ trace ∧ Refines s σ := by
  induction run with
  | init => exact ⟨Inv.init, {}, .init, refines_init⟩
  | step _ hallowed hstep ih =>
    obtain ⟨hinv, σ, hrun, href⟩ := ih
    obtain ⟨r', ns', s'', hstep', σ', hspec, href', hinv'⟩ := step_refines hinv href hallowed
    rw [hstep] at hstep'
    obtain ⟨rfl, rfl, rfl⟩ : _ ∧ _ ∧ _ := by simpa using hstep'
    exact ⟨hinv', σ', hrun.step hspec, href'⟩

/-- With a fresh op id, `Register` accepts a write round exactly when its id, after the cleanup to
the round's `min_running_request_id`, is at or above the bound, in no range and not running. -/
theorem register_accepted_iff (hinv : Inv used s) {round : ConsensusRound}
    (hfresh : round.replicateMsg.id ∉ used) {data : ReplicateData}
    (hdata : ReplicateData.fromMsg round.replicateMsg = some data)
    (entryTime now : RestartSafeCoarseTimePoint) :
    (s.register round entryTime now).1 = true ↔
      ((s.client data.clientId).cleanupReplicatedRequests
          data.minRunningRequestId).minRunningRequestId ≤ data.requestId ∧
        data.requestId ∉ Covers firstId lastId ((s.client data.clientId).cleanupReplicatedRequests
          data.minRunningRequestId).replicated ∧
        ∀ e ∈ (s.client data.clientId).running, e.requestId ≠ data.requestId := by
  have hic := (hinv.client data.clientId).cleanup data.minRunningRequestId
  set c := (s.client data.clientId).cleanupReplicatedRequests data.minRunningRequestId
  have hrun : c.running = (s.client data.clientId).running :=
    ClientRetryableRequests.cleanupReplicatedRequests_running
  have hop : ∀ e ∈ c.running, e.opId ≠ round.replicateMsg.id := fun e he heq =>
    hfresh (heq ▸ hic.opId_used e he)
  unfold Impl.register
  rw [hdata]
  dsimp only
  rw [ClientRetryableRequests.emplaceRunning_of_fresh hop, ← hrun]
  by_cases hlt : data.requestId < c.minRunningRequestId
  · rw [if_pos hlt]
    simp [not_le.mpr hlt]
  rw [if_neg hlt]
  by_cases hheld : holds c.replicated data.requestId = true
  · rw [if_pos hheld]
    simp [(holds_iff hic.wellFormed.separated _).mp hheld]
  rw [if_neg hheld]
  have hcov : data.requestId ∉ Covers firstId lastId c.replicated := fun h =>
    hheld ((holds_iff hic.wellFormed.separated _).mpr h)
  cases hfind : c.running.findIdx? (·.requestId = data.requestId) with
  | some i =>
    -- a running request of the same id: the round waits on it
    obtain ⟨hi, heq, -⟩ := List.findIdx?_eq_some_iff_getElem.mp hfind
    simp only [Bool.false_eq_true, false_iff, not_and, not_forall, not_not]
    exact fun _ _ => ⟨c.running[i], List.getElem_mem hi, by simpa using heq⟩
  | none =>
    have hnot : ∀ e ∈ c.running, e.requestId ≠ data.requestId := by
      simpa using List.findIdx?_eq_none_iff.mp hfind
    simp only [true_iff]
    exact ⟨not_lt.mp hlt, hcov, hnot⟩

/-- Along every run under the protocol of its callers: no allowed call fails a check; the ranges of
every client stay well-formed; `Register` accepts a fresh write round exactly when its id, after
the cleanup, is at or above `min_running_request_id`, in no range and not running;
`CleanExpiredReplicatedAndGetMinOpId` returns the least of `OpId::Max` and of the `min_op_id`s of
the ranges it leaves; and the run is a run of the abstract requests, whose retained ids the ranges
hold exactly, each range bounding the op id and the time of every id it holds, and in which every
round a client's `Register` refused is notified exactly once or still waits on a running request. -/
theorem retryableRequests_run_refines {trace : List Call}
    (run : Run rangeTimeLimit requestTimeout ndebug s used trace) :
    (∀ e, Allowed s used e →
      ∃ r ns s', step rangeTimeLimit requestTimeout ndebug s e = .ok (r, ns, s')) ∧
    (∀ id, WellFormed (s.client id).replicated) ∧
    (∀ round entryTime now data, round.replicateMsg.id ∉ used →
      ReplicateData.fromMsg round.replicateMsg = some data →
      ((s.register round entryTime now).1 = true ↔
        ((s.client data.clientId).cleanupReplicatedRequests
            data.minRunningRequestId).minRunningRequestId ≤ data.requestId ∧
          data.requestId ∉ Covers firstId lastId ((s.client data.clientId).cleanupReplicatedRequests
            data.minRunningRequestId).replicated ∧
          ∀ e ∈ (s.client data.clientId).running, e.requestId ≠ data.requestId)) ∧
    (∀ now result s', s.cleanExpiredReplicatedAndGetMinOpId requestTimeout now = (result, s') →
      result ≤ Impl.maxOpId ∧ (∀ id, ∀ b ∈ (s'.client id).replicated, result ≤ b.minOpId) ∧
        (result = Impl.maxOpId ∨ ∃ id, ∃ b ∈ (s'.client id).replicated, b.minOpId = result)) ∧
    ∃ σ, Spec.Run requestTimeout σ trace ∧ Refines s σ ∧
      ∀ id, (notifiedRounds id trace ++ (σ.clients id).pendingRounds).Perm (refusedRounds id trace) := by
  obtain ⟨hinv, σ, hrun, href⟩ := run.refines
  refine ⟨fun e he => ?_, fun id => (hinv.client id).wellFormed,
    fun round entryTime now data hfresh hdata => register_accepted_iff hinv hfresh hdata entryTime now,
    fun now result s' h => cleanExpiredReplicatedAndGetMinOpId_min hinv requestTimeout now h,
    σ, hrun, href, hrun.accounts.2⟩
  obtain ⟨r, ns, s', h, -⟩ := step_refines hinv href he
  exact ⟨r, ns, s', h⟩

/-- A client registers request 5 and its replication succeeds: the request is held in a range of
its own. -/
theorem retryableRequests_run_refines_replicated :
    (∀ e, Allowed ({ clients := [(⟨1, 1⟩, { replicated := [⟨5, 5, ⟨1, 1⟩, 1, 1⟩] })] } : Impl) [(⟨1, 1⟩ : OpId)] e →
      ∃ r ns s', step 0 0 false { clients := [(⟨1, 1⟩, { replicated := [⟨5, 5, ⟨1, 1⟩, 1, 1⟩] })] } e = .ok (r, ns, s')) ∧
    (∀ id, WellFormed (({ clients := [(⟨1, 1⟩, { replicated := [⟨5, 5, ⟨1, 1⟩, 1, 1⟩] })] } : Impl).client id).replicated) ∧
    (∀ round entryTime now data, round.replicateMsg.id ∉ [(⟨1, 1⟩ : OpId)] →
      ReplicateData.fromMsg round.replicateMsg = some data →
      ((({ clients := [(⟨1, 1⟩, { replicated := [⟨5, 5, ⟨1, 1⟩, 1, 1⟩] })] } : Impl).register round entryTime now).1 = true ↔
        ((({ clients := [(⟨1, 1⟩, { replicated := [⟨5, 5, ⟨1, 1⟩, 1, 1⟩] })] } : Impl).client data.clientId).cleanupReplicatedRequests
            data.minRunningRequestId).minRunningRequestId ≤ data.requestId ∧
          data.requestId ∉ Covers firstId lastId
            ((({ clients := [(⟨1, 1⟩, { replicated := [⟨5, 5, ⟨1, 1⟩, 1, 1⟩] })] } : Impl).client data.clientId).cleanupReplicatedRequests
              data.minRunningRequestId).replicated ∧
          ∀ e ∈ (({ clients := [(⟨1, 1⟩, { replicated := [⟨5, 5, ⟨1, 1⟩, 1, 1⟩] })] } : Impl).client data.clientId).running, e.requestId ≠ data.requestId)) ∧
    (∀ now result s', ({ clients := [(⟨1, 1⟩, { replicated := [⟨5, 5, ⟨1, 1⟩, 1, 1⟩] })] } : Impl).cleanExpiredReplicatedAndGetMinOpId 0 now =
        (result, s') →
      result ≤ Impl.maxOpId ∧ (∀ id, ∀ b ∈ (s'.client id).replicated, result ≤ b.minOpId) ∧
        (result = Impl.maxOpId ∨ ∃ id, ∃ b ∈ (s'.client id).replicated, b.minOpId = result)) ∧
    ∃ σ, Spec.Run 0 σ
      [⟨.register ⟨⟨⟨1, 1⟩, some ⟨1, 1, 5, 0⟩⟩, 1⟩ 0 1, .registered true, []⟩,
        ⟨.replicationFinished ⟨⟨1, 1⟩, some ⟨1, 1, 5, 0⟩⟩ ⟨.kOk, ""⟩ 1, .done, []⟩] ∧
      Refines { clients := [(⟨1, 1⟩, { replicated := [⟨5, 5, ⟨1, 1⟩, 1, 1⟩] })] } σ ∧
      ∀ id, (notifiedRounds id
        [⟨.register ⟨⟨⟨1, 1⟩, some ⟨1, 1, 5, 0⟩⟩, 1⟩ 0 1, .registered true, []⟩,
        ⟨.replicationFinished ⟨⟨1, 1⟩, some ⟨1, 1, 5, 0⟩⟩ ⟨.kOk, ""⟩ 1, .done, []⟩] ++
        (σ.clients id).pendingRounds).Perm (refusedRounds id
        [⟨.register ⟨⟨⟨1, 1⟩, some ⟨1, 1, 5, 0⟩⟩, 1⟩ 0 1, .registered true, []⟩,
        ⟨.replicationFinished ⟨⟨1, 1⟩, some ⟨1, 1, 5, 0⟩⟩ ⟨.kOk, ""⟩ 1, .done, []⟩]) :=
  retryableRequests_run_refines
    (@Run.step 0 0 false { clients := [(⟨1, 1⟩, { running := [⟨5, ⟨1, 1⟩, 1, []⟩] })] } _ [⟨1, 1⟩]
      [⟨.register ⟨⟨⟨1, 1⟩, some ⟨1, 1, 5, 0⟩⟩, 1⟩ 0 1, .registered true, []⟩]
      (.replicationFinished ⟨⟨1, 1⟩, some ⟨1, 1, 5, 0⟩⟩ ⟨.kOk, ""⟩ 1) .done []
      (@Run.step 0 0 false {} _ [] [] (.register ⟨⟨⟨1, 1⟩, some ⟨1, 1, 5, 0⟩⟩, 1⟩ 0 1)
        (.registered true) [] Run.init List.not_mem_nil rfl)
      (fun data hdata => by
        cases hdata
        exact ⟨_, List.mem_cons_self .., rfl, rfl⟩) rfl)

/-- In a release build, request 5 is registered with a `min_running_request_id` of 0, then a
duplicate of it with a `min_running_request_id` of 10, and the request is replicated. The
duplicate, registered while 5 runs, is notified as expired at once and not when 5 finishes; and 5
ends up held in a range although the client's `min_running_request_id` is 10, since
`ReplicationFinished` does not clean up. -/
theorem duplicate_expired_and_replicated_below_min :
    runEvents 0 0 true {} [.register ⟨⟨⟨1, 1⟩, some ⟨1, 1, 5, 0⟩⟩, 1⟩ 0 1,
      .register ⟨⟨⟨1, 2⟩, some ⟨1, 1, 5, 10⟩⟩, 1⟩ 0 1,
      .replicationFinished ⟨⟨1, 1⟩, some ⟨1, 1, 5, 0⟩⟩ ⟨.kOk, ""⟩ 1] =
      .ok ([(.registered true, []),
          (.registered false, [⟨⟨⟨⟨1, 2⟩, some ⟨1, 1, 5, 10⟩⟩, 1⟩,
            ⟨.kExpired, "Request id is below than min running"⟩, 1⟩]),
          (.done, [])],
        { clients := [(⟨1, 1⟩, { replicated := [⟨5, 5, ⟨1, 1⟩, 1, 1⟩], minRunningRequestId := 10 })] }) :=
  rfl

end FrescoDB.Consensus.RetryableRequests
