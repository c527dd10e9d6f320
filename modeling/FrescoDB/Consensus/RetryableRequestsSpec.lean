import Mathlib
import FrescoDB.Consensus.RetryableRequests
import FrescoDB.Lib.ListModify

/-! What `RetryableRequests` is for, with the replicated ids of a client one by one instead of in
ranges: for each retained replicated id, the op id and the time of its replication. A round is
accepted only if its id is at or above the client's `min_running_request_id`, not retained and not
running; a refused round is notified at once, or waits on the running request it duplicates and
is notified when that request finishes. Expiry forgets only ids replicated before the start of the
retention window, and a client only when nothing of it is left. -/
namespace FrescoDB.Consensus.RetryableRequests

namespace Spec

structure ClientState where
  running : List RunningRetryableRequest := []
  replicated : RetryableRequestId → Option (OpId × RestartSafeCoarseTimePoint) := fun _ => none
  minRunningRequestId : RetryableRequestId := 0

namespace ClientState

/-- A higher `min_running_request_id` forgets the ids below it. -/
def cleanup (m : RetryableRequestId) (a : ClientState) : ClientState :=
  if a.minRunningRequestId < m then
    { a with
      replicated := fun x => if x < m then none else a.replicated x
      minRunningRequestId := m }
  else a

/-- The rounds waiting on the running requests. -/
def pendingRounds (a : ClientState) : List ConsensusRound :=
  a.running.flatMap (·.duplicateRounds)

-- Equation lemmas, made once before their uses.
section
attribute [local simp] pendingRounds
end

@[simp] theorem cleanup_running (m : RetryableRequestId) (a : ClientState) :
    (a.cleanup m).running = a.running := by
  unfold cleanup
  split <;> rfl

@[simp] theorem cleanup_pendingRounds (m : RetryableRequestId) (a : ClientState) :
    (a.cleanup m).pendingRounds = a.pendingRounds := by
  simp [pendingRounds]

end ClientState

structure State where
  clients : ClientId → ClientState := fun _ => {}

namespace State

def setClient (σ : State) (id : ClientId) (a : ClientState) : State :=
  ⟨Function.update σ.clients id a⟩

@[simp] theorem setClient_self (σ : State) (id : ClientId) (a : ClientState) :
    (σ.setClient id a).clients id = a := by
  simp [setClient]

@[simp] theorem setClient_ne (σ : State) {id id' : ClientId} (a : ClientState) (h : id' ≠ id) :
    (σ.setClient id a).clients id' = σ.clients id' := by
  simp [setClient, h]

/-- `Register`. -/
def register (σ : State) (round : ConsensusRound) (entryTime now : RestartSafeCoarseTimePoint) :
    Bool × List Notification × State :=
  match ReplicateData.fromMsg round.replicateMsg with
  | none => (true, [], σ)
  | some data =>
    let entryTime := if entryTime = 0 then now else entryTime
    let a := (σ.clients data.clientId).cleanup data.minRunningRequestId
    if data.requestId < a.minRunningRequestId then
      (false, [⟨round, ⟨.kExpired, "Request id is below than min running"⟩, round.boundTerm⟩],
        σ.setClient data.clientId a)
    else if (a.replicated data.requestId).isSome then
      (false, [⟨round, ⟨.kAlreadyPresent, "Duplicate request"⟩, round.boundTerm⟩],
        σ.setClient data.clientId a)
    else
      match a.running.findIdx? (·.requestId = data.requestId) with
      | some i =>
        (false, [], σ.setClient data.clientId
          { a with
            running := a.running.modify i
              (fun e => { e with duplicateRounds := e.duplicateRounds ++ [round] }) })
      | none =>
        (true, [], σ.setClient data.clientId
          { a with running := a.running ++ [⟨data.requestId, round.replicateMsg.id, entryTime, []⟩] })

/-- `ReplicationFinished`: a replicated request is retained with the op id of its message and the
time it was registered at. -/
def replicationFinished (σ : State) (msg : ReplicateMsg) (status : Status) (leaderTerm : Int) :
    List Notification × State :=
  match ReplicateData.fromMsg msg with
  | none => ([], σ)
  | some data =>
    let a := σ.clients data.clientId
    match a.running.find? (·.requestId = data.requestId) with
    | none => ([], σ)
    | some e =>
      let statusForDuplicate : Status :=
        if status.ok then ⟨.kAlreadyPresent, "Duplicate request"⟩ else status
      let a := { a with running := a.running.filter (·.requestId ≠ data.requestId) }
      (e.duplicateRounds.map fun d => ⟨d, statusForDuplicate, leaderTerm⟩,
        σ.setClient data.clientId
          (if status.ok then
            { a with replicated := Function.update a.replicated data.requestId (some (msg.id, e.time)) }
          else a))

/-- `Bootstrap` of a request that is not running. -/
def bootstrap (σ : State) (msg : ReplicateMsg) (entryTime : RestartSafeCoarseTimePoint) : State :=
  match ReplicateData.fromMsg msg with
  | none => σ
  | some data =>
    let a := σ.clients data.clientId
    if a.running.any (·.requestId = data.requestId) then σ
    else
      let a := a.cleanup data.minRunningRequestId
      σ.setClient data.clientId
        { a with replicated := Function.update a.replicated data.requestId (some (msg.id, entryTime)) }

end State

/-- What expiry may do to a client: forget retained ids replicated before `cleanStart`, or forget
the whole client once it has no running request and nothing retained is left. -/
def Expires (cleanStart : RestartSafeCoarseTimePoint) (a a' : ClientState) : Prop :=
  (∀ x o t, a.replicated x = some (o, t) → a'.replicated x = some (o, t) ∨ t < cleanStart) ∧
  (∀ x p, a'.replicated x = some p → a.replicated x = some p) ∧
  ((a'.running = a.running ∧ a'.minRunningRequestId = a.minRunningRequestId) ∨
    (a' = {} ∧ a.running = []))

/-- One call of the abstract requests: `CleanExpiredReplicatedAndGetMinOpId` returns an op id at
most that of every id it retains, from which the log may be cleaned. -/
inductive Step (requestTimeout : Int) : State → Event → Reply → List Notification → State → Prop
  | register (σ : State) (round : ConsensusRound) (entryTime now : RestartSafeCoarseTimePoint) :
    Step requestTimeout σ (.register round entryTime now)
      (.registered (σ.register round entryTime now).1) (σ.register round entryTime now).2.1
      (σ.register round entryTime now).2.2
  | replicationFinished (σ : State) (msg : ReplicateMsg) (status : Status) (leaderTerm : Int) :
    Step requestTimeout σ (.replicationFinished msg status leaderTerm) .done
      (σ.replicationFinished msg status leaderTerm).1 (σ.replicationFinished msg status leaderTerm).2
  | bootstrap (σ : State) (msg : ReplicateMsg) (entryTime : RestartSafeCoarseTimePoint) :
    Step requestTimeout σ (.bootstrap msg entryTime) .done [] (σ.bootstrap msg entryTime)
  | cleanExpired {σ σ' : State} {now : RestartSafeCoarseTimePoint} {result : OpId}
      (hexpires : ∀ id, Expires (now - requestTimeout) (σ.clients id) (σ'.clients id))
      (hmax : result ≤ Impl.maxOpId)
      (hle : ∀ id x o t, (σ'.clients id).replicated x = some (o, t) → result ≤ o) :
    Step requestTimeout σ (.cleanExpiredReplicatedAndGetMinOpId now) (.minOpId result) [] σ'

end Spec

/-- One call in a trace: the call, its reply and the rounds it notifies. -/
structure Call where
  event : Event
  reply : Reply
  notifications : List Notification
  deriving DecidableEq, Repr

/-- The client of a round's write request. -/
def clientOf (round : ConsensusRound) : Option ClientId :=
  (ReplicateData.fromMsg round.replicateMsg).map (·.clientId)

/-- The round of a call that `Register` refused, if it is of the client. -/
def Call.refused (id : ClientId) (c : Call) : List ConsensusRound :=
  match c.event, c.reply with
  | .register round _ _, .registered false => if clientOf round = some id then [round] else []
  | _, _ => []

/-- The rounds of the client that a call notifies. -/
def Call.notified (id : ClientId) (c : Call) : List ConsensusRound :=
  (c.notifications.map (·.round)).filter fun d => clientOf d = some id

-- Equation lemmas, made once before their uses.
section
attribute [local simp] Call.notified
end

/-- The rounds of the client that `Register` refused along a trace. -/
def refusedRounds (id : ClientId) (trace : List Call) : List ConsensusRound :=
  trace.flatMap (·.refused id)

/-- The rounds of the client notified along a trace. -/
def notifiedRounds (id : ClientId) (trace : List Call) : List ConsensusRound :=
  trace.flatMap (·.notified id)

namespace Spec

/-- The runs of the abstract requests from no clients, with their trace. -/
inductive Run (requestTimeout : Int) : State → List Call → Prop
  | init : Run requestTimeout {} []
  | step {σ σ' : State} {trace : List Call} {e : Event} {r : Reply} {ns : List Notification} :
    Run requestTimeout σ trace → Step requestTimeout σ e r ns σ' →
    Run requestTimeout σ' (trace ++ [⟨e, r, ns⟩])

/-- One running request per id, and each waiting round a duplicate of the request it waits on:
of the same client and request id. -/
structure ClientInv (id : ClientId) (a : ClientState) : Prop where
  requestId_nodup : (a.running.map (·.requestId)).Nodup
  duplicate_of : ∀ e ∈ a.running, ∀ d ∈ e.duplicateRounds,
    ∃ data, ReplicateData.fromMsg d.replicateMsg = some data ∧ data.clientId = id ∧
      data.requestId = e.requestId

def Inv (σ : State) : Prop := ∀ id, ClientInv id (σ.clients id)

/-- A call's share of the accounting of refused rounds: what it notifies and what waits after it
are what it refuses and what waited before. -/
def Accounts (c : Call) (σ σ' : State) : Prop :=
  ∀ id, (c.notified id ++ (σ'.clients id).pendingRounds).Perm
    (c.refused id ++ (σ.clients id).pendingRounds)

/-! ## The accounting of refused rounds -/

open FrescoDB.Lib

variable {σ : State}

theorem clientOf_eq {round : ConsensusRound} {data : ReplicateData}
    (h : ReplicateData.fromMsg round.replicateMsg = some data) : clientOf round = some data.clientId := by
  simp [clientOf, h]

theorem ClientInv.of_running {id : ClientId} {a a' : ClientState} (h : ClientInv id a)
    (hrun : a'.running = a.running) : ClientInv id a' :=
  ⟨hrun ▸ h.requestId_nodup, hrun ▸ h.duplicate_of⟩

theorem Inv.init : Inv ({} : State) := fun _ => ⟨List.nodup_nil, by simp⟩

theorem Inv.setClient (hinv : Inv σ) {id : ClientId} {a : ClientState} (ha : ClientInv id a) :
    Inv (σ.setClient id a) := by
  intro id'
  by_cases h : id' = id
  · subst h
    simpa using ha
  · simpa [h] using hinv id'

theorem accounts_setClient {c : Call} {id : ClientId} {a : ClientState}
    (hother : ∀ id', id' ≠ id → c.notified id' = [] ∧ c.refused id' = [])
    (hid : (c.notified id ++ a.pendingRounds).Perm (c.refused id ++ (σ.clients id).pendingRounds)) :
    Accounts c σ (σ.setClient id a) := by
  intro id'
  by_cases h : id' = id
  · subst h
    simpa using hid
  · obtain ⟨h₁, h₂⟩ := hother id' h
    simp [h, h₁, h₂]

theorem register_spec (hinv : Inv σ) (round : ConsensusRound)
    (entryTime now : RestartSafeCoarseTimePoint) :
    Inv (σ.register round entryTime now).2.2 ∧
      Accounts ⟨.register round entryTime now, .registered (σ.register round entryTime now).1,
        (σ.register round entryTime now).2.1⟩ σ (σ.register round entryTime now).2.2 := by
  unfold State.register
  split
  · exact ⟨hinv, fun id => by simp [Call.refused, Call.notified]⟩
  · rename_i data hdata
    have hclient := clientOf_eq hdata
    have hother : ∀ (ns : List Notification) (b : Bool), (∀ n ∈ ns, n.round = round) →
        ∀ id', id' ≠ data.clientId →
          Call.notified id' ⟨.register round entryTime now, .registered b, ns⟩ = [] ∧
          Call.refused id' ⟨.register round entryTime now, .registered b, ns⟩ = [] := by
      intro ns b hns id' hid
      refine ⟨List.filter_eq_nil_iff.mpr ?_, ?_⟩
      · intro d hd
        obtain ⟨n, hn, rfl⟩ := List.mem_map.mp hd
        simp [hns n hn, hclient, Ne.symm hid]
      · cases b <;> simp [Call.refused, hclient, Ne.symm hid]
    set a := (σ.clients data.clientId).cleanup data.minRunningRequestId with ha
    have hainv : ClientInv data.clientId a := (hinv _).of_running (by simp [ha])
    dsimp only
    split
    · refine ⟨hinv.setClient hainv, accounts_setClient (hother _ _ (by simp)) ?_⟩
      simp [Call.refused, Call.notified, hclient, ha]
    split
    · refine ⟨hinv.setClient hainv, accounts_setClient (hother _ _ (by simp)) ?_⟩
      simp [Call.refused, Call.notified, hclient, ha]
    split
    · rename_i i hi
      obtain ⟨hlen, hreq, -⟩ := List.findIdx?_eq_some_iff_getElem.mp hi
      refine ⟨hinv.setClient ⟨?_, ?_⟩, accounts_setClient (hother _ _ (by simp)) ?_⟩
      · simpa [map_modify_of_eq] using hainv.requestId_nodup
      · intro e he d hd
        rcases mem_modify he with he | ⟨hi', he⟩
        · exact hainv.duplicate_of e he d hd
        · rw [he] at hd ⊢
          rcases List.mem_append.mp hd with hd | hd
          · exact hainv.duplicate_of _ (List.getElem_mem _) d hd
          · rw [List.mem_singleton.mp hd]
            exact ⟨data, hdata, rfl, (of_decide_eq_true hreq).symm⟩
      · have hperm := flatMap_modify_perm
          (fun e : RunningRetryableRequest => show
            ({ e with duplicateRounds := e.duplicateRounds ++ [round] } : RunningRetryableRequest).duplicateRounds
              = e.duplicateRounds ++ [round] from rfl) hlen
        simpa [Call.refused, Call.notified, hclient, ClientState.pendingRounds, ha] using
          hperm.trans List.perm_append_comm
    · rename_i hnone
      have hfresh : ∀ e ∈ a.running, e.requestId ≠ data.requestId := by
        simpa using List.findIdx?_eq_none_iff.mp hnone
      refine ⟨hinv.setClient ⟨?_, ?_⟩, accounts_setClient (hother _ _ (by simp)) ?_⟩
      · rw [List.map_append, List.nodup_append]
        refine ⟨hainv.requestId_nodup, List.nodup_singleton _, ?_⟩
        intro x hx y hy
        obtain ⟨e, he, rfl⟩ := List.mem_map.mp hx
        rw [List.mem_singleton.mp hy]
        exact hfresh e he
      · intro e he d hd
        rcases List.mem_append.mp he with he | he
        · exact hainv.duplicate_of e he d hd
        · simp [List.mem_singleton.mp he] at hd
      · simp [Call.refused, Call.notified, ClientState.pendingRounds, ha]

theorem replicationFinished_spec (hinv : Inv σ) (msg : ReplicateMsg) (status : Status)
    (leaderTerm : Int) :
    Inv (σ.replicationFinished msg status leaderTerm).2 ∧
      Accounts ⟨.replicationFinished msg status leaderTerm, .done,
        (σ.replicationFinished msg status leaderTerm).1⟩ σ
        (σ.replicationFinished msg status leaderTerm).2 := by
  unfold State.replicationFinished
  split
  · exact ⟨hinv, fun id => by simp [Call.refused, Call.notified]⟩
  rename_i data hdata
  dsimp only
  split
  · exact ⟨hinv, fun id => by simp [Call.refused, Call.notified]⟩
  rename_i e he
  have hmem : e ∈ (σ.clients data.clientId).running := List.mem_of_find?_eq_some he
  have hreq : e.requestId = data.requestId := by simpa using List.find?_some he
  have hkept : ClientInv data.clientId
      { σ.clients data.clientId with
        running := (σ.clients data.clientId).running.filter (·.requestId ≠ data.requestId) } :=
    ⟨((hinv _).requestId_nodup).sublist (List.filter_sublist.map _),
      fun e' he' => (hinv _).duplicate_of e' (List.mem_of_mem_filter he')⟩
  have hdups : ∀ d ∈ e.duplicateRounds, clientOf d = some data.clientId := by
    intro d hd
    obtain ⟨data', hdata', hclient, -⟩ := (hinv _).duplicate_of e hmem d hd
    simp [clientOf, hdata', hclient]
  dsimp only
  refine ⟨hinv.setClient (hkept.of_running (by split <;> rfl)), accounts_setClient ?_ ?_⟩
  · intro id' hid
    refine ⟨List.filter_eq_nil_iff.mpr ?_, rfl⟩
    intro d hd
    obtain ⟨n, hn, rfl⟩ := List.mem_map.mp hd
    obtain ⟨d', hd', rfl⟩ := List.mem_map.mp hn
    simp [hdups d' hd', Ne.symm hid]
  · have hnotified : List.filter (fun d => decide (clientOf d = some data.clientId))
        e.duplicateRounds = e.duplicateRounds := List.filter_eq_self.mpr (by simpa using hdups)
    have hrun : (if status.ok = true then
          { σ.clients data.clientId with
            running := (σ.clients data.clientId).running.filter (·.requestId ≠ data.requestId),
            replicated := Function.update (σ.clients data.clientId).replicated data.requestId
              (some (msg.id, e.time)) }
        else { σ.clients data.clientId with
            running := (σ.clients data.clientId).running.filter (·.requestId ≠ data.requestId) }
          ).running = (σ.clients data.clientId).running.filter (·.requestId ≠ data.requestId) := by
      split <;> rfl
    simp only [Call.notified, Call.refused, List.map_map, Function.comp_def, List.map_id',
      hnotified, ClientState.pendingRounds, hrun, List.nil_append]
    exact flatMap_filter_perm_of_nodup (hinv _).requestId_nodup hmem hreq

theorem bootstrap_spec (hinv : Inv σ) (msg : ReplicateMsg) (entryTime : RestartSafeCoarseTimePoint) :
    Inv (σ.bootstrap msg entryTime) ∧
      Accounts ⟨.bootstrap msg entryTime, .done, []⟩ σ (σ.bootstrap msg entryTime) := by
  have hquiet : ∀ σ' : State, (∀ id, (σ'.clients id).running = (σ.clients id).running) →
      Inv σ' ∧ Accounts ⟨.bootstrap msg entryTime, .done, []⟩ σ σ' := by
    intro σ' hrun
    refine ⟨fun id => (hinv id).of_running (hrun id), fun id => ?_⟩
    simp [Call.refused, Call.notified, ClientState.pendingRounds, hrun id]
  apply hquiet
  intro id
  unfold State.bootstrap
  split
  · rfl
  dsimp only
  split
  · rfl
  rename_i data _ _
  by_cases h : id = data.clientId
  · subst h
    simp
  · simp [h]

theorem cleanExpired_spec (hinv : Inv σ) {σ' : State} {cleanStart : RestartSafeCoarseTimePoint}
    (hexpires : ∀ id, Expires cleanStart (σ.clients id) (σ'.clients id)) (c : Call)
    (hc : c.notifications = []) (hrefused : ∀ id, c.refused id = []) :
    Inv σ' ∧ Accounts c σ σ' := by
  have hboth : ∀ id, ClientInv id (σ'.clients id) ∧
      (σ'.clients id).pendingRounds = (σ.clients id).pendingRounds := by
    intro id
    rcases (hexpires id).2.2 with ⟨hrun, -⟩ | ⟨hempty, hrun⟩
    · exact ⟨(hinv id).of_running hrun, by simp [ClientState.pendingRounds, hrun]⟩
    · rw [hempty]
      exact ⟨⟨List.nodup_nil, by simp⟩, by simp [ClientState.pendingRounds, hrun]⟩
  refine ⟨fun id => (hboth id).1, fun id => ?_⟩
  simp [Call.notified, hc, hrefused, (hboth id).2]

theorem Step.spec {requestTimeout : Int} {σ' : State} {e : Event} {r : Reply}
    {ns : List Notification} (h : Step requestTimeout σ e r ns σ') (hinv : Inv σ) :
    Inv σ' ∧ Accounts ⟨e, r, ns⟩ σ σ' := by
  cases h with
  | register => exact register_spec hinv ..
  | replicationFinished => exact replicationFinished_spec hinv ..
  | bootstrap => exact bootstrap_spec hinv ..
  | cleanExpired hexpires => exact cleanExpired_spec hinv hexpires _ rfl fun _ => rfl

/-- Along a run every refused round of a client is notified exactly once or still waits on the
request it duplicates: the notified and the waiting rounds are the refused ones, with their
multiplicities. The induction is on the run; each call's share is `Step.spec`. -/
theorem Run.accounts {requestTimeout : Int} {trace : List Call} (run : Run requestTimeout σ trace) :
    Inv σ ∧ ∀ id,
      (notifiedRounds id trace ++ (σ.clients id).pendingRounds).Perm (refusedRounds id trace) := by
  induction run with
  | init => exact ⟨Inv.init, fun id => by simp [notifiedRounds, refusedRounds, ClientState.pendingRounds]⟩
  | step _ hstep ih =>
    obtain ⟨hinv, hperm⟩ := ih
    obtain ⟨hinv', haccounts⟩ := hstep.spec hinv
    refine ⟨hinv', fun id => ?_⟩
    simp only [notifiedRounds, refusedRounds, List.flatMap_append, List.flatMap_singleton,
      List.append_assoc] at hperm ⊢
    refine ((haccounts id).append_left _).trans ((List.perm_append_comm.append_left _).trans ?_)
    rw [← List.append_assoc]
    exact (hperm id).append_right _

end Spec

end FrescoDB.Consensus.RetryableRequests
