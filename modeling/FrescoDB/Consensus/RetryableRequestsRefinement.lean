import Mathlib
import FrescoDB.Consensus.RetryableRequestsRanges
import FrescoDB.Consensus.RetryableRequestsSpec
import FrescoDB.Lib.AssocList

/-! `RetryableRequests` refines its abstract requests (`Spec`): along every run under the protocol
of its callers, the ranges of each client hold exactly the ids the abstract client retains, each
range bounding the op ids and times of the replications of the ids it holds, and every call
answers and notifies as the abstract call does. No `LOG(DFATAL)` check fails on the way. -/
namespace FrescoDB.Consensus.RetryableRequests

open FrescoDB.Lib IntervalList
open ReplicatedRetryableRequestRange (firstId lastId)

/-! ## The map of clients -/

namespace Impl

@[simp] theorem client_setClient_self (s : Impl) (id : ClientId) (c : ClientRetryableRequests) :
    (s.setClient id c).client id = c := by
  unfold setClient client
  split
  · rename_i h
    obtain ⟨v, hv⟩ := Option.isSome_iff_exists.mp h
    simp [lookup_map_replace, hv]
  · rename_i h
    simp only [Bool.not_eq_true, Option.isSome_eq_false_iff, Option.isNone_iff_eq_none] at h
    simp [List.lookup_append, h]

theorem client_setClient_ne (s : Impl) {id id' : ClientId} (c : ClientRetryableRequests)
    (h : id' ≠ id) : (s.setClient id c).client id' = s.client id' := by
  unfold setClient client
  split
  · rw [lookup_map_replace, if_neg h]
  · rw [List.lookup_append, lookup_cons_of_ne h, List.lookup_nil, Option.or_none]

theorem keys_nodup_setClient {s : Impl} (h : (s.clients.map Prod.fst).Nodup) (id : ClientId)
    (c : ClientRetryableRequests) : ((s.setClient id c).clients.map Prod.fst).Nodup := by
  unfold setClient
  split
  · rwa [map_fst_map_replace]
  · rename_i hnone
    rw [List.map_append, List.nodup_append]
    refine ⟨h, List.nodup_singleton _, ?_⟩
    rintro _ hk _ hid rfl
    rw [List.mem_singleton.mp hid] at hk
    obtain ⟨⟨k, v⟩, hkv, rfl⟩ := List.mem_map.mp hk
    have := List.lookup_isSome_iff.mpr ⟨(k, v), hkv, beq_self_eq_true k⟩
    exact hnone this

end Impl

/-! ## The invariant and the refinement relation -/

/-- What a client keeps along a run, `used` being the op ids of the rounds so far: well-formed
ranges whose `min_op_id`s are op ids of earlier rounds, one running request per id and per op id,
none of them replicated or with the `min_op_id` of a range. -/
structure ClientInv (used : List OpId) (c : ClientRetryableRequests) : Prop where
  wellFormed : WellFormed c.replicated
  minOpId_used : ∀ b ∈ c.replicated, b.minOpId ∈ used
  requestId_nodup : (c.running.map (·.requestId)).Nodup
  opId_nodup : (c.running.map (·.opId)).Nodup
  opId_used : ∀ e ∈ c.running, e.opId ∈ used
  running_not_replicated : ∀ e ∈ c.running, e.requestId ∉ Covers firstId lastId c.replicated
  running_opId_ne : ∀ e ∈ c.running, ∀ b ∈ c.replicated, e.opId ≠ b.minOpId

structure Inv (used : List OpId) (s : Impl) : Prop where
  keys_nodup : (s.clients.map Prod.fst).Nodup
  client : ∀ id, ClientInv used (s.client id)

/-- The client `c` stands for the abstract `a`: the same running requests and bound, the ranges
holding exactly the retained ids and bounding the replication of each. -/
structure RefinesClient (c : ClientRetryableRequests) (a : Spec.ClientState) : Prop where
  running : c.running = a.running
  minRunningRequestId : c.minRunningRequestId = a.minRunningRequestId
  mem_covers : ∀ x, x ∈ Covers firstId lastId c.replicated ↔ (a.replicated x).isSome
  bounds : ∀ b ∈ c.replicated, ∀ x, b.firstId ≤ x → x ≤ b.lastId →
    ∃ o t, a.replicated x = some (o, t) ∧ b.Bounds o t

def Refines (s : Impl) (σ : Spec.State) : Prop := ∀ id, RefinesClient (s.client id) (σ.clients id)

section Frame

variable {used : List OpId} {s : Impl} {σ : Spec.State}

theorem ClientInv.mono {used' : List OpId} {c : ClientRetryableRequests} (h : ClientInv used c)
    (hsub : used ⊆ used') : ClientInv used' c :=
  ⟨h.wellFormed, fun b hb => hsub (h.minOpId_used b hb), h.requestId_nodup, h.opId_nodup,
    fun e he => hsub (h.opId_used e he), h.running_not_replicated, h.running_opId_ne⟩

theorem clientInv_empty (used : List OpId) : ClientInv used {} :=
  ⟨⟨Separated.nil, List.nodup_nil⟩, by simp, List.nodup_nil, List.nodup_nil, by simp, by simp,
    by simp⟩

theorem refinesClient_empty : RefinesClient {} {} :=
  ⟨rfl, rfl, fun x => by simp, by simp⟩

theorem Inv.init : Inv [] ({} : Impl) :=
  ⟨List.nodup_nil, fun _ => clientInv_empty []⟩

theorem refines_init : Refines ({} : Impl) {} := fun _ => refinesClient_empty

theorem Inv.mono {used' : List OpId} (h : Inv used s) (hsub : used ⊆ used') : Inv used' s :=
  ⟨h.keys_nodup, fun id => (h.client id).mono hsub⟩

theorem Inv.setClient (h : Inv used s) {id : ClientId} {c : ClientRetryableRequests}
    (hc : ClientInv used c) : Inv used (s.setClient id c) := by
  refine ⟨Impl.keys_nodup_setClient h.keys_nodup id c, fun id' => ?_⟩
  by_cases hid : id' = id
  · subst hid
    simpa using hc
  · rw [Impl.client_setClient_ne s c hid]
    exact h.client id'

theorem Refines.setClient (h : Refines s σ) {id : ClientId} {c : ClientRetryableRequests}
    {a : Spec.ClientState} (hc : RefinesClient c a) : Refines (s.setClient id c) (σ.setClient id a) := by
  intro id'
  by_cases hid : id' = id
  · subst hid
    simpa using hc
  · rw [Impl.client_setClient_ne s c hid, Spec.State.setClient_ne σ a hid]
    exact h id'

end Frame

/-! ## Cleanup and addition keep the invariant and the refinement -/

section Client

variable {used : List OpId} {c : ClientRetryableRequests} {a : Spec.ClientState}

theorem ClientInv.cleanup (h : ClientInv used c) (m : RetryableRequestId) :
    ClientInv used (c.cleanupReplicatedRequests m) := by
  by_cases hlt : c.minRunningRequestId < m
  · have ht := ClientRetryableRequests.cleanupReplicatedRequests_trimmed h.wellFormed hlt
    have hop : ∀ b ∈ (c.cleanupReplicatedRequests m).replicated,
        ∃ b₀ ∈ c.replicated, b.minOpId = b₀.minOpId := by
      intro b hb
      obtain ⟨b₀, hb₀, heq⟩ := List.mem_map.mp (ht.minOpId_sublist.subset (List.mem_map_of_mem hb))
      exact ⟨b₀, hb₀, heq.symm⟩
    refine ⟨ht.wellFormed, fun b hb => ?_, by simpa using h.requestId_nodup,
      by simpa using h.opId_nodup, by simpa using h.opId_used, fun e he hcov => ?_,
      fun e he b hb => ?_⟩
    · obtain ⟨b₀, hb₀, heq⟩ := hop b hb
      exact heq ▸ h.minOpId_used b₀ hb₀
    · rw [ClientRetryableRequests.cleanupReplicatedRequests_running] at he
      exact h.running_not_replicated e he ((ht.mem_covers _).mp hcov).1
    · rw [ClientRetryableRequests.cleanupReplicatedRequests_running] at he
      obtain ⟨b₀, hb₀, heq⟩ := hop b hb
      exact heq ▸ h.running_opId_ne e he b₀ hb₀
  · rwa [ClientRetryableRequests.cleanupReplicatedRequests_of_not_lt hlt]

theorem RefinesClient.cleanup (h : RefinesClient c a) (hwf : WellFormed c.replicated)
    (m : RetryableRequestId) :
    RefinesClient (c.cleanupReplicatedRequests m) (a.cleanup m) := by
  by_cases hlt : c.minRunningRequestId < m
  · have ht := ClientRetryableRequests.cleanupReplicatedRequests_trimmed hwf hlt
    have hlt' : a.minRunningRequestId < m := h.minRunningRequestId ▸ hlt
    simp only [Spec.ClientState.cleanup, if_pos hlt']
    refine ⟨by simpa using h.running, by simp [max_eq_right hlt.le], fun x => ?_, ?_⟩
    · rw [ht.mem_covers, h.mem_covers]
      by_cases hx : x < m
      · simp [hx]
      · simp [hx, not_lt.mp hx]
    · intro b hb x hlo hhi
      obtain ⟨b₀, hb₀, hlo₀, hhi₀, hwide⟩ := ht.within b hb x hlo hhi (Set.notMem_empty x)
      obtain ⟨o, t, hx, hbounds⟩ := h.bounds b₀ hb₀ x hlo₀ hhi₀
      have hmx : m ≤ x := ((ht.mem_covers x).mp ⟨b, hb, hlo, hhi⟩).2
      exact ⟨o, t, by simp [not_lt.mpr hmx, hx], hwide.bounds hbounds⟩
  · have hle : ¬ a.minRunningRequestId < m := h.minRunningRequestId ▸ hlt
    rw [ClientRetryableRequests.cleanupReplicatedRequests_of_not_lt hlt]
    simpa [Spec.ClientState.cleanup, hle] using h

/-- The addition of `r`, replicated with `op` at `t`, with the running requests left being some of
the earlier ones, none of them `r` or with the op id `op`. -/
theorem ClientInv.add (h : ClientInv used c) {rs' : List Range} {r : RetryableRequestId} {op : OpId}
    {t : RestartSafeCoarseTimePoint} (hadd : Added c.replicated rs' r op t) (hop : op ∈ used)
    {running' : List RunningRetryableRequest} (hsub : running'.Sublist c.running)
    (hr : ∀ e ∈ running', e.requestId ≠ r) (hop' : ∀ e ∈ running', e.opId ≠ op) :
    ClientInv used { c with running := running', replicated := rs' } := by
  refine ⟨hadd.wellFormed, fun b hb => ?_, h.requestId_nodup.sublist (hsub.map _),
    h.opId_nodup.sublist (hsub.map _), fun e he => h.opId_used e (hsub.subset he),
    fun e he hcov => ?_, fun e he b hb => ?_⟩
  · rcases hadd.minOpId_mem b hb with heq | hmem
    · exact heq ▸ hop
    · obtain ⟨b₀, hb₀, heq⟩ := List.mem_map.mp hmem
      exact heq ▸ h.minOpId_used b₀ hb₀
  · rcases (hadd.mem_covers _).mp hcov with hcov | heq
    · exact h.running_not_replicated e (hsub.subset he) hcov
    · exact hr e he heq
  · rcases hadd.minOpId_mem b hb with heq | hmem
    · exact heq ▸ hop' e he
    · obtain ⟨b₀, hb₀, heq⟩ := List.mem_map.mp hmem
      exact heq ▸ h.running_opId_ne e (hsub.subset he) b₀ hb₀

theorem RefinesClient.add (h : RefinesClient c a) {rs' : List Range} {r : RetryableRequestId}
    {op : OpId} {t : RestartSafeCoarseTimePoint} (hadd : Added c.replicated rs' r op t)
    {running' running'' : List RunningRetryableRequest} (hrun : running' = running'') :
    RefinesClient { c with running := running', replicated := rs' }
      { a with
        running := running''
        replicated := Function.update a.replicated r (some (op, t)) } := by
  refine ⟨hrun, h.minRunningRequestId, fun x => ?_, fun b hb x hlo hhi => ?_⟩
  · rw [hadd.mem_covers, h.mem_covers]
    by_cases hx : x = r
    · simp [hx]
    · simp [hx]
  · by_cases hx : x = r
    · subst hx
      exact ⟨op, t, by simp, hadd.bounds_new b hb hlo hhi⟩
    · obtain ⟨b₀, hb₀, hlo₀, hhi₀, hwide⟩ := hadd.within b hb x hlo hhi hx
      obtain ⟨o, t', hx', hbounds⟩ := h.bounds b₀ hb₀ x hlo₀ hhi₀
      exact ⟨o, t', by simp [hx, hx'], hwide.bounds hbounds⟩

theorem ClientInv.filterRunning (h : ClientInv used c) (p : RunningRetryableRequest → Bool) :
    ClientInv used { c with running := c.running.filter p } :=
  ⟨h.wellFormed, h.minOpId_used, h.requestId_nodup.sublist ((List.filter_sublist).map _),
    h.opId_nodup.sublist ((List.filter_sublist).map _),
    fun e he => h.opId_used e (List.mem_of_mem_filter he),
    fun e he => h.running_not_replicated e (List.mem_of_mem_filter he),
    fun e he => h.running_opId_ne e (List.mem_of_mem_filter he)⟩

end Client

/-! ## `Register` -/

theorem ClientRetryableRequests.emplaceRunning_of_fresh {c : ClientRetryableRequests}
    {r : RetryableRequestId} {op : OpId} {t : RestartSafeCoarseTimePoint}
    (hop : ∀ e ∈ c.running, e.opId ≠ op) :
    c.emplaceRunning r op t =
      match c.running.findIdx? (·.requestId = r) with
      | some i => .error i
      | none => .ok (c.running ++ [⟨r, op, t, []⟩]) := by
  unfold ClientRetryableRequests.emplaceRunning
  cases c.running.findIdx? (·.requestId = r) with
  | some i => rfl
  | none =>
    dsimp only
    rw [List.findIdx?_eq_none_iff.mpr (by simpa using hop)]

section Register

variable {used : List OpId} {s : Impl} {σ : Spec.State}

/-- A round with a fresh op id is answered and notified by `Register` as by the abstract
`Register`, and the states stay related. -/
theorem register_refines (hinv : Inv used s) (href : Refines s σ) {round : ConsensusRound}
    (hfresh : round.replicateMsg.id ∉ used) (entryTime now : RestartSafeCoarseTimePoint) :
    (s.register round entryTime now).1 = (σ.register round entryTime now).1 ∧
      (s.register round entryTime now).2.1 = (σ.register round entryTime now).2.1 ∧
      Refines (s.register round entryTime now).2.2 (σ.register round entryTime now).2.2 ∧
      Inv (used ++ [round.replicateMsg.id]) (s.register round entryTime now).2.2 := by
  have hsub : used ⊆ used ++ [round.replicateMsg.id] := List.subset_append_left _ _
  unfold Impl.register Spec.State.register
  cases hdata : ReplicateData.fromMsg round.replicateMsg with
  | none => exact ⟨rfl, rfl, href, hinv.mono hsub⟩
  | some data =>
    dsimp only
    have hic₀ := (hinv.client data.clientId).cleanup data.minRunningRequestId
    have hic := hic₀.mono hsub
    have hrc := (href data.clientId).cleanup (hinv.client data.clientId).wellFormed
      data.minRunningRequestId
    set c := (s.client data.clientId).cleanupReplicatedRequests data.minRunningRequestId
    set a := (σ.clients data.clientId).cleanup data.minRunningRequestId
    have hinv' := hinv.mono hsub
    have hheld : holds c.replicated data.requestId = (a.replicated data.requestId).isSome := by
      rw [Bool.eq_iff_iff, holds_iff hic.wellFormed.separated, hrc.mem_covers]
    have hop : ∀ e ∈ c.running, e.opId ≠ round.replicateMsg.id := fun e he heq =>
      hfresh (heq ▸ hic₀.opId_used e he)
    rw [hrc.minRunningRequestId, hheld, ClientRetryableRequests.emplaceRunning_of_fresh hop,
      hrc.running]
    by_cases hlt : data.requestId < a.minRunningRequestId
    · rw [if_pos hlt, if_pos hlt]
      exact ⟨rfl, rfl, href.setClient hrc, hinv'.setClient hic⟩
    rw [if_neg hlt, if_neg hlt]
    by_cases hrep : (a.replicated data.requestId).isSome = true
    · rw [if_pos hrep, if_pos hrep]
      exact ⟨rfl, rfl, href.setClient hrc, hinv'.setClient hic⟩
    rw [if_neg hrep, if_neg hrep]
    have hcovers : data.requestId ∉ Covers firstId lastId c.replicated := by
      rw [hrc.mem_covers]
      exact hrep
    cases hfind : a.running.findIdx? (·.requestId = data.requestId) with
    | some i =>
      obtain ⟨hi, -, -⟩ := List.findIdx?_eq_some_iff_getElem.mp hfind
      dsimp only
      refine ⟨rfl, rfl, href.setClient ⟨rfl, rfl, hrc.mem_covers, hrc.bounds⟩,
        hinv'.setClient ⟨hic.wellFormed, hic.minOpId_used, ?_, ?_, ?_, ?_, ?_⟩⟩
      · simpa [map_modify_of_eq, ← hrc.running] using hic.requestId_nodup
      · simpa [map_modify_of_eq, ← hrc.running] using hic.opId_nodup
      all_goals
        intro e he
        have he' : e.requestId = (a.running[i]).requestId ∧ e.opId = (a.running[i]).opId ∨
            e ∈ c.running := by
          rcases mem_modify he with he | ⟨hi', rfl⟩
          · exact .inr (hrc.running ▸ he)
          · exact .inl ⟨rfl, rfl⟩
      all_goals
        have hmem : a.running[i] ∈ c.running := by
          rw [hrc.running]
          exact List.getElem_mem hi
      · rcases he' with ⟨-, hop'⟩ | he'
        · rw [hop']
          exact hic.opId_used _ hmem
        · exact hic.opId_used e he'
      · rcases he' with ⟨hreq, -⟩ | he'
        · rw [hreq]
          exact hic.running_not_replicated _ hmem
        · exact hic.running_not_replicated e he'
      · rcases he' with ⟨-, hop'⟩ | he'
        · rw [hop']
          exact hic.running_opId_ne _ hmem
        · exact hic.running_opId_ne e he'
    | none =>
      have hreq : ∀ e ∈ a.running, e.requestId ≠ data.requestId := by
        simpa using List.findIdx?_eq_none_iff.mp hfind
      dsimp only
      refine ⟨rfl, rfl, href.setClient ⟨rfl, rfl, hrc.mem_covers, hrc.bounds⟩,
        hinv'.setClient ⟨hic.wellFormed, hic.minOpId_used, ?_, ?_, ?_, ?_, ?_⟩⟩
      · rw [List.map_append, List.nodup_append]
        refine ⟨hrc.running ▸ hic.requestId_nodup, List.nodup_singleton _, ?_⟩
        rintro _ hx _ hy rfl
        obtain ⟨e, he, rfl⟩ := List.mem_map.mp hx
        exact hreq e he (List.mem_singleton.mp hy)
      · rw [List.map_append, List.nodup_append]
        refine ⟨hrc.running ▸ hic.opId_nodup, List.nodup_singleton _, ?_⟩
        rintro _ hx _ hy rfl
        obtain ⟨e, he, rfl⟩ := List.mem_map.mp hx
        exact hop e (hrc.running ▸ he) (List.mem_singleton.mp hy)
      · intro e he
        rcases List.mem_append.mp he with he | he
        · exact hic.opId_used e (hrc.running ▸ he)
        · rw [List.mem_singleton.mp he]
          exact List.mem_append_right _ (List.mem_singleton_self _)
      · intro e he
        rcases List.mem_append.mp he with he | he
        · exact hic.running_not_replicated e (hrc.running ▸ he)
        · rw [List.mem_singleton.mp he]
          exact hcovers
      · intro e he b hb
        rcases List.mem_append.mp he with he | he
        · exact hic.running_opId_ne e (hrc.running ▸ he) b hb
        · rw [List.mem_singleton.mp he]
          intro heq
          change round.replicateMsg.id = b.minOpId at heq
          exact hfresh (heq ▸ hic₀.minOpId_used b hb)

end Register

/-! ## `ReplicationFinished` and `Bootstrap` -/

section Replicated

variable (rangeTimeLimit : Int) (ndebug : Bool) {used : List OpId} {s : Impl} {σ : Spec.State}

theorem find?_running_eq {c : ClientRetryableRequests} {used : List OpId} (hic : ClientInv used c)
    {e : RunningRetryableRequest} (he : e ∈ c.running) :
    c.running.find? (·.requestId = e.requestId) = some e := by
  have hsome : (c.running.find? (·.requestId = e.requestId)).isSome :=
    List.find?_isSome.mpr ⟨e, he, by simp⟩
  obtain ⟨e', he'⟩ := Option.isSome_iff_exists.mp hsome
  have hmem : e' ∈ c.running := List.mem_of_find?_eq_some he'
  have hreq := List.find?_some he'
  simp only [decide_eq_true_eq] at hreq
  rw [he', List.inj_on_of_nodup_map hic.requestId_nodup hmem he hreq]

theorem replicationFinished_refines (hinv : Inv used s) (href : Refines s σ) {msg : ReplicateMsg}
    (hallowed : ∀ data, ReplicateData.fromMsg msg = some data →
      ∃ e ∈ (s.client data.clientId).running, e.requestId = data.requestId ∧ e.opId = msg.id)
    (status : Status) (leaderTerm : Int) :
    ∃ ns s', s.replicationFinished rangeTimeLimit ndebug msg status leaderTerm = .ok (ns, s') ∧
      ns = (σ.replicationFinished msg status leaderTerm).1 ∧
      Refines s' (σ.replicationFinished msg status leaderTerm).2 ∧ Inv used s' := by
  unfold Impl.replicationFinished Spec.State.replicationFinished
  cases hdata : ReplicateData.fromMsg msg with
  | none => exact ⟨[], s, rfl, rfl, href, hinv⟩
  | some data =>
    obtain ⟨e, he, hreq, hop⟩ := hallowed data hdata
    have hic := hinv.client data.clientId
    have hrc := href data.clientId
    dsimp only
    rw [← hrc.running, ← hreq, find?_running_eq hic he]
    dsimp only
    by_cases hok : status.ok = true
    · -- the client with the request taken out of the running ones keeps its ranges
      have hwf : WellFormed ({ s.client data.clientId with
          running := (s.client data.clientId).running.filter (·.requestId ≠ e.requestId) } :
          ClientRetryableRequests).replicated := hic.wellFormed
      obtain ⟨rs', hadd_eq, hadd⟩ := addReplicated_spec rangeTimeLimit ndebug hwf
        (hic.running_not_replicated e he) (fun b hb => hop ▸ (hic.running_opId_ne e he b hb).symm)
      simp only [hok, ↓reduceIte]
      rw [hadd_eq]
      refine ⟨_, _, rfl, rfl, href.setClient (hrc.add hadd rfl), hinv.setClient ?_⟩
      refine hic.add hadd (hop ▸ hic.opId_used e he) List.filter_sublist
        (fun e' he' => by simpa using (List.mem_filter.mp he').2) (fun e' he' heq => ?_)
      obtain ⟨he'', hne⟩ := List.mem_filter.mp he'
      have : e' = e := List.inj_on_of_nodup_map hic.opId_nodup he'' he (heq.trans hop.symm)
      exact absurd (congrArg (·.requestId) this) (by simpa using hne)
    · simp only [hok, Bool.false_eq_true, ↓reduceIte]
      exact ⟨_, _, rfl, rfl, href.setClient ⟨rfl, hrc.minRunningRequestId, hrc.mem_covers,
        hrc.bounds⟩, hinv.setClient (hic.filterRunning _)⟩

theorem bootstrap_refines (hinv : Inv used s) (href : Refines s σ) {msg : ReplicateMsg}
    (hfresh : msg.id ∉ used)
    (hallowed : ∀ data, ReplicateData.fromMsg msg = some data →
      (∀ e ∈ (s.client data.clientId).running, e.requestId ≠ data.requestId) ∧
      holds ((s.client data.clientId).cleanupReplicatedRequests data.minRunningRequestId).replicated
        data.requestId = false)
    (entryTime : RestartSafeCoarseTimePoint) :
    ∃ s', s.bootstrap rangeTimeLimit ndebug msg entryTime = .ok s' ∧
      Refines s' (σ.bootstrap msg entryTime) ∧ Inv (used ++ [msg.id]) s' := by
  have hsub : used ⊆ used ++ [msg.id] := List.subset_append_left _ _
  unfold Impl.bootstrap Spec.State.bootstrap
  cases hdata : ReplicateData.fromMsg msg with
  | none => exact ⟨s, rfl, href, hinv.mono hsub⟩
  | some data =>
    obtain ⟨hnotrun, hnotheld⟩ := hallowed data hdata
    have hic₀ := (hinv.client data.clientId).cleanup data.minRunningRequestId
    have hrc := (href data.clientId).cleanup (hinv.client data.clientId).wellFormed
      data.minRunningRequestId
    have hany : ((s.client data.clientId).running.any fun e => decide (e.requestId = data.requestId))
        = false := by
      simpa using hnotrun
    dsimp only
    rw [← (href data.clientId).running, hany, if_neg Bool.false_ne_true, if_neg Bool.false_ne_true]
    have hop : ∀ b ∈ ((s.client data.clientId).cleanupReplicatedRequests
        data.minRunningRequestId).replicated, b.minOpId ≠ msg.id :=
      fun b hb heq => hfresh (heq ▸ hic₀.minOpId_used b hb)
    obtain ⟨rs', hadd_eq, hadd⟩ := addReplicated_spec rangeTimeLimit ndebug hic₀.wellFormed
      (fun hx => by
        rw [← holds_iff hic₀.wellFormed.separated] at hx
        exact Bool.false_ne_true (hnotheld.symm.trans hx)) hop
    rw [hadd_eq]
    refine ⟨_, rfl, (href.setClient (hrc.add hadd hrc.running)), (hinv.mono hsub).setClient ?_⟩
    refine (hic₀.mono hsub).add hadd (List.mem_append_right _ (List.mem_singleton_self _))
      (List.Sublist.refl _) (fun e he => ?_) (fun e he heq => hfresh (heq ▸ hic₀.opId_used e he))
    rw [ClientRetryableRequests.cleanupReplicatedRequests_running] at he
    exact hnotrun e he

end Replicated

/-! ## `CleanExpiredReplicatedAndGetMinOpId` -/

namespace Impl

/-- One client of the loop of `cleanClients`: the client it leaves, or `none` when it is erased. -/
def cleanClient (now cleanStart : RestartSafeCoarseTimePoint) (c : ClientRetryableRequests) :
    Option ClientRetryableRequests :=
  let c := (c.cleanExpiredReplicated cleanStart).2
  if c.replicated.isEmpty && c.running.isEmpty then
    if c.emptySince = 0 then some { c with emptySince := now }
    else if c.emptySince < cleanStart then none
    else some c
  else some c

section Loop

variable (now cleanStart : RestartSafeCoarseTimePoint)

theorem cleanClients_snd : ∀ (cs : List (ClientId × ClientRetryableRequests)) (result : OpId),
    (cleanClients now cleanStart cs result).2 =
      cs.filterMap fun e => (cleanClient now cleanStart e.2).map (e.1, ·)
  | [], _ => rfl
  | (id, c) :: cs, result => by
    have ih := fun result => cleanClients_snd cs result
    rcases hc : c.cleanExpiredReplicated cleanStart with ⟨first, c'⟩
    have hclean : cleanClient now cleanStart c =
        if c'.replicated.isEmpty && c'.running.isEmpty then
          if c'.emptySince = 0 then some { c' with emptySince := now }
          else if c'.emptySince < cleanStart then none
          else some c'
        else some c' := by
      simp only [cleanClient, hc]
    simp only [cleanClients, hc, List.filterMap_cons, hclean]
    split_ifs <;> simp [ih]

theorem cleanClients_fst : ∀ (cs : List (ClientId × ClientRetryableRequests)) (result : OpId),
    (cleanClients now cleanStart cs result).1 =
      (cs.filterMap fun e => (e.2.cleanExpiredReplicated cleanStart).1).foldl min result
  | [], _ => rfl
  | (id, c) :: cs, result => by
    have ih := fun result => cleanClients_fst cs result
    rcases hc : c.cleanExpiredReplicated cleanStart with ⟨first, c'⟩
    simp only [cleanClients, hc, List.filterMap_cons]
    cases first <;> split_ifs <;> simp [ih]

theorem cleanClient_eq_some {c c'' : ClientRetryableRequests}
    (h : cleanClient now cleanStart c = some c'') :
    ∃ t, c'' = { (c.cleanExpiredReplicated cleanStart).2 with emptySince := t } := by
  dsimp only [cleanClient] at h
  split_ifs at h
  · exact ⟨now, (Option.some.inj h).symm⟩
  · exact ⟨_, (Option.some.inj h).symm⟩
  · exact ⟨_, (Option.some.inj h).symm⟩

theorem cleanClient_eq_none {c : ClientRetryableRequests} (h : cleanClient now cleanStart c = none) :
    (c.cleanExpiredReplicated cleanStart).2.replicated = [] ∧
      (c.cleanExpiredReplicated cleanStart).2.running = [] := by
  dsimp only [cleanClient] at h
  split_ifs at h with hempty
  simpa using hempty

end Loop

end Impl

/-- The abstract client after expiry, given what the loop leaves of the client: the retained ids
that its ranges still hold, or nothing once it is erased. -/
def Spec.ClientState.expire (a : Spec.ClientState) :
    Option ClientRetryableRequests → Spec.ClientState
  | none => {}
  | some c => { a with replicated := fun x => if holds c.replicated x then a.replicated x else none }

section Expire

variable {used : List OpId} {c : ClientRetryableRequests} {a : Spec.ClientState}
  {cleanStart : RestartSafeCoarseTimePoint}

theorem ClientInv.of_sublist (h : ClientInv used c) {c' : ClientRetryableRequests}
    (hrun : c'.running = c.running) (hsub : c'.replicated.Sublist c.replicated) :
    ClientInv used c' := by
  refine ⟨h.wellFormed.sublist hsub, fun b hb => h.minOpId_used b (hsub.subset hb), ?_, ?_, ?_,
    ?_, ?_⟩
  · exact hrun ▸ h.requestId_nodup
  · exact hrun ▸ h.opId_nodup
  · exact hrun ▸ h.opId_used
  · intro e he hcov
    exact h.running_not_replicated e (hrun ▸ he) (covers_mono hsub.subset hcov)
  · intro e he b hb
    exact h.running_opId_ne e (hrun ▸ he) b (hsub.subset hb)

theorem RefinesClient.lt_of_erased (h : RefinesClient c a) {x : RetryableRequestId} {o : OpId}
    {t : RestartSafeCoarseTimePoint} (hx : a.replicated x = some (o, t)) {rs' : List Range}
    (hkept : x ∉ Covers firstId lastId rs')
    (hexp : ∀ b ∈ c.replicated, b ∉ rs' → b.maxTime < cleanStart) : t < cleanStart := by
  obtain ⟨b, hb, hlo, hhi⟩ := (h.mem_covers x).mpr (by simp [hx])
  have hb' : b ∉ rs' := fun hb' => hkept ⟨b, hb', hlo, hhi⟩
  obtain ⟨o', t', hx', -, -, ht⟩ := h.bounds b hb x hlo hhi
  rw [hx] at hx'
  obtain ⟨-, rfl⟩ := Prod.mk.inj (Option.some.inj hx')
  exact lt_of_le_of_lt ht (hexp b hb hb')

theorem RefinesClient.expires_empty (h : RefinesClient c a) (hrun : c.running = [])
    (hexp : ∀ b ∈ c.replicated, b.maxTime < cleanStart) : Spec.Expires cleanStart a {} := by
  refine ⟨fun x o t hx => .inr ?_, fun x p hx => by simp at hx, .inr ⟨rfl, h.running ▸ hrun⟩⟩
  exact h.lt_of_erased hx (not_mem_covers_nil x) fun b hb _ => hexp b hb

/-- A client the loop keeps stands for the retained ids its ranges still hold, which is what
abstract expiry may leave. -/
theorem RefinesClient.expire_some (h : RefinesClient c a) (hic : ClientInv used c)
    (now : RestartSafeCoarseTimePoint) {c'' : ClientRetryableRequests}
    (hc : Impl.cleanClient now cleanStart c = some c'') :
    RefinesClient c'' (a.expire (some c'')) ∧ ClientInv used c'' ∧
      Spec.Expires cleanStart a (a.expire (some c'')) := by
  obtain ⟨t₀, rfl⟩ := Impl.cleanClient_eq_some now cleanStart hc
  have he := ClientRetryableRequests.cleanExpiredReplicated_spec hic.wellFormed cleanStart
  have hic' : ClientInv used { (c.cleanExpiredReplicated cleanStart).2 with emptySince := t₀ } :=
    hic.of_sublist he.running he.sublist
  have hheld := holds_iff hic'.wellFormed.separated
  refine ⟨⟨he.running.trans h.running, he.minRunningRequestId.trans h.minRunningRequestId,
    fun x => ?_, fun b hb x hlo hhi => ?_⟩, hic', ⟨fun x o t hx => ?_, fun x p hx => ?_,
    .inl ⟨rfl, rfl⟩⟩⟩
  · -- the ranges left hold only retained ids
    by_cases hx : x ∈ Covers firstId lastId (c.cleanExpiredReplicated cleanStart).2.replicated
    · have hsome := (h.mem_covers x).mp (covers_mono he.sublist.subset hx)
      simp [Spec.ClientState.expire, (hheld x).mpr hx, hx, hsome]
    · have hnot : holds (c.cleanExpiredReplicated cleanStart).2.replicated x = false :=
        Bool.eq_false_iff.mpr fun hx' => hx ((hheld x).mp hx')
      simp [Spec.ClientState.expire, hnot, hx]
  · obtain ⟨o, t, hx, hbounds⟩ := h.bounds b (he.sublist.subset hb) x hlo hhi
    have hx' : holds (c.cleanExpiredReplicated cleanStart).2.replicated x = true :=
      (hheld x).mpr ⟨b, hb, hlo, hhi⟩
    exact ⟨o, t, by simp [Spec.ClientState.expire, hx', hx], hbounds⟩
  · by_cases hx' : holds (c.cleanExpiredReplicated cleanStart).2.replicated x = true
    · exact .inl (by simp [Spec.ClientState.expire, hx', hx])
    · refine .inr (h.lt_of_erased hx (fun hcov => hx' ((hheld x).mpr hcov)) he.erased_expired)
  · by_cases hx' : holds (c.cleanExpiredReplicated cleanStart).2.replicated x = true
    · simpa [Spec.ClientState.expire, hx'] using hx
    · simp [Spec.ClientState.expire, hx'] at hx

end Expire

section CleanExpired

variable {used : List OpId} {s : Impl} {σ : Spec.State}

theorem Impl.client_cleanClients (hkeys : (s.clients.map Prod.fst).Nodup)
    (now cleanStart : RestartSafeCoarseTimePoint) (result : OpId) (id : ClientId) :
    (⟨(Impl.cleanClients now cleanStart s.clients result).2⟩ : Impl).client id =
      ((s.clients.lookup id).bind (Impl.cleanClient now cleanStart)).getD {} := by
  simp only [Impl.client, Impl.cleanClients_snd, lookup_filterMap_of_nodup hkeys]

theorem Inv.client_of_mem (hinv : Inv used s) {id : ClientId} {c : ClientRetryableRequests}
    (h : (id, c) ∈ s.clients) : s.client id = c := by
  simp [Impl.client, lookup_eq_of_mem_of_nodup hinv.keys_nodup h]

theorem refinesClient_cleanClient (hinv : Inv used s) (href : Refines s σ)
    (now cleanStart : RestartSafeCoarseTimePoint) (id : ClientId) :
    RefinesClient (((s.clients.lookup id).bind (Impl.cleanClient now cleanStart)).getD {})
        ((σ.clients id).expire ((s.clients.lookup id).bind (Impl.cleanClient now cleanStart))) ∧
      ClientInv used (((s.clients.lookup id).bind (Impl.cleanClient now cleanStart)).getD {}) ∧
      Spec.Expires cleanStart (σ.clients id)
        ((σ.clients id).expire ((s.clients.lookup id).bind (Impl.cleanClient now cleanStart))) := by
  have hrc := href id
  have hic := hinv.client id
  cases hl : s.clients.lookup id with
  | none =>
    -- a client not in the map reads as the default one
    have hdef : s.client id = {} := by simp [Impl.client, hl]
    rw [hdef] at hrc
    exact ⟨refinesClient_empty, clientInv_empty used, hrc.expires_empty rfl (by simp)⟩
  | some c =>
    have hc : s.client id = c := by simp [Impl.client, hl]
    rw [hc] at hrc hic
    rw [Option.bind_some]
    cases hcl : Impl.cleanClient now cleanStart c with
    | none =>
      obtain ⟨hrep, hrun⟩ := Impl.cleanClient_eq_none now cleanStart hcl
      have he := ClientRetryableRequests.cleanExpiredReplicated_spec hic.wellFormed cleanStart
      refine ⟨refinesClient_empty, clientInv_empty used,
        hrc.expires_empty (he.running ▸ hrun) fun b hb => he.erased_expired b hb ?_⟩
      rw [hrep]
      exact List.not_mem_nil
    | some c'' => exact hrc.expire_some hic now hcl

theorem cleanExpired_refines (hinv : Inv used s) (href : Refines s σ)
    (requestTimeout now : RestartSafeCoarseTimePoint) :
    ∃ σ' : Spec.State, (∀ id, Spec.Expires (now - requestTimeout) (σ.clients id) (σ'.clients id)) ∧
      Refines (s.cleanExpiredReplicatedAndGetMinOpId requestTimeout now).2 σ' ∧
      Inv used (s.cleanExpiredReplicatedAndGetMinOpId requestTimeout now).2 := by
  have hclient :=
    Impl.client_cleanClients hinv.keys_nodup now (now - requestTimeout) Impl.maxOpId
  have hspec := refinesClient_cleanClient hinv href now (now - requestTimeout)
  refine ⟨⟨fun id => (σ.clients id).expire
      ((s.clients.lookup id).bind (Impl.cleanClient now (now - requestTimeout)))⟩,
    fun id => (hspec id).2.2, fun id => ?_, ⟨?_, fun id => ?_⟩⟩
  · rw [show (s.cleanExpiredReplicatedAndGetMinOpId requestTimeout now).2 =
      ⟨(Impl.cleanClients now (now - requestTimeout) s.clients Impl.maxOpId).2⟩ from rfl, hclient]
    exact (hspec id).1
  · rw [show (s.cleanExpiredReplicatedAndGetMinOpId requestTimeout now).2.clients =
      (Impl.cleanClients now (now - requestTimeout) s.clients Impl.maxOpId).2 from rfl,
      Impl.cleanClients_snd]
    exact hinv.keys_nodup.sublist (map_fst_filterMap_sublist _)
  · rw [show (s.cleanExpiredReplicatedAndGetMinOpId requestTimeout now).2 =
      ⟨(Impl.cleanClients now (now - requestTimeout) s.clients Impl.maxOpId).2⟩ from rfl, hclient]
    exact (hspec id).2.1

/-- `CleanExpiredReplicatedAndGetMinOpId` returns the least of `OpId::Max` and of the `min_op_id`s
of the ranges it leaves. -/
theorem cleanExpiredReplicatedAndGetMinOpId_min (hinv : Inv used s)
    (requestTimeout now : RestartSafeCoarseTimePoint) {result : OpId} {s' : Impl}
    (h : s.cleanExpiredReplicatedAndGetMinOpId requestTimeout now = (result, s')) :
    result ≤ Impl.maxOpId ∧ (∀ id, ∀ b ∈ (s'.client id).replicated, result ≤ b.minOpId) ∧
      (result = Impl.maxOpId ∨ ∃ id, ∃ b ∈ (s'.client id).replicated, b.minOpId = result) := by
  set cleanStart := now - requestTimeout
  have hres : result = (Impl.cleanClients now cleanStart s.clients Impl.maxOpId).1 :=
    (congrArg Prod.fst h).symm
  have hs' : s' = ⟨(Impl.cleanClients now cleanStart s.clients Impl.maxOpId).2⟩ :=
    (congrArg Prod.snd h).symm
  have hclient := Impl.client_cleanClients hinv.keys_nodup now cleanStart Impl.maxOpId
  have hmin : (Impl.maxOpId :: s.clients.filterMap fun e =>
      (e.2.cleanExpiredReplicated cleanStart).1).min? = some result := by
    rw [List.min?_cons', hres, Impl.cleanClients_fst]
  obtain ⟨hmem, hle⟩ := List.min?_eq_some_iff.mp hmin
  -- every range left lies in a client whose expiry returned an op id at most its `min_op_id`
  have hfirst : ∀ id, ∀ b ∈ (s'.client id).replicated, ∃ o, o ∈ s.clients.filterMap (fun e =>
      (e.2.cleanExpiredReplicated cleanStart).1) ∧ o ≤ b.minOpId := by
    intro id b hb
    rw [hs', hclient] at hb
    cases hl : s.clients.lookup id with
    | none => simp [hl] at hb
    | some c =>
      have hmemc := mem_of_lookup_eq_some hl
      cases hcl : Impl.cleanClient now cleanStart c with
      | none => simp [hl, hcl] at hb
      | some c'' =>
        obtain ⟨t, rfl⟩ := Impl.cleanClient_eq_some now cleanStart hcl
        simp only [hl, hcl, Option.bind_some, Option.getD_some] at hb
        have he := ClientRetryableRequests.cleanExpiredReplicated_spec
          (hinv.client_of_mem hmemc ▸ hinv.client id).wellFormed cleanStart
        cases hf : (c.cleanExpiredReplicated cleanStart).1 with
        | none => simp [he.none_empty hf] at hb
        | some o => exact ⟨o, List.mem_filterMap.mpr ⟨(id, c), hmemc, hf⟩, he.first_le o hf b hb⟩
  refine ⟨hle _ (List.mem_cons_self ..), fun id b hb => ?_, ?_⟩
  · obtain ⟨o, ho, hob⟩ := hfirst id b hb
    exact (hle o (List.mem_cons_of_mem _ ho)).trans hob
  · rcases List.mem_cons.mp hmem with heq | hmem
    · exact .inl heq
    · -- the op id returned by the expiry of a client, which its ranges left hold
      obtain ⟨⟨id, c⟩, hmemc, hf⟩ := List.mem_filterMap.mp hmem
      have he := ClientRetryableRequests.cleanExpiredReplicated_spec
        (hinv.client_of_mem hmemc ▸ hinv.client id).wellFormed cleanStart
      obtain ⟨b, hb, hbo⟩ := List.mem_map.mp (he.first_mem result hf)
      have hcl : ∃ c'', Impl.cleanClient now cleanStart c = some c'' := by
        cases hcl : Impl.cleanClient now cleanStart c with
        | none => simp [(Impl.cleanClient_eq_none now cleanStart hcl).1] at hb
        | some c'' => exact ⟨c'', rfl⟩
      obtain ⟨c'', hcl⟩ := hcl
      obtain ⟨t, rfl⟩ := Impl.cleanClient_eq_some now cleanStart hcl
      refine .inr ⟨id, b, ?_, hbo⟩
      rw [hs', hclient, lookup_eq_of_mem_of_nodup hinv.keys_nodup hmemc]
      simpa [hcl] using hb

end CleanExpired

end FrescoDB.Consensus.RetryableRequests
