import FrescoDB.Tablet.RunningTransaction

/-! The status requests of a running transaction are safe whatever the interleaving of waiters
and replies, provided each OK reply of the status tablet is true of what the transaction will
have done. At most one status RPC is in flight, and one is in flight while waiters wait; every
waiter is answered at most once, and stays queued until it is; every status a waiter gets is
true at its read time; the last known status time never goes back; and a reply answers every
waiter of its serial number or an earlier one. -/
namespace FrescoDB.Tablet

open FrescoDB.Common FrescoDB.Util

/-- What the transaction will have done at its status tablet. -/
inductive Fate
  | commits (commitTime : HybridTime)
  | aborts

/-- A status at a time that holds of the fate: pending up to a time before the commit, committed
at the commit time, or aborted. -/
def Known (fate : Fate) : TransactionStatus → HybridTime → Prop
  | .PENDING, time => ∀ c, fate = .commits c → time < c
  | .COMMITTED, time => fate = .commits time
  | .ABORTED, _ => fate = .aborts
  | _, _ => False

/-- A reply of the status tablet: an RPC error, or a status that holds of the fate at its time,
with a time unless it is `ABORTED`. -/
def TruthfulReply (fate : Fate) : Except Status GetTransactionStatusResponse → Prop
  | .error _ => True
  | .ok response =>
    Known fate response.status (response.statusHybridTime.getD HybridTime.kMax) ∧
      (response.statusHybridTime.isSome ∨ response.status = .ABORTED)

/-- What a waiter may be told: `COMMITTED` only at the commit time and within its global limit,
`ABORTED` only of an aborted transaction, and `PENDING` at a time whose minimum with the global
limit is at least the read time and before any commit. -/
def Answers (fate : Fate) (request : StatusRequest) : Except Status TransactionStatusResult → Prop
  | .error _ => True
  | .ok ⟨.COMMITTED, time⟩ => fate = .commits time ∧ time ≤ request.globalLimitHt
  | .ok ⟨.ABORTED, _⟩ => fate = .aborts
  | .ok ⟨.PENDING, time⟩ =>
    request.readHt ≤ min time request.globalLimitHt ∧
      ∀ c, fate = .commits c → min time request.globalLimitHt < c
  | .ok _ => False

namespace RunningTransaction

variable {fate : Fate}

/-! ### The cached status -/

theorem isSome_getStatusAt {status : TransactionStatus} {time : HybridTime}
    (hk : Known fate status time) (g : HybridTime) : (getStatusAt g time status).isSome := by
  cases status <;> simp_all [Known, getStatusAt]

theorem getStatusAt_eq_some_none {g time : HybridTime} {status : TransactionStatus}
    (h : getStatusAt g time status = some none) : status = .PENDING ∧ time < g := by
  cases status <;> simp only [getStatusAt, reduceCtorEq, Option.some.injEq] at h
  exact ⟨rfl, by simpa using h⟩

theorem answers_getStatusAt {status s : TransactionStatus} {time : HybridTime}
    {request : StatusRequest} (hk : Known fate status time)
    (hw : request.readHt ≤ request.globalLimitHt)
    (h : getStatusAt request.globalLimitHt time status = some (some s)) :
    Answers fate request (.ok ⟨s, time⟩) := by
  cases status with
  | ABORTED =>
    cases h
    exact hk
  | COMMITTED =>
    simp only [getStatusAt, Option.some.injEq] at h
    subst h
    by_cases hg : request.globalLimitHt < time
    · -- committed after the global limit: pending up to it
      rw [if_pos hg]
      simp only [Answers]
      rw [min_eq_right hg.le]
      exact ⟨hw, fun c hc => by cases hk.symm.trans hc; exact hg⟩
    · rw [if_neg hg]
      exact ⟨hk, not_lt.1 hg⟩
  | PENDING =>
    simp only [getStatusAt, Option.some.injEq] at h
    split at h
    · rename_i hg
      cases h
      simp only [Answers]
      rw [min_eq_right hg]
      exact ⟨hw, fun c hc => lt_of_le_of_lt hg (hk c hc)⟩
    · cases h
  | _ => exact absurd hk id

theorem answers_pending {status : TransactionStatus} {time : HybridTime}
    {request : StatusRequest} (hk : Known fate status time)
    (h : getStatusAt request.globalLimitHt time status = some none)
    (hread : request.readHt ≤ time) :
    Answers fate request (.ok ⟨.PENDING, time⟩) := by
  obtain ⟨rfl, hg⟩ := getStatusAt_eq_some_none h
  rw [Answers, min_eq_left hg.le]
  exact ⟨hread, hk⟩

theorem le_updateLastKnown (status : TransactionStatus) (time : HybridTime)
    (response : GetTransactionStatusResponse) : time ≤ (updateLastKnown status time response).2 := by
  dsimp only [updateLastKnown]
  split
  · assumption
  · exact le_rfl

/-- After a truthful reply the known status holds: the reply's, or the one before it, whose time
is then above the reply's and so above `kMin`. -/
theorem known_updateLastKnown {status : TransactionStatus} {time : HybridTime}
    {response : GetTransactionStatusResponse}
    (hc : time = HybridTime.kMin ∨ Known fate status time) (hr : TruthfulReply fate (.ok response)) :
    Known fate (updateLastKnown status time response).1 (updateLastKnown status time response).2 := by
  dsimp only [updateLastKnown]
  split
  · exact hr.1
  · rename_i hlt
    rcases hc with hmin | hk
    · subst hmin
      exact absurd (HybridTime.kMin_le _) hlt
    · exact hk

/-! ### Queueing a waiter and answering one -/

@[simp] theorem queueStatusWaiter_statusWaiters (t : RunningTransaction) (request : StatusRequest) :
    (t.queueStatusWaiter request).1.statusWaiters = t.statusWaiters ++ [request] := by
  dsimp only [queueStatusWaiter]
  split <;> rfl

theorem queueStatusWaiter_statusRpcs (t : RunningTransaction) (request : StatusRequest) :
    (t.queueStatusWaiter request).1.statusRpcs =
      if t.statusWaiters = [] then t.statusRpcs ++ [t.requestSerial + 1] else t.statusRpcs := by
  dsimp only [queueStatusWaiter]
  cases t.statusWaiters <;> rfl

@[simp] theorem queueStatusWaiter_lastKnownStatus (t : RunningTransaction)
    (request : StatusRequest) :
    (t.queueStatusWaiter request).1.lastKnownStatus = t.lastKnownStatus := by
  dsimp only [queueStatusWaiter]
  split <;> rfl

@[simp] theorem queueStatusWaiter_lastKnownStatusHybridTime (t : RunningTransaction)
    (request : StatusRequest) :
    (t.queueStatusWaiter request).1.lastKnownStatusHybridTime = t.lastKnownStatusHybridTime := by
  dsimp only [queueStatusWaiter]
  split <;> rfl

@[simp] theorem queueStatusWaiter_snd (t : RunningTransaction) (request : StatusRequest) :
    (t.queueStatusWaiter request).2 = [] := by
  dsimp only [queueStatusWaiter]
  split <;> rfl

theorem requestStatusAt_cases {t t' : RunningTransaction} {request : StatusRequest}
    {out : List Notification} (h : t.requestStatusAt request = some (t', out)) :
    (HybridTime.kMin < t.lastKnownStatusHybridTime ∧ ∃ s,
      getStatusAt request.globalLimitHt t.lastKnownStatusHybridTime t.lastKnownStatus =
        some (some s) ∧ t' = t ∧ out = [(request.callback, .ok ⟨s, t.lastKnownStatusHybridTime⟩)]) ∨
    ((t', out) = t.queueStatusWaiter request) := by
  unfold requestStatusAt at h
  split at h
  · rename_i hmin
    cases hg : getStatusAt request.globalLimitHt t.lastKnownStatusHybridTime t.lastKnownStatus with
    | none => simp [hg] at h
    | some known =>
      cases known with
      | some s =>
        simp only [hg, Option.map_some, Option.some.injEq, Prod.mk.injEq] at h
        exact .inl ⟨hmin, s, rfl, h.1.symm, h.2.symm⟩
      | none =>
        simp only [hg, Option.map_some, Option.some.injEq] at h
        exact .inr h.symm
  · exact .inr (Option.some.inj h).symm

theorem isSome_requestStatusAt {t : RunningTransaction}
    (hc : t.lastKnownStatusHybridTime = HybridTime.kMin ∨
      Known fate t.lastKnownStatus t.lastKnownStatusHybridTime) (request : StatusRequest) :
    (t.requestStatusAt request).isSome := by
  unfold requestStatusAt
  split
  · rename_i hmin
    rcases hc with hc | hk
    · rw [hc] at hmin
      exact absurd hmin (lt_irrefl _)
    · simpa using isSome_getStatusAt hk request.globalLimitHt
  · rfl

/-! ### Replies -/

theorem isSome_isFinished {status : TransactionStatus} {time : HybridTime}
    (hk : Known fate status time) (serialNo : Int) (waiter : StatusRequest) :
    (isFinished serialNo time status waiter).isSome := by
  unfold isFinished
  split
  · rfl
  · simpa using isSome_getStatusAt hk waiter.globalLimitHt

/-- Under a known status the waiters split, in order, into those taken out and those of a later
serial number left. -/
theorem extractFinishedStatusWaitersUnlocked_spec {status : TransactionStatus} {time : HybridTime}
    (hk : Known fate status time) (serialNo : Int) (waiters : List StatusRequest) :
    ∃ taken left, extractFinishedStatusWaitersUnlocked serialNo time status waiters =
        some (taken, left) ∧ (taken ++ left).Perm waiters ∧
      (∀ w ∈ taken, isFinished serialNo time status w = some true) ∧
      ∀ w ∈ left, serialNo < w.serialNo := by
  induction waiters with
  | nil => exact ⟨[], [], rfl, by simp, by simp, by simp⟩
  | cons waiter rest ih =>
    obtain ⟨taken, left, hx, hperm, htaken, hleft⟩ := ih
    obtain ⟨finished, hf⟩ := Option.isSome_iff_exists.1 (isSome_isFinished hk serialNo waiter)
    cases finished with
    | true =>
      refine ⟨waiter :: taken, left, by simp [extractFinishedStatusWaitersUnlocked, hf, hx],
        hperm.cons waiter, ?_, hleft⟩
      intro w hw
      rcases List.mem_cons.1 hw with rfl | hw
      · exact hf
      · exact htaken w hw
    | false =>
      -- a waiter left behind has a later serial number: the first test failed
      have hlater : serialNo < waiter.serialNo := by
        unfold isFinished at hf
        split at hf
        · cases hf
        · omega
      refine ⟨taken, waiter :: left, by simp [extractFinishedStatusWaitersUnlocked, hf, hx],
        List.perm_middle.trans (hperm.cons waiter), htaken, ?_⟩
      intro w hw
      rcases List.mem_cons.1 hw with rfl | hw
      · exact hlater
      · exact hleft w hw

/-- A waiter taken out is answered, and never by the `DFATAL` of a waiter newer than the
request: the pending fallback only reaches waiters taken out by their serial number. -/
theorem notifyWaiter_answers {status : TransactionStatus} {time : HybridTime} {serialNo : Int}
    {waiter : StatusRequest} (hk : Known fate status time)
    (hw : waiter.readHt ≤ waiter.globalLimitHt)
    (hf : isFinished serialNo time status waiter = some true) :
    ∃ result, notifyWaiter serialNo time status waiter = some (waiter.callback, result) ∧
      Answers fate waiter result := by
  obtain ⟨known, hg⟩ := Option.isSome_iff_exists.1 (isSome_getStatusAt hk waiter.globalLimitHt)
  cases known with
  | some s =>
    exact ⟨_, by simp [notifyWaiter, hg], answers_getStatusAt hk hw hg⟩
  | none =>
    by_cases hread : waiter.readHt ≤ time
    · have hserial : ¬ waiter.serialNo > serialNo := by
        intro hgt
        simp only [isFinished, if_neg (not_le.2 hgt), hg, Option.map_some, Option.isSome_none,
          Bool.false_or, Option.some.injEq, decide_eq_true_eq] at hf
        exact absurd hread (not_le.2 hf)
      exact ⟨_, by simp [notifyWaiter, hg, hread, hserial], answers_pending hk hg hread⟩
    · exact ⟨.error _, by simp [notifyWaiter, hg, hread]; rfl, trivial⟩

theorem notifyWaiters_answers {status : TransactionStatus} {time : HybridTime} {serialNo : Int}
    (hk : Known fate status time) (finished : List StatusRequest)
    (hf : ∀ w ∈ finished, w.readHt ≤ w.globalLimitHt ∧
      isFinished serialNo time status w = some true) :
    ∃ notifications, notifyWaiters serialNo time status finished = some notifications ∧
      notifications.map Prod.fst = finished.map (·.callback) ∧
      ∀ n ∈ notifications, ∃ w ∈ finished, w.callback = n.1 ∧ Answers fate w n.2 := by
  induction finished with
  | nil => exact ⟨[], rfl, rfl, by simp⟩
  | cons waiter rest ih =>
    obtain ⟨hw, hfw⟩ := hf waiter List.mem_cons_self
    obtain ⟨result, hn, ha⟩ := notifyWaiter_answers hk hw hfw
    obtain ⟨ns, hns, hmap, hans⟩ := ih fun w hm => hf w (List.mem_cons_of_mem _ hm)
    refine ⟨(waiter.callback, result) :: ns, ?_, by simp [hmap], ?_⟩
    · simp only [notifyWaiters, List.mapM_cons] at hns ⊢
      simp [hn, hns]
    · intro n hm
      rcases List.mem_cons.1 hm with rfl | hm
      · exact ⟨waiter, List.mem_cons_self, rfl, ha⟩
      · obtain ⟨w, hwm, hcb, hwa⟩ := hans n hm
        exact ⟨w, List.mem_cons_of_mem _ hwm, hcb, hwa⟩

/-- What `DoStatusReceived` leaves after an OK reply, from the waiters it takes out and the
answers it gives them. -/
theorem doStatusReceived_ok {t : RunningTransaction} {serialNo : Int}
    {response : GetTransactionStatusResponse} {taken left : List StatusRequest}
    {notifications : List Notification}
    (hx : extractFinishedStatusWaitersUnlocked serialNo
      (updateLastKnown t.lastKnownStatus t.lastKnownStatusHybridTime response).2
      (updateLastKnown t.lastKnownStatus t.lastKnownStatusHybridTime response).1 t.statusWaiters =
        some (taken, left))
    (hn : notifyWaiters serialNo
      (updateLastKnown t.lastKnownStatus t.lastKnownStatusHybridTime response).2
      (updateLastKnown t.lastKnownStatus t.lastKnownStatusHybridTime response).1 taken =
        some notifications) :
    t.doStatusReceived serialNo (.ok response) = some
      ({ t with
          lastKnownStatus := (updateLastKnown t.lastKnownStatus t.lastKnownStatusHybridTime response).1,
          lastKnownStatusHybridTime :=
            (updateLastKnown t.lastKnownStatus t.lastKnownStatusHybridTime response).2,
          statusWaiters := left,
          requestSerial := if left = [] then t.requestSerial else t.requestSerial + 1,
          statusRpcs := if left = [] then t.statusRpcs.erase serialNo
            else t.statusRpcs.erase serialNo ++ [t.requestSerial + 1] },
        notifications) := by
  simp only [doStatusReceived, hx, hn, Option.bind_eq_bind, Option.bind_some]
  cases left <;> rfl

/-! ### Runs -/

/-- The calls the claim takes: a waiter with a callback of its own and
`read_ht ≤ global_limit_ht < kMax`, a truthful reply to an RPC in flight, and a serial number
taken by another request. -/
def Allowed (fate : Fate) (t : RunningTransaction) (issued : List StatusRequest) : Event → Prop
  | .requestStatusAt request => request.callback ∉ issued.map (·.callback) ∧
      request.readHt ≤ request.globalLimitHt ∧ request.globalLimitHt < HybridTime.kMax
  | .statusReceived serialNo reply => serialNo ∈ t.statusRpcs ∧ TruthfulReply fate reply
  | .nextRequestId => True

/-- The waiter an event brings. -/
def Event.issued : Event → List StatusRequest
  | .requestStatusAt request => [request]
  | _ => []

/-- The runs of a running transaction from its creation, with the waiters that came and the
callbacks invoked, in order. The status it starts with is never read before it is set. -/
inductive Reach (fate : Fate) : RunningTransaction → List StatusRequest → List Notification → Prop
  | init (status : TransactionStatus) (requestSerial : Int) :
      Reach fate ⟨status, HybridTime.kMin, [], requestSerial, []⟩ [] []
  | step {t t' : RunningTransaction} {issued : List StatusRequest}
      {notified out : List Notification} (e : Event) :
      Reach fate t issued notified → Allowed fate t issued e → t.handle e = some (t', out) →
      Reach fate t' (issued ++ e.issued) (notified ++ out)

structure Inv (fate : Fate) (t : RunningTransaction) (issued : List StatusRequest)
    (notified : List Notification) : Prop where
  known : t.lastKnownStatusHybridTime = HybridTime.kMin ∨
    Known fate t.lastKnownStatus t.lastKnownStatusHybridTime
  rpcs : (t.statusWaiters = [] ∧ t.statusRpcs = []) ∨
    (t.statusWaiters ≠ [] ∧ t.statusRpcs.length = 1)
  waiting : ∀ w ∈ t.statusWaiters, w ∈ issued
  wellFormed : ∀ r ∈ issued, r.readHt ≤ r.globalLimitHt
  fresh : (issued.map (·.callback)).Nodup
  /-- Every waiter that came is queued or was answered, and not both. -/
  accounted : (t.statusWaiters.map (·.callback) ++ notified.map Prod.fst).Perm
    (issued.map (·.callback))
  answered : ∀ n ∈ notified, ∃ r ∈ issued, r.callback = n.1 ∧ Answers fate r n.2

theorem inv_init (status : TransactionStatus) (requestSerial : Int) :
    Inv fate ⟨status, HybridTime.kMin, [], requestSerial, []⟩ [] [] :=
  ⟨.inl rfl, .inl ⟨rfl, rfl⟩, by simp, by simp, by simp, by simp, by simp⟩

section Step

variable {t : RunningTransaction} {issued : List StatusRequest} {notified : List Notification}

theorem Inv.knownAbove (hinv : Inv fate t issued notified)
    (hmin : HybridTime.kMin < t.lastKnownStatusHybridTime) :
    Known fate t.lastKnownStatus t.lastKnownStatusHybridTime :=
  hinv.known.resolve_left fun h => absurd hmin (by rw [h]; exact lt_irrefl _)

theorem Inv.erase_statusRpcs (hinv : Inv fate t issued notified) {serialNo : Int}
    (hs : serialNo ∈ t.statusRpcs) : t.statusRpcs.erase serialNo = [] := by
  have hlen : t.statusRpcs.length = 1 := by
    rcases hinv.rpcs with ⟨-, hr⟩ | ⟨-, hr⟩
    · rw [hr] at hs
      cases hs
    · exact hr
  apply List.eq_nil_of_length_eq_zero
  rw [List.length_erase_of_mem hs, hlen]

theorem Inv.issue (hinv : Inv fate t issued notified) {request : StatusRequest}
    (hfresh : request.callback ∉ issued.map (·.callback))
    (hw : request.readHt ≤ request.globalLimitHt) :
    ((issued ++ [request]).map (·.callback)).Nodup ∧
      ∀ r ∈ issued ++ [request], r.readHt ≤ r.globalLimitHt := by
  refine ⟨?_, ?_⟩
  · rw [List.map_append, List.nodup_append]
    refine ⟨hinv.fresh, List.nodup_singleton _, fun a ha b hb => ?_⟩
    rw [List.mem_singleton.1 hb]
    rintro rfl
    exact hfresh ha
  · intro r hr
    rcases List.mem_append.1 hr with hr | hr
    · exact hinv.wellFormed r hr
    · rw [List.mem_singleton.1 hr]
      exact hw

theorem Inv.requestStatusAt (hinv : Inv fate t issued notified) {request : StatusRequest}
    {t' : RunningTransaction} {out : List Notification}
    (hfresh : request.callback ∉ issued.map (·.callback))
    (hw : request.readHt ≤ request.globalLimitHt)
    (h : t.requestStatusAt request = some (t', out)) :
    Inv fate t' (issued ++ [request]) (notified ++ out) := by
  obtain ⟨hnodup, hwf⟩ := hinv.issue hfresh hw
  have hsub : ∀ r ∈ issued, r ∈ issued ++ [request] := fun r hr => List.mem_append_left _ hr
  rcases requestStatusAt_cases h with ⟨hmin, s, hs, rfl, rfl⟩ | hq
  · -- answered at once from the known status
    refine ⟨hinv.known, hinv.rpcs, fun w hw' => hsub w (hinv.waiting w hw'), hwf, hnodup, ?_, ?_⟩
    · have hacc := hinv.accounted.append_right [request.callback]
      simpa [List.append_assoc] using hacc
    · intro n hn
      rcases List.mem_append.1 hn with hn | hn
      · obtain ⟨r, hr, hcb, ha⟩ := hinv.answered n hn
        exact ⟨r, hsub r hr, hcb, ha⟩
      · rw [List.mem_singleton.1 hn]
        exact ⟨request, by simp, rfl, answers_getStatusAt (hinv.knownAbove hmin) hw hs⟩
  · -- queued
    have ht' : t' = (t.queueStatusWaiter request).1 := congrArg Prod.fst hq
    have hout : out = [] := by
      rw [← queueStatusWaiter_snd t request]
      exact congrArg Prod.snd hq
    subst ht' hout
    refine ⟨by simpa using hinv.known, ?_, ?_, hwf, hnodup, ?_, ?_⟩
    · refine .inr ⟨by simp, ?_⟩
      rw [queueStatusWaiter_statusRpcs]
      rcases hinv.rpcs with ⟨hw0, hr0⟩ | ⟨hw0, hr0⟩
      · simp [hw0, hr0]
      · simp [hw0, hr0]
    · intro w hw'
      rw [queueStatusWaiter_statusWaiters] at hw'
      rcases List.mem_append.1 hw' with hw' | hw'
      · exact hsub w (hinv.waiting w hw')
      · rw [List.mem_singleton.1 hw']
        simp
    · have hacc := hinv.accounted
      rw [List.perm_iff_count] at hacc ⊢
      intro a
      have := hacc a
      simp only [queueStatusWaiter_statusWaiters, List.append_nil, List.map_append,
        List.count_append] at this ⊢
      omega
    · intro n hn
      rw [List.append_nil] at hn
      obtain ⟨r, hr, hcb, ha⟩ := hinv.answered n hn
      exact ⟨r, hsub r hr, hcb, ha⟩

theorem Inv.statusReceived_error (hinv : Inv fate t issued notified) {serialNo : Int}
    {status : Status} (hs : serialNo ∈ t.statusRpcs) :
    Inv fate { t with statusRpcs := t.statusRpcs.erase serialNo, statusWaiters := [] } issued
      (notified ++ t.statusWaiters.map fun w => (w.callback, .error status)) := by
  refine ⟨hinv.known, .inl ⟨rfl, hinv.erase_statusRpcs hs⟩, by simp, hinv.wellFormed, hinv.fresh,
    ?_, ?_⟩
  · simpa [List.map_append, Function.comp_def] using List.perm_append_comm.trans hinv.accounted
  · intro n hn
    rcases List.mem_append.1 hn with hn | hn
    · exact hinv.answered n hn
    · obtain ⟨w, hw, rfl⟩ := List.mem_map.1 hn
      exact ⟨w, hinv.waiting w hw, rfl, trivial⟩

/-- An OK truthful reply under the invariant: the waiters split into those answered, each truly,
and those of a later serial number left for the next RPC. -/
theorem Inv.statusReceived_ok_spec (hinv : Inv fate t issued notified) {serialNo : Int}
    {response : GetTransactionStatusResponse} (hr : TruthfulReply fate (.ok response)) :
    ∃ taken left notifications, t.doStatusReceived serialNo (.ok response) = some
      ({ t with
          lastKnownStatus := (updateLastKnown t.lastKnownStatus t.lastKnownStatusHybridTime response).1,
          lastKnownStatusHybridTime :=
            (updateLastKnown t.lastKnownStatus t.lastKnownStatusHybridTime response).2,
          statusWaiters := left,
          requestSerial := if left = [] then t.requestSerial else t.requestSerial + 1,
          statusRpcs := if left = [] then t.statusRpcs.erase serialNo
            else t.statusRpcs.erase serialNo ++ [t.requestSerial + 1] },
        notifications) ∧
      (taken ++ left).Perm t.statusWaiters ∧ (∀ w ∈ left, serialNo < w.serialNo) ∧
      notifications.map Prod.fst = taken.map (·.callback) ∧
      ∀ n ∈ notifications, ∃ w ∈ taken, w.callback = n.1 ∧ Answers fate w n.2 := by
  have hk := known_updateLastKnown hinv.known hr
  obtain ⟨taken, left, hx, hperm, hfin, hlater⟩ :=
    extractFinishedStatusWaitersUnlocked_spec hk serialNo t.statusWaiters
  have htaken : ∀ w ∈ taken, w ∈ issued :=
    fun w hw => hinv.waiting w (hperm.subset (List.mem_append_left _ hw))
  obtain ⟨ns, hn, hmap, hans⟩ := notifyWaiters_answers hk taken
    fun w hw => ⟨hinv.wellFormed w (htaken w hw), hfin w hw⟩
  exact ⟨taken, left, ns, doStatusReceived_ok hx hn, hperm, hlater, hmap, hans⟩

theorem Inv.statusReceived_ok (hinv : Inv fate t issued notified) {serialNo : Int}
    {response : GetTransactionStatusResponse} {t' : RunningTransaction} {out : List Notification}
    (hs : serialNo ∈ t.statusRpcs) (hr : TruthfulReply fate (.ok response))
    (h : t.doStatusReceived serialNo (.ok response) = some (t', out)) :
    Inv fate t' issued (notified ++ out) := by
  obtain ⟨taken, left, ns, heq, hperm, -, hmap, hans⟩ := hinv.statusReceived_ok_spec hr
  rw [heq] at h
  obtain ⟨rfl, rfl⟩ := Prod.mk.inj (Option.some.inj h)
  have hempty := hinv.erase_statusRpcs hs
  refine ⟨.inr (known_updateLastKnown hinv.known hr), ?_, ?_, hinv.wellFormed, hinv.fresh, ?_, ?_⟩
  · by_cases hl : left = []
    · exact .inl ⟨hl, by simp [hl, hempty]⟩
    · exact .inr ⟨hl, by simp [hl, hempty]⟩
  · exact fun w hw => hinv.waiting w (hperm.subset (List.mem_append_right _ hw))
  · -- the waiters answered move from the queue to the callbacks invoked
    have hacc := hinv.accounted
    have hsplit := hperm.map (·.callback)
    rw [List.perm_iff_count] at hacc hsplit ⊢
    intro a
    have h1 := hacc a
    have h2 := hsplit a
    simp only [List.map_append, List.count_append, hmap] at h1 h2 ⊢
    omega
  · intro n hn
    rcases List.mem_append.1 hn with hn | hn
    · exact hinv.answered n hn
    · obtain ⟨w, hw, hcb, ha⟩ := hans n hn
      exact ⟨w, hinv.waiting w (hperm.subset (List.mem_append_left _ hw)), hcb, ha⟩

theorem Inv.step (hinv : Inv fate t issued notified) {e : Event} {t' : RunningTransaction}
    {out : List Notification} (ha : Allowed fate t issued e) (h : t.handle e = some (t', out)) :
    Inv fate t' (issued ++ e.issued) (notified ++ out) := by
  cases e with
  | requestStatusAt request => exact hinv.requestStatusAt ha.1 ha.2.1 h
  | statusReceived serialNo reply =>
    change Inv fate t' (issued ++ []) (notified ++ out)
    rw [List.append_nil]
    cases reply with
    | error status =>
      obtain ⟨rfl, rfl⟩ := Prod.mk.inj (Option.some.inj h)
      exact hinv.statusReceived_error ha.1
    | ok response => exact hinv.statusReceived_ok ha.1 ha.2 h
  | nextRequestId =>
    obtain ⟨rfl, rfl⟩ := Prod.mk.inj (Option.some.inj h)
    change Inv fate { t with requestSerial := t.requestSerial + 1 } (issued ++ []) (notified ++ [])
    rw [List.append_nil, List.append_nil]
    exact ⟨hinv.known, hinv.rpcs, hinv.waiting, hinv.wellFormed, hinv.fresh, hinv.accounted,
      hinv.answered⟩

theorem Reach.inv {t : RunningTransaction} {issued : List StatusRequest}
    {notified : List Notification} (h : Reach fate t issued notified) :
    Inv fate t issued notified := by
  induction h with
  | init status requestSerial => exact inv_init status requestSerial
  | step e _ ha hs ih => exact ih.step ha hs

/-- Under the invariant no allowed call crashes, none moves the last known status time back, and
a reply leaves queued only waiters of later serial numbers. -/
theorem Inv.handle_spec (hinv : Inv fate t issued notified) {e : Event}
    (ha : Allowed fate t issued e) :
    ∃ t' out, t.handle e = some (t', out) ∧
      t.lastKnownStatusHybridTime ≤ t'.lastKnownStatusHybridTime ∧
      ∀ serialNo reply, e = .statusReceived serialNo reply →
        ∀ w ∈ t'.statusWaiters, serialNo < w.serialNo := by
  cases e with
  | requestStatusAt request =>
    obtain ⟨⟨t', out⟩, h⟩ := Option.isSome_iff_exists.1 (isSome_requestStatusAt hinv.known request)
    refine ⟨t', out, h, ?_, fun _ _ he => by cases he⟩
    rcases requestStatusAt_cases h with ⟨-, -, -, rfl, -⟩ | hq
    · exact le_rfl
    · rw [show t' = (t.queueStatusWaiter request).1 from congrArg Prod.fst hq,
        queueStatusWaiter_lastKnownStatusHybridTime]
  | statusReceived serialNo reply =>
    cases reply with
    | error status => exact ⟨_, _, rfl, le_rfl, fun _ _ _ => by simp⟩
    | ok response =>
      obtain ⟨taken, left, ns, heq, -, hlater, -⟩ := hinv.statusReceived_ok_spec ha.2
      refine ⟨_, ns, heq, le_updateLastKnown _ _ _, ?_⟩
      intro serialNo' reply' he
      cases he
      exact hlater
  | nextRequestId => exact ⟨_, _, rfl, le_rfl, fun _ _ he => by cases he⟩

end Step

/-- The status requests of one running transaction whose fate is fixed, over every run of
waiters and truthful replies: at most one status RPC is in flight, and one is while waiters are
queued; no callback is invoked twice, and every waiter is queued or answered; every answer holds
of the fate at the waiter's read time and global limit; and every allowed call runs without a
crash, never moves the last known status time back, and a reply answers every waiter whose
serial number is not after its own. -/
theorem runningTransaction_status_requests {t : RunningTransaction}
    {issued : List StatusRequest} {notified : List Notification}
    (h : Reach fate t issued notified) :
    t.statusRpcs.length ≤ 1 ∧ (t.statusWaiters ≠ [] → t.statusRpcs.length = 1) ∧
      (notified.map Prod.fst).Nodup ∧
      (t.statusWaiters.map (·.callback) ++ notified.map Prod.fst).Perm
        (issued.map (·.callback)) ∧
      (∀ n ∈ notified, ∃ r ∈ issued, r.callback = n.1 ∧ Answers fate r n.2) ∧
      ∀ e, Allowed fate t issued e → ∃ t' out, t.handle e = some (t', out) ∧
        t.lastKnownStatusHybridTime ≤ t'.lastKnownStatusHybridTime ∧
        ∀ serialNo reply, e = .statusReceived serialNo reply →
          ∀ w ∈ t'.statusWaiters, serialNo < w.serialNo := by
  have hinv := h.inv
  have hnodup : (t.statusWaiters.map (·.callback) ++ notified.map Prod.fst).Nodup :=
    hinv.accounted.nodup_iff.2 hinv.fresh
  refine ⟨?_, ?_, (List.nodup_append.1 hnodup).2.1, hinv.accounted, hinv.answered,
    fun e ha => hinv.handle_spec ha⟩
  · rcases hinv.rpcs with ⟨-, hr⟩ | ⟨-, hr⟩ <;> simp [hr]
  · intro hw
    rcases hinv.rpcs with ⟨hw0, -⟩ | ⟨-, hr⟩
    · exact absurd hw0 hw
    · exact hr

/-- A waiter at read time 1 and global limit 2, queued, and answered `PENDING` at 3 by the reply
to its RPC, of a transaction that commits at 10. -/
theorem runningTransaction_status_requests_pending_reply :
    Reach (.commits ⟨10⟩) ⟨.PENDING, ⟨3⟩, [], 1, []⟩ [⟨⟨1⟩, ⟨2⟩, 1, 7⟩]
        [(7, .ok ⟨.PENDING, ⟨3⟩⟩)] ∧
      ∀ n ∈ [((7 : Nat), (.ok ⟨.PENDING, ⟨3⟩⟩ : Except Status TransactionStatusResult))],
        ∃ r ∈ [(⟨⟨1⟩, ⟨2⟩, 1, 7⟩ : StatusRequest)], r.callback = n.1 ∧
          Answers (.commits ⟨10⟩) r n.2 := by
  have h0 : Reach (.commits ⟨10⟩) ⟨.PENDING, HybridTime.kMin, [], 0, []⟩ [] [] := .init .PENDING 0
  have h1 := h0.step (.requestStatusAt ⟨⟨1⟩, ⟨2⟩, 1, 7⟩) ⟨by simp, by decide, by decide⟩
    (show _ = some (⟨.PENDING, HybridTime.kMin, [⟨⟨1⟩, ⟨2⟩, 1, 7⟩], 1, [1]⟩, []) from rfl)
  have h2 := h1.step (.statusReceived 1 (.ok ⟨.PENDING, some ⟨3⟩⟩))
    ⟨by decide, fun c hc => by cases hc; decide, by simp⟩
    (show _ = some (⟨.PENDING, ⟨3⟩, [], 1, []⟩, [(7, .ok ⟨.PENDING, ⟨3⟩⟩)]) from rfl)
  exact ⟨h2, (runningTransaction_status_requests h2).2.2.2.2.1⟩

end RunningTransaction

end FrescoDB.Tablet
