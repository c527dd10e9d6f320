import FrescoDB.Tablet.OperationDriverSpec
import FrescoDB.Lib.ListModify

/-! The drivers of one tablet and the order in which they apply. The preparer runs
`PrepareAndStart` for one operation at a time, in the order the operations were submitted, and
the consensus thread runs `ReplicationFinished` for one at a time, in log index order
(`ReplicaState::ApplyPendingOperationsUnlocked`); a driver's op index is its position. A driver is
applied by whichever of its two calls comes second, before that call returns, and neither thread
moves to a later operation before its call returned: so `Apply` follows the op index. -/
namespace FrescoDB.Tablet

open FrescoDB.Util FrescoDB.Lib OperationDriver

namespace DriverCalls

/-- A call of kind `p` was made. -/
def Made (p : Call → Prop) (dc : DriverCalls) : Prop := ∃ m, p m ∧ dc.thread m ≠ none

/-- A call of kind `p` is in flight. -/
def Running (p : Call → Prop) (dc : DriverCalls) : Prop :=
  ∃ m b, p m ∧ dc.thread m = some (some b)

theorem Running.made {p : Call → Prop} {dc : DriverCalls} (h : dc.Running p) : dc.Made p := by
  obtain ⟨m, b, hp, hm⟩ := h
  exact ⟨m, hp, by simp [hm]⟩

variable {dc dc' : DriverCalls} {ndebug : Bool} {applyStatus : Status} {e : DriverEvent}
  {eff : List DriverEffect} {p : Call → Prop}

theorem made_of_step (hd : dc.Distinct) (hnew : ∀ c, e = .call c → dc.thread c = none)
    (hs : dc.step ndebug applyStatus e = some (dc', eff)) (h : dc'.Made p) :
    dc.Made p ∨ ∃ c, e = .call c ∧ p c := by
  obtain ⟨m, hp, hm⟩ := h
  by_cases hcall : e = .call m
  · exact .inr ⟨m, hcall, hp⟩
  · refine .inl ⟨m, hp, fun hnone => hm ?_⟩
    exact ((step_thread hd hnew hs m).1).mpr ⟨hnone, hcall⟩

theorem running_of_step (hd : dc.Distinct) (hnew : ∀ c, e = .call c → dc.thread c = none)
    (hs : dc.step ndebug applyStatus e = some (dc', eff)) (h : dc'.Running p) :
    dc.Running p ∨ ∃ c, e = .call c ∧ p c := by
  obtain ⟨m, b', hp, hm⟩ := h
  rcases (step_thread hd hnew hs m).2 b' hm with hcall | ⟨b, hb⟩
  · exact .inr ⟨m, hcall, hp⟩
  · exact .inl ⟨m, b, hp, hb⟩

theorem step_apply (hs : dc.step ndebug applyStatus e = some (dc', eff)) (ha : .apply ∈ eff) :
    ∃ k made, e = .run k ∧ dc.running[k]? = some (made, .applyTask) ∧ eff = finalized := by
  cases e with
  | call c =>
    simp only [step, Option.some.injEq, Prod.mk.injEq] at hs
    obtain ⟨-, rfl⟩ := hs
    simp at ha
  | run k =>
    obtain ⟨made, block, next, hk, hb, -⟩ := step_run_eq_some hs
    obtain rfl := Call.eq_applyTask_of_apply_mem hb ha
    refine ⟨k, made, rfl, hk, ?_⟩
    simp only [Call.step] at hb
    split_ifs at hb
    simp only [Option.some.injEq, Prod.mk.injEq] at hb
    exact hb.2.1.symm

end DriverCalls

/-- `PrepareAndStart`, which the preparer calls. -/
def IsPrepareAndStart (m : OperationDriver.Call) : Prop := ∃ ps, m = .prepareAndStart ps

/-- `ReplicationFinished`, which the consensus thread calls. -/
def IsReplicationFinished (m : OperationDriver.Call) : Prop := ∃ r, m = .replicationFinished r

namespace TabletDrivers

/-- The drivers of op indexes `0, 1, …`, of a replica's operation or a leader's as `kinds` says. -/
def init (kinds : List Bool) : TabletDrivers where
  drivers := kinds.map fun replica => ⟨OperationDriver.init true replica, [], [], []⟩

/-- What the driver of op index `i` asked for, in order. -/
def requests (t : TabletDrivers) (i : Nat) : List DriverEffect :=
  t.log.filterMap fun entry => if entry.1 = i then some entry.2 else none

/-- The op indexes of the drivers that asked for `Apply`, in the order asked. -/
def applied (t : TabletDrivers) : List Nat :=
  t.log.filterMap fun entry => if entry.2 = .apply then some entry.1 else none

/-- One thread makes its calls of kind `p` one at a time and in increasing op index: a call to
driver `i` waits until every call made so far returned, and they all went below `i`. -/
def Serial (p : OperationDriver.Call → Prop) (t : TabletDrivers) (i : Nat) : Prop :=
  ∀ (j : Nat) (dc : DriverCalls), t.drivers[j]? = some dc → dc.Made p → j < i ∧ ¬ dc.Running p

/-- The tablet's protocol: each driver's own, with `PrepareAndStart` from the preparer and
`ReplicationFinished` from the consensus thread, each serial. -/
def Allowed (kinds : List Bool) (t : TabletDrivers) (i : Nat) (e : DriverEvent) : Prop :=
  (∃ dc replica, t.drivers[i]? = some dc ∧ kinds[i]? = some replica ∧ dc.Allowed replica e) ∧
  (∀ c, e = .call c → IsPrepareAndStart c → t.Serial IsPrepareAndStart i) ∧
  (∀ c, e = .call c → IsReplicationFinished c → t.Serial IsReplicationFinished i)

/-- The runs of a tablet's drivers under the protocol, with what `Apply` returns for each. -/
inductive Steps (kinds : List Bool) (ndebug : Bool) (applyStatus : Nat → Status) :
    TabletDrivers → List (Nat × DriverEvent) → TabletDrivers → Prop
  | nil (t : TabletDrivers) : Steps kinds ndebug applyStatus t [] t
  | cons {t t' t'' : TabletDrivers} {i : Nat} {e : DriverEvent}
      {events : List (Nat × DriverEvent)} :
      t.Allowed kinds i e → t.step ndebug applyStatus i e = some t' →
      Steps kinds ndebug applyStatus t' events t'' →
      Steps kinds ndebug applyStatus t ((i, e) :: events) t''

/-- The drivers after the events, in order; `none` once one stops the process. -/
def run (ndebug : Bool) (applyStatus : Nat → Status) (t : TabletDrivers) :
    List (Nat × DriverEvent) → Option TabletDrivers
  | [] => some t
  | (i, e) :: events =>
    match t.step ndebug applyStatus i e with
    | none => none
    | some t => t.run ndebug applyStatus events

/-- Once a call of kind `p` went to driver `i`, no driver below `i` has one in flight. -/
def Ordered (p : OperationDriver.Call → Prop) (t : TabletDrivers) : Prop :=
  ∀ (i j : Nat) (dci dcj : DriverCalls), t.drivers[i]? = some dci → t.drivers[j]? = some dcj →
    j < i → dci.Made p → ¬ dcj.Running p

structure Inv (kinds : List Bool) (t : TabletDrivers) : Prop where
  length_eq : t.drivers.length = kinds.length
  drivers_inv : ∀ (i : Nat) (dc : DriverCalls) (replica : Bool), t.drivers[i]? = some dc →
    kinds[i]? = some replica → dc.Inv replica
  requests_eq : ∀ i, t.requests i = (t.drivers[i]?.map (·.effects)).getD []
  prepare_ordered : t.Ordered IsPrepareAndStart
  finish_ordered : t.Ordered IsReplicationFinished
  applied_sorted : t.applied.Pairwise (· < ·)

end TabletDrivers

namespace TabletDrivers

variable {kinds : List Bool} {t : TabletDrivers} {ndebug : Bool} {applyStatus : Nat → Status}

theorem step_eq {i : Nat} {e : DriverEvent} {dc dc' : DriverCalls} {eff : List DriverEffect}
    (hdc : t.drivers[i]? = some dc) (hs : dc.step ndebug (applyStatus i) e = some (dc', eff)) :
    t.step ndebug applyStatus i e =
      some { drivers := t.drivers.set i dc', log := t.log ++ eff.map (i, ·) } := by
  simp [step, hdc, hs]

theorem requests_append (drivers : List DriverCalls) (i : Nat) (eff : List DriverEffect) (j : Nat) :
    ({ drivers, log := t.log ++ eff.map (i, ·) } : TabletDrivers).requests j =
      t.requests j ++ if j = i then eff else [] := by
  by_cases hji : j = i
  · subst hji
    simp [requests, List.filterMap_append]
  · simp [requests, List.filterMap_append, Ne.symm hji, hji]

theorem applied_append (drivers : List DriverCalls) (i : Nat) (eff : List DriverEffect) :
    ({ drivers, log := t.log ++ eff.map (i, ·) } : TabletDrivers).applied =
      t.applied ++ eff.filterMap fun e => if e = .apply then some i else none := by
  simp [applied, List.filterMap_append]

theorem apply_mem_requests_of_mem_applied {j : Nat} (h : j ∈ t.applied) :
    .apply ∈ t.requests j := by
  simp only [applied, List.mem_filterMap, Option.ite_none_right_eq_some, Option.some.injEq] at h
  obtain ⟨entry, hmem, happly, rfl⟩ := h
  simp only [requests, List.mem_filterMap, Option.ite_none_right_eq_some, Option.some.injEq]
  exact ⟨entry, hmem, rfl, happly⟩

theorem inv_init (kinds : List Bool) : (init kinds).Inv kinds where
  length_eq := by simp [init]
  drivers_inv i dc replica hdc hkind := by
    simp only [init, List.getElem?_map, hkind, Option.map_some, Option.some.injEq] at hdc
    subst hdc
    exact DriverCalls.inv_init replica
  requests_eq i := by
    cases hk : kinds[i]? <;> simp [init, requests, hk]
  prepare_ordered i j dci dcj hi hj _ hmade := by
    simp only [init, List.getElem?_map] at hi
    obtain ⟨replica, -, rfl⟩ := Option.map_eq_some_iff.mp hi
    obtain ⟨m, -, hm⟩ := hmade
    simp [DriverCalls.thread] at hm
  finish_ordered i j dci dcj hi hj _ hmade := by
    simp only [init, List.getElem?_map] at hi
    obtain ⟨replica, -, rfl⟩ := Option.map_eq_some_iff.mp hi
    obtain ⟨m, -, hm⟩ := hmade
    simp [DriverCalls.thread] at hm
  applied_sorted := by simp [init, applied]

/-- A serial thread stays in order: a call of its kind goes to a driver above every driver that
had one, after they all returned. -/
theorem ordered_step {p : OperationDriver.Call → Prop} (hord : t.Ordered p) {i : Nat}
    {e : DriverEvent} (hserial : ∀ c, e = .call c → p c → t.Serial p i) {dc dc' : DriverCalls}
    {eff : List DriverEffect} (hdc : t.drivers[i]? = some dc) (hd : dc.Distinct)
    (hnew : ∀ c, e = .call c → dc.thread c = none)
    (hs : dc.step ndebug (applyStatus i) e = some (dc', eff)) (log : List (Nat × DriverEffect)) :
    ({ drivers := t.drivers.set i dc', log } : TabletDrivers).Ordered p := by
  have hi : i < t.drivers.length := (List.getElem?_eq_some_iff.mp hdc).1
  intro i₁ j₁ dci dcj hi₁ hj₁ hlt hmade hrun
  rcases getElem?_set_eq_some hi hi₁ with ⟨rfl, rfl⟩ | ⟨-, hi₁'⟩ <;>
    rcases getElem?_set_eq_some hi hj₁ with ⟨rfl, rfl⟩ | ⟨-, hj₁'⟩
  · exact absurd hlt (lt_irrefl _)
  · -- the call made goes to `i`: the serial thread had returned every call below it
    rcases DriverCalls.made_of_step hd hnew hs hmade with hmade' | ⟨c, rfl, hc⟩
    · exact hord _ _ _ _ hdc hj₁' hlt hmade' hrun
    · exact (hserial c rfl hc j₁ dcj hj₁' hrun.made).2 hrun
  · -- the call in flight is at `i`: the serial thread had made none above it
    rcases DriverCalls.running_of_step hd hnew hs hrun with hrun' | ⟨c, rfl, hc⟩
    · exact hord _ _ _ _ hi₁' hdc hlt hmade hrun'
    · exact absurd (hserial c rfl hc i₁ dci hi₁' hmade).1 (not_lt.mpr hlt.le)
  · exact hord _ _ _ _ hi₁' hj₁' hlt hmade hrun

theorem applied_lt {t : TabletDrivers} (h : t.Inv kinds) {i : Nat} {dc : DriverCalls}
    {replica : Bool} (hdc : t.drivers[i]? = some dc) (hkind : kinds[i]? = some replica)
    {k : Nat} {made : OperationDriver.Call} (hk : dc.running[k]? = some (made, .applyTask))
    {j : Nat} (hj : j ∈ t.applied) : j < i := by
  have hinv := h.drivers_inv i dc replica hdc hkind
  -- the call that applies `i` is its `PrepareAndStart` or its `ReplicationFinished`, in flight
  obtain ⟨hmade, hnot⟩ := hinv.applyTask (DriverCalls.thread_of_getElem? hinv.distinct hk)
  have hreq := apply_mem_requests_of_mem_applied hj
  rw [h.requests_eq j] at hreq
  obtain ⟨dcj, hdcj⟩ : ∃ dcj, t.drivers[j]? = some dcj := by
    cases hdcj : t.drivers[j]? with
    | none => simp [hdcj] at hreq
    | some dcj => exact ⟨dcj, rfl⟩
  simp only [hdcj, Option.map_some, Option.getD_some] at hreq
  obtain ⟨replicaj, hkindj⟩ : ∃ replicaj, kinds[j]? = some replicaj := by
    have hlt : j < kinds.length := h.length_eq ▸ (List.getElem?_eq_some_iff.mp hdcj).1
    exact ⟨_, List.getElem?_eq_getElem hlt⟩
  -- a driver that applied got both calls
  obtain ⟨⟨ps, hps⟩, ⟨r, hr⟩⟩ := (h.drivers_inv j dcj replicaj hdcj hkindj).made_of_apply_mem hreq
  rcases lt_trichotomy j i with hlt | rfl | hgt
  · exact hlt
  · rw [hdc] at hdcj
    cases hdcj
    exact absurd hreq hnot
  · have hrun : dc.thread made = some (some .applyTask) :=
      DriverCalls.thread_of_getElem? hinv.distinct hk
    rcases hmade with ⟨ps', rfl⟩ | ⟨r', rfl⟩
    · exact absurd ⟨_, _, ⟨ps', rfl⟩, hrun⟩
        (h.prepare_ordered j i dcj dc hdcj hdc hgt ⟨_, ⟨ps, rfl⟩, hps⟩)
    · exact absurd ⟨_, _, ⟨r', rfl⟩, hrun⟩
        (h.finish_ordered j i dcj dc hdcj hdc hgt ⟨_, ⟨r, rfl⟩, hr⟩)

theorem Inv.step (h : t.Inv kinds) (happly : ∀ i, (applyStatus i).ok) {i : Nat}
    {e : DriverEvent} (he : t.Allowed kinds i e) :
    ∃ t', t.step ndebug applyStatus i e = some t' ∧ t'.Inv kinds := by
  obtain ⟨⟨dc, replica, hdc, hkind, hallowed⟩, hps, hrf⟩ := he
  have hinv := h.drivers_inv i dc replica hdc hkind
  obtain ⟨dc', eff, hs, hinv'⟩ : ∃ dc' eff, dc.step ndebug (applyStatus i) e = some (dc', eff) ∧
      dc'.Inv replica := hinv.step (happly i) hallowed
  have hnew : ∀ c, e = .call c → dc.thread c = none := fun c hc => by
    subst hc
    exact DriverCalls.thread_eq_none_of_allowed hallowed
  have hi : i < t.drivers.length := (List.getElem?_eq_some_iff.mp hdc).1
  refine ⟨_, step_eq hdc hs, ⟨by simp [h.length_eq], ?_, ?_, ?_, ?_, ?_⟩⟩
  · intro j dcj replicaj hj hkindj
    rcases getElem?_set_eq_some hi hj with ⟨rfl, rfl⟩ | ⟨-, hj'⟩
    · rw [hkind] at hkindj
      cases hkindj
      exact hinv'
    · exact h.drivers_inv j dcj replicaj hj' hkindj
  · intro j
    rw [requests_append, h.requests_eq j]
    by_cases hji : j = i
    · subst hji
      rw [List.getElem?_set_self hi, hdc]
      simp [DriverCalls.step_effects hs]
    · simp [hji, List.getElem?_set_ne (Ne.symm hji)]
  · exact ordered_step h.prepare_ordered (fun c hc hp => hps c hc hp) hdc hinv.distinct hnew hs _
  · exact ordered_step h.finish_ordered (fun c hc hp => hrf c hc hp) hdc hinv.distinct hnew hs _
  · rw [applied_append]
    by_cases ha : .apply ∈ eff
    · obtain ⟨k, made, rfl, hk, rfl⟩ := DriverCalls.step_apply hs ha
      have hnew : (finalized.filterMap fun e => if e = .apply then some i else none) = [i] := by
        simp [finalized]
      rw [hnew, List.pairwise_append]
      exact ⟨h.applied_sorted, List.pairwise_singleton _ _,
        fun j hj _ hi' => by rw [List.mem_singleton.mp hi']; exact applied_lt h hdc hkind hk hj⟩
    · have hnone : (eff.filterMap fun e => if e = .apply then some i else none) = [] := by
        simp only [List.filterMap_eq_nil_iff]
        intro x hx
        have hne : x ≠ .apply := fun hxa => ha (hxa ▸ hx)
        simp [hne]
      rw [hnone, List.append_nil]
      exact h.applied_sorted

theorem Steps.inv {t t' : TabletDrivers} {events : List (Nat × DriverEvent)}
    (run : Steps kinds ndebug applyStatus t events t') (happly : ∀ i, (applyStatus i).ok)
    (h : t.Inv kinds) : t'.Inv kinds := by
  induction run with
  | nil => exact h
  | cons he hs _ ih =>
    obtain ⟨t₁, hs₁, h₁⟩ := h.step happly he
    rw [hs] at hs₁
    cases hs₁
    exact ih h₁

end TabletDrivers

/-- A replica's operation whose replication finishes first: `PrepareAndStart` applies it. -/
example : ((TabletDrivers.init [true]).run true (fun _ => Status.OK)
    [(0, .call (.replicationFinished Status.OK)), (0, .call (.prepareAndStart Status.OK)),
      (0, .run 1), (0, .run 1), (0, .run 0), (0, .run 0), (0, .run 0), (0, .run 0)]).map
      (·.requests 0) = some (.start :: finalized) := by
  decide

/-- A replica's operation: `Abort` while `REPLICATING`, then `PrepareAndStart` of an operation that
prepared, and `ReplicationFinished` with `OK` up to its `ApplyOperation`. -/
def abortThenReplicated : List (Nat × DriverEvent) :=
  [(0, .call (.abort ⟨.kAborted, ""⟩)), (0, .run 0),
    (0, .call (.prepareAndStart Status.OK)), (0, .run 0), (0, .run 0), (0, .run 0),
    (0, .call (.replicationFinished Status.OK)), (0, .run 0)]

end FrescoDB.Tablet
