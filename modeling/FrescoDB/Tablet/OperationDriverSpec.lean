import FrescoDB.Tablet.OperationDriver
import FrescoDB.Lib.AssocList

/-! The calls of one `OperationDriver` under the protocol its callers keep, and what they ask of
the operation: `Start` before `Apply`, and `Apply` with `Finish(COMMITTED)`, or `Finish(ABORTED)`,
each with one `CompleteWithStatus` and one `Release`, exactly once.

The two kinds of driver are taken apart. On a replica the preparer's `PrepareAndStart` and the
consensus thread's `ReplicationFinished` run at once, and whichever critical section comes second
sees both halves done and resolves the operation. On the leader the calls follow one another:
`HandleFailure` after a failed `Submit`, or `PrepareAndStart`, then `HandleConsensusAppend` and
`ReplicationFinished`, or `ReplicationFailed` after a failed `ReplicateBatch`. `Abort` is left
out: a replica aborted while `REPLICATING` keeps the error status, and the `ApplyOperation` that
follows stops the process. -/
namespace FrescoDB.Tablet

open FrescoDB.Util FrescoDB.Lib OperationDriver

namespace DriverCalls

/-- Where the call `made` stands: not made, running with the block it runs next, or returned
(`some none`). -/
def thread (dc : DriverCalls) (made : Call) : Option (Option Call) :=
  match dc.running.lookup made with
  | some block => some (some block)
  | none => if made ∈ dc.returned then some none else none

-- Equation lemmas, made once before their uses.
section
attribute [local simp] thread
end

/-- No call is in flight twice. -/
def Distinct (dc : DriverCalls) : Prop := (dc.running.map Prod.fst).Nodup

variable {dc : DriverCalls}

theorem thread_of_getElem? (hd : dc.Distinct) {k : Nat} {made block : Call}
    (h : dc.running[k]? = some (made, block)) : dc.thread made = some (some block) := by
  simp [thread, lookup_eq_of_mem_of_nodup hd (List.mem_of_getElem? h)]

theorem lookup_running_of_thread_eq_none {c : Call} (h : dc.thread c = none) :
    dc.running.lookup c = none := by
  unfold thread at h
  split at h
  · cases h
  · assumption

theorem not_mem_returned_of_thread_eq_none {c : Call} (h : dc.thread c = none) :
    c ∉ dc.returned := by
  have hl := lookup_running_of_thread_eq_none h
  simp only [thread, hl] at h
  simpa using h

theorem thread_call {dc' : DriverCalls} {c : Call} (h : dc.thread c = none)
    (hrun : dc'.running = dc.running ++ [(c, c)]) (hret : dc'.returned = dc.returned) (m : Call) :
    dc'.thread m = if m = c then some (some c) else dc.thread m := by
  have hl := lookup_running_of_thread_eq_none h
  simp only [thread, hrun, hret, lookup_append_singleton hl m]
  split_ifs <;> rfl

theorem distinct_call {c : Call} (hd : dc.Distinct) (h : dc.thread c = none) :
    (dc.running ++ [(c, c)]).map Prod.fst |>.Nodup := by
  have hc : c ∉ dc.running.map Prod.fst :=
    lookup_eq_none_iff_not_mem.mp (lookup_running_of_thread_eq_none h)
  rw [List.map_append]
  exact hd.append (List.nodup_singleton _) (List.disjoint_singleton.mpr hc)

section Run

variable {dc' : DriverCalls} {k : Nat} {made block : Call}

theorem thread_set (hd : dc.Distinct) (h : dc.running[k]? = some (made, block)) {next : Call}
    (hrun : dc'.running = dc.running.set k (made, next)) (hret : dc'.returned = dc.returned)
    (m : Call) : dc'.thread m = if m = made then some (some next) else dc.thread m := by
  simp only [thread, hrun, hret, lookup_set_of_nodup hd h m]
  split_ifs <;> rfl

theorem distinct_set (hd : dc.Distinct) (h : dc.running[k]? = some (made, block)) (next : Call) :
    ((dc.running.set k (made, next)).map Prod.fst).Nodup := by
  rw [map_fst_set_of_getElem? h]
  exact hd

theorem thread_eraseIdx (hd : dc.Distinct) (h : dc.running[k]? = some (made, block))
    (hrun : dc'.running = dc.running.eraseIdx k) (hret : dc'.returned = dc.returned ++ [made])
    (m : Call) : dc'.thread m = if m = made then some none else dc.thread m := by
  simp only [thread, hrun, hret, lookup_eraseIdx_of_nodup hd h m]
  by_cases hm : m = made
  · simp [hm]
  · simp only [hm, if_false, List.mem_append, List.mem_singleton, or_false]

theorem distinct_eraseIdx (hd : dc.Distinct) (k : Nat) :
    ((dc.running.eraseIdx k).map Prod.fst).Nodup := by
  have hsub : ((dc.running.eraseIdx k).map Prod.fst).Sublist (dc.running.map Prod.fst) :=
    (List.eraseIdx_sublist dc.running k).map Prod.fst
  exact hd.sublist hsub

end Run

section Step

variable {ndebug : Bool} {applyStatus : Status} {k : Nat} {made block : Call}
  {d : OperationDriver} {eff : List DriverEffect}

theorem step_run_some (h : dc.running[k]? = some (made, block)) {next : Call}
    (hb : block.step ndebug applyStatus dc.driver = some (d, eff, some next)) :
    dc.step ndebug applyStatus (.run k) =
      some ({ dc with
        driver := d, effects := dc.effects ++ eff, running := dc.running.set k (made, next) },
        eff) := by
  simp [step, h, hb]

theorem step_run_none (h : dc.running[k]? = some (made, block))
    (hb : block.step ndebug applyStatus dc.driver = some (d, eff, none)) :
    dc.step ndebug applyStatus (.run k) =
      some ({ dc with
        driver := d, effects := dc.effects ++ eff, running := dc.running.eraseIdx k,
        returned := dc.returned ++ [made] }, eff) := by
  simp [step, h, hb]

theorem step_run_eq_some {dc' : DriverCalls} (h : dc.step ndebug applyStatus (.run k) = some (dc', eff)) :
    ∃ made block next, dc.running[k]? = some (made, block) ∧
      block.step ndebug applyStatus dc.driver = some (dc'.driver, eff, next) ∧
      dc'.effects = dc.effects ++ eff ∧
      (∀ b, next = some b → dc'.running = dc.running.set k (made, b) ∧
        dc'.returned = dc.returned) ∧
      (next = none → dc'.running = dc.running.eraseIdx k ∧
        dc'.returned = dc.returned ++ [made]) := by
  obtain ⟨⟨made, block⟩, hk⟩ : ∃ entry, dc.running[k]? = some entry := by
    cases hk : dc.running[k]? with
    | none => simp [step, hk] at h
    | some entry => exact ⟨entry, rfl⟩
  obtain ⟨⟨d', eff', next⟩, hb⟩ : ∃ result, block.step ndebug applyStatus dc.driver = some result := by
    cases hb : block.step ndebug applyStatus dc.driver with
    | none => simp [step, hk, hb] at h
    | some result => exact ⟨result, rfl⟩
  refine ⟨made, block, next, hk, ?_⟩
  cases next with
  | some b =>
    rw [step_run_some hk hb, Option.some.injEq, Prod.mk.injEq] at h
    obtain ⟨rfl, rfl⟩ := h
    exact ⟨hb, rfl, fun b' hb' => by cases hb'; exact ⟨rfl, rfl⟩, fun h => (nomatch h)⟩
  | none =>
    rw [step_run_none hk hb, Option.some.injEq, Prod.mk.injEq] at h
    obtain ⟨rfl, rfl⟩ := h
    exact ⟨hb, rfl, fun b' hb' => (nomatch hb'), fun _ => ⟨rfl, rfl⟩⟩

end Step

/-- The calls of `dc` stand as `view` says, with the driver and the requests given. -/
structure Realizes (view : Call → Option (Option Call)) (driver : OperationDriver)
    (effects : List DriverEffect) (dc : DriverCalls) : Prop where
  distinct : dc.Distinct
  thread_eq : ∀ m, dc.thread m = view m
  driver_eq : dc.driver = driver
  effects_eq : dc.effects = effects

namespace Realizes

variable {view view' : Call → Option (Option Call)} {driver driver' : OperationDriver}
  {effects effects' : List DriverEffect}

theorem call (h : Realizes view driver effects dc) {c : Call} (hc : view c = none)
    (hview : ∀ m, view' m = if m = c then some (some c) else view m) :
    Realizes view' driver effects { dc with running := dc.running ++ [(c, c)] } where
  distinct := dc.distinct_call h.distinct (by rw [h.thread_eq]; exact hc)
  thread_eq m := by
    have hc' : dc.thread c = none := by rw [h.thread_eq]; exact hc
    refine Eq.trans (thread_call hc' (by rfl) (by rfl) m) ?_
    rw [hview, h.thread_eq]
  driver_eq := h.driver_eq
  effects_eq := h.effects_eq

theorem run (h : Realizes view driver effects dc) {ndebug : Bool} {applyStatus : Status}
    {k : Nat} {made block : Call} (hk : dc.running[k]? = some (made, block))
    {eff : List DriverEffect} {next : Option Call}
    (hb : block.step ndebug applyStatus driver = some (driver', eff, next))
    (hview : ∀ m, view' m = if m = made then some next else view m)
    (heff : effects' = effects ++ eff) :
    ∃ dc', dc.step ndebug applyStatus (.run k) = some (dc', eff) ∧
      Realizes view' driver' effects' dc' := by
  rw [← h.driver_eq] at hb
  cases next with
  | some next =>
    refine ⟨_, step_run_some hk hb, distinct_set h.distinct hk next, fun m => ?_, rfl, ?_⟩
    · refine Eq.trans (thread_set h.distinct hk (by rfl) (by rfl) m) ?_
      rw [hview, h.thread_eq]
    · rw [heff, h.effects_eq]
  | none =>
    refine ⟨_, step_run_none hk hb, distinct_eraseIdx h.distinct k, fun m => ?_, rfl, ?_⟩
    · refine Eq.trans (thread_eraseIdx h.distinct hk (by rfl) (by rfl) m) ?_
      rw [hview, h.thread_eq]
    · rw [heff, h.effects_eq]

end Realizes

end DriverCalls

/-! ## What an operation's end asks for -/

@[simp] theorem ok_OK : Status.OK.ok = true := rfl

/-- What `Finalize` asks for after `Apply`. -/
def finalized : List DriverEffect :=
  [.apply, .finish .COMMITTED, .completeWithStatus Status.OK, .release]

/-- What the end of `HandleFailure` asks for. -/
def aborted (s : Status) : List DriverEffect := [.finish .ABORTED, .completeWithStatus s, .release]

/-- How the operation ends once replication finished with `r`. -/
def outcome (r : Status) : List DriverEffect := if r.ok then finalized else aborted r

/-- The whole of what an operation's driver may ask for: `Start`, then `Apply` with `Finalize`;
or `Finish(ABORTED)` with a failed status, after `Start` or without it. -/
def Course (requests : List DriverEffect) : Prop :=
  requests = .start :: finalized ∨
    ∃ s : Status, s.ok = false ∧ (requests = aborted s ∨ requests = .start :: aborted s)

theorem course_outcome (r : Status) : Course (.start :: outcome r) := by
  cases hr : r.ok
  · exact .inr ⟨r, hr, .inr (by simp [outcome, hr])⟩
  · exact .inl (by simp [outcome, hr])

theorem Call.eq_applyTask_of_apply_mem {ndebug : Bool} {applyStatus : Status}
    {d d' : OperationDriver} {block : Call} {eff : List DriverEffect} {next : Option Call}
    (h : block.step ndebug applyStatus d = some (d', eff, next)) (ha : .apply ∈ eff) :
    block = .applyTask := by
  cases block
  case applyTask => rfl
  all_goals
    simp only [Call.step, startOperation] at h
    repeat' split at h
    all_goals simp only [Option.some.injEq, Prod.mk.injEq, reduceCtorEq] at h
    all_goals
      obtain ⟨-, rfl, -⟩ := h
      simp at ha

/-! ## Resolving the operation -/

/-- Where the call that saw both halves done stands: in `ApplyOperation`, in `ApplyTask`, or in the
`HandleFailure` that aborts the operation. -/
inductive ResolveAt
  | applyOperation
  | applyTask
  | handleFailure
  | handleFailureAbort
  deriving DecidableEq

namespace ResolveAt

/-- The block run there, after a replication that finished with `r`. -/
def block (r : Status) : ResolveAt → Call
  | applyOperation => .applyOperation
  | applyTask => .applyTask
  | handleFailure => .handleFailure Status.OK
  | handleFailureAbort => .handleFailureAbort r

/-- Where the call goes next; `none` once it returns. -/
def next (r : Status) : ResolveAt → Option ResolveAt
  | applyOperation => some (if r.ok then applyTask else handleFailure)
  | applyTask => none
  | handleFailure => some handleFailureAbort
  | handleFailureAbort => none

/-- The positions on the path that `r` takes. -/
def Valid (r : Status) : ResolveAt → Prop
  | applyOperation => True
  | applyTask => r.ok
  | handleFailure | handleFailureAbort => r.ok = false

-- Equation lemmas, made once before their uses.
section
attribute [local simp] block Valid
end

theorem next_valid {r : Status} {o o' : ResolveAt} (ho : o.Valid r) (h : o.next r = some o') :
    o'.Valid r := by
  cases o <;> simp only [next, Option.some.injEq, reduceCtorEq] at h
  · cases hr : r.ok <;> simp [hr] at h <;> subst h <;> simp [Valid, hr]
  · subst h
    exact ho

end ResolveAt

/-- The driver once both halves are done, replication with `r`. -/
def resolvedDriver (r : Status) : OperationDriver where
  replicationState := if r.ok then .REPLICATED else .REPLICATION_FAILED
  prepareState := .PREPARED
  operationStatus := if r.ok then Status.OK else r

/-- One block of the resolving call: it reads the driver and leaves it, and asks for the outcome
as it returns. -/
theorem step_resolve {ndebug : Bool} {applyStatus : Status} (happly : applyStatus.ok)
    {r : Status} {o : ResolveAt} (ho : o.Valid r) :
    (o.block r).step ndebug applyStatus (resolvedDriver r) =
      some (resolvedDriver r, if o.next r = none then outcome r else [],
        (o.next r).map (ResolveAt.block r)) := by
  cases o with
  | applyOperation =>
    cases hr : r.ok <;>
      simp [ResolveAt.block, ResolveAt.next, Call.step, resolvedDriver, hr]
  | applyTask =>
    simp only [ResolveAt.Valid] at ho
    simp [ResolveAt.block, ResolveAt.next, Call.step, resolvedDriver, outcome, finalized, ho,
      happly]
  | handleFailure =>
    simp only [ResolveAt.Valid] at ho
    simp [ResolveAt.block, ResolveAt.next, Call.step, resolvedDriver, ho]
  | handleFailureAbort =>
    simp only [ResolveAt.Valid] at ho
    simp [ResolveAt.block, ResolveAt.next, Call.step, resolvedDriver, outcome, aborted, ho]

/-! ## A replica's driver -/

/-- Where a replica's `PrepareAndStart` stands. -/
inductive PrepareAt
  | idle
  | prepare
  | start
  | prepared
  /-- Its second critical section found replication over, so it resolves the operation. -/
  | resolving (o : ResolveAt)
  | returned
  deriving DecidableEq

/-- Where `ReplicationFinished` stands. -/
inductive FinishAt
  | idle
  | finished
  /-- Its critical section found the operation prepared, so it resolves the operation. -/
  | resolving (o : ResolveAt)
  | returned
  deriving DecidableEq

namespace PrepareAt

def view (ps r : Status) : PrepareAt → Option (Option Call)
  | idle => none
  | prepare => some (some (.prepareAndStart ps))
  | start => some (some .prepareAndStartStart)
  | prepared => some (some .prepareAndStartPrepared)
  | resolving o => some (some (o.block r))
  | returned => some none

theorem view_congr {p : PrepareAt} (hp : ∀ o, p ≠ .resolving o) (ps r r' : Status) :
    p.view ps r = p.view ps r' := by
  cases p with
  | resolving o => exact absurd rfl (hp o)
  | _ => rfl

/-- Past the critical section that sets `PREPARED`. -/
def passed : PrepareAt → Bool
  | resolving _ | returned => true
  | _ => false

/-- Past `StartOperation`. -/
def started : PrepareAt → Bool
  | idle | prepare | start => false
  | _ => true

end PrepareAt

namespace FinishAt

def view (r : Status) : FinishAt → Option (Option Call)
  | idle => none
  | finished => some (some (.replicationFinished r))
  | resolving o => some (some (o.block r))
  | returned => some none

/-- Past the critical section that ends `REPLICATING`. -/
def passed : FinishAt → Bool
  | resolving _ | returned => true
  | _ => false

end FinishAt

/-- Where a resolving call goes next. -/
def ResolveAt.after (r : Status) (o : ResolveAt) : Option (Option Call) :=
  some ((o.next r).map (ResolveAt.block r))

/-- The calls of a replica's driver. -/
structure ReplicaPhase where
  prepare : PrepareAt
  finish : FinishAt
  deriving DecidableEq

namespace ReplicaPhase

/-- Where each call stands, `PrepareAndStart` made with `ps` and `ReplicationFinished` with `r`. -/
def view (ps r : Status) (a : ReplicaPhase) (m : Call) : Option (Option Call) :=
  if m = .prepareAndStart ps then a.prepare.view ps r
  else if m = .replicationFinished r then a.finish.view r
  else none

def driver (r : Status) (a : ReplicaPhase) : OperationDriver where
  replicationState :=
    if a.finish.passed then (if r.ok then .REPLICATED else .REPLICATION_FAILED) else .REPLICATING
  prepareState := if a.prepare.passed then .PREPARED else .NOT_PREPARED
  operationStatus := if a.finish.passed && !r.ok then r else Status.OK

/-- `Start` once `PrepareAndStart` is past it, and the outcome once both calls returned. -/
def effects (r : Status) (a : ReplicaPhase) : List DriverEffect :=
  (if a.prepare.started then [.start] else []) ++
    if a.prepare = .returned ∧ a.finish = .returned then outcome r else []

-- Equation lemmas, made once before their uses.
section
attribute [local simp] PrepareAt.view PrepareAt.started FinishAt.view view driver effects
end

/-- The call that resolves saw the other one past its critical section: it returned. -/
structure Valid (r : Status) (a : ReplicaPhase) : Prop where
  prepare_resolving : ∀ o, a.prepare = .resolving o → a.finish = .returned ∧ o.Valid r
  finish_resolving : ∀ o, a.finish = .resolving o → a.prepare = .returned ∧ o.Valid r

theorem driver_of_passed {r : Status} {a : ReplicaPhase} (hp : a.prepare.passed)
    (hf : a.finish.passed) : a.driver r = resolvedDriver r := by
  cases hr : r.ok <;> simp [driver, resolvedDriver, hp, hf, hr]

theorem view_prepare {ps r : Status} (a : ReplicaPhase) (p : PrepareAt) (m : Call) :
    { a with prepare := p }.view ps r m =
      if m = .prepareAndStart ps then p.view ps r else a.view ps r m := by
  unfold view
  split_ifs <;> rfl

theorem view_finish {ps r : Status} (a : ReplicaPhase) (f : FinishAt) (m : Call) :
    { a with finish := f }.view ps r m =
      if m = .replicationFinished r then f.view r else a.view ps r m := by
  unfold view
  split_ifs with h1 h2 <;> first | rfl | (subst h1; simp at h2)

end ReplicaPhase

namespace ReplicaPhase

variable {ndebug : Bool} {applyStatus : Status} {ps r : Status} {a : ReplicaPhase}

theorem Valid.with_prepare (hv : a.Valid r) (hp : a.prepare ≠ .returned) {p : PrepareAt}
    (hp' : ∀ o, p ≠ .resolving o) : { a with prepare := p }.Valid r where
  prepare_resolving o h := absurd h (hp' o)
  finish_resolving o h := absurd (hv.finish_resolving o h).1 hp

theorem Valid.with_finish (hv : a.Valid r) (hf : a.finish ≠ .returned) {f : FinishAt}
    (hf' : ∀ o, f ≠ .resolving o) : { a with finish := f }.Valid r where
  prepare_resolving o h := absurd (hv.prepare_resolving o h).1 hf
  finish_resolving o h := absurd h (hf' o)

theorem step_prepare (happly : applyStatus.ok) (hps : ps.ok) (hv : a.Valid r) {block : Call}
    (hb : a.prepare.view ps r = some (some block)) :
    ∃ p eff next, block.step ndebug applyStatus (a.driver r) =
        some ({ a with prepare := p }.driver r, eff, next) ∧
      p.view ps r = some next ∧ { a with prepare := p }.effects r = a.effects r ++ eff ∧
      { a with prepare := p }.Valid r := by
  cases hp : a.prepare with
  | idle => simp [hp, PrepareAt.view] at hb
  | prepare =>
    simp only [hp, PrepareAt.view, Option.some.injEq] at hb
    subst hb
    refine ⟨.start, [], some .prepareAndStartStart, ?_, rfl, ?_, hv.with_prepare (by simp [hp])
      (by simp)⟩
    · simp only [Call.step, driver, hp, hps, PrepareAt.passed]
      split_ifs <;> simp_all
    · simp [effects, hp, PrepareAt.started]
  | start =>
    simp only [hp, PrepareAt.view, Option.some.injEq] at hb
    subst hb
    refine ⟨.prepared, [.start], some .prepareAndStartPrepared, ?_, rfl, ?_,
      hv.with_prepare (by simp [hp]) (by simp)⟩
    · simp [Call.step, startOperation, driver, hp, PrepareAt.passed]
    · simp [effects, hp, PrepareAt.started]
  | prepared =>
    simp only [hp, PrepareAt.view, Option.some.injEq] at hb
    subst hb
    by_cases hf : a.finish.passed
    · -- replication is over: `ReplicationFinished` returned, and this call resolves
      have hret : a.finish = .returned := by
        cases hfa : a.finish with
        | resolving o => simp [(hv.finish_resolving o hfa).1] at hp
        | returned => rfl
        | _ => simp [hfa, FinishAt.passed] at hf
      refine ⟨.resolving .applyOperation, [], some .applyOperation, ?_, rfl, ?_,
        ⟨fun o h => ?_, fun o h => by simp [hret] at h⟩⟩
      · cases hr : r.ok <;> simp [Call.step, driver, hp, hf, hr, PrepareAt.passed]
      · simp [effects, hp, PrepareAt.started]
      · cases h
        exact ⟨hret, trivial⟩
    · refine ⟨.returned, [], none, ?_, rfl, ?_, hv.with_prepare (by simp [hp]) (by simp)⟩
      · simp [Call.step, driver, hp, hf, PrepareAt.passed]
      · have hne : a.finish ≠ .returned := fun h => by simp [h, FinishAt.passed] at hf
        simp [effects, hp, hne, PrepareAt.started]
  | resolving o =>
    simp only [hp, PrepareAt.view, Option.some.injEq] at hb
    subst hb
    obtain ⟨hret, ho⟩ := hv.prepare_resolving o hp
    have hd : a.driver r = resolvedDriver r :=
      driver_of_passed (by simp [hp, PrepareAt.passed]) (by simp [hret, FinishAt.passed])
    cases hn : o.next r with
    | none =>
      refine ⟨.returned, outcome r, none, ?_, by simp [PrepareAt.view], ?_,
        ⟨fun o' h => by simp at h, fun o' h => by simp [hret] at h⟩⟩
      · rw [hd, step_resolve happly ho, hn]
        simp [driver_of_passed (r := r) (a := { a with prepare := .returned }) rfl
          (by simp [hret, FinishAt.passed])]
      · simp [effects, hp, hret, PrepareAt.started]
    | some o' =>
      refine ⟨.resolving o', [], some (o'.block r), ?_, rfl, ?_,
        ⟨fun o'' h => ?_, fun o'' h => by simp [hret] at h⟩⟩
      · rw [hd, step_resolve happly ho, hn]
        simp [driver_of_passed (r := r) (a := { a with prepare := .resolving o' }) rfl
          (by simp [hret, FinishAt.passed])]
      · simp [effects, hp, PrepareAt.started]
      · cases h
        exact ⟨hret, ResolveAt.next_valid ho hn⟩
  | returned => simp [hp, PrepareAt.view] at hb

theorem step_finish (happly : applyStatus.ok) (hv : a.Valid r) {block : Call}
    (hb : a.finish.view r = some (some block)) :
    ∃ f eff next, block.step ndebug applyStatus (a.driver r) =
        some ({ a with finish := f }.driver r, eff, next) ∧
      f.view r = some next ∧ { a with finish := f }.effects r = a.effects r ++ eff ∧
      { a with finish := f }.Valid r := by
  cases hf : a.finish with
  | idle => simp [hf, FinishAt.view] at hb
  | finished =>
    simp only [hf, FinishAt.view, Option.some.injEq] at hb
    subst hb
    by_cases hp : a.prepare.passed
    · -- `PrepareAndStart` set `PREPARED` and returned: this call resolves
      have hret : a.prepare = .returned := by
        cases hpa : a.prepare with
        | resolving o => simp [(hv.prepare_resolving o hpa).1] at hf
        | returned => rfl
        | _ => simp [hpa, PrepareAt.passed] at hp
      refine ⟨.resolving .applyOperation, [], some .applyOperation, ?_, rfl, ?_,
        ⟨fun o h => by simp [hret] at h, fun o h => ?_⟩⟩
      · cases hr : r.ok <;> simp [Call.step, driver, hp, hf, hr, FinishAt.passed]
      · simp [effects, hf]
      · cases h
        exact ⟨hret, trivial⟩
    · refine ⟨.returned, [], none, ?_, rfl, ?_, hv.with_finish (by simp [hf]) (by simp)⟩
      · cases hr : r.ok <;> simp [Call.step, driver, hp, hf, hr, FinishAt.passed]
      · have hne : a.prepare ≠ .returned := fun h => by simp [h, PrepareAt.passed] at hp
        simp [effects, hf, hne]
  | resolving o =>
    simp only [hf, FinishAt.view, Option.some.injEq] at hb
    subst hb
    obtain ⟨hret, ho⟩ := hv.finish_resolving o hf
    have hd : a.driver r = resolvedDriver r :=
      driver_of_passed (by simp [hret, PrepareAt.passed]) (by simp [hf, FinishAt.passed])
    cases hn : o.next r with
    | none =>
      refine ⟨.returned, outcome r, none, ?_, by simp [FinishAt.view], ?_,
        ⟨fun o' h => by simp [hret] at h, fun o' h => by simp at h⟩⟩
      · rw [hd, step_resolve happly ho, hn]
        simp [driver_of_passed (r := r) (a := { a with finish := .returned })
          (by simp [hret, PrepareAt.passed]) rfl]
      · simp [effects, hf, hret, PrepareAt.started]
    | some o' =>
      refine ⟨.resolving o', [], some (o'.block r), ?_, rfl, ?_,
        ⟨fun o'' h => by simp [hret] at h, fun o'' h => ?_⟩⟩
      · rw [hd, step_resolve happly ho, hn]
        simp [driver_of_passed (r := r) (a := { a with finish := .resolving o' })
          (by simp [hret, PrepareAt.passed]) rfl]
      · simp [effects, hf]
      · cases h
        exact ⟨hret, ResolveAt.next_valid ho hn⟩
  | returned => simp [hf, FinishAt.view] at hb

end ReplicaPhase

/-! ## A leader's driver -/

/-- Where a call that aborts the operation stands once it reached `HandleFailure`. -/
inductive AbortAt
  | handleFailure
  | handleFailureAbort
  | returned
  deriving DecidableEq

/-- The position, for a `HandleFailure` block `first` that aborts with `s`. -/
def AbortAt.view (first : Call) (s : Status) : AbortAt → Option (Option Call)
  | handleFailure => some (some first)
  | handleFailureAbort => some (some (.handleFailureAbort s))
  | returned => some none

/-- Where a leader's `PrepareAndStart` stands, of an operation that prepared. -/
inductive PreparingAt
  | prepare
  | prepared
  | replicate
  deriving DecidableEq

def PreparingAt.block (ps : Status) : PreparingAt → Call
  | prepare => .prepareAndStart ps
  | prepared => .prepareAndStartPrepared
  | replicate => .prepareAndStartReplicating

/-- Where `HandleConsensusAppend` stands. -/
inductive AppendAt
  | idle
  | running
  | returned
  deriving DecidableEq

def AppendAt.view : AppendAt → Option (Option Call)
  | idle => none
  | running => some (some .handleConsensusAppend)
  | returned => some none

/-- The calls of a leader's driver, which follow one another. -/
inductive LeaderPhase
  | idle
  /-- `HandleFailure(s)` after `Submit` failed. -/
  | submitFailed (o : AbortAt)
  /-- `PrepareAndStart` whose `Prepare` failed: its first block, then the `HandleFailure` its
  caller makes. -/
  | prepareFailed (o : Option AbortAt)
  | preparing (o : PreparingAt)
  /-- `PrepareAndStart` returned; `HandleConsensusAppend` from `ReplicateBatch`. -/
  | replicating (o : AppendAt)
  /-- `HandleConsensusAppend` returned, then `ReplicationFinished`. -/
  | finishing (o : FinishAt)
  /-- `ReplicationFailed`: its critical section, then its `HandleFailure`; `appended` when
  `HandleConsensusAppend` ran before. -/
  | failing (appended : Bool) (o : Option AbortAt)
  deriving DecidableEq

namespace LeaderPhase

/-- Where each call stands: `PrepareAndStart` made with `ps`, `HandleFailure` after `Submit` or
`ReplicationFailed` with `s`, and `ReplicationFinished` with `r`. -/
def view (ps s r : Status) : LeaderPhase → Call → Option (Option Call)
  | idle, _ => none
  | submitFailed o, m => if m = .handleFailure s then o.view (.handleFailure s) s else none
  | prepareFailed o, m =>
    if m = .prepareAndStart ps then
      match o with
      | none => some (some (.prepareAndStart ps))
      | some o => o.view (.handleFailure ps) ps
    else none
  | preparing o, m => if m = .prepareAndStart ps then some (some (o.block ps)) else none
  | replicating o, m =>
    if m = .prepareAndStart ps then some none
    else if m = .handleConsensusAppend then o.view
    else none
  | finishing o, m =>
    if m = .prepareAndStart ps then some none
    else if m = .handleConsensusAppend then some none
    else if m = .replicationFinished r then o.view r
    else none
  | failing appended o, m =>
    if m = .prepareAndStart ps then some none
    else if m = .handleConsensusAppend then (if appended then some none else none)
    else if m = .replicationFailed s then
      match o with
      | none => some (some (.replicationFailed s))
      | some o => o.view (.handleFailure Status.OK) s
    else none

def driver (ps s r : Status) : LeaderPhase → OperationDriver
  | submitFailed .handleFailureAbort | submitFailed .returned => { operationStatus := s }
  | prepareFailed (some .handleFailureAbort) | prepareFailed (some .returned) =>
    { operationStatus := ps }
  | preparing .replicate => { prepareState := .PREPARED }
  | replicating _ | finishing .idle | finishing .finished | failing _ none =>
    { prepareState := .PREPARED, replicationState := .REPLICATING }
  | finishing _ => resolvedDriver r
  | failing _ (some _) =>
    { prepareState := .PREPARED, replicationState := .REPLICATION_FAILED, operationStatus := s }
  | _ => {}

def effects (ps s r : Status) : LeaderPhase → List DriverEffect
  | submitFailed .returned => aborted s
  | prepareFailed (some .returned) => aborted ps
  | replicating .returned => [.start]
  | finishing o => .start :: if o = .returned then outcome r else []
  | failing appended o =>
    (if appended then [.start] else []) ++ if o = some .returned then aborted s else []
  | _ => []

/-- The statuses each phase was reached with. -/
def Valid (ps s r : Status) : LeaderPhase → Prop
  | idle => True
  | submitFailed _ => s.ok = false
  | prepareFailed _ => ps.ok = false
  | preparing _ | replicating _ => ps.ok
  | finishing o => ps.ok ∧ o ≠ .idle ∧ ∀ x, o = .resolving x → x.Valid r
  | failing _ _ => ps.ok ∧ s.ok = false

-- Equation lemmas, made once before their uses.
section
attribute [local simp] AbortAt.view PreparingAt.block AppendAt.view aborted view driver effects
  Valid
end

end LeaderPhase

section Abort

variable {ndebug : Bool} {applyStatus : Status}

/-- `HandleFailure` with a failed status, or given `OK` after the driver took one, aborts an
operation not replicating or whose replication failed. -/
theorem step_handleFailure {d : OperationDriver} {x s : Status} (hs : s.ok = false)
    (hx : (x = s ∧ d.operationStatus.ok) ∨ (x.ok ∧ d.operationStatus = s))
    (hrepl : d.replicationState = .NOT_REPLICATING ∨
      d.replicationState = .REPLICATION_FAILED) :
    (Call.handleFailure x).step ndebug applyStatus d =
      some ({ d with operationStatus := s }, [], some (.handleFailureAbort s)) := by
  rcases hx with ⟨rfl, hd⟩ | ⟨hx, hd⟩
  · rcases hrepl with hrepl | hrepl <;> simp [Call.step, hs, hd, hrepl]
  · have hself : { d with operationStatus := s } = d := by rw [← hd]
    rw [hself]
    rcases hrepl with hrepl | hrepl <;> simp [Call.step, hs, hx, hd, hrepl]

theorem step_handleFailureAbort {d : OperationDriver} (hop : d.hasOperation) (s : Status) :
    (Call.handleFailureAbort s).step ndebug applyStatus d = some (d, aborted s, none) := by
  simp [Call.step, hop, aborted]

end Abort

namespace LeaderPhase

/-- What one block of the call `made` does from phase `a`: it leaves the driver of phase `a'`,
asks for `eff`, and moves that call alone. -/
structure Moves (ndebug : Bool) (applyStatus ps s r : Status) (a : LeaderPhase) (made block : Call)
    (a' : LeaderPhase) (eff : List DriverEffect) (next : Option Call) : Prop where
  step_eq : block.step ndebug applyStatus (a.driver ps s r) = some (a'.driver ps s r, eff, next)
  view_eq : ∀ m, a'.view ps s r m = if m = made then some next else a.view ps s r m
  effects_eq : a'.effects ps s r = a.effects ps s r ++ eff
  valid : a'.Valid ps s r

variable {ndebug : Bool} {applyStatus ps s r : Status} {made block : Call}

theorem step_submitFailed {o : AbortAt} (hv : (submitFailed o).Valid ps s r)
    (hm : (submitFailed o).view ps s r made = some (some block)) :
    ∃ a' eff next, (submitFailed o).Moves ndebug applyStatus ps s r made block a' eff next := by
  simp only [view] at hm
  split_ifs at hm with hmade
  subst hmade
  cases o with
  | handleFailure =>
    simp only [AbortAt.view, Option.some.injEq] at hm
    subst hm
    refine ⟨submitFailed .handleFailureAbort, [], some (.handleFailureAbort s),
      ⟨step_handleFailure hv (.inl ⟨rfl, ok_OK⟩) (.inl rfl), fun m => ?_, rfl, hv⟩⟩
    by_cases h : m = .handleFailure s <;> simp [view, AbortAt.view, h]
  | handleFailureAbort =>
    simp only [AbortAt.view, Option.some.injEq] at hm
    subst hm
    refine ⟨submitFailed .returned, aborted s, none,
      ⟨step_handleFailureAbort rfl s, fun m => ?_, rfl, hv⟩⟩
    by_cases h : m = .handleFailure s <;> simp [view, AbortAt.view, h]
  | returned => simp [AbortAt.view] at hm

theorem step_prepareFailed {o : Option AbortAt} (hv : (prepareFailed o).Valid ps s r)
    (hm : (prepareFailed o).view ps s r made = some (some block)) :
    ∃ a' eff next, (prepareFailed o).Moves ndebug applyStatus ps s r made block a' eff next := by
  simp only [view] at hm
  split_ifs at hm with hmade
  subst hmade
  have hview : ∀ (o' : Option AbortAt) (next : Option Call), (match o' with
      | none => some (some (Call.prepareAndStart ps))
      | some o => o.view (.handleFailure ps) ps) = some next → ∀ m,
      (prepareFailed o').view ps s r m =
        if m = .prepareAndStart ps then some next else (prepareFailed o).view ps s r m := by
    intro o' next h m
    by_cases hm : m = .prepareAndStart ps <;> simp [view, hm, h]
  cases o with
  | none =>
    simp only [Option.some.injEq] at hm
    subst hm
    refine ⟨prepareFailed (some .handleFailure), [], some (.handleFailure ps),
      ⟨?_, hview _ _ rfl, rfl, hv⟩⟩
    simp only [Valid] at hv
    simp [Call.step, driver, hv]
  | some o =>
    cases o with
    | handleFailure =>
      simp only [AbortAt.view, Option.some.injEq] at hm
      subst hm
      exact ⟨prepareFailed (some .handleFailureAbort), [], some (.handleFailureAbort ps),
        ⟨step_handleFailure hv (.inl ⟨rfl, ok_OK⟩) (.inl rfl), hview _ _ rfl, rfl, hv⟩⟩
    | handleFailureAbort =>
      simp only [AbortAt.view, Option.some.injEq] at hm
      subst hm
      exact ⟨prepareFailed (some .returned), aborted ps, none,
        ⟨step_handleFailureAbort rfl ps, hview _ _ rfl, rfl, hv⟩⟩
    | returned => simp [AbortAt.view] at hm

theorem step_preparing {o : PreparingAt} (hv : (preparing o).Valid ps s r)
    (hm : (preparing o).view ps s r made = some (some block)) :
    ∃ a' eff next, (preparing o).Moves ndebug applyStatus ps s r made block a' eff next := by
  simp only [view] at hm
  split_ifs at hm with hmade
  subst hmade
  simp only [Option.some.injEq] at hm
  subst hm
  simp only [Valid] at hv
  cases o with
  | prepare =>
    refine ⟨preparing .prepared, [], some .prepareAndStartPrepared, ⟨?_, fun m => ?_, rfl, hv⟩⟩
    · simp [Call.step, PreparingAt.block, driver, hv]
    · by_cases hm : m = .prepareAndStart ps <;> simp [view, hm, PreparingAt.block]
  | prepared =>
    refine ⟨preparing .replicate, [], some .prepareAndStartReplicating, ⟨?_, fun m => ?_, rfl, hv⟩⟩
    · simp [Call.step, PreparingAt.block, driver]
    · by_cases hm : m = .prepareAndStart ps <;> simp [view, hm, PreparingAt.block]
  | replicate =>
    refine ⟨replicating .idle, [], none, ⟨?_, fun m => ?_, rfl, hv⟩⟩
    · simp [Call.step, PreparingAt.block, driver]
    · by_cases hm : m = .prepareAndStart ps <;> simp [view, hm, AppendAt.view]

theorem step_replicating {o : AppendAt} (hv : (replicating o).Valid ps s r)
    (hm : (replicating o).view ps s r made = some (some block)) :
    ∃ a' eff next, (replicating o).Moves ndebug applyStatus ps s r made block a' eff next := by
  simp only [view] at hm
  split_ifs at hm with hps hhca
  · simp at hm
  subst hhca
  cases o with
  | running =>
    simp only [AppendAt.view, Option.some.injEq] at hm
    subst hm
    refine ⟨replicating .returned, [.start], none, ⟨?_, fun m => ?_, rfl, hv⟩⟩
    · simp [Call.step, startOperation, driver]
    · by_cases hm : m = .handleConsensusAppend <;> simp [view, hm, AppendAt.view]
  | idle | returned => simp [AppendAt.view] at hm

theorem step_finishing (happly : applyStatus.ok) {o : FinishAt}
    (hv : (finishing o).Valid ps s r)
    (hm : (finishing o).view ps s r made = some (some block)) :
    ∃ a' eff next, (finishing o).Moves ndebug applyStatus ps s r made block a' eff next := by
  obtain ⟨hps, hidle, hres⟩ := hv
  simp only [view] at hm
  split_ifs at hm with h1 h2 h3
  · simp at hm
  · simp at hm
  subst h3
  have hview : ∀ (f : FinishAt) (next : Option Call), f.view r = some next → ∀ m,
      (finishing f).view ps s r m =
        if m = .replicationFinished r then some next else (finishing o).view ps s r m := by
    intro f next h m
    by_cases hm : m = .replicationFinished r <;> simp [view, hm, h]
  cases o with
  | finished =>
    simp only [FinishAt.view, Option.some.injEq] at hm
    subst hm
    refine ⟨finishing (.resolving .applyOperation), [], some .applyOperation,
      ⟨?_, hview _ _ rfl, rfl, hps, by simp, fun x hx => by cases hx; trivial⟩⟩
    cases hr : r.ok <;> simp [Call.step, driver, resolvedDriver, hr]
  | resolving x =>
    simp only [FinishAt.view, Option.some.injEq] at hm
    subst hm
    have hx := hres x rfl
    cases hn : x.next r with
    | none =>
      refine ⟨finishing .returned, outcome r, none,
        ⟨?_, hview _ _ rfl, by simp [effects], hps, by simp, fun x hx => by cases hx⟩⟩
      simp only [driver]
      rw [step_resolve happly hx, hn]
      simp
    | some x' =>
      refine ⟨finishing (.resolving x'), [], some (x'.block r),
        ⟨?_, hview _ _ rfl, by simp [effects], hps, by simp,
          fun y hy => by cases hy; exact ResolveAt.next_valid hx hn⟩⟩
      simp only [driver]
      rw [step_resolve happly hx, hn]
      simp
  | idle | returned => simp [FinishAt.view] at hm

theorem step_failing {appended : Bool} {o : Option AbortAt}
    (hv : (failing appended o).Valid ps s r)
    (hm : (failing appended o).view ps s r made = some (some block)) :
    ∃ a' eff next, (failing appended o).Moves ndebug applyStatus ps s r made block a' eff next := by
  obtain ⟨hps, hs⟩ := hv
  simp only [view] at hm
  split_ifs at hm with h1 h2 h3 h4
  · simp at hm
  · simp at hm
  subst h4
  have hview : ∀ (o' : Option AbortAt) (next : Option Call), (match o' with
      | none => some (some (Call.replicationFailed s))
      | some o => o.view (.handleFailure Status.OK) s) = some next → ∀ m,
      (failing appended o').view ps s r m =
        if m = .replicationFailed s then some next else (failing appended o).view ps s r m := by
    intro o' next h m
    by_cases hm : m = .replicationFailed s <;> simp [view, hm, h]
  cases o with
  | none =>
    simp only [Option.some.injEq] at hm
    subst hm
    exact ⟨failing appended (some .handleFailure), [], some (.handleFailure Status.OK),
      ⟨by simp [Call.step, driver], hview _ _ rfl, by simp [effects], hps, hs⟩⟩
  | some o =>
    cases o with
    | handleFailure =>
      simp only [AbortAt.view, Option.some.injEq] at hm
      subst hm
      exact ⟨failing appended (some .handleFailureAbort), [], some (.handleFailureAbort s),
        ⟨step_handleFailure hs (.inr ⟨ok_OK, rfl⟩) (.inr rfl), hview _ _ rfl, by simp [effects],
          hps, hs⟩⟩
    | handleFailureAbort =>
      simp only [AbortAt.view, Option.some.injEq] at hm
      subst hm
      exact ⟨failing appended (some .returned), aborted s, none,
        ⟨step_handleFailureAbort rfl s, hview _ _ rfl, by simp [effects], hps, hs⟩⟩
    | returned => simp [AbortAt.view] at hm

theorem step (happly : applyStatus.ok) {a : LeaderPhase} (hv : a.Valid ps s r)
    (hm : a.view ps s r made = some (some block)) :
    ∃ a' eff next, a.Moves ndebug applyStatus ps s r made block a' eff next := by
  cases a with
  | idle => simp [view] at hm
  | submitFailed o => exact step_submitFailed hv hm
  | prepareFailed o => exact step_prepareFailed hv hm
  | preparing o => exact step_preparing hv hm
  | replicating o => exact step_replicating hv hm
  | finishing o => exact step_finishing happly hv hm
  | failing appended o => exact step_failing hv hm

/-! What the calls made so far say of the phase. -/

theorem eq_idle_of_view {ps s r : Status} {a : LeaderPhase} (h : ∀ m, a.view ps s r m = none) :
    a = idle := by
  cases a with
  | idle => rfl
  | submitFailed o => cases o <;> simpa [view, AbortAt.view] using h (.handleFailure s)
  | prepareFailed o =>
    have h' := h (.prepareAndStart ps)
    rcases o with _ | o
    · simp [view] at h'
    · cases o <;> simp [view, AbortAt.view] at h'
  | preparing o => simpa [view] using h (.prepareAndStart ps)
  | replicating o => simpa [view] using h (.prepareAndStart ps)
  | finishing o => simpa [view] using h (.prepareAndStart ps)
  | failing appended o => simpa [view] using h (.prepareAndStart ps)

/-- With `PrepareAndStart` of a prepared operation returned and replication not ended, the driver
waits for `HandleConsensusAppend` or for the end of replication. -/
theorem eq_replicating {ps s r : Status} {a : LeaderPhase} (hv : a.Valid ps s r)
    (hp : ∃ ps', ps'.ok ∧ a.view ps s r (.prepareAndStart ps') = some none)
    (hf : ∀ r', a.view ps s r (.replicationFinished r') = none)
    (hfailed : ∀ s', a.view ps s r (.replicationFailed s') = none) :
    ∃ o, a = replicating o := by
  obtain ⟨ps', hps', hview⟩ := hp
  cases a with
  | replicating o => exact ⟨o, rfl⟩
  | finishing o =>
    obtain ⟨-, hidle, -⟩ := hv
    have h := hf r
    cases o <;> simp_all [view, FinishAt.view]
  | failing appended o =>
    have h := hfailed s
    rcases o with _ | o
    · simp [view] at h
    · cases o <;> simp [view, AbortAt.view] at h
  | prepareFailed o =>
    simp only [Valid] at hv
    by_cases he : ps' = ps
    · subst he
      simp [hv] at hps'
    · simp [view, he] at hview
  | idle | submitFailed _ | preparing _ => simp [view] at hview

end LeaderPhase

/-! ## The protocol -/

namespace DriverCalls

/-- `PrepareAndStart` of an operation that prepared has returned. -/
def Prepared (dc : DriverCalls) : Prop :=
  ∃ ps, ps.ok ∧ dc.thread (.prepareAndStart ps) = some none

/-- Neither `ReplicationFinished` nor `ReplicationFailed` has been called. -/
def ReplicationOpen (dc : DriverCalls) : Prop :=
  (∀ r, dc.thread (.replicationFinished r) = none) ∧ ∀ s, dc.thread (.replicationFailed s) = none

/-- The calls a replica's driver gets, each once: `PrepareAndStart` from the preparer, of an
operation whose `Prepare` succeeded, and `ReplicationFinished` from consensus. -/
def ReplicaCall (dc : DriverCalls) : Call → Prop
  | .prepareAndStart ps => ps.ok ∧ ∀ ps', dc.thread (.prepareAndStart ps') = none
  | .replicationFinished _ => ∀ r, dc.thread (.replicationFinished r) = none
  | _ => False

/-- The calls a leader's driver gets, one after another: `HandleFailure` after a failed `Submit`,
or `PrepareAndStart`; then `HandleConsensusAppend` and `ReplicationFinished` for a
`ReplicateBatch` that appended the operation, or `ReplicationFailed` for one that failed. -/
def LeaderCall (dc : DriverCalls) : Call → Prop
  | .handleFailure s => s.ok = false ∧ ∀ m, dc.thread m = none
  | .prepareAndStart _ => ∀ m, dc.thread m = none
  | .handleConsensusAppend =>
    dc.Prepared ∧ dc.thread .handleConsensusAppend = none ∧ dc.ReplicationOpen
  | .replicationFinished _ => dc.thread .handleConsensusAppend = some none ∧ dc.ReplicationOpen
  | .replicationFailed s =>
    s.ok = false ∧ dc.Prepared ∧ (∀ b, dc.thread .handleConsensusAppend ≠ some (some b)) ∧
      dc.ReplicationOpen
  | _ => False

/-- What the callers of a replica's (`replica`) or a leader's driver do: make a call the protocol
allows, or run a block of a call in flight. -/
def Allowed (replica : Bool) (dc : DriverCalls) : DriverEvent → Prop
  | .call c => if replica then dc.ReplicaCall c else dc.LeaderCall c
  | .run k => k < dc.running.length

-- Equation lemmas, made once before their uses.
section
attribute [local simp] Allowed
end

/-- A replica's calls stand at a phase of the protocol. -/
def ReplicaInv (dc : DriverCalls) : Prop :=
  ∃ ps r : Status, ∃ a : ReplicaPhase, ps.ok ∧ a.Valid r ∧
    dc.Realizes (a.view ps r) (a.driver r) (a.effects r)

variable {dc : DriverCalls} {ndebug : Bool} {applyStatus : Status}

theorem replicaInv_init : (DriverCalls.mk (OperationDriver.init true true) [] [] []).ReplicaInv := by
  refine ⟨Status.OK, Status.OK, ⟨.idle, .idle⟩, rfl, ⟨fun o h => ?_, fun o h => ?_⟩, ?_⟩
  · simp at h
  · simp at h
  · exact ⟨List.nodup_nil,
      fun m => by simp [thread, ReplicaPhase.view, PrepareAt.view, FinishAt.view], rfl, rfl⟩

theorem ReplicaInv.run (h : dc.ReplicaInv) (happly : applyStatus.ok) {k : Nat} {made block : Call}
    (hk : dc.running[k]? = some (made, block)) :
    ∃ dc' eff, dc.step ndebug applyStatus (.run k) = some (dc', eff) ∧ dc'.ReplicaInv := by
  obtain ⟨ps, r, a, hps, hv, hr⟩ := h
  have hm : a.view ps r made = some (some block) :=
    (hr.thread_eq made).symm.trans (thread_of_getElem? hr.distinct hk)
  unfold ReplicaPhase.view at hm
  split_ifs at hm with hmp hmf
  · subst hmp
    obtain ⟨p, eff, next, hb, hnext, heff, hv'⟩ := ReplicaPhase.step_prepare happly hps hv hm
    have hview : ∀ m, { a with prepare := p }.view ps r m =
        if m = .prepareAndStart ps then some next else a.view ps r m := fun m => by
      rw [ReplicaPhase.view_prepare, hnext]
    obtain ⟨dc', hs, hr'⟩ := hr.run hk hb hview heff
    exact ⟨dc', eff, hs, ps, r, _, hps, hv', hr'⟩
  · subst hmf
    obtain ⟨f, eff, next, hb, hnext, heff, hv'⟩ := ReplicaPhase.step_finish happly hv hm
    have hview : ∀ m, { a with finish := f }.view ps r m =
        if m = .replicationFinished r then some next else a.view ps r m := fun m => by
      rw [ReplicaPhase.view_finish, hnext]
    obtain ⟨dc', hs, hr'⟩ := hr.run hk hb hview heff
    exact ⟨dc', eff, hs, ps, r, _, hps, hv', hr'⟩

theorem ReplicaInv.call (h : dc.ReplicaInv) {c : Call} (hc : dc.ReplicaCall c) :
    ({ dc with running := dc.running ++ [(c, c)] } : DriverCalls).ReplicaInv := by
  obtain ⟨ps, r, a, hps, hv, hr⟩ := h
  cases c
  case prepareAndStart ps' =>
    obtain ⟨hps', hnone⟩ := hc
    have hidle : a.prepare = .idle := by
      have hview := (hr.thread_eq _).symm.trans (hnone ps)
      simp only [ReplicaPhase.view, if_pos] at hview
      cases hp : a.prepare <;> simp_all [PrepareAt.view]
    refine ⟨ps', r, { a with prepare := .prepare }, hps',
      hv.with_prepare (by simp [hidle]) (by simp), ?_⟩
    have hd : ({ a with prepare := .prepare } : ReplicaPhase).driver r = a.driver r := by
      simp [ReplicaPhase.driver, hidle, PrepareAt.passed]
    have he : ({ a with prepare := .prepare } : ReplicaPhase).effects r = a.effects r := by
      simp [ReplicaPhase.effects, hidle, PrepareAt.started]
    rw [hd, he]
    refine hr.call (by simp [ReplicaPhase.view, hidle, PrepareAt.view]) fun m => ?_
    simp only [ReplicaPhase.view, hidle, PrepareAt.view]
    split_ifs <;> simp_all
  case replicationFinished r' =>
    have hidle : a.finish = .idle := by
      have hview := (hr.thread_eq _).symm.trans (hc r)
      simp only [ReplicaPhase.view, reduceCtorEq, if_false, if_true] at hview
      cases hf : a.finish <;> simp_all [FinishAt.view]
    have hnot : ∀ o, a.prepare ≠ .resolving o := fun o hp => by
      simp [(hv.prepare_resolving o hp).1] at hidle
    refine ⟨ps, r', { a with finish := .finished }, hps,
      ⟨fun o hp => absurd hp (hnot o), fun o hf => by simp at hf⟩, ?_⟩
    have hd : ({ a with finish := .finished } : ReplicaPhase).driver r' = a.driver r := by
      simp [ReplicaPhase.driver, hidle, FinishAt.passed]
    have he : ({ a with finish := .finished } : ReplicaPhase).effects r' = a.effects r := by
      simp [ReplicaPhase.effects, hidle]
    rw [hd, he]
    refine hr.call (by simp [ReplicaPhase.view, hidle, FinishAt.view]) fun m => ?_
    simp only [ReplicaPhase.view, hidle, FinishAt.view, PrepareAt.view_congr hnot ps r' r]
    split_ifs <;> simp_all
  all_goals simp [ReplicaCall] at hc

/-- A leader's calls stand at a phase of the protocol. -/
def LeaderInv (dc : DriverCalls) : Prop :=
  ∃ ps s r : Status, ∃ a : LeaderPhase, a.Valid ps s r ∧
    dc.Realizes (a.view ps s r) (a.driver ps s r) (a.effects ps s r)

theorem leaderInv_init : (DriverCalls.mk (OperationDriver.init true false) [] [] []).LeaderInv :=
  ⟨Status.OK, Status.OK, Status.OK, .idle, trivial,
    ⟨List.nodup_nil, fun m => by simp [thread, LeaderPhase.view], rfl, rfl⟩⟩

theorem LeaderInv.run (h : dc.LeaderInv) (happly : applyStatus.ok) {k : Nat} {made block : Call}
    (hk : dc.running[k]? = some (made, block)) :
    ∃ dc' eff, dc.step ndebug applyStatus (.run k) = some (dc', eff) ∧ dc'.LeaderInv := by
  obtain ⟨ps, s, r, a, hv, hr⟩ := h
  have hm : a.view ps s r made = some (some block) :=
    (hr.thread_eq made).symm.trans (thread_of_getElem? hr.distinct hk)
  obtain ⟨a', eff, next, hmv⟩ := LeaderPhase.step happly hv hm
  obtain ⟨dc', hs, hr'⟩ := hr.run hk hmv.step_eq hmv.view_eq hmv.effects_eq
  exact ⟨dc', eff, hs, ps, s, r, a', hmv.valid, hr'⟩

theorem LeaderInv.call (h : dc.LeaderInv) {c : Call} (hc : dc.LeaderCall c) :
    ({ dc with running := dc.running ++ [(c, c)] } : DriverCalls).LeaderInv := by
  obtain ⟨ps, s, r, a, hv, hr⟩ := h
  have hview : ∀ m, dc.thread m = a.view ps s r m := hr.thread_eq
  cases c
  case handleFailure s' =>
    obtain ⟨hs', hnone⟩ := hc
    obtain rfl : a = .idle := LeaderPhase.eq_idle_of_view fun m => (hview m).symm.trans (hnone m)
    refine ⟨ps, s', r, .submitFailed .handleFailure, hs', hr.call (by simp [LeaderPhase.view])
      fun m => ?_⟩
    by_cases hm : m = .handleFailure s' <;> simp [LeaderPhase.view, AbortAt.view, hm]
  case prepareAndStart ps' =>
    obtain rfl : a = .idle := LeaderPhase.eq_idle_of_view fun m => (hview m).symm.trans (hc m)
    cases hps' : ps'.ok
    · refine ⟨ps', s, r, .prepareFailed none, hps', hr.call (by simp [LeaderPhase.view])
        fun m => ?_⟩
      by_cases hm : m = .prepareAndStart ps' <;> simp [LeaderPhase.view, hm]
    · refine ⟨ps', s, r, .preparing .prepare, hps', hr.call (by simp [LeaderPhase.view])
        fun m => ?_⟩
      by_cases hm : m = .prepareAndStart ps' <;> simp [LeaderPhase.view, PreparingAt.block, hm]
  case handleConsensusAppend =>
    obtain ⟨⟨ps', hps', hp⟩, hhca, hf, hfailed⟩ := hc
    obtain ⟨o, rfl⟩ := LeaderPhase.eq_replicating hv ⟨ps', hps', (hview _).symm.trans hp⟩
      (fun r' => (hview _).symm.trans (hf r')) (fun s' => (hview _).symm.trans (hfailed s'))
    have ho : o = .idle := by
      have h' := (hview _).symm.trans hhca
      cases o <;> simp_all [LeaderPhase.view, AppendAt.view]
    subst ho
    refine ⟨ps, s, r, .replicating .running, hv, ?_⟩
    refine hr.call (by simp [LeaderPhase.view, AppendAt.view]) fun m => ?_
    by_cases hm : m = .handleConsensusAppend <;> simp [LeaderPhase.view, AppendAt.view, hm]
  case replicationFinished r' =>
    obtain ⟨hhca, hf, hfailed⟩ := hc
    have hhca' := (hview _).symm.trans hhca
    have ha : a = .replicating .returned := by
      cases a with
      | replicating o => cases o <;> simp_all [LeaderPhase.view, AppendAt.view]
      | finishing o =>
        obtain ⟨-, hidle, -⟩ := hv
        have h' := (hview _).symm.trans (hf r)
        cases o <;> simp_all [LeaderPhase.view, FinishAt.view]
      | failing appended o =>
        have h' := (hview _).symm.trans (hfailed s)
        rcases o with _ | o
        · simp [LeaderPhase.view] at h'
        · cases o <;> simp [LeaderPhase.view, AbortAt.view] at h'
      | _ => simp [LeaderPhase.view] at hhca'
    subst ha
    refine ⟨ps, s, r', .finishing .finished, ⟨hv, by simp, fun x hx => by cases hx⟩, ?_⟩
    have hd : LeaderPhase.driver ps s r' (.finishing .finished) =
        LeaderPhase.driver ps s r (.replicating .returned) := rfl
    have he : LeaderPhase.effects ps s r' (.finishing .finished) =
        LeaderPhase.effects ps s r (.replicating .returned) := by
      simp [LeaderPhase.effects]
    rw [hd, he]
    refine hr.call (by simp [LeaderPhase.view]) fun m => ?_
    by_cases hm : m = .replicationFinished r' <;>
      simp [LeaderPhase.view, FinishAt.view, AppendAt.view, hm]
  case replicationFailed s' =>
    obtain ⟨hs', ⟨ps', hps', hp⟩, hhca, hf, hfailed⟩ := hc
    obtain ⟨o, rfl⟩ := LeaderPhase.eq_replicating hv ⟨ps', hps', (hview _).symm.trans hp⟩
      (fun r' => (hview _).symm.trans (hf r')) (fun s' => (hview _).symm.trans (hfailed s'))
    have ho : o ≠ .running := by
      rintro rfl
      exact hhca .handleConsensusAppend
        ((hview .handleConsensusAppend).trans (by simp [LeaderPhase.view, AppendAt.view]))
    refine ⟨ps, s', r, .failing (o = .returned) none, ⟨hv, hs'⟩, ?_⟩
    have hd : LeaderPhase.driver ps s' r (.failing (o = .returned) none) =
        LeaderPhase.driver ps s r (.replicating o) := rfl
    have he : LeaderPhase.effects ps s' r (.failing (o = .returned) none) =
        LeaderPhase.effects ps s r (.replicating o) := by
      cases o <;> simp_all [LeaderPhase.effects]
    rw [hd, he]
    refine hr.call (by simp [LeaderPhase.view]) fun m => ?_
    by_cases hm : m = .replicationFailed s'
    · simp [LeaderPhase.view, hm]
    · cases o <;> simp_all [LeaderPhase.view, AppendAt.view]
  all_goals simp [LeaderCall] at hc

/-- The calls of a replica's (`replica`) or a leader's driver stand at a phase of the protocol. -/
def Inv (replica : Bool) (dc : DriverCalls) : Prop := if replica then dc.ReplicaInv else dc.LeaderInv

theorem inv_init (replica : Bool) :
    (DriverCalls.mk (OperationDriver.init true replica) [] [] []).Inv replica := by
  cases replica
  · exact leaderInv_init
  · exact replicaInv_init

theorem Inv.distinct {replica : Bool} (h : dc.Inv replica) : dc.Distinct := by
  cases replica
  · obtain ⟨_, _, _, _, _, hr⟩ := h
    exact hr.distinct
  · obtain ⟨_, _, _, _, _, hr⟩ := h
    exact hr.distinct

theorem Inv.step {replica : Bool} (h : dc.Inv replica) (happly : applyStatus.ok)
    {e : DriverEvent} (he : dc.Allowed replica e) :
    ∃ dc' eff, dc.step ndebug applyStatus e = some (dc', eff) ∧ dc'.Inv replica := by
  cases e with
  | call c =>
    refine ⟨_, [], rfl, ?_⟩
    cases replica
    · exact LeaderInv.call h (by simpa [Allowed] using he)
    · exact ReplicaInv.call h (by simpa [Allowed] using he)
  | run k =>
    obtain ⟨⟨made, block⟩, hk⟩ : ∃ entry, dc.running[k]? = some entry :=
      Option.isSome_iff_exists.mp (by simpa [Allowed] using he)
    cases replica
    · exact LeaderInv.run h happly hk
    · exact ReplicaInv.run h happly hk

end DriverCalls

namespace ReplicaPhase

theorem effects_isPrefix (r : Status) (a : ReplicaPhase) :
    (a.effects r).IsPrefix (.start :: outcome r) := by
  unfold effects
  by_cases hs : a.prepare.started
  · by_cases hb : a.prepare = .returned ∧ a.finish = .returned
    · rw [if_pos hs, if_pos hb]
      exact List.prefix_refl _
    · rw [if_pos hs, if_neg hb, List.append_nil]
      exact ⟨outcome r, rfl⟩
  · have hb : ¬(a.prepare = .returned ∧ a.finish = .returned) := fun h => by
      simp [h.1, PrepareAt.started] at hs
    simp only [hs, hb, if_false, List.append_nil, Bool.false_eq_true]
    exact List.nil_prefix

end ReplicaPhase

namespace LeaderPhase

theorem effects_course {ps s r : Status} {a : LeaderPhase} (hv : a.Valid ps s r) :
    ∃ full, Course full ∧ (a.effects ps s r).IsPrefix full := by
  have hnil : ∃ full, Course full ∧ ([] : List DriverEffect).IsPrefix full :=
    ⟨_, .inl rfl, List.nil_prefix⟩
  cases a with
  | submitFailed o =>
    cases o
    case returned => exact ⟨_, .inr ⟨s, hv, .inl rfl⟩, List.prefix_refl _⟩
    all_goals exact hnil
  | prepareFailed o =>
    rcases o with _ | _ | _ | _
    case some.returned => exact ⟨_, .inr ⟨ps, hv, .inl rfl⟩, List.prefix_refl _⟩
    all_goals exact hnil
  | replicating o =>
    cases o
    case returned => exact ⟨_, .inl rfl, ⟨finalized, rfl⟩⟩
    all_goals exact hnil
  | finishing o =>
    refine ⟨_, course_outcome r, ?_⟩
    by_cases ho : o = .returned
    · simp [effects, ho]
    · simp only [effects, ho, if_false]
      exact ⟨outcome r, rfl⟩
  | failing appended o =>
    obtain ⟨-, hs⟩ := hv
    refine ⟨(if appended then [.start] else []) ++ aborted s, ?_, ?_⟩
    · cases appended
      · exact .inr ⟨s, hs, .inl rfl⟩
      · exact .inr ⟨s, hs, .inr rfl⟩
    · by_cases ho : o = some .returned
      · simp [effects, ho]
      · simp only [effects, ho, if_false, List.append_nil]
        exact List.prefix_append _ _
  | idle | preparing _ => exact hnil

end LeaderPhase

namespace DriverCalls

theorem Inv.course {dc : DriverCalls} {replica : Bool} (h : dc.Inv replica) :
    ∃ full, Course full ∧ dc.effects.IsPrefix full := by
  cases replica
  · obtain ⟨ps, s, r, a, hv, hr⟩ := h
    rw [hr.effects_eq]
    exact LeaderPhase.effects_course hv
  · obtain ⟨ps, r, a, -, -, hr⟩ := h
    rw [hr.effects_eq]
    exact ⟨_, course_outcome r, ReplicaPhase.effects_isPrefix r a⟩

end DriverCalls

namespace DriverCalls

/-- No call is in flight and the protocol allows no other: the driver is done. -/
def Finished (replica : Bool) (dc : DriverCalls) : Prop :=
  dc.running = [] ∧ ∀ c, ¬ dc.Allowed replica (.call c)

/-- `PrepareAndStart` succeeded and replication finished with `OK`. -/
def Applied (dc : DriverCalls) : Prop :=
  dc.Prepared ∧ ∃ r, r.ok ∧ dc.thread (.replicationFinished r) = some none

variable {dc : DriverCalls}

theorem thread_ne_of_running_eq_nil (h : dc.running = []) (m b : Call) :
    dc.thread m ≠ some (some b) := by
  unfold thread
  rw [h]
  split_ifs <;> simp

theorem ReplicaInv.finished (h : dc.ReplicaInv) (hf : dc.Finished true) :
    ∃ r, dc.Prepared ∧ dc.thread (.replicationFinished r) = some none ∧
      (∀ r', dc.thread (.replicationFinished r') = some none → r' = r) ∧
      dc.effects = .start :: outcome r := by
  obtain ⟨ps, r, a, hps, -, hr⟩ := h
  have hview : ∀ m, dc.thread m = a.view ps r m := hr.thread_eq
  have hnr : ∀ m b, a.view ps r m ≠ some (some b) := fun m b hm =>
    thread_ne_of_running_eq_nil hf.1 m b ((hview m).trans hm)
  -- the protocol allows no other `PrepareAndStart`, so one was made, and it returned
  have hp : a.prepare = .returned := by
    have hmade : ∃ ps', dc.thread (.prepareAndStart ps') ≠ none := by
      by_contra hnone
      push Not at hnone
      exact hf.2 (.prepareAndStart Status.OK) (by simp [Allowed, ReplicaCall, hnone])
    obtain ⟨ps', hps'⟩ := hmade
    rw [hview] at hps'
    by_cases he : ps' = ps
    · subst he
      have hrun := hnr (.prepareAndStart ps')
      cases hpa : a.prepare <;> simp_all [ReplicaPhase.view, PrepareAt.view]
    · simp [ReplicaPhase.view, he] at hps'
  have hfin : a.finish = .returned := by
    have hmade : ∃ r', dc.thread (.replicationFinished r') ≠ none := by
      by_contra hnone
      push Not at hnone
      exact hf.2 (.replicationFinished Status.OK) (by simp [Allowed, ReplicaCall, hnone])
    obtain ⟨r', hr'⟩ := hmade
    rw [hview] at hr'
    by_cases he : r' = r
    · subst he
      have hrun := hnr (.replicationFinished r')
      cases hfa : a.finish <;> simp_all [ReplicaPhase.view, FinishAt.view]
    · simp [ReplicaPhase.view, he] at hr'
  refine ⟨r, ⟨ps, hps, ?_⟩, ?_, fun r' h' => ?_, ?_⟩
  · rw [hview]
    simp [ReplicaPhase.view, hp, PrepareAt.view]
  · rw [hview]
    simp [ReplicaPhase.view, hfin, FinishAt.view]
  · rw [hview] at h'
    by_contra he
    simp [ReplicaPhase.view, he] at h'
  · rw [hr.effects_eq]
    simp [ReplicaPhase.effects, hp, hfin, PrepareAt.started]

theorem LeaderInv.finished (h : dc.LeaderInv) (hf : dc.Finished false) :
    (∃ r, dc.Prepared ∧ dc.thread (.replicationFinished r) = some none ∧
      (∀ r', dc.thread (.replicationFinished r') = some none → r' = r) ∧
      dc.effects = .start :: outcome r) ∨
    (¬ dc.Applied ∧ ∃ s, s.ok = false ∧
      (dc.effects = aborted s ∨ dc.effects = .start :: aborted s)) := by
  obtain ⟨ps, s, r, a, hv, hr⟩ := h
  have hview : ∀ m, dc.thread m = a.view ps s r m := hr.thread_eq
  -- no call is in flight
  have hnr : ∀ m, (a.view ps s r m).bind id = none := fun m => by
    rcases hm : a.view ps s r m with _ | _ | b
    · rfl
    · rfl
    · exact (thread_ne_of_running_eq_nil hf.1 m b ((hview m).trans hm)).elim
  have hno : ∀ c, ¬ dc.LeaderCall c := fun c hc => hf.2 c (by simpa [Allowed] using hc)
  -- without `ReplicationFinished` the operation is not applied
  have hnot : (∀ r', a.view ps s r (.replicationFinished r') = none) → ¬ dc.Applied :=
    fun hrf ⟨_, r', _, h'⟩ => by simp [hview, hrf r'] at h'
  rw [hr.effects_eq]
  cases a with
  | idle =>
    exact absurd (fun m => (hview m).trans (by simp [LeaderPhase.view]))
      (hno (.prepareAndStart Status.OK))
  | submitFailed o =>
    cases o
    case returned =>
      exact .inr ⟨hnot fun r' => by simp [LeaderPhase.view], s, hv, .inl rfl⟩
    all_goals exact absurd (hnr (.handleFailure s)) (by simp [LeaderPhase.view, AbortAt.view])
  | prepareFailed o =>
    rcases o with _ | _ | _ | _
    case some.returned =>
      exact .inr ⟨hnot fun r' => by simp [LeaderPhase.view], ps, hv, .inl rfl⟩
    all_goals
      exact absurd (hnr (.prepareAndStart ps)) (by simp [LeaderPhase.view, AbortAt.view])
  | preparing o =>
    exact absurd (hnr (.prepareAndStart ps)) (by simp [LeaderPhase.view])
  | replicating o =>
    have hprepared : dc.Prepared := ⟨ps, hv, by simp [hview, LeaderPhase.view]⟩
    have hopen : dc.ReplicationOpen :=
      ⟨fun r' => by simp [hview, LeaderPhase.view], fun s' => by simp [hview, LeaderPhase.view]⟩
    cases o with
    | idle =>
      exact absurd ⟨hprepared, by simp [hview, LeaderPhase.view, AppendAt.view], hopen⟩
        (hno .handleConsensusAppend)
    | running =>
      exact absurd (hnr .handleConsensusAppend) (by simp [LeaderPhase.view, AppendAt.view])
    | returned =>
      exact absurd ⟨by simp [hview, LeaderPhase.view, AppendAt.view], hopen⟩
        (hno (.replicationFinished Status.OK))
  | finishing o =>
    obtain ⟨hps, hidle, -⟩ := hv
    cases o with
    | returned =>
      refine .inl ⟨r, ⟨ps, hps, by simp [hview, LeaderPhase.view]⟩,
        by simp [hview, LeaderPhase.view, FinishAt.view], fun r' h' => ?_, by simp [LeaderPhase.effects]⟩
      by_contra he
      simp [hview, LeaderPhase.view, he] at h'
    | idle => exact absurd rfl hidle
    | finished | resolving _ =>
      exact absurd (hnr (.replicationFinished r)) (by simp [LeaderPhase.view, FinishAt.view])
  | failing appended o =>
    obtain ⟨-, hs⟩ := hv
    rcases o with _ | _ | _ | _
    case some.returned =>
      refine .inr ⟨hnot fun r' => by simp [LeaderPhase.view], s, hs, ?_⟩
      cases appended
      · exact .inl (by simp [LeaderPhase.effects])
      · exact .inr (by simp [LeaderPhase.effects])
    all_goals
      exact absurd (hnr (.replicationFailed s)) (by simp [LeaderPhase.view, AbortAt.view])

/-- A driver that is done asked for `Start`, `Apply` and `Finalize` when `PrepareAndStart`
succeeded and replication finished with `OK`, and otherwise aborted with a failed status. -/
theorem Inv.finished {replica : Bool} (h : dc.Inv replica) (hf : dc.Finished replica) :
    (dc.Applied → dc.effects = .start :: finalized) ∧
    (¬ dc.Applied → ∃ s, s.ok = false ∧
      (dc.effects = aborted s ∨ dc.effects = .start :: aborted s)) := by
  have hend : (∃ r, dc.Prepared ∧ dc.thread (.replicationFinished r) = some none ∧
      (∀ r', dc.thread (.replicationFinished r') = some none → r' = r) ∧
      dc.effects = .start :: outcome r) ∨
      (¬ dc.Applied ∧ ∃ s, s.ok = false ∧
        (dc.effects = aborted s ∨ dc.effects = .start :: aborted s)) := by
    cases replica
    · exact LeaderInv.finished h hf
    · exact .inl (ReplicaInv.finished h hf)
  rcases hend with ⟨r, hprepared, hrf, hunique, heff⟩ | ⟨hnot, hab⟩
  · -- the outcome is `r`'s: applied exactly when `r` is `OK`
    have happlied : dc.Applied ↔ r.ok := by
      constructor
      · rintro ⟨-, r', hr', h'⟩
        rwa [← hunique r' h']
      · exact fun hr => ⟨hprepared, r, hr, hrf⟩
    refine ⟨fun ha => by simp [heff, outcome, happlied.mp ha], fun ha => ?_⟩
    have hr : r.ok = false := by simpa [happlied] using ha
    exact ⟨r, hr, .inr (by simp [heff, outcome, hr])⟩
  · exact ⟨fun ha => absurd ha hnot, fun _ => hab⟩

theorem Inv.made_of_apply_mem {replica : Bool} (h : dc.Inv replica) (ha : .apply ∈ dc.effects) :
    (∃ ps, dc.thread (.prepareAndStart ps) ≠ none) ∧
      ∃ r, dc.thread (.replicationFinished r) ≠ none := by
  cases replica
  · obtain ⟨ps, s, r, a, hv, hr⟩ := h
    rw [hr.effects_eq] at ha
    have hfin : a = .finishing .returned := by
      cases a with
      | finishing o =>
        by_cases ho : o = .returned
        · rw [ho]
        · simp [LeaderPhase.effects, ho] at ha
      | failing appended o =>
        cases appended <;> by_cases ho : o = some .returned <;>
          simp [LeaderPhase.effects, ho, aborted] at ha
      | submitFailed o => cases o <;> simp [LeaderPhase.effects, aborted] at ha
      | prepareFailed o => rcases o with _ | _ | _ | _ <;> simp [LeaderPhase.effects, aborted] at ha
      | replicating o => cases o <;> simp [LeaderPhase.effects] at ha
      | idle | preparing _ => simp [LeaderPhase.effects] at ha
    subst hfin
    exact ⟨⟨ps, by simp [hr.thread_eq, LeaderPhase.view]⟩,
      ⟨r, by simp [hr.thread_eq, LeaderPhase.view, FinishAt.view]⟩⟩
  · obtain ⟨ps, r, a, -, -, hr⟩ := h
    rw [hr.effects_eq] at ha
    have hboth : a.prepare = .returned ∧ a.finish = .returned := by
      by_contra hb
      simp only [ReplicaPhase.effects, hb, if_false, List.append_nil] at ha
      split_ifs at ha <;> simp at ha
    exact ⟨⟨ps, by simp [hr.thread_eq, ReplicaPhase.view, hboth.1, PrepareAt.view]⟩,
      ⟨r, by simp [hr.thread_eq, ReplicaPhase.view, hboth.2, FinishAt.view]⟩⟩

/-- The call that runs `ApplyTask` is `PrepareAndStart` or `ReplicationFinished`, and the driver
has not asked for `Apply` yet. -/
theorem Inv.applyTask {replica : Bool} (h : dc.Inv replica) {m : Call}
    (hm : dc.thread m = some (some .applyTask)) :
    ((∃ ps, m = .prepareAndStart ps) ∨ ∃ r, m = .replicationFinished r) ∧
      .apply ∉ dc.effects := by
  cases replica
  · obtain ⟨ps, s, r, a, hv, hr⟩ := h
    rw [hr.thread_eq] at hm
    rw [hr.effects_eq]
    have ha : a = .finishing (.resolving .applyTask) ∧ m = .replicationFinished r := by
      cases a with
      | finishing o =>
        simp only [LeaderPhase.view] at hm
        split_ifs at hm with h1 h2 h3
        · simp at hm
        · simp at hm
        · refine ⟨?_, h3⟩
          rcases o with _ | _ | o | _ <;> simp [FinishAt.view] at hm
          cases o <;> simp [ResolveAt.block] at hm
          rfl
      | submitFailed o =>
        simp only [LeaderPhase.view] at hm
        split_ifs at hm
        cases o <;> simp [AbortAt.view] at hm
      | prepareFailed o =>
        simp only [LeaderPhase.view] at hm
        split_ifs at hm
        rcases o with _ | o
        · simp at hm
        · cases o <;> simp [AbortAt.view] at hm
      | preparing o =>
        simp only [LeaderPhase.view] at hm
        split_ifs at hm
        cases o <;> simp [PreparingAt.block] at hm
      | replicating o =>
        simp only [LeaderPhase.view] at hm
        split_ifs at hm
        · simp at hm
        · cases o <;> simp [AppendAt.view] at hm
      | failing appended o =>
        simp only [LeaderPhase.view] at hm
        split_ifs at hm
        · simp at hm
        · simp at hm
        · rcases o with _ | o
          · simp at hm
          · cases o <;> simp [AbortAt.view] at hm
      | idle => simp [LeaderPhase.view] at hm
    obtain ⟨rfl, rfl⟩ := ha
    exact ⟨.inr ⟨r, rfl⟩, by simp [LeaderPhase.effects]⟩
  · obtain ⟨ps, r, a, -, hv, hr⟩ := h
    rw [hr.thread_eq] at hm
    rw [hr.effects_eq]
    -- the resolving call has not returned, so the outcome is not asked for yet
    have hnot : ¬(a.prepare = .returned ∧ a.finish = .returned) := by
      rintro ⟨hp, hf⟩
      simp [ReplicaPhase.view, hp, hf, PrepareAt.view, FinishAt.view] at hm
      split_ifs at hm <;> simp at hm
    refine ⟨?_, ?_⟩
    · unfold ReplicaPhase.view at hm
      split_ifs at hm with h1 h2
      · exact .inl ⟨ps, h1⟩
      · exact .inr ⟨r, h2⟩
    · simp only [ReplicaPhase.effects, hnot, if_false, List.append_nil]
      split_ifs <;> simp

theorem thread_eq_none_of_allowed {replica : Bool} {c : Call}
    (h : dc.Allowed replica (.call c)) : dc.thread c = none := by
  cases replica <;> simp only [Allowed, if_true, Bool.false_eq_true, if_false] at h
  · cases c <;> simp only [LeaderCall] at h
    case handleFailure s => exact h.2 _
    case prepareAndStart ps => exact h _
    case handleConsensusAppend => exact h.2.1
    case replicationFinished r => exact h.2.1 r
    case replicationFailed s => exact h.2.2.2.2 s
  · cases c <;> simp only [ReplicaCall] at h
    case prepareAndStart ps => exact h.2 ps
    case replicationFinished r => exact h r

theorem step_effects {e : DriverEvent} {dc' : DriverCalls} {eff : List DriverEffect}
    (h : dc.step ndebug applyStatus e = some (dc', eff)) : dc'.effects = dc.effects ++ eff := by
  cases e with
  | call c =>
    simp only [step, Option.some.injEq, Prod.mk.injEq] at h
    obtain ⟨rfl, rfl⟩ := h
    simp
  | run k =>
    obtain ⟨-, -, -, -, -, heff, -, -⟩ := step_run_eq_some h
    exact heff

/-- A step makes no call but the one it makes, and starts none: a block only moves its own call on,
or returns it. -/
theorem step_thread {e : DriverEvent} {dc' : DriverCalls} {eff : List DriverEffect}
    (hd : dc.Distinct) (hnew : ∀ c, e = .call c → dc.thread c = none)
    (h : dc.step ndebug applyStatus e = some (dc', eff)) (m : Call) :
    (dc'.thread m = none ↔ dc.thread m = none ∧ e ≠ .call m) ∧
      ∀ b', dc'.thread m = some (some b') → e = .call m ∨ ∃ b, dc.thread m = some (some b) := by
  cases e with
  | call c =>
    simp only [step, Option.some.injEq, Prod.mk.injEq] at h
    obtain ⟨rfl, rfl⟩ := h
    rw [thread_call (hnew c rfl) (by rfl) (by rfl) m]
    by_cases hm : m = c
    · subst hm
      simp
    · simpa [hm, Ne.symm hm] using fun b' h' => ⟨b', h'⟩
  | run k =>
    obtain ⟨made, block, next, hk, -, -, hsome, hnone⟩ := step_run_eq_some h
    have hmade := thread_of_getElem? hd hk
    have hthread : ∀ m, dc'.thread m = if m = made then some next else dc.thread m := by
      intro m
      cases next with
      | some b =>
        obtain ⟨hrun, hret⟩ := hsome b rfl
        exact thread_set hd hk hrun hret m
      | none =>
        obtain ⟨hrun, hret⟩ := hnone rfl
        exact thread_eraseIdx hd hk hrun hret m
    rw [hthread m]
    by_cases hm : m = made
    · subst hm
      simp [hmade]
    · simpa [hm] using fun b' h' => ⟨b', h'⟩

end DriverCalls

end FrescoDB.Tablet
