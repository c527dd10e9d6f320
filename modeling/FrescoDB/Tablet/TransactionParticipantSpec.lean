import FrescoDB.Tablet.TransactionParticipant
import FrescoDB.Lib.SortedList

/-! What the request bookkeeping of the participant keeps under the protocol of `RequestScope`:
every registered id is unregistered once, after it was registered, and `++request_serial_` does
not overflow. Along every run the deque holds, in order, the registered ids from the oldest one
still running on, the heap holds those of them after the front that are unregistered, and every
queued cleanup waits for the front of the deque to pass it.

A transaction removed while requests run, with no earlier removal of it still queued, stays until
every request registered before the removal has been unregistered, and is erased by that call
provided its tag is below `INT64_MAX`, the bound `CleanTransactionsUnlocked` uses for an empty
deque. -/
namespace FrescoDB.Tablet

open FrescoDB.Docdb FrescoDB.Lib

namespace Participant

/-! ## The calls -/

@[simp] theorem registerRequest_fst (p : Participant) : p.registerRequest.1 = p.requestSerial + 1 :=
  rfl

@[simp] theorem registerRequest_snd (p : Participant) :
    p.registerRequest.2 = { p with
      requestSerial := p.requestSerial + 1
      runningRequests := p.runningRequests ++ [p.requestSerial + 1] } := rfl

theorem step_unregisterRequest (p : Participant) (request : Int) :
    p.step (.unregisterRequest request) = p.unregisterRequest request := rfl

@[simp] theorem nextRequestIdUnlocked_snd (p : Participant) :
    p.nextRequestIdUnlocked.2 = { p with requestSerial := p.requestSerial + 1 } := rfl

@[simp] theorem removeUnlocked_requestSerial (p : Participant) (id : TransactionId) :
    (p.removeUnlocked id).2.requestSerial = p.requestSerial := by
  unfold removeUnlocked
  split
  · rfl
  split <;> rfl

/-- Over the elements after the front that pass a test, the loop of `UnregisterRequest` drops the
run of passing elements from the deque and from the heap. -/
theorem popCompleteRequests_filter {P : Int → Bool} :
    ∀ {l : List Int}, l.Pairwise (· < ·) →
      popCompleteRequests l (l.filter P) = some (l.dropWhile P, ((l.dropWhile P).drop 1).filter P)
  | [], _ => rfl
  | a :: l, hl => by
    have hrest := List.pairwise_cons.mp hl
    by_cases ha : P a = true
    · rw [List.filter_cons_of_pos ha, List.dropWhile_cons_of_pos ha, popCompleteRequests,
        if_pos rfl]
      exact popCompleteRequests_filter hrest.2
    · rw [List.filter_cons_of_neg ha, List.dropWhile_cons_of_neg ha]
      cases hf : l.filter P with
      | nil => simp [popCompleteRequests, hf]
      | cons b bs =>
        -- the heap's top lies above the front, so the loop stops at once
        have hb : b ∈ l := List.mem_of_mem_filter (hf ▸ List.mem_cons_self ..)
        rw [popCompleteRequests, if_neg (ne_of_gt (hrest.1 b hb))]
        simp [hf]

theorem unregisterRequest_of_ne {p : Participant} {front request : Int} {rest : List Int}
    (hrun : p.runningRequests = front :: rest) (hne : front ≠ request) :
    p.unregisterRequest request =
      some { p with completeRequests := p.completeRequests.orderedInsert (· ≤ ·) request } := by
  simp [unregisterRequest, hrun, hne]

theorem unregisterRequest_of_front {p : Participant} {front : Int} {rest running complete : List Int}
    (hrun : p.runningRequests = front :: rest)
    (hpop : popCompleteRequests rest p.completeRequests = some (running, complete)) :
    p.unregisterRequest front = some (cleanTransactionsUnlocked
      { p with runningRequests := running, completeRequests := complete }) := by
  simp [unregisterRequest, hrun, hpop]

theorem cleanLoop_fst (m : Int) :
    ∀ (queue : List CleanupQueueEntry) (transactions : List TransactionId),
      (cleanLoop m queue transactions).1 = queue.dropWhile fun e => decide (e.requestId < m)
  | [], _ => rfl
  | e :: queue, transactions => by
    by_cases he : e.requestId < m
    · rw [cleanLoop, if_pos he, cleanLoop_fst m queue,
        List.dropWhile_cons_of_pos (by simpa using he)]
    · rw [cleanLoop, if_neg he, List.dropWhile_cons_of_neg (by simpa using he)]

theorem mem_cleanLoop_snd (m : Int) (t : TransactionId) :
    ∀ (queue : List CleanupQueueEntry) (transactions : List TransactionId),
      t ∈ (cleanLoop m queue transactions).2 ↔ t ∈ transactions ∧
        ∀ e ∈ queue.takeWhile (fun e => decide (e.requestId < m)), e.transactionId ≠ t
  | [], transactions => by simp [cleanLoop]
  | e :: queue, transactions => by
    by_cases he : e.requestId < m
    · rw [cleanLoop, if_pos he, mem_cleanLoop_snd m t queue,
        List.takeWhile_cons_of_pos (by simpa using he)]
      simp [ne_comm, and_assoc]
    · rw [cleanLoop, if_neg he, List.takeWhile_cons_of_neg (by simpa using he)]
      simp

@[simp] theorem cleanTransactionsUnlocked_cleanupQueue (p : Participant) :
    p.cleanTransactionsUnlocked.cleanupQueue =
      p.cleanupQueue.dropWhile fun e => decide (e.requestId < p.runningRequests.headD kInt64Max) :=
  cleanLoop_fst _ _ _

theorem mem_cleanTransactionsUnlocked_transactions (p : Participant) (t : TransactionId) :
    t ∈ p.cleanTransactionsUnlocked.transactions ↔ t ∈ p.transactions ∧
      ∀ e ∈ p.cleanupQueue.takeWhile
        (fun e => decide (e.requestId < p.runningRequests.headD kInt64Max)), e.transactionId ≠ t :=
  mem_cleanLoop_snd _ _ _ _

@[simp] theorem cleanTransactionsUnlocked_requestSerial (p : Participant) :
    p.cleanTransactionsUnlocked.requestSerial = p.requestSerial := rfl

@[simp] theorem cleanTransactionsUnlocked_runningRequests (p : Participant) :
    p.cleanTransactionsUnlocked.runningRequests = p.runningRequests := rfl

@[simp] theorem cleanTransactionsUnlocked_completeRequests (p : Participant) :
    p.cleanTransactionsUnlocked.completeRequests = p.completeRequests := rfl

/-! ## The protocol -/

/-- What the callers did: the ids `RegisterRequest` returned, in order, and those unregistered. -/
structure Requests where
  registered : List Int := []
  unregistered : List Int := []

/-- The calls the callers make: a `RequestScope` unregisters its id once, after registering it,
and `++request_serial_` stays within `int64_t`. -/
def Allowed (p : Participant) (r : Requests) : Event → Prop
  | .registerRequest | .nextRequestId => p.requestSerial < kInt64Max
  | .unregisterRequest request => request ∈ r.registered ∧ request ∉ r.unregistered
  | .addTransaction _ | .removeUnlocked _ => True

/-- The callers' record after a call. -/
def Requests.record (r : Requests) (p : Participant) : Event → Requests
  | .registerRequest => { r with registered := r.registered ++ [p.registerRequest.1] }
  | .unregisterRequest request => { r with unregistered := request :: r.unregistered }
  | _ => r

/-- Runs of allowed calls. -/
inductive Steps : Participant → Requests → List Event → Participant → Requests → Prop
  | nil (p : Participant) (r : Requests) : Steps p r [] p r
  | cons {p p' p'' : Participant} {r r'' : Requests} {e : Event} {es : List Event} :
      Allowed p r e → p.step e = some p' → Steps p' (r.record p e) es p'' r'' →
      Steps p r (e :: es) p'' r''

theorem Steps.append {p p' p'' : Participant} {r r' r'' : Requests} {es es' : List Event}
    (run : Steps p r es p' r') (run' : Steps p' r' es' p'' r'') :
    Steps p r (es ++ es') p'' r'' := by
  induction run with
  | nil => exact run'
  | cons hallowed hstep _ ih => exact .cons hallowed hstep (ih run')

/-! ## The invariant -/

/-- The invariant of the bookkeeping: the deque is the registered ids from the oldest one still
running on, the heap the unregistered ones after its front, and the cleanup queue is in tag order,
each tag at or above the front. -/
structure Inv (p : Participant) (r : Requests) : Prop where
  serial_le : p.requestSerial ≤ kInt64Max
  registered_sorted : r.registered.Pairwise (· < ·)
  registered_le : ∀ x ∈ r.registered, x ≤ p.requestSerial
  unregistered_mem : ∀ x ∈ r.unregistered, x ∈ r.registered
  running_eq : p.runningRequests = r.registered.dropWhile fun x => decide (x ∈ r.unregistered)
  complete_eq :
    p.completeRequests = (p.runningRequests.drop 1).filter fun x => decide (x ∈ r.unregistered)
  queue_sorted : p.cleanupQueue.Pairwise fun a b => a.requestId ≤ b.requestId
  queue_le : ∀ e ∈ p.cleanupQueue, e.requestId ≤ p.requestSerial
  queue_waits : ∀ e ∈ p.cleanupQueue, p.runningRequests.headD kInt64Max ≤ e.requestId

theorem inv_init : Inv {} {} where
  serial_le := by simp [kInt64Max]
  registered_sorted := List.Pairwise.nil
  registered_le := by simp
  unregistered_mem := by simp
  running_eq := rfl
  complete_eq := rfl
  queue_sorted := List.Pairwise.nil
  queue_le := by simp
  queue_waits := by simp

namespace Inv

variable {p : Participant} {r : Requests}

theorem running_sorted (h : Inv p r) : p.runningRequests.Pairwise (· < ·) := by
  rw [h.running_eq]
  exact h.registered_sorted.sublist (List.dropWhile_suffix _).sublist

theorem mem_running (h : Inv p r) (x : Int) :
    x ∈ p.runningRequests ↔ x ∈ r.registered ∧ ∃ l ∈ r.registered, l ∉ r.unregistered ∧ l ≤ x := by
  rw [h.running_eq, mem_dropWhile_iff h.registered_sorted]
  simp

theorem running_cons (h : Inv p r) {x : Int} (hx : x ∈ r.registered) (hxu : x ∉ r.unregistered) :
    ∃ front rest, p.runningRequests = front :: rest := by
  have hmem : x ∈ p.runningRequests := (h.mem_running x).mpr ⟨hx, x, hx, hxu, le_rfl⟩
  cases hrun : p.runningRequests with
  | nil => rw [hrun] at hmem; cases hmem
  | cons front rest => exact ⟨front, rest, rfl⟩

theorem front_spec (h : Inv p r) {front : Int} {rest : List Int}
    (hrun : p.runningRequests = front :: rest) :
    front ∉ r.unregistered ∧ ∀ x ∈ r.registered, x ∉ r.unregistered → front ≤ x := by
  have hsorted : (front :: rest).Pairwise (· < ·) := hrun ▸ h.running_sorted
  have hle : ∀ x ∈ p.runningRequests, front ≤ x := by
    intro x hx
    rw [hrun] at hx
    rcases List.mem_cons.mp hx with rfl | hx
    · exact le_rfl
    · exact (List.rel_of_pairwise_cons hsorted hx).le
  refine ⟨?_, fun x hx hxu => hle x ((h.mem_running x).mpr ⟨hx, x, hx, hxu, le_rfl⟩)⟩
  obtain ⟨-, l, hl, hlu, hlf⟩ := (h.mem_running front).mp (hrun ▸ List.mem_cons_self ..)
  have hfl : front ≤ l := hle l ((h.mem_running l).mpr ⟨hl, l, hl, hlu, le_rfl⟩)
  rwa [le_antisymm hlf hfl] at hlu

theorem headD_le (h : Inv p r) {x : Int} (hx : x ∈ r.registered) (hxu : x ∉ r.unregistered) :
    p.runningRequests.headD kInt64Max ≤ x := by
  obtain ⟨front, rest, hrun⟩ := h.running_cons hx hxu
  rw [hrun, List.headD_cons]
  exact (h.front_spec hrun).2 x hx hxu

theorem mem_complete (h : Inv p r) (x : Int) :
    x ∈ p.completeRequests ↔
      x ∈ r.unregistered ∧ ∃ front ∈ p.runningRequests.head?, front < x := by
  rw [h.complete_eq]
  cases hrun : p.runningRequests with
  | nil => simp
  | cons front rest =>
    have hsorted : (front :: rest).Pairwise (· < ·) := hrun ▸ h.running_sorted
    simp only [List.drop_one, List.tail_cons, List.mem_filter, decide_eq_true_eq, List.head?_cons,
      Option.mem_def, Option.some.injEq, exists_eq_left']
    constructor
    · rintro ⟨hx, hxu⟩
      exact ⟨hxu, List.rel_of_pairwise_cons hsorted hx⟩
    · rintro ⟨hxu, hfx⟩
      -- an unregistered id above the front is above a running one, so it is in the deque
      have hfront : front ∈ r.registered :=
        ((h.mem_running front).mp (hrun ▸ List.mem_cons_self ..)).1
      have hmem : x ∈ p.runningRequests := (h.mem_running x).mpr
        ⟨h.unregistered_mem x hxu, front, hfront, (h.front_spec hrun).1, hfx.le⟩
      rw [hrun] at hmem
      exact ⟨(List.mem_cons.mp hmem).resolve_left (ne_of_gt hfx), hxu⟩

/-- Once every registered request is unregistered, the deque and the heap are empty, and so is the
cleanup queue while the serial is below `INT64_MAX`. -/
theorem eq_nil_of_unregistered (h : Inv p r) (hs : p.requestSerial < kInt64Max)
    (hall : ∀ x ∈ r.registered, x ∈ r.unregistered) :
    p.runningRequests = [] ∧ p.completeRequests = [] ∧ p.cleanupQueue = [] := by
  have hrun : p.runningRequests = [] := by
    rw [h.running_eq, List.dropWhile_eq_nil_iff]
    simpa using hall
  refine ⟨hrun, by rw [h.complete_eq, hrun]; rfl, ?_⟩
  -- a tag would lie at or above `INT64_MAX`, above the serial
  refine List.eq_nil_iff_forall_not_mem.mpr fun e he => ?_
  have hwait := h.queue_waits e he
  have hle := h.queue_le e he
  rw [hrun, List.headD_nil] at hwait
  omega

theorem registerRequest (h : Inv p r) (hs : p.requestSerial < kInt64Max) :
    Inv p.registerRequest.2 (r.record p .registerRequest) := by
  have hnew : p.requestSerial + 1 ∉ r.unregistered := fun hu => by
    have := h.registered_le _ (h.unregistered_mem _ hu)
    omega
  refine ⟨?_, ?_, ?_, ?_, ?_, ?_, h.queue_sorted, ?_, ?_⟩
  · simp only [registerRequest_snd]
    omega
  · refine List.pairwise_append.mpr ⟨h.registered_sorted, List.pairwise_singleton _ _, ?_⟩
    intro x hx y hy
    rw [List.mem_singleton.mp hy, registerRequest_fst]
    have := h.registered_le x hx
    omega
  · intro x hx
    rcases List.mem_append.mp hx with hx | hx
    · have := h.registered_le x hx
      simp only [registerRequest_snd]
      omega
    · simp [List.mem_singleton.mp hx]
  · exact fun x hx => List.mem_append_left _ (h.unregistered_mem x hx)
  · show p.runningRequests ++ [p.requestSerial + 1] =
      (r.registered ++ [p.requestSerial + 1]).dropWhile fun x => decide (x ∈ r.unregistered)
    rw [List.dropWhile_append, ← h.running_eq]
    cases p.runningRequests with
    | nil => simp [hnew]
    | cons front rest => simp
  · show p.completeRequests =
      ((p.runningRequests ++ [p.requestSerial + 1]).drop 1).filter
        fun x => decide (x ∈ r.unregistered)
    rw [h.complete_eq]
    cases p.runningRequests with
    | nil => rfl
    | cons front rest => simp [hnew]
  · intro e he
    have := h.queue_le e he
    simp only [registerRequest_snd]
    omega
  · intro e he
    have hwait := h.queue_waits e he
    have hle := h.queue_le e he
    simp only [registerRequest_snd]
    -- from an empty deque the tags would lie at or above `INT64_MAX`, above the serial
    cases hrun : p.runningRequests with
    | nil =>
      rw [hrun, List.headD_nil] at hwait
      omega
    | cons front rest =>
      rw [hrun] at hwait
      simpa using hwait

theorem nextRequestId (h : Inv p r) (hs : p.requestSerial < kInt64Max) :
    Inv p.nextRequestIdUnlocked.2 r where
  serial_le := by simp only [nextRequestIdUnlocked_snd]; omega
  registered_sorted := h.registered_sorted
  registered_le x hx := by have := h.registered_le x hx; simp only [nextRequestIdUnlocked_snd]; omega
  unregistered_mem := h.unregistered_mem
  running_eq := h.running_eq
  complete_eq := h.complete_eq
  queue_sorted := h.queue_sorted
  queue_le e he := by have := h.queue_le e he; simp only [nextRequestIdUnlocked_snd]; omega
  queue_waits := h.queue_waits

theorem of_transactions (h : Inv p r) (transactions : List TransactionId) :
    Inv { p with transactions } r :=
  ⟨h.1, h.2, h.3, h.4, h.5, h.6, h.7, h.8, h.9⟩

theorem addTransaction (h : Inv p r) (id : TransactionId) : Inv (p.addTransaction id) r := by
  unfold Participant.addTransaction
  split
  · exact h
  · exact h.of_transactions _

theorem removeUnlocked (h : Inv p r) (id : TransactionId) : Inv (p.removeUnlocked id).2 r := by
  unfold Participant.removeUnlocked
  split
  · exact h
  split
  · exact h.of_transactions _
  rename_i hrun
  obtain ⟨front, rest, hfront⟩ : ∃ front rest, p.runningRequests = front :: rest := by
    cases hr : p.runningRequests with
    | nil => simp [hr] at hrun
    | cons front rest => exact ⟨front, rest, rfl⟩
  -- the new entry's tag is the serial, at or above every tag and every registered id
  have hfront_le : front ≤ p.requestSerial := by
    have hmem : front ∈ p.runningRequests := hfront ▸ List.mem_cons_self ..
    exact h.registered_le front ((h.mem_running front).mp hmem).1
  refine ⟨h.1, h.2, h.3, h.4, h.5, h.6, ?_, ?_, ?_⟩
  · exact List.pairwise_append.mpr ⟨h.queue_sorted, List.pairwise_singleton _ _,
      fun a ha b hb => by rw [List.mem_singleton.mp hb]; exact h.queue_le a ha⟩
  · intro e he
    rcases List.mem_append.mp he with he | he
    · exact h.queue_le e he
    · rw [List.mem_singleton.mp he]
  · intro e he
    rcases List.mem_append.mp he with he | he
    · exact h.queue_waits e he
    · rw [List.mem_singleton.mp he, hfront, List.headD_cons]
      exact hfront_le

theorem unregisterRequest_of_ne (h : Inv p r) {front x : Int} {rest : List Int}
    (hrun : p.runningRequests = front :: rest) (hne : front ≠ x) (hx : x ∈ r.registered)
    (hxu : x ∉ r.unregistered) :
    Inv { p with completeRequests := p.completeRequests.orderedInsert (· ≤ ·) x }
      { r with unregistered := x :: r.unregistered } := by
  have hsorted : (front :: rest).Pairwise (· < ·) := hrun ▸ h.running_sorted
  have hfu : front ∉ x :: r.unregistered := by
    simp [hne, (h.front_spec hrun).1]
  have hxrest : x ∈ rest := by
    have hmem : x ∈ p.runningRequests := (h.mem_running x).mpr ⟨hx, x, hx, hxu, le_rfl⟩
    rw [hrun] at hmem
    exact (List.mem_cons.mp hmem).resolve_left (Ne.symm hne)
  refine ⟨h.1, h.2, h.3, ?_, ?_, ?_, h.7, h.8, h.9⟩
  · intro y hy
    rcases List.mem_cons.mp hy with rfl | hy
    · exact hx
    · exact h.unregistered_mem y hy
  · -- the front is still running, so the deque keeps its place in the registered ids
    show p.runningRequests = r.registered.dropWhile fun y => decide (y ∈ x :: r.unregistered)
    rw [← dropWhile_dropWhile_of_imp (P := fun y => decide (y ∈ r.unregistered))
      (fun a ha => by simp at ha ⊢; exact Or.inr ha) r.registered, ← h.running_eq, hrun,
      List.dropWhile_cons_of_neg (by simpa using hfu)]
  · show p.completeRequests.orderedInsert (· ≤ ·) x = _
    rw [h.complete_eq, hrun, List.drop_one, List.tail_cons,
      orderedInsert_filter (List.pairwise_cons.mp hsorted).2 hxrest (by simpa using hxu)]
    exact List.filter_congr fun y _ => by simp [Bool.or_comm]

/-- At the front, the call leaves the deque at the next id still running and the heap at the
unregistered ids after it. -/
theorem popCompleteRequests (h : Inv p r) {front : Int} {rest : List Int}
    (hrun : p.runningRequests = front :: rest) :
    Participant.popCompleteRequests rest p.completeRequests =
      some (rest.dropWhile (fun y => decide (y ∈ front :: r.unregistered)),
        ((rest.dropWhile fun y => decide (y ∈ front :: r.unregistered)).drop 1).filter
          fun y => decide (y ∈ front :: r.unregistered)) := by
  have hsorted : (front :: rest).Pairwise (· < ·) := hrun ▸ h.running_sorted
  have hcomplete : p.completeRequests = rest.filter fun y => decide (y ∈ front :: r.unregistered) := by
    rw [h.complete_eq, hrun, List.drop_one, List.tail_cons]
    exact List.filter_congr fun y hy => by
      simp [ne_of_gt (List.rel_of_pairwise_cons hsorted hy)]
  rw [hcomplete]
  exact popCompleteRequests_filter (List.pairwise_cons.mp hsorted).2

theorem unregisterRequest_of_front (h : Inv p r) {front : Int} {rest : List Int}
    (hrun : p.runningRequests = front :: rest) :
    Inv (cleanTransactionsUnlocked { p with
        runningRequests := rest.dropWhile fun y => decide (y ∈ front :: r.unregistered),
        completeRequests := ((rest.dropWhile fun y => decide (y ∈ front :: r.unregistered)).drop
          1).filter fun y => decide (y ∈ front :: r.unregistered) })
      { r with unregistered := front :: r.unregistered } := by
  have hfront : front ∈ r.registered :=
    ((h.mem_running front).mp (hrun ▸ List.mem_cons_self ..)).1
  refine ⟨h.1, h.2, h.3, ?_, ?_, rfl, ?_, ?_, ?_⟩
  · intro y hy
    rcases List.mem_cons.mp hy with rfl | hy
    · exact hfront
    · exact h.unregistered_mem y hy
  · -- the registered ids up to the front are all unregistered now
    show rest.dropWhile (fun y => decide (y ∈ front :: r.unregistered)) =
      r.registered.dropWhile fun y => decide (y ∈ front :: r.unregistered)
    rw [← dropWhile_dropWhile_of_imp (P := fun y => decide (y ∈ r.unregistered))
      (fun a ha => by simp at ha ⊢; exact Or.inr ha) r.registered, ← h.running_eq, hrun,
      List.dropWhile_cons_of_pos (by simp)]
  · rw [cleanTransactionsUnlocked_cleanupQueue]
    exact h.queue_sorted.sublist (List.dropWhile_suffix _).sublist
  · intro e he
    rw [cleanTransactionsUnlocked_cleanupQueue] at he
    exact h.queue_le e ((List.dropWhile_suffix _).subset he)
  · intro e he
    rw [cleanTransactionsUnlocked_cleanupQueue] at he
    have hnot := not_of_mem_dropWhile (R := fun a b : CleanupQueueEntry => a.requestId ≤ b.requestId)
      (fun a b hab hb => by simp at hb ⊢; exact lt_of_le_of_lt hab hb) h.queue_sorted e he
    simpa using hnot

theorem step (h : Inv p r) {e : Event} (he : Allowed p r e) :
    ∃ p', p.step e = some p' ∧ Inv p' (r.record p e) := by
  cases e with
  | registerRequest => exact ⟨_, rfl, h.registerRequest he⟩
  | nextRequestId => exact ⟨_, rfl, h.nextRequestId he⟩
  | addTransaction id => exact ⟨_, rfl, h.addTransaction id⟩
  | removeUnlocked id => exact ⟨_, rfl, h.removeUnlocked id⟩
  | unregisterRequest x =>
    obtain ⟨hx, hxu⟩ := he
    obtain ⟨front, rest, hrun⟩ := h.running_cons hx hxu
    by_cases hfx : front = x
    · subst hfx
      exact ⟨_, Participant.unregisterRequest_of_front hrun (h.popCompleteRequests hrun),
        h.unregisterRequest_of_front hrun⟩
    · exact ⟨_, Participant.unregisterRequest_of_ne hrun hfx,
        h.unregisterRequest_of_ne hrun hfx hx hxu⟩

end Inv

/-! ## Runs -/

theorem Steps.inv {p p' : Participant} {r r' : Requests} {es : List Event}
    (run : Steps p r es p' r') : Inv p r → Inv p' r' := by
  induction run with
  | nil => exact id
  | cons hallowed hstep _ ih =>
    intro h
    obtain ⟨p₁, hstep₁, hinv⟩ := h.step hallowed
    rw [hstep] at hstep₁
    cases hstep₁
    exact ih hinv

theorem step_requestSerial {p p' : Participant} {e : Event} (hstep : p.step e = some p') :
    p.requestSerial ≤ p'.requestSerial := by
  cases e with
  | registerRequest | nextRequestId =>
    cases hstep
    simp
  | addTransaction id =>
    cases hstep
    unfold Participant.addTransaction
    split <;> exact le_rfl
  | removeUnlocked id =>
    cases hstep
    unfold Participant.removeUnlocked
    split
    · exact le_rfl
    split <;> exact le_rfl
  | unregisterRequest x =>
    simp only [Participant.step, unregisterRequest] at hstep
    split at hstep
    · cases hstep
    split at hstep
    · cases hstep
      exact le_rfl
    · obtain ⟨_, -, hp⟩ := Option.bind_eq_some_iff.mp hstep
      cases hp
      exact le_rfl

/-- Along a run the serial does not go down, the ids registered come after the ones before, above
the serial at its start, and no unregistered id is forgotten. -/
theorem Steps.extends {p p' : Participant} {r r' : Requests} {es : List Event}
    (run : Steps p r es p' r') :
    p.requestSerial ≤ p'.requestSerial ∧
      (∃ later, r'.registered = r.registered ++ later ∧ ∀ y ∈ later, p.requestSerial < y) ∧
      ∀ x ∈ r.unregistered, x ∈ r'.unregistered := by
  induction run with
  | nil => exact ⟨le_rfl, ⟨[], by simp, by simp⟩, fun _ hx => hx⟩
  | @cons p p₁ _ r _ e _ _ hstep _ ih =>
    obtain ⟨hserial, ⟨later, hlater, hgt⟩, hunreg⟩ := ih
    have hle := step_requestSerial hstep
    refine ⟨hle.trans hserial, ?_, fun x hx => hunreg x ?_⟩
    · cases e with
      | registerRequest =>
        refine ⟨[p.requestSerial + 1] ++ later, by simp [hlater, Requests.record], ?_⟩
        intro y hy
        rcases List.mem_append.mp hy with hy | hy
        · simp [List.mem_singleton.mp hy]
        · exact lt_of_le_of_lt hle (hgt y hy)
      | _ => exact ⟨later, hlater, fun y hy => lt_of_le_of_lt hle (hgt y hy)⟩
    · cases e <;> simp [Requests.record, hx]

/-! ## A removed transaction -/

/-- A removed transaction waiting for the requests before it: still held, queued with tag `τ`,
and with no entry of a lower tag. -/
structure Pending (t : TransactionId) (τ : Int) (p : Participant) : Prop where
  mem : t ∈ p.transactions
  queued : ⟨τ, t⟩ ∈ p.cleanupQueue
  first : ∀ e ∈ p.cleanupQueue, e.transactionId = t → τ ≤ e.requestId

theorem removeUnlocked_pending {p : Participant} {t : TransactionId} (ht : t ∈ p.transactions)
    (hrun : p.runningRequests ≠ []) (hfirst : ∀ e ∈ p.cleanupQueue, e.transactionId ≠ t) :
    Pending t p.requestSerial (p.removeUnlocked t).2 := by
  have hne : p.runningRequests.isEmpty = false := by simpa using hrun
  simp only [Participant.removeUnlocked, ht, not_true_eq_false, if_false, hne, Bool.false_eq_true]
  refine ⟨ht, by simp, fun e he het => ?_⟩
  rcases List.mem_append.mp he with he | he
  · exact absurd het (hfirst e he)
  · rw [List.mem_singleton.mp he]

/-- A call leaves a removed transaction pending while a request registered before its tag is
still running. -/
theorem step_pending {p p' : Participant} {r : Requests} {e : Event} {t : TransactionId} {τ : Int}
    (h : Inv p r) (he : Allowed p r e) (hstep : p.step e = some p') (hp : Pending t τ p)
    (hb : ∃ b ∈ r.registered, b ≤ τ ∧ b ∉ (r.record p e).unregistered) : Pending t τ p' := by
  obtain ⟨b, hbr, hbτ, hbu⟩ := hb
  cases e with
  | registerRequest | nextRequestId =>
    cases hstep
    exact ⟨hp.mem, hp.queued, hp.first⟩
  | addTransaction id =>
    cases hstep
    unfold Participant.addTransaction
    split
    · exact hp
    · exact ⟨List.mem_append_left _ hp.mem, hp.queued, hp.first⟩
  | removeUnlocked id =>
    cases hstep
    have hτ : τ ≤ p.requestSerial := h.queue_le _ hp.queued
    obtain ⟨front, rest, hrun⟩ := h.running_cons hbr hbu
    unfold Participant.removeUnlocked
    split
    · exact hp
    rw [if_neg (by simp [hrun])]
    refine ⟨hp.mem, List.mem_append_left _ hp.queued, fun e he het => ?_⟩
    rcases List.mem_append.mp he with he | he
    · exact hp.first e he het
    · rw [List.mem_singleton.mp he]
      exact hτ
  | unregisterRequest x =>
    obtain ⟨hx, hxu⟩ := he
    obtain ⟨front, rest, hrun⟩ := h.running_cons hx hxu
    by_cases hfx : front = x
    · subst hfx
      rw [step_unregisterRequest, unregisterRequest_of_front hrun (h.popCompleteRequests hrun)]
        at hstep
      cases hstep
      have hinv := h.unregisterRequest_of_front hrun
      -- the bound of the cleanup is the next id still running, at or below `b`
      have hm : (rest.dropWhile fun y => decide (y ∈ front :: r.unregistered)).headD kInt64Max ≤ b :=
        hinv.headD_le hbr hbu
      refine ⟨?_, ?_, ?_⟩
      · refine (mem_cleanTransactionsUnlocked_transactions _ t).mpr ⟨hp.mem, fun e he het => ?_⟩
        have hbelow := List.mem_takeWhile_imp he
        have hlt : e.requestId <
            (rest.dropWhile fun y => decide (y ∈ front :: r.unregistered)).headD kInt64Max :=
          of_decide_eq_true hbelow
        have := hp.first e ((List.takeWhile_sublist _).subset he) het
        omega
      · simp only [cleanTransactionsUnlocked_cleanupQueue]
        exact mem_dropWhile_of_not (by exact decide_eq_false (not_lt.mpr (hm.trans hbτ))) hp.queued
      · intro e he het
        simp only [cleanTransactionsUnlocked_cleanupQueue] at he
        exact hp.first e ((List.dropWhile_suffix _).subset he) het
    · rw [step_unregisterRequest, unregisterRequest_of_ne hrun hfx] at hstep
      cases hstep
      exact ⟨hp.mem, hp.queued, hp.first⟩

theorem Steps.pending {p p' : Participant} {r r' : Requests} {es : List Event} {t : TransactionId}
    {τ : Int} (run : Steps p r es p' r') (h : Inv p r) (hp : Pending t τ p)
    (hb : ∃ b ∈ r.registered, b ≤ τ ∧ b ∉ r'.unregistered) : Pending t τ p' := by
  induction run with
  | nil => exact hp
  | @cons p p₁ _ r _ e _ hallowed hstep rest ih =>
    obtain ⟨b, hbr, hbτ, hbu⟩ := hb
    obtain ⟨p₂, hstep₂, hinv⟩ := h.step hallowed
    rw [hstep] at hstep₂
    cases hstep₂
    have hbu₁ : b ∉ (r.record p e).unregistered := fun hb₁ => hbu (rest.extends.2.2 b hb₁)
    have hbr₁ : b ∈ (r.record p e).registered := by
      cases e <;> simp [Requests.record, hbr]
    exact ih hinv (step_pending h hallowed hstep hp ⟨b, hbr, hbτ, hbu₁⟩) ⟨b, hbr₁, hbτ, hbu⟩

/-- The call after which every id still running lies above a pending transaction's tag erases it,
if the tag is below the bound of an empty deque. -/
theorem step_erases {p p' : Participant} {r : Requests} {e : Event} {t : TransactionId} {τ : Int}
    (h : Inv p r) (he : Allowed p r e) (hstep : p.step e = some p') (hp : Pending t τ p)
    (hτ : τ < kInt64Max) (hbefore : ∃ b ∈ r.registered, b ∉ r.unregistered ∧ b ≤ τ)
    (hafter : ∀ y ∈ (r.record p e).registered, y ∉ (r.record p e).unregistered → τ < y) :
    t ∉ p'.transactions := by
  obtain ⟨b, hbr, hbu, hbτ⟩ := hbefore
  -- a call that unregisters nothing leaves `b` running
  have hkeep : (r.record p e).unregistered = r.unregistered →
      b ∈ (r.record p e).registered → False := fun hu hbr' =>
    absurd (hafter b hbr' (hu ▸ hbu)) (not_lt.mpr hbτ)
  cases e with
  | registerRequest => exact (hkeep rfl (List.mem_append_left _ hbr)).elim
  | nextRequestId => exact (hkeep rfl hbr).elim
  | addTransaction id => exact (hkeep rfl hbr).elim
  | removeUnlocked id => exact (hkeep rfl hbr).elim
  | unregisterRequest x =>
    obtain ⟨hx, hxu⟩ := he
    obtain ⟨front, rest, hrun⟩ := h.running_cons hx hxu
    have hfront := h.front_spec hrun
    by_cases hfx : front = x
    · subst hfx
      rw [step_unregisterRequest, unregisterRequest_of_front hrun (h.popCompleteRequests hrun)]
        at hstep
      cases hstep
      have hinv := h.unregisterRequest_of_front hrun
      -- the bound of the cleanup now lies above the tag
      have hm : τ < (rest.dropWhile fun y => decide (y ∈ front :: r.unregistered)).headD
          kInt64Max := by
        cases hnext : rest.dropWhile fun y => decide (y ∈ front :: r.unregistered) with
        | nil => exact hτ
        | cons next more =>
          have hnr : next ∈ rest := by
            have : next ∈ rest.dropWhile fun y => decide (y ∈ front :: r.unregistered) := by
              rw [hnext]
              exact List.mem_cons_self ..
            exact (List.dropWhile_suffix _).subset this
          have hreg : next ∈ r.registered :=
            ((h.mem_running next).mp (by rw [hrun]; exact List.mem_cons_of_mem _ hnr)).1
          exact hafter next hreg (hinv.front_spec hnext).1
      intro hmem
      have hq := mem_takeWhile_of_lt (f := CleanupQueueEntry.requestId) h.queue_sorted _
        hp.queued hm
      exact ((mem_cleanTransactionsUnlocked_transactions _ t).mp hmem).2 _ hq rfl
    · -- out of order, the front keeps running at or below `b`
      have hfb := hfront.2 b hbr hbu
      have hfu : front ∉ x :: r.unregistered := by simp [hfx, hfront.1]
      have hfr : front ∈ r.registered :=
        ((h.mem_running front).mp (hrun ▸ List.mem_cons_self ..)).1
      exact absurd (hafter front hfr hfu) (not_lt.mpr (hfb.trans hbτ))

/-- A transaction removed while requests run, with no earlier removal of it queued, stays while a
request registered before the removal runs, and goes with the call that unregisters the last of
them if the serial at the removal is below `INT64_MAX`. -/
theorem Steps.removal {p p₁ : Participant} {r r₁ : Requests} {t : TransactionId}
    {post : List Event} (h : Inv p r) (ht : t ∈ p.transactions) (hrun : p.runningRequests ≠ [])
    (hfirst : ∀ e ∈ p.cleanupQueue, e.transactionId ≠ t)
    (run : Steps p r (.removeUnlocked t :: post) p₁ r₁) :
    ((∃ b ∈ r.registered, b ∉ r₁.unregistered) → t ∈ p₁.transactions) ∧
      ∀ e p₂ r₂, Steps p₁ r₁ [e] p₂ r₂ → p.requestSerial < kInt64Max →
        (∃ b ∈ r.registered, b ∉ r₁.unregistered) → (∀ b ∈ r.registered, b ∈ r₂.unregistered) →
        t ∉ p₂.transactions := by
  cases run with
  | cons _ hstep rest =>
    cases hstep
    have hinv₀ : Inv (p.removeUnlocked t).2 r := h.removeUnlocked t
    -- from the removal on, the transaction is pending with the serial as its tag
    have hpending : (∃ b ∈ r.registered, b ∉ r₁.unregistered) → Pending t p.requestSerial p₁ :=
      fun ⟨b, hb, hbu⟩ => rest.pending hinv₀ (removeUnlocked_pending ht hrun hfirst)
        ⟨b, hb, h.registered_le b hb, hbu⟩
    refine ⟨fun hb => (hpending hb).mem, fun e p₂ r₂ last hτ hb hall => ?_⟩
    obtain ⟨b, hbr, hbu⟩ := hb
    obtain ⟨hserial, ⟨later, hlater, hgt⟩, -⟩ := rest.extends
    rw [removeUnlocked_requestSerial] at hserial hgt
    cases last with
    | cons hallowed hstep₂ last =>
      cases last
      refine step_erases (rest.inv hinv₀) hallowed hstep₂ (hpending ⟨b, hbr, hbu⟩) hτ
        ⟨b, hlater ▸ List.mem_append_left _ hbr, hbu, h.registered_le b hbr⟩ fun y hy hyu => ?_
      -- the ids registered before the removal are all unregistered, the later ones lie above it
      have hyr : y ∉ r.registered := fun hyr => hyu (hall y hyr)
      have hreg : y ∈ r₁.registered ∨ y = p₁.requestSerial + 1 := by
        cases e with
        | registerRequest => simpa [Requests.record] using hy
        | _ => exact Or.inl hy
      rcases hreg with hy | rfl
      · rw [hlater] at hy
        rcases List.mem_append.mp hy with hy | hy
        · exact absurd hy hyr
        · exact hgt y hy
      · omega

theorem steps_nextRequestId (p : Participant) (r : Requests) :
    ∀ n : Nat, p.requestSerial + n ≤ kInt64Max →
      Steps p r (List.replicate n .nextRequestId) { p with requestSerial := p.requestSerial + n } r
  | 0, _ => by
    rw [List.replicate_zero, Nat.cast_zero, add_zero]
    exact .nil p r
  | n + 1, hn => by
    push_cast at hn
    rw [List.replicate_succ, Nat.cast_succ, ← add_assoc, add_right_comm]
    exact .cons (show p.requestSerial < kInt64Max by omega) rfl
      (steps_nextRequestId { p with requestSerial := p.requestSerial + 1 } r n (by simp; omega))

end Participant

end FrescoDB.Tablet
