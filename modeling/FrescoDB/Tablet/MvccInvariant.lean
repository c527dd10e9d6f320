import FrescoDB.Tablet.Mvcc
import FrescoDB.Lib.SortedList

/-! What `MvccManager` keeps under the protocol its callers follow: the queue stays strictly
increasing with the aborted times a sorted sublist of its tail, no check fires, each kind of safe
time never goes back, and every safe time is below every time pending when it is returned and
every time added after it. -/
namespace FrescoDB.Tablet

open FrescoDB.Common FrescoDB.Lib HybridTime

namespace MvccManager

/-! ## `PopFront` -/

theorem dropAbortedFront_spec : ∀ {queue heap : List HybridTime}, queue.Pairwise (· < ·) →
    heap.Sublist queue → ∃ queue' heap', dropAbortedFront queue heap = .ok (queue', heap') ∧
      queue'.IsSuffix queue ∧ heap'.Sublist queue'.tail
  | queue, [], _, _ => ⟨queue, [], by cases queue <;> rfl, List.suffix_refl _, List.nil_sublist _⟩
  | [], _ :: _, _, hsub => absurd hsub.length_le (by simp)
  | front :: queue, top :: heap, hsorted, hsub => by
    by_cases hne : front = top
    · subst hne
      obtain ⟨queue', heap', hrun, hsuf, hs⟩ :=
        dropAbortedFront_spec hsorted.of_cons (List.cons_sublist_cons.mp hsub)
      refine ⟨queue', heap', ?_, hsuf.trans (List.suffix_cons _ _), hs⟩
      simp [dropAbortedFront, hrun]
    · -- the top is not the front, so it sits further on, above the front
      have htail : (top :: heap).Sublist queue := hsub.of_cons_of_ne (Ne.symm hne)
      have hlt : front < top := head_lt_of_sublist_tail hsorted htail top (List.mem_cons_self ..)
      exact ⟨front :: queue, top :: heap, by simp [dropAbortedFront, hne, hlt],
        List.suffix_refl _, htail⟩

theorem popFront_spec {s : MvccManager} (hsorted : s.queue.Pairwise (· < ·))
    (hsub : s.abortedHeap.Sublist s.queue.tail) :
    ∃ queue heap, s.popFront = .ok { s with queue, abortedHeap := heap } ∧
      queue.IsSuffix s.queue.tail ∧ heap.Sublist queue.tail := by
  have hlen : ¬ s.queue.tail.length < s.abortedHeap.length := Nat.not_lt.mpr hsub.length_le
  obtain ⟨queue, heap, hrun, hsuf, hs⟩ :=
    dropAbortedFront_spec (hsorted.sublist (List.tail_sublist _)) hsub
  refine ⟨queue, heap, ?_, hsuf, hs⟩
  simp only [popFront, hlen, if_false, hrun]
  rfl

/-! ## `AddPending` -/

theorem eraseAbortedRun_self : ∀ heap : List HybridTime, eraseAbortedRun heap heap = .ok ([], [])
  | [] => rfl
  | top :: heap => by simp [eraseAbortedRun, eraseAbortedRun_self heap]

theorem eraseAbortedTail_of_lt {s : MvccManager} {ht : HybridTime}
    (h : (∀ p ∈ s.queue, p < ht) ∨ s.abortedHeap = []) :
    s.eraseAbortedTail ht = .ok (s.queue, s.abortedHeap) := by
  unfold eraseAbortedTail
  split
  · rename_i back top _ hback htop
    have hlt : back < ht := by
      rcases h with h | h
      · exact h back (List.mem_of_getLast? hback)
      · simp [h] at htop
    simp [not_le.mpr hlt]
  · rfl

theorem eraseAbortedTail_of_suffix {s : MvccManager} {ht : HybridTime} {before : List HybridTime}
    (hsorted : s.queue.Pairwise (· < ·)) (hsuf : s.queue = before ++ s.abortedHeap)
    (hne : s.abortedHeap ≠ []) (hle : ∃ p ∈ s.queue, ht ≤ p) :
    s.eraseAbortedTail ht = .ok (before, []) := by
  obtain ⟨top, rest, hheap⟩ := List.exists_cons_of_ne_nil hne
  obtain ⟨p, hp, hhp⟩ := hle
  have hqne : s.queue ≠ [] := List.ne_nil_of_mem hp
  have hback : ht ≤ s.queue.getLast hqne := le_trans hhp ((hsorted.imp le_of_lt).rel_getLast hp)
  have hspan : s.queue.span (· < top) = (before, top :: rest) := by
    rw [hsuf, hheap]
    rw [hsuf, hheap] at hsorted
    exact span_lt_of_pairwise hsorted
  unfold eraseAbortedTail
  rw [List.getLast?_eq_some_getLast hqne, hheap]
  simp only [hback, if_true, hspan, ← hheap, hne, if_false, eraseAbortedRun_self]
  simp [Except.map]

/-! ## The protocol and the invariant -/

/-- What the callers promise about the next call. `clock` is the latest time the node's clock has
shown or been updated with: a leader's new time comes from the clock, which is ahead of every time
added before, and a follower's time is above every safe time returned and every pending time that
is not aborted; when it is not above the whole queue, the aborted times are the queue's tail (Raft
aborts a suffix of the log). Only the calls of a running tablet take part: `SetLastReplicated`
(bootstrap) and the propagated safe time are not in the protocol. -/
def Allowed (s : MvccManager) (clock : HybridTime) : MvccCall → Prop
  | .addPending ht now =>
    (ht.isValid = false → clock < now) ∧
    (ht.isValid = true →
      s.lastReplicated < ht ∧ s.maxSafeTimeReturnedWithLease < ht ∧
      s.maxSafeTimeReturnedWithoutLease < ht ∧ s.maxSafeTimeReturnedForFollower < ht ∧
      (∀ p ∈ s.queue, p ∉ s.abortedHeap → p < ht) ∧
      ((∃ p ∈ s.queue, ht ≤ p) → s.abortedHeap.IsSuffix s.queue))
  | .replicated ht => s.queue.head? = some ht
  | .aborted ht => ht ∈ s.queue ∧ ht ∉ s.abortedHeap
  | .safeTime minAllowed _ htLease now =>
    htLease.isValid = true ∧ minAllowed ≤ htLease ∧ (s.queue = [] → clock < now ∧ minAllowed ≤ now)
  | .safeTimeForFollower _ _ => True
  | .lastReplicatedHybridTime => True
  | .setLastReplicated _ | .setPropagatedSafeTimeOnFollower _
  | .updatePropagatedSafeTimeOnLeader _ _ => False

/-- The clock after the call: `AddPending` takes a leader's time from it or updates it with a
follower's, and `SafeTime` reads it on an empty queue. -/
def clockAfter (s : MvccManager) (clock : HybridTime) : MvccCall → HybridTime
  | .addPending ht now => max clock (if ht.isValid then ht else now)
  | .safeTime _ _ _ now => if s.queue = [] then max clock now else clock
  | _ => clock

structure Inv (s : MvccManager) (clock : HybridTime) : Prop where
  sorted : s.queue.Pairwise (· < ·)
  abortedSublist : s.abortedHeap.Sublist s.queue.tail
  lastReplicated_lt : ∀ p ∈ s.queue, s.lastReplicated < p
  withLease_lt : ∀ p ∈ s.queue, s.maxSafeTimeReturnedWithLease < p
  withoutLease_lt : ∀ p ∈ s.queue, s.maxSafeTimeReturnedWithoutLease < p
  forFollower_le : s.maxSafeTimeReturnedForFollower ≤ s.lastReplicated
  propagated_le : s.propagatedSafeTime ≤ s.lastReplicated
  withLease_le_lease : s.maxSafeTimeReturnedWithLease ≤ max s.maxHtLeaseSeen s.lastReplicated
  queue_le_clock : ∀ p ∈ s.queue, p ≤ clock
  lastReplicated_le_clock : s.lastReplicated ≤ clock
  withLease_le_clock : s.maxSafeTimeReturnedWithLease ≤ clock
  withoutLease_le_clock : s.maxSafeTimeReturnedWithoutLease ≤ clock

theorem inv_init : Inv {} kMin where
  sorted := List.Pairwise.nil
  abortedSublist := List.Sublist.slnil
  lastReplicated_lt := by simp
  withLease_lt := by simp
  withoutLease_lt := by simp
  forFollower_le := le_rfl
  propagated_le := le_rfl
  withLease_le_lease := le_max_left _ _
  queue_le_clock := by simp
  lastReplicated_le_clock := le_rfl
  withLease_le_clock := le_rfl
  withoutLease_le_clock := le_rfl

/-! ## Calls and what they return -/

inductive SafeTimeKind
  | withLease
  | withoutLease
  | forFollower
  deriving DecidableEq, Repr

/-- The last safe time returned of each kind, as the manager records it. -/
def maxSafeTimeReturned (s : MvccManager) : SafeTimeKind → HybridTime
  | .withLease => s.maxSafeTimeReturnedWithLease
  | .withoutLease => s.maxSafeTimeReturnedWithoutLease
  | .forFollower => s.maxSafeTimeReturnedForFollower

end MvccManager

open MvccManager

/-- The kind of safe time a call asks for. -/
def MvccCall.safeTimeKind : MvccCall → Option SafeTimeKind
  | .safeTime _ _ htLease _ => some (if hasLease htLease then .withLease else .withoutLease)
  | .safeTimeForFollower _ _ => some .forFollower
  | _ => none

/-- One call of a run: the state it ran in, the call and its reply. -/
structure MvccEvent where
  state : MvccManager
  call : MvccCall
  reply : MvccReply

/-- The safe time the call returned, with its kind; a wait or a timeout returns none. -/
def MvccEvent.safeTime (e : MvccEvent) : Option (SafeTimeKind × HybridTime) :=
  match e.call.safeTimeKind, e.reply with
  | some k, .time t => some (k, t)
  | _, _ => none

/-- The time `AddPending` put into the queue. -/
def MvccEvent.added (e : MvccEvent) : Option HybridTime :=
  match e.call, e.reply with
  | .addPending _ _, .time h => some h
  | _, _ => none

-- Equation lemmas, made once before their uses.
section
attribute [local simp] MvccEvent.safeTime MvccEvent.added
end

namespace MvccManager

/-- What one call tells about the safe times: none goes back, a returned one is at least the last
of its kind and below every pending time, and an added time is above all of them. -/
structure EventFacts (e : MvccEvent) (s' : MvccManager) : Prop where
  maxReturned_le : ∀ k, e.state.maxSafeTimeReturned k ≤ s'.maxSafeTimeReturned k
  safeTime_spec : ∀ k t, e.safeTime = some (k, t) →
    e.state.maxSafeTimeReturned k ≤ t ∧ s'.maxSafeTimeReturned k = t ∧ ∀ p ∈ e.state.queue, t < p
  added_gt : ∀ h, e.added = some h → ∀ k, e.state.maxSafeTimeReturned k < h

/-- An allowed call succeeds, keeps the invariant and tells the facts above. -/
def GoodStep (ndebug : Bool) (s : MvccManager) (clock : HybridTime) (c : MvccCall) : Prop :=
  ∃ r s', s.step ndebug c = .ok (r, s') ∧ Inv s' (clockAfter s clock c) ∧ EventFacts ⟨s, c, r⟩ s'

theorem eventFacts_of_quiet {s s' : MvccManager} {c : MvccCall} {r : MvccReply}
    (hkind : c.safeTimeKind = none) (hadded : ∀ h, MvccEvent.added ⟨s, c, r⟩ ≠ some h)
    (hsame : ∀ k, s'.maxSafeTimeReturned k = s.maxSafeTimeReturned k) :
    EventFacts ⟨s, c, r⟩ s' where
  maxReturned_le k := (hsame k).ge
  safeTime_spec k t h := by simp [MvccEvent.safeTime, hkind] at h
  added_gt h hh := absurd hh (hadded h)

/-! ## `AddPending` under the protocol -/

variable {s : MvccManager} {clock : HybridTime}

theorem eraseAbortedTail_spec (hinv : Inv s clock) {h : HybridTime}
    (hkept : ∀ p ∈ s.queue, p ∉ s.abortedHeap → p < h)
    (hsuffix : (∃ p ∈ s.queue, h ≤ p) → s.abortedHeap.IsSuffix s.queue) :
    ∃ kept heap, s.eraseAbortedTail h = .ok (kept, heap) ∧ kept.Sublist s.queue ∧
      heap.Sublist kept.tail ∧ ∀ p ∈ kept, p < h := by
  by_cases hall : ∀ p ∈ s.queue, p < h
  · exact ⟨s.queue, s.abortedHeap, eraseAbortedTail_of_lt (.inl hall), List.Sublist.refl _,
      hinv.abortedSublist, hall⟩
  · have hle : ∃ p ∈ s.queue, h ≤ p := by
      simpa only [not_forall, not_lt, exists_prop] using hall
    obtain ⟨before, hsuf⟩ := hsuffix hle
    -- the aborted run is not empty, or every pending time would be below the new one
    have hne : s.abortedHeap ≠ [] := by
      intro hnil
      exact hall fun p hp => hkept p hp (by simp [hnil])
    have hqueue : s.queue = before ++ s.abortedHeap := hsuf.symm
    have hdisjoint : ∀ a ∈ before, ∀ b ∈ s.abortedHeap, a ≠ b := by
      have := hinv.sorted.nodup
      rw [hqueue] at this
      exact (List.nodup_append.mp this).2.2
    refine ⟨before, [], eraseAbortedTail_of_suffix hinv.sorted hqueue hne hle, ?_,
      List.nil_sublist _, ?_⟩
    · rw [hqueue]
      exact List.sublist_append_left _ _
    · intro p hp
      exact hkept p (by rw [hqueue]; exact List.mem_append_left _ hp)
        fun hmem => hdisjoint p hp p hmem rfl

/-- A leader's time from the clock, or a follower's time under the protocol, is above every
recorded time and every pending time that is not aborted. -/
theorem addPending_time_gt (hinv : Inv s clock) {ht now : HybridTime}
    (hallowed : Allowed s clock (.addPending ht now)) :
    s.lastReplicated < (if ht.isValid then ht else now) ∧
    (∀ k, s.maxSafeTimeReturned k < if ht.isValid then ht else now) ∧
    (∀ p ∈ s.queue, p ∉ s.abortedHeap → p < if ht.isValid then ht else now) ∧
    ((∃ p ∈ s.queue, (if ht.isValid then ht else now) ≤ p) →
      s.abortedHeap.IsSuffix s.queue) := by
  obtain ⟨hleader, hfollower⟩ := hallowed
  cases hv : ht.isValid
  · have hnow := hleader hv
    simp only [Bool.false_eq_true, if_false]
    refine ⟨lt_of_le_of_lt hinv.lastReplicated_le_clock hnow, ?_, ?_, ?_⟩
    · intro k
      cases k
      · exact lt_of_le_of_lt hinv.withLease_le_clock hnow
      · exact lt_of_le_of_lt hinv.withoutLease_le_clock hnow
      · exact lt_of_le_of_lt (hinv.forFollower_le.trans hinv.lastReplicated_le_clock) hnow
    · exact fun p hp _ => lt_of_le_of_lt (hinv.queue_le_clock p hp) hnow
    · rintro ⟨p, hp, hle⟩
      exact absurd (lt_of_le_of_lt (hinv.queue_le_clock p hp) hnow) (not_lt.mpr hle)
  · obtain ⟨hR, hwith, hwithout, hfollow, hkept, hsuffix⟩ := hfollower hv
    simp only [if_true]
    refine ⟨hR, ?_, hkept, hsuffix⟩
    intro k
    cases k
    · exact hwith
    · exact hwithout
    · exact hfollow

theorem sanityCheckLowerBound_lt {kept : List HybridTime} {h : HybridTime}
    (hkept : ∀ p ∈ kept, p < h) (hR : s.lastReplicated < h)
    (hgt : ∀ k, s.maxSafeTimeReturned k < h) :
    s.sanityCheckLowerBound (kept.getLast?.getD kMin) < h := by
  have hlast : kept.getLast?.getD kMin < h := by
    cases hl : kept.getLast? with
    | none => exact lt_of_le_of_lt (kMin_le _) hR
    | some back => exact hkept back (List.mem_of_getLast? hl)
  simp only [sanityCheckLowerBound, max_lt_iff]
  exact ⟨⟨⟨⟨hgt .withLease, hgt .withoutLease⟩, hgt .forFollower⟩, hR⟩, hlast⟩

theorem addPending_of_bound_lt (ndebug : Bool) {ht now : HybridTime} {kept heap : List HybridTime}
    (herase : s.eraseAbortedTail (if ht.isValid then ht else now) = .ok (kept, heap))
    (hbound : s.sanityCheckLowerBound (kept.getLast?.getD kMin) < if ht.isValid then ht else now) :
    s.addPending ndebug ht now = .ok (if ht.isValid then ht else now,
      { s with queue := kept ++ [if ht.isValid then ht else now], abortedHeap := heap }) := by
  simp only [addPending, herase, bind, Except.bind, not_le.mpr hbound, and_false, if_false]
  rfl

theorem inv_append (hinv : Inv s clock) {kept heap : List HybridTime} {h : HybridTime}
    (hsub : kept.Sublist s.queue) (hheap : heap.Sublist kept.tail) (hkept : ∀ p ∈ kept, p < h)
    (hR : s.lastReplicated < h) (hgt : ∀ k, s.maxSafeTimeReturned k < h) :
    Inv { s with queue := kept ++ [h], abortedHeap := heap } (max clock h) where
  sorted := List.pairwise_append.mpr ⟨hinv.sorted.sublist hsub, List.pairwise_singleton _ _,
    fun a ha b hb => (List.mem_singleton.mp hb) ▸ hkept a ha⟩
  abortedSublist := hheap.trans (by cases kept <;> simp)
  lastReplicated_lt := List.forall_mem_append.mpr
    ⟨fun p hp => hinv.lastReplicated_lt p (hsub.subset hp), List.forall_mem_singleton.mpr hR⟩
  withLease_lt := List.forall_mem_append.mpr
    ⟨fun p hp => hinv.withLease_lt p (hsub.subset hp), List.forall_mem_singleton.mpr (hgt .withLease)⟩
  withoutLease_lt := List.forall_mem_append.mpr
    ⟨fun p hp => hinv.withoutLease_lt p (hsub.subset hp),
      List.forall_mem_singleton.mpr (hgt .withoutLease)⟩
  forFollower_le := hinv.forFollower_le
  propagated_le := hinv.propagated_le
  withLease_le_lease := hinv.withLease_le_lease
  queue_le_clock := List.forall_mem_append.mpr
    ⟨fun p hp => (hinv.queue_le_clock p (hsub.subset hp)).trans (le_max_left _ _),
      List.forall_mem_singleton.mpr (le_max_right _ _)⟩
  lastReplicated_le_clock := hinv.lastReplicated_le_clock.trans (le_max_left _ _)
  withLease_le_clock := hinv.withLease_le_clock.trans (le_max_left _ _)
  withoutLease_le_clock := hinv.withoutLease_le_clock.trans (le_max_left _ _)

theorem addPending_spec (ndebug : Bool) (hinv : Inv s clock) {ht now : HybridTime}
    (hallowed : Allowed s clock (.addPending ht now)) :
    GoodStep ndebug s clock (.addPending ht now) := by
  obtain ⟨hR, hgt, hkept, hsuffix⟩ := addPending_time_gt hinv hallowed
  obtain ⟨kept, heap, herase, hsub, hheap, hbelow⟩ := eraseAbortedTail_spec hinv hkept hsuffix
  have hstep := addPending_of_bound_lt ndebug herase (sanityCheckLowerBound_lt hbelow hR hgt)
  refine ⟨.time (if ht.isValid then ht else now), _, by simp [step, hstep, Except.map],
    inv_append hinv hsub hheap hbelow hR hgt, ?_, ?_, ?_⟩
  · intro k
    cases k <;> exact le_rfl
  · simp [MvccEvent.safeTime, MvccCall.safeTimeKind]
  · intro h hh k
    simp only [MvccEvent.added, Option.some.injEq] at hh
    exact hh ▸ hgt k

/-! ## `Replicated` and `Aborted` -/

/-- Popping the front keeps the invariant, with a last replicated time between the old one and the
popped front. -/
theorem inv_pop (hinv : Inv s clock) {front : HybridTime} {rest queue heap : List HybridTime}
    (hfront : s.queue = front :: rest) (hsuf : queue.IsSuffix rest)
    (hheap : heap.Sublist queue.tail) {r : HybridTime} (hr : s.lastReplicated ≤ r)
    (hrf : r ≤ front) :
    Inv { s with queue, abortedHeap := heap, lastReplicated := r } clock := by
  have hsorted : (front :: rest).Pairwise (· < ·) := hfront ▸ hinv.sorted
  have hmem : ∀ p ∈ queue, p ∈ s.queue := fun p hp => hfront ▸ List.mem_cons_of_mem _ (hsuf.subset hp)
  have hfront_le : front ≤ clock := hinv.queue_le_clock front (hfront ▸ List.mem_cons_self ..)
  exact {
    sorted := hsorted.of_cons.sublist hsuf.sublist
    abortedSublist := hheap
    lastReplicated_lt := fun p hp =>
      lt_of_le_of_lt hrf (List.rel_of_pairwise_cons hsorted (hsuf.subset hp))
    withLease_lt := fun p hp => hinv.withLease_lt p (hmem p hp)
    withoutLease_lt := fun p hp => hinv.withoutLease_lt p (hmem p hp)
    forFollower_le := hinv.forFollower_le.trans hr
    propagated_le := hinv.propagated_le.trans hr
    withLease_le_lease := hinv.withLease_le_lease.trans (max_le_max le_rfl hr)
    queue_le_clock := fun p hp => hinv.queue_le_clock p (hmem p hp)
    lastReplicated_le_clock := hrf.trans hfront_le
    withLease_le_clock := hinv.withLease_le_clock
    withoutLease_le_clock := hinv.withoutLease_le_clock }

theorem replicated_spec (ndebug : Bool) (hinv : Inv s clock) {ht : HybridTime}
    (hallowed : Allowed s clock (.replicated ht)) : GoodStep ndebug s clock (.replicated ht) := by
  obtain ⟨rest, hfront⟩ := List.head?_eq_some_iff.mp hallowed
  obtain ⟨queue, heap, hpop, hsuf, hheap⟩ := popFront_spec hinv.sorted hinv.abortedSublist
  rw [hfront] at hsuf
  have hR : s.lastReplicated < ht := hinv.lastReplicated_lt ht (hfront ▸ List.mem_cons_self ..)
  refine ⟨.done, { s with queue, abortedHeap := heap, lastReplicated := ht }, ?_,
    inv_pop hinv hfront hsuf hheap hR.le le_rfl,
    eventFacts_of_quiet rfl (fun _ => by simp [MvccEvent.added]) (fun k => by cases k <;> rfl)⟩
  simp [step, replicated, hfront, hpop, Except.map]

theorem aborted_spec (ndebug : Bool) (hinv : Inv s clock) {ht : HybridTime}
    (hallowed : Allowed s clock (.aborted ht)) : GoodStep ndebug s clock (.aborted ht) := by
  obtain ⟨hmem, hnot⟩ := hallowed
  obtain ⟨front, rest, hfront⟩ := List.exists_cons_of_ne_nil (List.ne_nil_of_mem hmem)
  have hquiet : ∀ s' : MvccManager, (∀ k, s'.maxSafeTimeReturned k = s.maxSafeTimeReturned k) →
      EventFacts ⟨s, .aborted ht, .done⟩ s' :=
    fun _ hsame => eventFacts_of_quiet rfl (fun _ => by simp [MvccEvent.added]) hsame
  by_cases hft : front = ht
  · -- the front is aborted: it is popped as if replicated, and the last replicated time stays
    obtain ⟨queue, heap, hpop, hsuf, hheap⟩ := popFront_spec hinv.sorted hinv.abortedSublist
    rw [hfront] at hsuf
    have hR : s.lastReplicated ≤ front :=
      (hinv.lastReplicated_lt front (hfront ▸ List.mem_cons_self ..)).le
    refine ⟨.done, { s with queue, abortedHeap := heap }, ?_,
      inv_pop hinv hfront hsuf hheap le_rfl hR, hquiet _ (fun k => by cases k <;> rfl)⟩
    simp [step, aborted, hfront, hft, hpop, Except.map]
  · -- any other time waits in the heap, which stays a sorted sublist of the tail
    have hrest : ht ∈ rest := by
      rw [hfront] at hmem
      exact (List.mem_cons.mp hmem).resolve_left (Ne.symm hft)
    have hsorted : (front :: rest).Pairwise (· < ·) := hfront ▸ hinv.sorted
    have hsub : s.abortedHeap.Sublist rest := by
      simpa [hfront] using hinv.abortedSublist
    refine ⟨.done, { s with abortedHeap := s.abortedHeap.orderedInsert (· ≤ ·) ht }, ?_,
      { hinv with
        abortedSublist := by
          rw [hfront]
          exact orderedInsert_sublist_of_mem hsorted.of_cons hsub hrest hnot },
      hquiet _ (fun k => by cases k <;> rfl)⟩
    simp [step, aborted, hfront, hft, Except.map]

/-! ## `SafeTime` and `SafeTimeForFollower` -/

theorem Inv.mono_clock (hinv : Inv s clock) {clock' : HybridTime} (hle : clock ≤ clock') :
    Inv s clock' :=
  { hinv with
    queue_le_clock := fun p hp => (hinv.queue_le_clock p hp).trans hle
    lastReplicated_le_clock := hinv.lastReplicated_le_clock.trans hle
    withLease_le_clock := hinv.withLease_le_clock.trans hle
    withoutLease_le_clock := hinv.withoutLease_le_clock.trans hle }

/-- The candidate of `DoGetSafeTime`, read off its source: the clock on an empty queue, just below
the front otherwise. -/
theorem safeTimeCandidate_eq {minAllowed now : HybridTime} {hasLease : Bool}
    (hnow : s.queue = [] → minAllowed ≤ now) :
    ∃ a, (s.queue = [] → a = now) ∧ (∀ front ∈ s.queue.head?, a = front.decremented) ∧
      s.safeTimeCandidate minAllowed hasLease now =
        .ok (max (if hasLease && s.maxHtLeaseSeen < a then s.maxHtLeaseSeen else a) s.lastReplicated) := by
  cases hq : s.queue with
  | nil =>
    refine ⟨now, fun _ => rfl, by simp, ?_⟩
    simp [safeTimeCandidate, hq, not_lt.mpr (hnow hq), bind, Except.bind, pure, Except.pure]
  | cons front rest =>
    refine ⟨front.decremented, by simp, by simp, ?_⟩
    simp [safeTimeCandidate, hq, bind, Except.bind, pure, Except.pure]

/-- Under the invariant the candidate is below every pending time, at least the last safe time of
the kind asked for, within the largest lease and the last replicated time, and within the clock
after the call. -/
theorem safeTimeCandidate_spec (hinv : Inv s clock) (hasLease : Bool) {minAllowed now : HybridTime}
    (hnow : s.queue = [] → clock < now ∧ minAllowed ≤ now) :
    ∃ t, s.safeTimeCandidate minAllowed hasLease now = .ok t ∧ (∀ p ∈ s.queue, t < p) ∧
      (if hasLease then s.maxSafeTimeReturnedWithLease else s.maxSafeTimeReturnedWithoutLease) ≤ t ∧
      (hasLease = true → t ≤ max s.maxHtLeaseSeen s.lastReplicated) ∧
      t ≤ (if s.queue = [] then max clock now else clock) := by
  obtain ⟨a, hempty, hfront, hcand⟩ := safeTimeCandidate_eq (fun hq => (hnow hq).2)
  -- the source `a` is at or above both recorded safe times, below every pending time, and
  -- within the clock after the call
  have hsource : s.maxSafeTimeReturnedWithLease ≤ a ∧ s.maxSafeTimeReturnedWithoutLease ≤ a ∧
      (∀ p ∈ s.queue, a < p) ∧ a ≤ (if s.queue = [] then max clock now else clock) := by
    cases hq : s.queue with
    | nil =>
      have ha : a = now := hempty hq
      have hclock := (hnow hq).1
      subst ha
      exact ⟨(hinv.withLease_le_clock.trans_lt hclock).le,
        (hinv.withoutLease_le_clock.trans_lt hclock).le, by simp, by simp⟩
    | cons front rest =>
      have hmem : front ∈ s.queue := hq ▸ List.mem_cons_self ..
      have ha : a = front.decremented := hfront front (by simp [hq])
      have hlt : a < front := ha ▸ decremented_lt (hinv.lastReplicated_lt front hmem)
      have hsorted : (front :: rest).Pairwise (· < ·) := hq ▸ hinv.sorted
      refine ⟨ha ▸ le_decremented (hinv.withLease_lt front hmem),
        ha ▸ le_decremented (hinv.withoutLease_lt front hmem), ?_, ?_⟩
      · intro p hp
        rcases List.mem_cons.mp hp with rfl | hp
        · exact hlt
        · exact hlt.trans (List.rel_of_pairwise_cons hsorted hp)
      · simpa using (hlt.trans_le (hinv.queue_le_clock front hmem)).le
  obtain ⟨hwith, hwithout, hbelow, hclock⟩ := hsource
  refine ⟨_, hcand, ?_, ?_, ?_, ?_⟩
  · intro p hp
    have hcap : (if hasLease && s.maxHtLeaseSeen < a then s.maxHtLeaseSeen else a) < p := by
      split
      · rename_i h
        exact (decide_eq_true_iff.mp (Bool.and_eq_true_iff.mp h).2).trans (hbelow p hp)
      · exact hbelow p hp
    exact max_lt hcap (hinv.lastReplicated_lt p hp)
  · cases hasLease
    · simpa using le_max_of_le_left hwithout
    · by_cases h : s.maxHtLeaseSeen < a
      · simpa [h] using hinv.withLease_le_lease
      · simpa [h] using le_max_of_le_left hwith
  · intro hl
    subst hl
    apply max_le_max _ le_rfl
    by_cases h : s.maxHtLeaseSeen < a
    · simp [h]
    · simpa [h] using not_lt.mp h
  · apply max_le
    · split
      · rename_i h
        exact le_trans (decide_eq_true_iff.mp (Bool.and_eq_true_iff.mp h).2).le hclock
      · exact hclock
    · split
      · exact hinv.lastReplicated_le_clock.trans (le_max_left _ _)
      · exact hinv.lastReplicated_le_clock

theorem inv_leaseSeen (hinv : Inv s clock) (htLease : HybridTime) :
    Inv { s with maxHtLeaseSeen := max htLease s.maxHtLeaseSeen } clock :=
  { hinv with
    withLease_le_lease := hinv.withLease_le_lease.trans (max_le_max (le_max_right _ _) le_rfl) }

theorem eventFacts_of_untimed {s s' : MvccManager} {c : MvccCall} {r : MvccReply}
    (hreply : ∀ t, r ≠ .time t)
    (hsame : ∀ k, s'.maxSafeTimeReturned k = s.maxSafeTimeReturned k) :
    EventFacts ⟨s, c, r⟩ s' where
  maxReturned_le k := (hsame k).ge
  safeTime_spec k t h := by
    cases r <;> simp_all [MvccEvent.safeTime]
  added_gt h hh := by
    cases r <;> simp_all [MvccEvent.added]

theorem waitReply_ne_time (deadline : Deadline) (t : HybridTime) :
    (match deadline with | .max => MvccReply.waiting | .finite => .timedOut) ≠ .time t := by
  cases deadline <;> simp

theorem safeTime_spec (ndebug : Bool) (hinv : Inv s clock) {minAllowed : HybridTime}
    {deadline : Deadline} {htLease now : HybridTime}
    (hallowed : Allowed s clock (.safeTime minAllowed deadline htLease now)) :
    GoodStep ndebug s clock (.safeTime minAllowed deadline htLease now) := by
  obtain ⟨hvalid, hmin, hnow⟩ := hallowed
  have hclock : clock ≤ clockAfter s clock (.safeTime minAllowed deadline htLease now) := by
    simp only [clockAfter]
    split
    · exact le_max_left _ _
    · exact le_rfl
  have hwait := waitReply_ne_time deadline
  cases hl : hasLease htLease
  · -- without a lease, the candidate is recorded as the safe time without a lease
    obtain ⟨t, hcand, hbelow, hge, -, hle⟩ := safeTimeCandidate_spec hinv false hnow
    simp only [Bool.false_eq_true, if_false] at hge
    by_cases hlt : t < minAllowed
    · refine ⟨_, s, ?_, hinv.mono_clock hclock, eventFacts_of_untimed (hwait) (fun _ => rfl)⟩
      cases deadline <;> simp [step, doGetSafeTime, hvalid, not_lt.mpr hmin, hl, hcand, hlt,
        bind, Except.bind, pure, Except.pure]
    · refine ⟨.time t, { s with maxSafeTimeReturnedWithoutLease := t }, ?_,
        { hinv.mono_clock hclock with withoutLease_lt := hbelow, withoutLease_le_clock := hle },
        ?_, ?_, ?_⟩
      · simp [step, doGetSafeTime, hvalid, not_lt.mpr hmin, hl, hcand, hlt, not_lt.mpr hge,
          bind, Except.bind, pure, Except.pure]
      · intro k
        cases k
        · exact le_rfl
        · exact hge
        · exact le_rfl
      · intro k t' h
        simp only [MvccEvent.safeTime, MvccCall.safeTimeKind, hl, Bool.false_eq_true, if_false,
          Option.some.injEq, Prod.mk.injEq] at h
        obtain ⟨rfl, rfl⟩ := h
        exact ⟨hge, rfl, hbelow⟩
      · intro h hh
        simp [MvccEvent.added] at hh
  · -- with a lease, the largest lease seen is raised first, and caps the candidate
    have hinv1 := inv_leaseSeen hinv htLease
    obtain ⟨t, hcand, hbelow, hge, hlease, hle⟩ := safeTimeCandidate_spec hinv1 true hnow
    simp only [if_true] at hge
    by_cases hlt : t < minAllowed
    · refine ⟨_, _, ?_, hinv1.mono_clock hclock, eventFacts_of_untimed (hwait) (fun k => by
        cases k <;> rfl)⟩
      cases deadline <;> simp [step, doGetSafeTime, hvalid, not_lt.mpr hmin, hl, hcand, hlt,
        bind, Except.bind, pure, Except.pure]
    · refine ⟨.time t,
        { s with
          maxHtLeaseSeen := max htLease s.maxHtLeaseSeen
          maxSafeTimeReturnedWithLease := t }, ?_,
        { hinv1.mono_clock hclock with
          withLease_lt := hbelow, withLease_le_lease := hlease rfl, withLease_le_clock := hle },
        ?_, ?_, ?_⟩
      · simp [step, doGetSafeTime, hvalid, not_lt.mpr hmin, hl, hcand, hlt, not_lt.mpr hge,
          bind, Except.bind, pure, Except.pure]
      · intro k
        cases k
        · exact hge
        · exact le_rfl
        · exact le_rfl
      · intro k t' h
        simp only [MvccEvent.safeTime, MvccCall.safeTimeKind, hl, if_true, Option.some.injEq,
          Prod.mk.injEq] at h
        obtain ⟨rfl, rfl⟩ := h
        exact ⟨hge, rfl, hbelow⟩
      · intro h hh
        simp [MvccEvent.added] at hh

theorem safeTimeForFollower_spec (ndebug : Bool) (hinv : Inv s clock) (minAllowed : HybridTime)
    (deadline : Deadline) : GoodStep ndebug s clock (.safeTimeForFollower minAllowed deadline) := by
  -- the propagated safe time never passes the last replicated time, which is the result
  have hresult : (if s.lastReplicated < s.propagatedSafeTime then s.propagatedSafeTime
      else s.lastReplicated) = s.lastReplicated := if_neg (not_lt.mpr hinv.propagated_le)
  by_cases hlt : s.lastReplicated < minAllowed
  · refine ⟨_, s, ?_, hinv, eventFacts_of_untimed (waitReply_ne_time deadline) (fun _ => rfl)⟩
    cases deadline <;> simp [step, safeTimeForFollower, hresult, hlt, pure, Except.pure]
  · refine ⟨.time s.lastReplicated, { s with maxSafeTimeReturnedForFollower := s.lastReplicated },
      ?_, { hinv with forFollower_le := le_rfl }, ?_, ?_, ?_⟩
    · simp [step, safeTimeForFollower, hresult, hlt, not_lt.mpr hinv.forFollower_le, pure,
        Except.pure]
    · intro k
      cases k
      · exact le_rfl
      · exact le_rfl
      · exact hinv.forFollower_le
    · intro k t h
      simp only [MvccEvent.safeTime, MvccCall.safeTimeKind, Option.some.injEq, Prod.mk.injEq] at h
      obtain ⟨rfl, rfl⟩ := h
      exact ⟨hinv.forFollower_le, rfl, hinv.lastReplicated_lt⟩
    · intro h hh
      simp [MvccEvent.added] at hh

theorem lastReplicatedHybridTime_spec (ndebug : Bool) (hinv : Inv s clock) :
    GoodStep ndebug s clock .lastReplicatedHybridTime :=
  ⟨.time s.lastReplicated, s, rfl, hinv,
    eventFacts_of_quiet rfl (fun _ => by simp [MvccEvent.added]) (fun _ => rfl)⟩

theorem step_spec (ndebug : Bool) (hinv : Inv s clock) {c : MvccCall}
    (hallowed : Allowed s clock c) : GoodStep ndebug s clock c := by
  cases c with
  | setLastReplicated => exact hallowed.elim
  | setPropagatedSafeTimeOnFollower => exact hallowed.elim
  | updatePropagatedSafeTimeOnLeader => exact hallowed.elim
  | addPending => exact addPending_spec ndebug hinv hallowed
  | replicated => exact replicated_spec ndebug hinv hallowed
  | aborted => exact aborted_spec ndebug hinv hallowed
  | safeTimeForFollower minAllowed deadline => exact safeTimeForFollower_spec ndebug hinv minAllowed deadline
  | safeTime => exact safeTime_spec ndebug hinv hallowed
  | lastReplicatedHybridTime => exact lastReplicatedHybridTime_spec ndebug hinv

end MvccManager

end FrescoDB.Tablet

namespace FrescoDB.Tablet

open FrescoDB.Common FrescoDB.Lib HybridTime MvccManager

/-! ## Runs -/

/-- The runs of the manager under the protocol from its initial state, with the clock and the
trace of the calls made. -/
inductive MvccRun (ndebug : Bool) : MvccManager → HybridTime → List MvccEvent → Prop
  | init : MvccRun ndebug {} kMin []
  | step {s : MvccManager} {clock : HybridTime} {trace : List MvccEvent} {c : MvccCall}
      {r : MvccReply} {s' : MvccManager} :
      MvccRun ndebug s clock trace → Allowed s clock c → s.step ndebug c = .ok (r, s') →
      MvccRun ndebug s' (clockAfter s clock c) (trace ++ [⟨s, c, r⟩])

/-- Two safe times of one kind come in the order they were returned. -/
def SafeTimesInOrder (e₁ e₂ : MvccEvent) : Prop :=
  ∀ k t₁ t₂, e₁.safeTime = some (k, t₁) → e₂.safeTime = some (k, t₂) → t₁ ≤ t₂

/-- A safe time is below every time added after it. -/
def SafeTimeBelowLaterAdd (e₁ e₂ : MvccEvent) : Prop :=
  ∀ k t h, e₁.safeTime = some (k, t) → e₂.added = some h → t < h

/-- A safe time is below every time pending when it is returned. -/
def SafeTimeBelowPending (e : MvccEvent) : Prop :=
  ∀ k t, e.safeTime = some (k, t) → ∀ p ∈ e.state.queue, t < p

/-- Along a run the invariant holds, each safe time returned is within the record of its kind,
and the safe-time facts hold between any two calls. The induction is on the run; one step adds
one event, whose facts `step_spec` gives. -/
theorem MvccRun.inv {ndebug : Bool} {s : MvccManager} {clock : HybridTime}
    {trace : List MvccEvent} (run : MvccRun ndebug s clock trace) :
    Inv s clock ∧ (∀ e ∈ trace, ∀ k t, e.safeTime = some (k, t) → t ≤ s.maxSafeTimeReturned k) ∧
      trace.Pairwise SafeTimesInOrder ∧ trace.Pairwise SafeTimeBelowLaterAdd ∧
      ∀ e ∈ trace, SafeTimeBelowPending e := by
  induction run with
  | init => exact ⟨inv_init, by simp, List.Pairwise.nil, List.Pairwise.nil, by simp⟩
  | @step s clock trace c r s' _ hallowed hstep ih =>
    obtain ⟨hinv, hrecorded, hordered, hadded, hpending⟩ := ih
    obtain ⟨r', s'', hstep', hinv', hfacts⟩ := step_spec ndebug hinv hallowed
    rw [hstep] at hstep'
    obtain ⟨rfl, rfl⟩ := Prod.mk.inj (Except.ok.inj hstep')
    refine ⟨hinv', ?_, ?_, ?_, ?_⟩
    · intro e he k t ht
      rcases List.mem_append.mp he with he | he
      · exact (hrecorded e he k t ht).trans (hfacts.maxReturned_le k)
      · rw [List.mem_singleton.mp he] at ht
        exact (hfacts.safeTime_spec k t ht).2.1.ge
    · refine List.pairwise_append.mpr ⟨hordered, List.pairwise_singleton _ _, ?_⟩
      intro e he e' he' k t₁ t₂ h₁ h₂
      rw [List.mem_singleton.mp he'] at h₂
      exact (hrecorded e he k t₁ h₁).trans (hfacts.safeTime_spec k t₂ h₂).1
    · refine List.pairwise_append.mpr ⟨hadded, List.pairwise_singleton _ _, ?_⟩
      intro e he e' he' k t h h₁ h₂
      rw [List.mem_singleton.mp he'] at h₂
      exact lt_of_le_of_lt (hrecorded e he k t h₁) (hfacts.added_gt h h₂ k)
    · refine List.forall_mem_append.mpr ⟨hpending, List.forall_mem_singleton.mpr ?_⟩
      intro k t ht
      exact (hfacts.safeTime_spec k t ht).2.2

end FrescoDB.Tablet
