import FrescoDB.Util.MemTracker
import FrescoDB.Lib.Ledger

/-! What the trackers hold after any calls. Every call is recorded against the tracker it is
made on, the `Release` calls of the garbage collectors included, and the consumption of each
tracker is then the sum of what was recorded against the trackers whose `all_trackers_` holds it:
itself and its descendants along `add_to_parent` links. `TryConsume` keeps that too, since it
gives back what it added when a tracker refuses. `GcMemory` answers `false` only when the tracker
is within `max_consumption`; it may also answer `true` when the tracker is within it, and then
`TryConsume` refuses bytes the tracker has room for. -/
namespace FrescoDB.Util

open FrescoDB.Lib

section Accounting

variable (root : MemTracker)

/-- The ids of the trackers of the tree. -/
def trackerIds : Finset Nat := ((root.entries []).map (·.1)).toFinset

/-- The ids along `all_trackers_` of a tracker. -/
def allTrackerIds (v : Nat) : List Nat := (allTrackers root v).map MemTracker.id

/-- How far the consumption of a tracker is from what the calls recorded account for. -/
def excess (st : MemTrackerState) (u : Nat) : Int :=
  st.consumption u - aggregate (allTrackerIds root) (trackerIds root) st.consumed u

/-- The consumption of every tracker is what the calls recorded against it and against its
descendants along `add_to_parent` links add up to. -/
def Accounted (st : MemTrackerState) : Prop :=
  ∀ u, st.consumption u = aggregate (allTrackerIds root) (trackerIds root) st.consumed u

theorem accounted_iff_excess (st : MemTrackerState) :
    Accounted root st ↔ ∀ u, excess root st u = 0 := by
  simp only [Accounted, excess, sub_eq_zero]

variable {root}

theorem lookup_eq_none_of_not_mem {β : Type} {v : Nat} :
    ∀ {l : List (Nat × β)}, v ∉ l.map (·.1) → l.lookup v = none
  | [], _ => rfl
  | (k, b) :: l, hv => by
    have hk : (v == k) = false := beq_false_of_ne fun h => hv (by simp [h])
    have hl : v ∉ l.map (·.1) := fun h => hv (List.mem_cons_of_mem _ h)
    simp only [List.lookup, hk, lookup_eq_none_of_not_mem hl]

theorem allTrackerIds_eq_nil_of_not_mem {v : Nat} (hv : v ∉ trackerIds root) :
    allTrackerIds root v = [] := by
  have hlookup : (root.entries []).lookup v = none :=
    lookup_eq_none_of_not_mem (by simpa [trackerIds] using hv)
  simp [allTrackerIds, allTrackers, hlookup]

theorem mem_trackerIds_or_nil (v : Nat) : v ∈ trackerIds root ∨ allTrackerIds root v = [] := by
  by_cases hv : v ∈ trackerIds root
  · exact .inl hv
  · exact .inr (allTrackerIds_eq_nil_of_not_mem hv)

@[simp] theorem consumed_incrementBy (u : Nat) (amount : Int) (st : MemTrackerState) :
    (incrementBy u amount st).consumed = st.consumed := rfl

theorem foldl_incrementBy (amount : Int) :
    ∀ (trackers : List MemTracker) (st : MemTrackerState),
      trackers.foldl (fun st u => incrementBy u.id amount st) st =
        { st with consumption := addAlong (trackers.map MemTracker.id) amount st.consumption }
  | [], st => rfl
  | t :: trackers, st => by
    rw [List.foldl_cons, foldl_incrementBy amount trackers]
    rfl

theorem excess_foldl_incrementBy (amount : Int) (trackers : List MemTracker)
    (st : MemTrackerState) (u : Nat) :
    excess root (trackers.foldl (fun st u => incrementBy u.id amount st) st) u =
      excess root st u + (trackers.map MemTracker.id).count u * amount := by
  rw [foldl_incrementBy]
  simp only [excess, addAlong_apply]
  ring

theorem excess_changeAll (v : Nat) (amount : Int) (st : MemTrackerState) (u : Nat) :
    excess root (changeAll root v amount st) u = excess root st u := by
  have hrecord := aggregate_update (allTrackerIds root) (trackerIds root) st.consumed amount
    (mem_trackerIds_or_nil v) u
  simp only [changeAll, foldl_incrementBy]
  simp only [excess, addAlong_apply, hrecord]
  rw [← allTrackerIds]
  ring

theorem excess_consume (v : Nat) (bytes : Int) (st : MemTrackerState) (u : Nat) :
    excess root (consume root v bytes st) u = excess root st u := by
  unfold consume
  split_ifs <;> simp only [excess_changeAll]

theorem excess_release (v : Nat) (bytes : Int) (st : MemTrackerState) (u : Nat) :
    excess root (release root v bytes st) u = excess root st u := by
  unfold release
  split_ifs <;> simp only [excess_changeAll, excess_consume]

theorem excess_releaseAll :
    ∀ (calls : List (Nat × Nat)) (st : MemTrackerState) (u : Nat),
      excess root (releaseAll root calls st) u = excess root st u
  | [], _, _ => rfl
  | (v, bytes) :: calls, st, u => by
    simp only [releaseAll, List.foldl_cons] at *
    rw [← releaseAll, excess_releaseAll calls, excess_release]

theorem excess_collectGarbage (id : Nat) (maxConsumption : Int) :
    ∀ (gcs : List GarbageCollector) (st : MemTrackerState) (u : Nat),
      excess root (collectGarbage root id maxConsumption gcs st) u = excess root st u
  | [], _, _ => rfl
  | gc :: gcs, st, u => by
    simp only [collectGarbage]
    split_ifs
    · exact excess_releaseAll _ _ _
    · rw [excess_collectGarbage id maxConsumption gcs, excess_releaseAll]

mutual
theorem excess_gcMemory :
    ∀ (t : MemTracker) (maxConsumption : Int) (st : MemTrackerState) (u : Nat),
      excess root (gcMemory root t maxConsumption st).2 u = excess root st u
  | .mk id _ _ gcs children, maxConsumption, st, u => by
    simp only [gcMemory]
    split_ifs
    · rfl
    · rfl
    · -- the children are asked after the collectors
      have hchildren := excess_gcChildren id maxConsumption
        ((collectGarbage root id maxConsumption gcs st).consumption id) children
        (collectGarbage root id maxConsumption gcs st) u
      split
      · rename_i hloop
        rw [hloop] at hchildren
        rw [hchildren, excess_collectGarbage]
      · rename_i hloop
        rw [hloop] at hchildren
        rw [hchildren, excess_collectGarbage]
    · exact excess_collectGarbage id maxConsumption gcs st u

theorem excess_gcChildren (id : Nat) (maxConsumption : Int) :
    ∀ (current : Int) (children : List MemTracker) (st : MemTrackerState) (u : Nat),
      excess root (gcChildren root id maxConsumption current children st).2 u = excess root st u
  | _, [], _, _ => rfl
  | current, child :: children, st, u => by
    simp only [gcChildren]
    split_ifs
    · exact excess_gcMemory child _ st u
    · rw [excess_gcChildren id maxConsumption _ children, excess_gcMemory child _ st u]
    · rw [excess_gcChildren id maxConsumption _ children, excess_gcMemory child _ st u]
end

theorem excess_incrementBy (t : MemTracker) (amount : Int) (st : MemTrackerState) (u : Nat) :
    excess root (incrementBy t.id amount st) u = excess root st u + ([t.id]).count u * amount :=
  excess_foldl_incrementBy amount [t] st u

theorem tryIncrementBy_eq_some {u : Nat} {bytes max : Int} {st st' : MemTrackerState}
    (h : tryIncrementBy u bytes max st = some st') : st' = incrementBy u bytes st := by
  unfold tryIncrementBy at h
  split_ifs at h
  exact (Option.some.inj h).symm

/-- One step of the walk of `TryConsume`: after the collectors a tracker may run, which leave
what is unaccounted as it was, it either takes the bytes and the walk goes on, or refuses. -/
theorem tryConsumeWalk_cons (bytes : Int) (taken : List MemTracker) (t : MemTracker)
    (trackers : List MemTracker) (st : MemTrackerState) :
    ∃ st₀, (∀ u, excess root st₀ u = excess root st u) ∧
      (tryConsumeWalk root bytes taken (t :: trackers) st = ((taken, some t), st₀) ∨
        tryConsumeWalk root bytes taken (t :: trackers) st =
          tryConsumeWalk root bytes (taken ++ [t]) trackers (incrementBy t.id bytes st₀)) := by
  simp only [tryConsumeWalk]
  by_cases hlimit : t.limit < 0
  · rw [if_pos hlimit]
    exact ⟨st, fun _ => rfl, .inr rfl⟩
  · rw [if_neg hlimit]
    split
    · rename_i st' hincr
      exact ⟨st, fun _ => rfl, .inr (by rw [tryIncrementBy_eq_some hincr])⟩
    · -- the tracker is asked to collect garbage, then tried once more
      have hexcess := @excess_gcMemory root t (t.limit - bytes) st
      split_ifs
      · split
        · rename_i st' hincr
          exact ⟨_, hexcess, .inr (by rw [tryIncrementBy_eq_some hincr])⟩
        · exact ⟨_, hexcess, .inl rfl⟩
      · exact ⟨_, hexcess, .inl rfl⟩

/-- The walk of `TryConsume` adds the bytes to the trackers that took them, and leaves the rest
of what is unaccounted as it was. -/
theorem excess_tryConsumeWalk (bytes : Int) :
    ∀ (taken trackers : List MemTracker) (st : MemTrackerState) (u : Nat),
      excess root (tryConsumeWalk root bytes taken trackers st).2 u =
        excess root st u +
          (((tryConsumeWalk root bytes taken trackers st).1.1.map MemTracker.id).count u -
            (taken.map MemTracker.id).count u) * bytes
  | taken, [], st, u => by simp [tryConsumeWalk]
  | taken, t :: trackers, st, u => by
    obtain ⟨st₀, hexcess, hstop | hnext⟩ := tryConsumeWalk_cons bytes taken t trackers st
    · rw [hstop, hexcess]
      simp
    · rw [hnext, excess_tryConsumeWalk bytes (taken ++ [t]) trackers, excess_incrementBy, hexcess]
      simp only [List.map_append, List.map_cons, List.map_nil, List.count_append]
      push_cast
      ring

theorem tryConsumeWalk_taken_of_none (bytes : Int) :
    ∀ (taken trackers : List MemTracker) (st : MemTrackerState),
      (tryConsumeWalk root bytes taken trackers st).1.2 = none →
        (tryConsumeWalk root bytes taken trackers st).1.1 = taken ++ trackers
  | taken, [], st, _ => by simp [tryConsumeWalk]
  | taken, t :: trackers, st, h => by
    obtain ⟨st₀, -, hstop | hnext⟩ := tryConsumeWalk_cons bytes taken t trackers st
    · rw [hstop] at h
      cases h
    · rw [hnext] at h ⊢
      rw [tryConsumeWalk_taken_of_none bytes (taken ++ [t]) trackers _ h, List.append_assoc,
        List.singleton_append]

/-- `TryConsume` records the bytes against the tracker when every tracker took them, and gives
them back to the trackers that took them otherwise. -/
theorem excess_tryConsume (v : Nat) (bytes : Int) (st : MemTrackerState) (u : Nat) :
    excess root (tryConsume root v bytes st).2 u = excess root st u := by
  unfold tryConsume
  split_ifs with hbytes
  · rfl
  · have hwalk := @excess_tryConsumeWalk root bytes [] (allTrackers root v).reverse st u
    split
    · rename_i hnone
      rename_i taken st'
      have htaken := @tryConsumeWalk_taken_of_none root bytes []
        (allTrackers root v).reverse st (by rw [hnone])
      rw [hnone] at hwalk htaken
      have hrecord := aggregate_update (allTrackerIds root) (trackerIds root) st'.consumed bytes
        (mem_trackerIds_or_nil v) u
      simp only at htaken hwalk
      simp only [excess, hrecord] at hwalk ⊢
      rw [htaken, List.nil_append, List.map_reverse, List.count_reverse] at hwalk
      simp only [List.map_nil, List.count_nil, Nat.cast_zero, sub_zero] at hwalk
      rw [allTrackerIds]
      linarith
    · rename_i taken blocking st' hsome
      rw [hsome] at hwalk
      simp only [List.map_nil, List.count_nil, Nat.cast_zero, sub_zero] at hwalk
      rw [excess_foldl_incrementBy, hwalk]
      ring

theorem excess_applyCall (call : MemTrackerCall) (st : MemTrackerState) (u : Nat) :
    excess root (applyCall root call st) u = excess root st u := by
  cases call with
  | consume v bytes => exact excess_consume v bytes st u
  | release v bytes => exact excess_release v bytes st u
  | tryConsume v bytes => exact excess_tryConsume v bytes st u

theorem accounted_runCalls :
    ∀ (calls : List MemTrackerCall) (st : MemTrackerState),
      Accounted root st → Accounted root (runCalls root calls st)
  | [], _, h => h
  | call :: calls, st, h => by
    have hstep : Accounted root (applyCall root call st) := by
      rw [accounted_iff_excess] at h ⊢
      intro u
      rw [excess_applyCall, h u]
    exact accounted_runCalls calls _ hstep

/-- Trackers created with nothing consumed. -/
def MemTrackerState.initial : MemTrackerState := ⟨0, 0⟩

theorem accounted_initial : Accounted root MemTrackerState.initial := by
  intro u
  simp [MemTrackerState.initial]

end Accounting

section GcMemory

variable {root : MemTracker}

theorem gcChildren_answer (id : Nat) (maxConsumption : Int) :
    ∀ (current : Int) (children : List MemTracker) (st : MemTrackerState),
      (gcChildren root id maxConsumption current children st).1 = none ∨
        (gcChildren root id maxConsumption current children st).1 = some true
  | _, [], _ => .inl rfl
  | current, child :: children, st => by
    simp only [gcChildren]
    split_ifs
    · exact .inr rfl
    · exact gcChildren_answer id maxConsumption _ children _
    · exact gcChildren_answer id maxConsumption _ children _

theorem consumption_le_of_gcMemory_false {t : MemTracker} {maxConsumption : Int}
    {st : MemTrackerState} (h : (gcMemory root t maxConsumption st).1 = false) :
    (gcMemory root t maxConsumption st).2.consumption t.id ≤ maxConsumption := by
  obtain ⟨id, limit, addToParent, gcs, children⟩ := t
  simp only [gcMemory, MemTracker.id] at h ⊢
  by_cases hneg : maxConsumption < 0
  · simp [hneg] at h
  by_cases hwithin : st.consumption id ≤ maxConsumption
  · simp [hneg, hwithin]
  rw [if_neg hneg, if_neg hwithin] at h ⊢
  set st₀ := collectGarbage root id maxConsumption gcs st
  split_ifs at h ⊢ with hover
  · -- the loop over the children stops early only to answer true
    have hanswer := @gcChildren_answer root id maxConsumption (st₀.consumption id)
      children st₀
    rcases hloop : gcChildren root id maxConsumption (st₀.consumption id) children st₀ with
      ⟨answer, st'⟩
    rw [hloop] at hanswer h
    rcases hanswer with hnone | htrue
    · cases hnone
      simpa using h
    · cases htrue
      simp at h
  · simpa using h

/-- A child that answers `false` is not followed by a read of the consumption: the next child is
asked to come down by what the tracker was over before. When that child answers `true` after the
tracker has come within `max_consumption`, `GcMemory` answers `true`, that the tracker still
exceeds it. -/
theorem gcMemory_of_children_answers {id : Nat} {limit : Int} {addToParent : Bool}
    {gcs : List GarbageCollector} {a b : MemTracker} {rest : List MemTracker}
    {maxConsumption : Int} {st st₀ st₁ st₂ : MemTrackerState}
    (hm : 0 ≤ maxConsumption) (hover : maxConsumption < st.consumption id)
    (hgc : collectGarbage root id maxConsumption gcs st = st₀)
    (hover₀ : maxConsumption < st₀.consumption id)
    (ha : gcMemory root a (maxConsumption - st₀.consumption id + st₀.consumption a.id) st₀ =
      (false, st₁))
    (hb : gcMemory root b (maxConsumption - st₀.consumption id + st₁.consumption b.id) st₁ =
      (true, st₂))
    (hwithin : st₂.consumption id ≤ maxConsumption) :
    gcMemory root (.mk id limit addToParent gcs (a :: b :: rest)) maxConsumption st =
      (true, st₂) := by
  have hloop : gcChildren root id maxConsumption (st₀.consumption id) (a :: b :: rest) st₀ =
      (some true, st₂) := by
    simp [gcChildren, ha, hb, hwithin]
  simp [gcMemory, not_lt.mpr hm, not_le.mpr hover, hgc, hover₀, hloop]

end GcMemory

section TryConsume

variable {root : MemTracker}

/-- A tracker that refuses the bytes and whose `GcMemory` answers `true` stops `TryConsume`,
whatever its consumption after the collection. At the top of `all_trackers_` no tracker took
the bytes before it, and nothing is given back. -/
theorem tryConsume_of_gcMemory_true {v : Nat} {bytes : Int} {st st' : MemTrackerState}
    {t : MemTracker} {lower : List MemTracker} (hbytes : 0 < bytes)
    (hchain : allTrackers root v = lower ++ [t]) (hlimit : 0 ≤ t.limit)
    (hover : t.limit < st.consumption t.id + bytes)
    (hgc : gcMemory root t (t.limit - bytes) st = (true, st')) :
    tryConsume root v bytes st = ((false, some t), st') := by
  have hwalk : tryConsumeWalk root bytes [] (allTrackers root v).reverse st =
      (([], some t), st') := by
    simp [hchain, tryConsumeWalk, not_lt.mpr hlimit, tryIncrementBy, hover, hgc, expandLimit]
  simp [tryConsume, not_le.mpr hbytes, hwalk]

end TryConsume

/-! ### The trackers against their contract -/

theorem memTracker_accounting_and_gc :
    -- every run from fresh trackers keeps each consumption accounted for
    (∀ (root : MemTracker) (calls : List MemTrackerCall),
      Accounted root (runCalls root calls MemTrackerState.initial)) ∧
    -- GcMemory answers false only within max_consumption
    (∀ (root t : MemTracker) (maxConsumption : Int) (st : MemTrackerState),
      (gcMemory root t maxConsumption st).1 = false →
        (gcMemory root t maxConsumption st).2.consumption t.id ≤ maxConsumption) ∧
    -- it answers true within it when a child answers true after one that answered false
    (∀ (root : MemTracker) (id : Nat) (limit : Int) (addToParent : Bool)
        (gcs : List GarbageCollector) (a b : MemTracker) (rest : List MemTracker)
        (maxConsumption : Int) (st st₀ st₁ st₂ : MemTrackerState),
      0 ≤ maxConsumption → maxConsumption < st.consumption id →
      collectGarbage root id maxConsumption gcs st = st₀ → maxConsumption < st₀.consumption id →
      gcMemory root a (maxConsumption - st₀.consumption id + st₀.consumption a.id) st₀ =
        (false, st₁) →
      gcMemory root b (maxConsumption - st₀.consumption id + st₁.consumption b.id) st₁ =
        (true, st₂) →
      st₂.consumption id ≤ maxConsumption →
      gcMemory root (.mk id limit addToParent gcs (a :: b :: rest)) maxConsumption st =
        (true, st₂)) ∧
    -- and TryConsume refuses the bytes at a tracker whose GcMemory answers true
    (∀ (root : MemTracker) (v : Nat) (bytes : Int) (st st' : MemTrackerState) (t : MemTracker)
        (lower : List MemTracker),
      0 < bytes → allTrackers root v = lower ++ [t] → 0 ≤ t.limit →
      t.limit < st.consumption t.id + bytes →
      gcMemory root t (t.limit - bytes) st = (true, st') →
      tryConsume root v bytes st = ((false, some t), st')) := by
  refine ⟨?accounted, ?gcFalse, ?gcTrue, ?refuse⟩
  case accounted =>
    intro root calls
    exact accounted_runCalls calls _ accounted_initial
  case gcFalse =>
    intro root t maxConsumption st h
    exact consumption_le_of_gcMemory_false h
  case gcTrue =>
    intro root id limit addToParent gcs a b rest maxConsumption st st₀ st₁ st₂ hm hover hgc
      hover₀ ha hb hwithin
    exact gcMemory_of_children_answers hm hover hgc hover₀ ha hb hwithin
  case refuse =>
    intro root v bytes st st' t lower hbytes hchain hlimit hover hgc
    exact tryConsume_of_gcMemory_true hbytes hchain hlimit hover hgc

/-- A collector that releases from tracker 1 what it is asked for. -/
def releaseRequired : GarbageCollector := fun required _ => [(1, required)]

/-- A child without a limit that passes its consumption on to its parent, with a collector. -/
def collectingChild : MemTracker := .mk 1 (-1) true [releaseRequired] []

/-- A child without a limit that passes its consumption on to its parent, without collectors. -/
def plainChild : MemTracker := .mk 2 (-1) true [] []

/-- A root with a limit of 100 bytes over the two children. -/
def limitedRoot : MemTracker := .mk 0 100 false [] [collectingChild, plainChild]

/-- 60 bytes consumed through the first child and 40 through the second: the root is full. -/
def fullRoot : MemTrackerState :=
  runCalls limitedRoot [.consume 1 60, .consume 2 40] MemTrackerState.initial

/-- `GcMemory(50)` on the full root: the first child frees 50 bytes, and the root holds 50, but
the second child, asked with the stale consumption to come down to -10, answers `true`, and so
does the root. `TryConsume(50)` then refuses the bytes at the root, which has room for them. -/
theorem tryConsume_refuses_with_room :
    gcMemory limitedRoot limitedRoot 50 fullRoot =
        (true, (gcMemory limitedRoot plainChild (-10)
          (gcMemory limitedRoot collectingChild 10 fullRoot).2).2) ∧
      (gcMemory limitedRoot limitedRoot 50 fullRoot).2.consumption 0 = 50 ∧
      tryConsume limitedRoot 0 50 fullRoot =
        ((false, some limitedRoot), (gcMemory limitedRoot limitedRoot 50 fullRoot).2) ∧
      (gcMemory limitedRoot limitedRoot 50 fullRoot).2.consumption 0 + 50 ≤ limitedRoot.limit := by
  obtain ⟨-, -, hgcTrue, hrefuse⟩ := memTracker_accounting_and_gc
  have hgc : gcMemory limitedRoot limitedRoot 50 fullRoot = (true, (gcMemory limitedRoot plainChild
      (-10) (gcMemory limitedRoot collectingChild 10 fullRoot).2).2) :=
    hgcTrue limitedRoot 0 100 false [] collectingChild plainChild [] 50 fullRoot
    fullRoot (gcMemory limitedRoot collectingChild 10 fullRoot).2
    (gcMemory limitedRoot plainChild (-10) (gcMemory limitedRoot collectingChild 10 fullRoot).2).2
    (by decide) (by decide) rfl (by decide) (Prod.ext (by decide) rfl) (Prod.ext (by decide) rfl)
    (by decide)
  have htry := hrefuse limitedRoot 0 50 fullRoot _ limitedRoot [] (by decide) rfl (by decide)
    (by decide) hgc
  rw [hgc]
  exact ⟨rfl, by decide, htry, by decide⟩

end FrescoDB.Util
