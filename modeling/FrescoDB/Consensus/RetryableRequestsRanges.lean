import Mathlib
import FrescoDB.Consensus.RetryableRequests
import FrescoDB.Lib.IntervalList
import FrescoDB.Lib.ListModify

/-! The replicated ranges of a client under `AddReplicated`, `CleanupReplicatedRequests` and the
expiry. Each branch of `AddReplicated` replaces a run of neighbouring ranges (none, the range before
the id, the range after it, or both) by one range that holds them and the id, so one lemma,
`added_of_merge`, gives what every branch keeps; the branches only compute their new range. -/
namespace FrescoDB.Consensus.RetryableRequests

open FrescoDB.Lib IntervalList
open ReplicatedRetryableRequestRange (firstId lastId)

/-- The ranges as the container keeps them: in `LastIdIndex` order with gaps between them, and
unique in `min_op_id`. -/
structure WellFormed (rs : List Range) : Prop where
  separated : Separated firstId lastId rs
  minOpId_nodup : (rs.map (·.minOpId)).Nodup

namespace ReplicatedRetryableRequestRange

/-- The range bounds a replication with op id `o` at time `t`. -/
def Bounds (b : Range) (o : OpId) (t : RestartSafeCoarseTimePoint) : Prop :=
  b.minOpId ≤ o ∧ b.minTime ≤ t ∧ t ≤ b.maxTime

/-- `b'` bounds whatever `b` bounds. -/
def Widens (b' b : Range) : Prop :=
  b'.minOpId ≤ b.minOpId ∧ b'.minTime ≤ b.minTime ∧ b.maxTime ≤ b'.maxTime

theorem Widens.refl (b : Range) : b.Widens b := ⟨le_rfl, le_rfl, le_rfl⟩

theorem Widens.bounds {b' b : Range} {o : OpId} {t : RestartSafeCoarseTimePoint} (h : b'.Widens b)
    (hb : b.Bounds o t) : b'.Bounds o t :=
  ⟨h.1.trans hb.1, h.2.1.trans hb.2.1, hb.2.2.trans h.2.2⟩

end ReplicatedRetryableRequestRange

/-- Every id a range of `rs'` holds, other than those of `new`, is held by a range of `rs` that it
widens. -/
def Within (rs' rs : List Range) (new : Set RetryableRequestId) : Prop :=
  ∀ b' ∈ rs', ∀ x, b'.firstId ≤ x → x ≤ b'.lastId → x ∉ new →
    ∃ b ∈ rs, b.firstId ≤ x ∧ x ≤ b.lastId ∧ b'.Widens b

/-- What adding the id `r`, replicated with `op` at `time`, makes of the ranges `rs`. -/
structure Added (rs rs' : List Range) (r : RetryableRequestId) (op : OpId)
    (time : RestartSafeCoarseTimePoint) : Prop where
  wellFormed : WellFormed rs'
  mem_covers : ∀ x, x ∈ Covers firstId lastId rs' ↔ x ∈ Covers firstId lastId rs ∨ x = r
  minOpId_mem : ∀ b' ∈ rs', b'.minOpId = op ∨ b'.minOpId ∈ rs.map (·.minOpId)
  bounds_new : ∀ b' ∈ rs', b'.firstId ≤ r → r ≤ b'.lastId → b'.Bounds op time
  within : Within rs' rs {r}

/-! ## Positions -/

theorem getElem?_lowerBound (rs : List Range) (id : RetryableRequestId) :
    rs[lowerBound rs id]? = (rs.dropWhile (·.lastId < id)).head? := by
  have h := getElem?_append_length (rs.takeWhile (·.lastId < id)) (rs.dropWhile (·.lastId < id))
  rwa [List.takeWhile_append_dropWhile] at h

theorem holds_iff {rs : List Range} (h : Separated firstId lastId rs) (x : RetryableRequestId) :
    holds rs x = true ↔ x ∈ Covers firstId lastId rs := by
  rw [h.mem_covers_iff]
  unfold holds
  rw [getElem?_lowerBound]
  cases rs.dropWhile (·.lastId < x) with
  | nil => simp
  | cons b rest => simp

theorem lowerBound_eq_length (rs : List Range) (id : RetryableRequestId) :
    lowerBound rs id = (rs.takeWhile (·.lastId < id)).length := rfl

theorem WellFormed.sublist {rs' rs : List Range} (h : WellFormed rs) (hs : rs'.Sublist rs) :
    WellFormed rs' :=
  ⟨h.separated.sublist hs, h.minOpId_nodup.sublist (hs.map _)⟩

theorem WellFormed.nodup {rs : List Range} (h : WellFormed rs) : rs.Nodup :=
  List.Nodup.of_map _ h.minOpId_nodup

/-- In a list with distinct `min_op_id`s, a range of one part has a `min_op_id` no range of the
other parts has. -/
theorem minOpId_ne_of_mem {L M R : List Range} (h : ((L ++ M ++ R).map (·.minOpId)).Nodup)
    {a b : Range} (ha : a ∈ L ++ R) (hb : b ∈ M) : a.minOpId ≠ b.minOpId := by
  rw [List.map_append, List.map_append, List.nodup_append, List.nodup_append] at h
  obtain ⟨⟨-, -, hLM⟩, -, hLMR⟩ := h
  rcases List.mem_append.mp ha with ha | ha
  · exact hLM _ (List.mem_map_of_mem ha) _ (List.mem_map_of_mem hb)
  · exact fun heq => hLMR _ (List.mem_append_right _ (List.mem_map_of_mem hb)) _
      (List.mem_map_of_mem ha) heq.symm

/-! ## One range in the place of a run of them -/

/-- Replacing the run `M` by one range `n` that holds exactly `M`'s ids and `r`, lies between the
neighbours of `M`, takes its `min_op_id` from `M` or is the fresh `op`, and bounds the new
replication and every range of `M`, adds `r`. -/
theorem added_of_merge {L M R : List Range} {n : Range} {r : RetryableRequestId} {op : OpId}
    {time : RestartSafeCoarseTimePoint} (hwf : WellFormed (L ++ M ++ R))
    (hfresh : ∀ b ∈ L ++ M ++ R, b.minOpId ≠ op)
    (hcov : ∀ x, (n.firstId ≤ x ∧ x ≤ n.lastId) ↔ x ∈ Covers firstId lastId M ∨ x = r)
    (hL : ∀ a ∈ L, a.lastId < n.firstId) (hR : ∀ c ∈ R, n.lastId < c.firstId)
    (hop : n.minOpId = op ∨ ∃ b ∈ M, n.minOpId = b.minOpId) (hnew : n.Bounds op time)
    (hold : ∀ b ∈ M, n.Widens b) :
    Added (L ++ M ++ R) (L ++ n :: R) r op time := by
  have hsep := hwf.separated
  have hrn : n.firstId ≤ r ∧ r ≤ n.lastId := (hcov r).mpr (.inr rfl)
  have hLR : ∀ a ∈ L, ∀ c ∈ R, a.lastId < c.firstId := by
    intro a ha c hc
    exact (List.append_assoc L M R ▸ hsep).lt_of_mem_append ha (List.mem_append_right _ hc)
  refine ⟨⟨?_, ?_⟩, ?_, ?_, ?_, ?_⟩
  · refine hsep.of_append_left.of_append_left.append
      (.cons (hrn.1.trans hrn.2) hsep.of_append_right hR) fun a ha c hc => ?_
    rcases List.mem_cons.mp hc with rfl | hc
    · exact hL a ha
    · exact hLR a ha c hc
  · rw [List.map_append, List.map_cons, List.nodup_middle, List.nodup_cons, ← List.map_append]
    have hrest : ((L ++ R).map (·.minOpId)).Nodup := hwf.minOpId_nodup.sublist
      (((List.sublist_append_left L M).append (List.Sublist.refl R)).map _)
    refine ⟨fun hmem => ?_, hrest⟩
    obtain ⟨a, ha, heq⟩ := List.mem_map.mp hmem
    rcases hop with hop | ⟨b, hb, hop⟩
    · exact hfresh a (by simp only [List.mem_append] at ha ⊢; tauto) (heq.trans hop)
    · exact minOpId_ne_of_mem hwf.minOpId_nodup ha hb (heq.trans hop)
  · intro x
    have := hcov x
    simp only [mem_covers_append, mem_covers_cons] at this ⊢
    tauto
  · intro b' hb'
    rcases List.mem_append.mp hb' with hb' | hb'
    · exact .inr (List.mem_map_of_mem (List.mem_append_left _ (List.mem_append_left _ hb')))
    rcases List.mem_cons.mp hb' with rfl | hb'
    · rcases hop with hop | ⟨b, hb, hop⟩
      · exact .inl hop
      · exact .inr (hop ▸ List.mem_map_of_mem (List.mem_append_left _ (List.mem_append_right _ hb)))
    · exact .inr (List.mem_map_of_mem (List.mem_append_right _ hb'))
  · intro b' hb' hfirst hlast
    obtain ⟨hnr, hrn⟩ := hrn
    rcases List.mem_append.mp hb' with hb' | hb'
    · have := hL b' hb'
      exact absurd hfirst (by grind)
    rcases List.mem_cons.mp hb' with rfl | hb'
    · exact hnew
    · have := hR b' hb'
      exact absurd hlast (by grind)
  · intro b' hb' x hfirst hlast hx
    have hx : x ≠ r := hx
    rcases List.mem_append.mp hb' with hb' | hb'
    · exact ⟨b', by simp [hb'], hfirst, hlast, .refl _⟩
    rcases List.mem_cons.mp hb' with rfl | hb'
    · obtain ⟨b, hb, hbx⟩ := ((hcov x).mp ⟨hfirst, hlast⟩).resolve_right hx
      exact ⟨b, by simp [hb], hbx.1, hbx.2, hold b hb⟩
    · exact ⟨b', by simp [hb'], hfirst, hlast, .refl _⟩

/-! ## The steps of `AddReplicated` at the position of `lower_bound` -/

theorem updateMinOpId_append_cons {A B : List Range} {b : Range} {m : OpId}
    (hm : ∀ c ∈ A ++ B, c.minOpId ≠ m) :
    updateMinOpId (A ++ b :: B) A.length m = A ++ { b with minOpId := min b.minOpId m } :: B := by
  unfold updateMinOpId
  rw [getElem?_append_length, List.head?_cons]
  dsimp only
  by_cases hlt : m < b.minOpId
  · have hany : ((A ++ b :: B).any fun c => decide (c.minOpId = m)) = false := by
      refine List.any_eq_false.mpr fun c hc => ?_
      rw [decide_eq_true_iff]
      rcases List.mem_append.mp hc with hc | hc
      · exact hm c (List.mem_append_left _ hc)
      rcases List.mem_cons.mp hc with rfl | hc
      · exact (ne_of_lt hlt).symm
      · exact hm c (List.mem_append_right _ hc)
    rw [if_pos hlt, hany, if_neg Bool.false_ne_true, set_append_length, min_eq_right hlt.le]
  · rw [if_neg hlt, min_eq_left (not_lt.mp hlt)]

theorem tryJoinRanges_append (rangeTimeLimit : Int) (A B : List Range) (p b : Range) (m : OpId) :
    tryJoinRanges rangeTimeLimit (A ++ p :: b :: B) (A.length + 1) m =
      if p.lastId + 2 ≠ b.firstId then none
      else if b.maxTime > p.minTime + rangeTimeLimit then none
      else some (updateMinOpId (A ++ b.prepareJoinWithPrev p :: B) A.length (min m p.minOpId)) := by
  have h₁ : (A ++ p :: b :: B)[A.length + 1]? = some b := by simp
  have h₀ : (A ++ p :: b :: B)[A.length]? = some p := by simp
  have hset : ((A ++ p :: b :: B).set (A.length + 1) (b.prepareJoinWithPrev p)).eraseIdx A.length =
      A ++ b.prepareJoinWithPrev p :: B := by
    rw [List.set_append_right _ _ (by omega), show A.length + 1 - A.length = 1 by omega]
    exact eraseIdx_append_length _ _ _
  simp only [tryJoinRanges, h₁, h₀, hset]

theorem tryJoinToEndOfRange_append (rangeTimeLimit : Int) (A B : List Range) (p : Range)
    (op : OpId) (r : RetryableRequestId) (time : RestartSafeCoarseTimePoint) :
    tryJoinToEndOfRange rangeTimeLimit (A ++ p :: B) (A.length + 1) op r time =
      if p.lastId + 1 ≠ r then none
      else if time > p.minTime + rangeTimeLimit then none
      else some (updateMinOpId (A ++ { p.insertTime time with lastId := p.lastId + 1 } :: B)
        A.length (min p.minOpId op)) := by
  have h₀ : (A ++ p :: B)[A.length]? = some p := by simp
  simp only [tryJoinToEndOfRange, h₀, set_append_length]

theorem emplaceRange_of_fresh {rs : List Range} {n : Range} (hlast : ∀ o ∈ rs, o.lastId ≠ n.lastId)
    (hop : ∀ o ∈ rs, o.minOpId ≠ n.minOpId) :
    emplaceRange rs n = rs.insertIdx (lowerBound rs n.lastId) n := by
  unfold emplaceRange
  rw [if_neg]
  simp only [Bool.or_eq_true, List.any_eq_true, decide_eq_true_eq, not_exists, not_and, not_or]
  exact fun o ho => ⟨hlast o ho, hop o ho⟩

/-! ## The four branches -/

section Branches

variable {r : RetryableRequestId} {op : OpId} {time : RestartSafeCoarseTimePoint}

theorem added_emplace {A B : List Range} (hwf : WellFormed (A ++ B))
    (hop : ∀ b ∈ A ++ B, b.minOpId ≠ op) (hA : ∀ a ∈ A, a.lastId < r)
    (hB : ∀ c ∈ B, r < c.firstId) :
    Added (A ++ B) (A ++ .ofRequest r op time :: B) r op time := by
  have h := @added_of_merge A [] B (.ofRequest r op time) r op time (by simpa using hwf)
    (by simpa using hop) (fun x => by simp [ReplicatedRetryableRequestRange.ofRequest]; grind)
    hA hB (.inl rfl) ⟨le_rfl, le_rfl, le_rfl⟩ (by simp)
  simpa using h

theorem added_extendUp {A B : List Range} {p : Range} (hwf : WellFormed (A ++ [p] ++ B))
    (hop : ∀ b ∈ A ++ [p] ++ B, b.minOpId ≠ op) (hp : p.lastId + 1 = r)
    (hB : ∀ c ∈ B, r < c.firstId) :
    Added (A ++ [p] ++ B)
      (A ++ { { p.insertTime time with lastId := p.lastId + 1 } with
        minOpId := min p.minOpId (min p.minOpId op) } :: B) r op time := by
  have hsep := hwf.separated
  have hpp : p.firstId ≤ p.lastId := hsep.lo_le_hi p (by simp)
  refine added_of_merge hwf hop (fun x => ?_) (fun a ha => ?_) (fun c hc => ?_) ?_ ?_ ?_
  · simp only [ReplicatedRetryableRequestRange.insertTime, mem_covers_cons, not_mem_covers_nil,
      or_false]
    grind
  · show a.lastId < p.firstId
    exact hsep.of_append_left.lt_of_mem_append ha (List.mem_singleton_self p)
  · exact hp ▸ hB c hc
  · rcases min_choice p.minOpId (min p.minOpId op) with h | h
    · exact .inr ⟨p, List.mem_singleton_self p, h⟩
    · rcases min_choice p.minOpId op with h' | h'
      · exact .inr ⟨p, List.mem_singleton_self p, h.trans h'⟩
      · exact .inl (h.trans h')
  · exact ⟨(min_le_right _ _).trans (min_le_right _ _), min_le_right _ _, le_max_right _ _⟩
  · intro b hb
    rw [List.mem_singleton.mp hb]
    exact ⟨min_le_left _ _, min_le_left _ _, le_max_left _ _⟩

theorem added_extendDown {A B : List Range} {b : Range} (hwf : WellFormed (A ++ [b] ++ B))
    (hop : ∀ c ∈ A ++ [b] ++ B, c.minOpId ≠ op) (hb : b.firstId = r + 1)
    (hA : ∀ a ∈ A, a.lastId < r) :
    Added (A ++ [b] ++ B)
      (A ++ { { b.insertTime time with firstId := (b.insertTime time).firstId - 1 } with
        minOpId := min b.minOpId (min b.minOpId op) } :: B) r op time := by
  have hsep := hwf.separated
  have hbb : b.firstId ≤ b.lastId := hsep.lo_le_hi b (by simp)
  refine added_of_merge hwf hop (fun x => ?_) (fun a ha => ?_) (fun c hc => ?_) ?_ ?_ ?_
  · simp only [ReplicatedRetryableRequestRange.insertTime, mem_covers_cons, not_mem_covers_nil,
      or_false]
    grind
  · have := hA a ha
    simp only [ReplicatedRetryableRequestRange.insertTime]
    grind
  · show b.lastId < c.firstId
    exact (List.append_assoc A [b] B ▸ hsep).of_append_right.lt_of_mem_append
      (List.mem_singleton_self b) hc
  · rcases min_choice b.minOpId (min b.minOpId op) with h | h
    · exact .inr ⟨b, List.mem_singleton_self b, h⟩
    · rcases min_choice b.minOpId op with h' | h'
      · exact .inr ⟨b, List.mem_singleton_self b, h.trans h'⟩
      · exact .inl (h.trans h')
  · exact ⟨(min_le_right _ _).trans (min_le_right _ _), min_le_right _ _, le_max_right _ _⟩
  · intro c hc
    rw [List.mem_singleton.mp hc]
    exact ⟨min_le_left _ _, min_le_left _ _, le_max_left _ _⟩

theorem added_join {A B : List Range} {p b : Range} (hwf : WellFormed (A ++ [p, b] ++ B))
    (hop : ∀ c ∈ A ++ [p, b] ++ B, c.minOpId ≠ op) (hb : b.firstId = r + 1)
    (hp : p.lastId + 2 = b.firstId) :
    Added (A ++ [p, b] ++ B)
      (A ++ { (b.insertTime time).prepareJoinWithPrev p with
        minOpId := min b.minOpId (min (min b.minOpId op) p.minOpId) } :: B) r op time := by
  have hsep := hwf.separated
  have hpp : p.firstId ≤ p.lastId := hsep.lo_le_hi p (by simp)
  have hbb : b.firstId ≤ b.lastId := hsep.lo_le_hi b (by simp)
  refine added_of_merge hwf hop (fun x => ?_) (fun a ha => ?_) (fun c hc => ?_) ?_ ?_ ?_
  · simp only [ReplicatedRetryableRequestRange.insertTime,
      ReplicatedRetryableRequestRange.prepareJoinWithPrev, mem_covers_cons, not_mem_covers_nil,
      or_false]
    grind
  · show a.lastId < p.firstId
    exact hsep.of_append_left.lt_of_mem_append ha (by simp)
  · show b.lastId < c.firstId
    exact (List.append_assoc A [p, b] B ▸ hsep).of_append_right.lt_of_mem_append (by simp) hc
  · rcases min_choice b.minOpId (min (min b.minOpId op) p.minOpId) with h | h
    · exact .inr ⟨b, by simp, h⟩
    · rcases min_choice (min b.minOpId op) p.minOpId with h' | h'
      · rcases min_choice b.minOpId op with h'' | h''
        · exact .inr ⟨b, by simp, h.trans (h'.trans h'')⟩
        · exact .inl (h.trans (h'.trans h''))
      · exact .inr ⟨p, by simp, h.trans h'⟩
  · refine ⟨(min_le_right _ _).trans ((min_le_left _ _).trans (min_le_right _ _)), ?_, ?_⟩
    · exact (min_le_left _ _).trans (min_le_right _ _)
    · exact (le_max_right _ _).trans (le_max_left _ _)
  · intro c hc
    simp only [List.mem_cons, List.not_mem_nil, or_false] at hc
    rcases hc with rfl | rfl
    · refine ⟨(min_le_right _ _).trans (min_le_right _ _), min_le_right _ _, le_max_right _ _⟩
    · refine ⟨min_le_left _ _, (min_le_left _ _).trans (min_le_left _ _), ?_⟩
      exact (le_max_left _ _).trans (le_max_left _ _)

end Branches

/-! ## `AddReplicated` -/

theorem minOpId_ne_of_choice {L M R : List Range} {op m : OpId} (hwf : WellFormed (L ++ M ++ R))
    (hop : ∀ b ∈ L ++ M ++ R, b.minOpId ≠ op) (hm : m = op ∨ ∃ b ∈ M, m = b.minOpId) :
    ∀ c ∈ L ++ R, c.minOpId ≠ m := by
  intro c hc
  rcases hm with rfl | ⟨b, hb, rfl⟩
  · exact hop c (by simp only [List.mem_append] at hc ⊢; tauto)
  · exact minOpId_ne_of_mem hwf.minOpId_nodup hc hb

/-- Ranges that each end below `r` and start after it, with nothing between: `lower_bound` of `r`
is their boundary. -/
theorem lowerBound_append {A B : List Range} {r : RetryableRequestId} (hwf : WellFormed (A ++ B))
    (hA : ∀ a ∈ A, a.lastId < r) (hB : ∀ c ∈ B, r < c.firstId) :
    lowerBound (A ++ B) r = A.length := by
  rw [lowerBound_eq_length, List.takeWhile_append_of_pos (by simpa using hA)]
  cases B with
  | nil => simp
  | cons b B =>
    have hb : ¬ b.lastId < r := by
      have := hB b (by simp)
      have := hwf.separated.lo_le_hi b (by simp)
      grind
    simp [not_lt.mp hb]

section AddReplicated

variable (rangeTimeLimit : Int) {r : RetryableRequestId} {op : OpId}
  {time : RestartSafeCoarseTimePoint}

theorem joinOrEmplace_added {A B : List Range} (hwf : WellFormed (A ++ B))
    (hop : ∀ b ∈ A ++ B, b.minOpId ≠ op) (hA : ∀ a ∈ A, a.lastId < r)
    (hB : ∀ c ∈ B, r < c.firstId) :
    Added (A ++ B) (addReplicated.joinOrEmplace rangeTimeLimit op r time (A ++ B) A.length) r op
      time := by
  have hemplace : Added (A ++ B) (emplaceRange (A ++ B) (.ofRequest r op time)) r op time := by
    rw [emplaceRange_of_fresh]
    · rw [show (ReplicatedRetryableRequestRange.ofRequest r op time).lastId = r from rfl,
        lowerBound_append hwf hA hB, insertIdx_append_length]
      exact added_emplace hwf hop hA hB
    · intro o ho
      show o.lastId ≠ r
      rcases List.mem_append.mp ho with ho | ho
      · exact ne_of_lt (hA o ho)
      · have := hB o ho
        have := hwf.separated.lo_le_hi o (List.mem_append_right _ ho)
        exact ne_of_gt (by grind)
    · exact hop
  unfold addReplicated.joinOrEmplace
  rcases List.eq_nil_or_concat' A with rfl | ⟨A', p, rfl⟩
  · exact hemplace
  have hshape : A' ++ [p] ++ B = A' ++ p :: B := by simp
  rw [show (A' ++ [p]).length = A'.length + 1 by simp, hshape, tryJoinToEndOfRange_append]
  rw [hshape] at hemplace
  split_ifs with hnext htime
  · exact hemplace
  · exact hemplace
  · have hp : p.lastId + 1 = r := not_not.mp hnext
    have hwf' : WellFormed (A' ++ [p] ++ B) := hshape ▸ hwf
    have hop' : ∀ b ∈ A' ++ [p] ++ B, b.minOpId ≠ op := hshape ▸ hop
    rw [updateMinOpId_append_cons (minOpId_ne_of_choice hwf' hop' (by
      rcases min_choice p.minOpId op with h | h
      · exact .inr ⟨p, List.mem_singleton_self p, h⟩
      · exact .inl h))]
    rw [← hshape]
    exact added_extendUp hwf' hop' hp hB

theorem addReplicated_spec (ndebug : Bool) {c : ClientRetryableRequests}
    (hwf : WellFormed c.replicated) (hr : r ∉ Covers firstId lastId c.replicated)
    (hop : ∀ b ∈ c.replicated, b.minOpId ≠ op) :
    ∃ rs', addReplicated rangeTimeLimit ndebug op r time c = .ok { c with replicated := rs' } ∧
      Added c.replicated rs' r op time := by
  obtain ⟨running, rs, minRunningRequestId, emptySince⟩ := c
  dsimp only at hwf hr hop ⊢
  have hholds : holds rs r = false :=
    Bool.eq_false_iff.mpr fun h => hr ((holds_iff hwf.separated r).mp h)
  unfold addReplicated
  rw [if_neg (by simp [hholds]), getElem?_lowerBound, lowerBound_eq_length]
  set A := rs.takeWhile (·.lastId < r)
  set B := rs.dropWhile (·.lastId < r)
  have hA : ∀ a ∈ A, a.lastId < r := fun a ha => hi_lt_of_mem_takeWhile ha
  have hB : ∀ c ∈ B, r < c.firstId := fun c hc => hwf.separated.lt_lo_of_mem_dropWhile hr hc
  have hsplit : A ++ B = rs := List.takeWhile_append_dropWhile
  clear_value A B
  subst hsplit
  cases B with
  | nil => exact ⟨_, rfl, joinOrEmplace_added rangeTimeLimit hwf hop hA hB⟩
  | cons b B =>
    dsimp only [List.head?_cons]
    by_cases hfirst : b.firstId = r + 1
    swap
    · rw [if_neg hfirst]
      exact ⟨_, rfl, joinOrEmplace_added rangeTimeLimit hwf hop hA hB⟩
    rw [if_pos hfirst, set_append_length]
    have hshape : A ++ b :: B = A ++ [b] ++ B := by simp
    have hwf' : WellFormed (A ++ [b] ++ B) := hshape ▸ hwf
    have hop' : ∀ c ∈ A ++ [b] ++ B, c.minOpId ≠ op := hshape ▸ hop
    -- the id extends the range after it down, when the join with the range before fails
    have hdown : Added (A ++ b :: B)
        (updateMinOpId ((A ++ b.insertTime time :: B).set A.length
          { b.insertTime time with firstId := (b.insertTime time).firstId - 1 }) A.length
          (min b.minOpId op)) r op time := by
      rw [set_append_length, updateMinOpId_append_cons (minOpId_ne_of_choice hwf' hop' (by
        rcases min_choice b.minOpId op with h | h
        · exact .inr ⟨b, List.mem_singleton_self b, h⟩
        · exact .inl h)), hshape]
      exact added_extendDown hwf' hop' hfirst hA
    rcases List.eq_nil_or_concat' A with rfl | ⟨A', p, rfl⟩
    · exact ⟨_, rfl, hdown⟩
    have hjoinShape : A' ++ [p] ++ b.insertTime time :: B = A' ++ p :: b.insertTime time :: B := by
      simp
    rw [show (A' ++ [p]).length = A'.length + 1 by simp, hjoinShape, tryJoinRanges_append]
    rw [show (A' ++ [p]).length = A'.length + 1 by simp, hjoinShape] at hdown
    split_ifs with hgap htime
    · exact ⟨_, rfl, hdown⟩
    · exact ⟨_, rfl, hdown⟩
    have hp : p.lastId + 2 = b.firstId := not_not.mp hgap
    have hpairShape : A' ++ [p] ++ b :: B = A' ++ [p, b] ++ B := by simp
    have hwf'' : WellFormed (A' ++ [p, b] ++ B) := hpairShape ▸ hwf
    have hop'' : ∀ c ∈ A' ++ [p, b] ++ B, c.minOpId ≠ op := hpairShape ▸ hop
    refine ⟨_, rfl, ?_⟩
    rw [updateMinOpId_append_cons (minOpId_ne_of_choice hwf'' hop'' (by
      rcases min_choice (min b.minOpId op) p.minOpId with h | h
      · rcases min_choice b.minOpId op with h' | h'
        · exact .inr ⟨b, by simp, h.trans h'⟩
        · exact .inl (h.trans h')
      · exact .inr ⟨p, by simp, h⟩)), hpairShape]
    exact added_join hwf'' hop'' hfirst hp

end AddReplicated

/-! ## `CleanupReplicatedRequests` -/

/-- What dropping the ids below `m` makes of the ranges `rs`. -/
structure Trimmed (rs rs' : List Range) (m : RetryableRequestId) : Prop where
  wellFormed : WellFormed rs'
  mem_covers : ∀ x, x ∈ Covers firstId lastId rs' ↔ x ∈ Covers firstId lastId rs ∧ m ≤ x
  minOpId_sublist : (rs'.map (·.minOpId)).Sublist (rs.map (·.minOpId))
  within : Within rs' rs ∅

namespace ClientRetryableRequests

variable {c : ClientRetryableRequests} {m : RetryableRequestId}

@[simp] theorem cleanupReplicatedRequests_running :
    (c.cleanupReplicatedRequests m).running = c.running := by
  unfold cleanupReplicatedRequests
  split <;> rfl

@[simp] theorem cleanupReplicatedRequests_minRunningRequestId :
    (c.cleanupReplicatedRequests m).minRunningRequestId = max c.minRunningRequestId m := by
  unfold cleanupReplicatedRequests
  split
  · rename_i h
    exact (max_eq_right h.le).symm
  · rename_i h
    exact (max_eq_left (not_lt.mp h)).symm

theorem cleanupReplicatedRequests_of_not_lt (h : ¬ c.minRunningRequestId < m) :
    c.cleanupReplicatedRequests m = c :=
  if_neg h

theorem cleanupReplicatedRequests_trimmed (hwf : WellFormed c.replicated)
    (h : c.minRunningRequestId < m) :
    Trimmed c.replicated (c.cleanupReplicatedRequests m).replicated m := by
  have hsub : (c.replicated.dropWhile (·.lastId < m)).Sublist c.replicated := List.dropWhile_sublist _
  unfold cleanupReplicatedRequests
  rw [if_pos h]
  dsimp only
  cases hdrop : c.replicated.dropWhile (·.lastId < m) with
  | nil =>
    refine ⟨⟨Separated.nil, List.nodup_nil⟩, fun x => ?_, List.nil_sublist _, by simp [Within]⟩
    simp only [not_mem_covers_nil, false_iff, not_and]
    intro hx hmx
    have := (mem_covers_dropWhile_of_le hmx).mpr hx
    rw [hdrop] at this
    exact not_mem_covers_nil x this
  | cons b B =>
    dsimp only
    rw [hdrop] at hsub
    have hwfB : WellFormed (b :: B) := hwf.sublist hsub
    have hmb : m ≤ b.lastId := le_hi_of_dropWhile_eq_cons hdrop
    have hbB : ∀ c ∈ B, b.lastId < c.firstId := fun c hc =>
      List.rel_of_pairwise_cons hwfB.separated.pairwise hc
    -- the first range left keeps its last id, op id and times; only its first id may rise to `m`
    set b' := if b.firstId < m then { b with firstId := m } else b with hb'
    have hb'last : b'.lastId = b.lastId := by rw [hb']; split <;> rfl
    have hb'op : b'.minOpId = b.minOpId := by rw [hb']; split <;> rfl
    have hb'widens : b'.Widens b := by rw [hb']; split <;> exact .refl _
    have hb'first : b'.firstId = max b.firstId m := by
      rw [hb']
      split
      · rename_i hlt
        exact (max_eq_right hlt.le).symm
      · rename_i hle
        exact (max_eq_left (not_lt.mp hle)).symm
    refine ⟨⟨.cons ?_ (hwfB.separated.sublist (List.sublist_cons_self _ _)) ?_, ?_⟩, fun x => ?_, ?_,
      ?_⟩
    · rw [hb'first, hb'last]
      exact max_le (hwfB.separated.lo_le_hi b (by simp)) hmb
    · intro c hc
      rw [hb'last]
      exact hbB c hc
    · simpa [hb'op] using hwfB.minOpId_nodup
    · constructor
      · intro hx
        rcases mem_covers_cons.mp hx with ⟨hlo, hhi⟩ | hx
        · rw [hb'first] at hlo
          rw [hb'last] at hhi
          refine ⟨covers_mono hsub.subset (mem_covers_cons.mpr (.inl ⟨?_, hhi⟩)), ?_⟩
          · exact (le_max_left _ _).trans hlo
          · exact (le_max_right _ _).trans hlo
        · refine ⟨covers_mono hsub.subset (mem_covers_cons.mpr (.inr hx)), ?_⟩
          obtain ⟨c, hc, hlo, -⟩ := hx
          exact (hmb.trans (hbB c hc).le).trans hlo
      · rintro ⟨hx, hmx⟩
        have hx' := (mem_covers_dropWhile_of_le hmx).mpr hx
        rw [hdrop] at hx'
        rcases mem_covers_cons.mp hx' with ⟨hlo, hhi⟩ | hx'
        · exact mem_covers_cons.mpr (.inl ⟨hb'first ▸ max_le hlo hmx, hb'last ▸ hhi⟩)
        · exact mem_covers_cons.mpr (.inr hx')
    · simpa [hb'op] using hsub.map (·.minOpId)
    · intro c hc x hlo hhi _
      rcases List.mem_cons.mp hc with rfl | hc
      · rw [hb'first] at hlo
        rw [hb'last] at hhi
        exact ⟨b, hsub.subset (by simp), (le_max_left _ _).trans hlo, hhi, hb'widens⟩
      · exact ⟨c, hsub.subset (by simp [hc]), hlo, hhi, .refl _⟩

end ClientRetryableRequests

/-! ## The expiry of a client's ranges -/

/-- What the loop of `CleanExpiredReplicatedAndGetMinOpId` does to one client: it keeps some of the
ranges, erases only expired ones, and returns the least `min_op_id` of those it keeps. -/
structure ExpiredRanges (c c' : ClientRetryableRequests) (first : Option OpId)
    (cleanStart : RestartSafeCoarseTimePoint) : Prop where
  running : c'.running = c.running
  minRunningRequestId : c'.minRunningRequestId = c.minRunningRequestId
  emptySince : c'.emptySince = c.emptySince
  sublist : c'.replicated.Sublist c.replicated
  erased_expired : ∀ b ∈ c.replicated, b ∉ c'.replicated → b.maxTime < cleanStart
  first_mem : ∀ o, first = some o → o ∈ c'.replicated.map (·.minOpId)
  first_le : ∀ o, first = some o → ∀ b ∈ c'.replicated, o ≤ b.minOpId
  none_empty : first = none → c'.replicated = []

namespace ClientRetryableRequests

theorem opIdIndex_perm (c : ClientRetryableRequests) : c.opIdIndex.Perm c.replicated :=
  List.mergeSort_perm _ _

theorem opIdIndex_sorted (c : ClientRetryableRequests) :
    c.opIdIndex.Pairwise fun a b => decide (a.minOpId ≤ b.minOpId) :=
  List.pairwise_mergeSort (fun _ _ _ hab hbc => by simp only [decide_eq_true_eq] at *; exact hab.trans hbc)
    (fun a b => by simpa using le_total a.minOpId b.minOpId) _

theorem cleanExpiredReplicated_spec {c : ClientRetryableRequests} (hwf : WellFormed c.replicated)
    (cleanStart : RestartSafeCoarseTimePoint) :
    ExpiredRanges c (c.cleanExpiredReplicated cleanStart).2 (c.cleanExpiredReplicated cleanStart).1
      cleanStart := by
  have hperm := c.opIdIndex_perm
  have hnodup : c.opIdIndex.Nodup := hperm.nodup_iff.mpr hwf.nodup
  set E := c.opIdIndex.takeWhile (·.maxTime < cleanStart) with hE
  have hED : E ++ c.opIdIndex.drop E.length = c.opIdIndex := by
    rw [hE, drop_length_takeWhile]
    exact List.takeWhile_append_dropWhile
  have hexpired : ∀ b ∈ E, b.maxTime < cleanStart := fun b hb => by
    simpa using List.mem_takeWhile_imp hb
  unfold cleanExpiredReplicated
  dsimp only
  rw [← hE]
  cases hD : c.opIdIndex.drop E.length with
  | nil =>
    refine ⟨rfl, rfl, rfl, List.nil_sublist _, fun b hb _ => hexpired b ?_, by simp, by simp,
      fun _ => rfl⟩
    have hb' : b ∈ c.opIdIndex := hperm.mem_iff.mpr hb
    rwa [← hED, hD, List.append_nil] at hb'
  | cons first rest =>
    rw [hD] at hED
    have hdisjoint : ∀ b ∈ first :: rest, b ∉ E := fun b hb hbE =>
      List.disjoint_of_nodup_append (hED ▸ hnodup) hbE hb
    refine ⟨rfl, rfl, rfl, List.filter_sublist, ?_, ?_, ?_, by simp⟩
    · intro b hb hkept
      apply hexpired b
      by_contra hnot
      exact hkept (List.mem_filter.mpr ⟨hb, by simpa using hnot⟩)
    · intro o ho
      obtain rfl : first.minOpId = o := Option.some.inj ho
      have hfirst : first ∈ c.opIdIndex := hED ▸ List.mem_append_right _ (List.mem_cons_self ..)
      refine List.mem_map_of_mem (List.mem_filter.mpr ⟨hperm.mem_iff.mp hfirst, ?_⟩)
      simpa using hdisjoint first (List.mem_cons_self ..)
    · intro o ho b hb
      obtain rfl : first.minOpId = o := Option.some.inj ho
      obtain ⟨hbrep, hbE⟩ := List.mem_filter.mp hb
      have hbI : b ∈ E ++ first :: rest := hED ▸ hperm.mem_iff.mpr hbrep
      rcases List.mem_append.mp hbI with h | h
      · exact absurd h (by simpa using hbE)
      rcases List.mem_cons.mp h with rfl | h
      · exact le_rfl
      · have hs : (first :: rest).Pairwise fun a b => decide (a.minOpId ≤ b.minOpId) :=
          (hED ▸ c.opIdIndex_sorted).sublist (List.sublist_append_right _ _)
        exact of_decide_eq_true (List.rel_of_pairwise_cons hs h)

end ClientRetryableRequests

end FrescoDB.Consensus.RetryableRequests
