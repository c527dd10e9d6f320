import FrescoDB.Consensus.LogGC
import FrescoDB.Lib.SortedList
import FrescoDB.Lib.AssocList

/-! What `Log::GC` keeps. A read of op `j` finds the op's index entry, then the batch at the entry's
offset in the segment the reader finds for the entry's sequence number. So a reader and an index
that answer as the old ones for every op the old ones held give the same reads (`Retains`,
`readReplicatesInRange_of_retains`). `GC` removes a prefix of the closed segments whose ops are
all below `min_op_idx` and the index chunks below the least op of the closed segments left; in a
Raft log the ops from `min_op_idx` on are in the segments left, and, because an op follows the one
written before it or overwrites later ones, in the chunks left too. -/
namespace FrescoDB.Log

open FrescoDB.Util FrescoDB.Consensus FrescoDB.Lib

variable {P : Type}

namespace Segment

/-- The op indexes of the `REPLICATE`s of a batch, in order. -/
def batchOpIndexes (batch : List (LogEntryPB P)) : List Int :=
  (batch.filterMap (·.replicate)).map (·.id.index)

/-- The op indexes of the segment's `REPLICATE`s, in the order written. -/
def opIndexes (segment : Segment P) : List Int :=
  segment.batches.flatMap fun b => batchOpIndexes b.2

theorem mem_opIndexes_of_lookup {segment : Segment P} {offset j : Int}
    {batch : List (LogEntryPB P)} (hb : segment.batches.lookup offset = some batch)
    (hj : j ∈ batchOpIndexes batch) : j ∈ segment.opIndexes :=
  List.mem_flatMap.mpr ⟨(offset, batch), mem_of_lookup_eq_some hb, hj⟩

end Segment

/-- A footer records the least and the greatest of a segment's op indexes, `-1` for the greatest
of none. -/
def LogSegmentFooterPB.Records (footer : LogSegmentFooterPB) (indexes : List Int) : Prop :=
  footer.minReplicateIndex = indexes.min? ∧ footer.maxReplicateIndex = indexes.max?.getD (-1)

namespace LogSegmentFooterPB

variable {footer : LogSegmentFooterPB} {indexes : List Int}

theorem Records.le_max (h : footer.Records indexes) {x : Int} (hx : x ∈ indexes) :
    x ≤ footer.maxReplicateIndex := by
  obtain ⟨m, hm⟩ := Option.isSome_iff_exists.mp (List.isSome_max?_of_ne_nil (List.ne_nil_of_mem hx))
  rw [h.2, hm, Option.getD_some]
  exact (List.max?_eq_some_iff.mp hm).2 x hx

theorem Records.min_le (h : footer.Records indexes) {x : Int} (hx : x ∈ indexes) :
    ∃ m, footer.minReplicateIndex = some m ∧ m ≤ x := by
  obtain ⟨m, hm⟩ := Option.isSome_iff_exists.mp (List.isSome_min?_of_ne_nil (List.ne_nil_of_mem hx))
  exact ⟨m, h.1.trans hm, (List.min?_eq_some_iff.mp hm).2 x hx⟩

theorem Records.mem_of_min (h : footer.Records indexes) {m : Int}
    (hm : footer.minReplicateIndex = some m) : m ∈ indexes :=
  List.min?_mem (h.1 ▸ hm)

end LogSegmentFooterPB

namespace LogIndex

theorem mem_foldl_erase_iff {unlink : Int → Bool} {c : Int} :
    ∀ (chunks acc : List Int), c ∉ chunks →
      (c ∈ chunks.foldl (fun acc x => if unlink x then acc.erase x else acc) acc ↔ c ∈ acc)
  | [], _, _ => Iff.rfl
  | x :: chunks, acc, hc => by
    have hx : c ≠ x := fun h => hc (h ▸ List.mem_cons_self ..)
    rw [List.foldl_cons, mem_foldl_erase_iff chunks _ (fun h => hc (List.mem_cons_of_mem x h))]
    split_ifs
    · exact List.mem_erase_of_ne hx
    · exact Iff.rfl

theorem bmod_le_self {x : Int} (hx : 0 ≤ x) : x.bmod (2 ^ 32) ≤ x := by
  have hmod : x % ((2 ^ 32 : Nat) : Int) ≤ x := by
    rw [Int.emod_def]
    have := Int.ediv_nonneg hx (by norm_num : (0 : Int) ≤ ((2 ^ 32 : Nat) : Int))
    nlinarith
  rw [Int.bmod_def]
  split_ifs <;> omega

theorem getEntry_gc_of_le {logIndex : LogIndex} {m j : Int} {unlink : Int → Bool} (hm : 0 < m)
    (hj : m ≤ j) : (logIndex.gc m unlink).getEntry j = logIndex.getEntry j := by
  have hchunk : (m.tdiv kEntriesPerIndexChunk).bmod (2 ^ 32) ≤ j / kEntriesPerIndexChunk := by
    rw [Int.tdiv_eq_ediv_of_nonneg hm.le]
    calc (m / kEntriesPerIndexChunk).bmod (2 ^ 32)
        ≤ m / kEntriesPerIndexChunk := bmod_le_self (Int.ediv_nonneg hm.le (by decide))
      _ ≤ j / kEntriesPerIndexChunk := Int.ediv_le_ediv (by decide) hj
  have hmem : j / kEntriesPerIndexChunk ∈ (logIndex.gc m unlink).openChunks ↔
      j / kEntriesPerIndexChunk ∈ logIndex.openChunks := by
    refine mem_foldl_erase_iff _ _ fun h => ?_
    have := of_decide_eq_true (List.mem_filter.mp h).2
    omega
  simp only [getEntry, getChunkForIndex, hmem]
  rfl

theorem getEntry_eq_ok {logIndex : LogIndex} {j : Int} {e : LogIndexEntry}
    (h : logIndex.getEntry j = some (.ok e)) :
    (logIndex.physical j).offsetInSegment ≠ 0 ∧
      e = ⟨⟨(logIndex.physical j).term, j⟩, (logIndex.physical j).segmentSequenceNumber,
        (logIndex.physical j).offsetInSegment⟩ := by
  unfold getEntry getChunkForIndex at h
  split_ifs at h with hj hchunk
  · simp at h
  · simp only [Option.map_some, Option.some.injEq] at h
    split_ifs at h with hoff
    cases h
    exact ⟨hoff, rfl⟩
  · simp at h

end LogIndex

namespace LogReader

/-- The reader holds op `j` in the batch at `offset` of the segment it finds for `seq`. -/
def Holds (ndebug : Bool) (reader : LogReader P) (seq offset j : Int) : Prop :=
  ∃ segment batch, reader.getSegmentBySequenceNumber ndebug seq = some (some segment) ∧
    segment.batches.lookup offset = some batch ∧ j ∈ Segment.batchOpIndexes batch

/-- The batch read through an index entry depends on the reader only through the segment it finds
for the entry's sequence number. -/
theorem readBatchUsingIndexEntry_congr {ndebug : Bool} {reader reader' : LogReader P}
    {indexEntry : LogIndexEntry}
    (h : reader'.getSegmentBySequenceNumber ndebug indexEntry.segmentSequenceNumber =
      reader.getSegmentBySequenceNumber ndebug indexEntry.segmentSequenceNumber) :
    reader'.readBatchUsingIndexEntry ndebug indexEntry =
      reader.readBatchUsingIndexEntry ndebug indexEntry := by
  simp only [readBatchUsingIndexEntry, h]

theorem holds_of_readBatchUsingIndexEntry {ndebug : Bool} {reader : LogReader P}
    {indexEntry : LogIndexEntry} {batch : List (LogEntryPB P)} {j : Int}
    (h : reader.readBatchUsingIndexEntry ndebug indexEntry = some (.ok batch))
    (hj : j ∈ Segment.batchOpIndexes batch) :
    reader.Holds ndebug indexEntry.segmentSequenceNumber indexEntry.offsetInSegment j := by
  unfold readBatchUsingIndexEntry at h
  dsimp only at h
  split at h
  · cases h
  · cases h
  · rename_i segment hseg
    split_ifs at h
    cases hb : segment.batches.lookup indexEntry.offsetInSegment with
    | none => simp [Segment.readEntryHeaderAndBatch, hb, Status.prepend, Except.mapError] at h
    | some b =>
      simp only [Segment.readEntryHeaderAndBatch, hb, Status.prepend_ok, Option.some.injEq,
        Except.ok.injEq] at h
      exact ⟨segment, b, hseg, hb, h ▸ hj⟩

section Segments

theorem getMinReplicateIndex_eq_foldl (reader : LogReader P) :
    reader.getMinReplicateIndex = reader.segments.foldl
      (fun acc segment => match segment.footer.bind (·.minReplicateIndex) with
        | none => acc
        | some m => if acc = -1 ∨ m < acc then m else acc) (-1) := rfl

/-- With positive minimums, the scan of `GetMinReplicateIndex` from `acc` stays `-1` or positive,
below `acc` once `acc` is set, and below every minimum it passes. -/
theorem foldl_min_le :
    ∀ (segments : List (Segment P)) (acc : Int),
      (∀ segment ∈ segments, ∀ m, segment.footer.bind (·.minReplicateIndex) = some m → 0 < m) →
      (acc = -1 ∨ 0 < acc) →
      let r := segments.foldl (fun acc segment => match segment.footer.bind (·.minReplicateIndex) with
        | none => acc
        | some m => if acc = -1 ∨ m < acc then m else acc) acc
      (acc ≠ -1 → r ≤ acc) ∧
        ∀ segment ∈ segments, ∀ m, segment.footer.bind (·.minReplicateIndex) = some m → r ≤ m
  | [], acc, _, _ => ⟨fun _ => le_rfl, fun _ h => by simp at h⟩
  | segment :: segments, acc, hpos, hacc => by
    intro r
    -- the scan after `segment`
    have hrest := foldl_min_le segments
    cases hs : segment.footer.bind (·.minReplicateIndex) with
    | none =>
      simp only [r, List.foldl_cons, hs]
      obtain ⟨hle, hall⟩ := hrest acc (fun s hs' => hpos s (List.mem_cons_of_mem _ hs')) hacc
      refine ⟨hle, fun s hs' m hm => ?_⟩
      rcases List.mem_cons.mp hs' with rfl | hs'
      · rw [hs] at hm
        cases hm
      · exact hall s hs' m hm
    | some m0 =>
      have hm0 : 0 < m0 := hpos segment (List.mem_cons_self ..) m0 hs
      simp only [r, List.foldl_cons, hs]
      set acc' := if acc = -1 ∨ m0 < acc then m0 else acc with hacc'
      have hacc'_pos : 0 < acc' := by rw [hacc']; split_ifs <;> omega
      have hacc'_le : acc' ≤ m0 := by rw [hacc']; split_ifs <;> omega
      obtain ⟨hle, hall⟩ := hrest acc' (fun s hs' => hpos s (List.mem_cons_of_mem _ hs'))
        (.inr hacc'_pos)
      have hr : _ ≤ acc' := hle (by omega)
      refine ⟨fun hne => hr.trans (by rw [hacc']; split_ifs <;> omega), fun s hs' m hm => ?_⟩
      rcases List.mem_cons.mp hs' with rfl | hs'
      · rw [hs] at hm
        cases hm
        exact hr.trans hacc'_le
      · exact hall s hs' m hm

theorem getMinReplicateIndex_le {reader : LogReader P}
    (hpos : ∀ segment ∈ reader.segments, ∀ m,
      segment.footer.bind (·.minReplicateIndex) = some m → 0 < m)
    {segment : Segment P} (hs : segment ∈ reader.segments) {m : Int}
    (hm : segment.footer.bind (·.minReplicateIndex) = some m) : reader.getMinReplicateIndex ≤ m :=
  (foldl_min_le reader.segments (-1) hpos (.inl rfl)).2 segment hs m hm

theorem exists_min_of_getMinReplicateIndex_ne {reader : LogReader P}
    (h : reader.getMinReplicateIndex ≠ -1) :
    ∃ segment ∈ reader.segments, ∃ m, segment.footer.bind (·.minReplicateIndex) = some m := by
  by_contra hnone
  push Not at hnone
  apply h
  rw [getMinReplicateIndex_eq_foldl]
  -- no footer sets a minimum, so the scan never moves from `-1`
  suffices ∀ (segments : List (Segment P)) (acc : Int),
      (∀ segment ∈ segments, ∀ m, segment.footer.bind (·.minReplicateIndex) ≠ some m) →
      segments.foldl (fun acc segment => match segment.footer.bind (·.minReplicateIndex) with
        | none => acc
        | some m => if acc = -1 ∨ m < acc then m else acc) acc = acc from this _ _ hnone
  intro segments
  induction segments with
  | nil => intro acc _; rfl
  | cons segment segments ih =>
    intro acc hs
    cases hm : segment.footer.bind (·.minReplicateIndex) with
    | none =>
      simp only [List.foldl_cons, hm]
      exact ih acc fun s hs' => hs s (List.mem_cons_of_mem _ hs')
    | some m => exact absurd hm (hs segment (List.mem_cons_self ..) m)

/-- What `GetSegmentBySequenceNumber` finds: the segment at the sequence number's distance from
the first, whose sequence number a debug build checks. -/
theorem getSegmentBySequenceNumber_eq_some {ndebug : Bool} {reader : LogReader P} {seq : Int}
    {segment : Segment P}
    (h : reader.getSegmentBySequenceNumber ndebug seq = some (some segment)) :
    ∃ (p : Nat) (hp : p < reader.segments.length), ∃ first ∈ reader.segments.head?,
      (p : Int) = seq - first.sequenceNumber ∧ reader.segments[p] = segment ∧
      (ndebug = false → segment.sequenceNumber = seq) := by
  unfold getSegmentBySequenceNumber at h
  split at h
  · cases h
  · rename_i first rest hsegs
    dsimp only at h
    split_ifs at h with hrel
    · cases h
    · split at h
      · cases h
      · rename_i seg hseg
        split_ifs at h with hcheck
        cases h
        obtain ⟨hp, hget⟩ := List.getElem?_eq_some_iff.mp hseg
        refine ⟨(seq - first.sequenceNumber).toNat, hp, first, by simp [hsegs], by omega, hget,
          fun hnd => ?_⟩
        simpa [hnd] using hcheck

/-- Where the sequence numbers up to a segment are consecutive, the reader left after dropping
segments before it finds that segment for its sequence number. -/
theorem getSegmentBySequenceNumber_drop (ndebug : Bool) {segments : List (Segment P)} {d p : Nat}
    (hp : p < segments.length) (hdp : d ≤ p)
    (hconsec : ∀ (k : Nat) (hk : k ≤ p),
      segments[k].sequenceNumber = segments[0].sequenceNumber + k) :
    (⟨segments.drop d⟩ : LogReader P).getSegmentBySequenceNumber ndebug segments[p].sequenceNumber =
      some (some segments[p]) := by
  have hd := hconsec d hdp
  have hpk := hconsec p le_rfl
  unfold getSegmentBySequenceNumber
  rw [List.drop_eq_getElem_cons (by omega)]
  dsimp only
  rw [hd, hpk, if_neg (by simp only [List.length_cons, List.length_drop]; omega)]
  have hidx : (segments[0].sequenceNumber + p - (segments[0].sequenceNumber + d)).toNat = p - d := by
    omega
  rw [hidx, ← List.drop_eq_getElem_cons (by omega), List.getElem?_drop,
    show d + (p - d) = p by omega, List.getElem?_eq_getElem hp]
  simp [hpk]

/-- With increasing sequence numbers, trimming up to the last of a nonempty prefix drops exactly
the prefix. -/
theorem trimSegmentsUpToAndIncluding_eq_drop {reader : LogReader P}
    (hsorted : reader.segments.Pairwise (·.sequenceNumber < ·.sequenceNumber))
    {pre : List (Segment P)} (hpre : pre <+: reader.segments) {last : Segment P}
    (hlast : pre.getLast? = some last) :
    (reader.trimSegmentsUpToAndIncluding last.sequenceNumber).segments =
      reader.segments.drop pre.length := by
  obtain ⟨post, hpost⟩ := hpre
  obtain ⟨init, rfl⟩ := List.getLast?_eq_some_iff.mp hlast
  simp only [trimSegmentsUpToAndIncluding]
  rw [← hpost] at hsorted ⊢
  obtain ⟨hinit, -, hcross⟩ := List.pairwise_append.mp hsorted
  have hbefore : ∀ a ∈ init, a.sequenceNumber < last.sequenceNumber :=
    fun a ha => (List.pairwise_append.mp hinit).2.2 a ha last (List.mem_singleton_self last)
  have hafter : ∀ b ∈ post, last.sequenceNumber < b.sequenceNumber :=
    hcross last (List.mem_append_right _ (List.mem_singleton_self last))
  rw [List.drop_left' rfl, List.dropWhile_append_of_pos, List.dropWhile_eq_self_iff]
  · intro hl
    simpa using hafter post[0] (List.getElem_mem hl)
  · intro a ha
    rcases List.mem_append.mp ha with ha | ha
    · simpa using (hbefore a ha).le
    · simp [List.mem_singleton.mp ha]

end Segments

/-- What the loop's batch still holds it read through its previous index entry. -/
def ReadState.Held (ndebug : Bool) (reader : LogReader P) (st : ReadState P) : Prop :=
  ∀ j ∈ Segment.batchOpIndexes st.batch, reader.Holds ndebug
    st.prevIndexEntry.segmentSequenceNumber st.prevIndexEntry.offsetInSegment j

theorem batchOpIndexes_set_subset (batch : List (LogEntryPB P)) (k : Nat) :
    Segment.batchOpIndexes (batch.set k {}) ⊆ Segment.batchOpIndexes batch := by
  intro j hj
  simp only [Segment.batchOpIndexes, List.mem_map, List.mem_filterMap] at hj ⊢
  obtain ⟨r, ⟨entry, hentry, hr⟩, rfl⟩ := hj
  rcases List.mem_or_eq_of_mem_set hentry with hmem | rfl
  · exact ⟨r, ⟨entry, hmem, hr⟩, rfl⟩
  · cases hr

/-- A pass that takes the op out of the batch found it there, records the batch's entry as the
previous one, and leaves in the batch only what it held, with the op's `REPLICATE` added to the
result or the limit reached. -/
theorem takeReplicate_spec {maxBytesToRead index : Int} {indexEntry : LogIndexEntry}
    {batch : List (LogEntryPB P)} {st st' : ReadState P}
    (h : takeReplicate maxBytesToRead index indexEntry batch st = some st') :
    index ∈ Segment.batchOpIndexes batch ∧ st'.prevIndexEntry = indexEntry ∧
      Segment.batchOpIndexes st'.batch ⊆ Segment.batchOpIndexes batch ∧
      (st'.replicatesTmp = st.replicatesTmp ∨
        ∃ r, r.id.index = index ∧ st'.replicatesTmp = st.replicatesTmp ++ [r]) := by
  unfold takeReplicate at h
  split at h
  · cases h
  · rename_i k hk
    split at h
    · cases h
    · rename_i entry hentry
      split at h
      · cases h
      · rename_i replicate hrep
        dsimp only at h
        have hfound : replicate.id.index = index := by
          obtain ⟨hlt, hp, -⟩ := List.findIdx?_eq_some_iff_getElem.mp hk
          rw [List.getElem?_eq_getElem hlt, Option.some.injEq] at hentry
          simpa [hentry, hrep] using hp
        have hmem : index ∈ Segment.batchOpIndexes batch := by
          simp only [Segment.batchOpIndexes, List.mem_map, List.mem_filterMap]
          exact ⟨replicate, ⟨entry, List.mem_of_getElem? hentry, hrep⟩, hfound⟩
        split at h <;> cases h
        · exact ⟨hmem, rfl, batchOpIndexes_set_subset batch k, .inr ⟨replicate, hfound, rfl⟩⟩
        · exact ⟨hmem, rfl, fun _ hj => hj, .inl rfl⟩

/-- From op `lo` on, `reader'` and `logIndex'` answer as `reader` and `logIndex` do for every op
that these hold where its index entry points. -/
structure Retains (ndebug : Bool) (lo : Int) (reader reader' : LogReader P)
    (logIndex logIndex' : LogIndex) : Prop where
  getEntry_eq : ∀ j e, lo ≤ j → logIndex.getEntry j = some (.ok e) →
    reader.Holds ndebug e.segmentSequenceNumber e.offsetInSegment j →
    logIndex'.getEntry j = some (.ok e)
  lookup_eq : ∀ j e, lo ≤ j → logIndex.getEntry j = some (.ok e) →
    reader.Holds ndebug e.segmentSequenceNumber e.offsetInSegment j →
    reader'.getSegmentBySequenceNumber ndebug e.segmentSequenceNumber =
      reader.getSegmentBySequenceNumber ndebug e.segmentSequenceNumber

section Retains

variable {ndebug : Bool} {lo startingAt upTo maxBytesToRead : Int} {reader reader' : LogReader P}
  {logIndex logIndex' : LogIndex}

/-- The step lemma: a pass of the loop from `lo` on that succeeds on the old log does the same on
one that retains it, and keeps its batch held. -/
theorem readStep_of_retains (hret : Retains ndebug lo reader reader' logIndex logIndex')
    {index : Int} {st st' : ReadState P} (hlo : lo ≤ index) (hheld : st.Held ndebug reader)
    (h : readStep ndebug reader logIndex startingAt maxBytesToRead index st = some (.ok st')) :
    readStep ndebug reader' logIndex' startingAt maxBytesToRead index st = some (.ok st') ∧
      st'.Held ndebug reader := by
  unfold readStep at h
  split at h
  · cases h
  · cases h
  · rename_i e he
    split_ifs at h with hre
    · -- the batch is read again, through the entry just found
      split at h
      · cases h
      · cases h
      · rename_i batch hbatch
        split_ifs at h with hinc
        obtain ⟨st'', hst'', hok⟩ := Option.map_eq_some_iff.mp h
        cases hok
        obtain ⟨hmem, hprev, hsub, -⟩ := takeReplicate_spec hst''
        have hholds := holds_of_readBatchUsingIndexEntry hbatch hmem
        have hentry := hret.getEntry_eq index e hlo he hholds
        have hread := readBatchUsingIndexEntry_congr (hret.lookup_eq index e hlo he hholds)
        refine ⟨?_, fun j hj => hprev ▸ holds_of_readBatchUsingIndexEntry hbatch (hsub hj)⟩
        simp only [readStep, hentry, if_pos hre, hread, hbatch, hinc, if_true, hst'',
          Option.map_some]
    · -- the previous entry named the same batch, which the loop still holds
      obtain ⟨hne, hseq, hoff⟩ : index ≠ startingAt ∧
          e.segmentSequenceNumber = st.prevIndexEntry.segmentSequenceNumber ∧
          e.offsetInSegment = st.prevIndexEntry.offsetInSegment := by
        simpa only [not_or, not_not] using hre
      obtain ⟨st'', hst'', hok⟩ := Option.map_eq_some_iff.mp h
      cases hok
      obtain ⟨hmem, hprev, hsub, -⟩ := takeReplicate_spec hst''
      have hholds : reader.Holds ndebug e.segmentSequenceNumber e.offsetInSegment index := by
        rw [hseq, hoff]
        exact hheld index hmem
      have hentry := hret.getEntry_eq index e hlo he hholds
      refine ⟨?_, fun j hj => ?_⟩
      · simp only [readStep, hentry, if_neg hre, hst'', Option.map_some]
      · rw [hprev, hseq, hoff]
        exact hheld j (hsub hj)

/-- The run lemma: a loop from `lo` on that succeeds on the old log gives the same ops on one
that retains it. -/
theorem readLoop_of_retains (hret : Retains ndebug lo reader reader' logIndex logIndex') :
    ∀ (k : Nat) (st : ReadState P) (r : List (ReplicateMsg P)), lo ≤ kInt32Max - k →
      st.Held ndebug reader →
      readLoop ndebug reader logIndex startingAt upTo maxBytesToRead k st = some (.ok r) →
      readLoop ndebug reader' logIndex' startingAt upTo maxBytesToRead k st = some (.ok r) := by
  intro k
  induction k with
  | zero =>
    intro st r hlo hheld h
    rw [readLoop.eq_1] at h ⊢
    split_ifs at h ⊢ with hcond
    · split at h <;> simp at h
    · exact h
  | succ k ih =>
    intro st r hlo hheld h
    rw [readLoop.eq_1] at h ⊢
    split_ifs at h ⊢ with hcond
    · split at h
      · cases h
      · cases h
      · rename_i st' hst
        obtain ⟨hst', hheld'⟩ := readStep_of_retains hret hlo hheld hst
        rw [hst']
        exact ih st' r (by push_cast at hlo ⊢; omega) hheld' h
    · exact h

/-- A read whose first op is from `lo` on gives the same ops on a log that retains the old one
from `lo` on. -/
theorem readReplicatesInRange_of_retains (hret : Retains ndebug lo reader reader' logIndex logIndex')
    {prevIndexEntry : LogIndexEntry} {r : List (ReplicateMsg P)}
    (hlo : lo ≤ startingAt.bmod (2 ^ 32))
    (h : readReplicatesInRange ndebug reader logIndex prevIndexEntry startingAt upTo
      maxBytesToRead = some (.ok r)) :
    readReplicatesInRange ndebug reader' logIndex' prevIndexEntry startingAt upTo
      maxBytesToRead = some (.ok r) := by
  unfold readReplicatesInRange at h ⊢
  split_ifs at h ⊢ with hcheck
  have hlt : startingAt.bmod (2 ^ 32) < 2 ^ 31 := by
    have := @Int.bmod_lt startingAt (2 ^ 32) (by norm_num)
    norm_num at this
    exact this
  refine readLoop_of_retains hret _ _ r ?_ (fun j hj => by simp [Segment.batchOpIndexes] at hj) h
  unfold kInt32Max
  omega

end Retains

theorem readStep_replicatesTmp {ndebug : Bool} {reader : LogReader P} {logIndex : LogIndex}
    {startingAt maxBytesToRead index : Int} {st st' : ReadState P}
    (h : readStep ndebug reader logIndex startingAt maxBytesToRead index st = some (.ok st')) :
    st'.replicatesTmp = st.replicatesTmp ∨
      ∃ r, r.id.index = index ∧ st'.replicatesTmp = st.replicatesTmp ++ [r] := by
  unfold readStep at h
  split at h
  · cases h
  · cases h
  · split_ifs at h
    · split at h
      · cases h
      · cases h
      · split_ifs at h
        obtain ⟨st'', hst'', hok⟩ := Option.map_eq_some_iff.mp h
        cases hok
        exact (takeReplicate_spec hst'').2.2.2
    · obtain ⟨st'', hst'', hok⟩ := Option.map_eq_some_iff.mp h
      cases hok
      exact (takeReplicate_spec hst'').2.2.2

theorem readLoop_index_le {ndebug : Bool} {reader : LogReader P} {logIndex : LogIndex}
    {startingAt upTo maxBytesToRead : Int} :
    ∀ (k : Nat) (st : ReadState P) (r : List (ReplicateMsg P)),
      (∀ m ∈ st.replicatesTmp, m.id.index ≤ kInt32Max) →
      readLoop ndebug reader logIndex startingAt upTo maxBytesToRead k st = some (.ok r) →
      ∀ m ∈ r, m.id.index ≤ kInt32Max := by
  intro k
  induction k with
  | zero =>
    intro st r hst h
    rw [readLoop.eq_1] at h
    split_ifs at h
    · split at h <;> simp at h
    · cases h
      exact hst
  | succ k ih =>
    intro st r hst h
    rw [readLoop.eq_1] at h
    split_ifs at h
    · split at h
      · cases h
      · cases h
      · rename_i st' hstep
        refine ih st' r (fun m hm => ?_) h
        rcases readStep_replicatesTmp hstep with heq | ⟨r', hr', heq⟩
        · exact hst m (heq ▸ hm)
        · rw [heq] at hm
          rcases List.mem_append.mp hm with hm | hm
          · exact hst m hm
          · rw [List.mem_singleton.mp hm, hr']
            omega
    · cases h
      exact hst

theorem bmod_eq_of_read {ndebug : Bool} {reader : LogReader P} {logIndex : LogIndex}
    {prevIndexEntry : LogIndexEntry} {i upTo maxBytesToRead : Int} {r : List (ReplicateMsg P)}
    (hi : 0 ≤ i)
    (h : readReplicatesInRange ndebug reader logIndex prevIndexEntry i upTo maxBytesToRead =
      some (.ok r))
    {m : ReplicateMsg P} (hm : m ∈ r) (hmi : m.id.index = i) : i.bmod (2 ^ 32) = i := by
  unfold readReplicatesInRange at h
  split_ifs at h
  have hle := readLoop_index_le _ _ r (fun m hm => by simp at hm) h m hm
  unfold kInt32Max at hle
  exact Int.bmod_eq_of_le (by omega) (by omega)

end LogReader

set_option linter.dupNamespace false

namespace Log

section Gc

variable {env : GcEnv} {minOpIdx : Int}

theorem getSegmentsToGCUnlocked_isPrefix (reader : LogReader P) :
    getSegmentsToGCUnlocked env reader minOpIdx <+: reader.getSegmentPrefixNotIncluding minOpIdx := by
  unfold getSegmentsToGCUnlocked
  dsimp only
  refine (List.takeWhile_prefix _).trans ?_
  split_ifs
  · exact List.take_prefix _ _
  · exact List.prefix_refl _

theorem getSegmentsToGCUnlocked_eq_take (reader : LogReader P) :
    getSegmentsToGCUnlocked env reader minOpIdx =
      reader.segments.take (getSegmentsToGCUnlocked env reader minOpIdx).length :=
  List.prefix_iff_eq_take.mp
    ((getSegmentsToGCUnlocked_isPrefix reader).trans (List.takeWhile_prefix _))

theorem footer_of_mem_getSegmentsToGCUnlocked {reader : LogReader P} {segment : Segment P}
    (h : segment ∈ getSegmentsToGCUnlocked env reader minOpIdx) :
    ∃ footer, segment.footer = some footer ∧ footer.maxReplicateIndex < minOpIdx := by
  have hmem := (getSegmentsToGCUnlocked_isPrefix reader).subset h
  have hp := List.mem_takeWhile_imp hmem
  cases hf : segment.footer with
  | none => simp [hf] at hp
  | some footer => exact ⟨footer, rfl, by simpa [hf] using hp⟩

theorem length_getSegmentsToGCUnlocked_le (reader : LogReader P) :
    ((getSegmentsToGCUnlocked env reader minOpIdx).length : Int) ≤
      max ((reader.segments.length : Int) - env.logMinSegmentsToRetain) 0 := by
  unfold getSegmentsToGCUnlocked
  dsimp only
  refine le_trans (Int.ofNat_le.mpr (List.takeWhile_prefix _).length_le) ?_
  split_ifs with h
  · rw [List.length_take]
    omega
  · omega

/-- What `GC` leaves of the reader: the segments after those it deletes. -/
def remaining (env : GcEnv) (reader : LogReader P) (minOpIdx : Int) : LogReader P :=
  ⟨reader.segments.drop (getSegmentsToGCUnlocked env reader minOpIdx).length⟩

/-- What one `GC` call does: it returns, leaves the reader with the segments after those to
delete, and leaves the index as it was, or, once it deleted segments, garbage-collects it below
the least op of the closed segments left. -/
theorem gc_eq {log : Log P}
    (hsorted : log.reader.segments.Pairwise (·.sequenceNumber < ·.sequenceNumber))
    (hmin : 0 ≤ minOpIdx) :
    ∃ status numGced logIndex, log.gc env minOpIdx =
        some (status, numGced, ⟨remaining env log.reader minOpIdx, logIndex⟩) ∧
      (logIndex = log.logIndex ∨
        0 < (remaining env log.reader minOpIdx).getMinReplicateIndex ∧
          logIndex = log.logIndex.gc (remaining env log.reader minOpIdx).getMinReplicateIndex
            env.unlink) := by
  unfold gc
  rw [if_neg (by omega)]
  dsimp only
  cases hlast : (getSegmentsToGCUnlocked env log.reader minOpIdx).getLast? with
  | none =>
    have hnil := List.getLast?_eq_none_iff.mp hlast
    have hrem : remaining env log.reader minOpIdx = log.reader := by
      simp only [remaining, hnil, List.length_nil, List.drop_zero]
    exact ⟨Status.OK, 0, log.logIndex, by rw [hrem], .inl rfl⟩
  | some last =>
    have htrim : log.reader.trimSegmentsUpToAndIncluding last.sequenceNumber =
        remaining env log.reader minOpIdx :=
      congrArg LogReader.mk (LogReader.trimSegmentsUpToAndIncluding_eq_drop hsorted
        ((getSegmentsToGCUnlocked_isPrefix log.reader).trans (List.takeWhile_prefix _)) hlast)
    simp only [htrim]
    rcases deleteFiles env.deleteFile (getSegmentsToGCUnlocked env log.reader minOpIdx) 0 with
      ⟨numGced, _ | s⟩
    · simp only
      split_ifs with hpos
      · exact ⟨_, _, _, rfl, .inr ⟨hpos, rfl⟩⟩
      · exact ⟨_, _, _, rfl, .inl rfl⟩
    · exact ⟨_, _, _, rfl, .inl rfl⟩

/-- The op indexes of the log's `REPLICATE`s, in the order written. -/
def opIndexes (log : Log P) : List Int := log.reader.segments.flatMap Segment.opIndexes

/-- A Raft log as `Log` keeps it. -/
structure WellFormed (log : Log P) : Prop where
  /-- The reader's segments are in increasing sequence-number order. -/
  sorted : log.reader.segments.Pairwise (·.sequenceNumber < ·.sequenceNumber)
  /-- All but the last are closed, with a footer that records their op indexes; the last is the
  active segment. -/
  segments_eq : ∃ closed active, log.reader.segments = closed ++ [active] ∧ active.footer = none ∧
    ∀ segment ∈ closed, ∃ footer, segment.footer = some footer ∧ footer.Records segment.opIndexes
  /-- Op indexes are positive: `AddEntry` checks it. -/
  pos : ∀ x ∈ log.opIndexes, 0 < x
  /-- An op comes right after the one written before it, or, after a leader change, overwrites
  from a lower index. -/
  chain : log.opIndexes.IsChain fun a b => b ≤ a + 1
  /-- An overwrite never reaches below the log's first op. -/
  first_le : ∀ a ∈ log.opIndexes.head?, ∀ x ∈ log.opIndexes, a ≤ x
  /-- The index names the latest segment that holds an op. -/
  latest : ∀ j e, log.logIndex.getEntry j = some (.ok e) → ∀ segment ∈ log.reader.segments,
    j ∈ segment.opIndexes → segment.sequenceNumber ≤ e.segmentSequenceNumber

namespace WellFormed

variable {log : Log P} (hwf : log.WellFormed)
include hwf

theorem records {segment : Segment P} (hs : segment ∈ log.reader.segments)
    {footer : LogSegmentFooterPB} (hf : segment.footer = some footer) :
    footer.Records segment.opIndexes := by
  obtain ⟨closed, active, hsegs, hactive, hclosed⟩ := hwf.segments_eq
  rw [hsegs] at hs
  rcases List.mem_append.mp hs with hs | hs
  · obtain ⟨footer', hf', hrec⟩ := hclosed segment hs
    rw [hf] at hf'
    cases hf'
    exact hrec
  · rw [List.mem_singleton.mp hs, hactive] at hf
    cases hf

theorem min_pos : ∀ segment ∈ log.reader.segments, ∀ m,
    segment.footer.bind (·.minReplicateIndex) = some m → 0 < m := by
  intro segment hs m hm
  cases hf : segment.footer with
  | none => simp [hf] at hm
  | some footer =>
    rw [hf, Option.bind_some] at hm
    exact hwf.pos m (List.mem_flatMap.mpr ⟨segment, hs, (hwf.records hs hf).mem_of_min hm⟩)

/-- An op that the reader finds through its index entry is in the segment at the entry's
sequence number's distance from the first, and the sequence numbers up to it are consecutive:
a debug build checks the segment's sequence number, and in a release build a later segment
holding the op would contradict the index naming the latest one. -/
theorem found {ndebug : Bool} {j : Int} {e : LogIndexEntry}
    (he : log.logIndex.getEntry j = some (.ok e))
    (hholds : log.reader.Holds ndebug e.segmentSequenceNumber e.offsetInSegment j) :
    ∃ (p : Nat) (hp : p < log.reader.segments.length),
      log.reader.getSegmentBySequenceNumber ndebug e.segmentSequenceNumber =
        some (some log.reader.segments[p]) ∧
      log.reader.segments[p].sequenceNumber = e.segmentSequenceNumber ∧
      j ∈ log.reader.segments[p].opIndexes ∧
      ∀ (k : Nat) (hk : k ≤ p), log.reader.segments[k].sequenceNumber =
        log.reader.segments[0].sequenceNumber + k := by
  obtain ⟨segment, batch, hlookup, hbatch, hj⟩ := hholds
  obtain ⟨p, hp, first, hfirst, hrel, hget, -⟩ :=
    LogReader.getSegmentBySequenceNumber_eq_some hlookup
  have hfirst0 : log.reader.segments[0] = first := by
    obtain ⟨rest, hrest⟩ := List.head?_eq_some_iff.mp hfirst
    simp only [hrest, List.getElem_cons_zero]
  have hjseg : j ∈ segment.opIndexes := Segment.mem_opIndexes_of_lookup hbatch hj
  have hlatest := hwf.latest j e he segment (hget ▸ List.getElem_mem hp) hjseg
  have hrise := add_le_key_of_pairwise_lt hwf.sorted 0 p (by omega) hp (Nat.zero_le p)
  rw [hfirst0, hget] at hrise
  have hseq : segment.sequenceNumber = e.segmentSequenceNumber := by
    simp only [Nat.sub_zero] at hrise
    omega
  refine ⟨p, hp, by rw [hget]; exact hlookup, hget ▸ hseq, hget ▸ hjseg, ?_⟩
  refine key_eq_of_pairwise_lt hwf.sorted hp ?_
  rw [hget, hseq, hfirst0]
  omega

theorem length_le_of_mem_opIndexes {env : GcEnv} {minOpIdx j : Int} {p : Nat}
    (hp : p < log.reader.segments.length) (hj : j ∈ log.reader.segments[p].opIndexes)
    (hjmin : minOpIdx ≤ j) : (getSegmentsToGCUnlocked env log.reader minOpIdx).length ≤ p := by
  by_contra hlt
  push Not at hlt
  have hmem : log.reader.segments[p] ∈ getSegmentsToGCUnlocked env log.reader minOpIdx := by
    rw [getSegmentsToGCUnlocked_eq_take]
    exact List.mem_take_iff_getElem.mpr ⟨p, by omega, rfl⟩
  obtain ⟨footer, hf, hmax⟩ := footer_of_mem_getSegmentsToGCUnlocked hmem
  have := (hwf.records (List.getElem_mem hp) hf).le_max hj
  omega

/-- The segments to delete are closed, so they are the first of the closed ones, and their ops
are below `min_op_idx`. -/
theorem gc_split (env : GcEnv) (minOpIdx : Int) :
    ∃ closed active, log.reader.segments = closed ++ [active] ∧ active.footer = none ∧
      (∀ segment ∈ closed, ∃ footer, segment.footer = some footer ∧
        footer.Records segment.opIndexes) ∧
      (getSegmentsToGCUnlocked env log.reader minOpIdx).length ≤ closed.length ∧
      ∀ x ∈ (closed.take (getSegmentsToGCUnlocked env log.reader minOpIdx).length).flatMap
        Segment.opIndexes, x < minOpIdx := by
  obtain ⟨closed, active, hsegs, hactive, hclosed⟩ := hwf.segments_eq
  have htake : getSegmentsToGCUnlocked env log.reader minOpIdx = log.reader.segments.take
      (getSegmentsToGCUnlocked env log.reader minOpIdx).length :=
    getSegmentsToGCUnlocked_eq_take log.reader
  set d := (getSegmentsToGCUnlocked env log.reader minOpIdx).length
  have hd : d ≤ closed.length := by
    by_contra hlt
    push Not at hlt
    -- the active segment would be among those to delete, but it has no footer
    have hmem : active ∈ getSegmentsToGCUnlocked env log.reader minOpIdx := by
      rw [htake, hsegs]
      exact List.mem_take_iff_getElem.mpr ⟨closed.length, by simp; omega, by simp⟩
    obtain ⟨footer, hf, -⟩ := footer_of_mem_getSegmentsToGCUnlocked hmem
    rw [hactive] at hf
    cases hf
  refine ⟨closed, active, hsegs, hactive, hclosed, hd, fun x hx => ?_⟩
  obtain ⟨segment, hs, hxs⟩ := List.mem_flatMap.mp hx
  have hmem : segment ∈ getSegmentsToGCUnlocked env log.reader minOpIdx := by
    rw [htake, hsegs, List.take_append_of_le_length hd]
    exact hs
  obtain ⟨footer, hf, hmax⟩ := footer_of_mem_getSegmentsToGCUnlocked hmem
  have := (hwf.records ((getSegmentsToGCUnlocked_isPrefix log.reader).trans
    (List.takeWhile_prefix _) |>.subset hmem) hf).le_max hxs
  omega

/-- The least op index of the closed segments left is at most every op from `min_op_idx` on:
the op written after the deleted segments' last one is at most one above it, which is below
`min_op_idx`, and with nothing deleted it is the log's first op, above which no overwrite
reaches. -/
theorem getMinReplicateIndex_remaining_le {env : GcEnv} {minOpIdx j : Int}
    (hj : j ∈ log.opIndexes) (hjmin : minOpIdx ≤ j)
    (hpos : 0 < (remaining env log.reader minOpIdx).getMinReplicateIndex) :
    (remaining env log.reader minOpIdx).getMinReplicateIndex ≤ j := by
  obtain ⟨closed, active, hsegs, hactive, hclosed, hd, hdel⟩ := hwf.gc_split env minOpIdx
  set d := (getSegmentsToGCUnlocked env log.reader minOpIdx).length
  have hrem : (remaining env log.reader minOpIdx).segments = closed.drop d ++ [active] := by
    simp only [remaining, hsegs, List.drop_append_of_le_length hd, d]
  have hremPos := fun segment (hs : segment ∈ (remaining env log.reader minOpIdx).segments) =>
    hwf.min_pos segment (List.mem_of_mem_drop hs)
  -- some closed segment left sets a minimum, so the closed segments left hold an op
  have hne : (remaining env log.reader minOpIdx).getMinReplicateIndex ≠ -1 := by omega
  obtain ⟨segment, hs, m, hm⟩ := LogReader.exists_min_of_getMinReplicateIndex_ne hne
  have hsClosed : segment ∈ closed.drop d := by
    rw [hrem] at hs
    rcases List.mem_append.mp hs with hs | hs
    · exact hs
    · rw [List.mem_singleton.mp hs, hactive] at hm
      cases hm
  obtain ⟨footer, hf, hrec⟩ := hclosed segment (List.mem_of_mem_drop hsClosed)
  rw [hf, Option.bind_some] at hm
  obtain ⟨y, hy⟩ : ∃ y, ((closed.drop d).flatMap Segment.opIndexes).head? = some y :=
    Option.isSome_iff_exists.mp (List.isSome_head?.mpr
      (List.ne_nil_of_mem (List.mem_flatMap.mpr ⟨segment, hsClosed, hrec.mem_of_min hm⟩)))
  -- that first op is at most `j`
  have hops : log.opIndexes = (closed.take d).flatMap Segment.opIndexes ++
      ((closed.drop d).flatMap Segment.opIndexes ++ active.opIndexes) := by
    rw [opIndexes, hsegs]
    conv_lhs => rw [← List.take_append_drop d closed]
    simp only [List.flatMap_append, List.flatMap_singleton, List.append_assoc]
  have hyj : y ≤ j := by
    have hhead : ((closed.drop d).flatMap Segment.opIndexes ++ active.opIndexes).head? = some y := by
      rw [List.head?_append, hy, Option.some_or]
    cases hA : ((closed.take d).flatMap Segment.opIndexes).getLast? with
    | none =>
      rw [List.getLast?_eq_none_iff] at hA
      refine hwf.first_le y ?_ j hj
      rw [hops, hA, List.nil_append, hhead]
      exact Option.mem_some_self y
    | some x =>
      have hchain := (List.isChain_append.mp (hops ▸ hwf.chain)).2.2 x hA y hhead
      have hx := hdel x (List.mem_of_getLast? hA)
      omega
  -- and the least minimum left is at most it
  obtain ⟨segment', hs', hys'⟩ := List.mem_flatMap.mp (List.mem_of_mem_head? hy)
  obtain ⟨footer', hf', hrec'⟩ := hclosed segment' (List.mem_of_mem_drop hs')
  obtain ⟨m', hm', hm'y⟩ := hrec'.min_le hys'
  have hle := LogReader.getMinReplicateIndex_le hremPos
    (show segment' ∈ (remaining env log.reader minOpIdx).segments by
      rw [hrem]; exact List.mem_append_left _ hs')
    (by rw [hf', Option.bind_some, hm'])
  omega

/-- After `GC(min_op_idx)` the reader and the index answer as before for every op from
`min_op_idx` on that the log held. -/
theorem retains_gc {env : GcEnv} {minOpIdx : Int} (hmin : 0 ≤ minOpIdx) (ndebug : Bool)
    {status : Status} {numGced : Nat} {log' : Log P}
    (hgc : log.gc env minOpIdx = some (status, numGced, log')) :
    LogReader.Retains ndebug minOpIdx log.reader log'.reader log.logIndex log'.logIndex := by
  obtain ⟨status', numGced', logIndex', heq, hindex⟩ := @gc_eq P env minOpIdx log hwf.sorted hmin
  rw [heq] at hgc
  simp only [Option.some.injEq, Prod.mk.injEq] at hgc
  obtain ⟨-, -, rfl⟩ := hgc
  refine ⟨fun j e hj he hholds => ?_, fun j e hj he hholds => ?_⟩
  · rcases hindex with rfl | ⟨hpos, rfl⟩
    · exact he
    · obtain ⟨p, hp, -, -, hjp, -⟩ := hwf.found he hholds
      have hjlog : j ∈ log.opIndexes := List.mem_flatMap.mpr ⟨_, List.getElem_mem hp, hjp⟩
      rw [LogIndex.getEntry_gc_of_le hpos
        (hwf.getMinReplicateIndex_remaining_le hjlog hj hpos)]
      exact he
  · obtain ⟨p, hp, hlookup, hseq, hjp, hconsec⟩ := hwf.found he hholds
    have hdp : (getSegmentsToGCUnlocked env log.reader minOpIdx).length ≤ p :=
      hwf.length_le_of_mem_opIndexes hp hjp hj
    rw [hlookup, ← hseq]
    exact LogReader.getSegmentBySequenceNumber_drop ndebug hp hdp hconsec

end WellFormed

end Gc

end Log

/-- `Log::GC(min_op_idx)` on a Raft log returns; it deletes a prefix of the segments, each closed
with a footer whose greatest op index is below `min_op_idx`, and never the active one; it leaves
`FLAGS_log_min_segments_to_retain` segments or all of them; and every op from `min_op_idx` on that
`ReadReplicatesInRange` read before, it reads after, with the same `REPLICATE`. -/
theorem gc_keeps_ops_from_min_op_idx {env : GcEnv} {log : Log P} (hwf : log.WellFormed)
    {minOpIdx : Int} (hmin : 0 ≤ minOpIdx) :
    ∃ status numGced log', log.gc env minOpIdx = some (status, numGced, log') ∧
      (∃ d, d < log.reader.segments.length ∧ log'.reader.segments = log.reader.segments.drop d ∧
        ∀ segment ∈ log.reader.segments.take d, ∃ footer, segment.footer = some footer ∧
          footer.maxReplicateIndex < minOpIdx) ∧
      min (log.reader.segments.length : Int) env.logMinSegmentsToRetain ≤
        log'.reader.segments.length ∧
      ∀ (ndebug : Bool) (prevIndexEntry : LogIndexEntry) (i maxBytesToRead : Int)
        (m : ReplicateMsg P), minOpIdx ≤ i → m.id.index = i →
        LogReader.readReplicatesInRange ndebug log.reader log.logIndex prevIndexEntry i i
          maxBytesToRead = some (.ok [m]) →
        LogReader.readReplicatesInRange ndebug log'.reader log'.logIndex prevIndexEntry i i
          maxBytesToRead = some (.ok [m]) := by
  obtain ⟨status, numGced, logIndex', hgc, -⟩ := @Log.gc_eq P env minOpIdx log hwf.sorted hmin
  obtain ⟨closed, active, hsegs, -, -, hd, -⟩ := hwf.gc_split env minOpIdx
  set d := (Log.getSegmentsToGCUnlocked env log.reader minOpIdx).length with hd_def
  refine ⟨status, numGced, _, hgc, ⟨d, ?_, rfl, fun segment hs => ?_⟩, ?_, ?_⟩
  · rw [hsegs, List.length_append, List.length_singleton]
    omega
  · rw [← Log.getSegmentsToGCUnlocked_eq_take] at hs
    exact Log.footer_of_mem_getSegmentsToGCUnlocked hs
  · have hle : (d : Int) ≤ max ((log.reader.segments.length : Int) - env.logMinSegmentsToRetain) 0 :=
      Log.length_getSegmentsToGCUnlocked_le log.reader
    simp only [Log.remaining, List.length_drop]
    omega
  · intro ndebug prevIndexEntry i maxBytesToRead m hi hmi hread
    have hbmod := LogReader.bmod_eq_of_read (by omega) hread (List.mem_singleton_self m) hmi
    exact LogReader.readReplicatesInRange_of_retains (hwf.retains_gc hmin ndebug hgc)
      (by rw [hbmod]; exact hi) hread

/-- A log of three segments with ops 5, 6 and 7, one in each, the first two closed; each op's
batch is at offset 20 of its segment. -/
def threeSegments : Log Unit where
  reader := ⟨[⟨1, some ⟨some 5, 5, none⟩, [(20, [⟨some ⟨⟨1, 5⟩, 10, ()⟩⟩])]⟩,
    ⟨2, some ⟨some 6, 6, none⟩, [(20, [⟨some ⟨⟨1, 6⟩, 10, ()⟩⟩])]⟩,
    ⟨3, none, [(20, [⟨some ⟨⟨1, 7⟩, 10, ()⟩⟩])]⟩]⟩
  logIndex := ⟨[0], fun j => if j = 5 ∨ j = 6 ∨ j = 7 then ⟨1, j - 4, 20⟩ else {}⟩

theorem threeSegments_wellFormed : threeSegments.WellFormed where
  sorted := by decide
  segments_eq := by
    refine ⟨threeSegments.reader.segments.dropLast, ⟨3, none, [(20, [⟨some ⟨⟨1, 7⟩, 10, ()⟩⟩])]⟩,
      by decide, rfl, fun segment hs => ?_⟩
    simp only [threeSegments, List.dropLast, List.mem_cons, List.not_mem_nil, or_false] at hs
    rcases hs with rfl | rfl <;> exact ⟨_, rfl, by unfold LogSegmentFooterPB.Records; decide⟩
  pos := by decide
  chain := by decide
  first_le := by decide
  latest := by
    intro j e he segment hs hj
    obtain ⟨hoff, rfl⟩ := LogIndex.getEntry_eq_ok he
    simp only [threeSegments] at hoff hs hj ⊢
    split_ifs at hoff ⊢ with hj'
    · rcases hj' with rfl | rfl | rfl <;> revert segment <;> decide
    · exact absurd rfl hoff

theorem gc_keeps_ops_from_min_op_idx_three_segments :
    threeSegments.WellFormed ∧ (0 : Int) ≤ 6 ∧
    ∃ status numGced log',
      threeSegments.gc ⟨1, 0, 0, fun _ => Status.OK, fun _ => true⟩ 6 =
        some (status, numGced, log') ∧
      (∃ d, d < threeSegments.reader.segments.length ∧
        log'.reader.segments = threeSegments.reader.segments.drop d ∧
        ∀ segment ∈ threeSegments.reader.segments.take d, ∃ footer,
          segment.footer = some footer ∧ footer.maxReplicateIndex < 6) ∧
      min (threeSegments.reader.segments.length : Int) 1 ≤ log'.reader.segments.length ∧
      ∀ (ndebug : Bool) (prevIndexEntry : LogIndexEntry) (i maxBytesToRead : Int)
        (m : ReplicateMsg Unit), 6 ≤ i → m.id.index = i →
        LogReader.readReplicatesInRange ndebug threeSegments.reader threeSegments.logIndex
          prevIndexEntry i i maxBytesToRead = some (.ok [m]) →
        LogReader.readReplicatesInRange ndebug log'.reader log'.logIndex prevIndexEntry i i
          maxBytesToRead = some (.ok [m]) :=
  ⟨threeSegments_wellFormed, by decide,
    gc_keeps_ops_from_min_op_idx threeSegments_wellFormed (by decide)⟩

end FrescoDB.Log
