import FrescoDB.Common.Partition

/-! The partition lookup of a client table (`client/table.cc`). `YBTable::FindPartitionStart`
runs `lower_bound` over the table's sorted partition starts and steps back unless it stopped at
the key itself: that is the start of the partition the key lies in. Over the partitions that
`CreatePartitions` builds, every partition key lies in exactly one partition, and the lookup finds
it, or the first partition of its group. -/
namespace FrescoDB.Client

open FrescoDB.Lib FrescoDB.Common

/-- `YBTable::FindPartitionStart`. `--it` at `begin()` is excluded by a `DCHECK`, and the
subtraction stops at `0` there. -/
def findPartitionStart (partitions : List (List UInt8)) (partitionKey : List UInt8)
    (groupBy : Nat) : List UInt8 :=
  let it := lowerBound partitions partitionKey
  let it :=
    if it = partitions.length ∨ compare partitionKey (partitions.getD it []) = .lt then it - 1
    else it
  if groupBy ≤ 1 then partitions.getD it []
  else partitions.getD (it / groupBy * groupBy) []

/-- Over sorted starts, the lookup of a key in piece `i` returns start `i`, or the first start of
the group of `group_by` that holds `i`. -/
theorem findPartitionStart_of_inPiece {partitions : List (List UInt8)}
    (hs : partitions.Pairwise fun a b => compare a b = .lt) {partitionKey : List UInt8} {i : Nat}
    (hin : InPiece partitions partitionKey i) (groupBy : Nat) :
    findPartitionStart partitions partitionKey groupBy =
      partitions.getD (if groupBy ≤ 1 then i else i / groupBy * groupBy) [] := by
  obtain ⟨hi, hcut, hnext⟩ := hin
  -- after the step back, the iterator is at `i`
  have hit : (if lowerBound partitions partitionKey = partitions.length ∨
        compare partitionKey (partitions.getD (lowerBound partitions partitionKey) []) = .lt
      then lowerBound partitions partitionKey - 1 else lowerBound partitions partitionKey) = i := by
    obtain ⟨-, ⟨-, hlb⟩ | ⟨-, hlb⟩⟩ := lowerBound_of_inPiece hs ⟨hi, hcut, hnext⟩
    · -- past cut `i`: at the end, or at the next cut, which is above the key
      rw [hlb, if_pos]
      · rfl
      · by_cases hlast : i + 1 = partitions.length
        · exact .inl hlast
        · have hnext' : i + 1 < partitions.length := by omega
          rw [List.getD_eq_getElem _ _ hnext']
          exact .inr (hnext hnext')
    · -- at cut `i`, which is not above the key
      rw [hlb, if_neg]
      rintro (hend | hlt)
      · omega
      · rw [List.getD_eq_getElem _ _ hi] at hlt
        exact hcut (Std.OrientedCmp.gt_iff_lt.mpr hlt)
  simp only [findPartitionStart, hit]
  split <;> rfl

/-- `CreatePartitions` on a valid request tiles the partition-key space with `num_tablets`
partitions in order, and `FindPartitionStart` over their starts finds the partition of a key, or
the first of its group. -/
theorem createPartitions_findPartitionStart {numTablets maxPartitionKey : Int}
    (hmax : 0 < maxPartitionKey ∧ maxPartitionKey ≤ kMaxPartitionKey)
    (hnum : 1 ≤ numTablets ∧ numTablets ≤ maxPartitionKey) :
    ∃ parts : List Partition, createPartitions numTablets maxPartitionKey = .ok parts ∧
      parts.length = numTablets.toNat ∧
      (∃ h : 0 < parts.length,
        parts[0].partitionKeyStart = [] ∧ parts[parts.length - 1].partitionKeyEnd = []) ∧
      (∀ i (h : i + 1 < parts.length), parts[i].partitionKeyEnd = parts[i + 1].partitionKeyStart) ∧
      (∀ i j (hi : 0 < i) (hij : i < j) (hj : j < parts.length),
        decodeMultiColumnHashValue parts[i].partitionKeyStart <
          decodeMultiColumnHashValue parts[j].partitionKeyStart) ∧
      ∀ partitionKey : List UInt8, ∃ i, ∃ hi : i < parts.length,
        parts[i].containsKey partitionKey = true ∧
        (∀ j (hj : j < parts.length), parts[j].containsKey partitionKey = true → j = i) ∧
        findPartitionStart (parts.map (·.partitionKeyStart)) partitionKey 1 =
          parts[i].partitionKeyStart ∧
        ∀ groupBy, 0 < groupBy → ∃ hg : i / groupBy * groupBy < parts.length,
          findPartitionStart (parts.map (·.partitionKeyStart)) partitionKey groupBy =
            parts[i / groupBy * groupBy].partitionKeyStart := by
  unfold kMaxPartitionKey at hmax
  set n := numTablets.toNat with hn
  set interval := (maxPartitionKey / numTablets).toNat with hiv
  -- the width is at least one hash value, and the last end is still a hash value
  have hinterval : 1 ≤ interval := by
    have h := (Int.le_ediv_iff_mul_le (by omega : 0 < numTablets)).mpr
      (by omega : 1 * numTablets ≤ maxPartitionKey)
    omega
  have hfit : n * interval < 2 ^ 16 := by
    have hle := Int.ediv_mul_le maxPartitionKey (by omega : numTablets ≠ 0)
    have hnonneg := Int.ediv_nonneg (by omega : 0 ≤ maxPartitionKey) (by omega : 0 ≤ numTablets)
    have hcast : ((n * interval : Nat) : Int) = maxPartitionKey / numTablets * numTablets := by
      rw [Nat.cast_mul, hn, hiv, Int.toNat_of_nonneg (by omega), Int.toNat_of_nonneg hnonneg,
        Int.mul_comm]
    omega
  have hparts : ∀ i (h : i < ((List.range n).map (partitionAt n interval)).length),
      ((List.range n).map (partitionAt n interval))[i] = partitionAt n interval i := by
    intro i h
    simp
  have hlen : ((List.range n).map (partitionAt n interval)).length = n := by simp
  refine ⟨(List.range n).map (partitionAt n interval), createPartitions_eq hmax (by omega), hlen,
    ⟨by omega, by simp [hparts], by simp [hparts, hlen]⟩, fun i h => ?_, fun i j hi0 hij hj => ?_,
    fun partitionKey => ?_⟩
  · rw [hparts, hparts]
    exact partitionAt_end_eq_start (by omega)
  · rw [hparts, hparts, UInt16.lt_iff_toNat_lt,
      decodeMultiColumnHashValue_partitionAt_start hfit hi0 (by omega),
      decodeMultiColumnHashValue_partitionAt_start hfit (by omega) (by omega)]
    exact Nat.mul_lt_mul_of_pos_right hij hinterval
  · -- the key lies in the piece of the last start at or below it
    have hs := partitionStarts_sorted hinterval hfit
    have hstarts : ((List.range n).map (partitionAt n interval)).map (·.partitionKeyStart) =
        partitionStarts n interval := rfl
    have hcuts := @length_partitionStarts n interval
    have hfirst : ∃ h : 0 < (partitionStarts n interval).length,
        compare (partitionStarts n interval)[0] partitionKey ≠ .gt := by
      refine ⟨by omega, ?_⟩
      rw [partitionStarts_getElem, if_neg (by simp)]
      exact compare_nil_ne_gt partitionKey
    obtain ⟨i, hin⟩ := exists_inPiece hfirst
    have hi : i < n := hcuts ▸ hin.1
    have hfind := findPartitionStart_of_inPiece hs hin
    refine ⟨i, by omega, ?_, fun j hj hcontains => ?_, ?_, fun groupBy hg => ⟨?_, ?_⟩⟩
    · rw [hparts]
      exact (containsKey_partitionAt_iff hi partitionKey).mpr hin
    · rw [hparts] at hcontains
      exact inPiece_unique hs ((containsKey_partitionAt_iff (by omega) partitionKey).mp hcontains)
        hin
    · rw [hstarts, hfind, if_pos le_rfl, List.getD_eq_getElem _ _ (by omega)]
      simp [partitionStarts]
    · have := Nat.div_mul_le_self i groupBy
      omega
    · have hgroup : (if groupBy ≤ 1 then i else i / groupBy * groupBy) = i / groupBy * groupBy := by
        split
        · rw [show groupBy = 1 by omega, Nat.div_one, Nat.mul_one]
        · rfl
      have := Nat.div_mul_le_self i groupBy
      rw [hstarts, hfind, hgroup, List.getD_eq_getElem _ _ (by omega)]
      simp [partitionStarts]

theorem createPartitions_findPartitionStart_three :
    (0 < (65535 : Int) ∧ (65535 : Int) ≤ kMaxPartitionKey) ∧ (1 ≤ (3 : Int) ∧ (3 : Int) ≤ 65535) ∧
    ∃ parts : List Partition, createPartitions 3 65535 = .ok parts ∧
      parts.length = (3 : Int).toNat ∧
      (∃ h : 0 < parts.length,
        parts[0].partitionKeyStart = [] ∧ parts[parts.length - 1].partitionKeyEnd = []) ∧
      (∀ i (h : i + 1 < parts.length), parts[i].partitionKeyEnd = parts[i + 1].partitionKeyStart) ∧
      (∀ i j (hi : 0 < i) (hij : i < j) (hj : j < parts.length),
        decodeMultiColumnHashValue parts[i].partitionKeyStart <
          decodeMultiColumnHashValue parts[j].partitionKeyStart) ∧
      ∀ partitionKey : List UInt8, ∃ i, ∃ hi : i < parts.length,
        parts[i].containsKey partitionKey = true ∧
        (∀ j (hj : j < parts.length), parts[j].containsKey partitionKey = true → j = i) ∧
        findPartitionStart (parts.map (·.partitionKeyStart)) partitionKey 1 =
          parts[i].partitionKeyStart ∧
        ∀ groupBy, 0 < groupBy → ∃ hg : i / groupBy * groupBy < parts.length,
          findPartitionStart (parts.map (·.partitionKeyStart)) partitionKey groupBy =
            parts[i / groupBy * groupBy].partitionKeyStart :=
  ⟨⟨by decide, by decide⟩, ⟨by decide, by decide⟩,
    createPartitions_findPartitionStart ⟨by decide, by decide⟩ ⟨by decide, by decide⟩⟩

end FrescoDB.Client
