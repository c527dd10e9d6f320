import FrescoDB.Util.Status
import FrescoDB.Lib.Nibble
import FrescoDB.Lib.SortedCuts

/-! Hash partitions of a table (`common/partition.{h,cc}`). `CreatePartitions` cuts the 16-bit
hash space into `num_tablets` ranges of one width; a range's bounds are the two big-endian bytes of
a hash value, the first start and the last end are empty, that is open. The partition keys of
the bounds sort as the hash values do, so the partition starts are a sorted list of cuts, each
partition is the piece of one cut, and every partition key lies in exactly one partition. -/
namespace FrescoDB.Common

open FrescoDB.Util FrescoDB.Lib

/-- `kPartitionKeySize`. -/
def kPartitionKeySize : Nat := 2

/-- `kMaxPartitionKey`: `std::numeric_limits<uint16_t>::max()`. -/
def kMaxPartitionKey : Int := 65535

/-- `EncodeMultiColumnHashValue`: the hash value as two big-endian bytes. -/
def encodeMultiColumnHashValue (hashValue : UInt16) : List UInt8 :=
  [(hashValue >>> 8).toUInt8, (hashValue &&& 0xff).toUInt8]

/-- `DecodeMultiColumnHashValue`. -/
def decodeMultiColumnHashValue (partitionKey : List UInt8) : UInt16 :=
  ((partitionKey.getD 0 0).toUInt16 <<< 8) ||| (partitionKey.getD 1 0).toUInt16

/-- The partition-key bounds of a `Partition`; an empty bound is open. -/
structure Partition where
  partitionKeyStart : List UInt8 := []
  partitionKeyEnd : List UInt8 := []
  deriving DecidableEq, Repr

/-- `Partition::ContainsKey`: at or above the start, and below the end unless it is empty. -/
def Partition.containsKey (p : Partition) (partitionKey : List UInt8) : Bool :=
  compare partitionKey p.partitionKeyStart != .lt &&
    (p.partitionKeyEnd.isEmpty || compare partitionKey p.partitionKeyEnd == .lt)

/-- One pass of the loop of `CreatePartitions`: partition `partitionIndex` starts where the one
before ended and ends at `(partition_index + 1) * partition_interval`, narrowed to `uint16_t`. The
source resizes the vector first and fills it in index order, which appends. -/
def createPartitionsStep (numTablets : Nat) (partitionInterval : UInt16)
    (acc : List Partition × UInt16) (partitionIndex : Nat) : List Partition × UInt16 :=
  let pstart := acc.2
  let pend := UInt16.ofNat ((partitionIndex + 1) * partitionInterval.toNat)
  let partition : Partition :=
    { partitionKeyStart := if partitionIndex ≠ 0 then encodeMultiColumnHashValue pstart else []
      partitionKeyEnd :=
        if partitionIndex < numTablets - 1 then encodeMultiColumnHashValue pend else [] }
  (acc.1 ++ [partition], pend)

/-- `PartitionSchema::CreatePartitions(int32_t, vector<Partition>*, int32_t)`. -/
def createPartitions (numTablets maxPartitionKey : Int) : Except Status (List Partition) :=
  if maxPartitionKey ≤ 0 ∨ maxPartitionKey > kMaxPartitionKey then
    -- the format asks for `$2` of two arguments: `Substitute` finds it invalid and returns the
    -- empty string
    .error ⟨.kInvalidArgument, ""⟩
  else if numTablets ≤ 0 then
    .error ⟨.kInvalidArgument, "num_tablets should be greater than 0. Client would need to wait " ++
      "for master leader get heartbeats from tserver."⟩
  else
    let partitionInterval := UInt16.ofInt (maxPartitionKey.tdiv numTablets)
    .ok ((List.range numTablets.toNat).foldl
      (createPartitionsStep numTablets.toNat partitionInterval) ([], 0)).1

/-! The partitions `CreatePartitions` builds. -/

/-- Partition `i` of `numTablets` partitions of width `interval`. -/
def partitionAt (numTablets interval i : Nat) : Partition :=
  { partitionKeyStart :=
      if i ≠ 0 then encodeMultiColumnHashValue (UInt16.ofNat (i * interval)) else []
    partitionKeyEnd :=
      if i < numTablets - 1 then encodeMultiColumnHashValue (UInt16.ofNat ((i + 1) * interval))
      else [] }

-- Equation lemmas, made once before their uses.
section
attribute [local simp] encodeMultiColumnHashValue partitionAt
end

theorem foldl_createPartitionsStep (numTablets : Nat) (partitionInterval : UInt16) (m : Nat) :
    (List.range m).foldl (createPartitionsStep numTablets partitionInterval) ([], 0) =
      ((List.range m).map (partitionAt numTablets partitionInterval.toNat),
        UInt16.ofNat (m * partitionInterval.toNat)) := by
  induction m with
  | zero => simp
  | succ m ih =>
    rw [List.range_succ, List.foldl_append, ih, List.map_append]
    simp only [List.foldl_cons, List.foldl_nil, createPartitionsStep, partitionAt, List.map_cons,
      List.map_nil]

theorem createPartitions_eq {numTablets maxPartitionKey : Int}
    (hmax : 0 < maxPartitionKey ∧ maxPartitionKey ≤ kMaxPartitionKey) (hnum : 0 < numTablets) :
    createPartitions numTablets maxPartitionKey =
      .ok ((List.range numTablets.toNat).map
        (partitionAt numTablets.toNat (maxPartitionKey / numTablets).toNat)) := by
  have hinterval : (UInt16.ofInt (maxPartitionKey.tdiv numTablets)).toNat =
      (maxPartitionKey / numTablets).toNat := by
    have hdiv : maxPartitionKey.tdiv numTablets = maxPartitionKey / numTablets :=
      Int.tdiv_eq_ediv_of_nonneg hmax.1.le
    have hle : maxPartitionKey / numTablets ≤ maxPartitionKey := Int.ediv_le_self _ hmax.1.le
    have hnonneg : 0 ≤ maxPartitionKey / numTablets := Int.ediv_nonneg hmax.1.le hnum.le
    unfold kMaxPartitionKey at hmax
    simp only [UInt16.ofInt, hdiv, UInt16.toNat_ofNat']
    omega
  have hvalid : ¬ (maxPartitionKey ≤ 0 ∨ maxPartitionKey > kMaxPartitionKey) := by omega
  rw [createPartitions, if_neg hvalid, if_neg (by omega)]
  simp only [foldl_createPartitionsStep, hinterval]

example : createPartitions 2 65535 =
    .ok [{ partitionKeyEnd := [0x7f, 0xff] }, { partitionKeyStart := [0x7f, 0xff] }] := by decide

@[simp] theorem partitionAt_zero_start (numTablets interval : Nat) :
    (partitionAt numTablets interval 0).partitionKeyStart = [] := rfl

@[simp] theorem partitionAt_last_end (numTablets interval : Nat) :
    (partitionAt numTablets interval (numTablets - 1)).partitionKeyEnd = [] := by
  simp [partitionAt]

theorem partitionAt_end_eq_start {numTablets interval i : Nat} (hi : i + 1 < numTablets) :
    (partitionAt numTablets interval i).partitionKeyEnd =
      (partitionAt numTablets interval (i + 1)).partitionKeyStart := by
  simp only [partitionAt, if_pos (show i < numTablets - 1 by omega), ne_eq,
    Nat.add_one_ne_zero, not_false_eq_true, if_true]

/-! Partition keys of hash values. -/

theorem ofBytesBE_encodeMultiColumnHashValue (hashValue : UInt16) :
    ofBytesBE (encodeMultiColumnHashValue hashValue) = hashValue.toNat := by
  have hhi : ((hashValue >>> 8).toUInt8).toNat = hashValue.toNat / 256 := by
    rw [UInt16.toNat_toUInt8, UInt16.toNat_shiftRight]
    have := hashValue.toNat_lt
    simp [Nat.shiftRight_eq_div_pow]
    omega
  have hlo : ((hashValue &&& 0xff).toUInt8).toNat = hashValue.toNat % 256 := by
    rw [UInt16.toNat_toUInt8, UInt16.toNat_and]
    have := Nat.and_two_pow_sub_one_eq_mod hashValue.toNat 8
    simp at this ⊢
    omega
  simp only [encodeMultiColumnHashValue, ofBytesBE, List.length_cons, List.length_nil, hhi, hlo,
    pow_zero, zero_add, pow_one]
  omega

theorem decodeMultiColumnHashValue_encodeMultiColumnHashValue (hashValue : UInt16) :
    decodeMultiColumnHashValue (encodeMultiColumnHashValue hashValue) = hashValue := by
  have hval := ofBytesBE_encodeMultiColumnHashValue hashValue
  simp only [encodeMultiColumnHashValue, ofBytesBE, List.length_cons, List.length_nil, pow_zero,
    zero_add, pow_one] at hval
  apply UInt16.toNat_inj.mp
  simp only [decodeMultiColumnHashValue, encodeMultiColumnHashValue, List.getD_cons_zero,
    List.getD_cons_succ]
  rw [UInt16.toNat_or, UInt16.toNat_shiftLeft, UInt8.toNat_toUInt16, UInt8.toNat_toUInt16]
  have hhi := ((hashValue >>> 8).toUInt8).toNat_lt
  have hlo := ((hashValue &&& 0xff).toUInt8).toNat_lt
  have hshift : (8 : UInt16).toNat % 16 = 8 := rfl
  -- the high byte shifted up leaves the low byte's bits clear, so the `|` is a sum
  have hor : ((hashValue >>> 8).toUInt8).toNat * 2 ^ 8 ||| ((hashValue &&& 0xff).toUInt8).toNat =
      ((hashValue >>> 8).toUInt8).toNat * 2 ^ 8 + ((hashValue &&& 0xff).toUInt8).toNat := by
    rw [Nat.mul_comm, Nat.two_pow_add_eq_or_of_lt hlo]
  rw [hshift, Nat.shiftLeft_eq, Nat.mod_eq_of_lt (by omega), hor]
  omega

theorem compare_encodeMultiColumnHashValue (a b : UInt16) :
    compare (encodeMultiColumnHashValue a) (encodeMultiColumnHashValue b) =
      compare a.toNat b.toNat := by
  rw [compare_eq_compare_ofBytesBE (by simp [encodeMultiColumnHashValue]),
    ofBytesBE_encodeMultiColumnHashValue,
    ofBytesBE_encodeMultiColumnHashValue]

theorem compare_nil_encodeMultiColumnHashValue (a : UInt16) :
    compare [] (encodeMultiColumnHashValue a) = .lt := rfl

/-! The tiling. Throughout, `numTablets` partitions of width `interval ≥ 1` whose last end,
`numTablets * interval`, is a hash value. -/

section Tiling

variable {numTablets interval : Nat}

/-- The partition starts: the empty key, then the first hash value of each later partition. -/
def partitionStarts (numTablets interval : Nat) : List (List UInt8) :=
  ((List.range numTablets).map (partitionAt numTablets interval)).map (·.partitionKeyStart)

theorem length_partitionStarts : (partitionStarts numTablets interval).length = numTablets := by
  simp [partitionStarts]

theorem partitionStarts_getElem {i : Nat} (hi : i < (partitionStarts numTablets interval).length) :
    (partitionStarts numTablets interval)[i] =
      if i ≠ 0 then encodeMultiColumnHashValue (UInt16.ofNat (i * interval)) else [] := by
  simp [partitionStarts, partitionAt]

theorem toNat_ofNat_mul {i : Nat} (hfit : numTablets * interval < 2 ^ 16) (hi : i ≤ numTablets) :
    (UInt16.ofNat (i * interval)).toNat = i * interval := by
  rw [UInt16.toNat_ofNat']
  exact Nat.mod_eq_of_lt (lt_of_le_of_lt (Nat.mul_le_mul_right _ hi) hfit)

theorem decodeMultiColumnHashValue_partitionAt_start (hfit : numTablets * interval < 2 ^ 16)
    {i : Nat} (hi0 : 0 < i) (hi : i ≤ numTablets) :
    (decodeMultiColumnHashValue (partitionAt numTablets interval i).partitionKeyStart).toNat =
      i * interval := by
  simp only [partitionAt, if_pos (Nat.pos_iff_ne_zero.mp hi0),
    decodeMultiColumnHashValue_encodeMultiColumnHashValue]
  exact toNat_ofNat_mul hfit hi

theorem containsKey_partitionAt_iff {i : Nat} (hi : i < numTablets) (key : List UInt8) :
    (partitionAt numTablets interval i).containsKey key = true ↔
      InPiece (partitionStarts numTablets interval) key i := by
  have hlen : i < (partitionStarts numTablets interval).length := by
    rw [length_partitionStarts]
    exact hi
  have hstart : (partitionStarts numTablets interval)[i] =
      (partitionAt numTablets interval i).partitionKeyStart := by
    simp [partitionStarts]
  -- the end of partition `i` is the start of the next one, and open after the last
  have hend : ∀ hnext : i + 1 < (partitionStarts numTablets interval).length,
      (partitionAt numTablets interval i).partitionKeyEnd =
        (partitionStarts numTablets interval)[i + 1] := by
    intro hnext
    rw [length_partitionStarts] at hnext
    rw [partitionStarts_getElem, if_pos (by omega)]
    simp only [partitionAt, if_pos (show i < numTablets - 1 by omega)]
  have hlast : ¬ i + 1 < numTablets → (partitionAt numTablets interval i).partitionKeyEnd = [] := by
    intro hnext
    simp only [partitionAt, if_neg (show ¬ i < numTablets - 1 by omega)]
  have hopen : i + 1 < numTablets → (partitionAt numTablets interval i).partitionKeyEnd ≠ [] := by
    intro hnext
    simp [partitionAt, show i < numTablets - 1 by omega, encodeMultiColumnHashValue]
  simp only [Partition.containsKey, Bool.and_eq_true, bne_iff_ne, ne_eq, Bool.or_eq_true,
    List.isEmpty_iff, beq_iff_eq, InPiece, hstart]
  constructor
  · rintro ⟨hfrom, hbelow⟩
    refine ⟨hlen, fun hgt => hfrom (Std.OrientedCmp.gt_iff_lt.mp hgt), fun hnext => ?_⟩
    rcases hbelow with hempty | hlt
    · exact absurd hempty (hopen (by rw [length_partitionStarts] at hnext; exact hnext))
    · rwa [← hend hnext]
  · rintro ⟨_, hfrom, hbelow⟩
    refine ⟨fun hlt => hfrom (Std.OrientedCmp.gt_iff_lt.mpr hlt), ?_⟩
    by_cases hnext : i + 1 < numTablets
    · have hnext' : i + 1 < (partitionStarts numTablets interval).length := by
        rw [length_partitionStarts]
        exact hnext
      exact .inr (by rw [hend hnext']; exact hbelow hnext')
    · exact .inl (hlast hnext)

variable (hinterval : 1 ≤ interval) (hfit : numTablets * interval < 2 ^ 16)
include hinterval hfit

theorem partitionStarts_sorted :
    (partitionStarts numTablets interval).Pairwise fun a b => compare a b = .lt := by
  rw [List.pairwise_iff_getElem]
  intro i j hi hj hij
  have hlen := @length_partitionStarts numTablets interval
  have hstart : (partitionStarts numTablets interval)[j] =
      encodeMultiColumnHashValue (UInt16.ofNat (j * interval)) := by
    rw [partitionStarts_getElem, if_pos (by omega)]
  rw [hstart, partitionStarts_getElem]
  by_cases hi0 : i = 0
  · rw [if_neg (not_not.mpr hi0)]
    exact compare_nil_encodeMultiColumnHashValue _
  · rw [if_pos hi0, compare_encodeMultiColumnHashValue, toNat_ofNat_mul hfit (by omega),
      toNat_ofNat_mul hfit (by omega), Nat.compare_eq_lt]
    exact Nat.mul_lt_mul_of_pos_right hij hinterval

end Tiling

end FrescoDB.Common
