import FrescoDB.Common.HybridTime
import FrescoDB.Util.FastVarint
import FrescoDB.Util.KvUtil
import FrescoDB.Docdb.ValueType

/-! `DocHybridTime` (`common/doc_hybrid_time.{h,cc}`): a hybrid time and a
write id within a transaction. Its key encoding is four descending signed
varints (generation, microseconds since the YugaByte epoch, logical value,
shifted write id) whose last byte carries the encoding's size in its low five
bits, so that the encoding sorts in the reverse order of the value. -/
namespace FrescoDB.Common

open FrescoDB.Lib FrescoDB.Util

/-- `IntraTxnWriteId`. -/
abbrev IntraTxnWriteId := UInt32

/-- `kMaxWriteId`. -/
def kMaxWriteId : IntraTxnWriteId := 0xFFFFFFFF

/-- `kDefaultWriteId`, which is `kMinWriteId`. -/
def kDefaultWriteId : IntraTxnWriteId := 0

/-- `kMaxBytesPerEncodedHybridTime`. -/
def kMaxBytesPerEncodedHybridTime : Nat := 30

/-- `kYugaByteMicrosecondEpoch`. -/
def kYugaByteMicrosecondEpoch : HybridTimeRepr := 1500000000 * 1000000

/-- `kNumBitsForHybridTimeSize`, `kHybridTimeSizeMask`. -/
def kNumBitsForHybridTimeSize : Nat := 5
def kHybridTimeSizeMask : UInt8 := 31

/-- `DocHybridTime`. -/
structure DocHybridTime where
  hybridTime : HybridTime
  writeId : IntraTxnWriteId
  deriving DecidableEq, Repr

namespace DocHybridTime

/-- `CompareTo`: by hybrid time, then by write id. -/
def compareTo (a b : DocHybridTime) : Ordering :=
  match a.hybridTime.compareTo b.hybridTime with
  | .eq => compareUsingLessThan (fun x y : UInt32 => decide (x < y)) a.writeId b.writeId
  | r => r

/-- The four varints of `EncodedInDocDbFormat`, before the size is stored in the last byte. -/
def encodedVarInts (d : DocHybridTime) : List UInt8 :=
  fastEncodeDescendingSignedVarInt 0 ++
  fastEncodeDescendingSignedVarInt
    (d.hybridTime.getPhysicalValueMicros - kYugaByteMicrosecondEpoch).toInt64 ++
  fastEncodeDescendingSignedVarInt d.hybridTime.getLogicalValue.toUInt64.toInt64 ++
  fastEncodeDescendingSignedVarInt ((d.writeId.toUInt64.toInt64 + 1) <<< 5)

-- Equation lemmas, made once before their uses.
section
attribute [local simp] encodedVarInts
end

/-- `EncodedInDocDbFormat`: the low five bits of the last byte are replaced by the size. -/
def encodedInDocDbFormat (d : DocHybridTime) : List UInt8 :=
  let out := d.encodedVarInts
  let lastByte := out.getLastD 0
  let encodedSize : UInt8 := out.length.toUInt8
  out.dropLast ++ [(lastByte &&& ~~~kHybridTimeSizeMask) ||| encodedSize]

/-- `AppendEncodedInDocDbFormat`. -/
def appendEncodedInDocDbFormat (d : DocHybridTime) (dest : List UInt8) : List UInt8 :=
  dest ++ d.encodedInDocDbFormat

/-- `DocHybridTime::kInvalid`. -/
def kInvalid : DocHybridTime := ⟨HybridTime.kInvalid, kMaxWriteId⟩

/-- `is_valid()`: the hybrid time is valid, whatever the write id. -/
def isValid (d : DocHybridTime) : Bool := d.hybridTime.isValid

/-- `DecodeFrom(Slice*)`: the value and the rest of the slice. -/
def decodeFrom (slice : List UInt8) : Except String (DocHybridTime × List UInt8) := do
  -- The generation number is ignored.
  let (_, s) ← fastDecodeDescendingSignedVarInt slice
  let (micros, s) ← fastDecodeDescendingSignedVarInt s
  let decodedMicros := kYugaByteMicrosecondEpoch.toInt64 + micros
  let (decodedLogical, s) ← fastDecodeDescendingSignedVarInt s
  let hybridTime := HybridTime.fromMicrosecondsAndLogicalValue decodedMicros.toUInt64
    decodedLogical.toUInt64.toUInt32
  let (decodedShiftedWriteId, s) ← fastDecodeDescendingSignedVarInt s
  if decodedShiftedWriteId < 0 then
    throw ("Negative decoded_shifted_write_id: " ++ toString decodedShiftedWriteId.toInt)
  let writeId := ((decodedShiftedWriteId >>> 5) - 1).toUInt64.toUInt32
  let bytesDecoded := slice.length - s.length
  let sizeAtTheEnd := ((slice.take bytesDecoded).getLastD 0 &&& kHybridTimeSizeMask).toNat
  if sizeAtTheEnd ≠ bytesDecoded then
    throw ("Wrong encoded DocHybridTime size at the end: " ++ toString sizeAtTheEnd ++
      ". Expected: " ++ toString bytesDecoded ++ ".")
  return (⟨hybridTime, writeId⟩, s)

/-- `FullyDecodeFrom`: the whole slice is the encoding. -/
def fullyDecodeFrom (encoded : List UInt8) : Except String DocHybridTime := do
  let (d, s) ← decodeFrom encoded
  if ¬ s.isEmpty then
    throw (toString s.length ++ " extra bytes left when decoding a DocHybridTime")
  return d

/-- `GetEncodedSize`: the five low bits of the last byte, `0` for an empty key. -/
def getEncodedSize (encodedKey : List UInt8) : Nat :=
  if encodedKey.isEmpty then 0 else (encodedKey.getLastD 0 &&& kHybridTimeSizeMask).toNat

/-- `CheckEncodedSize`; each `SCHECK` formats its message as `"$0: $1 vs. $2"`. -/
def checkEncodedSize (encodedHtSize encodedKeySize : Nat) : Except String Unit :=
  if encodedKeySize = 0 then
    throw "Got an empty encoded key when looking for a DocHybridTime at the end."
  else if ¬ encodedHtSize ≥ 1 then
    throw ("Encoded HybridTime must be at least one byte, found " ++ toString encodedHtSize ++
      ".: " ++ toString encodedHtSize ++ " vs. 1")
  else if ¬ encodedHtSize ≤ kMaxBytesPerEncodedHybridTime then
    throw ("Encoded HybridTime can't be more than " ++ toString kMaxBytesPerEncodedHybridTime ++
      " bytes, found " ++ toString encodedHtSize ++ ".: " ++ toString encodedHtSize ++ " vs. " ++
      toString kMaxBytesPerEncodedHybridTime)
  else if ¬ encodedHtSize < encodedKeySize then
    throw ("Trying to extract an encoded HybridTime with a size of " ++ toString encodedHtSize ++
      " bytes from an encoded key of length " ++ toString encodedKeySize ++
      " bytes (must be strictly less -- one byte is used for value type).: " ++
      toString encodedHtSize ++ " vs. " ++ toString encodedKeySize)
  else pure ()

/-- `DecodeFromEnd(Slice*)`: the value at the end of a key, and the key without it. -/
def decodeFromEnd (encodedKeyWithHtAtEnd : List UInt8) :
    Except String (DocHybridTime × List UInt8) := do
  let encodedSize := getEncodedSize encodedKeyWithHtAtEnd
  checkEncodedSize encodedSize encodedKeyWithHtAtEnd.length
  let s := encodedKeyWithHtAtEnd.drop (encodedKeyWithHtAtEnd.length - encodedSize)
  let result ← fullyDecodeFrom s
  return (result, encodedKeyWithHtAtEnd.take (encodedKeyWithHtAtEnd.length - encodedSize))

/-! The round trip of the key encoding. -/

theorem sizeByte_and (a c : UInt8) (hc : c.toNat < 32) : ((a &&& ~~~31) ||| c) &&& 31 = c := by
  apply UInt8.toNat_inj.mp
  rw [show (~~~31 : UInt8) = 224 from rfl, UInt8.toNat_and, UInt8.toNat_or, UInt8.toNat_and,
    show (31 : UInt8).toNat = 2 ^ 5 - 1 from rfl, show (224 : UInt8).toNat = 224 from rfl,
    Nat.and_two_pow_sub_one_eq_mod, Nat.or_mod_two_pow, Nat.and_mod_two_pow,
    show 224 % 2 ^ 5 = 0 from rfl, Nat.and_zero, Nat.zero_or, Nat.mod_eq_of_lt hc]

theorem getLastD_append_of_ne_nil {α : Type} {l' l : List α} (h : l ≠ []) (d : α) :
    (l' ++ l).getLastD d = l.getLastD d := by
  obtain ⟨init, a, rfl⟩ := (List.eq_nil_or_concat l).resolve_left h
  simp

theorem length_fastEncodeDescendingSignedVarInt (v : Int64) :
    1 ≤ (fastEncodeDescendingSignedVarInt v).length ∧
      (fastEncodeDescendingSignedVarInt v).length ≤ 10 := by
  rw [fastEncodeDescendingSignedVarInt, length_fastEncodeSignedVarInt]
  obtain ⟨h1, h10, -⟩ := signedPositiveVarIntLength_spec (if -v < 0 then 1 + ~~~(-v).toUInt64 else (-v).toUInt64)
  exact ⟨h1, h10⟩

theorem shiftedWriteId_toInt (w : IntraTxnWriteId) :
    ((w.toUInt64.toInt64 + 1) <<< 5).toInt = 32 * (w.toNat + 1) := by
  have hw := w.toNat_lt
  have hbits : ((w.toUInt64.toInt64 + 1) <<< 5).toUInt64.toNat = 32 * (w.toNat + 1) := by
    rw [@int64_toUInt64_shiftLeft (w.toUInt64.toInt64 + 1) 5 5 (by decide) (by decide),
      Int64.toUInt64_add, UInt64.toUInt64_toInt64, Int64.toUInt64_ofNat, UInt64.toNat_add,
      UInt32.toNat_toUInt64, UInt64.toNat_one]
    omega
  rw [int64_toInt_eq, hbits, if_pos (by omega)]
  omega

theorem decodeFrom_encodedInDocDbFormat (d : DocHybridTime) (rest : List UInt8) :
    decodeFrom (d.encodedInDocDbFormat ++ rest) = .ok (d, rest) := by
  obtain ⟨ht, w⟩ := d
  have hx := shiftedWriteId_toInt w
  obtain ⟨hl3, hl3'⟩ := length_fastEncodeDescendingSignedVarInt ((w.toUInt64.toInt64 + 1) <<< 5)
  obtain ⟨-, hl1⟩ := length_fastEncodeDescendingSignedVarInt
    (ht.getPhysicalValueMicros - kYugaByteMicrosecondEpoch).toInt64
  obtain ⟨-, hl2⟩ := length_fastEncodeDescendingSignedVarInt ht.getLogicalValue.toUInt64.toInt64
  have hl0 : (fastEncodeDescendingSignedVarInt 0).length = 1 := by decide
  unfold encodedInDocDbFormat encodedVarInts
  dsimp only
  generalize hs : (fastEncodeDescendingSignedVarInt 0 ++
      fastEncodeDescendingSignedVarInt (ht.getPhysicalValueMicros - kYugaByteMicrosecondEpoch).toInt64 ++
      fastEncodeDescendingSignedVarInt ht.getLogicalValue.toUInt64.toInt64 ++
      fastEncodeDescendingSignedVarInt ((w.toUInt64.toInt64 + 1) <<< 5)).length = L
  generalize hx1 : (ht.getPhysicalValueMicros - kYugaByteMicrosecondEpoch).toInt64 = x1 at hl1 hs ⊢
  generalize hx2 : ht.getLogicalValue.toUInt64.toInt64 = x2 at hl2 hs ⊢
  generalize (w.toUInt64.toInt64 + 1) <<< 5 = x3 at hx hl3 hl3' hs ⊢
  have hne : fastEncodeDescendingSignedVarInt x3 ≠ [] := List.ne_nil_of_length_pos hl3
  have hL : L = 1 + (fastEncodeDescendingSignedVarInt x1).length +
      (fastEncodeDescendingSignedVarInt x2).length + (fastEncodeDescendingSignedVarInt x3).length := by
    rw [← hs]
    simp only [List.length_append, hl0]
  rw [List.dropLast_append_of_ne_nil hne, getLastD_append_of_ne_nil hne,
    show L.toUInt8 = UInt8.ofNat L from rfl, show kHybridTimeSizeMask = 31 from rfl]
  simp only [List.append_assoc]
  rw [← List.append_assoc (fastEncodeDescendingSignedVarInt x3).dropLast]
  unfold decodeFrom
  have hL31 : L < 32 := by omega
  rw [fastDecodeDescendingSignedVarInt_encode]
  dsimp only [bind, Except.bind]
  rw [fastDecodeDescendingSignedVarInt_encode]
  dsimp only [bind, Except.bind]
  rw [fastDecodeDescendingSignedVarInt_encode]
  dsimp only [bind, Except.bind]
  rw [fastDecodeDescendingSignedVarInt_setLowBits (by omega) (by omega) hL31]
  dsimp only [bind, Except.bind]
  -- the write id: the decoded value is positive, one more than the write id above five bits
  have hy : (UInt64.ofNat (x3.toInt.toNat + 31 - L)).toInt64.toUInt64.toNat =
      32 * (w.toNat + 1) + 31 - L := by
    rw [UInt64.toUInt64_toInt64, UInt64.toNat_ofNat', hx]
    have := w.toNat_lt
    omega
  have hpos : ¬ (UInt64.ofNat (x3.toInt.toNat + 31 - L)).toInt64 < 0 := by
    rw [int64_lt_zero_iff, hy]
    have := w.toNat_lt
    omega
  rw [if_neg hpos]
  generalize hb : (fastEncodeDescendingSignedVarInt x3).getLastD 0 &&& ~~~31 ||| UInt8.ofNat L = b
  have hslice : fastEncodeDescendingSignedVarInt 0 ++ (fastEncodeDescendingSignedVarInt x1 ++
      (fastEncodeDescendingSignedVarInt x2 ++ ((fastEncodeDescendingSignedVarInt x3).dropLast ++
        [b] ++ rest))) = (fastEncodeDescendingSignedVarInt 0 ++ fastEncodeDescendingSignedVarInt x1 ++
      fastEncodeDescendingSignedVarInt x2 ++ (fastEncodeDescendingSignedVarInt x3).dropLast ++ [b]) ++
        rest := by
    simp only [List.append_assoc]
  have hlen : (fastEncodeDescendingSignedVarInt 0 ++ fastEncodeDescendingSignedVarInt x1 ++
      fastEncodeDescendingSignedVarInt x2 ++ (fastEncodeDescendingSignedVarInt x3).dropLast ++
        [b]).length = L := by
    simp only [List.length_append, List.length_dropLast, List.length_singleton, hl0, hL]
    omega
  rw [hslice, List.length_append, hlen, Nat.add_sub_cancel, List.take_left' hlen,
    List.getLastD_concat, show kHybridTimeSizeMask = 31 from rfl, ← hb,
    sizeByte_and _ _ (by rw [UInt8.toNat_ofNat']; omega)]
  rw [if_neg (by rw [UInt8.toNat_ofNat']; omega)]
  have hwrite : ((UInt64.ofNat (x3.toInt.toNat + 31 - L)).toInt64 >>> 5 - 1).toUInt64.toUInt32 = w := by
    apply UInt32.toNat_inj.mp
    have hw := w.toNat_lt
    rw [UInt64.toNat_toUInt32, Int64.toUInt64_sub, UInt64.toNat_sub,
      int64_toUInt64_shiftRight (by decide : (5 : Int64).toBitVec.smod 64 = (5 : Nat)) (by decide)
        (by rw [hy]; omega), hy, Int64.toUInt64_ofNat, UInt64.toNat_one]
    omega
  have hmicros : (kYugaByteMicrosecondEpoch.toInt64 + x1).toUInt64 = ht.getPhysicalValueMicros := by
    rw [← hx1, Int64.toUInt64_add, UInt64.toUInt64_toInt64, UInt64.toUInt64_toInt64]
    simp
  have hlogical : x2.toUInt64.toUInt32 = ht.getLogicalValue := by
    rw [← hx2, UInt64.toUInt64_toInt64, UInt32.toUInt32_toUInt64]
  rw [hwrite, hmicros, hlogical, HybridTime.fromMicrosecondsAndLogicalValue_components]
  rfl

/-! The shape and the size of the encoding. -/

/-- The shifted write id and the size of the whole encoding leave the last word of
`EncodedInDocDbFormat` a word of its length: the varint of the write id with its magnitude
raised by `31` less the size. -/
theorem encodedInDocDbFormat_eq (d : DocHybridTime) :
    ∃ u : UInt64, u.toNat = 32 * (d.writeId.toNat + 1) ∧ 1 ≤ signedPositiveVarIntLength u ∧
      signedPositiveVarIntLength u ≤ 6 ∧
      32 * (d.writeId.toNat + 1) + 31 - d.encodedVarInts.length <
        2 ^ (7 * signedPositiveVarIntLength u - 1) ∧
      d.encodedVarInts.length ≤ 27 ∧
      d.encodedInDocDbFormat = fastEncodeDescendingSignedVarInt 0 ++
        fastEncodeDescendingSignedVarInt
          (d.hybridTime.getPhysicalValueMicros - kYugaByteMicrosecondEpoch).toInt64 ++
        fastEncodeDescendingSignedVarInt d.hybridTime.getLogicalValue.toUInt64.toInt64 ++
        (toBytesBE (signedPositiveVarIntLength u) (onesPrefix (signedPositiveVarIntLength u)
          (signedPositiveVarIntLength u)
          (32 * (d.writeId.toNat + 1) + 31 - d.encodedVarInts.length))).map (~~~·) := by
  have hx := shiftedWriteId_toInt d.writeId
  have hw := d.writeId.toNat_lt
  have hpos : 0 < ((d.writeId.toUInt64.toInt64 + 1) <<< 5).toInt := by omega
  obtain ⟨hneg, habs⟩ := int64_neg_toInt hpos
  rw [hx] at habs
  obtain ⟨n, hn, hn1, -, hm, henc⟩ :=
    fastEncodeSignedVarInt_eq (-((d.writeId.toUInt64.toInt64 + 1) <<< 5))
  have habs' : (32 * ((d.writeId.toNat : Int) + 1)).toNat = 32 * (d.writeId.toNat + 1) := by omega
  rw [if_pos hneg, habs, habs'] at henc
  rw [habs, habs'] at hm
  -- at most six bytes for the write id: its magnitude is below `2 ^ 41`
  have hn6 : n ≤ 6 := by
    rw [← hn, ← length_fastEncodeSignedVarInt]
    refine length_fastEncodeSignedVarInt_le _ (by decide) (by decide) ?_
    rw [habs]
    omega
  have hlen : d.encodedVarInts.length ≤ 27 := by
    have hl0 : (fastEncodeDescendingSignedVarInt 0).length = 1 := by decide
    have hl1 := (length_fastEncodeDescendingSignedVarInt
      (d.hybridTime.getPhysicalValueMicros - kYugaByteMicrosecondEpoch).toInt64).2
    have hl2 := (length_fastEncodeDescendingSignedVarInt
      d.hybridTime.getLogicalValue.toUInt64.toInt64).2
    have hl3 : (fastEncodeDescendingSignedVarInt ((d.writeId.toUInt64.toInt64 + 1) <<< 5)).length
        = n := by
      rw [fastEncodeDescendingSignedVarInt, henc]
      simp
    simp only [encodedVarInts, List.length_append, hl0, hl3]
    omega
  have h32 : 2 ^ (7 * n - 1) % 32 = 0 := by
    rw [show 7 * n - 1 = 5 + (7 * n - 6) by omega, Nat.pow_add]
    exact Nat.mul_mod_right _ _
  have hM : (32 * (d.writeId.toNat + 1)) % 32 = 0 := Nat.mul_mod_right _ _
  refine ⟨_, by rw [magnitude_toNat, habs]; omega, hn ▸ hn1, hn ▸ hn6, by rw [hn]; omega,
    by omega, ?_⟩
  -- the size replaces the five low bits of the last word, all ones in a negative word
  have hlast : fastEncodeDescendingSignedVarInt ((d.writeId.toUInt64.toInt64 + 1) <<< 5) =
      (toBytesBE n (onesPrefix n n (32 * (d.writeId.toNat + 1)))).map (~~~·) := by
    rw [fastEncodeDescendingSignedVarInt, henc]
  have hne : fastEncodeDescendingSignedVarInt ((d.writeId.toUInt64.toInt64 + 1) <<< 5) ≠ [] := by
    rw [hlast]
    exact List.ne_nil_of_length_pos (by simp; omega)
  unfold encodedInDocDbFormat
  dsimp only
  rw [show d.encodedVarInts.length.toUInt8 = UInt8.ofNat d.encodedVarInts.length from rfl,
    show kHybridTimeSizeMask = 31 from rfl]
  generalize hL : d.encodedVarInts.length = L at hlen ⊢
  unfold encodedVarInts
  rw [List.dropLast_append_of_ne_nil hne, getLastD_append_of_ne_nil hne, List.append_assoc, hlast,
    setLowBits_onesPrefix hn1 hM (by omega), hn]

theorem length_encodedInDocDbFormat (d : DocHybridTime) :
    d.encodedInDocDbFormat.length = d.encodedVarInts.length := by
  have hl0 : (fastEncodeDescendingSignedVarInt 0).length = 1 := by decide
  have hpos : 0 < d.encodedVarInts.length := by
    simp only [encodedVarInts, List.length_append, hl0]
    omega
  unfold encodedInDocDbFormat
  dsimp only
  rw [List.length_append, List.length_dropLast, List.length_singleton]
  omega

/-! The order of the encoding: it sorts in the reverse order of `CompareTo`. -/

theorem compareTo_eq (d₁ d₂ : DocHybridTime) :
    d₁.compareTo d₂ = (compare d₁.hybridTime.v.toNat d₂.hybridTime.v.toNat).then
      (compare d₁.writeId.toNat d₂.writeId.toNat) := by
  have hv : compare d₁.hybridTime.v d₂.hybridTime.v =
      compare d₁.hybridTime.v.toNat d₂.hybridTime.v.toNat := by
    simp only [compare, compareOfLessAndEq, UInt64.lt_iff_toNat_lt, ← UInt64.toNat_inj]
  have hw : compareUsingLessThan (fun x y : UInt32 => decide (x < y)) d₁.writeId d₂.writeId =
      compare d₁.writeId.toNat d₂.writeId.toNat := by
    unfold compareUsingLessThan
    simp only [decide_eq_true_eq, UInt32.lt_iff_toNat_lt]
    rcases Nat.lt_trichotomy d₁.writeId.toNat d₂.writeId.toNat with h | h | h
    · simp [h, Nat.compare_eq_lt.2 h]
    · simp [h]
    · simp [h, Nat.compare_eq_gt.2 h, not_lt.2 h.le]
  unfold compareTo HybridTime.compareTo
  rw [hv, hw]
  cases compare d₁.hybridTime.v.toNat d₂.hybridTime.v.toNat <;> rfl

theorem compareTo_swap (d₁ d₂ : DocHybridTime) : d₂.compareTo d₁ = (d₁.compareTo d₂).swap := by
  rw [compareTo_eq, compareTo_eq, Ordering.swap_then, Nat.compare_swap, Nat.compare_swap]

theorem eq_of_compareTo_eq {d₁ d₂ : DocHybridTime} (h : d₁.compareTo d₂ = .eq) : d₁ = d₂ := by
  rw [compareTo_eq, Ordering.then_eq_eq, Nat.compare_eq_eq, Nat.compare_eq_eq] at h
  obtain ⟨hv, hw⟩ := h
  cases d₁
  cases d₂
  congr
  exacts [HybridTime.ext_toNat hv, UInt32.toNat_inj.mp hw]

theorem physicalMicros_toInt (h : HybridTime) :
    (h.getPhysicalValueMicros - kYugaByteMicrosecondEpoch).toInt64.toInt =
      (h.getPhysicalValueMicros.toNat : Int) - 1500000000000000 := by
  have hp : h.getPhysicalValueMicros.toNat = h.v.toNat / 4096 := by
    simp [HybridTime.getPhysicalValueMicros, HybridTime.kBitsForLogicalComponent,
      Nat.shiftRight_eq_div_pow]
  have hv := h.v.toNat_lt
  have hE : kYugaByteMicrosecondEpoch.toNat = 1500000000000000 := rfl
  rw [int64_toInt_eq, UInt64.toUInt64_toInt64, UInt64.toNat_sub, hE, hp]
  split <;> omega

theorem logical_toInt (h : HybridTime) :
    h.getLogicalValue.toUInt64.toInt64.toInt = (h.v.toNat % 4096 : Nat) := by
  have hl : h.getLogicalValue.toNat = h.v.toNat % 4096 := by
    rw [HybridTime.getLogicalValue, UInt64.toNat_toUInt32, UInt64.toNat_and,
      show HybridTime.kLogicalBitMask.toNat = 2 ^ 12 - 1 from rfl, Nat.and_two_pow_sub_one_eq_mod]
    omega
  rw [int64_toInt_eq, UInt64.toUInt64_toInt64, UInt32.toNat_toUInt64, hl, if_pos (by omega)]

theorem physicalMicros_toNat (h : HybridTime) : h.getPhysicalValueMicros.toNat = h.v.toNat / 4096 := by
  simp [HybridTime.getPhysicalValueMicros, HybridTime.kBitsForLogicalComponent,
    Nat.shiftRight_eq_div_pow]

/-- A smaller `DocHybridTime` first differs from a larger one by a larger byte. The pieces of the
encoding are compared in their order: the microseconds, the logical value, the write id. -/
theorem diffLt_encodedInDocDbFormat {d₁ d₂ : DocHybridTime} (h : d₁.compareTo d₂ = .lt) :
    DiffLt d₂.encodedInDocDbFormat d₁.encodedInDocDbFormat := by
  obtain ⟨u₁, hu₁, hn₁, -, hm₁, hL₁, he₁⟩ := d₁.encodedInDocDbFormat_eq
  obtain ⟨u₂, hu₂, -, -, hm₂, hL₂, he₂⟩ := d₂.encodedInDocDbFormat_eq
  rw [he₁, he₂]
  rw [compareTo_eq, compare_div_mod _ _ 4096 (by decide)] at h
  have hp₁ := physicalMicros_toInt d₁.hybridTime
  have hp₂ := physicalMicros_toInt d₂.hybridTime
  rw [physicalMicros_toNat] at hp₁ hp₂
  have hv₁ := d₁.hybridTime.v.toNat_lt
  rcases hP : compare (d₁.hybridTime.v.toNat / 4096) (d₂.hybridTime.v.toNat / 4096) with _ | _ | _
  · -- the microseconds decide
    have hlt := Nat.compare_eq_lt.mp hP
    refine ((((diffLt_fastEncodeDescendingSignedVarInt ?_ ?_).append_left _).append _ _).append _ _)
    · rw [hp₁, hp₂]
      omega
    · rw [hp₁]
      omega
  · have hmicros : d₁.hybridTime.getPhysicalValueMicros = d₂.hybridTime.getPhysicalValueMicros :=
      UInt64.toNat_inj.mp (by rw [physicalMicros_toNat, physicalMicros_toNat]; exact Nat.compare_eq_eq.mp hP)
    rw [hP, Ordering.eq_then] at h
    rw [hmicros]
    rcases hl : compare (d₁.hybridTime.v.toNat % 4096) (d₂.hybridTime.v.toNat % 4096) with _ | _ | _
    · -- the logical values decide
      have hlt := Nat.compare_eq_lt.mp hl
      refine (((diffLt_fastEncodeDescendingSignedVarInt ?_ ?_).append_left _).append _ _)
      · rw [logical_toInt, logical_toInt]
        omega
      · rw [logical_toInt]
        omega
    · -- the same hybrid time: the write ids decide
      rw [hl, Ordering.eq_then] at h
      have hw := Nat.compare_eq_lt.mp h
      have hht : d₁.hybridTime = d₂.hybridTime := by
        have hdiv := Nat.compare_eq_eq.mp hP
        have hmod := Nat.compare_eq_eq.mp hl
        exact HybridTime.ext_toNat (by omega)
      rw [hht]
      have hn : signedPositiveVarIntLength u₁ ≤ signedPositiveVarIntLength u₂ :=
        signedPositiveVarIntLength_mono (by rw [hu₁, hu₂]; omega)
      refine (DiffLt.complement (diffLt_onesPrefix hn₁ hm₁ hm₂ ?_)).append_left _
      omega
    · simp [hl] at h
  · simp [hP] at h

theorem compare_encodedInDocDbFormat (d₁ d₂ : DocHybridTime) :
    compare d₁.encodedInDocDbFormat d₂.encodedInDocDbFormat = (d₁.compareTo d₂).swap := by
  rcases h : d₁.compareTo d₂ with _ | _ | _
  · rw [compare_bytes_swap, (diffLt_encodedInDocDbFormat h).compare_eq_lt]
  · rw [eq_of_compareTo_eq h]
    exact Std.ReflCmp.compare_self
  · have h' : d₂.compareTo d₁ = .lt := by rw [compareTo_swap, h]; rfl
    rw [(diffLt_encodedInDocDbFormat h').compare_eq_lt]
    rfl

/-! Decoding from the end of a key. -/

theorem getLastD_encodedInDocDbFormat (d : DocHybridTime) :
    (d.encodedInDocDbFormat.getLastD 0 &&& kHybridTimeSizeMask).toNat =
      d.encodedInDocDbFormat.length := by
  obtain ⟨-, -, -, -, -, hL, -⟩ := d.encodedInDocDbFormat_eq
  rw [length_encodedInDocDbFormat]
  unfold encodedInDocDbFormat
  dsimp only
  rw [List.getLastD_concat, show kHybridTimeSizeMask = 31 from rfl,
    show d.encodedVarInts.length.toUInt8 = UInt8.ofNat d.encodedVarInts.length from rfl,
    sizeByte_and _ _ (by rw [UInt8.toNat_ofNat']; omega), UInt8.toNat_ofNat']
  omega

theorem length_encodedInDocDbFormat_pos (d : DocHybridTime) :
    0 < d.encodedInDocDbFormat.length := by
  have hl0 : (fastEncodeDescendingSignedVarInt 0).length = 1 := by decide
  simp only [length_encodedInDocDbFormat, encodedVarInts, List.length_append, hl0]
  omega

theorem getEncodedSize_append (d : DocHybridTime) (key : List UInt8) :
    getEncodedSize (key ++ d.encodedInDocDbFormat) = d.encodedInDocDbFormat.length := by
  have hne := List.ne_nil_of_length_pos (length_encodedInDocDbFormat_pos d)
  unfold getEncodedSize
  rw [if_neg (by simp [hne]), getLastD_append_of_ne_nil hne, getLastD_encodedInDocDbFormat]

theorem checkEncodedSize_append (d : DocHybridTime) {key : List UInt8} (hkey : key ≠ []) :
    checkEncodedSize d.encodedInDocDbFormat.length (key ++ d.encodedInDocDbFormat).length =
      .ok () := by
  obtain ⟨-, -, -, -, -, hL, -⟩ := d.encodedInDocDbFormat_eq
  have hlen := length_encodedInDocDbFormat d
  have hpos := length_encodedInDocDbFormat_pos d
  have hkey' := List.length_pos_of_ne_nil hkey
  unfold checkEncodedSize
  rw [List.length_append, if_neg (by omega), if_neg (by omega),
    if_neg (by unfold kMaxBytesPerEncodedHybridTime; omega), if_neg (by omega)]
  rfl

theorem decodeFromEnd_append (d : DocHybridTime) {key : List UInt8} (hkey : key ≠ []) :
    decodeFromEnd (key ++ d.encodedInDocDbFormat) = .ok (d, key) := by
  have hsize := getEncodedSize_append d key
  have hcheck := checkEncodedSize_append d hkey
  have hfully : fullyDecodeFrom d.encodedInDocDbFormat = .ok d := by
    unfold fullyDecodeFrom
    have h := decodeFrom_encodedInDocDbFormat d []
    rw [List.append_nil] at h
    rw [h]
    rfl
  unfold decodeFromEnd
  dsimp only
  rw [hsize, hcheck, List.length_append, Nat.add_sub_cancel, List.drop_left, List.take_left, hfully]
  rfl

/-- `DocHybridTime`'s key encoding: decoding it from the front returns it and leaves what follows;
decoding it from the end of a key, after a value type byte `kHybridTime`, returns it and strips
exactly the encoding; it takes at most `kMaxBytesPerEncodedHybridTime` bytes; and two encodings
sort in the reverse order of `CompareTo`. -/
theorem encodedInDocDbFormat_roundTrip_and_order (d : DocHybridTime) (pfx rest : List UInt8)
    (d₁ d₂ : DocHybridTime) :
    decodeFrom (d.encodedInDocDbFormat ++ rest) = .ok (d, rest) ∧
      decodeFromEnd (pfx ++ [Docdb.ValueType.kHybridTime.toByte] ++ d.encodedInDocDbFormat) =
        .ok (d, pfx ++ [Docdb.ValueType.kHybridTime.toByte]) ∧
      d.encodedInDocDbFormat.length ≤ kMaxBytesPerEncodedHybridTime ∧
      compare d₁.encodedInDocDbFormat d₂.encodedInDocDbFormat = (d₁.compareTo d₂).swap := by
  obtain ⟨-, -, -, -, -, hL, -⟩ := d.encodedInDocDbFormat_eq
  refine ⟨decodeFrom_encodedInDocDbFormat d rest, decodeFromEnd_append d (by simp), ?_,
    compare_encodedInDocDbFormat d₁ d₂⟩
  rw [length_encodedInDocDbFormat]
  unfold kMaxBytesPerEncodedHybridTime
  omega

end DocHybridTime

end FrescoDB.Common
