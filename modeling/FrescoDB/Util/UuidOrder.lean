import FrescoDB.Util.Uuid
import FrescoDB.Util.Status
import FrescoDB.Lib.Nibble

/-! The order of `Uuid` (`util/uuid.h`, `util/uuid.cc`) and what its comparable encoding keeps
of it. `EncodeToComparable` writes the timestamp bytes of a time UUID first, and the version
nibble of any other UUID first; `operator<` compares `version()` and then the same bytes. The
encoding reads back, so equal encodings are equal UUIDs, and the byte order of two encodings is
`operator<` whenever `version()` orders their version nibbles as the bytes do: between two UUIDs
of one nibble, and among the nibbles `0` to `5`. `boost`'s `version()` sends every nibble from `6`
up to `version_unknown`, below the versions `1` to `5`, while their encodings sort above.

`MinFromUnixTimestamp` and `MaxFromUnixTimestamp` bound, under `operator<`, the time UUIDs of one
millisecond: the sixty timestamp bits of a time UUID, which `ToUnixTimestamp` reads, decide its
order, and the bounds take the first and the last hundred nanoseconds of the millisecond. -/
namespace FrescoDB.Util

open FrescoDB.Lib

namespace Uuid

open UuidVersion

/-- The high nibble of byte 6, which `version()` reads. -/
def versionNibble (u : Uuid) : Nat := (u.byte 6).toNat / 16

-- Equation lemmas, made once before their uses.
section
attribute [local simp] versionNibble
end

/-- The order of the bytes of a time UUID in `operator<`. -/
def timeOrder : List Nat := [6, 7, 4, 5, 0, 1, 2, 3, 8, 9, 10, 11, 12, 13, 14, 15]

/-! The bytes of a UUID. -/

theorem data_eq_map_byte (u : Uuid) : u.data = (List.range 16).map u.byte := by
  apply List.ext_getElem (by simp [u.size])
  intro i h1 h2
  simp [byte, List.getD_eq_getElem?_getD, h1]

theorem take_data (u : Uuid) : u.data.take kUuidMsbSize = (List.range 8).map u.byte := by
  rw [data_eq_map_byte]
  rfl

theorem drop_data (u : Uuid) : u.data.drop kUuidMsbSize = (List.range' 8 8).map u.byte := by
  rw [data_eq_map_byte]
  rfl

theorem lessAt_eq_true_iff (a b : Uuid) :
    ∀ is : List Nat, lessAt a b is = true ↔ compare (is.map a.byte) (is.map b.byte) = .lt
  | [] => by simp [lessAt]
  | i :: is => by
    rw [lessAt, List.map_cons, List.map_cons, List.compare_cons_cons, compare_uint8]
    rcases Nat.lt_trichotomy (a.byte i).toNat (b.byte i).toNat with h | h | h
    · have hlt : a.byte i < b.byte i := UInt8.lt_iff_toNat_lt.mpr h
      simp [hlt, Nat.compare_eq_lt.mpr h]
    · have heq : a.byte i = b.byte i := UInt8.toNat_inj.mp h
      rw [heq, if_neg (UInt8.lt_irrefl _), if_neg (UInt8.lt_irrefl _), Nat.compare_eq_eq.mpr rfl,
        Ordering.eq_then]
      exact lessAt_eq_true_iff a b is
    · have hgt : b.byte i < a.byte i := UInt8.lt_iff_toNat_lt.mpr h
      have hnlt : ¬ a.byte i < b.byte i := fun h' => by
        have := UInt8.lt_iff_toNat_lt.mp h'
        omega
      simp [hnlt, hgt, Nat.compare_eq_gt.mpr h]

/-! The version-first bytes. -/

theorem length_toVersionFirstBytes (u : Uuid) : u.toVersionFirstBytes.length = 8 := rfl

theorem byte_lt (u : Uuid) (i : Nat) : (u.byte i).toNat < 256 := (u.byte i).toNat_lt

/-- The version-first bytes as a number: the version nibble, the six bytes before it, the low
nibble of its byte, and byte 7. -/
theorem ofBytesBE_toVersionFirstBytes (u : Uuid) :
    ofBytesBE u.toVersionFirstBytes = u.versionNibble * 2 ^ 60 +
      ofBytesBE ([0, 1, 2, 3, 4, 5].map u.byte) * 2 ^ 12 + (u.byte 6).toNat % 16 * 2 ^ 8 +
        (u.byte 7).toNat := by
  have := byte_lt u 6
  simp only [toVersionFirstBytes, ofBytesBE, List.map_cons, List.map_nil, List.length_cons,
    List.length_nil, versionNibble, toNat_or_lo_hi, toNat_or_and_hi, toNat_or_lo_and]
  omega

theorem ofBytesBE_take_data (u : Uuid) :
    ofBytesBE (u.data.take kUuidMsbSize) =
      ofBytesBE ([0, 1, 2, 3, 4, 5].map u.byte) * 2 ^ 16 + (u.byte 6).toNat * 2 ^ 8 +
        (u.byte 7).toNat := by
  rw [take_data]
  simp only [List.range, List.range.loop, ofBytesBE, List.map_cons, List.map_nil, List.length_cons,
    List.length_nil]
  omega

/-- Between two UUIDs of one version nibble the version-first bytes compare as the first eight
bytes. -/
theorem compare_toVersionFirstBytes {a b : Uuid} (h : a.versionNibble = b.versionNibble) :
    compare a.toVersionFirstBytes b.toVersionFirstBytes =
      compare (a.data.take kUuidMsbSize) (b.data.take kUuidMsbSize) := by
  rw [compare_eq_compare_ofBytesBE
      ((length_toVersionFirstBytes a).trans (length_toVersionFirstBytes b).symm),
    compare_eq_compare_ofBytesBE (by simp [a.size, b.size]),
    ofBytesBE_toVersionFirstBytes, ofBytesBE_toVersionFirstBytes, ofBytesBE_take_data,
    ofBytesBE_take_data]
  have ha := ofBytesBE_lt ([0, 1, 2, 3, 4, 5].map a.byte)
  have hb := ofBytesBE_lt ([0, 1, 2, 3, 4, 5].map b.byte)
  have ha7 := byte_lt a 7
  have hb7 := byte_lt b 7
  simp only [List.length_map, List.length_cons, List.length_nil] at ha hb
  unfold versionNibble at h ⊢
  apply compare_congr_of_iff <;> omega

theorem fromVersionFirstBytes_toVersionFirstBytes (u : Uuid) :
    fromVersionFirstBytes u.toVersionFirstBytes = u.data.take kUuidMsbSize := by
  rw [take_data]
  have h0 := byte_lt u 0
  have h1 := byte_lt u 1
  have h2 := byte_lt u 2
  have h3 := byte_lt u 3
  have h4 := byte_lt u 4
  have h5 := byte_lt u 5
  have h6 := byte_lt u 6
  simp only [fromVersionFirstBytes, toVersionFirstBytes, List.getD_cons_zero, List.getD_cons_succ,
    List.range, List.range.loop, List.map_cons, List.map_nil, List.cons.injEq, and_true]
  refine ⟨?_, ?_, ?_, ?_, ?_, ?_, ?_⟩ <;> apply UInt8.toNat_inj.mp <;>
    simp only [toNat_or_lo_hi, toNat_or_and_hi, toNat_or_lo_and, toNat_or_and_and] <;> omega

section Version

variable [UuidVersion]

theorem lt_eq_true_iff (a b : Uuid) :
    lt a b = true ↔ version a < version b ∨ version a = version b ∧
      (if version a = versionTimeBased then
        compare (timeOrder.map a.byte) (timeOrder.map b.byte) else compare a.data b.data) = .lt := by
  unfold lt
  by_cases hab : version a < version b
  · simp [hab]
  · by_cases hba : version b < version a
    · rw [if_neg hab, if_pos hba]
      simp only [Bool.false_eq_true, false_iff, not_or, not_and]
      exact ⟨hab, fun h => absurd (h ▸ hba) (lt_irrefl _)⟩
    · have heq : version a = version b := by omega
      rw [if_neg hab, if_neg hba, or_iff_right hab, and_iff_right heq]
      split
      · exact lessAt_eq_true_iff a b timeOrder
      · rw [lessAt_eq_true_iff,
          show [0, 1, 2, 3, 4, 5, 6, 7, 8, 9, 10, 11, 12, 13, 14, 15] = List.range 16 from rfl,
          ← data_eq_map_byte, ← data_eq_map_byte]

/-! The comparable encoding. -/

theorem encodeToComparable_of_time {u : Uuid} (h : version u = versionTimeBased) :
    u.encodeToComparable = timeOrder.map u.byte := by
  rw [encodeToComparable, if_pos h, drop_data]
  rfl

theorem encodeToComparable_of_not_time {u : Uuid} (h : version u ≠ versionTimeBased) :
    u.encodeToComparable = u.toVersionFirstBytes ++ u.data.drop kUuidMsbSize := by
  rw [encodeToComparable, if_neg h]

theorem length_encodeToComparable (u : Uuid) : u.encodeToComparable.length = 16 := by
  by_cases h : version u = versionTimeBased
  · rw [encodeToComparable_of_time h]
    rfl
  · rw [encodeToComparable_of_not_time h, List.length_append, length_toVersionFirstBytes,
      List.length_drop, u.size]
    rfl

theorem drop_encodeToComparable (u : Uuid) :
    u.encodeToComparable.drop kUuidMsbSize = u.data.drop kUuidMsbSize := by
  by_cases h : version u = versionTimeBased
  · rw [encodeToComparable_of_time h, drop_data]
    rfl
  · rw [encodeToComparable_of_not_time h]
    exact List.drop_left' (length_toVersionFirstBytes u)

theorem head_encodeToComparable (u : Uuid) :
    ∃ c rest, u.encodeToComparable = c :: rest ∧ c.toNat / 16 = u.versionNibble := by
  by_cases h : version u = versionTimeBased
  · rw [encodeToComparable_of_time h]
    exact ⟨_, _, rfl, rfl⟩
  · rw [encodeToComparable_of_not_time h]
    refine ⟨_, _, rfl, ?_⟩
    have := byte_lt u 0
    rw [toNat_or_and_hi]
    unfold versionNibble
    omega

/-! The order of the encodings. -/

/-- Between two UUIDs of one version and one version nibble, the encodings compare as the bytes
`operator<` reads. -/
theorem compare_encodeToComparable_of_nibble_eq {a b : Uuid} (hv : version a = version b)
    (hn : a.versionNibble = b.versionNibble) :
    compare a.encodeToComparable b.encodeToComparable =
      if version a = versionTimeBased then compare (timeOrder.map a.byte) (timeOrder.map b.byte)
      else compare a.data b.data := by
  split
  · rename_i h
    rw [encodeToComparable_of_time h, encodeToComparable_of_time (hv ▸ h)]
  · rename_i h
    rw [encodeToComparable_of_not_time h, encodeToComparable_of_not_time (hv ▸ h),
      compare_append_of_length_eq
        ((length_toVersionFirstBytes a).trans (length_toVersionFirstBytes b).symm),
      compare_toVersionFirstBytes hn,
      ← compare_append_of_length_eq (by simp [a.size, b.size]), List.take_append_drop,
      List.take_append_drop]

theorem compare_encodeToComparable_of_nibble_ne {a b : Uuid}
    (hn : a.versionNibble ≠ b.versionNibble) :
    compare a.encodeToComparable b.encodeToComparable = compare a.versionNibble b.versionNibble := by
  obtain ⟨c, rest, hc, hcn⟩ := head_encodeToComparable a
  obtain ⟨d, rest', hd, hdn⟩ := head_encodeToComparable b
  have hne : c.toNat / 16 ≠ d.toNat / 16 := by omega
  have hcd : compare c.toNat d.toNat = compare a.versionNibble b.versionNibble := by
    rw [← hcn, ← hdn]
    apply compare_congr_of_iff <;> omega
  rw [hc, hd, List.compare_cons_cons, compare_uint8, hcd]
  rcases Nat.lt_or_gt_of_ne hn with h | h
  · rw [Nat.compare_eq_lt.mpr h]
    rfl
  · rw [Nat.compare_eq_gt.mpr h]
    rfl

variable [LawfulUuidVersion]

theorem timeBased_iff_nibble (u : Uuid) : version u = versionTimeBased ↔ u.versionNibble = 1 := by
  rw [LawfulUuidVersion.timeBased_iff, nibble_and_f0]
  rfl

theorem msbFromComparable_encodeToComparable (u : Uuid) :
    msbFromComparable u.encodeToComparable = u.data.take kUuidMsbSize := by
  obtain ⟨c, rest, hc, hnib⟩ := head_encodeToComparable u
  have hfirst : (u.encodeToComparable.getD 0 0 &&& 0xF0) = 0x10 ↔ version u = versionTimeBased := by
    rw [hc, List.getD_cons_zero, nibble_and_f0, hnib, timeBased_iff_nibble]
  unfold msbFromComparable
  by_cases h : version u = versionTimeBased
  · rw [if_pos (hfirst.mpr h), encodeToComparable_of_time h, take_data]
    rfl
  · rw [if_neg (mt hfirst.mp h), encodeToComparable_of_not_time h,
      ← fromVersionFirstBytes_toVersionFirstBytes]
    rfl

theorem decodeFromComparableSlice_encodeToComparable (u : Uuid) :
    decodeFromComparableSlice u.encodeToComparable = .ok u := by
  unfold decodeFromComparableSlice
  rw [dif_pos (show u.encodeToComparable.length = kUuidSize from length_encodeToComparable u)]
  congr 1
  cases u with
  | mk data size =>
    simp only [Uuid.mk.injEq]
    rw [msbFromComparable_encodeToComparable, drop_encodeToComparable, List.take_append_drop]

theorem encodeToComparable_inj {a b : Uuid} :
    a.encodeToComparable = b.encodeToComparable ↔ a = b := by
  constructor
  · intro h
    have ha := decodeFromComparableSlice_encodeToComparable a
    rw [h, decodeFromComparableSlice_encodeToComparable b] at ha
    exact (Except.ok.inj ha).symm
  · rintro rfl
    rfl

end Version

/-! `boost::uuids::uuid::version()`: the nibble for `1` to `5`, else `version_unknown`. -/

theorem nibbleVersion_version (u : Uuid) :
    @version nibbleVersion u =
      if 1 ≤ u.versionNibble ∧ u.versionNibble ≤ 5 then (u.versionNibble : Int) else -1 := rfl

/-- Under `boost`'s `version()`, the encodings compare as `operator<` between two UUIDs of one
version nibble and between two whose nibbles are at most `5`. -/
theorem lt_iff_compare_encodeToComparable (a b : Uuid)
    (h : a.versionNibble = b.versionNibble ∨ a.versionNibble ≤ 5 ∧ b.versionNibble ≤ 5) :
    @lt nibbleVersion a b = true ↔
      compare (@encodeToComparable nibbleVersion a) (@encodeToComparable nibbleVersion b) = .lt := by
  by_cases hn : a.versionNibble = b.versionNibble
  · have hv : @version nibbleVersion a = @version nibbleVersion b := by
      rw [nibbleVersion_version, nibbleVersion_version, hn]
    rw [@lt_eq_true_iff nibbleVersion, @compare_encodeToComparable_of_nibble_eq nibbleVersion a b hv hn,
      hv, or_iff_right (lt_irrefl _), and_iff_right rfl]
  · obtain ⟨ha, hb⟩ := h.resolve_left hn
    -- on the nibbles `0` to `5`, `version()` is strictly monotone
    have hlt : @version nibbleVersion a < @version nibbleVersion b ↔
        a.versionNibble < b.versionNibble := by
      rw [nibbleVersion_version, nibbleVersion_version]
      split_ifs <;> omega
    have hne : @version nibbleVersion a ≠ @version nibbleVersion b := by
      rw [nibbleVersion_version, nibbleVersion_version]
      split_ifs <;> omega
    rw [@lt_eq_true_iff nibbleVersion, @compare_encodeToComparable_of_nibble_ne nibbleVersion a b hn,
      Nat.compare_eq_lt, ← hlt, or_iff_left (fun h' => hne h'.1)]

/-- An unknown version nibble, `6` to `15`, sorts above the versions `1` to `5` in the encoding
and below them in `operator<`, where its `version()` is `version_unknown`. -/
theorem encodeToComparable_reverses_unknown_version (a b : Uuid) (ha : 6 ≤ a.versionNibble)
    (hb : 1 ≤ b.versionNibble ∧ b.versionNibble ≤ 5) :
    @lt nibbleVersion a b = true ∧
      compare (@encodeToComparable nibbleVersion a) (@encodeToComparable nibbleVersion b) = .gt := by
  have hn : a.versionNibble ≠ b.versionNibble := by omega
  have hlt : @version nibbleVersion a < @version nibbleVersion b := by
    rw [nibbleVersion_version, nibbleVersion_version]
    split_ifs <;> omega
  refine ⟨(@lt_eq_true_iff nibbleVersion a b).mpr (.inl hlt), ?_⟩
  rw [@compare_encodeToComparable_of_nibble_ne nibbleVersion a b hn, Nat.compare_eq_gt]
  omega

/-- A version-7 UUID, `018f4a3c-1b2d-7e5f-8a6b-0c1d2e3f4a5b`. -/
def uuidV7 : Uuid :=
  ⟨[0x01, 0x8f, 0x4a, 0x3c, 0x1b, 0x2d, 0x7e, 0x5f, 0x8a, 0x6b, 0x0c, 0x1d, 0x2e, 0x3f, 0x4a, 0x5b],
    rfl⟩

/-- A version-4 UUID, `f47ac10b-58cc-4372-a567-0e02b2c3d479`. -/
def uuidV4 : Uuid :=
  ⟨[0xf4, 0x7a, 0xc1, 0x0b, 0x58, 0xcc, 0x43, 0x72, 0xa5, 0x67, 0x0e, 0x02, 0xb2, 0xc3, 0xd4, 0x79],
    rfl⟩

theorem encodeToComparable_reverses_unknown_version_v7_v4 :
    @lt nibbleVersion uuidV7 uuidV4 = true ∧
      compare (@encodeToComparable nibbleVersion uuidV7) (@encodeToComparable nibbleVersion uuidV4) =
        .gt :=
  encodeToComparable_reverses_unknown_version uuidV7 uuidV4 (by decide) ⟨by decide, by decide⟩

/-! The time UUIDs of a millisecond. -/

/-- `kGregorianOffsetMillis`: the Gregorian epoch, in milliseconds since the Unix epoch. -/
def kGregorianOffsetMillis : Int := -12219292800000

/-- `kMillisPerHundredNanos`: the hundreds of nanoseconds of a millisecond. -/
def kMillisPerHundredNanos : Int := 10000

/-- `kUuidLsbSize`. -/
def kUuidLsbSize : Nat := kUuidSize - kUuidMsbSize

/-- `FromTimestamp(ts_hnanos)`: the big-endian bytes of the timestamp, the version nibble set to
`1`, in the order of `FromTimestampBytes`. -/
def fromTimestamp (tsHnanos : Int) : List UInt8 :=
  let tsBytes := toBytesBE 8 (tsHnanos % 2 ^ 64).toNat
  fromTimestampBytes (((tsBytes.headD 0 &&& 0x0F) ||| 0x10) :: tsBytes.tail)

theorem length_fromTimestamp (tsHnanos : Int) : (fromTimestamp tsHnanos).length = kUuidMsbSize :=
  rfl

/-- `MaxFromUnixTimestamp`: the last hundred nanoseconds of the millisecond, and the least
significant bytes all `0xFF`. It always returns OK. -/
def maxFromUnixTimestamp (timestampMs : Int) : Uuid :=
  let tsHnanos := (timestampMs + 1 - kGregorianOffsetMillis) * kMillisPerHundredNanos - 1
  ⟨fromTimestamp tsHnanos ++ List.replicate kUuidLsbSize 0xFF, by
    rw [List.length_append, length_fromTimestamp, List.length_replicate]
    rfl⟩

/-- `MinFromUnixTimestamp`: the first hundred nanoseconds of the millisecond, and the least
significant bytes all zero. It always returns OK. -/
def minFromUnixTimestamp (timestampMs : Int) : Uuid :=
  let timestamp := (timestampMs - kGregorianOffsetMillis) * kMillisPerHundredNanos
  ⟨fromTimestamp timestamp ++ List.replicate kUuidLsbSize 0x00, by
    rw [List.length_append, length_fromTimestamp, List.length_replicate]
    rfl⟩

/-- The sixty timestamp bits of a time UUID: its timestamp bytes without the version nibble. -/
def timestampBits (u : Uuid) : Nat :=
  ofBytesBE ((u.toTimestampBytes.headD 0 &&& 0x0f) :: u.toTimestampBytes.tail)

/-- A valid `timestamp_ms`: the hundreds of nanoseconds of its millisecond since the Gregorian
epoch fit the sixty timestamp bits. -/
def ValidUnixTimestamp (timestampMs : Int) : Prop :=
  0 ≤ (timestampMs - kGregorianOffsetMillis) * kMillisPerHundredNanos ∧
    (timestampMs + 1 - kGregorianOffsetMillis) * kMillisPerHundredNanos ≤ 2 ^ 60

instance : DecidablePred ValidUnixTimestamp := fun _ => inferInstanceAs (Decidable (_ ∧ _))

theorem length_toTimestampBytes (u : Uuid) : u.toTimestampBytes.length = 8 := rfl

theorem foldl_shiftLeft_or (bs : List UInt8) (acc : Nat) :
    bs.foldl (fun acc b => acc <<< 8 ||| b.toNat) acc = acc * 256 ^ bs.length + ofBytesBE bs := by
  induction bs generalizing acc with
  | nil => simp [ofBytesBE]
  | cons b bs ih =>
    rw [List.foldl_cons, ih, ← Nat.shiftLeft_add_eq_or_of_lt (show b.toNat < 2 ^ 8 from b.toNat_lt),
      Nat.shiftLeft_eq, ofBytesBE, List.length_cons, pow_succ]
    ring

theorem timeOrder_map_byte (u : Uuid) :
    timeOrder.map u.byte = u.toTimestampBytes ++ u.data.drop kUuidMsbSize := by
  rw [drop_data]
  rfl

theorem ofBytesBE_toTimestampBytes {u : Uuid} (h : u.versionNibble = 1) :
    ofBytesBE u.toTimestampBytes = 2 ^ 60 + u.timestampBits := by
  have h6 : (u.byte 6 &&& 0x0f).toNat = (u.byte 6).toNat % 16 := toNat_and_0f _
  have hlt := byte_lt u 6
  unfold versionNibble at h
  simp only [timestampBits, toTimestampBytes, List.headD_cons, List.tail_cons, ofBytesBE,
    List.length_cons, List.length_nil, h6]
  omega

theorem getD_eight {ts : List UInt8} (h : ts.length = 8) :
    [ts.getD 0 0, ts.getD 1 0, ts.getD 2 0, ts.getD 3 0, ts.getD 4 0, ts.getD 5 0, ts.getD 6 0,
      ts.getD 7 0] = ts := by
  apply List.ext_getElem (by simp [h])
  intro i h1 h2
  simp only [List.length_cons, List.length_nil] at h1
  interval_cases i <;> simp [List.getD_eq_getElem?_getD, List.getElem?_eq_getElem h2]

theorem toTimestampBytes_fromTimestampBytes {ts l : List UInt8} (h : ts.length = 8)
    (hsize : (fromTimestampBytes ts ++ l).length = 16) :
    (⟨fromTimestampBytes ts ++ l, hsize⟩ : Uuid).toTimestampBytes = ts := by
  simp only [toTimestampBytes, byte, fromTimestampBytes, List.cons_append, List.getD_cons_zero,
    List.getD_cons_succ]
  exact getD_eight h

/-- The UUID `FromTimestamp` builds from a timestamp of sixty bits: version nibble `1`, the
timestamp as its timestamp bits. -/
theorem fromTimestamp_spec {ts : Int} {l : List UInt8} (h0 : 0 ≤ ts) (h1 : ts < 2 ^ 60)
    (hsize : (fromTimestamp ts ++ l).length = 16) :
    (⟨fromTimestamp ts ++ l, hsize⟩ : Uuid).versionNibble = 1 ∧
      ((⟨fromTimestamp ts ++ l, hsize⟩ : Uuid).timestampBits : Int) = ts ∧
      (⟨fromTimestamp ts ++ l, hsize⟩ : Uuid).data.drop kUuidMsbSize = l := by
  have hx : (ts % 2 ^ 64).toNat < 2 ^ 60 := by omega
  generalize hxdef : (ts % 2 ^ 64).toNat = x at hx
  have hts : (x : Int) = ts := by omega
  have hcons : toBytesBE 8 x = UInt8.ofNat (x / 256 ^ 7 % 256) :: toBytesBE 7 x := rfl
  have hd : (UInt8.ofNat (x / 256 ^ 7 % 256)).toNat < 16 := by
    rw [toNat_digit]
    omega
  have hbytes := @toTimestampBytes_fromTimestampBytes
    (((UInt8.ofNat (x / 256 ^ 7 % 256) &&& 0x0F) ||| 0x10) :: toBytesBE 7 x) l (by simp)
  simp only [fromTimestamp, hxdef, hcons, List.headD_cons, List.tail_cons] at hsize ⊢
  -- the stamped first byte keeps the top timestamp nibble under the version nibble `1`
  have hclear : ((UInt8.ofNat (x / 256 ^ 7 % 256) &&& 0x0F) ||| 0x10) &&& 0x0F =
      UInt8.ofNat (x / 256 ^ 7 % 256) := by
    rw [and_0f_or_0x10_and_0f]
    apply UInt8.toNat_inj.mp
    rw [toNat_and_0f]
    omega
  refine ⟨?_, ?_, List.drop_left' rfl⟩
  · have hbyte6 := congrArg (fun bs => (List.headD bs 0).toNat / 16) (hbytes hsize)
    simp only [toTimestampBytes, List.headD_cons, toNat_and_0f_or_0x10] at hbyte6
    unfold versionNibble
    rw [hbyte6]
    omega
  · rw [timestampBits, hbytes hsize, List.headD_cons, List.tail_cons, hclear, ← hcons,
      ofBytesBE_toBytesBE, Nat.mod_eq_of_lt (by omega)]
    exact hts

theorem compare_replicate_zero (l : List UInt8) (h : l.length = kUuidLsbSize) :
    compare l (List.replicate kUuidLsbSize 0) ≠ .lt := by
  have h0 : ofBytesBE (List.replicate kUuidLsbSize 0) = 0 := by decide
  rw [compare_eq_compare_ofBytesBE (by simp [h]), h0]
  exact fun h' => absurd (Nat.compare_eq_lt.mp h') (Nat.not_lt_zero _)

theorem compare_replicate_ff (l : List UInt8) (h : l.length = kUuidLsbSize) :
    compare (List.replicate kUuidLsbSize 0xFF) l ≠ .lt := by
  have hlt := ofBytesBE_lt l
  rw [h] at hlt
  rw [compare_eq_compare_ofBytesBE (by simp [h])]
  have hff : ofBytesBE (List.replicate kUuidLsbSize 0xFF) = 256 ^ kUuidLsbSize - 1 := by decide
  rw [hff]
  intro h'
  have := Nat.compare_eq_lt.mp h'
  omega

section Timestamp

variable [UuidVersion]

/-- `IsTimeUuid`. -/
def isTimeUuid (u : Uuid) : Except Status Unit :=
  if version u = versionTimeBased then .ok ()
  else .error ⟨.kInvalidArgument, "Not a type 1 UUID. Current type: " ++ toString (version u)⟩

/-- `ToUnixTimestamp`. -/
def toUnixTimestamp (u : Uuid) : Except Status Int := do
  isTimeUuid u
  let output := u.toTimestampBytes
  let output := (output.headD 0 &&& 0x0f) :: output.tail
  let timestampMs := output.foldl (fun acc b => acc <<< 8 ||| b.toNat) 0
  -- not negative: C++'s truncating division is the division of `Int` here
  pure ((timestampMs : Int) / kMillisPerHundredNanos + kGregorianOffsetMillis)

theorem toUnixTimestamp_of_time {u : Uuid} (h : version u = versionTimeBased) :
    u.toUnixTimestamp =
      .ok ((u.timestampBits : Int) / kMillisPerHundredNanos + kGregorianOffsetMillis) := by
  simp only [toUnixTimestamp, isTimeUuid, if_pos h, foldl_shiftLeft_or, timestampBits]
  simp [bind, Except.bind, pure, Except.pure]

variable [LawfulUuidVersion]

theorem lt_of_time_iff {a b : Uuid} (ha : version a = versionTimeBased)
    (hb : version b = versionTimeBased) :
    lt a b = true ↔ a.timestampBits < b.timestampBits ∨ a.timestampBits = b.timestampBits ∧
      compare (a.data.drop kUuidMsbSize) (b.data.drop kUuidMsbSize) = .lt := by
  have hna := (timeBased_iff_nibble a).mp ha
  have hnb := (timeBased_iff_nibble b).mp hb
  rw [lt_eq_true_iff, ha, hb, if_pos rfl, or_iff_right (lt_irrefl _), and_iff_right rfl,
    timeOrder_map_byte, timeOrder_map_byte,
    compare_append_of_length_eq ((length_toTimestampBytes a).trans (length_toTimestampBytes b).symm),
    compare_eq_compare_ofBytesBE ((length_toTimestampBytes a).trans (length_toTimestampBytes b).symm),
    ofBytesBE_toTimestampBytes hna,
    ofBytesBE_toTimestampBytes hnb]
  rcases Nat.lt_trichotomy a.timestampBits b.timestampBits with h | h | h
  · simp [Nat.compare_eq_lt.mpr (Nat.add_lt_add_left h _), h]
  · simp [h]
  · have : ¬ a.timestampBits < b.timestampBits := by omega
    simp [Nat.compare_eq_gt.mpr (Nat.add_lt_add_left h _), this, Nat.ne_of_gt h]

/-- `MinFromUnixTimestamp` and `MaxFromUnixTimestamp` bound, under `operator<`, the time UUIDs of
a valid millisecond: both are time UUIDs of that millisecond, every time UUID of the millisecond
lies between them, every earlier one below the first and every later one above the second. -/
theorem unixTimestamp_bounds {timestampMs : Int} (hvalid : ValidUnixTimestamp timestampMs) :
    version (minFromUnixTimestamp timestampMs) = versionTimeBased ∧
      version (maxFromUnixTimestamp timestampMs) = versionTimeBased ∧
      (minFromUnixTimestamp timestampMs).toUnixTimestamp = .ok timestampMs ∧
      (maxFromUnixTimestamp timestampMs).toUnixTimestamp = .ok timestampMs ∧
      ∀ u : Uuid, version u = versionTimeBased →
        (u.toUnixTimestamp = .ok timestampMs →
          lt u (minFromUnixTimestamp timestampMs) = false ∧
            lt (maxFromUnixTimestamp timestampMs) u = false) ∧
        (∀ t, u.toUnixTimestamp = .ok t → t < timestampMs →
          lt u (minFromUnixTimestamp timestampMs) = true) ∧
        (∀ t, u.toUnixTimestamp = .ok t → timestampMs < t →
          lt (maxFromUnixTimestamp timestampMs) u = true) := by
  obtain ⟨hlo, hhi⟩ := hvalid
  unfold kGregorianOffsetMillis kMillisPerHundredNanos at hlo hhi
  -- the first and the last hundred nanoseconds of the millisecond
  obtain ⟨hnMin, hbMin, hdMin⟩ : (minFromUnixTimestamp timestampMs).versionNibble = 1 ∧
      ((minFromUnixTimestamp timestampMs).timestampBits : Int) =
        (timestampMs - kGregorianOffsetMillis) * kMillisPerHundredNanos ∧
      (minFromUnixTimestamp timestampMs).data.drop kUuidMsbSize =
        List.replicate kUuidLsbSize 0x00 :=
    fromTimestamp_spec (by unfold kGregorianOffsetMillis kMillisPerHundredNanos; omega)
      (by unfold kGregorianOffsetMillis kMillisPerHundredNanos; omega) _
  obtain ⟨hnMax, hbMax, hdMax⟩ : (maxFromUnixTimestamp timestampMs).versionNibble = 1 ∧
      ((maxFromUnixTimestamp timestampMs).timestampBits : Int) =
        (timestampMs + 1 - kGregorianOffsetMillis) * kMillisPerHundredNanos - 1 ∧
      (maxFromUnixTimestamp timestampMs).data.drop kUuidMsbSize =
        List.replicate kUuidLsbSize 0xFF :=
    fromTimestamp_spec (by unfold kGregorianOffsetMillis kMillisPerHundredNanos; omega)
      (by unfold kGregorianOffsetMillis kMillisPerHundredNanos; omega) _
  unfold kGregorianOffsetMillis kMillisPerHundredNanos at hbMin hbMax
  have hvMin := (timeBased_iff_nibble _).mpr hnMin
  have hvMax := (timeBased_iff_nibble _).mpr hnMax
  -- the millisecond a time UUID's timestamp bits fall in
  have hunix : ∀ u : Uuid, version u = versionTimeBased → ∀ t, u.toUnixTimestamp = .ok t →
      (u.timestampBits : Int) / 10000 - 12219292800000 = t := by
    intro u hu t ht
    rw [toUnixTimestamp_of_time hu, Except.ok.injEq] at ht
    unfold kGregorianOffsetMillis kMillisPerHundredNanos at ht
    omega
  have hdrop : ∀ u : Uuid, (u.data.drop kUuidMsbSize).length = kUuidLsbSize := fun u => by
    simp [u.size, kUuidLsbSize, kUuidSize, kUuidMsbSize]
  refine ⟨hvMin, hvMax, ?_, ?_, fun u hu => ⟨fun ht => ?_, fun t ht htlt => ?_,
    fun t ht htgt => ?_⟩⟩
  · rw [toUnixTimestamp_of_time hvMin, hbMin]
    unfold kGregorianOffsetMillis kMillisPerHundredNanos
    congr 1
    omega
  · rw [toUnixTimestamp_of_time hvMax, hbMax]
    unfold kGregorianOffsetMillis kMillisPerHundredNanos
    congr 1
    omega
  · have hbits := hunix u hu _ ht
    simp only [Bool.eq_false_iff, ne_eq, lt_of_time_iff hu hvMin, lt_of_time_iff hvMax hu, hdMin,
      hdMax]
    constructor
    · rintro (h | ⟨-, h⟩)
      · omega
      · exact compare_replicate_zero _ (hdrop u) h
    · rintro (h | ⟨-, h⟩)
      · omega
      · exact compare_replicate_ff _ (hdrop u) h
  · have hbits := hunix u hu t ht
    rw [lt_of_time_iff hu hvMin]
    left
    omega
  · have hbits := hunix u hu t ht
    rw [lt_of_time_iff hvMax hu]
    left
    omega

end Timestamp

theorem unixTimestamp_bounds_nibble :
    ValidUnixTimestamp 1700000000000 ∧
      @UuidVersion.version nibbleVersion (minFromUnixTimestamp 1700000000000) = versionTimeBased ∧
      @UuidVersion.version nibbleVersion (maxFromUnixTimestamp 1700000000000) = versionTimeBased ∧
      @toUnixTimestamp nibbleVersion (minFromUnixTimestamp 1700000000000) = .ok 1700000000000 ∧
      @toUnixTimestamp nibbleVersion (maxFromUnixTimestamp 1700000000000) = .ok 1700000000000 ∧
      ∀ u : Uuid, @UuidVersion.version nibbleVersion u = versionTimeBased →
        (@toUnixTimestamp nibbleVersion u = .ok 1700000000000 →
          @lt nibbleVersion u (minFromUnixTimestamp 1700000000000) = false ∧
            @lt nibbleVersion (maxFromUnixTimestamp 1700000000000) u = false) ∧
        (∀ t, @toUnixTimestamp nibbleVersion u = .ok t → t < 1700000000000 →
          @lt nibbleVersion u (minFromUnixTimestamp 1700000000000) = true) ∧
        (∀ t, @toUnixTimestamp nibbleVersion u = .ok t → 1700000000000 < t →
          @lt nibbleVersion (maxFromUnixTimestamp 1700000000000) u = true) :=
  ⟨by decide, @unixTimestamp_bounds nibbleVersion lawfulNibbleVersion 1700000000000 (by decide)⟩

end Uuid

end FrescoDB.Util
