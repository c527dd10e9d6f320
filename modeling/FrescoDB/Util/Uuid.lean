import Mathlib

/-! `Uuid` (`util/uuid.h`, `util/uuid.cc`): sixteen bytes, a byte shuffle that
makes time UUIDs sort by timestamp, and the custom `operator<`.
`boost::uuids::uuid::version()` is not part of the repository; it is the
parameter `UuidVersion`, and what the code relies on of it is the class
`LawfulUuidVersion`. -/
namespace FrescoDB.Util

/-- The sixteen bytes of a `boost::uuids::uuid`. -/
structure Uuid where
  data : List UInt8
  size : data.length = 16
  deriving DecidableEq

/-- `boost::uuids::uuid::version()`, which `Uuid` reads but the repository does not define. -/
class UuidVersion where
  version : Uuid → Int

/-- `boost::uuids::uuid::version_time_based`. -/
def versionTimeBased : Int := 1

/-- What the code assumes of `version()`: a UUID is time based exactly when the high nibble of
byte 6 is `1`, the test `DecodeFromComparableSlice` makes on the shuffled bytes. -/
class LawfulUuidVersion [UuidVersion] : Prop where
  timeBased_iff : ∀ u : Uuid, UuidVersion.version u = versionTimeBased ↔
    (u.data.getD 6 0 &&& 0xF0) = 0x10

namespace Uuid

open UuidVersion

/-- `kUuidSize`, `kUuidMsbSize`. -/
def kUuidSize : Nat := 16
def kUuidMsbSize : Nat := 8

/-- `boost_uuid_.data[i]`. -/
def byte (u : Uuid) (i : Nat) : UInt8 := u.data.getD i 0

/-- `ToTimestampBytes`: `[hi][mid][low]` timestamp order of the most significant half. -/
def toTimestampBytes (u : Uuid) : List UInt8 :=
  [u.byte 6, u.byte 7, u.byte 4, u.byte 5, u.byte 0, u.byte 1, u.byte 2, u.byte 3]

/-- `ToVersionFirstBytes`: the version nibble first, then the other nibbles in order. -/
def toVersionFirstBytes (u : Uuid) : List UInt8 :=
  let hi (b : UInt8) : UInt8 := (b &&& 0xF0) >>> 4
  let lo (b : UInt8) : UInt8 := (b &&& 0x0F) <<< 4
  [(u.byte 6 &&& 0xF0) ||| hi (u.byte 0), lo (u.byte 0) ||| hi (u.byte 1),
   lo (u.byte 1) ||| hi (u.byte 2), lo (u.byte 2) ||| hi (u.byte 3),
   lo (u.byte 3) ||| hi (u.byte 4), lo (u.byte 4) ||| hi (u.byte 5),
   lo (u.byte 5) ||| (u.byte 6 &&& 0x0F), u.byte 7]

/-- `FromTimestampBytes`, on the first eight encoded bytes. -/
def fromTimestampBytes (b : List UInt8) : List UInt8 :=
  [b.getD 4 0, b.getD 5 0, b.getD 6 0, b.getD 7 0, b.getD 2 0, b.getD 3 0, b.getD 0 0, b.getD 1 0]

/-- `FromVersionFirstBytes`, on the first eight encoded bytes. -/
def fromVersionFirstBytes (b : List UInt8) : List UInt8 :=
  let i (k : Nat) : UInt8 := b.getD k 0
  let hi (x : UInt8) : UInt8 := (x &&& 0xF0) >>> 4
  let lo (x : UInt8) : UInt8 := (x &&& 0x0F) <<< 4
  [lo (i 0) ||| hi (i 1), lo (i 1) ||| hi (i 2), lo (i 2) ||| hi (i 3), lo (i 3) ||| hi (i 4),
   lo (i 4) ||| hi (i 5), lo (i 5) ||| hi (i 6), (i 0 &&& 0xF0) ||| (i 6 &&& 0x0F), i 7]

/-- The most significant half `DecodeFromComparableSlice` rebuilds: the first encoded byte's high
nibble `1` marks a time UUID. -/
def msbFromComparable (bytes : List UInt8) : List UInt8 :=
  if (bytes.getD 0 0 &&& 0xF0) = 0x10 then fromTimestampBytes bytes else fromVersionFirstBytes bytes

theorem length_msbFromComparable (bytes : List UInt8) : (msbFromComparable bytes).length = 8 := by
  unfold msbFromComparable
  split <;> rfl

variable [UuidVersion]

/-- `EncodeToComparable`: the shuffled most significant half, then the other eight bytes. -/
def encodeToComparable (u : Uuid) : List UInt8 :=
  (if version u = versionTimeBased then u.toTimestampBytes else u.toVersionFirstBytes) ++
    u.data.drop kUuidMsbSize

/-- `DecodeFromComparableSlice`, with `size_hint == 0`. -/
def decodeFromComparableSlice (bytes : List UInt8) : Except String Uuid :=
  if h : bytes.length = kUuidSize then
    .ok ⟨msbFromComparable bytes ++ bytes.drop kUuidMsbSize, by
      simp only [List.length_append, List.length_drop, h, length_msbFromComparable, kUuidSize,
        kUuidMsbSize]⟩
  else .error "Decode error: Size of slice is invalid"

/-- The byte loops of `operator<`: the first index where the bytes differ decides. -/
def lessAt (a b : Uuid) : List Nat → Bool
  | [] => false
  | i :: is =>
    if a.byte i < b.byte i then true else if b.byte i < a.byte i then false else lessAt a b is

/-- `operator<`: by version, then the timestamp bytes (time UUIDs) or the most significant bytes
in order, then the least significant bytes. -/
def lt (a b : Uuid) : Bool :=
  if version a < version b then true
  else if version b < version a then false
  else if version a = versionTimeBased then
    lessAt a b [6, 7, 4, 5, 0, 1, 2, 3, 8, 9, 10, 11, 12, 13, 14, 15]
  else lessAt a b [0, 1, 2, 3, 4, 5, 6, 7, 8, 9, 10, 11, 12, 13, 14, 15]

/-- `IsNil`. -/
def IsNil (u : Uuid) : Bool := u.data.all (· == 0)

end Uuid

/-- The documented `version()` of a `boost::uuids::uuid`: the high nibble of byte 6 when it names
one of the versions 1 to 5, and `version_unknown` (`-1`) otherwise. -/
@[reducible] def nibbleVersion : UuidVersion where
  version u := if 1 ≤ (u.data.getD 6 0).toNat / 16 ∧ (u.data.getD 6 0).toNat / 16 ≤ 5
    then Int.ofNat ((u.data.getD 6 0).toNat / 16) else -1

set_option maxRecDepth 8192 in
theorem nibble_and_f0 (b : UInt8) : (b &&& 0xF0) = 0x10 ↔ b.toNat / 16 = 1 := by
  have hb := b.toNat_lt
  rw [← UInt8.toNat_inj, UInt8.toNat_and]
  have key : ∀ n < 256, (n &&& 240 = 16 ↔ n / 16 = 1) := by decide
  exact key b.toNat hb

theorem lawfulNibbleVersion : @LawfulUuidVersion nibbleVersion := by
  let _ := nibbleVersion
  constructor
  intro u
  rw [nibble_and_f0]
  show (if _ then _ else _) = _ ↔ _
  split
  · simp only [versionTimeBased, Int.ofNat_eq_natCast]
    exact Nat.cast_eq_one
  · rename_i h
    simp only [versionTimeBased]
    omega

end FrescoDB.Util
