import Mathlib

/-! The wire primitives of protocol buffers as `io/coded_stream` writes and reads them over an
array. A varint is groups of seven bits, the least significant first, with the top bit set on every
byte but the last. The writer emits the shortest form; the reader takes up to ten bytes and keeps
every group it reads, the caller keeping 32 or 64 bits of the value, so that it accepts forms the
writer never emits. A `CodedInputStream` reads up to the nearest of its pushed limit, its total
bytes limit and the end of the array; the position of every read is an advance within that. Unknown
fields are skipped by their wire type, a group up to its matching end tag. -/
namespace FrescoDB.Lib

/-- `kMaxVarintBytes`. -/
def kMaxVarintBytes : Nat := 10

/-- `INT_MAX`, which a limit takes for none. -/
def kIntMax : Nat := 2 ^ 31 - 1

/-- `WriteVarint64ToArray`: the groups of `value`, with at most `k` bytes after the first. -/
def varintBytes : Nat → Nat → List UInt8
  | 0, value => [value.toUInt8]
  | k + 1, value =>
    if value < 128 then [value.toUInt8] else (value % 128 + 128).toUInt8 :: varintBytes k (value / 128)

/-- `WriteVarint32ToArray`. -/
def writeVarint32 (value : UInt32) : List UInt8 := varintBytes 4 value.toNat

/-- `WriteVarint64ToArray`. -/
def writeVarint64 (value : UInt64) : List UInt8 := varintBytes 9 value.toNat

/-- `WriteVarint32SignExtendedToArray`: a negative `int32` is written as its 64-bit extension. -/
def writeVarint32SignExtended (value : Int32) : List UInt8 :=
  if value < 0 then writeVarint64 value.toInt64.toUInt64 else writeVarint32 value.toUInt32

/-- `VarintSize32`. -/
def varintSize32 (value : UInt32) : Nat :=
  if value < (1 : UInt32) <<< 7 then 1
  else if value < (1 : UInt32) <<< 14 then 2
  else if value < (1 : UInt32) <<< 21 then 3
  else if value < (1 : UInt32) <<< 28 then 4
  else 5

/-- `ReadVarint64Slow`, which `ReadVarint32FromArray` agrees with: the groups of the varint at the
front of `bytes` and the number of its bytes, at most `k`; `none` if the bytes end inside it or
it runs past `k` bytes. -/
def readVarintBytes : Nat → List UInt8 → Option (Nat × Nat)
  | 0, _ => none
  | _ + 1, [] => none
  | k + 1, b :: bytes =>
    if b < 128 then some (b.toNat, 1)
    else (readVarintBytes k bytes).map fun (value, n) => (b.toNat % 128 + 128 * value, n + 1)

/-- `kDefaultRecursionLimit`. -/
def kDefaultRecursionLimit : Nat := 100

/-- `kDefaultTotalBytesLimit` of this protobuf, 64 MB. -/
def kDefaultTotalBytesLimit : Nat := 64 * 1024 * 1024

structure CodedInputStream where
  buffer : List UInt8
  /-- `CurrentPosition()`. -/
  pos : Nat
  currentLimit : Nat
  totalBytesLimit : Nat
  deriving DecidableEq, Repr

namespace CodedInputStream

/-- `CodedInputStream(buffer, size)`. -/
def ofArray (buffer : List UInt8) : CodedInputStream :=
  ⟨buffer, 0, buffer.length, kDefaultTotalBytesLimit⟩

/-- `SetTotalBytesLimit`: a limit below the position is raised to it. -/
def setTotalBytesLimit (s : CodedInputStream) (totalBytesLimit : Int) : CodedInputStream :=
  { s with totalBytesLimit := (max (s.pos : Int) totalBytesLimit).toNat }

/-- `buffer_end_` as `RecomputeBufferLimits` leaves it. -/
def bufferEnd (s : CodedInputStream) : Nat :=
  min s.buffer.length (min s.currentLimit s.totalBytesLimit)

/-- The bytes from the position to `buffer_end_`; `BufferSize()` is their number. -/
def available (s : CodedInputStream) : List UInt8 := (s.buffer.take s.bufferEnd).drop s.pos

def advance (s : CodedInputStream) (n : Nat) : CodedInputStream := { s with pos := s.pos + n }

def readVarint32 (s : CodedInputStream) : Option (UInt32 × CodedInputStream) :=
  (readVarintBytes kMaxVarintBytes s.available).map fun (value, n) => (value.toUInt32, s.advance n)

def readVarint64 (s : CodedInputStream) : Option (UInt64 × CodedInputStream) :=
  (readVarintBytes kMaxVarintBytes s.available).map fun (value, n) => (value.toUInt64, s.advance n)

/-- `ReadTag`: `0` at the end and for a malformed tag. A malformed tag is read in place from a
buffer of ten bytes or more (`ReadVarint32FromArray`), and to the end of a shorter one
(`ReadTagSlow`). -/
def readTag (s : CodedInputStream) : Nat × CodedInputStream :=
  match readVarintBytes kMaxVarintBytes s.available with
  | some (tag, n) => (tag % 2 ^ 32, s.advance n)
  | none => (0, if kMaxVarintBytes ≤ s.available.length then s else s.advance s.available.length)

/-- `PushLimit`, with the limit it replaces: a limit that is negative or past `INT_MAX` is none,
and a limit never widens the one in force. -/
def pushLimit (s : CodedInputStream) (byteLimit : Int) : CodedInputStream × Nat :=
  let limit :=
    if 0 ≤ byteLimit ∧ byteLimit ≤ (kIntMax : Int) - s.pos then s.pos + byteLimit.toNat else kIntMax
  ({ s with currentLimit := min limit s.currentLimit }, s.currentLimit)

def popLimit (s : CodedInputStream) (limit : Nat) : CodedInputStream := { s with currentLimit := limit }

def bytesUntilLimit (s : CodedInputStream) : Int :=
  if s.currentLimit = kIntMax then -1 else (s.currentLimit : Int) - s.pos

def skip (s : CodedInputStream) (count : Int) : Option CodedInputStream :=
  if count < 0 then none
  else if count.toNat ≤ s.available.length then some (s.advance count.toNat) else none

end CodedInputStream

open CodedInputStream

/-- `WireFormatLite::GetTagWireType`. -/
def getTagWireType (tag : Nat) : Nat := tag % 8

/-- `WireFormatLite::GetTagFieldNumber`. -/
def getTagFieldNumber (tag : Nat) : Nat := tag / 8

/-- `WireFormatLite::MakeTag`. -/
def makeTag (fieldNumber wireType : Nat) : Nat := fieldNumber * 8 + wireType

mutual

/-- `WireFormat::SkipField`: the field after `tag`, at most `fuel` tags deep, with `budget`
levels of groups left (`IncrementRecursionDepth`). -/
def skipField : Nat → Nat → CodedInputStream → Nat → Option CodedInputStream
  | 0, _, _, _ => none
  | fuel + 1, budget, s, tag =>
    match getTagWireType tag with
    | 0 => (s.readVarint64).map (·.2)
    | 1 => s.skip 8
    | 2 => do
      let (length, s) ← s.readVarint32
      s.skip length.toInt32.toInt
    | 3 =>
      match budget with
      | 0 => none
      | budget + 1 => do
        let (s, lastTag) ← skipMessage fuel budget s
        -- `LastTagWas` the end of this group
        if lastTag = makeTag (getTagFieldNumber tag) 4 then some s else none
    | 5 => s.skip 4
    | _ => none

/-- `WireFormat::SkipMessage`: fields up to the end of the input or an end-group tag, which it
returns. -/
def skipMessage : Nat → Nat → CodedInputStream → Option (CodedInputStream × Nat)
  | 0, _, _ => none
  | fuel + 1, budget, s =>
    let (tag, s) := s.readTag
    if tag = 0 then some (s, 0)
    else if getTagWireType tag = 4 then some (s, tag)
    else do
      let s ← skipField fuel budget s tag
      skipMessage fuel budget s

end

-- Equation lemmas, made once before their uses.
section
attribute [local simp] varintBytes readVarintBytes CodedInputStream.advance skipField skipMessage
end

/-- `WireFormatLite::ReadPackedPrimitive` of `uint32` values, the loop at most `fuel` times. -/
def readPackedVarint32Loop : Nat → CodedInputStream → List UInt32 →
    Option (List UInt32 × CodedInputStream)
  | 0, _, _ => none
  | fuel + 1, s, values =>
    if 0 < s.bytesUntilLimit then do
      let (value, s) ← s.readVarint32
      readPackedVarint32Loop fuel s (values ++ [value])
    else some (values, s)

def readPackedVarint32 (s : CodedInputStream) : Option (List UInt32 × CodedInputStream) := do
  let (length, s) ← s.readVarint32
  let (s, limit) := s.pushLimit length.toInt32.toInt
  let (values, s) ← readPackedVarint32Loop (s.available.length + 1) s []
  pure (values, s.popLimit limit)

/-! ### Varints -/

theorem toNat_toUInt8_of_lt {n : Nat} (h : n < 256) : n.toUInt8.toNat = n := by
  simp [Nat.toUInt8, UInt8.toNat_ofNat', Nat.mod_eq_of_lt h]

theorem toUInt32_add (a b : Nat) : (a + b).toUInt32 = a.toUInt32 + b.toUInt32 :=
  UInt32.ofNat_add a b

theorem ofInt_natCast_toUInt32 (n : Nat) : UInt32.ofInt (n : Int) = n.toUInt32 := by
  unfold UInt32.ofInt
  simp only [Nat.toUInt32]
  apply UInt32.toNat_inj.mp
  simp only [UInt32.toNat_ofNat']
  omega

theorem toNat_toUInt32_of_lt {n : Nat} (h : n < 2 ^ 32) : n.toUInt32.toNat = n := by
  rw [Nat.toUInt32, UInt32.toNat_ofNat']
  omega

theorem toInt_toInt32_of_lt {n : Nat} (h : n < 2 ^ 31) : n.toUInt32.toInt32.toInt = n := by
  have hn : n.toUInt32.toBitVec.toNat = n := by
    rw [UInt32.toNat_toBitVec, Nat.toUInt32, UInt32.toNat_ofNat']
    omega
  rw [← Int32.toInt_toBitVec, UInt32.toBitVec_toInt32, BitVec.toInt_eq_toNat_of_lt (by omega), hn]

theorem toInt_toInt32_of_nonneg {u : UInt32} (h : ¬u.toInt32.toInt < 0) :
    u.toInt32.toInt = u.toNat ∧ u.toNat < 2 ^ 31 := by
  rw [← Int32.toInt_toBitVec, UInt32.toBitVec_toInt32, BitVec.toInt_eq_toNat_cond] at *
  rw [UInt32.toNat_toBitVec] at *
  have := u.toNat_lt
  split_ifs at * <;> omega

/-- `bytes` are one varint that `ReadVarint32` reads as `value`. -/
def ReadsVarint32 (bytes : List UInt8) (value : UInt32) : Prop :=
  ∃ raw, readVarintBytes kMaxVarintBytes bytes = some (raw, bytes.length) ∧ raw.toUInt32 = value

theorem readVarintBytes_append {k : Nat} {bytes : List UInt8} {value n : Nat} (rest : List UInt8)
    (h : readVarintBytes k bytes = some (value, n)) :
    readVarintBytes k (bytes ++ rest) = some (value, n) := by
  induction k generalizing bytes value n with
  | zero => simp [readVarintBytes] at h
  | succ k ih =>
    cases bytes with
    | nil => simp [readVarintBytes] at h
    | cons b bytes =>
      simp only [readVarintBytes, List.cons_append] at h ⊢
      split_ifs at h ⊢
      · exact h
      · obtain ⟨⟨v, m⟩, hv, hvm⟩ := Option.map_eq_some_iff.mp h
        rw [ih hv]
        simpa using hvm

theorem readVarintBytes_bounds {k : Nat} {bytes : List UInt8} {value n : Nat}
    (h : readVarintBytes k bytes = some (value, n)) : 1 ≤ n ∧ n ≤ bytes.length ∧ n ≤ k := by
  induction k generalizing bytes value n with
  | zero => simp [readVarintBytes] at h
  | succ k ih =>
    cases bytes with
    | nil => simp [readVarintBytes] at h
    | cons b bytes =>
      simp only [readVarintBytes] at h
      split_ifs at h
      · simp only [Option.some.injEq, Prod.mk.injEq] at h
        simp only [List.length_cons]
        omega
      · obtain ⟨⟨v, m⟩, hv, hvm⟩ := Option.map_eq_some_iff.mp h
        simp only [Prod.mk.injEq] at hvm
        have := ih hv
        simp only [List.length_cons]
        omega

theorem readVarintBytes_take {k : Nat} {bytes : List UInt8} {value n : Nat}
    (h : readVarintBytes k bytes = some (value, n)) :
    readVarintBytes k (bytes.take n) = some (value, n) := by
  induction k generalizing bytes value n with
  | zero => simp [readVarintBytes] at h
  | succ k ih =>
    cases bytes with
    | nil => simp [readVarintBytes] at h
    | cons b bytes =>
      simp only [readVarintBytes] at h
      split_ifs at h with hb
      · simp only [Option.some.injEq, Prod.mk.injEq] at h
        obtain ⟨rfl, rfl⟩ := h
        simp [readVarintBytes, hb]
      · obtain ⟨⟨v, m⟩, hv, hvm⟩ := Option.map_eq_some_iff.mp h
        simp only [Prod.mk.injEq] at hvm
        obtain ⟨rfl, rfl⟩ := hvm
        simp [readVarintBytes, hb, ih hv]

theorem readVarintBytes_varintBytes {j k value : Nat} (rest : List UInt8)
    (hv : value < 128 ^ (j + 1)) (hk : j < k) :
    readVarintBytes k (varintBytes j value ++ rest) = some (value, (varintBytes j value).length) := by
  induction j generalizing k value with
  | zero =>
    obtain ⟨k, rfl⟩ : ∃ k', k = k' + 1 := ⟨k - 1, by omega⟩
    have hb : value.toUInt8.toNat = value := toNat_toUInt8_of_lt (by omega)
    simp [varintBytes, readVarintBytes, UInt8.lt_iff_toNat_lt, hb, show value < 128 by omega]
  | succ j ih =>
    obtain ⟨k, rfl⟩ : ∃ k', k = k' + 1 := ⟨k - 1, by omega⟩
    by_cases hsmall : value < 128
    · have hb : value.toUInt8.toNat = value := toNat_toUInt8_of_lt (by omega)
      simp [varintBytes, readVarintBytes, UInt8.lt_iff_toNat_lt, hb, hsmall]
    · have hb : (value % 128 + 128).toUInt8.toNat = value % 128 + 128 :=
        toNat_toUInt8_of_lt (by omega)
      have hrest := @ih k (value / 128) (by rw [pow_succ] at hv; omega) (by omega)
      simp only [varintBytes, hsmall, if_false, List.cons_append, readVarintBytes,
        UInt8.lt_iff_toNat_lt, hb, hrest, List.length_cons]
      simp
      omega

theorem one_le_length_varintBytes (j value : Nat) : 1 ≤ (varintBytes j value).length := by
  cases j with
  | zero => simp [varintBytes]
  | succ j => unfold varintBytes; split <;> simp

theorem length_varintBytes_of_lt {j value : Nat} (h : value < 128) :
    (varintBytes j value).length = 1 := by
  cases j <;> simp [varintBytes, h]

theorem length_varintBytes_succ {j value : Nat} (h : 128 ≤ value) :
    (varintBytes (j + 1) value).length = (varintBytes j (value / 128)).length + 1 := by
  simp [varintBytes, show ¬ value < 128 by omega]

theorem length_writeVarint32 (value : UInt32) : (writeVarint32 value).length = varintSize32 value := by
  have hv := value.toNat_lt
  simp only [writeVarint32, varintSize32, UInt32.lt_iff_toNat_lt,
    show ((1 : UInt32) <<< 7).toNat = 128 from rfl, show ((1 : UInt32) <<< 14).toNat = 16384 from rfl,
    show ((1 : UInt32) <<< 21).toNat = 2097152 from rfl,
    show ((1 : UInt32) <<< 28).toNat = 268435456 from rfl]
  split_ifs <;>
    simp (disch := omega) only [length_varintBytes_succ, length_varintBytes_of_lt,
      Nat.div_div_eq_div_mul]

theorem readVarintBytes_writeVarint32 (value : UInt32) (rest : List UInt8) :
    readVarintBytes kMaxVarintBytes (writeVarint32 value ++ rest) =
      some (value.toNat, (writeVarint32 value).length) :=
  readVarintBytes_varintBytes rest (by have := value.toNat_lt; omega) (by decide)

theorem readVarintBytes_writeVarint64 (value : UInt64) (rest : List UInt8) :
    readVarintBytes kMaxVarintBytes (writeVarint64 value ++ rest) =
      some (value.toNat, (writeVarint64 value).length) :=
  readVarintBytes_varintBytes rest (by have := value.toNat_lt; omega) (by decide)

theorem toUInt32_toNat_signExtend (value : Int32) :
    value.toInt64.toUInt64.toNat.toUInt32 = value.toUInt32 := by
  apply UInt32.toNat_inj.mp
  have hext : value.toInt64.toUInt64.toNat = (value.toBitVec.signExtend 64).toNat := rfl
  have hlow : (value.toBitVec.setWidth 64).toNat = value.toBitVec.toNat := by
    have hlt := value.toBitVec.isLt
    simp only [BitVec.toNat_setWidth]
    omega
  rw [Nat.toUInt32, UInt32.toNat_ofNat', hext, BitVec.toNat_signExtend, hlow]
  have hlt := value.toBitVec.isLt
  show _ = value.toBitVec.toNat
  split <;> omega

theorem readVarintBytes_writeVarint32SignExtended (value : Int32) (rest : List UInt8) :
    ∃ raw, readVarintBytes kMaxVarintBytes (writeVarint32SignExtended value ++ rest) =
      some (raw, (writeVarint32SignExtended value).length) ∧ raw.toUInt32.toInt32 = value := by
  unfold writeVarint32SignExtended
  split
  · exact ⟨_, readVarintBytes_writeVarint64 _ rest, by
      rw [show (value.toInt64.toUInt64.toNat).toUInt32 = value.toUInt32 from toUInt32_toNat_signExtend value]
      exact Int32.toInt32_toUInt32 value⟩
  · exact ⟨_, readVarintBytes_writeVarint32 _ rest, by simp [Nat.toUInt32]⟩

/-! ### The stream -/
namespace CodedInputStream

variable {s s' s'' : CodedInputStream}

@[simp] theorem pos_advance (s : CodedInputStream) (n : Nat) : (s.advance n).pos = s.pos + n := rfl

@[simp] theorem buffer_advance (s : CodedInputStream) (n : Nat) : (s.advance n).buffer = s.buffer :=
  rfl

@[simp] theorem bufferEnd_advance (s : CodedInputStream) (n : Nat) :
    (s.advance n).bufferEnd = s.bufferEnd := rfl

@[simp] theorem advance_zero (s : CodedInputStream) : s.advance 0 = s := rfl

theorem advance_advance (s : CodedInputStream) (a b : Nat) :
    (s.advance a).advance b = s.advance (a + b) := by
  simp [advance, Nat.add_assoc]

@[simp] theorem available_advance (s : CodedInputStream) (n : Nat) :
    (s.advance n).available = s.available.drop n := by
  simp [available, List.drop_drop, Nat.add_comm]

theorem length_available (s : CodedInputStream) : s.available.length = s.bufferEnd - s.pos := by
  simp only [available, List.length_drop, List.length_take, bufferEnd]
  omega

theorem bufferEnd_setTotalBytesLimit_ofArray (b : List UInt8) (t : Int) :
    ((ofArray b).setTotalBytesLimit t).bufferEnd = min b.length (max 0 t).toNat := by
  simp [bufferEnd, setTotalBytesLimit, ofArray]

theorem available_eq_of_window {s : CodedInputStream} {p x r : List UInt8}
    (hbuf : s.buffer = p ++ x ++ r) (hpos : s.pos = p.length)
    (hend : s.bufferEnd = p.length + x.length) : s.available = x := by
  simp [available, hbuf, hpos, hend, List.take_append]

/-- `s'` is `s` read forward, within the bytes `s` has before its end. -/
def Advances (s s' : CodedInputStream) : Prop := ∃ n ≤ s.available.length, s' = s.advance n

theorem Advances.refl (s : CodedInputStream) : Advances s s := ⟨0, Nat.zero_le _, rfl⟩

theorem advances_advance {n : Nat} (h : n ≤ s.available.length) : Advances s (s.advance n) :=
  ⟨n, h, rfl⟩

theorem Advances.trans (h : Advances s s') (h' : Advances s' s'') : Advances s s'' := by
  obtain ⟨a, ha, rfl⟩ := h
  obtain ⟨b, hb, rfl⟩ := h'
  refine ⟨a + b, ?_, advance_advance s a b⟩
  simp only [available_advance, List.length_drop] at hb
  omega

theorem readVarint32_advances {value : UInt32} (h : s.readVarint32 = some (value, s')) :
    Advances s s' := by
  obtain ⟨⟨raw, n⟩, hr, heq⟩ := Option.map_eq_some_iff.mp h
  simp only [Prod.mk.injEq] at heq
  exact ⟨n, (readVarintBytes_bounds hr).2.1, heq.2.symm⟩

theorem readVarint64_advances {value : UInt64} (h : s.readVarint64 = some (value, s')) :
    Advances s s' := by
  obtain ⟨⟨raw, n⟩, hr, heq⟩ := Option.map_eq_some_iff.mp h
  simp only [Prod.mk.injEq] at heq
  exact ⟨n, (readVarintBytes_bounds hr).2.1, heq.2.symm⟩

theorem readTag_advances (s : CodedInputStream) : Advances s s.readTag.2 := by
  unfold readTag
  split
  · rename_i hr
    exact advances_advance (readVarintBytes_bounds hr).2.1
  · split
    · exact Advances.refl s
    · exact advances_advance le_rfl

theorem skip_advances {count : Int} (h : s.skip count = some s') : Advances s s' := by
  unfold skip at h
  split_ifs at h with hneg hle
  cases h
  exact advances_advance hle

theorem length_available_pushLimit_le (s : CodedInputStream) (byteLimit : Int) :
    (s.pushLimit byteLimit).1.available.length ≤ s.available.length := by
  simp only [length_available, pushLimit, bufferEnd]
  omega

theorem popLimit_advance_pushLimit (s : CodedInputStream) (byteLimit : Int) (n : Nat) :
    ((s.pushLimit byteLimit).1.advance n).popLimit (s.pushLimit byteLimit).2 = s.advance n := rfl

theorem advances_popLimit {byteLimit : Int} (h : Advances (s.pushLimit byteLimit).1 s') :
    Advances s (s'.popLimit (s.pushLimit byteLimit).2) := by
  obtain ⟨n, hn, rfl⟩ := h
  rw [popLimit_advance_pushLimit]
  exact advances_advance (le_trans hn (length_available_pushLimit_le s byteLimit))

/-! ### Reads -/

theorem readVarint32_eq_some {s s' : CodedInputStream} {value : UInt32} :
    s.readVarint32 = some (value, s') ↔ ∃ raw n,
      readVarintBytes kMaxVarintBytes s.available = some (raw, n) ∧ raw.toUInt32 = value ∧
        s' = s.advance n := by
  simp only [readVarint32, Option.map_eq_some_iff, Prod.mk.injEq, Prod.exists]
  constructor
  · rintro ⟨raw, n, h, rfl, rfl⟩
    exact ⟨raw, n, h, rfl, rfl⟩
  · rintro ⟨raw, n, h, rfl, rfl⟩
    exact ⟨raw, n, h, rfl, rfl⟩

theorem readVarint32_of_available {bytes rest : List UInt8} {raw : Nat}
    (h : s.available = bytes ++ rest)
    (hr : readVarintBytes kMaxVarintBytes bytes = some (raw, bytes.length)) :
    s.readVarint32 = some (raw.toUInt32, s.advance bytes.length) := by
  simp [readVarint32, h, readVarintBytes_append rest hr]

theorem readVarint64_of_available {bytes rest : List UInt8} {raw : Nat}
    (h : s.available = bytes ++ rest)
    (hr : readVarintBytes kMaxVarintBytes bytes = some (raw, bytes.length)) :
    s.readVarint64 = some (raw.toUInt64, s.advance bytes.length) := by
  simp [readVarint64, h, readVarintBytes_append rest hr]

theorem readVarint32_writeVarint32 {value : UInt32} {rest : List UInt8}
    (h : s.available = writeVarint32 value ++ rest) :
    s.readVarint32 = some (value, s.advance (writeVarint32 value).length) := by
  rw [readVarint32_of_available h (by simpa using readVarintBytes_writeVarint32 value [])]
  simp [Nat.toUInt32]

theorem readTag_of_available {b : UInt8} {rest : List UInt8} (h : s.available = b :: rest)
    (hb : b < 128) : s.readTag = (b.toNat, s.advance 1) := by
  simp [readTag, h, readVarintBytes, kMaxVarintBytes, hb]

theorem readTag_of_available_nil (h : s.available = []) : s.readTag = (0, s) := by
  simp [readTag, h, readVarintBytes, kMaxVarintBytes]

theorem skip_of_le {count : Nat} (h : count ≤ s.available.length) :
    s.skip count = some (s.advance count) := by
  simp [skip, h]

end CodedInputStream

open CodedInputStream

theorem skip_advances_of_fuel (fuel : Nat) :
    (∀ budget s tag s', skipField fuel budget s tag = some s' → Advances s s') ∧
    (∀ budget s s' lastTag, skipMessage fuel budget s = some (s', lastTag) → Advances s s') := by
  induction fuel with
  | zero => exact ⟨fun _ _ _ _ h => by simp [skipField] at h, fun _ _ _ _ h => by simp [skipMessage] at h⟩
  | succ fuel ih =>
    constructor
    · intro budget s tag s' h
      simp only [skipField] at h
      split at h
      · obtain ⟨⟨v, s1⟩, hr, rfl⟩ := Option.map_eq_some_iff.mp h
        exact readVarint64_advances hr
      · exact skip_advances h
      · obtain ⟨⟨length, s1⟩, hr, hskip⟩ := Option.bind_eq_some_iff.mp h
        exact (readVarint32_advances hr).trans (skip_advances hskip)
      · split at h
        · cases h
        · obtain ⟨⟨s1, lastTag⟩, hm, hend⟩ := Option.bind_eq_some_iff.mp h
          split_ifs at hend
          cases hend
          exact ih.2 _ _ _ _ hm
      · exact skip_advances h
      · cases h
    · intro budget s s' lastTag h
      simp only [skipMessage] at h
      split_ifs at h
      · cases h
        exact readTag_advances s
      · cases h
        exact readTag_advances s
      · obtain ⟨s1, hf, hm⟩ := Option.bind_eq_some_iff.mp h
        exact (readTag_advances s).trans ((ih.1 _ _ _ _ hf).trans (ih.2 _ _ _ _ hm))

theorem skipField_advances {fuel budget tag : Nat} {s s' : CodedInputStream}
    (h : skipField fuel budget s tag = some s') : Advances s s' :=
  (skip_advances_of_fuel fuel).1 _ _ _ _ h

theorem readPackedVarint32Loop_advances {fuel : Nat} {s s' : CodedInputStream}
    {values values' : List UInt32} (h : readPackedVarint32Loop fuel s values = some (values', s')) :
    Advances s s' := by
  induction fuel generalizing s values with
  | zero => simp [readPackedVarint32Loop] at h
  | succ fuel ih =>
    simp only [readPackedVarint32Loop] at h
    split_ifs at h
    · obtain ⟨⟨v, s1⟩, hr, hloop⟩ := Option.bind_eq_some_iff.mp h
      exact (readVarint32_advances hr).trans (ih hloop)
    · cases h
      exact Advances.refl _

theorem readPackedVarint32_advances {s s' : CodedInputStream} {values : List UInt32}
    (h : readPackedVarint32 s = some (values, s')) : Advances s s' := by
  obtain ⟨⟨length, s1⟩, hr, h⟩ := Option.bind_eq_some_iff.mp h
  obtain ⟨⟨values, s2⟩, hloop, h⟩ := Option.bind_eq_some_iff.mp h
  cases h
  exact (readVarint32_advances hr).trans (advances_popLimit (readPackedVarint32Loop_advances hloop))

end FrescoDB.Lib
