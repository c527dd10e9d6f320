import FrescoDB.Lib.BigEndian

/-! Fixed-width key encoders (`util/kv_util.h`), the big-endian loads and
stores they use (`gutil/endian.h`), and the comparison helpers of
`util/compare_util.h`. Floating-point values are carried as their bit
patterns, which is what the encoders read through `reinterpret_cast`. -/
namespace FrescoDB.Util

open FrescoDB.Lib

/-- `BigEndian::Store16`, `Store32`, `Store64`: the bytes written to the buffer. -/
def store16 (v : UInt16) : List UInt8 := toBytesBE 2 v.toNat
def store32 (v : UInt32) : List UInt8 := toBytesBE 4 v.toNat
def store64 (v : UInt64) : List UInt8 := toBytesBE 8 v.toNat

/-- `BigEndian::Load16`, `Load32`, `Load64` on the first bytes of a slice. -/
def load16 (p : List UInt8) : UInt16 := UInt16.ofNat (ofBytesBE (p.take 2))
def load32 (p : List UInt8) : UInt32 := UInt32.ofNat (ofBytesBE (p.take 4))
def load64 (p : List UInt8) : UInt64 := UInt64.ofNat (ofBytesBE (p.take 8))

/-- `kInt64SignBitFlipMask`, `kInt32SignBitFlipMask`. -/
def kInt64SignBitFlipMask : UInt64 := 0x8000000000000000
def kInt32SignBitFlipMask : UInt32 := 0x80000000

/-- `AppendInt32ToKey`. -/
def appendInt32ToKey (val : Int32) (dest : List UInt8) : List UInt8 :=
  dest ++ store32 (val.toUInt32 ^^^ kInt32SignBitFlipMask)

/-- `AppendBigEndianUInt32`. -/
def appendBigEndianUInt32 (u : UInt32) (dest : List UInt8) : List UInt8 := dest ++ store32 u

/-- `AppendFloatToKey` on the bits of `val`: negative values are complemented, the others get
their sign bit set; `descending` complements the result. -/
def appendFloatToKey (val : UInt32) (dest : List UInt8) (descending : Bool) : List UInt8 :=
  let v := if val >>> 31 ≠ 0 then ~~~val else val ^^^ kInt32SignBitFlipMask
  let v := if descending then ~~~v else v
  dest ++ store32 v

/-- `AppendDoubleToKey` on the bits of `val`. -/
def appendDoubleToKey (val : UInt64) (dest : List UInt8) (descending : Bool) : List UInt8 :=
  let v := if val >>> 63 ≠ 0 then ~~~val else val ^^^ kInt64SignBitFlipMask
  let v := if descending then ~~~v else v
  dest ++ store64 v

/-- `DecodeInt32FromKey`: the unsigned 32-bit value widened to `int64_t`. -/
def decodeInt32FromKey (slice : List UInt8) : Int64 :=
  (load32 slice ^^^ kInt32SignBitFlipMask).toUInt64.toInt64

/-- `DecodeInt64FromKey`. -/
def decodeInt64FromKey (slice : List UInt8) : Int64 :=
  (load64 slice ^^^ kInt64SignBitFlipMask).toInt64

/-- `DecodeDoubleFromKey`, returning the bits of the double. -/
def decodeDoubleFromKey (slice : List UInt8) (descending : Bool) : UInt64 :=
  let v := load64 slice
  let v := if descending then ~~~v else v
  if v >>> 63 ≠ 0 then v ^^^ kInt64SignBitFlipMask else ~~~v

/-- `DecodeFloatFromKey`, returning the bits of the float. -/
def decodeFloatFromKey (slice : List UInt8) (descending : Bool) : UInt32 :=
  let v := load32 slice
  let v := if descending then ~~~v else v
  if v >>> 31 ≠ 0 then v ^^^ kInt32SignBitFlipMask else ~~~v

/-- `AppendInt64ToKey`. -/
def appendInt64ToKey (val : Int64) (dest : List UInt8) : List UInt8 :=
  dest ++ store64 (val.toUInt64 ^^^ kInt64SignBitFlipMask)

/-- `AppendBigEndianUInt64`. -/
def appendBigEndianUInt64 (u : UInt64) (dest : List UInt8) : List UInt8 := dest ++ store64 u

/-- `CompareUsingLessThan`, for the `operator<` of the type, returned as an `Ordering`
(`-1`, `0`, `1`). -/
def compareUsingLessThan {α : Type} (lt : α → α → Bool) (a b : α) : Ordering :=
  if lt a b then .lt else if lt b a then .gt else .eq

-- Equation lemmas, made once before their uses.
section
attribute [local simp] compareUsingLessThan
end

/-- `CompareVectors`: element by element with `CompareTo`, then the shorter vector first. -/
def compareVectors {α : Type} (compareTo : α → α → Ordering) : List α → List α → Ordering
  | [], [] => .eq
  | [], _ :: _ => .lt
  | _ :: _, [] => .gt
  | a :: as, b :: bs =>
    match compareTo a b with
    | .eq => compareVectors compareTo as bs
    | r => r

theorem compareUsingLessThan_eq_compare {α : Type} [LinearOrder α] (a b : α) :
    compareUsingLessThan (fun x y => decide (x < y)) a b = compare a b := by
  unfold compareUsingLessThan
  rcases lt_trichotomy a b with h | h | h
  · simp [h, compare_lt_iff_lt.2 h]
  · simp [h]
  · simp [h, not_lt.2 h.le, compare_gt_iff_gt.2 h]

theorem load16_store16 (u : UInt16) (rest : List UInt8) : load16 (store16 u ++ rest) = u := by
  rw [load16, store16, List.take_left' (length_toBytesBE 2 _), ofBytesBE_toBytesBE,
    Nat.mod_eq_of_lt (show u.toNat < 256 ^ 2 from u.toNat_lt)]
  exact UInt16.ofNat_toNat

theorem load32_store32 (u : UInt32) (rest : List UInt8) : load32 (store32 u ++ rest) = u := by
  rw [load32, store32, List.take_left' (length_toBytesBE 4 _), ofBytesBE_toBytesBE,
    Nat.mod_eq_of_lt (show u.toNat < 256 ^ 4 from u.toNat_lt)]
  exact UInt32.ofNat_toNat

theorem load64_store64 (u : UInt64) (rest : List UInt8) : load64 (store64 u ++ rest) = u := by
  rw [load64, store64, List.take_left' (length_toBytesBE 8 _), ofBytesBE_toBytesBE,
    Nat.mod_eq_of_lt (show u.toNat < 256 ^ 8 from u.toNat_lt)]
  exact UInt64.ofNat_toNat

end FrescoDB.Util
