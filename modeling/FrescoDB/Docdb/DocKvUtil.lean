import FrescoDB.Lib.Escape
import FrescoDB.Util.KvUtil
import FrescoDB.Util.FastVarint

/-! String and small-integer key encoders of `docdb/doc_kv_util.{h,cc}`.
Strings are escaped with end byte `'\0'` (ascending) or `'\xff'` (descending)
and terminated by two end bytes; the decoder also accepts a string that the
slice ends in before any terminator. -/
namespace FrescoDB.Docdb

open FrescoDB.Lib FrescoDB.Util

/-- `AppendUInt16ToKey`. -/
def appendUInt16ToKey (val : UInt16) (dest : List UInt8) : List UInt8 := dest ++ store16 val

/-- `AppendUInt32ToKey`. -/
def appendUInt32ToKey (val : UInt32) (dest : List UInt8) : List UInt8 := dest ++ store32 val

/-- `AppendColumnIdToKey`: `FastAppendSignedVarIntToStr(val.rep())`. -/
def appendColumnIdToKey (val : Int32) (dest : List UInt8) : List UInt8 :=
  dest ++ fastEncodeSignedVarInt val.toInt64

/-- `AppendEncodedStrToKey<END_OF_STRING>`, with its fast path for `'\0'`. -/
def appendEncodedStrToKey (endOfString : UInt8) (s dest : List UInt8) : List UInt8 :=
  if endOfString = 0 ∧ 0 ∉ s then dest ++ s
  else dest ++ s.flatMap fun c =>
    if c = 0 then [endOfString, endOfString ^^^ 1] else [endOfString ^^^ c]

/-- `AppendZeroEncodedStrToKey`, `AppendComplementZeroEncodedStrToKey`. -/
def appendZeroEncodedStrToKey (s dest : List UInt8) : List UInt8 := appendEncodedStrToKey 0 s dest
def appendComplementZeroEncodedStrToKey (s dest : List UInt8) : List UInt8 :=
  appendEncodedStrToKey 0xff s dest

/-- `TerminateEncodedKeyStr<A>`. -/
def terminateEncodedKeyStr (a : UInt8) (dest : List UInt8) : List UInt8 := dest ++ [a, a]

/-- `ZeroEncodeAndAppendStrToKey`. -/
def zeroEncodeAndAppendStrToKey (s dest : List UInt8) : List UInt8 :=
  terminateEncodedKeyStr 0 (appendZeroEncodedStrToKey s dest)

/-- `ComplementZeroEncodeAndAppendStrToKey`. -/
def complementZeroEncodeAndAppendStrToKey (s dest : List UInt8) : List UInt8 :=
  terminateEncodedKeyStr 0xff (appendComplementZeroEncodedStrToKey s dest)

/-- Two hex digits, as `%02x` prints them. -/
def hex2 (b : UInt8) : String :=
  let d (n : Nat) : Char := if n < 10 then Char.ofNat (48 + n) else Char.ofNat (87 + n)
  String.ofList [d (b.toNat / 16), d (b.toNat % 16)]

/-- `DecodeEncodedStr<END_OF_STRING>`: the decoded string and the rest of the slice. -/
def decodeEncodedStr (endOfString : UInt8) : List UInt8 → Except String (List UInt8 × List UInt8)
  | [] => .ok ([], [])
  | p :: rest =>
    if p = endOfString then
      match rest with
      | [] => .error ("Encoded string ends with only one \\0x" ++ hex2 endOfString ++ " ")
      | q :: rest =>
        if q = endOfString then .ok ([], rest)
        else if q = endOfString ^^^ 1 then
          (decodeEncodedStr endOfString rest).map fun r => ((endOfString ^^^ endOfString) :: r.1, r.2)
        else .error ("Invalid sequence in encoded string: \\0x" ++ hex2 endOfString ++ "\\0x" ++
          hex2 q ++ " (must be either \\0x" ++ hex2 endOfString ++ "\\0x" ++ hex2 endOfString ++
          " or \\0x" ++ hex2 endOfString ++ "\\0x" ++ hex2 (endOfString ^^^ 1) ++ ")")
    else (decodeEncodedStr endOfString rest).map fun r => ((p ^^^ endOfString) :: r.1, r.2)

/-- `DecodeZeroEncodedStr`, `DecodeComplementZeroEncodedStr`. -/
def decodeZeroEncodedStr (slice : List UInt8) : Except String (List UInt8 × List UInt8) :=
  decodeEncodedStr 0 slice
def decodeComplementZeroEncodedStr (slice : List UInt8) : Except String (List UInt8 × List UInt8) :=
  decodeEncodedStr 0xff slice

theorem flatMap_escapeByte_zero {s : List UInt8} (hs : 0 ∉ s) : s.flatMap (escapeByte 0) = s := by
  induction s with
  | nil => rfl
  | cons c s ih =>
    have hc : c ≠ 0 := fun h => hs (h ▸ List.mem_cons_self)
    simp only [List.flatMap_cons, escapeByte, hc, if_false, UInt8.zero_xor,
      List.singleton_append, ih (fun h => hs (List.mem_cons_of_mem c h))]

theorem appendEncodedStrToKey_eq (e : UInt8) (s dest : List UInt8) :
    terminateEncodedKeyStr e (appendEncodedStrToKey e s dest) = dest ++ escapeEncode e s := by
  unfold appendEncodedStrToKey terminateEncodedKeyStr escapeEncode
  split
  · rename_i h
    obtain ⟨rfl, hs⟩ := h
    rw [flatMap_escapeByte_zero hs, List.append_assoc]
  · rw [List.append_assoc]
    rfl

theorem zeroEncodeAndAppendStrToKey_eq (s dest : List UInt8) :
    zeroEncodeAndAppendStrToKey s dest = dest ++ escapeEncode 0 s :=
  appendEncodedStrToKey_eq 0 s dest

theorem complementZeroEncodeAndAppendStrToKey_eq (s dest : List UInt8) :
    complementZeroEncodeAndAppendStrToKey s dest = dest ++ escapeEncode 0xff s :=
  appendEncodedStrToKey_eq 0xff s dest

theorem xor_one_ne (e : UInt8) : e ^^^ 1 ≠ e := by
  intro h
  have h' : e ^^^ 1 ^^^ e = e ^^^ e := by rw [h]
  rw [UInt8.xor_assoc, UInt8.xor_comm 1 e, ← UInt8.xor_assoc, UInt8.xor_self,
    UInt8.zero_xor] at h'
  exact absurd h' (by decide)

theorem xor_ne_self {e c : UInt8} (hc : c ≠ 0) : e ^^^ c ≠ e := by
  intro h
  apply hc
  have h' : e ^^^ (e ^^^ c) = e ^^^ e := by rw [h]
  rwa [← UInt8.xor_assoc, UInt8.xor_self, UInt8.zero_xor] at h'

theorem decodeEncodedStr_escapeEncode (e : UInt8) (s rest : List UInt8) :
    decodeEncodedStr e (escapeEncode e s ++ rest) = .ok (s, rest) := by
  induction s with
  | nil => simp [decodeEncodedStr]
  | cons c s ih =>
    rw [escapeEncode_cons, List.append_assoc]
    by_cases hc : c = 0
    · subst hc
      simp only [escapeByte, if_true, List.cons_append, List.nil_append, decodeEncodedStr,
        xor_one_ne, if_false, ih, UInt8.xor_self]
      rfl
    · have hcancel : e ^^^ c ^^^ e = c := by
        rw [UInt8.xor_comm, ← UInt8.xor_assoc, UInt8.xor_self, UInt8.zero_xor]
      simp only [escapeByte, hc, if_false, List.cons_append, List.nil_append]
      rw [decodeEncodedStr.eq_def]
      simp only [xor_ne_self hc, if_false, ih, hcancel]
      rfl

end FrescoDB.Docdb
