import FrescoDB.Util.VarIntText
import FrescoDB.Util.VarIntTwosComplement

/-! `util::Decimal` (`util/decimal.{h,cc}`): a decimal of any size and precision, held as its sign,
its digits and a `VarInt` exponent, the number `± 0.d₁d₂…dₖ × 10 ^ exponent`. A canonical decimal
has neither a leading nor a trailing zero digit, and zero is the positive decimal with no digits
and exponent zero. Here are the canonical form, the comparison, the comparable encoding of the
keys, the text, the serialized `BigDecimal` of the CQL wire, and the addition.

The digits are `uint8_t` in the source and `Nat` here. Every digit the source makes is below 13,
and the arithmetic on digits below 11 never leaves `uint8_t`. -/
namespace FrescoDB.Util

open FrescoDB.Lib

namespace VarInt

/-- `CompareTo`: `BN_cmp`. -/
def compareTo (a b : Int) : Int := if a < b then -1 else if a = b then 0 else 1

end VarInt

structure Decimal where
  digits : List Nat
  exponent : Int
  isPositive : Bool
  deriving DecidableEq, Repr

namespace Decimal

/-- `kDefaultMaxLength`. -/
def kDefaultMaxLength : Nat := 20

/-- `kUnlimitedMaxLength`: `std::numeric_limits<int>::max()`. -/
def kUnlimitedMaxLength : Nat := 2 ^ 31 - 1

/-- The value `clear` leaves. -/
def zero : Decimal := ⟨[], 0, true⟩

/-! ### The canonical form -/

/-- `is_canonical`. -/
def isCanonical (d : Decimal) : Bool :=
  match d.digits with
  | [] => d.isPositive && d.exponent == 0
  | first :: _ => first != 0 && d.digits.getLast? != some 0

/-- `while (!digits_.empty() && digits_.back() == 0) digits_.pop_back();` -/
def popTrailingZeros (digits : List Nat) : List Nat := (digits.reverse.dropWhile (· == 0)).reverse

/-- `make_canonical`. -/
def makeCanonical (d : Decimal) : Decimal :=
  if d.isCanonical then d
  else
    let numZeros := (d.digits.takeWhile (· == 0)).length
    -- the digits move `num_zeros` places to the front, and zeros fill the places they leave
    let digits := popTrailingZeros (d.digits.drop numZeros ++ List.replicate numZeros 0)
    if digits.isEmpty then zero else ⟨digits, d.exponent - numZeros, d.isPositive⟩

/-- The constructor `Decimal(digits, exponent, is_positive)`, which makes the value canonical. -/
def ofDigits (digits : List Nat) (exponent : Int) (isPositive : Bool) : Decimal :=
  makeCanonical ⟨digits, exponent, isPositive⟩

/-- `operator-`. -/
def neg (d : Decimal) : Decimal := ofDigits d.digits d.exponent (!d.isPositive)

/-- `Negate`: the sign flipped, the digits and the exponent kept as they are. -/
def negate (d : Decimal) : Decimal := { d with isPositive := !d.isPositive }

/-- `IsIdenticalTo`. -/
def isIdenticalTo (d other : Decimal) : Bool :=
  d.isPositive == other.isPositive && d.exponent == other.exponent && d.digits == other.digits

/-- `is_integer`. -/
def isInteger (d : Decimal) : Bool := d.digits.isEmpty || decide (d.exponent ≥ d.digits.length)

/-! ### Comparison -/

/-- The loop of `CompareTo` over the places both decimals have, then the difference of their
counts of digits; the places walked are equal, so the counts left differ by as much. -/
def compareDigits : List Nat → List Nat → Int
  | d :: ds, e :: es => if (d : Int) - e ≠ 0 then (d : Int) - e else compareDigits ds es
  | ds, es => (ds.length : Int) - es.length

/-- `CompareTo`. -/
def compareTo (d other : Decimal) : Int :=
  if d.isPositive != other.isPositive then (d.isPositive.toNat : Int) - other.isPositive.toNat
  -- zeros are compared apart: the exponent of zero is not the place of a first digit
  else if d.digits.isEmpty || other.digits.isEmpty then
    let comp := (d.digits.isEmpty.toNat : Int) - other.digits.isEmpty.toNat
    if d.isPositive then -comp else comp
  else
    let comp := VarInt.compareTo d.exponent other.exponent
    if comp ≠ 0 then (if d.isPositive then comp else -comp)
    else
      let comp := compareDigits d.digits other.digits
      if d.isPositive then comp else -comp

/-! ### Text -/

/-- `output.push_back(c)`, each push followed by the check of the length. -/
def pushChecked (maxLength : Nat) (output : List Char) : List Char → Except Status (List Char)
  | [] => .ok output
  | c :: cs =>
    if (output ++ [c]).length > maxLength then
      .error ⟨.kInvalidArgument, "Max length " ++ toString maxLength ++ " too small to encode Decimal"⟩
    else pushChecked maxLength (output ++ [c]) cs

/-- `ToPointString`. -/
def toPointString (d : Decimal) (maxLength : Nat := kDefaultMaxLength) :
    Except Status (List Char) :=
  if d.digits.isEmpty then .ok ['0']
  else do
    let exponent ← VarInt.toInt64 d.exponent
    if exponent > maxLength ∨ exponent < -(maxLength : Int) then
      throw ⟨.kInvalidArgument, "Max length " ++ toString maxLength ++
        " too small to encode decimal with exponent " ++ toString exponent⟩
    let output := if d.isPositive then [] else ['-']
    if exponent ≤ 0 then
      -- the point and the zeros after it are pushed unchecked, each digit checked
      pushChecked maxLength (output ++ '0' :: '.' :: List.replicate exponent.natAbs '0')
        (d.digits.map digitChar)
    else
      -- the point is pushed unchecked before the digit at the exponent's place, if there is one
      let (whole, fraction) := d.digits.splitAt exponent.toNat
      let output ← pushChecked maxLength output (whole.map digitChar)
      let output ← if fraction.isEmpty then pure output
        else pushChecked maxLength (output ++ ['.']) (fraction.map digitChar)
      pushChecked maxLength output (List.replicate (exponent.toNat - d.digits.length) '0')

/-- `ToScientificString`. -/
def toScientificString (d : Decimal) : List Char :=
  match d.digits with
  | [] => ['0']
  | first :: rest =>
    let exponent := d.exponent + -1
    (if d.isPositive then [] else ['-']) ++ digitChar first :: '.' :: rest.map digitChar ++
      'e' :: ((if exponent ≥ 0 then ['+'] else []) ++ VarInt.toString exponent)

/-- `ToString`: the point notation within the default length, the scientific one otherwise. -/
def toString (d : Decimal) : List Char :=
  match d.toPointString with
  | .ok output => output
  | .error _ => d.toScientificString

/-- The loop of `FromString` up to the first `e` or `E`, from position `i`: the digits, where the
first point stood, and what is left from the `e` on. -/
def fromStringLoop (slice : List Char) :
    Nat → List Char → Option Nat → List Nat → Except Status (List Nat × Option Nat × List Char)
  | _, [], pointPosition, digits => .ok (digits, pointPosition, [])
  | i, c :: cs, pointPosition, digits =>
    if c = 'e' ∨ c = 'E' then .ok (digits, pointPosition, c :: cs)
    else if c = '.' ∧ pointPosition.isNone then
      fromStringLoop slice (i + 1) cs (some digits.length) digits
    else if '0' ≤ c ∧ c ≤ '9' then
      fromStringLoop slice (i + 1) cs pointPosition (digits ++ [c.toNat - '0'.toNat])
    else
      .error ⟨.kInvalidArgument, "Invalid character " ++ String.singleton c ++ " found at position " ++
        ToString.toString i ++ " when parsing Decimal " ++ String.ofList slice⟩

-- Equation lemmas, made once before their uses.
section
attribute [local simp] zero popTrailingZeros isInteger toPointString fromStringLoop
end

/-- `FromString`. -/
def fromString (slice : List Char) : Except Status Decimal :=
  match slice with
  | [] => .error ⟨.kInvalidArgument, "Cannot decode empty slice to Decimal: "⟩
  | first :: tail => do
    let isPositive := first != '-'
    let (start, rest) := if first = '+' ∨ first = '-' then (1, tail) else (0, first :: tail)
    let (digits, pointFound, rest) ← fromStringLoop slice start rest none []
    if digits.isEmpty then
      throw ⟨.kInvalidArgument, "There are no digits in the decimal " ++ String.ofList slice ++
        " before the e / E"⟩
    let pointPosition := pointFound.getD digits.length
    let exponent ← match rest with
      | [] => pure 0
      | _ :: exponentText => VarInt.fromString exponentText
    pure (makeCanonical ⟨digits, exponent + pointPosition, isPositive⟩)

/-- `ToVarInt`. -/
def toVarInt (d : Decimal) : Except Status Int := do
  let stringVal ← d.toPointString kUnlimitedMaxLength
  if !d.isInteger then
    throw ⟨.kInvalidArgument,
      "Cannot convert non-integer Decimal into integer: " ++ String.ofList stringVal⟩
  VarInt.fromString stringVal

/-- `FromVarInt`. -/
def fromVarInt (v : Int) : Except Status Decimal := fromString (VarInt.toString v)

/-! ### The comparable encoding -/

/-- `EncodeToDigitPairs`: two digits a byte, doubled, the low bit set on every byte but the last;
an odd count of digits ends with a zero. -/
def encodeToDigitPairs : List Nat → List UInt8
  | [] => []
  | [d] => [UInt8.ofNat (d * 10 * 2)]
  | [d, e] => [UInt8.ofNat ((d * 10 + e) * 2)]
  | d :: e :: f :: rest => UInt8.ofNat ((d * 10 + e) * 2 + 1) :: encodeToDigitPairs (f :: rest)

/-- `EncodeToComparable`: the single byte `128` for zero; otherwise the exponent with two reserved
bits, both set, and the digit pairs, all complemented for a negative decimal. -/
def encodeToComparable (d : Decimal) : List UInt8 :=
  if d.digits.isEmpty then [128]
  else
    let output := VarInt.orHead 0xc0
      (VarInt.encodeToComparable d.exponent 2 ++ encodeToDigitPairs d.digits)
    if d.isPositive then output else VarInt.flipBits output

/-- The loop of `DecodeFromDigitPairs`: two digits from each byte, up to the first byte whose low
bit is clear; the digits and the count of bytes, `none` when no byte ends the run. -/
def decodeDigitPairsLoop : List UInt8 → Option (List Nat × Nat)
  | [] => none
  | byte :: rest =>
    let pair := (byte / 2).toNat
    if byte &&& 1 = 0 then some ([pair / 10, pair % 10], 1)
    else (decodeDigitPairsLoop rest).map fun (digits, n) => (pair / 10 :: pair % 10 :: digits, n + 1)

/-- `DecodeFromDigitPairs`: the digits without their trailing zeros, and the bytes taken. -/
def decodeFromDigitPairs (slice : List UInt8) : Except Status (List Nat × Nat) :=
  match decodeDigitPairsLoop slice with
  | none => .error ⟨.kCorruption, "Decoded the whole slice but didn\x27t find the ending"⟩
  | some (digits, numDecodedBytes) => .ok (popTrailingZeros digits, numDecodedBytes)

/-- `DecodeFromComparable(slice, num_decoded_bytes)`: the decimal and the bytes it took. -/
def decodeFromComparable (slice : List UInt8) : Except Status (Decimal × Nat) :=
  match slice with
  | [] => .error ⟨.kCorruption, "Cannot decode Decimal from empty slice."⟩
  | first :: _ =>
    if first = 128 then .ok (zero, 1)
    else
      let isPositive := decide (first ≥ 128)
      -- a negative decimal is read from the complement of the whole slice
      let encoded := if isPositive then slice else VarInt.flipBits slice
      match VarInt.decodeFromComparable encoded 2 with
      | .error message => .error ⟨.kCorruption, message⟩
      | .ok (exponent, numExponentBytes) =>
        match decodeFromDigitPairs (encoded.drop numExponentBytes) with
        | .error s => .error s
        | .ok (digits, numMantissaBytes) =>
          .ok (⟨digits, exponent, isPositive⟩, numExponentBytes + numMantissaBytes)

/-! ### The serialized `BigDecimal` -/

/-- `EncodeToSerializedBigDecimal`: the bytes and whether the scale is out of range; `none` where
`CHECK_RESULT` fails to read the digits back as a number. The scale is `digits - exponent` in four
bytes of two's complement, then the signed mantissa. -/
def encodeToSerializedBigDecimal (d : Decimal) : Option (List UInt8 × Bool) := do
  let varintScale : Int := d.digits.length - d.exponent
  let scale := VarInt.encodeToTwosComplement varintScale
  if scale.length > 4 then return ([], true)
  let scale := List.replicate (4 - scale.length) (if varintScale < 0 then 0xff else 0) ++ scale
  let temp ← if d.digits.isEmpty then some 0
    else (VarInt.fromString (d.digits.map digitChar)).toOption
  let temp := if d.isPositive then temp else -temp
  return (scale ++ VarInt.encodeToTwosComplement temp, false)

/-- `DecodeFromSerializedBigDecimal`. -/
def decodeFromSerializedBigDecimal (slice : List UInt8) : Except Status Decimal := do
  if slice.length < 5 then
    throw ⟨.kCorruption, "Serialized BigDecimal must have at least 5 bytes. Found " ++
      ToString.toString slice.length⟩
  let scale ← VarInt.decodeFromTwosComplement (slice.take 4)
  let mantissa ← VarInt.decodeFromTwosComplement (slice.drop 4)
  let negative := decide (mantissa < 0)
  -- the digits of the magnitude, after `Negate`
  let digits := (VarInt.toString (mantissa.natAbs : Int)).map fun c => c.toNat - '0'.toNat
  pure (makeCanonical ⟨digits, digits.length - scale, !negative⟩)

/-! ### Addition -/

/-- The digits moved to a larger exponent, `insert(begin, increase, 0)`; `none` where the increase
does not fit in `int64_t` and `CHECK_RESULT` fails. -/
def alignExponent (d : Decimal) (maxExponent : Int) : Option Decimal :=
  if d.exponent < maxExponent then
    match VarInt.toInt64 (maxExponent - d.exponent) with
    | .error _ => none
    | .ok increase =>
      some { d with digits := List.replicate increase.toNat 0 ++ d.digits, exponent := maxExponent }
  else some d

/-- Zeros pushed at the back up to `maxDigits` digits. -/
def padDigits (d : Decimal) (maxDigits : Nat) : Decimal :=
  { d with digits := d.digits ++ List.replicate (maxDigits - d.digits.length) 0 }

/-- One turn of the loop of `operator+` for two signs alike, at index `i`: the other digit is added,
and ten is carried into the digit before, or into a new first digit that raises the exponent. -/
def addAt (other : List Nat) (i : Nat) (state : List Nat × Int) : List Nat × Int :=
  let digits := state.1.modify i (· + other.getD i 0)
  if digits.getD i 0 > 9 then
    let digits := digits.modify i (· - 10)
    match i with
    | 0 => (1 :: digits, state.2 + 1)
    | j + 1 => (digits.modify j (· + 1), state.2)
  else (digits, state.2)

/-- The loop from the last index down to the first. -/
def addLoop (other : List Nat) : Nat → List Nat × Int → List Nat × Int
  | 0, state => state
  | i + 1, state => addLoop other i (addAt other i state)

/-- The first loop for two signs apart: the first difference of digits, zero if there is none. -/
def compareMantissas : List Nat → List Nat → Int
  | d :: ds, e :: es => if (d : Int) - e ≠ 0 then (d : Int) - e else compareMantissas ds es
  | _, _ => 0

/-- One turn of the subtracting loop at index `i`: the other digit is subtracted, borrowing ten by
raising the other's digit before; `none` where that digit would be before the first. -/
def subtractAt (i : Nat) (state : List Nat × List Nat) : Option (List Nat × List Nat) :=
  let (digits, other) := state
  if digits.getD i 0 ≥ other.getD i 0 then some (digits.modify i (· - other.getD i 0), other)
  else
    match i with
    | 0 => none
    | j + 1 => some (digits.modify i (· + 10 - other.getD i 0), other.modify j (· + 1))

def subtractLoop : Nat → List Nat × List Nat → Option (List Nat × List Nat)
  | 0, state => some state
  | i + 1, state => subtractAt i state >>= subtractLoop i

/-- `operator+`; `none` where a `CHECK` fails or a borrow would write before the first digit. -/
def add (d other : Decimal) : Option Decimal := do
  let decimal := ofDigits d.digits d.exponent d.isPositive
  let other1 := ofDigits other.digits other.exponent other.isPositive
  let maxExponent := max other1.exponent decimal.exponent
  let decimal ← alignExponent decimal maxExponent
  let other1 ← alignExponent other1 maxExponent
  let maxDigits := max decimal.digits.length other1.digits.length
  let decimal := padDigits decimal maxDigits
  let other1 := padDigits other1 maxDigits
  if decimal.isPositive = other1.isPositive then
    let (digits, exponent) := addLoop other1.digits maxDigits (decimal.digits, decimal.exponent)
    pure (makeCanonical ⟨digits, exponent, decimal.isPositive⟩)
  else
    -- the larger mantissa goes first, and its sign is the sign of the sum
    let (first, second, isPositive) :=
      if compareMantissas decimal.digits other1.digits < 0 then
        (other1.digits, decimal.digits, !decimal.isPositive)
      else (decimal.digits, other1.digits, decimal.isPositive)
    let (digits, _) ← subtractLoop maxDigits (first, second)
    pure (makeCanonical ⟨digits, decimal.exponent, isPositive⟩)

end Decimal

end FrescoDB.Util
