import FrescoDB.Lib.Regex
import FrescoDB.Util.StolUtils
import FrescoDB.Util.VarIntText

/-! `DateTime` (`util/date_time.cc`): timestamps, dates and times of day read from text and
written to it. `TimestampFromString` tries the regular expressions of `CqlInputFormat` in order,
reads the fields of the first that matches and hands them, with the zone `GetTimezone` makes of
the last group, to Boost's `posix_time_zone` and `local_date_time`. Boost, ICU and the machine's
clock are not translated: they are the fields of a `TimestampEnv`. `TimeFromString` and
`TimeToString` use only the standard library and are translated whole. -/
namespace FrescoDB.Util

open FrescoDB.Lib Regex

namespace DateTime

/-! ### Text -/

/-- `\d`. -/
def digit : Regex Char := .set Char.isDigit

def literal (c : Char) : Regex Char := .set (· == c)

/-- `.`: any character but a line terminator. -/
def anyChar (c : Char) : Bool :=
  !(c == '\n' || c == '\r' || c == Char.ofNat 0x2028 || c == Char.ofNat 0x2029)

/-- `std::stoi` of a run of decimal digits, the only text the callers pass it. -/
def stoi (s : List Char) : Int := digitsValue (s.map fun c => c.toNat - '0'.toNat)

/-- `snprintf`'s `%+W.Pd` (with `plus`) or `%W.Pd` of an `int`, for a width `W` no larger than
the precision `P`: the sign, then the digits of the magnitude, zero-padded to `P` places. -/
def printfInt (plus : Bool) (precision : Nat) (n : Int) : List Char :=
  let digits := decimalDigits n.natAbs
  let sign := if n < 0 then ['-'] else if plus then ['+'] else []
  sign ++ (List.replicate (precision - digits.length) 0 ++ digits).map digitChar

/-- `AdjustPrecision`: the first loop multiplies by ten up to the output precision and stops at
the bound of `int64_t` it would pass; the second divides by ten, truncating, down to it. -/
def scaleUp (val : Int) : Nat → Int
  | 0 => val
  | n + 1 =>
    if val > int64Max.tdiv 10 then int64Max
    else if val < int64Min.tdiv 10 then int64Min
    else scaleUp (val * 10) n

def scaleDown (val : Int) : Nat → Int
  | 0 => val
  | n + 1 => scaleDown (val.tdiv 10) n

def adjustPrecision (val inputPrecision outputPrecision : Int) : Int :=
  if inputPrecision < outputPrecision then scaleUp val (outputPrecision - inputPrecision).toNat
  else scaleDown val (inputPrecision - outputPrecision).toNat

/-- `kInternalPrecision`: microseconds. -/
def kInternalPrecision : Int := 6

/-- `time_duration::num_fractional_digits()` of Boost's default microsecond resolution. -/
def numFractionalDigits : Int := 6

/-! ### `CqlInputFormat` -/

/-- `"()"`: an empty group; its number is where it stands in the joined pattern. -/
def fmtEmpty (index : Nat) : Regex Char := .group index .empty

/-- `"(\\d{4})-(\\d{1,2})-(\\d{1,2})"`. -/
def dateFmt : Regex Char :=
  seqs [.group 1 (rep digit 4 4), literal '-', .group 2 (rep digit 1 2), literal '-',
    .group 3 (rep digit 1 2)]

/-- `"(\\d{1,2}):(\\d{1,2}):(\\d{1,2})"`. -/
def timeFmt : Regex Char :=
  seqs [.group 4 (rep digit 1 2), literal ':', .group 5 (rep digit 1 2), literal ':',
    .group 6 (rep digit 1 2)]

/-- `"(\\d{1,2}):(\\d{1,2})" + fmt_empty`. -/
def timeFmtNoSec : Regex Char :=
  seqs [.group 4 (rep digit 1 2), literal ':', .group 5 (rep digit 1 2), fmtEmpty 6]

/-- `fmt_empty + fmt_empty + fmt_empty`. -/
def timeEmpty : Regex Char := seqs [fmtEmpty 4, fmtEmpty 5, fmtEmpty 6]

/-- `"\\.(\\d{1,3})"`. -/
def fracFmt : Regex Char := seqs [literal '.', .group 7 (rep digit 1 3)]

/-- `"((?:\\+|-)\\d{2}:?\\d{2})"`: an offset, `+HH:MM` or `+HHMM`. -/
def tzXFmt : Regex Char :=
  .group 8 (seqs [.alt (literal '+') (literal '-'), rep digit 2 2, .opt (literal ':'),
    rep digit 2 2])

/-- `"([zZ])"`: Zulu time. -/
def tzYFmt : Regex Char := .group 8 (.set fun c => c == 'z' || c == 'Z')

/-- `" ([a-zA-Z\\+].+)"`: a name or offset after a space. -/
def tzZFmt : Regex Char :=
  seqs [literal ' ', .group 8 (seqs [.set fun c => c.isAlpha || c == '+', .set anyChar,
    .star anyChar])]

structure InputFormat where
  regexes : List (Regex Char)
  inputPrecision : Int

/-- `CqlInputFormat`, its expressions in the order they are tried. -/
def cqlInputFormat : InputFormat where
  regexes := [
    seqs [dateFmt, literal ' ', timeFmtNoSec, fmtEmpty 7, fmtEmpty 8],
    seqs [dateFmt, literal ' ', timeFmtNoSec, fmtEmpty 7, tzXFmt],
    seqs [dateFmt, literal ' ', timeFmtNoSec, fmtEmpty 7, tzYFmt],
    seqs [dateFmt, literal ' ', timeFmtNoSec, fmtEmpty 7, tzZFmt],
    seqs [dateFmt, literal ' ', timeFmtNoSec, fracFmt, fmtEmpty 8],
    seqs [dateFmt, literal ' ', timeFmtNoSec, fracFmt, tzXFmt],
    seqs [dateFmt, literal ' ', timeFmtNoSec, fracFmt, tzYFmt],
    seqs [dateFmt, literal ' ', timeFmtNoSec, fracFmt, tzZFmt],
    seqs [dateFmt, literal ' ', timeFmt, fmtEmpty 7, fmtEmpty 8],
    seqs [dateFmt, literal ' ', timeFmt, fmtEmpty 7, tzXFmt],
    seqs [dateFmt, literal ' ', timeFmt, fmtEmpty 7, tzYFmt],
    seqs [dateFmt, literal ' ', timeFmt, fmtEmpty 7, tzZFmt],
    seqs [dateFmt, literal ' ', timeFmt, fracFmt, fmtEmpty 8],
    seqs [dateFmt, literal ' ', timeFmt, fracFmt, tzXFmt],
    seqs [dateFmt, literal ' ', timeFmt, fracFmt, tzYFmt],
    seqs [dateFmt, literal ' ', timeFmt, fracFmt, tzZFmt],
    seqs [dateFmt, literal 'T', timeFmtNoSec, fmtEmpty 7, fmtEmpty 8],
    seqs [dateFmt, literal 'T', timeFmtNoSec, fmtEmpty 7, tzXFmt],
    seqs [dateFmt, literal 'T', timeFmtNoSec, fmtEmpty 7, tzYFmt],
    seqs [dateFmt, literal 'T', timeFmtNoSec, fmtEmpty 7, tzZFmt],
    seqs [dateFmt, literal 'T', timeFmtNoSec, fracFmt, fmtEmpty 8],
    seqs [dateFmt, literal 'T', timeFmtNoSec, fracFmt, tzXFmt],
    seqs [dateFmt, literal 'T', timeFmtNoSec, fracFmt, tzYFmt],
    seqs [dateFmt, literal 'T', timeFmtNoSec, fracFmt, tzZFmt],
    seqs [dateFmt, literal 'T', timeFmt, fmtEmpty 7, fmtEmpty 8],
    seqs [dateFmt, literal 'T', timeFmt, fmtEmpty 7, tzXFmt],
    seqs [dateFmt, literal 'T', timeFmt, fmtEmpty 7, tzYFmt],
    seqs [dateFmt, literal 'T', timeFmt, fmtEmpty 7, tzZFmt],
    seqs [dateFmt, literal 'T', timeFmt, fracFmt, fmtEmpty 8],
    seqs [dateFmt, literal 'T', timeFmt, fracFmt, tzXFmt],
    seqs [dateFmt, literal 'T', timeFmt, fracFmt, tzYFmt],
    seqs [dateFmt, literal 'T', timeFmt, fracFmt, tzZFmt],
    seqs [dateFmt, timeEmpty, fmtEmpty 7, fmtEmpty 8],
    seqs [dateFmt, timeEmpty, fmtEmpty 7, tzXFmt],
    seqs [dateFmt, timeEmpty, fmtEmpty 7, tzYFmt],
    seqs [dateFmt, timeEmpty, fmtEmpty 7, tzZFmt]]
  -- Cassandra's current default
  inputPrecision := 3

/-! ### Timestamps -/

/-- What `TimestampFromString` takes from the machine and from Boost and ICU. -/
structure TimestampEnv where
  /-- `GetSystemTimezone()`: the machine's offset from UTC now, as `+HH:MM`. -/
  systemTimezone : List Char
  /-- `TimeZone::createTimeZone(id)` and its `getRawOffset()` in milliseconds; `none` for
  `TimeZone::getUnknown()`. -/
  icuRawOffset : List Char → Option Int
  /-- `gregorian::date(year, month, day)`: the day, or the `what()` of what it throws. -/
  gregorianDate : Int → Int → Int → Except String Int
  /-- `posix_time_zone(zone)`, then `local_date_time` of the day and of the `time_duration` of
  hours, minutes, seconds and fractional seconds, less `kEpoch`, in microseconds; or the
  `what()` of what they throw. -/
  localTimestamp : List Char → Int → Int → Int → Int → Int → Except String Int
  /-- `FLAGS_use_icu_timezones`, true by default. -/
  useIcuTimezones : Bool

/-- `STATUS(InvalidArgument, "Invalid timestamp", msg2)`. -/
def invalidTimestamp (msg2 : String) : Status :=
  ⟨.kInvalidArgument, Status.joinMessages "Invalid timestamp" msg2⟩

/-- The ICU end of `GetTimezone`: the raw offset of the zone ICU names, as `+HH:MM`. -/
def icuTimezone (env : TimestampEnv) (timezoneID : List Char) : Except Status (List Char) :=
  match env.icuRawOffset timezoneID with
  | none =>
    let id := String.ofList timezoneID
    .error ⟨.kInvalidArgument, "Invalid Timezone: " ++ id ++
      "\nUse standardized timezone such as \"America/New_York\" or offset such as UTC-07:00."⟩
  | some rawOffset =>
    -- `time_duration::hours()` and `minutes()` of `milliseconds(rawOffset)` truncate toward zero
    let hours := rawOffset.tdiv 3600000
    let minutes := (rawOffset.tdiv 60000).tmod 60
    let buffer := printfInt true 2 hours ++ ':' :: printfInt false 2 minutes.natAbs
    -- `snprintf` into `char buffer[7]`
    if buffer.length ≥ 7 then
      .error ⟨.kCorruption, "Parsing timezone into timezone offset string failed"⟩
    else .ok buffer

/-- `(?:\\+|-)(\\d{2})(\\d{2})`: the offset without a colon that `GetTimezone` rewrites. -/
def offsetWithoutColon : Regex Char :=
  seqs [.alt (literal '+') (literal '-'), .group 1 (rep digit 2 2), .group 2 (rep digit 2 2)]

/-- `GetTimezone`: the zone as `posix_time_zone` is to read it. -/
def getTimezone (env : TimestampEnv) (timezoneID : List Char) : Except Status (List Char) :=
  if timezoneID.isEmpty then .ok env.systemTimezone
  else if timezoneID = ['z'] ∨ timezoneID = ['Z'] then icuTimezone env "GMT".toList
  else
    match regexMatch offsetWithoutColon timezoneID with
    | some m => .ok (capture timezoneID m 1 ++ ':' :: capture timezoneID m 2)
    | none =>
      if timezoneID.head? = some '+' ∨ timezoneID.head? = some '-' ∨
          timezoneID.take 3 = "UTC".toList then .ok timezoneID
      else icuTimezone env timezoneID

/-- The number of a group, `0` when it is empty. -/
def fieldOrZero (field : List Char) : Int := if field.isEmpty then 0 else stoi field

/-- The zone `posix_time_zone` is given for the last group. -/
def zoneOfGroup (env : TimestampEnv) (zoneGroup : List Char) : Except Status (List Char) :=
  if env.useIcuTimezones then getTimezone env zoneGroup
  else .ok (if zoneGroup.isEmpty then env.systemTimezone else zoneGroup)

/-- The `try` block of `TimestampFromString`: the date, then the zone, then the instant Boost
makes of the date, the time of day and the zone. -/
def timestampOfFields (env : TimestampEnv) (year month day hours minutes seconds frac : Int)
    (zone : Except Status (List Char)) : Except Status Int :=
  match env.gregorianDate year month day with
  | .error what => .error (invalidTimestamp what)
  | .ok d =>
    match zone with
    | .error status => .error status
    | .ok zone =>
      match env.localTimestamp zone d hours minutes seconds frac with
      | .error what => .error (invalidTimestamp what)
      | .ok timestamp => .ok timestamp

/-- `DateTime::TimestampFromString`: the groups of the first expression of the format that
matches, missing fields taken as `0`. -/
def timestampFromString (env : TimestampEnv) (str : List Char)
    (inputFormat : InputFormat := cqlInputFormat) : Except Status Int :=
  match inputFormat.regexes.findSome? (regexMatch · str) with
  | none => .error (invalidTimestamp "Wrong format of input string")
  | some spans =>
    let m := capture str spans
    let frac := adjustPrecision (fieldOrZero (m 7)) (m 7).length numFractionalDigits
    timestampOfFields env (stoi (m 1)) (stoi (m 2)) (stoi (m 3)) (fieldOrZero (m 4))
      (fieldOrZero (m 5)) (fieldOrZero (m 6)) frac (zoneOfGroup env (m 8))

/-- `DateTime::TimestampFromInt`. -/
def timestampFromInt (val : Int) (inputFormat : InputFormat := cqlInputFormat) : Int :=
  adjustPrecision val inputFormat.inputPrecision kInternalPrecision

/-! ### Times of day -/

/-- `"(\\d{1,2}):(\\d{1,2}):(\\d{1,2})(\\.(\\d{0,9}))?"`. -/
def timeFormat : Regex Char :=
  seqs [.group 1 (rep digit 1 2), literal ':', .group 2 (rep digit 1 2), literal ':',
    .group 3 (rep digit 1 2), .opt (.group 4 (seqs [literal '.', .group 5 (rep digit 0 9)]))]

/-- `DateTime::TimeFromString`: nanoseconds since midnight. -/
def timeFromString (str : List Char) : Except Status Int :=
  match regexMatch timeFormat str with
  | none => .error ⟨.kInvalidArgument, "Invalid time format"⟩
  | some spans =>
    let m := capture str spans
    let hour := stoi (m 1)
    let minute := stoi (m 2)
    let second := stoi (m 3)
    -- `stoi(m.str(5)) * pow(10, 9 - m.str(5).size())`, exact in a double at these sizes
    let nanoSec := if (m 5).isEmpty then 0 else stoi (m 5) * 10 ^ (9 - (m 5).length)
    if hour < 0 ∨ hour > 23 then .error ⟨.kInvalidArgument, "Invalid hour"⟩
    else if minute < 0 ∨ minute > 59 then .error ⟨.kInvalidArgument, "Invalid minute"⟩
    else if second < 0 ∨ second > 59 then .error ⟨.kInvalidArgument, "Invalid second"⟩
    else .ok (((hour * 60 + minute) * 60 + second) * 1000000000 + nanoSec)

/-- `DateTime::TimeToString`; `none` where its `CHECK` on the length written fails. -/
def timeToString (time : Int) : Option (Except Status (List Char)) :=
  if time < 0 then some (.error ⟨.kInvalidArgument, "Invalid time"⟩)
  else
    -- the time is not negative, so C++'s divisions and remainders are Lean's
    let nanoSec := time % 1000000000
    let time := time / 1000000000
    let second := time % 60
    let time := time / 60
    let minute := time % 60
    let time := time / 60
    -- `const int hour = time` keeps the low 32 bits
    let hour := time.bmod (2 ^ 32)
    if hour > 23 then some (.error ⟨.kInvalidArgument, "Invalid hour"⟩)
    else
      let buffer := printfInt false 2 hour ++ ':' :: printfInt false 2 minute ++ ':' ::
        printfInt false 2 second ++ '.' :: printfInt false 9 nanoSec
      -- `char buffer[19]`
      if buffer.length < 19 then some (.ok buffer) else none

/-! ### Dates

A date is an unsigned 32-bit count of days, the Unix epoch at `2^31`. The arithmetic below is on
`int64_t` in the source and exact here; where the source's product can pass the bounds of
`int64_t` the theorems say so. -/

/-- `kEpochDateOffset`. -/
def kEpochDateOffset : Int := 2 ^ 31

-- Equation lemmas, made once before their uses.
section
attribute [local simp] kEpochDateOffset
end

def kDayInMilliSeconds : Int := 24 * 60 * 60 * 1000

def kDayInMicroSeconds : Int := kDayInMilliSeconds * 1000

/-- `ToDate`: the days since the epoch as a date, if they fit in a `uint32_t`. -/
def toDate (daysSinceEpoch : Int) : Except Status UInt32 :=
  let date := daysSinceEpoch + kEpochDateOffset
  if date < 0 ∨ date > 4294967295 then .error ⟨.kInvalidArgument, "Invalid date"⟩
  else .ok (UInt32.ofNat date.toNat)

/-- `DateTime::DateFromTimestamp`; the division truncates toward zero, as C++'s does. -/
def dateFromTimestamp (timestamp : Int) : Except Status UInt32 :=
  toDate (timestamp.tdiv kDayInMicroSeconds)

/-- `DateTime::DateFromUnixTimestamp`, from milliseconds. -/
def dateFromUnixTimestamp (unixTimestamp : Int) : Except Status UInt32 :=
  toDate (unixTimestamp.tdiv kDayInMilliSeconds)

/-- `DateTime::DateToTimestamp`: the microsecond at which the date begins. -/
def dateToTimestamp (date : UInt32) : Int :=
  ((date.toNat : Int) - kEpochDateOffset) * kDayInMicroSeconds

/-- `DateTime::DateToUnixTimestamp`: the millisecond at which the date begins. -/
def dateToUnixTimestamp (date : UInt32) : Int :=
  ((date.toNat : Int) - kEpochDateOffset) * kDayInMilliSeconds

end DateTime

end FrescoDB.Util
