import FrescoDB.Util.StolUtils
import FrescoDB.Util.Status

/-! The Redis string commands of `docdb/redis_operation.cc` on the value of one key: the writes
`ApplyGetSet`, `ApplyAppend`, `ApplySetRange` and `ApplyIncr`, and the read `ExecuteGetRange`, with
`VerifyTypeAndSetCode` and the reads of `GetRedisValue` they start from. A write returns its
response and what the key holds after it: `SetPrimitive` on the key puts a string there, and
`ExtendSubDocument` with one field puts that field in front of the hash, where it shadows an older
value. TTLs are left out. `None` stops the process: `resize` to a negative `int32_t` offset read as
a `size_t`. -/
namespace FrescoDB.Docdb

open FrescoDB.Util

/-- `RedisDataType` of `redis_protocol.proto`. -/
inductive RedisDataType
  | redisTypeNone | redisTypeString | redisTypeList | redisTypeSet | redisTypeHash
  | redisTypeSortedset | redisTypeTimeseries
  deriving DecidableEq, Repr

/-- The number of a `RedisDataType`, as `STATUS_SUBSTITUTE` prints it. -/
def RedisDataType.number : RedisDataType → Nat
  | redisTypeNone => 1
  | redisTypeString => 2
  | redisTypeList => 3
  | redisTypeSet => 4
  | redisTypeHash => 5
  | redisTypeSortedset => 6
  | redisTypeTimeseries => 7

/-- `RedisResponsePB::RedisStatusCode`. -/
inductive RedisStatusCode
  | ok | nil | unknownCommand | wrongType | notFound | serverError | indexOutOfBounds
  | parsingError
  deriving DecidableEq, Repr

/-- The `response_data` oneof of `RedisResponsePB`, as far as these commands set it. -/
inductive ResponseData
  | none
  | intResponse (v : Int)
  | stringResponse (s : List UInt8)
  deriving DecidableEq, Repr

/-- `RedisResponsePB`. -/
structure RedisResponsePB where
  code : Option RedisStatusCode := none
  responseData : ResponseData := .none
  errorMessage : Option String := none
  deriving DecidableEq, Repr

/-- The part of `RedisKeyValuePB` these commands read. -/
structure RedisKeyValuePB where
  type : RedisDataType := .redisTypeNone
  subkey : List (List UInt8) := []
  value : List (List UInt8) := []
  deriving DecidableEq, Repr

/-- The types of value a key may hold that these commands only name. -/
inductive CollectionType
  | list | set | sortedset | timeseries
  deriving DecidableEq, Repr

/-- What a key holds, as these commands read it: nothing, a string, a hash with its fields, the
latest first, or a collection of another type, whose contents they never read. -/
inductive RedisStored
  | none
  | string (s : List UInt8)
  | hash (fields : List (List UInt8 × List UInt8))
  | collection (t : CollectionType)
  deriving DecidableEq, Repr

/-- `RedisValue`: the type of what was read and, for a string, its bytes. -/
structure RedisValue where
  type : RedisDataType
  value : List UInt8 := []
  deriving DecidableEq, Repr

/-- `wrong_type_message`. -/
def wrongTypeMessage : String := "WRONGTYPE Operation against a key holding the wrong kind of value"

/-- The type `GetRedisValue` reports for a collection. -/
def CollectionType.redisType : CollectionType → RedisDataType
  | list => .redisTypeList
  | set => .redisTypeSet
  | sortedset => .redisTypeSortedset
  | timeseries => .redisTypeTimeseries

/-- The document at the key itself. -/
def topLevelValue : RedisStored → RedisValue
  | .none => ⟨.redisTypeNone, []⟩
  | .string s => ⟨.redisTypeString, s⟩
  | .hash _ => ⟨.redisTypeHash, []⟩
  | .collection t => ⟨t.redisType, []⟩

/-- The document at the key and a subkey: a field of a hash. The members of the other types are
not read through here: `ApplyIncr` checks that the key holds a hash first. -/
def subkeyValue (stored : RedisStored) (subkey : List UInt8) : RedisValue :=
  match stored with
  | .hash fields =>
    match fields.lookup subkey with
    | some v => ⟨.redisTypeString, v⟩
    | none => ⟨.redisTypeNone, []⟩
  | _ => ⟨.redisTypeNone, []⟩

/-- `GetRedisValue` with `subkey_index` (`none` for `kNilSubkeyIndex`): a key with subkeys is read
at its first one, or at the one the index names. -/
def getRedisValue (stored : RedisStored) (kv : RedisKeyValuePB) (subkeyIndex : Option Nat) :
    Except Status RedisValue :=
  match kv.subkey with
  | [] => .ok (topLevelValue stored)
  | subkeys =>
    if subkeys.length ≠ 1 ∧ subkeyIndex = none then
      .error ⟨.kCorruption, s!"Expected at most one subkey, got {subkeys.length}"⟩
    else .ok (subkeyValue stored (subkeys.getD (subkeyIndex.getD 0) []))

/-- `VerifyTypeAndSetCode` with `VerifySuccessIfMissing::kTrue`: a missing value passes with
`NIL`, another type fails with `WRONG_TYPE`. -/
def verifyTypeAndSetCode (expectedType actualType : RedisDataType) (response : RedisResponsePB) :
    Bool × RedisResponsePB :=
  if actualType = .redisTypeNone then (true, { response with code := some .nil })
  else if actualType ≠ expectedType then
    (false, { response with code := some .wrongType, errorMessage := some wrongTypeMessage })
  else (true, { response with code := some .ok })

/-! ### The writes -/

/-- `ApplyGetSet`: the old string in the response, the new one stored. -/
def applyGetSet (kv : RedisKeyValuePB) (stored : RedisStored) :
    Except Status (RedisResponsePB × RedisStored) := do
  if kv.value.length ≠ 1 then
    throw ⟨.kCorruption, s!"Getset kv should have 1 value, found {kv.value.length}"⟩
  let value ← getRedisValue stored kv none
  let (ok, response) := verifyTypeAndSetCode .redisTypeString value.type {}
  if !ok then return (response, stored)
  let response := { response with responseData := .stringResponse value.value }
  return (response, .string (kv.value.getD 0 []))

/-- `ApplyAppend`: the string with the value after it, and its length. -/
def applyAppend (kv : RedisKeyValuePB) (stored : RedisStored) :
    Except Status (RedisResponsePB × RedisStored) := do
  if kv.value.length ≠ 1 then
    throw ⟨.kCorruption, s!"Append kv should have 1 value, found {kv.value.length}"⟩
  let value ← getRedisValue stored kv none
  let (ok, response) := verifyTypeAndSetCode .redisTypeString value.type {}
  if !ok then return (response, stored)
  let newValue := value.value ++ kv.value.getD 0 []
  let response := { response with
    code := some .ok, responseData := .intResponse newValue.length }
  return (response, .string newValue)

/-- `std::string::resize(n, 0)` to a larger size. -/
def resizeZero (s : List UInt8) (n : Nat) : List UInt8 := s ++ List.replicate (n - s.length) 0

/-- `std::string::replace(pos, count, str)` with `pos` within the string: the bytes from `pos`,
at most `count` of them, give way to `str`. -/
def replaceRange (s : List UInt8) (pos count : Nat) (str : List UInt8) : List UInt8 :=
  s.take pos ++ str ++ s.drop (pos + count)

/-- `ApplySetRange`: the string padded with zero bytes up to the offset, the value written over
it from there, and its length. -/
def applySetRange (kv : RedisKeyValuePB) (offset : Int32) (stored : RedisStored) :
    Option (Except Status (RedisResponsePB × RedisStored)) :=
  if kv.value.length ≠ 1 then
    some (.error ⟨.kCorruption, s!"SetRange kv should have 1 value, found {kv.value.length}"⟩)
  else
    match getRedisValue stored kv none with
    | .error status => some (.error status)
    | .ok value =>
      let (ok, response) := verifyTypeAndSetCode .redisTypeString value.type {}
      if !ok then some (.ok (response, stored))
      -- a negative offset compares as a huge size_t, and resize to it fails
      else if offset.toInt < 0 then none
      else
        let v := kv.value.getD 0 []
        let s := if offset.toInt.toNat > value.value.length then
          resizeZero value.value offset.toInt.toNat else value.value
        let s := replaceRange s offset.toInt.toNat v.length v
        let response := { response with code := some .ok, responseData := .intResponse s.length }
        some (.ok (response, .string s))

/-- `ApplyIncr` with `increment_int`: on a string, or on a field of a hash (`HINCRBY`). A value
that `CheckedStoll` refuses, or a sum out of `int64_t`, is answered with an error and nothing is
written. -/
def applyIncr (kv : RedisKeyValuePB) (incrementInt : Int) (stored : RedisStored) :
    Except Status (RedisResponsePB × RedisStored) := do
  let incr := incrementInt
  if kv.type ≠ .redisTypeHash ∧ kv.type ≠ .redisTypeString then
    throw ⟨.kInvalidCommand, s!"Redis data type {kv.type.number} not supported in Incr command"⟩
  let containerType := (topLevelValue stored).type
  let (ok, response) := verifyTypeAndSetCode kv.type containerType {}
  if !ok then return (response, stored)
  let subkey := if kv.type = .redisTypeHash then some 0 else none
  let value ← getRedisValue stored kv subkey
  let (ok, response) := verifyTypeAndSetCode .redisTypeString value.type response
  if !ok then
    return ({ response with code := some .wrongType, errorMessage := some wrongTypeMessage }, stored)
  -- no value counts as 0
  let oldValue ← if value.type ≠ .redisTypeNone then
      match checkedStoll value.value with
      | some old => pure old
      | none => return ({ response with
          code := some .wrongType,
          errorMessage := some "ERR value is not an integer or out of range" }, stored)
    else pure 0
  -- the bounds are subtracted only where the difference is an int64_t
  if (incr < 0 ∧ oldValue < 0 ∧ incr < int64Min - oldValue) ∨
      (0 < incr ∧ 0 < oldValue ∧ int64Max - oldValue < incr) then
    return ({ response with code := some .wrongType, errorMessage := some "Increment would overflow" },
      stored)
  let newValue := oldValue + incr
  let response := { response with code := some .ok, responseData := .intResponse newValue }
  let newPvalue := toDecimalString newValue
  if kv.type = .redisTypeHash then
    let fields := match stored with
      | .hash fields => fields
      | _ => []
    return (response, .hash ((kv.subkey.getD 0 [], newPvalue) :: fields))
  else return (response, .string newPvalue)

-- Equation lemmas, made once before their uses.
section
attribute [local simp] applyIncr
end

/-! ### The read -/

/-- `ApplyIndex`: an index from the end when negative, then within `0..len`. -/
def applyIndex (index len : Int32) : Int32 :=
  let index := if index < 0 then index + len else index
  let index := if index < 0 then 0 else index
  if index > len then len else index

/-- The bytes `ExecuteGetRange` answers with: from `start` up to and including `endIndex`, each
counted from the end when negative, within the string. -/
def getRangeBytes (value : List UInt8) (start endIndex : Int32) : List UInt8 :=
  let len : Int32 := Int32.ofNat value.length
  -- end + 1 is computed in int32_t
  let exclusiveEnd := endIndex + 1
  let exclusiveEnd := if exclusiveEnd = 0 then len else exclusiveEnd
  let start := applyIndex start len
  let endIndex := applyIndex exclusiveEnd len
  let endIndex := if endIndex < start then start else endIndex
  (value.drop start.toInt.toNat).take (endIndex.toInt - start.toInt).toNat

/-- `ExecuteGetRange`. -/
def executeGetRange (kv : RedisKeyValuePB) (start endIndex : Int32) (stored : RedisStored) :
    Except Status RedisResponsePB := do
  let value ← getRedisValue stored kv none
  let (ok, response) := verifyTypeAndSetCode .redisTypeString value.type {}
  if !ok then return response
  return { response with
    code := some .ok, responseData := .stringResponse (getRangeBytes value.value start endIndex) }

end FrescoDB.Docdb
