import FrescoDB.Docdb.RedisOperation
import FrescoDB.Consensus.LogUtil

/-! The parsers of the Redis string commands (`yql/redis/redisserver/redis_parser.cc`): `GETSET`,
`APPEND`, `SETRANGE`, `INCR`, `INCRBY`, `HINCRBY` and `GETRANGE`, each from the arguments of a
command whose arity the command table has checked, to the request the tablet applies. Numbers are
read by `ParseInt64` and `ParseInt32` through `CheckedStoll`. The key, which every parser copies
into the request, is left out: the operations are modelled on the value of that one key. -/
namespace FrescoDB.Redis

open FrescoDB.Util FrescoDB.Docdb

/-- The request of a `RedisWriteRequestPB` these parsers allocate. -/
inductive RedisWriteRequest
  | getsetRequest
  | appendRequest
  | setRangeRequest (offset : Int32)
  | incrRequest (incrementInt : Int)
  deriving DecidableEq, Repr

/-- A `YBRedisWriteOp` as a parser fills it. -/
structure YBRedisWriteOp where
  keyValue : RedisKeyValuePB
  request : RedisWriteRequest
  deriving DecidableEq, Repr

/-- A `GETRANGE` request: `get_range_request` with its start and end. -/
structure GetRangeRequest where
  start : Int32
  endIndex : Int32
  deriving DecidableEq, Repr

/-- `ParseInt64`. -/
def parseInt64 (slice : List UInt8) (field : String) : Except Status Int :=
  match checkedStoll slice with
  | some v => .ok v
  | none =>
    let text := Log.toDebugString slice
    .error ⟨.kInvalidArgument, s!"{field} field {text} is not a valid number"⟩

/-- The least `int32_t`. -/
def int32Min : Int := -2 ^ 31

/-- The greatest `int32_t`. -/
def int32Max : Int := 2 ^ 31 - 1

/-- `ParseInt32`: `ParseInt64`, then within `int32_t`. -/
def parseInt32 (slice : List UInt8) (field : String) : Except Status Int32 := do
  let val ← parseInt64 slice field
  if val < int32Min ∨ val > int32Max then
    let text := Log.toDebugString slice
    throw ⟨.kInvalidArgument, s!"{field} field {text} is not within valid bounds"⟩
  return Int32.ofInt val

/-- The `i`-th argument; the command table's arity keeps it in range. -/
def arg (args : List (List UInt8)) (i : Nat) : List UInt8 := args.getD i []

def parseGetSet (args : List (List UInt8)) : Except Status YBRedisWriteOp :=
  .ok ⟨{ value := [arg args 2] }, .getsetRequest⟩

def parseAppend (args : List (List UInt8)) : Except Status YBRedisWriteOp :=
  .ok ⟨{ value := [arg args 2] }, .appendRequest⟩

def parseSetRange (args : List (List UInt8)) : Except Status YBRedisWriteOp := do
  let offset ← parseInt32 (arg args 2) "offset"
  if offset < 0 then
    let found := offset.toInt
    throw ⟨.kInvalidArgument, s!"offset field of SETRANGE must be non-negative, found: {found}"⟩
  return ⟨{ value := [arg args 3] }, .setRangeRequest offset⟩

def parseIncr (_args : List (List UInt8)) : Except Status YBRedisWriteOp :=
  .ok ⟨{ type := .redisTypeString }, .incrRequest 1⟩

def parseIncrBy (args : List (List UInt8)) : Except Status YBRedisWriteOp := do
  let incrBy ← parseInt64 (arg args 2) "INCR_BY"
  return ⟨{ type := .redisTypeString }, .incrRequest incrBy⟩

def parseHIncrBy (args : List (List UInt8)) : Except Status YBRedisWriteOp := do
  let incrBy ← parseInt64 (arg args 3) "INCR_BY"
  return ⟨{ type := .redisTypeHash, subkey := [arg args 2] }, .incrRequest incrBy⟩

def parseGetRange (args : List (List UInt8)) : Except Status GetRangeRequest := do
  let start ← parseInt32 (arg args 2) "Start"
  let endIndex ← parseInt32 (arg args 3) "End"
  return ⟨start, endIndex⟩

/-- `RedisWriteOperation::Apply` for the requests above. -/
def applyWrite (op : YBRedisWriteOp) (stored : RedisStored) :
    Option (Except Status (RedisResponsePB × RedisStored)) :=
  match op.request with
  | .getsetRequest => some (applyGetSet op.keyValue stored)
  | .appendRequest => some (applyAppend op.keyValue stored)
  | .setRangeRequest offset => applySetRange op.keyValue offset stored
  | .incrRequest incrementInt => some (applyIncr op.keyValue incrementInt stored)

end FrescoDB.Redis
