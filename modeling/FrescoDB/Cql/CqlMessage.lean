import FrescoDB.Lib.ByteReader
import FrescoDB.Util.Status

/-! A CQL request as `CQLRequest::ParseRequest` (`yql/cql/cqlserver/cql_message.cc`) reads it: the
nine-byte header, the body after it uncompressed when the header's flag says so, the request its
opcode names read by that request's `ParseBody`, and no byte left after it. A body is read through
`body_`, a slice whose front each parse takes off; a read past its end fails with "Truncated CQL
message". The length of a `[bytes]` or `[long string]` is an `int32_t` cast to `size_t`, so a
negative one asks for more bytes than a body has. The header's length field is read and only
logged. The decompressors of lz4 and snappy are parameters. The request id that
`ParseQueryParameters` draws at random, and that a paging state's `original_request_id` replaces,
is left out, with the parse of the paging state, which nothing else here reads. Every error
response here has the code `PROTOCOL_ERROR`. -/
namespace FrescoDB.Cql

open FrescoDB.Lib FrescoDB.Util ByteReader

/-! ### The header -/

/-- `kMessageHeaderLength`. -/
def kMessageHeaderLength : Nat := 9

/-- `kIntSize`. -/
def kIntSize : Nat := 4

def kV3Version : UInt8 := 0x03

def kV4Version : UInt8 := 0x04

def kMinimumVersion : UInt8 := kV3Version

def kCurrentVersion : UInt8 := kV4Version

/-- The bit of the version byte that marks a response. -/
def kResponseVersion : UInt8 := 0x80

def kCompressionFlag : UInt8 := 0x01

/-- `CQLMessage::Opcode`. -/
inductive Opcode
  | error | startup | ready | authenticate | options | supported | query | result | prepare
  | execute | register | event | batch | authChallenge | authResponse | authSuccess
  deriving DecidableEq, Repr

/-- The byte of an opcode. -/
def Opcode.toByte : Opcode → UInt8
  | error => 0x00
  | startup => 0x01
  | ready => 0x02
  | authenticate => 0x03
  | options => 0x05
  | supported => 0x06
  | query => 0x07
  | result => 0x08
  | prepare => 0x09
  | execute => 0x0A
  | register => 0x0B
  | event => 0x0C
  | batch => 0x0D
  | authChallenge => 0x0E
  | authResponse => 0x0F
  | authSuccess => 0x10

/-- The opcode a byte names, if any: `static_cast<Opcode>` then the cases of the switch. -/
def Opcode.ofByte : UInt8 → Option Opcode
  | 0x00 => some error
  | 0x01 => some startup
  | 0x02 => some ready
  | 0x03 => some authenticate
  | 0x05 => some options
  | 0x06 => some supported
  | 0x07 => some query
  | 0x08 => some result
  | 0x09 => some prepare
  | 0x0A => some execute
  | 0x0B => some register
  | 0x0C => some event
  | 0x0D => some batch
  | 0x0E => some authChallenge
  | 0x0F => some authResponse
  | 0x10 => some authSuccess
  | _ => none

/-- `CQLMessage::Header`. -/
structure Header where
  version : UInt8
  flags : UInt8
  streamId : UInt16
  opcode : UInt8
  deriving DecidableEq, Repr

/-- The header at the front of a message of `kMessageHeaderLength` bytes or more: `LoadByte` of
the version, the flags and the opcode, and `ParseStreamId`. -/
def Header.load (mesg : List UInt8) : Header :=
  ⟨mesg.getD 0 0, mesg.getD 1 0, (ofBytesBE ((mesg.drop 2).take 2)).toUInt16, mesg.getD 4 0⟩

/-- `VersionIsCompatible`: the version without the response bit is at least `minVersion`. -/
def versionIsCompatible (version minVersion : UInt8) : Bool :=
  minVersion ≤ version &&& ~~~kResponseVersion

/-- `CompressionScheme`. -/
inductive CompressionScheme
  | kNone | kLz4 | kSnappy
  deriving DecidableEq, Repr

/-- The decompressors of lz4 and snappy, which this model does not translate. -/
structure Decompressors where
  /-- `LZ4_decompress_safe` into a buffer of `capacity` bytes: the bytes it writes, `none` for a
  negative result. -/
  lz4DecompressSafe : List UInt8 → Nat → Option (List UInt8)
  /-- `snappy::GetUncompressedLength`. -/
  getUncompressedLength : List UInt8 → Option Nat
  /-- `snappy::RawUncompress` into a buffer of the length `GetUncompressedLength` gave: the
  buffer, `none` when it fails. -/
  rawUncompress : List UInt8 → Nat → Option (List UInt8)

/-- An `ErrorResponse` of code `PROTOCOL_ERROR`. -/
structure ErrorResponse where
  streamId : UInt16
  message : String
  deriving DecidableEq, Repr

/-! ### The parts of a body -/

/-! `Consistency` is a `uint16_t` as read; these are the levels `ValidateConsistency` names. -/

namespace Consistency

def any : UInt16 := 0x0000

def one : UInt16 := 0x0001

def quorum : UInt16 := 0x0004

def localOne : UInt16 := 0x000A

end Consistency

/-- `YBConsistencyLevel`. -/
inductive YBConsistencyLevel
  | strong | consistentPrefix
  deriving DecidableEq, Repr

/-- `Value::Kind`. -/
inductive ValueKind
  | notNull | isNull | notSet
  deriving DecidableEq, Repr

/-- `CQLMessage::Value`: a bound value keeps the four bytes of its length in front of its bytes,
as `QLValue::Deserialize` reads it. -/
structure Value where
  kind : ValueKind := .notNull
  name : List UInt8 := []
  value : List UInt8 := []
  deriving DecidableEq, Repr

/-- The flags of `QueryParameters` that select the fields after them. -/
def kWithValuesFlag : UInt8 := 0x01

def kWithPageSizeFlag : UInt8 := 0x04

def kWithPagingStateFlag : UInt8 := 0x08

def kWithSerialConsistencyFlag : UInt8 := 0x10

def kWithDefaultTimestampFlag : UInt8 := 0x20

def kWithNamesForValuesFlag : UInt8 := 0x40

/-- `INT64_MAX`, the page size of `StatementParameters` until one is set. -/
def int64MaxPageSize : UInt64 := 0x7FFFFFFFFFFFFFFF

/-- `QueryParameters` with the `StatementParameters` it extends. `valueMap` is `value_map` as it
is assigned, each name with the index of its value, a later index of a name replacing an earlier
one; `pagingState` holds the bytes `SetPagingState` was given. -/
@[ext]
structure QueryParameters where
  consistency : UInt16 := Consistency.any
  flags : UInt8 := 0
  values : List Value := []
  valueMap : List (List UInt8 × Nat) := []
  serialConsistency : UInt16 := Consistency.any
  defaultTimestamp : Int64 := 0
  pageSize : UInt64 := int64MaxPageSize
  pagingState : Option (List UInt8) := none
  ybConsistencyLevel : YBConsistencyLevel := .strong
  deriving DecidableEq, Repr

namespace QueryParameters

/-- `ValidateConsistency`: `LOCAL_ONE` and `QUORUM` are strong, `ONE` is consistent prefix, and
any other level is logged and taken as strong, so it never fails. -/
def validateConsistency (params : QueryParameters) : QueryParameters :=
  if params.consistency = Consistency.localOne ∨ params.consistency = Consistency.quorum then
    { params with ybConsistencyLevel := .strong }
  else if params.consistency = Consistency.one then
    { params with ybConsistencyLevel := .consistentPrefix }
  else { params with ybConsistencyLevel := .strong }

/-- `set_page_size`: the `int32_t` read is converted to `uint64_t`. -/
def setPageSize (params : QueryParameters) (pageSize : Int32) : QueryParameters :=
  { params with pageSize := UInt64.ofInt pageSize.toInt }

/-- `StatementParameters::SetPagingState`. The `Corruption` status it builds when the bytes do not
parse as a `QLPagingStatePB` is never returned, so it never fails. -/
def setPagingState (params : QueryParameters) (pagingState : List UInt8) :
    Except Status QueryParameters :=
  .ok { params with pagingState := some pagingState }

end QueryParameters

/-! ### Reading a body -/

/-- The status of `RETURN_NOT_ENOUGH` and of `CQLDecodeBytes` when the body runs out. -/
def truncatedCqlMessage : Status := ⟨.kNetworkError, "Truncated CQL message"⟩

/-- `ParseNum` through `CQLDecodeNum`: a number of `w` bytes in network order. -/
def parseNum (w : Nat) : ByteReader Status Nat := readBE truncatedCqlMessage w

def parseByte : ByteReader Status UInt8 := do
  return (← parseNum 1).toUInt8

def parseShort : ByteReader Status UInt16 := do
  return (← parseNum 2).toUInt16

def parseInt : ByteReader Status Int32 := do
  return (← parseNum 4).toUInt32.toInt32

def parseLong : ByteReader Status Int64 := do
  return (← parseNum 8).toUInt64.toInt64

def parseConsistency : ByteReader Status UInt16 := do
  return (← parseNum 2).toUInt16

/-- `static_cast<size_t>` of an `int32_t`. -/
def sizeOfInt32 (len : Int32) : Nat := (len.toInt % 2 ^ 64).toNat

/-- `ParseBytes(type_name, len_parser, val)`: a length, as `size_t`, then that many bytes. -/
def parseBytesWith (lenParser : ByteReader Status Nat) : ByteReader Status (List UInt8) := do
  let len ← lenParser
  takeBytes truncatedCqlMessage len

def parseString : ByteReader Status (List UInt8) :=
  parseBytesWith (do return (← parseShort).toNat)

def parseLongString : ByteReader Status (List UInt8) :=
  parseBytesWith (do return sizeOfInt32 (← parseInt))

def parseShortBytes : ByteReader Status (List UInt8) :=
  parseBytesWith (do return (← parseShort).toNat)

def parseBytes : ByteReader Status (List UInt8) :=
  parseBytesWith (do return sizeOfInt32 (← parseInt))

def parseStringList : ByteReader Status (List (List UInt8)) := do
  let count ← parseShort
  readMany parseString count.toNat

/-- `ParseStringMap`: the pairs in the order read, a later value of a name replacing an earlier
one in the map. -/
def parseStringMap : ByteReader Status (List (List UInt8 × List UInt8)) := do
  let count ← parseShort
  readMany (do
    let name ← parseString
    let value ← parseString
    pure (name, value)) count.toNat

/-- `ParseValue`. A non-negative length is followed by that many bytes; a negative one is null
before v4, and from v4 on null at -1, not set at -2 and refused otherwise. -/
def parseValue (version : UInt8) (withName : Bool) : ByteReader Status Value := do
  let name ← (if withName then parseString else pure [])
  -- the front of the body before the length, from which a value is kept with its length
  let data ← get
  let length ← parseInt
  if 0 ≤ length then
    if 0 < length then
      let _ ← takeBytes truncatedCqlMessage length.toInt.toNat
      pure { name, value := data.take (kIntSize + length.toInt.toNat) }
    else pure { name }
  else if versionIsCompatible version kV4Version then
    if length = -1 then pure { kind := .isNull, name }
    else if length = -2 then pure { kind := .notSet, name }
    else throw ⟨.kNetworkError, "Invalid length in value"⟩
  else pure { kind := .isNull, name }

/-- The names of the values with their indices, as the loop of `ParseQueryParameters` assigns
them to `value_map`. -/
def valueNames (values : List Value) : List (List UInt8 × Nat) :=
  values.zipIdx.map fun (value, i) => (value.name, i)

/-- The values of `ParseQueryParameters`, when the flags select them: a count, then the values,
named when the flags say so, each name assigned its index in `value_map`. -/
def parseValuesField (version flags : UInt8) (params : QueryParameters) :
    ByteReader Status QueryParameters :=
  if flags &&& kWithValuesFlag ≠ 0 then do
    let withName := flags &&& kWithNamesForValuesFlag != 0
    let count ← parseShort
    let values ← readMany (parseValue version withName) count.toNat
    pure { params with values, valueMap := if withName then valueNames values else [] }
  else pure params

/-- A field of `ParseQueryParameters` read and set when `flag` is set in the flags. -/
def parseField {α : Type} (flags flag : UInt8) (reader : ByteReader Status α)
    (set : QueryParameters → α → QueryParameters) (params : QueryParameters) :
    ByteReader Status QueryParameters :=
  if flags &&& flag ≠ 0 then do
    let value ← reader
    pure (set params value)
  else pure params

def parsePageSizeField (flags : UInt8) : QueryParameters → ByteReader Status QueryParameters :=
  parseField flags kWithPageSizeFlag parseInt QueryParameters.setPageSize

/-- The paging state, when the flags select it, through `SetPagingState`, which may fail. -/
def parsePagingStateField (flags : UInt8) (params : QueryParameters) :
    ByteReader Status QueryParameters :=
  if flags &&& kWithPagingStateFlag ≠ 0 then do
    let pagingState ← parseBytes
    StateT.lift (params.setPagingState pagingState)
  else pure params

def parseSerialConsistencyField (flags : UInt8) :
    QueryParameters → ByteReader Status QueryParameters :=
  parseField flags kWithSerialConsistencyFlag parseConsistency
    fun params serialConsistency => { params with serialConsistency }

def parseDefaultTimestampField (flags : UInt8) :
    QueryParameters → ByteReader Status QueryParameters :=
  parseField flags kWithDefaultTimestampFlag parseLong
    fun params defaultTimestamp => { params with defaultTimestamp }

/-- `ParseQueryParameters`: the consistency and the flags, then the fields the flags select. -/
def parseQueryParameters (version : UInt8) : ByteReader Status QueryParameters := do
  let consistency ← parseConsistency
  let params := QueryParameters.validateConsistency { consistency }
  let flags ← parseByte
  let params := { params with flags }
  let params ← parseValuesField version flags params
  let params ← parsePageSizeField flags params
  let params ← parsePagingStateField flags params
  let params ← parseSerialConsistencyField flags params
  parseDefaultTimestampField flags params

/-! ### The requests -/

structure StartupRequest where
  options : List (List UInt8 × List UInt8)
  deriving DecidableEq, Repr

def StartupRequest.parseBody : ByteReader Status StartupRequest := do
  let options ← parseStringMap
  pure ⟨options⟩

/-- An `AUTH_RESPONSE` and the user name and password of its token. -/
structure AuthResponseRequest where
  token : List UInt8
  username : List UInt8
  password : List UInt8
  deriving DecidableEq, Repr

/-- `AuthResponseRequest::ParseBody`: a token of a zero byte, the user name up to the next zero
byte, and the password after it. -/
def AuthResponseRequest.parseBody : ByteReader Status AuthResponseRequest := do
  let token ← parseBytes
  match token with
  | [] => throw ⟨.kInvalidArgument, "Invalid empty token!"⟩
  | first :: rest =>
    if first ≠ 0 then throw ⟨.kInvalidArgument, "Invalid format. Message must begin with \\0"⟩
    else
      match rest.idxOf? 0 with
      | none =>
        throw ⟨.kInvalidArgument, "Invalid format. Message must contain \\0 after username"⟩
      | some delim => pure ⟨token, rest.take delim, rest.drop (delim + 1)⟩

structure QueryRequest where
  query : List UInt8
  params : QueryParameters
  deriving DecidableEq, Repr

def QueryRequest.parseBody (version : UInt8) : ByteReader Status QueryRequest := do
  let query ← parseLongString
  let params ← parseQueryParameters version
  pure ⟨query, params⟩

structure PrepareRequest where
  query : List UInt8
  deriving DecidableEq, Repr

def PrepareRequest.parseBody : ByteReader Status PrepareRequest := do
  let query ← parseLongString
  pure ⟨query⟩

structure ExecuteRequest where
  queryId : List UInt8
  params : QueryParameters
  deriving DecidableEq, Repr

def ExecuteRequest.parseBody (version : UInt8) : ByteReader Status ExecuteRequest := do
  let queryId ← parseShortBytes
  let params ← parseQueryParameters version
  pure ⟨queryId, params⟩

/-- `BatchRequest::Query`. -/
structure BatchQuery where
  isPrepared : Bool
  query : List UInt8 := []
  queryId : List UInt8 := []
  params : QueryParameters := {}
  deriving DecidableEq, Repr

/-- One query of a batch: a query string or the id of a prepared one, then its values, never
named. -/
def parseBatchQuery (version : UInt8) : ByteReader Status BatchQuery := do
  let isPreparedQuery ← parseByte
  let query : BatchQuery ← (if isPreparedQuery = 0 then do
      let query ← parseLongString
      pure { isPrepared := false, query }
    else if isPreparedQuery = 1 then do
      let queryId ← parseShortBytes
      pure { isPrepared := true, queryId }
    else throw ⟨.kNetworkError, "Invalid is_prepared_query byte in batch request"⟩)
  let valueCount ← parseShort
  let values ← readMany (parseValue version false) valueCount.toNat
  pure { query with params := { values } }

/-- A `BATCH`, whose type byte is kept as read. -/
structure BatchRequest where
  type : UInt8
  queries : List BatchQuery
  deriving DecidableEq, Repr

/-- The parameters after the queries of a batch, copied into each query's. -/
def BatchQuery.setBatchParameters (consistency : UInt16) (flags : UInt8)
    (serialConsistency : UInt16) (defaultTimestamp : Int64) (query : BatchQuery) : BatchQuery :=
  { query with params := { query.params with
      consistency, flags, serialConsistency, defaultTimestamp } }

/-- `BatchRequest::ParseBody`: the type, the queries, then the consistency and the flags, which
select only the serial consistency and the timestamp. -/
def BatchRequest.parseBody (version : UInt8) : ByteReader Status BatchRequest := do
  let type ← parseByte
  let queryCount ← parseShort
  let queries ← readMany (parseBatchQuery version) queryCount.toNat
  let consistency ← parseConsistency
  let flags ← parseByte
  let serialConsistency ← (if flags &&& kWithSerialConsistencyFlag ≠ 0 then parseConsistency
    else pure Consistency.any)
  let defaultTimestamp ← (if flags &&& kWithDefaultTimestampFlag ≠ 0 then parseLong else pure 0)
  pure ⟨type, queries.map
    (BatchQuery.setBatchParameters consistency flags serialConsistency defaultTimestamp)⟩

structure RegisterRequest where
  eventTypes : List (List UInt8)
  deriving DecidableEq, Repr

def RegisterRequest.parseBody : ByteReader Status RegisterRequest := do
  let eventTypes ← parseStringList
  pure ⟨eventTypes⟩

-- Equation lemmas, made once before their uses.
section
attribute [local simp] StartupRequest.parseBody AuthResponseRequest.parseBody QueryRequest.parseBody
  PrepareRequest.parseBody ExecuteRequest.parseBody BatchRequest.parseBody RegisterRequest.parseBody
end

/-- The request objects `ParseRequest` constructs by the opcode. -/
inductive RequestBody
  | startup (request : StartupRequest)
  | authResponse (request : AuthResponseRequest)
  | options
  | query (request : QueryRequest)
  | prepare (request : PrepareRequest)
  | execute (request : ExecuteRequest)
  | batch (request : BatchRequest)
  | register (request : RegisterRequest)
  deriving DecidableEq, Repr

/-- The `ParseBody` of the request an opcode names; `none` for the opcode of a response. An
`OPTIONS` body is empty. -/
def requestParser (version : UInt8) : Opcode → Option (ByteReader Status RequestBody)
  | .startup => some (.startup <$> StartupRequest.parseBody)
  | .authResponse => some (.authResponse <$> AuthResponseRequest.parseBody)
  | .options => some (pure .options)
  | .query => some (.query <$> QueryRequest.parseBody version)
  | .prepare => some (.prepare <$> PrepareRequest.parseBody)
  | .execute => some (.execute <$> ExecuteRequest.parseBody version)
  | .batch => some (.batch <$> BatchRequest.parseBody version)
  | .register => some (.register <$> RegisterRequest.parseBody)
  | _ => none

/-! ### `ParseRequest` -/

structure CQLRequest where
  header : Header
  body : RequestBody
  deriving DecidableEq, Repr

/-- The decompression step of `ParseRequest`, on a non-empty body whose header has the compression
flag: the body to parse, with the error response a failed snappy decompression leaves pending
while the parse goes on, or the error response that ends it. -/
def uncompressBody (dec : Decompressors) (compressionScheme : CompressionScheme) (header : Header)
    (body : List UInt8) : Except ErrorResponse (List UInt8 × Option ErrorResponse) :=
  if body.length = 0 ∨ header.flags &&& kCompressionFlag = 0 then .ok (body, none)
  else if header.opcode = Opcode.startup.toByte then
    .error ⟨header.streamId, "STARTUP request should not be compressed"⟩
  else
    let uncompressError : ErrorResponse :=
      ⟨header.streamId, "Error occurred when uncompressing CQL message"⟩
    match compressionScheme with
    | .kLz4 =>
      if body.length < 4 then .error ⟨header.streamId, "Insufficient compressed data"⟩
      else
        let uncompSize := ofBytesBE (body.take 4)
        match dec.lz4DecompressSafe (body.drop 4) uncompSize with
        | some buffer => if buffer.length = uncompSize then .ok (buffer, none) else .error uncompressError
        | none => .error uncompressError
    | .kSnappy =>
      -- a failed decompression leaves the error response and goes on with the compressed body
      match dec.getUncompressedLength body with
      | some uncompSize =>
        match dec.rawUncompress body uncompSize with
        | some buffer => .ok (buffer, none)
        | none => .ok (body, some uncompressError)
      | none => .ok (body, some uncompressError)
    | .kNone => .error ⟨header.streamId, "No compression scheme specified"⟩

/-- `CQLRequest::ParseRequest`: the request, or the error response sent back instead. -/
def parseRequest (dec : Decompressors) (mesg : List UInt8) (compressionScheme : CompressionScheme) :
    Except ErrorResponse CQLRequest :=
  if mesg.length < kMessageHeaderLength then .error ⟨0, "Incomplete header"⟩
  else
    let header := Header.load mesg
    if header.version &&& kResponseVersion ≠ 0 then .error ⟨header.streamId, "Not a request"⟩
    else if header.version < kMinimumVersion ∨ kCurrentVersion < header.version then
      let version := header.version.toNat
      let minimum := kMinimumVersion.toNat
      let current := kCurrentVersion.toNat
      .error ⟨header.streamId, s!"Invalid or unsupported protocol version {version}. Supported versions are between {minimum} and {current}."⟩
    else
      match uncompressBody dec compressionScheme header (mesg.drop kMessageHeaderLength) with
      | .error response => .error response
      | .ok (body, pending) =>
        match Opcode.ofByte header.opcode with
        | none => .error ⟨header.streamId, "Unknown opcode"⟩
        | some opcode =>
          match requestParser header.version opcode with
          | none => .error ⟨header.streamId, "Not a request opcode"⟩
          | some parseBody =>
            match parseBody.run body with
            | .error status => .error ⟨header.streamId, status.message⟩
            | .ok (request, rest) =>
              -- bytes left after the body, checked once here
              if rest ≠ [] then .error ⟨header.streamId, "Request length too long"⟩
              else
                match pending with
                | some response => .error response
                | none => .ok ⟨header, request⟩

end FrescoDB.Cql
