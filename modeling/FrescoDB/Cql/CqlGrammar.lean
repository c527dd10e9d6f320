import FrescoDB.Cql.CqlMessage
import FrescoDB.Lib.CodedStream

/-! The request bodies of the CQL native protocol, v3 and v4, as a client writes them: each request
as data, the bytes of its body, and the request `ParseRequest` is meant to make of them. A
`[short]`, `[int]` or `[long]` is big-endian; a `[string]` or `[short bytes]` is a `[short]` length
and the bytes, a `[long string]` or `[bytes]` an `[int]` length and the bytes, and a `[value]` an
`[int]` length, negative for null (-1 from v4 on, when -2 is not set). Query parameters carry only
the fields their flags select. A paging state is the serialized `QLPagingStatePB` of an earlier
page; every protobuf message is in the wire format that `WireFormat::SkipMessage` reads to its
end. -/
namespace FrescoDB.Cql

open FrescoDB.Lib

/-! ### The notations -/

def writeShort (n : Nat) : List UInt8 := toBytesBE 2 n

def writeInt (n : Int32) : List UInt8 := toBytesBE 4 n.toUInt32.toNat

def writeLong (n : Int64) : List UInt8 := toBytesBE 8 n.toUInt64.toNat

/-- A `[string]` or `[short bytes]`. -/
def writeString (s : List UInt8) : List UInt8 := writeShort s.length ++ s

/-- A `[long string]` or `[bytes]`. -/
def writeLongString (s : List UInt8) : List UInt8 := writeInt (Int32.ofNat s.length) ++ s

def writeStringList (l : List (List UInt8)) : List UInt8 :=
  writeShort l.length ++ l.flatMap writeString

def writeStringMap (m : List (List UInt8 × List UInt8)) : List UInt8 :=
  writeShort m.length ++ m.flatMap fun (name, value) => writeString name ++ writeString value

/-- The bytes of a field that is there only when `flag` is set in `flags`. -/
def whenFlag (flags flag : UInt8) (bytes : List UInt8) : List UInt8 :=
  if flags &&& flag ≠ 0 then bytes else []

/-- Short and long strings within the lengths their notations write. -/
def ShortFits (s : List UInt8) : Prop := s.length < 2 ^ 16

def LongFits (s : List UInt8) : Prop := s.length < 2 ^ 31

instance (s : List UInt8) : Decidable (ShortFits s) := inferInstanceAs (Decidable (_ < _))

instance (s : List UInt8) : Decidable (LongFits s) := inferInstanceAs (Decidable (_ < _))

/-! ### Values and query parameters -/

/-- A `[value]`; a null is written with a negative length, any before v4 and -1 from v4 on. -/
inductive BoundValue
  | bytes (b : List UInt8)
  | null (length : Int32)
  | notSet
  deriving DecidableEq, Repr

namespace BoundValue

def write : BoundValue → List UInt8
  | bytes b => writeLongString b
  | null length => writeInt length
  | notSet => writeInt (-2)

/-- A value within its notation: its bytes within an `[int]` length, a null of a length the
version gives null, and not set only from v4 on. -/
def Fits (version : UInt8) : BoundValue → Prop
  | bytes b => LongFits b
  | null length => length < 0 ∧ (versionIsCompatible version kV4Version = true → length = -1)
  | notSet => versionIsCompatible version kV4Version = true

instance (version : UInt8) : (v : BoundValue) → Decidable (v.Fits version)
  | bytes b => inferInstanceAs (Decidable (LongFits b))
  | null length => inferInstanceAs
    (Decidable (length < 0 ∧ (versionIsCompatible version kV4Version = true → length = -1)))
  | notSet => inferInstanceAs (Decidable (_ = true))

/-- The `Value` a bound value is read as, under the name given it. -/
def decode (name : List UInt8) : BoundValue → Value
  | bytes b => { name, value := if b = [] then [] else writeLongString b }
  | null _ => { kind := .isNull, name }
  | notSet => { kind := .notSet, name }

end BoundValue

/-- The parameters of a `QUERY` or an `EXECUTE`. Each field after the flags is written only when
the flags select it, and the names of the values only when they say the values are named. -/
structure Params where
  consistency : UInt16
  flags : UInt8
  values : List (List UInt8 × BoundValue)
  pageSize : Int32
  pagingState : List UInt8
  serialConsistency : UInt16
  defaultTimestamp : Int64
  deriving DecidableEq, Repr

namespace Params

def withNames (p : Params) : Bool := p.flags &&& kWithNamesForValuesFlag != 0

/-- A value with its name when the values are named. -/
def writeValue (withName : Bool) (value : List UInt8 × BoundValue) : List UInt8 :=
  (if withName then writeString value.1 else []) ++ value.2.write

def write (p : Params) : List UInt8 :=
  writeShort p.consistency.toNat ++ [p.flags] ++
    whenFlag p.flags kWithValuesFlag
      (writeShort p.values.length ++ p.values.flatMap (writeValue p.withNames)) ++
    whenFlag p.flags kWithPageSizeFlag (writeInt p.pageSize) ++
    whenFlag p.flags kWithPagingStateFlag (writeLongString p.pagingState) ++
    whenFlag p.flags kWithSerialConsistencyFlag (writeShort p.serialConsistency.toNat) ++
    whenFlag p.flags kWithDefaultTimestampFlag (writeLong p.defaultTimestamp)

def Fits (version : UInt8) (p : Params) : Prop :=
  p.values.length < 2 ^ 16 ∧ (∀ value ∈ p.values, ShortFits value.1 ∧ value.2.Fits version) ∧
    LongFits p.pagingState

instance (version : UInt8) (p : Params) : Decidable (p.Fits version) :=
  inferInstanceAs (Decidable (_ ∧ _ ∧ _))

/-- The values as read, named when the values are named. -/
def decodeValues (p : Params) : List Value :=
  p.values.map fun value => value.2.decode (if p.withNames then value.1 else [])

/-- The `QueryParameters` the parameters are read as. -/
def decode (p : Params) : QueryParameters :=
  let hasValues := p.flags &&& kWithValuesFlag ≠ 0
  { consistency := p.consistency
    flags := p.flags
    values := if hasValues then p.decodeValues else []
    valueMap := if hasValues ∧ p.withNames then valueNames p.decodeValues else []
    serialConsistency :=
      if p.flags &&& kWithSerialConsistencyFlag ≠ 0 then p.serialConsistency else Consistency.any
    defaultTimestamp := if p.flags &&& kWithDefaultTimestampFlag ≠ 0 then p.defaultTimestamp else 0
    pageSize :=
      if p.flags &&& kWithPageSizeFlag ≠ 0 then UInt64.ofInt p.pageSize.toInt else int64MaxPageSize
    pagingState := if p.flags &&& kWithPagingStateFlag ≠ 0 then some p.pagingState else none
    ybConsistencyLevel :=
      (QueryParameters.validateConsistency { consistency := p.consistency }).ybConsistencyLevel }

end Params

/-! ### Batches -/

/-- The statement of a query of a batch: its text, or the id of a prepared statement. -/
inductive BatchStatement
  | query (query : List UInt8)
  | prepared (queryId : List UInt8)
  deriving DecidableEq, Repr

structure BatchEntry where
  statement : BatchStatement
  values : List BoundValue
  deriving DecidableEq, Repr

/-- A `BATCH`: its type, its queries, and the parameters after them, of which the flags select the
serial consistency and the timestamp. -/
structure Batch where
  type : UInt8
  entries : List BatchEntry
  consistency : UInt16
  flags : UInt8
  serialConsistency : UInt16
  defaultTimestamp : Int64
  deriving DecidableEq, Repr

def BatchStatement.write : BatchStatement → List UInt8
  | query q => 0 :: writeLongString q
  | prepared queryId => 1 :: writeString queryId

def BatchStatement.Fits : BatchStatement → Prop
  | query q => LongFits q
  | prepared queryId => ShortFits queryId

instance : (s : BatchStatement) → Decidable s.Fits
  | .query q => inferInstanceAs (Decidable (LongFits q))
  | .prepared queryId => inferInstanceAs (Decidable (ShortFits queryId))

def BatchEntry.write (e : BatchEntry) : List UInt8 :=
  e.statement.write ++ writeShort e.values.length ++ e.values.flatMap BoundValue.write

def BatchEntry.Fits (version : UInt8) (e : BatchEntry) : Prop :=
  e.statement.Fits ∧ e.values.length < 2 ^ 16 ∧ ∀ v ∈ e.values, v.Fits version

instance (version : UInt8) (e : BatchEntry) : Decidable (e.Fits version) :=
  inferInstanceAs (Decidable (_ ∧ _ ∧ _))

/-- The query a batch entry is read as, before the batch's parameters are copied into it. -/
def BatchEntry.decode (e : BatchEntry) : BatchQuery :=
  let params : QueryParameters := { values := e.values.map (BoundValue.decode []) }
  match e.statement with
  | .query q => { isPrepared := false, query := q, params }
  | .prepared queryId => { isPrepared := true, queryId, params }

namespace Batch

def write (b : Batch) : List UInt8 :=
  [b.type] ++ writeShort b.entries.length ++ b.entries.flatMap BatchEntry.write ++
    writeShort b.consistency.toNat ++ [b.flags] ++
    whenFlag b.flags kWithSerialConsistencyFlag (writeShort b.serialConsistency.toNat) ++
    whenFlag b.flags kWithDefaultTimestampFlag (writeLong b.defaultTimestamp)

def Fits (version : UInt8) (b : Batch) : Prop :=
  b.entries.length < 2 ^ 16 ∧ ∀ e ∈ b.entries, e.Fits version

instance (version : UInt8) (b : Batch) : Decidable (b.Fits version) :=
  inferInstanceAs (Decidable (_ ∧ _))

def decode (b : Batch) : BatchRequest :=
  let serialConsistency :=
    if b.flags &&& kWithSerialConsistencyFlag ≠ 0 then b.serialConsistency else Consistency.any
  let defaultTimestamp := if b.flags &&& kWithDefaultTimestampFlag ≠ 0 then b.defaultTimestamp else 0
  ⟨b.type, b.entries.map fun e =>
    e.decode.setBatchParameters b.consistency b.flags serialConsistency defaultTimestamp⟩

end Batch

/-! ### Requests -/

/-- The body of a request, by its opcode. An `AUTH_RESPONSE` carries a user name, which holds no
zero byte, and a password. -/
inductive CqlBody
  | startup (options : List (List UInt8 × List UInt8))
  | authResponse (username password : List UInt8)
  | options
  | query (query : List UInt8) (params : Params)
  | prepare (query : List UInt8)
  | execute (queryId : List UInt8) (params : Params)
  | batch (batch : Batch)
  | register (eventTypes : List (List UInt8))
  deriving DecidableEq, Repr

/-- The token of an `AUTH_RESPONSE`: `\0user\0password`. -/
def authToken (username password : List UInt8) : List UInt8 := 0 :: username ++ 0 :: password

namespace CqlBody

def opcode : CqlBody → Opcode
  | startup _ => .startup
  | authResponse _ _ => .authResponse
  | options => .options
  | query _ _ => .query
  | prepare _ => .prepare
  | execute _ _ => .execute
  | batch _ => .batch
  | register _ => .register

def write : CqlBody → List UInt8
  | startup startupOptions => writeStringMap startupOptions
  | authResponse username password => writeLongString (authToken username password)
  | options => []
  | query q params => writeLongString q ++ params.write
  | prepare q => writeLongString q
  | execute queryId params => writeString queryId ++ params.write
  | batch b => b.write
  | register eventTypes => writeStringList eventTypes

/-- A body within its notations. -/
def Fits (version : UInt8) : CqlBody → Prop
  | startup startupOptions =>
    startupOptions.length < 2 ^ 16 ∧ ∀ option ∈ startupOptions, ShortFits option.1 ∧ ShortFits option.2
  | authResponse username password => 0 ∉ username ∧ LongFits (authToken username password)
  | options => True
  | query q params => LongFits q ∧ params.Fits version
  | prepare q => LongFits q
  | execute queryId params => ShortFits queryId ∧ params.Fits version
  | batch b => b.Fits version
  | register eventTypes => eventTypes.length < 2 ^ 16 ∧ ∀ e ∈ eventTypes, ShortFits e

instance (version : UInt8) : (b : CqlBody) → Decidable (b.Fits version)
  | startup startupOptions => inferInstanceAs (Decidable (startupOptions.length < 2 ^ 16 ∧
      ∀ option ∈ startupOptions, ShortFits option.1 ∧ ShortFits option.2))
  | authResponse username password =>
    inferInstanceAs (Decidable (0 ∉ username ∧ LongFits (authToken username password)))
  | options => inferInstanceAs (Decidable True)
  | query q params => inferInstanceAs (Decidable (LongFits q ∧ params.Fits version))
  | prepare q => inferInstanceAs (Decidable (LongFits q))
  | execute queryId params => inferInstanceAs (Decidable (ShortFits queryId ∧ params.Fits version))
  | batch b => inferInstanceAs (Decidable (b.Fits version))
  | register eventTypes => inferInstanceAs (Decidable (eventTypes.length < 2 ^ 16 ∧
      ∀ e ∈ eventTypes, ShortFits e))

/-- The request a body is read as. -/
def decode : CqlBody → RequestBody
  | startup startupOptions => .startup ⟨startupOptions⟩
  | authResponse username password =>
    .authResponse ⟨authToken username password, username, password⟩
  | options => .options
  | query q params => .query ⟨q, params.decode⟩
  | prepare q => .prepare ⟨q⟩
  | execute queryId params => .execute ⟨queryId, params.decode⟩
  | batch b => .batch b.decode
  | register eventTypes => .register ⟨eventTypes⟩

/-- The paging states a body carries: those its parameters' flags select. -/
def pagingStates : CqlBody → List (List UInt8)
  | query _ params | execute _ params =>
    if params.flags &&& kWithPagingStateFlag ≠ 0 then [params.pagingState] else []
  | _ => []

end CqlBody

/-- Bytes that read to their end as protobuf fields, as `WireFormat::SkipMessage` reads them. -/
def isWireFormatMessage (bytes : List UInt8) : Bool :=
  match skipMessage (bytes.length + 1) kDefaultRecursionLimit (CodedInputStream.ofArray bytes) with
  | some (_, 0) => true
  | _ => false

/-- A well-formed body of the protocol: within its notations, with each paging state a protobuf
message. -/
def CqlBody.WellFormed (version : UInt8) (b : CqlBody) : Prop :=
  b.Fits version ∧ ∀ pagingState ∈ b.pagingStates, isWireFormatMessage pagingState = true

instance (version : UInt8) (b : CqlBody) : Decidable (b.WellFormed version) :=
  inferInstanceAs (Decidable (_ ∧ _))

/-- A message of a request: the header, whose length field is the length of the body, and the
body. -/
def frame (version flags : UInt8) (streamId : UInt16) (opcode : Opcode) (body : List UInt8) :
    List UInt8 :=
  [version, flags] ++ writeShort streamId.toNat ++ [opcode.toByte] ++ toBytesBE 4 body.length ++ body

-- Equation lemmas, made once before their uses.
section
attribute [local simp] writeShort BoundValue.write Params.write BatchStatement.write
  BatchEntry.write Batch.write CqlBody.write
end

end FrescoDB.Cql
