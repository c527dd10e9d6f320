import FrescoDB.Lib.CodedStream
import FrescoDB.Lib.BigEndian
import FrescoDB.Consensus.LogUtil

/-! The framing of YB RPC calls (`rpc/serialization.cc`) and its users: the server's
`YBInboundCall::SerializeResponseBuffer` with `AddRpcSidecar`, and the client's
`OutboundCall::SetRequestParam` and `CallResponse::ParseFrom`. A call is a four-byte big-endian
length, the varint-delimited header, then the varint-delimited main message, which in a response
holds the response's protobuf and then its sidecars, at the offsets the header lists.

A protobuf message type is given by its serialization, its parser from a coded stream and its
required fields (`MessageLite`); `ResponseHeader`'s are written out as protoc generates them, with
unknown fields skipped and not kept. Buffers are lists of bytes, a fresh `RefCntBuffer` holding
zeros; `int` sums are taken not to overflow. `None` stops the process: a failed `CHECK`, and in a
debug build (`ndebug` false) a `LOG(DFATAL)`. Memory trackers and the pool of remote methods are
left out. -/
namespace FrescoDB.Rpc

open FrescoDB.Lib FrescoDB.Util CodedInputStream

/-- `kMsgLengthPrefixLength`. -/
def kMsgLengthPrefixLength : Nat := 4

/-- `CallResponse::kMaxSidecarSlices`. -/
def kMaxSidecarSlices : Nat := 16

/-- The default of `FLAGS_rpc_max_message_size`, `255_MB`. -/
def defaultRpcMaxMessageSize : Int32 := 255 * 1024 * 1024

/-- A protobuf message type as the RPC layer uses it through `MessageLite`. -/
structure MessageLite (M : Type) where
  /-- `SerializeWithCachedSizesToArray`; `ByteSize()` is its length. -/
  serializeWithCachedSizes : M → List UInt8
  /-- `MergePartialFromCodedStream` into a cleared message. -/
  mergePartialFromCodedStream : CodedInputStream → Option (M × CodedInputStream)
  isInitialized : M → Bool
  initializationErrorString : M → String

namespace MessageLite

variable {M : Type}

def byteSize (msg : MessageLite M) (m : M) : Nat := (msg.serializeWithCachedSizes m).length

/-- `ParseFromCodedStream`: `Clear()`, then `MergePartialFromCodedStream` and `IsInitialized()`. -/
def parseFromCodedStream (msg : MessageLite M) (s : CodedInputStream) :
    Option (M × CodedInputStream) := do
  let (m, s) ← msg.mergePartialFromCodedStream s
  if msg.isInitialized m then some (m, s) else none

end MessageLite

section Serialize

variable {M H : Type}

/-- `SerializeMessage`: `*size`, the offset and the bytes of the message with its delimiter, and
when `param_buf` is given the buffer with those bytes written at the offset. An empty buffer is
allocated; one of another size fails its `CHECK`. `use_cached_size` is left out: the cached size
is the size. -/
def serializeMessage (ndebug : Bool) (rpcMaxMessageSize : Int32) (msg : MessageLite M)
    (message : M) (paramBuf : Option (List UInt8)) (additionalSize : Int) (offset : Nat) :
    Option (Except Status (Nat × Option (List UInt8))) :=
  if !msg.isInitialized message then
    some (.error ⟨.kInvalidArgument, Status.joinMessages "RPC argument missing required fields"
      (msg.initializationErrorString message)⟩)
  else
    let pbSize : Int := msg.byteSize message
    let recordedSize := pbSize + additionalSize
    let sizeWithDelim := pbSize + varintSize32 (UInt32.ofInt recordedSize)
    let totalSize := sizeWithDelim + additionalSize
    -- "Sending too long of an RPC message"
    if !ndebug && totalSize > rpcMaxMessageSize.toInt then none
    else
      let size := offset + sizeWithDelim.toNat
      match paramBuf with
      | none => some (.ok (size, none))
      | some buf =>
        let buf := if buf.isEmpty then List.replicate size 0 else buf
        if buf.length ≠ size then none
        else some (.ok (size, some (buf.take offset ++ writeVarint32 (UInt32.ofInt recordedSize) ++
          msg.serializeWithCachedSizes message)))

/-- `SerializeHeader`: a buffer of the length of everything after the prefix, the header's size
as a varint and the header, with room for `reserveForParam` bytes after them; and the size of what
it wrote. -/
def serializeHeader (ndebug : Bool) (msg : MessageLite H) (header : H)
    (paramLen reserveForParam : Nat) : Option (Except Status (List UInt8 × Nat)) :=
  if !msg.isInitialized header then
    -- "Uninitialized RPC header"
    if !ndebug then none
    else some (.error ⟨.kInvalidArgument, Status.joinMessages "RPC header missing required fields"
      (msg.initializationErrorString header)⟩)
  else
    let headerPbLen := msg.byteSize header
    let headerTotLen := kMsgLengthPrefixLength + varintSize32 headerPbLen.toUInt32 + headerPbLen
    let totalSize := headerTotLen + paramLen
    let written := toBytesBE 4 (totalSize - kMsgLengthPrefixLength) ++
      writeVarint32 headerPbLen.toUInt32 ++ msg.serializeWithCachedSizes header
    some (.ok (written ++ List.replicate reserveForParam 0, headerTotLen))

end Serialize

/-- `ParseYBMessage`: the header as its own protobuf within the length before it, then the main
message, which must end the buffer. -/
def parseYBMessage {H : Type} (msg : MessageLite H) (rpcMaxMessageSize : Int32)
    (buf : List UInt8) : Except Status (H × List UInt8) := do
  let s := (ofArray buf).setTotalBytesLimit rpcMaxMessageSize.toInt
  let debugString := Log.toDebugString buf
  let some (headerLen, s) := s.readVarint32
    | throw ⟨.kCorruption, Status.joinMessages "Invalid packet: missing header delimiter" debugString⟩
  let (s, l) := s.pushLimit headerLen.toInt32.toInt
  let some (parsedHeader, s) := msg.parseFromCodedStream s
    | throw ⟨.kCorruption, Status.joinMessages "Invalid packet: header too short" debugString⟩
  let s := s.popLimit l
  let some (mainMsgLen, s) := s.readVarint32
    | throw ⟨.kCorruption, Status.joinMessages "Invalid packet: missing main msg length" debugString⟩
  let expected := mainMsgLen.toInt32.toInt
  let some s := s.skip mainMsgLen.toInt32.toInt
    | throw ⟨.kCorruption, Status.joinMessages
        s!"Invalid packet: data too short, expected {expected} byte main_msg" debugString⟩
  let extra := s.bytesUntilLimit
  if 0 < extra then
    throw ⟨.kCorruption, Status.joinMessages
      s!"Invalid packet: {extra} extra bytes at end of packet" debugString⟩
  pure (parsedHeader, buf.drop (buf.length - mainMsgLen.toNat))

/-! ### The response header -/

/-- `ResponseHeader` of `rpc_header.proto`, each optional field with whether it is set. -/
structure ResponseHeader where
  callId : Option Int32 := none
  isError : Option Bool := none
  sidecarOffsets : List UInt32 := []
  deriving DecidableEq, Repr

namespace ResponseHeader

/-- The fields that are set, in field order; the offsets are not packed. -/
def serializeWithCachedSizes (h : ResponseHeader) : List UInt8 :=
  (match h.callId with
    | some callId => 8 :: writeVarint32SignExtended callId
    | none => []) ++
  (match h.isError with
    | some isError => [16, if isError then 1 else 0]
    | none => []) ++
  h.sidecarOffsets.flatMap fun offset => 24 :: writeVarint32 offset

/-- The loop of `MergePartialFromCodedStream`, at most `fuel` fields: up to a zero tag, each field
by its tag, the others skipped. Each field takes a byte of its tag, so the fuel it is given, one
more than the bytes, is not used up. -/
def mergePartialLoop : Nat → CodedInputStream → ResponseHeader →
    Option (ResponseHeader × CodedInputStream)
  | 0, _, _ => none
  | fuel + 1, s, h =>
    let (tag, s) := s.readTag
    if tag = 0 then some (h, s)
    else if tag = 8 then do
      let (callId, s) ← s.readVarint32
      mergePartialLoop fuel s { h with callId := some callId.toInt32 }
    else if tag = 16 then do
      let (isError, s) ← s.readVarint64
      mergePartialLoop fuel s { h with isError := some (isError != 0) }
    else if tag = 24 then do
      let (offset, s) ← s.readVarint32
      mergePartialLoop fuel s { h with sidecarOffsets := h.sidecarOffsets ++ [offset] }
    else if tag = 26 then do
      let (offsets, s) ← readPackedVarint32 s
      mergePartialLoop fuel s { h with sidecarOffsets := h.sidecarOffsets ++ offsets }
    else do
      -- a group takes two levels of fuel for each byte of its tags
      let s ← skipField (2 * s.available.length + 2) kDefaultRecursionLimit s tag
      mergePartialLoop fuel s h

def messageLite : MessageLite ResponseHeader where
  serializeWithCachedSizes := serializeWithCachedSizes
  mergePartialFromCodedStream s := mergePartialLoop (s.available.length + 1) s {}
  isInitialized h := h.callId.isSome
  initializationErrorString h := if h.callId.isSome then "" else "call_id"

end ResponseHeader

/-! ### The server's response -/

/-- A `YBInboundCall` as its response is built: the call id of its request, the sidecars added
and the response buffer. -/
structure YBInboundCall where
  callId : Int32
  sidecars : List (List UInt8) := []
  responseBuf : List UInt8 := []

namespace YBInboundCall

/-- `AddRpcSidecar`, with the sidecar's index. -/
def addRpcSidecar (call : YBInboundCall) (car : List UInt8) : Except Status (YBInboundCall × Nat) :=
  if call.sidecars.length ≥ kMaxSidecarSlices then
    .error ⟨.kServiceUnavailable, "All available sidecars already used"⟩
  else .ok ({ call with sidecars := call.sidecars ++ [car] }, call.sidecars.length)

/-- The loop of `SerializeResponseBuffer` over the sidecars: the offset of each, from `start` on,
and `absolute_sidecar_offset` after them, in `uint32`. -/
def sidecarOffsets (start : UInt32) : List (List UInt8) → List UInt32 × UInt32
  | [] => ([], start)
  | car :: cars =>
    let (offsets, absolute) := sidecarOffsets (start + car.length.toUInt32) cars
    (start :: offsets, absolute)

/-- `resp_hdr` of `SerializeResponseBuffer`: the request's call id, whether the call failed, and
where each sidecar starts in the main message, after the response's protobuf. -/
def responseHeader {M : Type} (msg : MessageLite M) (call : YBInboundCall) (response : M)
    (isSuccess : Bool) : ResponseHeader :=
  { callId := some call.callId, isError := some !isSuccess,
    sidecarOffsets := (sidecarOffsets (msg.byteSize response).toUInt32 call.sidecars).1 }

/-- `SerializeResponseBuffer`: the message is sized, the header written with the sidecars'
offsets, then the message after it. -/
def serializeResponseBuffer {M : Type} (ndebug : Bool) (rpcMaxMessageSize : Int32)
    (msg : MessageLite M) (call : YBInboundCall) (response : M) (isSuccess : Bool) :
    Option (Except Status YBInboundCall) :=
  let protobufMsgSize := (msg.byteSize response).toUInt32
  let absoluteSidecarOffset := (sidecarOffsets protobufMsgSize call.sidecars).2
  let respHdr := responseHeader msg call response isSuccess
  let additionalSize := (absoluteSidecarOffset - protobufMsgSize).toInt32.toInt
  match serializeMessage ndebug rpcMaxMessageSize msg response none additionalSize 0 with
  | none => none
  | some (.error status) => some (.error status)
  | some (.ok (messageSize, _)) =>
    match serializeHeader ndebug ResponseHeader.messageLite respHdr
        (messageSize + additionalSize).toNat messageSize with
    | none => none
    | some (.error status) => some (.error status)
    | some (.ok (responseBuf, headerSize)) =>
      match serializeMessage ndebug rpcMaxMessageSize msg response (some responseBuf)
          additionalSize headerSize with
      | none => none
      | some (.error status) => some (.error status)
      | some (.ok (_, buf)) => some (.ok { call with responseBuf := buf.getD responseBuf })

end YBInboundCall

/-! ### The client's call -/

/-- An `OutboundCall` as its request is built: the `RequestHeader` that `InitHeader` fills, and
the buffer. -/
structure OutboundCall (H : Type) where
  header : H
  buffer : List UInt8 := []

namespace OutboundCall

/-- `SetRequestParam`: the message is sized, the header written, then the message after it. -/
def setRequestParam {H M : Type} (ndebug : Bool) (rpcMaxMessageSize : Int32)
    (headerMsg : MessageLite H) (msg : MessageLite M) (call : OutboundCall H) (message : M) :
    Option (Except Status (OutboundCall H)) :=
  match serializeMessage ndebug rpcMaxMessageSize msg message none 0 0 with
  | none => none
  | some (.error status) => some (.error status)
  | some (.ok (messageSize, _)) =>
    match serializeHeader ndebug headerMsg call.header messageSize messageSize with
    | none => none
    | some (.error status) => some (.error status)
    | some (.ok (buffer, headerSize)) =>
      match serializeMessage ndebug rpcMaxMessageSize msg message (some buffer) 0 headerSize with
      | none => none
      | some (.error status) => some (.error status)
      | some (.ok (_, buf)) => some (.ok { call with buffer := buf.getD buffer })

end OutboundCall

/-- A `CallResponse`: whether it was parsed, the header, the response's protobuf and the
sidecars. -/
structure CallResponse where
  parsed : Bool := false
  header : ResponseHeader := {}
  serializedResponse : List UInt8 := []
  sidecarSlices : List (List UInt8) := []

namespace CallResponse

/-- The loop of `ParseFrom` over the sidecars from the `i`-th: each from its offset to the next
one's, the last to the end of the message. -/
def sliceSidecars (entireMessage : List UInt8) (i : Nat) :
    List UInt32 → Except Status (List (List UInt8))
  | [] => .ok []
  | beginOffset :: rest => do
    let size := entireMessage.length
    let endOffset := match rest with
      | [] => size
      | next :: _ => next.toNat
    if endOffset > size ∨ endOffset < beginOffset.toNat then
      throw ⟨.kCorruption, s!"Invalid sidecar offsets; sidecar {i} apparently starts at {beginOffset}, ends at {endOffset}, but the entire message has length {size}"⟩
    let slices ← sliceSidecars entireMessage (i + 1) rest
    pure (((entireMessage.drop beginOffset.toNat).take (endOffset - beginOffset.toNat)) :: slices)

/-- `ParseFrom`; `none` is the failure of `CHECK(!parsed_)`. -/
def parseFrom (rpcMaxMessageSize : Int32) (r : CallResponse) (callData : List UInt8) :
    Option (Except Status CallResponse) :=
  if r.parsed then none
  else some do
    let (header, entireMessage) ← parseYBMessage ResponseHeader.messageLite rpcMaxMessageSize callData
    let sidecars := header.sidecarOffsets.length
    if sidecars > kMaxSidecarSlices then
      throw ⟨.kCorruption, s!"Received {sidecars} additional payload slices, expected at most {kMaxSidecarSlices}"⟩
    match header.sidecarOffsets with
    | [] => pure { r with parsed := true, header, serializedResponse := entireMessage }
    | first :: _ =>
      let sidecarSlices ← sliceSidecars entireMessage 0 header.sidecarOffsets
      pure { r with
        parsed := true, header, sidecarSlices, serializedResponse := entireMessage.take first.toNat }

end CallResponse

-- Equation lemmas, made once before their uses.
section
attribute [local simp] ResponseHeader.mergePartialLoop YBInboundCall.sidecarOffsets
end

end FrescoDB.Rpc
