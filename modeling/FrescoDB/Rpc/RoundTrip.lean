import FrescoDB.Rpc.SerializationSpec

/-! The round trip of a call. `SerializeResponseBuffer` writes a response as the length prefix, the
response header with the offsets of the sidecars, the response's protobuf, and the sidecars after
it; `CallResponse::ParseFrom` reads the header, the protobuf and each sidecar back. A request is
written by `SetRequestParam` and read by `ParseYBMessage` the same way, with no sidecars. Both hold
exactly when the frame fits in `FLAGS_rpc_max_message_size`; the server checks that bound only in
a debug build. -/

namespace FrescoDB.Rpc

open FrescoDB.Lib FrescoDB.Util CodedInputStream

section Serialize

variable {M H : Type} {ndebug : Bool} {rpcMaxMessageSize : Int32}

/-- Sizing an initialized message: its bytes after the delimiter that records them with the
`additional` bytes after them. -/
theorem serializeMessage_sizing {msg : MessageLite M} {message : M} {additional offset : Nat}
    (hinit : msg.isInitialized message)
    (hsend : ndebug = true ∨ ((msg.byteSize message +
      (writeVarint32 (msg.byteSize message + additional).toUInt32).length + additional : Nat) : Int) ≤
        rpcMaxMessageSize.toInt) :
    serializeMessage ndebug rpcMaxMessageSize msg message none additional offset =
      some (.ok (offset + ((writeVarint32 (msg.byteSize message + additional).toUInt32).length +
        msg.byteSize message), none)) := by
  unfold serializeMessage
  simp only [hinit, Bool.not_true, Bool.false_eq_true, if_false, ← Nat.cast_add,
    ofInt_natCast_toUInt32, ← length_writeVarint32]
  rw [if_neg]
  · congr 4
    omega
  · rcases hsend with hsend | hsend
    · simp [hsend]
    · simp only [Bool.and_eq_true, Bool.not_eq_eq_eq_not, Bool.not_true, decide_eq_true_eq, not_and,
        not_lt]
      intro _
      push_cast at hsend ⊢
      omega

/-- Writing an initialized message into the buffer the header left: the bytes before the offset
are kept, and the delimiter and the message's bytes fill the rest. -/
theorem serializeMessage_write {msg : MessageLite M} {message : M} {additional offset : Nat}
    {buf : List UInt8} (hinit : msg.isInitialized message)
    (hsend : ndebug = true ∨ ((msg.byteSize message +
      (writeVarint32 (msg.byteSize message + additional).toUInt32).length + additional : Nat) : Int) ≤
        rpcMaxMessageSize.toInt)
    (hbuf : buf ≠ [])
    (hlen : buf.length = offset + ((writeVarint32 (msg.byteSize message + additional).toUInt32).length +
        msg.byteSize message)) :
    serializeMessage ndebug rpcMaxMessageSize msg message (some buf) additional offset =
      some (.ok (buf.length, some (buf.take offset ++
        writeVarint32 (msg.byteSize message + additional).toUInt32 ++
        msg.serializeWithCachedSizes message))) := by
  unfold serializeMessage
  simp only [hinit, Bool.not_true, Bool.false_eq_true, if_false, ← Nat.cast_add,
    ofInt_natCast_toUInt32, ← length_writeVarint32]
  rw [if_neg]
  · have hsize : offset + ((msg.byteSize message +
        (writeVarint32 (msg.byteSize message + additional).toUInt32).length : Nat) : Int).toNat =
        buf.length := by omega
    simp only [List.isEmpty_iff, hbuf, if_false, hsize, ne_eq, not_true_eq_false]
  · rcases hsend with hsend | hsend
    · simp [hsend]
    · simp only [Bool.and_eq_true, Bool.not_eq_eq_eq_not, Bool.not_true, decide_eq_true_eq, not_and,
        not_lt]
      intro _
      push_cast at hsend ⊢
      omega

/-- Writing an initialized header: the length of everything after the prefix, the header's
delimiter and bytes, and zeros where the message goes. -/
theorem serializeHeader_of_initialized {msg : MessageLite H} {header : H}
    {paramLen reserveForParam : Nat} (hinit : msg.isInitialized header) :
    serializeHeader ndebug msg header paramLen reserveForParam =
      some (.ok (toBytesBE 4 ((writeVarint32 (msg.byteSize header).toUInt32).length +
          msg.byteSize header + paramLen) ++
        writeVarint32 (msg.byteSize header).toUInt32 ++ msg.serializeWithCachedSizes header ++
          List.replicate reserveForParam 0,
        kMsgLengthPrefixLength + (writeVarint32 (msg.byteSize header).toUInt32).length +
          msg.byteSize header)) := by
  unfold serializeHeader
  simp only [hinit, Bool.not_true, Bool.false_eq_true, if_false, length_writeVarint32]
  rw [Nat.add_assoc kMsgLengthPrefixLength, Nat.add_assoc kMsgLengthPrefixLength,
    Nat.add_sub_cancel_left, ← Nat.add_assoc]

end Serialize

namespace YBInboundCall

theorem sidecarOffsets_snd (start : UInt32) (cars : List (List UInt8)) :
    (sidecarOffsets start cars).2 = start + (cars.map List.length).sum.toUInt32 := by
  induction cars generalizing start with
  | nil => simp [sidecarOffsets]
  | cons car cars ih =>
    simp only [sidecarOffsets, ih, List.map_cons, List.sum_cons, Nat.toUInt32, UInt32.ofNat_add,
      UInt32.add_assoc]

theorem length_sidecarOffsets_fst (start : UInt32) (cars : List (List UInt8)) :
    (sidecarOffsets start cars).1.length = cars.length := by
  induction cars generalizing start with
  | nil => rfl
  | cons car cars ih => simp [sidecarOffsets, ih]

end YBInboundCall

namespace CallResponse

/-- The sidecars are read back from the offsets the server wrote, whatever precedes them, while
the offsets fit in `uint32`. -/
theorem sliceSidecars_sidecarOffsets (cars : List (List UInt8)) :
    ∀ (p : List UInt8) (i : Nat), p.length + (cars.map List.length).sum < 2 ^ 32 →
      sliceSidecars (p ++ cars.flatten) i (YBInboundCall.sidecarOffsets p.length.toUInt32 cars).1 =
        .ok cars := by
  induction cars with
  | nil => intro p i _; rfl
  | cons car cars ih =>
    intro p i hfit
    simp only [List.map_cons, List.sum_cons] at hfit
    have hp : p.length.toUInt32.toNat = p.length := toNat_toUInt32_of_lt (by omega)
    have hnext : p.length.toUInt32 + car.length.toUInt32 = (p ++ car).length.toUInt32 := by
      simp [Nat.toUInt32, UInt32.ofNat_add]
    -- the rest of the sidecars are read after this one, as if it preceded them
    have hrest := ih (p ++ car) (i + 1) (by simp; omega)
    rw [← hnext] at hrest
    have hslice : ((p ++ car ++ cars.flatten).drop p.length).take car.length = car := by
      simp
    rw [List.flatten_cons, ← List.append_assoc]
    cases cars with
    | nil =>
      simp only [YBInboundCall.sidecarOffsets] at hrest ⊢
      simp [sliceSidecars, hp]
    | cons next cars =>
      simp only [YBInboundCall.sidecarOffsets] at hrest ⊢
      have hend : (p.length.toUInt32 + car.length.toUInt32).toNat = p.length + car.length := by
        rw [hnext, toNat_toUInt32_of_lt (by simp only [List.length_append]; omega),
          List.length_append]
      rw [sliceSidecars]
      simp only [hend, hp, hrest]
      rw [if_neg (by simp), Nat.add_sub_cancel_left, hslice]
      rfl

end CallResponse

namespace YBInboundCall

variable {M : Type} {ndebug : Bool} {rpcMaxMessageSize : Int32} {msg : MessageLite M}
  {call : YBInboundCall} {response : M} {isSuccess : Bool}

/-- What follows the length prefix of a response with its sidecars: the response header, then
the response's protobuf and the sidecars as the main message. -/
def responseFrame (msg : MessageLite M) (call : YBInboundCall) (response : M) (isSuccess : Bool) :
    List UInt8 :=
  delimitedFrame (responseHeader msg call response isSuccess).serializeWithCachedSizes
    (msg.serializeWithCachedSizes response ++ call.sidecars.flatten)

/-- `SerializeResponseBuffer` writes the length prefix and the frame up to the sidecars, which
are sent after it. -/
theorem serializeResponseBuffer_eq (hinit : msg.isInitialized response)
    (hsize : (responseFrame msg call response isSuccess).length < kIntMax)
    (hsend : ndebug = true ∨
      ((responseFrame msg call response isSuccess).length : Int) ≤ rpcMaxMessageSize.toInt) :
    ∃ buf, serializeResponseBuffer ndebug rpcMaxMessageSize msg call response isSuccess =
        some (.ok { call with responseBuf := buf }) ∧
      buf ++ call.sidecars.flatten = toBytesBE 4 (responseFrame msg call response isSuccess).length ++
        responseFrame msg call response isSuccess := by
  generalize hA : (call.sidecars.map List.length).sum = A
  have hflat : call.sidecars.flatten.length = A := by rw [List.length_flatten, hA]
  have hP : (msg.serializeWithCachedSizes response).length = msg.byteSize response := rfl
  simp only [responseFrame, delimitedFrame, List.length_append, hflat, hP] at hsize hsend
  -- the sidecars' total length, as the header's offsets and the message's delimiter record it
  have habs : (sidecarOffsets (msg.byteSize response).toUInt32 call.sidecars).2 =
      (msg.byteSize response + A).toUInt32 := by
    rw [sidecarOffsets_snd, hA, toUInt32_add]
  have hadd : ((msg.byteSize response + A).toUInt32 - (msg.byteSize response).toUInt32).toInt32.toInt =
      A := by
    rw [toUInt32_add, add_sub_cancel_left]
    exact toInt_toInt32_of_lt (by simp only [kIntMax] at hsize; omega)
  have hsend' : ndebug = true ∨ ((msg.byteSize response +
      (writeVarint32 (msg.byteSize response + A).toUInt32).length + A : Nat) : Int) ≤
        rpcMaxMessageSize.toInt := by
    rcases hsend with hsend | hsend
    · exact Or.inl hsend
    · right
      push_cast at hsend ⊢
      omega
  unfold serializeResponseBuffer
  simp only [habs, hadd]
  rw [serializeMessage_sizing hinit hsend']
  dsimp only
  rw [serializeHeader_of_initialized rfl]
  dsimp only
  generalize hhs : (responseHeader msg call response isSuccess).serializeWithCachedSizes = hs at hsize hsend
  have hbs : ResponseHeader.messageLite.byteSize (responseHeader msg call response isSuccess) =
      hs.length := by rw [← hhs]; rfl
  have hser : ResponseHeader.messageLite.serializeWithCachedSizes
      (responseHeader msg call response isSuccess) = hs := hhs
  simp only [hbs, hser]
  rw [serializeMessage_write hinit hsend'
    (List.ne_nil_of_length_pos (by simp only [List.length_append, length_toBytesBE]; omega))
    (by simp only [List.length_append, length_toBytesBE, List.length_replicate,
      kMsgLengthPrefixLength]; omega)]
  dsimp only
  refine ⟨_, rfl, ?_⟩
  rw [Option.getD_some, List.take_left' (by simp [kMsgLengthPrefixLength]; omega)]
  simp only [responseFrame, delimitedFrame, hhs, List.length_append, hP, hflat]
  have hx : (writeVarint32 hs.length.toUInt32).length + hs.length +
      (((0 + ((writeVarint32 (msg.byteSize response + A).toUInt32).length +
        msg.byteSize response) : Nat) : Int) + A).toNat =
      (writeVarint32 hs.length.toUInt32).length + hs.length +
        (writeVarint32 (msg.byteSize response + A).toUInt32).length + (msg.byteSize response + A) := by
    omega
  rw [hx]
  simp only [List.append_assoc]

/-- `CallResponse::ParseFrom` reads back the header, the response's protobuf and the sidecars of a
response frame, exactly when the frame fits in `FLAGS_rpc_max_message_size`. -/
theorem parseFrom_responseFrame (hcars : call.sidecars.length ≤ kMaxSidecarSlices)
    (hsize : (responseFrame msg call response isSuccess).length < kIntMax) :
    CallResponse.parseFrom rpcMaxMessageSize {} (responseFrame msg call response isSuccess) =
        some (.ok
          { parsed := true, header := responseHeader msg call response isSuccess,
            serializedResponse := msg.serializeWithCachedSizes response,
            sidecarSlices := call.sidecars }) ↔
      ((responseFrame msg call response isSuccess).length : Int) ≤ rpcMaxMessageSize.toInt := by
  constructor
  · intro h
    cases hp : parseYBMessage ResponseHeader.messageLite rpcMaxMessageSize
        (responseFrame msg call response isSuccess) with
    | error status => simp [CallResponse.parseFrom, hp, bind, Except.bind] at h
    | ok r => exact length_le_of_parseYBMessage ResponseHeader.readsWithin hp hsize
  · intro hfit
    have hparse : ∀ s : CodedInputStream,
        s.available = (responseHeader msg call response isSuccess).serializeWithCachedSizes →
        ResponseHeader.messageLite.parseFromCodedStream s =
          some (responseHeader msg call response isSuccess,
            s.advance (responseHeader msg call response isSuccess).serializeWithCachedSizes.length) :=
      fun s hs => ResponseHeader.readsBack _ s rfl hs
    unfold responseFrame at hfit ⊢
    have hp := parseYBMessage_delimitedFrame hparse hfit
    have hcount : (responseHeader msg call response isSuccess).sidecarOffsets.length =
        call.sidecars.length := length_sidecarOffsets_fst _ _
    simp only [CallResponse.parseFrom, hp, Bool.false_eq_true, if_false, bind, Except.bind]
    rw [hcount, if_neg (by omega)]
    -- with sidecars the protobuf ends where the first begins; without, it is the whole message
    cases hcars' : call.sidecars with
    | nil =>
      simp [responseHeader, hcars', sidecarOffsets, pure, Except.pure]
    | cons car cars =>
      have hoff : (responseHeader msg call response isSuccess).sidecarOffsets =
          (sidecarOffsets (msg.serializeWithCachedSizes response).length.toUInt32 (car :: cars)).1 := by
        rw [← hcars']
        rfl
      have hfit32 : (msg.serializeWithCachedSizes response).length +
          ((car :: cars).map List.length).sum < 2 ^ 32 := by
        simp only [responseFrame, delimitedFrame, List.length_append, hcars', List.length_flatten,
          kIntMax] at hsize
        omega
      have hP : (msg.serializeWithCachedSizes response).length.toUInt32.toNat =
          (msg.serializeWithCachedSizes response).length := toNat_toUInt32_of_lt (by omega)
      rw [hoff, CallResponse.sliceSidecars_sidecarOffsets (car :: cars) _ 0 hfit32]
      simp [sidecarOffsets, hP, pure, Except.pure]

end YBInboundCall

namespace OutboundCall

variable {H M : Type} {ndebug : Bool} {rpcMaxMessageSize : Int32} {headerMsg : MessageLite H}
  {msg : MessageLite M} {call : OutboundCall H} {message : M}

/-- What follows the length prefix of a request: its header, then the request's protobuf. -/
def requestFrame (headerMsg : MessageLite H) (msg : MessageLite M) (call : OutboundCall H)
    (message : M) : List UInt8 :=
  delimitedFrame (headerMsg.serializeWithCachedSizes call.header) (msg.serializeWithCachedSizes message)

theorem setRequestParam_eq (hheader : headerMsg.isInitialized call.header)
    (hinit : msg.isInitialized message)
    (hsend : ndebug = true ∨
      ((requestFrame headerMsg msg call message).length : Int) ≤ rpcMaxMessageSize.toInt) :
    setRequestParam ndebug rpcMaxMessageSize headerMsg msg call message =
      some (.ok { call with
        buffer := toBytesBE 4 (requestFrame headerMsg msg call message).length ++
          requestFrame headerMsg msg call message }) := by
  have hP : (msg.serializeWithCachedSizes message).length = msg.byteSize message := rfl
  have hH : (headerMsg.serializeWithCachedSizes call.header).length = headerMsg.byteSize call.header :=
    rfl
  simp only [requestFrame, delimitedFrame, List.length_append, hP, hH] at hsend
  have hsend' : ndebug = true ∨ ((msg.byteSize message +
      (writeVarint32 (msg.byteSize message + 0).toUInt32).length + 0 : Nat) : Int) ≤
        rpcMaxMessageSize.toInt := by
    rcases hsend with hsend | hsend
    · exact Or.inl hsend
    · right
      simp only [Nat.add_zero]
      push_cast at hsend ⊢
      omega
  have hsizing := @serializeMessage_sizing M ndebug rpcMaxMessageSize msg message 0 0 hinit hsend'
  rw [Nat.cast_zero] at hsizing
  unfold setRequestParam
  rw [hsizing]
  dsimp only
  rw [serializeHeader_of_initialized hheader]
  dsimp only
  -- the request has nothing after its protobuf
  rw [← @Nat.cast_zero Int, serializeMessage_write hinit hsend' (List.ne_nil_of_length_pos ?_) ?_]
  rotate_left
  · simp only [List.length_append, length_toBytesBE]
    omega
  · simp only [List.length_append, length_toBytesBE, List.length_replicate, kMsgLengthPrefixLength]
    omega
  dsimp only
  rw [Option.getD_some, List.take_left' (by simp [kMsgLengthPrefixLength]; omega)]
  simp only [requestFrame, delimitedFrame, List.length_append, hP, hH, Nat.add_zero, Nat.zero_add,
    List.append_assoc, Nat.add_assoc]

/-- `ParseYBMessage` reads back the header and the request's protobuf from a request frame,
exactly when the frame fits in `FLAGS_rpc_max_message_size`. -/
theorem parseYBMessage_requestFrame (hback : headerMsg.ReadsBack) (hwithin : headerMsg.ReadsWithin)
    (hheader : headerMsg.isInitialized call.header)
    (hsize : (requestFrame headerMsg msg call message).length < kIntMax) :
    parseYBMessage headerMsg rpcMaxMessageSize (requestFrame headerMsg msg call message) =
        .ok (call.header, msg.serializeWithCachedSizes message) ↔
      ((requestFrame headerMsg msg call message).length : Int) ≤ rpcMaxMessageSize.toInt := by
  constructor
  · intro h
    exact length_le_of_parseYBMessage hwithin h hsize
  · intro hfit
    exact parseYBMessage_delimitedFrame (fun s hs => hback _ s hheader hs) hfit

end OutboundCall

/-! ### The round trip -/

end FrescoDB.Rpc
