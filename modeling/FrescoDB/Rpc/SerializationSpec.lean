import FrescoDB.Rpc.Serialization

/-! What the framing of `serialization.cc` guarantees. A header's protobuf is lawful when its
parser reads back what its serializer writes (`ReadsBack`) and reads only within the stream's
limits (`ReadsWithin`); `ResponseHeader`'s is both. `ParseYBMessage` then reads back every frame
`SerializeHeader` and `SerializeMessage` write that fits in `FLAGS_rpc_max_message_size`, and
accepts a buffer only if it is a varint, the bytes the header's parser took, a varint of the main
message's length and the main message, with nothing after it. -/

namespace FrescoDB.Rpc

open FrescoDB.Lib FrescoDB.Util CodedInputStream

namespace MessageLite

variable {M : Type} {msg : MessageLite M} {s s' : CodedInputStream} {m : M}

/-- The parser reads back what the serializer wrote: from a stream whose readable bytes are the
serialization of an initialized message, `ParseFromCodedStream` returns the message and stops at
their end. -/
def ReadsBack (msg : MessageLite M) : Prop :=
  ∀ (m : M) (s : CodedInputStream), msg.isInitialized m →
    s.available = msg.serializeWithCachedSizes m →
    msg.parseFromCodedStream s = some (m, s.advance (msg.byteSize m))

/-- The parser reads only what the stream lets it read. -/
def ReadsWithin (msg : MessageLite M) : Prop :=
  ∀ (s s' : CodedInputStream) (m : M), msg.mergePartialFromCodedStream s = some (m, s') →
    Advances s s'

theorem parseFromCodedStream_advances (hmsg : msg.ReadsWithin)
    (h : msg.parseFromCodedStream s = some (m, s')) : Advances s s' := by
  obtain ⟨⟨m₀, s₀⟩, hmerge, hinit⟩ := Option.bind_eq_some_iff.mp h
  dsimp only at hinit
  split_ifs at hinit
  cases hinit
  exact hmsg _ _ _ hmerge

end MessageLite

namespace ResponseHeader

variable {s : CodedInputStream} {hdr : ResponseHeader} {rest : List UInt8}

theorem mergePartialLoop_end (fuel : Nat) (h : s.available = []) :
    mergePartialLoop (fuel + 1) s hdr = some (hdr, s) := by
  simp [mergePartialLoop, readTag_of_available_nil h]

theorem mergePartialLoop_callId (fuel : Nat) (callId : Int32)
    (h : s.available = 8 :: writeVarint32SignExtended callId ++ rest) :
    mergePartialLoop (fuel + 1) s hdr =
      mergePartialLoop fuel (s.advance ((writeVarint32SignExtended callId).length + 1))
        { hdr with callId := some callId } := by
  obtain ⟨raw, hraw, hcall⟩ := readVarintBytes_writeVarint32SignExtended callId []
  rw [List.append_nil] at hraw
  have hread : (s.advance 1).readVarint32 =
      some (raw.toUInt32, (s.advance 1).advance (writeVarint32SignExtended callId).length) :=
    @readVarint32_of_available (s.advance 1) _ rest _ (by simp [h]) hraw
  simp [mergePartialLoop, readTag_of_available h (by decide), hread, hcall, advance_advance,
    Nat.add_comm]

theorem mergePartialLoop_isError (fuel : Nat) (isError : Bool)
    (h : s.available = [16, if isError then 1 else 0] ++ rest) :
    mergePartialLoop (fuel + 1) s hdr =
      mergePartialLoop fuel (s.advance 2) { hdr with isError := some isError } := by
  have hraw : readVarintBytes kMaxVarintBytes [if isError then 1 else 0] =
      some ((if isError then 1 else 0 : UInt8).toNat, 1) := by
    cases isError <;> decide
  have hread : (s.advance 1).readVarint64 =
      some ((if isError then 1 else 0 : UInt8).toNat.toUInt64, (s.advance 1).advance 1) :=
    @readVarint64_of_available (s.advance 1) [_] rest _ (by simp [h]) hraw
  have htag := readTag_of_available (s := s) (b := 16) (by simpa using h) (by decide)
  cases isError <;> simp [mergePartialLoop, htag, hread, advance_advance]

theorem mergePartialLoop_sidecarOffset (fuel : Nat) (offset : UInt32)
    (h : s.available = 24 :: writeVarint32 offset ++ rest) :
    mergePartialLoop (fuel + 1) s hdr =
      mergePartialLoop fuel (s.advance ((writeVarint32 offset).length + 1))
        { hdr with sidecarOffsets := hdr.sidecarOffsets ++ [offset] } := by
  have hread := @readVarint32_writeVarint32 (s.advance 1) offset rest (by simp [h])
  simp [mergePartialLoop, readTag_of_available h (by decide), hread, advance_advance, Nat.add_comm]

theorem mergePartialLoop_sidecarOffsets (offsets : List UInt32) :
    ∀ (fuel : Nat) (s : CodedInputStream) (hdr : ResponseHeader) (rest : List UInt8),
      s.available = offsets.flatMap (fun offset => 24 :: writeVarint32 offset) ++ rest →
      mergePartialLoop (fuel + offsets.length) s hdr =
        mergePartialLoop fuel
          (s.advance (offsets.flatMap fun offset => 24 :: writeVarint32 offset).length)
          { hdr with sidecarOffsets := hdr.sidecarOffsets ++ offsets } := by
  induction offsets with
  | nil => intro fuel s hdr rest _; simp
  | cons offset offsets ih =>
    intro fuel s hdr rest h
    rw [List.flatMap_cons, List.append_assoc] at h
    rw [List.length_cons, ← Nat.add_assoc, mergePartialLoop_sidecarOffset _ offset h,
      ih fuel _ _ rest (by simp [h]), advance_advance]
    congr 2
    · simp only [List.flatMap_cons, List.length_append, List.length_cons]
    · simp

theorem two_mul_length_le_offsetsBytes (offsets : List UInt32) :
    2 * offsets.length ≤ (offsets.flatMap fun offset => 24 :: writeVarint32 offset).length := by
  induction offsets with
  | nil => simp
  | cons offset offsets ih =>
    have := one_le_length_varintBytes 4 offset.toNat
    simp only [List.flatMap_cons, List.length_append, List.length_cons, writeVarint32] at ih ⊢
    omega

theorem readsBack : messageLite.ReadsBack := by
  rintro ⟨_ | callId, isError, offsets⟩ s hinit havail
  · simp [messageLite] at hinit
  have hid : 1 ≤ (writeVarint32SignExtended callId).length := by
    unfold writeVarint32SignExtended writeVarint64 writeVarint32
    split <;> exact one_le_length_varintBytes _ _
  have hoffsets := two_mul_length_le_offsetsBytes offsets
  generalize hob : (offsets.flatMap fun offset => 24 :: writeVarint32 offset) = offsetsBytes
    at hoffsets
  -- one field for the call id, one for is_error when it is set, one for each offset, then the end
  have hloop : mergePartialLoop (s.available.length + 1) s {} =
      some (⟨some callId, isError, offsets⟩, s.advance s.available.length) := by
    cases isError with
    | none =>
      have hs : s.available = 8 :: writeVarint32SignExtended callId ++ offsetsBytes := by
        rw [havail, ← hob]
        simp [messageLite, serializeWithCachedSizes]
      obtain ⟨extra, hfuel⟩ : ∃ extra,
          s.available.length + 1 = (extra + 1 + offsets.length) + 1 :=
        ⟨(writeVarint32SignExtended callId).length + offsetsBytes.length - offsets.length, by
          simp only [hs, List.length_cons, List.length_append]
          omega⟩
      rw [hfuel, mergePartialLoop_callId _ callId hs,
        mergePartialLoop_sidecarOffsets _ _ _ _ [] (by simp [hs, ← hob]),
        mergePartialLoop_end _ (by simp [hs, ← hob]), advance_advance, hob]
      simp only [List.nil_append, hs, List.length_cons, List.length_append]
    | some isError =>
      have hs : s.available =
          8 :: writeVarint32SignExtended callId ++ ([16, if isError then 1 else 0] ++ offsetsBytes) := by
        rw [havail, ← hob]
        simp [messageLite, serializeWithCachedSizes]
      obtain ⟨extra, hfuel⟩ : ∃ extra,
          s.available.length + 1 = ((extra + 1 + offsets.length) + 1) + 1 :=
        ⟨(writeVarint32SignExtended callId).length + offsetsBytes.length + 1 - offsets.length, by
          simp only [hs, List.length_cons, List.length_append, List.length_nil]
          omega⟩
      rw [hfuel, mergePartialLoop_callId _ callId hs,
        @mergePartialLoop_isError (s.advance ((writeVarint32SignExtended callId).length + 1)) _
          offsetsBytes _ isError (by simp [hs]),
        mergePartialLoop_sidecarOffsets _ _ _ _ [] (by simp [hs, ← hob, advance_advance]),
        mergePartialLoop_end _ (by simp [hs, hob, advance_advance]; omega), advance_advance,
        advance_advance, hob]
      simp only [List.nil_append, hs, List.length_cons, List.length_append, List.length_nil]
  have hsize : messageLite.byteSize ⟨some callId, isError, offsets⟩ = s.available.length := by
    rw [havail]
    rfl
  have hmerge : messageLite.mergePartialFromCodedStream s =
      some (⟨some callId, isError, offsets⟩, s.advance (messageLite.byteSize ⟨some callId, isError, offsets⟩)) := by
    rw [hsize]
    exact hloop
  simp only [MessageLite.parseFromCodedStream, hmerge]
  rfl

theorem mergePartialLoop_advances {fuel : Nat} {s s' : CodedInputStream}
    {hdr hdr' : ResponseHeader} (h : mergePartialLoop fuel s hdr = some (hdr', s')) :
    Advances s s' := by
  induction fuel generalizing s hdr with
  | zero => simp [mergePartialLoop] at h
  | succ fuel ih =>
    have htag := readTag_advances s
    rcases hrt : s.readTag with ⟨tag, s₁⟩
    rw [hrt] at htag
    simp only [mergePartialLoop, hrt] at h
    -- each branch reads after the tag, then the loop goes on from there
    split_ifs at h
    · cases h
      exact htag
    · obtain ⟨⟨_, s₂⟩, hr, hl⟩ := Option.bind_eq_some_iff.mp h
      exact htag.trans ((readVarint32_advances hr).trans (ih hl))
    · obtain ⟨⟨_, s₂⟩, hr, hl⟩ := Option.bind_eq_some_iff.mp h
      exact htag.trans ((readVarint64_advances hr).trans (ih hl))
    · obtain ⟨⟨_, s₂⟩, hr, hl⟩ := Option.bind_eq_some_iff.mp h
      exact htag.trans ((readVarint32_advances hr).trans (ih hl))
    · obtain ⟨⟨_, s₂⟩, hr, hl⟩ := Option.bind_eq_some_iff.mp h
      exact htag.trans ((readPackedVarint32_advances hr).trans (ih hl))
    · obtain ⟨s₂, hr, hl⟩ := Option.bind_eq_some_iff.mp h
      exact htag.trans ((skipField_advances hr).trans (ih hl))

theorem readsWithin : messageLite.ReadsWithin := fun _ _ _ h => mergePartialLoop_advances h

end ResponseHeader

/-! ### The frame -/

section Frame

variable {H : Type} {msg : MessageLite H} {rpcMaxMessageSize : Int32}

theorem parseYBMessage_eq_ok_iff {b : List UInt8} {header : H} {m : List UInt8} :
    parseYBMessage msg rpcMaxMessageSize b = .ok (header, m) ↔
      ∃ headerLen s₁ s₂ mainMsgLen s₃ s₄,
        ((ofArray b).setTotalBytesLimit rpcMaxMessageSize.toInt).readVarint32 =
          some (headerLen, s₁) ∧
        msg.parseFromCodedStream (s₁.pushLimit headerLen.toInt32.toInt).1 = some (header, s₂) ∧
        (s₂.popLimit s₁.currentLimit).readVarint32 = some (mainMsgLen, s₃) ∧
        s₃.skip mainMsgLen.toInt32.toInt = some s₄ ∧ s₄.bytesUntilLimit ≤ 0 ∧
        m = b.drop (b.length - mainMsgLen.toNat) := by
  unfold parseYBMessage
  dsimp only
  cases h1 : ((ofArray b).setTotalBytesLimit rpcMaxMessageSize.toInt).readVarint32 with
  | none => simp [throw, throwThe, MonadExceptOf.throw]
  | some p =>
  obtain ⟨headerLen, s₁⟩ := p
  dsimp only
  rw [show (s₁.pushLimit headerLen.toInt32.toInt).2 = s₁.currentLimit from rfl]
  cases h2 : msg.parseFromCodedStream (s₁.pushLimit headerLen.toInt32.toInt).1 with
  | none => simp [throw, throwThe, MonadExceptOf.throw, h2]
  | some p =>
  obtain ⟨header', s₂⟩ := p
  dsimp only
  cases h3 : (s₂.popLimit s₁.currentLimit).readVarint32 with
  | none => simp [throw, throwThe, MonadExceptOf.throw, h2, h3]
  | some p =>
  obtain ⟨mainMsgLen, s₃⟩ := p
  dsimp only
  cases h4 : s₃.skip mainMsgLen.toInt32.toInt with
  | none => simp [throw, throwThe, MonadExceptOf.throw, h2, h3, h4]
  | some s₄ =>
  dsimp only
  split_ifs with h5
  · simp [throw, throwThe, MonadExceptOf.throw, bind, Except.bind, h2, h3, h4, not_le.mpr h5]
  · simp [pure, Except.pure, h2, h3, h4, not_lt.mp h5, eq_comm]

theorem parseYBMessage_error_code {b : List UInt8} {status : Status}
    (h : parseYBMessage msg rpcMaxMessageSize b = .error status) : status.code = .kCorruption := by
  unfold parseYBMessage at h
  dsimp only at h
  split at h
  case h_2 => cases h; rfl
  split at h
  case h_2 => cases h; rfl
  split at h
  case h_2 => cases h; rfl
  split at h
  case h_2 => cases h; rfl
  split_ifs at h
  · cases h; rfl
  · cases h

/-- What follows the length prefix of a frame: the header's protobuf and the main message, each
after its length as a varint. -/
def delimitedFrame (hb body : List UInt8) : List UInt8 :=
  writeVarint32 hb.length.toUInt32 ++ hb ++ writeVarint32 body.length.toUInt32 ++ body

-- Equation lemmas, made once before their uses.
section
attribute [local simp] delimitedFrame
end

/-- The reads of `ParseYBMessage` once they have all succeeded: it fails only on bytes left after
the main message. -/
theorem parseYBMessage_of_reads {b : List UInt8} {headerLen mainMsgLen : UInt32} {header : H}
    {s₁ s₂ s₃ s₄ : CodedInputStream}
    (h₁ : ((ofArray b).setTotalBytesLimit rpcMaxMessageSize.toInt).readVarint32 =
      some (headerLen, s₁))
    (h₂ : msg.parseFromCodedStream (s₁.pushLimit headerLen.toInt32.toInt).1 = some (header, s₂))
    (h₃ : (s₂.popLimit s₁.currentLimit).readVarint32 = some (mainMsgLen, s₃))
    (h₄ : s₃.skip mainMsgLen.toInt32.toInt = some s₄) :
    parseYBMessage msg rpcMaxMessageSize b =
      if 0 < s₄.bytesUntilLimit then
        .error ⟨.kCorruption, Status.joinMessages ("Invalid packet: " ++ toString s₄.bytesUntilLimit ++
          " extra bytes at end of packet") (Log.toDebugString b)⟩
      else .ok (header, b.drop (b.length - mainMsgLen.toNat)) := by
  unfold parseYBMessage
  simp only [h₁]
  rw [show (s₁.pushLimit headerLen.toInt32.toInt).2 = s₁.currentLimit from rfl]
  simp only [h₂, h₃, h₄]
  split_ifs <;> rfl

/-- Over a frame and any bytes after it that fit in the limit, each read of `ParseYBMessage`
takes its part, and the main message ends where the frame does. -/
theorem reads_delimitedFrame_append {header : H} {hb body t : List UInt8}
    (hparse : ∀ s : CodedInputStream, s.available = hb →
      msg.parseFromCodedStream s = some (header, s.advance hb.length))
    (hfit : ((delimitedFrame hb body ++ t).length : Int) ≤ rpcMaxMessageSize.toInt) :
    ∃ s₁ s₂ s₃,
      ((ofArray (delimitedFrame hb body ++ t)).setTotalBytesLimit rpcMaxMessageSize.toInt).readVarint32 =
        some (hb.length.toUInt32, s₁) ∧
      msg.parseFromCodedStream (s₁.pushLimit hb.length.toUInt32.toInt32.toInt).1 = some (header, s₂) ∧
      (s₂.popLimit s₁.currentLimit).readVarint32 = some (body.length.toUInt32, s₃) ∧
      s₃.skip body.length.toUInt32.toInt32.toInt =
        some (((ofArray (delimitedFrame hb body ++ t)).setTotalBytesLimit
          rpcMaxMessageSize.toInt).advance (delimitedFrame hb body).length) := by
  unfold delimitedFrame at hfit ⊢
  generalize hv₁ : writeVarint32 hb.length.toUInt32 = v₁
  generalize hv₂ : writeVarint32 body.length.toUInt32 = v₂
  generalize hb₀ : v₁ ++ hb ++ v₂ ++ body ++ t = b
  rw [hv₁, hv₂, hb₀] at hfit
  have hmax := rpcMaxMessageSize.toInt_lt
  have hlen : b.length = v₁.length + hb.length + v₂.length + body.length + t.length := by
    simp [← hb₀]
    omega
  set s₀ := (ofArray b).setTotalBytesLimit rpcMaxMessageSize.toInt with hs₀
  have hbuf : s₀.buffer = b := rfl
  have hpos : s₀.pos = 0 := rfl
  have hcur : s₀.currentLimit = b.length := rfl
  have htot : s₀.totalBytesLimit = (max 0 rpcMaxMessageSize.toInt).toNat := rfl
  have hend₀ : s₀.bufferEnd = b.length := by
    simp only [bufferEnd, hcur, htot, hbuf]
    omega
  -- the header's length
  have h₁ : s₀.readVarint32 = some (hb.length.toUInt32, s₀.advance v₁.length) := by
    have := @readVarint32_writeVarint32 s₀ hb.length.toUInt32 (hb ++ v₂ ++ body ++ t)
      (available_eq_of_window (p := []) (r := []) (by simp [hbuf, ← hb₀, hv₁]) rfl
        (by simp [hend₀, hlen, ← hv₁]; omega))
    rwa [hv₁] at this
  have hheaderLen : hb.length.toUInt32.toInt32.toInt = hb.length := toInt_toInt32_of_lt (by omega)
  -- the header, within its length
  have hwin : ((s₀.advance v₁.length).pushLimit hb.length).1.available = hb := by
    apply available_eq_of_window (p := v₁) (r := v₂ ++ body ++ t)
    · simp [pushLimit, hbuf, ← hb₀]
    · simp [pushLimit]
      rfl
    · simp only [bufferEnd, pushLimit, advance, hcur, htot, hbuf, hpos, kIntMax, Int.toNat_natCast]
      split_ifs <;> omega
  -- after the header, the main message's length, then the main message
  have hpop : (((s₀.advance v₁.length).pushLimit hb.length).1.advance hb.length).popLimit
      (s₀.advance v₁.length).currentLimit = s₀.advance (v₁.length + hb.length) := by
    rw [show (s₀.advance v₁.length).currentLimit =
      ((s₀.advance v₁.length).pushLimit hb.length).2 from rfl, popLimit_advance_pushLimit,
      advance_advance]
  have h₃ : (s₀.advance (v₁.length + hb.length)).readVarint32 = some (body.length.toUInt32,
      (s₀.advance (v₁.length + hb.length)).advance v₂.length) := by
    have := @readVarint32_writeVarint32 (s₀.advance (v₁.length + hb.length)) body.length.toUInt32
      (body ++ t) (available_eq_of_window (p := v₁ ++ hb) (r := [])
        (by simp [hbuf, ← hb₀, hv₂]) (by simp [hpos]) (by simp [hend₀, hlen, ← hv₂]; omega))
    rwa [hv₂] at this
  have hmainLen : body.length.toUInt32.toInt32.toInt = body.length :=
    toInt_toInt32_of_lt (by omega)
  refine ⟨s₀.advance v₁.length, ((s₀.advance v₁.length).pushLimit hb.length).1.advance hb.length,
    (s₀.advance (v₁.length + hb.length)).advance v₂.length, h₁, ?_, ?_, ?_⟩
  · rw [hheaderLen]
    exact hparse _ hwin
  · rw [hpop]
    exact h₃
  · rw [hmainLen, skip_of_le (by simp [length_available, hend₀, hlen, hpos]; omega),
      advance_advance, advance_advance]
    simp [Nat.add_assoc]

/-- `ParseYBMessage` reads back a frame of a header the parser reads in full and of a main
message, when it fits in the limit. -/
theorem parseYBMessage_delimitedFrame {header : H} {hb body : List UInt8}
    (hparse : ∀ s : CodedInputStream, s.available = hb →
      msg.parseFromCodedStream s = some (header, s.advance hb.length))
    (hfit : ((delimitedFrame hb body).length : Int) ≤ rpcMaxMessageSize.toInt) :
    parseYBMessage msg rpcMaxMessageSize (delimitedFrame hb body) = .ok (header, body) := by
  obtain ⟨s₁, s₂, s₃, h₁, h₂, h₃, h₄⟩ :=
    reads_delimitedFrame_append (t := []) hparse (by simpa using hfit)
  rw [List.append_nil] at h₁ h₄
  have hmax := rpcMaxMessageSize.toInt_lt
  have hbody : body.length.toUInt32.toNat = body.length :=
    toNat_toUInt32_of_lt (by simp [delimitedFrame] at hfit; omega)
  rw [parseYBMessage_of_reads h₁ h₂ h₃ h₄, if_neg, hbody]
  · exact congrArg _ (congrArg _ (List.drop_left' (by simp [delimitedFrame]; omega)))
  · simp [bytesUntilLimit, advance, setTotalBytesLimit, ofArray]
    split_ifs <;> omega

/-- What `ParseYBMessage` reads when it succeeds: from the start, a varint, the bytes the header's
parser takes within the limit the varint sets, a second varint, then as many bytes as it says,
up to the end of the buffer. -/
theorem reads_of_parseYBMessage (hmsg : msg.ReadsWithin) {b : List UInt8} {header : H}
    {m : List UInt8} (h : parseYBMessage msg rpcMaxMessageSize b = .ok (header, m)) :
    ∃ headerLen k₁ n₂ k₃ mainMsgLen,
      ReadsVarint32 (b.take k₁) headerLen ∧
      msg.parseFromCodedStream
          ((((ofArray b).setTotalBytesLimit rpcMaxMessageSize.toInt).advance k₁).pushLimit
            headerLen.toInt32.toInt).1 =
        some (header, ((((ofArray b).setTotalBytesLimit rpcMaxMessageSize.toInt).advance k₁).pushLimit
            headerLen.toInt32.toInt).1.advance n₂) ∧
      ReadsVarint32 ((b.drop (k₁ + n₂)).take k₃) mainMsgLen ∧
      mainMsgLen.toNat < 2 ^ 31 ∧
      k₁ + n₂ + k₃ + mainMsgLen.toNat ≤ ((ofArray b).setTotalBytesLimit rpcMaxMessageSize.toInt).bufferEnd ∧
      (b.length = kIntMax ∨ b.length = k₁ + n₂ + k₃ + mainMsgLen.toNat) ∧
      m = b.drop (b.length - mainMsgLen.toNat) := by
  obtain ⟨headerLen, s₁, s₂, mainMsgLen, s₃, s₄, h₁, h₂, h₃, h₄, h₅, rfl⟩ :=
    parseYBMessage_eq_ok_iff.mp h
  set s₀ := (ofArray b).setTotalBytesLimit rpcMaxMessageSize.toInt with hs₀
  have hend₀ : s₀.bufferEnd ≤ b.length := by simp [bufferEnd, hs₀, setTotalBytesLimit, ofArray]
  -- the header's length
  obtain ⟨raw₁, k₁, hraw₁, rfl, rfl⟩ := readVarint32_eq_some.mp h₁
  have hk₁ := readVarintBytes_bounds hraw₁
  -- the header
  obtain ⟨n₂, hn₂, rfl⟩ := MessageLite.parseFromCodedStream_advances hmsg h₂
  have hpop : (((s₀.advance k₁).pushLimit raw₁.toUInt32.toInt32.toInt).1.advance n₂).popLimit
      (s₀.advance k₁).currentLimit = s₀.advance (k₁ + n₂) := by
    rw [show (s₀.advance k₁).currentLimit =
      ((s₀.advance k₁).pushLimit raw₁.toUInt32.toInt32.toInt).2 from rfl, popLimit_advance_pushLimit,
      advance_advance]
  have hn₂' : n₂ ≤ (s₀.advance k₁).available.length :=
    le_trans hn₂ (length_available_pushLimit_le _ _)
  rw [hpop] at h₃
  -- the main message's length and the main message
  obtain ⟨raw₃, k₃, hraw₃, rfl, rfl⟩ := readVarint32_eq_some.mp h₃
  have hk₃ := readVarintBytes_bounds hraw₃
  unfold skip at h₄
  split_ifs at h₄ with hneg hle
  cases h₄
  have hlen₁ : s₀.available.length = s₀.bufferEnd := by simp [length_available, hs₀, setTotalBytesLimit, ofArray]
  obtain ⟨hmain, hmain_lt⟩ := toInt_toInt32_of_nonneg hneg
  rw [hmain, Int.toNat_natCast] at hle h₅
  simp only [available_advance, List.length_drop] at hn₂' hk₃ hle
  have havail₀ : s₀.available = b.take s₀.bufferEnd := by
    simp [available, hs₀, setTotalBytesLimit, ofArray]
  refine ⟨raw₁.toUInt32, k₁, n₂, k₃, raw₃.toUInt32, ⟨raw₁, ?_, rfl⟩, h₂, ⟨raw₃, ?_, rfl⟩, hmain_lt,
    by omega, ?_, rfl⟩
  · -- the first varint lies within the window
    have := readVarintBytes_take hraw₁
    rw [List.length_take_of_le (by omega)]
    rwa [havail₀, List.take_take, Nat.min_eq_left (by omega)] at this
  · have := readVarintBytes_take hraw₃
    rw [List.length_take_of_le (by simp; omega)]
    rwa [available_advance, havail₀, List.drop_take, List.take_take,
      Nat.min_eq_left (by omega)] at this
  · -- the last read ends at the stream's limit, which is the buffer's end
    have hcl : (s₀.advance (k₁ + n₂ + k₃ + raw₃.toUInt32.toNat)).currentLimit = b.length := by
      simp [hs₀, advance, setTotalBytesLimit, ofArray]
    simp only [bytesUntilLimit, advance_advance, hcl] at h₅
    split_ifs at h₅ with hmax
    · exact Or.inl hmax
    · simp only [pos_advance] at h₅
      have : s₀.pos = 0 := by simp [hs₀, setTotalBytesLimit, ofArray]
      omega

/-- A buffer `ParseYBMessage` accepts fits in `FLAGS_rpc_max_message_size`, unless it has
`INT_MAX` bytes, when the coded stream has no limit to compare the end with. -/
theorem length_le_of_parseYBMessage (hmsg : msg.ReadsWithin) {b : List UInt8} {header : H}
    {m : List UInt8} (h : parseYBMessage msg rpcMaxMessageSize b = .ok (header, m))
    (hlen : b.length < kIntMax) : (b.length : Int) ≤ rpcMaxMessageSize.toInt := by
  obtain ⟨_, k₁, n₂, k₃, mainMsgLen, ⟨raw, hraw, -⟩, -, -, -, hend, hall, -⟩ :=
    reads_of_parseYBMessage hmsg h
  -- the first varint takes at least one byte, so a negative limit accepts nothing
  have hk₁ := (readVarintBytes_bounds hraw).1
  rw [bufferEnd_setTotalBytesLimit_ofArray] at hend
  simp only [List.length_take] at hk₁
  rcases hall with hmax | hall <;> omega

theorem parseYBMessage_delimitedFrame_append (hmsg : msg.ReadsWithin) {header : H}
    {hb body t : List UInt8}
    (hparse : ∀ s : CodedInputStream, s.available = hb →
      msg.parseFromCodedStream s = some (header, s.advance hb.length))
    (ht : t ≠ []) (hlen : (delimitedFrame hb body ++ t).length < kIntMax) :
    ∃ status, parseYBMessage msg rpcMaxMessageSize (delimitedFrame hb body ++ t) = .error status ∧
      status.code = .kCorruption := by
  cases hres : parseYBMessage msg rpcMaxMessageSize (delimitedFrame hb body ++ t) with
  | error status => exact ⟨status, rfl, parseYBMessage_error_code hres⟩
  | ok r =>
    exfalso
    -- an accepted buffer fits the limit, so the frame is read as written and the bytes after it
    -- are counted as extra
    have hfit := length_le_of_parseYBMessage hmsg hres hlen
    obtain ⟨s₁, s₂, s₃, h₁, h₂, h₃, h₄⟩ := reads_delimitedFrame_append hparse hfit
    have htlen : 0 < t.length := List.length_pos_iff.mpr ht
    rw [parseYBMessage_of_reads h₁ h₂ h₃ h₄, if_pos] at hres
    · cases hres
    · simp only [List.length_append] at hlen
      simp [bytesUntilLimit, advance, setTotalBytesLimit, ofArray]
      split_ifs <;> omega

/-- A buffer `ParseYBMessage` accepts is a varint, the bytes the header's parser took within the
limit that varint sets, a varint of the main message's length and the main message. -/
theorem eq_append_of_parseYBMessage (hmsg : msg.ReadsWithin) {b : List UInt8} {header : H}
    {m : List UInt8} (h : parseYBMessage msg rpcMaxMessageSize b = .ok (header, m))
    (hlen : b.length < kIntMax) :
    ∃ v₁ hb v₂ headerLen, b = v₁ ++ hb ++ v₂ ++ m ∧ ReadsVarint32 v₁ headerLen ∧
      ReadsVarint32 v₂ m.length.toUInt32 ∧ m.length < 2 ^ 31 ∧
      msg.parseFromCodedStream
          ((((ofArray b).setTotalBytesLimit rpcMaxMessageSize.toInt).advance v₁.length).pushLimit
            headerLen.toInt32.toInt).1 =
        some (header, ((((ofArray b).setTotalBytesLimit rpcMaxMessageSize.toInt).advance
          v₁.length).pushLimit headerLen.toInt32.toInt).1.advance hb.length) := by
  obtain ⟨headerLen, k₁, n₂, k₃, mainMsgLen, hv₁, hheader, hv₂, hmain, hend, hall, rfl⟩ :=
    reads_of_parseYBMessage hmsg h
  have hall : b.length = k₁ + n₂ + k₃ + mainMsgLen.toNat := by
    rcases hall with hall | hall <;> omega
  have hm : (b.drop (b.length - mainMsgLen.toNat)).length = mainMsgLen.toNat := by
    simp only [List.length_drop]
    omega
  have hmain' : (b.drop (b.length - mainMsgLen.toNat)).length.toUInt32 = mainMsgLen := by
    rw [hm]
    exact UInt32.ofNat_toNat
  refine ⟨b.take k₁, (b.drop k₁).take n₂, (b.drop (k₁ + n₂)).take k₃, headerLen, ?_, hv₁,
    by rw [hmain']; exact hv₂, by rw [hm]; exact hmain, ?_⟩
  · -- the four pieces cut the buffer at the ends of the reads
    rw [show b.length - mainMsgLen.toNat = k₁ + n₂ + k₃ by omega]
    conv_lhs => rw [← List.take_append_drop k₁ b, ← List.take_append_drop n₂ (b.drop k₁),
      ← List.take_append_drop k₃ ((b.drop k₁).drop n₂)]
    simp only [List.drop_drop, List.append_assoc, Nat.add_comm]
  · rwa [List.length_take_of_le (by omega), List.length_take_of_le (by simp; omega)]

end Frame
end FrescoDB.Rpc
