import FrescoDB.Cql.CqlGrammar

/-! `CQLRequest::ParseRequest` against the grammar of the native protocol: every body of the
grammar, framed behind a header of a supported version and sent as it is or compressed, is read
back as the request it encodes. The round trip is built from the notations up, one reader at a
time, each chained to the next by the rest it leaves. The paging state is read as bytes and never
parsed, so the bodies read back include those whose paging state is not a `QLPagingStatePB`. -/
namespace FrescoDB.Cql
open FrescoDB.Lib FrescoDB.Util ByteReader

section Notations

variable (rest : List UInt8)

theorem parseNum_toBytesBE {w v : Nat} (h : v < 256 ^ w) :
    (parseNum w).run (toBytesBE w v ++ rest) = .ok (v, rest) :=
  readBE_toBytesBE_of_lt rest h

theorem parseByte_cons (b : UInt8) : parseByte.run (b :: rest) = .ok (b, rest) := by
  have hread : (parseNum 1).run (toBytesBE 1 b.toNat ++ rest) = .ok (b.toNat, rest) :=
    parseNum_toBytesBE rest b.toNat_lt
  have hbyte : toBytesBE 1 b.toNat = [b] := by simp [toBytesBE]
  rw [hbyte, List.singleton_append] at hread
  simp only [parseByte, run_bind_of_ok hread, run_pure]
  simp

theorem parseShort_writeShort {n : Nat} (h : n < 2 ^ 16) :
    parseShort.run (writeShort n ++ rest) = .ok (n.toUInt16, rest) := by
  have hread : (parseNum 2).run (toBytesBE 2 n ++ rest) = .ok (n, rest) :=
    parseNum_toBytesBE rest h
  simp only [parseShort, writeShort, run_bind_of_ok hread, run_pure]

theorem parseConsistency_writeShort (c : UInt16) :
    parseConsistency.run (writeShort c.toNat ++ rest) = .ok (c, rest) := by
  have hread : (parseNum 2).run (toBytesBE 2 c.toNat ++ rest) = .ok (c.toNat, rest) :=
    parseNum_toBytesBE rest c.toNat_lt
  simp only [parseConsistency, writeShort, run_bind_of_ok hread, run_pure]
  simp

theorem parseInt_writeInt (n : Int32) : parseInt.run (writeInt n ++ rest) = .ok (n, rest) := by
  have hread : (parseNum 4).run (toBytesBE 4 n.toUInt32.toNat ++ rest) =
      .ok (n.toUInt32.toNat, rest) :=
    parseNum_toBytesBE rest n.toUInt32.toNat_lt
  simp only [parseInt, writeInt, run_bind_of_ok hread, run_pure]
  simp

theorem parseLong_writeLong (n : Int64) : parseLong.run (writeLong n ++ rest) = .ok (n, rest) := by
  have hread : (parseNum 8).run (toBytesBE 8 n.toUInt64.toNat ++ rest) =
      .ok (n.toUInt64.toNat, rest) :=
    parseNum_toBytesBE rest n.toUInt64.toNat_lt
  simp only [parseLong, writeLong, run_bind_of_ok hread, run_pure]
  simp

theorem sizeOfInt32_ofNat {n : Nat} (h : n < 2 ^ 31) : sizeOfInt32 (Int32.ofNat n) = n := by
  have hlt : (n : Int) < 2 ^ 64 := by omega
  simp only [sizeOfInt32, Int32.toInt_ofNat_of_lt h, Int.emod_eq_of_lt (Int.natCast_nonneg n) hlt,
    Int.toNat_natCast]

theorem parseBytesWith_append {lenParser : ByteReader Status Nat} {header s : List UInt8}
    (hlen : ∀ rest, lenParser.run (header ++ rest) = .ok (s.length, rest)) :
    (parseBytesWith lenParser).run (header ++ s ++ rest) = .ok (s, rest) := by
  simp only [parseBytesWith, List.append_assoc, run_bind_of_ok (hlen _), takeBytes_append]

theorem shortLength_writeShort {s : List UInt8} (h : ShortFits s) :
    (do return (← parseShort).toNat : ByteReader Status Nat).run (writeShort s.length ++ rest) =
      .ok (s.length, rest) := by
  rw [run_bind_of_ok (parseShort_writeShort rest h), run_pure]
  simp only [ShortFits] at h
  simp; omega

theorem longLength_writeInt {s : List UInt8} (h : LongFits s) :
    (do return sizeOfInt32 (← parseInt) : ByteReader Status Nat).run
      (writeInt (Int32.ofNat s.length) ++ rest) = .ok (s.length, rest) := by
  rw [run_bind_of_ok (parseInt_writeInt rest _), run_pure, sizeOfInt32_ofNat h]

theorem parseString_writeString {s : List UInt8} (h : ShortFits s) :
    parseString.run (writeString s ++ rest) = .ok (s, rest) :=
  parseBytesWith_append rest fun rest => shortLength_writeShort rest h

theorem parseShortBytes_writeString {s : List UInt8} (h : ShortFits s) :
    parseShortBytes.run (writeString s ++ rest) = .ok (s, rest) :=
  parseBytesWith_append rest fun rest => shortLength_writeShort rest h

theorem parseLongString_writeLongString {s : List UInt8} (h : LongFits s) :
    parseLongString.run (writeLongString s ++ rest) = .ok (s, rest) :=
  parseBytesWith_append rest fun rest => longLength_writeInt rest h

theorem parseBytes_writeLongString {s : List UInt8} (h : LongFits s) :
    parseBytes.run (writeLongString s ++ rest) = .ok (s, rest) :=
  parseBytesWith_append rest fun rest => longLength_writeInt rest h

theorem toNat_toUInt16_of_lt {n : Nat} (h : n < 2 ^ 16) : n.toUInt16.toNat = n := by
  simp
  omega

theorem parseStringList_writeStringList {l : List (List UInt8)} (hcount : l.length < 2 ^ 16)
    (hfits : ∀ s ∈ l, ShortFits s) :
    parseStringList.run (writeStringList l ++ rest) = .ok (l, rest) := by
  have hmany := readMany_flatMap parseString writeString (fun s => s) l
    (fun s hs rest => parseString_writeString rest (hfits s hs)) rest
  simp only [parseStringList, writeStringList, List.append_assoc,
    run_bind_of_ok (parseShort_writeShort _ hcount), toNat_toUInt16_of_lt hcount, hmany,
    List.map_id']

theorem parseStringMap_writeStringMap {m : List (List UInt8 × List UInt8)}
    (hcount : m.length < 2 ^ 16) (hfits : ∀ pair ∈ m, ShortFits pair.1 ∧ ShortFits pair.2) :
    parseStringMap.run (writeStringMap m ++ rest) = .ok (m, rest) := by
  simp only [parseStringMap, writeStringMap, List.append_assoc,
    run_bind_of_ok (parseShort_writeShort _ hcount), toNat_toUInt16_of_lt hcount]
  rw [readMany_flatMap _ _ (fun pair => pair) m ?_ rest, List.map_id']
  rintro ⟨name, value⟩ hpair rest
  obtain ⟨hname, hvalue⟩ := hfits _ hpair
  simp only [List.append_assoc, run_bind_of_ok (parseString_writeString _ hname),
    run_bind_of_ok (parseString_writeString _ hvalue), run_pure]

end Notations

section Values

variable (rest : List UInt8)

theorem toInt_ofNat_length {b : List UInt8} (h : LongFits b) :
    (Int32.ofNat b.length).toInt = b.length :=
  Int32.toInt_ofNat_of_lt h

theorem parseValue_writeValue (version : UInt8) (withName : Bool) {name : List UInt8}
    {v : BoundValue} (hname : ShortFits name) (hv : v.Fits version) :
    (parseValue version withName).run (Params.writeValue withName (name, v) ++ rest) =
      .ok (v.decode (if withName then name else []), rest) := by
  -- the name is read only when the values are named
  have hreadName : (if withName = true then parseString else pure []).run
      ((if withName = true then writeString name else []) ++ (v.write ++ rest)) =
        .ok (if withName = true then name else [], v.write ++ rest) :=
    run_ite_append (fun _ rest => parseString_writeString rest hname) _
  simp only [parseValue, Params.writeValue, List.append_assoc, run_bind_of_ok hreadName,
    run_bind_of_ok (run_get _)]
  cases v with
  | bytes b =>
    have hlen := toInt_ofNat_length hv
    have hnonneg : (0 : Int32) ≤ Int32.ofNat b.length := by
      rw [Int32.le_iff_toInt_le, hlen]; simp
    simp only [BoundValue.write, writeLongString, List.append_assoc,
      run_bind_of_ok (parseInt_writeInt _ _), if_pos hnonneg, BoundValue.decode]
    by_cases hb : b = []
    · subst hb
      simp
    · have hpos : (0 : Int32) < Int32.ofNat b.length := by
        rw [Int32.lt_iff_toInt_lt, hlen]; simp [List.length_pos_iff.mpr hb]
      have htake : (Int32.ofNat b.length).toInt.toNat = b.length := by rw [hlen]; simp
      have hprefix : (writeInt (Int32.ofNat b.length) ++ b).length = kIntSize + b.length := by
        simp [writeInt, kIntSize]
      simp only [if_pos hpos, htake, if_neg hb, ← List.append_assoc, List.take_left' hprefix]
      rw [run_bind_of_ok (takeBytes_append _ _ _), run_pure]
  | null length =>
    obtain ⟨hneg, hv4⟩ := hv
    have hnotNonneg : ¬(0 : Int32) ≤ length := by
      rw [Int32.lt_iff_toInt_lt] at hneg
      rw [Int32.le_iff_toInt_le]
      simp only [Int32.toInt_zero] at hneg ⊢
      omega
    simp only [BoundValue.write, run_bind_of_ok (parseInt_writeInt _ _), if_neg hnotNonneg,
      BoundValue.decode]
    by_cases hcompat : versionIsCompatible version kV4Version = true
    · simp [hcompat, hv4 hcompat]
    · simp [hcompat]
  | notSet =>
    simp only [BoundValue.write, run_bind_of_ok (parseInt_writeInt _ _), BoundValue.decode]
    simp [show versionIsCompatible version kV4Version = true from hv]

end Values

section QueryParameters

variable (rest : List UInt8)

theorem parseField_whenFlag {α : Type} {reader : ByteReader Status α} {a : α} {bytes : List UInt8}
    (hread : ∀ rest, reader.run (bytes ++ rest) = .ok (a, rest)) (flags flag : UInt8)
    (set : QueryParameters → α → QueryParameters) (params : QueryParameters) :
    (parseField flags flag reader set params).run (whenFlag flags flag bytes ++ rest) =
      .ok (if flags &&& flag ≠ 0 then set params a else params, rest) :=
  run_ite_append (fun _ rest => by rw [run_bind_of_ok (hread rest), run_pure]) rest

theorem parsePagingStateField_write {pagingState : List UInt8} (h : LongFits pagingState)
    (flags : UInt8) (params : QueryParameters) :
    (parsePagingStateField flags params).run
        (whenFlag flags kWithPagingStateFlag (writeLongString pagingState) ++ rest) =
      .ok (if flags &&& kWithPagingStateFlag ≠ 0 then { params with pagingState := some pagingState }
        else params, rest) :=
  run_ite_append (fun _ rest => by
    rw [run_bind_of_ok (parseBytes_writeLongString rest h)]
    rfl) rest

theorem parseValuesField_write (version : UInt8) {p : Params} (hp : p.Fits version)
    (params : QueryParameters) :
    (parseValuesField version p.flags params).run (whenFlag p.flags kWithValuesFlag
        (writeShort p.values.length ++ p.values.flatMap (Params.writeValue p.withNames)) ++ rest) =
      .ok (if p.flags &&& kWithValuesFlag ≠ 0 then
          { params with
            values := p.decodeValues
            valueMap := if p.withNames then valueNames p.decodeValues else [] }
        else params, rest) := by
  obtain ⟨hcount, hvalues, -⟩ := hp
  refine run_ite_append (fun _ rest => ?_) rest
  have hmany := readMany_flatMap (parseValue version p.withNames) (Params.writeValue p.withNames)
    (fun value => value.2.decode (if p.withNames then value.1 else [])) p.values
    (fun value hvalue rest =>
      parseValue_writeValue rest version p.withNames (hvalues value hvalue).1 (hvalues value hvalue).2)
    rest
  have hwithNames : (p.flags &&& kWithNamesForValuesFlag != 0) = p.withNames := rfl
  simp only [hwithNames, List.append_assoc, run_bind_of_ok (parseShort_writeShort _ hcount),
    toNat_toUInt16_of_lt hcount, run_bind_of_ok hmany, run_pure]
  rfl

theorem parseQueryParameters_write (version : UInt8) {p : Params} (hp : p.Fits version) :
    (parseQueryParameters version).run (p.write ++ rest) = .ok (p.decode, rest) := by
  simp only [parseQueryParameters, Params.write, List.append_assoc, List.cons_append,
    List.nil_append, parsePageSizeField, parseSerialConsistencyField, parseDefaultTimestampField]
  rw [run_bind_of_ok (parseConsistency_writeShort _ _), run_bind_of_ok (parseByte_cons _ _),
    run_bind_of_ok (parseValuesField_write _ version hp _),
    run_bind_of_ok (parseField_whenFlag _ (parseInt_writeInt · p.pageSize) _ _ _ _),
    run_bind_of_ok (parsePagingStateField_write _ hp.2.2 _ _),
    run_bind_of_ok (parseField_whenFlag _ (parseConsistency_writeShort · p.serialConsistency) _ _ _ _),
    parseField_whenFlag _ (parseLong_writeLong · p.defaultTimestamp)]
  simp only [Except.ok.injEq, Prod.mk.injEq, and_true]
  apply QueryParameters.ext <;> simp only [apply_ite QueryParameters.consistency, apply_ite QueryParameters.flags,
    apply_ite QueryParameters.values, apply_ite QueryParameters.valueMap,
    apply_ite QueryParameters.serialConsistency, apply_ite QueryParameters.defaultTimestamp,
    apply_ite QueryParameters.pageSize, apply_ite QueryParameters.pagingState,
    apply_ite QueryParameters.ybConsistencyLevel, QueryParameters.validateConsistency,
    QueryParameters.setPageSize, ite_self, ite_and, Params.decode]

end QueryParameters

section Requests

variable (rest : List UInt8)

theorem parseValue_unnamed (version : UInt8) {v : BoundValue} (hv : v.Fits version) :
    (parseValue version false).run (v.write ++ rest) = .ok (v.decode [], rest) := by
  have hshort : ShortFits ([] : List UInt8) := by simp [ShortFits]
  simpa [Params.writeValue] using parseValue_writeValue rest version false hshort hv

theorem parseBatchQuery_write (version : UInt8) {e : BatchEntry} (he : e.Fits version) :
    (parseBatchQuery version).run (e.write ++ rest) = .ok (e.decode, rest) := by
  obtain ⟨statement, values⟩ := e
  obtain ⟨hstatement, hcount, hvalues⟩ := he
  have hmany := readMany_flatMap (parseValue version false) BoundValue.write
    (BoundValue.decode []) values (fun v hv rest => parseValue_unnamed rest version (hvalues v hv))
    rest
  -- the byte in front of the statement says which it is
  cases statement with
  | query q =>
    simp only [parseBatchQuery, BatchEntry.write, BatchStatement.write, List.append_assoc,
      List.cons_append, run_bind_of_ok (parseByte_cons _ _)]
    rw [run_bind_of_ok (run_bind_of_ok (parseLongString_writeLongString _ hstatement)),
      run_bind_of_ok (parseShort_writeShort _ hcount), toNat_toUInt16_of_lt hcount,
      run_bind_of_ok hmany]
    rfl
  | prepared queryId =>
    simp only [parseBatchQuery, BatchEntry.write, BatchStatement.write, List.append_assoc,
      List.cons_append, run_bind_of_ok (parseByte_cons _ _),
      if_neg (by decide : ¬(1 : UInt8) = 0)]
    rw [run_bind_of_ok (run_bind_of_ok (parseShortBytes_writeString _ hstatement)),
      run_bind_of_ok (parseShort_writeShort _ hcount), toNat_toUInt16_of_lt hcount,
      run_bind_of_ok hmany]
    rfl

theorem parseBatch_write (version : UInt8) {b : Batch} (hb : b.Fits version) :
    (BatchRequest.parseBody version).run (b.write ++ rest) = .ok (b.decode, rest) := by
  obtain ⟨hcount, hentries⟩ := hb
  have hmany := readMany_flatMap (parseBatchQuery version) BatchEntry.write BatchEntry.decode
    b.entries (fun e he rest => parseBatchQuery_write rest version (hentries e he))
  simp only [BatchRequest.parseBody, Batch.write, whenFlag, List.append_assoc, List.cons_append,
    List.nil_append]
  rw [run_bind_of_ok (parseByte_cons _ _), run_bind_of_ok (parseShort_writeShort _ hcount),
    toNat_toUInt16_of_lt hcount, run_bind_of_ok (hmany _),
    run_bind_of_ok (parseConsistency_writeShort _ _), run_bind_of_ok (parseByte_cons _ _),
    run_bind_of_ok (run_ite_append (fun _ rest => parseConsistency_writeShort rest _) _),
    run_bind_of_ok (run_ite_append (fun _ rest => parseLong_writeLong rest _) _), run_pure]
  simp only [Batch.decode, List.map_map]
  rfl

theorem parseStartup_write {m : List (List UInt8 × List UInt8)} (hcount : m.length < 2 ^ 16)
    (hfits : ∀ pair ∈ m, ShortFits pair.1 ∧ ShortFits pair.2) :
    StartupRequest.parseBody.run (writeStringMap m ++ rest) = .ok (⟨m⟩, rest) := by
  rw [StartupRequest.parseBody, run_bind_of_ok (parseStringMap_writeStringMap rest hcount hfits),
    run_pure]

theorem idxOf?_zero_append {username password : List UInt8} (h : 0 ∉ username) :
    (username ++ 0 :: password).idxOf? 0 = some username.length := by
  induction username with
  | nil => simp [List.idxOf?, List.findIdx?_cons]
  | cons a username ih =>
    have ha : a ≠ 0 := fun ha => h (ha ▸ List.mem_cons_self)
    have hrest := ih fun hmem => h (List.mem_cons_of_mem a hmem)
    simp only [List.idxOf?, List.cons_append, List.findIdx?_cons] at hrest ⊢
    simp [ha, hrest]

theorem parseAuthResponse_write {username password : List UInt8} (h : 0 ∉ username)
    (hfits : LongFits (authToken username password)) :
    AuthResponseRequest.parseBody.run (writeLongString (authToken username password) ++ rest) =
      .ok (⟨authToken username password, username, password⟩, rest) := by
  rw [AuthResponseRequest.parseBody, run_bind_of_ok (parseBytes_writeLongString rest hfits)]
  simp only [authToken, List.cons_append, ne_eq, not_true_eq_false, if_false,
    idxOf?_zero_append h]
  simp

theorem parseQuery_write (version : UInt8) {q : List UInt8} {p : Params} (hq : LongFits q)
    (hp : p.Fits version) :
    (QueryRequest.parseBody version).run (writeLongString q ++ p.write ++ rest) =
      .ok (⟨q, p.decode⟩, rest) := by
  rw [QueryRequest.parseBody, List.append_assoc,
    run_bind_of_ok (parseLongString_writeLongString _ hq),
    run_bind_of_ok (parseQueryParameters_write rest version hp), run_pure]

theorem parsePrepare_write {q : List UInt8} (hq : LongFits q) :
    PrepareRequest.parseBody.run (writeLongString q ++ rest) = .ok (⟨q⟩, rest) := by
  rw [PrepareRequest.parseBody, run_bind_of_ok (parseLongString_writeLongString rest hq), run_pure]

theorem parseExecute_write (version : UInt8) {queryId : List UInt8} {p : Params}
    (hid : ShortFits queryId) (hp : p.Fits version) :
    (ExecuteRequest.parseBody version).run (writeString queryId ++ p.write ++ rest) =
      .ok (⟨queryId, p.decode⟩, rest) := by
  rw [ExecuteRequest.parseBody, List.append_assoc,
    run_bind_of_ok (parseShortBytes_writeString _ hid),
    run_bind_of_ok (parseQueryParameters_write rest version hp), run_pure]

theorem parseRegister_write {eventTypes : List (List UInt8)} (hcount : eventTypes.length < 2 ^ 16)
    (hfits : ∀ e ∈ eventTypes, ShortFits e) :
    RegisterRequest.parseBody.run (writeStringList eventTypes ++ rest) = .ok (⟨eventTypes⟩, rest) := by
  rw [RegisterRequest.parseBody,
    run_bind_of_ok (parseStringList_writeStringList rest hcount hfits), run_pure]

theorem requestParser_write (version : UInt8) {b : CqlBody} (hb : b.Fits version) :
    ∃ parseBody, requestParser version b.opcode = some parseBody ∧
      ∀ rest, parseBody.run (b.write ++ rest) = .ok (b.decode, rest) := by
  cases b with
  | startup startupOptions =>
    exact ⟨_, rfl, fun rest => run_map_of_ok (parseStartup_write rest hb.1 hb.2)⟩
  | authResponse username password =>
    exact ⟨_, rfl, fun rest => run_map_of_ok (parseAuthResponse_write rest hb.1 hb.2)⟩
  | options => exact ⟨_, rfl, fun rest => run_pure _ rest⟩
  | query q params =>
    exact ⟨_, rfl, fun rest => run_map_of_ok (parseQuery_write rest version hb.1 hb.2)⟩
  | prepare q => exact ⟨_, rfl, fun rest => run_map_of_ok (parsePrepare_write rest hb)⟩
  | execute queryId params =>
    exact ⟨_, rfl, fun rest => run_map_of_ok (parseExecute_write rest version hb.1 hb.2)⟩
  | batch b => exact ⟨_, rfl, fun rest => run_map_of_ok (parseBatch_write rest version hb)⟩
  | register eventTypes =>
    exact ⟨_, rfl, fun rest => run_map_of_ok (parseRegister_write rest hb.1 hb.2)⟩

end Requests

theorem Opcode.ofByte_toByte (opcode : Opcode) : Opcode.ofByte opcode.toByte = some opcode := by
  cases opcode <;> rfl

theorem response_bit_of_supported {version : UInt8} (hmin : kMinimumVersion ≤ version)
    (hmax : version ≤ kCurrentVersion) : version &&& kResponseVersion = 0 := by
  have hversion : version = 3 ∨ version = 4 := by
    simp only [kMinimumVersion, kCurrentVersion, kV3Version, kV4Version, UInt8.le_iff_toNat_le]
      at hmin hmax
    simp only [UInt8.ext_iff]
    simp at hmin hmax ⊢
    omega
  rcases hversion with rfl | rfl <;> decide

theorem Opcode.toByte_injective : Function.Injective Opcode.toByte := by
  intro a b h
  have hofByte := congrArg Opcode.ofByte h
  simpa only [Opcode.ofByte_toByte, Option.some.injEq] using hofByte

section Frame

variable {version flags : UInt8} {streamId : UInt16} {opcode : Opcode} {body : List UInt8}

theorem frame_eq : frame version flags streamId opcode body =
    version :: flags ::
      (writeShort streamId.toNat ++ opcode.toByte :: (toBytesBE 4 body.length ++ body)) := by
  simp [frame]

theorem length_frame :
    (frame version flags streamId opcode body).length = kMessageHeaderLength + body.length := by
  simp [frame_eq, writeShort, kMessageHeaderLength]
  omega

theorem drop_frame : (frame version flags streamId opcode body).drop kMessageHeaderLength = body := by
  simp [frame_eq, kMessageHeaderLength, writeShort, toBytesBE]

theorem load_frame : Header.load (frame version flags streamId opcode body) =
    ⟨version, flags, streamId, opcode.toByte⟩ := by
  have hstream : ((frame version flags streamId opcode body).drop 2).take 2 =
      toBytesBE 2 streamId.toNat := by
    simp [frame_eq, writeShort]
  have hopcode : (frame version flags streamId opcode body).getD 4 0 = opcode.toByte := by
    simp [frame_eq, writeShort, toBytesBE]
  simp only [Header.load, hstream, hopcode, ofBytesBE_toBytesBE]
  simp [frame_eq]

end Frame

section Uncompress

variable {dec : Decompressors} {header : Header}

theorem uncompressBody_of_uncompressed (scheme : CompressionScheme) {body : List UInt8}
    (h : body.length = 0 ∨ header.flags &&& kCompressionFlag = 0) :
    uncompressBody dec scheme header body = .ok (body, none) :=
  if_pos h

variable (hflag : header.flags &&& kCompressionFlag ≠ 0)
  (hopcode : header.opcode ≠ Opcode.startup.toByte)
include hflag hopcode

theorem uncompressBody_lz4 {compressed uncompressed : List UInt8}
    (hsize : uncompressed.length < 2 ^ 32)
    (hdecompress : dec.lz4DecompressSafe compressed uncompressed.length = some uncompressed) :
    uncompressBody dec .kLz4 header (toBytesBE 4 uncompressed.length ++ compressed) =
      .ok (uncompressed, none) := by
  have hprefix : (toBytesBE 4 uncompressed.length ++ compressed).take 4 =
      toBytesBE 4 uncompressed.length := List.take_left' (length_toBytesBE _ _)
  have hrest : (toBytesBE 4 uncompressed.length ++ compressed).drop 4 = compressed :=
    List.drop_left' (length_toBytesBE _ _)
  have hsize' : ofBytesBE (toBytesBE 4 uncompressed.length) = uncompressed.length := by
    rw [ofBytesBE_toBytesBE, Nat.mod_eq_of_lt (by simpa using hsize)]
  have hlong : ¬(toBytesBE 4 uncompressed.length ++ compressed).length < 4 := by simp
  have hnonempty : ¬((toBytesBE 4 uncompressed.length ++ compressed).length = 0 ∨
      header.flags &&& kCompressionFlag = 0) := by simp [hflag]
  simp only [uncompressBody, if_neg hnonempty, if_neg hopcode, if_neg hlong, hprefix, hrest,
    hsize', hdecompress, if_true]

theorem uncompressBody_snappy {compressed uncompressed : List UInt8} {n : Nat}
    (hne : compressed ≠ []) (hlength : dec.getUncompressedLength compressed = some n)
    (huncompress : dec.rawUncompress compressed n = some uncompressed) :
    uncompressBody dec .kSnappy header compressed = .ok (uncompressed, none) := by
  have hnonempty : ¬(compressed.length = 0 ∨ header.flags &&& kCompressionFlag = 0) := by
    simp [hflag, hne]
  simp only [uncompressBody, if_neg hnonempty, if_neg hopcode, hlength, huncompress]

end Uncompress

/-- A frame with a supported version whose body uncompresses, with no error pending, to what the
opcode's parser reads to its end is the request read. -/
theorem parseRequest_frame {dec : Decompressors} {scheme : CompressionScheme}
    {version flags : UInt8} {streamId : UInt16} {opcode : Opcode} {body uncompressed : List UInt8}
    {parseBody : ByteReader Status RequestBody} {request : RequestBody}
    (hmin : kMinimumVersion ≤ version) (hmax : version ≤ kCurrentVersion)
    (hbody : uncompressBody dec scheme ⟨version, flags, streamId, opcode.toByte⟩ body =
      .ok (uncompressed, none))
    (hparser : requestParser version opcode = some parseBody)
    (hparse : parseBody.run uncompressed = .ok (request, [])) :
    parseRequest dec (frame version flags streamId opcode body) scheme =
      .ok ⟨⟨version, flags, streamId, opcode.toByte⟩, request⟩ := by
  have hlong : ¬(frame version flags streamId opcode body).length < kMessageHeaderLength := by
    rw [length_frame]
    omega
  have hrequest : ¬(version &&& kResponseVersion ≠ 0) := by
    simp [response_bit_of_supported hmin hmax]
  have hsupported : ¬(version < kMinimumVersion ∨ kCurrentVersion < version) := by
    simp only [not_or, UInt8.not_lt]
    exact ⟨hmin, hmax⟩
  simp only [parseRequest, if_neg hlong, load_frame, if_neg hrequest, if_neg hsupported, drop_frame,
    hbody, Opcode.ofByte_toByte, hparser, hparse]
  rfl

theorem requestParser_reads_body (version : UInt8) {b : CqlBody} (hb : b.Fits version) :
    ∃ parseBody, requestParser version b.opcode = some parseBody ∧
      parseBody.run b.write = .ok (b.decode, []) := by
  obtain ⟨parseBody, hparser, hparse⟩ := requestParser_write version hb
  refine ⟨parseBody, hparser, ?_⟩
  simpa only [List.append_nil] using hparse []

/-- `ParseRequest` reads every body of the grammar back as the request it encodes, sent as it is or
compressed, whatever bytes its paging state holds. -/
theorem parseRequest_accepts_grammar_bodies :
    -- a body sent as it is
    (∀ (dec : Decompressors) (scheme : CompressionScheme) (version flags : UInt8)
        (streamId : UInt16) (b : CqlBody),
      kMinimumVersion ≤ version → version ≤ kCurrentVersion → b.Fits version →
      (b.write.length = 0 ∨ flags &&& kCompressionFlag = 0) →
      parseRequest dec (frame version flags streamId b.opcode b.write) scheme =
        .ok ⟨⟨version, flags, streamId, b.opcode.toByte⟩, b.decode⟩) ∧
    -- an LZ4 body: the length of the body, then bytes that decompress into it
    (∀ (dec : Decompressors) (version flags : UInt8) (streamId : UInt16) (b : CqlBody)
        (compressed : List UInt8),
      kMinimumVersion ≤ version → version ≤ kCurrentVersion → b.Fits version →
      flags &&& kCompressionFlag ≠ 0 → b.opcode ≠ .startup → b.write.length < 2 ^ 32 →
      dec.lz4DecompressSafe compressed b.write.length = some b.write →
      parseRequest dec
          (frame version flags streamId b.opcode (toBytesBE 4 b.write.length ++ compressed)) .kLz4 =
        .ok ⟨⟨version, flags, streamId, b.opcode.toByte⟩, b.decode⟩) ∧
    -- a snappy body
    (∀ (dec : Decompressors) (version flags : UInt8) (streamId : UInt16) (b : CqlBody)
        (compressed : List UInt8) (n : Nat),
      kMinimumVersion ≤ version → version ≤ kCurrentVersion → b.Fits version →
      flags &&& kCompressionFlag ≠ 0 → b.opcode ≠ .startup → compressed ≠ [] →
      dec.getUncompressedLength compressed = some n →
      dec.rawUncompress compressed n = some b.write →
      parseRequest dec (frame version flags streamId b.opcode compressed) .kSnappy =
        .ok ⟨⟨version, flags, streamId, b.opcode.toByte⟩, b.decode⟩) := by
  refine ⟨?plain, ?lz4, ?snappy⟩
  case plain =>
    intro dec scheme version flags streamId b hmin hmax hb hplain
    obtain ⟨parseBody, hparser, hparse⟩ := requestParser_reads_body version hb
    exact parseRequest_frame hmin hmax (uncompressBody_of_uncompressed scheme hplain) hparser hparse
  case lz4 =>
    intro dec version flags streamId b compressed hmin hmax hb hflag hstartup hsize hdecompress
    obtain ⟨parseBody, hparser, hparse⟩ := requestParser_reads_body version hb
    have hopcode : b.opcode.toByte ≠ Opcode.startup.toByte :=
      fun h => hstartup (Opcode.toByte_injective h)
    exact parseRequest_frame hmin hmax (uncompressBody_lz4 hflag hopcode hsize hdecompress)
      hparser hparse
  case snappy =>
    intro dec version flags streamId b compressed n hmin hmax hb hflag hstartup hne hlength
      huncompress
    obtain ⟨parseBody, hparser, hparse⟩ := requestParser_reads_body version hb
    have hopcode : b.opcode.toByte ≠ Opcode.startup.toByte :=
      fun h => hstartup (Opcode.toByte_injective h)
    exact parseRequest_frame hmin hmax (uncompressBody_snappy hflag hopcode hne hlength huncompress)
      hparser hparse

/-- A `QUERY` whose paging state is field 1 of length 5 with none of its bytes, which is not a
`QLPagingStatePB`. -/
def truncatedPagingStateQuery : CqlBody :=
  .query [] ⟨Consistency.one, kWithPagingStateFlag, [], 0, [0x0A, 0x05], Consistency.any, 0⟩

theorem parseRequest_accepts_truncated_paging_state :
    ¬truncatedPagingStateQuery.WellFormed kCurrentVersion ∧
      parseRequest ⟨fun _ _ => none, fun _ => none, fun _ _ => none⟩
          (frame kCurrentVersion 0 0 .query truncatedPagingStateQuery.write) .kNone =
        .ok ⟨⟨kCurrentVersion, 0, 0, Opcode.query.toByte⟩, truncatedPagingStateQuery.decode⟩ :=
  ⟨by decide, parseRequest_accepts_grammar_bodies.1 _ .kNone kCurrentVersion 0 0
    truncatedPagingStateQuery (by decide) (by decide) (by decide) (Or.inr (by decide))⟩

end FrescoDB.Cql
