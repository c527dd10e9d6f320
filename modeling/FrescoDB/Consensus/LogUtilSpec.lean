import FrescoDB.Consensus.LogUtil
import FrescoDB.Lib.ExceptStep

/-! A segment written by `WriteHeaderAndOpen`, `WriteEntryBatch` for each batch and
`WriteFooterAndClose` opens with its header and footer, and `ReadEntries` returns its entries in
order, each with the offset of its batch's entry header, up to the end of the last batch. The
status it returns is `OK` whatever the footer's `num_entries`: the `Corruption` status of a
footer that counts another number of entries is overwritten before `ReadEntries` returns. -/
namespace FrescoDB.Log

open FrescoDB.Lib FrescoDB.Util FrescoDB.Consensus

@[simp] theorem length_encodeFixed32 (v : UInt32) : (encodeFixed32 v).length = 4 := by
  simp [encodeFixed32]

theorem decodeFixed32_encodeFixed32 (v : UInt32) (rest : List UInt8) :
    decodeFixed32 (encodeFixed32 v ++ rest) = v := by
  have hv : v.toNat < 256 ^ 4 := v.toNat_lt
  unfold decodeFixed32
  rw [List.take_left' (length_encodeFixed32 v), encodeFixed32, List.reverse_reverse,
    ofBytesBE_toBytesBE, Nat.mod_eq_of_lt hv]
  simp

theorem readFully_of_eq {file pre x post : List UInt8} {offset n : Nat}
    (h : file = pre ++ x ++ post) (ho : pre.length = offset) (hn : x.length = n) :
    readFully file offset n = .ok x := by
  subst h ho hn
  simp [readFully]

theorem readAt_of_eq {file pre x post : List UInt8} {offset n : Nat}
    (h : file = pre ++ x ++ post) (ho : pre.length = offset) (hn : x.length = n) :
    readAt file offset n = x := by
  subst h ho hn
  simp [readAt]

theorem decodeFixed32_encodeFixed32_self (v : UInt32) : decodeFixed32 (encodeFixed32 v) = v := by
  simpa using decodeFixed32_encodeFixed32 v []

theorem toNat_toUInt32_of_le_max {n : Nat} (h : n ≤ kLogSegmentMaxHeaderOrFooterSize) :
    n.toUInt32.toNat = n :=
  UInt32.toNat_ofNat_of_lt' (by unfold kLogSegmentMaxHeaderOrFooterSize at h; simp only [UInt32.size]; omega)

theorem parseHeaderMagicAndHeaderLength_magic (path : String) (v : UInt32) :
    parseHeaderMagicAndHeaderLength path (kLogSegmentHeaderMagicString ++ encodeFixed32 v) =
      .ok v := by
  have h8 : kLogSegmentHeaderMagicString.length = 8 := rfl
  have hlen : (kLogSegmentHeaderMagicString ++ encodeFixed32 v).length =
      kLogSegmentHeaderMagicAndHeaderLength := by
    simp [h8, kLogSegmentHeaderMagicAndHeaderLength]
  simp only [parseHeaderMagicAndHeaderLength, hlen, List.take_left' h8, List.drop_left' h8, ne_eq,
    not_true_eq_false, if_false, decodeFixed32_encodeFixed32_self]

theorem parseFooterMagicAndFooterLength_magic (v : UInt32) :
    parseFooterMagicAndFooterLength (kLogSegmentFooterMagicString ++ encodeFixed32 v) = .ok v := by
  have h8 : kLogSegmentFooterMagicString.length = 8 := rfl
  have hlen : (kLogSegmentFooterMagicString ++ encodeFixed32 v).length =
      kLogSegmentFooterMagicAndFooterLength := by
    simp [h8, kLogSegmentFooterMagicAndFooterLength]
  simp only [parseFooterMagicAndFooterLength, hlen, List.take_left' h8, List.drop_left' h8, ne_eq,
    not_true_eq_false, if_false, decodeFixed32_encodeFixed32_self]

section Codec

variable {Header Batch Entry Footer : Type} (codec : LogCodec Header Batch Entry Footer)

/-- What a round trip needs of the messages: parsing inverts serialization, a header and a footer
serialize to between one byte and `kLogSegmentMaxHeaderOrFooterSize` bytes, and a batch's length
fits the 32-bit length field. -/
class LawfulLogCodec : Prop where
  parseHeader_serializeHeader (h : Header) : codec.parseHeader (codec.serializeHeader h) = some h
  parseBatch_serializeBatch (b : Batch) : codec.parseBatch (codec.serializeBatch b) = some b
  parseFooter_serializeFooter (f : Footer) : codec.parseFooter (codec.serializeFooter f) = some f
  serializeHeader_length (h : Header) :
    0 < (codec.serializeHeader h).length ∧
      (codec.serializeHeader h).length ≤ kLogSegmentMaxHeaderOrFooterSize
  serializeFooter_length (f : Footer) :
    0 < (codec.serializeFooter f).length ∧
      (codec.serializeFooter f).length ≤ kLogSegmentMaxHeaderOrFooterSize
  serializeBatch_length (b : Batch) : (codec.serializeBatch b).length < 2 ^ 32

@[simp] theorem length_entryHeaderBytes (data : List UInt8) :
    (entryHeaderBytes codec data).length = kEntryHeaderSize := by
  simp [entryHeaderBytes, kEntryHeaderSize]

theorem decodeEntryHeader_entryHeaderBytes (data : List UInt8) :
    decodeEntryHeader codec (entryHeaderBytes codec data) =
      .ok ⟨data.length.toUInt32, codec.crc32c data,
        codec.crc32c (encodeFixed32 data.length.toUInt32 ++ encodeFixed32 (codec.crc32c data))⟩ := by
  set lengthAndCrc := encodeFixed32 data.length.toUInt32 ++ encodeFixed32 (codec.crc32c data)
    with hlac
  have h8 : lengthAndCrc.length = 8 := by simp [lengthAndCrc]
  have hbytes : entryHeaderBytes codec data =
      lengthAndCrc ++ encodeFixed32 (codec.crc32c lengthAndCrc) := rfl
  have hlength : decodeFixed32 (lengthAndCrc ++ encodeFixed32 (codec.crc32c lengthAndCrc)) =
      data.length.toUInt32 := by
    rw [hlac, List.append_assoc, decodeFixed32_encodeFixed32]
  have hcrc : decodeFixed32 ((lengthAndCrc ++ encodeFixed32 (codec.crc32c lengthAndCrc)).drop 4) =
      codec.crc32c data := by
    rw [hlac, List.append_assoc, List.drop_left' (length_encodeFixed32 _),
      decodeFixed32_encodeFixed32]
  have hheader : decodeFixed32 ((lengthAndCrc ++ encodeFixed32 (codec.crc32c lengthAndCrc)).drop 8) =
      codec.crc32c lengthAndCrc := by
    rw [List.drop_left' h8, ← List.append_nil (encodeFixed32 _), decodeFixed32_encodeFixed32]
  rw [hbytes, decodeEntryHeader]
  simp only [List.take_left' h8, hlength, hcrc, hheader, ne_eq, not_true_eq_false, if_false]

/-! ### The written segment -/

/-- The bytes `WriteEntryBatch` appends for a batch: its entry header, then the batch. -/
def batchBytes (b : Batch) : List UInt8 :=
  entryHeaderBytes codec (codec.serializeBatch b) ++ codec.serializeBatch b

@[simp] theorem length_batchBytes (b : Batch) :
    (batchBytes codec b).length = kEntryHeaderSize + (codec.serializeBatch b).length := by
  simp [batchBytes]

/-- A segment opened with `header` and the batches `bs` written after it, in order. -/
def writeBatches (header : Header) (bs : List Batch) : WritableLogSegment :=
  (bs.map codec.serializeBatch).foldl (writeEntryBatch codec) (writeHeaderAndOpen codec {} header)

theorem foldl_writeEntryBatch (seg : WritableLogSegment) (bs : List Batch) :
    (bs.map codec.serializeBatch).foldl (writeEntryBatch codec) seg =
      { seg with file := seg.file ++ bs.flatMap (batchBytes codec),
                 writtenOffset := seg.writtenOffset + (bs.flatMap (batchBytes codec)).length } := by
  induction bs generalizing seg with
  | nil => simp
  | cons b bs ih =>
    rw [List.map_cons, List.foldl_cons, ih]
    simp only [writeEntryBatch, batchBytes, List.flatMap_cons, List.append_assoc, List.length_append,
      length_entryHeaderBytes]
    congr 1
    omega

theorem writtenOffset_writeHeaderAndOpen (header : Header) :
    (writeHeaderAndOpen codec {} header).writtenOffset =
      (writeHeaderAndOpen codec {} header).file.length := by
  simp [writeHeaderAndOpen]

theorem file_writeBatches (header : Header) (bs : List Batch) :
    (writeBatches codec header bs).file =
      (writeHeaderAndOpen codec {} header).file ++ bs.flatMap (batchBytes codec) := by
  rw [writeBatches, foldl_writeEntryBatch]

theorem writtenOffset_writeBatches (header : Header) (bs : List Batch) :
    (writeBatches codec header bs).writtenOffset = (writeBatches codec header bs).file.length := by
  rw [file_writeBatches, writeBatches, foldl_writeEntryBatch, List.length_append]
  simp only [writtenOffset_writeHeaderAndOpen]

/-- The metadata the entries of the batches `bs`, written from `offset` on, are read with: each
entry has the offset of its batch's entry header. -/
def batchMetadata (sequenceNumber offset : Nat) : List Batch → List LogEntryMetadata
  | [] => []
  | b :: bs => (codec.entries b).map (fun _ => ⟨codec.monoTime b, offset, sequenceNumber⟩) ++
      batchMetadata sequenceNumber (offset + kEntryHeaderSize + (codec.serializeBatch b).length) bs

/-- The segment `Init` opens on the file of `writeBatches` closed with `footer`. -/
def closedSegment (path : String) (header : Header) (bs : List Batch) (footer : Footer) :
    ReadableLogSegment Header Footer :=
  let file := (writeFooterAndClose codec (writeBatches codec header bs) footer).file
  { path, file, header := some header, footer := some footer,
    firstEntryOffset := (writeHeaderAndOpen codec {} header).firstEntryOffset,
    readableToOffset := file.length }

-- Equation lemmas, made once before their uses.
section
attribute [local simp] closedSegment
end

theorem firstEntryOffset_writeHeaderAndOpen (header : Header) :
    (writeHeaderAndOpen codec {} header).firstEntryOffset =
      (writeHeaderAndOpen codec {} header).file.length := by
  simp [writeHeaderAndOpen]

theorem file_closedSegment (path : String) (header : Header) (bs : List Batch) (footer : Footer) :
    (closedSegment codec path header bs footer).file =
      (writeHeaderAndOpen codec {} header).file ++ bs.flatMap (batchBytes codec) ++
        (codec.serializeFooter footer ++ kLogSegmentFooterMagicString ++
          encodeFixed32 (codec.serializeFooter footer).length.toUInt32) := by
  simp [closedSegment, writeFooterAndClose, file_writeBatches]

theorem readUpTo_closedSegment (path : String) (header : Header) (bs : List Batch)
    (footer : Footer) :
    readUpTo codec (closedSegment codec path header bs footer) =
      (writeHeaderAndOpen codec {} header).file.length + (bs.flatMap (batchBytes codec)).length := by
  have h8 : kLogSegmentFooterMagicString.length = 8 := rfl
  have hlength : (writeFooterAndClose codec (writeBatches codec header bs) footer).file.length =
      (writeHeaderAndOpen codec {} header).file.length + (bs.flatMap (batchBytes codec)).length +
        ((codec.serializeFooter footer).length + kLogSegmentFooterMagicAndFooterLength) := by
    simp only [writeFooterAndClose, file_writeBatches, List.length_append, length_encodeFixed32, h8,
      kLogSegmentFooterMagicAndFooterLength]
  simp only [readUpTo, closedSegment, Bool.not_false, if_true, hlength]
  omega

/-! ### Reading the batches back -/

/-- The state of the loop of `ReadEntries` once it has read the batches `bs` from `offset` on,
each through the branch of a batch read whole. -/
def readBatches (seg : ReadableLogSegment Header Footer) (offset : Nat)
    (st : ReadEntriesState Entry) : List Batch → ReadEntriesState Entry
  | [] => st
  | b :: bs =>
    let offsetAfter := offset + kEntryHeaderSize + (codec.serializeBatch b).length
    readBatches seg offsetAfter
      { result := appendBatch codec seg st.result b offset offsetAfter,
        recentOffsets := st.recentOffsets.set (st.batchesRead % 4) (offset : Int),
        batchesRead := st.batchesRead + 1,
        numEntriesRead := st.numEntriesRead + (codec.entries b).length } bs

theorem readBatches_cons (seg : ReadableLogSegment Header Footer) (offset : Nat)
    (st : ReadEntriesState Entry) (b : Batch) (bs : List Batch) :
    readBatches codec seg offset st (b :: bs) =
      readBatches codec seg (offset + kEntryHeaderSize + (codec.serializeBatch b).length)
        (readBatches codec seg offset st [b]) bs := rfl

section ReadBatches

variable (seg : ReadableLogSegment Header Footer)

theorem entries_readBatches (bs : List Batch) (offset : Nat) (st : ReadEntriesState Entry) :
    (readBatches codec seg offset st bs).result.entries =
      st.result.entries ++ bs.flatMap codec.entries := by
  induction bs generalizing offset st with
  | nil => simp [readBatches]
  | cons b bs ih => simp [readBatches, ih, appendBatch]

theorem entryMetadata_readBatches (bs : List Batch) (offset : Nat) (st : ReadEntriesState Entry) :
    (readBatches codec seg offset st bs).result.entryMetadata =
      st.result.entryMetadata ++
        batchMetadata codec ((seg.header.map codec.sequenceNumber).getD 0) offset bs := by
  induction bs generalizing offset st with
  | nil => simp [readBatches, batchMetadata]
  | cons b bs ih => simp [readBatches, ih, appendBatch, batchMetadata]

theorem endOffset_readBatches (bs : List Batch) (offset : Nat) (st : ReadEntriesState Entry)
    (h : st.result.endOffset = offset) :
    (readBatches codec seg offset st bs).result.endOffset =
      offset + (bs.flatMap (batchBytes codec)).length := by
  induction bs generalizing offset st with
  | nil => simpa [readBatches] using h
  | cons b bs ih =>
    rw [readBatches_cons, ih _ _ (by rfl)]
    simp only [List.flatMap_cons, List.length_append, length_batchBytes]
    omega

end ReadBatches

/-- Whatever the footer counts, a loop that ends by leaving it makes `ReadEntries` return what it
read with status `OK`. -/
theorem readEntries_of_done (seg : ReadableLogSegment Header Footer) (st : ReadEntriesState Entry)
    (h : readEntriesLoop codec seg (readUpTo codec seg) seg.firstEntryOffset
      ⟨{ endOffset := seg.firstEntryOffset }, [-1, -1, -1, -1], 0, 0⟩ = .done st) :
    readEntries codec seg = { st.result with status := Status.OK } := by
  unfold readEntries
  simp only [h]
  split
  · split <;> rfl
  · rfl

section Lawful

variable [LawfulLogCodec codec]

theorem toNat_length_serializeBatch (b : Batch) :
    (codec.serializeBatch b).length.toUInt32.toNat = (codec.serializeBatch b).length := by
  have h := @LawfulLogCodec.serializeBatch_length _ _ _ _ codec _ b
  simp only [Nat.toUInt32, UInt32.toNat_ofNat', Nat.mod_eq_of_lt h]

/-- The bytes `WriteEntryBatch` wrote for a batch, at `pre.length`, read back as the batch, and
the offset moves past them. -/
theorem readEntryHeaderAndBatch_of_eq (seg : ReadableLogSegment Header Footer)
    {pre post : List UInt8} (b : Batch)
    (hfile : seg.file = pre ++ (entryHeaderBytes codec (codec.serializeBatch b) ++
      codec.serializeBatch b) ++ post)
    (hlimit : pre.length + kEntryHeaderSize + (codec.serializeBatch b).length ≤
      seg.readableToOffset)
    (hne : codec.serializeBatch b ≠ []) :
    readEntryHeaderAndBatch codec seg pre.length =
      (pre.length + kEntryHeaderSize + (codec.serializeBatch b).length,
        .ok (b, (codec.serializeBatch b).length)) := by
  set data := codec.serializeBatch b
  have hlen := toNat_length_serializeBatch codec b
  have hpos : data.length ≠ 0 := fun h => hne (List.length_eq_zero_iff.1 h)
  have hheader : readEntryHeader codec seg pre.length =
      .ok ⟨data.length.toUInt32, codec.crc32c data,
        codec.crc32c (encodeFixed32 data.length.toUInt32 ++ encodeFixed32 (codec.crc32c data))⟩ := by
    have hread : readFully seg.file pre.length kEntryHeaderSize = .ok (entryHeaderBytes codec data) :=
      @readFully_of_eq seg.file pre (entryHeaderBytes codec data) (data ++ post) _ _
        (by simp [hfile]) rfl (length_entryHeaderBytes codec data)
    simp only [readEntryHeader, hread, Status.prepend_ok, except_ok_bind,
      decodeEntryHeader_entryHeaderBytes]
  have hslice : readAt seg.file (pre.length + kEntryHeaderSize) data.length = data :=
    @readAt_of_eq seg.file (pre ++ entryHeaderBytes codec data) data post _ _ (by simp [hfile])
      (by simp) rfl
  have hbatch : readEntryBatch codec seg (pre.length + kEntryHeaderSize)
      ⟨data.length.toUInt32, codec.crc32c data,
        codec.crc32c (encodeFixed32 data.length.toUInt32 ++ encodeFixed32 (codec.crc32c data))⟩ =
      .ok (b, data.length) := by
    have hnot : ¬ data.length + (pre.length + kEntryHeaderSize) > seg.readableToOffset := by omega
    simp only [readEntryBatch, hlen, hpos, hnot, hslice, if_false, parseFromArray,
      LawfulLogCodec.parseBatch_serializeBatch, ne_eq, not_true_eq_false, except_pure_eq, data]
  simp only [readEntryHeaderAndBatch, hheader, hbatch]

theorem readEntriesLoop_batch (seg : ReadableLogSegment Header Footer) (readUpTo : Nat)
    {pre post : List UInt8} (b : Batch) (st : ReadEntriesState Entry)
    (hfile : seg.file = pre ++ batchBytes codec b ++ post)
    (hlimit : pre.length + kEntryHeaderSize + (codec.serializeBatch b).length ≤ readUpTo)
    (hreadable : readUpTo ≤ seg.readableToOffset) (hne : codec.serializeBatch b ≠ []) :
    readEntriesLoop codec seg readUpTo pre.length st =
      readEntriesLoop codec seg readUpTo
        (pre.length + kEntryHeaderSize + (codec.serializeBatch b).length)
        (readBatches codec seg pre.length st [b]) := by
  have hpos : 0 < (codec.serializeBatch b).length := List.length_pos_iff.2 hne
  have hread := readEntryHeaderAndBatch_of_eq codec seg b hfile (by omega) hne
  have hstart : pre.length < readUpTo := by simp only [kEntryHeaderSize] at hlimit; omega
  have hheader : pre.length + kEntryHeaderSize < readUpTo := by omega
  rw [readEntriesLoop, if_pos hstart, readNextBatch, if_pos hheader, hread]
  rfl

/-- The loop reads the batches `bs`, written from `offset` up to `read_up_to`, one after the
other, and leaves at `read_up_to`. -/
theorem readEntriesLoop_batches (seg : ReadableLogSegment Header Footer) (post : List UInt8)
    (bs : List Batch) (hne : ∀ b ∈ bs, codec.serializeBatch b ≠ []) :
    ∀ (pre : List UInt8) (st : ReadEntriesState Entry),
      seg.file = pre ++ bs.flatMap (batchBytes codec) ++ post →
      pre.length + (bs.flatMap (batchBytes codec)).length ≤ seg.readableToOffset →
      readEntriesLoop codec seg (pre.length + (bs.flatMap (batchBytes codec)).length) pre.length st =
        .done (readBatches codec seg pre.length st bs) := by
  induction bs with
  | nil =>
    intro pre st _ _
    simp only [List.flatMap_nil, List.length_nil, Nat.add_zero]
    rw [readEntriesLoop, if_neg (Nat.lt_irrefl _)]
    rfl
  | cons b bs ih =>
    intro pre st hfile hreadable
    have hbs : ∀ b ∈ bs, codec.serializeBatch b ≠ [] :=
      fun b' hb' => hne b' (List.mem_cons_of_mem _ hb')
    -- the next batch starts where this one's bytes end
    have hnext : pre.length + kEntryHeaderSize + (codec.serializeBatch b).length =
        (pre ++ batchBytes codec b).length := by
      simp only [List.length_append, length_batchBytes]
      omega
    have hupto : pre.length + ((b :: bs).flatMap (batchBytes codec)).length =
        (pre ++ batchBytes codec b).length + (bs.flatMap (batchBytes codec)).length := by
      simp only [List.flatMap_cons, List.length_append]
      omega
    have hfile' : seg.file = pre ++ batchBytes codec b ++ (bs.flatMap (batchBytes codec) ++ post) := by
      simp [hfile]
    rw [readEntriesLoop_batch codec seg _ b st hfile' (by rw [hupto, ← hnext]; omega)
      hreadable (hne b List.mem_cons_self), readBatches_cons codec seg pre.length st b bs, hnext,
      hupto]
    exact ih hbs (pre ++ batchBytes codec b) _ (by simp [hfile]) (by rw [← hupto]; exact hreadable)

/-- `ReadHeader` reads back the header `WriteHeaderAndOpen` wrote, and the first entry offset
is where the writer's offset stood after it. -/
theorem readHeader_written (path : String) (header : Header) (rest : List UInt8) :
    readHeader codec path ((writeHeaderAndOpen codec {} header).file ++ rest) =
      .ok (some (header, (writeHeaderAndOpen codec {} header).firstEntryOffset)) := by
  obtain ⟨hpos, hmax⟩ := @LawfulLogCodec.serializeHeader_length _ _ _ _ codec _ header
  set data := codec.serializeHeader header
  have hsize : data.length.toUInt32.toNat = data.length := toNat_toUInt32_of_le_max hmax
  have h8 : kLogSegmentHeaderMagicString.length = 8 := rfl
  have hne : data.length.toUInt32 ≠ 0 := fun h => by
    rw [h, UInt32.toNat_zero] at hsize
    omega
  have hmagic : readFully ((writeHeaderAndOpen codec {} header).file ++ rest) 0
      kLogSegmentHeaderMagicAndHeaderLength =
        .ok (kLogSegmentHeaderMagicString ++ encodeFixed32 data.length.toUInt32) := by
    refine @readFully_of_eq _ [] _ (data ++ rest) _ _ ?_ rfl ?_
    · simp [writeHeaderAndOpen, data]
    · simp [kLogSegmentHeaderMagicAndHeaderLength, h8]
  have hbody : readFully ((writeHeaderAndOpen codec {} header).file ++ rest)
      kLogSegmentHeaderMagicAndHeaderLength data.length = .ok data := by
    refine @readFully_of_eq _ (kLogSegmentHeaderMagicString ++ encodeFixed32 data.length.toUInt32)
      _ rest _ _ ?_ ?_ rfl
    · simp [writeHeaderAndOpen, data]
    · simp [kLogSegmentHeaderMagicAndHeaderLength, h8]
  have hoffset : (writeHeaderAndOpen codec {} header).firstEntryOffset =
      data.length + kLogSegmentHeaderMagicAndHeaderLength := by
    simp [writeHeaderAndOpen, data, kLogSegmentHeaderMagicAndHeaderLength, h8]
    omega
  -- the checks one by one: a simp over the whole body runs out of memory on its error texts
  unfold readHeader
  rw [hmagic, except_ok_bind, parseHeaderMagicAndHeaderLength_magic, except_ok_bind, if_neg hne,
    if_neg (by rw [hsize]; exact not_lt.2 hmax), hsize, hbody]
  simp only [Status.prepend_ok, except_ok_bind, parseFromArray, data,
    LawfulLogCodec.parseHeader_serializeHeader, hoffset, except_pure_eq]

theorem readFooter_written (seg : WritableLogSegment) (footer : Footer) (firstEntryOffset : Nat)
    (hfirst : firstEntryOffset ≤ seg.file.length) :
    readFooter codec (writeFooterAndClose codec seg footer).file firstEntryOffset =
      some (.ok footer) := by
  obtain ⟨hpos, hmax⟩ := @LawfulLogCodec.serializeFooter_length _ _ _ _ codec _ footer
  set data := codec.serializeFooter footer
  have hsize : data.length.toUInt32.toNat = data.length := toNat_toUInt32_of_le_max hmax
  have h8 : kLogSegmentFooterMagicString.length = 8 := rfl
  have hlength : (writeFooterAndClose codec seg footer).file.length =
      seg.file.length + data.length + kLogSegmentFooterMagicAndFooterLength := by
    simp [writeFooterAndClose, data, kLogSegmentFooterMagicAndFooterLength, h8]
    omega
  have hmagic : readFully (writeFooterAndClose codec seg footer).file
      ((writeFooterAndClose codec seg footer).file.length - kLogSegmentFooterMagicAndFooterLength)
      kLogSegmentFooterMagicAndFooterLength =
        .ok (kLogSegmentFooterMagicString ++ encodeFixed32 data.length.toUInt32) := by
    refine @readFully_of_eq _ (seg.file ++ data) _ [] _ _ ?_ ?_ ?_
    · simp [writeFooterAndClose, data]
    · simp only [hlength, List.length_append]
      omega
    · simp [kLogSegmentFooterMagicAndFooterLength, h8]
  have hbody : readFully (writeFooterAndClose codec seg footer).file seg.file.length data.length =
      .ok data :=
    @readFully_of_eq _ seg.file _ (kLogSegmentFooterMagicString ++ encodeFixed32 data.length.toUInt32)
      _ _ (by simp [writeFooterAndClose, data]) rfl rfl
  have hbig : ¬ (writeFooterAndClose codec seg footer).file.length ≤
      kLogSegmentFooterMagicAndFooterLength := by
    omega
  have hsane : ¬ (data.length.toUInt32 = 0 ∨
      data.length.toUInt32.toNat > kLogSegmentMaxHeaderOrFooterSize) := by
    rw [hsize, ← UInt32.toNat_inj, hsize, UInt32.toNat_zero]
    omega
  have hbefore : ¬ data.length.toUInt32.toNat > (writeFooterAndClose codec seg footer).file.length -
      firstEntryOffset := by
    omega
  have hoffset : (writeFooterAndClose codec seg footer).file.length -
      kLogSegmentFooterMagicAndFooterLength - data.length = seg.file.length := by
    omega
  rw [readFooter, if_neg hbig, hmagic, except_ok_bind, parseFooterMagicAndFooterLength_magic,
    except_ok_bind, if_neg hsane, if_neg hbefore]
  rw [hsize, hoffset]
  simp only [hbody, Status.prepend_ok, except_ok_bind, parseFromArray, data,
    LawfulLogCodec.parseFooter_serializeFooter]

theorem init_written (path : String) (header : Header) (bs : List Batch) (footer : Footer) :
    init codec path (writeFooterAndClose codec (writeBatches codec header bs) footer).file =
      some (.ok (closedSegment codec path header bs footer)) := by
  have hfile : (writeFooterAndClose codec (writeBatches codec header bs) footer).file =
      (writeHeaderAndOpen codec {} header).file ++ (bs.flatMap (batchBytes codec) ++
        (codec.serializeFooter footer ++ kLogSegmentFooterMagicString ++
          encodeFixed32 (codec.serializeFooter footer).length.toUInt32)) := by
    simp [writeFooterAndClose, file_writeBatches]
  have hfirst : (writeHeaderAndOpen codec {} header).firstEntryOffset ≤
      (writeBatches codec header bs).file.length := by
    simp [firstEntryOffset_writeHeaderAndOpen, file_writeBatches]
  have hfooter := readFooter_written codec (writeBatches codec header bs) footer _ hfirst
  rw [init, hfile, readHeader_written, ← hfile]
  simp only [Option.map_some, Option.getD_some, hfooter, Option.map_some, Except.toOption]
  rfl

/-- `ReadEntries` on a closed segment returns what reading its batches one after the other gives,
with status `OK`. -/
theorem readEntries_closedSegment (path : String) (header : Header) (bs : List Batch)
    (footer : Footer) (hne : ∀ b ∈ bs, codec.serializeBatch b ≠ []) :
    readEntries codec (closedSegment codec path header bs footer) =
      { (readBatches codec (closedSegment codec path header bs footer)
          (writeHeaderAndOpen codec {} header).file.length
          ⟨{ endOffset := (writeHeaderAndOpen codec {} header).file.length }, [-1, -1, -1, -1], 0, 0⟩
          bs).result with status := Status.OK } := by
  have hfirst : (closedSegment codec path header bs footer).firstEntryOffset =
      (writeHeaderAndOpen codec {} header).file.length :=
    firstEntryOffset_writeHeaderAndOpen codec header
  have hreadable : (writeHeaderAndOpen codec {} header).file.length +
      (bs.flatMap (batchBytes codec)).length ≤
        (closedSegment codec path header bs footer).readableToOffset := by
    have hlength := congrArg List.length (file_closedSegment codec path header bs footer)
    simp only [List.length_append] at hlength
    simp only [closedSegment] at hlength ⊢
    omega
  apply readEntries_of_done
  rw [readUpTo_closedSegment, hfirst]
  exact readEntriesLoop_batches codec _ _ bs hne _ _ (file_closedSegment codec path header bs footer)
    hreadable

/-- A segment written with a header, non-empty batches and a footer opens, and `ReadEntries`
returns the batches' entries in order, each with the offset of its batch's entry header, up to
the end of the last batch, with status `OK` whatever number of entries the footer records. -/
theorem readEntries_written_segment (path : String) (header : Header) (bs : List Batch)
    (footer : Footer) (hne : ∀ b ∈ bs, codec.serializeBatch b ≠ []) :
    ∃ seg, init codec path (writeFooterAndClose codec (writeBatches codec header bs) footer).file =
        some (.ok seg) ∧
      (readEntries codec seg).entries = bs.flatMap codec.entries ∧
      (readEntries codec seg).entryMetadata =
        batchMetadata codec (codec.sequenceNumber header)
          (writeHeaderAndOpen codec {} header).writtenOffset bs ∧
      (readEntries codec seg).endOffset = (writeBatches codec header bs).writtenOffset ∧
      (readEntries codec seg).status = Status.OK := by
  refine ⟨_, init_written codec path header bs footer, ?_⟩
  rw [readEntries_closedSegment codec path header bs footer hne]
  refine ⟨?_, ?_, ?_, rfl⟩
  · simp [entries_readBatches]
  · simp [entryMetadata_readBatches, closedSegment, writtenOffset_writeHeaderAndOpen]
  · rw [endOffset_readBatches _ _ _ _ _ (by rfl), writtenOffset_writeBatches, file_writeBatches,
      List.length_append]

end Lawful

end Codec

/-- A codec of one-byte messages: a batch holds its byte as its one entry, and a footer records
its byte as `num_entries`. -/
def byteCodec : LogCodec UInt8 UInt8 UInt8 UInt8 where
  serializeHeader h := [h]
  parseHeader data := data.head?
  sequenceNumber h := h.toNat
  serializeBatch b := [b]
  parseBatch data := data.head?
  entries b := [b]
  committedOpId _ := none
  monoTime _ := 1
  entryType _ := .REPLICATE
  replicateId _ := none
  serializeFooter f := [f]
  parseFooter data := data.head?
  numEntries f := f.toNat
  crc32c data := (data.map UInt8.toUInt32).sum

instance : LawfulLogCodec byteCodec where
  parseHeader_serializeHeader _ := rfl
  parseBatch_serializeBatch _ := rfl
  parseFooter_serializeFooter _ := rfl
  serializeHeader_length _ := by simp [byteCodec, kLogSegmentMaxHeaderOrFooterSize]
  serializeFooter_length _ := by simp [byteCodec, kLogSegmentMaxHeaderOrFooterSize]
  serializeBatch_length _ := by simp [byteCodec]

/-- Two batches of one entry each, under a footer that records five entries: `ReadEntries`
still returns `OK`. -/
theorem readEntries_written_miscounted :
    byteCodec.numEntries 5 ≠ (([1, 2] : List UInt8).flatMap byteCodec.entries).length ∧
      ∃ seg, init byteCodec "log"
          (writeFooterAndClose byteCodec (writeBatches byteCodec 0 [1, 2]) 5).file = some (.ok seg) ∧
        (readEntries byteCodec seg).status = Status.OK := by
  obtain ⟨seg, hinit, -, -, -, hstatus⟩ :=
    readEntries_written_segment byteCodec "log" 0 [1, 2] 5 (by simp [byteCodec])
  exact ⟨by decide, seg, hinit, hstatus⟩

end FrescoDB.Log
