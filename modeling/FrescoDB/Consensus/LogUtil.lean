import FrescoDB.Util.Status
import FrescoDB.Consensus.RaftConsensus
import FrescoDB.Lib.BigEndian

/-! The on-disk format of a log segment (`consensus/log_util.cc`): the writer
`WritableLogSegment`, and the reader `ReadableLogSegment` with `Init` and `ReadEntries`. A segment
is the header magic, the header's length and bytes, then entry batches, each after a 12-byte
entry header (length, CRC of the batch, CRC of those eight bytes), then the footer's bytes, the
footer magic and the footer's length. The protobuf messages are given by their serialization and
`ParseFromArray` (`LogCodec`), and `crc::Crc32c` by a function. The file is its bytes: `Read` of a
range past the end returns what is there, `ReadFully` an `IOError`. -/
namespace FrescoDB.Log

open FrescoDB.Lib FrescoDB.Util FrescoDB.Consensus

/-- `InlineEncodeFixed32`, `PutFixed32`: four bytes, the least significant first. -/
def encodeFixed32 (value : UInt32) : List UInt8 := (toBytesBE 4 value.toNat).reverse

/-- `DecodeFixed32` of the first four bytes. -/
def decodeFixed32 (data : List UInt8) : UInt32 := (ofBytesBE (data.take 4).reverse).toUInt32

/-- One byte as `%02x` prints it. -/
def hexLower2 (b : UInt8) : String :=
  let d (n : Nat) : Char := if n < 10 then Char.ofNat (48 + n) else Char.ofNat (87 + n)
  String.ofList [d (b.toNat / 16), d (b.toNat % 16)]

/-- `Slice::ToDebugString()`: printable bytes as they are, the others escaped. -/
def toDebugString (data : List UInt8) : String :=
  String.join <| data.map fun ch =>
    if 0x21 ≤ ch ∧ ch ≤ 0x7e then String.singleton (Char.ofNat ch.toNat)
    else if ch = 13 then "\\r"
    else if ch = 10 then "\\n"
    else if ch = 32 then " "
    else "\\x" ++ hexLower2 ch

/-- "yugalogf". -/
def kLogSegmentHeaderMagicString : List UInt8 := [0x79, 0x75, 0x67, 0x61, 0x6c, 0x6f, 0x67, 0x66]

/-- "closedls". -/
def kLogSegmentFooterMagicString : List UInt8 := [0x63, 0x6c, 0x6f, 0x73, 0x65, 0x64, 0x6c, 0x73]

def kLogSegmentHeaderMagicAndHeaderLength : Nat := 12
def kLogSegmentFooterMagicAndFooterLength : Nat := 12
def kEntryHeaderSize : Nat := 12
def kLogSegmentMaxHeaderOrFooterSize : Nat := 8 * 1024 * 1024

inductive LogEntryTypePB where
  | UNKNOWN | REPLICATE | FLUSH_MARKER
  deriving DecidableEq, Repr

/-- `LogEntryTypePB_Name`. -/
def LogEntryTypePB.name : LogEntryTypePB → String
  | .UNKNOWN => "UNKNOWN"
  | .REPLICATE => "REPLICATE"
  | .FLUSH_MARKER => "FLUSH_MARKER"

/-- The messages `LogSegmentHeaderPB`, `LogEntryBatchPB`, `LogEntryPB` and `LogSegmentFooterPB`
with what the log code reads of them, their serialization (`AppendToString`, `ByteSize()` is its
length) and `ParseFromArray`, and `crc::Crc32c`. -/
structure LogCodec (Header Batch Entry Footer : Type) where
  serializeHeader : Header → List UInt8
  parseHeader : List UInt8 → Option Header
  sequenceNumber : Header → Nat
  serializeBatch : Batch → List UInt8
  parseBatch : List UInt8 → Option Batch
  entries : Batch → List Entry
  committedOpId : Batch → Option OpId
  monoTime : Batch → Nat
  entryType : Entry → LogEntryTypePB
  replicateId : Entry → Option OpId
  serializeFooter : Footer → List UInt8
  parseFooter : List UInt8 → Option Footer
  numEntries : Footer → Nat
  crc32c : List UInt8 → UInt32

/-- `pb_util::ParseFromArray`. -/
def parseFromArray {α : Type} (parse : List UInt8 → Option α) (data : List UInt8) :
    Except Status α :=
  match parse data with
  | some a => .ok a
  | none => .error ⟨.kCorruption, "Error parsing msg"⟩

/-- `env_util::ReadFully`. -/
def readFully (file : List UInt8) (offset n : Nat) : Except Status (List UInt8) :=
  if offset + n ≤ file.length then .ok ((file.drop offset).take n)
  else .error ⟨.kIOError, s!"EOF trying to read {n} bytes at offset {offset}"⟩

/-- `RandomAccessFile::Read`: the bytes of the range that the file holds. -/
def readAt (file : List UInt8) (offset n : Nat) : List UInt8 := (file.drop offset).take n

structure EntryHeader where
  msgLength : UInt32
  msgCrc : UInt32
  headerCrc : UInt32
  deriving DecidableEq, Repr

structure LogEntryMetadata where
  entryTime : Nat
  offset : Nat
  activeSegmentSequenceNumber : Nat
  deriving DecidableEq, Repr

structure ReadEntriesResult (Entry : Type) where
  entries : List Entry := []
  entryMetadata : List LogEntryMetadata := []
  endOffset : Nat := 0
  committedOpId : OpId := ⟨0, 0⟩
  status : Status := Status.OK

structure WritableLogSegment where
  file : List UInt8 := []
  isHeaderWritten : Bool := false
  isFooterWritten : Bool := false
  firstEntryOffset : Nat := 0
  writtenOffset : Nat := 0

/-- The fields of `ReadableLogSegment` that `Init` sets and `ReadEntries` reads; `file_size()` is
the length of `file`. -/
structure ReadableLogSegment (Header Footer : Type) where
  path : String
  file : List UInt8
  header : Option Header := none
  footer : Option Footer := none
  footerWasRebuilt : Bool := false
  firstEntryOffset : Nat := 0
  readableToOffset : Nat := 0

section Codec

variable {Header Batch Entry Footer : Type} (codec : LogCodec Header Batch Entry Footer)

/-! ### Writing -/

def writeHeaderAndOpen (seg : WritableLogSegment) (newHeader : Header) : WritableLogSegment :=
  let headerBytes := codec.serializeHeader newHeader
  let buf := kLogSegmentHeaderMagicString ++ encodeFixed32 headerBytes.length.toUInt32 ++ headerBytes
  { seg with file := seg.file ++ buf, firstEntryOffset := buf.length, writtenOffset := buf.length,
             isHeaderWritten := true }

/-- The 12 bytes `WriteEntryBatch` writes before the batch. -/
def entryHeaderBytes (data : List UInt8) : List UInt8 :=
  let lengthAndCrc := encodeFixed32 data.length.toUInt32 ++ encodeFixed32 (codec.crc32c data)
  lengthAndCrc ++ encodeFixed32 (codec.crc32c lengthAndCrc)

def writeEntryBatch (seg : WritableLogSegment) (data : List UInt8) : WritableLogSegment :=
  { seg with file := seg.file ++ entryHeaderBytes codec data ++ data,
             writtenOffset := seg.writtenOffset + kEntryHeaderSize + data.length }

def writeFooterAndClose (seg : WritableLogSegment) (footer : Footer) : WritableLogSegment :=
  let footerBytes := codec.serializeFooter footer
  let buf := footerBytes ++ kLogSegmentFooterMagicString ++ encodeFixed32 footerBytes.length.toUInt32
  { seg with file := seg.file ++ buf, isFooterWritten := true,
             writtenOffset := seg.writtenOffset + buf.length }

-- Equation lemmas, made once before their uses.
section
attribute [local simp] writeFooterAndClose
end

/-! ### Opening a segment -/

def parseHeaderMagicAndHeaderLength (path : String) (data : List UInt8) : Except Status UInt32 :=
  if data.length ≠ kLogSegmentHeaderMagicAndHeaderLength then
    .error ⟨.kCorruption,
      "Log segment file is too small to contain initial magic number: Unexpected Slice size."⟩
  else if data.take 8 ≠ kLogSegmentHeaderMagicString then
    -- a preallocated file that was never written
    if data.all (· = 0) then .ok 0
    else .error ⟨.kCorruption, s!"Invalid log segment file {path}: Bad magic. " ++ toDebugString data⟩
  else .ok (decodeFixed32 (data.drop 8))

/-- `ReadHeader`: the header and `first_entry_offset_`, or nothing for a blank file. -/
def readHeader (path : String) (file : List UInt8) : Except Status (Option (Header × Nat)) := do
  let slice ← readFully file 0 kLogSegmentHeaderMagicAndHeaderLength
  let headerSize ← parseHeaderMagicAndHeaderLength path slice
  if headerSize = 0 then return none
  let maxSize := kLogSegmentMaxHeaderOrFooterSize
  if headerSize.toNat > maxSize then
    throw ⟨.kCorruption, s!"File is corrupted. Parsed header size: {headerSize} is zero or bigger than max header size: {maxSize}"⟩
  let headerSlice ← Status.prepend "Unable to read fully"
    (readFully file kLogSegmentHeaderMagicAndHeaderLength headerSize.toNat)
  let header ← Status.prepend "Unable to parse protobuf"
    (parseFromArray codec.parseHeader headerSlice)
  return some (header, headerSize.toNat + kLogSegmentHeaderMagicAndHeaderLength)

def parseFooterMagicAndFooterLength (data : List UInt8) : Except Status UInt32 :=
  if data.length ≠ kLogSegmentFooterMagicAndFooterLength then
    .error ⟨.kCorruption, "Slice is too small to contain final magic number: Unexpected Slice size."⟩
  else if data.take 8 ≠ kLogSegmentFooterMagicString then
    .error ⟨.kNotFound, "Footer not found. Footer magic doesn't match"⟩
  else .ok (decodeFixed32 (data.drop 8))

/-- `ReadFooter`; `none` is the failure of `CHECK_GT(file_size(), 12)`. -/
def readFooter (file : List UInt8) (firstEntryOffset : Nat) : Option (Except Status Footer) :=
  if file.length ≤ kLogSegmentFooterMagicAndFooterLength then none
  else some do
    let slice ← readFully file (file.length - kLogSegmentFooterMagicAndFooterLength)
      kLogSegmentFooterMagicAndFooterLength
    let footerSize ← parseFooterMagicAndFooterLength slice
    let maxSize := kLogSegmentMaxHeaderOrFooterSize
    if footerSize = 0 ∨ footerSize.toNat > maxSize then
      throw ⟨.kNotFound, s!"File is corrupted. Parsed header size: {footerSize} is zero or bigger than max header size: {maxSize}"⟩
    if footerSize.toNat > file.length - firstEntryOffset then
      throw ⟨.kNotFound, "Footer not found. File corrupted. Decoded footer length pointed at a footer before the first entry."⟩
    let footerOffset := file.length - kLogSegmentFooterMagicAndFooterLength - footerSize.toNat
    let footerSlice ← Status.prepend "Footer not found. Could not read fully."
      (readFully file footerOffset footerSize.toNat)
    Status.prepend "Unable to parse protobuf" (parseFromArray codec.parseFooter footerSlice)

/-- `ReadableLogSegment::Init()`: a footer that cannot be read is only logged, and the whole file
is readable. -/
def init (path : String) (file : List UInt8) :
    Option (Except Status (ReadableLogSegment Header Footer)) :=
  match readHeader codec path file with
  | .error s => some (.error s)
  | .ok header =>
    let firstEntryOffset := (header.map (·.2)).getD 0
    (readFooter codec file firstEntryOffset).map fun footer =>
      .ok { path, file, header := header.map (·.1), footer := footer.toOption, firstEntryOffset,
            readableToOffset := file.length }

/-! ### Reading entries -/

def decodeEntryHeader (data : List UInt8) : Except Status EntryHeader :=
  let header : EntryHeader :=
    ⟨decodeFixed32 data, decodeFixed32 (data.drop 4), decodeFixed32 (data.drop 8)⟩
  let computedCrc := codec.crc32c (data.take 8)
  let found := header.headerCrc
  if computedCrc ≠ found then
    .error ⟨.kCorruption, s!"Invalid checksum in log entry head header: found={found}, computed={computedCrc}"⟩
  else .ok header

def readEntryHeader (seg : ReadableLogSegment Header Footer) (offset : Nat) :
    Except Status EntryHeader := do
  let slice ← Status.prepend "Could not read log entry header"
    (readFully seg.file offset kEntryHeaderSize)
  decodeEntryHeader codec slice

/-- `ReadEntryBatch` at `offset`, after the entry header; the batch and the bytes read. -/
def readEntryBatch (seg : ReadableLogSegment Header Footer) (offset : Nat) (header : EntryHeader) :
    Except Status (Batch × Nat) := do
  let msgLength := header.msgLength.toNat
  if msgLength = 0 then throw ⟨.kCorruption, "Invalid 0 entry length"⟩
  let limit := seg.readableToOffset
  let path := seg.path
  if msgLength + offset > limit then
    throw ⟨.kCorruption, s!"Could not read {msgLength}-byte log entry from offset {offset} in {path}: log only readable up to offset {limit}"⟩
  let slice := readAt seg.file offset msgLength
  let readCrc := codec.crc32c slice
  let msgCrc := header.msgCrc
  let endOffset := offset + msgLength
  if readCrc ≠ msgCrc then
    throw ⟨.kCorruption, s!"Entry CRC mismatch in byte range {offset}-{endOffset}: expected CRC={msgCrc}, computed={readCrc}"⟩
  match parseFromArray codec.parseBatch slice with
  | .error s => throw ⟨.kCorruption, "Could parse PB. Cause: " ++ s.toString⟩
  | .ok batch => return (batch, slice.length)

/-- `ReadEntryHeaderAndBatch`: the offset it leaves behind, the header's 12 bytes past `offset`
once the header is read, and the batch with the length of its bytes. -/
def readEntryHeaderAndBatch (seg : ReadableLogSegment Header Footer) (offset : Nat) :
    Nat × Except Status (Batch × Nat) :=
  match readEntryHeader codec seg offset with
  | .error s => (offset, .error s)
  | .ok header =>
    match readEntryBatch codec seg (offset + kEntryHeaderSize) header with
    | .error s => (offset + kEntryHeaderSize, .error s)
    | .ok (batch, n) => (offset + kEntryHeaderSize + n, .ok (batch, n))

def kChunkSize : Nat := 1024 * 1024

/-- `ScanForValidEntryHeaders` from `offset`: chunks of `kChunkSize` bytes overlapping by the size
of an entry header, a chunk of zeros skipped, each position of a chunk tried as an entry header. -/
def scanForValidEntryHeaders (seg : ReadableLogSegment Header Footer) (offset : Nat) :
    Except Status Bool :=
  if offset + kEntryHeaderSize < seg.file.length then
    let rem := min (seg.file.length - offset) kChunkSize
    match readFully seg.file offset rem with
    | .error s => .error s
    | .ok chunk =>
      if !chunk.all (· = 0) ∧ (List.range (chunk.length - kEntryHeaderSize)).any fun offInChunk =>
          (decodeEntryHeader codec ((chunk.drop offInChunk).take kEntryHeaderSize)).toBool then
        .ok true
      else scanForValidEntryHeaders seg (offset + (kChunkSize - kEntryHeaderSize))
  else .ok false
termination_by seg.file.length - offset
decreasing_by
  simp only [kChunkSize, kEntryHeaderSize] at *
  omega

/-- `OpIdToString`. -/
def opIdToString (id : OpId) : String :=
  let term := id.term
  let index := id.index
  s!"{term}.{index}"

/-- The text `MakeCorruptionStatus` gives one entry. -/
def entryDescription (entry : Entry) : String :=
  let typeName := (codec.entryType entry).name
  let opidStr := match codec.entryType entry, codec.replicateId entry with
    | .REPLICATE, some id => opIdToString id
    | _, _ => "<unknown>"
  s!" [{typeName} ({opidStr})]"

def makeCorruptionStatus (seg : ReadableLogSegment Header Footer) (batchNumber batchOffset : Nat)
    (recentOffsets : List Int) (entries : List Entry) (status : Status) : Status :=
  let path := seg.path
  let priorOffsets := (recentOffsets.mergeSort fun a b => decide (a ≤ b)).filter (0 ≤ ·)
  let err := "Log file corruption detected. " ++
    s!"Failed trying to read batch #{batchNumber} at offset {batchOffset} for log segment {path}: " ++
    "Prior batch offsets:" ++ String.join (priorOffsets.map fun offset => s!" {offset}")
  let err := if entries.isEmpty then err
    else err ++ "; Last log entries read:" ++
      String.join ((entries.drop (entries.length - 4)).map (entryDescription codec))
  status.cloneAndAppend err

/-- What the loop of `ReadEntries` carries from one batch to the next. -/
structure ReadEntriesState (Entry : Type) where
  result : ReadEntriesResult Entry
  recentOffsets : List Int
  batchesRead : Nat
  numEntriesRead : Nat

/-- How the loop of `ReadEntries` ends: by a `return`, or into the code after it. -/
inductive ReadEntriesExit (Entry : Type) where
  | returned (result : ReadEntriesResult Entry)
  | done (st : ReadEntriesState Entry)

/-- One pass of the loop body up to the read: a header that would reach `read_up_to` is a
truncated entry. -/
def readNextBatch (seg : ReadableLogSegment Header Footer) (readUpTo offset : Nat) :
    Nat × Except Status (Batch × Nat) :=
  if offset + kEntryHeaderSize < readUpTo then readEntryHeaderAndBatch codec seg offset
  else (offset, .error ⟨.kCorruption, s!"Truncated log entry at offset {offset}"⟩)

/-- The entries of a batch read at `offset`, appended to the result. -/
def appendBatch (seg : ReadableLogSegment Header Footer) (result : ReadEntriesResult Entry)
    (batch : Batch) (offset endOffset : Nat) : ReadEntriesResult Entry :=
  let sequenceNumber := (seg.header.map codec.sequenceNumber).getD 0
  { result with
    committedOpId := (codec.committedOpId batch).getD result.committedOpId
    entries := result.entries ++ codec.entries batch
    entryMetadata := result.entryMetadata ++
      (codec.entries batch).map fun _ => ⟨codec.monoTime batch, offset, sequenceNumber⟩
    endOffset }

/-- The loop `while (offset < read_up_to)` of `ReadEntries`. -/
def readEntriesLoop (seg : ReadableLogSegment Header Footer) (readUpTo : Nat) (offset : Nat)
    (st : ReadEntriesState Entry) : ReadEntriesExit Entry :=
  if offset < readUpTo then
    let recentOffsets := st.recentOffsets.set (st.batchesRead % 4) (offset : Int)
    let batchesRead := st.batchesRead + 1
    match readNextBatch codec seg readUpTo offset with
    | (offsetAfter, .error s) =>
      let path := seg.path
      if s.code ≠ .kCorruption then
        .returned { st.result with status := s.cloneAndPrepend s!"Error reading from log {path}" }
      else
        let status :=
          makeCorruptionStatus codec seg batchesRead offset recentOffsets st.result.entries s
        let result := { st.result with status }
        -- a closed segment may hold no corruption, not even in its last batch
        if seg.footer.isSome ∧ !seg.footerWasRebuilt then .returned result
        else
          match scanForValidEntryHeaders codec seg offsetAfter with
          | .ok true => .returned result
          | .ok false => .done { st with result, recentOffsets, batchesRead }
          | .error _ =>
            let status := s.cloneAndPrepend "Scanning forward for valid entries"
            .done { st with result := { result with status }, recentOffsets, batchesRead }
    | (_, .ok (batch, n)) =>
      let offsetAfter := offset + kEntryHeaderSize + n
      readEntriesLoop seg readUpTo offsetAfter
        { result := appendBatch codec seg st.result batch offset offsetAfter, recentOffsets,
          batchesRead, numEntriesRead := st.numEntriesRead + (codec.entries batch).length }
  else .done st
termination_by readUpTo - offset
decreasing_by simp only [kEntryHeaderSize]; omega

/-- `read_up_to`: the start of the footer of a closed segment, else `readable_to_offset_`. -/
def readUpTo (seg : ReadableLogSegment Header Footer) : Nat :=
  match seg.footer with
  | some footer =>
    if !seg.footerWasRebuilt then
      seg.file.length - (codec.serializeFooter footer).length - kLogSegmentFooterMagicAndFooterLength
    else seg.readableToOffset
  | none => seg.readableToOffset

/-- `ReadableLogSegment::ReadEntries`. -/
def readEntries (seg : ReadableLogSegment Header Footer) : ReadEntriesResult Entry :=
  let offset := seg.firstEntryOffset
  let initial : ReadEntriesState Entry := ⟨{ endOffset := offset }, [-1, -1, -1, -1], 0, 0⟩
  match readEntriesLoop codec seg (readUpTo codec seg) offset initial with
  | .returned result => result
  | .done st =>
    let path := seg.path
    let numEntriesRead := st.numEntriesRead
    let result := match seg.footer with
      | some footer =>
        let expected := codec.numEntries footer
        if expected ≠ numEntriesRead then
          { st.result with status := ⟨.kCorruption, s!"Read {numEntriesRead} log entries from {path}, but expected {expected} based on the footer"⟩ }
        else st.result
      | none => st.result
    { result with status := Status.OK }

end Codec

end FrescoDB.Log
