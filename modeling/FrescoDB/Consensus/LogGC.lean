import FrescoDB.Util.Status
import FrescoDB.Consensus.RaftConsensus

/-! The log's segments as `LogReader` holds them, the op index `LogIndex`, the random read
`LogReader::ReadReplicatesInRange` and `Log::GC` (`consensus/log.cc`, `log_reader.cc`,
`log_index.cc`).

A segment is its header's sequence number, its footer once it is closed, and the entry batches
written to it, by the offset of their entry header: `ReadEntryHeaderAndBatch` at such an offset
returns that batch, and at any other offset fails with a status that depends on the bytes there,
left empty here. The index keeps, for each op index, the physical entry its chunk holds, and the
keys of `open_chunks_`. `Log::GC` depends on two flags, the clock, and whether each file removal
succeeds: these are inputs. Metrics, logging and paths are left out. -/
namespace FrescoDB.Log

open FrescoDB.Util FrescoDB.Consensus

/-- `INT_MAX`, the last value of an `int`. -/
def kInt32Max : Int := 2 ^ 31 - 1

/-- `ReplicateMsg`: its op id, what `SpaceUsed()` returns for it, and the rest, `P`. -/
structure ReplicateMsg (P : Type) where
  id : OpId
  spaceUsed : Int
  payload : P
  deriving DecidableEq, Repr

/-- `LogEntryPB`, by its `replicate` if it has one. -/
structure LogEntryPB (P : Type) where
  replicate : Option (ReplicateMsg P) := none
  deriving DecidableEq, Repr

/-- `LogSegmentFooterPB`: `min_replicate_index` when it is set, `max_replicate_index` with its
default, and `close_timestamp_micros` when it is set. -/
structure LogSegmentFooterPB where
  minReplicateIndex : Option Int := none
  maxReplicateIndex : Int := -1
  closeTimestampMicros : Option Int := none
  deriving DecidableEq, Repr

/-- A `ReadableLogSegment` as the reader uses it. -/
structure Segment (P : Type) where
  sequenceNumber : Int
  /-- The footer, which only a closed segment has (`HasFooter`). -/
  footer : Option LogSegmentFooterPB := none
  batches : List (Int × List (LogEntryPB P)) := []
  deriving DecidableEq, Repr

namespace Segment

variable {P : Type}

/-- `ReadEntryHeaderAndBatch` at `offset`. -/
def readEntryHeaderAndBatch (segment : Segment P) (offset : Int) :
    Except Status (List (LogEntryPB P)) :=
  match segment.batches.lookup offset with
  | some batch => .ok batch
  | none => .error ⟨.kCorruption, ""⟩

end Segment

/-- `LogIndexEntry`. -/
structure LogIndexEntry where
  opId : OpId
  segmentSequenceNumber : Int
  offsetInSegment : Int
  deriving DecidableEq, Repr

/-- `PhysicalEntry`: what a chunk holds for one op index, zero where nothing was written. -/
structure PhysicalEntry where
  term : Int := 0
  segmentSequenceNumber : Int := 0
  offsetInSegment : Int := 0
  deriving DecidableEq, Repr

/-- `kEntriesPerIndexChunk` of a Linux build. -/
def kEntriesPerIndexChunk : Int := 1000000

structure LogIndex where
  /-- The keys of `open_chunks_`. -/
  openChunks : List Int
  /-- The entry each chunk holds at `index % kEntriesPerIndexChunk`, by op index. -/
  physical : Int → PhysicalEntry

namespace LogIndex

/-- `GetChunkForIndex(log_index, false, ...)`; `none` is its `CHECK_GT(log_index, 0)`. -/
def getChunkForIndex (logIndex : LogIndex) (index : Int) : Option (Except Status Unit) :=
  if index ≤ 0 then none
  else if index / kEntriesPerIndexChunk ∈ logIndex.openChunks then some (.ok ())
  else some (.error ⟨.kNotFound, "chunk not found"⟩)

/-- `GetEntry`: an offset of zero is an entry never written, since a segment starts with its
header. -/
def getEntry (logIndex : LogIndex) (index : Int) : Option (Except Status LogIndexEntry) :=
  (logIndex.getChunkForIndex index).map fun
    | .error s => .error s
    | .ok () =>
      let phys := logIndex.physical index
      if phys.offsetInSegment = 0 then .error ⟨.kNotFound, "entry not found"⟩
      else .ok ⟨⟨phys.term, index⟩, phys.segmentSequenceNumber, phys.offsetInSegment⟩

/-- `GC(min_index_to_retain)`: the chunks below the one of `min_index_to_retain` are unlinked, and
those whose file `unlink` removed are closed. `int min_chunk_to_retain` keeps the low 32 bits of
the quotient. -/
def gc (logIndex : LogIndex) (minIndexToRetain : Int) (unlink : Int → Bool) : LogIndex :=
  let minChunkToRetain := (minIndexToRetain.tdiv kEntriesPerIndexChunk).bmod (2 ^ 32)
  let chunksToDelete := logIndex.openChunks.filter (· < minChunkToRetain)
  { logIndex with
    openChunks := chunksToDelete.foldl
      (fun openChunks chunkIdx => if unlink chunkIdx then openChunks.erase chunkIdx else openChunks)
      logIndex.openChunks }

end LogIndex

/-- `LogReader`: the segments it reads, oldest first. -/
structure LogReader (P : Type) where
  segments : List (Segment P)
  deriving DecidableEq, Repr

namespace LogReader

variable {P : Type}

/-- `GetSegmentPrefixNotIncluding`: the segments from the oldest on, up to the first that has no
footer or whose footer's `max_replicate_index` reaches `index`. -/
def getSegmentPrefixNotIncluding (reader : LogReader P) (index : Int) : List (Segment P) :=
  reader.segments.takeWhile fun segment =>
    match segment.footer with
    | none => false
    | some footer => footer.maxReplicateIndex < index

/-- `GetMinReplicateIndex`: the least `min_replicate_index` of the footers that set it, `-1` if
none does. -/
def getMinReplicateIndex (reader : LogReader P) : Int :=
  reader.segments.foldl
    (fun minRemainingOpIdx segment =>
      match segment.footer.bind (·.minReplicateIndex) with
      | none => minRemainingOpIdx
      | some m => if minRemainingOpIdx = -1 ∨ m < minRemainingOpIdx then m else minRemainingOpIdx)
    (-1)

/-- `GetSegmentBySequenceNumber`, which finds the segment by its distance from the first; `none`
is its `DCHECK_EQ` of the sequence number, which a release build (`ndebug`) skips. -/
def getSegmentBySequenceNumber (ndebug : Bool) (reader : LogReader P) (seq : Int) :
    Option (Option (Segment P)) :=
  match reader.segments with
  | [] => some none
  | first :: _ =>
    let relative := seq - first.sequenceNumber
    if relative < 0 ∨ reader.segments.length ≤ relative then some none
    else
      match reader.segments[relative.toNat]? with
      | none => some none
      | some segment => if !ndebug && segment.sequenceNumber ≠ seq then none else some (some segment)

/-- `TrimSegmentsUpToAndIncluding`. -/
def trimSegmentsUpToAndIncluding (reader : LogReader P) (segmentSequenceNumber : Int) :
    LogReader P :=
  ⟨reader.segments.dropWhile (·.sequenceNumber ≤ segmentSequenceNumber)⟩

/-- `ReadBatchUsingIndexEntry`; `none` is a failed `CHECK` or `DCHECK`. The message prints the
index as the `int` it keeps of it. -/
def readBatchUsingIndexEntry (ndebug : Bool) (reader : LogReader P) (indexEntry : LogIndexEntry) :
    Option (Except Status (List (LogEntryPB P))) :=
  let index := indexEntry.opId.index.bmod (2 ^ 32)
  let seq := indexEntry.segmentSequenceNumber
  let offset := indexEntry.offsetInSegment
  match reader.getSegmentBySequenceNumber ndebug seq with
  | none => none
  | some none =>
    some (.error ⟨.kNotFound, s!"Segment {seq} which contained index {index} has been GCed"⟩)
  | some (some segment) =>
    if offset ≤ 0 then none
    else some (Status.prepend
      s!"Failed to read LogEntry for index {index} from log segment {seq} offset {offset}"
      (segment.readEntryHeaderAndBatch offset))

/-- The sanity check of a batch just read: its `REPLICATE`s have increasing indexes, from above
zero. -/
def replicateIndexesIncrease (batch : List (LogEntryPB P)) : Bool :=
  decide (((batch.filterMap (·.replicate)).map (·.id.index)).IsChain (· < ·)) &&
    ((batch.filterMap (·.replicate)).head?.all fun r => 0 < r.id.index)

/-- The position in the batch of the `REPLICATE` of op `index`. -/
def findReplicate (batch : List (LogEntryPB P)) (index : Int) : Option Nat :=
  batch.findIdx? fun entry => entry.replicate.any (·.id.index = index)

/-- The variables of the loop of `ReadReplicatesInRange`. -/
structure ReadState (P : Type) where
  replicatesTmp : List (ReplicateMsg P) := []
  prevIndexEntry : LogIndexEntry
  totalSize : Int := 0
  limitExceeded : Bool := false
  batch : List (LogEntryPB P) := []

/-- One pass of the loop's body at `index`, with the batch to search already in hand: the op's
`REPLICATE` is taken out of the batch (`release_replicate`) while the size limit allows it, the
first one always; `none` is `CHECK(found)`. -/
def takeReplicate (maxBytesToRead index : Int) (indexEntry : LogIndexEntry)
    (batch : List (LogEntryPB P)) (st : ReadState P) : Option (ReadState P) :=
  match findReplicate batch index with
  | none => none
  | some k =>
    match batch[k]? with
    | none => none
    | some entry =>
      match entry.replicate with
      | none => none
      | some replicate =>
        let spaceRequired := replicate.spaceUsed
        if st.replicatesTmp.isEmpty || maxBytesToRead ≤ 0 ||
            st.totalSize + spaceRequired < maxBytesToRead then
          some { st with totalSize := st.totalSize + spaceRequired,
                         replicatesTmp := st.replicatesTmp ++ [replicate],
                         batch := batch.set k {},
                         prevIndexEntry := indexEntry }
        else some { st with limitExceeded := true, batch, prevIndexEntry := indexEntry }

/-- The body of the loop of `ReadReplicatesInRange` at `index`: the batch is read again unless
the previous op's index entry named the same one. -/
def readStep (ndebug : Bool) (reader : LogReader P) (logIndex : LogIndex)
    (startingAt maxBytesToRead index : Int) (st : ReadState P) :
    Option (Except Status (ReadState P)) :=
  match logIndex.getEntry index with
  | none => none
  | some (.error s) => some (.error (s.cloneAndPrepend s!"Failed to read log index for op {index}"))
  | some (.ok indexEntry) =>
    if index = startingAt ∨
        indexEntry.segmentSequenceNumber ≠ st.prevIndexEntry.segmentSequenceNumber ∨
        indexEntry.offsetInSegment ≠ st.prevIndexEntry.offsetInSegment then
      match reader.readBatchUsingIndexEntry ndebug indexEntry with
      | none => none
      | some (.error s) => some (.error s)
      | some (.ok batch) =>
        if replicateIndexesIncrease batch then
          (takeReplicate maxBytesToRead index indexEntry batch st).map .ok
        else none
    else (takeReplicate maxBytesToRead index indexEntry st.batch st).map .ok

/-- The loop of `ReadReplicatesInRange` from `index = kInt32Max - k`: it runs while `index` is
at most `up_to` and the limit is not exceeded, and `index++` past `INT_MAX` is undefined. -/
def readLoop (ndebug : Bool) (reader : LogReader P) (logIndex : LogIndex)
    (startingAt upTo maxBytesToRead : Int) :
    Nat → ReadState P → Option (Except Status (List (ReplicateMsg P)))
  | k, st =>
    let index := kInt32Max - k
    if index ≤ upTo ∧ st.limitExceeded = false then
      match readStep ndebug reader logIndex startingAt maxBytesToRead index st with
      | none => none
      | some (.error s) => some (.error s)
      | some (.ok st) =>
        match k with
        | 0 => none
        | k + 1 => readLoop ndebug reader logIndex startingAt upTo maxBytesToRead k st
    else some (.ok st.replicatesTmp)

-- Equation lemmas, made once before their uses.
section
attribute [local simp] readLoop
end

/-- `ReadReplicatesInRange(starting_at, up_to, max_bytes_to_read)`. Its loop variable is an
`int`, which keeps the low 32 bits of `starting_at`; `prevIndexEntry` is the default-constructed
`prev_index_entry`, whose sequence number and offset are left uninitialized. -/
def readReplicatesInRange (ndebug : Bool) (reader : LogReader P) (logIndex : LogIndex)
    (prevIndexEntry : LogIndexEntry) (startingAt upTo maxBytesToRead : Int) :
    Option (Except Status (List (ReplicateMsg P))) :=
  if !ndebug && (startingAt ≤ 0 || upTo < startingAt) then none
  else
    let index := startingAt.bmod (2 ^ 32)
    readLoop ndebug reader logIndex startingAt upTo maxBytesToRead (kInt32Max - index).toNat
      { prevIndexEntry }

end LogReader

/-- What `Log::GC` reads outside the log. -/
structure GcEnv where
  /-- `FLAGS_log_min_segments_to_retain`. -/
  logMinSegmentsToRetain : Int
  /-- `FLAGS_log_min_seconds_to_retain`. -/
  logMinSecondsToRetain : Int
  /-- `GetCurrentTimeMicros()`. -/
  now : Int
  /-- `DeleteFile` of the file of the segment with this sequence number. -/
  deleteFile : Int → Status
  /-- Whether `unlink` removes the file of this index chunk. -/
  unlink : Int → Bool

set_option linter.dupNamespace false

/-- The parts of a `Log` that `GC` reads and changes. -/
structure Log (P : Type) where
  reader : LogReader P
  logIndex : LogIndex

namespace Log

variable {P : Type}

/-- `GetSegmentsToGCUnlocked`: the prefix not including `min_op_idx`, cut to leave
`FLAGS_log_min_segments_to_retain` segments, then at the first segment closed more recently than
`FLAGS_log_min_seconds_to_retain`. -/
def getSegmentsToGCUnlocked (env : GcEnv) (reader : LogReader P) (minOpIdx : Int) :
    List (Segment P) :=
  let segmentsToGc := reader.getSegmentPrefixNotIncluding minOpIdx
  let maxToDelete := max ((reader.segments.length : Int) - env.logMinSegmentsToRetain) 0
  let segmentsToGc :=
    if maxToDelete < segmentsToGc.length then segmentsToGc.take maxToDelete.toNat else segmentsToGc
  segmentsToGc.takeWhile fun segment =>
    match segment.footer.bind (·.closeTimestampMicros) with
    | none => true
    | some closeTimestampMicros =>
      env.logMinSecondsToRetain ≤ (env.now - closeTimestampMicros).tdiv 1000000

/-- The loop of `GC` that deletes the segments' files: how many it deleted, and the status of the
first that failed. -/
def deleteFiles (deleteFile : Int → Status) : List (Segment P) → Nat → Nat × Option Status
  | [], numGced => (numGced, none)
  | segment :: segments, numGced =>
    let s := deleteFile segment.sequenceNumber
    if s.ok then deleteFiles deleteFile segments (numGced + 1) else (numGced, some s)

/-- `GC(min_op_idx, &num_gced)`: the status, `num_gced` and the log after it; `none` is its
`CHECK_GE(min_op_idx, 0)`. -/
def gc (env : GcEnv) (log : Log P) (minOpIdx : Int) : Option (Status × Nat × Log P) :=
  if minOpIdx < 0 then none
  else
    let segmentsToDelete := getSegmentsToGCUnlocked env log.reader minOpIdx
    match segmentsToDelete.getLast? with
    | none => some (Status.OK, 0, log)
    | some last =>
      let reader := log.reader.trimSegmentsUpToAndIncluding last.sequenceNumber
      match deleteFiles env.deleteFile segmentsToDelete 0 with
      | (numGced, some s) => some (s, numGced, { log with reader })
      | (numGced, none) =>
        let minRemainingOpIdx := reader.getMinReplicateIndex
        let logIndex :=
          if 0 < minRemainingOpIdx then log.logIndex.gc minRemainingOpIdx env.unlink
          else log.logIndex
        some (Status.OK, numGced, { reader, logIndex })

end Log

end FrescoDB.Log
