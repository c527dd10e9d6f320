import FrescoDB.Docdb.LockManagerImpl
import FrescoDB.Docdb.ValueType
import FrescoDB.Util.Status
import FrescoDB.Util.VarInt
import FrescoDB.Lib.Coalesce

/-! The lock batch of a write (`docdb/docdb.cc`). `DetermineKeysToLock` locks every doc path of
every operation strongly, and weakly the empty key (on a transactional table) and each prefix of
the path that `SubDocKey::DecodePrefixLengths` finds; `ApplyIntent` drops the group ends at the
end of each key. `FilterKeysToLock` then sorts the batch by key and merges the entries of one key
into its first, with the union of their intent types.

The decoders of `doc_key.cc` that `DecodePrefixLengths` calls are parameters, each with what it
leaves of the slice; so is what a `DocOperation` reports of its doc paths, and the calls
`EnumerateIntents` makes of its callback for the read pairs. -/
namespace FrescoDB.Docdb

open FrescoDB.Util FrescoDB.Lib

/-- `IsolationLevel` (`common.proto`). -/
inductive IsolationLevel where
  | NON_TRANSACTIONAL | SNAPSHOT_ISOLATION | SERIALIZABLE_ISOLATION
  deriving DecidableEq, Repr

inductive OperationKind where
  | kRead | kWrite
  deriving DecidableEq, Repr

inductive IntentStrength where
  | kWeak | kStrong
  deriving DecidableEq, Repr

namespace IntentTypeSet

/-- `operator|` of the bitset. -/
def union (s t : IntentTypeSet) : IntentTypeSet := ofNat (s.bits ||| t.bits)

theorem toNat_lt (t : IntentType) : t.toNat < 4 := by
  cases t <;> decide

@[simp] theorem test_union (s t : IntentTypeSet) (x : IntentType) :
    (s.union t).test x = (s.test x || t.test x) := by
  show ((s.bits ||| t.bits) % 2 ^ 4).testBit x.toNat = _
  rw [Nat.testBit_mod_two_pow, Nat.testBit_or, decide_eq_true (toNat_lt x), Bool.true_and]
  rfl

end IntentTypeSet

/-- `GetStrongIntentTypeSet`. For `NON_TRANSACTIONAL` it is a `LOG(DFATAL)`, which in a release
build returns the empty set. -/
def getStrongIntentTypeSet : IsolationLevel → OperationKind → IntentTypeSet
  | .SNAPSHOT_ISOLATION, _ => .ofList [.kStrongRead, .kStrongWrite]
  | .SERIALIZABLE_ISOLATION, .kRead => .ofList [.kStrongRead]
  | .SERIALIZABLE_ISOLATION, .kWrite => .ofList [.kStrongWrite]
  | .NON_TRANSACTIONAL, _ => .empty

/-- `StrongToWeak`. -/
def strongToWeak (inp : IntentTypeSet) : IntentTypeSet :=
  .ofNat (inp.toUIntPtr >>> kStrongIntentFlag)

/-! `ApplyIntent`. -/

/-- The loop `while (key.data()[size - 1] == kGroupEnd) --size;`. -/
def trimGroupEnd (key : List UInt8) : Nat → Nat
  | 0 => 0
  | size + 1 =>
    if key[size]? = some ValueType.kGroupEnd.toByte then trimGroupEnd key size else size + 1

/-- `ApplyIntent`: the key without the group ends at its end, at the back of the batch, with a
null `locked` (position `0`, which `Reserve` overwrites). -/
def applyIntent (key : List UInt8) (intentTypes : IntentTypeSet)
    (keysLocked : List LockBatchEntry) : Except Status (List LockBatchEntry) := do
  let size ← match key with
    | [] => pure 0
    | b :: _ =>
      if b = ValueType.kGroupEnd.toByte then
        if key.length ≠ 1 then
          throw ⟨.kCorruption, "Key starting with group end: " ++ toDebugHexString key⟩
        else pure 0
      else pure (trimGroupEnd key key.length)
  pure (keysLocked ++ [⟨key.take size, intentTypes, 0⟩])

/-! `SubDocKey::DecodePrefixLengths`. -/

/-- The decoders `DecodePrefixLengths` calls, each with what it leaves of the slice:
`DocKey::EncodedSize(slice, DocKeyPart::HASHED_PART_ONLY)`, `ConsumePrimitiveValueFromKey`
(whether it consumed a value, or else the group end) and `SubDocKey::DecodeSubkey` (whether it
consumed a subkey). What they consume is at least a byte. -/
structure KeyDecoders where
  hashedPartSize : List UInt8 → Except Status Nat
  consumePrimitiveValueFromKey : List UInt8 → Except Status (Bool × List UInt8)
  decodeSubkey : List UInt8 → Except Status (Bool × List UInt8)
  consume_lt : ∀ {slice : List UInt8} {b : Bool} {rest : List UInt8},
    consumePrimitiveValueFromKey slice = .ok (b, rest) → rest.length < slice.length
  decodeSubkey_lt : ∀ {slice rest : List UInt8},
    decodeSubkey slice = .ok (true, rest) → rest.length < slice.length

namespace KeyDecoders

variable (d : KeyDecoders)

/-- `while (VERIFY_RESULT(ConsumePrimitiveValueFromKey(&slice))) out->push_back(...)`: the end
of each range component, as an offset into a key of `size` bytes. -/
def consumeRangeComponents (size : Nat) (slice : List UInt8) (out : List Nat) :
    Except Status (List Nat × List UInt8) :=
  match h : d.consumePrimitiveValueFromKey slice with
  | .error e => .error e
  | .ok (false, rest) => .ok (out, rest)
  | .ok (true, rest) =>
    have : rest.length < slice.length := d.consume_lt h
    consumeRangeComponents size rest (out ++ [size - rest.length])
termination_by slice.length

/-- `while (VERIFY_RESULT(SubDocKey::DecodeSubkey(&slice))) out->push_back(...)`. -/
def decodeSubkeys (size : Nat) (slice : List UInt8) (out : List Nat) :
    Except Status (List Nat) :=
  match h : d.decodeSubkey slice with
  | .error e => .error e
  | .ok (false, _) => .ok out
  | .ok (true, rest) =>
    have : rest.length < slice.length := d.decodeSubkey_lt h
    decodeSubkeys size rest (out ++ [size - rest.length])
termination_by slice.length

/-- `SubDocKey::DecodePrefixLengths`: the end of the hashed part, of each range component (the
last one with the group end after it) and of each subkey. -/
def decodePrefixLengths (slice : List UInt8) : Except Status (List Nat) := do
  let hashedPartSize ← d.hashedPartSize slice
  let (rest, out) :=
    if hashedPartSize ≠ 0 then (slice.drop hashedPartSize, [hashedPartSize]) else (slice, [])
  let (out, rest) ← d.consumeRangeComponents slice.length rest out
  let out ← match out.getLast? with
    | none => pure out
    | some back =>
      if slice[back]? ≠ some ValueType.kGroupEnd.toByte then
        throw ⟨.kCorruption, "Range keys group end expected at " ++ toString back ++ " in " ++
          toDebugHexString slice⟩
      else pure (out.dropLast ++ [back + 1])
  d.decodeSubkeys slice.length rest out

end KeyDecoders

/-! `DetermineKeysToLock` and `FilterKeysToLock`. -/

/-- What `DetermineKeysToLock` reads of a `DocOperation`:
`GetDocPaths(GetDocPathsMode::kLock, ...)`, its doc paths and isolation level, and
`RequireReadSnapshot()`. -/
structure DocOperation where
  getDocPaths : Except Status (List (List UInt8) × IsolationLevel)
  requireReadSnapshot : Bool

structure DetermineKeysToLockResult where
  lockBatch : List LockBatchEntry
  needReadSnapshot : Bool
  deriving DecidableEq

/-- The strong intent types of an operation's doc paths: the level of the transaction, else the
operation's own, and both strong intents for a serializable write that reads. -/
def strongIntentTypesOf (isolationLevel : IsolationLevel) (operationKind : OperationKind)
    (docOp : DocOperation) (level : IsolationLevel) : IntentTypeSet :=
  let level := if isolationLevel ≠ .NON_TRANSACTIONAL then isolationLevel else level
  if isolationLevel = .SERIALIZABLE_ISOLATION ∧ operationKind = .kWrite ∧
      docOp.requireReadSnapshot = true then
    .ofList [.kStrongRead, .kStrongWrite]
  else getStrongIntentTypeSet level operationKind

/-- The body of `for (const auto& doc_path : doc_paths)`. -/
def lockDocPath (d : KeyDecoders) (transactionalTable : Bool) (strongIntentTypes : IntentTypeSet)
    (lockBatch : List LockBatchEntry) (docPath : List UInt8) :
    Except Status (List LockBatchEntry) := do
  let keyPrefixLengths ← d.decodePrefixLengths docPath
  if keyPrefixLengths.isEmpty then
    throw ⟨.kCorruption, "Unable to decode key prefixes from: " ++ toDebugHexString docPath⟩
  -- the whole path is locked strongly, so its own length leaves the weak ones
  let keyPrefixLengths := keyPrefixLengths.dropLast
  let lockBatch ←
    if docPath.length > 0 && transactionalTable then
      applyIntent [] (strongToWeak strongIntentTypes) lockBatch
    else pure lockBatch
  let lockBatch ← keyPrefixLengths.foldlM (fun lockBatch prefixLength =>
    applyIntent (docPath.take prefixLength) (strongToWeak strongIntentTypes) lockBatch) lockBatch
  applyIntent docPath strongIntentTypes lockBatch

/-- The body of `for (const unique_ptr<DocOperation>& doc_op : doc_write_ops)`. -/
def lockDocOperation (d : KeyDecoders) (isolationLevel : IsolationLevel)
    (operationKind : OperationKind) (transactionalTable : Bool)
    (result : DetermineKeysToLockResult) (docOp : DocOperation) :
    Except Status DetermineKeysToLockResult := do
  let (docPaths, level) ← docOp.getDocPaths
  let strongIntentTypes := strongIntentTypesOf isolationLevel operationKind docOp level
  let lockBatch ←
    docPaths.foldlM (lockDocPath d transactionalTable strongIntentTypes) result.lockBatch
  pure ⟨lockBatch, result.needReadSnapshot || docOp.requireReadSnapshot⟩

/-- The intent types of a read pair's key: strong or weak read. -/
def readIntentTypes (strength : IntentStrength) : IntentTypeSet :=
  if strength = .kStrong then .ofList [.kStrongRead] else .ofList [.kWeakRead]

/-- `DetermineKeysToLock`; `readIntents` are the calls `EnumerateIntents` makes of its callback for
the read pairs, in order. -/
def determineKeysToLock (d : KeyDecoders) (docWriteOps : List DocOperation)
    (readIntents : List (IntentStrength × List UInt8)) (isolationLevel : IsolationLevel)
    (operationKind : OperationKind) (transactionalTable : Bool) :
    Except Status DetermineKeysToLockResult := do
  let result ← docWriteOps.foldlM
    (lockDocOperation d isolationLevel operationKind transactionalTable) ⟨[], false⟩
  let lockBatch ← readIntents.foldlM (fun lockBatch intent =>
    applyIntent intent.2 (readIntentTypes intent.1) lockBatch) result.lockBatch
  pure { result with lockBatch }

/-- `w->intent_types |= it->intent_types`. -/
def mergeIntentTypes (w it : LockBatchEntry) : LockBatchEntry :=
  { w with intentTypes := w.intentTypes.union it.intentTypes }

/-- `FilterKeysToLock`: `std::sort` by key (here a stable insertion sort; the order it leaves
among equal keys only decides whose null `locked` is kept), then the entries of one key merged
into its first. -/
def filterKeysToLock (keysLocked : List LockBatchEntry) : List LockBatchEntry :=
  match keysLocked.insertionSort (fun lhs rhs => compare lhs.key rhs.key ≠ .gt) with
  | [] => []
  | w :: rest => coalesce (·.key) mergeIntentTypes w rest

end FrescoDB.Docdb
