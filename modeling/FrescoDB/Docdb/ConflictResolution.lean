import FrescoDB.Docdb.SharedLockManager
import FrescoDB.Docdb.ValueType
import FrescoDB.Common.DocHybridTime
import FrescoDB.Util.Status
import FrescoDB.Util.VarInt
import FrescoDB.Util.Uuid

/-! Reading the conflicts of one intent (`docdb/conflict_resolution.cc`, `docdb/intent.cc`,
`common/transaction.cc`). `ReadIntentConflicts` seeks the intents iterator to the key prefix
followed by `kIntentTypeSet`, and by the byte `0x04` when the requested types are all weak, which
skips the weak-only type sets of the new format; it walks on while the keys start with the prefix
and the byte after it is an intent marker, and puts the transaction of every intent whose types
conflict with the requested ones into `conflicts_`, unless the context ignores it.

The iterator is the intents store as a list of entries in key order: `Seek` keeps the entries from
the first key not below the target, and `Valid` fails from the upper bound on. The prefix the call
appends to and truncates on exit is passed by value; `conflicts_`, a set, is a list without
repeats. -/
namespace FrescoDB.Docdb

open FrescoDB.Util FrescoDB.Common

/-- `TransactionId`: `using TransactionId = boost::uuids::uuid`. -/
abbrev TransactionId := Uuid

/-- `TransactionId::static_size()`. -/
def kTransactionIdSize : Nat := 16

/-- `DoDecodeTransactionId`: with `check_exact_size` the slice must be the sixteen bytes,
otherwise it must have at least that many. -/
def doDecodeTransactionId (slice : List UInt8) (checkExactSize : Bool) :
    Except Status TransactionId :=
  if hsize : if checkExactSize then slice.length ≠ kTransactionIdSize
      else slice.length < kTransactionIdSize then
    throw ⟨.kCorruption, "Invalid length of binary data with transaction id \x27" ++
      toDebugHexString slice ++ "\x27: " ++ toString slice.length ++ " (expected " ++
      (if checkExactSize then "" else "at least ") ++ toString kTransactionIdSize ++ ")"⟩
  else
    -- `memcpy` of the first sixteen bytes
    pure ⟨slice.take kTransactionIdSize, by
      rw [List.length_take]
      unfold kTransactionIdSize at hsize ⊢
      split at hsize <;> omega⟩

/-- `FullyDecodeTransactionId`. -/
def fullyDecodeTransactionId (slice : List UInt8) : Except Status TransactionId :=
  doDecodeTransactionId slice true

/-- `IntentValueType`: the markers an intent's type can follow. -/
def intentValueType (ch : UInt8) : Bool :=
  ch == ValueType.kIntentTypeSet.toByte || ch == ValueType.kObsoleteIntentTypeSet.toByte ||
    ch == ValueType.kObsoleteIntentType.toByte

/-- `AllStrongIntents`. -/
def allStrongIntents : IntentTypeSet := .ofList [.kStrongRead, .kStrongWrite]

/-- `HasStrong`: `(inp & AllStrongIntents()).Any()`. -/
def hasStrong (inp : IntentTypeSet) : Bool := inp.bits &&& allStrongIntents.bits != 0

/-- `ParsedIntent`. -/
structure ParsedIntent where
  docPath : List UInt8
  types : IntentTypeSet
  docHt : List UInt8

/-- A `char` as `Format` writes it. -/
def charString (c : UInt8) : String := String.singleton (Char.ofNat c.toNat)

/-- `INTENT_KEY_SCHECK`: an `SCHECK` whose message also names the key and the transaction. -/
def intentKeySCheck (cond : Bool) (msg lhs rhs : String) (intentKey transactionIdSource : List UInt8) :
    Except Status Unit :=
  if cond then pure ()
  else throw ⟨.kCorruption, "Bad intent key, " ++ msg ++ " in " ++ toDebugHexString intentKey ++
    ", transaction from: " ++ toDebugHexString transactionIdSource ++ ": " ++ lhs ++ " vs. " ++ rhs⟩

/-- `ParseIntentKey`: the key is the doc path, the intent type marker and the types, then
`kHybridTime` and the `DocHybridTime`, whose size its last byte gives. -/
def parseIntentKey (intentKey transactionIdSource : List UInt8) : Except Status ParsedIntent := do
  let docHtSize := DocHybridTime.getEncodedSize intentKey
  (DocHybridTime.checkEncodedSize docHtSize intentKey.length).mapError fun msg => ⟨.kCorruption, msg⟩
  -- 3 comes from (ValueType::kIntentType, the actual intent type, ValueType::kHybridTime)
  intentKeySCheck (decide (intentKey.length ≥ docHtSize + 3)) "key too short"
    (toString intentKey.length) (toString (docHtSize + 3)) intentKey transactionIdSource
  let docPath := intentKey.take (intentKey.length - (docHtSize + 3))
  let intentTypeAndDocHt := intentKey.drop docPath.length
  let types ←
    if intentTypeAndDocHt.getD 0 0 = ValueType.kObsoleteIntentType.toByte then
      pure (obsoleteIntentTypeToSet (intentTypeAndDocHt.getD 1 0))
    else if intentTypeAndDocHt.getD 0 0 = ValueType.kObsoleteIntentTypeSet.toByte then
      pure (obsoleteIntentTypeSetToNew (intentTypeAndDocHt.getD 1 0))
    else do
      intentKeySCheck (intentTypeAndDocHt.getD 0 0 == ValueType.kIntentTypeSet.toByte)
        "intent type set type expected" (charString (intentTypeAndDocHt.getD 0 0))
        (charString ValueType.kIntentTypeSet.toByte) intentKey transactionIdSource
      pure (IntentTypeSet.ofNat (intentTypeAndDocHt.getD 1 0).toNat)
  intentKeySCheck (intentTypeAndDocHt.getD 2 0 == ValueType.kHybridTime.toByte)
    "hybrid time value type expected" (charString (intentTypeAndDocHt.getD 2 0))
    (charString ValueType.kHybridTime.toByte) intentKey transactionIdSource
  pure { docPath, types, docHt := (intentKey.drop (docPath.length + 2)).take (docHtSize + 1) }

/-- `intent_iter_->Seek(target)`: the entries from the first key not below the target. -/
def seek (intentsDb : List (List UInt8 × List UInt8)) (target : List UInt8) :
    List (List UInt8 × List UInt8) :=
  intentsDb.dropWhile fun entry => compare entry.1 target == .lt

/-- The loop of `ReadIntentConflicts` over the entries from the one the iterator was sought to. -/
def readIntentConflictsLoop (conflictingIntentTypes : LockState)
    (ignoreConflictsWith : TransactionId → Bool) (intentKeyUpperbound prefixSlice : List UInt8) :
    List (List UInt8 × List UInt8) → List TransactionId → Except Status (List TransactionId)
  | [], conflicts => pure conflicts
  | (existingKey, existingValue) :: rest, conflicts =>
    -- `Valid()` fails from the upper bound on
    if compare existingKey intentKeyUpperbound ≠ .lt then pure conflicts
    else if !prefixSlice.isPrefixOf existingKey then pure conflicts
    else if existingKey.length ≤ prefixSlice.length ||
        !intentValueType (existingKey.getD prefixSlice.length 0) then pure conflicts
    else if existingValue.isEmpty || existingValue.headD 0 != ValueType.kTransactionId.toByte then
      throw ⟨.kCorruption, "Transaction prefix expected in intent: " ++
        toDebugHexString existingKey ++ " => " ++ toDebugHexString existingValue⟩
    else do
      let existingValue := existingValue.drop 1
      let existingIntent ← parseIntentKey existingKey existingValue
      let intentMask := kIntentTypeSetMask existingIntent.types.toUIntPtr
      if conflictingIntentTypes &&& intentMask != 0 then
        let transactionId ← fullyDecodeTransactionId (existingValue.take kTransactionIdSize)
        let conflicts :=
          if ignoreConflictsWith transactionId then conflicts else conflicts.insert transactionId
        readIntentConflictsLoop conflictingIntentTypes ignoreConflictsWith intentKeyUpperbound
          prefixSlice rest conflicts
      else
        readIntentConflictsLoop conflictingIntentTypes ignoreConflictsWith intentKeyUpperbound
          prefixSlice rest conflicts

/-- `ConflictResolver::ReadIntentConflicts(type, intent_key_prefix)` over the intents store
`intentsDb` in key order, with the context's `IgnoreConflictsWith`, from `conflicts_` before the
call to `conflicts_` after it. -/
def readIntentConflicts (intentsDb : List (List UInt8 × List UInt8))
    (ignoreConflictsWith : TransactionId → Bool) (type : IntentTypeSet)
    (intentKeyPrefix : List UInt8) (conflicts : List TransactionId) :
    Except Status (List TransactionId) :=
  let conflictingIntentTypes := kIntentTypeSetConflicts type.toUIntPtr
  let upperboundKey := intentKeyPrefix ++ [ValueType.kMaxByte.toByte]
  let originalSize := intentKeyPrefix.length
  let intentKeyPrefix := intentKeyPrefix ++ [ValueType.kIntentTypeSet.toByte]
  -- Have only weak intents, so could skip other weak intents.
  let intentKeyPrefix :=
    if !hasStrong type then intentKeyPrefix ++ [(1 <<< kStrongIntentFlag : Nat).toUInt8]
    else intentKeyPrefix
  let prefixSlice := intentKeyPrefix.take originalSize
  readIntentConflictsLoop conflictingIntentTypes ignoreConflictsWith upperboundKey prefixSlice
    (seek intentsDb intentKeyPrefix) conflicts

end FrescoDB.Docdb
