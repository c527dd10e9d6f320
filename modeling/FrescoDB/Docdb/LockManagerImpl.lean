import FrescoDB.Docdb.LockInvariant
import FrescoDB.Util.MonoTime

/-! `SharedLockManager::Impl` (`docdb/shared_lock_manager.cc`): the map from keys to pooled
`LockedBatchEntry`s, and `Lock` and `Unlock` of a batch. `Reserve` finds or makes the entry of
every key and counts a reference to it; `Lock` locks the entries in batch order and, when one
cannot be locked by the deadline, unlocks the ones before it backwards; `Cleanup` drops the
references and returns the entries nobody references to the free list.

A pointer to an entry is its position in `lock_entries_`. A call is modelled running alone: no
other thread locks or unlocks meanwhile, so an entry that conflicts waits until the deadline and
gives up, and without a deadline waits forever. -/
namespace FrescoDB.Docdb

open FrescoDB.Util

/-- A whole `LockedBatchEntry`: `ref_count`, guarded by the global mutex (a `Nat`: a decrement is
only ever of a positive count), and the atomic `num_holding` and `num_waiters`. -/
structure LockEntrySlot where
  refCount : Nat
  entry : LockedBatchEntry

/-- `std::make_unique<LockedBatchEntry>()`. -/
def LockEntrySlot.fresh : LockEntrySlot := ⟨0, ⟨0, 0⟩⟩

/-- `LockBatchEntry`: `locked` is the position of the key's entry once `Reserve` has set it. -/
structure LockBatchEntry where
  key : List UInt8
  intentTypes : IntentTypeSet
  locked : Nat
  deriving DecidableEq

/-- `SharedLockManager::Impl`: `locks_` as an association list from keys to positions in
`lock_entries_`, and `free_lock_entries_` with its back last. -/
structure SharedLockManagerImpl where
  locks : List (List UInt8 × Nat)
  lockEntries : List LockEntrySlot
  freeLockEntries : List Nat

namespace SharedLockManagerImpl

/-- The entry at a position; past the end of the pool, a fresh one. -/
def slot (m : SharedLockManagerImpl) (i : Nat) : LockEntrySlot := m.lockEntries.getD i .fresh

def modifySlot (m : SharedLockManagerImpl) (i : Nat) (f : LockEntrySlot → LockEntrySlot) :
    SharedLockManagerImpl :=
  { m with lockEntries := m.lockEntries.modify i f }

/-- `auto& value = locks_[key]; if (!value) ...`: the entry of the key, else one from the back of
the free list, else a new one. -/
def entryFor (m : SharedLockManagerImpl) (key : List UInt8) : SharedLockManagerImpl × Nat :=
  match m.locks.lookup key with
  | some value => (m, value)
  | none =>
    match m.freeLockEntries.getLast? with
    | some value =>
      ({ m with locks := (key, value) :: m.locks, freeLockEntries := m.freeLockEntries.dropLast },
        value)
    | none =>
      ({ m with locks := (key, m.lockEntries.length) :: m.locks,
                lockEntries := m.lockEntries ++ [.fresh] }, m.lockEntries.length)

/-- One key of `Reserve`: its entry gains a reference and the batch entry points to it. -/
def reserveEntry (m : SharedLockManagerImpl) (item : LockBatchEntry) :
    SharedLockManagerImpl × LockBatchEntry :=
  let (m, value) := m.entryFor item.key
  (m.modifySlot value fun s => { s with refCount := s.refCount + 1 }, { item with locked := value })

/-- `Reserve`. -/
def reserve (m : SharedLockManagerImpl) : List LockBatchEntry →
    SharedLockManagerImpl × List LockBatchEntry
  | [] => (m, [])
  | item :: rest =>
    let (m, item) := m.reserveEntry item
    let (m, rest) := m.reserve rest
    (m, item :: rest)

-- Equation lemmas, made once before their uses.
section
attribute [local simp] slot modifySlot reserve
end

/-- One key of `Cleanup`: `if (--(item.locked->ref_count) == 0)` the key leaves `locks_` and
its entry goes to the back of the free list. -/
def cleanupEntry (m : SharedLockManagerImpl) (item : LockBatchEntry) : SharedLockManagerImpl :=
  let m := m.modifySlot item.locked fun s => { s with refCount := s.refCount - 1 }
  if (m.slot item.locked).refCount = 0 then
    { m with locks := m.locks.filter (·.1 != item.key),
             freeLockEntries := m.freeLockEntries ++ [item.locked] }
  else m

/-- `Cleanup`. -/
def cleanup (m : SharedLockManagerImpl) (keyToIntentType : List LockBatchEntry) :
    SharedLockManagerImpl :=
  keyToIntentType.foldl cleanupEntry m

/-- `LockedBatchEntry::Unlock` of each batch entry, in the order given. -/
def unlockEntries (m : SharedLockManagerImpl) : List LockBatchEntry → SharedLockManagerImpl
  | [] => m
  | item :: rest =>
    (m.modifySlot item.locked fun s => { s with entry := (s.entry.unlock item.intentTypes).1 }
      ).unlockEntries rest

/-- The loop of `Lock`: `taken` holds the entries locked so far, the last first, so that the
rollback `while (it != begin) { --it; it->locked->Unlock(...); }` unlocks it from its head.
`none` is a wait that never ends. -/
def lockLoop (deadline : CoarseTimePoint) (keyToIntentType : List LockBatchEntry) :
    SharedLockManagerImpl → List LockBatchEntry → List LockBatchEntry →
      Option (SharedLockManagerImpl × Bool)
  | m, _, [] => some (m, true)
  | m, taken, item :: rest =>
    match (m.slot item.locked).entry.lock item.intentTypes with
    | some e =>
      lockLoop deadline keyToIntentType (m.modifySlot item.locked fun s => { s with entry := e })
        (item :: taken) rest
    | none =>
      if deadline = CoarseTimePoint.max then none
      else some ((m.unlockEntries taken).cleanup keyToIntentType, false)

/-- `Lock`: the manager, the batch with its entries set, and whether the batch is locked. -/
def lock (m : SharedLockManagerImpl) (keyToIntentType : List LockBatchEntry)
    (deadline : CoarseTimePoint) : Option (SharedLockManagerImpl × List LockBatchEntry × Bool) :=
  let (m, batch) := m.reserve keyToIntentType
  (lockLoop deadline batch m [] batch).map fun (m, locked) => (m, batch, locked)

/-- `Unlock`: the entries backwards, then `Cleanup`. -/
def unlock (m : SharedLockManagerImpl) (keyToIntentType : List LockBatchEntry) :
    SharedLockManagerImpl :=
  (m.unlockEntries keyToIntentType.reverse).cleanup keyToIntentType

end SharedLockManagerImpl

end FrescoDB.Docdb
