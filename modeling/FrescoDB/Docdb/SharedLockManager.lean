import FrescoDB.Docdb.Intent
import FrescoDB.Lib.Bitfield

/-! The lock word of `LockedBatchEntry` (`docdb/shared_lock_manager.cc`).
`num_holding` packs one 16-bit holder count per intent type into a
`uint64_t`; `Lock` adds the set's unit counts when the word misses the
set's conflict mask, and `Unlock` subtracts them. Each successful
compare-and-swap is one atomic step on the word, so a run of the entry under
any interleaving is a sequence of such steps. -/
namespace FrescoDB.Docdb

open FrescoDB.Lib

/-- `LockState`. -/
abbrev LockState := UInt64

/-- `kIntentTypeBits`, `kSingleIntentMask`. -/
def kIntentTypeBits : Nat := 16
def kSingleIntentMask : LockState := (1 <<< kIntentTypeBits.toUInt64) - 1

/-- `kStrongIntentFlag`, `kWriteIntentFlag`. -/
def kStrongIntentFlag : Nat := 0b010
def kWriteIntentFlag : Nat := 0b001

/-- `IntentTypesConflict`: at least one strong intent, and one read against one write. -/
def intentTypesConflict (lhs rhs : IntentType) : Bool :=
  let lhsValue := lhs.toNat
  let rhsValue := rhs.toNat
  (lhsValue &&& kStrongIntentFlag != 0 || rhsValue &&& kStrongIntentFlag != 0) &&
    (lhsValue &&& kWriteIntentFlag != rhsValue &&& kWriteIntentFlag)

/-- `IntentTypeMask`. -/
def intentTypeMask (intentType : IntentType) : LockState :=
  kSingleIntentMask <<< (intentType.toNat * kIntentTypeBits).toUInt64

/-- The intent types of a set, in the order `EnumBitSet` iterates them. -/
def IntentTypeSet.toList (s : IntentTypeSet) : List IntentType := IntentType.all.filter s.test

/-- `GenerateConflicts()[idx]`. -/
def generateConflicts (idx : Nat) : LockState :=
  (IntentTypeSet.ofNat idx).toList.foldl (fun result intentType =>
    IntentType.all.foldl (fun result otherIntentType =>
      if intentTypesConflict intentType otherIntentType then
        result ||| intentTypeMask otherIntentType
      else result) result) 0

/-- `GenerateByMask(single_intent_mask)[idx]`. -/
def generateByMask (singleIntentMask : LockState) (idx : Nat) : LockState :=
  (IntentTypeSet.ofNat idx).toList.foldl (fun result intentType =>
    result ||| singleIntentMask <<< (intentType.toNat * kIntentTypeBits).toUInt64) 0

/-- `kIntentTypeSetAdd`, `kIntentTypeSetMask`, `kIntentTypeSetConflicts`. -/
def kIntentTypeSetAdd (idx : Nat) : LockState := generateByMask 1 idx
def kIntentTypeSetMask (idx : Nat) : LockState := generateByMask kSingleIntentMask idx
def kIntentTypeSetConflicts (idx : Nat) : LockState := generateConflicts idx

/-- `IntentTypeSetsConflict`. -/
def intentTypeSetsConflict (lhs rhs : IntentTypeSet) : Bool :=
  lhs.toList.any fun intent1 => rhs.toList.any fun intent2 => intentTypesConflict intent1 intent2

/-- The atomic part of `LockedBatchEntry`: `num_holding` and `num_waiters`. -/
structure LockedBatchEntry where
  numHolding : LockState
  numWaiters : Nat

namespace LockedBatchEntry

/-- One round of the loop of `Lock`: the compare-and-swap that takes the lock when the word misses
the conflict mask, or `none` when the caller goes on to wait. -/
def lock (e : LockedBatchEntry) (lockType : IntentTypeSet) : Option LockedBatchEntry :=
  let typeIdx := lockType.toUIntPtr
  if e.numHolding &&& kIntentTypeSetConflicts typeIdx = 0 then
    some { e with numHolding := e.numHolding + kIntentTypeSetAdd typeIdx }
  else none

/-- `Unlock`: the compare-and-swap that subtracts the set's counts, and whether waiters are woken
(some waiter exists and one of the set's counters reached zero). -/
def unlock (e : LockedBatchEntry) (lockTypes : IntentTypeSet) : LockedBatchEntry × Bool :=
  let typeIdx := lockTypes.toUIntPtr
  let newState := e.numHolding - kIntentTypeSetAdd typeIdx
  let hasZero := lockTypes.toList.any fun intentType => newState &&& intentTypeMask intentType = 0
  ({ e with numHolding := newState }, e.numWaiters != 0 && hasZero)

end LockedBatchEntry

/-! The abstract lock: the multiset of held intent type sets. -/

/-- The sets currently held on one key, one entry per successful `Lock` not yet unlocked. -/
abbrev Holders := List IntentTypeSet

/-- How many held sets contain an intent type. -/
def countOf (held : Holders) (t : IntentType) : Nat := (held.filter (·.test t)).length

/-- The abstract `Lock`: granted exactly when the set conflicts with no held set. -/
def grantable (held : Holders) (s : IntentTypeSet) : Prop := ∀ h ∈ held, intentTypeSetsConflict s h = false

/-- No two held sets conflict. -/
def Compatible (held : Holders) : Prop := held.Pairwise fun a b => intentTypeSetsConflict a b = false

/-- The bound the packing needs: fewer than `2^16` holders of each intent type. -/
def WithinBound (held : Holders) : Prop := ∀ t, countOf held t < 2 ^ kIntentTypeBits

/-- The word the counts pack into. -/
def packCounts (c : IntentType → Nat) : Nat :=
  c .kWeakRead + c .kWeakWrite * 2 ^ 16 + c .kStrongRead * 2 ^ 32 + c .kStrongWrite * 2 ^ 48

-- Equation lemmas, made once before their uses.
section
attribute [local simp] countOf packCounts
end

/-- The states of one entry reachable by admissible operations: a `Lock` that may or may not
succeed, keeping the holder counts within the bound, and an `Unlock` of a set held. -/
inductive Reachable : LockedBatchEntry → Holders → Prop
  | init (waiters : Nat) : Reachable ⟨0, waiters⟩ []
  | lock {e e' : LockedBatchEntry} {held : Holders} (s : IntentTypeSet) :
      Reachable e held → WithinBound (s :: held) → e.lock s = some e' → Reachable e' (s :: held)
  | wait {e : LockedBatchEntry} {held : Holders} (s : IntentTypeSet) :
      Reachable e held → e.lock s = none → Reachable e held
  | unlock {e : LockedBatchEntry} {held : Holders} (s : IntentTypeSet) :
      Reachable e held → s ∈ held → Reachable (e.unlock s).1 (held.erase s)
  | waiters {e : LockedBatchEntry} {held : Holders} (n : Nat) :
      Reachable e held → Reachable { e with numWaiters := n } held

end FrescoDB.Docdb
