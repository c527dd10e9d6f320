import Mathlib

/-! Intent types and intent type sets (`docdb/value_type.h`, `docdb/intent.cc`).
An `IntentTypeSet` is a `std::bitset` over the four intent types; built from
an integer it keeps only the low four bits. -/
namespace FrescoDB.Docdb

/-- `IntentType`: weak or strong, read or write. -/
inductive IntentType where
  | kWeakRead | kWeakWrite | kStrongRead | kStrongWrite
  deriving DecidableEq, Repr

namespace IntentType

/-- The enumerator's value: `kStrongIntentFlag = 0b10` and `kWriteIntentFlag = 0b01`. -/
def toNat : IntentType → Nat
  | kWeakRead => 0 | kWeakWrite => 1 | kStrongRead => 2 | kStrongWrite => 3

-- Equation lemmas, made once before their uses.
section
attribute [local simp] toNat
end

/-- `kIntentTypeList`, in the order of the enumeration. -/
def all : List IntentType := [kWeakRead, kWeakWrite, kStrongRead, kStrongWrite]

theorem mem_all (t : IntentType) : t ∈ all := by
  cases t <;> simp [all]

end IntentType

/-- `IntentTypeSet`: the bits of a `std::bitset<kIntentTypeMapSize>`. -/
structure IntentTypeSet where
  bits : Nat
  lt : bits < 16
  deriving DecidableEq

namespace IntentTypeSet

/-- `IntentTypeSet(uint64_t)`: the `std::bitset` constructor keeps the low four bits. -/
def ofNat (v : Nat) : IntentTypeSet := ⟨v % 16, Nat.mod_lt _ (by decide)⟩

/-- `Test`. -/
def test (s : IntentTypeSet) (t : IntentType) : Bool := s.bits.testBit t.toNat

/-- `IntentTypeSet({...})`, `Set`. -/
def set (s : IntentTypeSet) (t : IntentType) : IntentTypeSet := ofNat (s.bits ||| 2 ^ t.toNat)
def empty : IntentTypeSet := ofNat 0
def ofList (ts : List IntentType) : IntentTypeSet := ts.foldl set empty

/-- `ToUIntPtr`. -/
def toUIntPtr (s : IntentTypeSet) : Nat := s.bits

end IntentTypeSet

/-- `ObsoleteIntentTypeToSet`: only strong and weak snapshot writes were ever stored. -/
def obsoleteIntentTypeToSet (obsoleteIntentType : UInt8) : IntentTypeSet :=
  let kWeakIntentFlag : UInt8 := 0b000
  let kStrongIntentFlag : UInt8 := 0b001
  let kWriteIntentFlag : UInt8 := 0b010
  let kSnapshotIntentFlag : UInt8 := 0b100
  if obsoleteIntentType = kStrongIntentFlag ||| kWriteIntentFlag ||| kSnapshotIntentFlag then
    IntentTypeSet.ofList [.kStrongRead, .kStrongWrite]
  else if obsoleteIntentType = kWeakIntentFlag ||| kWriteIntentFlag ||| kSnapshotIntentFlag then
    IntentTypeSet.ofList [.kWeakRead, .kWeakWrite]
  else IntentTypeSet.empty

/-- `ObsoleteIntentTypeSetToNew`: the strong/weak and read/write bits trade places. -/
def obsoleteIntentTypeSetToNew (obsoleteIntentTypeSet : UInt8) : IntentTypeSet :=
  (List.range 4).foldl (fun result idx =>
    if obsoleteIntentTypeSet.toNat.testBit idx then
      IntentTypeSet.ofNat (result.bits ||| 2 ^ (((idx >>> 1) ||| (idx <<< 1)) &&& 3))
    else result) IntentTypeSet.empty

end FrescoDB.Docdb
