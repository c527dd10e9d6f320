import FrescoDB.Docdb.ConflictResolution
import FrescoDB.Docdb.LockInvariant
import FrescoDB.Lib.LexOrder
import FrescoDB.Lib.ExceptStep
import FrescoDB.Lib.SortedList

/-! What `ReadIntentConflicts` adds to `conflicts_`. An intent of the store is a record: its key
is a prefix, an intent-type marker and a type byte, `kHybridTime` and an encoded
`DocHybridTime`, and its value starts with `kTransactionId` and the transaction id.

The scan relies on the order of the markers: the weak-only type sets of the new format sort below
`kIntentTypeSet 0x04`, and every intent marker sorts below the byte with which an encoded key
continues a shorter one, the value type of a subkey. So the intents of a prefix are one run of
the store from the sought key on, the keys that extend the prefix come after it, and the entry
after the run stops the walk. -/
namespace FrescoDB.Docdb

open FrescoDB.Util FrescoDB.Common FrescoDB.Lib

/-- The markers an intent's types follow: the new format and the two obsolete ones. -/
inductive IntentMarker where
  | intentTypeSet | obsoleteIntentTypeSet | obsoleteIntentType
  deriving DecidableEq, Repr

namespace IntentMarker

def toByte : IntentMarker → UInt8
  | intentTypeSet => ValueType.kIntentTypeSet.toByte
  | obsoleteIntentTypeSet => ValueType.kObsoleteIntentTypeSet.toByte
  | obsoleteIntentType => ValueType.kObsoleteIntentType.toByte

theorem toByte_le (m : IntentMarker) : m.toByte ≤ ValueType.kObsoleteIntentType.toByte := by
  cases m <;> decide

theorem intentValueType_toByte (m : IntentMarker) : intentValueType m.toByte = true := by
  cases m <;> rfl

end IntentMarker

/-- An intent of the store. -/
structure IntentRecord where
  pfx : List UInt8
  marker : IntentMarker
  typeByte : UInt8
  docHt : DocHybridTime
  transactionId : TransactionId
  rest : List UInt8

namespace IntentRecord

/-- The key: the prefix, the marker and the type byte, then the hybrid time. -/
def key (r : IntentRecord) : List UInt8 :=
  r.pfx ++ [r.marker.toByte, r.typeByte, ValueType.kHybridTime.toByte] ++
    r.docHt.encodedInDocDbFormat

/-- The value: `kTransactionId`, the transaction id, then the write id and the body. -/
def value (r : IntentRecord) : List UInt8 :=
  ValueType.kTransactionId.toByte :: (r.transactionId.data ++ r.rest)

def entry (r : IntentRecord) : List UInt8 × List UInt8 := (r.key, r.value)

/-- The intent types the marker and the type byte stand for. -/
def types (r : IntentRecord) : IntentTypeSet :=
  match r.marker with
  | .intentTypeSet => .ofNat r.typeByte.toNat
  | .obsoleteIntentTypeSet => obsoleteIntentTypeSetToNew r.typeByte
  | .obsoleteIntentType => obsoleteIntentTypeToSet r.typeByte

end IntentRecord

/-- `q` continues `p` only with a byte above every intent marker: an encoded key continues a
shorter one with a subkey, whose value type byte sorts above `kObsoleteIntentType`. -/
def SubkeyExtension (p q : List UInt8) : Prop :=
  p <+: q → p.length < q.length → ValueType.kObsoleteIntentType.toByte < q.getD p.length 0

/-- What one intent adds to `conflicts_`: its transaction, when its types conflict with the
requested ones and the context does not ignore it. -/
def addConflict (type : IntentTypeSet) (ignoreConflictsWith : TransactionId → Bool)
    (conflicts : List TransactionId) (r : IntentRecord) : List TransactionId :=
  if intentTypeSetsConflict type r.types && !ignoreConflictsWith r.transactionId then
    conflicts.insert r.transactionId
  else conflicts

/-! Decoding one intent. -/

theorem fullyDecodeTransactionId_data (t : TransactionId) :
    fullyDecodeTransactionId t.data = .ok t := by
  obtain ⟨data, hdata⟩ := t
  have hsize : ¬ (if true = true then data.length ≠ kTransactionIdSize
      else data.length < kTransactionIdSize) := by
    simp [hdata, kTransactionIdSize]
  rw [fullyDecodeTransactionId, doDecodeTransactionId, dif_neg hsize]
  simp only [List.take_of_length_le (show data.length ≤ kTransactionIdSize by
    rw [hdata]; rfl)]
  rfl

theorem parseIntentKey_key (r : IntentRecord) (transactionIdSource : List UInt8) :
    parseIntentKey r.key transactionIdSource =
      .ok ⟨r.pfx, r.types, ValueType.kHybridTime.toByte :: r.docHt.encodedInDocDbFormat⟩ := by
  obtain ⟨pfx, marker, typeByte, docHt, transactionId, rest⟩ := r
  set enc := docHt.encodedInDocDbFormat
  set head := pfx ++ [marker.toByte, typeByte, ValueType.kHybridTime.toByte]
  have hsize : DocHybridTime.getEncodedSize (head ++ enc) = enc.length :=
    DocHybridTime.getEncodedSize_append docHt head
  have hcheck : DocHybridTime.checkEncodedSize enc.length (head ++ enc).length = .ok () :=
    DocHybridTime.checkEncodedSize_append docHt (by simp [head])
  have hlen : (head ++ enc).length = pfx.length + 3 + enc.length := by
    simp only [head, List.length_append, List.length_cons, List.length_nil]
  have hfits : decide ((head ++ enc).length ≥ enc.length + 3) = true := by
    rw [hlen]
    exact decide_eq_true (by omega)
  have hdocPath : (head ++ enc).take ((head ++ enc).length - (enc.length + 3)) = pfx := by
    rw [hlen, show pfx.length + 3 + enc.length - (enc.length + 3) = pfx.length by omega]
    simp [head]
  have hdrop : (head ++ enc).drop pfx.length =
      marker.toByte :: typeByte :: ValueType.kHybridTime.toByte :: enc := by
    simp [head]
  -- the hybrid time slice starts at `kHybridTime`
  have hdocHt : ((head ++ enc).drop (pfx.length + 2)).take (enc.length + 1) =
      ValueType.kHybridTime.toByte :: enc := by
    simp [head, List.drop_append, List.drop_eq_nil_of_le]
  show parseIntentKey (head ++ enc) transactionIdSource = _
  simp only [parseIntentKey, hsize, hcheck, hfits, hdocPath, hdrop, hdocHt]
  cases marker <;> rfl

/-! The conflict masks. -/

theorem conflicts_and_mask_table : ∀ a < 16, ∀ b < 16,
    (kIntentTypeSetConflicts a &&& kIntentTypeSetMask b != 0) =
      intentTypeSetsConflict (.ofNat a) (.ofNat b) := by
  decide

theorem conflicts_and_mask (type types : IntentTypeSet) :
    (kIntentTypeSetConflicts type.toUIntPtr &&& kIntentTypeSetMask types.toUIntPtr != 0) =
      intentTypeSetsConflict type types := by
  have h := conflicts_and_mask_table type.bits type.lt types.bits types.lt
  rwa [ofNat_bits, ofNat_bits] at h

theorem weak_conflict_table : ∀ a < 16, ∀ b < 4, hasStrong (.ofNat a) = false →
    intentTypeSetsConflict (.ofNat a) (.ofNat b) = false := by
  decide

/-- A weak-only request conflicts with no type set of the new format below `0x04`: those are
weak-only too. -/
theorem intentTypeSetsConflict_of_weak {type : IntentTypeSet} (htype : hasStrong type = false)
    {b : UInt8} (hb : b < 4) : intentTypeSetsConflict type (.ofNat b.toNat) = false := by
  have h := weak_conflict_table type.bits type.lt b.toNat (UInt8.lt_iff_toNat_lt.mp hb)
    (by rwa [ofNat_bits])
  rwa [ofNat_bits] at h

/-! The intents of a prefix. -/

theorem le_of_intentValueType {b : UInt8} (hb : intentValueType b = true) :
    b ≤ ValueType.kObsoleteIntentType.toByte := by
  simp only [intentValueType, Bool.or_eq_true, beq_iff_eq] at hb
  rcases hb with (rfl | rfl) | rfl <;> decide

section Prefix

variable {p : List UInt8} {r : IntentRecord}

theorem key_eq (r : IntentRecord) :
    r.key = r.pfx ++ r.marker.toByte :: r.typeByte :: ValueType.kHybridTime.toByte ::
      r.docHt.encodedInDocDbFormat := by
  simp [IntentRecord.key]

/-- A key that continues `p` with an intent marker's byte, or a lower one, is an intent of `p`:
a longer prefix would continue `p` with a subkey's byte, and `p` would continue a shorter one
with the shorter one's marker. -/
theorem pfx_eq_of_key_eq (hext : SubkeyExtension p r.pfx ∧ SubkeyExtension r.pfx p)
    {b : UInt8} {c : List UInt8} (hkey : r.key = p ++ b :: c)
    (hb : b ≤ ValueType.kObsoleteIntentType.toByte) : r.pfx = p := by
  have hpk : p <+: r.key := ⟨b :: c, hkey.symm⟩
  have hrk : r.pfx <+: r.key := ⟨_, (key_eq r).symm⟩
  rcases Nat.lt_trichotomy r.pfx.length p.length with hlt | heq | hgt
  · -- `p` would continue `r.pfx` with its marker
    have hbyte : p.getD r.pfx.length 0 = r.marker.toByte := by
      have hp := congrArg (List.getD · r.pfx.length 0) hkey
      have hr := congrArg (List.getD · r.pfx.length 0) (key_eq r)
      simp only [List.getD_append _ _ _ _ hlt] at hp
      simp only [List.getD_append_right _ _ _ _ le_rfl, Nat.sub_self] at hr
      rw [← hp, hr]
      rfl
    have habove := hext.2 (List.prefix_of_prefix_length_le hrk hpk hlt.le) hlt
    rw [hbyte] at habove
    have := r.marker.toByte_le
    rw [UInt8.lt_iff_toNat_lt] at habove
    rw [UInt8.le_iff_toNat_le] at this
    omega
  · exact (List.prefix_of_prefix_length_le hrk hpk heq.le).eq_of_length heq
  · -- `r.pfx` would continue `p` with `b`
    have hbyte : r.pfx.getD p.length 0 = b := by
      have hp := congrArg (List.getD · p.length 0) hkey
      have hr := congrArg (List.getD · p.length 0) (key_eq r)
      simp only [List.getD_append _ _ _ _ hgt] at hr
      simp only [List.getD_append_right _ _ _ _ le_rfl, Nat.sub_self] at hp
      rw [← hr, hp]
      rfl
    have habove := hext.1 (List.prefix_of_prefix_length_le hpk hrk hgt.le) hgt
    rw [hbyte, UInt8.lt_iff_toNat_lt] at habove
    rw [UInt8.le_iff_toNat_le] at hb
    omega

theorem compare_key_upperbound (hr : r.pfx = p) :
    compare r.key (p ++ [ValueType.kMaxByte.toByte]) = .lt := by
  have hmax : compare r.marker.toByte ValueType.kMaxByte.toByte = .lt := by
    cases r.marker <;> decide
  rw [key_eq, hr, compare_append_left, List.compare_cons_cons, hmax, Ordering.lt_then]

variable (type : IntentTypeSet) (ignoreConflictsWith : TransactionId → Bool)

theorem readIntentConflictsLoop_cons_of_pfx (hr : r.pfx = p)
    (rest : List (List UInt8 × List UInt8)) (conflicts : List TransactionId) :
    readIntentConflictsLoop (kIntentTypeSetConflicts type.toUIntPtr) ignoreConflictsWith
        (p ++ [ValueType.kMaxByte.toByte]) p (r.entry :: rest) conflicts =
      readIntentConflictsLoop (kIntentTypeSetConflicts type.toUIntPtr) ignoreConflictsWith
        (p ++ [ValueType.kMaxByte.toByte]) p rest (addConflict type ignoreConflictsWith conflicts r) := by
  have hupper := compare_key_upperbound hr
  have hkey := key_eq r
  rw [hr] at hkey
  have hprefixes : p.isPrefixOf r.key = true := List.isPrefixOf_iff_prefix.mpr ⟨_, hkey.symm⟩
  have hlong : ¬ r.key.length ≤ p.length := by
    rw [hkey]
    simp
  have hmarker : intentValueType (r.key.getD p.length 0) = true := by
    rw [hkey, List.getD_append_right _ _ _ _ le_rfl, Nat.sub_self]
    exact r.marker.intentValueType_toByte
  have htake : (r.transactionId.data ++ r.rest).take kTransactionIdSize = r.transactionId.data :=
    List.take_left' r.transactionId.size
  have hvalue : (r.value.isEmpty || r.value.headD 0 != ValueType.kTransactionId.toByte) = false := by
    simp [IntentRecord.value]
  have hdrop : r.value.drop 1 = r.transactionId.data ++ r.rest := rfl
  rw [IntentRecord.entry, readIntentConflictsLoop, if_neg (not_not.mpr hupper),
    if_neg (by simp [hprefixes]), if_neg (by simp only [decide_eq_false hlong, hmarker]; decide),
    hvalue, if_neg Bool.false_ne_true]
  simp only [hdrop, htake, parseIntentKey_key, except_ok_bind, fullyDecodeTransactionId_data,
    conflicts_and_mask]
  -- the walk adds the transaction exactly when `addConflict` does
  unfold addConflict
  cases intentTypeSetsConflict type r.types <;> cases ignoreConflictsWith r.transactionId <;> rfl

/-- Any other entry stops the walk: past the checks of its key, it would continue `p` with a
marker, and be an intent of `p`. -/
theorem readIntentConflictsLoop_cons_of_ne
    (hext : SubkeyExtension p r.pfx ∧ SubkeyExtension r.pfx p) (hr : r.pfx ≠ p)
    (rest : List (List UInt8 × List UInt8)) (conflicts : List TransactionId) :
    readIntentConflictsLoop (kIntentTypeSetConflicts type.toUIntPtr) ignoreConflictsWith
      (p ++ [ValueType.kMaxByte.toByte]) p (r.entry :: rest) conflicts = .ok conflicts := by
  rw [IntentRecord.entry, readIntentConflictsLoop]
  by_cases hupper : compare r.key (p ++ [ValueType.kMaxByte.toByte]) ≠ .lt
  · rw [if_pos hupper]
    rfl
  rw [if_neg hupper]
  by_cases hprefixes : (!p.isPrefixOf r.key) = true
  · rw [if_pos hprefixes]
    rfl
  rw [if_neg hprefixes]
  by_cases hmarker :
      (decide (r.key.length ≤ p.length) || !intentValueType (r.key.getD p.length 0)) = true
  · rw [if_pos hmarker]
    rfl
  exfalso
  obtain ⟨c, hc⟩ : p <+: r.key := by simpa using hprefixes
  simp only [Bool.or_eq_true, decide_eq_true_eq, Bool.not_eq_true', not_or,
    Bool.not_eq_false] at hmarker
  obtain ⟨hlong, hvalueType⟩ := hmarker
  cases c with
  | nil =>
    rw [List.append_nil] at hc
    rw [← hc] at hlong
    exact hlong le_rfl
  | cons b c =>
    have hb : r.key.getD p.length 0 = b := by
      rw [← hc, List.getD_append_right _ _ _ _ le_rfl, Nat.sub_self]
      rfl
    rw [hb] at hvalueType
    exact hr (pfx_eq_of_key_eq hext hc.symm (le_of_intentValueType hvalueType))

theorem readIntentConflictsLoop_eq :
    ∀ (rs : List IntentRecord), (∀ r ∈ rs, SubkeyExtension p r.pfx ∧ SubkeyExtension r.pfx p) →
      ∀ conflicts : List TransactionId,
      readIntentConflictsLoop (kIntentTypeSetConflicts type.toUIntPtr) ignoreConflictsWith
          (p ++ [ValueType.kMaxByte.toByte]) p (rs.map IntentRecord.entry) conflicts =
        .ok ((rs.takeWhile fun r => r.pfx = p).foldl (addConflict type ignoreConflictsWith)
          conflicts)
  | [], _, _ => rfl
  | r :: rs, hext, conflicts => by
    have hrest : ∀ r' ∈ rs, SubkeyExtension p r'.pfx ∧ SubkeyExtension r'.pfx p :=
      fun r' hr' => hext r' (List.mem_cons_of_mem _ hr')
    rw [List.map_cons]
    by_cases hr : r.pfx = p
    · rw [readIntentConflictsLoop_cons_of_pfx type ignoreConflictsWith hr,
        readIntentConflictsLoop_eq rs hrest, List.takeWhile_cons_of_pos (by simpa using hr),
        List.foldl_cons]
    · rw [readIntentConflictsLoop_cons_of_ne type ignoreConflictsWith (hext r List.mem_cons_self) hr,
        List.takeWhile_cons_of_neg (by simpa using hr)]
      rfl

end Prefix

/-! The run the seek lands on. -/

theorem seek_map (rs : List IntentRecord) (target : List UInt8) :
    seek (rs.map IntentRecord.entry) target =
      (rs.dropWhile fun r => compare r.key target == .lt).map IntentRecord.entry := by
  rw [seek, List.dropWhile_map]
  rfl

section Seek

variable {p x : List UInt8} {store : List IntentRecord}

/-- Every intent of `p` at or above the sought key `p ++ kIntentTypeSet :: x` is in the run of
intents of `p` the seek lands on: a key between the sought key and it continues `p` with a byte
from `kIntentTypeSet` to its marker, so it is an intent of `p` too. -/
theorem mem_run_of_pfx
    (hsorted : (store.map IntentRecord.key).Pairwise fun a b => compare a b = .lt)
    (hext : ∀ r ∈ store, SubkeyExtension p r.pfx ∧ SubkeyExtension r.pfx p)
    {r : IntentRecord} (hr : r ∈ store) (hpfx : r.pfx = p)
    (hge : compare r.key (p ++ ValueType.kIntentTypeSet.toByte :: x) ≠ .lt) :
    r ∈ (store.dropWhile fun e =>
      compare e.key (p ++ ValueType.kIntentTypeSet.toByte :: x) == .lt).takeWhile
        fun e => e.pfx = p := by
  set t := p ++ ValueType.kIntentTypeSet.toByte :: x
  have hsorted' : store.Pairwise fun a b => compare a.key b.key = .lt := List.pairwise_map.mp hsorted
  -- the seek keeps the intents at or above the sought key
  have hsurvive := not_of_mem_dropWhile (P := fun e => compare e.key t == .lt)
    (fun a b hab hb => by
      simp only [beq_iff_eq] at hb ⊢
      exact Std.TransCmp.lt_trans hab hb) hsorted'
  have hfails : (compare r.key t == .lt) = false := by simpa using hge
  obtain ⟨A, B, hAB⟩ := List.append_of_mem
    (mem_dropWhile_of_not (P := fun e => compare e.key t == .lt) hfails hr)
  have hrun : (A ++ r :: B).Pairwise fun a b => compare a.key b.key = .lt :=
    hAB ▸ hsorted'.sublist (List.dropWhile_suffix _).sublist
  rw [hAB]
  apply mem_takeWhile_of_forall _ (by simpa using hpfx)
  intro e he
  have heD : e ∈ store.dropWhile fun e => compare e.key t == .lt := by
    rw [hAB]
    exact List.mem_append_left _ he
  have hlo : compare t e.key ≠ .gt := by
    have hnot := hsurvive e heD
    rw [compare_bytes_swap]
    cases hc : compare e.key t <;> simp_all
  have hhi : compare e.key (p ++ r.marker.toByte :: r.typeByte ::
      ValueType.kHybridTime.toByte :: r.docHt.encodedInDocDbFormat) = .lt := by
    rw [← hpfx, ← key_eq]
    exact (List.pairwise_append.mp hrun).2.2 e he r List.mem_cons_self
  -- `e`'s key continues `p` with a byte from `kIntentTypeSet` to `r`'s marker
  obtain ⟨c, hc, hac, hcb⟩ := exists_append_of_between p hlo hhi
  cases c with
  | nil =>
    rw [List.compare_cons_nil] at hac
    exact absurd rfl hac
  | cons b c =>
    have hb : b ≤ ValueType.kObsoleteIntentType.toByte :=
      UInt8.le_trans (le_of_compare_cons_lt hcb) r.marker.toByte_le
    have he' := pfx_eq_of_key_eq (hext e ((List.dropWhile_suffix _).subset heD)) hc hb
    simpa using he'

/-- An intent of `p` below the sought key has the new format and a type byte below `0x04`, which
the seek skips only for a weak-only request: such a request conflicts with none of them. -/
theorem intentTypeSetsConflict_of_lt_seek {r : IntentRecord} (hpfx : r.pfx = p)
    (type : IntentTypeSet)
    (hlt : compare r.key (p ++ ValueType.kIntentTypeSet.toByte ::
      (if !hasStrong type then [(1 <<< kStrongIntentFlag : Nat).toUInt8] else [])) = .lt) :
    intentTypeSetsConflict type r.types = false := by
  rw [key_eq, hpfx, compare_append_left, List.compare_cons_cons] at hlt
  unfold IntentRecord.types
  cases hm : r.marker with
  | intentTypeSet =>
    rw [hm] at hlt
    rw [show IntentMarker.intentTypeSet.toByte = ValueType.kIntentTypeSet.toByte from rfl,
      compare_uint8_self, Ordering.eq_then] at hlt
    cases hs : hasStrong type with
    | true =>
      simp only [hs, Bool.not_true, Bool.false_eq_true, if_false, List.compare_cons_nil] at hlt
      cases hlt
    | false =>
      simp only [hs, Bool.not_false, if_true] at hlt
      exact intentTypeSetsConflict_of_weak hs (lt_of_compare_cons_singleton_lt hlt)
  | obsoleteIntentTypeSet =>
    rw [hm] at hlt
    cases hlt
  | obsoleteIntentType =>
    rw [hm] at hlt
    cases hlt

end Seek

section Conflicts

variable (type : IntentTypeSet) (ignoreConflictsWith : TransactionId → Bool)

theorem mem_addConflict (x : TransactionId) (conflicts : List TransactionId) (r : IntentRecord) :
    x ∈ addConflict type ignoreConflictsWith conflicts r ↔ x ∈ conflicts ∨
      (ignoreConflictsWith x = false ∧ r.transactionId = x ∧
        intentTypeSetsConflict type r.types = true) := by
  unfold addConflict
  split <;> grind

/-- After a run of intents, a transaction is in `conflicts_` when it was before, or when an
intent of the run has it, conflicts with the requested types and is not ignored. -/
theorem mem_foldl_addConflict (x : TransactionId) :
    ∀ (rs : List IntentRecord) (conflicts : List TransactionId),
      x ∈ rs.foldl (addConflict type ignoreConflictsWith) conflicts ↔ x ∈ conflicts ∨
        (ignoreConflictsWith x = false ∧ ∃ r ∈ rs, r.transactionId = x ∧
          intentTypeSetsConflict type r.types = true)
  | [], conflicts => by simp
  | r :: rs, conflicts => by
    rw [List.foldl_cons, mem_foldl_addConflict x rs, mem_addConflict]
    grind

/-- The call seeks to the prefix, `kIntentTypeSet` and, for a weak-only request, `0x04`, and walks
on with the prefix as the slice every key must start with. -/
theorem readIntentConflicts_eq_loop (store : List IntentRecord) (intentKeyPrefix : List UInt8)
    (conflicts : List TransactionId) :
    readIntentConflicts (store.map IntentRecord.entry) ignoreConflictsWith type intentKeyPrefix
        conflicts =
      readIntentConflictsLoop (kIntentTypeSetConflicts type.toUIntPtr) ignoreConflictsWith
        (intentKeyPrefix ++ [ValueType.kMaxByte.toByte]) intentKeyPrefix
        ((store.dropWhile fun e => compare e.key (intentKeyPrefix ++
          ValueType.kIntentTypeSet.toByte ::
            (if !hasStrong type then [(1 <<< kStrongIntentFlag : Nat).toUInt8] else [])) ==
              .lt).map IntentRecord.entry) conflicts := by
  have hseekKey : (if !hasStrong type then
        intentKeyPrefix ++ [ValueType.kIntentTypeSet.toByte] ++ [(1 <<< kStrongIntentFlag : Nat).toUInt8]
      else intentKeyPrefix ++ [ValueType.kIntentTypeSet.toByte]) =
      intentKeyPrefix ++ ValueType.kIntentTypeSet.toByte ::
        (if !hasStrong type then [(1 <<< kStrongIntentFlag : Nat).toUInt8] else []) := by
    split <;> simp
  simp only [readIntentConflicts, hseekKey, seek_map, List.take_left']

end Conflicts

/-- `ReadIntentConflicts` over an intents store in key order, for any requested type set and a
key prefix that every prefix of the store continues, or is continued by, only with a subkey's
value type byte, as encoded keys are: it succeeds, and adds to `conflicts_` exactly the
transactions, not ignored by the context, of the intents of that prefix whose type sets, in any
of the three formats, conflict with the requested ones. The seek past the weak-only intents loses
none of them, and no intent of a key that extends the prefix is counted. -/
theorem readIntentConflicts_adds_conflicting {store : List IntentRecord}
    (hsorted : (store.map IntentRecord.key).Pairwise fun a b => compare a b = .lt)
    {intentKeyPrefix : List UInt8}
    (hprefixes : ∀ r ∈ store,
      SubkeyExtension intentKeyPrefix r.pfx ∧ SubkeyExtension r.pfx intentKeyPrefix)
    (type : IntentTypeSet) (ignoreConflictsWith : TransactionId → Bool)
    (conflicts : List TransactionId) :
    ∃ result, readIntentConflicts (store.map IntentRecord.entry) ignoreConflictsWith type
        intentKeyPrefix conflicts = .ok result ∧
      ∀ x, x ∈ result ↔ x ∈ conflicts ∨ (ignoreConflictsWith x = false ∧
        ∃ r ∈ store, r.pfx = intentKeyPrefix ∧ r.transactionId = x ∧
          intentTypeSetsConflict type r.types = true) := by
  set seekKey := intentKeyPrefix ++ ValueType.kIntentTypeSet.toByte ::
    (if !hasStrong type then [(1 <<< kStrongIntentFlag : Nat).toUInt8] else [])
  set survivors := store.dropWhile fun e => compare e.key seekKey == .lt
  have hsurvivors : ∀ r ∈ survivors,
      SubkeyExtension intentKeyPrefix r.pfx ∧ SubkeyExtension r.pfx intentKeyPrefix :=
    fun r hr => hprefixes r ((List.dropWhile_suffix _).subset hr)
  refine ⟨(survivors.takeWhile fun r => r.pfx = intentKeyPrefix).foldl
    (addConflict type ignoreConflictsWith) conflicts, ?_, fun x => ?_⟩
  · rw [readIntentConflicts_eq_loop, readIntentConflictsLoop_eq type ignoreConflictsWith _ hsurvivors]
  · rw [mem_foldl_addConflict]
    constructor
    · rintro (hx | ⟨hignore, r, hr, rfl, hconflict⟩)
      · exact .inl hx
      · have hpfx : r.pfx = intentKeyPrefix := by simpa using List.mem_takeWhile_imp hr
        exact .inr ⟨hignore, r, (List.dropWhile_suffix _).subset ((List.takeWhile_sublist _).subset hr),
          hpfx, rfl, hconflict⟩
    · rintro (hx | ⟨hignore, r, hr, hpfx, rfl, hconflict⟩)
      · exact .inl hx
      · -- an intent below the sought key conflicts with nothing requested
        refine .inr ⟨hignore, r, ?_, rfl, hconflict⟩
        by_cases hlt : compare r.key seekKey = .lt
        · rw [intentTypeSetsConflict_of_lt_seek hpfx type hlt] at hconflict
          cases hconflict
        · exact mem_run_of_pfx hsorted hprefixes hr hpfx hlt

theorem readIntentConflicts_adds_conflicting_subkey :
    ([IntentRecord.mk [71, 0, 1, 33] .intentTypeSet 8 ⟨⟨4096⟩, 0⟩ ⟨List.replicate 16 1, rfl⟩ [],
        IntentRecord.mk [71, 0, 1, 33, 75, 1] .intentTypeSet 8 ⟨⟨4096⟩, 0⟩
          ⟨List.replicate 16 2, rfl⟩ []].map IntentRecord.key).Pairwise
        (fun a b => compare a b = .lt) ∧
    (∀ r ∈ [IntentRecord.mk [71, 0, 1, 33] .intentTypeSet 8 ⟨⟨4096⟩, 0⟩
          ⟨List.replicate 16 1, rfl⟩ [],
        IntentRecord.mk [71, 0, 1, 33, 75, 1] .intentTypeSet 8 ⟨⟨4096⟩, 0⟩
          ⟨List.replicate 16 2, rfl⟩ []],
      SubkeyExtension [71, 0, 1, 33] r.pfx ∧ SubkeyExtension r.pfx [71, 0, 1, 33]) ∧
    ∃ result, readIntentConflicts
        ([IntentRecord.mk [71, 0, 1, 33] .intentTypeSet 8 ⟨⟨4096⟩, 0⟩
            ⟨List.replicate 16 1, rfl⟩ [],
          IntentRecord.mk [71, 0, 1, 33, 75, 1] .intentTypeSet 8 ⟨⟨4096⟩, 0⟩
            ⟨List.replicate 16 2, rfl⟩ []].map IntentRecord.entry)
        (fun _ => false) (.ofList [.kStrongWrite]) [71, 0, 1, 33] [] = .ok result ∧
      ∀ x, x ∈ result ↔ x ∈ [] ∨ ((fun _ => false) x = false ∧
        ∃ r ∈ [IntentRecord.mk [71, 0, 1, 33] .intentTypeSet 8 ⟨⟨4096⟩, 0⟩
            ⟨List.replicate 16 1, rfl⟩ [],
          IntentRecord.mk [71, 0, 1, 33, 75, 1] .intentTypeSet 8 ⟨⟨4096⟩, 0⟩
            ⟨List.replicate 16 2, rfl⟩ []],
          r.pfx = [71, 0, 1, 33] ∧ r.transactionId = x ∧
            intentTypeSetsConflict (.ofList [.kStrongWrite]) r.types = true) := by
  refine ⟨?sorted, ?prefixes,
    readIntentConflicts_adds_conflicting ?sorted ?prefixes (.ofList [.kStrongWrite]) _ _⟩
  · decide
  · unfold SubkeyExtension
    decide

end FrescoDB.Docdb
