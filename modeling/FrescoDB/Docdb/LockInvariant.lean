import FrescoDB.Docdb.SharedLockManager

/-! The lock word refines the multiset of held intent type sets. Along every
admissible run of one `LockedBatchEntry`, `num_holding` packs the holder
count of each intent type, so it is the sum of `kIntentTypeSetAdd` over the
held sets; a `Lock` succeeds exactly when its set conflicts with no held
set; and hence no two held sets conflict. -/
namespace FrescoDB.Docdb

open FrescoDB.Lib

/-- The intent types that some type of `s` conflicts with. -/
def conflictTypes (s : IntentTypeSet) : List IntentType :=
  IntentType.all.filter fun o => s.toList.any fun t => intentTypesConflict t o

/-- One for each intent type of the set. -/
def indicator (s : IntentTypeSet) (t : IntentType) : Nat := if s.test t then 1 else 0

/-! The three tables, evaluated once over their sixteen entries. -/

theorem kIntentTypeSetAdd_table : ∀ b < 16,
    (kIntentTypeSetAdd b).toNat = packCounts (indicator (IntentTypeSet.ofNat b)) := by
  decide

theorem kIntentTypeSetConflicts_table : ∀ b < 16, (kIntentTypeSetConflicts b).toNat =
    ((conflictTypes (IntentTypeSet.ofNat b)).map fun o => fieldMask 16 o.toNat).foldl (· ||| ·) 0 := by
  decide

theorem ofNat_bits (s : IntentTypeSet) : IntentTypeSet.ofNat s.bits = s := by
  obtain ⟨b, hb⟩ := s
  simp [IntentTypeSet.ofNat, Nat.mod_eq_of_lt hb]

theorem toNat_kIntentTypeSetAdd (s : IntentTypeSet) :
    (kIntentTypeSetAdd s.toUIntPtr).toNat = packCounts (indicator s) := by
  have h := kIntentTypeSetAdd_table s.bits s.lt
  rwa [ofNat_bits] at h

/-- The conflict mask misses a word exactly when the word's fields at the conflicting types are
zero. -/
theorem and_conflicts_eq_zero (x : LockState) (s : IntentTypeSet) :
    x &&& kIntentTypeSetConflicts s.toUIntPtr = 0 ↔
      ∀ o ∈ conflictTypes s, field 16 o.toNat x.toNat = 0 := by
  have h := kIntentTypeSetConflicts_table s.bits s.lt
  rw [ofNat_bits] at h
  rw [← UInt64.toNat_inj, UInt64.toNat_and, UInt64.toNat_zero, IntentTypeSet.toUIntPtr, h,
    and_foldl_or_eq_zero]
  simp [and_fieldMask_eq_zero]

/-! Holder counts and the packed word. -/

theorem countOf_cons (s : IntentTypeSet) (held : Holders) (t : IntentType) :
    countOf (s :: held) t = countOf held t + indicator s t := by
  unfold countOf indicator
  by_cases h : s.test t <;> simp [h]

theorem countOf_erase {s : IntentTypeSet} {held : Holders} (hs : s ∈ held) (t : IntentType) :
    countOf (held.erase s) t + indicator s t = countOf held t := by
  obtain ⟨l₁, l₂, -, rfl, he⟩ := List.exists_erase_eq hs
  have hcons := countOf_cons s l₂ t
  rw [he]
  simp only [countOf, List.filter_append, List.length_append] at hcons ⊢
  omega

theorem countOf_eq_zero (held : Holders) (t : IntentType) :
    countOf held t = 0 ↔ ∀ h ∈ held, h.test t = false := by
  simp [countOf, List.filter_eq_nil_iff]

theorem field_packCounts {c : IntentType → Nat} (hc : ∀ t, c t < 2 ^ 16) (o : IntentType) :
    field 16 o.toNat (packCounts c) = c o := by
  have h0 := hc .kWeakRead
  have h1 := hc .kWeakWrite
  have h2 := hc .kStrongRead
  have h3 := hc .kStrongWrite
  cases o <;> simp only [field, packCounts, IntentType.toNat] <;> omega

theorem packCounts_lt {c : IntentType → Nat} (hc : ∀ t, c t < 2 ^ 16) : packCounts c < 2 ^ 64 := by
  have h0 := hc .kWeakRead
  have h1 := hc .kWeakWrite
  have h2 := hc .kStrongRead
  have h3 := hc .kStrongWrite
  simp only [packCounts]
  omega

/-- The packed word of the held sets' counts. -/
def Represents (e : LockedBatchEntry) (held : Holders) : Prop :=
  e.numHolding.toNat = packCounts (countOf held)

theorem intentTypeSetsConflict_iff (s h : IntentTypeSet) :
    intentTypeSetsConflict s h = true ↔ ∃ o ∈ conflictTypes s, h.test o = true := by
  simp only [intentTypeSetsConflict, conflictTypes, IntentTypeSet.toList, List.any_eq_true,
    List.mem_filter, IntentType.mem_all, true_and]
  constructor
  · rintro ⟨t, ht, o, ho, hto⟩
    exact ⟨o, ⟨t, ht, hto⟩, ho⟩
  · rintro ⟨o, ⟨t, ht, hto⟩, ho⟩
    exact ⟨t, ht, o, ho, hto⟩

theorem grantable_iff (held : Holders) (s : IntentTypeSet) :
    grantable held s ↔ ∀ o ∈ conflictTypes s, countOf held o = 0 := by
  simp only [grantable, countOf_eq_zero]
  constructor
  · intro hg o ho h hh
    have hno := hg h hh
    by_contra hto
    rw [Bool.not_eq_false] at hto
    rw [(intentTypeSetsConflict_iff s h).2 ⟨o, ho, hto⟩] at hno
    exact absurd hno (by decide)
  · intro hc h hh
    by_contra hcon
    rw [Bool.not_eq_false, intentTypeSetsConflict_iff] at hcon
    obtain ⟨o, ho, hto⟩ := hcon
    rw [hc o ho h hh] at hto
    exact absurd hto (by decide)

theorem packCounts_add (c d : IntentType → Nat) :
    packCounts (fun t => c t + d t) = packCounts c + packCounts d := by
  simp only [packCounts]
  ring

theorem withinBound_erase {s : IntentTypeSet} {held : Holders} (hs : s ∈ held)
    (h : WithinBound held) : WithinBound (held.erase s) := fun t => by
  have := countOf_erase hs t
  have := h t
  omega

/-! One step of the entry against the abstract lock. -/

namespace LockedBatchEntry

variable {e e' : LockedBatchEntry} {held : Holders} {s : IntentTypeSet}

theorem lock_isSome_iff (hr : Represents e held) (hb : WithinBound held) :
    (e.lock s).isSome ↔ grantable held s := by
  have hfield : ∀ o, field 16 o.toNat e.numHolding.toNat = countOf held o := by
    intro o
    rw [hr]
    exact field_packCounts hb o
  rw [grantable_iff]
  simp only [lock]
  split
  · rename_i h
    rw [and_conflicts_eq_zero] at h
    simp only [Option.isSome_some, true_iff]
    intro o ho
    rw [← hfield o]
    exact h o ho
  · rename_i h
    rw [and_conflicts_eq_zero] at h
    simp only [Option.isSome_none, Bool.false_eq_true, false_iff]
    intro hall
    exact h fun o ho => (hfield o).trans (hall o ho)

theorem lock_represents (hr : Represents e held) (hb : WithinBound (s :: held))
    (h : e.lock s = some e') : Represents e' (s :: held) := by
  unfold Represents at hr
  simp only [lock] at h
  split at h
  · cases h
    have hcons : countOf (s :: held) = fun t => countOf held t + indicator s t :=
      funext (countOf_cons s held)
    simp only [Represents, UInt64.toNat_add, toNat_kIntentTypeSetAdd, hr]
    rw [← packCounts_add, ← hcons]
    exact Nat.mod_eq_of_lt (packCounts_lt hb)
  · cases h

theorem unlock_represents (hr : Represents e held) (hs : s ∈ held) :
    Represents (e.unlock s).1 (held.erase s) := by
  unfold Represents at hr
  have herase : countOf held = fun t => countOf (held.erase s) t + indicator s t :=
    funext fun t => (countOf_erase hs t).symm
  have hle : (kIntentTypeSetAdd s.toUIntPtr).toNat ≤ e.numHolding.toNat := by
    rw [toNat_kIntentTypeSetAdd, hr, herase, packCounts_add]
    omega
  simp only [Represents, unlock, UInt64.toNat_sub_of_le _ _ (UInt64.le_iff_toNat_le.2 hle), hr,
    toNat_kIntentTypeSetAdd]
  rw [herase, packCounts_add]
  omega

end LockedBatchEntry

/-- What holds of every reachable state of an entry. -/
structure LockInv (e : LockedBatchEntry) (held : Holders) : Prop where
  represents : Represents e held
  bound : WithinBound held
  compatible : Compatible held

theorem lockInv_init (waiters : Nat) : LockInv ⟨0, waiters⟩ [] where
  represents := by simp [Represents, packCounts, countOf]
  bound := fun t => by simp [countOf]
  compatible := List.Pairwise.nil

theorem Reachable.lockInv {e : LockedBatchEntry} {held : Holders} (h : Reachable e held) :
    LockInv e held := by
  induction h with
  | init waiters => exact lockInv_init waiters
  | lock s _ hb hlock ih =>
    -- The lock was granted, so the new set conflicts with no held set.
    have hgrant : grantable _ s :=
      (LockedBatchEntry.lock_isSome_iff ih.represents ih.bound).1 (by simp [hlock])
    exact ⟨LockedBatchEntry.lock_represents ih.represents hb hlock, hb,
      List.Pairwise.cons hgrant ih.compatible⟩
  | wait s _ _ ih => exact ih
  | unlock s _ hs ih =>
    exact ⟨LockedBatchEntry.unlock_represents ih.represents hs, withinBound_erase hs ih.bound,
      ih.compatible.sublist (List.erase_sublist)⟩
  | waiters n _ ih => exact ⟨ih.represents, ih.bound, ih.compatible⟩

theorem packCounts_countOf (held : Holders) :
    packCounts (countOf held) = (held.map fun s => (kIntentTypeSetAdd s.toUIntPtr).toNat).sum := by
  induction held with
  | nil => simp [packCounts, countOf]
  | cons s held ih =>
    have hcons : countOf (s :: held) = fun t => countOf held t + indicator s t :=
      funext (countOf_cons s held)
    rw [hcons, packCounts_add, ih, List.map_cons, List.sum_cons, toNat_kIntentTypeSetAdd]
    omega

/-- Along every admissible run of one entry, under any interleaving of its compare-and-swap
steps: `num_holding` is the sum of `kIntentTypeSetAdd` over the held sets, a `Lock` succeeds
exactly when its set conflicts with no held set, and no two held sets conflict. -/
theorem reachable_lock_word {e : LockedBatchEntry} {held : Holders} (h : Reachable e held) :
    e.numHolding.toNat = (held.map fun s => (kIntentTypeSetAdd s.toUIntPtr).toNat).sum ∧
    (∀ s, (e.lock s).isSome ↔ grantable held s) ∧ Compatible held := by
  have inv := h.lockInv
  exact ⟨inv.represents.trans (packCounts_countOf held),
    fun s => LockedBatchEntry.lock_isSome_iff inv.represents inv.bound, inv.compatible⟩

/-- The entry after one strong write lock taken on a free key. -/
theorem reachable_lock_word_strongWrite :
    (⟨kIntentTypeSetAdd 8, 0⟩ : LockedBatchEntry).numHolding.toNat =
      ([IntentTypeSet.ofNat 8].map fun s => (kIntentTypeSetAdd s.toUIntPtr).toNat).sum ∧
    (∀ s, ((⟨kIntentTypeSetAdd 8, 0⟩ : LockedBatchEntry).lock s).isSome ↔
      grantable [IntentTypeSet.ofNat 8] s) ∧ Compatible [IntentTypeSet.ofNat 8] :=
  reachable_lock_word (.lock (IntentTypeSet.ofNat 8) (.init 0) (fun t => by cases t <;> decide) rfl)

end FrescoDB.Docdb
