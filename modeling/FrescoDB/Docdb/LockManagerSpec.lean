import FrescoDB.Docdb.LockManagerImpl
import FrescoDB.Lib.AssocList

/-! What `Lock` and `Unlock` of a batch leave of the manager. The lock loop and its rollback only
touch the atomic words, and each `Unlock` takes back what its `Lock` added, so a failed `Lock`,
or a `Lock` and then `Unlock` of the batch, leaves what `Cleanup` leaves right after `Reserve`.
On a manager whose map, pool and free list agree (`Inv`) and a batch of distinct keys, that is
the manager before the call, with the entries `Reserve` had to create added to the pool and to
the free list. -/
namespace FrescoDB.Docdb

open FrescoDB.Util FrescoDB.Lib

namespace SharedLockManagerImpl

variable {m : SharedLockManagerImpl}

/-! The pool, read and written by position. -/

@[simp] theorem length_modifySlot (i : Nat) (f : LockEntrySlot → LockEntrySlot) :
    (m.modifySlot i f).lockEntries.length = m.lockEntries.length := by
  simp [modifySlot]

@[simp] theorem locks_modifySlot (i : Nat) (f : LockEntrySlot → LockEntrySlot) :
    (m.modifySlot i f).locks = m.locks := rfl

@[simp] theorem freeLockEntries_modifySlot (i : Nat) (f : LockEntrySlot → LockEntrySlot) :
    (m.modifySlot i f).freeLockEntries = m.freeLockEntries := rfl

theorem slot_modifySlot {j : Nat} (hj : j < m.lockEntries.length) (f : LockEntrySlot → LockEntrySlot)
    (i : Nat) : (m.modifySlot j f).slot i = if i = j then f (m.slot i) else m.slot i := by
  simp only [slot, modifySlot, List.getD_eq_getElem?_getD, List.getElem?_modify]
  by_cases hij : i = j
  · subst hij
    simp [List.getElem?_eq_getElem hj]
  · simp [Ne.symm hij, hij]

theorem modifySlot_modifySlot (i : Nat) (f g : LockEntrySlot → LockEntrySlot) :
    (m.modifySlot i f).modifySlot i g = m.modifySlot i (g ∘ f) := by
  simp [modifySlot, List.modify_modify_eq]

theorem modifySlot_of_fixed {i : Nat} {f : LockEntrySlot → LockEntrySlot}
    (hf : f (m.slot i) = m.slot i) : m.modifySlot i f = m := by
  obtain ⟨locks, entries, free⟩ := m
  simp only [modifySlot, SharedLockManagerImpl.mk.injEq, and_true, true_and]
  by_cases hi : i < entries.length
  · apply List.ext_getElem (by simp)
    intro j hj _
    rw [List.getElem_modify]
    split
    · subst j
      simpa [slot, hi] using hf
    · rfl
  · exact List.modify_eq_self (by omega)

/-! The lock loop and its rollback. -/

theorem unlock_lock {e e' : LockedBatchEntry} {s : IntentTypeSet} (h : e.lock s = some e') :
    (e'.unlock s).1 = e := by
  simp only [LockedBatchEntry.lock] at h
  split at h
  · cases h
    simp [LockedBatchEntry.unlock]
  · cases h

theorem unlock_after_lock {i : Nat} {s : IntentTypeSet} {e : LockedBatchEntry}
    (h : (m.slot i).entry.lock s = some e) :
    (m.modifySlot i fun t => { t with entry := e }).modifySlot i
      (fun t => { t with entry := (t.entry.unlock s).1 }) = m := by
  rw [modifySlot_modifySlot]
  apply modifySlot_of_fixed
  simp [unlock_lock h]

/-- The loop keeps the manager, once its locked entries are unlocked backwards, equal to the one
it started from; so a rollback gives `Cleanup` that manager, and so does a later `Unlock`. -/
theorem lockLoop_spec {deadline : CoarseTimePoint} {batch : List LockBatchEntry}
    {base : SharedLockManagerImpl} :
    ∀ {m : SharedLockManagerImpl} {taken rest : List LockBatchEntry} {m' : SharedLockManagerImpl}
      {locked : Bool}, m.unlockEntries taken = base →
      lockLoop deadline batch m taken rest = some (m', locked) →
      (locked = false ∧ m' = base.cleanup batch) ∨
        (locked = true ∧ m'.unlockEntries (rest.reverse ++ taken) = base)
  | m, taken, [], m', locked, hbase, h => by
    simp only [lockLoop, Option.some.injEq, Prod.mk.injEq] at h
    obtain ⟨rfl, rfl⟩ := h
    exact .inr ⟨rfl, by simpa using hbase⟩
  | m, taken, item :: rest, m', locked, hbase, h => by
    rw [lockLoop] at h
    split at h
    · rename_i e he
      -- the entry is locked: unlocking it first gives the manager before
      have hstep : (m.modifySlot item.locked fun s => { s with entry := e }).unlockEntries
          (item :: taken) = base := by
        rw [unlockEntries, unlock_after_lock he, hbase]
      rcases lockLoop_spec hstep h with hfalse | ⟨htrue, hrest⟩
      · exact .inl hfalse
      · exact .inr ⟨htrue, by simpa using hrest⟩
    · split at h
      · cases h
      · simp only [Option.some.injEq, Prod.mk.injEq] at h
        obtain ⟨rfl, rfl⟩ := h
        exact .inl ⟨rfl, by rw [hbase]⟩

/-! The manager's invariant, and what `Reserve` does to a manager that keeps it. -/

/-- The map is a map; no entry is mapped twice or both mapped and free; the mapped and free
entries are in the pool; a mapped entry is referenced and a free one is not. -/
structure Inv (m : SharedLockManagerImpl) : Prop where
  keys_nodup : (m.locks.map Prod.fst).Nodup
  entries_nodup : (m.locks.map Prod.snd ++ m.freeLockEntries).Nodup
  lt_length : ∀ i ∈ m.locks.map Prod.snd ++ m.freeLockEntries, i < m.lockEntries.length
  mapped_ref : ∀ p ∈ m.locks, (m.slot p.2).refCount ≠ 0
  free_ref : ∀ i ∈ m.freeLockEntries, (m.slot i).refCount = 0

theorem entryFor_cases (m : SharedLockManagerImpl) (key : List UInt8) :
    (∃ v, m.locks.lookup key = some v ∧ m.entryFor key = (m, v)) ∨
    (m.locks.lookup key = none ∧ ∃ free v, m.freeLockEntries = free ++ [v] ∧
      m.entryFor key = ({ m with locks := (key, v) :: m.locks, freeLockEntries := free }, v)) ∨
    (m.locks.lookup key = none ∧ m.freeLockEntries = [] ∧
      m.entryFor key = ({ m with
        locks := (key, m.lockEntries.length) :: m.locks
        lockEntries := m.lockEntries ++ [.fresh] }, m.lockEntries.length)) := by
  unfold entryFor
  cases hl : m.locks.lookup key with
  | some v => exact .inl ⟨v, rfl, rfl⟩
  | none =>
    cases hf : m.freeLockEntries.getLast? with
    | some v =>
      obtain ⟨free, hfree⟩ := List.getLast?_eq_some_iff.mp hf
      refine .inr (.inl ⟨rfl, free, v, hfree, ?_⟩)
      simp [hfree]
    | none => exact .inr (.inr ⟨rfl, List.getLast?_eq_none_iff.mp hf, rfl⟩)

theorem slot_of_append_fresh {m m' : SharedLockManagerImpl}
    (h : m'.lockEntries = m.lockEntries ++ [.fresh]) (i : Nat) : m'.slot i = m.slot i := by
  simp only [slot, List.getD_eq_getElem?_getD, h]
  by_cases hi : i < m.lockEntries.length
  · rw [List.getElem?_append_left hi]
  · have hnone : m.lockEntries[i]? = none := List.getElem?_eq_none (by omega)
    rw [List.getElem?_append_right (by omega), hnone]
    cases i - m.lockEntries.length <;> rfl

/-- What `locks_[key]` leaves: the same entries, the key mapped (in front, when it is new) to an
entry of the pool that is referenced exactly when the key was mapped already, and the free list
short of that entry when it came from there. -/
theorem entryFor_spec (hi : Inv m) (key : List UInt8) :
    (∀ i, (m.entryFor key).1.slot i = m.slot i) ∧
    (m.entryFor key).2 < (m.entryFor key).1.lockEntries.length ∧
    (m.entryFor key).1.locks.lookup key = some (m.entryFor key).2 ∧
    ((m.slot (m.entryFor key).2).refCount = 0 ↔ m.locks.lookup key = none) ∧
    (∃ P, (m.entryFor key).1.locks = P ++ m.locks ∧
      ∀ p ∈ P, m.locks.lookup p.1 = none ∧ p.1 = key) ∧
    ((m.entryFor key).1.freeLockEntries ++
        (if m.locks.lookup key = none then [(m.entryFor key).2] else [])).Perm
      (m.freeLockEntries ++ List.range' m.lockEntries.length
        ((m.entryFor key).1.lockEntries.length - m.lockEntries.length)) ∧
    m.lockEntries.length ≤ (m.entryFor key).1.lockEntries.length := by
  rcases entryFor_cases m key with ⟨v, hl, he⟩ | ⟨hl, free, v, hfree, he⟩ | ⟨hl, hfree, he⟩
  · -- the key is mapped already
    have hmem : (key, v) ∈ m.locks := mem_of_lookup_eq_some hl
    refine ⟨fun i => by rw [he],
      by rw [he]; exact hi.lt_length v (List.mem_append_left _ (List.mem_map.mpr ⟨_, hmem, rfl⟩)),
      by rw [he]; exact hl, ?_, ⟨[], by rw [he]; rfl, by simp⟩, by simp [he, hl], by rw [he]⟩
    simp only [hl, reduceCtorEq, iff_false, he]
    exact hi.mapped_ref _ hmem
  · -- an entry from the back of the free list
    have hv : v ∈ m.freeLockEntries := by simp [hfree]
    refine ⟨fun i => by rw [he]; rfl, ?_, by simp [he], ?_,
      ⟨[(key, v)], by rw [he]; rfl, fun p hp => by rw [List.mem_singleton.mp hp]; exact ⟨hl, rfl⟩⟩,
      by simp [he, hl, hfree], by rw [he]⟩
    · rw [he]
      exact hi.lt_length v (List.mem_append_right _ hv)
    · simp only [he, hl, iff_true]
      exact hi.free_ref v hv
  · -- a new entry at the end of the pool
    refine ⟨fun i => by rw [he]; exact slot_of_append_fresh rfl i, by simp [he], by simp [he], ?_,
      ⟨[(key, m.lockEntries.length)], by rw [he]; rfl,
        fun p hp => by rw [List.mem_singleton.mp hp]; exact ⟨hl, rfl⟩⟩,
      by simp [he, hl, hfree], by simp [he]⟩
    simp only [he, hl, iff_true, slot, List.getD_eq_getElem?_getD,
      List.getElem?_eq_none (Nat.le_refl _), Option.getD_none]
    rfl

/-- The reference `Reserve` adds keeps the invariant, given everything but the reference itself:
the entry is in the pool, not free, and the only mapped entry that may lack a reference. -/
theorem Inv.bump {v : Nat} (hkeys : (m.locks.map Prod.fst).Nodup)
    (hentries : (m.locks.map Prod.snd ++ m.freeLockEntries).Nodup)
    (hlt : ∀ i ∈ m.locks.map Prod.snd ++ m.freeLockEntries, i < m.lockEntries.length)
    (hmapped : ∀ p ∈ m.locks, p.2 ≠ v → (m.slot p.2).refCount ≠ 0)
    (hfree : ∀ i ∈ m.freeLockEntries, (m.slot i).refCount = 0)
    (hv : v < m.lockEntries.length) (hvfree : v ∉ m.freeLockEntries) :
    Inv (m.modifySlot v fun s => { s with refCount := s.refCount + 1 }) where
  keys_nodup := hkeys
  entries_nodup := hentries
  lt_length := fun i hi => by rw [length_modifySlot]; exact hlt i hi
  mapped_ref := fun p hp => by
    rw [slot_modifySlot hv]
    split
    · simp
    · exact hmapped p hp ‹_›
  free_ref := fun i hi => by
    have hne : i ≠ v := fun h => hvfree (h ▸ hi)
    rw [slot_modifySlot hv, if_neg hne]
    exact hfree i hi

theorem Inv.reserveEntry (hi : Inv m) (item : LockBatchEntry) : Inv (m.reserveEntry item).1 := by
  have hkeyval : ∀ {k v}, (k, v) ∈ m.locks → v ∈ m.locks.map Prod.snd ++ m.freeLockEntries :=
    fun h => List.mem_append_left _ (List.mem_map.mpr ⟨_, h, rfl⟩)
  rcases entryFor_cases m item.key with ⟨v, hl, he⟩ | ⟨hl, free, v, hfree, he⟩ |
    ⟨hl, hfree, he⟩
  · -- the key is mapped already
    have hmem := mem_of_lookup_eq_some hl
    simp only [SharedLockManagerImpl.reserveEntry, he]
    refine Inv.bump hi.keys_nodup hi.entries_nodup hi.lt_length
      (fun p hp _ => hi.mapped_ref p hp) hi.free_ref (hi.lt_length v (hkeyval hmem)) ?_
    exact List.disjoint_of_nodup_append hi.entries_nodup (List.mem_map.mpr ⟨_, hmem, rfl⟩)
  · -- an entry from the back of the free list
    have hnew := lookup_eq_none_iff_not_mem.mp hl
    have hnodup := hi.entries_nodup
    rw [hfree] at hnodup
    have hperm : ((v :: m.locks.map Prod.snd) ++ free).Perm
        (m.locks.map Prod.snd ++ (free ++ [v])) := by
      rw [List.cons_append, ← List.append_assoc]
      exact (List.perm_append_singleton _ _).symm
    have hv : v ∈ m.freeLockEntries := by simp [hfree]
    have hsub : ∀ i ∈ free, i ∈ m.freeLockEntries := fun i hi => by simp [hfree, hi]
    simp only [SharedLockManagerImpl.reserveEntry, he]
    apply Inv.bump
    · exact List.nodup_cons.mpr ⟨hnew, hi.keys_nodup⟩
    · simpa using hperm.nodup_iff.mpr hnodup
    · intro i hmem
      simp only [List.map_cons, List.cons_append, List.mem_cons, List.mem_append] at hmem
      rcases hmem with rfl | hmem | hmem
      · exact hi.lt_length _ (List.mem_append_right _ hv)
      · exact hi.lt_length i (List.mem_append_left _ hmem)
      · exact hi.lt_length i (List.mem_append_right _ (hsub i hmem))
    · intro p hp hne
      rcases List.mem_cons.mp hp with rfl | hp
      · exact absurd rfl hne
      · exact hi.mapped_ref p hp
    · exact fun i hmem => hi.free_ref i (hsub i hmem)
    · exact hi.lt_length v (List.mem_append_right _ hv)
    · exact fun hmem => (List.nodup_append.mp (List.nodup_append.mp hnodup).2.1).2.2 v hmem v
        (List.mem_singleton_self v) rfl
  · -- a new entry at the end of the pool
    have hnew := lookup_eq_none_iff_not_mem.mp hl
    have hfresh : m.lockEntries.length ∉ m.locks.map Prod.snd := fun hmem =>
      Nat.lt_irrefl _ (hi.lt_length _ (List.mem_append_left _ hmem))
    simp only [SharedLockManagerImpl.reserveEntry, he]
    apply Inv.bump
    · exact List.nodup_cons.mpr ⟨hnew, hi.keys_nodup⟩
    · simpa [hfree] using List.nodup_cons.mpr ⟨hfresh, (List.nodup_append.mp hi.entries_nodup).1⟩
    · intro i hmem
      simp only [hfree, List.append_nil, List.map_cons, List.mem_cons] at hmem
      rcases hmem with rfl | hmem
      · simp
      · have := hi.lt_length i (List.mem_append_left _ hmem)
        simp only [List.length_append, List.length_singleton]
        omega
    · intro p hp hne
      rcases List.mem_cons.mp hp with rfl | hp
      · exact absurd rfl hne
      · rw [slot_of_append_fresh rfl]
        exact hi.mapped_ref p hp
    · simp [hfree]
    · simp
    · simp [hfree]

/-- `c` is `m` with a reference more to the entry of each item of `r`, in the pool, and the new
keys of `r` mapped in front of `m`'s map; an item's entry has no reference in `m` exactly when
its key is new. -/
structure Pending (m c : SharedLockManagerImpl) (r : List LockBatchEntry) : Prop where
  slot : ∀ i, c.slot i =
    { m.slot i with refCount := (m.slot i).refCount + (r.map (·.locked)).count i }
  lt_length : ∀ x ∈ r, x.locked < c.lockEntries.length
  locks : ∃ P, c.locks = P ++ m.locks ∧ ∀ p ∈ P, m.locks.lookup p.1 = none ∧ p.1 ∈ r.map (·.key)
  zero_iff : ∀ x ∈ r, (m.slot x.locked).refCount = 0 ↔ m.locks.lookup x.key = none

/-- What `Reserve` leaves: the references pending, every key mapped to its entry, and the free
list with the new keys' entries giving back the old free list and the entries made. -/
structure Reserved (m c : SharedLockManagerImpl) (b : List LockBatchEntry) : Prop where
  pending : Pending m c b
  lookup : ∀ x ∈ b, c.locks.lookup x.key = some x.locked
  length_le : m.lockEntries.length ≤ c.lockEntries.length
  free : (c.freeLockEntries ++ (b.filter fun x => (m.locks.lookup x.key).isNone).map (·.locked)).Perm
    (m.freeLockEntries ++
      List.range' m.lockEntries.length (c.lockEntries.length - m.lockEntries.length))

theorem reserveEntry_reserved (hi : Inv m) (item : LockBatchEntry) :
    Reserved m (m.reserveEntry item).1 [(m.reserveEntry item).2] := by
  obtain ⟨hslot, hlt, hlookup, hzero, ⟨P, hlocks, hP⟩, hfree, hlen⟩ := entryFor_spec hi item.key
  simp only [SharedLockManagerImpl.reserveEntry]
  refine ⟨⟨fun i => ?_, ?_, ⟨P, hlocks, fun p hp => ⟨(hP p hp).1, by simp [(hP p hp).2]⟩⟩,
    by simpa using hzero⟩, by simpa using hlookup, by simpa using hlen, ?_⟩
  · rw [slot_modifySlot hlt, hslot]
    by_cases hi : i = (m.entryFor item.key).2
    · subst hi
      simp
    · simp [hi, Ne.symm hi]
  · simpa using hlt
  · cases hnone : m.locks.lookup item.key <;> simpa [hnone] using hfree

theorem key_eq_of_lookup {l : List (List UInt8 × Nat)} (hvals : (l.map Prod.snd).Nodup)
    {a b : List UInt8} {v : Nat} (ha : l.lookup a = some v) (hb : l.lookup b = some v) : a = b :=
  congrArg Prod.fst (List.inj_on_of_nodup_map hvals (mem_of_lookup_eq_some ha)
    (mem_of_lookup_eq_some hb) rfl)

theorem Reserved.cons {m' c : SharedLockManagerImpl} {x : LockBatchEntry}
    {b : List LockBatchEntry} (h₁ : Reserved m m' [x]) (h₂ : Reserved m' c b) (hc : Inv c)
    (hx : x.key ∉ b.map (·.key)) : Reserved m c (x :: b) := by
  obtain ⟨P₁, hlocks₁, hP₁⟩ := h₁.pending.locks
  obtain ⟨P₂, hlocks₂, hP₂⟩ := h₂.pending.locks
  -- the keys mapped by the rest of the batch are not `x`'s
  have hP₂x : x.key ∉ P₂.map Prod.fst := fun hmem => by
    obtain ⟨p, hp, hpx⟩ := List.mem_map.mp hmem
    exact hx (hpx ▸ (hP₂ p hp).2)
  have hlookupx : c.locks.lookup x.key = some x.locked := by
    rw [hlocks₂, lookup_append_of_not_mem hP₂x]
    exact h₁.lookup x (List.mem_singleton_self x)
  -- on the rest of the batch, `m'` reads as `m`
  have hne : ∀ y ∈ b, y.locked ≠ x.locked := fun y hy heq => by
    have hyx := key_eq_of_lookup (List.nodup_append.mp hc.entries_nodup).1
      (heq ▸ h₂.lookup y hy) hlookupx
    exact hx (hyx ▸ List.mem_map_of_mem hy)
  have hP₁y : ∀ y ∈ b, y.key ∉ P₁.map Prod.fst := fun y hy hmem => by
    obtain ⟨p, hp, hpy⟩ := List.mem_map.mp hmem
    have hpx : p.1 = x.key := by simpa using (hP₁ p hp).2
    exact hx (hpx ▸ hpy ▸ List.mem_map_of_mem hy)
  have hlookupy : ∀ y ∈ b, m'.locks.lookup y.key = m.locks.lookup y.key := fun y hy => by
    rw [hlocks₁, lookup_append_of_not_mem (hP₁y y hy)]
  have hrefy : ∀ y ∈ b, (m'.slot y.locked).refCount = (m.slot y.locked).refCount := fun y hy => by
    rw [h₁.pending.slot]
    simp [Ne.symm (hne y hy)]
  refine ⟨⟨fun i => ?_, fun y hy => ?_, ⟨P₂ ++ P₁, by rw [hlocks₂, hlocks₁, List.append_assoc],
    fun p hp => ?_⟩, fun y hy => ?_⟩, fun y hy => ?_, h₁.length_le.trans h₂.length_le, ?_⟩
  · -- references add up
    rw [h₂.pending.slot, h₁.pending.slot]
    simp only [List.map_cons, List.count_cons, List.map_nil, List.count_nil, beq_iff_eq]
    congr 1
    omega
  · rcases List.mem_cons.mp hy with rfl | hy
    · exact Nat.lt_of_lt_of_le (h₁.pending.lt_length y (List.mem_singleton_self y))
        h₂.length_le
    · exact h₂.pending.lt_length y hy
  · rcases List.mem_append.mp hp with hp | hp
    · refine ⟨?_, List.mem_cons_of_mem _ (hP₂ p hp).2⟩
      have hnone := lookup_eq_none_iff_not_mem.mp (hP₂ p hp).1
      rw [hlocks₁, List.map_append] at hnone
      exact lookup_eq_none_iff_not_mem.mpr fun hmem => hnone (List.mem_append_right _ hmem)
    · exact ⟨(hP₁ p hp).1, List.mem_cons.mpr (.inl (by simpa using (hP₁ p hp).2))⟩
  · rcases List.mem_cons.mp hy with rfl | hy
    · exact h₁.pending.zero_iff y (List.mem_singleton_self y)
    · rw [← hrefy y hy, ← hlookupy y hy]
      exact h₂.pending.zero_iff y hy
  · rcases List.mem_cons.mp hy with rfl | hy
    · exact hlookupx
    · exact h₂.lookup y hy
  · -- the free list: the rest's new entries, then `x`'s
    have hfilter : (b.filter fun y => (m.locks.lookup y.key).isNone) =
        b.filter fun y => (m'.locks.lookup y.key).isNone :=
      List.filter_congr fun y hy => by rw [hlookupy y hy]
    have hlen : c.lockEntries.length - m.lockEntries.length =
        (m'.lockEntries.length - m.lockEntries.length) +
          (c.lockEntries.length - m'.lockEntries.length) := by
      have := h₁.length_le
      have := h₂.length_le
      omega
    have hrange : List.range' m.lockEntries.length (c.lockEntries.length - m.lockEntries.length) =
        List.range' m.lockEntries.length (m'.lockEntries.length - m.lockEntries.length) ++
          List.range' m'.lockEntries.length (c.lockEntries.length - m'.lockEntries.length) := by
      rw [hlen, ← List.range'_append_1, Nat.add_sub_cancel' h₁.length_le]
    set nx := ([x].filter fun y => (m.locks.lookup y.key).isNone).map (·.locked)
    set nb := (b.filter fun y => (m'.locks.lookup y.key).isNone).map (·.locked)
    set R := List.range' m'.lockEntries.length (c.lockEntries.length - m'.lockEntries.length)
    have hsplit : ((x :: b).filter fun y => (m.locks.lookup y.key).isNone).map (·.locked) =
        nx ++ nb := by
      rw [show x :: b = [x] ++ b from rfl, List.filter_append, List.map_append, hfilter]
    have e₁ : (c.freeLockEntries ++ (nx ++ nb)).Perm ((c.freeLockEntries ++ nb) ++ nx) := by
      rw [List.append_assoc]
      exact List.Perm.append_left _ List.perm_append_comm
    have e₂ : ((m'.freeLockEntries ++ R) ++ nx).Perm ((m'.freeLockEntries ++ nx) ++ R) := by
      rw [List.append_assoc, List.append_assoc]
      exact List.Perm.append_left _ List.perm_append_comm
    rw [hsplit, hrange, ← List.append_assoc m.freeLockEntries]
    exact e₁.trans ((h₂.free.append_right nx).trans (e₂.trans (h₁.free.append_right R)))

@[simp] theorem key_reserveEntry (item : LockBatchEntry) :
    (m.reserveEntry item).2.key = item.key := rfl

@[simp] theorem intentTypes_reserveEntry (item : LockBatchEntry) :
    (m.reserveEntry item).2.intentTypes = item.intentTypes := rfl

theorem map_key_reserve : ∀ (m : SharedLockManagerImpl) (batch : List LockBatchEntry),
    (m.reserve batch).2.map (·.key) = batch.map (·.key)
  | _, [] => rfl
  | m, item :: rest => by
    simp only [reserve, List.map_cons, key_reserveEntry, map_key_reserve _ rest]

theorem map_intentTypes_reserve : ∀ (m : SharedLockManagerImpl) (batch : List LockBatchEntry),
    (m.reserve batch).2.map (·.intentTypes) = batch.map (·.intentTypes)
  | _, [] => rfl
  | m, item :: rest => by
    simp only [reserve, List.map_cons, intentTypes_reserveEntry, map_intentTypes_reserve _ rest]

theorem reserve_reserved : ∀ {m : SharedLockManagerImpl} {batch : List LockBatchEntry},
    Inv m → (batch.map (·.key)).Nodup →
    Reserved m (m.reserve batch).1 (m.reserve batch).2 ∧ Inv (m.reserve batch).1
  | m, [], hi, _ => ⟨⟨⟨fun i => by simp [reserve], by simp [reserve],
      ⟨[], by simp [reserve], by simp⟩, by simp [reserve]⟩, by simp [reserve], by simp [reserve],
      by simp [reserve]⟩, hi⟩
  | m, item :: rest, hi, hkeys => by
    obtain ⟨hres, hinv⟩ := reserve_reserved (hi.reserveEntry item) (List.nodup_cons.mp hkeys).2
    have hx : (m.reserveEntry item).2.key ∉ ((m.reserveEntry item).1.reserve rest).2.map (·.key) := by
      rw [map_key_reserve, key_reserveEntry]
      exact (List.nodup_cons.mp hkeys).1
    exact ⟨(reserveEntry_reserved hi item).cons hres hinv hx, hinv⟩

/-! What `Cleanup` does with the references `Reserve` added. -/

/-- `Cleanup` of one key whose reference is pending: the reference goes, and when the key was new
its entry is unreferenced again, so the key leaves the map and the entry goes to the free list. -/
theorem cleanupEntry_pending {c : SharedLockManagerImpl} {x : LockBatchEntry}
    {r : List LockBatchEntry} (h : Pending m c (x :: r)) (hx : x.locked ∉ r.map (·.locked)) :
    Pending m (c.cleanupEntry x) r ∧
      (c.cleanupEntry x).lockEntries.length = c.lockEntries.length ∧
      (c.cleanupEntry x).freeLockEntries = c.freeLockEntries ++
        ([x].filter fun y => (m.locks.lookup y.key).isNone).map (·.locked) := by
  have hlt := h.lt_length x (List.mem_cons_self ..)
  obtain ⟨P, hlocks, hP⟩ := h.locks
  -- after the decrement the entry has the references it had in `m`
  have hslot : ∀ i, (c.modifySlot x.locked fun s => { s with refCount := s.refCount - 1 }).slot i =
      { m.slot i with refCount := (m.slot i).refCount + (r.map (·.locked)).count i } := by
    intro i
    rw [slot_modifySlot hlt, h.slot]
    by_cases hi : i = x.locked
    · subst hi
      simp [List.count_eq_zero_of_not_mem hx]
    · simp [hi, Ne.symm hi]
  have hzero := h.zero_iff x (List.mem_cons_self ..)
  have hrefx : ((c.modifySlot x.locked fun s => { s with refCount := s.refCount - 1 }).slot
      x.locked).refCount = (m.slot x.locked).refCount := by
    simp [hslot, List.count_eq_zero_of_not_mem hx]
  have hkeys : ∀ p ∈ P, p.1 ≠ x.key → p.1 ∈ r.map (·.key) := fun p hp hne => by
    have hmem := (hP p hp).2
    rw [List.map_cons, List.mem_cons] at hmem
    exact hmem.resolve_left hne
  unfold cleanupEntry
  cases hnew : m.locks.lookup x.key with
  | none =>
    -- a new key: unreferenced again, unmapped and its entry freed
    rw [if_pos (by rw [hrefx]; exact hzero.mpr hnew)]
    have hxm : x.key ∉ m.locks.map Prod.fst := lookup_eq_none_iff_not_mem.mp hnew
    refine ⟨⟨hslot, fun y hy => ?_, ⟨P.filter (·.1 != x.key), ?_, fun p hp => ?_⟩,
      fun y hy => h.zero_iff y (List.mem_cons_of_mem _ hy)⟩, by simp, by simp [hnew]⟩
    · simpa using h.lt_length y (List.mem_cons_of_mem _ hy)
    · simp only [locks_modifySlot, hlocks, List.filter_append, filter_ne_key_of_not_mem hxm]
    · obtain ⟨hp, hpx⟩ := List.mem_filter.mp hp
      exact ⟨(hP p hp).1, hkeys p hp (by simpa using hpx)⟩
  | some v =>
    -- a key mapped before: it keeps its entry
    rw [if_neg (by rw [hrefx]; simpa [hnew] using hzero)]
    refine ⟨⟨hslot, fun y hy => ?_, ⟨P, by simpa using hlocks, fun p hp => ⟨(hP p hp).1, ?_⟩⟩,
      fun y hy => h.zero_iff y (List.mem_cons_of_mem _ hy)⟩, by simp, by simp [hnew]⟩
    · simpa using h.lt_length y (List.mem_cons_of_mem _ hy)
    · refine hkeys p hp fun hpx => ?_
      have := (hP p hp).1
      rw [hpx, hnew] at this
      exact absurd this (by simp)

/-- `Cleanup` of keys whose references are pending leaves `m`'s map and entries, and frees the
entries of the new keys in batch order. -/
theorem cleanup_pending : ∀ {c : SharedLockManagerImpl} {r : List LockBatchEntry},
    Pending m c r → (r.map (·.locked)).Nodup →
    (c.cleanup r).locks = m.locks ∧ (∀ i, (c.cleanup r).slot i = m.slot i) ∧
      (c.cleanup r).lockEntries.length = c.lockEntries.length ∧
      (c.cleanup r).freeLockEntries = c.freeLockEntries ++
        (r.filter fun x => (m.locks.lookup x.key).isNone).map (·.locked)
  | c, [], h, _ => by
    obtain ⟨P, hlocks, hP⟩ := h.locks
    have hnil : P = [] := List.eq_nil_iff_forall_not_mem.mpr fun p hp => by simpa using (hP p hp).2
    refine ⟨by rw [cleanup, List.foldl_nil, hlocks, hnil, List.nil_append], fun i => ?_, rfl, by simp [cleanup]⟩
    rw [cleanup, List.foldl_nil, h.slot]
    simp
  | c, x :: r, h, hlocked => by
    obtain ⟨hpend, hlen, hfree⟩ := cleanupEntry_pending h (List.nodup_cons.mp hlocked).1
    obtain ⟨hlocks', hslot', hlen', hfree'⟩ := cleanup_pending hpend (List.nodup_cons.mp hlocked).2
    refine ⟨hlocks', hslot', hlen'.trans hlen, ?_⟩
    rw [show c.cleanup (x :: r) = (c.cleanupEntry x).cleanup r from rfl, hfree', hfree,
      List.append_assoc, ← List.map_append, ← List.filter_append]
    rfl

theorem locked_nodup_of_lookup {c : SharedLockManagerImpl} (hvals : (c.locks.map Prod.snd).Nodup) :
    ∀ {b : List LockBatchEntry}, (∀ x ∈ b, c.locks.lookup x.key = some x.locked) →
      (b.map (·.key)).Nodup → (b.map (·.locked)).Nodup
  | [], _, _ => List.nodup_nil
  | x :: b, hlookup, hkeys => by
    refine List.nodup_cons.mpr ⟨fun hmem => ?_,
      locked_nodup_of_lookup hvals (fun y hy => hlookup y (List.mem_cons_of_mem _ hy))
        (List.nodup_cons.mp hkeys).2⟩
    obtain ⟨y, hy, hyx⟩ := List.mem_map.mp hmem
    have hxy := key_eq_of_lookup hvals (hlookup x (List.mem_cons_self ..))
      (hyx ▸ hlookup y (List.mem_cons_of_mem _ hy))
    refine (List.nodup_cons.mp hkeys).1 ?_
    show x.key ∈ b.map (·.key)
    rw [hxy]
    exact List.mem_map_of_mem hy

theorem eq_append_fresh_of_slot {c : SharedLockManagerImpl} (hs : ∀ i, c.slot i = m.slot i)
    (hle : m.lockEntries.length ≤ c.lockEntries.length) :
    c.lockEntries = m.lockEntries ++
      List.replicate (c.lockEntries.length - m.lockEntries.length) .fresh := by
  apply List.ext_getElem (by simp; omega)
  intro j hj _
  have hsj := hs j
  simp only [slot, List.getD_eq_getElem?_getD, List.getElem?_eq_getElem hj, Option.getD_some]
    at hsj
  rw [hsj]
  by_cases hjm : j < m.lockEntries.length
  · simp [List.getElem_append_left hjm, List.getElem?_eq_getElem hjm]
  · simp [List.getElem_append_right (Nat.le_of_not_lt hjm), List.getElem?_eq_none (Nat.le_of_not_lt hjm)]

/-- `m'` is `m` with fresh entries added at the end of the pool and to the free list: the same
map, the same entries with the same references and lock words, the same free entries. -/
def ExtendsWithFresh (m m' : SharedLockManagerImpl) : Prop :=
  m'.locks = m.locks ∧
  m'.lockEntries = m.lockEntries ++
    List.replicate (m'.lockEntries.length - m.lockEntries.length) .fresh ∧
  m'.freeLockEntries.Perm (m.freeLockEntries ++
    List.range' m.lockEntries.length (m'.lockEntries.length - m.lockEntries.length))

theorem cleanup_reserve (hi : Inv m) {batch : List LockBatchEntry}
    (hkeys : (batch.map (·.key)).Nodup) :
    ExtendsWithFresh m ((m.reserve batch).1.cleanup (m.reserve batch).2) := by
  obtain ⟨hres, hinv⟩ := reserve_reserved hi hkeys
  have hbkeys : ((m.reserve batch).2.map (·.key)).Nodup := by rwa [map_key_reserve]
  have hlocked := locked_nodup_of_lookup (List.nodup_append.mp hinv.entries_nodup).1
    hres.lookup hbkeys
  obtain ⟨hl, hs, hlen, hf⟩ := cleanup_pending hres.pending hlocked
  exact ⟨hl, eq_append_fresh_of_slot hs (by rw [hlen]; exact hres.length_le),
    by rw [hf, hlen]; exact hres.free⟩

/-- `SharedLockManager::Lock` of a batch of distinct keys on a manager that keeps its invariant:
when it returns false, every entry is back to its references and lock word before the call,
the keys `Reserve` mapped are unmapped again and their entries are on the free list; when it
returns true, `Unlock` of the batch it set up restores the manager the same way. -/
theorem lock_rollback_restores (hi : Inv m) {batch : List LockBatchEntry}
    (hkeys : (batch.map (·.key)).Nodup) (deadline : CoarseTimePoint) :
    (∀ m' batch', m.lock batch deadline = some (m', batch', false) → ExtendsWithFresh m m') ∧
    (∀ m' batch', m.lock batch deadline = some (m', batch', true) →
      batch'.map (·.key) = batch.map (·.key) ∧ ExtendsWithFresh m (m'.unlock batch')) := by
  have hrestore := cleanup_reserve hi hkeys
  constructor
  · intro m' batch' h
    obtain ⟨⟨m'', locked⟩, hloop, heq⟩ := Option.map_eq_some_iff.mp h
    simp only [Prod.mk.injEq] at heq
    obtain ⟨rfl, rfl, rfl⟩ := heq
    rcases lockLoop_spec rfl hloop with ⟨-, rfl⟩ | ⟨htrue, -⟩
    · exact hrestore
    · cases htrue
  · intro m' batch' h
    obtain ⟨⟨m'', locked⟩, hloop, heq⟩ := Option.map_eq_some_iff.mp h
    simp only [Prod.mk.injEq] at heq
    obtain ⟨rfl, rfl, rfl⟩ := heq
    rcases lockLoop_spec rfl hloop with ⟨hfalse, -⟩ | ⟨-, hunlock⟩
    · cases hfalse
    · refine ⟨map_key_reserve m batch, ?_⟩
      rw [unlock, ← List.append_nil (m.reserve batch).2.reverse, hunlock]
      exact hrestore

/-- A strong write lock is held on key `[1]`; a batch locking `[2]` for a weak read and then `[1]`
for a strong read times out on `[1]`, unlocks `[2]` and leaves the manager as before, with the
entry made for `[2]` on the free list. -/
theorem lock_rollback_restores_conflict :
    ∃ m' batch', SharedLockManagerImpl.lock ⟨[([1], 0)], [⟨1, ⟨kIntentTypeSetAdd 8, 0⟩⟩], []⟩
        [⟨[2], .ofNat 1, 0⟩, ⟨[1], .ofNat 4, 0⟩] ⟨0⟩ = some (m', batch', false) ∧
      ExtendsWithFresh ⟨[([1], 0)], [⟨1, ⟨kIntentTypeSetAdd 8, 0⟩⟩], []⟩ m' := by
  have hi : Inv ⟨[([1], 0)], [⟨1, ⟨kIntentTypeSetAdd 8, 0⟩⟩], []⟩ :=
    ⟨by decide, by decide, by decide, by decide, by decide⟩
  have hkeys :
      (([⟨[2], .ofNat 1, 0⟩, ⟨[1], .ofNat 4, 0⟩] : List LockBatchEntry).map (·.key)).Nodup := by
    decide
  exact ⟨_, _, rfl, (lock_rollback_restores hi hkeys ⟨0⟩).1 _ _ rfl⟩

example : (SharedLockManagerImpl.lock ⟨[([1], 0)], [⟨1, ⟨kIntentTypeSetAdd 8, 0⟩⟩], []⟩
    [⟨[2], .ofNat 1, 0⟩, ⟨[1], .ofNat 4, 0⟩] ⟨0⟩).map
      (fun r => (r.1.locks, r.1.freeLockEntries, r.1.lockEntries.map (·.refCount), r.2.2)) =
    some ([([1], 0)], [1], [1, 0], false) := by
  decide

end SharedLockManagerImpl

end FrescoDB.Docdb
