import FrescoDB.Docdb.LockManagerSpec

/-! Runs of `SharedLockManager::Impl`: any sequence of `Lock` calls and of `Unlock`s of batches it
locked, from the empty manager. Along every run the entries' references count the items of the
batches held, the map holds exactly their keys, and the invariant under which
`lock_rollback_restores` is proved holds; once every batch is unlocked the map is empty, as the
destructor's `LOG_IF(DFATAL, !locks_.empty())` expects. -/
namespace FrescoDB.Docdb

open FrescoDB.Util FrescoDB.Lib

namespace SharedLockManagerImpl

variable {m m' : SharedLockManagerImpl}

/-! What unlocking leaves: the lock words change and nothing else the invariant reads. -/

/-- The map, the free list, the size of the pool and the references of its entries agree. -/
structure SameBook (m m' : SharedLockManagerImpl) : Prop where
  locks : m'.locks = m.locks
  free : m'.freeLockEntries = m.freeLockEntries
  length : m'.lockEntries.length = m.lockEntries.length
  ref : ∀ i, (m'.slot i).refCount = (m.slot i).refCount

theorem SameBook.refl (m : SharedLockManagerImpl) : SameBook m m :=
  ⟨rfl, rfl, rfl, fun _ => rfl⟩

theorem SameBook.trans {m'' : SharedLockManagerImpl} (h : SameBook m m') (h' : SameBook m' m'') :
    SameBook m m'' :=
  ⟨h'.locks.trans h.locks, h'.free.trans h.free, h'.length.trans h.length,
    fun i => (h'.ref i).trans (h.ref i)⟩

theorem SameBook.symm (h : SameBook m m') : SameBook m' m :=
  ⟨h.locks.symm, h.free.symm, h.length.symm, fun i => (h.ref i).symm⟩

theorem modifySlot_of_length_le {i : Nat} (h : m.lockEntries.length ≤ i)
    (f : LockEntrySlot → LockEntrySlot) : m.modifySlot i f = m := by
  simp [modifySlot, List.modify_eq_self h]

theorem sameBook_modifySlot_entry (i : Nat) (f : LockEntrySlot → LockedBatchEntry) :
    SameBook m (m.modifySlot i fun s => { s with entry := f s }) := by
  by_cases hi : i < m.lockEntries.length
  · refine ⟨rfl, rfl, length_modifySlot .., fun j => ?_⟩
    rw [slot_modifySlot hi]
    split <;> rfl
  · rw [modifySlot_of_length_le (Nat.le_of_not_lt hi)]
    exact SameBook.refl m

theorem sameBook_unlockEntries : ∀ (m : SharedLockManagerImpl) (l : List LockBatchEntry),
    SameBook m (m.unlockEntries l)
  | m, [] => SameBook.refl m
  | _, item :: rest =>
    (sameBook_modifySlot_entry item.locked _).trans (sameBook_unlockEntries _ rest)

theorem sameBook_lockLoop {deadline : CoarseTimePoint} {batch : List LockBatchEntry}
    (h : lockLoop deadline batch m [] batch = some (m', true)) : SameBook m m' := by
  rcases lockLoop_spec rfl h with ⟨hfalse, -⟩ | ⟨-, hunlock⟩
  · cases hfalse
  · have hbook := sameBook_unlockEntries m' (batch.reverse ++ [])
    rw [hunlock] at hbook
    exact hbook.symm

theorem Inv.of_sameBook (hi : Inv m) (h : SameBook m m') : Inv m' where
  keys_nodup := by rw [h.locks]; exact hi.keys_nodup
  entries_nodup := by rw [h.locks, h.free]; exact hi.entries_nodup
  lt_length := by rw [h.locks, h.free, h.length]; exact hi.lt_length
  mapped_ref := fun p hp => by rw [h.ref]; exact hi.mapped_ref p (h.locks ▸ hp)
  free_ref := fun i hi' => by rw [h.ref]; exact hi.free_ref i (h.free ▸ hi')

theorem slot_of_extendsWithFresh (h : ExtendsWithFresh m m') (i : Nat) : m'.slot i = m.slot i := by
  obtain ⟨-, hentries, -⟩ := h
  unfold slot
  rw [hentries, List.getD_eq_getElem?_getD, List.getD_eq_getElem?_getD]
  by_cases hi : i < m.lockEntries.length
  · rw [List.getElem?_append_left hi]
  · rw [List.getElem?_append_right (Nat.le_of_not_lt hi), List.getElem?_replicate,
      List.getElem?_eq_none (Nat.le_of_not_lt hi)]
    split <;> rfl

theorem Inv.of_extendsWithFresh (hi : Inv m) (h : ExtendsWithFresh m m') : Inv m' := by
  have hslot := slot_of_extendsWithFresh h
  obtain ⟨hlocks, hentries, hfree⟩ := h
  set k := m'.lockEntries.length - m.lockEntries.length
  have hlen : m'.lockEntries.length = m.lockEntries.length + k := by
    rw [hentries, List.length_append, List.length_replicate]
  -- the old entries are below the old length, the new ones from it on
  have hold : ∀ i ∈ m.locks.map Prod.snd ++ m.freeLockEntries, i < m.lockEntries.length :=
    hi.lt_length
  have hperm : (m'.locks.map Prod.snd ++ m'.freeLockEntries).Perm
      ((m.locks.map Prod.snd ++ m.freeLockEntries) ++ List.range' m.lockEntries.length k) := by
    rw [hlocks, List.append_assoc]
    exact hfree.append_left _
  refine ⟨hlocks ▸ hi.keys_nodup, ?_, fun i hmem => ?_, fun p hp => ?_, fun i hmem => ?_⟩
  · refine hperm.nodup_iff.mpr (List.nodup_append.mpr ⟨hi.entries_nodup, List.nodup_range' .., ?_⟩)
    intro a ha b hb hab
    have := hold a ha
    rw [List.mem_range'_1] at hb
    omega
  · rcases List.mem_append.mp (hperm.subset hmem) with hmem | hmem
    · have := hold i hmem
      omega
    · rw [List.mem_range'_1] at hmem
      omega
  · rw [hslot]
    exact hi.mapped_ref p (hlocks ▸ hp)
  · rw [hslot]
    rcases List.mem_append.mp (hfree.subset hmem) with hmem | hmem
    · exact hi.free_ref i hmem
    · rw [List.mem_range'_1] at hmem
      simp [slot, List.getD_eq_getElem?_getD, List.getElem?_eq_none (show m.lockEntries.length ≤ i by omega),
        LockEntrySlot.fresh]

/-! The batches a manager holds. -/

/-- `m` holds the items `held` locked: it keeps its invariant, each entry is referenced once per
held item on it, each held key is mapped to its item's entry, and every mapped key is held. -/
structure Holds (m : SharedLockManagerImpl) (held : List LockBatchEntry) : Prop where
  inv : Inv m
  ref : ∀ i, (m.slot i).refCount = (held.map (·.locked)).count i
  lookup : ∀ x ∈ held, m.locks.lookup x.key = some x.locked
  covered : ∀ p ∈ m.locks, ∃ x ∈ held, x.key = p.1

theorem Holds.intro {held : List LockBatchEntry} (hkeys : (m.locks.map Prod.fst).Nodup)
    (hentries : (m.locks.map Prod.snd ++ m.freeLockEntries).Nodup)
    (hlt : ∀ i ∈ m.locks.map Prod.snd ++ m.freeLockEntries, i < m.lockEntries.length)
    (href : ∀ i, (m.slot i).refCount = (held.map (·.locked)).count i)
    (hfree : ∀ i ∈ m.freeLockEntries, (m.slot i).refCount = 0)
    (hlookup : ∀ x ∈ held, m.locks.lookup x.key = some x.locked)
    (hcovered : ∀ p ∈ m.locks, ∃ x ∈ held, x.key = p.1) : Holds m held := by
  refine ⟨⟨hkeys, hentries, hlt, fun p hp => ?_, hfree⟩, href, hlookup, hcovered⟩
  -- a mapped entry is the entry of the held item with its key
  obtain ⟨x, hx, hxp⟩ := hcovered p hp
  have hsome : m.locks.lookup x.key = some p.2 := by
    rw [hxp]
    exact lookup_eq_some_of_mem hkeys hp
  rw [hlookup x hx, Option.some.injEq] at hsome
  rw [href, ← hsome]
  exact Nat.pos_iff_ne_zero.mp (List.count_pos_iff.mpr (List.mem_map_of_mem hx))

theorem Holds.of_sameBook {held : List LockBatchEntry} (h : Holds m held) (hb : SameBook m m') :
    Holds m' held where
  inv := h.inv.of_sameBook hb
  ref := fun i => by rw [hb.ref]; exact h.ref i
  lookup := fun x hx => by rw [hb.locks]; exact h.lookup x hx
  covered := fun p hp => h.covered p (hb.locks ▸ hp)

theorem Holds.perm {held held' : List LockBatchEntry} (h : Holds m held) (hp : held.Perm held') :
    Holds m held' where
  inv := h.inv
  ref := fun i => by rw [h.ref, (hp.map _).count_eq]
  lookup := fun x hx => h.lookup x (hp.symm.subset hx)
  covered := fun p hq => by
    obtain ⟨x, hx, hxp⟩ := h.covered p hq
    exact ⟨x, hp.subset hx, hxp⟩

/-! `Cleanup` drops the references of the items it is given. -/

section Cleanup

variable {c : SharedLockManagerImpl} {G r : List LockBatchEntry} {x : LockBatchEntry}

theorem count_locked_cons (G r : List LockBatchEntry) (x : LockBatchEntry) (i : Nat) :
    ((G ++ x :: r).map (·.locked)).count i =
      ((G ++ r).map (·.locked)).count i + if x.locked = i then 1 else 0 := by
  simp only [List.map_append, List.map_cons, List.count_append, List.count_cons, beq_iff_eq]
  omega

theorem ref_decrement (h : Holds c (G ++ x :: r)) (hlt : x.locked < c.lockEntries.length)
    (i : Nat) :
    ((c.modifySlot x.locked fun s => { s with refCount := s.refCount - 1 }).slot i).refCount =
      ((G ++ r).map (·.locked)).count i := by
  rw [slot_modifySlot hlt]
  by_cases hi : i = x.locked
  · subst hi
    rw [if_pos rfl, h.ref, count_locked_cons, if_pos rfl]
    rfl
  · rw [if_neg hi, h.ref, count_locked_cons, if_neg (Ne.symm hi), Nat.add_zero]

theorem count_eq_zero_of_free (h : Holds c (G ++ x :: r)) {i : Nat} (hi : i ∈ c.freeLockEntries) :
    ((G ++ r).map (·.locked)).count i = 0 := by
  have hzero := h.inv.free_ref i hi
  rw [h.ref, count_locked_cons] at hzero
  omega

theorem cleanupEntry_holds (h : Holds c (G ++ x :: r)) : Holds (c.cleanupEntry x) (G ++ r) := by
  have hx : x ∈ G ++ x :: r := by simp
  have hlx := h.lookup x hx
  have hpx : (x.key, x.locked) ∈ c.locks := mem_of_lookup_eq_some hlx
  have hlt : x.locked < c.lockEntries.length :=
    h.inv.lt_length _ (List.mem_append_left _ (List.mem_map_of_mem hpx))
  have hvals := (List.nodup_append.mp h.inv.entries_nodup).1
  have hleft : ∀ y ∈ G ++ r, y ∈ G ++ x :: r := fun y hy => by
    rcases List.mem_append.mp hy with hy | hy <;> simp [hy]
  simp only [cleanupEntry]
  split
  · rename_i hzero
    -- the last reference went: no item left is on the entry, nor has the key
    rw [ref_decrement h hlt] at hzero
    have hgone : x.locked ∉ (G ++ r).map (·.locked) := List.count_eq_zero.mp hzero
    have hne : ∀ y ∈ G ++ r, y.key ≠ x.key := fun y hy hyx => by
      have hly := h.lookup y (hleft y hy)
      rw [hyx, hlx, Option.some.injEq] at hly
      exact hgone (hly ▸ List.mem_map_of_mem hy)
    have hperm : (c.locks.map Prod.snd).Perm
        (x.locked :: (c.locks.filter fun e => e.1 != x.key).map Prod.snd) := by
      simpa using (perm_cons_filter_ne_key h.inv.keys_nodup hpx).map Prod.snd
    refine Holds.intro ?_ ?_ (fun i hi => ?_) (ref_decrement h hlt) (fun i hi => ?_) (fun y hy => ?_)
      (fun p hp => ?_)
    · exact h.inv.keys_nodup.sublist (List.filter_sublist.map Prod.fst)
    · -- the freed entry moves from the map's values to the back of the free list
      have hmove : ((c.locks.filter fun e => e.1 != x.key).map Prod.snd ++
          (c.freeLockEntries ++ [x.locked])).Perm (c.locks.map Prod.snd ++ c.freeLockEntries) :=
        ((List.perm_append_singleton _ _).append_left _).trans
          (List.perm_middle.trans (hperm.append_right _).symm)
      exact hmove.nodup_iff.mpr h.inv.entries_nodup
    · simp only [length_modifySlot]
      rcases List.mem_append.mp hi with hi | hi
      · exact h.inv.lt_length i (List.mem_append_left _ (hperm.symm.subset (List.mem_cons_of_mem _ hi)))
      · rcases List.mem_append.mp hi with hi | hi
        · exact h.inv.lt_length i (List.mem_append_right _ hi)
        · rw [List.mem_singleton.mp hi]
          exact hlt
    · simp only [freeLockEntries_modifySlot, List.mem_append, List.mem_singleton] at hi
      show ((c.modifySlot x.locked fun s => { s with refCount := s.refCount - 1 }).slot i).refCount = 0
      rw [ref_decrement h hlt]
      rcases hi with hi | rfl
      · exact count_eq_zero_of_free h hi
      · exact hzero
    · show (c.locks.filter fun e => e.1 != x.key).lookup y.key = some y.locked
      rw [lookup_filter_ne_key (hne y hy)]
      exact h.lookup y (hleft y hy)
    · obtain ⟨hp, hpx⟩ := List.mem_filter.mp hp
      obtain ⟨y, hy, hyp⟩ := h.covered p hp
      rcases List.mem_append.mp hy with hy | hy
      · exact ⟨y, List.mem_append_left _ hy, hyp⟩
      · rcases List.mem_cons.mp hy with rfl | hy
        · simp [hyp] at hpx
        · exact ⟨y, List.mem_append_right _ hy, hyp⟩
  · rename_i hpos
    -- references remain: another item left is on the entry, so the key stays held
    rw [ref_decrement h hlt] at hpos
    obtain ⟨y', hy', hy'x⟩ := List.mem_map.mp (List.count_pos_iff.mp (Nat.pos_of_ne_zero hpos))
    have hkey : y'.key = x.key := key_eq_of_lookup hvals (hy'x ▸ h.lookup y' (hleft y' hy')) hlx
    refine Holds.intro h.inv.keys_nodup h.inv.entries_nodup (by simpa using h.inv.lt_length)
      (ref_decrement h hlt) (fun i hi => ?_) (fun y hy => h.lookup y (hleft y hy)) (fun p hp => ?_)
    · rw [ref_decrement h hlt]
      exact count_eq_zero_of_free h hi
    · obtain ⟨y, hy, hyp⟩ := h.covered p hp
      rcases List.mem_append.mp hy with hy | hy
      · exact ⟨y, List.mem_append_left _ hy, hyp⟩
      · rcases List.mem_cons.mp hy with rfl | hy
        · exact ⟨y', hy', hkey.trans hyp⟩
        · exact ⟨y, List.mem_append_right _ hy, hyp⟩

theorem cleanup_holds : ∀ {c : SharedLockManagerImpl} {r : List LockBatchEntry},
    Holds c (G ++ r) → Holds (c.cleanup r) G
  | c, [], h => by simpa [cleanup] using h
  | c, x :: r, h => cleanup_holds (c := c.cleanupEntry x) (cleanupEntry_holds h)

end Cleanup

/-! `Lock` and `Unlock` on a manager that holds some batches. -/

variable {held : List LockBatchEntry}

theorem Holds.unlock {b : List LockBatchEntry} (h : Holds m (b ++ held)) :
    Holds (m.unlock b) held := by
  have hbook := h.of_sameBook (sameBook_unlockEntries m b.reverse)
  exact cleanup_holds (hbook.perm List.perm_append_comm)

theorem Holds.reserve (h : Holds m held) {batch : List LockBatchEntry}
    (hkeys : (batch.map (·.key)).Nodup) :
    Holds (m.reserve batch).1 ((m.reserve batch).2 ++ held) := by
  obtain ⟨hres, hinv⟩ := reserve_reserved h.inv hkeys
  obtain ⟨P, hlocks, hP⟩ := hres.pending.locks
  -- a held key is mapped already, so it is not among the keys `Reserve` added
  have hheld : ∀ x ∈ held, x.key ∉ P.map Prod.fst := fun x hx hmem => by
    obtain ⟨p, hp, hpx⟩ := List.mem_map.mp hmem
    have := (hP p hp).1
    rw [hpx, h.lookup x hx] at this
    cases this
  refine ⟨hinv, fun i => ?_, fun x hx => ?_, fun p hp => ?_⟩
  · rw [hres.pending.slot, h.ref, List.map_append, List.count_append]
    simp only
    omega
  · rcases List.mem_append.mp hx with hx | hx
    · exact hres.lookup x hx
    · rw [hlocks, lookup_append_of_not_mem (hheld x hx)]
      exact h.lookup x hx
  · rw [hlocks] at hp
    rcases List.mem_append.mp hp with hp | hp
    · obtain ⟨x, hx, hxp⟩ := List.mem_map.mp (hP p hp).2
      exact ⟨x, List.mem_append_left _ hx, hxp⟩
    · obtain ⟨x, hx, hxp⟩ := h.covered p hp
      exact ⟨x, List.mem_append_right _ hx, hxp⟩

theorem Holds.lock_false (h : Holds m held) {batch : List LockBatchEntry}
    (hkeys : (batch.map (·.key)).Nodup) {deadline : CoarseTimePoint} {m' : SharedLockManagerImpl}
    {batch' : List LockBatchEntry} (hlock : m.lock batch deadline = some (m', batch', false)) :
    Holds m' held := by
  have hext := (lock_rollback_restores h.inv hkeys deadline).1 m' batch' hlock
  have hslot := slot_of_extendsWithFresh hext
  have hlocks : m'.locks = m.locks := hext.1
  refine ⟨h.inv.of_extendsWithFresh hext, fun i => by rw [hslot]; exact h.ref i,
    fun x hx => by rw [hlocks]; exact h.lookup x hx, fun p hp => h.covered p (hlocks ▸ hp)⟩

theorem Holds.lock_true (h : Holds m held) {batch : List LockBatchEntry}
    (hkeys : (batch.map (·.key)).Nodup) {deadline : CoarseTimePoint} {m' : SharedLockManagerImpl}
    {batch' : List LockBatchEntry} (hlock : m.lock batch deadline = some (m', batch', true)) :
    Holds m' (batch' ++ held) := by
  obtain ⟨⟨m'', locked⟩, hloop, heq⟩ := Option.map_eq_some_iff.mp hlock
  simp only [Prod.mk.injEq] at heq
  obtain ⟨rfl, rfl, rfl⟩ := heq
  exact (h.reserve hkeys).of_sameBook (sameBook_lockLoop hloop)

/-! Runs from the empty manager. -/

/-- `SharedLockManager::Impl()`: no key, no entry. -/
def empty : SharedLockManagerImpl := ⟨[], [], []⟩

/-- The managers a run reaches, with the batches it holds locked: a `Lock` of a batch of
distinct keys that fails, or that succeeds and holds the batch it set up, and an `Unlock` of a
batch held. -/
inductive Reachable : SharedLockManagerImpl → List (List LockBatchEntry) → Prop
  | empty : Reachable empty []
  | lockFailed {m m' : SharedLockManagerImpl} {held : List (List LockBatchEntry)}
      {batch batch' : List LockBatchEntry} {deadline : CoarseTimePoint} :
      Reachable m held → (batch.map (·.key)).Nodup →
      m.lock batch deadline = some (m', batch', false) → Reachable m' held
  | lockSucceeded {m m' : SharedLockManagerImpl} {held : List (List LockBatchEntry)}
      {batch batch' : List LockBatchEntry} {deadline : CoarseTimePoint} :
      Reachable m held → (batch.map (·.key)).Nodup →
      m.lock batch deadline = some (m', batch', true) → Reachable m' (batch' :: held)
  | unlock {m : SharedLockManagerImpl} {pre post : List (List LockBatchEntry)}
      {b : List LockBatchEntry} :
      Reachable m (pre ++ b :: post) → Reachable (m.unlock b) (pre ++ post)

theorem holds_empty : Holds empty [] :=
  Holds.intro (by simp [empty]) (by simp [empty]) (by simp [empty])
    (fun i => by simp [empty, slot, LockEntrySlot.fresh]) (by simp [empty]) (by simp)
    (by simp [empty])

theorem Reachable.holds {held : List (List LockBatchEntry)} (h : Reachable m held) :
    Holds m held.flatten := by
  induction h with
  | empty => exact holds_empty
  | lockFailed _ hkeys hlock ih => exact ih.lock_false hkeys hlock
  | lockSucceeded _ hkeys hlock ih => exact ih.lock_true hkeys hlock
  | unlock _ ih =>
    rename_i pre post b _
    -- the batch unlocked is moved to the front of the items held
    have hperm : (pre ++ b :: post).flatten.Perm (b ++ (pre ++ post).flatten) := by
      simpa only [List.flatten_append, List.flatten_cons] using
        List.perm_append_comm_assoc pre.flatten b post.flatten
    exact (ih.perm hperm).unlock

/-- Every manager a run reaches keeps the invariant: the hypothesis of `lock_rollback_restores`
holds of every state of the lock manager. -/
theorem Reachable.inv {held : List (List LockBatchEntry)} (h : Reachable m held) : Inv m :=
  h.holds.inv

theorem Reachable.mem_locks_iff {held : List (List LockBatchEntry)} (h : Reachable m held)
    (key : List UInt8) : key ∈ m.locks.map Prod.fst ↔ ∃ b ∈ held, ∃ x ∈ b, x.key = key := by
  have hh := h.holds
  constructor
  · intro hk
    obtain ⟨p, hp, rfl⟩ := List.mem_map.mp hk
    obtain ⟨x, hx, hxp⟩ := hh.covered p hp
    obtain ⟨b, hb, hxb⟩ := List.mem_flatten.mp hx
    exact ⟨b, hb, x, hxb, hxp⟩
  · rintro ⟨b, hb, x, hx, rfl⟩
    exact List.mem_map_of_mem (mem_of_lookup_eq_some (hh.lookup x (List.mem_flatten.mpr ⟨b, hb, hx⟩)))

theorem Reachable.locks_eq_nil (h : Reachable m []) : m.locks = [] := by
  apply List.eq_nil_iff_forall_not_mem.mpr
  intro p hp
  obtain ⟨x, hx, -⟩ := h.holds.covered p hp
  simp at hx

end SharedLockManagerImpl

end FrescoDB.Docdb
