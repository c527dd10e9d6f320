import FrescoDB.Docdb.KeysToLock
import FrescoDB.Lib.ExceptStep

/-! What the lock batch of a write holds. `ApplyIntent` appends its key without the group ends at
its end; so every doc path of every operation is locked strongly, and weakly each prefix that
`DecodePrefixLengths` finds before its end and the empty key on a transactional table.
`FilterKeysToLock` leaves the keys strictly increasing, each key of the batch once, with the
union of the intent types the batch had for it. -/
namespace FrescoDB.Docdb

open FrescoDB.Util FrescoDB.Lib

/-! `ApplyIntent`. -/

theorem take_trimGroupEnd (key : List UInt8) : ∀ n, n ≤ key.length →
    key.take (trimGroupEnd key n) = (key.take n).rdropWhile (· == ValueType.kGroupEnd.toByte)
  | 0, _ => by simp [trimGroupEnd]
  | n + 1, hn => by
    have hlt : n < key.length := hn
    have htake : key.take (n + 1) = key.take n ++ [key[n]] := by
      rw [List.take_add_one, List.getElem?_eq_getElem hlt, Option.toList_some]
    rw [trimGroupEnd, htake, List.rdropWhile_concat, List.getElem?_eq_getElem hlt]
    by_cases hg : key[n] = ValueType.kGroupEnd.toByte
    · rw [if_pos (by rw [hg]), if_pos (by simp [hg])]
      exact take_trimGroupEnd key n (by omega)
    · rw [if_neg (by simpa using hg), if_neg (by simpa using hg), htake]

/-- `ApplyIntent` refuses a key that starts with a group end and goes on, and otherwise appends
the key without the group ends at its end. -/
theorem applyIntent_eq (key : List UInt8) (s : IntentTypeSet) (b : List LockBatchEntry) :
    applyIntent key s b =
      if key.head? = some ValueType.kGroupEnd.toByte ∧ key.length ≠ 1 then
        .error ⟨.kCorruption, "Key starting with group end: " ++ toDebugHexString key⟩
      else .ok (b ++ [⟨key.rdropWhile (· == ValueType.kGroupEnd.toByte), s, 0⟩]) := by
  cases key with
  | nil => simp [applyIntent]
  | cons c rest =>
    by_cases hc : c = ValueType.kGroupEnd.toByte
    · cases rest with
      | nil => simp [applyIntent, hc, List.rdropWhile]
      | cons c' rest =>
        simp [applyIntent, hc, bind, Except.bind, throw, throwThe, MonadExceptOf.throw]
    · have htrim : (c :: rest).take (trimGroupEnd (c :: rest) (rest.length + 1)) =
          (c :: rest).rdropWhile (· == ValueType.kGroupEnd.toByte) := by
        simpa using take_trimGroupEnd (c :: rest) (c :: rest).length le_rfl
      simp [applyIntent, hc, htrim]

theorem applyIntent_ok {key : List UInt8} {s : IntentTypeSet} {b b' : List LockBatchEntry}
    (h : applyIntent key s b = .ok b') :
    b <+: b' ∧ ⟨key.rdropWhile (· == ValueType.kGroupEnd.toByte), s, 0⟩ ∈ b' := by
  rw [applyIntent_eq] at h
  split at h
  · cases h
  · cases h
    exact ⟨List.prefix_append _ _, by simp⟩

/-! `DetermineKeysToLock`. -/

/-- What a lock batch holds for a doc path locked with the strong intent types `s`: the path's
prefix lengths decode, and the batch locks the path strongly, each prefix before its end weakly,
and on a transactional table the empty key weakly; every key without its trailing group ends. -/
def LocksDocPath (d : KeyDecoders) (transactionalTable : Bool) (s : IntentTypeSet)
    (lockBatch : List LockBatchEntry) (docPath : List UInt8) : Prop :=
  ∃ keyPrefixLengths, d.decodePrefixLengths docPath = .ok keyPrefixLengths ∧
    keyPrefixLengths ≠ [] ∧
    ⟨docPath.rdropWhile (· == ValueType.kGroupEnd.toByte), s, 0⟩ ∈ lockBatch ∧
    (∀ l ∈ keyPrefixLengths.dropLast,
      ⟨(docPath.take l).rdropWhile (· == ValueType.kGroupEnd.toByte), strongToWeak s, 0⟩ ∈
        lockBatch) ∧
    (transactionalTable = true → docPath ≠ [] → ⟨[], strongToWeak s, 0⟩ ∈ lockBatch)

variable {d : KeyDecoders} {transactionalTable : Bool}

theorem LocksDocPath.mono {s : IntentTypeSet} {b b' : List LockBatchEntry} {p : List UInt8}
    (h : LocksDocPath d transactionalTable s b p) (hb : b <+: b') :
    LocksDocPath d transactionalTable s b' p := by
  obtain ⟨lens, hdec, hne, hstrong, hweak, hempty⟩ := h
  exact ⟨lens, hdec, hne, hb.subset hstrong, fun l hl => hb.subset (hweak l hl),
    fun ht hp => hb.subset (hempty ht hp)⟩

/-- A fold whose steps each append to the batch and leave a fact about their item that appending
keeps. -/
theorem foldlM_batch {β : Type} {Q : β → List LockBatchEntry → Prop}
    (hmono : ∀ x {b b' : List LockBatchEntry}, b <+: b' → Q x b → Q x b')
    {f : List LockBatchEntry → β → Except Status (List LockBatchEntry)}
    (hf : ∀ b x b', f b x = .ok b' → b <+: b' ∧ Q x b') {xs : List β}
    {b b' : List LockBatchEntry} (h : xs.foldlM f b = .ok b') : b <+: b' ∧ ∀ x ∈ xs, Q x b' :=
  @foldlM_ok_forall Status β (List LockBatchEntry) (· <+: ·) Q (fun h₁ h₂ => h₁.trans h₂)
    List.prefix_refl hmono f hf xs b b' h

theorem lockPrefixes_ok {s : IntentTypeSet} {p : List UInt8} {lens : List Nat}
    {b b' : List LockBatchEntry}
    (h : (lens.foldlM (fun lockBatch prefixLength =>
      applyIntent (p.take prefixLength) (strongToWeak s) lockBatch) b >>= fun lockBatch =>
        applyIntent p s lockBatch) = .ok b') :
    b <+: b' ∧ ⟨p.rdropWhile (· == ValueType.kGroupEnd.toByte), s, 0⟩ ∈ b' ∧
      ∀ l ∈ lens,
        ⟨(p.take l).rdropWhile (· == ValueType.kGroupEnd.toByte), strongToWeak s, 0⟩ ∈ b' := by
  obtain ⟨b₁, h₁, h₂⟩ := except_bind_eq_ok.mp h
  obtain ⟨hpre₁, hweak⟩ := @foldlM_batch Nat
    (fun l lockBatch => ⟨(p.take l).rdropWhile (· == ValueType.kGroupEnd.toByte),
      strongToWeak s, 0⟩ ∈ lockBatch)
    (fun _ _ _ hpre hmem => hpre.subset hmem) _ (fun _ _ _ hx => applyIntent_ok hx) _ _ _ h₁
  obtain ⟨hpre₂, hstrong⟩ := applyIntent_ok h₂
  exact ⟨hpre₁.trans hpre₂, hstrong, fun l hl => hpre₂.subset (hweak l hl)⟩

theorem lockDocPath_ok {s : IntentTypeSet} {b b' : List LockBatchEntry} {p : List UInt8}
    (h : lockDocPath d transactionalTable s b p = .ok b') :
    b <+: b' ∧ LocksDocPath d transactionalTable s b' p := by
  simp only [lockDocPath] at h
  obtain ⟨lens, hdec, h⟩ := except_bind_eq_ok.mp h
  -- an empty decoding is refused
  have hne : lens ≠ [] := by
    rintro rfl
    simp [bind, Except.bind, throw, throwThe, MonadExceptOf.throw] at h
  rw [if_neg (by simpa using hne)] at h
  split at h
  · -- a transactional table: the empty key first
    obtain ⟨b₁, h₁, h⟩ := except_bind_eq_ok.mp h
    obtain ⟨hpre₁, hmem₁⟩ := applyIntent_ok h₁
    obtain ⟨hpre, hstrong, hweak⟩ := lockPrefixes_ok h
    exact ⟨hpre₁.trans hpre, lens, hdec, hne, hstrong, hweak,
      fun _ _ => hpre.subset (by simpa using hmem₁)⟩
  · rename_i hc
    rw [except_pure_eq, except_ok_bind] at h
    obtain ⟨hpre, hstrong, hweak⟩ := lockPrefixes_ok h
    refine ⟨hpre, lens, hdec, hne, hstrong, hweak, fun ht hp => absurd ?_ hc⟩
    simp [ht, List.length_pos_iff.mpr hp]

variable {isolationLevel : IsolationLevel} {operationKind : OperationKind}

theorem lockDocOperation_ok {r r' : DetermineKeysToLockResult} {docOp : DocOperation}
    (h : lockDocOperation d isolationLevel operationKind transactionalTable r docOp = .ok r') :
    r.lockBatch <+: r'.lockBatch ∧ ∀ docPaths level, docOp.getDocPaths = .ok (docPaths, level) →
      ∀ p ∈ docPaths, LocksDocPath d transactionalTable
        (strongIntentTypesOf isolationLevel operationKind docOp level) r'.lockBatch p := by
  simp only [lockDocOperation] at h
  obtain ⟨⟨docPaths, level⟩, hget, h⟩ := except_bind_eq_ok.mp h
  obtain ⟨lockBatch, hfold, hr⟩ := except_bind_eq_ok.mp h
  cases hr
  obtain ⟨hpre, hpaths⟩ := @foldlM_batch (List UInt8)
    (fun p lockBatch => LocksDocPath d transactionalTable
      (strongIntentTypesOf isolationLevel operationKind docOp level) lockBatch p)
    (fun _ _ _ hpre hq => hq.mono hpre) _ (fun _ _ _ hx => lockDocPath_ok hx) _ _ _ hfold
  refine ⟨hpre, fun docPaths' level' hget' => ?_⟩
  rw [hget, Except.ok.injEq, Prod.mk.injEq] at hget'
  obtain ⟨rfl, rfl⟩ := hget'
  exact hpaths

theorem determineKeysToLock_ok {docWriteOps : List DocOperation}
    {readIntents : List (IntentStrength × List UInt8)} {result : DetermineKeysToLockResult}
    (h : determineKeysToLock d docWriteOps readIntents isolationLevel operationKind
      transactionalTable = .ok result) :
    ∀ docOp ∈ docWriteOps, ∀ docPaths level, docOp.getDocPaths = .ok (docPaths, level) →
      ∀ p ∈ docPaths, LocksDocPath d transactionalTable
        (strongIntentTypesOf isolationLevel operationKind docOp level) result.lockBatch p := by
  simp only [determineKeysToLock] at h
  obtain ⟨r, hops, h⟩ := except_bind_eq_ok.mp h
  obtain ⟨lockBatch, hreads, hres⟩ := except_bind_eq_ok.mp h
  cases hres
  -- along the operations the batch only grows, and each operation locks its paths
  obtain ⟨-, hlocked⟩ := @foldlM_ok_forall Status DocOperation DetermineKeysToLockResult
    (fun r r' => r.lockBatch <+: r'.lockBatch)
    (fun docOp r => ∀ docPaths level, docOp.getDocPaths = .ok (docPaths, level) →
      ∀ p ∈ docPaths, LocksDocPath d transactionalTable
        (strongIntentTypesOf isolationLevel operationKind docOp level) r.lockBatch p)
    (fun h₁ h₂ => h₁.trans h₂) (fun r => List.prefix_refl r.lockBatch)
    (fun _ _ _ hpre hq docPaths level hget p hp => (hq docPaths level hget p hp).mono hpre) _
    (fun _ _ _ hx => lockDocOperation_ok hx) docWriteOps _ _ hops
  -- the read pairs only append
  obtain ⟨hpre, -⟩ := @foldlM_batch (IntentStrength × List UInt8) (fun _ _ => True)
    (fun _ _ _ _ _ => trivial) _ (fun _ _ _ hx => ⟨(applyIntent_ok hx).1, trivial⟩) _ _ _ hreads
  intro docOp hop docPaths level hget p hp
  exact (hlocked docOp hop docPaths level hget p hp).mono hpre

/-! `FilterKeysToLock`. -/

theorem sorted_insertionSort_key (keysLocked : List LockBatchEntry) :
    ((keysLocked.insertionSort fun lhs rhs => compare lhs.key rhs.key ≠ .gt).map (·.key)).Pairwise
      fun a b => compare a b ≠ .gt := by
  have : Std.Total fun lhs rhs : LockBatchEntry => compare lhs.key rhs.key ≠ .gt := by
    refine ⟨fun a b => ?_⟩
    by_cases hab : compare a.key b.key = .gt
    · exact .inr (by rw [Std.OrientedCmp.gt_iff_lt.mp hab]; decide)
    · exact .inl hab
  have : IsTrans LockBatchEntry fun lhs rhs => compare lhs.key rhs.key ≠ .gt :=
    ⟨fun _ _ _ => Std.TransCmp.le_trans⟩
  exact List.pairwise_map.mpr (List.pairwise_insertionSort _ keysLocked)

theorem key_mergeIntentTypes (w it : LockBatchEntry) : (mergeIntentTypes w it).key = w.key := rfl

theorem test_mergeIntentTypes (t : IntentType) (w it : LockBatchEntry) :
    (mergeIntentTypes w it).intentTypes.test t = true ↔
      w.intentTypes.test t = true ∨ it.intentTypes.test t = true := by
  simp [mergeIntentTypes]

/-- `FilterKeysToLock` leaves the keys strictly increasing, exactly the keys of the batch, and for
each the union of the intent types the batch had for it. -/
theorem filterKeysToLock_spec (keysLocked : List LockBatchEntry) :
    ((filterKeysToLock keysLocked).map (·.key)).Pairwise (fun a b => compare a b = .lt) ∧
    (∀ k, k ∈ (filterKeysToLock keysLocked).map (·.key) ↔ k ∈ keysLocked.map (·.key)) ∧
    ∀ x ∈ filterKeysToLock keysLocked, ∀ t, x.intentTypes.test t = true ↔
      ∃ y ∈ keysLocked, y.key = x.key ∧ y.intentTypes.test t = true := by
  have hsorted := sorted_insertionSort_key keysLocked
  have hperm := List.perm_insertionSort (fun lhs rhs : LockBatchEntry =>
    compare lhs.key rhs.key ≠ .gt) keysLocked
  unfold filterKeysToLock
  split
  · rename_i hnil
    rw [hnil, List.nil_perm] at hperm
    subst hperm
    simp
  · rename_i w rest hcons
    rw [hcons] at hsorted hperm
    refine ⟨pairwise_coalesce key_mergeIntentTypes w rest hsorted, fun k => ?_, fun x hx t => ?_⟩
    · rw [mem_map_key_coalesce key_mergeIntentTypes w rest k]
      exact (hperm.map _).mem_iff
    · rw [coalesce_iff key_mergeIntentTypes (fun e => e.intentTypes.test t = true)
        (test_mergeIntentTypes t) w rest hsorted x hx]
      simp only [hperm.mem_iff]

/-- `FilterKeysToLock` leaves the keys strictly increasing, each key of the batch exactly once, with
the union of the intent types the batch had for it; `DetermineKeysToLock` locks every doc path of
every operation strongly, each prefix `DecodePrefixLengths` finds before its end weakly, and on a
transactional table the empty key weakly, every key without its trailing group ends. -/
theorem keysToLock_spec :
    (∀ keysLocked : List LockBatchEntry,
      ((filterKeysToLock keysLocked).map (·.key)).Pairwise (fun a b => compare a b = .lt) ∧
      (∀ k ∈ keysLocked.map (·.key), ((filterKeysToLock keysLocked).map (·.key)).count k = 1) ∧
      (∀ k ∈ (filterKeysToLock keysLocked).map (·.key), k ∈ keysLocked.map (·.key)) ∧
      ∀ x ∈ filterKeysToLock keysLocked, ∀ t, x.intentTypes.test t = true ↔
        ∃ y ∈ keysLocked, y.key = x.key ∧ y.intentTypes.test t = true) ∧
    (∀ (d : KeyDecoders) docWriteOps readIntents isolationLevel operationKind transactionalTable
      result, determineKeysToLock d docWriteOps readIntents isolationLevel operationKind
        transactionalTable = .ok result →
      ∀ docOp ∈ docWriteOps, ∀ docPaths level, docOp.getDocPaths = .ok (docPaths, level) →
      ∀ docPath ∈ docPaths, ∃ keyPrefixLengths,
        d.decodePrefixLengths docPath = .ok keyPrefixLengths ∧ keyPrefixLengths ≠ [] ∧
        ⟨docPath.rdropWhile (· == ValueType.kGroupEnd.toByte),
          strongIntentTypesOf isolationLevel operationKind docOp level, 0⟩ ∈ result.lockBatch ∧
        (∀ l ∈ keyPrefixLengths.dropLast,
          ⟨(docPath.take l).rdropWhile (· == ValueType.kGroupEnd.toByte),
            strongToWeak (strongIntentTypesOf isolationLevel operationKind docOp level), 0⟩ ∈
              result.lockBatch) ∧
        (transactionalTable = true → docPath ≠ [] →
          ⟨[], strongToWeak (strongIntentTypesOf isolationLevel operationKind docOp level), 0⟩ ∈
            result.lockBatch)) := by
  refine ⟨fun keysLocked => ?_, fun d _ _ _ _ _ _ h => determineKeysToLock_ok h⟩
  obtain ⟨hlt, hmem, hunion⟩ := filterKeysToLock_spec keysLocked
  -- strictly increasing keys are distinct, so each key is there once
  have hnodup : ((filterKeysToLock keysLocked).map (·.key)).Nodup :=
    hlt.imp fun hab heq => by
      subst heq
      simp at hab
  exact ⟨hlt, fun k hk => List.count_eq_one_of_mem hnodup ((hmem k).mpr hk),
    fun k hk => (hmem k).mp hk, hunion⟩

/-- Decoders for keys whose components are values without payload (`kNull`, `kTrue`, ...): a
component is one byte. -/
def oneByteKeyDecoders : KeyDecoders where
  hashedPartSize _ := .ok 0
  consumePrimitiveValueFromKey
    | [] => .error ⟨.kCorruption, "Unexpected end of key when decoding document key"⟩
    | b :: rest => if b = ValueType.kGroupEnd.toByte then .ok (false, rest) else .ok (true, rest)
  decodeSubkey
    | [] => .ok (false, [])
    | b :: rest =>
      if b = ValueType.kHybridTime.toByte then .ok (false, b :: rest) else .ok (true, rest)
  consume_lt {slice _ _} h := by
    cases slice with
    | nil => cases h
    | cons c slice =>
      simp only at h
      split at h <;> (cases h; simp)
  decodeSubkey_lt {slice _} h := by
    cases slice with
    | nil => cases h
    | cons c slice =>
      simp only at h
      split at h
      · cases h
      · cases h
        simp

/-- A snapshot write of the doc path `null, group end, null` on a transactional table locks the
empty key and the range group `null` weakly and the path strongly. -/
theorem keysToLock_spec_snapshot_write :
    let docOp : DocOperation := ⟨.ok ([[36, 33, 36]], .SNAPSHOT_ISOLATION), false⟩
    let strong := strongIntentTypesOf .SNAPSHOT_ISOLATION .kWrite docOp .SNAPSHOT_ISOLATION
    let result : DetermineKeysToLockResult :=
      ⟨[⟨[], .ofNat 3, 0⟩, ⟨[36], .ofNat 3, 0⟩, ⟨[36, 33, 36], .ofNat 12, 0⟩], false⟩
    determineKeysToLock oneByteKeyDecoders [docOp] [] .SNAPSHOT_ISOLATION .kWrite true =
      .ok result ∧
    ∃ keyPrefixLengths,
      oneByteKeyDecoders.decodePrefixLengths [36, 33, 36] = .ok keyPrefixLengths ∧
      keyPrefixLengths ≠ [] ∧
      ⟨[36, 33, 36].rdropWhile (· == ValueType.kGroupEnd.toByte), strong, 0⟩ ∈ result.lockBatch ∧
      (∀ l ∈ keyPrefixLengths.dropLast,
        ⟨([36, 33, 36].take l).rdropWhile (· == ValueType.kGroupEnd.toByte), strongToWeak strong,
          0⟩ ∈ result.lockBatch) ∧
      (true = true → ([36, 33, 36] : List UInt8) ≠ [] →
        ⟨[], strongToWeak strong, 0⟩ ∈ result.lockBatch) := by
  intro docOp strong result
  have h : determineKeysToLock oneByteKeyDecoders [docOp] [] .SNAPSHOT_ISOLATION .kWrite true =
      .ok result := by
    decide +kernel
  exact ⟨h, keysToLock_spec.2 _ _ _ _ _ _ _ h docOp (List.mem_singleton_self _) _ _ rfl _
    (List.mem_singleton_self _)⟩

end FrescoDB.Docdb
