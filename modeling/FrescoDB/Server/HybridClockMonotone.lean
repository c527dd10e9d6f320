import FrescoDB.Server.HybridClock

/-! Monotonicity of the hybrid clock. The components, read as the number
`last_usec * 2^12 + logical`, stay strictly above every time the clock has
returned or been told; the logical part never leaves twelve bits, so the
`LOG(FATAL)` of `HandleLogicalComponentOverflow` is unreachable. The times
returned are exact only while `last_usec` fits the 52 bits `HybridTime`
gives the microseconds: past them the `uint64_t` packing wraps and a later
`Now` can return a smaller time. -/
namespace FrescoDB.Server

open FrescoDB.Common HybridClockComponents

/-- The components as the hybrid time they stand for. -/
def value (c : HybridClockComponents) : Nat := c.lastUsec.toNat * 4096 + c.logical.toNat

-- Equation lemmas, made once before their uses.
section
attribute [local simp] value
end

/-- The microseconds fit the 52 bits of a `HybridTime`. -/
def Fits (c : HybridClockComponents) : Prop := c.lastUsec.toNat < 2 ^ 52

theorem toNat_kLogicalBitMask : HybridTime.kLogicalBitMask.toNat = 4095 := by decide

theorem handleLogicalComponentOverflow_of_le {c : HybridClockComponents}
    (h : c.logical.toNat ≤ 4095) : handleLogicalComponentOverflow c = some c := by
  have hno : ¬ c.logical.toUInt64 > HybridTime.kLogicalBitMask := by
    rw [GT.gt, UInt64.lt_iff_toNat_lt, UInt32.toNat_toUInt64, toNat_kLogicalBitMask]
    omega
  simp [handleLogicalComponentOverflow, hno]

theorem handleLogicalComponentOverflow_of_eq {c : HybridClockComponents}
    (h : c.logical.toNat = 4096) :
    handleLogicalComponentOverflow c = some ⟨c.lastUsec + 1, 0⟩ := by
  obtain ⟨last, logical⟩ := c
  have hl : logical = 4096 := UInt32.toNat_inj.1 h
  subst hl
  have h1 : (4096 : UInt32).toUInt64 > HybridTime.kLogicalBitMask := by decide
  have h2 : ¬ (4096 : UInt32).toUInt64 > kMaxOverflowValue := by decide
  have h3 : (4096 : UInt32).toUInt64 >>> HybridTime.kBitsForLogicalComponent = 1 := by decide
  have h4 : (4096 : UInt32) &&& HybridTime.kLogicalBitMask.toUInt32 = 0 := by decide
  simp only [handleLogicalComponentOverflow, h1, h2, h3, h4, if_true, if_false]

/-- The components one logical tick later, with the carry into the microseconds. -/
def incremented (c : HybridClockComponents) : HybridClockComponents :=
  if c.logical.toNat = 4095 then ⟨c.lastUsec + 1, 0⟩ else ⟨c.lastUsec, c.logical + 1⟩

theorem handleLogicalComponentOverflow_succ (c : HybridClockComponents)
    (h : c.logical.toNat ≤ 4095) :
    handleLogicalComponentOverflow ⟨c.lastUsec, c.logical + 1⟩ = some (incremented c) := by
  obtain ⟨last, logical⟩ := c
  dsimp only at h
  unfold incremented
  dsimp only
  have hsucc : (logical + 1).toNat = logical.toNat + 1 := by
    rw [UInt32.toNat_add]
    simp only [UInt32.reduceToNat]
    omega
  split
  · exact handleLogicalComponentOverflow_of_eq (by simp only [hsucc]; omega)
  · exact handleLogicalComponentOverflow_of_le (by simp only [hsucc]; omega)

theorem incremented_logical (c : HybridClockComponents) (h : c.logical.toNat ≤ 4095) :
    (incremented c).logical.toNat ≤ 4095 := by
  unfold incremented
  split
  · simp
  · rw [UInt32.toNat_add]
    simp only [UInt32.reduceToNat]
    omega

theorem value_incremented (c : HybridClockComponents) (h : c.logical.toNat ≤ 4095)
    (hlast : c.lastUsec.toNat + 1 < 2 ^ 64) : value (incremented c) = value c + 1 := by
  unfold incremented value
  split
  · rename_i h4095
    rw [UInt64.toNat_add]
    simp only [UInt64.reduceToNat, UInt32.reduceToNat]
    rw [Nat.mod_eq_of_lt hlast]
    omega
  · rw [UInt32.toNat_add]
    simp only [UInt32.reduceToNat]
    omega

theorem now_eq (c : HybridClockComponents) (h : c.logical.toNat ≤ 4095) (reading : PhysicalTime) :
    now c reading = some (if reading.timePoint > c.lastUsec then
      (HybridTime.fromMicros reading.timePoint, ⟨reading.timePoint, 1⟩)
    else ((HybridTime.fromMicrosecondsAndLogicalValue (incremented c).lastUsec
      (incremented c).logical).decremented, incremented c)) := by
  unfold now nowWithError
  split
  · rfl
  · rw [handleLogicalComponentOverflow_succ c h]
    rfl

/-- The successor of a valid time, as `Update` builds it. -/
def successorOf (ht : HybridTime) : HybridClockComponents :=
  incremented ⟨ht.getPhysicalValueMicros, ht.getLogicalValue⟩

theorem toNat_getLogicalValue (ht : HybridTime) : ht.getLogicalValue.toNat = ht.v.toNat % 4096 := by
  simp only [HybridTime.getLogicalValue, UInt64.toNat_toUInt32, UInt64.toNat_and,
    toNat_kLogicalBitMask]
  have : ht.v.toNat &&& 4095 = ht.v.toNat % 4096 := Nat.and_two_pow_sub_one_eq_mod ht.v.toNat 12
  omega

theorem toNat_getPhysicalValueMicros (ht : HybridTime) :
    ht.getPhysicalValueMicros.toNat = ht.v.toNat / 4096 := by
  simp only [HybridTime.getPhysicalValueMicros, UInt64.toNat_shiftRight]
  rw [Nat.shiftRight_eq_div_pow]
  rfl

theorem update_eq (c : HybridClockComponents) (ht : HybridTime) :
    update c ht = some (if ht.isValid then (if c.lt (successorOf ht) then successorOf ht else c)
      else c) := by
  unfold update
  split
  · rename_i hv
    simp only [Bool.not_eq_true'] at hv
    simp [hv]
  · rename_i hv
    simp only [Bool.not_eq_true', Bool.not_eq_false] at hv
    have hl : (HybridClockComponents.mk ht.getPhysicalValueMicros ht.getLogicalValue).logical.toNat
        ≤ 4095 := by
      show ht.getLogicalValue.toNat ≤ 4095
      rw [toNat_getLogicalValue]
      omega
    rw [handleLogicalComponentOverflow_succ ⟨ht.getPhysicalValueMicros, ht.getLogicalValue⟩ hl]
    simp only [hv, if_true, successorOf]
    rfl

theorem value_successorOf (ht : HybridTime) : value (successorOf ht) = ht.v.toNat + 1 := by
  have hp := toNat_getPhysicalValueMicros ht
  have hl := toNat_getLogicalValue ht
  have hv := ht.v.toNat_lt
  unfold successorOf
  rw [value_incremented _ (by simp only; omega) (by simp only; omega)]
  simp only [value]
  omega

theorem successorOf_logical (ht : HybridTime) : (successorOf ht).logical.toNat ≤ 4095 :=
  incremented_logical _ (by simp only [toNat_getLogicalValue]; omega)

theorem lt_iff_value {a b : HybridClockComponents} (ha : a.logical.toNat ≤ 4095)
    (hb : b.logical.toNat ≤ 4095) : a.lt b = true ↔ value a < value b := by
  simp only [HybridClockComponents.lt, value, Bool.or_eq_true, Bool.and_eq_true, decide_eq_true_eq,
    UInt64.lt_iff_toNat_lt, UInt32.lt_iff_toNat_lt, ← UInt64.toNat_inj]
  omega

/-! One step of the clock, read on the values of its components. -/

theorem now_value {c c' : HybridClockComponents} {reading : PhysicalTime} {t : HybridTime}
    (hl : c.logical.toNat ≤ 4095) (hc : Fits c) (h : now c reading = some (t, c'))
    (hfit : Fits c') :
    value c ≤ t.v.toNat ∧ t.v.toNat < value c' ∧ c'.logical.toNat ≤ 4095 := by
  rw [now_eq c hl] at h
  split at h
  · -- A physical reading past `last_usec`: the reading itself, with logical value zero.
    rename_i hgt
    simp only [Option.some.injEq, Prod.mk.injEq] at h
    obtain ⟨rfl, rfl⟩ := h
    have hgt' := UInt64.lt_iff_toNat_lt.1 hgt
    have ht := HybridTime.toNat_fromMicrosecondsAndLogicalValue reading.timePoint 0 hfit (by decide)
    simp only [HybridTime.fromMicros, ht, value, UInt32.reduceToNat]
    omega
  · -- No progress of the physical clock: one logical tick, returned decremented.
    simp only [Option.some.injEq, Prod.mk.injEq] at h
    obtain ⟨rfl, rfl⟩ := h
    have hinc := value_incremented c hl (by unfold Fits at hc; omega)
    have hlog := incremented_logical c hl
    have ht := HybridTime.toNat_fromMicrosecondsAndLogicalValue (incremented c).lastUsec
      (incremented c).logical hfit (by omega)
    rw [HybridTime.toNat_decremented, ht]
    unfold value at hinc ⊢
    omega

theorem update_value {c c' : HybridClockComponents} {ht : HybridTime}
    (hl : c.logical.toNat ≤ 4095) (h : update c ht = some c') :
    value c ≤ value c' ∧ (ht.isValid = true → ht.v.toNat < value c') ∧
      c'.logical.toNat ≤ 4095 := by
  rw [update_eq] at h
  have hsucc := value_successorOf ht
  split at h
  · rename_i hv
    split at h
    · rename_i hlt
      cases h
      have := (lt_iff_value hl (successorOf_logical ht)).1 hlt
      exact ⟨by omega, fun _ => by omega, successorOf_logical ht⟩
    · rename_i hlt
      cases h
      have : ¬ value c < value (successorOf ht) :=
        fun e => hlt ((lt_iff_value hl (successorOf_logical ht)).2 e)
      exact ⟨le_refl _, fun _ => by omega, hl⟩
  · rename_i hv
    cases h
    exact ⟨le_refl _, fun e => absurd e hv, hl⟩

theorem Reachable.logical_le {r : ClockRun} (h : Reachable r) : r.components.logical.toNat ≤ 4095 := by
  induction h with
  | init => exact (by decide : (0 : UInt32).toNat ≤ 4095)
  | now _ hnow ih =>
    rw [now_eq _ ih] at hnow
    split at hnow
    · cases hnow
      exact (by decide : (1 : UInt32).toNat ≤ 4095)
    · cases hnow
      exact incremented_logical _ ih
  | update _ hupd ih =>
    rw [update_eq] at hupd
    cases hupd
    split
    · split
      · exact successorOf_logical _
      · exact ih
    · exact ih

/-- The runs whose components keep their microseconds within 52 bits. -/
inductive Within : ClockRun → Prop
  | init : Within ⟨⟨0, 0⟩, []⟩
  | now {r : ClockRun} {reading : PhysicalTime} {t : HybridTime} {c : HybridClockComponents} :
      Within r → now r.components reading = some (t, c) → Fits c → Within ⟨c, t :: r.seen⟩
  | update {r : ClockRun} {ht : HybridTime} {c : HybridClockComponents} :
      Within r → update r.components ht = some c → Fits c →
      Within ⟨c, if ht.isValid then ht :: r.seen else r.seen⟩

/-- What a run within 52 bits keeps: the components fit and lie above everything seen. -/
structure ClockInv (r : ClockRun) : Prop where
  fits : Fits r.components
  logical_le : r.components.logical.toNat ≤ 4095
  above : ∀ t ∈ r.seen, t.v.toNat < value r.components

theorem Within.clockInv {r : ClockRun} (h : Within r) : ClockInv r := by
  induction h with
  | init => exact ⟨by unfold Fits; decide, by decide, fun t ht => by simp at ht⟩
  | now _ hnow hfit ih =>
    obtain ⟨hle, hlt, hlog⟩ := now_value ih.logical_le ih.fits hnow hfit
    refine ⟨hfit, hlog, ?_⟩
    dsimp only
    intro t' ht'
    rcases List.mem_cons.1 ht' with rfl | hseen
    · exact hlt
    · have := ih.above t' hseen
      omega
  | update _ hupd hfit ih =>
    obtain ⟨hle, hvalid, hlog⟩ := update_value ih.logical_le hupd
    refine ⟨hfit, hlog, ?_⟩
    dsimp only
    intro t' ht'
    split at ht'
    · rename_i hv
      rcases List.mem_cons.1 ht' with rfl | hseen
      · exact hvalid hv
      · have := ih.above t' hseen
        omega
    · have := ih.above t' ht'
      omega

/-- Two `Now` calls from a fresh clock, with readings `2^52 - 1` and `2^52`: the second returns
the time `0`, below the first. -/
theorem hybridClock_now_wraps_past_52_bits :
    Reachable ⟨⟨2 ^ 52, 1⟩, [⟨0⟩, ⟨0xFFFFFFFFFFFFF000⟩]⟩ ∧
      (⟨0⟩ : HybridTime) < ⟨0xFFFFFFFFFFFFF000⟩ :=
  ⟨@Reachable.now _ ⟨2 ^ 52, 0⟩ _ _
    (@Reachable.now _ ⟨2 ^ 52 - 1, 0⟩ _ ⟨2 ^ 52 - 1, 1⟩ Reachable.init (by decide)) (by decide),
    by decide⟩

/-- Every run keeps the logical value within `kLogicalBitMask` and never reaches the
`LOG(FATAL)` of an overflow; and while the microseconds stay within the 52 bits of `HybridTime`,
every time `Now` returns is above every time returned before and every valid time passed to
`Update`. -/
theorem hybridClock_now_monotone_within_52_bits :
    (∀ r : ClockRun, Reachable r →
      r.components.logical.toNat ≤ HybridTime.kLogicalBitMask.toNat ∧
      (∀ reading, ∃ t c, now r.components reading = some (t, c)) ∧
      ∀ ht, ∃ c, update r.components ht = some c) ∧
    (∀ r : ClockRun, Within r → ∀ reading t c, now r.components reading = some (t, c) →
      Fits c → ∀ t' ∈ r.seen, t' < t) := by
  constructor
  · intro r hr
    have hl := hr.logical_le
    refine ⟨by rw [toNat_kLogicalBitMask]; exact hl, fun reading => ?_, fun ht => ?_⟩
    · rw [now_eq _ hl]
      exact ⟨_, _, rfl⟩
    · exact ⟨_, update_eq _ ht⟩
  · intro r hr reading t c hnow hfit t' ht'
    have inv := hr.clockInv
    have hstep := now_value inv.logical_le inv.fits hnow hfit
    have hseen := inv.above t' ht'
    rw [HybridTime.lt_iff_toNat]
    omega

/-- A clock read at `1`, then read at `0` with the physical clock gone backwards. -/
theorem hybridClock_now_monotone_backwards_reading :
    (0 : UInt32).toNat ≤ HybridTime.kLogicalBitMask.toNat ∧ (⟨4096⟩ : HybridTime) < ⟨4097⟩ :=
  ⟨(hybridClock_now_monotone_within_52_bits.1 _ Reachable.init).1,
    hybridClock_now_monotone_within_52_bits.2 ⟨⟨1, 1⟩, [⟨4096⟩]⟩
      (@Within.now _ ⟨1, 0⟩ _ _ Within.init (by decide) (by unfold Fits; decide)) ⟨0, 0⟩ ⟨4097⟩
      ⟨1, 2⟩ (by decide) (by unfold Fits; decide) ⟨4096⟩ (by simp)⟩

end FrescoDB.Server
