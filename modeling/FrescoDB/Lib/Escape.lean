import FrescoDB.Lib.BigEndian

/-! Escape encodings of byte strings with a two-byte terminator.
With end byte `e`, a byte `c` is written as `e ^^^ c`, except `0`, which is
written as the pair `e, e ^^^ 1`; the string ends with `e, e`. For `e = 0`
this keeps the lexicographic order of the strings and for `e = 0xff` it
reverses it, whatever bytes follow the encodings. -/
namespace FrescoDB.Lib

/-- One escaped byte. -/
def escapeByte (e c : UInt8) : List UInt8 := if c = 0 then [e, e ^^^ 1] else [e ^^^ c]

/-- The escaped bytes of `s`, then the terminator. -/
def escapeEncode (e : UInt8) (s : List UInt8) : List UInt8 := s.flatMap (escapeByte e) ++ [e, e]

/-- How `c ↦ e ^^^ c` acts on the order of two bytes: kept for `e = 0`, reversed otherwise. -/
def orient (e : UInt8) (o : Ordering) : Ordering := if e = 0 then o else o.swap

-- Equation lemmas, made once before their uses.
section
attribute [local simp] orient
end

/-- The end bytes the encoding is used with. -/
def IsEndByte (e : UInt8) : Prop := e = 0 ∨ e = 0xff

@[simp] theorem escapeEncode_nil (e : UInt8) : escapeEncode e [] = [e, e] := rfl

@[simp] theorem escapeEncode_cons (e c : UInt8) (s : List UInt8) :
    escapeEncode e (c :: s) = escapeByte e c ++ escapeEncode e s := by
  simp [escapeEncode]

theorem compare_append_left (p x y : List UInt8) : compare (p ++ x) (p ++ y) = compare x y := by
  induction p with
  | nil => rfl
  | cons b p ih => simp [List.compare_cons_cons, ih]

theorem compare_bytes_swap (x y : List UInt8) : compare x y = (compare y x).swap :=
  Std.OrientedCmp.eq_swap

theorem ff_xor (c : UInt8) : (0xff : UInt8) ^^^ c = ~~~c := by
  apply UInt8.toBitVec_inj.1
  simp only [UInt8.toBitVec_xor, UInt8.toBitVec_not]
  have h : (0xff : UInt8).toBitVec = BitVec.allOnes 8 := by decide
  rw [h, BitVec.allOnes_xor]

theorem toNat_ff_xor (c : UInt8) : ((0xff : UInt8) ^^^ c).toNat = 255 - c.toNat := by
  rw [ff_xor, UInt8.toNat_not]
  rfl

theorem compare_xor (he : IsEndByte e) (c d : UInt8) :
    compare (e ^^^ c) (e ^^^ d) = orient e (compare c d) := by
  rcases he with rfl | rfl
  · simp [orient]
  · have hc := c.toNat_lt
    have hd := d.toNat_lt
    simp only [orient, compare_uint8, toNat_ff_xor]
    rw [if_neg (show (0xff : UInt8) ≠ 0 by decide), Nat.compare_swap]
    rcases Nat.lt_trichotomy c.toNat d.toNat with h | h | h
    · rw [Nat.compare_eq_gt.2 (by omega), Nat.compare_eq_gt.2 h]
    · rw [h, Nat.compare_eq_eq.2 rfl, Nat.compare_eq_eq.2 rfl]
    · rw [Nat.compare_eq_lt.2 (by omega), Nat.compare_eq_lt.2 h]

theorem compare_zero_of_ne {c : UInt8} (hc : c ≠ 0) : compare 0 c = .lt := by
  rw [compare_uint8]
  exact Nat.compare_eq_lt.2 (Nat.pos_of_ne_zero fun h => hc (UInt8.toNat_inj.1 h))

theorem then_of_ne_eq {o : Ordering} (ho : o ≠ .eq) (p : Ordering) : o.then p = o := by
  cases o
  · rfl
  · exact absurd rfl ho
  · rfl

theorem orient_ne_eq (e : UInt8) {o : Ordering} (ho : o ≠ .eq) : orient e o ≠ .eq := by
  unfold orient
  split
  · exact ho
  · simpa using ho

theorem orient_then (e : UInt8) {o : Ordering} (ho : o ≠ .eq) (p : Ordering) :
    (orient e o).then p = orient e o :=
  then_of_ne_eq (orient_ne_eq e ho) p

theorem orient_swap (e : UInt8) (o : Ordering) : (orient e o).swap = orient e o.swap := by
  unfold orient
  split <;> rfl

theorem compare_end_xor (he : IsEndByte e) {d : UInt8} (hd : d ≠ 0) :
    compare e (e ^^^ d) = orient e .lt := by
  have h := compare_xor he 0 d
  rwa [UInt8.xor_zero, compare_zero_of_ne hd] at h

theorem compare_terminator_escapeByte (he : IsEndByte e) (c : UInt8) (x y : List UInt8) :
    compare ([e, e] ++ x) (escapeByte e c ++ y) = orient e .lt := by
  by_cases hc : c = 0
  · have h1 : compare e (e ^^^ 1) = orient e .lt := compare_end_xor he (by decide)
    simp only [escapeByte, hc, if_true, List.cons_append, List.nil_append,
      List.compare_cons_cons, compare_uint8_self, h1, Ordering.eq_then]
    exact orient_then e (by decide) _
  · simp only [escapeByte, hc, if_false, List.cons_append, List.nil_append,
      List.compare_cons_cons, compare_end_xor he hc]
    exact orient_then e (by decide) _

theorem compare_escapeByte_append (he : IsEndByte e) {c d : UInt8} (hcd : c ≠ d)
    (x y : List UInt8) :
    compare (escapeByte e c ++ x) (escapeByte e d ++ y) = orient e (compare c d) := by
  have hne : compare c d ≠ .eq := fun h => hcd (Std.LawfulEqCmp.eq_of_compare h)
  by_cases hc : c = 0 <;> by_cases hd : d = 0
  · exact absurd (hc.trans hd.symm) hcd
  · subst hc
    simp only [escapeByte, hd, if_true, if_false, List.cons_append, List.nil_append,
      List.compare_cons_cons, compare_end_xor he hd, compare_zero_of_ne hd]
    exact orient_then e (by decide) _
  · subst hd
    have h := compare_xor he c 0
    rw [UInt8.xor_zero] at h
    simp only [escapeByte, hc, if_true, if_false, List.cons_append, List.nil_append,
      List.compare_cons_cons, h]
    exact orient_then e hne _
  · simp only [escapeByte, hc, hd, if_false, List.cons_append, List.nil_append,
      List.compare_cons_cons, compare_xor he]
    exact orient_then e hne _

theorem compare_escapeEncode_append (he : IsEndByte e) (a b r s : List UInt8) :
    compare (escapeEncode e a ++ r) (escapeEncode e b ++ s) =
      (orient e (compare a b)).then (compare r s) := by
  induction a generalizing b with
  | nil =>
    cases b with
    | nil => simp [List.compare_cons_cons, orient]
    | cons d b =>
      rw [List.compare_nil_cons, escapeEncode_nil, escapeEncode_cons, List.append_assoc,
        compare_terminator_escapeByte he, orient_then e (by decide)]
  | cons c a ih =>
    cases b with
    | nil =>
      -- The terminator of the shorter string sorts below, oriented; read the other way round.
      have h := compare_terminator_escapeByte he c s (escapeEncode e a ++ r)
      rw [List.compare_cons_nil, escapeEncode_nil, escapeEncode_cons, List.append_assoc,
        orient_then e (by decide), compare_bytes_swap, h, orient_swap]
      rfl
    | cons d b =>
      rw [escapeEncode_cons, escapeEncode_cons, List.append_assoc, List.append_assoc,
        List.compare_cons_cons]
      by_cases hcd : c = d
      · subst hcd
        rw [compare_append_left, ih, compare_uint8_self, Ordering.eq_then]
      · have hne : compare c d ≠ .eq := fun h => hcd (Std.LawfulEqCmp.eq_of_compare h)
        rw [compare_escapeByte_append he hcd, then_of_ne_eq hne, orient_then e hne]

end FrescoDB.Lib
