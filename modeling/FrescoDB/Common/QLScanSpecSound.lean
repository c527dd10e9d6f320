import FrescoDB.Common.QLScanSpec

/-! What the ranges of `QLScanRange` promise: every row that satisfies the condition has, in each
range column, a value within the column's range. The range of `NOT` is the complement of its
operand's, which is sound only if the operand's one-sided ranges also bound the rows that
falsify it. Relations of a column and a value, `IN`, `BETWEEN` two set values and `OR` have that
property (the range of `OR` is always unbounded: `|=` starts from the unbounded range and keeps
a null bound null); `AND` has not. -/
namespace FrescoDB.Common

open QLValue QLScanRange FrescoDB.Lib

variable {α : Type} [QLScalar α]

/-- `v` lies at or above the bound `lo` in the order of `operator <=`; a null bound is none. -/
def InLo (lo v : QLValue α) : Prop := lo = .null ∨ lessThanEqual lo v = some true

/-- `v` lies at or below the bound `hi`. -/
def InHi (hi v : QLValue α) : Prop := hi = .null ∨ lessThanEqual v hi = some true

/-- The values a range admits. -/
def QLRange.Contains (r : QLRange α) (v : QLValue α) : Prop :=
  InLo r.minValue v ∧ InHi r.maxValue v

namespace QLRange

@[simp] theorem contains_empty (v : QLValue α) : ({} : QLRange α).Contains v :=
  ⟨.inl rfl, .inl rfl⟩

theorem contains_intersectRange {r o c : QLRange α} {v : QLValue α}
    (h : intersectRange r o = some c) (hr : r.Contains v) (ho : o.Contains v) : c.Contains v := by
  obtain ⟨hlo, hhi⟩ := intersectRange_eq_some h
  constructor
  · rcases hlo with hlo | hlo <;> rw [hlo]
    exacts [hr.1, ho.1]
  · rcases hhi with hhi | hhi <;> rw [hhi]
    exacts [hr.2, ho.2]

theorem contains_complementRange_complementRange {r : QLRange α} {v : QLValue α}
    (h : r.Contains v) : (complementRange (complementRange r)).Contains v := by
  by_cases hb : bothNotNull r.minValue r.maxValue = true
  · have hc : complementRange r = {} := by rw [complementRange, if_pos hb]
    rw [hc, complementRange_empty]
    exact contains_empty v
  · have hb' : ¬bothNotNull r.maxValue r.minValue = true := by
      simpa [bothNotNull, Bool.and_comm] using hb
    have hc : complementRange r = ⟨r.maxValue, r.minValue⟩ := by rw [complementRange, if_neg hb]
    have hc' : complementRange ⟨r.maxValue, r.minValue⟩ = r := by
      rw [complementRange, if_neg hb']
    rwa [hc, hc']

end QLRange

theorem inLo_scalar {v : QLValue α} {a : α} (h : InLo v (.scalar a)) :
    v = .null ∨ ∃ b, v = .scalar b ∧ QLScalar.valueCase b = QLScalar.valueCase a ∧ b ≤ a := by
  rcases h with rfl | h
  · exact .inl rfl
  · right
    unfold lessThanEqual at h
    split_ifs at h
    · obtain ⟨o, ho, hgt⟩ := Option.map_eq_some_iff.mp h
      obtain ⟨b, a', rfl, ha', hcase, rfl⟩ := compareTo_eq_some.mp ho
      cases ha'
      refine ⟨b, rfl, hcase, not_lt.mp fun hlt => ?_⟩
      simp [compare_gt_iff_gt.mpr hlt] at hgt
    · simp [bothNull] at h

theorem inHi_scalar {v : QLValue α} {a : α} (h : InHi v (.scalar a)) :
    v = .null ∨ ∃ b, v = .scalar b ∧ QLScalar.valueCase a = QLScalar.valueCase b ∧ a ≤ b := by
  rcases h with rfl | h
  · exact .inl rfl
  · right
    unfold lessThanEqual at h
    split_ifs at h
    · obtain ⟨o, ho, hgt⟩ := Option.map_eq_some_iff.mp h
      obtain ⟨a', b, ha', rfl, hcase, rfl⟩ := compareTo_eq_some.mp ho
      cases ha'
      refine ⟨b, rfl, hcase, not_lt.mp fun hlt => ?_⟩
      simp [compare_gt_iff_gt.mpr hlt] at hgt
    · simp [bothNull] at h

/-- `IN` lists as the executor passes them: strictly increasing in the order of `operator <`. -/
def sortedElems (v : QLValue α) : Bool :=
  decide (v.listElems.Pairwise fun a b => lessThan (.scalar a) (.scalar b) = some true)

mutual

def inListsSortedExpr : QLExpression α → Bool
  | .condition c => inListsSorted c
  | _ => true

/-- Every `IN` of the condition lists its values sorted. -/
def inListsSorted : QLCondition α → Bool
  | ⟨.QL_OP_IN, operands⟩ => operands.all fun
    | .value v => sortedElems v
    | _ => true
  | ⟨_, operands⟩ => allInListsSorted operands

def allInListsSorted : List (QLExpression α) → Bool
  | [] => true
  | e :: es => inListsSortedExpr e && allInListsSorted es

end

mutual

def complementableExpr : QLExpression α → Bool
  | .condition c => complementable c
  | _ => true

def inFragmentExpr : QLExpression α → Bool
  | .condition c => inFragment c
  | _ => true

/-- The conditions whose every `NOT` applies to a complementable one. -/
def inFragment : QLCondition α → Bool
  | ⟨.QL_OP_AND, es⟩ => allInFragment es
  | ⟨.QL_OP_NOT, [e]⟩ => complementableExpr e
  | _ => true

/-- The conditions whose one-sided ranges also bound the rows that falsify them: all but `AND`,
and `BETWEEN` of anything but two set values. -/
def complementable : QLCondition α → Bool
  | ⟨.QL_OP_AND, _⟩ => false
  | ⟨.QL_OP_BETWEEN, [_, .value v₁, .value v₂]⟩ => !v₁.isNull && !v₂.isNull
  | ⟨.QL_OP_BETWEEN, _⟩ => false
  | ⟨.QL_OP_NOT, [e]⟩ => complementableExpr e
  | _ => true

def allInFragment : List (QLExpression α) → Bool
  | [] => true
  | e :: es => inFragmentExpr e && allInFragment es

end

-- Equation lemmas, made once before their uses.
section
attribute [local simp] complementableExpr inFragmentExpr inFragment complementable allInFragment
end

omit [QLScalar α] in
theorem inFragment_of_complementable {c : QLCondition α} (h : complementable c = true) :
    inFragment c = true := by
  obtain ⟨op, operands⟩ := c
  cases op
  case QL_OP_AND => simp [complementable] at h
  case QL_OP_NOT =>
    rcases operands with _ | ⟨e, _ | _⟩
    all_goals simp_all [complementable, inFragment]
  all_goals simp [inFragment]

section Relations

/-- What a relation of a row value `x` and a value `v` says of `x` when it holds or fails, for
the range `bound v columnFirst` that it sets. -/
structure RelationBound (rel : QLValue α → QLValue α → Option Bool)
    (bound : QLValue α → Bool → QLRange α → QLRange α) : Prop where
  holds_left : ∀ x v, rel x v = some true → (bound v true {}).Contains x
  holds_right : ∀ x v, rel v x = some true → (bound v false {}).Contains x
  fails_left : ∀ x v, x ≠ .null → rel x v = some false →
    (complementRange (bound v true {})).Contains x
  fails_right : ∀ x v, x ≠ .null → rel v x = some false →
    (complementRange (bound v false {})).Contains x

/-- The bound of `=`. -/
def equalBound (v : QLValue α) (_ : Bool) (_ : QLRange α) : QLRange α := ⟨v, v⟩

/-- The bound of `<` and `<=`: an upper bound when the column comes first. -/
def lessBound (v : QLValue α) (columnFirst : Bool) (rg : QLRange α) : QLRange α :=
  if columnFirst then { rg with maxValue := v } else { rg with minValue := v }

/-- The bound of `>` and `>=`: a lower bound when the column comes first. -/
def greaterBound (v : QLValue α) (columnFirst : Bool) (rg : QLRange α) : QLRange α :=
  if columnFirst then { rg with minValue := v } else { rg with maxValue := v }

omit [QLScalar α] in
theorem greaterBound_eq (v : QLValue α) (columnFirst : Bool) :
    greaterBound v columnFirst = lessBound v !columnFirst := by
  cases columnFirst <;> rfl

omit [QLScalar α] in
theorem complementRange_self (v : QLValue α) : complementRange ⟨v, v⟩ = {} := by
  cases v <;> rfl

theorem relationBound_equal :
    RelationBound (equal : QLValue α → QLValue α → Option Bool) equalBound where
  holds_left x v h := by
    obtain rfl := eq_of_equal h
    exact ⟨.inr (lessThanEqual_of_equal h), .inr (lessThanEqual_of_equal h)⟩
  holds_right x v h := by
    obtain rfl := eq_of_equal h
    exact ⟨.inr (lessThanEqual_of_equal h), .inr (lessThanEqual_of_equal h)⟩
  fails_left x v _ _ := by simp [equalBound, complementRange_self]
  fails_right x v _ _ := by simp [equalBound, complementRange_self]

omit [QLScalar α] in
theorem complementRange_lessBound (v : QLValue α) (columnFirst : Bool) :
    complementRange (lessBound v columnFirst {}) = lessBound v (!columnFirst) {} := by
  cases columnFirst <;> cases v <;> rfl

/-- `<` and `<=` fail exactly when the reversed `<=` holds, for set values. -/
structure OrderRel (rel : QLValue α → QLValue α → Option Bool) : Prop where
  le_of_holds : ∀ a b, rel a b = some true → lessThanEqual a b = some true
  le_of_fails : ∀ a b, bothNotNull a b = true → rel a b = some false →
    lessThanEqual b a = some true

theorem orderRel_lessThan : OrderRel (lessThan : QLValue α → QLValue α → Option Bool) where
  le_of_holds _ _ := lessThanEqual_of_lessThan
  le_of_fails a b hn h := by simp [lessThanEqual_swap hn, h]

theorem orderRel_lessThanEqual :
    OrderRel (lessThanEqual : QLValue α → QLValue α → Option Bool) where
  le_of_holds _ _ h := h
  le_of_fails a b hn h := by
    have hn' : bothNotNull b a = true := by simpa [bothNotNull, Bool.and_comm] using hn
    rw [lessThanEqual_swap hn'] at h
    obtain ⟨lt, hlt, hnot⟩ := Option.map_eq_some_iff.mp h
    have : lt = true := by simpa using hnot
    exact lessThanEqual_of_lessThan (this ▸ hlt)

theorem relationBound_less {rel : QLValue α → QLValue α → Option Bool} (hrel : OrderRel rel) :
    RelationBound rel lessBound where
  holds_left x v h := ⟨.inl rfl, .inr (hrel.le_of_holds x v h)⟩
  holds_right x v h := ⟨.inr (hrel.le_of_holds v x h), .inl rfl⟩
  fails_left x v hx h := by
    rw [complementRange_lessBound]
    simp only [lessBound, Bool.not_true, Bool.false_eq_true, if_false, QLRange.Contains]
    refine ⟨?_, .inl rfl⟩
    cases v with
    | null => exact .inl rfl
    | _ => exact .inr (hrel.le_of_fails x _ (by cases x <;> simp_all [bothNotNull]) h)
  fails_right x v hx h := by
    rw [complementRange_lessBound]
    simp only [lessBound, Bool.not_false, if_true, QLRange.Contains]
    refine ⟨.inl rfl, ?_⟩
    cases v with
    | null => exact .inl rfl
    | _ => exact .inr (hrel.le_of_fails _ x (by cases x <;> simp_all [bothNotNull]) h)

theorem RelationBound.swap {rel : QLValue α → QLValue α → Option Bool}
    {bound : QLValue α → Bool → QLRange α → QLRange α} (h : RelationBound rel bound) :
    RelationBound (fun a b => rel b a) (fun v columnFirst => bound v !columnFirst) where
  holds_left x v hx := h.holds_right x v hx
  holds_right x v hx := h.holds_left x v hx
  fails_left x v hx hf := h.fails_right x v hx hf
  fails_right x v hx hf := h.fails_left x v hx hf

theorem relationBound_greater {rel : QLValue α → QLValue α → Option Bool} (hrel : OrderRel rel) :
    RelationBound (fun a b => rel b a) greaterBound := by
  have h := (relationBound_less hrel).swap
  simpa only [← greaterBound_eq] using h

end Relations

omit [QLScalar α] in
theorem complementable_between {e₀ e₁ e₂ : QLExpression α}
    (h : complementable ⟨.QL_OP_BETWEEN, [e₀, e₁, e₂]⟩ = true) :
    ∃ v₁ v₂, e₁ = .value v₁ ∧ e₂ = .value v₂ ∧ v₁.isNull = false ∧ v₂.isNull = false := by
  cases e₁ <;> cases e₂ <;> simp_all [complementable]

theorem contains_of_sorted {e : α} {es : List α}
    (hs : (e :: es).Pairwise fun a b => lessThan (.scalar a) (.scalar b) = some true)
    {el : α} (hel : el ∈ e :: es) :
    QLRange.Contains ⟨.scalar e, .scalar ((e :: es).getLast (List.cons_ne_nil e es))⟩ (.scalar el) := by
  have hle : (e :: es).Pairwise fun a b => lessThanEqual (.scalar a) (.scalar b) = some true :=
    hs.imp lessThanEqual_of_lessThan
  refine ⟨.inr ?_, .inr (hle.rel_getLast_of_rel_getLast_getLast hel (lessThanEqual_scalar_self _))⟩
  rcases List.mem_cons.mp hel with rfl | hel
  · exact lessThanEqual_scalar_self _
  · exact List.rel_of_pairwise_cons hle hel

section Facts

variable (evalComputed : Nat → QLTableRow α → Option (QLValue α)) (s : Schema)

/-- The rows of a table hold a value in every range key column. -/
def KeysSet (row : QLTableRow α) : Prop :=
  ∀ e ∈ (initialRanges s : List (ColumnId × QLRange α)), row.readColumn e.1 ≠ .null

/-- Every row that satisfies `c` lies within `R`, column by column. -/
def Sound (c : QLCondition α) (R : QLScanRange α) : Prop :=
  ∀ row, KeysSet s row → evalCondition evalComputed row c = some true →
    ∀ e ∈ R.ranges, e.2.Contains (row.readColumn e.1)

/-- Every row that falsifies `c` lies within the complement of `R`. -/
def CoSound (c : QLCondition α) (R : QLScanRange α) : Prop :=
  ∀ row, KeysSet s row → evalCondition evalComputed row c = some false →
    ∀ e ∈ R.ranges, (complementRange e.2).Contains (row.readColumn e.1)

/-- What the range of a condition guarantees: soundness within the fragment, and the
complement's soundness for a complementable condition. -/
structure RangeFacts (c : QLCondition α) (R : QLScanRange α) : Prop where
  sound : inFragment c = true → Sound evalComputed s c R
  coSound : complementable c = true → CoSound evalComputed s c R

variable {evalComputed s}

theorem rangeFacts_of_unbounded {c : QLCondition α} {R : QLScanRange α}
    (h : ∀ e ∈ R.ranges, e.2 = {}) : RangeFacts evalComputed s c R where
  sound _ row _ _ e he := by simp [h e he]
  coSound _ row _ _ e he := by simp [h e he]

theorem rangeFacts_init (c : QLCondition α) :
    RangeFacts evalComputed s c ⟨initialRanges s, false⟩ :=
  rangeFacts_of_unbounded fun _ he => (mem_initialRanges he).1

theorem rangeFacts_update {c : QLCondition α} {id : ColumnId} {f : QLRange α → QLRange α}
    {R : QLScanRange α} (h : (⟨initialRanges s, false⟩ : QLScanRange α).update id f = some R)
    (hs : ∀ row, evalCondition evalComputed row c = some true →
      (f {}).Contains (row.readColumn id))
    (hc : complementable c = true → ∀ row, row.readColumn id ≠ .null →
      evalCondition evalComputed row c = some false →
      (complementRange (f {})).Contains (row.readColumn id)) :
    RangeFacts evalComputed s c R where
  sound _ row _ heval e he := by
    rcases mem_update_initialRanges h he with rfl | hempty
    · exact hs row heval
    · simp [hempty]
  coSound hcomp row hkeys heval e he := by
    rcases mem_update_initialRanges h he with rfl | hempty
    · obtain ⟨rg, hrg⟩ := lookup_isSome_of_update h
      exact hc hcomp row (hkeys _ hrg) heval
    · simp [hempty]

theorem rangeFacts_of_ranges_eq {c : QLCondition α} {R R' : QLScanRange α}
    (h : RangeFacts evalComputed s c R) (heq : R'.ranges = R.ranges) :
    RangeFacts evalComputed s c R' where
  sound hf row hk he := heq ▸ h.sound hf row hk he
  coSound hc row hk he := heq ▸ h.coSound hc row hk he

theorem rangeFacts_relation {op : QLOperator} {rel : QLValue α → QLValue α → Option Bool}
    {bound : QLValue α → Bool → QLRange α → QLRange α} (hrel : RelationBound rel bound)
    (heval : ∀ row e₁ e₂, evalCondition evalComputed row ⟨op, [e₁, e₂]⟩ =
      evalRelational rel (evalExpr evalComputed row e₁) (evalExpr evalComputed row e₂))
    {hasRangeColumn : Bool} {operands : List (QLExpression α)} {R : QLScanRange α}
    (h : relationRange ⟨initialRanges s, false⟩ hasRangeColumn bound operands = some R) :
    RangeFacts evalComputed s ⟨op, operands⟩ R := by
  unfold relationRange at h
  split_ifs at h
  · split at h
    · contradiction
    · cases Option.some.inj h
      exact rangeFacts_init _
    · rename_i id v columnFirst hshape
      have hops := columnValueExpr_eq_some hshape
      -- The row value is read from the column operand, on whichever side it stands.
      cases columnFirst with
      | true =>
        simp only [if_true] at hops
        subst hops
        refine rangeFacts_update h (fun row hrow => ?_) (fun _ row hx hrow => ?_)
        · obtain ⟨-, hr⟩ := evalRelational_eq_some.mp ((heval row _ _).symm.trans hrow)
          exact hrel.holds_left _ _ hr
        · obtain ⟨-, hr⟩ := evalRelational_eq_some.mp ((heval row _ _).symm.trans hrow)
          exact hrel.fails_left _ _ hx hr
      | false =>
        simp only [Bool.false_eq_true, if_false] at hops
        subst hops
        refine rangeFacts_update h (fun row hrow => ?_) (fun _ row hx hrow => ?_)
        · obtain ⟨-, hr⟩ := evalRelational_eq_some.mp ((heval row _ _).symm.trans hrow)
          exact hrel.holds_right _ _ hr
        · obtain ⟨-, hr⟩ := evalRelational_eq_some.mp ((heval row _ _).symm.trans hrow)
          exact hrel.fails_right _ _ hx hr
  · cases Option.some.inj h
    exact rangeFacts_init _

theorem uniteAll_unbounded {es : List (QLExpression α)} {acc R : QLScanRange α}
    (hacc : ∀ e ∈ acc.ranges, e.2 = {}) (h : uniteAll s acc es = some R) :
    ∀ e ∈ R.ranges, e.2 = {} := by
  induction es generalizing acc with
  | nil =>
    rw [uniteAll] at h
    cases Option.some.inj h
    exact hacc
  | cons e es ih =>
    rw [uniteAll] at h
    simp only [bind, Option.bind_eq_some_iff] at h
    obtain ⟨r, -, acc', hacc', hrest⟩ := h
    refine ih (fun x hx => ?_) hrest
    obtain ⟨a, ha, b, -, hab, -⟩ := mem_combine (unite_eq_some hacc') hx
    exact uniteRange_empty (hacc a ha ▸ hab)

theorem rangeFacts_not {e : QLExpression α} {c : QLCondition α} {r : QLScanRange α}
    (he : e = .condition c) (hr : RangeFacts evalComputed s c r) :
    RangeFacts evalComputed s ⟨.QL_OP_NOT, [e]⟩
      { (⟨initialRanges s, false⟩ : QLScanRange α) with ranges := r.complement.ranges } where
  sound hfrag row hkeys heval x hx := by
    subst he
    have hcomp : complementable c = true := hfrag
    have hfalse : evalCondition evalComputed row c = some false := by
      obtain ⟨b, hb, hnot⟩ := Option.map_eq_some_iff.mp heval
      simpa [show b = false by simpa using hnot] using hb
    obtain ⟨y, hy, rfl⟩ := List.mem_map.mp hx
    exact hr.coSound hcomp row hkeys hfalse y hy
  coSound hcomp row hkeys heval x hx := by
    subst he
    have hcomp' : complementable c = true := hcomp
    have htrue : evalCondition evalComputed row c = some true := by
      obtain ⟨b, hb, hnot⟩ := Option.map_eq_some_iff.mp heval
      simpa [show b = true by simpa using hnot] using hb
    obtain ⟨y, hy, rfl⟩ := List.mem_map.mp hx
    exact QLRange.contains_complementRange_complementRange
      (hr.sound (inFragment_of_complementable hcomp') row hkeys htrue y hy)

theorem rangeFacts_between {hasRangeColumn : Bool} {operands : List (QLExpression α)}
    {R : QLScanRange α} (h : betweenRange ⟨initialRanges s, false⟩ hasRangeColumn operands = some R) :
    RangeFacts evalComputed s ⟨.QL_OP_BETWEEN, operands⟩ R := by
  unfold betweenRange at h
  split_ifs at h
  · split at h
    · rename_i id e₁ e₂
      -- A satisfying row lies between the values of the two operands.
      have hrow : ∀ row, evalCondition evalComputed row ⟨.QL_OP_BETWEEN, [.columnId id, e₁, e₂]⟩ =
          some true → ∃ l u, evalExpr evalComputed row e₁ = some l ∧
            evalExpr evalComputed row e₂ = some u ∧ InLo l (row.readColumn id) ∧
            InHi u (row.readColumn id) := by
        intro row heval
        obtain ⟨t, l, u, ht, hl, hu, hge, hle⟩ := evalBetween_eq_some_true heval
        cases Option.some.inj ht
        exact ⟨l, u, hl, hu, .inr (by rwa [greaterThanEqual_eq] at hge), .inr hle⟩
      obtain ⟨r₁, h₁, h₂⟩ := Option.bind_eq_some_iff.mp h
      split at h₁ <;> split at h₂
      · rename_i v₁ _ v₂
        refine rangeFacts_update (update_update h₁ h₂) (fun row heval => ?_) (fun hc _ _ _ => ?_)
        · obtain ⟨l, u, hl, hu, hlo, hhi⟩ := hrow row heval
          cases Option.some.inj hl
          cases Option.some.inj hu
          exact ⟨hlo, hhi⟩
        · obtain ⟨_, _, he₁, he₂, hn₁, hn₂⟩ := complementable_between hc
          cases he₁
          cases he₂
          simp [complementRange, bothNotNull, hn₁, hn₂]
      · rename_i v₁ _ hne
        cases Option.some.inj h₂
        refine rangeFacts_update h₁ (fun row heval => ?_) (fun hc _ _ _ => ?_)
        · obtain ⟨l, u, hl, -, hlo, -⟩ := hrow row heval
          cases Option.some.inj hl
          exact ⟨hlo, .inl rfl⟩
        · obtain ⟨_, v₂, -, he₂, -⟩ := complementable_between hc
          exact (hne v₂ he₂).elim
      · rename_i hne _ v₂
        cases Option.some.inj h₁
        refine rangeFacts_update h₂ (fun row heval => ?_) (fun hc _ _ _ => ?_)
        · obtain ⟨l, u, -, hu, -, hhi⟩ := hrow row heval
          cases Option.some.inj hu
          exact ⟨.inl rfl, hhi⟩
        · obtain ⟨v₁, _, he₁, -⟩ := complementable_between hc
          exact (hne v₁ he₁).elim
      · cases Option.some.inj h₁
        cases Option.some.inj h₂
        exact rangeFacts_init _
    · cases Option.some.inj h
      exact rangeFacts_init _
    · contradiction
  · cases Option.some.inj h
    exact rangeFacts_init _

theorem rangeFacts_in {hasRangeColumn : Bool} {operands : List (QLExpression α)}
    {R : QLScanRange α} (h : inRange ⟨initialRanges s, false⟩ hasRangeColumn operands = some R)
    (hs : inListsSorted ⟨.QL_OP_IN, operands⟩ = true) :
    RangeFacts evalComputed s ⟨.QL_OP_IN, operands⟩ R := by
  unfold inRange at h
  split_ifs at h
  · split at h
    · contradiction
    · cases Option.some.inj h
      exact rangeFacts_init _
    · rename_i id v columnFirst hshape
      obtain ⟨r, hr, rfl⟩ := Option.map_eq_some_iff.mp h
      -- The flag `has_in_range_options_` does not change the ranges.
      have hfacts : RangeFacts evalComputed s ⟨.QL_OP_IN, operands⟩ r := by
        split at hr
        · cases Option.some.inj hr
          exact rangeFacts_init _
        · rename_i e es helems
          have hops := columnValueExpr_eq_some hshape
          refine rangeFacts_update hr (fun row heval => ?_) (fun _ _ _ _ => ?_)
          · cases columnFirst with
            | true =>
              simp only [if_true] at hops
              subst hops
              have hsorted : (e :: es).Pairwise fun a b =>
                  lessThan (.scalar a) (.scalar b) = some true := by
                have hv : sortedElems v = true := by simpa [inListsSorted] using hs
                simpa [sortedElems, helems] using hv
              simp only [evalCondition, evalExpr, bind, Option.bind_some] at heval
              obtain ⟨el, hel, hx⟩ := exists_of_evalInList_true heval
              rw [helems] at hel
              rw [← hx]
              exact contains_of_sorted hsorted hel
            | false =>
              -- The value operand is the list; the row's value would have to equal it.
              simp only [Bool.false_eq_true, if_false] at hops
              subst hops
              simp only [evalCondition, evalExpr, bind, Option.bind_some] at heval
              obtain ⟨el, -, hv⟩ := exists_of_evalInList_true heval
              subst hv
              simp [listElems] at helems
          · simp [complementRange, bothNotNull]
      exact rangeFacts_of_ranges_eq hfacts rfl
  · cases Option.some.inj h
    exact rangeFacts_init _

mutual

theorem rangeFacts_ofConditionExpr : ∀ (e : QLExpression α) (R : QLScanRange α),
    ofConditionExpr s e = some R → inListsSortedExpr e = true →
    ∃ c, e = .condition c ∧ RangeFacts evalComputed s c R
  | .condition c, R, h, hs => ⟨c, rfl, rangeFacts_ofCondition c R h hs⟩
  | .value _, _, h, _ | .columnId _, _, h, _ | .computed _, _, h, _ | .notSet, _, h, _ => by
    simp [ofConditionExpr] at h

theorem rangeFacts_ofCondition : ∀ (c : QLCondition α) (R : QLScanRange α),
    ofCondition s c = some R → inListsSorted c = true → RangeFacts evalComputed s c R
  | ⟨op, operands⟩, R, h, hs => by
    rw [ofCondition] at h
    by_cases hcols : s.numRangeKeyColumns = 0
    · rw [if_pos hcols] at h
      cases Option.some.inj h
      exact rangeFacts_of_unbounded (by simp)
    · rw [if_neg hcols] at h
      cases op with
      | QL_OP_EQUAL => exact rangeFacts_relation relationBound_equal (fun _ _ _ => rfl) h
      | QL_OP_LESS_THAN =>
        exact rangeFacts_relation (relationBound_less orderRel_lessThan) (fun _ _ _ => rfl) h
      | QL_OP_LESS_THAN_EQUAL =>
        exact rangeFacts_relation (relationBound_less orderRel_lessThanEqual) (fun _ _ _ => rfl) h
      | QL_OP_GREATER_THAN =>
        exact rangeFacts_relation (relationBound_greater orderRel_lessThan)
          (fun _ _ _ => by rw [← greaterThan_eq_swap]; rfl) h
      | QL_OP_GREATER_THAN_EQUAL =>
        exact rangeFacts_relation (relationBound_greater orderRel_lessThanEqual)
          (fun _ _ _ => by rw [← greaterThanEqual_eq_swap]; rfl) h
      | QL_OP_BETWEEN => exact rangeFacts_between h
      | QL_OP_IN => exact rangeFacts_in h hs
      | QL_OP_AND =>
        dsimp only at h
        split_ifs at h with hne
        refine ⟨fun hfrag row hkeys heval => ?_, fun hc => by simp [complementable] at hc⟩
        -- `AND` of no operand fails its `CHECK`; otherwise it evaluates as the loop.
        have hand : evalAnd evalComputed row operands = some true := by
          match operands, hne, heval with
          | _ :: _, _, heval => exact heval
        exact sound_intersectAll operands _ R h hfrag (by simpa [inListsSorted] using hs) row hkeys
          hand fun x hx => by simp [(mem_initialRanges hx).1]
      | QL_OP_OR =>
        dsimp only at h
        split_ifs at h
        exact rangeFacts_of_unbounded (uniteAll_unbounded (fun x hx => (mem_initialRanges hx).1) h)
      | QL_OP_NOT =>
        dsimp only at h
        match operands, h, hs with
        | [e], h, hs =>
          obtain ⟨r, hr, rfl⟩ := Option.map_eq_some_iff.mp h
          obtain ⟨c, rfl, hfacts⟩ := rangeFacts_ofConditionExpr e r hr
            (by simpa [inListsSorted, allInListsSorted] using hs)
          exact rangeFacts_not rfl hfacts
      | QL_OP_IS_NULL | QL_OP_IS_NOT_NULL | QL_OP_IS_TRUE | QL_OP_IS_FALSE | QL_OP_NOT_EQUAL
      | QL_OP_LIKE | QL_OP_NOT_LIKE | QL_OP_NOT_IN | QL_OP_NOT_BETWEEN =>
        cases Option.some.inj h
        exact rangeFacts_init _
      | QL_OP_EXISTS | QL_OP_NOT_EXISTS | QL_OP_NOOP => contradiction

theorem sound_intersectAll : ∀ (es : List (QLExpression α)) (acc R : QLScanRange α),
    intersectAll s acc es = some R → allInFragment es = true → allInListsSorted es = true →
    ∀ row, KeysSet s row → evalAnd evalComputed row es = some true →
    (∀ x ∈ acc.ranges, x.2.Contains (row.readColumn x.1)) →
    ∀ x ∈ R.ranges, x.2.Contains (row.readColumn x.1)
  | [], acc, R, h, _, _, _, _, _, hacc => by
    rw [intersectAll] at h
    cases Option.some.inj h
    exact hacc
  | e :: es, acc, R, h, hfrag, hsorted, row, hkeys, heval, hacc => by
    rw [intersectAll] at h
    simp only [bind, Option.bind_eq_some_iff] at h
    obtain ⟨r, hr, acc', hacc', hrest⟩ := h
    simp only [allInFragment, allInListsSorted, Bool.and_eq_true] at hfrag hsorted
    obtain ⟨hfirst, hothers⟩ := (evalAnd_cons_eq_some_true evalComputed row).mp heval
    obtain ⟨c, rfl, hfacts⟩ := rangeFacts_ofConditionExpr e r hr hsorted.1
    refine sound_intersectAll es acc' R hrest hfrag.2 hsorted.2 row hkeys hothers fun x hx => ?_
    obtain ⟨a, ha, b, hb, hab, hx1⟩ := mem_combine (intersect_eq_some hacc') hx
    rw [hx1]
    exact QLRange.contains_intersectRange hab (hacc a ha)
      (hfacts.sound (by simpa [inFragmentExpr] using hfrag.1) row hkeys (by simpa using hfirst)
        (a.1, b) (mem_of_lookup_eq_some hb))

end

omit [QLScalar α] in
theorem keysSet_of_keyColumns {row : QLTableRow α}
    (h : ∀ col ∈ s.columns.take s.numKeyColumns, row.readColumn col.id ≠ .null) : KeysSet s row := by
  intro e he
  obtain ⟨-, col, hcol, hid⟩ := mem_initialRanges he
  exact hid ▸ h col hcol

/-- Within the fragment, every row of the table that satisfies the condition lies, in each
range column, within the range `QLScanRange` computes for the column. -/
theorem ofCondition_sound {c : QLCondition α} {R : QLScanRange α} (h : ofCondition s c = some R)
    (hfrag : inFragment c = true) (hsorted : inListsSorted c = true) {row : QLTableRow α}
    (hkeys : ∀ col ∈ s.columns.take s.numKeyColumns, row.readColumn col.id ≠ .null)
    (heval : evalCondition evalComputed row c = some true) :
    ∀ e ∈ R.ranges, e.2.Contains (row.readColumn e.1) :=
  (rangeFacts_ofCondition c R h hsorted).sound hfrag row (keysSet_of_keyColumns hkeys) heval

end Facts

section Counterexample

/-- A table keyed by a hash column `h` and two ascending range columns `c` and `d`, all
booleans. -/
def booleanSchema : Schema where
  columns := [⟨⟨0⟩, true, false, .kNotSpecified⟩, ⟨⟨1⟩, false, false, .kAscending⟩,
    ⟨⟨2⟩, false, false, .kAscending⟩]
  numKeyColumns := 3
  numKeyColumns_le := by decide

/-- `NOT (c > false AND d = true)`. -/
def notOfConjunction : QLCondition Bool :=
  ⟨.QL_OP_NOT, [.condition ⟨.QL_OP_AND,
    [.condition ⟨.QL_OP_GREATER_THAN, [.columnId ⟨1⟩, .value (.scalar false)]⟩,
     .condition ⟨.QL_OP_EQUAL, [.columnId ⟨2⟩, .value (.scalar true)]⟩]⟩]⟩

/-- The row `h = true, c = true, d = false`. -/
def rowWithCTrue : QLTableRow Bool := ⟨[(⟨0⟩, .scalar true), (⟨1⟩, .scalar true), (⟨2⟩, .scalar false)]⟩

end Counterexample

end FrescoDB.Common
