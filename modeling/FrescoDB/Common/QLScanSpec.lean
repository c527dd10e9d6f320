import FrescoDB.Common.QLExpr
import FrescoDB.Lib.AssocList

/-! `QLScanRange` (`common/ql_scanspec.cc`): for each range column of a schema, the bounds on its
value that a QL condition implies, a null bound meaning unbounded. Relations of a range column
and a value set a bound (`<` and `>` as inclusive ones); `AND` intersects the operands' ranges,
`OR` unites them and `NOT` complements one. `none` is a failed `CHECK`, the `std::out_of_range`
of `ranges_.at` on a column it lacks, or the `LOG(FATAL)` of an operator with no range. -/
namespace FrescoDB.Common

/-- `ColumnSchema::SortingType`. -/
inductive SortingType where
  | kNotSpecified | kAscending | kDescending
  deriving DecidableEq, Repr

/-- The fields of a column that the scan reads; `id` is its entry of `col_ids_`. -/
structure ColumnSchema where
  id : ColumnId
  isHashKey : Bool
  isStatic : Bool
  sortingType : SortingType
  deriving DecidableEq, Repr

/-- `Schema`, with the check of `Schema::Reset` that there are no more key columns than
columns. -/
structure Schema where
  columns : List ColumnSchema
  numKeyColumns : Nat
  numKeyColumns_le : numKeyColumns ≤ columns.length

namespace Schema

/-- `num_hash_key_columns_`, as `Reset` counts it over all columns. -/
def numHashKeyColumns (s : Schema) : Nat := (s.columns.filter (·.isHashKey)).length

/-- `num_range_key_columns()`. -/
def numRangeKeyColumns (s : Schema) : Nat := s.numKeyColumns - s.numHashKeyColumns

/-- `has_statics()`. -/
def hasStatics (s : Schema) : Bool := s.columns.any (·.isStatic)

/-- `is_range_column(size_t idx)`. -/
def isRangeColumn (s : Schema) (idx : Nat) : Bool :=
  idx < s.numKeyColumns && !(idx < s.numHashKeyColumns)

/-- `find_column_by_id`: `id_to_index_` holds the last index set for an id. -/
def findColumnById (s : Schema) (id : ColumnId) : Option Nat :=
  ((s.columns.zipIdx.filter (·.1.id = id)).getLast?).map (·.2)

/-- `is_range_column(ColumnId)`: `kColumnNotFound` is no key column. -/
def isRangeColumnId (s : Schema) (id : ColumnId) : Bool :=
  match s.findColumnById id with
  | some idx => s.isRangeColumn idx
  | none => false

/-- The range key columns in schema order: the key columns from `num_hash_key_columns()` on. -/
def rangeKeyColumns (s : Schema) : List ColumnSchema :=
  (s.columns.take s.numKeyColumns).drop s.numHashKeyColumns

/-- The layout that `SchemaBuilder` gives a table and the scans assume: column `i` is a hash
column exactly when `i < num_hash_key_columns()`, and the hash columns are key columns. -/
def HashColumnsFirst (s : Schema) : Prop :=
  (∀ ic ∈ s.columns.zipIdx, ic.1.isHashKey = decide (ic.2 < s.numHashKeyColumns)) ∧
    s.numHashKeyColumns ≤ s.numKeyColumns

instance (s : Schema) : Decidable s.HashColumnsFirst := inferInstanceAs (Decidable (_ ∧ _))

theorem HashColumnsFirst.isHashKey {s : Schema} (h : s.HashColumnsFirst) {i : Nat}
    {c : ColumnSchema} (hc : s.columns[i]? = some c) :
    c.isHashKey = decide (i < s.numHashKeyColumns) :=
  h.1 (c, i) (List.mem_zipIdx_iff_getElem?.mpr hc)

theorem HashColumnsFirst.filter_keyColumns {s : Schema} (h : s.HashColumnsFirst) :
    (s.columns.take s.numKeyColumns).filter (!·.isHashKey) = s.rangeKeyColumns := by
  have hkey : ∀ {i c}, (s.columns.take s.numKeyColumns)[i]? = some c →
      c.isHashKey = decide (i < s.numHashKeyColumns) := by
    intro i c hc
    rw [List.getElem?_take] at hc
    split_ifs at hc
    exact h.isHashKey hc
  rw [← List.take_append_drop s.numHashKeyColumns (s.columns.take s.numKeyColumns),
    List.filter_append, rangeKeyColumns]
  -- The hash columns come first and are dropped, the range columns are kept.
  have hhash : ((s.columns.take s.numKeyColumns).take s.numHashKeyColumns).filter
      (!·.isHashKey) = [] := by
    rw [List.filter_eq_nil_iff]
    intro c hc
    obtain ⟨i, hi⟩ := List.mem_iff_getElem?.mp hc
    rw [List.getElem?_take] at hi
    split_ifs at hi with hlt
    simp [hkey hi, hlt]
  have hrange : ((s.columns.take s.numKeyColumns).drop s.numHashKeyColumns).filter
      (!·.isHashKey) = (s.columns.take s.numKeyColumns).drop s.numHashKeyColumns := by
    rw [List.filter_eq_self]
    intro c hc
    obtain ⟨j, hj⟩ := List.mem_iff_getElem?.mp hc
    rw [List.getElem?_drop] at hj
    simp [hkey hj]
  rw [hhash, hrange, List.nil_append]

theorem drop_numHashKeyColumns (s : Schema) :
    ∃ rest, s.columns.drop s.numHashKeyColumns = s.rangeKeyColumns ++ rest := by
  refine ⟨(s.columns.drop s.numHashKeyColumns).drop (s.numKeyColumns - s.numHashKeyColumns), ?_⟩
  rw [rangeKeyColumns, List.drop_take, List.take_append_drop]

theorem HashColumnsFirst.numHash_add_length {s : Schema} (h : s.HashColumnsFirst) :
    s.numHashKeyColumns + s.rangeKeyColumns.length = s.numKeyColumns := by
  have hle := s.numKeyColumns_le
  have hhash := h.2
  simp only [rangeKeyColumns, List.length_drop, List.length_take]
  omega

end Schema

/-- `QLScanRange::QLRange`. -/
structure QLRange (α : Type) where
  minValue : QLValue α := .null
  maxValue : QLValue α := .null
  deriving DecidableEq, Repr

/-- `QLScanRange`: `ranges_` by column id, in the order the constructor emplaces them. -/
structure QLScanRange (α : Type) where
  ranges : List (ColumnId × QLRange α)
  hasInRangeOptions : Bool := false
  deriving DecidableEq, Repr

namespace QLScanRange

open QLValue

variable {α : Type} [QLScalar α]

/-- `std::unordered_map::emplace`: an id already present keeps its entry. -/
def emplace (m : List (ColumnId × QLRange α)) (id : ColumnId) (r : QLRange α) :
    List (ColumnId × QLRange α) :=
  if (m.lookup id).isSome then m else m ++ [(id, r)]

/-- The constructor's first loop: an unbounded range for every range column. -/
def initialRanges (s : Schema) : List (ColumnId × QLRange α) :=
  (s.columns.take s.numKeyColumns).zipIdx.foldl
    (fun m c => if s.isRangeColumn c.2 then emplace m c.1.id {} else m) []

/-- `ranges_.at(id)` changed by `f`; `none` is the `std::out_of_range` of a missing id. -/
def update (r : QLScanRange α) (id : ColumnId) (f : QLRange α → QLRange α) :
    Option (QLScanRange α) :=
  if (r.ranges.lookup id).isSome then
    some { r with ranges := r.ranges.map fun e => if e.1 = id then (e.1, f e.2) else e }
  else none

/-- `std::max(a, b)`, which is `a < b ? b : a`. -/
def maxValue (a b : QLValue α) : Option (QLValue α) := do
  let lt ← lessThan a b
  pure (if lt then b else a)

/-- `std::min(a, b)`, which is `b < a ? b : a`. -/
def minValue (a b : QLValue α) : Option (QLValue α) := do
  let lt ← lessThan b a
  pure (if lt then b else a)

/-- One bound of `operator&=`: `pick` of two set bounds, else the other side's bound if it is
set. -/
def intersectBound (pick : QLValue α → QLValue α → Option (QLValue α)) (a b : QLValue α) :
    Option (QLValue α) :=
  if bothNotNull a b then pick a b else some (if !b.isNull then b else a)

/-- One bound of `operator|=`: `pick` of two set bounds, else null if the other side's is. -/
def uniteBound (pick : QLValue α → QLValue α → Option (QLValue α)) (a b : QLValue α) :
    Option (QLValue α) :=
  if bothNotNull a b then pick a b else some (if b.isNull then .null else a)

/-- One range of `operator&=`: the larger lower bound and the smaller upper bound. -/
def intersectRange (r o : QLRange α) : Option (QLRange α) := do
  let lo ← intersectBound maxValue r.minValue o.minValue
  let hi ← intersectBound minValue r.maxValue o.maxValue
  pure ⟨lo, hi⟩

/-- One range of `operator|=`: the smaller lower bound and the larger upper bound. -/
def uniteRange (r o : QLRange α) : Option (QLRange α) := do
  let lo ← uniteBound minValue r.minValue o.minValue
  let hi ← uniteBound maxValue r.maxValue o.maxValue
  pure ⟨lo, hi⟩

/-- One range of `operator~`: a two-sided range becomes unbounded, any other swaps its bounds. -/
def complementRange (r : QLRange α) : QLRange α :=
  if bothNotNull r.minValue r.maxValue then {} else ⟨r.maxValue, r.minValue⟩

/-- The loop of `operator&=` and `operator|=` over `ranges_`, reading `other.ranges_.at(id)`. -/
def combine (op : QLRange α → QLRange α → Option (QLRange α)) (r other : QLScanRange α) :
    Option (List (ColumnId × QLRange α)) :=
  r.ranges.mapM fun e => do
    let o ← other.ranges.lookup e.1
    let c ← op e.2 o
    pure (e.1, c)

/-- `operator&=`. -/
def intersect (r other : QLScanRange α) : Option (QLScanRange α) := do
  let ranges ← combine intersectRange r other
  pure ⟨ranges, r.hasInRangeOptions || other.hasInRangeOptions⟩

/-- `operator|=`. -/
def unite (r other : QLScanRange α) : Option (QLScanRange α) := do
  let ranges ← combine uniteRange r other
  pure ⟨ranges, r.hasInRangeOptions && other.hasInRangeOptions⟩

/-- `operator~`. -/
def complement (r : QLScanRange α) : QLScanRange α :=
  ⟨r.ranges.map fun e => (e.1, complementRange e.2), false⟩

/-- `QL_GET_COLUMN_VALUE_EXPR_ELSE_RETURN`: the column, the value and whether the column is the
first operand; `none` is the failed `CHECK_EQ` on the count, `some none` the early return. -/
def columnValueExpr : List (QLExpression α) → Option (Option (ColumnId × QLValue α × Bool))
  | [.columnId id, .value v] => some (some (id, v, true))
  | [.value v, .columnId id] => some (some (id, v, false))
  | [_, _] => some none
  | _ => none

/-- Whether an operand is a range column. -/
def isRangeColumnOperand (s : Schema) : QLExpression α → Bool
  | .columnId id => s.isRangeColumnId id
  | _ => false

/-- A relation of a column and a value: `bound` gives the range from the value and whether the
column comes first. -/
def relationRange (init : QLScanRange α) (hasRangeColumn : Bool)
    (bound : QLValue α → Bool → QLRange α → QLRange α) (operands : List (QLExpression α)) :
    Option (QLScanRange α) :=
  if hasRangeColumn then
    match columnValueExpr operands with
    | none => none
    | some none => some init
    | some (some (id, v, columnFirst)) => init.update id (bound v columnFirst)
  else some init

/-- `QL_OP_BETWEEN`: the bounds that are values, for a column as first operand. -/
def betweenRange (init : QLScanRange α) (hasRangeColumn : Bool) (operands : List (QLExpression α)) :
    Option (QLScanRange α) :=
  if hasRangeColumn then
    match operands with
    | [.columnId id, e₁, e₂] =>
      (match e₁ with
        | .value v => init.update id fun rg => { rg with minValue := v }
        | _ => some init).bind fun r =>
      match e₂ with
      | .value v => r.update id fun rg => { rg with maxValue := v }
      | _ => some r
    | [_, _, _] => some init
    | _ => none
  else some init

/-- `QL_OP_IN`: the first and last of the listed values, which the executor sorts. -/
def inRange (init : QLScanRange α) (hasRangeColumn : Bool) (operands : List (QLExpression α)) :
    Option (QLScanRange α) :=
  if hasRangeColumn then
    match columnValueExpr operands with
    | none => none
    | some none => some init
    | some (some (id, v, _)) =>
      (match v.listElems with
        | [] => some init
        | e :: es => init.update id fun _ => ⟨.scalar e, .scalar ((e :: es).getLast (by simp))⟩).map
        fun (r : QLScanRange α) => { r with hasInRangeOptions := true }
  else some init

mutual

/-- An operand of `AND`, `OR` or `NOT`: `CHECK_EQ(operand.expr_case(), kCondition)`. -/
def ofConditionExpr (s : Schema) : QLExpression α → Option (QLScanRange α)
  | .condition c => ofCondition s c
  | _ => none

/-- `QLScanRange::QLScanRange(schema, condition)`. -/
def ofCondition (s : Schema) : QLCondition α → Option (QLScanRange α)
  | ⟨op, operands⟩ =>
    if s.numRangeKeyColumns = 0 then some ⟨[], false⟩
    else
      let init : QLScanRange α := ⟨initialRanges s, false⟩
      let hasRangeColumn := operands.any (isRangeColumnOperand s)
      match op with
      | .QL_OP_EQUAL =>
        relationRange init hasRangeColumn (fun v _ _ => ⟨v, v⟩) operands
      | .QL_OP_LESS_THAN | .QL_OP_LESS_THAN_EQUAL =>
        relationRange init hasRangeColumn
          (fun v columnFirst rg =>
            if columnFirst then { rg with maxValue := v } else { rg with minValue := v }) operands
      | .QL_OP_GREATER_THAN | .QL_OP_GREATER_THAN_EQUAL =>
        relationRange init hasRangeColumn
          (fun v columnFirst rg =>
            if columnFirst then { rg with minValue := v } else { rg with maxValue := v }) operands
      | .QL_OP_BETWEEN => betweenRange init hasRangeColumn operands
      | .QL_OP_IN => inRange init hasRangeColumn operands
      | .QL_OP_AND => if operands = [] then none else intersectAll s init operands
      | .QL_OP_OR => if operands = [] then none else uniteAll s init operands
      | .QL_OP_NOT =>
        match operands with
        -- The move assignment takes `ranges_` only.
        | [e] => (ofConditionExpr s e).map fun r => { init with ranges := r.complement.ranges }
        | _ => none
      | .QL_OP_IS_NULL | .QL_OP_IS_NOT_NULL | .QL_OP_IS_TRUE | .QL_OP_IS_FALSE
      | .QL_OP_NOT_EQUAL | .QL_OP_LIKE | .QL_OP_NOT_LIKE | .QL_OP_NOT_IN
      | .QL_OP_NOT_BETWEEN => some init
      | .QL_OP_EXISTS | .QL_OP_NOT_EXISTS | .QL_OP_NOOP => none

/-- The loop of `QL_OP_AND`: `*this &= QLScanRange(schema_, operand.condition())`. -/
def intersectAll (s : Schema) (acc : QLScanRange α) : List (QLExpression α) → Option (QLScanRange α)
  | [] => some acc
  | e :: es => do
    let r ← ofConditionExpr s e
    let acc ← acc.intersect r
    intersectAll s acc es

/-- The loop of `QL_OP_OR`: `*this |= QLScanRange(schema_, operand.condition())`. -/
def uniteAll (s : Schema) (acc : QLScanRange α) : List (QLExpression α) → Option (QLScanRange α)
  | [] => some acc
  | e :: es => do
    let r ← ofConditionExpr s e
    let acc ← acc.unite r
    uniteAll s acc es

end

-- Equation lemmas, made once before their uses.
section
attribute [local simp] ofConditionExpr ofCondition intersectAll uniteAll
end

/-- `range_values(lower_bound)`: for each range key column in schema order, the lower bound of
an ascending column or the upper bound of a descending one, and the other bound otherwise. -/
def rangeValues (s : Schema) (r : QLScanRange α) (lowerBound : Bool) : Option (List (QLValue α)) :=
  ((s.columns.take s.numKeyColumns).filter (!·.isHashKey)).mapM fun c => do
    let range ← r.ranges.lookup c.id
    let desc := c.sortingType = .kDescending
    pure (if lowerBound ^^ desc then range.minValue else range.maxValue)

section Lemmas

open FrescoDB.Lib

omit [QLScalar α] in
theorem mem_emplace {m : List (ColumnId × QLRange α)} {id : ColumnId} {r : QLRange α}
    {e : ColumnId × QLRange α} (he : e ∈ emplace m id r) : e ∈ m ∨ e = (id, r) := by
  unfold emplace at he
  split_ifs at he
  · exact .inl he
  · simpa using he

omit [QLScalar α] in
theorem mem_initialRanges {s : Schema} {e : ColumnId × QLRange α}
    (he : e ∈ (initialRanges s : List (ColumnId × QLRange α))) :
    e.2 = {} ∧ ∃ c ∈ s.columns.take s.numKeyColumns, c.id = e.1 := by
  let P : ColumnId × QLRange α → Prop := fun e =>
    e.2 = {} ∧ ∃ c ∈ s.columns.take s.numKeyColumns, c.id = e.1
  -- The fold over the key columns adds only entries of this form.
  have fold : ∀ (l : List (ColumnSchema × Nat)) (m : List (ColumnId × QLRange α)),
      (∀ x ∈ l, x.1 ∈ s.columns.take s.numKeyColumns) → (∀ e ∈ m, P e) →
      ∀ e ∈ l.foldl (fun m c => if s.isRangeColumn c.2 then emplace m c.1.id {} else m) m, P e := by
    intro l
    induction l with
    | nil => intro m _ hm; exact hm
    | cons x l ih =>
      intro m hl hm
      apply ih _ (fun y hy => hl y (List.mem_cons_of_mem _ hy))
      intro e he
      dsimp only at he
      split_ifs at he
      · rcases mem_emplace he with he | rfl
        · exact hm e he
        · exact ⟨rfl, x.1, hl x (List.mem_cons_self ..), rfl⟩
      · exact hm e he
  exact fold _ [] (fun x hx => List.fst_mem_of_mem_zipIdx hx) (by simp) e he

omit [QLScalar α] in
theorem update_eq_some {r r' : QLScanRange α} {id : ColumnId} {f : QLRange α → QLRange α}
    (h : r.update id f = some r') :
    (r.ranges.lookup id).isSome ∧
      r' = { r with ranges := r.ranges.map fun e => if e.1 = id then (e.1, f e.2) else e } := by
  unfold update at h
  split_ifs at h with hl
  exact ⟨hl, (Option.some.inj h).symm⟩

omit [QLScalar α] in
theorem update_update {r r₁ r₂ : QLScanRange α} {id : ColumnId} {f g : QLRange α → QLRange α}
    (h₁ : r.update id f = some r₁) (h₂ : r₁.update id g = some r₂) :
    r.update id (g ∘ f) = some r₂ := by
  obtain ⟨hl, rfl⟩ := update_eq_some h₁
  obtain ⟨-, rfl⟩ := update_eq_some h₂
  simp only [update, hl, if_true, List.map_map, Option.some.injEq]
  congr 1
  apply List.map_congr_left
  intro e _
  by_cases he : e.1 = id <;> simp [he]

omit [QLScalar α] in
theorem mem_update_initialRanges {s : Schema} {id : ColumnId} {f : QLRange α → QLRange α}
    {R : QLScanRange α} (h : (⟨initialRanges s, false⟩ : QLScanRange α).update id f = some R)
    {e : ColumnId × QLRange α} (he : e ∈ R.ranges) : e = (id, f {}) ∨ e.2 = {} := by
  obtain ⟨-, rfl⟩ := update_eq_some h
  obtain ⟨e₀, he₀, rfl⟩ := List.mem_map.mp he
  have hempty := (mem_initialRanges he₀).1
  by_cases hid : e₀.1 = id
  · left
    simp [hid, hempty]
  · right
    simpa [hid] using hempty

omit [QLScalar α] in
theorem lookup_isSome_of_update {r R : QLScanRange α} {id : ColumnId} {f : QLRange α → QLRange α}
    (h : r.update id f = some R) : ∃ rg, (id, rg) ∈ r.ranges := by
  obtain ⟨hl, -⟩ := update_eq_some h
  obtain ⟨rg, hrg⟩ := Option.isSome_iff_exists.mp hl
  exact ⟨rg, mem_of_lookup_eq_some hrg⟩

omit [QLScalar α] in
theorem columnValueExpr_eq_some {operands : List (QLExpression α)} {id : ColumnId}
    {v : QLValue α} {columnFirst : Bool}
    (h : columnValueExpr operands = some (some (id, v, columnFirst))) :
    operands = if columnFirst then [.columnId id, .value v] else [.value v, .columnId id] := by
  unfold columnValueExpr at h
  split at h <;> simp_all

omit [QLScalar α] in
/-- Each range of `operator&=` or `operator|=` combines a range of the left side with the range
of the right side at the same column. -/
theorem mem_combine {op : QLRange α → QLRange α → Option (QLRange α)} {r o : QLScanRange α}
    {l : List (ColumnId × QLRange α)} (h : combine op r o = some l) {e : ColumnId × QLRange α}
    (he : e ∈ l) :
    ∃ a ∈ r.ranges, ∃ b, o.ranges.lookup a.1 = some b ∧ op a.2 b = some e.2 ∧ e.1 = a.1 := by
  obtain ⟨a, ha, hf⟩ := exists_of_mem_mapM h he
  simp only [bind, Option.bind_eq_some_iff, pure, Option.some.injEq] at hf
  obtain ⟨b, hb, c, hc, rfl⟩ := hf
  exact ⟨a, ha, b, hb, hc, rfl⟩

theorem intersect_eq_some {r o r' : QLScanRange α} (h : r.intersect o = some r') :
    combine intersectRange r o = some r'.ranges := by
  simp only [intersect, bind, Option.bind_eq_some_iff, pure, Option.some.injEq] at h
  obtain ⟨l, hl, rfl⟩ := h
  exact hl

theorem unite_eq_some {r o r' : QLScanRange α} (h : r.unite o = some r') :
    combine uniteRange r o = some r'.ranges := by
  simp only [unite, bind, Option.bind_eq_some_iff, pure, Option.some.injEq] at h
  obtain ⟨l, hl, rfl⟩ := h
  exact hl

theorem maxValue_eq_some {a b c : QLValue α} (h : maxValue a b = some c) : c = a ∨ c = b := by
  simp only [maxValue, bind, Option.bind_eq_some_iff, pure, Option.some.injEq] at h
  obtain ⟨lt, -, rfl⟩ := h
  cases lt <;> simp

theorem minValue_eq_some {a b c : QLValue α} (h : minValue a b = some c) : c = a ∨ c = b := by
  simp only [minValue, bind, Option.bind_eq_some_iff, pure, Option.some.injEq] at h
  obtain ⟨lt, -, rfl⟩ := h
  cases lt <;> simp

omit [QLScalar α] in
theorem intersectBound_eq_some {pick : QLValue α → QLValue α → Option (QLValue α)}
    (hpick : ∀ a b c, pick a b = some c → c = a ∨ c = b) {a b c : QLValue α}
    (h : intersectBound pick a b = some c) : c = a ∨ c = b := by
  unfold intersectBound at h
  split_ifs at h
  · exact hpick a b c h
  · exact .inr (Option.some.inj h).symm
  · exact .inl (Option.some.inj h).symm

theorem intersectRange_eq_some {r o c : QLRange α} (h : intersectRange r o = some c) :
    (c.minValue = r.minValue ∨ c.minValue = o.minValue) ∧
      (c.maxValue = r.maxValue ∨ c.maxValue = o.maxValue) := by
  simp only [intersectRange, bind, Option.bind_eq_some_iff, pure, Option.some.injEq] at h
  obtain ⟨lo, hlo, hi, hhi, rfl⟩ := h
  exact ⟨intersectBound_eq_some (fun _ _ _ => maxValue_eq_some) hlo,
    intersectBound_eq_some (fun _ _ _ => minValue_eq_some) hhi⟩

theorem uniteRange_empty {o c : QLRange α} (h : uniteRange {} o = some c) : c = {} := by
  have hnull : ∀ pick (b : QLValue α), uniteBound pick .null b = some .null := by
    intro pick b
    simp only [uniteBound, bothNotNull, isNull_null, Bool.not_true, Bool.false_and,
      Bool.false_eq_true, if_false]
    split_ifs <;> rfl
  simp only [uniteRange, hnull, bind, Option.bind_some, pure, Option.some.injEq] at h
  exact h.symm

omit [QLScalar α] in
@[simp] theorem complementRange_empty : complementRange ({} : QLRange α) = {} := by
  simp [complementRange, bothNotNull]

end Lemmas

/-! The columns a scan range has a range for are those of the constructor's first loop: every
operator only changes ranges at columns that are already there. -/
section Columns

open FrescoDB.Lib

omit [QLScalar α] in
theorem lookup_emplace_self (m : List (ColumnId × QLRange α)) (id : ColumnId) (r : QLRange α) :
    ((emplace m id r).lookup id).isSome := by
  unfold emplace
  split_ifs with h
  · exact h
  · simp [List.lookup_append]

omit [QLScalar α] in
theorem lookup_emplace_of_isSome {m : List (ColumnId × QLRange α)} {k : ColumnId}
    (h : (m.lookup k).isSome) (id : ColumnId) (r : QLRange α) :
    ((emplace m id r).lookup k).isSome := by
  unfold emplace
  split_ifs
  · exact h
  · obtain ⟨v, hv⟩ := Option.isSome_iff_exists.mp h
    simp [List.lookup_append, hv]

/-- The step of the constructor's first loop. -/
private def emplaceRange (s : Schema) (m : List (ColumnId × QLRange α)) (c : ColumnSchema × Nat) :
    List (ColumnId × QLRange α) :=
  if s.isRangeColumn c.2 then emplace m c.1.id {} else m

omit [QLScalar α] in
private theorem lookup_foldl_emplaceRange_of_isSome {s : Schema} {k : ColumnId}
    (l : List (ColumnSchema × Nat)) {m : List (ColumnId × QLRange α)} (h : (m.lookup k).isSome) :
    ((l.foldl (emplaceRange s) m).lookup k).isSome := by
  induction l generalizing m with
  | nil => exact h
  | cons x l ih =>
    apply ih
    unfold emplaceRange
    split_ifs
    · exact lookup_emplace_of_isSome h _ _
    · exact h

omit [QLScalar α] in
private theorem lookup_foldl_emplaceRange {s : Schema} {l : List (ColumnSchema × Nat)}
    {x : ColumnSchema × Nat} (hx : x ∈ l) (hr : s.isRangeColumn x.2 = true)
    (m : List (ColumnId × QLRange α)) : ((l.foldl (emplaceRange s) m).lookup x.1.id).isSome := by
  induction l generalizing m with
  | nil => simp at hx
  | cons y l ih =>
    rcases List.mem_cons.mp hx with rfl | hx
    · rw [List.foldl_cons]
      apply lookup_foldl_emplaceRange_of_isSome
      simp only [emplaceRange, hr, if_true]
      exact lookup_emplace_self _ _ _
    · exact ih hx _

omit [QLScalar α] in
theorem lookup_initialRanges {s : Schema} {c : ColumnSchema}
    (hc : c ∈ (s.columns.take s.numKeyColumns).drop s.numHashKeyColumns) :
    ((initialRanges s : List (ColumnId × QLRange α)).lookup c.id).isSome := by
  obtain ⟨j, hj⟩ := List.mem_iff_getElem?.mp hc
  rw [List.getElem?_drop] at hj
  have hlt : s.numHashKeyColumns + j < s.numKeyColumns := by
    rw [List.getElem?_take] at hj
    split_ifs at hj with h
    · exact h
  have hmem : (c, s.numHashKeyColumns + j) ∈ (s.columns.take s.numKeyColumns).zipIdx :=
    List.mem_zipIdx_iff_getElem?.mpr hj
  have hr : s.isRangeColumn (s.numHashKeyColumns + j) = true := by
    simp [Schema.isRangeColumn, hlt]
  exact lookup_foldl_emplaceRange hmem hr []

omit [QLScalar α] in
theorem initialRanges_eq_nil {s : Schema} (h : s.numRangeKeyColumns = 0) :
    (initialRanges s : List (ColumnId × QLRange α)) = [] := by
  have hnone : ∀ x ∈ (s.columns.take s.numKeyColumns).zipIdx, s.isRangeColumn x.2 = false := by
    intro x hx
    have hlt : x.2 < s.numKeyColumns := by
      have := List.mem_zipIdx_iff_getElem?.mp hx
      rw [List.getElem?_take] at this
      split_ifs at this with h
      · exact h
    simp only [Schema.numRangeKeyColumns] at h
    simp [Schema.isRangeColumn]
    omega
  have fold : ∀ (l : List (ColumnSchema × Nat)) (m : List (ColumnId × QLRange α)),
      (∀ x ∈ l, s.isRangeColumn x.2 = false) → l.foldl (emplaceRange s) m = m := by
    intro l
    induction l with
    | nil => intro m _; rfl
    | cons x l ih =>
      intro m hl
      rw [List.foldl_cons, emplaceRange, if_neg (by simp [hl x (List.mem_cons_self ..)])]
      exact ih m fun y hy => hl y (List.mem_cons_of_mem _ hy)
  exact fold _ [] hnone

omit [QLScalar α] in
theorem update_keys {r r' : QLScanRange α} {id : ColumnId} {f : QLRange α → QLRange α}
    (h : r.update id f = some r') : r'.ranges.map Prod.fst = r.ranges.map Prod.fst := by
  obtain ⟨-, rfl⟩ := update_eq_some h
  rw [List.map_map]
  apply List.map_congr_left
  intro e _
  by_cases he : e.1 = id <;> simp [he]

omit [QLScalar α] in
theorem combine_keys {op : QLRange α → QLRange α → Option (QLRange α)} {r o : QLScanRange α}
    {l : List (ColumnId × QLRange α)} (h : combine op r o = some l) :
    l.map Prod.fst = r.ranges.map Prod.fst := by
  refine map_eq_of_mapM_eq_some ?_ h
  intro e e' he
  simp only [bind, Option.bind_eq_some_iff, pure, Option.some.injEq] at he
  obtain ⟨b, -, c, -, rfl⟩ := he
  rfl

omit [QLScalar α] in
@[simp] theorem complement_keys (r : QLScanRange α) :
    r.complement.ranges.map Prod.fst = r.ranges.map Prod.fst := by
  simp [complement]

variable {init R : QLScanRange α} {hasRangeColumn : Bool} {operands : List (QLExpression α)}

omit [QLScalar α] in
theorem relationRange_keys {bound : QLValue α → Bool → QLRange α → QLRange α}
    (h : relationRange init hasRangeColumn bound operands = some R) :
    R.ranges.map Prod.fst = init.ranges.map Prod.fst := by
  unfold relationRange at h
  split_ifs at h
  · split at h
    · contradiction
    · cases Option.some.inj h
      rfl
    · exact update_keys h
  · cases Option.some.inj h
    rfl

omit [QLScalar α] in
theorem betweenRange_keys (h : betweenRange init hasRangeColumn operands = some R) :
    R.ranges.map Prod.fst = init.ranges.map Prod.fst := by
  unfold betweenRange at h
  split_ifs at h
  · split at h
    · -- The lower bound first, then the upper bound on its result.
      obtain ⟨r, hr, hR⟩ := Option.bind_eq_some_iff.mp h
      have hlo : r.ranges.map Prod.fst = init.ranges.map Prod.fst := by
        split at hr
        · exact update_keys hr
        · cases Option.some.inj hr
          rfl
      rw [← hlo]
      split at hR
      · exact update_keys hR
      · cases Option.some.inj hR
        rfl
    · cases Option.some.inj h
      rfl
    · contradiction
  · cases Option.some.inj h
    rfl

omit [QLScalar α] in
theorem inRange_keys (h : inRange init hasRangeColumn operands = some R) :
    R.ranges.map Prod.fst = init.ranges.map Prod.fst := by
  unfold inRange at h
  split_ifs at h
  · split at h
    · contradiction
    · cases Option.some.inj h
      rfl
    · obtain ⟨r, hr, rfl⟩ := Option.map_eq_some_iff.mp h
      show r.ranges.map Prod.fst = _
      split at hr
      · cases Option.some.inj hr
        rfl
      · exact update_keys hr
  · cases Option.some.inj h
    rfl

theorem intersectAll_keys {s : Schema} : ∀ (es : List (QLExpression α)) (acc R : QLScanRange α),
    intersectAll s acc es = some R → R.ranges.map Prod.fst = acc.ranges.map Prod.fst
  | [], acc, R, h => by
    rw [intersectAll] at h
    cases Option.some.inj h
    rfl
  | e :: es, acc, R, h => by
    rw [intersectAll] at h
    simp only [bind, Option.bind_eq_some_iff] at h
    obtain ⟨r, -, acc', hacc', hrest⟩ := h
    rw [intersectAll_keys es acc' R hrest, combine_keys (intersect_eq_some hacc')]

theorem uniteAll_keys {s : Schema} : ∀ (es : List (QLExpression α)) (acc R : QLScanRange α),
    uniteAll s acc es = some R → R.ranges.map Prod.fst = acc.ranges.map Prod.fst
  | [], acc, R, h => by
    rw [uniteAll] at h
    cases Option.some.inj h
    rfl
  | e :: es, acc, R, h => by
    rw [uniteAll] at h
    simp only [bind, Option.bind_eq_some_iff] at h
    obtain ⟨r, -, acc', hacc', hrest⟩ := h
    rw [uniteAll_keys es acc' R hrest, combine_keys (unite_eq_some hacc')]

mutual

theorem ofConditionExpr_keys (s : Schema) : ∀ (e : QLExpression α) (R : QLScanRange α),
    ofConditionExpr s e = some R →
      R.ranges.map Prod.fst = (initialRanges s : List (ColumnId × QLRange α)).map Prod.fst
  | .condition c, R, h => ofCondition_keys s c R h
  | .value _, _, h | .columnId _, _, h | .computed _, _, h | .notSet, _, h => by
    simp [ofConditionExpr] at h

theorem ofCondition_keys (s : Schema) : ∀ (c : QLCondition α) (R : QLScanRange α),
    ofCondition s c = some R →
      R.ranges.map Prod.fst = (initialRanges s : List (ColumnId × QLRange α)).map Prod.fst
  | ⟨op, operands⟩, R, h => by
    rw [ofCondition] at h
    by_cases hcols : s.numRangeKeyColumns = 0
    · rw [if_pos hcols] at h
      cases Option.some.inj h
      rw [initialRanges_eq_nil hcols]
    · rw [if_neg hcols] at h
      -- Only `NOT` takes its columns from its operand's range; the others change `init`.
      cases op with
      | QL_OP_EQUAL | QL_OP_LESS_THAN | QL_OP_LESS_THAN_EQUAL | QL_OP_GREATER_THAN
      | QL_OP_GREATER_THAN_EQUAL => exact relationRange_keys h
      | QL_OP_BETWEEN => exact betweenRange_keys h
      | QL_OP_IN => exact inRange_keys h
      | QL_OP_AND =>
        dsimp only at h
        split_ifs at h
        exact intersectAll_keys _ _ _ h
      | QL_OP_OR =>
        dsimp only at h
        split_ifs at h
        exact uniteAll_keys _ _ _ h
      | QL_OP_NOT =>
        dsimp only at h
        match operands, h with
        | [e], h =>
          obtain ⟨r, hr, rfl⟩ := Option.map_eq_some_iff.mp h
          rw [complement_keys]
          exact ofConditionExpr_keys s e r hr
      | QL_OP_IS_NULL | QL_OP_IS_NOT_NULL | QL_OP_IS_TRUE | QL_OP_IS_FALSE | QL_OP_NOT_EQUAL
      | QL_OP_LIKE | QL_OP_NOT_LIKE | QL_OP_NOT_IN | QL_OP_NOT_BETWEEN =>
        cases Option.some.inj h
        rfl
      | QL_OP_EXISTS | QL_OP_NOT_EXISTS | QL_OP_NOOP => contradiction

end

end Columns

end QLScanRange

end FrescoDB.Common
