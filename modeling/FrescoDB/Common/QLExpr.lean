import Mathlib

/-! QL values, expressions and conditions (`common/common.proto`, `common/ql_value.cc`), and the
condition evaluator `QLExprExecutor::EvalCondition` (`common/ql_expr.cc`). A scalar is a member of
a linearly ordered type whose `valueCase` is its `value_case()`: `Compare` orders two scalars of
one case, and every other comparison stops the process or fails. The expressions that the
evaluator computes by the builtin library (`bfcall`, `tscall`, JSON and subscripted columns) are
`computed` ones, given their meaning by a function of the row. -/
namespace FrescoDB.Common

/-- The scalar members of `QLValuePB`. `boolValue` is the value a condition yields when read as
an expression, and `readBool` reads a `bool_value` back (`none` for the other cases). -/
class QLScalar (α : Type) extends LinearOrder α where
  valueCase : α → Nat
  boolValue : Bool → α
  readBool : α → Option Bool

/-- The `bool_value` member alone (`value_case()` 8), as in a table whose columns are all
booleans; `Compare` orders `false` before `true`. -/
instance : QLScalar Bool :=
  { (inferInstance : LinearOrder Bool) with
    valueCase := fun _ => 8
    boolValue := id
    readBool := some }

/-- `QLValuePB`: no value set (null), a scalar, or a list of scalars (the operand of `IN`). -/
inductive QLValue (α : Type) where
  | null
  | scalar (a : α)
  | list (elems : List α)
  deriving DecidableEq, Repr

namespace QLValue

variable {α : Type}

/-- `IsNull`. -/
def isNull : QLValue α → Bool
  | null => true
  | _ => false

def bothNotNull (a b : QLValue α) : Bool := !a.isNull && !b.isNull

def bothNull (a b : QLValue α) : Bool := a.isNull && b.isNull

@[simp] theorem isNull_null : (null : QLValue α).isNull = true := rfl
@[simp] theorem isNull_scalar (a : α) : (scalar a).isNull = false := rfl
@[simp] theorem isNull_list (l : List α) : (list l).isNull = false := rfl

variable [QLScalar α]

/-- `Comparable`: the same `value_case()`, or either is null. -/
def comparable : QLValue α → QLValue α → Bool
  | null, _ | _, null => true
  | scalar x, scalar y => QLScalar.valueCase x == QLScalar.valueCase y
  | list _, list _ => true
  | _, _ => false

/-- `Compare(lhs, rhs)`: `none` where its `CHECK`s fail, and for two lists, where it reaches
`LOG(FATAL)` ("collection types are not comparable"). -/
def compareTo : QLValue α → QLValue α → Option Ordering
  | scalar x, scalar y =>
    if QLScalar.valueCase x = QLScalar.valueCase y then some (compare x y) else none
  | _, _ => none

/-- `operator <`: false unless both are set. -/
def lessThan (a b : QLValue α) : Option Bool :=
  if bothNotNull a b then (compareTo a b).map (· == .lt) else some false

/-- `operator >`. -/
def greaterThan (a b : QLValue α) : Option Bool :=
  if bothNotNull a b then (compareTo a b).map (· == .gt) else some false

/-- `operator <=`: true also of two nulls. -/
def lessThanEqual (a b : QLValue α) : Option Bool :=
  if bothNotNull a b then (compareTo a b).map (· != .gt) else some (bothNull a b)

-- Equation lemmas, made once before their uses.
section
attribute [local simp] bothNotNull lessThanEqual
end

/-- `operator >=`. -/
def greaterThanEqual (a b : QLValue α) : Option Bool :=
  if bothNotNull a b then (compareTo a b).map (· != .lt) else some (bothNull a b)

/-- `operator ==`. -/
def equal (a b : QLValue α) : Option Bool :=
  if bothNotNull a b then (compareTo a b).map (· == .eq) else some (bothNull a b)

/-- `operator !=`. -/
def notEqual (a b : QLValue α) : Option Bool := (equal a b).map (!·)

/-- `list_value().elems()`: a value that is not a list reads as the empty list. -/
def listElems : QLValue α → List α
  | list elems => elems
  | _ => []

theorem compareTo_eq_some {a b : QLValue α} {o : Ordering} :
    compareTo a b = some o ↔ ∃ x y, a = scalar x ∧ b = scalar y ∧
      QLScalar.valueCase x = QLScalar.valueCase y ∧ compare x y = o := by
  cases a <;> cases b <;> simp [compareTo]

theorem compareTo_swap (a b : QLValue α) : compareTo b a = (compareTo a b).map Ordering.swap := by
  cases a <;> cases b <;> simp only [compareTo, Option.map_none]
  rename_i x y
  by_cases h : QLScalar.valueCase x = QLScalar.valueCase y
  · simp [h, ← cmp_eq_compare, cmp_swap]
  · simp [h, Ne.symm h]

theorem greaterThan_eq (a b : QLValue α) : greaterThan a b = lessThan b a := by
  unfold greaterThan lessThan bothNotNull
  rw [compareTo_swap b a, Bool.and_comm]
  cases compareTo b a with
  | none => rfl
  | some o => cases o <;> rfl

theorem greaterThanEqual_eq (a b : QLValue α) : greaterThanEqual a b = lessThanEqual b a := by
  unfold greaterThanEqual lessThanEqual bothNotNull bothNull
  rw [compareTo_swap b a, Bool.and_comm, Bool.and_comm b.isNull]
  cases compareTo b a with
  | none => rfl
  | some o => cases o <;> rfl

theorem greaterThan_eq_swap :
    (greaterThan : QLValue α → QLValue α → Option Bool) = fun a b => lessThan b a :=
  funext fun a => funext fun b => greaterThan_eq a b

theorem greaterThanEqual_eq_swap :
    (greaterThanEqual : QLValue α → QLValue α → Option Bool) = fun a b => lessThanEqual b a :=
  funext fun a => funext fun b => greaterThanEqual_eq a b

theorem lessThanEqual_swap {a b : QLValue α} (h : bothNotNull a b = true) :
    lessThanEqual b a = (lessThan a b).map (!·) := by
  have h' : bothNotNull b a = true := by
    simpa [bothNotNull, Bool.and_comm] using h
  simp only [lessThanEqual, lessThan, h, h', if_true, compareTo_swap a b, Option.map_map]
  cases compareTo a b with
  | none => rfl
  | some o => cases o <;> rfl

theorem lessThanEqual_of_lessThan {a b : QLValue α} (h : lessThan a b = some true) :
    lessThanEqual a b = some true := by
  unfold lessThan at h
  unfold lessThanEqual
  split_ifs at h ⊢
  · obtain ⟨o, ho, hlt⟩ := Option.map_eq_some_iff.mp h
    rw [ho]
    cases o <;> simp_all
  · simp at h

theorem eq_of_equal {a b : QLValue α} (h : equal a b = some true) : a = b := by
  unfold equal at h
  split_ifs at h with hn
  · obtain ⟨o, ho, heq⟩ := Option.map_eq_some_iff.mp h
    obtain ⟨x, y, rfl, rfl, -, hxy⟩ := compareTo_eq_some.mp ho
    have : o = .eq := by simpa using heq
    subst this
    rw [compare_eq_iff_eq.mp hxy]
  · cases a <;> cases b <;> simp_all [bothNotNull, bothNull]

theorem lessThanEqual_of_equal {a b : QLValue α} (h : equal a b = some true) :
    lessThanEqual a b = some true := by
  unfold equal at h
  unfold lessThanEqual
  split_ifs at h ⊢
  · obtain ⟨o, ho, heq⟩ := Option.map_eq_some_iff.mp h
    rw [ho]
    cases o <;> simp_all
  · exact h

theorem comparable_comm (a b : QLValue α) : comparable a b = comparable b a := by
  cases a <;> cases b <;> simp [comparable, eq_comm]

theorem lessThanEqual_scalar_self (a : α) : lessThanEqual (scalar a) (scalar a) = some true := by
  simp [lessThanEqual, bothNotNull, compareTo]

end QLValue

/-- `QLOperator`. -/
inductive QLOperator where
  | QL_OP_NOOP
  | QL_OP_NOT | QL_OP_IS_TRUE | QL_OP_IS_FALSE
  | QL_OP_AND | QL_OP_OR
  | QL_OP_IS_NULL | QL_OP_IS_NOT_NULL
  | QL_OP_EQUAL | QL_OP_LESS_THAN | QL_OP_LESS_THAN_EQUAL | QL_OP_GREATER_THAN
  | QL_OP_GREATER_THAN_EQUAL | QL_OP_NOT_EQUAL
  | QL_OP_LIKE | QL_OP_NOT_LIKE | QL_OP_IN | QL_OP_NOT_IN
  | QL_OP_BETWEEN | QL_OP_NOT_BETWEEN
  | QL_OP_EXISTS | QL_OP_NOT_EXISTS
  deriving DecidableEq, Repr

/-- `ColumnId`. -/
structure ColumnId where
  rep : Int32
  deriving DecidableEq, Repr

mutual

/-- `QLExpressionPB`. `computed` stands for `subscripted_col`, `json_column`, `bfcall` and
`tscall`; `notSet` for `bind_id`, `bocall` and no expression, which evaluate to null. -/
inductive QLExpression (α : Type) where
  | value (v : QLValue α)
  | columnId (id : ColumnId)
  | condition (c : QLCondition α)
  | computed (tag : Nat)
  | notSet

/-- `QLConditionPB`. -/
inductive QLCondition (α : Type) where
  | mk (op : QLOperator) (operands : List (QLExpression α))

end

/-- `QLTableRow`: the values of the columns read, by column id. -/
structure QLTableRow (α : Type) where
  colMap : List (ColumnId × QLValue α)

namespace QLTableRow

variable {α : Type}

/-- `ReadColumn`: a column that the row does not hold reads as null. -/
def readColumn (row : QLTableRow α) (id : ColumnId) : QLValue α :=
  (row.colMap.lookup id).getD .null

/-- `IsEmpty`. -/
def isEmpty (row : QLTableRow α) : Bool := row.colMap.isEmpty

end QLTableRow

section Eval

open QLValue

variable {α : Type} [QLScalar α]

/-- `QL_EVALUATE_RELATIONAL_OP`: the two operands must be `Comparable`. -/
def evalRelational (op : QLValue α → QLValue α → Option Bool) (left right : Option (QLValue α)) :
    Option Bool := do
  let l ← left
  let r ← right
  if comparable l r then op l r else none

/-- `QL_EVALUATE_BETWEEN(op1, op2, rel_op)` for `BETWEEN` (`isBetween`) and `NOT_BETWEEN`; the
second comparison is made only when `&&` or `||` needs it. -/
def evalBetween (isBetween : Bool) (temp lower upper : Option (QLValue α)) : Option Bool := do
  let t ← temp
  let l ← lower
  let u ← upper
  if !comparable t l || !comparable t u then none
  else if isBetween then do
    let first ← greaterThanEqual t l
    if first then lessThanEqual t u else pure false
  else do
    let first ← lessThan t l
    if first then pure true else greaterThan t u

/-- The loop of `QL_OP_IN` (`found = true`) and `QL_OP_NOT_IN` (`found = false`): the result is
`found` at the first element equal to `left`, after checking that each element before it is
`Comparable` with `left`. -/
def evalInList (found : Bool) (left : QLValue α) : List α → Option Bool
  | [] => some (!found)
  | elem :: elems =>
    if !comparable (.scalar elem) left then none
    else do
      let eq ← equal (.scalar elem) left
      if eq then pure found else evalInList found left elems

/-- `IS_TRUE` (`want = true`) and `IS_FALSE`: the value must be a `bool_value`. -/
def evalIsBool (want : Bool) (temp : Option (QLValue α)) : Option Bool := do
  let t ← temp
  match t with
  | .scalar a => (QLScalar.readBool a).map (· == want)
  | _ => none

variable (evalComputed : Nat → QLTableRow α → Option (QLValue α)) (row : QLTableRow α)

mutual

/-- `QLExprExecutor::EvalExpr`; `none` is a failed status. -/
def evalExpr : QLExpression α → Option (QLValue α)
  | .value v => some v
  | .columnId id => some (row.readColumn id)
  | .condition c => (evalCondition c).map fun b => .scalar (QLScalar.boolValue b)
  | .computed tag => evalComputed tag row
  | .notSet => some .null

/-- The operand of a logical operator: `CHECK_EQ(operand.expr_case(), kCondition)`, then
`EvalCondition` of its condition. -/
def evalConditionExpr : QLExpression α → Option Bool
  | .condition c => evalCondition c
  | _ => none

/-- `QLExprExecutor::EvalCondition`: `none` is a failed status or a failed `CHECK` on the
number of operands. -/
def evalCondition : QLCondition α → Option Bool
  | ⟨.QL_OP_NOT, [e]⟩ => (evalConditionExpr e).map (!·)
  | ⟨.QL_OP_IS_NULL, [e]⟩ => (evalExpr e).map isNull
  | ⟨.QL_OP_IS_NOT_NULL, [e]⟩ => (evalExpr e).map (!·.isNull)
  | ⟨.QL_OP_IS_TRUE, [e]⟩ => evalIsBool true (evalExpr e)
  | ⟨.QL_OP_IS_FALSE, [e]⟩ => evalIsBool false (evalExpr e)
  | ⟨.QL_OP_EQUAL, [e₁, e₂]⟩ => evalRelational equal (evalExpr e₁) (evalExpr e₂)
  | ⟨.QL_OP_LESS_THAN, [e₁, e₂]⟩ => evalRelational lessThan (evalExpr e₁) (evalExpr e₂)
  | ⟨.QL_OP_LESS_THAN_EQUAL, [e₁, e₂]⟩ =>
    evalRelational lessThanEqual (evalExpr e₁) (evalExpr e₂)
  | ⟨.QL_OP_GREATER_THAN, [e₁, e₂]⟩ => evalRelational greaterThan (evalExpr e₁) (evalExpr e₂)
  | ⟨.QL_OP_GREATER_THAN_EQUAL, [e₁, e₂]⟩ =>
    evalRelational greaterThanEqual (evalExpr e₁) (evalExpr e₂)
  | ⟨.QL_OP_NOT_EQUAL, [e₁, e₂]⟩ => evalRelational notEqual (evalExpr e₁) (evalExpr e₂)
  | ⟨.QL_OP_AND, e :: es⟩ => evalAnd (e :: es)
  | ⟨.QL_OP_OR, e :: es⟩ => evalOr (e :: es)
  | ⟨.QL_OP_BETWEEN, [e₀, e₁, e₂]⟩ => evalBetween true (evalExpr e₀) (evalExpr e₁) (evalExpr e₂)
  | ⟨.QL_OP_NOT_BETWEEN, [e₀, e₁, e₂]⟩ =>
    evalBetween false (evalExpr e₀) (evalExpr e₁) (evalExpr e₂)
  | ⟨.QL_OP_EXISTS, _⟩ => some !row.isEmpty
  | ⟨.QL_OP_NOT_EXISTS, _⟩ => some row.isEmpty
  | ⟨.QL_OP_IN, [e₁, e₂]⟩ => do
    let left ← evalExpr e₁
    let right ← evalExpr e₂
    evalInList true left right.listElems
  | ⟨.QL_OP_NOT_IN, [e₁, e₂]⟩ => do
    let left ← evalExpr e₁
    let right ← evalExpr e₂
    evalInList false left right.listElems
  -- `LIKE`, `NOT_LIKE`, `NOOP`, and every operator given the wrong number of operands.
  | _ => none

/-- The loop of `QL_OP_AND`: it stops at the first operand that is false. -/
def evalAnd : List (QLExpression α) → Option Bool
  | [] => some true
  | e :: es => do
    let b ← evalConditionExpr e
    if b then evalAnd es else pure false

/-- The loop of `QL_OP_OR`: it stops at the first operand that is true. -/
def evalOr : List (QLExpression α) → Option Bool
  | [] => some false
  | e :: es => do
    let b ← evalConditionExpr e
    if b then pure true else evalOr es

end

-- Equation lemmas, made once before their uses.
section
attribute [local simp] evalExpr evalConditionExpr evalCondition evalAnd evalOr
end

@[simp] theorem evalConditionExpr_condition (c : QLCondition α) :
    evalConditionExpr evalComputed row (.condition c) = evalCondition evalComputed row c := by
  rw [evalConditionExpr]

theorem evalConditionExpr_eq_some {e : QLExpression α} {b : Bool}
    (h : evalConditionExpr evalComputed row e = some b) :
    ∃ c, e = .condition c ∧ evalCondition evalComputed row c = some b := by
  cases e with
  | condition c => exact ⟨c, rfl, by simpa [evalConditionExpr] using h⟩
  | _ => simp [evalConditionExpr] at h

theorem evalAnd_cons_eq_some_true {e : QLExpression α} {es : List (QLExpression α)} :
    evalAnd evalComputed row (e :: es) = some true ↔
      evalConditionExpr evalComputed row e = some true ∧ evalAnd evalComputed row es = some true := by
  simp only [evalAnd, bind, Option.bind_eq_some_iff]
  constructor
  · rintro ⟨b, hb, hrest⟩
    cases b with
    | false => simp [pure] at hrest
    | true => exact ⟨hb, by simpa using hrest⟩
  · rintro ⟨hb, hrest⟩
    exact ⟨true, hb, by simpa using hrest⟩

end Eval

section EvalLemmas

open QLValue

variable {α : Type} [QLScalar α]

theorem evalRelational_eq_some {op : QLValue α → QLValue α → Option Bool} {x y : QLValue α}
    {b : Bool} :
    evalRelational op (some x) (some y) = some b ↔ comparable x y = true ∧ op x y = some b := by
  unfold evalRelational
  by_cases h : comparable x y <;> simp [h]

theorem evalBetween_eq_some_true {t? l? u? : Option (QLValue α)}
    (h : evalBetween true t? l? u? = some true) :
    ∃ t l u, t? = some t ∧ l? = some l ∧ u? = some u ∧
      greaterThanEqual t l = some true ∧ lessThanEqual t u = some true := by
  simp only [evalBetween, bind, Option.bind_eq_some_iff, if_true] at h
  obtain ⟨t, rfl, l, rfl, u, rfl, h⟩ := h
  split_ifs at h
  obtain ⟨first, hfirst, hsecond⟩ := Option.bind_eq_some_iff.mp h
  cases first with
  | false => simp [pure] at hsecond
  | true => exact ⟨t, l, u, rfl, rfl, rfl, hfirst, hsecond⟩

theorem exists_of_evalInList_true {left : QLValue α} {elems : List α}
    (h : evalInList true left elems = some true) : ∃ e ∈ elems, scalar e = left := by
  induction elems with
  | nil => simp [evalInList] at h
  | cons e es ih =>
    simp only [evalInList] at h
    split_ifs at h
    obtain ⟨eq, heq, hrest⟩ := Option.bind_eq_some_iff.mp h
    cases eq with
    | true => exact ⟨e, List.mem_cons_self .., eq_of_equal heq⟩
    | false =>
      obtain ⟨e', he', h'⟩ := ih (by simpa using hrest)
      exact ⟨e', List.mem_cons_of_mem _ he', h'⟩

end EvalLemmas

end FrescoDB.Common
