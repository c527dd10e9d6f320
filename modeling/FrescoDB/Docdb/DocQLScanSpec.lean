import FrescoDB.Docdb.PrimitiveValue
import FrescoDB.Common.QLScanSpecSound
import FrescoDB.Lib.LexOrder

/-! The bounds of a `DocQLScanSpec` (`docdb/doc_ql_scanspec.cc`) for a scan of one hash key:
the encoded `DocKey`s of the hash code and hashed components with, as range components, the
ends of the condition's `QLScanRange` that the sort order of each column puts first or last, a
null end being `kLowest` or `kHighest`. A row that satisfies the condition is stored under a
`DocKey` between the two, for ascending and descending columns alike, whenever the key
encoding of the column values is monotone. -/
namespace FrescoDB.Docdb

open FrescoDB.Common FrescoDB.Lib FrescoDB.Util QLValue QLScanRange ValueType

/-- `PrimitiveValue::SortOrderFromColumnSchemaSortingType`. -/
def sortOrderFromColumnSchemaSortingType : SortingType → SortOrder
  | .kDescending => .kDescending
  | _ => .kAscending

/-- The scalars of a column type, with the primitive value that `FromQLValuePB` makes of each in
a key of a sort order. -/
class QLKeyScalar (α : Type) extends QLScalar α where
  fromQLValue : α → SortOrder → PrimitiveValue

/-- `FromQLValuePB` of a `bool_value`. -/
instance : QLKeyScalar Bool :=
  { (inferInstance : QLScalar Bool) with
    fromQLValue := fun b o => .ofType
      (if o = .kDescending then (if b then kTrueDescending else kFalseDescending)
        else (if b then kTrue else kFalse)) }

section Model

variable {α : Type} [QLKeyScalar α] [UuidVersion]

/-- `PrimitiveValue::FromQLValuePB`: a scalar in the sort order of the column, `kTombstone` for
no value; a collection reaches `LOG(FATAL)`. -/
def fromQLValuePB (v : QLValue α) (sortingType : SortingType) : Option PrimitiveValue :=
  match v with
  | .null => some (.ofType kTombstone)
  | .scalar a => some (QLKeyScalar.fromQLValue a (sortOrderFromColumnSchemaSortingType sortingType))
  | .list _ => none

/-- `AppendDocKeyItems`: the key of each item, then `kGroupEnd`. -/
def appendDocKeyItems (items : List PrimitiveValue) (out : List UInt8) : List UInt8 :=
  items.foldl (fun out item => item.appendToKey out) out ++ [kGroupEnd.toByte]

/-- `DocKeyEncoder(out).CotableId(nil).HashAndRange(hash, hashed_group, range_group)`: a nil
cotable id writes nothing, the hash is `kUInt16Hash` and the big-endian hash. -/
def hashAndRange (hash : UInt16) (hashedGroup rangeGroup : List PrimitiveValue)
    (out : List UInt8) : List UInt8 :=
  appendDocKeyItems rangeGroup
    (appendDocKeyItems hashedGroup (appendUInt16ToKey hash (out ++ [kUInt16Hash.toByte])))

/-- The body of the loop of `QLKeyColumnValuesToPrimitiveValues`: `kNull` for a null value. -/
def keyComponent (column : ColumnSchema) (value : QLValue α) : Option PrimitiveValue :=
  if value.isNull then some (.ofType kNull) else fromQLValuePB value column.sortingType

/-- `QLKeyColumnValuesToPrimitiveValues`: the components of key column values from column
`column_idx` on; a column that is no key column is the `Corruption` status. -/
def qlKeyColumnValuesToPrimitiveValues (s : Schema) :
    List (QLValue α) → Nat → Option (List PrimitiveValue)
  | [], _ => some []
  | v :: vs, columnIdx =>
    if columnIdx < s.numKeyColumns then do
      let column ← s.columns[columnIdx]?
      let pv ← keyComponent column v
      let rest ← qlKeyColumnValuesToPrimitiveValues s vs (columnIdx + 1)
      pure (pv :: rest)
    else none

/-- The encoded primary `DocKey` of `QLWriteOperation::InitializeKeys` for the hash code, the
hashed components and the values of the range columns. -/
def primaryDocKey (s : Schema) (hash : UInt16) (hashedComponents : List PrimitiveValue)
    (rangeColumnValues : List (QLValue α)) : Option (List UInt8) :=
  (qlKeyColumnValuesToPrimitiveValues s rangeColumnValues s.numHashKeyColumns).map
    fun range => hashAndRange hash hashedComponents range []

/-- The fields of `DocQLScanSpec` that `bound_key` reads, for a spec of the constructor with a
condition, no `start_doc_key` and `include_static_columns` false: `Bound` then returns
`lower_doc_key_` and `upper_doc_key_`, which the constructor sets to `bound_key(true)` and
`bound_key(false)`. -/
structure DocQLScanSpec (α : Type) where
  schema : Schema
  hashCode : Option Int32
  maxHashCode : Option Int32
  hashedComponents : List PrimitiveValue
  rangeBounds : Option (QLScanRange α)

/-- The constructor: `range_bounds_` is `QLScanRange(schema, *condition)` if there is a
condition. -/
def DocQLScanSpec.create (schema : Schema) (hashCode maxHashCode : Option Int32)
    (hashedComponents : List PrimitiveValue) (condition : Option (QLCondition α)) :
    Option (DocQLScanSpec α) :=
  match condition with
  | none => some ⟨schema, hashCode, maxHashCode, hashedComponents, none⟩
  | some c => (ofCondition schema c).map
      fun r => ⟨schema, hashCode, maxHashCode, hashedComponents, some r⟩

/-- The body of the loop of `range_components`: a null end is `kLowest` below and `kHighest`
above. -/
def rangeComponent (lowerBound : Bool) (column : ColumnSchema) (value : QLValue α) :
    Option PrimitiveValue :=
  if value.isNull then some (.ofType (if lowerBound then kLowest else kHighest))
  else fromQLValuePB value column.sortingType

/-- The loop of `range_components` over `range_values`, from `schema_.column(column_idx)`. -/
def rangeComponentsLoop (s : Schema) (lowerBound : Bool) :
    List (QLValue α) → Nat → Option (List PrimitiveValue)
  | [], _ => some []
  | v :: vs, columnIdx => do
    let column ← s.columns[columnIdx]?
    let pv ← rangeComponent lowerBound column v
    let rest ← rangeComponentsLoop s lowerBound vs (columnIdx + 1)
    pure (pv :: rest)

namespace DocQLScanSpec

/-- `range_components(lower_bound)`: `kHighest` closes the upper bound, and `kNull`
(`kMinPrimitiveValueType`) keeps an empty lower bound above the static columns. -/
def rangeComponents (spec : DocQLScanSpec α) (lowerBound : Bool) : Option (List PrimitiveValue) :=
  (match spec.rangeBounds with
    | none => some []
    | some r => (r.rangeValues spec.schema lowerBound).bind fun values =>
        rangeComponentsLoop spec.schema lowerBound values spec.schema.numHashKeyColumns).map
    fun result =>
      if !lowerBound then result ++ [PrimitiveValue.ofType kHighest]
      else if spec.schema.hasStatics && result.isEmpty then
        result ++ [PrimitiveValue.ofType kMinPrimitiveValueType]
      else result

/-- `static_cast<DocKeyHash>` of a hash code. -/
def docKeyHash (h : Int32) : UInt16 := h.toUInt32.toUInt16

/-- `bound_key(lower_bound)`. With no hashed components, the hash code bound of a token scan if
there is one; otherwise the `DocKey` of the hash code, the hashed components and the range
components, `none` where a `DCHECK` on the hash codes fails. -/
def boundKey (spec : DocQLScanSpec α) (lowerBound : Bool) : Option (List UInt8) :=
  if spec.hashedComponents.isEmpty then
    if lowerBound then
      some (match spec.hashCode with
        | some h => hashAndRange (docKeyHash h) [.ofType kLowest] [] []
        | none => [])
    else
      some (match spec.maxHashCode with
        | some h => hashAndRange (docKeyHash h) [.ofType kHighest] [] []
        | none => [])
  else
    match spec.hashCode, spec.maxHashCode with
    | some h, some m =>
      if h = m then
        (spec.rangeComponents lowerBound).map
          fun range => hashAndRange (docKeyHash h) spec.hashedComponents range []
      else none
    | _, _ => none

end DocQLScanSpec

end Model

section Laws

variable [UuidVersion]

/-- The key of a scalar in a column of a sort order. -/
def keyOf {α : Type} [QLKeyScalar α] (a : α) (o : SortOrder) : List UInt8 :=
  (QLKeyScalar.fromQLValue a o).toKeyBytes

/-- What the bounds need of a key encoding: between scalars of one value case, ascending keys
order as the scalars and descending ones against them, whatever follows each key; and every
key starts with a value type between `kLowest` and `kHighest`. -/
class LawfulQLKeyScalar (α : Type) [QLKeyScalar α] : Prop where
  keyOf_lt_ascending {a b : α} : QLScalar.valueCase a = QLScalar.valueCase b → a < b →
    PrefixLt (keyOf a .kAscending) (keyOf b .kAscending)
  keyOf_lt_descending {a b : α} : QLScalar.valueCase a = QLScalar.valueCase b → a < b →
    PrefixLt (keyOf b .kDescending) (keyOf a .kDescending)
  lowest_lt_type (a : α) (o : SortOrder) :
    kLowest.toByte < (QLKeyScalar.fromQLValue a o).type.toByte
  type_lt_highest (a : α) (o : SortOrder) :
    (QLKeyScalar.fromQLValue a o).type.toByte < kHighest.toByte

/-- `kFalse` 'F' sorts below `kTrue` 'T', and `kTrueDescending` 'h' below `kFalseDescending` 'i'. -/
instance : LawfulQLKeyScalar Bool where
  keyOf_lt_ascending {a b} _ hab := by
    cases a <;> cases b
    all_goals first | exact absurd hab (by decide) | exact prefixLt_of_head_lt (by decide) [] []
  keyOf_lt_descending {a b} _ hab := by
    cases a <;> cases b
    all_goals first | exact absurd hab (by decide) | exact prefixLt_of_head_lt (by decide) [] []
  lowest_lt_type a o := by cases a <;> cases o <;> decide
  type_lt_highest a o := by cases a <;> cases o <;> decide

variable {α : Type} [QLKeyScalar α] [LawfulQLKeyScalar α]

theorem prefixLe_keyOf_ascending {a b : α} (hcase : QLScalar.valueCase a = QLScalar.valueCase b)
    (hab : a ≤ b) : PrefixLe (keyOf a .kAscending) (keyOf b .kAscending) := by
  rcases hab.lt_or_eq with hlt | rfl
  · exact (LawfulQLKeyScalar.keyOf_lt_ascending hcase hlt).prefixLe
  · exact .refl _

theorem prefixLe_keyOf_descending {a b : α} (hcase : QLScalar.valueCase a = QLScalar.valueCase b)
    (hab : a ≤ b) : PrefixLe (keyOf b .kDescending) (keyOf a .kDescending) := by
  rcases hab.lt_or_eq with hlt | rfl
  · exact (LawfulQLKeyScalar.keyOf_lt_descending hcase hlt).prefixLe
  · exact .refl _

theorem prefixLt_lowest_keyOf (a : α) (o : SortOrder) :
    PrefixLt (PrimitiveValue.ofType kLowest).toKeyBytes (keyOf a o) := by
  rw [keyOf, PrimitiveValue.toKeyBytes_eq_cons (QLKeyScalar.fromQLValue a o)]
  exact prefixLt_of_head_lt (LawfulQLKeyScalar.lowest_lt_type a o) [] _

theorem prefixLt_keyOf_highest (a : α) (o : SortOrder) :
    PrefixLt (keyOf a o) (PrimitiveValue.ofType kHighest).toKeyBytes := by
  rw [keyOf, PrimitiveValue.toKeyBytes_eq_cons (QLKeyScalar.fromQLValue a o)]
  exact prefixLt_of_head_lt (LawfulQLKeyScalar.type_lt_highest a o) _ []

end Laws

section Encoding

variable [UuidVersion] {α : Type} [QLKeyScalar α]

theorem foldl_appendToKey (items : List PrimitiveValue) (out : List UInt8) :
    items.foldl (fun out item => item.appendToKey out) out =
      out ++ (items.map PrimitiveValue.toKeyBytes).flatten := by
  induction items generalizing out with
  | nil => simp
  | cons v items ih =>
    rw [List.foldl_cons, ih, PrimitiveValue.appendToKey_eq_append, List.map_cons,
      List.flatten_cons, List.append_assoc]
    rfl

theorem appendDocKeyItems_eq (items : List PrimitiveValue) (out : List UInt8) :
    appendDocKeyItems items out =
      out ++ ((items.map PrimitiveValue.toKeyBytes).flatten ++ [kGroupEnd.toByte]) := by
  rw [appendDocKeyItems, foldl_appendToKey, List.append_assoc]

theorem hashAndRange_eq (hash : UInt16) (hashedGroup rangeGroup : List PrimitiveValue)
    (out : List UInt8) :
    hashAndRange hash hashedGroup rangeGroup out =
      appendDocKeyItems hashedGroup (appendUInt16ToKey hash (out ++ [kUInt16Hash.toByte])) ++
        ((rangeGroup.map PrimitiveValue.toKeyBytes).flatten ++ [kGroupEnd.toByte]) := by
  rw [hashAndRange, appendDocKeyItems_eq rangeGroup]

variable {hash : UInt16} {hashedGroup : List PrimitiveValue} {out : List UInt8}

theorem compare_hashAndRange_ne_gt {rg rg' : List PrimitiveValue}
    (h : List.Forall₂ (fun a b => PrefixLe a.toKeyBytes b.toKeyBytes) rg rg') :
    compare (hashAndRange hash hashedGroup rg out) (hashAndRange hash hashedGroup rg' out) ≠ .gt := by
  have hflat : PrefixLe (rg.map PrimitiveValue.toKeyBytes).flatten
      (rg'.map PrimitiveValue.toKeyBytes).flatten :=
    PrefixLe.flatten (List.forall₂_map_left_iff.mpr (List.forall₂_map_right_iff.mpr h))
  rw [hashAndRange_eq, hashAndRange_eq, compare_append_left]
  exact hflat.compare_append_ne_gt (by decide)

/-- The `kHighest` that closes an upper bound keeps it above a `DocKey` whose range components
are at most its own. -/
theorem compare_hashAndRange_highest_ne_gt {rg rg' : List PrimitiveValue}
    (h : List.Forall₂ (fun a b => PrefixLe a.toKeyBytes b.toKeyBytes) rg rg') :
    compare (hashAndRange hash hashedGroup rg out)
      (hashAndRange hash hashedGroup (rg' ++ [.ofType kHighest]) out) ≠ .gt := by
  have hflat : PrefixLe (rg.map PrimitiveValue.toKeyBytes).flatten
      (rg'.map PrimitiveValue.toKeyBytes).flatten :=
    PrefixLe.flatten (List.forall₂_map_left_iff.mpr (List.forall₂_map_right_iff.mpr h))
  rw [hashAndRange_eq, hashAndRange_eq, compare_append_left, List.map_append, List.flatten_append,
    List.append_assoc]
  have hend : compare [kGroupEnd.toByte] ([kHighest.toByte] ++ [kGroupEnd.toByte]) ≠ .gt := by
    decide
  exact hflat.compare_append_ne_gt hend

end Encoding

section Components

variable {α : Type} [QLKeyScalar α]

/-- The end of a column's range that `range_values(lower_bound)` reads. -/
def boundValue (lowerBound : Bool) (column : ColumnSchema) (range : QLRange α) : QLValue α :=
  if lowerBound ^^ decide (column.sortingType = .kDescending) then range.minValue
  else range.maxValue

@[simp] theorem keyComponent_scalar (column : ColumnSchema) (a : α) :
    keyComponent column (.scalar a) =
      some (QLKeyScalar.fromQLValue a (sortOrderFromColumnSchemaSortingType column.sortingType)) :=
  rfl

@[simp] theorem rangeComponent_null (lowerBound : Bool) (column : ColumnSchema) :
    rangeComponent lowerBound column (.null : QLValue α) =
      some (.ofType (if lowerBound then kLowest else kHighest)) :=
  rfl

@[simp] theorem rangeComponent_scalar (lowerBound : Bool) (column : ColumnSchema) (a : α) :
    rangeComponent lowerBound column (.scalar a) =
      some (QLKeyScalar.fromQLValue a (sortOrderFromColumnSchemaSortingType column.sortingType)) :=
  rfl

theorem sortOrder_of_ne_descending {t : SortingType} (h : t ≠ .kDescending) :
    sortOrderFromColumnSchemaSortingType t = .kAscending := by
  cases t
  · rfl
  · rfl
  · exact absurd rfl h

variable [UuidVersion] [LawfulQLKeyScalar α] {column : ColumnSchema} {range : QLRange α} {a : α}

/-- The lower bound's component of a column is at most the key of every value in its range: the
lower end of an ascending column, the upper end of a descending one. -/
theorem lower_rangeComponent (h : range.Contains (.scalar a)) :
    ∃ pv, rangeComponent true column (boundValue true column range) = some pv ∧
      PrefixLe pv.toKeyBytes (keyOf a (sortOrderFromColumnSchemaSortingType column.sortingType)) := by
  by_cases hd : column.sortingType = .kDescending
  · have hv : boundValue true column range = range.maxValue := by simp [boundValue, hd]
    have ho : sortOrderFromColumnSchemaSortingType column.sortingType = .kDescending := by
      rw [hd]
      rfl
    rw [hv, ho]
    rcases inHi_scalar h.2 with hnull | ⟨b, hb, hcase, hab⟩
    · rw [hnull]
      exact ⟨_, rfl, (prefixLt_lowest_keyOf a _).prefixLe⟩
    · rw [hb]
      exact ⟨QLKeyScalar.fromQLValue b .kDescending, by simp [ho],
        prefixLe_keyOf_descending hcase hab⟩
  · have hv : boundValue true column range = range.minValue := by simp [boundValue, hd]
    have ho := sortOrder_of_ne_descending hd
    rw [hv, ho]
    rcases inLo_scalar h.1 with hnull | ⟨b, hb, hcase, hab⟩
    · rw [hnull]
      exact ⟨_, rfl, (prefixLt_lowest_keyOf a _).prefixLe⟩
    · rw [hb]
      exact ⟨QLKeyScalar.fromQLValue b .kAscending, by simp [ho],
        prefixLe_keyOf_ascending hcase hab⟩

theorem upper_rangeComponent (h : range.Contains (.scalar a)) :
    ∃ pv, rangeComponent false column (boundValue false column range) = some pv ∧
      PrefixLe (keyOf a (sortOrderFromColumnSchemaSortingType column.sortingType)) pv.toKeyBytes := by
  by_cases hd : column.sortingType = .kDescending
  · have hv : boundValue false column range = range.minValue := by simp [boundValue, hd]
    have ho : sortOrderFromColumnSchemaSortingType column.sortingType = .kDescending := by
      rw [hd]
      rfl
    rw [hv, ho]
    rcases inLo_scalar h.1 with hnull | ⟨b, hb, hcase, hab⟩
    · rw [hnull]
      exact ⟨_, rfl, (prefixLt_keyOf_highest a _).prefixLe⟩
    · rw [hb]
      exact ⟨QLKeyScalar.fromQLValue b .kDescending, by simp [ho],
        prefixLe_keyOf_descending hcase hab⟩
  · have hv : boundValue false column range = range.maxValue := by simp [boundValue, hd]
    have ho := sortOrder_of_ne_descending hd
    rw [hv, ho]
    rcases inHi_scalar h.2 with hnull | ⟨b, hb, hcase, hab⟩
    · rw [hnull]
      exact ⟨_, rfl, (prefixLt_keyOf_highest a _).prefixLe⟩
    · rw [hb]
      exact ⟨QLKeyScalar.fromQLValue b .kAscending, by simp [ho],
        prefixLe_keyOf_ascending hcase hab⟩

end Components

section Bounds

variable {α : Type} [QLKeyScalar α]

private theorem drop_eq_cons {l rest : List ColumnSchema} {idx : Nat} {c : ColumnSchema}
    (h : l.drop idx = c :: rest) : l[idx]? = some c ∧ l.drop (idx + 1) = rest := by
  constructor
  · have h0 := congrArg (·[0]?) h
    simpa [List.getElem?_drop] using h0
  · have h1 := congrArg (List.drop 1) h
    simpa [List.drop_drop] using h1

/-- Over columns that follow `column_idx` in the schema, the loop of `range_components` is a
traversal of the columns. -/
theorem rangeComponentsLoop_map {s : Schema} {lowerBound : Bool} {f : ColumnSchema → QLValue α} :
    ∀ {cs rest : List ColumnSchema} {idx : Nat}, s.columns.drop idx = cs ++ rest →
      rangeComponentsLoop s lowerBound (cs.map f) idx =
        cs.mapM fun c => rangeComponent lowerBound c (f c)
  | [], _, _, _ => rfl
  | c :: cs, rest, idx, h => by
    obtain ⟨hc, htail⟩ := drop_eq_cons h
    rw [List.map_cons, rangeComponentsLoop, hc, List.mapM_cons, rangeComponentsLoop_map htail]
    rfl

/-- Over key columns that follow `column_idx`, `QLKeyColumnValuesToPrimitiveValues` is a
traversal of the columns. -/
theorem qlKeyColumnValuesToPrimitiveValues_map {s : Schema} {f : ColumnSchema → QLValue α} :
    ∀ {cs rest : List ColumnSchema} {idx : Nat}, s.columns.drop idx = cs ++ rest →
      idx + cs.length ≤ s.numKeyColumns →
      qlKeyColumnValuesToPrimitiveValues s (cs.map f) idx = cs.mapM fun c => keyComponent c (f c)
  | [], _, _, _, _ => rfl
  | c :: cs, rest, idx, h, hlen => by
    obtain ⟨hc, htail⟩ := drop_eq_cons h
    have hlen' : idx + 1 + cs.length ≤ s.numKeyColumns := by
      simp only [List.length_cons] at hlen
      omega
    rw [List.map_cons, qlKeyColumnValuesToPrimitiveValues, if_pos (by omega), hc, List.mapM_cons,
      qlKeyColumnValuesToPrimitiveValues_map htail hlen']
    rfl

omit [QLKeyScalar α] in
/-- `range_values` reads, for each range column, the end of the range the scan range has for
it. -/
theorem rangeValues_eq_map {s : Schema} (hs : s.HashColumnsFirst) {R : QLScanRange α}
    (hkeys : R.ranges.map Prod.fst = (initialRanges s : List (ColumnId × QLRange α)).map Prod.fst)
    (lowerBound : Bool) :
    R.rangeValues s lowerBound =
      some (s.rangeKeyColumns.map fun c => boundValue lowerBound c ((R.ranges.lookup c.id).getD {})) := by
  rw [rangeValues, hs.filter_keyColumns]
  refine mapM_eq_some_map fun c hc => ?_
  have hsome : (R.ranges.lookup c.id).isSome :=
    (lookup_isSome_of_map_fst_eq hkeys c.id).trans (lookup_initialRanges hc)
  obtain ⟨rg, hrg⟩ := Option.isSome_iff_exists.mp hsome
  simp [hrg, boundValue]

theorem primaryDocKey_eq [UuidVersion] {s : Schema} (hs : s.HashColumnsFirst) (hash : UInt16)
    (hashedComponents : List PrimitiveValue) (row : QLTableRow α) :
    primaryDocKey s hash hashedComponents (s.rangeKeyColumns.map fun c => row.readColumn c.id) =
      (s.rangeKeyColumns.mapM fun c => keyComponent c (row.readColumn c.id)).map
        fun range => hashAndRange hash hashedComponents range [] := by
  obtain ⟨rest, hdrop⟩ := s.drop_numHashKeyColumns
  rw [primaryDocKey, qlKeyColumnValuesToPrimitiveValues_map hdrop (by rw [hs.numHash_add_length])]

namespace DocQLScanSpec

variable {spec : DocQLScanSpec α} {R : QLScanRange α}

/-- The components of the lower bound: one per range column, with no `kNull` where the table
has range columns. -/
theorem rangeComponents_true (hR : spec.rangeBounds = some R) (hs : spec.schema.HashColumnsFirst)
    (hkeys : R.ranges.map Prod.fst =
      (initialRanges spec.schema : List (ColumnId × QLRange α)).map Prod.fst)
    (hstatics : spec.schema.hasStatics = true → spec.schema.rangeKeyColumns ≠ []) :
    spec.rangeComponents true = spec.schema.rangeKeyColumns.mapM
      fun c => rangeComponent true c (boundValue true c ((R.ranges.lookup c.id).getD {})) := by
  obtain ⟨rest, hdrop⟩ := spec.schema.drop_numHashKeyColumns
  rw [rangeComponents, hR]
  dsimp only
  rw [rangeValues_eq_map hs hkeys, Option.bind_some, rangeComponentsLoop_map hdrop]
  cases hm : spec.schema.rangeKeyColumns.mapM
      (fun c => rangeComponent true c (boundValue true c ((R.ranges.lookup c.id).getD {}))) with
  | none => rfl
  | some result =>
    -- The loop yields one component per range column, so a table with statics gets no `kNull`.
    have hlen := (forall₂_of_mapM_eq_some hm).length_eq
    have hne : spec.schema.hasStatics = true → result ≠ [] := by
      rintro hst rfl
      exact hstatics hst (List.eq_nil_of_length_eq_zero hlen)
    cases hst : spec.schema.hasStatics
    · simp
    · simp [hne hst]

theorem rangeComponents_false (hR : spec.rangeBounds = some R) (hs : spec.schema.HashColumnsFirst)
    (hkeys : R.ranges.map Prod.fst =
      (initialRanges spec.schema : List (ColumnId × QLRange α)).map Prod.fst) :
    spec.rangeComponents false = (spec.schema.rangeKeyColumns.mapM
      fun c => rangeComponent false c (boundValue false c ((R.ranges.lookup c.id).getD {}))).map
        (· ++ [.ofType kHighest]) := by
  obtain ⟨rest, hdrop⟩ := spec.schema.drop_numHashKeyColumns
  rw [rangeComponents, hR]
  dsimp only
  rw [rangeValues_eq_map hs hkeys, Option.bind_some, rangeComponentsLoop_map hdrop]
  rfl

theorem boundKey_eq [UuidVersion] {h : Int32} (hhashed : spec.hashedComponents ≠ [])
    (hcode : spec.hashCode = some h) (hmax : spec.maxHashCode = some h) (lowerBound : Bool) :
    spec.boundKey lowerBound = (spec.rangeComponents lowerBound).map
      fun range => hashAndRange (docKeyHash h) spec.hashedComponents range [] := by
  have hne : spec.hashedComponents.isEmpty = false := List.isEmpty_eq_false_iff.mpr hhashed
  rw [boundKey, if_neg (by simp [hne]), hcode, hmax]
  simp

variable [UuidVersion] [LawfulQLKeyScalar α]

/-- A row whose range column values lie in the ranges of the scan is stored under a `DocKey`
between the bounds of the scan of its hash key. -/
theorem boundKey_le_primaryDocKey (hR : spec.rangeBounds = some R)
    (hs : spec.schema.HashColumnsFirst)
    (hkeys : R.ranges.map Prod.fst =
      (initialRanges spec.schema : List (ColumnId × QLRange α)).map Prod.fst)
    (hstatics : spec.schema.hasStatics = true → spec.schema.rangeKeyColumns ≠ [])
    {h : Int32} (hhashed : spec.hashedComponents ≠ []) (hcode : spec.hashCode = some h)
    (hmax : spec.maxHashCode = some h) {row : QLTableRow α}
    (hrow : ∀ col ∈ spec.schema.rangeKeyColumns, ∃ a, row.readColumn col.id = .scalar a ∧
      ((R.ranges.lookup col.id).getD {}).Contains (.scalar a)) :
    ∃ lower upper key, spec.boundKey true = some lower ∧ spec.boundKey false = some upper ∧
      primaryDocKey spec.schema (docKeyHash h) spec.hashedComponents
        (spec.schema.rangeKeyColumns.map fun col => row.readColumn col.id) = some key ∧
      compare lower key ≠ .gt ∧ compare key upper ≠ .gt := by
  -- Column by column: the lower component, the row's component and the upper component.
  have hlower : ∀ col ∈ spec.schema.rangeKeyColumns, ∃ pv kv,
      rangeComponent true col (boundValue true col ((R.ranges.lookup col.id).getD {})) = some pv ∧
      keyComponent col (row.readColumn col.id) = some kv ∧ PrefixLe pv.toKeyBytes kv.toKeyBytes := by
    intro col hcol
    obtain ⟨a, ha, hc⟩ := hrow col hcol
    obtain ⟨pv, hpv, hle⟩ := lower_rangeComponent hc
    exact ⟨pv, _, hpv, by rw [ha, keyComponent_scalar], hle⟩
  have hupper : ∀ col ∈ spec.schema.rangeKeyColumns, ∃ kv pv,
      keyComponent col (row.readColumn col.id) = some kv ∧
      rangeComponent false col (boundValue false col ((R.ranges.lookup col.id).getD {})) = some pv ∧
      PrefixLe kv.toKeyBytes pv.toKeyBytes := by
    intro col hcol
    obtain ⟨a, ha, hc⟩ := hrow col hcol
    obtain ⟨pv, hpv, hle⟩ := upper_rangeComponent hc
    exact ⟨_, pv, by rw [ha, keyComponent_scalar], hpv, hle⟩
  obtain ⟨ls, ks, hls, hks, hlk⟩ := forall₂_of_mapM_of_mapM hlower
  obtain ⟨ks', us, hks', hus, hku⟩ := forall₂_of_mapM_of_mapM hupper
  obtain rfl : ks' = ks := Option.some.inj (hks'.symm.trans hks)
  refine ⟨hashAndRange (docKeyHash h) spec.hashedComponents ls [],
    hashAndRange (docKeyHash h) spec.hashedComponents (us ++ [.ofType kHighest]) [],
    hashAndRange (docKeyHash h) spec.hashedComponents ks' [], ?_, ?_, ?_,
    compare_hashAndRange_ne_gt hlk, compare_hashAndRange_highest_ne_gt hku⟩
  · rw [boundKey_eq hhashed hcode hmax, rangeComponents_true hR hs hkeys hstatics, hls]
    rfl
  · rw [boundKey_eq hhashed hcode hmax, rangeComponents_false hR hs hkeys, hus]
    rfl
  · rw [primaryDocKey_eq hs, hks']
    rfl

end DocQLScanSpec

end Bounds

section Scan

variable {α : Type} [QLKeyScalar α] [UuidVersion] [LawfulQLKeyScalar α]

end Scan

section MixedOrder

attribute [local instance] nibbleVersion

/-- A table keyed by a hash column `h`, an ascending range column `c` and a descending range
column `d`, all booleans. -/
def mixedOrderSchema : Schema where
  columns := [⟨⟨0⟩, true, false, .kNotSpecified⟩, ⟨⟨1⟩, false, false, .kAscending⟩,
    ⟨⟨2⟩, false, false, .kDescending⟩]
  numKeyColumns := 3
  numKeyColumns_le := by decide

/-- `c = true AND NOT (d < true)`. -/
def equalAndNotLess : QLCondition Bool :=
  ⟨.QL_OP_AND, [.condition ⟨.QL_OP_EQUAL, [.columnId ⟨1⟩, .value (.scalar true)]⟩,
    .condition ⟨.QL_OP_NOT, [.condition ⟨.QL_OP_LESS_THAN, [.columnId ⟨2⟩, .value (.scalar true)]⟩]⟩]⟩

/-- The row `h = false, c = true, d = true`. -/
def mixedOrderRow : QLTableRow Bool :=
  ⟨[(⟨0⟩, .scalar false), (⟨1⟩, .scalar true), (⟨2⟩, .scalar true)]⟩

/-- The scan of hash code 7 and `h = false`: `c` in `[true, true]`, `d` at least `true`. -/
def mixedOrderSpec : DocQLScanSpec Bool :=
  ⟨mixedOrderSchema, some 7, some 7, [.ofType kFalse],
    some ⟨[(⟨1⟩, ⟨.scalar true, .scalar true⟩), (⟨2⟩, ⟨.scalar true, .null⟩)], false⟩⟩

end MixedOrder

end FrescoDB.Docdb
