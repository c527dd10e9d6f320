import FrescoDB.Docdb.QLValueKey
import FrescoDB.Docdb.PrimitiveValueOrder
import FrescoDB.Util.DecimalComparable

/-! Decimal columns in DocDB. A `QLValuePB` holds a decimal as its comparable encoding, which
`Compare` compares as bytes (the source: "Encoded decimal is byte-comparable"), and
`FromQLValuePB` puts it in a `PrimitiveValue` of type `kDecimal` or `kDecimalDescending`, whose
key complements every byte but the single byte of zero. For canonical decimals the order of
`Compare`, of the keys and of `CompareTo` is the order of the numbers, the key's and
`CompareTo`'s reversed in a descending column. -/
namespace FrescoDB.Docdb

open FrescoDB.Lib FrescoDB.Util FrescoDB.Common ValueType

theorem compare_stringCompare (x y : List UInt8) : compare (stringCompare x y) 0 = compare x y := by
  unfold stringCompare
  cases compare x y <;> decide

namespace PrimitiveValue

theorem appendComparableDescending_encodeToComparable {d : Decimal} (hv : d.Valid) :
    appendComparableDescending d.encodeToComparable [] = d.neg.encodeToComparable := by
  by_cases hne : d.digits = []
  · obtain rfl := Decimal.eq_zero_of_digits_eq_nil hv hne
    rfl
  obtain ⟨c, tl, hc, -, henc⟩ := Decimal.encodeToComparable_of_ne_nil hne
  obtain ⟨hpos, -, hneg, -⟩ := Decimal.firstByte_set c hc
  have hhead : d.encodeToComparable.headD 0 ≠ 128 := by
    rw [henc]
    split <;> simpa [VarInt.flipBits]
  rw [appendComparableDescending, if_neg hhead, List.nil_append,
    ← Decimal.encodeToComparable_neg hv hne]
  rfl

variable [UuidVersion]

theorem toKeyBytes_fromQLValuePB_decimalValue (v : List UInt8) (s : SortingType) :
    (fromQLValuePB (.decimalValue v) s).toKeyBytes =
      (fromQLValuePB (.decimalValue v) s).type.toByte ::
        if sortOrderFromColumnSchemaSortingType s = .kDescending then
          appendComparableDescending v [] else v := by
  rw [toKeyBytes, appendToKey_of_not_frozen (by cases s <;> rfl)]
  cases s
  · rfl
  · rfl
  · -- a descending column
    exact appendComparableDescending_eq v _

/-- In a decimal column of canonical decimals, `Compare` of the encoded values, the order of their
keys and `CompareTo` of their primitive values all follow the numbers, the keys and `CompareTo`
reversed in a descending column. -/
theorem decimal_column_order {a b : Decimal} (ha : a.Valid) (hb : b.Valid) (s : SortingType) :
    (∃ c, (QLValuePB.decimalValue a.encodeToComparable).compare
        (.decimalValue b.encodeToComparable) = some c ∧ compare c 0 = compare a.value b.value) ∧
    compare (fromQLValuePB (.decimalValue a.encodeToComparable) s).toKeyBytes
        (fromQLValuePB (.decimalValue b.encodeToComparable) s).toKeyBytes =
      (if sortOrderFromColumnSchemaSortingType s = .kDescending then compare b.value a.value
        else compare a.value b.value) ∧
    compareTo (fromQLValuePB (.decimalValue a.encodeToComparable) s)
        (fromQLValuePB (.decimalValue b.encodeToComparable) s) =
      (if sortOrderFromColumnSchemaSortingType s = .kDescending then compare b.value a.value
        else compare a.value b.value) := by
  have htype : (fromQLValuePB (.decimalValue b.encodeToComparable) s).type =
      (fromQLValuePB (.decimalValue a.encodeToComparable) s).type := by
    cases s <;> rfl
  refine ⟨⟨_, rfl, ?_⟩, ?_, ?_⟩
  · rw [compare_stringCompare, Decimal.compare_encodeToComparable ha hb]
  · rw [toKeyBytes_fromQLValuePB_decimalValue, toKeyBytes_fromQLValuePB_decimalValue, htype,
      List.compare_cons_cons, compare_uint8_self, Ordering.eq_then]
    split
    · -- the complemented keys are the keys of the negations
      rw [appendComparableDescending_encodeToComparable ha,
        appendComparableDescending_encodeToComparable hb,
        Decimal.compare_encodeToComparable (Decimal.valid_neg ha) (Decimal.valid_neg hb),
        Decimal.value_neg_eq, Decimal.value_neg_eq]
      exact compare_eq_compare neg_lt_neg_iff (neg_inj.trans eq_comm)
    · exact Decimal.compare_encodeToComparable ha hb
  · rw [compareTo_same_type htype.symm (by cases s <;> rfl)]
    cases s
    · exact Decimal.compare_encodeToComparable ha hb
    · exact Decimal.compare_encodeToComparable ha hb
    · exact Decimal.compare_encodeToComparable hb ha

end PrimitiveValue

/-- `-12.5` and `0.03`. -/
def decimalMinusTwelveAndHalf : Decimal := ⟨[1, 2, 5], 2, false⟩
def decimalThreeHundredths : Decimal := ⟨[3], -1, true⟩

theorem decimal_column_order_descending :
    decimalMinusTwelveAndHalf.Valid ∧ decimalThreeHundredths.Valid ∧
    ((∃ c, (QLValuePB.decimalValue decimalMinusTwelveAndHalf.encodeToComparable).compare
        (.decimalValue decimalThreeHundredths.encodeToComparable) = some c ∧
          compare c 0 = compare decimalMinusTwelveAndHalf.value decimalThreeHundredths.value) ∧
    compare (@PrimitiveValue.toKeyBytes nibbleVersion
        (PrimitiveValue.fromQLValuePB (.decimalValue decimalMinusTwelveAndHalf.encodeToComparable)
          .kDescending))
        (@PrimitiveValue.toKeyBytes nibbleVersion (PrimitiveValue.fromQLValuePB
          (.decimalValue decimalThreeHundredths.encodeToComparable) .kDescending)) =
      (if sortOrderFromColumnSchemaSortingType .kDescending = .kDescending then
          compare decimalThreeHundredths.value decimalMinusTwelveAndHalf.value
        else compare decimalMinusTwelveAndHalf.value decimalThreeHundredths.value) ∧
    @PrimitiveValue.compareTo nibbleVersion
        (PrimitiveValue.fromQLValuePB (.decimalValue decimalMinusTwelveAndHalf.encodeToComparable)
          .kDescending)
        (PrimitiveValue.fromQLValuePB (.decimalValue decimalThreeHundredths.encodeToComparable)
          .kDescending) =
      (if sortOrderFromColumnSchemaSortingType .kDescending = .kDescending then
          compare decimalThreeHundredths.value decimalMinusTwelveAndHalf.value
        else compare decimalMinusTwelveAndHalf.value decimalThreeHundredths.value)) :=
  ⟨by decide, by decide,
    @PrimitiveValue.decimal_column_order nibbleVersion decimalMinusTwelveAndHalf
      decimalThreeHundredths (by decide) (by decide) .kDescending⟩

end FrescoDB.Docdb
