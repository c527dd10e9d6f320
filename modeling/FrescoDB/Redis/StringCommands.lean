import FrescoDB.Redis.RedisParser

/-! The Redis string commands against what they are meant to do. For each command the parser
accepts, and each value the key may hold, the response and what the key holds after it are those
of a model stated on lists and integers: `GETRANGE` answers a slice with indices counted from the
end when negative, `SETRANGE` writes over a zero-padded string, `APPEND` concatenates, the
increments add to the old value that `CheckedStoll` reads when the sum is an `int64_t`, and a key
of another type is answered with `WRONG_TYPE` and left as it was. `GETRANGE` departs from the
model at an end of `INT32_MAX`, whose successor the code computes in `int32_t`. -/
namespace FrescoDB.Redis

open FrescoDB.Util FrescoDB.Docdb

/-! ### The indices of `GETRANGE` -/

/-- An index counted from the end of `len` bytes when negative. -/
def fromEnd (len i : Int) : Int := if i < 0 then i + len else i

theorem toInt_add_of_range {a b : Int32} (hlo : -2 ^ 31 ≤ a.toInt + b.toInt)
    (hhi : a.toInt + b.toInt < 2 ^ 31) : (a + b).toInt = a.toInt + b.toInt := by
  rw [Int32.toInt_add, Int.bmod_def]
  split_ifs <;> omega

theorem toInt_applyIndex (index len : Int32) (hlen : 0 ≤ len.toInt) :
    (applyIndex index len).toInt = min len.toInt (max 0 (fromEnd len.toInt index.toInt)) := by
  have hi := index.toInt_lt
  have hl := len.toInt_lt
  have hi' := index.le_toInt
  unfold applyIndex fromEnd
  by_cases hneg : index.toInt < 0
  · -- a negative index counts back from the end, within int32_t
    have hsum : (index + len).toInt = index.toInt + len.toInt :=
      toInt_add_of_range (by omega) (by omega)
    simp only [Int32.lt_iff_toInt_lt, Int32.toInt_zero, hneg, if_true, apply_ite Int32.toInt, hsum]
    split_ifs <;> omega
  · simp only [Int32.lt_iff_toInt_lt, Int32.toInt_zero, hneg, if_false, apply_ite Int32.toInt]
    split_ifs <;> omega

/-- What `GETRANGE start end` answers for the string `s`: the bytes from `max 0 n(start)` up to,
not including, `min |s| (n(end) + 1)`, where `n` counts a negative index from the end. -/
def getRangeSpec (s : List UInt8) (start endIndex : Int) : List UInt8 :=
  let a := max 0 (fromEnd s.length start)
  let b := min (s.length : Int) (fromEnd s.length endIndex + 1)
  (s.drop a.toNat).take (b - a).toNat

theorem toInt_ofNat_of_lt {n : Nat} (h : n < 2 ^ 31) : (Int32.ofNat n).toInt = n := by
  have hsize : (Int32.size : Int) = 2 ^ 32 := rfl
  rw [Int32.toInt_ofNat', Int.bmod_def, hsize]
  split_ifs <;> omega

/-- The slice `ExecuteGetRange` takes from where `ApplyIndex` put the start: past the end there
is nothing, and otherwise only the length counts. -/
theorem take_drop_applyIndex {s : List UInt8} {st : Int32} {e a b : Int}
    (hst : st.toInt = min (s.length : Int) a) (ha : 0 ≤ a)
    (hcount : a ≤ s.length → (e - st.toInt).toNat = (b - a).toNat) :
    (s.drop st.toInt.toNat).take (e - st.toInt).toNat = (s.drop a.toNat).take (b - a).toNat := by
  by_cases hin : a ≤ s.length
  · rw [hcount hin, hst, min_eq_right hin]
  · rw [List.drop_eq_nil_of_le (by omega), List.drop_eq_nil_of_le (by omega), List.take_nil,
      List.take_nil]

theorem toInt_ite_lt (en st : Int32) : (if en < st then st else en).toInt = max en.toInt st.toInt := by
  by_cases h : en < st
  · rw [if_pos h]
    rw [Int32.lt_iff_toInt_lt] at h
    omega
  · rw [if_neg h]
    rw [Int32.lt_iff_toInt_lt] at h
    omega

/-- The bytes of `ExecuteGetRange`: the range the claim describes, except for an end of
`INT32_MAX`, whose successor wraps to `INT32_MIN` and leaves nothing. -/
theorem getRangeBytes_eq {s : List UInt8} (hlen : s.length < 2 ^ 31) (start endIndex : Int32) :
    getRangeBytes s start endIndex =
      if endIndex = Int32.maxValue then [] else getRangeSpec s start.toInt endIndex.toInt := by
  have hL := toInt_ofNat_of_lt hlen
  have hst := toInt_applyIndex start (Int32.ofNat s.length) (by omega)
  rw [hL] at hst
  unfold getRangeBytes getRangeSpec
  dsimp only
  generalize applyIndex start (Int32.ofNat s.length) = st at hst ⊢
  have he := endIndex.toInt_lt
  have he' := endIndex.le_toInt
  by_cases hmax : endIndex = Int32.maxValue
  · -- end + 1 wraps to INT32_MIN, which ApplyIndex takes to 0
    have hwrap : endIndex + 1 = Int32.minValue := by rw [hmax]; decide
    have hen := toInt_applyIndex Int32.minValue (Int32.ofNat s.length) (by omega)
    rw [hL, Int32.toInt_minValue] at hen
    have h0 : Int32.minValue ≠ 0 := by decide
    rw [hwrap, if_neg h0, if_pos hmax, toInt_ite_lt, hen]
    unfold fromEnd at hst
    have hcount : (max (min (s.length : Int) (max 0 (fromEnd s.length (-2 ^ 31)))) st.toInt -
        st.toInt).toNat = 0 := by
      unfold fromEnd
      split_ifs <;> omega
    rw [hcount, List.take_zero]
  · have hne : endIndex.toInt ≠ 2 ^ 31 - 1 := by
      intro h
      exact hmax (Int32.toInt_inj.mp (by rw [h, Int32.toInt_maxValue]))
    have hsucc : (endIndex + 1).toInt = endIndex.toInt + 1 :=
      toInt_add_of_range (by simp; omega) (by simp; omega)
    rw [if_neg hmax, toInt_ite_lt]
    -- the exclusive end, as ApplyIndex leaves it, is the claim's end clamped at 0
    have hen : (applyIndex (if endIndex + 1 = 0 then Int32.ofNat s.length else endIndex + 1)
        (Int32.ofNat s.length)).toInt =
        max 0 (min (s.length : Int) (fromEnd s.length endIndex.toInt + 1)) := by
      by_cases hm1 : endIndex + 1 = 0
      · have hm1' : endIndex.toInt = -1 := by
          have := congrArg Int32.toInt hm1
          rw [hsucc, Int32.toInt_zero] at this
          omega
        rw [if_pos hm1, toInt_applyIndex _ _ (by omega), hL]
        unfold fromEnd
        split_ifs <;> omega
      · have hm1' : endIndex.toInt ≠ -1 := by
          intro h
          exact hm1 (Int32.toInt_inj.mp (by rw [hsucc, h, Int32.toInt_zero]; rfl))
        rw [if_neg hm1, toInt_applyIndex _ _ (by omega), hL, hsucc]
        unfold fromEnd
        split_ifs <;> omega
    rw [hen]
    apply take_drop_applyIndex hst (le_max_left _ _)
    intro hin
    rw [hst, min_eq_right hin]
    omega

/-! ### The commands on the value of one key -/

/-- The string a key holds as the string commands read it: none is the empty string, and a key
of another type has none. -/
def stringValue? : RedisStored → Option (List UInt8)
  | .none => some []
  | .string s => some s
  | _ => none

/-- The fields of the hash a key holds as `HINCRBY` reads it: none is the empty hash, and a key
of another type has none. -/
def hashFields? : RedisStored → Option (List (List UInt8 × List UInt8))
  | .none => some []
  | .hash fields => some fields
  | _ => none

/-- The code a string command answers with before it sets its own: `NIL` for a missing key. -/
def foundCode : RedisStored → RedisStatusCode
  | .none => .nil
  | _ => .ok

/-- The answer of a command that refuses the type of the key: `WRONG_TYPE`, nothing written. -/
def wrongTypeResponse : RedisResponsePB :=
  { code := some .wrongType, errorMessage := some wrongTypeMessage }

theorem getRedisValue_of_subkey_nil {kv : RedisKeyValuePB} (h : kv.subkey = []) (stored : RedisStored)
    (subkeyIndex : Option Nat) : getRedisValue stored kv subkeyIndex = .ok (topLevelValue stored) := by
  simp [getRedisValue, h]

theorem verifyTypeAndSetCode_of_stringValue {stored : RedisStored} {s : List UInt8}
    (hs : stringValue? stored = some s) (response : RedisResponsePB) :
    (topLevelValue stored).value = s ∧
      verifyTypeAndSetCode .redisTypeString (topLevelValue stored).type response =
        (true, { response with code := some (foundCode stored) }) := by
  cases stored with
  | none =>
    cases hs
    exact ⟨rfl, rfl⟩
  | string s' =>
    cases hs
    exact ⟨rfl, rfl⟩
  | hash _ => cases hs
  | collection _ => cases hs

theorem verifyTypeAndSetCode_of_stringValue_none {stored : RedisStored}
    (hs : stringValue? stored = none) :
    verifyTypeAndSetCode .redisTypeString (topLevelValue stored).type {} = (false, wrongTypeResponse) := by
  cases stored with
  | none => cases hs
  | string _ => cases hs
  | hash _ => rfl
  | collection t => cases t <;> rfl

theorem executeGetRange_of_stringValue {stored : RedisStored} {s : List UInt8}
    (hs : stringValue? stored = some s) (start endIndex : Int32) :
    executeGetRange {} start endIndex stored =
      .ok { code := some .ok, responseData := .stringResponse (getRangeBytes s start endIndex) } := by
  obtain ⟨hv, hver⟩ := verifyTypeAndSetCode_of_stringValue hs {}
  simp only [executeGetRange, getRedisValue_of_subkey_nil, bind, Except.bind, hver, hv]
  rfl

theorem executeGetRange_of_stringValue_none {stored : RedisStored}
    (hs : stringValue? stored = none) (start endIndex : Int32) :
    executeGetRange {} start endIndex stored = .ok wrongTypeResponse := by
  simp only [executeGetRange, getRedisValue_of_subkey_nil, bind, Except.bind,
    verifyTypeAndSetCode_of_stringValue_none hs]
  rfl

theorem applyGetSet_of_stringValue {stored : RedisStored} {s v : List UInt8}
    (hs : stringValue? stored = some s) :
    applyGetSet { value := [v] } stored =
      .ok ({ code := some (foundCode stored), responseData := .stringResponse s }, .string v) := by
  obtain ⟨hv, hver⟩ := verifyTypeAndSetCode_of_stringValue hs {}
  simp only [applyGetSet, getRedisValue_of_subkey_nil, bind, Except.bind, hver, hv]
  rfl

theorem applyAppend_of_stringValue {stored : RedisStored} {s v : List UInt8}
    (hs : stringValue? stored = some s) :
    applyAppend { value := [v] } stored =
      .ok ({ code := some .ok, responseData := .intResponse (s ++ v).length }, .string (s ++ v)) := by
  obtain ⟨hv, hver⟩ := verifyTypeAndSetCode_of_stringValue hs {}
  simp only [applyAppend, getRedisValue_of_subkey_nil, bind, Except.bind, hver, hv]
  rfl

/-- What `SETRANGE offset v` stores over `s`: the first `offset` bytes of `s`, padded with zero
bytes up to `offset`, then `v`, then what is left of `s` after the bytes `v` covers. -/
def setRangeSpec (s : List UInt8) (offset : Nat) (v : List UInt8) : List UInt8 :=
  s.take offset ++ List.replicate (offset - s.length) 0 ++ v ++ s.drop (offset + v.length)

theorem replaceRange_resize (s : List UInt8) (offset : Nat) (v : List UInt8) :
    replaceRange (if offset > s.length then resizeZero s offset else s) offset v.length v =
      setRangeSpec s offset v := by
  unfold replaceRange setRangeSpec resizeZero
  split_ifs with hpast
  · -- the zero bytes fill the string up to the offset, and nothing of it is left after v
    rw [List.take_append, List.take_of_length_le (by omega),
      List.take_of_length_le (by simp), List.drop_eq_nil_of_le (by simp; omega),
      List.drop_eq_nil_of_le (by omega)]
  · rw [Nat.sub_eq_zero_of_le (by omega)]
    simp

theorem applySetRange_of_stringValue {stored : RedisStored} {s v : List UInt8} {offset : Int32}
    (hs : stringValue? stored = some s) (hoffset : 0 ≤ offset.toInt) :
    applySetRange { value := [v] } offset stored =
      some (.ok
        ({ code := some .ok, responseData := .intResponse (setRangeSpec s offset.toInt.toNat v).length },
          .string (setRangeSpec s offset.toInt.toNat v))) := by
  obtain ⟨hv, hver⟩ := verifyTypeAndSetCode_of_stringValue hs {}
  simp only [applySetRange, getRedisValue_of_subkey_nil, hver, hv, List.length_singleton,
    ne_eq, not_true_eq_false, if_false, Bool.not_true, Bool.false_eq_true, not_lt.mpr hoffset,
    List.getD_cons_zero, replaceRange_resize]

theorem applyGetSet_of_stringValue_none {stored : RedisStored} {v : List UInt8}
    (hs : stringValue? stored = none) :
    applyGetSet { value := [v] } stored = .ok (wrongTypeResponse, stored) := by
  simp only [applyGetSet, getRedisValue_of_subkey_nil, bind, Except.bind,
    verifyTypeAndSetCode_of_stringValue_none hs]
  rfl

theorem applyAppend_of_stringValue_none {stored : RedisStored} {v : List UInt8}
    (hs : stringValue? stored = none) :
    applyAppend { value := [v] } stored = .ok (wrongTypeResponse, stored) := by
  simp only [applyAppend, getRedisValue_of_subkey_nil, bind, Except.bind,
    verifyTypeAndSetCode_of_stringValue_none hs]
  rfl

theorem applySetRange_of_stringValue_none {stored : RedisStored} {v : List UInt8} {offset : Int32}
    (hs : stringValue? stored = none) :
    applySetRange { value := [v] } offset stored = some (.ok (wrongTypeResponse, stored)) := by
  simp only [applySetRange, getRedisValue_of_subkey_nil, verifyTypeAndSetCode_of_stringValue_none hs]
  rfl

/-! ### `INCR`, `INCRBY` and `HINCRBY` -/

/-- What an increment by `k` answers and leaves, from the old value as `CheckedStoll` reads it
(`none` when it refuses it): the sum, written by `written`, when it is an `int64_t`, and an error
with nothing written otherwise. -/
def incrOutcome (old : Option Int) (k : Int) (stored : RedisStored) (written : Int → RedisStored) :
    RedisResponsePB × RedisStored :=
  match old with
  | none =>
    ({ code := some .wrongType, errorMessage := some "ERR value is not an integer or out of range" },
      stored)
  | some x =>
    if int64Min ≤ x + k ∧ x + k ≤ int64Max then
      ({ code := some .ok, responseData := .intResponse (x + k) }, written (x + k))
    else ({ code := some .wrongType, errorMessage := some "Increment would overflow" }, stored)

theorem checkedStoll_bounds {s : List UInt8} {v : Int} (h : checkedStoll s = some v) :
    int64Min ≤ v ∧ v ≤ int64Max := by
  obtain ⟨_, _, _, _, _, _, hmin, hmax⟩ := checkedStoll_eq_some.mp h
  exact ⟨hmin, hmax⟩

/-- `ApplyIncr`'s overflow test, which subtracts only where the difference is an `int64_t`, holds
exactly when the sum is not one. -/
theorem incr_overflow_iff {x k : Int} (hx : int64Min ≤ x ∧ x ≤ int64Max)
    (hk : int64Min ≤ k ∧ k ≤ int64Max) :
    ((k < 0 ∧ x < 0 ∧ k < int64Min - x) ∨ (0 < k ∧ 0 < x ∧ int64Max - x < k)) ↔
      ¬(int64Min ≤ x + k ∧ x + k ≤ int64Max) := by
  unfold int64Min int64Max at *
  omega

theorem ite_incr_overflow {α : Type} {x k : Int} (hx : int64Min ≤ x ∧ x ≤ int64Max)
    (hk : int64Min ≤ k ∧ k ≤ int64Max) (overflow written : α) :
    (if (k < 0 ∧ x < 0 ∧ k < int64Min - x) ∨ (0 < k ∧ 0 < x ∧ int64Max - x < k) then overflow
      else written) = if int64Min ≤ x + k ∧ x + k ≤ int64Max then written else overflow := by
  by_cases hin : int64Min ≤ x + k ∧ x + k ≤ int64Max
  · rw [if_neg ((incr_overflow_iff hx hk).not.mpr (not_not.mpr hin)), if_pos hin]
  · rw [if_pos ((incr_overflow_iff hx hk).mpr hin), if_neg hin]

theorem applyIncr_of_stringValue {stored : RedisStored} {s : List UInt8} {k : Int}
    (hs : stringValue? stored = some s) (hk : int64Min ≤ k ∧ k ≤ int64Max) :
    applyIncr { type := .redisTypeString } k stored =
      .ok (incrOutcome (if stored = .none then some 0 else checkedStoll s) k stored
        fun n => .string (toDecimalString n)) := by
  cases stored with
  | none =>
    -- a missing value counts as 0, and 0 + k cannot overflow
    cases hs
    simp [applyIncr, topLevelValue, verifyTypeAndSetCode, getRedisValue, incrOutcome, bind,
      Except.bind, pure, Except.pure, hk]
  | string s' =>
    cases hs
    cases hold : checkedStoll s with
    | none =>
      simp [applyIncr, topLevelValue, verifyTypeAndSetCode, getRedisValue, incrOutcome, bind,
        Except.bind, pure, Except.pure, hold]
    | some x =>
      simp [applyIncr, topLevelValue, verifyTypeAndSetCode, getRedisValue, incrOutcome, bind,
        Except.bind, pure, Except.pure, hold, ite_incr_overflow (checkedStoll_bounds hold) hk]
      -- the sum decides between the write and the error in the same way on both sides
      split_ifs <;> rfl
  | hash _ => cases hs
  | collection _ => cases hs

/-- The old value of a field for `HINCRBY`: 0 when the hash has none. -/
def fieldOldValue (fields : List (List UInt8 × List UInt8)) (f : List UInt8) : Option Int :=
  match fields.lookup f with
  | none => some 0
  | some str => checkedStoll str

theorem applyIncr_of_hashFields {stored : RedisStored} {fields : List (List UInt8 × List UInt8)}
    {f : List UInt8} {k : Int} (hf : hashFields? stored = some fields)
    (hk : int64Min ≤ k ∧ k ≤ int64Max) :
    applyIncr { type := .redisTypeHash, subkey := [f] } k stored =
      .ok (incrOutcome (fieldOldValue fields f) k stored
        fun n => .hash ((f, toDecimalString n) :: fields)) := by
  have hcases : stored = .none ∧ fields = [] ∨ stored = .hash fields := by
    cases stored with
    | none => exact Or.inl ⟨rfl, by cases hf; rfl⟩
    | hash fs => exact Or.inr (by cases hf; rfl)
    | string _ => cases hf
    | collection _ => cases hf
  -- the field is read at the key and subkey, and counts as 0 when the hash lacks it
  cases hold : fields.lookup f with
  | none =>
    rcases hcases with ⟨rfl, rfl⟩ | rfl
    · simp [applyIncr, topLevelValue, verifyTypeAndSetCode, getRedisValue, subkeyValue,
        incrOutcome, fieldOldValue, bind, Except.bind, pure, Except.pure, hk]
    · simp [applyIncr, topLevelValue, verifyTypeAndSetCode, getRedisValue, subkeyValue,
        incrOutcome, fieldOldValue, bind, Except.bind, pure, Except.pure, hk, hold]
  | some str =>
    rcases hcases with ⟨rfl, rfl⟩ | rfl
    · cases hold
    · cases hstoll : checkedStoll str with
      | none =>
        simp [applyIncr, topLevelValue, verifyTypeAndSetCode, getRedisValue, subkeyValue,
          incrOutcome, fieldOldValue, bind, Except.bind, pure, Except.pure, hold, hstoll]
      | some x =>
        simp [applyIncr, topLevelValue, verifyTypeAndSetCode, getRedisValue, subkeyValue,
          incrOutcome, fieldOldValue, bind, Except.bind, pure, Except.pure, hold, hstoll,
          ite_incr_overflow (checkedStoll_bounds hstoll) hk]
        split_ifs <;> rfl

theorem applyIncr_of_stringValue_none {stored : RedisStored} {k : Int}
    (hs : stringValue? stored = none) :
    applyIncr { type := .redisTypeString } k stored = .ok (wrongTypeResponse, stored) := by
  cases stored with
  | none => cases hs
  | string _ => cases hs
  | hash _ => rfl
  | collection t => cases t <;> rfl

theorem applyIncr_of_hashFields_none {stored : RedisStored} {f : List UInt8} {k : Int}
    (hh : hashFields? stored = none) :
    applyIncr { type := .redisTypeHash, subkey := [f] } k stored = .ok (wrongTypeResponse, stored) := by
  cases stored with
  | none => cases hh
  | hash _ => cases hh
  | string _ => rfl
  | collection t => cases t <;> rfl

/-! ### The parsers -/

theorem parseInt64_eq_ok {slice : List UInt8} {field : String} {v : Int}
    (h : parseInt64 slice field = .ok v) : checkedStoll slice = some v := by
  unfold parseInt64 at h
  split at h
  · cases h
    assumption
  · cases h

theorem parseSetRange_eq_ok {args : List (List UInt8)} {op : YBRedisWriteOp}
    (h : parseSetRange args = .ok op) :
    ∃ offset : Int32, 0 ≤ offset.toInt ∧
      op = ⟨{ value := [arg args 3] }, .setRangeRequest offset⟩ := by
  unfold parseSetRange at h
  cases hp : parseInt32 (arg args 2) "offset" with
  | error status => simp [hp, bind, Except.bind] at h
  | ok offset =>
    simp only [hp, bind, Except.bind] at h
    -- the negative offset was thrown; what is left returns the request
    split_ifs at h with hneg
    cases h
    exact ⟨offset, by simpa [Int32.lt_iff_toInt_lt] using hneg, rfl⟩

theorem parseIncrBy_eq_ok {args : List (List UInt8)} {op : YBRedisWriteOp}
    (h : parseIncrBy args = .ok op) :
    ∃ k, (int64Min ≤ k ∧ k ≤ int64Max) ∧ op = ⟨{ type := .redisTypeString }, .incrRequest k⟩ := by
  unfold parseIncrBy at h
  cases hp : parseInt64 (arg args 2) "INCR_BY" with
  | error status => simp [hp, bind, Except.bind] at h
  | ok k =>
    simp only [hp, bind, Except.bind, pure, Except.pure] at h
    cases h
    exact ⟨k, checkedStoll_bounds (parseInt64_eq_ok hp), rfl⟩

theorem parseHIncrBy_eq_ok {args : List (List UInt8)} {op : YBRedisWriteOp}
    (h : parseHIncrBy args = .ok op) :
    ∃ k, (int64Min ≤ k ∧ k ≤ int64Max) ∧
      op = ⟨{ type := .redisTypeHash, subkey := [arg args 2] }, .incrRequest k⟩ := by
  unfold parseHIncrBy at h
  cases hp : parseInt64 (arg args 3) "INCR_BY" with
  | error status => simp [hp, bind, Except.bind] at h
  | ok k =>
    simp only [hp, bind, Except.bind, pure, Except.pure] at h
    cases h
    exact ⟨k, checkedStoll_bounds (parseInt64_eq_ok hp), rfl⟩

theorem parseIncr_or_parseIncrBy_eq_ok {args : List (List UInt8)} {op : YBRedisWriteOp}
    (h : parseIncr args = .ok op ∨ parseIncrBy args = .ok op) :
    ∃ k, (int64Min ≤ k ∧ k ≤ int64Max) ∧ op = ⟨{ type := .redisTypeString }, .incrRequest k⟩ := by
  rcases h with h | h
  · cases h
    exact ⟨1, by decide, rfl⟩
  · exact parseIncrBy_eq_ok h

/-! ### The string commands against their model -/

theorem redis_string_commands_match_model :
    -- GETRANGE, on a string whose length is an int32_t
    (∀ args req stored s, parseGetRange args = .ok req → stringValue? stored = some s →
      s.length < 2 ^ 31 →
      executeGetRange {} req.start req.endIndex stored =
        .ok { code := some .ok,
              responseData := .stringResponse (if req.endIndex = Int32.maxValue then []
                else getRangeSpec s req.start.toInt req.endIndex.toInt) }) ∧
    -- SETRANGE
    (∀ args op stored s, parseSetRange args = .ok op → stringValue? stored = some s →
      ∃ offset : Int32, 0 ≤ offset.toInt ∧ op.request = .setRangeRequest offset ∧
        applyWrite op stored = some (.ok
          ({ code := some .ok,
              responseData := .intResponse (setRangeSpec s offset.toInt.toNat (arg args 3)).length },
            .string (setRangeSpec s offset.toInt.toNat (arg args 3))))) ∧
    -- APPEND
    (∀ args op stored s, parseAppend args = .ok op → stringValue? stored = some s →
      applyWrite op stored = some (.ok
        ({ code := some .ok, responseData := .intResponse (s ++ arg args 2).length },
          .string (s ++ arg args 2)))) ∧
    -- INCR and INCRBY
    (∀ args op stored s, (parseIncr args = .ok op ∨ parseIncrBy args = .ok op) →
      stringValue? stored = some s →
      ∃ k, (int64Min ≤ k ∧ k ≤ int64Max) ∧ op.request = .incrRequest k ∧
        applyWrite op stored = some (.ok
          (incrOutcome (if stored = .none then some 0 else checkedStoll s) k stored
            fun n => .string (toDecimalString n)))) ∧
    -- HINCRBY
    (∀ args op stored fields, parseHIncrBy args = .ok op → hashFields? stored = some fields →
      ∃ k, (int64Min ≤ k ∧ k ≤ int64Max) ∧ op.request = .incrRequest k ∧
        applyWrite op stored = some (.ok
          (incrOutcome (fieldOldValue fields (arg args 2)) k stored
            fun n => .hash ((arg args 2, toDecimalString n) :: fields)))) ∧
    -- a key of another type
    (∀ args req stored, parseGetRange args = .ok req → stringValue? stored = none →
      executeGetRange {} req.start req.endIndex stored = .ok wrongTypeResponse) ∧
    (∀ args op stored, (parseSetRange args = .ok op ∨ parseAppend args = .ok op ∨
        parseIncr args = .ok op ∨ parseIncrBy args = .ok op) → stringValue? stored = none →
      applyWrite op stored = some (.ok (wrongTypeResponse, stored))) ∧
    (∀ args op stored, parseHIncrBy args = .ok op → hashFields? stored = none →
      applyWrite op stored = some (.ok (wrongTypeResponse, stored))) := by
  refine ⟨?getRange, ?setRange, ?append, ?incr, ?hincr, ?getRangeType, ?writeType, ?hincrType⟩
  case getRange =>
    intro args req stored s _ hs hlen
    rw [executeGetRange_of_stringValue hs, getRangeBytes_eq hlen]
  case setRange =>
    intro args op stored s hop hs
    obtain ⟨offset, hoffset, rfl⟩ := parseSetRange_eq_ok hop
    exact ⟨offset, hoffset, rfl, applySetRange_of_stringValue hs hoffset⟩
  case append =>
    intro args op stored s hop hs
    cases hop
    simp only [applyWrite, applyAppend_of_stringValue hs]
  case incr =>
    intro args op stored s hop hs
    obtain ⟨k, hk, rfl⟩ := parseIncr_or_parseIncrBy_eq_ok hop
    exact ⟨k, hk, rfl, by simp only [applyWrite, applyIncr_of_stringValue hs hk]⟩
  case hincr =>
    intro args op stored fields hop hf
    obtain ⟨k, hk, rfl⟩ := parseHIncrBy_eq_ok hop
    exact ⟨k, hk, rfl, by simp only [applyWrite, applyIncr_of_hashFields hf hk]⟩
  case getRangeType =>
    intro args req stored _ hs
    exact executeGetRange_of_stringValue_none hs _ _
  case writeType =>
    intro args op stored hop hs
    rcases hop with hop | hop | hop
    · obtain ⟨offset, -, rfl⟩ := parseSetRange_eq_ok hop
      exact applySetRange_of_stringValue_none hs
    · cases hop
      simp only [applyWrite, applyAppend_of_stringValue_none hs]
    · obtain ⟨k, -, rfl⟩ := parseIncr_or_parseIncrBy_eq_ok hop
      simp only [applyWrite, applyIncr_of_stringValue_none hs]
  case hincrType =>
    intro args op stored hop hh
    obtain ⟨k, -, rfl⟩ := parseHIncrBy_eq_ok hop
    simp only [applyWrite, applyIncr_of_hashFields_none hh]

/-- `GETRANGE k 0 2147483647` on "abc" answers the empty string, where the whole string is asked
for. -/
theorem getRange_to_int32_max_answers_empty :
    parseGetRange [[71, 69, 84, 82, 65, 78, 71, 69], [107], [48],
        [50, 49, 52, 55, 52, 56, 51, 54, 52, 55]] = .ok ⟨0, Int32.maxValue⟩ ∧
      executeGetRange {} 0 Int32.maxValue (.string [97, 98, 99]) =
        .ok { code := some .ok, responseData := .stringResponse [] } ∧
      getRangeSpec [97, 98, 99] 0 (2 ^ 31 - 1) = [97, 98, 99] := by
  have hparse : parseGetRange [[71, 69, 84, 82, 65, 78, 71, 69], [107], [48],
      [50, 49, 52, 55, 52, 56, 51, 54, 52, 55]] = .ok ⟨0, Int32.maxValue⟩ := rfl
  refine ⟨hparse, ?_, by decide⟩
  have h := redis_string_commands_match_model.1 _ _ (.string [97, 98, 99]) [97, 98, 99] hparse rfl
    (by decide)
  simpa using h

end FrescoDB.Redis
