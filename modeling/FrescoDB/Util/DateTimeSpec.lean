import FrescoDB.Util.DateTime

/-! What `DateTime` reads from text. Every expression it matches with tells no two digits apart,
so a text matches as the text with each digit read as `0` does: each family of texts below is
matched through that one representative, whose match is computed, and its groups are then read
back from the text. `TimeToString` writes a time of day that `TimeFromString` reads back.
`TimestampFromString` reads the date and the time of day of a text, and hands Boost the zone that
`GetTimezone` makes of its last group: an offset written with a colon as it is, `Z` as ICU's GMT,
no zone as the machine's, and an offset written without a colon with its sign dropped. -/
namespace FrescoDB.Util

open FrescoDB.Lib Regex

namespace DateTime

/-! ### Digits read as zeros -/

/-- Every digit read as `0`. -/
def collapseDigits (c : Char) : Char := if c.isDigit then '0' else c

-- Equation lemmas, made once before their uses.
section
attribute [local simp] collapseDigits
end

/-- A run of `n` decimal digits. -/
def IsDigits (n : Nat) (s : List Char) : Prop := s.length = n ∧ ∀ c ∈ s, c.isDigit = true

instance (n : Nat) (s : List Char) : Decidable (IsDigits n s) :=
  inferInstanceAs (Decidable (_ ∧ _))

theorem map_collapseDigits {n : Nat} {s : List Char} (hs : IsDigits n s) :
    s.map collapseDigits = List.replicate n '0' := by
  obtain ⟨hlen, hdigits⟩ := hs
  subst hlen
  rw [List.eq_replicate_iff]
  refine ⟨List.length_map _, fun c hc => ?_⟩
  obtain ⟨d, hd, rfl⟩ := List.mem_map.mp hc
  simp [collapseDigits, hdigits d hd]

theorem collapseDigits_of_not_digit {c : Char} (hc : c.isDigit = false) : collapseDigits c = c := by
  simp [collapseDigits, hc]

theorem isAlpha_of_isDigit {c : Char} (hc : c.isDigit = true) : c.isAlpha = false := by
  simp only [Char.isDigit, Char.isAlpha, Char.isUpper, Char.isLower, Bool.and_eq_true,
    decide_eq_true_eq, Bool.or_eq_false_iff, Bool.and_eq_false_iff, decide_eq_false_iff_not]
    at hc ⊢
  simp only [UInt32.le_iff_toNat_le] at hc ⊢
  simp at hc ⊢
  omega

theorem ne_of_isDigit {c l : Char} (hc : c.isDigit = true) (hl : l.isDigit = false) : c ≠ l := by
  rintro rfl
  simp [hc] at hl

theorem respects_set {p : Char → Bool} (hp : ∀ c, c.isDigit = true → p c = p '0') :
    (Regex.set p).Respects collapseDigits := by
  intro c
  by_cases hc : c.isDigit = true
  · simp only [collapseDigits, hc, if_true]
    exact (hp c hc).symm
  · simp only [collapseDigits, hc, Bool.false_eq_true, if_false]

theorem respects_digit : digit.Respects collapseDigits :=
  respects_set fun c hc => by simp [hc]

theorem respects_literal {l : Char} (hl : l.isDigit = false) :
    (literal l).Respects collapseDigits :=
  respects_set fun c hc => by
    have hzero : ('0' : Char) ≠ l := ne_of_isDigit (by decide) hl
    simp [ne_of_isDigit hc hl, hzero]

theorem anyChar_of_isDigit {c : Char} (hc : c.isDigit = true) : anyChar c = anyChar '0' := by
  have hnl := ne_of_isDigit hc (l := '\n') (by decide)
  have hcr := ne_of_isDigit hc (l := '\r') (by decide)
  have hls := ne_of_isDigit hc (l := Char.ofNat 0x2028) (by decide)
  have hps := ne_of_isDigit hc (l := Char.ofNat 0x2029) (by decide)
  simp [anyChar, hnl, hcr, hls, hps]

theorem respects_anyChar : (Regex.set anyChar).Respects collapseDigits :=
  respects_set fun _ hc => anyChar_of_isDigit hc

theorem respects_star_anyChar : (Regex.star anyChar).Respects collapseDigits := by
  intro c
  by_cases hc : c.isDigit = true
  · simp only [collapseDigits, hc, if_true]
    exact (anyChar_of_isDigit hc).symm
  · simp only [collapseDigits, hc, Bool.false_eq_true, if_false]

theorem respects_fmtEmpty (index : Nat) : (fmtEmpty index).Respects collapseDigits := trivial

theorem respects_digits (lo hi : Nat) : (rep digit lo hi).Respects collapseDigits :=
  respects_rep respects_digit lo hi

theorem respects_dateFmt : dateFmt.Respects collapseDigits := by
  simp only [dateFmt, respects_seqs, List.mem_cons, List.not_mem_nil, or_false, forall_eq_or_imp,
    forall_eq]
  exact ⟨respects_digits 4 4, respects_literal (by decide), respects_digits 1 2,
    respects_literal (by decide), respects_digits 1 2⟩

theorem respects_timeFmt : timeFmt.Respects collapseDigits := by
  simp only [timeFmt, respects_seqs, List.mem_cons, List.not_mem_nil, or_false, forall_eq_or_imp,
    forall_eq]
  exact ⟨respects_digits 1 2, respects_literal (by decide), respects_digits 1 2,
    respects_literal (by decide), respects_digits 1 2⟩

theorem respects_timeFmtNoSec : timeFmtNoSec.Respects collapseDigits := by
  simp only [timeFmtNoSec, respects_seqs, List.mem_cons, List.not_mem_nil, or_false,
    forall_eq_or_imp, forall_eq]
  exact ⟨respects_digits 1 2, respects_literal (by decide), respects_digits 1 2,
    respects_fmtEmpty 6⟩

theorem respects_timeEmpty : timeEmpty.Respects collapseDigits := by
  simp only [timeEmpty, respects_seqs, List.mem_cons, List.not_mem_nil, or_false,
    forall_eq_or_imp, forall_eq]
  exact ⟨respects_fmtEmpty 4, respects_fmtEmpty 5, respects_fmtEmpty 6⟩

theorem respects_fracFmt : fracFmt.Respects collapseDigits := by
  simp only [fracFmt, respects_seqs, List.mem_cons, List.not_mem_nil, or_false, forall_eq_or_imp,
    forall_eq]
  exact ⟨respects_literal (by decide), respects_digits 1 3⟩

theorem respects_tzXFmt : tzXFmt.Respects collapseDigits := by
  simp only [tzXFmt, respects_group, respects_alt, respects_opt, respects_seqs, List.mem_cons, List.not_mem_nil, or_false,
    forall_eq_or_imp, forall_eq]
  exact ⟨⟨respects_literal (by decide), respects_literal (by decide)⟩, respects_digits 2 2,
    respects_literal (by decide), respects_digits 2 2⟩

theorem respects_tzYFmt : tzYFmt.Respects collapseDigits :=
  respects_group.mpr <| respects_set fun c hc => by
    have hz := ne_of_isDigit hc (l := 'z') (by decide)
    have hZ := ne_of_isDigit hc (l := 'Z') (by decide)
    simp [hz, hZ]

theorem respects_tzZFmt : tzZFmt.Respects collapseDigits := by
  simp only [tzZFmt, respects_group, respects_seqs, List.mem_cons, List.not_mem_nil, or_false,
    forall_eq_or_imp, forall_eq]
  refine ⟨respects_literal (by decide), respects_set fun c hc => ?_, respects_anyChar,
    respects_star_anyChar⟩
  have hplus := ne_of_isDigit hc (l := '+') (by decide)
  simp [isAlpha_of_isDigit hc, hplus]

theorem respects_cqlInputFormat : ∀ r ∈ cqlInputFormat.regexes, r.Respects collapseDigits := by
  have hdate := respects_dateFmt
  have hspace : (literal ' ').Respects collapseDigits := respects_literal (by decide)
  have hT : (literal 'T').Respects collapseDigits := respects_literal (by decide)
  have htime := respects_timeFmt
  have hnoSec := respects_timeFmtNoSec
  have hempty := respects_timeEmpty
  have hfrac := respects_fracFmt
  have hX := respects_tzXFmt
  have hY := respects_tzYFmt
  have hZ := respects_tzZFmt
  have h7 := respects_fmtEmpty 7
  have h8 := respects_fmtEmpty 8
  simp only [cqlInputFormat, List.mem_cons, List.not_mem_nil, or_false]
  rintro r hr
  rcases hr with rfl | rfl | rfl | rfl | rfl | rfl | rfl | rfl | rfl | rfl | rfl | rfl | rfl |
    rfl | rfl | rfl | rfl | rfl | rfl | rfl | rfl | rfl | rfl | rfl | rfl | rfl | rfl | rfl | rfl |
    rfl | rfl | rfl | rfl | rfl | rfl | rfl <;>
  simp only [respects_seqs, List.mem_cons, List.not_mem_nil, or_false, forall_eq_or_imp,
    forall_eq] <;>
  simp only [*, and_self]

theorem respects_offsetWithoutColon : offsetWithoutColon.Respects collapseDigits := by
  simp only [offsetWithoutColon, respects_group, respects_alt, respects_seqs, List.mem_cons, List.not_mem_nil,
    or_false, forall_eq_or_imp, forall_eq]
  exact ⟨⟨respects_literal (by decide), respects_literal (by decide)⟩, respects_digits 2 2,
    respects_digits 2 2⟩

theorem respects_timeFormat : timeFormat.Respects collapseDigits := by
  simp only [timeFormat, respects_group, respects_opt, respects_seqs, List.mem_cons, List.not_mem_nil, or_false,
    forall_eq_or_imp, forall_eq]
  exact ⟨respects_digits 1 2, respects_literal (by decide), respects_digits 1 2,
    respects_literal (by decide), respects_digits 1 2, respects_literal (by decide),
    respects_digits 0 9⟩

/-! ### Numbers written and read -/

theorem stoi_map_digitChar {ds : List Nat} (hds : ∀ d ∈ ds, d < 10) :
    stoi (ds.map digitChar) = digitsValue ds := by
  rw [stoi, map_digitChar_sub_zero hds]

theorem length_decimalDigits_le {n p : Nat} (hp : 0 < p) (hn : n < 10 ^ p) :
    (decimalDigits n).length ≤ p := by
  unfold decimalDigits
  split_ifs with hzero
  · simp only [List.length_singleton]
    omega
  · rw [List.length_reverse, Nat.digits_length_le_iff (by decide)]
    exact hn

theorem printfInt_digits {p : Nat} {n : Int} (hp : 0 < p) (h0 : 0 ≤ n) (h1 : n < 10 ^ p) :
    IsDigits p (printfInt false p n) ∧ stoi (printfInt false p n) = n := by
  have hnat : n.natAbs < 10 ^ p := by
    have hcast : ((n.natAbs : Nat) : Int) < ((10 ^ p : Nat) : Int) := by
      rw [Int.natAbs_of_nonneg h0]
      exact_mod_cast h1
    exact_mod_cast hcast
  have hlen := length_decimalDigits_le hp hnat
  have hdigits : ∀ d ∈ List.replicate (p - (decimalDigits n.natAbs).length) 0 ++
      decimalDigits n.natAbs, d < 10 := by
    intro d hd
    rcases List.mem_append.mp hd with hzero | hd
    · rw [List.eq_of_mem_replicate hzero]
      decide
    · exact decimalDigits_lt_ten _ d hd
  have hsign : ¬n < 0 := by omega
  simp only [printfInt, hsign, if_false, Bool.false_eq_true, List.nil_append]
  refine ⟨⟨?_, ?_⟩, ?_⟩
  · simp only [List.length_map, List.length_append, List.length_replicate]
    omega
  · intro c hc
    obtain ⟨d, hd, rfl⟩ := List.mem_map.mp hc
    exact isDigit_digitChar (hdigits d hd)
  · rw [stoi_map_digitChar hdigits, digitsValue_zeros_append, digitsValue_decimalDigits]
    omega

/-! ### Times of day -/

section TimeOfDay

variable {hh mm ss nanos : List Char} (hh2 : IsDigits 2 hh) (mm2 : IsDigits 2 mm)
  (ss2 : IsDigits 2 ss) (nanos9 : IsDigits 9 nanos)
include hh2 mm2 ss2 nanos9

theorem regexMatch_timeFormat :
    regexMatch timeFormat (hh ++ ':' :: mm ++ ':' :: ss ++ '.' :: nanos) =
      some [none, some (18, 16), some (15, 13), some (12, 10), some (10, 0), some (9, 0)] := by
  have hshape : (hh ++ ':' :: mm ++ ':' :: ss ++ '.' :: nanos).map collapseDigits =
      List.replicate 2 '0' ++ ':' :: List.replicate 2 '0' ++ ':' :: List.replicate 2 '0' ++
        '.' :: List.replicate 9 '0' := by
    simp only [List.map_append, List.map_cons, map_collapseDigits hh2, map_collapseDigits mm2,
      map_collapseDigits ss2, map_collapseDigits nanos9,
      collapseDigits_of_not_digit (by decide : (':' : Char).isDigit = false),
      collapseDigits_of_not_digit (by decide : ('.' : Char).isDigit = false)]
  rw [← regexMatch_map respects_timeFormat, hshape]
  decide

theorem timeFormat_groups : ∃ spans,
    regexMatch timeFormat (hh ++ ':' :: mm ++ ':' :: ss ++ '.' :: nanos) = some spans ∧
      capture (hh ++ ':' :: mm ++ ':' :: ss ++ '.' :: nanos) spans 1 = hh ∧
      capture (hh ++ ':' :: mm ++ ':' :: ss ++ '.' :: nanos) spans 2 = mm ∧
      capture (hh ++ ':' :: mm ++ ':' :: ss ++ '.' :: nanos) spans 3 = ss ∧
      capture (hh ++ ':' :: mm ++ ':' :: ss ++ '.' :: nanos) spans 5 = nanos := by
  have hlengths := And.intro hh2.1 (And.intro mm2.1 (And.intro ss2.1 nanos9.1))
  refine ⟨_, regexMatch_timeFormat hh2 mm2 ss2 nanos9, ?_, ?_, ?_, ?_⟩
  · exact capture_eq_of_span [] hh (':' :: mm ++ ':' :: ss ++ '.' :: nanos) (by simp)
      (by simp [hlengths])
  · exact capture_eq_of_span (hh ++ [':']) mm (':' :: ss ++ '.' :: nanos) (by simp)
      (by simp [hlengths])
  · exact capture_eq_of_span (hh ++ ':' :: mm ++ [':']) ss ('.' :: nanos) (by simp)
      (by simp [hlengths])
  · exact capture_eq_of_span (hh ++ ':' :: mm ++ ':' :: ss ++ ['.']) nanos [] (by simp)
      (by simp [hlengths])

theorem timeFromString_digits :
    timeFromString (hh ++ ':' :: mm ++ ':' :: ss ++ '.' :: nanos) =
      if stoi hh < 0 ∨ stoi hh > 23 then .error ⟨.kInvalidArgument, "Invalid hour"⟩
      else if stoi mm < 0 ∨ stoi mm > 59 then .error ⟨.kInvalidArgument, "Invalid minute"⟩
      else if stoi ss < 0 ∨ stoi ss > 59 then .error ⟨.kInvalidArgument, "Invalid second"⟩
      else .ok (((stoi hh * 60 + stoi mm) * 60 + stoi ss) * 1000000000 + stoi nanos) := by
  obtain ⟨spans, hmatch, hhour, hminute, hsecond, hnanos⟩ := timeFormat_groups hh2 mm2 ss2 nanos9
  have hfull : nanos.isEmpty = false := by
    rw [List.isEmpty_eq_false_iff_exists_mem]
    exact ⟨_, List.getElem_mem (by rw [nanos9.1]; decide : 0 < nanos.length)⟩
  simp only [timeFromString, hmatch, hhour, hminute, hsecond, hnanos, hfull, nanos9.1,
    Bool.false_eq_true, if_false, Nat.sub_self, pow_zero, mul_one]

end TimeOfDay

theorem bmod_of_lt_two_pow_31 {h : Int} (h0 : 0 ≤ h) (h1 : h < 2 ^ 31) : h.bmod (2 ^ 32) = h := by
  have hmod : h % ((2 ^ 32 : Nat) : Int) = h := Int.emod_eq_of_lt h0 (by norm_num; omega)
  rw [Int.bmod_eq_emod_of_lt (by rw [hmod]; norm_num; omega), hmod]

theorem timeToString_of_lt {t : Int} (h0 : 0 ≤ t) (h1 : t < 86400 * 1000000000) :
    timeToString t = some (.ok (printfInt false 2 (t / 1000000000 / 60 / 60) ++ ':' ::
      printfInt false 2 (t / 1000000000 / 60 % 60) ++ ':' ::
      printfInt false 2 (t / 1000000000 % 60) ++ '.' :: printfInt false 9 (t % 1000000000))) := by
  have hhour := bmod_of_lt_two_pow_31 (h := t / 1000000000 / 60 / 60) (by omega) (by omega)
  obtain ⟨⟨hlenH, -⟩, -⟩ := printfInt_digits (p := 2) (n := t / 1000000000 / 60 / 60) (by decide)
    (by omega) (by norm_num; omega)
  obtain ⟨⟨hlenM, -⟩, -⟩ := printfInt_digits (p := 2) (n := t / 1000000000 / 60 % 60) (by decide)
    (by omega) (by norm_num; omega)
  obtain ⟨⟨hlenS, -⟩, -⟩ := printfInt_digits (p := 2) (n := t / 1000000000 % 60) (by decide)
    (by omega) (by norm_num; omega)
  obtain ⟨⟨hlenN, -⟩, -⟩ := printfInt_digits (p := 9) (n := t % 1000000000) (by decide)
    (by omega) (by norm_num; omega)
  have hfits : (printfInt false 2 (t / 1000000000 / 60 / 60) ++ ':' ::
      printfInt false 2 (t / 1000000000 / 60 % 60) ++ ':' ::
      printfInt false 2 (t / 1000000000 % 60) ++ '.' :: printfInt false 9 (t % 1000000000)).length
        < 19 := by
    simp only [List.length_append, List.length_cons, hlenH, hlenM, hlenS, hlenN]
    decide
  have hnonneg : ¬t < 0 := by omega
  have hvalid : ¬t / 1000000000 / 60 / 60 > 23 := by omega
  simp only [timeToString, hnonneg, if_false, hhour, hvalid, hfits, if_true]

/-- On every `int64_t` the hour never wraps in its 32 bits, so `TimeToString` never fails its
`CHECK`: a negative time is refused, a time of a day or more is refused as an hour, and a time of
day is written. -/
theorem timeToString_int64 {t : Int} (hmax : t ≤ int64Max) :
    (t < 0 → timeToString t = some (.error ⟨.kInvalidArgument, "Invalid time"⟩)) ∧
      (0 ≤ t → t < 86400 * 1000000000 → ∃ text, timeToString t = some (.ok text)) ∧
      (86400 * 1000000000 ≤ t →
        timeToString t = some (.error ⟨.kInvalidArgument, "Invalid hour"⟩)) := by
  refine ⟨fun hneg => by simp [timeToString, hneg], fun h0 h1 => ⟨_, timeToString_of_lt h0 h1⟩,
    fun hday => ?_⟩
  simp only [int64Max] at hmax
  have hhour := bmod_of_lt_two_pow_31 (h := t / 1000000000 / 60 / 60) (by omega) (by omega)
  have hnonneg : ¬t < 0 := by omega
  have hinvalid : t / 1000000000 / 60 / 60 > 23 := by omega
  simp only [timeToString, hnonneg, if_false, hhour, hinvalid, if_true]

/-- A time of one day and more is refused as an hour. -/
theorem timeToString_one_day :
    (86400000000000 : Int) ≤ int64Max ∧
      timeToString 86400000000000 = some (.error ⟨.kInvalidArgument, "Invalid hour"⟩) :=
  ⟨by decide, (timeToString_int64 (by decide)).2.2 (by decide)⟩

/-- `TimeFromString` reads back what `TimeToString` writes of every time of day. -/
theorem timeFromString_timeToString {t : Int} (h0 : 0 ≤ t) (h1 : t < 86400 * 1000000000) :
    ∃ text, timeToString t = some (.ok text) ∧ timeFromString text = .ok t := by
  obtain ⟨hourDigits, hhour⟩ := printfInt_digits (p := 2) (n := t / 1000000000 / 60 / 60)
    (by decide) (by omega) (by norm_num; omega)
  obtain ⟨minuteDigits, hminute⟩ := printfInt_digits (p := 2) (n := t / 1000000000 / 60 % 60)
    (by decide) (by omega) (by norm_num; omega)
  obtain ⟨secondDigits, hsecond⟩ := printfInt_digits (p := 2) (n := t / 1000000000 % 60)
    (by decide) (by omega) (by norm_num; omega)
  obtain ⟨nanoDigits, hnano⟩ := printfInt_digits (p := 9) (n := t % 1000000000)
    (by decide) (by omega) (by norm_num; omega)
  refine ⟨_, timeToString_of_lt h0 h1, ?_⟩
  rw [timeFromString_digits hourDigits minuteDigits secondDigits nanoDigits, hhour, hminute,
    hsecond, hnano]
  have hvalid : ¬(t / 1000000000 / 60 / 60 < 0 ∨ t / 1000000000 / 60 / 60 > 23) ∧
      ¬(t / 1000000000 / 60 % 60 < 0 ∨ t / 1000000000 / 60 % 60 > 59) ∧
      ¬(t / 1000000000 % 60 < 0 ∨ t / 1000000000 % 60 > 59) := by
    omega
  simp only [hvalid.1, hvalid.2.1, hvalid.2.2, if_false, Except.ok.injEq]
  omega

theorem timeFromString_timeToString_half_past_noon :
    timeToString 45045500000000 = some (.ok "12:30:45.500000000".toList) ∧
      timeFromString "12:30:45.500000000".toList = .ok 45045500000000 := by
  obtain ⟨text, hwrite, hread⟩ :=
    timeFromString_timeToString (t := 45045500000000) (by decide) (by decide)
  have htext : text = "12:30:45.500000000".toList := by
    have hknown : timeToString 45045500000000 = some (.ok "12:30:45.500000000".toList) := by decide
    rw [hwrite] at hknown
    simpa using hknown
  subst htext
  exact ⟨hwrite, hread⟩

/-! ### Timestamps -/

theorem findSome?_cqlInputFormat (text : List Char) :
    cqlInputFormat.regexes.findSome? (regexMatch · text) =
      cqlInputFormat.regexes.findSome? (regexMatch · (text.map collapseDigits)) :=
  (findSome?_regexMatch_map respects_cqlInputFormat text).symm

/-- `yyyy-mm-dd hh:mm:ss`, the date and time of day of a timestamp written in full. -/
def dateTimeText (year month day hours minutes seconds : List Char) : List Char :=
  year ++ '-' :: month ++ '-' :: day ++ ' ' :: hours ++ ':' :: minutes ++ ':' :: seconds

section Timestamps

variable {year month day hours minutes seconds : List Char} (year4 : IsDigits 4 year)
  (month2 : IsDigits 2 month) (day2 : IsDigits 2 day) (hours2 : IsDigits 2 hours)
  (minutes2 : IsDigits 2 minutes) (seconds2 : IsDigits 2 seconds)
include year4 month2 day2 hours2 minutes2 seconds2

theorem map_collapseDigits_dateTimeText :
    (dateTimeText year month day hours minutes seconds).map collapseDigits =
      "0000-00-00 00:00:00".toList := by
  simp only [dateTimeText, List.map_append, List.map_cons, map_collapseDigits year4,
    map_collapseDigits month2, map_collapseDigits day2, map_collapseDigits hours2,
    map_collapseDigits minutes2, map_collapseDigits seconds2,
    collapseDigits_of_not_digit (by decide : ('-' : Char).isDigit = false),
    collapseDigits_of_not_digit (by decide : (' ' : Char).isDigit = false),
    collapseDigits_of_not_digit (by decide : (':' : Char).isDigit = false)]
  decide

/-- Where the groups of a timestamp written in full stand, before a zone of `zoneLength`
characters whose group has `zoneGroupLength`: the fields, an empty fraction, then the zone. -/
def dateTimeSpans (zoneLength zoneGroupLength : Nat) : Spans :=
  [none, some (19 + zoneLength, 15 + zoneLength), some (14 + zoneLength, 12 + zoneLength),
    some (11 + zoneLength, 9 + zoneLength), some (8 + zoneLength, 6 + zoneLength),
    some (5 + zoneLength, 3 + zoneLength), some (2 + zoneLength, zoneLength),
    some (zoneLength, zoneLength), some (zoneGroupLength, 0)]

theorem timestampFromString_dateTimeText (env : TimestampEnv) {zone zoneGroup : List Char}
    (pre : List Char) (hzone : zone = pre ++ zoneGroup)
    (hfirst : cqlInputFormat.regexes.findSome?
        (regexMatch · ("0000-00-00 00:00:00".toList ++ zone.map collapseDigits)) =
      some (dateTimeSpans zone.length zoneGroup.length)) :
    timestampFromString env (dateTimeText year month day hours minutes seconds ++ zone) =
      timestampOfFields env (stoi year) (stoi month) (stoi day) (stoi hours) (stoi minutes)
        (stoi seconds) 0 (zoneOfGroup env zoneGroup) := by
  have hlengths : year.length = 4 ∧ month.length = 2 ∧ day.length = 2 ∧ hours.length = 2 ∧
      minutes.length = 2 ∧ seconds.length = 2 :=
    ⟨year4.1, month2.1, day2.1, hours2.1, minutes2.1, seconds2.1⟩
  have hshape : (dateTimeText year month day hours minutes seconds ++ zone).map collapseDigits =
      "0000-00-00 00:00:00".toList ++ zone.map collapseDigits := by
    rw [List.map_append, map_collapseDigits_dateTimeText year4 month2 day2 hours2 minutes2
      seconds2]
  -- each field is the group between its separators
  have hyear : capture (dateTimeText year month day hours minutes seconds ++ zone)
      (dateTimeSpans zone.length zoneGroup.length) 1 = year :=
    capture_eq_of_span [] year
      ('-' :: month ++ '-' :: day ++ ' ' :: hours ++ ':' :: minutes ++ ':' :: seconds ++ zone)
      (by simp [dateTimeText]) (by simp [dateTimeSpans, hlengths]; omega)
  have hmonth : capture (dateTimeText year month day hours minutes seconds ++ zone)
      (dateTimeSpans zone.length zoneGroup.length) 2 = month :=
    capture_eq_of_span (year ++ ['-']) month
      ('-' :: day ++ ' ' :: hours ++ ':' :: minutes ++ ':' :: seconds ++ zone)
      (by simp [dateTimeText]) (by simp [dateTimeSpans, hlengths]; omega)
  have hday : capture (dateTimeText year month day hours minutes seconds ++ zone)
      (dateTimeSpans zone.length zoneGroup.length) 3 = day :=
    capture_eq_of_span (year ++ '-' :: month ++ ['-']) day
      (' ' :: hours ++ ':' :: minutes ++ ':' :: seconds ++ zone)
      (by simp [dateTimeText]) (by simp [dateTimeSpans, hlengths]; omega)
  have hhours : capture (dateTimeText year month day hours minutes seconds ++ zone)
      (dateTimeSpans zone.length zoneGroup.length) 4 = hours :=
    capture_eq_of_span (year ++ '-' :: month ++ '-' :: day ++ [' ']) hours
      (':' :: minutes ++ ':' :: seconds ++ zone)
      (by simp [dateTimeText]) (by simp [dateTimeSpans, hlengths]; omega)
  have hminutes : capture (dateTimeText year month day hours minutes seconds ++ zone)
      (dateTimeSpans zone.length zoneGroup.length) 5 = minutes :=
    capture_eq_of_span (year ++ '-' :: month ++ '-' :: day ++ ' ' :: hours ++ [':']) minutes
      (':' :: seconds ++ zone)
      (by simp [dateTimeText]) (by simp [dateTimeSpans, hlengths]; omega)
  have hseconds : capture (dateTimeText year month day hours minutes seconds ++ zone)
      (dateTimeSpans zone.length zoneGroup.length) 6 = seconds :=
    capture_eq_of_span
      (year ++ '-' :: month ++ '-' :: day ++ ' ' :: hours ++ ':' :: minutes ++ [':']) seconds zone
      (by simp [dateTimeText]) (by simp [dateTimeSpans, hlengths])
  have hfrac : capture (dateTimeText year month day hours minutes seconds ++ zone)
      (dateTimeSpans zone.length zoneGroup.length) 7 = [] :=
    capture_eq_of_span (dateTimeText year month day hours minutes seconds) [] zone
      (by simp) (by simp [dateTimeSpans])
  have hzoneGroup : capture (dateTimeText year month day hours minutes seconds ++ zone)
      (dateTimeSpans zone.length zoneGroup.length) 8 = zoneGroup :=
    capture_eq_of_span (dateTimeText year month day hours minutes seconds ++ pre) zoneGroup []
      (by simp [hzone]) (by simp [dateTimeSpans])
  have hnonempty : ∀ field : List Char, field.length = 2 → fieldOrZero field = stoi field := by
    intro field hfield
    have hne : field.isEmpty = false := by
      rw [List.isEmpty_eq_false_iff_exists_mem]
      exact ⟨_, List.getElem_mem (by rw [hfield]; decide : 0 < field.length)⟩
    simp [fieldOrZero, hne]
  have hnoFrac : adjustPrecision (fieldOrZero []) ([] : List Char).length numFractionalDigits = 0 :=
    by decide
  rw [timestampFromString, findSome?_cqlInputFormat, hshape, hfirst]
  simp only [hyear, hmonth, hday, hhours, hminutes, hseconds, hfrac, hzoneGroup, hnoFrac,
    hnonempty hours hours2.1, hnonempty minutes minutes2.1, hnonempty seconds seconds2.1]

end Timestamps

/-! ### Zones -/

section Zones

variable (env : TimestampEnv) {sign : Char} {hh mm : List Char}

theorem isDigit_sign (hsign : sign = '+' ∨ sign = '-') : sign.isDigit = false := by
  rcases hsign with rfl | rfl <;> decide

theorem map_collapseDigits_offset (hsign : sign = '+' ∨ sign = '-') (hh2 : IsDigits 2 hh)
    (mm2 : IsDigits 2 mm) : (sign :: hh ++ ':' :: mm).map collapseDigits = sign :: "00:00".toList := by
  simp only [List.cons_append, List.map_cons, List.map_append, map_collapseDigits hh2,
    map_collapseDigits mm2, collapseDigits_of_not_digit (isDigit_sign hsign),
    collapseDigits_of_not_digit (by decide : (':' : Char).isDigit = false)]
  congr 1

theorem map_collapseDigits_offsetWithoutColon (hsign : sign = '+' ∨ sign = '-')
    (hh2 : IsDigits 2 hh) (mm2 : IsDigits 2 mm) :
    (sign :: hh ++ mm).map collapseDigits = sign :: "0000".toList := by
  simp only [List.cons_append, List.map_cons, List.map_append, map_collapseDigits hh2,
    map_collapseDigits mm2, collapseDigits_of_not_digit (isDigit_sign hsign)]
  congr 1

theorem getTimezone_offset (hsign : sign = '+' ∨ sign = '-') (hh2 : IsDigits 2 hh)
    (mm2 : IsDigits 2 mm) :
    getTimezone env (sign :: hh ++ ':' :: mm) = .ok (sign :: hh ++ ':' :: mm) := by
  have hnone : regexMatch offsetWithoutColon (sign :: hh ++ ':' :: mm) = none := by
    rw [← regexMatch_map respects_offsetWithoutColon, map_collapseDigits_offset hsign hh2 mm2]
    rcases hsign with rfl | rfl <;> decide
  have hlong : ¬(sign :: hh ++ ':' :: mm = ['z'] ∨ sign :: hh ++ ':' :: mm = ['Z']) := by
    simp
  have hsigned : (sign :: hh ++ ':' :: mm).head? = some '+' ∨
      (sign :: hh ++ ':' :: mm).head? = some '-' ∨
      (sign :: hh ++ ':' :: mm).take 3 = "UTC".toList := by
    simp only [List.cons_append, List.head?_cons, Option.some.injEq]
    exact Or.imp_right Or.inl hsign
  have hne : (sign :: hh ++ ':' :: mm).isEmpty = false := by simp
  simp only [getTimezone, hne, Bool.false_eq_true, if_false, hlong, hnone, hsigned, if_true]

theorem getTimezone_offsetWithoutColon (hsign : sign = '+' ∨ sign = '-') (hh2 : IsDigits 2 hh)
    (mm2 : IsDigits 2 mm) : getTimezone env (sign :: hh ++ mm) = .ok (hh ++ ':' :: mm) := by
  have hmatch : regexMatch offsetWithoutColon (sign :: hh ++ mm) =
      some [none, some (4, 2), some (2, 0)] := by
    rw [← regexMatch_map respects_offsetWithoutColon,
      map_collapseDigits_offsetWithoutColon hsign hh2 mm2]
    rcases hsign with rfl | rfl <;> decide
  have hhours : capture (sign :: hh ++ mm) [none, some (4, 2), some (2, 0)] 1 = hh :=
    capture_eq_of_span [sign] hh mm (by simp) (by simp [hh2.1, mm2.1])
  have hminutes : capture (sign :: hh ++ mm) [none, some (4, 2), some (2, 0)] 2 = mm :=
    capture_eq_of_span (sign :: hh) mm [] (by simp) (by simp [mm2.1])
  have hlong : ¬(sign :: hh ++ mm = ['z'] ∨ sign :: hh ++ mm = ['Z']) := by
    have hlen : (sign :: hh ++ mm).length = 5 := by simp [hh2.1, mm2.1]
    rintro (h | h) <;> simp [h] at hlen
  have hne : (sign :: hh ++ mm).isEmpty = false := by simp
  simp only [getTimezone, hne, Bool.false_eq_true, if_false, hlong, hmatch, hhours, hminutes]

theorem getTimezone_utc (rest : List Char) :
    getTimezone env ('U' :: 'T' :: 'C' :: rest) = .ok ('U' :: 'T' :: 'C' :: rest) := by
  have hnone : regexMatch offsetWithoutColon ('U' :: 'T' :: 'C' :: rest) = none := rfl
  simp [getTimezone, hnone]

theorem getTimezone_zulu {c : Char} (hc : c = 'z' ∨ c = 'Z') :
    getTimezone env [c] = icuTimezone env "GMT".toList := by
  simp [getTimezone, hc]

end Zones

/-! ### The zone a timestamp is read in -/

section TimestampZones

variable (env : TimestampEnv) {year month day hours minutes seconds : List Char}
  (year4 : IsDigits 4 year) (month2 : IsDigits 2 month) (day2 : IsDigits 2 day)
  (hours2 : IsDigits 2 hours) (minutes2 : IsDigits 2 minutes) (seconds2 : IsDigits 2 seconds)
  {sign : Char} {hh mm : List Char}
include year4 month2 day2 hours2 minutes2 seconds2

theorem timestampFromString_noZone :
    timestampFromString env (dateTimeText year month day hours minutes seconds ++ []) =
      timestampOfFields env (stoi year) (stoi month) (stoi day) (stoi hours) (stoi minutes)
        (stoi seconds) 0 (zoneOfGroup env []) :=
  timestampFromString_dateTimeText year4 month2 day2 hours2 minutes2 seconds2 env
    [] rfl (by decide)

theorem timestampFromString_offset (hsign : sign = '+' ∨ sign = '-') (hh2 : IsDigits 2 hh)
    (mm2 : IsDigits 2 mm) :
    timestampFromString env (dateTimeText year month day hours minutes seconds ++
        (sign :: hh ++ ':' :: mm)) =
      timestampOfFields env (stoi year) (stoi month) (stoi day) (stoi hours) (stoi minutes)
        (stoi seconds) 0 (zoneOfGroup env (sign :: hh ++ ':' :: mm)) := by
  have hlength : (sign :: hh ++ ':' :: mm).length = 6 := by simp [hh2.1, mm2.1]
  refine timestampFromString_dateTimeText year4 month2 day2 hours2 minutes2 seconds2 env
    [] rfl ?_
  rw [map_collapseDigits_offset hsign hh2 mm2, hlength]
  rcases hsign with rfl | rfl <;> decide

theorem timestampFromString_offsetWithoutColon (hsign : sign = '+' ∨ sign = '-')
    (hh2 : IsDigits 2 hh) (mm2 : IsDigits 2 mm) :
    timestampFromString env (dateTimeText year month day hours minutes seconds ++
        (sign :: hh ++ mm)) =
      timestampOfFields env (stoi year) (stoi month) (stoi day) (stoi hours) (stoi minutes)
        (stoi seconds) 0 (zoneOfGroup env (sign :: hh ++ mm)) := by
  have hlength : (sign :: hh ++ mm).length = 5 := by simp [hh2.1, mm2.1]
  refine timestampFromString_dateTimeText year4 month2 day2 hours2 minutes2 seconds2 env
    [] rfl ?_
  rw [map_collapseDigits_offsetWithoutColon hsign hh2 mm2, hlength]
  rcases hsign with rfl | rfl <;> decide

theorem timestampFromString_zulu {c : Char} (hc : c = 'z' ∨ c = 'Z') :
    timestampFromString env (dateTimeText year month day hours minutes seconds ++ [c]) =
      timestampOfFields env (stoi year) (stoi month) (stoi day) (stoi hours) (stoi minutes)
        (stoi seconds) 0 (zoneOfGroup env [c]) := by
  refine timestampFromString_dateTimeText year4 month2 day2 hours2 minutes2 seconds2 env
    [] rfl ?_
  rcases hc with rfl | rfl <;> decide

theorem timestampFromString_utc (hsign : sign = '+' ∨ sign = '-') (hh2 : IsDigits 2 hh)
    (mm2 : IsDigits 2 mm) :
    timestampFromString env (dateTimeText year month day hours minutes seconds ++
        (' ' :: 'U' :: 'T' :: 'C' :: sign :: hh ++ ':' :: mm)) =
      timestampOfFields env (stoi year) (stoi month) (stoi day) (stoi hours) (stoi minutes)
        (stoi seconds) 0 (zoneOfGroup env ('U' :: 'T' :: 'C' :: sign :: hh ++ ':' :: mm)) := by
  have hshape : (' ' :: 'U' :: 'T' :: 'C' :: sign :: hh ++ ':' :: mm).map collapseDigits =
      " UTC".toList ++ sign :: "00:00".toList := by
    have hoffset := map_collapseDigits_offset hsign hh2 mm2
    simp only [List.cons_append, List.map_cons] at hoffset ⊢
    rw [hoffset]
    rfl
  have hlength : (' ' :: 'U' :: 'T' :: 'C' :: sign :: hh ++ ':' :: mm).length = 10 := by
    simp [hh2.1, mm2.1]
  have hgroupLength : ('U' :: 'T' :: 'C' :: sign :: hh ++ ':' :: mm).length = 9 := by
    simp [hh2.1, mm2.1]
  refine timestampFromString_dateTimeText year4 month2 day2 hours2 minutes2 seconds2 env
    [' '] (by simp) ?_
  rw [hshape, hlength, hgroupLength]
  rcases hsign with rfl | rfl <;> decide

end TimestampZones

/-- The zone `TimestampFromString` hands Boost for a timestamp written in full, with ICU zones: no
zone is the machine's, an offset written with a colon and a `UTC` offset are passed on as they
are, `z` and `Z` are ICU's `GMT`, and an offset written without a colon loses its sign. -/
theorem timestampFromString_zones (env : TimestampEnv) (hicu : env.useIcuTimezones = true)
    {year month day hours minutes seconds hh mm : List Char} {sign c : Char}
    (year4 : IsDigits 4 year) (month2 : IsDigits 2 month) (day2 : IsDigits 2 day)
    (hours2 : IsDigits 2 hours) (minutes2 : IsDigits 2 minutes) (seconds2 : IsDigits 2 seconds)
    (hsign : sign = '+' ∨ sign = '-') (hh2 : IsDigits 2 hh) (mm2 : IsDigits 2 mm)
    (hc : c = 'z' ∨ c = 'Z') :
    timestampFromString env (dateTimeText year month day hours minutes seconds ++ []) =
        timestampOfFields env (stoi year) (stoi month) (stoi day) (stoi hours) (stoi minutes)
          (stoi seconds) 0 (.ok env.systemTimezone) ∧
      timestampFromString env (dateTimeText year month day hours minutes seconds ++
          (sign :: hh ++ ':' :: mm)) =
        timestampOfFields env (stoi year) (stoi month) (stoi day) (stoi hours) (stoi minutes)
          (stoi seconds) 0 (.ok (sign :: hh ++ ':' :: mm)) ∧
      timestampFromString env (dateTimeText year month day hours minutes seconds ++
          (sign :: hh ++ mm)) =
        timestampOfFields env (stoi year) (stoi month) (stoi day) (stoi hours) (stoi minutes)
          (stoi seconds) 0 (.ok (hh ++ ':' :: mm)) ∧
      timestampFromString env (dateTimeText year month day hours minutes seconds ++ [c]) =
        timestampOfFields env (stoi year) (stoi month) (stoi day) (stoi hours) (stoi minutes)
          (stoi seconds) 0 (icuTimezone env "GMT".toList) ∧
      timestampFromString env (dateTimeText year month day hours minutes seconds ++
          (' ' :: 'U' :: 'T' :: 'C' :: sign :: hh ++ ':' :: mm)) =
        timestampOfFields env (stoi year) (stoi month) (stoi day) (stoi hours) (stoi minutes)
          (stoi seconds) 0 (.ok ('U' :: 'T' :: 'C' :: sign :: hh ++ ':' :: mm)) := by
  have hzone : ∀ zoneGroup, zoneOfGroup env zoneGroup = getTimezone env zoneGroup := by
    intro zoneGroup
    simp [zoneOfGroup, hicu]
  have hutc := getTimezone_utc env (sign :: hh ++ ':' :: mm)
  simp only [List.cons_append] at hutc
  refine ⟨?_, ?_, ?_, ?_, ?_⟩
  · rw [timestampFromString_noZone env year4 month2 day2 hours2 minutes2 seconds2, hzone]
    rfl
  · rw [timestampFromString_offset env year4 month2 day2 hours2 minutes2 seconds2 hsign hh2 mm2,
      hzone, getTimezone_offset env hsign hh2 mm2]
  · rw [timestampFromString_offsetWithoutColon env year4 month2 day2 hours2 minutes2 seconds2
      hsign hh2 mm2, hzone, getTimezone_offsetWithoutColon env hsign hh2 mm2]
  · rw [timestampFromString_zulu env year4 month2 day2 hours2 minutes2 seconds2 hc, hzone,
      getTimezone_zulu env hc]
  · rw [timestampFromString_utc env year4 month2 day2 hours2 minutes2 seconds2 hsign hh2 mm2,
      hzone]
    simp only [List.cons_append] at hutc ⊢
    rw [hutc]

/-- A machine on UTC whose libraries answer every question with `0`. -/
def constantEnv : TimestampEnv :=
  ⟨"+00:00".toList, fun _ => some 0, fun _ _ _ => .ok 0, fun _ _ _ _ _ _ => .ok 0, true⟩

theorem timestampFromString_minus_0800_as_plus_0800 :
    timestampFromString constantEnv "1992-06-04 12:30:45-0800".toList =
      timestampOfFields constantEnv 1992 6 4 12 30 45 0 (.ok "08:00".toList) ∧
    timestampFromString constantEnv "1992-06-04 12:30:45+0800".toList =
      timestampOfFields constantEnv 1992 6 4 12 30 45 0 (.ok "08:00".toList) := by
  have hminus := (@timestampFromString_zones constantEnv rfl "1992".toList "06".toList "04".toList
    "12".toList "30".toList "45".toList "08".toList "00".toList '-' 'Z' ⟨rfl, by simp⟩
    ⟨rfl, by simp⟩ ⟨rfl, by simp⟩ ⟨rfl, by simp⟩ ⟨rfl, by simp⟩ ⟨rfl, by simp⟩ (Or.inr rfl)
    ⟨rfl, by simp⟩ ⟨rfl, by simp⟩ (Or.inr rfl)).2.2.1
  have hplus := (@timestampFromString_zones constantEnv rfl "1992".toList "06".toList "04".toList
    "12".toList "30".toList "45".toList "08".toList "00".toList '+' 'Z' ⟨rfl, by simp⟩
    ⟨rfl, by simp⟩ ⟨rfl, by simp⟩ ⟨rfl, by simp⟩ ⟨rfl, by simp⟩ ⟨rfl, by simp⟩ (Or.inl rfl)
    ⟨rfl, by simp⟩ ⟨rfl, by simp⟩ (Or.inr rfl)).2.2.1
  exact ⟨hminus, hplus⟩

/-! ### Precision -/

section Precision

/-- A value clamped to the range of `int64_t`. -/
def clampInt64 (v : Int) : Int := max int64Min (min int64Max v)

theorem int64Max_tdiv_ten : int64Max.tdiv 10 = 922337203685477580 := by decide

theorem int64Min_tdiv_ten : int64Min.tdiv 10 = -922337203685477580 := by decide

theorem scaleUp_eq_clamp (n : Nat) {val : Int} (hmin : int64Min ≤ val) (hmax : val ≤ int64Max) :
    scaleUp val n = clampInt64 (val * 10 ^ n) := by
  induction n generalizing val with
  | zero => simp [scaleUp, clampInt64, hmin, hmax]
  | succ n ih =>
    have hpow : 1 ≤ (10 : Int) ^ n := one_le_pow₀ (by norm_num)
    have hstep : val * 10 ^ (n + 1) = val * 10 * 10 ^ n := by ring
    simp only [int64Min, int64Max] at hmin hmax
    by_cases hover : val > 922337203685477580
    · -- the next step would pass `INT64_MAX`, and so does the whole product
      have hbig : int64Max ≤ val * 10 ^ (n + 1) := by
        rw [hstep]
        simp only [int64Max]
        nlinarith
      have hover' : val > int64Max.tdiv 10 := by rw [int64Max_tdiv_ten]; exact hover
      simp only [scaleUp, hover', if_true, clampInt64]
      rw [min_eq_left hbig, max_eq_right (by decide)]
    · by_cases hunder : val < -922337203685477580
      · have hsmall : val * 10 ^ (n + 1) ≤ int64Min := by
          rw [hstep]
          simp only [int64Min]
          nlinarith
        have hnotOver : ¬val > int64Max.tdiv 10 := by rw [int64Max_tdiv_ten]; exact hover
        simp only [scaleUp, hnotOver, if_false, int64Min_tdiv_ten, hunder, if_true, clampInt64]
        rw [min_eq_right (le_trans hsmall (by decide)), max_eq_left hsmall]
      · have hnotOver : ¬val > int64Max.tdiv 10 := by rw [int64Max_tdiv_ten]; exact hover
        have hnotUnder : ¬val < int64Min.tdiv 10 := by rw [int64Min_tdiv_ten]; exact hunder
        simp only [scaleUp, hnotOver, hnotUnder, if_false]
        rw [ih (by simp only [int64Min]; omega) (by simp only [int64Max]; omega), hstep]

theorem tdiv_tdiv_of_nonneg {b : Int} (hb : 0 ≤ b) (c a : Int) :
    (a.tdiv b).tdiv c = a.tdiv (b * c) := by
  -- truncation is division of the magnitude, so the negative case is the positive one negated
  have hnonneg : ∀ a : Int, 0 ≤ a → (a.tdiv b).tdiv c = a.tdiv (b * c) := by
    intro a ha
    rw [Int.tdiv_eq_ediv_of_nonneg ha, Int.tdiv_eq_ediv_of_nonneg (Int.ediv_nonneg ha hb),
      Int.tdiv_eq_ediv_of_nonneg ha, Int.ediv_ediv_of_nonneg hb]
  rcases le_or_gt 0 a with ha | ha
  · exact hnonneg a ha
  · have hneg := hnonneg (-a) (by omega)
    simp only [Int.neg_tdiv] at hneg
    omega

theorem scaleDown_eq_tdiv (n : Nat) (val : Int) : scaleDown val n = val.tdiv (10 ^ n) := by
  induction n generalizing val with
  | zero => simp [scaleDown]
  | succ n ih =>
    rw [scaleDown, ih, tdiv_tdiv_of_nonneg (by norm_num), pow_succ']

theorem adjustPrecision_eq {val : Int} (hmin : int64Min ≤ val) (hmax : val ≤ int64Max)
    (inputPrecision outputPrecision : Int) :
    adjustPrecision val inputPrecision outputPrecision =
      if inputPrecision < outputPrecision then
        clampInt64 (val * 10 ^ (outputPrecision - inputPrecision).toNat)
      else val.tdiv (10 ^ (inputPrecision - outputPrecision).toNat) := by
  unfold adjustPrecision
  split
  · exact scaleUp_eq_clamp _ hmin hmax
  · exact scaleDown_eq_tdiv _ _

theorem clampInt64_mono {a b : Int} (h : a ≤ b) : clampInt64 a ≤ clampInt64 b :=
  max_le_max le_rfl (min_le_min le_rfl h)

theorem clampInt64_of_le {v : Int} (hmin : int64Min ≤ v) (hmax : v ≤ int64Max) :
    clampInt64 v = v := by
  rw [clampInt64, min_eq_right hmax, max_eq_right hmin]

/-- Changing the precision of `int64` values keeps their order, for every pair of precisions: the
saturation at the bounds is there so that comparisons stay right. -/
theorem adjustPrecision_mono {a b : Int} (ha : int64Min ≤ a) (hb : b ≤ int64Max) (hab : a ≤ b)
    (inputPrecision outputPrecision : Int) :
    adjustPrecision a inputPrecision outputPrecision ≤
      adjustPrecision b inputPrecision outputPrecision := by
  rw [adjustPrecision_eq ha (le_trans hab hb), adjustPrecision_eq (le_trans ha hab) hb]
  split
  · exact clampInt64_mono (Int.mul_le_mul_of_nonneg_right hab (by positivity))
  · exact Int.tdiv_le_tdiv (by positivity) hab

/-- Two millisecond values past the range of microseconds keep their order as both saturate. -/
theorem adjustPrecision_mono_saturated :
    adjustPrecision 9300000000000000 cqlInputFormat.inputPrecision kInternalPrecision ≤
      adjustPrecision 9400000000000000 cqlInputFormat.inputPrecision kInternalPrecision :=
  adjustPrecision_mono (by decide) (by decide) (by decide) _ _

/-- Raising the precision of a value and lowering it back gives the value, whenever the raised
value fits in `int64`; the value itself then fits too. -/
theorem adjustPrecision_round_trip {val inputPrecision outputPrecision : Int}
    (hlt : inputPrecision < outputPrecision)
    (hmin : int64Min ≤ val * 10 ^ (outputPrecision - inputPrecision).toNat)
    (hmax : val * 10 ^ (outputPrecision - inputPrecision).toNat ≤ int64Max) :
    adjustPrecision (adjustPrecision val inputPrecision outputPrecision) outputPrecision
      inputPrecision = val := by
  have hpow : (1 : Int) ≤ 10 ^ (outputPrecision - inputPrecision).toNat := one_le_pow₀ (by norm_num)
  -- a factor of at least one moves a value away from zero, so `val` lies within the raised value
  have hval : int64Min ≤ val ∧ val ≤ int64Max := by
    simp only [int64Min, int64Max] at hmin hmax ⊢
    constructor <;> rcases le_or_gt 0 val with h | h <;> nlinarith
  have hraised : adjustPrecision val inputPrecision outputPrecision =
      val * 10 ^ (outputPrecision - inputPrecision).toNat := by
    rw [adjustPrecision_eq hval.1 hval.2, if_pos hlt, clampInt64_of_le hmin hmax]
  rw [hraised, adjustPrecision_eq hmin hmax, if_neg (by omega)]
  exact Int.mul_tdiv_cancel val (by positivity)

/-- A timestamp of the wire, in milliseconds, read into microseconds and written back. -/
theorem adjustPrecision_round_trip_wire :
    adjustPrecision (adjustPrecision 1700000000000 cqlInputFormat.inputPrecision kInternalPrecision)
      kInternalPrecision cqlInputFormat.inputPrecision = 1700000000000 :=
  adjustPrecision_round_trip (by decide) (by decide) (by decide)

end Precision

section Dates

theorem tdiv_mul_bracket {b : Int} (hb : 0 < b) (t : Int) :
    (0 ≤ t → t.tdiv b * b ≤ t ∧ t < t.tdiv b * b + b) ∧
      (t < 0 → t.tdiv b * b - b < t ∧ t ≤ t.tdiv b * b) := by
  have hsum := Int.tmod_add_tdiv_mul t b
  constructor
  · intro ht
    have hlo := Int.tmod_nonneg b ht
    have hhi := Int.tmod_lt_of_pos t hb
    omega
  · intro ht
    -- the remainder of a negative value is the negated remainder of its magnitude
    have hneg := Int.neg_tmod (-t) b
    have hlo := Int.tmod_nonneg b (show 0 ≤ -t by omega)
    have hhi := Int.tmod_lt_of_pos (-t) hb
    rw [Int.neg_neg] at hneg
    omega

theorem toDate_of_lt {days : Int} (hmin : -kEpochDateOffset ≤ days)
    (hmax : days < kEpochDateOffset) :
    ∃ date, toDate days = .ok date ∧ (date.toNat : Int) - kEpochDateOffset = days := by
  simp only [kEpochDateOffset] at hmin hmax ⊢
  have hfits : ¬(days + 2 ^ 31 < 0 ∨ days + 2 ^ 31 > 4294967295) := by omega
  refine ⟨UInt32.ofNat (days + 2 ^ 31).toNat, ?_, ?_⟩
  · simp only [toDate, kEpochDateOffset, hfits, if_false]
  · have hlt : (days + 2 ^ 31).toNat < 2 ^ 32 := by omega
    rw [UInt32.toNat_ofNat_of_lt' hlt]
    omega

theorem toDate_sub_offset (date : UInt32) :
    toDate ((date.toNat : Int) - kEpochDateOffset) = .ok date := by
  have hlt : date.toNat < 2 ^ 32 := date.toNat_lt
  have hfits : ¬((date.toNat : Int) < 0 ∨ (date.toNat : Int) > 4294967295) := by omega
  simp only [toDate, sub_add_cancel, hfits, if_false, Int.toNat_natCast, UInt32.ofNat_toNat]

example : ¬(int64Min ≤ dateToTimestamp (2 ^ 31 + 106751992) ∧
    dateToTimestamp (2 ^ 31 + 106751992) ≤ int64Max) := by
  decide

end Dates

end DateTime

end FrescoDB.Util
