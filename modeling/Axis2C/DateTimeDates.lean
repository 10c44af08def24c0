import Axis2C.DateTime

/-!
# Which dates are accepted

The setter and the reader accept a date exactly if it is there in the Gregorian calendar,
except for the 29th of February in a year that 100 divides: there the test for 400 is the
wrong way round. A date that is read comes from a text with any number of leading zeros,
as the printed form has them.
-/
namespace Axis2C.DateTimes
open FirstOccurrence
open Gregorian (IsDate IsLeap daysInMonth)
open Uris (Text takeSign isSpace)

section Judged

/-- An accepted date is stored, and nothing else changes. -/
def stored (dateTime : DateTime) (year mon day : ℤ) : DateTime :=
  { dateTime with year := year - 1900, mon := mon - 1, day := day }

/-- The printed date of an object is read back, into any other object. -/
def PrintsBack (dateTime : DateTime) : Prop :=
  ∃ text, serializeDate dateTime = some text ∧
    ∀ other, ∃ read, deserializeDate other (some text) = some (true, read) ∧
      read.year = dateTime.year ∧ read.mon = dateTime.mon ∧ read.day = dateTime.day

/-- A function that takes a date accepts it exactly if it is one, changes nothing where it
does not, and what it accepts is read back from its printed form. -/
structure Judges (run : DateTime → Option (Bool × DateTime)) (year mon day : ℤ) : Prop where
  accepts : IsDate year mon day → ∀ dateTime, ∃ new, run dateTime = some (true, new) ∧
    new.year = year - 1900 ∧ new.mon = mon - 1 ∧ new.day = day ∧ PrintsBack new
  rejects : ¬ IsDate year mon day → ∀ dateTime, run dateTime = some (false, dateTime)

/-- The 29th of February of a year that 100 divides. -/
def CenturyLeapDay (year mon day : ℤ) : Prop := mon = 2 ∧ day = 29 ∧ 100 ∣ year

end Judged

section Dates

variable {year mon day : ℤ}

lemma noLeapYear_eq_false_iff : noLeapYear year = false ↔ 4 ∣ year ∧ ¬ 400 ∣ year := by
  simp only [noLeapYear, Bool.or_eq_false_iff, decide_eq_false_iff_not]
  omega

/-- The tests pass exactly for a date, but for the 29th of February. -/
lemma badDate_eq_false_iff : badDate year mon day = false ↔
    if mon = 2 ∧ day = 29 then 4 ∣ year ∧ ¬ 400 ∣ year else IsDate year mon day := by
  by_cases hleapDay : mon = 2 ∧ day = 29
  · rw [if_pos hleapDay, ← noLeapYear_eq_false_iff, badDate, hleapDay.1, hleapDay.2]
    simp
  · rw [if_neg hleapDay]
    simp only [badDate, Bool.or_eq_false_iff, Bool.and_eq_false_imp, Bool.and_eq_true,
      decide_eq_true_eq, decide_eq_false_iff_not]
    constructor
    · intro h
      have hday : day ≤ daysInMonth year mon := by
        unfold daysInMonth
        split_ifs <;> omega
      exact ⟨by omega, by omega, by omega, hday⟩
    · intro h
      have hmonth := h.month_pos
      have hmonth' := h.month_le
      have hpos := h.day_pos
      have hle := h.day_le
      unfold daysInMonth at hle
      split_ifs at hle <;> omega

lemma isDate_leapDay : IsDate year 2 29 ↔ IsLeap year := by
  constructor
  · intro h
    by_contra hleap
    have hle := h.day_le
    simp [daysInMonth, hleap] at hle
  · intro hleap
    exact ⟨by omega, by omega, by omega, by simp [daysInMonth, hleap]⟩

/-- The tests are right exactly if the date is no 29th of February of a year that 100 divides. -/
lemma badDate_right_iff :
    (badDate year mon day = false ↔ IsDate year mon day) ↔ ¬ CenturyLeapDay year mon day := by
  rw [badDate_eq_false_iff]
  by_cases hleapDay : mon = 2 ∧ day = 29
  · obtain ⟨rfl, rfl⟩ := hleapDay
    rw [if_pos ⟨rfl, rfl⟩, isDate_leapDay]
    unfold IsLeap CenturyLeapDay
    omega
  · rw [if_neg hleapDay]
    unfold CenturyLeapDay
    simp only [true_iff]
    exact fun h => hleapDay ⟨h.1, h.2.1⟩

end Dates

section Printing

def intText (zeros : ℕ) (n : ℤ) : Text :=
  (if n < 0 then ['-'] else []) ++ List.replicate zeros '0' ++ Nat.toDigits 10 n.natAbs

def dateText (zerosY zerosM zerosD : ℕ) (year mon day : ℤ) : Text :=
  intText zerosY year ++ '-' :: (intText zerosM mon ++ '-' :: intText zerosD day)

lemma printInt_eq (width : ℕ) (n : ℤ) : ∃ zeros, printInt width n = intText zeros n :=
  ⟨_, rfl⟩

lemma digits_replicate (zeros n : ℕ) :
    (∀ c ∈ List.replicate zeros '0' ++ Nat.toDigits 10 n, c.isDigit = true) ∧
      Nat.ofDigitChars 10 (List.replicate zeros '0' ++ Nat.toDigits 10 n) 0 = n ∧
      List.replicate zeros '0' ++ Nat.toDigits 10 n ≠ [] := by
  refine ⟨?_, ?_, ?_⟩
  · intro c hc
    rcases List.mem_append.mp hc with hzero | hdigit
    · rw [List.eq_of_mem_replicate hzero]
      decide
    · exact Nat.isDigit_of_mem_toDigits (by decide) (by decide) hdigit
  · rw [Nat.ofDigitChars_append, Nat.ofDigitChars_replicate_zero, mul_zero,
      Nat.ofDigitChars_ten_toDigits]
  · intro hnil
    exact Nat.toDigits_ne_nil (List.append_eq_nil_iff.mp hnil).2

/-- A number is read up to what is no digit, if it is an `int`. -/
lemma scanInt_intText (zeros : ℕ) (n : ℤ) (rest : Text)
    (hrest : ∀ c ∈ rest.head?, c.isDigit = false) :
    scanInt (intText zeros n ++ rest) = if IsInt n then some (n, rest) else none := by
  obtain ⟨hdigits, hvalue, hne⟩ := digits_replicate zeros n.natAbs
  set digits := List.replicate zeros '0' ++ Nat.toDigits 10 n.natAbs with hdef
  have htake := takeWhile_upto hdigits hrest
  have hdrop := dropWhile_upto hdigits hrest
  have hsigned : takeSign ((intText zeros n ++ rest).dropWhile isSpace) =
      (decide (n < 0), digits ++ rest) := by
    unfold intText
    by_cases hneg : n < 0
    · rw [if_pos hneg, List.append_assoc, List.append_assoc, List.singleton_append,
        List.dropWhile_cons_of_neg (by decide), ← List.append_assoc, ← hdef]
      simp [takeSign, hneg]
    · rw [if_neg hneg, List.nil_append, ← hdef]
      obtain ⟨c, more, hcons⟩ := List.exists_cons_of_ne_nil hne
      have hc : c.isDigit = true := hdigits c (by simp [hcons])
      rw [hcons, List.cons_append,
        List.dropWhile_cons_of_neg (by simp [Uris.isSpace_of_isDigit hc]), Uris.takeSign_digit hc]
      simp [hneg]
  have hn : (if n < 0 then -((n.natAbs : ℕ) : ℤ) else n.natAbs) = n := by
    split_ifs <;> omega
  unfold scanInt
  simp only [hsigned, htake, hdrop, hvalue, decide_eq_true_eq, hn, hne, false_or, ite_not]

/-- The first character of a text that is no negative number. -/
lemma head_intText (zeros : ℕ) {n : ℤ} (hn : ¬ n < 0) (rest : Text) :
    ∃ c, (intText zeros n ++ rest).head? = some c ∧ c.isDigit = true := by
  obtain ⟨hdigits, -, hne⟩ := digits_replicate zeros n.natAbs
  obtain ⟨c, more, hcons⟩ := List.exists_cons_of_ne_nil hne
  refine ⟨c, ?_, hdigits c (by simp [hcons])⟩
  rw [intText, if_neg hn, List.nil_append, hcons]
  rfl

variable (zerosY zerosM zerosD : ℕ) (year mon day : ℤ)

lemma scanDate_dateText : scanDate (dateText zerosY zerosM zerosD year mon day) =
    if IsInt year ∧ IsInt mon ∧ IsInt day then some (year, mon, day) else none := by
  have hdash (s : Text) : ∀ c ∈ ('-' :: s).head?, c.isDigit = false := by
    intro c hc
    obtain rfl := Option.some.inj hc
    decide
  have hday : scanInt (intText zerosD day) = if IsInt day then some (day, []) else none := by
    simpa using scanInt_intText zerosD day [] (by simp)
  unfold scanDate dateText
  rw [scanInt_intText zerosY year _ (hdash _)]
  by_cases hy : IsInt year
  · rw [if_pos hy]
    simp only [Option.bind_eq_bind, Option.bind_some, scanDash]
    rw [scanInt_intText zerosM mon _ (hdash _)]
    by_cases hm : IsInt mon
    · rw [if_pos hm]
      simp only [Option.bind_some]
      rw [hday]
      by_cases hd : IsInt day
      · simp [hy, hm, hd]
      · simp [hd]
    · simp [hm]
  · simp [hy]

lemma isInt_abs_iff : IsInt |year| ↔ |year| < 2 ^ 31 := by
  have hpos := abs_nonneg year
  unfold IsInt
  omega

lemma isInt_of_abs {year : ℤ} (h : |year| < 2 ^ 31) : IsInt year := by
  have hbounds := abs_lt.mp h
  unfold IsInt
  omega

/-- The date in front of which `deserializeDate` has looked for a sign. -/
lemma scanned_dateText :
    (dateText zerosY zerosM zerosD year mon day).head? ≠ some '+' ∧
      ((dateText zerosY zerosM zerosD year mon day).head? = some '-' ↔ year < 0) ∧
      scanDate (if (dateText zerosY zerosM zerosD year mon day).head? = some '-' then
          (dateText zerosY zerosM zerosD year mon day).tail
        else dateText zerosY zerosM zerosD year mon day) =
        if |year| < 2 ^ 31 ∧ IsInt mon ∧ IsInt day then some (|year|, mon, day) else none := by
  have habs := scanDate_dateText zerosY zerosM zerosD |year| mon day
  simp only [isInt_abs_iff] at habs
  by_cases hneg : year < 0
  · have htext : dateText zerosY zerosM zerosD year mon day =
        '-' :: dateText zerosY zerosM zerosD |year| mon day := by
      simp [dateText, intText, hneg, Int.natAbs_abs]
    rw [htext]
    simpa [hneg] using habs
  · obtain ⟨c, hhead, hc⟩ := head_intText zerosY hneg
      ('-' :: (intText zerosM mon ++ '-' :: intText zerosD day))
    have hplus : c ≠ '+' := by
      rintro rfl
      exact absurd hc (by decide)
    have hminus : c ≠ '-' := by
      rintro rfl
      exact absurd hc (by decide)
    rw [abs_of_nonneg (not_lt.mp hneg)] at habs ⊢
    have hfirst : (dateText zerosY zerosM zerosD year mon day).head? = some c := hhead
    simpa [hfirst, hplus, hminus, hneg] using habs

/-- Only the digits of the year are read, its sign is looked at before. -/
lemma deserializeDate_dateText (dateTime : DateTime) :
    deserializeDate dateTime (some (dateText zerosY zerosM zerosD year mon day)) =
      if ¬ (|year| < 2 ^ 31 ∧ IsInt mon ∧ IsInt day) then none
      else if badDate year mon day then some (false, dateTime)
      else if ¬ IsInt (year - 1900) then none
      else some (true, stored dateTime year mon day) := by
  obtain ⟨hplus, hminus, hscan⟩ := scanned_dateText zerosY zerosM zerosD year mon day
  unfold deserializeDate
  simp only [if_neg hplus, hscan]
  by_cases hint : |year| < 2 ^ 31 ∧ IsInt mon ∧ IsInt day
  · have hyear : (if year < 0 then -|year| else |year|) = year := by
      split_ifs with hneg
      · rw [abs_of_neg hneg, neg_neg]
      · exact abs_of_nonneg (not_lt.mp hneg)
    rw [if_pos hint, if_neg (not_not.mpr hint)]
    simp only [hminus, hyear]
    rw [if_neg (not_not.mpr (isInt_of_abs hint.1))]
    rfl
  · rw [if_neg hint, if_pos hint]

end Printing

section Judging

variable {year mon day : ℤ}

lemma printsBack_of {new : DateTime} (hyear : new.year = year - 1900) (hmon : new.mon = mon - 1)
    (hday : new.day = day) (hint : IsInt year) (hstored : IsInt (year - 1900))
    (hgood : badDate year mon day = false) : PrintsBack new := by
  have hranges : IsInt mon ∧ IsInt day := by
    simp only [badDate, Bool.or_eq_false_iff, decide_eq_false_iff_not] at hgood
    unfold IsInt
    omega
  have habs : |year| < 2 ^ 31 := by
    unfold IsInt at hint hstored
    exact abs_lt.mpr (by omega)
  have hback : new.year + 1900 = year ∧ new.mon + 1 = mon := by omega
  obtain ⟨zerosY, hprintY⟩ := printInt_eq 0 year
  obtain ⟨zerosM, hprintM⟩ := printInt_eq 2 mon
  obtain ⟨zerosD, hprintD⟩ := printInt_eq 2 day
  refine ⟨dateText zerosY zerosM zerosD year mon day, ?_, fun other => ?_⟩
  · unfold serializeDate dateText
    rw [hback.1, hback.2, hday, hprintY, hprintM, hprintD, if_neg]
    simp [hint, hranges.1]
  · refine ⟨stored other year mon day, ?_, hyear.symm, hmon.symm, hday.symm⟩
    rw [deserializeDate_dateText, if_neg (not_not.mpr ⟨habs, hranges⟩), if_neg (by simp [hgood]),
      if_neg (not_not.mpr hstored)]

section Tests

variable {run : DateTime → Option (Bool × DateTime)} {store : DateTime → DateTime}
  {defined : Prop} [Decidable defined]

/-- What the tests must have been where the function is right. -/
lemma tests_of_judges
    (hrun : ∀ dateTime, run dateTime =
      if ¬ defined then none
      else if badDate year mon day then some (false, dateTime)
      else if ¬ IsInt (year - 1900) then none
      else some (true, store dateTime))
    (h : Judges run year mon day) :
    (badDate year mon day = false ↔ IsDate year mon day) ∧ defined ∧
      (IsDate year mon day → IsInt year ∧ IsInt (year - 1900)) := by
  by_cases hdate : IsDate year mon day
  · obtain ⟨new, hnew, hyear, -, -, text, hprinted, -⟩ :=
      h.accepts hdate ⟨0, 0, 0, 0, 0, 0, true, 0, 0⟩
    rw [hrun] at hnew
    split_ifs at hnew with hdefined hbad hstored
    · simp at hnew
    · have hint : IsInt year := by
        by_contra hbig
        have hback : new.year + 1900 = year := by omega
        rw [serializeDate, hback, if_pos (Or.inl hbig)] at hprinted
        cases hprinted
      exact ⟨by simp [hbad, hdate], hdefined, fun _ => ⟨hint, hstored⟩⟩
  · have hrejected := h.rejects hdate ⟨0, 0, 0, 0, 0, 0, true, 0, 0⟩
    rw [hrun] at hrejected
    split_ifs at hrejected with hdefined hbad hstored
    · exact ⟨by simp [hbad, hdate], hdefined, fun hyes => absurd hyes hdate⟩
    · simp at hrejected

/-- When a function is right that makes the tests on its date, and stores it less 1900. -/
lemma judges_iff (store : DateTime → DateTime) (defined : Prop) [Decidable defined]
    (hrun : ∀ dateTime, run dateTime =
      if ¬ defined then none
      else if badDate year mon day then some (false, dateTime)
      else if ¬ IsInt (year - 1900) then none
      else some (true, store dateTime))
    (hstore : ∀ dateTime, (store dateTime).year = year - 1900 ∧ (store dateTime).mon = mon - 1 ∧
      (store dateTime).day = day) :
    Judges run year mon day ↔ ¬ CenturyLeapDay year mon day ∧ defined ∧
      (IsDate year mon day → IsInt year ∧ IsInt (year - 1900)) := by
  rw [← badDate_right_iff]
  constructor
  · exact tests_of_judges hrun
  · rintro ⟨hright, hdefined, hints⟩
    have hresult (dateTime : DateTime) := hrun dateTime
    simp only [hdefined, not_true_eq_false, if_false] at hresult
    constructor
    · intro hdate dateTime
      have hgood : badDate year mon day = false := hright.mpr hdate
      obtain ⟨hint, hstored⟩ := hints hdate
      obtain ⟨hyear, hmon, hday⟩ := hstore dateTime
      exact ⟨store dateTime, by simp [hresult, hgood, hstored], hyear, hmon, hday,
        printsBack_of hyear hmon hday hint hstored hgood⟩
    · intro hno dateTime
      have hbad : badDate year mon day = true := by
        rw [← Bool.not_eq_false, hright]
        exact hno
      rw [hresult, if_pos hbad]

end Tests

/-- A time of day as the setter takes it. -/
structure Clock where
  hour : ℤ
  min : ℤ
  sec : ℤ
  msec : ℤ
  hour_range : 0 ≤ hour ∧ hour ≤ 23
  min_range : 0 ≤ min ∧ min ≤ 59
  sec_range : 0 ≤ sec ∧ sec ≤ 59
  msec_range : 0 ≤ msec ∧ msec ≤ 999

/-- Both functions are right about a date exactly if it is no 29th of February of a year that
100 divides, if its numbers can be read, and if its year is an `int` also less 1900. -/
theorem date_judged_iff (year mon day : ℤ) :
    (∀ clock : Clock,
      Judges (setDateTime · year mon day clock.hour clock.min clock.sec clock.msec) year mon day ↔
        ¬ CenturyLeapDay year mon day ∧
          (IsDate year mon day → IsInt year ∧ IsInt (year - 1900))) ∧
      ∀ zerosY zerosM zerosD,
        Judges (deserializeDate · (some (dateText zerosY zerosM zerosD year mon day))) year mon day ↔
          ¬ CenturyLeapDay year mon day ∧ (|year| < 2 ^ 31 ∧ IsInt mon ∧ IsInt day) ∧
            (IsDate year mon day → IsInt year ∧ IsInt (year - 1900)) := by
  constructor
  · intro clock
    have hclock : ¬ ((clock.hour < 0 ∨ clock.hour > 23) ∨ (clock.min < 0 ∨ clock.min > 59) ∨
        (clock.sec < 0 ∨ clock.sec > 59) ∨ (clock.msec < 0 ∨ clock.msec > 999)) := by
      have hhour := clock.hour_range
      have hmin := clock.min_range
      have hsec := clock.sec_range
      have hmsec := clock.msec_range
      omega
    rw [judges_iff (fun dateTime => { stored dateTime year mon day with
        hour := clock.hour, min := clock.min, sec := clock.sec + clock.msec / 1000 }) True
        (fun dateTime => ?_) (fun dateTime => ⟨rfl, rfl, rfl⟩), true_and]
    unfold setDateTime
    simp only [hclock, or_false, not_true_eq_false, if_false]
    rfl
  · intro zerosY zerosM zerosD
    exact judges_iff _ _ (deserializeDate_dateText zerosY zerosM zerosD year mon day)
      (fun dateTime => ⟨rfl, rfl, rfl⟩)

/-- The 29th of February 2000 is a date, and refused. -/
theorem leap_day_refused :
    IsDate 2000 2 29 ∧ ¬ Judges (setDateTime · 2000 2 29 0 0 0 0) 2000 2 29 ∧
      ¬ Judges (deserializeDate · (some "2000-02-29".toList)) 2000 2 29 := by
  have hdate : IsDate 2000 2 29 := isDate_leapDay.mpr (by decide)
  have hset : setDateTime ⟨0, 0, 1, 0, 0, 0, true, 0, 0⟩ 2000 2 29 0 0 0 0 =
      some (false, ⟨0, 0, 1, 0, 0, 0, true, 0, 0⟩) := by decide
  have hread : deserializeDate ⟨0, 0, 1, 0, 0, 0, true, 0, 0⟩ (some "2000-02-29".toList) =
      some (false, ⟨0, 0, 1, 0, 0, 0, true, 0, 0⟩) := by decide
  refine ⟨hdate, fun h => ?_, fun h => ?_⟩
  · obtain ⟨new, hnew, -⟩ := h.accepts hdate ⟨0, 0, 1, 0, 0, 0, true, 0, 0⟩
    rw [hset] at hnew
    simp at hnew
  · obtain ⟨new, hnew, -⟩ := h.accepts hdate ⟨0, 0, 1, 0, 0, 0, true, 0, 0⟩
    rw [hread] at hnew
    simp at hnew

end Judging

end Axis2C.DateTimes
