import Axis2C.DateTimeInstants

/-!
# Conversion between local time and UTC

The loop that carries days over sets the day to the length of the month instead of taking
that off, and does so already on the last day of a month. The conversion keeps the instant
and can be undone where the local day and the day in UTC both come before that day, with
the leap years as the code takes them, and the day in UTC is not before the first.
-/
namespace Axis2C.DateTimes
open Gregorian (Date IsDate IsLeap daysInMonth dayNumber)

section Normalising

variable (unit : ℕ) [NeZero unit] (high low : ℤ)

lemma borrow_eq (hlow : low < unit) :
    borrow unit high low = (high + low / unit, low % unit) := by
  have hpos : 0 < unit := NeZero.pos unit
  induction high, low using borrow.induct unit with
  | case1 high low hneg ih =>
    have hdiv : (low + unit) / unit = low / unit + 1 :=
      Int.add_ediv_of_dvd_right (dvd_refl _) |>.trans (by
        rw [Int.ediv_self (by omega)])
    rw [borrow, if_pos hneg, ih (by omega), hdiv, Int.add_emod_right]
    congr 1
    omega
  | case2 high low hneg =>
    rw [borrow, if_neg hneg, Int.ediv_eq_zero_of_lt (by omega) hlow,
      Int.emod_eq_of_lt (by omega) hlow, add_zero]

/-- After both loops the lower unit is the remainder and the quotient has been added above. -/
lemma borrow_carry :
    borrow unit (carry unit high low).1 (carry unit high low).2 =
      (high + low / unit, low % unit) := by
  have hpos : (0 : ℤ) < unit := by exact_mod_cast NeZero.pos unit
  unfold carry
  split_ifs with hbig
  · have hmod := Int.emod_lt_of_pos low hpos
    have hnonneg := Int.emod_nonneg low hpos.ne'
    rw [borrow_eq unit _ _ hmod, Int.ediv_eq_zero_of_lt hnonneg hmod, Int.emod_emod, add_zero]
  · exact borrow_eq unit high low (by omega)

end Normalising

section Days

/-- The last day of a month, with the test for leap years on the year counted from 1900. -/
def monthEnd (year mon : ℤ) : ℤ :=
  if mon = 2 then if noLeapYear year then 28 else 29
  else if mon = 4 ∨ mon = 6 ∨ mon = 9 ∨ mon = 11 then 30
  else 31

def YearMonthDay.months (s : YearMonthDay) : ℤ := 12 * s.year + s.mon

variable {s t : YearMonthDay}

lemma monthEnd_bounds (year mon : ℤ) : 28 ≤ monthEnd year mon ∧ monthEnd year mon ≤ 31 := by
  unfold monthEnd
  split_ifs <;> omega

/-- The code takes no leap year for another year, but two others in 400 for a leap year. -/
lemma monthEnd_real (year mon : ℤ) :
    daysInMonth (year + 1900) mon ≤ monthEnd year mon ∧
      monthEnd year mon ≤ daysInMonth (year + 1900) mon + 1 := by
  have hleap : noLeapYear year = true → ¬ IsLeap (year + 1900) := by
    intro hno
    simp only [noLeapYear, Bool.or_eq_true, decide_eq_true_eq] at hno
    unfold IsLeap
    omega
  unfold monthEnd daysInMonth
  by_cases hno : noLeapYear year = true
  · rw [if_pos hno, if_neg (hleap hno)]
    split_ifs <;> omega
  · rw [if_neg hno]
    split_ifs <;> omega

/-- The loop is left exactly in front of the last day of the month. -/
lemma carryStep_eq_none_iff : carryStep s = none ↔ s.day < monthEnd s.year s.mon := by
  unfold carryStep monthEnd
  split_ifs <;> simp <;> omega

lemma carryDays_eq_self (h : s.day < monthEnd s.year s.mon) : carryDays s = s := by
  rw [carryDays, carryStep_eq_none_iff.mpr h]

/-- A round leads to the next month, to a late day of it. -/
lemma carryStep_spec (hmon : 1 ≤ s.mon ∧ s.mon ≤ 12) (h : carryStep s = some t) :
    28 ≤ t.day ∧ t.months = s.months + 1 ∧ 1 ≤ t.mon ∧ t.mon ≤ 12 := by
  have hnext (day : ℤ) (hday : 28 ≤ day) : 28 ≤ (s.nextMonth day).day ∧
      (s.nextMonth day).months = s.months + 1 ∧
      1 ≤ (s.nextMonth day).mon ∧ (s.nextMonth day).mon ≤ 12 := by
    unfold YearMonthDay.nextMonth YearMonthDay.months
    split_ifs <;> simp only <;> omega
  unfold carryStep at h
  split_ifs at h
  all_goals
    obtain rfl := Option.some.inj h
    exact hnext _ (by omega)

/-- What the rounds keep: a late day, and no earlier month. -/
lemma carryDays_spec (hmon : 1 ≤ s.mon ∧ s.mon ≤ 12) (hday : 28 ≤ s.day) :
    28 ≤ (carryDays s).day ∧ s.months ≤ (carryDays s).months := by
  induction s using carryDays.induct with
  | case1 s hnone =>
    rw [carryDays, hnone]
    exact ⟨hday, le_rfl⟩
  | case2 s t hsome ih =>
    obtain ⟨hlate, hmonths, hfirst, hlast⟩ := carryStep_spec hmon hsome
    have hrest := ih ⟨hfirst, hlast⟩ hlate
    rw [carryDays, hsome]
    exact ⟨hrest.1, by
      have := hrest.2
      simp only
      omega⟩

lemma carryDays_late (hmon : 1 ≤ s.mon ∧ s.mon ≤ 12) (h : monthEnd s.year s.mon ≤ s.day) :
    28 ≤ (carryDays s).day ∧ s.months < (carryDays s).months := by
  cases hstep : carryStep s with
  | none => exact absurd (carryStep_eq_none_iff.mp hstep) (by omega)
  | some t =>
    obtain ⟨hlate, hmonths, hfirst, hlast⟩ := carryStep_spec hmon hstep
    have hrest := carryDays_spec ⟨hfirst, hlast⟩ hlate
    rw [carryDays, hstep]
    exact ⟨hrest.1, by
      have := hrest.2
      simp only
      omega⟩

lemma borrowDays_eq_self (h : 1 ≤ s.day) : borrowDays s = s := if_neg (by omega)

/-- Before the first the day is the 30th or the 31st. -/
lemma borrowDays_day (h : s.day < 1) : 30 ≤ (borrowDays s).day := by
  unfold borrowDays
  rw [if_pos h]
  split_ifs <;> simp

end Days

section Shift

/-- The days that the conversion to UTC goes forth or back. -/
def dayShift (d : DateTime) : ℤ := (60 * utcHour d + utcMin d) / 1440

/-- Year, month and day after the loops. -/
def normalised (year mon day : ℤ) : YearMonthDay := borrowDays (carryDays ⟨year, mon, day⟩)

/-- The conversion, with the time of day in minutes. -/
lemma localToUtc_eq (d : DateTime) :
    localToUtc d =
      let s := normalised d.year (d.mon + 1) (d.day + dayShift d)
      let minutes := (60 * utcHour d + utcMin d) % 1440
      if badDate s.year s.mon s.day ∨ badTime (minutes / 60) (minutes % 60) d.sec then none
      else some ⟨s.year, s.mon - 1, s.day, minutes / 60, minutes % 60, d.sec, true, 0, 0⟩ := by
  have hmin := borrow_carry 60 (utcHour d) (utcMin d)
  have hhour := borrow_carry 24 d.day (utcHour d + utcMin d / 60)
  have hshift : d.day + (utcHour d + utcMin d / 60) / 24 = d.day + dayShift d := by
    unfold dayShift
    omega
  have hhours : (utcHour d + utcMin d / 60) % 24 = (60 * utcHour d + utcMin d) % 1440 / 60 := by
    omega
  have hmins : utcMin d % 60 = (60 * utcHour d + utcMin d) % 1440 % 60 := by omega
  push_cast at hmin hhour
  unfold localToUtc normalised
  simp only [hmin, hhour, hshift, hhours, hmins]

/-- The way back ends at the time of day that it came from, the day moved back. -/
lemma utcToLocal_eq (t : LocalTime) (u : DateTime)
    (hhour : u.hour = (60 * utcHour t.val + utcMin t.val) % 1440 / 60)
    (hmin : u.min = (60 * utcHour t.val + utcMin t.val) % 1440 % 60) (hzone : u.tzHour = 0) :
    utcToLocal u t.val.tzPos t.val.tzHour t.val.tzMin =
      let s := normalised u.year (u.mon + 1) (u.day - dayShift t.val)
      if badDate s.year s.mon s.day ∨ badTime t.val.hour t.val.min u.sec then none
      else
        some ⟨s.year, s.mon - 1, s.day, t.val.hour, t.val.min, u.sec, t.val.tzPos, t.val.tzHour,
          t.val.tzMin⟩ := by
  have hthour := t.hour
  have htmin := t.min
  obtain ⟨d, hd⟩ : ∃ d : DateTime, d =
      { u with tzPos := !t.val.tzPos, tzHour := t.val.tzHour, tzMin := t.val.tzMin } := ⟨_, rfl⟩
  have hfields : d.year = u.year ∧ d.mon = u.mon ∧ d.day = u.day ∧ d.sec = u.sec := by
    simp [hd]
  have hbackHour : utcHour d = u.hour + t.val.hour - utcHour t.val := by
    unfold utcHour
    cases htz : t.val.tzPos <;> simp [hd, htz]
    all_goals omega
  have hbackMin : utcMin d = u.min + t.val.min - utcMin t.val := by
    unfold utcMin
    cases htz : t.val.tzPos <;> simp [hd, htz]
    all_goals omega
  have hminutes : 60 * utcHour d + utcMin d =
      60 * t.val.hour + t.val.min - 1440 * dayShift t.val := by
    unfold dayShift
    omega
  have hshift : dayShift d = -dayShift t.val := by
    rw [dayShift, hminutes]
    omega
  have hrest : (60 * utcHour d + utcMin d) % 1440 = 60 * t.val.hour + t.val.min := by omega
  have hback : (60 * t.val.hour + t.val.min) / 60 = t.val.hour ∧
      (60 * t.val.hour + t.val.min) % 60 = t.val.min := by omega
  unfold utcToLocal
  rw [if_neg (by simp [hzone]), ← hd, localToUtc_eq, hshift, hrest]
  simp only [hback.1, hback.2, hfields.1, hfields.2.1, hfields.2.2.1, hfields.2.2.2,
    ← sub_eq_add_neg]
  split_ifs <;> rfl

/-- An offset moves the date by a day at most. -/
lemma dayShift_bounds (t : LocalTime) : -1 ≤ dayShift t.val ∧ dayShift t.val ≤ 1 := by
  have hhour := t.hour
  have hmin := t.min
  have hzone := t.zone
  simp only [badZone, Bool.or_eq_false_iff, decide_eq_false_iff_not] at hzone
  unfold dayShift utcHour utcMin
  split_ifs <;> omega

end Shift

section Preserved

/-- The conversion to UTC gives a valid date-time of the same instant, with the seconds as
they were, and the conversion back gives the original. -/
def Preserved (t : LocalTime) : Prop :=
  ∃ u : Moment, localToUtc t.val = some u.val ∧ u.instant = t.instant ∧ u.val.sec = t.val.sec ∧
    utcToLocal u.val t.val.tzPos t.val.tzHour t.val.tzMin = some t.val

/-- The local day and the day in UTC come before the last one of the local month, and the day
in UTC is not before its first. -/
structure InsideMonth (d : DateTime) : Prop where
  here : d.day < monthEnd d.year (d.mon + 1)
  utc : d.day + dayShift d < monthEnd d.year (d.mon + 1)
  first : 1 ≤ d.day + dayShift d

variable {t : LocalTime}

/-- A day inside a month needs no loop, and passes the tests. -/
lemma normalised_eq_self {year mon day : ℤ} (hfirst : 1 ≤ day) (hlast : day < monthEnd year mon) :
    normalised year mon day = ⟨year, mon, day⟩ := by
  rw [normalised, carryDays_eq_self hlast]
  exact borrowDays_eq_self hfirst

lemma badDate_eq_false {year mon day : ℤ} (hmon : 1 ≤ mon ∧ mon ≤ 12) (hfirst : 1 ≤ day)
    (hlast : day < monthEnd year mon) : badDate year mon day = false := by
  have hbounds := monthEnd_bounds year mon
  simp only [badDate, Bool.or_eq_false_iff, Bool.and_eq_false_imp, Bool.and_eq_true,
    decide_eq_true_eq, decide_eq_false_iff_not]
  unfold monthEnd at hlast
  split_ifs at hlast <;> omega

/-- The date of the same instant in UTC is the local one moved by the shift. -/
lemma number_eq {u : Moment} (hinstant : u.instant = t.instant) (hsec : u.val.sec = t.val.sec)
    (hhour : utcHour u.val = u.val.hour) (hmin : utcMin u.val = u.val.min) :
    u.date.number = t.date.number + dayShift t.val := by
  have huhour := u.hour
  have humin := u.min
  unfold LocalTime.instant LocalTime.timeOfDay LocalTime.belowHour at hinstant
  rw [hsec, hhour, hmin] at hinstant
  have hminutes : 1440 * u.date.number + 60 * u.val.hour + u.val.min =
      1440 * t.date.number + 60 * utcHour t.val + utcMin t.val := by
    have hcast : (1440 * u.date.number + 60 * u.val.hour + u.val.min : ℚ) =
        1440 * t.date.number + 60 * utcHour t.val + utcMin t.val := by linarith
    exact_mod_cast hcast
  unfold dayShift
  omega

/-- Inside a month the conversion is right. -/
lemma preserved_of_inside (hsec : 0 ≤ t.val.sec ∧ t.val.sec < 60) (h : InsideMonth t.val) :
    Preserved t := by
  have hmon : 1 ≤ t.val.mon + 1 ∧ t.val.mon + 1 ≤ 12 := ⟨t.isDate.month_pos, t.isDate.month_le⟩
  have hreal := (monthEnd_real t.val.year (t.val.mon + 1)).2
  obtain ⟨minutes, hminutes⟩ : ∃ minutes, minutes = (60 * utcHour t.val + utcMin t.val) % 1440 :=
    ⟨_, rfl⟩
  have htime : badTime (minutes / 60) (minutes % 60) t.val.sec = false := by
    simp only [badTime, Bool.or_eq_false_iff, decide_eq_false_iff_not]
    refine ⟨⟨by omega, by omega⟩, by linarith, by linarith⟩
  have hlocal : localToUtc t.val = some ⟨t.val.year, t.val.mon, t.val.day + dayShift t.val,
      minutes / 60, minutes % 60, t.val.sec, true, 0, 0⟩ := by
    rw [localToUtc_eq, normalised_eq_self h.first h.utc]
    simp [badDate_eq_false hmon h.first h.utc, ← hminutes, htime]
  obtain ⟨u, hu⟩ : ∃ u : Moment, u.val = ⟨t.val.year, t.val.mon, t.val.day + dayShift t.val,
      minutes / 60, minutes % 60, t.val.sec, true, 0, 0⟩ := by
    have hlast := h.utc
    exact ⟨⟨⟨⟨t.val.year, t.val.mon, t.val.day + dayShift t.val, minutes / 60, minutes % 60,
      t.val.sec, true, 0, 0⟩, ⟨hmon.1, hmon.2, h.first, by simp only; omega⟩,
      by simp only; omega, by simp only; omega, rfl⟩, hsec⟩, rfl⟩
  have hinstant : u.instant = t.instant := by
    have hnumber : u.date.number = t.date.number + dayShift t.val := by
      simp only [Date.number, dayNumber, LocalTime.date, hu]
      omega
    have htotal : 1440 * u.date.number + 60 * utcHour u.val + utcMin u.val =
        1440 * t.date.number + 60 * utcHour t.val + utcMin t.val := by
      have hutc : 60 * utcHour u.val + utcMin u.val = minutes := by
        simp only [utcHour, utcMin, hu]
        omega
      unfold dayShift at hnumber
      omega
    have hcast : (1440 * u.date.number + 60 * utcHour u.val + utcMin u.val : ℚ) =
        1440 * t.date.number + 60 * utcHour t.val + utcMin t.val := by exact_mod_cast htotal
    have husec : u.val.sec = t.val.sec := by rw [hu]
    unfold LocalTime.instant LocalTime.timeOfDay LocalTime.belowHour
    rw [husec]
    linarith
  refine ⟨u, by rw [hlocal, hu], hinstant, by rw [hu], ?_⟩
  have hback : t.val.day + dayShift t.val - dayShift t.val = t.val.day := by omega
  have hgood := badDate_eq_false hmon t.isDate.day_pos h.here
  have htimeBack : badTime t.val.hour t.val.min t.val.sec = false := by
    have hhour := t.hour
    have hmin := t.min
    simp only [badTime, Bool.or_eq_false_iff, decide_eq_false_iff_not]
    refine ⟨⟨by omega, by omega⟩, by linarith, by linarith⟩
  rw [utcToLocal_eq t u.val (by rw [hu, hminutes]) (by rw [hu, hminutes]) (by rw [hu]), hu]
  simp only [hback, normalised_eq_self t.isDate.day_pos h.here, hgood, htimeBack]
  simp

/-- From the last day of a month on the loop leads to a later month. -/
lemma normalised_late {year mon day : ℤ} (hmon : 1 ≤ mon ∧ mon ≤ 12)
    (h : monthEnd year mon ≤ day) :
    28 ≤ (normalised year mon day).day ∧ 12 * year + mon < (normalised year mon day).months := by
  have hlate := @carryDays_late ⟨year, mon, day⟩ hmon h
  unfold normalised
  rw [borrowDays_eq_self (by omega)]
  exact hlate

/-- What is known of a result in UTC and of the way back from it. -/
lemma conversion_fields {u : Moment} (hlocal : localToUtc t.val = some u.val)
    (hback : utcToLocal u.val t.val.tzPos t.val.tzHour t.val.tzMin = some t.val) :
    normalised t.val.year (t.val.mon + 1) (t.val.day + dayShift t.val) =
        ⟨u.val.year, u.val.mon + 1, u.val.day⟩ ∧
      normalised u.val.year (u.val.mon + 1) (u.val.day - dayShift t.val) =
        ⟨t.val.year, t.val.mon + 1, t.val.day⟩ ∧
      utcHour u.val = u.val.hour ∧ utcMin u.val = u.val.min := by
  rw [localToUtc_eq] at hlocal
  simp only at hlocal
  split_ifs at hlocal
  have hu := Option.some.inj hlocal
  have hutcHour : utcHour u.val = u.val.hour := by simp [← hu, utcHour]
  have hutcMin : utcMin u.val = u.val.min := by simp [← hu, utcMin]
  rw [utcToLocal_eq t u.val (by rw [← hu]) (by rw [← hu]) (by rw [← hu])] at hback
  simp only at hback
  split_ifs at hback
  have ht := Option.some.inj hback
  refine ⟨?_, ?_, hutcHour, hutcMin⟩
  · simp [← hu]
  · generalize normalised u.val.year (u.val.mon + 1) (u.val.day - dayShift t.val) = s at ht ⊢
    have hmon : s.mon = t.val.mon + 1 := by
      have := congrArg DateTime.mon ht
      simp only at this
      omega
    rw [← hmon, ← congrArg DateTime.year ht, ← congrArg DateTime.day ht]

section Inside

variable {u : Moment}
  (hforth : normalised t.val.year (t.val.mon + 1) (t.val.day + dayShift t.val) =
    ⟨u.val.year, u.val.mon + 1, u.val.day⟩)
  (hback : normalised u.val.year (u.val.mon + 1) (u.val.day - dayShift t.val) =
    ⟨t.val.year, t.val.mon + 1, t.val.day⟩)

include hforth hback in
/-- Before the first a day of at least 30 results, from which there is no way back to the 1st. -/
lemma first_of_conversion : 1 ≤ t.val.day + dayShift t.val := by
  have humon : 1 ≤ u.val.mon + 1 ∧ u.val.mon + 1 ≤ 12 := ⟨u.isDate.month_pos, u.isDate.month_le⟩
  have hend := monthEnd_bounds t.val.year (t.val.mon + 1)
  have huend := monthEnd_bounds u.val.year (u.val.mon + 1)
  have hshift := dayShift_bounds t
  have hpos := t.isDate.day_pos
  by_contra hbefore
  have hday : 30 ≤ u.val.day := by
    have hborrowed := @borrowDays_day ⟨t.val.year, t.val.mon + 1, t.val.day + dayShift t.val⟩
      (by simp only; omega)
    rw [normalised, carryDays_eq_self (by simp only; omega)] at hforth
    rw [hforth] at hborrowed
    exact hborrowed
  have hlate := (normalised_late humon
    (by omega : monthEnd u.val.year (u.val.mon + 1) ≤ u.val.day - dayShift t.val)).1
  rw [hback] at hlate
  simp only at hlate
  omega

include hforth in
/-- A later month is not the place of a day that is there in this one, and a late day of it not
that of the one behind the last. -/
lemma utc_of_conversion (hnumber : u.date.number = t.date.number + dayShift t.val)
    (hfirst : 1 ≤ t.val.day + dayShift t.val) :
    t.val.day + dayShift t.val < monthEnd t.val.year (t.val.mon + 1) := by
  have hmon : 1 ≤ t.val.mon + 1 ∧ t.val.mon + 1 ≤ 12 := ⟨t.isDate.month_pos, t.isDate.month_le⟩
  have hshift := dayShift_bounds t
  have hle := t.isDate.day_le
  by_contra hover
  have hlate := normalised_late hmon (not_lt.mp hover)
  rw [hforth] at hlate
  simp only [YearMonthDay.months] at hlate
  by_cases hinside : t.val.day + dayShift t.val ≤ daysInMonth (t.val.year + 1900) (t.val.mon + 1)
  · obtain ⟨hyear, hmonth⟩ := Date.month_eq_of_number hnumber hfirst hinside
    simp only [LocalTime.date] at hyear hmonth
    omega
  · have hone : dayShift t.val = 1 := by omega
    have hlast : t.date.day = daysInMonth t.date.year t.date.month := by
      simp only [LocalTime.date]
      omega
    have hday : u.val.day = 1 := Date.day_eq_one_of_number hlast (hone ▸ hnumber)
    omega

include hforth hback in
/-- The way back from a day inside the month goes over the same loop. -/
lemma here_of_conversion (hfirst : 1 ≤ t.val.day + dayShift t.val)
    (hutc : t.val.day + dayShift t.val < monthEnd t.val.year (t.val.mon + 1)) :
    t.val.day < monthEnd t.val.year (t.val.mon + 1) := by
  by_contra hover
  rw [normalised_eq_self hfirst hutc, YearMonthDay.mk.injEq] at hforth
  obtain ⟨hyear, hmonth, hday⟩ := hforth
  have hsame : u.val.day - dayShift t.val = t.val.day := by omega
  rw [← hyear, ← hmonth, hsame] at hback
  have hlate := (normalised_late ⟨t.isDate.month_pos, t.isDate.month_le⟩ (not_lt.mp hover)).2
  rw [hback] at hlate
  simp only [YearMonthDay.months] at hlate
  omega

end Inside

/-- A right conversion stays inside the month. -/
lemma inside_of_preserved (h : Preserved t) : InsideMonth t.val := by
  obtain ⟨u, hlocal, hinstant, hsec, hback⟩ := h
  obtain ⟨hforth, hback, hhour, hmin⟩ := conversion_fields hlocal hback
  have hnumber := number_eq hinstant hsec hhour hmin
  have hfirst := first_of_conversion hforth hback
  have hutc := utc_of_conversion hforth hnumber hfirst
  exact
    { here := here_of_conversion hforth hback hfirst hutc
      utc := hutc
      first := hfirst }

/-- The conversion keeps the instant and can be undone exactly if the seconds are valid and
no day is the last of its month or comes before the first. -/
theorem conversion_preserves_iff (t : LocalTime) :
    Preserved t ↔ (0 ≤ t.val.sec ∧ t.val.sec < 60) ∧ InsideMonth t.val := by
  constructor
  · intro h
    obtain ⟨u, -, -, hsec, -⟩ := id h
    exact ⟨hsec ▸ u.sec, inside_of_preserved h⟩
  · rintro ⟨hsec, hinside⟩
    exact preserved_of_inside hsec hinside

/-- Noon on New Year's Eve, one hour east, is eleven o'clock of the same day in UTC, and the
code gives the 28th of March. -/
theorem new_years_eve_is_moved :
    ∃ t : LocalTime, t.val = ⟨125, 11, 31, 12, 0, 0, true, 1, 0⟩ ∧
      localToUtc t.val = some ⟨126, 2, 28, 11, 0, 0, true, 0, 0⟩ ∧ ¬ Preserved t := by
  let t : LocalTime := ⟨⟨125, 11, 31, 12, 0, 0, true, 1, 0⟩,
    ⟨by decide, by decide, by decide, by decide⟩, by decide, by decide, by decide⟩
  have hdays : normalised 125 12 31 = ⟨126, 3, 28⟩ := by
    have hdecember : carryStep ⟨125, 12, 31⟩ = some ⟨126, 1, 31⟩ := by decide
    have hjanuary : carryStep ⟨126, 1, 31⟩ = some ⟨126, 2, 31⟩ := by decide
    have hfebruary : carryStep ⟨126, 2, 31⟩ = some ⟨126, 3, 28⟩ := by decide
    have hmarch : carryStep ⟨126, 3, 28⟩ = none := by decide
    rw [normalised, carryDays, hdecember]
    simp only
    rw [carryDays, hjanuary]
    simp only
    rw [carryDays, hfebruary]
    simp only
    rw [carryDays, hmarch]
    exact borrowDays_eq_self (by decide)
  have hresult : localToUtc t.val = some ⟨126, 2, 28, 11, 0, 0, true, 0, 0⟩ := by
    rw [localToUtc_eq]
    have hshift : dayShift t.val = 0 := by decide
    have hminutes : (60 * utcHour t.val + utcMin t.val) % 1440 = 660 := by decide
    rw [hshift, hminutes]
    simp only [t, Int.reduceAdd, add_zero, hdays]
    decide
  refine ⟨t, rfl, hresult, fun h => ?_⟩
  exact absurd (inside_of_preserved h).here (by decide)

end Preserved

end Axis2C.DateTimes
