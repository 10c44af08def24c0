import Mathlib.Data.Prod.Lex
import Mathlib.Algebra.Order.BigOperators.Group.Finset
import Mathlib.Order.Monotone.Basic
import Mathlib.Tactic

/-!
# The proleptic Gregorian calendar

Dates, ordered by year, month and day, and the number of a date in the count of all days.
The number tells dates apart and keeps their order.
-/
namespace Gregorian
open scoped BigOperators

def IsLeap (year : ℤ) : Prop := (4 ∣ year ∧ ¬ 100 ∣ year) ∨ 400 ∣ year

instance (year : ℤ) : Decidable (IsLeap year) :=
  inferInstanceAs (Decidable ((4 ∣ year ∧ ¬ 100 ∣ year) ∨ 400 ∣ year))

def daysInMonth (year month : ℤ) : ℤ :=
  if month = 2 then if IsLeap year then 29 else 28
  else if month = 4 ∨ month = 6 ∨ month = 9 ∨ month = 11 then 30
  else 31

/-- The date is there in the calendar. -/
structure IsDate (year month day : ℤ) : Prop where
  month_pos : 1 ≤ month
  month_le : month ≤ 12
  day_pos : 1 ≤ day
  day_le : day ≤ daysInMonth year month

/-- A date of the calendar. -/
structure Date where
  year : ℤ
  month : ℤ
  day : ℤ
  valid : IsDate year month day

section Counting

def daysBeforeYear (year : ℤ) : ℤ :=
  365 * (year - 1) + (year - 1) / 4 - (year - 1) / 100 + (year - 1) / 400

def daysBeforeMonth (year month : ℤ) : ℤ :=
  ∑ i ∈ Finset.range (month - 1).toNat, daysInMonth year (i + 1)

def dayNumber (year month day : ℤ) : ℤ :=
  daysBeforeYear year + daysBeforeMonth year month + day

lemma daysInMonth_bounds (year month : ℤ) :
    28 ≤ daysInMonth year month ∧ daysInMonth year month ≤ 31 := by
  unfold daysInMonth
  split_ifs <;> omega

lemma daysBeforeMonth_succ (year : ℤ) {month : ℤ} (h : 1 ≤ month) :
    daysBeforeMonth year (month + 1) = daysBeforeMonth year month + daysInMonth year month := by
  have hsucc : (month + 1 - 1).toNat = (month - 1).toNat + 1 := by omega
  have hcast : (((month - 1).toNat : ℕ) : ℤ) + 1 = month := by omega
  unfold daysBeforeMonth
  rw [hsucc, Finset.sum_range_succ, hcast]

lemma daysBeforeMonth_year (year : ℤ) :
    daysBeforeMonth year 13 = if IsLeap year then 366 else 365 := by
  have hthirteen : ((13 : ℤ) - 1).toNat = 12 := by decide
  unfold daysBeforeMonth
  rw [hthirteen]
  by_cases hleap : IsLeap year
  · simp [Finset.sum_range_succ, daysInMonth, hleap]
  · simp [Finset.sum_range_succ, daysInMonth, hleap]

lemma daysBeforeYear_succ (year : ℤ) :
    daysBeforeYear (year + 1) = daysBeforeYear year + daysBeforeMonth year 13 := by
  rw [daysBeforeMonth_year]
  unfold daysBeforeYear IsLeap
  split_ifs with hleap
  · omega
  · omega

/-- A later month begins after the end of an earlier one. -/
lemma daysBeforeMonth_lt (year : ℤ) {month month' : ℤ} (h : 1 ≤ month) (hlt : month < month') :
    daysBeforeMonth year month + daysInMonth year month ≤ daysBeforeMonth year month' := by
  induction month', Int.add_one_le_of_lt hlt using Int.leInduction with
  | base => rw [daysBeforeMonth_succ year h]
  | succ n hn ih =>
    have hpos := (daysInMonth_bounds year n).1
    rw [daysBeforeMonth_succ year (by omega)]
    have := ih (by omega)
    omega

/-- A later year begins after the end of an earlier one. -/
lemma daysBeforeYear_lt {year year' : ℤ} (hlt : year < year') :
    daysBeforeYear year + daysBeforeMonth year 13 ≤ daysBeforeYear year' := by
  induction year', Int.add_one_le_of_lt hlt using Int.leInduction with
  | base => rw [daysBeforeYear_succ]
  | succ n hn ih =>
    have hpos : 0 ≤ daysBeforeMonth n 13 := by
      rw [daysBeforeMonth_year]
      split_ifs <;> omega
    rw [daysBeforeYear_succ]
    have := ih (by omega)
    omega

lemma dayNumber_next_month (year : ℤ) {month : ℤ} (h : 1 ≤ month) :
    dayNumber year (month + 1) 1 = dayNumber year month (daysInMonth year month) + 1 := by
  unfold dayNumber
  rw [daysBeforeMonth_succ year h]
  omega

lemma dayNumber_next_year (year : ℤ) :
    dayNumber (year + 1) 1 1 = dayNumber year 12 (daysInMonth year 12) + 1 := by
  have hempty : daysBeforeMonth (year + 1) 1 = 0 := by simp [daysBeforeMonth]
  have hlast := daysBeforeMonth_succ year (by omega : (1 : ℤ) ≤ 12)
  unfold dayNumber
  rw [daysBeforeYear_succ, hempty]
  norm_num at hlast ⊢
  omega

end Counting

namespace Date

/-- Year, month and day, the year first. -/
def key (a : Date) : ℤ ×ₗ ℤ ×ₗ ℤ := toLex (a.year, toLex (a.month, a.day))

lemma key_injective : Function.Injective key := by
  rintro ⟨year, month, day, valid⟩ ⟨year', month', day', valid'⟩ h
  simp only [key, toLex_inj, Prod.mk.injEq] at h
  obtain ⟨rfl, rfl, rfl⟩ := h
  rfl

instance : LinearOrder Date := LinearOrder.lift' key key_injective

variable {a b : Date}

lemma lt_iff : a < b ↔
    a.year < b.year ∨ a.year = b.year ∧
      (a.month < b.month ∨ a.month = b.month ∧ a.day < b.day) := by
  change key a < key b ↔ _
  simp [key, Prod.Lex.toLex_lt_toLex]

def number (a : Date) : ℤ := dayNumber a.year a.month a.day

/-- A later date has a larger number. -/
theorem number_strictMono : StrictMono number := by
  intro a b h
  have ha := a.valid
  have hb := b.valid
  have hday := ha.day_le
  have hday' := hb.day_pos
  unfold number dayNumber
  rcases lt_iff.mp h with hyear | ⟨hyear, hmonth | ⟨hmonth, hless⟩⟩
  · have hyears := daysBeforeYear_lt hyear
    have hend := daysBeforeMonth_lt a.year ha.month_pos (Int.lt_add_one_of_le ha.month_le)
    have hstart : 0 ≤ daysBeforeMonth b.year b.month :=
      Finset.sum_nonneg fun i _ => by
        have := (daysInMonth_bounds b.year (i + 1)).1
        omega
    norm_num at hend
    omega
  · have hmonths := daysBeforeMonth_lt a.year ha.month_pos hmonth
    rw [← hyear]
    omega
  · rw [← hyear, ← hmonth]
    omega

lemma number_injective : Function.Injective number := number_strictMono.injective

lemma number_of_day (a : Date) {day : ℤ} (valid : IsDate a.year a.month day) :
    number ⟨a.year, a.month, day, valid⟩ = a.number + (day - a.day) := by
  simp only [number, dayNumber]
  omega

/-- After the last day of a month comes the first of one. -/
lemma exists_next_month (a : Date) (hlast : a.day = daysInMonth a.year a.month) :
    ∃ b : Date, b.number = a.number + 1 ∧ b.day = 1 := by
  have hvalid := a.valid
  have hone (year month : ℤ) : 1 ≤ daysInMonth year month := by
    have := (daysInMonth_bounds year month).1
    omega
  rw [number, hlast]
  by_cases hyear : a.month = 12
  · refine ⟨⟨a.year + 1, 1, 1, ⟨by omega, by omega, by omega, hone _ _⟩⟩, ?_, rfl⟩
    rw [hyear]
    exact dayNumber_next_year a.year
  · have hle := hvalid.month_le
    have hpos := hvalid.month_pos
    exact ⟨⟨a.year, a.month + 1, 1, ⟨by omega, by omega, by omega, hone _ _⟩⟩,
      dayNumber_next_month a.year hpos, rfl⟩

lemma month_eq_of_number {days : ℤ} (h : b.number = a.number + days) (hfirst : 1 ≤ a.day + days)
    (hlast : a.day + days ≤ daysInMonth a.year a.month) : b.year = a.year ∧ b.month = a.month := by
  have hvalid : IsDate a.year a.month (a.day + days) :=
    ⟨a.valid.month_pos, a.valid.month_le, hfirst, hlast⟩
  have hsame : b = ⟨a.year, a.month, a.day + days, hvalid⟩ := by
    apply number_injective
    rw [h, number_of_day a hvalid]
    omega
  rw [hsame]
  exact ⟨rfl, rfl⟩

/-- The day after the last one of a month is a first. -/
lemma day_eq_one_of_number (hlast : a.day = daysInMonth a.year a.month)
    (h : b.number = a.number + 1) : b.day = 1 := by
  obtain ⟨next, hnumber, hday⟩ := exists_next_month a hlast
  rw [number_injective (h.trans hnumber.symm), hday]

end Date

end Gregorian
