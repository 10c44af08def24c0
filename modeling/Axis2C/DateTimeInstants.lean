import Axis2C.DateTime

/-!
# Instants and their comparison

A valid date-time denotes an instant: the local fields less the offset. The comparison
goes by year, month and day of the local dates, then by the hours less the offset hours,
then by the minutes less the offset minutes. That is a linear order, and the order of the
instants only where no later part outweighs the first one that differs.
-/
namespace Axis2C.DateTimes
open Gregorian (Date IsDate)

/-- A valid date-time, with any seconds, and an offset that `setTimeZone` accepts. -/
structure LocalTime where
  val : DateTime
  isDate : IsDate (val.year + 1900) (val.mon + 1) val.day
  hour : 0 ≤ val.hour ∧ val.hour ≤ 23
  min : 0 ≤ val.min ∧ val.min ≤ 59
  zone : badZone val.tzHour val.tzMin = false

/-- A valid date-time with valid seconds. -/
structure Moment extends LocalTime where
  sec : 0 ≤ val.sec ∧ val.sec < 60

namespace LocalTime

variable (t : LocalTime)

def date : Date := ⟨t.val.year + 1900, t.val.mon + 1, t.val.day, t.isDate⟩

/-- The minutes and seconds less those of the offset, in seconds. -/
def belowHour : ℚ := 60 * utcMin t.val + t.val.sec

def timeOfDay : ℚ := 3600 * utcHour t.val + t.belowHour

def instant : ℚ := 86400 * t.date.number + t.timeOfDay

end LocalTime

section Ordered

variable {α β : Type*} [LinearOrder α] [LinearOrder β]

lemma compareBy_eq_iff (a b : α) (further : CompResult) :
    (compareBy a b further = .notExpired ↔ a < b ∨ a = b ∧ further = .notExpired) ∧
      (compareBy a b further = .expired ↔ b < a ∨ a = b ∧ further = .expired) ∧
      (compareBy a b further = .equal ↔ a = b ∧ further = .equal) := by
  unfold compareBy
  rcases lt_trichotomy a b with h | h | h
  · simp [h, h.ne, h.not_gt]
  · simp [h]
  · simp [h, h.ne', h.not_gt]

lemma compareBy_toLex (a a' : α) (b b' : β) (further : CompResult) :
    compareBy a a' (compareBy b b' further) =
      compareBy (toLex (a, b)) (toLex (a', b')) further := by
  unfold compareBy
  simp only [Prod.Lex.toLex_lt_toLex]
  rcases lt_trichotomy a a' with h | h | h
  · simp [h]
  · simp [h]
  · simp [h, h.ne', h.not_gt]

end Ordered

namespace Moment

variable (a b : Moment)

/-- What the comparison looks at, the first part first. -/
def key : Date ×ₗ ℤ ×ₗ ℤ ×ₗ ℚ :=
  toLex (a.date, toLex (utcHour a.val, toLex (utcMin a.val, a.val.sec)))

lemma compare_eq : compare a.val b.val = compareBy a.key b.key .equal := by
  have hyear : compareBy a.val.year b.val.year = compareBy a.date.year b.date.year := by
    funext further
    simp [compareBy, LocalTime.date]
  have hmon : compareBy a.val.mon b.val.mon = compareBy a.date.month b.date.month := by
    funext further
    simp [compareBy, LocalTime.date]
  have hdate (further : CompResult) :
      compareBy a.date b.date further = compareBy a.date.key b.date.key further := rfl
  unfold compare key
  rw [hyear, hmon]
  simp only [← compareBy_toLex]
  rw [hdate, Date.key, Date.key]
  simp only [← compareBy_toLex]
  rfl

/-- The result is the order of the instants. -/
structure Agrees : Prop where
  notExpired : compare a.val b.val = .notExpired ↔ a.instant < b.instant
  equal : compare a.val b.val = .equal ↔ a.instant = b.instant
  expired : compare a.val b.val = .expired ↔ b.instant < a.instant

/-- Where the first date is the earlier one, its time of day, less the offset, does not make
up for that. Nor do its minutes where the dates are the same and its hour, less that of the
offset, is the smaller one. -/
structure NotOutweighed : Prop where
  day : a.date < b.date →
    a.timeOfDay - b.timeOfDay < 86400 * (b.date.number - a.date.number)
  hour : a.date = b.date → utcHour a.val < utcHour b.val →
    a.belowHour - b.belowHour < 3600 * (utcHour b.val - utcHour a.val)

variable {a b}

lemma key_lt_iff : a.key < b.key ↔ a.date < b.date ∨ a.date = b.date ∧
    (utcHour a.val < utcHour b.val ∨ utcHour a.val = utcHour b.val ∧
      (utcMin a.val < utcMin b.val ∨ utcMin a.val = utcMin b.val ∧ a.val.sec < b.val.sec)) := by
  simp [key, Prod.Lex.toLex_lt_toLex]

/-- Where the dates are the same and no minutes outweigh the hours, seconds do not outweigh
the minutes either. -/
lemma NotOutweighed.instant_lt (h : NotOutweighed a b) (hkey : a.key < b.key) :
    a.instant < b.instant := by
  unfold LocalTime.instant
  rcases key_lt_iff.mp hkey with hday | ⟨hday, hhour | ⟨hhour, hmin | ⟨hmin, hsec⟩⟩⟩
  · have hless := h.day hday
    linarith
  · have hless := h.hour hday hhour
    unfold LocalTime.timeOfDay
    rw [hday]
    linarith
  · have hcast : (utcMin a.val : ℚ) + 1 ≤ utcMin b.val := by exact_mod_cast hmin
    have ha := a.sec
    have hb := b.sec
    unfold LocalTime.timeOfDay LocalTime.belowHour
    rw [hday, hhour]
    linarith
  · unfold LocalTime.timeOfDay LocalTime.belowHour
    rw [hday, hhour, hmin]
    linarith

lemma notOutweighed_of_instant_lt (h : a.key < b.key → a.instant < b.instant) :
    NotOutweighed a b := by
  unfold LocalTime.instant at h
  constructor
  · intro hday
    have hless := h (key_lt_iff.mpr (Or.inl hday))
    linarith
  · intro hday hhour
    have hless := h (key_lt_iff.mpr (Or.inr ⟨hday, Or.inl hhour⟩))
    unfold LocalTime.timeOfDay at hless
    rw [hday] at hless
    linarith

lemma instant_eq (h : a.key = b.key) : a.instant = b.instant := by
  simp only [key, toLex_inj, Prod.mk.injEq] at h
  obtain ⟨hday, hhour, hmin, hsec⟩ := h
  simp only [LocalTime.instant, LocalTime.timeOfDay, LocalTime.belowHour, hday, hhour, hmin, hsec]

lemma compare_iff (a b : Moment) :
    (compare a.val b.val = .notExpired ↔ a.key < b.key) ∧
      (compare a.val b.val = .expired ↔ b.key < a.key) ∧
      (compare a.val b.val = .equal ↔ a.key = b.key) := by
  rw [compare_eq]
  simpa using compareBy_eq_iff a.key b.key .equal

lemma agrees_iff : Agrees a b ↔ NotOutweighed a b ∧ NotOutweighed b a := by
  obtain ⟨hless, hmore, hsame⟩ := compare_iff a b
  constructor
  · intro h
    constructor
    · exact notOutweighed_of_instant_lt fun hkey => h.notExpired.mp (hless.mpr hkey)
    · exact notOutweighed_of_instant_lt fun hkey => h.expired.mp (hmore.mpr hkey)
  · rintro ⟨hab, hba⟩
    rcases lt_trichotomy a.key b.key with hkey | hkey | hkey
    · have hlt := hab.instant_lt hkey
      exact ⟨by simp [hless, hkey, hlt], by simp [hsame, hkey.ne, hlt.ne],
        by simp [hmore, hkey.not_gt, hlt.le]⟩
    · have heq := instant_eq hkey
      exact ⟨by simp [hless, hkey, heq], by simp [hsame, hkey, heq], by simp [hmore, hkey, heq]⟩
    · have hlt := hba.instant_lt hkey
      exact ⟨by simp [hless, hkey.not_gt, hlt.le], by simp [hsame, hkey.ne', hlt.ne'],
        by simp [hmore, hkey, hlt]⟩

section

variable (hpos : a.val.tzPos = b.val.tzPos) (hhour : a.val.tzHour = b.val.tzHour)
  (hmin : a.val.tzMin = b.val.tzMin)

include hpos hhour hmin

end

/-- The comparison is the order of the instants exactly if no later part outweighs the first
one that differs. It is antisymmetric and transitive always. -/
theorem compare_agrees_iff (a b c : Moment) :
    (Agrees a b ↔ NotOutweighed a b ∧ NotOutweighed b a) ∧
      (compare a.val b.val = .notExpired ↔ compare b.val a.val = .expired) ∧
      (compare a.val b.val = .equal ↔ compare b.val a.val = .equal) ∧
      ∀ result, compare a.val b.val = result → compare b.val c.val = result →
        compare a.val c.val = result := by
  obtain ⟨hab, hab', hab''⟩ := compare_iff a b
  obtain ⟨hba, hba', hba''⟩ := compare_iff b a
  obtain ⟨hbc, hbc', hbc''⟩ := compare_iff b c
  obtain ⟨hac, hac', hac''⟩ := compare_iff a c
  refine ⟨agrees_iff, hab.trans hba'.symm, hab''.trans (eq_comm.trans hba''.symm), ?_⟩
  intro result
  cases result with
  | notExpired =>
    rw [hab, hbc, hac]
    exact lt_trans
  | equal =>
    rw [hab'', hbc'', hac'']
    exact Eq.trans
  | expired =>
    rw [hab', hbc', hac']
    exact fun h h' => h'.trans h

/-- Half past eleven in the evening, two hours west, is later than the following midnight. -/
theorem later_instant_not_expired :
    ∃ a b : Moment, a.val = ⟨124, 0, 1, 23, 30, 0, false, 2, 0⟩ ∧
      b.val = ⟨124, 0, 2, 0, 0, 0, true, 0, 0⟩ ∧ compare a.val b.val = .notExpired ∧
      b.instant < a.instant ∧ ¬ Agrees a b := by
  let a : Moment := ⟨⟨⟨124, 0, 1, 23, 30, 0, false, 2, 0⟩,
    ⟨by decide, by decide, by decide, by decide⟩, by decide, by decide, by decide⟩, by simp⟩
  let b : Moment := ⟨⟨⟨124, 0, 2, 0, 0, 0, true, 0, 0⟩,
    ⟨by decide, by decide, by decide, by decide⟩, by decide, by decide, by decide⟩, by simp⟩
  have hcompare : compare a.val b.val = .notExpired := by decide
  have hday : b.date.number = a.date.number + 1 := by
    simp only [Date.number, Gregorian.dayNumber, LocalTime.date, a, b]
    omega
  have hlater : b.instant < a.instant := by
    unfold LocalTime.instant
    rw [hday]
    norm_num [LocalTime.timeOfDay, LocalTime.belowHour, utcHour, utcMin, a, b]
    linarith
  refine ⟨a, b, rfl, rfl, hcompare, hlater, fun h => ?_⟩
  exact absurd (h.notExpired.mp hcompare) hlater.not_gt

end Moment

end Axis2C.DateTimes
