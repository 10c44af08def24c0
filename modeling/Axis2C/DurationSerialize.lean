import Axis2C.DateTimeDates
import Axis2C.DurationGrammar

/-!
# Durations as text

`axutil_duration_serialize_duration` and `axutil_duration_compare`. Six digits of the seconds
are printed behind the point, and the buffer of 64 characters is not checked.
-/
namespace Axis2C.Durations
open DateTimes (printInt digits_replicate)

/-- The rounding of `%f`: to a nearest integer. -/
structure Rounding where
  round : ℚ → ℤ
  near : ∀ q, |round q - q| ≤ 1 / 2

variable (r : Rounding) (d : Duration)

/-- The seconds in millionths. -/
def micros : ℕ := (r.round (d.secs * 10 ^ 6)).natAbs

/-- None where the text and its NUL do not fit the buffer. -/
def serializeDuration : Option Text :=
  let secs := (if d.secs < 0 then ['-'] else []) ++
    (printInt 0 (micros r d / 10 ^ 6 : ℕ) ++ '.' :: printInt 6 (micros r d % 10 ^ 6 : ℕ))
  let text := (if d.isNegative then ['-'] else []) ++ 'P' :: (printInt 0 d.years ++
    'Y' :: (printInt 0 d.months ++ 'M' :: (printInt 0 d.days ++ 'D' :: 'T' ::
    (printInt 0 d.hours ++ 'H' :: (printInt 0 d.mins ++ 'M' :: (secs ++ ['S']))))))
  if text.length < 64 then some text else none

def durationCompare (one two : Duration) : Bool :=
  if one.isNegative ≠ two.isNegative then false
  else if one.years ≠ two.years then false
  else if one.months ≠ two.months then false
  else if one.days ≠ two.days then false
  else if one.hours ≠ two.hours then false
  else if one.mins ≠ two.mins then false
  else if one.secs ≠ two.secs then false
  else true

/-- No field is negative, as the setters have it. -/
def Duration.Proper : Prop :=
  (∀ n ∈ [d.years, d.months, d.days, d.hours, d.mins], 0 ≤ n ∧ n < 2 ^ 31) ∧ 0 ≤ d.secs

def printed : Duration := { d with secs := micros r d / 10 ^ 6 }

/-- A number with zeros in front of it. -/
def padded (width n : ℕ) : Digits where
  text := List.replicate (width - (Nat.toDigits 10 n).length) '0' ++ Nat.toDigits 10 n
  ne := (digits_replicate _ n).2.2
  digit := (digits_replicate _ n).1

lemma padded_value (width n : ℕ) : (padded width n).value = n := (digits_replicate _ n).2.1

lemma printInt_padded (width n : ℕ) : printInt width n = (padded width n).text := by
  have hsign : ¬ (n : ℤ) < 0 := by omega
  simp only [printInt, hsign, if_false, List.length_nil, Nat.sub_zero, List.nil_append,
    Int.natAbs_natCast, padded]

lemma padded_length {n : ℕ} (h : n < 10 ^ 6) : (padded 6 n).text.length = 6 := by
  have hlength : (Nat.toDigits 10 n).length ≤ 6 :=
    (Nat.length_toDigits_le_iff (by decide) (by decide)).mpr h
  simp [padded]
  omega

def written : Written where
  negative := d.isNegative
  years := some (padded 0 d.years.toNat)
  months := some (padded 0 d.months.toNat)
  days := some (padded 0 d.days.toNat)
  hours := some (padded 0 d.hours.toNat)
  mins := some (padded 0 d.mins.toNat)
  secs := some ⟨padded 0 (micros r d / 10 ^ 6), some (padded 6 (micros r d % 10 ^ 6))⟩
  component := fun h => nomatch h.1

variable {r d}

lemma Duration.Proper.fields (h : d.Proper) : (0 ≤ d.years ∧ d.years < 2 ^ 31) ∧
    (0 ≤ d.months ∧ d.months < 2 ^ 31) ∧ (0 ≤ d.days ∧ d.days < 2 ^ 31) ∧
    (0 ≤ d.hours ∧ d.hours < 2 ^ 31) ∧ 0 ≤ d.mins ∧ d.mins < 2 ^ 31 := by
  simpa using h.1

lemma Duration.Proper.written_text (h : d.Proper) {s : Text}
    (hs : serializeDuration r d = some s) : (written r d).text = s := by
  have hint (n : ℤ) (hn : 0 ≤ n) : printInt 0 n = (padded 0 n.toNat).text := by
    rw [← printInt_padded, Int.toNat_of_nonneg hn]
  obtain ⟨hyears, hmonths, hdays, hhours, hmins⟩ := h.fields
  unfold serializeDuration at hs
  simp only [Option.ite_none_right_eq_some, hint, hyears.1, hmonths.1, hdays.1, hhours.1,
    hmins.1, printInt_padded, not_lt.mpr h.2, if_false] at hs
  rw [← Option.some.inj hs.2]
  simp [Written.text, Written.dateText, Written.timeText, componentText, Digits.number,
    Number.text, written]
  rfl

lemma Duration.Proper.written_value (h : d.Proper) : (written r d).value = printed r d := by
  have hlength := padded_length (Nat.mod_lt (micros r d) (by decide : 0 < 10 ^ 6))
  have hsplit : ((micros r d / 10 ^ 6 : ℕ) : ℚ) + (micros r d % 10 ^ 6 : ℕ) / 10 ^ 6 =
      micros r d / 10 ^ 6 := by
    have hdiv : ((10 ^ 6 * (micros r d / 10 ^ 6) + micros r d % 10 ^ 6 : ℕ) : ℚ) = micros r d := by
      rw [Nat.div_add_mod]
    rw [← hdiv]
    push_cast
    ring
  obtain ⟨hyears, hmonths, hdays, hhours, hmins⟩ := h.fields
  simp only [Written.value, written, Option.map_some, Option.getD_some, Number.value, padded_value,
    printed, Int.toNat_of_nonneg, *]

/-- The rounding that goes up from the middle. -/
def halfUp : Rounding where
  round q := ⌊q + 1 / 2⌋
  near q := by
    have hle := Int.floor_le (q + 1 / 2)
    have hlt := Int.lt_floor_add_one (q + 1 / 2)
    exact abs_le.mpr ⟨by linarith, by linarith⟩

end Axis2C.Durations
