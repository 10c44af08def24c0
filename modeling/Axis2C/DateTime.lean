import Axis2C.GregorianCalendar
import Axis2C.Uri

/-!
# Date and time of axutil

`axutil_date_time_t` and the functions that set, compare, print, read and convert it. The
seconds are a `float` in the source and a rational number here. Where a number does not
fit `int` and where a variable is read that `sscanf` did not set, the behaviour is
undefined and the result is `none`. An environment is given, and allocation succeeds.
-/
namespace Axis2C.DateTimes
open Uris (Text takeSign isSpace)

/-- `axutil_date_time`. The year is counted from 1900 and the month from 0. -/
structure DateTime where
  year : ℤ
  mon : ℤ
  day : ℤ
  hour : ℤ
  min : ℤ
  sec : ℚ
  tzPos : Bool
  tzHour : ℤ
  tzMin : ℤ
  deriving DecidableEq, Repr

def IsInt (n : ℤ) : Prop := -2 ^ 31 ≤ n ∧ n < 2 ^ 31

instance (n : ℤ) : Decidable (IsInt n) := inferInstanceAs (Decidable (_ ∧ _))

section Checks

/-- The tests for the 29th of February, on a real year here and on one counted from 1900
in the conversions. -/
def noLeapYear (year : ℤ) : Bool := year % 4 ≠ 0 || year % 400 = 0

/-- The tests on year, month and day that lead to a failure, the same in all functions. -/
def badDate (year mon day : ℤ) : Bool :=
  (mon < 1 || mon > 12) || (day < 1 || day > 31) ||
    (day = 31 && (mon = 2 || mon = 4 || mon = 6 || mon = 9 || mon = 11)) ||
    (day = 30 && mon = 2) || (day = 29 && mon = 2 && noLeapYear year)

def badTime (hour min : ℤ) (sec : ℚ) : Bool :=
  (hour < 0 || hour > 23) || (min < 0 || min > 59) || (sec < 0 || sec ≥ 60)

def badZone (hour min : ℤ) : Bool :=
  (hour < 0 || hour > 14) || (min < 0 || min > 59) || (hour = 14 && min ≠ 0)

end Checks

variable (dateTime : DateTime)

section Setters

/-- `axutil_date_time_set_time_zone`: the status and what becomes of the object. -/
def setTimeZone (isPositive : Bool) (hour min : ℤ) : Bool × DateTime :=
  if badZone hour min then (false, dateTime)
  else (true, { dateTime with tzPos := isPositive, tzHour := hour, tzMin := min })

/-- `axutil_date_time_set_date_time`. -/
def setDateTime (year mon day hour min sec msec : ℤ) : Option (Bool × DateTime) :=
  if badDate year mon day ∨ (hour < 0 ∨ hour > 23) ∨ (min < 0 ∨ min > 59) ∨
      (sec < 0 ∨ sec > 59) ∨ (msec < 0 ∨ msec > 999) then some (false, dateTime)
  else if ¬ IsInt (year - 1900) then none
  else
    some (true, { dateTime with
      year := year - 1900
      mon := mon - 1
      day := day
      hour := hour
      min := min
      sec := sec + msec / 1000 })

end Setters

section Texts

/-- A number under `%d`, or under `%0wd` with a width `w`. -/
def printInt (width : ℕ) (n : ℤ) : Text :=
  let sign := if n < 0 then ['-'] else []
  let digits := Nat.toDigits 10 n.natAbs
  sign ++ List.replicate (width - sign.length - digits.length) '0' ++ digits

/-- `axutil_date_time_serialize_date`. -/
def serializeDate : Option Text :=
  if ¬ IsInt (dateTime.year + 1900) ∨ ¬ IsInt (dateTime.mon + 1) then none
  else
    some (printInt 0 (dateTime.year + 1900) ++
      '-' :: (printInt 2 (dateTime.mon + 1) ++ '-' :: printInt 2 dateTime.day))

/-- What `sscanf` reads under `%d`, and the text behind it. -/
def scanInt (s : Text) : Option (ℤ × Text) :=
  let signed := takeSign (s.dropWhile isSpace)
  let digits := signed.2.takeWhile Char.isDigit
  let n : ℤ := Nat.ofDigitChars 10 digits 0
  let n := if signed.1 then -n else n
  if digits = [] ∨ ¬ IsInt n then none
  else some (n, signed.2.dropWhile Char.isDigit)

/-- A minus sign of the format. -/
def scanDash : Text → Option Text
  | '-' :: s => some s
  | _ => none

/-- `sscanf` with "%d-%d-%d". -/
def scanDate (s : Text) : Option (ℤ × ℤ × ℤ) := do
  let (year, s) ← scanInt s
  let (mon, s) ← scanInt (← scanDash s)
  let (day, _) ← scanInt (← scanDash s)
  return (year, mon, day)

/-- `axutil_date_time_deserialize_date`. -/
def deserializeDate (dateStr : Option Text) : Option (Bool × DateTime) :=
  match dateStr with
  | none => some (false, dateTime)
  | some s =>
    if s.head? = some '+' then some (false, dateTime)
    else
      match scanDate (if s.head? = some '-' then s.tail else s) with
      | none => none
      | some (year, mon, day) =>
        let year := if s.head? = some '-' then -year else year
        if ¬ IsInt year then none
        else if badDate year mon day then some (false, dateTime)
        else if ¬ IsInt (year - 1900) then none
        else some (true, { dateTime with year := year - 1900, mon := mon - 1, day := day })

end Texts

section Compare

inductive CompResult
  | expired
  | equal
  | notExpired
  deriving DecidableEq, Repr

/-- `dt_hour` and `ref_hour`: the hour less that of the offset. -/
def utcHour : ℤ := dateTime.hour + if dateTime.tzPos then -dateTime.tzHour else dateTime.tzHour

/-- `dt_min` and `ref_min`. -/
def utcMin : ℤ := dateTime.min + if dateTime.tzPos then -dateTime.tzMin else dateTime.tzMin

def compareBy {α : Type*} [LT α] [DecidableLT α] (a b : α) (further : CompResult) : CompResult :=
  if a < b then .notExpired else if b < a then .expired else further

/-- `axutil_date_time_compare`. -/
def compare (dateTime ref : DateTime) : CompResult :=
  compareBy dateTime.year ref.year <| compareBy dateTime.mon ref.mon <|
    compareBy dateTime.day ref.day <| compareBy (utcHour dateTime) (utcHour ref) <|
    compareBy (utcMin dateTime) (utcMin ref) <| compareBy dateTime.sec ref.sec .equal

end Compare

section Zones

/-- What a unit holds is carried over to the one above it. -/
def carry (unit high low : ℤ) : ℤ × ℤ :=
  if low > unit - 1 then (high + low / unit, low % unit) else (high, low)

def borrow (unit : ℕ) [NeZero unit] (high low : ℤ) : ℤ × ℤ :=
  if low < 0 then borrow unit (high - 1) (low + unit) else (high, low)
termination_by (-low).toNat
decreasing_by
  have hpos : 0 < unit := NeZero.pos unit
  omega

/-- Year, month and day while the day is normalised. The month is counted from 1. -/
structure YearMonthDay where
  year : ℤ
  mon : ℤ
  day : ℤ
  deriving DecidableEq, Repr

def YearMonthDay.nextMonth (s : YearMonthDay) (day : ℤ) : YearMonthDay :=
  if s.mon + 1 > 12 then ⟨s.year + 1, 1, day⟩ else ⟨s.year, s.mon + 1, day⟩

/-- One round of the loop `while (day > 27)`, none where the loop ends. -/
def carryStep (s : YearMonthDay) : Option YearMonthDay :=
  if ¬ s.day > 27 then none
  else if s.mon = 2 then
    if noLeapYear s.year then some (s.nextMonth 28)
    else if s.day > 28 then some (s.nextMonth 29)
    else none
  else if s.day > 29 then
    if s.mon = 4 ∨ s.mon = 6 ∨ s.mon = 9 ∨ s.mon = 11 then some (s.nextMonth 30)
    else if s.day > 30 then some (s.nextMonth 31)
    else none
  else none

/-- How often the loop can still go round: to February, and once more there. -/
def carryRounds (s : YearMonthDay) : ℕ :=
  if s.mon = 2 then 1
  else if s.day > 29 then
    (if s.mon ≤ 2 then 3 - s.mon else if s.mon ≤ 12 then 15 - s.mon else 3).toNat
  else 0

lemma carryRounds_lt {s t : YearMonthDay} (h : carryStep s = some t) :
    carryRounds t < carryRounds s := by
  unfold carryStep YearMonthDay.nextMonth at h
  unfold carryRounds
  split_ifs at h
  all_goals
    obtain rfl := Option.some.inj h
    simp only
    split_ifs <;> omega

def carryDays (s : YearMonthDay) : YearMonthDay :=
  match _h : carryStep s with
  | none => s
  | some t => carryDays t
termination_by carryRounds s
decreasing_by exact carryRounds_lt _h

/-- The loop `while (day < 1)`. It goes round at most once, as the day is set to the length
of the month before. For March it is set to 28 or 29 first and then to 31. -/
def borrowDays (s : YearMonthDay) : YearMonthDay :=
  if s.day < 1 then
    let day := if s.mon = 5 ∨ s.mon = 7 ∨ s.mon = 10 ∨ s.mon = 12 then 30 else 31
    if s.mon - 1 < 1 then ⟨s.year - 1, 12, day⟩ else ⟨s.year, s.mon - 1, day⟩
  else s

/-- `axutil_date_time_local_to_utc`. The time zone of the result is that of a new object. -/
def localToUtc : Option DateTime :=
  let (hour, min) := carry 60 (utcHour dateTime) (utcMin dateTime)
  let (hour, min) := borrow 60 hour min
  let (day, hour) := carry 24 dateTime.day hour
  let (day, hour) := borrow 24 day hour
  let s := borrowDays (carryDays ⟨dateTime.year, dateTime.mon + 1, day⟩)
  if badDate s.year s.mon s.day ∨ badTime hour min dateTime.sec then none
  else some ⟨s.year, s.mon - 1, s.day, hour, min, dateTime.sec, true, 0, 0⟩

/-- `axutil_date_time_utc_to_local`. -/
def utcToLocal (isPositive : Bool) (hour min : ℤ) : Option DateTime :=
  if dateTime.tzHour ≠ 0 ∧ dateTime.tzMin ≠ 0 then none
  else
    (localToUtc { dateTime with tzPos := !isPositive, tzHour := hour, tzMin := min }).map
      fun ret => { ret with tzPos := isPositive, tzHour := hour, tzMin := min }

end Zones

end Axis2C.DateTimes
