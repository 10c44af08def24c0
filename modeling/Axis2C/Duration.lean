import Axis2C.FirstOccurrence
import Mathlib.Data.Rat.Floor

/-!
# The durations of axutil

`axutil_duration_deserialize_duration`. A `double` is a rational number here, so that no
digit is lost. What a conversion to `int` gives for a number that is no `int` is left open.
-/
namespace Axis2C.Durations

abbrev Text := List Char

/-- `axutil_duration`. -/
structure Duration where
  isNegative : Bool := false
  years : ℤ := 0
  months : ℤ := 0
  days : ℤ := 0
  hours : ℤ := 0
  mins : ℤ := 0
  secs : ℚ := 0
  deriving DecidableEq, Repr

/-- The conversion `(int) num`. It cuts the fraction off where the number fits, and gives
some `int` in any case. -/
structure IntConversion where
  toInt : ℚ → ℤ
  exact : ∀ q, 0 ≤ q → q < 2 ^ 31 → toInt q = ⌊q⌋
  range : ∀ q, -2 ^ 31 ≤ toInt q ∧ toInt q < 2 ^ 31

/-- The conversion as processors do it that give the least `int` where the number does not
fit. -/
def truncating : IntConversion where
  toInt q := if 0 ≤ q ∧ q < 2 ^ 31 then ⌊q⌋ else -2 ^ 31
  exact q hpos hlt := if_pos ⟨hpos, hlt⟩
  range q := by
    split_ifs with h
    · have hpos : 0 ≤ ⌊q⌋ := Int.floor_nonneg.mpr h.1
      have hlt : ⌊q⌋ < 2 ^ 31 := Int.floor_lt.mpr (by exact_mod_cast h.2)
      omega
    · omega

instance : Inhabited IntConversion := ⟨truncating⟩

section Numbers

/-- The loop over the digits behind the point. -/
def addFraction (num mult : ℚ) : Text → ℚ
  | [] => num
  | c :: cur => addFraction (num + Nat.ofDigitChars 10 [c] 0 * (mult / 10)) (mult / 10) cur

/-- A number and what follows it, none if `num_type` is -1. -/
def readNumber (cur : Text) : Option (ℚ × Text) :=
  let digits := cur.takeWhile Char.isDigit
  let num : ℚ := Nat.ofDigitChars 10 digits 0
  if digits = [] then none
  else
    match cur.dropWhile Char.isDigit with
    | '.' :: cur =>
      let fraction := cur.takeWhile Char.isDigit
      if fraction = [] then none
      else some (addFraction num 1 fraction, cur.dropWhile Char.isDigit)
    | cur => some (num, cur)

lemma readNumber_length {cur rest : Text} {num : ℚ} (h : readNumber cur = some (num, rest)) :
    rest.length ≤ cur.length := by
  have hdrop (s : Text) : (s.dropWhile Char.isDigit).length ≤ s.length :=
    (List.dropWhile_suffix _).length_le
  unfold readNumber at h
  simp only at h
  split_ifs at h
  split at h
  · rename_i rest' hrest
    have hall := hdrop cur
    rw [hrest, List.length_cons] at hall
    split_ifs at h
    obtain ⟨-, rfl⟩ := Prod.mk.inj (Option.some.inj h)
    have hfraction := hdrop rest'
    omega
  · obtain ⟨-, rfl⟩ := Prod.mk.inj (Option.some.inj h)
    exact hdrop cur

end Numbers

section Components

def desig : Text := ['Y', 'M', 'D', 'H', 'M', 'S']

/-- The loop `while (seq < sizeof(desig))`: the place of the designator, none if the end of
the date or the time is reached without it. -/
def seekDesig (c : Char) (seq : ℕ) : Option ℕ :=
  if seq < 6 then
    if desig[seq]? = some c then some seq
    else if seq + 1 = 3 ∨ seq + 1 = 6 then none
    else seekDesig c (seq + 1)
  else none
termination_by 6 - seq

def setField (conv : IntConversion) (duration : Duration) (num : ℚ) : ℕ → Duration
  | 0 => { duration with years := conv.toInt num }
  | 1 => { duration with months := conv.toInt num }
  | 2 => { duration with days := conv.toInt num }
  | 3 => { duration with hours := conv.toInt num }
  | 4 => { duration with mins := conv.toInt num }
  | _ => { duration with secs := num }

/-- What a round of the loop leads to. -/
inductive Round
  | failure
  | success
  | next (seq : ℕ) (duration : Duration) (cur : Text)

/-- A number with its designator. -/
def readComponent (conv : IntConversion) (seq : ℕ) (duration : Duration) (cur : Text) : Round :=
  match readNumber cur with
  | none => .failure
  | some (_, []) => .failure
  | some (num, c :: cur) =>
    match seekDesig c seq with
    | none => .success
    | some place => .next (place + 1) (setField conv duration num place) cur

/-- One round of the loop `while (*cur)`. -/
def round (conv : IntConversion) (seq : ℕ) (duration : Duration) (cur : Text) : Round :=
  if seq ≥ 6 then .failure
  else if cur.head? = some 'T' then
    if seq > 3 then .failure else readComponent conv 3 duration cur.tail
  else readComponent conv seq duration cur

section Shorter

variable {conv : IntConversion} {seq seq' : ℕ} {duration duration' : Duration} {cur cur' : Text}

lemma readComponent_length (h : readComponent conv seq duration cur = .next seq' duration' cur') :
    cur'.length < cur.length := by
  unfold readComponent at h
  split at h
  · cases h
  · cases h
  · rename_i hread
    have hle := readNumber_length hread
    split at h
    · cases h
    · obtain ⟨-, -, rfl⟩ := Round.next.inj h
      rw [List.length_cons] at hle
      omega

lemma round_length (h : round conv seq duration cur = .next seq' duration' cur') :
    cur'.length < cur.length := by
  unfold round at h
  split_ifs at h
  · have hless := readComponent_length h
    rw [List.length_tail] at hless
    omega
  · exact readComponent_length h

end Shorter

/-- The loop. A failure sets all fields to 0 again. -/
def readComponents (conv : IntConversion) (seq : ℕ) (duration : Duration) (cur : Text) :
    Bool × Duration :=
  if cur = [] then (true, duration)
  else
    match _h : round conv seq duration cur with
    | .failure => (false, {})
    | .success => (true, duration)
    | .next seq duration cur => readComponents conv seq duration cur
termination_by cur.length
decreasing_by exact round_length _h

/-- `axutil_duration_deserialize_duration`: the status and the duration. -/
def deserializeDuration (conv : IntConversion) (durationStr : Option Text) : Bool × Duration :=
  match durationStr with
  | none => (false, {})
  | some s =>
    let isNegative : Bool := s.head? = some '-'
    match if isNegative then s.tail else s with
    | 'P' :: cur =>
      if cur = [] then (false, {})
      else readComponents conv 0 { isNegative := isNegative } cur
    | _ => (false, {})

end Components

end Axis2C.Durations
