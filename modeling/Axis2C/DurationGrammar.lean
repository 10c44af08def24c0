import Axis2C.Duration
import Mathlib.Data.List.TakeWhile

/-!
# Which durations are read

The grammar of durations, and the looser one that the loop reads. In that a number of any
component may have a fraction, the "T" may be missing behind the days, and a component with
a designator that cannot follow ends the reading with success whatever is behind it.
-/
namespace Axis2C.Durations
open FirstOccurrence

section Numbers

/-- One or more digits. -/
structure Digits where
  text : Text
  ne : text ≠ []
  digit : ∀ c ∈ text, c.isDigit = true

def Digits.value (d : Digits) : ℕ := Nat.ofDigitChars 10 d.text 0

/-- A decimal number. -/
structure Number where
  whole : Digits
  fraction : Option Digits

namespace Number

variable (n : Number)

def text : Text :=
  n.whole.text ++
    match n.fraction with
    | none => []
    | some f => '.' :: f.text

def value : ℚ :=
  n.whole.value +
    match n.fraction with
    | none => 0
    | some f => f.value / 10 ^ f.text.length

/-- What can stand behind a number without being read with it. -/
def Ends (c : Char) : Prop := c.isDigit = false ∧ (n.fraction = none → c ≠ '.')

end Number

lemma addFraction_eq (num mult : ℚ) (cur : Text) :
    addFraction num mult cur = num + mult * (Nat.ofDigitChars 10 cur 0 / 10 ^ cur.length) := by
  induction cur generalizing num mult with
  | nil => simp [addFraction]
  | cons c cur ih =>
    have hcons : Nat.ofDigitChars 10 (c :: cur) 0 =
        10 ^ cur.length * Nat.ofDigitChars 10 [c] 0 + Nat.ofDigitChars 10 cur 0 := by
      rw [Nat.ofDigitChars_cons, Nat.ofDigitChars_eq_ofDigitChars_zero]
      simp [Nat.ofDigitChars_cons]
    rw [addFraction, ih, hcons, List.length_cons]
    push_cast
    field_simp
    ring

variable {n : Number} {c : Char}

lemma readNumber_text (h : n.Ends c) (rest : Text) :
    readNumber (n.text ++ c :: rest) = some (n.value, c :: rest) := by
  have hstop : ∀ d ∈ (c :: rest).head?, d.isDigit = false := by simp [h.1]
  have hne := n.whole.ne
  unfold readNumber Number.text Number.value
  cases hf : n.fraction with
  | none =>
    have hpoint := h.2 hf
    simp only [List.append_nil, takeWhile_upto n.whole.digit hstop,
      dropWhile_upto n.whole.digit hstop, hne, if_false, add_zero]
    split
    · rename_i hcons
      exact absurd (List.cons.inj hcons).1 hpoint
    · rfl
  | some f =>
    have hpoint : ∀ d ∈ ('.' :: (f.text ++ c :: rest)).head?, d.isDigit = false := by
      intro d hd
      obtain rfl := Option.some.inj hd
      decide
    rw [List.append_assoc, List.cons_append]
    simp only [takeWhile_upto n.whole.digit hpoint, dropWhile_upto n.whole.digit hpoint,
      takeWhile_upto f.digit hstop, dropWhile_upto f.digit hstop, hne, f.ne, if_false,
      addFraction_eq, one_mul]
    rfl

lemma readNumber_cases (cur : Text) :
    readNumber cur = none ∨ ∃ n : Number, ∃ rest, cur = n.text ++ rest ∧
      (∀ c ∈ rest.head?, n.Ends c) ∧ readNumber cur = some (n.value, rest) := by
  have hdigits (s : Text) : ∀ c ∈ s.takeWhile Char.isDigit, c.isDigit = true :=
    fun c hc => List.mem_takeWhile_imp hc
  have hstop (s : Text) : ∀ c ∈ (s.dropWhile Char.isDigit).head?, c.isDigit = false :=
    head_dropWhile_false s
  have hsplit (s : Text) : s = s.takeWhile Char.isDigit ++ s.dropWhile Char.isDigit :=
    List.takeWhile_append_dropWhile.symm
  unfold readNumber
  by_cases hne : cur.takeWhile Char.isDigit = []
  · simp [hne]
  · simp only [hne, if_false]
    split
    · rename_i rest hrest
      by_cases hf : rest.takeWhile Char.isDigit = []
      · simp [hf]
      · simp only [hf, if_false]
        refine Or.inr ⟨⟨⟨_, hne, hdigits cur⟩, some ⟨_, hf, hdigits rest⟩⟩,
          rest.dropWhile Char.isDigit, ?_, fun c hc => ⟨hstop rest c hc, by simp⟩, ?_⟩
        · simp only [Number.text, List.append_assoc, List.cons_append]
          rw [← hsplit rest, ← hrest, ← hsplit cur]
        · simp [Number.value, Digits.value, addFraction_eq]
    · rename_i hpoint
      refine Or.inr ⟨⟨⟨_, hne, hdigits cur⟩, none⟩, cur.dropWhile Char.isDigit, ?_, ?_, ?_⟩
      · simp only [Number.text, List.append_nil]
        exact hsplit cur
      · intro c hc
        refine ⟨hstop cur c hc, fun _ => ?_⟩
        rintro rfl
        obtain ⟨more, hmore⟩ := List.head?_eq_some_iff.mp hc
        exact hpoint more hmore
      · simp [Number.value, Digits.value]

lemma head_text (n : Number) (rest : Text) :
    ∃ c, (n.text ++ rest).head? = some c ∧ c.isDigit = true := by
  obtain ⟨c, more, hcons⟩ := List.exists_cons_of_ne_nil n.whole.ne
  refine ⟨c, ?_, n.whole.digit c (by simp [hcons])⟩
  simp [Number.text, hcons]

end Numbers

section Places

/-- The designator stands at a place in the same half as `seq` and not before it. -/
def Follows (seq place : ℕ) (c : Char) : Prop :=
  seq ≤ place ∧ (seq < 3 ↔ place < 3) ∧ desig[place]? = some c

lemma desig_injective {i j : ℕ} {c : Char} (hi : desig[i]? = some c) (hj : desig[j]? = some c)
    (hhalf : i < 3 ↔ j < 3) : i = j := by
  have hall : ∀ i < 6, ∀ j < 6, (i < 3 ↔ j < 3) → desig[i]? = desig[j]? → i = j := by decide
  have hlt {k : ℕ} (hk : desig[k]? = some c) : k < 6 := (List.getElem?_eq_some_iff.mp hk).1
  exact hall i (hlt hi) j (hlt hj) hhalf (hi.trans hj.symm)

lemma Follows.ends {seq place : ℕ} {c : Char} (h : Follows seq place c) (n : Number) :
    n.Ends c := by
  have hletters : ∀ c ∈ desig, c.isDigit = false ∧ c ≠ '.' := by simp [desig]
  obtain ⟨hdigit, hpoint⟩ := hletters c (List.mem_of_getElem? h.2.2)
  exact ⟨hdigit, fun _ => hpoint⟩

lemma seekDesig_eq_some_iff {c : Char} {seq : ℕ} (hseq : seq < 6) (place : ℕ) :
    seekDesig c seq = some place ↔ Follows seq place c := by
  induction seq using seekDesig.induct c with
  | case1 seq hlt hdesig =>
    rw [seekDesig, if_pos hlt, if_pos hdesig, Option.some.injEq]
    constructor
    · rintro rfl
      exact ⟨le_rfl, Iff.rfl, hdesig⟩
    · exact fun h => desig_injective hdesig h.2.2 h.2.1
  | case2 seq hlt hdesig hend =>
    rw [seekDesig, if_pos hlt, if_neg hdesig, if_pos hend]
    simp only [reduceCtorEq, false_iff]
    rintro ⟨hle, hhalf, hplace⟩
    have hplace' : place < 6 := (List.getElem?_eq_some_iff.mp hplace).1
    obtain rfl : place = seq := by omega
    exact hdesig hplace
  | case3 seq hlt hdesig hend ih =>
    rw [seekDesig, if_pos hlt, if_neg hdesig, if_neg hend, ih (by omega)]
    constructor
    · rintro ⟨hle, hhalf, hplace⟩
      exact ⟨by omega, by omega, hplace⟩
    · rintro ⟨hle, hhalf, hplace⟩
      have hne : place ≠ seq := by
        rintro rfl
        exact hdesig hplace
      exact ⟨by omega, by omega, hplace⟩
  | case4 seq hge => exact absurd hseq hge

end Places

section Loose

variable {cur : Text}

/-- Where the search for a designator starts, with a "T" in front or without. -/
inductive Mark : ℕ → Text → ℕ → Prop
  | none {seq : ℕ} (h : seq < 6) : Mark seq [] seq
  | time {seq : ℕ} (h : seq ≤ 3) : Mark seq ['T'] 3

/-- The texts that the loop reads from a place on. -/
inductive Loose : ℕ → Text → Prop
  | done {seq : ℕ} : Loose seq []
  | component {seq start place : ℕ} {mark : Text} {n : Number} {c : Char} {rest : Text}
      (hmark : Mark seq mark start) (hends : n.Ends c) (hplace : Follows start place c)
      (hrest : Loose (place + 1) rest) : Loose seq (mark ++ (n.text ++ c :: rest))
  | foreign {seq start : ℕ} {mark : Text} {n : Number} {c : Char} (hmark : Mark seq mark start)
      (hends : n.Ends c) (hplace : ∀ place, ¬ Follows start place c) (rest : Text) :
      Loose seq (mark ++ (n.text ++ c :: rest))

/-- A text of the looser grammar. -/
def LooseDuration (s : Text) : Prop :=
  ∃ negative : Bool, ∃ cur, cur ≠ [] ∧ s = (if negative then ['-'] else []) ++ 'P' :: cur ∧
    Loose 0 cur

variable {conv : IntConversion} {seq start place : ℕ} {duration : Duration} {mark rest : Text}
  {n : Number} {c : Char}

lemma Mark.start_lt (h : Mark seq mark start) : start < 6 := by
  cases h with
  | none h => exact h
  | time h => omega

lemma head_ne_time (n : Number) (rest : Text) : (n.text ++ rest).head? ≠ some 'T' := by
  obtain ⟨c, hhead, hc⟩ := head_text n rest
  rw [hhead]
  rintro heq
  obtain rfl := Option.some.inj heq
  exact absurd hc (by decide)

lemma Mark.round_eq (h : Mark seq mark start) (conv : IntConversion) (duration : Duration)
    (n : Number) (rest : Text) :
    round conv seq duration (mark ++ (n.text ++ rest)) =
      readComponent conv start duration (n.text ++ rest) := by
  cases h with
  | none h =>
    rw [List.nil_append, round, if_neg (by omega), if_neg (head_ne_time n rest)]
  | time h =>
    have hhead : (['T'] ++ (n.text ++ rest)).head? = some 'T' := rfl
    rw [round, if_neg (by omega), if_pos hhead, if_neg (by omega)]
    rfl

lemma round_cases (conv : IntConversion) (seq : ℕ) (duration : Duration) (cur : Text) :
    round conv seq duration cur = .failure ∨ ∃ mark start rest, Mark seq mark start ∧
      cur = mark ++ rest ∧
      round conv seq duration cur = readComponent conv start duration rest := by
  unfold round
  by_cases hseq : seq ≥ 6
  · exact Or.inl (if_pos hseq)
  · rw [if_neg hseq]
    by_cases hhead : cur.head? = some 'T'
    · obtain ⟨rest, rfl⟩ := List.head?_eq_some_iff.mp hhead
      rw [if_pos hhead]
      by_cases hlate : seq > 3
      · exact Or.inl (if_pos hlate)
      · exact Or.inr ⟨['T'], 3, rest, .time (by omega), rfl, if_neg hlate⟩
    · exact Or.inr ⟨[], seq, cur, .none (by omega), rfl, if_neg hhead⟩

lemma readComponent_text (hends : n.Ends c) :
    readComponent conv seq duration (n.text ++ c :: rest) =
      match seekDesig c seq with
      | none => .success
      | some place => .next (place + 1) (setField conv duration n.value place) rest := by
  cases hplace : seekDesig c seq with
  | none | some place => simp [readComponent, readNumber_text hends, hplace]

/-- A component fails, or it has a number and a designator. -/
lemma readComponent_cases (conv : IntConversion) (seq : ℕ) (duration : Duration) (cur : Text) :
    readComponent conv seq duration cur = .failure ∨
      ∃ n : Number, ∃ c rest, n.Ends c ∧ cur = n.text ++ c :: rest := by
  rcases readNumber_cases cur with hnone | ⟨n, rest, hcur, hends, hread⟩
  · exact Or.inl (by simp only [readComponent, hnone])
  · cases rest with
    | nil => exact Or.inl (by simp only [readComponent, hread])
    | cons c rest => exact Or.inr ⟨n, c, rest, hends c rfl, hcur⟩

lemma readComponents_next {seq' : ℕ} {duration' : Duration} {cur' : Text} (hne : cur ≠ [])
    (h : round conv seq duration cur = .next seq' duration' cur') :
    readComponents conv seq duration cur = readComponents conv seq' duration' cur' := by
  rw [readComponents, if_neg hne, h]

/-- The loop does not succeed with a text that is not of the grammar. -/
lemma loose_of_success (h : (readComponents conv seq duration cur).1 = true) : Loose seq cur := by
  induction seq, duration, cur using readComponents.induct conv with
  | case1 seq duration => exact .done
  | case2 seq duration cur hne hround =>
    rw [readComponents, if_neg hne, hround] at h
    cases h
  | case3 seq duration cur hne hround =>
    obtain hfailure | ⟨mark, start, rest, hmark, rfl, heq⟩ := round_cases conv seq duration cur
    · rw [hfailure] at hround
      cases hround
    · obtain hfailure | ⟨n, c, rest, hends, rfl⟩ := readComponent_cases conv start duration rest
      · rw [heq, hfailure] at hround
        cases hround
      · rw [heq, readComponent_text hends] at hround
        cases hseek : seekDesig c start with
        | some place =>
          rw [hseek] at hround
          cases hround
        | none =>
          refine .foreign hmark hends (fun place hplace => ?_) rest
          rw [(seekDesig_eq_some_iff hmark.start_lt place).mpr hplace] at hseek
          cases hseek
  | case4 seq duration cur hne seq' duration' cur' hround ih =>
    rw [readComponents_next hne hround] at h
    obtain hfailure | ⟨mark, start, rest, hmark, rfl, heq⟩ := round_cases conv seq duration cur
    · rw [hfailure] at hround
      cases hround
    · obtain hfailure | ⟨n, c, rest, hends, rfl⟩ := readComponent_cases conv start duration rest
      · rw [heq, hfailure] at hround
        cases hround
      · rw [heq, readComponent_text hends] at hround
        cases hseek : seekDesig c start with
        | none =>
          rw [hseek] at hround
          cases hround
        | some place =>
          rw [hseek] at hround
          obtain ⟨rfl, rfl, rfl⟩ := Round.next.inj hround
          exact .component hmark hends ((seekDesig_eq_some_iff hmark.start_lt place).mp hseek)
            (ih h)

lemma mark_ne_nil (mark : Text) (n : Number) (rest : Text) : mark ++ (n.text ++ rest) ≠ [] := by
  simp [Number.text, n.whole.ne]

/-- The loop succeeds with a text of the grammar. -/
lemma success_of_loose (h : Loose seq cur) (duration : Duration) :
    (readComponents conv seq duration cur).1 = true := by
  induction h generalizing duration with
  | done => rw [readComponents, if_pos rfl]
  | @component seq start place mark n c rest hmark hends hplace hrest ih =>
    have hround : round conv seq duration (mark ++ (n.text ++ c :: rest)) =
        .next (place + 1) (setField conv duration n.value place) rest := by
      rw [hmark.round_eq, readComponent_text hends,
        (seekDesig_eq_some_iff hmark.start_lt place).mpr hplace]
    rw [readComponents_next (mark_ne_nil mark n _) hround]
    exact ih _
  | @foreign seq start mark n c hmark hends hplace rest =>
    have hseek : seekDesig c start = none := by
      cases hseek : seekDesig c start with
      | none => rfl
      | some place =>
        exact absurd ((seekDesig_eq_some_iff hmark.start_lt place).mp hseek) (hplace place)
    have hround : round conv seq duration (mark ++ (n.text ++ c :: rest)) = .success := by
      rw [hmark.round_eq, readComponent_text hends, hseek]
    rw [readComponents, if_neg (mark_ne_nil mark n _), hround]

end Loose

section Written

def Digits.number (d : Digits) : Number := ⟨d, none⟩

def componentText (c : Char) : Option Number → Text
  | none => []
  | some n => n.text ++ [c]

/-- The components of a duration, at least one of them. -/
structure Written where
  negative : Bool
  years : Option Digits
  months : Option Digits
  days : Option Digits
  hours : Option Digits
  mins : Option Digits
  secs : Option Number
  component : ¬ (years = none ∧ months = none ∧ days = none ∧ hours = none ∧ mins = none ∧
    secs = none)

namespace Written

variable (x : Written)

def dateText : Text :=
  componentText 'Y' (x.years.map Digits.number) ++
    (componentText 'M' (x.months.map Digits.number) ++
      componentText 'D' (x.days.map Digits.number))

def timeText : Text :=
  componentText 'H' (x.hours.map Digits.number) ++
    (componentText 'M' (x.mins.map Digits.number) ++ componentText 'S' x.secs)

/-- The duration as the grammar has it: a "T" stands in front of the components of the time. -/
def text : Text :=
  (if x.negative then ['-'] else []) ++
    'P' :: (x.dateText ++ if x.timeText = [] then [] else 'T' :: x.timeText)

/-- The fields that the numbers stand for. -/
def value : Duration :=
  { isNegative := x.negative
    years := (x.years.map Digits.value).getD 0
    months := (x.months.map Digits.value).getD 0
    days := (x.days.map Digits.value).getD 0
    hours := (x.hours.map Digits.value).getD 0
    mins := (x.mins.map Digits.value).getD 0
    secs := (x.secs.map Number.value).getD 0 }

/-- The numbers of all components but the seconds fit an `int`. -/
def Small : Prop :=
  ∀ n ∈ [x.years, x.months, x.days, x.hours, x.mins], ∀ d ∈ n, d.value < 2 ^ 31

end Written

/-- The duration is read exactly if it is written as the grammar has it, and each field then
holds the number of its component. -/
structure Right (conv : IntConversion) (s : Text) : Prop where
  accepts : ∀ x : Written, x.text = s → deserializeDuration conv (some s) = (true, x.value)
  rejects : (∀ x : Written, x.text ≠ s) → deserializeDuration conv (some s) = (false, {})

variable (conv : IntConversion) {seq place : ℕ} (duration : Duration) {c : Char}

/-- A component sets its field, and one that is left out does not. -/
def setOptional (place : ℕ) : Option Number → Duration
  | none => duration
  | some n => setField conv duration n.value place

lemma readComponents_component (n : Option Number) (rest : Text) (hseq : seq < 6)
    (hfollows : Follows seq place c) :
    ∃ seq', (seq' = seq ∨ seq' = place + 1) ∧
      readComponents conv seq duration (componentText c n ++ rest) =
        readComponents conv seq' (setOptional conv duration place n) rest := by
  cases n with
  | none => exact ⟨seq, Or.inl rfl, rfl⟩
  | some n =>
    refine ⟨place + 1, Or.inr rfl, ?_⟩
    have hmark : Mark seq [] seq := .none hseq
    have hround : round conv seq duration (n.text ++ c :: rest) =
        .next (place + 1) (setField conv duration n.value place) rest := by
      rw [← List.nil_append (n.text ++ c :: rest), hmark.round_eq,
        readComponent_text (hfollows.ends n),
        (seekDesig_eq_some_iff hseq place).mpr hfollows]
    have htext : componentText c (some n) ++ rest = n.text ++ c :: rest := by
      simp [componentText]
    rw [htext]
    exact readComponents_next (mark_ne_nil [] n (c :: rest)) hround

lemma readComponents_half {first : ℕ} {c c' c'' : Char} (n n' n'' : Option Number) (rest : Text)
    (hfirst : first = 0 ∨ first = 3) (hc : desig[first]? = some c)
    (hc' : desig[first + 1]? = some c') (hc'' : desig[first + 2]? = some c'') :
    ∃ seq ≤ first + 3,
      readComponents conv first duration
          (componentText c n ++ (componentText c' n' ++ (componentText c'' n'' ++ rest))) =
        readComponents conv seq (setOptional conv (setOptional conv (setOptional conv duration
          first n) (first + 1) n') (first + 2) n'') rest := by
  obtain ⟨seq, hseq, heq⟩ := readComponents_component conv duration n
    (componentText c' n' ++ (componentText c'' n'' ++ rest)) (by omega : first < 6)
    ⟨le_rfl, Iff.rfl, hc⟩
  obtain ⟨seq', hseq', heq'⟩ := readComponents_component conv (setOptional conv duration first n) n'
    (componentText c'' n'' ++ rest) (by omega : seq < 6) ⟨by omega, by omega, hc'⟩
  obtain ⟨seq'', hseq'', heq''⟩ := readComponents_component conv
    (setOptional conv (setOptional conv duration first n) (first + 1) n') n'' rest
    (by omega : seq' < 6) ⟨by omega, by omega, hc''⟩
  exact ⟨seq'', by omega, heq.trans (heq'.trans heq'')⟩

lemma readComponents_time (hseq : seq ≤ 3) {n : Number} {rest : Text} :
    readComponents conv seq duration ('T' :: (n.text ++ rest)) =
      readComponents conv 3 duration (n.text ++ rest) := by
  have hround : round conv seq duration (['T'] ++ (n.text ++ rest)) =
      round conv 3 duration ([] ++ (n.text ++ rest)) := by
    rw [(Mark.time hseq).round_eq, (Mark.none (by omega : 3 < 6)).round_eq]
  have hne : n.text ++ rest ≠ [] := mark_ne_nil [] n rest
  simp only [List.singleton_append, List.nil_append] at hround
  rw [readComponents, if_neg (by simp), hround]
  conv_rhs => rw [readComponents, if_neg hne]

namespace Written

variable {x : Written}

def converted (conv : IntConversion) (x : Written) : Duration :=
  { isNegative := x.negative
    years := (x.years.map fun d => conv.toInt d.value).getD 0
    months := (x.months.map fun d => conv.toInt d.value).getD 0
    days := (x.days.map fun d => conv.toInt d.value).getD 0
    hours := (x.hours.map fun d => conv.toInt d.value).getD 0
    mins := (x.mins.map fun d => conv.toInt d.value).getD 0
    secs := (x.secs.map Number.value).getD 0 }

lemma setOptional_converted (conv : IntConversion) (x : Written) :
    setOptional conv (setOptional conv (setOptional conv (setOptional conv (setOptional conv
      (setOptional conv { isNegative := x.negative } 0 (x.years.map Digits.number))
      1 (x.months.map Digits.number)) 2 (x.days.map Digits.number))
      3 (x.hours.map Digits.number)) 4 (x.mins.map Digits.number)) 5 x.secs =
      x.converted conv := by
  have hwhole (d : Digits) : d.number.value = d.value := by
    simp [Digits.number, Number.value]
  have hyears (d : Duration) (n : Option Number) : setOptional conv d 0 n =
      { d with years := (n.map fun n => conv.toInt n.value).getD d.years } := by
    cases n <;> rfl
  have hmonths (d : Duration) (n : Option Number) : setOptional conv d 1 n =
      { d with months := (n.map fun n => conv.toInt n.value).getD d.months } := by
    cases n <;> rfl
  have hdays (d : Duration) (n : Option Number) : setOptional conv d 2 n =
      { d with days := (n.map fun n => conv.toInt n.value).getD d.days } := by
    cases n <;> rfl
  have hhours (d : Duration) (n : Option Number) : setOptional conv d 3 n =
      { d with hours := (n.map fun n => conv.toInt n.value).getD d.hours } := by
    cases n <;> rfl
  have hmins (d : Duration) (n : Option Number) : setOptional conv d 4 n =
      { d with mins := (n.map fun n => conv.toInt n.value).getD d.mins } := by
    cases n <;> rfl
  have hsecs (d : Duration) (n : Option Number) : setOptional conv d 5 n =
      { d with secs := (n.map Number.value).getD d.secs } := by
    cases n <;> rfl
  simp only [hyears, hmonths, hdays, hhours, hmins, hsecs, Option.map_map, Function.comp_def,
    hwhole]
  rfl

lemma componentText_eq_nil_iff {c : Char} {n : Option Number} :
    componentText c n = [] ↔ n = none := by
  cases n <;> simp [componentText]

/-- Components that are not all left out begin with a number. -/
lemma number_of_ne_nil {c c' c'' : Char} {n n' n'' : Option Number}
    (h : componentText c n ++ (componentText c' n' ++ componentText c'' n'') ≠ []) :
    ∃ m : Number, ∃ rest,
      componentText c n ++ (componentText c' n' ++ componentText c'' n'') = m.text ++ rest := by
  cases n with
  | some n => exact ⟨n, _, by simp only [componentText, List.append_assoc]; rfl⟩
  | none =>
    cases n' with
    | some n' =>
      exact ⟨n', _, by
        simp only [componentText, List.nil_append, List.append_assoc]
        rfl⟩
    | none =>
      cases n'' with
      | some n'' => exact ⟨n'', [c''], by simp [componentText]⟩
      | none => simp [componentText] at h

end Written

/-- The sign and the "P" in front of the components. -/
lemma deserialize_sign (negative : Bool) {cur : Text} (hne : cur ≠ []) :
    deserializeDuration conv (some ((if negative then ['-'] else []) ++ 'P' :: cur)) =
      readComponents conv 0 { isNegative := negative } cur := by
  cases negative with
  | true | false => simp [deserializeDuration, hne]

namespace Written

variable {x : Written}

/-- A written duration is read. -/
lemma deserialize_text (conv : IntConversion) (x : Written) :
    deserializeDuration conv (some x.text) = (true, x.converted conv) := by
  have hne : (x.dateText ++ if x.timeText = [] then [] else 'T' :: x.timeText) ≠ [] := by
    intro hnil
    obtain ⟨hdate, htime⟩ := List.append_eq_nil_iff.mp hnil
    have htime' : x.timeText = [] := by
      by_contra hsome
      rw [if_neg hsome] at htime
      cases htime
    simp only [dateText, timeText, List.append_eq_nil_iff, componentText_eq_nil_iff,
      Option.map_eq_none_iff] at hdate htime'
    exact x.component ⟨hdate.1, hdate.2.1, hdate.2.2, htime'⟩
  rw [text, deserialize_sign conv x.negative hne, ← setOptional_converted]
  unfold dateText
  rw [List.append_assoc, List.append_assoc]
  obtain ⟨seq, hseq, hdate⟩ := readComponents_half conv { isNegative := x.negative }
    (x.years.map Digits.number) (x.months.map Digits.number) (x.days.map Digits.number)
    (if x.timeText = [] then [] else 'T' :: x.timeText) (Or.inl rfl)
    (by decide : desig[0]? = some 'Y') (by decide : desig[0 + 1]? = some 'M')
    (by decide : desig[0 + 2]? = some 'D')
  rw [hdate]
  by_cases htime : x.timeText = []
  · rw [if_pos htime, readComponents, if_pos rfl]
    simp only [timeText, List.append_eq_nil_iff, componentText_eq_nil_iff,
      Option.map_eq_none_iff] at htime
    simp [htime, setOptional]
  · rw [if_neg htime]
    obtain ⟨m, rest, hm⟩ := number_of_ne_nil htime
    obtain ⟨seq', -, hhalf⟩ := readComponents_half conv
      (setOptional conv (setOptional conv (setOptional conv { isNegative := x.negative } 0
        (x.years.map Digits.number)) 1 (x.months.map Digits.number)) 2
        (x.days.map Digits.number))
      (x.hours.map Digits.number) (x.mins.map Digits.number) x.secs [] (Or.inr rfl)
      (by decide : desig[3]? = some 'H') (by decide : desig[3 + 1]? = some 'M')
      (by decide : desig[3 + 2]? = some 'S')
    rw [List.append_nil] at hhalf
    have htext : x.timeText = m.text ++ rest := hm
    rw [htext, readComponents_time conv _ hseq, ← htext, timeText, hhalf, readComponents,
      if_pos rfl]

/-- The converted fields are right if all numbers fit. -/
lemma converted_eq_iff : x.converted conv = x.value ↔ x.Small := by
  have hfits (v : ℕ) : conv.toInt v = v ↔ v < 2 ^ 31 := by
    constructor
    · intro heq
      have hrange := (conv.range v).2
      omega
    · intro hlt
      have hlt' : (v : ℚ) < 2 ^ 31 := by exact_mod_cast hlt
      rw [conv.exact v (by positivity) hlt']
      exact Int.floor_natCast v
  have hfield (n : Option Digits) : (n.map fun d => conv.toInt d.value).getD 0 =
      (n.map Digits.value).getD 0 ↔ ∀ d ∈ n, d.value < 2 ^ 31 := by
    cases n with
    | none => simp
    | some d => simpa using hfits d.value
  simp only [converted, value, Duration.mk.injEq, hfield, true_and, and_true, Small]
  simp

end Written

lemma readComponents_failure (seq : ℕ) (cur : Text)
    (h : (readComponents conv seq duration cur).1 = false) :
    readComponents conv seq duration cur = (false, {}) := by
  induction seq, duration, cur using readComponents.induct conv with
  | case1 seq duration =>
    rw [readComponents, if_pos rfl] at h
    cases h
  | case2 seq duration cur hne hround => rw [readComponents, if_neg hne, hround]
  | case3 seq duration cur hne hround =>
    rw [readComponents, if_neg hne, hround] at h
    cases h
  | case4 seq duration cur hne seq' duration' cur' hround ih =>
    rw [readComponents_next hne hround] at h ⊢
    exact ih h

/-- A text is read with a sign or without, or it is refused. -/
lemma deserialize_shape (conv : IntConversion) (s : Text) :
    deserializeDuration conv (some s) = (false, {}) ∨ ∃ negative : Bool, ∃ cur, cur ≠ [] ∧
      s = (if negative then ['-'] else []) ++ 'P' :: cur := by
  unfold deserializeDuration
  simp only
  split
  · rename_i cur hcur
    by_cases hne : cur = []
    · exact Or.inl (if_pos hne)
    · right
      by_cases hhead : s.head? = some '-'
      · obtain ⟨rest, rfl⟩ := List.head?_eq_some_iff.mp hhead
        exact ⟨true, cur, hne, by simpa using hcur⟩
      · exact ⟨false, cur, hne, by simpa [hhead] using hcur⟩
  · exact Or.inl rfl

/-- A text is read if it is of the looser grammar, and refused otherwise. -/
lemma deserialize_cases (conv : IntConversion) (s : Text) :
    (LooseDuration s ∧ (deserializeDuration conv (some s)).1 = true) ∨
      (¬ LooseDuration s ∧ deserializeDuration conv (some s) = (false, {})) := by
  have hloose (h : LooseDuration s) : (deserializeDuration conv (some s)).1 = true := by
    obtain ⟨negative, cur, hne, rfl, hloose⟩ := h
    rw [deserialize_sign conv negative hne]
    exact success_of_loose hloose _
  by_cases hs : LooseDuration s
  · exact Or.inl ⟨hs, hloose hs⟩
  · refine Or.inr ⟨hs, ?_⟩
    rcases deserialize_shape conv s with hrefused | ⟨negative, cur, hne, hcur⟩
    · exact hrefused
    · rw [hcur, deserialize_sign conv negative hne]
      apply readComponents_failure
      rw [← Bool.not_eq_true]
      exact fun hsuccess => hs ⟨negative, cur, hne, hcur, loose_of_success hsuccess⟩

/-- The characters of a written duration. -/
lemma mem_text {x : Written} {d : Char} (h : d ∈ x.text) :
    d.isDigit = true ∨ d ∈ ['-', 'P', 'T', '.', 'Y', 'M', 'D', 'H', 'S'] := by
  have hnumber {n : Number} (hd : d ∈ n.text) : d.isDigit = true ∨ d = '.' := by
    unfold Number.text at hd
    rcases List.mem_append.mp hd with hwhole | hfraction
    · exact Or.inl (n.whole.digit d hwhole)
    · split at hfraction
      · cases hfraction
      · rename_i f hf
        rcases List.mem_cons.mp hfraction with rfl | hmem
        · exact Or.inr rfl
        · exact Or.inl (f.digit d hmem)
  have hcomponent {c : Char} {n : Option Number} (hd : d ∈ componentText c n) :
      d.isDigit = true ∨ d = '.' ∨ d = c := by
    cases n with
    | none => cases hd
    | some n =>
      rcases List.mem_append.mp hd with hmem | hmem
      · exact (hnumber hmem).imp_right Or.inl
      · exact Or.inr (Or.inr (List.mem_singleton.mp hmem))
  have htime (hd : d ∈ x.timeText) :
      d.isDigit = true ∨ d ∈ ['-', 'P', 'T', '.', 'Y', 'M', 'D', 'H', 'S'] := by
    simp only [Written.timeText, List.mem_append] at hd
    rcases hd with hd | hd | hd
    all_goals rcases hcomponent hd with hdigit | rfl | rfl
    all_goals simp_all
  have hdate (hd : d ∈ x.dateText) :
      d.isDigit = true ∨ d ∈ ['-', 'P', 'T', '.', 'Y', 'M', 'D', 'H', 'S'] := by
    simp only [Written.dateText, List.mem_append] at hd
    rcases hd with hd | hd | hd
    all_goals rcases hcomponent hd with hdigit | rfl | rfl
    all_goals simp_all
  simp only [Written.text, List.mem_append, List.mem_cons] at h
  rcases h with hsign | rfl | hmem | hmem
  · split_ifs at hsign
    · exact Or.inr (by simp_all)
    · cases hsign
  · exact Or.inr (by decide)
  · exact hdate hmem
  · split_ifs at hmem
    · cases hmem
    · rcases List.mem_cons.mp hmem with rfl | hin
      · exact Or.inr (by decide)
      · exact htime hin

end Written

end Axis2C.Durations
