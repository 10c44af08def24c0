import Axis2C.FirstOccurrence

/-!
# Replacing a character

`axutil_replace` looks for the character from the beginning again after every substitution;
`axutil_string_replace` goes over the text once.
-/
namespace Axis2C.StringReplace
open FirstOccurrence

/-- A character of a string, which the terminating NUL is not. -/
abbrev Character := {c : UInt8 // c ≠ 0}

abbrev Text := List Character

/-- `newstr[index - newstr] = s2`. -/
def put (newstr index : Text) (s2 : Character) : Text := upTo newstr index ++ s2 :: index.tail

/-- The loop of `axutil_replace`; `none` when the fuel is not enough. -/
def replaceLoop (s1 s2 : Character) : ℕ → Text → Option Text
  | 0, _ => none
  | fuel + 1, newstr =>
    match search [s1] newstr with
    | none => some newstr
    | some index => replaceLoop s1 s2 fuel (put newstr index s2)

/-- `axutil_replace`; the string may be NULL. -/
def axutilReplace (fuel : ℕ) (str : Option Text) (s1 s2 : Character) : Option (Option Text) :=
  match str with
  | none => some none
  | some str => (replaceLoop s1 s2 fuel str).map some

/-- `axutil_string_replace`, with what is left in place. -/
def axutilStringReplace (old new : Character) : Text → Text
  | [] => []
  | c :: str => (if c = old then new else c) :: axutilStringReplace old new str

variable {a b : Character} {str : Text}

/-- The copy has `b` where the string has `a`, and so has the string after the one pass. -/
def ReplacesRight (str : Text) (a b : Character) : Prop :=
  (∃ fuel, axutilReplace fuel (some str) a b =
    some (some (str.map fun c => if c = a then b else c))) ∧
  axutilStringReplace a b str = str.map fun c => if c = a then b else c

lemma axutilStringReplace_eq (a b : Character) (str : Text) :
    axutilStringReplace a b str = str.map fun c => if c = a then b else c := by
  induction str with
  | nil => rfl
  | cons c str ih => rw [axutilStringReplace, ih, List.map_cons]

/-- One substitution. -/
lemma replaceLoop_step (fuel : ℕ) {front rest : Text} (h : a ∉ front) :
    replaceLoop a b (fuel + 1) (front ++ a :: rest) = replaceLoop a b fuel (front ++ b :: rest) := by
  rw [replaceLoop, search_singleton rest h]
  simp [put]

lemma replaceLoop_done (fuel : ℕ) (h : a ∉ str) : replaceLoop a b (fuel + 1) str = some str := by
  rw [replaceLoop, search_singleton_none h]

lemma map_absent (b : Character) (h : a ∉ str) :
    (str.map fun c => if c = a then b else c) = str := by
  calc (str.map fun c => if c = a then b else c) = str.map id := by
        refine List.map_congr_left fun c hc => if_neg ?_
        rintro rfl
        exact h hc
    _ = str := List.map_id str

/-- Each substitution by another character leaves one place less. -/
lemma replaceLoop_eq (hne : a ≠ b) {fuel : ℕ} (hfuel : str.count a < fuel) :
    replaceLoop a b fuel str = some (str.map fun c => if c = a then b else c) := by
  induction fuel generalizing str with
  | zero => omega
  | succ fuel ih =>
    by_cases hmem : a ∈ str
    · obtain ⟨front, rest, rfl, hfront⟩ := List.eq_append_cons_of_mem hmem
      have hcount : (front ++ b :: rest).count a < fuel := by
        simp only [List.count_append, List.count_cons_self, List.count_cons_of_ne hne.symm]
          at hfuel ⊢
        omega
      rw [replaceLoop_step fuel hfront, ih hcount]
      simp [hne.symm]
    · rw [replaceLoop_done fuel hmem, map_absent b hmem]

/-- A substitution by the same character changes nothing. -/
lemma replaceLoop_self (h : a ∈ str) (fuel : ℕ) : replaceLoop a a fuel str = none := by
  obtain ⟨front, rest, rfl, hfront⟩ := List.eq_append_cons_of_mem h
  induction fuel with
  | zero => rfl
  | succ fuel ih => rw [replaceLoop_step fuel hfront, ih]

/-- **Character replacement.** The loop ends with the right copy exactly when the characters
differ or the first is not there. -/
theorem replacesRight_iff (str : Text) (a b : Character) :
    ReplacesRight str a b ↔ (a ≠ b ∨ a ∉ str) := by
  constructor
  · rintro ⟨⟨fuel, hloop⟩, -⟩
    by_contra hnot
    obtain ⟨rfl, hmem⟩ : a = b ∧ a ∈ str := by simpa using hnot
    simp [axutilReplace, replaceLoop_self hmem] at hloop
  · intro h
    refine ⟨?_, axutilStringReplace_eq a b str⟩
    rcases h with hne | hmem
    · exact ⟨str.count a + 1, by rw [axutilReplace, replaceLoop_eq hne (Nat.lt_succ_self _)]; rfl⟩
    · exact ⟨1, by rw [axutilReplace, replaceLoop_done 0 hmem, map_absent b hmem]; rfl⟩

/-- The letter `a` in the string `a` replaced by itself. -/
theorem same_character_never_ends :
    ¬ ReplacesRight [⟨97, by decide⟩] ⟨97, by decide⟩ ⟨97, by decide⟩ := by
  rintro ⟨⟨fuel, hloop⟩, -⟩
  rw [axutilReplace, replaceLoop_self (by simp)] at hloop
  cases hloop

end Axis2C.StringReplace
