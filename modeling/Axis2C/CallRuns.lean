import Mathlib.Tactic

/-!
# Calls one after the other

A component takes one call after the other. What a single call keeps, in the states of an
invariant, just if it meets its condition, all calls of a run keep just if each of them meets
its condition in the state that it finds.
-/
namespace CallRuns

variable {σ κ : Type} {step : σ → κ → σ} {s : σ} {call : κ} {calls : List κ}
  {Inv : σ → Prop} {P Law Meets : σ → κ → Prop}

/-- The state after the calls. -/
def after (step : σ → κ → σ) (s : σ) (calls : List κ) : σ := calls.foldl step s

/-- Each of the calls has the property in the state that it finds. -/
def EachCall (step : σ → κ → σ) (s : σ) (calls : List κ) (P : σ → κ → Prop) : Prop :=
  ∀ before call, before ++ [call] <+: calls → P (after step s before) call

@[simp] lemma after_nil : after step s [] = s := rfl

@[simp] lemma after_cons : after step s (call :: calls) = after step (step s call) calls := rfl

lemma after_append (later : List κ) :
    after step s (calls ++ later) = after step (after step s calls) later :=
  List.foldl_append

/-- An invariant of the single call holds after any calls. -/
lemma after_keeps (hkeep : ∀ s call, Inv s → Inv (step s call)) (hs : Inv s) (calls : List κ) :
    Inv (after step s calls) := by
  induction calls generalizing s with
  | nil => exact hs
  | cons call calls ih => exact ih (hkeep s call hs)

lemma eachCall_nil : EachCall step s [] P := by
  intro before call hpre
  have hlength := hpre.length_le
  simp at hlength

lemma eachCall_cons :
    EachCall step s (call :: calls) P ↔ P s call ∧ EachCall step (step s call) calls P := by
  constructor
  · intro h
    refine ⟨h [] call ⟨calls, rfl⟩, fun before next hpre => ?_⟩
    exact h (call :: before) next (List.cons_prefix_cons.mpr ⟨rfl, hpre⟩)
  · rintro ⟨hcall, hrest⟩ before next hpre
    cases before with
    | nil =>
      obtain ⟨rfl, -⟩ := List.cons_prefix_cons.mp hpre
      exact hcall
    | cons first before =>
      obtain ⟨rfl, hpre'⟩ := List.cons_prefix_cons.mp hpre
      exact hrest before next hpre'

theorem eachCall_iff (hlaw : ∀ s call, Inv s → (Law s call ↔ Meets s call))
    (hkeep : ∀ s call, Inv s → Law s call → Inv (step s call)) (hs : Inv s) :
    EachCall step s calls Law ↔ EachCall step s calls Meets := by
  induction calls generalizing s with
  | nil => exact iff_of_true eachCall_nil eachCall_nil
  | cons call calls ih =>
    rw [eachCall_cons, eachCall_cons, hlaw s call hs]
    refine and_congr_right fun hmeets => ?_
    exact ih (hkeep s call hs ((hlaw s call hs).mpr hmeets))

end CallRuns
