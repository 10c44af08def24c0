import Axis2C.OpenRecursion
import Mathlib.Data.Set.Finite.List
import Mathlib.Logic.Relation

/-!
# The calls of a recursion

With a call left unanswered, a function gives nothing if and only if it makes that call. The
calls that return are answered by what they return, and the others by a fallback. A call of a
recursion returns exactly when no call that it reaches is stuck or gives nothing, provided that
the calls which a function makes are smaller.
-/
namespace OpenRecursion
open Filter

variable {ι σ α β γ : Type*}

section Runs

open Classical in
/-- The answers but for one. -/
noncomputable def without (c : ι → σ → Option α) (q : ι × σ) : ι → σ → Option α :=
  fun i s => if (i, s) = q then none else c i s

/-- With these answers `f` makes the calls of a list and gives `r`. -/
structure Run (f : (ι → σ → Option α) → Option β) (c : ι → σ → Option α) (calls : List (ι × σ))
    (r : β) : Prop where
  agree : ∀ c', (∀ q ∈ calls, c' q.1 q.2 = c q.1 q.2) → f c' = some r
  needed : ∀ q ∈ calls, f (without c q) = none

variable {f : (ι → σ → Option α) → Option β} {c c' : ι → σ → Option α} {calls : List (ι × σ)}
  {r : β} {q : ι × σ}

lemma without_self : without c q q.1 q.2 = none := by simp [without]

lemma without_of_ne {i : ι} {s : σ} (hne : (i, s) ≠ q) : without c q i s = c i s := by
  simp [without, hne]

lemma without_of_none (hq : c q.1 q.2 = none) : without c q = c := by
  funext i s
  by_cases hne : (i, s) = q
  · subst hne
    rw [without_self, ← hq]
  · exact without_of_ne hne

lemma Run.result (h : Run f c calls r) : f c = some r := h.agree c fun _ _ => rfl

lemma Run.answered (h : Run f c calls r) (hq : q ∈ calls) : c q.1 q.2 ≠ none := by
  intro hnone
  have hneeded := h.needed q hq
  rw [without_of_none hnone, h.result] at hneeded
  simp at hneeded

lemma Run.mem (h : Run f c calls r) (hnone : f (without c q) = none) : q ∈ calls := by
  by_contra hq
  rw [h.agree _ fun p hp => without_of_ne (by rintro rfl; exact hq hp)] at hnone
  cases hnone

/-- More answers change nothing. -/
lemma Run.mono (h : Run f c calls r) (hle : ∀ i s x, c i s = some x → c' i s = some x) :
    f c' = some r := by
  refine h.agree c' fun q hq => ?_
  obtain ⟨x, hx⟩ := Option.ne_none_iff_exists'.mp (h.answered hq)
  rw [hx, hle q.1 q.2 x hx]

lemma none_or_of_bind {x : Option β} {g : β → Option γ} (h : x.bind g = none) :
    x = none ∨ ∃ b, x = some b ∧ g b = none := by
  cases x with
  | none => exact .inl rfl
  | some b => exact .inr ⟨b, rfl, h⟩

lemma Run.const : Run (fun _ => some r) c [] r := ⟨fun _ _ => rfl, fun _ hq => by simp at hq⟩

lemma Run.call {i : ι} {s : σ} {x : α} (hx : c i s = some x) :
    Run (fun c => c i s) c [(i, s)] x := by
  refine ⟨fun c' hc' => ?_, fun q hq => ?_⟩
  · rw [hc' (i, s) (by simp), hx]
  · obtain rfl := List.mem_singleton.mp hq
    exact without_self

/-- One function behind the other. -/
lemma Run.bind {g : β → (ι → σ → Option α) → Option γ} {calls' : List (ι × σ)} {r' : γ}
    (h : Run f c calls r) (h' : Run (g r) c calls' r') :
    Run (fun c => (f c).bind fun x => g x c) c (calls ++ calls') r' := by
  refine ⟨fun c' hc' => ?_, fun q hq => ?_⟩
  · rw [h.agree c' fun q hq => hc' q (by simp [hq]), Option.bind_some]
    exact h'.agree c' fun q hq => hc' q (by simp [hq])
  · by_cases hfirst : q ∈ calls
    · rw [h.needed q hfirst, Option.bind_none]
    · have hsame : f (without c q) = some r :=
        h.agree _ fun p hp => without_of_ne (by rintro rfl; exact hfirst hp)
      rw [hsame, Option.bind_some]
      exact h'.needed q (by simpa [hfirst] using hq)

end Runs

section Reached

variable (body : (ι → σ → Option α) → ι → σ → Option α) (fallback : ι → σ → α)

open Classical in
/-- What a call returns, or else the fallback. -/
noncomputable def answer (i : ι) (s : σ) : α :=
  if h : ∃ r, Returns body (fun c => c i s) r then h.choose else fallback i s

noncomputable def answers (i : ι) (s : σ) : Option α := some (answer body fallback i s)

/-- The function of the first call gives a result, but not without the second. -/
def Makes (q q' : ι × σ) : Prop :=
  body (answers body fallback) q.1 q.2 ≠ none ∧
    body (without (answers body fallback) q') q.1 q.2 = none

/-- The calls that are made in the run of a call, the call itself included. -/
def Reached : ι × σ → ι × σ → Prop := Relation.ReflTransGen (Makes body fallback)

/-- A recursion whose functions go by the answers of smaller calls, as long as they are not
stuck. -/
structure Regular (Ok : ι → σ → α → Prop) (Stuck : ι → σ → Prop)
    (lt : ι × σ → ι × σ → Prop) : Prop where
  fallback : ∀ i s, Ok i s (fallback i s)
  stuck : ∀ fuel i s, Stuck i s → iterate body fuel i s = none
  run : ∀ c, (∀ i s r, c i s = some r → Ok i s r) → ∀ i s r, ¬ Stuck i s → body c i s = some r →
    Ok i s r ∧ ∃ calls, Run (fun c => body c i s) c calls r ∧ ∀ q ∈ calls, lt q (i, s)
  wf : WellFounded lt

variable {body fallback} {Ok : ι → σ → α → Prop} {Stuck : ι → σ → Prop}
  {lt : ι × σ → ι × σ → Prop} {i : ι} {s : σ} {r : α} {q q' : ι × σ}

variable (fallback) in
lemma answers_of_returns (h : Returns body (fun c => c i s) r) :
    answers body fallback i s = some r := by
  have hex : ∃ r, Returns body (fun c => c i s) r := ⟨r, h⟩
  rw [answers, answer, dif_pos hex]
  exact congrArg some (hex.choose_spec.unique h)

section Laws

variable (hreg : Regular body fallback Ok Stuck lt)

include hreg

lemma Regular.iterate_ok (fuel : ℕ) : ∀ i s r, iterate body fuel i s = some r → Ok i s r := by
  induction fuel with
  | zero =>
    intro i s r h
    cases h
  | succ fuel ih =>
    intro i s r h
    refine (hreg.run _ ih i s r (fun hstuck => ?_) h).1
    rw [hreg.stuck (fuel + 1) i s hstuck] at h
    cases h

lemma Regular.iterate_succ (fuel : ℕ) :
    ∀ i s r, iterate body fuel i s = some r → iterate body (fuel + 1) i s = some r := by
  induction fuel with
  | zero =>
    intro i s r h
    cases h
  | succ fuel ih =>
    intro i s r h
    have hstuck : ¬ Stuck i s := fun hstuck => by
      rw [hreg.stuck (fuel + 1) i s hstuck] at h
      cases h
    obtain ⟨-, calls, hrun, -⟩ := hreg.run _ (hreg.iterate_ok fuel) i s r hstuck h
    exact hrun.mono ih

/-- A result with some fuel is the result with more. -/
lemma Regular.returns {fuel : ℕ} (h : iterate body fuel i s = some r) :
    Returns body (fun c => c i s) r := by
  refine eventually_atTop.mpr ⟨fuel, fun fuel' hle => ?_⟩
  induction hle with
  | refl => exact h
  | step _ ih => exact hreg.iterate_succ _ i s r ih

lemma Regular.not_stuck (h : Returns body (fun c => c i s) r) : ¬ Stuck i s := by
  intro hstuck
  obtain ⟨fuel, hr⟩ := Filter.Eventually.exists h
  have hnone := hreg.stuck fuel i s hstuck
  simp [hnone] at hr

lemma Regular.answers_ok {i : ι} {s : σ} {r : α} (h : answers body fallback i s = some r) :
    Ok i s r := by
  by_cases hex : ∃ r, Returns body (fun c => c i s) r
  · obtain ⟨r', hr'⟩ := hex
    rw [answers_of_returns fallback hr', Option.some.injEq] at h
    subst h
    obtain ⟨fuel, hr⟩ := Filter.Eventually.exists hr'
    exact hreg.iterate_ok fuel i s r' hr
  · rw [answers, answer, dif_neg hex, Option.some.injEq] at h
    rw [← h]
    exact hreg.fallback i s

lemma Regular.answers_run (h : Returns body (fun c => c i s) r) :
    ∃ calls, Run (fun c => body c i s) (answers body fallback) calls r ∧
      ∀ q ∈ calls, lt q (i, s) := by
  have hstuck := hreg.not_stuck h
  obtain ⟨enough, hall⟩ := eventually_atTop.mp h
  have hr : body (iterate body enough) i s = some r := hall (enough + 1) (by omega)
  obtain ⟨-, calls, hrun, -⟩ := hreg.run _ (hreg.iterate_ok enough) i s r hstuck hr
  have hsome := hrun.mono fun i s x hx => answers_of_returns fallback (hreg.returns hx)
  obtain ⟨-, calls', hrun', hlt⟩ := hreg.run _ (fun _ _ _ => hreg.answers_ok) i s r hstuck hsome
  exact ⟨calls', hrun', hlt⟩

lemma Regular.returns_of_makes (h : Returns body (fun c => c q.1 q.2) r)
    (hmakes : Makes body fallback q q') : ∃ r', Returns body (fun c => c q'.1 q'.2) r' := by
  by_contra hno
  have hstuck := hreg.not_stuck h
  obtain ⟨enough, hall⟩ := eventually_atTop.mp h
  have hr : body (iterate body enough) q.1 q.2 = some r := hall (enough + 1) (by omega)
  obtain ⟨-, calls, hrun, -⟩ := hreg.run _ (hreg.iterate_ok enough) q.1 q.2 r hstuck hr
  -- the call that does not return is never answered
  have hle : ∀ i s x, iterate body enough i s = some x →
      without (answers body fallback) q' i s = some x := by
    intro i s x hx
    have hne : (i, s) ≠ q' := by
      rintro rfl
      exact hno ⟨x, hreg.returns hx⟩
    rw [without_of_ne hne]
    exact answers_of_returns fallback (hreg.returns hx)
  have hsome := hrun.mono hle
  rw [hmakes.2] at hsome
  cases hsome

lemma Regular.returns_of_reached (h : ∃ r, Returns body (fun c => c q.1 q.2) r)
    (hreached : Reached body fallback q q') : ∃ r', Returns body (fun c => c q'.1 q'.2) r' := by
  induction hreached with
  | refl => exact h
  | tail _ hmakes ih =>
    obtain ⟨r', hr'⟩ := ih
    exact hreg.returns_of_makes hr' hmakes

/-- What the functions keep when they go by the answers of smaller calls, every call that is
reached keeps. -/
lemma Regular.reached_keeps {Post : ι → σ → α → Prop}
    (h : ∃ r, Returns body (fun c => c q.1 q.2) r)
    (hbody : ∀ q', Reached body fallback q q' → ∀ c, (∀ i s r, c i s = some r →
      Post i s r ∧ answers body fallback i s = some r) →
      ∀ r, body c q'.1 q'.2 = some r → Post q'.1 q'.2 r) :
    ∀ q', Reached body fallback q q' → ∀ r, Returns body (fun c => c q'.1 q'.2) r →
      Post q'.1 q'.2 r := by
  intro q'
  induction q' using hreg.wf.induction with
  | h q' ih =>
    intro hreached r hr
    obtain ⟨calls, hrun, hlt⟩ := hreg.answers_run hr
    classical
    -- only the calls of the run are answered
    let c : ι → σ → Option α := fun i s =>
      if (i, s) ∈ calls then answers body fallback i s else none
    refine hbody q' hreached c (fun i s x hx => ?_) r (hrun.agree c fun p hp => if_pos hp)
    have hmem : (i, s) ∈ calls := by
      by_contra hno
      exact absurd ((if_neg hno).symm.trans hx) (by simp)
    have hanswer : answers body fallback i s = some x := (if_pos hmem).symm.trans hx
    have hcall : Reached body fallback q (i, s) := by
      refine hreached.tail ⟨?_, hrun.needed _ hmem⟩
      simp [hrun.result]
    obtain ⟨x', hx'⟩ := hreg.returns_of_reached h hcall
    obtain rfl : x' = x := Option.some.inj ((answers_of_returns fallback hx').symm.trans hanswer)
    exact ⟨ih (i, s) (hlt _ hmem) hcall x' hx', hanswer⟩

/-- A call returns exactly when no call that it reaches is stuck or gives nothing when all its
calls are answered. -/
theorem Regular.returns_iff_run :
    (∃ r, Returns body (fun c => c q.1 q.2) r) ↔ ∀ q', Reached body fallback q q' →
      ¬ Stuck q'.1 q'.2 ∧ body (answers body fallback) q'.1 q'.2 ≠ none := by
  constructor
  · intro h q' hreached
    obtain ⟨r', hr'⟩ := hreg.returns_of_reached h hreached
    obtain ⟨calls, hrun, -⟩ := hreg.answers_run hr'
    exact ⟨hreg.not_stuck hr', by simp [hrun.result]⟩
  · intro h
    induction q using hreg.wf.induction with
    | h q ih =>
      obtain ⟨hstuck, hne⟩ := h q .refl
      obtain ⟨r, hr⟩ := Option.ne_none_iff_exists'.mp hne
      obtain ⟨-, calls, hrun, hlt⟩ :=
        hreg.run _ (fun _ _ _ => hreg.answers_ok) q.1 q.2 r hstuck hr
      have hcalls : ∀ p ∈ calls, ∀ᶠ fuel in atTop,
          iterate body fuel p.1 p.2 = answers body fallback p.1 p.2 := by
        intro p hp
        obtain ⟨x, hx⟩ := ih p (hlt p hp) fun q' hreached =>
          h q' (Relation.ReflTransGen.head ⟨hne, hrun.needed p hp⟩ hreached)
        rw [answers_of_returns fallback hx]
        exact hx
      refine ⟨r, Returns.call ?_⟩
      have hall := (eventually_all_finite (List.finite_toSet calls)).mpr hcalls
      exact hall.mono fun fuel hfuel => hrun.agree _ hfuel

end Laws

end Reached

end OpenRecursion
