import Mathlib.Order.Filter.AtTopBot.Basic
import Mathlib.Tactic

/-!
# Mutual recursion with fuel

Functions that call each other are written as one `body` over the calls they make. `iterate`
closes the recursion with as much fuel as is given, and `Returns` is what comes out with
enough of it.
-/
namespace OpenRecursion
open Filter

variable {ι σ α β γ δ : Type*}

def iterate (body : (ι → σ → Option α) → ι → σ → Option α) : ℕ → ι → σ → Option α
  | 0 => fun _ _ => none
  | fuel + 1 => body (iterate body fuel)

variable {body : (ι → σ → Option α) → ι → σ → Option α}

/-- With enough fuel, `f` gives `r`. -/
def Returns (body : (ι → σ → Option α) → ι → σ → Option α) (f : (ι → σ → Option α) → Option β)
    (r : β) : Prop :=
  ∀ᶠ fuel in atTop, f (iterate body fuel) = some r

lemma Returns.call {i : ι} {s : σ} {r : α} (h : Returns body (fun c => body c i s) r) :
    Returns body (fun c => c i s) r := by
  obtain ⟨enough, h⟩ := eventually_atTop.mp h
  refine eventually_atTop.mpr ⟨enough + 1, fun fuel hfuel => ?_⟩
  obtain ⟨fuel, rfl⟩ : ∃ k, fuel = k + 1 := ⟨fuel - 1, by omega⟩
  exact h fuel (by omega)

lemma Returns.of_forall {f : (ι → σ → Option α) → Option β} {r : β} (h : ∀ c, f c = some r) :
    Returns body f r :=
  Eventually.of_forall fun _ => h _

lemma Returns.of_eq {f : (ι → σ → Option α) → Option β} {g : (ι → σ → Option α) → Option γ}
    {r : β} {r' : γ} (h : Returns body f r) (hfg : ∀ c, f c = some r → g c = some r') :
    Returns body g r' :=
  h.mono fun _ hf => hfg _ hf

lemma Returns.of_eq₂ {f : (ι → σ → Option α) → Option β} {g : (ι → σ → Option α) → Option γ}
    {k : (ι → σ → Option α) → Option δ} {r : β} {r' : γ} {r'' : δ} (h : Returns body f r)
    (h' : Returns body g r') (hfg : ∀ c, f c = some r → g c = some r' → k c = some r'') :
    Returns body k r'' :=
  (h.and h').mono fun _ hf => hfg _ hf.1 hf.2

lemma Returns.unique {f : (ι → σ → Option α) → Option β} {r r' : β} (h : Returns body f r)
    (h' : Returns body f r') : r = r' := by
  obtain ⟨fuel, hr, hr'⟩ := (h.and h').exists
  exact Option.some.inj (hr.symm.trans hr')

/-- What the body keeps, whatever its calls do as long as they keep it, every result has. -/
lemma iterate_keeps {Post : ι → σ → α → Prop}
    (hbody : ∀ c, (∀ i s r, c i s = some r → Post i s r) →
      ∀ i s r, body c i s = some r → Post i s r) :
    ∀ fuel i s r, iterate body fuel i s = some r → Post i s r := by
  intro fuel
  induction fuel with
  | zero =>
    intro i s r h
    cases h
  | succ fuel ih => exact hbody _ ih

section Ensures

variable {x y : Option α} {mid post : α → Prop} {post' : β → Prop}

/-- What `x` gives, if it gives anything, is as `post` says. -/
def Ensures (x : Option α) (post : α → Prop) : Prop := ∀ r, x = some r → post r

lemma ensures_none : Ensures none post := fun _ h => by cases h

lemma ensures_some {r : α} (h : post r) : Ensures (some r) post := by
  intro r' hr
  rwa [← Option.some.inj hr]

lemma Ensures.mono (h : Ensures x mid) (hmid : ∀ r, mid r → post r) : Ensures x post :=
  fun r hr => hmid r (h r hr)

lemma Ensures.bind {f : α → Option β} (h : Ensures x mid) (hf : ∀ r, mid r → Ensures (f r) post') :
    Ensures (x.bind f) post' := by
  intro r hr
  obtain ⟨a, ha, hr⟩ := Option.bind_eq_some_iff.mp hr
  exact hf a (h a ha) r hr

lemma ensures_ite {cond : Prop} [Decidable cond] (hx : cond → Ensures x post)
    (hy : ¬ cond → Ensures y post) : Ensures (if cond then x else y) post := by
  split
  · next h => exact hx h
  · next h => exact hy h

end Ensures

end OpenRecursion
