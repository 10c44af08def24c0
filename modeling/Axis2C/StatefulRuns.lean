import Mathlib.Tactic

/-!
# Programs with state and exits

Rules for programs that are built by sequencing and choice. `Holds` is partial
correctness with a postcondition for the normal end and one for exits. `Sim`
relates two programs over different states that are run side by side: the first
may give up with an exit that counts as `bad`; otherwise the second does the same
thing and the states stay related, and `good` is what is known of the exit.
-/
namespace StatefulRuns

variable {ε σ τ α β : Type} {R : σ → τ → Prop} {bad good : ε → Prop}

lemma bind_ok {p : EStateM ε σ α} {f : α → EStateM ε σ β} {s s' : σ} {a : α}
    (h : p s = .ok a s') : (p >>= f) s = f a s' := by
  change EStateM.bind p f s = f a s'
  simp only [EStateM.bind, h]

lemma bind_error {p : EStateM ε σ α} {f : α → EStateM ε σ β} {s s' : σ} {e : ε}
    (h : p s = .error e s') : (p >>= f) s = .error e s' := by
  change EStateM.bind p f s = .error e s'
  simp only [EStateM.bind, h]

lemma run_ite_pos {c : Prop} [Decidable c] {p q : EStateM ε σ α} {s : σ} (h : c) :
    (if c then p else q) s = p s := by
  simp only [if_pos h]

lemma run_ite_neg {c : Prop} [Decidable c] {p q : EStateM ε σ α} {s : σ} (h : ¬ c) :
    (if c then p else q) s = q s := by
  simp only [if_neg h]

/-! ### Ends of a run -/

section Ends

variable {P P' : σ → Prop} {Q Q' : α → σ → Prop} {S : β → σ → Prop} {X X' : ε → σ → Prop}
variable {p : EStateM ε σ α}

/-- From states in `P` the program ends in `Q`, or with an exit in `X`. -/
def Ends (P : σ → Prop) (p : EStateM ε σ α) (Q : α → σ → Prop) (X : ε → σ → Prop) : Prop :=
  ∀ s, P s →
    match p s with
    | .ok a s' => Q a s'
    | .error e s' => X e s'

lemma Ends.pure {a : α} (h : ∀ s, P s → Q a s) : Ends P (pure a : EStateM ε σ α) Q X :=
  fun s hs => h s hs

lemma Ends.throw {e : ε} (h : ∀ s, P s → X e s) : Ends P (throw e : EStateM ε σ α) Q X :=
  fun s hs => h s hs

lemma Ends.bind {f : α → EStateM ε σ β} (hp : Ends P p Q X) (hf : ∀ a, Ends (Q a) (f a) S X) :
    Ends P (p >>= f) S X := by
  intro s hs
  have hrun := hp s hs
  cases hps : p s with
  | ok a s' =>
    rw [hps] at hrun
    rw [bind_ok hps]
    exact hf a s' hrun
  | error e s' =>
    rw [hps] at hrun
    rw [bind_error hps]
    exact hrun

lemma Ends.ite {c : Prop} [Decidable c] {p q : EStateM ε σ α} (hp : c → Ends P p Q X)
    (hq : ¬ c → Ends P q Q X) : Ends P (if c then p else q) Q X := by
  split
  · next h => exact hp h
  · next h => exact hq h

lemma Ends.mono (hp : Ends P p Q X) (hpre : ∀ s, P' s → P s) (hpost : ∀ a s, Q a s → Q' a s) :
    Ends P' p Q' X := by
  intro s hs
  have hrun := hp s (hpre s hs)
  cases hps : p s with
  | ok a s' => rw [hps] at hrun; exact hpost a s' hrun
  | error e s' => rw [hps] at hrun; exact hrun

/-- What the state before says of the program's arguments may be used. -/
lemma Ends.given {c : Prop} (hp : c → Ends P p Q X) :
    Ends (fun s => c ∧ P s) p Q X :=
  fun s hs => hp hs.1 s hs.2

end Ends

/-! ### Postconditions -/

section Holds

variable {P P' : σ → Prop} {Q Q' : α → σ → Prop} {S : β → σ → Prop} {E E' : σ → Prop}
variable {p : EStateM ε σ α}

/-- From states in `P` the program ends in `Q`, or exits in `E`. -/
def Holds (P : σ → Prop) (p : EStateM ε σ α) (Q : α → σ → Prop) (E : σ → Prop) : Prop :=
  ∀ s, P s →
    match p s with
    | .ok a s' => Q a s'
    | .error _ s' => E s'

/-- It says nothing of the exit itself. -/
lemma holds_iff_ends : Holds P p Q E ↔ Ends P p Q fun _ => E := Iff.rfl

lemma Holds.pure {a : α} (h : ∀ s, P s → Q a s) : Holds P (pure a : EStateM ε σ α) Q E :=
  fun s hs => h s hs

lemma Holds.throw {e : ε} (h : ∀ s, P s → E s) :
    Holds P (throw e : EStateM ε σ α) Q E :=
  fun s hs => h s hs

lemma Holds.bind {f : α → EStateM ε σ β} (hp : Holds P p Q E) (hf : ∀ a, Holds (Q a) (f a) S E) :
    Holds P (p >>= f) S E :=
  holds_iff_ends.mpr ((holds_iff_ends.mp hp).bind hf)

lemma Holds.ite {c : Prop} [Decidable c] {p q : EStateM ε σ α} (hp : c → Holds P p Q E)
    (hq : ¬ c → Holds P q Q E) : Holds P (if c then p else q) Q E :=
  holds_iff_ends.mpr (.ite hp hq)

lemma Holds.mono (hp : Holds P p Q E) (hpre : ∀ s, P' s → P s) (hpost : ∀ a s, Q a s → Q' a s)
    (hexit : ∀ s, E s → E' s) : Holds P' p Q' E' := by
  intro s hs
  have hrun := hp s (hpre s hs)
  cases hps : p s with
  | ok a s' => rw [hps] at hrun; exact hpost a s' hrun
  | error e s' => rw [hps] at hrun; exact hexit s' hrun

/-- An invariant of the whole run, however it ends. -/
def Keeps (P : σ → Prop) (p : EStateM ε σ α) : Prop := Holds P p (fun _ => P) P

lemma Keeps.pure (a : α) : Keeps P (pure a : EStateM ε σ α) := Holds.pure fun _ hs => hs

lemma Keeps.throw (e : ε) : Keeps P (throw e : EStateM ε σ α) := Holds.throw fun _ hs => hs

lemma Keeps.bind {f : α → EStateM ε σ β} (hp : Keeps P p) (hf : ∀ a, Keeps P (f a)) :
    Keeps P (p >>= f) :=
  Holds.bind hp hf

lemma Keeps.ite {c : Prop} [Decidable c] {p q : EStateM ε σ α} (hp : Keeps P p)
    (hq : Keeps P q) : Keeps P (if c then p else q) :=
  Holds.ite (fun _ => hp) fun _ => hq

end Holds

/-- What every run that returns meets, from states in `P`. -/
def Returns (P : σ → Prop) (p : EStateM ε σ α) (Q : α → σ → Prop) : Prop :=
  Holds P p Q fun _ => True

section Returns

variable {P : σ → Prop} {Q Q' : α → σ → Prop} {S : β → σ → Prop} {p : EStateM ε σ α}

lemma Returns.result (hp : Returns P p Q) {s s' : σ} {a : α} (hs : P s) (h : p s = .ok a s') :
    Q a s' := by
  have hrun := hp s hs
  rwa [h] at hrun

lemma Returns.pure {a : α} (h : ∀ s, P s → Q a s) : Returns P (pure a : EStateM ε σ α) Q :=
  Holds.pure h

lemma Returns.throw (e : ε) : Returns P (throw e : EStateM ε σ α) Q :=
  Holds.throw fun _ _ => trivial

lemma Returns.bind {f : α → EStateM ε σ β} (hp : Returns P p Q) (hf : ∀ a, Returns (Q a) (f a) S) :
    Returns P (p >>= f) S :=
  Holds.bind hp hf

lemma Returns.ite {c : Prop} [Decidable c] {p q : EStateM ε σ α} (hp : c → Returns P p Q)
    (hq : ¬ c → Returns P q Q) : Returns P (if c then p else q) Q :=
  Holds.ite hp hq

lemma Returns.mono (hp : Returns P p Q) (h : ∀ a s, Q a s → Q' a s) : Returns P p Q' :=
  Holds.mono hp (fun _ hs => hs) h fun _ hs => hs

lemma Returns.of_post (h : ∀ a s, Q a s) : Returns P p Q := by
  intro s _
  cases p s with
  | ok a s' => exact h a s'
  | error e s' => trivial

end Returns

/-! ### Two programs side by side -/

/-- `q` does what `p` does, unless `p` ends badly. -/
def Sim (R : σ → τ → Prop) (bad good : ε → Prop) (p : EStateM ε σ α) (q : EStateM ε τ α) : Prop :=
  ∀ s t, R s t →
    match p s with
    | .ok a s' => ∃ t', q t = .ok a t' ∧ R s' t'
    | .error e s' => bad e ∨ (good e ∧ ∃ t', q t = .error e t' ∧ R s' t')

lemma Sim.pure (a : α) : Sim R bad good (pure a) (pure a) := by
  intro s t h
  exact ⟨t, rfl, h⟩

lemma Sim.throw {e : ε} (he : good e) :
    Sim R bad good (throw e : EStateM ε σ α) (throw e) := by
  intro s t h
  exact Or.inr ⟨he, t, rfl, h⟩

lemma Sim.bind {p : EStateM ε σ α} {q : EStateM ε τ α} {f : α → EStateM ε σ β}
    {g : α → EStateM ε τ β} (hp : Sim R bad good p q) (hf : ∀ a, Sim R bad good (f a) (g a)) :
    Sim R bad good (p >>= f) (q >>= g) := by
  intro s t h
  have hs := hp s t h
  cases hps : p s with
  | ok a s' =>
    rw [hps] at hs
    obtain ⟨t', hq, h'⟩ := hs
    rw [bind_ok hps, bind_ok hq]
    exact hf a s' t' h'
  | error e s' =>
    rw [hps] at hs
    rw [bind_error hps]
    rcases hs with hbad | ⟨hgood, t', hq, h'⟩
    · exact Or.inl hbad
    · exact Or.inr ⟨hgood, t', bind_error hq, h'⟩

lemma Sim.ite {c : Prop} [Decidable c] {p p' : EStateM ε σ α} {q q' : EStateM ε τ α}
    (hp : Sim R bad good p q) (hp' : Sim R bad good p' q') :
    Sim R bad good (if c then p else p') (if c then q else q') := by
  split
  · exact hp
  · exact hp'

end StatefulRuns
