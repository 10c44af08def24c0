import Axis2C.NeethiNormalize

/-!
# Policy references

`neethi_engine_normalize` with the policy that it is given as the call leaves it: an operator that
refers to a policy of the registry is turned into that policy where it stands. A policy of the
registry that a run has gone through before has its own references replaced by then, which changes
nothing in what it is normalized to, so every lookup gives the policy as it was registered.
-/
namespace Axis2C.Neethi

section Registries

/-- `neethi_policy_t`. -/
structure Policy (α : Type) where
  name : Option String
  id : Option String
  components : List (Operator α)

/-- `neethi_registry_t`, with what was registered and the parent. -/
inductive PolicyRegistry (α : Type)
  | create (registry : String → Option (Policy α))
  | createWithParent (registry : String → Option (Policy α)) (parent : PolicyRegistry α)

variable {α : Type}

/-- `neethi_registry_lookup`. -/
def PolicyRegistry.lookup : PolicyRegistry α → String → Option (Policy α)
  | .create registry, key => registry key
  | .createWithParent registry parent, key =>
    match registry key with
    | some policy => some policy
    | none => parent.lookup key

def PolicyRegistry.toRegistry (registry : PolicyRegistry α) : Registry α :=
  fun key => (registry.lookup key).map Policy.components

/-- The components that a reference leads to. -/
abbrev lookups (registry : Option (PolicyRegistry α)) : Option (Registry α) :=
  registry.map PolicyRegistry.toRegistry

/-- The policy of a reference. There is none without a uri, without a registry and without an
entry. -/
def referenced (registry : Option (PolicyRegistry α)) (uri : Option String) :
    Option (Policy α) :=
  match uri, registry with
  | some uri, some registry => registry.lookup uri
  | _, _ => none

end Registries

section Model

variable {α : Type}

/-- One turn of the loop, with the operator as it is left: `neethi_operator_set_value` makes a
reference the policy that was found. -/
def normalizeChildInPlace
    (normalize : OperatorType → List (Operator α) →
      Except Stop (ExactlyOne α) × List (Operator α))
    (registry : Option (PolicyRegistry α)) (deep : Bool) :
    Operator α → Except Stop (Option (ExactlyOne α)) × Operator α
  | .assertion a => (if deep then .error .null else .ok (some [[.assertion a]]), .assertion a)
  | .policy name id components =>
    let run := normalize .all components
    (unlessNull run.1, .policy name id run.2)
  | .reference uri =>
    match referenced registry uri with
    | some policy =>
      let run := normalize .all policy.components
      (unlessNull run.1, .policy policy.name policy.id run.2)
    | none => (.error .null, .reference uri)
  | .all components =>
    let run := normalize .all components
    (unlessNull run.1, .all run.2)
  | .exactlyOne components =>
    let run := normalize .exactlyOne components
    (unlessNull run.1, .exactlyOne run.2)

/-- The loop of `neethi_engine_normalize_operator`. -/
def normalizeChildren (child : Operator α → Except Stop (Option (ExactlyOne α)) × Operator α) :
    List (Operator α) → Except Stop (List (Option (ExactlyOne α))) × List (Operator α)
  | [] => (.ok [], [])
  | c :: cs =>
    match child c with
    | (.error stop, c') => (.error stop, c' :: cs)
    | (.ok found, c') =>
      let rest := normalizeChildren child cs
      (rest.1.map (found :: ·), c' :: rest.2)

def normalizeOperatorInPlace (registry : Option (PolicyRegistry α)) (deep : Bool) :
    ℕ → OperatorType → List (Operator α) → Except Stop (ExactlyOne α) × List (Operator α)
  | 0, _, components => (.error .fuel, components)
  | fuel + 1, type, components =>
    if components.isEmpty then (.ok (if type = .exactlyOne then [] else [[]]), components)
    else
      let run := normalizeChildren
        (normalizeChildInPlace (normalizeOperatorInPlace registry deep fuel) registry deep)
        components
      (run.1.bind fun found => computeResultantComponent type found.reduceOption, run.2)

/-- `neethi_engine_normalize`, with the policy that it was called with. -/
def normalizeInPlace (registry : Option (PolicyRegistry α)) (deep : Bool) (fuel : ℕ)
    (policy : Policy α) : Except Stop (Operator α) × Policy α :=
  let run := normalizeOperatorInPlace registry deep fuel .policy policy.components
  (run.1.map fun exactlyone => .policy policy.name policy.id [.exactlyOne (exactlyone.map .all)],
    { policy with components := run.2 })

end Model

section Specification

variable {α : Type} (registry : Option (PolicyRegistry α)) (deep : Bool)

/-- The operator with every reference in it replaced by the policy that it refers to. There is
one with enough fuel when every reference resolves and none leads back to itself. -/
def resolve : ℕ → Operator α → Option (Operator α)
  | _, .assertion a => some (.assertion a)
  | 0, _ => none
  | fuel + 1, .policy name id components =>
    (components.mapM (resolve fuel)).map (.policy name id)
  | fuel + 1, .all components => (components.mapM (resolve fuel)).map .all
  | fuel + 1, .exactlyOne components => (components.mapM (resolve fuel)).map .exactlyOne
  | fuel + 1, .reference uri =>
    (referenced registry uri).bind fun policy =>
      (policy.components.mapM (resolve fuel)).map (.policy policy.name policy.id)

/-- The operator is nested in one of these, also through references. -/
inductive Inside (c : Operator α) : List (Operator α) → Prop
  | here {cs : List (Operator α)} : c ∈ cs → Inside c cs
  | policy {name id : Option String} {cs components : List (Operator α)} :
      .policy name id components ∈ cs → Inside c components → Inside c cs
  | all {cs components : List (Operator α)} :
      .all components ∈ cs → Inside c components → Inside c cs
  | exactlyOne {cs components : List (Operator α)} :
      .exactlyOne components ∈ cs → Inside c components → Inside c cs
  | reference {uri : Option String} {policy : Policy α} {cs : List (Operator α)} :
      .reference uri ∈ cs → referenced registry uri = some policy →
        Inside c policy.components → Inside c cs

/-- Some reference cannot be resolved. -/
def Dangling (components : List (Operator α)) : Prop :=
  ∃ uri, referenced registry uri = none ∧ Inside registry (.reference uri) components

def Returns {β : Type} (run : ℕ → Except Stop β) (r : Except Stop β) : Prop :=
  r ≠ .error .fuel ∧ ∃ enough, ∀ fuel ≥ enough, run fuel = r

/-- The call returns, with the same as for the policy without references if there is one, with a
failure if a reference cannot be resolved, and it leaves the policy as it was. -/
structure Normalizes (policy : Policy α) : Prop where
  terminates : ∃ r, Returns (fun fuel => (normalizeInPlace registry deep fuel policy).1) r
  resolved : ∀ n components, policy.components.mapM (resolve registry n) = some components →
    ∃ r, Returns (fun fuel => (normalizeInPlace registry deep fuel policy).1) r ∧
      Returns (fun fuel => normalize none deep fuel policy.name policy.id components) r
  fails : Dangling registry policy.components →
    Returns (fun fuel => (normalizeInPlace registry deep fuel policy).1) (.error .null)
  unchanged : ∀ fuel, (normalizeInPlace registry deep fuel policy).2 = policy

/-- The operators at which the loop over the components ends the function: a reference that cannot
be resolved, and an assertion when `deep` is set. -/
def Operator.stops : Operator α → Bool
  | .assertion _ => deep
  | .reference uri => (referenced registry uri).isNone
  | _ => false

mutual

/-- No reference that can be resolved is reached: none stands in front of the first component of
its operator that ends the loop. -/
def Operator.Untouched : Operator α → Prop
  | .policy _ _ components => AllUntouched components
  | .all components => AllUntouched components
  | .exactlyOne components => AllUntouched components
  | .assertion _ => True
  | .reference uri => referenced registry uri = none

def AllUntouched : List (Operator α) → Prop
  | [] => True
  | c :: cs => c.Untouched ∧ (c.stops registry deep = true ∨ AllUntouched cs)

end

/-- An operator is lost when the loop over its components was ended. -/
def fateWith (type : OperatorType) (stopped : Bool) (fates : List Fate) : Fate :=
  if stopped then .lost
  else if type = .exactlyOne then fateOfChoice fates else fateOfConjunction fates

mutual

/-- What becomes of an operator in which no reference is resolved. -/
def Operator.fateIn : Operator α → Fate
  | .policy _ _ components =>
    fateWith .all (components.any (·.stops registry deep)) (fatesIn components)
  | .all components =>
    fateWith .all (components.any (·.stops registry deep)) (fatesIn components)
  | .exactlyOne components =>
    fateWith .exactlyOne (components.any (·.stops registry deep)) (fatesIn components)
  | .assertion _ => .kept
  | .reference _ => .lost

def fatesIn : List (Operator α) → List Fate
  | [] => []
  | c :: cs => c.fateIn :: fatesIn cs

end

def policyFate (components : List (Operator α)) : Fate :=
  fateWith .policy (components.any (·.stops registry deep)) (fatesIn registry deep components)

end Specification

section Runs

variable {α : Type} {registry : Option (PolicyRegistry α)} {deep : Bool}

lemma normalizeChildren_result
    {child : Operator α → Except Stop (Option (ExactlyOne α)) × Operator α}
    (components : List (Operator α)) :
    (normalizeChildren child components).1 = components.mapM fun c => (child c).1 := by
  induction components with
  | nil => rfl
  | cons c cs ih =>
    rw [List.mapM_cons, ← ih, normalizeChildren]
    obtain ⟨result, c'⟩ := child c
    cases result with
    | error stop | ok found => rfl

lemma normalizeChild_reference
    (normalize : OperatorType → List (Operator α) → Except Stop (ExactlyOne α))
    (uri : Option String) :
    normalizeChild normalize (lookups registry) deep (.reference uri) =
      ((referenced registry uri).map fun policy =>
        unlessNull (normalize .all policy.components)).getD (.error .null) := by
  cases uri with
  | none => rfl
  | some uri =>
    cases registry with
    | none => rfl
    | some registry =>
      simp only [normalizeChild, referenced, Option.map_some, PolicyRegistry.toRegistry]
      cases registry.lookup uri <;> rfl

/-- What is returned is what was returned before the policies were taken along. -/
lemma normalizeOperatorInPlace_result (fuel : ℕ) (type : OperatorType)
    (components : List (Operator α)) :
    (normalizeOperatorInPlace registry deep fuel type components).1 =
      normalizeOperator (lookups registry) deep fuel type components := by
  induction fuel generalizing type components with
  | zero => rfl
  | succ fuel ih =>
    have hchild : ∀ c : Operator α,
        (normalizeChildInPlace (normalizeOperatorInPlace registry deep fuel) registry deep c).1 =
          normalizeChild
            (normalizeOperator (lookups registry) deep fuel) (lookups registry) deep c := by
      intro c
      cases c with
      | policy name id components | all components => exact congrArg unlessNull (ih .all components)
      | exactlyOne components => exact congrArg unlessNull (ih .exactlyOne components)
      | assertion a => rfl
      | reference uri =>
        rw [normalizeChild_reference, normalizeChildInPlace]
        cases referenced registry uri with
        | none => rfl
        | some policy => exact congrArg unlessNull (ih .all policy.components)
    rw [normalizeOperatorInPlace, normalizeOperator]
    split
    · rfl
    · simp only [normalizeChildren_result, hchild]
      rfl

end Runs

section Fuel

variable {α : Type} {registry : Option (PolicyRegistry α)} {deep : Bool}

lemma mapM_mono {child child' : Operator α → Except Stop (Option (ExactlyOne α))}
    (h : ∀ c, child c ≠ .error .fuel → child' c = child c) {components : List (Operator α)}
    (hne : components.mapM child ≠ .error .fuel) :
    components.mapM child' = components.mapM child := by
  induction components with
  | nil => rfl
  | cons c cs ih =>
    rw [List.mapM_cons] at hne
    rw [List.mapM_cons, List.mapM_cons]
    have hc : child c ≠ .error .fuel := fun hfuel => hne (by rw [hfuel]; rfl)
    rw [h c hc]
    cases hchild : child c with
    | error stop => rfl
    | ok found =>
      have hcs : cs.mapM child ≠ .error .fuel :=
        fun hfuel => hne (by rw [hchild, hfuel]; rfl)
      rw [ih hcs]

lemma unlessNull_ne_fuel {x : Except Stop (ExactlyOne α)} :
    unlessNull x ≠ .error .fuel ↔ x ≠ .error .fuel := by
  cases x with
  | error stop => cases stop <;> simp [unlessNull]
  | ok e => simp [unlessNull]

lemma normalizeChild_mono
    {normalize normalize' : OperatorType → List (Operator α) → Except Stop (ExactlyOne α)}
    (h : ∀ type cs, normalize type cs ≠ .error .fuel → normalize' type cs = normalize type cs)
    (c : Operator α)
    (hne : normalizeChild normalize (lookups registry) deep c ≠ .error .fuel) :
    normalizeChild normalize' (lookups registry) deep c =
      normalizeChild normalize (lookups registry) deep c := by
  have hcall : ∀ type cs, unlessNull (normalize type cs) ≠ .error .fuel →
      unlessNull (normalize' type cs) = unlessNull (normalize type cs) :=
    fun type cs hne => congrArg unlessNull (h type cs (unlessNull_ne_fuel.mp hne))
  cases c with
  | policy name id components | all components | exactlyOne components => exact hcall _ _ hne
  | assertion a => rfl
  | reference uri =>
    rw [normalizeChild_reference] at hne
    rw [normalizeChild_reference, normalizeChild_reference]
    cases hpolicy : referenced registry uri with
    | none => rfl
    | some policy =>
      rw [hpolicy] at hne
      exact hcall _ _ hne

/-- More fuel does not change what is returned. -/
lemma normalizeOperator_succ (fuel : ℕ) (type : OperatorType) (components : List (Operator α))
    (h : normalizeOperator (lookups registry) deep fuel type components ≠ .error .fuel) :
    normalizeOperator (lookups registry) deep (fuel + 1) type components =
      normalizeOperator (lookups registry) deep fuel type components := by
  induction fuel generalizing type components with
  | zero => exact absurd rfl h
  | succ fuel ih =>
    rw [normalizeOperator] at h
    rw [normalizeOperator, normalizeOperator]
    split at h
    · next hempty => rw [if_pos hempty, if_pos hempty]
    · next hempty =>
      rw [if_neg hempty, if_neg hempty]
      have hmap : components.mapM
          (normalizeChild (normalizeOperator (lookups registry) deep fuel)
            (lookups registry) deep) ≠ .error .fuel :=
        fun hfuel => h (by rw [hfuel]; rfl)
      rw [mapM_mono (normalizeChild_mono ih) hmap]

lemma returns_of_succ {β : Type} {run : ℕ → Except Stop β}
    (h : ∀ fuel, run fuel ≠ .error .fuel → run (fuel + 1) = run fuel) {fuel : ℕ}
    (hne : run fuel ≠ .error .fuel) : Returns run (run fuel) := by
  refine ⟨hne, fuel, fun fuel' hle => ?_⟩
  induction fuel', hle using Nat.le_induction with
  | base => rfl
  | succ fuel' _ ih => rw [h fuel' (ih ▸ hne), ih]

lemma Returns.unique {β : Type} {run : ℕ → Except Stop β} {r r' : Except Stop β}
    (h : Returns run r) (h' : Returns run r') : r = r' := by
  obtain ⟨-, enough, hr⟩ := h
  obtain ⟨-, enough', hr'⟩ := h'
  rw [← hr (max enough enough') (le_max_left _ _), ← hr' (max enough enough') (le_max_right _ _)]

lemma normalize_ne_fuel {fuel : ℕ} {name id : Option String} {components : List (Operator α)} :
    normalize (lookups registry) deep fuel name id components ≠ .error .fuel ↔
      normalizeOperator (lookups registry) deep fuel .policy components ≠ .error .fuel := by
  rw [normalize]
  cases normalizeOperator (lookups registry) deep fuel .policy components with
  | error stop => simp [bind, Except.bind]
  | ok e => simp [bind, Except.bind, pure, Except.pure]

lemma normalize_returns {fuel : ℕ} {name id : Option String} {components : List (Operator α)}
    (h : normalizeOperator (lookups registry) deep fuel .policy components ≠ .error .fuel) :
    Returns (fun fuel => normalize (lookups registry) deep fuel name id components)
      (normalize (lookups registry) deep fuel name id components) := by
  refine @returns_of_succ _
    (fun fuel => normalize (lookups registry) deep fuel name id components) ?_ fuel
    (normalize_ne_fuel.mpr h)
  intro fuel hne
  simp only [normalize, normalizeOperator_succ fuel _ _ (normalize_ne_fuel.mp hne)]

end Fuel

section Resolving

variable {α : Type} {registry : Option (PolicyRegistry α)} {deep : Bool}
variable {components components' : List (Operator α)}

lemma mapM_resolved {child child' : Operator α → Except Stop (Option (ExactlyOne α))}
    {replace : Operator α → Option (Operator α)}
    (h : ∀ c c', replace c = some c' → child c = child' c' ∧ child c ≠ .error .fuel)
    (hmap : components.mapM replace = some components') :
    components.mapM child = components'.mapM child' ∧ components.mapM child ≠ .error .fuel := by
  induction components generalizing components' with
  | nil =>
    obtain rfl : [] = components' := Option.some.inj hmap
    exact ⟨rfl, by simp [pure, Except.pure]⟩
  | cons c cs ih =>
    rw [List.mapM_cons] at hmap
    obtain ⟨c', hc, hrest⟩ := Option.bind_eq_some_iff.mp hmap
    obtain ⟨cs', hcs, hcons⟩ := Option.bind_eq_some_iff.mp hrest
    obtain rfl : c' :: cs' = components' := Option.some.inj hcons
    obtain ⟨hchild, hne⟩ := h c c' hc
    obtain ⟨hmap', hne'⟩ := ih hcs
    rw [List.mapM_cons, List.mapM_cons, ← hchild, ← hmap']
    refine ⟨rfl, ?_⟩
    cases hfound : child c with
    | error stop =>
      rw [hfound] at hne
      simpa [bind, Except.bind] using hne
    | ok found =>
      cases hrest' : cs.mapM child with
      | error stop =>
        rw [hrest'] at hne'
        simpa [bind, Except.bind] using hne'
      | ok rest => simp [bind, Except.bind, pure, Except.pure]

lemma mapM_isEmpty {replace : Operator α → Option (Operator α)}
    (h : components.mapM replace = some components') :
    components'.isEmpty = components.isEmpty := by
  cases components with
  | nil =>
    obtain rfl : [] = components' := Option.some.inj h
    rfl
  | cons c cs =>
    rw [List.mapM_cons] at h
    obtain ⟨c', -, hrest⟩ := Option.bind_eq_some_iff.mp h
    obtain ⟨cs', -, hcons⟩ := Option.bind_eq_some_iff.mp hrest
    obtain rfl : c' :: cs' = components' := Option.some.inj hcons
    rfl

lemma computeResultant_ne_fuel (type : OperatorType) (inner : List (ExactlyOne α)) :
    computeResultantComponent type inner ≠ .error .fuel := by
  unfold computeResultantComponent
  split <;> (try split) <;> (try split) <;> simp

/-- One level of the recursion. -/
lemma normalizeOperator_resolved_succ {n fuel : ℕ} (type : OperatorType)
    (h : ∀ c c' : Operator α, resolve registry n c = some c' →
      normalizeChild (normalizeOperator (lookups registry) deep fuel) (lookups registry) deep c =
          normalizeChild (normalizeOperator none deep fuel) none deep c' ∧
        normalizeChild (normalizeOperator (lookups registry) deep fuel) (lookups registry) deep c ≠
          .error .fuel)
    {components components' : List (Operator α)}
    (hmap : components.mapM (resolve registry n) = some components') :
    normalizeOperator (lookups registry) deep (fuel + 1) type components =
        normalizeOperator none deep (fuel + 1) type components' ∧
      normalizeOperator (lookups registry) deep (fuel + 1) type components ≠ .error .fuel := by
  obtain ⟨hsame, hne⟩ := mapM_resolved h hmap
  rw [normalizeOperator, normalizeOperator, mapM_isEmpty hmap, hsame]
  rw [hsame] at hne
  split
  · exact ⟨rfl, by simp⟩
  · refine ⟨rfl, ?_⟩
    cases hfound : components'.mapM
        (normalizeChild (normalizeOperator none deep fuel) none deep) with
    | error stop =>
      rw [hfound] at hne
      simpa [bind, Except.bind] using hne
    | ok found => exact computeResultant_ne_fuel type found.reduceOption

/-- With references or with the policies in their places, the same is returned. -/
lemma normalizeChild_resolved (n : ℕ) :
    ∀ fuel ≥ n, ∀ c c' : Operator α, resolve registry n c = some c' →
      normalizeChild (normalizeOperator (lookups registry) deep fuel) (lookups registry) deep c =
          normalizeChild (normalizeOperator none deep fuel) none deep c' ∧
        normalizeChild (normalizeOperator (lookups registry) deep fuel) (lookups registry) deep c ≠
          .error .fuel := by
  have hassertion : ∀ (fuel : ℕ) (a : α),
      normalizeChild (normalizeOperator (lookups registry) deep fuel) (lookups registry) deep
          (.assertion a) =
        normalizeChild (normalizeOperator none deep fuel) none deep (.assertion a) ∧
      normalizeChild (normalizeOperator (lookups registry) deep fuel) (lookups registry) deep
          (.assertion a) ≠ .error .fuel := by
    intro fuel a
    refine ⟨rfl, ?_⟩
    unfold normalizeChild
    cases deep <;> simp
  induction n with
  | zero =>
    intro fuel _ c c' hc
    cases c with
    | assertion a =>
      obtain rfl : .assertion a = c' := Option.some.inj hc
      exact hassertion fuel a
    | policy name id components | all components | exactlyOne components | reference uri => cases hc
  | succ n ih =>
    intro fuel hfuel c c' hc
    obtain ⟨k, rfl⟩ : ∃ k, fuel = k + 1 := ⟨fuel - 1, by omega⟩
    have hcall : ∀ (type : OperatorType) {components components' : List (Operator α)},
        components.mapM (resolve registry n) = some components' →
        unlessNull (normalizeOperator (lookups registry) deep (k + 1) type components) =
            unlessNull (normalizeOperator none deep (k + 1) type components') ∧
          unlessNull (normalizeOperator (lookups registry) deep (k + 1) type components) ≠
            .error .fuel := by
      intro type components components' hmap
      obtain ⟨hsame, hne⟩ := normalizeOperator_resolved_succ type (ih k (by omega)) hmap
      exact ⟨congrArg unlessNull hsame, unlessNull_ne_fuel.mpr hne⟩
    cases c with
    | assertion a =>
      obtain rfl : .assertion a = c' := Option.some.inj hc
      exact hassertion (k + 1) a
    | policy name id components | all components =>
      obtain ⟨components', hmap, rfl⟩ := Option.map_eq_some_iff.mp hc
      exact hcall .all hmap
    | exactlyOne components =>
      obtain ⟨components', hmap, rfl⟩ := Option.map_eq_some_iff.mp hc
      exact hcall .exactlyOne hmap
    | reference uri =>
      obtain ⟨policy, hpolicy, hreplace⟩ := Option.bind_eq_some_iff.mp hc
      obtain ⟨components', hmap, rfl⟩ := Option.map_eq_some_iff.mp hreplace
      rw [normalizeChild_reference, hpolicy]
      exact hcall .all hmap

/-- Where every reference resolves and none leads back to itself, the call returns the same as for
the policy without references. -/
lemma normalize_resolved {n : ℕ} {name id : Option String}
    (h : components.mapM (resolve registry n) = some components') :
    ∃ r, Returns (fun fuel => normalize (lookups registry) deep fuel name id components) r ∧
      Returns (fun fuel => normalize none deep fuel name id components') r := by
  obtain ⟨hsame, hne⟩ := @normalizeOperator_resolved_succ α registry deep n n .policy
    (normalizeChild_resolved n n le_rfl) components components' h
  have hrun := @normalize_returns α registry deep (n + 1) name id components hne
  have hrun' := @normalize_returns α none deep (n + 1) name id components'
    (by rw [hsame] at hne; exact hne)
  have heq : normalize (lookups registry) deep (n + 1) name id components =
      normalize none deep (n + 1) name id components' := by rw [normalize, normalize, hsame]
  exact ⟨_, hrun, heq ▸ hrun'⟩

end Resolving

section Trees

variable {α : Type} {registry : Option (PolicyRegistry α)} {deep : Bool}

abbrev InPlace (α : Type) :=
  OperatorType → List (Operator α) → Except Stop (ExactlyOne α) × List (Operator α)

variable {normalize : InPlace α}

lemma unlessNull_ne_null (x : Except Stop (ExactlyOne α)) : unlessNull x ≠ .error .null := by
  cases x with
  | error stop => cases stop <;> simp [unlessNull]
  | ok e => simp [unlessNull]

/-- The loop ends at an operator that stops, and at no other. -/
lemma child_null_iff (c : Operator α) :
    (normalizeChildInPlace normalize registry deep c).1 = .error .null ↔
      c.stops registry deep = true := by
  cases c with
  | policy name id components | all components | exactlyOne components =>
    simp [normalizeChildInPlace, unlessNull_ne_null, Operator.stops]
  | assertion a => cases deep <;> simp [normalizeChildInPlace, Operator.stops]
  | reference uri =>
    cases hpolicy : referenced registry uri with
    | none => simp [normalizeChildInPlace, Operator.stops, hpolicy]
    | some policy => simp [normalizeChildInPlace, Operator.stops, hpolicy, unlessNull_ne_null]

variable {child : Operator α → Except Stop (Option (ExactlyOne α)) × Operator α}

lemma normalizeChildren_error {c : Operator α} {stop : Stop} (cs : List (Operator α))
    (h : (child c).1 = .error stop) :
    normalizeChildren child (c :: cs) = (.error stop, (child c).2 :: cs) := by
  rw [normalizeChildren]
  cases hchild : child c with
  | mk result c' =>
    rw [hchild] at h
    obtain rfl : result = .error stop := h
    rfl

lemma normalizeChildren_ok {c : Operator α} {found : Option (ExactlyOne α)} (cs : List (Operator α))
    (h : (child c).1 = .ok found) :
    normalizeChildren child (c :: cs) =
      ((normalizeChildren child cs).1.map (found :: ·),
        (child c).2 :: (normalizeChildren child cs).2) := by
  rw [normalizeChildren]
  cases hchild : child c with
  | mk result c' =>
    rw [hchild] at h
    obtain rfl : result = .ok found := h
    rfl

/-- Where no reference is reached that can be resolved, the operators stay as they are. -/
lemma children_kept
    (h : ∀ type cs, AllUntouched registry deep cs → (normalize type cs).2 = cs)
    {components : List (Operator α)} (hun : AllUntouched registry deep components) :
    (normalizeChildren (normalizeChildInPlace normalize registry deep) components).2 =
      components := by
  have hchild : ∀ c : Operator α, c.Untouched registry deep →
      (normalizeChildInPlace normalize registry deep c).2 = c := by
    intro c hc
    cases c with
    | policy name id components => exact congrArg (Operator.policy name id) (h .all components hc)
    | all components => exact congrArg Operator.all (h .all components hc)
    | exactlyOne components => exact congrArg Operator.exactlyOne (h .exactlyOne components hc)
    | assertion a => rfl
    | reference uri =>
      have hnone : referenced registry uri = none := hc
      rw [normalizeChildInPlace, hnone]
  induction components with
  | nil => rfl
  | cons c cs ih =>
    obtain ⟨hc, hcs⟩ := hun
    cases hfound : (normalizeChildInPlace normalize registry deep c).1 with
    | error stop => rw [normalizeChildren_error cs hfound, hchild c hc]
    | ok found =>
      have hstops : ¬ c.stops registry deep = true := by
        rw [← @child_null_iff α registry deep normalize c, hfound]
        simp
      rw [normalizeChildren_ok cs hfound, hchild c hc, ih (hcs.resolve_left hstops)]

lemma normalizeOperatorInPlace_kept (fuel : ℕ) (type : OperatorType)
    (components : List (Operator α)) (hun : AllUntouched registry deep components) :
    (normalizeOperatorInPlace registry deep fuel type components).2 = components := by
  induction fuel generalizing type components with
  | zero => rfl
  | succ fuel ih =>
    rw [normalizeOperatorInPlace]
    split
    · rfl
    · exact children_kept ih hun

/-- A call that ends and leaves the operators as they are has reached no reference that can be
resolved. -/
lemma children_untouched
    (h : ∀ type cs, (normalize type cs).1 ≠ .error .fuel → (normalize type cs).2 = cs →
      AllUntouched registry deep cs)
    {components : List (Operator α)}
    (hne : (normalizeChildren (normalizeChildInPlace normalize registry deep) components).1 ≠
      .error .fuel)
    (hkept : (normalizeChildren (normalizeChildInPlace normalize registry deep) components).2 =
      components) : AllUntouched registry deep components := by
  have hchild : ∀ c : Operator α,
      (normalizeChildInPlace normalize registry deep c).1 ≠ .error .fuel →
      (normalizeChildInPlace normalize registry deep c).2 = c → c.Untouched registry deep := by
    intro c hne hkept
    cases c with
    | policy name id components =>
      exact h .all components (unlessNull_ne_fuel.mp hne) (Operator.policy.inj hkept).2.2
    | all components =>
      exact h .all components (unlessNull_ne_fuel.mp hne) (Operator.all.inj hkept)
    | exactlyOne components =>
      exact h .exactlyOne components (unlessNull_ne_fuel.mp hne) (Operator.exactlyOne.inj hkept)
    | assertion a => trivial
    | reference uri =>
      cases hpolicy : referenced registry uri with
      | none => exact hpolicy
      | some policy =>
        rw [normalizeChildInPlace, hpolicy] at hkept
        cases hkept
  induction components with
  | nil => trivial
  | cons c cs ih =>
    cases hfound : (normalizeChildInPlace normalize registry deep c).1 with
    | error stop =>
      rw [normalizeChildren_error cs hfound] at hne hkept
      have hstop : stop = .null := by
        cases stop with
        | null => rfl
        | fuel => exact absurd rfl hne
      subst hstop
      have hc := hchild c (by rw [hfound]; simp) (List.cons.inj hkept).1
      exact ⟨hc, .inl ((child_null_iff c).mp hfound)⟩
    | ok found =>
      rw [normalizeChildren_ok cs hfound] at hne hkept
      obtain ⟨hc, hcs⟩ := List.cons.inj hkept
      refine ⟨hchild c (by rw [hfound]; simp) hc, .inr (ih (fun hfuel => hne ?_) hcs)⟩
      rw [hfuel]
      rfl

lemma normalizeOperatorInPlace_untouched (fuel : ℕ) (type : OperatorType)
    (components : List (Operator α))
    (hne : (normalizeOperatorInPlace registry deep fuel type components).1 ≠ .error .fuel)
    (hkept : (normalizeOperatorInPlace registry deep fuel type components).2 = components) :
    AllUntouched registry deep components := by
  induction fuel generalizing type components with
  | zero => exact absurd rfl hne
  | succ fuel ih =>
    rw [normalizeOperatorInPlace] at hne hkept
    split at hkept
    · next hempty =>
      rw [List.isEmpty_iff.mp hempty]
      trivial
    · next hempty =>
      rw [if_neg hempty] at hne
      refine children_untouched ih (fun hfuel => hne ?_) hkept
      dsimp only
      rw [hfuel]
      rfl

end Trees

section Fates

variable {α : Type} {found : List (Option (ExactlyOne α))} {fs : List Fate}

/-- What a fate says about an exactlyone. -/
def Meets (r : Option (ExactlyOne α)) (f : Fate) : Prop :=
  (r = none ↔ f = .lost) ∧ (r = some [] ↔ f = .void)

lemma Meets.of_some {e : ExactlyOne α} {f : Fate} (hlost : f ≠ .lost)
    (hvoid : e = [] ↔ f = .void) : Meets (some e) f :=
  ⟨by simp [hlost], by rw [Option.some.injEq, hvoid]⟩

lemma meets_left (h : List.Forall₂ Meets found fs) :
    List.Forall₂ (fun e f => e = [] ↔ f = .void) found.reduceOption
      (fs.filter (· ≠ .lost)) := by
  induction h with
  | nil => exact .nil
  | @cons r f found fs hr _ ih =>
    cases r with
    | none =>
      have hlost : f = .lost := hr.1.mp rfl
      simpa [hlost] using ih
    | some e =>
      have hleft : f ≠ .lost := hr.1.not.mp (by simp)
      rw [List.reduceOption_cons_of_some, List.filter_cons_of_pos (by simpa using hleft)]
      exact .cons (by simpa using hr.2) ih

lemma meets_choice (h : List.Forall₂ Meets found fs) :
    Meets (some found.reduceOption.flatten) (fateOfChoice fs) := by
  have hflatten : found.reduceOption.flatten = [] ↔ .grown ∉ fs ∧ .kept ∉ fs := by
    induction h with
    | nil => simp
    | @cons r f found fs hr _ ih =>
      simp only [List.mem_cons, not_or]
      cases r with
      | none =>
        have hlost : f = .lost := hr.1.mp rfl
        simp [hlost, ih]
      | some e =>
        have hvoid : e = [] ↔ f = .void := by simpa using hr.2
        have hleft : f ≠ .lost := hr.1.not.mp (by simp)
        rw [List.reduceOption_cons_of_some, List.flatten_cons, List.append_eq_nil_iff, ih, hvoid]
        cases f <;> simp_all
  have hfate : fateOfChoice fs ≠ .lost ∧ (fateOfChoice fs = .void ↔ .grown ∉ fs ∧ .kept ∉ fs) := by
    unfold fateOfChoice
    split_ifs with hgrown hkept <;> simp_all
  exact .of_some hfate.1 (hflatten.trans hfate.2.symm)

lemma meets_conjunction (h : List.Forall₂ Meets found fs) (hne : fs ≠ []) :
    ∃ r, unlessNull (computeResultantComponent .all found.reduceOption) = .ok r ∧
      Meets r (fateOfConjunction fs) := by
  have hleft := meets_left h
  have hiff := fails_iff hleft
  simp only [fateOfConjunction, if_neg hne]
  by_cases hfails : Fails found.reduceOption
  · rw [if_pos (hiff.mp hfails)]
    exact ⟨none, by rw [computeResultantComponent_fails hfails, unlessNull], by simp [Meets]⟩
  · rw [if_neg (hiff.not.mp hfails)]
    refine ⟨some (product found.reduceOption),
      by rw [computeResultantComponent_product hfails, unlessNull], ?_⟩
    have hnil := product_eq_nil.trans (nil_mem_iff hleft)
    split_ifs with hvoid hgrown
    · exact .of_some (by simp) (by simp [hnil.mpr hvoid])
    · exact .of_some (by simp) (by simp [hnil.not.mpr hvoid])
    · exact .of_some (by simp) (by simp [hnil.not.mpr hvoid])

end Fates

section Outcomes

variable {α : Type} {registry : Option (PolicyRegistry α)} {deep : Bool} {normalize : InPlace α}
variable {components : List (Operator α)}

/-- The loop over components of which none is a reference that is resolved. -/
lemma children_meet {components : List (Operator α)}
    (h : ∀ c ∈ components, c.Untouched registry deep → c.stops registry deep = false →
      ∃ r, (normalizeChildInPlace normalize registry deep c).1 = .ok r ∧
        Meets r (c.fateIn registry deep))
    (hun : AllUntouched registry deep components) :
    (components.any (·.stops registry deep) = true →
        (normalizeChildren (normalizeChildInPlace normalize registry deep) components).1 =
          .error .null) ∧
      (components.any (·.stops registry deep) = false →
        ∃ found,
          (normalizeChildren (normalizeChildInPlace normalize registry deep) components).1 =
            .ok found ∧ List.Forall₂ Meets found (fatesIn registry deep components)) := by
  induction components with
  | nil => exact ⟨by simp, fun _ => ⟨[], rfl, .nil⟩⟩
  | cons c cs ih =>
    obtain ⟨hc, hcs⟩ := hun
    cases hstops : c.stops registry deep with
    | true =>
      have hnull := (@child_null_iff α registry deep normalize c).mpr hstops
      rw [normalizeChildren_error cs hnull]
      exact ⟨fun _ => rfl, by simp [hstops]⟩
    | false =>
      obtain ⟨r, hr, hmeets⟩ := h c List.mem_cons_self hc hstops
      have hrest := hcs.resolve_left (by simp [hstops])
      obtain ⟨hstopped, hall⟩ := ih (fun c' hc' => h c' (List.mem_cons_of_mem c hc')) hrest
      rw [normalizeChildren_ok cs hr, List.any_cons, hstops, Bool.false_or]
      constructor
      · intro hany
        dsimp only
        rw [hstopped hany]
        rfl
      · intro hany
        obtain ⟨found, hfound, hforall⟩ := hall hany
        refine ⟨r :: found, ?_, .cons hmeets hforall⟩
        dsimp only
        rw [hfound]
        rfl

lemma fatesIn_ne_nil (h : components ≠ []) :
    fatesIn registry deep components ≠ [] := by
  cases components with
  | nil => exact absurd rfl h
  | cons c cs => simp [fatesIn]

/-- One level of the recursion. -/
lemma normalizeOperatorInPlace_meets_succ {fuel : ℕ} (type : OperatorType)
    {components : List (Operator α)}
    (h : ∀ c ∈ components, c.Untouched registry deep → c.stops registry deep = false →
      ∃ r, (normalizeChildInPlace (normalizeOperatorInPlace registry deep fuel) registry deep
          c).1 = .ok r ∧ Meets r (c.fateIn registry deep))
    (hun : AllUntouched registry deep components) :
    ∃ r, unlessNull (normalizeOperatorInPlace registry deep (fuel + 1) type components).1 = .ok r ∧
      Meets r (fateWith type (components.any (·.stops registry deep))
        (fatesIn registry deep components)) := by
  rw [normalizeOperatorInPlace]
  by_cases hnil : components = []
  · subst hnil
    cases type with
    | exactlyOne => exact ⟨some [], rfl, by simp [Meets, fateWith, fatesIn, fateOfChoice]⟩
    | policy | all => exact ⟨some [[]], rfl, by simp [Meets, fateWith, fatesIn, fateOfConjunction]⟩
  rw [if_neg (by simpa using hnil)]
  obtain ⟨hstopped, hall⟩ := children_meet h hun
  dsimp only
  cases hany : components.any (·.stops registry deep) with
  | true =>
    rw [hstopped hany]
    exact ⟨none, rfl, by simp [Meets, fateWith]⟩
  | false =>
    obtain ⟨found, hfound, hforall⟩ := hall hany
    rw [hfound]
    cases type with
    | exactlyOne => exact ⟨_, rfl, meets_choice hforall⟩
    | policy | all => exact meets_conjunction hforall (fatesIn_ne_nil hnil)

/-- An operator in which no reference is resolved meets its fate. -/
lemma normalizeChildInPlace_meets (fuel : ℕ) (c : Operator α) (hun : c.Untouched registry deep)
    (hstops : c.stops registry deep = false) (hfuel : c.depth ≤ fuel) :
    ∃ r, (normalizeChildInPlace (normalizeOperatorInPlace registry deep fuel) registry deep
        c).1 = .ok r ∧ Meets r (c.fateIn registry deep) := by
  have hassertion : ∀ (fuel : ℕ) (a : α), (Operator.assertion a).stops registry deep = false →
      ∃ r, (normalizeChildInPlace (normalizeOperatorInPlace registry deep fuel) registry deep
          (.assertion a)).1 = .ok r ∧ Meets r ((Operator.assertion a).fateIn registry deep) := by
    intro fuel a hdeep
    have hfalse : deep = false := hdeep
    refine ⟨some [[.assertion a]], ?_, by simp [Meets, Operator.fateIn]⟩
    simp [normalizeChildInPlace, hfalse]
  have hreference : ∀ uri : Option String, (Operator.reference uri : Operator α).Untouched
      registry deep → (Operator.reference uri : Operator α).stops registry deep = true := by
    intro uri hnone
    have hnone' : referenced registry uri = none := hnone
    simp [Operator.stops, hnone']
  induction fuel generalizing c with
  | zero =>
    cases c with
    | assertion a => exact hassertion 0 a hstops
    | reference uri => simp [hreference uri hun] at hstops
    | policy name id components | all components | exactlyOne components =>
      simp [Operator.depth] at hfuel
  | succ fuel ih =>
    have hstep : ∀ (type : OperatorType) (components : List (Operator α)),
        AllUntouched registry deep components → depths components + 1 ≤ fuel + 1 →
        ∃ r, unlessNull (normalizeOperatorInPlace registry deep (fuel + 1) type components).1 =
            .ok r ∧
          Meets r (fateWith type (components.any (·.stops registry deep))
            (fatesIn registry deep components)) := by
      intro type components hun hdepth
      refine normalizeOperatorInPlace_meets_succ type (fun c hmem hc hstops => ?_) hun
      have := depth_le_depths hmem
      exact ih c hc hstops (by omega)
    cases c with
    | assertion a => exact hassertion (fuel + 1) a hstops
    | reference uri => simp [hreference uri hun] at hstops
    | policy name id components | all components => exact hstep .all components hun hfuel
    | exactlyOne components => exact hstep .exactlyOne components hun hfuel

lemma policy_meets (hun : AllUntouched registry deep components) :
    ∃ r, unlessNull (normalizeOperator (lookups registry) deep (depths components + 1) .policy
        components) = .ok r ∧ Meets r (policyFate registry deep components) := by
  rw [← normalizeOperatorInPlace_result]
  refine normalizeOperatorInPlace_meets_succ .policy (fun c hmem hc hstops => ?_) hun
  exact normalizeChildInPlace_meets _ c hc hstops (depth_le_depths hmem)

end Outcomes

section Laws

variable {α : Type} {registry : Option (PolicyRegistry α)} {deep : Bool} {policy : Policy α}

lemma normalizeInPlace_result (fuel : ℕ) : (normalizeInPlace registry deep fuel policy).1 =
    normalize (lookups registry) deep fuel policy.name policy.id policy.components := by
  rw [normalizeInPlace, normalize, normalizeOperatorInPlace_result]
  rfl

lemma normalizeInPlace_policy (fuel : ℕ) : (normalizeInPlace registry deep fuel policy).2 = policy ↔
    (normalizeOperatorInPlace registry deep fuel .policy policy.components).2 =
      policy.components := by
  cases policy
  simp [normalizeInPlace]

lemma normalize_null_iff {fuel : ℕ} {name id : Option String} {components : List (Operator α)} :
    normalize (lookups registry) deep fuel name id components = .error .null ↔
      unlessNull (normalizeOperator (lookups registry) deep fuel .policy components) =
        .ok none := by
  rw [normalize]
  cases normalizeOperator (lookups registry) deep fuel .policy components with
  | error stop => cases stop <;> simp [unlessNull, bind, Except.bind]
  | ok e => simp [unlessNull, bind, Except.bind, pure, Except.pure]

/-- The call does what it should exactly when no reference is resolved, and a policy with a
reference that cannot be resolved is lost. -/
theorem normalizes_iff (registry : Option (PolicyRegistry α)) (deep : Bool) (policy : Policy α) :
    Normalizes registry deep policy ↔
      AllUntouched registry deep policy.components ∧
        (Dangling registry policy.components →
          policyFate registry deep policy.components = .lost) := by
  have hreturns : AllUntouched registry deep policy.components →
      ∃ r, Returns (fun fuel => (normalizeInPlace registry deep fuel policy).1) r ∧
        (r = .error .null ↔ policyFate registry deep policy.components = .lost) := by
    intro hun
    obtain ⟨found, hfound, hmeets⟩ := policy_meets hun
    have hne : normalizeOperator (lookups registry) deep (depths policy.components + 1) .policy
        policy.components ≠ .error .fuel :=
      unlessNull_ne_fuel.mp (by rw [hfound]; simp)
    simp only [normalizeInPlace_result]
    refine ⟨_, normalize_returns hne, ?_⟩
    rw [normalize_null_iff, hfound, ← hmeets.1]
    simp
  constructor
  · intro h
    obtain ⟨r, hne, enough, hr⟩ := h.terminates
    have hresult := hr enough le_rfl
    simp only [normalizeInPlace_result] at hresult
    have hun : AllUntouched registry deep policy.components := by
      refine normalizeOperatorInPlace_untouched enough .policy _ ?_
        ((normalizeInPlace_policy enough).mp (h.unchanged enough))
      rw [normalizeOperatorInPlace_result]
      exact normalize_ne_fuel.mp (hresult ▸ hne)
    refine ⟨hun, fun hdangling => ?_⟩
    obtain ⟨r', hr', hlost⟩ := hreturns hun
    exact hlost.mp (hr'.unique (h.fails hdangling))
  · rintro ⟨hun, hlost⟩
    obtain ⟨r, hr, hnull⟩ := hreturns hun
    refine ⟨⟨r, hr⟩, fun n components hresolve => ?_, fun hdangling => ?_, fun fuel => ?_⟩
    · simp only [normalizeInPlace_result]
      exact normalize_resolved hresolve
    · rw [← hnull.mpr (hlost hdangling)]
      exact hr
    · exact (normalizeInPlace_policy fuel).mpr
        (normalizeOperatorInPlace_kept fuel .policy _ hun)

/-- A policy with the uri `#p` that refers to `#p`. -/
def selfReferring : Policy ℕ := ⟨none, some "p", [.reference (some "#p")]⟩

def selfRegistry : PolicyRegistry ℕ :=
  .create fun key => if key = "#p" then some selfReferring else none

lemma selfReferring_fuel (fuel : ℕ) (type : OperatorType) :
    normalizeOperator (lookups (some selfRegistry)) false fuel type selfReferring.components =
      .error .fuel := by
  induction fuel generalizing type with
  | zero => rfl
  | succ fuel ih =>
    have hchild : normalizeChild
        (normalizeOperator (lookups (some selfRegistry)) false fuel)
        (lookups (some selfRegistry)) false (.reference (some "#p")) = .error .fuel := by
      rw [normalizeChild_reference]
      exact congrArg unlessNull (ih .all)
    rw [normalizeOperator]
    simp only [selfReferring, List.isEmpty_cons, Bool.false_eq_true, if_false, List.mapM_cons,
      hchild]
    rfl

theorem selfReferring_not_normalizes : ¬ Normalizes (some selfRegistry) false selfReferring := by
  intro h
  obtain ⟨r, hne, enough, hr⟩ := h.terminates
  have hresult := hr enough le_rfl
  simp only [normalizeInPlace_result] at hresult
  exact normalize_ne_fuel.mp (hresult ▸ hne) (selfReferring_fuel enough .policy)

end Laws

end Axis2C.Neethi
