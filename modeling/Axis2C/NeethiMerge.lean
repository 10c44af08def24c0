import Axis2C.NeethiNormalize
import Mathlib.Data.Multiset.Bind

/-!
# Merging normalized policies

`neethi_engine_merge` takes the cross product of the alternatives of two normalized policies.
So does `neethi_engine_normalize` with a policy that has the two as its children, unless the
first of them has no alternatives: then it fails. What normalization gives is normalized again
to itself.
-/
namespace Axis2C.Neethi

section Source

variable {α : Type}

/-- The components of what `neethi_policy_get_exactlyone` returns. -/
def getExactlyone : Operator α → Option (List (Operator α))
  | .policy _ _ [.exactlyOne components] => some components
  | _ => none

/-- `neethi_policy_get_alternatives`. -/
def getAlternatives (policy : Operator α) : Option (List (Operator α)) := getExactlyone policy

def allComponents : Operator α → Option (List (Operator α))
  | .all components => some components
  | _ => none

/-- `neethi_engine_merge`. The alternatives have to be alls, which it does not look at. -/
def merge (policy1 policy2 : Operator α) : Except Stop (Operator α) :=
  match getExactlyone policy1, getExactlyone policy2 with
  | some exactlyone1, some exactlyone2 =>
    match exactlyone1.mapM allComponents, exactlyone2.mapM allComponents with
    | some alls1, some alls2 =>
      .ok (.policy none none [.exactlyOne ((getCrossProduct alls1 alls2).map .all)])
    | _, _ => .error .null
  | _, _ => .error .null

end Source

section Laws

variable {α : Type}

/-- One exactlyone of alls of assertions. -/
def Normalized (policy : Operator α) : Prop := ∃ name id alts, policy = normalForm name id alts

/-- Alternatives without their order and that of the assertions in them. -/
def bag {β : Type} (alts : List (List β)) : Multiset (Multiset β) :=
  Multiset.ofList (alts.map Multiset.ofList)

def unordered (policy : Operator α) : Option (Multiset (Multiset (Operator α))) :=
  (getAlternatives policy).bind fun alls => (alls.mapM allComponents).map bag

/-- What `normalize` makes of a policy it makes of the result again. -/
def NormalizesOnce (registry : Option (Registry α)) (deep : Bool) (name id : Option String)
    (components : List (Operator α)) : Prop :=
  ∀ fuel policy, normalize registry deep fuel name id components = .ok policy →
    ∃ components', policy = .policy name id components' ∧
      ∀ fuel', depths components' < fuel' → ∃ again,
        normalize registry deep fuel' name id components' = .ok again ∧
          getAlternatives again = getAlternatives policy

def MergesRight (p q : Operator α) : Prop :=
  ∃ merged, merge p q = .ok merged ∧ Normalized merged ∧
    ∀ registry name id fuel, depths [p, q] < fuel → ∃ policy,
      normalize registry false fuel name id [p, q] = .ok policy ∧
        getAlternatives policy = getAlternatives merged

/-- Merging is associative and commutative up to order. -/
structure MergeLaws (p q r : Operator α) : Prop where
  assoc : ∃ pq qr left right, merge p q = .ok pq ∧ merge pq r = .ok left ∧ merge q r = .ok qr ∧
    merge p qr = .ok right ∧ getAlternatives left = getAlternatives right
  comm : ∃ pq qp, merge p q = .ok pq ∧ merge q p = .ok qp ∧ unordered pq = unordered qp

end Laws

section NormalForms

variable {α : Type} {registry : Option (Registry α)} {deep : Bool} {alts : List (List α)}
variable {fuel : ℕ} {inner : List (ExactlyOne α)}

lemma normalForm_eq (name id : Option String) (alts : List (List α)) :
    normalForm name id alts = .policy name id [.exactlyOne ((wrapped alts).map .all)] := by
  simp [normalForm, wrapped, Function.comp_def]

lemma getAlternatives_normalForm (name id : Option String) (alts : List (List α)) :
    getAlternatives (normalForm name id alts) = some ((wrapped alts).map .all) := by
  rw [normalForm_eq]
  rfl

lemma mapM_allComponents (e : ExactlyOne α) : (e.map .all).mapM allComponents = some e := by
  induction e with
  | nil => rfl
  | cons alt e ih =>
    rw [List.map_cons, List.mapM_cons, ih]
    rfl

lemma merge_normalForm (name id name' id' : Option String) (ps qs : List (List α)) :
    merge (normalForm name id ps) (normalForm name' id' qs) =
      .ok (normalForm none none (crossProduct ps qs)) := by
  have hp : getExactlyone (normalForm name id ps) = some ((wrapped ps).map .all) :=
    getAlternatives_normalForm name id ps
  have hq : getExactlyone (normalForm name' id' qs) = some ((wrapped qs).map .all) :=
    getAlternatives_normalForm name' id' qs
  rw [merge, hp, hq]
  simp only [mapM_allComponents]
  rw [normalForm_eq, wrapped_crossProduct]
  rfl

/-- What the functions under `normalize` give: alternatives of assertions, which are all empty
if assertions were to be normalized too. -/
def Plain (deep : Bool) (e : ExactlyOne α) : Prop :=
  ∃ alts, e = wrapped alts ∧ (deep = true → ∀ alt ∈ alts, alt = [])

lemma plain_nil : Plain deep ([] : ExactlyOne α) := ⟨[], rfl, fun _ alt h => by cases h⟩

lemma plain_unit : Plain deep ([[]] : ExactlyOne α) :=
  ⟨[[]], rfl, fun _ _ h => List.mem_singleton.mp h⟩

lemma Plain.append {e e' : ExactlyOne α} (h : Plain deep e) (h' : Plain deep e') :
    Plain deep (e ++ e') := by
  obtain ⟨alts, rfl, hempty⟩ := h
  obtain ⟨alts', rfl, hempty'⟩ := h'
  refine ⟨alts ++ alts', by rw [wrapped, wrapped, wrapped, List.map_append], ?_⟩
  intro hdeep alt hmem
  obtain hmem | hmem := List.mem_append.mp hmem
  · exact hempty hdeep alt hmem
  · exact hempty' hdeep alt hmem

lemma plain_flatten (h : ∀ e ∈ inner, Plain deep e) :
    Plain deep inner.flatten := by
  induction inner with
  | nil => exact plain_nil
  | cons e inner ih =>
    rw [List.flatten_cons]
    exact (h e List.mem_cons_self).append (ih fun e' he' => h e' (List.mem_cons_of_mem e he'))

lemma Plain.crossProduct {e e' : ExactlyOne α} (h : Plain deep e) (h' : Plain deep e') :
    Plain deep (Neethi.crossProduct e e') := by
  obtain ⟨alts, rfl, hempty⟩ := h
  obtain ⟨alts', rfl, hempty'⟩ := h'
  refine ⟨Neethi.crossProduct alts alts', (wrapped_crossProduct alts alts').symm, ?_⟩
  intro hdeep alt hmem
  obtain ⟨all1, hall1, hmem⟩ := List.mem_flatMap.mp hmem
  obtain ⟨all2, hall2, rfl⟩ := List.mem_map.mp hmem
  rw [hempty hdeep all1 hall1, hempty' hdeep all2 hall2]
  rfl

lemma plain_product (h : ∀ e ∈ inner, Plain deep e) :
    Plain deep (product inner) := by
  induction inner with
  | nil => exact plain_unit
  | cons e inner ih =>
    rw [product_cons]
    exact (h e List.mem_cons_self).crossProduct
      (ih fun e' he' => h e' (List.mem_cons_of_mem e he'))

lemma plain_resultant {type : OperatorType} {e : ExactlyOne α} (h : ∀ e ∈ inner, Plain deep e)
    (hresult : computeResultantComponent type inner = .ok e) :
    Plain deep e := by
  have hconjunction (hresult : computeResultantComponent .all inner = .ok e) : Plain deep e := by
    by_cases hfails : Fails inner
    · rw [computeResultantComponent_fails hfails] at hresult
      cases hresult
    · rw [computeResultantComponent_product hfails] at hresult
      obtain rfl := Except.ok.inj hresult
      exact plain_product h
  cases type with
  | exactlyOne =>
    obtain rfl := Except.ok.inj hresult
    exact plain_flatten h
  | policy | all => exact hconjunction hresult

lemma plain_child {fuel : ℕ} {c : Operator α} {r : Option (ExactlyOne α)}
    (ih : ∀ type components e, AllReferenceFree components →
      normalizeOperator registry deep fuel type components = .ok e → Plain deep e)
    (hfree : c.ReferenceFree)
    (h : normalizeChild (normalizeOperator registry deep fuel) registry deep c = .ok r) :
    ∀ e ∈ r, Plain deep e := by
  have hinner (type : OperatorType) (components : List (Operator α))
      (hcomponents : AllReferenceFree components)
      (h : unlessNull (normalizeOperator registry deep fuel type components) = .ok r) :
      ∀ e ∈ r, Plain deep e := by
    intro e he
    obtain rfl := Option.mem_def.mp he
    cases hresult : normalizeOperator registry deep fuel type components with
    | error stop => cases stop <;> simp [hresult, unlessNull] at h
    | ok e' =>
      simp only [hresult, unlessNull, Except.ok.injEq, Option.some.injEq] at h
      exact h ▸ ih type components e' hcomponents hresult
  cases c with
  | assertion a =>
    cases deep with
    | true => cases h
    | false =>
      intro e he
      obtain rfl := Except.ok.inj h
      obtain rfl := Option.some.inj he
      exact ⟨[[a]], rfl, fun hdeep => by cases hdeep⟩
  | reference uri => exact hfree.elim
  | policy name id components | all components => exact hinner .all components hfree h
  | exactlyOne components => exact hinner .exactlyOne components hfree h

lemma mapM_plain {child : Operator α → Except Stop (Option (ExactlyOne α))}
    {components : List (Operator α)} {found : List (Option (ExactlyOne α))}
    (h : ∀ c ∈ components, ∀ r, child c = .ok r → ∀ e ∈ r, Plain deep e)
    (hfound : components.mapM child = .ok found) : ∀ e ∈ found.reduceOption, Plain deep e := by
  induction components generalizing found with
  | nil =>
    obtain rfl := Except.ok.inj hfound
    exact fun e he => by cases he
  | cons c cs ih =>
    rw [List.mapM_cons] at hfound
    cases hchild : child c with
    | error stop => simp [hchild, bind, Except.bind] at hfound
    | ok r =>
      cases hrest : cs.mapM child with
      | error stop => simp [hchild, hrest, bind, Except.bind] at hfound
      | ok rest =>
        rw [hchild, hrest] at hfound
        obtain rfl := Except.ok.inj hfound
        have hr := h c List.mem_cons_self r hchild
        have hcs := ih (fun c' hc' => h c' (List.mem_cons_of_mem c hc')) hrest
        cases r with
        | none => exact hcs
        | some e =>
          intro e' he'
          rw [List.reduceOption_cons_of_some] at he'
          obtain rfl | he' := List.mem_cons.mp he'
          · exact hr e' rfl
          · exact hcs e' he'

/-- Without references there are only assertions in the result. -/
lemma plain_normalizeOperator {type : OperatorType} {components : List (Operator α)}
    {e : ExactlyOne α} (hfree : AllReferenceFree components)
    (h : normalizeOperator registry deep fuel type components = .ok e) : Plain deep e := by
  induction fuel generalizing type components e with
  | zero => cases h
  | succ fuel ih =>
    rw [normalizeOperator] at h
    split at h
    · obtain rfl := Except.ok.inj h
      split
      · exact plain_nil
      · exact plain_unit
    · cases hfound : components.mapM
          (normalizeChild (normalizeOperator registry deep fuel) registry deep) with
      | error stop => simp [hfound, bind, Except.bind] at h
      | ok found =>
        rw [hfound] at h
        have hplain : ∀ e ∈ found.reduceOption, Plain deep e :=
          mapM_plain (fun c hc r hr => plain_child (fun _ _ _ => ih)
            (allReferenceFree_iff.mp hfree c hc) hr) hfound
        exact plain_resultant hplain h

lemma normalizeOperator_assertions {alt : List α} (h : deep = true → alt = []) :
    normalizeOperator registry deep (fuel + 1) .all (alt.map .assertion) =
      .ok [alt.map .assertion] := by
  cases alt with
  | nil => rfl
  | cons a alt =>
    obtain rfl : deep = false := Bool.eq_false_of_not_eq_true fun hdeep => by cases h hdeep
    have hfound (as : List α) : (as.map Operator.assertion).mapM
        (normalizeChild (normalizeOperator registry false fuel) registry false) =
          .ok (as.map fun a => some [[.assertion a]]) := by
      induction as with
      | nil => rfl
      | cons a as ih =>
        rw [List.map_cons, List.mapM_cons, ih]
        rfl
    have hleft (as : List α) : (as.map fun a => some [[Operator.assertion a]]).reduceOption =
        as.map fun a => [[.assertion a]] := by
      induction as with
      | nil => rfl
      | cons a as ih => rw [List.map_cons, List.reduceOption_cons_of_some, ih, List.map_cons]
    have hproduct (as : List α) :
        product (as.map fun a => [[Operator.assertion a]]) = [as.map .assertion] := by
      induction as with
      | nil => rfl
      | cons a as ih =>
        rw [List.map_cons, product_cons, ih]
        rfl
    have hfails : ¬ Fails ((a :: alt).map fun a => [[Operator.assertion a]]) := by
      simp [Fails]
    rw [normalizeOperator, if_neg (by simp), hfound]
    change computeResultantComponent .all (List.reduceOption _) = _
    rw [hleft, computeResultantComponent_product hfails, hproduct]

/-- The exactlyone of a normal form is its own result. -/
lemma normalizeOperator_wrapped (h : deep = true → ∀ alt ∈ alts, alt = [])
    (hfuel : depths ((wrapped alts).map .all) < fuel) :
    normalizeOperator registry deep fuel .exactlyOne ((wrapped alts).map .all) =
      .ok (wrapped alts) := by
  obtain ⟨fuel, rfl⟩ := Nat.exists_eq_add_one_of_ne_zero (Nat.ne_zero_of_lt hfuel)
  cases alts with
  | nil => rfl
  | cons alt alts =>
    obtain ⟨fuel, rfl⟩ : ∃ k, fuel = k + 1 := by
      refine Nat.exists_eq_add_one_of_ne_zero fun hzero => ?_
      simp [wrapped, depths, Operator.depth, hzero] at hfuel
    have hfound (e : List (List α)) (he : deep = true → ∀ alt ∈ e, alt = []) :
        ((wrapped e).map Operator.all).mapM
          (normalizeChild (normalizeOperator registry deep (fuel + 1)) registry deep) =
            .ok ((wrapped e).map fun alt => some [alt]) := by
      induction e with
      | nil => rfl
      | cons alt e ih =>
        have halt := @normalizeOperator_assertions _ registry deep fuel _
          fun hdeep => he hdeep alt List.mem_cons_self
        have hrest := ih fun hdeep alt' hmem => he hdeep alt' (List.mem_cons_of_mem alt hmem)
        rw [wrapped, List.map_cons, List.map_cons, List.mapM_cons]
        rw [wrapped] at hrest
        rw [hrest, normalizeChild, halt]
        rfl
    have hleft (e : ExactlyOne α) :
        ((e.map fun alt => some [alt]).reduceOption).flatten = e := by
      induction e with
      | nil => rfl
      | cons alt e ih =>
        rw [List.map_cons, List.reduceOption_cons_of_some, List.flatten_cons, ih]
        rfl
    rw [normalizeOperator, if_neg (by simp [wrapped]), hfound _ h]
    change Except.ok (List.flatten (List.reduceOption _)) = _
    rw [hleft]

lemma normalizeOperator_normalForm (h : deep = true → ∀ alt ∈ alts, alt = [])
    (hfuel : depths [.exactlyOne ((wrapped alts).map .all)] < fuel) (type : OperatorType)
    (htype : type ≠ .exactlyOne) :
    normalizeOperator registry deep fuel type [.exactlyOne ((wrapped alts).map .all)] =
      .ok (wrapped alts) := by
  obtain ⟨fuel, rfl⟩ := Nat.exists_eq_add_one_of_ne_zero (Nat.ne_zero_of_lt hfuel)
  have hinner : normalizeOperator registry deep fuel .exactlyOne ((wrapped alts).map .all) =
      .ok (wrapped alts) := by
    refine normalizeOperator_wrapped h ?_
    simp only [depths, Operator.depth] at hfuel
    omega
  rw [normalizeOperator, if_neg (by simp), List.mapM_cons, normalizeChild, hinner]
  cases type with
  | exactlyOne => exact absurd rfl htype
  | policy | all => rfl

/-- Two normalized policies in one: the first must have an alternative. -/
lemma normalizeOperator_pair (name id name' id' : Option String) (ps qs : List (List α))
    (hfuel : depths [normalForm name id ps, normalForm name' id' qs] < fuel) :
    normalizeOperator registry false fuel .policy [normalForm name id ps, normalForm name' id' qs] =
      if ps = [] then .error .null else .ok (wrapped (crossProduct ps qs)) := by
  obtain ⟨fuel, rfl⟩ := Nat.exists_eq_add_one_of_ne_zero (Nat.ne_zero_of_lt hfuel)
  simp only [normalForm_eq, depths, Operator.depth] at hfuel
  have hp : normalizeOperator registry false fuel .all [.exactlyOne ((wrapped ps).map .all)] =
      .ok (wrapped ps) := by
    refine normalizeOperator_normalForm (fun hdeep => by cases hdeep) ?_ .all (by decide)
    simp only [depths, Operator.depth]
    omega
  have hq : normalizeOperator registry false fuel .all [.exactlyOne ((wrapped qs).map .all)] =
      .ok (wrapped qs) := by
    refine normalizeOperator_normalForm (fun hdeep => by cases hdeep) ?_ .all (by decide)
    simp only [depths, Operator.depth]
    omega
  have hfound : [normalForm name id ps, normalForm name' id' qs].mapM
      (normalizeChild (normalizeOperator registry false fuel) registry false) =
        .ok [some (wrapped ps), some (wrapped qs)] := by
    rw [normalForm_eq, normalForm_eq, List.mapM_cons, List.mapM_cons, normalizeChild,
      normalizeChild, hp, hq]
    rfl
  rw [normalizeOperator, if_neg (by simp), hfound]
  change computeResultantComponent .all [wrapped ps, wrapped qs] = _
  by_cases hps : ps = []
  · have hfails : Fails [wrapped ps, wrapped qs] := by simp [Fails, hps]
    rw [if_pos hps, computeResultantComponent_fails hfails]
  · have hnot : ¬ Fails [wrapped ps, wrapped qs] := by simp [Fails, hps]
    rw [if_neg hps, computeResultantComponent_product hnot, wrapped_crossProduct, product_cons,
      product_cons, product_nil, crossProduct_unit]

end NormalForms

section Results

variable {α : Type} {registry : Option (Registry α)} {deep : Bool}

lemma normalizesOnce (name id : Option String) {components : List (Operator α)}
    (hfree : AllReferenceFree components) :
    NormalizesOnce registry deep name id components := by
  intro fuel policy h
  cases hresult : normalizeOperator registry deep fuel .policy components with
  | error stop => simp [normalize, hresult, bind, Except.bind] at h
  | ok e =>
    obtain ⟨alts, rfl, hempty⟩ := plain_normalizeOperator hfree hresult
    have hpolicy : policy = .policy name id [.exactlyOne ((wrapped alts).map .all)] := by
      rw [normalize, hresult] at h
      exact (Except.ok.inj h).symm
    refine ⟨_, hpolicy, fun fuel' hfuel => ⟨policy, ?_, rfl⟩⟩
    rw [normalize, normalizeOperator_normalForm hempty hfuel .policy (by decide), hpolicy]
    rfl

/-- `merge` succeeds on any normalized policies, `normalize` only if the first of them has an
alternative. -/
lemma mergesRight_iff {p q : Operator α} (hp : Normalized p) (hq : Normalized q) :
    MergesRight p q ↔ getAlternatives p ≠ some [] := by
  obtain ⟨name, id, ps, rfl⟩ := hp
  obtain ⟨name', id', qs, rfl⟩ := hq
  have hsome : getAlternatives (normalForm name id ps) ≠ some [] ↔ ps ≠ [] := by
    rw [getAlternatives_normalForm]
    simp
  rw [hsome]
  have hpair (registry : Option (Registry α)) {fuel : ℕ}
      (hfuel : depths [normalForm name id ps, normalForm name' id' qs] < fuel) :=
    @normalizeOperator_pair _ registry _ name id name' id' ps qs hfuel
  constructor
  · rintro ⟨merged, -, -, hnormalize⟩ hps
    obtain ⟨policy, hpolicy, -⟩ := hnormalize none none none _ (Nat.lt_succ_self _)
    rw [normalize, hpair none (Nat.lt_succ_self _), if_pos hps] at hpolicy
    cases hpolicy
  · intro hps
    refine ⟨_, merge_normalForm name id name' id' ps qs, ⟨none, none, _, rfl⟩, ?_⟩
    intro registry name'' id'' fuel hfuel
    refine ⟨normalForm name'' id'' (crossProduct ps qs), ?_, ?_⟩
    · rw [normalize, hpair registry hfuel, if_neg hps, normalForm_eq]
      rfl
    · rw [getAlternatives_normalForm, getAlternatives_normalForm]

lemma unordered_normalForm (name id : Option String) (alts : List (List α)) :
    unordered (normalForm name id alts) = some (bag (wrapped alts)) := by
  rw [unordered, getAlternatives_normalForm, Option.bind_some, mapM_allComponents, Option.map_some]

lemma bag_crossProduct {β : Type} (xs ys : List (List β)) :
    bag (crossProduct xs ys) = (bag xs).bind fun x => (bag ys).map fun y => x + y := by
  induction xs with
  | nil => rfl
  | cons x xs ih =>
    have hcons : bag (x :: xs) = Multiset.ofList x ::ₘ bag xs := rfl
    have happend : bag (ys.map (x ++ ·) ++ crossProduct xs ys) =
        bag (ys.map (x ++ ·)) + bag (crossProduct xs ys) := by
      rw [bag, List.map_append, ← Multiset.coe_add]
      rfl
    have hhead : bag (ys.map (x ++ ·)) = (bag ys).map fun y => Multiset.ofList x + y := by
      rw [bag, bag, Multiset.map_coe, List.map_map, List.map_map]
      rfl
    rw [crossProduct_cons, happend, ih, hcons, Multiset.cons_bind, hhead]

lemma mergeLaws {p q r : Operator α} (hp : Normalized p) (hq : Normalized q)
    (hr : Normalized r) : MergeLaws p q r := by
  obtain ⟨name, id, ps, rfl⟩ := hp
  obtain ⟨name', id', qs, rfl⟩ := hq
  obtain ⟨name'', id'', rs, rfl⟩ := hr
  constructor
  · refine ⟨_, _, _, _, merge_normalForm .., merge_normalForm .., merge_normalForm ..,
      merge_normalForm .., ?_⟩
    rw [crossProduct_assoc]
  · refine ⟨_, _, merge_normalForm .., merge_normalForm .., ?_⟩
    rw [unordered_normalForm, unordered_normalForm, wrapped_crossProduct, wrapped_crossProduct,
      bag_crossProduct, bag_crossProduct, Multiset.bind_map_comm]
    simp only [add_comm]

/-- Normalizing twice is normalizing once; merging two normalized policies is associative, and
commutative up to order; and it gives the alternatives of the conjunction of the two exactly if
the first has one. -/
theorem normalize_and_merge_laws (registry : Option (Registry α)) :
    (∀ deep name id (components : List (Operator α)), AllReferenceFree components →
      NormalizesOnce registry deep name id components) ∧
    (∀ p q : Operator α, Normalized p → Normalized q →
      (MergesRight p q ↔ getAlternatives p ≠ some [])) ∧
    ∀ p q r : Operator α, Normalized p → Normalized q → Normalized r → MergeLaws p q r :=
  ⟨fun _ name id _ hfree => normalizesOnce name id hfree, fun _ _ => mergesRight_iff,
    fun _ _ _ => mergeLaws⟩

theorem merge_of_two_alternatives :
    MergesRight (normalForm none none [[1], [2]]) (normalForm none none [[3]]) :=
  ((normalize_and_merge_laws none).2.1 _ _ ⟨none, none, [[1], [2]], rfl⟩
    ⟨none, none, [[3]], rfl⟩).mpr (by rw [getAlternatives_normalForm]; simp [wrapped])

/-- A policy without alternatives in front of one that has an alternative: `merge` gives the
policy without alternatives, and `normalize` fails. -/
theorem conjunction_with_nothing_fails :
    merge (normalForm none none []) (normalForm none none [[1]]) =
        .ok (normalForm none none ([] : List (List ℕ))) ∧
      normalize none false 5 none none
        [normalForm none none [], normalForm none none [[1]]] = .error .null ∧
      ¬ ∀ p q : Operator ℕ, Normalized p → Normalized q → MergesRight p q := by
  refine ⟨rfl, rfl, fun hall => ?_⟩
  obtain ⟨merged, -, -, hnormalize⟩ :=
    hall (normalForm none none []) (normalForm none none [[1]]) ⟨_, _, _, rfl⟩ ⟨_, _, _, rfl⟩
  obtain ⟨policy, hpolicy, -⟩ := hnormalize none none none 5 (by decide)
  cases hpolicy

end Results

end Axis2C.Neethi
