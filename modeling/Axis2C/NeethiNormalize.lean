import Mathlib.Algebra.BigOperators.Group.List.Basic
import Mathlib.Data.List.ReduceOption
import Mathlib.Tactic.Linarith

/-!
# Policy normalization

`neethi_engine_normalize` and the three functions under it, and what a policy means: the
list of its alternatives. A conjunct that cannot be normalized is skipped by its caller,
so `fate` follows through the policy what happens to each operator: it is lost, its
alternatives are kept, or some are there that it does not have.
-/
namespace Axis2C.Neethi

section Model

/-- `neethi_operator_t` with its value. What an assertion says is left open. -/
inductive Operator (α : Type)
  | policy (name id : Option String) (components : List (Operator α))
  | all (components : List (Operator α))
  | exactlyOne (components : List (Operator α))
  | assertion (value : α)
  | reference (uri : Option String)

/-- The types of the operators that are normalized. -/
inductive OperatorType
  | policy
  | all
  | exactlyOne
  deriving DecidableEq, Repr

/-- Why there is no exactlyone: the function returned `NULL`, or the fuel of the model ran
out. -/
inductive Stop
  | null
  | fuel
  deriving DecidableEq, Repr

/-- The components of the policies, by uri. -/
abbrev Registry (α : Type) := String → Option (List (Operator α))

abbrev ExactlyOne (α : Type) := List (List (Operator α))

/-- Every list of the first argument in front of every list of the second. -/
def crossProduct {β : Type} (xs ys : List (List β)) : List (List β) :=
  xs.flatMap fun all1 => ys.map fun all2 => all1 ++ all2

variable {α : Type}

/-- `neethi_engine_get_cross_product`. -/
def getCrossProduct (exactlyone1 exactlyone2 : ExactlyOne α) : ExactlyOne α :=
  crossProduct exactlyone1 exactlyone2

/-- The loop over the components after the first. -/
def crossProducts (exactlyone : ExactlyOne α) : List (ExactlyOne α) → ExactlyOne α
  | [] => exactlyone
  | current :: rest =>
    if current.isEmpty then current
    else crossProducts (getCrossProduct exactlyone current) rest

/-- `neethi_engine_compute_resultant_component`. -/
def computeResultantComponent (type : OperatorType) (inner : List (ExactlyOne α)) :
    Except Stop (ExactlyOne α) :=
  match type with
  | .exactlyOne => .ok inner.flatten
  | .policy | .all =>
    match inner with
    | [] => .error .null
    | [exactlyone] => .ok exactlyone
    | exactlyone :: rest =>
      if exactlyone.isEmpty then .error .null else .ok (crossProducts exactlyone rest)

/-- A component that comes back as `NULL` is not added to the list. -/
def unlessNull : Except Stop (ExactlyOne α) → Except Stop (Option (ExactlyOne α))
  | .ok exactlyone => .ok (some exactlyone)
  | .error .null => .ok none
  | .error .fuel => .error .fuel

/-- One turn of the loop of `neethi_engine_normalize_operator`. An error ends the loop and
the function. -/
def normalizeChild (normalize : OperatorType → List (Operator α) → Except Stop (ExactlyOne α))
    (registry : Option (Registry α)) (deep : Bool) :
    Operator α → Except Stop (Option (ExactlyOne α))
  | .assertion a => if deep then .error .null else .ok (some [[.assertion a]])
  | .policy _ _ components => unlessNull (normalize .all components)
  | .reference uri =>
    match uri, registry with
    | some uri, some lookup =>
      match lookup uri with
      | some components => unlessNull (normalize .all components)
      | none => .error .null
    | _, _ => .error .null
  | .all components => unlessNull (normalize .all components)
  | .exactlyOne components => unlessNull (normalize .exactlyOne components)

/-- `neethi_engine_normalize_operator` on an operator of this type with these components.
The registry can make a policy contain itself, hence the fuel. -/
def normalizeOperator (registry : Option (Registry α)) (deep : Bool) :
    ℕ → OperatorType → List (Operator α) → Except Stop (ExactlyOne α)
  | 0, _, _ => .error .fuel
  | fuel + 1, type, components =>
    if components.isEmpty then .ok (if type = .exactlyOne then [] else [[]])
    else do
      let found ← components.mapM
        (normalizeChild (normalizeOperator registry deep fuel) registry deep)
      computeResultantComponent type found.reduceOption

/-- `neethi_engine_normalize`. -/
def normalize (registry : Option (Registry α)) (deep : Bool) (fuel : ℕ)
    (name id : Option String) (components : List (Operator α)) : Except Stop (Operator α) := do
  let exactlyone ← normalizeOperator registry deep fuel .policy components
  return .policy name id [.exactlyOne (exactlyone.map .all)]

end Model

section Meaning

variable {α : Type}

mutual

/-- The alternatives that a policy offers. A reference alone offers none. -/
def alternatives : Operator α → List (List α)
  | .policy _ _ components => conjoined components
  | .all components => conjoined components
  | .exactlyOne components => offered components
  | .assertion a => [[a]]
  | .reference _ => []

def conjoined : List (Operator α) → List (List α)
  | [] => [[]]
  | c :: cs => crossProduct (alternatives c) (conjoined cs)

def offered : List (Operator α) → List (List α)
  | [] => []
  | c :: cs => alternatives c ++ offered cs

end

mutual

def Operator.ReferenceFree : Operator α → Prop
  | .policy _ _ components => AllReferenceFree components
  | .all components => AllReferenceFree components
  | .exactlyOne components => AllReferenceFree components
  | .assertion _ => True
  | .reference _ => False

def AllReferenceFree : List (Operator α) → Prop
  | [] => True
  | c :: cs => c.ReferenceFree ∧ AllReferenceFree cs

end

mutual

def Operator.depth : Operator α → ℕ
  | .policy _ _ components => depths components + 1
  | .all components => depths components + 1
  | .exactlyOne components => depths components + 1
  | .assertion _ => 0
  | .reference _ => 0

def depths : List (Operator α) → ℕ
  | [] => 0
  | c :: cs => max c.depth (depths cs)

end

/-- What becomes of an operator. -/
inductive Fate
  /-- There is no exactlyone for it. -/
  | lost
  /-- The exactlyone has no alternatives. -/
  | void
  /-- The exactlyone has the alternatives of the operator, at least one. -/
  | kept
  /-- The exactlyone has alternatives that the operator does not have. -/
  | grown
  deriving DecidableEq, Repr

/-- The children that are lost do not matter. -/
def fateOfChoice (fates : List Fate) : Fate :=
  if .grown ∈ fates then .grown else if .kept ∈ fates then .kept else .void

/-- A conjunction is lost when none of its children is left, and when the first of several
that are left is void. Any other void child makes it void. -/
def fateOfConjunction (fates : List Fate) : Fate :=
  let left := fates.filter (· ≠ .lost)
  if fates = [] then .kept
  else if left = [] ∨ (2 ≤ left.length ∧ left.head? = some .void) then .lost
  else if .void ∈ left then .void
  else if .lost ∈ fates ∨ .grown ∈ fates then .grown
  else .kept

mutual

def fate : Operator α → Fate
  | .policy _ _ components => fateOfConjunction (fates components)
  | .all components => fateOfConjunction (fates components)
  | .exactlyOne components => fateOfChoice (fates components)
  | .assertion _ => .kept
  | .reference _ => .lost

def fates : List (Operator α) → List Fate
  | [] => []
  | c :: cs => fate c :: fates cs

end

end Meaning

section CrossProducts

variable {β γ : Type}

/-- All the ways to take one list out of each. -/
def product (xss : List (List (List β))) : List (List β) := xss.foldr crossProduct [[]]

@[simp] lemma product_nil : product ([] : List (List (List β))) = [[]] := rfl

@[simp] lemma product_cons (xs : List (List β)) (xss : List (List (List β))) :
    product (xs :: xss) = crossProduct xs (product xss) := rfl

@[simp] lemma crossProduct_nil_left (ys : List (List β)) : crossProduct [] ys = [] := rfl

lemma crossProduct_cons (x : List β) (xs ys : List (List β)) :
    crossProduct (x :: xs) ys = ys.map (x ++ ·) ++ crossProduct xs ys := rfl

@[simp] lemma crossProduct_nil_right (xs : List (List β)) : crossProduct xs [] = [] := by
  induction xs with
  | nil => rfl
  | cons x xs ih => simp [crossProduct_cons, ih]

@[simp] lemma crossProduct_unit (xs : List (List β)) : crossProduct xs [[]] = xs := by
  induction xs with
  | nil => rfl
  | cons x xs ih => simp [crossProduct_cons, ih]

lemma crossProduct_append (xs ys zs : List (List β)) :
    crossProduct (xs ++ ys) zs = crossProduct xs zs ++ crossProduct ys zs := by
  simp [crossProduct]

lemma crossProduct_map_append (x : List β) (ys zs : List (List β)) :
    crossProduct (ys.map (x ++ ·)) zs = (crossProduct ys zs).map (x ++ ·) := by
  induction ys with
  | nil => rfl
  | cons y ys ih =>
    simp only [List.map_cons, crossProduct_cons, ih, List.map_append, List.map_map]
    simp [Function.comp_def]

lemma crossProduct_assoc (xs ys zs : List (List β)) :
    crossProduct (crossProduct xs ys) zs = crossProduct xs (crossProduct ys zs) := by
  induction xs with
  | nil => rfl
  | cons x xs ih =>
    rw [crossProduct_cons, crossProduct_append, crossProduct_map_append, ih,
      crossProduct_cons x xs]

@[simp] lemma length_crossProduct (xs ys : List (List β)) :
    (crossProduct xs ys).length = xs.length * ys.length := by
  induction xs with
  | nil => simp
  | cons x xs ih =>
    rw [crossProduct_cons, List.length_append, ih, List.length_map, List.length_cons,
      Nat.succ_mul, Nat.add_comm]

lemma crossProduct_eq_nil {xs ys : List (List β)} :
    crossProduct xs ys = [] ↔ xs = [] ∨ ys = [] := by
  rw [← List.length_eq_zero_iff, length_crossProduct, Nat.mul_eq_zero,
    List.length_eq_zero_iff, List.length_eq_zero_iff]

lemma map_crossProduct (f : β → γ) (xs ys : List (List β)) :
    (crossProduct xs ys).map (List.map f) =
      crossProduct (xs.map (List.map f)) (ys.map (List.map f)) := by
  induction xs with
  | nil => rfl
  | cons x xs ih =>
    simp only [crossProduct_cons, List.map_append, ih, List.map_cons, List.map_map]
    simp [Function.comp_def]

lemma product_eq_nil {xss : List (List (List β))} : product xss = [] ↔ [] ∈ xss := by
  induction xss with
  | nil => simp
  | cons xs xss ih => rw [product_cons, crossProduct_eq_nil, ih, List.mem_cons, eq_comm]

end CrossProducts

section Resultants

variable {α : Type}

/-- The loop stops at an empty exactlyone, and the product is empty from there on. -/
lemma crossProducts_eq (e : ExactlyOne α) (rest : List (ExactlyOne α)) :
    crossProducts e rest = product (e :: rest) := by
  induction rest generalizing e with
  | nil => simp [crossProducts]
  | cons current rest ih =>
    rw [crossProducts]
    split
    next h =>
      have hcurrent : current = [] := List.isEmpty_iff.mp h
      simp [hcurrent]
    next h => rw [ih, getCrossProduct, product_cons, product_cons, product_cons,
      crossProduct_assoc]

/-- The two ways in which a conjunction of these exactlyones fails. -/
def Fails (inner : List (ExactlyOne α)) : Prop :=
  inner = [] ∨ (2 ≤ inner.length ∧ inner.head? = some [])

lemma computeResultantComponent_fails {inner : List (ExactlyOne α)} (h : Fails inner) :
    computeResultantComponent .all inner = .error .null := by
  match inner, h with
  | [], _ => rfl
  | [e], h => simp [Fails] at h
  | e :: e' :: rest, h =>
    have he : e = [] := by simpa [Fails] using h
    simp [computeResultantComponent, he]

lemma computeResultantComponent_product {inner : List (ExactlyOne α)} (h : ¬ Fails inner) :
    computeResultantComponent .all inner = .ok (product inner) := by
  match inner, h with
  | [], h => simp [Fails] at h
  | [e], _ => simp [computeResultantComponent]
  | e :: e' :: rest, h =>
    have he : e ≠ [] := by simpa [Fails] using h
    simp [computeResultantComponent, crossProducts_eq, he]

end Resultants

section Following

variable {α : Type}
variable {alts : List (List α)} {f : Fate} {r : Option (ExactlyOne α)}

/-- The alternatives as an exactlyone of alls of assertions. -/
def wrapped (alts : List (List α)) : ExactlyOne α := alts.map (List.map .assertion)

@[simp] lemma wrapped_eq_nil : wrapped alts = [] ↔ alts = [] :=
  List.map_eq_nil_iff

@[simp] lemma length_wrapped (alts : List (List α)) : (wrapped alts).length = alts.length :=
  List.length_map _

lemma wrapped_crossProduct (xs ys : List (List α)) :
    wrapped (crossProduct xs ys) = crossProduct (wrapped xs) (wrapped ys) :=
  map_crossProduct _ xs ys

/-- The exactlyone of an operator with these alternatives, when this is its fate. -/
def Follows (alts : List (List α)) (found : Option (ExactlyOne α)) : Fate → Prop
  | .lost => found = none ∧ alts = []
  | .void => found = some [] ∧ alts = []
  | .kept => found = some (wrapped alts) ∧ alts ≠ []
  | .grown => ∃ e, found = some e ∧ alts.length < e.length

/-- The children of an operator and what the loop found for each of them. -/
abbrev FollowsAll (found : List (Option (ExactlyOne α))) (components : List (Operator α)) :
    Prop :=
  List.Forall₂ (fun r c => Follows (alternatives c) r (fate c)) found components

lemma fates_eq_map (components : List (Operator α)) : fates components = components.map fate := by
  induction components with
  | nil => rfl
  | cons c cs ih => rw [fates, ih, List.map_cons]

lemma Follows.eq_nil_iff {e : ExactlyOne α} (h : Follows alts (some e) f) : e = [] ↔ f = .void := by
  cases f with
  | lost => exact absurd h.1 (by simp)
  | void => simpa using h.1
  | kept =>
    obtain ⟨he, hne⟩ := h
    simpa [Option.some.inj he] using hne
  | grown =>
    obtain ⟨e', he, hlt⟩ := h
    obtain rfl := Option.some.inj he
    simp [List.ne_nil_of_length_pos (Nat.zero_lt_of_lt hlt)]

lemma Follows.none_iff (h : Follows alts r f) : r = none ↔ f = .lost := by
  cases f with
  | lost => simpa using h.1
  | void | kept => simp [h.1]
  | grown =>
    obtain ⟨e, he, -⟩ := h
    simp [he]

lemma Follows.length_le (h : Follows alts r f) : alts.length ≤ (r.getD []).length := by
  cases f with
  | lost | void => simp [h.2]
  | kept => simp [h.1]
  | grown =>
    obtain ⟨e, he, hlt⟩ := h
    simpa [he] using hlt.le

lemma Follows.length_lt (h : Follows alts r .grown) : alts.length < (r.getD []).length := by
  obtain ⟨e, he, hlt⟩ := h
  simpa [he] using hlt

lemma Follows.wrapped_eq (h : Follows alts r f) (hf : f ≠ .grown) : r.getD [] = wrapped alts := by
  cases f with
  | lost | void => simp [h.1, h.2, wrapped]
  | kept => simp [h.1]
  | grown => exact absurd rfl hf

lemma Follows.alternatives_eq_nil_iff (h : Follows alts r f) (hf : f ≠ .grown) :
    alts = [] ↔ f ≠ .kept := by
  cases f with
  | lost | void | kept => simp [h.2]
  | grown => exact absurd rfl hf

end Following

section Choices

variable {α : Type} {found : List (Option (ExactlyOne α))} {components : List (Operator α)}

section

variable (h : FollowsAll found components)

include h

lemma FollowsAll.length_le : (offered components).length ≤ found.reduceOption.flatten.length := by
  induction h with
  | nil => simp [offered]
  | @cons r c found components hc _ ih =>
    have hle := hc.length_le
    cases r with
    | none => simpa [offered, List.length_eq_zero_iff.mp (Nat.le_zero.mp hle)] using ih
    | some e =>
      simp only [offered, List.length_append, List.reduceOption_cons_of_some,
        List.flatten_cons]
      exact Nat.add_le_add hle ih

lemma FollowsAll.length_lt (hgrown : .grown ∈ fates components) :
    (offered components).length < found.reduceOption.flatten.length := by
  induction h with
  | nil => simp [fates] at hgrown
  | @cons r c found components hc hcs ih =>
    have hle := hc.length_le
    have hle' := FollowsAll.length_le hcs
    have hor : fate c = .grown ∨ .grown ∈ fates components := by
      simpa [fates, eq_comm] using hgrown
    have hlt : (alternatives c).length + (offered components).length <
        (r.getD []).length + found.reduceOption.flatten.length := by
      rcases hor with hc' | hcs'
      · have := (hc' ▸ hc).length_lt
        omega
      · have := ih hcs'
        omega
    cases r with
    | none | some e => simpa [offered] using hlt

lemma FollowsAll.flatten_eq (hgrown : .grown ∉ fates components) :
    found.reduceOption.flatten = wrapped (offered components) := by
  induction h with
  | nil => rfl
  | @cons r c found components hc _ ih =>
    obtain ⟨hc', hcs'⟩ : fate c ≠ .grown ∧ .grown ∉ fates components := by
      simpa [fates, eq_comm] using hgrown
    have heq := hc.wrapped_eq hc'
    have ih' := ih hcs'
    simp only [wrapped, offered, List.map_append] at heq ih' ⊢
    rw [← heq, ← ih']
    cases r with
    | none | some e => simp

lemma FollowsAll.offered_eq_nil_iff (hgrown : .grown ∉ fates components) :
    offered components = [] ↔ .kept ∉ fates components := by
  induction h with
  | nil => simp [offered, fates]
  | @cons r c found components hc _ ih =>
    obtain ⟨hc', hcs'⟩ : fate c ≠ .grown ∧ .grown ∉ fates components := by
      simpa [fates, eq_comm] using hgrown
    rw [offered, List.append_eq_nil_iff, hc.alternatives_eq_nil_iff hc', ih hcs', fates,
      List.mem_cons, not_or, ne_comm]

/-- A choice offers what its children offer, and the lost ones offer nothing. -/
lemma FollowsAll.choice :
    Follows (offered components) (some found.reduceOption.flatten)
      (fateOfChoice (fates components)) := by
  rw [fateOfChoice]
  split_ifs with hgrown hkept
  · exact ⟨_, rfl, h.length_lt hgrown⟩
  · have hne := (h.offered_eq_nil_iff hgrown).not.mpr (not_not.mpr hkept)
    exact ⟨congrArg some (h.flatten_eq hgrown), hne⟩
  · have hnil := (h.offered_eq_nil_iff hgrown).mpr hkept
    refine ⟨?_, hnil⟩
    rw [h.flatten_eq hgrown, hnil]
    rfl

end

end Choices

section Conjunctions

variable {α : Type} {found : List (Option (ExactlyOne α))} {components : List (Operator α)}

/-- The children that are left are those that are not lost. -/
lemma FollowsAll.left (h : FollowsAll found components) :
    List.Forall₂ (fun e f => e = [] ↔ f = .void) found.reduceOption
      ((fates components).filter (· ≠ .lost)) := by
  induction h with
  | nil => exact .nil
  | @cons r c found components hc _ ih =>
    cases r with
    | none =>
      have hlost : fate c = .lost := hc.none_iff.mp rfl
      simpa [fates, hlost] using ih
    | some e =>
      have hleft : fate c ≠ .lost := hc.none_iff.not.mp (by simp)
      rw [List.reduceOption_cons_of_some, fates, List.filter_cons_of_pos (by simpa using hleft)]
      exact .cons hc.eq_nil_iff ih

section

variable {inner : List (ExactlyOne α)} {left : List Fate}
  (h : List.Forall₂ (fun e f => e = [] ↔ f = .void) inner left)

include h

lemma fails_iff : Fails inner ↔ left = [] ∨ (2 ≤ left.length ∧ left.head? = some .void) := by
  rw [Fails, h.length_eq]
  cases h with
  | nil => simp
  | cons hhead _ => simp [hhead]

lemma nil_mem_iff : [] ∈ inner ↔ .void ∈ left := by
  induction h with
  | nil => simp
  | cons hhead _ ih => rw [List.mem_cons, List.mem_cons, ih, eq_comm, hhead, eq_comm]

end

lemma FollowsAll.conjoined_eq_nil (h : FollowsAll found components)
    (hnone : .lost ∈ fates components ∨ .void ∈ fates components) :
    conjoined components = [] := by
  induction h with
  | nil => simp [fates] at hnone
  | @cons r c found components hc _ ih =>
    rw [conjoined, crossProduct_eq_nil]
    by_cases hhead : fate c = .lost ∨ fate c = .void
    · left
      have hgrown : fate c ≠ .grown := by rcases hhead with h | h <;> simp [h]
      have hkept : fate c ≠ .kept := by rcases hhead with h | h <;> simp [h]
      exact (hc.alternatives_eq_nil_iff hgrown).mpr hkept
    · right
      apply ih
      simp only [fates, List.mem_cons, not_or] at hnone hhead
      rcases hnone with (hl | hl) | (hv | hv)
      · exact absurd hl.symm hhead.1
      · exact .inl hl
      · exact absurd hv.symm hhead.2
      · exact .inr hv

/-- Nothing is lost or void: the product of what is left against the alternatives. -/
lemma FollowsAll.product_spec (h : FollowsAll found components)
    (hlost : .lost ∉ fates components) (hvoid : .void ∉ fates components) :
    0 < (product found.reduceOption).length ∧
      (conjoined components).length ≤ (product found.reduceOption).length ∧
      (.grown ∈ fates components →
        (conjoined components).length < (product found.reduceOption).length) ∧
      (.grown ∉ fates components →
        product found.reduceOption = wrapped (conjoined components)) := by
  induction h with
  | nil => simp [conjoined, fates, wrapped]
  | @cons r c found components hc _ ih =>
    obtain ⟨hclost, hlost⟩ : fate c ≠ .lost ∧ .lost ∉ fates components := by
      simpa [fates, eq_comm] using hlost
    obtain ⟨hcvoid, hvoid⟩ : fate c ≠ .void ∧ .void ∉ fates components := by
      simpa [fates, eq_comm] using hvoid
    obtain ⟨hpos, hle, hlt, heq⟩ := ih hlost hvoid
    cases r with
    | none => exact absurd (hc.none_iff.mp rfl) hclost
    | some e =>
      have hepos : 0 < e.length := List.length_pos_of_ne_nil (hc.eq_nil_iff.not.mpr hcvoid)
      have hcle : (alternatives c).length ≤ e.length := hc.length_le
      simp only [List.reduceOption_cons_of_some, product_cons, conjoined, fates,
        length_crossProduct, List.mem_cons, not_or]
      refine ⟨Nat.mul_pos hepos hpos, Nat.mul_le_mul hcle hle, ?_, ?_⟩
      · rintro (hc' | hcs')
        · have hclt : (alternatives c).length < e.length := (hc' ▸ hc).length_lt
          calc (alternatives c).length * (conjoined components).length
            _ ≤ (alternatives c).length * (product found.reduceOption).length :=
              Nat.mul_le_mul_left _ hle
            _ < e.length * (product found.reduceOption).length :=
              Nat.mul_lt_mul_of_pos_right hclt hpos
        · calc (alternatives c).length * (conjoined components).length
            _ ≤ e.length * (conjoined components).length := Nat.mul_le_mul_right _ hcle
            _ < e.length * (product found.reduceOption).length :=
              Nat.mul_lt_mul_of_pos_left (hlt hcs') hepos
      · rintro ⟨hc', hcs'⟩
        have he : e = wrapped (alternatives c) := hc.wrapped_eq (Ne.symm hc')
        rw [wrapped_crossProduct, heq hcs', he]

/-- The empty exactlyone of the first child left ends the conjunction with `NULL`; behind
it an empty exactlyone is the result. -/
lemma FollowsAll.conjunction (h : FollowsAll found components) (hne : components ≠ []) :
    ∃ r, unlessNull (computeResultantComponent .all found.reduceOption) = .ok r ∧
      Follows (conjoined components) r (fateOfConjunction (fates components)) := by
  have hfates : fates components ≠ [] := by simpa [fates_eq_map] using hne
  have hiff := fails_iff h.left
  simp only [fateOfConjunction, if_neg hfates]
  by_cases hfails : Fails found.reduceOption
  · rw [if_pos (hiff.mp hfails)]
    refine ⟨none, by rw [computeResultantComponent_fails hfails, unlessNull], rfl, ?_⟩
    apply h.conjoined_eq_nil
    rcases hiff.mp hfails with hleft | ⟨-, hhead⟩
    · obtain ⟨f, hf⟩ := List.exists_mem_of_ne_nil _ hfates
      have hlost : f = .lost := by simpa using List.filter_eq_nil_iff.mp hleft f hf
      exact .inl (hlost ▸ hf)
    · right
      exact (List.mem_filter.mp (List.mem_of_mem_head? hhead)).1
  rw [if_neg (hiff.not.mp hfails)]
  refine ⟨some (product found.reduceOption),
    by rw [computeResultantComponent_product hfails, unlessNull], ?_⟩
  split_ifs with hvoid hgrown
  · refine ⟨?_, h.conjoined_eq_nil (.inr (List.mem_filter.mp hvoid).1)⟩
    rw [product_eq_nil.mpr ((nil_mem_iff h.left).mpr hvoid)]
  · have hpos : product found.reduceOption ≠ [] :=
      product_eq_nil.not.mpr ((nil_mem_iff h.left).not.mpr hvoid)
    refine ⟨_, rfl, ?_⟩
    by_cases hlost : .lost ∈ fates components
    · rw [h.conjoined_eq_nil (.inl hlost)]
      exact List.length_pos_of_ne_nil hpos
    · exact (h.product_spec hlost (by simpa using hvoid)).2.2.1 (hgrown.resolve_left hlost)
  · obtain ⟨hlost, hgrown⟩ := not_or.mp hgrown
    obtain ⟨hpos, -, -, heq⟩ := h.product_spec hlost (by simpa using hvoid)
    have hproduct := heq hgrown
    refine ⟨congrArg some hproduct, ?_⟩
    rw [hproduct] at hpos
    simpa [List.length_pos_iff] using hpos

end Conjunctions

section Trees

variable {α : Type} {registry : Option (Registry α)}

lemma allReferenceFree_iff {components : List (Operator α)} :
    AllReferenceFree components ↔ ∀ c ∈ components, c.ReferenceFree := by
  induction components with
  | nil => simp [AllReferenceFree]
  | cons c cs ih => simp [AllReferenceFree, ih]

lemma depth_le_depths {components : List (Operator α)} {c : Operator α} (hc : c ∈ components) :
    c.depth ≤ depths components := by
  induction components with
  | nil => simp at hc
  | cons c' cs ih =>
    rw [depths]
    rcases List.mem_cons.mp hc with rfl | hcs
    · exact le_max_left _ _
    · exact (ih hcs).trans (le_max_right _ _)

lemma mapM_follows {child : Operator α → Except Stop (Option (ExactlyOne α))}
    {components : List (Operator α)}
    (h : ∀ c ∈ components, ∃ r, child c = .ok r ∧ Follows (alternatives c) r (fate c)) :
    ∃ found, components.mapM child = .ok found ∧ FollowsAll found components := by
  induction components with
  | nil => exact ⟨[], rfl, .nil⟩
  | cons c cs ih =>
    obtain ⟨r, hr, hc⟩ := h c List.mem_cons_self
    obtain ⟨found, hfound, hcs⟩ := ih fun c' hc' => h c' (List.mem_cons_of_mem c hc')
    refine ⟨r :: found, ?_, .cons hc hcs⟩
    rw [List.mapM_cons, hr, hfound]
    rfl

/-- The alternatives of an operator of this type, and its fate. -/
def meaning (type : OperatorType) (components : List (Operator α)) : List (List α) :=
  if type = .exactlyOne then offered components else conjoined components

def fateOf (type : OperatorType) (components : List (Operator α)) : Fate :=
  if type = .exactlyOne then fateOfChoice (fates components)
  else fateOfConjunction (fates components)

/-- One level of the recursion. -/
lemma normalizeOperator_follows_succ {fuel : ℕ} {components : List (Operator α)}
    (type : OperatorType)
    (h : ∀ c ∈ components, ∃ r,
      normalizeChild (normalizeOperator registry false fuel) registry false c = .ok r ∧
        Follows (alternatives c) r (fate c)) :
    ∃ r, unlessNull (normalizeOperator registry false (fuel + 1) type components) = .ok r ∧
      Follows (meaning type components) r (fateOf type components) := by
  by_cases hnil : components = []
  · subst hnil
    cases type with
    | exactlyOne => exact ⟨some [], rfl, rfl, rfl⟩
    | policy | all => exact ⟨some [[]], rfl, rfl, List.cons_ne_nil _ _⟩
  obtain ⟨found, hfound, hall⟩ := mapM_follows h
  have hstep : normalizeOperator registry false (fuel + 1) type components =
      computeResultantComponent type found.reduceOption := by
    rw [normalizeOperator, if_neg (by simpa using hnil), hfound]
    rfl
  rw [hstep]
  cases type with
  | exactlyOne => exact ⟨_, rfl, hall.choice⟩
  | policy | all => exact hall.conjunction hnil

/-- Every operator without references meets its fate. -/
lemma normalizeChild_follows (fuel : ℕ) (c : Operator α) (hc : c.ReferenceFree)
    (hfuel : c.depth ≤ fuel) :
    ∃ r, normalizeChild (normalizeOperator registry false fuel) registry false c = .ok r ∧
      Follows (alternatives c) r (fate c) := by
  induction fuel generalizing c with
  | zero =>
    cases c with
    | assertion a => exact ⟨_, rfl, rfl, by simp [alternatives]⟩
    | reference uri => exact hc.elim
    | policy name id components | all components | exactlyOne components =>
      simp [Operator.depth] at hfuel
  | succ fuel ih =>
    have hstep : ∀ (type : OperatorType) (components : List (Operator α)),
        AllReferenceFree components → depths components + 1 ≤ fuel + 1 →
        ∃ r, unlessNull (normalizeOperator registry false (fuel + 1) type components) = .ok r ∧
          Follows (meaning type components) r (fateOf type components) := by
      intro type components hfree hdepth
      apply normalizeOperator_follows_succ
      intro c hmem
      have := depth_le_depths hmem
      exact ih c (allReferenceFree_iff.mp hfree c hmem) (by omega)
    cases c with
    | assertion a => exact ⟨_, rfl, rfl, by simp [alternatives]⟩
    | reference uri => exact hc.elim
    | policy name id components | all components => exact hstep .all components hc hfuel
    | exactlyOne components => exact hstep .exactlyOne components hc hfuel

end Trees

section Results

variable {α : Type}

def normalForm (name id : Option String) (alts : List (List α)) : Operator α :=
  .policy name id [.exactlyOne (alts.map fun alt => .all (alt.map .assertion))]

lemma Follows.eq_some_wrapped_iff {alts : List (List α)} {r : Option (ExactlyOne α)} {f : Fate}
    (h : Follows alts r f) : r = some (wrapped alts) ↔ f ≠ .lost ∧ f ≠ .grown := by
  cases f with
  | lost | kept => simp [h.1]
  | void => simp [h.1, h.2, wrapped]
  | grown =>
    obtain ⟨e, he, hlt⟩ := h
    have hne : e ≠ wrapped alts := by
      intro heq
      rw [heq, length_wrapped] at hlt
      exact absurd hlt (lt_irrefl _)
    simp [he, hne]

lemma all_injective : Function.Injective (Operator.all : List (Operator α) → Operator α) :=
  fun _ _ h => Operator.all.inj h

lemma normalize_eq_normalForm_iff {registry : Option (Registry α)} {deep : Bool} {fuel : ℕ}
    {name id : Option String} {components : List (Operator α)} {alts : List (List α)} :
    normalize registry deep fuel name id components = .ok (normalForm name id alts) ↔
      unlessNull (normalizeOperator registry deep fuel .policy components) =
        .ok (some (wrapped alts)) := by
  have hform : normalForm name id alts =
      .policy name id [.exactlyOne ((wrapped alts).map .all)] := by
    simp [normalForm, wrapped, Function.comp_def]
  rw [hform, normalize]
  cases normalizeOperator registry deep fuel .policy components with
  | error stop => cases stop <;> simp [unlessNull, bind, Except.bind]
  | ok e =>
    simp only [unlessNull, bind, Except.bind, pure, Except.pure, Except.ok.injEq,
      Operator.policy.injEq, true_and, List.cons.injEq, and_true, Operator.exactlyOne.injEq,
      Option.some.injEq]
    exact (List.map_injective_iff.mpr all_injective).eq_iff

/-- A policy without references is normalized to its alternatives unless a conjunct that
cannot be normalized goes missing. -/
theorem normalize_alternatives_iff (registry : Option (Registry α)) (name id : Option String)
    (components : List (Operator α)) (hfree : AllReferenceFree components) (fuel : ℕ)
    (hfuel : depths components < fuel) :
    normalize registry false fuel name id components =
        .ok (normalForm name id (alternatives (.policy name id components))) ↔
      fate (.policy name id components) ≠ .lost ∧
        fate (.policy name id components) ≠ .grown := by
  obtain ⟨fuel, rfl⟩ := Nat.exists_eq_add_one_of_ne_zero (Nat.ne_zero_of_lt hfuel)
  obtain ⟨r, hr, hfollows⟩ : ∃ r,
      unlessNull (normalizeOperator registry false (fuel + 1) .policy components) = .ok r ∧
        Follows (conjoined components) r (fateOfConjunction (fates components)) := by
    apply normalizeOperator_follows_succ .policy
    intro c hc
    have := depth_le_depths hc
    exact normalizeChild_follows fuel c (allReferenceFree_iff.mp hfree c hc) (by omega)
  rw [normalize_eq_normalForm_iff, hr, Except.ok.injEq]
  exact hfollows.eq_some_wrapped_iff

/-- A choice inside a conjunction, next to an empty policy. -/
theorem normalize_alternatives_nested :
    normalize none false 4 none none
        [.all [.exactlyOne [.assertion 1, .assertion 2], .assertion 3], .policy none none []] =
      .ok (normalForm none none [[1, 3], [2, 3]]) :=
  (normalize_alternatives_iff none none none
    [.all [.exactlyOne [.assertion 1, .assertion 2], .assertion 3], .policy none none []]
    (by simp [AllReferenceFree, Operator.ReferenceFree]) 4 (by decide)).mpr (by decide)

/-- The inner conjunction asks for an alternative of an empty choice and for assertion 1,
so the policy has no alternatives. The inner conjunction is lost, and the policy comes out
as if assertion 2 were enough. -/
theorem empty_conjunct_dropped :
    alternatives (.policy none none
        [.all [.exactlyOne [], .assertion 1], .assertion (2 : ℕ)]) = [] ∧
      normalize none false 3 none none [.all [.exactlyOne [], .assertion 1], .assertion 2] =
        .ok (normalForm none none [[2]]) ∧
      normalForm none none [[2]] ≠ normalForm none none ([] : List (List ℕ)) :=
  ⟨rfl, rfl, by simp [normalForm]⟩

end Results

end Axis2C.Neethi
