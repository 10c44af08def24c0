import Axis2C.NeethiNormalize

/-!
# Policies as elements

`neethi_engine_serialize` writes a policy as a tree of elements and `neethi_engine_get_policy`
builds a policy from one. An all or an exactlyone without children cannot be written.
-/
namespace Axis2C.Neethi

section Source

/-- An attribute, its value may be missing. -/
structure PolicyAttribute where
  uri : Option String
  localName : String
  value : Option String

/-- An element with the uri of its namespace, or a node of another kind. -/
inductive PolicyNode
  | element (uri : Option String) (localName : String) (attributes : List PolicyAttribute)
      (children : List PolicyNode)
  | other

/-- `NEETHI_NAMESPACE` -/
def neethiNamespace : String := "http://schemas.xmlsoap.org/ws/2004/09/policy"

/-- `NEETHI_POLICY_15_NAMESPACE` -/
def neethiPolicy15Namespace : String := "http://www.w3.org/ns/ws-policy"

/-- `NEETHI_WSU_NS` -/
def neethiWsuNs : String :=
  "http://docs.oasis-open.org/wss/2004/01/oasis-200401-wss-wssecurity-utility-1.0.xsd"

/-- How single assertions are written and built, each the inverse of the other. They have
namespaces of their own. -/
structure AssertionFormat (α : Type) where
  serialize : α → PolicyNode
  build : PolicyNode → Option α
  build_serialize : ∀ a, build (serialize a) = some a
  foreign : ∀ a, ∃ uri localName attributes children,
    serialize a = .element (some uri) localName attributes children ∧
      uri ≠ neethiNamespace ∧ uri ≠ neethiPolicy15Namespace

variable {α : Type} (format : AssertionFormat α)

/-- What the functions that serialize write. -/
def policyElement (localName : String) (children : List PolicyNode) : PolicyNode :=
  .element (some neethiNamespace) localName [] children

mutual

/-- `neethi_operator_serialize`. -/
def serializeOperator : Operator α → Option PolicyNode
  | .policy _ _ components =>
    -- the status is not returned, only that of a component that fails
    (serializeComponents components true).map (policyElement "Policy")
  | .all components => (serializeComponents components false).map (policyElement "All")
  | .exactlyOne components =>
    (serializeComponents components false).map (policyElement "ExactlyOne")
  | .assertion a => some (format.serialize a)
  | .reference uri =>
    some (.element (some neethiNamespace) "PolicyReference" [⟨none, "URI", uri⟩] [])

def serializeComponents : List (Operator α) → Bool → Option (List PolicyNode)
  | [], status => if status then some [] else none
  | c :: cs, _ =>
    (serializeOperator c).bind fun node => (serializeComponents cs true).map (node :: ·)

end

/-- `neethi_engine_serialize`. -/
def engineSerialize (name id : Option String) (components : List (Operator α)) :
    Option PolicyNode :=
  serializeOperator format (.policy name id components)

def attributeValue (uri : Option String) (localName : String)
    (attributes : List PolicyAttribute) : Option String :=
  (attributes.find? fun a => a.uri = uri ∧ a.localName = localName).bind PolicyAttribute.value

/-- A policy keeps its attributes, of which the name and the id are looked up. -/
def policyOf (attributes : List PolicyAttribute) (components : List (Operator α)) : Operator α :=
  .policy (attributeValue none "Name" attributes) (attributeValue (some neethiWsuNs) "Id" attributes)
    components

mutual

/-- One turn of the loop of `neethi_engine_process_operation_element`: the component that is
added, if any. -/
def processChild : PolicyNode → Option (List (Operator α))
  | .other => some []
  | .element none _ _ _ => none
  | .element (some uri) localName attributes children =>
    if uri = neethiNamespace ∨ uri = neethiPolicy15Namespace then
      if localName = "Policy" then
        (processChildren children).map fun components => [policyOf attributes components]
      else if localName = "All" then
        (processChildren children).map fun components => [.all components]
      else if localName = "ExactlyOne" then
        (processChildren children).map fun components => [.exactlyOne components]
      else if localName = "PolicyReference" then
        some [.reference (attributeValue none "URI" attributes)]
      else some []
    else
      (format.build (.element (some uri) localName attributes children)).map fun a =>
        [.assertion a]

def processChildren : List PolicyNode → Option (List (Operator α))
  | [] => some []
  | node :: nodes =>
    (processChild node).bind fun component =>
      (processChildren nodes).map (component ++ ·)

end

/-- `neethi_engine_get_policy`. -/
def getPolicy : PolicyNode → Option (Operator α)
  | .element _ _ attributes children => (processChildren format children).map (policyOf attributes)
  | .other => none

end Source

section Properties

variable {α : Type}

mutual

/-- The nesting of the operators and the assertions, without what policies are called. -/
def Operator.unnamed : Operator α → Operator α
  | .policy _ _ components => .policy none none (allUnnamed components)
  | .all components => .all (allUnnamed components)
  | .exactlyOne components => .exactlyOne (allUnnamed components)
  | .assertion a => .assertion a
  | .reference uri => .reference uri

def allUnnamed : List (Operator α) → List (Operator α)
  | [] => []
  | c :: cs => c.unnamed :: allUnnamed cs

end

mutual

/-- No all and no exactlyone is empty. -/
def Operator.Filled : Operator α → Prop
  | .policy _ _ components => AllFilled components
  | .all components => components ≠ [] ∧ AllFilled components
  | .exactlyOne components => components ≠ [] ∧ AllFilled components
  | .assertion _ => True
  | .reference _ => True

def AllFilled : List (Operator α) → Prop
  | [] => True
  | c :: cs => c.Filled ∧ AllFilled cs

end

/-- The policy can be written, and what is built from the result has the same operators and
assertions. -/
def RoundTrips (format : AssertionFormat α) (name id : Option String)
    (components : List (Operator α)) : Prop :=
  ∃ node, engineSerialize format name id components = some node ∧
    (getPolicy format node).map Operator.unnamed =
      some (Operator.policy name id components).unnamed

end Properties

section RoundTrip

variable {α : Type}

mutual

lemma unnamed_unnamed (c : Operator α) : c.unnamed.unnamed = c.unnamed := by
  cases c with
  | policy name id components =>
    exact congrArg (Operator.policy none none) (allUnnamed_allUnnamed components)
  | all components => exact congrArg Operator.all (allUnnamed_allUnnamed components)
  | exactlyOne components => exact congrArg Operator.exactlyOne (allUnnamed_allUnnamed components)
  | assertion a | reference uri => rfl

lemma allUnnamed_allUnnamed (cs : List (Operator α)) :
    allUnnamed (allUnnamed cs) = allUnnamed cs := by
  cases cs with
  | nil => rfl
  | cons c cs => exact congrArg₂ List.cons (unnamed_unnamed c) (allUnnamed_allUnnamed cs)

end

variable (format : AssertionFormat α)

lemma processChild_policyElement (children : List PolicyNode) :
    processChild format (policyElement "Policy" children) =
        (processChildren format children).map (fun cs => [.policy none none cs]) ∧
      processChild format (policyElement "All" children) =
        (processChildren format children).map (fun cs => [.all cs]) ∧
      processChild format (policyElement "ExactlyOne" children) =
        (processChildren format children).map (fun cs => [.exactlyOne cs]) := by
  simp [policyElement, processChild, policyOf, attributeValue]

mutual

lemma processChild_serialize (c : Operator α) (node : PolicyNode)
    (h : serializeOperator format c = some node) :
    processChild format node = some [c.unnamed] := by
  cases c with
  | policy name id components =>
    rw [serializeOperator, Option.map_eq_some_iff] at h
    obtain ⟨nodes, hnodes, rfl⟩ := h
    rw [(processChild_policyElement format nodes).1,
      processChildren_serialize components true nodes hnodes]
    rfl
  | all components =>
    rw [serializeOperator, Option.map_eq_some_iff] at h
    obtain ⟨nodes, hnodes, rfl⟩ := h
    rw [(processChild_policyElement format nodes).2.1,
      processChildren_serialize components false nodes hnodes]
    rfl
  | exactlyOne components =>
    rw [serializeOperator, Option.map_eq_some_iff] at h
    obtain ⟨nodes, hnodes, rfl⟩ := h
    rw [(processChild_policyElement format nodes).2.2,
      processChildren_serialize components false nodes hnodes]
    rfl
  | assertion a =>
    rw [serializeOperator, Option.some.injEq] at h
    obtain ⟨uri, localName, attributes, children, hwritten, hns, h15⟩ := format.foreign a
    have hbuilt := format.build_serialize a
    rw [hwritten] at hbuilt
    rw [← h, hwritten, processChild, if_neg (not_or.mpr ⟨hns, h15⟩), hbuilt]
    rfl
  | reference uri =>
    rw [serializeOperator, Option.some.injEq] at h
    rw [← h]
    simp [processChild, attributeValue, Operator.unnamed]

lemma processChildren_serialize (components : List (Operator α)) (status : Bool)
    (nodes : List PolicyNode) (h : serializeComponents format components status = some nodes) :
    processChildren format nodes = some (allUnnamed components) := by
  cases components with
  | nil =>
    obtain ⟨-, rfl⟩ : status = true ∧ [] = nodes := by simpa [serializeComponents] using h
    rfl
  | cons c cs =>
    rw [serializeComponents, Option.bind_eq_some_iff] at h
    obtain ⟨node, hnode, hrest⟩ := h
    obtain ⟨nodes, hnodes, rfl⟩ := Option.map_eq_some_iff.mp hrest
    rw [processChildren, processChild_serialize c node hnode,
      processChildren_serialize cs true nodes hnodes]
    rfl

end

mutual

lemma serializeOperator_isSome_iff (c : Operator α) :
    (serializeOperator format c).isSome ↔ c.Filled := by
  cases c with
  | policy name id components =>
    rw [serializeOperator, Option.isSome_map, serializeComponents_isSome_iff components true]
    simp [Operator.Filled]
  | all components | exactlyOne components =>
    rw [serializeOperator, Option.isSome_map, serializeComponents_isSome_iff components false]
    simp [Operator.Filled]
  | assertion a | reference uri => simp [serializeOperator, Operator.Filled]

lemma serializeComponents_isSome_iff (components : List (Operator α)) (status : Bool) :
    (serializeComponents format components status).isSome ↔
      (status = true ∨ components ≠ []) ∧ AllFilled components := by
  cases components with
  | nil => cases status <;> simp [serializeComponents, AllFilled]
  | cons c cs =>
    have hc := serializeOperator_isSome_iff c
    have hcs := serializeComponents_isSome_iff cs true
    rw [serializeComponents, AllFilled, ← hc]
    rcases serializeOperator format c with _ | node
    · simp
    · simpa using hcs

end

/-- A policy makes the round trip exactly when no all and no exactlyone in it is empty. -/
theorem roundTrips_iff (name id : Option String) (components : List (Operator α)) :
    RoundTrips format name id components ↔ AllFilled components := by
  have hfilled : (engineSerialize format name id components).isSome ↔ AllFilled components :=
    serializeOperator_isSome_iff format (.policy name id components)
  rw [← hfilled, Option.isSome_iff_exists]
  constructor
  · rintro ⟨node, hnode, -⟩
    exact ⟨node, hnode⟩
  · rintro ⟨node, hnode⟩
    refine ⟨node, hnode, ?_⟩
    rw [engineSerialize, serializeOperator, Option.map_eq_some_iff] at hnode
    obtain ⟨nodes, hnodes, rfl⟩ := hnode
    rw [policyElement, getPolicy, processChildren_serialize format components true nodes hnodes,
      Option.map_some, Option.map_some]
    exact congrArg some (unnamed_unnamed (.policy name id components))

end RoundTrip

/-- Assertions that are local names in a namespace of their own. -/
def nameFormat : AssertionFormat String where
  serialize a := .element (some "urn:a") a [] []
  build
    | .element _ localName _ _ => some localName
    | .other => none
  build_serialize _ := rfl
  foreign a := ⟨"urn:a", a, [], [], rfl, by decide, by decide⟩

/-- A policy whose only component is an all without components cannot be written. -/
theorem empty_all_not_roundTrips :
    ¬ ∀ (α : Type) (format : AssertionFormat α) (name id : Option String)
      (components : List (Operator α)), RoundTrips format name id components := by
  intro h
  obtain ⟨node, hnode, -⟩ := h String nameFormat none none [.all []]
  cases hnode

end Axis2C.Neethi
