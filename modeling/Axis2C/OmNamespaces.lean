import Axis2C.OmSerialize

/-!
# Elements and their namespaces

The data of an element and the lookups of `om_element.c`. A hash table is the list
of its entries, in the order in which it is iterated; an attribute is kept under its
qualified name. A namespace has the address of its object, so that equality of two
namespaces is equality of pointers; an object is not changed once it is made. The
lookups climb along the parents, with fuel for the number of levels.
-/
namespace Axis2C.Om

section Tables

variable {κ α : Type*} [DecidableEq κ]

def hashGet (t : List (κ × α)) (key : κ) : Option α := t.lookup key

/-- `axutil_hash_set` with a value. -/
def hashSet (t : List (κ × α)) (key : κ) (a : α) : List (κ × α) :=
  if (hashGet t key).isSome then t.map fun entry => if entry.1 = key then (key, a) else entry
  else t ++ [(key, a)]

/-- `axutil_hash_set` with NULL. -/
def hashUnset (t : List (κ × α)) (key : κ) : List (κ × α) := t.filter fun entry => entry.1 ≠ key

lemma hashGet_cons (entry : κ × α) (t : List (κ × α)) (key : κ) :
    hashGet (entry :: t) key = if key = entry.1 then some entry.2 else hashGet t key := by
  unfold hashGet
  rw [List.lookup_cons]
  by_cases hk : key = entry.1
  · simp [hk]
  · rw [if_neg hk, beq_false_of_ne hk]

lemma hashGet_replace (t : List (κ × α)) (key key' : κ) (a : α) :
    hashGet (t.map fun entry => if entry.1 = key then (key, a) else entry) key' =
      if key' = key then (hashGet t key).map (fun _ => a) else hashGet t key' := by
  induction t with
  | nil => simp [hashGet]
  | cons entry t ih =>
    rw [List.map_cons, hashGet_cons, ih, hashGet_cons, hashGet_cons]
    by_cases hk : entry.1 = key
    · simp only [hk, if_true]
      by_cases hk' : key' = key <;> simp [hk']
    · simp only [hk, if_false]
      by_cases hk' : key' = key
      · simp [hk', Ne.symm hk]
      · simp [hk']

/-- What was set is found, and the rest stays. -/
lemma hashGet_hashSet (t : List (κ × α)) (key key' : κ) (a : α) :
    hashGet (hashSet t key a) key' = if key' = key then some a else hashGet t key' := by
  unfold hashSet
  split
  · rename_i hsome
    obtain ⟨v, hv⟩ := Option.isSome_iff_exists.mp hsome
    rw [hashGet_replace, hv]
    simp
  · rename_i hnone
    have hnone' : hashGet t key = none := by simpa using hnone
    have happend : hashGet (t ++ [(key, a)]) key' =
        (hashGet t key').or (hashGet [(key, a)] key') := List.lookup_append
    rw [happend, hashGet_cons]
    by_cases hk : key' = key
    · simp [hk, hnone']
    · simp [hk, hashGet]

lemma hashGet_hashUnset (t : List (κ × α)) (key key' : κ) :
    hashGet (hashUnset t key) key' = if key' = key then none else hashGet t key' := by
  unfold hashUnset
  induction t with
  | nil => simp [hashGet]
  | cons entry t ih =>
    by_cases hk : entry.1 = key
    · rw [List.filter_cons_of_neg (by simpa using hk), ih, hashGet_cons, hk]
      by_cases hk' : key' = key <;> simp [hk']
    · rw [List.filter_cons_of_pos (by simpa using hk), hashGet_cons, ih, hashGet_cons]
      by_cases hk' : key' = key
      · simp [hk', Ne.symm hk]
      · simp [hk']

end Tables

structure Namespace where
  address : ℕ
  nsPrefix : Option String
  uri : String
  deriving DecidableEq, Repr

def Namespace.key (ns : Namespace) : String := ns.nsPrefix.getD ""

/-- `axiom_namespace_equals`. -/
def Namespace.equals (ns ns' : Namespace) : Bool :=
  ns.uri = ns'.uri && ns.nsPrefix = ns'.nsPrefix

structure Attribute where
  localName : String
  value : String
  ns : Option Namespace
  deriving DecidableEq, Repr

/-- Local name, URI and prefix. -/
structure QName where
  localPart : String
  uri : Option String
  nsPrefix : Option String
  deriving DecidableEq, Repr

def Attribute.qname (a : Attribute) : QName :=
  ⟨a.localName, a.ns.map Namespace.uri, a.ns.bind Namespace.nsPrefix⟩

structure Element where
  localName : String
  ns : Option Namespace
  namespaces : List (String × Namespace)
  attributes : List (QName × Attribute)
  isEmpty : Bool
  deriving DecidableEq, Repr

/-- What `data_element` points to. -/
inductive Payload where
  | element (e : Element)
  | text (value : String)
  | comment (value : String)
  | processingInstruction (target value : String)
  deriving DecidableEq, Repr

abbrev OmHeap := Heap (Node Payload)

section Lookups

def elementAt (h : OmHeap) (n : ℕ) : Option Element :=
  match h.data n with
  | ⟨.element, some (.element e), _, _⟩ => some e
  | _ => none

def setElement (h : OmHeap) (n : ℕ) (e : Element) : OmHeap :=
  h.setData n { h.data n with dataElement := some (.element e) }

def parentElement (h : OmHeap) (n : ℕ) : Option ℕ :=
  (h.parent n).filter fun parent => (elementAt h parent).isSome

/-- `axiom_element_find_namespace_uri`: the nearest declaration of a prefix. -/
def findNamespaceUri (h : OmHeap) (key : String) : ℕ → ℕ → Option Namespace
  | 0, _ => none
  | fuel + 1, n =>
    match elementAt h n with
    | none => none
    | some e =>
      match hashGet e.namespaces key with
      | some ns => some ns
      | none => (parentElement h n).bind (findNamespaceUri h key fuel)

def getDefaultNamespace (h : OmHeap) (fuel n : ℕ) : Option Namespace :=
  findNamespaceUri h "" fuel n

/-- `axiom_element_get_namespace`. -/
def getNamespace (h : OmHeap) (fuel n : ℕ) : Option Namespace :=
  match elementAt h n with
  | none => none
  | some e =>
    match e.ns with
    | some ns => some ns
    | none => getDefaultNamespace h fuel n

/-- What `axiom_element_find_namespace` decides at one element: nothing, or the
namespace that it returns. -/
def findNamespaceHere (h : OmHeap) (fuel n : ℕ) (e : Element) (uri nsPrefix : Option String) :
    Option (Option Namespace) :=
  if e.namespaces.isEmpty then none
  else
    match uri with
    | some uri =>
      if nsPrefix.getD "" = "" then
        match getDefaultNamespace h fuel n with
        | some ns => some (if uri = ns.uri then some ns else none)
        | none =>
          (e.namespaces.find? fun entry => entry.2.uri = uri).map fun entry => some entry.2
      else
        (nsPrefix.bind (hashGet e.namespaces ·)).map fun ns =>
          if ns.uri = uri then some ns else none
    | none => (nsPrefix.bind (hashGet e.namespaces ·)).map some

/-- `axiom_element_find_namespace`. -/
def findNamespace (h : OmHeap) (uri nsPrefix : Option String) : ℕ → ℕ → Option Namespace
  | 0, _ => none
  | fuel + 1, n =>
    match elementAt h n with
    | none => none
    | some e =>
      match findNamespaceHere h (fuel + 1) n e uri nsPrefix with
      | some found => found
      | none => (parentElement h n).bind (findNamespace h uri nsPrefix fuel)

/-- `axiom_element_find_declared_namespace`. -/
def findDeclaredNamespace (e : Element) (uri nsPrefix : Option String) : Option Namespace :=
  match uri with
  | some uri =>
    if nsPrefix.getD "" = "" then
      (e.namespaces.find? fun entry => entry.2.uri = uri).map Prod.snd
    else (nsPrefix.bind (hashGet e.namespaces ·)).filter fun ns => ns.uri = uri
  -- a namespace found by its prefix is returned only when a URI is given
  | none => none

/-- `axiom_element_declare_namespace_assume_param_ownership`. -/
def declareNamespaceAssumeParamOwnership (h : OmHeap) (n : ℕ) (ns : Namespace) : OmHeap :=
  match elementAt h n with
  | none => h
  | some e => setElement h n { e with namespaces := hashSet e.namespaces ns.key ns }

/-- `axiom_element_declare_namespace`. -/
def declareNamespace (h : OmHeap) (fuel n : ℕ) (ns : Namespace) : OmHeap :=
  if (findNamespace h (some ns.uri) ns.nsPrefix fuel n).any (ns.equals ·) then h
  else declareNamespaceAssumeParamOwnership h n ns

/-- `axiom_element_add_attribute`. -/
def addAttribute (h : OmHeap) (fuel n : ℕ) (a : Attribute) : OmHeap :=
  let h := match a.ns with
    | none => h
    | some ns =>
      if findNamespace h (some ns.uri) ns.nsPrefix fuel n = some ns then h
      else declareNamespaceAssumeParamOwnership h n ns
  match elementAt h n with
  | none => h
  | some e => setElement h n { e with attributes := hashSet e.attributes a.qname a }

end Lookups

end Axis2C.Om
