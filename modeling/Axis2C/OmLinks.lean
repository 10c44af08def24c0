import Axis2C.DoublyLinked
import Mathlib.Logic.Relation

/-!
# Links of AXIOM nodes

The five pointers of an `axiom_node` and the operations of `om_node.c` that edit
them. A heap gives each field as a function of the address and tells which nodes
are live; a pointer is an optional address. What else a node holds is a parameter
of the heap, which these operations do not touch (the namespaces that
`axiom_node_detach` declares again are not links). Allocation succeeds.
-/
namespace Axis2C.Om

/-- The nodes of a heap, field by field. -/
structure Heap (α : Type*) where
  live : ℕ → Bool
  parent : ℕ → Option ℕ
  prev : ℕ → Option ℕ
  next : ℕ → Option ℕ
  firstChild : ℕ → Option ℕ
  lastChild : ℕ → Option ℕ
  data : ℕ → α

/-- `axiom_types_t`. -/
inductive NodeType where
  | invalid
  | document
  | element
  | doctype
  | comment
  | attribute
  | namespace
  | processingInstruction
  | text
  | dataSource
  deriving DecidableEq, Repr

/-- The fields of a node that are not links; the builder is the one that makes the
node, when there is one. -/
structure Node (β : Type*) where
  nodeType : NodeType
  dataElement : Option β
  builder : Bool
  done : Bool
  deriving DecidableEq, Repr

section Operations

variable {α : Type*}

namespace Heap

def setParent (h : Heap α) (n : ℕ) (p : Option ℕ) : Heap α :=
  { h with parent := Function.update h.parent n p }

def setPrev (h : Heap α) (n : ℕ) (p : Option ℕ) : Heap α :=
  { h with prev := Function.update h.prev n p }

def setNext (h : Heap α) (n : ℕ) (p : Option ℕ) : Heap α :=
  { h with next := Function.update h.next n p }

def setFirst (h : Heap α) (n : ℕ) (p : Option ℕ) : Heap α :=
  { h with firstChild := Function.update h.firstChild n p }

def setLast (h : Heap α) (n : ℕ) (p : Option ℕ) : Heap α :=
  { h with lastChild := Function.update h.lastChild n p }

def setData (h : Heap α) (n : ℕ) (d : α) : Heap α :=
  { h with data := Function.update h.data n d }

def free (h : Heap α) (n : ℕ) : Heap α :=
  { h with live := Function.update h.live n false }

/-- A node without links. -/
def Single (h : Heap α) (n : ℕ) : Prop :=
  h.parent n = none ∧ h.prev n = none ∧ h.next n = none ∧ h.firstChild n = none ∧
    h.lastChild n = none

end Heap

/-- `axiom_node_create`, with the address that the allocator gives. -/
def nodeCreate (h : Heap α) (n : ℕ) (d : α) : Heap α where
  live := Function.update h.live n true
  parent := Function.update h.parent n none
  prev := Function.update h.prev n none
  next := Function.update h.next n none
  firstChild := Function.update h.firstChild n none
  lastChild := Function.update h.lastChild n none
  data := Function.update h.data n d

/-- The node is taken out of the list of its siblings. -/
def detachWithoutNamespaces (h : Heap α) (n : ℕ) : Heap α :=
  match h.parent n with
  | none => h
  | some parent =>
    let prev := h.prev n
    let next := h.next n
    let h := match prev with
      | none => h.setFirst parent next
      | some prev => h.setNext prev next
    let h := match next with
      | none => h
      | some next => h.setPrev next prev
    let h := if h.lastChild parent = some n then h.setLast parent prev else h
    ((h.setParent n none).setPrev n none).setNext n none

def addChild (h : Heap α) (n child : ℕ) : Heap α :=
  let h := if (h.parent child).isSome then detachWithoutNamespaces h child else h
  let h :=
    if h.firstChild n = none then h.setFirst n (some child)
    else
      match h.lastChild n with
      | none => h
      | some last => (h.setNext last (some child)).setPrev child (some last)
  (h.setParent child (some n)).setLast n (some child)

/-- The status is false when the node has no parent. -/
def insertSiblingAfter (h : Heap α) (n inserted : ℕ) : Bool × Heap α :=
  match h.parent n with
  | none => (false, h)
  | some parent =>
    let next := h.next n
    let h := (h.setParent inserted (some parent)).setPrev inserted (some n)
    let h := match next with
      | none => h
      | some next => h.setPrev next (some inserted)
    (true, (h.setNext inserted next).setNext n (some inserted))

def insertSiblingBefore (h : Heap α) (n inserted : ℕ) : Bool × Heap α :=
  match h.parent n with
  | none => (false, h)
  | some parent =>
    let prev := h.prev n
    let h := (h.setParent inserted (some parent)).setPrev inserted prev
    let h := h.setNext inserted (some n)
    let h := match prev with
      | none => h.setFirst parent (some inserted)
      | some prev => h.setNext prev (some inserted)
    (true, h.setPrev n (some inserted))

mutual

/-- `axiom_node_free_detached_subtree`; the fuel bounds the depth of the calls
and of the loops in them. -/
def freeDetachedSubtree : ℕ → Heap α → ℕ → Option (Heap α)
  | 0, _, _ => none
  | fuel + 1, h, n => (freeChildren fuel h (h.firstChild n)).map (·.free n)

def freeChildren : ℕ → Heap α → Option ℕ → Option (Heap α)
  | _, h, none => some h
  | 0, _, some _ => none
  | fuel + 1, h, some child =>
    (freeDetachedSubtree fuel h child).bind (freeChildren fuel · (h.next child))

end

def freeTree (fuel : ℕ) (h : Heap α) (n : ℕ) : Option (Heap α) :=
  freeDetachedSubtree fuel (detachWithoutNamespaces h n) n

end Operations

end Axis2C.Om
