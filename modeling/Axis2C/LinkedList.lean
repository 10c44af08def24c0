import Axis2C.DoublyLinked
import Axis2C.MachineInts

/-!
# The linked list

`linked_list.c`. The entries are cells of a heap, field by field, with the address that the
next one gets; allocation succeeds. The objects are pointers that are not NULL: every
function that stores one checks it. Reading through a NULL entry is a fault, as are signed
overflow and a loop that does not end. The bounds checks record an error and nothing else.
-/
namespace Axis2C.LinkedLists
open MachineInts DoublyLinked

/-- The errors that are set in `env->error`. -/
inductive ErrorNumber
  | invalidNullParam
  | noSuchElement
  | indexOutOfBounds
  deriving DecidableEq, Repr

inductive Fault
  /-- A field of an entry is read or written through NULL. -/
  | nullEntry
  /-- Signed overflow. -/
  | intRange
  /-- More steps than there are entries. -/
  | endless
  deriving DecidableEq, Repr

/-- `axutil_linked_list_t` with its entries and `env->error`. -/
structure LinkedList (α : Type) where
  data : ℕ → Option α
  next : ℕ → Option ℕ
  previous : ℕ → Option ℕ
  fresh : ℕ
  size : ℤ
  first : Option ℕ
  last : Option ℕ
  modCount : ℤ
  errorNumber : Option ErrorNumber
  statusCode : Bool

variable {α : Type}

section Entries

/-- `axutil_linked_list_create`. -/
def create : LinkedList α where
  data := fun _ => none
  next := fun _ => none
  previous := fun _ => none
  fresh := 0
  size := 0
  first := none
  last := none
  modCount := 0
  errorNumber := none
  statusCode := true

namespace LinkedList

def setData (s : LinkedList α) (e : ℕ) (o : α) : LinkedList α :=
  { s with data := Function.update s.data e (some o) }

def setNext (s : LinkedList α) (e : ℕ) (c : Option ℕ) : LinkedList α :=
  { s with next := Function.update s.next e c }

def setPrevious (s : LinkedList α) (e : ℕ) (c : Option ℕ) : LinkedList α :=
  { s with previous := Function.update s.previous e c }

/-- `AXIS2_ERROR_SET` with the status of a failure. -/
def failed (s : LinkedList α) (number : ErrorNumber) : LinkedList α :=
  { s with errorNumber := some number, statusCode := false }

/-- `AXIS2_PARAM_CHECK` on a pointer that is not NULL. -/
def checked (s : LinkedList α) : LinkedList α := { s with statusCode := true }

/-- `mod_count++`. -/
def modified (s : LinkedList α) : LinkedList α := { s with modCount := int32 (s.modCount + 1) }

end LinkedList

/-- The entry that a pointer leads to. -/
def deref : Option ℕ → Except Fault ℕ
  | some e => .ok e
  | none => .error .nullEntry

def createEntry (s : LinkedList α) (o : α) : LinkedList α × ℕ :=
  ({ (((s.setData s.fresh o).setPrevious s.fresh none).setNext s.fresh none) with
      fresh := s.fresh + 1 }, s.fresh)

def addLastEntry (s : LinkedList α) (e : ℕ) : Except Fault (LinkedList α) :=
  let s := s.checked.modified
  if s.size = 0 then
    .ok { s with first := some e, last := some e, size := int32 (s.size + 1) }
  else do
    let s := s.setPrevious e s.last
    let last ← deref s.last
    let s := s.setNext last (some e)
    .ok { s with last := some e, size := int32 (s.size + 1) }

/-- The loops of `axutil_linked_list_get_entry`. -/
def walkTo (link : ℕ → Option ℕ) (steps : ℕ) (e : Option ℕ) : Except Fault (Option ℕ) :=
  match walk link steps e with
  | some e => .ok e
  | none => .error .nullEntry

/-- `axutil_linked_list_get_entry`. The second loop increments `n` before it looks at it. -/
def getEntry (s : LinkedList α) (n : ℤ) : Except Fault (Option ℕ) :=
  if n < s.size.tdiv 2 then walkTo s.next n.toNat s.first
  else if 2 ^ 31 ≤ n + 1 then .error .intRange
  else walkTo s.previous (s.size - (n + 1)).toNat s.last

def removeEntry (s : LinkedList α) : Option ℕ → Except Fault (LinkedList α × Bool)
  | none => .ok (s.failed .invalidNullParam, false)
  | some e =>
    let s := s.checked.modified
    let s : LinkedList α := { s with size := int32 (s.size - 1) }
    if s.size = 0 then .ok ({ s with first := none, last := none }, true)
    else if some e = s.first then do
      let next ← deref (s.next e)
      .ok ({ s with first := s.next e }.setPrevious next none, true)
    else if some e = s.last then do
      let previous ← deref (s.previous e)
      .ok ({ s with last := s.previous e }.setNext previous none, true)
    else do
      let next ← deref (s.next e)
      let s := s.setPrevious next (s.previous e)
      let previous ← deref (s.previous e)
      .ok (s.setNext previous (s.next e), true)

/-- `axutil_linked_list_check_bounds_inclusive`, of which the callers drop the result. -/
def checkBoundsInclusive (s : LinkedList α) (index : ℤ) : LinkedList α × Bool :=
  if index < 0 ∨ index > s.size then (s.failed .indexOutOfBounds, false) else (s, true)

def checkBoundsExclusive (s : LinkedList α) (index : ℤ) : LinkedList α × Bool :=
  if index < 0 ∨ index ≥ s.size then (s.failed .indexOutOfBounds, false) else (s, true)

end Entries

section Updates

def removeFirst (s : LinkedList α) : Except Fault (LinkedList α × Option α) :=
  if s.size = 0 then .ok (s.failed .noSuchElement, none)
  else do
    let s := { s.modified with size := int32 (s.size - 1) }
    let first ← deref s.first
    let r := s.data first
    let s := match s.next first with
      | some next => s.setPrevious next none
      | none => { s with last := none }
    .ok ({ s with first := s.next first }, r)

def removeLast (s : LinkedList α) : Except Fault (LinkedList α × Option α) :=
  if s.size = 0 then .ok (s.failed .noSuchElement, none)
  else do
    let s := { s.modified with size := int32 (s.size - 1) }
    let last ← deref s.last
    let r := s.data last
    let s := match s.previous last with
      | some previous => s.setNext previous none
      | none => { s with first := none }
    .ok ({ s with last := s.previous last }, r)

def addFirst (s : LinkedList α) : Option α → Except Fault (LinkedList α × Bool)
  | none => .ok (s.failed .invalidNullParam, false)
  | some o =>
    let (s, e) := createEntry s.checked o
    let s := s.modified
    if s.size = 0 then
      .ok ({ s with first := some e, last := some e, size := int32 (s.size + 1) }, true)
    else do
      let s := s.setNext e s.first
      let first ← deref s.first
      let s := s.setPrevious first (some e)
      .ok ({ s with first := some e, size := int32 (s.size + 1) }, true)

def addLast (s : LinkedList α) : Option α → Except Fault (LinkedList α × Bool)
  | none => .ok (s.failed .invalidNullParam, false)
  | some o => do
      let (s, e) := createEntry s.checked o
      let s ← addLastEntry s e
      .ok (s, true)

/-- `axutil_linked_list_add`, of the same text as `axutil_linked_list_add_last`. -/
def add (s : LinkedList α) (o : Option α) : Except Fault (LinkedList α × Bool) := addLast s o

def clear (s : LinkedList α) : LinkedList α × Bool :=
  if s.size > 0 then ({ s.modified with first := none, last := none, size := 0 }, true)
  else (s, true)

def set (s : LinkedList α) (index : ℤ) : Option α → Except Fault (LinkedList α × Option α)
  | none => .ok (s.failed .invalidNullParam, none)
  | some o => do
      let s := (checkBoundsExclusive s.checked index).1
      let e ← getEntry s index
      let e ← deref e
      .ok (s.setData e o, s.data e)

def addAtIndex (s : LinkedList α) (index : ℤ) : Option α → Except Fault (LinkedList α × Bool)
  | none => .ok (s.failed .invalidNullParam, false)
  | some o =>
    let s := (checkBoundsInclusive s.checked index).1
    let (s, e) := createEntry s o
    if index < s.size then do
      let s := s.modified
      let after ← getEntry s index
      let s := s.setNext e after
      let after ← deref after
      let s := s.setPrevious e (s.previous after)
      let s := match s.previous after with
        | none => { s with first := some e }
        | some previous => s.setNext previous (some e)
      let s := s.setPrevious after (some e)
      .ok ({ s with size := int32 (s.size + 1) }, true)
    else do
      let s ← addLastEntry s e
      .ok (s, true)

def removeAtIndex (s : LinkedList α) (index : ℤ) : Except Fault (LinkedList α × Option α) := do
  let s := (checkBoundsExclusive s index).1
  let e ← getEntry s index
  let (s, _) ← removeEntry s e
  let e ← deref e
  .ok (s, s.data e)

end Updates

section Queries

variable [DecidableEq α]

def get (s : LinkedList α) (index : ℤ) : Except Fault (LinkedList α × Option α) := do
  let s := (checkBoundsExclusive s index).1
  let e ← getEntry s index
  let e ← deref e
  .ok (s, s.data e)

/-- The loops that look for an object: the first entry with it and the number of entries in
front of it. -/
def seek (s : LinkedList α) (link : ℕ → Option ℕ) (o : α) :
    ℕ → Option ℕ → Except Fault (Option (ℕ × ℕ))
  | _, none => .ok none
  | 0, some _ => .error .endless
  | fuel + 1, some e =>
    if some o = s.data e then .ok (some (e, 0))
    else do
      let found ← seek s link o fuel (link e)
      .ok (found.map fun (f, n) => (f, n + 1))

def contains (s : LinkedList α) : Option α → Except Fault (LinkedList α × Bool)
  | none => .ok (s.failed .invalidNullParam, false)
  | some o => do
      let found ← seek s s.next o s.fresh s.first
      .ok (s.checked, found.isSome)

/-- `axutil_linked_list_index_of`; `AXIS2_FAILURE` is 0. -/
def indexOf (s : LinkedList α) : Option α → Except Fault (LinkedList α × ℤ)
  | none => .ok (s.failed .invalidNullParam, 0)
  | some o => do
      let found ← seek s s.next o s.fresh s.first
      match found with
      | some (_, n) => .ok (s.checked, n)
      | none => .ok (s.checked, -1)

def lastIndexOf (s : LinkedList α) : Option α → Except Fault (LinkedList α × ℤ)
  | none => .ok (s.failed .invalidNullParam, 0)
  | some o => do
      let found ← seek s s.previous o s.fresh s.last
      match found with
      | some (_, n) => .ok (s.checked, s.size - 1 - n)
      | none => .ok (s.checked, -1)

def remove (s : LinkedList α) : Option α → Except Fault (LinkedList α × Bool)
  | none => .ok (s.failed .invalidNullParam, false)
  | some o => do
      let found ← seek s s.next o s.fresh s.first
      match found with
      | some (e, _) => removeEntry s.checked (some e)
      | none => .ok (s.checked, false)

/-- The loop of `axutil_linked_list_to_array`. -/
def toArrayLoop (s : LinkedList α) : ℕ → Option ℕ → Except Fault (List (Option α))
  | 0, _ => .ok []
  | i + 1, e => do
      let e ← deref e
      let array ← toArrayLoop s i (s.next e)
      .ok (s.data e :: array)

def toArray (s : LinkedList α) : Except Fault (List (Option α)) :=
  toArrayLoop s s.size.toNat s.first

end Queries

end Axis2C.LinkedLists
