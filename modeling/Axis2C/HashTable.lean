import Axis2C.LinkedSegments
import Mathlib.Data.List.Perm.Basic
import Mathlib.Data.Finset.Card

/-!
# The chained hash table of axutil

Entries are cells of a heap linked through their `next` fields: the chains of
the array and the list of recycled entries share that field, and a rehash
relinks the cells it is iterating over. The model therefore keeps addresses. A
slot is the `axutil_hash_entry_t **` through which the source reads and updates
a link. Allocation succeeds and returns a new address; `count` and `max` are
natural numbers.
-/
namespace Axis2C.HashTable
open LinkedSegments

variable {V : Type*}

/-- A key argument: `AXIS2_HASH_KEY_STRING` with the memory at the key pointer,
or the bytes covered by an explicit length. -/
inductive KeyArg
  | string (memory : List UInt8)
  | sized (bytes : List UInt8)
  deriving Repr, DecidableEq

/-- The bytes of the key; a string ends before its first NUL. -/
def KeyArg.content : KeyArg → List UInt8
  | .string memory => memory.takeWhile (· ≠ 0)
  | .sized bytes => bytes

/-- The `times 33` hash of the key in 32-bit arithmetic. -/
def hashOfBytes (key : List UInt8) : ℕ :=
  key.foldl (fun hash p => (hash * 33 + p.toNat) % 2 ^ 32) 0

/-- The hash together with the key as cut by the computed `klen`. -/
def hashfuncDefault (k : KeyArg) : ℕ × List UInt8 := (hashOfBytes k.content, k.content)

structure Entry (V : Type*) where
  next : Option ℕ
  hash : ℕ
  key : List UInt8
  val : Option V

structure Hash (V : Type*) where
  heap : ℕ → Entry V
  /-- The first address the allocator has not handed out. -/
  brk : ℕ
  array : List (Option ℕ)
  count : ℕ
  max : ℕ
  hashFunc : KeyArg → ℕ × List UInt8
  free : Option ℕ

def initialMax : ℕ := 15

def hashAllocArray (max : ℕ) : List (Option ℕ) := List.replicate (max + 1) none

def hashMake : Hash V where
  heap := fun _ => ⟨none, 0, [], none⟩
  brk := 0
  array := hashAllocArray initialMax
  count := 0
  max := initialMax
  hashFunc := hashfuncDefault
  free := none

def hashMakeCustom (hashFunc : KeyArg → ℕ × List UInt8) : Hash V :=
  { hashMake with hashFunc := hashFunc }

/-- An updatable pointer to a link: an array element or the `next` field of an entry. -/
inductive Slot
  | bucket (i : ℕ)
  | next (r : ℕ)
  deriving Repr, DecidableEq

def Hash.load (ht : Hash V) : Slot → Option ℕ
  | .bucket i => ht.array.getD i none
  | .next r => (ht.heap r).next

def Hash.setEntry (ht : Hash V) (r : ℕ) (he : Entry V) : Hash V :=
  { ht with heap := Function.update ht.heap r he }

def Hash.store (ht : Hash V) (s : Slot) (v : Option ℕ) : Hash V :=
  match s with
  | .bucket i => { ht with array := ht.array.set i v }
  | .next r => ht.setEntry r { ht.heap r with next := v }

/-- Scan a linked list for an entry with this hash and key. No list is longer
than the number of entries allocated, which bounds the loop. -/
def Hash.scan (ht : Hash V) (hash : ℕ) (key : List UInt8) : ℕ → Slot → Slot
  | 0, hep => hep
  | fuel + 1, hep =>
    match ht.load hep with
    | none => hep
    | some he =>
      if (ht.heap he).hash = hash ∧ (ht.heap he).key = key then hep
      else ht.scan hash key fuel (.next he)

/-- Take an entry off the free list, or allocate one. -/
def Hash.takeEntry (ht : Hash V) : ℕ × Hash V :=
  match ht.free with
  | some he => (he, { ht with free := (ht.heap he).next })
  | none => (ht.brk, { ht with brk := ht.brk + 1 })

/-- Add a new entry at the end of the list `hep` stands behind. -/
def Hash.addEntry (ht : Hash V) (hep : Slot) (hash : ℕ) (key : List UInt8) (val : Option V) :
    Hash V :=
  let (he, ht) := ht.takeEntry
  let ht := (ht.setEntry he ⟨none, hash, key, val⟩).store hep (some he)
  { ht with count := ht.count + 1 }

def hashFindEntry (ht : Hash V) (k : KeyArg) (val : Option V) : Slot × Hash V :=
  let (hash, key) := ht.hashFunc k
  let hep := ht.scan hash key (ht.brk + 1) (.bucket (hash &&& ht.max))
  if (ht.load hep).isSome || val.isNone then (hep, ht)
  else (hep, ht.addEntry hep hash key val)

def hashGet (ht : Hash V) (k : KeyArg) : Option V :=
  let (hep, ht) := hashFindEntry ht k none
  match ht.load hep with
  | none => none
  | some he => (ht.heap he).val

/-- `axutil_hash_index_t` without its back pointer to the table. -/
structure HashIndex where
  this : Option ℕ
  next : Option ℕ
  index : ℕ
  deriving Repr, DecidableEq

/-- `while (!hi->this)`: step through the array from `index` on, at most `fuel` elements. -/
def Hash.advance (ht : Hash V) : ℕ → Option ℕ → ℕ → Option (ℕ × ℕ)
  | _, some he, index => some (he, index)
  | 0, none, _ => none
  | fuel + 1, none, index =>
    if ht.max < index then none
    else ht.advance fuel (ht.array.getD index none) (index + 1)

def hashNextImpl (ht : Hash V) (hi : HashIndex) : Option HashIndex :=
  match ht.advance (ht.max + 2 - hi.index) hi.next hi.index with
  | none => none
  | some (he, index) => some ⟨some he, (ht.heap he).next, index⟩

def hashFirstImpl (ht : Hash V) : Option HashIndex := hashNextImpl ht ⟨none, none, 0⟩

/-- The loop of `axutil_hash_expand_array`: relink the entry under the iterator
into the new array, then move the iterator on. -/
def Hash.relink (newMax : ℕ) :
    ℕ → Option HashIndex → List (Option ℕ) → Hash V → List (Option ℕ) × Hash V
  | fuel + 1, some hi, newArray, ht =>
    match hi.this with
    | none => (newArray, ht)
    | some he =>
      let i := (ht.heap he).hash &&& newMax
      let ht := ht.setEntry he { ht.heap he with next := newArray.getD i none }
      Hash.relink newMax fuel (hashNextImpl ht hi) (newArray.set i (some he)) ht
  | _, _, newArray, ht => (newArray, ht)

def hashExpandArray (ht : Hash V) : Hash V :=
  let newMax := ht.max * 2 + 1
  let (newArray, ht) :=
    Hash.relink newMax (ht.brk + 1) (hashFirstImpl ht) (hashAllocArray newMax) ht
  { ht with array := newArray, max := newMax }

/-- Unlink the entry `hep` points to and put it on the free list. -/
def Hash.removeEntry (ht : Hash V) (hep : Slot) (old : ℕ) : Hash V :=
  let ht := ht.store hep (ht.heap old).next
  let ht := ht.setEntry old { ht.heap old with next := ht.free }
  { ht with free := some old, count := ht.count - 1 }

def hashSet (ht : Hash V) (k : KeyArg) (val : Option V) : Hash V :=
  let (hep, ht) := hashFindEntry ht k val
  match ht.load hep, val with
  | some old, none => ht.removeEntry hep old
  | some he, some v =>
    let ht := ht.setEntry he { ht.heap he with val := some v }
    if ht.max < ht.count then hashExpandArray ht else ht
  | none, _ => ht

def hashCount (ht : Hash V) : ℕ := ht.count

/-- `for (hi = first; hi; hi = next)`, collecting `axutil_hash_this`. -/
def Hash.collect (ht : Hash V) : ℕ → Option HashIndex → List (List UInt8 × Option V)
  | fuel + 1, some hi =>
    match hi.this with
    | none => []
    | some he => ((ht.heap he).key, (ht.heap he).val) :: ht.collect fuel (hashNextImpl ht hi)
  | _, _ => []

def hashIterate (ht : Hash V) : List (List UInt8 × Option V) :=
  ht.collect (ht.brk + 1) (hashFirstImpl ht)

/-- The entries met by following the chain at array index `i`. -/
def Hash.chainFrom (ht : Hash V) : ℕ → Option ℕ → List (Entry V)
  | fuel + 1, some he => ht.heap he :: ht.chainFrom fuel (ht.heap he).next
  | _, _ => []

def hashChain (ht : Hash V) (i : ℕ) : List (Entry V) :=
  ht.chainFrom (ht.brk + 1) (ht.array.getD i none)

end Axis2C.HashTable
