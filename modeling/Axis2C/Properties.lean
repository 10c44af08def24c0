import Axis2C.HashTable
import Mathlib.Data.List.DropRight

/-!
# The properties files of axutil

`axutil_properties_set_property`, `axutil_properties_store` and `axutil_properties_load`.
A file is its bytes, and it can be opened. The loader scans a buffer that it writes to; the
bytes from `tag` up to `cur` are kept as they are in the buffer by then, and the bytes from
`cur` on. Text in memory ends before its first NUL.
-/
namespace Axis2C.Properties
open HashTable

abbrev Bytes := List UInt8

/-- `axutil_properties`, by its hash table. -/
abbrev PropHash := Hash Bytes

def strdup (memory : Bytes) : Bytes := memory.takeWhile (· ≠ 0)

section Set

variable (properties : PropHash)

/-- `axutil_properties_get_property`. -/
def getProperty (key : Bytes) : Option Bytes := hashGet properties (.string key)

/-- `axutil_properties_set_property`. A new key is duplicated. -/
def setProperty (key : Bytes) (value : Option Bytes) : PropHash :=
  match getProperty properties key with
  | some _ => hashSet properties (.string key) (value.map strdup)
  | none => hashSet properties (.string (strdup key)) (value.map strdup)

/-- What `axutil_properties_store` prints, in the order of the hash table. -/
def store : Bytes :=
  (hashIterate properties).flatMap fun property =>
    strdup property.1 ++ 61 :: (strdup (property.2.getD []) ++ [10])

end Set

section Load

inductive LoadStatus
  | lineStarted
  | lineMidway
  | equalFound
  | lineHalfway
  deriving DecidableEq, Repr

/-- The bytes that `axutil_properties_read_next` passes over, as it leaves them, and the
bytes behind them. -/
def readNext : Bytes → Bytes × Bytes
  | 35 :: s =>
    ((35 :: s).takeWhile (fun c => c ≠ 10 ∧ c ≠ 0), (35 :: s).dropWhile (fun c => c ≠ 10 ∧ c ≠ 0))
  | 92 :: 10 :: s => ([32, 32], s)
  | s => ([], s)

/-- `axutil_properties_trunk_and_dup` on the bytes up to `end`. -/
def trunkAndDup (text : Bytes) : Bytes :=
  strdup ((text.dropWhile (· = 32)).rdropWhile (· = 32))

structure LoadState where
  status : LoadStatus
  tag : Bytes
  key : Bytes
  hash : PropHash

def LoadState.setTag (s : LoadState) : LoadState :=
  { s with hash := hashSet s.hash (.string s.key) (some (trunkAndDup s.tag)) }

/-- One round of the loop, up to `++cur`. A byte that is cut off is left as a NUL. -/
def loadStep (s : LoadState) (c : UInt8) : LoadState :=
  if c = 13 then { s with tag := s.tag ++ [0] }
  else if c ≠ 10 ∧ s.status = .lineStarted then { s with status := .lineMidway, tag := [c] }
  else if c = 61 ∧ s.status = .lineMidway then
    { s with status := .equalFound, key := trunkAndDup s.tag, tag := s.tag ++ [0] }
  else if s.status = .equalFound then { s with status := .lineHalfway, tag := [c] }
  else if c = 10 then
    { (if s.status = .lineHalfway then s.setTag else s) with
      status := .lineStarted, tag := s.tag ++ [0] }
  else { s with tag := s.tag ++ [c] }

lemma readNext_length (s : Bytes) : (readNext s).2.length ≤ s.length := by
  unfold readNext
  split
  · exact (List.dropWhile_suffix _).length_le
  · simp only [List.length_cons]
    omega
  · exact le_rfl

/-- The loop over the buffer. -/
def loadLoop (s : LoadState) : Bytes → LoadState
  | [] => s
  | c :: rest =>
    if c = 0 then s
    else
      let next := loadStep s c
      loadLoop { next with tag := next.tag ++ (readNext rest).1 } (readNext rest).2
termination_by buffer => buffer.length
decreasing_by
  have hle := readNext_length rest
  rw [List.length_cons]
  omega

def loadEnd (s : LoadState) : Bool × PropHash :=
  if s.status = .lineHalfway then (true, s.setTag.hash)
  else (decide (s.status = .lineStarted), s.hash)

/-- `axutil_properties_load`: the status and what becomes of the properties. -/
def load (properties : PropHash) (file : Bytes) : Bool × PropHash :=
  loadEnd (loadLoop ⟨.lineStarted, [], [], properties⟩ (readNext file).2)

end Load

end Axis2C.Properties
