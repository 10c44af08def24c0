import Axis2C.RawMemory
import Mathlib.Data.Vector.Basic

/-!
# The delimiter search of the MIME parser

The parser of `mime_parser.c` reads a message into a row of buffers and looks for delimiters in
them. A buffer is an allocation of `size + 1` bytes of which the read callback fills the first
ones. The others keep what was in the memory before.
-/
namespace Axis2C.Mime

open FirstOccurrence RawMemory

variable {size : ℕ}

/-- What the memory of a new buffer holds. -/
abbrev Block (size : ℕ) := List.Vector UInt8 (size + 1)

/-- The bytes that one call of the read callback delivers. -/
structure Chunk (size : ℕ) where
  bytes : List UInt8
  nonempty : bytes ≠ []
  fits : bytes.length ≤ size

/-- An allocated buffer, with the bytes up to its recorded length and those behind it. -/
structure Buffer (size : ℕ) where
  data : List UInt8
  stale : List UInt8
  total : data.length + stale.length = size + 1
  fits : data.length ≤ size

namespace Buffer

def block (b : Buffer size) : List UInt8 := b.data ++ b.stale

@[simp] lemma length_block (b : Buffer size) : b.block.length = size + 1 := by
  rw [block, List.length_append, b.total]

/-- A new buffer. -/
def empty (memory : Block size) : Buffer size where
  data := []
  stale := memory.toList
  total := by simp
  fits := Nat.zero_le _

/-- A new buffer after the callback has written into it. -/
def fill (memory : Block size) (chunk : Chunk size) : Buffer size where
  data := chunk.bytes
  stale := memory.toList.drop chunk.bytes.length
  total := by
    have := chunk.fits
    rw [List.length_drop, List.Vector.toList_length]
    omega
  fits := chunk.fits

end Buffer

/-- The recorded bytes of an entry of `buf_array`, which may be NULL. -/
def dataOf (b : Option (Buffer size)) : List UInt8 := (b.map Buffer.data).getD []

/-- All bytes of the allocation that an entry of `buf_array` points to. -/
def blockOf (b : Option (Buffer size)) : List UInt8 := (b.map Buffer.block).getD []

@[simp] lemma dataOf_some (b : Buffer size) : dataOf (some b) = b.data := rfl
@[simp] lemma dataOf_none : dataOf (none : Option (Buffer size)) = [] := rfl
@[simp] lemma blockOf_some (b : Buffer size) : blockOf (some b) = b.block := rfl
/-- A search string, which as a C string holds no NUL. -/
structure SearchString where
  bytes : List UInt8
  nonempty : bytes ≠ []
  text : 0 ∉ bytes

namespace SearchString

def first (s : SearchString) : UInt8 := s.bytes.head s.nonempty

/-- `strlen`. -/
def length (s : SearchString) : ℕ := s.bytes.length

lemma length_pos (s : SearchString) : 0 < s.length := List.length_pos_iff.mpr s.nonempty

/-- `"\r\n\r\n"` -/
def crlf : SearchString := ⟨[13, 10, 13, 10], by decide, by decide⟩

end SearchString

/-- What `handler` points to while an attachment is cached. -/
inductive Handler where
  | callback (mimeId : List UInt8)
  | file (mimeId : List UInt8)
  | buffer (bytes : List UInt8)

/-- `len1` and `len2` are the lengths of the recorded bytes of the two buffers. -/
structure SearchInfo (size : ℕ) where
  searchStr : SearchString
  buffer1 : Option (Buffer size)
  buffer2 : Option (Buffer size)
  primarySearch : Bool
  matchLen1 : ℤ
  matchLen2 : ℤ
  cached : Bool
  handler : Option Handler
  binarySize : ℤ

namespace SearchInfo

def len1 (info : SearchInfo size) : ℤ := (dataOf info.buffer1).length

def searchBuffer (info : SearchInfo size) : Option (Option ℤ) :=
  scanFor (blockOf info.buffer1) info.searchStr.first
    (info.len1 - info.searchStr.length + 1)
    (fun pos => strstr 0 info.searchStr.bytes (blockOf info.buffer1) pos)
    ((dataOf info.buffer1).length + 1) 0

/-- Whether the string begins at `pos` in the first buffer and goes on in the second one, and then
the length of the part there. -/
def matchParts (info : SearchInfo size) (pos : ℤ) : Option (Option (ℤ × ℤ)) :=
  let offset := (info.len1 - pos).toNat
  -- without an offset the loop would stay where it is
  if offset = 0 then none
  else (memcmp (blockOf info.buffer1) pos (info.searchStr.bytes.take offset)).bind fun front =>
    if front then
      (memcmp (blockOf info.buffer2) 0 (info.searchStr.bytes.drop offset)).map fun back =>
        if back then some (pos, (info.searchStr.length : ℤ) - offset) else none
    else some none

def searchParts (info : SearchInfo size) : Option (Option (ℤ × ℤ)) :=
  scanFor (blockOf info.buffer1) info.searchStr.first info.len1 info.matchParts
    info.searchStr.length (info.len1 - info.searchStr.length + 1)

/-- Afterwards the next search is to begin with a search for the whole string. -/
def reportParts (info : SearchInfo size) : Option (ℤ × ℤ) → Option ℤ × SearchInfo size
  | some (pos, rest) =>
    (some pos, { info with primarySearch := false, matchLen2 := rest, matchLen1 := pos })
  | none => (none, { info with primarySearch := false })

end SearchInfo

/-- Gives the offset of the match in `buffer1`. -/
def searchString (info : SearchInfo size) : Option (Option ℤ × SearchInfo size) :=
  (if info.primarySearch then some none else info.searchBuffer).bind fun
    | some found => some (some found, { info with primarySearch := true, matchLen1 := found })
    | none =>
      match info.buffer2 with
      | none => some (none, { info with primarySearch := true })
      | some _ => info.searchParts.map info.reportParts

/-- The buffers of the parser, what the callback has still to deliver, and what the memory of the
next allocations holds. -/
structure Reader (size : ℕ) where
  bufArray : ℕ → Option (Buffer size)
  bufNum : ℕ
  chunks : List (Chunk size)
  heap : ℕ → Block size

namespace Reader

def current (r : Reader size) : Option (Buffer size) := r.bufArray r.bufNum

/-- The reader after `b` has become the next buffer. -/
def push (r : Reader size) (b : Buffer size) (chunks : List (Chunk size)) : Reader size where
  bufArray := Function.update r.bufArray (r.bufNum + 1) (some b)
  bufNum := r.bufNum + 1
  chunks := chunks
  heap := fun n => r.heap (n + 1)

/-- Allocates the next buffer and has the callback fill it. Nothing checks that the array has room
for it. -/
def addBuffer (maxBuffers : ℕ) (r : Reader size) : Option (Option (Buffer size) × Reader size) :=
  if r.bufNum + 1 < maxBuffers then
    match r.chunks with
    | [] => some (none, r.push (.empty (r.heap 0)) [])
    | chunk :: chunks =>
      let b := Buffer.fill (r.heap 0) chunk
      some (some b, r.push b chunks)
  else none

end Reader

/-- What a search returns and leaves. -/
structure Outcome (size : ℕ) where
  found : Option ℤ
  reader : Reader size
  info : SearchInfo size

/-- What was found is the outcome, otherwise the search goes on. -/
def foundOr (r : Reader size) (next : SearchInfo size → Option (Outcome size)) :
    Option ℤ × SearchInfo size → Option (Outcome size)
  | (some found, info) => some ⟨some found, r, info⟩
  | (none, info) => next info

/-- Reads buffers until the string is found or the stream has ended. -/
def searchLoop (maxBuffers : ℕ) : ℕ → Reader size → SearchInfo size → Option (Outcome size)
  | 0, _, _ => none
  | fuel + 1, r, info =>
    (r.addBuffer maxBuffers).bind fun
      | (none, r) => some ⟨none, r, info⟩
      | (some b, r) =>
        (searchString { info with buffer2 := some b }).bind <| foundOr r fun info =>
          -- a full search in the second buffer
          (searchString { info with
              buffer1 := some b, primarySearch := false, buffer2 := none }).bind <|
            foundOr r fun info => searchLoop maxBuffers fuel r info

/-- The two searches after they have reset the search information. -/
def searchFrom (maxBuffers : ℕ) (r : Reader size) (info : SearchInfo size) :
    Option (Outcome size) :=
  match r.current with
  | none => searchLoop maxBuffers (r.chunks.length + 1) r info
  | some b =>
    (searchString { info with buffer1 := some b }).bind <| foundOr r fun info =>
      searchLoop maxBuffers (r.chunks.length + 1) r info

/-- `axiom_mime_parser_search_for_crlf` -/
def searchForCrlf (maxBuffers : ℕ) (r : Reader size) : Option (Outcome size) :=
  searchFrom maxBuffers r {
    searchStr := .crlf
    buffer1 := none
    buffer2 := none
    primarySearch := false
    matchLen1 := 0
    matchLen2 := 0
    cached := false
    handler := none
    binarySize := 0 }

/-- `axiom_mime_parser_search_for_soap` -/
def searchForSoap (maxBuffers : ℕ) (mimeBoundary : SearchString) (r : Reader size)
    (info : SearchInfo size) : Option (Outcome size) :=
  searchFrom maxBuffers r { info with
    searchStr := mimeBoundary
    buffer1 := none
    buffer2 := none
    primarySearch := false
    matchLen1 := 0
    matchLen2 := 0 }

end Axis2C.Mime
