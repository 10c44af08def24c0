import Mathlib.Data.Nat.Digits.Lemmas
import Mathlib.Tactic

/-!
# The HTTP chunked stream of axutil

Reader and writer of `http_chunked_stream.c` over an underlying stream that
accepts every write and may deliver less than a read asks for. The C buffers
have fixed sizes; a store outside one of them, or a negative length passed to a
read, is a fault. So is a read that can never return because the underlying
stream has ended inside a chunk.
-/
namespace Axis2C.HttpChunked

inductive Fault
  /-- `sprintf` past the end of `tmp_buf[10]`. -/
  | tmpBuf
  /-- `strcat` past the end of `str_chunk_len[512]`. -/
  | strChunkLen
  /-- A count outside the int range, which the comments of the source exclude. -/
  | readCount
  | stuck
  deriving Repr, DecidableEq

/-- The underlying stream. `deliver` says how much a read at a given position
hands over, within what was asked for and what is there. -/
structure Stream where
  written : List UInt8
  pending : List UInt8
  pos : ℕ
  deliver : ℕ → ℕ

def streamRead (s : Stream) (count : ℕ) : List UInt8 × Stream :=
  let len := min (max 1 (s.deliver s.pos)) (min count s.pending.length)
  (s.pending.take len, { s with pending := s.pending.drop len, pos := s.pos + len })

def streamWrite (s : Stream) (buffer : List UInt8) : Stream :=
  { s with written := s.written ++ buffer }

structure ChunkedStream where
  stream : Stream
  currentChunkSize : ℤ
  unreadLen : ℤ
  endOfChunks : Bool
  chunkStarted : Bool

def httpChunkedStreamCreate (stream : Stream) : ChunkedStream where
  stream := stream
  currentChunkSize := -1
  unreadLen := -1
  endOfChunks := false
  chunkStarted := false

/-- `AXIS2_HTTP_CRLF`. -/
def crlf : List UInt8 := [13, 10]

/-- A digit as `%x` prints it. -/
def hexDigit (d : ℕ) : UInt8 := UInt8.ofNat (if d < 10 then 48 + d else 87 + d)

/-- The text `%x` gives for an unsigned number. -/
def formatHex (n : ℕ) : List UInt8 :=
  if n = 0 then [48] else (Nat.digits 16 n).reverse.map hexDigit

/-- `(unsigned int) count` goes into the size line, `count` bytes into the chunk. -/
def httpChunkedStreamWrite (cs : ChunkedStream) (buffer : List UInt8) :
    Except Fault (ℕ × ChunkedStream) :=
  let tmpBuf := formatHex (buffer.length % 2 ^ 32) ++ crlf
  if 10 < tmpBuf.length + 1 then .error .tmpBuf
  else
    let stream := streamWrite (streamWrite (streamWrite cs.stream tmpBuf) buffer) crlf
    .ok (buffer.length, { cs with stream := stream })

def httpChunkedStreamWriteLastChunk (cs : ChunkedStream) : ChunkedStream :=
  { cs with stream := streamWrite cs.stream [48, 13, 10, 13, 10] }

section Strtol

/-- The white space `strtol` skips. -/
def isSpace (c : UInt8) : Bool := c = 32 || (9 ≤ c && c ≤ 13)

def hexValue (c : UInt8) : Option ℕ :=
  if 48 ≤ c ∧ c ≤ 57 then some (c.toNat - 48)
  else if 97 ≤ c ∧ c ≤ 102 then some (c.toNat - 87)
  else if 65 ≤ c ∧ c ≤ 70 then some (c.toNat - 55)
  else none

/-- The number the leading hexadecimal digits of a text spell. -/
def hexNumber : ℕ → List UInt8 → ℕ
  | acc, [] => acc
  | acc, c :: text =>
    match hexValue c with
    | some d => hexNumber (acc * 16 + d) text
    | none => acc

def skipHexMark : List UInt8 → List UInt8
  | 48 :: 120 :: text => text
  | 48 :: 88 :: text => text
  | text => text

/-- `strtol(text, NULL, 16)` with a 64-bit `long`. -/
def strtol16 (text : List UInt8) : ℤ :=
  match text.dropWhile isSpace with
  | 45 :: text => max (-(hexNumber 0 (skipHexMark text) : ℤ)) (-(2 ^ 63))
  | 43 :: text => min (hexNumber 0 (skipHexMark text) : ℤ) (2 ^ 63 - 1)
  | text => min (hexNumber 0 (skipHexMark text) : ℤ) (2 ^ 63 - 1)

/-- Conversion to a 32-bit `int`. -/
def toInt (v : ℤ) : ℤ := Int.bmod v (2 ^ 32)

end Strtol

/-- The loop that reads the length and chunk extension byte by byte. Appending a
NUL with `strcat` appends nothing. -/
def readChunkLine : ℕ → Stream → List UInt8 → Except Fault (List UInt8 × Stream)
  | 0, s, line => .ok (line, s)
  | fuel + 1, s, line =>
    match streamRead s 1 with
    | ([], s) => .ok (line, s)
    | (b :: _, s) =>
      let line := if b = 0 then line else line ++ [b]
      if 512 ≤ line.length then .error .strChunkLen
      else if crlf <:+: line then .ok (line, s)
      else readChunkLine fuel s line

def httpChunkedStreamStartChunk (cs : ChunkedStream) : Except Fault ChunkedStream :=
  -- remove the last CRLF of the previous chunk if any
  let stream := if cs.chunkStarted then (streamRead cs.stream 2).2 else cs.stream
  match readChunkLine (stream.pending.length + 1) stream [] with
  | .error f => .error f
  | .ok (line, stream) =>
    let size := toInt (strtol16 (line.takeWhile (· ≠ 59)))
    if size = 0 then
      .ok { cs with
        stream := (streamRead stream 2).2, currentChunkSize := 0, endOfChunks := true,
        chunkStarted := false }
    else
      .ok { cs with
        stream := stream, currentChunkSize := size, unreadLen := size, chunkStarted := true }

/-- The loop of the read; `out` is what the buffer holds so far. A pass that
neither ends the chunks nor takes a byte would be repeated for ever. -/
def readLoop : ℕ → ChunkedStream → ℕ → List UInt8 → Except Fault (List UInt8 × ChunkedStream)
  | 0, _, _, _ => .error .stuck
  | fuel + 1, cs, yetToRead, out =>
    if cs.endOfChunks ∨ yetToRead = 0 then .ok (out, cs)
    else if cs.unreadLen < 0 then .error .readCount
    else if cs.unreadLen < yetToRead then
      let (bytes, stream) := streamRead cs.stream cs.unreadLen.toNat
      let cs := { cs with stream := stream, unreadLen := cs.unreadLen - bytes.length }
      match if cs.unreadLen ≤ 0 then httpChunkedStreamStartChunk cs else .ok cs with
      | .error f => .error f
      | .ok cs => readLoop fuel cs (yetToRead - bytes.length) (out ++ bytes)
    else
      let (bytes, stream) := streamRead cs.stream yetToRead
      readLoop fuel { cs with stream := stream, unreadLen := cs.unreadLen - bytes.length }
        (yetToRead - bytes.length) (out ++ bytes)

/-- The bytes stored in the buffer; the source returns their number. -/
def httpChunkedStreamRead (cs : ChunkedStream) (count : ℕ) :
    Except Fault (List UInt8 × ChunkedStream) :=
  if cs.endOfChunks then .ok ([], cs)
  else
    match if cs.chunkStarted then .ok cs else httpChunkedStreamStartChunk cs with
    | .error f => .error f
    | .ok cs =>
      if 2 ^ 31 ≤ count then .error .readCount
      else readLoop (cs.stream.pending.length + 2) cs count []

/-- The bytes on the wire after the given writes and the last chunk. -/
def writeAll (writes : List (List UInt8)) : Except Fault (List UInt8) :=
  let created := httpChunkedStreamCreate ⟨[], [], 0, fun _ => 0⟩
  match writes.foldlM (fun cs w => (httpChunkedStreamWrite cs w).map Prod.snd) created with
  | .error f => .error f
  | .ok cs => .ok (httpChunkedStreamWriteLastChunk cs).stream.written

/-- The first `m` reads of a sequence, with everything they returned. -/
def readMany (sizes : ℕ → ℕ) : ℕ → ChunkedStream → Except Fault (List UInt8 × ChunkedStream)
  | 0, cs => .ok ([], cs)
  | m + 1, cs =>
    match readMany sizes m cs with
    | .error f => .error f
    | .ok (out, cs) =>
      match httpChunkedStreamRead cs (sizes m) with
      | .error f => .error f
      | .ok (bytes, cs) => .ok (out ++ bytes, cs)

end Axis2C.HttpChunked
