import Axis2C.StatefulRuns
import Axis2C.Utf8Codec
import Mathlib.Tactic

/-!
# Input of the guththila pull parser

Readers, buffers and the functions that fetch bytes and characters. A memory
reader owns one buffer with the whole document. An IO reader is given by the
pieces its callback will deliver: a request takes at most what it asks for from
the first piece. It fills a new buffer, twice as large, each time the current
one is used up, and carries the open token over. Only the current buffer is
kept here: earlier ones are never read again, since closed tokens are values.
Memory allocation succeeds.
-/
namespace Axis2C.Guththila
open StatefulRuns

inductive Reader
  | memory
  /-- `garbage` is what the first allocated byte holds before it is written. -/
  | io (pieces : List (List UInt8)) (garbage : UInt8)
  deriving Repr, DecidableEq

/-- The current buffer: `buff` holds its `data_size` bytes. -/
structure Buffer where
  buff : List UInt8
  buffSize : ℕ
  preTotData : ℕ
  /-- Whether `cur_buff` is not -1. -/
  allocated : Bool
  deriving Repr, DecidableEq

/-- The part of `guththila_t` that the reading functions use. `last_start` is
the index of the first byte of the open token, `none` for -1. -/
structure Input where
  reader : Reader
  buffer : Buffer
  next : ℕ
  lastStart : Option ℕ
  decoder : Decoder
  deriving Repr, DecidableEq

/-- Why a function does not go on. -/
inductive Exit
  /-- `return -1` from inside a loop. -/
  | returned
  /-- A NULL pointer or a variable that was never set is used. -/
  | fault
  /-- A pointer in front of the current buffer is used. -/
  | outsideBuffer
  /-- The callback is asked for no bytes, or for a negative number of them. -/
  | badRequest
  | outOfFuel
  deriving Repr, DecidableEq

abbrev Reading := EStateM Exit Input

def bufferDefSize : ℕ := 16384

def Buffer.byteAt (b : Buffer) (pos : ℕ) : Option UInt8 :=
  if b.preTotData ≤ pos then b.buff[pos - b.preTotData]? else none

/-- `guththila_reader_read`: the bytes delivered and the pieces left. The
callback says 0 at the end of the input; it cannot serve a request that the
conversion to `int` has made zero or negative. -/
def readerRead (pieces : List (List UInt8)) (length : ℤ) :
    Option (List UInt8 × List (List UInt8)) :=
  match pieces with
  | [] => some ([], [])
  | piece :: rest =>
    if length ≤ 0 then none
    else if piece.length ≤ length then some (piece, rest)
    else some (piece.take length.toNat, piece.drop length.toNat :: rest)

/-- Conversion of a `size_t` to `int`. -/
def toInt (n : ℕ) : ℤ := Int.bmod n (2 ^ 32)

def Buffer.dataMove (b : Buffer) (lastStart : Option ℕ) : Option (List UInt8) :=
  match lastStart with
  | none => some []
  | some start =>
    if b.preTotData ≤ start then some (b.buff.drop (start - b.preTotData)) else none

/-- The buffer after the switch to one of twice the size, before anything is read. -/
def Buffer.switch (b : Buffer) (moved : List UInt8) : Buffer :=
  { b with
    buff := moved
    buffSize := b.buffSize * 2
    preTotData := b.preTotData + (b.buff.length - moved.length) }

/-- The last part of `guththila_next_byte`: the byte at `next`, which is in the buffer. -/
def fetch : Reading ℤ := fun i =>
  match i.buffer.byteAt i.next with
  | some byte => .ok byte.toNat { i with next := i.next + 1 }
  | none => .error .outsideBuffer i

/-- The branch of `guththila_next_byte` that has used up the current buffer. -/
def refill (pieces : List (List UInt8)) (garbage : UInt8) : Reading ℤ := fun i =>
  match i.buffer.dataMove i.lastStart with
  | none => .error .outsideBuffer i
  | some moved =>
    let b := i.buffer.switch moved
    match readerRead pieces (toInt (b.buffSize - moved.length)) with
    | none => .error .badRequest i
    | some ([], pieces) => .ok (-1) { i with buffer := b, reader := .io pieces garbage }
    | some (got, pieces) =>
      fetch { i with buffer := { b with buff := moved ++ got }, reader := .io pieces garbage }

/-- The branch that allocates the first buffer. It returns a byte of it even if
nothing was read. -/
def firstFill (pieces : List (List UInt8)) (garbage : UInt8) : Reading ℤ := fun i =>
  match readerRead pieces bufferDefSize with
  | none => .error .badRequest i
  | some ([], pieces) =>
    .ok garbage.toNat
      { i with
        buffer := ⟨[], bufferDefSize, 0, true⟩
        reader := .io pieces garbage
        next := i.next + 1 }
  | some (got, pieces) =>
    fetch { i with buffer := ⟨got, bufferDefSize, 0, true⟩, reader := .io pieces garbage }

def nextByte : Reading ℤ := fun i =>
  match i.reader with
  | .memory => if i.next < i.buffer.buff.length then fetch i else .ok (-1) i
  | .io pieces garbage =>
    if i.buffer.allocated then
      if i.next < i.buffer.preTotData + i.buffer.buff.length then fetch i
      else refill pieces garbage i
    else firstFill pieces garbage i

def decode (byte : ℤ) : Reading DecodeResult := fun i =>
  let r := utf8DecoderDecode i.decoder (UInt8.ofNat byte.toNat)
  .ok r { i with decoder := r.decoder }

/-- The `while` loop around `guththila_utf8_decoder_decode`. A character takes
at most four bytes, so that many rounds are enough. -/
def decodeLoop : ℕ → Reading ℤ
  | 0 => throw .outOfFuel
  | rounds + 1 => do
      let byte ← nextByte
      if byte = -1 then return -1
      let r ← decode byte
      if r.decoder.isError then return -1
      if r.done then
        match r.codePoint with
        | some codePoint => return codePoint
        | none => throw .fault
      else decodeLoop rounds

/-- The code point of a character that ended a broken one, kept by the decoder. -/
def pendingChar : Reading (Option ℤ) := fun i =>
  if i.decoder.isError ∧ i.decoder.isCodePoint then
    .ok (some i.decoder.codePoint) { i with decoder := utf8DecoderClear i.decoder }
  else .ok none i

def nextChar : Reading ℤ := do
  match ← pendingChar with
  | some codePoint => return codePoint
  | none => decodeLoop 4

/-- The `while (i < no)` loop of `guththila_next_no_char`, `none` for -1. -/
def noCharLoop : ℕ → Reading (Option (List ℤ))
  | 0 => return some []
  | no + 1 => do
      let c ← decodeLoop 4
      if c = -1 then return none
      match ← noCharLoop no with
      | none => return none
      | some cs => return some (c :: cs)

def nextNoChar : ℕ → Reading (Option (List ℤ))
  | 0 => return some []
  | no + 1 => do
      match ← pendingChar with
      | some codePoint =>
        match ← noCharLoop no with
        | none => return none
        | some cs => return some ((codePoint : ℤ) :: cs)
      | none => noCharLoop (no + 1)

/-- `GUTHTHILA_TOKEN_OPEN` as far as the input goes: the index of the first byte
of the character read last, which is `_start - 1`. -/
def openPosition : Reading ℕ := fun i =>
  let start := i.next - i.decoder.usedBytes
  .ok start { i with lastStart := some start }

/-- The bytes of a token that began at index `start` and ends in front of the
last byte read: `size` bytes back from `GUTHTHILA_BUF_POS(next - 1)`. With
`back` the source first moves `next` back, and forward again afterwards. -/
def closePosition (start back : ℕ) : Reading (List UInt8) := fun i =>
  let size := i.next - back - (start + 1)
  let i' := { i with lastStart := none }
  if size = 0 then .ok [] i'
  else if i.buffer.preTotData ≤ start then
    .ok ((i.buffer.buff.drop (start - i.buffer.preTotData)).take size) i'
  else .error .outsideBuffer i'

/-- `m->next--`. -/
def stepBack : Reading Unit := fun i => .ok () { i with next := i.next - 1 }

/-! ### One character -/

lemma nextChar_pending {i : Input} (h : i.decoder.isError ∧ i.decoder.isCodePoint) :
    nextChar i = .ok i.decoder.codePoint { i with decoder := utf8DecoderClear i.decoder } := by
  have hpending : pendingChar i = .ok (some (i.decoder.codePoint : ℤ))
      { i with decoder := utf8DecoderClear i.decoder } := by
    simp only [pendingChar, if_pos h]
  exact bind_ok hpending

lemma nextChar_ready {i : Input} (h : ¬ (i.decoder.isError ∧ i.decoder.isCodePoint)) :
    nextChar i = decodeLoop 4 i := by
  have hpending : pendingChar i = .ok none i := by
    simp only [pendingChar, if_neg h]
  exact bind_ok hpending

lemma decodeLoop_end {i i' : Input} (h : nextByte i = .ok (-1) i') (rounds : ℕ) :
    decodeLoop (rounds + 1) i = .ok (-1) i' :=
  bind_ok h

lemma decodeLoop_byte {i i' : Input} {byte : ℕ} (h : nextByte i = .ok byte i') (rounds : ℕ) :
    decodeLoop (rounds + 1) i =
      let d := i'.decoder.store (UInt8.ofNat byte)
      if d.isError then .ok (-1) { i' with decoder := d }
      else if d.remainingBytes = 0 then
        if 0 < d.usedBytes then .ok d.codePoint { i' with decoder := d }
        else .error .fault { i' with decoder := d }
      else decodeLoop rounds { i' with decoder := d } := by
  have hne : (byte : ℤ) ≠ -1 := by omega
  have hdecode : decode byte i' = .ok (utf8DecoderDecode i'.decoder (UInt8.ofNat byte))
      { i' with decoder := i'.decoder.store (UInt8.ofNat byte) } := rfl
  refine (bind_ok h).trans ((run_ite_neg hne).trans ((bind_ok hdecode).trans ?_))
  by_cases herror : (i'.decoder.store (UInt8.ofNat byte)).isError = true
  · exact (run_ite_pos herror).trans (if_pos herror).symm
  refine (run_ite_neg herror).trans (Eq.trans ?_ (if_neg herror).symm)
  by_cases hdone : (i'.decoder.store (UInt8.ofNat byte)).remainingBytes = 0
  · refine (run_ite_pos (by simpa [utf8DecoderDecode] using hdone)).trans
      (Eq.trans ?_ (if_pos hdone).symm)
    by_cases hused : 0 < (i'.decoder.store (UInt8.ofNat byte)).usedBytes
    · have hpoint : (utf8DecoderDecode i'.decoder (UInt8.ofNat byte)).codePoint =
          some (i'.decoder.store (UInt8.ofNat byte)).codePoint := by
        simp [utf8DecoderDecode, Decoder.isCodePoint, hdone, hused]
      rw [hpoint, if_pos hused]
      rfl
    · have hpoint : (utf8DecoderDecode i'.decoder (UInt8.ofNat byte)).codePoint = none := by
        simp [utf8DecoderDecode, Decoder.isCodePoint, hused]
      rw [hpoint, if_neg hused]
      rfl
  · exact (run_ite_neg (by simpa [utf8DecoderDecode] using hdone)).trans (if_neg hdone).symm

end Axis2C.Guththila
