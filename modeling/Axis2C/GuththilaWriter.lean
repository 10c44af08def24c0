import Mathlib.Data.List.Basic
import Mathlib.Data.Int.Basic
import Mathlib.Tactic

/-!
# The memory writer of Guththila

The output is kept in an array of buffers, each at least twice the size of the
one before it. `guththila_write` and `guththila_write_token` fill a buffer to
its last byte and carry on in the next; `guththila_write_xtoken` puts what does
not fit into the next buffer as a whole. A copy past the end of a buffer and a
store past the end of the array are faults. Allocation succeeds.
-/
namespace Axis2C.GuththilaWriter

inductive Fault
  /-- `memcpy` past the allocated size of a buffer. -/
  | overrun
  /-- A store past the last element of `buff`, `data_size` and `buffs_size`. -/
  | noSlot
  deriving Repr, DecidableEq

/-- One buffer: its allocated size and the bytes it has been filled with. -/
structure Buff where
  size : ℕ
  data : List UInt8
  deriving Repr, DecidableEq

structure Buffer where
  /-- The buffers in front of the current one. -/
  filled : List Buff
  cur : Buff
  preTotData : ℕ
  noBuffers : ℕ
  deriving Repr, DecidableEq

def bufferDefSize : ℕ := 16384

def bufferNumberOfBuffers : ℕ := 16

def bufferInit (size : ℕ) : Buffer where
  filled := []
  cur := ⟨size, []⟩
  preTotData := 0
  noBuffers := bufferNumberOfBuffers

def Buffer.curBuff (b : Buffer) : ℕ := b.filled.length

/-- `memcpy` behind the data of a buffer. -/
def Buff.copy (b : Buff) (bytes : List UInt8) : Except Fault Buff :=
  if b.data.length + bytes.length ≤ b.size then .ok { b with data := b.data ++ bytes }
  else .error .overrun

def Buffer.remainLen (b : Buffer) : ℕ := b.cur.size - b.cur.data.length

/-- `while (temp < need) temp = temp * 2`; `need` passes are enough. -/
def growTo : ℕ → ℕ → ℕ → ℕ
  | 0, temp, _ => temp
  | fuel + 1, temp, need => if temp < need then growTo fuel (temp * 2) need else temp

/-- A next buffer that takes the bytes; the arrays are doubled when it has no place in them. -/
def Buffer.next (b : Buffer) (bytes : List UInt8) : Except Fault Buffer :=
  let noBuffers := if b.noBuffers - 1 = b.curBuff then b.noBuffers * 2 else b.noBuffers
  let temp := growTo bytes.length (b.cur.size * 2) bytes.length
  if noBuffers ≤ b.curBuff + 1 then .error .noSlot
  else do
    let cur ← Buff.copy ⟨temp, []⟩ bytes
    .ok {
      filled := b.filled ++ [b.cur]
      cur := cur
      preTotData := b.preTotData + b.cur.data.length
      noBuffers := noBuffers }

def Buffer.writeSplit (b : Buffer) (bytes : List UInt8) : Except Fault Buffer :=
  let remainLen := b.remainLen
  if bytes.length < remainLen then do
    let cur ← b.cur.copy bytes
    .ok { b with cur := cur }
  else do
    let cur ← (if remainLen ≠ 0 then b.cur.copy (bytes.take remainLen) else .ok b.cur)
    Buffer.next { b with cur := cur } (bytes.drop remainLen)

/-- The bytes are kept together. -/
def Buffer.writeWhole (b : Buffer) (bytes : List UInt8) : Except Fault Buffer :=
  if bytes.length < b.remainLen then do
    let cur ← b.cur.copy bytes
    .ok { b with cur := cur }
  else b.next bytes

/-- The block that is returned, with its closing NUL. -/
def bufferGet (b : Buffer) : List UInt8 := (b.filled ++ [b.cur]).flatMap Buff.data ++ [0]

inductive Status
  | start
  | startEmpty
  | begining
  deriving Repr, DecidableEq

/-- A token: the buffer it points into, the place there and its size. -/
structure Token where
  buff : ℕ
  start : ℤ
  size : ℕ
  deriving Repr, DecidableEq

structure Element where
  pref : Option Token
  name : Token
  /-- `none` is -1. -/
  nameSpStackNo : Option ℕ
  deriving Repr, DecidableEq

/-- The namespaces that one element declares. -/
structure Namesp where
  name : List Token
  uri : List Token
  deriving Repr, DecidableEq

/-- The writer, the stacks with their tops in front. -/
structure XmlWriter where
  buffer : Buffer
  next : ℤ
  status : Status
  element : List Element
  namesp : List Namesp
  /-- What stands in memory outside the bytes written. -/
  stray : ℕ → ℤ → UInt8

def createXmlStreamWriterForMemory (stray : ℕ → ℤ → UInt8) : XmlWriter where
  buffer := bufferInit bufferDefSize
  next := 0
  status := .begining
  element := []
  namesp := []
  stray := stray

/-- Conversion to a 32-bit `int`. -/
def toInt (v : ℤ) : ℤ := Int.bmod v (2 ^ 32)

/-- The writer with its buffers after a write of `len` bytes. -/
def XmlWriter.wrote (wr : XmlWriter) (buffer : Buffer) (len : ℕ) : XmlWriter :=
  { wr with buffer := buffer, next := toInt (wr.next + toInt len) }

def write (wr : XmlWriter) (buff : List UInt8) : Except Fault XmlWriter := do
  let buffer ← wr.buffer.writeSplit buff
  .ok (wr.wrote buffer buff.length)

def writeToken (wr : XmlWriter) (tok : List UInt8) : Except Fault XmlWriter := do
  let buffer ← wr.buffer.writeSplit tok
  .ok (wr.wrote buffer tok.length)

def writeXtoken (wr : XmlWriter) (buff : List UInt8) : Except Fault XmlWriter := do
  let buffer ← wr.buffer.writeWhole buff
  .ok (wr.wrote buffer buff.length)

/-- The conversion is to `unsigned int`. -/
def getMemoryBufferSize (wr : XmlWriter) : ℕ :=
  (wr.buffer.preTotData + wr.buffer.cur.data.length) % 2 ^ 32

/-! ### The buffers -/

/-- All bytes written, in order. -/
def Buffer.output (b : Buffer) : List UInt8 := b.filled.flatMap Buff.data ++ b.cur.data

/-- The bookkeeping of the buffers. -/
structure Buffer.Wf (b : Buffer) : Prop where
  fits : b.cur.data.length ≤ b.cur.size
  size : 0 < b.cur.size
  pre : b.preTotData = (b.filled.flatMap Buff.data).length
  slots : b.curBuff < b.noBuffers

section Buffers

variable {b : Buffer}

lemma bufferGet_eq (b : Buffer) : bufferGet b = b.output ++ [0] := by
  simp [bufferGet, Buffer.output]

lemma wf_bufferInit : (bufferInit bufferDefSize).Wf where
  fits := Nat.zero_le _
  size := by decide
  pre := rfl
  slots := by decide

lemma le_growTo (fuel : ℕ) {temp need : ℕ} (htemp : 0 < temp) (hneed : need ≤ temp + fuel) :
    need ≤ growTo fuel temp need ∧ temp ≤ growTo fuel temp need := by
  induction fuel generalizing temp with
  | zero => exact ⟨hneed, le_rfl⟩
  | succ fuel ih =>
    rw [growTo]
    split
    · obtain ⟨hle, hge⟩ := ih (show 0 < temp * 2 by omega) (by omega)
      exact ⟨hle, by omega⟩
    · exact ⟨by omega, le_rfl⟩

def Buffer.nextSize (b : Buffer) (len : ℕ) : ℕ := growTo len (b.cur.size * 2) len

def Buffer.moved (b : Buffer) (bytes : List UInt8) : Buffer where
  filled := b.filled ++ [b.cur]
  cur := ⟨b.nextSize bytes.length, bytes⟩
  preTotData := b.preTotData + b.cur.data.length
  noBuffers := if b.noBuffers - 1 = b.curBuff then b.noBuffers * 2 else b.noBuffers

def Buffer.append (b : Buffer) (bytes : List UInt8) : Buffer :=
  { b with cur := { b.cur with data := b.cur.data ++ bytes } }

lemma Buffer.Wf.le_nextSize (h : b.Wf) (len : ℕ) :
    len ≤ b.nextSize len ∧ b.cur.size * 2 ≤ b.nextSize len :=
  le_growTo len (by have := h.size; omega) (by omega)

lemma Buffer.Wf.next_eq (h : b.Wf) (bytes : List UInt8) : b.next bytes = .ok (b.moved bytes) := by
  have hslots := h.slots
  have hroom : ¬ (if b.noBuffers - 1 = b.curBuff then b.noBuffers * 2 else b.noBuffers) ≤
      b.curBuff + 1 := by
    split <;> omega
  have hcopy : Buff.copy ⟨b.nextSize bytes.length, []⟩ bytes =
      .ok ⟨b.nextSize bytes.length, bytes⟩ := by
    have hsize := (h.le_nextSize bytes.length).1
    simp [Buff.copy, hsize]
  unfold Buffer.next
  change (if _ then _ else Buff.copy ⟨b.nextSize bytes.length, []⟩ bytes >>= _) = _
  rw [if_neg hroom, hcopy]
  rfl

lemma Buffer.Wf.copy_eq (h : b.Wf) {bytes : List UInt8} (hbytes : bytes.length ≤ b.remainLen) :
    b.cur.copy bytes = .ok { b.cur with data := b.cur.data ++ bytes } := by
  have hfits := h.fits
  rw [Buffer.remainLen] at hbytes
  exact if_pos (by omega)

lemma Buffer.Wf.append (h : b.Wf) {bytes : List UInt8} (hbytes : bytes.length ≤ b.remainLen) :
    (b.append bytes).Wf where
  fits := by
    have hfits := h.fits
    rw [Buffer.remainLen] at hbytes
    simp only [Buffer.append, List.length_append]
    omega
  size := h.size
  pre := h.pre
  slots := h.slots

lemma Buffer.Wf.writeSplit_eq (h : b.Wf) (bytes : List UInt8) :
    b.writeSplit bytes = .ok (if bytes.length < b.remainLen then b.append bytes
      else (b.append (bytes.take b.remainLen)).moved (bytes.drop b.remainLen)) := by
  unfold Buffer.writeSplit
  by_cases hroom : bytes.length < b.remainLen
  · simp only [if_pos hroom]
    rw [h.copy_eq hroom.le]
    rfl
  · simp only [if_neg hroom]
    have htake : (bytes.take b.remainLen).length = b.remainLen := by
      rw [List.length_take]
      omega
    have hcopy : (if b.remainLen ≠ 0 then b.cur.copy (bytes.take b.remainLen) else .ok b.cur) =
        .ok (b.append (bytes.take b.remainLen)).cur := by
      split
      · exact h.copy_eq htake.le
      · next hzero =>
          rw [not_not] at hzero
          simp [Buffer.append, hzero]
    have hwf := h.append htake.le
    rw [hcopy]
    exact hwf.next_eq _

lemma Buffer.Wf.writeWhole_eq (h : b.Wf) (bytes : List UInt8) :
    b.writeWhole bytes =
      .ok (if bytes.length < b.remainLen then b.append bytes else b.moved bytes) := by
  unfold Buffer.writeWhole
  by_cases hroom : bytes.length < b.remainLen
  · rw [if_pos hroom, if_pos hroom, h.copy_eq hroom.le]
    rfl
  · rw [if_neg hroom, if_neg hroom]
    exact h.next_eq bytes

lemma Buffer.Wf.moved (h : b.Wf) (bytes : List UInt8) : (b.moved bytes).Wf where
  fits := (h.le_nextSize bytes.length).1
  size := by
    have hsize := h.size
    have hnext := (h.le_nextSize bytes.length).2
    change 0 < b.nextSize bytes.length
    omega
  pre := by simp [Buffer.moved, h.pre]
  slots := by
    have hslots := h.slots
    have hcur : (b.moved bytes).curBuff = b.curBuff + 1 := List.length_append
    rw [hcur]
    simp only [Buffer.moved]
    split <;> omega

lemma output_append (b : Buffer) (bytes : List UInt8) :
    (b.append bytes).output = b.output ++ bytes := by
  simp [Buffer.output, Buffer.append]

lemma output_moved (b : Buffer) (bytes : List UInt8) :
    (b.moved bytes).output = b.output ++ bytes := by
  simp [Buffer.output, Buffer.moved]

def Buffer.split (b : Buffer) (bytes : List UInt8) : Buffer :=
  if bytes.length < b.remainLen then b.append bytes
  else (b.append (bytes.take b.remainLen)).moved (bytes.drop b.remainLen)

/-- The buffers after a write that keeps its bytes together. -/
def Buffer.whole (b : Buffer) (bytes : List UInt8) : Buffer :=
  if bytes.length < b.remainLen then b.append bytes else b.moved bytes

lemma Buffer.Wf.split (h : b.Wf) (bytes : List UInt8) : (b.split bytes).Wf := by
  rw [Buffer.split]
  split
  · next hroom => exact h.append hroom.le
  · exact (h.append (List.length_take_le _ _)).moved _

lemma Buffer.Wf.whole (h : b.Wf) (bytes : List UInt8) : (b.whole bytes).Wf := by
  rw [Buffer.whole]
  split
  · next hroom => exact h.append hroom.le
  · exact h.moved _

lemma output_split (b : Buffer) (bytes : List UInt8) :
    (b.split bytes).output = b.output ++ bytes := by
  rw [Buffer.split]
  split
  · exact output_append b bytes
  · rw [output_moved, output_append, List.append_assoc, List.take_append_drop]

lemma output_whole (b : Buffer) (bytes : List UInt8) :
    (b.whole bytes).output = b.output ++ bytes := by
  rw [Buffer.whole]
  split
  · exact output_append b bytes
  · exact output_moved b bytes

lemma Buffer.Wf.length_output (h : b.Wf) :
    b.output.length = b.preTotData + b.cur.data.length := by
  rw [Buffer.output, List.length_append, h.pre]

end Buffers

/-! ### The writer -/

/-- The buffers are in order and `next` counts their bytes, as far as an `int` can. -/
structure XmlWriter.Wf (wr : XmlWriter) : Prop where
  buffer : wr.buffer.Wf
  next : wr.next = toInt wr.buffer.output.length

section Writes

variable {wr : XmlWriter}

lemma toInt_add (a b : ℤ) : toInt (toInt a + toInt b) = toInt (a + b) := by
  unfold toInt
  rw [Int.bmod_add_bmod, Int.add_bmod_bmod]

lemma toInt_eq_self {n : ℕ} : toInt n = n ↔ n < 2 ^ 31 := by
  rw [toInt, Int.bmod_def]
  omega

lemma wf_create (stray : ℕ → ℤ → UInt8) : (createXmlStreamWriterForMemory stray).Wf :=
  ⟨wf_bufferInit, (toInt_eq_self.mpr (Nat.two_pow_pos 31)).symm⟩

lemma XmlWriter.Wf.wrote (h : wr.Wf) {buffer : Buffer} {bytes : List UInt8} (hbuffer : buffer.Wf)
    (houtput : buffer.output = wr.buffer.output ++ bytes) :
    (wr.wrote buffer bytes.length).Wf where
  buffer := hbuffer
  next := by
    change toInt (wr.next + toInt bytes.length) = toInt buffer.output.length
    rw [h.next, toInt_add, houtput, List.length_append, Nat.cast_add]

lemma XmlWriter.Wf.write_eq (h : wr.Wf) (buff : List UInt8) :
    write wr buff = .ok (wr.wrote (wr.buffer.split buff) buff.length) := by
  rw [write, h.buffer.writeSplit_eq]
  rfl

lemma XmlWriter.Wf.writeToken_eq (h : wr.Wf) (tok : List UInt8) :
    writeToken wr tok = .ok (wr.wrote (wr.buffer.split tok) tok.length) := by
  rw [writeToken, h.buffer.writeSplit_eq]
  rfl

lemma XmlWriter.Wf.writeXtoken_eq (h : wr.Wf) (buff : List UInt8) :
    writeXtoken wr buff = .ok (wr.wrote (wr.buffer.whole buff) buff.length) := by
  rw [writeXtoken, h.buffer.writeWhole_eq]
  rfl

lemma XmlWriter.Wf.wrote_split (h : wr.Wf) (bytes : List UInt8) :
    (wr.wrote (wr.buffer.split bytes) bytes.length).Wf :=
  h.wrote (h.buffer.split bytes) (output_split _ _)

lemma XmlWriter.Wf.wrote_whole (h : wr.Wf) (bytes : List UInt8) :
    (wr.wrote (wr.buffer.whole bytes) bytes.length).Wf :=
  h.wrote (h.buffer.whole bytes) (output_whole _ _)

end Writes

/-! ### Sequences of writes -/

inductive Call
  | write (buff : List UInt8)
  | writeToken (tok : List UInt8)
  | writeXtoken (buff : List UInt8)
  deriving Repr, DecidableEq

def Call.bytes : Call → List UInt8
  | .write buff => buff
  | .writeToken tok => tok
  | .writeXtoken buff => buff

def Call.run (wr : XmlWriter) : Call → Except Fault XmlWriter
  | .write buff => GuththilaWriter.write wr buff
  | .writeToken tok => GuththilaWriter.writeToken wr tok
  | .writeXtoken buff => GuththilaWriter.writeXtoken wr buff

/-- One call appends its bytes and copies nothing past the end of a buffer. -/
lemma XmlWriter.Wf.call {wr : XmlWriter} (h : wr.Wf) (call : Call) :
    ∃ wr', call.run wr = .ok wr' ∧ wr'.Wf ∧
      wr'.buffer.output = wr.buffer.output ++ call.bytes := by
  cases call with
  | write buff => exact ⟨_, h.write_eq buff, h.wrote_split buff, output_split _ _⟩
  | writeToken tok => exact ⟨_, h.writeToken_eq tok, h.wrote_split tok, output_split _ _⟩
  | writeXtoken buff => exact ⟨_, h.writeXtoken_eq buff, h.wrote_whole buff, output_whole _ _⟩

def runCalls (wr : XmlWriter) (calls : List Call) : Except Fault XmlWriter :=
  calls.foldlM Call.run wr

lemma XmlWriter.Wf.runCalls {wr : XmlWriter} (h : wr.Wf) (calls : List Call) :
    ∃ wr', GuththilaWriter.runCalls wr calls = .ok wr' ∧ wr'.Wf ∧
      wr'.buffer.output = wr.buffer.output ++ calls.flatMap Call.bytes := by
  induction calls generalizing wr with
  | nil => exact ⟨wr, rfl, h, by simp⟩
  | cons call calls ih =>
    obtain ⟨wr₁, hcall, hwf, houtput⟩ := h.call call
    obtain ⟨wr₂, hcalls, hwf', houtput'⟩ := ih hwf
    refine ⟨wr₂, ?_, hwf', ?_⟩
    · rw [GuththilaWriter.runCalls, List.foldlM_cons, hcall]
      exact hcalls
    · rw [houtput', houtput, List.flatMap_cons, List.append_assoc]

lemma XmlWriter.Wf.counters {wr : XmlWriter} (h : wr.Wf) :
    (getMemoryBufferSize wr = wr.buffer.output.length ↔ wr.buffer.output.length < 2 ^ 32) ∧
      (wr.next = wr.buffer.output.length ↔ wr.buffer.output.length < 2 ^ 31) := by
  constructor
  · rw [getMemoryBufferSize, ← h.buffer.length_output]
    omega
  · rw [h.next]
    exact toInt_eq_self

/-- Any sequence of writes on a fresh writer gives their bytes in order and never copies past the
end of a buffer. The two counters, an `unsigned int` and an `int`, give the number of the bytes as
long as their types can hold it. -/
theorem memory_writer_output (stray : ℕ → ℤ → UInt8) (calls : List Call) :
    ∃ wr, runCalls (createXmlStreamWriterForMemory stray) calls = .ok wr ∧
      bufferGet wr.buffer = calls.flatMap Call.bytes ++ [0] ∧
      (getMemoryBufferSize wr = (calls.flatMap Call.bytes).length ↔
        (calls.flatMap Call.bytes).length < 2 ^ 32) ∧
      (wr.next = (calls.flatMap Call.bytes).length ↔
        (calls.flatMap Call.bytes).length < 2 ^ 31) := by
  obtain ⟨wr, hrun, hwf, houtput⟩ := (wf_create stray).runCalls calls
  have hstart : (createXmlStreamWriterForMemory stray).buffer.output = [] := rfl
  rw [hstart, List.nil_append] at houtput
  have hcounters := hwf.counters
  rw [houtput] at hcounters
  exact ⟨wr, hrun, by rw [bufferGet_eq, houtput], hcounters⟩

/-- One write of 2 GiB. -/
theorem next_is_an_int : ¬ ∀ calls : List Call, ∃ wr,
    runCalls (createXmlStreamWriterForMemory fun _ _ => 0) calls = .ok wr ∧
      bufferGet wr.buffer = calls.flatMap Call.bytes ++ [0] ∧
      getMemoryBufferSize wr = (calls.flatMap Call.bytes).length ∧
      wr.next = (calls.flatMap Call.bytes).length := by
  intro h
  obtain ⟨wr, hrun, -, -, hnext⟩ := h [.write (List.replicate (2 ^ 31) 0)]
  obtain ⟨wr', hrun', hwf, houtput⟩ := (wf_create fun _ _ => 0).runCalls
    [.write (List.replicate (2 ^ 31) 0)]
  obtain rfl := Except.ok.inj (hrun'.symm.trans hrun)
  have hlength : ([Call.write (List.replicate (2 ^ 31) 0)].flatMap Call.bytes).length = 2 ^ 31 := by
    rw [List.flatMap_singleton, Call.bytes, List.length_replicate]
  have hcount := hwf.counters.2
  have hstart : (createXmlStreamWriterForMemory fun _ _ => 0).buffer.output = [] := rfl
  rw [houtput, hstart, List.nil_append, hlength] at hcount
  rw [hlength] at hnext
  exact absurd (hcount.mp hnext) (lt_irrefl _)

end Axis2C.GuththilaWriter
