import Axis2C.HttpChunkedRoundTrip

/-!
# Sending a message with attachments

`axis2_http_transport_utils_send_mtom_message` and the loops for attachments in files and
from a callback. The chunked stream writes to a stream that takes all or a part of what it
is offered, or fails. The callback is a library of the user: what is known of it is
whether it can be loaded, what its load function supplies and what its close function
returns. A loop that never ends and a size line longer than its buffer are faults.
-/
namespace Axis2C.HttpMtom
open HttpChunked

section Operations

/-- What `axutil_stream_write` returns, by the number of the call and the bytes it is offered;
`none` is -1. -/
structure Answers where
  taken : ℕ → ℕ → Option ℕ
  taken_le : ∀ {call count n}, taken call count = some n → n ≤ count
  taken_pos : ∀ {call count n}, taken call count = some n → 0 < count → 0 < n

inductive Event where
  /-- A call of `axutil_http_chunked_stream_write`, with its result. -/
  | chunkWrite (len : Option ℕ)
  | lastChunk
  deriving DecidableEq, Repr

/-- The bytes on the wire, the number of writes and the calls of the chunked stream. -/
structure Wire where
  sent : List UInt8
  calls : ℕ
  events : List Event
  deriving DecidableEq, Repr

variable (r : Answers)

def streamWrite (w : Wire) (buffer : List UInt8) : Option ℕ × Wire :=
  let len := r.taken w.calls buffer.length
  (len, { w with sent := w.sent ++ buffer.take (len.getD 0), calls := w.calls + 1 })

/-- `axutil_http_chunked_stream_write`. Only the result of the second write is kept. -/
def chunkedStreamWrite (w : Wire) (buffer : List UInt8) : Except Fault (Option ℕ × Wire) :=
  let tmpBuf := formatHex (buffer.length % 2 ^ 32) ++ crlf
  if 10 < tmpBuf.length + 1 then .error .tmpBuf
  else
    let (_, w) := streamWrite r w tmpBuf
    let (len, w) := streamWrite r w buffer
    let (_, w) := streamWrite r w crlf
    .ok (len, { w with events := w.events ++ [.chunkWrite len] })

/-- `axutil_http_chunked_stream_write_last_chunk`. -/
def writeLastChunk (w : Wire) : Wire :=
  let (_, w) := streamWrite r w [48, 13, 10, 13, 10]
  { w with events := w.events ++ [.lastChunk] }

/-- `while (written < count)`, which all three ways of sending have; `rest` is what is not
written yet. -/
def writeLoop : ℕ → List UInt8 → Wire → Except Fault (Bool × Wire)
  | 0, _, _ => .error .stuck
  | fuel + 1, rest, w =>
    if rest = [] then .ok (true, w)
    else
      match chunkedStreamWrite r w rest with
      | .error f => .error f
      | .ok (none, w) => .ok (false, w)
      | .ok (some len, w) => writeLoop fuel (rest.drop len) w

def writeBuffer (buffer : List UInt8) (w : Wire) : Except Fault (Bool × Wire) :=
  writeLoop r (buffer.length + 1) buffer w

/-- What can be read of a file, and whether an error or the end of the file is behind it. -/
structure File where
  content : List UInt8
  ferror : Bool

/-- `axis2_http_transport_utils_send_attachment_using_file`, from a position on. -/
def sendAttachmentUsingFile (ferror : Bool) (bufferSize : ℕ) :
    ℕ → List UInt8 → Wire → Except Fault (Bool × Wire)
  | 0, _, _ => .error .stuck
  | fuel + 1, rest, w =>
    let buffer := rest.take (bufferSize + 1)
    let atEnd := rest.length < bufferSize + 1
    if atEnd ∧ ferror = true then .ok (false, w)
    else if buffer = [] then .ok (false, w)
    else
      match writeBuffer r buffer w with
      | .error f => .error f
      | .ok (false, w) => .ok (false, w)
      | .ok (true, w) =>
        -- A file is at its end once a read got less than it asked for.
        if atEnd then .ok (true, w)
        else sendAttachmentUsingFile ferror bufferSize fuel (rest.drop (bufferSize + 1)) w

/-- What a loaded callback supplies, one load after the other, until a load gives no data. -/
structure Callback where
  loads : List (List UInt8)
  closes : Bool

/-- `axis2_http_transport_utils_send_attachment_using_callback`. A failed write does not end the
outer loop. -/
def sendAttachmentUsingCallback (closes : Bool) :
    List (List UInt8) → Bool → Wire → Except Fault (Bool × Wire)
  | [], status, w => .ok (status && closes, w)
  | buffer :: loads, status, w =>
    if buffer = [] then .ok (status && closes, w)
    else
      match writeBuffer r buffer w with
      | .error f => .error f
      | .ok (written, w) => sendAttachmentUsingCallback closes loads (status && written) w

/-- `axiom_mime_part_t`. A file that cannot be opened and a callback that cannot be loaded are
`none`. -/
inductive MimePart where
  | buffer (part : List UInt8)
  | file (f : Option File) (partSize : ℕ)
  | callback (handler : Option Callback)
  | unknown

/-- `AXIS2_MTOM_OUTPUT_BUFFER_SIZE`. -/
def mtomOutputBufferSize : ℕ := 1024

def outputBufferSize (partSize : ℕ) : ℕ :=
  if mtomOutputBufferSize < partSize then mtomOutputBufferSize else partSize

def sendPart : MimePart → Wire → Except Fault (Bool × Wire)
  | .buffer part, w => writeBuffer r part w
  | .file none _, w => .ok (false, w)
  | .file (some f) partSize, w =>
    sendAttachmentUsingFile r f.ferror (outputBufferSize partSize) (f.content.length + 1)
      f.content w
  | .callback none, w => .ok (false, w)
  | .callback (some callback), w =>
    sendAttachmentUsingCallback r callback.closes callback.loads true w
  | .unknown, w => .ok (false, w)

def sendParts : List MimePart → Wire → Except Fault (Bool × Wire)
  | [], w => .ok (true, writeLastChunk r w)
  | part :: parts, w =>
    match sendPart r part w with
    | .error f => .error f
    | .ok (false, w) => .ok (false, w)
    | .ok (true, w) => sendParts parts w

/-- `axis2_http_transport_utils_send_mtom_message`. -/
def sendMtomMessage (mimeParts : Option (List MimePart)) (w : Wire) :
    Except Fault (Bool × Wire) :=
  match mimeParts with
  | none => .ok (false, w)
  | some mimeParts => sendParts r mimeParts w

end Operations

section Specification

def Answers.Complete (r : Answers) : Prop := ∀ call count, r.taken call count = some count

/-- Data with its size an `int`. -/
abbrev Data := { data : List UInt8 // data.length < 2 ^ 31 }

/-- The parts of a message: memory, files that can be read and data that a callback supplies
load by load. -/
inductive Part where
  | memory (data : Data)
  | file (data : Data)
  | supplied (loads : List Data) (nonempty : ∀ data ∈ loads, data.val ≠ [])

def Part.mimePart : Part → MimePart
  | memory data => .buffer data.val
  | file data => .file (some ⟨data.val, false⟩) data.val.length
  | supplied loads _ => .callback (some ⟨loads.map Subtype.val, true⟩)

def Part.bytes : Part → List UInt8
  | memory data => data.val
  | file data => data.val
  | supplied loads _ => (loads.map Subtype.val).flatten

/-- The wire carries the parts in one or more chunks, and one last chunk behind them. -/
def Carries (parts : List Part) (sent : List UInt8) : Prop :=
  ∃ chunks, [] ∉ chunks ∧ chunks.flatten = parts.flatMap Part.bytes ∧ sent = chunkedBody chunks

def start : Wire := ⟨[], 0, []⟩

/-- On every stream the call returns. It succeeds and sends the parts when all writes are
complete, and fails without a last chunk when a chunk write returned -1. -/
def Sends (parts : List Part) : Prop :=
  ∀ r : Answers, ∃ ok w, sendMtomMessage r (some (parts.map Part.mimePart)) start = .ok (ok, w) ∧
    (r.Complete → ok = true ∧ Carries parts w.sent) ∧
    (.chunkWrite none ∈ w.events → ok = false ∧ .lastChunk ∉ w.events)

/-- The size line of every chunk fits its buffer, and a file does not end with a full read. -/
def Part.Fits : Part → Prop
  | memory data => data.val.length < 2 ^ 28
  | file data => ¬ outputBufferSize data.val.length + 1 ∣ data.val.length
  | supplied loads _ => ∀ data ∈ loads, data.val.length < 2 ^ 28

end Specification

section Complete

variable {r : Answers} {buffer : List UInt8}

def Wire.after (w : Wire) (chunks : List (List UInt8)) : Wire where
  sent := w.sent ++ chunks.flatMap chunk
  calls := w.calls + 3 * chunks.length
  events := w.events ++ chunks.map fun data => .chunkWrite (some data.length)

@[simp] lemma after_nil (w : Wire) : w.after [] = w := by
  simp [Wire.after]

lemma after_after (w : Wire) (front back : List (List UInt8)) :
    (w.after front).after back = w.after (front ++ back) := by
  simp only [Wire.after, List.flatMap_append, List.map_append, List.length_append,
    List.append_assoc, Wire.mk.injEq, true_and, and_true]
  omega

lemma streamWrite_complete (hr : r.Complete) (w : Wire) (buffer : List UInt8) :
    streamWrite r w buffer =
      (some buffer.length, { w with sent := w.sent ++ buffer, calls := w.calls + 1 }) := by
  simp [streamWrite, hr w.calls buffer.length]

lemma sizeLine_fits (hsize : buffer.length < 2 ^ 28) :
    ¬ 10 < (formatHex (buffer.length % 2 ^ 32) ++ crlf).length + 1 := by
  have hmod : buffer.length % 2 ^ 32 = buffer.length := Nat.mod_eq_of_lt (by omega)
  have hlen := length_formatHex_le hsize
  have hcrlf : crlf.length = 2 := rfl
  rw [hmod, List.length_append]
  omega

lemma chunkedStreamWrite_complete (hr : r.Complete) (hsize : buffer.length < 2 ^ 28) (w : Wire) :
    chunkedStreamWrite r w buffer = .ok (some buffer.length, w.after [buffer]) := by
  have hmod : buffer.length % 2 ^ 32 = buffer.length := Nat.mod_eq_of_lt (by omega)
  rw [chunkedStreamWrite]
  dsimp only
  rw [if_neg (sizeLine_fits hsize)]
  simp only [streamWrite_complete hr, hmod]
  simp [Wire.after, chunk]

/-- A size line of more than seven digits does not fit. -/
lemma chunkedStreamWrite_overflow (r : Answers) (hint : buffer.length < 2 ^ 31)
    (hsize : 2 ^ 28 ≤ buffer.length) (w : Wire) :
    chunkedStreamWrite r w buffer = .error .tmpBuf := by
  have hmod : buffer.length % 2 ^ 32 = buffer.length := Nat.mod_eq_of_lt (by omega)
  have hlen := lt_length_formatHex hsize
  have hcrlf : crlf.length = 2 := rfl
  have hlong : 10 < (formatHex (buffer.length % 2 ^ 32) ++ crlf).length + 1 := by
    rw [hmod, List.length_append]
    omega
  simp only [chunkedStreamWrite, if_pos hlong]

lemma writeBuffer_nil (r : Answers) (w : Wire) : writeBuffer r [] w = .ok (true, w) := rfl

lemma writeBuffer_complete (hr : r.Complete) (hne : buffer ≠ []) (hsize : buffer.length < 2 ^ 28)
    (w : Wire) : writeBuffer r buffer w = .ok (true, w.after [buffer]) := by
  have hpos := List.length_pos_iff.mpr hne
  obtain ⟨fuel, hfuel⟩ : ∃ fuel, buffer.length = fuel + 1 := ⟨buffer.length - 1, by omega⟩
  rw [writeBuffer, writeLoop, if_neg hne, chunkedStreamWrite_complete hr hsize, hfuel]
  dsimp only
  rw [writeLoop, ← hfuel, List.drop_length, if_pos rfl]

lemma writeBuffer_overflow (r : Answers) (hint : buffer.length < 2 ^ 31)
    (hsize : 2 ^ 28 ≤ buffer.length) (w : Wire) : writeBuffer r buffer w = .error .tmpBuf := by
  have hne : buffer ≠ [] := List.length_pos_iff.mp (by omega)
  rw [writeBuffer, writeLoop, if_neg hne, chunkedStreamWrite_overflow r hint hsize]

/-- A file is sent whole, and the call succeeds unless the last read of data was a full one. The
induction is on the passes. -/
lemma sendAttachmentUsingFile_complete (hr : r.Complete) {bufferSize : ℕ}
    (hbuffer : bufferSize + 1 < 2 ^ 28) {fuel : ℕ} {rest : List UInt8}
    (hfuel : rest.length < fuel) (w : Wire) :
    ∃ chunks, [] ∉ chunks ∧ chunks.flatten = rest ∧
      sendAttachmentUsingFile r false bufferSize fuel rest w =
        .ok (decide (¬ bufferSize + 1 ∣ rest.length), w.after chunks) := by
  induction fuel generalizing rest w with
  | zero => omega
  | succ fuel ih =>
    rw [sendAttachmentUsingFile]
    simp only [Bool.false_eq_true, and_false, if_false]
    by_cases hempty : rest = []
    · subst hempty
      exact ⟨[], by simp, rfl, by simp⟩
    have hpos := List.length_pos_iff.mpr hempty
    have hne : rest.take (bufferSize + 1) ≠ [] := by
      intro hnil
      have hlength := congrArg List.length hnil
      rw [List.length_take, List.length_nil] at hlength
      omega
    have hsize : (rest.take (bufferSize + 1)).length < 2 ^ 28 := by
      rw [List.length_take]
      omega
    rw [if_neg hne, writeBuffer_complete hr hne hsize]
    dsimp only
    by_cases hend : rest.length < bufferSize + 1
    · have hlast : ¬ bufferSize + 1 ∣ rest.length := fun h => by
        have := Nat.le_of_dvd hpos h
        omega
      rw [if_pos hend, List.take_of_length_le hend.le]
      exact ⟨[rest], by simpa using Ne.symm hempty, by simp, by simp [hlast]⟩
    · rw [if_neg hend]
      have hdrop : (rest.drop (bufferSize + 1)).length = rest.length - (bufferSize + 1) :=
        List.length_drop
      obtain ⟨chunks, hnonempty, hflatten, hrun⟩ :=
        @ih (rest.drop (bufferSize + 1)) (by omega) (w.after [rest.take (bufferSize + 1)])
      refine ⟨rest.take (bufferSize + 1) :: chunks, ?_, ?_, ?_⟩
      · rw [List.mem_cons, not_or]
        exact ⟨Ne.symm hne, hnonempty⟩
      · rw [List.flatten_cons, hflatten, List.take_append_drop]
      · have hdvd : bufferSize + 1 ∣ (rest.drop (bufferSize + 1)).length ↔
            bufferSize + 1 ∣ rest.length := by
          rw [hdrop]
          constructor
          · intro h
            have hsum := Nat.dvd_add h (dvd_refl (bufferSize + 1))
            rwa [Nat.sub_add_cancel (by omega)] at hsum
          · intro h
            exact Nat.dvd_sub h (dvd_refl (bufferSize + 1))
        rw [hrun, after_after, List.singleton_append]
        simp only [hdvd]

/-- The loads of a callback become one chunk each. -/
lemma sendAttachmentUsingCallback_complete (hr : r.Complete) {loads : List (List UInt8)}
    (hloads : ∀ data ∈ loads, data ≠ [] ∧ data.length < 2 ^ 28) (w : Wire) :
    sendAttachmentUsingCallback r true loads true w = .ok (true, w.after loads) := by
  induction loads generalizing w with
  | nil => simp [sendAttachmentUsingCallback]
  | cons buffer loads ih =>
    obtain ⟨⟨hne, hsize⟩, hrest⟩ := List.forall_mem_cons.mp hloads
    rw [sendAttachmentUsingCallback, if_neg hne, writeBuffer_complete hr hne hsize]
    dsimp only
    rw [Bool.and_self, ih hrest, after_after, List.singleton_append]

/-- A part that fits is sent in chunks. -/
lemma sendPart_complete (hr : r.Complete) {part : Part} (hfits : part.Fits) (w : Wire) :
    ∃ chunks, [] ∉ chunks ∧ chunks.flatten = part.bytes ∧
      sendPart r part.mimePart w = .ok (true, w.after chunks) := by
  cases part with
  | memory data =>
    by_cases hne : data.val = []
    · refine ⟨[], by simp, hne.symm, ?_⟩
      rw [Part.mimePart, sendPart, hne, writeBuffer_nil, after_nil]
    · exact ⟨[data.val], by simpa using Ne.symm hne, by simp [Part.bytes],
        writeBuffer_complete hr hne hfits w⟩
  | file data =>
    have hbuffer : outputBufferSize data.val.length + 1 < 2 ^ 28 := by
      unfold outputBufferSize mtomOutputBufferSize
      split_ifs <;> omega
    obtain ⟨chunks, hnonempty, hflatten, hrun⟩ :=
      sendAttachmentUsingFile_complete hr hbuffer (Nat.lt_succ_self data.val.length) w
    refine ⟨chunks, hnonempty, hflatten, ?_⟩
    have hshort : ¬ outputBufferSize data.val.length + 1 ∣ data.val.length := hfits
    rw [decide_eq_true hshort] at hrun
    exact hrun
  | supplied loads nonempty =>
    refine ⟨loads.map Subtype.val, ?_, rfl, ?_⟩
    · simp only [List.mem_map, not_exists, not_and]
      exact fun data hdata => nonempty data hdata
    · refine sendAttachmentUsingCallback_complete hr ?_ w
      simp only [List.forall_mem_map]
      exact fun data hdata => ⟨nonempty data hdata, hfits data hdata⟩

/-- A load that does not fit ends the call in a fault. -/
lemma sendAttachmentUsingCallback_overflow (hr : r.Complete) {loads : List Data}
    (hne : ∀ data ∈ loads, data.val ≠ []) (hlong : ∃ data ∈ loads, 2 ^ 28 ≤ data.val.length)
    (w : Wire) :
    sendAttachmentUsingCallback r true (loads.map Subtype.val) true w = .error .tmpBuf := by
  induction loads generalizing w with
  | nil => simp at hlong
  | cons data loads ih =>
    obtain ⟨hfirst, hrest⟩ := List.forall_mem_cons.mp hne
    rw [List.map_cons, sendAttachmentUsingCallback, if_neg hfirst]
    by_cases hsize : data.val.length < 2 ^ 28
    · rw [writeBuffer_complete hr hfirst hsize]
      refine ih hrest ?_ _
      obtain ⟨other, hmem, hother⟩ := hlong
      rcases List.mem_cons.mp hmem with rfl | hmem
      · omega
      · exact ⟨other, hmem, hother⟩
    · rw [writeBuffer_overflow r data.property (by omega)]

/-- A part that does not fit is not sent with success. -/
lemma sendPart_unfit (hr : r.Complete) {part : Part} (hfits : ¬ part.Fits) (w w' : Wire) :
    sendPart r part.mimePart w ≠ .ok (true, w') := by
  cases part with
  | memory data =>
    have hsize : 2 ^ 28 ≤ data.val.length := not_lt.mp hfits
    rw [Part.mimePart, sendPart, writeBuffer_overflow r data.property hsize]
    simp
  | file data =>
    have hbuffer : outputBufferSize data.val.length + 1 < 2 ^ 28 := by
      unfold outputBufferSize mtomOutputBufferSize
      split_ifs <;> omega
    obtain ⟨chunks, -, -, hrun⟩ :=
      sendAttachmentUsingFile_complete hr hbuffer (Nat.lt_succ_self data.val.length) w
    have hfull : ¬ ¬ outputBufferSize data.val.length + 1 ∣ data.val.length := hfits
    rw [decide_eq_false hfull] at hrun
    rw [Part.mimePart, sendPart, hrun]
    simp
  | supplied loads nonempty =>
    have hlong : ∃ data ∈ loads, 2 ^ 28 ≤ data.val.length := by
      simpa [Part.Fits] using hfits
    rw [Part.mimePart, sendPart, sendAttachmentUsingCallback_overflow hr nonempty hlong]
    simp

lemma sendParts_complete (hr : r.Complete) {parts : List Part} (hfits : ∀ part ∈ parts, part.Fits)
    (w : Wire) :
    ∃ chunks, [] ∉ chunks ∧ chunks.flatten = parts.flatMap Part.bytes ∧
      sendParts r (parts.map Part.mimePart) w = .ok (true, writeLastChunk r (w.after chunks)) := by
  induction parts generalizing w with
  | nil => exact ⟨[], by simp, rfl, by simp [sendParts]⟩
  | cons part parts ih =>
    obtain ⟨hfirst, hrest⟩ := List.forall_mem_cons.mp hfits
    obtain ⟨front, hfront, hbytes, hpart⟩ := sendPart_complete hr hfirst w
    obtain ⟨back, hback, hothers, hparts⟩ := ih hrest (w.after front)
    refine ⟨front ++ back, ?_, ?_, ?_⟩
    · rw [List.mem_append, not_or]
      exact ⟨hfront, hback⟩
    · rw [List.flatten_append, hbytes, hothers, List.flatMap_cons]
    · rw [List.map_cons, sendParts, hpart]
      dsimp only
      rw [hparts, after_after]

lemma sendParts_unfit (hr : r.Complete) {parts : List Part} (hunfit : ∃ part ∈ parts, ¬ part.Fits)
    (w w' : Wire) : sendParts r (parts.map Part.mimePart) w ≠ .ok (true, w') := by
  induction parts generalizing w with
  | nil => simp at hunfit
  | cons part parts ih =>
    rw [List.map_cons, sendParts]
    by_cases hfits : part.Fits
    · obtain ⟨chunks, -, -, hpart⟩ := sendPart_complete hr hfits w
      rw [hpart]
      refine ih ?_ (w.after chunks)
      obtain ⟨other, hmem, hother⟩ := hunfit
      rcases List.mem_cons.mp hmem with rfl | hmem
      · exact absurd hfits hother
      · exact ⟨other, hmem, hother⟩
    · have hpart := sendPart_unfit hr hfits w
      cases hrun : sendPart r part.mimePart w with
      | error fault => simp
      | ok result =>
        obtain ⟨ok, next⟩ := result
        cases ok with
        | false => simp
        | true => exact absurd hrun (hpart next)

end Complete

section Failing

variable {r : Answers} {w w₁ w₂ : Wire} {ok ok₁ ok₂ : Bool} {buffer : List UInt8}

/-- A part of the run: a chunk write that returns -1 makes it fail, and it writes no last
chunk. -/
structure Safe (w : Wire) (ok : Bool) (w' : Wire) : Prop where
  failed : .chunkWrite none ∈ w'.events → .chunkWrite none ∈ w.events ∨ ok = false
  unended : .lastChunk ∈ w'.events → .lastChunk ∈ w.events

def Returns (w : Wire) (p : Except Fault (Bool × Wire)) : Prop :=
  ∃ ok w', p = .ok (ok, w') ∧ Safe w ok w'

lemma Safe.refl (w : Wire) (ok : Bool) : Safe w ok w := ⟨Or.inl, id⟩

lemma Safe.trans (h₁ : Safe w true w₁) (h₂ : Safe w₁ ok w₂) : Safe w ok w₂ := by
  refine ⟨fun h => ?_, fun h => h₁.unended (h₂.unended h)⟩
  rcases h₂.failed h with hbefore | hfalse
  · exact Or.inl ((h₁.failed hbefore).resolve_right Bool.noConfusion)
  · exact Or.inr hfalse

lemma chunkedStreamWrite_events (r : Answers) (hsize : buffer.length < 2 ^ 28) (w : Wire) :
    ∃ len w', chunkedStreamWrite r w buffer = .ok (len, w') ∧
      w'.events = w.events ++ [.chunkWrite len] ∧
      (∀ n, len = some n → buffer ≠ [] → 0 < n) := by
  rw [chunkedStreamWrite]
  dsimp only
  rw [if_neg (sizeLine_fits hsize)]
  refine ⟨_, _, rfl, rfl, ?_⟩
  intro n hn hne
  exact r.taken_pos hn (List.length_pos_iff.mpr hne)

lemma returns_writeLoop (r : Answers) {fuel : ℕ} {rest : List UInt8} (hfuel : rest.length < fuel)
    (hsize : rest.length < 2 ^ 28) (w : Wire) : Returns w (writeLoop r fuel rest w) := by
  induction fuel generalizing rest w with
  | zero => omega
  | succ fuel ih =>
    rw [writeLoop]
    by_cases hempty : rest = []
    · rw [if_pos hempty]
      exact ⟨true, w, rfl, Safe.refl w true⟩
    · rw [if_neg hempty]
      obtain ⟨len, next, hwrite, hevents, hlen⟩ := chunkedStreamWrite_events r hsize w
      rw [hwrite]
      cases len with
      | none => exact ⟨false, next, rfl, fun _ => Or.inr rfl, by simp [hevents]⟩
      | some n =>
        have hn := hlen n rfl hempty
        have hpos := List.length_pos_iff.mpr hempty
        have hdrop : (rest.drop n).length = rest.length - n := List.length_drop
        obtain ⟨ok, last, hrun, hsafe⟩ := @ih (rest.drop n) (by omega) (by omega) next
        have hstep : Safe w true next := ⟨by simp [hevents], by simp [hevents]⟩
        exact ⟨ok, last, hrun, hstep.trans hsafe⟩

lemma returns_writeBuffer (r : Answers) (hsize : buffer.length < 2 ^ 28) (w : Wire) :
    Returns w (writeBuffer r buffer w) :=
  returns_writeLoop r (Nat.lt_succ_self _) hsize w

lemma returns_sendAttachmentUsingFile (r : Answers) {bufferSize : ℕ}
    (hbuffer : bufferSize + 1 < 2 ^ 28) {fuel : ℕ} {rest : List UInt8}
    (hfuel : rest.length < fuel) (w : Wire) :
    Returns w (sendAttachmentUsingFile r false bufferSize fuel rest w) := by
  induction fuel generalizing rest w with
  | zero => omega
  | succ fuel ih =>
    rw [sendAttachmentUsingFile]
    simp only [Bool.false_eq_true, and_false, if_false]
    by_cases hempty : rest.take (bufferSize + 1) = []
    · rw [if_pos hempty]
      exact ⟨false, w, rfl, Safe.refl w false⟩
    · rw [if_neg hempty]
      have hsize : (rest.take (bufferSize + 1)).length < 2 ^ 28 := by
        rw [List.length_take]
        omega
      obtain ⟨ok, next, hwrite, hsafe⟩ := returns_writeBuffer r hsize w
      rw [hwrite]
      cases ok with
      | false => exact ⟨false, next, rfl, hsafe⟩
      | true =>
        dsimp only
        by_cases hend : rest.length < bufferSize + 1
        · rw [if_pos hend]
          exact ⟨true, next, rfl, hsafe⟩
        · rw [if_neg hend]
          have hdrop : (rest.drop (bufferSize + 1)).length =
              rest.length - (bufferSize + 1) := List.length_drop
          obtain ⟨ok, last, hrun, hrest⟩ :=
            @ih (rest.drop (bufferSize + 1)) (by omega) next
          exact ⟨ok, last, hrun, hsafe.trans hrest⟩

/-- The loads behind a failed write are still sent, and the status stays a failure. -/
lemma returns_sendAttachmentUsingCallback (r : Answers) {loads : List (List UInt8)}
    (hloads : ∀ data ∈ loads, data.length < 2 ^ 28) (status : Bool) (w : Wire) :
    ∃ ok w', sendAttachmentUsingCallback r true loads status w = .ok (ok, w') ∧ Safe w ok w' ∧
      (status = false → ok = false) := by
  induction loads generalizing status w with
  | nil => exact ⟨_, w, rfl, Safe.refl w _, by simp⟩
  | cons buffer loads ih =>
    obtain ⟨hsize, hrest⟩ := List.forall_mem_cons.mp hloads
    rw [sendAttachmentUsingCallback]
    by_cases hempty : buffer = []
    · rw [if_pos hempty]
      exact ⟨_, w, rfl, Safe.refl w _, by simp⟩
    · rw [if_neg hempty]
      obtain ⟨written, next, hwrite, hsafe⟩ := returns_writeBuffer r hsize w
      rw [hwrite]
      obtain ⟨ok, last, hrun, hlast, hstatus⟩ := ih hrest (status && written) next
      refine ⟨ok, last, hrun, ⟨fun h => ?_, fun h => hsafe.unended (hlast.unended h)⟩, ?_⟩
      · rcases hlast.failed h with hbefore | hfalse
        · rcases hsafe.failed hbefore with hstart | hwritten
          · exact Or.inl hstart
          · exact Or.inr (hstatus (by rw [hwritten, Bool.and_false]))
        · exact Or.inr hfalse
      · intro hfalse
        exact hstatus (by rw [hfalse, Bool.false_and])

lemma returns_sendPart (r : Answers) {part : Part} (hfits : part.Fits) (w : Wire) :
    Returns w (sendPart r part.mimePart w) := by
  cases part with
  | memory data => exact returns_writeBuffer r hfits w
  | file data =>
    refine returns_sendAttachmentUsingFile r ?_ (Nat.lt_succ_self _) w
    unfold outputBufferSize mtomOutputBufferSize
    split_ifs <;> omega
  | supplied loads nonempty =>
    have hloads : ∀ data ∈ loads.map Subtype.val, data.length < 2 ^ 28 := by
      rw [List.forall_mem_map]
      exact hfits
    obtain ⟨ok, last, hrun, hsafe, -⟩ :=
      returns_sendAttachmentUsingCallback r hloads true w
    exact ⟨ok, last, hrun, hsafe⟩

/-- A run that a chunk write has failed in returns without success and without a last chunk. -/
lemma returns_sendParts (r : Answers) {parts : List Part} (hfits : ∀ part ∈ parts, part.Fits)
    (hfresh : .chunkWrite none ∉ w.events) (hopen : .lastChunk ∉ w.events) :
    ∃ ok w', sendParts r (parts.map Part.mimePart) w = .ok (ok, w') ∧
      (.chunkWrite none ∈ w'.events → ok = false ∧ .lastChunk ∉ w'.events) := by
  induction parts generalizing w with
  | nil =>
    refine ⟨true, _, rfl, ?_⟩
    intro h
    simp only [writeLastChunk, streamWrite, List.mem_append, List.mem_singleton, reduceCtorEq,
      or_false] at h
    exact absurd h hfresh
  | cons part parts ih =>
    obtain ⟨hfirst, hrest⟩ := List.forall_mem_cons.mp hfits
    obtain ⟨ok, next, hpart, hsafe⟩ := returns_sendPart r hfirst w
    rw [List.map_cons, sendParts, hpart]
    cases ok with
    | false => exact ⟨false, next, rfl, fun _ => ⟨rfl, fun h => hopen (hsafe.unended h)⟩⟩
    | true =>
      refine ih hrest (fun h => ?_) (fun h => hopen (hsafe.unended h))
      exact hfresh ((hsafe.failed h).resolve_right Bool.noConfusion)

end Failing

section Results

def complete : Answers where
  taken _ count := some count
  taken_le h := (Option.some.inj h).ge
  taken_pos h hpos := (Option.some.inj h) ▸ hpos

/-- Every part is sent exactly when no size line is too long and no file ends with a full
read. -/
theorem sends_iff (parts : List Part) : Sends parts ↔ ∀ part ∈ parts, part.Fits := by
  constructor
  · intro h part hpart
    by_contra hunfit
    obtain ⟨ok, w, hrun, hsent, -⟩ := h complete
    have hcomplete : complete.Complete := fun _ _ => rfl
    rw [(hsent hcomplete).1] at hrun
    exact sendParts_unfit hcomplete ⟨part, hpart, hunfit⟩ start w hrun
  · intro hfits r
    obtain ⟨ok, w, hrun, hfailed⟩ :=
      @returns_sendParts start r parts hfits (by simp [start]) (by simp [start])
    refine ⟨ok, w, hrun, fun hr => ?_, hfailed⟩
    obtain ⟨chunks, hnonempty, hbytes, hdone⟩ := sendParts_complete hr hfits start
    obtain ⟨rfl, rfl⟩ := Prod.mk.inj (Except.ok.inj (hrun.symm.trans hdone))
    refine ⟨rfl, chunks, hnonempty, hbytes, ?_⟩
    simp only [writeLastChunk, streamWrite_complete hr]
    simp [Wire.after, start, chunkedBody]

/-- An empty file is not sent. -/
theorem emptyFile_not_sends : ¬ Sends [.file ⟨[], by decide⟩] := by
  intro h
  obtain ⟨ok, w, hrun, hsent, -⟩ := h complete
  have hcomplete : complete.Complete := fun _ _ => rfl
  have hfails : sendMtomMessage complete (some [.file (some ⟨[], false⟩) 0]) start =
      .ok (false, start) := rfl
  rw [(hsent hcomplete).1] at hrun
  cases hfails.symm.trans hrun

end Results

end Axis2C.HttpMtom
