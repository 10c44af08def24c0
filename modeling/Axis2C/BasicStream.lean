import Axis2C.MachineInts
import Axis2C.MemoryBlocks

/-!
# The basic stream

The part of `stream.c` that keeps its bytes in memory. `buffer` moves on inside the block
that starts at `buffer_head` when bytes are read or skipped; a write makes room only if
`len + count` is above `max_len`, wherever `buffer` stands in the block. A copy that leaves
the block is a fault.
-/
namespace Axis2C.BasicStream
open MachineInts MemoryBlocks

section Source

/-- `AXIS2_STREAM_DEFAULT_BUF_SIZE`. -/
def defaultBufSize : ℤ := 2048

/-- A block as it comes from the allocator, or NULL. -/
abbrev Allocation := Option (ℕ → UInt8)

/-- `axutil_stream_t`; the block has `maxLen` bytes, and `offset` is `buffer - buffer_head`. -/
structure Stream where
  block : ℕ → UInt8
  offset : ℕ
  len : ℤ
  maxLen : ℤ

inductive Fault
  /-- A copy from or to memory outside the block. -/
  | outsideBlock
  deriving DecidableEq, Repr

def newStream (block : ℕ → UInt8) : Stream := ⟨block, 0, 0, defaultBufSize⟩

/-- `axutil_stream_create_basic`. -/
def createBasic (malloc : Allocation) : Option Stream := malloc.map newStream

/-- The stream after a call, the value returned, and the bytes that were copied into the block
and those that were copied out of it or dropped. -/
structure Outcome where
  stream : Stream
  returned : ℤ
  stored : List UInt8
  taken : List UInt8

/-- The outcome of a call that does nothing but return -1. -/
def refused (s : Stream) : Outcome := ⟨s, -1, [], []⟩

/-- The stream without its first `n` bytes. -/
def Stream.dropped (s : Stream) (n : ℤ) : Stream :=
  { s with len := s.len - n, offset := s.offset + n.toNat }

/-- `axutil_stream_read_basic`, where the buffer of the caller may be NULL. -/
def readBasic (s : Stream) (buffer : Bool) (count : ℤ) : Except Fault Outcome :=
  if buffer then
    let len := if int32 (count - 1) > s.len then s.len else int32 (count - 1)
    -- `memcpy` takes a negative length for a huge one
    if len < 0 ∨ s.maxLen < s.offset + len then .error .outsideBlock
    else .ok ⟨s.dropped len, len, [], slice s.block s.offset len.toNat⟩
  else .ok (refused s)

/-- The block that a write of `count` bytes has, or none if the allocator has no memory. A
size that is no positive `int` is too large for it. -/
def Stream.room (s : Stream) (count : ℕ) (malloc : Allocation) : Option Stream :=
  let newLen := int32 (s.len + count)
  if newLen > s.maxLen then
    let size := int32 (newLen + defaultBufSize)
    if size < 0 then none
    else malloc.map fun tmp =>
      { s with
        block := copyTo tmp 0 (slice s.block s.offset s.len.toNat)
        offset := 0
        maxLen := size }
  else some s

/-- `axutil_stream_write_basic`. -/
def writeBasic (s : Stream) (buffer : Option (List UInt8)) (malloc : Allocation) :
    Except Fault Outcome :=
  match buffer with
  | none => .ok (refused s)
  | some buffer =>
    match s.room buffer.length malloc with
    | none => .ok (refused s)
    | some s =>
      if s.maxLen < s.offset + s.len + buffer.length then .error .outsideBlock
      else .ok ⟨{ s with
          block := copyTo s.block (s.offset + s.len.toNat) buffer
          len := int32 (s.len + int32 buffer.length) }, int32 buffer.length, buffer, []⟩

/-- `axutil_stream_skip_basic`. -/
def skipBasic (s : Stream) (count : ℤ) : Outcome :=
  if count > 0 then
    let delLen := if count ≤ s.len then count else s.len
    ⟨s.dropped delLen, delLen, [], slice s.block s.offset delLen.toNat⟩
  else refused s

end Source

section Calls

/-- A call on a stream. A read asks for one byte at least, that of the terminator. -/
inductive Call
  | read (buffer : Bool) (more : ℕ)
  | write (buffer : Option (List UInt8)) (malloc : Allocation)
  | skip (count : ℤ)

def call (s : Stream) : Call → Except Fault Outcome
  | .read buffer more => readBasic s buffer (more + 1)
  | .write buffer malloc => writeBasic s buffer malloc
  | .skip count => .ok (skipBasic s count)

/-- A stream with the bytes written so far and those read or skipped. -/
structure History where
  stream : Stream
  written : List UInt8
  consumed : List UInt8

def History.call (h : History) (c : Call) : Except Fault History :=
  match BasicStream.call h.stream c with
  | .error fault => .error fault
  | .ok o => .ok ⟨o.stream, h.written ++ o.stored, h.consumed ++ o.taken⟩

/-- The history of a stream before the first call. -/
def start (s : Stream) : History := ⟨s, [], []⟩

/-- The calls one after the other. -/
def run (h : History) (calls : List Call) : Except Fault History := calls.foldlM History.call h

end Calls

section Invariant

variable {s : Stream} {h h' : History} {c : Call}
variable {malloc : Allocation} {s' : Stream}

def Stream.unread (s : Stream) : List UInt8 := slice s.block s.offset s.len.toNat

/-- The stream holds the bytes written and not consumed, in order, inside its block. -/
structure History.Fifo (h : History) : Prop where
  order : h.written = h.consumed ++ h.stream.unread
  length : h.stream.len = h.stream.unread.length
  inside : h.stream.offset + h.stream.len ≤ h.stream.maxLen

/-- What keeps a call inside the block: the length read is a proper `int`; the bytes to be
written fit behind the bytes that are left, or there is no memory for them, or `len + count`
is an `int` above `max_len`. -/
def Call.Meets (s : Stream) : Call → Prop
  | .read buffer more => buffer = true → 0 ≤ int32 more
  | .write (some buffer) malloc =>
    s.offset + s.len + buffer.length ≤ s.maxLen ∨ s.room buffer.length malloc = none ∨
      (s.maxLen < s.len + buffer.length ∧ s.len + buffer.length < 2 ^ 31)
  | _ => True

/-- The fields of a stream in order. -/
structure Stream.Wf (s : Stream) : Prop where
  len : 0 ≤ s.len
  inside : s.offset + s.len ≤ s.maxLen
  int : s.maxLen < 2 ^ 31

/-- Dropping bytes leaves the others. -/
lemma unread_dropped {n : ℤ} (hpos : 0 ≤ n) (hle : n ≤ s.len) :
    s.unread = slice s.block s.offset n.toNat ++ (s.dropped n).unread := by
  have hsum : s.len.toNat = n.toNat + (s.len - n).toNat := by omega
  rw [Stream.unread, hsum, slice_add]
  rfl

lemma Stream.Wf.dropped (hs : s.Wf) {n : ℤ} (hpos : 0 ≤ n) (hle : n ≤ s.len) :
    (s.dropped n).Wf := by
  obtain ⟨hlen, hinside, hint⟩ := hs
  refine ⟨?_, ?_, hint⟩
  · change 0 ≤ s.len - n
    omega
  · change ((s.offset + n.toNat : ℕ) : ℤ) + (s.len - n) ≤ s.maxLen
    push_cast
    omega

/-- The stream for a write is the same, or it gets a larger block and its unread bytes move to
the front of it. -/
lemma room_cases (hs : s.Wf) {count : ℕ} (h : s.room count malloc = some s') :
    (int32 (s.len + count) ≤ s.maxLen ∧ s' = s) ∨
      ∃ tmp, s.maxLen < int32 (s.len + count) ∧ int32 (s.len + count) + 2048 < 2 ^ 31 ∧
        s' = { s with
          block := copyTo tmp 0 s.unread
          offset := 0
          maxLen := int32 (s.len + count) + 2048 } := by
  obtain ⟨hlen, hinside, -⟩ := hs
  have hrange := int32_range (s.len + count)
  simp only [Stream.room] at h
  split at h
  · next hgrow =>
      right
      split at h
      · cases h
      · next hsize =>
          obtain ⟨tmp, -, rfl⟩ := Option.map_eq_some_iff.mp h
          have hint : int32 (s.len + count) + 2048 < 2 ^ 31 := by
            rw [int32, Int.bmod_def, defaultBufSize] at hsize
            omega
          refine ⟨tmp, hgrow, hint, ?_⟩
          rw [defaultBufSize, int32_eq_self (by omega) hint]
          rfl
  · next hsame => exact Or.inl ⟨not_lt.mp hsame, (Option.some.inj h).symm⟩

/-- The stream for a write has the same bytes left, and its fields are in order. -/
lemma Stream.Wf.room (hs : s.Wf) {count : ℕ} (h : s.room count malloc = some s') :
    s'.Wf ∧ s'.len = s.len ∧ s'.unread = s.unread := by
  obtain ⟨-, rfl⟩ | ⟨tmp, hgrow, hint, rfl⟩ := room_cases hs h
  · exact ⟨hs, rfl, rfl⟩
  · obtain ⟨hlen, hinside, -⟩ := hs
    refine ⟨⟨hlen, ?_, hint⟩, rfl, ?_⟩
    · change ((0 : ℕ) : ℤ) + s.len ≤ int32 (s.len + count) + 2048
      omega
    · have hcopied := slice_copyTo (m := tmp) 0 s.unread
      rwa [show s.unread.length = s.len.toNat from length_slice _ _] at hcopied

/-- The stream for a write has enough room exactly if the bytes fit behind the unread ones, or
a larger block was needed for a length that is an `int`. -/
lemma room_fits_iff (hs : s.Wf) {count : ℕ} (h : s.room count malloc = some s') :
    s'.offset + s'.len + count ≤ s'.maxLen ↔
      s.offset + s.len + count ≤ s.maxLen ∨
        (s.maxLen < s.len + count ∧ s.len + count < 2 ^ 31) := by
  obtain ⟨hlen, hinside, hmax⟩ := hs
  obtain ⟨k, hk⟩ := int32_eq (s.len + count)
  have hrange := int32_range (s.len + count)
  obtain ⟨hsmall, rfl⟩ | ⟨tmp, hgrow, hint, rfl⟩ := room_cases ⟨hlen, hinside, hmax⟩ h
  · omega
  · change ((0 : ℕ) : ℤ) + s.len + count ≤ int32 (s.len + count) + 2048 ↔ _
    omega

lemma unread_stored (hs : s.Wf) {data : List UInt8}
    (hfits : s.offset + s.len + data.length ≤ s.maxLen) :
    Stream.unread { s with
      block := copyTo s.block (s.offset + s.len.toNat) data
      len := int32 (s.len + int32 data.length) } = s.unread ++ data := by
  obtain ⟨hlen, hinside, hmax⟩ := hs
  have hint : int32 data.length = data.length := int32_eq_self (by omega) (by omega)
  have hsum : int32 (s.len + data.length) = s.len + data.length :=
    int32_eq_self (by omega) (by omega)
  have hcount : (s.len + data.length).toNat = s.len.toNat + data.length := by omega
  simp only [Stream.unread, hint, hsum, hcount]
  rw [slice_add, slice_copyTo_before data le_rfl, slice_copyTo]

end Invariant

section Steps

variable {s : Stream} {h h' : History} {c : Call} {o : Outcome}

def Stream.readLen (s : Stream) (more : ℕ) : ℤ := min (int32 more) s.len

lemma readBasic_eq (hs : s.Wf) (more : ℕ) :
    readBasic s true (more + 1) =
      if 0 ≤ int32 more then
        .ok ⟨s.dropped (s.readLen more), s.readLen more, [],
          slice s.block s.offset (s.readLen more).toNat⟩
      else .error .outsideBlock := by
  obtain ⟨hlen, hinside, -⟩ := hs
  have hmin : (if int32 more > s.len then s.len else int32 more) = s.readLen more := by
    unfold Stream.readLen
    split <;> omega
  simp only [readBasic, if_true, add_sub_cancel_right, hmin]
  have hiff : (s.readLen more < 0 ∨ s.maxLen < s.offset + s.readLen more) ↔ ¬ 0 ≤ int32 more := by
    unfold Stream.readLen
    omega
  by_cases hmore : 0 ≤ int32 more
  · rw [if_pos hmore, if_neg (mt hiff.mp (not_not.mpr hmore))]
  · rw [if_neg hmore, if_pos (hiff.mpr hmore)]

lemma Stream.Wf.stored (hs : s.Wf) {data : List UInt8}
    (hfits : s.offset + s.len + data.length ≤ s.maxLen) :
    Stream.Wf { s with
      block := copyTo s.block (s.offset + s.len.toNat) data
      len := int32 (s.len + int32 data.length) } := by
  obtain ⟨hlen, hinside, hmax⟩ := hs
  have hint : int32 data.length = data.length := int32_eq_self (by omega) (by omega)
  have hsum : int32 (s.len + data.length) = s.len + data.length :=
    int32_eq_self (by omega) (by omega)
  rw [hint, hsum]
  exact ⟨by simp only; omega, by simp only; omega, hmax⟩

lemma writeBasic_eq (buffer : List UInt8) (malloc : Allocation) :
    writeBasic s (some buffer) malloc =
      match s.room buffer.length malloc with
      | none => .ok (refused s)
      | some s' =>
        if s'.maxLen < s'.offset + s'.len + buffer.length then .error .outsideBlock
        else .ok ⟨{ s' with
            block := copyTo s'.block (s'.offset + s'.len.toNat) buffer
            len := int32 (s'.len + int32 buffer.length) }, int32 buffer.length, buffer, []⟩ := rfl

/-- A call stays inside the block exactly if it meets its condition. -/
lemma call_ok_iff (hs : s.Wf) : (∃ o, call s c = .ok o) ↔ c.Meets s := by
  cases c with
  | read buffer more =>
    cases buffer with
    | false => exact iff_of_true ⟨_, rfl⟩ (fun hfalse => absurd hfalse (by decide))
    | true =>
      simp only [call, readBasic_eq hs, Call.Meets, true_implies]
      by_cases hmore : 0 ≤ int32 more <;> simp [hmore]
  | write buffer malloc =>
    cases buffer with
    | none => exact iff_of_true ⟨_, rfl⟩ trivial
    | some buffer =>
      simp only [call, writeBasic_eq, Call.Meets]
      cases hroom : s.room buffer.length malloc with
      | none => simp
      | some s' =>
        have hfits := room_fits_iff hs hroom
        by_cases hmore : s'.maxLen < s'.offset + s'.len + buffer.length
        · simp only [if_pos hmore, reduceCtorEq, exists_false, false_or, false_iff]
          exact fun h => absurd (hfits.mpr h) (not_le.mpr hmore)
        · simp only [if_neg hmore, Except.ok.injEq, exists_eq', reduceCtorEq, false_or,
            true_iff]
          exact hfits.mp (not_lt.mp hmore)
  | skip count => exact iff_of_true ⟨_, rfl⟩ trivial

/-- A call keeps the fields in order, and what it stores goes behind the unread bytes, what it
takes comes from the front. -/
lemma call_keeps (hs : s.Wf) (h : call s c = .ok o) :
    o.stream.Wf ∧ s.unread ++ o.stored = o.taken ++ o.stream.unread := by
  have hlen := hs.len
  have hrefused : (refused s).stream.Wf ∧
      s.unread ++ (refused s).stored = (refused s).taken ++ (refused s).stream.unread :=
    ⟨hs, by simp [refused]⟩
  have hdrop (n : ℤ) (hpos : 0 ≤ n) (hle : n ≤ s.len) : (s.dropped n).Wf ∧
      s.unread ++ [] = slice s.block s.offset n.toNat ++ (s.dropped n).unread :=
    ⟨hs.dropped hpos hle, by rw [List.append_nil, unread_dropped hpos hle]⟩
  cases c with
  | read buffer more =>
    cases buffer with
    | false =>
      obtain rfl := Except.ok.inj h
      exact hrefused
    | true =>
      simp only [call, readBasic_eq hs] at h
      split at h
      · next hmore =>
          obtain rfl := Except.ok.inj h
          exact hdrop _ (le_min hmore hlen) (min_le_right _ _)
      · cases h
  | write buffer malloc =>
    cases buffer with
    | none =>
      obtain rfl := Except.ok.inj h
      exact hrefused
    | some buffer =>
      simp only [call, writeBasic_eq] at h
      split at h
      · obtain rfl := Except.ok.inj h
        exact hrefused
      · next s' hroom =>
          obtain ⟨hs', -, hunread⟩ := hs.room hroom
          split at h
          · cases h
          · next hfits =>
              obtain rfl := Except.ok.inj h
              refine ⟨hs'.stored (not_lt.mp hfits), ?_⟩
              rw [List.nil_append, unread_stored hs' (not_lt.mp hfits), hunread]
  | skip count =>
    obtain rfl := Except.ok.inj h
    unfold skipBasic
    by_cases hpos : count > 0
    · by_cases hle : count ≤ s.len
      · simpa only [if_pos hpos, if_pos hle] using hdrop count hpos.le hle
      · simpa only [if_pos hpos, if_neg hle] using hdrop s.len hlen le_rfl
    · simpa only [if_neg hpos] using hrefused

end Steps

section Runs

variable {s : Stream} {h h' : History} {c : Call}

/-- The fields are in order, and the bytes come out as they went in. -/
structure History.Wf (h : History) : Prop where
  stream : h.stream.Wf
  order : h.written = h.consumed ++ h.stream.unread

lemma History.Wf.fifo (hh : h.Wf) : h.Fifo where
  order := hh.order
  length := by
    have hlen := hh.stream.len
    rw [Stream.unread, length_slice]
    omega
  inside := hh.stream.inside

lemma History.Wf.call_ok_iff (hh : h.Wf) : (∃ h', h.call c = .ok h') ↔ c.Meets h.stream := by
  rw [← BasicStream.call_ok_iff hh.stream, History.call]
  cases BasicStream.call h.stream c <;> simp

lemma History.Wf.call (hh : h.Wf) (hcall : h.call c = .ok h') : h'.Wf := by
  unfold History.call at hcall
  split at hcall
  · cases hcall
  · next o ho =>
      obtain rfl := Except.ok.inj hcall
      obtain ⟨hstream, horder⟩ := call_keeps hh.stream ho
      refine ⟨hstream, ?_⟩
      change h.written ++ o.stored = (h.consumed ++ o.taken) ++ o.stream.unread
      rw [hh.order, List.append_assoc, List.append_assoc, horder]

lemma wf_start (block : ℕ → UInt8) : (start (newStream block)).Wf :=
  ⟨⟨le_rfl, by simp [start, newStream, defaultBufSize], by simp [start, newStream, defaultBufSize]⟩,
    rfl⟩

lemma run_append (h : History) (calls : List Call) (c : Call) :
    run h (calls ++ [c]) = (run h calls).bind fun h' => h'.call c := by
  unfold run
  rw [List.foldlM_append]
  cases List.foldlM History.call h calls with
  | error => rfl
  | ok h' =>
    change List.foldlM History.call h' [c] = _
    simp [Except.bind]

/-- A run keeps the order as long as no call faults. -/
lemma History.Wf.run (hh : h.Wf) {calls : List Call} (hrun : run h calls = .ok h') : h'.Wf := by
  induction calls using List.reverseRecOn generalizing h' with
  | nil =>
    obtain rfl := Except.ok.inj hrun
    exact hh
  | append_singleton calls c ih =>
    rw [run_append] at hrun
    cases hbefore : BasicStream.run h calls with
    | error => simp [hbefore, Except.bind] at hrun
    | ok before =>
      rw [hbefore] at hrun
      exact (ih hbefore).call hrun

/-- In a run on a new stream the bytes come out in the order in which they went in, those that
are left are in the stream, inside its block, and no copy leaves the block, all this after each
call, exactly if each call meets its condition. -/
theorem basic_stream_fifo_iff (block : ℕ → UInt8) (calls : List Call) :
    (∀ before, before <+: calls →
        ∃ h, run (start (newStream block)) before = .ok h ∧ h.Fifo) ↔
      ∀ before c h, before ++ [c] <+: calls → run (start (newStream block)) before = .ok h →
        c.Meets h.stream := by
  constructor
  · intro hall before c h hcalls hrun
    obtain ⟨h', hrun', -⟩ := hall (before ++ [c]) hcalls
    rw [run_append, hrun] at hrun'
    exact ((wf_start block).run hrun).call_ok_iff.mp ⟨h', hrun'⟩
  · intro hmeets before hbefore
    suffices hok : ∃ h, run (start (newStream block)) before = .ok h by
      obtain ⟨h, hrun⟩ := hok
      exact ⟨h, hrun, ((wf_start block).run hrun).fifo⟩
    induction before using List.reverseRecOn with
    | nil => exact ⟨start (newStream block), rfl⟩
    | append_singleton before c ih =>
      obtain ⟨h, hrun⟩ := ih ((List.prefix_append before [c]).trans hbefore)
      have hc := hmeets before c h hbefore hrun
      obtain ⟨h', hcall⟩ := ((wf_start block).run hrun).call_ok_iff.mpr hc
      exact ⟨h', by rw [run_append, hrun]; exact hcall⟩

/-- 2048 bytes are written, one is dropped, and one more is written: there are 2047 bytes then,
so that the block of 2048 is not replaced, but they do not start at its front. -/
theorem write_after_skip_overruns :
    run (start (newStream fun _ => 0)) [.write (some (List.replicate 2048 7)) none, .skip 1,
      .write (some [7]) none] = .error .outsideBlock ∧
    ¬ ∀ block calls before, before <+: calls →
        ∃ h, run (start (newStream block)) before = .ok h ∧ h.Fifo := by
  have hrun : run (start (newStream fun _ => 0)) [.write (some (List.replicate 2048 7)) none,
      .skip 1, .write (some [7]) none] = .error .outsideBlock := by
    have hlength : (List.replicate 2048 (7 : UInt8)).length = 2048 := List.length_replicate
    generalize List.replicate 2048 (7 : UInt8) = data at hlength ⊢
    have h2048 : int32 2048 = 2048 := by decide
    simp [hlength, run, History.call, call, writeBasic, Stream.room, skipBasic, Stream.dropped,
      start, newStream, defaultBufSize, h2048, bind, Except.bind]
  refine ⟨hrun, fun hall => ?_⟩
  obtain ⟨h, hok, -⟩ := hall (fun _ => 0) _ _ (List.prefix_refl _)
  rw [hrun] at hok
  cases hok

end Runs

end Axis2C.BasicStream
