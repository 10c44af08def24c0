import Axis2C.HttpChunkedStream

/-!
# The chunked reader on any stream

`axutil_http_chunked_stream_read` with the plain results of the reads below it,
which are 0 or -1 once all bytes are handed over. Lengths passed to a read are
`size_t`, so a negative chunk size asks for nearly everything. The stores into
the buffer of the caller are logged. A signed subtraction that leaves the int
range is a fault, as is a store behind `str_chunk_len`.
-/
namespace Axis2C.HttpChunkedReader
open HttpChunked

/-- The range of a C `int`. -/
def InInt (v : ℤ) : Prop := -2 ^ 31 ≤ v ∧ v < 2 ^ 31

instance (v : ℤ) : Decidable (InInt v) := inferInstanceAs (Decidable (_ ∧ _))

abbrev CInt := { v : ℤ // InInt v }

inductive Fault
  /-- `strcat` past the end of `str_chunk_len[512]`. -/
  | strChunkLen
  /-- Signed overflow. -/
  | intRange
  /-- The loop has more passes than the given number. -/
  | unfinished
  deriving Repr, DecidableEq

lemma toInt_inInt (v : ℤ) : InInt (toInt v) := by
  rw [InInt, toInt, Int.bmod_def]
  omega

/-- A conversion to `int`. -/
def ofLong (v : ℤ) : CInt := ⟨toInt v, toInt_inInt v⟩

def subInt (a b : CInt) : Except Fault CInt :=
  if h : InInt (a.val - b.val) then .ok ⟨a.val - b.val, h⟩ else .error .intRange

/-- The conversion of an `int` argument to `size_t`. -/
def sizeT (v : CInt) : ℕ := (v.val % 2 ^ 64).toNat

/-- The underlying stream. A read hands over at most `deliver pos` bytes, and one at least; behind
the last byte the reads fail or answer 0, by their number. -/
structure Wire where
  pending : List UInt8
  pos : ℕ
  deliver : ℕ → ℕ
  ended : ℕ
  failing : ℕ → Bool

def intMax : ℕ := 2 ^ 31 - 1

def Wire.handed (s : Wire) (asked : ℕ) : ℕ :=
  min (min (max 1 (s.deliver s.pos)) intMax) (min asked s.pending.length)

def Wire.advance (s : Wire) (len : ℕ) : Wire :=
  { s with pending := s.pending.drop len, pos := s.pos + len }

/-- The answer behind the last byte. -/
def Wire.endResult (s : Wire) : CInt :=
  if s.failing s.ended then ⟨-1, by decide⟩ else ⟨0, by decide⟩

def Wire.readAtEnd (s : Wire) : Wire := { s with ended := s.ended + 1 }

lemma Wire.handed_le_intMax (s : Wire) (asked : ℕ) : s.handed asked ≤ intMax :=
  (min_le_left _ _).trans (min_le_right _ _)

def streamRead (s : Wire) (asked : ℕ) : CInt × List UInt8 × Wire :=
  if s.pending = [] then (s.endResult, [], s.readAtEnd)
  else
    let len := s.handed asked
    (⟨len, by
      have hlen := s.handed_le_intMax asked
      simp only [InInt, intMax] at *
      omega⟩, s.pending.take len, s.advance len)

structure ChunkedStream where
  currentChunkSize : CInt
  unreadLen : CInt
  endOfChunks : Bool
  chunkStarted : Bool

def httpChunkedStreamCreate : ChunkedStream where
  currentChunkSize := ⟨-1, by decide⟩
  unreadLen := ⟨-1, by decide⟩
  endOfChunks := false
  chunkStarted := false

def readChunkLine : ℕ → Wire → List UInt8 → Except Fault (List UInt8 × Wire)
  | 0, _, _ => .error .unfinished
  | fuel + 1, s, strChunkLen =>
    let (read, tmpBuf, s) := streamRead s 1
    if 0 < read.val then
      let strChunkLen := strChunkLen ++ tmpBuf.takeWhile (· ≠ 0)
      if 512 ≤ strChunkLen.length then .error .strChunkLen
      else if crlf <:+: strChunkLen then .ok (strChunkLen, s)
      else readChunkLine fuel s strChunkLen
    else .ok (strChunkLen, s)

/-- The number in a size line; extensions are cut off. -/
def lineSize (strChunkLen : List UInt8) : CInt :=
  ofLong (strtol16 (strChunkLen.takeWhile (· ≠ 59)))

def httpChunkedStreamStartChunk (cs : ChunkedStream) (s : Wire) :
    Except Fault (ChunkedStream × Wire) := do
  -- remove the last CRLF of the previous chunk if any
  let s := if cs.chunkStarted then (streamRead s 2).2.2 else s
  let (strChunkLen, s) ← readChunkLine (s.pending.length + 1) s []
  let size := lineSize strChunkLen
  if size.val = 0 then
    .ok ({ cs with currentChunkSize := size, endOfChunks := true, chunkStarted := false },
      (streamRead s 2).2.2)
  else
    .ok ({ cs with currentChunkSize := size, unreadLen := size, chunkStarted := true }, s)

/-- Bytes that a read has stored into the buffer, from `offset` on. -/
structure Store where
  offset : ℤ
  bytes : List UInt8
  deriving Repr, DecidableEq

structure ReadResult where
  ret : CInt
  cs : ChunkedStream
  stream : Option Wire
  stores : List Store

def readLoop (count : ℕ) : ℕ → ChunkedStream → Wire → CInt → List Store → Except Fault ReadResult
  | 0, _, _, _, _ => .error .unfinished
  | fuel + 1, cs, s, yetToRead, stores =>
    if cs.endOfChunks = false ∧ 0 < yetToRead.val then
      if cs.unreadLen.val < yetToRead.val then do
        let (len, bytes, s) := streamRead s (sizeT cs.unreadLen)
        let stores := stores ++ [⟨count - yetToRead.val, bytes⟩]
        let yetToRead ← subInt yetToRead len
        let unreadLen ← subInt cs.unreadLen len
        if unreadLen.val ≤ 0 then
          let (cs, s) ← httpChunkedStreamStartChunk { cs with unreadLen } s
          readLoop count fuel cs s yetToRead stores
        else readLoop count fuel { cs with unreadLen } s yetToRead stores
      else do
        let (len, bytes, s) := streamRead s (sizeT yetToRead)
        let stores := stores ++ [⟨count - yetToRead.val, bytes⟩]
        let yetToRead ← subInt yetToRead len
        let unreadLen ← subInt cs.unreadLen len
        readLoop count fuel { cs with unreadLen } s yetToRead stores
    else do
      let ret ← subInt (ofLong count) yetToRead
      .ok ⟨ret, cs, s, stores⟩

/-- `buffer` says whether the pointer is set, `count` is the length of the buffer. -/
def httpChunkedStreamRead (fuel : ℕ) (cs : ChunkedStream) (stream : Option Wire) (buffer : Bool)
    (count : ℕ) : Except Fault ReadResult :=
  if buffer = false then .ok ⟨⟨-1, by decide⟩, cs, stream, []⟩
  else
    match stream with
    | none => .ok ⟨⟨-1, by decide⟩, cs, none, []⟩
    | some s =>
      if cs.endOfChunks then .ok ⟨⟨0, by decide⟩, cs, some s, []⟩
      else do
        let (cs, s) ←
          (if cs.chunkStarted = false then httpChunkedStreamStartChunk cs s else .ok (cs, s))
        readLoop count fuel cs s (ofLong count) []

/-! ### What lies on the wire -/

/-- The text of the size line that goes on behind `line`, and the bytes behind its CRLF. -/
def sizeLine : List UInt8 → List UInt8 → List UInt8 × Option (List UInt8)
  | line, [] => (line, none)
  | line, b :: pending =>
    let line := if b = 0 then line else line ++ [b]
    if crlf <:+: line then (line, some pending) else sizeLine line pending

def Wire.line (s : Wire) : List UInt8 := (sizeLine [] s.pending).1

/-- The stream in front of `rest`, or read past its end. -/
def Wire.before (s : Wire) : Option (List UInt8) → Wire
  | some rest => s.advance (s.pending.length - rest.length)
  | none => (s.advance s.pending.length).readAtEnd

def Wire.behindLine (s : Wire) : Wire := s.before (sizeLine [] s.pending).2

/-- The stream behind the two bytes that end a chunk, or the part of them that one read gets. -/
def Wire.behindCrlf (s : Wire) : Wire := (streamRead s 2).2.2

/-- The data of a chunk with `unread` bytes left, all of which are wanted: the stream behind it and
what is wanted then. -/
inductive Chunk (s : Wire) (yet unread : ℤ) : Wire → ℤ → Prop
  | whole (hpending : s.pending ≠ []) (hunread : 0 ≤ unread) (hall : unread ≤ s.pending.length) :
      Chunk s yet unread (s.advance unread.toNat) (yet - unread)
  /-- A read of no bytes, which must not fail. -/
  | finished (hpending : s.pending = []) (hunread : unread = 0) (hresult : s.endResult.val = 0) :
      Chunk s yet unread s.readAtEnd yet
  /-- A negative size, where no more is handed over than there is room for. -/
  | negative {len : ℕ} (hpending : s.pending ≠ []) (hunread : unread < 0)
      (hlen : len = s.handed (unread % 2 ^ 64).toNat) (hroom : len ≤ yet)
      (hrange : -2 ^ 31 ≤ unread - len) : Chunk s yet unread (s.advance len) (yet - len)
  | negativeAtEnd (hpending : s.pending = []) (hunread : unread < 0)
      (hrange : yet - s.endResult.val < 2 ^ 31) :
      Chunk s yet unread s.readAtEnd (yet - s.endResult.val)

/-- What is on the wire serves a reader that wants `yet` bytes and stands in a chunk with `unread`
bytes left. -/
inductive Served : Wire → ℤ → ℤ → Prop
  | full {s : Wire} {yet unread : ℤ} (hyet : yet ≤ 0) : Served s yet unread
  /-- The chunk has all that is wanted. -/
  | within {s : Wire} {yet unread : ℤ} (hyet : yet ≤ unread) (hall : yet ≤ s.pending.length) :
      Served s yet unread
  /-- The chunk is the last one. -/
  | last {s next : Wire} {yet unread left : ℤ} (hunread : unread < yet)
      (hchunk : Chunk s yet unread next left) (hline : next.behindCrlf.line.length ≤ 511)
      (hsize : (lineSize next.behindCrlf.line).val = 0) : Served s yet unread
  | next {s next : Wire} {yet unread left : ℤ} (hunread : unread < yet)
      (hchunk : Chunk s yet unread next left) (hline : next.behindCrlf.line.length ≤ 511)
      (hsize : (lineSize next.behindCrlf.line).val ≠ 0)
      (hserved : Served next.behindCrlf.behindLine left (lineSize next.behindCrlf.line).val) :
      Served s yet unread

section Lines

variable {s : Wire}

@[simp] lemma advance_zero (s : Wire) : s.advance 0 = s := rfl

@[simp] lemma advance_advance (s : Wire) (a b : ℕ) :
    (s.advance a).advance b = s.advance (a + b) := by
  simp [Wire.advance, Nat.add_assoc]

@[simp] lemma pending_advance (s : Wire) (len : ℕ) : (s.advance len).pending = s.pending.drop len :=
  rfl

@[simp] lemma pending_readAtEnd (s : Wire) : s.readAtEnd.pending = s.pending := rfl

lemma streamRead_nil (h : s.pending = []) (asked : ℕ) :
    streamRead s asked = (s.endResult, [], s.readAtEnd) := if_pos h

lemma endResult_cases (s : Wire) : s.endResult.val = -1 ∨ s.endResult.val = 0 := by
  unfold Wire.endResult
  split
  · exact .inl rfl
  · exact .inr rfl

lemma handed_le_asked (s : Wire) (asked : ℕ) : s.handed asked ≤ asked :=
  (min_le_right _ _).trans (min_le_left _ _)

lemma handed_le_length (s : Wire) (asked : ℕ) : s.handed asked ≤ s.pending.length :=
  (min_le_right _ _).trans (min_le_right _ _)

lemma handed_pos (h : s.pending ≠ []) {asked : ℕ} (hasked : 0 < asked) : 0 < s.handed asked := by
  have hlength := List.length_pos_iff.mpr h
  simp only [Wire.handed, intMax]
  omega

lemma handed_one (h : s.pending ≠ []) : s.handed 1 = 1 := by
  have hle := handed_le_asked s 1
  have hpos := handed_pos h Nat.one_pos
  omega

lemma streamRead_pending (h : s.pending ≠ []) (asked : ℕ) :
    (streamRead s asked).1.val = s.handed asked ∧
      (streamRead s asked).2.1 = s.pending.take (s.handed asked) ∧
      (streamRead s asked).2.2 = s.advance (s.handed asked) := by
  rw [streamRead, if_neg h]
  exact ⟨rfl, rfl, rfl⟩

lemma sizeLine_length (line pending : List UInt8) :
    line.length ≤ (sizeLine line pending).1.length := by
  induction pending generalizing line with
  | nil => exact le_rfl
  | cons b pending ih =>
    have hgrow : line.length ≤ (if b = 0 then line else line ++ [b]).length := by
      split <;> simp
    refine hgrow.trans ?_
    rw [sizeLine]
    generalize (if b = 0 then line else line ++ [b]) = line'
    by_cases hcrlf : crlf <:+: line'
    · simp only [if_pos hcrlf, le_refl]
    · simpa only [if_neg hcrlf] using ih line'

lemma sizeLine_rest (line pending : List UInt8) {rest : List UInt8}
    (h : (sizeLine line pending).2 = some rest) : rest.length < pending.length := by
  induction pending generalizing line with
  | nil => cases h
  | cons b pending ih =>
    rw [sizeLine] at h
    generalize (if b = 0 then line else line ++ [b]) = line' at h
    by_cases hcrlf : crlf <:+: line'
    · simp only [if_pos hcrlf, Option.some.injEq] at h
      simp [h]
    · simp only [if_neg hcrlf] at h
      exact (ih _ h).trans (by simp)

lemma before_cons {b : UInt8} {bs : List UInt8} (h : s.pending = b :: bs)
    {rest : Option (List UInt8)} (hrest : ∀ r, rest = some r → r.length ≤ bs.length) :
    (s.advance 1).before rest = s.before rest := by
  cases rest with
  | none =>
    have hlength : 1 + (s.pending.drop 1).length = s.pending.length := by
      simp [h, Nat.add_comm]
    simp only [Wire.before, pending_advance, advance_advance, hlength]
  | some r =>
    have hr := hrest r rfl
    have hlength : 1 + ((s.pending.drop 1).length - r.length) = s.pending.length - r.length := by
      simp only [h, List.drop_one, List.tail_cons, List.length_cons]
      omega
    simp only [Wire.before, pending_advance, advance_advance, hlength]

/-- The line loop, up to the limit of `str_chunk_len`. -/
lemma readChunkLine_eq (fuel : ℕ) (line : List UInt8) (hfuel : s.pending.length < fuel)
    (hline : line.length ≤ 511) :
    readChunkLine fuel s line =
      if (sizeLine line s.pending).1.length ≤ 511 then
        .ok ((sizeLine line s.pending).1, s.before (sizeLine line s.pending).2)
      else .error .strChunkLen := by
  induction fuel generalizing s line with
  | zero => omega
  | succ fuel ih =>
    cases hpending : s.pending with
    | nil =>
      have hresult : ¬ 0 < s.endResult.val := by
        rcases endResult_cases s with h | h <;> omega
      have hbefore : s.before none = s.readAtEnd := by
        simp [Wire.before, hpending]
      rw [readChunkLine, streamRead_nil hpending, sizeLine, if_pos hline, hbefore]
      exact if_neg hresult
    | cons b bs =>
      have hne : s.pending ≠ [] := by simp [hpending]
      obtain ⟨hlen, hbytes, hnext⟩ := streamRead_pending hne 1
      rw [handed_one hne] at hlen hbytes hnext
      have htmp : (s.pending.take 1).takeWhile (· ≠ 0) = if b = 0 then [] else [b] := by
        by_cases hb : b = 0 <;> simp [hpending, hb]
      have happend : line ++ (s.pending.take 1).takeWhile (· ≠ 0) =
          if b = 0 then line else line ++ [b] := by
        rw [htmp]
        split <;> simp
      have hstep : readChunkLine (fuel + 1) s line =
          let line' := if b = 0 then line else line ++ [b]
          if 512 ≤ line'.length then .error .strChunkLen
          else if crlf <:+: line' then .ok (line', s.advance 1)
          else readChunkLine fuel (s.advance 1) line' := by
        rw [readChunkLine]
        simp only [hlen, hbytes, hnext, happend]
        rfl
      rw [hstep, sizeLine]
      generalize (if b = 0 then line else line ++ [b]) = line'
      have hrest : (s.advance 1).pending = bs := by simp [hpending]
      by_cases hlong : 512 ≤ line'.length
      · have hfinal : ¬ (if crlf <:+: line' then (line', some bs)
            else sizeLine line' bs).1.length ≤ 511 := by
          split
          · exact fun h => by simp only at h; omega
          · have hgrow := sizeLine_length line' bs
            omega
        simp only [if_pos hlong, if_neg hfinal]
      · simp only [if_neg hlong]
        by_cases hcrlf : crlf <:+: line'
        · have hbefore : s.before (some bs) = s.advance 1 := by
            simp [Wire.before, hpending]
          simp only [if_pos hcrlf, hbefore]
          exact (if_pos (by omega)).symm
        · have hloop := ih line' (by rw [hrest]; simp [hpending] at hfuel; omega) (by omega)
          have hshorter : ∀ r, (sizeLine line' bs).2 = some r → r.length ≤ bs.length :=
            fun r hr => (sizeLine_rest _ _ hr).le
          have hbefore := before_cons hpending hshorter
          rw [hrest, hbefore] at hloop
          simp only [if_neg hcrlf]
          exact hloop

end Lines

/-! ### One call -/

/-- The value and the stores that a buffer of `count` bytes allows. -/
structure ReadResult.Within (r : ReadResult) (count : ℕ) : Prop where
  ret : -1 ≤ r.ret.val ∧ r.ret.val ≤ count
  stores : ∀ w ∈ r.stores, 0 ≤ w.offset ∧ w.offset < count ∧ w.offset + w.bytes.length ≤ count

/-- The call comes to an end within these bounds. -/
def Robust (cs : ChunkedStream) (stream : Option Wire) (buffer : Bool) (count : ℕ) : Prop :=
  ∃ fuel r, httpChunkedStreamRead fuel cs stream buffer count = .ok r ∧ r.Within count

/-- The loop comes to an end within these bounds. -/
def Ends (count : ℕ) (cs : ChunkedStream) (s : Wire) (yet : CInt) (stores : List Store) : Prop :=
  ∃ fuel r, readLoop count fuel cs s yet stores = .ok r ∧ r.Within count

def ChunkedStream.Inside (cs : ChunkedStream) : Prop :=
  cs.chunkStarted = true ∧ cs.endOfChunks = false

section Steps

variable {count fuel : ℕ} {cs : ChunkedStream} {s : Wire} {yet : CInt} {stores : List Store}
  {r : ReadResult}

lemma bind_eq_ok {α β : Type} {x : Except Fault α} {f : α → Except Fault β} {b : β} :
    x >>= f = .ok b ↔ ∃ a, x = .ok a ∧ f a = .ok b := by
  cases x with
  | error e | ok a => simp [Bind.bind, Except.bind]

lemma subInt_eq_ok {a b c : CInt} : subInt a b = .ok c ↔ c.val = a.val - b.val := by
  unfold subInt
  constructor
  · intro h
    split at h
    · obtain rfl := Except.ok.inj h
      rfl
    · cases h
  · intro h
    have hrange : InInt (a.val - b.val) := h ▸ c.property
    rw [dif_pos hrange]
    exact congrArg Except.ok (Subtype.ext h.symm)

/-- Where the chunk begins, in the stream that the reader is about to look for it. -/
def ChunkedStream.head (cs : ChunkedStream) (s : Wire) : Wire :=
  if cs.chunkStarted then s.behindCrlf else s

lemma startChunk_eq (cs : ChunkedStream) (s : Wire) :
    httpChunkedStreamStartChunk cs s =
      if (cs.head s).line.length ≤ 511 then
        if (lineSize (cs.head s).line).val = 0 then
          .ok ({ cs with
              currentChunkSize := lineSize (cs.head s).line, endOfChunks := true,
              chunkStarted := false },
            (streamRead (cs.head s).behindLine 2).2.2)
        else
          .ok ({ cs with
              currentChunkSize := lineSize (cs.head s).line,
              unreadLen := lineSize (cs.head s).line, chunkStarted := true },
            (cs.head s).behindLine)
      else .error .strChunkLen := by
  have hline : readChunkLine ((cs.head s).pending.length + 1) (cs.head s) [] =
      if (cs.head s).line.length ≤ 511 then .ok ((cs.head s).line, (cs.head s).behindLine)
      else .error .strChunkLen :=
    readChunkLine_eq _ [] (Nat.lt_succ_self _) (Nat.zero_le _)
  unfold httpChunkedStreamStartChunk
  change (readChunkLine ((cs.head s).pending.length + 1) (cs.head s) [] >>= _) = _
  by_cases hlength : (cs.head s).line.length ≤ 511
  · rw [hline, if_pos hlength, if_pos hlength]
    rfl
  · rw [hline, if_neg hlength, if_neg hlength]
    rfl

/-- The chunk that the reader comes to serves what is still wanted. -/
def Heads (s : Wire) (yet : ℤ) : Prop :=
  s.line.length ≤ 511 ∧
    ((lineSize s.line).val = 0 ∨ Served s.behindLine yet (lineSize s.line).val)

lemma val_ofLong (v : ℤ) : (ofLong v).val = toInt v := rfl

lemma readLoop_done (h : ¬ (cs.endOfChunks = false ∧ 0 < yet.val)) :
    readLoop count (fuel + 1) cs s yet stores = .ok r ↔
      ∃ ret : CInt, ret.val = toInt count - yet.val ∧ r = ⟨ret, cs, s, stores⟩ := by
  rw [readLoop, if_neg h, bind_eq_ok]
  simp only [subInt_eq_ok, val_ofLong]
  constructor
  · rintro ⟨ret, hret, hr⟩
    exact ⟨ret, hret, (Except.ok.inj hr).symm⟩
  · rintro ⟨ret, hret, rfl⟩
    exact ⟨ret, hret, rfl⟩

/-- A pass that wants more than the chunk has left. -/
lemma readLoop_below (hcs : cs.endOfChunks = false) (hyet : 0 < yet.val)
    (hunread : cs.unreadLen.val < yet.val) :
    readLoop count (fuel + 1) cs s yet stores = .ok r ↔
      ∃ yet' unread' : CInt,
        yet'.val = yet.val - (streamRead s (sizeT cs.unreadLen)).1.val ∧
        unread'.val = cs.unreadLen.val - (streamRead s (sizeT cs.unreadLen)).1.val ∧
        if unread'.val ≤ 0 then
          ∃ next, httpChunkedStreamStartChunk { cs with unreadLen := unread' }
              (streamRead s (sizeT cs.unreadLen)).2.2 = .ok next ∧
            readLoop count fuel next.1 next.2 yet' (stores ++
              [⟨count - yet.val, (streamRead s (sizeT cs.unreadLen)).2.1⟩]) = .ok r
        else
          readLoop count fuel { cs with unreadLen := unread' }
            (streamRead s (sizeT cs.unreadLen)).2.2 yet' (stores ++
              [⟨count - yet.val, (streamRead s (sizeT cs.unreadLen)).2.1⟩]) = .ok r := by
  rw [readLoop, if_pos ⟨hcs, hyet⟩, if_pos hunread]
  simp only [bind_eq_ok, subInt_eq_ok]
  constructor
  · rintro ⟨yet', hyet', unread', hunread', h⟩
    refine ⟨yet', unread', hyet', hunread', ?_⟩
    split at h
    · rw [if_pos ‹_›]
      exact bind_eq_ok.mp h
    · rw [if_neg ‹_›]
      exact h
  · rintro ⟨yet', unread', hyet', hunread', h⟩
    refine ⟨yet', hyet', unread', hunread', ?_⟩
    split at h
    · rw [if_pos ‹_›]
      exact bind_eq_ok.mpr h
    · rw [if_neg ‹_›]
      exact h

/-- A pass in a chunk that has all that is wanted. -/
lemma readLoop_above (hcs : cs.endOfChunks = false) (hyet : 0 < yet.val)
    (hunread : yet.val ≤ cs.unreadLen.val) :
    readLoop count (fuel + 1) cs s yet stores = .ok r ↔
      ∃ yet' unread' : CInt,
        yet'.val = yet.val - (streamRead s (sizeT yet)).1.val ∧
        unread'.val = cs.unreadLen.val - (streamRead s (sizeT yet)).1.val ∧
        readLoop count fuel { cs with unreadLen := unread' } (streamRead s (sizeT yet)).2.2 yet'
          (stores ++ [⟨count - yet.val, (streamRead s (sizeT yet)).2.1⟩]) = .ok r := by
  rw [readLoop, if_pos ⟨hcs, hyet⟩, if_neg (not_lt.mpr hunread)]
  simp only [bind_eq_ok, subInt_eq_ok]
  constructor
  · rintro ⟨yet', hyet', unread', hunread', h⟩
    exact ⟨yet', unread', hyet', hunread', h⟩
  · rintro ⟨yet', unread', hyet', hunread', h⟩
    exact ⟨yet', hyet', unread', hunread', h⟩

lemma sizeT_of_nonneg {v : CInt} (h : 0 ≤ v.val) : (sizeT v : ℤ) = v.val := by
  have hrange := v.property
  simp only [InInt, sizeT] at *
  omega

lemma startChunk_inv {next : ChunkedStream × Wire}
    (h : httpChunkedStreamStartChunk cs s = .ok next) :
    (cs.head s).line.length ≤ 511 ∧
      ((lineSize (cs.head s).line).val = 0 ∧ next.1.endOfChunks = true ∨
        (lineSize (cs.head s).line).val ≠ 0 ∧ (cs.endOfChunks = false → next.1.Inside) ∧
          next.1.unreadLen = lineSize (cs.head s).line ∧ next.2 = (cs.head s).behindLine) := by
  rw [startChunk_eq] at h
  split at h
  · next hline =>
      refine ⟨hline, ?_⟩
      split at h
      · next hsize =>
          obtain rfl := Except.ok.inj h
          exact .inl ⟨hsize, rfl⟩
      · next hsize =>
          obtain rfl := Except.ok.inj h
          exact .inr ⟨hsize, fun hended => ⟨rfl, hended⟩, rfl, rfl⟩
  · cases h

lemma exists_startChunk (h : (cs.head s).line.length ≤ 511) :
    ∃ next, httpChunkedStreamStartChunk cs s = .ok next := by
  rw [startChunk_eq, if_pos h]
  split
  · exact ⟨_, rfl⟩
  · exact ⟨_, rfl⟩

/-- No store is forgotten. -/
lemma mem_stores (h : readLoop count fuel cs s yet stores = .ok r) {w : Store} (hw : w ∈ stores) :
    w ∈ r.stores := by
  induction fuel generalizing cs s yet stores with
  | zero => cases h
  | succ fuel ih =>
    by_cases hgo : cs.endOfChunks = false ∧ 0 < yet.val
    · have hmem : ∀ w', w ∈ stores ++ [w'] := fun w' => List.mem_append_left _ hw
      by_cases hunread : cs.unreadLen.val < yet.val
      · obtain ⟨yet', unread', -, -, hrest⟩ := (readLoop_below hgo.1 hgo.2 hunread).mp h
        split at hrest
        · obtain ⟨next, -, hrest⟩ := hrest
          exact ih hrest (hmem _)
        · exact ih hrest (hmem _)
      · obtain ⟨yet', unread', -, -, hrest⟩ :=
          (readLoop_above hgo.1 hgo.2 (not_lt.mp hunread)).mp h
        exact ih hrest (hmem _)
    · obtain ⟨ret, -, rfl⟩ := (readLoop_done hgo).mp h
      exact hw

/-- Behind the last byte a chunk that is not used up is read for ever. -/
lemma readLoop_atEnd (hcs : cs.endOfChunks = false) (hpending : s.pending = [])
    (hyet : 0 < yet.val) (hunread : 0 < cs.unreadLen.val) :
    readLoop count fuel cs s yet stores ≠ .ok r := by
  induction fuel generalizing cs s yet stores with
  | zero => exact fun h => by cases h
  | succ fuel ih =>
    intro h
    have hresult := endResult_cases s
    have hend : s.readAtEnd.pending = [] := hpending
    by_cases hbelow : cs.unreadLen.val < yet.val
    · obtain ⟨yet', unread', hyet', hunread', hrest⟩ := (readLoop_below hcs hyet hbelow).mp h
      rw [streamRead_nil hpending] at hyet' hunread' hrest
      simp only at hyet' hunread' hrest
      rw [if_neg (by omega)] at hrest
      have hleft : 0 < ({ cs with unreadLen := unread' } : ChunkedStream).unreadLen.val := by
        change 0 < unread'.val
        omega
      exact ih (by exact hcs) hend (by omega) hleft hrest
    · obtain ⟨yet', unread', hyet', hunread', hrest⟩ :=
        (readLoop_above hcs hyet (not_lt.mp hbelow)).mp h
      rw [streamRead_nil hpending] at hyet' hunread' hrest
      simp only at hyet' hunread' hrest
      have hleft : 0 < ({ cs with unreadLen := unread' } : ChunkedStream).unreadLen.val := by
        change 0 < unread'.val
        omega
      exact ih (by exact hcs) hend (by omega) hleft hrest

end Steps

/-! ### What a call that ends has met -/

section Met

variable {s next : Wire} {yet unread left : ℤ}

lemma Served.behind (hunread : unread < yet) (hchunk : Chunk s yet unread next left)
    (hheads : Heads next.behindCrlf left) : Served s yet unread := by
  obtain ⟨hline, hsize⟩ := hheads
  by_cases hlast : (lineSize next.behindCrlf.line).val = 0
  · exact .last hunread hchunk hline hlast
  · exact .next hunread hchunk hline hlast (hsize.resolve_left hlast)

/-- Part of a chunk has been read. -/
lemma Chunk.resume {len : ℕ} (hlen : len ≤ s.pending.length) (hunread : (len : ℤ) < unread)
    (h : Chunk (s.advance len) (yet - len) (unread - len) next left) :
    Chunk s yet unread next left := by
  cases h with
  | whole hpending _ hall =>
    rw [pending_advance, List.length_drop] at hall
    have hnext : (s.advance len).advance (unread - len).toNat = s.advance unread.toNat := by
      rw [advance_advance]
      congr 1
      omega
    have hleft : yet - len - (unread - len) = yet - unread := by omega
    rw [hnext, hleft]
    refine .whole (fun hnil => hpending ?_) (by omega) (by omega)
    rw [pending_advance, hnil, List.drop_nil]
  | finished _ hzero _ | negative _ hneg _ _ _ | negativeAtEnd _ hneg _ => omega

lemma Served.resume {len : ℕ} (hlen : len ≤ s.pending.length)
    (hwanted : (len : ℤ) < unread ∧ unread < yet ∨ (len : ℤ) ≤ yet ∧ yet ≤ unread)
    (h : Served (s.advance len) (yet - len) (unread - len)) : Served s yet unread := by
  cases h with
  | full hyet => exact .within (by omega) (by omega)
  | within hyet hall =>
    rw [pending_advance, List.length_drop] at hall
    exact .within (by omega) (by omega)
  | last hunread hchunk hline hsize =>
    exact .last (by omega) (hchunk.resume hlen (by omega)) hline hsize
  | next hunread hchunk hline hsize hserved =>
    exact .next (by omega) (hchunk.resume hlen (by omega)) hline hsize hserved

end Met

section Reads

variable {count fuel : ℕ} {cs : ChunkedStream} {s : Wire} {yet : CInt} {stores : List Store}
  {r : ReadResult}
variable {bytes : List UInt8} {len : CInt} {yet' unread' : CInt}

theorem served_of_readLoop (hcs : cs.Inside)
    (h : readLoop count fuel cs s yet stores = .ok r) (hr : r.Within count) :
    Served s yet.val cs.unreadLen.val := by
  induction fuel generalizing cs s yet stores with
  | zero => cases h
  | succ fuel ih =>
    by_cases hyet : 0 < yet.val
    swap
    · exact .full (not_lt.mp hyet)
    -- the reader comes to the next chunk
    have hheads : ∀ {unread' : CInt} {s' : Wire} {yet' : CInt} {stores' : List Store},
        (∃ next, httpChunkedStreamStartChunk { cs with unreadLen := unread' } s' = .ok next ∧
          readLoop count fuel next.1 next.2 yet' stores' = .ok r) →
        Heads s'.behindCrlf yet'.val := by
      rintro unread' s' yet' stores' ⟨next, hstart, hloop⟩
      have hhead : ChunkedStream.head { cs with unreadLen := unread' } s' = s'.behindCrlf :=
        if_pos hcs.1
      obtain ⟨hline, hsize⟩ := startChunk_inv hstart
      rw [hhead] at hline hsize
      obtain ⟨hzero, -⟩ | ⟨-, hinside, hunread, hnext⟩ := hsize
      · exact ⟨hline, .inl hzero⟩
      · have hserved := ih (hinside hcs.2) hloop
        rw [hunread, hnext] at hserved
        exact ⟨hline, .inr hserved⟩
    by_cases hbelow : cs.unreadLen.val < yet.val
    · obtain ⟨yet', unread', hyet', hunread', hrest⟩ := (readLoop_below hcs.2 hyet hbelow).mp h
      have hrange := unread'.property
      by_cases hpending : s.pending = []
      · have hresult := endResult_cases s
        rw [streamRead_nil hpending] at hyet' hunread' hrest
        simp only at hyet' hunread' hrest
        rcases lt_trichotomy cs.unreadLen.val 0 with hneg | hzero | hpos
        · rw [if_pos (by omega)] at hrest
          have hchunk := Chunk.negativeAtEnd hpending hneg (hyet' ▸ yet'.property.2)
          exact .behind hbelow hchunk (hyet' ▸ hheads hrest)
        · by_cases hfail : s.endResult.val = 0
          · rw [if_pos (by omega)] at hrest
            have hleft : yet'.val = yet.val := by omega
            exact .behind hbelow (.finished hpending hzero hfail) (hleft ▸ hheads hrest)
          · rw [if_neg (by omega)] at hrest
            have hleft :
                0 < ({ cs with unreadLen := unread' } : ChunkedStream).unreadLen.val := by
              change 0 < unread'.val
              omega
            exact absurd hrest (readLoop_atEnd hcs.2 hpending (by omega) hleft)
        · exact absurd h (readLoop_atEnd hcs.2 hpending hyet hpos)
      · obtain ⟨hlen, hbytes, hnext⟩ := streamRead_pending hpending (sizeT cs.unreadLen)
        have hall := handed_le_length s (sizeT cs.unreadLen)
        rw [hlen] at hyet' hunread'
        by_cases hneg : cs.unreadLen.val < 0
        · rw [if_pos (by omega)] at hrest
          have hroom : (s.handed (sizeT cs.unreadLen) : ℤ) ≤ yet.val := by
            obtain ⟨next, -, hloop⟩ := hrest
            have hstore := hr.stores _ (mem_stores hloop (List.mem_append_right _
              (List.mem_singleton_self _)))
            rw [hbytes, List.length_take, min_eq_left hall] at hstore
            simp only at hstore
            omega
          have hchunk := Chunk.negative hpending hneg rfl hroom (hunread' ▸ hrange.1)
          rw [hnext] at hrest
          exact .behind hbelow hchunk (hyet' ▸ hheads hrest)
        · have hasked := sizeT_of_nonneg (not_lt.mp hneg)
          have hle := handed_le_asked s (sizeT cs.unreadLen)
          by_cases hwhole : unread'.val ≤ 0
          · rw [if_pos hwhole, hnext] at hrest
            have hlast : (s.handed (sizeT cs.unreadLen) : ℤ) = cs.unreadLen.val := by omega
            have hchunk : Chunk s yet.val cs.unreadLen.val
                (s.advance (s.handed (sizeT cs.unreadLen))) yet'.val := by
              rw [hyet', hlast, ← Int.toNat_natCast (s.handed _), hlast]
              exact .whole hpending (not_lt.mp hneg) (by omega)
            exact .behind hbelow hchunk (hheads hrest)
          · rw [if_neg hwhole, hnext] at hrest
            have hserved : Served _ yet'.val unread'.val := ih (by exact hcs) hrest
            rw [hyet', hunread'] at hserved
            exact hserved.resume hall (.inl ⟨by omega, hbelow⟩)
    · have habove := not_lt.mp hbelow
      obtain ⟨yet', unread', hyet', hunread', hrest⟩ := (readLoop_above hcs.2 hyet habove).mp h
      by_cases hpending : s.pending = []
      · exact absurd h (readLoop_atEnd hcs.2 hpending hyet (by omega))
      · obtain ⟨hlen, -, hnext⟩ := streamRead_pending hpending (sizeT yet)
        rw [hlen] at hyet' hunread'
        rw [hnext] at hrest
        have hasked := sizeT_of_nonneg hyet.le
        have hle := handed_le_asked s (sizeT yet)
        have hserved : Served _ yet'.val unread'.val := ih (by exact hcs) hrest
        rw [hyet', hunread'] at hserved
        exact hserved.resume (handed_le_length ..) (.inr ⟨by omega, habove⟩)

/-! ### A call that is served ends -/

/-- The stores so far lie in the buffer. -/
def Fits (count : ℕ) (stores : List Store) : Prop :=
  ∀ w ∈ stores, 0 ≤ w.offset ∧ w.offset < count ∧ w.offset + w.bytes.length ≤ count

lemma toInt_le (count : ℕ) : toInt count ≤ count := by
  rw [toInt, Int.bmod_def]
  omega

lemma Fits.concat (h : Fits count stores) (hpos : 0 < yet.val) (hyet : yet.val ≤ toInt count)
    (hbytes : (bytes.length : ℤ) ≤ yet.val) :
    Fits count (stores ++ [⟨count - yet.val, bytes⟩]) := by
  have hcount := toInt_le count
  intro w hw
  rcases List.mem_append.mp hw with hw | hw
  · exact h w hw
  · obtain rfl := List.mem_singleton.mp hw
    simp only
    omega

lemma ends_done (h : ¬ (cs.endOfChunks = false ∧ 0 < yet.val))
    (hret : -1 ≤ toInt count - yet.val ∧ toInt count - yet.val ≤ count ∧
      toInt count - yet.val < 2 ^ 31) (hstores : Fits count stores) :
    Ends count cs s yet stores := by
  have hrange : InInt (toInt count - yet.val) := ⟨by omega, hret.2.2⟩
  exact ⟨1, _, (readLoop_done h).mpr ⟨⟨_, hrange⟩, rfl, rfl⟩, ⟨hret.1, hret.2.1⟩, hstores⟩

section

variable (hcs : cs.endOfChunks = false) (hpos : 0 < yet.val)

include hcs hpos

/-- The pass that takes what is left of a chunk. -/
lemma ends_below_last (hunread : cs.unreadLen.val < yet.val) {s' : Wire}
    (hread : streamRead s (sizeT cs.unreadLen) = (len, bytes, s'))
    (hyet' : yet'.val = yet.val - len.val) (hunread' : unread'.val = cs.unreadLen.val - len.val)
    (hlast : unread'.val ≤ 0) {next : ChunkedStream × Wire}
    (hstart : httpChunkedStreamStartChunk { cs with unreadLen := unread' } s' = .ok next)
    (h : Ends count next.1 next.2 yet' (stores ++ [⟨count - yet.val, bytes⟩])) :
    Ends count cs s yet stores := by
  obtain ⟨fuel, r, hloop, hr⟩ := h
  refine ⟨fuel + 1, r, (readLoop_below hcs hpos hunread).mpr ⟨yet', unread', ?_⟩, hr⟩
  rw [hread, if_pos hlast]
  exact ⟨hyet', hunread', next, hstart, hloop⟩

/-- A pass that leaves some of the chunk. -/
lemma ends_below_more (hunread : cs.unreadLen.val < yet.val) {len : CInt} {bytes : List UInt8}
    {s' : Wire} (hread : streamRead s (sizeT cs.unreadLen) = (len, bytes, s')) {yet' unread' : CInt}
    (hyet' : yet'.val = yet.val - len.val) (hunread' : unread'.val = cs.unreadLen.val - len.val)
    (hmore : 0 < unread'.val)
    (h : Ends count { cs with unreadLen := unread' } s' yet' (stores ++ [⟨count - yet.val, bytes⟩])) :
    Ends count cs s yet stores := by
  obtain ⟨fuel, r, hloop, hr⟩ := h
  refine ⟨fuel + 1, r, (readLoop_below hcs hpos hunread).mpr ⟨yet', unread', ?_⟩, hr⟩
  rw [hread, if_neg (not_le.mpr hmore)]
  exact ⟨hyet', hunread', hloop⟩

lemma ends_above (hunread : yet.val ≤ cs.unreadLen.val) {len : CInt} {bytes : List UInt8}
    {s' : Wire} (hread : streamRead s (sizeT yet) = (len, bytes, s')) {yet' unread' : CInt}
    (hyet' : yet'.val = yet.val - len.val) (hunread' : unread'.val = cs.unreadLen.val - len.val)
    (h : Ends count { cs with unreadLen := unread' } s' yet' (stores ++ [⟨count - yet.val, bytes⟩])) :
    Ends count cs s yet stores := by
  obtain ⟨fuel, r, hloop, hr⟩ := h
  refine ⟨fuel + 1, r, (readLoop_above hcs hpos hunread).mpr ⟨yet', unread', ?_⟩, hr⟩
  rw [hread]
  exact ⟨hyet', hunread', hloop⟩

end

/-- A read in front of the end hands over some of what it asks for. -/
lemma streamRead_take (hpending : s.pending ≠ []) (asked : ℕ) :
    ∃ (n : ℕ) (len : CInt), len.val = n ∧ (0 < asked → 0 < n) ∧ n ≤ asked ∧
      n ≤ s.pending.length ∧ (s.pending.take n).length = n ∧
      streamRead s asked = (len, s.pending.take n, s.advance n) := by
  obtain ⟨hlen, hbytes, hnext⟩ := streamRead_pending hpending asked
  have hlength := handed_le_length s asked
  exact ⟨_, _, hlen, handed_pos hpending, handed_le_asked s asked, hlength,
    by rw [List.length_take, min_eq_left hlength], Prod.ext rfl (Prod.ext hbytes hnext)⟩

/-- What is left after a read that is within what is wanted. -/
lemma exists_sub (v : CInt) {n : ℕ} (hn : (n : ℤ) ≤ v.val) : ∃ v' : CInt, v'.val = v.val - n := by
  have hrange := v.property
  exact ⟨⟨v.val - n, by simp only [InInt] at *; omega⟩, rfl⟩

/-- Reading until the buffer is full. -/
lemma ends_within (hcs : cs.Inside) (hpos : 0 ≤ yet.val) (hunread : yet.val ≤ cs.unreadLen.val)
    (hall : yet.val ≤ s.pending.length) (hyet : yet.val ≤ toInt count)
    (hstores : Fits count stores) : Ends count cs s yet stores := by
  obtain ⟨left, hleft⟩ := Int.eq_ofNat_of_zero_le hpos
  induction left using Nat.strong_induction_on generalizing cs s yet stores with
  | _ left ih =>
    by_cases hdone : yet.val = 0
    · have hcount := toInt_le count
      obtain ⟨-, hrange⟩ := toInt_inInt count
      exact ends_done (by omega) ⟨by omega, by omega, by omega⟩ hstores
    · have hpending : s.pending ≠ [] := by
        intro hnil
        rw [hnil, List.length_nil] at hall
        omega
      have hasked := sizeT_of_nonneg hpos
      obtain ⟨n, len, hlen, hgain, hle, hlength, htake, hread⟩ :=
        streamRead_take hpending (sizeT yet)
      have hn : 0 < n := hgain (by omega)
      obtain ⟨yet', hyet'⟩ := exists_sub yet (show (n : ℤ) ≤ _ by omega)
      obtain ⟨unread', hunread'⟩ := exists_sub cs.unreadLen (show (n : ℤ) ≤ _ by omega)
      have hbytes : ((s.pending.take n).length : ℤ) ≤ yet.val := by omega
      have hdrop : yet'.val ≤ (s.advance n).pending.length := by
        rw [pending_advance, List.length_drop]
        omega
      have hrest : Ends count { cs with unreadLen := unread' } (s.advance n) yet' _ :=
        ih (left - n) (by omega) (by exact hcs) (by omega) (by change _ ≤ unread'.val; omega)
          hdrop (by omega) (hstores.concat (by omega) hyet hbytes) (by omega)
      exact ends_above hcs.2 (by omega) hunread hread (hlen ▸ hyet') (hlen ▸ hunread') hrest

/-- The reader comes to the next chunk with `left` bytes still wanted. -/
def Goes (count : ℕ) (s : Wire) (left : ℤ) : Prop :=
  ∀ (cs : ChunkedStream) (yet : CInt) (stores : List Store), cs.Inside → yet.val = left →
    Fits count stores →
    ∃ next, httpChunkedStreamStartChunk cs s = .ok next ∧ Ends count next.1 next.2 yet stores

/-- Reading what is left of a chunk. -/
lemma ends_of_whole (hcs : cs.Inside) (hunread : 0 ≤ cs.unreadLen.val)
    (hbelow : cs.unreadLen.val < yet.val) (hpending : s.pending ≠ [])
    (hall : cs.unreadLen.val ≤ s.pending.length) (hyet : yet.val ≤ toInt count)
    (hstores : Fits count stores)
    (hnext : Goes count (s.advance cs.unreadLen.val.toNat) (yet.val - cs.unreadLen.val)) :
    Ends count cs s yet stores := by
  obtain ⟨left, hleft⟩ := Int.eq_ofNat_of_zero_le hunread
  induction left using Nat.strong_induction_on generalizing cs s yet stores with
  | _ left ih =>
    have hasked := sizeT_of_nonneg hunread
    obtain ⟨n, len, hlen, hgain, hle, hlength, htake, hread⟩ :=
      streamRead_take hpending (sizeT cs.unreadLen)
    obtain ⟨yet', hyet'⟩ := exists_sub yet (show (n : ℤ) ≤ _ by omega)
    obtain ⟨unread', hunread'⟩ := exists_sub cs.unreadLen (show (n : ℤ) ≤ _ by omega)
    have hbytes : ((s.pending.take n).length : ℤ) ≤ yet.val := by omega
    have hfits := hstores.concat (by omega) hyet hbytes
    by_cases hlast : n = left
    · obtain ⟨next, hstart, hends⟩ := hnext { cs with unreadLen := unread' } yet' _ hcs
        (by omega) hfits
      have hadvance : s.advance cs.unreadLen.val.toNat = s.advance n := by
        congr 1
        omega
      rw [hadvance] at hstart
      exact ends_below_last hcs.2 (by omega) hbelow hread (hlen ▸ hyet') (hlen ▸ hunread')
        (by omega) hstart hends
    · have hdrop : (s.advance n).pending.length = s.pending.length - n := by
        rw [pending_advance, List.length_drop]
      have hn : 0 < n := hgain (by omega)
      have hmore : (s.advance n).pending ≠ [] := by
        intro hnil
        rw [hnil, List.length_nil] at hdrop
        omega
      have hgoes : Goes count ((s.advance n).advance unread'.val.toNat)
          (yet'.val - unread'.val) := by
        have hwire : (s.advance n).advance unread'.val.toNat =
            s.advance cs.unreadLen.val.toNat := by
          rw [advance_advance]
          congr 1
          omega
        have hwanted : yet'.val - unread'.val = yet.val - cs.unreadLen.val := by omega
        rwa [hwire, hwanted]
      have hrest : Ends count { cs with unreadLen := unread' } (s.advance n) yet' _ :=
        ih (left - n) (by omega) (by exact hcs) (by change 0 ≤ unread'.val; omega)
          (by change unread'.val < _; omega) hmore (by change unread'.val ≤ _; omega)
          (by omega) hfits hgoes (by change unread'.val = _; omega)
      exact ends_below_more hcs.2 (by omega) hbelow hread (hlen ▸ hyet') (hlen ▸ hunread')
        (by omega) hrest

lemma Chunk.ends {next : Wire} {left : ℤ} (h : Chunk s yet.val cs.unreadLen.val next left)
    (hcs : cs.Inside) (hbelow : cs.unreadLen.val < yet.val) (hpos : 0 < yet.val)
    (hyet : yet.val ≤ toInt count) (hstores : Fits count stores) (hnext : Goes count next left) :
    Ends count cs s yet stores := by
  have hnone : Fits count (stores ++ [⟨count - yet.val, []⟩]) :=
    hstores.concat hpos hyet (show (([] : List UInt8).length : ℤ) ≤ _ by simp; omega)
  have hrange := cs.unreadLen.property
  have hyetRange := yet.property
  simp only [InInt] at hrange hyetRange
  cases h with
  | whole hpending hunread hall =>
    exact ends_of_whole hcs hunread hbelow hpending hall hyet hstores hnext
  | finished hpending hunread hresult =>
    obtain ⟨n, hstart, hends⟩ := hnext cs yet _ hcs rfl hnone
    exact ends_below_last hcs.2 hpos hbelow (streamRead_nil hpending _) (by omega)
      (show cs.unreadLen.val = _ by omega) hunread.le hstart hends
  | @negative len hpending hunread hlen hroom hlow =>
    obtain ⟨hval, hbytes, hbehind⟩ := streamRead_pending hpending (sizeT cs.unreadLen)
    have hlength := handed_le_length s (sizeT cs.unreadLen)
    change len = s.handed (sizeT cs.unreadLen) at hlen
    rw [← hlen] at hval hbytes hbehind hlength
    obtain ⟨yet', hyet'⟩ := exists_sub yet hroom
    obtain ⟨unread', hunread'⟩ : ∃ v : CInt, v.val = cs.unreadLen.val - len :=
      ⟨⟨_, by rw [InInt]; omega⟩, rfl⟩
    have htaken : ((s.pending.take len).length : ℤ) ≤ yet.val := by
      rw [List.length_take, min_eq_left hlength]
      exact hroom
    obtain ⟨n, hstart, hends⟩ := hnext { cs with unreadLen := unread' } yet' _ hcs hyet'
      (hstores.concat hpos hyet htaken)
    obtain ⟨result, hread⟩ : ∃ result : CInt, result.val = len ∧
        streamRead s (sizeT cs.unreadLen) = (result, s.pending.take len, s.advance len) :=
      ⟨_, hval, Prod.ext rfl (Prod.ext hbytes hbehind)⟩
    exact ends_below_last hcs.2 hpos hbelow hread.2 (hread.1 ▸ hyet') (hread.1 ▸ hunread')
      (by omega) hstart hends
  | negativeAtEnd hpending hunread hhigh =>
    have hresult := endResult_cases s
    obtain ⟨yet', hyet'⟩ : ∃ v : CInt, v.val = yet.val - s.endResult.val :=
      ⟨⟨_, by rw [InInt]; omega⟩, rfl⟩
    obtain ⟨unread', hunread'⟩ : ∃ v : CInt, v.val = cs.unreadLen.val - s.endResult.val :=
      ⟨⟨_, by rw [InInt]; omega⟩, rfl⟩
    obtain ⟨n, hstart, hends⟩ := hnext { cs with unreadLen := unread' } yet' _ hcs hyet' hnone
    exact ends_below_last hcs.2 hpos hbelow (streamRead_nil hpending _) hyet' hunread'
      (by omega) hstart hends

lemma Chunk.left_le {next : Wire} {y u left : ℤ} (h : Chunk s y u next left) (hbelow : u < y)
    (hpos : 0 < y) : 0 ≤ left ∧ left ≤ y + 1 ∧ (left ≤ y ∨ next.pending = []) := by
  have hresult := endResult_cases s
  cases h with
  | whole | finished | negative => omega
  | negativeAtEnd hpending =>
    have hnil : s.readAtEnd.pending = [] := hpending
    exact ⟨by omega, by omega, .inr hnil⟩

lemma lineSize_atEnd {next : Wire} (h : next.pending = []) :
    (lineSize next.behindCrlf.line).val = 0 := by
  have hbehind : next.behindCrlf.pending = [] := by
    rw [Wire.behindCrlf, streamRead_nil h]
    exact h
  rw [Wire.line, hbehind]
  rfl

theorem Served.ends {y u : ℤ} (h : Served s y u) (hcs : cs.Inside) (hy : yet.val = y)
    (hu : cs.unreadLen.val = u) (hyet : yet.val ≤ toInt count)
    (hlow : 0 ≤ yet.val ∨ yet.val = toInt count) (hstores : Fits count stores) :
    Ends count cs s yet stores := by
  have hcount := toInt_le count
  obtain ⟨-, hrange⟩ := toInt_inInt count
  induction h generalizing cs yet stores with
  | full hfull => exact ends_done (by omega) ⟨by omega, by omega, by omega⟩ hstores
  | @within s y u hwithin hall =>
    subst hy hu
    by_cases hpos : 0 ≤ yet.val
    · exact ends_within hcs hpos hwithin hall hyet hstores
    · exact ends_done (by omega) ⟨by omega, by omega, by omega⟩ hstores
  | @last s next y u left hunread hchunk hline hsize =>
    subst hy hu
    by_cases hpos : 0 < yet.val
    swap
    · exact ends_done (by omega) ⟨by omega, by omega, by omega⟩ hstores
    obtain ⟨hleft, hle, -⟩ := hchunk.left_le hunread hpos
    refine hchunk.ends hcs hunread hpos hyet hstores fun cs' yet' stores' hcs' hyet' hfits => ?_
    have hhead : cs'.head next = next.behindCrlf := if_pos hcs'.1
    obtain ⟨n, hstart⟩ := exists_startChunk (hhead ▸ hline)
    obtain ⟨-, ⟨-, hended⟩ | ⟨hmore, -⟩⟩ := startChunk_inv hstart
    · exact ⟨n, hstart, ends_done (by simp [hended]) ⟨by omega, by omega, by omega⟩ hfits⟩
    · exact absurd (hhead ▸ hsize) hmore
  | @next s next y u left hunread hchunk hline hsize hserved ih =>
    subst hy hu
    by_cases hpos : 0 < yet.val
    swap
    · exact ends_done (by omega) ⟨by omega, by omega, by omega⟩ hstores
    obtain ⟨hleft, -, hle | hnil⟩ := hchunk.left_le hunread hpos
    · refine hchunk.ends hcs hunread hpos hyet hstores
        fun cs' yet' stores' hcs' hyet' hfits => ?_
      have hhead : cs'.head next = next.behindCrlf := if_pos hcs'.1
      obtain ⟨n, hstart⟩ := exists_startChunk (hhead ▸ hline)
      obtain ⟨-, ⟨hzero, -⟩ | ⟨-, hinside, hunread', hnext⟩⟩ := startChunk_inv hstart
      · exact absurd (hhead ▸ hzero) hsize
      · rw [hhead] at hunread' hnext
        refine ⟨n, hstart, ?_⟩
        rw [hnext]
        exact ih (hinside hcs'.2) hyet' (congrArg _ hunread') (by omega) (by omega) hfits
    · exact absurd (lineSize_atEnd hnil) hsize

end Reads

def Serves (cs : ChunkedStream) (stream : Option Wire) (buffer : Bool) (count : ℕ) : Prop :=
  buffer = true → cs.endOfChunks = false → ∀ s ∈ stream,
    if cs.chunkStarted then Served s (toInt count) cs.unreadLen.val else Heads s (toInt count)

lemma serves_of_robust {cs : ChunkedStream} {stream : Option Wire} {buffer : Bool} {count : ℕ}
    (h : Robust cs stream buffer count) : Serves cs stream buffer count := by
  rintro rfl hended s rfl
  obtain ⟨fuel, r, hread, hr⟩ := h
  rw [httpChunkedStreamRead, if_neg (by simp)] at hread
  simp only [hended, Bool.false_eq_true, if_false] at hread
  obtain ⟨⟨cs', s'⟩, hstart, hloop⟩ := bind_eq_ok.mp hread
  cases hstarted : cs.chunkStarted with
  | true =>
    rw [hstarted, if_neg (by simp)] at hstart
    obtain ⟨rfl, rfl⟩ := Prod.mk.inj (Except.ok.inj hstart)
    have hserved := served_of_readLoop ⟨hstarted, hended⟩ hloop hr
    rw [val_ofLong] at hserved
    exact hserved
  | false =>
    rw [hstarted, if_pos rfl] at hstart
    have hhead : cs.head s = s := by simp [ChunkedStream.head, hstarted]
    obtain ⟨hline, hsize⟩ := startChunk_inv hstart
    rw [hhead] at hline hsize
    obtain ⟨hzero, -⟩ | ⟨-, hinside, hunread, hnext⟩ := hsize
    · exact ⟨hline, .inl hzero⟩
    · have hserved := served_of_readLoop (hinside hended) hloop hr
      simp only at hunread hnext
      rw [hunread, hnext, val_ofLong] at hserved
      exact ⟨hline, .inr hserved⟩

lemma robust_of_serves {cs : ChunkedStream} {stream : Option Wire} {buffer : Bool} {count : ℕ}
    (h : Serves cs stream buffer count) : Robust cs stream buffer count := by
  have hnothing : Fits count [] := fun w hw => absurd hw (List.not_mem_nil)
  have hcount := toInt_le count
  obtain ⟨hlow, hrange⟩ := toInt_inInt count
  cases buffer with
  | false => exact ⟨0, _, rfl, ⟨le_rfl, by simp only; omega⟩, hnothing⟩
  | true =>
    cases stream with
    | none => exact ⟨0, _, rfl, ⟨le_rfl, by simp only; omega⟩, hnothing⟩
    | some s =>
      cases hended : cs.endOfChunks with
      | true =>
        refine ⟨0, ⟨⟨0, by decide⟩, cs, some s, []⟩, ?_, ⟨by simp, by simp⟩, hnothing⟩
        simp [httpChunkedStreamRead, hended]
      | false =>
        have hserves := h rfl hended s rfl
        -- the call is the start of the chunk, when it is due, and the loop
        have hcall : ∀ cs' s', (if cs.chunkStarted = false then
            httpChunkedStreamStartChunk cs s else .ok (cs, s)) = .ok (cs', s') →
            Ends count cs' s' (ofLong count) [] →
            Robust cs (some s) true count := by
          rintro cs' s' hstart ⟨fuel, r, hloop, hr⟩
          refine ⟨fuel, r, ?_, hr⟩
          rw [httpChunkedStreamRead, if_neg (by simp)]
          simp only [hended, Bool.false_eq_true, if_false]
          exact bind_eq_ok.mpr ⟨_, hstart, hloop⟩
        cases hstarted : cs.chunkStarted with
        | true =>
          rw [hstarted, if_pos rfl] at hserves
          refine hcall cs s (by simp [hstarted]) ?_
          exact hserves.ends ⟨hstarted, hended⟩ (val_ofLong _) rfl (val_ofLong _).le
            (.inr (val_ofLong _)) hnothing
        | false =>
          rw [hstarted, if_neg (by simp)] at hserves
          obtain ⟨hline, hsize⟩ := hserves
          have hhead : cs.head s = s := by simp [ChunkedStream.head, hstarted]
          obtain ⟨⟨cs', s'⟩, hstart⟩ := exists_startChunk (hhead.symm ▸ hline)
          refine hcall cs' s' (by simp [hstarted, hstart]) ?_
          obtain ⟨-, ⟨-, hlast⟩ | ⟨hmore, hinside, hunread, hnext⟩⟩ :=
            startChunk_inv hstart
          · refine ends_done (fun hgo => ?_) (by rw [val_ofLong]; omega) hnothing
            exact absurd (hlast.symm.trans hgo.1) (by decide)
          · rw [hhead] at hmore hunread hnext
            simp only at hunread hnext
            rw [hnext]
            exact (hsize.resolve_left hmore).ends (hinside hended) (val_ofLong _)
              (congrArg _ hunread) (val_ofLong _).le (.inr (val_ofLong _)) hnothing

/-- A call ends with a value from -1 to `count`, with all stores inside the buffer and none behind
`str_chunk_len`, exactly when what is on the wire serves it. -/
theorem chunked_read_robust_iff (cs : ChunkedStream) (stream : Option Wire) (buffer : Bool)
    (count : ℕ) : Robust cs stream buffer count ↔ Serves cs stream buffer count :=
  ⟨serves_of_robust, robust_of_serves⟩

/-- A chunk of size -1 with six bytes behind its line, which are handed over together. -/
def negativeChunk : Wire where
  pending := [45, 49, 13, 10, 97, 98, 99, 100, 101, 102]
  pos := 0
  deliver := fun _ => 6
  ended := 0
  failing := fun _ => false

lemma negativeChunk_not_taken {next : Wire} {left : ℤ} :
    ¬ Chunk negativeChunk.behindLine 2 (-1) next left := by
  intro h
  cases h with
  | whole _ hunread => exact absurd hunread (by decide)
  | finished hpending | negativeAtEnd hpending => exact absurd hpending (by decide)
  | negative _ _ hlen hroom =>
    have hsix : negativeChunk.behindLine.handed ((-1 : ℤ) % 2 ^ 64).toNat = 6 := by decide +kernel
    omega

/-- A buffer of two bytes gets six. -/
theorem negative_chunk_overruns :
    ¬ Robust httpChunkedStreamCreate (some negativeChunk) true 2 := by
  intro h
  have hsize : (lineSize negativeChunk.line).val = -1 := by decide +kernel
  obtain ⟨-, hserved⟩ := serves_of_robust h rfl rfl _ rfl
  rw [hsize] at hserved
  obtain hzero | hserved := hserved
  · omega
  · cases hserved with
    | full hfull => exact absurd hfull (by decide)
    | within hwithin => exact absurd hwithin (by decide)
    | last _ hchunk | next _ hchunk => exact negativeChunk_not_taken hchunk

end Axis2C.HttpChunkedReader
