import Axis2C.HttpChunkedStream
import Mathlib.Data.List.TakeWhile

/-!
# Round trip of the HTTP chunked stream

The reader stands inside a chunk with a known unread part, or has met the last
chunk; everything still to be returned is that part and the chunks behind it.
One read takes a prefix of it whatever the underlying stream delivers at a time.
A CRLF between chunks that is delivered in two pieces does no harm: `strtol`
skips the line feed left in front of the next size. The CRLF behind the last
chunk is read once and nothing looks at what is left of it.
-/
namespace Axis2C.HttpChunked

def chunk (data : List UInt8) : List UInt8 := formatHex data.length ++ crlf ++ data ++ crlf

def chunkedBody (chunks : List (List UInt8)) : List UInt8 :=
  chunks.flatMap chunk ++ [48, 13, 10, 13, 10]

@[simp] lemma chunkedBody_nil : chunkedBody [] = [48, 13, 10, 13, 10] := rfl

@[simp] lemma chunkedBody_cons (c : List UInt8) (chunks : List (List UInt8)) :
    chunkedBody (c :: chunks) = formatHex c.length ++ crlf ++ c ++ crlf ++ chunkedBody chunks := by
  simp [chunkedBody, chunk]

section Sizes

variable {n : ℕ}

lemma hexDigit_cases {d : ℕ} (hd : d < 16) :
    hexValue (hexDigit d) = some d ∧ isSpace (hexDigit d) = false ∧ hexDigit d ≠ 0 ∧
      hexDigit d ≠ 13 ∧ hexDigit d ≠ 43 ∧ hexDigit d ≠ 45 ∧ hexDigit d ≠ 59 ∧
      hexDigit d ≠ 88 ∧ hexDigit d ≠ 120 := by
  revert d
  decide

lemma formatHex_eq (n : ℕ) :
    ∃ ds : List ℕ, ds ≠ [] ∧ (∀ d ∈ ds, d < 16) ∧ formatHex n = ds.map hexDigit ∧
      ds.foldl (fun acc d => acc * 16 + d) 0 = n := by
  unfold formatHex
  by_cases hn : n = 0
  · subst hn
    exact ⟨[0], by simp, by simp, rfl, rfl⟩
  · rw [if_neg hn]
    refine ⟨(Nat.digits 16 n).reverse, ?_, ?_, rfl, ?_⟩
    · rw [Ne, List.reverse_eq_nil_iff]
      exact Nat.digits_ne_nil_iff_ne_zero.mpr hn
    · intro d hd
      exact Nat.digits_lt_base (by norm_num) (List.mem_reverse.mp hd)
    · rw [List.foldl_reverse]
      have h := Nat.ofDigits_digits 16 n
      rw [Nat.ofDigits_eq_foldr] at h
      simpa [mul_comm, add_comm] using h

lemma length_formatHex_le (hn : n < 2 ^ 28) : (formatHex n).length ≤ 7 := by
  unfold formatHex
  by_cases h : n = 0
  · simp [h]
  · rw [if_neg h, List.length_map, List.length_reverse, Nat.digits_length_le_iff (by norm_num)]
    simpa using hn

lemma lt_length_formatHex (hn : 2 ^ 28 ≤ n) : 7 < (formatHex n).length := by
  have h : n ≠ 0 := by omega
  unfold formatHex
  rw [if_neg h, List.length_map, List.length_reverse, Nat.lt_digits_length_iff (by norm_num)]
  simpa using hn

lemma hexNumber_digits (ds : List ℕ) (hds : ∀ d ∈ ds, d < 16) (acc : ℕ) (tail : List UInt8) :
    hexNumber acc (ds.map hexDigit ++ 13 :: tail) = ds.foldl (fun acc d => acc * 16 + d) acc := by
  induction ds generalizing acc with
  | nil =>
    have h : hexValue 13 = none := by decide
    simp [hexNumber, h]
  | cons d ds ih =>
    have hd := (hexDigit_cases (hds d (by simp))).1
    simp only [List.map_cons, List.cons_append, hexNumber, hd, List.foldl_cons]
    exact ih (fun e he => hds e (by simp [he])) _

lemma skipHexMark_digits (ds : List ℕ) (hds : ∀ d ∈ ds, d < 16) (hne : ds ≠ [])
    (tail : List UInt8) :
    skipHexMark (ds.map hexDigit ++ 13 :: tail) = ds.map hexDigit ++ 13 :: tail := by
  match ds, hne with
  | [d], _ => simp [skipHexMark]
  | d :: e :: ds, _ =>
    have he := hexDigit_cases (hds e (by simp))
    simp only [List.map_cons, List.cons_append]
    unfold skipHexMark
    split
    · next heq => exact absurd (List.cons.inj (List.cons.inj heq).2).1 he.2.2.2.2.2.2.2.2
    · next heq => exact absurd (List.cons.inj (List.cons.inj heq).2).1 he.2.2.2.2.2.2.2.1
    · rfl

/-- The size line is read back, with or without a stray line feed in front. -/
lemma strtol16_formatHex (hn : n < 2 ^ 28) {lead : List UInt8} (hlead : lead = [] ∨ lead = [10]) :
    toInt (strtol16 (lead ++ formatHex n ++ crlf)) = n := by
  obtain ⟨ds, hne, hds, hfmt, hval⟩ := formatHex_eq n
  obtain ⟨d, ds', rfl⟩ := List.exists_cons_of_ne_nil hne
  have hd := hexDigit_cases (hds d (by simp))
  have hdrop : (lead ++ formatHex n ++ crlf).dropWhile isSpace =
      (d :: ds').map hexDigit ++ 13 :: [10] := by
    have hspace : isSpace 10 = true := by decide
    obtain rfl | rfl := hlead
    · simp [hfmt, crlf, hd.2.1]
    · simp [hfmt, crlf, List.dropWhile, hd.2.1, hspace]
  have hnum : hexNumber 0 (skipHexMark ((d :: ds').map hexDigit ++ 13 :: [10])) = n := by
    rw [skipHexMark_digits _ hds hne, hexNumber_digits _ hds, hval]
  have hstrtol : strtol16 (lead ++ formatHex n ++ crlf) = min (n : ℤ) (2 ^ 63 - 1) := by
    unfold strtol16
    rw [hdrop]
    split
    · next heq => exact absurd (List.cons.inj heq).1 hd.2.2.2.2.2.1
    · next heq => exact absurd (List.cons.inj heq).1 hd.2.2.2.2.1
    · rw [hnum]
  rw [hstrtol, min_eq_left (by omega), toInt, Int.bmod_def]
  omega

/-- The bytes of a size line. -/
lemma mem_formatHex {b : UInt8} (hb : b ∈ formatHex n) : b ≠ 0 ∧ b ≠ 13 ∧ b ≠ 59 := by
  obtain ⟨ds, -, hds, hfmt, -⟩ := formatHex_eq n
  rw [hfmt] at hb
  obtain ⟨d, hd, rfl⟩ := List.mem_map.mp hb
  have h := hexDigit_cases (hds d hd)
  exact ⟨h.2.2.1, h.2.2.2.1, h.2.2.2.2.2.2.1⟩

end Sizes

section Stream

variable {line : List UInt8}

/-- A stream in the middle of a run: what is pending, and where the end is. -/
structure At (deliver : ℕ → ℕ) (total : ℕ) (s : Stream) (pending : List UInt8) : Prop where
  schedule : s.deliver = deliver
  left : s.pending = pending
  ending : s.pos + pending.length = total

variable {deliver : ℕ → ℕ} {total : ℕ} {s : Stream}

/-- How much a read of `count` bytes gets when `left` bytes remain. -/
def delivered (deliver : ℕ → ℕ) (total left count : ℕ) : ℕ :=
  min (max 1 (deliver (total - left))) count

lemma delivered_le (deliver : ℕ → ℕ) (total left count : ℕ) :
    delivered deliver total left count ≤ count := Nat.min_le_right _ _

lemma delivered_pos (deliver : ℕ → ℕ) (total left : ℕ) {count : ℕ} (h : 0 < count) :
    0 < delivered deliver total left count := by
  unfold delivered
  omega

/-- A read takes a prefix of what is pending. -/
lemma At.read {pending : List UInt8} (h : At deliver total s pending) (count : ℕ)
    (hcount : count ≤ pending.length) :
    ∃ s', streamRead s count =
        (pending.take (delivered deliver total pending.length count), s') ∧
      At deliver total s' (pending.drop (delivered deliver total pending.length count)) := by
  have hpos : s.pos = total - pending.length := by
    have := h.ending
    omega
  have hlen : min (max 1 (s.deliver s.pos)) (min count s.pending.length) =
      delivered deliver total pending.length count := by
    rw [h.left, Nat.min_eq_left hcount, h.schedule, hpos, delivered]
  set len := delivered deliver total pending.length count with hdef
  have hread : streamRead s count =
      (pending.take len, { s with pending := pending.drop len, pos := s.pos + len }) := by
    simp only [streamRead, hlen]
    rw [h.left]
  refine ⟨_, hread, h.schedule, rfl, ?_⟩
  have := h.ending
  have := delivered_le deliver total pending.length count
  simp only [List.length_drop]
  omega

lemma At.read_one {b : UInt8} {back : List UInt8} (h : At deliver total s (b :: back)) :
    ∃ s', streamRead s 1 = ([b], s') ∧ At deliver total s' back := by
  obtain ⟨s', hread, hat⟩ := h.read 1 (by simp)
  have hone : delivered deliver total (b :: back).length 1 = 1 :=
    le_antisymm (delivered_le ..) (delivered_pos _ _ _ Nat.one_pos)
  rw [hone] at hread hat
  exact ⟨s', hread, hat⟩

lemma crlf_not_in (h : (13 : UInt8) ∉ line) : ¬ crlf <:+: line := by
  intro hin
  exact h (hin.subset (by simp [crlf]))

lemma crlf_not_in_concat (h : (13 : UInt8) ∉ line) :
    ¬ crlf <:+: line ++ [13] := by
  rw [List.infix_concat_iff, not_or]
  refine ⟨?_, crlf_not_in h⟩
  rintro ⟨pre, hpre⟩
  have hlast := congrArg List.getLast? hpre
  simp [crlf] at hlast

/-- One byte of the line that does not complete a CRLF. -/
lemma readChunkLine_step {b : UInt8} (back : List UInt8) (h : At deliver total s (b :: back))
    (hb : b ≠ 0) (hfit : line.length + 1 < 512) (hno : ¬ crlf <:+: line ++ [b]) (fuel : ℕ) :
    ∃ s', readChunkLine (fuel + 1) s line = readChunkLine fuel s' (line ++ [b]) ∧
      At deliver total s' back := by
  obtain ⟨s', hread, hat⟩ := h.read_one
  have hlen : ¬ 512 ≤ (line ++ [b]).length := by
    rw [List.length_append, List.length_singleton]
    omega
  refine ⟨s', ?_, hat⟩
  simp only [readChunkLine, hread, if_neg hb, if_neg hlen, if_neg hno]

/-- The line loop stops behind the first CRLF. -/
lemma readChunkLine_spec (text : List UInt8) (htext : ∀ b ∈ text, b ≠ 0 ∧ b ≠ 13) (fuel : ℕ)
    (back line : List UInt8) (h : At deliver total s (text ++ crlf ++ back))
    (hline : (13 : UInt8) ∉ line) (hfuel : text.length + 2 ≤ fuel)
    (hfit : line.length + text.length + 2 < 512) :
    ∃ s', readChunkLine fuel s line = .ok (line ++ text ++ crlf, s') ∧ At deliver total s' back := by
  induction text generalizing fuel s line with
  | nil =>
    simp only [List.length_nil] at hfuel hfit
    obtain ⟨fuel, rfl⟩ : ∃ f, fuel = f + 1 + 1 := ⟨fuel - 2, by omega⟩
    obtain ⟨s1, hstep, hat⟩ := readChunkLine_step (10 :: back) h (by decide) (by omega)
      (crlf_not_in_concat hline) (fuel + 1)
    obtain ⟨s2, hread, hat'⟩ := hat.read_one
    have hyes : crlf <:+: line ++ [13] ++ [10] := ⟨line, [], by simp [crlf]⟩
    have hlen : ¬ 512 ≤ (line ++ [13] ++ [10] : List UInt8).length := by
      simp only [List.length_append, List.length_singleton]
      omega
    have hten : (10 : UInt8) ≠ 0 := by decide
    refine ⟨s2, ?_, hat'⟩
    rw [hstep]
    simp only [readChunkLine, hread, if_neg hten, if_neg hlen, if_pos hyes]
    simp [crlf]
  | cons b text ih =>
    simp only [List.length_cons] at hfuel hfit
    obtain ⟨fuel, rfl⟩ : ∃ f, fuel = f + 1 := ⟨fuel - 1, by omega⟩
    obtain ⟨hb0, hb13⟩ := htext b (by simp)
    have hline' : (13 : UInt8) ∉ line ++ [b] := by
      simp [hline, Ne.symm hb13]
    obtain ⟨s1, hstep, hat⟩ := readChunkLine_step (text ++ crlf ++ back) h hb0 (by omega)
      (crlf_not_in hline') fuel
    obtain ⟨s2, hrest, hat'⟩ := ih (fun c hc => htext c (by simp [hc])) fuel (line ++ [b]) hat
      hline' (by omega) (by simp only [List.length_append, List.length_singleton]; omega)
    refine ⟨s2, ?_, hat'⟩
    rw [hstep, hrest]
    simp

end Stream

section Reader

variable (deliver : ℕ → ℕ) (total : ℕ) (rest : List UInt8)
variable {cs : ChunkedStream} {chunks : List (List UInt8)} {lead : List UInt8} {left : List UInt8}

/-- A chunk whose size line the writer can print and the reader takes as a size. -/
def Sized (data : List UInt8) : Prop := data ≠ [] ∧ data.length < 2 ^ 28

/-- What is left of the CRLF behind the last chunk once it was read. -/
def leftover : List UInt8 := crlf.drop (delivered deliver total (rest.length + 2) 2)

/-- The reader still has to return `left`. -/
inductive Remaining : ChunkedStream → List UInt8 → Prop
  | fresh {cs : ChunkedStream} (chunks : List (List UInt8)) (hend : cs.endOfChunks = false)
      (hstart : cs.chunkStarted = false) (hsized : ∀ c ∈ chunks, Sized c)
      (hat : At deliver total cs.stream (chunkedBody chunks ++ rest)) :
      Remaining cs chunks.flatten
  | inChunk {cs : ChunkedStream} (data : List UInt8) (chunks : List (List UInt8))
      (hend : cs.endOfChunks = false) (hstart : cs.chunkStarted = true)
      (hunread : cs.unreadLen = data.length) (hsized : ∀ c ∈ chunks, Sized c)
      (hat : At deliver total cs.stream (data ++ (crlf ++ chunkedBody chunks ++ rest))) :
      Remaining cs (data ++ chunks.flatten)
  | ended {cs : ChunkedStream} (hend : cs.endOfChunks = true)
      (hat : At deliver total cs.stream (leftover deliver total rest ++ rest)) :
      Remaining cs []

variable {deliver total rest}

def Started (deliver : ℕ → ℕ) (total : ℕ) (rest : List UInt8) (cs : ChunkedStream)
    (chunks : List (List UInt8)) : Prop :=
  Remaining deliver total rest cs chunks.flatten ∧
    (cs.endOfChunks = true ∨ cs.chunkStarted = true) ∧
    cs.stream.pending.length < (chunkedBody chunks ++ rest).length

/-- Reading the size line `lead ++ formatHex n ++ crlf`. -/
lemma readChunkLine_size {s : Stream} {n : ℕ} (hn : n < 2 ^ 28) (hlead : lead = [] ∨ lead = [10])
    (back : List UInt8) (hat : At deliver total s (lead ++ formatHex n ++ crlf ++ back)) :
    ∃ s', readChunkLine (s.pending.length + 1) s [] = .ok (lead ++ formatHex n ++ crlf, s') ∧
      At deliver total s' back := by
  have htext : ∀ b ∈ lead ++ formatHex n, b ≠ 0 ∧ b ≠ 13 := by
    intro b hb
    obtain hb | hb := List.mem_append.mp hb
    · obtain rfl | rfl := hlead
      · simp at hb
      · obtain rfl := List.mem_singleton.mp hb
        decide
    · exact ⟨(mem_formatHex hb).1, (mem_formatHex hb).2.1⟩
  have hlen : lead.length ≤ 1 := by
    obtain rfl | rfl := hlead <;> simp
  have hfmt := length_formatHex_le hn
  refine readChunkLine_spec (lead ++ formatHex n) htext _ back [] hat (by simp) ?_ ?_
  · rw [hat.left]
    simp only [List.length_append, crlf, List.length_cons, List.length_nil]
    omega
  · simp only [List.length_append, List.length_nil]
    omega

lemma line_size {n : ℕ} (hn : n < 2 ^ 28) (hlead : lead = [] ∨ lead = [10]) :
    toInt (strtol16 ((lead ++ formatHex n ++ crlf).takeWhile (· ≠ 59))) = n := by
  have hall : (lead ++ formatHex n ++ crlf).takeWhile (· ≠ 59) = lead ++ formatHex n ++ crlf := by
    refine List.takeWhile_eq_self_iff.mpr ?_
    intro b hb
    simp only [List.mem_append] at hb
    obtain (hb | hb) | hb := hb
    · obtain rfl | rfl := hlead
      · simp at hb
      · obtain rfl := List.mem_singleton.mp hb
        decide
    · simpa using (mem_formatHex hb).2.2
    · obtain rfl | rfl : b = 13 ∨ b = 10 := by simpa [crlf] using hb
      · decide
      · decide
  rw [hall, strtol16_formatHex hn hlead]

lemma startChunk_line (hlead : lead = [] ∨ lead = [10]) (hend : cs.endOfChunks = false)
    (hsized : ∀ c ∈ chunks, Sized c) {s : Stream}
    (hs : (if cs.chunkStarted then (streamRead cs.stream 2).2 else cs.stream) = s)
    (hat : At deliver total s (lead ++ chunkedBody chunks ++ rest)) :
    ∃ cs', httpChunkedStreamStartChunk cs = .ok cs' ∧ Started deliver total rest cs' chunks := by
  unfold httpChunkedStreamStartChunk
  rw [hs]
  cases chunks with
  | nil =>
    have hzero : (0 : ℕ) < 2 ^ 28 := by norm_num
    obtain ⟨s1, hline, hat1⟩ := readChunkLine_size hzero hlead (crlf ++ rest)
      (by simpa [formatHex, crlf] using hat)
    obtain ⟨s2, hread, hat2⟩ := hat1.read 2 (by simp [crlf])
    simp only [hline, line_size hzero hlead, Nat.cast_zero, if_true, hread]
    have hleft : (crlf ++ rest).length = rest.length + 2 := by
      simp [crlf]
    have hle := delivered_le deliver total (rest.length + 2) 2
    have hpos := delivered_pos deliver total (rest.length + 2) Nat.two_pos
    rw [hleft, List.drop_append_of_le_length (by simpa [crlf] using hle)] at hat2
    refine ⟨_, rfl, Remaining.ended rfl hat2, .inl rfl, ?_⟩
    rw [hat2.left]
    simp only [chunkedBody_nil, List.length_append, List.length_drop, crlf, List.length_cons,
      List.length_nil]
    omega
  | cons c chunks =>
    obtain ⟨hne, hsmall⟩ := hsized c (by simp)
    obtain ⟨s1, hline, hat1⟩ := readChunkLine_size hsmall hlead
      (c ++ (crlf ++ chunkedBody chunks ++ rest)) (by simpa using hat)
    have hsize : ((c.length : ℕ) : ℤ) ≠ 0 := by
      simpa using hne
    simp only [hline, line_size hsmall hlead, if_neg hsize]
    refine ⟨_, rfl, ?_, .inr rfl, ?_⟩
    · exact Remaining.inChunk c chunks hend rfl rfl (fun d hd => hsized d (by simp [hd])) hat1
    · rw [hat1.left]
      simp only [chunkedBody_cons, List.length_append, crlf, List.length_cons, List.length_nil]
      omega

/-- The first chunk: nothing to remove in front of the size. -/
lemma startChunk_fresh {cs : ChunkedStream} {chunks : List (List UInt8)}
    (hend : cs.endOfChunks = false) (hstart : cs.chunkStarted = false)
    (hsized : ∀ c ∈ chunks, Sized c)
    (hat : At deliver total cs.stream (chunkedBody chunks ++ rest)) :
    ∃ cs', httpChunkedStreamStartChunk cs = .ok cs' ∧ Started deliver total rest cs' chunks :=
  startChunk_line (.inl rfl) hend hsized (by simp [hstart]) hat

/-- A later chunk: the CRLF before it is removed, the line feed perhaps by `strtol`. -/
lemma startChunk_next (hend : cs.endOfChunks = false) (hstart : cs.chunkStarted = true)
    (hsized : ∀ c ∈ chunks, Sized c)
    (hat : At deliver total cs.stream (crlf ++ chunkedBody chunks ++ rest)) :
    ∃ cs', httpChunkedStreamStartChunk cs = .ok cs' ∧ Started deliver total rest cs' chunks := by
  obtain ⟨s, hread, hat'⟩ := hat.read 2 (by simp [crlf])
  have hs : (if cs.chunkStarted then (streamRead cs.stream 2).2 else cs.stream) = s := by
    rw [hstart, hread]
    rfl
  set len := delivered deliver total (crlf ++ chunkedBody chunks ++ rest).length 2 with hlen
  have hle : len ≤ 2 := delivered_le ..
  have hpos : 0 < len := delivered_pos _ _ _ Nat.two_pos
  have hlead : crlf.drop len = [] ∨ crlf.drop len = [10] := by
    obtain h | h : len = 1 ∨ len = 2 := by omega
    · right
      rw [h]
      rfl
    · left
      rw [h]
      rfl
  refine startChunk_line hlead hend hsized hs ?_
  rwa [List.append_assoc, List.drop_append_of_le_length (by simpa [crlf] using hle),
    ← List.append_assoc] at hat'

/-- A pass of the loop that leaves the chunk open, or runs up to its end. -/
lemma inChunk_advance {data : List UInt8} (hunread : cs.unreadLen = data.length)
    (hat : At deliver total cs.stream (data ++ (crlf ++ chunkedBody chunks ++ rest))) (count : ℕ)
    (hcount : count ≤ data.length) :
    ∃ len s, len ≤ count ∧ (0 < count → 0 < len) ∧
      streamRead cs.stream count = (data.take len, s) ∧
      At deliver total s (data.drop len ++ (crlf ++ chunkedBody chunks ++ rest)) ∧
      (data.take len).length = len ∧ cs.unreadLen - (len : ℤ) = (data.drop len).length := by
  obtain ⟨s, hread, hat'⟩ := hat.read count (by rw [List.length_append]; omega)
  set len := delivered deliver total (data ++ (crlf ++ chunkedBody chunks ++ rest)).length count
    with hlen
  have hle : len ≤ count := delivered_le ..
  rw [List.take_append_of_le_length (by omega)] at hread
  rw [List.drop_append_of_le_length (by omega)] at hat'
  refine ⟨len, s, hle, fun h => delivered_pos _ _ _ h, hread, hat',
    List.length_take_of_le (by omega), ?_⟩
  rw [hunread, List.length_drop]
  omega

lemma take_resume {data back : List UInt8} {len n : ℕ} (h1 : len ≤ data.length) (h2 : len ≤ n) :
    data.take len ++ (data.drop len ++ back).take (n - len) = (data ++ back).take n := by
  have hlen : (data.take len).length = len := List.length_take_of_le h1
  calc data.take len ++ (data.drop len ++ back).take (n - len)
      = (data.take len ++ (data.drop len ++ back)).take ((data.take len).length + (n - len)) :=
        (List.take_length_add_append ..).symm
    _ = (data ++ back).take n := by
        rw [hlen, Nat.add_sub_cancel' h2, ← List.append_assoc, List.take_append_drop]

lemma drop_resume {data back : List UInt8} {len n : ℕ} (h1 : len ≤ data.length) (h2 : len ≤ n) :
    (data.drop len ++ back).drop (n - len) = (data ++ back).drop n := by
  have hsplit : data.drop len ++ back = (data ++ back).drop len := by
    rw [List.drop_append_of_le_length h1]
  rw [hsplit, List.drop_drop]
  congr 1
  omega

/-- The loop fills the buffer from what remains, over chunk ends and short deliveries. -/
theorem readLoop_spec (fuel : ℕ) (h : Remaining deliver total rest cs left)
    (hopen : cs.endOfChunks = true ∨ cs.chunkStarted = true)
    (hfuel : cs.stream.pending.length < fuel) (yetToRead : ℕ) (out : List UInt8) :
    ∃ cs', readLoop fuel cs yetToRead out = .ok (out ++ left.take yetToRead, cs') ∧
      Remaining deliver total rest cs' (left.drop yetToRead) ∧
      (cs'.endOfChunks = true ∨ cs'.chunkStarted = true) ∧
      (left.length < yetToRead → cs'.endOfChunks = true) := by
  induction fuel generalizing cs left yetToRead out with
  | zero => omega
  | succ fuel ih =>
    cases h with
    | fresh chunks hend hstart hsized hat => simp [hend, hstart] at hopen
    | ended hend hat =>
      refine ⟨cs, ?_, ?_, .inl hend, fun _ => hend⟩
      · simp [readLoop, hend]
      · simpa using Remaining.ended hend hat
    | inChunk data chunks hend hstart hunread hsized hat =>
      by_cases hyet : yetToRead = 0
      · subst hyet
        refine ⟨cs, ?_, ?_, .inr hstart, by simp⟩
        · simp [readLoop]
        · simpa using Remaining.inChunk data chunks hend hstart hunread hsized hat
      · have hstay : ¬ (cs.endOfChunks = true ∨ yetToRead = 0) := by
          simp [hend, hyet]
        have hnonneg : ¬ cs.unreadLen < 0 := by omega
        -- `len` bytes of this chunk were taken and `cs1` is where the next pass starts
        have hpass : ∀ (len : ℕ) (cs1 : ChunkedStream), len ≤ data.length → len ≤ yetToRead →
            Remaining deliver total rest cs1 (data.drop len ++ chunks.flatten) →
            (cs1.endOfChunks = true ∨ cs1.chunkStarted = true) →
            cs1.stream.pending.length < cs.stream.pending.length →
            readLoop (fuel + 1) cs yetToRead out =
              readLoop fuel cs1 (yetToRead - len) (out ++ data.take len) →
            ∃ cs', readLoop (fuel + 1) cs yetToRead out =
                .ok (out ++ (data ++ chunks.flatten).take yetToRead, cs') ∧
              Remaining deliver total rest cs' ((data ++ chunks.flatten).drop yetToRead) ∧
              (cs'.endOfChunks = true ∨ cs'.chunkStarted = true) ∧
              ((data ++ chunks.flatten).length < yetToRead → cs'.endOfChunks = true) := by
          intro len cs1 hdata hlen hrem hopen1 hless hstep
          obtain ⟨cs', hrun, hrem', hopen', hall⟩ :=
            ih hrem hopen1 (by omega) (yetToRead - len) (out ++ data.take len)
          refine ⟨cs', ?_, ?_, hopen', ?_⟩
          · rw [hstep, hrun, List.append_assoc, take_resume hdata hlen]
          · rwa [drop_resume hdata hlen] at hrem'
          · intro hmore
            refine hall ?_
            simp only [List.length_append, List.length_drop] at hmore ⊢
            omega
        by_cases hshort : cs.unreadLen < yetToRead
        · -- the rest of the chunk is not enough
          have htoNat : cs.unreadLen.toNat = data.length := by omega
          obtain ⟨len, s, hle, hpos, hread, hat', htake, hun⟩ :=
            inChunk_advance hunread hat data.length le_rfl
          by_cases hdone : len = data.length
          · -- the chunk is used up and the next one is started
            have hzero : cs.unreadLen - (len : ℤ) ≤ 0 := by omega
            have hat1 : At deliver total s (crlf ++ chunkedBody chunks ++ rest) := by
              simpa [hdone] using hat'
            set mid : ChunkedStream :=
              { cs with stream := s, unreadLen := cs.unreadLen - (len : ℤ) } with hmid
            obtain ⟨cs1, hstart1, hrem1, hopen1, hless1⟩ :
                ∃ cs1, httpChunkedStreamStartChunk mid = .ok cs1 ∧
                  Started deliver total rest cs1 chunks :=
              startChunk_next hend hstart hsized hat1
            refine hpass len cs1 hle (by omega) (by simpa [hdone] using hrem1) hopen1 ?_ ?_
            · rw [hat.left]
              simp only [List.length_append] at hless1 ⊢
              omega
            · simp only [readLoop, if_neg hstay, if_neg hnonneg, if_pos hshort, htoNat, hread,
                htake, if_pos hzero, ← hmid, hstart1]
          · have hmore : ¬ cs.unreadLen - (len : ℤ) ≤ 0 := by omega
            refine hpass len { cs with stream := s, unreadLen := cs.unreadLen - (len : ℤ) }
              hle (by omega) (Remaining.inChunk _ chunks hend hstart hun hsized hat')
              (.inr hstart) ?_ ?_
            · rw [hat.left]
              simp only [hat'.left, List.length_append, List.length_drop]
              omega
            · simp only [readLoop, if_neg hstay, if_neg hnonneg, if_pos hshort, htoNat, hread,
                htake, if_neg hmore]
        · -- the buffer ends inside this chunk
          obtain ⟨len, s, hle, hpos, hread, hat', htake, hun⟩ :=
            inChunk_advance hunread hat yetToRead (by omega)
          refine hpass len { cs with stream := s, unreadLen := cs.unreadLen - (len : ℤ) }
            (by omega) hle (Remaining.inChunk _ chunks hend hstart hun hsized hat')
            (.inr hstart) ?_ ?_
          · rw [hat.left]
            simp only [hat'.left, List.length_append, List.length_drop]
            omega
          · simp only [readLoop, if_neg hstay, if_neg hnonneg, if_neg hshort, hread, htake]

/-- One read takes the next `count` bytes of what remains. -/
theorem httpChunkedStreamRead_spec (h : Remaining deliver total rest cs left) {count : ℕ}
    (hcount : count < 2 ^ 31) :
    ∃ cs', httpChunkedStreamRead cs count = .ok (left.take count, cs') ∧
      Remaining deliver total rest cs' (left.drop count) ∧
      (left.length < count → cs'.endOfChunks = true) := by
  have hrange : ¬ 2 ^ 31 ≤ count := Nat.not_le.mpr hcount
  cases h with
  | fresh chunks hend hstart hsized hat =>
    obtain ⟨cs1, hstart1, hrem1, hopen1, -⟩ := startChunk_fresh hend hstart hsized hat
    obtain ⟨cs', hrun, hrem', -, hall⟩ :=
      readLoop_spec (cs1.stream.pending.length + 2) hrem1 hopen1 (by omega) count []
    refine ⟨cs', ?_, hrem', hall⟩
    simp only [httpChunkedStreamRead, hend, hstart, Bool.false_eq_true, if_false, hstart1,
      if_neg hrange, hrun, List.nil_append]
  | inChunk data chunks hend hstart hunread hsized hat =>
    obtain ⟨cs', hrun, hrem', -, hall⟩ := readLoop_spec (cs.stream.pending.length + 2)
      (Remaining.inChunk data chunks hend hstart hunread hsized hat) (.inr hstart) (by omega)
      count []
    refine ⟨cs', ?_, hrem', hall⟩
    simp only [httpChunkedStreamRead, hend, hstart, Bool.false_eq_true, if_false, if_true,
      if_neg hrange, hrun, List.nil_append]
  | ended hend hat =>
    refine ⟨cs, ?_, ?_, fun _ => hend⟩
    · simp [httpChunkedStreamRead, hend]
    · simpa using Remaining.ended hend hat

/-- Reads of any sizes return consecutive pieces of what remained at first. -/
theorem readMany_spec {sizes : ℕ → ℕ} (hsizes : ∀ i, 0 < sizes i ∧ sizes i < 2 ^ 31)
    (h : Remaining deliver total rest cs left) (m : ℕ) :
    ∃ cs', readMany sizes m cs = .ok (left.take (∑ i ∈ Finset.range m, sizes i), cs') ∧
      Remaining deliver total rest cs' (left.drop (∑ i ∈ Finset.range m, sizes i)) ∧
      (left.length < ∑ i ∈ Finset.range m, sizes i → cs'.endOfChunks = true) := by
  induction m with
  | zero => exact ⟨cs, by simp [readMany], by simpa using h, by simp⟩
  | succ m ih =>
    obtain ⟨cs1, hrun, hrem, -⟩ := ih
    set taken := ∑ i ∈ Finset.range m, sizes i with htaken
    obtain ⟨cs2, hread, hrem', hall⟩ := httpChunkedStreamRead_spec hrem (hsizes m).2
    refine ⟨cs2, ?_, ?_, ?_⟩
    · simp only [readMany, hrun, hread, Finset.sum_range_succ, ← htaken]
      rw [List.take_add]
    · rwa [Finset.sum_range_succ, ← htaken, ← List.drop_drop]
    · intro hmore
      refine hall ?_
      rw [Finset.sum_range_succ, ← htaken] at hmore
      rw [List.length_drop]
      have := (hsizes m).1
      omega

end Reader

section Writer

/-- The writer prints every size that fits into `tmp_buf`. -/
lemma httpChunkedStreamWrite_eq (cs : ChunkedStream) {w : List UInt8} (hw : w.length < 2 ^ 28) :
    (httpChunkedStreamWrite cs w).map Prod.snd =
      .ok { cs with stream := { cs.stream with written := cs.stream.written ++ chunk w } } := by
  have hmod : w.length % 2 ^ 32 = w.length := Nat.mod_eq_of_lt (by omega)
  have hfit : ¬ 10 < (formatHex w.length ++ crlf).length + 1 := by
    have := length_formatHex_le hw
    simp only [List.length_append, crlf, List.length_cons, List.length_nil]
    omega
  simp only [httpChunkedStreamWrite, hmod, if_neg hfit, streamWrite, chunk, List.append_assoc]
  rfl

/-- A size of eight digits and its line end do not fit into `tmp_buf`. -/
lemma httpChunkedStreamWrite_overflow (cs : ChunkedStream) {w : List UInt8}
    (hlarge : 2 ^ 28 ≤ w.length) (hw : w.length < 2 ^ 32) :
    (httpChunkedStreamWrite cs w).map Prod.snd = .error .tmpBuf := by
  have hfit : 10 < (formatHex w.length ++ crlf).length + 1 := by
    have := lt_length_formatHex hlarge
    simp only [List.length_append, crlf, List.length_cons, List.length_nil]
    omega
  simp only [httpChunkedStreamWrite, Nat.mod_eq_of_lt hw, if_pos hfit]
  rfl

/-- The step of `writeAll`. -/
def writeStep (cs : ChunkedStream) (w : List UInt8) : Except Fault ChunkedStream :=
  (httpChunkedStreamWrite cs w).map Prod.snd

lemma foldlM_writeStep (writes : List (List UInt8)) (h : ∀ w ∈ writes, w.length < 2 ^ 28)
    (cs : ChunkedStream) :
    writes.foldlM writeStep cs = .ok { cs with
      stream := { cs.stream with written := cs.stream.written ++ writes.flatMap chunk } } := by
  induction writes generalizing cs with
  | nil => simp [pure, Except.pure]
  | cons w writes ih =>
    rw [List.foldlM_cons, writeStep, httpChunkedStreamWrite_eq cs (h w (by simp))]
    change writes.foldlM writeStep _ = _
    rw [ih (fun v hv => h v (by simp [hv]))]
    simp

lemma foldlM_writeStep_error (writes : List (List UInt8)) (h : ∀ w ∈ writes, w.length < 2 ^ 32)
    (hlarge : ∃ w ∈ writes, 2 ^ 28 ≤ w.length) (cs : ChunkedStream) :
    writes.foldlM writeStep cs = .error .tmpBuf := by
  induction writes generalizing cs with
  | nil => simp at hlarge
  | cons w writes ih =>
    rw [List.foldlM_cons, writeStep]
    by_cases hw : w.length < 2 ^ 28
    · rw [httpChunkedStreamWrite_eq cs hw]
      change writes.foldlM writeStep _ = _
      refine ih (fun v hv => h v (by simp [hv])) ?_ _
      obtain ⟨v, hv, hvl⟩ := hlarge
      obtain rfl | hv := List.mem_cons.mp hv
      · omega
      · exact ⟨v, hv, hvl⟩
    · rw [httpChunkedStreamWrite_overflow cs (Nat.not_lt.mp hw) (h w (by simp))]
      rfl

theorem writeAll_eq {writes : List (List UInt8)} (h : ∀ w ∈ writes, w.length < 2 ^ 28) :
    writeAll writes = .ok (chunkedBody writes) := by
  have hfold := foldlM_writeStep writes h (httpChunkedStreamCreate ⟨[], [], 0, fun _ => 0⟩)
  unfold writeStep at hfold
  simp only [writeAll, hfold]
  rfl

theorem writeAll_overflow {writes : List (List UInt8)} (h : ∀ w ∈ writes, w.length < 2 ^ 32)
    (hlarge : ∃ w ∈ writes, 2 ^ 28 ≤ w.length) : writeAll writes = .error .tmpBuf := by
  have hfold := foldlM_writeStep_error writes h hlarge
    (httpChunkedStreamCreate ⟨[], [], 0, fun _ => 0⟩)
  unfold writeStep at hfold
  simp only [writeAll, hfold]

end Writer

/-- Whatever was written is read back piece by piece and in full; once more was
asked for than was written, the end of chunks is reported and the underlying
stream stands right behind the last chunk, at `rest`. -/
def RoundTrip (writes : List (List UInt8)) (rest : List UInt8) (deliver sizes : ℕ → ℕ) : Prop :=
  ∃ wire, writeAll writes = .ok wire ∧
    ∀ m, ∃ cs, readMany sizes m (httpChunkedStreamCreate ⟨[], wire ++ rest, 0, deliver⟩) =
        .ok (writes.flatten.take (∑ i ∈ Finset.range m, sizes i), cs) ∧
      (writes.flatten.length < ∑ i ∈ Finset.range m, sizes i →
        cs.endOfChunks = true ∧ cs.stream.pending = rest)

/-- No write is empty or has a size of more than seven digits, and the CRLF
behind the last chunk is delivered in one piece. -/
def Intact (writes : List (List UInt8)) (deliver : ℕ → ℕ) : Prop :=
  (∀ w ∈ writes, w ≠ [] ∧ w.length < 2 ^ 28) ∧ 2 ≤ deliver ((chunkedBody writes).length - 2)

lemma remaining_create {chunks : List (List UInt8)} (h : ∀ c ∈ chunks, Sized c)
    (rest : List UInt8) (deliver : ℕ → ℕ) :
    Remaining deliver (chunkedBody chunks ++ rest).length rest
      (httpChunkedStreamCreate ⟨[], chunkedBody chunks ++ rest, 0, deliver⟩) chunks.flatten :=
  Remaining.fresh chunks rfl rfl h ⟨rfl, rfl, by simp [httpChunkedStreamCreate]⟩

/-- Once the chunks are over, what is pending is what the last read left. -/
lemma Remaining.pending_of_ended {deliver : ℕ → ℕ} {total : ℕ} {rest left : List UInt8}
    {cs : ChunkedStream} (h : Remaining deliver total rest cs left)
    (hend : cs.endOfChunks = true) :
    cs.stream.pending = leftover deliver total rest ++ rest := by
  cases h with
  | fresh chunks hend' | inChunk data chunks hend' => simp [hend] at hend'
  | ended hend' hat => exact hat.left

lemma length_le_sum {sizes : ℕ → ℕ} (h : ∀ i, 0 < sizes i) (m : ℕ) :
    m ≤ ∑ i ∈ Finset.range m, sizes i := by
  calc m = ∑ _i ∈ Finset.range m, 1 := by simp
    _ ≤ ∑ i ∈ Finset.range m, sizes i := Finset.sum_le_sum fun i _ => h i

/-- The leftover of the last CRLF is empty exactly when it was delivered whole. -/
lemma leftover_eq_nil {deliver : ℕ → ℕ} {body rest : List UInt8} (hbody : 2 ≤ body.length) :
    leftover deliver (body ++ rest).length rest = [] ↔ 2 ≤ deliver (body.length - 2) := by
  have hpos : (body ++ rest).length - (rest.length + 2) = body.length - 2 := by
    rw [List.length_append]
    omega
  unfold leftover delivered
  rw [hpos, List.drop_eq_nil_iff]
  simp only [crlf, List.length_cons, List.length_nil]
  omega

/-- A run over `chunks` that ended stopped at the leftover of the last CRLF. -/
lemma pending_of_run {chunks : List (List UInt8)} (hsized : ∀ c ∈ chunks, Sized c)
    (rest : List UInt8) (deliver : ℕ → ℕ) {sizes : ℕ → ℕ}
    (hsizes : ∀ i, 0 < sizes i ∧ sizes i < 2 ^ 31) {m : ℕ} {out : List UInt8} {cs : ChunkedStream}
    (hrun : readMany sizes m
      (httpChunkedStreamCreate ⟨[], chunkedBody chunks ++ rest, 0, deliver⟩) = .ok (out, cs))
    (hend : cs.endOfChunks = true) :
    cs.stream.pending = leftover deliver (chunkedBody chunks ++ rest).length rest ++ rest := by
  obtain ⟨cs', hrun', hrem, -⟩ := readMany_spec hsizes (remaining_create hsized rest deliver) m
  obtain ⟨-, rfl⟩ := Prod.mk.inj (Except.ok.inj (hrun.symm.trans hrun'))
  exact hrem.pending_of_ended hend

lemma chunkedBody_empty (front back : List (List UInt8)) :
    chunkedBody (front ++ [] :: back) = chunkedBody front ++ chunkedBody back := by
  have hchunk : chunk [] = [48, 13, 10, 13, 10] := by decide
  simp [chunkedBody, hchunk]

lemma two_le_length_chunkedBody (chunks : List (List UInt8)) :
    2 ≤ (chunkedBody chunks).length := by
  simp [chunkedBody]

/-- What is written comes back exactly when no write is empty or too long for
`tmp_buf` and the last CRLF is delivered whole. -/
theorem chunked_round_trip_iff (writes : List (List UInt8)) (rest : List UInt8)
    (deliver sizes : ℕ → ℕ) (hsizes : ∀ i, 0 < sizes i ∧ sizes i < 2 ^ 31)
    (hlen : ∀ w ∈ writes, w.length < 2 ^ 32) :
    RoundTrip writes rest deliver sizes ↔ Intact writes deliver := by
  constructor
  · rintro ⟨wire, hwire, hread⟩
    have hsmall : ∀ w ∈ writes, w.length < 2 ^ 28 := by
      intro w hw
      by_contra hlarge
      rw [writeAll_overflow hlen ⟨w, hw, Nat.not_lt.mp hlarge⟩] at hwire
      cases hwire
    rw [writeAll_eq hsmall] at hwire
    obtain rfl := Except.ok.inj hwire
    -- one read more than there are bytes reaches the end
    obtain ⟨cs, hrun, hfinal⟩ := hread (writes.flatten.length + 1)
    obtain ⟨hend, hpending⟩ :=
      hfinal (Nat.lt_of_succ_le (length_le_sum (fun i => (hsizes i).1) _))
    have hne : ([] : List UInt8) ∉ writes := by
      intro hempty
      obtain ⟨front, back, hsplit, hfront⟩ := List.eq_append_cons_of_mem hempty
      rw [hsplit, chunkedBody_empty, List.append_assoc] at hrun
      have hsized : ∀ c ∈ front, Sized c := fun c hc =>
        ⟨fun h => hfront (h ▸ hc), hsmall c (by simp [hsplit, hc])⟩
      have hstop := pending_of_run hsized (chunkedBody back ++ rest) deliver hsizes hrun hend
      have hcount := congrArg List.length (hpending.symm.trans hstop)
      have := two_le_length_chunkedBody back
      simp only [List.length_append] at hcount
      omega
    have hsized : ∀ w ∈ writes, Sized w := fun w hw => ⟨fun h => hne (h ▸ hw), hsmall w hw⟩
    refine ⟨hsized, ?_⟩
    have hstop := pending_of_run hsized rest deliver hsizes hrun hend
    rw [← leftover_eq_nil (two_le_length_chunkedBody writes)]
    exact List.append_left_eq_self.mp (hstop.symm.trans hpending)
  · rintro ⟨hsized, hwhole⟩
    refine ⟨_, writeAll_eq fun w hw => (hsized w hw).2, ?_⟩
    intro m
    obtain ⟨cs, hrun, hrem, hend⟩ := readMany_spec hsizes (remaining_create hsized rest deliver) m
    refine ⟨cs, hrun, fun hmore => ⟨hend hmore, ?_⟩⟩
    rw [hrem.pending_of_ended (hend hmore),
      (leftover_eq_nil (two_le_length_chunkedBody writes)).mpr hwhole, List.nil_append]

/-- Two chunks, reads of two bytes and an underlying stream that hands over at
most two bytes at a time. -/
theorem chunked_round_trip_abc :
    RoundTrip [[97], [98, 99]] [71] (fun _ => 2) (fun _ => 2) :=
  (chunked_round_trip_iff [[97], [98, 99]] [71] (fun _ => 2) (fun _ => 2)
    (fun _ => by norm_num) (by simp)).mpr ⟨by simp, le_rfl⟩

/-- After an empty write the reader stops before the bytes written next. -/
theorem empty_write_truncates : ¬ RoundTrip [[], [97]] [] (fun _ => 2) (fun _ => 1) := by
  rintro ⟨wire, hwire, hread⟩
  have hbytes : writeAll [[], [97]] =
      .ok [48, 13, 10, 13, 10, 49, 13, 10, 97, 13, 10, 48, 13, 10, 13, 10] := by rfl
  obtain rfl := Except.ok.inj (hbytes.symm.trans hwire)
  obtain ⟨cs, hrun, -⟩ := hread 1
  have hnothing : (readMany (fun _ => 1) 1 (httpChunkedStreamCreate ⟨[],
      [48, 13, 10, 13, 10, 49, 13, 10, 97, 13, 10, 48, 13, 10, 13, 10], 0, fun _ => 2⟩)).map
        Prod.fst = .ok [] := by rfl
  rw [List.append_nil] at hrun
  rw [hrun] at hnothing
  simp [Except.map] at hnothing

end Axis2C.HttpChunked
