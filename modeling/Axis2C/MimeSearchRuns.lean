import Axis2C.MimeMatches

/-!
# Searching the stream

What the searches report about the bytes that they have read.
-/
namespace Axis2C.Mime

open FirstOccurrence

variable {size : ℕ}

namespace Reader

/-- The recorded bytes of the buffers from one index up to another. -/
def bytes (r : Reader size) (start stop : ℕ) : List UInt8 :=
  (List.range' start (stop - start)).flatMap fun i => dataOf (r.bufArray i)

lemma bytes_succ (r : Reader size) {start stop : ℕ} (h : start ≤ stop) :
    r.bytes start (stop + 1) = r.bytes start stop ++ dataOf (r.bufArray stop) := by
  have hcount : stop + 1 - start = stop - start + 1 := by omega
  have hlast : start + (stop - start) = stop := by omega
  rw [bytes, hcount, List.range'_1_concat, List.flatMap_append, List.flatMap_singleton, hlast,
    bytes]

@[simp] lemma bytes_self (r : Reader size) (start : ℕ) : r.bytes start start = [] := by
  simp [bytes]

/-- Buffers from `stop` on do not matter to what lies in front of them. -/
lemma bytes_congr {r r' : Reader size} {start stop : ℕ}
    (h : ∀ i < stop, r'.bufArray i = r.bufArray i) : r'.bytes start stop = r.bytes start stop := by
  refine List.flatMap_congr fun i hi => ?_
  rw [List.mem_range'_1] at hi
  rw [h i (by omega)]

end Reader

/-- The returned pointer and the two match lengths say that the string begins at `pos` in the
bytes of the buffers from `start` on. -/
def Outcome.Designates (o : Outcome size) (s : SearchString) (start : ℕ) (found : ℤ)
    (pos : ℕ) : Prop :=
  found = o.info.matchLen1 ∧ 0 ≤ o.info.matchLen1 ∧
    ((o.info.matchLen2 = 0 ∧
        (pos : ℤ) = (o.reader.bytes start o.reader.bufNum).length + o.info.matchLen1) ∨
      (start < o.reader.bufNum ∧ 0 < o.info.matchLen2 ∧ o.info.matchLen2 < s.length ∧
        (pos : ℤ) = (o.reader.bytes start (o.reader.bufNum - 1)).length + o.info.matchLen1 ∧
        (pos : ℤ) + s.length =
          (o.reader.bytes start o.reader.bufNum).length + o.info.matchLen2))

/-- The string is not in the bytes of the buffers, or its first occurrence is reported. -/
def Outcome.Right (o : Outcome size) (s : SearchString) (start : ℕ) : Prop :=
  match o.found with
  | none => ¬ s.bytes <:+: o.reader.bytes start (o.reader.bufNum + 1)
  | some found => ∃ pos, FirstIndex s.bytes (o.reader.bytes start (o.reader.bufNum + 1)) pos ∧
      o.Designates s start found pos

/-- The buffers hold what the callback has delivered, up to the end of the stream unless something
was found. -/
structure Outcome.Reads (o : Outcome size) (r : Reader size) (start : ℕ) : Prop where
  delivered : ∃ read, r.chunks = read ++ o.reader.chunks ∧
    o.reader.bytes start (o.reader.bufNum + 1) =
      r.bytes start (r.bufNum + 1) ++ read.flatMap Chunk.bytes
  ended : o.found = none → o.reader.chunks = []

/-- The search never leaves the memory, and reports a match exactly when the string is in the
bytes that were read, and then its first occurrence. -/
def ReportsFirst (search : Option (Outcome size)) (s : SearchString) (r : Reader size) : Prop :=
  ∃ o, search = some o ∧ o.Reads r r.bufNum ∧ o.Right s r.bufNum

/-- The buffers that the rest of the stream goes to. -/
def filled (heap : ℕ → Block size) : List (Chunk size) → List (Option (Buffer size))
  | [] => []
  | chunk :: chunks => some (.fill (heap 0) chunk) :: filled (fun n => heap (n + 1)) chunks

/-- As long as the string is not among the bytes, there is room for another buffer, the last one
is clean, and it joins with the next one. -/
def Sound (s : SearchString) (maxBuffers start : ℕ) (pre : List UInt8)
    (buffers : List (Option (Buffer size))) : Prop :=
  ∀ before b after, buffers = before ++ b :: after →
    ¬ s.bytes <:+: pre ++ (before ++ [b]).flatMap dataOf →
      start + before.length + 1 < maxBuffers ∧ Clean s b ∧ ∀ b' ∈ after.head?, Joins s b b'

def Reader.buffers (r : Reader size) : List (Option (Buffer size)) :=
  r.current :: filled r.heap r.chunks

section Sound

variable {s : SearchString} {maxBuffers start : ℕ} {pre : List UInt8}

lemma sound_nil : Sound s maxBuffers start pre ([] : List (Option (Buffer size))) := by
  intro before b after h
  simp at h

lemma sound_cons {b : Option (Buffer size)} {rest : List (Option (Buffer size))} :
    Sound s maxBuffers start pre (b :: rest) ↔
      (¬ s.bytes <:+: pre ++ dataOf b →
        start + 1 < maxBuffers ∧ Clean s b ∧ ∀ b' ∈ rest.head?, Joins s b b') ∧
      Sound s maxBuffers (start + 1) (pre ++ dataOf b) rest := by
  constructor
  · intro h
    refine ⟨fun hno => ?_, fun before b₁ after heq hno => ?_⟩
    · simpa using h [] b rest rfl (by simpa using hno)
    · have hstep := h (b :: before) b₁ after (by rw [heq, List.cons_append])
      rw [List.length_cons, List.cons_append, List.flatMap_cons, ← List.append_assoc] at hstep
      have hcount : start + 1 + before.length + 1 = start + (before.length + 1) + 1 := by omega
      rw [hcount]
      exact hstep hno
  · rintro ⟨hhead, htail⟩ before b₁ after heq hno
    cases before with
    | nil =>
      obtain ⟨rfl, rfl⟩ := List.cons.inj heq
      simpa using hhead (by simpa using hno)
    | cons b₀ before =>
      obtain ⟨rfl, hrest⟩ := List.cons.inj heq
      rw [List.cons_append, List.flatMap_cons, ← List.append_assoc] at hno
      have hstep := htail before b₁ after hrest hno
      have hcount : start + (before.length + 1) + 1 = start + 1 + before.length + 1 := by omega
      rw [List.length_cons, hcount]
      exact hstep

/-- Once the string has been read, nothing more is asked. -/
lemma sound_of_infix (h : s.bytes <:+: pre) (buffers : List (Option (Buffer size))) :
    Sound s maxBuffers start pre buffers := by
  intro before b after _ hno
  exact absurd (h.trans (List.prefix_append _ _).isInfix) hno

end Sound

section Search

variable {s : SearchString} {maxBuffers start : ℕ} {pre : List UInt8} {r : Reader size}
  {info : SearchInfo size}

@[simp] lemma push_current (r : Reader size) (b : Buffer size) (chunks : List (Chunk size)) :
    (r.push b chunks).current = some b := by
  simp [Reader.push, Reader.current]

lemma push_bytes (b : Buffer size) (chunks : List (Chunk size)) (h : start ≤ r.bufNum) :
    (r.push b chunks).bytes start (r.push b chunks).bufNum =
      r.bytes start r.bufNum ++ dataOf r.current := by
  have hnum : (r.push b chunks).bufNum = r.bufNum + 1 := rfl
  rw [hnum, Reader.current, ← Reader.bytes_succ r h]
  refine Reader.bytes_congr fun i hi => ?_
  exact Function.update_of_ne (by omega) _ _

lemma push_bytes_succ (b : Buffer size) (chunks : List (Chunk size)) (h : start ≤ r.bufNum) :
    (r.push b chunks).bytes start (r.bufNum + 1 + 1) =
      r.bytes start r.bufNum ++ dataOf r.current ++ b.data := by
  rw [Reader.bytes_succ _ (by omega), ← push_bytes b chunks h]
  exact congrArg _ (congrArg dataOf (push_current r b chunks))

lemma clean_none : Clean s (none : Option (Buffer size)) := by
  intro off hoff
  have hpos := s.length_pos
  rw [dataOf_none, List.length_nil] at hoff
  omega

lemma searchString_parts (info : SearchInfo size) {b' : Buffer size} (h2 : info.buffer2 = some b')
    (hprimary : info.primarySearch = true ∨ info.buffer1 = none) :
    searchString info = info.searchParts.map info.reportParts := by
  have hfirst : (if info.primarySearch then some none else info.searchBuffer) = some none := by
    rcases hprimary with h | h
    · rw [if_pos h]
    · split
      · rfl
      · rw [searchBuffer_none_iff, h]
        exact clean_none
  rw [searchString, hfirst, Option.bind_some]
  simp only [h2]

lemma searchString_fault (hprimary : info.primarySearch = false) (h : info.searchBuffer = none) :
    searchString info = none := by
  rw [searchString, hprimary, if_neg Bool.false_ne_true, h, Option.bind_none]

lemma searchString_found (hprimary : info.primarySearch = false) {found : ℤ}
    (h : info.searchBuffer = some (some found)) :
    searchString info =
      some (some found, { info with primarySearch := true, matchLen1 := found }) := by
  rw [searchString, hprimary, if_neg Bool.false_ne_true, h, Option.bind_some]

lemma searchString_passed (hprimary : info.primarySearch = false)
    (h : info.searchBuffer = some none) (h2 : info.buffer2 = none) :
    searchString info = some (none, { info with primarySearch := true }) := by
  rw [searchString, hprimary, if_neg Bool.false_ne_true, h, Option.bind_some]
  simp only [h2]

/-- The step of both search loops: a search for the whole string in the current buffer, in which no
occurrence begins in front of it. -/
lemma searchWhole_right_iff {b : Buffer size} {next : SearchInfo size → Option (Outcome size)}
    {rest : List (Option (Buffer size))} (hs : info.searchStr = s) (hb : r.current = some b)
    (h1 : info.buffer1 = some b) (hprimary : info.primarySearch = false)
    (h2 : info.buffer2 = none) (hm : info.matchLen2 = 0) (hstart : start ≤ r.bufNum)
    (hpre : r.bytes start r.bufNum = pre)
    (hedge : ∀ x, s.bytes <+: (pre ++ b.data).drop x → pre.length ≤ x)
    (hnext : ¬ s.bytes <:+: pre ++ b.data →
      ((∃ o, next { info with primarySearch := true } = some o ∧ o.Right s start) ↔
        r.bufNum + 1 < maxBuffers ∧ (∀ b' ∈ rest.head?, Joins s (some b) b') ∧
          Sound s maxBuffers (r.bufNum + 1) (pre ++ b.data) rest)) :
    (∃ o, (searchString info).bind (foundOr r next) = some o ∧ o.Right s start) ↔
      Sound s maxBuffers r.bufNum pre (some b :: rest) := by
  have hbytes : r.bytes start (r.bufNum + 1) = pre ++ b.data := by
    rw [Reader.bytes_succ r hstart, hpre, ← Reader.current, hb, dataOf_some]
  rw [sound_cons, dataOf_some]
  by_cases hin : s.bytes <:+: pre ++ b.data
  · -- the string is in the bytes, so it begins in this buffer and is found there
    refine iff_of_true ?_ ⟨fun hno => absurd hin hno, sound_of_infix hin rest⟩
    obtain ⟨x, hx⟩ := infix_iff_firstIndex.mp hin
    obtain ⟨q, rfl⟩ := Nat.exists_eq_add_of_le (hedge x hx.1)
    have hq : FirstIndex s.bytes b.data q := by
      have hdrop : ∀ j, (pre ++ b.data).drop (pre.length + j) = b.data.drop j :=
        fun j => List.drop_length_add_append ..
      refine ⟨hdrop q ▸ hx.1, fun j hj hp => hx.2 (pre.length + j) (by omega) ?_⟩
      rw [hdrop]
      exact hp
    have hfound : info.searchBuffer = some (some (q : ℤ)) := by
      refine searchBuffer_first ?_
      rw [hs, h1, dataOf_some]
      exact hq
    rw [searchString_found hprimary hfound, Option.bind_some]
    refine ⟨_, rfl, pre.length + q, ?_, ?_⟩
    · simpa only [hbytes] using hx
    · refine ⟨rfl, Int.natCast_nonneg q, .inl ⟨hm, ?_⟩⟩
      simp [hpre]
  · have hclean : info.searchBuffer = some none ↔ Clean s (some b) := by
      rw [searchBuffer_none_iff, hs, h1]
    by_cases hc : Clean s (some b)
    · rw [searchString_passed hprimary (hclean.mpr hc) h2, Option.bind_some, foundOr, hnext hin]
      constructor
      · rintro ⟨hroom, hjoins, hsound⟩
        exact ⟨fun _ => ⟨hroom, hc, hjoins⟩, hsound⟩
      · rintro ⟨hhead, hsound⟩
        obtain ⟨hroom, -, hjoins⟩ := hhead hin
        exact ⟨hroom, hjoins, hsound⟩
    · -- a match that the recorded bytes do not hold
      refine iff_of_false ?_ fun h => hc (h.1 hin).2.1
      rintro ⟨o, ho, hright⟩
      have hstop : info.searchBuffer ≠ some none := fun h => hc (hclean.mp h)
      rcases hfound : info.searchBuffer with _ | _ | found
      · rw [searchString_fault hprimary hfound, Option.bind_none] at ho
        cases ho
      · exact hstop hfound
      · rw [searchString_found hprimary hfound, Option.bind_some, foundOr] at ho
        obtain rfl := Option.some.inj ho
        obtain ⟨pos, hpos, -⟩ := hright
        simp only [hbytes] at hpos
        exact hin (infix_iff_firstIndex.mpr ⟨pos, hpos⟩)

/-- A string that is not in what was read begins, with the next bytes added, behind `pre`. -/
lemma begins_behind {front back : List UInt8} {x : ℕ} (hshort : s.length ≤ front.length + 1)
    (hno : ¬ s.bytes <:+: pre ++ front) (hx : s.bytes <+: (pre ++ front ++ back).drop x) :
    pre.length ≤ x ∧ (pre ++ front).length < x + s.length := by
  have hover : (pre ++ front).length < x + s.length := by
    by_contra hle
    refine hno (infix_iff_drop.mpr ⟨x, (prefix_drop_append back ?_).mp hx⟩)
    rw [← SearchString.length]
    omega
  rw [List.length_append] at hover ⊢
  omega

lemma drop_between {front : List UInt8} (back : List UInt8) {q : ℕ} (hq : q ≤ front.length) :
    (pre ++ front ++ back).drop (pre.length + q) = front.drop q ++ back := by
  rw [List.append_assoc, List.drop_length_add_append, List.drop_append_of_le_length hq]

/-- The first place at which the next allocation completes a match is the first occurrence exactly
when the recorded bytes hold a match up to there. -/
lemma firstIndex_parts_iff {front : List UInt8} (back stale : List UInt8) {p : ℕ}
    (hshort : s.length ≤ front.length + 1) (hno : ¬ s.bytes <:+: pre ++ front)
    (hp : p < front.length)
    (hmin : ∀ q < p, front.length < q + s.length →
      ¬ s.bytes <+: front.drop q ++ (back ++ stale)) :
    FirstIndex s.bytes (pre ++ front ++ back) (pre.length + p) ↔
      ∃ q ≤ p, s.bytes <+: front.drop q ++ back := by
  have hlater : ∀ q < p, ¬ s.bytes <+: front.drop q ++ back := by
    intro q hq hprefix
    have hbegin : s.bytes <+: (pre ++ front ++ back).drop (pre.length + q) := by
      rw [drop_between back (by omega)]
      exact hprefix
    have hover := (begins_behind hshort hno hbegin).2
    rw [List.length_append] at hover
    refine hmin q hq (by omega) ( hprefix.trans ?_)
    rw [← List.append_assoc]
    exact List.prefix_append _ stale
  constructor
  · rintro ⟨hat, -⟩
    rw [drop_between back hp.le] at hat
    exact ⟨p, le_rfl, hat⟩
  · rintro ⟨q, hq, hprefix⟩
    obtain rfl : q = p := by
      by_contra hne
      exact hlater q (by omega) hprefix
    refine ⟨by rwa [drop_between back hp.le], fun j hj hbegin => ?_⟩
    obtain ⟨q', rfl⟩ := Nat.exists_eq_add_of_le (begins_behind hshort hno hbegin).1
    rw [drop_between back (by omega)] at hbegin
    exact hlater q' (by omega) hbegin

section Loop

variable {fuel : ℕ}

lemma searchLoop_full (h : ¬ r.bufNum + 1 < maxBuffers) :
    searchLoop maxBuffers fuel r info = none := by
  cases fuel with
  | zero => rfl
  | succ fuel => rw [searchLoop, Reader.addBuffer, if_neg h, Option.bind_none]

lemma searchLoop_ended (h : r.bufNum + 1 < maxBuffers) (hchunks : r.chunks = []) :
    searchLoop maxBuffers (fuel + 1) r info =
      some ⟨none, r.push (.empty (r.heap 0)) [], info⟩ := by
  rw [searchLoop, Reader.addBuffer, if_pos h, hchunks, Option.bind_some]

lemma searchLoop_next (h : r.bufNum + 1 < maxBuffers) {chunk : Chunk size}
    {chunks : List (Chunk size)} (hchunks : r.chunks = chunk :: chunks) {b : Buffer size}
    (hb : b = .fill (r.heap 0) chunk) :
    searchLoop maxBuffers (fuel + 1) r info =
      (searchString { info with buffer2 := some b }).bind
        (foundOr (r.push b chunks) fun info =>
          (searchString { info with
              buffer1 := some b, primarySearch := false, buffer2 := none }).bind
            (foundOr (r.push b chunks) (searchLoop maxBuffers fuel (r.push b chunks)))) := by
  rw [searchLoop, Reader.addBuffer, if_pos h, hchunks, Option.bind_some, hb]

end Loop

/-- A divided match is reported rightly exactly when the recorded bytes hold it. -/
lemma parts_right_iff {o : Outcome size} {b : Buffer size} {chunks : List (Chunk size)} {p : ℕ}
    (hfound : o.found = some (p : ℤ)) (hreader : o.reader = r.push b chunks)
    (h1 : o.info.matchLen1 = p)
    (h2 : o.info.matchLen2 = (p : ℤ) + s.length - (dataOf r.current).length)
    (hstart : start ≤ r.bufNum) (hpre : r.bytes start r.bufNum = pre)
    (hshort : s.length ≤ (dataOf r.current).length + 1)
    (hno : ¬ s.bytes <:+: pre ++ dataOf r.current)
    (hp : p < (dataOf r.current).length) (hover : (dataOf r.current).length < p + s.length)
    (hat : s.bytes <+: (dataOf r.current).drop p ++ b.block)
    (hmin : ∀ q < p, (dataOf r.current).length < q + s.length →
      ¬ s.bytes <+: (dataOf r.current).drop q ++ b.block) :
    o.Right s start ↔ Joins s r.current (some b) := by
  have hfront : (r.push b chunks).bytes start r.bufNum = pre := by
    rw [← hpre]
    exact Reader.bytes_congr fun i hi => Function.update_of_ne (by omega) _ _
  have hbefore : (r.push b chunks).bytes start (r.bufNum + 1) = pre ++ dataOf r.current := by
    rw [← hpre]
    exact push_bytes b chunks hstart
  have hbytes : (r.push b chunks).bytes start (r.bufNum + 1 + 1) =
      pre ++ dataOf r.current ++ b.data := by
    rw [push_bytes_succ b chunks hstart, hpre]
  have hparts := firstIndex_parts_iff b.data b.stale hshort hno hp hmin
  have hjoins : Joins s r.current (some b) ↔
      ∃ q ≤ p, s.bytes <+: (dataOf r.current).drop q ++ b.data := by
    constructor
    · exact fun h => h.2 p hp hover hat
    · rintro ⟨q, hq, hprefix⟩
      refine ⟨hshort, fun p' hp' hover' hat' => ⟨q, hq.trans ?_, hprefix⟩⟩
      by_contra hlt
      exact hmin p' (by omega) hover' hat'
  rw [hjoins, ← hparts]
  have hnum : (r.push b chunks).bufNum = r.bufNum + 1 := rfl
  have hpred : r.bufNum + 1 - 1 = r.bufNum := rfl
  simp only [Outcome.Right, hfound, Outcome.Designates, hreader, h1, h2, hnum, hpred, hbytes,
    hbefore, hfront]
  constructor
  · rintro ⟨pos, hpos, -, -, ⟨hzero, -⟩ | ⟨-, -, -, hindex, -⟩⟩
    · omega
    · obtain rfl : pos = pre.length + p := by omega
      exact hpos
  · intro hfirst
    refine ⟨_, hfirst, trivial, Int.natCast_nonneg p, .inr ⟨by omega, by omega, by omega, ?_, ?_⟩⟩
    · push_cast
      rfl
    · push_cast [List.length_append]
      omega

lemma searchLoop_right_iff (chunks : List (Chunk size)) (hchunks : r.chunks = chunks)
    (hs : info.searchStr = s) (h1 : info.buffer1 = r.current)
    (hprimary : info.primarySearch = true ∨ info.buffer1 = none) (hm : info.matchLen2 = 0)
    (hstart : start ≤ r.bufNum) (hpre : r.bytes start r.bufNum = pre)
    (hno : ¬ s.bytes <:+: pre ++ dataOf r.current) :
    (∃ o, searchLoop maxBuffers (chunks.length + 1) r info = some o ∧ o.Right s start) ↔
      r.bufNum + 1 < maxBuffers ∧
        (∀ b' ∈ (filled r.heap chunks).head?, Joins s r.current b') ∧
        Sound s maxBuffers (r.bufNum + 1) (pre ++ dataOf r.current) (filled r.heap chunks) := by
  induction chunks generalizing r info pre with
  | nil =>
    by_cases hroom : r.bufNum + 1 < maxBuffers
    · rw [searchLoop_ended hroom hchunks]
      refine iff_of_true ⟨_, rfl, ?_⟩ ⟨hroom, by simp [filled], sound_nil⟩
      have hlast : (r.push (.empty (r.heap 0)) []).bytes start (r.bufNum + 1 + 1) =
          pre ++ dataOf r.current := by
        rw [push_bytes_succ _ _ hstart, hpre]
        exact List.append_nil _
      have hnum : (r.push (.empty (r.heap 0)) []).bufNum = r.bufNum + 1 := rfl
      simpa only [Outcome.Right, hnum, hlast] using hno
    · rw [searchLoop_full hroom]
      exact iff_of_false (fun ⟨_, h, _⟩ => nomatch h) fun h => hroom h.1
  | cons chunk chunks ih =>
    by_cases hroom : r.bufNum + 1 < maxBuffers
    swap
    · rw [searchLoop_full hroom]
      exact iff_of_false (fun ⟨_, h, _⟩ => nomatch h) fun h => hroom h.1
    obtain ⟨b, hb⟩ : ∃ b, b = Buffer.fill (r.heap 0) chunk := ⟨_, rfl⟩
    have hfilled : filled r.heap (chunk :: chunks) =
        some b :: filled (r.push b chunks).heap chunks := by
      rw [hb]
      rfl
    have hhead : (∀ b' ∈ (filled r.heap (chunk :: chunks)).head?, Joins s r.current b') ↔
        Joins s r.current (some b) := by
      simp [hfilled]
    rw [hhead, hfilled, List.length_cons, searchLoop_next hroom hchunks hb,
      searchString_parts { info with buffer2 := some b } rfl hprimary]
    by_cases hshort : s.length ≤ (dataOf r.current).length + 1
    swap
    · have hfault : ({ info with buffer2 := some b } : SearchInfo size).searchParts = none := by
        refine searchParts_short ?_
        simp only [h1, hs]
        omega
      rw [hfault]
      exact iff_of_false (fun ⟨_, h, _⟩ => nomatch h) fun h => hshort h.2.1.1
    have hbefore : (r.push b chunks).bytes start (r.push b chunks).bufNum =
        pre ++ dataOf r.current := by
      rw [← hpre]
      exact push_bytes b chunks hstart
    obtain ⟨hnone, hall⟩ | ⟨p, hp, hover, hat, hsome, hmin⟩ :=
      searchParts_cases { info with buffer2 := some b } rfl (by
        simp only [h1, hs]
        exact hshort)
    · -- no divided match, and the search goes on with the whole second buffer
      simp only [h1, hs] at hall
      have hjoins : Joins s r.current (some b) :=
        ⟨hshort, fun p hp hover hat => absurd hat (hall p hp hover)⟩
      have hedge : ∀ x, s.bytes <+: (pre ++ dataOf r.current ++ b.data).drop x →
          (pre ++ dataOf r.current).length ≤ x := by
        intro x hx
        obtain ⟨hpast, hover⟩ := begins_behind hshort hno hx
        obtain ⟨p, rfl⟩ := Nat.exists_eq_add_of_le hpast
        rw [List.length_append] at hover ⊢
        by_contra hlt
        rw [drop_between b.data (by omega)] at hx
        refine hall p (by omega) (by omega) (hx.trans ?_)
        rw [Buffer.block, ← List.append_assoc]
        exact List.prefix_append _ b.stale
      rw [hnone, Option.map_some, Option.bind_some, SearchInfo.reportParts, foundOr]
      have hsound : Sound s maxBuffers (r.bufNum + 1) (pre ++ dataOf r.current)
          (some b :: filled (r.push b chunks).heap chunks) ↔
            r.bufNum + 1 < maxBuffers ∧ Joins s r.current (some b) ∧
              Sound s maxBuffers (r.bufNum + 1) (pre ++ dataOf r.current)
                (some b :: filled (r.push b chunks).heap chunks) :=
        ⟨fun h => ⟨hroom, hjoins, h⟩, fun h => h.2.2⟩
      rw [← hsound]
      refine searchWhole_right_iff hs (push_current ..) rfl rfl rfl hm (Nat.le_succ_of_le hstart)
        hbefore hedge fun hno' => ?_
      have hrest := @ih (pre ++ dataOf r.current) (r.push b chunks)
        { info with buffer1 := some b, buffer2 := none, primarySearch := true } rfl hs
        (push_current ..).symm (.inl rfl) hm (Nat.le_succ_of_le hstart) hbefore
      rw [push_current, dataOf_some] at hrest
      exact hrest hno'
    · -- the first candidate at which the allocation completes a match
      simp only [h1, hs] at hp hover hat hmin
      rw [hsome, Option.map_some, Option.bind_some, SearchInfo.reportParts, foundOr]
      have hin : Joins s r.current (some b) →
          s.bytes <:+: pre ++ dataOf r.current ++ b.data := by
        intro hjoins
        obtain ⟨q, hq, hprefix⟩ := hjoins.2 p hp hover hat
        refine infix_iff_drop.mpr ⟨pre.length + q, ?_⟩
        rw [drop_between b.data (by omega)]
        exact hprefix
      simp only [Option.some.injEq, exists_eq_left']
      rw [parts_right_iff rfl rfl rfl (by simp only [SearchInfo.len1, h1, hs]) hstart hpre hshort
        hno hp hover hat hmin]
      constructor
      · intro hjoins
        refine ⟨hroom, hjoins, sound_cons.mpr ⟨fun h => absurd (hin hjoins) h, ?_⟩⟩
        exact sound_of_infix (hin hjoins) _
      · exact fun h => h.2.1

/-- A search reports rightly exactly when the buffers that it goes through are sound. -/
lemma searchFrom_right_iff (hs : info.searchStr = s) (h1 : info.buffer1 = none)
    (hprimary : info.primarySearch = false) (h2 : info.buffer2 = none) (hm : info.matchLen2 = 0) :
    (∃ o, searchFrom maxBuffers r info = some o ∧ o.Right s r.bufNum) ↔
      Sound s maxBuffers r.bufNum [] r.buffers := by
  rw [searchFrom, Reader.buffers]
  cases hcurrent : r.current with
  | none =>
    have hno : ¬ s.bytes <:+: [] ++ dataOf r.current := by
      rw [hcurrent]
      simpa using s.nonempty
    have hloop := @searchLoop_right_iff size s maxBuffers r.bufNum [] r info r.chunks rfl hs
      (h1.trans hcurrent.symm) (.inr h1) hm le_rfl (Reader.bytes_self r _) hno
    rw [hcurrent] at hno hloop
    rw [sound_cons]
    refine hloop.trans ⟨?_, ?_⟩
    · rintro ⟨hroom, hjoins, hsound⟩
      exact ⟨fun _ => ⟨hroom, clean_none, hjoins⟩, hsound⟩
    · rintro ⟨hhead, hsound⟩
      exact ⟨(hhead hno).1, (hhead hno).2.2, hsound⟩
  | some b =>
    refine searchWhole_right_iff hs hcurrent rfl hprimary h2 hm le_rfl (Reader.bytes_self r _)
      (fun x _ => Nat.zero_le x) fun hno => ?_
    have hrest := @searchLoop_right_iff size s maxBuffers r.bufNum [] r
      { info with buffer1 := some b, primarySearch := true } r.chunks rfl hs hcurrent.symm
      (.inl rfl) hm le_rfl (Reader.bytes_self r _)
    rw [hcurrent] at hrest
    exact hrest hno

end Search

section Reads

variable {maxBuffers start : ℕ} {r : Reader size} {info : SearchInfo size} {o : Outcome size}

/-- The search has ended with a match in the buffers so far, or goes on. -/
lemma foundOr_cases {search : Option (Option ℤ × SearchInfo size)}
    {next : SearchInfo size → Option (Outcome size)} (h : search.bind (foundOr r next) = some o) :
    (o.found ≠ none ∧ o.reader = r) ∨ ∃ info, next info = some o := by
  obtain ⟨⟨_ | found, info⟩, -, ho⟩ := Option.bind_eq_some_iff.mp h
  · exact .inr ⟨info, ho⟩
  · rw [foundOr, Option.some.injEq] at ho
    rw [← ho]
    exact .inl ⟨by simp, rfl⟩

lemma reads_self (hfound : o.found ≠ none) (hreader : o.reader = r) : o.Reads r start :=
  ⟨⟨[], by simp [hreader]⟩, fun h => absurd h hfound⟩

/-- The next buffer holds the next bytes of the stream. -/
lemma reads_of_push {b : Buffer size} {chunk : Chunk size} {chunks : List (Chunk size)}
    (hchunks : r.chunks = chunk :: chunks) (hb : b.data = chunk.bytes) (hstart : start ≤ r.bufNum)
    (h : o.Reads (r.push b chunks) start) : o.Reads r start := by
  obtain ⟨read, hread, hbytes⟩ := h.delivered
  refine ⟨⟨chunk :: read, ?_, ?_⟩, h.ended⟩
  · rw [hchunks, List.cons_append]
    exact congrArg _ hread
  · have hnum : (r.push b chunks).bufNum = r.bufNum + 1 := rfl
    rw [hbytes, hnum, push_bytes_succ b chunks hstart, hb, Reader.bytes_succ r hstart,
      List.flatMap_cons, List.append_assoc, Reader.current]

lemma searchLoop_reads {fuel : ℕ} (hstart : start ≤ r.bufNum)
    (h : searchLoop maxBuffers fuel r info = some o) : o.Reads r start := by
  induction fuel generalizing r info with
  | zero => cases h
  | succ fuel ih =>
    by_cases hroom : r.bufNum + 1 < maxBuffers
    swap
    · rw [searchLoop_full hroom] at h
      cases h
    cases hchunks : r.chunks with
    | nil =>
      rw [searchLoop_ended hroom hchunks, Option.some.injEq] at h
      subst h
      refine ⟨⟨[], by rw [hchunks]; rfl, ?_⟩, fun _ => rfl⟩
      rw [Reader.bytes_succ r hstart]
      exact push_bytes_succ _ _ hstart
    | cons chunk chunks =>
      rw [searchLoop_next hroom hchunks rfl] at h
      refine reads_of_push (b := .fill (r.heap 0) chunk) hchunks rfl hstart ?_
      obtain ⟨hfound, hreader⟩ | ⟨info', h⟩ := foundOr_cases h
      · exact reads_self hfound hreader
      · obtain ⟨hfound, hreader⟩ | ⟨info'', h⟩ := foundOr_cases h
        · exact reads_self hfound hreader
        · exact ih (Nat.le_succ_of_le hstart) h

lemma searchFrom_reads (h : searchFrom maxBuffers r info = some o) : o.Reads r r.bufNum := by
  rw [searchFrom] at h
  cases hcurrent : r.current with
  | none =>
    rw [hcurrent] at h
    exact searchLoop_reads le_rfl h
  | some b =>
    rw [hcurrent] at h
    obtain ⟨hfound, hreader⟩ | ⟨info', h⟩ := foundOr_cases h
    · exact reads_self hfound hreader
    · exact searchLoop_reads le_rfl h

lemma reportsFirst_iff {s : SearchString} (hs : info.searchStr = s) (h1 : info.buffer1 = none)
    (hprimary : info.primarySearch = false) (h2 : info.buffer2 = none)
    (hm : info.matchLen2 = 0) :
    ReportsFirst (searchFrom maxBuffers r info) s r ↔ Sound s maxBuffers r.bufNum [] r.buffers := by
  rw [← searchFrom_right_iff hs h1 hprimary h2 hm, ReportsFirst]
  constructor
  · rintro ⟨o, ho, -, hright⟩
    exact ⟨o, ho, hright⟩
  · rintro ⟨o, ho, hright⟩
    exact ⟨o, ho, searchFrom_reads ho, hright⟩

end Reads

/-- Both searches report rightly exactly when the buffers that they go through are sound for what
they look for. -/
theorem searches_reportFirst_iff (maxBuffers : ℕ) (r : Reader size) :
    (ReportsFirst (searchForCrlf maxBuffers r) .crlf r ↔
      Sound .crlf maxBuffers r.bufNum [] r.buffers) ∧
    ∀ (mimeBoundary : SearchString) (info : SearchInfo size),
      ReportsFirst (searchForSoap maxBuffers mimeBoundary r info) mimeBoundary r ↔
        Sound mimeBoundary maxBuffers r.bufNum [] r.buffers :=
  ⟨reportsFirst_iff rfl rfl rfl rfl rfl, fun _ _ => reportsFirst_iff rfl rfl rfl rfl rfl⟩

lemma length_zeros_behind {front : List UInt8} {n total : ℕ} (h : total = front.length + n) :
    front.length + (List.replicate n (0 : UInt8)).length = total := by
  rw [List.length_replicate, h]

/-- `"\rab\r\n"` was read into memory that held `"\r\n"` behind it. -/
def leftover : Buffer 524288 where
  data := [13, 97, 98, 13, 10]
  stale := [13, 10] ++ List.replicate 524282 0
  total := by
    rw [List.length_append, ← Nat.add_assoc, ← List.length_append]
    exact length_zeros_behind (by decide)
  fits := by decide

def leftoverReader : Reader 524288 where
  bufArray := fun _ => some leftover
  bufNum := 0
  chunks := []
  heap := fun _ => List.Vector.replicate 524289 0

/-- The match that is reported lies behind the recorded length. -/
theorem searches_not_reportFirst :
    ¬ ∀ (size maxBuffers : ℕ) (r : Reader size),
      ReportsFirst (searchForCrlf maxBuffers r) .crlf r ∧
        ∀ (mimeBoundary : SearchString) (info : SearchInfo size),
          ReportsFirst (searchForSoap maxBuffers mimeBoundary r info) mimeBoundary r := by
  intro hall
  obtain ⟨o, ho, -, hright⟩ := (hall 524288 1000 leftoverReader).1
  have hfound : (searchForCrlf 1000 leftoverReader).map Outcome.found = some (some 3) := rfl
  have hreader : (searchForCrlf 1000 leftoverReader).map Outcome.reader = some leftoverReader := rfl
  rw [ho, Option.map_some, Option.some.injEq] at hfound hreader
  rw [Outcome.Right, hfound, hreader] at hright
  obtain ⟨pos, hpos, -⟩ := hright
  have hno : ¬ SearchString.crlf.bytes <:+: leftoverReader.bytes 0 1 := by decide
  exact hno (infix_iff_firstIndex.mpr ⟨pos, hpos⟩)

end Axis2C.Mime
