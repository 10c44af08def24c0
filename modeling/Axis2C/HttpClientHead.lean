import Axis2C.HttpHeaderGroups

/-!
# The head of a response in the client

`axis2_http_client_recieve_header` with the status lines of `http_status_line.c`. The head is
read byte by byte; behind the last byte of the stream every read answers 0 or -1. A
store behind the end of one of the two line buffers is a fault. Signed overflow in a number
wraps around, and memory allocation succeeds.
-/
namespace Axis2C.HttpClient
open FirstOccurrence HttpRead
open HttpHeaders hiding Text

section Lines

/-- The stream of the client, with the reads behind its last byte counted. -/
structure DataStream where
  pending : Text
  ended : ℕ
  failing : ℕ → Bool

inductive Read where
  | byte (c : Char)
  | shutdown
  | timedOut
  deriving DecidableEq, Repr

def DataStream.endRead (s : DataStream) : Read :=
  if s.failing s.ended then .timedOut else .shutdown

/-- `axutil_stream_read` with a count of 1. -/
def streamRead (s : DataStream) : Read × DataStream :=
  match s.pending with
  | c :: pending => (.byte c, { s with pending })
  | [] => (s.endRead, { s with ended := s.ended + 1 })

inductive Fault where
  | overflow
  /-- The loop has more passes than the given number. -/
  | unfinished
  deriving DecidableEq, Repr

/-- `strcat` of a text of one byte; NUL is the empty text. -/
def strcat (str : Text) (c : Char) : Text :=
  if c = '\x00' then str else str ++ [c]

/-- The loop over one line, which is there twice, with the last read and the buffer of 512
bytes. -/
def readLine : ℕ → DataStream → Text → Except Fault (Read × Text × DataStream)
  | 0, _, _ => .error .unfinished
  | fuel + 1, s, str =>
    match streamRead s with
    | (.byte c, s) =>
      let str := strcat str c
      if 512 ≤ str.length then .error .overflow
      else if crlf <:+: str then .ok (.byte c, str, s)
      else readLine fuel s str
    | (read, s) => .ok (read, str, s)

end Lines

section StatusLines

/-- `axis2_http_status_line_t`. -/
structure StatusLine where
  line : Text
  httpVersion : Text
  statusCode : Text
  reasonPhrase : Text
  deriving DecidableEq, Repr

/-- `axis2_http_status_line_create`. -/
def statusLineCreate (str : Text) : Option StatusLine :=
  (search crlf str).bind fun tmp =>
    let tmpStatusLine := upTo str tmp
    (search [' '] tmpStatusLine).bind fun tmp =>
      let statusCode := tmp.tail
      (search [' '] statusCode).map fun last =>
        ⟨str, upTo tmpStatusLine tmp, upTo statusCode last, last.tail⟩

/-- `axutil_atoi`. -/
def atoi (s : Text) : ℤ :=
  Int.bmod (Nat.ofDigitChars 10 (s.takeWhile Char.isDigit) 0) (2 ^ 32)

/-- `axis2_http_status_line_get_status_code`. -/
def StatusLine.code (statusLine : StatusLine) : ℤ := atoi statusLine.statusCode

/-- `%3d` of `sprintf`. -/
def format3d (n : ℤ) : Text :=
  let digits := Nat.toDigits 10 n.natAbs
  let text := if n < 0 then '-' :: digits else digits
  List.replicate (3 - text.length) ' ' ++ text

end StatusLines

section Head

/-- `axis2_http_simple_response_t`, as far as the client sets it. -/
structure Response where
  statusLine : Option StatusLine := none
  headerGroup : HeaderGroup := none
  stream : Option DataStream := none

/-- `axis2_http_simple_response_set_status_line`. -/
def Response.setStatusLine (response : Response) (httpVer : Text) (statusCode : ℤ)
    (phrase : Text) : Response :=
  if statusCode = 0 then response
  else
    { response with
      statusLine := statusLineCreate
        (httpVer ++ ' ' :: format3d statusCode ++ ' ' :: phrase ++ crlf) }

/-- `axis2_http_simple_response_get_content_length`. -/
def contentLength (group : HeaderGroup) : ℤ :=
  match getFirstHeader group contentLengthName with
  | some header => atoi header.value
  | none => -1

structure Client where
  sockfd : Option ℕ
  dataStream : Option DataStream
  requestSent : Bool
  response : Option Response

/-- Where the loop over the status lines ends. -/
inductive StatusEnd where
  | returned (value : ℤ) (s : DataStream)
  | final (statusLine : StatusLine) (s : DataStream)

/-- The loop over the status lines. A line that is none counts as one with the code 0. -/
def statusLoop : ℕ → DataStream → Except Fault StatusEnd
  | 0, _ => .error .unfinished
  | fuel + 1, s =>
    match readLine (s.pending.length + 1) s [] with
    | .error fault => .error fault
    | .ok (.timedOut, _, s) => .ok (.returned (-1) s)
    | .ok (.shutdown, _, s) => .ok (.returned 0 s)
    | .ok (.byte _, strStatusLine, s) =>
      match statusLineCreate strStatusLine with
      | none => statusLoop fuel s
      | some statusLine =>
        if statusLine.code < 200 then statusLoop fuel s
        else .ok (.final statusLine s)

/-- `axis2_http_simple_response_set_header` for what a header line was parsed to. -/
def setParsed (group : HeaderGroup) (strHeader : Text) : HeaderGroup :=
  match httpHeaderCreateByStr strHeader with
  | some tmpHeader => responseSetHeader group tmpHeader
  | none => group

/-- The loop over the header lines. It ends at the blank line only. -/
def headerLoop : ℕ → DataStream → Text → HeaderGroup →
    Except Fault (HeaderGroup × DataStream)
  | 0, _, _, _ => .error .unfinished
  | fuel + 1, s, strHeader, group =>
    match readLine (s.pending.length + 1) s strHeader with
    | .error fault => .error fault
    | .ok (.byte _, strHeader, s) =>
      if strHeader = crlf then .ok (group, s)
      else headerLoop fuel s [] (setParsed group strHeader)
    | .ok (_, strHeader, s) => headerLoop fuel s strHeader group

/-- What the client has and returns behind a final status line and its headers. -/
def Client.answered (client : Client) (statusLine : StatusLine) (headerGroup : HeaderGroup)
    (s : DataStream) : ℤ × Client :=
  let response : Response := {}
  let response := response.setStatusLine statusLine.httpVersion statusLine.code
    statusLine.reasonPhrase
  let response := { response with headerGroup, stream := some s }
  let value :=
    if containsHeader headerGroup contentTypeName = false ∧ statusLine.code ≠ 202 ∧
        0 < contentLength headerGroup then -1
    else statusLine.code
  (value, { client with dataStream := some s, response := some response })

/-- `axis2_http_client_recieve_header`. -/
def recieveHeader (fuel : ℕ) (client : Client) : Except Fault (ℤ × Client) :=
  match client.sockfd, client.dataStream, client.requestSent with
  | some _, some s, true =>
    match statusLoop fuel s with
    | .error fault => .error fault
    | .ok (.returned value s) => .ok (value, { client with dataStream := some s })
    | .ok (.final statusLine s) =>
      match headerLoop fuel s [] none with
      | .error fault => .error fault
      | .ok (headerGroup, s) => .ok (client.answered statusLine headerGroup s)
  | _, _, _ => .ok (-1, client)

end Head

section Ends

/-- The line that begins with `line` and goes on in `pending`, and what is behind its CRLF. -/
def lineOf : Text → Text → Text × Option Text
  | line, [] => (line, none)
  | line, c :: pending =>
    let line := strcat line c
    if crlf <:+: line then (line, some pending) else lineOf line pending

/-- The line that `pending` begins with. -/
def firstLine (pending : Text) : Text × Option Text := lineOf [] pending

/-- The line ends the loop over the status lines. -/
def IsFinal (line : Text) : Prop :=
  ∃ statusLine, statusLineCreate line = some statusLine ∧ 200 ≤ statusLine.code

/-- Lines that fit the buffer, up to a blank line. -/
inductive HeadersEnd : Text → Prop
  | blank {pending rest : Text} (hline : firstLine pending = (crlf, some rest)) :
      HeadersEnd pending
  | header {pending line rest : Text} (hline : firstLine pending = (line, some rest))
      (hfits : line.length ≤ 511) (hrest : HeadersEnd rest) : HeadersEnd pending

/-- Lines that fit the buffer, up to the end of the stream or to a final status line with
headers that end. -/
inductive HeadEnds : Text → Prop
  | ended {pending line : Text} (hline : firstLine pending = (line, none))
      (hfits : line.length ≤ 511) : HeadEnds pending
  | skipped {pending line rest : Text} (hline : firstLine pending = (line, some rest))
      (hfits : line.length ≤ 511) (hskip : ¬ IsFinal line) (hrest : HeadEnds rest) :
      HeadEnds pending
  | final {pending line rest : Text} (hline : firstLine pending = (line, some rest))
      (hfits : line.length ≤ 511) (hfinal : IsFinal line) (hheaders : HeadersEnd rest) :
      HeadEnds pending

/-- The client behind its request, with a stream to read the response from. -/
def awaiting (sockfd : ℕ) (s : DataStream) (response : Option Response) : Client :=
  ⟨some sockfd, some s, true, response⟩

/-- The call returns, and no text in a line buffer is longer than 511 characters. -/
def Returns (client : Client) : Prop :=
  ∃ bound result, ∀ fuel, bound ≤ fuel → recieveHeader fuel client = .ok result

section Reading

variable {s : DataStream} {str line rest : Text} {fuel : ℕ}

lemma length_le_strcat (str : Text) (c : Char) : str.length ≤ (strcat str c).length := by
  unfold strcat
  split_ifs <;> simp

lemma length_le_lineOf (str pending : Text) : str.length ≤ (lineOf str pending).1.length := by
  induction pending generalizing str with
  | nil => exact le_rfl
  | cons c pending ih =>
    rw [lineOf]
    split_ifs with h
    · exact length_le_strcat str c
    · exact (length_le_strcat str c).trans (ih _)

/-- A line that ends with a CRLF is read whole when it fits the buffer. -/
lemma readLine_line (hfuel : s.pending.length < fuel) (h : lineOf str s.pending = (line, some rest))
    (hfits : line.length ≤ 511) :
    ∃ c, readLine fuel s str = .ok (.byte c, line, { s with pending := rest }) := by
  obtain ⟨pending, ended, failing⟩ := s
  induction pending generalizing str fuel with
  | nil => simp [lineOf] at h
  | cons c pending ih =>
    obtain ⟨fuel, rfl⟩ : ∃ n, fuel = n + 1 := ⟨fuel - 1, by simp at hfuel; omega⟩
    have hlong := length_le_lineOf (strcat str c) pending
    rw [lineOf] at h
    rw [readLine]
    simp only [streamRead]
    split_ifs at h with hcrlf
    · obtain ⟨rfl, hrest⟩ := Prod.mk.inj h
      obtain rfl := Option.some.inj hrest
      rw [if_neg (by omega), if_pos hcrlf]
      exact ⟨c, rfl⟩
    · rw [h] at hlong
      dsimp only at hlong
      rw [if_neg (by omega), if_neg hcrlf]
      exact ih (Nat.lt_of_succ_lt_succ hfuel) h

lemma readLine_ended (hfuel : s.pending.length < fuel) (h : lineOf str s.pending = (line, none))
    (hfits : line.length ≤ 511) :
    readLine fuel s str =
      .ok (s.endRead, line, { s with pending := [], ended := s.ended + 1 }) := by
  obtain ⟨pending, ended, failing⟩ := s
  induction pending generalizing str fuel with
  | nil =>
    obtain ⟨fuel, rfl⟩ : ∃ n, fuel = n + 1 := ⟨fuel - 1, by simp at hfuel; omega⟩
    obtain ⟨rfl, -⟩ := Prod.mk.inj h
    rw [readLine]
    cases hend : failing ended <;> simp [streamRead, DataStream.endRead, hend]
  | cons c pending ih =>
    obtain ⟨fuel, rfl⟩ : ∃ n, fuel = n + 1 := ⟨fuel - 1, by simp at hfuel; omega⟩
    have hlong := length_le_lineOf (strcat str c) pending
    rw [lineOf] at h
    rw [readLine]
    simp only [streamRead]
    split_ifs at h with hcrlf
    · simp at h
    · rw [h] at hlong
      dsimp only at hlong
      rw [if_neg (by omega), if_neg hcrlf]
      exact ih (Nat.lt_of_succ_lt_succ hfuel) h

/-- A longer line is stored behind the end of the buffer. -/
lemma readLine_overflow (hfuel : s.pending.length < fuel) (hstr : str.length ≤ 511)
    (hlong : 511 < (lineOf str s.pending).1.length) : readLine fuel s str = .error .overflow := by
  obtain ⟨pending, ended, failing⟩ := s
  induction pending generalizing str fuel with
  | nil =>
    simp only [lineOf] at hlong
    omega
  | cons c pending ih =>
    obtain ⟨fuel, rfl⟩ : ∃ n, fuel = n + 1 := ⟨fuel - 1, by simp at hfuel; omega⟩
    rw [lineOf] at hlong
    rw [readLine]
    simp only [streamRead]
    by_cases hover : 512 ≤ (strcat str c).length
    · rw [if_pos hover]
    · rw [if_neg hover]
      split_ifs at hlong ⊢ with hcrlf
      · dsimp only at hlong
        omega
      · exact ih (by omega) (Nat.lt_of_succ_lt_succ hfuel) hlong

end Reading

section Loops

variable {s : DataStream} {line rest : Text} {fuel : ℕ} {group : HeaderGroup}

/-- A first line behind which the loop over the status lines goes on. -/
lemma statusLoop_skip (h : firstLine s.pending = (line, some rest)) (hfits : line.length ≤ 511)
    (hskip : ¬ IsFinal line) :
    statusLoop (fuel + 1) s = statusLoop fuel { s with pending := rest } := by
  obtain ⟨c, hread⟩ := readLine_line (Nat.lt_succ_self _) h hfits
  rw [statusLoop, hread]
  dsimp only
  cases hparsed : statusLineCreate line with
  | none => rfl
  | some statusLine =>
    have hcode : statusLine.code < 200 := by
      by_contra hcode
      exact hskip ⟨statusLine, hparsed, not_lt.mp hcode⟩
    simp only [if_pos hcode]

lemma statusLoop_final (h : firstLine s.pending = (line, some rest)) (hfits : line.length ≤ 511)
    {statusLine : StatusLine} (hparsed : statusLineCreate line = some statusLine)
    (hcode : 200 ≤ statusLine.code) :
    statusLoop (fuel + 1) s = .ok (.final statusLine { s with pending := rest }) := by
  obtain ⟨c, hread⟩ := readLine_line (Nat.lt_succ_self _) h hfits
  rw [statusLoop, hread]
  dsimp only
  simp only [hparsed, if_neg (not_lt.mpr hcode)]

lemma statusLoop_ended (h : firstLine s.pending = (line, none)) (hfits : line.length ≤ 511) :
    ∃ value, ∀ fuel, statusLoop (fuel + 1) s =
      .ok (.returned value { s with pending := [], ended := s.ended + 1 }) := by
  cases hend : s.failing s.ended with
  | true =>
    refine ⟨-1, fun fuel => ?_⟩
    rw [statusLoop, readLine_ended (Nat.lt_succ_self _) h hfits, DataStream.endRead, hend]
    rfl
  | false =>
    refine ⟨0, fun fuel => ?_⟩
    rw [statusLoop, readLine_ended (Nat.lt_succ_self _) h hfits, DataStream.endRead, hend]
    rfl

lemma headerLoop_blank (h : firstLine s.pending = (crlf, some rest)) :
    headerLoop (fuel + 1) s [] group = .ok (group, { s with pending := rest }) := by
  obtain ⟨c, hread⟩ := readLine_line (Nat.lt_succ_self _) h (by decide)
  rw [headerLoop, hread]
  dsimp only
  rw [if_pos rfl]

lemma headerLoop_line (h : firstLine s.pending = (line, some rest)) (hfits : line.length ≤ 511)
    (hline : line ≠ crlf) :
    headerLoop (fuel + 1) s [] group =
      headerLoop fuel { s with pending := rest } [] (setParsed group line) := by
  obtain ⟨c, hread⟩ := readLine_line (Nat.lt_succ_self _) h hfits
  rw [headerLoop, hread]
  dsimp only
  rw [if_neg hline]

/-- Behind the end of the stream the loop over the headers never ends. -/
lemma headerLoop_stuck (h : s.pending = []) (str : Text) (result : HeaderGroup × DataStream) :
    headerLoop fuel s str group ≠ .ok result := by
  induction fuel generalizing s with
  | zero => simp [headerLoop]
  | succ fuel ih =>
    have hread : readLine (s.pending.length + 1) s str =
        .ok (s.endRead, str, { s with ended := s.ended + 1 }) := by
      rw [readLine, streamRead, h]
      cases hend : s.failing s.ended <;> simp [DataStream.endRead, hend]
    rw [headerLoop, hread, DataStream.endRead]
    cases s.failing s.ended with
    | true | false => exact ih h

lemma headerLoop_of_ends {pending : Text} (h : HeadersEnd pending) (s : DataStream)
    (hs : s.pending = pending) (group : HeaderGroup) :
    ∃ bound result, ∀ fuel, bound ≤ fuel → headerLoop fuel s [] group = .ok result := by
  induction h generalizing s group with
  | @blank pending rest hline =>
    subst hs
    refine ⟨1, (group, { s with pending := rest }), fun fuel hfuel => ?_⟩
    obtain ⟨fuel, rfl⟩ := Nat.exists_eq_add_of_le' hfuel
    exact headerLoop_blank hline
  | @header pending line rest hline hfits _ ih =>
    subst hs
    by_cases hblank : line = crlf
    · rw [hblank] at hline
      refine ⟨1, (group, { s with pending := rest }), fun fuel hfuel => ?_⟩
      obtain ⟨fuel, rfl⟩ := Nat.exists_eq_add_of_le' hfuel
      exact headerLoop_blank hline
    · obtain ⟨bound, result, hrun⟩ := ih { s with pending := rest } rfl (setParsed group line)
      refine ⟨bound + 1, result, fun fuel hfuel => ?_⟩
      obtain ⟨fuel, rfl⟩ : ∃ n, fuel = n + 1 := ⟨fuel - 1, by omega⟩
      rw [headerLoop_line hline hfits hblank]
      exact hrun fuel (by omega)

lemma ends_of_headerLoop {result : HeaderGroup × DataStream}
    (h : headerLoop fuel s [] group = .ok result) : HeadersEnd s.pending := by
  induction fuel generalizing s group with
  | zero => simp [headerLoop] at h
  | succ fuel ih =>
    obtain ⟨line, behind, hline⟩ : ∃ line behind, firstLine s.pending = (line, behind) :=
      ⟨_, _, rfl⟩
    by_cases hfits : line.length ≤ 511
    · cases behind with
      | none =>
        rw [headerLoop, readLine_ended (Nat.lt_succ_self _) hline hfits,
          DataStream.endRead] at h
        cases hend : s.failing s.ended <;> rw [hend] at h <;>
          exact absurd h (headerLoop_stuck rfl line result)
      | some rest =>
        by_cases hblank : line = crlf
        · exact .blank (hblank ▸ hline)
        · rw [headerLoop_line hline hfits hblank] at h
          exact .header hline hfits (ih h)
    · have hlong : 511 < (lineOf [] s.pending).1.length := by
        change 511 < (firstLine s.pending).1.length
        rw [hline]
        exact not_le.mp hfits
      rw [headerLoop, readLine_overflow (Nat.lt_succ_self _) (Nat.zero_le _) hlong] at h
      cases h

lemma statusLoop_of_ends {pending : Text} (h : HeadEnds pending) (s : DataStream)
    (hs : s.pending = pending) :
    ∃ bound result, (∀ fuel, bound ≤ fuel → statusLoop fuel s = .ok result) ∧
      ∀ statusLine next, result = .final statusLine next → HeadersEnd next.pending := by
  induction h generalizing s with
  | @ended pending line hline hfits =>
    subst hs
    obtain ⟨value, hvalue⟩ := statusLoop_ended hline hfits
    refine ⟨1, .returned value { s with pending := [], ended := s.ended + 1 }, ?_, by simp⟩
    intro fuel hfuel
    obtain ⟨fuel, rfl⟩ := Nat.exists_eq_add_of_le' hfuel
    exact hvalue fuel
  | @skipped pending line rest hline hfits hskip _ ih =>
    subst hs
    obtain ⟨bound, result, hrun, hnext⟩ := ih { s with pending := rest } rfl
    refine ⟨bound + 1, result, fun fuel hfuel => ?_, hnext⟩
    obtain ⟨fuel, rfl⟩ : ∃ n, fuel = n + 1 := ⟨fuel - 1, by omega⟩
    rw [statusLoop_skip hline hfits hskip]
    exact hrun fuel (by omega)
  | @final pending line rest hline hfits hfinal hheaders =>
    subst hs
    obtain ⟨statusLine, hparsed, hcode⟩ := hfinal
    refine ⟨1, .final statusLine { s with pending := rest }, fun fuel hfuel => ?_, ?_⟩
    · obtain ⟨fuel, rfl⟩ := Nat.exists_eq_add_of_le' hfuel
      exact statusLoop_final hline hfits hparsed hcode
    · intro _ next hnext
      rw [← (StatusEnd.final.inj hnext).2]
      exact hheaders

lemma ends_of_statusLoop {result : StatusEnd} (h : statusLoop fuel s = .ok result)
    (hnext : ∀ statusLine next, result = .final statusLine next → HeadersEnd next.pending) :
    HeadEnds s.pending := by
  induction fuel generalizing s with
  | zero => simp [statusLoop] at h
  | succ fuel ih =>
    obtain ⟨line, behind, hline⟩ : ∃ line behind, firstLine s.pending = (line, behind) :=
      ⟨_, _, rfl⟩
    by_cases hfits : line.length ≤ 511
    · cases behind with
      | none => exact .ended hline hfits
      | some rest =>
        by_cases hfinal : IsFinal line
        · obtain ⟨statusLine, hparsed, hcode⟩ := hfinal
          rw [statusLoop_final hline hfits hparsed hcode] at h
          have hheaders := hnext statusLine _ (Except.ok.inj h).symm
          exact .final hline hfits ⟨statusLine, hparsed, hcode⟩ hheaders
        · rw [statusLoop_skip hline hfits hfinal] at h
          exact .skipped hline hfits hfinal (ih h)
    · have hlong : 511 < (lineOf [] s.pending).1.length := by
        change 511 < (firstLine s.pending).1.length
        rw [hline]
        exact not_le.mp hfits
      rw [statusLoop, readLine_overflow (Nat.lt_succ_self _) (Nat.zero_le _) hlong] at h
      cases h

variable {sockfd : ℕ} {response : Option Response} {next : DataStream}

lemma recieveHeader_returned {value : ℤ} (h : statusLoop fuel s = .ok (.returned value next)) :
    recieveHeader fuel (awaiting sockfd s response) =
      .ok (value, { awaiting sockfd s response with dataStream := some next }) := by
  simp only [recieveHeader, awaiting, h]

lemma recieveHeader_final {statusLine : StatusLine} {result : HeaderGroup × DataStream}
    (h : statusLoop fuel s = .ok (.final statusLine next))
    (hheaders : headerLoop fuel next [] none = .ok result) :
    recieveHeader fuel (awaiting sockfd s response) =
      .ok ((awaiting sockfd s response).answered statusLine result.1 result.2) := by
  simp only [recieveHeader, awaiting, h, hheaders]

lemma loops_of_recieveHeader {result : ℤ × Client}
    (h : recieveHeader fuel (awaiting sockfd s response) = .ok result) :
    ∃ ending, statusLoop fuel s = .ok ending ∧
      ∀ statusLine next, ending = .final statusLine next →
        ∃ headers, headerLoop fuel next [] none = .ok headers := by
  simp only [recieveHeader, awaiting] at h
  cases hstatus : statusLoop fuel s with
  | error fault => simp [hstatus] at h
  | ok ending =>
    refine ⟨ending, rfl, ?_⟩
    rintro statusLine next rfl
    rw [hstatus] at h
    dsimp only at h
    cases hheaders : headerLoop fuel next [] none with
    | error fault => simp [hheaders] at h
    | ok headers => exact ⟨headers, rfl⟩

end Loops

/-- The call returns within its buffers exactly when every line that it reads fits them and the
stream does not end behind a final status line and in front of the blank line. -/
theorem returns_iff (sockfd : ℕ) (s : DataStream) (response : Option Response) :
    Returns (awaiting sockfd s response) ↔ HeadEnds s.pending := by
  constructor
  · rintro ⟨bound, result, hrun⟩
    obtain ⟨ending, hstatus, hheaders⟩ := loops_of_recieveHeader (hrun bound le_rfl)
    refine ends_of_statusLoop hstatus ?_
    intro statusLine next hfinal
    obtain ⟨headers, hheaders⟩ := hheaders statusLine next hfinal
    exact ends_of_headerLoop hheaders
  · intro h
    obtain ⟨bound, ending, hstatus, hnext⟩ := statusLoop_of_ends h s rfl
    cases ending with
    | returned value next =>
      exact ⟨bound, _, fun fuel hfuel => recieveHeader_returned (hstatus fuel hfuel)⟩
    | final statusLine next =>
      obtain ⟨more, headers, hheaders⟩ :=
        headerLoop_of_ends (hnext statusLine next rfl) next rfl none
      refine ⟨max bound more,
        (awaiting sockfd s response).answered statusLine headers.1 headers.2,
        fun fuel hfuel => ?_⟩
      exact recieveHeader_final (hstatus fuel ((le_max_left _ _).trans hfuel))
        (hheaders fuel ((le_max_right _ _).trans hfuel))

def closedBehindStatus : DataStream where
  pending := "HTTP/1.1 200 OK\r\n".toList
  ended := 0
  failing := fun _ => false

theorem closedBehindStatus_not_returns :
    ¬ Returns (awaiting 0 closedBehindStatus none) := by
  rintro ⟨bound, result, hrun⟩
  obtain ⟨ending, hstatus, hheaders⟩ := loops_of_recieveHeader (hrun (bound + 1) (by omega))
  have hline : firstLine closedBehindStatus.pending =
      (closedBehindStatus.pending, some []) := by decide
  have hparsed : statusLineCreate closedBehindStatus.pending =
      some ⟨closedBehindStatus.pending, "HTTP/1.1".toList, "200".toList, "OK".toList⟩ := by decide
  rw [statusLoop_final hline (by decide) hparsed (by decide)] at hstatus
  obtain ⟨headers, hheaders⟩ := hheaders _ _ (Except.ok.inj hstatus).symm
  exact headerLoop_stuck rfl [] headers hheaders

end Ends

end Axis2C.HttpClient
