import Axis2C.FirstOccurrence
import Mathlib.Data.List.TakeWhile

/-!
# Reading a request in the simple server

`axis2_simple_http_svr_conn_read_request` looks for the end of each line in a window of
what has arrived, and reads what it saw or up to the end of the line. The bytes that are
there at each look, and those that come before the read after it, are a schedule. The
text holds no NUL, so that a buffer and the string in it are the same.
-/
namespace Axis2C.HttpRead
open FirstOccurrence

abbrev Text := List Char

/-- `AXIS2_HTTP_CRLF`. -/
def crlf : Text := ['\r', '\n']

section Model

/-- The bytes there at a look into the socket, and those that come before the next read. -/
structure Arrival where
  seen : ℕ
  more : ℕ
  deriving DecidableEq, Repr

abbrev Schedule := ℕ → Arrival

/-- The bytes that `axutil_stream_peek_socket` gives, at most 2047. It waits for the first
one. -/
def Schedule.seen (s : Schedule) (i : ℕ) : ℕ := min (max 1 (s i).seen) 2047

/-- The bytes that can be read after that look. -/
def Schedule.taken (s : Schedule) (i : ℕ) : ℕ := min (s.seen i + (s i).more) 2047

/-- Where the loop over one line ends. -/
structure LineEnd where
  endOfLine : Bool
  look : ℕ
  rest : Text
  strLine : Text
  deriving DecidableEq, Repr

/-- The loop that reads one line. It is there twice. At the end of the stream there is
nothing to look at. -/
def readLine (s : Schedule) : ℕ → ℕ → Text → Text → Option LineEnd
  | 0, _, _, _ => none
  | fuel + 1, look, rest, strLine =>
    if rest = [] then some ⟨false, look, rest, strLine⟩
    else
      let tmpBuf := rest.take (s.seen look)
      match search crlf tmpBuf with
      | some tail =>
        let count := tmpBuf.length - tail.length + 2
        some ⟨true, look + 1, rest.drop count, strLine ++ rest.take count⟩
      | none =>
        readLine s fuel (look + 1) (rest.drop (s.taken look))
          (strLine ++ rest.take (s.taken look))

structure RequestLine where
  method : Text
  uri : Text
  httpVersion : Text
  deriving DecidableEq, Repr

/-- `strrchr`. -/
def searchLast (c : Char) : Text → Option Text
  | [] => none
  | a :: s =>
    match searchLast c s with
    | some t => some t
    | none => if a = c then some (a :: s) else none

/-- `axis2_http_request_line_parse_line`. -/
def requestLineParseLine (str : Text) : Option RequestLine :=
  (search crlf str).bind fun tmp =>
    let reqLine := upTo str tmp
    (search [' '] reqLine).bind fun tmp =>
      let uri := tmp.tail
      (searchLast ' ' uri).map fun last => ⟨upTo reqLine tmp, upTo uri last, last.tail⟩

structure HttpHeader where
  name : Text
  value : Text
  deriving DecidableEq, Repr

/-- `axis2_http_header_create_by_str`. -/
def httpHeaderCreateByStr (str : Text) : Option HttpHeader :=
  let tmpStr := if 2 ≤ str.length ∧ str[str.length - 2]? = some '\r' then str.take (str.length - 2)
    else str
  (search [':'] tmpStr).map fun ch => ⟨upTo tmpStr ch, ch.tail.dropWhile (· = ' ')⟩

/-- The loop over the headers. It ends behind the blank line, and when nothing was read. -/
def readHeaders (s : Schedule) : ℕ → ℕ → Text → Text → List HttpHeader →
    Option (List HttpHeader × Text)
  | 0, _, _, _, _ => none
  | fuel + 1, look, rest, strLine, headers =>
    match readLine s fuel look rest strLine with
    | none => none
    | some line =>
      if line.endOfLine ∧ line.strLine = crlf then some (headers, line.rest)
      else
        let headers :=
          if line.endOfLine then headers ++ (httpHeaderCreateByStr line.strLine).toList
          else headers
        let strLine := if line.endOfLine then [] else line.strLine
        if rest = [] then some (headers, line.rest)
        else readHeaders s fuel line.look line.rest strLine headers

structure SimpleRequest where
  requestLine : RequestLine
  headers : List HttpHeader
  deriving DecidableEq, Repr

/-- `axis2_simple_http_svr_conn_read_request`, with what is left of the stream. -/
def readRequest (s : Schedule) (fuel : ℕ) (stream : Text) : Option (Option SimpleRequest × Text) :=
  match readLine s fuel 0 stream [] with
  | none => none
  | some line =>
    match requestLineParseLine line.strLine with
    | none => some (none, line.rest)
    | some requestLine =>
      (readHeaders s fuel line.look line.rest [] []).map fun r => (some ⟨requestLine, r.1⟩, r.2)

end Model

section Requests

/-- A header line: a name, a colon and a value. -/
structure Field where
  name : Text
  value : Text
  colon : ':' ∉ name
  nameCr : '\r' ∉ name
  valueCr : '\r' ∉ value

def Field.line (f : Field) : Text := f.name ++ ':' :: f.value

/-- The header that a line stands for: spaces in front of the value do not count. -/
def Field.header (f : Field) : HttpHeader := ⟨f.name, f.value.dropWhile (· = ' ')⟩

/-- A request line. -/
structure Start where
  method : Text
  uri : Text
  httpVersion : Text
  methodSpace : ' ' ∉ method
  versionSpace : ' ' ∉ httpVersion
  methodCr : '\r' ∉ method
  uriCr : '\r' ∉ uri
  versionCr : '\r' ∉ httpVersion

def Start.line (r : Start) : Text := r.method ++ ' ' :: r.uri ++ ' ' :: r.httpVersion

def Start.requestLine (start : Start) : RequestLine := ⟨start.method, start.uri, start.httpVersion⟩

def headerText (fields : List Field) (body : Text) : Text :=
  match fields with
  | [] => crlf ++ body
  | f :: fields => f.line ++ crlf ++ headerText fields body

def requestText (start : Start) (fields : List Field) (body : Text) : Text :=
  start.line ++ crlf ++ headerText fields body

end Requests

section Condition

variable (s : Schedule)

/-- A line of which `length` bytes are left is read from one look to another: some look
sees its end, and the reads before it stay in front of its end. -/
inductive LineRead : ℕ → ℕ → ℕ → Prop where
  | whole {look length : ℕ} : length + 2 ≤ s.seen look → LineRead look length (look + 1)
  | part {look length next : ℕ} : s.taken look ≤ length →
      LineRead (look + 1) (length - s.taken look) next → LineRead look length next

/-- Lines of these lengths are read one after the other. -/
inductive LinesRead : ℕ → List ℕ → ℕ → Prop where
  | nil {look : ℕ} : LinesRead look [] look
  | cons {look length next last : ℕ} {lengths : List ℕ} : LineRead s look length next →
      LinesRead next lengths last → LinesRead look (length :: lengths) last

end Condition

section Lines

variable {s : Schedule}
variable {line : Text} {r : LineEnd} {fuel look : ℕ}

lemma one_le_seen (s : Schedule) (look : ℕ) : 1 ≤ s.seen look := by
  unfold Schedule.seen
  omega

lemma one_le_taken (s : Schedule) (look : ℕ) : 1 ≤ s.taken look := by
  have h := one_le_seen s look
  unfold Schedule.taken
  omega

/-- In front of the end of a line there is no CRLF to be found. -/
lemma search_crlf_none (hline : '\r' ∉ line) (after : Text) {n : ℕ} (hn : n < line.length + 2) :
    search crlf ((line ++ crlf ++ after).take n) = none := by
  rw [search_eq_none_iff]
  rintro ⟨a, b, hab⟩
  have hlen : a.length + 2 ≤ n := by
    have := congrArg List.length hab
    simp only [List.length_append, List.length_take, crlf, List.length_cons] at this
    omega
  -- the CR of an occurrence would be a character of the line
  have hget : (line ++ crlf ++ after)[a.length]? = some '\r' := by
    have h : ((line ++ crlf ++ after).take n)[a.length]? = some '\r' := by
      rw [← hab]
      simp [crlf]
    rwa [List.getElem?_take_of_lt (by omega)] at h
  rw [List.append_assoc, List.getElem?_append_left (by omega)] at hget
  exact hline (List.mem_of_getElem? hget)

lemma search_crlf_append (hline : '\r' ∉ line) (after : Text) :
    search crlf (line ++ crlf ++ after) = some (crlf ++ after) := by
  induction line with
  | nil => exact search_at_front (List.prefix_append crlf after)
  | cons a line ih =>
    simp only [List.mem_cons, not_or] at hline
    have hfront : ¬ crlf <+: a :: (line ++ crlf ++ after) := by
      rw [crlf, List.cons_prefix_cons]
      exact fun h => hline.1 h.1
    simp only [List.cons_append, search, hfront, if_false]
    exact ih hline.2

lemma readLine_whole {line : Text} (hline : '\r' ∉ line) (after strLine : Text) {look : ℕ}
    (fuel : ℕ) (h : line.length + 2 ≤ s.seen look) :
    readLine s (fuel + 1) look (line ++ crlf ++ after) strLine =
      some ⟨true, look + 1, after, strLine ++ line ++ crlf⟩ := by
  have htake : (line ++ crlf ++ after).take (s.seen look) =
      line ++ crlf ++ after.take (s.seen look - (line.length + 2)) := by
    rw [List.take_append, List.take_of_length_le (by simp [crlf]; omega)]
    simp [crlf]
  have hne : line ++ crlf ++ after ≠ [] := by simp [crlf]
  have hcount : (line ++ crlf ++ after.take (s.seen look - (line.length + 2))).length -
      (crlf ++ after.take (s.seen look - (line.length + 2))).length + 2 =
      (line ++ crlf).length := by
    simp only [List.length_append, crlf, List.length_cons, List.length_nil]
    omega
  simp only [readLine, hne, if_false, htake, search_crlf_append hline, hcount, List.take_left,
    List.drop_left]
  rw [List.append_assoc strLine]

/-- A window without the end of the line. -/
lemma readLine_part (hline : '\r' ∉ line) (after strLine : Text) {look : ℕ} (fuel : ℕ)
    (h : s.seen look < line.length + 2) :
    readLine s (fuel + 1) look (line ++ crlf ++ after) strLine =
      readLine s fuel (look + 1) ((line ++ crlf ++ after).drop (s.taken look))
        (strLine ++ (line ++ crlf ++ after).take (s.taken look)) := by
  have hne : line ++ crlf ++ after ≠ [] := by simp [crlf]
  simp only [readLine, hne, if_false, search_crlf_none hline after h]

lemma readLine_of_lineRead {look length next : ℕ} (h : LineRead s look length next)
    (hlength : line.length = length) (hline : '\r' ∉ line) (after strLine : Text) {fuel : ℕ}
    (hfuel : length < fuel) :
    readLine s fuel look (line ++ crlf ++ after) strLine =
      some ⟨true, next, after, strLine ++ line ++ crlf⟩ := by
  induction h generalizing line strLine fuel with
  | whole hseen =>
    obtain ⟨fuel, rfl⟩ : ∃ n, fuel = n + 1 := ⟨fuel - 1, by omega⟩
    exact readLine_whole hline after strLine fuel (by omega)
  | @part look length next htaken _ ih =>
    obtain ⟨fuel, rfl⟩ : ∃ n, fuel = n + 1 := ⟨fuel - 1, by omega⟩
    by_cases hseen : line.length + 2 ≤ s.seen look
    · -- the look sees the end after all, and nothing is left to the other looks
      have hle : s.seen look ≤ s.taken look := by
        have : s.seen look ≤ 2047 := by unfold Schedule.seen; omega
        unfold Schedule.taken
        omega
      omega
    have hone := one_le_taken s look
    rw [readLine_part hline after strLine fuel (by omega)]
    have hdrop : (line ++ crlf ++ after).drop (s.taken look) =
        line.drop (s.taken look) ++ crlf ++ after := by
      rw [List.append_assoc, List.drop_append_of_le_length (by omega), List.append_assoc]
    have htake : (line ++ crlf ++ after).take (s.taken look) = line.take (s.taken look) := by
      rw [List.append_assoc, List.take_append_of_le_length (by omega)]
    rw [hdrop, htake, ih (by simp [hlength]) (fun hm => hline (List.mem_of_mem_drop hm)) _
      (by omega)]
    simp

/-- What a loop over a line has read, when it comes to an end. -/
structure LineSpec (rest strLine : Text) (r : LineEnd) (read : Text) : Prop where
  rest_eq : rest = read ++ r.rest
  strLine_eq : r.strLine = strLine ++ read
  found : r.endOfLine = true → ∃ y, read = y ++ crlf
  notFound : r.endOfLine = false → r.rest = []
  progress : rest ≠ [] → read ≠ []

lemma readLine_spec {rest strLine : Text} (h : readLine s fuel look rest strLine = some r) :
    ∃ read, LineSpec rest strLine r read := by
  induction fuel generalizing look rest strLine with
  | zero => cases h
  | succ fuel ih =>
    unfold readLine at h
    split at h
    · next hrest =>
        obtain rfl := Option.some.inj h
        exact ⟨[], rfl, by simp, by simp, fun _ => hrest, fun hne => absurd hrest hne⟩
    next hrest =>
    dsimp only at h
    split at h
    · next tail htail =>
        obtain rfl := Option.some.inj h
        obtain ⟨y, hy, ⟨z, hz⟩, -⟩ := search_eq_some htail
        have hcount : (rest.take (s.seen look)).length - tail.length + 2 =
            (y ++ crlf).length := by
          have := congrArg List.length hy
          simp only [List.length_append, crlf, List.length_cons, List.length_nil] at this ⊢
          omega
        have htake : rest.take (y ++ crlf).length = y ++ crlf := by
          rw [← List.take_append_drop (s.seen look) rest, hy, ← hz, ← List.append_assoc y,
            List.append_assoc (y ++ crlf)]
          exact List.take_left
        rw [hcount, htake]
        refine ⟨y ++ crlf, ?_, rfl, fun _ => ⟨y, rfl⟩, by simp, by simp [crlf]⟩
        nth_rewrite 1 [← List.take_append_drop (y ++ crlf).length rest]
        rw [htake]
    · obtain ⟨read, hread⟩ := ih h
      have htaken := one_le_taken s look
      refine ⟨rest.take (s.taken look) ++ read, ?_, ?_, ?_, hread.notFound, ?_⟩
      · rw [List.append_assoc, ← hread.rest_eq, List.take_append_drop]
      · rw [hread.strLine_eq, List.append_assoc]
      · intro hfound
        obtain ⟨y, rfl⟩ := hread.found hfound
        exact ⟨rest.take (s.taken look) ++ y, by rw [List.append_assoc]⟩
      · intro hne
        simp [hne]
        omega

section

variable {line after strLine read : Text} {n : ℕ} {r : LineEnd}
  (h : LineSpec ((line ++ crlf ++ after).drop n) (strLine ++ (line ++ crlf ++ after).take n) r read)
  (hafter : after ≠ [])

include h hafter

/-- The read behind a CR begins with the LF. -/
lemma LineSpec.of_cr (hn : n = line.length + 1) :
    LineSpec after (strLine ++ line ++ crlf) r read.tail := by
  have hdrop : (line ++ crlf ++ after).drop n = '\n' :: after := by
    simp [hn, crlf, List.drop_append]
  have htake : (line ++ crlf ++ after).take n = line ++ ['\r'] := by
    simp [hn, crlf, List.take_append]
  rw [hdrop, htake] at h
  obtain ⟨lf, hlf⟩ : ∃ lf, read = '\n' :: lf := by
    cases read with
    | nil => exact absurd rfl (h.progress (by simp))
    | cons c lf => exact ⟨lf, by rw [(List.cons.inj h.rest_eq).1]⟩
  subst hlf
  have hrest : after = lf ++ r.rest := (List.cons.inj h.rest_eq).2
  have hfound : r.endOfLine = true → ∃ y, lf = y ++ crlf := by
    intro hr
    obtain ⟨y, hy⟩ := h.found hr
    cases y with
    | nil => simp [crlf] at hy
    | cons c y => exact ⟨y, (List.cons.inj hy).2⟩
  refine ⟨hrest, ?_, hfound, h.notFound, ?_⟩
  · rw [h.strLine_eq]
    simp [crlf]
  · rintro - rfl
    cases hr : r.endOfLine with
    | false => exact hafter (by rw [hrest, h.notFound hr]; rfl)
    | true =>
      obtain ⟨y, hy⟩ := hfound hr
      simp [crlf] at hy

lemma LineSpec.of_crlf (hn : line.length + 2 ≤ n) :
    LineSpec after (strLine ++ line ++ crlf) r (after.take (n - (line.length + 2)) ++ read) := by
  have hdrop : (line ++ crlf ++ after).drop n = after.drop (n - (line.length + 2)) := by
    rw [List.drop_append, List.drop_eq_nil_of_le (by simp [crlf]; omega)]
    simp [crlf]
  have htake : (line ++ crlf ++ after).take n =
      line ++ crlf ++ after.take (n - (line.length + 2)) := by
    rw [List.take_append, List.take_of_length_le (by simp [crlf]; omega)]
    simp [crlf]
  rw [hdrop, htake] at h
  refine ⟨?_, ?_, ?_, h.notFound, ?_⟩
  · rw [List.append_assoc, ← h.rest_eq, List.take_append_drop]
  · rw [h.strLine_eq]
    simp
  · intro hr
    obtain ⟨y, hy⟩ := h.found hr
    exact ⟨after.take (n - (line.length + 2)) ++ y, by rw [hy, List.append_assoc]⟩
  · rintro - hnil
    obtain ⟨hnone, hread⟩ := List.append_eq_nil_iff.mp hnil
    by_cases hmore : after.drop (n - (line.length + 2)) = []
    · rw [← List.take_append_drop (n - (line.length + 2)) after, hnone, hmore] at hafter
      exact hafter rfl
    · exact h.progress hmore hread

end

lemma readLine_cut {line after strLine : Text} (hcut : ¬ ∃ next, LineRead s look line.length next)
    (hline : '\r' ∉ line) (hafter : after ≠ [])
    (h : readLine s fuel look (line ++ crlf ++ after) strLine = some r) :
    ∃ read, LineSpec after (strLine ++ line ++ crlf) r read := by
  induction fuel generalizing look line strLine with
  | zero => cases h
  | succ fuel ih =>
    have hseen : s.seen look < line.length + 2 := by
      by_contra hseen
      exact hcut ⟨look + 1, LineRead.whole (by omega)⟩
    rw [readLine_part hline after strLine fuel hseen] at h
    by_cases htaken : s.taken look ≤ line.length
    · have hdrop : (line ++ crlf ++ after).drop (s.taken look) =
          line.drop (s.taken look) ++ crlf ++ after := by
        rw [List.append_assoc, List.drop_append_of_le_length htaken, List.append_assoc]
      have htake : (line ++ crlf ++ after).take (s.taken look) = line.take (s.taken look) := by
        rw [List.append_assoc, List.take_append_of_le_length htaken]
      rw [hdrop, htake] at h
      have hcut' : ¬ ∃ next, LineRead s (look + 1) (line.drop (s.taken look)).length next := by
        rintro ⟨next, hnext⟩
        rw [List.length_drop] at hnext
        exact hcut ⟨next, LineRead.part htaken hnext⟩
      have hspec := ih hcut' (fun hm => hline (List.mem_of_mem_drop hm)) h
      rwa [List.append_assoc strLine, List.take_append_drop] at hspec
    · obtain ⟨read, hread⟩ := readLine_spec h
      by_cases hcr : s.taken look = line.length + 1
      · exact ⟨read.tail, hread.of_cr hafter hcr⟩
      · exact ⟨_, hread.of_crlf hafter (by omega)⟩

/-- The loop over a line comes to an end. -/
lemma readLine_isSome {rest strLine : Text} (h : rest.length < fuel) :
    ∃ r, readLine s fuel look rest strLine = some r := by
  induction fuel generalizing look rest strLine with
  | zero => omega
  | succ fuel ih =>
    unfold readLine
    split
    · exact ⟨_, rfl⟩
    next hrest =>
    dsimp only
    split
    · exact ⟨_, rfl⟩
    · apply ih
      have htaken := one_le_taken s look
      have hpos : 0 < rest.length := List.length_pos_iff.mpr hrest
      rw [List.length_drop]
      omega

end Lines

section Headers

variable {s : Schedule}
variable {fuel look : ℕ} {headers : List HttpHeader} {res : List HttpHeader × Text} {body : Text}
  {rest : Text} {fields : List Field}

lemma httpHeaderCreateByStr_crlf {name : Text} (hname : ':' ∉ name) (value : Text) :
    httpHeaderCreateByStr (name ++ ':' :: value ++ crlf) =
      some ⟨name, value.dropWhile (· = ' ')⟩ := by
  have hlength : (name ++ ':' :: value ++ crlf).length - 2 = (name ++ ':' :: value).length := by
    simp only [List.length_append, crlf, List.length_cons, List.length_nil]
    omega
  have hcr : (name ++ ':' :: value ++ crlf)[(name ++ ':' :: value).length]? = some '\r' := by
    rw [List.getElem?_append_right (le_refl _)]
    simp [crlf]
  have htwo : 2 ≤ (name ++ ':' :: value ++ crlf).length := by
    simp only [List.length_append, crlf, List.length_cons, List.length_nil]
    omega
  simp only [httpHeaderCreateByStr, hlength, hcr, htwo, and_self, if_true, List.take_left,
    search_singleton value hname, Option.map_some, upTo_append, List.tail_cons]

lemma Field.cr_notMem_line (f : Field) : '\r' ∉ f.line := by
  have hname := f.nameCr
  have hvalue := f.valueCr
  simp [Field.line, hname, hvalue]

/-- How one round of the loop over the headers ends. -/
lemma readHeaders_cases (hrest : rest ≠ [])
    (h : readHeaders s (fuel + 1) look rest [] headers = some res) :
    ∃ line, readLine s fuel look rest [] = some line ∧
      (line.endOfLine = true ∧ line.strLine = crlf ∧ res = (headers, line.rest) ∨
        line.endOfLine = true ∧ line.strLine ≠ crlf ∧
          readHeaders s fuel line.look line.rest []
            (headers ++ (httpHeaderCreateByStr line.strLine).toList) = some res ∨
        line.endOfLine = false ∧ ∃ strLine,
          readHeaders s fuel line.look line.rest strLine headers = some res) := by
  unfold readHeaders at h
  split at h
  · cases h
  next line hline =>
  refine ⟨line, hline, ?_⟩
  cases hend : line.endOfLine with
  | false => exact .inr (.inr ⟨rfl, line.strLine, by simpa [hend, hrest] using h⟩)
  | true =>
    by_cases hcrlf : line.strLine = crlf
    · exact .inl ⟨rfl, hcrlf, by simpa [hend, hcrlf] using h.symm⟩
    · exact .inr (.inl ⟨rfl, hcrlf, by simpa [hend, hcrlf, hrest] using h⟩)

/-- At the end of the stream the loop stops. -/
lemma readHeaders_nil {strLine : Text} (h : readHeaders s fuel look [] strLine headers = some res) :
    res = (headers, []) := by
  cases fuel with
  | zero => cases h
  | succ fuel =>
    cases fuel with
    | zero => cases h
    | succ fuel => simpa [readHeaders, readLine] using h.symm

/-- The loop only adds headers and only goes forward. -/
lemma readHeaders_mono (h : readHeaders s fuel look rest [] headers = some res) :
    headers <+: res.1 ∧ res.2.length ≤ rest.length ∧ (rest ≠ [] → res.2.length < rest.length) := by
  induction fuel generalizing look rest headers with
  | zero => cases h
  | succ fuel ih =>
    by_cases hrest : rest = []
    · subst hrest
      rw [readHeaders_nil h]
      exact ⟨List.prefix_refl _, le_refl _, fun hne => absurd rfl hne⟩
    obtain ⟨line, hline, hcases⟩ := readHeaders_cases hrest h
    obtain ⟨read, hspec⟩ := readLine_spec hline
    have hlt : line.rest.length < rest.length := by
      have hpos := List.length_pos_iff.mpr (hspec.progress hrest)
      rw [hspec.rest_eq, List.length_append]
      omega
    rcases hcases with ⟨-, -, rfl⟩ | ⟨-, -, hnext⟩ | ⟨hend, strLine, hnext⟩
    · exact ⟨List.prefix_refl _, hlt.le, fun _ => hlt⟩
    · obtain ⟨hpre, hle, -⟩ := ih hnext
      exact ⟨(List.prefix_append _ _).trans hpre, by omega, fun _ => by omega⟩
    · rw [hspec.notFound hend] at hnext hlt
      rw [readHeaders_nil hnext]
      exact ⟨List.prefix_refl _, hlt.le, fun _ => hlt⟩

/-- The loop over the headers comes to an end. -/
lemma readHeaders_isSome {rest strLine : Text} (h : rest.length + 1 < fuel) :
    ∃ res, readHeaders s fuel look rest strLine headers = some res := by
  induction fuel generalizing look rest strLine headers with
  | zero => omega
  | succ fuel ih =>
    obtain ⟨line, hline⟩ : ∃ r, readLine s fuel look rest strLine = some r :=
      readLine_isSome (by omega)
    obtain ⟨read, hspec⟩ := readLine_spec hline
    unfold readHeaders
    rw [hline]
    dsimp only
    split
    · exact ⟨_, rfl⟩
    split
    · exact ⟨_, rfl⟩
    next hrest =>
    apply ih
    have hpos := List.length_pos_iff.mpr (hspec.progress hrest)
    have hlength := congrArg List.length hspec.rest_eq
    rw [List.length_append] at hlength
    omega

lemma headerText_ne_nil (fields : List Field) (body : Text) : headerText fields body ≠ [] := by
  cases fields <;> simp [headerText, crlf]

/-- A CRLF among the header lines is the end of one of them. -/
lemma headerText_split {body y rest : Text} (h : headerText fields body = y ++ crlf ++ rest) :
    (∃ f fields', f :: fields' <:+ fields ∧ rest = headerText fields' body) ∨
      rest.length ≤ body.length := by
  induction fields generalizing y with
  | nil =>
    right
    have := congrArg List.length h
    simp only [headerText, List.length_append, crlf, List.length_cons, List.length_nil] at this
    omega
  | cons f fields ih =>
    by_cases hy : '\r' ∈ y
    · -- the first CR of `y` ends the line of `f`
      obtain ⟨first, more, rfl, hfirst⟩ := List.eq_append_cons_of_mem hy
      have hsplit : f.line ++ '\r' :: ('\n' :: headerText fields body) =
          first ++ '\r' :: (more ++ crlf ++ rest) := by
        simpa [headerText, crlf] using h
      obtain ⟨-, hmore⟩ := split_at_first f.cr_notMem_line hfirst hsplit
      cases more with
      | nil => simp [crlf] at hmore
      | cons lf more =>
        obtain ⟨g, fields', hsuffix, hrest⟩ | hle := ih (List.cons.inj hmore).2
        · exact .inl ⟨g, fields', hsuffix.trans (List.suffix_cons f fields), hrest⟩
        · exact .inr hle
    · have hsplit : f.line ++ '\r' :: ('\n' :: headerText fields body) =
          y ++ '\r' :: ('\n' :: rest) := by
        simpa [headerText, crlf] using h
      obtain ⟨-, hrest⟩ := split_at_first f.cr_notMem_line hy hsplit
      exact .inl ⟨f, fields, List.suffix_refl _, (List.cons.inj hrest).2.symm⟩

/-- From the header lines come no more headers than there are lines. -/
lemma readHeaders_length
    (h : readHeaders s fuel look (headerText fields body) [] headers = some res) :
    res.1.length ≤ headers.length + fields.length ∨ res.2.length < body.length := by
  induction fuel generalizing look fields headers with
  | zero => cases h
  | succ fuel ih =>
    obtain ⟨line, hline, hcases⟩ := readHeaders_cases (headerText_ne_nil fields body) h
    obtain ⟨read, hspec⟩ := readLine_spec hline
    rcases hcases with ⟨-, -, rfl⟩ | ⟨hend, hcrlf, hnext⟩ | ⟨hend, strLine, hnext⟩
    · exact .inl (Nat.le_add_right _ _)
    · obtain ⟨y, rfl⟩ := hspec.found hend
      have hadd : (headers ++ (httpHeaderCreateByStr line.strLine).toList).length ≤
          headers.length + 1 := by
        cases httpHeaderCreateByStr line.strLine <;> simp
      obtain ⟨f, fields', hsuffix, hrest⟩ | hle := headerText_split hspec.rest_eq
      · rw [hrest] at hnext
        have hlength : fields'.length + 1 ≤ fields.length := hsuffix.length_le
        obtain hle | hlt := ih hnext
        · exact .inl (by omega)
        · exact .inr hlt
      · by_cases hrest : line.rest = []
        · rw [hrest] at hnext
          rw [readHeaders_nil hnext]
          cases fields with
          | nil =>
            -- the only line would be the blank one
            right
            rw [List.length_nil, List.length_pos_iff]
            rintro rfl
            have hy : y = [] := by
              have := congrArg List.length hspec.rest_eq
              rw [hrest] at this
              simpa [headerText, crlf] using this
            rw [hspec.strLine_eq, hy] at hcrlf
            exact hcrlf rfl
          | cons f fields => exact .inl (hadd.trans (by simp))
        · obtain ⟨-, -, hlt⟩ := readHeaders_mono hnext
          exact .inr ((hlt hrest).trans_le hle)
    · rw [hspec.notFound hend] at hnext
      rw [readHeaders_nil hnext]
      exact .inl (Nat.le_add_right _ _)

/-- A line whose end is not cut gives its header. -/
lemma readHeaders_of_lineRead {look next fuel : ℕ} {f : Field}
    (h : LineRead s look f.line.length next) (hfuel : f.line.length < fuel) (fields : List Field)
    (body : Text) (headers : List HttpHeader) :
    readHeaders s (fuel + 1) look (headerText (f :: fields) body) [] headers =
      readHeaders s fuel next (headerText fields body) [] (headers ++ [f.header]) := by
  have hread : readLine s fuel look (headerText (f :: fields) body) [] =
      some ⟨true, next, headerText fields body, f.line ++ crlf⟩ :=
    readLine_of_lineRead h rfl f.cr_notMem_line _ [] hfuel
  have hblank : f.line ++ crlf ≠ crlf := by
    intro hblank
    have := congrArg List.length hblank
    simp [Field.line] at this
    omega
  have hheader : httpHeaderCreateByStr (f.line ++ crlf) = some f.header :=
    httpHeaderCreateByStr_crlf f.colon f.value
  have hne := headerText_ne_nil (f :: fields) body
  simp [readHeaders, hread, hblank, hheader, hne]

lemma cr_mem_dropWhile {value : Text} (h : '\r' ∈ value) :
    '\r' ∈ value.dropWhile (· = ' ') := by
  rw [← List.takeWhile_append_dropWhile (p := (· = ' ')) (l := value), List.mem_append] at h
  rcases h with h | h
  · simpa using List.mem_takeWhile_imp h
  · exact h

/-- A line whose end is cut does not give its header. -/
lemma readHeaders_cut {f : Field} {headers more : List HttpHeader}
    (hcut : ¬ ∃ next, LineRead s look f.line.length next) :
    readHeaders s fuel look (headerText (f :: fields) body) [] headers ≠
      some (headers ++ f.header :: more, rest) := by
  intro h
  cases fuel with
  | zero => cases h
  | succ fuel =>
    obtain ⟨line, hline, hcases⟩ := readHeaders_cases (headerText_ne_nil _ _) h
    obtain ⟨read, hspec⟩ :=
      readLine_cut hcut f.cr_notMem_line (headerText_ne_nil fields body) hline
    rcases hcases with ⟨-, hcrlf, -⟩ | ⟨hend, -, hnext⟩ | ⟨hend, strLine, hnext⟩
    · rw [hspec.strLine_eq] at hcrlf
      have := congrArg List.length hcrlf
      simp [Field.line] at this
      omega
    · obtain ⟨y, rfl⟩ := hspec.found hend
      have hstr : line.strLine = f.name ++ ':' :: (f.value ++ crlf ++ y) ++ crlf := by
        rw [hspec.strLine_eq]
        simp [Field.line]
      rw [hstr, httpHeaderCreateByStr_crlf f.colon] at hnext
      obtain ⟨hpre, -⟩ := readHeaders_mono hnext
      -- the value goes on behind the CR
      have hheader : HttpHeader.mk f.name ((f.value ++ crlf ++ y).dropWhile (· = ' ')) =
          f.header := by
        rw [Option.toList_some, List.prefix_append_right_inj, List.cons_prefix_cons] at hpre
        exact hpre.1
      have hvalue := (HttpHeader.mk.inj hheader).2
      have hcr : '\r' ∈ (f.value ++ crlf ++ y).dropWhile (· = ' ') :=
        cr_mem_dropWhile (by simp [crlf])
      rw [hvalue] at hcr
      exact f.valueCr ((List.dropWhile_suffix _).subset hcr)
    · rw [hspec.notFound hend] at hnext
      have := congrArg (List.length ∘ Prod.fst) (readHeaders_nil hnext)
      simp at this

lemma readHeaders_blank (hfuel : (headerText [] body).length + 1 < fuel)
    (h : body = [] ∨ 2 ≤ s.seen look) :
    readHeaders s fuel look (headerText [] body) [] headers = some (headers, body) := by
  obtain ⟨fuel, rfl⟩ : ∃ n, fuel = n + 2 := ⟨fuel - 2, by omega⟩
  rcases h with rfl | hseen
  · obtain ⟨res, hres⟩ : ∃ res, readHeaders s (fuel + 2) look (headerText [] []) [] headers =
      some res := readHeaders_isSome hfuel
    rw [hres]
    obtain ⟨line, hline, hcases⟩ := readHeaders_cases (headerText_ne_nil _ _) hres
    obtain ⟨read, hspec⟩ := readLine_spec hline
    have hfound : line.endOfLine = true → read = crlf ∧ line.rest = [] := by
      intro hend
      obtain ⟨y, rfl⟩ := hspec.found hend
      have hlength := congrArg List.length hspec.rest_eq
      simp only [headerText, List.length_append, crlf, List.length_cons, List.length_nil] at hlength
      have hy : y = [] := List.length_eq_zero_iff.mp (by omega)
      exact ⟨by rw [hy, List.nil_append], List.length_eq_zero_iff.mp (by omega)⟩
    rcases hcases with ⟨hend, -, rfl⟩ | ⟨hend, hcrlf, -⟩ | ⟨hend, strLine, hnext⟩
    · rw [(hfound hend).2]
    · exact absurd (by rw [hspec.strLine_eq, (hfound hend).1, List.nil_append]) hcrlf
    · rw [hspec.notFound hend] at hnext
      rw [readHeaders_nil hnext]
  · have hread : readLine s (fuel + 1) look (headerText [] body) [] =
        some ⟨true, look + 1, body, crlf⟩ :=
      @readLine_whole s [] (by simp) body [] look fuel (by simpa using hseen)
    simp [readHeaders, hread]

lemma readHeaders_blank_cut (hbody : body ≠ []) (hseen : s.seen look < 2) :
    readHeaders s fuel look (headerText [] body) [] headers ≠ some (headers, body) := by
  intro h
  cases fuel with
  | zero => cases h
  | succ fuel =>
    obtain ⟨line, hline, hcases⟩ := readHeaders_cases (headerText_ne_nil _ _) h
    have hcut : ¬ ∃ next, LineRead s look ([] : Text).length next := by
      rintro ⟨next, hnext⟩
      have htaken := one_le_taken s look
      cases hnext with
      | whole hwhole => simp at hwhole; omega
      | part hpart => simp at hpart; omega
    obtain ⟨read, hspec⟩ := readLine_cut hcut (by simp) hbody hline
    have hlt : line.rest.length < body.length := by
      have hpos := List.length_pos_iff.mpr (hspec.progress hbody)
      have hlength := congrArg List.length hspec.rest_eq
      rw [List.length_append] at hlength
      omega
    rcases hcases with ⟨-, -, hres⟩ | ⟨-, -, hnext⟩ | ⟨hend, strLine, hnext⟩
    · rw [← (Prod.mk.inj hres).2] at hlt
      exact lt_irrefl _ hlt
    · obtain ⟨-, hle, -⟩ := readHeaders_mono hnext
      simp only at hle
      omega
    · rw [hspec.notFound hend] at hnext
      exact hbody (Prod.mk.inj (readHeaders_nil hnext)).2

lemma readHeaders_iff {fuel look : ℕ} {fields : List Field} {body : Text}
    {headers : List HttpHeader} (hfuel : (headerText fields body).length + 1 < fuel) :
    readHeaders s fuel look (headerText fields body) [] headers =
        some (headers ++ fields.map Field.header, body) ↔
      ∃ next, LinesRead s look (fields.map (·.line.length)) next ∧
        (body = [] ∨ 2 ≤ s.seen next) := by
  induction fields generalizing fuel look headers with
  | nil =>
    have hline : '\r' ∉ ([] : Text) := by simp
    rw [List.map_nil, List.map_nil, List.append_nil]
    constructor
    · intro h
      refine ⟨look, .nil, ?_⟩
      by_contra hnot
      simp only [not_or, not_le] at hnot
      obtain ⟨hbody, hseen⟩ := hnot
      exact readHeaders_blank_cut hbody hseen h
    · rintro ⟨next, hnil, hbody⟩
      cases hnil
      exact readHeaders_blank hfuel hbody
  | cons f fields ih =>
    obtain ⟨fuel, rfl⟩ : ∃ n, fuel = n + 1 := ⟨fuel - 1, by omega⟩
    have hlength : (headerText (f :: fields) body).length =
        f.line.length + 2 + (headerText fields body).length := by
      simp [headerText, crlf]
      omega
    rw [List.map_cons, List.map_cons]
    constructor
    · intro h
      by_cases hcut : ∃ next, LineRead s look f.line.length next
      · obtain ⟨next, hnext⟩ := hcut
        rw [List.append_cons headers f.header, readHeaders_of_lineRead hnext (by omega),
          ih (by omega)] at h
        obtain ⟨last, hlast, hbody⟩ := h
        exact ⟨last, .cons hnext hlast, hbody⟩
      · exact absurd h (readHeaders_cut hcut)
    · rintro ⟨last, hlines, hbody⟩
      cases hlines with
      | cons hnext hlast =>
        rw [List.append_cons headers f.header, readHeaders_of_lineRead hnext (by omega),
        ih (by omega)]
        exact ⟨last, hlast, hbody⟩

end Headers

section Reader

variable {s : Schedule}
variable {start : Start}

lemma searchLast_notMem {c : Char} {t : Text} (h : c ∉ t) : searchLast c t = none := by
  induction t with
  | nil => rfl
  | cons a t ih =>
    simp only [List.mem_cons, not_or] at h
    simp [searchLast, ih h.2, Ne.symm h.1]

lemma searchLast_append {c : Char} {t : Text} (h : c ∉ t) (a : Text) :
    searchLast c (a ++ c :: t) = some (c :: t) := by
  induction a with
  | nil => simp [searchLast, searchLast_notMem h]
  | cons x a ih => simp [searchLast, ih]

lemma Start.cr_notMem_line (start : Start) : '\r' ∉ start.line := by
  have hmethod := start.methodCr
  have huri := start.uriCr
  have hversion := start.versionCr
  simp [Start.line, hmethod, huri, hversion]

/-- The request line is what stands in front of the first CRLF. -/
lemma requestLineParseLine_append (start : Start) (more : Text) :
    requestLineParseLine (start.line ++ crlf ++ more) = some start.requestLine := by
  have hfirst : upTo (start.line ++ crlf ++ more) (crlf ++ more) = start.line := by
    rw [List.append_assoc]
    exact upTo_append _ _
  have hspace : search [' '] start.line =
      some (' ' :: (start.uri ++ ' ' :: start.httpVersion)) := by
    rw [Start.line, List.append_assoc, List.cons_append]
    exact search_singleton _ start.methodSpace
  have hmethod : upTo start.line (' ' :: (start.uri ++ ' ' :: start.httpVersion)) =
      start.method := by
    rw [Start.line, List.append_assoc, List.cons_append]
    exact upTo_append _ _
  simp only [requestLineParseLine, search_crlf_append start.cr_notMem_line, Option.bind_some,
    hfirst, hspace, List.tail_cons, searchLast_append start.versionSpace, Option.map_some,
    hmethod, upTo_append, Start.requestLine]

lemma readRequest_of_line {fuel : ℕ} {stream more : Text} {line : LineEnd}
    (hline : readLine s fuel 0 stream [] = some line)
    (hstr : line.strLine = start.line ++ crlf ++ more) :
    readRequest s fuel stream = (readHeaders s fuel line.look line.rest [] []).map
      fun r => (some ⟨start.requestLine, r.1⟩, r.2) := by
  simp only [readRequest, hline, hstr, requestLineParseLine_append]

lemma readRequest_cut {fuel : ℕ} {fields : List Field} {body : Text}
    (hcut : ¬ ∃ next, LineRead s 0 start.line.length next)
    (hfuel : (requestText start fields body).length + 1 < fuel) :
    readRequest s fuel (requestText start fields body) =
        some (some ⟨start.requestLine, fields.map Field.header⟩, body) ↔
      fields = [] ∧ body = [] := by
  obtain ⟨line, hline⟩ : ∃ r, readLine s fuel 0 (requestText start fields body) [] = some r :=
    readLine_isSome (by omega)
  obtain ⟨read, hspec⟩ :=
    readLine_cut hcut start.cr_notMem_line (headerText_ne_nil fields body) hline
  obtain ⟨res, hres⟩ : ∃ res, readHeaders s fuel line.look line.rest [] [] = some res := by
    apply readHeaders_isSome
    have hlength : line.rest.length ≤ (headerText fields body).length := by
      rw [hspec.rest_eq, List.length_append]
      omega
    simp only [requestText, List.length_append] at hfuel
    omega
  have hrequest : readRequest s fuel (requestText start fields body) =
      some (some ⟨start.requestLine, res.1⟩, res.2) := by
    rw [readRequest_of_line hline hspec.strLine_eq, hres, Option.map_some]
  rw [hrequest]
  constructor
  · intro h
    obtain ⟨hheaders, hbody⟩ : res.1 = fields.map Field.header ∧ res.2 = body := by simpa using h
    by_cases hrest : line.rest = []
    · rw [hrest] at hres
      rw [readHeaders_nil hres] at hheaders hbody
      exact ⟨List.map_eq_nil_iff.mp hheaders.symm, hbody.symm⟩
    -- the headers come from a part of the lines, or from the body
    exfalso
    cases hend : line.endOfLine with
    | false => exact hrest (hspec.notFound hend)
    | true =>
      obtain ⟨y, rfl⟩ := hspec.found hend
      obtain ⟨f, fields', hsuffix, htext⟩ | hle := headerText_split hspec.rest_eq
      · rw [htext] at hres
        have hlength : fields'.length + 1 ≤ fields.length := hsuffix.length_le
        obtain hle | hlt := readHeaders_length hres
        · rw [hheaders, List.length_map, List.length_nil] at hle
          omega
        · rw [hbody] at hlt
          exact lt_irrefl _ hlt
      · obtain ⟨-, -, hlt⟩ := readHeaders_mono hres
        have := hlt hrest
        rw [hbody] at this
        omega
  · rintro ⟨rfl, rfl⟩
    have hrest : line.rest = [] := by
      cases hend : line.endOfLine with
      | false => exact hspec.notFound hend
      | true =>
        obtain ⟨y, rfl⟩ := hspec.found hend
        obtain ⟨f, fields', hsuffix, -⟩ | hle := headerText_split hspec.rest_eq
        · simp at hsuffix
        · exact List.length_eq_zero_iff.mp (Nat.le_zero.mp hle)
    rw [hrest] at hres
    rw [readHeaders_nil hres]
    rfl

lemma readRequest_of_lineRead {fuel next : ℕ} {fields : List Field} {body : Text}
    (h : LineRead s 0 start.line.length next)
    (hfuel : (requestText start fields body).length + 1 < fuel) :
    readRequest s fuel (requestText start fields body) =
        some (some ⟨start.requestLine, fields.map Field.header⟩, body) ↔
      ∃ last, LinesRead s next (fields.map (·.line.length)) last ∧
        (body = [] ∨ 2 ≤ s.seen last) := by
  simp only [requestText, List.length_append] at hfuel
  have hline : readLine s fuel 0 (requestText start fields body) [] =
      some ⟨true, next, headerText fields body, start.line ++ crlf⟩ :=
    readLine_of_lineRead h rfl start.cr_notMem_line _ [] (by omega)
  rw [readRequest_of_line hline (List.append_nil _).symm]
  rw [← @readHeaders_iff s fuel next fields body [] (by omega), List.nil_append]
  simp only [Option.map_eq_some_iff]
  constructor
  · rintro ⟨res, hres, heq⟩
    obtain ⟨hheaders, hbody⟩ : res.1 = fields.map Field.header ∧ res.2 = body := by simpa using heq
    rw [hres, ← hheaders, ← hbody]
  · intro hres
    exact ⟨_, hres, rfl⟩

lemma readRequest_isSome {fuel : ℕ} {stream : Text} (h : stream.length + 1 < fuel) :
    (readRequest s fuel stream).isSome := by
  obtain ⟨line, hline⟩ : ∃ r, readLine s fuel 0 stream [] = some r := readLine_isSome (by omega)
  obtain ⟨read, hspec⟩ := readLine_spec hline
  have hlength : line.rest.length ≤ stream.length := by
    rw [hspec.rest_eq, List.length_append]
    omega
  obtain ⟨res, hres⟩ : ∃ res, readHeaders s fuel line.look line.rest [] [] = some res :=
    readHeaders_isSome (by omega)
  simp only [readRequest, hline, hres]
  split <;> rfl

/-- A request is read as it was sent exactly when no look cuts the end of a line, up to
the request line of a request that has nothing else and the blank line of one without a
body. On every stream the function returns. -/
theorem request_read_iff (s : Schedule) :
    (∀ (stream : Text) (n : ℕ), (readRequest s (stream.length + 2 + n) stream).isSome) ∧
      ∀ (start : Start) (fields : List Field) (body : Text) (n : ℕ),
        readRequest s ((requestText start fields body).length + 2 + n)
            (requestText start fields body) =
            some (some ⟨start.requestLine, fields.map Field.header⟩, body) ↔
          fields = [] ∧ body = [] ∨
            ∃ next, LinesRead s 0 (start.line.length :: fields.map (·.line.length)) next ∧
              (body = [] ∨ 2 ≤ s.seen next) := by
  constructor
  · intro stream n
    exact readRequest_isSome (by omega)
  intro start fields body n
  by_cases hcut : ∃ next, LineRead s 0 start.line.length next
  · obtain ⟨next, hnext⟩ := hcut
    constructor
    · intro h
      obtain ⟨last, hlast, hbody⟩ := (readRequest_of_lineRead hnext (by omega)).mp h
      exact .inr ⟨last, .cons hnext hlast, hbody⟩
    · rintro (⟨rfl, rfl⟩ | ⟨last, hlines, hbody⟩)
      · exact (readRequest_of_lineRead hnext (by omega)).mpr ⟨next, .nil, .inl rfl⟩
      · cases hlines with
        | cons hline hlast =>
          exact (readRequest_of_lineRead hline (by omega)).mpr ⟨last, hlast, hbody⟩
  · rw [readRequest_cut hcut (by omega)]
    constructor
    · exact Or.inl
    · rintro (h | ⟨next, hlines, -⟩)
      · exact h
      · cases hlines with
        | cons hline _ => exact absurd ⟨_, hline⟩ hcut

/-- The request line comes first, then a header line up to its CR, then the rest. -/
def crArrivals : Schedule
  | 0 => ⟨16, 0⟩
  | 1 => ⟨4, 0⟩
  | _ => ⟨2047, 0⟩

def getRoot : Start :=
  ⟨['G', 'E', 'T'], ['/'], ['H', 'T', 'T', 'P', '/', '1', '.', '1'], by decide, by decide,
    by decide, by decide, by decide⟩

def headerA : Field := ⟨['A'], ['1'], by decide, by decide, by decide⟩

def headerB : Field := ⟨['B'], ['2'], by decide, by decide, by decide⟩

/-- Of two headers the server has one, with the other in its value. -/
theorem header_line_cut_at_cr :
    readRequest crArrivals 30 (requestText getRoot [headerA, headerB] []) =
        some (some ⟨getRoot.requestLine, [⟨['A'], ['1', '\r', '\n', 'B', ':', '2']⟩]⟩, []) ∧
      readRequest crArrivals 30 (requestText getRoot [headerA, headerB] []) ≠
        some (some ⟨getRoot.requestLine, [headerA, headerB].map Field.header⟩, []) := by
  decide

end Reader

end Axis2C.HttpRead
