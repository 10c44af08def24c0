import Axis2C.HttpClientHead

/-!
# Responses with interim heads

What `axis2_http_client_recieve_header` makes of a response that begins with interim heads.
Their status lines are passed over because of their code, and their other lines as long as
they do not look like a status line.
-/
namespace Axis2C.HttpClient
open FirstOccurrence HttpRead KeyedLists
open HttpHeaders hiding Text

section Responses

/-- A status line with a number for its code. -/
structure StatusText where
  version : Text
  code : ℕ
  reason : Text
  versionClean : ∀ c ∈ version, c ≠ ' ' ∧ c ≠ '\r' ∧ c ≠ '\x00'
  reasonClean : ∀ c ∈ reason, c ≠ '\r' ∧ c ≠ '\x00'

def StatusText.content (t : StatusText) : Text :=
  t.version ++ ' ' :: Nat.toDigits 10 t.code ++ ' ' :: t.reason

/-- A line of a header, with a name and a value. -/
structure HeaderLine where
  name : Text
  value : Text
  nameClean : ∀ c ∈ name, c ≠ ':' ∧ c ≠ ' ' ∧ c ≠ '\r' ∧ c ≠ '\x00'
  valueClean : ∀ c ∈ value, c ≠ '\r' ∧ c ≠ '\x00'

def HeaderLine.content (l : HeaderLine) : Text := l.name ++ ':' :: l.value

/-- The header of a line; spaces in front of the value do not count. -/
def HeaderLine.header (l : HeaderLine) : HttpHeader := ⟨l.name, l.value.dropWhile (· = ' ')⟩

/-- A status line and header lines that are shorter than 512 bytes with their CRLF. -/
structure Head where
  status : StatusText
  fields : List HeaderLine
  statusFits : (status.content ++ crlf).length < 512
  fieldsFit : ∀ l ∈ fields, (l.content ++ crlf).length < 512

def Head.lines (h : Head) : List Text :=
  (h.status.content ++ crlf) :: h.fields.map (fun l => l.content ++ crlf) ++ [crlf]

/-- A response: interim heads, the final head and the body. -/
structure WellFormed where
  interim : List Head
  final : Head
  body : Text
  interimCodes : ∀ h ∈ interim, 100 ≤ h.status.code ∧ h.status.code < 200
  finalCode : 200 ≤ final.status.code ∧ final.status.code < 2 ^ 31

def WellFormed.text (w : WellFormed) : Text :=
  (w.interim.flatMap Head.lines).flatten ++ (w.final.lines.flatten ++ w.body)

/-- The response of the client has the status line of a head, and for every name the last header
of the head with this name. -/
structure Response.Describes (response : Response) (h : Head) : Prop where
  statusLine : ∃ line, response.statusLine = some line ∧ line.httpVersion = h.status.version ∧
    line.code = h.status.code ∧ line.reasonPhrase = h.status.reason
  distinct : Distinct foldedName response.headerGroup.headers
  headers : ∀ name, getFirstHeader response.headerGroup name =
    (h.fields.map HeaderLine.header).reverse.find? (isNamed name)

/-- The client ends with the final head in its response, in front of the body. -/
def Recieves (w : WellFormed) (client : Client) : Prop :=
  ∃ bound value client', (∀ fuel, bound ≤ fuel → recieveHeader fuel client = .ok (value, client')) ∧
    ∃ response s, client'.response = some response ∧ response.Describes w.final ∧
      client'.dataStream = some s ∧ response.stream = some s ∧ s.pending = w.body

def WellFormed.stream (w : WellFormed) (ended : ℕ) (failing : ℕ → Bool) : DataStream :=
  ⟨w.text, ended, failing⟩

end Responses

section Lines

def IsLine (line : Text) : Prop :=
  ∃ content, line = content ++ crlf ∧ (∀ c ∈ content, c ≠ '\r' ∧ c ≠ '\x00') ∧ line.length ≤ 511

lemma isLine_crlf : IsLine crlf := ⟨[], rfl, by simp, by decide⟩

lemma StatusText.content_clean (t : StatusText) : ∀ c ∈ t.content, c ≠ '\r' ∧ c ≠ '\x00' := by
  intro c hc
  simp only [StatusText.content, List.append_assoc, List.cons_append, List.mem_append,
    List.mem_cons] at hc
  rcases hc with hc | rfl | hc | rfl | hc
  · exact (t.versionClean c hc).2
  · decide
  · have hdigit := Nat.isDigit_of_mem_toDigits (by decide) (by decide) hc
    refine ⟨?_, ?_⟩ <;> rintro rfl <;> exact absurd hdigit (by decide)
  · decide
  · exact t.reasonClean c hc

lemma HeaderLine.content_clean (l : HeaderLine) : ∀ c ∈ l.content, c ≠ '\r' ∧ c ≠ '\x00' := by
  intro c hc
  simp only [HeaderLine.content, List.mem_append, List.mem_cons] at hc
  rcases hc with hc | rfl | hc
  · exact (l.nameClean c hc).2.2
  · decide
  · exact l.valueClean c hc

lemma Head.isLine (h : Head) : ∀ line ∈ h.lines, IsLine line := by
  intro line hline
  simp only [Head.lines, List.cons_append, List.mem_cons, List.mem_append, List.mem_map,
    List.not_mem_nil, or_false] at hline
  rcases hline with rfl | ⟨l, hl, rfl⟩ | rfl
  · exact ⟨_, rfl, h.status.content_clean, Nat.le_of_lt_succ h.statusFits⟩
  · exact ⟨_, rfl, l.content_clean, Nat.le_of_lt_succ (h.fieldsFit l hl)⟩
  · exact isLine_crlf

lemma HeaderLine.content_ne_crlf (l : HeaderLine) : l.content ++ crlf ≠ crlf := by
  intro h
  have hlength := congrArg List.length h
  simp only [HeaderLine.content, List.length_append, List.length_cons] at hlength
  omega

/-- Without a CR there is no CRLF, also in front of the next character. -/
lemma not_crlf_infix_concat {str : Text} (hstr : '\r' ∉ str) (c : Char) :
    ¬ crlf <:+: str ++ [c] := by
  rintro ⟨a, b, hab⟩
  have hlast : (a ++ crlf ++ b).length = str.length + 1 := by rw [hab, List.length_append]; rfl
  simp only [List.length_append, crlf, List.length_cons, List.length_nil] at hlast
  have hget : (str ++ [c])[a.length]? = some '\r' := by
    rw [← hab]
    simp [crlf]
  rw [List.getElem?_append_left (by omega)] at hget
  exact hstr (List.mem_of_getElem? hget)

lemma lineOf_clean {content : Text} (hclean : ∀ c ∈ content, c ≠ '\r' ∧ c ≠ '\x00') {str : Text}
    (hstr : '\r' ∉ str) (rest : Text) :
    lineOf str (content ++ crlf ++ rest) = (str ++ content ++ crlf, some rest) := by
  induction content generalizing str with
  | nil =>
    have hcr : strcat str '\r' = str ++ ['\r'] := rfl
    have hlf : strcat (str ++ ['\r']) '\n' = str ++ crlf := by simp [strcat, crlf]
    have hfound : crlf <:+: str ++ crlf := (List.suffix_append str crlf).isInfix
    simp only [crlf, List.nil_append, List.cons_append, List.append_nil] at hlf hfound ⊢
    rw [lineOf, hcr, if_neg (not_crlf_infix_concat hstr '\r'), lineOf, hlf]
    exact if_pos hfound
  | cons c content ih =>
    obtain ⟨⟨hcr, hnul⟩, hrest⟩ := List.forall_mem_cons.mp hclean
    have hcat : strcat str c = str ++ [c] := if_neg hnul
    have hmore : '\r' ∉ str ++ [c] := by
      rw [List.mem_append, List.mem_singleton, not_or]
      exact ⟨hstr, fun h => hcr h.symm⟩
    rw [List.cons_append, List.cons_append, lineOf, hcat,
      if_neg (not_crlf_infix_concat hstr c), ih hrest hmore]
    simp

lemma firstLine_isLine {line : Text} (h : IsLine line) (rest : Text) :
    firstLine (line ++ rest) = (line, some rest) := by
  obtain ⟨content, rfl, hclean, -⟩ := h
  exact lineOf_clean hclean List.not_mem_nil rest

end Lines

section StatusTexts

variable {t : StatusText}

lemma atoi_toDigits {n : ℕ} (hn : n < 2 ^ 31) : atoi (Nat.toDigits 10 n) = n := by
  have hdigits : (Nat.toDigits 10 n).takeWhile Char.isDigit = Nat.toDigits 10 n := by
    rw [List.takeWhile_eq_self_iff]
    intro c hc
    exact Nat.isDigit_of_mem_toDigits (by decide) (by decide) hc
  have hmod : Int.bmod (n : ℤ) (2 ^ 32) = n := by
    rw [Int.bmod_def]
    omega
  unfold atoi
  rw [hdigits, Nat.ofDigitChars_ten_toDigits, hmod]

def StatusText.parsed (t : StatusText) : StatusLine :=
  ⟨t.content ++ crlf, t.version, Nat.toDigits 10 t.code, t.reason⟩

lemma statusLineCreate_content (t : StatusText) :
    statusLineCreate (t.content ++ crlf) = some t.parsed := by
  have hcr : '\r' ∉ t.content := fun h => (t.content_clean _ h).1 rfl
  have hversion : ' ' ∉ t.version := fun h => (t.versionClean _ h).1 rfl
  have hcode : ' ' ∉ Nat.toDigits 10 t.code := fun h =>
    absurd (Nat.isDigit_of_mem_toDigits (by decide) (by decide) h) (by decide)
  have hsearch := search_crlf_append hcr []
  simp only [List.append_nil] at hsearch
  have hsplit : t.content = t.version ++ ' ' :: (Nat.toDigits 10 t.code ++ ' ' :: t.reason) := by
    simp [StatusText.content]
  have hfirst : search [' '] t.content =
      some (' ' :: (Nat.toDigits 10 t.code ++ ' ' :: t.reason)) := by
    rw [hsplit]
    exact search_singleton _ hversion
  simp only [statusLineCreate, hsearch, Option.bind_some, upTo_append, hfirst, List.tail_cons,
    search_singleton t.reason hcode, Option.map_some, Option.some.injEq]
  rw [StatusText.parsed, StatusLine.mk.injEq]
  refine ⟨rfl, ?_, rfl, rfl⟩
  rw [hsplit, upTo_append]

lemma StatusText.code_parsed (h : t.code < 2 ^ 31) : t.parsed.code = t.code :=
  atoi_toDigits h

lemma not_isFinal_interim (h : t.code < 200) : ¬ IsFinal (t.content ++ crlf) := by
  rintro ⟨statusLine, hparsed, hcode⟩
  rw [statusLineCreate_content, Option.some.injEq] at hparsed
  rw [← hparsed, StatusText.code_parsed (by omega)] at hcode
  omega

lemma not_isFinal_crlf : ¬ IsFinal crlf := by
  rintro ⟨statusLine, hparsed, -⟩
  exact absurd hparsed (by simp [show statusLineCreate crlf = none by decide])

lemma format3d_of_le {n : ℕ} (hn : 200 ≤ n) : format3d n = Nat.toDigits 10 n := by
  have hlong : ¬ (Nat.toDigits 10 n).length ≤ 2 := by
    rw [Nat.length_toDigits_le_iff (by decide) (by decide)]
    omega
  have hnonneg : ¬ (n : ℤ) < 0 := by omega
  simp only [format3d, if_neg hnonneg, Int.natAbs_natCast]
  rw [Nat.sub_eq_zero_of_le (by omega), List.replicate_zero, List.nil_append]

lemma statusLine_setStatusLine (h : 200 ≤ t.code ∧ t.code < 2 ^ 31) (response : Response) :
    (response.setStatusLine t.parsed.httpVersion t.parsed.code t.parsed.reasonPhrase).statusLine =
      some t.parsed := by
  have hne : (t.code : ℤ) ≠ 0 := by omega
  rw [StatusText.code_parsed h.2, Response.setStatusLine, if_neg hne, format3d_of_le h.1]
  exact statusLineCreate_content t

end StatusTexts

section Runs

variable {s : DataStream} {rest : Text} {group : HeaderGroup}
variable {lines : List Text}

/-- Lines that are not final are passed over, one pass each. -/
lemma statusLoop_lines (hlines : ∀ line ∈ lines, IsLine line)
    (hskip : ∀ line ∈ lines, ¬ IsFinal line) (s : DataStream)
    (hs : s.pending = lines.flatten ++ rest) (fuel : ℕ) :
    statusLoop (fuel + lines.length) s = statusLoop fuel { s with pending := rest } := by
  induction lines generalizing s with
  | nil =>
    have hrest : s.pending = rest := hs
    rw [← hrest]
    rfl
  | cons line lines ih =>
    obtain ⟨hline, hothers⟩ := List.forall_mem_cons.mp hlines
    obtain ⟨hfirst, hnext⟩ := List.forall_mem_cons.mp hskip
    obtain ⟨content, -, -, hfits⟩ := id hline
    have hread : firstLine s.pending = (line, some (lines.flatten ++ rest)) := by
      rw [hs, List.flatten_cons, List.append_assoc]
      exact firstLine_isLine hline _
    rw [List.length_cons, ← Nat.add_assoc, statusLoop_skip hread hfits hfirst]
    exact ih hothers hnext { s with pending := lines.flatten ++ rest } rfl

/-- Lines that are not blank are parsed, one pass each. -/
lemma headerLoop_lines (hlines : ∀ line ∈ lines, IsLine line) (hblank : crlf ∉ lines)
    (s : DataStream) (hs : s.pending = lines.flatten ++ rest) (fuel : ℕ) (group : HeaderGroup) :
    headerLoop (fuel + lines.length) s [] group =
      headerLoop fuel { s with pending := rest } [] (lines.foldl setParsed group) := by
  induction lines generalizing s group with
  | nil =>
    have hrest : s.pending = rest := hs
    rw [← hrest]
    rfl
  | cons line lines ih =>
    obtain ⟨hline, hothers⟩ := List.forall_mem_cons.mp hlines
    rw [List.mem_cons, not_or] at hblank
    obtain ⟨content, -, -, hfits⟩ := id hline
    have hread : firstLine s.pending = (line, some (lines.flatten ++ rest)) := by
      rw [hs, List.flatten_cons, List.append_assoc]
      exact firstLine_isLine hline _
    rw [List.length_cons, ← Nat.add_assoc, headerLoop_line hread hfits (Ne.symm hblank.1)]
    exact ih hothers hblank.2 { s with pending := lines.flatten ++ rest } rfl
      (setParsed group line)

/-- Header lines up to a blank line. -/
lemma headerLoop_head (hlines : ∀ line ∈ lines, IsLine line) (hblank : crlf ∉ lines)
    (s : DataStream) (hs : s.pending = lines.flatten ++ (crlf ++ rest)) (group : HeaderGroup)
    {fuel : ℕ} (hfuel : lines.length + 1 ≤ fuel) :
    headerLoop fuel s [] group =
      .ok (lines.foldl setParsed group, { s with pending := rest }) := by
  obtain ⟨fuel, rfl⟩ : ∃ n, fuel = n + 1 + lines.length := ⟨fuel - 1 - lines.length, by omega⟩
  rw [headerLoop_lines hlines hblank s hs]
  exact headerLoop_blank (firstLine_isLine isLine_crlf rest)

lemma Head.flatten_lines (h : Head) :
    h.lines.flatten = (h.status.content ++ crlf) ++
      ((h.fields.map fun l => l.content ++ crlf).flatten ++ crlf) := by
  simp [Head.lines]

lemma Head.crlf_notMem_fields (h : Head) : crlf ∉ h.fields.map fun l => l.content ++ crlf := by
  intro hmem
  obtain ⟨l, -, hl⟩ := List.mem_map.mp hmem
  exact l.content_ne_crlf hl

lemma Head.fields_isLine (h : Head) :
    ∀ line ∈ h.fields.map fun l => l.content ++ crlf, IsLine line := by
  intro line hline
  refine h.isLine line ?_
  rw [Head.lines]
  exact List.mem_append_left _ (List.mem_cons_of_mem _ hline)

lemma Head.foldl_setParsed (fields : List HeaderLine) (group : HeaderGroup) :
    (fields.map fun l => l.content ++ crlf).foldl setParsed group =
      fields.foldl (fun group l => responseSetHeader group l.header) group := by
  rw [List.foldl_map]
  congr 1
  funext group l
  have hname : ':' ∉ l.name := fun h => (l.nameClean _ h).1 rfl
  simp only [setParsed, HeaderLine.content, httpHeaderCreateByStr_crlf hname l.value]
  rfl

def headerGroupOf (fields : List HeaderLine) : HeaderGroup :=
  responseGroup (fields.map fun l => .setHeader l.header)

lemma foldl_responseSetHeader (fields : List HeaderLine) :
    fields.foldl (fun group l => responseSetHeader group l.header) none =
      headerGroupOf fields := by
  rw [headerGroupOf, responseGroup, List.foldl_map]
  rfl

end Runs

section Groups

lemma find?_eraseP_of_disjoint {α : Type*} {p q : α → Bool} (h : ∀ a, p a = true → q a = false)
    (l : List α) : (l.eraseP q).find? p = l.find? p := by
  induction l with
  | nil => rfl
  | cons a l ih =>
    by_cases hq : q a = true
    · have hp : p a = false := by
        by_contra hp
        rw [h a (Bool.not_eq_false _ ▸ hp)] at hq
        cases hq
      rw [List.eraseP_cons_of_pos hq, List.find?_cons_of_neg (by simp [hp])]
    · rw [List.eraseP_cons_of_neg hq]
      by_cases hp : p a = true
      · rw [List.find?_cons_of_pos hp, List.find?_cons_of_pos hp]
      · rw [List.find?_cons_of_neg hp, List.find?_cons_of_neg hp, ih]

/-- Setting a header decides what is found under its name and nothing else. -/
lemma getFirstHeader_responseSetHeader {group : HeaderGroup}
    (h : Distinct foldedName group.headers) (header : HttpHeader) (name : Text) :
    getFirstHeader (responseSetHeader group header) name =
      if isNamed name header then some header else getFirstHeader group name := by
  rw [getFirstHeader, headers_responseSetHeader, List.find?_append]
  by_cases hname : isNamed name header = true
  · have hsame : isNamed name = isNamed header.name := by
      have heq : name.map Char.toLower = header.name.map Char.toLower := of_decide_eq_true hname
      rw [isNamed_eq, isNamed_eq, heq]
    have hgone : (group.headers.eraseP (isNamed header.name)).find? (isNamed name) = none := by
      rw [hsame, List.find?_eq_none]
      intro other hother
      have hfree :=
        forall_mem_eraseP_iff.mpr (Distinct.countP_isNamed_le h header.name) other hother
      simp [hfree]
    rw [hgone, if_pos hname, Option.none_or, List.find?_cons_of_pos hname]
  · have hdisjoint : ∀ other, isNamed name other = true → isNamed header.name other = false := by
      intro other hother
      by_contra hboth
      have hname' : name.map Char.toLower = foldedName other := of_decide_eq_true hother
      have hheader : header.name.map Char.toLower = foldedName other :=
        of_decide_eq_true (Bool.not_eq_false _ ▸ hboth)
      exact hname (decide_eq_true (hname'.trans hheader.symm))
    rw [find?_eraseP_of_disjoint hdisjoint, if_neg hname, List.find?_cons_of_neg hname,
      List.find?_nil, Option.or_none]
    rfl

/-- Under every name the last header with it is found. -/
lemma getFirstHeader_headerGroupOf (fields : List HeaderLine) (name : Text) :
    getFirstHeader (headerGroupOf fields) name =
      (fields.map HeaderLine.header).reverse.find? (isNamed name) := by
  induction fields using List.reverseRecOn with
  | nil => rfl
  | append_singleton fields l ih =>
    have hnames := distinct_responseGroup (fields.map fun l => .setHeader l.header)
    rw [headerGroupOf, List.map_append, List.map_singleton, responseGroup_snoc,
      ResponseCall.apply, getFirstHeader_responseSetHeader hnames]
    rw [List.map_append, List.map_singleton, List.reverse_append, List.reverse_singleton,
      List.singleton_append, List.find?_cons, ← ih, headerGroupOf]
    cases isNamed name l.header <;> rfl

end Groups

section Results

variable {w : WellFormed} {sockfd ended : ℕ} {failing : ℕ → Bool} {response : Option Response}

lemma WellFormed.interim_isLine (w : WellFormed) :
    ∀ line ∈ w.interim.flatMap Head.lines, IsLine line := by
  intro line hline
  obtain ⟨h, -, hmem⟩ := List.mem_flatMap.mp hline
  exact h.isLine line hmem

/-- The only lines of interim heads that can be final are those of their headers. -/
lemma WellFormed.interim_cases (w : WellFormed) {line : Text}
    (hline : line ∈ w.interim.flatMap Head.lines) (hfinal : IsFinal line) :
    ∃ h ∈ w.interim, ∃ l ∈ h.fields, line = l.content ++ crlf := by
  obtain ⟨h, hh, hmem⟩ := List.mem_flatMap.mp hline
  simp only [Head.lines, List.cons_append, List.mem_cons, List.mem_append, List.mem_map,
    List.not_mem_nil, or_false] at hmem
  rcases hmem with rfl | ⟨l, hl, rfl⟩ | rfl
  · exact absurd hfinal (not_isFinal_interim (w.interimCodes h hh).2)
  · exact ⟨h, hh, l, hl, rfl⟩
  · exact absurd hfinal not_isFinal_crlf

/-- The response that the final head leaves. -/
lemma describes_final (w : WellFormed) (s : DataStream) {response : Response}
    (hstatus : response.statusLine = some w.final.status.parsed) :
    { response with headerGroup := headerGroupOf w.final.fields, stream := some s }.Describes
      w.final where
  statusLine := ⟨w.final.status.parsed, hstatus, rfl, StatusText.code_parsed w.finalCode.2, rfl⟩
  distinct := distinct_responseGroup _
  headers := getFirstHeader_headerGroupOf w.final.fields

/-- Interim heads without such a line are passed over, and the final head is recieved. -/
lemma recieves_of_plain
    (hplain : ∀ h ∈ w.interim, ∀ l ∈ h.fields, ¬ IsFinal (l.content ++ crlf)) :
    Recieves w (awaiting sockfd (w.stream ended failing) response) := by
  have hskip : ∀ line ∈ w.interim.flatMap Head.lines, ¬ IsFinal line := by
    intro line hline hfinal
    obtain ⟨h, hh, l, hl, rfl⟩ := w.interim_cases hline hfinal
    exact hplain h hh l hl hfinal
  set fields := w.final.fields.map fun l => l.content ++ crlf with hfields
  let behind : DataStream := ⟨w.body, ended, failing⟩
  let answer := (awaiting sockfd (w.stream ended failing) response).answered
    w.final.status.parsed (headerGroupOf w.final.fields) behind
  refine ⟨(w.interim.flatMap Head.lines).length + 1 + (fields.length + 1), answer.1, answer.2, ?_,
    _, behind, rfl, describes_final w behind (statusLine_setStatusLine w.finalCode {}), rfl, rfl,
    rfl⟩
  intro fuel hfuel
  have hstatus : statusLoop fuel (w.stream ended failing) =
      .ok (.final w.final.status.parsed ⟨fields.flatten ++ (crlf ++ w.body), ended, failing⟩) := by
    obtain ⟨more, rfl⟩ : ∃ n, fuel = n + 1 + (w.interim.flatMap Head.lines).length :=
      ⟨fuel - 1 - (w.interim.flatMap Head.lines).length, by omega⟩
    rw [statusLoop_lines w.interim_isLine hskip (w.stream ended failing) rfl]
    have hread : firstLine (w.final.lines.flatten ++ w.body) =
        (w.final.status.content ++ crlf, some (fields.flatten ++ (crlf ++ w.body))) := by
      have hline : IsLine (w.final.status.content ++ crlf) :=
        w.final.isLine _ (by simp [Head.lines])
      rw [Head.flatten_lines, ← hfields, ← firstLine_isLine hline]
      simp
    refine statusLoop_final hread (Nat.le_of_lt_succ w.final.statusFits)
      (statusLineCreate_content w.final.status) ?_
    rw [StatusText.code_parsed w.finalCode.2]
    exact_mod_cast w.finalCode.1
  have hheaders : headerLoop fuel ⟨fields.flatten ++ (crlf ++ w.body), ended, failing⟩ [] none =
      .ok (headerGroupOf w.final.fields, behind) := by
    rw [headerLoop_head w.final.fields_isLine w.final.crlf_notMem_fields
      ⟨fields.flatten ++ (crlf ++ w.body), ended, failing⟩ rfl none
      (by rw [← hfields]; omega),
      Head.foldl_setParsed, foldl_responseSetHeader]
  exact recieveHeader_final hstatus hheaders

/-- A list with an element of a kind has a first one. -/
lemma exists_first {α : Type*} {P : α → Prop} {l : List α} (h : ∃ a ∈ l, P a) :
    ∃ front a back, l = front ++ a :: back ∧ P a ∧ ∀ b ∈ front, ¬ P b := by
  induction l with
  | nil => simp at h
  | cons b l ih =>
    by_cases hb : P b
    · exact ⟨[], b, l, rfl, hb, by simp⟩
    · have htail : ∃ a ∈ l, P a := by
        obtain ⟨a, ha, hP⟩ := h
        rcases List.mem_cons.mp ha with rfl | ha
        · exact absurd hP hb
        · exact ⟨a, ha, hP⟩
      obtain ⟨front, a, back, rfl, hP, hfront⟩ := ih htail
      exact ⟨b :: front, a, back, rfl, hP, List.forall_mem_cons.mpr ⟨hb, hfront⟩⟩

/-- Behind a line of a head that is not blank there is a blank one. -/
lemma crlf_mem_behind {heads : List Head} {front back : List Text} {line : Text}
    (hsplit : heads.flatMap Head.lines = front ++ line :: back) (hline : line ≠ crlf) :
    crlf ∈ back := by
  have hheads : heads ≠ [] := by
    rintro rfl
    simp at hsplit
  obtain ⟨init, h, rfl⟩ := List.eq_nil_or_concat heads |>.resolve_left hheads
  have hlast : front ++ line :: back =
      (init.flatMap Head.lines ++ (h.status.content ++ crlf) ::
        h.fields.map (fun l => l.content ++ crlf)) ++ [crlf] := by
    rw [← hsplit, List.concat_eq_append]
    simp [Head.lines]
  rcases List.eq_nil_or_concat back with rfl | ⟨more, last, rfl⟩
  · have hend := List.append_inj_right' hlast rfl
    exact absurd (List.cons.inj hend).1 hline
  · rw [List.concat_eq_append, ← List.cons_append, ← List.append_assoc] at hlast
    have hend := List.append_inj_right' hlast rfl
    rw [List.concat_eq_append, hend]
    exact List.mem_append_right more (List.mem_singleton_self crlf)

/-- The first line of an interim head that looks like a final status line is taken for one, and
the call stops at the end of this head. -/
lemma not_recieves_of_final
    (hfinal : ∃ h ∈ w.interim, ∃ l ∈ h.fields, IsFinal (l.content ++ crlf)) :
    ¬ Recieves w (awaiting sockfd (w.stream ended failing) response) := by
  have hline : ∃ line ∈ w.interim.flatMap Head.lines, IsFinal line := by
    obtain ⟨h, hh, l, hl, hl'⟩ := hfinal
    refine ⟨_, List.mem_flatMap.mpr ⟨h, hh, ?_⟩, hl'⟩
    rw [Head.lines]
    exact List.mem_append_left _ (List.mem_cons_of_mem _ (List.mem_map_of_mem hl))
  obtain ⟨front, line, back, hsplit, hfirst, hfront⟩ := exists_first hline
  have hlines : ∀ other ∈ front ++ line :: back, IsLine other :=
    fun other hother => w.interim_isLine other (hsplit ▸ hother)
  have hblank : line ≠ crlf := fun h => not_isFinal_crlf (h ▸ hfirst)
  obtain ⟨fields, others, rfl, hfields⟩ :=
    List.eq_append_cons_of_mem (crlf_mem_behind hsplit hblank)
  simp only [List.forall_mem_append, List.forall_mem_cons] at hlines
  obtain ⟨hfrontLines, hlineFits, hfieldLines, -⟩ := hlines
  obtain ⟨-, -, -, hfits⟩ := id hlineFits
  obtain ⟨statusLine, hparsed, hcode⟩ := hfirst
  -- what is behind the blank line of this head
  set rest := others.flatten ++ (w.final.lines.flatten ++ w.body) with hrest
  have htext : w.text = front.flatten ++ (line ++ (fields.flatten ++ (crlf ++ rest))) := by
    rw [WellFormed.text, hsplit, hrest]
    simp
  rintro ⟨bound, value, client, hrun, got, s, -, -, hclient, -, hbody⟩
  have hstatus : statusLoop (bound + fields.length + 1 + front.length) (w.stream ended failing) =
      .ok (.final statusLine ⟨fields.flatten ++ (crlf ++ rest), ended, failing⟩) := by
    rw [statusLoop_lines hfrontLines hfront (w.stream ended failing) htext]
    exact statusLoop_final (firstLine_isLine hlineFits _) hfits hparsed hcode
  have hheaders := headerLoop_head hfieldLines hfields
    ⟨fields.flatten ++ (crlf ++ rest), ended, failing⟩ rfl none
    (show fields.length + 1 ≤ bound + fields.length + 1 + front.length by omega)
  have hresult := hrun (bound + fields.length + 1 + front.length) (by omega)
  rw [recieveHeader_final hstatus hheaders] at hresult
  have hstream := congrArg Client.dataStream (congrArg Prod.snd (Except.ok.inj hresult))
  rw [hclient] at hstream
  have hpending := congrArg DataStream.pending (Option.some.inj hstream)
  rw [hbody] at hpending
  have hlength := congrArg List.length hpending
  simp only [hrest, Head.flatten_lines, List.length_append, crlf, List.length_cons,
    List.length_nil] at hlength
  omega

/-- The response is recieved exactly when no header line of an interim head looks like a status
line with a code of 200 or more. -/
theorem recieves_iff (w : WellFormed) (sockfd ended : ℕ) (failing : ℕ → Bool)
    (response : Option Response) :
    Recieves w (awaiting sockfd (w.stream ended failing) response) ↔
      ∀ h ∈ w.interim, ∀ l ∈ h.fields, ¬ IsFinal (l.content ++ crlf) := by
  refine ⟨fun h => ?_, recieves_of_plain⟩
  intro head hhead l hl hfinal
  exact not_recieves_of_final ⟨head, hhead, l, hl, hfinal⟩ h

/-- An interim head with the header `A: 200 b`, and a final head without headers. -/
def continued : WellFormed where
  interim :=
    [{ status := ⟨['H'], 100, ['C'], by simp, by simp⟩
       fields := [⟨['A'], [' ', '2', '0', '0', ' ', 'b'], by simp, by simp⟩]
       statusFits := by decide
       fieldsFit := by decide }]
  final :=
    { status := ⟨['H'], 200, ['O', 'K'], by simp, by simp⟩
      fields := []
      statusFits := by decide
      fieldsFit := by decide }
  body := []
  interimCodes := by decide
  finalCode := by decide

theorem continued_not_recieves :
    ¬ Recieves continued (awaiting 0 (continued.stream 0 fun _ => false) none) := by
  refine not_recieves_of_final ⟨_, List.mem_singleton_self _, _, List.mem_singleton_self _, ?_⟩
  exact ⟨⟨['A', ':', ' ', '2', '0', '0', ' ', 'b', '\r', '\n'], ['A', ':'], ['2', '0', '0'], ['b']⟩,
    by decide, by decide⟩

end Results

end Axis2C.HttpClient
