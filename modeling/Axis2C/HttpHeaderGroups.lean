import Axis2C.HttpRequestReader
import Axis2C.KeyedLists
import Axis2C.Uri

/-!
# The header groups of requests and responses

`axis2_http_simple_request_add_header` and `remove_headers`,
`axis2_http_simple_response_set_header` and `remove_headers`, the lookups in a group, and
the head that `axis2_simple_http_svr_conn_write_response` prints. A group that was not
created yet is `none`. Memory allocation succeeds, no name is NULL, and every header that
is added is an object of its own.
-/
namespace Axis2C.HttpHeaders
open FirstOccurrence HttpRead KeyedLists

abbrev Text := List Char
abbrev HeaderGroup := Option (List HttpHeader)

def HeaderGroup.headers (group : HeaderGroup) : List HttpHeader := group.getD []

/-- The comparison all loops over a group make. -/
def isNamed (str : Text) (header : HttpHeader) : Bool := Uris.strcasecmp str header.name

/-- `get_first_header`, which requests and responses have alike. -/
def getFirstHeader (group : HeaderGroup) (str : Text) : Option HttpHeader :=
  group.headers.find? (isNamed str)

/-- `contains_header`. -/
def containsHeader (group : HeaderGroup) (name : Text) : Bool :=
  group.headers.any (isNamed name)

/-- `remove_headers`, whose loop breaks at the first match. -/
def removeHeaders (group : HeaderGroup) (str : Text) : HeaderGroup :=
  group.map fun headers => headers.eraseP (isNamed str)

/-- `axis2_http_simple_request_add_header`. -/
def requestAddHeader (group : HeaderGroup) (header : HttpHeader) : HeaderGroup :=
  some (group.getD [] ++ [header])

/-- `axis2_http_simple_request_remove_headers`. -/
def requestRemoveHeaders (group : HeaderGroup) (str : Text) : HeaderGroup :=
  removeHeaders group str

/-- `axis2_http_simple_response_remove_headers`. -/
def responseRemoveHeaders (group : HeaderGroup) (str : Text) : HeaderGroup :=
  removeHeaders group str

/-- `axis2_http_simple_response_set_header`. -/
def responseSetHeader (group : HeaderGroup) (header : HttpHeader) : HeaderGroup :=
  match group with
  | none => some [header]
  | some headers => some (headers.eraseP (isNamed header.name) ++ [header])

section Calls

inductive RequestCall where
  | addHeader (header : HttpHeader)
  | removeHeaders (str : Text)
  deriving DecidableEq, Repr

def RequestCall.apply (group : HeaderGroup) : RequestCall → HeaderGroup
  | addHeader header => requestAddHeader group header
  | removeHeaders str => requestRemoveHeaders group str

inductive ResponseCall where
  | setHeader (header : HttpHeader)
  | removeHeaders (str : Text)
  deriving DecidableEq, Repr

def ResponseCall.apply (group : HeaderGroup) : ResponseCall → HeaderGroup
  | setHeader header => responseSetHeader group header
  | removeHeaders str => responseRemoveHeaders group str

def requestGroup (calls : List RequestCall) : HeaderGroup := calls.foldl RequestCall.apply none

def responseGroup (calls : List ResponseCall) : HeaderGroup :=
  calls.foldl ResponseCall.apply none

lemma requestGroup_snoc (calls : List RequestCall) (call : RequestCall) :
    requestGroup (calls ++ [call]) = call.apply (requestGroup calls) := by
  simp [requestGroup]

lemma responseGroup_snoc (calls : List ResponseCall) (call : ResponseCall) :
    responseGroup (calls ++ [call]) = call.apply (responseGroup calls) := by
  simp [responseGroup]

end Calls

section Laws

/-- What a removal of `str` has to do to a group. -/
structure Removed (str : Text) (before after : HeaderGroup) : Prop where
  noneLeft : ∀ header ∈ after.headers, isNamed str header = false
  absent : containsHeader after str = false
  noFirst : getFirstHeader after str = none
  others : after.headers.filter (fun header => !isNamed str header) =
    before.headers.filter (fun header => !isNamed str header)

def IsSet (header : HttpHeader) (after : HeaderGroup) : Prop :=
  after.headers.filter (isNamed header.name) = [header]

lemma isNamed_self (header : HttpHeader) : isNamed header.name header = true := by
  simp [isNamed, Uris.strcasecmp]

@[simp] lemma headers_removeHeaders (group : HeaderGroup) (str : Text) :
    (removeHeaders group str).headers = group.headers.eraseP (isNamed str) := by
  cases group <;> rfl

@[simp] lemma headers_responseSetHeader (group : HeaderGroup) (header : HttpHeader) :
    (responseSetHeader group header).headers =
      group.headers.eraseP (isNamed header.name) ++ [header] := by
  cases group <;> rfl

/-- The removal does all of its work exactly when the name occurs at most once. -/
lemma removed_iff (group : HeaderGroup) (str : Text) :
    Removed str group (removeHeaders group str) ↔
      group.headers.countP (isNamed str) ≤ 1 := by
  rw [← forall_mem_eraseP_iff, ← headers_removeHeaders]
  constructor
  · intro h
    exact h.noneLeft
  · intro h
    refine ⟨h, ?_, ?_, ?_⟩
    · simpa [containsHeader] using h
    · simpa [getFirstHeader] using h
    · rw [headers_removeHeaders, filter_not_eraseP]

def foldedName (header : HttpHeader) : Text := header.name.map Char.toLower

lemma isNamed_eq (str : Text) :
    isNamed str = fun header => decide (str.map Char.toLower = foldedName header) := rfl

lemma Distinct.countP_isNamed_le {headers : List HttpHeader} (h : Distinct foldedName headers)
    (str : Text) : headers.countP (isNamed str) ≤ 1 := by
  rw [isNamed_eq]
  exact h.countP_le _

lemma isSet_responseSetHeader {group : HeaderGroup} (h : Distinct foldedName group.headers)
    (header : HttpHeader) : IsSet header (responseSetHeader group header) := by
  have hgone := filter_eraseP_eq_nil (Distinct.countP_isNamed_le h header.name)
  simp [IsSet, hgone, isNamed_self]

lemma ResponseCall.distinct_apply {group : HeaderGroup} (call : ResponseCall)
    (h : Distinct foldedName group.headers) : Distinct foldedName (call.apply group).headers := by
  cases call with
  | setHeader header =>
    rw [ResponseCall.apply, headers_responseSetHeader]
    exact h.replace header
  | removeHeaders str =>
    rw [ResponseCall.apply, responseRemoveHeaders, headers_removeHeaders]
    exact h.eraseP _

lemma distinct_responseGroup (calls : List ResponseCall) :
    Distinct foldedName (responseGroup calls).headers := by
  induction calls using List.reverseRecOn with
  | nil => exact List.nodup_nil
  | append_singleton calls call ih =>
    rw [responseGroup_snoc]
    exact call.distinct_apply ih

end Laws

section Responses

variable {response : SimpleResponse} {group : HeaderGroup}

def contentTypeName : Text := "Content-Type".toList
def contentLengthName : Text := "Content-Length".toList
def transferEncodingName : Text := "Transfer-Encoding".toList
def chunkedValue : Text := "chunked".toList
def textPlain : Text := "text/plain".toList
def multipartRelated : Text := "multipart/related".toList
def xopXml : Text := "application/xop+xml".toList

/-- The kinds of MIME parts. -/
inductive MimePartType where
  | buffer
  | file
  | callback
  | unknown
  deriving DecidableEq, Repr

/-- `axis2_http_simple_response_t`, with the text of its status line. -/
structure SimpleResponse where
  statusLine : Option Text := none
  headerGroup : HeaderGroup := none
  stream : Option (List UInt8) := none
  mimeParts : Option (List MimePartType) := none
  mtomSendingCallbackName : Option Text := none
  deriving DecidableEq, Repr

/-- `axis2_http_simple_response_get_content_type`. -/
def SimpleResponse.contentType (response : SimpleResponse) : Text :=
  ((getFirstHeader response.headerGroup contentTypeName).map HttpHeader.value).getD textPlain

def SimpleResponse.binaryContent (response : SimpleResponse) : Bool :=
  (search multipartRelated response.contentType).isSome &&
    (search xopXml response.contentType).isSome

def chunkedEncoding (group : HeaderGroup) : Bool :=
  (getFirstHeader group transferEncodingName).any fun header => header.value = chunkedValue

/-- `axis2_http_transport_utils_is_callback_required`. -/
def isCallbackRequired (mimeParts : List MimePartType) : Bool :=
  mimeParts.any (· = MimePartType.callback)

/-- How the body follows the head: not at all, as it is, or through the chunked stream. -/
inductive Framing where
  | bare
  | plain
  | chunked
  deriving DecidableEq, Repr

structure Sent where
  statusLine : Text
  headers : List HttpHeader
  framing : Framing
  deriving DecidableEq, Repr

/-- The group that `axis2_simple_http_svr_conn_write_response` prints. -/
def printedGroup (group : HeaderGroup) : HeaderGroup :=
  if chunkedEncoding group = true ∧ containsHeader group contentLengthName = true then
    responseRemoveHeaders group contentLengthName
  else group

/-- `axis2_simple_http_svr_conn_write_response`; `none` where it fails without a body. -/
def writeResponse (response : SimpleResponse) : Option Sent :=
  response.statusLine.bind fun statusLine =>
    let headers := (printedGroup response.headerGroup).headers
    if response.stream.getD [] = [] ∧ response.binaryContent = false then
      some ⟨statusLine, headers, .bare⟩
    else if chunkedEncoding response.headerGroup = false ∧ response.binaryContent = false then
      some ⟨statusLine, headers, .plain⟩
    else if response.binaryContent = true then
      if response.mtomSendingCallbackName = none ∧
          isCallbackRequired (response.mimeParts.getD []) = true then none
      else response.mimeParts.map fun _ => ⟨statusLine, headers, .chunked⟩
    else some ⟨statusLine, headers, .chunked⟩

def Sent.Chunked (sent : Sent) : Prop :=
  sent.framing = .chunked ∨ chunkedEncoding (some sent.headers) = true

def Sent.NoContentLength (sent : Sent) : Prop :=
  ∀ header ∈ sent.headers, isNamed contentLengthName header = false

/-- Attachments that are sent in chunks under a head with a length and without a mark. -/
structure SimpleResponse.Unmarked (response : SimpleResponse) : Prop where
  started : response.statusLine.isSome = true
  binary : response.binaryContent = true
  parts : response.mimeParts.isSome = true
  callback : response.mtomSendingCallbackName = none →
    isCallbackRequired (response.mimeParts.getD []) = false
  unmarked : chunkedEncoding response.headerGroup = false
  length : containsHeader response.headerGroup contentLengthName = true

lemma containsHeader_eq_false_iff {str : Text} :
    containsHeader group str = false ↔
      ∀ header ∈ group.headers, isNamed str header = false := by
  simp [containsHeader]

/-- With distinct names, a head that says chunked is printed without a length. -/
lemma noContentLength_printedGroup (h : Distinct foldedName group.headers)
    (hchunked : chunkedEncoding group = true) :
    ∀ header ∈ (printedGroup group).headers, isNamed contentLengthName header = false := by
  by_cases hlength : containsHeader group contentLengthName = true
  · rw [printedGroup, if_pos ⟨hchunked, hlength⟩]
    exact ((removed_iff group contentLengthName).mpr
      (Distinct.countP_isNamed_le h contentLengthName)).noneLeft
  · rw [printedGroup, if_neg (fun hboth => hlength hboth.2)]
    exact containsHeader_eq_false_iff.mp (Bool.eq_false_iff.mpr hlength)

lemma printedGroup_unmarked (h : chunkedEncoding group = false) :
    printedGroup group = group := by
  rw [printedGroup, if_neg]
  simp [h]

/-- Whatever is sent has the printed group in its head. -/
lemma headers_writeResponse {sent : Sent} (h : writeResponse response = some sent) :
    sent.headers = (printedGroup response.headerGroup).headers := by
  obtain ⟨statusLine, -, h⟩ := Option.bind_eq_some_iff.mp h
  dsimp only at h
  split_ifs at h
  · exact (Option.some.inj h) ▸ rfl
  · exact (Option.some.inj h) ▸ rfl
  · obtain ⟨_, -, rfl⟩ := Option.map_eq_some_iff.mp h
    rfl
  · exact (Option.some.inj h) ▸ rfl

/-- Chunks under a head that does not say so: the response has attachments. -/
lemma unmarked_of_framing {sent : Sent} (h : writeResponse response = some sent)
    (hframing : sent.framing = .chunked) (hmark : chunkedEncoding response.headerGroup = false)
    (hlength : containsHeader response.headerGroup contentLengthName = true) :
    response.Unmarked := by
  obtain ⟨statusLine, hstatus, h⟩ := Option.bind_eq_some_iff.mp h
  dsimp only at h
  split_ifs at h with hbare hplain hbinary hcallback
  · rw [← Option.some.inj h] at hframing
    cases hframing
  · rw [← Option.some.inj h] at hframing
    cases hframing
  · obtain ⟨parts, hparts, -⟩ := Option.map_eq_some_iff.mp h
    refine ⟨by simp [hstatus], hbinary, by simp [hparts], ?_, hmark, hlength⟩
    intro hname
    exact Bool.eq_false_iff.mpr fun hrequired => hcallback ⟨hname, hrequired⟩
  · exact absurd ⟨hmark, Bool.eq_false_iff.mpr hbinary⟩ hplain

/-- Such a response goes out in chunks and keeps its length. -/
lemma SimpleResponse.Unmarked.sent (h : response.Unmarked) :
    ∃ sent, writeResponse response = some sent ∧ sent.Chunked ∧ ¬ sent.NoContentLength := by
  obtain ⟨statusLine, hstatus⟩ := Option.isSome_iff_exists.mp h.started
  obtain ⟨parts, hparts⟩ := Option.isSome_iff_exists.mp h.parts
  have hcallback : ¬ (response.mtomSendingCallbackName = none ∧
      isCallbackRequired (response.mimeParts.getD []) = true) := by
    intro hboth
    rw [h.callback hboth.1] at hboth
    cases hboth.2
  refine ⟨⟨statusLine, response.headerGroup.headers, .chunked⟩, ?_, Or.inl rfl, ?_⟩
  · rw [writeResponse, hstatus, Option.bind_some]
    rw [hparts] at hcallback
    simp only [h.binary, Bool.true_eq_false, and_false, if_false, if_true,
      printedGroup_unmarked h.unmarked, hparts, Option.map_some, if_neg hcallback]
  · intro hnone
    have hlength := h.length
    rw [containsHeader_eq_false_iff.mpr hnone] at hlength
    cases hlength

/-- A response with distinct names that is sent in chunks carries no length, unless its
attachments are sent under a head without the mark. -/
lemma noContentLength_iff (hnames : Distinct foldedName response.headerGroup.headers) :
    (∀ sent, writeResponse response = some sent → sent.Chunked → sent.NoContentLength) ↔
      ¬ response.Unmarked := by
  constructor
  · intro h hunmarked
    obtain ⟨sent, hsent, hchunked, hlength⟩ := hunmarked.sent
    exact hlength (h sent hsent hchunked)
  · intro h sent hsent hchunked
    rw [Sent.NoContentLength, headers_writeResponse hsent]
    cases hmark : chunkedEncoding response.headerGroup with
    | true => exact noContentLength_printedGroup hnames hmark
    | false =>
      have hprinted := headers_writeResponse hsent
      rw [printedGroup_unmarked hmark] at hprinted ⊢
      have hframing : sent.framing = .chunked := by
        rcases hchunked with hframing | hhead
        · exact hframing
        · rw [hprinted] at hhead
          have hsame : chunkedEncoding (some response.headerGroup.headers) =
              chunkedEncoding response.headerGroup := by
            cases response.headerGroup <;> rfl
          rw [hsame, hmark] at hhead
          cases hhead
      rw [← containsHeader_eq_false_iff]
      by_contra hlength
      exact h (unmarked_of_framing hsent hframing hmark (Bool.not_eq_false _ ▸ hlength))

end Responses

section Exchanges

/-- One request and one response with the calls that made their headers, and what else the
response consists of. -/
structure Exchange where
  request : List RequestCall
  response : List ResponseCall
  statusLine : Option Text := none
  stream : Option (List UInt8) := none
  mimeParts : Option (List MimePartType) := none
  mtomSendingCallbackName : Option Text := none

def Exchange.written (x : Exchange) : SimpleResponse :=
  ⟨x.statusLine, responseGroup x.response, x.stream, x.mimeParts, x.mtomSendingCallbackName⟩

/-- The header groups behave as maps without case, after every call of both runs. -/
structure Exchange.Lawful (x : Exchange) : Prop where
  requestRemoved : ∀ calls str rest, x.request = calls ++ .removeHeaders str :: rest →
    Removed str (requestGroup calls) (requestGroup (calls ++ [.removeHeaders str]))
  responseRemoved : ∀ calls str rest, x.response = calls ++ .removeHeaders str :: rest →
    Removed str (responseGroup calls) (responseGroup (calls ++ [.removeHeaders str]))
  responseSet : ∀ calls header rest, x.response = calls ++ .setHeader header :: rest →
    IsSet header (responseGroup (calls ++ [.setHeader header]))
  noContentLength : ∀ sent, writeResponse x.written = some sent → sent.Chunked →
    sent.NoContentLength

lemma removed_requestGroup_iff (calls : List RequestCall) (str : Text) :
    Removed str (requestGroup calls) (requestGroup (calls ++ [.removeHeaders str])) ↔
      (requestGroup calls).headers.countP (isNamed str) ≤ 1 := by
  rw [requestGroup_snoc]
  exact removed_iff (requestGroup calls) str

lemma removed_responseGroup (calls : List ResponseCall) (str : Text) :
    Removed str (responseGroup calls) (responseGroup (calls ++ [.removeHeaders str])) := by
  rw [responseGroup_snoc]
  exact (removed_iff (responseGroup calls) str).mpr
    (Distinct.countP_isNamed_le (distinct_responseGroup calls) str)

lemma isSet_responseGroup (calls : List ResponseCall) (header : HttpHeader) :
    IsSet header (responseGroup (calls ++ [.setHeader header])) := by
  rw [responseGroup_snoc]
  exact isSet_responseSetHeader (distinct_responseGroup calls) header

/-- The response keeps its laws in every run. The request keeps them exactly when no header
is removed whose name it has twice. -/
theorem lawful_iff (x : Exchange) :
    x.Lawful ↔
      (∀ calls str rest, x.request = calls ++ .removeHeaders str :: rest →
        (requestGroup calls).headers.countP (isNamed str) ≤ 1) ∧ ¬ x.written.Unmarked := by
  constructor
  · intro h
    refine ⟨?_, (noContentLength_iff (distinct_responseGroup x.response)).mp h.noContentLength⟩
    intro calls str rest hcalls
    exact (removed_requestGroup_iff calls str).mp (h.requestRemoved calls str rest hcalls)
  · rintro ⟨honce, hunmarked⟩
    refine ⟨?_, ?_, ?_, ?_⟩
    · intro calls str rest hcalls
      exact (removed_requestGroup_iff calls str).mpr (honce calls str rest hcalls)
    · intro calls str rest _
      exact removed_responseGroup calls str
    · intro calls header rest _
      exact isSet_responseGroup calls header
    · exact (noContentLength_iff (distinct_responseGroup x.response)).mpr hunmarked

/-- Two headers of one name were added, and the removal leaves the second. -/
def twoOfOneName : Exchange where
  request := [.addHeader ⟨['A'], ['1']⟩, .addHeader ⟨['a'], ['2']⟩, .removeHeaders ['A']]
  response := []

theorem twoOfOneName_not_lawful : ¬ twoOfOneName.Lawful := by
  intro h
  have hremoved := h.requestRemoved
    [.addHeader ⟨['A'], ['1']⟩, .addHeader ⟨['a'], ['2']⟩] ['A'] [] rfl
  exact absurd hremoved.absent (by decide)

end Exchanges

end Axis2C.HttpHeaders
