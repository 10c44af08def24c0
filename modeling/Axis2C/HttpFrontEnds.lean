import Axis2C.FirstOccurrence

/-!
# The two HTTP front ends

What a GET, HEAD or DELETE request is answered with when the engine did not process
it: `axis2_http_worker_process_request` of the simple server and
`axis2_http_transport_utils_process_request` of the embedded servers. Only the status
codes are kept, not the bodies and headers. The worker looks at the URL that it makes
from the request line; the embedded servers pass the absolute URI, as the IIS worker
puts it together.
-/
namespace Axis2C.HttpServer
open FirstOccurrence

abbrev Text := List Char

inductive HttpMethod
  | get
  | head
  | delete
  deriving DecidableEq, Repr

/-- What dispatching leaves: the number in `env->error`, and of the message context its
status code and the list of supported REST methods. -/
structure Dispatched where
  errorNumber : ℕ
  statusCode : ℤ
  supportedRestHttpMethods : Option (List String)
  deriving DecidableEq, Repr

section Urls

structure Url where
  protocol : Text
  host : Option Text
  port : ℕ
  path : Option Text
  query : Option Text
  deriving DecidableEq, Repr

/-- A path with a slash in front. -/
def rooted (path : Text) : Text := if path.head? = some '/' then path else '/' :: path

/-- Where the query begins: at the first question mark, else at the first hash. -/
def queryPart (path : Text) : Option Text :=
  match search ['?'] path with
  | some query => some query
  | none => search ['#'] path

/-- `axutil_url_create`. -/
def urlCreate (protocol : Text) (host : Option Text) (port : ℕ) (path : Option Text) :
    Option Url :=
  if protocol = [] ∨ (search "://".toList protocol).isSome ∨
      (host.bind (search ['/'])).isSome then none
  else
    some
      { protocol := protocol
        host := host
        port := if host.isSome then port else 0
        path := path.map fun path =>
          match queryPart (rooted path) with
          | some query => upTo (rooted path) query
          | none => rooted path
        query := path.bind fun path => queryPart (rooted path) }

/-- `axutil_uri_port_of_scheme` on the protocols of HTTP. -/
def portOfScheme (scheme : Text) : ℕ :=
  if scheme = "http".toList then 80 else if scheme = "https".toList then 443 else 0

def formatPort (port : ℕ) : Text := Nat.toDigits 10 port

/-- `axutil_url_to_external_form`. -/
def urlToExternalForm (url : Url) : Text :=
  let printPort := url.port ≠ 0 ∧ url.port ≠ portOfScheme url.protocol
  url.protocol ++ "://".toList ++ url.host.getD [] ++
    (if printPort then ':' :: formatPort url.port else []) ++ url.path.getD [] ++
    url.query.getD []

end Urls

section Status

/-- `AXIS2_ERROR_SVC_OR_OP_NOT_FOUND`. -/
def svcOrOpNotFound : ℕ := 100

/-- `AXIS2_REQUEST_URL_PREFIX`. -/
def requestUrlPrefix : Text := "/services".toList

/-- `AXIS2_REQUEST_WSDL`. -/
def requestWsdl : Text := "?wsdl".toList

/-- Nothing but a slash stands behind the first occurrence of the prefix. -/
def isServicesPath (urlPrefix text : Text) : Bool :=
  match search urlPrefix text with
  | none => false
  | some temp =>
    let temp := temp.drop urlPrefix.length
    let temp := if temp.head? = some '/' then temp.tail else temp
    temp.head? = none || temp.head? = some '?' || temp.head? = some '#'

/-- The tests from the missing service or operation on. Both functions make them in
this order. -/
def failureStatus (d : Dispatched) : ℕ :=
  if d.errorNumber = svcOrOpNotFound then
    if (d.supportedRestHttpMethods.getD []).length ≠ 0 then 405 else 404
  else if d.statusCode = 400 then 400
  else if d.statusCode = 408 then 408
  else if d.statusCode = 409 then 409
  else if d.statusCode = 410 then 410
  else if d.statusCode = 412 then 412
  else if d.statusCode = 413 then 413
  else if d.statusCode = 503 then 503
  else 500

/-- The status line of `axis2_http_worker_process_request`. -/
def workerStatus (svrIp : Option Text) (svrPort : ℕ) (method : HttpMethod) (uri : Text)
    (d : Dispatched) : ℕ :=
  match urlCreate "http".toList svrIp svrPort (some uri) with
  | none => 400
  | some url =>
    if method ≠ .delete ∧ isServicesPath requestUrlPrefix (url.path.getD []) then 200
    else if method ≠ .delete ∧ (search requestWsdl (urlToExternalForm url)).isSome then 200
    else failureStatus d

/-- `response->http_status_code` after `axis2_http_transport_utils_process_request`; it
is 0 from `axis2_http_transport_utils_transport_out_init`. -/
def processRequestStatus (urlPrefix : Option Text) (method : HttpMethod) (requestUri : Text)
    (d : Dispatched) : ℕ :=
  if method ≠ .delete ∧ urlPrefix.any (isServicesPath · requestUri) then 200
  else if method ≠ .delete then
    if (search requestWsdl requestUri).isSome then 200 else 0
  else failureStatus d

end Status

/-- Where a server is reached. The host is a name or an IP address. -/
structure Address where
  host : Text
  port : ℕ
  slash : '/' ∉ host
  question : '?' ∉ host

/-- `request_uri` of the embedded servers. -/
def requestUri (a : Address) (uri : Text) : Text :=
  "http://".toList ++ a.host ++ ':' :: formatPort a.port ++ uri

section Results

variable (a : Address) (method : HttpMethod) (uri : Text) (d : Dispatched)

/-- The path of the URL in the worker. -/
def pathOf (uri : Text) : Text :=
  match queryPart (rooted uri) with
  | some query => upTo (rooted uri) query
  | none => rooted uri

/-- Both front ends give the same code, it is some code, and a service or an operation
that was not found is answered with 405 or 404, unless the request is one for the list
of services or for a WSDL. -/
structure SameAnswer : Prop where
  same : processRequestStatus (some requestUrlPrefix) method (requestUri a uri) d =
    workerStatus (some a.host) a.port method uri d
  answered : processRequestStatus (some requestUrlPrefix) method (requestUri a uri) d ≠ 0
  missing : d.errorNumber = svcOrOpNotFound →
    ¬ (method ≠ .delete ∧ (isServicesPath requestUrlPrefix (pathOf uri) ∨ requestWsdl <:+: uri)) →
    processRequestStatus (some requestUrlPrefix) method (requestUri a uri) d =
      if (d.supportedRestHttpMethods.getD []).length ≠ 0 then 405 else 404

variable {a method uri d}

/-- A match that begins with a character is not found in front of its first occurrence. -/
lemma infix_behind {c : Char} {needle front text : Text} (hc : c ∉ front) :
    c :: needle <:+: front ++ text ↔ c :: needle <:+: text := by
  constructor
  · intro h
    induction front with
    | nil => exact h
    | cons x front ih =>
      simp only [List.mem_cons, not_or] at hc
      rw [List.cons_append, List.infix_cons_iff, List.cons_prefix_cons] at h
      obtain ⟨rfl, -⟩ | h := h
      · exact (hc.1 rfl).elim
      · exact ih hc.2 h
  · exact fun h => h.trans (List.suffix_append front text).isInfix

lemma question_formatPort (port : ℕ) : '?' ∉ formatPort port := by
  intro h
  have hdigit := Nat.isDigit_of_mem_toDigits (by decide) (by decide) h
  exact absurd hdigit (by decide)

lemma wsdl_rooted : requestWsdl <:+: rooted uri ↔ requestWsdl <:+: uri := by
  unfold rooted
  split
  · rfl
  · exact @infix_behind '?' "wsdl".toList ['/'] uri (by decide)

lemma path_query (uri : Text) : pathOf uri ++ (queryPart (rooted uri)).getD [] = rooted uri := by
  have hsplit {query : Text} (h : search ['?'] (rooted uri) = some query ∨
      search ['#'] (rooted uri) = some query) : upTo (rooted uri) query ++ query = rooted uri := by
    obtain h | h := h
    all_goals
      obtain ⟨front, hfront, -⟩ := search_eq_some h
      rw [hfront, upTo_append]
  unfold pathOf
  cases hquery : queryPart (rooted uri) with
  | none => simp
  | some query =>
    unfold queryPart at hquery
    split at hquery
    · rename_i found hfound
      obtain rfl := Option.some.inj hquery
      exact hsplit (.inl hfound)
    · exact hsplit (.inr hquery)

lemma urlCreate_http (a : Address) (uri : Text) :
    urlCreate "http".toList (some a.host) a.port (some uri) =
      some ⟨"http".toList, some a.host, a.port, some (pathOf uri), queryPart (rooted uri)⟩ := by
  have hslash : search ['/'] a.host = none := search_singleton_none a.slash
  have hmark : search "://".toList "http".toList = none := by decide
  unfold urlCreate
  rw [if_neg]
  · simp [pathOf]
  · rw [hmark, Option.bind_some, hslash]
    decide

lemma wsdl_externalForm (a : Address) (uri : Text) :
    (search requestWsdl (urlToExternalForm
      ⟨"http".toList, some a.host, a.port, some (pathOf uri), queryPart (rooted uri)⟩)).isSome ↔
      requestWsdl <:+: uri := by
  rw [Option.isSome_iff_ne_none, ne_eq, search_eq_none_iff, not_not, ← @wsdl_rooted uri]
  simp only [urlToExternalForm, Option.getD_some]
  rw [List.append_assoc _ (pathOf uri), path_query]
  refine infix_behind ?_
  rw [List.mem_append, List.mem_append, not_or, not_or]
  refine ⟨⟨by decide, a.question⟩, ?_⟩
  split
  · rw [List.mem_cons, not_or]
    exact ⟨by decide, question_formatPort _⟩
  · simp

lemma wsdl_requestUri (a : Address) (uri : Text) :
    (search requestWsdl (requestUri a uri)).isSome ↔ requestWsdl <:+: uri := by
  rw [Option.isSome_iff_ne_none, ne_eq, search_eq_none_iff, not_not]
  refine infix_behind ?_
  rw [List.mem_append, List.mem_append, List.mem_cons, not_or, not_or, not_or]
  exact ⟨⟨by decide, a.question⟩, by decide, question_formatPort _⟩

/-- No failure is reported as success, and none is left without a code. -/
lemma failureStatus_ne (d : Dispatched) : failureStatus d ≠ 200 ∧ failureStatus d ≠ 0 := by
  unfold failureStatus
  split_ifs <;> decide

lemma workerStatus_eq (a : Address) (method : HttpMethod) (uri : Text) (d : Dispatched) :
    workerStatus (some a.host) a.port method uri d =
      if method ≠ .delete ∧ (isServicesPath requestUrlPrefix (pathOf uri) ∨ requestWsdl <:+: uri)
      then 200 else failureStatus d := by
  unfold workerStatus
  rw [urlCreate_http]
  simp only [Option.getD_some, wsdl_externalForm]
  by_cases hm : method = .delete
  · simp [hm]
  · by_cases hs : isServicesPath requestUrlPrefix (pathOf uri) = true <;> simp [hm, hs]

end Results

end Axis2C.HttpServer
