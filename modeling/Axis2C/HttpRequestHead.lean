import Axis2C.HttpRequestReader

/-!
# The request that the client writes

`axis2_http_client_send` without a proxy, for a body that is neither chunked nor MTOM.
-/
namespace Axis2C.HttpRead

section Model

/-- `axis2_http_request_line_to_string`. -/
def requestLineToString (r : RequestLine) : Text :=
  if r.uri.head? ≠ some '/' then r.method ++ ' ' :: '/' :: r.uri ++ ' ' :: r.httpVersion ++ crlf
  else r.method ++ ' ' :: r.uri ++ ' ' :: r.httpVersion ++ crlf

/-- `axis2_http_header_to_external_form`. -/
def httpHeaderToExternalForm (h : HttpHeader) : Text := h.name ++ ':' :: ' ' :: h.value ++ crlf

def wireFormat (request : SimpleRequest) (body : Text) : Text :=
  requestLineToString request.requestLine ++
    request.headers.flatMap httpHeaderToExternalForm ++ crlf ++ body

end Model

section Sent

/-- The request line with a slash in front of the URI. -/
def Start.slashed (start : Start) : Start :=
  if start.uri.head? = some '/' then start
  else { start with uri := '/' :: start.uri, uriCr := by simp [start.uriCr] }

/-- The header line with a space in front of the value. -/
def Field.spaced (f : Field) : Field :=
  { f with value := ' ' :: f.value, valueCr := by simp [f.valueCr] }

def clientRequest (start : Start) (fields : List Field) : SimpleRequest :=
  ⟨start.requestLine, fields.map fun f => ⟨f.name, f.value⟩⟩

lemma headerText_spaced (fields : List Field) (body : Text) :
    headerText (fields.map Field.spaced) body =
      (fields.map fun f => HttpHeader.mk f.name f.value).flatMap httpHeaderToExternalForm ++
        crlf ++ body := by
  induction fields with
  | nil => rfl
  | cons f fields ih =>
    simp [headerText, ih, httpHeaderToExternalForm, Field.spaced, Field.line]

lemma wireFormat_eq (start : Start) (fields : List Field) (body : Text) :
    wireFormat (clientRequest start fields) body =
      requestText start.slashed (fields.map Field.spaced) body := by
  have hline : requestLineToString start.requestLine = start.slashed.line ++ crlf := by
    unfold requestLineToString Start.slashed Start.requestLine
    by_cases h : start.uri.head? = some '/' <;> simp [h, Start.line]
  simp [wireFormat, clientRequest, hline, requestText, headerText_spaced]

end Sent

/-- The server reads the request line and the headers that the client has, unless a look cuts
the end of a line. -/
theorem client_request_is_read (s : Schedule) (start : Start) (fields : List Field) (body : Text)
    (n : ℕ) {next : ℕ}
    (hlines : LinesRead s 0
      (start.slashed.line.length :: fields.map (·.spaced.line.length)) next)
    (hbody : body = [] ∨ 2 ≤ s.seen next) :
    readRequest s ((wireFormat (clientRequest start fields) body).length + 2 + n)
        (wireFormat (clientRequest start fields) body) =
      some (some ⟨start.slashed.requestLine, fields.map Field.header⟩, body) := by
  have hheaders : (fields.map Field.spaced).map Field.header = fields.map Field.header := by
    simp [Field.spaced, Field.header]
  rw [wireFormat_eq, ← hheaders]
  cases hlines with
  | cons hline hlast =>
    refine (readRequest_of_lineRead hline (by omega)).mpr ⟨next, ?_, hbody⟩
    rw [List.map_map]
    exact hlast

theorem client_request_is_read_root :
    readRequest (fun _ => ⟨2047, 0⟩)
        ((wireFormat (clientRequest getRoot [headerA]) ['x']).length + 2 + 0)
        (wireFormat (clientRequest getRoot [headerA]) ['x']) =
      some (some ⟨getRoot.slashed.requestLine, [headerA].map Field.header⟩, ['x']) :=
  client_request_is_read _ _ _ _ 0
    (.cons (.whole (by decide)) (.cons (.whole (by decide)) .nil)) (.inr (by decide))

end Axis2C.HttpRead
