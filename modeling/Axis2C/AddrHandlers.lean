import Mathlib.Data.List.Basic

/-!
# The addressing handlers

The in handler reads the blocks of a SOAP header into the message information headers, in the order
in which the hash table of the header enumerates them. The out handler writes such blocks.
-/
namespace Axis2C.Addr

/-! ### Elements -/

structure Namespace where
  uri : String
  pref : Option String
  deriving Repr, DecidableEq

structure Attribute where
  localname : String
  ns : Option Namespace
  value : String
  deriving Repr, DecidableEq

inductive Node
  | text (value : String)
  | element (localname : String) (ns : Option Namespace) (attributes : List Attribute)
      (children : List Node)
  deriving Repr

structure Element where
  localname : String
  ns : Option Namespace
  attributes : List Attribute
  children : List Node
  deriving Repr

def Element.node (e : Element) : Node := .element e.localname e.ns e.attributes e.children

/-- The key of an attribute in the hash table of its element, `axutil_qname_to_string`. -/
structure Key where
  localname : String
  uri : Option String
  pref : Option String
  deriving Repr, DecidableEq

def qnameToString (localname : String) (uri pref : Option String) : Key :=
  if uri.getD "" = "" then ⟨localname, none, none⟩
  else if pref.getD "" = "" then ⟨localname, uri, none⟩
  else ⟨localname, uri, pref⟩

def Attribute.key (a : Attribute) : Key :=
  qnameToString a.localname (a.ns.map Namespace.uri) (a.ns.bind Namespace.pref)

/-- `axiom_element_get_attribute`. -/
def getAttribute (e : Element) (key : Key) : Option Attribute :=
  e.attributes.find? fun a => a.key = key

/-- `axiom_element_add_attribute`. -/
def addAttribute (e : Element) (a : Attribute) : Element :=
  { e with attributes := e.attributes.filter (fun b => b.key ≠ a.key) ++ [a] }

/-- `axiom_element_get_child_elements`. -/
def childElements (e : Element) : List Element :=
  e.children.filterMap fun
    | .text _ => none
    | .element localname ns attributes children => some ⟨localname, ns, attributes, children⟩

/-- One turn of the loop in `axiom_element_get_text`. -/
def appendText (dest : Option String) : Node → Option String
  | .element .. => dest
  | .text value =>
    if value = "" then dest
    else
      match dest with
      | some dest => some (dest ++ value)
      | none => some value

/-- `axiom_element_get_text`: nothing when there is no text. -/
def getText (e : Element) : Option String := e.children.foldl appendText none

def Node.isText : Node → Bool
  | .text _ => true
  | .element .. => false

/-- `axiom_element_set_text`: nothing is done for a NULL text. -/
def setText (e : Element) (text : Option String) : Element :=
  match text with
  | none => e
  | some text => { e with children := e.children.filter (!·.isText) ++ [.text text] }

def addChild (e child : Element) : Element := { e with children := e.children ++ [child.node] }

def Element.inNs (e : Element) (uri : String) : Bool := e.ns.map Namespace.uri = some uri

/-! ### SOAP headers -/

inductive SoapVersion
  | notSet | soap11 | soap12
  deriving Repr, DecidableEq

def soap11EnvelopeNamespaceUri : String := "http://schemas.xmlsoap.org/soap/envelope/"

def soap12EnvelopeNamespaceUri : String := "http://www.w3.org/2003/05/soap-envelope"

def soap12RoleNone : String := "http://www.w3.org/2003/05/soap-envelope/role/none"

/-- The header element has the namespace `ns`; the blocks stand in the order of the hash table. -/
structure SoapHeader where
  soapVersion : SoapVersion
  ns : Option Namespace
  blocks : List Element
  deriving Repr

/-- `axiom_soap_header_block_get_attribute`: the prefix is that of the header element. -/
def blockGetAttribute (h : SoapHeader) (block : Element) (name uri : String) : Option String :=
  h.ns.bind fun ns => (getAttribute block (qnameToString name (some uri) ns.pref)).map (·.value)

/-- `axiom_soap_header_block_get_role`. -/
def getRole (h : SoapHeader) (block : Element) : Option String :=
  match h.soapVersion with
  | .notSet => none
  | .soap11 => blockGetAttribute h block "actor" soap11EnvelopeNamespaceUri
  | .soap12 => blockGetAttribute h block "role" soap12EnvelopeNamespaceUri

/-- `axiom_soap_header_get_header_blocks_with_namespace_uri`: NULL when there is none. -/
def blocksWithNamespaceUri (h : SoapHeader) (uri : String) : Option (List Element) :=
  match h.blocks.filter (·.inNs uri) with
  | [] => none
  | block :: blocks => some (block :: blocks)

/-! ### Message information headers -/

structure EndpointRef where
  address : Option String
  interfaceQname : Option (String × String)
  refParams : List Element
  metadata : List Element
  refAttributes : List Attribute
  metaAttributes : List Attribute
  extensions : List Element
  deriving Repr

/-- `axis2_endpoint_ref_create`. -/
def endpointRefCreate (address : Option String) : EndpointRef :=
  ⟨address, none, [], [], [], [], []⟩

structure RelatesTo where
  value : Option String
  relationshipType : Option String
  deriving Repr, DecidableEq

structure MsgInfoHeaders where
  to_ : Option EndpointRef
  from_ : Option EndpointRef
  relatesTo : Option RelatesTo
  replyTo : Option EndpointRef
  replyToNone : Bool
  replyToAnonymous : Bool
  faultTo : Option EndpointRef
  faultToNone : Bool
  faultToAnonymous : Bool
  action : Option String
  messageId : Option String
  refParams : List Element
  deriving Repr

/-- `axis2_msg_info_headers_create` with neither a To nor an action. -/
def msgInfoHeadersCreate : MsgInfoHeaders :=
  ⟨none, none, none, none, false, false, none, false, false, none, none, []⟩

def wsaNamespaceSubmission : String := "http://schemas.xmlsoap.org/ws/2004/08/addressing"

def wsaNamespace : String := "http://www.w3.org/2005/08/addressing"

def wsaDefaultPrefix : String := "wsa"

def isReferenceParameter : String := "IsReferenceParameter"

def relationshipTypeName : String := "RelationshipType"

def relationshipTypeDefaultSubmission : String := "wsa:Reply"

def relationshipTypeDefault : String := "http://www.w3.org/2005/08/addressing/reply"

/-! ### The in handler -/

/-- The headers that the loop over the blocks tells apart. -/
inductive Kind
  | to_ | from_ | replyTo | faultTo | messageId | action | relatesTo
  deriving Repr, DecidableEq

def Kind.localname : Kind → String
  | .to_ => "To"
  | .from_ => "From"
  | .replyTo => "ReplyTo"
  | .faultTo => "FaultTo"
  | .messageId => "MessageID"
  | .action => "Action"
  | .relatesTo => "RelatesTo"

/-- The chain of comparisons with the local name of a block. -/
def kindOf (localname : String) : Option Kind :=
  if localname = Kind.to_.localname then some .to_
  else if localname = Kind.from_.localname then some .from_
  else if localname = Kind.replyTo.localname then some .replyTo
  else if localname = Kind.faultTo.localname then some .faultTo
  else if localname = Kind.messageId.localname then some .messageId
  else if localname = Kind.action.localname then some .action
  else if localname = Kind.relatesTo.localname then some .relatesTo
  else none

structure Qname where
  localpart : String
  uri : Option String
  deriving Repr, DecidableEq

def Element.qname (e : Element) : Qname := ⟨e.localname, e.ns.map Namespace.uri⟩

/-- `axis2_addr_in_check_element`: what it calls the URIs are the local parts again. -/
def checkElement (expected actual : Qname) : Bool :=
  let expQnLpart := expected.localpart
  let actQnLpart := actual.localpart
  let expQnNsuri := expected.localpart
  let actQnNsuri := actual.localpart
  expQnLpart = actQnLpart && expQnNsuri = actQnNsuri

def eprAddress : String := "Address"

def eprReferenceParameters : String := "ReferenceParameters"

/-- One turn of the loop in `axis2_addr_in_extract_epr_information`. -/
def extractChild (addrNs : String) (epr : EndpointRef) (child : Element) : EndpointRef :=
  if checkElement ⟨eprAddress, some addrNs⟩ child.qname then { epr with address := getText child }
  else if checkElement ⟨eprReferenceParameters, some addrNs⟩ child.qname then
    { epr with refParams := epr.refParams ++ childElements child }
  else epr

/-- `axis2_addr_in_extract_epr_information`. -/
def extractEprInformation (block : Element) (epr : EndpointRef) (addrNs : String) : EndpointRef :=
  (childElements block).foldl (extractChild addrNs) epr

def markOf (addrNs : String) (block : Element) : Option Attribute :=
  getAttribute block (qnameToString isReferenceParameter (some addrNs) none)

/-- `axis2_addr_in_extract_to_epr_ref_params`: the local name of the marking attribute is compared
with `true`. -/
def extractToEprRefParams (epr : EndpointRef) (h : SoapHeader) (addrNs : String) : EndpointRef :=
  { epr with refParams := epr.refParams ++
      h.blocks.filter fun block => (markOf addrNs block).map (·.localname) = some "true" }

/-- `axis2_addr_in_extract_ref_params`. -/
def extractRefParams (h : SoapHeader) (headers : MsgInfoHeaders) : MsgInfoHeaders :=
  { headers with refParams := headers.refParams ++
      h.blocks.filter fun block => (markOf wsaNamespace block).map (·.value) = some "true" }

/-- The variables of `axis2_addr_in_extract_addr_params`, and the header that the fault envelope of
the message context names. -/
structure Extraction where
  headers : MsgInfoHeaders
  success : Bool
  toFound : Bool
  replyToFound : Bool
  faultToFound : Bool
  actionFound : Bool
  msgIdFound : Bool
  fault : Option String
  deriving Repr

def Extraction.start (headers : MsgInfoHeaders) : Extraction :=
  ⟨headers, true, false, false, false, false, false, none⟩

/-- `axis2_addr_in_create_fault_envelope`, and the status that goes with it. -/
def Extraction.refuse (s : Extraction) (kind : Kind) : Extraction :=
  { s with success := false, fault := some (wsaDefaultPrefix ++ ":" ++ kind.localname) }

/-- The RelatesTo that a block says: the default is that of the submission. -/
def readRelatesTo (block : Element) : RelatesTo :=
  match getAttribute block (qnameToString relationshipTypeName none none) with
  | none => ⟨getText block, some relationshipTypeDefaultSubmission⟩
  | some a => ⟨getText block, some a.value⟩

def extractBlock (h : SoapHeader) (addrNs : String) (s : Extraction) (block : Element) :
    Extraction × Bool :=
  if getRole h block = some soap12RoleNone then (s, false)
  else
    match kindOf block.localname with
    | some .to_ =>
      let epr := endpointRefCreate (getText block)
      if s.toFound then (s.refuse .to_, false)
      else
        ({ s with
            headers := { s.headers with to_ := some (extractToEprRefParams epr h addrNs) }
            toFound := true }, true)
    | some .from_ =>
      let epr := s.headers.from_.getD (endpointRefCreate (some ""))
      ({ s with headers :=
          { s.headers with from_ := some (extractEprInformation block epr addrNs) } }, true)
    | some .replyTo =>
      if s.replyToFound then (s.refuse .replyTo, false)
      else
        let epr := s.headers.replyTo.getD (endpointRefCreate (some ""))
        ({ s with
            headers := { s.headers with
              replyTo := some (extractEprInformation block epr addrNs) }
            replyToFound := true }, true)
    | some .faultTo =>
      if s.faultToFound then
        ({ s.refuse .faultTo with headers := { s.headers with faultTo := none } }, false)
      else
        let epr := s.headers.faultTo.getD (endpointRefCreate (some ""))
        ({ s with
            headers := { s.headers with
              faultTo := some (extractEprInformation block epr addrNs) }
            faultToFound := true }, true)
    | some .messageId =>
      if s.msgIdFound then (s.refuse .messageId, false)
      else
        ({ s with
            headers := { s.headers with messageId := getText block }
            msgIdFound := true }, true)
    | some .action =>
      if s.actionFound then (s.refuse .action, false)
      else
        ({ s with
            headers := { s.headers with action := getText block }
            actionFound := true }, true)
    | some .relatesTo =>
      ({ s with headers := { s.headers with relatesTo := some (readRelatesTo block) } }, true)
    | none => (s, false)

def extractBlocks (h : SoapHeader) (addrNs : String) :
    Extraction → List Element → Extraction × List Bool
  | s, [] => (s, [])
  | s, block :: blocks =>
    let r := extractBlock h addrNs s block
    let rest := extractBlocks h addrNs r.1 blocks
    (rest.1, r.2 :: rest.2)

/-- `axis2_addr_in_extract_addr_params`. -/
def extractAddrParams (h : SoapHeader) (headers : MsgInfoHeaders) (addrNs : String) :
    Extraction × List Bool :=
  -- without a block there is no hash table
  if h.blocks.isEmpty then ({ Extraction.start headers with success := false }, [])
  else
    let r := extractBlocks h addrNs (.start headers) h.blocks
    if r.1.actionFound then r else (r.1.refuse .action, r.2)

/-- The namespace that `axis2_addr_in_handler_invoke` takes the headers to be in. -/
def selectNamespace (h : SoapHeader) : Option String :=
  if (blocksWithNamespaceUri h wsaNamespaceSubmission).isSome then some wsaNamespaceSubmission
  else if (blocksWithNamespaceUri h wsaNamespace).isSome then some wsaNamespace
  else none

/-- `axis2_addr_in_handler_invoke`: the status and the message information headers. -/
def addrInHandlerInvoke (h : SoapHeader) (headers : MsgInfoHeaders) : Bool × MsgInfoHeaders :=
  match selectNamespace h with
  | none => (true, headers)
  | some addrNs =>
    let r := (extractAddrParams h headers addrNs).1
    (r.success, if addrNs = wsaNamespace then extractRefParams h r.headers else r.headers)

/-! ### The out handler -/

def wsaAnonymousUrlSubmission : String :=
  "http://schemas.xmlsoap.org/ws/2004/08/addressing/role/anonymous"

def wsaNoneUrlSubmission : String :=
  "http://schemas.xmlsoap.org/ws/2004/08/addressing/role/none"

def wsaAnonymousUrl : String := "http://www.w3.org/2005/08/addressing/anonymous"

def wsaNoneUrl : String := "http://www.w3.org/2005/08/addressing/none"

/-- The addressing versions set on the message context and, if its operation has one, on the
context of the message that came in. -/
structure OutContext where
  version : Option String
  inMsgVersion : Option (Option String)
  deriving Repr

/-- The namespace that the headers are written in. -/
def OutContext.addrNs (ctx : OutContext) : String :=
  match ctx.version with
  | some version => if version = wsaNamespaceSubmission then wsaNamespaceSubmission else wsaNamespace
  | none =>
    match ctx.inMsgVersion with
    | some (some version) => if version = "" then wsaNamespace else version
    | _ => wsaNamespace

def wsaNs (addrNs : String) : Namespace := ⟨addrNs, some wsaDefaultPrefix⟩

def wsaElement (addrNs localname : String) : Element := ⟨localname, some (wsaNs addrNs), [], []⟩

/-- `axis2_addr_out_handler_process_string_info`: no block for an empty value. -/
def processStringInfo (value : Option String) (kind : Kind) (addrNs : String) : Option Element :=
  match value with
  | none => none
  | some value =>
    if value = "" then none else some (setText (wsaElement addrNs kind.localname) (some value))

/-- `axis2_addr_out_handler_add_to_header`. -/
def addToHeader (epr : EndpointRef) (parent : Element) (addrNs : String) : Element :=
  match epr.interfaceQname with
  | none => parent
  | some (pref, localpart) =>
    let localname := if addrNs = wsaNamespaceSubmission then "PortType" else "InterfaceName"
    addChild parent (setText (wsaElement addrNs localname) (some (pref ++ ":" ++ localpart)))

/-- An element of the addressing namespace with the given attributes around the given ones, unless
there are none. -/
def addGroup (parent : Element) (addrNs localname : String) (attributes : List Attribute)
    (elements : List Element) : Element :=
  if elements.isEmpty then parent
  else
    let group := attributes.foldl addAttribute (wsaElement addrNs localname)
    addChild parent (elements.foldl addChild group)

/-- `axis2_addr_out_handler_add_to_soap_header`: the block for an endpoint. -/
def addToSoapHeader (epr : EndpointRef) (kind : Kind) (addrNs : String) : Element :=
  let block := wsaElement addrNs kind.localname
  let block :=
    if epr.address.getD "" = "" then block
    else addChild block (setText (wsaElement addrNs eprAddress) epr.address)
  let block := addToHeader epr block addrNs
  let block := addGroup block addrNs eprReferenceParameters epr.refAttributes epr.refParams
  let block := addGroup block addrNs "Metadata" epr.metaAttributes epr.metadata
  epr.extensions.foldl addChild block

/-- A reference parameter of the To endpoint as a block. Without a namespace the block is a NULL
pointer that is read. -/
def referenceBlock (addrNs : String) (param : Element) : Option Element :=
  match param.ns with
  | none => none
  | some ns =>
    let block : Element := ⟨param.localname, some ns, [], []⟩
    let block := addAttribute block ⟨isReferenceParameter, some (wsaNs addrNs), "true"⟩
    some (setText block (getText param))

def redirectFault (hasFault : Bool) (headers : MsgInfoHeaders) (epr : EndpointRef) : EndpointRef :=
  match headers.faultTo.bind EndpointRef.address with
  | none => epr
  | some address =>
    if hasFault ∧ address ≠ wsaNoneUrl ∧ address ≠ wsaNoneUrlSubmission then
      { epr with address := some address }
    else epr

def toBlocks (epr : EndpointRef) (addrNs : String) : Option (List Element) :=
  if epr.address.getD "" = "" then some []
  else do
    let params ← epr.refParams.mapM (referenceBlock addrNs)
    return setText (wsaElement addrNs Kind.to_.localname) epr.address :: params

/-- The endpoint that stands for one that is none or anonymous. -/
def markedEndpoint (addrNs : String) (isNone anonymous : Bool) : Option EndpointRef :=
  let submission : Bool := addrNs = wsaNamespaceSubmission
  if isNone then
    some (endpointRefCreate (some (if submission then wsaNoneUrlSubmission else wsaNoneUrl)))
  else if anonymous then
    some (endpointRefCreate
      (some (if submission then wsaAnonymousUrlSubmission else wsaAnonymousUrl)))
  else none

/-- The block for a RelatesTo: whatever its type is, the attribute says the default one. -/
def relatesToBlock (relatesTo : RelatesTo) (addrNs : String) : Option Element := do
  let block ← processStringInfo relatesTo.value .relatesTo addrNs
  if relatesTo.relationshipType.getD "" = "" then return block
  else
    let value := if addrNs = wsaNamespaceSubmission then relationshipTypeDefaultSubmission
      else relationshipTypeDefault
    return addAttribute block ⟨relationshipTypeName, some (wsaNs addrNs), value⟩

/-- `axis2_addr_out_handler_invoke`: the header with the blocks it adds. There is no header when a
NULL pointer is read. -/
def addrOutHandlerInvoke (ctx : OutContext) (hasFault : Bool) (headers : MsgInfoHeaders)
    (h : SoapHeader) : Option SoapHeader :=
  if headers.action.getD "" = "" then some h
  else do
    let addrNs := ctx.addrNs
    let to_ ←
      match headers.to_ with
      | none => some []
      | some epr => toBlocks (redirectFault hasFault headers epr) addrNs
    let replyTo := headers.replyTo.or
      (markedEndpoint addrNs headers.replyToNone headers.replyToAnonymous)
    let faultTo := headers.faultTo.or
      (markedEndpoint addrNs headers.faultToNone headers.faultToAnonymous)
    return { h with blocks := h.blocks ++ to_ ++
      (processStringInfo headers.action .action addrNs).toList ++
      (replyTo.map fun epr => addToSoapHeader epr .replyTo addrNs).toList ++
      (headers.from_.map fun epr => addToSoapHeader epr .from_ addrNs).toList ++
      (faultTo.map fun epr => addToSoapHeader epr .faultTo addrNs).toList ++
      (processStringInfo headers.messageId .messageId addrNs).toList ++
      (headers.relatesTo.bind fun relatesTo => relatesToBlock relatesTo addrNs).toList }

end Axis2C.Addr
