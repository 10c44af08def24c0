import Axis2C.AddrInHeaders
import Mathlib.Tactic

/-!
# Addressing headers that are written and read back

The in handler finds each block that the out handler writes once, whatever the order of the hash
table. Two things do not come back: the marks on the reference parameters of the To endpoint, which
the in handler looks for without a prefix and by their local name, and the relationship type, which
is written as a qualified attribute with a fixed value and read as an unqualified one.
-/
namespace Axis2C.Addr

/-! ### What is read of elements that were made -/

section Elements

lemma getText_setText {e : Element} {text : Option String} (hchildren : e.children = [])
    (htext : text.getD "" ≠ "") : getText (setText e text) = text := by
  cases text with
  | none => exact absurd rfl htext
  | some text =>
    have hne : text ≠ "" := htext
    simp [getText, setText, hchildren, appendText, hne]

@[simp] lemma setText_localname (e : Element) (text : Option String) :
    (setText e text).localname = e.localname := by
  cases text <;> rfl

@[simp] lemma setText_attributes (e : Element) (text : Option String) :
    (setText e text).attributes = e.attributes := by
  cases text <;> rfl

@[simp] lemma addAttribute_localname (e : Element) (a : Attribute) :
    (addAttribute e a).localname = e.localname := rfl

@[simp] lemma addChild_localname (e child : Element) : (addChild e child).localname = e.localname :=
  rfl

@[simp] lemma addChild_attributes (e child : Element) :
    (addChild e child).attributes = e.attributes := rfl

@[simp] lemma childElements_addChild (e child : Element) :
    childElements (addChild e child) = childElements e ++ [child] := by
  simp [childElements, addChild, Element.node]

lemma childElements_foldl_addChild (e : Element) (children : List Element) :
    childElements (children.foldl addChild e) = childElements e ++ children := by
  induction children generalizing e with
  | nil => simp
  | cons child children ih => simp [ih]

lemma foldl_addChild_localname (e : Element) (children : List Element) :
    (children.foldl addChild e).localname = e.localname := by
  induction children generalizing e with
  | nil => rfl
  | cons child children ih => exact ih _

@[simp] lemma wsaElement_children (addrNs localname : String) :
    (wsaElement addrNs localname).children = [] := rfl

@[simp] lemma childElements_wsaElement (addrNs localname : String) :
    childElements (wsaElement addrNs localname) = [] := rfl

/-- An endpoint with an address and reference parameters only. -/
structure EndpointRef.Plain (epr : EndpointRef) : Prop where
  address : epr.address.getD "" ≠ ""
  interfaceQname : epr.interfaceQname = none
  refAttributes : epr.refAttributes = []
  metadata : epr.metadata = []
  extensions : epr.extensions = []

/-- The children that a plain endpoint is written with. -/
lemma childElements_addToSoapHeader {epr : EndpointRef} (hplain : epr.Plain) (kind : Kind)
    (addrNs : String) :
    childElements (addToSoapHeader epr kind addrNs) =
      setText (wsaElement addrNs eprAddress) epr.address ::
        if epr.refParams.isEmpty then []
        else [epr.refParams.foldl addChild (wsaElement addrNs eprReferenceParameters)] := by
  simp only [addToSoapHeader, if_neg hplain.address, addToHeader, hplain.interfaceQname, addGroup,
    hplain.refAttributes, hplain.metadata, hplain.extensions, List.foldl_nil, List.isEmpty_nil,
    if_true]
  split
  · simp
  · simp

/-- A plain endpoint comes back as it was, whichever namespace it is read in. -/
lemma readEndpoint_addToSoapHeader {epr : EndpointRef} (hplain : epr.Plain) (kind : Kind)
    (addrNs addrNs' : String) :
    (readEndpoint addrNs' (addToSoapHeader epr kind addrNs)).address = epr.address ∧
      (readEndpoint addrNs' (addToSoapHeader epr kind addrNs)).refParams = epr.refParams := by
  have htext := getText_setText (wsaElement_children addrNs eprAddress) hplain.address
  have hgroup : (epr.refParams.foldl addChild (wsaElement addrNs eprReferenceParameters)).localname =
      eprReferenceParameters := foldl_addChild_localname ..
  have hne : eprAddress ≠ eprReferenceParameters := by decide
  have hname : (setText (wsaElement addrNs eprAddress) epr.address).localname = eprAddress :=
    setText_localname ..
  have hread := childElements_foldl_addChild (wsaElement addrNs eprReferenceParameters)
    epr.refParams
  rw [childElements_wsaElement, List.nil_append] at hread
  rw [readEndpoint, extractEprInformation_eq]
  simp only [childrenNamed, childElements_addToSoapHeader hplain]
  generalize epr.refParams.foldl addChild (wsaElement addrNs eprReferenceParameters) = group
    at hgroup hread
  generalize setText (wsaElement addrNs eprAddress) epr.address = address at hname htext
  cases hparams : epr.refParams with
  | nil => simp [lastAddress, hname, hne, htext]
  | cons param params =>
    rw [hparams] at hread
    simp [lastAddress, hname, hgroup, hne, hne.symm, htext, hread]

end Elements

/-! ### Attributes that are not found again -/

section Attributes

@[simp] lemma qnameToString_localname (localname : String) (uri pref : Option String) :
    (qnameToString localname uri pref).localname = localname := by
  unfold qnameToString
  split_ifs <;> rfl

lemma getAttribute_localname {e : Element} {localname : String} {uri pref : Option String}
    {a : Attribute} (h : getAttribute e (qnameToString localname uri pref) = some a) :
    a.localname = localname := by
  have hkey : a.key = qnameToString localname uri pref := by
    simpa using List.find?_some h
  have hname := congrArg Key.localname hkey
  simpa [Attribute.key] using hname

/-- No block is taken for a reference parameter of the To endpoint. -/
lemma extractToEprRefParams_eq (epr : EndpointRef) (h : SoapHeader) (addrNs : String) :
    extractToEprRefParams epr h addrNs = epr := by
  have hnone : (h.blocks.filter fun block =>
      (markOf addrNs block).map (·.localname) = some "true") = [] := by
    rw [List.filter_eq_nil_iff]
    intro block _ hmark
    obtain ⟨a, ha, hname⟩ := Option.map_eq_some_iff.mp (of_decide_eq_true hmark)
    rw [getAttribute_localname ha] at hname
    exact absurd hname (by decide)
  rw [extractToEprRefParams, hnone, List.append_nil]

/-- A block with no attribute of the names that say a role is looked at. -/
lemma live_of_attributes {h : SoapHeader} {block : Element}
    (hnames : ∀ a ∈ block.attributes, a.localname ≠ "actor" ∧ a.localname ≠ "role") :
    h.live block = true := by
  have hnone (localname uri : String) (hlocalname : localname = "actor" ∨ localname = "role") :
      blockGetAttribute h block localname uri = none := by
    unfold blockGetAttribute
    cases h.ns with
    | none => rfl
    | some ns =>
      cases hfound : getAttribute block (qnameToString localname (some uri) ns.pref) with
      | none => simp [hfound]
      | some a =>
        have hname := getAttribute_localname hfound
        have hmem := hnames a (List.mem_of_find?_eq_some hfound)
        rcases hlocalname with rfl | rfl
        · exact absurd hname hmem.1
        · exact absurd hname hmem.2
  have hrole : getRole h block = none := by
    unfold getRole
    split
    · rfl
    · exact hnone _ _ (.inl rfl)
    · exact hnone _ _ (.inr rfl)
  simp [SoapHeader.live, hrole]

/-- The block of a text header. -/
lemma processStringInfo_eq {value : Option String} (hvalue : value.getD "" ≠ "") (kind : Kind)
    (addrNs : String) :
    processStringInfo value kind addrNs =
      some (setText (wsaElement addrNs kind.localname) value) := by
  cases value with
  | none => exact absurd rfl hvalue
  | some value => exact if_neg hvalue

lemma relatesToBlock_eq {relatesTo : RelatesTo} (hvalue : relatesTo.value.getD "" ≠ "")
    (addrNs : String) :
    ∃ attributes : List Attribute,
      relatesToBlock relatesTo addrNs = some { setText
        (wsaElement addrNs Kind.relatesTo.localname) relatesTo.value with
          attributes := attributes } ∧
      ∀ a ∈ attributes, a.localname = relationshipTypeName ∧ a.ns = some (wsaNs addrNs) := by
  obtain ⟨_ | value, relationshipType⟩ := relatesTo
  · exact absurd rfl hvalue
  unfold relatesToBlock
  rw [processStringInfo_eq hvalue]
  simp only [Option.bind_eq_bind, Option.bind_some]
  split
  · exact ⟨[], rfl, by simp⟩
  · exact ⟨[_], rfl, by simp⟩

lemma readRelatesTo_block {relatesTo : RelatesTo} {addrNs : String} (hns : addrNs ≠ "")
    (hvalue : relatesTo.value.getD "" ≠ "") {block : Element}
    (hblock : relatesToBlock relatesTo addrNs = some block) :
    readRelatesTo block = ⟨relatesTo.value, some relationshipTypeDefaultSubmission⟩ := by
  obtain ⟨attributes, heq, hattributes⟩ := relatesToBlock_eq hvalue addrNs
  obtain rfl : _ = block := Option.some.inj (heq.symm.trans hblock)
  have hfound : getAttribute { setText (wsaElement addrNs Kind.relatesTo.localname)
      relatesTo.value with attributes := attributes }
      (qnameToString relationshipTypeName none none) = none := by
    apply List.find?_eq_none.mpr
    intro a ha hkey
    obtain ⟨-, hns'⟩ := hattributes a ha
    have huri := congrArg Key.uri (of_decide_eq_true hkey)
    simp [Attribute.key, hns', wsaNs, wsaDefaultPrefix, qnameToString, hns] at huri
  have htext : getText { setText (wsaElement addrNs Kind.relatesTo.localname)
      relatesTo.value with attributes := attributes } = relatesTo.value :=
    getText_setText (wsaElement_children addrNs Kind.relatesTo.localname) hvalue
  rw [readRelatesTo, hfound, htext]

end Attributes

/-! ### The blocks of a message -/

section Blocks

variable {m : MsgInfoHeaders} {addrNs : String}
variable {h : SoapHeader} {epr : EndpointRef}

def TextOnly (param : Element) : Prop :=
  param.attributes = [] ∧ ∀ child ∈ param.children, child.isText = true

/-- The message information headers of a message that is to be sent. -/
structure Sendable (m : MsgInfoHeaders) (epr : EndpointRef) : Prop where
  action : m.action.getD "" ≠ ""
  to_ : m.to_ = some epr
  address : epr.address.getD "" ≠ ""
  params : ∀ param ∈ epr.refParams, TextOnly param ∧ kindOf param.localname = none
  from_ : ∀ epr, m.from_ = some epr → epr.Plain
  replyTo : ∀ epr, m.replyTo = some epr → epr.Plain
  faultTo : ∀ epr, m.faultTo = some epr → epr.Plain
  messageId : ∀ id, m.messageId = some id → id ≠ ""
  relatesTo : ∀ r, m.relatesTo = some r → r.value.getD "" ≠ "" ∧ r.relationshipType.getD "" ≠ ""

/-- The endpoint that replies are asked to go to. -/
def sentReplyTo (m : MsgInfoHeaders) (addrNs : String) : Option EndpointRef :=
  m.replyTo.or (markedEndpoint addrNs m.replyToNone m.replyToAnonymous)

def sentFaultTo (m : MsgInfoHeaders) (addrNs : String) : Option EndpointRef :=
  m.faultTo.or (markedEndpoint addrNs m.faultToNone m.faultToAnonymous)

def written (m : MsgInfoHeaders) (epr : EndpointRef) (addrNs : String) : Kind → Option Element
  | .to_ => some (setText (wsaElement addrNs Kind.to_.localname) epr.address)
  | .from_ => m.from_.map fun epr => addToSoapHeader epr .from_ addrNs
  | .replyTo => (sentReplyTo m addrNs).map fun epr => addToSoapHeader epr .replyTo addrNs
  | .faultTo => (sentFaultTo m addrNs).map fun epr => addToSoapHeader epr .faultTo addrNs
  | .messageId => processStringInfo m.messageId .messageId addrNs
  | .action => processStringInfo m.action .action addrNs
  | .relatesTo => m.relatesTo.bind fun relatesTo => relatesToBlock relatesTo addrNs

lemma redirectFault_false (epr : EndpointRef) : redirectFault false m epr = epr := by
  unfold redirectFault
  split <;> simp

def writtenBlocks (m : MsgInfoHeaders) (epr : EndpointRef) (addrNs : String)
    (params : List Element) : List Element :=
  ((written m epr addrNs .to_).toList ++ params) ++ (written m epr addrNs .action).toList ++
    (written m epr addrNs .replyTo).toList ++ (written m epr addrNs .from_).toList ++
    (written m epr addrNs .faultTo).toList ++ (written m epr addrNs .messageId).toList ++
    (written m epr addrNs .relatesTo).toList

lemma addrOutHandlerInvoke_eq (hm : Sendable m epr) (ctx : OutContext) (hempty : h.blocks = []) :
    addrOutHandlerInvoke ctx false m h =
      (epr.refParams.mapM (referenceBlock ctx.addrNs)).map fun params =>
        { h with blocks := writtenBlocks m epr ctx.addrNs params } := by
  have hto : toBlocks epr ctx.addrNs = (epr.refParams.mapM (referenceBlock ctx.addrNs)).map
      fun params => setText (wsaElement ctx.addrNs Kind.to_.localname) epr.address :: params := by
    rw [toBlocks, if_neg hm.address]
    cases epr.refParams.mapM (referenceBlock ctx.addrNs) <;> rfl
  rw [addrOutHandlerInvoke, if_neg hm.action]
  simp only [hm.to_, redirectFault_false, hto]
  cases epr.refParams.mapM (referenceBlock ctx.addrNs) with
  | none => rfl
  | some params => simp [hempty, writtenBlocks, written, sentReplyTo, sentFaultTo]

lemma addGroup_head (parent : Element) (addrNs localname : String) (attributes : List Attribute)
    (elements : List Element) :
    (addGroup parent addrNs localname attributes elements).localname = parent.localname ∧
      (addGroup parent addrNs localname attributes elements).attributes = parent.attributes := by
  unfold addGroup
  split <;> simp

lemma addToHeader_head (epr : EndpointRef) (parent : Element) (addrNs : String) :
    (addToHeader epr parent addrNs).localname = parent.localname ∧
      (addToHeader epr parent addrNs).attributes = parent.attributes := by
  unfold addToHeader
  split <;> simp

lemma foldl_addChild_attributes (e : Element) (children : List Element) :
    (children.foldl addChild e).attributes = e.attributes := by
  induction children generalizing e with
  | nil => rfl
  | cons child children ih => exact ih _

/-- The block of an endpoint has the name of its kind and no attributes. -/
lemma addToSoapHeader_head (epr : EndpointRef) (kind : Kind) (addrNs : String) :
    (addToSoapHeader epr kind addrNs).localname = kind.localname ∧
      (addToSoapHeader epr kind addrNs).attributes = [] := by
  simp only [addToSoapHeader, foldl_addChild_localname, foldl_addChild_attributes,
    (addGroup_head ..).1, (addGroup_head ..).2, (addToHeader_head ..).1, (addToHeader_head ..).2]
  split <;> simp [wsaElement]

/-- What is written of a kind is looked at and has the name of the kind. -/
lemma written_spec {epr : EndpointRef} (hm : Sendable m epr) {h : SoapHeader} {kind : Kind}
    {block : Element} (hblock : written m epr addrNs kind = some block) :
    h.live block = true ∧ block.localname = kind.localname := by
  have hplain {block : Element} (hattributes : block.attributes = []) : h.live block = true :=
    live_of_attributes (by simp [hattributes])
  have hendpoint {o : Option EndpointRef} (hsome : (o.map fun epr =>
      addToSoapHeader epr kind addrNs) = some block) :
      h.live block = true ∧ block.localname = kind.localname := by
    obtain ⟨epr, -, rfl⟩ := Option.map_eq_some_iff.mp hsome
    exact ⟨hplain (addToSoapHeader_head epr kind addrNs).2, (addToSoapHeader_head epr kind addrNs).1⟩
  have htext {value : Option String} (hsome : processStringInfo value kind addrNs = some block) :
      h.live block = true ∧ block.localname = kind.localname := by
    cases value with
    | none => cases hsome
    | some value =>
      by_cases hvalue : value = ""
      · simp [processStringInfo, hvalue] at hsome
      · have hvalue : (some value).getD "" ≠ "" := hvalue
        rw [processStringInfo_eq hvalue] at hsome
        obtain rfl := Option.some.inj hsome
        exact ⟨hplain (by simp [wsaElement]), by simp [wsaElement]⟩
  cases kind with
  | to_ =>
    obtain rfl := Option.some.inj hblock
    exact ⟨hplain (by simp [wsaElement]), by simp [wsaElement]⟩
  | from_ | replyTo | faultTo => exact hendpoint hblock
  | messageId | action => exact htext hblock
  | relatesTo =>
    obtain ⟨relatesTo, hrelatesTo, hblock⟩ := Option.bind_eq_some_iff.mp hblock
    obtain ⟨attributes, heq, hattributes⟩ :=
      relatesToBlock_eq (hm.relatesTo relatesTo hrelatesTo).1 addrNs
    obtain rfl : _ = block := Option.some.inj (heq.symm.trans hblock)
    refine ⟨live_of_attributes fun a ha => ?_, by simp [wsaElement]⟩
    rw [(hattributes a ha).1]
    decide

lemma named_toList {o : Option Element} {kind : Kind}
    (hspec : ∀ block, o = some block → h.live block = true ∧ block.localname = kind.localname)
    (kind' : Kind) : named h kind' o.toList = if kind = kind' then o.toList else [] := by
  cases o with
  | none => simp [named]
  | some block =>
    obtain ⟨hlive, hname⟩ := hspec block rfl
    have hkind : kindOf block.localname = some kind := kindOf_eq_some.mpr hname
    simp [named, List.filter_cons, hlive, hkind]

lemma referenceBlock_localname {param block : Element}
    (h : referenceBlock addrNs param = some block) : block.localname = param.localname := by
  unfold referenceBlock at h
  split at h
  · cases h
  · obtain rfl := Option.some.inj h
    simp

lemma referenceBlocks_localname {refParams params : List Element}
    (h : refParams.mapM (referenceBlock addrNs) = some params) :
    params.map Element.localname = refParams.map Element.localname := by
  induction refParams generalizing params with
  | nil =>
    obtain rfl : [] = params := Option.some.inj h
    rfl
  | cons param refParams ih =>
    rw [List.mapM_cons] at h
    obtain ⟨block, hblock, h⟩ := Option.bind_eq_some_iff.mp h
    obtain ⟨blocks, hblocks, h⟩ := Option.bind_eq_some_iff.mp h
    obtain rfl : block :: blocks = params := Option.some.inj h
    rw [List.map_cons, List.map_cons, ih hblocks, referenceBlock_localname hblock]

section

variable (hm : Sendable m epr) {params : List Element}
  (hparams : epr.refParams.mapM (referenceBlock addrNs) = some params) (kind : Kind)

include hm hparams kind

/-- The blocks of the reference parameters are of no kind. -/
lemma named_params : named h kind params = [] := by
  rw [named, List.filter_eq_nil_iff]
  intro block hblock
  have hmem : block.localname ∈ epr.refParams.map Element.localname := by
    rw [← referenceBlocks_localname hparams]
    exact List.mem_map_of_mem hblock
  obtain ⟨param, hparam, hname⟩ := List.mem_map.mp hmem
  simp [← hname, (hm.params param hparam).2]

/-- Each kind of header is found once at most, where it was written. -/
lemma named_written :
    named h kind (writtenBlocks m epr addrNs params) = (written m epr addrNs kind).toList := by
  have happend (l l' : List Element) : named h kind (l ++ l') = named h kind l ++ named h kind l' :=
    List.filter_append ..
  have hone (kind₀ : Kind) : named h kind (written m epr addrNs kind₀).toList =
      if kind₀ = kind then (written m epr addrNs kind₀).toList else [] :=
    named_toList (fun _ => written_spec hm) kind
  simp only [writtenBlocks, happend, hone, named_params hm hparams]
  cases kind <;> simp

end

end Blocks

/-! ### The round trip -/

section RoundTrip

variable {m : MsgInfoHeaders}
variable {epr : EndpointRef} {h : SoapHeader} {isNone anonymous : Bool} {o : Option EndpointRef}

/-- What an endpoint says of its address and its reference parameters. -/
def EndpointRef.content (epr : EndpointRef) : Option String × List Element :=
  (epr.address, epr.refParams)

def paramTexts (epr : Option EndpointRef) : List (String × Option String × Option String) :=
  (epr.elim [] EndpointRef.refParams).map fun param =>
    (param.localname, param.ns.map Namespace.uri, getText param)

/-- The headers read are the headers sent. -/
structure SameHeaders (read sent : MsgInfoHeaders) : Prop where
  action : read.action = sent.action
  to_ : read.to_.map EndpointRef.address = sent.to_.map EndpointRef.address
  toParams : ∀ param, param ∈ paramTexts read.to_ ↔ param ∈ paramTexts sent.to_
  from_ : read.from_.map EndpointRef.content = sent.from_.map EndpointRef.content
  replyTo : read.replyTo.map EndpointRef.content = sent.replyTo.map EndpointRef.content
  faultTo : read.faultTo.map EndpointRef.content = sent.faultTo.map EndpointRef.content
  messageId : read.messageId = sent.messageId
  relatesTo : read.relatesTo = sent.relatesTo

/-- The out handler writes blocks from which the in handler, whatever their order, reads the same
headers. -/
def RoundTrips (ctx : OutContext) (m : MsgInfoHeaders) (h : SoapHeader) : Prop :=
  ∃ out, addrOutHandlerInvoke ctx false m h = some out ∧
    ∀ order : List Element, order.Perm out.blocks →
      (addrInHandlerInvoke { out with blocks := order } msgInfoHeadersCreate).1 = true ∧
        SameHeaders (addrInHandlerInvoke { out with blocks := order } msgInfoHeadersCreate).2 m

/-- What the in handler reads of what the out handler wrote. -/
structure ReadBack (m : MsgInfoHeaders) (epr : EndpointRef) (addrNs : String)
    (read : MsgInfoHeaders) : Prop where
  action : read.action = m.action
  to_ : read.to_ = some (endpointRefCreate epr.address)
  from_ : read.from_.map EndpointRef.content = m.from_.map EndpointRef.content
  replyTo : read.replyTo.map EndpointRef.content =
    (sentReplyTo m addrNs).map EndpointRef.content
  faultTo : read.faultTo.map EndpointRef.content =
    (sentFaultTo m addrNs).map EndpointRef.content
  messageId : read.messageId = m.messageId
  relatesTo : read.relatesTo =
    m.relatesTo.map fun r => ⟨r.value, some relationshipTypeDefaultSubmission⟩

lemma marked_plain {addrNs : String} (h : markedEndpoint addrNs isNone anonymous = some epr) :
    epr.Plain := by
  have hcreate {address : String} (hne : address ≠ "") :
      (endpointRefCreate (some address)).Plain := ⟨hne, rfl, rfl, rfl, rfl⟩
  unfold markedEndpoint at h
  split at h
  · obtain rfl := Option.some.inj h
    exact hcreate (by split <;> decide)
  · split at h
    · obtain rfl := Option.some.inj h
      exact hcreate (by split <;> decide)
    · cases h

lemma or_plain {addrNs : String} (ho : ∀ epr, o = some epr → epr.Plain)
    (h : o.or (markedEndpoint addrNs isNone anonymous) = some epr) : epr.Plain := by
  cases o with
  | none => exact marked_plain h
  | some epr' => exact Option.some.inj h ▸ ho epr' rfl

/-- Endpoints come back as they were. -/
lemma content_readEndpoint (ho : ∀ epr, o = some epr → epr.Plain) (kind : Kind)
    (addrNs addrNs' : String) :
    ((o.map fun epr => addToSoapHeader epr kind addrNs).map (readEndpoint addrNs')).map
      EndpointRef.content = o.map EndpointRef.content := by
  cases o with
  | none => rfl
  | some epr =>
    have hback := readEndpoint_addToSoapHeader (ho epr rfl) kind addrNs addrNs'
    simp [EndpointRef.content, hback.1, hback.2]

/-- A text header comes back as it was. -/
lemma getText_processStringInfo {value : Option String} (hvalue : ∀ v, value = some v → v ≠ "")
    (kind : Kind) (addrNs : String) :
    (processStringInfo value kind addrNs).bind getText = value := by
  cases value with
  | none => rfl
  | some value =>
    have hne : (some value).getD "" ≠ "" := hvalue value rfl
    rw [processStringInfo_eq hne]
    exact getText_setText (wsaElement_children addrNs kind.localname) hne

lemma readBack_order (hm : Sendable m epr) {addrNs : String} (hns : addrNs ≠ "")
    {params : List Element} (hparams : epr.refParams.mapM (referenceBlock addrNs) = some params)
    {order : List Element} (horder : order.Perm (writtenBlocks m epr addrNs params))
    (addrNs' : String) :
    (extractAddrParams { h with blocks := order } msgInfoHeadersCreate addrNs').1.success = true ∧
      ReadBack m epr addrNs
        (extractAddrParams { h with blocks := order } msgInfoHeadersCreate addrNs').1.headers := by
  have hnamed (kind : Kind) :
      (named h kind order).Perm (written m epr addrNs kind).toList := by
    rw [← named_written hm hparams]
    exact horder.filter _
  have hone (kind : Kind) : (written m epr addrNs kind).toList.length ≤ 1 := by
    cases written m epr addrNs kind <;> simp
  have haction : named h .action order ≠ [] := by
    intro hnil
    have hperm := hnamed .action
    rw [hnil, written, processStringInfo_eq hm.action] at hperm
    simp at hperm
  have hne : order ≠ [] := by
    rintro rfl
    exact haction rfl
  refine ⟨(extractAddrParams_success hne _).mpr ⟨fun kind _ => ?_, haction⟩, ?_⟩
  · rw [(hnamed kind).length_eq]
    exact hone kind
  rw [extractAddrParams_headers hne haction]
  have hslot (kind : Kind) :=
    slot_of_perm addrNs' (hnamed kind) (hone kind) (.start msgInfoHeadersCreate)
  simp only [Option.head?_toList] at hslot
  have hreplyTo : ∀ epr, sentReplyTo m addrNs = some epr → epr.Plain :=
    fun _ h => or_plain hm.replyTo h
  have hfaultTo : ∀ epr, sentFaultTo m addrNs = some epr → epr.Plain :=
    fun _ h => or_plain hm.faultTo h
  constructor
  · refine (congrArg Slot.text (hslot .action)).trans (Eq.trans ?_
      (getText_processStringInfo (fun v hv => ?_) .action addrNs))
    · rw [written]
      cases processStringInfo m.action .action addrNs <;> rfl
    · have haction := hm.action
      rw [hv] at haction
      exact haction
  · refine (congrArg Slot.epr (hslot .to_)).trans ?_
    have hread := getText_setText (wsaElement_children addrNs Kind.to_.localname) hm.address
    simp only [written, Option.elim_some, Kind.write, Extraction.slot, Extraction.start,
      extractToEprRefParams_eq, hread]
    rfl
  · rw [← content_readEndpoint hm.from_ .from_ addrNs addrNs']
    refine congrArg (Option.map EndpointRef.content) ((congrArg Slot.epr (hslot .from_)).trans ?_)
    rw [written]
    cases m.from_ <;> rfl
  · rw [← content_readEndpoint hreplyTo .replyTo addrNs addrNs']
    refine congrArg (Option.map EndpointRef.content) ((congrArg Slot.epr (hslot .replyTo)).trans ?_)
    rw [written]
    cases sentReplyTo m addrNs <;> rfl
  · rw [← content_readEndpoint hfaultTo .faultTo addrNs addrNs']
    refine congrArg (Option.map EndpointRef.content) ((congrArg Slot.epr (hslot .faultTo)).trans ?_)
    rw [written]
    cases sentFaultTo m addrNs <;> rfl
  · refine (congrArg Slot.text (hslot .messageId)).trans (Eq.trans ?_
      (getText_processStringInfo hm.messageId .messageId addrNs))
    rw [written]
    cases processStringInfo m.messageId .messageId addrNs <;> rfl
  · refine (congrArg Slot.relatesTo (hslot .relatesTo)).trans ?_
    rw [written]
    cases hrelatesTo : m.relatesTo with
    | none => rfl
    | some relatesTo =>
      have hvalue := (hm.relatesTo relatesTo hrelatesTo).1
      obtain ⟨attributes, hblock, -⟩ := relatesToBlock_eq hvalue addrNs
      have hread := readRelatesTo_block hns hvalue hblock
      simp only [Option.bind_some, hblock, Option.elim_some, Kind.write, hread, Option.map_some]

lemma selectNamespace_isSome {addrNs : String} {block : Element}
    (hns : addrNs = wsaNamespaceSubmission ∨ addrNs = wsaNamespace) (hblock : block ∈ h.blocks)
    (hin : block.inNs addrNs = true) : ∃ addrNs', selectNamespace h = some addrNs' := by
  have hfound : (blocksWithNamespaceUri h addrNs).isSome = true := by
    unfold blocksWithNamespaceUri
    cases hfilter : h.blocks.filter (·.inNs addrNs) with
    | nil => exact absurd hin (by simpa using List.filter_eq_nil_iff.mp hfilter block hblock)
    | cons block blocks => rfl
  unfold selectNamespace
  split
  · exact ⟨_, rfl⟩
  · next hsubmission =>
      rcases hns with rfl | rfl
      · exact absurd hfound hsubmission
      · exact ⟨_, if_pos hfound⟩

lemma addrInHandlerInvoke_written (hm : Sendable m epr) {addrNs : String}
    (hns : addrNs = wsaNamespaceSubmission ∨ addrNs = wsaNamespace) {params : List Element}
    (hparams : epr.refParams.mapM (referenceBlock addrNs) = some params) {order : List Element}
    (horder : order.Perm (writtenBlocks m epr addrNs params)) :
    (addrInHandlerInvoke { h with blocks := order } msgInfoHeadersCreate).1 = true ∧
      ReadBack m epr addrNs
        (addrInHandlerInvoke { h with blocks := order } msgInfoHeadersCreate).2 := by
  have hempty : addrNs ≠ "" := by rcases hns with rfl | rfl <;> decide
  have hto : setText (wsaElement addrNs Kind.to_.localname) epr.address ∈ order :=
    horder.mem_iff.mpr (by simp [writtenBlocks, written])
  have hin : (setText (wsaElement addrNs Kind.to_.localname) epr.address).inNs addrNs = true := by
    cases epr.address <;> simp [setText, wsaElement, Element.inNs, wsaNs]
  obtain ⟨addrNs', hselect⟩ := selectNamespace_isSome (h := { h with blocks := order }) hns hto hin
  have hread := readBack_order hm hempty hparams (h := h) horder addrNs'
  simp only [addrInHandlerInvoke, hselect]
  refine ⟨hread.1, ?_⟩
  split
  · obtain ⟨-, haction, hto, hfrom, hreplyTo, hfaultTo, hmessageId, hrelatesTo⟩ := hread
    exact ⟨haction, hto, hfrom, hreplyTo, hfaultTo, hmessageId, hrelatesTo⟩
  · exact hread.2

/-- An endpoint that is not there stays away unless it is marked none or anonymous. -/
lemma or_marked_iff {addrNs : String} :
    (o.or (markedEndpoint addrNs isNone anonymous)).map EndpointRef.content =
        o.map EndpointRef.content ↔
      (o = none → isNone = false ∧ anonymous = false) := by
  cases o with
  | some epr => simp
  | none => cases isNone <;> cases anonymous <;> simp [markedEndpoint]

lemma RoundTrips.readBack {ctx : OutContext} (hround : RoundTrips ctx m h)
    (hns : ctx.addrNs = wsaNamespaceSubmission ∨ ctx.addrNs = wsaNamespace) (hempty : h.blocks = [])
    (hm : Sendable m epr) :
    ∃ read, ReadBack m epr ctx.addrNs read ∧ SameHeaders read m := by
  obtain ⟨out, hwritten, hall⟩ := hround
  rw [addrOutHandlerInvoke_eq hm ctx hempty] at hwritten
  obtain ⟨params, hparams, rfl⟩ := Option.map_eq_some_iff.mp hwritten
  exact ⟨_, (addrInHandlerInvoke_written hm hns hparams (h := h) (.refl _)).2,
    (hall _ (.refl _)).2⟩

lemma ReadBack.relationshipType {addrNs : String} {read : MsgInfoHeaders}
    (hread : ReadBack m epr addrNs read) (hsame : SameHeaders read m) {r : RelatesTo}
    (hr : m.relatesTo = some r) : r.relationshipType = some relationshipTypeDefaultSubmission := by
  have hrelatesTo := hread.relatesTo.symm.trans hsame.relatesTo
  rw [hr] at hrelatesTo
  exact (congrArg RelatesTo.relationshipType (Option.some.inj hrelatesTo)).symm

/-- The headers that come back from a message are those that were sent exactly when the To endpoint
has no reference parameters, the relationship type is `wsa:Reply`, and neither ReplyTo nor FaultTo
is left to a mark. -/
theorem round_trips_iff (ctx : OutContext) (m : MsgInfoHeaders) (epr : EndpointRef) (h : SoapHeader)
    (hns : ctx.addrNs = wsaNamespaceSubmission ∨ ctx.addrNs = wsaNamespace)
    (hempty : h.blocks = []) (hm : Sendable m epr) :
    RoundTrips ctx m h ↔
      epr.refParams = [] ∧
      (∀ r, m.relatesTo = some r → r.relationshipType = some "wsa:Reply") ∧
      (m.replyTo = none → m.replyToNone = false ∧ m.replyToAnonymous = false) ∧
      (m.faultTo = none → m.faultToNone = false ∧ m.faultToAnonymous = false) := by
  constructor
  · intro hround
    obtain ⟨read, hread, hsame⟩ := hround.readBack hns hempty hm
    refine ⟨?_, fun r hr => hread.relationshipType hsame hr,
      or_marked_iff.mp (hread.replyTo.symm.trans hsame.replyTo),
      or_marked_iff.mp (hread.faultTo.symm.trans hsame.faultTo)⟩
    have hparams := hsame.toParams
    rw [hread.to_, hm.to_] at hparams
    exact List.map_eq_nil_iff.mp (List.eq_nil_iff_forall_not_mem.mpr fun param hparam =>
      absurd ((hparams param).mpr hparam) (by simp [paramTexts, endpointRefCreate]))
  · rintro ⟨hnone, htype, hreplyTo, hfaultTo⟩
    have hparams : epr.refParams.mapM (referenceBlock ctx.addrNs) = some [] := by
      rw [hnone]
      rfl
    have hout := addrOutHandlerInvoke_eq hm ctx hempty
    rw [hparams] at hout
    refine ⟨_, hout, fun order horder => ?_⟩
    obtain ⟨hsuccess, hread⟩ := addrInHandlerInvoke_written hm hns hparams (h := h) horder
    refine ⟨hsuccess, hread.action, ?_, fun param => ?_, hread.from_,
      hread.replyTo.trans (or_marked_iff.mpr hreplyTo),
      hread.faultTo.trans (or_marked_iff.mpr hfaultTo), hread.messageId, ?_⟩
    · rw [hread.to_, hm.to_]
      rfl
    · rw [hread.to_, hm.to_]
      simp [paramTexts, endpointRefCreate, hnone]
    · rw [hread.relatesTo]
      cases hrelatesTo : m.relatesTo with
      | none => rfl
      | some r =>
        obtain ⟨value, relationshipType⟩ := r
        obtain rfl : relationshipType = some "wsa:Reply" := htype _ hrelatesTo
        rfl

def plainContext : OutContext := ⟨none, none⟩

def noBlocks : SoapHeader := ⟨.soap12, none, []⟩

def relatedMessage (relatesTo : Option RelatesTo) : MsgInfoHeaders :=
  { msgInfoHeadersCreate with
    action := some "urn:act", to_ := some (endpointRefCreate (some "urn:to")), relatesTo }

lemma relatedMessage_sendable {relatesTo : Option RelatesTo}
    (h : ∀ r, relatesTo = some r → r.value.getD "" ≠ "" ∧ r.relationshipType.getD "" ≠ "") :
    Sendable (relatedMessage relatesTo) (endpointRefCreate (some "urn:to")) where
  action := by simp [relatedMessage]
  to_ := rfl
  address := by simp [endpointRefCreate]
  params := by simp [endpointRefCreate]
  from_ := by simp [relatedMessage, msgInfoHeadersCreate]
  replyTo := by simp [relatedMessage, msgInfoHeadersCreate]
  faultTo := by simp [relatedMessage, msgInfoHeadersCreate]
  messageId := by simp [relatedMessage, msgInfoHeadersCreate]
  relatesTo := h

theorem reply_round_trips :
    RoundTrips plainContext (relatedMessage (some ⟨some "urn:id", some "wsa:Reply"⟩)) noBlocks := by
  refine (round_trips_iff plainContext _ (endpointRefCreate (some "urn:to")) noBlocks (.inr rfl) rfl
    (relatedMessage_sendable ?_)).mpr ⟨rfl, ?_, fun _ => ⟨rfl, rfl⟩, fun _ => ⟨rfl, rfl⟩⟩
  · rintro r ⟨⟩
    simp
  · rintro r ⟨⟩
    rfl

/-- A relationship type of its own is lost. -/
theorem relationship_type_is_lost :
    ¬ ∀ (ctx : OutContext) (m : MsgInfoHeaders) (epr : EndpointRef) (h : SoapHeader),
      (ctx.addrNs = wsaNamespaceSubmission ∨ ctx.addrNs = wsaNamespace) → h.blocks = [] →
      Sendable m epr → RoundTrips ctx m h := by
  intro hall
  have hm : Sendable (relatedMessage (some ⟨some "urn:id", some "urn:revises"⟩))
      (endpointRefCreate (some "urn:to")) :=
    relatedMessage_sendable (by rintro r ⟨⟩; simp)
  obtain ⟨read, hread, hsame⟩ := (hall plainContext _ _ noBlocks (.inr rfl) rfl hm).readBack
    (.inr rfl) rfl hm
  exact absurd (hread.relationshipType hsame rfl) (by decide)

end RoundTrip

end Axis2C.Addr
