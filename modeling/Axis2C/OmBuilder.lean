import Axis2C.OmNamespaces

/-!
# The StAX builder

`om_stax_builder.c`: the builder makes the nodes of a document from the events of a
pull parser. An event carries what the getters of the reader return for it; a
missing event is the token -1. Nodes get the addresses 0, 1, 2, ... in the order in
which they are made, so that an address is a position in the document. The parser
is present, the cache flag is set, and allocation succeeds.
-/
namespace Axis2C.Om

/-- An attribute as the reader gives it. -/
structure ReaderAttribute where
  localName : String
  value : String
  uri : Option String
  nsPrefix : Option String
  deriving DecidableEq, Repr

def ReaderAttribute.namespaceUri (a : ReaderAttribute) : Option String := a.uri.filter (· ≠ "")

/-- A start tag as the reader gives it: a declaration of the default namespace has
no prefix, or the prefix `xmlns`. -/
structure StartTag where
  name : String
  nsPrefix : Option String
  namespaces : List (Option String × String)
  attributes : List ReaderAttribute
  deriving DecidableEq, Repr

inductive Event where
  | startDocument
  | startElement (tag : StartTag)
  | emptyElement (tag : StartTag)
  | endElement
  | space (value : Option String)
  | character (value : Option String)
  | entityReference
  | comment (value : Option String)
  | processingInstruction (target data : Option String)
  | cdata
  | documentType
  deriving DecidableEq, Repr

/-- The errors that the builder sets. -/
inductive BuilderError where
  | builderDoneCannotPull
  | invalidBuilderStateLastNodeNull
  | xmlReaderValueNull
  | xmlReaderElementNull
  | undefinedNamespace
  | invalidNullParam
  deriving DecidableEq, Repr

/-- The builder with the nodes it has made; `used` is the next free address, and
`documentRoot` the root element of its document. -/
structure Builder where
  libxml2 : Bool
  heap : OmHeap
  used : ℕ
  nsUsed : ℕ
  lastNode : Option ℕ
  rootNode : Option ℕ
  documentRoot : Option ℕ
  done : Bool
  elementLevel : ℤ
  declaredNamespaces : List (String × Namespace)
  error : Option BuilderError

section Nodes

/-- `axiom_node_set_parent`. -/
def nodeSetParent (h : OmHeap) (n parent : ℕ) : OmHeap :=
  if h.parent n = some parent then h
  else
    let h := if (h.parent n).isSome then detachWithoutNamespaces h n else h
    h.setParent n (some parent)

/-- `axiom_node_set_first_child`. -/
def nodeSetFirstChild (h : OmHeap) (n child : ℕ) : OmHeap :=
  (nodeSetParent h child n).setFirst n (some child)

def nodeSetComplete (h : OmHeap) (n : ℕ) (done : Bool) : OmHeap :=
  h.setData n { h.data n with done := done }

def nodeSetBuilder (h : OmHeap) (n : ℕ) : OmHeap :=
  h.setData n { h.data n with builder := true }

def isComplete (h : OmHeap) (n : ℕ) : Bool := (h.data n).done

def newNode (b : Builder) (parent : Option ℕ) (nodeType : NodeType) (payload : Payload) : Builder :=
  let h := nodeCreate b.heap b.used ⟨nodeType, some payload, false, false⟩
  let h := match parent with
    | none => h
    | some parent => addChild h parent b.used
  { b with heap := h, used := b.used + 1 }

/-- `axiom_document_set_root_element`: another root is freed with its tree. -/
def documentSetRootElement (b : Builder) (n : ℕ) : Builder :=
  match b.documentRoot with
  | none => { b with documentRoot := some n }
  | some root =>
    { b with
      heap := (freeTree (2 * b.used + 2) b.heap root).getD b.heap
      documentRoot := some n }

end Nodes

section Create

/-- `axiom_stax_builder_create`. -/
def builderCreate (libxml2 : Bool) : Builder where
  libxml2 := libxml2
  heap := ⟨fun _ => false, fun _ => none, fun _ => none, fun _ => none, fun _ => none,
    fun _ => none, fun _ => ⟨.invalid, none, false, false⟩⟩
  used := 0
  nsUsed := 0
  lastNode := none
  rootNode := none
  documentRoot := none
  done := false
  elementLevel := 0
  declaredNamespaces := []
  error := none

/-- One turn of the loop of `axiom_stax_builder_process_namespaces`. -/
def declareOne (n : ℕ) (b : Builder) (declaration : Option String × String) : Builder :=
  if declaration.1 = none ∨ declaration.1 = some "xmlns" then
    let ns : Namespace := ⟨b.nsUsed, some "", declaration.2⟩
    { b with heap := declareNamespace b.heap b.used n ns, nsUsed := b.nsUsed + 1 }
  else
    let ns : Namespace := ⟨b.nsUsed, declaration.1, declaration.2⟩
    { b with
      heap := declareNamespaceAssumeParamOwnership b.heap n ns
      declaredNamespaces := hashSet b.declaredNamespaces ns.key ns
      nsUsed := b.nsUsed + 1 }

def setOwnNamespace (n : ℕ) (b : Builder) (nsPrefix : Option String) : Builder :=
  match nsPrefix with
  | none => b
  | some key =>
    match hashGet b.declaredNamespaces key with
    | none => { b with error := some .undefinedNamespace }
    | some ns =>
      match elementAt b.heap n with
      | none => b
      | some e => { b with heap := setElement b.heap n { e with ns := some ns } }

def processNamespaces (b : Builder) (n : ℕ) (tag : StartTag) : Builder :=
  setOwnNamespace n (tag.namespaces.foldl (declareOne n) b) tag.nsPrefix

/-- One turn of the loop of `axiom_stax_builder_process_attributes`. -/
def attachAttribute (n : ℕ) (b : Builder) (a : ReaderAttribute) : Builder :=
  match a.namespaceUri with
  | none => { b with heap := addAttribute b.heap b.used n ⟨a.localName, a.value, none⟩ }
  | some uri =>
    match findNamespace b.heap (some uri) a.nsPrefix b.used n with
    | some ns => { b with heap := addAttribute b.heap b.used n ⟨a.localName, a.value, some ns⟩ }
    | none =>
      let ns : Namespace := ⟨b.nsUsed, a.nsPrefix, uri⟩
      { b with
        heap := addAttribute b.heap b.used n ⟨a.localName, a.value, some ns⟩
        nsUsed := b.nsUsed + 1 }

def processAttributes (b : Builder) (n : ℕ) (tag : StartTag) : Builder :=
  tag.attributes.foldl (attachAttribute n) b

def setIsEmpty (h : OmHeap) (n : ℕ) (isEmpty : Bool) : OmHeap :=
  match elementAt h n with
  | none => h
  | some e => setElement h n { e with isEmpty := isEmpty }

/-- The new node of `axiom_stax_builder_create_om_element`, in its place. -/
def placeElement (b : Builder) (name : String) : Builder :=
  let n := b.used
  let payload := Payload.element ⟨name, none, [], [], false⟩
  match b.lastNode with
  | none =>
    let b := newNode b none .element payload
    let b := { b with rootNode := some n, heap := nodeSetBuilder b.heap n }
    documentSetRootElement b n
  | some last =>
    if isComplete b.heap last then
      let b := newNode b (b.heap.parent last) .element payload
      { b with
        heap := nodeSetBuilder ((b.heap.setNext last (some n)).setPrev n (some last)) n }
    else
      let b := newNode b (some last) .element payload
      { b with heap := nodeSetBuilder (nodeSetParent (nodeSetFirstChild b.heap last n) n last) n }

/-- Its data, and the new last node. -/
def fillElement (b : Builder) (n : ℕ) (tag : StartTag) (isEmpty : Bool) : Builder :=
  let b := processAttributes (processNamespaces b n tag) n tag
  { b with lastNode := some n, heap := setIsEmpty b.heap n isEmpty }

/-- `axiom_stax_builder_create_om_element`. -/
def createOmElement (b : Builder) (tag : StartTag) (isEmpty : Bool) : Option ℕ × Builder :=
  let placed := placeElement { b with elementLevel := b.elementLevel + 1 } tag.name
  (some b.used, fillElement placed b.used tag isEmpty)

/-- `axiom_stax_builder_create_om_text`. A text is added to an element only. -/
def createOmText (b : Builder) (value : Option String) : Option ℕ × Builder :=
  match b.lastNode with
  | none => (none, { b with error := some .invalidBuilderStateLastNodeNull })
  | some last =>
    match value with
    | none => (none, { b with error := some .xmlReaderValueNull })
    | some value =>
      let n := b.used
      let parent := if isComplete b.heap last then b.heap.parent last else some last
      let parent := parent.filter fun p => (b.heap.data p).nodeType = .element
      let b := newNode b parent .text (.text value)
      (some n, { b with heap := nodeSetComplete b.heap n true, lastNode := some n })

/-- `axiom_stax_builder_create_om_comment`. -/
def createOmComment (b : Builder) (value : Option String) : Option ℕ × Builder :=
  match value with
  | none => (none, { b with error := some .xmlReaderElementNull })
  | some value =>
    match b.lastNode with
    | none => (none, b)
    | some last =>
      let n := b.used
      let b :=
        if isComplete b.heap last then
          let b := newNode b (b.heap.parent last) .comment (.comment value)
          { b with
            heap := nodeSetBuilder ((b.heap.setNext last (some n)).setPrev n (some last)) n }
        else
          let b := newNode b (some last) .comment (.comment value)
          { b with
            heap := nodeSetBuilder (nodeSetParent (nodeSetFirstChild b.heap last n) n last) n }
      (some n, { b with elementLevel := b.elementLevel + 1, lastNode := some n })

/-- `axiom_stax_builder_create_om_processing_instruction`. Without data there is no
node, and the setters refuse the NULL. -/
def createOmProcessingInstruction (b : Builder) (target data : Option String) :
    Option ℕ × Builder :=
  match target with
  | none => (none, { b with error := some .xmlReaderElementNull })
  | some target =>
    match b.lastNode with
    | none => (none, b)
    | some last =>
      match data with
      | none =>
        (none, { b with
          elementLevel := b.elementLevel + 1, lastNode := none
          error := some .invalidNullParam })
      | some data =>
        let n := b.used
        let payload := Payload.processingInstruction target data
        let b :=
          if isComplete b.heap last ∨ (b.heap.data last).nodeType = .text then
            let b := newNode b (b.heap.parent last) .processingInstruction payload
            { b with heap := (b.heap.setNext last (some n)).setPrev n (some last) }
          else
            let b := newNode b (some last) .processingInstruction payload
            { b with heap := nodeSetParent (nodeSetFirstChild b.heap last n) n last }
        (some n, { b with elementLevel := b.elementLevel + 1, lastNode := some n })

/-- The last node when an element ends, and the nodes that are complete then. -/
def closeLast (b : Builder) : Builder :=
  match b.lastNode with
  | none => b
  | some last =>
    if isComplete b.heap last then
      match b.heap.parent last with
      | none => b
      | some parent =>
        { b with heap := nodeSetComplete b.heap parent true, lastNode := some parent }
    else { b with heap := nodeSetComplete b.heap last true }

/-- `axiom_stax_builder_end_element`. -/
def endElement (b : Builder) : Builder :=
  let b := closeLast { b with elementLevel := b.elementLevel - 1 }
  match b.rootNode with
  | none => b
  | some root => if isComplete b.heap root then { b with done := true } else b

end Create

section Pull

/-- The switch of `axiom_stax_builder_next`. -/
def pull (b : Builder) : Event → Option ℕ × Builder
  | .startDocument => (none, b)
  | .startElement tag => createOmElement b tag false
  | .emptyElement tag =>
    let r := createOmElement b tag !b.libxml2
    (r.1, endElement r.2)
  | .endElement => (none, endElement b)
  | .space value => createOmText b value
  | .character value => createOmText b value
  | .entityReference => (none, b)
  | .comment value =>
    let r := createOmComment b value
    (r.1, endElement r.2)
  | .processingInstruction target data =>
    let r := createOmProcessingInstruction b target data
    (r.1, endElement r.2)
  | .cdata => (none, b)
  | .documentType => (none, b)

/-- `axiom_stax_builder_next`: the new node, and the events that are left. -/
def next : List Event → Builder → Option ℕ × List Event × Builder
  | [], b =>
    if b.done then (none, [], { b with error := some .builderDoneCannotPull }) else (none, [], b)
  | e :: es, b =>
    if b.done then (none, e :: es, { b with error := some .builderDoneCannotPull })
    else
      match pull b e with
      | (some n, b) => (some n, es, b)
      | (none, b) => next es b

/-- The switch of `axiom_stax_builder_next_with_token`; false is a return of -1. -/
def pullToken (b : Builder) : Event → Bool × Builder
  | .startDocument => (true, b)
  | .startElement tag =>
    let r := createOmElement b tag false
    (r.1.isSome, r.2)
  | .emptyElement tag =>
    let r := createOmElement b tag !b.libxml2
    if r.1.isSome then (true, endElement r.2) else (false, r.2)
  | .endElement => (true, endElement b)
  | .space value =>
    if b.lastNode.isSome then
      let r := createOmText b value
      (r.1.isSome, r.2)
    else (true, b)
  | .character value =>
    let r := createOmText b value
    (r.1.isSome, r.2)
  | .entityReference => (true, b)
  | .comment value =>
    let r := createOmComment b value
    (true, if r.1.isSome then endElement r.2 else r.2)
  | .processingInstruction target data =>
    let r := createOmProcessingInstruction b target data
    (true, if r.1.isSome then endElement r.2 else r.2)
  | .cdata => (true, b)
  | .documentType => (true, b)

/-- `axiom_stax_builder_next_with_token`. -/
def nextWithToken (es : List Event) (b : Builder) : Bool × List Event × Builder :=
  if b.done then (false, es, { b with error := some .builderDoneCannotPull })
  else
    match es with
    | [] => (false, [], { b with done := true })
    | e :: es =>
      let r := pullToken b e
      (r.1, es, r.2)

end Pull

section Document

/-- `axiom_document_build_next`. -/
def documentBuildNext (es : List Event) (b : Builder) : Option ℕ × List Event × Builder :=
  match b.documentRoot with
  | none =>
    match next es b with
    | (some n, es, b) => (some n, es, { b with documentRoot := some n })
    | (none, es, b) => (none, es, b)
  | some root => if isComplete b.heap root then (none, es, b) else next es b

/-- `axiom_document_get_root_element`. -/
def documentGetRootElement (es : List Event) (b : Builder) : Option ℕ × List Event × Builder :=
  match b.documentRoot with
  | some root => (some root, es, b)
  | none =>
    let r := documentBuildNext es b
    (r.2.2.documentRoot, r.2.1, r.2.2)

/-- The loop of `axiom_document_build_all`. -/
def buildLoop : ℕ → List Event → Builder → Option (Option ℕ × List Event × Builder)
  | 0, _, _ => none
  | fuel + 1, es, b =>
    match documentBuildNext es b with
    | (none, es, b) => some (b.documentRoot.filter (isComplete b.heap), es, b)
    | (some _, es, b) =>
      if (b.documentRoot.map (isComplete b.heap)).getD false then some (b.documentRoot, es, b)
      else buildLoop fuel es b

/-- `axiom_document_build_all`. A turn of its loop that makes a node takes an event,
so that the fuel is enough. -/
def documentBuildAll (es : List Event) (b : Builder) :
    Option (Option ℕ × List Event × Builder) :=
  let r := documentGetRootElement es b
  match r.1 with
  | none => some (none, r.2.1, r.2.2)
  | some _ => buildLoop (r.2.1.length + 1) r.2.1 r.2.2

end Document

section Accessors

/-- Events are pulled while a condition holds; false is a return of -1. -/
def pullWhile (cond : Builder → Bool) : List Event → Builder → Bool × List Event × Builder
  | [], b => if cond b then nextWithToken [] b else (true, [], b)
  | e :: es, b =>
    if cond b then
      match nextWithToken (e :: es) b with
      | (true, _, b) => pullWhile cond es b
      | (false, es, b) => (false, es, b)
    else (true, e :: es, b)

/-- What `axiom_node_get_first_child` waits for. -/
def awaitsChild (n : ℕ) (b : Builder) : Bool :=
  (b.heap.firstChild n).isNone && !(b.heap.data n).done && (b.heap.data n).builder

/-- What `axiom_node_get_next_sibling` waits for. -/
def awaitsSibling (n : ℕ) (b : Builder) : Bool :=
  (b.heap.next n).isNone && (b.heap.data n).builder &&
    ((b.heap.parent n).map fun parent => !isComplete b.heap parent).getD false

/-- `axiom_node_get_first_child`. -/
def getFirstChild (n : ℕ) (es : List Event) (b : Builder) : Option ℕ × List Event × Builder :=
  match pullWhile (awaitsChild n) es b with
  | (true, es, b) => (b.heap.firstChild n, es, b)
  | (false, es, b) => (none, es, b)

/-- `axiom_node_get_next_sibling`. -/
def getNextSibling (n : ℕ) (es : List Event) (b : Builder) : Option ℕ × List Event × Builder :=
  match pullWhile (awaitsSibling n) es b with
  | (true, es, b) => (b.heap.next n, es, b)
  | (false, es, b) => (none, es, b)

/-- The loop of `axiom_node_get_first_element`. -/
def firstElementFrom :
    ℕ → Option ℕ → List Event → Builder → Option (Option ℕ × List Event × Builder)
  | _, none, es, b => some (none, es, b)
  | 0, some _, _, _ => none
  | fuel + 1, some n, es, b =>
    if (b.heap.data n).nodeType = .element then some (some n, es, b)
    else
      let r := getNextSibling n es b
      firstElementFrom fuel r.1 r.2.1 r.2.2

/-- `axiom_node_get_first_element`; its fuel bounds the number of children. -/
def getFirstElement (fuel n : ℕ) (es : List Event) (b : Builder) :
    Option (Option ℕ × List Event × Builder) :=
  let r := getFirstChild n es b
  firstElementFrom fuel r.1 r.2.1 r.2.2

end Accessors

end Axis2C.Om
