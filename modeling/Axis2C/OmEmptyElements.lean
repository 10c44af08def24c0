import Axis2C.OmBuilderDeferred
import Axis2C.OmDetachNames

/-!
# Elements that were read as empty tags

The builder marks an element that was read as an empty tag, unless the parser is the one of
libxml2, and a marked element is written as an empty tag. `axiom_node_add_child` does not look
at the mark, and nothing takes it off. The nodes are built, so that serializing pulls nothing,
and the writer succeeds.
-/
namespace Axis2C.Om

open OrderedTrees DoublyLinked

section Source

/-- A call of the XML writer; a URI and a prefix are those of its variants with a namespace. -/
inductive WriterCall where
  | startElement (localName : String) (uri nsPrefix : Option String)
  | emptyElement (localName : String) (uri nsPrefix : Option String)
  | endElement
  | attribute (localName value : String) (uri nsPrefix : Option String)
  | declaration (nsPrefix : Option String) (uri : String)
  | leaf (n : ℕ)
  deriving DecidableEq, Repr

/-- `axiom_output_write` for an element, which goes by the number of its arguments. -/
def outputWriteElement : List (Option String) → List WriterCall
  | [] => [.endElement]
  | [some name] => [.startElement name none none]
  | [some name, uri] => [.startElement name uri none]
  | [some name, uri, nsPrefix] => [.startElement name uri nsPrefix]
  | [some name, none, _, _] => [.emptyElement name none none]
  | [some name, some uri, nsPrefix, _] => [.emptyElement name (some uri) nsPrefix]
  | _ => []

def Namespace.writtenPrefix (ns : Namespace) : Option String := ns.nsPrefix.filter (· ≠ "")

/-- What `axiom_element_serialize_start_part` hands to `axiom_output_write` for the tag. -/
def startArguments (e : Element) : List (Option String) :=
  match e.isEmpty, e.ns with
  | true, none => [some e.localName, none, none, none]
  | true, some ns => [some e.localName, some ns.uri, ns.writtenPrefix, none]
  | false, none => [some e.localName]
  | false, some ns =>
    match ns.writtenPrefix with
    | none => [some e.localName, some ns.uri]
    | some nsPrefix => [some e.localName, some ns.uri, some nsPrefix]

/-- `axiom_attribute_serialize`. -/
def serializeAttribute (a : Attribute) : WriterCall :=
  .attribute a.localName a.value (a.ns.map Namespace.uri) (a.ns.bind Namespace.writtenPrefix)

/-- `axiom_namespace_serialize`. The prefix `xml` is not declared. -/
def serializeNamespace (ns : Namespace) : List WriterCall :=
  if ns.writtenPrefix = some "xml" then [] else [.declaration ns.writtenPrefix ns.uri]

/-- The attributes and the declarations of an element. -/
def inTag (e : Element) : List WriterCall :=
  e.attributes.map (fun entry => serializeAttribute entry.2) ++
    e.namespaces.flatMap fun entry => serializeNamespace entry.2

/-- `axiom_element_serialize_start_part`. -/
def serializeStartPart (e : Element) : List WriterCall :=
  outputWriteElement (startArguments e) ++ inTag e

/-- `axiom_element_serialize_end_part`. -/
def serializeEndPart : List WriterCall := outputWriteElement []

def writePart (h : OmHeap) : Part → List WriterCall
  | .start n => ((elementAt h n).map serializeStartPart).getD []
  | .leaf n => [.leaf n]
  | .finish _ => serializeEndPart

def written (h : OmHeap) (parts : List Part) : List WriterCall := parts.flatMap (writePart h)

/-- `axiom_node_add_child`, with the namespaces of the child. -/
def nodeAddChild (fuel : ℕ) (h : OmHeap) (n child : ℕ) : Option OmHeap :=
  ((if (h.parent child).isSome then detach fuel h child else some h).map fun h =>
    addChild h n child)

/-- What a client does with a tree. A new node is not in it yet. -/
inductive Edit where
  | create (n : ℕ) (d : Node Payload)
  | addChild (n child : ℕ)
  | detach (n : ℕ)
  | serialize (n : ℕ)

/-- The heap after a call; the fuel is for the namespaces of a detached element. -/
def Edit.step (fuel : ℕ) (h : OmHeap) : Edit → Option OmHeap
  | create n d => some (nodeCreate h n d)
  | addChild n child => nodeAddChild fuel h n child
  | detach n => Om.detach fuel h n
  | serialize _ => some h

end Source

section Law

/-- The trees that are written from a node: its own, and those of its siblings when it has no
children, up to the first that has some. -/
inductive Covers (h : OmHeap) : ℕ → Trees ℕ → Prop where
  | last {n : ℕ} {children : Trees ℕ} (hchildren : Chain h (h.firstChild n) children)
      (hend : h.firstChild n ≠ none ∨ h.next n = none) : Covers h n (.node n children .nil)
  | next {n s : ℕ} {rest : Trees ℕ} (hfirst : h.firstChild n = none) (hnext : h.next n = some s)
      (hrest : Covers h s rest) : Covers h n (.node n .nil rest)

def openTag (e : Element) : List WriterCall :=
  .startElement e.localName (e.ns.map Namespace.uri) (e.ns.bind Namespace.writtenPrefix) :: inTag e

def tagFor (e : Element) : Trees ℕ → List WriterCall
  | .nil => serializeStartPart e
  | .node _ _ _ => openTag e

/-- The calls for trees: each element has its tag, its children and one end. -/
def tagged (h : OmHeap) : Trees ℕ → List WriterCall
  | .nil => []
  | .node n children rest =>
    (match elementAt h n with
      | some e => tagFor e children ++ tagged h children ++ [.endElement]
      | none => written h (startPart h n).toList ++ tagged h children) ++ tagged h rest

/-- `axiom_node_serialize` returns, stays in its array and writes the trees. -/
def WritesTags (h : OmHeap) (n : ℕ) : Prop :=
  ∃ fuel w trees, Covers h n trees ∧ serialize h (fun _ => true) fuel n = some w ∧
    w.success = true ∧ w.overflow = false ∧ written h w.calls = tagged h trees

def NoEmptyParents (h : OmHeap) : Prop :=
  ∀ n e, h.live n = true → elementAt h n = some e → e.isEmpty = true → h.firstChild n = none

/-- A node as one of the create functions makes it. -/
def FreshData (d : Node Payload) : Prop :=
  d.nodeType = .element → ∀ payload, d.dataElement = some payload →
    ∃ e, payload = .element e ∧ e.isEmpty = false

namespace Edit

/-- The nodes are live, and none is put under itself or under a node below it. -/
def Legal (h : OmHeap) : Edit → Prop
  | create n d => h.live n = false ∧ FreshData d
  | addChild n child => h.live n = true ∧ h.live child = true ∧ ¬ Below h n child
  | detach n => h.live n = true
  | serialize n => h.live n = true

/-- The parent of a new child is not marked as empty, and what is written has at most 256
levels. -/
def Meets (h : OmHeap) : Edit → Prop
  | addChild n _ => ∀ e, elementAt h n = some e → e.isEmpty = false
  | serialize n => ∃ trees, Covers h n trees ∧ trees.height ≤ 256
  | _ => True

/-- What is written has its tags, and an edit leaves no marked element with children. -/
def Law (h h' : OmHeap) : Edit → Prop
  | serialize n => WritesTags h n
  | _ => NoEmptyParents h'

end Edit

/-- The heaps that a client gets to with calls that meet the condition. -/
inductive Edited (start : OmHeap) : OmHeap → Prop where
  | start : Edited start start
  | call {h h' : OmHeap} {fuel : ℕ} {call : Edit} (hrun : Edited start h) (hlegal : call.Legal h)
      (hmeets : call.Meets h) (hstep : call.step fuel h = some h') : Edited start h'

end Law

section Marks

variable {b b' : Builder} {o : Outline} {p : ℕ} {rest : List ℕ} {d : Node Payload}

def MarksClosed (b : Builder) (o : Outline) : Prop :=
  ∀ n < o.used, ∀ e, elementAt b.heap n = some e → e.isEmpty = true →
    o.kids n = [] ∧ n ∉ o.openNodes

lemma setIsEmpty_mark {h : OmHeap} {n : ℕ} {isEmpty : Bool} {e : Element}
    (he : elementAt (setIsEmpty h n isEmpty) n = some e) : e.isEmpty = isEmpty := by
  unfold setIsEmpty at he
  cases hn : elementAt h n with
  | none => simp [hn] at he
  | some e' =>
    simp only [hn, elementAt_setElement hn, Option.some.injEq] at he
    rw [← he]

lemma createOmElement_mark {tag : StartTag} {isEmpty : Bool} {e : Element}
    (he : elementAt (createOmElement b tag isEmpty).2.heap b.used = some e) :
    e.isEmpty = isEmpty := setIsEmpty_mark he

section

variable (hm : MarksClosed b o) (ht : Tracks b o) (hopen : o.openNodes = p :: rest)

include hm ht hopen

/-- A new child, which may be marked. -/
lemma MarksClosed.addsNode (ha : AddsNode b b' p d) (label : Option Label) :
    MarksClosed b' (o.addKid label) := by
  intro n hn e he hmark
  have hpu := ht.bounded p (by simp [hopen])
  rw [Outline.addKid_openNodes]
  rw [Outline.addKid_eq hopen] at hn ⊢
  simp only at hn ⊢
  by_cases hnew : n = o.used
  · subst hnew
    refine ⟨?_, fun hmem => ?_⟩
    · rw [Function.update_of_ne (by omega)]
      exact ht.unborn _ le_rfl
    · have := ht.bounded _ hmem
      omega
  · have hlt : n < o.used := by omega
    rw [ha.elementAt ht hlt] at he
    obtain ⟨hkids, hno⟩ := hm n hlt e he hmark
    refine ⟨?_, hno⟩
    rw [Function.update_of_ne (by rintro rfl; exact hno (by simp [hopen])), hkids]

/-- A new child that is open, and is not marked. -/
lemma MarksClosed.enter (ha : AddsNode b b' p d) (label : Option Label)
    (hnew : ∀ e, elementAt b'.heap b.used = some e → e.isEmpty = false) :
    MarksClosed b' (o.enter label) := by
  intro n hn e he hmark
  obtain ⟨hkids, hno⟩ := hm.addsNode ht hopen ha label n hn e he hmark
  refine ⟨hkids, fun hmem => ?_⟩
  obtain rfl | hmem := List.mem_cons.mp hmem
  · rw [← ht.used] at he
    simp [hnew e he] at hmark
  · exact hno (by rwa [Outline.addKid_openNodes])

lemma MarksClosed.endElement : MarksClosed (Om.endElement b) o.leave := by
  intro n hn e he hmark
  rw [ht.endElement_eq hopen] at he
  simp only [elementAt_nodeSetComplete] at he
  obtain ⟨hkids, hno⟩ := hm n hn e he hmark
  exact ⟨hkids, fun hmem => hno (List.mem_of_mem_tail hmem)⟩

end

lemma MarksClosed.pull (hm : MarksClosed b o) (ht : Tracks b o) (hopen : o.openNodes ≠ [])
    {e : Event} (he : e.Proper) : MarksClosed (pull b e).2 (o.step e) := by
  obtain ⟨p, rest, hopen⟩ := List.exists_cons_of_ne_nil hopen
  have hvalued := he.valued
  cases e with
  | startDocument | entityReference | cdata | documentType => exact hm
  | startElement tag =>
    obtain ⟨e, -, ha, -⟩ := ht.createOmElement hopen tag false
    exact hm.enter ht hopen ha _ fun e he => createOmElement_mark he
  | emptyElement tag =>
    obtain ⟨e, -, ha, -⟩ := ht.createOmElement hopen tag (!b.libxml2)
    exact hm.addsNode ht hopen (ha.endElement ht hopen rfl).1 _
  | endElement => exact hm.endElement ht hopen
  | space value | character value =>
    obtain ⟨value, rfl⟩ := Option.isSome_iff_exists.mp hvalued
    exact hm.addsNode ht hopen (ht.createOmText hopen value).2.1 _
  | comment value =>
    obtain ⟨value, rfl⟩ := Option.isSome_iff_exists.mp hvalued
    obtain ⟨-, ha, -⟩ := ht.createOmComment hopen value
    exact hm.addsNode ht hopen (ha.endElement ht hopen rfl).1 _
  | processingInstruction target data =>
    obtain ⟨target, rfl⟩ := Option.isSome_iff_exists.mp hvalued.1
    obtain ⟨data, rfl⟩ := Option.isSome_iff_exists.mp hvalued.2
    obtain ⟨-, ha, -⟩ := ht.createOmProcessingInstruction hopen target data
    exact hm.addsNode ht hopen (ha.endElement ht hopen rfl).1 _

/-- The root alone. -/
lemma Blank.marksClosed (hb : Blank b) (doc : Document) :
    MarksClosed (Om.pull b doc.root).2 (rootOutline doc.root) := by
  have hstarts := doc.rootStarts
  cases hroot : doc.root with
  | startElement tag =>
    intro n hn e he hmark
    obtain rfl : n = 0 := Nat.lt_one_iff.mp hn
    have hfalse := @createOmElement_mark b tag false e (by rw [hb.used]; exact he)
    simp [hfalse] at hmark
  | emptyElement tag => exact fun n hn e he hmark => ⟨rfl, List.not_mem_nil⟩
  | _ => simp [hroot, Event.startsElement] at hstarts

lemma payload_of_label {label : Label} {payload : Payload} (hlabel : nodeLabel d = some label)
    (htype : d.nodeType = .element) (hpayload : d.dataElement = some payload) :
    ∃ e, payload = .element e := by
  unfold nodeLabel at hlabel
  rw [htype, hpayload] at hlabel
  cases payload with
  | element e => exact ⟨e, rfl⟩
  | _ => simp at hlabel

/-- A node that is an element has the data of an element. -/
def Typed (h : OmHeap) : Prop :=
  ∀ n, h.live n = true → (h.data n).nodeType = .element → ∀ payload,
    (h.data n).dataElement = some payload → ∃ e, payload = .element e

/-- What the edits keep. -/
structure Editable (h : OmHeap) : Prop where
  forest : Forest h
  typed : Typed h
  noEmptyParents : NoEmptyParents h

lemma editable_of_built (doc : Document) (libxml2 : Bool) {es : List Event}
    (hbuild : documentBuildAll doc.events (builderCreate libxml2) = some (some 0, es, b)) :
    Editable b.heap := by
  have hdata : ∀ e ∈ contentEvents doc.tree, e.lacksData = false := by
    intro e he
    by_contra hlacks
    exact doc.buildAll_doomed libxml2 ⟨e, he, by simpa using hlacks⟩ es b hbuild
  obtain ⟨es', b', hbuild', -, ht, hm⟩ := doc.buildAll_keeps libxml2 (K := MarksClosed)
    (fun c o e ht hopen he hm => hm.pull ht hopen he) (fun c o error hm => hm)
    (fun c hc => hc.marksClosed doc) hdata
  rw [hbuild, Option.some.injEq] at hbuild'
  obtain rfl : b = b' := congrArg (fun r => r.2.2) hbuild'
  have hlt (n : ℕ) (hn : b.heap.live n = true) := (ht.live n).mp hn
  refine ⟨ht.forest, fun n hn htype payload hpayload => ?_, fun n e hn he hmark => ?_⟩
  · have hw := (doc.whole libxml2 hdata).1
    obtain ⟨label, hlabel⟩ := hw.named.run hw.stays hw.proper n (hlt n hn)
    exact payload_of_label ((ht.labelled n (hlt n hn)).trans hlabel) htype hpayload
  · rw [(ht.children n (hlt n hn)).first, (hm n (hlt n hn) e he hmark).1]
    rfl

end Marks

section Writing

variable {h : OmHeap} {n : ℕ} {e : Element} {trees children : Trees ℕ}

lemma Forest.live_first (hf : Forest h) {c : ℕ} (hn : h.live n = true)
    (hfirst : h.firstChild n = some c) : h.live c = true := by
  obtain ⟨cs, hcs⟩ := hf.children n hn
  rw [hcs.first] at hfirst
  exact ((hcs.members c).mp (List.mem_of_mem_head? hfirst)).1

@[simp] lemma written_append (parts parts' : List Part) :
    written h (parts ++ parts') = written h parts ++ written h parts' := List.flatMap_append

/-- An element that is not marked has a start tag. -/
lemma serializeStartPart_plain (hmark : e.isEmpty = false) : serializeStartPart e = openTag e := by
  unfold serializeStartPart openTag startArguments
  rw [hmark]
  cases hns : e.ns with
  | none => rfl
  | some ns =>
    cases hp : ns.writtenPrefix with
    | none | some nsPrefix => simp [hp, outputWriteElement]

lemma serializeStartPart_marked (hmark : e.isEmpty = true) :
    ∃ uri nsPrefix, serializeStartPart e = .emptyElement e.localName uri nsPrefix :: inTag e := by
  unfold serializeStartPart startArguments
  rw [hmark]
  cases e.ns with
  | none => exact ⟨none, none, rfl⟩
  | some ns => exact ⟨some ns.uri, ns.writtenPrefix, rfl⟩

lemma parts_element (he : elementAt h n = some e) :
    startPart h n = some (.start n) ∧ endPart h n = some (.finish n) := by
  obtain ⟨htype, hdata⟩ := elementAt_eq_some.mp he
  simp [startPart, endPart, htype, hdata]

lemma Typed.endPart_none (ht : Typed h) (hn : h.live n = true) (he : elementAt h n = none) :
    endPart h n = none := by
  unfold endPart
  split
  · rename_i payload hdata htype
    obtain ⟨e, rfl⟩ := ht n hn htype payload hdata
    rw [elementAt_eq_some.mpr ⟨htype, hdata⟩] at he
    simp at he
  · rfl

lemma Editable.written_node (hs : Editable h) (hn : h.live n = true)
    (hchain : Chain h (h.firstChild n) children)
    (hchildren : written h (traversal h children) = tagged h children) :
    written h (nodeCalls h n children) = tagged h (.node n children .nil) := by
  unfold nodeCalls
  rw [written_append, written_append, hchildren, tagged]
  cases he : elementAt h n with
  | none => simp [hs.typed.endPart_none hn he, written, tagged]
  | some e =>
    obtain ⟨hstart, hend⟩ := parts_element he
    have htag : serializeStartPart e = tagFor e children := by
      cases children with
      | nil => rfl
      | node c cs rest =>
        refine serializeStartPart_plain ?_
        by_contra hmark
        have hnone := hs.noEmptyParents n e hn he (by simpa using hmark)
        simp [Chain, hnone] at hchain
    simp [hstart, hend, written, writePart, he, htag, serializeEndPart, outputWriteElement, tagged]

lemma tagged_node (h : OmHeap) (n : ℕ) (children rest : Trees ℕ) :
    tagged h (.node n children rest) = tagged h (.node n children .nil) ++ tagged h rest := by
  simp [tagged]

/-- The calls of the traversal write the trees. -/
lemma Editable.written_chain (hs : Editable h) {first : Option ℕ} (hchain : Chain h first trees)
    (hlive : ∀ n, first = some n → h.live n = true) :
    written h (traversal h trees) = tagged h trees := by
  induction trees generalizing first with
  | nil => rfl
  | node n children rest ihc ihr =>
    obtain ⟨rfl, hchildren, hrest⟩ := hchain
    have hn := hlive n rfl
    rw [traversal_node, written_append, tagged_node]
    congr 1
    · exact hs.written_node hn hchildren (ihc hchildren fun c hc => hs.forest.live_first hn hc)
    · exact ihr hrest fun s hs' => hs.forest.live_next hn hs'

lemma Editable.written_covers (hs : Editable h) (hcovers : Covers h n trees) (hn : h.live n = true) :
    written h (traversal h trees) = tagged h trees := by
  induction hcovers with
  | @last n children hchildren hend =>
    have hinner := hs.written_chain hchildren fun c hc => hs.forest.live_first hn hc
    rw [traversal_node, written_append, hs.written_node hn hchildren hinner]
    simp [written, traversal, Trees.walk]
  | @next n s rest hfirst hnext hrest ih =>
    have hleaf : Chain h (h.firstChild n) .nil := hfirst
    rw [traversal_node, written_append, tagged_node, ih (hs.forest.live_next hn hnext),
      hs.written_node hn hleaf rfl]

/-- A round at the top of the array, at a node without children in front of a sibling. -/
lemma round_sibling {temp : Option ℕ} {s : ℕ} {calls : List Part} (hfirst : h.firstChild n = none)
    (hnext : h.next n = some s) :
    serializeRound false h (fun _ => true) ⟨n, temp, [n], calls, true, false⟩ =
      (true, ⟨s, some s, [s], calls ++ nodeCalls h n .nil, true, false⟩) := by
  unfold serializeRound
  rw [Walk.call_true _ rfl]
  simp only [Bool.not_true, Bool.false_eq_true, if_false, hfirst]
  rw [Walk.call_true _ rfl]
  simp [hnext, nodeCalls, traversal, Trees.walk]

/-- The walk goes over the trees that it covers. -/
lemma serializeLoop_covers (hcovers : Covers h n trees) {temp : Option ℕ} {calls : List Part} :
    ∃ fuel w, serializeLoop false h (fun _ => true) fuel ⟨n, temp, [n], calls, true, false⟩ =
        some w ∧
      w.success = true ∧ w.calls = calls ++ traversal h trees ∧
      (w.overflow = true ↔ 256 < trees.height) := by
  induction hcovers generalizing temp calls with
  | @last n children hchildren hend =>
    obtain ⟨fuel, w, hr, hsuccess, hcalls, hoverflow⟩ :=
      @serializeLoop_top _ h false n temp calls children hchildren (.inr hend)
    refine ⟨fuel, w, hr, hsuccess, ?_, ?_⟩
    · rw [hcalls, traversal_node]
      simp [traversal, Trees.walk]
    · rw [hoverflow]
      simp [Trees.height, Nat.add_comm]
  | @next n s rest hfirst hnext hrest ih =>
    obtain ⟨fuel, w, hr, hsuccess, hcalls, hoverflow⟩ :=
      @ih (some s) (calls ++ nodeCalls h n .nil)
    refine ⟨fuel + 1, w, ?_, hsuccess, ?_, ?_⟩
    · rw [serializeLoop_succ, round_sibling hfirst hnext, resume, if_pos rfl, hr]
    · rw [hcalls, traversal_node, List.append_assoc]
    · rw [hoverflow]
      simp only [Trees.height]
      omega

/-- From a sound heap the tags are right exactly when the array is large enough. -/
lemma Editable.writesTags_iff (hs : Editable h) (hn : h.live n = true) :
    WritesTags h n ↔ ∃ trees, Covers h n trees ∧ trees.height ≤ 256 := by
  constructor
  · rintro ⟨fuel, w, trees, hcovers, hr, -, hoverflow, -⟩
    refine ⟨trees, hcovers, ?_⟩
    obtain ⟨fuel', w', hr', -, -, hiff⟩ := @serializeLoop_covers h n trees hcovers (none) []
    obtain rfl : w = w' := serializeLoop_unique _ hr hr'
    simpa [hoverflow] using hiff
  · rintro ⟨trees, hcovers, hheight⟩
    obtain ⟨fuel, w, hr, hsuccess, hcalls, hiff⟩ := @serializeLoop_covers h n trees hcovers none []
    refine ⟨fuel, w, trees, hcovers, hr, hsuccess, ?_, ?_⟩
    · rw [Bool.eq_false_iff]
      intro hoverflow
      have := hiff.mp hoverflow
      omega
    · rw [hcalls, List.nil_append]
      exact hs.written_covers hcovers hn

lemma not_writesTags_of_marked (he : elementAt h n = some e) (hmark : e.isEmpty = true)
    (hfirst : h.firstChild n ≠ none) : ¬ WritesTags h n := by
  rintro ⟨fuel, w, trees, hcovers, hr, -, -, hwritten⟩
  obtain ⟨c, hfirst⟩ := Option.ne_none_iff_exists'.mp hfirst
  -- the first call is the one for the node itself
  obtain ⟨later, hcalls⟩ := serializeLoop_calls _ fuel hr
  obtain ⟨uri, nsPrefix, hempty⟩ := serializeStartPart_marked hmark
  have hstart : startPart h (startWalk n).omNode = some (.start n) := (parts_element he).1
  rw [← hcalls, written_append, hstart] at hwritten
  cases hcovers with
  | next hnone _ _ => simp [hfirst] at hnone
  | @last _ children hchildren _ =>
    cases children with
    | nil => simp [Chain, hfirst] at hchildren
    | node c' cs rest =>
      simp [startWalk, written, writePart, he, hempty, tagged, tagFor, openTag] at hwritten

end Writing

section Edits

variable {h h' : OmHeap} {n child root fuel lookup : ℕ} {e : Element} {d : Node Payload}

/-- The walk leaves another table at the root of the subtree, and nothing else. -/
lemma redeclare_retable (he : elementAt h root = some e) (fuel : ℕ) :
    (∀ t inscope n s', redeclareParentNamespaces lookup root fuel (retable h root e t, inscope) n =
      some s' → ∃ t', s'.1 = retable h root e t') ∧
    ∀ t inscope c s', redeclareChildren lookup root fuel (retable h root e t, inscope) c =
      some s' → ∃ t', s'.1 = retable h root e t' := by
  induction fuel with
  | zero =>
    refine ⟨fun t inscope n s' hr => by simp [redeclareParentNamespaces] at hr,
      fun t inscope c s' hr => ?_⟩
    cases c with
    | none =>
      simp only [redeclareChildren, Option.some.injEq] at hr
      exact ⟨t, by rw [← hr]⟩
    | some c => simp [redeclareChildren] at hr
  | succ fuel ih =>
    obtain ⟨ihparent, ihchildren⟩ := ih
    refine ⟨fun t inscope n s' hr => ?_, fun t inscope c s' hr => ?_⟩
    · unfold redeclareParentNamespaces at hr
      cases hn : elementAt (retable h root e t) n with
      | none =>
        simp only [hn, Option.some.injEq] at hr
        exact ⟨t, by rw [← hr]⟩
      | some en =>
        obtain ⟨t', inscope', huse⟩ := @useAll_retable h root lookup e he t inscope (ownUses n en)
        simp only [hn, useAll_own, huse] at hr
        exact ihchildren t' inscope' _ s' hr
    · cases c with
      | none =>
        simp only [redeclareChildren, Option.some.injEq] at hr
        exact ⟨t, by rw [← hr]⟩
      | some c =>
        unfold redeclareChildren at hr
        split at hr
        · obtain rfl := Option.some.inj hr
          exact ⟨t, rfl⟩
        · obtain ⟨⟨h1, inscope1⟩, hfirst, hrest⟩ := Option.bind_eq_some_iff.mp hr
          obtain ⟨t1, rfl⟩ : ∃ t1, h1 = retable h root e t1 := by
            split at hfirst
            · exact ihparent t inscope c _ hfirst
            · simp only [Option.some.injEq, Prod.mk.injEq] at hfirst
              exact ⟨t, hfirst.1.symm⟩
          exact ihchildren t1 inscope1 _ s' hrest

/-- What `axiom_node_detach` leaves: the node is cut off, and an element can have another
table. -/
lemma detach_cases (hr : detach fuel h n = some h') :
    h' = detachWithoutNamespaces h n ∨ ∃ e t, elementAt (detachWithoutNamespaces h n) n = some e ∧
      h' = retable (detachWithoutNamespaces h n) n e t := by
  unfold detach at hr
  cases he : elementAt h n with
  | none =>
    simp only [he, Option.some.injEq] at hr
    exact .inl hr.symm
  | some e =>
    have he' : elementAt (detachWithoutNamespaces h n) n = some e := by rw [elementAt_detach, he]
    simp only [he] at hr
    split at hr
    · exact .inl (Option.some.inj hr).symm
    · obtain ⟨s', hwalk, rfl⟩ := Option.map_eq_some_iff.mp hr
      rw [← retable_self he'] at hwalk
      obtain ⟨t, ht⟩ := (redeclare_retable he' fuel).1 _ _ n s' hwalk
      exact .inr ⟨e, t, he', ht⟩

/-- A node without children has none after another one was cut off. -/
lemma Forest.detach_first (hf : Forest h) (hn : h.live n = true) {q : ℕ}
    (hq : h.firstChild q = none) : (detachWithoutNamespaces h n).firstChild q = none := by
  cases hp : h.parent n with
  | none => simp [detachWithoutNamespaces, hp, hq]
  | some p =>
    obtain ⟨xs, ys, hcs, hprev, hnext⟩ := hf.place ⟨hn, hp⟩
    rw [(detach_removed hp hcs hprev hnext).first]
    have hne : q ≠ p := by
      rintro rfl
      simp [hcs.first] at hq
    rw [if_neg hne, hq]

/-- What is left of a node that is cut off. -/
structure CutOff (h h' : OmHeap) (n : ℕ) : Prop where
  editable : Editable h'
  live : h'.live = h.live
  parent : ∀ c, h'.parent c = if c = n then none else h.parent c
  mark : ∀ m, (elementAt h' m).map Element.isEmpty = (elementAt h m).map Element.isEmpty

lemma Editable.cutOff (hs : Editable h) (hn : h.live n = true) :
    CutOff h (detachWithoutNamespaces h n) n := by
  obtain ⟨hf, hlive, hparent⟩ := hs.forest.detach hn
  refine ⟨⟨hf, fun m hm => ?_, fun m e hm he hmark => ?_⟩, hlive, hparent, fun m => ?_⟩
  · rw [detach_data]
    exact hs.typed m (by rwa [hlive] at hm)
  · rw [elementAt_detach] at he
    exact hs.forest.detach_first hn (hs.noEmptyParents m e (by rwa [hlive] at hm) he hmark)
  · rw [elementAt_detach]

/-- Another table changes no mark. -/
lemma CutOff.retable (hc : CutOff h h' n) (he : elementAt h' root = some e)
    (t : List (String × Namespace)) : CutOff h (retable h' root e t) n := by
  have hmark (m : ℕ) : (elementAt (Om.retable h' root e t) m).map Element.isEmpty =
      (elementAt h' m).map Element.isEmpty := by
    rw [elementAt_retable he]
    by_cases hm : m = root
    · simp [hm, he]
    · rw [if_neg hm]
  refine ⟨⟨hc.editable.forest.setData, fun m hm htype payload hpayload => ?_,
    fun m em hm hem hempty => ?_⟩, hc.live, hc.parent, fun m => (hmark m).trans (hc.mark m)⟩
  · rw [retable_nodeType] at htype
    by_cases hroot : m = root
    · subst hroot
      simp only [Om.retable, setElement, Heap.setData, Function.update_self, Option.some.injEq]
        at hpayload
      exact ⟨_, hpayload.symm⟩
    · refine hc.editable.typed m hm htype payload ?_
      simpa [Om.retable, setElement, Heap.setData, hroot] using hpayload
  · obtain ⟨e', he', hempty'⟩ := Option.map_eq_some_iff.mp
      ((hmark m).symm.trans (by rw [hem, Option.map_some, hempty]))
    exact hc.editable.noEmptyParents m e' hm he' hempty'

lemma Editable.detach (hs : Editable h) (hn : h.live n = true) (hr : Om.detach fuel h n = some h') :
    CutOff h h' n := by
  obtain rfl | ⟨e, t, he, rfl⟩ := detach_cases hr
  · exact hs.cutOff hn
  · exact (hs.cutOff hn).retable he t

lemma Forest.detach_returns (hf : Forest h) (hn : h.live n = true) :
    ∃ bound, ∀ fuel, bound ≤ fuel → (Om.detach fuel h n).isSome := by
  cases he : elementAt h n with
  | none => exact ⟨0, fun fuel _ => by simp [Om.detach, he]⟩
  | some e =>
    obtain ⟨hf', hlive, -⟩ := hf.detach hn
    have he' : elementAt (detachWithoutNamespaces h n) n = some e := by rw [elementAt_detach, he]
    obtain ⟨us, bound, hwalk⟩ := redeclare_spec hf' he' (by rw [hlive, hn]) (by simp [he'])
    refine ⟨bound, fun fuel hfuel => ?_⟩
    have hrun := hwalk.walk fuel hfuel fuel e.namespaces (gatherParentNamespaces h e fuel n [])
    simp only [retable_self he'] at hrun
    simp only [Om.detach, he]
    split
    · rfl
    · simp [hrun]

/-- A new node is sound. -/
lemma Editable.create (hs : Editable h) (hn : h.live n = false) (hd : FreshData d) :
    Editable (nodeCreate h n d) := by
  have hdata {m : ℕ} (hm : m ≠ n) : (nodeCreate h n d).data m = h.data m := by
    simp [nodeCreate, hm]
  have hlive {m : ℕ} (hm : m ≠ n) : (nodeCreate h n d).live m = h.live m := by
    simp [nodeCreate, hm]
  have hself : (nodeCreate h n d).data n = d := by simp [nodeCreate]
  refine ⟨hs.forest.nodeCreate hn d, fun m hm htype payload hpayload => ?_,
    fun m e hm he hmark => ?_⟩
  · by_cases hmn : m = n
    · rw [hmn, hself] at htype hpayload
      obtain ⟨e, he, -⟩ := hd htype payload hpayload
      exact ⟨e, he⟩
    · rw [hdata hmn] at htype hpayload
      exact hs.typed m (by rwa [hlive hmn] at hm) htype payload hpayload
  · by_cases hmn : m = n
    · obtain ⟨htype, hpayload⟩ := elementAt_eq_some.mp he
      rw [hmn, hself] at htype hpayload
      obtain ⟨e', he', hplain⟩ := hd htype _ hpayload
      obtain rfl := Payload.element.inj he'
      simp [hplain] at hmark
    · have he' : elementAt h m = some e := by
        rw [elementAt_eq_some, hdata hmn] at he
        exact elementAt_eq_some.mpr he
      have hnone := hs.noEmptyParents m e (by rwa [hlive hmn] at hm) he' hmark
      simpa [nodeCreate, hmn] using hnone

/-- Adding a single node is sound unless its parent is marked. -/
lemma Editable.addChild_iff (hs : Editable h) (hn : h.live n = true) (hc : h.live child = true)
    (hbelow : ¬ Below h n child) (hsingle : h.parent child = none) :
    (NoEmptyParents (addChild h n child) ↔ (elementAt h n).map Element.isEmpty ≠ some true) ∧
      (NoEmptyParents (addChild h n child) → Editable (addChild h n child)) := by
  obtain ⟨cs, hcs⟩ := hs.forest.children n hn
  obtain ⟨hprev, hnext⟩ := hs.forest.single child hc hsingle
  have hi := addChild_inserted hcs hsingle hprev hnext
  have hdata := addChild_data (p := n) hsingle
  have helement (m : ℕ) : elementAt (addChild h n child) m = elementAt h m := by
    unfold elementAt
    rw [hdata]
  have hfirst : (addChild h n child).firstChild n ≠ none := by
    rw [hi.first, if_pos rfl]
    simp
  refine ⟨⟨fun hno hmark => ?_, fun hplain m e hm he hmark => ?_⟩, fun hno =>
    ⟨hs.forest.addChild hn hc hbelow, fun m hm => ?_, hno⟩⟩
  · obtain ⟨e, he, hempty⟩ := Option.map_eq_some_iff.mp hmark
    exact hfirst (hno n e (by rw [hi.live, hn]) (by rw [helement, he]) hempty)
  · rw [helement] at he
    have hmn : m ≠ n := by
      rintro rfl
      simp [he, hmark] at hplain
    rw [hi.first, if_neg hmn]
    exact hs.noEmptyParents m e (by rwa [hi.live] at hm) he hmark
  · rw [hdata]
    exact hs.typed m (by rwa [hi.live] at hm)

/-- The child as `axiom_node_add_child` adds it. -/
lemma nodeAddChild_cases (hs : Editable h) (hc : h.live child = true)
    (hr : nodeAddChild fuel h n child = some h') :
    ∃ h1, CutOff h h1 child ∧ h' = addChild h1 n child := by
  obtain ⟨h1, hcut, rfl⟩ := Option.map_eq_some_iff.mp hr
  refine ⟨h1, ?_, rfl⟩
  split at hcut
  · exact hs.detach hc hcut
  · rename_i hparent
    obtain rfl := Option.some.inj hcut
    refine ⟨hs, rfl, fun c => ?_, fun m => rfl⟩
    split_ifs with hcc
    · rw [hcc]
      simpa using hparent
    · rfl

lemma nodeAddChild_returns (hf : Forest h) (hc : h.live child = true) (n : ℕ) :
    ∃ bound, ∀ fuel, bound ≤ fuel → (nodeAddChild fuel h n child).isSome := by
  obtain ⟨bound, hbound⟩ := hf.detach_returns hc
  refine ⟨bound, fun fuel hfuel => ?_⟩
  unfold nodeAddChild
  split
  · simpa using hbound fuel hfuel
  · rfl

end Edits

section Result

variable {h h' start : OmHeap} {call : Edit} {fuel : ℕ}

/-- A call obeys its law exactly when it meets its condition, and then the heap stays sound. -/
lemma Editable.step (hs : Editable h) (hlegal : call.Legal h) (hstep : call.step fuel h = some h') :
    (call.Law h h' ↔ call.Meets h) ∧ (call.Meets h → Editable h') := by
  cases call with
  | create n d =>
    obtain rfl := Option.some.inj hstep
    have hnew := hs.create hlegal.1 hlegal.2
    exact ⟨iff_of_true hnew.noEmptyParents trivial, fun _ => hnew⟩
  | detach n =>
    have hnew := (hs.detach hlegal hstep).editable
    exact ⟨iff_of_true hnew.noEmptyParents trivial, fun _ => hnew⟩
  | serialize n =>
    obtain rfl := Option.some.inj hstep
    exact ⟨hs.writesTags_iff hlegal, fun _ => hs⟩
  | addChild n child =>
    obtain ⟨hn, hc, hbelow⟩ := hlegal
    obtain ⟨h1, hcut, rfl⟩ := nodeAddChild_cases hs hc hstep
    have hbelow' : ¬ Below h1 n child := fun hb =>
      hbelow (below_of_detach hcut.live hcut.parent hb)
    obtain ⟨hiff, hsound⟩ := hcut.editable.addChild_iff (by rw [hcut.live, hn])
      (by rw [hcut.live, hc]) hbelow' (by rw [hcut.parent, if_pos rfl])
    have hmeets : (elementAt h1 n).map Element.isEmpty ≠ some true ↔
        (Edit.addChild n child).Meets h := by
      rw [hcut.mark]
      cases he : elementAt h n <;> simp [Edit.Meets, he]
    have hlaw := hiff.trans hmeets
    exact ⟨hlaw, fun hm => hsound (hlaw.mpr hm)⟩

lemma Edited.editable (hrun : Edited start h) (hs : Editable start) : Editable h := by
  induction hrun with
  | start => exact hs
  | call _ hlegal hmeets hstep ih => exact (ih.step hlegal hstep).2 hmeets

lemma Edit.returns (hf : Forest h) (hlegal : call.Legal h) :
    ∃ bound, ∀ fuel, bound ≤ fuel → (call.step fuel h).isSome := by
  cases call with
  | create n d | serialize n => exact ⟨0, fun _ _ => rfl⟩
  | addChild n child => exact nodeAddChild_returns hf hlegal.2.1 n
  | detach n => exact hf.detach_returns hlegal

/-- In every heap that a client gets to from a tree that was built, no element with children is
marked as empty, and each call returns and obeys its law exactly when it meets its condition. -/
theorem edited_tree_written (doc : Document) (libxml2 : Bool) {es : List Event} {b : Builder}
    (hbuild : documentBuildAll doc.events (builderCreate libxml2) = some (some 0, es, b))
    {h : OmHeap} (hrun : Edited b.heap h) :
    NoEmptyParents h ∧ ∀ call : Edit, call.Legal h →
      (∃ bound, ∀ fuel, bound ≤ fuel → (call.step fuel h).isSome) ∧
      ∀ fuel h', call.step fuel h = some h' → (call.Law h h' ↔ call.Meets h) := by
  have hs := hrun.editable (editable_of_built doc libxml2 hbuild)
  exact ⟨hs.noEmptyParents, fun call hlegal =>
    ⟨Edit.returns hs.forest hlegal, fun fuel h' hstep => (hs.step hlegal hstep).1⟩⟩

lemma Document.buildAll_built (doc : Document) (libxml2 : Bool)
    (hdata : ∀ e ∈ contentEvents doc.tree, e.lacksData = false) :
    documentBuildAll doc.events (builderCreate libxml2) = some (some 0, doc.built libxml2) := by
  obtain ⟨es, b, hbuild, -⟩ := doc.buildAll_tracks libxml2 hdata
  rw [Document.built, hbuild]
  rfl

/-- `<r><x/><y></y></r>`. -/
def documentEmptyFirst : Document where
  prolog := []
  root := .startElement ⟨"r", none, [], []⟩
  content := .node (.emptyElement ⟨"x", none, [], []⟩) .nil
    (.node (.startElement ⟨"y", none, [], []⟩) .nil .nil)
  epilog := []
  prologPlain := plain_nil
  rootStarts := starts_root "r"
  rootContent := content_root "r" (content_leaf (readable_bare "x")
    (content_leaf (e := .startElement ⟨"y", none, [], []⟩) (readable_bare "y") content_nil))

/-- Its tree. -/
def emptyFirst : OmHeap := (documentEmptyFirst.built false).2.heap

lemma emptyFirst_built :
    documentBuildAll documentEmptyFirst.events (builderCreate false) =
      some (some 0, documentEmptyFirst.built false) :=
  documentEmptyFirst.buildAll_built false (by decide)

lemma emptyFirst_apart {n m : ℕ} (hparent : emptyFirst.parent n = some 0) (hne : n ≠ m)
    (hm : m ≠ 0) : ¬ Below emptyFirst n m := by
  intro hb
  obtain rfl | ⟨c, hc, hb⟩ := Relation.ReflTransGen.cases_head hb
  · exact hne rfl
  · obtain rfl : c = 0 := Option.some.inj (hc.2.symm.trans hparent)
    have hroot : emptyFirst.parent 0 = none := by decide
    exact not_below_of_root hroot hm.symm hb

/-- The empty element is moved into the other one. -/
theorem empty_element_moved :
    ∃ h', (Edit.addChild 2 1).step 9 emptyFirst = some h' ∧ NoEmptyParents h' := by
  have hlegal : (Edit.addChild 2 1).Legal emptyFirst :=
    ⟨by decide, by decide, emptyFirst_apart (by decide) (by decide) (by decide)⟩
  have hmeets : (Edit.addChild 2 1).Meets emptyFirst := by
    have hplain : (elementAt emptyFirst 2).map Element.isEmpty = some false := by decide
    intro e he
    simpa [he] using hplain
  obtain ⟨h', hstep⟩ := Option.isSome_iff_exists.mp
    (show ((Edit.addChild 2 1).step 9 emptyFirst).isSome by decide)
  exact ⟨h', hstep, (edited_tree_written documentEmptyFirst false emptyFirst_built
    (.call .start hlegal hmeets hstep)).1⟩

/-- The other one is moved into the empty element, which is still written as an empty tag. -/
theorem empty_element_gets_child :
    ∃ h', documentBuildAll documentEmptyFirst.events (builderCreate false) =
        some (some 0, documentEmptyFirst.built false) ∧
      (Edit.addChild 1 2).Legal emptyFirst ∧ (Edit.addChild 1 2).step 9 emptyFirst = some h' ∧
      (serialize h' (fun _ => true) 9 0).map (fun w => written h' w.calls) =
        some [.startElement "r" none none, .emptyElement "x" none none,
          .startElement "y" none none, .endElement, .endElement, .endElement] ∧
      ¬ NoEmptyParents h' ∧ ¬ WritesTags h' 1 := by
  obtain ⟨h', hstep⟩ := Option.isSome_iff_exists.mp
    (show ((Edit.addChild 1 2).step 9 emptyFirst).isSome by decide)
  have hcalls : ((Edit.addChild 1 2).step 9 emptyFirst).bind (fun h' =>
      (serialize h' (fun _ => true) 9 0).map fun w => written h' w.calls) =
        some [.startElement "r" none none, .emptyElement "x" none none,
          .startElement "y" none none, .endElement, .endElement, .endElement] := by decide
  have hmarked : ((Edit.addChild 1 2).step 9 emptyFirst).map (fun h' =>
      (h'.live 1, elementAt h' 1, h'.firstChild 1)) =
        some (true, some ⟨"x", none, [], [], true⟩, some 2) := by decide
  rw [hstep, Option.bind_some] at hcalls
  rw [hstep, Option.map_some, Option.some.injEq, Prod.mk.injEq, Prod.mk.injEq] at hmarked
  obtain ⟨hlive, he, hfirst⟩ := hmarked
  refine ⟨h', emptyFirst_built, ⟨by decide, by decide,
    emptyFirst_apart (by decide) (by decide) (by decide)⟩, hstep, hcalls, fun hno => ?_,
    not_writesTags_of_marked he rfl (by simp [hfirst])⟩
  simp [hno 1 _ hlive he rfl] at hfirst

end Result

end Axis2C.Om
