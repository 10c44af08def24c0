import Axis2C.OmBuilderElements

/-!
# What the builder has built

The outline of a partly built document: the open elements, innermost first, and the
children that each node has so far. The builder keeps no such stack; it finds the
place of the next node from its last node and the flags of the nodes. On the events
of the content of a root element it follows the outline.
-/
namespace Axis2C.Om

section Growth

variable {h : OmHeap} {p n : ℕ} {d : Node Payload}

/-- A new node is added to a parent. -/
def grow (h : OmHeap) (p n : ℕ) (d : Node Payload) : OmHeap := addChild (nodeCreate h n d) p n

lemma addChild_data (hsingle : h.parent n = none) : (addChild h p n).data = h.data := by
  unfold addChild
  simp only [hsingle, Option.isSome_none, Bool.false_eq_true, if_false]
  split
  · rfl
  · cases h.lastChild p <;> rfl

lemma setData_addChild (hsingle : h.parent n = none) (m : ℕ) :
    (addChild h p n).setData m d = addChild (h.setData m d) p n := by
  unfold addChild Heap.setData
  simp only [hsingle, Option.isSome_none, Bool.false_eq_true, if_false]
  split
  · rfl
  · cases h.lastChild p <;> rfl

lemma grow_data (h : OmHeap) (p n : ℕ) (d : Node Payload) :
    (grow h p n d).data = Function.update h.data n d := by
  unfold grow
  rw [addChild_data (by simp [nodeCreate])]
  rfl

lemma grow_setData (h : OmHeap) (p n : ℕ) (d d' : Node Payload) :
    (grow h p n d).setData n d' = grow h p n d' := by
  unfold grow
  rw [setData_addChild (by simp [nodeCreate])]
  simp [nodeCreate, Heap.setData]

section Forest

variable {cs : List ℕ}

section

variable (hp : h.live p = true) (hn : h.live n = false) (hcs : ChildList h p cs)

include hp hn hcs

lemma grow_inserted : Inserted (nodeCreate h n d) (grow h p n d) p n cs [] := by
  refine addChild_inserted (hcs.nodeCreate hn (ne_of_live hn hp) d) ?_ ?_ ?_ <;> simp [nodeCreate]

lemma grow_live (m : ℕ) : (grow h p n d).live m = if m = n then true else h.live m := by
  rw [(grow_inserted hp hn hcs).live]
  simp [nodeCreate, Function.update_apply]

lemma grow_parent (m : ℕ) : (grow h p n d).parent m = if m = n then some p else h.parent m := by
  rw [(grow_inserted hp hn hcs).parent]
  by_cases hm : m = n <;> simp [nodeCreate, hm]

lemma grow_firstChild (m : ℕ) :
    (grow h p n d).firstChild m =
      if m = p then (cs ++ [n]).head? else if m = n then none else h.firstChild m := by
  rw [(grow_inserted hp hn hcs).first]
  by_cases hm : m = p
  · simp [hm]
  · simp [nodeCreate, hm, Function.update_apply]

end

lemma grow_forest (hf : Forest h) (hp : h.live p = true) (hn : h.live n = false) :
    Forest (grow h p n d) := by
  have hne := ne_of_live hn hp
  refine (hf.nodeCreate hn d).addChild ?_ ?_ ?_
  · simp [nodeCreate, hne, hp]
  · simp [nodeCreate]
  · -- nothing is below the new node
    intro hb
    obtain heq | ⟨c, -, hc⟩ := Relation.ReflTransGen.cases_tail hb
    · exact hne heq.symm
    · rw [nodeCreate_childOf hn] at hc
      exact ne_of_live hn (hf.parentLive c n hc) rfl

lemma grow_childList (hp : h.live p = true) (hn : h.live n = false)
    (hcs : ChildList h p cs) : ChildList (grow h p n d) p (cs ++ [n]) := by
  refine (grow_inserted hp hn hcs).childList ?_ ?_ ?_
  · simp [nodeCreate]
  · simp [nodeCreate]
  · simpa using hcs.nodeCreate hn (ne_of_live hn hp) d

lemma grow_childList_other (hp : h.live p = true) (hn : h.live n = false)
    (hcs : ChildList h p cs) {q : ℕ} {qs : List ℕ} (hqs : ChildList h q qs) (hqp : q ≠ p)
    (hqn : q ≠ n) : ChildList (grow h p n d) q qs := by
  refine (grow_inserted hp hn hcs).childList_other ?_ ?_ ?_ (hqs.nodeCreate hn hqn d) hqp
  · simp [nodeCreate]
  · simp [nodeCreate]
  · simpa using hcs.nodeCreate hn (ne_of_live hn hp) d

lemma grow_childList_new (hf : Forest h) (hp : h.live p = true) (hn : h.live n = false)
    (hcs : ChildList h p cs) : ChildList (grow h p n d) n [] := by
  refine (grow_inserted hp hn hcs).childList_other ?_ ?_ ?_ (hf.childList_created hn d)
    (ne_of_live hn hp).symm
  · simp [nodeCreate]
  · simp [nodeCreate]
  · simpa using hcs.nodeCreate hn (ne_of_live hn hp) d

end Forest

end Growth

/-- What a node of a document is: its type, its name, its attributes and its value. -/
inductive Label where
  | element (name : String) (attributes : List (QName × String))
  | text (value : String)
  | comment (value : String)
  | processingInstruction (target value : String)
  deriving DecidableEq, Repr

def nodeLabel (d : Node Payload) : Option Label :=
  match d.nodeType, d.dataElement with
  | .element, some (.element e) => some (.element e.localName e.attributeValues)
  | .text, some (.text value) => some (.text value)
  | .comment, some (.comment value) => some (.comment value)
  | .processingInstruction, some (.processingInstruction target value) =>
    some (.processingInstruction target value)
  | _, _ => none

/-- The nodes that know their builder: a text or a processing instruction does not. -/
def Label.hasBuilder : Label → Bool
  | .element _ _ => true
  | .comment _ => true
  | _ => false

def Event.label : Event → Option Label
  | .startElement tag =>
    some (.element tag.name (tag.attributes.map fun a => (a.qname, a.value)))
  | .emptyElement tag =>
    some (.element tag.name (tag.attributes.map fun a => (a.qname, a.value)))
  | .space value => value.map Label.text
  | .character value => value.map Label.text
  | .comment value => value.map Label.comment
  | .processingInstruction target data =>
    target.bind fun target => data.map (Label.processingInstruction target)
  | _ => none

/-- The nodes so far, the open ones, innermost first, their children and labels. -/
structure Outline where
  used : ℕ
  openNodes : List ℕ
  kids : ℕ → List ℕ
  labels : ℕ → Option Label

namespace Outline

def root (label : Option Label) (empty : Bool) : Outline :=
  ⟨1, if empty then [] else [0], fun _ => [], fun _ => label⟩

/-- A new child of the innermost open element. -/
def addKid (o : Outline) (label : Option Label) : Outline :=
  match o.openNodes with
  | [] => o
  | p :: _ =>
    { o with
      used := o.used + 1
      kids := Function.update o.kids p (o.kids p ++ [o.used])
      labels := Function.update o.labels o.used label }

/-- A new child that is open. -/
def enter (o : Outline) (label : Option Label) : Outline :=
  { o.addKid label with openNodes := o.used :: o.openNodes }

def leave (o : Outline) : Outline := { o with openNodes := o.openNodes.tail }

/-- What an event does, with the label of its node. -/
def stepWith (o : Outline) (label : Option Label) : Event → Outline
  | .startElement _ => o.enter label
  | .emptyElement _ => o.addKid label
  | .endElement => o.leave
  | .space _ => o.addKid label
  | .character _ => o.addKid label
  | .comment _ => o.addKid label
  | .processingInstruction _ _ => o.addKid label
  | _ => o

def step (o : Outline) (e : Event) : Outline := o.stepWith e.label e

/-- The node behind which the next one comes, or whose first child it is. -/
def lastNode (o : Outline) : ℕ :=
  match o.openNodes with
  | [] => 0
  | p :: _ => (o.kids p).getLast?.getD p

end Outline

/-- The builder has built an outline. -/
structure Tracks (b : Builder) (o : Outline) : Prop where
  forest : Forest b.heap
  keyed : Keyed b.heap
  used : b.used = o.used
  live : ∀ n, b.heap.live n = true ↔ n < o.used
  children : ∀ n < o.used, ChildList b.heap n (o.kids n)
  unborn : ∀ n, o.used ≤ n → o.kids n = []
  later : ∀ n, ∀ c ∈ o.kids n, n < c
  nested : o.openNodes.IsChain fun c p => (o.kids p).getLast? = some c
  decreasing : o.openNodes.Pairwise (· > ·)
  bounded : ∀ n ∈ o.openNodes, n < o.used
  started : 0 < o.used
  bottom : ∀ n, o.openNodes.getLast? = some n → n = 0
  complete : ∀ n < o.used, (b.heap.data n).done = true ↔ n ∉ o.openNodes
  elements : ∀ n ∈ o.openNodes, (elementAt b.heap n).isSome
  labelled : ∀ n < o.used, nodeLabel (b.heap.data n) = o.labels n
  builders : ∀ n < o.used, (b.heap.data n).builder = (o.labels n).any Label.hasBuilder
  lastNode : b.lastNode = some o.lastNode
  rootNode : b.rootNode = some 0
  documentRoot : b.documentRoot = some 0
  done : b.done = o.openNodes.isEmpty

section Place

variable {b : Builder} {o : Outline} {p : ℕ} {rest : List ℕ}

lemma Tracks.setError (ht : Tracks b o) (error : Option BuilderError) :
    Tracks { b with error := error } o :=
  ⟨ht.forest, ht.keyed, ht.used, ht.live, ht.children, ht.unborn, ht.later, ht.nested,
    ht.decreasing, ht.bounded, ht.started, ht.bottom, ht.complete, ht.elements, ht.labelled,
    ht.builders, ht.lastNode, ht.rootNode, ht.documentRoot, ht.done⟩

lemma Tracks.open_done (ht : Tracks b o) (hopen : o.openNodes ≠ []) : b.done = false := by
  rw [ht.done]
  simpa using hopen

lemma Tracks.kid_not_open (ht : Tracks b o) (hopen : o.openNodes = p :: rest) {c : ℕ}
    (hc : c ∈ o.kids p) : c ∉ o.openNodes := by
  have hdec := ht.decreasing
  have hlt := ht.later p c hc
  rw [hopen, List.pairwise_cons] at hdec
  rw [hopen, List.mem_cons, not_or]
  refine ⟨by omega, fun hmem => ?_⟩
  have := hdec.1 c hmem
  omega

/-- The last node tells the place of the next one. -/
lemma Tracks.place (ht : Tracks b o) (hopen : o.openNodes = p :: rest) :
    (∃ cs last, o.kids p = cs ++ [last] ∧ b.lastNode = some last ∧
        isComplete b.heap last = true ∧ b.heap.parent last = some p) ∨
      o.kids p = [] ∧ b.lastNode = some p ∧ isComplete b.heap p = false := by
  have hpu := ht.bounded p (by simp [hopen])
  have hlast := ht.lastNode
  simp only [Outline.lastNode, hopen] at hlast
  obtain hk | ⟨cs, last, hk⟩ := List.eq_nil_or_concat' (o.kids p)
  · right
    refine ⟨hk, by simpa [hk] using hlast, ?_⟩
    have hiff := ht.complete p hpu
    rw [isComplete, Bool.eq_false_iff]
    intro hd
    exact hiff.mp hd (by simp [hopen])
  · left
    have hmem : last ∈ o.kids p := by simp [hk]
    have hchild := ((ht.children p hpu).members last).mp hmem
    refine ⟨cs, last, hk, by simpa [hk] using hlast, ?_, hchild.2⟩
    exact (ht.complete last ((ht.live last).mp hchild.1)).mpr (ht.kid_not_open hopen hmem)

lemma Tracks.live_open (ht : Tracks b o) {q : ℕ} (hq : q ∈ o.openNodes) :
    b.heap.live q = true := (ht.live q).mpr (ht.bounded q hq)

lemma Tracks.not_live_used (ht : Tracks b o) : b.heap.live b.used = false := by
  rw [Bool.eq_false_iff]
  intro hlive
  have := (ht.live b.used).mp hlive
  rw [ht.used] at this
  omega

section

variable (ht : Tracks b o) (hopen : o.openNodes = p :: rest)

include ht hopen

lemma Tracks.childList_top :
    ChildList b.heap p (o.kids p) := ht.children p (ht.bounded p (by simp [hopen]))

/-- The links that are written again behind a sibling. -/
lemma Tracks.link_after {cs : List ℕ} {last : ℕ} (hkids : o.kids p = cs ++ [last])
    (d : Node Payload) :
    ((grow b.heap p b.used d).setNext last (some b.used)).setPrev b.used (some last) =
      grow b.heap p b.used d := by
  have hcs := ht.childList_top hopen
  have hlist := grow_childList (d := d) (ht.live_open (by simp [hopen])) ht.not_live_used hcs
  rw [hkids] at hlist
  have hprev : (grow b.heap p b.used d).prev b.used = some last := by
    have := hlist.linked.at_split.1
    simpa using this
  have hnext : (grow b.heap p b.used d).next last = some b.used := by
    have hlinked := hlist.linked
    rw [List.append_assoc] at hlinked
    have := hlinked.at_split.2
    simpa using this
  unfold Heap.setNext Heap.setPrev
  simp only
  rw [← hprev, ← hnext, Function.update_eq_self, Function.update_eq_self]

lemma Tracks.link_first (hkids : o.kids p = []) (d : Node Payload) :
    nodeSetParent (nodeSetFirstChild (grow b.heap p b.used d) p b.used) b.used p =
      grow b.heap p b.used d := by
  have hcs := ht.childList_top hopen
  have hp := ht.live_open (q := p) (by simp [hopen])
  have hparent : (grow b.heap p b.used d).parent b.used = some p := by
    rw [grow_parent hp ht.not_live_used hcs, if_pos rfl]
  have hfirst : (grow b.heap p b.used d).firstChild p = some b.used := by
    rw [grow_firstChild hp ht.not_live_used hcs, if_pos rfl, hkids]
    rfl
  have hset : nodeSetFirstChild (grow b.heap p b.used d) p b.used = grow b.heap p b.used d := by
    unfold nodeSetFirstChild nodeSetParent
    rw [if_pos hparent]
    unfold Heap.setFirst
    rw [← hfirst, Function.update_eq_self]
  rw [hset, nodeSetParent, if_pos hparent]

/-- A node in the place of the next one: the two ways to link it give one heap. -/
lemma Tracks.placed {last : ℕ} (hlast : b.lastNode = some last) (d : Node Payload) :
    (isComplete b.heap last = true ∧ b.heap.parent last = some p ∧
      ((grow b.heap p b.used d).setNext last (some b.used)).setPrev b.used (some last) =
        grow b.heap p b.used d) ∨
    (isComplete b.heap last = false ∧ last = p ∧
      nodeSetParent (nodeSetFirstChild (grow b.heap p b.used d) p b.used) b.used p =
        grow b.heap p b.used d) := by
  obtain ⟨cs, last', hkids, hlast', hcomplete, hparent⟩ | ⟨hkids, hlast', hopen'⟩ :=
    ht.place hopen
  · obtain rfl : last = last' := Option.some.inj (hlast.symm.trans hlast')
    exact .inl ⟨hcomplete, hparent, ht.link_after hopen hkids d⟩
  · obtain rfl : last = p := Option.some.inj (hlast.symm.trans hlast')
    exact .inr ⟨hopen', rfl, ht.link_first hopen hkids d⟩

end

lemma nodeSetBuilder_grow (h : OmHeap) (p n : ℕ) (d : Node Payload) :
    nodeSetBuilder (grow h p n d) n = grow h p n { d with builder := true } := by
  unfold nodeSetBuilder
  rw [grow_setData, grow_data, Function.update_self]

lemma nodeSetComplete_grow (h : OmHeap) (p n : ℕ) (d : Node Payload) (done : Bool) :
    nodeSetComplete (grow h p n d) n done = grow h p n { d with done := done } := by
  unfold nodeSetComplete
  rw [grow_setData, grow_data, Function.update_self]

lemma setElement_grow (h : OmHeap) (p n : ℕ) (d : Node Payload) (e : Element) :
    setElement (grow h p n d) n e = grow h p n { d with dataElement := some (.element e) } := by
  unfold setElement
  rw [grow_setData, grow_data, Function.update_self]

def Builder.grown (b : Builder) (p : ℕ) (d : Node Payload) : Builder :=
  { b with heap := grow b.heap p b.used d, used := b.used + 1 }

lemma newNode_eq (b : Builder) (p : ℕ) (nodeType : NodeType) (payload : Payload) :
    newNode b (some p) nodeType payload = b.grown p ⟨nodeType, some payload, false, false⟩ := rfl

lemma Tracks.placeElement (ht : Tracks b o) (hopen : o.openNodes = p :: rest) (level : ℤ)
    (name : String) :
    placeElement { b with elementLevel := level } name =
      { b.grown p ⟨.element, some (.element ⟨name, none, [], [], false⟩), true, false⟩ with
        elementLevel := level } := by
  obtain ⟨last, hlast⟩ : ∃ last, b.lastNode = some last := ⟨_, ht.lastNode⟩
  unfold Om.placeElement
  simp only [hlast]
  obtain ⟨hc, hparent, hlink⟩ | ⟨hc, rfl, hlink⟩ := ht.placed hopen hlast
    ⟨.element, some (.element ⟨name, none, [], [], false⟩), false, false⟩
  · simp [hc, hparent, newNode_eq, Builder.grown, hlink, nodeSetBuilder_grow, hlast]
  · simp [hc, newNode_eq, Builder.grown, hlink, nodeSetBuilder_grow, hlast]

/-- What a new node leaves as it is. -/
structure AddsNode (b b' : Builder) (p : ℕ) (d : Node Payload) : Prop where
  heap : b'.heap = grow b.heap p b.used d
  keyed : Keyed b'.heap
  used : b'.used = b.used + 1
  lastNode : b'.lastNode = some b.used
  rootNode : b'.rootNode = b.rootNode
  documentRoot : b'.documentRoot = b.documentRoot
  done : b'.done = b.done
  libxml2 : b'.libxml2 = b.libxml2

lemma Tracks.grow_keyed (ht : Tracks b o) {d : Node Payload} (hd : d.nodeType ≠ .element) :
    Keyed (grow b.heap p b.used d) := by
  intro m e he
  obtain ⟨htype, hdata⟩ := elementAt_eq_some.mp he
  rw [grow_data] at htype hdata
  by_cases hm : m = b.used
  · subst hm
    simp [hd] at htype
  · rw [Function.update_of_ne hm] at htype hdata
    exact ht.keyed m e (elementAt_eq_some.mpr ⟨htype, hdata⟩)

lemma Tracks.ne_used (ht : Tracks b o) {m : ℕ} (hm : m < o.used) : m ≠ b.used := by
  have := ht.used
  omega

variable {b' : Builder} {d : Node Payload}

/-- The part of the outline that a new node does not depend on being open for. -/
lemma AddsNode.children (ha : AddsNode b b' p d) (ht : Tracks b o)
    (hopen : o.openNodes = p :: rest) :
    ∀ m < o.used + 1,
      ChildList b'.heap m (Function.update o.kids p (o.kids p ++ [o.used]) m) := by
  have hp := ht.live_open (q := p) (by simp [hopen])
  have hcs := ht.childList_top hopen
  have hpu := ht.bounded p (by simp [hopen])
  intro m hm
  rw [ha.heap, ← ht.used]
  by_cases hmp : m = p
  · subst hmp
    rw [Function.update_self]
    exact grow_childList hp ht.not_live_used hcs
  · rw [Function.update_of_ne hmp]
    by_cases hmn : m = b.used
    · rw [ht.unborn m (by rw [hmn, ht.used]), hmn]
      exact grow_childList_new ht.forest hp ht.not_live_used hcs
    · have hmu : m < o.used := by
        have := ht.used
        omega
      exact grow_childList_other hp ht.not_live_used hcs (ht.children m hmu) hmp hmn

lemma AddsNode.data (ha : AddsNode b b' p d) (ht : Tracks b o) (m : ℕ) :
    b'.heap.data m = if m = o.used then d else b.heap.data m := by
  rw [ha.heap, grow_data, Function.update_apply, ht.used]

lemma AddsNode.elementAt (ha : AddsNode b b' p d) (ht : Tracks b o) {m : ℕ} (hm : m < o.used) :
    elementAt b'.heap m = Om.elementAt b.heap m := by
  unfold Om.elementAt
  rw [ha.data ht, if_neg (by omega)]

/-- A complete node is a new child, and an element that is not complete is the new
innermost open element. -/
theorem Tracks.addsNode (ht : Tracks b o) (hopen : o.openNodes = p :: rest)
    (ha : AddsNode b b' p d) {label : Option Label} (hlabel : nodeLabel d = label)
    (hbuilder : d.builder = label.any Label.hasBuilder) :
    (d.done = true → Tracks b' (o.addKid label)) ∧
      (d.done = false → (elementAt b'.heap o.used).isSome → Tracks b' (o.enter label)) := by
  have hpu := ht.bounded p (by simp [hopen])
  have hp := ht.live_open (q := p) (by simp [hopen])
  have hcs := ht.childList_top hopen
  have hkid : o.addKid label = { o with
      used := o.used + 1, kids := Function.update o.kids p (o.kids p ++ [o.used])
      labels := Function.update o.labels o.used label } := by
    simp only [Outline.addKid, hopen]
  have hforest : Forest b'.heap := by
    rw [ha.heap]
    exact grow_forest ht.forest hp ht.not_live_used
  have hlive (m : ℕ) : b'.heap.live m = true ↔ m < o.used + 1 := by
    rw [ha.heap, grow_live hp ht.not_live_used hcs, ht.used]
    by_cases hm : m = o.used
    · simp [hm]
    · rw [if_neg hm, ht.live]
      omega
  have hunborn (m : ℕ) (hm : o.used + 1 ≤ m) :
      Function.update o.kids p (o.kids p ++ [o.used]) m = [] := by
    rw [Function.update_of_ne (by omega), ht.unborn m (by omega)]
  have hlater (m : ℕ) : ∀ c ∈ Function.update o.kids p (o.kids p ++ [o.used]) m, m < c := by
    intro c hc
    by_cases hm : m = p
    · subst hm
      rw [Function.update_self, List.mem_append, List.mem_singleton] at hc
      obtain hc | rfl := hc
      · exact ht.later m c hc
      · exact hpu
    · rw [Function.update_of_ne hm] at hc
      exact ht.later m c hc
  have hnested : o.openNodes.IsChain fun c q =>
      (Function.update o.kids p (o.kids p ++ [o.used]) q).getLast? = some c := by
    refine List.IsChain.imp_of_mem_tail_imp (fun c q _ hq hlast => ?_) ht.nested
    have hdec := ht.decreasing
    rw [hopen] at hdec hq
    have := (List.pairwise_cons.mp hdec).1 q hq
    rw [Function.update_of_ne (by omega), hlast]
  have hcomplete (m : ℕ) (hm : m < o.used) :
      (b'.heap.data m).done = true ↔ m ∉ o.openNodes := by
    rw [ha.data ht, if_neg (by omega)]
    exact ht.complete m hm
  have helements (m : ℕ) (hm : m ∈ o.openNodes) : (elementAt b'.heap m).isSome := by
    rw [ha.elementAt ht (ht.bounded m hm)]
    exact ht.elements m hm
  have hlabelled (m : ℕ) (hm : m < o.used + 1) :
      nodeLabel (b'.heap.data m) = Function.update o.labels o.used label m ∧
        (b'.heap.data m).builder =
          (Function.update o.labels o.used label m).any Label.hasBuilder := by
    rw [ha.data ht, Function.update_apply]
    by_cases hmu : m = o.used
    · simp only [hmu, if_true]
      exact ⟨hlabel, hbuilder⟩
    · simp only [hmu, if_false]
      exact ⟨ht.labelled m (by omega), ht.builders m (by omega)⟩
  constructor
  · intro hd
    rw [hkid]
    refine ⟨hforest, ha.keyed, by simp [ha.used, ht.used], hlive, ha.children ht hopen, hunborn,
      hlater, hnested, ht.decreasing, fun m hm => ?_, by simp, ht.bottom, fun m hm => ?_,
      helements, fun m hm => (hlabelled m hm).1, fun m hm => (hlabelled m hm).2, ?_,
      ha.rootNode.trans ht.rootNode, ha.documentRoot.trans ht.documentRoot,
      ha.done.trans ht.done⟩
    · have := ht.bounded m hm
      simp only
      omega
    · by_cases hmu : m = o.used
      · rw [ha.data ht, if_pos hmu, hd]
        simp only [true_iff]
        intro hmem
        have := ht.bounded m hmem
        omega
      · simp only at hm
        exact hcomplete m (by omega)
    · rw [ha.lastNode, ht.used]
      simp [Outline.lastNode, hopen]
  · intro hd he
    unfold Outline.enter
    rw [hkid]
    refine ⟨hforest, ha.keyed, by simp [ha.used, ht.used], hlive, ha.children ht hopen, hunborn,
      hlater, ?_, ?_, fun m hm => ?_, by simp, fun m hm => ?_, fun m hm => ?_, fun m hm => ?_,
      fun m hm => (hlabelled m hm).1, fun m hm => (hlabelled m hm).2, ?_,
      ha.rootNode.trans ht.rootNode, ha.documentRoot.trans ht.documentRoot, ?_⟩
    · rw [hopen] at hnested ⊢
      refine List.isChain_cons_cons.mpr ⟨?_, hnested⟩
      simp
    · exact List.pairwise_cons.mpr ⟨ht.bounded, ht.decreasing⟩
    · obtain rfl | hm := List.mem_cons.mp hm
      · simp
      · have := ht.bounded m hm
        simp only
        omega
    · refine ht.bottom m ?_
      simpa [hopen] using hm
    · by_cases hmu : m = o.used
      · rw [ha.data ht, if_pos hmu, hd]
        simp [hmu]
      · simp only at hm
        rw [List.mem_cons, not_or, and_iff_right hmu]
        exact hcomplete m (by omega)
    · obtain rfl | hm := List.mem_cons.mp hm
      · exact he
      · exact helements m hm
    · rw [ha.lastNode, ht.used]
      have hne : o.used ≠ p := by omega
      simp [Outline.lastNode, Function.update_of_ne hne, ht.unborn]
    · rw [ha.done, ht.done, hopen]
      rfl

end Place

section Close

variable {h : OmHeap} {b : Builder} {o : Outline} {p : ℕ} {rest : List ℕ}

lemma ChildList.setData {n q : ℕ} {d : Node Payload} {cs : List ℕ} (hcs : ChildList h q cs) :
    ChildList (h.setData n d) q cs :=
  ⟨hcs.nodup, hcs.first, hcs.last, hcs.linked, hcs.members⟩

lemma Forest.setData {n : ℕ} {d : Node Payload} (hf : Forest h) : Forest (h.setData n d) := by
  refine ⟨⟨fun q hq => ?_, hf.parentLive, hf.single⟩, hf.acyclic⟩
  obtain ⟨cs, hcs⟩ := hf.children q hq
  exact ⟨cs, hcs.setData⟩

lemma elementAt_nodeSetComplete (n m : ℕ) (done : Bool) :
    elementAt (nodeSetComplete h n done) m = elementAt h m := by
  refine Option.ext fun e => ?_
  rw [elementAt_eq_some, elementAt_eq_some]
  unfold nodeSetComplete Heap.setData
  by_cases hm : m = n <;> simp [hm]

lemma nodeSetComplete_label (n m : ℕ) (done : Bool) :
    nodeLabel ((nodeSetComplete h n done).data m) = nodeLabel (h.data m) ∧
      ((nodeSetComplete h n done).data m).builder = (h.data m).builder := by
  unfold nodeSetComplete Heap.setData nodeLabel
  by_cases hm : m = n <;> simp [hm]

lemma nodeSetComplete_done (n m : ℕ) :
    ((nodeSetComplete h n true).data m).done = true ↔ m = n ∨ (h.data m).done = true := by
  unfold nodeSetComplete Heap.setData
  by_cases hm : m = n <;> simp [hm]

section

variable (ht : Tracks b o) (hopen : o.openNodes = p :: rest)

include ht hopen

/-- The root is the bottom of the open elements. -/
lemma Tracks.top_eq_zero : p = 0 ↔ rest = [] := by
  have hdec := ht.decreasing
  rw [hopen, List.pairwise_cons] at hdec
  constructor
  · rintro rfl
    cases rest with
    | nil => rfl
    | cons q rest =>
      have := hdec.1 q (by simp)
      omega
  · rintro rfl
    exact ht.bottom p (by simp [hopen])

lemma Tracks.root_open : 0 ∈ o.openNodes := by
  have hne : o.openNodes.getLast? ≠ none := by simp [hopen]
  obtain ⟨m, hm⟩ := Option.ne_none_iff_exists'.mp hne
  obtain rfl := ht.bottom m hm
  exact List.mem_of_getLast? hm

lemma Tracks.endElement_eq :
    endElement b = { b with
      elementLevel := b.elementLevel - 1, heap := nodeSetComplete b.heap p true
      lastNode := some p, done := rest.isEmpty } := by
  have hdone : b.done = false := by rw [ht.done, hopen]; rfl
  have hclose : closeLast { b with elementLevel := b.elementLevel - 1 } = { b with
      elementLevel := b.elementLevel - 1, heap := nodeSetComplete b.heap p true
      lastNode := some p } := by
    unfold closeLast
    obtain ⟨cs, last, -, hlast, hcomplete, hparent⟩ | ⟨-, hlast, hopen'⟩ := ht.place hopen
    · simp [hlast, hcomplete, hparent]
    · simp [hlast, hopen']
  have hroot : isComplete (nodeSetComplete b.heap p true) 0 = rest.isEmpty := by
    rw [Bool.eq_iff_iff, isComplete, nodeSetComplete_done, ht.complete 0 ht.started,
      List.isEmpty_iff, ← ht.top_eq_zero hopen, hopen]
    constructor
    · rintro (h0 | h0)
      · exact h0.symm
      · exact absurd (hopen ▸ ht.root_open hopen) h0
    · exact fun h0 => .inl h0.symm
  unfold endElement
  rw [hclose]
  simp only [ht.rootNode, hroot]
  cases rest with
  | nil => rfl
  | cons q rest => simp [hdone]

/-- The innermost open element is closed. -/
theorem Tracks.endElement : Tracks (Om.endElement b) o.leave := by
  have hdec := ht.decreasing
  have hnested := ht.nested
  rw [hopen] at hdec hnested
  have hmem {m : ℕ} (hm : m ∈ rest) : m ∈ o.openNodes := by simp [hopen, hm]
  rw [ht.endElement_eq hopen]
  unfold Outline.leave
  rw [hopen, List.tail_cons]
  refine ⟨ht.forest.setData, fun m e he => ?_, ht.used, ht.live,
    fun m hm => (ht.children m hm).setData, ht.unborn, ht.later, hnested.tail,
    (List.pairwise_cons.mp hdec).2, fun m hm => ht.bounded m (hmem hm), ht.started,
    fun m hm => ?_, fun m hm => ?_, fun m hm => ?_,
    fun m hm => (nodeSetComplete_label p m true).1.trans (ht.labelled m hm),
    fun m hm => (nodeSetComplete_label p m true).2.trans (ht.builders m hm), ?_, ht.rootNode,
    ht.documentRoot, rfl⟩
  · simp only [elementAt_nodeSetComplete] at he
    exact ht.keyed m e he
  · refine ht.bottom m ?_
    cases rest with
    | nil => simp at hm
    | cons q rest => simpa [hopen] using hm
  · simp only [nodeSetComplete_done, ht.complete m hm, hopen, List.mem_cons]
    constructor
    · rintro (rfl | hno)
      · intro hm'
        have := (List.pairwise_cons.mp hdec).1 m hm'
        omega
      · exact fun hm' => hno (.inr hm')
    · intro hno
      by_cases hmp : m = p
      · exact .inl hmp
      · exact .inr (by simp [hmp, hno])
  · simp only [elementAt_nodeSetComplete]
    exact ht.elements m (hmem hm)
  · cases rest with
    | nil =>
      have := (ht.top_eq_zero hopen).mpr rfl
      simp [Outline.lastNode, this]
    | cons q rest =>
      have := (List.isChain_cons_cons.mp hnested).1
      simp [Outline.lastNode, this]

end

end Close

section Create

variable {b : Builder} {o : Outline} {p : ℕ} {rest : List ℕ}

lemma elementAt_grow (h : OmHeap) (p n : ℕ) (e : Element) (builder done : Bool) :
    elementAt (grow h p n ⟨.element, some (.element e), builder, done⟩) n = some e := by
  rw [elementAt_eq_some, grow_data]
  simp

lemma Tracks.new_element (ht : Tracks b o) (p : ℕ) (name : String) :
    elementAt (grow b.heap p b.used
        ⟨.element, some (.element ⟨name, none, [], [], false⟩), true, false⟩) b.used =
        some ⟨name, none, [], [], false⟩ ∧
      Keyed (grow b.heap p b.used
        ⟨.element, some (.element ⟨name, none, [], [], false⟩), true, false⟩) := by
  have he := elementAt_grow b.heap p b.used ⟨name, none, [], [], false⟩ true false
  refine ⟨he, fun m e hm => ?_⟩
  by_cases hmu : m = b.used
  · subst hmu
    obtain rfl := Option.some.inj (he.symm.trans hm)
    simp
  · refine ht.keyed m e ?_
    rw [elementAt_eq_some, grow_data, Function.update_of_ne hmu] at hm
    exact elementAt_eq_some.mpr hm

section

variable (ht : Tracks b o) (hopen : o.openNodes = p :: rest)

include ht hopen

/-- A start tag makes an element with its name and its attributes. -/
lemma Tracks.createOmElement (tag : StartTag) (isEmpty : Bool) :
    ∃ e, (createOmElement b tag isEmpty).1 = some b.used ∧
      AddsNode b (createOmElement b tag isEmpty).2 p ⟨.element, some (.element e), true, false⟩ ∧
      e.localName = tag.name ∧
      (tag.Proper →
        e.attributeValues = tag.attributes.map fun a => (a.qname, a.value)) ∧
      (createOmElement b tag isEmpty).2.elementLevel = b.elementLevel + 1 := by
  have hplace := ht.placeElement hopen (b.elementLevel + 1) tag.name
  obtain ⟨he1, hk1⟩ := ht.new_element p tag.name
  unfold Om.createOmElement
  simp only [hplace]
  obtain ⟨e, hheap, hkeyed, hframe, hname, -, hvalues⟩ :=
    @fillElement_spec { b.grown p
      ⟨.element, some (.element ⟨tag.name, none, [], [], false⟩), true, false⟩ with
        elementLevel := b.elementLevel + 1 } b.used tag he1 hk1 isEmpty
  refine ⟨e, trivial, ⟨hheap.trans ?_, hkeyed, hframe.used, hframe.lastNode, hframe.rootNode,
    hframe.documentRoot, hframe.done, hframe.libxml2⟩, hname, hvalues, hframe.elementLevel⟩
  exact setElement_grow b.heap p b.used _ e

lemma Tracks.createOmText (value : String) :
    (createOmText b (some value)).1 = some b.used ∧
      AddsNode b (createOmText b (some value)).2 p ⟨.text, some (.text value), false, true⟩ ∧
      (createOmText b (some value)).2.elementLevel = b.elementLevel := by
  obtain ⟨last, hlast⟩ : ∃ last, b.lastNode = some last := ⟨_, ht.lastNode⟩
  have helement : (b.heap.data p).nodeType = .element := by
    obtain ⟨e, he⟩ := Option.isSome_iff_exists.mp (ht.elements p (by simp [hopen]))
    exact (elementAt_eq_some.mp he).1
  have hparent : ((if isComplete b.heap last then b.heap.parent last else some last).filter
      fun q => (b.heap.data q).nodeType = .element) = some p := by
    obtain ⟨hc, hparent, -⟩ | ⟨hc, rfl, -⟩ := ht.placed hopen hlast
      ⟨.text, some (.text value), false, false⟩
    · simp [hc, hparent, helement]
    · simp [hc, helement]
  have hresult : Om.createOmText b (some value) = (some b.used,
      { b.grown p ⟨.text, some (.text value), false, true⟩ with lastNode := some b.used }) := by
    unfold Om.createOmText
    simp only [hlast, hparent, newNode_eq, Builder.grown, nodeSetComplete_grow]
  rw [hresult]
  exact ⟨rfl, ⟨rfl, ht.grow_keyed (by simp), rfl, rfl, rfl, rfl, rfl, rfl⟩, rfl⟩

lemma Tracks.createOmComment (value : String) :
    (createOmComment b (some value)).1 = some b.used ∧
      AddsNode b (createOmComment b (some value)).2 p
        ⟨.comment, some (.comment value), true, false⟩ ∧
      (createOmComment b (some value)).2.elementLevel = b.elementLevel + 1 := by
  obtain ⟨last, hlast⟩ : ∃ last, b.lastNode = some last := ⟨_, ht.lastNode⟩
  have hresult : Om.createOmComment b (some value) = (some b.used,
      { b.grown p ⟨.comment, some (.comment value), true, false⟩ with
        lastNode := some b.used, elementLevel := b.elementLevel + 1 }) := by
    unfold Om.createOmComment
    simp only [hlast]
    obtain ⟨hc, hparent, hlink⟩ | ⟨hc, rfl, hlink⟩ := ht.placed hopen hlast
      ⟨.comment, some (.comment value), false, false⟩
    · simp [hc, hparent, newNode_eq, Builder.grown, hlink, nodeSetBuilder_grow]
    · simp [hc, newNode_eq, Builder.grown, hlink, nodeSetBuilder_grow]
  rw [hresult]
  exact ⟨rfl, ⟨rfl, ht.grow_keyed (by simp), rfl, rfl, rfl, rfl, rfl, rfl⟩, rfl⟩

lemma Tracks.createOmProcessingInstruction (target data : String) :
    (createOmProcessingInstruction b (some target) (some data)).1 = some b.used ∧
      AddsNode b (createOmProcessingInstruction b (some target) (some data)).2 p
        ⟨.processingInstruction, some (.processingInstruction target data), false, false⟩ ∧
      (createOmProcessingInstruction b (some target) (some data)).2.elementLevel =
        b.elementLevel + 1 := by
  obtain ⟨last, hlast⟩ : ∃ last, b.lastNode = some last := ⟨_, ht.lastNode⟩
  have hresult : Om.createOmProcessingInstruction b (some target) (some data) = (some b.used,
      { b.grown p
          ⟨.processingInstruction, some (.processingInstruction target data), false, false⟩ with
        lastNode := some b.used, elementLevel := b.elementLevel + 1 }) := by
    unfold Om.createOmProcessingInstruction
    simp only [hlast]
    obtain ⟨hc, hparent, hlink⟩ | ⟨hc, rfl, hlink⟩ := ht.placed hopen hlast
      ⟨.processingInstruction, some (.processingInstruction target data), false, false⟩
    · simp [hc, hparent, newNode_eq, Builder.grown, hlink]
    · -- an open element is not a text
      have htext : (b.heap.data last).nodeType ≠ .text := by
        obtain ⟨e, he⟩ := Option.isSome_iff_exists.mp (ht.elements last (by simp [hopen]))
        simp [(elementAt_eq_some.mp he).1]
      simp [hc, htext, newNode_eq, Builder.grown, hlink]
  rw [hresult]
  exact ⟨rfl, ⟨rfl, ht.grow_keyed (by simp), rfl, rfl, rfl, rfl, rfl, rfl⟩, rfl⟩

end

/-- An event with the values that the builder asks for: texts, comments and processing
instructions have theirs. -/
def Event.Valued : Event → Prop
  | .space value => value.isSome
  | .character value => value.isSome
  | .comment value => value.isSome
  | .processingInstruction target data => target.isSome ∧ data.isSome
  | _ => True

/-- An event as a reader gives it inside of the root: it has its values, and its tag is
proper. -/
def Event.Proper : Event → Prop
  | .startElement tag => tag.Proper
  | .emptyElement tag => tag.Proper
  | e => e.Valued

lemma AddsNode.endElement {b' : Builder} {d : Node Payload} (ha : AddsNode b b' p d)
    (ht : Tracks b o) (hopen : o.openNodes = p :: rest) (hd : d.done = false) :
    AddsNode b (endElement b') p { d with done := true } ∧
      (Om.endElement b').elementLevel = b'.elementLevel - 1 := by
  have hroot : 0 < o.used := ht.started
  have hnew : isComplete b'.heap b.used = false := by
    rw [isComplete, ha.data ht, if_pos ht.used, hd]
  have hclose : closeLast { b' with elementLevel := b'.elementLevel - 1 } = { b' with
      elementLevel := b'.elementLevel - 1, heap := nodeSetComplete b'.heap b.used true } := by
    unfold closeLast
    simp [ha.lastNode, hnew]
  have hopen0 : isComplete (nodeSetComplete b'.heap b.used true) 0 = false := by
    rw [Bool.eq_false_iff, isComplete, ne_eq, nodeSetComplete_done, not_or]
    refine ⟨(ht.ne_used hroot), ?_⟩
    rw [ha.data ht, if_neg (by omega), ht.complete 0 hroot, not_not]
    exact ht.root_open hopen
  have hresult : Om.endElement b' = { b' with
      elementLevel := b'.elementLevel - 1, heap := nodeSetComplete b'.heap b.used true } := by
    unfold Om.endElement
    rw [hclose]
    simp [ha.rootNode, ht.rootNode, hopen0]
  rw [hresult]
  refine ⟨⟨?_, fun m e he => ?_, ha.used, ha.lastNode, ha.rootNode, ha.documentRoot, ha.done,
    ha.libxml2⟩, rfl⟩
  · simp [ha.heap, nodeSetComplete_grow]
  · simp only [elementAt_nodeSetComplete] at he
    exact ha.keyed m e he

/-- The two pull routines on one event, in a state that has built an outline. -/
structure Follows (b : Builder) (o o' : Outline) (e : Event) : Prop where
  tracks : Tracks (pull b e).2 o'
  token : pullToken b e = (true, (pull b e).2)
  level : (pull b e).2.elementLevel - o'.openNodes.length = b.elementLevel - o.openNodes.length
  libxml2 : (pull b e).2.libxml2 = b.libxml2

lemma Outline.addKid_openNodes (o : Outline) (label : Option Label) :
    (o.addKid label).openNodes = o.openNodes := by
  unfold Outline.addKid
  split <;> simp [*]

/-- As long as the root is open, the builder follows the outline; attributes that share
a name show in the label only. -/
theorem Tracks.follows_with (ht : Tracks b o) (hopen : o.openNodes = p :: rest) {e : Event}
    (he : e.Valued) :
    ∃ label, (e.Proper → label = e.label) ∧ Follows b o (o.stepWith label e) e := by
  cases e with
  | startDocument | entityReference | cdata | documentType =>
    exact ⟨none, fun _ => rfl, ht, rfl, rfl, rfl⟩
  | startElement tag =>
    obtain ⟨e, hnode, ha, hname, hvalues, hlevel⟩ := ht.createOmElement hopen tag false
    refine ⟨some (.element e.localName e.attributeValues), fun htag => ?_, ?_, ?_, ?_,
      ha.libxml2⟩
    · rw [hname, hvalues htag]
      rfl
    · refine (ht.addsNode hopen ha rfl rfl).2 rfl ?_
      rw [ha.heap, ← ht.used, elementAt_grow]
      rfl
    · simp [pullToken, pull, hnode]
    · simp only [pull, hlevel, Outline.stepWith, Outline.enter, List.length_cons]
      push_cast
      ring
  | emptyElement tag =>
    obtain ⟨e, hnode, ha, hname, hvalues, hlevel⟩ := ht.createOmElement hopen tag (!b.libxml2)
    obtain ⟨ha', hlevel'⟩ := ha.endElement ht hopen rfl
    refine ⟨some (.element e.localName e.attributeValues), fun htag => ?_,
      (ht.addsNode hopen ha' rfl rfl).1 rfl, ?_, ?_, ha'.libxml2⟩
    · rw [hname, hvalues htag]
      rfl
    · simp [pullToken, pull, hnode]
    · simp only [pull, hlevel, hlevel', Outline.stepWith, Outline.addKid_openNodes]
      ring
  | endElement =>
    refine ⟨none, fun _ => rfl, ht.endElement hopen, rfl, ?_, ?_⟩
    · simp only [pull, ht.endElement_eq hopen, Outline.stepWith, Outline.leave, hopen,
        List.tail_cons, List.length_cons]
      push_cast
      ring
    · simp [pull, ht.endElement_eq hopen]
  | space value =>
    obtain ⟨value, rfl⟩ := Option.isSome_iff_exists.mp he
    obtain ⟨hnode, ha, hlevel⟩ := ht.createOmText hopen value
    refine ⟨_, fun _ => rfl, (ht.addsNode hopen ha rfl rfl).1 rfl, ?_, ?_, ha.libxml2⟩
    · simp [pullToken, pull, ht.lastNode, hnode]
    · simp [pull, hlevel, Outline.stepWith, Outline.addKid_openNodes]
  | character value =>
    obtain ⟨value, rfl⟩ := Option.isSome_iff_exists.mp he
    obtain ⟨hnode, ha, hlevel⟩ := ht.createOmText hopen value
    refine ⟨_, fun _ => rfl, (ht.addsNode hopen ha rfl rfl).1 rfl, ?_, ?_, ha.libxml2⟩
    · simp [pullToken, pull, hnode]
    · simp [pull, hlevel, Outline.stepWith, Outline.addKid_openNodes]
  | comment value =>
    obtain ⟨value, rfl⟩ := Option.isSome_iff_exists.mp he
    obtain ⟨hnode, ha, hlevel⟩ := ht.createOmComment hopen value
    obtain ⟨ha', hlevel'⟩ := ha.endElement ht hopen rfl
    refine ⟨_, fun _ => rfl, (ht.addsNode hopen ha' rfl rfl).1 rfl, ?_, ?_, ha'.libxml2⟩
    · simp [pullToken, pull, hnode]
    · simp only [pull, hlevel, hlevel', Outline.stepWith, Outline.addKid_openNodes]
      ring
  | processingInstruction target data =>
    obtain ⟨target, rfl⟩ := Option.isSome_iff_exists.mp he.1
    obtain ⟨data, rfl⟩ := Option.isSome_iff_exists.mp he.2
    obtain ⟨hnode, ha, hlevel⟩ := ht.createOmProcessingInstruction hopen target data
    obtain ⟨ha', hlevel'⟩ := ha.endElement ht hopen rfl
    refine ⟨_, fun _ => rfl, (ht.addsNode hopen ha' rfl rfl).1 rfl, ?_, ?_, ha'.libxml2⟩
    · simp [pullToken, pull, hnode]
    · simp only [pull, hlevel, hlevel', Outline.stepWith, Outline.addKid_openNodes]
      ring

lemma Event.Proper.valued {e : Event} (he : e.Proper) : e.Valued := by
  cases e with
  | startElement tag | emptyElement tag => trivial
  | _ => exact he

/-- On proper events the labels are those of the events. -/
theorem Tracks.follows (ht : Tracks b o) (hopen : o.openNodes = p :: rest) {e : Event}
    (he : e.Proper) : Follows b o (o.step e) e := by
  obtain ⟨label, hlabel, hfollows⟩ := ht.follows_with hopen he.valued
  rw [hlabel he] at hfollows
  exact hfollows

end Create

end Axis2C.Om
