import Axis2C.OmBuilderRuns

/-!
# The document that the builder builds

A document is a tree of events, with a prolog in front of it. The builder builds its
tree, provided that every processing instruction has data: one without data makes the
builder lose its place.
-/
namespace Axis2C.Om

open OrderedTrees DoublyLinked

section Grammar

def Event.closing : Event → List Event
  | .startElement _ => [.endElement]
  | _ => []

def contentEvents (content : Trees Event) : List Event :=
  content.walk (fun e => [e]) Event.closing

/-- An event that stands for a node, as a reader gives it. A processing instruction
can be without data. -/
def Event.Readable : Event → Prop
  | .startElement tag => tag.Proper
  | .emptyElement tag => tag.Proper
  | .space value => value.isSome
  | .character value => value.isSome
  | .comment value => value.isSome
  | .processingInstruction target _ => target.isSome
  | _ => False

/-- Only a start tag has content. -/
def Content : Trees Event → Prop
  | .nil => True
  | .node e content rest =>
    e.Readable ∧ (content = .nil ∨ ∃ tag, e = .startElement tag) ∧ Content content ∧ Content rest

def Event.lacksData : Event → Bool
  | .processingInstruction _ none => true
  | _ => false

/-- The events of a document: a prolog without tags, the root element, and whatever
follows it. -/
structure Document where
  prolog : List Event
  root : Event
  content : Trees Event
  epilog : List Event
  prologPlain : ∀ e ∈ prolog, e.startsElement = false ∧ e ≠ .endElement
  rootStarts : root.startsElement = true
  rootContent : Content (.node root content .nil)

def Document.tree (doc : Document) : Trees Event := .node doc.root doc.content .nil

def Document.events (doc : Document) : List Event :=
  doc.prolog ++ (contentEvents doc.tree ++ doc.epilog)

lemma contentEvents_node (e : Event) (content rest : Trees Event) :
    contentEvents (.node e content rest) =
      e :: (contentEvents content ++ (e.closing ++ contentEvents rest)) := by
  simp [contentEvents, Trees.walk]

lemma Event.Readable.proper {e : Event} (he : e.Readable) (hdata : e.lacksData = false) :
    e.Proper := by
  cases e with
  | processingInstruction target data =>
    cases data with
    | none => simp [Event.lacksData] at hdata
    | some data => exact ⟨he, rfl⟩
  | startElement tag | emptyElement tag | space value | character value | comment value => exact he
  | startDocument | endElement | entityReference | cdata | documentType => exact he.elim

/-- The events of content stand for nodes, or end an element. -/
lemma Content.readable {content : Trees Event} (hc : Content content) {e : Event}
    (he : e ∈ contentEvents content) : e.Readable ∨ e = .endElement := by
  induction content with
  | nil => simp [contentEvents, Trees.walk] at he
  | node e' content rest ihc ihr =>
    obtain ⟨he', -, hcontent, hrest⟩ := hc
    rw [contentEvents_node] at he
    simp only [List.mem_cons, List.mem_append] at he
    obtain rfl | hmem | hmem | hmem := he
    · exact .inl he'
    · exact ihc hcontent hmem
    · cases e' with
      | startElement tag => exact .inr (by simpa [Event.closing] using hmem)
      | _ => simp [Event.closing] at hmem
    · exact ihr hrest hmem

lemma Content.proper {content : Trees Event} (hc : Content content) {e : Event}
    (he : e ∈ contentEvents content) (hdata : e.lacksData = false) : e.Proper := by
  obtain hreadable | rfl := hc.readable he
  · exact hreadable.proper hdata
  · trivial

end Grammar

section Outlines

variable {o : Outline}

/-- The nodes of a list of trees, between two addresses. -/
def Laid (o : Outline) (low high : ℕ) : List ℕ → Trees Event → Prop
  | [], .nil => True
  | a :: as, .node e content rest =>
    low ≤ a ∧ a < high ∧ o.labels a = e.label ∧ Laid o low high (o.kids a) content ∧
      Laid o low high as rest
  | _, _ => False

lemma Laid.congr {o' : Outline} {low high : ℕ} {as : List ℕ} {trees : Trees Event}
    (hlaid : Laid o low high as trees)
    (hsame : ∀ n, low ≤ n → n < high → o'.kids n = o.kids n ∧ o'.labels n = o.labels n) :
    Laid o' low high as trees := by
  induction trees generalizing as with
  | nil =>
    cases as with
    | nil => trivial
    | cons a as => exact hlaid.elim
  | node e content rest ihc ihr =>
    cases as with
    | nil => exact hlaid.elim
    | cons a as =>
      obtain ⟨hlow, hhigh, hlabel, hcontent, hrest⟩ := hlaid
      obtain ⟨hkids, hlabels⟩ := hsame a hlow hhigh
      exact ⟨hlow, hhigh, hlabels.trans hlabel, hkids.symm ▸ ihc hcontent, ihr hrest⟩

lemma Laid.widen {low high low' high' : ℕ} {as : List ℕ} {trees : Trees Event}
    (hlaid : Laid o low high as trees) (hlow : low' ≤ low) (hhigh : high ≤ high') :
    Laid o low' high' as trees := by
  induction trees generalizing as with
  | nil =>
    cases as with
    | nil => trivial
    | cons a as => exact hlaid.elim
  | node e content rest ihc ihr =>
    cases as with
    | nil => exact hlaid.elim
    | cons a as =>
      obtain ⟨h1, h2, hlabel, hcontent, hrest⟩ := hlaid
      exact ⟨by omega, by omega, hlabel, ihc hcontent, ihr hrest⟩

/-- The outline with the nodes of a list of trees added to an element. -/
structure Adds (o o' : Outline) (p : ℕ) (trees : Trees Event) : Prop where
  openNodes : o'.openNodes = o.openNodes
  used : o.used ≤ o'.used
  kids : ∃ as, o'.kids p = o.kids p ++ as ∧ Laid o' o.used o'.used as trees
  other : ∀ m < o.used, m ≠ p → o'.kids m = o.kids m
  labels : ∀ m < o.used, o'.labels m = o.labels m
  unborn : ∀ m, o'.used ≤ m → o'.kids m = []

/-- An event is a start tag, or it makes a node without content. -/
lemma Event.Readable.cases {e : Event} (he : e.Readable) :
    (∃ tag, e = .startElement tag) ∨ (∀ o : Outline, o.step e = o.addKid e.label) ∧ e.closing = [] := by
  cases e with
  | startElement tag => exact .inl ⟨tag, rfl⟩
  | emptyElement tag | space value | character value | comment value
  | processingInstruction target data => exact .inr ⟨fun _ => rfl, rfl⟩
  | startDocument | endElement | entityReference | cdata | documentType => exact he.elim

section Node

variable {p : ℕ} {rest : List ℕ} {label : Option Label}

lemma Outline.addKid_eq (hopen : o.openNodes = p :: rest) :
    o.addKid label = { o with
      used := o.used + 1, kids := Function.update o.kids p (o.kids p ++ [o.used])
      labels := Function.update o.labels o.used label } := by
  simp only [Outline.addKid, hopen]

/-- The first of several trees, once its content is there, and the trees behind it. -/
lemma Adds.node {o1 o2 o3 : Outline} {e : Event} {content trees : Trees Event}
    (hp : p < o.used)
    (ho1 : o1.used = o.used + 1 ∧ o1.kids = Function.update o.kids p (o.kids p ++ [o.used]) ∧
      o1.labels = Function.update o.labels o.used e.label)
    (h2 : o2.openNodes = o.openNodes ∧ o1.used ≤ o2.used ∧
      Laid o2 o1.used o2.used (o2.kids o.used) content ∧
      (∀ m < o1.used, m ≠ o.used → o2.kids m = o1.kids m) ∧
      (∀ m < o1.used, o2.labels m = o1.labels m))
    (h3 : Adds o2 o3 p trees) : Adds o o3 p (.node e content trees) := by
  obtain ⟨hu1, hk1, hl1⟩ := ho1
  obtain ⟨hopen2, hu2, hlaid2, hother2, hlabels2⟩ := h2
  obtain ⟨as, hkids3, hlaid3⟩ := h3.kids
  have hu3 := h3.used
  have hkid : o2.kids p = o.kids p ++ [o.used] := by
    rw [hother2 p (by omega) (by omega), hk1, Function.update_self]
  refine ⟨h3.openNodes.trans hopen2, by omega, ⟨o.used :: as, ?_, ?_⟩, fun m hm hmp => ?_,
    fun m hm => ?_, h3.unborn⟩
  · rw [hkids3, hkid]
    simp
  · refine ⟨le_rfl, by omega, ?_, ?_, hlaid3.widen (by omega) le_rfl⟩
    · rw [h3.labels _ (by omega), hlabels2 _ (by omega), hl1, Function.update_self]
    · rw [h3.other o.used (by omega) (by omega)]
      refine (hlaid2.congr fun n hn hn' => ?_).widen (by omega) hu3
      exact ⟨h3.other n hn' (by omega), h3.labels n hn'⟩
  · rw [h3.other m (by omega) hmp, hother2 m (by omega) (by omega), hk1, Function.update_of_ne hmp]
  · rw [h3.labels m (by omega), hlabels2 m (by omega), hl1, Function.update_of_ne (by omega)]

/-- The events of content add its trees to the innermost open element. -/
theorem run_content {content : Trees Event} (hc : Content content)
    (hopen : o.openNodes = p :: rest) (hp : p < o.used)
    (hunborn : ∀ m, o.used ≤ m → o.kids m = []) :
    Adds o (o.run (contentEvents content)) p content ∧ Stays o (contentEvents content) := by
  induction content generalizing o p rest with
  | nil => exact ⟨⟨rfl, le_rfl, ⟨[], by simp [contentEvents, Trees.walk], trivial⟩, fun _ _ _ => rfl,
      fun _ _ => rfl, hunborn⟩, trivial⟩
  | node e content trees ihc ihr =>
    obtain ⟨he, hshape, hcontent, htrees⟩ := hc
    have hne : o.openNodes ≠ [] := by simp [hopen]
    have hkid := @Outline.addKid_eq o p rest e.label hopen
    have hunborn1 : ∀ m, o.used + 1 ≤ m →
        Function.update o.kids p (o.kids p ++ [o.used]) m = [] := by
      intro m hm
      rw [Function.update_of_ne (by omega), hunborn m (by omega)]
    rw [contentEvents_node]
    obtain ⟨tag, rfl⟩ | ⟨hstep, hclosing⟩ := he.cases
    · have hstart : o.step (.startElement tag) = { o with
          used := o.used + 1, kids := Function.update o.kids p (o.kids p ++ [o.used])
          labels := Function.update o.labels o.used (Event.startElement tag).label
          openNodes := o.used :: o.openNodes } := by
        simp only [Outline.step, Outline.stepWith, Outline.enter, hkid]
      obtain ⟨h2, hs2⟩ := @ihc (o.step (.startElement tag)) o.used o.openNodes hcontent
        (by rw [hstart]) (by rw [hstart]; simp) (by rw [hstart]; exact hunborn1)
      obtain ⟨as, hkids2, hlaid2⟩ := h2.kids
      have hnil : (o.step (.startElement tag)).kids o.used = [] := by
        simp only [hstart]
        rw [Function.update_of_ne (by omega), hunborn o.used le_rfl]
      rw [hnil, List.nil_append] at hkids2
      obtain ⟨o2, ho2⟩ : ∃ o2, o2 = (o.step (.startElement tag)).run (contentEvents content) :=
        ⟨_, rfl⟩
      rw [← ho2] at h2 hkids2 hlaid2
      have hopen2 : o2.openNodes = o.used :: o.openNodes := by
        rw [h2.openNodes, hstart]
      have hused2 := h2.used
      simp only [hstart] at hused2
      obtain ⟨h3, hs3⟩ := @ihr o2.leave p rest htrees (by simp [Outline.leave, hopen2, hopen])
        (by simp only [Outline.leave]; omega) (by simpa [Outline.leave] using h2.unborn)
      constructor
      · have hrun : o.run (.startElement tag :: (contentEvents content ++
            ((Event.startElement tag).closing ++ contentEvents trees))) =
            o2.leave.run (contentEvents trees) := by
          rw [Outline.run_cons, Outline.run_append, Outline.run_append, ← ho2]
          rfl
        rw [hrun]
        refine @Adds.node o p (o.step (.startElement tag)) o2.leave _ _ content trees hp ?_ ?_ h3
        · rw [hstart]
          exact ⟨rfl, rfl, rfl⟩
        · refine ⟨by simp [Outline.leave, hopen2], h2.used, ?_, h2.other, h2.labels⟩
          simp only [Outline.leave, hkids2]
          exact hlaid2.congr fun _ _ _ => ⟨rfl, rfl⟩
      · refine ⟨hne, ?_⟩
        rw [stays_append, stays_append, ← ho2]
        exact ⟨hs2, ⟨by simp [hopen2], trivial⟩, hs3⟩
    · have hnil : content = .nil := by
        obtain hnil | ⟨tag, rfl⟩ := hshape
        · exact hnil
        · simp [Event.closing] at hclosing
      subst hnil
      rw [hclosing, List.nil_append, show contentEvents .nil = [] from rfl, List.nil_append,
        Outline.run_cons, hstep]
      obtain ⟨h3, hs3⟩ := @ihr (o.addKid e.label) p rest htrees
        (by rw [Outline.addKid_openNodes, hopen]) (by rw [hkid]; exact Nat.lt_succ_of_lt hp)
        (by rw [hkid]; exact hunborn1)
      refine ⟨?_, hne, by rw [hstep]; exact hs3⟩
      refine @Adds.node o p (o.addKid e.label) (o.addKid e.label) _ _ .nil trees hp ?_ ?_ h3
      · rw [hkid]
        exact ⟨rfl, rfl, rfl⟩
      · refine ⟨Outline.addKid_openNodes o e.label, le_rfl, ?_, fun _ _ _ => rfl, fun _ _ => rfl⟩
        have hkids : (o.addKid e.label).kids o.used = [] := by
          rw [hkid]
          simp only
          rw [Function.update_of_ne (by omega), hunborn o.used le_rfl]
        rw [hkids]
        trivial

end Node

end Outlines

section Trees

variable {b : Builder} {o : Outline}

/-- The trees that the links of the heap show from a node on. -/
def Shows (h : OmHeap) : Option ℕ → Trees Event → Prop
  | n, .nil => n = none
  | n, .node e content rest =>
    ∃ a, n = some a ∧ nodeLabel (h.data a) = e.label ∧ isComplete h a = true ∧
      Shows h (h.firstChild a) content ∧ Shows h (h.next a) rest

/-- Once all elements are closed, the links show the trees of the outline. -/
lemma Tracks.shows (ht : Tracks b o) (hclosed : o.openNodes = []) {low high : ℕ}
    (hhigh : high ≤ o.used) {trees : Trees Event} {before : Option ℕ} {as : List ℕ}
    (hlaid : Laid o low high as trees) (hlinked : Linked b.heap.next b.heap.prev before as none) :
    Shows b.heap as.head? trees := by
  induction trees generalizing as before with
  | nil =>
    cases as with
    | nil => rfl
    | cons a as => exact hlaid.elim
  | node e content rest ihc ihr =>
    cases as with
    | nil => exact hlaid.elim
    | cons a as =>
      obtain ⟨-, ha, hlabel, hcontent, hrest⟩ := hlaid
      obtain ⟨-, hnext, hlinked⟩ := hlinked
      have hcs := ht.children a (by omega)
      refine ⟨a, rfl, (ht.labelled a (by omega)).trans hlabel, ?_, ?_, ?_⟩
      · exact (ht.complete a (by omega)).mpr (by simp [hclosed])
      · rw [hcs.first]
        exact ihc hcontent hcs.linked
      · rw [hnext, Option.or_none]
        exact ihr hrest hlinked

lemma Tracks.root_single (ht : Tracks b o) :
    Linked b.heap.next b.heap.prev none [0] none := by
  have hlive := (ht.live 0).mpr ht.started
  have hparent : b.heap.parent 0 = none := by
    cases hp : b.heap.parent 0 with
    | none => rfl
    | some q =>
      have hchild : ChildOf b.heap 0 q := ⟨hlive, hp⟩
      have hq := (ht.live q).mp (ht.forest.parentLive 0 q hchild)
      have := ht.later q 0 (((ht.children q hq).members 0).mpr hchild)
      omega
  obtain ⟨hprev, hnext⟩ := ht.forest.single 0 hlive hparent
  exact ⟨hprev, hnext, trivial⟩

end Trees

section Root

def rootOutline (root : Event) : Outline :=
  Outline.root root.label (match root with | .emptyElement _ => true | _ => false)

/-- The events behind the one that starts the root. -/
def Document.inner (doc : Document) : List Event := contentEvents doc.content ++ doc.root.closing

lemma Document.events_eq (doc : Document) :
    contentEvents doc.tree = doc.root :: doc.inner := by
  rw [Document.tree, contentEvents_node, Document.inner]
  simp [contentEvents, Trees.walk]

lemma Blank.pull_root {b : Builder} (hb : Blank b) {root : Event}
    (hstarts : root.startsElement = true) (hreadable : root.Readable) :
    (Om.pull b root).1 = some 0 ∧ Tracks (Om.pull b root).2 (rootOutline root) := by
  cases root with
  | startElement tag =>
    obtain ⟨label, hlabel, hnode, ht, -⟩ := hb.startElement tag false
    rw [hlabel hreadable] at ht
    exact ⟨hnode, ht⟩
  | emptyElement tag =>
    obtain ⟨-, -, hnode, -, -⟩ := hb.startElement tag !b.libxml2
    obtain ⟨label, hlabel, ht, -⟩ := hb.emptyElement tag !b.libxml2
    rw [hlabel hreadable] at ht
    exact ⟨hnode, ht⟩
  | _ => simp [Event.startsElement] at hstarts

/-- The content of the root leaves the tree of the document. -/
lemma Document.run_inner (doc : Document) :
    Stays (rootOutline doc.root) doc.inner ∧
      ((rootOutline doc.root).run doc.inner).openNodes = [] ∧
      Laid ((rootOutline doc.root).run doc.inner) 0 ((rootOutline doc.root).run doc.inner).used
        [0] doc.tree := by
  obtain ⟨hreadable, hshape, hcontent, -⟩ := doc.rootContent
  have hstarts := doc.rootStarts
  unfold Document.inner Document.tree
  cases hroot : doc.root with
  | startElement tag =>
    have hopen : (rootOutline (.startElement tag)).openNodes = [0] := rfl
    obtain ⟨hadds, hstays⟩ := @run_content (rootOutline (.startElement tag)) 0 [] doc.content
      hcontent hopen (by simp [rootOutline, Outline.root]) fun _ _ => rfl
    obtain ⟨as, hkids, hlaid⟩ := hadds.kids
    have hused := hadds.used
    rw [show (Event.startElement tag).closing = [.endElement] from rfl, stays_append,
      Outline.run_append]
    obtain ⟨o, ho⟩ : ∃ o, o = (rootOutline (.startElement tag)).run (contentEvents doc.content) :=
      ⟨_, rfl⟩
    rw [← ho] at hadds hkids hlaid hused ⊢
    have hopen' : o.openNodes = [0] := hadds.openNodes.trans hopen
    have hstarted : (rootOutline (.startElement tag)).used = 1 := rfl
    rw [hstarted] at hused
    refine ⟨⟨hstays, by simp [hopen'], trivial⟩, ?_, ?_⟩
    · simp [Outline.step, Outline.stepWith, Outline.leave, hopen']
    · have hkids' : o.kids 0 = as := by simpa [rootOutline, Outline.root] using hkids
      refine ⟨le_rfl, Nat.lt_of_lt_of_le Nat.zero_lt_one hused, ?_, ?_, trivial⟩
      · exact hadds.labels 0 (by rw [hstarted]; simp)
      · change Laid o.leave 0 o.used (o.kids 0) doc.content
        have hleave : Laid o.leave (rootOutline (.startElement tag)).used o.used as doc.content :=
          hlaid.congr fun _ _ _ => ⟨rfl, rfl⟩
        rw [hkids']
        exact hleave.widen (Nat.zero_le _) le_rfl
  | emptyElement tag =>
    have hnil : doc.content = .nil := by
      obtain hnil | ⟨tag', hstart⟩ := hshape
      · exact hnil
      · simp [hroot] at hstart
    rw [hnil]
    exact ⟨trivial, rfl, le_rfl, by simp [rootOutline, Outline.root, contentEvents, Trees.walk,
      Event.closing], rfl, trivial, trivial⟩
  | _ => simp [hroot, Event.startsElement] at hstarts

end Root

section Build

variable {b : Builder} {o : Outline}

/-- The first call for the root reads the prolog and the tag of the root. -/
lemma Document.getRootElement_eq (doc : Document) (libxml2 : Bool) :
    ∃ b, Blank b ∧ b = pullAll (builderCreate libxml2) doc.prolog ∧
      documentGetRootElement doc.events (builderCreate libxml2) =
        (some 0, doc.inner ++ doc.epilog, (pull b doc.root).2) := by
  have hblank := builderCreate_blank libxml2
  have hplain : ∀ e ∈ doc.prolog, e.startsElement = false := fun e he => (doc.prologPlain e he).1
  have hb := hblank.pullAll hplain
  obtain ⟨hnode, ht⟩ := hb.pull_root doc.rootStarts doc.rootContent.1
  refine ⟨_, hb, rfl, ?_⟩
  have hevents : doc.events = doc.prolog ++ doc.root :: (doc.inner ++ doc.epilog) := by
    rw [Document.events, doc.events_eq]
    rfl
  have hnext := hblank.next_root hplain (doc.inner ++ doc.epilog) hnode
  have hroot : ({ (pull (pullAll (builderCreate libxml2) doc.prolog) doc.root).2 with
      documentRoot := some 0 } : Builder) =
      (pull (pullAll (builderCreate libxml2) doc.prolog) doc.root).2 := by
    rw [← ht.documentRoot]
  unfold documentGetRootElement documentBuildNext
  rw [hblank.documentRoot, hevents, hnext]
  simp only [hroot]

/-- From the root on, `axiom_document_build_all` is its loop. -/
lemma Document.buildAll_eq (doc : Document) (libxml2 : Bool) :
    ∃ b, Blank b ∧ b = pullAll (builderCreate libxml2) doc.prolog ∧
      documentBuildAll doc.events (builderCreate libxml2) =
        buildLoop ((doc.inner ++ doc.epilog).length + 1) (doc.inner ++ doc.epilog)
          (pull b doc.root).2 := by
  obtain ⟨b, hb, hbeq, hget⟩ := doc.getRootElement_eq libxml2
  refine ⟨b, hb, hbeq, ?_⟩
  unfold documentBuildAll
  simp only [hget]

/-- The state of the run, with the events that are left. -/
def Midway (o : Outline) (inner epilog : List Event) (es : List Event) (b : Builder) : Prop :=
  ∃ es₁ es₂, inner = es₁ ++ es₂ ∧ es = es₂ ++ epilog ∧ Tracks b (o.run es₁)

section Midway

variable {inner epilog : List Event} (hstays : Stays o inner)
  (hclosed : (o.run inner).openNodes = [])

include hstays hclosed in
/-- As long as the builder is not done, it takes the next event of the root. -/
lemma Midway.pull (hproper : ∀ e ∈ inner, e.Proper) {e : Event} {es : List Event}
    (hmid : Midway o inner epilog (e :: es) b) (hdone : b.done = false) :
    Midway o inner epilog es (pull b e).2 ∧ pullToken b e = (true, (Om.pull b e).2) := by
  obtain ⟨es₁, es₂, hinner, hes, htracks⟩ := hmid
  cases es₂ with
  | nil =>
    rw [List.append_nil] at hinner
    rw [← hinner] at htracks
    rw [htracks.done, hclosed] at hdone
    simp at hdone
  | cons e' es₂ =>
    obtain ⟨rfl, -⟩ := List.cons.inj hes
    have htail : es = es₂ ++ epilog := (List.cons.inj hes).2
    have hopen : (o.run es₁).openNodes ≠ [] := by
      rw [hinner, stays_append] at hstays
      exact hstays.2.1
    obtain ⟨p, rest, hopen⟩ := List.exists_cons_of_ne_nil hopen
    have hfollows := htracks.follows hopen (hproper e (by rw [hinner]; simp))
    refine ⟨⟨es₁ ++ [e], es₂, by simp [hinner], htail, ?_⟩, hfollows.token⟩
    rw [Outline.run_append]
    exact hfollows.tracks

include hstays in
/-- A state with a complete root, one that is done and one without events is at the
end of the root. -/
lemma Midway.ended {es : List Event} (hmid : Midway o inner epilog es b)
    (hend : isComplete b.heap 0 = true ∨ b.done = true ∨ es = []) : Tracks b (o.run inner) := by
  obtain ⟨es₁, es₂, hinner, hes, htracks⟩ := hmid
  cases es₂ with
  | nil =>
    rw [List.append_nil] at hinner
    rwa [hinner]
  | cons e es₂ =>
    exfalso
    have hopen : (o.run es₁).openNodes ≠ [] := by
      rw [hinner, stays_append] at hstays
      exact hstays.2.1
    obtain hcomplete | hdone | hnil := hend
    · obtain ⟨p, rest, hopen⟩ := List.exists_cons_of_ne_nil hopen
      exact (htracks.complete 0 htracks.started).mp hcomplete (htracks.root_open hopen)
    · rw [htracks.done, List.isEmpty_iff] at hdone
      exact hopen hdone
    · simp [hnil] at hes

end Midway

lemma Document.mem_tree (doc : Document) {e : Event} (he : e ∈ doc.inner) :
    e ∈ contentEvents doc.tree := by
  rw [doc.events_eq]
  exact List.mem_cons_of_mem _ he

/-- The events of the root are proper when no data is missing. -/
lemma Document.inner_proper (doc : Document)
    (hdata : ∀ e ∈ contentEvents doc.tree, e.lacksData = false) : ∀ e ∈ doc.inner, e.Proper :=
  fun e he => doc.rootContent.proper (doc.mem_tree he) (hdata e (doc.mem_tree he))

/-- With data in every processing instruction the builder comes to the end of the root, and
what every pull keeps holds there. -/
lemma Document.buildAll_keeps (doc : Document) (libxml2 : Bool) {K : Builder → Outline → Prop}
    (hkeep : ∀ c o e, Tracks c o → o.openNodes ≠ [] → e.Proper → K c o → K (pull c e).2 (o.step e))
    (hset : ∀ c o error, K c o → K { c with error := error } o)
    (hroot : ∀ c, Blank c → K (pull c doc.root).2 (rootOutline doc.root))
    (hdata : ∀ e ∈ contentEvents doc.tree, e.lacksData = false) :
    ∃ es b, documentBuildAll doc.events (builderCreate libxml2) = some (some 0, es, b) ∧
      Midway (rootOutline doc.root) doc.inner doc.epilog es b ∧
      Tracks b ((rootOutline doc.root).run doc.inner) ∧
      K b ((rootOutline doc.root).run doc.inner) := by
  obtain ⟨b, hb, -, hbuild⟩ := doc.buildAll_eq libxml2
  obtain ⟨-, ht⟩ := hb.pull_root doc.rootStarts doc.rootContent.1
  obtain ⟨hstays, hclosed, -⟩ := doc.run_inner
  -- the state of the run, with what is kept
  let J (es : List Event) (c : Builder) : Prop :=
    Midway (rootOutline doc.root) doc.inner doc.epilog es c ∧
      ∀ es₁ es₂, doc.inner = es₁ ++ es₂ → es = es₂ ++ doc.epilog →
        K c ((rootOutline doc.root).run es₁)
  have hpull (e : Event) (es : List Event) (c : Builder) (hJ : J (e :: es) c)
      (hdone : c.done = false) : J es (pull c e).2 := by
    obtain ⟨hmid, hK⟩ := hJ
    refine ⟨(hmid.pull hstays hclosed (doc.inner_proper hdata) hdone).1, fun es₁ es₂ hin hes => ?_⟩
    obtain ⟨es₁', es₂', hin', hes', htracks⟩ := hmid
    cases es₂' with
    | nil =>
      rw [List.append_nil] at hin'
      rw [← hin'] at htracks
      rw [htracks.done, hclosed] at hdone
      simp at hdone
    | cons e' es₂' =>
      obtain ⟨rfl, htail⟩ := List.cons.inj hes'
      obtain rfl : es₂ = es₂' := List.append_cancel_right (hes.symm.trans htail)
      have hone : es₁ ++ es₂ = (es₁' ++ [e]) ++ es₂ := by
        rw [← hin, hin', List.append_assoc, List.singleton_append]
      obtain rfl := List.append_cancel_right hone
      have hopen : ((rootOutline doc.root).run es₁').openNodes ≠ [] := by
        rw [hin', stays_append] at hstays
        exact hstays.2.1
      rw [Outline.run_append]
      exact hkeep c _ e htracks hopen (doc.inner_proper hdata e (by rw [hin']; simp))
        (hK es₁' (e :: es₂) hin' hes')
  have herror (es : List Event) (c : Builder) (error : Option BuilderError) (hJ : J es c) :
      J es { c with error := error } := by
    obtain ⟨⟨es₁, es₂, hinner, hes, htracks⟩, hK⟩ := hJ
    exact ⟨⟨es₁, es₂, hinner, hes, htracks.setError error⟩,
      fun es₁ es₂ hin hes => hset c _ error (hK es₁ es₂ hin hes)⟩
  have hdocument (es : List Event) (c : Builder) (hJ : J es c) : c.documentRoot = some 0 := by
    obtain ⟨⟨es₁, es₂, -, -, htracks⟩, -⟩ := hJ
    exact htracks.documentRoot
  have hstart : J (doc.inner ++ doc.epilog) (pull b doc.root).2 := by
    refine ⟨⟨[], doc.inner, rfl, rfl, ht⟩, fun es₁ es₂ hin hes => ?_⟩
    obtain rfl : doc.inner = es₂ := List.append_cancel_right hes
    obtain rfl : es₁ = [] := List.self_eq_append_left.mp hin
    exact hroot b hb
  obtain ⟨⟨root, es, b'⟩, hloop, ⟨hmid, hK⟩, hroot', hend⟩ := buildLoop_spec hpull herror
    (fun es c hJ => by simp [hdocument es c hJ]) hstart (Nat.lt_succ_self _)
  replace hroot' : root = (some 0).filter (isComplete b'.heap) := by
    rw [← hdocument es b' ⟨hmid, hK⟩]
    exact hroot'
  have ht' := hmid.ended hstays (by
    refine hend.imp_left fun hsome => ?_
    simp only [hroot'] at hsome
    simpa using hsome)
  have hcomplete : isComplete b'.heap 0 = true :=
    (ht'.complete 0 ht'.started).mpr (by simp [hclosed])
  have hsome : root = some 0 := by simp [hroot', hcomplete]
  refine ⟨es, b', ?_, hmid, ht', ?_⟩
  · rw [hbuild, ← hsome]
    exact hloop
  · -- no event of the root is left
    obtain ⟨es₁, es₂, hinner, hes, htracks⟩ := hmid
    cases es₂ with
    | nil =>
      rw [List.append_nil] at hinner
      rw [hinner]
      exact hK es₁ [] (by simpa using hinner) hes
    | cons e es₂ =>
      have hopen : ((rootOutline doc.root).run es₁).openNodes ≠ [] := by
        rw [hinner, stays_append] at hstays
        exact hstays.2.1
      obtain ⟨p, rest, hopen⟩ := List.exists_cons_of_ne_nil hopen
      exact absurd (htracks.root_open hopen) ((htracks.complete 0 htracks.started).mp hcomplete)

/-- With data in every processing instruction the builder comes to the end of the root. -/
lemma Document.buildAll_tracks (doc : Document) (libxml2 : Bool)
    (hdata : ∀ e ∈ contentEvents doc.tree, e.lacksData = false) :
    ∃ es b, documentBuildAll doc.events (builderCreate libxml2) = some (some 0, es, b) ∧
      Midway (rootOutline doc.root) doc.inner doc.epilog es b ∧
      Tracks b ((rootOutline doc.root).run doc.inner) := by
  obtain ⟨es, b, hbuild, hmid, ht, -⟩ := doc.buildAll_keeps libxml2 (K := fun _ _ => True)
    (fun _ _ _ _ _ _ _ => trivial) (fun _ _ _ _ => trivial) (fun _ _ => trivial) hdata
  exact ⟨es, b, hbuild, hmid, ht⟩

lemma Document.buildAll_shows (doc : Document) (libxml2 : Bool)
    (hdata : ∀ e ∈ contentEvents doc.tree, e.lacksData = false) :
    ∃ es b, documentBuildAll doc.events (builderCreate libxml2) = some (some 0, es, b) ∧
      Shows b.heap (some 0) doc.tree ∧ WellLinked b.heap ∧ b.done = true := by
  obtain ⟨es, b, hbuild, -, ht⟩ := doc.buildAll_tracks libxml2 hdata
  obtain ⟨-, hclosed, hlaid⟩ := doc.run_inner
  refine ⟨es, b, hbuild, ht.shows hclosed le_rfl hlaid ht.root_single, ht.forest.toWellLinked, ?_⟩
  rw [ht.done, hclosed]
  rfl

/-- From the start of the root to its end the builder follows the outline. -/
lemma Document.tracks_along (doc : Document) (libxml2 : Bool)
    (hdata : ∀ e ∈ contentEvents doc.tree, e.lacksData = false) {es es' : List Event}
    (hinner : doc.inner = es ++ es') :
    Tracks (pullAll (builderCreate libxml2) (doc.prolog ++ doc.root :: es))
        ((rootOutline doc.root).run es) ∧
      Stays (rootOutline doc.root) es ∧ Stays ((rootOutline doc.root).run es) es' := by
  obtain ⟨b, hb, hbeq, -⟩ := doc.buildAll_eq libxml2
  obtain ⟨-, ht⟩ := hb.pull_root doc.rootStarts doc.rootContent.1
  obtain ⟨hstays, -, -⟩ := doc.run_inner
  rw [hinner, stays_append] at hstays
  obtain ⟨ht', -⟩ := ht.run hstays.1 fun e he =>
    doc.inner_proper hdata e (by rw [hinner]; exact List.mem_append_left _ he)
  have hstate : pullAll (builderCreate libxml2) (doc.prolog ++ doc.root :: es) =
      pullAll (pull b doc.root).2 es := by
    rw [pullAll, List.foldl_append, List.foldl_cons, hbeq]
    rfl
  rw [hstate]
  exact ⟨ht', hstays⟩

/-- In every state from the start of the root to its end, the incomplete nodes are the
elements that were started and not ended. -/
lemma Document.complete_along (doc : Document) (libxml2 : Bool)
    (hdata : ∀ e ∈ contentEvents doc.tree, e.lacksData = false) {es es' : List Event}
    (hsplit : contentEvents doc.tree = es ++ es') (hne : es ≠ []) :
    (pullAll (builderCreate libxml2) (doc.prolog ++ es)).used = (es.foldl openStep (0, [])).1 ∧
      (∀ n < (pullAll (builderCreate libxml2) (doc.prolog ++ es)).used,
        isComplete (pullAll (builderCreate libxml2) (doc.prolog ++ es)).heap n = true ↔
          n ∉ (es.foldl openStep (0, [])).2) ∧
      ((pullAll (builderCreate libxml2) (doc.prolog ++ es)).done = true ↔
        isComplete (pullAll (builderCreate libxml2) (doc.prolog ++ es)).heap 0 = true) := by
  obtain ⟨e, es₁, rfl⟩ := List.exists_cons_of_ne_nil hne
  rw [doc.events_eq] at hsplit
  obtain ⟨rfl, -⟩ := List.cons.inj hsplit
  obtain ⟨ht, hstays, -⟩ := doc.tracks_along libxml2 hdata (List.cons.inj hsplit).2
  have hopen : (doc.root :: es₁).foldl openStep (0, []) =
      (((rootOutline doc.root).run es₁).used, ((rootOutline doc.root).run es₁).openNodes) := by
    have hfirst : openStep (0, []) doc.root =
        ((rootOutline doc.root).used, (rootOutline doc.root).openNodes) := by
      have hstarts := doc.rootStarts
      cases hroot : doc.root with
      | startElement tag | emptyElement tag => rfl
      | _ => simp [hroot, Event.startsElement] at hstarts
    rw [List.foldl_cons, hfirst, foldl_openStep hstays]
  rw [hopen]
  refine ⟨ht.used, fun n hn => ht.complete n (ht.used ▸ hn), ?_⟩
  rw [ht.done, isComplete, ht.complete 0 ht.started, List.isEmpty_iff]
  constructor
  · intro hnil
    simp [hnil]
  · intro h0
    by_contra hne'
    obtain ⟨p, rest, hopen⟩ := List.exists_cons_of_ne_nil hne'
    exact h0 (ht.root_open hopen)

end Build

section Lost

variable {b : Builder}

/-- The builder has lost its place: it has no last node while the root is incomplete, or
the document has another root. -/
structure Lost (b : Builder) : Prop where
  used : 0 < b.used
  root : ∃ root, b.documentRoot = some root ∧
    (root = 0 → b.lastNode = none ∧ isComplete b.heap 0 = false)

/-- A routine that keeps the document root, and does nothing without a last node. -/
structure KeepsRoot (b b' : Builder) : Prop where
  documentRoot : b'.documentRoot = b.documentRoot
  used : b.used ≤ b'.used
  idle : b.lastNode = none → b'.lastNode = none ∧ b'.heap = b.heap

lemma Lost.keeps {b' : Builder} (hlost : Lost b) (hkeeps : KeepsRoot b b') : Lost b' := by
  obtain ⟨root, hroot, hzero⟩ := hlost.root
  refine ⟨Nat.lt_of_lt_of_le hlost.used hkeeps.used, root, hkeeps.documentRoot.trans hroot,
    fun h0 => ?_⟩
  obtain ⟨hlast, hcomplete⟩ := hzero h0
  obtain ⟨hlast', hheap⟩ := hkeeps.idle hlast
  exact ⟨hlast', by rw [hheap]; exact hcomplete⟩

lemma documentSetRootElement_frame (b : Builder) (n : ℕ) :
    (documentSetRootElement b n).used = b.used ∧
      (documentSetRootElement b n).documentRoot = some n := by
  unfold documentSetRootElement
  split
  · exact ⟨rfl, rfl⟩
  · exact ⟨rfl, rfl⟩

lemma placeElement_root (b : Builder) (name : String) :
    (placeElement b name).used = b.used + 1 ∧
      (placeElement b name).documentRoot =
        if b.lastNode = none then some b.used else b.documentRoot := by
  unfold placeElement
  cases hlast : b.lastNode with
  | none =>
    obtain ⟨hused, hroot⟩ := documentSetRootElement_frame
      { newNode b none .element (.element ⟨name, none, [], [], false⟩) with
        rootNode := some b.used
        heap := nodeSetBuilder
          (newNode b none .element (.element ⟨name, none, [], [], false⟩)).heap b.used } b.used
    simp only [if_true]
    exact ⟨hused, hroot⟩
  | some last =>
    simp only [reduceCtorEq, if_false]
    split
    · exact ⟨rfl, rfl⟩
    · exact ⟨rfl, rfl⟩

lemma createOmElement_root (b : Builder) (tag : StartTag) (isEmpty : Bool) :
    (createOmElement b tag isEmpty).2.used = b.used + 1 ∧
      (createOmElement b tag isEmpty).2.documentRoot =
        if b.lastNode = none then some b.used else b.documentRoot := by
  have hframe := fillElement_frame b.used
    (placeElement { b with elementLevel := b.elementLevel + 1 } tag.name) tag isEmpty
  obtain ⟨hused, hroot⟩ := placeElement_root { b with elementLevel := b.elementLevel + 1 } tag.name
  exact ⟨hframe.used.trans hused, hframe.documentRoot.trans hroot⟩

lemma Lost.createOmElement (hlost : Lost b) (tag : StartTag) (isEmpty : Bool) :
    Lost (createOmElement b tag isEmpty).2 := by
  obtain ⟨hused, hdocument⟩ := createOmElement_root b tag isEmpty
  have hpos := hlost.used
  refine ⟨by omega, ?_⟩
  obtain ⟨root, hroot, hzero⟩ := hlost.root
  by_cases hlast : b.lastNode = none
  · rw [if_pos hlast] at hdocument
    exact ⟨b.used, hdocument, fun h0 => by omega⟩
  · rw [if_neg hlast] at hdocument
    exact ⟨root, hdocument.trans hroot, fun h0 => (hlast (hzero h0).1).elim⟩

lemma createOmText_keeps (b : Builder) (value : Option String) :
    KeepsRoot b (createOmText b value).2 := by
  unfold createOmText
  split
  · exact ⟨rfl, le_rfl, fun hlast => ⟨hlast, rfl⟩⟩
  · rename_i last hsome
    split
    · exact ⟨rfl, le_rfl, fun hlast => ⟨hlast, rfl⟩⟩
    · exact ⟨rfl, Nat.le_succ _, fun hlast => by simp [hsome] at hlast⟩

lemma createOmComment_keeps (b : Builder) (value : Option String) :
    KeepsRoot b (createOmComment b value).2 := by
  unfold createOmComment
  split
  · exact ⟨rfl, le_rfl, fun hlast => ⟨hlast, rfl⟩⟩
  · split
    · exact ⟨rfl, le_rfl, fun hlast => ⟨hlast, rfl⟩⟩
    · rename_i last hsome
      split
      · exact ⟨rfl, Nat.le_succ _, fun hlast => by simp [hsome] at hlast⟩
      · exact ⟨rfl, Nat.le_succ _, fun hlast => by simp [hsome] at hlast⟩

lemma createOmProcessingInstruction_keeps (b : Builder) (target data : Option String) :
    KeepsRoot b (createOmProcessingInstruction b target data).2 := by
  unfold createOmProcessingInstruction
  split
  · exact ⟨rfl, le_rfl, fun hlast => ⟨hlast, rfl⟩⟩
  · split
    · exact ⟨rfl, le_rfl, fun hlast => ⟨hlast, rfl⟩⟩
    · rename_i last hsome
      split
      · exact ⟨rfl, le_rfl, fun hlast => by simp [hsome] at hlast⟩
      · split
        · exact ⟨rfl, Nat.le_succ _, fun hlast => by simp [hsome] at hlast⟩
        · exact ⟨rfl, Nat.le_succ _, fun hlast => by simp [hsome] at hlast⟩

lemma closeLast_keeps (b : Builder) : KeepsRoot b (closeLast b) := by
  unfold closeLast
  split
  · exact ⟨rfl, le_rfl, fun hlast => ⟨hlast, rfl⟩⟩
  · rename_i last hsome
    split
    · split
      · exact ⟨rfl, le_rfl, fun hlast => ⟨hlast, rfl⟩⟩
      · exact ⟨rfl, le_rfl, fun hlast => by simp [hsome] at hlast⟩
    · exact ⟨rfl, le_rfl, fun hlast => by simp [hsome] at hlast⟩

lemma endElement_keeps (b : Builder) : KeepsRoot b (endElement b) := by
  obtain ⟨hroot, hused, hidle⟩ := closeLast_keeps { b with elementLevel := b.elementLevel - 1 }
  simp only [endElement]
  split
  · exact ⟨hroot, hused, hidle⟩
  · split
    · exact ⟨hroot, hused, hidle⟩
    · exact ⟨hroot, hused, hidle⟩

/-- Nodes are only added. -/
lemma pull_used (b : Builder) (e : Event) : b.used ≤ (pull b e).2.used := by
  have hcreate (tag : StartTag) (isEmpty : Bool) :
      b.used ≤ (createOmElement b tag isEmpty).2.used := by
    rw [(createOmElement_root b tag isEmpty).1]
    exact Nat.le_succ _
  cases e with
  | startElement tag => exact hcreate tag false
  | emptyElement tag => exact (hcreate tag _).trans (endElement_keeps _).used
  | endElement => exact (endElement_keeps b).used
  | space value | character value => exact (createOmText_keeps b value).used
  | comment value => exact (createOmComment_keeps b value).used.trans (endElement_keeps _).used
  | processingInstruction target data =>
    exact (createOmProcessingInstruction_keeps b target data).used.trans (endElement_keeps _).used
  | startDocument | entityReference | cdata | documentType => exact le_rfl

/-- A builder that has lost its place does not find it again. -/
lemma Lost.pull (hlost : Lost b) (e : Event) : Lost (pull b e).2 := by
  cases e with
  | startElement tag => exact hlost.createOmElement tag false
  | emptyElement tag => exact (hlost.createOmElement tag _).keeps (endElement_keeps _)
  | endElement => exact hlost.keeps (endElement_keeps b)
  | space value | character value => exact hlost.keeps (createOmText_keeps b value)
  | comment value =>
    exact (hlost.keeps (createOmComment_keeps b value)).keeps (endElement_keeps _)
  | processingInstruction target data =>
    exact (hlost.keeps (createOmProcessingInstruction_keeps b target data)).keeps
      (endElement_keeps _)
  | startDocument | entityReference | cdata | documentType => exact hlost

/-- A processing instruction without data makes the builder lose its place. -/
lemma Tracks.lost {o : Outline} (ht : Tracks b o) (hopen : o.openNodes ≠ []) {e : Event}
    (he : e.Readable) (hlacks : e.lacksData = true) : Lost (Om.pull b e).2 := by
  obtain ⟨p, rest, hopen⟩ := List.exists_cons_of_ne_nil hopen
  cases e with
  | processingInstruction target data =>
    cases data with
    | some data => simp [Event.lacksData] at hlacks
    | none =>
      obtain ⟨target, rfl⟩ := Option.isSome_iff_exists.mp he
      have hcreate : Om.createOmProcessingInstruction b (some target) none =
          (none, { b with
            elementLevel := b.elementLevel + 1, lastNode := none
            error := some .invalidNullParam }) := by
        unfold Om.createOmProcessingInstruction
        simp only [ht.lastNode]
      have hincomplete : isComplete b.heap 0 = false := by
        rw [← Bool.not_eq_true, isComplete, ht.complete 0 ht.started, not_not]
        exact ht.root_open hopen
      have hlost : Lost (Om.createOmProcessingInstruction b (some target) none).2 := by
        rw [hcreate]
        exact ⟨by rw [ht.used]; exact ht.started, 0, ht.documentRoot, fun _ => ⟨rfl, hincomplete⟩⟩
      exact hlost.keeps (endElement_keeps _)
  | _ => simp [Event.lacksData] at hlacks

/-- The builder is on its way to a processing instruction without data, or has lost its
place there. -/
def Doomed (o : Outline) (inner epilog : List Event) (es : List Event) (b : Builder) : Prop :=
  Lost b ∨ ∃ es₁ es₂ e es₃, inner = es₁ ++ (es₂ ++ e :: es₃) ∧ e.lacksData = true ∧
    (∀ e' ∈ es₂, e'.lacksData = false) ∧ es = es₂ ++ e :: (es₃ ++ epilog) ∧ Tracks b (o.run es₁)

section Doomed

variable {o : Outline} {inner epilog : List Event}

lemma Doomed.pull (hstays : Stays o inner)
    (hproper : ∀ e ∈ inner, e.lacksData = false → e.Proper)
    (hreadable : ∀ e ∈ inner, e.lacksData = true → e.Readable) {e : Event} {es : List Event}
    (hdoomed : Doomed o inner epilog (e :: es) b) : Doomed o inner epilog es (pull b e).2 := by
  obtain hlost | ⟨es₁, es₂, e₀, es₃, hinner, hlacks, hdata, hes, ht⟩ := hdoomed
  · exact .inl (hlost.pull e)
  · have hopen : (o.run es₁).openNodes ≠ [] := by
      rw [hinner, stays_append] at hstays
      cases es₂ with
      | nil | cons e' es₂ => exact hstays.2.1
    cases es₂ with
    | nil =>
      obtain rfl : e = e₀ := (List.cons.inj hes).1
      exact .inl (ht.lost hopen (hreadable e (by simp [hinner]) hlacks) hlacks)
    | cons e' es₂ =>
      obtain rfl : e = e' := (List.cons.inj hes).1
      have htail : es = es₂ ++ e₀ :: (es₃ ++ epilog) := (List.cons.inj hes).2
      obtain ⟨p, rest, hopen⟩ := List.exists_cons_of_ne_nil hopen
      have hfollows := ht.follows hopen (hproper e (by simp [hinner]) (hdata e (by simp)))
      refine .inr ⟨es₁ ++ [e], es₂, e₀, es₃, by simp [hinner], hlacks,
        fun x hx => hdata x (by simp [hx]), htail, ?_⟩
      rw [Outline.run_append]
      exact hfollows.tracks

/-- On the way to it, too, the root is not there as a complete node. -/
lemma Doomed.root (hstays : Stays o inner) {es : List Event}
    (hdoomed : Doomed o inner epilog es b) :
    b.documentRoot ≠ none ∧ b.documentRoot.filter (isComplete b.heap) ≠ some 0 := by
  obtain ⟨-, root, hroot, hzero⟩ | ⟨es₁, es₂, e₀, es₃, hinner, -, -, -, ht⟩ := hdoomed
  · refine ⟨by simp [hroot], ?_⟩
    rw [hroot]
    intro hsome
    obtain ⟨heq, hcomplete⟩ := Option.filter_eq_some_iff.mp hsome
    obtain rfl := Option.some.inj heq
    simp [(hzero rfl).2] at hcomplete
  · have hopen : (o.run es₁).openNodes ≠ [] := by
      rw [hinner, stays_append] at hstays
      cases es₂ with
      | nil | cons e' es₂ => exact hstays.2.1
    obtain ⟨p, rest, hopen⟩ := List.exists_cons_of_ne_nil hopen
    refine ⟨by simp [ht.documentRoot], ?_⟩
    rw [ht.documentRoot]
    intro hsome
    exact (ht.complete 0 ht.started).mp (Option.filter_eq_some_iff.mp hsome).2 (ht.root_open hopen)

end Doomed

/-- With a processing instruction that lacks data, `axiom_document_build_all` does not
return the root. -/
lemma Document.buildAll_doomed (doc : Document) (libxml2 : Bool)
    (hlacks : ∃ e ∈ contentEvents doc.tree, e.lacksData = true) (es : List Event) (b : Builder) :
    documentBuildAll doc.events (builderCreate libxml2) ≠ some (some 0, es, b) := by
  obtain ⟨b₀, hb, -, hbuild⟩ := doc.buildAll_eq libxml2
  obtain ⟨-, ht⟩ := hb.pull_root doc.rootStarts doc.rootContent.1
  obtain ⟨hstays, -, -⟩ := doc.run_inner
  have hfirst : ∃ e ∈ doc.inner, e.lacksData = true := by
    obtain ⟨e, he, hlacks⟩ := hlacks
    rw [doc.events_eq] at he
    obtain rfl | he := List.mem_cons.mp he
    · have hstarts := doc.rootStarts
      cases hroot : doc.root <;> simp [hroot, Event.startsElement, Event.lacksData] at hstarts hlacks
    · exact ⟨e, he, hlacks⟩
  obtain ⟨e₀, he₀⟩ := Option.isSome_iff_exists.mp (List.find?_isSome.mpr hfirst)
  obtain ⟨hlacks₀, es₂, es₃, hinner, hdata⟩ := List.find?_eq_some_iff_append.mp he₀
  have hdoomed : Doomed (rootOutline doc.root) doc.inner doc.epilog (doc.inner ++ doc.epilog)
      (pull b₀ doc.root).2 :=
    .inr ⟨[], es₂, e₀, es₃, hinner, hlacks₀, fun e he => by simpa using hdata e he,
      by simp [hinner], ht⟩
  have hpull (e : Event) (es : List Event) (c : Builder)
      (hdoomed : Doomed (rootOutline doc.root) doc.inner doc.epilog (e :: es) c)
      (_ : c.done = false) :
      Doomed (rootOutline doc.root) doc.inner doc.epilog es (pull c e).2 := by
    refine hdoomed.pull hstays (fun e he => doc.rootContent.proper (doc.mem_tree he))
      fun e he hlacks => ?_
    obtain hreadable | rfl := doc.rootContent.readable (doc.mem_tree he)
    · exact hreadable
    · simp [Event.lacksData] at hlacks
  have herror (es : List Event) (c : Builder) (error : Option BuilderError)
      (hdoomed : Doomed (rootOutline doc.root) doc.inner doc.epilog es c) :
      Doomed (rootOutline doc.root) doc.inner doc.epilog es { c with error := error } := by
    obtain ⟨hused, hroot⟩ | ⟨es₁, es₂, e, es₃, hinner, hlacks, hdata, hes, ht⟩ := hdoomed
    · exact .inl ⟨hused, hroot⟩
    · exact .inr ⟨es₁, es₂, e, es₃, hinner, hlacks, hdata, hes, ht.setError error⟩
  obtain ⟨r, hloop, hdoomed', hroot, -⟩ := buildLoop_spec hpull herror
    (fun es c hc => (hc.root hstays).1) hdoomed (Nat.lt_succ_self _)
  rw [hbuild, hloop]
  intro hsome
  obtain rfl := Option.some.inj hsome
  exact (hdoomed'.root hstays).2 hroot.symm

end Lost

section Result

/-- `axiom_document_build_all` builds the tree of the document, a node is complete
exactly when it is no open element, and the builder is done exactly when the root is
complete. -/
def Document.BuiltAs (doc : Document) (libxml2 : Bool) : Prop :=
  (∃ es b, documentBuildAll doc.events (builderCreate libxml2) = some (some 0, es, b) ∧
    Shows b.heap (some 0) doc.tree ∧ WellLinked b.heap ∧ b.done = true) ∧
  ∀ es es', contentEvents doc.tree = es ++ es' → es ≠ [] →
    (pullAll (builderCreate libxml2) (doc.prolog ++ es)).used = (es.foldl openStep (0, [])).1 ∧
    (∀ n < (pullAll (builderCreate libxml2) (doc.prolog ++ es)).used,
      isComplete (pullAll (builderCreate libxml2) (doc.prolog ++ es)).heap n = true ↔
        n ∉ (es.foldl openStep (0, [])).2) ∧
    ((pullAll (builderCreate libxml2) (doc.prolog ++ es)).done = true ↔
      isComplete (pullAll (builderCreate libxml2) (doc.prolog ++ es)).heap 0 = true)

/-- The builder builds a document exactly when its processing instructions have data. -/
theorem document_built_iff (doc : Document) (libxml2 : Bool) :
    doc.BuiltAs libxml2 ↔ ∀ e ∈ contentEvents doc.tree, e.lacksData = false := by
  constructor
  · rintro ⟨⟨es, b, hbuild, -⟩, -⟩ e he
    by_contra hlacks
    exact doc.buildAll_doomed libxml2 ⟨e, he, by simpa using hlacks⟩ es b hbuild
  · intro hdata
    exact ⟨doc.buildAll_shows libxml2 hdata,
      fun es es' hsplit hne => doc.complete_along libxml2 hdata hsplit hne⟩

lemma plain_nil : ∀ e ∈ ([] : List Event), e.startsElement = false ∧ e ≠ .endElement := by
  simp

/-- `<r><?x?></r>`. -/
def documentWithoutData : Document where
  prolog := []
  root := .startElement ⟨"r", none, [], []⟩
  content := .node (.processingInstruction (some "x") none) .nil .nil
  epilog := []
  prologPlain := plain_nil
  rootStarts := rfl
  rootContent := by simp [Content, Event.Readable, StartTag.Proper.mk]

/-- The instruction without data is the last thing the builder sees of the root. -/
theorem data_missing : ¬ documentWithoutData.BuiltAs true := by
  rintro ⟨⟨es, b, hbuild, -⟩, -⟩
  have hroot : (documentBuildAll documentWithoutData.events (builderCreate true)).map (·.1) =
      some none := by
    decide
  simp [hbuild] at hroot

end Result

end Axis2C.Om
