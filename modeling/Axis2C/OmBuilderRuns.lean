import Axis2C.OmBuilderTree

/-!
# Runs of the builder

Before the root element the builder only counts levels. From the start of the root to
its end it follows the outline, and then it is done.
-/
namespace Axis2C.Om

def pullAll (b : Builder) (es : List Event) : Builder := es.foldl (fun b e => (pull b e).2) b

def Outline.run (o : Outline) (es : List Event) : Outline := es.foldl Outline.step o

section Prolog

variable {e : Event}

/-- No element has started. -/
structure Blank (b : Builder) : Prop where
  forest : Forest b.heap
  dead : ∀ n, b.heap.live n = false
  plain : ∀ n, (b.heap.data n).nodeType = .invalid
  used : b.used = 0
  lastNode : b.lastNode = none
  rootNode : b.rootNode = none
  documentRoot : b.documentRoot = none
  done : b.done = false

def Event.startsElement : Event → Bool
  | .startElement _ => true
  | .emptyElement _ => true
  | _ => false

/-- What `axiom_stax_builder_next` takes off the level for an event of the prolog. -/
def Event.prologLevels : Event → ℤ
  | .endElement => 1
  | .comment _ => 1
  | .processingInstruction _ _ => 1
  | _ => 0

variable {b : Builder}

lemma builderCreate_blank (libxml2 : Bool) : Blank (builderCreate libxml2) := by
  have hno {c p : ℕ} : ¬ ChildOf (builderCreate libxml2).heap c p := by
    rintro ⟨hlive, -⟩
    simp [builderCreate] at hlive
  refine ⟨⟨⟨fun p hp => ?_, fun c p hc => (hno hc).elim, fun c hc => ?_⟩, ?_⟩, fun _ => rfl,
    fun _ => rfl, rfl, rfl, rfl, rfl, rfl⟩
  · simp [builderCreate] at hp
  · simp [builderCreate] at hc
  · exact ⟨fun p => Acc.intro p fun c hc => (hno hc).elim⟩

section

variable (hb : Blank b)

include hb

lemma Blank.endElement : endElement b = { b with elementLevel := b.elementLevel - 1 } := by
  unfold Om.endElement closeLast
  simp only [hb.lastNode, hb.rootNode]

lemma Blank.setError (error : Option BuilderError) : Blank { b with error := error } :=
  ⟨hb.forest, hb.dead, hb.plain, hb.used, hb.lastNode, hb.rootNode, hb.documentRoot, hb.done⟩

lemma Blank.createOmText (value : Option String) :
    createOmText b value =
      (none, { b with error := some .invalidBuilderStateLastNodeNull }) := by
  unfold Om.createOmText
  simp only [hb.lastNode]

lemma Blank.createOmComment (value : String) : createOmComment b (some value) = (none, b) := by
  unfold Om.createOmComment
  simp only [hb.lastNode]

lemma Blank.createOmProcessingInstruction (target : String) (data : Option String) :
    createOmProcessingInstruction b (some target) data = (none, b) := by
  unfold Om.createOmProcessingInstruction
  simp only [hb.lastNode]

/-- An event of the prolog makes no node. -/
lemma Blank.pull (he : e.startsElement = false) :
    ∃ error, Om.pull b e = (none, { b with
      elementLevel := b.elementLevel - e.prologLevels, error := error }) := by
  cases e with
  | startElement tag | emptyElement tag => simp [Event.startsElement] at he
  | startDocument | entityReference | cdata | documentType =>
    exact ⟨b.error, by simp [Om.pull, Event.prologLevels]⟩
  | endElement =>
    refine ⟨b.error, ?_⟩
    simp only [Om.pull, hb.endElement]
    rfl
  | space value | character value =>
    refine ⟨some .invalidBuilderStateLastNodeNull, ?_⟩
    simp [Om.pull, hb.createOmText, Event.prologLevels]
  | comment value =>
    cases value with
    | none =>
      refine ⟨some .xmlReaderElementNull, ?_⟩
      simp only [Om.pull, Om.createOmComment, (hb.setError _).endElement]
      rfl
    | some value =>
      refine ⟨b.error, ?_⟩
      simp only [Om.pull, hb.createOmComment, hb.endElement]
      rfl
  | processingInstruction target data =>
    cases target with
    | none =>
      refine ⟨some .xmlReaderElementNull, ?_⟩
      simp only [Om.pull, Om.createOmProcessingInstruction, (hb.setError _).endElement]
      rfl
    | some target =>
      refine ⟨b.error, ?_⟩
      simp only [Om.pull, hb.createOmProcessingInstruction, hb.endElement]
      rfl

lemma Blank.of_pull (he : e.startsElement = false) : Blank (Om.pull b e).2 := by
  obtain ⟨error, hpull⟩ := hb.pull he
  rw [hpull]
  exact ⟨hb.forest, hb.dead, hb.plain, hb.used, hb.lastNode, hb.rootNode, hb.documentRoot, hb.done⟩

/-- The other routine does not count the comments of the prolog. -/
lemma Blank.pullToken (he : e.startsElement = false) :
    ∃ ok error, Om.pullToken b e = (ok, { b with
      elementLevel := b.elementLevel - if e = .endElement then 1 else 0, error := error }) := by
  cases e with
  | startElement tag | emptyElement tag => simp [Event.startsElement] at he
  | startDocument | entityReference | cdata | documentType =>
    exact ⟨true, b.error, by simp [Om.pullToken]⟩
  | endElement => exact ⟨true, b.error, by simp [Om.pullToken, hb.endElement]⟩
  | space value =>
    have hlast : b.lastNode.isSome = false := by
      rw [hb.lastNode]
      rfl
    exact ⟨true, b.error, by simp [Om.pullToken, hlast]⟩
  | character value =>
    exact ⟨false, some .invalidBuilderStateLastNodeNull, by
      simp [Om.pullToken, hb.createOmText]⟩
  | comment value =>
    cases value with
    | none =>
      exact ⟨true, some .xmlReaderElementNull, by simp [Om.pullToken, Om.createOmComment]⟩
    | some value => exact ⟨true, b.error, by simp [Om.pullToken, hb.createOmComment]⟩
  | processingInstruction target data =>
    cases target with
    | none =>
      exact ⟨true, some .xmlReaderElementNull, by
        simp [Om.pullToken, Om.createOmProcessingInstruction]⟩
    | some target =>
      exact ⟨true, b.error, by simp [Om.pullToken, hb.createOmProcessingInstruction]⟩

end

end Prolog

section Root

variable {b : Builder}

lemma setElement_nodeCreate (h : OmHeap) (n : ℕ) (d : Node Payload) (e : Element) :
    setElement (nodeCreate h n d) n e =
      nodeCreate h n { d with dataElement := some (.element e) } := by
  unfold setElement Heap.setData nodeCreate
  simp

lemma elementAt_nodeCreate (h : OmHeap) (n : ℕ) (e : Element) (builder done : Bool) :
    elementAt (nodeCreate h n ⟨.element, some (.element e), builder, done⟩) n = some e := by
  rw [elementAt_eq_some]
  simp [nodeCreate]

lemma Blank.placeElement (hb : Blank b) (level : ℤ) (name : String) :
    placeElement { b with elementLevel := level } name = { b with
      elementLevel := level
      heap := nodeCreate b.heap 0 ⟨.element, some (.element ⟨name, none, [], [], false⟩), true, false⟩
      used := 1, rootNode := some 0, documentRoot := some 0 } := by
  have hbuilder : nodeSetBuilder (nodeCreate b.heap 0
      ⟨.element, some (.element ⟨name, none, [], [], false⟩), false, false⟩) 0 =
      nodeCreate b.heap 0
        ⟨.element, some (.element ⟨name, none, [], [], false⟩), true, false⟩ := by
    unfold nodeSetBuilder Heap.setData nodeCreate
    simp
  unfold Om.placeElement
  simp only [hb.lastNode, hb.used, newNode, documentSetRootElement, hb.documentRoot, hbuilder]

/-- The data of the root element, before its tag is read. -/
lemma Blank.new_element (hb : Blank b) (name : String) :
    elementAt (nodeCreate b.heap 0
        ⟨.element, some (.element ⟨name, none, [], [], false⟩), true, false⟩) 0 =
        some ⟨name, none, [], [], false⟩ ∧
      Keyed (nodeCreate b.heap 0
        ⟨.element, some (.element ⟨name, none, [], [], false⟩), true, false⟩) := by
  have he := elementAt_nodeCreate b.heap 0 ⟨name, none, [], [], false⟩ true false
  refine ⟨he, fun m e hm => ?_⟩
  by_cases hm0 : m = 0
  · subst hm0
    obtain rfl := Option.some.inj (he.symm.trans hm)
    simp
  · have := (elementAt_eq_some.mp hm).1
    simp [nodeCreate, hm0, hb.plain] at this

theorem Blank.startElement (hb : Blank b) (tag : StartTag) (isEmpty : Bool) :
    ∃ label, (tag.Proper → label = (Event.startElement tag).label) ∧
      (createOmElement b tag isEmpty).1 = some 0 ∧
      Tracks (createOmElement b tag isEmpty).2 (Outline.root label false) ∧
      (createOmElement b tag isEmpty).2.elementLevel = b.elementLevel + 1 := by
  have hplace := hb.placeElement (b.elementLevel + 1) tag.name
  obtain ⟨he1, hk1⟩ := hb.new_element tag.name
  obtain ⟨e, hheap, hkeyed, hframe, hname, -, hvalues⟩ :=
    @fillElement_spec { b with
      elementLevel := b.elementLevel + 1
      heap := nodeCreate b.heap 0
        ⟨.element, some (.element ⟨tag.name, none, [], [], false⟩), true, false⟩
      used := 1, rootNode := some 0, documentRoot := some 0 } 0 tag he1 hk1 isEmpty
  have hcreate : Om.createOmElement b tag isEmpty = (some b.used,
      fillElement (Om.placeElement { b with elementLevel := b.elementLevel + 1 } tag.name)
        b.used tag isEmpty) := rfl
  rw [hplace, hb.used] at hcreate
  rw [hcreate]
  refine ⟨some (.element e.localName e.attributeValues), fun htag => ?_, rfl, ?_,
    hframe.elementLevel⟩
  · rw [hname, hvalues htag]
    rfl
  simp only [setElement_nodeCreate] at hheap
  have hdata (n : ℕ) (hn : n < 1) : (fillElement { b with
      elementLevel := b.elementLevel + 1
      heap := nodeCreate b.heap 0
        ⟨.element, some (.element ⟨tag.name, none, [], [], false⟩), true, false⟩
      used := 1, rootNode := some 0, documentRoot := some 0 } 0 tag isEmpty).heap.data n =
      ⟨.element, some (.element e), true, false⟩ := by
    obtain rfl : n = 0 := by omega
    rw [hheap]
    simp [nodeCreate]
  refine ⟨?_, hkeyed, hframe.used, fun n => ?_, fun n hn => ?_, fun n _ => rfl, by simp [Outline.root],
    by simp [Outline.root], by simp [Outline.root], by simp [Outline.root],
    by simp [Outline.root], by simp [Outline.root], fun n hn => ?_, fun n hn => ?_,
    fun n hn => ?_, fun n hn => ?_, hframe.lastNode, hframe.rootNode, hframe.documentRoot,
    hframe.done.trans hb.done⟩
  · rw [hheap]
    exact hb.forest.nodeCreate (hb.dead 0) _
  · rw [hheap]
    by_cases hn : n = 0 <;> simp [nodeCreate, hn, hb.dead, Outline.root]
  · obtain rfl : n = 0 := by
      simp only [Outline.root] at hn
      omega
    rw [hheap]
    exact hb.forest.childList_created (hb.dead 0) _
  · obtain rfl : n = 0 := by
      simp only [Outline.root] at hn
      omega
    rw [hdata 0 (by simp)]
    simp [Outline.root]
  · obtain rfl : n = 0 := by simpa [Outline.root] using hn
    rw [hheap, elementAt_nodeCreate]
    rfl
  · rw [hdata n hn]
    simp [nodeLabel, Outline.root]
  · rw [hdata n hn]
    rfl

lemma Blank.emptyElement (hb : Blank b) (tag : StartTag) (isEmpty : Bool) :
    ∃ label, (tag.Proper → label = (Event.emptyElement tag).label) ∧
      Tracks (Om.endElement (createOmElement b tag isEmpty).2) (Outline.root label true) ∧
      (Om.endElement (createOmElement b tag isEmpty).2).elementLevel = b.elementLevel := by
  obtain ⟨label, hlabel, -, ht, hlevel⟩ := hb.startElement tag isEmpty
  have hopen : (Outline.root label false).openNodes = [0] := rfl
  refine ⟨label, hlabel, ht.endElement hopen, ?_⟩
  rw [ht.endElement_eq hopen]
  simp only [hlevel]
  ring

end Root

section Outlines

variable {b : Builder} {o : Outline}

@[simp] lemma Outline.run_nil (o : Outline) : o.run [] = o := rfl

@[simp] lemma Outline.run_cons (o : Outline) (e : Event) (es : List Event) :
    o.run (e :: es) = (o.step e).run es := rfl

lemma Outline.run_append (o : Outline) (es es' : List Event) :
    o.run (es ++ es') = (o.run es).run es' := List.foldl_append ..

/-- Before each event an element is open. -/
def Stays (o : Outline) : List Event → Prop
  | [] => True
  | e :: es => o.openNodes ≠ [] ∧ Stays (o.step e) es

lemma stays_append {es es' : List Event} :
    Stays o (es ++ es') ↔ Stays o es ∧ Stays (o.run es) es' := by
  induction es generalizing o with
  | nil => simp [Stays]
  | cons e es ih => simp [Stays, ih, and_assoc]

/-- As long as an element is open before each event, the builder follows the outline,
and the level goes with the number of open elements. -/
theorem Tracks.run (ht : Tracks b o) {es : List Event} (hstays : Stays o es)
    (hproper : ∀ e ∈ es, e.Proper) :
    Tracks (pullAll b es) (o.run es) ∧
      (pullAll b es).elementLevel - (o.run es).openNodes.length =
        b.elementLevel - o.openNodes.length := by
  induction es generalizing b o with
  | nil => exact ⟨ht, rfl⟩
  | cons e es ih =>
    obtain ⟨hne, hstays⟩ := hstays
    obtain ⟨p, rest, hopen⟩ := List.exists_cons_of_ne_nil hne
    have hfollows := ht.follows hopen (hproper e (by simp))
    obtain ⟨htracks, hlevel⟩ := ih hfollows.tracks hstays fun e' he' => hproper e' (by simp [he'])
    exact ⟨htracks, hlevel.trans hfollows.level⟩

/-- The number of nodes and the open elements, by the events alone: a start tag opens
an element, and an end closes the innermost one. -/
def openStep (s : ℕ × List ℕ) : Event → ℕ × List ℕ
  | .startElement _ => (s.1 + 1, s.1 :: s.2)
  | .emptyElement _ => (s.1 + 1, s.2)
  | .endElement => (s.1, s.2.tail)
  | .space _ => (s.1 + 1, s.2)
  | .character _ => (s.1 + 1, s.2)
  | .comment _ => (s.1 + 1, s.2)
  | .processingInstruction _ _ => (s.1 + 1, s.2)
  | _ => s

lemma openStep_eq (hopen : o.openNodes ≠ []) (e : Event) :
    openStep (o.used, o.openNodes) e = ((o.step e).used, (o.step e).openNodes) := by
  obtain ⟨p, rest, hopen⟩ := List.exists_cons_of_ne_nil hopen
  cases e <;> simp [openStep, Outline.step, Outline.stepWith, Outline.enter, Outline.leave, Outline.addKid, hopen]

lemma foldl_openStep {es : List Event} (hstays : Stays o es) :
    es.foldl openStep (o.used, o.openNodes) = ((o.run es).used, (o.run es).openNodes) := by
  induction es generalizing o with
  | nil => rfl
  | cons e es ih =>
    rw [List.foldl_cons, openStep_eq hstays.1, ih hstays.2]
    rfl

end Outlines

section Loops

variable {J : List Event → Builder → Prop} {b : Builder} {es : List Event}

/-- What every pull keeps, `axiom_stax_builder_next` keeps. -/
lemma next_invariant (hpull : ∀ e es b, J (e :: es) b → b.done = false → J es (pull b e).2)
    (herror : ∀ es b error, J es b → J es { b with error := error }) (hJ : J es b) :
    J (next es b).2.1 (next es b).2.2 := by
  induction es generalizing b with
  | nil =>
    unfold next
    split
    · exact herror [] b _ hJ
    · exact hJ
  | cons e es ih =>
    unfold next
    split
    · exact herror _ b _ hJ
    · rename_i hdone
      have hstep := hpull e es b hJ (by simpa using hdone)
      split
      · rename_i n b' heq
        rw [heq] at hstep
        exact hstep
      · rename_i b' heq
        rw [heq] at hstep
        exact ih hstep

/-- Without a node the builder is done, or the events are. -/
lemma next_none (hnone : (next es b).1 = none) :
    (next es b).2.2.done = true ∨ (next es b).2.1 = [] := by
  induction es generalizing b with
  | nil =>
    unfold next
    split <;> simp
  | cons e es ih =>
    unfold next at hnone ⊢
    split
    · rename_i hdone
      exact .inl hdone
    · rename_i hdone
      rw [if_neg hdone] at hnone
      split
      · rename_i n b' heq
        simp [heq] at hnone
      · rename_i b' heq
        rw [heq] at hnone
        exact ih hnone

/-- With a node an event is taken. -/
lemma next_some {n : ℕ} (hsome : (next es b).1 = some n) :
    (next es b).2.1.length < es.length := by
  induction es generalizing b with
  | nil =>
    unfold next at hsome
    split at hsome <;> simp at hsome
  | cons e es ih =>
    unfold next at hsome ⊢
    split
    · rename_i hdone
      simp [hdone] at hsome
    · rename_i hdone
      rw [if_neg hdone] at hsome
      split
      · simp
      · rename_i b' heq
        rw [heq] at hsome
        have := ih hsome
        simp only [List.length_cons]
        omega

/-- The loop of `axiom_document_build_all` returns; it keeps what every pull keeps,
and it ends with a complete root, a builder that is done or without events. -/
lemma buildLoop_spec (hpull : ∀ e es b, J (e :: es) b → b.done = false → J es (pull b e).2)
    (herror : ∀ es b error, J es b → J es { b with error := error })
    (hroot : ∀ es b, J es b → b.documentRoot ≠ none) (hJ : J es b) {fuel : ℕ}
    (hfuel : es.length < fuel) :
    ∃ r, buildLoop fuel es b = some r ∧ J r.2.1 r.2.2 ∧
      r.1 = r.2.2.documentRoot.filter (isComplete r.2.2.heap) ∧
      (r.1.isSome ∨ r.2.2.done = true ∨ r.2.1 = []) := by
  induction fuel generalizing es b with
  | zero => omega
  | succ fuel ih =>
    obtain ⟨root, hdoc⟩ := Option.ne_none_iff_exists'.mp (hroot es b hJ)
    have hnext := next_invariant hpull herror hJ
    have hbuild : documentBuildNext es b =
        if isComplete b.heap root then (none, es, b) else next es b := by
      unfold documentBuildNext
      rw [hdoc]
    unfold buildLoop
    rw [hbuild]
    by_cases hcomplete : isComplete b.heap root = true
    · simp only [hcomplete, if_true]
      exact ⟨_, rfl, hJ, rfl, .inl (by simp [hdoc, hcomplete])⟩
    · simp only [hcomplete, Bool.false_eq_true, if_false]
      split
      · rename_i es' b' heq
        rw [heq] at hnext
        refine ⟨_, rfl, hnext, rfl, .inr ?_⟩
        have := @next_none b es (by rw [heq])
        rwa [heq] at this
      · rename_i n es' b' heq
        rw [heq] at hnext
        have hshorter := @next_some b es n (by rw [heq])
        rw [heq] at hshorter
        simp only at hnext hshorter
        obtain ⟨root', hdoc'⟩ := Option.ne_none_iff_exists'.mp (hroot es' b' hnext)
        by_cases hcomplete' : isComplete b'.heap root' = true
        · simp only [hdoc', Option.map_some, hcomplete', Option.getD_some, if_true]
          refine ⟨_, rfl, hnext, ?_, .inl rfl⟩
          simp only [hdoc', Option.filter_some, hcomplete', if_true]
        · simp only [hdoc', Option.map_some, hcomplete', Option.getD_some, Bool.false_eq_true,
            if_false]
          exact ih hnext (by omega)

end Loops

section Start

variable {b : Builder}

lemma Blank.pullAll (hb : Blank b) {prolog : List Event}
    (hplain : ∀ e ∈ prolog, e.startsElement = false) :
    Blank (Om.pullAll b prolog) := by
  induction prolog generalizing b with
  | nil => exact hb
  | cons e prolog ih =>
    exact ih (hb.of_pull (hplain e (by simp))) fun e' he' => hplain e' (by simp [he'])

/-- The first node that `axiom_stax_builder_next` makes is the root. -/
lemma Blank.next_root (hb : Blank b) {prolog : List Event}
    (hplain : ∀ e ∈ prolog, e.startsElement = false) {root : Event} (es : List Event)
    (hroot : (Om.pull (Om.pullAll b prolog) root).1 = some 0) :
    next (prolog ++ root :: es) b = (some 0, es, (Om.pull (Om.pullAll b prolog) root).2) := by
  induction prolog generalizing b with
  | nil =>
    rw [List.nil_append, next, if_neg (by simp [hb.done])]
    split
    · rename_i n b' heq
      rw [show Om.pullAll b [] = b from rfl, heq] at hroot ⊢
      rw [Option.some.inj hroot]
    · rename_i b' heq
      rw [show Om.pullAll b [] = b from rfl, heq] at hroot
      simp at hroot
  | cons e prolog ih =>
    obtain ⟨error, hpull⟩ := hb.pull (hplain e (by simp))
    have hrest := ih (hb.of_pull (hplain e (by simp))) (fun e' he' => hplain e' (by simp [he']))
      hroot
    have hnone : Om.pull b e = (none, (Om.pull b e).2) := by rw [hpull]
    rw [List.cons_append, next, if_neg (by simp [hb.done]), hnone]
    exact hrest

end Start

end Axis2C.Om
