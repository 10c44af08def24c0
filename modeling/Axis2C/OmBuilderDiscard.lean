import Axis2C.OmBuilderDocument

/-!
# Discarding an element

`axiom_stax_builder_discard_current_element` unsets the cache flag, reads events from the
parser itself, and waits for its element to be complete. Only `axiom_stax_builder_end_element`
completes an element, and nothing calls it then, so that the wait has no end. Before that
nothing unsets the cache flag.
-/
namespace Axis2C.Om

open OrderedTrees

section Source

/-- A builder with its cache flag. -/
structure CachedBuilder where
  builder : Builder
  cache : Bool

/-- How `axiom_stax_builder_discard_current_element` ends. -/
inductive DiscardEnd
  /-- It reads the fields of NULL. -/
  | fault
  /-- `AXIS2_ERROR_INVALID_BUILDER_STATE_CANNOT_DISCARD`. -/
  | cannotDiscard
  | discarded (es : List Event) (b : CachedBuilder)

/-- The inner loop: events are read up to an end tag. Behind the last event the token is -1,
which is no end tag either. -/
def readToEndElement : ℕ → List Event → Option (List Event)
  | 0, _ => none
  | fuel + 1, [] => readToEndElement fuel []
  | fuel + 1, e :: es => if e = .endElement then some es else readToEndElement fuel es

/-- The outer loop, on the nodes as they are. -/
def readUntilComplete (h : OmHeap) (n : ℕ) : ℕ → List Event → Option (List Event)
  | 0, _ => none
  | fuel + 1, es =>
    match readToEndElement fuel es with
    | none => none
    | some es => if isComplete h n then some es else readUntilComplete h n fuel es

/-- `axiom_stax_builder_next_with_token` without the cache: an event is lost, and -1 returned. -/
def uncachedToken (es : List Event) (b : Builder) : List Event × Builder :=
  if b.done then (es, { b with error := some .builderDoneCannotPull })
  else
    match es with
    | [] => ([], { b with done := true })
    | _ :: es => (es, b)

/-- `axiom_node_get_next_sibling` without the cache. -/
def uncachedNextSibling (n : ℕ) (es : List Event) (b : Builder) :
    Option ℕ × List Event × Builder :=
  if awaitsSibling n b then (none, uncachedToken es b) else (b.heap.next n, es, b)

/-- `axiom_node_get_first_child` without the cache. -/
def uncachedFirstChild (n : ℕ) (es : List Event) (b : Builder) : Option ℕ × List Event × Builder :=
  if awaitsChild n b then (none, uncachedToken es b) else (b.heap.firstChild n, es, b)

/-- `axiom_node_free_tree` on a node that may be NULL. -/
def freeNode (b : Builder) (n : Option ℕ) : Builder :=
  match n with
  | none => b
  | some n => { b with heap := (freeTree (2 * b.used + 2) b.heap n).getD b.heap }

/-- What follows the loops. The setters refuse the NULL that they are called with. -/
def removeDiscarded (n : ℕ) (es : List Event) (b : Builder) : List Event × Builder :=
  match b.heap.prev n with
  | some prev =>
    match uncachedNextSibling prev es b with
    | (sibling, es, b) => (es, { freeNode b sibling with error := some .invalidNullParam })
  | none =>
    match b.heap.parent n with
    | none => (es, { b with error := some .invalidNullParam, lastNode := none })
    | some parent =>
      match uncachedFirstChild parent es b with
      | (child, es, b) =>
        (es, { freeNode b child with
          error := some .invalidNullParam, lastNode := some parent })

/-- `axiom_stax_builder_discard_current_element`; none if the fuel is not enough for its
loops. -/
def discardCurrentElement (fuel : ℕ) (es : List Event) (b : CachedBuilder) : Option DiscardEnd :=
  match b.builder.lastNode with
  | none => some .fault
  | some element =>
    if isComplete b.builder.heap element || !b.cache then some .cannotDiscard
    else
      (readUntilComplete b.builder.heap element fuel es).map fun es =>
        let r := removeDiscarded element es b.builder
        .discarded r.1 ⟨r.2, true⟩

/-- `axiom_stax_builder_next`, which builds with the cache only. -/
def cachedNext (es : List Event) (b : CachedBuilder) : Option ℕ × List Event × CachedBuilder :=
  if b.cache then
    match next es b.builder with
    | (node, es, builder) => (node, es, ⟨builder, b.cache⟩)
  else if b.builder.done then
    (none, es, ⟨{ b.builder with error := some .builderDoneCannotPull }, b.cache⟩)
  else (none, es.tail, b)

/-- `axiom_stax_builder_next_with_token`. -/
def cachedNextWithToken (es : List Event) (b : CachedBuilder) :
    Bool × List Event × CachedBuilder :=
  if b.cache then
    match nextWithToken es b.builder with
    | (status, es, builder) => (status, es, ⟨builder, b.cache⟩)
  else
    match uncachedToken es b.builder with
    | (es, builder) => (false, es, ⟨builder, b.cache⟩)

end Source

section Reached

/-- The builders that can be reached, with the events that the parser has left for them. -/
inductive Reached : List Event → CachedBuilder → Prop
  | create (libxml2 : Bool) (es : List Event) : Reached es ⟨builderCreate libxml2, true⟩
  | next {es : List Event} {b : CachedBuilder} (h : Reached es b) :
      Reached (cachedNext es b).2.1 (cachedNext es b).2.2
  | nextWithToken {es : List Event} {b : CachedBuilder} (h : Reached es b) :
      Reached (cachedNextWithToken es b).2.1 (cachedNextWithToken es b).2.2
  | setLastNode {es : List Event} {b : CachedBuilder} (h : Reached es b) (n : ℕ) :
      Reached es ⟨{ b.builder with lastNode := some n }, b.cache⟩
  | setElementLevel {es : List Event} {b : CachedBuilder} (h : Reached es b) (level : ℤ) :
      Reached es ⟨{ b.builder with elementLevel := level }, b.cache⟩
  | setRootElement {es : List Event} {b : CachedBuilder} (h : Reached es b) (n : ℕ) :
      Reached es ⟨{ b.builder with documentRoot := some n }, b.cache⟩
  | discard {es es' : List Event} {b b' : CachedBuilder} {fuel : ℕ} (h : Reached es b)
      (hdiscard : discardCurrentElement fuel es b = some (.discarded es' b')) : Reached es' b'

/-- The tree and the last node are those from before the element. -/
def AsBefore (n : ℕ) (b b' : CachedBuilder) : Prop :=
  ∀ before tag, createOmElement before tag false = (some n, b.builder) →
    b'.builder.lastNode = before.lastNode ∧ b'.builder.heap.live = before.heap.live ∧
      b'.builder.heap.parent = before.heap.parent ∧ b'.builder.heap.prev = before.heap.prev ∧
      b'.builder.heap.next = before.heap.next ∧
      b'.builder.heap.firstChild = before.heap.firstChild ∧
      b'.builder.heap.lastChild = before.heap.lastChild

/-- The element is discarded: the call comes to an end, and if the events are those of the rest
of the element, it has read up to the end of the element and all is as it was before it. -/
def DiscardsElement (n : ℕ) (es : List Event) (b : CachedBuilder) : Prop :=
  ∃ fuel es' b', discardCurrentElement fuel es b = some (.discarded es' b') ∧
    ∀ content rest, Content content → es = contentEvents content ++ .endElement :: rest →
      es' = rest ∧ AsBefore n b b'

variable {es : List Event} {b : CachedBuilder} {n fuel : ℕ}

/-- No call unsets the cache flag for good. -/
lemma Reached.cache (h : Reached es b) : b.cache = true := by
  induction h with
  | create => rfl
  | next _ ih => simp [cachedNext, ih]
  | nextWithToken _ ih => simp [cachedNextWithToken, ih]
  | setLastNode _ _ ih | setElementLevel _ _ ih | setRootElement _ _ ih => exact ih
  | @discard es es' b b' fuel _ hdiscard ih =>
    unfold discardCurrentElement at hdiscard
    split at hdiscard
    · cases hdiscard
    · split at hdiscard
      · cases hdiscard
      · obtain ⟨es₁, -, hend⟩ := Option.map_eq_some_iff.mp hdiscard
        cases hend
        rfl

/-- The wait for an element that is not complete has no end, whatever the parser gives. -/
lemma readUntilComplete_open {h : OmHeap} (hopen : isComplete h n = false) (fuel : ℕ)
    (es : List Event) : readUntilComplete h n fuel es = none := by
  induction fuel generalizing es with
  | zero => rfl
  | succ fuel ih =>
    rw [readUntilComplete]
    cases readToEndElement fuel es with
    | none => rfl
    | some es' =>
      simp only [hopen, Bool.false_eq_true, if_false]
      exact ih es'

lemma discardCurrentElement_open (hcache : b.cache = true) (hlast : b.builder.lastNode = some n)
    (hopen : isComplete b.builder.heap n = false) (fuel : ℕ) (es : List Event) :
    discardCurrentElement fuel es b = none := by
  simp [discardCurrentElement, hlast, hopen, hcache, readUntilComplete_open hopen]

end Reached

/-- In every state that can be reached, with an incomplete element (or other node) as the last
node and whatever events are left, discarding it does not come to an end. -/
theorem discard_never_ends {es : List Event} {b : CachedBuilder} {n : ℕ}
    (hreached : Reached es b) (hlast : b.builder.lastNode = some n)
    (hopen : isComplete b.builder.heap n = false) :
    (∀ fuel, discardCurrentElement fuel es b = none) ∧ ¬ DiscardsElement n es b := by
  have hnone := fun fuel => discardCurrentElement_open hreached.cache hlast hopen fuel es
  refine ⟨hnone, ?_⟩
  rintro ⟨fuel, es', b', hdiscard, -⟩
  cases (hnone fuel).symm.trans hdiscard

/-- A builder that has read the start tag of an empty root element. -/
def rootStarted : CachedBuilder :=
  (cachedNext [.startElement ⟨"a", none, [], []⟩, .endElement] ⟨builderCreate false, true⟩).2.2

lemma rootStarted_reached : Reached [.endElement] rootStarted :=
  (Reached.create false [.startElement ⟨"a", none, [], []⟩, .endElement]).next

theorem discard_root_never_ends :
    (∀ fuel, discardCurrentElement fuel [.endElement] rootStarted = none) ∧
      ¬ DiscardsElement 0 [.endElement] rootStarted :=
  discard_never_ends rootStarted_reached rfl rfl

/-- The end tag of the element is there, and discarding it does not come to an end. -/
theorem discard_waits_for_ever :
    (∀ fuel, discardCurrentElement fuel [.endElement] rootStarted = none) ∧
      ¬ ∀ es b n e, Reached es b → b.builder.lastNode = some n →
        elementAt b.builder.heap n = some e → isComplete b.builder.heap n = false →
          DiscardsElement n es b := by
  have hnone : ∀ fuel, discardCurrentElement fuel [.endElement] rootStarted = none :=
    fun fuel => discardCurrentElement_open rfl rfl rfl fuel [.endElement]
  refine ⟨hnone, fun hall => ?_⟩
  obtain ⟨fuel, es', b', hdiscard, -⟩ := hall _ _ _ _ rootStarted_reached rfl rfl rfl
  cases (hnone fuel).symm.trans hdiscard

end Axis2C.Om
