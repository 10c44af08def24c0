import Axis2C.OmBuilderDocument

/-!
# The scopes of namespaces in the builder

The builder looks prefixes up in one table for the whole document. A start tag adds its
declarations to it, and an end does not take them out again.
-/
namespace Axis2C.Om

section Scopes

/-- The URI to which a tag binds a prefix; of several declarations the last one counts. -/
def StartTag.declares (tag : StartTag) (key : String) : Option String :=
  (tag.namespaces.reverse.find? fun d => d.1 = some key ∧ key ≠ "xmlns").map Prod.snd

def Event.tag : Event → Option StartTag
  | .startElement tag => some tag
  | .emptyElement tag => some tag
  | _ => none

/-- The tags of the open elements, innermost first. -/
def scopeStep (tags : List StartTag) : Event → List StartTag
  | .startElement tag => tag :: tags
  | .endElement => tags.tail
  | _ => tags

/-- All tags so far, last first. -/
def historyStep (tags : List StartTag) (e : Event) : List StartTag :=
  match e.tag with
  | none => tags
  | some tag => tag :: tags

/-- The first of the tags that declares a prefix gives its URI. -/
def binding (tags : List StartTag) (key : String) : Option String :=
  tags.findSome? fun tag => tag.declares key

def namespaceAt (b : Builder) (n : ℕ) : Option Namespace := (elementAt b.heap n).bind Element.ns

/-- The new element at `n` has the namespace to which its prefix is bound, or the prefix
is reported as undefined. -/
def Attached (b : Builder) (n : ℕ) (key : String) : Option String → Prop
  | some uri => ∃ ns, namespaceAt b n = some ns ∧ ns.nsPrefix = some key ∧ ns.uri = uri
  | none => namespaceAt b n = none ∧ b.error = some .undefinedNamespace

/-- Every element with a prefix gets the namespace of the nearest element that declares
the prefix. -/
def Document.ScopesKept (doc : Document) (libxml2 : Bool) : Prop :=
  ∀ es e es' tag key, contentEvents doc.tree = es ++ e :: es' → e.tag = some tag →
    tag.nsPrefix = some key →
    Attached (pull (pullAll (builderCreate libxml2) (doc.prolog ++ es)) e).2
      (pullAll (builderCreate libxml2) (doc.prolog ++ es)).used key
      (binding (tag :: es.foldl scopeStep []) key)

end Scopes

section Table

variable {b : Builder} {tags : List StartTag}

def Holds (b : Builder) (tags : List StartTag) : Prop :=
  ∀ key, (hashGet b.declaredNamespaces key).map (fun ns => (ns.nsPrefix, ns.uri)) =
    (binding tags key).map fun uri => (some key, uri)

lemma declares_concat (tag : StartTag) (ds : List (Option String × String))
    (d : Option String × String) (key : String) :
    StartTag.declares { tag with namespaces := ds ++ [d] } key =
      if d.1 = some key ∧ key ≠ "xmlns" then some d.2
      else StartTag.declares { tag with namespaces := ds } key := by
  unfold StartTag.declares
  simp only [List.reverse_append, List.reverse_singleton, List.singleton_append, List.find?_cons]
  by_cases hd : d.1 = some key ∧ key ≠ "xmlns"
  · simp [hd]
  · rw [if_neg hd, decide_eq_false hd]

lemma declareOne_holds {tag : StartTag} {ds : List (Option String × String)}
    (hb : Holds b ({ tag with namespaces := ds } :: tags)) (n : ℕ) (d : Option String × String) :
    Holds (declareOne n b d) ({ tag with namespaces := ds ++ [d] } :: tags) := by
  intro key
  have hkey := hb key
  simp only [binding, List.findSome?_cons, declares_concat] at hkey ⊢
  unfold declareOne
  split
  · rename_i hdefault
    have hno : ¬ (d.1 = some key ∧ key ≠ "xmlns") := by
      rintro ⟨hd, hne⟩
      obtain hnone | hxmlns := hdefault
      · simp [hnone] at hd
      · rw [hxmlns, Option.some.injEq] at hd
        exact hne hd.symm
    rw [if_neg hno]
    exact hkey
  · rename_i hplain
    rw [not_or] at hplain
    obtain ⟨p, hp⟩ := Option.ne_none_iff_exists'.mp hplain.1
    have hne : p ≠ "xmlns" := by
      rintro rfl
      exact hplain.2 hp
    have hns : (⟨b.nsUsed, d.1, d.2⟩ : Namespace).key = p := by simp [Namespace.key, hp]
    simp only [hns, hashGet_hashSet]
    by_cases hk : key = p
    · subst hk
      simp [hp, hne]
    · have hno : ¬ (d.1 = some key ∧ key ≠ "xmlns") := by
        rw [hp, Option.some.injEq]
        exact fun h => hk h.1.symm
      rw [if_neg hk, if_neg hno]
      exact hkey

/-- The declarations of a tag stand in front of the older ones. -/
lemma declareAll_holds (hb : Holds b tags) (n : ℕ) (tag : StartTag) :
    Holds (tag.namespaces.foldl (declareOne n) b) (tag :: tags) := by
  have hall (ds ds' : List (Option String × String)) (b : Builder)
      (hb : Holds b ({ tag with namespaces := ds } :: tags)) :
      Holds (ds'.foldl (declareOne n) b) ({ tag with namespaces := ds ++ ds' } :: tags) := by
    induction ds' generalizing ds b with
    | nil => simpa using hb
    | cons d ds' ih =>
      have hone := ih (ds ++ [d]) _ (declareOne_holds hb n d)
      simpa using hone
  have hnil : Holds b ({ tag with namespaces := [] } :: tags) := fun key => hb key
  exact hall [] tag.namespaces b hnil

lemma Holds.congr {b' : Builder} (hb : Holds b tags)
    (hsame : b'.declaredNamespaces = b.declaredNamespaces) : Holds b' tags := by
  intro key
  rw [hsame]
  exact hb key

end Table

section Untouched

variable (b : Builder)

/-- What the routines leave alone that make no declarations. -/
structure SameTable (b b' : Builder) : Prop where
  table : b'.declaredNamespaces = b.declaredNamespaces
  error : b'.error = b.error

lemma attachAttribute_table (n : ℕ) (a : ReaderAttribute) :
    SameTable b (attachAttribute n b a) := by
  unfold attachAttribute
  split
  · exact ⟨rfl, rfl⟩
  · split
    · exact ⟨rfl, rfl⟩
    · exact ⟨rfl, rfl⟩

lemma processAttributes_table (n : ℕ) (tag : StartTag) :
    SameTable b (processAttributes b n tag) := by
  have hall (attributes : List ReaderAttribute) (b : Builder) :
      SameTable b (attributes.foldl (attachAttribute n) b) := by
    induction attributes generalizing b with
    | nil => exact ⟨rfl, rfl⟩
    | cons a attributes ih =>
      have h1 := attachAttribute_table b n a
      have h2 := ih (attachAttribute n b a)
      exact ⟨h2.table.trans h1.table, h2.error.trans h1.error⟩
  exact hall tag.attributes b

lemma endElement_table : SameTable b (endElement b) := by
  have hclose (b : Builder) : SameTable b (closeLast b) := by
    unfold closeLast
    split
    · exact ⟨rfl, rfl⟩
    · split
      · split <;> exact ⟨rfl, rfl⟩
      · exact ⟨rfl, rfl⟩
  obtain ⟨htable, herror⟩ := hclose { b with elementLevel := b.elementLevel - 1 }
  simp only [endElement]
  split
  · exact ⟨htable, herror⟩
  · split <;> exact ⟨htable, herror⟩

lemma elementAt_endElement (n : ℕ) : elementAt (endElement b).heap n = elementAt b.heap n := by
  have hclose (b : Builder) : elementAt (closeLast b).heap n = elementAt b.heap n := by
    unfold closeLast
    split
    · rfl
    · split
      · split
        · rfl
        · exact elementAt_nodeSetComplete _ n true
      · exact elementAt_nodeSetComplete _ n true
  have h := hclose { b with elementLevel := b.elementLevel - 1 }
  simp only [endElement]
  split
  · exact h
  · split <;> exact h

lemma placeElement_table (name : String) :
    (placeElement b name).declaredNamespaces = b.declaredNamespaces := by
  unfold placeElement
  split
  · simp only [documentSetRootElement, newNode]
    split <;> rfl
  · split <;> rfl

lemma createOmText_table (value : Option String) :
    (createOmText b value).2.declaredNamespaces = b.declaredNamespaces := by
  unfold createOmText
  split
  · rfl
  · split <;> rfl

lemma createOmComment_table (value : Option String) :
    (createOmComment b value).2.declaredNamespaces = b.declaredNamespaces := by
  unfold createOmComment
  split
  · rfl
  · split
    · rfl
    · split <;> rfl

lemma createOmProcessingInstruction_table (target data : Option String) :
    (createOmProcessingInstruction b target data).2.declaredNamespaces =
      b.declaredNamespaces := by
  unfold createOmProcessingInstruction
  split
  · rfl
  · split
    · rfl
    · split
      · rfl
      · split <;> rfl

end Untouched

section Pull

variable {b : Builder} {tags : List StartTag}

lemma setOwnNamespace_table (n : ℕ) (nsPrefix : Option String) :
    (setOwnNamespace n b nsPrefix).declaredNamespaces = b.declaredNamespaces ∧
      ∀ key, nsPrefix = some key → hashGet b.declaredNamespaces key = none →
        (setOwnNamespace n b nsPrefix).error = some .undefinedNamespace := by
  unfold setOwnNamespace
  cases nsPrefix with
  | none => simp
  | some key =>
    cases hget : hashGet b.declaredNamespaces key with
    | none => simp [hget]
    | some ns =>
      have hdefined : ∀ key', some key = some key' →
          hashGet b.declaredNamespaces key' ≠ none := by
        rintro key' heq
        rw [← Option.some.inj heq, hget]
        simp
      simp only [hget]
      split
      · exact ⟨rfl, fun key' heq hnone => (hdefined key' heq hnone).elim⟩
      · exact ⟨rfl, fun key' heq hnone => (hdefined key' heq hnone).elim⟩

lemma createOmElement_table (hb : Holds b tags) (tag : StartTag) (isEmpty : Bool) :
    Holds (createOmElement b tag isEmpty).2 (tag :: tags) ∧
      ∀ key, tag.nsPrefix = some key → binding (tag :: tags) key = none →
        (createOmElement b tag isEmpty).2.error = some .undefinedNamespace := by
  have hplaced : Holds (placeElement { b with elementLevel := b.elementLevel + 1 } tag.name) tags :=
    hb.congr (placeElement_table _ tag.name)
  have hall := declareAll_holds hplaced b.used tag
  obtain ⟨hown, hundefined⟩ := @setOwnNamespace_table (tag.namespaces.foldl (declareOne b.used)
    (placeElement { b with elementLevel := b.elementLevel + 1 } tag.name)) b.used tag.nsPrefix
  obtain ⟨htable, herror⟩ := processAttributes_table (processNamespaces
    (placeElement { b with elementLevel := b.elementLevel + 1 } tag.name) b.used tag) b.used tag
  refine ⟨hall.congr (htable.trans hown), fun key hkey hnone => herror.trans ?_⟩
  refine hundefined key hkey ?_
  have := hall key
  rw [hnone] at this
  simpa using this

/-- The table goes with the tags that were seen. -/
lemma pull_holds (hb : Holds b tags) (e : Event) : Holds (pull b e).2 (historyStep tags e) := by
  cases e with
  | startElement tag => exact (createOmElement_table hb tag false).1
  | emptyElement tag =>
    exact (createOmElement_table hb tag _).1.congr (endElement_table _).table
  | endElement => exact hb.congr (endElement_table b).table
  | space value | character value => exact hb.congr (createOmText_table b value)
  | comment value =>
    exact (hb.congr (createOmComment_table b value)).congr (endElement_table _).table
  | processingInstruction target data =>
    exact (hb.congr (createOmProcessingInstruction_table b target data)).congr
      (endElement_table _).table
  | startDocument | entityReference | cdata | documentType => exact hb

lemma pullAll_holds (hb : Holds b tags) (es : List Event) :
    Holds (pullAll b es) (es.foldl historyStep tags) := by
  induction es generalizing b tags with
  | nil => exact hb
  | cons e es ih => exact ih (pull_holds hb e)

lemma createOmElement_namespace {tag : StartTag} {isEmpty : Bool}
    (he : elementAt (placeElement { b with elementLevel := b.elementLevel + 1 } tag.name).heap
      b.used = some ⟨tag.name, none, [], [], false⟩)
    (hk : Keyed (placeElement { b with elementLevel := b.elementLevel + 1 } tag.name).heap) :
    namespaceAt (createOmElement b tag isEmpty).2 b.used =
      tag.nsPrefix.bind (hashGet (createOmElement b tag isEmpty).2.declaredNamespaces) := by
  obtain ⟨e, hheap, -, -, -, hns, -⟩ := fillElement_spec tag he hk isEmpty
  have htable := (processAttributes_table (processNamespaces
    (placeElement { b with elementLevel := b.elementLevel + 1 } tag.name) b.used tag) b.used
      tag).table
  obtain ⟨hown, -⟩ := @setOwnNamespace_table (tag.namespaces.foldl (declareOne b.used)
    (placeElement { b with elementLevel := b.elementLevel + 1 } tag.name)) b.used tag.nsPrefix
  have hresult : (createOmElement b tag isEmpty).2 = fillElement
    (placeElement { b with elementLevel := b.elementLevel + 1 } tag.name) b.used tag isEmpty := rfl
  rw [namespaceAt, hresult, hheap, elementAt_setElement he, Option.bind_some, hns, ← hown]
  exact congrArg _ (congrArg _ htable.symm)

/-- The state in which an element may start: before the root, or inside of it. -/
def Ready (b : Builder) : Prop := Blank b ∨ ∃ o, Tracks b o ∧ o.openNodes ≠ []

lemma Ready.placed (hr : Ready b) (name : String) :
    elementAt (placeElement { b with elementLevel := b.elementLevel + 1 } name).heap b.used =
        some ⟨name, none, [], [], false⟩ ∧
      Keyed (placeElement { b with elementLevel := b.elementLevel + 1 } name).heap := by
  obtain hb | ⟨o, ht, hopen⟩ := hr
  · rw [hb.placeElement, hb.used]
    exact hb.new_element name
  · obtain ⟨p, rest, hopen⟩ := List.exists_cons_of_ne_nil hopen
    rw [ht.placeElement hopen]
    exact ht.new_element p name

/-- What a tag attaches to its element: the binding among all tags so far. -/
lemma Ready.pull_attached (hr : Ready b) (hb : Holds b tags) {e : Event} {tag : StartTag}
    (htag : e.tag = some tag) {key : String} (hkey : tag.nsPrefix = some key) :
    Attached (Om.pull b e).2 b.used key (binding (tag :: tags) key) ∧
      (namespaceAt (Om.pull b e).2 b.used).map Namespace.uri = binding (tag :: tags) key := by
  obtain ⟨he, hk⟩ := hr.placed tag.name
  have hcreate (isEmpty : Bool) :
      Attached (createOmElement b tag isEmpty).2 b.used key (binding (tag :: tags) key) ∧
        (namespaceAt (createOmElement b tag isEmpty).2 b.used).map Namespace.uri =
          binding (tag :: tags) key := by
    have hns := @createOmElement_namespace b tag isEmpty he hk
    obtain ⟨hholds, herror⟩ := createOmElement_table hb tag isEmpty
    have htable := hholds key
    rw [hkey, Option.bind_some] at hns
    rw [← hns] at htable
    cases hbinding : binding (tag :: tags) key with
    | none =>
      have hnone : namespaceAt (createOmElement b tag isEmpty).2 b.used = none := by
        simpa [hbinding] using htable
      exact ⟨⟨hnone, herror key hkey hbinding⟩, by simp [hnone]⟩
    | some uri =>
      rw [hbinding, Option.map_some, Option.map_eq_some_iff] at htable
      obtain ⟨ns, hsome, hpair⟩ := htable
      obtain ⟨hpref, huri⟩ := Prod.mk.inj hpair
      exact ⟨⟨ns, hsome, hpref, huri⟩, by simp [hsome, huri]⟩
  cases e with
  | startElement tag' =>
    obtain rfl := Option.some.inj htag
    exact hcreate false
  | emptyElement tag' =>
    obtain rfl := Option.some.inj htag
    have hnamespace : namespaceAt (Om.pull b (.emptyElement tag')).2 b.used =
        namespaceAt (createOmElement b tag' !b.libxml2).2 b.used := by
      unfold namespaceAt
      exact congrArg (Option.bind · Element.ns) (elementAt_endElement _ _)
    have herror : (Om.pull b (.emptyElement tag')).2.error =
        (createOmElement b tag' !b.libxml2).2.error := (endElement_table _).error
    obtain ⟨hattached, huri⟩ := hcreate !b.libxml2
    refine ⟨?_, by rw [hnamespace]; exact huri⟩
    cases hbinding : binding (tag' :: tags) key with
    | none =>
      rw [hbinding] at hattached
      exact ⟨hnamespace.trans hattached.1, herror.trans hattached.2⟩
    | some uri =>
      rw [hbinding] at hattached
      obtain ⟨ns, hsome, hpref, huri⟩ := hattached
      exact ⟨ns, hnamespace.trans hsome, hpref, huri⟩
  | _ => simp [Event.tag] at htag

lemma Attached.uri {n : ℕ} {key : String} {uri : Option String} (ha : Attached b n key uri) :
    (namespaceAt b n).map Namespace.uri = uri := by
  cases uri with
  | none =>
    rw [ha.1]
    rfl
  | some uri =>
    obtain ⟨ns, hsome, -, huri⟩ := ha
    rw [hsome, Option.map_some, huri]

end Pull

section Result

/-- An element starts before the root or inside of it. -/
lemma Document.ready (doc : Document) (libxml2 : Bool)
    (hdata : ∀ e ∈ contentEvents doc.tree, e.lacksData = false) {es es' : List Event} {e : Event}
    (hsplit : contentEvents doc.tree = es ++ e :: es') :
    Ready (pullAll (builderCreate libxml2) (doc.prolog ++ es)) := by
  rw [doc.events_eq] at hsplit
  cases es with
  | nil =>
    rw [List.append_nil]
    exact .inl ((builderCreate_blank libxml2).pullAll fun e he => (doc.prologPlain e he).1)
  | cons e₀ es =>
    obtain rfl : doc.root = e₀ := (List.cons.inj hsplit).1
    obtain ⟨ht, -, hopen, -⟩ := doc.tracks_along libxml2 hdata (List.cons.inj hsplit).2
    exact .inr ⟨_, ht, hopen⟩

lemma foldl_historyStep_plain {prolog : List Event}
    (hplain : ∀ e ∈ prolog, e.startsElement = false) (tags : List StartTag) :
    prolog.foldl historyStep tags = tags := by
  induction prolog with
  | nil => rfl
  | cons e prolog ih =>
    have hnone : e.tag = none := by
      have hstarts := hplain e (by simp)
      cases e <;> first | rfl | simp [Event.startsElement] at hstarts
    rw [List.foldl_cons, historyStep, hnone]
    exact ih fun e' he' => hplain e' (by simp [he'])

/-- The prolog has no tags. -/
lemma Document.history (doc : Document) (libxml2 : Bool) (es : List Event) :
    Holds (pullAll (builderCreate libxml2) (doc.prolog ++ es)) (es.foldl historyStep []) := by
  have hstart : Holds (builderCreate libxml2) [] := fun _ => rfl
  have hall := pullAll_holds hstart (doc.prolog ++ es)
  rwa [List.foldl_append,
    foldl_historyStep_plain (fun e he => (doc.prologPlain e he).1)] at hall

/-- The builder respects the scopes exactly when for every prefix in use the latest
declaration in the document agrees with the nearest enclosing one. -/
theorem scopes_kept_iff (doc : Document) (libxml2 : Bool)
    (hdata : ∀ e ∈ contentEvents doc.tree, e.lacksData = false) :
    doc.ScopesKept libxml2 ↔
      ∀ es e es' tag key, contentEvents doc.tree = es ++ e :: es' → e.tag = some tag →
        tag.nsPrefix = some key →
        binding (tag :: es.foldl historyStep []) key =
          binding (tag :: es.foldl scopeStep []) key := by
  constructor
  · intro hkept es e es' tag key hsplit htag hkey
    obtain ⟨-, huri⟩ := (doc.ready libxml2 hdata hsplit).pull_attached (doc.history libxml2 es)
      htag hkey
    rw [← huri]
    exact (hkept es e es' tag key hsplit htag hkey).uri
  · intro hagree es e es' tag key hsplit htag hkey
    obtain ⟨hattached, -⟩ := (doc.ready libxml2 hdata hsplit).pull_attached
      (doc.history libxml2 es) htag hkey
    rw [hagree es e es' tag key hsplit htag hkey] at hattached
    exact hattached

/-- `<r xmlns:p="u"><p:b/></r>`. -/
def documentOneScope : Document where
  prolog := []
  root := .startElement ⟨"r", none, [(some "p", "u")], []⟩
  content := .node (.emptyElement ⟨"b", some "p", [], []⟩) .nil .nil
  epilog := []
  prologPlain := plain_nil
  rootStarts := rfl
  rootContent := by simp [Content, Event.Readable, StartTag.Proper.mk]

theorem scopes_kept_one : documentOneScope.ScopesKept true := by
  have hevents : contentEvents documentOneScope.tree =
      [.startElement ⟨"r", none, [(some "p", "u")], []⟩, .emptyElement ⟨"b", some "p", [], []⟩,
        .endElement] := by decide
  refine (scopes_kept_iff documentOneScope true (by rw [hevents]; decide)).mpr ?_
  intro es e es' tag key hsplit htag hkey
  rw [hevents] at hsplit
  match es with
  | [] =>
    obtain ⟨rfl, -⟩ := List.cons.inj hsplit
    obtain rfl := Option.some.inj htag
    simp at hkey
  | [_] =>
    obtain ⟨rfl, htail⟩ := List.cons.inj hsplit
    obtain ⟨rfl, -⟩ := List.cons.inj htail
    obtain rfl := Option.some.inj htag
    obtain rfl := Option.some.inj hkey
    decide
  | [_, _] =>
    obtain ⟨-, htail⟩ := List.cons.inj hsplit
    obtain ⟨-, htail'⟩ := List.cons.inj htail
    obtain ⟨rfl, -⟩ := List.cons.inj htail'
    simp [Event.tag] at htag
  | _ :: _ :: _ :: es =>
    have := congrArg List.length hsplit
    simp at this

/-- `<r xmlns:p="u1"><a xmlns:p="u2"/><p:b/></r>`. -/
def documentTwoScopes : Document where
  prolog := []
  root := .startElement ⟨"r", none, [(some "p", "u1")], []⟩
  content := .node (.emptyElement ⟨"a", none, [(some "p", "u2")], []⟩) .nil
    (.node (.emptyElement ⟨"b", some "p", [], []⟩) .nil .nil)
  epilog := []
  prologPlain := plain_nil
  rootStarts := rfl
  rootContent := by simp [Content, Event.Readable, StartTag.Proper.mk]

/-- The declaration of an element that has ended still counts. -/
theorem ended_scope_used : ¬ documentTwoScopes.ScopesKept true := by
  intro hkept
  have hattached := hkept [.startElement ⟨"r", none, [(some "p", "u1")], []⟩,
    .emptyElement ⟨"a", none, [(some "p", "u2")], []⟩] (.emptyElement ⟨"b", some "p", [], []⟩)
    [.endElement] ⟨"b", some "p", [], []⟩ "p" (by decide) rfl rfl
  have huri := hattached.uri
  revert huri
  decide

end Result

end Axis2C.Om
