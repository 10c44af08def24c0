import Axis2C.GuththilaStacks
import Mathlib.Tactic

/-!
# Namespaces in scope

The start tags that stand open in the document, with the declarations they
carry, against the stack of declarations that the parser keeps and the check of
prefixes it makes.
-/
namespace Axis2C.Guththila
open StatefulRuns

/-! ### Tags of a document -/

/-- A start tag or an empty element as it stands in the document. -/
structure Tag where
  qname : QName
  attrs : List RawAttribute
  deriving Repr, DecidableEq

/-- `xmlns:p="..."` or `xmlns="..."`. -/
def RawAttribute.isDeclaration (a : RawAttribute) : Bool :=
  a.qname.pref = some xmlns ∨ (a.qname.pref = none ∧ a.qname.name = xmlns)

def RawAttribute.binding (a : RawAttribute) : Namespace := ⟨some a.qname.name, a.value⟩

def declared (attrs : List RawAttribute) : List Namespace :=
  (attrs.filter RawAttribute.isDeclaration).map RawAttribute.binding

/-- The declarations of the tags that carry any, the innermost tag first. -/
def scopes (tags : List Tag) : List (List Namespace) :=
  (tags.map fun tag => declared tag.attrs).filter fun ds => ds ≠ []

def Declares (attrs : List RawAttribute) (pref : Token) : Prop :=
  ∃ a ∈ attrs, a.qname = ⟨some xmlns, pref⟩

/-- The prefix is predefined or declared by one of the tags. -/
def InScope (tags : List Tag) (pref : Token) : Prop :=
  pref = textBytes "xml" ∨ ∃ tag ∈ tags, Declares tag.attrs pref

/-- The prefix of the element and of every attribute of the tag is in scope. -/
structure PrefixesInScope (tags : List Tag) (tag : Tag) : Prop where
  element : ∀ pref, tag.qname.pref = some pref → InScope tags pref
  attributes : ∀ a ∈ tag.attrs, a.isDeclaration = false →
    ∀ pref, a.qname.pref = some pref → InScope tags pref

/-! ### Runs with the tags they have read -/

def TagAhead (data : List UInt8) (m : Parser) : TagProp := fun q attrs event =>
  ∃ first text p p' p'', AtMarkup data m p ∧ ReadsChar data p first p' ∧
    StartTagText first text q attrs event ∧ Reads data p' text p''

lemma TagAhead.event {data : List UInt8} {m : Parser} {q : QName} {attrs : List RawAttribute}
    {event : Event} (h : TagAhead data m q attrs event) :
    event = .startElement ∨ event = .emptyElement := by
  obtain ⟨first, text, p, p', p'', -, -, htext, -⟩ := h
  exact htext.event

/-- The tags open after a call from the ones open when it begins. -/
inductive TagsAfter (data : List UInt8) (m : Parser) (tags : List Tag) : Reply → List Tag → Prop
  | opens {tag : Tag} {event : Event} : TagAhead data m tag.qname tag.attrs event →
      TagsAfter data m tags (.event event) (tag :: tags)
  | closes : TagsAfter data m tags (.event .endElement) tags.tail
  | quiet {reply : Reply} : reply.Quiet → TagsAfter data m tags reply tags

/-- Calls on a document and the tags that are open after them. -/
inductive TaggedCalls (data : List UInt8) (ok : Parser → Prop) :
    List Call → List Tag → Parser → Prop
  | init : TaggedCalls data ok [] [] (initMemory data)
  | call {calls : List Call} {tags tags' : List Tag} {m m' : Parser} {fuel : ℕ} {reply : Reply} :
      TaggedCalls data ok calls tags m → ok m → next fuel m = .returned reply m' →
      TagsAfter data m (stillOpen calls tags) reply tags' →
      TaggedCalls data ok (⟨reply, m'.state.pref, m'.state.name⟩ :: calls) tags' m'

/-- Declarations and prefixes after a call. -/
structure Scoped (calls : List Call) (tags : List Tag) (m : Parser) : Prop where
  namesp : m.state.namesp = scopes tags ++ [[xmlNamespace]]
  prefixes : ∀ c earlier tag outer, calls = c :: earlier → tags = tag :: outer →
    c.reply = .event .startElement ∨ c.reply = .event .emptyElement → PrefixesInScope tags tag

/-- What a tag must not do: name an attribute `p:xmlns`, which the parser takes
for a declaration; use the prefix `xmlns` for the element, which the parser finds
declared by `xmlns="..."`; mix attributes with declared and undeclared prefixes,
since the first declared one lets the others pass. -/
structure PrefixesOk (s : State) (q : QName) (attrs : List RawAttribute) : Prop where
  names : ∀ a ∈ attrs, a.qname.name = xmlns → a.isDeclaration = true
  element : q.pref ≠ some xmlns
  attributes : ∀ a ∈ attrs, ∀ b ∈ attrs, a.isDeclaration = false → b.isDeclaration = false →
    ∀ pa pb, a.qname.pref = some pa → b.qname.pref = some pb →
      declares s.namesp (some pa) = true ∨ Declares attrs pa →
      declares s.namesp (some pb) = true ∨ Declares attrs pb

def TagOk (s : State) : TagProp := fun q attrs event =>
  Validated s q attrs event ∧ PrefixesOk s q attrs

/-- What a call needs for the stacks and for the prefixes. -/
structure ScopeOk (data : List UInt8) (m : Parser) : Prop where
  fresh : m.state.event = some .emptyElement → m.state.name ≠ none
  markup : ∀ p, AtMarkup data m p → MarkupOk data m.state.atMarkup (TagOk m.state.atMarkup) p

lemma ScopeOk.callOk {data : List UInt8} {m : Parser} (h : ScopeOk data m) : CallOk data m where
  fresh := h.fresh
  markup := fun p hp => (h.markup p hp).mono fun _ _ _ _ _ _ _ _ _ _ htag => htag.1

lemma TagAhead.unique {data : List UInt8} {m : Parser} {q q' : QName}
    {attrs attrs' : List RawAttribute} {event event' : Event} (h : TagAhead data m q attrs event)
    (h' : TagAhead data m q' attrs' event') : q = q' ∧ attrs = attrs' ∧ event = event' := by
  obtain ⟨first, text, p, r, r₁, hat, hfirst, htext, hread⟩ := h
  obtain ⟨first', text', p', r', r₁', hat', hfirst', htext', hread'⟩ := h'
  obtain rfl := hat.unique hat'
  obtain ⟨rfl, rfl⟩ := hfirst.unique hfirst'
  obtain ⟨t, t', heq⟩ := hread.comparable hread'
  exact htext.unique htext' heq

/-! ### The end of a tag -/

/-- The attributes of a tag that are no declarations. -/
def plain (attrs : List RawAttribute) : List Attribute :=
  (attrs.filter fun a => !a.isDeclaration).map fun a => ⟨a.qname.pref, some a.qname.name, a.value⟩

/-- One entry for a tag that carries declarations. -/
def pushScope (ds : List Namespace) (namesp : List (List Namespace)) : List (List Namespace) :=
  if ds = [] then namesp else ds :: namesp

/-- The fields while the attributes of a tag are read. -/
structure Collected (name : Option Token) (pref : Option Token) (rest : List Element)
    (namesp : List (List Namespace)) (ds : List Namespace) (attrs : List Attribute) (s : State) :
    Prop where
  elem : s.elem = ⟨name, pref, ds ≠ []⟩ :: rest
  namesp : s.namesp = pushScope ds namesp
  attrib : s.attrib = attrs

section Collect

variable {name pref : Option Token} {rest : List Element} {namesp : List (List Namespace)}

lemma Collected.addAttribute {ds : List Namespace} {as : List Attribute} {s : State}
    (h : Collected name pref rest namesp ds as s) {a : RawAttribute}
    (ha : a.qname.name = xmlns → a.isDeclaration = true) :
    Collected name pref rest namesp (ds ++ declared [a]) (as ++ plain [a]) (s.addAttribute a) := by
  by_cases hdecl : a.isDeclaration = true
  · have hcond : a.qname.pref = some xmlns ∨ some a.qname.name = some xmlns := by
      simp only [RawAttribute.isDeclaration, decide_eq_true_eq] at hdecl
      rcases hdecl with h | h
      · exact Or.inl h
      · exact Or.inr (congrArg some h.2)
    have hds : declared [a] = [a.binding] := by simp [declared, hdecl]
    have has : plain [a] = [] := by simp [plain, hdecl]
    rw [hds, has, List.append_nil]
    simp only [State.addAttribute, State.close, if_pos hcond, State.declare, h.elem]
    by_cases hfirst : ds = []
    · subst hfirst
      refine ⟨?_, ?_, ?_⟩
      · simp
      · simp [h.namesp, pushScope, RawAttribute.binding]
      · simp [h.attrib]
    · have hnamesp : s.namesp = ds :: namesp := by rw [h.namesp, pushScope, if_neg hfirst]
      simp only [hfirst, ne_eq, not_false_eq_true, decide_true, if_true, hnamesp]
      refine ⟨?_, ?_, ?_⟩
      · simp [hfirst]
      · simp [pushScope, RawAttribute.binding]
      · exact h.attrib
  · have hcond : ¬ (a.qname.pref = some xmlns ∨ some a.qname.name = some xmlns) := by
      rintro (h | h)
      · exact hdecl (by simp [RawAttribute.isDeclaration, h])
      · exact hdecl (ha (Option.some.inj h))
    have hds : declared [a] = [] := by simp [declared, hdecl]
    have has : plain [a] = [⟨a.qname.pref, some a.qname.name, a.value⟩] := by simp [plain, hdecl]
    rw [hds, has, List.append_nil]
    simp only [State.addAttribute, State.close, if_neg hcond]
    exact ⟨h.elem, h.namesp, by rw [h.attrib]⟩

lemma declared_cons (a : RawAttribute) (attrs : List RawAttribute) :
    declared (a :: attrs) = declared [a] ++ declared attrs := by
  simp only [declared, List.filter_cons]
  split <;> rfl

lemma plain_cons (a : RawAttribute) (attrs : List RawAttribute) :
    plain (a :: attrs) = plain [a] ++ plain attrs := by
  simp only [plain, List.filter_cons]
  split <;> rfl

lemma Collected.foldl (attrs : List RawAttribute) {ds : List Namespace} {as : List Attribute}
    {s : State} (h : Collected name pref rest namesp ds as s)
    (hattrs : ∀ a ∈ attrs, a.qname.name = xmlns → a.isDeclaration = true) :
    Collected name pref rest namesp (ds ++ declared attrs) (as ++ plain attrs)
      (attrs.foldl State.addAttribute s) := by
  induction attrs generalizing ds as s with
  | nil => simpa [declared, plain] using h
  | cons a attrs ih =>
    have hstep := h.addAttribute (hattrs a (List.mem_cons_self ..))
    have hrest := ih hstep fun b hb => hattrs b (List.mem_cons_of_mem _ hb)
    rw [declared_cons, plain_cons, ← List.append_assoc, ← List.append_assoc]
    exact hrest

end Collect

/-- The stacks and the attributes when a tag is complete. -/
lemma endOfTag_collected {s : State} (hs : s.attrib = []) (q : QName) {attrs : List RawAttribute}
    (hattrs : ∀ a ∈ attrs, a.qname.name = xmlns → a.isDeclaration = true) (event : Event) :
    Collected (some q.name) q.pref s.elem s.namesp (declared attrs) (plain attrs)
      ((s.openTag q).endOfTag attrs event) := by
  have hstart : Collected (some q.name) q.pref s.elem s.namesp [] [] (s.openTag q) :=
    ⟨by simp [State.openTag], rfl, hs⟩
  have hall := hstart.foldl attrs hattrs
  exact ⟨hall.elem, hall.namesp, hall.attrib⟩

/-! ### Prefixes that pass the check -/

lemma declares_iff {namesp : List (List Namespace)} {pref : Token} :
    declares namesp (some pref) = true ↔ ∃ ds ∈ namesp, ∃ n ∈ ds, n.name = some pref := by
  have hname : ∀ n : Namespace, tokTokCmp n.name (some pref) = true ↔ n.name = some pref := by
    intro n
    cases n.name with
    | none | some tok => simp [tokTokCmp]
  simp [declares, hname]

/-- A name among the declarations of a tag, other than `xmlns`, is a declared prefix. -/
lemma declares_of_mem_declared {attrs : List RawAttribute} {n : Namespace} {pref : Token}
    (hn : n ∈ declared attrs) (hname : n.name = some pref) (hpref : pref ≠ xmlns) :
    Declares attrs pref := by
  obtain ⟨a, ha, rfl⟩ := List.mem_map.mp hn
  obtain ⟨hmem, hdecl⟩ := List.mem_filter.mp ha
  obtain rfl : a.qname.name = pref := Option.some.inj hname
  simp only [RawAttribute.isDeclaration, decide_eq_true_eq] at hdecl
  rcases hdecl with hxmlns | ⟨-, hdefault⟩
  · exact ⟨a, hmem, by rw [← hxmlns]⟩
  · exact absurd hdefault hpref

lemma inScope_of_declares {tags : List Tag} {pref : Token}
    (h : declares (scopes tags ++ [[xmlNamespace]]) (some pref) = true) (hpref : pref ≠ xmlns) :
    InScope tags pref := by
  obtain ⟨ds, hds, n, hn, hname⟩ := declares_iff.mp h
  rcases List.mem_append.mp hds with hscope | hxml
  · obtain ⟨tag, htag, rfl⟩ := List.mem_map.mp (List.mem_filter.mp hscope).1
    exact Or.inr ⟨tag, htag, declares_of_mem_declared hn hname hpref⟩
  · rw [List.mem_singleton.mp hxml] at hn
    rw [List.mem_singleton.mp hn] at hname
    exact Or.inl (Option.some.inj hname).symm

lemma declares_pushScope {attrs : List RawAttribute} {namesp : List (List Namespace)}
    {pref : Token} (h : declares (pushScope (declared attrs) namesp) (some pref) = true)
    (hpref : pref ≠ xmlns) : declares namesp (some pref) = true ∨ Declares attrs pref := by
  unfold pushScope at h
  split_ifs at h with hnone
  · exact Or.inl h
  · obtain ⟨ds, hds, n, hn, hname⟩ := declares_iff.mp h
    rcases List.mem_cons.mp hds with rfl | hds
    · exact Or.inr (declares_of_mem_declared hn hname hpref)
    · exact Or.inl (declares_iff.mpr ⟨ds, hds, n, hn, hname⟩)

lemma validateAttributes_first {namesp : List (List Namespace)} {attrs : List Attribute}
    (h : validateAttributes namesp attrs false = true) :
    (∀ a ∈ attrs, a.pref = none) ∨
      ∃ a ∈ attrs, ∃ pref, a.pref = some pref ∧ declares namesp (some pref) = true := by
  induction attrs with
  | nil => exact Or.inl (by simp)
  | cons a attrs ih =>
    rw [validateAttributes] at h
    cases hpref : a.pref with
    | none =>
      rw [hpref] at h
      rcases ih h with hnone | ⟨b, hb, hfound⟩
      · exact Or.inl (List.forall_mem_cons.mpr ⟨hpref, hnone⟩)
      · exact Or.inr ⟨b, List.mem_cons_of_mem _ hb, hfound⟩
    | some pref =>
      refine Or.inr ⟨a, List.mem_cons_self .., pref, hpref, ?_⟩
      by_contra hdeclares
      rw [hpref] at h
      simp [hdeclares] at h

/-- No attribute that is left has the prefix `xmlns`. -/
lemma plain_pref {attrs : List RawAttribute} {a : Attribute} (ha : a ∈ plain attrs) :
    ∃ raw ∈ attrs, raw.isDeclaration = false ∧ raw.qname.pref = a.pref ∧ a.pref ≠ some xmlns := by
  obtain ⟨raw, hraw, rfl⟩ := List.mem_map.mp ha
  obtain ⟨hmem, hplain⟩ := List.mem_filter.mp hraw
  have hplain' : raw.isDeclaration = false := by simpa using hplain
  refine ⟨raw, hmem, hplain', rfl, fun hxmlns => ?_⟩
  have hdecl : raw.isDeclaration = true := by
    simp only [RawAttribute.isDeclaration, decide_eq_true_eq]
    exact Or.inl hxmlns
  rw [hplain'] at hdecl
  cases hdecl

lemma inScope_of_either {tags : List Tag} {tag : Tag} {pref : Token} (hpref : pref ≠ xmlns)
    (h : declares (scopes tags ++ [[xmlNamespace]]) (some pref) = true ∨ Declares tag.attrs pref) :
    InScope (tag :: tags) pref := by
  rcases h with h | h
  · rcases inScope_of_declares h hpref with hxml | ⟨t, ht, hdecl⟩
    · exact Or.inl hxml
    · exact Or.inr ⟨t, List.mem_cons_of_mem _ ht, hdecl⟩
  · exact Or.inr ⟨tag, List.mem_cons_self .., h⟩

lemma prefixesInScope_of_validated {s : State} {tags : List Tag} {tag : Tag} {event : Event}
    (hs : s.attrib = []) (hnamesp : s.namesp = scopes tags ++ [[xmlNamespace]])
    (hok : PrefixesOk s tag.qname tag.attrs) (hvalid : Validated s tag.qname tag.attrs event) :
    PrefixesInScope (tag :: tags) tag := by
  have hend := endOfTag_collected hs tag.qname hok.names event
  obtain ⟨-, -, hpref⟩ := endOfTag_keys s tag.qname tag.attrs event
  unfold Validated validateNamespaces at hvalid
  rw [hend.attrib, hend.namesp, hpref, Bool.and_eq_true] at hvalid
  constructor
  · intro pref helem
    have hne : pref ≠ xmlns := fun h => hok.element (h ▸ helem)
    have hdeclares := hvalid.2
    rw [helem, Option.isNone_some, Bool.false_or] at hdeclares
    have heither := declares_pushScope hdeclares hne
    rw [hnamesp] at heither
    exact inScope_of_either hne heither
  · intro b hb hbplain pb hpb
    have hmem : (⟨b.qname.pref, some b.qname.name, b.value⟩ : Attribute) ∈ plain tag.attrs :=
      List.mem_map.mpr ⟨b, List.mem_filter.mpr ⟨hb, by simp [hbplain]⟩, rfl⟩
    have hbne : pb ≠ xmlns := by
      obtain ⟨-, -, -, -, hne⟩ := plain_pref hmem
      exact fun h => hne (h ▸ hpb)
    rcases validateAttributes_first hvalid.1 with hnone | ⟨a, ha, pa, hpa, hdeclares⟩
    · have hbnone := hnone _ hmem
      rw [hpb] at hbnone
      cases hbnone
    · obtain ⟨raw, hraw, hrawplain, hrawpref, hne⟩ := plain_pref ha
      have hpane : pa ≠ xmlns := fun h => hne (h ▸ hpa)
      have heither := hok.attributes raw hraw b hb hrawplain hbplain pa pb (hrawpref.trans hpa) hpb
        (declares_pushScope hdeclares hpane)
      rw [hnamesp] at heither
      exact inScope_of_either hbne heither

/-! ### One call -/

def Tag.element (tag : Tag) : Element :=
  ⟨some tag.qname.name, tag.qname.pref, declared tag.attrs ≠ []⟩

/-- The stacks hold the open tags. -/
structure HoldsTags (tags : List Tag) (s : State) : Prop where
  elem : s.elem = tags.map Tag.element
  namesp : s.namesp = scopes tags ++ [[xmlNamespace]]

lemma scopes_cons (tag : Tag) (tags : List Tag) :
    scopes (tag :: tags) = pushScope (declared tag.attrs) (scopes tags) := by
  simp only [scopes, pushScope, List.map_cons, List.filter_cons]
  split_ifs with h1 h2
  · exact absurd h2 (by simpa using h1)
  · rfl
  · rfl
  · next h2 => exact absurd h2 (by simpa using h1)

/-- Popping an element takes its declarations with it. -/
lemma popScope (tag : Tag) (tags : List Tag) :
    (if tag.element.isNamesp = true then (scopes (tag :: tags) ++ [[xmlNamespace]]).tail
      else scopes (tag :: tags) ++ [[xmlNamespace]]) = scopes tags ++ [[xmlNamespace]] := by
  rw [scopes_cons, pushScope]
  by_cases h : declared tag.attrs = []
  · simp [Tag.element, h]
  · simp [Tag.element, h]

variable {data : List UInt8} {calls : List Call} {tags : List Tag} {m m' : Parser} {reply : Reply}

lemma HoldsTags.cleaned (h : HoldsTags tags m.state) (hstack : StackInv data calls m)
    (hfresh : m.state.event = some .emptyElement → m.state.name ≠ none) :
    HoldsTags (stillOpen calls tags) m.state.atMarkup := by
  by_cases hevent : m.state.event = some .emptyElement
  · obtain ⟨c, earlier, elem, rest, rfl, hreply, helem, -⟩ :=
      hstack.pops hevent (hfresh hevent) hevent
    cases tags with
    | nil =>
      have hnil := h.elem
      rw [helem] at hnil
      cases hnil
    | cons tag tags =>
      have hopen : stillOpen (c :: earlier) (tag :: tags) = tags := by
        rw [stillOpen, if_pos hreply]
        rfl
      obtain ⟨rfl, hrest⟩ := List.cons.inj (helem.symm.trans h.elem)
      rw [hopen]
      simp only [State.atMarkup, State.cleaned, State.popEmpty, hevent, helem]
      exact ⟨hrest, by rw [h.namesp]; exact popScope tag tags⟩
  · have hopen : stillOpen calls tags = tags := by
      cases calls with
      | nil => rfl
      | cons c earlier =>
        rw [stillOpen, if_neg fun hreply => hevent (hstack.empty c earlier rfl hreply)]
    have hsame : m.state.popEmpty = m.state := by
      unfold State.popEmpty
      split
      · next h _ => exact absurd h hevent
      · rfl
    rw [hopen]
    simp only [State.atMarkup, State.cleaned, hsame]
    exact ⟨h.elem, h.namesp⟩

lemma atMarkup_attrib (s : State) : s.atMarkup.attrib = [] := rfl

def TagRead (data : List UInt8) (m : Parser) : TagProp := fun q attrs event =>
  TagAhead data m q attrs event ∧ TagOk m.state.atMarkup q attrs event

lemma ScopeOk.effect (hok : ScopeOk data m) (hstack : StackInv data calls m) {fuel : ℕ}
    (hnext : next fuel m = .returned reply m') :
    Effect (TagRead data m) m.state.atMarkup reply m'.state := by
  refine (next_effect hstack.onData (hstack.cleaned hok.fresh).1 (fun p hat => ?_) hnext).2
  apply (hok.markup p hat).mono
  intro first text q attrs event p' p'' hfirst htext hread htag
  exact ⟨⟨first, text, p, p', p'', hat, hfirst, htext, hread⟩, htag⟩

lemma TagRead.accepted {q : QName} {attrs : List RawAttribute} {event : Event}
    (h : TagRead data m q attrs event) :
    tagReply ((m.state.atMarkup.openTag q).endOfTag attrs event) event = .event event :=
  Validated.reply h.2.1

lemma HoldsTags.opens {s : State} {tag : Tag} {event : Event} (h : HoldsTags tags s)
    (hs : s.attrib = []) (hok : PrefixesOk s tag.qname tag.attrs) :
    HoldsTags (tag :: tags) ((s.openTag tag.qname).endOfTag tag.attrs event) := by
  have hend := endOfTag_collected hs tag.qname hok.names event
  constructor
  · rw [hend.elem, h.elem]
    rfl
  · rw [hend.namesp, h.namesp, scopes_cons]
    unfold pushScope
    split_ifs <;> rfl

lemma HoldsTags.closes {s : State} (h : HoldsTags tags s) {q : QName} {elem : Element}
    {rest : List Element} (helem : s.elem = elem :: rest) :
    HoldsTags tags.tail (s.closeTag q elem rest) := by
  cases tags with
  | nil =>
    have hnil := h.elem
    rw [helem] at hnil
    cases hnil
  | cons tag tags =>
    obtain ⟨rfl, hrest⟩ := List.cons.inj (helem.symm.trans h.elem)
    refine ⟨hrest, ?_⟩
    simp only [State.closeTag, h.namesp]
    exact popScope tag tags

lemma HoldsTags.call (h : HoldsTags tags m.state.atMarkup) {tags' : List Tag}
    (heffect : Effect (TagRead data m) m.state.atMarkup reply m'.state)
    (htags : TagsAfter data m tags reply tags') :
    HoldsTags tags' m'.state ∧ (∀ tag outer, tags' = tag :: outer →
      reply = .event .startElement ∨ reply = .event .emptyElement → PrefixesInScope tags' tag) := by
  generalize hs : m'.state = s at heffect
  cases heffect with
  | quiet hquiet hstacks =>
    have hnone : ¬ (reply = .event .startElement ∨ reply = .event .emptyElement) := by
      rintro (h | h)
      · exact hquiet.1 h
      · exact hquiet.2.1 h
    cases htags with
    | opens htag => exact absurd (htag.event.imp (congrArg _) (congrArg _)) hnone
    | closes => exact absurd rfl hquiet.2.2
    | quiet _ =>
      exact ⟨⟨hstacks.elem.trans h.elem, hstacks.namesp.trans h.namesp⟩,
        fun _ _ _ hreply => absurd hreply hnone⟩
  | @opens q attrs event hevent hread =>
    generalize hreply : tagReply _ event = r at htags
    rw [TagRead.accepted hread] at hreply
    cases htags with
    | @opens tag event' htag =>
      obtain ⟨rfl, rfl, -⟩ := hread.1.unique htag
      refine ⟨h.opens (atMarkup_attrib _) hread.2.2, ?_⟩
      rintro _ _ ⟨⟩ -
      exact prefixesInScope_of_validated (atMarkup_attrib _) h.namesp hread.2.2 hread.2.1
    | closes => rcases hevent with rfl | rfl <;> cases hreply
    | quiet hquiet =>
      rcases hevent with rfl | rfl
      · exact absurd hreply.symm hquiet.1
      · exact absurd hreply.symm hquiet.2.1
  | closes helem _ _ =>
    generalize hreply : Reply.event .endElement = r at htags
    cases htags with
    | opens htag => rcases htag.event with rfl | rfl <;> cases hreply
    | closes =>
      exact ⟨h.closes helem, fun _ _ _ hreply => by rcases hreply with h | h <;> cases h⟩
    | quiet hquiet => exact absurd hreply.symm hquiet.2.2

/-! ### Runs -/

lemma TaggedCalls.untagged {ok : Parser → Prop} (h : TaggedCalls data ok calls tags m) :
    Calls data ok calls m := by
  induction h with
  | init => exact .init
  | call _ hok hnext _ ih => exact .call ih hok hnext

lemma Calls.mono {ok ok' : Parser → Prop} (h : Calls data ok calls m)
    (hok : ∀ m, ok m → ok' m) : Calls data ok' calls m := by
  induction h with
  | init => exact .init
  | call _ hm hnext ih => exact .call ih (hok _ hm) hnext

lemma TaggedCalls.stackInv (h : TaggedCalls data (ScopeOk data) calls tags m) :
    StackInv data calls m :=
  (h.untagged.mono fun _ hok => hok.callOk).stackInv

lemma TaggedCalls.scoped (h : TaggedCalls data (ScopeOk data) calls tags m) :
    HoldsTags tags m.state ∧ Scoped calls tags m := by
  induction h with
  | init =>
    refine ⟨⟨rfl, rfl⟩, rfl, ?_⟩
    intro c earlier tag outer hcalls
    cases hcalls
  | call hcalls hok hnext htags ih =>
    have hstack := hcalls.stackInv
    obtain ⟨hholds, hprefixes⟩ :=
      (ih.1.cleaned hstack hok.fresh).call (hok.effect hstack hnext) htags
    refine ⟨hholds, hholds.namesp, ?_⟩
    intro c earlier tag outer heq htag hreply
    obtain ⟨rfl, -⟩ := List.cons.inj heq
    exact hprefixes tag outer htag hreply

/-- Every run has read tags of the document. -/
lemma Calls.tagged (h : Calls data (ScopeOk data) calls m) :
    ∃ tags, TaggedCalls data (ScopeOk data) calls tags m := by
  induction h with
  | init => exact ⟨[], .init⟩
  | @call calls m m' fuel reply hcalls hok hnext ih =>
    obtain ⟨tags, htagged⟩ := ih
    have heffect := hok.effect htagged.stackInv hnext
    have htags : ∃ tags', TagsAfter data m (stillOpen calls tags) reply tags' := by
      generalize m'.state = s at heffect
      cases heffect with
      | quiet hquiet _ => exact ⟨_, .quiet hquiet⟩
      | @opens q attrs event _ hread =>
        rw [TagRead.accepted hread]
        exact ⟨⟨q, attrs⟩ :: _, .opens hread.1⟩
      | closes _ _ _ => exact ⟨_, .closes⟩
    obtain ⟨tags', htags⟩ := htags
    exact ⟨tags', .call htagged hok hnext htags⟩

def Outcome.returns : Outcome → Option Reply
  | .returned r _ => some r
  | .stopped _ => none

lemma Outcome.exists_of_returns {o : Outcome} {r : Reply} (h : o.returns = some r) :
    ∃ m, o = .returned r m := by
  cases o with
  | returned r' m => exact ⟨m, by rw [Option.some.inj h]⟩
  | stopped exit => cases h

/-- `<a xmlns:p="u" p:x="1">` and, behind its name, the attributes. -/
def onePrefix : List UInt8 :=
  [60, 97, 32, 120, 109, 108, 110, 115, 58, 112, 61, 34, 117, 34, 32, 112, 58, 120, 61, 34, 49, 34, 62]

def onePrefixAttrs : List RawAttribute :=
  [⟨⟨some xmlns, [112]⟩, [117]⟩, ⟨⟨some [112], [120]⟩, [49]⟩]

/-- `<a xmlns:p="u" p:x="1" q:y="2">` and its attributes. -/
def twoPrefixes : List UInt8 := onePrefix.dropLast ++ [32, 113, 58, 121, 61, 34, 50, 34, 62]

def twoPrefixesAttrs : List RawAttribute := onePrefixAttrs ++ [⟨⟨some [113], [121]⟩, [50]⟩]

lemma onePrefix_text {rest : List Ch} {attrs : List RawAttribute} (spaces : List Ch)
    (hspaces : Spaces spaces) (h : AttributesText (ch '"') rest attrs .startElement) :
    StartTagText (.ofByte 97) ((onePrefix.dropLast.drop 2).map .ofByte ++ (spaces ++ rest))
      ⟨none, [97]⟩ (onePrefixAttrs ++ attrs) .startElement := by
  have hpx := AttributesText.quoted (ch '"') (.ofByte 112) [.ofByte 58, .ofByte 120] [.ofByte 49]
    spaces (by decide) (by decide) (by decide) hspaces h
  have hxmlns := AttributesText.quoted 0 (.ofByte 120)
    [.ofByte 109, .ofByte 108, .ofByte 110, .ofByte 115, .ofByte 58, .ofByte 112] [.ofByte 117]
    [.ofByte 32] (by decide) (by decide) (by decide) (by simp [Spaces]; decide) hpx
  exact @StartTagText.mk (.ofByte 97) [] [.ofByte 32] _ _ (.ofByte 32) _ .startElement (by decide)
    (by simp) (by simp [Spaces]; decide) hxmlns rfl (by decide)

lemma tagAhead_first (data : List UInt8) {bs : List UInt8} (hdata : data = 60 :: 97 :: bs)
    (hbs : ∀ b ∈ bs, b.toNat < 128) {attrs : List RawAttribute}
    (h : StartTagText (.ofByte 97) (bs.map .ofByte) ⟨none, [97]⟩ attrs .startElement) :
    TagAhead data (initMemory data) ⟨none, [97]⟩ attrs .startElement := by
  have hlt : ReadsChar data _ (.ofByte 60) _ := readsChar_byte
    (p := (initMemory data).input.place) ready_create hdata (by decide)
  have ha : ReadsChar data _ (.ofByte 97) _ := readsChar_byte hlt.ready (by rw [hdata]; rfl)
    (by decide)
  have hread : Reads data _ (bs.map .ofByte) _ := reads_bytes bs ha.ready
    (by rw [hdata, List.append_nil]; rfl) hbs
  exact ⟨_, _, _, _, _, atMarkup_of_readsChar hlt rfl, ha, h, hread⟩

lemma onePrefix_first : ScopeOk onePrefix (initMemory onePrefix) := by
  have htext : StartTagText (.ofByte 97) ((onePrefix.drop 2).map .ofByte) ⟨none, [97]⟩
      onePrefixAttrs .startElement :=
    @onePrefix_text [.ofByte 62] [] [] (by simp [Spaces]) (.start rfl)
  obtain ⟨first, text, p, p', p'', hat, hfirst, htag, hread⟩ :=
    tagAhead_first onePrefix rfl (by decide +kernel) htext
  refine ⟨fun h => absurd h (by decide), fun r hr => ?_⟩
  rw [hr.unique hat]
  refine markupOk_of_startTag hfirst htag.starts ⟨_, _, _, _, _, htag, hread, ?_, ?_⟩
  · unfold Validated
    decide
  · refine ⟨by decide, by decide, ?_⟩
    -- the only prefix of an attribute is the one declared
    intro a _ b hb _ hplain pa pb _ hpb _
    right
    rcases List.mem_pair.mp hb with rfl | rfl
    · exact absurd hplain (by decide)
    · obtain rfl : [112] = pb := Option.some.inj hpb
      exact ⟨⟨⟨some xmlns, [112]⟩, [117]⟩, by decide, rfl⟩

end Axis2C.Guththila
