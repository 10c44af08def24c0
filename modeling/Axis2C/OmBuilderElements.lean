import Axis2C.OmBuilder

/-!
# The elements that the builder makes

Once an element has its place, the builder only edits its data: the declarations,
its namespace and its attributes.
-/
namespace Axis2C.Om

section Tables

variable {κ α : Type*} [DecidableEq κ]
variable {t : List (κ × α)}

lemma hashSet_fresh {key : κ} (hfresh : key ∉ t.map Prod.fst) (a : α) :
    hashSet t key a = t ++ [(key, a)] := by
  have hnone : t.lookup key = none := by
    rw [List.lookup_eq_none_iff]
    intro entry hentry
    rw [bne_iff_ne]
    rintro rfl
    exact hfresh (List.mem_map_of_mem hentry)
  simp [hashSet, hashGet, hnone]

lemma mem_hashSet {key : κ} {a : α} {entry : κ × α} (hentry : entry ∈ hashSet t key a) :
    entry = (key, a) ∨ entry ∈ t := by
  unfold hashSet at hentry
  split at hentry
  · obtain ⟨old, hold, rfl⟩ := List.mem_map.mp hentry
    split
    · exact .inl rfl
    · exact .inr hold
  · obtain hentry | hentry := List.mem_append.mp hentry
    · exact .inr hentry
    · exact .inl (by simpa using hentry)

lemma mem_of_hashGet {key : κ} {a : α} (hget : hashGet t key = some a) :
    (key, a) ∈ t := by
  unfold hashGet at hget
  obtain ⟨l1, l2, rfl, -⟩ := List.lookup_eq_some_iff.mp hget
  simp

end Tables

section Elements

variable {h : OmHeap} {n : ℕ} {e e' : Element}

lemma elementAt_eq_some : elementAt h n = some e ↔
    (h.data n).nodeType = .element ∧ (h.data n).dataElement = some (.element e) := by
  unfold elementAt
  split
  next heq =>
    rw [heq]
    simp
  next hne =>
    simp only [reduceCtorEq, false_iff, not_and]
    intro ht hd
    apply hne e (h.data n).builder (h.data n).done
    rw [← ht, ← hd]

lemma setElement_self (he : elementAt h n = some e) : setElement h n e = h := by
  have hd := (elementAt_eq_some.mp he).2
  unfold setElement Heap.setData
  rw [← hd, Function.update_eq_self]

lemma elementAt_setElement (he : elementAt h n = some e) :
    elementAt (setElement h n e') n = some e' := by
  have ht := (elementAt_eq_some.mp he).1
  rw [elementAt_eq_some]
  simp [setElement, Heap.setData, ht]

lemma elementAt_setElement_ne {m : ℕ} (hm : m ≠ n) :
    elementAt (setElement h n e') m = elementAt h m := by
  unfold elementAt setElement Heap.setData
  simp [hm]

lemma setElement_setElement : setElement (setElement h n e) n e' = setElement h n e' := by
  unfold setElement Heap.setData
  simp

/-- The tables of declarations are kept under the prefixes. -/
def Keyed (h : OmHeap) : Prop :=
  ∀ m e, elementAt h m = some e → ∀ entry ∈ e.namespaces, entry.2.key = entry.1

lemma Keyed.setElement (hk : Keyed h) (he : elementAt h n = some e)
    (hkeys : ∀ entry ∈ e'.namespaces, entry.2.key = entry.1) : Keyed (setElement h n e') := by
  intro m e'' he''
  by_cases hm : m = n
  · subst hm
    rw [elementAt_setElement he] at he''
    obtain rfl := Option.some.inj he''
    exact hkeys
  · rw [elementAt_setElement_ne hm] at he''
    exact hk m e'' he''

/-- A prefix is found with the URI that was asked for. -/
lemma findNamespace_prefixed (hk : Keyed h) {uri key : String} (hkey : key ≠ "") {fuel m : ℕ}
    {ns : Namespace} (hfind : findNamespace h (some uri) (some key) fuel m = some ns) :
    ns.uri = uri ∧ ns.nsPrefix = some key := by
  induction fuel generalizing m with
  | zero => simp [findNamespace] at hfind
  | succ fuel ih =>
    unfold findNamespace at hfind
    cases hm : elementAt h m with
    | none => simp [hm] at hfind
    | some e =>
      simp only [hm] at hfind
      split at hfind
      · next found hfound =>
        subst hfind
        unfold findNamespaceHere at hfound
        split at hfound
        · simp at hfound
        · simp only [Option.getD_some, hkey, if_false, Option.bind_some,
            Option.map_eq_some_iff] at hfound
          obtain ⟨ns', hget, heq⟩ := hfound
          split at heq
          · next huri =>
            obtain rfl := Option.some.inj heq
            have hns := hk m e hm _ (mem_of_hashGet hget)
            refine ⟨huri, ?_⟩
            unfold Namespace.key at hns
            cases hp : ns'.nsPrefix with
            | none =>
              rw [hp] at hns
              exact absurd hns.symm hkey
            | some p => simpa [hp] using hns
          · simp at heq
      · obtain ⟨q, -, hq⟩ := Option.bind_eq_some_iff.mp hfind
        exact ih hq

end Elements

/-- What the data of an element does not touch. -/
structure SameFrame (b b' : Builder) : Prop where
  libxml2 : b'.libxml2 = b.libxml2
  used : b'.used = b.used
  lastNode : b'.lastNode = b.lastNode
  rootNode : b'.rootNode = b.rootNode
  documentRoot : b'.documentRoot = b.documentRoot
  done : b'.done = b.done
  elementLevel : b'.elementLevel = b.elementLevel

lemma SameFrame.rfl {b : Builder} : SameFrame b b :=
  ⟨.refl _, .refl _, .refl _, .refl _, .refl _, .refl _, .refl _⟩

lemma SameFrame.trans {b b' b'' : Builder} (h : SameFrame b b') (h' : SameFrame b' b'') :
    SameFrame b b'' :=
  ⟨h'.libxml2.trans h.libxml2, h'.used.trans h.used, h'.lastNode.trans h.lastNode,
    h'.rootNode.trans h.rootNode, h'.documentRoot.trans h.documentRoot, h'.done.trans h.done,
    h'.elementLevel.trans h.elementLevel⟩

section Frames

variable (n : ℕ) (b : Builder)

lemma declareOne_frame (declaration : Option String × String) :
    SameFrame b (declareOne n b declaration) := by
  unfold declareOne
  split
  · exact ⟨rfl, rfl, rfl, rfl, rfl, rfl, rfl⟩
  · exact ⟨rfl, rfl, rfl, rfl, rfl, rfl, rfl⟩

lemma attachAttribute_frame (a : ReaderAttribute) : SameFrame b (attachAttribute n b a) := by
  unfold attachAttribute
  split
  · exact ⟨rfl, rfl, rfl, rfl, rfl, rfl, rfl⟩
  · split
    · exact ⟨rfl, rfl, rfl, rfl, rfl, rfl, rfl⟩
    · exact ⟨rfl, rfl, rfl, rfl, rfl, rfl, rfl⟩

lemma setOwnNamespace_frame (nsPrefix : Option String) :
    SameFrame b (setOwnNamespace n b nsPrefix) := by
  unfold setOwnNamespace
  split
  · exact SameFrame.rfl
  · split
    · exact ⟨rfl, rfl, rfl, rfl, rfl, rfl, rfl⟩
    · split
      · exact SameFrame.rfl
      · exact ⟨rfl, rfl, rfl, rfl, rfl, rfl, rfl⟩

/-- What each turn of a loop does not touch, the loop does not touch. -/
lemma SameFrame.foldl {α : Type*} {f : Builder → α → Builder} (hf : ∀ b a, SameFrame b (f b a))
    (as : List α) : SameFrame b (as.foldl f b) := by
  induction as generalizing b with
  | nil => exact SameFrame.rfl
  | cons a as ih => exact (hf b a).trans (ih (f b a))

lemma fillElement_frame (tag : StartTag) (isEmpty : Bool) :
    SameFrame { b with lastNode := some n } (fillElement b n tag isEmpty) := by
  have h1 := SameFrame.foldl b (declareOne_frame n) tag.namespaces
  have h2 := setOwnNamespace_frame n (tag.namespaces.foldl (declareOne n) b) tag.nsPrefix
  have h3 := SameFrame.foldl (processNamespaces b n tag) (attachAttribute_frame n) tag.attributes
  have h := (h1.trans h2).trans h3
  exact ⟨h.libxml2, h.used, rfl, h.rootNode, h.documentRoot, h.done, h.elementLevel⟩

end Frames

section Editing

variable {b b' : Builder} {n : ℕ} {e e' : Element}

/-- The element at a node was edited: `e` became `e'`. -/
structure Edits (n : ℕ) (e e' : Element) (b b' : Builder) : Prop extends SameFrame b b' where
  heap : b'.heap = setElement b.heap n e'
  keyed : Keyed b.heap → Keyed b'.heap
  localName : e'.localName = e.localName

lemma Edits.elementAt (hedit : Edits n e e' b b') (he : elementAt b.heap n = some e) :
    elementAt b'.heap n = some e' := by
  rw [hedit.heap]
  exact elementAt_setElement he

lemma Edits.trans {e'' : Element} {b'' : Builder} (h1 : Edits n e e' b b')
    (h2 : Edits n e' e'' b' b'') : Edits n e e'' b b'' where
  toSameFrame := h1.toSameFrame.trans h2.toSameFrame
  heap := by rw [h2.heap, h1.heap, setElement_setElement]
  keyed hk := h2.keyed (h1.keyed hk)
  localName := h2.localName.trans h1.localName

lemma Edits.rfl (he : Om.elementAt b.heap n = some e) : Edits n e e b b where
  toSameFrame := SameFrame.rfl
  heap := (setElement_self he).symm
  keyed := id
  localName := .refl _

lemma declareNamespaceAssumeParamOwnership_eq (he : Om.elementAt b.heap n = some e)
    (ns : Namespace) : declareNamespaceAssumeParamOwnership b.heap n ns =
      setElement b.heap n { e with namespaces := hashSet e.namespaces ns.key ns } := by
  unfold declareNamespaceAssumeParamOwnership
  rw [he]

/-- Another declaration keeps the tables under the prefixes. -/
lemma keyed_declare (hk : Keyed b.heap) (he : Om.elementAt b.heap n = some e) (ns : Namespace) :
    ∀ entry ∈ hashSet e.namespaces ns.key ns, entry.2.key = entry.1 := by
  intro entry hentry
  obtain rfl | hentry := mem_hashSet hentry
  · rfl
  · exact hk n e he entry hentry

lemma declareOne_edits (he : Om.elementAt b.heap n = some e) (declaration : Option String × String) :
    ∃ table, Edits n e { e with namespaces := table } b (declareOne n b declaration) := by
  unfold declareOne
  split
  · simp only [declareNamespace]
    split
    · exact ⟨e.namespaces, ⟨⟨rfl, rfl, rfl, rfl, rfl, rfl, rfl⟩, (setElement_self he).symm, id, rfl⟩⟩
    · refine ⟨_, ⟨⟨rfl, rfl, rfl, rfl, rfl, rfl, rfl⟩,
        declareNamespaceAssumeParamOwnership_eq he _, fun hk => ?_, rfl⟩⟩
      simp only [declareNamespaceAssumeParamOwnership_eq he]
      exact hk.setElement he (keyed_declare hk he _)
  · refine ⟨_, ⟨⟨rfl, rfl, rfl, rfl, rfl, rfl, rfl⟩,
      declareNamespaceAssumeParamOwnership_eq he _, fun hk => ?_, rfl⟩⟩
    simp only [declareNamespaceAssumeParamOwnership_eq he]
    exact hk.setElement he (keyed_declare hk he _)

lemma declareAll_edits (declarations : List (Option String × String))
    (he : Om.elementAt b.heap n = some e) :
    ∃ table, Edits n e { e with namespaces := table } b (declarations.foldl (declareOne n) b) := by
  induction declarations generalizing b e with
  | nil => exact ⟨e.namespaces, Edits.rfl he⟩
  | cons declaration declarations ih =>
    obtain ⟨table, h1⟩ := declareOne_edits he declaration
    obtain ⟨table', h2⟩ := ih (h1.elementAt he)
    exact ⟨table', h1.trans h2⟩

/-- The namespace of the element is the one its prefix has in the builder's table. -/
lemma processNamespaces_edits (he : Om.elementAt b.heap n = some e) (hns : e.ns = none)
    (tag : StartTag) :
    ∃ table, Edits n e
      { e with
        namespaces := table
        ns := tag.nsPrefix.bind (hashGet (tag.namespaces.foldl (declareOne n) b).declaredNamespaces) }
      b (processNamespaces b n tag) := by
  obtain ⟨table, h1⟩ := declareAll_edits tag.namespaces he
  have he1 := h1.elementAt he
  refine ⟨table, ?_⟩
  unfold processNamespaces setOwnNamespace
  cases hp : tag.nsPrefix with
  | none =>
    simp only [Option.bind_none]
    rw [← hns]
    exact h1
  | some key =>
    simp only [Option.bind_some]
    cases hget : hashGet (tag.namespaces.foldl (declareOne n) b).declaredNamespaces key with
    | none =>
      simp only
      rw [← hns]
      exact ⟨⟨h1.libxml2, h1.used, h1.lastNode, h1.rootNode, h1.documentRoot, h1.done,
        h1.elementLevel⟩, h1.heap, h1.keyed, h1.localName⟩
    | some ns =>
      simp only [he1]
      refine h1.trans ⟨⟨rfl, rfl, rfl, rfl, rfl, rfl, rfl⟩, rfl, fun hk => ?_, rfl⟩
      exact hk.setElement he1 fun entry hentry => hk n _ he1 entry hentry

def ReaderAttribute.qname (a : ReaderAttribute) : QName :=
  ⟨a.localName, a.namespaceUri, if a.namespaceUri.isSome then a.nsPrefix else none⟩

def ReaderAttribute.Proper (a : ReaderAttribute) : Prop :=
  a.namespaceUri.isSome → ∃ key, a.nsPrefix = some key ∧ key ≠ ""

/-- `axiom_element_add_attr` adds the attribute and perhaps a declaration. -/
lemma addAttribute_edits (he : Om.elementAt b.heap n = some e) (fuel : ℕ) (a : Attribute) :
    ∃ table, addAttribute b.heap fuel n a = setElement b.heap n
        { e with namespaces := table, attributes := hashSet e.attributes a.qname a } ∧
      (Keyed b.heap → ∀ entry ∈ table, entry.2.key = entry.1) := by
  unfold addAttribute
  cases a.ns with
  | none => exact ⟨e.namespaces, by simp only [he], fun hk => hk n e he⟩
  | some ns =>
    by_cases hfind : findNamespace b.heap (some ns.uri) ns.nsPrefix fuel n = some ns
    · simp only [hfind, if_true]
      exact ⟨e.namespaces, by simp only [he], fun hk => hk n e he⟩
    · simp only [hfind, if_false]
      refine ⟨hashSet e.namespaces ns.key ns, ?_, fun hk => keyed_declare hk he ns⟩
      rw [declareNamespaceAssumeParamOwnership_eq he, elementAt_setElement he]
      exact setElement_setElement

/-- The attribute is kept under its name, with its value. -/
lemma attachAttribute_edits (he : Om.elementAt b.heap n = some e) (hk : Keyed b.heap)
    {a : ReaderAttribute} (hproper : a.Proper) :
    ∃ table attr, Edits n e
        { e with namespaces := table, attributes := hashSet e.attributes a.qname attr }
        b (attachAttribute n b a) ∧
      attr.qname = a.qname ∧ attr.value = a.value := by
  have hadd (attr : Attribute) (b' : Builder) (hframe : SameFrame b b')
      (hheap : b'.heap = addAttribute b.heap b.used n attr)
      (hname : attr.qname = a.qname) :
      ∃ table, Edits n e
        { e with namespaces := table, attributes := hashSet e.attributes a.qname attr }
        b b' := by
    obtain ⟨table, htable, hkeys⟩ := addAttribute_edits he b.used attr
    rw [hname] at htable
    refine ⟨table, ⟨hframe, hheap.trans htable, fun hk => ?_, rfl⟩⟩
    rw [hheap, htable]
    exact hk.setElement he (hkeys hk)
  unfold attachAttribute
  cases huri : a.namespaceUri with
  | none =>
    have hname : (⟨a.localName, a.value, none⟩ : Attribute).qname = a.qname := by
      simp [Attribute.qname, ReaderAttribute.qname, huri]
    obtain ⟨table, hedit⟩ := hadd ⟨a.localName, a.value, none⟩
      { b with heap := addAttribute b.heap b.used n ⟨a.localName, a.value, none⟩ }
      ⟨rfl, rfl, rfl, rfl, rfl, rfl, rfl⟩ rfl hname
    exact ⟨table, _, hedit, hname, rfl⟩
  | some uri =>
    obtain ⟨key, hpref, hkey⟩ := hproper (by rw [huri]; rfl)
    have hname (ns : Namespace) (hns : ns.uri = uri) (hnsp : ns.nsPrefix = some key) :
        (⟨a.localName, a.value, some ns⟩ : Attribute).qname = a.qname := by
      simp [Attribute.qname, ReaderAttribute.qname, huri, hns, hnsp, hpref]
    simp only [hpref]
    cases hfind : findNamespace b.heap (some uri) (some key) b.used n with
    | some ns =>
      obtain ⟨hns, hnsp⟩ := findNamespace_prefixed hk hkey hfind
      obtain ⟨table, hedit⟩ := hadd ⟨a.localName, a.value, some ns⟩
        { b with heap := addAttribute b.heap b.used n ⟨a.localName, a.value, some ns⟩ }
        ⟨rfl, rfl, rfl, rfl, rfl, rfl, rfl⟩ rfl (hname ns hns hnsp)
      exact ⟨table, _, hedit, hname ns hns hnsp, rfl⟩
    | none =>
      obtain ⟨table, hedit⟩ := hadd ⟨a.localName, a.value, some ⟨b.nsUsed, some key, uri⟩⟩
        { b with
          heap := addAttribute b.heap b.used n
            ⟨a.localName, a.value, some ⟨b.nsUsed, some key, uri⟩⟩
          nsUsed := b.nsUsed + 1 }
        ⟨rfl, rfl, rfl, rfl, rfl, rfl, rfl⟩ rfl (hname _ rfl rfl)
      exact ⟨table, _, hedit, hname _ rfl rfl, rfl⟩

/-- A start tag as a namespace-aware reader gives it: attributes in namespaces have
prefixes, and no two have the same name. -/
structure StartTag.Proper (tag : StartTag) : Prop where
  proper : ∀ a ∈ tag.attributes, a.Proper
  nodup : (tag.attributes.map ReaderAttribute.qname).Nodup

def Element.attributeValues (e : Element) : List (QName × String) :=
  e.attributes.map fun entry => (entry.1, entry.2.value)

lemma processAttributes_edits (attributes : List ReaderAttribute)
    (he : Om.elementAt b.heap n = some e) (hk : Keyed b.heap)
    (hproper : ∀ a ∈ attributes, a.Proper)
    (hnodup : (e.attributes.map Prod.fst ++ attributes.map ReaderAttribute.qname).Nodup) :
    ∃ e', Edits n e e' b (attributes.foldl (attachAttribute n) b) ∧ e'.ns = e.ns ∧
      e'.attributeValues = e.attributeValues ++ attributes.map fun a => (a.qname, a.value) := by
  induction attributes generalizing b e with
  | nil => exact ⟨e, Edits.rfl he, rfl, by simp⟩
  | cons a attributes ih =>
    obtain ⟨table, attr, h1, hname, hvalue⟩ :=
      attachAttribute_edits he hk (hproper a (by simp))
    have hfresh : a.qname ∉ e.attributes.map Prod.fst := by
      intro hmem
      exact (List.nodup_append.mp hnodup).2.2 _ hmem _ (by simp) rfl
    rw [hashSet_fresh hfresh] at h1
    obtain ⟨e', h2, hns, hvalues⟩ := ih (h1.elementAt he) (h1.keyed hk)
      (fun a' ha' => hproper a' (by simp [ha'])) (by simpa using hnodup)
    refine ⟨e', h1.trans h2, hns, ?_⟩
    rw [hvalues]
    simp [Element.attributeValues, hvalue]

/-- An attribute is kept under some name, whatever the reader gives. -/
lemma attachAttribute_loose (he : Om.elementAt b.heap n = some e) (a : ReaderAttribute) :
    ∃ e', Edits n e e' b (attachAttribute n b a) ∧ e'.ns = e.ns := by
  have hadd (attr : Attribute) (b' : Builder) (hframe : SameFrame b b')
      (hheap : b'.heap = addAttribute b.heap b.used n attr) :
      ∃ e', Edits n e e' b b' ∧ e'.ns = e.ns := by
    obtain ⟨table, htable, hkeys⟩ := addAttribute_edits he b.used attr
    refine ⟨_, ⟨hframe, hheap.trans htable, fun hk => ?_, rfl⟩, rfl⟩
    rw [hheap, htable]
    exact hk.setElement he (hkeys hk)
  have hframe := attachAttribute_frame n b a
  unfold attachAttribute at hframe ⊢
  split at hframe
  · exact hadd ⟨a.localName, a.value, none⟩ _ hframe rfl
  · rename_i uri _
    split at hframe
    · rename_i ns _
      exact hadd ⟨a.localName, a.value, some ns⟩ _ hframe rfl
    · exact hadd ⟨a.localName, a.value, some ⟨b.nsUsed, a.nsPrefix, uri⟩⟩ _ hframe rfl

lemma processAttributes_loose (attributes : List ReaderAttribute)
    (he : Om.elementAt b.heap n = some e) :
    ∃ e', Edits n e e' b (attributes.foldl (attachAttribute n) b) ∧ e'.ns = e.ns := by
  induction attributes generalizing b e with
  | nil => exact ⟨e, Edits.rfl he, rfl⟩
  | cons a attributes ih =>
    obtain ⟨e', h1, hns⟩ := attachAttribute_loose he a
    obtain ⟨e'', h2, hns'⟩ := ih (h1.elementAt he)
    exact ⟨e'', h1.trans h2, hns'.trans hns⟩

/-- The element with its data. Two attributes of one name would share an entry. -/
lemma processTag_edits (tag : StartTag) (he : Om.elementAt b.heap n = some e)
    (hk : Keyed b.heap) (hns : e.ns = none) (hattributes : e.attributes = []) :
    ∃ e', Edits n e e' b (processAttributes (processNamespaces b n tag) n tag) ∧
      e'.ns = tag.nsPrefix.bind
        (hashGet (tag.namespaces.foldl (declareOne n) b).declaredNamespaces) ∧
      (tag.Proper →
        e'.attributeValues = tag.attributes.map fun a => (a.qname, a.value)) := by
  obtain ⟨table, h1⟩ := processNamespaces_edits he hns tag
  by_cases htag : tag.Proper
  · obtain ⟨e', h2, hns', hvalues⟩ := processAttributes_edits tag.attributes (h1.elementAt he)
      (h1.keyed hk) htag.proper (by simpa [hattributes] using htag.nodup)
    exact ⟨e', h1.trans h2, hns',
      fun _ => by simpa [Element.attributeValues, hattributes] using hvalues⟩
  · obtain ⟨e', h2, hns'⟩ := processAttributes_loose tag.attributes (h1.elementAt he)
    exact ⟨e', h1.trans h2, hns', fun htag' => (htag htag').elim⟩

/-- A new element gets its name and its attributes, and is the last node. -/
lemma fillElement_spec (tag : StartTag)
    (he : Om.elementAt b.heap n = some ⟨tag.name, none, [], [], false⟩) (hk : Keyed b.heap)
    (isEmpty : Bool) :
    ∃ e, (fillElement b n tag isEmpty).heap = setElement b.heap n e ∧
      Keyed (fillElement b n tag isEmpty).heap ∧
      SameFrame { b with lastNode := some n } (fillElement b n tag isEmpty) ∧
      e.localName = tag.name ∧
      e.ns = tag.nsPrefix.bind
        (hashGet (tag.namespaces.foldl (declareOne n) b).declaredNamespaces) ∧
      (tag.Proper →
        e.attributeValues = tag.attributes.map fun a => (a.qname, a.value)) := by
  obtain ⟨e, hedit, hns, hvalues⟩ := processTag_edits tag he hk rfl rfl
  have he' := hedit.elementAt he
  have hk' := hedit.keyed hk
  have hheap : (fillElement b n tag isEmpty).heap =
      setElement (processAttributes (processNamespaces b n tag) n tag).heap n
        { e with isEmpty := isEmpty } := by
    unfold fillElement setIsEmpty
    simp only [he']
  refine ⟨{ e with isEmpty := isEmpty }, ?_, ?_, ?_, hedit.localName, hns, hvalues⟩
  · rw [hheap, hedit.heap, setElement_setElement]
  · rw [hheap]
    exact hk'.setElement he' fun entry hentry => hk' n e he' entry hentry
  · exact fillElement_frame n b tag isEmpty

end Editing

end Axis2C.Om
