import Axis2C.OmDetach

/-!
# The names of a detached subtree

A detached element declares again what its subtree uses as explicit namespaces of
elements and attributes. What an element or an attribute only inherits by a prefix is
not looked at.
-/
namespace Axis2C.Om

section Users

/-- A namespace object that an element or one of its attributes has. -/
def Uses (h : OmHeap) (d : ℕ) (ns : Namespace) : Prop :=
  ∃ e, elementAt h d = some e ∧ (e.ns = some ns ∨ ∃ entry ∈ e.attributes, entry.2.ns = some ns)

/-- The elements from a node up to the root of the subtree, both included. -/
inductive Lineage (h : OmHeap) (root : ℕ) : ℕ → List ℕ → Prop where
  | root : (elementAt h root).isSome → Lineage h root root [root]
  | child {p c : ℕ} {ms : List ℕ} : Lineage h root p ms → ChildOf h c p →
      (elementAt h c).isSome → Lineage h root c (c :: ms)

def useAll (lookup root : ℕ) (s : OmHeap × List (String × Namespace))
    (uses : List (ℕ × Namespace)) : OmHeap × List (String × Namespace) :=
  uses.foldl (fun s u => useParentNamespace lookup root u.1 s (some u.2)) s

end Users

section Fold

variable {h : OmHeap} {root lookup : ℕ} {e : Element} {above : String → Option Namespace}

/-- The table of the root and the namespaces in scope, when the prefixes in `again` were
declared again. -/
structure Stage (e : Element) (above : String → Option Namespace) (again : String → Prop)
    (t inscope : List (String × Namespace)) : Prop where
  keyed : ∀ entry ∈ t, entry.2.key = entry.1
  moved : ∀ q, again q → hashGet inscope q = none ∧ hashGet t q = above q
  rest : ∀ q, ¬ again q → hashGet inscope q = above q ∧ hashGet t q = hashGet e.namespaces q

/-- A use that makes its namespace be declared again: the object is the one from above,
and the subtree does not have it. -/
def Calls (h : OmHeap) (lookup : ℕ) (above : String → Option Namespace) (u : ℕ × Namespace)
    (q : String) : Prop :=
  u.2.key = q ∧ above q = some u.2 ∧ findNamespaceUri h q lookup u.1 ≠ some u.2

section

variable (hk : Keyed h) (he : elementAt h root = some e) {again : String → Prop}
  {t inscope : List (String × Namespace)} (hs : Stage e above again t inscope)

include hk he hs

lemma Stage.use (u : ℕ × Namespace) :
    ∃ t' inscope', useParentNamespace lookup root u.1 (retable h root e t, inscope) (some u.2) =
        (retable h root e t', inscope') ∧
      Stage e above (fun q => again q ∨ Calls h lookup above u q) t' inscope' := by
  obtain ⟨d, ns⟩ := u
  have hsame (hno : ∀ q, Calls h lookup above (d, ns) q → again q) :
      Stage e above (fun q => again q ∨ Calls h lookup above (d, ns) q) t inscope := by
    refine ⟨hs.keyed, fun q hq => hs.moved q (hq.elim id (hno q)), fun q hq => hs.rest q ?_⟩
    exact fun hagain => hq (.inl hagain)
  unfold useParentNamespace
  simp only
  by_cases hagain : again ns.key
  · rw [(hs.moved ns.key hagain).1]
    exact ⟨t, inscope, rfl, hsame fun q hcalls => hcalls.1 ▸ hagain⟩
  · obtain ⟨hinscope, htable⟩ := hs.rest ns.key hagain
    have hfind : findNamespace (retable h root e t) (some ns.uri) ns.nsPrefix lookup d = some ns ↔
        findNamespaceUri h ns.key lookup d = some ns := by
      rw [findNamespace_iff (retable_keyed hk he hs.keyed), findNamespaceUri_retable he htable]
    rw [hinscope]
    cases habove : above ns.key with
    | none =>
      refine ⟨t, inscope, rfl, hsame fun q hcalls => ?_⟩
      obtain ⟨rfl, hsome, -⟩ := hcalls
      simp [habove] at hsome
    | some parentNs =>
      simp only
      split
      · rename_i hfires
        obtain ⟨rfl, hne⟩ := hfires
        have hcalls : Calls h lookup above (d, parentNs) parentNs.key :=
          ⟨rfl, habove, fun heq => hne (hfind.mpr heq)⟩
        refine ⟨_, _, by rw [retable_declare he], ?_, fun q hq => ?_, fun q hq => ?_⟩
        · intro entry hentry
          obtain rfl | hentry := mem_hashSet hentry
          · rfl
          · exact hs.keyed entry hentry
        · rw [hashGet_hashUnset, hashGet_hashSet]
          by_cases hkey : q = parentNs.key
          · simp [hkey, habove]
          · simp only [hkey, if_false]
            exact hs.moved q (hq.elim id fun hc => (hkey hc.1.symm).elim)
        · rw [hashGet_hashUnset, hashGet_hashSet]
          have hkey : q ≠ parentNs.key := fun heq => hq (.inr (heq ▸ hcalls))
          simp only [hkey, if_false]
          exact hs.rest q fun hagain => hq (.inl hagain)
      · rename_i hno
        refine ⟨t, inscope, rfl, hsame fun q hcalls => (hno ?_).elim⟩
        obtain ⟨rfl, hsome, hne⟩ := hcalls
        have heq : parentNs = ns := Option.some.inj (habove.symm.trans hsome)
        exact ⟨heq, fun h' => hne (hfind.mp h')⟩

lemma Stage.useAll (uses : List (ℕ × Namespace)) :
    ∃ t' inscope', useAll lookup root (retable h root e t, inscope) uses =
        (retable h root e t', inscope') ∧
      Stage e above (fun q => again q ∨ ∃ u ∈ uses, Calls h lookup above u q) t' inscope' := by
  induction uses generalizing again t inscope with
  | nil => exact ⟨t, inscope, rfl, by simpa using hs⟩
  | cons u uses ih =>
    obtain ⟨t1, i1, h1, hs1⟩ := hs.use hk he u
    obtain ⟨t2, i2, h2, hs2⟩ := ih hs1
    refine ⟨t2, i2, ?_, ?_⟩
    · rw [← h2, ← h1]
      rfl
    · refine ⟨hs2.keyed, fun q hq => hs2.moved q ?_, fun q hq => hs2.rest q fun hq' => hq ?_⟩
      · obtain hq | ⟨u', hu', hcalls⟩ := hq
        · exact .inl (.inl hq)
        · obtain rfl | hu' := List.mem_cons.mp hu'
          · exact .inl (.inr hcalls)
          · exact .inr ⟨u', hu', hcalls⟩
      · obtain (hq' | hcalls) | ⟨u', hu', hcalls⟩ := hq'
        · exact .inl hq'
        · exact .inr ⟨u, by simp, hcalls⟩
        · exact .inr ⟨u', by simp [hu'], hcalls⟩

end

/-- Without a namespace in scope nothing is done. -/
lemma useAll_empty (h : OmHeap) (uses : List (ℕ × Namespace)) :
    useAll lookup root (h, []) uses = (h, []) := by
  induction uses with
  | nil => rfl
  | cons u uses ih =>
    have hstep : useParentNamespace lookup root u.1 (h, []) (some u.2) = (h, []) := rfl
    rw [Om.useAll, List.foldl_cons, hstep]
    exact ih

lemma useAll_append (s : OmHeap × List (String × Namespace)) (uses uses' : List (ℕ × Namespace)) :
    useAll lookup root s (uses ++ uses') = useAll lookup root (useAll lookup root s uses) uses' :=
  List.foldl_append ..

/-- The uses leave a heap with another table. -/
lemma useAll_retable (he : elementAt h root = some e) (t inscope : List (String × Namespace))
    (uses : List (ℕ × Namespace)) :
    ∃ t' inscope', useAll lookup root (retable h root e t, inscope) uses =
      (retable h root e t', inscope') := by
  induction uses generalizing t inscope with
  | nil => exact ⟨t, inscope, rfl⟩
  | cons u uses ih =>
    obtain ⟨t1, i1, h1⟩ : ∃ t1 i1, useParentNamespace lookup root u.1
        (retable h root e t, inscope) (some u.2) = (retable h root e t1, i1) := by
      unfold useParentNamespace
      simp only
      cases hashGet inscope u.2.key with
      | none => exact ⟨t, inscope, rfl⟩
      | some parentNs =>
        simp only
        split
        · exact ⟨_, _, by rw [retable_declare he]⟩
        · exact ⟨t, inscope, rfl⟩
    obtain ⟨t2, i2, h2⟩ := ih t1 i1
    refine ⟨t2, i2, ?_⟩
    rw [← h2, ← h1]
    rfl

end Fold

section Walk

variable {h : OmHeap} {root lookup n : ℕ} {e : Element}

def ownUses (d : ℕ) (e : Element) : List (ℕ × Namespace) :=
  (e.ns.toList ++ e.attributes.filterMap (·.2.ns)).map fun ns => (d, ns)

lemma mem_ownUses {d d' : ℕ} {e : Element} {ns : Namespace} :
    (d', ns) ∈ ownUses d e ↔
      d' = d ∧ (e.ns = some ns ∨ ∃ entry ∈ e.attributes, entry.2.ns = some ns) := by
  simp only [ownUses, List.mem_map, List.mem_append, Option.mem_toList, List.mem_filterMap,
    Prod.mk.injEq]
  constructor
  · rintro ⟨ns', hns, rfl, rfl⟩
    exact ⟨rfl, hns⟩
  · rintro ⟨rfl, hns⟩
    exact ⟨ns, hns, rfl, rfl⟩

/-- The calls for an element and its attributes. -/
lemma useAll_own (s : OmHeap × List (String × Namespace)) (d : ℕ) (e : Element) :
    e.attributes.foldl (fun s entry => useParentNamespace lookup root d s entry.2.ns)
        (useParentNamespace lookup root d s e.ns) =
      useAll lookup root s (ownUses d e) := by
  have hattributes (attributes : List (QName × Attribute))
      (s : OmHeap × List (String × Namespace)) :
      attributes.foldl (fun s entry => useParentNamespace lookup root d s entry.2.ns) s =
        useAll lookup root s ((attributes.filterMap (·.2.ns)).map fun ns => (d, ns)) := by
    induction attributes generalizing s with
    | nil => rfl
    | cons entry attributes ih =>
      rw [List.foldl_cons, ih, List.filterMap_cons]
      cases entry.2.ns <;> rfl
  rw [hattributes, ownUses, List.map_append, useAll_append]
  cases e.ns <;> rfl

lemma Lineage.element {d : ℕ} {ms : List ℕ} (hl : Lineage h root d ms) :
    (elementAt h d).isSome := by
  cases hl with
  | root he | child _ _ he => exact he

lemma Lineage.top {d : ℕ} {ms : List ℕ} (hl : Lineage h root d ms) :
    (elementAt h root).isSome := by
  induction hl with
  | root he => exact he
  | child _ _ _ ih => exact ih

/-- A lineage ends at the root, or it comes from one of its children. -/
lemma lineage_iff {d : ℕ} {ms : List ℕ} :
    Lineage h n d ms ↔ (elementAt h n).isSome ∧
      (d = n ∧ ms = [n] ∨ ∃ c ms', ChildOf h c n ∧ Lineage h c d ms' ∧ ms = ms' ++ [n]) := by
  constructor
  · intro hl
    refine ⟨hl.top, ?_⟩
    induction hl with
    | root _ => exact .inl ⟨rfl, rfl⟩
    | @child p c ms hl hc he ih =>
      right
      obtain ⟨rfl, rfl⟩ | ⟨c', ms', hc', hl', rfl⟩ := ih
      · exact ⟨c, [c], hc, .root he, rfl⟩
      · exact ⟨c', c :: ms', hc', .child hl' hc he, rfl⟩
  · rintro ⟨hn, ⟨rfl, rfl⟩ | ⟨c, ms', hc, hl, rfl⟩⟩
    · exact .root hn
    · induction hl with
      | root he => exact .child (.root hn) hc he
      | child _ hc' he' ih => exact .child ih hc' he'

/-- What the walk below a node does: it makes the calls for the uses of its lineages. -/
structure WalkSpec (h : OmHeap) (root : ℕ) (e : Element) (us : List (ℕ × Namespace)) (bound : ℕ)
    (members : ℕ → List ℕ → Prop)
    (walk : ℕ → ℕ → OmHeap × List (String × Namespace) →
      Option (OmHeap × List (String × Namespace))) : Prop where
  uses : ∀ d ns, (d, ns) ∈ us ↔ (∃ ms, members d ms) ∧ Uses h d ns
  short : ∀ d ms, members d ms → ms.length ≤ bound
  walk : ∀ fuel, bound ≤ fuel → ∀ lookup t inscope,
    walk lookup fuel (retable h root e t, inscope) =
      some (useAll lookup root (retable h root e t, inscope) us)

lemma retable_nodeType (t : List (String × Namespace)) (m : ℕ) :
    ((retable h root e t).data m).nodeType = (h.data m).nodeType := by
  unfold retable setElement Heap.setData
  by_cases hm : m = root <;> simp [hm]

lemma nodeType_of_elementAt {m : ℕ} (hm : (elementAt h m).isSome) :
    (h.data m).nodeType = .element := by
  obtain ⟨em, hem⟩ := Option.isSome_iff_exists.mp hm
  exact (elementAt_eq_some.mp hem).1

/-- A child that is no element is passed over. -/
lemma walk_plain (he : elementAt h root = some e) {c : ℕ} (hc : elementAt h c = none) :
    ∃ bound, WalkSpec h root e [] bound (Lineage h c) fun lookup fuel s =>
      if (s.1.data c).nodeType = .element then redeclareParentNamespaces lookup root fuel s c
      else some s := by
  have hnone {d : ℕ} {ms : List ℕ} : ¬ Lineage h c d ms := by
    intro hl
    simpa [hc] using hl.top
  refine ⟨1, ⟨fun d ns => ?_, fun d ms hl => (hnone hl).elim, fun fuel hfuel lookup t inscope => ?_⟩⟩
  · simp [hnone]
  · obtain ⟨k, rfl⟩ : ∃ k, fuel = k + 1 := ⟨fuel - 1, by omega⟩
    have hc' : elementAt (retable h root e t) c = none := by
      have hsome := elementAt_retable_isSome he t c
      rw [hc] at hsome
      simpa using hsome
    simp only
    split
    · unfold redeclareParentNamespaces
      simp only [hc']
      rfl
    · rfl

lemma redeclareChildren_spec (he : elementAt h root = some e) {cs : List ℕ}
    {before : Option ℕ} (hlinked : DoublyLinked.Linked h.next h.prev before cs none)
    (hsub : ∀ c ∈ cs, (elementAt h c).isSome → ∃ us bound,
      WalkSpec h root e us bound (Lineage h c)
        fun lookup fuel s => redeclareParentNamespaces lookup root fuel s c) :
    ∃ us bound, WalkSpec h root e us bound (fun d ms => ∃ c ∈ cs, Lineage h c d ms)
      fun lookup fuel s => redeclareChildren lookup root fuel s cs.head? := by
  induction cs generalizing before with
  | nil =>
    refine ⟨[], 0, ⟨by simp, by simp, fun fuel _ lookup t inscope => ?_⟩⟩
    simp only [List.head?_nil]
    cases fuel <;> rfl
  | cons c cs ih =>
    obtain ⟨-, hnext, hlinked'⟩ := hlinked
    rw [Option.or_none] at hnext
    obtain ⟨us', bound', hspec'⟩ := ih hlinked' fun c' hc' => hsub c' (by simp [hc'])
    obtain ⟨us, bound, hspec⟩ : ∃ us bound, WalkSpec h root e us bound (Lineage h c)
        fun lookup fuel s =>
          if (s.1.data c).nodeType = .element then redeclareParentNamespaces lookup root fuel s c
          else some s := by
      cases hc : elementAt h c with
      | none =>
        obtain ⟨bound, hspec⟩ := walk_plain he hc
        exact ⟨[], bound, hspec⟩
      | some ec =>
        obtain ⟨us, bound, hspec⟩ := hsub c (by simp) (by simp [hc])
        refine ⟨us, bound, ⟨hspec.uses, hspec.short, fun fuel hfuel lookup t inscope => ?_⟩⟩
        have htype := nodeType_of_elementAt (h := h) (m := c) (by simp [hc])
        simp only [retable_nodeType, htype, if_true]
        exact hspec.walk fuel hfuel lookup t inscope
    refine ⟨us ++ us', max bound bound' + 1, ⟨fun d ns => ?_, fun d ms hmem => ?_,
      fun fuel hfuel lookup t inscope => ?_⟩⟩
    · rw [List.mem_append, hspec.uses, hspec'.uses]
      constructor
      · rintro (⟨⟨ms, hl⟩, hu⟩ | ⟨⟨ms, c', hc', hl⟩, hu⟩)
        · exact ⟨⟨ms, c, by simp, hl⟩, hu⟩
        · exact ⟨⟨ms, c', by simp [hc'], hl⟩, hu⟩
      · rintro ⟨⟨ms, c', hc', hl⟩, hu⟩
        obtain rfl | hc' := List.mem_cons.mp hc'
        · exact .inl ⟨⟨ms, hl⟩, hu⟩
        · exact .inr ⟨⟨ms, c', hc', hl⟩, hu⟩
    · obtain ⟨c', hc', hl⟩ := hmem
      obtain rfl | hc' := List.mem_cons.mp hc'
      · have := hspec.short d ms hl
        omega
      · have := hspec'.short d ms ⟨c', hc', hl⟩
        omega
    · obtain ⟨k, rfl⟩ : ∃ k, fuel = k + 1 := ⟨fuel - 1, by omega⟩
      obtain ⟨t', inscope', hown⟩ := useAll_retable he t inscope us
      have hfirst := hspec.walk k (by omega) lookup t inscope
      simp only at hfirst
      simp only [List.head?_cons, redeclareChildren]
      rw [hfirst, useAll_append, hown, Option.bind_some]
      split
      · rename_i hempty
        obtain rfl := List.isEmpty_iff.mp hempty
        rw [useAll_empty] at hown
        obtain ⟨hheap, rfl⟩ := Prod.mk.inj hown
        rw [← hheap, useAll_empty]
      · have hnext' : (retable h root e t').next c = cs.head? := hnext
        rw [hnext']
        exact hspec'.walk k (by omega) lookup t' inscope'

/-- `axiom_element_redeclare_parent_namespaces` returns, and makes the calls for all uses
below a node. -/
theorem redeclare_spec (hf : Forest h) (he : elementAt h root = some e) (hn : h.live n = true)
    (helement : (elementAt h n).isSome) :
    ∃ us bound, WalkSpec h root e us bound (Lineage h n)
      fun lookup fuel s => redeclareParentNamespaces lookup root fuel s n := by
  induction n using hf.acyclic.induction with
  | h n ih =>
    obtain ⟨cs, hcs⟩ := hf.children n hn
    obtain ⟨us, bound, hspec⟩ := redeclareChildren_spec he hcs.linked fun c hc hec =>
      ih c ((hcs.members c).mp hc) ((hcs.members c).mp hc).1 hec
    obtain ⟨en, hen⟩ := Option.isSome_iff_exists.mp helement
    refine ⟨ownUses n en ++ us, bound + 1, ⟨fun d ns => ?_, fun d ms hl => ?_,
      fun fuel hfuel lookup t inscope => ?_⟩⟩
    · rw [List.mem_append, mem_ownUses, hspec.uses]
      constructor
      · rintro (⟨rfl, hu⟩ | ⟨⟨ms, c, hc, hl⟩, hu⟩)
        · exact ⟨⟨[d], .root helement⟩, en, hen, hu⟩
        · exact ⟨⟨ms ++ [n], lineage_iff.mpr
            ⟨helement, .inr ⟨c, ms, (hcs.members c).mp hc, hl, rfl⟩⟩⟩, hu⟩
      · rintro ⟨⟨ms, hl⟩, hu⟩
        obtain ⟨-, ⟨rfl, rfl⟩ | ⟨c, ms', hc, hl', rfl⟩⟩ := lineage_iff.mp hl
        · obtain ⟨ed, hed, hu⟩ := hu
          obtain rfl := Option.some.inj (hen.symm.trans hed)
          exact .inl ⟨rfl, hu⟩
        · exact .inr ⟨⟨ms', c, (hcs.members c).mpr hc, hl'⟩, hu⟩
    · obtain ⟨-, ⟨rfl, rfl⟩ | ⟨c, ms', hc, hl', rfl⟩⟩ := lineage_iff.mp hl
      · simp
      · have := hspec.short d ms' ⟨c, (hcs.members c).mpr hc, hl'⟩
        simp only [List.length_append, List.length_singleton]
        omega
    · obtain ⟨k, rfl⟩ : ∃ k, fuel = k + 1 := ⟨fuel - 1, by omega⟩
      obtain ⟨en', hen', hns, hattributes⟩ : ∃ en', elementAt (retable h root e t) n = some en' ∧
          en'.ns = en.ns ∧ en'.attributes = en.attributes := by
        rw [elementAt_retable he]
        by_cases hroot : n = root
        · subst hroot
          obtain rfl := Option.some.inj (he.symm.trans hen)
          exact ⟨_, if_pos rfl, rfl, rfl⟩
        · exact ⟨en, (if_neg hroot).trans hen, rfl, rfl⟩
      have hown : ownUses n en' = ownUses n en := by
        unfold ownUses
        rw [hns, hattributes]
      obtain ⟨t', inscope', huse⟩ := useAll_retable he t inscope (ownUses n en)
      simp only [redeclareParentNamespaces, hen', useAll_own, hown]
      rw [useAll_append, huse]
      have hfirst : (retable h root e t').firstChild n = cs.head? := hcs.first
      rw [hfirst]
      exact hspec.walk k (by omega) lookup t' inscope'

end Walk

section Names

/-- What the lookup of a prefix gives, with enough fuel. -/
def Resolves (h : OmHeap) (q : String) (d : ℕ) (r : Option Namespace) : Prop :=
  ∃ bound, ∀ fuel, bound ≤ fuel → findNamespaceUri h q fuel d = r

/-- What `axiom_element_get_namespace` gives, with enough fuel. -/
def HasNamespace (h : OmHeap) (d : ℕ) (r : Option Namespace) : Prop :=
  ∃ bound, ∀ fuel, bound ≤ fuel → getNamespace h fuel d = r

/-- Every namespace object that the subtree uses has the URI of the nearest declaration
of its prefix. -/
def InScope (h : OmHeap) (root : ℕ) : Prop :=
  ∀ d ns, Below h d root → Uses h d ns → ∃ ns', Resolves h ns.key d (some ns') ∧ ns'.uri = ns.uri

/-- The elements of the subtree have the URIs they had, the prefixes of attributes resolve
to the URIs of their namespaces, and no declaration is overwritten. -/
structure NamesKept (h h' : OmHeap) (root : ℕ) : Prop where
  names : ∀ d r, Below h d root → HasNamespace h d r →
    ∃ r', HasNamespace h' d r' ∧ r'.map Namespace.uri = r.map Namespace.uri
  attributes : ∀ d ed entry ns, Below h d root → elementAt h d = some ed →
    entry ∈ ed.attributes → entry.2.ns = some ns → ns.key ≠ "" →
    ∃ ns', Resolves h' ns.key d (some ns') ∧ ns'.uri = ns.uri
  declarations : ∀ d q ns, Below h d root → declared h q d = some ns →
    ∃ ns', declared h' q d = some ns' ∧ ns'.uri = ns.uri

/-- A prefix that is declared again: an element of the subtree or one of its attributes
has the very object that is declared above the root, and does not find it inside. -/
def Redeclared (h : OmHeap) (root : ℕ) (above : List ℕ) (q : String) : Prop :=
  ∃ d ms ns, Lineage h root d ms ∧ Uses h d ns ∧ ns.key = q ∧
    above.findSome? (declared h q) = some ns ∧ ms.findSome? (declared h q) ≠ some ns

/-- A prefix that an element looks up: the empty one for an element without a namespace of
its own, and those of its attributes. -/
def Needs (h : OmHeap) (d : ℕ) (q : String) : Prop :=
  ∃ ed, elementAt h d = some ed ∧
    (ed.ns = none ∧ q = "" ∨
      ∃ entry ∈ ed.attributes, ∃ ns, entry.2.ns = some ns ∧ ns.key = q ∧ q ≠ "")

/-- Every prefix that the subtree inherits from above is declared again, and none with
another URI than the root declares. -/
structure Covered (h : OmHeap) (root : ℕ) (above : List ℕ) : Prop where
  needs : ∀ d ms q, Lineage h root d ms → Needs h d q → ms.findSome? (declared h q) = none →
    (above.findSome? (declared h q)).isSome → Redeclared h root above q
  clashes : ∀ q ns, declared h q root = some ns → Redeclared h root above q →
    (above.findSome? (declared h q)).map Namespace.uri = some ns.uri

end Names

section Cut

variable {h : OmHeap} {root d : ℕ} {e : Element} {ms above : List ℕ} {q : String}

lemma detach_data (h : OmHeap) (n : ℕ) : (detachWithoutNamespaces h n).data = h.data := by
  unfold detachWithoutNamespaces
  cases h.parent n with
  | none => rfl
  | some p =>
    cases h.prev n <;> cases h.next n <;> simp only <;> split <;> rfl

lemma elementAt_detach (h : OmHeap) (n m : ℕ) :
    elementAt (detachWithoutNamespaces h n) m = elementAt h m := by
  unfold elementAt
  rw [detach_data]

lemma declared_detach (h : OmHeap) (n m : ℕ) :
    declared (detachWithoutNamespaces h n) q m = declared h q m := by
  unfold declared
  rw [elementAt_detach]

lemma Lineage.isBelow (hl : Lineage h root d ms) : Below h d root := by
  induction hl with
  | root _ => exact .refl
  | child _ hc _ ih => exact ih.head hc

/-- No node is above itself. -/
lemma Forest.not_cycle (hf : Forest h) {c p : ℕ} (hc : ChildOf h c p) (hb : Below h p c) :
    False := by
  have hcycle : Relation.TransGen (ChildOf h) c c := Relation.TransGen.head' hc hb
  exact hf.acyclic.transGen.irrefl.irrefl c hcycle

section

variable (hl : Lineage h root d ms) (ha : Ancestors h root above)

include hl ha

lemma Lineage.ancestors : ∃ tail, ms = d :: tail ∧ Ancestors h d (tail ++ above) := by
  induction hl with
  | root _ => exact ⟨[], rfl, ha⟩
  | @child p c ms hl hc _ ih =>
    obtain ⟨tail, rfl, htail⟩ := ih
    refine ⟨p :: tail, rfl, ?_, htail⟩
    simp [parentElement, hc.2, hl.element]

/-- The lookup from a node of the subtree. -/
lemma Lineage.findNamespaceUri {fuel : ℕ} (hfuel : ms.length + above.length ≤ fuel) :
    findNamespaceUri h q fuel d = (ms ++ above).findSome? (declared h q) := by
  obtain ⟨tail, rfl, htail⟩ := hl.ancestors ha
  rw [findNamespaceUri_eq hl.element htail (by
    simp only [List.length_cons, List.length_append] at hfuel ⊢
    omega)]
  rfl

lemma Lineage.resolves : Resolves h q d ((ms ++ above).findSome? (declared h q)) :=
  ⟨ms.length + above.length, fun _ hfuel => hl.findNamespaceUri ha hfuel⟩

end

lemma Resolves.unique {r r' : Option Namespace} (h1 : Resolves h q d r) (h2 : Resolves h q d r') :
    r = r' := by
  obtain ⟨b1, h1⟩ := h1
  obtain ⟨b2, h2⟩ := h2
  exact (h1 (max b1 b2) (le_max_left _ _)).symm.trans (h2 (max b1 b2) (le_max_right _ _))

/-- Cutting the root off keeps the lineages. -/
lemma lineage_detach (hf : Forest h) (hlive : h.live root = true) :
    Lineage (detachWithoutNamespaces h root) root d ms ↔ Lineage h root d ms := by
  obtain ⟨-, hlive', hparent⟩ := hf.detach hlive
  constructor
  · intro hl
    induction hl with
    | root he => exact .root (by rwa [elementAt_detach] at he)
    | child _ hc he ih =>
      obtain ⟨hc1, hc2⟩ := hc
      rw [hlive'] at hc1
      rw [hparent] at hc2
      split_ifs at hc2
      exact .child ih ⟨hc1, hc2⟩ (by rwa [elementAt_detach] at he)
  · intro hl
    induction hl with
    | root he => exact .root (by rwa [elementAt_detach])
    | @child p c ms hl hc he ih =>
      have hne : c ≠ root := by
        rintro rfl
        exact hf.not_cycle hc hl.isBelow
      refine .child ih ⟨by rw [hlive']; exact hc.1, ?_⟩ (by rwa [elementAt_detach])
      rw [hparent, if_neg hne]
      exact hc.2

/-- The root stands at the end of a lineage, and nowhere else. -/
lemma Lineage.split (hl : Lineage h root d ms) (hroot : h.parent root = none) :
    ∃ ms₀, ms = ms₀ ++ [root] ∧ root ∉ ms₀ := by
  induction hl with
  | root _ => exact ⟨[], rfl, by simp⟩
  | @child p c ms _ hc _ ih =>
    obtain ⟨ms₀, rfl, hno⟩ := ih
    refine ⟨c :: ms₀, rfl, ?_⟩
    rw [List.mem_cons, not_or]
    refine ⟨?_, hno⟩
    rintro rfl
    simp [hc.2] at hroot

lemma lineage_retable (he : elementAt h root = some e) (t : List (String × Namespace)) :
    Lineage (retable h root e t) root d ms ↔ Lineage h root d ms := by
  have hsome := elementAt_retable_isSome he t
  constructor
  · intro hl
    induction hl with
    | root hr => exact .root (by rwa [hsome] at hr)
    | child _ hc hr ih => exact .child ih hc (by rwa [hsome] at hr)
  · intro hl
    induction hl with
    | root hr => exact .root (by rwa [hsome])
    | child _ hc hr ih => exact .child ih hc (by rwa [hsome])

lemma keyed_detach (hk : Keyed h) (n : ℕ) : Keyed (detachWithoutNamespaces h n) := by
  intro m em hem
  rw [elementAt_detach] at hem
  exact hk m em hem

lemma uses_detach {ns : Namespace} (n : ℕ) :
    Uses (detachWithoutNamespaces h n) d ns ↔ Uses h d ns := by
  unfold Uses
  rw [elementAt_detach]

/-- The table of the root after the walk. -/
structure TableSpec (h : OmHeap) (root : ℕ) (e : Element) (above : List ℕ)
    (t : List (String × Namespace)) : Prop where
  again : ∀ q, Redeclared h root above q → hashGet t q = above.findSome? (declared h q)
  rest : ∀ q, ¬ Redeclared h root above q → hashGet t q = hashGet e.namespaces q

/-- What `axiom_node_detach` leaves: the subtree is cut off, and its root has the
namespaces that are declared again. -/
lemma detach_spec (hf : Forest h) (hk : Keyed h) (hlive : h.live root = true)
    (he : elementAt h root = some e) (ha : Ancestors h root above) :
    ∃ bound, ∀ fuel, bound ≤ fuel → ∃ t,
      detach fuel h root = some (retable (detachWithoutNamespaces h root) root e t) ∧
        TableSpec h root e above t := by
  obtain ⟨hf₁, hlive₁, hparent₁⟩ := hf.detach hlive
  have he₁ : elementAt (detachWithoutNamespaces h root) root = some e := by
    rw [elementAt_detach, he]
  have hroot₁ : Ancestors (detachWithoutNamespaces h root) root [] := by
    show parentElement _ root = none
    simp [parentElement, hparent₁]
  obtain ⟨us, bound, hwalk⟩ := redeclare_spec hf₁ he₁ (by rw [hlive₁, hlive]) (by simp [he₁])
  refine ⟨max bound above.length, fun fuel hfuel => ?_⟩
  have hinscope (q : String) : hashGet (gatherParentNamespaces h e fuel root []) q =
      above.findSome? (declared h q) := by
    rw [hashGet_gather hk, bind_findNamespaceUri ha (by omega)]
    rfl
  have hcalls (q : String) :
      (∃ u ∈ us, Calls (detachWithoutNamespaces h root) fuel
        (fun q => above.findSome? (declared h q)) u q) ↔ Redeclared h root above q := by
    have hfind {d' : ℕ} {ms' : List ℕ} (hl : Lineage (detachWithoutNamespaces h root) root d' ms') :
        findNamespaceUri (detachWithoutNamespaces h root) q fuel d' =
          ms'.findSome? (declared h q) := by
      have hshort := hwalk.short d' ms' hl
      rw [hl.findNamespaceUri hroot₁ (by simp only [List.length_nil]; omega), List.append_nil]
      congr 1
      exact funext fun m => declared_detach h root m
    constructor
    · rintro ⟨⟨d', ns⟩, hu, hkey, habove, hne⟩
      obtain ⟨⟨ms', hl⟩, huse⟩ := (hwalk.uses d' ns).mp hu
      refine ⟨d', ms', ns, (lineage_detach hf hlive).mp hl, (uses_detach root).mp huse, hkey,
        habove, ?_⟩
      rwa [← hfind hl]
    · rintro ⟨d', ms', ns, hl, huse, hkey, habove, hne⟩
      have hl₁ := (lineage_detach hf hlive).mpr hl
      refine ⟨(d', ns), (hwalk.uses d' ns).mpr ⟨⟨ms', hl₁⟩, (uses_detach root).mpr huse⟩, hkey,
        habove, ?_⟩
      rwa [hfind hl₁]
  have hstart : Stage e (fun q => above.findSome? (declared h q)) (fun _ => False) e.namespaces
      (gatherParentNamespaces h e fuel root []) :=
    ⟨hk root e he, fun q hq => hq.elim, fun q _ => ⟨hinscope q, rfl⟩⟩
  obtain ⟨t, inscope', huse, hstage⟩ := hstart.useAll (keyed_detach hk root) he₁ us
  refine ⟨t, ?_, fun q hq => (hstage.moved q (.inr ((hcalls q).mpr hq))).2, fun q hq =>
    (hstage.rest q fun hq' => hq ((hcalls q).mp (hq'.elim False.elim id))).2⟩
  have hwalk' := hwalk.walk fuel (by omega) fuel e.namespaces
    (gatherParentNamespaces h e fuel root [])
  simp only [huse] at hwalk'
  rw [retable_self he₁] at hwalk'
  simp only [detach, he]
  split
  · rename_i hempty
    rw [List.isEmpty_iff.mp hempty, useAll_empty, retable_self he₁] at huse
    exact congrArg some (Prod.mk.inj huse).1
  · rw [hwalk']
    rfl

end Cut

section Lookups

variable {h : OmHeap} {root d : ℕ} {e : Element} {ms above : List ℕ} {q : String}
  {t : List (String × Namespace)}
variable {r : Option Namespace}

lemma hasNamespace_own {ed : Element} {ns : Namespace} (hd : elementAt h d = some ed)
    (hns : ed.ns = some ns) :
    HasNamespace h d r ↔ r = some ns := by
  have hget (fuel : ℕ) : getNamespace h fuel d = some ns := by simp [getNamespace, hd, hns]
  constructor
  · rintro ⟨bound, hall⟩
    rw [← hall bound le_rfl, hget]
  · rintro rfl
    exact ⟨0, fun fuel _ => hget fuel⟩

lemma hasNamespace_inherited {ed : Element} (hd : elementAt h d = some ed) (hns : ed.ns = none) :
    HasNamespace h d r ↔ Resolves h "" d r := by
  have hget (fuel : ℕ) : getNamespace h fuel d = findNamespaceUri h "" fuel d := by
    simp [getNamespace, getDefaultNamespace, hd, hns]
  simp only [HasNamespace, Resolves, hget]

lemma hasNamespace_plain (hd : elementAt h d = none) :
    HasNamespace h d r ↔ r = none := by
  have hget (fuel : ℕ) : getNamespace h fuel d = none := by simp [getNamespace, hd]
  constructor
  · rintro ⟨bound, hall⟩
    rw [← hall bound le_rfl, hget]
  · rintro rfl
    exact ⟨0, fun fuel _ => hget fuel⟩

lemma elementAt_cut (he : elementAt h root = some e) (m : ℕ) :
    elementAt (retable (detachWithoutNamespaces h root) root e t) m =
      if m = root then some { e with namespaces := t } else elementAt h m := by
  rw [elementAt_retable (by rw [elementAt_detach, he]), elementAt_detach]

lemma declared_cut (he : elementAt h root = some e) (m : ℕ) :
    declared (retable (detachWithoutNamespaces h root) root e t) q m =
      if m = root then hashGet t q else declared h q m := by
  rw [declared_retable (by rw [elementAt_detach, he]), declared_detach]

/-- A lookup in the subtree, before and after. -/
lemma Lineage.cut (hf : Forest h) (hlive : h.live root = true) (he : elementAt h root = some e)
    (ha : Ancestors h root above) (hl : Lineage h root d ms) :
    ∃ inner : Option Namespace,
      ms.findSome? (declared h q) = inner.or (hashGet e.namespaces q) ∧
      Resolves h q d ((inner.or (hashGet e.namespaces q)).or (above.findSome? (declared h q))) ∧
      Resolves (retable (detachWithoutNamespaces h root) root e t) q d
        (inner.or (hashGet t q)) := by
  obtain ⟨-, -, hparent₁⟩ := hf.detach hlive
  have he₁ : elementAt (detachWithoutNamespaces h root) root = some e := by
    rw [elementAt_detach, he]
  have hl₁ := (lineage_detach hf hlive).mpr hl
  obtain ⟨ms₀, rfl, hno⟩ := hl₁.split (by simp [hparent₁])
  have hroot : declared h q root = hashGet e.namespaces q := by simp [declared, he]
  have hms : (ms₀ ++ [root]).findSome? (declared h q) =
      (ms₀.findSome? (declared h q)).or (hashGet e.namespaces q) := by
    rw [List.findSome?_append, findSome_cons, hroot, List.findSome?_nil, Option.or_none]
  refine ⟨ms₀.findSome? (declared h q), hms, ?_, ?_⟩
  · have hres := hl.resolves (q := q) ha
    rwa [List.findSome?_append, hms] at hres
  · have htop : Ancestors (retable (detachWithoutNamespaces h root) root e t) root [] := by
      show parentElement _ root = none
      rw [parentElement_retable he₁]
      simp [parentElement, hparent₁]
    have hres := ((lineage_retable he₁ t).mpr hl₁).resolves (q := q) htop
    have hinner : ms₀.findSome?
        (declared (retable (detachWithoutNamespaces h root) root e t) q) =
          ms₀.findSome? (declared h q) := by
      refine findSome_congr fun m hm => ?_
      have hroot : m ≠ root := by
        rintro rfl
        exact hno hm
      rw [declared_cut he, if_neg hroot]
    rw [List.append_nil, List.findSome?_append, hinner, findSome_cons, declared_cut he,
      if_pos rfl, List.findSome?_nil, Option.or_none] at hres
    exact hres

/-- Below something that is no element a lookup does not come to the root. -/
lemma findNamespaceUri_apart (hf : Forest h) (hlive : h.live root = true)
    (he : elementAt h root = some e) (hbelow : Below h d root) (hno : ∀ ms, ¬ Lineage h root d ms)
    (fuel : ℕ) :
    findNamespaceUri (retable (detachWithoutNamespaces h root) root e t) q fuel d =
      findNamespaceUri h q fuel d := by
  obtain ⟨-, -, hparent₁⟩ := hf.detach hlive
  have he₁ : elementAt (detachWithoutNamespaces h root) root = some e := by
    rw [elementAt_detach, he]
  induction fuel generalizing d with
  | zero => rfl
  | succ fuel ih =>
    have hd : d ≠ root := by
      rintro rfl
      exact hno [d] (.root (by simp [he]))
    have helement := elementAt_cut (t := t) he d
    rw [if_neg hd] at helement
    cases hed : elementAt h d with
    | none => simp [findNamespaceUri, helement, hed]
    | some ed =>
      have hparent : parentElement (retable (detachWithoutNamespaces h root) root e t) d =
          parentElement h d := by
        rw [parentElement_retable he₁]
        simp [parentElement, hparent₁, hd, elementAt_detach]
      rw [findNamespaceUri_succ fuel (by simp [helement, hed]),
        findNamespaceUri_succ fuel (by simp [hed]), declared_cut he, if_neg hd, hparent]
      congr 1
      cases hp : parentElement h d with
      | none => rfl
      | some p =>
        obtain rfl | ⟨p', hc, hbelow'⟩ := hbelow.cases_head
        · exact (hd rfl).elim
        · have hpp : p' = p := by
            have hfilter := (Option.filter_eq_some_iff.mp hp).1
            exact Option.some.inj (hc.2.symm.trans hfilter)
          subst hpp
          exact ih hbelow' fun ms hl => hno (d :: ms) (.child hl hc (by simp [hed]))

end Lookups

section Results

variable {h : OmHeap} {root d : ℕ} {e : Element} {ms above : List ℕ} {q : String}
  {t : List (String × Namespace)}

section

variable (hc : Covered h root above) (hf : Forest h) (hlive : h.live root = true)
  (he : elementAt h root = some e) (ha : Ancestors h root above) (ht : TableSpec h root e above t)

include hc hf hlive he ha ht

lemma Covered.resolves (hl : Lineage h root d ms) (hneeds : Needs h d q) {r : Option Namespace}
    (hr : Resolves h q d r) :
    ∃ r', Resolves (retable (detachWithoutNamespaces h root) root e t) q d r' ∧
      r'.map Namespace.uri = r.map Namespace.uri := by
  obtain ⟨inner, hms, hbefore, hafter⟩ := hl.cut (q := q) (t := t) hf hlive he ha
  refine ⟨_, hafter, ?_⟩
  rw [hr.unique hbefore]
  cases inner with
  | some ns => rfl
  | none =>
    simp only [Option.none_or] at hms ⊢
    have hroot : declared h q root = hashGet e.namespaces q := by simp [declared, he]
    by_cases hagain : Redeclared h root above q
    · rw [ht.again q hagain]
      cases hown : hashGet e.namespaces q with
      | none => rfl
      | some ns => exact hc.clashes q ns (hroot.trans hown) hagain
    · rw [ht.rest q hagain]
      cases hown : hashGet e.namespaces q with
      | some ns => rfl
      | none =>
        have habove : above.findSome? (declared h q) = none := by
          by_contra hsome
          exact hagain (hc.needs d ms q hl hneeds (hms.trans hown)
            (Option.isSome_iff_ne_none.mpr hsome))
        rw [habove]
        rfl

/-- The names are kept when what the subtree inherits is declared again. -/
lemma Covered.namesKept (hin : InScope h root) :
    NamesKept h (retable (detachWithoutNamespaces h root) root e t) root := by
  -- a prefix that is needed resolves to its URI, inside a lineage or apart from the root
  have hresolves {d : ℕ} {q : String} {r : Option Namespace} (hbelow : Below h d root)
      (hneeds : Needs h d q) (hr : Resolves h q d r) :
      ∃ r', Resolves (retable (detachWithoutNamespaces h root) root e t) q d r' ∧
        r'.map Namespace.uri = r.map Namespace.uri := by
    by_cases hl : ∃ ms, Lineage h root d ms
    · obtain ⟨ms, hl⟩ := hl
      exact hc.resolves hf hlive he ha ht hl hneeds hr
    · obtain ⟨bound, hr⟩ := hr
      refine ⟨r, ⟨bound, fun fuel hfuel => ?_⟩, rfl⟩
      rw [findNamespaceUri_apart hf hlive he hbelow (not_exists.mp hl), hr fuel hfuel]
  have hsame (d : ℕ) (ed : Element) (hd : elementAt h d = some ed) : ∃ ed',
      elementAt (retable (detachWithoutNamespaces h root) root e t) d = some ed' ∧
        ed'.ns = ed.ns := by
    rw [elementAt_cut he]
    by_cases hroot : d = root
    · subst hroot
      obtain rfl := Option.some.inj (he.symm.trans hd)
      exact ⟨_, if_pos rfl, rfl⟩
    · exact ⟨ed, (if_neg hroot).trans hd, rfl⟩
  refine ⟨fun d r hbelow hr => ?_, fun d ed entry ns hbelow hd hentry hns hkey => ?_,
    fun d q ns hbelow hd => ?_⟩
  · cases hd : elementAt h d with
    | none =>
      obtain rfl := (hasNamespace_plain hd).mp hr
      refine ⟨none, (hasNamespace_plain ?_).mpr rfl, rfl⟩
      rw [elementAt_cut he, if_neg, hd]
      rintro rfl
      simp [he] at hd
    | some ed =>
      obtain ⟨ed', hd', hns'⟩ := hsame d ed hd
      cases hns : ed.ns with
      | some ns =>
        obtain rfl := (hasNamespace_own hd hns).mp hr
        exact ⟨some ns, (hasNamespace_own hd' (hns'.trans hns)).mpr rfl, rfl⟩
      | none =>
        rw [hasNamespace_inherited hd hns] at hr
        obtain ⟨r', hr', huri⟩ := hresolves hbelow ⟨ed, hd, .inl ⟨hns, rfl⟩⟩ hr
        exact ⟨r', (hasNamespace_inherited hd' (hns'.trans hns)).mpr hr', huri⟩
  · obtain ⟨ns₀, hr, huri₀⟩ := hin d ns hbelow ⟨ed, hd, .inr ⟨entry, hentry, hns⟩⟩
    obtain ⟨r', hr', huri⟩ := hresolves hbelow
      ⟨ed, hd, .inr ⟨entry, hentry, ns, hns, rfl, hkey⟩⟩ hr
    cases r' with
    | none => simp at huri
    | some ns' => exact ⟨ns', hr', (Option.some.inj huri).trans huri₀⟩
  · rw [declared_cut he]
    by_cases hroot : d = root
    · subst hroot
      rw [if_pos rfl]
      by_cases hagain : Redeclared h d above q
      · rw [ht.again q hagain]
        exact Option.map_eq_some_iff.mp (hc.clashes q ns hd hagain)
      · rw [ht.rest q hagain]
        refine ⟨ns, ?_, rfl⟩
        simpa [declared, he] using hd
    · rw [if_neg hroot]
      exact ⟨ns, hd, rfl⟩

end

lemma NamesKept.covered (hf : Forest h) (hlive : h.live root = true)
    (he : elementAt h root = some e) (ha : Ancestors h root above)
    (ht : TableSpec h root e above t)
    (hkept : NamesKept h (retable (detachWithoutNamespaces h root) root e t) root) :
    Covered h root above := by
  refine ⟨fun d ms q hl hneeds hms habove => ?_, fun q ns hd hagain => ?_⟩
  · by_contra hagain
    obtain ⟨inner, hms', hbefore, hafter⟩ := hl.cut (q := q) (t := t) hf hlive he ha
    rw [ht.rest q hagain, ← hms', hms] at hafter
    rw [← hms', hms, Option.none_or] at hbefore
    obtain ⟨ed, hd, ⟨hns, rfl⟩ | ⟨entry, hentry, ns, hns, rfl, hkey⟩⟩ := hneeds
    · obtain ⟨r', hr', huri⟩ := hkept.names d _ hl.isBelow
        ((hasNamespace_inherited hd hns).mpr hbefore)
      obtain ⟨ed', hd', hns'⟩ : ∃ ed',
          elementAt (retable (detachWithoutNamespaces h root) root e t) d = some ed' ∧
            ed'.ns = none := by
        rw [elementAt_cut he]
        by_cases hroot : d = root
        · subst hroot
          obtain rfl := Option.some.inj (he.symm.trans hd)
          exact ⟨_, if_pos rfl, hns⟩
        · exact ⟨ed, (if_neg hroot).trans hd, hns⟩
      rw [((hasNamespace_inherited hd' hns').mp hr').unique hafter] at huri
      obtain ⟨ns, habove⟩ := Option.isSome_iff_exists.mp habove
      simp [habove] at huri
    · obtain ⟨ns', hr', -⟩ := hkept.attributes d ed entry ns hl.isBelow hd hentry hns hkey
      simpa using hr'.unique hafter
  · obtain ⟨ns', hd', huri⟩ := hkept.declarations root q ns .refl hd
    rw [declared_cut he, if_pos rfl, ht.again q hagain] at hd'
    simp [hd', huri]

/-- `axiom_node_detach` returns, and it keeps the names of a subtree exactly when every
prefix that the subtree inherits is one that it declares again. -/
theorem names_kept_iff (hf : Forest h) (hk : Keyed h) (hlive : h.live root = true)
    (helement : (elementAt h root).isSome) (ha : Ancestors h root above) (hin : InScope h root) :
    ∃ bound, ∀ fuel, bound ≤ fuel → ∃ h', detach fuel h root = some h' ∧
      (NamesKept h h' root ↔ Covered h root above) := by
  obtain ⟨e, he⟩ := Option.isSome_iff_exists.mp helement
  obtain ⟨bound, hspec⟩ := detach_spec hf hk hlive he ha
  refine ⟨bound, fun fuel hfuel => ?_⟩
  obtain ⟨t, hdetach, ht⟩ := hspec fuel hfuel
  exact ⟨_, hdetach, NamesKept.covered hf hlive he ha ht, fun hc =>
    hc.namesKept hf hlive he ha ht hin⟩

def twoElements (outer inner : Element) : OmHeap :=
  { threeNodes (⟨.element, some (.element inner), false, true⟩ : Node Payload) with
    data := fun n => ⟨.element, some (.element (if n = 0 then outer else inner)), false, true⟩ }

/-- The second element is the child of the first. -/
def nestedPair (outer inner : Element) : OmHeap := addChild (twoElements outer inner) 0 1

section Pairs

variable {outer inner : Element}

lemma nestedPair_forest : Forest (nestedPair outer inner) := by
  have hfresh : Fresh (twoElements outer inner) := fun _ _ => ⟨rfl, rfl, rfl, rfl, rfl⟩
  exact hfresh.forest.addChild rfl rfl (not_below_of_root rfl (by decide))

lemma nestedPair_keyed (houter : ∀ entry ∈ outer.namespaces, entry.2.key = entry.1)
    (hinner : ∀ entry ∈ inner.namespaces, entry.2.key = entry.1) :
    Keyed (nestedPair outer inner) := by
  intro m em hem
  have hm : some (if m = 0 then outer else inner) = some em := hem
  obtain rfl := Option.some.inj hm
  by_cases hm0 : m = 0
  · simpa [hm0] using houter
  · simpa [hm0] using hinner

lemma nestedPair_parent {c p : ℕ} (hc : ChildOf (nestedPair outer inner) c p) :
    c = 1 ∧ p = 0 := by
  have hparent : Function.update (fun _ => none) 1 (some 0) c = some p := hc.2
  by_cases h1 : c = 1
  · subst h1
    exact ⟨rfl, by simpa using hparent.symm⟩
  · simp [h1] at hparent

lemma nestedPair_below {d : ℕ} (hb : Below (nestedPair outer inner) d 1) : d = 1 := by
  obtain rfl | ⟨p, hc, -⟩ := hb.cases_head
  · rfl
  · exact (nestedPair_parent hc).1

lemma nestedPair_lineage {d : ℕ} {ms : List ℕ} (hl : Lineage (nestedPair outer inner) 1 d ms) :
    d = 1 ∧ ms = [1] := by
  cases hl with
  | root _ => exact ⟨rfl, rfl⟩
  | child hl hc _ =>
    have hp := nestedPair_below hl.isBelow
    simp [(nestedPair_parent hc).2] at hp

lemma nestedPair_ancestors : Ancestors (nestedPair outer inner) 1 [0] := ⟨rfl, rfl⟩

lemma nestedPair_resolves (q : String) : Resolves (nestedPair outer inner) q 1
    ((hashGet inner.namespaces q).or (hashGet outer.namespaces q)) := by
  refine ⟨2, fun fuel hfuel => ?_⟩
  rw [findNamespaceUri_eq rfl nestedPair_ancestors hfuel, findSome_cons, findSome_cons,
    List.findSome?_nil, Option.or_none]
  rfl

end Pairs

/-- `xmlns:p="u"` -/
def prefixed : Namespace := ⟨0, some "p", "u"⟩

/-- `<r xmlns:p="u">` -/
def prefixParent : Element := ⟨"r", none, [("p", prefixed)], [], false⟩

/-- `<p:e p:x="v"/>` -/
def prefixChild : Element :=
  ⟨"e", some prefixed, [], [(⟨"x", some "u", some "p"⟩, ⟨"x", "v", some prefixed⟩)], false⟩

lemma uses_prefixChild {ns : Namespace} (hu : Uses (nestedPair prefixParent prefixChild) 1 ns) :
    ns = prefixed := by
  obtain ⟨ed, hd, hu⟩ := hu
  obtain rfl := Option.some.inj hd
  simpa [prefixChild, eq_comm] using hu

lemma inScope_prefixChild : InScope (nestedPair prefixParent prefixChild) 1 := by
  intro d ns hb hu
  obtain rfl := nestedPair_below hb
  obtain rfl := uses_prefixChild hu
  exact ⟨prefixed, nestedPair_resolves "p", rfl⟩

/-- The prefix is declared again. -/
theorem names_kept_prefixed :
    ∃ bound, ∀ fuel, bound ≤ fuel → ∃ h',
      detach fuel (nestedPair prefixParent prefixChild) 1 = some h' ∧
        NamesKept (nestedPair prefixParent prefixChild) h' 1 := by
  have hcovered : Covered (nestedPair prefixParent prefixChild) 1 [0] := by
    refine ⟨fun d ms q hl hneeds _ _ => ?_, fun q ns hd _ => ?_⟩
    · obtain ⟨rfl, rfl⟩ := nestedPair_lineage hl
      obtain ⟨ed, hed, ⟨hns, -⟩ | ⟨entry, hentry, ns, hns, rfl, -⟩⟩ := hneeds
      · obtain rfl := Option.some.inj hed
        simp [prefixChild] at hns
      · have hu : Uses (nestedPair prefixParent prefixChild) 1 ns :=
          ⟨ed, hed, .inr ⟨entry, hentry, hns⟩⟩
        obtain rfl := uses_prefixChild hu
        exact ⟨1, [1], prefixed, hl, hu, rfl, rfl, by decide⟩
    · have hnone : hashGet prefixChild.namespaces q = some ns := hd
      simp [prefixChild, hashGet] at hnone
  obtain ⟨bound, hall⟩ := names_kept_iff nestedPair_forest
    (nestedPair_keyed (by decide) (by decide)) rfl rfl nestedPair_ancestors inScope_prefixChild
  refine ⟨bound, fun fuel hfuel => ?_⟩
  obtain ⟨h', hdetach, hiff⟩ := hall fuel hfuel
  exact ⟨h', hdetach, hiff.mpr hcovered⟩

/-- `<r xmlns="u">` -/
def defaultParent : Element := ⟨"r", none, [("", ⟨0, none, "u"⟩)], [], false⟩

/-- `<e/>` -/
def defaultChild : Element := ⟨"e", none, [], [], false⟩

/-- The child does not have the default namespace any more. -/
theorem default_namespace_lost :
    ∃ h', Forest (nestedPair defaultParent defaultChild) ∧
      Keyed (nestedPair defaultParent defaultChild) ∧
      InScope (nestedPair defaultParent defaultChild) 0 ∧
      detach 5 (nestedPair defaultParent defaultChild) 1 = some h' ∧
      HasNamespace (nestedPair defaultParent defaultChild) 1 (some ⟨0, none, "u"⟩) ∧
      HasNamespace h' 1 none ∧ ¬ NamesKept (nestedPair defaultParent defaultChild) h' 1 := by
  have hbefore : HasNamespace (nestedPair defaultParent defaultChild) 1 (some ⟨0, none, "u"⟩) :=
    (hasNamespace_inherited rfl rfl).mpr (nestedPair_resolves "")
  have hafter : Resolves (detachWithoutNamespaces (nestedPair defaultParent defaultChild) 1)
      "" 1 none := by
    refine ⟨1, fun fuel hfuel => ?_⟩
    have htop : Ancestors (detachWithoutNamespaces (nestedPair defaultParent defaultChild) 1)
        1 [] := rfl
    rw [findNamespaceUri_eq rfl htop hfuel]
    rfl
  refine ⟨_, nestedPair_forest, nestedPair_keyed (by decide) (by decide), ?_, rfl, hbefore,
    (hasNamespace_inherited rfl rfl).mpr hafter, fun hkept => ?_⟩
  · rintro d ns - ⟨ed, hd, hu⟩
    have hd' : some (if d = 0 then defaultParent else defaultChild) = some ed := hd
    obtain rfl := Option.some.inj hd'
    by_cases hd0 : d = 0 <;> simp [hd0, defaultParent, defaultChild] at hu
  · obtain ⟨r', hr', huri⟩ := hkept.names 1 _ .refl hbefore
    rw [hasNamespace_inherited rfl rfl] at hr'
    rw [hr'.unique hafter] at huri
    simp at huri

end Results

end Axis2C.Om
