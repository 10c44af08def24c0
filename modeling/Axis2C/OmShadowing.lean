import Axis2C.OmBuilderElements

/-!
# Namespace lookup and shadowing

The lookups of `om_element.c` on the chain of an element and its ancestors. The nearest
declaration of a prefix shadows those above it. A lookup by prefix and one of the default
namespace stop at the nearest declaration; one by URI alone goes on past an element that
declares the prefix for another URI.
-/
namespace Axis2C.Om

section Scopes

/-- The elements from a node up to the root of its tree. -/
inductive ElementChain (h : OmHeap) : ℕ → List Element → Prop
  | root {n : ℕ} {e : Element} (he : elementAt h n = some e) (hroot : parentElement h n = none) :
      ElementChain h n [e]
  | child {n p : ℕ} {e : Element} {above : List Element} (he : elementAt h n = some e)
      (hparent : parentElement h n = some p) (habove : ElementChain h p above) :
      ElementChain h n (e :: above)

/-- The namespaces of an element are kept under their prefixes, one for each. -/
structure WellKeyed (table : List (String × Namespace)) : Prop where
  keys : ∀ entry ∈ table, entry.2.key = entry.1
  once : (table.map Prod.fst).Nodup

def declaration (chain : List Element) (key : String) : Option Namespace :=
  chain.findSome? fun e => hashGet e.namespaces key

def Element.declares (e : Element) (uri : String) : Option (String × Namespace) :=
  e.namespaces.find? fun entry => entry.2.uri = uri

/-- `axiom_element_find_namespace_uri` with its check of the prefix. -/
def findNamespaceOfPrefix (h : OmHeap) (nsPrefix : Option String) (fuel n : ℕ) :
    Option Namespace :=
  nsPrefix.bind fun key => findNamespaceUri h key fuel n

/-- The prefix of the namespace leads to a namespace with the same URI. -/
def Visible (h : OmHeap) (fuel n : ℕ) (ns : Namespace) : Prop :=
  ∃ found, findNamespaceOfPrefix h ns.nsPrefix fuel n = some found ∧ found.uri = ns.uri

/-- The lookup finds a visible namespace with the URI, and it finds one if there is one with
the prefix and the URI. -/
structure LooksUpRight (h : OmHeap) (fuel n : ℕ) (uri nsPrefix : Option String) : Prop where
  sameUri : ∀ ns, findNamespace h uri nsPrefix fuel n = some ns → ∀ u ∈ uri, ns.uri = u
  visible : ∀ ns, findNamespace h uri nsPrefix fuel n = some ns → Visible h fuel n ns
  found : ∀ ns, Visible h fuel n ns → ns.nsPrefix = nsPrefix → uri = some ns.uri →
    findNamespace h uri nsPrefix fuel n ≠ none

/-- What keeps a lookup without a prefix right: the default namespace that it is for has the
empty prefix, not NULL; and if there is no default namespace, no element below the nearest
declaration of the URI declares its prefix. -/
structure LookupUnshadowed (chain : List Element) (uri nsPrefix : Option String) : Prop where
  default : ∀ ns, declaration chain "" = some ns →
    (uri = none ∧ nsPrefix = some "") ∨ (uri = some ns.uri ∧ nsPrefix.getD "" = "") →
      ns.nsPrefix ≠ none
  nearest : ∀ u, uri = some u → nsPrefix.getD "" = "" → declaration chain "" = none →
    ∀ below e above entry, chain = below ++ e :: above → (∀ e' ∈ below, e'.declares u = none) →
      e.declares u = some entry → ∀ e' ∈ below, hashGet e'.namespaces entry.1 = none

end Scopes

section Lookups

variable {h : OmHeap} {n : ℕ} {chain : List Element} {fuel : ℕ}
variable {ns : Namespace}

lemma declaration_cons (e : Element) (above : List Element) (key : String) :
    declaration (e :: above) key = (hashGet e.namespaces key).or (declaration above key) := by
  rw [declaration, List.findSome?_cons]
  cases hashGet e.namespaces key <;> rfl

/-- With fuel for the chain, the lookup of a prefix is that of its nearest declaration. -/
lemma ElementChain.findNamespaceUri_eq (hchain : ElementChain h n chain)
    (hfuel : chain.length ≤ fuel) (key : String) :
    findNamespaceUri h key fuel n = declaration chain key := by
  induction hchain generalizing fuel with
  | root he hroot =>
    obtain ⟨fuel, rfl⟩ : ∃ f, fuel = f + 1 := ⟨fuel - 1, by simp at hfuel; omega⟩
    rw [declaration_cons, findNamespaceUri]
    simp only [he, hroot, Option.bind_none]
    cases hashGet _ key <;> rfl
  | child he hparent hchain ih =>
    rw [List.length_cons] at hfuel
    obtain ⟨fuel, rfl⟩ : ∃ f, fuel = f + 1 := ⟨fuel - 1, by omega⟩
    rw [declaration_cons, findNamespaceUri]
    simp only [he, hparent, Option.bind_some, ih (by omega : _ ≤ fuel)]
    cases hashGet _ key <;> rfl

/-- What the lookup gives on the chain, by what is asked for. -/
def lookupOn (chain : List Element) (uri nsPrefix : Option String) : Option Namespace :=
  match uri with
  | none => nsPrefix.bind (declaration chain)
  | some u =>
    if nsPrefix.getD "" = "" then
      match declaration chain "" with
      | some ns => if u = ns.uri then some ns else none
      | none => chain.findSome? fun e => (e.declares u).map Prod.snd
    else (nsPrefix.bind (declaration chain)).filter fun ns => ns.uri = u

/-- One step of the lookup: what is decided at the element, or else what its parent gives. -/
lemma lookupOn_cons (e : Element) (above : List Element) (uri nsPrefix : Option String)
    (hdefault : getDefaultNamespace h (fuel + 1) n = declaration (e :: above) "") :
    (findNamespaceHere h (fuel + 1) n e uri nsPrefix).getD (lookupOn above uri nsPrefix) =
      lookupOn (e :: above) uri nsPrefix := by
  have hbind : nsPrefix.bind (declaration (e :: above)) =
      (nsPrefix.bind (hashGet e.namespaces ·)).or (nsPrefix.bind (declaration above)) := by
    cases nsPrefix with
    | none => rfl
    | some key => exact declaration_cons e above key
  unfold findNamespaceHere
  by_cases hempty : e.namespaces.isEmpty = true
  · have hnil : e.namespaces = [] := List.isEmpty_iff.mp hempty
    have hget (key : String) : hashGet e.namespaces key = none := by rw [hnil]; rfl
    have hdeclares (u : String) : e.declares u = none := by rw [Element.declares, hnil]; rfl
    have hnone : nsPrefix.bind (hashGet e.namespaces ·) = none := by cases nsPrefix <;> simp [hget]
    rw [hnone, Option.none_or] at hbind
    rw [if_pos hempty]
    simp [lookupOn, hbind, declaration_cons, hget, hdeclares, List.findSome?_cons]
  · rw [if_neg hempty]
    cases uri with
    | none =>
      simp only [lookupOn, hbind]
      cases nsPrefix.bind (hashGet e.namespaces ·) <;> rfl
    | some u =>
      by_cases hpre : nsPrefix.getD "" = ""
      · simp only [lookupOn, if_pos hpre, hdefault]
        cases hdecl : declaration (e :: above) "" with
        | some ns => rfl
        | none =>
          have habove : declaration above "" = none := by
            rw [declaration_cons, Option.or_eq_none_iff] at hdecl
            exact hdecl.2
          simp only [habove, List.findSome?_cons, Element.declares]
          cases List.find? _ e.namespaces <;> rfl
      · simp only [lookupOn, if_neg hpre, hbind]
        cases nsPrefix.bind (hashGet e.namespaces ·) with
        | none => rfl
        | some ns => by_cases huri : ns.uri = u <;> simp [Option.filter, huri]

lemma ElementChain.findNamespace_eq (hchain : ElementChain h n chain) (hfuel : chain.length ≤ fuel)
    (uri nsPrefix : Option String) :
    findNamespace h uri nsPrefix fuel n = lookupOn chain uri nsPrefix := by
  have hnil : lookupOn [] uri nsPrefix = none := by
    cases uri <;> cases nsPrefix <;> simp [lookupOn, declaration]
  induction hchain generalizing fuel with
  | @root n e he hroot =>
    obtain ⟨fuel, rfl⟩ : ∃ f, fuel = f + 1 := ⟨fuel - 1, by simp at hfuel; omega⟩
    have hdefault := (ElementChain.root he hroot).findNamespaceUri_eq hfuel ""
    rw [← lookupOn_cons e [] uri nsPrefix hdefault, findNamespace, hnil]
    simp only [he, hroot, Option.bind_none]
    cases findNamespaceHere h (fuel + 1) n e uri nsPrefix <;> rfl
  | @child n p e above he hparent hchain ih =>
    have hdefault := (ElementChain.child he hparent hchain).findNamespaceUri_eq hfuel ""
    rw [List.length_cons] at hfuel
    obtain ⟨fuel, rfl⟩ : ∃ f, fuel = f + 1 := ⟨fuel - 1, by omega⟩
    rw [← lookupOn_cons e above uri nsPrefix hdefault, findNamespace]
    simp only [he, hparent, Option.bind_some, ih (by omega : _ ≤ fuel)]
    cases findNamespaceHere h (fuel + 1) n e uri nsPrefix <;> rfl

/-- Visible namespaces, in terms of the nearest declaration of their prefix. -/
lemma ElementChain.visible_iff (hchain : ElementChain h n chain) (hfuel : chain.length ≤ fuel)
    (ns : Namespace) : Visible h fuel n ns ↔ ∃ key, ns.nsPrefix = some key ∧
      ∃ found, declaration chain key = some found ∧ found.uri = ns.uri := by
  unfold Visible findNamespaceOfPrefix
  cases ns.nsPrefix with
  | none => simp
  | some key => simp [hchain.findNamespaceUri_eq hfuel]

lemma declaration_key (hkeyed : ∀ e ∈ chain, WellKeyed e.namespaces) {key : String}
    (h : declaration chain key = some ns) : ns.key = key := by
  obtain ⟨e, he, hget⟩ := List.exists_of_findSome?_eq_some h
  exact (hkeyed e he).keys _ (mem_of_hashGet hget)

lemma prefix_of_key (hkey : ns.key ≠ "") : ns.nsPrefix = some ns.key := by
  unfold Namespace.key at hkey ⊢
  cases hpre : ns.nsPrefix with
  | none => simp [hpre] at hkey
  | some key => rfl

/-- Every entry of a table is found under its key. -/
lemma WellKeyed.hashGet_of_mem {table : List (String × Namespace)} (h : WellKeyed table)
    {entry : String × Namespace} (hmem : entry ∈ table) :
    hashGet table entry.1 = some entry.2 := by
  obtain ⟨-, honce⟩ := h
  induction table with
  | nil => cases hmem
  | cons first table ih =>
    rw [List.map_cons, List.nodup_cons] at honce
    rw [hashGet_cons]
    obtain rfl | hmem := List.mem_cons.mp hmem
    · rw [if_pos rfl]
    · have hne : entry.1 ≠ first.1 := fun heq => honce.1 (heq ▸ List.mem_map_of_mem hmem)
      rw [if_neg hne]
      exact ih hmem honce.2

/-- The nearest default namespace is visible unless its prefix is NULL. -/
lemma ElementChain.default_visible_iff (hchain : ElementChain h n chain)
    (hfuel : chain.length ≤ fuel) (hkeyed : ∀ e ∈ chain, WellKeyed e.namespaces)
    (hns : declaration chain "" = some ns) : Visible h fuel n ns ↔ ns.nsPrefix ≠ none := by
  have hkey : ns.key = "" := declaration_key hkeyed hns
  rw [hchain.visible_iff hfuel]
  constructor
  · rintro ⟨key, hpre, -⟩ hnone
    simp [hnone] at hpre
  · intro hsome
    obtain ⟨key, hpre⟩ := Option.ne_none_iff_exists'.mp hsome
    have hempty : key = "" := by rw [← hkey, Namespace.key, hpre]; rfl
    exact ⟨key, hpre, ns, hempty ▸ hns, rfl⟩

/-- A declaration found by its URI is visible just if nothing below declares its prefix. -/
lemma ElementChain.nearest_visible_iff {below above : List Element} {e : Element} {u : String}
    {entry : String × Namespace} (hchain : ElementChain h n (below ++ e :: above))
    (hfuel : (below ++ e :: above).length ≤ fuel)
    (hkeyed : ∀ e' ∈ below ++ e :: above, WellKeyed e'.namespaces)
    (hdefault : declaration (below ++ e :: above) "" = none)
    (hbelow : ∀ e' ∈ below, e'.declares u = none) (hentry : e.declares u = some entry) :
    Visible h fuel n entry.2 ↔ ∀ e' ∈ below, hashGet e'.namespaces entry.1 = none := by
  have hmem : entry ∈ e.namespaces := List.mem_of_find?_eq_some hentry
  have huri : entry.2.uri = u := by simpa using List.find?_some hentry
  have he : e ∈ below ++ e :: above := List.mem_append_right _ List.mem_cons_self
  have hkey : entry.2.key = entry.1 := (hkeyed e he).keys entry hmem
  have hget : hashGet e.namespaces entry.1 = some entry.2 := (hkeyed e he).hashGet_of_mem hmem
  have hnonempty : entry.2.key ≠ "" := by
    rw [hkey]
    intro hempty
    rw [declaration, List.findSome?_eq_none_iff] at hdefault
    have := hdefault e he
    rw [← hempty, hget] at this
    cases this
  rw [hchain.visible_iff hfuel, prefix_of_key hnonempty, hkey]
  constructor
  · rintro ⟨key, hpre, found, hfound, hsame⟩ e' he'
    obtain rfl := Option.some.inj hpre
    by_contra hsome
    obtain ⟨other, hother⟩ := Option.ne_none_iff_exists'.mp hsome
    -- the nearest declaration is below, and no namespace below has the URI
    have hnear : declaration below entry.1 ≠ none := by
      rw [declaration, ne_eq, List.findSome?_eq_none_iff]
      exact fun hall => hsome (hall e' he')
    obtain ⟨near, hnear⟩ := Option.ne_none_iff_exists'.mp hnear
    have hsame' : near = found := by
      rw [declaration, List.findSome?_append] at hfound
      rw [declaration] at hnear
      rw [hnear] at hfound
      exact Option.some.inj hfound
    obtain ⟨e'', he'', hget''⟩ := List.exists_of_findSome?_eq_some hnear
    have hno := List.find?_eq_none.mp (hbelow e'' he'') _ (mem_of_hashGet hget'')
    simp [hsame', hsame, huri] at hno
  · intro hfree
    refine ⟨entry.1, rfl, entry.2, ?_, rfl⟩
    exact List.findSome?_eq_some_iff.mpr ⟨below, e, above, rfl, hget, hfree⟩

lemma lookupOn_uri {u : String} {nsPrefix : Option String}
    (h : lookupOn chain (some u) nsPrefix = some ns) : ns.uri = u := by
  simp only [lookupOn] at h
  split at h
  · split at h
    · split at h
      · next huri =>
          obtain rfl := Option.some.inj h
          exact huri.symm
      · cases h
    · obtain ⟨e, -, he⟩ := List.exists_of_findSome?_eq_some h
      obtain ⟨entry, hentry, rfl⟩ := Option.map_eq_some_iff.mp he
      simpa using List.find?_some hentry
  · simpa using Option.mem_filter_iff.mp h |>.2

section

variable (hchain : ElementChain h n chain) (hfuel : chain.length ≤ fuel)

include hchain hfuel

/-- A visible namespace with the prefix and the URI makes the lookup find one. -/
lemma ElementChain.lookupOn_found (hvisible : Visible h fuel n ns) :
    lookupOn chain (some ns.uri) ns.nsPrefix ≠ none := by
  obtain ⟨key, hpre, found, hfound, huri⟩ := (hchain.visible_iff hfuel ns).mp hvisible
  rw [hpre]
  by_cases hkey : key = ""
  · subst hkey
    simp [lookupOn, hfound, huri]
  · simp [lookupOn, hkey, hfound, huri, Option.filter]

lemma ElementChain.prefixed_visible (hkeyed : ∀ e ∈ chain, WellKeyed e.namespaces)
    {uri nsPrefix : Option String} (hpre : nsPrefix.getD "" ≠ "")
    (hfound : lookupOn chain uri nsPrefix = some ns) : Visible h fuel n ns := by
  obtain ⟨key, rfl⟩ : ∃ key, nsPrefix = some key := by
    refine Option.ne_none_iff_exists'.mp fun hnone => ?_
    simp [hnone] at hpre
  have hdeclared : declaration chain key = some ns := by
    cases uri with
    | none => exact hfound
    | some u =>
      rw [lookupOn, if_neg hpre] at hfound
      exact (Option.mem_filter_iff.mp hfound).1
  have hkey : ns.key = key := declaration_key hkeyed hdeclared
  rw [hchain.visible_iff hfuel]
  exact ⟨key, hkey ▸ prefix_of_key (hkey ▸ hpre), ns, hdeclared, rfl⟩

lemma ElementChain.visible_without_prefix_iff (hkeyed : ∀ e ∈ chain, WellKeyed e.namespaces)
    {uri nsPrefix : Option String} (hpre : nsPrefix.getD "" = "") :
    (∀ ns, lookupOn chain uri nsPrefix = some ns → Visible h fuel n ns) ↔
      LookupUnshadowed chain uri nsPrefix := by
  have hdefault {ns : Namespace} (hns : declaration chain "" = some ns) :
      Visible h fuel n ns ↔ ns.nsPrefix ≠ none := hchain.default_visible_iff hfuel hkeyed hns
  cases uri with
  | none =>
    cases nsPrefix with
    | none =>
      refine iff_of_true (fun ns hns => by cases hns) ⟨fun ns _ hasked => ?_, fun u hu => ?_⟩
      · simp at hasked
      · cases hu
    | some key =>
      obtain rfl : key = "" := hpre
      constructor
      · intro h
        exact ⟨fun ns hns _ => (hdefault hns).mp (h ns hns), fun u hu => by cases hu⟩
      · intro h ns hns
        exact (hdefault hns).mpr (h.default ns hns (Or.inl ⟨rfl, rfl⟩))
  | some u =>
    cases hdecl : declaration chain "" with
    | some ns =>
      have hlookup : lookupOn chain (some u) nsPrefix =
          if u = ns.uri then some ns else none := by
        rw [lookupOn, if_pos hpre, hdecl]
      rw [hlookup]
      constructor
      · intro h
        refine ⟨fun ns' hns' hasked => ?_, fun _ _ _ hnone => ?_⟩
        · obtain rfl := Option.some.inj (hdecl.symm.trans hns')
          have huri : u = ns.uri := by
            obtain ⟨hnone, -⟩ | ⟨hsome, -⟩ := hasked
            · cases hnone
            · exact Option.some.inj hsome
          exact (hdefault hdecl).mp (h ns (if_pos huri))
        · cases hdecl.symm.trans hnone
      · intro h ns' hns'
        split at hns'
        · next huri =>
            obtain rfl := Option.some.inj hns'
            exact (hdefault hdecl).mpr (h.default ns hdecl (Or.inr ⟨by rw [huri], hpre⟩))
        · cases hns'
    | none =>
      have hlookup : lookupOn chain (some u) nsPrefix =
          chain.findSome? fun e => (e.declares u).map Prod.snd := by
        rw [lookupOn, if_pos hpre, hdecl]
      rw [hlookup]
      constructor
      · intro h
        refine ⟨fun ns hns => absurd (hdecl.symm.trans hns) (by simp), ?_⟩
        rintro u' hu - - below e above entry rfl hbelow hentry
        obtain rfl := Option.some.inj hu
        refine (hchain.nearest_visible_iff hfuel hkeyed hdecl hbelow hentry).mp (h _ ?_)
        refine List.findSome?_eq_some_iff.mpr ⟨below, e, above, rfl, ?_, fun e' he' => ?_⟩
        · rw [hentry, Option.map_some]
        · rw [hbelow e' he', Option.map_none]
      · intro h ns hns
        obtain ⟨below, e, above, rfl, hsome, hbelow⟩ := List.findSome?_eq_some_iff.mp hns
        obtain ⟨entry, hentry, rfl⟩ := Option.map_eq_some_iff.mp hsome
        have hbelow' : ∀ e' ∈ below, e'.declares u = none := fun e' he' =>
          Option.map_eq_none_iff.mp (hbelow e' he')
        exact (hchain.nearest_visible_iff hfuel hkeyed hdecl hbelow' hentry).mpr
          (h.nearest u rfl hpre hdecl below e above entry rfl hbelow' hentry)

end

end Lookups

/-- On every chain of elements a namespace that is looked up has the URI and is visible, and one
that is visible is found, exactly if the namespace asked for without a prefix is not shadowed. -/
theorem namespace_lookup_iff {h : OmHeap} {n : ℕ} {chain : List Element} {fuel : ℕ}
    (hchain : ElementChain h n chain) (hfuel : chain.length ≤ fuel)
    (hkeyed : ∀ e ∈ chain, WellKeyed e.namespaces) (uri nsPrefix : Option String) :
    LooksUpRight h fuel n uri nsPrefix ↔ LookupUnshadowed chain uri nsPrefix := by
  have hfind := hchain.findNamespace_eq hfuel uri nsPrefix
  have hright : LooksUpRight h fuel n uri nsPrefix ↔
      ∀ ns, lookupOn chain uri nsPrefix = some ns → Visible h fuel n ns := by
    rw [← hfind]
    refine ⟨LooksUpRight.visible, fun hvisible => ⟨fun ns hns u hu => ?_, hvisible, ?_⟩⟩
    · obtain rfl := Option.mem_def.mp hu
      exact lookupOn_uri (hfind.symm.trans hns)
    · rintro ns hns rfl rfl
      rw [hfind]
      exact hchain.lookupOn_found hfuel hns
  rw [hright]
  by_cases hpre : nsPrefix.getD "" = ""
  · exact hchain.visible_without_prefix_iff hfuel hkeyed hpre
  · refine iff_of_true (fun ns => hchain.prefixed_visible hfuel hkeyed hpre) ⟨?_, ?_⟩
    · rintro ns - (⟨-, rfl⟩ | ⟨-, hempty⟩)
      · exact absurd rfl hpre
      · exact absurd hempty hpre
    · exact fun u _ hempty => absurd hempty hpre

/-- An element that declares one namespace, with the prefix `p`. -/
def declaring (uri : String) (address : ℕ) : Element :=
  ⟨"e", none, [("p", ⟨address, some "p", uri⟩)], [], false⟩

/-- An element that declares `p` for the URI `v`, in one that declares it for `u`. -/
def redeclared : OmHeap where
  live n := n < 2
  parent n := if n = 1 then some 0 else none
  prev _ := none
  next _ := none
  firstChild n := if n = 0 then some 1 else none
  lastChild n := if n = 0 then some 1 else none
  data n := ⟨.element, some (.element (if n = 0 then declaring "u" 0 else declaring "v" 1)), true,
    true⟩

theorem namespace_lookup_of_redeclared : LooksUpRight redeclared 2 1 (some "u") none ↔
    LookupUnshadowed [declaring "v" 1, declaring "u" 0] (some "u") none := by
  have hchain : ElementChain redeclared 1 [declaring "v" 1, declaring "u" 0] :=
    .child rfl rfl (.root rfl rfl)
  refine namespace_lookup_iff hchain le_rfl (fun e he => ?_) (some "u") none
  simp only [List.mem_cons, List.not_mem_nil, or_false] at he
  obtain rfl | rfl := he
  · exact ⟨by decide, by decide⟩
  · exact ⟨by decide, by decide⟩

/-- The lookup of `u` at the inner element finds a namespace whose prefix means `v` there. -/
theorem shadowed_namespace_is_found :
    findNamespace redeclared (some "u") none 2 1 = some ⟨0, some "p", "u"⟩ ∧
      findNamespaceOfPrefix redeclared (some "p") 2 1 = some ⟨1, some "p", "v"⟩ ∧
      ¬ LooksUpRight redeclared 2 1 (some "u") none := by
  have hfound : findNamespace redeclared (some "u") none 2 1 = some ⟨0, some "p", "u"⟩ := by
    decide
  have hpre : findNamespaceOfPrefix redeclared (some "p") 2 1 = some ⟨1, some "p", "v"⟩ := by
    decide
  refine ⟨hfound, hpre, fun hright => ?_⟩
  obtain ⟨ns, hns, huri⟩ := hright.visible _ hfound
  obtain rfl := Option.some.inj (hpre.symm.trans hns)
  exact absurd huri (by decide)

end Axis2C.Om
