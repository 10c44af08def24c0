import Axis2C.OmBuilderTree
import Axis2C.OmDetach

/-!
# Names of elements and attributes over runs

The calls that build a tree of elements and give them namespaces. A name keeps its
namespace object, while its prefix is looked up in the tables: a declaration moves every
name below that sees its prefix through it.
-/
namespace Axis2C.Om

section Operations

/-- The tree and the number of nodes made so far, which are numbered in the order in which
they were made. A lookup climbs at most that many levels. -/
structure Store where
  heap : OmHeap
  size : ℕ

/-- No node was made. -/
def Store.empty : Store where
  heap :=
    { live := fun _ => false
      parent := fun _ => none
      prev := fun _ => none
      next := fun _ => none
      firstChild := fun _ => none
      lastChild := fun _ => none
      data := fun _ => ⟨.invalid, none, false, false⟩ }
  size := 0

/-- The part of `axiom_element_create` before the namespace. -/
def newElement (s : Store) (parent : Option ℕ) (localName : String) : Store :=
  let h := nodeCreate s.heap s.size
    ⟨.element, some (.element ⟨localName, none, [], [], false⟩), false, false⟩
  let h := match parent with
    | none => h
    | some parent => addChild h parent s.size
  ⟨h, s.size + 1⟩

/-- The namespace that an element gets: the one found in scope, else the one given, which is
declared. -/
def setNamespaceAt (h : OmHeap) (fuel n : ℕ) (ns : Namespace) : OmHeap :=
  match findNamespace h (some ns.uri) ns.nsPrefix fuel n with
  | some found =>
    match elementAt h n with
    | none => h
    | some e => setElement h n { e with ns := some found }
  | none =>
    let h := declareNamespace h fuel n ns
    match elementAt h n with
    | none => h
    | some e => setElement h n { e with ns := some ns }

/-- `axiom_element_create`. -/
def elementCreate (s : Store) (parent : Option ℕ) (localName : String) (ns : Option Namespace) :
    Store :=
  let s' := newElement s parent localName
  match ns with
  | none => s'
  | some ns => ⟨setNamespaceAt s'.heap s'.size s.size ns, s'.size⟩

/-- `axiom_element_set_namespace`. -/
def setNamespace (s : Store) (n : ℕ) (ns : Namespace) : Store :=
  ⟨setNamespaceAt s.heap s.size n ns, s.size⟩

/-- `axiom_element_declare_default_namespace`, with the address of the new object. -/
def declareDefaultNamespace (s : Store) (n : ℕ) (uri : String) (address : ℕ) : Store :=
  if uri = "" then s
  else ⟨declareNamespaceAssumeParamOwnership s.heap n ⟨address, some "", uri⟩, s.size⟩

end Operations

section Runs

/-- A call of a client. -/
inductive ElementCall where
  | create (parent : Option ℕ) (localName : String) (ns : Option Namespace)
  | setNamespace (n : ℕ) (ns : Namespace)
  | declareNamespace (n : ℕ) (ns : Namespace)
  | declareDefaultNamespace (n : ℕ) (uri : String) (address : ℕ)
  | addAttribute (n : ℕ) (a : Attribute)
  deriving DecidableEq, Repr

def ElementCall.perform (s : Store) : ElementCall → Store
  | .create parent localName ns => elementCreate s parent localName ns
  | .setNamespace n ns => Om.setNamespace s n ns
  | .declareNamespace n ns => ⟨Om.declareNamespace s.heap s.size n ns, s.size⟩
  | .declareDefaultNamespace n uri address => Om.declareDefaultNamespace s n uri address
  | .addAttribute n a => ⟨Om.addAttribute s.heap s.size n a, s.size⟩

def ElementCall.Valid (s : Store) : ElementCall → Prop
  | .create parent _ _ => ∀ p, parent = some p → p < s.size
  | .setNamespace n _ => n < s.size
  | .declareNamespace n _ => n < s.size
  | .declareDefaultNamespace n _ _ => n < s.size
  | .addAttribute n _ => n < s.size

/-- The states of the runs whose calls are all allowed. -/
inductive Runs (allowed : Store → ElementCall → Prop) : Store → Prop where
  | empty : Runs allowed .empty
  | call {s : Store} {call : ElementCall} : Runs allowed s → call.Valid s → allowed s call →
      Runs allowed (call.perform s)

/-- The prefix of a namespace gives its URI at this element. -/
def Resolvable (s : Store) (n : ℕ) (ns : Namespace) : Prop :=
  ∀ fuel, s.size ≤ fuel → ∃ ns', findNamespaceUri s.heap ns.key fuel n = some ns' ∧
    ns'.uri = ns.uri

/-- The namespace of an element. -/
def OwnName (h : OmHeap) (n : ℕ) (ns : Namespace) : Prop :=
  ∃ e, elementAt h n = some e ∧ e.ns = some ns

def AttributeName (h : OmHeap) (n : ℕ) (ns : Namespace) : Prop :=
  ns.key ≠ "" ∧ ∃ e, elementAt h n = some e ∧ ∃ entry ∈ e.attributes, entry.2.ns = some ns

def AllResolvable (s : Store) : Prop :=
  ∀ n ns, OwnName s.heap n ns ∨ AttributeName s.heap n ns → Resolvable s n ns

/-- A lookup of a prefix from the second node on comes to the first one. -/
inductive Sees (h : OmHeap) (q : String) (n : ℕ) : ℕ → Prop where
  | here : Sees h q n n
  | above {d p : ℕ} : declared h q d = none → parentElement h d = some p → Sees h q n p →
      Sees h q n d

/-- No name that sees the prefix through this element has another URI under it. -/
def NoClash (h : OmHeap) (n : ℕ) (ns : Namespace) (names : ℕ → Namespace → Prop) : Prop :=
  ∀ d ns', names d ns' → ns'.key = ns.key → Sees h ns.key n d → ns'.uri = ns.uri

/-- The nearest declaration of its prefix has the URI of the namespace that was found. A
namespace that was asked for with its prefix is the nearest. -/
def Unshadowed (h : OmHeap) (fuel n : ℕ) (ns found : Namespace) : Prop :=
  ns.key = "" → ∀ ns', findNamespaceUri h found.key fuel n = some ns' → ns'.uri = found.uri

/-- The condition of a call that sets the namespace of an element. -/
def SetKeeps (h : OmHeap) (fuel n : ℕ) (ns : Namespace) : Prop :=
  match findNamespace h (some ns.uri) ns.nsPrefix fuel n with
  | some found => Unshadowed h fuel n ns found
  | none => NoClash h n ns fun d ns' => (d ≠ n ∧ OwnName h d ns') ∨ AttributeName h d ns'

/-- What keeps the names: a declaration clashes with no name in its scope, and a namespace
found by its URI alone is not shadowed. -/
def ElementCall.Keeps (s : Store) : ElementCall → Prop
  | .create parent _ ns => ∀ p ns' found, parent = some p → ns = some ns' →
      findNamespace s.heap (some ns'.uri) ns'.nsPrefix s.size p = some found →
      Unshadowed s.heap s.size p ns' found
  | .setNamespace n ns => SetKeeps s.heap s.size n ns
  | .declareNamespace n ns => NoClash s.heap n ns fun d ns' =>
    OwnName s.heap d ns' ∨ AttributeName s.heap d ns'
  | .declareDefaultNamespace n uri address => uri ≠ "" →
      NoClash s.heap n ⟨address, some "", uri⟩ (OwnName s.heap)
  | .addAttribute n a => ∀ ns, a.ns = some ns →
      NoClash s.heap n ns fun d ns' => OwnName s.heap d ns' ∨ AttributeName s.heap d ns'

end Runs

section Lookups

variable {h : OmHeap} {n d fuel : ℕ} {e e' : Element} {ns : Namespace} {q : String}

lemma findNamespaceUri_mono {fuel' : ℕ} (hfind : findNamespaceUri h q fuel d = some ns)
    (hle : fuel ≤ fuel') : findNamespaceUri h q fuel' d = some ns := by
  induction fuel generalizing d fuel' with
  | zero => simp [findNamespaceUri] at hfind
  | succ fuel ih =>
    obtain ⟨k, rfl⟩ := Nat.exists_eq_add_of_le' (Nat.zero_lt_of_lt hle)
    cases hd : elementAt h d with
    | none => simp [findNamespaceUri, hd] at hfind
    | some ed =>
      have hsome : (elementAt h d).isSome := by simp [hd]
      rw [findNamespaceUri_succ _ hsome] at hfind ⊢
      obtain hfind | ⟨hnone, hfind⟩ := Option.or_eq_some_iff.mp hfind
      · rw [hfind, Option.some_or]
      · obtain ⟨p, hp, hfind⟩ := Option.bind_eq_some_iff.mp hfind
        rw [hnone, Option.none_or, hp, Option.bind_some]
        exact ih hfind (by omega)

/-- After a declaration a lookup gives what it gave, or sees the new declaration. -/
lemma findNamespaceUri_declare (he : elementAt h n = some e) (fuel d : ℕ) :
    findNamespaceUri (retable h n e (hashSet e.namespaces ns.key ns)) q fuel d =
        findNamespaceUri h q fuel d ∨
      q = ns.key ∧ Sees h q n d ∧
        findNamespaceUri (retable h n e (hashSet e.namespaces ns.key ns)) q fuel d = some ns := by
  by_cases hq : q = ns.key
  · subst hq
    induction fuel generalizing d with
    | zero => exact .inl rfl
    | succ fuel ih =>
      have hsome := elementAt_retable_isSome he (hashSet e.namespaces ns.key ns) d
      cases hd : (elementAt h d).isSome with
      | false =>
        have h1 : elementAt h d = none := by simpa using hd
        have h2 : elementAt (retable h n e (hashSet e.namespaces ns.key ns)) d = none := by
          simpa using hsome.trans hd
        left
        simp [findNamespaceUri, h1, h2]
      | true =>
        rw [findNamespaceUri_succ fuel hd, findNamespaceUri_succ fuel (hsome.trans hd),
          declared_retable he, parentElement_retable he]
        by_cases hdn : d = n
        · right
          subst hdn
          exact ⟨rfl, .here, by simp [hashGet_hashSet]⟩
        · rw [if_neg hdn]
          cases hdecl : declared h ns.key d with
          | some ns' =>
            left
            simp
          | none =>
            cases hp : parentElement h d with
            | none =>
              left
              simp
            | some p =>
              simp only [Option.none_or, Option.bind_some]
              obtain hsame | ⟨-, hsees, hnew⟩ := ih p
              · exact .inl hsame
              · exact .inr ⟨trivial, .above hdecl hp hsees, hnew⟩
  · left
    apply findNamespaceUri_retable he
    rw [hashGet_hashSet, if_neg hq]

lemma findNamespaceUri_declare_here (he : elementAt h n = some e) (hfuel : 0 < fuel) :
    findNamespaceUri (retable h n e (hashSet e.namespaces ns.key ns)) ns.key fuel n = some ns := by
  obtain ⟨k, rfl⟩ := Nat.exists_eq_add_of_le' hfuel
  have hsome := elementAt_retable_isSome he (hashSet e.namespaces ns.key ns) n
  rw [findNamespaceUri_succ k (by simp [hsome, he]), declared_retable he, if_pos rfl,
    hashGet_hashSet, if_pos rfl, Option.some_or]

/-- Another name or other attributes do not change a lookup. -/
lemma findNamespaceUri_setElement (he : elementAt h n = some e)
    (htable : e'.namespaces = e.namespaces) (fuel d : ℕ) :
    findNamespaceUri (setElement h n e') q fuel d = findNamespaceUri h q fuel d := by
  have hsome (m : ℕ) : (elementAt (setElement h n e') m).isSome = (elementAt h m).isSome := by
    by_cases hm : m = n
    · rw [hm, elementAt_setElement he, he, Option.isSome_some, Option.isSome_some]
    · rw [elementAt_setElement_ne hm]
  apply findNamespaceUri_congr hsome
  · intro m
    unfold parentElement
    simp only [hsome]
    rfl
  · intro m
    unfold declared
    by_cases hm : m = n
    · rw [hm, elementAt_setElement he, he, Option.bind_some, Option.bind_some, htable]
    · rw [elementAt_setElement_ne hm]

lemma declare_eq_retable (he : elementAt h n = some e) (ns : Namespace) :
    declareNamespaceAssumeParamOwnership h n ns =
      retable h n e (hashSet e.namespaces ns.key ns) := by
  unfold declareNamespaceAssumeParamOwnership
  rw [he]
  rfl

/-- A namespace found by its URI alone stands in a table on the way up, under its prefix. -/
lemma findNamespace_default (hk : Keyed h) {uri : String} {nsPrefix : Option String}
    (hpref : nsPrefix.getD "" = "")
    (hfind : findNamespace h (some uri) nsPrefix fuel n = some ns) :
    ∃ ns', findNamespaceUri h ns.key fuel n = some ns' := by
  induction fuel generalizing n with
  | zero => simp [findNamespace] at hfind
  | succ fuel ih =>
    cases he : elementAt h n with
    | none => simp [findNamespace, he] at hfind
    | some e =>
      have hup (hfind : (parentElement h n).bind (findNamespace h (some uri) nsPrefix fuel) =
          some ns) : ∃ ns', findNamespaceUri h ns.key (fuel + 1) n = some ns' := by
        obtain ⟨p, hp, hfind⟩ := Option.bind_eq_some_iff.mp hfind
        obtain ⟨ns', hns'⟩ := ih hfind
        rw [findNamespaceUri_succ fuel (by simp [he]), hp, Option.bind_some, hns']
        cases declared h ns.key n <;> simp
      simp only [findNamespace, he, findNamespaceHere, hpref, if_true] at hfind
      by_cases hempty : e.namespaces.isEmpty = true
      · rw [if_pos hempty] at hfind
        exact hup hfind
      rw [if_neg hempty] at hfind
      cases hdefault : getDefaultNamespace h (fuel + 1) n with
      | some found =>
        simp only [hdefault] at hfind
        split at hfind
        · obtain rfl := Option.some.inj hfind
          refine ⟨found, ?_⟩
          rw [findNamespaceUri_key hk hdefault]
          exact hdefault
        · simp at hfind
      | none =>
        simp only [hdefault] at hfind
        cases hentry : e.namespaces.find? fun entry => entry.2.uri = uri with
        | none =>
          simp only [hentry, Option.map_none] at hfind
          exact hup hfind
        | some entry =>
          simp only [hentry, Option.map_some] at hfind
          obtain rfl := Option.some.inj hfind
          have hmem := List.mem_of_find?_eq_some hentry
          have hsome := hashGet_isSome_of_mem hmem
          rw [← hk n e he entry hmem] at hsome
          obtain ⟨ns', hns'⟩ := Option.isSome_iff_exists.mp hsome
          refine ⟨ns', ?_⟩
          rw [findNamespaceUri_succ fuel (by simp [he])]
          simp [declared, he, hns']

/-- The name of an element that got the namespace found in scope. -/
lemma findNamespace_resolves (hk : Keyed h) {found : Namespace}
    (hfind : findNamespace h (some ns.uri) ns.nsPrefix fuel n = some found)
    (hshadow : Unshadowed h fuel n ns found) :
    ∃ ns', findNamespaceUri h found.key fuel n = some ns' ∧ ns'.uri = found.uri := by
  by_cases hkey : ns.key = ""
  · obtain ⟨ns', hns'⟩ := findNamespace_default hk hkey hfind
    exact ⟨ns', hns', hshadow hkey ns' hns'⟩
  · obtain ⟨p, hp⟩ : ∃ p, ns.nsPrefix = some p := by
      cases hpref : ns.nsPrefix with
      | none => simp [Namespace.key, hpref] at hkey
      | some p => exact ⟨p, rfl⟩
    have hpne : p ≠ "" := by simpa [Namespace.key, hp] using hkey
    have hfind' := hfind
    rw [hp] at hfind'
    obtain ⟨huri, hfoundp⟩ := findNamespace_prefixed hk hpne hfind'
    rw [← huri, ← hfoundp] at hfind'
    exact ⟨found, (findNamespace_iff hk found fuel).mp hfind', rfl⟩

end Lookups

section Names

variable {h : OmHeap} {n d fuel : ℕ} {e e' : Element} {ns ns' : Namespace}

/-- With this fuel the prefix gives the URI. -/
def Resolved (h : OmHeap) (fuel d : ℕ) (ns : Namespace) : Prop :=
  ∃ ns', findNamespaceUri h ns.key fuel d = some ns' ∧ ns'.uri = ns.uri

section

variable (he : elementAt h n = some e)

include he

/-- A declaration without a clash keeps the names. -/
lemma Resolved.declare {names : ℕ → Namespace → Prop} (hclash : NoClash h n ns names)
    (hname : names d ns') (hres : Resolved h fuel d ns') :
    Resolved (declareNamespaceAssumeParamOwnership h n ns) fuel d ns' := by
  rw [declare_eq_retable he]
  obtain hsame | ⟨hkey, hsees, hnew⟩ := @findNamespaceUri_declare h n e ns ns'.key he fuel d
  · obtain ⟨r, hr, huri⟩ := hres
    exact ⟨r, hsame.trans hr, huri⟩
  · refine ⟨ns, hnew, (hclash d ns' hname hkey ?_).symm⟩
    rw [← hkey]
    exact hsees

lemma resolved_setElement (htable : e'.namespaces = e.namespaces) (hres : Resolved h fuel d ns) :
    Resolved (setElement h n e') fuel d ns := by
  obtain ⟨r, hr, huri⟩ := hres
  exact ⟨r, by rw [findNamespaceUri_setElement he htable, hr], huri⟩

lemma elementAt_declare (ns : Namespace) :
    elementAt (declareNamespaceAssumeParamOwnership h n ns) n =
      some { e with namespaces := hashSet e.namespaces ns.key ns } := by
  rw [declare_eq_retable he, elementAt_retable he, if_pos rfl]

lemma elementAt_declare_ne (ns : Namespace) (hd : d ≠ n) :
    elementAt (declareNamespaceAssumeParamOwnership h n ns) d = elementAt h d := by
  rw [declare_eq_retable he, elementAt_retable he, if_neg hd]

lemma ownName_declare (ns : Namespace) :
    OwnName (declareNamespaceAssumeParamOwnership h n ns) d ns' ↔ OwnName h d ns' := by
  unfold OwnName
  by_cases hd : d = n
  · subst hd
    simp [elementAt_declare he, he]
  · rw [elementAt_declare_ne he ns hd]

lemma attributeName_declare (ns : Namespace) :
    AttributeName (declareNamespaceAssumeParamOwnership h n ns) d ns' ↔ AttributeName h d ns' := by
  unfold AttributeName
  by_cases hd : d = n
  · subst hd
    simp [elementAt_declare he, he]
  · rw [elementAt_declare_ne he ns hd]

lemma ownName_setElement :
    OwnName (setElement h n e') d ns ↔ d = n ∧ e'.ns = some ns ∨ d ≠ n ∧ OwnName h d ns := by
  unfold OwnName
  by_cases hd : d = n
  · subst hd
    simp [elementAt_setElement he]
  · simp [elementAt_setElement_ne hd, hd]

lemma attributeName_setElement :
    AttributeName (setElement h n e') d ns ↔
      d = n ∧ ns.key ≠ "" ∧ (∃ entry ∈ e'.attributes, entry.2.ns = some ns) ∨
        d ≠ n ∧ AttributeName h d ns := by
  unfold AttributeName
  by_cases hd : d = n
  · subst hd
    simp [elementAt_setElement he]
  · simp [elementAt_setElement_ne hd, hd]

end

lemma Keyed.rename (hk : Keyed h) (he : elementAt h n = some e)
    (htable : e'.namespaces = e.namespaces) : Keyed (Om.setElement h n e') := by
  apply hk.setElement he
  rw [htable]
  exact hk n e he

lemma keyed_declaration (hk : Keyed h) (he : elementAt h n = some e) (ns : Namespace) :
    Keyed (declareNamespaceAssumeParamOwnership h n ns) := by
  rw [declare_eq_retable he]
  apply retable_keyed hk he
  intro entry hentry
  obtain rfl | hentry := mem_hashSet hentry
  · rfl
  · exact hk n e he entry hentry

end Names

section Steps

variable {s : Store} {n : ℕ} {ns : Namespace}

/-- What every call keeps. -/
structure Sound (s : Store) : Prop where
  keyed : Keyed s.heap
  elements : ∀ m, (elementAt s.heap m).isSome ↔ m < s.size
  parents : ∀ m p, s.heap.parent m = some p → p < m ∧ m < s.size
  names : ∀ d ns, OwnName s.heap d ns ∨ AttributeName s.heap d ns →
    Resolved s.heap s.size d ns

lemma Sound.element (hs : Sound s) (hn : n < s.size) : ∃ e, elementAt s.heap n = some e :=
  Option.isSome_iff_exists.mp ((hs.elements n).mpr hn)

/-- The parts that a change of the element `n` keeps. -/
structure SameLinks (h h' : OmHeap) (n : ℕ) : Prop where
  parent : h'.parent = h.parent
  element : (elementAt h' n).isSome = (elementAt h n).isSome
  others : ∀ m, m ≠ n → elementAt h' m = elementAt h m

lemma sameLinks_setElement {h : OmHeap} {e e' : Element} (he : elementAt h n = some e) :
    SameLinks h (setElement h n e') n where
  parent := rfl
  element := by rw [elementAt_setElement he, he, Option.isSome_some, Option.isSome_some]
  others m hm := elementAt_setElement_ne hm

lemma Sound.change (hs : Sound s) {h' : OmHeap} (hlinks : SameLinks s.heap h' n)
    (hk : Keyed h')
    (hnames : ∀ d ns, OwnName h' d ns ∨ AttributeName h' d ns → Resolved h' s.size d ns) :
    Sound ⟨h', s.size⟩ := by
  refine ⟨hk, fun m => ?_, fun m p hp => hs.parents m p (hlinks.parent ▸ hp), hnames⟩
  rw [← hs.elements m]
  by_cases hm : m = n
  · rw [hm, hlinks.element]
  · rw [hlinks.others m hm]

lemma Sound.declare (hs : Sound s) (hn : n < s.size)
    (hclash : NoClash s.heap n ns fun d ns' => OwnName s.heap d ns' ∨ AttributeName s.heap d ns') :
    Sound ⟨declareNamespaceAssumeParamOwnership s.heap n ns, s.size⟩ := by
  obtain ⟨e, he⟩ := hs.element hn
  have hlinks : SameLinks s.heap (declareNamespaceAssumeParamOwnership s.heap n ns) n := by
    rw [declare_eq_retable he]
    exact sameLinks_setElement he
  apply hs.change hlinks (keyed_declaration hs.keyed he ns)
  intro d ns' hname
  rw [ownName_declare he, attributeName_declare he] at hname
  exact (hs.names d ns' hname).declare he hclash hname

lemma declareNamespace_eq {h : OmHeap} {fuel : ℕ}
    (hfind : findNamespace h (some ns.uri) ns.nsPrefix fuel n = none) :
    declareNamespace h fuel n ns = declareNamespaceAssumeParamOwnership h n ns := by
  simp [declareNamespace, hfind]

/-- The namespace of an element, with the condition of `axiom_element_set_namespace`. -/
lemma Sound.setNamespaceAt (hs : Sound s) (hn : n < s.size)
    (hkeeps : SetKeeps s.heap s.size n ns) :
    Sound ⟨Om.setNamespaceAt s.heap s.size n ns, s.size⟩ := by
  obtain ⟨e, he⟩ := hs.element hn
  unfold Om.setNamespaceAt
  unfold SetKeeps at hkeeps
  cases hfind : findNamespace s.heap (some ns.uri) ns.nsPrefix s.size n with
  | some found =>
    simp only [hfind, he] at hkeeps ⊢
    refine hs.change (sameLinks_setElement he) (hs.keyed.rename he rfl) ?_
    intro d ns' hname
    refine resolved_setElement he rfl ?_
    rw [ownName_setElement he, attributeName_setElement he] at hname
    rcases hname with (⟨rfl, hown⟩ | ⟨-, hown⟩) | (⟨rfl, hkey, hattr⟩ | ⟨-, hattr⟩)
    · obtain rfl := Option.some.inj hown
      exact findNamespace_resolves hs.keyed hfind hkeeps
    · exact hs.names d ns' (.inl hown)
    · exact hs.names d ns' (.inr ⟨hkey, e, he, hattr⟩)
    · exact hs.names d ns' (.inr hattr)
  | none =>
    simp only [hfind] at hkeeps
    simp only [declareNamespace_eq hfind, elementAt_declare he]
    have he' := elementAt_declare he ns
    have hkeyed := keyed_declaration hs.keyed he ns
    have hlinks : SameLinks s.heap
        (setElement (declareNamespaceAssumeParamOwnership s.heap n ns) n
          { e with ns := some ns, namespaces := hashSet e.namespaces ns.key ns }) n := by
      rw [declare_eq_retable he, retable, setElement_setElement]
      exact sameLinks_setElement he
    refine hs.change hlinks (hkeyed.rename he' rfl) ?_
    intro d ns' hname
    refine resolved_setElement he' rfl ?_
    rw [ownName_setElement he', attributeName_setElement he', ownName_declare he,
      attributeName_declare he] at hname
    rcases hname with (⟨rfl, hown⟩ | ⟨hd, hown⟩) | (⟨rfl, hkey, hattr⟩ | ⟨-, hattr⟩)
    · obtain rfl := Option.some.inj hown
      refine ⟨ns, ?_, rfl⟩
      rw [declare_eq_retable he]
      exact findNamespaceUri_declare_here he (Nat.zero_lt_of_lt hn)
    · exact (hs.names d ns' (.inl hown)).declare he hkeeps (.inl ⟨hd, hown⟩)
    · have hattr' : AttributeName s.heap d ns' := ⟨hkey, e, he, hattr⟩
      exact (hs.names d ns' (.inr hattr')).declare he hkeeps (.inr hattr')
    · exact (hs.names d ns' (.inr hattr)).declare he hkeeps (.inr hattr)

/-- The attribute goes into its table after its namespace was declared. -/
lemma Sound.addAttribute (hs : Sound s) (hn : n < s.size) {a : Attribute}
    (hkeeps : ElementCall.Keeps s (.addAttribute n a)) :
    Sound ⟨Om.addAttribute s.heap s.size n a, s.size⟩ := by
  -- the attribute resolves in the tree in which it is put
  have hput (h' : OmHeap) (hs' : Sound ⟨h', s.size⟩)
      (hres : ∀ ns, a.ns = some ns → Resolved h' s.size n ns) :
      Sound ⟨match elementAt h' n with
        | none => h'
        | some e => setElement h' n { e with attributes := hashSet e.attributes a.qname a },
        s.size⟩ := by
    obtain ⟨e, he⟩ := hs'.element hn
    simp only [he]
    refine hs'.change (sameLinks_setElement he) (hs'.keyed.rename he rfl) ?_
    intro d ns' hname
    refine resolved_setElement he rfl ?_
    rw [ownName_setElement he, attributeName_setElement he] at hname
    rcases hname with (⟨rfl, hown⟩ | ⟨-, hown⟩) | (⟨rfl, hkey, entry, hentry, hns⟩ | ⟨-, hattr⟩)
    · exact hs'.names d ns' (.inl ⟨e, he, hown⟩)
    · exact hs'.names d ns' (.inl hown)
    · obtain rfl | hentry := mem_hashSet hentry
      · exact hres ns' hns
      · exact hs'.names d ns' (.inr ⟨hkey, e, he, entry, hentry, hns⟩)
    · exact hs'.names d ns' (.inr hattr)
  unfold Om.addAttribute
  cases hans : a.ns with
  | none => exact hput s.heap hs fun ns hns => by simp [hans] at hns
  | some ns =>
    simp only
    by_cases hfind : findNamespace s.heap (some ns.uri) ns.nsPrefix s.size n = some ns
    · rw [if_pos hfind]
      apply hput s.heap hs
      intro ns' hns'
      obtain rfl := Option.some.inj (hans.symm.trans hns')
      exact ⟨ns, (findNamespace_iff hs.keyed ns s.size).mp hfind, rfl⟩
    · rw [if_neg hfind]
      obtain ⟨e, he⟩ := hs.element hn
      apply hput _ (hs.declare hn (hkeeps ns hans))
      intro ns' hns'
      obtain rfl := Option.some.inj (hans.symm.trans hns')
      refine ⟨ns, ?_, rfl⟩
      rw [declare_eq_retable he]
      exact findNamespaceUri_declare_here he (Nat.zero_lt_of_lt hn)

end Steps

section Create

variable {s : Store} {parent : Option ℕ} {localName : String} {ns : Namespace}

lemma addChild_parent {h : OmHeap} {n child : ℕ} (hsingle : h.parent child = none) :
    (addChild h n child).parent = Function.update h.parent child (some n) := by
  unfold addChild
  simp only [hsingle, Option.isSome_none, Bool.false_eq_true, if_false]
  split
  · rfl
  · split <;> rfl

lemma newElement_size : (newElement s parent localName).size = s.size + 1 := rfl

lemma newElement_parent (m : ℕ) : (newElement s parent localName).heap.parent m =
    if m = s.size then parent else s.heap.parent m := by
  unfold newElement
  cases parent with
  | none => simp [nodeCreate, Function.update_apply]
  | some p =>
    rw [addChild_parent (by simp [nodeCreate])]
    by_cases hm : m = s.size <;> simp [nodeCreate, hm]

lemma newElement_elementAt (m : ℕ) : elementAt (newElement s parent localName).heap m =
    if m = s.size then some ⟨localName, none, [], [], false⟩ else elementAt s.heap m := by
  have hdata : (newElement s parent localName).heap.data = Function.update s.heap.data s.size
      ⟨.element, some (.element ⟨localName, none, [], [], false⟩), false, false⟩ := by
    unfold newElement
    cases parent with
    | none => rfl
    | some p => exact addChild_data (by simp [nodeCreate])
  unfold elementAt
  rw [hdata]
  by_cases hm : m = s.size <;> simp [hm]

lemma Sound.parentElement_new (hs : Sound s) {d : ℕ} (hd : d < s.size) :
    parentElement (newElement s parent localName).heap d = parentElement s.heap d := by
  unfold parentElement
  rw [newElement_parent, if_neg hd.ne]
  cases hp : s.heap.parent d with
  | none => rfl
  | some p =>
    obtain ⟨hpd, -⟩ := hs.parents d p hp
    simp only [Option.filter_some, newElement_elementAt, if_neg (by omega : p ≠ s.size)]

lemma Sound.parentElement_lt (hs : Sound s) {d p : ℕ} (hp : parentElement s.heap d = some p) :
    p < s.size :=
  (hs.elements p).mp (parentElement_isSome hp)

/-- Their lookups give what they gave. -/
lemma Sound.findNamespaceUri_new (hs : Sound s) (q : String) (fuel : ℕ) {d : ℕ}
    (hd : d < s.size) :
    findNamespaceUri (newElement s parent localName).heap q fuel d =
      findNamespaceUri s.heap q fuel d := by
  induction fuel generalizing d with
  | zero => rfl
  | succ fuel ih =>
    obtain ⟨e, he⟩ := hs.element hd
    have he' : elementAt (newElement s parent localName).heap d = some e := by
      rw [newElement_elementAt, if_neg hd.ne, he]
    simp only [findNamespaceUri, he, he', hs.parentElement_new hd]
    cases hp : parentElement s.heap d with
    | none => rfl
    | some p => simp [ih (hs.parentElement_lt hp)]

lemma Sound.findNamespace_new (hs : Sound s) (uri nsPrefix : Option String) (fuel : ℕ) {d : ℕ}
    (hd : d < s.size) :
    findNamespace (newElement s parent localName).heap uri nsPrefix fuel d =
      findNamespace s.heap uri nsPrefix fuel d := by
  induction fuel generalizing d with
  | zero => rfl
  | succ fuel ih =>
    obtain ⟨e, he⟩ := hs.element hd
    have he' : elementAt (newElement s parent localName).heap d = some e := by
      rw [newElement_elementAt, if_neg hd.ne, he]
    simp only [findNamespace, he, he', hs.parentElement_new hd, findNamespaceHere,
      getDefaultNamespace, hs.findNamespaceUri_new "" (fuel + 1) hd]
    cases hp : parentElement s.heap d with
    | none => rfl
    | some p => simp [ih (hs.parentElement_lt hp)]

lemma Sound.newElement (hs : Sound s) (hparent : ∀ p, parent = some p → p < s.size) :
    Sound (newElement s parent localName) := by
  have hold {d : ℕ} (hd : d ≠ s.size) :
      elementAt (Om.newElement s parent localName).heap d = elementAt s.heap d := by
    rw [newElement_elementAt, if_neg hd]
  have hnew : elementAt (Om.newElement s parent localName).heap s.size =
      some ⟨localName, none, [], [], false⟩ := by
    rw [newElement_elementAt, if_pos rfl]
  refine ⟨fun m e he => ?_, fun m => ?_, fun m p hp => ?_, fun d ns hname => ?_⟩
  · by_cases hm : m = s.size
    · rw [hm, hnew] at he
      obtain rfl := Option.some.inj he
      simp
    · exact hs.keyed m e (hold hm ▸ he)
  · by_cases hm : m = s.size
    · simp [hm, hnew, newElement_size]
    · rw [hold hm, hs.elements m, newElement_size]
      omega
  · rw [newElement_parent] at hp
    split at hp
    · next hm =>
      have hlt := hparent p hp
      rw [hm, newElement_size]
      exact ⟨hlt, Nat.lt_succ_self s.size⟩
    · obtain ⟨hpm, hm⟩ := hs.parents m p hp
      exact ⟨hpm, Nat.lt_succ_of_lt hm⟩
  · have hd : d ≠ s.size := by
      rintro rfl
      rcases hname with ⟨e, he, hns⟩ | ⟨-, e, he, entry, hentry, -⟩
      · rw [hnew] at he
        obtain rfl := Option.some.inj he
        simp at hns
      · rw [hnew] at he
        obtain rfl := Option.some.inj he
        simp at hentry
    have hname' : OwnName s.heap d ns ∨ AttributeName s.heap d ns := by
      simpa only [OwnName, AttributeName, hold hd] using hname
    have hlt : d < s.size := by
      obtain ⟨e, he, -⟩ | ⟨-, e, he, -⟩ := hname'
      · exact (hs.elements d).mp (by simp [he])
      · exact (hs.elements d).mp (by simp [he])
    obtain ⟨r, hr, huri⟩ := hs.names d ns hname'
    refine ⟨r, ?_, huri⟩
    rw [hs.findNamespaceUri_new _ _ hlt]
    exact findNamespaceUri_mono hr (Nat.le_succ s.size)

lemma Sound.sees_new (hs : Sound s) {q : String} {d : ℕ}
    (hsees : Sees (Om.newElement s parent localName).heap q s.size d) : d = s.size := by
  induction hsees with
  | here => rfl
  | @above d p _ hp _ ih =>
    by_contra hd
    obtain ⟨hparent, -⟩ := Option.filter_eq_some_iff.mp hp
    rw [newElement_parent, if_neg hd] at hparent
    obtain ⟨hpd, hds⟩ := hs.parents d p hparent
    omega

lemma Sound.lookup_new (hs : Sound s) (hparent : ∀ p, parent = some p → p < s.size)
    {found : Namespace}
    (hfind : findNamespace (Om.newElement s parent localName).heap (some ns.uri) ns.nsPrefix
      (s.size + 1) s.size = some found) :
    ∃ p, parent = some p ∧
      findNamespace s.heap (some ns.uri) ns.nsPrefix s.size p = some found ∧
      findNamespaceUri (Om.newElement s parent localName).heap found.key (s.size + 1) s.size =
        findNamespaceUri s.heap found.key s.size p := by
  have hnew : elementAt (Om.newElement s parent localName).heap s.size =
      some ⟨localName, none, [], [], false⟩ := by
    rw [newElement_elementAt, if_pos rfl]
  simp only [findNamespace, hnew, findNamespaceHere, List.isEmpty_nil, if_true] at hfind
  obtain ⟨p, hp, hfind⟩ := Option.bind_eq_some_iff.mp hfind
  obtain ⟨hp', -⟩ := Option.filter_eq_some_iff.mp hp
  rw [newElement_parent, if_pos rfl] at hp'
  have hlt := hparent p hp'
  rw [hs.findNamespace_new _ _ _ hlt] at hfind
  refine ⟨p, hp', hfind, ?_⟩
  rw [findNamespaceUri_succ s.size (by simp [hnew]), hp, Option.bind_some,
    hs.findNamespaceUri_new _ _ hlt]
  simp [declared, hnew, hashGet]

/-- `axiom_element_create` keeps the names. -/
lemma Sound.create (hs : Sound s) {ns : Option Namespace}
    (hparent : ∀ p, parent = some p → p < s.size)
    (hkeeps : ElementCall.Keeps s (.create parent localName ns)) :
    Sound (elementCreate s parent localName ns) := by
  have hs' : Sound (Om.newElement s parent localName) := hs.newElement hparent
  cases ns with
  | none => exact hs'
  | some ns =>
    apply hs'.setNamespaceAt (by rw [newElement_size]; omega)
    unfold SetKeeps
    cases hfind : findNamespace (Om.newElement s parent localName).heap (some ns.uri) ns.nsPrefix
        (Om.newElement s parent localName).size s.size with
    | some found =>
      simp only
      obtain ⟨p, hp, hfind', hlookup⟩ := hs.lookup_new hparent hfind
      intro hkey ns' hns'
      exact hkeeps p ns found hp rfl hfind' hkey ns' (hlookup ▸ hns')
    | none =>
      simp only
      intro d ns' hname _ hsees
      obtain rfl := hs.sees_new hsees
      have hnew : elementAt (Om.newElement s parent localName).heap s.size =
          some ⟨localName, none, [], [], false⟩ := by
        rw [newElement_elementAt, if_pos rfl]
      rcases hname with ⟨hne, -⟩ | ⟨-, e, he, entry, hentry, -⟩
      · exact absurd rfl hne
      · rw [hnew] at he
        obtain rfl := Option.some.inj he
        simp at hentry

end Create

section Results

variable {s : Store}

lemma Sound.empty : Sound .empty := by
  have hnone (m : ℕ) : elementAt Store.empty.heap m = none := rfl
  refine ⟨fun m e he => ?_, fun m => ?_, fun m p hp => ?_, fun d ns hname => ?_⟩
  · simp [hnone] at he
  · rw [hnone]
    simp [Store.empty]
  · simp [Store.empty] at hp
  · rcases hname with ⟨e, he, -⟩ | ⟨-, e, he, -⟩ <;> simp [hnone] at he

/-- Every call that meets the condition keeps the names. -/
lemma Sound.perform (hs : Sound s) {call : ElementCall} (hvalid : call.Valid s)
    (hkeeps : call.Keeps s) : Sound (call.perform s) := by
  cases call with
  | create parent localName ns => exact hs.create hvalid hkeeps
  | setNamespace n ns => exact hs.setNamespaceAt hvalid hkeeps
  | declareNamespace n ns =>
    simp only [ElementCall.perform, Om.declareNamespace]
    split
    · exact hs
    · exact hs.declare hvalid hkeeps
  | declareDefaultNamespace n uri address =>
    simp only [ElementCall.perform, Om.declareDefaultNamespace]
    split
    · exact hs
    · next huri =>
      apply hs.declare hvalid
      intro d ns' hname hkey
      rcases hname with hown | hattr
      · exact hkeeps huri d ns' hown hkey
      · exact absurd hkey hattr.1
  | addAttribute n a => exact hs.addAttribute hvalid hkeeps

lemma Runs.sound (hrun : Runs (fun s call => call.Keeps s) s) : Sound s := by
  induction hrun with
  | empty => exact Sound.empty
  | call _ hvalid hkeeps ih => exact ih.perform hvalid hkeeps

/-- An element `p:e`, with `p` declared. -/
def prefixedElement : Store :=
  (ElementCall.create none "e" (some ⟨0, some "p", "u"⟩)).perform .empty

/-- An element with an attribute `p:a` gets an attribute `p:b` from another namespace, and
`p` is declared again over the first. -/
def twoAttributes : List ElementCall :=
  [.create none "e" none, .addAttribute 0 ⟨"a", "1", some ⟨0, some "p", "u"⟩⟩,
    .addAttribute 0 ⟨"b", "2", some ⟨1, some "p", "v"⟩⟩]

end Results

end Axis2C.Om
