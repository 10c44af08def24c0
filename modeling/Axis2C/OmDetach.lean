import Axis2C.OmBuilderElements

/-!
# Detaching an element with its namespaces

`axiom_node_detach`: before an element is cut off, the namespaces that are declared
above it are gathered, and those that the subtree uses are declared again at its root.
The nodes are built, so that the walk over the children pulls nothing.
-/
namespace Axis2C.Om

section Operations

/-- One entry of a table in `axiom_element_gather_parent_namespaces`. -/
def gatherOne (e : Element) (inscope : List (String × Namespace)) (entry : String × Namespace) :
    List (String × Namespace) :=
  if (findDeclaredNamespace e none entry.2.nsPrefix).isSome then inscope
  else if (hashGet inscope entry.2.key).isSome then inscope
  else hashSet inscope entry.2.key entry.2

/-- `axiom_element_gather_parent_namespaces`, with fuel for the number of parents. -/
def gatherParentNamespaces (h : OmHeap) (e : Element) :
    ℕ → ℕ → List (String × Namespace) → List (String × Namespace)
  | 0, _, inscope => inscope
  | fuel + 1, n, inscope =>
    match parentElement h n with
    | none => inscope
    | some parent =>
      let namespaces := ((elementAt h parent).map Element.namespaces).getD []
      gatherParentNamespaces h e fuel parent (namespaces.foldl (gatherOne e) inscope)

/-- `axiom_element_use_parent_namespace`, on the heap and the namespaces in scope. -/
def useParentNamespace (fuel root n : ℕ) (s : OmHeap × List (String × Namespace))
    (ns : Option Namespace) : OmHeap × List (String × Namespace) :=
  match ns with
  | none => s
  | some ns =>
    match hashGet s.2 ns.key with
    | none => s
    | some parentNs =>
      if parentNs = ns ∧ findNamespace s.1 (some ns.uri) ns.nsPrefix fuel n ≠ some ns then
        (declareNamespaceAssumeParamOwnership s.1 root parentNs, hashUnset s.2 ns.key)
      else s

mutual

/-- `axiom_element_redeclare_parent_namespaces`; the fuel bounds the depth of the calls
and of the loops in them, and `lookup` the lookups. -/
def redeclareParentNamespaces (lookup root : ℕ) :
    ℕ → OmHeap × List (String × Namespace) → ℕ → Option (OmHeap × List (String × Namespace))
  | 0, _, _ => none
  | fuel + 1, s, n =>
    match elementAt s.1 n with
    | none => some s
    | some e =>
      let s := useParentNamespace lookup root n s e.ns
      let s := e.attributes.foldl
        (fun s entry => useParentNamespace lookup root n s entry.2.ns) s
      redeclareChildren lookup root fuel s (s.1.firstChild n)

/-- The loop over the children, which ends early when no namespace is left. -/
def redeclareChildren (lookup root : ℕ) :
    ℕ → OmHeap × List (String × Namespace) → Option ℕ →
      Option (OmHeap × List (String × Namespace))
  | _, s, none => some s
  | 0, _, some _ => none
  | fuel + 1, s, some child =>
    if s.2.isEmpty then some s
    else
      let r :=
        if (s.1.data child).nodeType = .element then
          redeclareParentNamespaces lookup root fuel s child
        else some s
      r.bind fun s => redeclareChildren lookup root fuel s (s.1.next child)

end

/-- `axiom_node_detach`. -/
def detach (fuel : ℕ) (h : OmHeap) (n : ℕ) : Option OmHeap :=
  match elementAt h n with
  | none => some (detachWithoutNamespaces h n)
  | some e =>
    let inscope := gatherParentNamespaces h e fuel n []
    let h := detachWithoutNamespaces h n
    if inscope.isEmpty then some h
    else (redeclareParentNamespaces fuel n fuel (h, inscope) n).map Prod.fst

end Operations

section Lookups

variable {h : OmHeap} {n : ℕ} {q : String}

def declared (h : OmHeap) (q : String) (n : ℕ) : Option Namespace :=
  (elementAt h n).bind fun e => hashGet e.namespaces q

/-- The elements above a node, nearest first. -/
def Ancestors (h : OmHeap) : ℕ → List ℕ → Prop
  | n, [] => parentElement h n = none
  | n, p :: ps => parentElement h n = some p ∧ Ancestors h p ps

lemma parentElement_isSome {p : ℕ} (hp : parentElement h n = some p) :
    (elementAt h p).isSome := by
  simpa using (Option.filter_eq_some_iff.mp hp).2

lemma findNamespaceUri_succ (fuel : ℕ) (hn : (elementAt h n).isSome) :
    findNamespaceUri h q (fuel + 1) n =
      (declared h q n).or ((parentElement h n).bind (findNamespaceUri h q fuel)) := by
  obtain ⟨e, he⟩ := Option.isSome_iff_exists.mp hn
  simp only [findNamespaceUri, declared, he, Option.bind_some]
  cases hashGet e.namespaces q <;> rfl

/-- A lookup depends on the links and on the declarations of its prefix. -/
lemma findNamespaceUri_congr {h' : OmHeap}
    (hsome : ∀ m, (elementAt h' m).isSome = (elementAt h m).isSome)
    (hparent : ∀ m, parentElement h' m = parentElement h m)
    (hdeclared : ∀ m, declared h' q m = declared h q m) (fuel m : ℕ) :
    findNamespaceUri h' q fuel m = findNamespaceUri h q fuel m := by
  induction fuel generalizing m with
  | zero => rfl
  | succ fuel ih =>
    cases hm : (elementAt h m).isSome with
    | true =>
      rw [findNamespaceUri_succ fuel hm, findNamespaceUri_succ fuel ((hsome m).trans hm),
        hdeclared, hparent]
      congr 1
      cases parentElement h m with
      | none => rfl
      | some p => exact ih p
    | false =>
      have h1 : elementAt h m = none := by simpa using hm
      have h2 : elementAt h' m = none := by simpa using (hsome m).trans hm
      simp [findNamespaceUri, h1, h2]

lemma findSome_cons {α : Type*} (f : ℕ → Option α) (n : ℕ) (ns : List ℕ) :
    (n :: ns).findSome? f = (f n).or (ns.findSome? f) := by
  rw [List.findSome?_cons]
  cases f n <;> rfl

lemma findSome_congr {α : Type*} {f g : ℕ → Option α} {ns : List ℕ} (hfg : ∀ m ∈ ns, f m = g m) :
    ns.findSome? f = ns.findSome? g := by
  induction ns with
  | nil => rfl
  | cons n ns ih =>
    rw [findSome_cons, findSome_cons, hfg n (by simp), ih fun m hm => hfg m (by simp [hm])]

/-- The lookup gives the nearest declaration. -/
lemma findNamespaceUri_eq {as : List ℕ} (hn : (elementAt h n).isSome) (has : Ancestors h n as)
    {fuel : ℕ} (hfuel : as.length < fuel) :
    findNamespaceUri h q fuel n = (n :: as).findSome? (declared h q) := by
  induction as generalizing n fuel with
  | nil =>
    obtain ⟨k, rfl⟩ : ∃ k, fuel = k + 1 := ⟨fuel - 1, by omega⟩
    rw [findNamespaceUri_succ k hn, show parentElement h n = none from has, findSome_cons]
    rfl
  | cons p ps ih =>
    obtain ⟨k, rfl⟩ : ∃ k, fuel = k + 1 := ⟨fuel - 1, by omega⟩
    obtain ⟨hp, hps⟩ := has
    rw [findNamespaceUri_succ k hn, hp, Option.bind_some,
      ih (parentElement_isSome hp) hps (by simpa using hfuel), findSome_cons _ n]

lemma findNamespaceUri_key (hk : Keyed h) {fuel : ℕ} {ns : Namespace}
    (hfind : findNamespaceUri h q fuel n = some ns) :
    ns.key = q := by
  induction fuel generalizing n with
  | zero => simp [findNamespaceUri] at hfind
  | succ fuel ih =>
    cases he : elementAt h n with
    | none => simp [findNamespaceUri, he] at hfind
    | some e =>
      rw [findNamespaceUri_succ fuel (by simp [he])] at hfind
      obtain hfind | ⟨-, hfind⟩ := Option.or_eq_some_iff.mp hfind
      · have hget : hashGet e.namespaces q = some ns := by simpa [declared, he] using hfind
        exact hk n e he _ (mem_of_hashGet hget)
      · obtain ⟨p, -, hfind⟩ := Option.bind_eq_some_iff.mp hfind
        exact ih hfind

lemma hashGet_isSome_of_mem {t : List (String × Namespace)} {entry : String × Namespace}
    (hentry : entry ∈ t) : (hashGet t entry.1).isSome := by
  induction t with
  | nil => simp at hentry
  | cons first t ih =>
    rw [hashGet_cons]
    by_cases hk : entry.1 = first.1
    · simp [hk]
    · rw [if_neg hk]
      obtain rfl | hentry := List.mem_cons.mp hentry
      · exact (hk rfl).elim
      · exact ih hentry

/-- `axiom_element_find_namespace` finds a given object exactly when it is the nearest
declaration of its prefix. -/
lemma findNamespace_iff (hk : Keyed h) (ns : Namespace) (fuel : ℕ) :
    findNamespace h (some ns.uri) ns.nsPrefix fuel n = some ns ↔
      findNamespaceUri h ns.key fuel n = some ns := by
  induction fuel generalizing n with
  | zero => simp [findNamespace, findNamespaceUri]
  | succ fuel ih =>
    cases he : elementAt h n with
    | none => simp [findNamespace, findNamespaceUri, he]
    | some e =>
      have hup : (parentElement h n).bind (findNamespace h (some ns.uri) ns.nsPrefix fuel) =
          some ns ↔ (parentElement h n).bind (findNamespaceUri h ns.key fuel) = some ns := by
        cases parentElement h n with
        | none => simp
        | some p => exact ih
      have huri := @findNamespaceUri_succ h n ns.key fuel (by simp [he])
      have hdeclared : declared h ns.key n = hashGet e.namespaces ns.key := by
        simp [declared, he]
      rw [hdeclared] at huri
      simp only [findNamespace, he]
      by_cases hempty : e.namespaces.isEmpty = true
      · have hnone : hashGet e.namespaces ns.key = none := by
          rw [List.isEmpty_iff.mp hempty]
          rfl
        rw [huri, hnone, Option.none_or]
        simp only [findNamespaceHere, hempty, if_true]
        exact hup
      · by_cases hkey : ns.nsPrefix.getD "" = ""
        · -- the default namespace is looked up first, and else any entry with the URI
          have hkey' : ns.key = "" := hkey
          simp only [findNamespaceHere, hempty, hkey, if_true, if_false, Bool.false_eq_true,
            getDefaultNamespace]
          rw [hkey'] at huri hup ⊢
          cases hdefault : findNamespaceUri h "" (fuel + 1) n with
          | some found =>
            simp only
            by_cases hfound : ns.uri = found.uri
            · simp [hfound]
            · rw [if_neg hfound]
              simp only [reduceCtorEq, Option.some.injEq, false_iff]
              rintro rfl
              exact hfound rfl
          | none =>
            rw [hdefault] at huri
            obtain ⟨hnone, hnone'⟩ := Option.or_eq_none_iff.mp huri.symm
            cases hentry : e.namespaces.find? fun entry => entry.2.uri = ns.uri with
            | none =>
              simp only [Option.map_none]
              rw [hup, hnone']
            | some entry =>
              simp only [Option.map_some, reduceCtorEq, Option.some.injEq, iff_false]
              rintro rfl
              have hmem := List.mem_of_find?_eq_some hentry
              have hsome := hashGet_isSome_of_mem hmem
              rw [← hk n e he entry hmem, hkey', hnone] at hsome
              simp at hsome
        · obtain ⟨p, hp⟩ : ∃ p, ns.nsPrefix = some p := by
            cases hpref : ns.nsPrefix with
            | none => simp [hpref] at hkey
            | some p => exact ⟨p, rfl⟩
          have hpk : ns.key = p := by simp [Namespace.key, hp]
          rw [hp] at hkey
          rw [hp, hpk] at hup
          rw [huri, hpk]
          simp only [findNamespaceHere, hempty, hp, hkey, if_false, Option.bind_some,
            Bool.false_eq_true]
          cases hget : hashGet e.namespaces p with
          | none =>
            rw [Option.none_or]
            exact hup
          | some found =>
            rw [Option.some_or]
            simp only [Option.map_some]
            by_cases hfound : found.uri = ns.uri
            · simp [hfound]
            · rw [if_neg hfound]
              simp only [reduceCtorEq, Option.some.injEq, false_iff]
              rintro rfl
              exact hfound rfl

end Lookups

section Gather

variable {h : OmHeap} {n : ℕ} {q : String}

/-- An entry is added unless its prefix is there. The check against the element itself
is made without a URI and finds nothing. -/
lemma hashGet_gatherOne (e : Element) (inscope : List (String × Namespace))
    (entry : String × Namespace) :
    hashGet (gatherOne e inscope entry) q =
      (hashGet inscope q).or (if q = entry.2.key then some entry.2 else none) := by
  unfold gatherOne
  simp only [findDeclaredNamespace, Option.isSome_none, Bool.false_eq_true, if_false]
  cases hget : hashGet inscope entry.2.key with
  | some ns =>
    simp only [Option.isSome_some, if_true]
    by_cases hq : q = entry.2.key
    · rw [if_pos hq, hq, hget, Option.some_or]
    · rw [if_neg hq, Option.or_none]
  | none =>
    simp only [Option.isSome_none, Bool.false_eq_true, if_false, hashGet_hashSet]
    by_cases hq : q = entry.2.key
    · rw [if_pos hq, if_pos hq, hq, hget, Option.none_or]
    · rw [if_neg hq, if_neg hq, Option.or_none]

lemma hashGet_gatherAll (e : Element) {t : List (String × Namespace)}
    (hkeyed : ∀ entry ∈ t, entry.2.key = entry.1) (inscope : List (String × Namespace)) :
    hashGet (t.foldl (gatherOne e) inscope) q = (hashGet inscope q).or (hashGet t q) := by
  induction t generalizing inscope with
  | nil => simp [hashGet]
  | cons entry t ih =>
    rw [List.foldl_cons, ih (fun entry' he' => hkeyed entry' (by simp [he'])),
      hashGet_gatherOne, hashGet_cons, hkeyed entry (by simp), Option.or_assoc]
    by_cases hq : q = entry.1 <;> simp [hq]

/-- The namespaces in scope are the nearest declarations above. -/
lemma hashGet_gather (hk : Keyed h) (e : Element) (fuel : ℕ)
    (inscope : List (String × Namespace)) :
    hashGet (gatherParentNamespaces h e fuel n inscope) q =
      (hashGet inscope q).or ((parentElement h n).bind (findNamespaceUri h q fuel)) := by
  induction fuel generalizing n inscope with
  | zero =>
    cases parentElement h n <;> simp [gatherParentNamespaces, findNamespaceUri]
  | succ fuel ih =>
    unfold gatherParentNamespaces
    cases hp : parentElement h n with
    | none => simp
    | some p =>
      obtain ⟨pe, hpe⟩ := Option.isSome_iff_exists.mp (parentElement_isSome hp)
      have hdeclared : declared h q p = hashGet pe.namespaces q := by simp [declared, hpe]
      simp only [hpe, Option.map_some, Option.getD_some, Option.bind_some]
      rw [ih, hashGet_gatherAll e (hk p pe hpe), findNamespaceUri_succ fuel (by simp [hpe]),
        hdeclared, Option.or_assoc]

/-- What is in scope above a node, by its ancestors. -/
lemma bind_findNamespaceUri {above : List ℕ} (ha : Ancestors h n above) {fuel : ℕ}
    (hfuel : above.length ≤ fuel) :
    (parentElement h n).bind (findNamespaceUri h q fuel) = above.findSome? (declared h q) := by
  cases above with
  | nil =>
    rw [show parentElement h n = none from ha]
    rfl
  | cons p ps =>
    obtain ⟨hp, hps⟩ := ha
    rw [hp, Option.bind_some]
    exact findNamespaceUri_eq (parentElement_isSome hp) hps (by simpa using hfuel)

end Gather

section Tables

variable {h : OmHeap} {root m : ℕ} {e : Element} {q : String}

/-- The heap with another table at the root of the subtree. -/
def retable (h : OmHeap) (root : ℕ) (e : Element) (t : List (String × Namespace)) : OmHeap :=
  setElement h root { e with namespaces := t }

section

variable (he : elementAt h root = some e)

include he

lemma retable_self : retable h root e e.namespaces = h :=
  setElement_self he

lemma elementAt_retable (t : List (String × Namespace)) (m : ℕ) :
    elementAt (retable h root e t) m =
      if m = root then some { e with namespaces := t } else elementAt h m := by
  by_cases hm : m = root
  · rw [if_pos hm, hm]
    exact elementAt_setElement he
  · rw [if_neg hm]
    exact elementAt_setElement_ne hm

lemma elementAt_retable_isSome (t : List (String × Namespace)) (m : ℕ) :
    (elementAt (retable h root e t) m).isSome = (elementAt h m).isSome := by
  rw [elementAt_retable he]
  by_cases hm : m = root
  · simp [hm, he]
  · simp [hm]

lemma parentElement_retable (t : List (String × Namespace)) (m : ℕ) :
    parentElement (retable h root e t) m = parentElement h m := by
  unfold parentElement
  simp only [elementAt_retable_isSome he]
  rfl

lemma declared_retable (t : List (String × Namespace)) (m : ℕ) :
    declared (retable h root e t) q m = if m = root then hashGet t q else declared h q m := by
  unfold declared
  rw [elementAt_retable he]
  by_cases hm : m = root <;> simp [hm]

lemma retable_declare (t : List (String × Namespace)) (ns : Namespace) :
    declareNamespaceAssumeParamOwnership (retable h root e t) root ns =
      retable h root e (hashSet t ns.key ns) := by
  have he' := elementAt_retable he t root
  rw [if_pos rfl] at he'
  unfold declareNamespaceAssumeParamOwnership
  rw [he']
  exact setElement_setElement

end

lemma retable_keyed (hk : Keyed h) (he : elementAt h root = some e)
    {t : List (String × Namespace)} (ht : ∀ entry ∈ t, entry.2.key = entry.1) :
    Keyed (retable h root e t) := hk.setElement he ht

/-- A lookup depends on the entry for its prefix only. -/
lemma findNamespaceUri_retable (he : elementAt h root = some e) {t : List (String × Namespace)}
    (hq : hashGet t q = hashGet e.namespaces q) (fuel m : ℕ) :
    findNamespaceUri (retable h root e t) q fuel m = findNamespaceUri h q fuel m := by
  apply findNamespaceUri_congr (elementAt_retable_isSome he t) (parentElement_retable he t)
  intro m
  rw [declared_retable he]
  by_cases hm : m = root
  · simp [hm, declared, he, hq]
  · simp [hm]

end Tables

end Axis2C.Om
