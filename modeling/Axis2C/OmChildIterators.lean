import Axis2C.OmNamespaces

/-!
# Iterators over the children of an element

The three iterators and the functions of `om_element.c` that hand them out. An iterator looks one
child ahead, so that the child that it returned last can be freed. The element is completely
built, so that the accessors give the fields; a freed node cannot be read.
-/
namespace Axis2C.Om

open DoublyLinked

section Model

/-- The heap with the field `qname` of the elements, which is filled in when it is asked for. -/
structure NamedHeap where
  heap : OmHeap
  qname : ℕ → Option QName

/-- A field of a node. -/
def Heap.read {α β : Type*} (h : Heap α) (n : ℕ) (field : ℕ → β) : Option β :=
  if h.live n then some (field n) else none

/-- What a function returns with enough fuel for its loops. -/
def Terminates {α : Type*} (f : ℕ → Option α) (r : α) : Prop := ∃ k, ∀ fuel, k ≤ fuel → f fuel = some r

/-- The qualified name of an element of this local name in this namespace. -/
def elementQname (localName : String) (ns : Option Namespace) : QName :=
  ⟨localName, ns.map Namespace.uri, ns.bind Namespace.nsPrefix⟩

/-- `axiom_element_get_qname`; the namespace is looked up through so many levels. -/
def elementGetQname (levels : ℕ) (s : NamedHeap) (n : ℕ) (e : Element) : QName × NamedHeap :=
  match s.qname n with
  | some qname => (qname, s)
  | none =>
    let qname := elementQname e.localName (getNamespace s.heap levels n)
    (qname, { s with qname := Function.update s.qname n (some qname) })

/-- `axutil_qname_equals`. -/
def QName.equals (qname : QName) : Option QName → Bool
  | none => false
  | some qname2 => decide (qname.uri = qname2.uri) && decide (qname.localPart = qname2.localPart)

structure ChildrenIterator where
  firstChild : Option ℕ
  currentChild : Option ℕ
  lastChild : Option ℕ
  nextCalled : Bool
  removeCalled : Bool
  deriving DecidableEq, Repr

structure ChildElementIterator where
  currentChild : Option ℕ
  lastChild : Option ℕ
  nextCalled : Bool
  removeCalled : Bool
  deriving DecidableEq, Repr

structure ChildrenQnameIterator where
  currentChild : Option ℕ
  lastChild : Option ℕ
  nextCalled : Bool
  removeCalled : Bool
  givenQname : Option QName
  needToMoveForward : Bool
  matchingNodeFound : Bool
  deriving DecidableEq, Repr

/-- What a remove function decides from the fields of its iterator: the status, with the last
child and the flag as they are left. -/
def removeLast (fuel : ℕ) (h : OmHeap) (lastChild : Option ℕ) (nextCalled removeCalled : Bool) :
    Option (Bool × OmHeap × Option ℕ × Bool) :=
  if !nextCalled || removeCalled then some (false, h, lastChild, removeCalled)
  else
    match lastChild with
    | none => some (false, h, none, true)
    | some n =>
      (h.read n fun _ => ()).bind fun _ => (freeTree fuel h n).map fun h => (true, h, none, true)

/-- What the caller of an iterator uses. -/
structure IteratorCalls (ι : Type) where
  hasNext : ℕ → NamedHeap → ι → Option (Bool × NamedHeap × ι)
  next : ℕ → NamedHeap → ι → Option (Option ℕ × ι)
  remove : ℕ → NamedHeap → ι → Option (Bool × NamedHeap × ι)

section Children

def childrenIteratorCreate (currentChild : Option ℕ) : ChildrenIterator :=
  ⟨currentChild, currentChild, none, false, false⟩

def childrenIteratorRemove (fuel : ℕ) (s : NamedHeap) (it : ChildrenIterator) :
    Option (Bool × NamedHeap × ChildrenIterator) :=
  (removeLast fuel s.heap it.lastChild it.nextCalled it.removeCalled).map
    fun (status, h, lastChild, removeCalled) =>
      (status, { s with heap := h },
        { it with lastChild := lastChild, removeCalled := removeCalled })

def childrenIteratorHasNext (it : ChildrenIterator) : Bool := it.currentChild.isSome

def childrenIteratorNext (s : NamedHeap) (it : ChildrenIterator) :
    Option (Option ℕ × ChildrenIterator) :=
  let it := { it with nextCalled := true, removeCalled := false }
  match it.currentChild with
  | none => some (none, it)
  | some c => (s.heap.read c s.heap.next).map fun next =>
    (some c, { it with lastChild := some c, currentChild := next })

def childrenCalls : IteratorCalls ChildrenIterator where
  hasNext _ s it := some (childrenIteratorHasNext it, s, it)
  next _ s it := childrenIteratorNext s it
  remove := childrenIteratorRemove

end Children

section ChildElements

def childElementIteratorCreate (currentChild : Option ℕ) : ChildElementIterator :=
  ⟨currentChild, none, false, false⟩

def childElementIteratorRemove (fuel : ℕ) (s : NamedHeap) (it : ChildElementIterator) :
    Option (Bool × NamedHeap × ChildElementIterator) :=
  (removeLast fuel s.heap it.lastChild it.nextCalled it.removeCalled).map
    fun (status, h, lastChild, removeCalled) =>
      (status, { s with heap := h },
        { it with lastChild := lastChild, removeCalled := removeCalled })

def childElementIteratorHasNext (it : ChildElementIterator) : Bool := it.currentChild.isSome

def elementFrom (h : OmHeap) : ℕ → Option ℕ → Option (Option ℕ)
  | _, none => some none
  | 0, some _ => none
  | fuel + 1, some c =>
    (h.read c h.data).bind fun d =>
      if d.nodeType = .element then some (some c)
      else (h.read c h.next).bind (elementFrom h fuel)

def childElementIteratorNext (fuel : ℕ) (s : NamedHeap) (it : ChildElementIterator) :
    Option (Option ℕ × ChildElementIterator) :=
  let it := { it with nextCalled := true, removeCalled := false }
  match it.currentChild with
  | none => some (none, it)
  | some c => ((s.heap.read c s.heap.next).bind (elementFrom s.heap fuel)).map fun next =>
    (some c, { it with lastChild := some c, currentChild := next })

def childElementCalls : IteratorCalls ChildElementIterator where
  hasNext _ s it := some (childElementIteratorHasNext it, s, it)
  next := childElementIteratorNext
  remove := childElementIteratorRemove

end ChildElements

section Qnames

def childrenQnameIteratorCreate (currentChild : Option ℕ) (givenQname : Option QName) :
    Option ChildrenQnameIterator :=
  currentChild.map fun c => ⟨some c, none, false, false, givenQname, true, false⟩

def childrenQnameIteratorRemove (fuel : ℕ) (s : NamedHeap) (it : ChildrenQnameIterator) :
    Option (Bool × NamedHeap × ChildrenQnameIterator) :=
  (removeLast fuel s.heap it.lastChild it.nextCalled it.removeCalled).map
    fun (status, h, lastChild, removeCalled) =>
      (status, { s with heap := h },
        { it with lastChild := lastChild, removeCalled := removeCalled })

/-- Whether the node is an element of the given name. -/
def qnameMatches (levels : ℕ) (s : NamedHeap) (c : ℕ) (givenQname : Option QName) :
    Bool × NamedHeap :=
  match elementAt s.heap c with
  | none => (false, s)
  | some e =>
    let r := elementGetQname levels s c e
    (r.1.equals givenQname, r.2)

/-- The loop moves the cursor up to a match. -/
def childrenQnameIteratorHasNext (levels : ℕ) :
    ℕ → NamedHeap → ChildrenQnameIterator → Option (Bool × NamedHeap × ChildrenQnameIterator)
  | 0, _, _ => none
  | fuel + 1, s, it =>
    if it.needToMoveForward then
      match it.currentChild with
      | some c =>
        (s.heap.read c fun _ => qnameMatches levels s c it.givenQname).bind fun (found, s) =>
          if found then
            childrenQnameIteratorHasNext levels fuel s
              { it with matchingNodeFound := true, needToMoveForward := false }
          else
            (s.heap.read c s.heap.next).bind fun next =>
              childrenQnameIteratorHasNext levels fuel s
                { it with
                  currentChild := next
                  needToMoveForward := next.isSome
                  matchingNodeFound := next.isSome }
      | none => childrenQnameIteratorHasNext levels fuel s { it with needToMoveForward := false }
    else some (it.matchingNodeFound, s, it)

def childrenQnameIteratorNext (s : NamedHeap) (it : ChildrenQnameIterator) :
    Option (Option ℕ × ChildrenQnameIterator) :=
  let it := { it with
    needToMoveForward := true
    matchingNodeFound := false
    nextCalled := true
    removeCalled := false
    lastChild := it.currentChild }
  match it.currentChild with
  | none => some (none, it)
  | some c => (s.heap.read c s.heap.next).map fun next => (some c, { it with currentChild := next })

def childrenQnameCalls (levels : ℕ) : IteratorCalls ChildrenQnameIterator where
  hasNext := childrenQnameIteratorHasNext levels
  next _ s it := childrenQnameIteratorNext s it
  remove := childrenQnameIteratorRemove

end Qnames

/-- The iterators that an element keeps. -/
structure ElementIterators where
  childrenIter : Option ChildrenIterator
  childEleIter : Option ChildElementIterator
  childrenQnameIter : Option ChildrenQnameIterator
  deriving DecidableEq, Repr

def ElementIterators.none : ElementIterators := ⟨.none, .none, .none⟩

/-- `axiom_element_get_children`. -/
def getChildren (s : NamedHeap) (n : ℕ) (iters : ElementIterators) : Option ElementIterators :=
  match iters.childrenIter with
  | some _ => some iters
  | .none => (s.heap.read n s.heap.firstChild).map fun first =>
    { iters with childrenIter := some (childrenIteratorCreate first) }

/-- `axiom_element_get_first_element`: the first child element with its data. -/
def getFirstChildElement (fuel : ℕ) (s : NamedHeap) (n : ℕ) : Option (Option ℕ) :=
  ((s.heap.read n s.heap.firstChild).bind (elementFrom s.heap fuel)).map fun first =>
    first.filter fun c => (s.heap.data c).dataElement.isSome

/-- An iterator that is kept already is handed out as it is. -/
def ElementIterators.childElementsFrom (iters : ElementIterators) (first : Option ℕ) :
    ElementIterators :=
  match iters.childEleIter with
  | some _ => iters
  | .none => { iters with childEleIter := first.map fun c => childElementIteratorCreate (some c) }

/-- `axiom_element_get_child_elements`. -/
def getChildElements (fuel : ℕ) (s : NamedHeap) (n : ℕ) (iters : ElementIterators) :
    Option ElementIterators :=
  (getFirstChildElement fuel s n).map iters.childElementsFrom

/-- `axiom_element_get_children_with_qname`. -/
def getChildrenWithQname (s : NamedHeap) (n : ℕ) (qname : Option QName) (iters : ElementIterators) :
    Option ElementIterators :=
  (s.heap.read n s.heap.firstChild).map fun first =>
    { iters with childrenQnameIter := childrenQnameIteratorCreate first qname }

end Model

section Loops

/-- A caller's loop over an iterator, which removes some of the nodes that it is given. -/
def iterate {ι : Type} (calls : IteratorCalls ι) (removed : ℕ → Bool) :
    ℕ → NamedHeap → ι → Option (List (Option ℕ) × NamedHeap × ι)
  | 0, _, _ => none
  | fuel + 1, s, it =>
    (calls.hasNext fuel s it).bind fun (more, s, it) =>
      if more then
        (calls.next fuel s it).bind fun (child, it) =>
          (if child.any removed then (calls.remove fuel s it).map Prod.snd
            else some (s, it)).bind fun (s, it) =>
              (iterate calls removed fuel s it).map fun (children, s, it) =>
                (child :: children, s, it)
      else some ([], s, it)

/-- Which children are asked for. -/
inductive ChildKind where
  | children
  | childElements
  | childrenWithQname (qname : Option QName)
  deriving DecidableEq, Repr

/-- The loop over what an element hands out, which may be NULL. -/
def iterateKept {ι : Type} (calls : IteratorCalls ι) (removed : ℕ → Bool) (fuel : ℕ)
    (s : NamedHeap) (it : Option ι) : Option (List (Option ℕ) × NamedHeap × Option ι) :=
  match it with
  | none => some ([], s, none)
  | some it => (iterate calls removed fuel s it).map fun (l, s, it) => (l, s, some it)

/-- A caller asks an element for an iterator and goes through it. -/
def iterateChildren (levels : ℕ) (removed : ℕ → Bool) (n fuel : ℕ) (kind : ChildKind)
    (s : NamedHeap) (iters : ElementIterators) :
    Option (List (Option ℕ) × NamedHeap × ElementIterators) :=
  match kind with
  | .children =>
    (getChildren s n iters).bind fun iters =>
      (iterateKept childrenCalls removed fuel s iters.childrenIter).map fun (l, s, it) =>
        (l, s, { iters with childrenIter := it })
  | .childElements =>
    (getChildElements fuel s n iters).bind fun iters =>
      (iterateKept childElementCalls removed fuel s iters.childEleIter).map fun (l, s, it) =>
        (l, s, { iters with childEleIter := it })
  | .childrenWithQname qname =>
    (getChildrenWithQname s n qname iters).bind fun iters =>
      (iterateKept (childrenQnameCalls levels) removed fuel s iters.childrenQnameIter).map
        fun (l, s, it) => (l, s, { iters with childrenQnameIter := it })

end Loops

section Fuel

variable {α β : Type*}
variable {f : ℕ → Option α}

lemma terminates_of_forall {r : α} (h : ∀ fuel, f fuel = some r) :
    Terminates f r :=
  ⟨0, fun fuel _ => h fuel⟩

lemma Terminates.bind {g : ℕ → α → Option β} {a : α} {r : β} (hf : Terminates f a)
    (hg : Terminates (g · a) r) :
    Terminates (fun fuel => (f fuel).bind (g fuel)) r := by
  obtain ⟨k, hk⟩ := hf
  obtain ⟨k', hk'⟩ := hg
  refine ⟨max k k', fun fuel hfuel => ?_⟩
  dsimp only
  rw [hk fuel (le_of_max_le_left hfuel), Option.bind_some]
  exact hk' fuel (le_of_max_le_right hfuel)

lemma Terminates.map {a : α} (hf : Terminates f a) (g : α → β) :
    Terminates (fun fuel => (f fuel).map g) (g a) := by
  obtain ⟨k, hk⟩ := hf
  refine ⟨k, fun fuel hfuel => ?_⟩
  dsimp only
  rw [hk fuel hfuel, Option.map_some]

lemma Terminates.of_succ {r : α} (h : Terminates (fun fuel => f (fuel + 1)) r) :
    Terminates f r := by
  obtain ⟨k, hk⟩ := h
  refine ⟨k + 1, fun fuel hfuel => ?_⟩
  obtain ⟨m, rfl⟩ := Nat.exists_eq_add_of_le' hfuel
  exact hk (m + k) (Nat.le_add_left k m)

/-- With enough fuel there is one result. -/
lemma Terminates.unique {r r' : α} (h : Terminates f r) (h' : Terminates f r') : r = r' := by
  obtain ⟨k, hk⟩ := h
  obtain ⟨k', hk'⟩ := h'
  have hr := hk (max k k') (le_max_left k k')
  rw [hk' (max k k') (le_max_right k k')] at hr
  exact (Option.some.inj hr).symm

end Fuel

section Children

variable {h : OmHeap} {n : ℕ} {cs before after : List ℕ} {c : ℕ}

/-- The children of an element, in order. -/
structure HasChildren (h : OmHeap) (n : ℕ) (cs : List ℕ) : Prop where
  forest : Forest h
  live : h.live n = true
  list : ChildList h n cs

lemma HasChildren.read_first (hcs : HasChildren h n cs) :
    h.read n h.firstChild = some cs.head? := by
  rw [Heap.read, if_pos hcs.live, hcs.list.first]

lemma HasChildren.childOf (hcs : HasChildren h n (before ++ c :: after)) : ChildOf h c n :=
  (hcs.list.members c).mp (by simp)

lemma HasChildren.read {α : Type*} (hcs : HasChildren h n (before ++ c :: after)) (field : ℕ → α) :
    h.read c field = some (field c) := by
  rw [Heap.read, if_pos hcs.childOf.1]

lemma HasChildren.read_next (hcs : HasChildren h n (before ++ c :: after)) :
    h.read c h.next = some after.head? := by
  rw [hcs.read, hcs.list.linked.at_split.2, Option.or_none]

lemma HasChildren.next_eq (hcs : HasChildren h n (before ++ c :: after)) : h.next c = after.head? := by
  rw [hcs.list.linked.at_split.2, Option.or_none]

def isElement (h : OmHeap) (c : ℕ) : Bool := decide ((h.data c).nodeType = .element)

/-- The next element among the siblings. -/
lemma elementFrom_spec (hcs : HasChildren h n (before ++ after)) :
    Terminates (fun fuel => elementFrom h fuel after.head?) (after.filter (isElement h)).head? := by
  induction after generalizing before with
  | nil => exact terminates_of_forall fun fuel => by cases fuel <;> rfl
  | cons c after ih =>
    refine Terminates.of_succ ?_
    simp only [List.head?_cons, elementFrom, hcs.read, Option.bind_some]
    by_cases helement : (h.data c).nodeType = .element
    · have hpass : isElement h c = true := decide_eq_true helement
      rw [List.filter_cons_of_pos hpass]
      exact terminates_of_forall fun fuel => if_pos helement
    · have hfail : ¬ isElement h c = true := fun hc => helement (of_decide_eq_true hc)
      rw [List.filter_cons_of_neg hfail]
      simp only [if_neg helement, hcs.next_eq]
      rw [List.append_cons] at hcs
      exact ih hcs

lemma detachWithoutNamespaces_data {α : Type*} (h : Heap α) (n : ℕ) :
    (detachWithoutNamespaces h n).data = h.data := by
  unfold detachWithoutNamespaces
  cases h.parent n with
  | none => rfl
  | some p =>
    dsimp only
    cases h.prev n <;> cases h.next n <;> dsimp only <;> split <;> rfl

lemma ChildList.freeSet {α : Type*} {h : Heap α} {p : ℕ} {cs : List ℕ} (hcs : ChildList h p cs)
    {gone : ℕ → Prop} (hgone : ∀ c ∈ cs, ¬ gone c) : ChildList (h.freeSet h.live gone) p cs where
  nodup := hcs.nodup
  first := hcs.first
  last := hcs.last
  linked := hcs.linked
  members c := by
    rw [hcs.members, ChildOf, ChildOf, freeSet_live]
    constructor
    · exact fun hc => ⟨⟨hgone c ((hcs.members c).mpr hc), hc.1⟩, hc.2⟩
    · exact fun hc => ⟨hc.1.2, hc.2⟩

/-- What is left when a child with all below it is freed. -/
structure FreedChild (h h' : OmHeap) (n c : ℕ) (cs : List ℕ) : Prop where
  children : HasChildren h' n cs
  data : h'.data = h.data
  parent : ∀ m, h'.parent m = if m = c then none else h.parent m

lemma HasChildren.freeTree (hcs : HasChildren h n (before ++ c :: after)) :
    ∃ h', Terminates (fun fuel => freeTree fuel h c) h' ∧
      FreedChild h h' n c (before ++ after) := by
  have hc := hcs.childOf
  obtain ⟨hprev, hnext⟩ := hcs.list.linked.at_split
  rw [Option.or_none] at hprev hnext
  have hremoved := detach_removed hc.2 hcs.list hprev hnext
  have hforest := hremoved.forest hcs.forest hcs.list
  have hroot : (detachWithoutNamespaces h c).parent c = none := by simp [hremoved.parent]
  obtain ⟨k, hk⟩ := hforest.freeDetachedSubtree_spec c (by rw [hremoved.live, hc.1])
  -- the other children and the element are not below the one that is freed
  have hout (m : ℕ) (hm : m ≠ c) (hp : m = n ∨ h.parent m = some n) :
      ¬ Below (detachWithoutNamespaces h c) m c := by
    intro hbelow
    have hbelow' := below_of_detach hremoved.live hremoved.parent hbelow
    have hcycle (a : ℕ) (ha : Below h n c) : False :=
      (WellFounded.transGen hcs.forest.acyclic).irrefl.irrefl c (Relation.TransGen.head' hc ha)
    obtain rfl | hp := hp
    · exact hcycle m hbelow'
    · obtain rfl | ⟨d, hd, hrest⟩ := Relation.ReflTransGen.cases_head hbelow'
      · exact hm rfl
      · obtain rfl : d = n := Option.some.inj (hd.2.symm.trans hp)
        exact hcycle d hrest
  have hn : n ≠ c := by
    rintro rfl
    exact hcs.forest.acyclic.irrefl.irrefl _ hc
  refine ⟨_, ⟨k, fun fuel hfuel => freeDetachedSubtree_mono hfuel
    (hk (detachWithoutNamespaces h c).live)⟩, ⟨hforest.freeSet hroot, ?_, ?_⟩, ?_, hremoved.parent⟩
  · rw [freeSet_live, hremoved.live]
    exact ⟨hout n hn (.inl rfl), hcs.live⟩
  · refine (hremoved.childList hcs.list).freeSet fun m hm => hout m ?_ (.inr ?_)
    · rintro rfl
      exact (List.nodup_cons.mp (List.nodup_middle.mp hcs.list.nodup)).1 hm
    · exact ((hcs.list.members m).mp (by simp at hm ⊢; tauto)).2
  · exact detachWithoutNamespaces_data h c

lemma elementAt_of_data {h h' : OmHeap} (hdata : h'.data = h.data) (m : ℕ) :
    elementAt h' m = elementAt h m := by
  unfold elementAt
  rw [hdata]

/-- Freeing a child does not change what is found from a node that is not below it. -/
lemma FreedChild.findNamespaceUri {h' : OmHeap} (hfreed : FreedChild h h' n c cs) (hf : Forest h)
    (key : String) (fuel : ℕ) {m : ℕ} (hm : h.live m = true) (hout : ¬ Below h m c) :
    findNamespaceUri h' key fuel m = findNamespaceUri h key fuel m := by
  induction fuel generalizing m with
  | zero => rfl
  | succ fuel ih =>
    have hne : m ≠ c := by
      rintro rfl
      exact hout .refl
    have hparent : parentElement h' m = parentElement h m := by
      unfold parentElement
      rw [hfreed.parent, if_neg hne]
      congr 1
      funext p
      rw [elementAt_of_data hfreed.data]
    rw [Om.findNamespaceUri, Om.findNamespaceUri, elementAt_of_data hfreed.data, hparent]
    cases elementAt h m with
    | none => rfl
    | some e =>
      dsimp only
      cases hashGet e.namespaces key with
      | some ns => rfl
      | none =>
        dsimp only
        cases hp : parentElement h m with
        | none => rfl
        | some p =>
          have hp' : ChildOf h m p := ⟨hm, (Option.filter_eq_some_iff.mp hp).1⟩
          exact ih (hf.parentLive m p hp') fun hbelow => hout (hbelow.head hp')

end Children

section Names

variable {levels : ℕ} {s s' s'' : NamedHeap} {n : ℕ} {cs cs' : List ℕ} {c : ℕ}

def nameOf (levels : ℕ) (s : NamedHeap) (c : ℕ) : Option QName :=
  (elementAt s.heap c).map fun e => (elementGetQname levels s c e).1

lemma elementGetQname_fst (levels : ℕ) (s : NamedHeap) (c : ℕ) (e : Element) :
    (elementGetQname levels s c e).1 =
      (s.qname c).getD (elementQname e.localName (getNamespace s.heap levels c)) := by
  unfold elementGetQname
  cases s.qname c <;> rfl

/-- What is asked for. -/
def ChildKind.wanted (kind : ChildKind) (levels : ℕ) (s : NamedHeap) (c : ℕ) : Bool :=
  match kind with
  | .children => true
  | .childElements => isElement s.heap c
  | .childrenWithQname qname => (nameOf levels s c).any (·.equals qname)

/-- Nothing is different about these nodes. -/
structure Like (levels : ℕ) (cs : List ℕ) (s s' : NamedHeap) : Prop where
  data : s'.heap.data = s.heap.data
  name : ∀ c ∈ cs, nameOf levels s' c = nameOf levels s c

lemma Like.trans (h : Like levels cs s s') (h' : Like levels cs s' s'') : Like levels cs s s'' :=
  ⟨h'.data.trans h.data, fun c hc => (h'.name c hc).trans (h.name c hc)⟩

lemma Like.subset (h : Like levels cs s s') (hsub : cs' ⊆ cs) : Like levels cs' s s' :=
  ⟨h.data, fun c hc => h.name c (hsub hc)⟩

lemma Like.wanted (h : Like levels cs s s') (hc : c ∈ cs) (kind : ChildKind) :
    kind.wanted levels s' c = kind.wanted levels s c := by
  cases kind with
  | children => rfl
  | childElements =>
    unfold ChildKind.wanted isElement
    rw [h.data]
  | childrenWithQname qname =>
    unfold ChildKind.wanted
    rw [h.name c hc]

/-- The name that is filled in is the one that would be computed. -/
lemma qnameMatches_spec (levels : ℕ) (s : NamedHeap) (c : ℕ) (qname : Option QName) :
    (qnameMatches levels s c qname).1 = (ChildKind.childrenWithQname qname).wanted levels s c ∧
      (qnameMatches levels s c qname).2.heap = s.heap ∧
      ∀ m, nameOf levels (qnameMatches levels s c qname).2 m = nameOf levels s m := by
  unfold qnameMatches ChildKind.wanted
  cases he : elementAt s.heap c with
  | none => simp [nameOf, he]
  | some e =>
    refine ⟨by simp [nameOf, he], ?_, fun m => ?_⟩
    · dsimp only [elementGetQname]
      split <;> rfl
    · have hnext : (elementGetQname levels s c e).2 =
          ⟨s.heap, Function.update s.qname c (some (elementGetQname levels s c e).1)⟩ := by
        unfold elementGetQname
        cases hq : s.qname c with
        | none => rfl
        | some q => simp [← hq]
      unfold nameOf
      rw [hnext]
      refine Option.map_congr fun d hd => ?_
      rw [elementGetQname_fst]
      dsimp only
      by_cases hm : m = c
      · subst hm
        obtain rfl : e = d := Option.some.inj (he.symm.trans hd)
        rw [Function.update_self, Option.getD_some]
      · rw [Function.update_of_ne hm, elementGetQname_fst]

/-- Freeing one child leaves the others as they are. -/
lemma FreedChild.like {before after : List ℕ} {h' : OmHeap}
    (hcs : HasChildren s.heap n (before ++ c :: after))
    (hfreed : FreedChild s.heap h' n c (before ++ after)) :
    Like levels (before ++ after) s ⟨h', s.qname⟩ := by
  refine ⟨hfreed.data, fun m hm => ?_⟩
  have hchild : ChildOf s.heap m n := (hcs.list.members m).mp (by simp at hm ⊢; tauto)
  have hne : m ≠ c := by
    rintro rfl
    exact (List.nodup_cons.mp (List.nodup_middle.mp hcs.list.nodup)).1 hm
  have hout : ¬ Below s.heap m c := by
    intro hbelow
    obtain rfl | ⟨d, hd, hrest⟩ := Relation.ReflTransGen.cases_head hbelow
    · exact hne rfl
    · obtain rfl := hd.unique hchild
      exact (WellFounded.transGen hcs.forest.acyclic).irrefl.irrefl c
        (Relation.TransGen.head' hcs.childOf hrest)
  have hnamespace : getNamespace h' levels m = getNamespace s.heap levels m := by
    unfold getNamespace getDefaultNamespace
    rw [elementAt_of_data hfreed.data, hfreed.findNamespaceUri hcs.forest "" levels hchild.1 hout]
  unfold nameOf
  rw [elementAt_of_data hfreed.data]
  refine Option.map_congr fun e _ => ?_
  rw [elementGetQname_fst, elementGetQname_fst, hnamespace]

end Names

end Axis2C.Om
