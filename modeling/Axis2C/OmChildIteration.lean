import Axis2C.OmChildIterators

/-!
# Going through the children of an element

What the three iterators have in common is stated once, and a caller's loop follows from it; then
the iterators that an element keeps.
-/
namespace Axis2C.Om

section Runs

variable {ι : Type} {calls : IteratorCalls ι} {levels n : ℕ} {kind : ChildKind}
  {Stands : NamedHeap → ι → List ℕ → Prop} {Returned : ι → ℕ → Prop}

/-- An iterator that stands in front of a list of children gives the wanted ones among them. -/
structure Enumerates (calls : IteratorCalls ι) (levels : ℕ) (kind : ChildKind)
    (Stands : NamedHeap → ι → List ℕ → Prop) (Returned : ι → ℕ → Prop) : Prop where
  stop : ∀ {s it n before rest}, HasChildren s.heap n (before ++ rest) → Stands s it rest →
    (∀ c ∈ rest, kind.wanted levels s c = false) →
      ∃ s' it', Terminates (calls.hasNext · s it) (false, s', it') ∧ s'.heap = s.heap ∧
        Stands s' it' []
  next : ∀ {s it n before skip c rest}, HasChildren s.heap n (before ++ (skip ++ c :: rest)) →
    Stands s it (skip ++ c :: rest) → (∀ b ∈ skip, kind.wanted levels s b = false) →
    kind.wanted levels s c = true →
      ∃ s' it' it'', Terminates (calls.hasNext · s it) (true, s', it') ∧
        Terminates (calls.next · s' it') (some c, it'') ∧ s'.heap = s.heap ∧
        (∀ m, nameOf levels s' m = nameOf levels s m) ∧ Stands s' it'' rest ∧ Returned it'' c
  remove : ∀ {s it c h' rest}, Returned it c → s.heap.live c = true →
    Terminates (fun fuel => freeTree fuel s.heap c) h' → h'.data = s.heap.data →
    Stands s it rest →
      ∃ it', Terminates (calls.remove · s it) (true, ⟨h', s.qname⟩, it') ∧
        Stands ⟨h', s.qname⟩ it' rest

/-- One child that the loop is given, and the rest of the loop. -/
lemma iterate_next {removed : ℕ → Bool} {s s' s'' s₃ : NamedHeap} {it it' it'' it₃ it₄ : ι} {c : ℕ}
    {l : List (Option ℕ)} (hmore : Terminates (calls.hasNext · s it) (true, s', it'))
    (hnext : Terminates (calls.next · s' it') (some c, it''))
    (hremove : Terminates (fun fuel => if removed c then (calls.remove fuel s' it'').map Prod.snd
      else some (s', it'')) (s'', it₃))
    (hrest : Terminates (iterate calls removed · s'' it₃) (l, s₃, it₄)) :
    Terminates (iterate calls removed · s it) (some c :: l, s₃, it₄) := by
  refine Terminates.of_succ ?_
  simp only [iterate]
  refine hmore.bind ?_
  simp only [if_true]
  refine hnext.bind ?_
  simp only [Option.any_some]
  exact hremove.bind (hrest.map fun r => (some c :: r.1, r.2.1, r.2.2))

/-- The loop over the children that are left. -/
theorem Enumerates.run (he : Enumerates calls levels kind Stands Returned) (removed : ℕ → Bool)
    {s : NamedHeap} {it : ι} {before rest : List ℕ}
    (hcs : HasChildren s.heap n (before ++ rest)) (hs : Stands s it rest) :
    ∃ s' it', Terminates (iterate calls removed · s it)
        ((rest.filter (kind.wanted levels s)).map some, s', it') ∧
      HasChildren s'.heap n
        (before ++ rest.filter fun c => !(kind.wanted levels s c && removed c)) ∧
      Stands s' it' [] := by
  induction hlen : rest.length using Nat.strong_induction_on generalizing s it before rest with
  | h len ih =>
    cases hfind : rest.find? (kind.wanted levels s) with
    | none =>
      have hnone : ∀ c ∈ rest, kind.wanted levels s c = false := fun c hc => by
        simpa using List.find?_eq_none.mp hfind c hc
      obtain ⟨s', it', hmore, hheap, hs'⟩ := he.stop hcs hs hnone
      have hempty : rest.filter (kind.wanted levels s) = [] :=
        List.filter_eq_nil_iff.mpr fun c hc => by simp [hnone c hc]
      have hall : rest.filter (fun c => !(kind.wanted levels s c && removed c)) = rest :=
        List.filter_eq_self.mpr fun c hc => by simp [hnone c hc]
      refine ⟨s', it', ?_, by rwa [hall, hheap], hs'⟩
      rw [hempty]
      refine Terminates.of_succ ?_
      simp only [iterate]
      exact hmore.bind (terminates_of_forall fun _ => rfl)
    | some c =>
      obtain ⟨hc, skip, after, rfl, hskip⟩ := List.find?_eq_some_iff_append.mp hfind
      have hskip' : ∀ b ∈ skip, kind.wanted levels s b = false := fun b hb => by
        simpa using hskip b hb
      obtain ⟨s', it', it'', hmore, hnext, hheap, hnames, hs', hreturned⟩ :=
        he.next hcs hs hskip' hc
      have hcs' : HasChildren s'.heap n ((before ++ skip) ++ c :: after) := by
        rwa [hheap, List.append_assoc]
      have hlike' (l : List ℕ) : Like levels l s s' := ⟨by rw [hheap], fun m _ => hnames m⟩
      have hshort : after.length < len := by
        rw [← hlen, List.length_append, List.length_cons]
        omega
      have hreturns : (skip ++ c :: after).filter (kind.wanted levels s) =
          c :: after.filter (kind.wanted levels s) := by
        rw [List.filter_append, List.filter_cons_of_pos hc,
          List.filter_eq_nil_iff.mpr fun b hb => by simp [hskip' b hb], List.nil_append]
      have hkeeps : skip.filter (fun c => !(kind.wanted levels s c && removed c)) = skip :=
        List.filter_eq_self.mpr fun b hb => by simp [hskip' b hb]
      -- what is left is the same whether the child stays or goes
      have hrest {s'' : NamedHeap} (hlike : Like levels after s s'') (p : Bool → ℕ → Bool) :
          after.filter (fun c => p (kind.wanted levels s'' c) c) =
            after.filter fun c => p (kind.wanted levels s c) c :=
        List.filter_congr fun m hm => by rw [hlike.wanted hm]
      by_cases hremoved : removed c = true
      · obtain ⟨h', hfree, hfreed⟩ := hcs'.freeTree
        obtain ⟨it₃, hremove, hs₃⟩ := he.remove hreturned hcs'.childOf.1 hfree hfreed.data hs'
        have hlike : Like levels after s ⟨h', s'.qname⟩ :=
          (hlike' after).trans ((hfreed.like hcs').subset (List.subset_append_right _ _))
        obtain ⟨s₄, it₄, hrun, hleft, hend⟩ := ih _ hshort hfreed.children hs₃ rfl
        rw [hrest hlike fun w _ => w] at hrun
        rw [hrest hlike fun w c => !(w && removed c)] at hleft
        refine ⟨s₄, it₄, ?_, ?_, hend⟩
        · rw [hreturns]
          refine iterate_next hmore hnext ?_ hrun
          simp only [hremoved, if_true]
          exact hremove.map Prod.snd
        · rw [List.filter_append, hkeeps, List.filter_cons_of_neg (by simp [hc, hremoved]),
            ← List.append_assoc]
          exact hleft
      · have hcs'' : HasChildren s'.heap n ((before ++ skip ++ [c]) ++ after) := by
          rwa [← List.append_cons]
        obtain ⟨s₄, it₄, hrun, hleft, hend⟩ := ih _ hshort hcs'' hs' rfl
        rw [hrest (hlike' after) fun w _ => w] at hrun
        rw [hrest (hlike' after) fun w c => !(w && removed c)] at hleft
        refine ⟨s₄, it₄, ?_, ?_, hend⟩
        · rw [hreturns]
          refine iterate_next hmore hnext ?_ hrun
          simp only [hremoved, Bool.false_eq_true, if_false]
          exact terminates_of_forall fun _ => rfl
        · rw [List.filter_append, hkeeps, List.filter_cons_of_pos (by simp [hremoved]),
            List.append_cons, ← List.append_assoc]
          simpa using hleft

/-- The loop over what an element hands out. -/
lemma Enumerates.run_kept (he : Enumerates calls levels kind Stands Returned) (removed : ℕ → Bool)
    {s : NamedHeap} {iter : Option ι} {before rest : List ℕ}
    (hcs : HasChildren s.heap n (before ++ rest)) (hs : ∀ it ∈ iter, Stands s it rest)
    (hnone : iter = none → rest.filter (kind.wanted levels s) = []) :
    ∃ s' iter', Terminates (iterateKept calls removed · s iter)
        ((rest.filter (kind.wanted levels s)).map some, s', iter') ∧
      HasChildren s'.heap n
        (before ++ rest.filter fun c => !(kind.wanted levels s c && removed c)) ∧
      (iter' = none ↔ iter = none) ∧ ∀ it ∈ iter', Stands s' it [] := by
  cases iter with
  | none =>
    have hempty := hnone rfl
    have hall : rest.filter (fun c => !(kind.wanted levels s c && removed c)) = rest := by
      refine List.filter_eq_self.mpr fun c hc => ?_
      have hno := List.filter_eq_nil_iff.mp hempty c hc
      simp [hno]
    refine ⟨s, none, ?_, by rwa [hall], Iff.rfl, by simp⟩
    rw [hempty]
    exact terminates_of_forall fun _ => rfl
  | some it =>
    obtain ⟨s', it', hrun, hleft, hend⟩ := he.run removed hcs (hs it rfl)
    exact ⟨s', some it', hrun.map _, hleft, by simp, fun it hit => Option.some.inj hit ▸ hend⟩

end Runs

section Iterators

variable {levels n : ℕ} {s : NamedHeap} {before rest : List ℕ}

/-- The three remove functions, for the child that was returned. -/
lemma removeLast_spec {h h' : OmHeap} {c : ℕ} (hc : h.live c = true)
    (hfree : Terminates (fun fuel => freeTree fuel h c) h') :
    Terminates (fun fuel => removeLast fuel h (some c) true false) (true, h', none, true) := by
  have hread : h.read c (fun _ => ()) = some () := if_pos hc
  simp only [removeLast, Bool.not_true, Bool.or_self, Bool.false_eq_true, if_false, hread,
    Option.bind_some]
  exact hfree.map fun h => (true, h, none, true)

lemma childrenCalls_enumerates (levels : ℕ) : Enumerates childrenCalls levels .children
    (fun _ it rest => it.currentChild = rest.head?)
    fun it c => it.lastChild = some c ∧ it.nextCalled = true ∧ it.removeCalled = false where
  stop := by
    intro s it n before rest _ hs hnone
    obtain rfl : rest = [] := List.eq_nil_iff_forall_not_mem.mpr fun c hc => by cases hnone c hc
    have hmore : childrenIteratorHasNext it = false := by rw [childrenIteratorHasNext, hs]; rfl
    refine ⟨s, it, terminates_of_forall fun fuel => ?_, rfl, hs⟩
    simp [childrenCalls, hmore]
  next := by
    intro s it n before skip c rest hcs hs hskip _
    obtain rfl : skip = [] := List.eq_nil_iff_forall_not_mem.mpr fun b hb => by cases hskip b hb
    rw [List.nil_append] at hcs hs
    have hmore : childrenIteratorHasNext it = true := by rw [childrenIteratorHasNext, hs]; rfl
    refine ⟨s, it, { it with
        nextCalled := true
        removeCalled := false
        lastChild := some c
        currentChild := rest.head? },
      terminates_of_forall fun fuel => ?_, terminates_of_forall fun fuel => ?_, rfl, fun _ => rfl, rfl, rfl, rfl, rfl⟩
    · simp [childrenCalls, hmore]
    · simp [childrenCalls, childrenIteratorNext, hs, List.head?_cons, hcs.read_next]
  remove := by
    intro s it c h' rest hreturned hc hfree _ hs
    obtain ⟨hlast, hnext, hremove⟩ := hreturned
    refine ⟨{ it with lastChild := none, removeCalled := true }, ?_, hs⟩
    simp only [childrenCalls, childrenIteratorRemove, hlast, hnext, hremove]
    exact (removeLast_spec hc hfree).map _

lemma childElementCalls_enumerates (levels : ℕ) : Enumerates childElementCalls levels .childElements
    (fun s it rest => it.currentChild = (rest.filter (isElement s.heap)).head?)
    fun it c => it.lastChild = some c ∧ it.nextCalled = true ∧ it.removeCalled = false where
  stop := by
    intro s it n before rest _ hs hnone
    have hempty : rest.filter (isElement s.heap) = [] :=
      List.filter_eq_nil_iff.mpr fun c hc => Bool.eq_false_iff.mp (hnone c hc)
    rw [hempty] at hs
    have hmore : childElementIteratorHasNext it = false := by
      rw [childElementIteratorHasNext, hs]
      rfl
    refine ⟨s, it, terminates_of_forall fun fuel => ?_, rfl, hs⟩
    simp only [childElementCalls, hmore]
  next := by
    intro s it n before skip c rest hcs hs hskip hc
    have hempty : skip.filter (isElement s.heap) = [] :=
      List.filter_eq_nil_iff.mpr fun b hb => Bool.eq_false_iff.mp (hskip b hb)
    have hpass : isElement s.heap c = true := hc
    rw [List.filter_append, hempty, List.filter_cons_of_pos hpass, List.nil_append] at hs
    have hmore : childElementIteratorHasNext it = true := by
      rw [childElementIteratorHasNext, hs]
      rfl
    rw [← List.append_assoc] at hcs
    refine ⟨s, it, { it with
        nextCalled := true
        removeCalled := false
        lastChild := some c
        currentChild := (rest.filter (isElement s.heap)).head? },
      terminates_of_forall fun fuel => ?_, ?_, rfl, fun _ => rfl, rfl, rfl, rfl, rfl⟩
    · simp only [childElementCalls, hmore]
    · simp only [childElementCalls, childElementIteratorNext, hs, List.head?_cons, hcs.read_next,
        Option.bind_some]
      rw [List.append_cons] at hcs
      exact (elementFrom_spec hcs).map _
  remove := by
    intro s it c h' rest hreturned hc hfree hdata hs
    obtain ⟨hlast, hnext, hremove⟩ := hreturned
    have hsame : isElement h' = isElement s.heap := by
      funext m
      unfold isElement
      rw [hdata]
    refine ⟨{ it with lastChild := none, removeCalled := true }, ?_, by rw [hsame]; exact hs⟩
    simp only [childElementCalls, childElementIteratorRemove, hlast, hnext, hremove]
    exact (removeLast_spec hc hfree).map _

section Qnames

variable {qname : Option QName} {it : ChildrenQnameIterator}

def ChildrenQnameIterator.moved (it : ChildrenQnameIterator) (next : Option ℕ) :
    ChildrenQnameIterator :=
  { it with
    currentChild := next
    needToMoveForward := next.isSome
    matchingNodeFound := next.isSome }

def ChildrenQnameIterator.stopped (it : ChildrenQnameIterator) (found : Bool) :
    ChildrenQnameIterator :=
  { it with matchingNodeFound := found, needToMoveForward := false }

/-- One round of the loop over a child that does not match. -/
lemma hasNext_skip {c : ℕ} {after : List ℕ} {r : Bool × NamedHeap × ChildrenQnameIterator}
    (hcs : HasChildren s.heap n (before ++ c :: after)) (hcurrent : it.currentChild = some c)
    (hneed : it.needToMoveForward = true)
    (hc : (ChildKind.childrenWithQname it.givenQname).wanted levels s c = false)
    (hrest : Terminates (fun fuel => childrenQnameIteratorHasNext levels fuel
      (qnameMatches levels s c it.givenQname).2 (it.moved after.head?)) r) :
    Terminates (childrenQnameIteratorHasNext levels · s it) r := by
  obtain ⟨hmatch, hheap, -⟩ := qnameMatches_spec levels s c it.givenQname
  refine Terminates.of_succ ?_
  simp only [childrenQnameIteratorHasNext, hneed, if_true, hcurrent, hcs.read, Option.bind_some,
    hmatch, hc, Bool.false_eq_true, if_false, hheap, hcs.next_eq]
  exact hrest

/-- The loop is over. -/
lemma hasNext_done (levels : ℕ) (s : NamedHeap) {it : ChildrenQnameIterator}
    (hneed : it.needToMoveForward = false) :
    Terminates (childrenQnameIteratorHasNext levels · s it) (it.matchingNodeFound, s, it) := by
  refine Terminates.of_succ (terminates_of_forall fun fuel => ?_)
  simp [childrenQnameIteratorHasNext, hneed]

/-- Children that do not match are passed over. -/
lemma hasNext_skips {skip tail : List ℕ} (hcs : HasChildren s.heap n (before ++ (skip ++ tail)))
    (hcurrent : it.currentChild = (skip ++ tail).head?)
    (hneed : it.needToMoveForward = true ∨ skip ++ tail = [])
    (hmatching : skip ++ tail = [] → it.matchingNodeFound = false)
    (hskip : ∀ b ∈ skip, (ChildKind.childrenWithQname it.givenQname).wanted levels s b = false) :
    ∃ s' it', (∀ r, Terminates (childrenQnameIteratorHasNext levels · s' it') r →
        Terminates (childrenQnameIteratorHasNext levels · s it) r) ∧
      s'.heap = s.heap ∧ (∀ m, nameOf levels s' m = nameOf levels s m) ∧
      it'.currentChild = tail.head? ∧ it'.givenQname = it.givenQname ∧
      (it'.needToMoveForward = true ∨ tail = []) ∧ (tail = [] → it'.matchingNodeFound = false) := by
  induction skip generalizing s it before with
  | nil => exact ⟨s, it, fun _ h => h, rfl, fun _ => rfl, hcurrent, rfl, hneed, hmatching⟩
  | cons b skip ih =>
    have hmove : it.needToMoveForward = true := hneed.resolve_right (by simp)
    have hb := hskip b List.mem_cons_self
    obtain ⟨-, hheap, hnames⟩ := qnameMatches_spec levels s b it.givenQname
    have hlike : Like levels skip s (qnameMatches levels s b it.givenQname).2 :=
      ⟨by rw [hheap], fun m _ => hnames m⟩
    have hcs' : HasChildren (qnameMatches levels s b it.givenQname).2.heap n
        ((before ++ [b]) ++ (skip ++ tail)) := by
      rwa [hheap, ← List.append_cons]
    have hmoved : (it.moved (skip ++ tail).head?).needToMoveForward = true ∨ skip ++ tail = [] := by
      cases skip ++ tail <;> simp [ChildrenQnameIterator.moved]
    obtain ⟨s', it', hrun, hheap', hnames', hend⟩ := ih hcs' rfl hmoved
      (fun hnil => by rw [hnil]; rfl)
      fun m hm => (hlike.wanted hm _).trans (hskip m (List.mem_cons_of_mem b hm))
    exact ⟨s', it', fun r h => hasNext_skip hcs hcurrent hmove hb (hrun r h), hheap'.trans hheap,
      fun m => (hnames' m).trans (hnames m), hend⟩

/-- No child is left that matches. -/
lemma hasNext_stop {rest : List ℕ} (hcs : HasChildren s.heap n (before ++ rest))
    (hcurrent : it.currentChild = rest.head?) (hneed : it.needToMoveForward = true ∨ rest = [])
    (hmatching : rest = [] → it.matchingNodeFound = false)
    (hnone : ∀ c ∈ rest, (ChildKind.childrenWithQname it.givenQname).wanted levels s c = false) :
    ∃ s' it', Terminates (childrenQnameIteratorHasNext levels · s it) (false, s', it') ∧
      s'.heap = s.heap ∧ it'.currentChild = none ∧ it'.givenQname = it.givenQname ∧
        it'.matchingNodeFound = false := by
  rw [← List.append_nil rest] at hcs hcurrent hneed hmatching
  obtain ⟨s', it', hrun, hheap, -, hcurrent, hgiven, -, hfalse⟩ :=
    hasNext_skips hcs hcurrent hneed hmatching hnone
  have hfalse := hfalse rfl
  cases hmove : it'.needToMoveForward with
  | false =>
    have hdone := hasNext_done levels s' hmove
    rw [hfalse] at hdone
    exact ⟨s', it', hrun _ hdone, hheap, hcurrent, hgiven, hfalse⟩
  | true =>
    have hdone : Terminates (childrenQnameIteratorHasNext levels · s' (it'.stopped false))
        (false, s', it'.stopped false) := hasNext_done levels s' rfl
    refine ⟨s', it'.stopped false, hrun _ (Terminates.of_succ ?_), hheap, hcurrent, hgiven, rfl⟩
    have hstopped : { it' with needToMoveForward := false } = it'.stopped false := by
      rw [ChildrenQnameIterator.stopped, ← hfalse]
    simp only [childrenQnameIteratorHasNext, hmove, if_true, hcurrent, List.head?_nil]
    simp only [hcurrent, List.head?_nil] at hstopped
    simpa only [hstopped] using hdone

/-- The cursor comes to the first child that matches. -/
lemma hasNext_next {skip rest : List ℕ} {c : ℕ}
    (hcs : HasChildren s.heap n (before ++ (skip ++ c :: rest)))
    (hcurrent : it.currentChild = (skip ++ c :: rest).head?) (hneed : it.needToMoveForward = true)
    (hskip : ∀ b ∈ skip, (ChildKind.childrenWithQname it.givenQname).wanted levels s b = false)
    (hc : (ChildKind.childrenWithQname it.givenQname).wanted levels s c = true) :
    ∃ s' it', Terminates (childrenQnameIteratorHasNext levels · s it) (true, s', it') ∧
      s'.heap = s.heap ∧ (∀ m, nameOf levels s' m = nameOf levels s m) ∧
        it'.currentChild = some c ∧ it'.givenQname = it.givenQname := by
  obtain ⟨s', it', hrun, hheap, hnames, hcurrent, hgiven, hmove, -⟩ :=
    hasNext_skips hcs hcurrent (.inl hneed) (by simp) hskip
  have hmove := hmove.resolve_right (List.cons_ne_nil c rest)
  rw [List.head?_cons] at hcurrent
  have hlike : Like levels [c] s s' := ⟨by rw [hheap], fun m _ => hnames m⟩
  rw [← hlike.wanted List.mem_cons_self, ← hgiven] at hc
  rw [← hheap, ← List.append_assoc] at hcs
  obtain ⟨hmatch, hheap', hnames'⟩ := qnameMatches_spec levels s' c it'.givenQname
  have hdone : Terminates (childrenQnameIteratorHasNext levels ·
      (qnameMatches levels s' c it'.givenQname).2 (it'.stopped true))
      (true, (qnameMatches levels s' c it'.givenQname).2, it'.stopped true) :=
    hasNext_done levels _ rfl
  refine ⟨(qnameMatches levels s' c it'.givenQname).2, it'.stopped true,
    hrun _ (Terminates.of_succ ?_), hheap'.trans hheap, fun m => (hnames' m).trans (hnames m),
    hcurrent, hgiven⟩
  simp only [ChildrenQnameIterator.stopped, hcurrent] at hdone
  simp only [childrenQnameIteratorHasNext, hmove, if_true, hcurrent, hcs.read, Option.bind_some,
    hmatch, hc, ChildrenQnameIterator.stopped]
  exact hdone

lemma childrenQnameCalls_enumerates (levels : ℕ) (qname : Option QName) :
    Enumerates (childrenQnameCalls levels) levels (.childrenWithQname qname)
      (fun _ it rest => it.currentChild = rest.head? ∧ it.givenQname = qname ∧
        (it.needToMoveForward = true ∨ rest = []) ∧ it.matchingNodeFound = false)
      fun it c => it.lastChild = some c ∧ it.nextCalled = true ∧ it.removeCalled = false where
  stop := by
    rintro s it n before rest hcs ⟨hcurrent, rfl, hneed, hmatching⟩ hnone
    obtain ⟨s', it', hrun, hheap, hend, hgiven, hfalse⟩ :=
      hasNext_stop hcs hcurrent hneed (fun _ => hmatching) hnone
    exact ⟨s', it', hrun, hheap, hend, hgiven, .inr rfl, hfalse⟩
  next := by
    rintro s it n before skip c rest hcs ⟨hcurrent, rfl, hneed, -⟩ hskip hc
    have hmove : it.needToMoveForward = true := hneed.resolve_right (by simp)
    obtain ⟨s', it', hrun, hheap, hnames, hfound, hgiven⟩ := hasNext_next hcs hcurrent hmove hskip hc
    rw [← List.append_assoc, ← hheap] at hcs
    refine ⟨s', it', { it' with
        needToMoveForward := true
        matchingNodeFound := false
        nextCalled := true
        removeCalled := false
        lastChild := some c
        currentChild := rest.head? },
      hrun, terminates_of_forall fun fuel => ?_, hheap, hnames, ⟨rfl, hgiven, .inl rfl, rfl⟩,
      rfl, rfl, rfl⟩
    simp [childrenQnameCalls, childrenQnameIteratorNext, hfound, hcs.read_next]
  remove := by
    rintro s it c h' rest ⟨hlast, hnext, hremove⟩ hc hfree - hs
    refine ⟨{ it with lastChild := none, removeCalled := true }, ?_, hs⟩
    simp only [childrenQnameCalls, childrenQnameIteratorRemove, hlast, hnext, hremove]
    exact (removeLast_spec hc hfree).map _

end Qnames

end Iterators

section Elements

variable {n : ℕ} {s : NamedHeap} {before rest : List ℕ}

/-- An element asked for its children, for the first time or again. -/
lemma iterateChildren_children (levels : ℕ) (removed : ℕ → Bool) (iters : ElementIterators)
    (hcs : HasChildren s.heap n (before ++ rest))
    (hiter : (iters.childrenIter = none ∧ before = []) ∨
      ∃ it, iters.childrenIter = some it ∧ it.currentChild = rest.head?) :
    ∃ s' it, Terminates (fun fuel => iterateChildren levels removed n fuel .children s iters)
        (rest.map some, s', { iters with childrenIter := some it }) ∧
      HasChildren s'.heap n (before ++ rest.filter fun c => !removed c) ∧
      it.currentChild = none := by
  obtain ⟨it, hget, hit⟩ : ∃ it, getChildren s n iters =
      some { iters with childrenIter := some it } ∧ it.currentChild = rest.head? := by
    unfold getChildren
    obtain ⟨hnone, rfl⟩ | ⟨it, hsome, hit⟩ := hiter
    · rw [hnone, hcs.read_first]
      exact ⟨childrenIteratorCreate rest.head?, rfl, rfl⟩
    · simp only [hsome]
      exact ⟨it, by rw [← hsome], hit⟩
  obtain ⟨s', it', hrun, hleft, hend⟩ :=
    (childrenCalls_enumerates levels).run removed hcs hit
  have hall : rest.filter (ChildKind.children.wanted levels s) = rest :=
    List.filter_eq_self.mpr fun _ _ => rfl
  rw [hall] at hrun
  refine ⟨s', it', ?_, hleft, hend⟩
  simp only [iterateChildren, hget, Option.bind_some, iterateKept]
  exact (hrun.map _).map _

lemma getFirstChildElement_spec {cs : List ℕ} (hcs : HasChildren s.heap n cs)
    (hdata : ∀ c, s.heap.live c = true → isElement s.heap c = true →
      (s.heap.data c).dataElement.isSome = true) :
    Terminates (fun fuel => getFirstChildElement fuel s n) (cs.filter (isElement s.heap)).head? := by
  have hcs' : HasChildren s.heap n ([] ++ cs) := hcs
  have hfound := (elementFrom_spec hcs').map fun first =>
    first.filter fun c => (s.heap.data c).dataElement.isSome
  have hkeep : (cs.filter (isElement s.heap)).head?.filter
      (fun c => (s.heap.data c).dataElement.isSome) = (cs.filter (isElement s.heap)).head? := by
    cases hc : (cs.filter (isElement s.heap)).head? with
    | none => rfl
    | some c =>
      obtain ⟨hmem, helement⟩ := List.mem_filter.mp (List.mem_of_mem_head? hc)
      exact if_pos (hdata c ((hcs.list.members c).mp hmem).1 helement)
  rw [hkeep] at hfound
  unfold getFirstChildElement
  simp only [hcs.read_first, Option.bind_some]
  exact hfound

lemma iterateChildren_childElements (levels : ℕ) (removed : ℕ → Bool) (iters : ElementIterators)
    (hcs : HasChildren s.heap n (before ++ rest))
    (hdata : ∀ c, s.heap.live c = true → isElement s.heap c = true →
      (s.heap.data c).dataElement.isSome = true)
    (hiter : (iters.childEleIter = none ∧ before = []) ∨ ∃ it, iters.childEleIter = some it ∧
      it.currentChild = (rest.filter (isElement s.heap)).head?) :
    ∃ s' iter, Terminates (fun fuel => iterateChildren levels removed n fuel .childElements s iters)
        ((rest.filter (isElement s.heap)).map some, s', { iters with childEleIter := iter }) ∧
      HasChildren s'.heap n (before ++ rest.filter fun c => !(isElement s.heap c && removed c)) ∧
      (iters.childEleIter = none → (iter = none ↔ rest.filter (isElement s.heap) = [])) ∧
      ∀ it ∈ iter, it.currentChild = none := by
  have hget : Terminates (fun fuel => getChildElements fuel s n iters)
      (iters.childElementsFrom ((before ++ rest).filter (isElement s.heap)).head?) :=
    (getFirstChildElement_spec hcs hdata).map _
  -- what is handed out stands in front of the rest, and is NULL when no element is there
  obtain ⟨iter, hkept, hstands, hnone, hempty⟩ : ∃ iter,
      iters.childElementsFrom ((before ++ rest).filter (isElement s.heap)).head? =
        { iters with childEleIter := iter } ∧
      (∀ it ∈ iter, it.currentChild = (rest.filter (isElement s.heap)).head?) ∧
      (iter = none → rest.filter (isElement s.heap) = []) ∧
      (iters.childEleIter = none → rest.filter (isElement s.heap) = [] → iter = none) := by
    unfold ElementIterators.childElementsFrom
    obtain ⟨hno, rfl⟩ | ⟨it, hsome, hit⟩ := hiter
    · rw [hno, List.nil_append]
      refine ⟨_, rfl, fun it hit => ?_, fun hnone => ?_, fun _ hempty => ?_⟩
      · obtain ⟨c, hc, rfl⟩ := Option.map_eq_some_iff.mp hit
        exact hc.symm
      · exact List.head?_eq_none_iff.mp (Option.map_eq_none_iff.mp hnone)
      · rw [hempty]
        rfl
    · simp only [hsome]
      exact ⟨some it, by rw [← hsome], fun it' hit' => Option.some.inj hit' ▸ hit, by simp,
        by simp⟩
  obtain ⟨s', iter', hrun, hleft, hsame, hend⟩ :=
    (childElementCalls_enumerates levels).run_kept removed hcs hstands hnone
  rw [hkept] at hget
  refine ⟨s', iter', ?_, hleft, fun hno => ?_, hend⟩
  · simp only [iterateChildren]
    exact hget.bind (hrun.map _)
  · rw [hsame]
    exact ⟨hnone, hempty hno⟩

/-- An element asked for its children of a name. -/
lemma iterateChildren_withQname (levels : ℕ) (removed : ℕ → Bool) (iters : ElementIterators)
    (qname : Option QName) (hcs : HasChildren s.heap n rest) :
    ∃ s' iter, Terminates
        (fun fuel => iterateChildren levels removed n fuel (.childrenWithQname qname) s iters)
        ((rest.filter ((ChildKind.childrenWithQname qname).wanted levels s)).map some, s',
          { iters with childrenQnameIter := iter }) ∧
      HasChildren s'.heap n (rest.filter fun c =>
        !((ChildKind.childrenWithQname qname).wanted levels s c && removed c)) := by
  have hcs' : HasChildren s.heap n ([] ++ rest) := hcs
  have hstands : ∀ it ∈ childrenQnameIteratorCreate rest.head? qname,
      it.currentChild = rest.head? ∧ it.givenQname = qname ∧
        (it.needToMoveForward = true ∨ rest = []) ∧ it.matchingNodeFound = false := by
    intro it hit
    obtain ⟨c, hc, rfl⟩ := Option.map_eq_some_iff.mp hit
    exact ⟨hc.symm, rfl, .inl rfl, rfl⟩
  have hnone : childrenQnameIteratorCreate rest.head? qname = none →
      rest.filter ((ChildKind.childrenWithQname qname).wanted levels s) = [] := by
    intro hnone
    rw [List.head?_eq_none_iff.mp (Option.map_eq_none_iff.mp hnone)]
    rfl
  obtain ⟨s', iter', hrun, hleft, -⟩ :=
    (childrenQnameCalls_enumerates levels qname).run_kept removed hcs' hstands hnone
  refine ⟨s', iter', ?_, hleft⟩
  simp only [iterateChildren, getChildrenWithQname, hcs.read_first, Option.map_some,
    Option.bind_some]
  exact hrun.map _

/-- A completely built element. -/
structure BuiltElement (n : ℕ) where
  heap : OmHeap
  forest : Forest heap
  live : heap.live n = true
  elements : ∀ c, heap.live c = true → isElement heap c = true →
    (heap.data c).dataElement.isSome = true

/-- A new element is asked for an iterator, and the loop returns the wanted children once and in
order, whichever of them are removed; those are gone then, and the others stay. In a later state
the element gives its children and its child elements. -/
structure IteratesExactly (b later : BuiltElement n) (cs cs' : List ℕ) (levels : ℕ)
    (qname : ℕ → Option QName) (kind : ChildKind) (removed : ℕ → Bool) (s : NamedHeap)
    (iters : ElementIterators) : Prop where
  returns : Terminates
    (fun fuel => iterateChildren levels removed n fuel kind ⟨b.heap, qname⟩ .none)
    ((cs.filter (kind.wanted levels ⟨b.heap, qname⟩)).map some, s, iters)
  left : HasChildren s.heap n
    (cs.filter fun c => !(kind.wanted levels ⟨b.heap, qname⟩ c && removed c))
  children : ∃ r, Terminates (fun fuel => iterateChildren levels (fun _ => false) n fuel .children
    ⟨later.heap, s.qname⟩ iters) (cs'.map some, r)
  childElements : ∃ r, Terminates (fun fuel => iterateChildren levels (fun _ => false) n fuel
    .childElements ⟨later.heap, s.qname⟩ iters) ((cs'.filter (isElement later.heap)).map some, r)

/-- The iterators that an element keeps behind the first loop. -/
def Kept (b : BuiltElement n) (cs : List ℕ) (kind : ChildKind) (iters : ElementIterators) : Prop :=
  match kind with
  | .children => (∃ it, iters.childrenIter = some it ∧ it.currentChild = none) ∧
      iters.childEleIter = none
  | .childElements => iters.childrenIter = none ∧
      (iters.childEleIter = none ↔ cs.filter (isElement b.heap) = []) ∧
      ∀ it ∈ iters.childEleIter, it.currentChild = none
  | .childrenWithQname _ => iters.childrenIter = none ∧ iters.childEleIter = none

lemma iterateChildren_first (b : BuiltElement n) {cs : List ℕ} (hcs : ChildList b.heap n cs)
    (levels : ℕ) (qname : ℕ → Option QName) (kind : ChildKind) (removed : ℕ → Bool) :
    ∃ s iters, Terminates
        (fun fuel => iterateChildren levels removed n fuel kind ⟨b.heap, qname⟩ .none)
        ((cs.filter (kind.wanted levels ⟨b.heap, qname⟩)).map some, s, iters) ∧
      HasChildren s.heap n
        (cs.filter fun c => !(kind.wanted levels ⟨b.heap, qname⟩ c && removed c)) ∧
      Kept b cs kind iters := by
  have hb : HasChildren (⟨b.heap, qname⟩ : NamedHeap).heap n ([] ++ cs) := ⟨b.forest, b.live, hcs⟩
  cases kind with
  | children =>
    obtain ⟨s, it, hrun, hleft, hend⟩ :=
      iterateChildren_children levels removed .none hb (.inl ⟨rfl, rfl⟩)
    have hall : cs.filter (ChildKind.children.wanted levels ⟨b.heap, qname⟩) = cs :=
      List.filter_eq_self.mpr fun _ _ => rfl
    rw [hall]
    exact ⟨s, _, hrun, hleft, ⟨it, rfl, hend⟩, rfl⟩
  | childElements =>
    obtain ⟨s, iter, hrun, hleft, hnone, hend⟩ :=
      iterateChildren_childElements levels removed .none hb b.elements (.inl ⟨rfl, rfl⟩)
    exact ⟨s, _, hrun, hleft, rfl, hnone rfl, hend⟩
  | childrenWithQname q =>
    obtain ⟨s, iter, hrun, hleft⟩ := iterateChildren_withQname levels removed .none q hb
    exact ⟨s, _, hrun, hleft, rfl, rfl⟩

/-- A loop without results has no others. -/
lemma terminates_nil_iff {α : Type*} {f : ℕ → Option (List (Option ℕ) × α)} {r : α}
    (hf : Terminates f ([], r)) (l : List ℕ) : (∃ r', Terminates f (l.map some, r')) ↔ l = [] := by
  constructor
  · rintro ⟨r', hf'⟩
    have heq := hf'.unique hf
    exact List.map_eq_nil_iff.mp (Prod.mk.inj heq).1
  · rintro rfl
    exact ⟨r, hf⟩

section

variable (later : BuiltElement n) (hcs' : ChildList later.heap n (before ++ rest)) (levels : ℕ)
  (qname : ℕ → Option QName) (iters : ElementIterators)

include later hcs' levels qname iters

lemma later_children (hiter : (iters.childrenIter = none ∧ before = []) ∨
      ∃ it, iters.childrenIter = some it ∧ it.currentChild = rest.head?) :
    ∃ r, Terminates (fun fuel => iterateChildren levels (fun _ => false) n fuel .children
      ⟨later.heap, qname⟩ iters) (rest.map some, r) := by
  obtain ⟨s, it, hrun, -⟩ := iterateChildren_children (s := ⟨later.heap, qname⟩) levels
    (fun _ => false) iters ⟨later.forest, later.live, hcs'⟩ hiter
  exact ⟨_, hrun⟩

lemma later_childElements (hiter : (iters.childEleIter = none ∧ before = []) ∨
      ∃ it, iters.childEleIter = some it ∧
        it.currentChild = (rest.filter (isElement later.heap)).head?) :
    ∃ r, Terminates (fun fuel => iterateChildren levels (fun _ => false) n fuel .childElements
      ⟨later.heap, qname⟩ iters) ((rest.filter (isElement later.heap)).map some, r) := by
  obtain ⟨s, iter, hrun, -⟩ := iterateChildren_childElements (s := ⟨later.heap, qname⟩) levels
    (fun _ => false) iters ⟨later.forest, later.live, hcs'⟩ later.elements hiter
  exact ⟨_, hrun⟩

end

/-- The loop is right and leaves the right children, whatever is removed. A later call is right
exactly when the iterator that is kept is not the one it asks for, or there is nothing to give:
the iterator stays at its end. -/
theorem iteratesExactly_iff (b later : BuiltElement n) (levels : ℕ) (qname : ℕ → Option QName)
    (kind : ChildKind) (removed : ℕ → Bool) :
    ∃ cs cs', ChildList b.heap n cs ∧ ChildList later.heap n cs' ∧
      ((∃ s iters, IteratesExactly b later cs cs' levels qname kind removed s iters) ↔
        (kind = .children → cs' = []) ∧
        (kind = .childElements →
          cs.filter (isElement b.heap) = [] ∨ cs'.filter (isElement later.heap) = [])) := by
  obtain ⟨cs, hcs⟩ := b.forest.children n b.live
  obtain ⟨cs', hcs'⟩ := later.forest.children n later.live
  refine ⟨cs, cs', hcs, hcs', ?_⟩
  obtain ⟨s, iters, hrun, hleft, hkept⟩ :=
    iterateChildren_first b hcs levels qname kind removed
  have hbehind : ChildList later.heap n (cs' ++ []) := (List.append_nil cs').symm ▸ hcs'
  have hnew (h : iters.childrenIter = none) :=
    @later_children _ [] _ later hcs' levels s.qname iters (.inl ⟨h, rfl⟩)
  have hnewElements (h : iters.childEleIter = none) :=
    @later_childElements _ [] _ later hcs' levels s.qname iters (.inl ⟨h, rfl⟩)
  -- the first loop has one result
  have hfirst : (∃ s iters, IteratesExactly b later cs cs' levels qname kind removed s iters) ↔
      (∃ r, Terminates (fun fuel => iterateChildren levels (fun _ => false) n fuel .children
        ⟨later.heap, s.qname⟩ iters) (cs'.map some, r)) ∧
      ∃ r, Terminates (fun fuel => iterateChildren levels (fun _ => false) n fuel .childElements
        ⟨later.heap, s.qname⟩ iters) ((cs'.filter (isElement later.heap)).map some, r) := by
    constructor
    · rintro ⟨s', iters', h⟩
      have heq := (Prod.mk.inj (h.returns.unique hrun)).2
      obtain ⟨rfl, rfl⟩ := Prod.mk.inj heq
      exact ⟨h.children, h.childElements⟩
    · exact fun ⟨h, h'⟩ => ⟨s, iters, hrun, hleft, h, h'⟩
  rw [hfirst]
  cases kind with
  | children =>
    obtain ⟨hexhausted, hnone⟩ := hkept
    obtain ⟨r, hnil⟩ := later_children later hbehind levels s.qname iters (.inr hexhausted)
    rw [terminates_nil_iff hnil]
    simp [hnewElements hnone]
  | childElements =>
    obtain ⟨hnone, hempty, hexhausted⟩ := hkept
    cases hiter : iters.childEleIter with
    | none => simp [hnew hnone, hnewElements hiter, hempty.mp hiter]
    | some it =>
      obtain ⟨r, hnil⟩ := later_childElements later hbehind levels s.qname iters
        (.inr ⟨it, hiter, hexhausted it hiter⟩)
      have helements : cs.filter (isElement b.heap) ≠ [] := by
        rw [← hempty.ne, hiter]
        simp
      rw [terminates_nil_iff hnil]
      simp [hnew hnone, helements]
  | childrenWithQname q => simp [hnew hkept.1, hnewElements hkept.2]

def pairElement : BuiltElement 0 where
  heap := twoChildren ⟨.element, some (.element ⟨"a", none, [], [], false⟩), false, true⟩
  forest := twoChildren_forest _
  live := rfl
  elements _ _ _ := rfl

lemma pairElement_children : ChildList pairElement.heap 0 [1, 2] where
  nodup := by decide
  first := rfl
  last := rfl
  linked := ⟨rfl, rfl, rfl, rfl, trivial⟩
  members c := by
    have hparent : pairElement.heap.parent c =
        if c = 2 then some 0 else if c = 1 then some 0 else none := by
      simp [pairElement, twoChildren, oneChild, addChild, threeNodes, Heap.setParent, Heap.setLast,
        Heap.setFirst, Heap.setNext, Heap.setPrev, Function.update_apply]
    have hlive : pairElement.heap.live c = decide (c < 3) := rfl
    rw [ChildOf, hparent, hlive]
    grind

/-- Both children are returned, and by a second loop none of them. -/
theorem children_not_again :
    ChildList pairElement.heap 0 [1, 2] ∧
      ¬ ∃ s iters, IteratesExactly pairElement pairElement [1, 2] [1, 2] 0 (fun _ => none)
        .children (fun _ => false) s iters := by
  refine ⟨pairElement_children, ?_⟩
  rintro ⟨s, iters, h⟩
  obtain ⟨s', iters', hrun, -, hkept, -⟩ := iterateChildren_first pairElement
    pairElement_children 0 (fun _ => none) .children fun _ => false
  obtain ⟨rfl, rfl⟩ := Prod.mk.inj (Prod.mk.inj (h.returns.unique hrun)).2
  obtain ⟨r, hnil⟩ := @later_children _ [1, 2] [] pairElement
    pairElement_children 0 s.qname iters (.inr hkept)
  have hempty := (terminates_nil_iff hnil [1, 2]).mp h.children
  cases hempty

end Elements

end Axis2C.Om
