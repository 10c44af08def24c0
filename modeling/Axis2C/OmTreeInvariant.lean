import Axis2C.OmLinks

/-!
# The child lists of AXIOM nodes

In a forest every node has the list of its children, doubly linked in order, and
no node is below itself. Taking a node out of its list and putting a single node
into a list keep a forest; the operations of `om_node.c` are one or the other,
except that `axiom_node_insert_sibling_after` does not move `last_child` and the
two sibling inserts do not take the node out of the list it is in.
-/
namespace Axis2C.Om

open DoublyLinked

section Forest

variable {α : Type*}

def ChildOf (h : Heap α) (c p : ℕ) : Prop := h.live c = true ∧ h.parent c = some p

/-- `m` is `n` or below `n`. -/
def Below (h : Heap α) : ℕ → ℕ → Prop := Relation.ReflTransGen (ChildOf h)

/-- The children of a node, in order. -/
structure ChildList (h : Heap α) (p : ℕ) (cs : List ℕ) : Prop where
  nodup : cs.Nodup
  first : h.firstChild p = cs.head?
  last : h.lastChild p = cs.getLast?
  linked : Linked h.next h.prev none cs none
  members : ∀ c, c ∈ cs ↔ ChildOf h c p

/-- Every live node has a well-formed list of the nodes that name it as their
parent, and a node without a parent has no siblings. -/
structure WellLinked (h : Heap α) : Prop where
  children : ∀ p, h.live p = true → ∃ cs, ChildList h p cs
  parentLive : ∀ c p, ChildOf h c p → h.live p = true
  single : ∀ c, h.live c = true → h.parent c = none → h.prev c = none ∧ h.next c = none

structure Forest (h : Heap α) : Prop extends WellLinked h where
  acyclic : WellFounded (ChildOf h)

variable {h h' : Heap α}

lemma ChildOf.unique {c p q : ℕ} (hp : ChildOf h c p) (hq : ChildOf h c q) : p = q :=
  Option.some.inj (hp.2.symm.trans hq.2)

/-- The links after a node `n` was taken out of `xs ++ n :: ys`. -/
structure Removed (h h' : Heap α) (p n : ℕ) (xs ys : List ℕ) : Prop where
  live : h'.live = h.live
  parent : ∀ c, h'.parent c = if c = n then none else h.parent c
  next : ∀ c, h'.next c =
    if c = n then none else if xs.getLast? = some c then ys.head? else h.next c
  prev : ∀ c, h'.prev c =
    if c = n then none else if ys.head? = some c then xs.getLast? else h.prev c
  first : ∀ q, h'.firstChild q = if q = p then (xs ++ ys).head? else h.firstChild q
  last : ∀ q, h'.lastChild q = if q = p then (xs ++ ys).getLast? else h.lastChild q

/-- The links after a node `n` was put between `xs` and `ys`. -/
structure Inserted (h h' : Heap α) (p n : ℕ) (xs ys : List ℕ) : Prop where
  live : h'.live = h.live
  parent : ∀ c, h'.parent c = if c = n then some p else h.parent c
  next : ∀ c, h'.next c =
    if c = n then ys.head? else if xs.getLast? = some c then some n else h.next c
  prev : ∀ c, h'.prev c =
    if c = n then xs.getLast? else if ys.head? = some c then some n else h.prev c
  first : ∀ q, h'.firstChild q = if q = p then (xs ++ n :: ys).head? else h.firstChild q
  last : ∀ q, h'.lastChild q = if q = p then (xs ++ n :: ys).getLast? else h.lastChild q

lemma Removed.childOf {p n : ℕ} {xs ys : List ℕ} (hr : Removed h h' p n xs ys) {c q : ℕ} :
    ChildOf h' c q ↔ c ≠ n ∧ ChildOf h c q := by
  unfold ChildOf
  rw [hr.live, hr.parent]
  by_cases hc : c = n <;> simp [hc]

lemma Removed.childList {p n : ℕ} {xs ys : List ℕ} (hr : Removed h h' p n xs ys)
    (hcs : ChildList h p (xs ++ n :: ys)) : ChildList h' p (xs ++ ys) := by
  have hnodup := hcs.nodup
  have hmiddle := List.nodup_middle.mp hnodup
  obtain ⟨hn, hxy⟩ := List.nodup_cons.mp hmiddle
  have hne {c : ℕ} (hc : c ∈ xs ++ ys) : c ≠ n := fun he => hn (he ▸ hc)
  refine ⟨hxy, by rw [hr.first, if_pos rfl], by rw [hr.last, if_pos rfl], ?_, ?_⟩
  · refine hcs.linked.remove hxy (fun c hc => ?_) (fun c hc => ?_)
    · rw [hr.next, if_neg (hne hc)]
    · rw [hr.prev, if_neg (hne hc)]
  · intro c
    rw [hr.childOf, ← hcs.members]
    constructor
    · intro hc
      exact ⟨hne hc, by
        obtain hc | hc := List.mem_append.mp hc
        · exact List.mem_append_left _ hc
        · exact List.mem_append_right _ (List.mem_cons_of_mem _ hc)⟩
    · rintro ⟨hc, hmem⟩
      simpa [hc] using hmem

lemma Removed.childList_other {p n q : ℕ} {xs ys cs : List ℕ} (hr : Removed h h' p n xs ys)
    (hcs : ChildList h p (xs ++ n :: ys)) (hqs : ChildList h q cs) (hq : q ≠ p) :
    ChildList h' q cs := by
  have hother {c : ℕ} (hc : c ∈ cs) (hc' : c ∈ xs ++ n :: ys) : False :=
    hq (((hqs.members c).mp hc).unique ((hcs.members c).mp hc'))
  have hne {c : ℕ} (hc : c ∈ cs) : c ≠ n := fun he => hother hc (by simp [he])
  refine ⟨hqs.nodup, by rw [hr.first, if_neg hq, hqs.first], by rw [hr.last, if_neg hq, hqs.last],
    ?_, ?_⟩
  · refine hqs.linked.congr (fun c hc => ?_) (fun c hc => ?_)
    · rw [hr.next, if_neg (hne hc), if_neg]
      intro hl
      exact hother hc (by simp [List.mem_of_getLast? hl])
    · rw [hr.prev, if_neg (hne hc), if_neg]
      intro hh
      exact hother hc (by simp [List.mem_of_mem_head? hh])
  · intro c
    rw [hr.childOf, ← hqs.members]
    exact ⟨fun hc => ⟨hne hc, hc⟩, And.right⟩

/-- Taking a node out of its list keeps a forest. -/
theorem Removed.forest {p n : ℕ} {xs ys : List ℕ} (hr : Removed h h' p n xs ys) (hf : Forest h)
    (hcs : ChildList h p (xs ++ n :: ys)) : Forest h' := by
  have hlive (c : ℕ) : h'.live c = h.live c := by rw [hr.live]
  refine ⟨⟨fun q hq => ?_, fun c q hc => ?_, fun c hc hp => ?_⟩, ?_⟩
  · by_cases hqp : q = p
    · subst hqp
      exact ⟨_, hr.childList hcs⟩
    · obtain ⟨cs, hqs⟩ := hf.children q (by rwa [hlive] at hq)
      exact ⟨cs, hr.childList_other hcs hqs hqp⟩
  · rw [hlive]
    exact hf.parentLive c q (hr.childOf.mp hc).2
  · rw [hr.parent] at hp
    rw [hr.prev, hr.next]
    by_cases hcn : c = n
    · simp [hcn]
    · rw [if_neg hcn] at hp
      have hnot {d : ℕ} (hd : d ∈ xs ++ n :: ys) : d ≠ c := by
        rintro rfl
        have := ((hcs.members d).mp hd).2
        simp [hp] at this
      obtain ⟨hprev, hnext⟩ := hf.single c (by rwa [hlive] at hc) hp
      rw [if_neg hcn, if_neg hcn, if_neg, if_neg]
      · exact ⟨hprev, hnext⟩
      · intro hl
        exact hnot (by simp [List.mem_of_getLast? hl]) rfl
      · intro hh
        exact hnot (by simp [List.mem_of_mem_head? hh]) rfl
  · exact Subrelation.wf (fun hc => (hr.childOf.mp hc).2) hf.acyclic

section Insertion

variable {p n : ℕ} {xs ys : List ℕ}

lemma Inserted.childOf (hi : Inserted h h' p n xs ys) (hn : h.live n = true)
    (hsingle : h.parent n = none) {c q : ℕ} :
    ChildOf h' c q ↔ ChildOf h c q ∨ c = n ∧ q = p := by
  unfold ChildOf
  rw [hi.live, hi.parent]
  by_cases hc : c = n
  · subst hc
    simp [hn, hsingle, eq_comm]
  · simp [hc]

lemma Inserted.childList (hi : Inserted h h' p n xs ys) (hn : h.live n = true)
    (hsingle : h.parent n = none) (hcs : ChildList h p (xs ++ ys)) :
    ChildList h' p (xs ++ n :: ys) := by
  have hfresh : n ∉ xs ++ ys := by
    intro hmem
    have := ((hcs.members n).mp hmem).2
    simp [hsingle] at this
  refine ⟨?_, by rw [hi.first, if_pos rfl], by rw [hi.last, if_pos rfl], ?_, ?_⟩
  · rw [List.nodup_middle, List.nodup_cons]
    exact ⟨hfresh, hcs.nodup⟩
  · exact hcs.linked.insert hcs.nodup hfresh hi.next hi.prev
  · intro c
    rw [hi.childOf hn hsingle, ← hcs.members, List.mem_append, List.mem_cons, List.mem_append]
    simp only [and_true]
    tauto

lemma Inserted.childList_other {q : ℕ} {cs : List ℕ} (hi : Inserted h h' p n xs ys)
    (hn : h.live n = true) (hsingle : h.parent n = none) (hcs : ChildList h p (xs ++ ys))
    (hqs : ChildList h q cs) (hq : q ≠ p) : ChildList h' q cs := by
  have hother {c : ℕ} (hc : c ∈ cs) (hc' : c ∈ xs ++ ys) : False :=
    hq (((hqs.members c).mp hc).unique ((hcs.members c).mp hc'))
  have hne {c : ℕ} (hc : c ∈ cs) : c ≠ n := by
    rintro rfl
    have := ((hqs.members c).mp hc).2
    simp [hsingle] at this
  refine ⟨hqs.nodup, by rw [hi.first, if_neg hq, hqs.first], by rw [hi.last, if_neg hq, hqs.last],
    ?_, ?_⟩
  · refine hqs.linked.congr (fun c hc => ?_) (fun c hc => ?_)
    · rw [hi.next, if_neg (hne hc), if_neg]
      intro hl
      exact hother hc (by simp [List.mem_of_getLast? hl])
    · rw [hi.prev, if_neg (hne hc), if_neg]
      intro hh
      exact hother hc (by simp [List.mem_of_mem_head? hh])
  · intro c
    rw [hi.childOf hn hsingle, ← hqs.members]
    simp [hq]

/-- A new edge to a node that is not below keeps the parent relation well founded. -/
lemma Inserted.acyclic (hi : Inserted h h' p n xs ys) (hn : h.live n = true)
    (hsingle : h.parent n = none) (hwf : WellFounded (ChildOf h)) (hbelow : ¬ Below h p n) :
    WellFounded (ChildOf h') := by
  have hinside : ∀ m, Below h m n → Acc (ChildOf h') m := by
    intro m
    induction m using hwf.induction with
    | h m ih =>
      intro hm
      refine Acc.intro m fun c hc => ?_
      obtain hc | ⟨rfl, rfl⟩ := (hi.childOf hn hsingle).mp hc
      · exact ih c hc (hm.head hc)
      · exact absurd hm hbelow
  refine ⟨fun m => ?_⟩
  induction m using hwf.induction with
  | h m ih =>
    refine Acc.intro m fun c hc => ?_
    obtain hc | ⟨rfl, -⟩ := (hi.childOf hn hsingle).mp hc
    · exact ih c hc
    · exact hinside c Relation.ReflTransGen.refl

/-- Putting a single node into a list keeps a forest. -/
theorem Inserted.forest (hi : Inserted h h' p n xs ys) (hf : Forest h) (hp : h.live p = true)
    (hn : h.live n = true) (hsingle : h.parent n = none) (hcs : ChildList h p (xs ++ ys))
    (hbelow : ¬ Below h p n) : Forest h' := by
  have hlive (c : ℕ) : h'.live c = h.live c := by rw [hi.live]
  refine ⟨⟨fun q hq => ?_, fun c q hc => ?_, fun c hc hcp => ?_⟩, ?_⟩
  · by_cases hqp : q = p
    · subst hqp
      exact ⟨_, hi.childList hn hsingle hcs⟩
    · obtain ⟨cs, hqs⟩ := hf.children q (by rwa [hlive] at hq)
      exact ⟨cs, hi.childList_other hn hsingle hcs hqs hqp⟩
  · rw [hlive]
    obtain hc | ⟨-, rfl⟩ := (hi.childOf hn hsingle).mp hc
    · exact hf.parentLive c q hc
    · exact hp
  · rw [hi.parent] at hcp
    by_cases hcn : c = n
    · simp [hcn] at hcp
    · rw [if_neg hcn] at hcp
      have hnot {d : ℕ} (hd : d ∈ xs ++ ys) : d ≠ c := by
        rintro rfl
        have := ((hcs.members d).mp hd).2
        simp [hcp] at this
      rw [hi.prev, hi.next, if_neg hcn, if_neg hcn, if_neg, if_neg]
      · exact hf.single c (by rwa [hlive] at hc) hcp
      · intro hl
        exact hnot (by simp [List.mem_of_getLast? hl]) rfl
      · intro hh
        exact hnot (by simp [List.mem_of_mem_head? hh]) rfl
  · exact hi.acyclic hn hsingle hf.acyclic hbelow

end Insertion

end Forest

section Operations

variable {α : Type*} {h : Heap α}
variable {cs : List ℕ}

/-- Where a node stands among its siblings. -/
lemma Forest.place (hf : Forest h) {n p : ℕ} (hn : ChildOf h n p) :
    ∃ xs ys, ChildList h p (xs ++ n :: ys) ∧ h.prev n = xs.getLast? ∧ h.next n = ys.head? := by
  obtain ⟨cs, hcs⟩ := hf.children p (hf.parentLive n p hn)
  obtain ⟨xs, ys, rfl⟩ := List.append_of_mem ((hcs.members n).mpr hn)
  obtain ⟨hprev, hnext⟩ := hcs.linked.at_split
  rw [Option.or_none] at hprev hnext
  exact ⟨xs, ys, hcs, hprev, hnext⟩

lemma detach_removed {n p : ℕ} {xs ys : List ℕ} (hp : h.parent n = some p)
    (hcs : ChildList h p (xs ++ n :: ys)) (hprev : h.prev n = xs.getLast?)
    (hnext : h.next n = ys.head?) : Removed h (detachWithoutNamespaces h n) p n xs ys := by
  obtain ⟨hn, hxy⟩ := List.nodup_cons.mp (List.nodup_middle.mp hcs.nodup)
  have hfirst := hcs.first
  have hlast := hcs.last
  unfold detachWithoutNamespaces
  rw [hp, hprev, hnext]
  -- the node is the last child exactly when nothing is behind it
  have hend : h.lastChild p = some n ↔ ys = [] := by
    rw [hlast]
    cases ys with
    | nil => simp
    | cons b ys =>
      simp only [List.getLast?_append, List.getLast?_cons_cons, reduceCtorEq, iff_false]
      intro hl
      have hmem : n ∈ b :: ys := by
        cases hb : (b :: ys).getLast? with
        | none => simp at hb
        | some c =>
          simp only [hb, Option.some_or, Option.some.injEq] at hl
          exact hl ▸ List.mem_of_getLast? hb
      exact hn (List.mem_append_right _ hmem)
  obtain rfl | ⟨xs, a, rfl⟩ := List.eq_nil_or_concat' xs <;> obtain _ | ⟨b, ys⟩ := ys
  · simp only [List.getLast?_nil, List.head?_nil, Heap.setFirst, hend.mpr, if_true]
    refine ⟨rfl, fun c => ?_, fun c => ?_, fun c => ?_, fun q => ?_, fun q => ?_⟩ <;>
      simp [Heap.setLast, Heap.setParent, Heap.setPrev, Heap.setNext, Function.update_apply]
  · have hno : h.lastChild p ≠ some n := fun hl => absurd (hend.mp hl) (by simp)
    simp only [List.getLast?_nil, List.head?_cons, Heap.setFirst, Heap.setPrev, hno, if_false]
    refine ⟨rfl, fun c => ?_, fun c => ?_, fun c => ?_, fun q => ?_, fun q => ?_⟩
    · simp [Heap.setParent, Heap.setNext, Function.update_apply]
    · simp [Heap.setParent, Heap.setNext, Function.update_apply]
    · simp [Heap.setParent, Heap.setNext, Function.update_apply, eq_comm]
    · simp [Heap.setParent, Heap.setNext, Function.update_apply]
    · by_cases hq : q = p <;> simp [Heap.setParent, Heap.setNext, hq, hlast]
  · simp only [List.getLast?_concat, List.head?_nil, Heap.setNext, hend.mpr, if_true]
    refine ⟨rfl, fun c => ?_, fun c => ?_, fun c => ?_, fun q => ?_, fun q => ?_⟩
    · simp [Heap.setParent, Heap.setPrev, Heap.setLast, Function.update_apply]
    · simp [Heap.setParent, Heap.setPrev, Heap.setLast, Function.update_apply, eq_comm]
    · simp [Heap.setParent, Heap.setPrev, Heap.setLast, Function.update_apply]
    · by_cases hq : q = p <;> simp [Heap.setParent, Heap.setPrev, Heap.setLast, hq, hfirst]
    · simp [Heap.setParent, Heap.setPrev, Heap.setLast, Function.update_apply]
  · have hno : h.lastChild p ≠ some n := fun hl => absurd (hend.mp hl) (by simp)
    simp only [List.getLast?_concat, List.head?_cons, Heap.setNext, Heap.setPrev, hno, if_false]
    refine ⟨rfl, fun c => ?_, fun c => ?_, fun c => ?_, fun q => ?_, fun q => ?_⟩
    · simp [Heap.setParent, Function.update_apply]
    · simp [Heap.setParent, Function.update_apply, eq_comm]
    · simp [Heap.setParent, Function.update_apply, eq_comm]
    · by_cases hq : q = p <;> simp [Heap.setParent, hq, hfirst]
    · by_cases hq : q = p <;> simp [Heap.setParent, hq, hlast]

/-- Detaching keeps a forest and leaves a node without parent; nothing else moves. -/
lemma Forest.detach (hf : Forest h) {n : ℕ} (hn : h.live n = true) :
    Forest (detachWithoutNamespaces h n) ∧ (detachWithoutNamespaces h n).live = h.live ∧
      ∀ c, (detachWithoutNamespaces h n).parent c = if c = n then none else h.parent c := by
  cases hp : h.parent n with
  | none =>
    have hsame : detachWithoutNamespaces h n = h := by simp [detachWithoutNamespaces, hp]
    rw [hsame]
    refine ⟨hf, rfl, fun c => ?_⟩
    split_ifs with hc
    · rw [hc, hp]
    · rfl
  | some p =>
    obtain ⟨xs, ys, hcs, hprev, hnext⟩ := hf.place ⟨hn, hp⟩
    have hr := detach_removed hp hcs hprev hnext
    exact ⟨hr.forest hf hcs, hr.live, hr.parent⟩

lemma below_of_detach {h' : Heap α} {n : ℕ} (hlive : h'.live = h.live)
    (hparent : ∀ c, h'.parent c = if c = n then none else h.parent c) {a b : ℕ}
    (hb : Below h' a b) : Below h a b := by
  refine Relation.ReflTransGen.mono (fun c p hc => ?_) a b hb
  obtain ⟨hc1, hc2⟩ := hc
  rw [hlive] at hc1
  rw [hparent] at hc2
  split_ifs at hc2
  exact ⟨hc1, hc2⟩

/-- `axiom_node_add_child` on a child without a parent. -/
lemma addChild_inserted {n child : ℕ} (hcs : ChildList h n cs) (hsingle : h.parent child = none)
    (hprev : h.prev child = none) (hnext : h.next child = none) :
    Inserted h (addChild h n child) n child cs [] := by
  have hnot : child ∉ cs := by
    intro hmem
    have := ((hcs.members child).mp hmem).2
    simp [hsingle] at this
  unfold addChild
  simp only [hsingle, Option.isSome_none, Bool.false_eq_true, if_false, hcs.first, hcs.last]
  obtain rfl | ⟨xs, a, rfl⟩ := List.eq_nil_or_concat' cs
  · simp only [List.head?_nil, if_true]
    refine ⟨rfl, fun c => ?_, fun c => ?_, fun c => ?_, fun q => ?_, fun q => ?_⟩
    · simp [Heap.setFirst, Heap.setParent, Heap.setLast, Function.update_apply]
    · by_cases hc : c = child <;> simp [Heap.setFirst, Heap.setParent, Heap.setLast, hc, hnext]
    · by_cases hc : c = child <;> simp [Heap.setFirst, Heap.setParent, Heap.setLast, hc, hprev]
    · simp [Heap.setFirst, Heap.setParent, Heap.setLast, Function.update_apply]
    · simp [Heap.setFirst, Heap.setParent, Heap.setLast, Function.update_apply]
  · have hne : (xs ++ [a]).head? ≠ none := by simp
    have hca : child ≠ a := fun he => hnot (by simp [he])
    simp only [hne, if_false, List.getLast?_concat]
    refine ⟨rfl, fun c => ?_, fun c => ?_, fun c => ?_, fun q => ?_, fun q => ?_⟩
    · simp [Heap.setNext, Heap.setPrev, Heap.setParent, Heap.setLast, Function.update_apply]
    · by_cases hc : c = child
      · simp [Heap.setNext, Heap.setPrev, Heap.setParent, Heap.setLast, hc, hca, hnext]
      · simp [Heap.setNext, Heap.setPrev, Heap.setParent, Heap.setLast, hc, Function.update_apply,
          eq_comm]
    · simp [Heap.setNext, Heap.setPrev, Heap.setParent, Heap.setLast, Function.update_apply]
    · have hfirst := hcs.first
      by_cases hq : q = n <;>
        simp [Heap.setNext, Heap.setPrev, Heap.setParent, Heap.setLast, hq, hfirst]
    · simp [Heap.setNext, Heap.setPrev, Heap.setParent, Heap.setLast, Function.update_apply]

lemma addChild_eq (h : Heap α) (n child : ℕ) (hp : h.parent child = none ∨
    (detachWithoutNamespaces h child).parent child = none) :
    addChild h n child = addChild (detachWithoutNamespaces h child) n child := by
  cases hparent : h.parent child with
  | none =>
    have hsame : detachWithoutNamespaces h child = h := by simp [detachWithoutNamespaces, hparent]
    rw [hsame]
  | some p =>
    have hp' : (detachWithoutNamespaces h child).parent child = none := by
      obtain hp | hp := hp
      · simp [hparent] at hp
      · exact hp
    unfold addChild
    simp [hparent, hp']

/-- `axiom_node_add_child` keeps a forest. -/
lemma Forest.addChild (hf : Forest h) {n child : ℕ} (hn : h.live n = true)
    (hc : h.live child = true) (hbelow : ¬ Below h n child) : Forest (addChild h n child) := by
  obtain ⟨hf', hlive, hparent⟩ := hf.detach hc
  have hsingle : (detachWithoutNamespaces h child).parent child = none := by simp [hparent]
  rw [addChild_eq h n child (.inr hsingle)]
  have hn' : (detachWithoutNamespaces h child).live n = true := by rw [hlive, hn]
  have hc' : (detachWithoutNamespaces h child).live child = true := by rw [hlive, hc]
  obtain ⟨cs, hcs⟩ := hf'.children n hn'
  obtain ⟨hprev, hnext⟩ := hf'.single child hc' hsingle
  have hi := addChild_inserted hcs hsingle hprev hnext
  exact hi.forest hf' hn' hc' hsingle (by simpa using hcs)
    fun hb => hbelow (below_of_detach hlive hparent hb)

lemma insertSiblingAfter_inserted {n inserted p b : ℕ} {xs ys : List ℕ} (hp : h.parent n = some p)
    (hcs : ChildList h p (xs ++ n :: b :: ys)) (hnext : h.next n = some b)
    (hsingle : h.parent inserted = none) :
    Inserted h (insertSiblingAfter h n inserted).2 p inserted (xs ++ [n]) (b :: ys) := by
  have hnot : inserted ∉ xs ++ n :: b :: ys := by
    intro hmem
    have := ((hcs.members inserted).mp hmem).2
    simp [hsingle] at this
  have hin : inserted ≠ n := fun he => hnot (by simp [he])
  have hib : inserted ≠ b := fun he => hnot (by simp [he])
  have hfirst := hcs.first
  have hlast := hcs.last
  simp only [insertSiblingAfter, hp, hnext]
  refine ⟨rfl, fun c => ?_, fun c => ?_, fun c => ?_, fun q => ?_, fun q => ?_⟩
  · simp [Heap.setParent, Heap.setPrev, Heap.setNext, Function.update_apply]
  · by_cases hc : c = inserted
    · simp [Heap.setParent, Heap.setPrev, Heap.setNext, hc, hin]
    · simp [Heap.setParent, Heap.setPrev, Heap.setNext, Function.update_apply, hc, eq_comm]
  · by_cases hc : c = inserted
    · simp [Heap.setParent, Heap.setPrev, Heap.setNext, hc, hib]
    · simp [Heap.setParent, Heap.setPrev, Heap.setNext, Function.update_apply, hc, eq_comm]
  · by_cases hq : q = p
    · simp [Heap.setParent, Heap.setPrev, Heap.setNext, hq, hfirst]
    · simp [Heap.setParent, Heap.setPrev, Heap.setNext, hq]
  · by_cases hq : q = p
    · simp [Heap.setParent, Heap.setPrev, Heap.setNext, hq, hlast]
    · simp [Heap.setParent, Heap.setPrev, Heap.setNext, hq]

lemma insertSiblingBefore_inserted {n inserted p : ℕ} {xs ys : List ℕ} (hp : h.parent n = some p)
    (hcs : ChildList h p (xs ++ n :: ys)) (hprev : h.prev n = xs.getLast?)
    (hsingle : h.parent inserted = none) :
    Inserted h (insertSiblingBefore h n inserted).2 p inserted xs (n :: ys) := by
  have hnot : inserted ∉ xs ++ n :: ys := by
    intro hmem
    have := ((hcs.members inserted).mp hmem).2
    simp [hsingle] at this
  have hin : inserted ≠ n := fun he => hnot (by simp [he])
  have hfirst := hcs.first
  have hlast := hcs.last
  simp only [insertSiblingBefore, hp, hprev]
  obtain rfl | ⟨xs, a, rfl⟩ := List.eq_nil_or_concat' xs
  · simp only [List.getLast?_nil]
    refine ⟨rfl, fun c => ?_, fun c => ?_, fun c => ?_, fun q => ?_, fun q => ?_⟩
    · simp [Heap.setParent, Heap.setPrev, Heap.setNext, Heap.setFirst, Function.update_apply]
    · simp [Heap.setParent, Heap.setPrev, Heap.setNext, Heap.setFirst, Function.update_apply]
    · by_cases hc : c = inserted
      · simp [Heap.setParent, Heap.setPrev, Heap.setNext, Heap.setFirst, hc, hin]
      · simp [Heap.setParent, Heap.setPrev, Heap.setNext, Heap.setFirst, Function.update_apply, hc,
          eq_comm]
    · simp [Heap.setParent, Heap.setPrev, Heap.setNext, Heap.setFirst, Function.update_apply]
    · by_cases hq : q = p
      · simp [Heap.setParent, Heap.setPrev, Heap.setNext, Heap.setFirst, hq, hlast]
      · simp [Heap.setParent, Heap.setPrev, Heap.setNext, Heap.setFirst, hq]
  · have hia : inserted ≠ a := fun he => hnot (by simp [he])
    simp only [List.getLast?_concat]
    refine ⟨rfl, fun c => ?_, fun c => ?_, fun c => ?_, fun q => ?_, fun q => ?_⟩
    · simp [Heap.setParent, Heap.setPrev, Heap.setNext, Function.update_apply]
    · by_cases hc : c = inserted
      · simp [Heap.setParent, Heap.setPrev, Heap.setNext, hc, hia]
      · simp [Heap.setParent, Heap.setPrev, Heap.setNext, Function.update_apply, hc, eq_comm]
    · by_cases hc : c = inserted
      · simp [Heap.setParent, Heap.setPrev, Heap.setNext, hc, hin]
      · simp [Heap.setParent, Heap.setPrev, Heap.setNext, Function.update_apply, hc, eq_comm]
    · by_cases hq : q = p
      · simp [Heap.setParent, Heap.setPrev, Heap.setNext, hq, hfirst]
      · simp [Heap.setParent, Heap.setPrev, Heap.setNext, hq]
    · by_cases hq : q = p
      · simp [Heap.setParent, Heap.setPrev, Heap.setNext, hq, hlast]
      · simp [Heap.setParent, Heap.setPrev, Heap.setNext, hq]

/-- `axiom_node_insert_sibling_after` in front of another sibling. -/
lemma Forest.insertSiblingAfter (hf : Forest h) {n inserted : ℕ} (hn : h.live n = true)
    (hi : h.live inserted = true) (hnext : h.parent n = none ∨ h.next n ≠ none)
    (hsingle : h.parent n = none ∨ h.parent inserted = none)
    (hbelow : ∀ p, h.parent n = some p → ¬ Below h p inserted) :
    Forest (insertSiblingAfter h n inserted).2 := by
  cases hp : h.parent n with
  | none => simpa [Om.insertSiblingAfter, hp] using hf
  | some p =>
    obtain ⟨xs, ys, hcs, -, hnext'⟩ := hf.place ⟨hn, hp⟩
    have hsingle' : h.parent inserted = none := by simpa [hp] using hsingle
    cases ys with
    | nil => simp [hp, hnext'] at hnext
    | cons b ys =>
      have hins := insertSiblingAfter_inserted hp hcs hnext' hsingle'
      exact hins.forest hf (hf.parentLive n p ⟨hn, hp⟩) hi hsingle' (by simpa using hcs)
        (hbelow p hp)

/-- `axiom_node_insert_sibling_before` with a node without parent. -/
lemma Forest.insertSiblingBefore (hf : Forest h) {n inserted : ℕ} (hn : h.live n = true)
    (hi : h.live inserted = true) (hsingle : h.parent n = none ∨ h.parent inserted = none)
    (hbelow : ∀ p, h.parent n = some p → ¬ Below h p inserted) :
    Forest (insertSiblingBefore h n inserted).2 := by
  cases hp : h.parent n with
  | none => simpa [Om.insertSiblingBefore, hp] using hf
  | some p =>
    obtain ⟨xs, ys, hcs, hprev, -⟩ := hf.place ⟨hn, hp⟩
    have hsingle' : h.parent inserted = none := by simpa [hp] using hsingle
    have hins := insertSiblingBefore_inserted hp hcs hprev hsingle'
    exact hins.forest hf (hf.parentLive n p ⟨hn, hp⟩) hi hsingle' hcs (hbelow p hp)

lemma free_mono (fuel : ℕ) :
    (∀ (h : Heap α) n h', freeDetachedSubtree fuel h n = some h' →
      freeDetachedSubtree (fuel + 1) h n = some h') ∧
    ∀ (h : Heap α) c h', freeChildren fuel h c = some h' →
      freeChildren (fuel + 1) h c = some h' := by
  induction fuel with
  | zero =>
    refine ⟨fun h n h' hr => by simp [freeDetachedSubtree] at hr, fun h c h' hr => ?_⟩
    cases c with
    | none => simpa [freeChildren] using hr
    | some c => simp [freeChildren] at hr
  | succ fuel ih =>
    refine ⟨fun h n h' hr => ?_, fun h c h' hr => ?_⟩
    · simp only [freeDetachedSubtree, Option.map_eq_some_iff] at hr ⊢
      obtain ⟨h1, hr1, rfl⟩ := hr
      exact ⟨h1, ih.2 _ _ _ hr1, rfl⟩
    · cases c with
      | none => simpa [freeChildren] using hr
      | some c =>
        simp only [freeChildren, Option.bind_eq_some_iff] at hr ⊢
        obtain ⟨h1, hr1, hr2⟩ := hr
        exact ⟨h1, ih.1 _ _ _ hr1, ih.2 _ _ _ hr2⟩

lemma freeDetachedSubtree_mono {fuel fuel' : ℕ} (hle : fuel ≤ fuel') {h h' : Heap α} {n : ℕ}
    (hr : freeDetachedSubtree fuel h n = some h') : freeDetachedSubtree fuel' h n = some h' := by
  induction hle with
  | refl => exact hr
  | step _ ih => exact (free_mono _).1 _ _ _ ih

lemma freeChildren_mono {fuel fuel' : ℕ} (hle : fuel ≤ fuel') {h h' : Heap α} {c : Option ℕ}
    (hr : freeChildren fuel h c = some h') : freeChildren fuel' h c = some h' := by
  induction hle with
  | refl => exact hr
  | step _ ih => exact (free_mono _).2 _ _ _ ih

open Classical in
noncomputable def Heap.freeSet (h : Heap α) (live : ℕ → Bool) (gone : ℕ → Prop) : Heap α :=
  { h with live := fun m => if gone m then false else live m }

def Heap.withLive (h : Heap α) (live : ℕ → Bool) : Heap α := { h with live := live }

lemma freeSet_live (h : Heap α) (live : ℕ → Bool) (gone : ℕ → Prop) (m : ℕ) :
    (h.freeSet live gone).live m = true ↔ ¬ gone m ∧ live m = true := by
  unfold Heap.freeSet
  by_cases hm : gone m <;> simp [hm]

lemma freeSet_freeSet (h : Heap α) (live : ℕ → Bool) (gone gone' : ℕ → Prop) :
    h.freeSet (h.freeSet live gone).live gone' = h.freeSet live fun m => gone m ∨ gone' m := by
  unfold Heap.freeSet
  congr 1
  funext m
  by_cases hm : gone m <;> by_cases hm' : gone' m <;> simp [hm, hm']

lemma free_freeSet (h : Heap α) (live : ℕ → Bool) (gone : ℕ → Prop) (n : ℕ) :
    (h.freeSet live gone).free n = h.freeSet live fun m => m = n ∨ gone m := by
  unfold Heap.freeSet Heap.free
  congr 1
  funext m
  by_cases hm : m = n <;> by_cases hg : gone m <;> simp [hm, hg]

/-- The loop over a list of children, given that each subtree is freed. -/
lemma freeChildren_spec {cs : List ℕ} {before : Option ℕ} (hlinked : Linked h.next h.prev before cs none)
    (hsub : ∀ c ∈ cs, ∃ fuel, ∀ live, freeDetachedSubtree fuel (h.withLive live) c =
      some (h.freeSet live (Below h · c))) :
    ∃ fuel, ∀ live, freeChildren fuel (h.withLive live) cs.head? =
      some (h.freeSet live fun m => ∃ c ∈ cs, Below h m c) := by
  induction cs generalizing before with
  | nil =>
    refine ⟨0, fun live => ?_⟩
    simp [freeChildren, Heap.withLive, Heap.freeSet]
  | cons c cs ih =>
    obtain ⟨-, hnext, hrest⟩ := hlinked
    obtain ⟨f1, hf1⟩ := hsub c (by simp)
    obtain ⟨f2, hf2⟩ := ih hrest fun d hd => hsub d (by simp [hd])
    refine ⟨max f1 f2 + 1, fun live => ?_⟩
    have hstep1 := freeDetachedSubtree_mono (le_max_left f1 f2) (hf1 live)
    have hstep2 := freeChildren_mono (le_max_right f1 f2) (hf2 (h.freeSet live (Below h · c)).live)
    have hn : (h.withLive live).next c = cs.head? := by
      rw [Option.or_none] at hnext
      exact hnext
    simp only [List.head?_cons, freeChildren, hstep1, Option.bind_some, hn]
    rw [freeSet_freeSet] at hstep2
    refine hstep2.trans ?_
    congr 2
    funext m
    simp

/-- `axiom_node_free_detached_subtree` returns, and frees the nodes below. -/
theorem Forest.freeDetachedSubtree_spec (hf : Forest h) (n : ℕ) (hn : h.live n = true) :
    ∃ fuel, ∀ live, freeDetachedSubtree fuel (h.withLive live) n =
      some (h.freeSet live (Below h · n)) := by
  induction n using hf.acyclic.induction with
  | h n ih =>
    obtain ⟨cs, hcs⟩ := hf.children n hn
    obtain ⟨fuel, hfuel⟩ := freeChildren_spec hcs.linked fun c hc =>
      ih c ((hcs.members c).mp hc) ((hcs.members c).mp hc).1
    refine ⟨fuel + 1, fun live => ?_⟩
    have hfirst : (h.withLive live).firstChild n = cs.head? := hcs.first
    simp only [freeDetachedSubtree, hfirst, hfuel, Option.map_some, free_freeSet]
    congr 2
    funext m
    refine propext ⟨?_, fun hb => ?_⟩
    · rintro (rfl | ⟨c, hc, hb⟩)
      · exact Relation.ReflTransGen.refl
      · exact hb.tail ((hcs.members c).mp hc)
    · obtain rfl | ⟨c, hb, hc⟩ := Relation.ReflTransGen.cases_tail hb
      · exact .inl rfl
      · exact .inr ⟨c, (hcs.members c).mpr hc, hb⟩

/-- Without the nodes below a root there is still a forest. -/
lemma Forest.freeSet (hf : Forest h) {n : ℕ} (hroot : h.parent n = none) :
    Forest (h.freeSet h.live (Below h · n)) := by
  have hup {c p : ℕ} (hc : ChildOf h c p) : Below h c n ↔ Below h p n := by
    constructor
    · intro hb
      obtain rfl | ⟨d, hd, hb⟩ := Relation.ReflTransGen.cases_head hb
      · have := hc.2
        simp [hroot] at this
      · exact hc.unique hd ▸ hb
    · exact fun hb => hb.head hc
  have hchild {c p : ℕ} : ChildOf (h.freeSet h.live (Below h · n)) c p ↔
      ¬ Below h c n ∧ ChildOf h c p := by
    unfold ChildOf
    rw [freeSet_live]
    exact and_assoc
  refine ⟨⟨fun p hp => ?_, fun c p hc => ?_, fun c hc hcp => ?_⟩, ?_⟩
  · rw [freeSet_live] at hp
    obtain ⟨cs, hcs⟩ := hf.children p hp.2
    refine ⟨cs, hcs.nodup, hcs.first, hcs.last, hcs.linked, fun c => ?_⟩
    rw [hchild, hcs.members]
    exact ⟨fun hc => ⟨fun hb => hp.1 ((hup hc).mp hb), hc⟩, And.right⟩
  · rw [hchild] at hc
    rw [freeSet_live]
    exact ⟨fun hb => hc.1 ((hup hc.2).mpr hb), hf.parentLive c p hc.2⟩
  · rw [freeSet_live] at hc
    exact hf.single c hc.2 hcp
  · exact Subrelation.wf (fun hc => (hchild.mp hc).2) hf.acyclic

/-- `axiom_node_free_tree` returns, and keeps a forest. -/
lemma Forest.freeTree (hf : Forest h) {n : ℕ} (hn : h.live n = true) :
    ∃ h', Forest h' ∧ ∃ fuel, freeTree fuel h n = some h' := by
  obtain ⟨hf', hlive, hparent⟩ := hf.detach hn
  obtain ⟨fuel, hfuel⟩ := hf'.freeDetachedSubtree_spec n (by rw [hlive, hn])
  refine ⟨_, hf'.freeSet (n := n) (by simp [hparent]), fuel, ?_⟩
  exact hfuel (detachWithoutNamespaces h n).live

lemma Forest.freeTree_forest (hf : Forest h) {n fuel : ℕ} {h' : Heap α} (hn : h.live n = true)
    (hr : Om.freeTree fuel h n = some h') : Forest h' := by
  obtain ⟨h'', hf', fuel', hr'⟩ := hf.freeTree hn
  have h1 := freeDetachedSubtree_mono (le_max_left fuel fuel') hr
  have h2 := freeDetachedSubtree_mono (le_max_right fuel fuel') hr'
  have heq : h' = h'' := Option.some.inj (h1.symm.trans h2)
  exact heq ▸ hf'

lemma nodeCreate_childOf {n : ℕ} (hn : h.live n = false) (d : α) {c p : ℕ} :
    ChildOf (nodeCreate h n d) c p ↔ ChildOf h c p := by
  by_cases hc : c = n
  · subst hc
    simp [ChildOf, nodeCreate, hn]
  · simp [ChildOf, nodeCreate, hc]

lemma ne_of_live {n : ℕ} (hn : h.live n = false) {c : ℕ} (hc : h.live c = true) : c ≠ n := by
  rintro rfl
  simp [hn] at hc

lemma ChildList.nodeCreate {n p : ℕ} (hcs : ChildList h p cs) (hn : h.live n = false) (hp : p ≠ n)
    (d : α) : ChildList (nodeCreate h n d) p cs := by
  have hne {c : ℕ} (hc : c ∈ cs) : c ≠ n := ne_of_live hn ((hcs.members c).mp hc).1
  refine ⟨hcs.nodup, ?_, ?_, ?_, fun c => by rw [nodeCreate_childOf hn, hcs.members]⟩
  · simp [Om.nodeCreate, hp, hcs.first]
  · simp [Om.nodeCreate, hp, hcs.last]
  · exact hcs.linked.congr (fun c hc => by simp [Om.nodeCreate, hne hc])
      fun c hc => by simp [Om.nodeCreate, hne hc]

lemma Forest.childList_created (hf : Forest h) {n : ℕ} (hn : h.live n = false) (d : α) :
    ChildList (Om.nodeCreate h n d) n [] := by
  refine ⟨List.nodup_nil, by simp [Om.nodeCreate], by simp [Om.nodeCreate], trivial, fun c => ?_⟩
  rw [nodeCreate_childOf hn]
  simp only [List.not_mem_nil, false_iff]
  intro hc
  exact ne_of_live hn (hf.parentLive c n hc) rfl

/-- A new node stands alone. -/
lemma Forest.nodeCreate (hf : Forest h) {n : ℕ} (hn : h.live n = false) (d : α) :
    Forest (nodeCreate h n d) := by
  have hlive {c : ℕ} (hc : c ≠ n) : (Om.nodeCreate h n d).live c = h.live c := by
    simp [Om.nodeCreate, hc]
  refine ⟨⟨fun p hp => ?_, fun c p hc => ?_, fun c hc hcp => ?_⟩, ?_⟩
  · by_cases hpn : p = n
    · exact ⟨[], hpn ▸ hf.childList_created hn d⟩
    · obtain ⟨cs, hcs⟩ := hf.children p (by rwa [hlive hpn] at hp)
      exact ⟨cs, hcs.nodeCreate hn hpn d⟩
  · have hp := hf.parentLive c p ((nodeCreate_childOf hn d).mp hc)
    rwa [hlive (ne_of_live hn hp)]
  · by_cases hcn : c = n
    · simp [Om.nodeCreate, hcn]
    · have hc' : h.live c = true := by rwa [hlive hcn] at hc
      have hcp' : h.parent c = none := by simpa [Om.nodeCreate, hcn] using hcp
      simpa [Om.nodeCreate, hcn] using hf.single c hc' hcp'
  · exact Subrelation.wf (nodeCreate_childOf hn d).mp hf.acyclic

end Operations

section Runs

variable {α : Type*}

/-- A call of a client. -/
inductive Call (α : Type*) where
  | create (n : ℕ) (d : α)
  | addChild (n child : ℕ)
  | insertSiblingAfter (n inserted : ℕ)
  | insertSiblingBefore (n inserted : ℕ)
  | detach (n : ℕ)
  | freeTree (n : ℕ)

/-- What a call does. The nodes are live, and none is put under itself or under a
node below it. -/
inductive Step : Heap α → Call α → Heap α → Prop where
  | create {h : Heap α} {n : ℕ} {d : α} (hn : h.live n = false) :
      Step h (.create n d) (nodeCreate h n d)
  | addChild {h : Heap α} {n child : ℕ} (hn : h.live n = true) (hc : h.live child = true)
      (hbelow : ¬ Below h n child) : Step h (.addChild n child) (addChild h n child)
  | insertSiblingAfter {h : Heap α} {n inserted : ℕ} (hn : h.live n = true)
      (hi : h.live inserted = true) (hbelow : ∀ p, h.parent n = some p → ¬ Below h p inserted) :
      Step h (.insertSiblingAfter n inserted) (insertSiblingAfter h n inserted).2
  | insertSiblingBefore {h : Heap α} {n inserted : ℕ} (hn : h.live n = true)
      (hi : h.live inserted = true) (hbelow : ∀ p, h.parent n = some p → ¬ Below h p inserted) :
      Step h (.insertSiblingBefore n inserted) (insertSiblingBefore h n inserted).2
  | detach {h : Heap α} {n : ℕ} (hn : h.live n = true) :
      Step h (.detach n) (detachWithoutNamespaces h n)
  | freeTree {h h' : Heap α} {n fuel : ℕ} (hn : h.live n = true)
      (hr : freeTree fuel h n = some h') : Step h (.freeTree n) h'

/-- A node is inserted behind one that is not the last child, and a node inserted
as a sibling is in no list. Without a parent nothing is inserted. -/
def Call.Meets (h : Heap α) : Call α → Prop
  | .insertSiblingAfter n inserted =>
    h.parent n = none ∨ h.next n ≠ none ∧ h.parent inserted = none
  | .insertSiblingBefore n inserted => h.parent n = none ∨ h.parent inserted = none
  | _ => True

/-- The states of the runs whose calls are all allowed. -/
def Reaches (allowed : Heap α → Call α → Prop) : Heap α → Heap α → Prop :=
  Relation.ReflTransGen fun h h' => ∃ call, allowed h call ∧ Step h call h'

def Fresh (h : Heap α) : Prop := ∀ n, h.live n = true → h.Single n

lemma Fresh.forest {h : Heap α} (hfresh : Fresh h) : Forest h := by
  have hno {c p : ℕ} (hc : ChildOf h c p) : False := by
    have := hc.2
    simp [(hfresh c hc.1).1] at this
  refine ⟨⟨fun p hp => ⟨[], ?_⟩, fun c p hc => (hno hc).elim, fun c hc _ => ?_⟩, ?_⟩
  · obtain ⟨-, -, -, hfirst, hlast⟩ := hfresh p hp
    exact ⟨List.nodup_nil, hfirst, hlast, trivial, fun c => ⟨by simp, fun hc => (hno hc).elim⟩⟩
  · obtain ⟨-, hprev, hnext, -, -⟩ := hfresh c hc
    exact ⟨hprev, hnext⟩
  · exact ⟨fun p => Acc.intro p fun c hc => (hno hc).elim⟩

/-- A call that meets the condition keeps a forest. -/
lemma Forest.step {h h' : Heap α} {call : Call α} (hf : Forest h) (hstep : Step h call h')
    (hmeets : call.Meets h) : Forest h' := by
  cases hstep with
  | create hn => exact hf.nodeCreate hn _
  | addChild hn hc hbelow => exact hf.addChild hn hc hbelow
  | insertSiblingAfter hn hi hbelow =>
    exact hf.insertSiblingAfter hn hi (hmeets.imp_right And.left) (hmeets.imp_right And.right)
      hbelow
  | insertSiblingBefore hn hi hbelow => exact hf.insertSiblingBefore hn hi hmeets hbelow
  | detach hn => exact (hf.detach hn).1
  | freeTree hn hr => exact hf.freeTree_forest hn hr

lemma Reaches.forest {h h' : Heap α} (hrun : Reaches (fun h call => call.Meets h) h h')
    (hf : Forest h) : Forest h' := by
  induction hrun with
  | refl => exact hf
  | tail _ hstep ih =>
    obtain ⟨call, hmeets, hstep⟩ := hstep
    exact ih.step hstep hmeets

/-- From fresh nodes, as long as every sibling insert meets the condition, the
child lists are well formed and `axiom_node_free_tree` returns. -/
theorem wellLinked_of_meets {h h' : Heap α} (hfresh : Fresh h)
    (hrun : Reaches (fun h call => call.Meets h) h h') :
    WellLinked h' ∧ ∀ n, h'.live n = true → ∃ fuel, (freeTree fuel h' n).isSome := by
  have hf := hrun.forest hfresh.forest
  refine ⟨hf.toWellLinked, fun n hn => ?_⟩
  obtain ⟨h'', -, fuel, hr⟩ := hf.freeTree hn
  exact ⟨fuel, by simp [hr]⟩

lemma not_below_of_root {h : Heap α} {m n : ℕ} (hroot : h.parent m = none) (hne : m ≠ n) :
    ¬ Below h m n := by
  intro hb
  obtain rfl | ⟨c, hc, -⟩ := Relation.ReflTransGen.cases_head hb
  · exact hne rfl
  · have := hc.2
    simp [hroot] at this

def threeNodes (d : α) : Heap α where
  live n := n < 3
  parent _ := none
  prev _ := none
  next _ := none
  firstChild _ := none
  lastChild _ := none
  data _ := d

lemma threeNodes_fresh (d : α) : Fresh (threeNodes d) := fun _ _ => ⟨rfl, rfl, rfl, rfl, rfl⟩

def oneChild (d : α) : Heap α := addChild (threeNodes d) 0 1

/-- It gets the third, too. -/
def twoChildren (d : α) : Heap α := addChild (oneChild d) 0 2

lemma step_oneChild (d : α) : Step (threeNodes d) (.addChild 0 1) (oneChild d) :=
  .addChild rfl rfl (not_below_of_root rfl (by decide))

lemma step_twoChildren (d : α) : Step (oneChild d) (.addChild 0 2) (twoChildren d) :=
  .addChild rfl rfl (not_below_of_root rfl (by decide))

/-- Two children are added. -/
theorem wellLinked_two_children :
    WellLinked (twoChildren ()) ∧
      ∀ n, (twoChildren ()).live n = true → ∃ fuel, (freeTree fuel (twoChildren ()) n).isSome := by
  refine wellLinked_of_meets (threeNodes_fresh ()) ?_
  exact (Relation.ReflTransGen.single ⟨.addChild 0 1, trivial, step_oneChild ()⟩).tail
    ⟨.addChild 0 2, trivial, step_twoChildren ()⟩

/-- Behind the last child a node is inserted, and `last_child` stays. -/
theorem last_child_stays_behind :
    ∃ h : Heap Unit, Fresh (threeNodes ()) ∧ Reaches (fun _ _ => True) (threeNodes ()) h ∧
      ¬ WellLinked h := by
  refine ⟨(insertSiblingAfter (oneChild ()) 1 2).2, threeNodes_fresh (), ?_, ?_⟩
  · have hstep : Step (oneChild ()) (.insertSiblingAfter 1 2)
        (insertSiblingAfter (oneChild ()) 1 2).2 := by
      refine .insertSiblingAfter rfl rfl fun p hp => ?_
      obtain rfl : 0 = p := Option.some.inj hp
      exact not_below_of_root rfl (by decide)
    exact (Relation.ReflTransGen.single ⟨_, trivial, step_oneChild ()⟩).tail ⟨_, trivial, hstep⟩
  · intro hw
    obtain ⟨cs, hcs⟩ := hw.children 0 rfl
    have hlast : cs.getLast? = some 1 := by rw [← hcs.last]; rfl
    obtain ⟨xs, rfl⟩ : ∃ xs, cs = xs ++ [1] := List.getLast?_eq_some_iff.mp hlast
    have hend := hcs.linked.at_split.2
    have hnext : (insertSiblingAfter (oneChild ()) 1 2).2.next 1 = some 2 := rfl
    simp [hnext] at hend

end Runs

end Axis2C.Om
