import Axis2C.OmSerialize

/-!
# The navigator

`axiom_navigator` keeps the node that it returns next, so that its flags are about a node that
the caller has not seen yet. In a complete tree the accessors give the fields.
-/
namespace Axis2C.Om

open OrderedTrees DoublyLinked

section Model

variable {β : Type*}

structure Navigator where
  node : Option ℕ
  visited : Bool
  next : Option ℕ
  root : ℕ
  backtracked : Bool
  isEnd : Bool
  start : Bool
  deriving DecidableEq, Repr

def navigatorCreate (n : ℕ) : Navigator := ⟨none, false, some n, n, false, false, true⟩

def Navigator.isNavigable (nav : Navigator) : Bool :=
  if nav.isEnd then false else nav.next.isSome

def Navigator.isCompleted (nav : Navigator) : Bool := nav.isEnd

def updateNextNode (h : Heap (Node β)) (nav : Navigator) : Navigator :=
  match nav.next with
  | none => nav
  | some n =>
    if (h.data n).nodeType = .element ∧ nav.visited = false then
      match h.firstChild n with
      | some c => { nav with next := some c }
      | none =>
        if (h.data n).done then { nav with backtracked := true } else { nav with next := none }
    else
      match h.next n, h.parent n with
      | some s, _ => { nav with next := some s }
      | none, some p =>
        if (h.data p).done then { nav with next := some p, backtracked := true }
        else { nav with next := none }
      | none, none => { nav with next := none }

def navigatorNext (h : Heap (Node β)) (nav : Navigator) : Option ℕ × Navigator :=
  match nav.next with
  | none => (none, nav)
  | some n =>
    let nav := updateNextNode h
      { nav with node := some n, visited := nav.backtracked, backtracked := false }
    -- the starting and ending flags
    let nav :=
      if nav.next = some nav.root then
        if nav.start then { nav with start := false } else { nav with isEnd := true }
      else nav
    (nav.node, nav)

/-- A caller's loop, with the nodes that it is given and whether they were visited before. -/
def navigate (h : Heap (Node β)) : ℕ → Navigator → List (Option ℕ × Bool) × Navigator
  | 0, nav => ([], nav)
  | fuel + 1, nav =>
    if nav.isNavigable then
      let r := navigatorNext h nav
      let rest := navigate h fuel r.2
      ((r.1, r.2.visited) :: rest.1, rest.2)
    else ([], nav)

/-- A completely built tree: only elements have children. -/
structure CompleteTree (β : Type*) where
  heap : Heap (Node β)
  forest : Forest heap
  inner : ∀ c p, ChildOf heap c p → (heap.data p).nodeType = .element
  complete : ∀ n, heap.live n = true → (heap.data n).nodeType = .element →
    (heap.data n).done = true

/-- The depth-first tour: an element comes in front of what is below it and behind it. -/
def tour (h : Heap (Node β)) (trees : Trees ℕ) : List (Option ℕ × Bool) :=
  trees.walk (fun n => [(some n, false)])
    fun n => if (h.data n).nodeType = .element then [(some n, true)] else []

/-- The loop returns these, and ends with the navigator completed. -/
def Tours (h : Heap (Node β)) (n : ℕ) (l : List (Option ℕ × Bool)) : Prop :=
  ∃ fuel, (navigate h fuel (navigatorCreate n)).1 = l ∧
    (navigate h fuel (navigatorCreate n)).2.isNavigable = false ∧
    (navigate h fuel (navigatorCreate n)).2.isCompleted = true

end Model

section Calls

variable {β : Type*} {h : Heap (Node β)}

/-- From one state the loop returns these up to the other. -/
def Navigates (h : Heap (Node β)) (nav : Navigator) (l : List (Option ℕ × Bool))
    (nav' : Navigator) : Prop :=
  ∀ k, navigate h (l.length + k) nav = (l ++ (navigate h k nav').1, (navigate h k nav').2)

lemma Navigates.trans {nav nav' nav'' : Navigator} {l l' : List (Option ℕ × Bool)}
    (h1 : Navigates h nav l nav') (h2 : Navigates h nav' l' nav'') :
    Navigates h nav (l ++ l') nav'' := by
  intro k
  rw [List.length_append, add_assoc, h1, h2, List.append_assoc]

/-- The nodes that a loop returns are at most its calls. -/
lemma navigate_length (k : ℕ) (nav : Navigator) : (navigate h k nav).1.length ≤ k := by
  induction k generalizing nav with
  | zero => simp [navigate]
  | succ k ih =>
    rw [navigate]
    split
    · exact Nat.succ_le_succ (ih _)
    · exact Nat.zero_le _

/-- A loop that returns nothing did nothing. -/
lemma navigate_nil {k : ℕ} {nav : Navigator} (hnil : (navigate h k nav).1 = []) :
    (navigate h k nav).2 = nav := by
  cases k with
  | zero => rfl
  | succ k =>
    rw [navigate] at hnil ⊢
    split at hnil
    · cases hnil
    · rename_i hstop
      rw [if_neg hstop]

/-- The state behind what is returned is the one that the loop ends with. -/
lemma Navigates.final {nav nav' : Navigator} {l : List (Option ℕ × Bool)}
    (hl : Navigates h nav l nav') {fuel : ℕ} (hfuel : (navigate h fuel nav).1 = l) :
    (navigate h fuel nav).2 = nav' := by
  have hle : l.length ≤ fuel := hfuel ▸ navigate_length fuel nav
  obtain ⟨k, rfl⟩ := Nat.exists_eq_add_of_le hle
  rw [hl k] at hfuel ⊢
  exact navigate_nil (List.append_right_eq_self.mp hfuel)

/-- What the next call depends on, while the flag of the end is not set. -/
structure Navigator.At (nav : Navigator) (root : ℕ) (next : Option ℕ)
    (backtracked start : Bool) : Prop where
  root : nav.root = root
  next : nav.next = next
  backtracked : nav.backtracked = backtracked
  start : nav.start = start
  isEnd : nav.isEnd = false

variable {nav : Navigator} {root m : ℕ} {backtracked start : Bool}

lemma Navigator.At.call (hnav : nav.At root (some m) backtracked start) {t : Option ℕ} {b : Bool}
    (hupdate : updateNextNode h ⟨some m, backtracked, some m, root, false, false, start⟩ =
      ⟨some m, backtracked, t, root, b, false, start⟩)
    (hstart : start = true ∨ t ≠ some root) :
    ∃ nav', Navigates h nav [(some m, backtracked)] nav' ∧
      nav'.At root t b (start && decide (t ≠ some root)) := by
  obtain ⟨node, visited, next, root', backtracked', isEnd, start'⟩ := nav
  obtain ⟨rfl, rfl, rfl, rfl, rfl⟩ := hnav
  dsimp only at hupdate hstart ⊢
  have hcall : ∃ nav', navigatorNext h ⟨node, visited, some m, root', backtracked', false, start'⟩ =
      (some m, nav') ∧ nav'.visited = backtracked' ∧
        nav'.At root' t b (start' && decide (t ≠ some root')) := by
    unfold navigatorNext
    dsimp only
    rw [hupdate]
    dsimp only
    by_cases ht : t = some root'
    · obtain rfl : start' = true := hstart.resolve_right (absurd ht)
      rw [if_pos ht, if_pos rfl]
      exact ⟨_, rfl, rfl, rfl, rfl, rfl, by simp [ht], rfl⟩
    · rw [if_neg ht]
      exact ⟨_, rfl, rfl, rfl, rfl, rfl, by simp [ht], rfl⟩
  obtain ⟨nav', hnext, hvisited, hat⟩ := hcall
  refine ⟨nav', fun k => ?_, hat⟩
  rw [List.length_singleton, add_comm, navigate]
  simp [Navigator.isNavigable, hnext, hvisited]

end Calls

section Moves

variable {β : Type*} {tree : CompleteTree β} {nav : Navigator} {root m : ℕ}

/-- Where the navigator goes from a node that it is done with. -/
def leaves (h : Heap (Node β)) (m : ℕ) : Option ℕ × Bool :=
  match h.next m, h.parent m with
  | some s, _ => (some s, false)
  | none, some p => (some p, true)
  | none, none => (none, false)

def nodeTour (h : Heap (Node β)) (m : ℕ) (children : Trees ℕ) : List (Option ℕ × Bool) :=
  tour h (.node m children .nil)

lemma tour_node (h : Heap (Node β)) (m : ℕ) (children rest : Trees ℕ) :
    tour h (.node m children rest) = nodeTour h m children ++ tour h rest := by
  simp [nodeTour, tour, Trees.walk]

lemma CompleteTree.parent_done {c p : ℕ} (hc : ChildOf tree.heap c p) :
    (tree.heap.data p).done = true :=
  tree.complete p (tree.forest.parentLive c p hc) (tree.inner c p hc)

/-- The siblings have the same parent. -/
lemma CompleteTree.next_childOf {c p s : ℕ} (hc : ChildOf tree.heap c p)
    (hnext : tree.heap.next c = some s) : ChildOf tree.heap s p := by
  obtain ⟨xs, ys, hcs, -, hnext'⟩ := tree.forest.place hc
  have hmem : s ∈ ys := List.mem_of_mem_head? (hnext'.symm.trans hnext)
  exact (hcs.members s).mp (by simp [hmem])

lemma CompleteTree.firstChild_childOf {c : ℕ} (hm : tree.heap.live m = true)
    (hfirst : tree.heap.firstChild m = some c) : ChildOf tree.heap c m := by
  obtain ⟨cs, hcs⟩ := tree.forest.children m hm
  exact (hcs.members c).mp (List.mem_of_mem_head? (hcs.first.symm.trans hfirst))

/-- No node is below its own children. -/
lemma CompleteTree.not_below {c p : ℕ} (hc : ChildOf tree.heap c p) :
    ¬ Below tree.heap p c := by
  intro hbelow
  have hcycle : Relation.TransGen (ChildOf tree.heap) c c := Relation.TransGen.head' hc hbelow
  exact (WellFounded.transGen tree.forest.acyclic).irrefl.irrefl c hcycle

lemma CompleteTree.ne_root {c p : ℕ} (hc : ChildOf tree.heap c p) (hp : Below tree.heap p root) :
    c ≠ root := by
  rintro rfl
  exact tree.not_below hc hp

/-- The call that is done with a node. -/
lemma Navigator.At.leave {backtracked start : Bool}
    (hnav : nav.At root (some m) backtracked start) (hm : tree.heap.live m = true)
    (hdone : (tree.heap.data m).nodeType = .element → backtracked = true)
    (hstart : start = true ∨ (leaves tree.heap m).1 ≠ some root) :
    ∃ nav', Navigates tree.heap nav [(some m, backtracked)] nav' ∧
      nav'.At root (leaves tree.heap m).1 (leaves tree.heap m).2
        (start && decide ((leaves tree.heap m).1 ≠ some root)) := by
  refine hnav.call ?_ hstart
  have hno : ¬ ((tree.heap.data m).nodeType = .element ∧ backtracked = false) := by
    rintro ⟨helement, hfalse⟩
    rw [hdone helement] at hfalse
    cases hfalse
  unfold updateNextNode leaves
  dsimp only
  rw [if_neg hno]
  cases hnext : tree.heap.next m with
  | some s => rfl
  | none =>
    cases hp : tree.heap.parent m with
    | none => rfl
    | some p =>
      dsimp only
      rw [if_pos (tree.parent_done ⟨hm, hp⟩)]

/-- The first call for an element with children. -/
lemma Navigator.At.enter {start : Bool} {c : ℕ} (hnav : nav.At root (some m) false start)
    (helement : (tree.heap.data m).nodeType = .element)
    (hfirst : tree.heap.firstChild m = some c) (hc : c ≠ root) :
    ∃ nav', Navigates tree.heap nav [(some m, false)] nav' ∧
      nav'.At root (some c) false start := by
  have ht : some c ≠ some root := fun h => hc (Option.some.inj h)
  obtain ⟨nav', hcalls, hat⟩ := hnav.call (t := some c) (b := false)
    (by unfold updateNextNode; dsimp only; rw [if_pos ⟨helement, rfl⟩, hfirst]) (.inr ht)
  rw [decide_eq_true ht, Bool.and_true] at hat
  exact ⟨nav', hcalls, hat⟩

/-- The first call for an element without children. -/
lemma Navigator.At.turn {start : Bool} (hnav : nav.At root (some m) false start)
    (hm : tree.heap.live m = true) (helement : (tree.heap.data m).nodeType = .element)
    (hfirst : tree.heap.firstChild m = none) (hstart : start = true ∨ m ≠ root) :
    ∃ nav', Navigates tree.heap nav [(some m, false)] nav' ∧
      nav'.At root (some m) true (start && decide (m ≠ root)) := by
  obtain ⟨nav', hcalls, hat⟩ := hnav.call (t := some m) (b := true)
    (by
      unfold updateNextNode
      dsimp only
      rw [if_pos ⟨helement, rfl⟩, hfirst]
      dsimp only
      rw [if_pos (tree.complete m hm helement)])
    (hstart.imp_right fun hne h => hne (Option.some.inj h))
  simp only [ne_eq, Option.some.injEq] at hat
  exact ⟨nav', hcalls, hat⟩

def LeadsBack (tree : CompleteTree β) (root m : ℕ) (children : Trees ℕ) : Prop :=
  ∀ (c : ℕ) (start : Bool) (nav : Navigator), tree.heap.firstChild m = some c →
    (start = true ∨ m ≠ root) → nav.At root (some c) false start →
    ∃ nav', Navigates tree.heap nav (tour tree.heap children) nav' ∧
      nav'.At root (some m) true (start && decide (m ≠ root))

lemma chain_none {α : Type*} {h : Heap α} {children : Trees ℕ} (hchildren : Chain h none children) :
    children = .nil := by
  cases children with
  | nil => rfl
  | node => cases hchildren.1

lemma Navigator.At.element {start : Bool} {children : Trees ℕ}
    (hnav : nav.At root (some m) false start) (hm : tree.heap.live m = true)
    (helement : (tree.heap.data m).nodeType = .element)
    (hchildren : Chain tree.heap (tree.heap.firstChild m) children)
    (hbelow : Below tree.heap m root) (hstart : start = true ∨ m ≠ root)
    (hleave : (start && decide (m ≠ root)) = true ∨ (leaves tree.heap m).1 ≠ some root)
    (ih : LeadsBack tree root m children) :
    ∃ nav', Navigates tree.heap nav (nodeTour tree.heap m children) nav' ∧
      nav'.At root (leaves tree.heap m).1 (leaves tree.heap m).2
        (start && decide (m ≠ root) && decide ((leaves tree.heap m).1 ≠ some root)) := by
  have htour : nodeTour tree.heap m children =
      [(some m, false)] ++ tour tree.heap children ++ [(some m, true)] := by
    simp [nodeTour, tour, Trees.walk, helement]
  -- either way the navigator comes back to the element
  obtain ⟨nav1, hback, hat1⟩ : ∃ nav', Navigates tree.heap nav
      ([(some m, false)] ++ tour tree.heap children) nav' ∧
        nav'.At root (some m) true (start && decide (m ≠ root)) := by
    cases hfirst : tree.heap.firstChild m with
    | none =>
      obtain rfl := chain_none (hfirst ▸ hchildren)
      exact hnav.turn hm helement hfirst hstart
    | some c =>
      have hc : c ≠ root := tree.ne_root (tree.firstChild_childOf hm hfirst) hbelow
      obtain ⟨nav1, hcalls, hat⟩ := hnav.enter helement hfirst hc
      obtain ⟨nav2, hcalls', hat'⟩ := ih c start nav1 hfirst hstart hat
      exact ⟨nav2, hcalls.trans hcalls', hat'⟩
  obtain ⟨nav2, hlast, hat2⟩ := hat1.leave hm (fun _ => rfl) hleave
  rw [htour]
  exact ⟨nav2, hback.trans hlast, hat2⟩

/-- The trees of the siblings from one on are toured, up to their parent. -/
theorem navigate_chain (trees : Trees ℕ) {p : ℕ} {start : Bool}
    (hchain : Chain tree.heap (some m) trees) (hm : ChildOf tree.heap m p)
    (hp : Below tree.heap p root) (hstart : start = true ∨ p ≠ root)
    (hnav : nav.At root (some m) false start) :
    ∃ nav', Navigates tree.heap nav (tour tree.heap trees) nav' ∧
      nav'.At root (some p) true (start && decide (p ≠ root)) := by
  induction trees generalizing m p start nav with
  | nil => cases hchain
  | node n children rest ihc ihr =>
    obtain ⟨hn, hchildren, hrest⟩ := hchain
    obtain rfl : m = n := Option.some.inj hn
    have hne : m ≠ root := tree.ne_root hm hp
    have hbelow : Below tree.heap m root := hp.head hm
    have hleave : start = true ∨ (leaves tree.heap m).1 ≠ some root := by
      unfold leaves
      cases hnext : tree.heap.next m with
      | some s =>
        exact .inr fun h => tree.ne_root (tree.next_childOf hm hnext) hp (Option.some.inj h)
      | none =>
        rw [hm.2]
        exact hstart.imp_right fun hne h => hne (Option.some.inj h)
    -- the node with what is below it
    obtain ⟨nav1, hcalls, hat⟩ : ∃ nav', Navigates tree.heap nav (nodeTour tree.heap m children)
        nav' ∧ nav'.At root (leaves tree.heap m).1 (leaves tree.heap m).2
          (start && decide ((leaves tree.heap m).1 ≠ some root)) := by
      by_cases helement : (tree.heap.data m).nodeType = .element
      · have ih : LeadsBack tree root m children := fun c start nav hfirst hstart hnav =>
          ihc (hfirst ▸ hchildren) (tree.firstChild_childOf hm.1 hfirst) hbelow hstart hnav
        have hresult := hnav.element hm.1 helement hchildren hbelow (.inr hne)
          (by rwa [decide_eq_true hne, Bool.and_true]) ih
        rwa [decide_eq_true hne, Bool.and_true] at hresult
      · have hnone : tree.heap.firstChild m = none := by
          cases hfirst : tree.heap.firstChild m with
          | none => rfl
          | some c => exact absurd (tree.inner c m (tree.firstChild_childOf hm.1 hfirst)) helement
        obtain rfl := chain_none (hnone ▸ hchildren)
        have htour : nodeTour tree.heap m .nil = [(some m, false)] := by
          simp [nodeTour, tour, Trees.walk, helement]
        rw [htour]
        exact hnav.leave hm.1 (fun h => absurd h helement) hleave
    -- then its siblings or its parent
    rw [tour_node]
    unfold leaves at hat
    cases hnext : tree.heap.next m with
    | none =>
      obtain rfl := chain_none (hnext ▸ hrest)
      simp only [hnext, hm.2, ne_eq, Option.some.injEq] at hat
      refine ⟨nav1, ?_, hat⟩
      rwa [show tour tree.heap .nil = [] from rfl, List.append_nil]
    | some s =>
      have hs := tree.next_childOf hm hnext
      have hsne : some s ≠ some root := fun h => tree.ne_root hs hp (Option.some.inj h)
      simp only [hnext, decide_eq_true hsne, Bool.and_true] at hat
      obtain ⟨nav2, hcalls', hat'⟩ := ihr (hnext ▸ hrest) hs hp hstart hat
      exact ⟨nav2, hcalls.trans hcalls', hat'⟩

/-- The calls on a new navigator: the tour of its element, and then the way out of its subtree. -/
lemma navigate_root {n : ℕ} {children : Trees ℕ} (hn : tree.heap.live n = true)
    (helement : (tree.heap.data n).nodeType = .element)
    (hchildren : Chain tree.heap (tree.heap.firstChild n) children) :
    ∃ nav, Navigates tree.heap (navigatorCreate n) (nodeTour tree.heap n children) nav ∧
      nav.At n (leaves tree.heap n).1 (leaves tree.heap n).2 false := by
  have hnew : (navigatorCreate n).At n (some n) false true := ⟨rfl, rfl, rfl, rfl, rfl⟩
  have hleave : (leaves tree.heap n).1 ≠ some n := by
    have hout (p : ℕ) (hp : ChildOf tree.heap n p) : (leaves tree.heap n).1 ≠ some n := by
      unfold leaves
      cases hnext : tree.heap.next n with
      | some s =>
        intro h
        obtain rfl : s = n := Option.some.inj h
        obtain ⟨xs, ys, hcs, -, hnext'⟩ := tree.forest.place hp
        have hmem : s ∈ ys := List.mem_of_mem_head? (hnext'.symm.trans hnext)
        have hnodup := hcs.nodup
        grind
      | none =>
        rw [hp.2]
        intro h
        obtain rfl : p = n := Option.some.inj h
        exact tree.not_below hp .refl
    cases hp : tree.heap.parent n with
    | none =>
      unfold leaves
      rw [(tree.forest.single n hn hp).2, hp]
      exact fun h => by cases h
    | some p => exact hout p ⟨hn, hp⟩
  have ih : LeadsBack tree n n children := fun c start nav hfirst hstart hnav =>
    navigate_chain children (hfirst ▸ hchildren) (tree.firstChild_childOf hn hfirst) .refl hstart hnav
  obtain ⟨nav, hcalls, hat⟩ := hnew.element hn helement hchildren .refl (.inl rfl) (.inr hleave) ih
  simp only [ne_eq, not_true_eq_false, decide_false, Bool.and_false, Bool.false_and] at hat
  exact ⟨nav, hcalls, hat⟩

/-- A loop that ends with the tour returned ends with the state behind it. -/
lemma Navigates.not_tours {h : Heap (Node β)} {n : ℕ} {l : List (Option ℕ × Bool)}
    (hcalls : Navigates h (navigatorCreate n) l nav) (hnot : nav.isCompleted = false) :
    ¬ Tours h n l := by
  rintro ⟨fuel, hl, -, hcompleted⟩
  rw [hcalls.final hl, hnot] at hcompleted
  cases hcompleted

/-- The tour of an element's subtree is returned, but the navigator never says that it is
completed, and unless the element has no parent it goes on outside the subtree. -/
theorem navigator_never_completed (tree : CompleteTree β) {n : ℕ} (hn : tree.heap.live n = true)
    (helement : (tree.heap.data n).nodeType = .element) :
    ∃ children, Chain tree.heap (tree.heap.firstChild n) children ∧
      ¬ Tours tree.heap n (nodeTour tree.heap n children) ∧
      ∃ nav, Navigates tree.heap (navigatorCreate n) (nodeTour tree.heap n children) nav ∧
        nav.isCompleted = false ∧ (nav.isNavigable = false ↔ tree.heap.parent n = none) := by
  obtain ⟨children, hchildren⟩ := tree.forest.chain n hn
  obtain ⟨nav, hcalls, hat⟩ := navigate_root hn helement hchildren
  have hcompleted : nav.isCompleted = false := hat.isEnd
  refine ⟨children, hchildren, hcalls.not_tours hcompleted, nav, hcalls, hcompleted, ?_⟩
  rw [Navigator.isNavigable, hat.isEnd, if_neg Bool.false_ne_true, hat.next,
    Option.isSome_eq_false_iff, Option.isNone_iff_eq_none]
  unfold leaves
  constructor
  · intro h
    cases hnext : tree.heap.next n with
    | some s =>
      rw [hnext] at h
      cases h
    | none =>
      cases hp : tree.heap.parent n with
      | none => rfl
      | some p =>
        rw [hnext, hp] at h
        cases h
  · intro hp
    rw [(tree.forest.single n hn hp).2, hp]

/-- An element with two elements in it. -/
def pairTree : CompleteTree Unit where
  heap := twoChildren elementNode
  forest := twoChildren_forest elementNode
  inner _ _ _ := rfl
  complete _ _ _ := rfl

/-- The element with the two. -/
theorem navigator_never_completed_parent :
    ∃ children, Chain pairTree.heap (pairTree.heap.firstChild 0) children ∧
      ¬ Tours pairTree.heap 0 (nodeTour pairTree.heap 0 children) ∧
      ∃ nav, Navigates pairTree.heap (navigatorCreate 0) (nodeTour pairTree.heap 0 children)
          nav ∧
        nav.isCompleted = false ∧
          (nav.isNavigable = false ↔ pairTree.heap.parent 0 = none) :=
  navigator_never_completed pairTree rfl rfl

/-- From the first of the two the loop goes on with the second and their parent, and ends without
being completed, as it does from the parent. -/
theorem navigator_leaves_subtree :
    (navigate pairTree.heap 6 (navigatorCreate 1)).1 =
        [(some 1, false), (some 1, true), (some 2, false), (some 2, true), (some 0, true)] ∧
      ¬ Tours pairTree.heap 1 (nodeTour pairTree.heap 1 .nil) ∧
      ¬ Tours pairTree.heap 0
        (nodeTour pairTree.heap 0 (.node 1 .nil (.node 2 .nil .nil))) := by
  refine ⟨rfl, ?_, ?_⟩
  · obtain ⟨nav, hcalls, hat⟩ := @navigate_root Unit pairTree 1 .nil rfl rfl rfl
    exact hcalls.not_tours hat.isEnd
  · obtain ⟨nav, hcalls, hat⟩ := @navigate_root Unit pairTree 0
      (.node 1 .nil (.node 2 .nil .nil)) rfl rfl ⟨rfl, rfl, rfl, rfl, rfl⟩
    exact hcalls.not_tours hat.isEnd

end Moves

end Axis2C.Om
