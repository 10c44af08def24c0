import Axis2C.LinkedTrees
import Axis2C.XPathNodeSets

/-!
# The axes

The axes are those of a tree whose links belong together. An iterator goes through its axis, and
through every node of it once, but for the siblings behind the context node on the following axis,
and as long as the context is as it was whenever it is looked at again.
-/
namespace Axis2C.XPath
open LinkedTrees

section Trees

/-- A document whose links belong together. -/
structure BuiltTree extends Document where
  next_prev : ∀ {n m}, next n = some m ↔ prev m = some n
  next_parent : ∀ {n m}, next n = some m → parent m = parent n
  firstChild_iff : ∀ {p m}, firstChild p = some m ↔ parent m = some p ∧ prev m = none
  lastChild_iff : ∀ {p m}, lastChild p = some m ↔ parent m = some p ∧ next m = none
  attributes_nodup : ∀ n, (attributes n).Nodup
  namespaces_nodup : ∀ n, (namespaces n).Nodup

variable (tree : BuiltTree)

lemma BuiltTree.forward :
    Sided tree.parent tree.next tree.firstChild tree.depth tree.behind where
  parent_depth := tree.parent_depth
  along_parent := tree.next_parent
  down_parent h := (tree.firstChild_iff.mp h).1
  along_rank := tree.next_behind
  down_rank := tree.firstChild_behind
  reached {p m} h := by
    induction hb : tree.before m using Nat.strong_induction_on generalizing m with
    | h b ih =>
      cases hprev : tree.prev m with
      | none => exact ⟨m, tree.firstChild_iff.mpr ⟨h, hprev⟩, .refl⟩
      | some k =>
        have hnext := tree.next_prev.mpr hprev
        have hlt : tree.before k < b := hb ▸ tree.prev_before hprev
        obtain ⟨c, hc, hreach⟩ := ih _ hlt ((tree.next_parent hnext).symm.trans h) rfl
        exact ⟨c, hc, hreach.tail hnext⟩

lemma BuiltTree.backward :
    Sided tree.parent tree.prev tree.lastChild tree.depth tree.before where
  parent_depth := tree.parent_depth
  along_parent h := (tree.next_parent (tree.next_prev.mpr h)).symm
  down_parent h := (tree.lastChild_iff.mp h).1
  along_rank := tree.prev_before
  down_rank := tree.lastChild_before
  reached {p m} h := by
    induction hb : tree.behind m using Nat.strong_induction_on generalizing m with
    | h b ih =>
      cases hnext : tree.next m with
      | none => exact ⟨m, tree.lastChild_iff.mpr ⟨h, hnext⟩, .refl⟩
      | some k =>
        have hlt : tree.behind k < b := hb ▸ tree.next_behind hnext
        obtain ⟨c, hc, hreach⟩ := ih _ hlt ((tree.next_parent hnext).trans h) rfl
        exact ⟨c, hc, hreach.tail (tree.next_prev.mp hnext)⟩

/-- What a node test is about. -/
inductive Item where
  | node (n : ℕ)
  | attr (a : ℕ)
  | ns (n : ℕ)
  deriving DecidableEq, Repr

/-- What `axiom_xpath_node_test_match` looks at. -/
def Context.item (context : Context) : Option Item :=
  match context.node, context.attr, context.ns with
  | some n, _, _ => some (.node n)
  | none, some a, _ => some (.attr a)
  | none, none, some n => some (.ns n)
  | none, none, none => none

/-- Document order: a node comes in front of its descendants, and one sibling with its
descendants in front of the next ones. -/
def Document.Precedes (doc : Document) (n m : ℕ) : Prop :=
  Beyond doc.parent m n ∨
    ∃ x y, Reach doc.parent n x ∧ Reach doc.parent m y ∧ Beyond doc.next x y

/-- The axes. -/
def Document.OnAxis (doc : Document) : Axis → ℕ → Item → Prop
  | .child, n, .node m => doc.parent m = some n
  | .descendant, n, .node m => Beyond doc.parent m n
  | .parent, n, .node m => doc.parent n = some m
  | .ancestor, n, .node m => Beyond doc.parent n m
  | .followingSibling, n, .node m => Beyond doc.next n m
  | .precedingSibling, n, .node m => Beyond doc.next m n
  | .following, n, .node m => doc.Precedes n m ∧ ¬ Beyond doc.parent m n
  | .preceding, n, .node m => doc.Precedes m n ∧ ¬ Beyond doc.parent n m
  | .attr, n, .attr a => doc.nodeType n = .element ∧ a ∈ doc.attributes n
  | .ns, n, .ns m => doc.nodeType n = .element ∧ m ∈ doc.namespaces n
  | .self, n, .node m => m = n
  | .descendantOrSelf, n, .node m => Reach doc.parent m n
  | .ancestorOrSelf, n, .node m => Reach doc.parent n m
  | _, _, _ => False

end Trees

section Lists

variable {n : Option ℕ}

/-- The list has what `P` says, each once. -/
structure Lists {α : Type*} (l : List α) (P : α → Prop) : Prop where
  nodup : l.Nodup
  mem_iff : ∀ m, m ∈ l ↔ P m

variable {parent along down : ℕ → Option ℕ} {depth rank : ℕ → ℕ} {l : List ℕ} {P Q : ℕ → Prop}

lemma Lists.congr (h : Lists l P) (hPQ : ∀ m, P m ↔ Q m) : Lists l Q :=
  ⟨h.nodup, fun m => (h.mem_iff m).trans (hPQ m)⟩

lemma Lists.cons {n : ℕ} (h : Lists l P) (hn : ¬ P n) : Lists (n :: l) fun m => m = n ∨ P m := by
  refine ⟨List.nodup_cons.mpr ⟨fun hmem => hn ((h.mem_iff n).mp hmem), h.nodup⟩, fun m => ?_⟩
  rw [List.mem_cons, h.mem_iff]

section

variable (halong : ∀ {n m}, along n = some m → rank m < rank n) {fuel : ℕ}
  (hf : ∀ m ∈ n, rank m < fuel)

include halong hf

/-- A loop along one link. -/
lemma walk_pairwise :
    (walk nodeOnly (fun _ => none) along fuel n).Pairwise (Beyond along) ∧
      ∀ m, m ∈ walk nodeOnly (fun _ => none) along fuel n ↔ ∃ k ∈ n, Reach along k m := by
  induction fuel generalizing n with
  | zero =>
    cases n with
    | none => simp [walk]
    | some n => exact absurd (hf n rfl) (Nat.not_lt_zero _)
  | succ fuel ih =>
    cases n with
    | none => simp [walk]
    | some n =>
      have hn := hf n rfl
      obtain ⟨hpairs, hmem⟩ :=
        ih (n := along n) fun m hm => (halong hm).trans_le (Nat.lt_succ_iff.mp hn)
      have hbeyond (m : ℕ) : (m ∈ walk nodeOnly (fun _ => none) along fuel (along n)) ↔
          Beyond along n m := by
        rw [hmem, beyond_iff_head]
        rfl
      rw [walk, nodeOnly]
      refine ⟨List.pairwise_cons.mpr ⟨fun m hm => (hbeyond m).mp hm, hpairs⟩, fun m => ?_⟩
      rw [List.mem_cons, hbeyond, ← reach_iff]
      simp

lemma walk_lists :
    Lists (walk nodeOnly (fun _ => none) along fuel n) fun m => ∃ k ∈ n, Reach along k m := by
  obtain ⟨hpairs, hmem⟩ := walk_pairwise halong hf
  refine ⟨hpairs.imp fun {a b} hbeyond => ?_, hmem⟩
  rintro rfl
  exact lt_irrefl _ (hbeyond.rank_lt halong)

end

/-- A loop along both links, whichever node comes first. -/
lemma walk_below (h : Sided parent along down depth rank) {join : ℕ → List ℕ → List ℕ → List ℕ}
    (hjoin : ∀ n below behind, (join n below behind).Perm (n :: (below ++ behind))) {fuel : ℕ}
    (hf : ∀ m ∈ n, rank m < fuel) :
    Lists (walk join down along fuel n) fun m =>
      ∃ k ∈ n, ∃ s, Reach along k s ∧ Reach parent m s := by
  induction fuel generalizing n with
  | zero =>
    cases n with
    | none => exact ⟨by simp [walk], by simp [walk]⟩
    | some n => exact absurd (hf n rfl) (Nat.not_lt_zero _)
  | succ fuel ih =>
    cases n with
    | none => exact ⟨by simp [walk], by simp [walk]⟩
    | some n =>
      have hn := Nat.lt_succ_iff.mp (hf n rfl)
      have hbelow := (ih (n := down n) fun m hm => (h.down_rank hm).trans_le hn).congr
        (Q := fun m => Beyond parent m n) fun m => h.beyond_iff.symm
      have hbehind := (ih (n := along n) fun m hm => (h.along_rank hm).trans_le hn).congr
        (Q := fun m => ∃ s, Beyond along n s ∧ Reach parent m s) fun m =>
          exists_beyond_iff.symm
      -- the siblings behind a node are not below it, and neither is anything below them
      have happart (m s : ℕ) (hm : Reach parent m n) (hs : Beyond along n s)
          (hms : Reach parent m s) : False :=
        h.apart (h.reach_parent hs.reach).symm (h.ne_of_beyond hs) hm hms
      have hperm := hjoin n (walk join down along fuel (down n))
        (walk join down along fuel (along n))
      rw [walk]
      refine ⟨hperm.nodup_iff.mpr (List.nodup_cons.mpr ⟨?_, ?_⟩), fun m => ?_⟩
      · rw [List.mem_append, hbelow.mem_iff, hbehind.mem_iff]
        rintro (hself | ⟨s, hs, hns⟩)
        · exact h.not_beyond_self hself
        · exact happart n s .refl hs hns
      · refine List.nodup_append'.mpr ⟨hbelow.nodup, hbehind.nodup, fun m hm hm' => ?_⟩
        obtain ⟨s, hs, hms⟩ := (hbehind.mem_iff m).mp hm'
        exact happart m s ((hbelow.mem_iff m).mp hm).reach hs hms
      · rw [hperm.mem_iff, List.mem_cons, List.mem_append, hbelow.mem_iff, hbehind.mem_iff]
        simp [Option.mem_some_iff, reach_iff (n := n), or_and_right, exists_or, reach_iff (n := m),
          eq_comm (a := n) (b := m), or_assoc]

/-- The loop over the nodes above one, with what is beside each of these. -/
lemma walk_above (h : Sided parent along down depth rank) {beside : ℕ → List ℕ}
    (hbeside : ∀ p, Lists (beside p) fun m => ∃ s, Beyond along p s ∧ Reach parent m s)
    {l : List ℕ} (hl : l.Pairwise (Beyond parent)) :
    Lists (l.flatMap beside) fun m => ∃ p ∈ l, ∃ s, Beyond along p s ∧ Reach parent m s := by
  refine ⟨List.nodup_flatMap.mpr ⟨fun p _ => (hbeside p).nodup, hl.imp fun {p p'} hp => ?_⟩,
    fun m => by simp only [List.mem_flatMap, (hbeside _).mem_iff]⟩
  -- what is beside the lower node is below the upper one
  intro m hm hm'
  obtain ⟨s, hs, hms⟩ := ((hbeside p).mem_iff m).mp hm
  obtain ⟨s', hs', hms'⟩ := ((hbeside p').mem_iff m).mp hm'
  obtain ⟨k, hk, hkp'⟩ := beyond_iff_head.mp hp
  have hsp' : Reach parent s p' := Relation.ReflTransGen.head ((h.reach_parent hs.reach).trans hk) hkp'
  exact h.apart (h.reach_parent hs'.reach).symm (h.ne_of_beyond hs') (hms.trans hsp') hms'

end Lists

section Nodes

variable (tree : BuiltTree)

lemma childrenFirst_perm (n : ℕ) (below behind : List ℕ) :
    (childrenFirst n below behind).Perm (n :: (below ++ behind)) := List.perm_middle

lemma nodeFirst_perm (n : ℕ) (below behind : List ℕ) :
    (nodeFirst n below behind).Perm (n :: (below ++ behind)) := .refl _

lemma nextSiblings_lists (n : Option ℕ) :
    Lists (tree.nextSiblings n) fun m => ∃ k ∈ n, Reach tree.next k m :=
  walk_lists tree.next_behind (by rintro m rfl; simp)

lemma previousSiblings_lists (n : Option ℕ) :
    Lists (tree.previousSiblings n) fun m => ∃ k ∈ n, Reach tree.prev k m :=
  walk_lists tree.prev_before (by rintro m rfl; simp)

lemma parents_lists (n : Option ℕ) :
    Lists (tree.parents n) fun m => ∃ k ∈ n, Reach tree.parent k m :=
  walk_lists tree.parent_depth (by rintro m rfl; simp)

lemma parents_pairwise (n : Option ℕ) : (tree.parents n).Pairwise (Beyond tree.parent) :=
  (walk_pairwise tree.parent_depth (by rintro m rfl; simp)).1

lemma descendants_lists (n : ℕ) :
    Lists (tree.descendants (tree.firstChild n)) fun m => Beyond tree.parent m n := by
  refine (walk_below tree.forward childrenFirst_perm ?_).congr fun m => tree.forward.beyond_iff.symm
  intro m hm
  rw [hm]
  exact Nat.lt_succ_self _

lemma forwards_lists (n : ℕ) : Lists (tree.forwards (tree.next n)) fun m =>
    ∃ s, Beyond tree.next n s ∧ Reach tree.parent m s := by
  refine (walk_below tree.forward nodeFirst_perm ?_).congr fun m => exists_beyond_iff.symm
  intro m hm
  rw [hm]
  exact Nat.lt_succ_self _

lemma backwards_lists (n : ℕ) : Lists (tree.backwards (tree.prev n)) fun m =>
    ∃ s, Beyond tree.prev n s ∧ Reach tree.parent m s := by
  refine (walk_below tree.backward nodeFirst_perm ?_).congr fun m => exists_beyond_iff.symm
  intro m hm
  rw [hm]
  exact Nat.lt_succ_self _

/-- A node behind another one in the order of siblings is not below it. -/
lemma precedes_and_not_below (n m : ℕ) :
    (tree.Precedes n m ∧ ¬ Beyond tree.parent m n) ↔
      ∃ x y, Reach tree.parent n x ∧ Reach tree.parent m y ∧ Beyond tree.next x y := by
  constructor
  · rintro ⟨hbelow | h, hnot⟩
    · exact absurd hbelow hnot
    · exact h
  · rintro ⟨x, y, hx, hy, hxy⟩
    refine ⟨.inr ⟨x, y, hx, hy, hxy⟩, fun hbelow => ?_⟩
    have hparent := tree.forward.reach_parent hxy.reach
    exact tree.forward.apart hparent.symm (tree.forward.ne_of_beyond hxy)
      (hbelow.reach.trans hx) hy

lemma precedes_and_not_above (n m : ℕ) :
    (tree.Precedes m n ∧ ¬ Beyond tree.parent n m) ↔
      ∃ y x, Reach tree.parent n y ∧ Reach tree.parent m x ∧ Beyond tree.prev y x := by
  rw [precedes_and_not_below]
  constructor
  · rintro ⟨x, y, hx, hy, hxy⟩
    exact ⟨y, x, hy, hx, (beyond_swap tree.next_prev).mp hxy⟩
  · rintro ⟨y, x, hy, hx, hyx⟩
    exact ⟨x, y, hx, hy, (beyond_swap tree.next_prev).mpr hyx⟩

/-- What is behind the nodes above a node, and that node itself. -/
lemma following_lists (n : ℕ) :
    Lists ((tree.parents (some n)).flatMap fun p => tree.forwards (tree.next p))
      fun m => tree.Precedes n m ∧ ¬ Beyond tree.parent m n := by
  refine (walk_above tree.forward (forwards_lists tree) (parents_pairwise tree _)).congr fun m => ?_
  rw [precedes_and_not_below]
  simp only [(parents_lists tree _).mem_iff, Option.mem_some_iff, exists_eq_left']
  constructor
  · rintro ⟨x, hx, y, hxy, hy⟩
    exact ⟨x, y, hx, hy, hxy⟩
  · rintro ⟨x, y, hx, hy, hxy⟩
    exact ⟨x, hx, y, hxy, hy⟩

/-- Without a sibling behind the context node its place on the stack twice does no harm. -/
lemma followingNodes_lists {n : ℕ} (hn : tree.next n = none) :
    Lists (tree.followingNodes n) fun m => tree.Precedes n m ∧ ¬ Beyond tree.parent m n := by
  have hfirst : tree.forwards (tree.next n) = [] := by rw [hn]; rfl
  rw [Document.followingNodes, hfirst, List.nil_append]
  exact following_lists tree n

lemma followingNodes_twice {n m : ℕ} (hn : tree.next n = some m) :
    ¬ (tree.followingNodes n).Nodup := by
  have hm : m ∈ tree.forwards (tree.next n) :=
    ((forwards_lists tree n).mem_iff m).mpr ⟨m, .single hn, .refl⟩
  have hself : n ∈ tree.parents (some n) := ((parents_lists tree _).mem_iff n).mpr ⟨n, rfl, .refl⟩
  rw [Document.followingNodes, List.nodup_append']
  rintro ⟨-, -, hdisjoint⟩
  exact hdisjoint hm (List.mem_flatMap.mpr ⟨n, hself, hm⟩)

/-- What is before the nodes above a node, and that node itself, in either order. -/
lemma preceding_lists {beside : ℕ → List ℕ}
    (hbeside : ∀ p, Lists (beside p) fun m => ∃ s, Beyond tree.prev p s ∧ Reach tree.parent m s)
    (n : ℕ) : Lists ((tree.parents (some n)).flatMap beside)
      fun m => tree.Precedes m n ∧ ¬ Beyond tree.parent n m := by
  refine (walk_above tree.backward hbeside (parents_pairwise tree _)).congr fun m => ?_
  rw [precedes_and_not_above]
  simp only [(parents_lists tree _).mem_iff, Option.mem_some_iff, exists_eq_left']
  constructor
  · rintro ⟨y, hy, x, hyx, hx⟩
    exact ⟨y, x, hy, hx, hyx⟩
  · rintro ⟨y, x, hy, hx, hyx⟩
    exact ⟨y, hy, x, hyx, hx⟩

lemma toList_lists (n : Option ℕ) : Lists n.toList fun m => n = some m := by
  cases n with
  | none => exact ⟨List.nodup_nil, by simp⟩
  | some n => exact ⟨List.nodup_singleton n, by simp [eq_comm]⟩

/-- The descendants that are found from another node than the context node are other ones. -/
lemma descendantsOrSelf_iff (n : ℕ) (k : Option ℕ) :
    Lists (n :: tree.descendants (k.bind tree.firstChild)) (fun m => Reach tree.parent m n) ↔
      k.bind tree.firstChild = tree.firstChild n := by
  constructor
  · rintro ⟨hnodup, hmem⟩
    have hself := (List.nodup_cons.mp hnodup).1
    have hchild {c : ℕ} (hc : tree.parent c = some n) :
        c ∈ tree.descendants (k.bind tree.firstChild) := by
      obtain rfl | hc' := List.mem_cons.mp ((hmem c).mpr (.single hc))
      · exact absurd (.single hc) tree.forward.not_beyond_self
      · exact hc'
    cases k with
    | none =>
      cases hfirst : tree.firstChild n with
      | none => rfl
      | some c => exact absurd (hchild (tree.firstChild_iff.mp hfirst).1) List.not_mem_nil
    | some k =>
      by_cases hkn : k = n
      · rw [hkn]
        rfl
      have hbelow := (descendants_lists tree k).mem_iff
      cases hfirst : tree.firstChild n with
      | some c =>
        -- a child of the context node below the other node, which is above then
        have hc := (tree.firstChild_iff.mp hfirst).1
        obtain ⟨p, hp, hreach⟩ := beyond_iff_head.mp ((hbelow c).mp (hchild hc))
        obtain rfl := Option.some.inj (hc.symm.trans hp)
        obtain heq | hbeyond := reach_iff.mp hreach
        · exact absurd heq hkn
        · exact absurd ((hbelow n).mpr hbeyond) hself
      | none =>
        cases hfirst' : tree.firstChild k with
        | none => exact hfirst'
        | some c =>
          have hc := (tree.firstChild_iff.mp hfirst').1
          have hmem' := (hbelow c).mpr (.single hc)
          have hreach := (hmem c).mp (List.mem_cons_of_mem n hmem')
          obtain rfl | hbeyond := reach_iff.mp hreach
          · exact absurd hmem' hself
          · obtain ⟨d, hd, -⟩ := tree.forward.beyond_iff.mp hbeyond
            rw [hfirst] at hd
            cases hd
  · intro h
    rw [h]
    refine ((descendants_lists tree n).cons tree.forward.not_beyond_self).congr fun m => ?_
    rw [reach_iff, eq_comm]

/-- The nodes above another node than the context node are other ones. -/
lemma parentsOrSelf_iff (n : ℕ) (k : Option ℕ) :
    Lists (n :: tree.parents (k.bind tree.parent)) (fun m => Reach tree.parent n m) ↔
      k.bind tree.parent = tree.parent n := by
  constructor
  · rintro ⟨hnodup, hmem⟩
    have hself := (List.nodup_cons.mp hnodup).1
    have habove := (parents_lists tree (k.bind tree.parent)).mem_iff
    have hparent {q : ℕ} (hq : tree.parent n = some q) :
        ∃ p ∈ k.bind tree.parent, Reach tree.parent p q := by
      obtain rfl | hq' := List.mem_cons.mp ((hmem q).mpr (.single hq))
      · exact absurd (.single hq) tree.forward.not_beyond_self
      · exact (habove q).mp hq'
    cases hk : k.bind tree.parent with
    | none =>
      cases hn : tree.parent n with
      | none => rfl
      | some q =>
        obtain ⟨p, hp, -⟩ := hparent hn
        rw [hk] at hp
        cases hp
    | some p =>
      have hp := (habove p).mpr ⟨p, hk, .refl⟩
      obtain rfl | hbeyond := reach_iff.mp ((hmem p).mp (List.mem_cons_of_mem n hp))
      · exact absurd hp hself
      · obtain ⟨q, hq, hqp⟩ := beyond_iff_head.mp hbeyond
        obtain ⟨p', hp', hpq⟩ := hparent hq
        obtain rfl := Option.some.inj (hk.symm.trans hp')
        rw [hq, hqp.antisymm tree.parent_depth hpq]
  · intro h
    rw [h]
    have hlist := (parents_lists tree (tree.parent n)).congr (Q := fun m => Beyond tree.parent n m)
      fun m => beyond_iff_head.symm
    refine (hlist.cons tree.forward.not_beyond_self).congr fun m => ?_
    rw [reach_iff]

end Nodes

section Iterators

variable {D : Type*} (doc : Document) (env : Env D)

/-- How many nodes the continuation finds, from the visits that pass the test. -/
def found (test : NodeTest) (f : Evaluation D) (states : List (State D)) : ℕ :=
  ((states.filter fun st => nodeTestMatch doc env test st.context).map fun st => (f st).1).sum

variable {doc env} {test : NodeTest} {f : Evaluation D}

lemma found_cons (st : State D) (states : List (State D)) :
    found doc env test f (st :: states) =
      (if nodeTestMatch doc env test st.context then f st else (0, st)).1 +
        found doc env test f states := by
  unfold found
  cases h : nodeTestMatch doc env test st.context with
  | true | false => simp [h]

lemma visitEach_fst {α : Type*} (enter : α → State D → State D) (l : List α) (st : State D) :
    (visitEach doc env enter test f l st).1 =
      found doc env test f (visitStates doc env enter test f l st) := by
  induction l generalizing st with
  | nil => rfl
  | cons a l ih =>
    rw [visitEach, visitStates, found_cons, ih]
    split <;> rfl

lemma iterator_none (axis : Axis) {st : State D} (hn : st.context.node = none) :
    iterator doc env axis test f st = (0, st) ∧ visits doc env axis test f st = [] := by
  unfold iterator visits
  dsimp only
  rw [hn]
  exact ⟨rfl, rfl⟩

/-- What an iterator finds is what is found in its visits, and it gives the context node back. -/
lemma iterator_spec (axis : Axis) {st : State D} {n : ℕ} (hn : st.context.node = some n) :
    (iterator doc env axis test f st).1 =
        found doc env test f (visits doc env axis test f st) ∧
      (iterator doc env axis test f st).2.context.node = some n := by
  cases iteration doc env axis test n with
  | nodes l h =>
    obtain ⟨hiter, hvisits⟩ := h f st hn
    rw [hiter, hvisits, visitNodes, visitEach_fst]
    exact ⟨rfl, rfl⟩
  | selfAnd next h =>
    obtain ⟨hiter, hvisits⟩ := h f st hn
    rw [hiter, hvisits, visitSelfAnd, found_cons, visitNodes, visitEach_fst]
    refine ⟨?_, rfl⟩
    split <;> rfl
  | attrs haxis l h | nss haxis l h =>
    obtain ⟨hiter, hvisits⟩ := h f st hn
    rw [hiter, hvisits, visitEach_fst]
    exact ⟨rfl, rfl⟩
  | nothing h =>
    obtain ⟨hiter, hvisits⟩ := h f st hn
    rw [hiter, hvisits]
    exact ⟨rfl, hn⟩

end Iterators

section Exactness

variable {D : Type*} (tree : BuiltTree) (env : Env D) (axis : Axis) (test : NodeTest)
  (f : Evaluation D) (n : ℕ) (st : State D)

/-- The node test is applied to everything on the axis once and to nothing else, the continuation
where the test passes, and the context node is given back. -/
structure Exact : Prop where
  items : Lists ((visits tree.toDocument env axis test f st).map fun st => st.context.item)
    fun x => ∃ i ∈ x, tree.OnAxis axis n i
  found : (iterator tree.toDocument env axis test f st).1 =
    found tree.toDocument env test f (visits tree.toDocument env axis test f st)
  node : (iterator tree.toDocument env axis test f st).2.context.node = some n

/-- No sibling behind the context node on the following axis; and where the context is looked at
again behind a continuation, it is as it was, or at least leads to the same nodes. -/
def Undisturbed : Prop :=
  match axis with
  | .following => tree.next n = none
  | .descendantOrSelf => nodeTestMatch tree.toDocument env test st.context →
      (f st).2.context.node.bind tree.firstChild = tree.firstChild n
  | .ancestorOrSelf => nodeTestMatch tree.toDocument env test st.context →
      (f st).2.context.node.bind tree.parent = tree.parent n
  | .attr => ∀ st' ∈ (visits tree.toDocument env axis test f st).dropLast,
      nodeTestMatch tree.toDocument env test st'.context → (f st').2.context.node = none
  | .ns => (tree.nodeType n = .element → tree.namespaces n ≠ [] → st.context.attr = none) ∧
      ∀ st' ∈ (visits tree.toDocument env axis test f st).dropLast,
        nodeTestMatch tree.toDocument env test st'.context →
          (f st').2.context.node = none ∧ (f st').2.context.attr = none
  | _ => True

variable {tree env axis test f n st}

lemma lists_nodes_iff {l : List ℕ} (hattr : axis ≠ .attr) (hns : axis ≠ .ns) :
    Lists (l.map fun m => some (Item.node m)) (fun x => ∃ i ∈ x, tree.OnAxis axis n i) ↔
      Lists l fun m => tree.OnAxis axis n (.node m) := by
  have hinj : Function.Injective fun m => some (Item.node m) :=
    fun a b hab => Item.node.inj (Option.some.inj hab)
  have hnode : ∀ i, tree.OnAxis axis n i → ∃ m, i = .node m := by
    intro i hi
    cases i with
    | node m => exact ⟨m, rfl⟩
    | attr a => cases axis <;> first | exact hi.elim | exact absurd rfl hattr
    | ns m => cases axis <;> first | exact hi.elim | exact absurd rfl hns
  constructor
  · rintro ⟨hnodup, hmem⟩
    refine ⟨(List.nodup_map_iff hinj).mp hnodup, fun m => ?_⟩
    have hm := hmem (some (.node m))
    simpa using hm
  · rintro ⟨hnodup, hmem⟩
    refine ⟨(List.nodup_map_iff hinj).mpr hnodup, fun x => ?_⟩
    constructor
    · intro hx
      obtain ⟨m, hm, rfl⟩ := List.mem_map.mp hx
      exact ⟨.node m, rfl, (hmem m).mp hm⟩
    · rintro ⟨i, rfl, hi⟩
      obtain ⟨m, rfl⟩ := hnode i hi
      exact List.mem_map.mpr ⟨m, (hmem m).mpr hi, rfl⟩

/-- A loop over nodes sets the context node in each round. -/
lemma map_item_nodes (l : List ℕ) (st : State D) :
    (visitStates tree.toDocument env (fun n st => st.setNode (some n)) test f l st).map
      (fun st => st.context.item) = l.map fun m => some (Item.node m) := by
  induction l generalizing st with
  | nil => rfl
  | cons m l ih =>
    rw [visitStates, List.map_cons, ih]
    rfl

/-- What the rounds of a loop find in the context as it was, and give back. -/
lemma visitStates_forall {α : Type*} {enter : α → State D → State D} {P : State D → Prop}
    (henter : ∀ a st, P (enter a st) ↔ P st) (l : List α) (st : State D) :
    (∀ st' ∈ visitStates tree.toDocument env enter test f l st, P st') ↔
      (l ≠ [] → P st) ∧
      ∀ st' ∈ (visitStates tree.toDocument env enter test f l st).dropLast,
        nodeTestMatch tree.toDocument env test st'.context → P (f st').2 := by
  induction l generalizing st with
  | nil => simp [visitStates]
  | cons a l ih =>
    generalize hafter : (if nodeTestMatch tree.toDocument env test (enter a st).context then
      (f (enter a st)).2 else enter a st) = after
    have hP : P (enter a st) → (P after ↔
        (nodeTestMatch tree.toDocument env test (enter a st).context → P (f (enter a st)).2)) := by
      intro henter
      rw [← hafter]
      split
      · next h => simp [h]
      · next h => simp [h, henter]
    rw [visitStates, hafter, List.forall_mem_cons, ih]
    cases l with
    | nil => simp [visitStates, henter]
    | cons b l =>
      have hne : visitStates tree.toDocument env enter test f (b :: l) after ≠ [] := by
        simp [visitStates]
      rw [List.dropLast_cons_of_ne_nil hne, List.forall_mem_cons]
      simp only [ne_eq, reduceCtorEq, not_false_eq_true, forall_const, ← and_assoc]
      rw [henter a st] at hP ⊢
      exact and_congr_left fun _ => and_congr_right hP

lemma item_setAttr {st : State D} (h : st.context.node = none) (a : ℕ) :
    (st.setAttr (some a)).context.item = some (.attr a) := by
  simp [Context.item, State.setAttr, h]

lemma item_setNs {st : State D} (h : st.context.node = none ∧ st.context.attr = none) (m : ℕ) :
    (st.setNs (some m)).context.item = some (.ns m) := by
  simp [Context.item, State.setNs, h]

/-- What a loop looks at while nothing comes in front of it in the context. -/
lemma map_item_of_forall (mk : ℕ → Item) (enter : ℕ → State D → State D) (P : State D → Prop)
    (henter : ∀ a st, P (enter a st) ↔ P st)
    (hitem : ∀ a st, P st → (enter a st).context.item = some (mk a)) {l : List ℕ} {st : State D}
    (h : ∀ st' ∈ visitStates tree.toDocument env enter test f l st, P st') :
    (visitStates tree.toDocument env enter test f l st).map (fun st => st.context.item) =
      l.map fun a => some (mk a) := by
  induction l generalizing st with
  | nil => rfl
  | cons a l ih =>
    rw [visitStates, List.forall_mem_cons, henter] at h
    rw [visitStates, List.map_cons, ih h.2, hitem a st h.1, List.map_cons]

/-- What a loop over attributes or namespaces looks at is what it goes through exactly when nothing
comes in front of these in the context. -/
lemma lists_items_iff (mk : ℕ → Item) (hinj : Function.Injective mk)
    (enter : ℕ → State D → State D) (P : State D → Prop) (henter : ∀ a st, P (enter a st) ↔ P st)
    (hitem : ∀ a st, P st → (enter a st).context.item = some (mk a))
    (hP : ∀ a st, st.context.item = some (mk a) → P st) {l : List ℕ} (hl : l.Nodup)
    (st : State D) :
    Lists ((visitStates tree.toDocument env enter test f l st).map fun st => st.context.item)
        (fun x => ∃ i ∈ x, ∃ a ∈ l, i = mk a) ↔
      (l ≠ [] → P st) ∧
      ∀ st' ∈ (visitStates tree.toDocument env enter test f l st).dropLast,
        nodeTestMatch tree.toDocument env test st'.context → P (f st').2 := by
  rw [← visitStates_forall henter]
  constructor
  · rintro ⟨-, hmem⟩ st' hst'
    obtain ⟨i, hi, a, -, rfl⟩ := (hmem _).mp (List.mem_map_of_mem hst')
    exact hP a st' hi
  · intro h
    rw [map_item_of_forall mk enter P henter hitem h]
    have hinj' : Function.Injective fun a => some (mk a) := (Option.some_injective _).comp hinj
    refine ⟨(List.nodup_map_iff hinj').mpr hl, fun x => ?_⟩
    simp only [List.mem_map, Option.mem_def]
    constructor
    · rintro ⟨a, ha, rfl⟩
      exact ⟨mk a, rfl, a, ha, rfl⟩
    · rintro ⟨i, rfl, a, ha, rfl⟩
      exact ⟨a, ha, rfl⟩

/-- On these axes the nodes depend on the context node alone. -/
lemma lists_visited {l : List ℕ} (hattr : axis ≠ .attr) (hns : axis ≠ .ns)
    (hvisits : visits tree.toDocument env axis test f st =
      visitStates tree.toDocument env (fun n st => st.setNode (some n)) test f l st) :
    Lists ((visits tree.toDocument env axis test f st).map fun st => st.context.item)
      (fun x => ∃ i ∈ x, tree.OnAxis axis n i) ↔ Lists l fun m => tree.OnAxis axis n (.node m) := by
  rw [hvisits, map_item_nodes]
  exact lists_nodes_iff hattr hns

/-- On these axes the context node comes first, and is read again behind its visit. -/
lemma lists_visited_self (found : Option ℕ → List ℕ) (P : Option ℕ → Prop) (hattr : axis ≠ .attr) (hns : axis ≠ .ns)
    (hn : st.context.node = some n)
    (hvisits : visits tree.toDocument env axis test f st =
      let after := if nodeTestMatch tree.toDocument env test st.context then (f st).2 else st
      st :: visitStates tree.toDocument env (fun n st => st.setNode (some n)) test f
        (found after.context.node) after)
    (hlists : ∀ k, Lists (n :: found k) (fun m => tree.OnAxis axis n (.node m)) ↔ P k)
    (hP : P (some n)) :
    Lists ((visits tree.toDocument env axis test f st).map fun st => st.context.item)
      (fun x => ∃ i ∈ x, tree.OnAxis axis n i) ↔
      (nodeTestMatch tree.toDocument env test st.context → P (f st).2.context.node) := by
  have hitem : st.context.item = some (.node n) := by rw [Context.item, hn]
  rw [hvisits, List.map_cons, map_item_nodes, hitem]
  refine (lists_nodes_iff (l := n :: _) hattr hns).trans ((hlists _).trans ?_)
  split
  · next h => simp [h]
  · next h => simp [h, hn, hP]

/-- The loop over the attributes of an element. -/
lemma attr_iff (hn : st.context.node = some n) :
    Lists ((visits tree.toDocument env .attr test f st).map fun st => st.context.item)
      (fun x => ∃ i ∈ x, tree.OnAxis .attr n i) ↔ Undisturbed tree env .attr test f n st := by
  have haxis (i : Item) : tree.OnAxis .attr n i ↔
      tree.nodeType n = .element ∧ ∃ a ∈ tree.attributes n, i = .attr a := by
    cases i with
    | attr a | _ => simp [Document.OnAxis]
  unfold Undisturbed visits
  rw [hn]
  dsimp only
  by_cases helement : tree.nodeType n = .element
  · simp only [haxis, helement, true_and, if_true]
    refine (lists_items_iff .attr (fun _ _ => Item.attr.inj) (fun a st => st.setAttr (some a))
      (fun st => st.context.node = none) (fun _ _ => Iff.rfl) (fun a st h => item_setAttr h a)
      (fun a st h => ?_) (tree.attributes_nodup n) _).trans ?_
    rotate_left
    · simp [State.setNode]
    · cases hnode : st.context.node with
      | none => rfl
      | some k => simp [Context.item, hnode] at h
  · simp only [haxis, helement, false_and, if_false]
    exact iff_of_true ⟨List.nodup_nil, by simp⟩ (by simp)

/-- The loop over the declared namespaces of an element. -/
lemma ns_iff (hn : st.context.node = some n) :
    Lists ((visits tree.toDocument env .ns test f st).map fun st => st.context.item)
      (fun x => ∃ i ∈ x, tree.OnAxis .ns n i) ↔ Undisturbed tree env .ns test f n st := by
  have haxis (i : Item) : tree.OnAxis .ns n i ↔
      tree.nodeType n = .element ∧ ∃ m ∈ tree.namespaces n, i = .ns m := by
    cases i with
    | ns m | _ => simp [Document.OnAxis]
  unfold Undisturbed visits
  rw [hn]
  dsimp only
  by_cases helement : tree.nodeType n = .element
  · simp only [haxis, helement, true_and, if_true]
    refine (lists_items_iff .ns (fun _ _ => Item.ns.inj) (fun m st => st.setNs (some m))
      (fun st => st.context.node = none ∧ st.context.attr = none) (fun _ _ => Iff.rfl)
      (fun m st h => item_setNs h m) (fun m st h => ?_) (tree.namespaces_nodup n) _).trans ?_
    rotate_left
    · simp [State.setNode]
    · cases hnode : st.context.node with
      | some k => simp [Context.item, hnode] at h
      | none =>
        cases hattr : st.context.attr with
        | none => exact ⟨rfl, rfl⟩
        | some a => simp [Context.item, hnode, hattr] at h
  · simp only [haxis, helement, false_and, if_false]
    exact iff_of_true ⟨List.nodup_nil, by simp⟩ (by simp)

/-- An iterator is exact on its axis exactly when nothing disturbs it: no sibling behind the
context node on the following axis, and no continuation that leaves another context behind where
the context is looked at again. -/
theorem exact_iff (tree : BuiltTree) (env : Env D) (axis : Axis) (test : NodeTest)
    (f : Evaluation D) (n : ℕ) (st : State D) :
    Exact tree env axis test f n (st.setNode (some n)) ↔
      Undisturbed tree env axis test f n (st.setNode (some n)) := by
  have hn : (st.setNode (some n)).context.node = some n := rfl
  generalize st.setNode (some n) = st at hn ⊢
  have hspec := @iterator_spec _ tree.toDocument env test f axis _ _ hn
  suffices h : Lists ((visits tree.toDocument env axis test f st).map fun st => st.context.item)
      (fun x => ∃ i ∈ x, tree.OnAxis axis n i) ↔ Undisturbed tree env axis test f n st from
    ⟨fun hexact => h.mp hexact.items, fun hund => ⟨h.mpr hund, hspec.1, hspec.2⟩⟩
  have hnodes {l : List ℕ} (hattr : axis ≠ .attr) (hns : axis ≠ .ns)
      (hvisits : visits tree.toDocument env axis test f st =
        visitStates tree.toDocument env (fun n st => st.setNode (some n)) test f l st)
      (hl : Lists l fun m => tree.OnAxis axis n (.node m)) :
      Lists ((visits tree.toDocument env axis test f st).map fun st => st.context.item)
        (fun x => ∃ i ∈ x, tree.OnAxis axis n i) ↔ True :=
    iff_true_intro ((lists_visited hattr hns hvisits).mpr hl)
  cases axis with
  | child =>
    refine hnodes (by decide) (by decide) (by unfold visits; rw [hn]) ?_
    exact (nextSiblings_lists tree _).congr fun m => tree.forward.parent_iff.symm
  | descendant =>
    exact hnodes (by decide) (by decide) (by unfold visits; rw [hn]) (descendants_lists tree n)
  | parent =>
    exact hnodes (by decide) (by decide) (by unfold visits; rw [hn]) (toList_lists _)
  | ancestor =>
    refine hnodes (by decide) (by decide) (by unfold visits; rw [hn]) ?_
    exact (parents_lists tree _).congr fun m => beyond_iff_head.symm
  | followingSibling =>
    refine hnodes (by decide) (by decide) (by unfold visits; rw [hn]) ?_
    exact (nextSiblings_lists tree _).congr fun m => beyond_iff_head.symm
  | precedingSibling =>
    refine hnodes (by decide) (by decide) (by unfold visits; rw [hn]) ?_
    exact (previousSiblings_lists tree _).congr fun m =>
      beyond_iff_head.symm.trans (beyond_swap tree.next_prev).symm
  | following =>
    refine (lists_visited (l := tree.followingNodes n) (by decide) (by decide)
      (by unfold visits; rw [hn])).trans ⟨fun h => ?_, followingNodes_lists tree⟩
    cases hnext : tree.next n with
    | none => exact hnext
    | some m => exact absurd h.nodup (followingNodes_twice tree hnext)
  | preceding =>
    exact hnodes (l := tree.precedingNodes n) (by decide) (by decide) (by unfold visits; rw [hn])
      (preceding_lists tree (backwards_lists tree) n)
  | self =>
    refine (lists_visited_self (fun _ => []) (fun _ => True) (by decide) (by decide) hn
      (by unfold visits; rw [hn]; rfl) (fun _ => iff_true_intro ?_) trivial).trans
      (iff_true_intro fun _ => trivial)
    exact ⟨List.nodup_singleton n, fun m => List.mem_singleton⟩
  | descendantOrSelf =>
    exact lists_visited_self (fun k => tree.descendants (k.bind tree.firstChild))
      (fun k => k.bind tree.firstChild = tree.firstChild n) (by decide) (by decide) hn
      (by unfold visits; rw [hn]) (descendantsOrSelf_iff tree n) rfl
  | ancestorOrSelf =>
    exact lists_visited_self (fun k => tree.parents (k.bind tree.parent))
      (fun k => k.bind tree.parent = tree.parent n) (by decide) (by decide) hn
      (by unfold visits; rw [hn]) (parentsOrSelf_iff tree n) rfl
  | attr => exact attr_iff hn
  | ns => exact ns_iff hn

/-- The element `a` with the elements `b` and `c`, under the dummy root. -/
def twoChildren : BuiltTree where
  root := 0
  parent n := if n = 1 then some 0 else if n = 2 ∨ n = 3 then some 1 else none
  prev n := if n = 3 then some 2 else none
  next n := if n = 2 then some 3 else none
  firstChild n := if n = 0 then some 1 else if n = 1 then some 2 else none
  lastChild n := if n = 0 then some 1 else if n = 1 then some 3 else none
  behind n := 3 - n
  before n := if n = 0 then 3 else if n = 1 then 2 else if n = 2 then 0 else 1
  depth n := n
  parent_depth := by grind
  next_behind := by grind
  firstChild_behind := by grind
  prev_before := by grind
  lastChild_before := by grind
  nodeType n := if n = 1 ∨ n = 2 ∨ n = 3 then .element else .invalid
  localname n := if n = 1 then some ['a'] else if n = 2 then some ['b'] else some ['c']
  nsUri _ := none
  text _ := none
  attributes _ := []
  attributeName _ := none
  attributeUri _ := none
  attributeValue _ := none
  namespaces _ := []
  nsPrefix _ := none
  next_prev := by grind
  next_parent := by grind
  firstChild_iff := by grind
  lastChild_iff := by grind
  attributes_nodup _ := List.nodup_nil
  namespaces_nodup _ := List.nodup_nil

/-- The predicate `[/b]`. -/
def rootPredicate : Operation ℕ :=
  .predicate 0 (.rootNode (.step .child ⟨.standard, none, some ['b'], none⟩ .parseEnd .result))
    .parseEnd

/-- `following::node()` goes through `c` twice from `b`, and `descendant-or-self::node()[/b]` goes
through `a` again from the root. -/
theorem axes_not_exact :
    ¬ Exact twoChildren newEnv .following ⟨.node, none, none, none⟩
      (evaluateOperation twoChildren.toDocument newEnv .result) 2
      (.begin ⟨some 2, none, none, 0, 0⟩ []) ∧
    ¬ Exact twoChildren newEnv .descendantOrSelf ⟨.node, none, none, none⟩
      (evaluatePredicate twoChildren.toDocument newEnv rootPredicate
        (evaluateOperation twoChildren.toDocument newEnv .result)) 1
      (.begin ⟨some 1, none, none, 0, 0⟩ []) :=
  ⟨fun h => absurd h.items.nodup (by decide), fun h => absurd h.items.nodup (by decide)⟩

end Exactness

end Axis2C.XPath
