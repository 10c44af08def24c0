import Axis2C.OmTreeInvariant
import Axis2C.OrderedTrees

/-!
# Serializing a subtree

`axiom_node_serialize` and `axiom_node_serialize_sub_tree` walk a tree with the
array `nodes[256]`. The list of the model holds its entries below `count`, the last
one first; the flag says that an entry past the array was written, after which the
C code has no defined behaviour. In a complete tree the accessors give the fields.
The calls of the serializers are recorded and their statuses are a parameter, by
the number of the call. The namespaces that `axiom_node_serialize_sub_tree` writes
between them are left out.
-/
namespace Axis2C.Om

open OrderedTrees DoublyLinked

/-- A call that serializes a part of a node. -/
inductive Part where
  | start (n : ℕ)
  | leaf (n : ℕ)
  | finish (n : ℕ)
  deriving DecidableEq, Repr

section Model

variable {β : Type*}

/-- The local variables of the two functions, and the calls they made. -/
structure Walk where
  omNode : ℕ
  tempNode : Option ℕ
  nodes : List ℕ
  calls : List Part
  success : Bool
  overflow : Bool
  deriving DecidableEq, Repr

/-- The first call for a node. -/
def startPart (h : Heap (Node β)) (n : ℕ) : Option Part :=
  match (h.data n).dataElement, (h.data n).nodeType with
  | none, _ => none
  | some _, .element => some (.start n)
  | some _, .dataSource => some (.leaf n)
  | some _, .text => some (.leaf n)
  | some _, .comment => some (.leaf n)
  | some _, .doctype => some (.leaf n)
  | some _, .processingInstruction => some (.leaf n)
  | some _, _ => none

/-- The call behind the children. -/
def endPart (h : Heap (Node β)) (n : ℕ) : Option Part :=
  match (h.data n).dataElement, (h.data n).nodeType with
  | some _, .element => some (.finish n)
  | _, _ => none

/-- The status is the one of the last call. -/
def Walk.call (replies : ℕ → Bool) (w : Walk) : Option Part → Walk
  | none => w
  | some part => { w with calls := w.calls ++ [part], success := replies w.calls.length }

/-- The inner loop: the elements that end with their last child. A failed call ends
it. -/
def climb (h : Heap (Node β)) (replies : ℕ → Bool) : List ℕ → Walk → Walk
  | _ :: parent :: below, w =>
    match w.tempNode with
    | some _ => w
    | none =>
      let w := Walk.call replies { w with omNode := parent, nodes := parent :: below }
        (endPart h parent)
      if w.success then climb h replies (parent :: below) { w with tempNode := h.next parent }
      else w
  | _, w => w

/-- Behind the inner loop: a sibling, unless the root is reached. -/
def afterClimb (w : Walk) : Bool × Walk :=
  match w.tempNode, w.nodes with
  | some sibling, _ :: parent :: below =>
    (true, { w with omNode := sibling, nodes := sibling :: parent :: below })
  | _, nodes => (nodes.tail.length > 0, { w with nodes := nodes.tail })

/-- One round of the outer loop, and whether another one follows. With `subTree` it
is the one of `axiom_node_serialize_sub_tree`, which does not look for a sibling of
the root and whose inner loop does not return. -/
def serializeRound (subTree : Bool) (h : Heap (Node β)) (replies : ℕ → Bool) (w : Walk) :
    Bool × Walk :=
  let w := w.call replies (startPart h w.omNode)
  if !w.success then (false, w)
  else
    match h.firstChild w.omNode with
    | some child =>
      (true, { w with
        tempNode := some child, omNode := child, nodes := child :: w.nodes,
        overflow := w.overflow || decide (256 ≤ w.nodes.length) })
    | none =>
      let w := Walk.call replies { w with tempNode := none } (endPart h w.omNode)
      if !w.success then (false, w)
      else
        let w := if subTree && w.nodes.length ≤ 1 then w
          else { w with tempNode := h.next w.omNode }
        match w.tempNode with
        | some sibling =>
          (true, { w with omNode := sibling, nodes := sibling :: w.nodes.tail })
        | none =>
          let w := climb h replies w.nodes w
          if !w.success && !subTree then (false, w) else afterClimb w

def serializeLoop (subTree : Bool) (h : Heap (Node β)) (replies : ℕ → Bool) :
    ℕ → Walk → Option Walk
  | 0, _ => none
  | fuel + 1, w =>
    let r := serializeRound subTree h replies w
    if r.1 then serializeLoop subTree h replies fuel r.2 else some r.2

def startWalk (n : ℕ) : Walk := ⟨n, none, [n], [], true, false⟩

/-- `axiom_node_serialize`. -/
def serialize (h : Heap (Node β)) (replies : ℕ → Bool) (fuel n : ℕ) : Option Walk :=
  serializeLoop false h replies fuel (startWalk n)

/-- `axiom_node_serialize_sub_tree`. -/
def serializeSubTree (h : Heap (Node β)) (replies : ℕ → Bool) (fuel n : ℕ) : Option Walk :=
  serializeLoop true h replies fuel (startWalk n)

end Model

section Traversal

variable {β : Type*} {h : Heap (Node β)} {subTree : Bool}
variable {calls : List Part} {overflow : Bool} {below : List ℕ} {n parent : ℕ}

/-- The trees of a node and of the siblings behind it. -/
def Chain {α : Type*} (h : Heap α) : Option ℕ → Trees ℕ → Prop
  | n, .nil => n = none
  | n, .node root children rest =>
    n = some root ∧ Chain h (h.firstChild root) children ∧ Chain h (h.next root) rest

def traversal (h : Heap (Node β)) (trees : Trees ℕ) : List Part :=
  trees.walk (fun n => (startPart h n).toList) fun n => (endPart h n).toList

def nodeCalls (h : Heap (Node β)) (n : ℕ) (children : Trees ℕ) : List Part :=
  (startPart h n).toList ++ traversal h children ++ (endPart h n).toList

lemma traversal_node (h : Heap (Node β)) (n : ℕ) (children rest : Trees ℕ) :
    traversal h (.node n children rest) = nodeCalls h n children ++ traversal h rest := rfl

/-- The outer loop goes on with the outcome of a round. -/
def resume (subTree : Bool) (h : Heap (Node β)) (fuel : ℕ) (r : Bool × Walk) : Option Walk :=
  if r.1 then serializeLoop subTree h (fun _ => true) fuel r.2 else some r.2

lemma serializeLoop_succ (fuel : ℕ) (w : Walk) :
    serializeLoop subTree h (fun _ => true) (fuel + 1) w =
      resume subTree h fuel (serializeRound subTree h (fun _ => true) w) := rfl

lemma Walk.call_true (w : Walk) (hw : w.success = true) (part : Option Part) :
    w.call (fun _ => true) part = { w with calls := w.calls ++ part.toList } := by
  cases part with
  | none => simp [Walk.call]
  | some part => simp [Walk.call, hw]

lemma Walk.call_success (w : Walk) (hw : w.success = true) (part : Option Part) :
    (w.call (fun _ => true) part).success = true := by
  rw [Walk.call_true w hw, hw]

/-- What follows when all calls for the node on top of the array are made. -/
def leaveNode (h : Heap (Node β)) (n : ℕ) (below : List ℕ) (calls : List Part) (overflow : Bool) :
    Bool × Walk :=
  afterClimb (climb h (fun _ => true) (n :: below) ⟨n, h.next n, n :: below, calls, true, overflow⟩)

lemma leaveNode_sibling {n s parent : ℕ} (hnext : h.next n = some s) :
    leaveNode h n (parent :: below) calls overflow =
      (true, ⟨s, some s, s :: parent :: below, calls, true, overflow⟩) := by
  simp [leaveNode, climb, hnext, afterClimb]

lemma climb_last {n parent : ℕ} {below : List ℕ} {calls : List Part} {overflow : Bool} :
    climb h (fun _ => true) (n :: parent :: below) ⟨n, none, n :: parent :: below, calls, true, overflow⟩ =
      climb h (fun _ => true) (parent :: below)
        ⟨parent, h.next parent, parent :: below, calls ++ (endPart h parent).toList, true,
          overflow⟩ := by
  rw [climb]
  simp only
  rw [Walk.call_true _ rfl]
  rfl

lemma leaveNode_last (hnext : h.next n = none) :
    leaveNode h n (parent :: below) calls overflow =
      leaveNode h parent below (calls ++ (endPart h parent).toList) overflow := by
  unfold leaveNode
  rw [hnext, climb_last]

lemma leaveNode_root {n : ℕ} :
    leaveNode h n [] calls overflow =
      (false, ⟨n, h.next n, [], calls, true, overflow⟩) := by
  unfold leaveNode climb afterClimb
  cases h.next n <;> rfl

lemma climb_success (nodes : List ℕ) (w : Walk) (hw : w.success = true) :
    (climb h (fun _ => true) nodes w).success = true := by
  induction nodes generalizing w with
  | nil => exact hw
  | cons n below ih =>
    cases below with
    | nil => exact hw
    | cons parent below =>
      unfold climb
      cases w.tempNode with
      | some s => exact hw
      | none =>
        simp only
        split
        next hs => exact ih _ hs
        next hs =>
          refine (hs (Walk.call_success _ ?_ _)).elim
          exact hw

lemma round_inner {n c : ℕ} {temp : Option ℕ} (hfirst : h.firstChild n = some c) :
    serializeRound subTree h (fun _ => true) ⟨n, temp, n :: below, calls, true, overflow⟩ =
      (true, ⟨c, some c, c :: n :: below, calls ++ (startPart h n).toList, true,
        overflow || decide (256 ≤ below.length + 1)⟩) := by
  unfold serializeRound
  rw [Walk.call_true _ rfl]
  simp [hfirst]

/-- A round at a node without children below the root. -/
lemma round_leaf {temp : Option ℕ} (hfirst : h.firstChild n = none) :
    serializeRound subTree h (fun _ => true)
        ⟨n, temp, n :: parent :: below, calls, true, overflow⟩ =
      leaveNode h n (parent :: below)
        (calls ++ (startPart h n).toList ++ (endPart h n).toList) overflow := by
  unfold serializeRound
  rw [Walk.call_true _ rfl]
  simp only [Bool.not_true, Bool.false_eq_true, if_false, hfirst]
  rw [Walk.call_true _ rfl]
  cases hnext : h.next n with
  | none =>
    rw [leaveNode_last hnext]
    unfold leaveNode
    simp [climb_last, climb_success]
  | some s =>
    rw [leaveNode_sibling hnext]
    simp

lemma round_root {n : ℕ} {temp : Option ℕ} {calls : List Part} {overflow : Bool}
    (hfirst : h.firstChild n = none) (hnext : subTree = true ∨ h.next n = none) :
    serializeRound subTree h (fun _ => true) ⟨n, temp, [n], calls, true, overflow⟩ =
      (false, ⟨n, none, [], calls ++ (startPart h n).toList ++ (endPart h n).toList, true,
        overflow⟩) := by
  unfold serializeRound
  rw [Walk.call_true _ rfl]
  simp only [Bool.not_true, Bool.false_eq_true, if_false, hfirst]
  rw [Walk.call_true _ rfl]
  obtain rfl | hnext := hnext
  · simp [climb, afterClimb]
  · simp [hnext, climb, afterClimb]

/-- The flag after the children of a node, whose first one was put on the array. -/
lemma overflow_children (overflow : Bool) {k a : ℕ} (ha : 0 < a) :
    ((overflow || decide (256 ≤ k)) || decide (256 < k + a)) =
      (overflow || decide (256 < k + a)) := by
  rw [Bool.or_assoc, ← Bool.decide_or]
  congr 1
  exact decide_eq_decide.mpr (by omega)

/-- The flag after a node with its children and the siblings behind it. -/
lemma overflow_node (overflow : Bool) (k a b : ℕ) :
    ((overflow || decide (256 < k + 1 + a)) || decide (256 < k + b)) =
      (overflow || decide (256 < k + max (a + 1) b)) := by
  rw [Bool.or_assoc, ← Bool.decide_or]
  congr 1
  exact decide_eq_decide.mpr (by omega)

/-- The walk over the trees that stand on a parent in the array ends behind the end
of the parent. -/
theorem chain_walk (trees : Trees ℕ) {n parent : ℕ} {temp : Option ℕ} {below : List ℕ}
    {calls : List Part} {overflow : Bool} (hchain : Chain h (some n) trees)
    (hoverflow : 256 < below.length + 2 → overflow = true) :
    ∃ k, ∀ fuel, serializeLoop subTree h (fun _ => true) (k + fuel)
        ⟨n, temp, n :: parent :: below, calls, true, overflow⟩ =
      resume subTree h fuel (leaveNode h parent below
        (calls ++ traversal h trees ++ (endPart h parent).toList)
        (overflow || decide (256 < below.length + 1 + trees.height))) := by
  induction trees generalizing n parent temp below calls overflow with
  | nil => simp [Chain] at hchain
  | node root children rest ihc ihr =>
    obtain ⟨hn, hchildren, hrest⟩ := hchain
    obtain rfl : n = root := Option.some.inj hn
    -- first the node and its children
    obtain ⟨k1, hk1⟩ : ∃ k, ∀ fuel, serializeLoop subTree h (fun _ => true) (k + fuel)
        ⟨n, temp, n :: parent :: below, calls, true, overflow⟩ =
        resume subTree h fuel (leaveNode h n (parent :: below)
          (calls ++ nodeCalls h n children)
          (overflow || decide (256 < below.length + 2 + children.height))) := by
      cases hfirst : h.firstChild n with
      | none =>
        obtain rfl : children = .nil := by
          cases children with
          | nil => rfl
          | node c cs ss => simp [Chain, hfirst] at hchildren
        have hov : (overflow || decide (256 < below.length + 2 + 0)) = overflow := by
          cases overflow with
          | true => rfl
          | false => simpa using hoverflow
        refine ⟨1, fun fuel => ?_⟩
        rw [Nat.add_comm 1 fuel, serializeLoop_succ, round_leaf hfirst, Trees.height, hov]
        simp [nodeCalls, traversal, Trees.walk]
      | some c =>
        have hpos : 0 < children.height := by
          cases children with
          | nil => simp [Chain, hfirst] at hchildren
          | node c cs ss => simp [Trees.height]
        obtain ⟨k, hk⟩ := @ihc c n (some c) (parent :: below)
          (calls ++ (startPart h n).toList) (overflow || decide (256 ≤ below.length + 2))
          (hfirst ▸ hchildren) (fun hlt => by
            simp only [List.length_cons] at hlt
            simp only [Bool.or_eq_true, decide_eq_true_eq]
            omega)
        refine ⟨k + 1, fun fuel => ?_⟩
        have hlen : (parent :: below).length + 1 = below.length + 2 := rfl
        have hstep := hk fuel
        rw [hlen, overflow_children overflow hpos] at hstep
        rw [Nat.add_right_comm, serializeLoop_succ, round_inner hfirst, resume, if_pos rfl,
          hlen, hstep]
        simp [nodeCalls]
    -- then the siblings behind it
    cases hnext : h.next n with
    | none =>
      obtain rfl : rest = .nil := by
        cases rest with
        | nil => rfl
        | node r cs ss => simp [Chain, hnext] at hrest
      refine ⟨k1, fun fuel => ?_⟩
      have hheight : below.length + 1 + (Trees.node n children .nil).height =
          below.length + 2 + children.height := by
        simp only [Trees.height]
        omega
      rw [hk1, leaveNode_last hnext, traversal_node, hheight]
      simp [traversal, Trees.walk]
    | some s =>
      obtain ⟨k2, hk2⟩ := @ihr s parent (some s) below (calls ++ nodeCalls h n children)
        (overflow || decide (256 < below.length + 2 + children.height))
        (hnext ▸ hrest) (fun hlt => by simp [hoverflow hlt])
      refine ⟨k1 + k2, fun fuel => ?_⟩
      have hov := overflow_node overflow (below.length + 1) children.height rest.height
      rw [Nat.add_assoc, hk1, leaveNode_sibling hnext, resume, if_pos rfl, hk2, traversal_node,
        ← List.append_assoc, hov]
      rfl

/-- The walk goes on from a node that is alone in the array, unless its own siblings are
taken for its children's. -/
lemma serializeLoop_top {n : ℕ} {temp : Option ℕ} {calls : List Part} {children : Trees ℕ}
    (hchildren : Chain h (h.firstChild n) children)
    (hnext : subTree = true ∨ h.firstChild n ≠ none ∨ h.next n = none) :
    ∃ fuel w, serializeLoop subTree h (fun _ => true) fuel ⟨n, temp, [n], calls, true, false⟩ =
        some w ∧
      w.success = true ∧ w.calls = calls ++ nodeCalls h n children ∧
      (w.overflow = true ↔ 256 < 1 + children.height) := by
  cases hfirst : h.firstChild n with
  | none =>
    obtain rfl : children = .nil := by
      cases children with
      | nil => rfl
      | node c cs ss => simp [Chain, hfirst] at hchildren
    have hround := @round_root β h subTree n temp calls false hfirst (by simpa [hfirst] using hnext)
    refine ⟨1, _, by rw [serializeLoop_succ, hround]; rfl, rfl, ?_, ?_⟩
    · simp [nodeCalls, traversal, Trees.walk]
    · simp [Trees.height]
  | some c =>
    obtain ⟨k, hk⟩ := @chain_walk β h subTree children c n (some c) []
      (calls ++ (startPart h n).toList) false (hfirst ▸ hchildren) (by simp)
    refine ⟨k + 0 + 1, ⟨n, h.next n, [], calls ++ nodeCalls h n children, true,
      false || decide (256 < 1 + children.height)⟩, ?_, rfl, rfl, by simp⟩
    rw [serializeLoop_succ, round_inner hfirst, resume, if_pos rfl]
    have hstep := hk 0
    rw [leaveNode_root] at hstep
    simp only [nodeCalls, List.append_assoc] at hstep ⊢
    exact hstep

/-- The walk from a node. -/
lemma serializeLoop_root {n : ℕ} {children : Trees ℕ}
    (hchildren : Chain h (h.firstChild n) children)
    (hnext : subTree = true ∨ h.firstChild n ≠ none ∨ h.next n = none) :
    ∃ fuel w, serializeLoop subTree h (fun _ => true) fuel (startWalk n) = some w ∧
      w.success = true ∧ w.calls = nodeCalls h n children ∧
      (w.overflow = true ↔ 256 < 1 + children.height) :=
  serializeLoop_top hchildren hnext

lemma Walk.calls_call (replies : ℕ → Bool) (w : Walk) (part : Option Part) :
    (w.call replies part).calls = w.calls ++ part.toList := by
  cases part <;> simp [Walk.call]

lemma climb_calls (replies : ℕ → Bool) (nodes : List ℕ) (w : Walk) :
    w.calls <+: (climb h replies nodes w).calls := by
  induction nodes generalizing w with
  | nil => exact List.prefix_rfl
  | cons n below ih =>
    cases below with
    | nil => exact List.prefix_rfl
    | cons parent below =>
      unfold climb
      cases w.tempNode with
      | some s => exact List.prefix_rfl
      | none =>
        simp only
        split
        · refine List.IsPrefix.trans ?_ (ih _)
          rw [Walk.calls_call]
          exact List.prefix_append _ _
        · rw [Walk.calls_call]
          exact List.prefix_append _ _

lemma afterClimb_calls (w : Walk) : (afterClimb w).2.calls = w.calls := by
  unfold afterClimb
  split <;> rfl

lemma serializeRound_calls (replies : ℕ → Bool) (w : Walk) :
    w.calls ++ (startPart h w.omNode).toList <+: (serializeRound subTree h replies w).2.calls := by
  rw [← Walk.calls_call replies]
  unfold serializeRound
  simp only
  generalize w.call replies (startPart h w.omNode) = w1
  split
  · exact List.prefix_rfl
  · split
    · exact List.prefix_rfl
    · have hend : w1.calls <+:
          (Walk.call replies { w1 with tempNode := none } (endPart h w1.omNode)).calls := by
        rw [Walk.calls_call]
        exact List.prefix_append _ _
      generalize Walk.call replies { w1 with tempNode := none } (endPart h w1.omNode) = w2 at hend ⊢
      split
      · exact hend
      · have hnext : w1.calls <+: (if (subTree && decide (w2.nodes.length ≤ 1)) = true then w2
            else { w2 with tempNode := h.next w2.omNode }).calls := by
          split_ifs <;> exact hend
        generalize (if (subTree && decide (w2.nodes.length ≤ 1)) = true then w2
            else { w2 with tempNode := h.next w2.omNode }) = w3 at hnext ⊢
        have hclimb := hnext.trans (climb_calls (h := h) replies w3.nodes w3)
        split
        · exact hnext
        · split
          · exact hclimb
          · rw [afterClimb_calls]
            exact hclimb

lemma serializeLoop_calls (replies : ℕ → Bool) (fuel : ℕ) {w w' : Walk}
    (hr : serializeLoop subTree h replies fuel w = some w') :
    w.calls ++ (startPart h w.omNode).toList <+: w'.calls := by
  induction fuel generalizing w with
  | zero => simp [serializeLoop] at hr
  | succ fuel ih =>
    have hround := @serializeRound_calls β h subTree replies w
    simp only [serializeLoop] at hr
    split at hr
    · exact hround.trans ((List.prefix_append _ _).trans (ih hr))
    · obtain rfl := Option.some.inj hr
      exact hround

lemma serializeLoop_mono (replies : ℕ → Bool) {fuel fuel' : ℕ} (hle : fuel ≤ fuel') {w w' : Walk}
    (hr : serializeLoop subTree h replies fuel w = some w') :
    serializeLoop subTree h replies fuel' w = some w' := by
  induction fuel generalizing fuel' w with
  | zero => simp [serializeLoop] at hr
  | succ fuel ih =>
    obtain ⟨k, rfl⟩ : ∃ k, fuel' = k + 1 := ⟨fuel' - 1, by omega⟩
    simp only [serializeLoop] at hr ⊢
    split at hr
    · rename_i hagain
      rw [if_pos hagain]
      exact ih (by omega) hr
    · rename_i hagain
      rw [if_neg hagain]
      exact hr

lemma serializeLoop_unique (replies : ℕ → Bool) {fuel fuel' : ℕ} {w w1 w2 : Walk}
    (h1 : serializeLoop subTree h replies fuel w = some w1)
    (h2 : serializeLoop subTree h replies fuel' w = some w2) : w1 = w2 := by
  have h1' := serializeLoop_mono replies (le_max_left fuel fuel') h1
  have h2' := serializeLoop_mono replies (le_max_right fuel fuel') h2
  exact Option.some.inj (h1'.symm.trans h2')

end Traversal

section Subtree

variable {β : Type*} {h : Heap (Node β)}

lemma Forest.chain {α : Type*} {h : Heap α} (hf : Forest h) (n : ℕ) (hn : h.live n = true) :
    ∃ children, Chain h (h.firstChild n) children := by
  induction n using hf.acyclic.induction with
  | h n ih =>
    obtain ⟨cs, hcs⟩ := hf.children n hn
    have hall : ∀ c ∈ cs, ∃ children, Chain h (h.firstChild c) children := fun c hc =>
      ih c ((hcs.members c).mp hc) ((hcs.members c).mp hc).1
    have hlist : ∀ (before : Option ℕ) (cs : List ℕ), Linked h.next h.prev before cs none →
        (∀ c ∈ cs, ∃ children, Chain h (h.firstChild c) children) →
          ∃ trees, Chain h cs.head? trees := by
      intro before cs
      induction cs generalizing before with
      | nil => exact fun _ _ => ⟨.nil, rfl⟩
      | cons c cs ihc =>
        rintro ⟨-, hnext, hlinked⟩ hall
        obtain ⟨children, hchildren⟩ := hall c (by simp)
        obtain ⟨rest, hrest⟩ := ihc _ hlinked fun d hd => hall d (by simp [hd])
        refine ⟨.node c children rest, rfl, hchildren, ?_⟩
        rw [hnext, Option.or_none]
        exact hrest
    rw [hcs.first]
    exact hlist none cs hcs.linked hall

lemma Forest.live_next (hf : Forest h) {n s : ℕ} (hn : h.live n = true)
    (hnext : h.next n = some s) : h.live s = true := by
  cases hp : h.parent n with
  | none =>
    have := (hf.single n hn hp).2
    simp [hnext] at this
  | some p =>
    obtain ⟨xs, ys, hcs, -, hnext'⟩ := hf.place ⟨hn, hp⟩
    have hmem : s ∈ ys := List.mem_of_mem_head? (hnext'.symm.trans hnext)
    exact ((hcs.members s).mp (by simp [hmem])).1

/-- Every node was made by one of the create functions. -/
def Built (h : Heap (Node β)) : Prop :=
  ∀ n, h.live n = true → (h.data n).dataElement.isSome ∧
    (h.data n).nodeType ∈ [NodeType.element, .dataSource, .text, .comment, .doctype,
      .processingInstruction]

lemma Built.startPart_isSome (hb : Built h) {n : ℕ} (hn : h.live n = true) :
    (startPart h n).isSome := by
  obtain ⟨hdata, htype⟩ := hb n hn
  obtain ⟨d, hd⟩ := Option.isSome_iff_exists.mp hdata
  simp only [List.mem_cons, List.not_mem_nil, or_false] at htype
  unfold startPart
  rw [hd]
  obtain ht | ht | ht | ht | ht | ht := htype <;> rw [ht] <;> rfl

/-- A function returns success after these calls, and stays in its array. -/
def Makes (run : ℕ → Option Walk) (calls : List Part) : Prop :=
  ∃ fuel w, run fuel = some w ∧ w.success = true ∧ w.calls = calls ∧ w.overflow = false

lemma serialize_sibling (hb : Built h) {n s : ℕ} (hfirst : h.firstChild n = none)
    (hnext : h.next n = some s) (hs : h.live s = true) {fuel : ℕ} {w : Walk}
    (hr : serialize h (fun _ => true) fuel n = some w) : w.calls ≠ nodeCalls h n .nil := by
  obtain ⟨part, hpart⟩ := Option.isSome_iff_exists.mp (hb.startPart_isSome hs)
  unfold serialize at hr
  cases fuel with
  | zero => simp [serializeLoop] at hr
  | succ fuel =>
    have hround : serializeRound false h (fun _ => true) (startWalk n) =
        (true, ⟨s, some s, [s], nodeCalls h n .nil, true, false⟩) := by
      unfold serializeRound startWalk
      rw [Walk.call_true _ rfl]
      simp only [Bool.not_true, Bool.false_eq_true, if_false, hfirst]
      rw [Walk.call_true _ rfl]
      simp [hnext, nodeCalls, traversal, Trees.walk]
    rw [serializeLoop_succ, hround, resume, if_pos rfl] at hr
    have hcalls := (serializeLoop_calls _ fuel hr).length_le
    intro heq
    simp [heq, hpart] at hcalls

/-- Both functions make exactly the calls of the recursive traversal, within their
arrays, if and only if the node has a child or no sibling behind it and its tree
has at most 256 levels. -/
theorem serialize_exact_iff (hf : Forest h) (hb : Built h) {replies : ℕ → Bool}
    (hreplies : ∀ k, replies k = true) {n : ℕ} (hn : h.live n = true) :
    ∃ children, Chain h (h.firstChild n) children ∧
      (Makes (serialize h replies · n) (nodeCalls h n children) ∧
        Makes (serializeSubTree h replies · n) (nodeCalls h n children) ↔
          (h.firstChild n ≠ none ∨ h.next n = none) ∧ 1 + children.height ≤ 256) := by
  obtain rfl : replies = fun _ => true := funext hreplies
  obtain ⟨children, hchildren⟩ := hf.chain n hn
  obtain ⟨fuel2, w2, hr2, hs2, hc2, ho2⟩ := serializeLoop_root hchildren (.inl rfl)
  refine ⟨children, hchildren, ?_, ?_⟩
  · rintro ⟨⟨fuel, w, hr, -, hc, -⟩, ⟨fuel', w', hr', -, -, ho'⟩⟩
    constructor
    · by_contra hno
      rw [not_or, not_ne_iff] at hno
      obtain ⟨s, hnext⟩ := Option.ne_none_iff_exists'.mp hno.2
      have hnil : children = .nil := by
        cases children with
        | nil => rfl
        | node c cs ss => simp [Chain, hno.1] at hchildren
      exact serialize_sibling hb hno.1 hnext (hf.live_next hn hnext) hr (hnil ▸ hc)
    · have heq := serializeLoop_unique _ hr' hr2
      rw [← heq, ho'] at ho2
      simpa using ho2
  · rintro ⟨hroot, hheight⟩
    obtain ⟨fuel1, w1, hr1, hs1, hc1, ho1⟩ :=
      @serializeLoop_root β h false n children hchildren (.inr hroot)
    have hno (w : Walk) (ho : w.overflow = true ↔ 256 < 1 + children.height) :
        w.overflow = false := by
      rw [Bool.eq_false_iff]
      intro hw
      have := ho.mp hw
      omega
    exact ⟨⟨fuel1, w1, hr1, hs1, hc1, hno w1 ho1⟩, ⟨fuel2, w2, hr2, hs2, hc2, hno w2 ho2⟩⟩

def elementNode : Node Unit := ⟨.element, some (), false, true⟩

lemma twoChildren_forest {α : Type*} (d : α) : Forest (twoChildren d) :=
  ((threeNodes_fresh d).forest.step (step_oneChild d) trivial).step (step_twoChildren d) trivial

lemma twoChildren_built : Built (twoChildren elementNode) := by
  have htype : NodeType.element ∈ [NodeType.element, .dataSource, .text, .comment, .doctype,
      .processingInstruction] := by decide
  exact fun _ _ => ⟨rfl, htype⟩

/-- From the parent. -/
theorem serialize_exact_parent :
    ∃ children, Chain (twoChildren elementNode) ((twoChildren elementNode).firstChild 0) children ∧
      (Makes (serialize (twoChildren elementNode) (fun _ => true) · 0)
          (nodeCalls (twoChildren elementNode) 0 children) ∧
        Makes (serializeSubTree (twoChildren elementNode) (fun _ => true) · 0)
          (nodeCalls (twoChildren elementNode) 0 children) ↔
          ((twoChildren elementNode).firstChild 0 ≠ none ∨
            (twoChildren elementNode).next 0 = none) ∧ 1 + children.height ≤ 256) :=
  serialize_exact_iff (n := 0) (twoChildren_forest elementNode) twoChildren_built
    (fun _ => rfl) rfl

/-- From the first child: the other child is serialized, too. -/
theorem sibling_serialized :
    Forest (twoChildren elementNode) ∧ Built (twoChildren elementNode) ∧
      Chain (twoChildren elementNode) ((twoChildren elementNode).firstChild 1) .nil ∧
      (serialize (twoChildren elementNode) (fun _ => true) 3 1).map Walk.calls =
        some [.start 1, .finish 1, .start 2, .finish 2] ∧
      ¬ Makes (serialize (twoChildren elementNode) (fun _ => true) · 1)
        (nodeCalls (twoChildren elementNode) 1 .nil) := by
  refine ⟨twoChildren_forest _, twoChildren_built, rfl, rfl, ?_⟩
  rintro ⟨fuel, w, hr, -, hc, -⟩
  exact serialize_sibling twoChildren_built rfl rfl rfl hr hc

end Subtree

end Axis2C.Om
