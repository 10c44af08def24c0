import Axis2C.XPathEngine
import Mathlib.Data.List.Nodup
import Mathlib.Tactic

/-!
# Results of location paths and unions

An evaluation pushes as many results as it says and takes none that were there. The
results of a location path are what the ways along its axes lead to, one for each way.
-/
namespace Axis2C.XPath

variable {D : Type*} {doc : Document} {env : Env D}

section Visits

variable (doc env)

def visitStates {α : Type*} (enter : α → State D → State D) (test : NodeTest) (f : Evaluation D) :
    List α → State D → List (State D)
  | [], _ => []
  | a :: l, st =>
    let st := enter a st
    st :: visitStates enter test f l
      (if nodeTestMatch doc env test st.context then (f st).2 else st)

/-- The visits of an iterator, in order, each with its state: one for each node, attribute
or namespace that the axis goes through. -/
def visits (axis : Axis) (test : NodeTest) (f : Evaluation D) (st : State D) : List (State D) :=
  match st.context.node with
  | none => []
  | some n =>
    let nodes : List ℕ → State D → List (State D) :=
      visitStates doc env (fun n st => st.setNode (some n)) test f
    let after := if nodeTestMatch doc env test st.context then (f st).2 else st
    match axis with
    | .child => nodes (doc.nextSiblings (doc.firstChild n)) st
    | .descendant => nodes (doc.descendants (doc.firstChild n)) st
    | .parent => nodes (doc.parent n).toList st
    | .ancestor => nodes (doc.parents (doc.parent n)) st
    | .followingSibling => nodes (doc.nextSiblings (doc.next n)) st
    | .precedingSibling => nodes (doc.previousSiblings (doc.prev n)) st
    | .following => nodes (doc.followingNodes n) st
    | .preceding => nodes (doc.precedingNodes n) st
    | .self => [st]
    | .descendantOrSelf =>
      st :: nodes (doc.descendants (after.context.node.bind doc.firstChild)) after
    | .ancestorOrSelf => st :: nodes (doc.parents (after.context.node.bind doc.parent)) after
    | .attr =>
      if doc.nodeType n = .element then
        visitStates doc env (fun a st => st.setAttr (some a)) test f (doc.attributes n)
          (st.setNode none)
      else []
    | .ns =>
      if doc.nodeType n = .element then
        visitStates doc env (fun m st => st.setNs (some m)) test f (doc.namespaces n)
          (st.setNode none)
      else []

/-- What an iterator does from a node: it goes through nodes, through nodes after the
context node itself, through attributes or namespaces, or does nothing. -/
inductive Iteration (axis : Axis) (test : NodeTest) (n : ℕ) : Prop where
  | nodes (l : List ℕ) (h : ∀ (f : Evaluation D) (st : State D), st.context.node = some n →
      iterator doc env axis test f st = ((visitNodes doc env test f l st).1,
        (visitNodes doc env test f l st).2.setNode (some n)) ∧
      visits doc env axis test f st =
        visitStates doc env (fun n st => st.setNode (some n)) test f l st)
  | selfAnd (found : Option ℕ → List ℕ)
      (h : ∀ (f : Evaluation D) (st : State D), st.context.node = some n →
        iterator doc env axis test f st = ((visitSelfAnd doc env found test f st).1,
          (visitSelfAnd doc env found test f st).2.setNode (some n)) ∧
        visits doc env axis test f st =
          st :: visitStates doc env (fun n st => st.setNode (some n)) test f
            (found (if nodeTestMatch doc env test st.context then (f st).2 else st).context.node)
            (if nodeTestMatch doc env test st.context then (f st).2 else st))
  | attrs (haxis : axis = .attr) (l : List ℕ)
      (h : ∀ (f : Evaluation D) (st : State D), st.context.node = some n →
      iterator doc env axis test f st =
        ((visitEach doc env (fun a st => st.setAttr (some a)) test f l (st.setNode none)).1,
          ((visitEach doc env (fun a st => st.setAttr (some a)) test f l
            (st.setNode none)).2.setNode (some n)).setAttr none) ∧
      visits doc env axis test f st =
        visitStates doc env (fun a st => st.setAttr (some a)) test f l (st.setNode none))
  | nss (haxis : axis = .ns) (l : List ℕ)
      (h : ∀ (f : Evaluation D) (st : State D), st.context.node = some n →
      iterator doc env axis test f st =
        ((visitEach doc env (fun m st => st.setNs (some m)) test f l (st.setNode none)).1,
          ((visitEach doc env (fun m st => st.setNs (some m)) test f l
            (st.setNode none)).2.setNode (some n)).setNs none) ∧
      visits doc env axis test f st =
        visitStates doc env (fun m st => st.setNs (some m)) test f l (st.setNode none))
  | nothing (h : ∀ (f : Evaluation D) (st : State D), st.context.node = some n →
      iterator doc env axis test f st = (0, st) ∧ visits doc env axis test f st = [])

lemma iteration (axis : Axis) (test : NodeTest) (n : ℕ) : Iteration doc env axis test n := by
  cases axis with
  | child | descendant | parent | ancestor | followingSibling | precedingSibling | following
  | preceding =>
    apply Iteration.nodes
    intro f st hn
    unfold iterator visits
    rw [hn]
    exact ⟨rfl, rfl⟩
  | self | descendantOrSelf | ancestorOrSelf =>
    apply Iteration.selfAnd
    intro f st hn
    unfold iterator visits
    rw [hn]
    exact ⟨rfl, rfl⟩
  | attr =>
    by_cases h : doc.nodeType n = .element
    · refine .attrs rfl (doc.attributes n) fun f st hn => ?_
      unfold iterator visits
      rw [hn]
      dsimp only
      rw [if_pos h, if_pos h]
      exact ⟨rfl, rfl⟩
    · refine .nothing fun f st hn => ?_
      unfold iterator visits
      rw [hn]
      dsimp only
      rw [if_neg h, if_neg h]
      exact ⟨rfl, rfl⟩
  | ns =>
    by_cases h : doc.nodeType n = .element
    · refine .nss rfl (doc.namespaces n) fun f st hn => ?_
      unfold iterator visits
      rw [hn]
      dsimp only
      rw [if_pos h, if_pos h]
      exact ⟨rfl, rfl⟩
    · refine .nothing fun f st hn => ?_
      unfold iterator visits
      rw [hn]
      dsimp only
      rw [if_neg h, if_neg h]
      exact ⟨rfl, rfl⟩

end Visits

section Stacks

variable {f : Evaluation D}

/-- What an evaluation pushes is as much as it says, on top of what was there. -/
def Pushes (f : Evaluation D) : Prop :=
  ∀ st, ∃ pushed, (f st).2.stack = pushed ++ st.stack ∧ pushed.length = (f st).1

section

variable (st : State D)

include st

@[simp] lemma State.setNode_stack (n : Option ℕ) : (st.setNode n).stack = st.stack :=
  rfl

@[simp] lemma State.setAttr_stack (a : Option ℕ) : (st.setAttr a).stack = st.stack :=
  rfl

@[simp] lemma State.setNs_stack (n : Option ℕ) : (st.setNs n).stack = st.stack :=
  rfl

@[simp] lemma State.setPosition_stack (i n : ℕ) : (st.setPosition i n).stack = st.stack := rfl

@[simp] lemma State.push_stack (r : ResultNode D) : (st.push r).stack = r :: st.stack := rfl

@[simp] lemma State.drop_stack (n : ℕ) : (st.drop n).stack = st.stack.drop n := rfl

@[simp] lemma State.free_stack (ps : List Pointer) : (st.free ps).stack = st.stack :=
  rfl

@[simp] lemma State.tick_stack (place : ℕ) : (st.tick place).stack = st.stack := rfl

@[simp] lemma State.logOperands_stack (m n : Option ℕ) :
    (st.logOperands m n).stack = st.stack := rfl

end

lemma pushes_none : Pushes (fun st : State D => (0, st)) := fun _ => ⟨[], rfl, rfl⟩

/-- One evaluation after another. -/
lemma Pushes.comp {f g : Evaluation D} (hf : Pushes f) (hg : Pushes g) :
    Pushes fun st => ((f st).1 + (g (f st).2).1, (g (f st).2).2) := by
  intro st
  obtain ⟨p, hp, hplen⟩ := hf st
  obtain ⟨q, hq, hqlen⟩ := hg (f st).2
  refine ⟨q ++ p, ?_, ?_⟩
  · rw [hq, hp, List.append_assoc]
  · rw [List.length_append, hqlen, hplen, Nat.add_comm]

/-- Before and behind an evaluation the context may change. -/
lemma Pushes.within {f : Evaluation D} (hf : Pushes f) {enter leave : State D → State D}
    (henter : ∀ st, (enter st).stack = st.stack) (hleave : ∀ st, (leave st).stack = st.stack) :
    Pushes fun st => ((f (enter st)).1, leave (f (enter st)).2) := by
  intro st
  obtain ⟨p, hp, hplen⟩ := hf (enter st)
  exact ⟨p, by rw [hleave, hp, henter], hplen⟩

lemma Pushes.ite {f g : Evaluation D} (c : State D → Prop) [DecidablePred c] (hf : Pushes f)
    (hg : Pushes g) : Pushes fun st => if c st then f st else g st := by
  intro st
  by_cases h : c st
  · simpa [h] using hf st
  · simpa [h] using hg st

lemma Pushes.visitEach {α : Type*} {enter : α → State D → State D}
    (henter : ∀ a st, (enter a st).stack = st.stack) (test : NodeTest) {f : Evaluation D}
    (hf : Pushes f) (l : List α) : Pushes (visitEach doc env enter test f l) := by
  induction l with
  | nil => exact pushes_none
  | cons a l ih =>
    have hvisit := ((hf.ite (fun st => nodeTestMatch doc env test st.context = true)
      pushes_none).within (henter a) (fun _ => rfl)).comp ih
    exact hvisit

lemma Pushes.visitNodes (test : NodeTest) {f : Evaluation D} (hf : Pushes f) (l : List ℕ) :
    Pushes (visitNodes doc env test f l) :=
  hf.visitEach (fun n st => State.setNode_stack st (some n)) test l

lemma Pushes.visitSelfAnd (found : Option ℕ → List ℕ) (test : NodeTest) {f : Evaluation D}
    (hf : Pushes f) : Pushes (visitSelfAnd doc env found test f) := by
  have hself := hf.ite (fun st => nodeTestMatch doc env test st.context = true) pushes_none
  intro st
  have hrest (l : List ℕ) : Pushes (Axis2C.XPath.visitNodes doc env test f l) :=
    hf.visitNodes test l
  exact hself.comp (hrest _) st

lemma Pushes.iterator (axis : Axis) (test : NodeTest) (hf : Pushes f) :
    Pushes (iterator doc env axis test f) := by
  intro st
  cases hn : st.context.node with
  | none =>
    unfold Axis2C.XPath.iterator
    rw [hn]
    exact pushes_none st
  | some n =>
    cases iteration doc env axis test n with
    | nodes l h =>
      rw [(h f st hn).1]
      exact (hf.visitNodes test l).within (fun _ => rfl)
        (fun st => State.setNode_stack st (some n)) st
    | selfAnd found h =>
      rw [(h f st hn).1]
      exact (hf.visitSelfAnd found test).within (fun _ => rfl)
        (fun st => State.setNode_stack st (some n)) st
    | attrs _ l h =>
      rw [(h f st hn).1]
      have hleave (st : State D) : ((st.setNode (some n)).setAttr none).stack = st.stack := rfl
      exact (hf.visitEach (fun a st => State.setAttr_stack st (some a)) test l).within
        (fun st => State.setNode_stack st none) hleave st
    | nss _ l h =>
      rw [(h f st hn).1]
      have hleave (st : State D) : ((st.setNode (some n)).setNs none).stack = st.stack := rfl
      exact (hf.visitEach (fun m st => State.setNs_stack st (some m)) test l).within
        (fun st => State.setNode_stack st none) hleave st
    | nothing h =>
      rw [(h f st hn).1]
      exact pushes_none st

lemma Pushes.evaluateTest
    (test : List (ResultNode D) → List (ResultNode D) → Bool × List Pointer) {f1 f2 : Evaluation D}
    (hf1 : Pushes f1) (hf2 : Pushes f2) :
    Pushes (evaluateTest env test false false f1 f2) := by
  intro st
  obtain ⟨p, hp, hplen⟩ := hf1 st
  obtain ⟨q, hq, hqlen⟩ := hf2 (f1 st).2
  have hdrop : ((f2 (f1 st).2).2.stack).drop ((f1 st).1 + (f2 (f1 st).2).1) = st.stack := by
    rw [hq, hp, ← hplen, ← hqlen, Nat.add_comm, ← List.length_append, ← List.append_assoc,
      List.drop_left]
  have hstack : ∃ b, (Axis2C.XPath.evaluateTest env test false false f1 f2 st).2.stack =
      .boolean b :: st.stack := by
    simp only [Axis2C.XPath.evaluateTest, evaluateBoth, Bool.false_eq_true, if_false,
      State.push_stack, State.free_stack, State.drop_stack, State.logOperands_stack, hdrop]
    exact ⟨_, rfl⟩
  obtain ⟨b, hb⟩ := hstack
  exact ⟨[.boolean b], hb, rfl⟩

lemma Pushes.visitFiltered (size : ℕ) (hf : Pushes f) (l : List (ResultNode D)) (i : ℕ) :
    Pushes (visitFiltered size f i l) := by
  induction l generalizing i with
  | nil => exact pushes_none
  | cons r l ih =>
    cases r with
    | node n =>
      have henter (st : State D) :
          ((st.setNode (some n)).setPosition (i + 1) size).stack = st.stack := rfl
      exact (hf.within henter (fun _ => rfl)).comp (ih (i + 1))
    | attr a | ns m | text p t | number p v | boolean b | unset => exact ih (i + 1)

lemma foldl_push_stack (results : List (ResultNode D)) (st : State D) :
    (results.foldl State.push st).stack = results.reverse ++ st.stack := by
  induction results generalizing st with
  | nil => rfl
  | cons r results ih => simp [ih]

lemma evaluatePredicateCondition_stack (n : ℕ) (st : State D) :
    (evaluatePredicateCondition env n st).2.stack = st.stack.drop n := by
  match n with
  | 0 => rfl
  | 1 =>
    unfold evaluatePredicateCondition
    dsimp only
    split <;> rfl
  | n + 2 => rfl

lemma testPredicate_stack (place : ℕ) (isEnd : Bool) (hf : Pushes f) (st : State D) :
    (testPredicate env place isEnd f st).2.stack = st.stack := by
  unfold testPredicate
  cases isEnd with
  | true => rfl
  | false =>
    obtain ⟨p, hp, hplen⟩ := hf (st.tick place)
    simp only [Bool.false_eq_true, if_false, evaluatePredicateCondition_stack,
      State.setPosition_stack]
    rw [hp, ← hplen, List.drop_left, State.tick_stack]

lemma Pushes.evaluatePredicate {place : ℕ} {op1 predicate : Operation D} {next : Evaluation D}
    (hop1 : Pushes (evaluateOperation doc env op1))
    (hnext : Pushes (evaluatePredicate doc env predicate next)) :
    Pushes (evaluatePredicate doc env (.predicate place op1 predicate) next) := by
  intro st
  have htest : (testPredicate env place op1.isEnd (evaluateOperation doc env op1) st).2.stack =
      st.stack := testPredicate_stack place op1.isEnd hop1 st
  rw [Axis2C.XPath.evaluatePredicate]
  dsimp only
  split
  · obtain ⟨p, hp, hplen⟩ := hnext
      ((testPredicate env place op1.isEnd (evaluateOperation doc env op1) st).2.setNode
        st.context.node)
    exact ⟨p, by rw [hp, State.setNode_stack, htest], hplen⟩
  · exact ⟨[], htest, rfl⟩

def Operation.complete : Operation D → Bool
  | .parseEnd | .result | .literal _ _ | .number _ _ => true
  | .rootNode op1 | .contextNode op1 | .functionCall _ op1 => op1.complete
  | .equalExpr op1 op2 | .andExpr op1 op2 | .orExpr op1 op2 =>
    !op1.isEnd && !op2.isEnd && op1.complete && op2.complete
  | .union op1 op2 | .pathExpression op1 op2 | .argument op1 op2 | .predicate _ op1 op2 =>
    op1.complete && op2.complete
  | .step _ _ pred next => pred.complete && next.complete

lemma evaluateTest_pushes
    {test : List (ResultNode D) → List (ResultNode D) → Bool × List Pointer} {op1 op2 : Operation D}
    (hop : (!op1.isEnd && !op2.isEnd && op1.complete && op2.complete) = true)
    (h1 : op1.complete = true → Pushes (evaluateOperation doc env op1))
    (h2 : op2.complete = true → Pushes (evaluateOperation doc env op2)) :
    Pushes (evaluateTest env test op1.isEnd op2.isEnd (evaluateOperation doc env op1)
      (evaluateOperation doc env op2)) := by
  simp only [Bool.and_eq_true, Bool.not_eq_true'] at hop
  obtain ⟨⟨⟨he1, he2⟩, hc1⟩, hc2⟩ := hop
  rw [he1, he2]
  exact (h1 hc1).evaluateTest test (h2 hc2)

lemma evaluateOperation_pushes (op : Operation D) (hop : op.complete = true) :
    Pushes (evaluateOperation doc env op) ∧
      ∀ next, Pushes next → Pushes (evaluatePredicate doc env op next) := by
  induction op with
  | parseEnd => exact ⟨pushes_none, fun next hnext => hnext⟩
  | rootNode op1 ih =>
    refine ⟨?_, fun next hnext => hnext⟩
    have h := ((ih hop).1.within (fun st => State.setNode_stack st (some doc.root))
      (fun _ => rfl))
    exact pushes_none.ite (fun _ => op1.isEnd = true) h
  | contextNode op1 ih =>
    exact ⟨pushes_none.ite (fun _ => op1.isEnd = true) (ih hop).1, fun next hnext => hnext⟩
  | step axis test predicate next ihp ihn =>
    simp only [Operation.complete, Bool.and_eq_true] at hop
    refine ⟨?_, fun next hnext => hnext⟩
    exact pushes_none.ite (fun _ => next.isEnd = true)
      (((ihp hop.1).2 _ (ihn hop.2).1).iterator axis test)
  | result => exact ⟨fun st => ⟨[collect st.context], rfl, rfl⟩, fun next hnext => hnext⟩
  | union op1 op2 ih1 ih2 =>
    simp only [Operation.complete, Bool.and_eq_true] at hop
    refine ⟨?_, fun next hnext => hnext⟩
    have h1 := pushes_none.ite (fun _ => op1.isEnd = true) (ih1 hop.1).1
    have h2 := pushes_none.ite (fun _ => op2.isEnd = true) (ih2 hop.2).1
    exact fun st => h1.comp h2 st
  | equalExpr op1 op2 ih1 ih2 | andExpr op1 op2 ih1 ih2 | orExpr op1 op2 ih1 ih2 =>
    exact ⟨evaluateTest_pushes hop (fun h => (ih1 h).1) (fun h => (ih2 h).1),
      fun next hnext => hnext⟩
  | predicate place op1 next ih1 ihn =>
    simp only [Operation.complete, Bool.and_eq_true] at hop
    exact ⟨pushes_none, fun n hn => ((ih1 hop.1).1).evaluatePredicate ((ihn hop.2).2 n hn)⟩
  | literal place value | number place value =>
    exact ⟨fun st => ⟨[_], rfl, rfl⟩, fun next hnext => hnext⟩
  | pathExpression op1 op2 ih1 ih2 =>
    simp only [Operation.complete, Bool.and_eq_true] at hop
    refine ⟨?_, fun next hnext => hnext⟩
    refine pushes_none.ite (fun _ => op1.isEnd = true) ?_
    refine (ih1 hop.1).1.ite (fun _ => op2.isEnd = true) ?_
    intro st
    obtain ⟨p, hp, hplen⟩ := (ih1 hop.1).1 st
    obtain ⟨q, hq, hqlen⟩ := (ih2 hop.2).1.visitFiltered (evaluateOperation doc env op1 st).1
      ((evaluateOperation doc env op1 st).2.stack.take (evaluateOperation doc env op1 st).1) 0
      ((evaluateOperation doc env op1 st).2.drop (evaluateOperation doc env op1 st).1)
    refine ⟨q, ?_, hqlen⟩
    rw [hq, State.drop_stack, hp, ← hplen, List.drop_left]
  | functionCall name op1 ih =>
    refine ⟨?_, fun next hnext => hnext⟩
    intro st
    rw [evaluateOperation]
    cases env.functions name with
    | none => exact pushes_none st
    | some func =>
      obtain ⟨p, hp, hplen⟩ := pushes_none.ite (fun _ => op1.isEnd = true) (ih hop).1 st
      refine ⟨_, foldl_push_stack _ _ |>.trans ?_, List.length_reverse⟩
      rw [State.drop_stack, hp, ← hplen, List.drop_left]
  | argument op1 op2 ih1 ih2 =>
    simp only [Operation.complete, Bool.and_eq_true] at hop
    refine ⟨?_, fun next hnext => hnext⟩
    have h1 := pushes_none.ite (fun _ => op1.isEnd = true) (ih1 hop.1).1
    have h2 := pushes_none.ite (fun _ => op2.isEnd = true) (ih1 hop.1).1
    exact fun st => h1.comp h2 st

end Stacks

section Ways

variable (doc env)

/-- The state behind the predicates, when all of them hold. -/
def passes : Operation D → State D → Option (State D)
  | .predicate place op1 pred, st =>
    let r := testPredicate env place op1.isEnd (evaluateOperation doc env op1) st
    if r.1 then passes pred (r.2.setNode st.context.node) else none
  | _, st => some st

/-- A way along an expression, from a state to a result: at each step the number of the
visit that is followed, which passes the node test and the predicates, and at a union the
number of the operand. -/
inductive Way : Operation D → State D → List ℕ → ResultNode D → Prop where
  | result {st : State D} : Way .result st [] (collect st.context)
  | rootNode {op1 : Operation D} {st : State D} {way : List ℕ} {r : ResultNode D} :
      Way op1 (st.setNode (some doc.root)) way r → Way (.rootNode op1) st way r
  | contextNode {op1 : Operation D} {st : State D} {way : List ℕ} {r : ResultNode D} :
      Way op1 st way r → Way (.contextNode op1) st way r
  | step {axis : Axis} {test : NodeTest} {pred next : Operation D} {st visited passed : State D}
      {i : ℕ} {way : List ℕ} {r : ResultNode D} :
      (visits doc env axis test (evaluatePredicate doc env pred (evaluateOperation doc env next))
        st)[i]? = some visited →
      nodeTestMatch doc env test visited.context = true →
      passes doc env pred visited = some passed →
      Way next passed way r → Way (.step axis test pred next) st (i :: way) r
  | unionFirst {op1 op2 : Operation D} {st : State D} {way : List ℕ} {r : ResultNode D} :
      Way op1 st way r → Way (.union op1 op2) st (0 :: way) r
  | unionSecond {op1 op2 : Operation D} {st : State D} {way : List ℕ} {r : ResultNode D} :
      Way op2 (evaluateOperation doc env op1 st).2 way r → Way (.union op1 op2) st (1 :: way) r

/-- An expression of location paths and unions, with any predicates. -/
def Operation.isPaths : Operation D → Bool
  | .parseEnd | .result => true
  | .rootNode op1 | .contextNode op1 => op1.isPaths
  | .step _ _ pred next => pred.complete && next.isPaths
  | .union op1 op2 => op1.isPaths && op2.isPaths
  | _ => false

/-- Nodes, attributes and namespaces. -/
def ResultNode.isItem : ResultNode D → Bool
  | .node _ | .attr _ | .ns _ => true
  | _ => false

end Ways

section Counting

lemma nodup_flatMap_iff {σ β : Type*} {V : List σ} {g : σ → List β} {W : σ → List ℕ → β → Prop}
    (p : β → Bool) (hmem : ∀ s r, r ∈ g s ↔ ∃ c, W s c r)
    (hnodup : ∀ s, ((g s).filter p).Nodup ↔
      ∀ c c' r, p r = true → W s c r → W s c' r → c = c') :
    ((V.flatMap g).filter p).Nodup ↔ ∀ (i i' : ℕ) s s' c c' r, p r = true → V[i]? = some s →
      V[i']? = some s' → W s c r → W s' c' r → i = i' ∧ c = c' := by
  rw [List.filter_flatMap, List.nodup_flatMap]
  have hfilter (s : σ) (r : β) : r ∈ (g s).filter p ↔ (∃ c, W s c r) ∧ p r = true := by
    rw [List.mem_filter, hmem]
  constructor
  · rintro ⟨hn, hpair⟩ i i' s s' c c' r hr hi hi' hw hw'
    obtain ⟨hlt, hs⟩ := List.getElem?_eq_some_iff.mp hi
    obtain ⟨hlt', hs'⟩ := List.getElem?_eq_some_iff.mp hi'
    have hmeet : ¬ List.Disjoint ((g s).filter p) ((g s').filter p) := fun hd =>
      hd ((hfilter s r).mpr ⟨⟨c, hw⟩, hr⟩) ((hfilter s' r).mpr ⟨⟨c', hw'⟩, hr⟩)
    rw [List.pairwise_iff_getElem] at hpair
    rcases lt_trichotomy i i' with h | rfl | h
    · refine absurd ?_ hmeet
      have := hpair i i' hlt hlt' h
      rwa [hs, hs'] at this
    · obtain rfl : s = s' := by rw [← hs, ← hs']
      exact ⟨rfl, (hnodup s).mp (hn s (hs ▸ List.getElem_mem hlt)) c c' r hr hw hw'⟩
    · refine absurd ?_ hmeet
      have := hpair i' i hlt' hlt h
      rw [hs, hs'] at this
      exact this.symm
  · intro h
    refine ⟨?_, ?_⟩
    · intro s hs
      obtain ⟨i, hi⟩ := List.mem_iff_getElem?.mp hs
      exact (hnodup s).mpr fun c c' r hr hw hw' => (h i i s s c c' r hr hi hi hw hw').2
    · rw [List.pairwise_iff_getElem]
      intro i j hi hj hij r hri hrj
      obtain ⟨⟨c, hw⟩, hr⟩ := (hfilter _ r).mp hri
      obtain ⟨⟨c', hw'⟩, -⟩ := (hfilter _ r).mp hrj
      have := (h i j _ _ c c' r hr (List.getElem?_eq_getElem hi) (List.getElem?_eq_getElem hj)
        hw hw').1
      omega

end Counting

section Collected

variable {f : Evaluation D}

def pushed (f : Evaluation D) (st : State D) : List (ResultNode D) :=
  ((f st).2.stack.take (f st).1).reverse

lemma pushed_of_stack {st : State D} {l : List (ResultNode D)} (hs : (f st).2.stack = l ++ st.stack)
    (hl : l.length = (f st).1) :
    pushed f st = l.reverse := by
  rw [pushed, hs, ← hl, List.take_left]

lemma Pushes.stack_eq (hf : Pushes f) (st : State D) :
    (f st).2.stack = (pushed f st).reverse ++ st.stack := by
  obtain ⟨l, hs, hl⟩ := hf st
  rw [pushed_of_stack hs hl, List.reverse_reverse, hs]

lemma Pushes.length_pushed (hf : Pushes f) (st : State D) :
    (pushed f st).length = (f st).1 := by
  obtain ⟨l, hs, hl⟩ := hf st
  rw [pushed_of_stack hs hl, List.length_reverse, hl]

lemma pushed_comp {f g : Evaluation D} (hf : Pushes f) (hg : Pushes g) (st : State D) :
    pushed (fun st => ((f st).1 + (g (f st).2).1, (g (f st).2).2)) st =
      pushed f st ++ pushed g (f st).2 := by
  have hlength : ((pushed f st ++ pushed g (f st).2).reverse).length =
      (f st).1 + (g (f st).2).1 := by
    rw [List.length_reverse, List.length_append, hf.length_pushed, hg.length_pushed]
  rw [pushed_of_stack (l := (pushed f st ++ pushed g (f st).2).reverse) ?_ hlength,
    List.reverse_reverse]
  rw [hg.stack_eq, hf.stack_eq, List.reverse_append, List.append_assoc]

lemma pushed_tested (test : NodeTest) (f : Evaluation D) (st : State D) :
    pushed (fun st => if nodeTestMatch doc env test st.context then f st else (0, st)) st =
      if nodeTestMatch doc env test st.context then pushed f st else [] := by
  by_cases h : nodeTestMatch doc env test st.context = true
  · simp [pushed, h]
  · simp [pushed, h]

lemma Pushes.tested (test : NodeTest) {f : Evaluation D} (hf : Pushes f) :
    Pushes fun st => if nodeTestMatch doc env test st.context then f st else (0, st) :=
  hf.ite (fun st => nodeTestMatch doc env test st.context = true) pushes_none

/-- The results of the visits that pass the node test. -/
lemma pushed_visitEach {α : Type*} {enter : α → State D → State D}
    (henter : ∀ a st, (enter a st).stack = st.stack) (test : NodeTest) (hf : Pushes f) (l : List α)
    (st : State D) :
    pushed (visitEach doc env enter test f l) st =
      (visitStates doc env enter test f l st).flatMap fun st =>
        if nodeTestMatch doc env test st.context then pushed f st else [] := by
  induction l generalizing st with
  | nil => rfl
  | cons a l ih =>
    have hvisit : Pushes fun st => if nodeTestMatch doc env test (enter a st).context then
        f (enter a st) else (0, enter a st) :=
      (hf.tested test).within (henter a) (fun _ => rfl)
    refine (pushed_comp hvisit (hf.visitEach henter test l) st).trans ?_
    rw [ih, visitStates, List.flatMap_cons]
    congr 1
    · exact pushed_tested test f (enter a st)
    · by_cases h : nodeTestMatch doc env test (enter a st).context = true
      · simp only [h, if_true]
      · simp only [h]
        rfl

lemma pushed_visitSelfAnd (found : Option ℕ → List ℕ) (test : NodeTest) (hf : Pushes f)
    (st : State D) :
    pushed (visitSelfAnd doc env found test f) st =
      (st :: visitStates doc env (fun n st => st.setNode (some n)) test f
        (found (if nodeTestMatch doc env test st.context then (f st).2 else st).context.node)
        (if nodeTestMatch doc env test st.context then (f st).2 else st)).flatMap fun st =>
        if nodeTestMatch doc env test st.context then pushed f st else [] := by
  have hself : ((if nodeTestMatch doc env test st.context then f st else (0, st)) :
      ℕ × State D).2 = if nodeTestMatch doc env test st.context then (f st).2 else st := by
    split <;> rfl
  refine (pushed_comp (hf.tested test) (hf.visitNodes test _) st).trans ?_
  rw [pushed_tested, List.flatMap_cons, hself]
  congr 1
  exact pushed_visitEach (fun n st => State.setNode_stack st (some n)) test hf _ _

/-- An iterator's results are those of its visits. -/
lemma pushed_iterator (axis : Axis) (test : NodeTest) (hf : Pushes f) (st : State D) :
    pushed (iterator doc env axis test f) st =
      (visits doc env axis test f st).flatMap fun st =>
        if nodeTestMatch doc env test st.context then pushed f st else [] := by
  cases hn : st.context.node with
  | none =>
    unfold pushed iterator visits
    rw [hn]
    rfl
  | some n =>
    cases iteration doc env axis test n with
    | nodes l h =>
      rw [pushed, (h f st hn).1, (h f st hn).2]
      exact pushed_visitEach (fun n st => State.setNode_stack st (some n)) test hf l st
    | selfAnd found h =>
      rw [pushed, (h f st hn).1, (h f st hn).2]
      exact pushed_visitSelfAnd found test hf st
    | attrs _ l h =>
      rw [pushed, (h f st hn).1, (h f st hn).2]
      exact pushed_visitEach (fun a st => State.setAttr_stack st (some a)) test hf l _
    | nss _ l h =>
      rw [pushed, (h f st hn).1, (h f st hn).2]
      exact pushed_visitEach (fun m st => State.setNs_stack st (some m)) test hf l _
    | nothing h =>
      rw [pushed, (h f st hn).1, (h f st hn).2]
      rfl

lemma pushed_evaluatePredicate (pred : Operation D) (next : Evaluation D) (st : State D) :
    pushed (evaluatePredicate doc env pred next) st =
      (passes doc env pred st).elim [] (pushed next) := by
  induction pred generalizing st with
  | predicate place op1 pred _ ih =>
    rw [passes, pushed, evaluatePredicate]
    dsimp only
    split
    · exact ih _
    · rfl
  | _ => rfl

lemma pushed_step (axis : Axis) (test : NodeTest) {pred next : Operation D}
    (hpred : pred.complete = true) (hnext : Pushes (evaluateOperation doc env next))
    (st : State D) :
    pushed (evaluateOperation doc env (.step axis test pred next)) st =
      (visits doc env axis test (evaluatePredicate doc env pred (evaluateOperation doc env next))
        st).flatMap fun st =>
          if nodeTestMatch doc env test st.context then
            (passes doc env pred st).elim [] (pushed (evaluateOperation doc env next))
          else [] := by
  have hpushes := (@evaluateOperation_pushes D doc env pred hpred).2 _ hnext
  rw [pushed, evaluateOperation]
  dsimp only
  split
  · next hend =>
      -- without a next step nothing is visited, and a visit would push nothing
      cases next with
      | parseEnd =>
        symm
        simp only [List.take_zero, List.reverse_nil, List.flatMap_eq_nil_iff]
        intro visited _
        split
        · cases passes doc env pred visited with
          | none | some passed => rfl
        · rfl
      | _ => cases hend
  · refine (pushed_iterator axis test hpushes st).trans ?_
    simp only [pushed_evaluatePredicate]

end Collected

section NodeSets

variable {op : Operation D}

lemma Operation.complete_of_isPaths (h : op.isPaths = true) :
    op.complete = true := by
  induction op with
  | parseEnd | result => rfl
  | rootNode op1 ih | contextNode op1 ih => exact ih h
  | step axis test pred next ihp ihn =>
    simp only [isPaths, Bool.and_eq_true] at h
    simp [complete, h.1, ihn h.2]
  | union op1 op2 ih1 ih2 =>
    simp only [isPaths, Bool.and_eq_true] at h
    simp [complete, ih1 h.1, ih2 h.2]
  | _ => cases h

variable (doc env)

/-- The ways to a result tell how often it is pushed: there is one for each result, and no
item is pushed twice when there are no two ways to it. -/
structure Counted (op : Operation D) (st : State D) : Prop where
  mem : ∀ r, r ∈ pushed (evaluateOperation doc env op) st ↔ ∃ way, Way doc env op st way r
  nodup : ((pushed (evaluateOperation doc env op) st).filter ResultNode.isItem).Nodup ↔
    ∀ way way' r, r.isItem = true → Way doc env op st way r → Way doc env op st way' r →
      way = way'

variable {doc env}

/-- An operation that goes through others in turn, each with its number. -/
lemma Counted.of_flatMap {op : Operation D} {st : State D} {σ : Type*} {V : List σ}
    {g : σ → List (ResultNode D)} {W : σ → List ℕ → ResultNode D → Prop}
    (hpushed : pushed (evaluateOperation doc env op) st = V.flatMap g)
    (hway : ∀ way r, Way doc env op st way r ↔
      ∃ i s way', way = i :: way' ∧ V[i]? = some s ∧ W s way' r)
    (hmem : ∀ s r, r ∈ g s ↔ ∃ c, W s c r)
    (hnodup : ∀ s, ((g s).filter ResultNode.isItem).Nodup ↔
      ∀ c c' r, r.isItem = true → W s c r → W s c' r → c = c') : Counted doc env op st := by
  refine ⟨?_, ?_⟩
  · intro r
    rw [hpushed, List.mem_flatMap]
    constructor
    · rintro ⟨s, hs, hr⟩
      obtain ⟨i, hi⟩ := List.mem_iff_getElem?.mp hs
      obtain ⟨c, hc⟩ := (hmem s r).mp hr
      exact ⟨i :: c, (hway _ r).mpr ⟨i, s, c, rfl, hi, hc⟩⟩
    · rintro ⟨way, hr⟩
      obtain ⟨i, s, c, -, hi, hc⟩ := (hway way r).mp hr
      exact ⟨s, List.mem_iff_getElem?.mpr ⟨i, hi⟩, (hmem s r).mpr ⟨c, hc⟩⟩
  · rw [hpushed, nodup_flatMap_iff ResultNode.isItem hmem hnodup]
    constructor
    · intro h way way' r hr hw hw'
      obtain ⟨i, s, c, rfl, hi, hc⟩ := (hway way r).mp hw
      obtain ⟨i', s', c', rfl, hi', hc'⟩ := (hway way' r).mp hw'
      obtain ⟨rfl, rfl⟩ := h i i' s s' c c' r hr hi hi' hc hc'
      rfl
    · intro h i i' s s' c c' r hr hi hi' hc hc'
      have := h (i :: c) (i' :: c') r hr ((hway _ r).mpr ⟨i, s, c, rfl, hi, hc⟩)
        ((hway _ r).mpr ⟨i', s', c', rfl, hi', hc'⟩)
      exact List.cons.inj this

/-- An operation that only changes the context. -/
lemma Counted.of_eq {op op1 : Operation D} {st st1 : State D}
    (hpushed : pushed (evaluateOperation doc env op) st =
      pushed (evaluateOperation doc env op1) st1)
    (hway : ∀ way r, Way doc env op st way r ↔ Way doc env op1 st1 way r)
    (h : Counted doc env op1 st1) : Counted doc env op st := by
  refine ⟨?_, ?_⟩
  · simpa only [hpushed, hway] using h.mem
  · simpa only [hpushed, hway] using h.nodup

lemma counted_parseEnd (st : State D) : Counted doc env .parseEnd st := by
  have hnone : ∀ way r, ¬ Way doc env (.parseEnd : Operation D) st way r := by
    intro way r hw
    cases hw
  exact ⟨fun r => by simp [pushed, evaluateOperation, hnone],
    by simp [pushed, evaluateOperation, hnone]⟩

lemma counted_result (st : State D) : Counted doc env .result st := by
  have hway : ∀ way r, Way doc env (.result : Operation D) st way r ↔
      way = [] ∧ r = collect st.context := by
    intro way r
    constructor
    · intro hw
      cases hw
      exact ⟨rfl, rfl⟩
    · rintro ⟨rfl, rfl⟩
      exact .result
  have hpushed : pushed (evaluateOperation doc env .result) st = [collect st.context] := by
    simp [pushed, evaluateOperation]
  refine ⟨fun r => by simp [hpushed, hway], ?_⟩
  rw [hpushed]
  constructor
  · intro _ way way' r _ hw hw'
    rw [((hway _ _).mp hw).1, ((hway _ _).mp hw').1]
  · intro _
    exact ((List.nodup_singleton _).filter _)

lemma Counted.step (axis : Axis) (test : NodeTest) {pred next : Operation D}
    (hpred : pred.complete = true) (hpushes : Pushes (evaluateOperation doc env next))
    (hnext : ∀ st, Counted doc env next st) (st : State D) :
    Counted doc env (.step axis test pred next) st := by
  refine Counted.of_flatMap (pushed_step axis test hpred hpushes st)
    (W := fun visited way r => nodeTestMatch doc env test visited.context = true ∧
      ∃ passed, passes doc env pred visited = some passed ∧ Way doc env next passed way r)
    ?_ ?_ ?_
  · intro way r
    constructor
    · intro hw
      cases hw with
      | step hi hmatch hpass hw => exact ⟨_, _, _, rfl, hi, hmatch, _, hpass, hw⟩
    · rintro ⟨i, visited, way', rfl, hi, hmatch, passed, hpass, hw⟩
      exact .step hi hmatch hpass hw
  · intro visited r
    by_cases hmatch : nodeTestMatch doc env test visited.context = true
    · cases hpass : passes doc env pred visited with
      | none => simp [hmatch]
      | some passed => simp [hmatch, (hnext passed).mem]
    · simp [hmatch]
  · intro visited
    by_cases hmatch : nodeTestMatch doc env test visited.context = true
    · cases hpass : passes doc env pred visited with
      | none => simp [hmatch]
      | some passed => simpa [hmatch] using (hnext passed).nodup
    · simp [hmatch]

lemma evaluateOperation_isEnd (op : Operation D) (st : State D) :
    (if op.isEnd then (0, st) else evaluateOperation doc env op st) =
      evaluateOperation doc env op st := by
  cases op <;> simp [Operation.isEnd, evaluateOperation]

lemma pushed_rootNode (op1 : Operation D) (st : State D) :
    pushed (evaluateOperation doc env (.rootNode op1)) st =
      pushed (evaluateOperation doc env op1) (st.setNode (some doc.root)) := by
  cases op1 <;> simp [pushed, evaluateOperation, Operation.isEnd]

lemma pushed_union {op1 op2 : Operation D} (h1 : Pushes (evaluateOperation doc env op1))
    (h2 : Pushes (evaluateOperation doc env op2)) (st : State D) :
    pushed (evaluateOperation doc env (.union op1 op2)) st =
      pushed (evaluateOperation doc env op1) st ++
        pushed (evaluateOperation doc env op2) (evaluateOperation doc env op1 st).2 := by
  rw [← pushed_comp h1 h2]
  simp only [pushed, evaluateOperation, evaluateBoth, evaluateOperation_isEnd,
    State.logOperands_stack]

lemma Counted.union {op1 op2 : Operation D} (hpushes1 : Pushes (evaluateOperation doc env op1))
    (hpushes2 : Pushes (evaluateOperation doc env op2)) (h1 : ∀ st, Counted doc env op1 st)
    (h2 : ∀ st, Counted doc env op2 st) (st : State D) : Counted doc env (.union op1 op2) st := by
  -- the operands by their number
  let g : Bool → List (ResultNode D) := fun second =>
    if second then pushed (evaluateOperation doc env op2) (evaluateOperation doc env op1 st).2
    else pushed (evaluateOperation doc env op1) st
  let W : Bool → List ℕ → ResultNode D → Prop := fun second =>
    if second then Way doc env op2 (evaluateOperation doc env op1 st).2 else Way doc env op1 st
  refine Counted.of_flatMap (V := [false, true]) (g := g) (W := W) ?_ ?_ ?_ ?_
  · simp [pushed_union hpushes1 hpushes2, g]
  · intro way r
    constructor
    · intro hw
      cases hw with
      | unionFirst hw => exact ⟨0, false, _, rfl, rfl, hw⟩
      | unionSecond hw => exact ⟨1, true, _, rfl, rfl, hw⟩
    · rintro ⟨i, second, way', rfl, hi, hw⟩
      match i, second, hi, hw with
      | 0, false, _, hw => exact .unionFirst hw
      | 1, true, _, hw => exact .unionSecond hw
  · intro second r
    cases second with
    | false => exact (h1 st).mem r
    | true => exact (h2 _).mem r
  · intro second
    cases second with
    | false => exact (h1 st).nodup
    | true => exact (h2 _).nodup

lemma counted_of_isPaths (hop : op.isPaths = true) (st : State D) :
    Counted doc env op st := by
  have hpushes {op : Operation D} (hop : op.isPaths = true) :
      Pushes (evaluateOperation doc env op) :=
    (evaluateOperation_pushes op (Operation.complete_of_isPaths hop)).1
  induction op generalizing st with
  | parseEnd => exact counted_parseEnd st
  | result => exact counted_result st
  | rootNode op1 ih =>
    refine Counted.of_eq (pushed_rootNode op1 st) ?_ (ih hop (st.setNode (some doc.root)))
    · intro way r
      exact ⟨fun hw => by cases hw; assumption, .rootNode⟩
  | contextNode op1 ih =>
    refine Counted.of_eq ?_ ?_ (ih hop st)
    · simp only [pushed, evaluateOperation, evaluateOperation_isEnd]
    · intro way r
      exact ⟨fun hw => by cases hw; assumption, .contextNode⟩
  | step axis test pred next _ ih =>
    simp only [Operation.isPaths, Bool.and_eq_true] at hop
    exact Counted.step axis test hop.1 (hpushes hop.2) (ih hop.2) st
  | union op1 op2 ih1 ih2 =>
    simp only [Operation.isPaths, Bool.and_eq_true] at hop
    exact Counted.union (hpushes hop.1) (hpushes hop.2) (ih1 hop.1) (ih2 hop.2) st
  | _ => cases hop

def State.begin (context : Context) (freed : List Pointer) : State D :=
  ⟨context, [], fun _ => 0, freed, []⟩

def rootElement : Document where
  root := 0
  parent n := if n = 1 then some 0 else none
  prev _ := none
  next _ := none
  firstChild n := if n = 0 then some 1 else none
  lastChild n := if n = 0 then some 1 else none
  behind n := 1 - n
  before n := 1 - n
  depth n := n
  parent_depth := by
    intro n m h
    split at h <;> simp_all
  next_behind := by simp
  firstChild_behind := by
    intro n m h
    split at h
    · obtain rfl := Option.some.inj h
      omega
    · cases h
  prev_before := by simp
  lastChild_before := by
    intro n m h
    split at h
    · obtain rfl := Option.some.inj h
      omega
    · cases h
  nodeType n := if n = 1 then .element else .invalid
  localname n := if n = 1 then some ['a'] else none
  nsUri _ := none
  text _ := none
  attributes _ := []
  attributeName _ := none
  attributeUri _ := none
  attributeValue _ := none
  namespaces _ := []
  nsPrefix _ := none

/-- A new context: `count` is the only function. -/
def newEnv : Env ℕ where
  namespaces _ := none
  functions name := if name = "count".toList then some (functionCount id) else none
  ofNat := id
  eq a b := a == b
  nonzero n := decide (n ≠ 0)
  toText n := (Nat.repr n).toList
  unset := 0

def newContext (doc : Document) : Context := ⟨some doc.root, none, none, 0, 0⟩

/-- The path `a`. -/
def pathA : Operation ℕ :=
  .contextNode (.step .child ⟨.standard, none, some ['a'], none⟩ .parseEnd .result)

end NodeSets

end Axis2C.XPath
