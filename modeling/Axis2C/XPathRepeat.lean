import Axis2C.XPathNodeSets

/-!
# Evaluating an expression again

When nothing moves the context node for good and no cast frees a value of the expression,
an evaluation leaves the context and the expression as they were, and its results do not
depend on what was evaluated before.
-/
namespace Axis2C.XPath

variable {D : Type*} {doc : Document} {env : Env D}

section Uniform

variable {st st' : State D} {f : Evaluation D}

def State.Agrees (st st' : State D) : Prop :=
  (st.context.node, st.context.attr, st.context.ns) =
      (st'.context.node, st'.context.attr, st'.context.ns) ∧
    st.stack = st'.stack ∧ st.pos = st'.pos

/-- Neither the position and the size in the context nor the logs have an influence. -/
def Uniform (f : Evaluation D) : Prop :=
  ∀ st st', st.Agrees st' → (f st).1 = (f st').1 ∧ (f st).2.Agrees (f st').2

lemma State.Agrees.node {st st' : State D} (h : st.Agrees st') :
    st.context.node = st'.context.node := (Prod.mk.inj h.1).1

lemma State.Agrees.setNode (h : st.Agrees st') (n : Option ℕ) :
    (st.setNode n).Agrees (st'.setNode n) := by
  obtain ⟨h, hstack, hpos⟩ := h
  simp only [Prod.mk.injEq] at h
  exact ⟨by simp [State.setNode, h], hstack, hpos⟩

lemma State.Agrees.setAttr (h : st.Agrees st') (a : Option ℕ) :
    (st.setAttr a).Agrees (st'.setAttr a) := by
  obtain ⟨h, hstack, hpos⟩ := h
  simp only [Prod.mk.injEq] at h
  exact ⟨by simp [State.setAttr, h], hstack, hpos⟩

lemma State.Agrees.setNs (h : st.Agrees st') (n : Option ℕ) :
    (st.setNs n).Agrees (st'.setNs n) := by
  obtain ⟨h, hstack, hpos⟩ := h
  simp only [Prod.mk.injEq] at h
  exact ⟨by simp [State.setNs, h], hstack, hpos⟩

lemma State.Agrees.push {st st' : State D} (h : st.Agrees st') (r : ResultNode D) :
    (st.push r).Agrees (st'.push r) :=
  ⟨h.1, by rw [State.push_stack, State.push_stack, h.2.1], h.2.2⟩

lemma State.Agrees.drop (h : st.Agrees st') (n : ℕ) :
    (st.drop n).Agrees (st'.drop n) :=
  ⟨h.1, by rw [State.drop_stack, State.drop_stack, h.2.1], h.2.2⟩

lemma State.Agrees.nodeTestMatch (h : st.Agrees st') (test : NodeTest) :
    nodeTestMatch doc env test st.context = nodeTestMatch doc env test st'.context := by
  obtain ⟨h, -, -⟩ := h
  simp only [Prod.mk.injEq] at h
  simp only [Axis2C.XPath.nodeTestMatch, h]

lemma State.Agrees.collect (h : st.Agrees st') :
    (collect st.context : ResultNode D) = collect st'.context := by
  obtain ⟨h, -, -⟩ := h
  simp only [Prod.mk.injEq] at h
  simp only [Axis2C.XPath.collect, h]

lemma uniform_none : Uniform (fun st : State D => (0, st)) := fun _ _ h => ⟨rfl, h⟩

lemma Uniform.comp {f g : Evaluation D} (hf : Uniform f) (hg : Uniform g) :
    Uniform fun st => ((f st).1 + (g (f st).2).1, (g (f st).2).2) := by
  intro st st' h
  obtain ⟨hcount, hagree⟩ := hf st st' h
  obtain ⟨hcount', hagree'⟩ := hg _ _ hagree
  exact ⟨congrArg₂ (· + ·) hcount hcount', hagree'⟩

lemma Uniform.within {f : Evaluation D} (hf : Uniform f) {enter leave : State D → State D}
    (henter : ∀ {st st'}, st.Agrees st' → (enter st).Agrees (enter st'))
    (hleave : ∀ {st st'}, st.Agrees st' → (leave st).Agrees (leave st')) :
    Uniform fun st => ((f (enter st)).1, leave (f (enter st)).2) := by
  intro st st' h
  obtain ⟨hcount, hagree⟩ := hf _ _ (henter h)
  exact ⟨hcount, hleave hagree⟩

lemma Uniform.tested (test : NodeTest) {f : Evaluation D} (hf : Uniform f) :
    Uniform fun st => if nodeTestMatch doc env test st.context then f st else (0, st) := by
  intro st st' h
  have hmatch : nodeTestMatch doc env test st.context = nodeTestMatch doc env test st'.context :=
    h.nodeTestMatch test
  dsimp only
  rw [hmatch]
  split
  · exact hf st st' h
  · exact ⟨rfl, h⟩

lemma Uniform.visitEach {α : Type*} {enter : α → State D → State D}
    (henter : ∀ a {st st'}, st.Agrees st' → (enter a st).Agrees (enter a st')) (test : NodeTest)
    {f : Evaluation D} (hf : Uniform f) (l : List α) :
    Uniform (visitEach doc env enter test f l) := by
  induction l with
  | nil => exact uniform_none
  | cons a l ih => exact ((hf.tested test).within (henter a) (fun h => h)).comp ih

lemma Uniform.visitNodes (test : NodeTest) {f : Evaluation D} (hf : Uniform f) (l : List ℕ) :
    Uniform (visitNodes doc env test f l) :=
  hf.visitEach (fun n _ _ h => h.setNode (some n)) test l

lemma Uniform.visitSelfAnd (found : Option ℕ → List ℕ) (test : NodeTest) {f : Evaluation D}
    (hf : Uniform f) : Uniform (visitSelfAnd doc env found test f) := by
  intro st st' h
  have hself := @Uniform.tested D doc env test f hf st st' h
  have hrest := @Uniform.visitNodes D doc env test f hf
  unfold Axis2C.XPath.visitSelfAnd
  dsimp only
  rw [hself.2.node]
  obtain ⟨hcount, hagree⟩ := hrest _ _ _ hself.2
  exact ⟨by rw [hself.1, hcount], hagree⟩

lemma Uniform.iterator (axis : Axis) (test : NodeTest) (hf : Uniform f) :
    Uniform (iterator doc env axis test f) := by
  intro st st' hst
  cases hn : st.context.node with
  | none =>
    have hn' := hst.node.symm.trans hn
    unfold Axis2C.XPath.iterator
    rw [hn, hn']
    exact ⟨rfl, hst⟩
  | some n =>
    have hn' := hst.node.symm.trans hn
    cases iteration doc env axis test n with
    | nodes l h =>
      rw [(h f st hn).1, (h f st' hn').1]
      obtain ⟨hcount, hagree⟩ := @Uniform.visitNodes D doc env test f hf l st st' hst
      exact ⟨hcount, hagree.setNode _⟩
    | selfAnd found h =>
      rw [(h f st hn).1, (h f st' hn').1]
      obtain ⟨hcount, hagree⟩ := @Uniform.visitSelfAnd D doc env found test f hf st st' hst
      exact ⟨hcount, hagree.setNode _⟩
    | attrs _ l h =>
      rw [(h f st hn).1, (h f st' hn').1]
      obtain ⟨hcount, hagree⟩ := @Uniform.visitEach D doc env ℕ
        (fun a st => st.setAttr (some a)) (fun a _ _ h => h.setAttr (some a)) test f hf l _ _
        (hst.setNode none)
      exact ⟨hcount, (hagree.setNode _).setAttr none⟩
    | nss _ l h =>
      rw [(h f st hn).1, (h f st' hn').1]
      obtain ⟨hcount, hagree⟩ := @Uniform.visitEach D doc env ℕ
        (fun m st => st.setNs (some m)) (fun m _ _ h => h.setNs (some m)) test f hf l _ _
        (hst.setNode none)
      exact ⟨hcount, (hagree.setNode _).setNs none⟩
    | nothing h =>
      rw [(h f st hn).1, (h f st' hn').1]
      exact ⟨rfl, hst⟩

lemma Uniform.operand (isEnd : Bool) (unset : ℕ) (hf : Uniform f) :
    Uniform fun st => if isEnd then (unset, st) else f st := by
  intro st st' h
  cases isEnd with
  | true => exact ⟨rfl, h⟩
  | false => exact hf st st' h

lemma Uniform.evaluateTest
    (test : List (ResultNode D) → List (ResultNode D) → Bool × List Pointer) (end1 end2 : Bool)
    {f1 f2 : Evaluation D} (hf1 : Uniform f1) (hf2 : Uniform f2) :
    Uniform (evaluateTest env test end1 end2 f1 f2) := by
  intro st st' h
  obtain ⟨hcount1, hagree1⟩ := hf1.operand end1 env.unset st st' h
  obtain ⟨hcount2, hagree2⟩ := hf2.operand end2 env.unset _ _ hagree1
  refine ⟨rfl, ?_⟩
  simp only [Axis2C.XPath.evaluateTest, evaluateBoth, State.logOperands_stack]
  rw [hcount1, hcount2, hagree2.2.1]
  exact ⟨hagree2.1, by simp [hagree2.2.1], hagree2.2.2⟩

lemma Uniform.visitFiltered (size : ℕ) (hf : Uniform f) (l : List (ResultNode D)) (i : ℕ) :
    Uniform (visitFiltered size f i l) := by
  induction l generalizing i with
  | nil => exact uniform_none
  | cons r l ih =>
    cases r with
    | node n =>
      have henter {st st' : State D} (h : st.Agrees st') :
          ((st.setNode (some n)).setPosition (i + 1) size).Agrees
            ((st'.setNode (some n)).setPosition (i + 1) size) :=
        h.setNode (some n)
      exact (hf.within henter (fun h => h)).comp (ih (i + 1))
    | attr a | ns m | text p t | number p v | boolean b | unset => exact ih (i + 1)

lemma State.Agrees.foldl_push (h : st.Agrees st') (results : List (ResultNode D)) :
    (results.foldl State.push st).Agrees (results.foldl State.push st') := by
  induction results generalizing st st' with
  | nil => exact h
  | cons r results ih => exact ih (h.push r)

lemma testPredicate_agrees (place : ℕ) (isEnd : Bool) {f : Evaluation D} (hf : Uniform f)
    {st st' : State D} (h : st.Agrees st') :
    (testPredicate env place isEnd f st).1 = (testPredicate env place isEnd f st').1 ∧
      (testPredicate env place isEnd f st).2.Agrees (testPredicate env place isEnd f st').2 := by
  have htick : (st.tick place).Agrees (st'.tick place) :=
    ⟨h.1, h.2.1, by simp [State.tick, h.2.2]⟩
  unfold testPredicate
  cases isEnd with
  | true => exact ⟨rfl, htick⟩
  | false =>
    obtain ⟨hcount, hagree⟩ := hf _ _ htick
    have hpos : (f (st.tick place)).2.pos place = (f (st'.tick place)).2.pos place := by
      rw [hagree.2.2]
    simp only [Bool.false_eq_true, if_false, hcount, hpos]
    match (f (st'.tick place)).1 with
    | 0 => exact ⟨rfl, hagree⟩
    | 1 =>
      simp only [evaluatePredicateCondition, State.setPosition_stack, hagree.2.1]
      split <;> exact ⟨rfl, hagree.drop 1⟩
    | k + 2 => exact ⟨rfl, hagree.drop (k + 2)⟩

lemma Uniform.evaluatePredicate {place : ℕ} {op1 pred : Operation D} {next : Evaluation D}
    (hop1 : Uniform (evaluateOperation doc env op1))
    (hnext : Uniform (evaluatePredicate doc env pred next)) :
    Uniform (evaluatePredicate doc env (.predicate place op1 pred) next) := by
  intro st st' h
  obtain ⟨hbool, hagree⟩ := @testPredicate_agrees D env place op1.isEnd _ hop1 st st' h
  rw [Axis2C.XPath.evaluatePredicate]
  dsimp only
  rw [hbool, h.node]
  split
  · exact hnext _ _ (hagree.setNode _)
  · exact ⟨rfl, hagree⟩

lemma evaluateOperation_uniform (op : Operation D) :
    Uniform (evaluateOperation doc env op) ∧
      ∀ next, Uniform next → Uniform (evaluatePredicate doc env op next) := by
  induction op with
  | parseEnd => exact ⟨uniform_none, fun next hnext => hnext⟩
  | rootNode op1 ih =>
    have h := (ih.1.within (fun h => h.setNode (some doc.root)) (fun h => h)).operand op1.isEnd 0
    refine ⟨?_, fun next hnext => hnext⟩
    exact fun st st' hst => h st st' hst
  | contextNode op1 ih => exact ⟨ih.1.operand op1.isEnd 0, fun next hnext => hnext⟩
  | step axis test pred next ihp ihn =>
    exact ⟨((ihp.2 _ ihn.1).iterator axis test).operand next.isEnd 0, fun next hnext => hnext⟩
  | result =>
    refine ⟨fun st st' h => ⟨rfl, ?_⟩, fun next hnext => hnext⟩
    simp only [evaluateOperation, h.collect]
    exact h.push _
  | union op1 op2 ih1 ih2 =>
    refine ⟨?_, fun next hnext => hnext⟩
    exact (ih1.1.operand op1.isEnd 0).comp (ih2.1.operand op2.isEnd 0)
  | equalExpr op1 op2 ih1 ih2 | andExpr op1 op2 ih1 ih2 | orExpr op1 op2 ih1 ih2 =>
    exact ⟨ih1.1.evaluateTest _ _ _ ih2.1, fun next hnext => hnext⟩
  | predicate place op1 next ih1 ihn =>
    exact ⟨uniform_none, fun n hn => ih1.1.evaluatePredicate (ihn.2 n hn)⟩
  | literal place value | number place value =>
    exact ⟨fun st st' h => ⟨rfl, h.push _⟩, fun next hnext => hnext⟩
  | pathExpression op1 op2 ih1 ih2 =>
    refine ⟨Uniform.operand op1.isEnd 0 ?_, fun next hnext => hnext⟩
    intro st st' h
    obtain ⟨hcount, hagree⟩ := ih1.1 st st' h
    dsimp only
    cases op2.isEnd with
    | true => exact ⟨hcount, hagree⟩
    | false =>
      rw [hcount, hagree.2.1]
      exact ih2.1.visitFiltered _ _ _ _ _ (hagree.drop _)
  | functionCall name op1 ih =>
    refine ⟨?_, fun next hnext => hnext⟩
    intro st st' h
    simp only [evaluateOperation]
    cases env.functions name with
    | none => exact ⟨rfl, h⟩
    | some func =>
      obtain ⟨hcount, hagree⟩ := ih.1.operand op1.isEnd 0 st st' h
      dsimp only at hcount hagree ⊢
      rw [hcount, hagree.2.1]
      exact ⟨rfl, (hagree.drop _).foldl_push _⟩
  | argument op1 op2 ih1 ih2 =>
    refine ⟨?_, fun next hnext => hnext⟩
    exact (ih1.1.operand op1.isEnd 0).comp (ih1.1.operand op2.isEnd 0)

end Uniform

section Kinds

/-- What a result is: an item of the document, a text or a number in memory that is not
the evaluation's own, a text of its own, or a truth value or number of its own. -/
inductive Kind where
  | item
  | sharedText
  | sharedNumber
  | ownText
  | scalar
  deriving DecidableEq, Repr

def ResultNode.kind : ResultNode D → Kind
  | .node _ | .attr _ | .ns _ | .unset => .item
  | .text pointer _ => if pointer = .own then .ownText else .sharedText
  | .number pointer _ => if pointer = .own then .scalar else .sharedNumber
  | .boolean _ => .scalar

/-- The kinds of results that an operation may give. -/
def Operation.Gives (env : Env D) : Operation D → Kind → Prop
  | .parseEnd, _ | .predicate _ _ _, _ => False
  | .rootNode op1, k | .contextNode op1, k | .argument op1 _, k => op1.Gives env k
  | .step _ _ _ next, k => next.Gives env k
  | .result, k => k = .item
  | .union op1 op2, k => op1.Gives env k ∨ op2.Gives env k
  | .equalExpr _ _, k | .andExpr _ _, k | .orExpr _ _, k => k = .scalar
  | .literal _ _, k => k = .sharedText
  | .number _ _, k => k = .sharedNumber
  | .pathExpression op1 op2, k => if op2.isEnd then op1.Gives env k else op2.Gives env k
  | .functionCall name _, k => ∃ func args r, env.functions name = some func ∧ r ∈ func args ∧
      r.resultNode.kind = k

lemma collect_kind (context : Context) : (collect context : ResultNode D).kind = .item := by
  unfold collect
  split <;> rfl

lemma evaluateTest_pushed {test : List (ResultNode D) → List (ResultNode D) → Bool × List Pointer}
    {end1 end2 : Bool} {f1 f2 : Evaluation D} {st : State D} {r : ResultNode D}
    (hr : r ∈ pushed (evaluateTest env test end1 end2 f1 f2) st) : r.kind = .scalar := by
  simp only [pushed, evaluateTest, State.push_stack, List.take_succ_cons, List.take_zero,
    List.reverse_singleton, List.mem_singleton] at hr
  rw [hr]
  rfl

lemma visitFiltered_pushed {size : ℕ} {f : Evaluation D} (hf : Pushes f) {K : ResultNode D → Prop}
    (hK : ∀ st, ∀ r ∈ pushed f st, K r) (l : List (ResultNode D)) (i : ℕ) (st : State D) :
    ∀ r ∈ pushed (visitFiltered size f i l) st, K r := by
  induction l generalizing i st with
  | nil => simp [visitFiltered, pushed]
  | cons r l ih =>
    cases r with
    | node n =>
      have henter (st : State D) :
          ((st.setNode (some n)).setPosition (i + 1) size).stack = st.stack := rfl
      have heq := pushed_comp (hf.within henter (fun _ => rfl))
        (hf.visitFiltered size l (i + 1)) st
      intro r hr
      have hr' := heq ▸ hr
      rcases List.mem_append.mp hr' with h | h
      · exact hK _ r h
      · exact ih _ _ r h
    | attr a | ns m | text p t | number p v | boolean b | unset => exact ih (i + 1) st

/-- The results of an operation are of the kinds that it gives. -/
lemma gives_of_mem_pushed (op : Operation D) (hop : op.complete = true) (st : State D) :
    ∀ r ∈ pushed (evaluateOperation doc env op) st, op.Gives env r.kind := by
  have hpushes {op : Operation D} (hop : op.complete = true) :
      Pushes (evaluateOperation doc env op) := (evaluateOperation_pushes op hop).1
  induction op generalizing st with
  | parseEnd | predicate place op1 next => simp [pushed, evaluateOperation]
  | rootNode op1 ih =>
    rw [pushed_rootNode]
    exact ih hop (st.setNode (some doc.root))
  | contextNode op1 ih =>
    intro r hr
    apply ih hop st r
    simpa only [pushed, evaluateOperation, evaluateOperation_isEnd] using hr
  | step axis test pred next _ ih =>
    simp only [Operation.complete, Bool.and_eq_true] at hop
    rw [pushed_step axis test hop.1 (hpushes hop.2)]
    intro r hr
    obtain ⟨visited, -, hr⟩ := List.mem_flatMap.mp hr
    split at hr
    · cases hpass : passes doc env pred visited with
      | none => simp [hpass] at hr
      | some passed => exact ih hop.2 passed r (by simpa [hpass] using hr)
    · cases hr
  | result => simp [pushed, evaluateOperation, Operation.Gives, collect_kind]
  | union op1 op2 ih1 ih2 =>
    simp only [Operation.complete, Bool.and_eq_true] at hop
    rw [pushed_union (hpushes hop.1) (hpushes hop.2)]
    intro r hr
    rcases List.mem_append.mp hr with h | h
    · exact .inl (ih1 hop.1 _ r h)
    · exact .inr (ih2 hop.2 _ r h)
  | equalExpr op1 op2 | andExpr op1 op2 | orExpr op1 op2 => exact fun r hr => evaluateTest_pushed hr
  | literal place value | number place value =>
    simp [pushed, evaluateOperation, Operation.Gives, ResultNode.kind]
  | pathExpression op1 op2 ih1 ih2 =>
    simp only [Operation.complete, Bool.and_eq_true] at hop
    simp only [pushed, evaluateOperation, Operation.Gives]
    cases op1.isEnd with
    | true => simp
    | false =>
      cases op2.isEnd with
      | true => exact ih1 hop.1 st
      | false => exact visitFiltered_pushed (hpushes hop.2) (ih2 hop.2) _ _ _
  | functionCall name op1 =>
    simp only [pushed, evaluateOperation, Operation.Gives]
    cases hfunc : env.functions name with
    | none => simp
    | some func =>
      intro r hr
      dsimp only at hr
      rw [foldl_push_stack, List.take_left' (by simp), List.reverse_reverse] at hr
      obtain ⟨v, hv, rfl⟩ := List.mem_map.mp hr
      exact ⟨func, _, v, rfl, hv, rfl⟩
  | argument op1 op2 ih1 ih2 =>
    simp only [Operation.complete, Bool.and_eq_true] at hop
    have h1 := pushes_none.ite (fun _ => op1.isEnd = true) (hpushes hop.1)
    have h2 := pushes_none.ite (fun _ => op2.isEnd = true) (hpushes hop.1)
    have heq := pushed_comp h1 h2 st
    intro r hr
    have hr' := heq ▸ hr
    rcases List.mem_append.mp hr' with h | h
    · apply ih1 hop.1 st r
      simpa only [pushed, evaluateOperation_isEnd] using h
    · cases hend : op2.isEnd with
      | true => simp [pushed, hend] at h
      | false =>
        simp only [hend, Bool.false_eq_true, if_false] at h
        exact ih1 hop.1 _ r h

end Kinds

section Casts

variable {doc : Document} {env : Env D}

/-- In memory of its own, or an item. -/
def ResultNode.Loose (r : ResultNode D) : Prop := r.kind ≠ .sharedText ∧ r.kind ≠ .sharedNumber

/-- Neither a truth value nor a number. -/
def ResultNode.Textual (r : ResultNode D) : Prop := r.kind ≠ .scalar ∧ r.kind ≠ .sharedNumber

lemma castSetValue_of_loose {r : ResultNode D} (h : r.Loose) : castSetValue r = [] := by
  cases r with
  | text pointer value =>
    cases value with
    | none => rfl
    | some t =>
      by_cases hp : pointer = .own
      · simp [castSetValue, hp]
      · simp [ResultNode.Loose, ResultNode.kind, hp] at h
  | number pointer v =>
    by_cases hp : pointer = .own
    · simp [castSetValue, hp]
    · simp [ResultNode.Loose, ResultNode.kind, hp] at h
  | _ => rfl

lemma convertToBoolean_frees {arr : List (ResultNode D)} (h : ∀ r ∈ arr, r.Loose) :
    (convertToBoolean env arr).2 = [] := by
  match arr with
  | [] => rfl
  | [r] => exact castSetValue_of_loose (h r (List.mem_singleton_self r))
  | _ :: _ :: _ => rfl

lemma loose_of_scalar {r : ResultNode D} (h : r.kind = .scalar) : r.Loose := by
  simp [ResultNode.Loose, h]

/-- A comparison of texts frees nothing and leaves texts. -/
lemma compareEqual_textual {r1 r2 : ResultNode D} (h1 : r1.Textual) (h2 : r2.Textual) :
    (compareEqual doc env r1 r2).2.1.Textual ∧ (compareEqual doc env r1 r2).2.2.1.Textual ∧
      (compareEqual doc env r1 r2).2.2.2 = [] := by
  have htext (pointer : Pointer) (value : Option Text) :
      (ResultNode.text pointer value : ResultNode D).Textual := by
    simp only [ResultNode.Textual, ResultNode.kind]
    split <;> simp
  have hnumber {pointer : Pointer} {v : D} : ¬ (ResultNode.number pointer v).Textual := by
    simp only [ResultNode.Textual, ResultNode.kind]
    split <;> simp
  have hboolean {b : Bool} : ¬ (ResultNode.boolean b : ResultNode D).Textual := by
    simp [ResultNode.Textual, ResultNode.kind]
  cases r1 with
  | number _ _ => exact absurd h1 hnumber
  | boolean _ => exact absurd h1 hboolean
  | _ =>
    cases r2 with
    | number _ _ => exact absurd h2 hnumber
    | boolean _ => exact absurd h2 hboolean
    | _ => exact ⟨htext _ _, htext _ _, rfl⟩

/-- A comparison with a truth value or number frees nothing shared and leaves such values. -/
lemma compareEqual_scalar {r1 r2 : ResultNode D} (h1 : r1.Loose) (h2 : r2.Loose)
    (h : r1.kind = .scalar ∨ r2.kind = .scalar) :
    (compareEqual doc env r1 r2).2.1.kind = .scalar ∧
      (compareEqual doc env r1 r2).2.2.1.kind = .scalar ∧
      (compareEqual doc env r1 r2).2.2.2 = [] := by
  have hfree : castSetValue r1 ++ castSetValue r2 = [] := by
    rw [castSetValue_of_loose h1, castSetValue_of_loose h2]
    rfl
  unfold compareEqual
  dsimp only
  split
  · exact ⟨rfl, rfl, hfree⟩
  next hboolean =>
  split
  · exact ⟨rfl, rfl, hfree⟩
  next hnumber =>
  exfalso
  rw [Bool.not_eq_true, Bool.or_eq_false_iff] at hboolean hnumber
  have hkind {r : ResultNode D} (h : r.kind = .scalar) :
      (∃ b, r = .boolean b) ∨ ∃ p v, r = .number p v := by
    cases r with
    | boolean b => exact .inl ⟨b, rfl⟩
    | number p v => exact .inr ⟨p, v, rfl⟩
    | text p v =>
      simp only [ResultNode.kind] at h
      split at h <;> cases h
    | _ => cases h
  rcases h with h | h
  · rcases hkind h with ⟨b, rfl⟩ | ⟨p, v, rfl⟩
    · cases hboolean.1
    · cases hnumber.1
  · rcases hkind h with ⟨b, rfl⟩ | ⟨p, v, rfl⟩
    · cases hboolean.2
    · cases hnumber.2

lemma compareRow_textual {r1 : ResultNode D} {arr : List (ResultNode D)} (h1 : r1.Textual)
    (harr : ∀ r ∈ arr, r.Textual) :
    (∀ r ∈ (compareRow doc env r1 arr).2.1, r.Textual) ∧ (compareRow doc env r1 arr).2.2 = [] := by
  induction arr generalizing r1 with
  | nil => simp [compareRow]
  | cons r2 arr ih =>
    obtain ⟨hr2, harr⟩ := List.forall_mem_cons.mp harr
    obtain ⟨h1', h2', hfree⟩ := @compareEqual_textual D doc env r1 r2 h1 hr2
    obtain ⟨hrest, hfree'⟩ := ih h1' harr
    unfold compareRow
    dsimp only
    split
    · exact ⟨List.forall_mem_cons.mpr ⟨h2', harr⟩, hfree⟩
    · exact ⟨List.forall_mem_cons.mpr ⟨h2', hrest⟩, by rw [hfree, hfree', List.nil_append]⟩

lemma compareSets_textual {arr1 arr2 : List (ResultNode D)} (h1 : ∀ r ∈ arr1, r.Textual)
    (h2 : ∀ r ∈ arr2, r.Textual) : (compareSets doc env arr1 arr2).2 = [] := by
  induction arr1 generalizing arr2 with
  | nil => rfl
  | cons r1 arr1 ih =>
    obtain ⟨hr1, harr1⟩ := List.forall_mem_cons.mp h1
    obtain ⟨h2', hfree⟩ := @compareRow_textual D doc env r1 arr2 hr1 h2
    unfold compareSets
    dsimp only
    split
    · exact hfree
    · rw [hfree, ih harr1 h2', List.nil_append]

lemma compareRow_scalar {r1 : ResultNode D} {arr : List (ResultNode D)} (h1 : r1.Loose)
    (harr : ∀ r ∈ arr, r.Loose) (h : r1.kind = .scalar ∨ ∀ r ∈ arr, r.kind = .scalar) :
    (∀ r ∈ (compareRow doc env r1 arr).2.1, r.Loose) ∧
      ((∀ r ∈ arr, r.kind = .scalar) → ∀ r ∈ (compareRow doc env r1 arr).2.1, r.kind = .scalar) ∧
      (compareRow doc env r1 arr).2.2 = [] := by
  induction arr generalizing r1 with
  | nil => simp [compareRow]
  | cons r2 arr ih =>
    obtain ⟨hr2, harr⟩ := List.forall_mem_cons.mp harr
    have hpair : r1.kind = .scalar ∨ r2.kind = .scalar :=
      h.imp_right fun h => h r2 (List.mem_cons_self ..)
    obtain ⟨h1', h2', hfree⟩ := @compareEqual_scalar D doc env r1 r2 h1 hr2 hpair
    obtain ⟨hloose, hscalar, hfree'⟩ := ih (loose_of_scalar h1') harr (.inl h1')
    unfold compareRow
    dsimp only
    split
    · refine ⟨List.forall_mem_cons.mpr ⟨loose_of_scalar h2', harr⟩, ?_, hfree⟩
      exact fun hall => List.forall_mem_cons.mpr ⟨h2', (List.forall_mem_cons.mp hall).2⟩
    · refine ⟨List.forall_mem_cons.mpr ⟨loose_of_scalar h2', hloose⟩, ?_, ?_⟩
      · exact fun hall =>
          List.forall_mem_cons.mpr ⟨h2', hscalar (List.forall_mem_cons.mp hall).2⟩
      · rw [hfree, hfree', List.nil_append]

lemma compareSets_scalar {arr1 arr2 : List (ResultNode D)} (h1 : ∀ r ∈ arr1, r.Loose)
    (h2 : ∀ r ∈ arr2, r.Loose)
    (h : (∀ r ∈ arr1, r.kind = .scalar) ∨ ∀ r ∈ arr2, r.kind = .scalar) :
    (compareSets doc env arr1 arr2).2 = [] := by
  induction arr1 generalizing arr2 with
  | nil => rfl
  | cons r1 arr1 ih =>
    obtain ⟨hr1, harr1⟩ := List.forall_mem_cons.mp h1
    obtain ⟨hloose, hscalar, hfree⟩ := @compareRow_scalar D doc env r1 arr2 hr1 h2
      (h.imp_left fun h => h r1 (List.mem_cons_self ..))
    have hnext : (∀ r ∈ arr1, r.kind = .scalar) ∨
        ∀ r ∈ (compareRow doc env r1 arr2).2.1, r.kind = .scalar :=
      h.imp (fun h => (List.forall_mem_cons.mp h).2) hscalar
    unfold compareSets
    dsimp only
    split
    · exact hfree
    · rw [hfree, ih harr1 hloose hnext, List.nil_append]

end Casts

section Condition

/-- The operation leaves the context node where it is; whether that is the root of the
context is given. An absolute path goes to the root, and a path behind a filter to the
nodes that the filter gives. -/
def Operation.keeps (atRoot : Bool) : Operation D → Bool
  | .rootNode op1 => op1.isEnd || (atRoot && op1.keeps true)
  | .contextNode op1 => op1.keeps atRoot
  | .union op1 op2 | .equalExpr op1 op2 | .andExpr op1 op2 | .orExpr op1 op2 =>
    op1.keeps atRoot && op2.keeps atRoot
  | .pathExpression op1 op2 => op1.isEnd || (op2.isEnd && op1.keeps atRoot)
  | .functionCall _ op1 | .argument op1 _ => op1.keeps atRoot
  | _ => true

/-- Each of a list of predicates leaves the context node where it is. -/
def Operation.predicatesKeep : Operation D → Bool
  | .predicate _ op1 next => op1.keeps false && next.predicatesKeep
  | _ => true

/-- The results of the operation are in memory of their own, or items. -/
def Operation.Loose (env : Env D) (op : Operation D) : Prop :=
  ¬ op.Gives env .sharedText ∧ ¬ op.Gives env .sharedNumber

def Operation.Textual (env : Env D) (op : Operation D) : Prop :=
  ¬ op.Gives env .scalar ∧ ¬ op.Gives env .sharedNumber

def Operation.Scalar (env : Env D) (op : Operation D) : Prop := ∀ k, op.Gives env k → k = .scalar

/-- Wherever an operator has two operands, the first one leaves the context node where it
is, and no cast frees a value of the expression: `and` and `or` have no literals or numbers
as operands, and `=` compares only texts and items, or truth values and computed numbers
with what is no literal or number. The predicates of attributes and namespaces leave the
context node where it is. -/
def Operation.Orderly (env : Env D) (atRoot : Bool) : Operation D → Prop
  | .parseEnd | .result | .literal _ _ | .number _ _ => True
  | .rootNode op1 => op1.Orderly env true
  | .contextNode op1 => op1.Orderly env atRoot
  | .step axis _ pred next => pred.Orderly env false ∧ next.Orderly env false ∧
      next.keeps false = true ∧ (axis = .attr ∨ axis = .ns → pred.predicatesKeep = true)
  | .union op1 op2 =>
    op1.keeps atRoot = true ∧ op1.Orderly env atRoot ∧ op2.Orderly env atRoot
  | .equalExpr op1 op2 =>
    (op1.keeps atRoot = true ∧ op1.Orderly env atRoot ∧ op2.Orderly env atRoot) ∧
      (op1.Textual env ∧ op2.Textual env ∨
        op1.Loose env ∧ op2.Loose env ∧ (op1.Scalar env ∨ op2.Scalar env))
  | .andExpr op1 op2 | .orExpr op1 op2 =>
    (op1.keeps atRoot = true ∧ op1.Orderly env atRoot ∧ op2.Orderly env atRoot) ∧
      op1.Loose env ∧ op2.Loose env
  | .predicate _ op1 next => op1.Orderly env false ∧ next.Orderly env false
  | .pathExpression op1 op2 => op1.Orderly env atRoot ∧ op2.Orderly env false
  | .functionCall _ op1 => op1.Orderly env atRoot
  | .argument op1 op2 => op1.Orderly env atRoot ∧ (op2.isEnd = true ∨ op1.keeps atRoot = true)

end Condition

section Kept

/-- Nothing is freed, and all operands are evaluated with one context node. -/
structure Quiet (st st' : State D) : Prop where
  freed : st'.freed = st.freed
  operands : ∃ new, st'.operands = st.operands ++ new ∧ ∀ p ∈ new, p.1 = p.2

structure SameContext (c c' : Context) : Prop where
  node : c'.node = c.node
  attr : c'.attr = c.attr
  ns : c'.ns = c.ns

/-- The context is at a node. -/
structure AtNode (c : Context) : Prop where
  node : c.node.isSome = true
  attr : c.attr = none
  ns : c.ns = none

/-- With a context node there is neither an attribute nor a namespace. -/
def Context.Clean (c : Context) : Prop := c.node.isSome = true → AtNode c

structure Kept (st st' : State D) : Prop where
  quiet : Quiet st st'
  same : SameContext st.context st'.context

lemma Quiet.refl (st : State D) : Quiet st st := ⟨rfl, [], by simp⟩

lemma Quiet.trans {a b c : State D} (hab : Quiet a b) (hbc : Quiet b c) : Quiet a c := by
  obtain ⟨new, hnew, hall⟩ := hab.operands
  obtain ⟨new', hnew', hall'⟩ := hbc.operands
  refine ⟨hbc.freed.trans hab.freed, new ++ new', ?_, ?_⟩
  · rw [hnew', hnew, List.append_assoc]
  · intro p hp
    rcases List.mem_append.mp hp with h | h
    · exact hall p h
    · exact hall' p h

lemma Kept.refl (st : State D) : Kept st st := ⟨.refl st, rfl, rfl, rfl⟩

lemma Kept.trans {a b c : State D} (hab : Kept a b) (hbc : Kept b c) : Kept a c :=
  ⟨hab.quiet.trans hbc.quiet, hbc.same.node.trans hab.same.node,
    hbc.same.attr.trans hab.same.attr, hbc.same.ns.trans hab.same.ns⟩

lemma AtNode.of_same {c c' : Context} (h : AtNode c) (hs : SameContext c c') : AtNode c' :=
  ⟨hs.node ▸ h.node, hs.attr.trans h.attr, hs.ns.trans h.ns⟩

lemma Context.Clean.of_same {c c' : Context} (h : c.Clean) (hs : SameContext c c') : c'.Clean :=
  fun hsome => (h (hs.node ▸ hsome)).of_same hs

/-- At a node the evaluation may end at another one. -/
def Mild (f : Evaluation D) : Prop :=
  ∀ st, AtNode st.context → AtNode (f st).2.context ∧ Quiet st (f st).2

/-- Without a context node nothing changes. -/
def KeptAway (f : Evaluation D) : Prop := ∀ st, st.context.node = none → Kept st (f st).2

lemma Mild.tested (test : NodeTest) {f : Evaluation D} (hf : Mild f) :
    Mild fun st => if nodeTestMatch doc env test st.context then f st else (0, st) := by
  intro st h
  dsimp only
  split
  · exact hf st h
  · exact ⟨h, .refl st⟩

lemma Mild.visitNodes (test : NodeTest) {f : Evaluation D} (hf : Mild f) (l : List ℕ) :
    Mild (visitNodes doc env test f l) := by
  induction l with
  | nil => exact fun st h => ⟨h, .refl st⟩
  | cons n l ih =>
    intro st h
    have hn : AtNode (st.setNode (some n)).context := ⟨rfl, h.attr, h.ns⟩
    have hquiet : Quiet st (st.setNode (some n)) := ⟨rfl, [], by simp [State.setNode]⟩
    obtain ⟨hat, hq⟩ := @Mild.tested D doc env test f hf _ hn
    obtain ⟨hat', hq'⟩ := ih _ hat
    exact ⟨hat', (hquiet.trans hq).trans hq'⟩

lemma Mild.visitSelfAnd (found : Option ℕ → List ℕ) (test : NodeTest) {f : Evaluation D}
    (hf : Mild f) : Mild (visitSelfAnd doc env found test f) := by
  intro st h
  obtain ⟨hat, hq⟩ := @Mild.tested D doc env test f hf st h
  obtain ⟨hat', hq'⟩ := @Mild.visitNodes D doc env test f hf (found _) _ hat
  exact ⟨hat', hq.trans hq'⟩

section

variable (test : NodeTest) {f : Evaluation D} (hf : KeptAway f)

include test hf

lemma KeptAway.tested :
    KeptAway fun st => if nodeTestMatch doc env test st.context then f st else (0, st) := by
  intro st h
  dsimp only
  split
  · exact hf st h
  · exact .refl st

/-- The attributes are set one after the other. -/
lemma KeptAway.visitAttrs (l : List ℕ) (st : State D) (h : st.context.node = none) :
    Quiet st (visitEach doc env (fun a st => st.setAttr (some a)) test f l st).2 ∧
      (visitEach doc env (fun a st => st.setAttr (some a)) test f l st).2.context.ns =
        st.context.ns := by
  induction l generalizing st with
  | nil => exact ⟨.refl st, rfl⟩
  | cons a l ih =>
    have hquiet : Quiet st (st.setAttr (some a)) := ⟨rfl, [], by simp [State.setAttr]⟩
    have hkept := @KeptAway.tested D doc env test f hf (st.setAttr (some a)) h
    obtain ⟨hq, hns⟩ := ih _ (hkept.same.node.trans h)
    exact ⟨(hquiet.trans hkept.quiet).trans hq, hns.trans hkept.same.ns⟩

lemma KeptAway.visitNss (l : List ℕ) (st : State D) (h : st.context.node = none) :
    Quiet st (visitEach doc env (fun m st => st.setNs (some m)) test f l st).2 ∧
      (visitEach doc env (fun m st => st.setNs (some m)) test f l st).2.context.attr =
        st.context.attr := by
  induction l generalizing st with
  | nil => exact ⟨.refl st, rfl⟩
  | cons m l ih =>
    have hquiet : Quiet st (st.setNs (some m)) := ⟨rfl, [], by simp [State.setNs]⟩
    have hkept := @KeptAway.tested D doc env test f hf (st.setNs (some m)) h
    obtain ⟨hq, hattr⟩ := ih _ (hkept.same.node.trans h)
    exact ⟨(hquiet.trans hkept.quiet).trans hq, hattr.trans hkept.same.attr⟩

end

/-- An iterator goes back to the context node it began with. -/
lemma kept_iterator (axis : Axis) (test : NodeTest) {f : Evaluation D} (hf : Mild f)
    (haway : axis = .attr ∨ axis = .ns → KeptAway f) (st : State D) (hst : st.context.Clean) :
    Kept st (iterator doc env axis test f st).2 := by
  cases hn : st.context.node with
  | none =>
    unfold iterator
    rw [hn]
    exact .refl st
  | some n =>
    have hat : AtNode st.context := hst (by rw [hn]; rfl)
    have hback {st' : State D} (h : AtNode st'.context ∧ Quiet st st') :
        Kept st (st'.setNode (some n)) :=
      ⟨⟨h.2.freed, h.2.operands⟩, hn.symm, h.1.attr.trans hat.attr.symm,
        h.1.ns.trans hat.ns.symm⟩
    have hnone : Quiet st (st.setNode none) := ⟨rfl, [], by simp [State.setNode]⟩
    cases iteration doc env axis test n with
    | nodes l h =>
      rw [(h f st hn).1]
      exact hback (hf.visitNodes test l st hat)
    | selfAnd found h =>
      rw [(h f st hn).1]
      exact hback (hf.visitSelfAnd found test st hat)
    | attrs haxis l h =>
      rw [(h f st hn).1]
      obtain ⟨hq, hns⟩ := @KeptAway.visitAttrs D doc env test f (haway (.inl haxis)) l
        (st.setNode none) rfl
      have hquiet := hnone.trans hq
      exact ⟨⟨hquiet.freed, hquiet.operands⟩, hn.symm, hat.attr.symm, hns⟩
    | nss haxis l h =>
      rw [(h f st hn).1]
      obtain ⟨hq, hattr⟩ := @KeptAway.visitNss D doc env test f (haway (.inr haxis)) l
        (st.setNode none) rfl
      have hquiet := hnone.trans hq
      exact ⟨⟨hquiet.freed, hquiet.operands⟩, hn.symm, hattr, hat.ns.symm⟩
    | nothing h =>
      rw [(h f st hn).1]
      exact .refl st

/-- What an operation may do to the context, by where it starts. -/
structure Behaves (doc : Document) (env : Env D) (atRoot : Bool) (op : Operation D) : Prop where
  mild : ∀ st, AtNode st.context → (atRoot = true → st.context.node = some doc.root) →
    AtNode (evaluateOperation doc env op st).2.context ∧
      Quiet st (evaluateOperation doc env op st).2
  kept : op.keeps atRoot = true → ∀ st, st.context.Clean →
    (atRoot = true → st.context.node = some doc.root) →
    Kept st (evaluateOperation doc env op st).2

/-- An operation that leaves the context node is mild. -/
lemma behaves_of_kept {atRoot : Bool} {op : Operation D}
    (h : ∀ st, st.context.Clean → (atRoot = true → st.context.node = some doc.root) →
      Kept st (evaluateOperation doc env op st).2) : Behaves doc env atRoot op :=
  ⟨fun st hat hroot => ⟨hat.of_same (h st (fun _ => hat) hroot).same,
    (h st (fun _ => hat) hroot).quiet⟩, fun _ => h⟩

section Operators

variable {atRoot : Bool} {op1 op2 : Operation D}

lemma operand_state (op : Operation D) (unset : ℕ) (st : State D) :
    (if op.isEnd then (unset, st) else evaluateOperation doc env op st).2 =
      (evaluateOperation doc env op st).2 := by
  cases op <;> simp [Operation.isEnd, evaluateOperation]

def bothState (doc : Document) (env : Env D) (op1 op2 : Operation D) (st : State D) : State D :=
  (evaluateOperation doc env op2 (evaluateOperation doc env op1 st).2).2.logOperands
    st.context.node (evaluateOperation doc env op1 st).2.context.node

lemma evaluateBoth_state (unset : ℕ) (st : State D) :
    (evaluateBoth unset op1.isEnd op2.isEnd (evaluateOperation doc env op1)
      (evaluateOperation doc env op2) st).2.2 = bothState doc env op1 op2 st := by
  simp only [evaluateBoth, operand_state, bothState]

section

variable (h1 : Behaves doc env atRoot op1) (hkeeps : op1.keeps atRoot = true)
  (h2 : Behaves doc env atRoot op2)

include h1 hkeeps h2

/-- The first operand leaves the context node to the second one. -/
lemma bothState_mild (st : State D) (hat : AtNode st.context)
    (hroot : atRoot = true → st.context.node = some doc.root) :
    AtNode (bothState doc env op1 op2 st).context ∧ Quiet st (bothState doc env op1 op2 st) := by
  have hk := h1.kept hkeeps st (fun _ => hat) hroot
  obtain ⟨hat', hq⟩ := h2.mild _ (hat.of_same hk.same) (fun h => hk.same.node.trans (hroot h))
  exact ⟨hat', hk.quiet.trans (hq.trans ⟨rfl, [_], rfl, by simp [hk.same.node]⟩)⟩

lemma bothState_kept (hkeeps2 : op2.keeps atRoot = true) (st : State D) (hclean : st.context.Clean)
    (hroot : atRoot = true → st.context.node = some doc.root) :
    Kept st (bothState doc env op1 op2 st) := by
  have hk := h1.kept hkeeps st hclean hroot
  have hk' := hk.trans (h2.kept hkeeps2 _ (hclean.of_same hk.same)
    (fun h => hk.same.node.trans (hroot h)))
  exact ⟨hk'.quiet.trans ⟨rfl, [_], rfl, by simp [hk.same.node]⟩, hk'.same⟩

lemma Behaves.union : Behaves doc env atRoot (.union op1 op2) := by
  have hstate (st : State D) : (evaluateOperation doc env (.union op1 op2) st).2 =
      bothState doc env op1 op2 st := by
    rw [evaluateOperation]
    exact evaluateBoth_state 0 st
  refine ⟨?_, ?_⟩
  · intro st hat hroot
    rw [hstate]
    exact bothState_mild h1 hkeeps h2 st hat hroot
  · intro hk st hclean hroot
    rw [hstate]
    simp only [Operation.keeps, Bool.and_eq_true] at hk
    exact bothState_kept h1 hkeeps h2 hk.2 st hclean hroot

end

lemma evaluateTest_state {test : List (ResultNode D) → List (ResultNode D) → Bool × List Pointer}
    (hend1 : op1.isEnd = false) (hend2 : op2.isEnd = false)
    (hp2 : Pushes (evaluateOperation doc env op2))
    (hfree : ∀ st st', (test (pushed (evaluateOperation doc env op1) st).reverse
      (pushed (evaluateOperation doc env op2) st').reverse).2 = []) (st : State D) :
    let st' := (evaluateTest env test op1.isEnd op2.isEnd (evaluateOperation doc env op1)
      (evaluateOperation doc env op2) st).2
    st'.context = (bothState doc env op1 op2 st).context ∧
      st'.freed = (bothState doc env op1 op2 st).freed ∧
      st'.operands = (bothState doc env op1 op2 st).operands := by
  have hcounts : evaluateBoth env.unset op1.isEnd op2.isEnd (evaluateOperation doc env op1)
      (evaluateOperation doc env op2) st = ((evaluateOperation doc env op1 st).1,
        (evaluateOperation doc env op2 (evaluateOperation doc env op1 st).2).1,
        bothState doc env op1 op2 st) := by
    simp [evaluateBoth, hend1, hend2, bothState]
  have harr2 : (bothState doc env op1 op2 st).stack.take
      (evaluateOperation doc env op2 (evaluateOperation doc env op1 st).2).1 =
      (pushed (evaluateOperation doc env op2) (evaluateOperation doc env op1 st).2).reverse := by
    rw [pushed, List.reverse_reverse]
    rfl
  have harr1 : ((bothState doc env op1 op2 st).stack.drop
      (evaluateOperation doc env op2 (evaluateOperation doc env op1 st).2).1).take
        (evaluateOperation doc env op1 st).1 =
      (pushed (evaluateOperation doc env op1) st).reverse := by
    have hstack : (bothState doc env op1 op2 st).stack =
        (pushed (evaluateOperation doc env op2) (evaluateOperation doc env op1 st).2).reverse ++
          (evaluateOperation doc env op1 st).2.stack := hp2.stack_eq _
    rw [hstack, ← hp2.length_pushed, ← List.length_reverse, List.drop_left, pushed,
      List.reverse_reverse]
  simp only [evaluateTest, hcounts, harr1, harr2]
  refine ⟨rfl, ?_, rfl⟩
  simp [State.push, State.free, State.drop, hfree]

lemma Behaves.test {op : Operation D}
    {test : List (ResultNode D) → List (ResultNode D) → Bool × List Pointer}
    (hop : evaluateOperation doc env op = evaluateTest env test op1.isEnd op2.isEnd
      (evaluateOperation doc env op1) (evaluateOperation doc env op2))
    (hkeeps : op.keeps atRoot = (op1.keeps atRoot && op2.keeps atRoot))
    (hcomplete : (!op1.isEnd && !op2.isEnd && op1.complete && op2.complete) = true)
    (h1 : Behaves doc env atRoot op1) (hkeeps1 : op1.keeps atRoot = true)
    (h2 : Behaves doc env atRoot op2)
    (hfree : ∀ arr1 arr2 : List (ResultNode D), (∀ r ∈ arr1, op1.Gives env r.kind) →
      (∀ r ∈ arr2, op2.Gives env r.kind) → (test arr1 arr2).2 = []) :
    Behaves doc env atRoot op := by
  simp only [Bool.and_eq_true, Bool.not_eq_true'] at hcomplete
  obtain ⟨⟨⟨hend1, hend2⟩, hc1⟩, hc2⟩ := hcomplete
  have hstate (st : State D) := @evaluateTest_state D doc env op1 op2 test hend1 hend2
    (evaluateOperation_pushes op2 hc2).1
    (fun st st' => hfree _ _
      (fun r hr => gives_of_mem_pushed op1 hc1 st r (List.mem_reverse.mp hr))
      (fun r hr => gives_of_mem_pushed op2 hc2 st' r (List.mem_reverse.mp hr))) st
  refine ⟨?_, ?_⟩
  · intro st hat hroot
    obtain ⟨hcontext, hfreed, hoperands⟩ := hstate st
    obtain ⟨hat', hq⟩ := bothState_mild h1 hkeeps1 h2 st hat hroot
    rw [hop]
    exact ⟨hcontext ▸ hat', hfreed ▸ hq.freed, hoperands ▸ hq.operands⟩
  · intro hk st hclean hroot
    obtain ⟨hcontext, hfreed, hoperands⟩ := hstate st
    rw [hkeeps, Bool.and_eq_true] at hk
    obtain ⟨hq, hsame⟩ := bothState_kept h1 hkeeps1 h2 hk.2 st hclean hroot
    rw [hop]
    exact ⟨⟨hfreed ▸ hq.freed, hoperands ▸ hq.operands⟩, hcontext ▸ hsame⟩

lemma testOr_frees (h1 : op1.Loose env) (h2 : op2.Loose env) (arr1 arr2 : List (ResultNode D))
    (harr1 : ∀ r ∈ arr1, op1.Gives env r.kind) (harr2 : ∀ r ∈ arr2, op2.Gives env r.kind) :
    (testOr env arr1 arr2).2 = [] ∧ (testAnd env arr1 arr2).2 = [] := by
  have hloose {op : Operation D} (h : op.Loose env) {arr : List (ResultNode D)}
      (harr : ∀ r ∈ arr, op.Gives env r.kind) : (convertToBoolean env arr).2 = [] :=
    convertToBoolean_frees fun r hr =>
      ⟨fun he => h.1 (he ▸ harr r hr), fun he => h.2 (he ▸ harr r hr)⟩
  unfold testOr testAnd
  dsimp only
  split <;> simp [hloose h1 harr1, hloose h2 harr2]

lemma compareSets_frees (h : op1.Textual env ∧ op2.Textual env ∨
      op1.Loose env ∧ op2.Loose env ∧ (op1.Scalar env ∨ op2.Scalar env))
    (arr1 arr2 : List (ResultNode D)) (harr1 : ∀ r ∈ arr1, op1.Gives env r.kind)
    (harr2 : ∀ r ∈ arr2, op2.Gives env r.kind) : (compareSets doc env arr1 arr2).2 = [] := by
  rcases h with ⟨h1, h2⟩ | ⟨h1, h2, h⟩
  · exact compareSets_textual
      (fun r hr => ⟨fun he => h1.1 (he ▸ harr1 r hr), fun he => h1.2 (he ▸ harr1 r hr)⟩)
      (fun r hr => ⟨fun he => h2.1 (he ▸ harr2 r hr), fun he => h2.2 (he ▸ harr2 r hr)⟩)
  · exact compareSets_scalar
      (fun r hr => ⟨fun he => h1.1 (he ▸ harr1 r hr), fun he => h1.2 (he ▸ harr1 r hr)⟩)
      (fun r hr => ⟨fun he => h2.1 (he ▸ harr2 r hr), fun he => h2.2 (he ▸ harr2 r hr)⟩)
      (h.imp (fun h r hr => h _ (harr1 r hr)) (fun h r hr => h _ (harr2 r hr)))

lemma evaluatePredicateCondition_state (n : ℕ) (st : State D) :
    (evaluatePredicateCondition env n st).2 = st.drop n := by
  match n with
  | 0 => rfl
  | 1 =>
    unfold evaluatePredicateCondition
    dsimp only
    split <;> rfl
  | n + 2 => rfl

lemma testPredicate_mild (place : ℕ) (h : Behaves doc env false op1) (st : State D)
    (hat : AtNode st.context) :
    let st' := (testPredicate env place op1.isEnd (evaluateOperation doc env op1) st).2
    AtNode st'.context ∧ Quiet st st' := by
  unfold testPredicate
  cases op1.isEnd with
  | true => exact ⟨hat, rfl, [], by simp [State.tick]⟩
  | false =>
    simp only [Bool.false_eq_true, if_false, evaluatePredicateCondition_state]
    obtain ⟨hat', hq⟩ := h.mild (st.tick place) hat (by simp)
    exact ⟨⟨hat'.node, hat'.attr, hat'.ns⟩, hq.freed, hq.operands⟩

lemma testPredicate_away (place : ℕ) (h : Behaves doc env false op1)
    (hkeeps : op1.keeps false = true) (st : State D) (hnone : st.context.node = none) :
    Kept st (testPredicate env place op1.isEnd (evaluateOperation doc env op1) st).2 := by
  unfold testPredicate
  cases op1.isEnd with
  | true => exact ⟨⟨rfl, [], by simp [State.tick]⟩, rfl, rfl, rfl⟩
  | false =>
    simp only [Bool.false_eq_true, if_false, evaluatePredicateCondition_state]
    have hclean : (st.tick place).context.Clean := fun hsome => by
      simp [State.tick, hnone] at hsome
    obtain ⟨hq, hsame⟩ := h.kept hkeeps (st.tick place) hclean (by simp)
    exact ⟨⟨hq.freed, hq.operands⟩, hsame.node, hsame.attr, hsame.ns⟩

lemma Mild.evaluatePredicate {place : ℕ} {pred : Operation D} {next : Evaluation D}
    (h : Behaves doc env false op1) (hnext : Mild (evaluatePredicate doc env pred next)) :
    Mild (evaluatePredicate doc env (.predicate place op1 pred) next) := by
  intro st hat
  obtain ⟨hat', hq⟩ := testPredicate_mild place h st hat
  rw [Axis2C.XPath.evaluatePredicate]
  dsimp only
  split
  · obtain ⟨hat'', hq'⟩ := hnext ((testPredicate env place op1.isEnd
      (evaluateOperation doc env op1) st).2.setNode st.context.node) ⟨hat.node, hat'.attr, hat'.ns⟩
    exact ⟨hat'', hq.trans ⟨hq'.freed, hq'.operands⟩⟩
  · exact ⟨hat', hq⟩

lemma KeptAway.evaluatePredicate {place : ℕ} {pred : Operation D} {next : Evaluation D}
    (h : Behaves doc env false op1) (hkeeps : op1.keeps false = true)
    (hnext : KeptAway (evaluatePredicate doc env pred next)) :
    KeptAway (evaluatePredicate doc env (.predicate place op1 pred) next) := by
  intro st hnone
  have hk := testPredicate_away place h hkeeps st hnone
  rw [Axis2C.XPath.evaluatePredicate]
  dsimp only
  split
  · have hback : Kept st ((testPredicate env place op1.isEnd (evaluateOperation doc env op1)
        st).2.setNode st.context.node) :=
      ⟨⟨hk.quiet.freed, hk.quiet.operands⟩, rfl, hk.same.attr, hk.same.ns⟩
    exact hback.trans (hnext _ hnone)
  · exact hk

lemma Mild.visitFiltered (size : ℕ) {f : Evaluation D} (hf : Mild f) (l : List (ResultNode D))
    (i : ℕ) : Mild (visitFiltered size f i l) := by
  induction l generalizing i with
  | nil => exact fun st h => ⟨h, .refl st⟩
  | cons r l ih =>
    cases r with
    | node n =>
      intro st hat
      have hn : AtNode ((st.setNode (some n)).setPosition (i + 1) size).context :=
        ⟨rfl, hat.attr, hat.ns⟩
      have hquiet : Quiet st ((st.setNode (some n)).setPosition (i + 1) size) :=
        ⟨rfl, [], by simp [State.setNode, State.setPosition]⟩
      obtain ⟨hat', hq⟩ := hf _ hn
      obtain ⟨hat'', hq'⟩ := ih (i + 1) _ hat'
      exact ⟨hat'', (hquiet.trans hq).trans hq'⟩
    | attr a | ns m | text p t | number p v | boolean b | unset => exact ih (i + 1)

/-- What predicates may do to the context, before what is evaluated behind them. -/
structure PredicatesBehave (doc : Document) (env : Env D) (pred : Operation D) : Prop where
  mild : ∀ next, Mild next → Mild (evaluatePredicate doc env pred next)
  away : pred.predicatesKeep = true → ∀ next, KeptAway next →
    KeptAway (evaluatePredicate doc env pred next)

lemma complete_operands
    (hop : (!op1.isEnd && !op2.isEnd && op1.complete && op2.complete) = true) :
    op1.complete = true ∧ op2.complete = true := by
  simp only [Bool.and_eq_true] at hop
  exact ⟨hop.1.2, hop.2⟩

lemma Behaves.rootNode (h : Behaves doc env true op1) :
    Behaves doc env atRoot (.rootNode op1) := by
  refine ⟨?_, ?_⟩
  · intro st hat _
    rw [evaluateOperation]
    dsimp only
    split
    · exact ⟨hat, .refl st⟩
    · obtain ⟨hat', hq⟩ := h.mild (st.setNode (some doc.root)) ⟨rfl, hat.attr, hat.ns⟩
        (fun _ => rfl)
      exact ⟨hat', hq.freed, hq.operands⟩
  · intro hk st hclean hroot
    rw [evaluateOperation]
    dsimp only
    split
    · exact .refl st
    next hend =>
    simp only [Operation.keeps, hend, Bool.false_or, Bool.and_eq_true] at hk
    have hnode := hroot hk.1
    have hat : AtNode st.context := hclean (by rw [hnode]; rfl)
    obtain ⟨hq, hsame⟩ := h.kept hk.2 (st.setNode (some doc.root))
      (fun _ => ⟨rfl, hat.attr, hat.ns⟩) (fun _ => rfl)
    exact ⟨⟨hq.freed, hq.operands⟩, hsame.node.trans hnode.symm, hsame.attr, hsame.ns⟩

lemma Behaves.contextNode (h : Behaves doc env atRoot op1) :
    Behaves doc env atRoot (.contextNode op1) := by
  have hstate (st : State D) : (evaluateOperation doc env (.contextNode op1) st).2 =
      (evaluateOperation doc env op1 st).2 := by
    rw [evaluateOperation]
    exact operand_state op1 0 st
  refine ⟨?_, ?_⟩
  · intro st hat hroot
    rw [hstate]
    exact h.mild st hat hroot
  · intro hk st hclean hroot
    rw [hstate]
    exact h.kept hk st hclean hroot

lemma Behaves.pathExpression (h1 : Behaves doc env atRoot op1) (h2 : Behaves doc env false op2) :
    Behaves doc env atRoot (.pathExpression op1 op2) := by
  have hmild : Mild (evaluateOperation doc env op2) := fun st hat => h2.mild st hat (by simp)
  refine ⟨?_, ?_⟩
  · intro st hat hroot
    rw [evaluateOperation]
    dsimp only
    split
    · exact ⟨hat, .refl st⟩
    obtain ⟨hat', hq⟩ := h1.mild st hat hroot
    split
    · exact ⟨hat', hq⟩
    · obtain ⟨hat'', hq'⟩ := hmild.visitFiltered (evaluateOperation doc env op1 st).1
        ((evaluateOperation doc env op1 st).2.stack.take (evaluateOperation doc env op1 st).1) 0
        ((evaluateOperation doc env op1 st).2.drop (evaluateOperation doc env op1 st).1) hat'
      exact ⟨hat'', hq.trans ⟨hq'.freed, hq'.operands⟩⟩
  · intro hk st hclean hroot
    rw [evaluateOperation]
    dsimp only
    split
    · exact .refl st
    next hend =>
    simp only [Operation.keeps, hend, Bool.false_or, Bool.and_eq_true] at hk
    rw [if_pos hk.1]
    exact h1.kept hk.2 st hclean hroot

/-- Results that are pushed change nothing else. -/
lemma foldl_push_fields (results : List (ResultNode D)) (st : State D) :
    (results.foldl State.push st).context = st.context ∧
      (results.foldl State.push st).freed = st.freed ∧
      (results.foldl State.push st).operands = st.operands := by
  induction results generalizing st with
  | nil => exact ⟨rfl, rfl, rfl⟩
  | cons r results ih => exact ih (st.push r)

lemma Behaves.functionCall {name : Text} (h : Behaves doc env atRoot op1) :
    Behaves doc env atRoot (.functionCall name op1) := by
  have hstate (st : State D) :
      let st' := (evaluateOperation doc env (.functionCall name op1) st).2
      st' = st ∨ st'.context = (evaluateOperation doc env op1 st).2.context ∧
        st'.freed = (evaluateOperation doc env op1 st).2.freed ∧
        st'.operands = (evaluateOperation doc env op1 st).2.operands := by
    rw [evaluateOperation]
    cases env.functions name with
    | none => exact .inl rfl
    | some func =>
      right
      dsimp only
      rw [operand_state]
      exact foldl_push_fields _ ((evaluateOperation doc env op1 st).2.drop _)
  refine ⟨?_, ?_⟩
  · intro st hat hroot
    obtain ⟨hat', hq⟩ := h.mild st hat hroot
    rcases hstate st with heq | ⟨hcontext, hfreed, hoperands⟩
    · rw [heq]
      exact ⟨hat, .refl st⟩
    · exact ⟨hcontext ▸ hat', hfreed ▸ hq.freed, hoperands ▸ hq.operands⟩
  · intro hk st hclean hroot
    obtain ⟨hq, hsame⟩ := h.kept hk st hclean hroot
    rcases hstate st with heq | ⟨hcontext, hfreed, hoperands⟩
    · rw [heq]
      exact .refl st
    · exact ⟨⟨hfreed ▸ hq.freed, hoperands ▸ hq.operands⟩, hcontext ▸ hsame⟩

lemma Behaves.argument (h : Behaves doc env atRoot op1)
    (hor : op2.isEnd = true ∨ op1.keeps atRoot = true) :
    Behaves doc env atRoot (.argument op1 op2) := by
  have hstate (st : State D) : (evaluateOperation doc env (.argument op1 op2) st).2 =
      if op2.isEnd then (evaluateOperation doc env op1 st).2
      else (evaluateOperation doc env op1 (evaluateOperation doc env op1 st).2).2 := by
    rw [evaluateOperation]
    dsimp only
    rw [operand_state]
    split <;> rfl
  refine ⟨?_, ?_⟩
  · intro st hat hroot
    rw [hstate]
    obtain ⟨hat', hq⟩ := h.mild st hat hroot
    split
    · exact ⟨hat', hq⟩
    next hend =>
    have hk := h.kept (hor.resolve_left hend) st (fun _ => hat) hroot
    obtain ⟨hat'', hq'⟩ := h.mild _ hat' (fun hr => hk.same.node.trans (hroot hr))
    exact ⟨hat'', hq.trans hq'⟩
  · intro hkeeps st hclean hroot
    rw [hstate]
    have hk := h.kept hkeeps st hclean hroot
    split
    · exact hk
    · exact hk.trans (h.kept hkeeps _ (hclean.of_same hk.same)
        (fun hr => hk.same.node.trans (hroot hr)))

lemma behaves_of_orderly (op : Operation D) (hop : op.complete = true) :
    (∀ atRoot, op.Orderly env atRoot → Behaves doc env atRoot op) ∧
      (op.Orderly env false → PredicatesBehave doc env op) := by
  induction op with
  | parseEnd =>
    refine ⟨fun atRoot _ => behaves_of_kept fun st _ _ => .refl st, fun _ => ?_⟩
    exact ⟨fun next h => h, fun _ next h => h⟩
  | rootNode op1 ih =>
    refine ⟨fun atRoot h => ?_, fun _ => ⟨fun next h => h, fun _ next h => h⟩⟩
    exact Behaves.rootNode ((ih hop).1 true h)
  | contextNode op1 ih =>
    refine ⟨fun atRoot h => ?_, fun _ => ⟨fun next h => h, fun _ next h => h⟩⟩
    exact Behaves.contextNode ((ih hop).1 atRoot h)
  | step axis test pred next ihp ihn =>
    refine ⟨fun atRoot h => ?_, fun _ => ⟨fun next h => h, fun _ next h => h⟩⟩
    simp only [Operation.complete, Bool.and_eq_true] at hop
    obtain ⟨hpred, hnext, hkeeps, haxis⟩ := h
    have hbehaves := (ihn hop.2).1 false hnext
    have hpreds := (ihp hop.1).2 hpred
    have hmild : Mild (evaluateOperation doc env next) :=
      fun st hat => hbehaves.mild st hat (by simp)
    have haway : KeptAway (evaluateOperation doc env next) := fun st hnone =>
      hbehaves.kept hkeeps st (fun hsome => by simp [hnone] at hsome) (by simp)
    refine behaves_of_kept fun st hclean _ => ?_
    rw [evaluateOperation]
    dsimp only
    split
    · exact .refl st
    · exact kept_iterator axis test (hpreds.mild _ hmild)
        (fun h => hpreds.away (haxis h) _ haway) st hclean
  | result | literal place value | number place value =>
    refine ⟨fun atRoot _ => behaves_of_kept fun st _ _ => ?_, fun _ => ?_⟩
    · exact ⟨⟨rfl, [], by simp [evaluateOperation, State.push]⟩, rfl, rfl, rfl⟩
    · exact ⟨fun next h => h, fun _ next h => h⟩
  | union op1 op2 ih1 ih2 =>
    simp only [Operation.complete, Bool.and_eq_true] at hop
    refine ⟨fun atRoot h => ?_, fun _ => ⟨fun next h => h, fun _ next h => h⟩⟩
    exact Behaves.union ((ih1 hop.1).1 atRoot h.2.1) h.1 ((ih2 hop.2).1 atRoot h.2.2)
  | equalExpr op1 op2 ih1 ih2 =>
    refine ⟨fun atRoot h => ?_, fun _ => ⟨fun next h => h, fun _ next h => h⟩⟩
    obtain ⟨hc1, hc2⟩ := complete_operands hop
    exact Behaves.test rfl rfl hop ((ih1 hc1).1 atRoot h.1.2.1) h.1.1
      ((ih2 hc2).1 atRoot h.1.2.2) (compareSets_frees h.2)
  | andExpr op1 op2 ih1 ih2 =>
    refine ⟨fun atRoot h => ?_, fun _ => ⟨fun next h => h, fun _ next h => h⟩⟩
    obtain ⟨hc1, hc2⟩ := complete_operands hop
    exact Behaves.test rfl rfl hop ((ih1 hc1).1 atRoot h.1.2.1) h.1.1
      ((ih2 hc2).1 atRoot h.1.2.2)
      (fun arr1 arr2 h1 h2 => (testOr_frees h.2.1 h.2.2 arr1 arr2 h1 h2).2)
  | orExpr op1 op2 ih1 ih2 =>
    refine ⟨fun atRoot h => ?_, fun _ => ⟨fun next h => h, fun _ next h => h⟩⟩
    obtain ⟨hc1, hc2⟩ := complete_operands hop
    exact Behaves.test rfl rfl hop ((ih1 hc1).1 atRoot h.1.2.1) h.1.1
      ((ih2 hc2).1 atRoot h.1.2.2)
      (fun arr1 arr2 h1 h2 => (testOr_frees h.2.1 h.2.2 arr1 arr2 h1 h2).1)
  | predicate place op1 next ih1 ihn =>
    simp only [Operation.complete, Bool.and_eq_true] at hop
    refine ⟨fun atRoot _ => behaves_of_kept fun st _ _ => .refl st, fun h => ?_⟩
    have h1 := (ih1 hop.1).1 false h.1
    have hn := (ihn hop.2).2 h.2
    refine ⟨fun next hnext => Mild.evaluatePredicate h1 (hn.mild next hnext), ?_⟩
    intro hkeep next hnext
    simp only [Operation.predicatesKeep, Bool.and_eq_true] at hkeep
    exact KeptAway.evaluatePredicate h1 hkeep.1 (hn.away hkeep.2 next hnext)
  | pathExpression op1 op2 ih1 ih2 =>
    simp only [Operation.complete, Bool.and_eq_true] at hop
    refine ⟨fun atRoot h => ?_, fun _ => ⟨fun next h => h, fun _ next h => h⟩⟩
    exact Behaves.pathExpression ((ih1 hop.1).1 atRoot h.1) ((ih2 hop.2).1 false h.2)
  | functionCall name op1 ih =>
    refine ⟨fun atRoot h => ?_, fun _ => ⟨fun next h => h, fun _ next h => h⟩⟩
    exact Behaves.functionCall ((ih hop).1 atRoot h)
  | argument op1 op2 ih1 ih2 =>
    simp only [Operation.complete, Bool.and_eq_true] at hop
    refine ⟨fun atRoot h => ?_, fun _ => ⟨fun next h => h, fun _ next h => h⟩⟩
    exact Behaves.argument ((ih1 hop.1).1 atRoot h.1) h.2

end Operators

end Kept

section Sessions

variable (doc env)

/-- An expression that can be evaluated in a context again and again. -/
structure Repeatable (context : Context) (expr : Operation D) : Prop where
  complete : expr.complete = true
  keeps : expr.keeps (decide (context.node = some doc.root)) = true
  orderly : expr.Orderly env (decide (context.node = some doc.root))

/-- Expressions that are evaluated in one context after the other, each with its results
and the state behind it. -/
def session : List (Operation D) → Context → List Pointer →
    List (Operation D × List (ResultNode D) × State D)
  | [], _, _ => []
  | expr :: exprs, context, freed =>
    let r := evaluate doc env expr context freed
    (expr, r) :: session exprs r.2.context r.2.freed

variable {doc env}

lemma evaluate_eq (expr : Operation D) (context : Context) (freed : List Pointer) :
    evaluate doc env expr context freed =
      ((evaluateOperation doc env expr (.begin context freed)).2.stack,
        { (evaluateOperation doc env expr (.begin context freed)).2 with stack := [] }) := by
  rw [← operand_state expr 0]
  simp only [evaluate, State.begin]
  split <;> rfl

/-- An evaluation leaves the context and the expression as they were. -/
lemma Repeatable.evaluate {context : Context} {expr : Operation D}
    (h : Repeatable doc env context expr) (hclean : context.Clean) (freed : List Pointer) :
    SameContext context (evaluate doc env expr context freed).2.context ∧
      (evaluate doc env expr context freed).2.freed = freed ∧
      ∀ p ∈ (evaluate doc env expr context freed).2.operands, p.1 = p.2 := by
  have hkept := ((behaves_of_orderly expr h.complete).1 _ h.orderly).kept h.keeps
    (.begin context freed) hclean (fun hr => of_decide_eq_true hr)
  rw [evaluate_eq]
  obtain ⟨new, hnew, hall⟩ := hkept.quiet.operands
  refine ⟨hkept.same, hkept.quiet.freed, ?_⟩
  intro p hp
  apply hall p
  have heq : (evaluateOperation doc env expr (.begin context freed)).2.operands = new := by
    rw [hnew]
    rfl
  rwa [← heq]

/-- The results do not depend on what was done in the context before. -/
lemma evaluate_results (expr : Operation D) {c c' : Context} (h : SameContext c c')
    (freed freed' : List Pointer) :
    (evaluate doc env expr c' freed').1 = (evaluate doc env expr c freed).1 := by
  have hagree : (State.begin c' freed' : State D).Agrees (.begin c freed) :=
    ⟨by simp [State.begin, h.node, h.attr, h.ns], rfl, rfl⟩
  rw [evaluate_eq, evaluate_eq]
  exact ((evaluateOperation_uniform expr).1 _ _ hagree).2.2.1

lemma Repeatable.of_same {c c' : Context} {expr : Operation D} (h : Repeatable doc env c expr)
    (hs : SameContext c c') : Repeatable doc env c' expr := by
  obtain ⟨hcomplete, hkeeps, horderly⟩ := h
  rw [← hs.node] at hkeeps horderly
  exact ⟨hcomplete, hkeeps, horderly⟩

end Sessions

end Axis2C.XPath
