import Axis2C.XPathNodeSets
import Axis2C.XPathTotal

/-!
# The stack of an evaluation

Every operation of a compiled expression pushes as many results as it says, and takes nothing
that was there, exactly when its operands are operations and none is missing where two sets of
results are tested: the number of the results of a missing operand is never set.
-/
namespace Axis2C.XPath
open OpenRecursion

section Parts

variable {D : Type*}

def Operation.operands : Operation D → List (Operation D)
  | .rootNode op1 | .contextNode op1 | .functionCall _ op1 => [op1]
  | .step _ _ op1 op2 | .union op1 op2 | .equalExpr op1 op2 | .andExpr op1 op2 | .orExpr op1 op2
  | .predicate _ op1 op2 | .pathExpression op1 op2 | .argument op1 op2 => [op1, op2]
  | _ => []

def Operation.Part : Operation D → Operation D → Prop :=
  Relation.ReflTransGen fun part op => part ∈ op.operands

variable (doc : Document) (env : Env D)

def argumentValues : Operation D → State D → List (ResultNode D)
  | .argument op1 op2, st => pushed (evaluateOperation doc env op1) st ++
      argumentValues op2 (evaluateOperation doc env op1 st).2
  | op, st => pushed (evaluateOperation doc env op) st

/-- An operation returns how many results it leaves on the stack, its predicates leave it to the
next step, a function takes the values of all its arguments, and a step where there is no node
does nothing. -/
structure Disciplined (op : Operation D) : Prop where
  pushes : ∀ doc env, Pushes (evaluateOperation doc env op)
  predicates : ∀ doc env next, Pushes next → Pushes (evaluatePredicate doc env op next)
  receives : ∀ doc (env : Env D) st name op1 func, op = .functionCall name op1 →
    env.functions name = some func →
      pushed (evaluateOperation doc env op) st =
        (func (argumentValues doc env op1 st).reverse).map FunctionResult.resultNode
  inapplicable : ∀ doc env (st : State D), (∃ axis test pred next, op = .step axis test pred next) →
    st.context.node = none → evaluateOperation doc env op st = (0, st)

variable {doc env} {op part : Operation D} {b : Bool}

lemma Operation.eq_parseEnd (h : op.isEnd = true) : op = .parseEnd := by
  cases op <;> first | rfl | cases h

lemma Operation.complete_operands (h : op.complete = true) : ∀ part ∈ op.operands,
    part.complete = true := by
  cases op <;> simp_all [complete, operands]

lemma Operation.Part.complete (h : Part part op) (hop : op.complete = true) :
    part.complete = true := by
  induction h using Relation.ReflTransGen.head_induction_on with
  | refl => exact hop
  | head hmem _ ih => exact complete_operands ih _ hmem

lemma step_inapplicable (axis : Axis) (test : NodeTest) (pred next : Operation D) (st : State D)
    (h : st.context.node = none) :
    evaluateOperation doc env (.step axis test pred next) st = (0, st) := by
  simp [evaluateOperation, iterator, h]

lemma pushed_functionCall {name : Text} {op1 : Operation D}
    {func : List (ResultNode D) → List (FunctionResult D)}
    (hop1 : Pushes (evaluateOperation doc env op1)) (hfunc : env.functions name = some func)
    (st : State D) :
    pushed (evaluateOperation doc env (.functionCall name op1)) st =
      (func (pushed (evaluateOperation doc env op1) st).reverse).map FunctionResult.resultNode := by
  have hstack : (evaluateOperation doc env (.functionCall name op1) st).2.stack =
      ((func (pushed (evaluateOperation doc env op1) st).reverse).map
        FunctionResult.resultNode).reverse ++ st.stack := by
    rw [evaluateOperation]
    simp only [hfunc, evaluateOperation_isEnd, foldl_push_stack, State.drop_stack, pushed,
      List.reverse_reverse]
    rw [hop1.stack_eq, ← hop1.length_pushed, ← List.length_reverse, List.drop_left]
  rw [pushed_of_stack hstack, List.reverse_reverse]
  simp [evaluateOperation, hfunc, evaluateOperation_isEnd, pushed]

lemma Operation.Made.operands (h : op.Made b) : ∀ part ∈ op.operands, ∃ b', part.Made b' := by
  intro part hpart
  cases op with
  | andExpr op1 op2 => exact h.elim
  | rootNode op1 =>
    obtain rfl := List.mem_singleton.mp hpart
    exact ⟨_, h.2⟩
  | contextNode op1 | functionCall name op1 =>
    obtain rfl := List.mem_singleton.mp hpart
    exact ⟨_, h⟩
  | argument op1 op2 =>
    obtain rfl | rfl := List.mem_pair.mp hpart
    · exact ⟨_, h.1⟩
    · rw [Operation.eq_parseEnd h.2]
      exact ⟨false, trivial⟩
  | step axis test op1 op2 | union op1 op2 | equalExpr op1 op2 | orExpr op1 op2
  | predicate place op1 op2 | pathExpression op1 op2 =>
    obtain rfl | rfl := List.mem_pair.mp hpart
    · exact ⟨_, h.1⟩
    · exact ⟨_, h.2⟩
  | _ => cases hpart

lemma Operation.Part.made (h : Part part op) (hop : op.Made b) : ∃ b', part.Made b' := by
  induction h using Relation.ReflTransGen.head_induction_on with
  | refl => exact ⟨b, hop⟩
  | head hmem _ ih =>
    obtain ⟨b', hb'⟩ := ih
    exact hb'.operands _ hmem

/-- A single argument is evaluated once. -/
lemma argumentValues_of_made (hop : op.Made b) (st : State D) :
    argumentValues doc env op st = pushed (evaluateOperation doc env op) st := by
  cases op with
  | argument op1 op2 =>
    obtain rfl := Operation.eq_parseEnd hop.2
    have hend : (Operation.parseEnd : Operation D).isEnd = true := rfl
    have hone : evaluateOperation doc env (.argument op1 .parseEnd) st =
        evaluateOperation doc env op1 st := by
      simp only [evaluateOperation, evaluateOperation_isEnd, hend, if_true, add_zero]
    have hlast : argumentValues doc env .parseEnd (evaluateOperation doc env op1 st).2 = [] := by
      simp [argumentValues, pushed, evaluateOperation]
    rw [argumentValues, hlast, List.append_nil, pushed, pushed, hone]
  | _ => rfl

/-- An operation with all its operands. -/
lemma disciplined_of_complete (hop : op.complete = true) (hmade : op.Made b) : Disciplined op where
  pushes doc env := (evaluateOperation_pushes op hop).1
  predicates doc env := (evaluateOperation_pushes op hop).2
  receives := by
    rintro doc env st name op1 func rfl hfunc
    rw [pushed_functionCall (evaluateOperation_pushes op1 hop).1 hfunc,
      argumentValues_of_made (b := false) hmade]
  inapplicable := by
    rintro doc env st ⟨axis, test, pred, next, rfl⟩ hnone
    exact step_inapplicable axis test pred next st hnone

lemma Pushes.length_stack {f : Evaluation D} (hf : Pushes f) (st : State D) :
    (f st).2.stack.length = (f st).1 + st.stack.length := by
  obtain ⟨p, hp, hlen⟩ := hf st
  rw [hp, List.length_append, hlen]

/-- A test with a missing operand takes a result that it did not push: the number of the results
of that operand is whatever is found in its place. -/
lemma not_pushes_of_isEnd {test : List (ResultNode D) → List (ResultNode D) → Bool × List Pointer}
    {end1 end2 : Bool} {f1 f2 : Evaluation D} (hf1 : Pushes f1) (hf2 : Pushes f2)
    (hunset : env.unset = 1) (hend : end1 = true ∨ end2 = true) :
    ¬ Pushes (evaluateTest env test end1 end2 f1 f2) := by
  intro hpushes
  let st : State D := (State.begin ⟨none, none, none, 0, 0⟩ []).push .unset
  have hstart : st.stack.length = 1 := rfl
  have hlength := hpushes.length_stack st
  have h1 := hf1.length_stack st
  have h2 := hf2.length_stack st
  have h12 := hf2.length_stack (f1 st).2
  cases end1 with
  | true =>
    cases end2 with
    | true | false => simp [evaluateTest, evaluateBoth, hunset, hstart] at hlength h2 <;> omega
  | false =>
    obtain rfl : end2 = true := hend.resolve_left (by decide)
    simp [evaluateTest, evaluateBoth, hunset, hstart] at hlength h1
    omega

/-- Where both operands keep to the stack, the test of them does only if both are there. -/
lemma not_isEnd_of_pushes [Inhabited D] {op1 op2 : Operation D}
    (test : Document → Env D → List (ResultNode D) → List (ResultNode D) → Bool × List Pointer)
    (h1 : op1.complete = true) (h2 : op2.complete = true)
    (h : ∀ doc (env : Env D), Pushes (evaluateTest env (test doc env) op1.isEnd op2.isEnd
      (evaluateOperation doc env op1) (evaluateOperation doc env op2))) :
    (!op1.isEnd && !op2.isEnd && op1.complete && op2.complete) = true := by
  let env : Env D := ⟨fun _ => none, fun _ => none, fun _ => default, fun _ _ => false,
    fun _ => false, fun _ => [], 1⟩
  have hnot : ¬ (op1.isEnd = true ∨ op2.isEnd = true) := fun hend =>
    not_pushes_of_isEnd (evaluateOperation_pushes op1 h1).1 (evaluateOperation_pushes op2 h2).1
      rfl hend (h rootElement env)
  simp only [not_or, Bool.not_eq_true] at hnot
  simp [h1, h2, hnot]

lemma complete_of_disciplined [Inhabited D] (h : ∀ part, Operation.Part part op → Disciplined part) :
    op.complete = true := by
  induction op with
  | parseEnd | result | literal place value | number place value => rfl
  | rootNode op1 ih | contextNode op1 ih | functionCall name op1 ih =>
    exact ih fun part hpart => h part (hpart.tail (by simp [Operation.operands]))
  | step axis test op1 op2 ih1 ih2 | union op1 op2 ih1 ih2 | predicate place op1 op2 ih1 ih2
  | pathExpression op1 op2 ih1 ih2 | argument op1 op2 ih1 ih2 =>
    have h1 := ih1 fun part hpart => h part (hpart.tail (by simp [Operation.operands]))
    have h2 := ih2 fun part hpart => h part (hpart.tail (by simp [Operation.operands]))
    simp [Operation.complete, h1, h2]
  | equalExpr op1 op2 ih1 ih2 | andExpr op1 op2 ih1 ih2 | orExpr op1 op2 ih1 ih2 =>
    have h1 := ih1 fun part hpart => h part (hpart.tail (by simp [Operation.operands]))
    have h2 := ih2 fun part hpart => h part (hpart.tail (by simp [Operation.operands]))
    have hpushes := (h _ .refl).pushes
    simp only [evaluateOperation] at hpushes
    first
    | exact not_isEnd_of_pushes compareSets h1 h2 hpushes
    | exact not_isEnd_of_pushes (fun _ => testAnd) h1 h2 hpushes
    | exact not_isEnd_of_pushes (fun _ => testOr) h1 h2 hpushes

/-- The operations of an expression keep to the stack exactly when no test lacks an operand. -/
lemma disciplined_iff_complete [Inhabited D] (hmade : op.Made b) :
    (∀ part, Operation.Part part op → Disciplined part) ↔ op.complete = true := by
  refine ⟨complete_of_disciplined, fun hop part hpart => ?_⟩
  obtain ⟨b', hb'⟩ := hpart.made hmade
  exact disciplined_of_complete (hpart.complete hop) hb'

end Parts

section Compiled

variable (D : Type*) [Add D] [Mul D] [Div D] [NatCast D]

/-- A text and what it was compiled to. -/
structure CompiledText where
  text : Text
  start : ℤ
  expression : Expression D
  returns : Returns compileBody (compileExpression text) (some (start, expression))

variable {D}

def CompiledText.operation (x : CompiledText D) : Option (Operation D) :=
  operationAt x.expression.operations x.start

def CompiledText.KeepsStack (x : CompiledText D) : Prop :=
  ∃ op ∈ x.operation, ∀ part, Operation.Part part op → Disciplined part

/-- A compiled expression keeps to the stack exactly when its operands are operations and none
of `or`, `and` and `=` lacks one. -/
theorem keepsStack_iff (x : CompiledText D) :
    x.KeepsStack ↔ ∃ op ∈ x.operation, op.complete = true := by
  have : Inhabited D := ⟨((0 : ℕ) : D)⟩
  obtain ⟨fuel, hfuel⟩ := x.returns.exists
  have hkeeps := (sound_iterate fuel _ _ _ (compileExpression_eq hfuel)).1
  refine exists_congr fun op => and_congr_right fun hop => ?_
  exact disciplined_iff_complete (hkeeps.holds.made op hop)

/-- `a=` is compiled to a test without its second operand. -/
def missingOperand : CompiledText ℚ where
  text := ['a', '=']
  start := 4
  expression := ⟨[], [⟨.equalExpr, 3, -1⟩, ⟨.contextNode, 2, -1⟩, ⟨.step, 0, 1⟩, ⟨.result, -1, -1⟩,
    ⟨.nodeTest ⟨.standard, none, some ['a'], none⟩ .child, -1, -1⟩]⟩
  returns := by
    have hiterate : iterate compileBody 8 .orexpr (⟨['a', '='], []⟩ : Expression ℚ) =
        some (4, ⟨[], [⟨.equalExpr, 3, -1⟩, ⟨.contextNode, 2, -1⟩, ⟨.step, 0, 1⟩, ⟨.result, -1, -1⟩,
          ⟨.nodeTest ⟨.standard, none, some ['a'], none⟩ .child, -1, -1⟩]⟩) := by
      decide +kernel
    exact (compile_regular.returns hiterate).of_eq fun c hc => by rw [compileExpression, hc]; rfl

theorem missingOperand_not_keepsStack : ¬ missingOperand.KeepsStack := by
  rintro ⟨op, hop, hparts⟩
  have : Inhabited ℚ := ⟨0⟩
  have hcomplete := complete_of_disciplined hparts
  obtain rfl := Option.some.inj hop
  cases hcomplete

end Compiled

end Axis2C.XPath
