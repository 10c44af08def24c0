import Axis2C.OmLinks

/-!
# The XPath engine

`xpath_internals_engine.c` and `xpath_internals_iterators.c`. The operations of a compiled
expression point to their operands by index, each one from a single place, so that they
are a tree here. The document is built and does not change; its links are walked in
finitely many steps, for which three ranks stand.
-/
namespace Axis2C.XPath
open Om (NodeType)

abbrev Text := List Char

section Documents

/-- A tree of AXIOM nodes under the dummy root of a context. -/
structure Document where
  root : ℕ
  parent : ℕ → Option ℕ
  prev : ℕ → Option ℕ
  next : ℕ → Option ℕ
  firstChild : ℕ → Option ℕ
  lastChild : ℕ → Option ℕ
  /-- Falls along first children and next siblings. -/
  behind : ℕ → ℕ
  /-- Falls along last children and previous siblings. -/
  before : ℕ → ℕ
  depth : ℕ → ℕ
  parent_depth : ∀ {n m}, parent n = some m → depth m < depth n
  next_behind : ∀ {n m}, next n = some m → behind m < behind n
  firstChild_behind : ∀ {n m}, firstChild n = some m → behind m < behind n
  prev_before : ∀ {n m}, prev n = some m → before m < before n
  lastChild_before : ∀ {n m}, lastChild n = some m → before m < before n
  nodeType : ℕ → NodeType
  localname : ℕ → Option Text
  nsUri : ℕ → Option Text
  text : ℕ → Option Text
  attributes : ℕ → List ℕ
  attributeName : ℕ → Option Text
  attributeUri : ℕ → Option Text
  attributeValue : ℕ → Option Text
  namespaces : ℕ → List ℕ
  nsPrefix : ℕ → Option Text

/-- The loops of the iterators: from a node they go down and along, and `join` puts the
node, what is below it and what is behind it in the order of the visits. The stacks of the
source hold the nodes on the way down. -/
def walk (join : ℕ → List ℕ → List ℕ → List ℕ) (down along : ℕ → Option ℕ) :
    ℕ → Option ℕ → List ℕ
  | _, none => []
  | 0, some _ => []
  | fuel + 1, some n =>
    join n (walk join down along fuel (down n)) (walk join down along fuel (along n))

def nodeOnly (n : ℕ) (_below behind : List ℕ) : List ℕ := n :: behind

def childrenFirst (n : ℕ) (below behind : List ℕ) : List ℕ := below ++ n :: behind

def nodeFirst (n : ℕ) (below behind : List ℕ) : List ℕ := n :: below ++ behind

namespace Document

variable (doc : Document)

def nextSiblings (n : Option ℕ) : List ℕ :=
  walk nodeOnly (fun _ => none) doc.next (n.elim 0 doc.behind + 1) n

def previousSiblings (n : Option ℕ) : List ℕ :=
  walk nodeOnly (fun _ => none) doc.prev (n.elim 0 doc.before + 1) n

def parents (n : Option ℕ) : List ℕ :=
  walk nodeOnly (fun _ => none) doc.parent (n.elim 0 doc.depth + 1) n

/-- The descendants in the order of the loop: children in front of their parents. -/
def descendants (n : Option ℕ) : List ℕ :=
  walk childrenFirst doc.firstChild doc.next (n.elim 0 doc.behind + 1) n

def forwards (n : Option ℕ) : List ℕ :=
  walk nodeFirst doc.firstChild doc.next (n.elim 0 doc.behind + 1) n

def backwards (n : Option ℕ) : List ℕ :=
  walk nodeFirst doc.lastChild doc.prev (n.elim 0 doc.before + 1) n

/-- The context node is on the stack twice when the loop over its parents begins. -/
def followingNodes (n : ℕ) : List ℕ :=
  doc.forwards (doc.next n) ++ (doc.parents (some n)).flatMap fun p => doc.forwards (doc.next p)

def precedingNodes (n : ℕ) : List ℕ :=
  (doc.parents (some n)).flatMap fun p => doc.backwards (doc.prev p)

end Document

end Documents

section Operations

/-- `axiom_xpath_axis_t`. -/
inductive Axis where
  | child
  | descendant
  | parent
  | ancestor
  | followingSibling
  | precedingSibling
  | following
  | preceding
  | attr
  | ns
  | self
  | descendantOrSelf
  | ancestorOrSelf
  deriving DecidableEq, Repr

/-- `axiom_xpath_node_test_type_t`. -/
inductive NodeTestType where
  | none
  | all
  | comment
  | node
  | pi
  | text
  | standard
  deriving DecidableEq, Repr

/-- `axiom_xpath_node_test`; the literal of a processing instruction is not read here. -/
structure NodeTest where
  type : NodeTestType
  nsPrefix : Option Text
  name : Option Text
  lit : Option Text
  deriving DecidableEq, Repr

variable (D : Type*)

/-- `axiom_xpath_operation` with its operands; `D` is the type of the doubles. The number
of a predicate, a literal or a number is its place among the operations, where `pos` and
`par1` are. -/
inductive Operation where
  | parseEnd
  | rootNode (op1 : Operation)
  | contextNode (op1 : Operation)
  | step (axis : Axis) (test : NodeTest) (predicate next : Operation)
  | result
  | union (op1 op2 : Operation)
  | equalExpr (op1 op2 : Operation)
  | andExpr (op1 op2 : Operation)
  | orExpr (op1 op2 : Operation)
  | predicate (place : ℕ) (op1 next : Operation)
  | literal (place : ℕ) (value : Text)
  | number (place : ℕ) (value : D)
  | pathExpression (op1 op2 : Operation)
  | functionCall (name : Text) (op1 : Operation)
  | argument (op1 op2 : Operation)

variable {D}

/-- Whether an operand is `AXIOM_XPATH_PARSE_END`. -/
def Operation.isEnd : Operation D → Bool
  | .parseEnd => true
  | _ => false

end Operations

section States

/-- Whose memory a value is in: that of an operation, of the document, or its own. -/
inductive Pointer where
  | par1 (place : ℕ)
  | elementText (n : ℕ)
  | attributeValue (a : ℕ)
  | nsPrefix (n : ℕ)
  | own
  deriving DecidableEq, Repr

/-- `axiom_xpath_result_node`: type and value. `unset` is a node that was allocated and
not filled. -/
inductive ResultNode (D : Type*) where
  | node (n : ℕ)
  | attr (a : ℕ)
  | ns (n : ℕ)
  | text (pointer : Pointer) (value : Option Text)
  | number (pointer : Pointer) (value : D)
  | boolean (value : Bool)
  | unset
  deriving DecidableEq, Repr

/-- What a function pushes: values in memory of their own, or nodes. -/
inductive FunctionResult (D : Type*) where
  | node (n : ℕ)
  | text (value : Text)
  | number (value : D)
  | boolean (value : Bool)

def FunctionResult.resultNode {D : Type*} : FunctionResult D → ResultNode D
  | node n => .node n
  | text t => .text .own (some t)
  | number v => .number .own v
  | boolean b => .boolean b

/-- What the context holds besides its nodes: the namespaces and functions that were
registered. The doubles come with what the engine does with them; `unset` is what an
element of `n_nodes` holds when its operand is empty. -/
structure Env (D : Type*) where
  namespaces : Text → Option Text
  functions : Text → Option (List (ResultNode D) → List (FunctionResult D))
  ofNat : ℕ → D
  eq : D → D → Bool
  nonzero : D → Bool
  toText : D → Text
  unset : ℕ

/-- `axiom_xpath_function_count`. -/
def functionCount {D : Type*} (ofNat : ℕ → D) (args : List (ResultNode D)) :
    List (FunctionResult D) :=
  [.number (ofNat args.length)]

structure Context where
  node : Option ℕ
  attr : Option ℕ
  ns : Option ℕ
  position : ℕ
  size : ℕ
  deriving DecidableEq, Repr

/-- The state of an evaluation. `freed` lists the memory that was given back and is not
the evaluation's own; `operands` lists the context nodes with which the two operands of an
operator were evaluated. -/
structure State (D : Type*) where
  context : Context
  stack : List (ResultNode D)
  pos : ℕ → ℕ
  freed : List Pointer
  operands : List (Option ℕ × Option ℕ)

abbrev Evaluation (D : Type*) := State D → ℕ × State D

namespace State

variable {D : Type*}

def setNode (st : State D) (n : Option ℕ) : State D :=
  { st with context := { st.context with node := n } }

def setAttr (st : State D) (a : Option ℕ) : State D :=
  { st with context := { st.context with attr := a } }

def setNs (st : State D) (n : Option ℕ) : State D :=
  { st with context := { st.context with ns := n } }

def setPosition (st : State D) (position size : ℕ) : State D :=
  { st with context := { st.context with position := position, size := size } }

def push (st : State D) (r : ResultNode D) : State D := { st with stack := r :: st.stack }

def drop (st : State D) (n : ℕ) : State D := { st with stack := st.stack.drop n }

def free (st : State D) (pointers : List Pointer) : State D :=
  { st with freed := st.freed ++ pointers }

def tick (st : State D) (place : ℕ) : State D :=
  { st with pos := Function.update st.pos place (st.pos place + 1) }

def logOperands (st : State D) (first second : Option ℕ) : State D :=
  { st with operands := st.operands ++ [(first, second)] }

end State

end States

section Tests

variable {D : Type*} (doc : Document) (env : Env D)

/-- The checks of a name and its namespace, the same for elements, attributes and
namespaces. -/
def nameMatch (test : NodeTest) (name uri : Option Text) : Bool :=
  let nsAllowed :=
    if test.type = .all then !(uri.isNone && test.nsPrefix.isSome)
    else !((uri.isSome && test.nsPrefix.isNone) || (uri.isNone && test.nsPrefix.isSome))
  let uriMatch :=
    match uri, test.nsPrefix with
    | some uri, some nsPrefix =>
      match env.namespaces nsPrefix with
      | none => false
      | some xpathNs => decide (uri = xpathNs)
    | _, _ => true
  nsAllowed && uriMatch &&
    match test.type with
    | .all => true
    | .standard => name.isSome && decide (test.name = name)
    | _ => false

/-- `axiom_xpath_node_test_match`. -/
def nodeTestMatch (test : NodeTest) (context : Context) : Bool :=
  match context.node, context.attr, context.ns with
  | some n, _, _ =>
    match test.type with
    | .none => false
    | .all | .standard =>
      decide (doc.nodeType n = .element) && nameMatch env test (doc.localname n) (doc.nsUri n)
    | .comment => decide (doc.nodeType n = .comment)
    | .pi => decide (doc.nodeType n = .processingInstruction)
    | .node => decide (doc.nodeType n = .element)
    | .text => decide (doc.nodeType n = .text)
  | none, some a, _ => nameMatch env test (doc.attributeName a) (doc.attributeUri a)
  | none, none, some n => nameMatch env test (doc.nsPrefix n) none
  | none, none, none => false

end Tests

section Casts

variable {D : Type*} (doc : Document) (env : Env D)

/-- `axiom_xpath_cast_node_to_boolean`. -/
def castNodeToBoolean : ResultNode D → Bool
  | .boolean b => b
  | .number _ v => env.nonzero v
  | .text _ value => value.isSome
  | .node _ | .attr _ | .ns _ => true
  | .unset => true

def castNodeToNumber : ResultNode D → D
  | .boolean b => env.ofNat (if b then 1 else 0)
  | .number _ v => v
  | .text _ value => env.ofNat (if value.isSome then 1 else 0)
  | .node _ | .attr _ | .ns _ => env.ofNat 1
  | .unset => env.ofNat 1

/-- `axiom_xpath_cast_node_to_string`, with the memory that the string is in. -/
def castNodeToString : ResultNode D → Pointer × Option Text
  | .boolean b => (.own, some (if b then "true".toList else "false".toList))
  | .number _ v => (.own, some (env.toText v))
  | .text pointer value => (pointer, value)
  | .node n => (.elementText n, doc.text n)
  | .attr a => (.attributeValue a, doc.attributeValue a)
  | .ns n => (.nsPrefix n, doc.nsPrefix n)
  | .unset => (.own, none)

/-- The old value that `AXIOM_XPATH_CAST_SET_VALUE` frees. -/
def castSetValue : ResultNode D → List Pointer
  | .text pointer (some _) | .number pointer _ => if pointer = .own then [] else [pointer]
  | _ => []

def ResultNode.isBoolean : ResultNode D → Bool
  | .boolean _ => true
  | _ => false

def ResultNode.isNumber : ResultNode D → Bool
  | .number _ _ => true
  | _ => false

/-- `axiom_xpath_compare_equal`, with the nodes after the casts and what these free. -/
def compareEqual (node1 node2 : ResultNode D) :
    Bool × ResultNode D × ResultNode D × List Pointer :=
  if node1.isBoolean || node2.isBoolean then
    let v1 := castNodeToBoolean env node1
    let v2 := castNodeToBoolean env node2
    (v1 == v2, .boolean v1, .boolean v2, castSetValue node1 ++ castSetValue node2)
  else if node1.isNumber || node2.isNumber then
    let v1 := castNodeToNumber env node1
    let v2 := castNodeToNumber env node2
    (env.eq v1 v2, .number .own v1, .number .own v2, castSetValue node1 ++ castSetValue node2)
  else
    let v1 := castNodeToString doc env node1
    let v2 := castNodeToString doc env node2
    (v1.2.isSome && decide (v1.2 = v2.2), .text v1.1 v1.2, .text v2.1 v2.2, [])

/-- One node of the first set against the second set, up to an equal one. -/
def compareRow : ResultNode D → List (ResultNode D) →
    Bool × List (ResultNode D) × List Pointer
  | _, [] => (false, [], [])
  | node1, node2 :: nodes =>
    let r := compareEqual doc env node1 node2
    if r.1 then (true, r.2.2.1 :: nodes, r.2.2.2)
    else
      let rest := compareRow r.2.1 nodes
      (rest.1, r.2.2.1 :: rest.2.1, r.2.2.2 ++ rest.2.2)

/-- The double loop of `axiom_xpath_equalexpr_operator`. -/
def compareSets : List (ResultNode D) → List (ResultNode D) → Bool × List Pointer
  | [], _ => (false, [])
  | node1 :: nodes, arr =>
    let r := compareRow doc env node1 arr
    if r.1 then (true, r.2.2)
    else
      let rest := compareSets nodes r.2.1
      (rest.1, r.2.2 ++ rest.2)

/-- `axiom_xpath_convert_to_boolean`. -/
def convertToBoolean : List (ResultNode D) → Bool × List Pointer
  | [] => (false, [])
  | [node] => (castNodeToBoolean env node, castSetValue node)
  | _ :: _ :: _ => (true, [])

end Casts

section Iterators

variable {D : Type*} (doc : Document) (env : Env D)

/-- The body of an iterator's loop, over what the loop goes through. -/
def visitEach {α : Type*} (enter : α → State D → State D) (test : NodeTest) (f : Evaluation D) :
    List α → Evaluation D
  | [], st => (0, st)
  | a :: l, st =>
    let st := enter a st
    let r := if nodeTestMatch doc env test st.context then f st else (0, st)
    let rest := visitEach enter test f l r.2
    (r.1 + rest.1, rest.2)

/-- An iterator over nodes. -/
def visitNodes (test : NodeTest) (f : Evaluation D) (nodes : List ℕ) : Evaluation D :=
  visitEach doc env (fun n st => st.setNode (some n)) test f nodes

/-- The test of the context node itself, then of the nodes that are found from it. The
context node is read again for these. -/
def visitSelfAnd (found : Option ℕ → List ℕ) (test : NodeTest) (f : Evaluation D) :
    Evaluation D := fun st =>
  let r := if nodeTestMatch doc env test st.context then f st else (0, st)
  let rest := visitNodes doc env test f (found r.2.context.node) r.2
  (r.1 + rest.1, rest.2)

/-- The iterators, by axis; `f` is the evaluation of the predicates and of the next step. -/
def iterator (axis : Axis) (test : NodeTest) (f : Evaluation D) : Evaluation D := fun st =>
  match st.context.node with
  | none => (0, st)
  | some n =>
    let back : ℕ × State D → ℕ × State D := fun r => (r.1, r.2.setNode (some n))
    match axis with
    | .child => back (visitNodes doc env test f (doc.nextSiblings (doc.firstChild n)) st)
    | .descendant => back (visitNodes doc env test f (doc.descendants (doc.firstChild n)) st)
    | .parent => back (visitNodes doc env test f (doc.parent n).toList st)
    | .ancestor => back (visitNodes doc env test f (doc.parents (doc.parent n)) st)
    | .followingSibling => back (visitNodes doc env test f (doc.nextSiblings (doc.next n)) st)
    | .precedingSibling =>
      back (visitNodes doc env test f (doc.previousSiblings (doc.prev n)) st)
    | .following => back (visitNodes doc env test f (doc.followingNodes n) st)
    | .preceding => back (visitNodes doc env test f (doc.precedingNodes n) st)
    | .self => back (visitSelfAnd doc env (fun _ => []) test f st)
    | .descendantOrSelf =>
      back (visitSelfAnd doc env (fun m => doc.descendants (m.bind doc.firstChild)) test f st)
    | .ancestorOrSelf =>
      back (visitSelfAnd doc env (fun m => doc.parents (m.bind doc.parent)) test f st)
    | .attr =>
      if doc.nodeType n = .element then
        let r := visitEach doc env (fun a st => st.setAttr (some a)) test f
          (doc.attributes n) (st.setNode none)
        (r.1, (r.2.setNode (some n)).setAttr none)
      else (0, st)
    | .ns =>
      if doc.nodeType n = .element then
        let r := visitEach doc env (fun m st => st.setNs (some m)) test f
          (doc.namespaces n) (st.setNode none)
        (r.1, (r.2.setNode (some n)).setNs none)
      else (0, st)

end Iterators

section Operators

variable {D : Type*} (doc : Document) (env : Env D)

/-- `axiom_xpath_evaluate_predicate_condition`. -/
def evaluatePredicateCondition (nNodes : ℕ) (st : State D) : Bool × State D :=
  match nNodes with
  | 0 => (false, st)
  | 1 =>
    match st.stack with
    | .number _ v :: _ => (env.eq v (env.ofNat st.context.position), st.drop 1)
    | .boolean b :: _ => (b, st.drop 1)
    | _ => (true, st.drop 1)
  | n + 2 => (true, st.drop (n + 2))

def testPredicate (place : ℕ) (isEnd : Bool) (f : Evaluation D) (st : State D) : Bool × State D :=
  let st := st.tick place
  if isEnd then (true, st)
  else
    let r := f st
    evaluatePredicateCondition env r.1 (r.2.setPosition (r.2.pos place) r.2.context.size)

/-- `axiom_xpath_collect_operator`. -/
def collect (context : Context) : ResultNode D :=
  match context.node, context.attr, context.ns with
  | some n, _, _ => .node n
  | none, some a, _ => .attr a
  | none, none, some n => .ns n
  | none, none, none => .unset

/-- Both operands of an operator; an empty one is not evaluated. -/
def evaluateBoth (unset : ℕ) (end1 end2 : Bool) (f1 f2 : Evaluation D) (st : State D) :
    ℕ × ℕ × State D :=
  let r1 := if end1 then (unset, st) else f1 st
  let r2 := if end2 then (unset, r1.2) else f2 r1.2
  (r1.1, r2.1, r2.2.logOperands st.context.node r1.2.context.node)

/-- An operator that takes the results of both operands from the stack and pushes one
truth value. -/
def evaluateTest (test : List (ResultNode D) → List (ResultNode D) → Bool × List Pointer)
    (end1 end2 : Bool) (f1 f2 : Evaluation D) : Evaluation D := fun st =>
  let r := evaluateBoth env.unset end1 end2 f1 f2 st
  let arr2 := r.2.2.stack.take r.2.1
  let arr1 := (r.2.2.stack.drop r.2.1).take r.1
  let v := test arr1 arr2
  (1, ((r.2.2.drop (r.1 + r.2.1)).free v.2).push (.boolean v.1))

def testOr (arr1 arr2 : List (ResultNode D)) : Bool × List Pointer :=
  let v1 := convertToBoolean env arr1
  if v1.1 then v1
  else
    let v2 := convertToBoolean env arr2
    (v2.1, v1.2 ++ v2.2)

def testAnd (arr1 arr2 : List (ResultNode D)) : Bool × List Pointer :=
  let v1 := convertToBoolean env arr1
  if v1.1 then
    let v2 := convertToBoolean env arr2
    (v2.1, v1.2 ++ v2.2)
  else v1

/-- The relative path behind a filter, for each node among the filter's results. -/
def visitFiltered (size : ℕ) (f : Evaluation D) : ℕ → List (ResultNode D) → Evaluation D
  | _, [], st => (0, st)
  | i, .node n :: l, st =>
    let r := f ((st.setNode (some n)).setPosition (i + 1) size)
    let rest := visitFiltered size f (i + 1) l r.2
    (r.1 + rest.1, rest.2)
  | i, _ :: l, st => visitFiltered size f (i + 1) l st

mutual

/-- `axiom_xpath_evaluate_operation`. -/
def evaluateOperation : Operation D → Evaluation D
  | .parseEnd => fun st => (0, st)
  | .rootNode op1 => fun st =>
    if op1.isEnd then (0, st) else evaluateOperation op1 (st.setNode (some doc.root))
  | .contextNode op1 => fun st => if op1.isEnd then (0, st) else evaluateOperation op1 st
  | .step axis test predicate next => fun st =>
    if next.isEnd then (0, st)
    else iterator doc env axis test (evaluatePredicate predicate (evaluateOperation next)) st
  | .result => fun st => (1, st.push (collect st.context))
  | .union op1 op2 => fun st =>
    let r := evaluateBoth 0 op1.isEnd op2.isEnd (evaluateOperation op1) (evaluateOperation op2) st
    (r.1 + r.2.1, r.2.2)
  | .equalExpr op1 op2 =>
    evaluateTest env (compareSets doc env) op1.isEnd op2.isEnd (evaluateOperation op1)
      (evaluateOperation op2)
  | .andExpr op1 op2 =>
    evaluateTest env (testAnd env) op1.isEnd op2.isEnd (evaluateOperation op1)
      (evaluateOperation op2)
  | .orExpr op1 op2 =>
    evaluateTest env (testOr env) op1.isEnd op2.isEnd (evaluateOperation op1)
      (evaluateOperation op2)
  | .predicate _ _ _ => fun st => (0, st)
  | .literal place value => fun st => (1, st.push (.text (.par1 place) (some value)))
  | .number place value => fun st => (1, st.push (.number (.par1 place) value))
  | .pathExpression op1 op2 => fun st =>
    if op1.isEnd then (0, st)
    else
      let r := evaluateOperation op1 st
      if op2.isEnd then r
      else visitFiltered r.1 (evaluateOperation op2) 0 (r.2.stack.take r.1) (r.2.drop r.1)
  | .functionCall name op1 => fun st =>
    match env.functions name with
    | none => (0, st)
    | some func =>
      let r := if op1.isEnd then (0, st) else evaluateOperation op1 st
      let results := (func (r.2.stack.take r.1)).map FunctionResult.resultNode
      (results.length, results.foldl State.push (r.2.drop r.1))
  | .argument op1 op2 => fun st =>
    let r1 := if op1.isEnd then (0, st) else evaluateOperation op1 st
    -- the first argument again, where the second one is meant
    let r2 := if op2.isEnd then (0, r1.2) else evaluateOperation op1 r1.2
    (r1.1 + r2.1, r2.2)

/-- `axiom_xpath_evaluate_predicate`, with the evaluation of the next step. -/
def evaluatePredicate : Operation D → Evaluation D → Evaluation D
  | .predicate place op1 predicate, next => fun st =>
    let r := testPredicate env place op1.isEnd (evaluateOperation op1) st
    if r.1 then evaluatePredicate predicate next (r.2.setNode st.context.node) else (0, r.2)
  | _, next => next

end

/-- `axiom_xpath_evaluate`: the results as they are taken from the stack, and the state
behind it. The positions in the expression are reset first. -/
def evaluate (expr : Operation D) (context : Context) (freed : List Pointer) :
    List (ResultNode D) × State D :=
  let st : State D := ⟨context, [], fun _ => 0, freed, []⟩
  let st := if expr.isEnd then st else (evaluateOperation doc env expr st).2
  (st.stack, { st with stack := [] })

end Operators

end Axis2C.XPath
