import Axis2C.OpenRecursion
import Axis2C.XPathEngine

/-!
# The XPath compiler

`xpath_internals_parser.c`. A position in the expression is the text that begins there. The
functions fill a table of operations and return the index of one, or one of two negative
numbers. They call each other without a bound of their own, so that they are written over the
calls they make, and `none` stands for a run that does not come back or that writes past the
buffer of a name or a literal.
-/
namespace Axis2C.XPath

section Tables

variable (D : Type*)

/-- `axiom_xpath_operation_type_t` with the parameters of the operation. -/
inductive OperationType where
  | rootNode
  | contextNode
  | nodeTest (test : NodeTest) (axis : Axis)
  | step
  | result
  | union
  | equalExpr
  | andExpr
  | orExpr
  | predicate
  | literal (value : Text)
  | number (value : D)
  | pathExpression
  | functionCall (name : Text)
  | argument
  deriving DecidableEq, Repr

/-- `axiom_xpath_operation`. -/
structure Entry where
  opr : OperationType D
  op1 : ℤ
  op2 : ℤ
  deriving DecidableEq, Repr

/-- `axiom_xpath_expression` while it is compiled: what follows `expr_ptr`, and the
operations with the last one in front. -/
structure Expression where
  rest : Text
  operations : List (Entry D)
  deriving DecidableEq, Repr

variable {D}

/-- `AXIOM_XPATH_PARSE_END`. -/
def parseEnd : ℤ := -1

/-- `AXIOM_XPATH_PARSE_ERROR`. -/
def parseError : ℤ := -2

/-- A step whose next one is still open gets it. -/
def Operation.withNext : Operation D → Operation D → Option (Operation D)
  | .step axis test pred .parseEnd, next => some (.step axis test pred next)
  | _, _ => none

/-- The operation at a place, from what its operands are. A node test is a step whose next
one is still open. -/
def Entry.operation (place : ℕ) (entry : Entry D) (op1 op2 : Option (Operation D)) :
    Option (Operation D) :=
  match entry.opr with
  | .rootNode => op1.map .rootNode
  | .contextNode => op1.map .contextNode
  | .nodeTest test axis => op1.map fun pred => .step axis test pred .parseEnd
  | .step => op1.bind fun step => op2.bind step.withNext
  | .result => some .result
  | .union => op1.bind fun op1 => op2.map (.union op1)
  | .equalExpr => op1.bind fun op1 => op2.map (.equalExpr op1)
  | .andExpr => op1.bind fun op1 => op2.map (.andExpr op1)
  | .orExpr => op1.bind fun op1 => op2.map (.orExpr op1)
  | .predicate => op1.bind fun op1 => op2.map (.predicate place op1)
  | .literal value => some (.literal place value)
  | .number value => some (.number place value)
  | .pathExpression => op1.bind fun op1 => op2.map (.pathExpression op1)
  | .functionCall name => op1.map (.functionCall name)
  | .argument => op1.bind fun op1 => op2.map (.argument op1)

def operationAt : List (Entry D) → ℤ → Option (Operation D)
  | [], i => if i = parseEnd then some .parseEnd else none
  | entry :: table, i =>
    if i = table.length then
      entry.operation table.length (operationAt table entry.op1) (operationAt table entry.op2)
    else operationAt table i

end Tables

section Macros

variable {D : Type*}

namespace Expression

/-- `AXIOM_XPATH_CURRENT`. -/
def current (e : Expression D) : Option Char := e.rest.head?

/-- `AXIOM_XPATH_NEXT`. -/
def next (e : Expression D) (i : ℕ) : Option Char := e.rest[i]?

/-- `AXIOM_XPATH_READ`. -/
def read (e : Expression D) (n : ℕ) : Expression D := { e with rest := e.rest.drop n }

/-- `AXIOM_XPATH_SKIP_WHITESPACES`. -/
def skip (e : Expression D) : Expression D := { e with rest := e.rest.dropWhile (· = ' ') }

/-- `axiom_xpath_add_operation`. -/
def push (e : Expression D) (opr : OperationType D) (op1 op2 : ℤ) : ℤ × Expression D :=
  (e.operations.length, { e with operations := ⟨opr, op1, op2⟩ :: e.operations })

/-- `axiom_xpath_create_node_test_node`. -/
def nodeTestNode : NodeTest := ⟨.node, none, none, none⟩

/-- `AXIOM_XPATH_WRAP_SELF_DESCENDANT`. -/
def wrapSelfDescendant (e : Expression D) (op2 : ℤ) : ℤ × Expression D :=
  let (test, e) := e.push (.nodeTest nodeTestNode .descendantOrSelf) parseEnd parseEnd
  e.push .step test op2

end Expression

end Macros

section Tokens

variable {D : Type*}

/-- The characters that `axiom_xpath_compile_ncname` goes over. -/
def isNameChar (c : Char) : Bool := c.isAlphanum || c = '_' || c = '.' || c = '-'

def isNameStart (c : Char) : Bool := c.isAlpha || c = '_'

/-- `axiom_xpath_compile_ncname`. -/
def compileNcname (e : Expression D) : Option (Option Text × Expression D) :=
  if e.current.any isNameStart then
    let name := e.rest.takeWhile isNameChar
    if name.length < 255 then some (some name, e.read name.length) else none
  else some (none, e)

def readLiteral (del : Char) (e : Expression D) : Option (Option Text × Expression D) :=
  let e := e.read 1
  let lit := e.rest.takeWhile (· ≠ del)
  if lit.length < 255 then some (some lit, e.read (lit.length + 1)) else none

/-- `axiom_xpath_compile_literal`. -/
def compileLiteral (e : Expression D) : Option (Option Text × Expression D) :=
  if e.current = some '"' then readLiteral '"' e
  else if e.current = some '\'' then readLiteral '\'' e
  else some (none, e)

/-- `axiom_xpath_get_axis`. -/
def getAxis (name : Text) : Option Axis :=
  if name = "child".toList then some .child
  else if name = "descendant".toList then some .descendant
  else if name = "parent".toList then some .parent
  else if name = "ancestor".toList then some .ancestor
  else if name = "following-sibling".toList then some .followingSibling
  else if name = "preceding-sibling".toList then some .precedingSibling
  else if name = "following".toList then some .following
  else if name = "preceding".toList then some .preceding
  else if name = "attribute".toList then some .attr
  else if name = "namespace".toList then some .ns
  else if name = "self".toList then some .self
  else if name = "descendant-or-self".toList then some .descendantOrSelf
  else if name = "ancestor-or-self".toList then some .ancestorOrSelf
  else none

def nodeType (name : Text) : Option NodeTestType :=
  if name = "comment".toList then some .comment
  else if name = "node".toList then some .node
  else if name = "processing-instruction".toList then some .pi
  else if name = "text".toList then some .text
  else none

/-- `axiom_xpath_compile_node_test` behind the first name. -/
def compileNamedTest (name : Text) (e : Expression D) : Option (Option NodeTest × Expression D) :=
  if e.current = some '(' then do
    let e := e.read 1
    let (lit, e) ← (if nodeType name = some .pi then compileLiteral e else some (none, e))
    let e := e.skip
    match nodeType name with
    | none => some (none, e)
    | some type =>
      if e.current = some ')' then some (some ⟨type, none, none, lit⟩, e.read 1)
      else some (none, e)
  else if e.current = some ':' then
    let e := e.read 1
    if e.current = some '*' then some (some ⟨.all, some name, none, none⟩, e.read 1)
    else do
      let (localname, e) ← compileNcname e
      match localname with
      | none => some (none, e)
      | some localname => some (some ⟨.standard, some name, some localname, none⟩, e)
  else some (some ⟨.standard, none, some name, none⟩, e)

/-- `axiom_xpath_compile_node_test`. -/
def compileNodeTest (e : Expression D) : Option (Option NodeTest × Expression D) :=
  if e.current = some '*' then some (some ⟨.all, none, none, none⟩, e.read 1)
  else do
    let (name, e) ← compileNcname e
    match name with
    | none => some (none, e)
    | some name => compileNamedTest name e

/-- The part of `axiom_xpath_compile_step` that finds the axis. -/
def compileAxis (e : Expression D) : Option (Option Axis × Expression D) :=
  if e.current = some '@' then some (some .attr, (e.read 1).skip)
  else do
    let (name, e') ← compileNcname e
    match name with
    | none => some (some .child, e)
    | some name =>
      let e' := e'.skip
      if e'.current = some ':' ∧ e'.next 1 = some ':' then
        match getAxis name with
        | none => some (none, e')
        | some axis => some (some axis, (e'.read 2).skip)
      else some (some .child, e)

variable [Add D] [Mul D] [Div D] [NatCast D]

def digitValue (c : Char) : D := ((c.toNat - '0'.toNat : ℕ) : D)

/-- The loop of `axiom_xpath_compile_number`; behind a second dot it gives 0. -/
def numberLoop : Text → D → D → Bool → D × Text
  | [], res, _, _ => (res, [])
  | c :: s, res, dec, dot =>
    if c.isDigit then
      if dot then numberLoop s (res + dec * digitValue c) (dec / ((10 : ℕ) : D)) dot
      else numberLoop s (res * ((10 : ℕ) : D) + digitValue c) dec dot
    else if c = '.' then
      if dot then (((0 : ℕ) : D), c :: s)
      else numberLoop s res (((1 : ℕ) : D) / ((10 : ℕ) : D)) true
    else (res, c :: s)

/-- `axiom_xpath_compile_number`. -/
def compileNumber (e : Expression D) : D × Expression D :=
  let (value, rest) :=
    numberLoop e.rest ((0 : ℕ) : D) (((1 : ℕ) : D) / ((10 : ℕ) : D)) false
  (value, { e with rest := rest })

end Tokens

section Calls

variable {D : Type*}

/-- The functions that are called again inside themselves, and the rounds of the loops with
the operand so far. -/
inductive Call where
  | orexpr
  | orRest (op1 : ℤ)
  | andRest (op1 : ℤ)
  | equalRest (op1 : ℤ)
  | union
  | relativeLocation
  | argument
  | predicate
  deriving DecidableEq, Repr

variable (D) in
abbrev Calls := Call → Expression D → Option (ℤ × Expression D)

variable (c : Calls D) (e : Expression D)

/-- `axiom_xpath_compile_argument`: the comma is looked at and not read. -/
def compileArgument : Option (ℤ × Expression D) := do
  let (op1, e) ← c .orexpr e
  let e := e.skip
  let (op2, e) ← (if e.current = some ',' then c .argument e else some (parseEnd, e))
  return e.push .argument op1 op2

/-- `axiom_xpath_compile_function_call`. -/
def compileFunctionCall : Option (ℤ × Expression D) := do
  let (name, e) ← compileNcname e
  match name with
  | none => return (parseError, e)
  | some name =>
    if e.current ≠ some '(' then return (parseError, e)
    else
      let e := (e.read 1).skip
      let (op1, e) ← (if e.current ≠ some ')' then c .argument e else some (parseEnd, e))
      if e.current ≠ some ')' then return (parseError, e)
      else return (e.read 1).push (.functionCall name) op1 parseEnd

/-- `axiom_xpath_compile_predicate`. -/
def compilePredicate : Option (ℤ × Expression D) :=
  let e := e.skip
  if e.current ≠ some '[' then some (parseEnd, e)
  else do
    let (op1, e) ← c .orexpr (e.read 1).skip
    if op1 = parseError then return (parseError, e)
    else
      let e := e.skip
      if e.current ≠ some ']' then return (parseError, e)
      else
        let (next, e) ← c .predicate (e.read 1)
        if next = parseError then return (parseError, e)
        else return e.push .predicate op1 next

/-- `axiom_xpath_compile_step`. -/
def compileStep : Option (ℤ × Expression D) :=
  let e := e.skip
  if e.current = some '.' then
    if e.next 1 = some '.' then
      some ((e.read 2).push (.nodeTest Expression.nodeTestNode .parent) parseEnd parseEnd)
    else some ((e.read 1).push (.nodeTest Expression.nodeTestNode .self) parseEnd parseEnd)
  else do
    let (axis, e) ← compileAxis e
    match axis with
    | none => return (parseError, e)
    | some axis =>
      let (test, e) ← compileNodeTest e
      match test with
      | none => return (parseError, e)
      | some test =>
        let (op, e) ← c .predicate e
        if op = parseError then return (parseError, e)
        else return e.push (.nodeTest test axis) op parseEnd

/-- The steps behind `//` and `/`, the same for a filter and for a step. -/
def compileNext : Option (ℤ × Expression D) :=
  if e.next 0 = some '/' ∧ e.next 1 = some '/' then do
    let (op, e) ← c .relativeLocation (e.read 2)
    if op = parseError then return (parseError, e)
    else return e.wrapSelfDescendant op
  else if e.next 0 = some '/' then c .relativeLocation (e.read 1)
  else some (parseEnd, e)

/-- `axiom_xpath_compile_relative_location`. -/
def compileRelativeLocation : Option (ℤ × Expression D) :=
  if e.rest = [] then some (parseEnd, e)
  else do
    let (step, e) ← compileStep c e
    if step = parseError then return (parseError, e)
    else
      let (next, e) ← compileNext c e.skip
      if next = parseError then return (parseError, e)
      else if next = parseEnd then
        let (next, e) := e.push .result parseEnd parseEnd
        return e.push .step step next
      else return e.push .step step next

/-- `axiom_xpath_compile_location_path`: a path that begins with `//` starts at the context
node. -/
def compileLocationPath : Option (ℤ × Expression D) :=
  if e.rest = [] then some (parseEnd, e)
  else if e.current = some '/' then
    if e.next 1 = some '/' then do
      let (op1, e) ← c .relativeLocation (e.read 2).skip
      if op1 = parseError then return (parseError, e)
      else
        let (op1, e) := e.wrapSelfDescendant op1
        return e.push .contextNode op1 parseEnd
    else do
      let (op1, e) ← c .relativeLocation (e.read 1)
      if op1 = parseError then return (parseError, e)
      else return e.push .rootNode op1 parseEnd
  else do
    let (op1, e) ← c .relativeLocation e
    if op1 = parseError then return (parseError, e)
    else return e.push .contextNode op1 parseEnd

def Expression.atNumber : Bool :=
  e.current.any Char.isDigit || (e.current = some '.' && (e.next 1).any Char.isDigit)

end Calls

section Paths

variable {D : Type*} [Add D] [Mul D] [Div D] [NatCast D] (c : Calls D) (e : Expression D)

/-- `axiom_xpath_compile_filter`. -/
def compileFilter : Option (ℤ × Expression D) :=
  if e.current = some '(' then do
    let (op, e) ← c .orexpr (e.read 1)
    let e := e.skip
    if e.current = some ')' then return (op, e.read 1) else return (parseError, e)
  else if e.current = some '\'' ∨ e.current = some '"' then do
    let (lit, e) ← compileLiteral e
    return e.push (.literal (lit.getD [])) parseEnd parseEnd
  else if e.atNumber then
    let (value, e) := compileNumber e
    some (e.push (.number value) parseEnd parseEnd)
  else if e.current = some '$' then some (parseError, e)
  else compileFunctionCall c e

/-- `axiom_xpath_path_compile_path_expression_filter`. -/
def compilePathFilter : Option (ℤ × Expression D) := do
  let (filter, e) ← compileFilter c e
  if filter = parseError then return (parseError, e)
  else
    let (next, e) ← compileNext c e.skip
    if next = parseError then return (parseError, e)
    else return e.push .pathExpression filter next

/-- The characters of `filter_start`. -/
def startsFilter (c : Char) : Bool := c ∈ ['$', '\'', '"', '(']

/-- `axiom_xpath_compile_path_expression`. -/
def compilePathExpression : Option (ℤ × Expression D) :=
  if e.current.any startsFilter then compilePathFilter c e
  else if e.atNumber then compilePathFilter c e
  else do
    let (name, e') ← compileNcname e
    match name with
    | none => compileLocationPath c e
    | some name =>
      if e'.skip.current = some '(' ∧ nodeType name = none then compilePathFilter c e
      else compileLocationPath c e

/-- `axiom_xpath_compile_union`. -/
def compileUnion : Option (ℤ × Expression D) :=
  if e.rest = [] then some (parseEnd, e)
  else do
    let (op1, e) ← compilePathExpression c e
    if op1 = parseError then return (parseError, e)
    else
      let e := e.skip
      if e.current = some '|' then
        let (op2, e) ← c .union (e.read 1).skip
        if op2 = parseError then return (parseError, e)
        else return e.push .union op1 op2
      else return (op1, e)

end Paths

section Operators

variable {D : Type*} (c : Calls D) (e : Expression D)

/-- A round of the loop of `axiom_xpath_compile_equalexpr`. -/
def equalRest (op1 : ℤ) : Option (ℤ × Expression D) :=
  if e.current = some '=' then do
    let (op2, e) ← c .union ((e.skip).read 1).skip
    if op2 = parseError then return (parseError, e)
    else
      let (op1, e) := e.push .equalExpr op1 op2
      c (.equalRest op1) e.skip
  else some (op1, e)

/-- `axiom_xpath_compile_equalexpr`. -/
def compileEqualexpr : Option (ℤ × Expression D) :=
  if e.rest = [] then some (parseEnd, e)
  else do
    let (op1, e) ← c .union e
    if op1 = parseError then return (parseError, e) else c (.equalRest op1) e

/-- A round of the loop of `axiom_xpath_compile_andexpr`, which looks twice at the second
letter. -/
def andRest (op1 : ℤ) : Option (ℤ × Expression D) :=
  if e.current = some 'a' ∧ e.next 1 = some 'n' ∧ e.next 1 = some 'd' then do
    let (op2, e) ← compileEqualexpr c (e.read 2).skip
    if op2 = parseError then return (parseError, e)
    else
      let (op1, e) := e.push .andExpr op1 op2
      c (.andRest op1) e.skip
  else some (op1, e)

/-- `axiom_xpath_compile_andexpr`. -/
def compileAndexpr : Option (ℤ × Expression D) :=
  if e.rest = [] then some (parseEnd, e)
  else do
    let (op1, e) ← compileEqualexpr c e
    if op1 = parseError then return (parseError, e) else c (.andRest op1) e.skip

/-- A round of the loop of `axiom_xpath_compile_orexpr`. -/
def orRest (op1 : ℤ) : Option (ℤ × Expression D) :=
  if e.current = some 'o' ∧ e.next 1 = some 'r' then do
    let (op2, e) ← compileAndexpr c (e.read 2).skip
    if op2 = parseError then return (parseError, e)
    else
      let (op1, e) := e.push .orExpr op1 op2
      c (.orRest op1) e.skip
  else some (op1, e)

/-- `axiom_xpath_compile_orexpr`. -/
def compileOrexpr : Option (ℤ × Expression D) :=
  if e.rest = [] then some (parseEnd, e)
  else do
    let (op1, e) ← compileAndexpr c e
    if op1 = parseError then return (parseError, e) else c (.orRest op1) e.skip

end Operators

section Compile

variable {D : Type*} [Add D] [Mul D] [Div D] [NatCast D]

/-- The functions over the calls they make. -/
def compileBody (c : Calls D) : Calls D
  | .orexpr => compileOrexpr c
  | .orRest op1 => fun e => orRest c e op1
  | .andRest op1 => fun e => andRest c e op1
  | .equalRest op1 => fun e => equalRest c e op1
  | .union => compileUnion c
  | .relativeLocation => compileRelativeLocation c
  | .argument => compileArgument c
  | .predicate => compilePredicate c

/-- `axiom_xpath_compile_expression` and `axiom_xpath_compile`: NULL for an error, and
otherwise the start and the expression, whatever is left of the text. -/
def compileExpression (text : Text) (c : Calls D) : Option (Option (ℤ × Expression D)) :=
  (c .orexpr ⟨text, []⟩).map fun (start, e) =>
    if start = parseError then none else some (start, e)

end Compile

end Axis2C.XPath
