import Axis2C.XPathCompile

/-!
# The grammar of XPath expressions

The expressions that the header of the compiler documents, one kind of tree for each rule of
the grammar, with their text and with the operations they stand for. Operators have a single
space on each side. `or`, `and` and `=` group to the left; the operands of a union are in one
chain.
-/
namespace Axis2C.XPath

section Tokens

/-- An NCName of the compiler that fits its buffer. -/
structure Name where
  text : Text
  start : text.head?.any isNameStart = true
  chars : ∀ c ∈ text, isNameChar c = true
  short : text.length < 255

/-- A function name is not the name of a node type. -/
structure FunctionName extends Name where
  notType : nodeType text = none

structure Literal where
  del : Char
  quote : del = '\'' ∨ del = '"'
  text : Text
  inside : ∀ c ∈ text, c ≠ del
  short : text.length < 255

/-- `Number ::= Digits ('.' Digits?)? | '.' Digits`. -/
structure Number where
  whole : Text
  fraction : Option Text
  whole_digits : ∀ c ∈ whole, c.isDigit = true
  fraction_digits : ∀ f ∈ fraction, ∀ c ∈ f, c.isDigit = true
  begins : whole ≠ [] ∨ ∃ c f, fraction = some (c :: f)

def Literal.source (l : Literal) : Text := l.del :: l.text ++ [l.del]

def Number.source (n : Number) : Text := n.whole ++ n.fraction.elim [] ('.' :: ·)

/-- The digits one after the other in the arithmetic of the doubles. -/
def Number.value {D : Type*} [Add D] [Mul D] [Div D] [NatCast D] (n : Number) : D :=
  let whole : D := n.whole.foldl (fun res c => res * ((10 : ℕ) : D) + digitValue c) ((0 : ℕ) : D)
  ((n.fraction.getD []).foldl
    (fun (res : D × D) c => (res.1 + res.2 * digitValue c, res.2 / ((10 : ℕ) : D)))
    (whole, ((1 : ℕ) : D) / ((10 : ℕ) : D))).1

def axisName : Axis → Text
  | .child => "child".toList
  | .descendant => "descendant".toList
  | .parent => "parent".toList
  | .ancestor => "ancestor".toList
  | .followingSibling => "following-sibling".toList
  | .precedingSibling => "preceding-sibling".toList
  | .following => "following".toList
  | .preceding => "preceding".toList
  | .attr => "attribute".toList
  | .ns => "namespace".toList
  | .self => "self".toList
  | .descendantOrSelf => "descendant-or-self".toList
  | .ancestorOrSelf => "ancestor-or-self".toList

/-- `AxisSpecifier ::= AxisName '::' | '@'?`. -/
inductive AxisSpecifier where
  | nothing
  | at
  | named (axis : Axis)

def AxisSpecifier.source : AxisSpecifier → Text
  | nothing => []
  | .at => ['@']
  | named axis => axisName axis ++ [':', ':']

def AxisSpecifier.axis : AxisSpecifier → Axis
  | nothing => .child
  | .at => .attr
  | named axis => axis

def commentName : Name := ⟨"comment".toList, by decide, List.all_eq_true.mp rfl, by decide⟩

def nodeName : Name := ⟨"node".toList, by decide, List.all_eq_true.mp rfl, by decide⟩

def textName : Name := ⟨"text".toList, by decide, List.all_eq_true.mp rfl, by decide⟩

def piName : Name := ⟨"processing-instruction".toList, by decide, List.all_eq_true.mp rfl, by decide⟩

/-- `NodeTest ::= NameTest | NodeType '(' ')' | 'processing-instruction' '(' Literal ')'`. -/
inductive Test where
  | all
  | allOf (p : Name)
  | named (n : Name)
  | qualified (p n : Name)
  | comment
  | node
  | text
  | pi (lit : Option Literal)

def Test.source : Test → Text
  | all => ['*']
  | allOf p => p.text ++ [':', '*']
  | named n => n.text
  | qualified p n => p.text ++ ':' :: n.text
  | comment => commentName.text ++ ['(', ')']
  | node => nodeName.text ++ ['(', ')']
  | text => textName.text ++ ['(', ')']
  | pi lit => piName.text ++ '(' :: lit.elim [] Literal.source ++ [')']

def Test.nodeTest : Test → NodeTest
  | all => ⟨.all, none, none, none⟩
  | allOf p => ⟨.all, some p.text, none, none⟩
  | named n => ⟨.standard, none, some n.text, none⟩
  | qualified p n => ⟨.standard, some p.text, some n.text, none⟩
  | comment => ⟨.comment, none, none, none⟩
  | node => ⟨.node, none, none, none⟩
  | text => ⟨.text, none, none, none⟩
  | pi lit => ⟨.pi, none, none, lit.map Literal.text⟩

end Tokens

section Trees

/-- The rules of the grammar. -/
inductive Rule where
  | or
  | and
  | equal
  | union
  | path
  | steps
  | step
  | predicates
  | filter
  | arguments
  deriving DecidableEq, Repr

inductive Expr : Rule → Type where
  | orTerm (e : Expr .and) : Expr .or
  | or (l : Expr .or) (r : Expr .and) : Expr .or
  | andTerm (e : Expr .equal) : Expr .and
  | and (l : Expr .and) (r : Expr .equal) : Expr .and
  | equalTerm (e : Expr .union) : Expr .equal
  | equal (l : Expr .equal) (r : Expr .union) : Expr .equal
  | unionTerm (e : Expr .path) : Expr .union
  | union (l : Expr .path) (r : Expr .union) : Expr .union
  | root : Expr .path
  | absolute (s : Expr .steps) : Expr .path
  | descendants (s : Expr .steps) : Expr .path
  | relative (s : Expr .steps) : Expr .path
  | filtered (f : Expr .filter) : Expr .path
  | filteredSteps (f : Expr .filter) (s : Expr .steps) : Expr .path
  | filteredDescendants (f : Expr .filter) (s : Expr .steps) : Expr .path
  | lastStep (s : Expr .step) : Expr .steps
  | nextStep (s : Expr .step) (r : Expr .steps) : Expr .steps
  | nextBelow (s : Expr .step) (r : Expr .steps) : Expr .steps
  | self : Expr .step
  | parent : Expr .step
  | test (axis : AxisSpecifier) (t : Test) (p : Expr .predicates) : Expr .step
  | noPredicate : Expr .predicates
  | predicate (e : Expr .or) (r : Expr .predicates) : Expr .predicates
  | paren (e : Expr .or) : Expr .filter
  | literal (l : Literal) : Expr .filter
  | number (n : Number) : Expr .filter
  | call (name : FunctionName) (args : Expr .arguments) : Expr .filter
  | noArgument : Expr .arguments
  | argument (e : Expr .or) (r : Expr .arguments) : Expr .arguments

namespace Expr

def isNoArgument : Expr .arguments → Bool
  | .noArgument => true
  | .argument _ _ => false

def text : {k : Rule} → Expr k → Text
  | _, .orTerm e => e.text
  | _, .or l r => l.text ++ ' ' :: 'o' :: 'r' :: ' ' :: r.text
  | _, .andTerm e => e.text
  | _, .and l r => l.text ++ ' ' :: 'a' :: 'n' :: 'd' :: ' ' :: r.text
  | _, .equalTerm e => e.text
  | _, .equal l r => l.text ++ ' ' :: '=' :: ' ' :: r.text
  | _, .unionTerm e => e.text
  | _, .union l r => l.text ++ ' ' :: '|' :: ' ' :: r.text
  | _, .root => ['/']
  | _, .absolute s => '/' :: s.text
  | _, .descendants s => '/' :: '/' :: s.text
  | _, .relative s => s.text
  | _, .filtered f => f.text
  | _, .filteredSteps f s => f.text ++ '/' :: s.text
  | _, .filteredDescendants f s => f.text ++ '/' :: '/' :: s.text
  | _, .lastStep s => s.text
  | _, .nextStep s r => s.text ++ '/' :: r.text
  | _, .nextBelow s r => s.text ++ '/' :: '/' :: r.text
  | _, .self => ['.']
  | _, .parent => ['.', '.']
  | _, .test axis t p => axis.source ++ t.source ++ p.text
  | _, .noPredicate => []
  | _, .predicate e r => '[' :: e.text ++ ']' :: r.text
  | _, .paren e => '(' :: e.text ++ [')']
  | _, .literal l => l.source
  | _, .number n => n.source
  | _, .call name args => name.text ++ '(' :: args.text ++ [')']
  | _, .noArgument => []
  | _, .argument e r => if r.isNoArgument then e.text else e.text ++ ',' :: ' ' :: r.text

end Expr

end Trees

section Meaning

variable {D : Type*}

/-- The step that `//` stands for. -/
def selfDescendant (next : Operation D) : Operation D :=
  .step .descendantOrSelf Expression.nodeTestNode .parseEnd next

/-- A step with the one behind it. -/
def Operation.followedBy : Operation D → Operation D → Operation D
  | .step axis test pred _, next => .step axis test pred next
  | op, _ => op

def Operation.erase : Operation D → Operation D
  | .parseEnd => .parseEnd
  | .rootNode op1 => .rootNode op1.erase
  | .contextNode op1 => .contextNode op1.erase
  | .step axis test pred next => .step axis test pred.erase next.erase
  | .result => .result
  | .union op1 op2 => .union op1.erase op2.erase
  | .equalExpr op1 op2 => .equalExpr op1.erase op2.erase
  | .andExpr op1 op2 => .andExpr op1.erase op2.erase
  | .orExpr op1 op2 => .orExpr op1.erase op2.erase
  | .predicate _ op1 next => .predicate 0 op1.erase next.erase
  | .literal _ value => .literal 0 value
  | .number _ value => .number 0 value
  | .pathExpression op1 op2 => .pathExpression op1.erase op2.erase
  | .functionCall name op1 => .functionCall name op1.erase
  | .argument op1 op2 => .argument op1.erase op2.erase

/-- The table denotes the operation at an index, places apart. -/
def Denotes (table : List (Entry D)) (i : ℤ) (op : Operation D) : Prop :=
  (operationAt table i).map Operation.erase = some op

namespace Expr

variable [Add D] [Mul D] [Div D] [NatCast D]

/-- The operations of an expression, where a path that begins with `//` starts at `lead`. -/
def operationFrom (lead : Operation D → Operation D) : {k : Rule} → Expr k → Operation D
  | _, .orTerm e => e.operationFrom lead
  | _, .or l r => .orExpr (l.operationFrom lead) (r.operationFrom lead)
  | _, .andTerm e => e.operationFrom lead
  | _, .and l r => .andExpr (l.operationFrom lead) (r.operationFrom lead)
  | _, .equalTerm e => e.operationFrom lead
  | _, .equal l r => .equalExpr (l.operationFrom lead) (r.operationFrom lead)
  | _, .unionTerm e => e.operationFrom lead
  | _, .union l r => .union (l.operationFrom lead) (r.operationFrom lead)
  | _, .root => .rootNode .parseEnd
  | _, .absolute s => .rootNode (s.operationFrom lead)
  | _, .descendants s => lead (selfDescendant (s.operationFrom lead))
  | _, .relative s => .contextNode (s.operationFrom lead)
  | _, .filtered f => .pathExpression (f.operationFrom lead) .parseEnd
  | _, .filteredSteps f s => .pathExpression (f.operationFrom lead) (s.operationFrom lead)
  | _, .filteredDescendants f s =>
    .pathExpression (f.operationFrom lead) (selfDescendant (s.operationFrom lead))
  | _, .lastStep s => (s.operationFrom lead).followedBy .result
  | _, .nextStep s r => (s.operationFrom lead).followedBy (r.operationFrom lead)
  | _, .nextBelow s r => (s.operationFrom lead).followedBy (selfDescendant (r.operationFrom lead))
  | _, .self => .step .self Expression.nodeTestNode .parseEnd .parseEnd
  | _, .parent => .step .parent Expression.nodeTestNode .parseEnd .parseEnd
  | _, .test axis t p => .step axis.axis t.nodeTest (p.operationFrom lead) .parseEnd
  | _, .noPredicate => .parseEnd
  | _, .predicate e r => .predicate 0 (e.operationFrom lead) (r.operationFrom lead)
  | _, .paren e => e.operationFrom lead
  | _, .literal l => .literal 0 l.text
  | _, .number n => .number 0 n.value
  | _, .call name args => .functionCall name.text (args.operationFrom lead)
  | _, .noArgument => .parseEnd
  | _, .argument e r => .argument (e.operationFrom lead) (r.operationFrom lead)

/-- The operations an expression stands for: a path that begins with `//` is absolute. -/
def operation {k : Rule} (e : Expr k) : Operation D := e.operationFrom .rootNode

/-- What the compiler can read, when the text ends behind the expression (`last`) or goes on:
no `and`, no call with two arguments, and the root alone only at the end of the text. -/
def compilable : {k : Rule} → Expr k → Bool → Bool
  | _, .orTerm e, last => e.compilable last
  | _, .or l r, last => l.compilable false && r.compilable last
  | _, .andTerm e, last => e.compilable last
  | _, .and _ _, _ => false
  | _, .equalTerm e, last => e.compilable last
  | _, .equal l r, last => l.compilable false && r.compilable last
  | _, .unionTerm e, last => e.compilable last
  | _, .union l r, last => l.compilable false && r.compilable last
  | _, .root, last => last
  | _, .absolute s, _ => s.compilable false
  | _, .descendants s, _ => s.compilable false
  | _, .relative s, _ => s.compilable false
  | _, .filtered f, _ => f.compilable false
  | _, .filteredSteps f s, _ => f.compilable false && s.compilable false
  | _, .filteredDescendants f s, _ => f.compilable false && s.compilable false
  | _, .lastStep s, _ => s.compilable false
  | _, .nextStep s r, _ => s.compilable false && r.compilable false
  | _, .nextBelow s r, _ => s.compilable false && r.compilable false
  | _, .self, _ => true
  | _, .parent, _ => true
  | _, .test _ _ p, _ => p.compilable false
  | _, .noPredicate, _ => true
  | _, .predicate e r, _ => e.compilable false && r.compilable false
  | _, .paren e, _ => e.compilable false
  | _, .literal _, _ => true
  | _, .number _, _ => true
  | _, .call _ args, _ => args.compilable false
  | _, .noArgument, _ => true
  | _, .argument e r, _ => e.compilable false && r.isNoArgument

/-- No path begins with `//`. -/
def leadFree : {k : Rule} → Expr k → Bool
  | _, .orTerm e => e.leadFree
  | _, .or l r => l.leadFree && r.leadFree
  | _, .andTerm e => e.leadFree
  | _, .and l r => l.leadFree && r.leadFree
  | _, .equalTerm e => e.leadFree
  | _, .equal l r => l.leadFree && r.leadFree
  | _, .unionTerm e => e.leadFree
  | _, .union l r => l.leadFree && r.leadFree
  | _, .root => true
  | _, .absolute s => s.leadFree
  | _, .descendants _ => false
  | _, .relative s => s.leadFree
  | _, .filtered f => f.leadFree
  | _, .filteredSteps f s => f.leadFree && s.leadFree
  | _, .filteredDescendants f s => f.leadFree && s.leadFree
  | _, .lastStep s => s.leadFree
  | _, .nextStep s r => s.leadFree && r.leadFree
  | _, .nextBelow s r => s.leadFree && r.leadFree
  | _, .self => true
  | _, .parent => true
  | _, .test _ _ p => p.leadFree
  | _, .noPredicate => true
  | _, .predicate e r => e.leadFree && r.leadFree
  | _, .paren e => e.leadFree
  | _, .literal _ => true
  | _, .number _ => true
  | _, .call _ args => args.leadFree
  | _, .noArgument => true
  | _, .argument e r => e.leadFree && r.leadFree

end Expr

end Meaning

end Axis2C.XPath
