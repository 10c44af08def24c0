import Axis2C.XPathTokens

/-!
# What the compiler accepts

The text of an expression that can be compiled, with something behind it that does not run
on, is read to its end, and the table then denotes the operations of the expression. The
loops for `or` and `=` take the operands one by one, so that for these rules it is said what
the loop has when it comes to the end of the expression.
-/
namespace Axis2C.XPath
open OpenRecursion

section Beginnings

/-- The characters with which an expression begins. -/
def Starts (c : Char) : Prop :=
  isNameStart c = true ∨ c.isDigit = true ∨ c ∈ ['/', '.', '@', '*', '(', '\'', '"']

lemma Starts.ne {c d : Char} (hc : Starts c) (hname : isNameStart d = false)
    (hdigit : d.isDigit = false) (hd : d ∉ ['/', '.', '@', '*', '(', '\'', '"']) : c ≠ d := by
  rintro rfl
  obtain h | h | h := hc
  · rw [hname] at h
    cases h
  · rw [hdigit] at h
    cases h
  · exact hd h

lemma AxisSpecifier.cons (axis : AxisSpecifier) (test : Test) :
    ∃ c s, axis.source ++ test.source = c :: s ∧
      (isNameStart c = true ∨ c = '@' ∨ c = '*') := by
  obtain ⟨c, s, htest, hc⟩ := test.cons
  cases axis with
  | nothing => exact ⟨c, s, htest, hc.symm.imp_right .inr⟩
  | «at» => exact ⟨'@', _, rfl, .inr (.inl rfl)⟩
  | named axis =>
    obtain ⟨c, s, hn, hc⟩ := (axisNcname axis).cons
    refine ⟨c, s ++ ':' :: ':' :: test.source, ?_, .inl hc⟩
    have hn' : axisName axis = c :: s := hn
    simp [AxisSpecifier.source, hn']

section

variable {k : Rule} (x : Expr k) (hp : k ≠ .predicates) (ha : k ≠ .arguments)

include x hp ha

/-- Every expression begins with a character of its own. -/
lemma Expr.cons : ∃ c s, x.text = c :: s ∧ Starts c := by
  have happend {s w : Text} (h : ∃ c r, s = c :: r ∧ Starts c) :
      ∃ c r, s ++ w = c :: r ∧ Starts c := by
    obtain ⟨c, r, rfl, hc⟩ := h
    exact ⟨c, r ++ w, rfl, hc⟩
  induction x with
  | orTerm e ih | andTerm e ih | equalTerm e ih | unionTerm e ih | relative s ih | filtered f ih
  | lastStep s ih => exact ih (by simp) (by simp)
  | or l r ihl ihr | and l r ihl ihr | equal l r ihl ihr | union l r ihl ihr =>
    exact happend (ihl (by simp) (by simp))
  | root => exact ⟨'/', [], rfl, .inr (.inr (by simp))⟩
  | absolute s ih => exact ⟨'/', s.text, rfl, .inr (.inr (by simp))⟩
  | descendants s ih => exact ⟨'/', _, rfl, .inr (.inr (by simp))⟩
  | filteredSteps f s ihf ihs | filteredDescendants f s ihf ihs =>
    exact happend (ihf (by simp) (by simp))
  | nextStep s r ihs ihr | nextBelow s r ihs ihr => exact happend (ihs (by simp) (by simp))
  | self => exact ⟨'.', [], rfl, .inr (.inr (by simp))⟩
  | parent => exact ⟨'.', ['.'], rfl, .inr (.inr (by simp))⟩
  | test axis t p ih =>
    obtain ⟨c, s, h, hc⟩ := axis.cons t
    refine happend ⟨c, s, h, ?_⟩
    obtain hc | rfl | rfl := hc
    · exact .inl hc
    · exact .inr (.inr (by simp))
    · exact .inr (.inr (by simp))
  | noPredicate | predicate e r ihe ihr => exact absurd rfl hp
  | paren e ih => exact ⟨'(', _, rfl, .inr (.inr (by simp))⟩
  | literal l =>
    refine ⟨l.del, _, rfl, .inr (.inr ?_)⟩
    obtain h | h := l.quote
    · simp [h]
    · simp [h]
  | number n =>
    obtain ⟨c, s, h, hc⟩ := n.cons
    refine ⟨c, s, h, ?_⟩
    obtain hc | ⟨rfl, -⟩ := hc
    · exact .inr (.inl hc)
    · exact .inr (.inr (by simp))
  | call name args ih =>
    obtain ⟨c, s, h, hc⟩ := name.toName.cons
    refine ⟨c, s ++ '(' :: args.text ++ [')'], ?_, .inl hc⟩
    simp [Expr.text, h]
  | noArgument | argument e r ihe ihr => exact absurd rfl ha

lemma Expr.skipped_text (z : Text) : skipped (x.text ++ z) = x.text ++ z := by
  obtain ⟨c, s, h, hc⟩ := x.cons hp ha
  rw [h]
  exact skipped_cons (hc.ne (by decide) (by decide) (by decide)) _

lemma Expr.text_append_ne_nil (z : Text) : x.text ++ z ≠ [] := by
  obtain ⟨c, s, h, -⟩ := x.cons hp ha
  simp [h]

end

end Beginnings

section Yields

variable {D : Type*} [Add D] [Mul D] [Div D] [NatCast D]
  {f : Calls D → Expression D → Option (ℤ × Expression D)} {s rest : Text} {op : Operation D}

/-- From the text `s`, whatever is in the table, the function comes to `rest` with an
operation that denotes `op`. -/
def Yields (f : Calls D → Expression D → Option (ℤ × Expression D)) (s rest : Text)
    (op : Operation D) : Prop :=
  ∀ t, ∃ i t', t <:+ t' ∧ Denotes t' i op ∧
    Returns compileBody (fun c => f c ⟨s, t⟩) (i, ⟨rest, t'⟩)

/-- From the text `s` the function comes to a loop at `rest`, with an operand that denotes
`op`. -/
def YieldsTo (f : Calls D → Expression D → Option (ℤ × Expression D)) (loop : ℤ → Call)
    (s rest : Text) (op : Operation D) : Prop :=
  ∀ t, ∃ i t', t <:+ t' ∧ Denotes t' i op ∧
    ∀ r, Returns compileBody (fun c => c (loop i) ⟨rest, t'⟩) r →
      Returns compileBody (fun c => f c ⟨s, t⟩) r

lemma Yields.call {call : Call} (h : Yields (fun c => compileBody c call) s rest op) :
    Yields (fun c => c call) s rest op := by
  intro t
  obtain ⟨i, t', hs, hd, hr⟩ := h t
  exact ⟨i, t', hs, hd, hr.call⟩

/-- A function that only goes on with what another one gave. -/
lemma Yields.of_eq {g : Calls D → Expression D → Option (ℤ × Expression D)} {s' rest' : Text}
    (h : Yields f s rest op)
    (hfg : ∀ c t i t', Denotes t' i op → f c ⟨s, t⟩ = some (i, ⟨rest, t'⟩) →
      g c ⟨s', t⟩ = some (i, ⟨rest', t'⟩)) : Yields g s' rest' op := by
  intro t
  obtain ⟨i, t', hs, hd, hr⟩ := h t
  exact ⟨i, t', hs, hd, hr.of_eq fun c hc => hfg c t i t' hd hc⟩

/-- A function that adds one operation to what another one gave. -/
lemma Yields.push {g : Calls D → Expression D → Option (ℤ × Expression D)} {s' rest' : Text}
    {op' : Operation D} (opr : OperationType D) (h : Yields f s rest op)
    (hop : ∀ place a b, a.erase = op → b.erase = .parseEnd →
      ((⟨opr, 0, 0⟩ : Entry D).operation place (some a) (some b)).map Operation.erase = some op')
    (hfg : ∀ c t i t', Denotes t' i op → f c ⟨s, t⟩ = some (i, ⟨rest, t'⟩) →
      g c ⟨s', t⟩ = some (Expression.push ⟨rest', t'⟩ opr i parseEnd)) : Yields g s' rest' op' := by
  intro t
  obtain ⟨i, t', hs, hd, hr⟩ := h t
  refine ⟨t'.length, ⟨opr, i, parseEnd⟩ :: t', hs.trans (List.suffix_cons _ _), ?_, ?_⟩
  · exact denotes_push hd (denotes_parseEnd t') fun a b => hop t'.length a b
  · exact hr.of_eq fun c hc => hfg c t i t' hd hc

/-- A function that reads two operands one after the other and adds their operation. -/
lemma Yields.push₂ {f' g : Calls D → Expression D → Option (ℤ × Expression D)}
    {s' rest' start : Text} {op' op'' : Operation D} (opr : OperationType D)
    (h : Yields f s rest op) (h' : Yields f' s' rest' op')
    (hop : ∀ place a b, a.erase = op → b.erase = op' →
      ((⟨opr, 0, 0⟩ : Entry D).operation place (some a) (some b)).map Operation.erase = some op'')
    (hfg : ∀ c t i t' j t'', Denotes t' i op → Denotes t'' j op' →
      f c ⟨s, t⟩ = some (i, ⟨rest, t'⟩) → f' c ⟨s', t'⟩ = some (j, ⟨rest', t''⟩) →
      g c ⟨start, t⟩ = some (Expression.push ⟨rest', t''⟩ opr i j)) : Yields g start rest' op'' := by
  intro t
  obtain ⟨i, t', hs, hd, hr⟩ := h t
  obtain ⟨j, t'', hs', hd', hr'⟩ := h' t'
  refine ⟨t''.length, ⟨opr, i, j⟩ :: t'', (hs.trans hs').trans (List.suffix_cons _ _), ?_, ?_⟩
  · exact denotes_push (hd.mono hs') hd' fun a b => hop t''.length a b
  · exact hr.of_eq₂ hr' fun c hc hc' => hfg c t i t' j t'' hd hd' hc hc'

lemma Yields.of_forall (i : List (Entry D) → ℤ) (t' : List (Entry D) → List (Entry D))
    (hs : ∀ t, t <:+ t' t) (hd : ∀ t, Denotes (t' t) (i t) op)
    (hf : ∀ c t, f c ⟨s, t⟩ = some (i t, ⟨rest, t' t⟩)) : Yields f s rest op :=
  fun t => ⟨i t, t' t, hs t, hd t, .of_forall fun c => hf c t⟩

/-- A function that adds an operation without operands. -/
lemma Yields.leaf (opr : OperationType D)
    (hop : ∀ place, ((⟨opr, 0, 0⟩ : Entry D).operation place (some .parseEnd)
      (some .parseEnd)).map Operation.erase = some op)
    (hf : ∀ c t, f c ⟨s, t⟩ = some (Expression.push ⟨rest, t⟩ opr parseEnd parseEnd)) :
    Yields f s rest op := by
  intro t
  refine ⟨t.length, ⟨opr, parseEnd, parseEnd⟩ :: t, List.suffix_cons _ _, ?_,
    .of_forall fun c => hf c t⟩
  refine denotes_push (denotes_parseEnd t) (denotes_parseEnd t) fun a b ha hb => ?_
  rw [erase_eq_parseEnd ha, erase_eq_parseEnd hb]
  exact hop t.length

end Yields

section Steps

variable {D : Type*} [Add D] [Mul D] [Div D] [NatCast D] {s w z rest : Text}
  {op op1 op2 : Operation D}

lemma yields_noPredicate (hz : (skipped z).head? ≠ some '[') :
    Yields (fun c => c .predicate) z (skipped z) (.parseEnd : Operation D) := by
  refine (Yields.of_forall (fun _ => parseEnd) id (fun _ => List.suffix_rfl) denotes_parseEnd
    fun c t => ?_).call
  have hcurrent : (⟨skipped z, t⟩ : Expression D).current ≠ some '[' := hz
  simp [compileBody, compilePredicate, hcurrent]

lemma yields_predicate (hs : skipped (s ++ ']' :: w) = s ++ ']' :: w)
    (hop : Yields (fun c => c .orexpr) (s ++ ']' :: w) (']' :: w) op1)
    (hnext : Yields (fun c => c .predicate) w rest op2) :
    Yields (fun c => c .predicate) ('[' :: s ++ ']' :: w) rest (.predicate 0 op1 op2) := by
  refine (hop.push₂ .predicate hnext ?_ ?_).call
  · rintro place a b rfl rfl
    rfl
  · intro c t i t' j t'' hd hd' hc hc'
    simp [compileBody, compilePredicate, skipped_cons, hs, hc, hc', hd.ne_error, hd'.ne_error]

lemma yields_self (hz : z.head? ≠ some '.') :
    Yields compileStep ('.' :: z) z
      (.step .self Expression.nodeTestNode .parseEnd .parseEnd : Operation D) := by
  refine Yields.leaf (.nodeTest Expression.nodeTestNode .self) (fun _ => rfl) fun c t => ?_
  simp [compileStep, skipped_cons, hz]

lemma yields_parent :
    Yields compileStep ('.' :: '.' :: z) z
      (.step .parent Expression.nodeTestNode .parseEnd .parseEnd : Operation D) := by
  refine Yields.leaf (.nodeTest Expression.nodeTestNode .parent) (fun _ => rfl) fun c t => ?_
  simp [compileStep, skipped_cons]

lemma yields_test (axis : AxisSpecifier) (test : Test) (hz : Clear z)
    (hp : Yields (fun c => c .predicate) z rest op) :
    Yields compileStep (axis.source ++ test.source ++ z) rest
      (.step axis.axis test.nodeTest op .parseEnd) := by
  obtain ⟨d, w, hd, hstart⟩ := axis.cons test
  have hne : d ≠ ' ' ∧ d ≠ '.' := by
    obtain hstart | rfl | rfl := hstart
    · exact ⟨ne_of_isNameStart hstart (by decide), ne_of_isNameStart hstart (by decide)⟩
    · decide
    · decide
  refine hp.push (.nodeTest test.nodeTest axis.axis) ?_ ?_
  · rintro place a b rfl hb
    rfl
  · intro c t i t' hden hc
    have haxis := axis.compileAxis (D := D) (t := t) test hz
    have hskip : skipped (axis.source ++ test.source ++ z) = axis.source ++ test.source ++ z := by
      rw [hd]
      exact skipped_cons hne.1 _
    have hcurrent : (⟨axis.source ++ test.source ++ z, t⟩ : Expression D).current ≠ some '.' := by
      rw [hd]
      simpa using hne.2
    simp only [compileStep, skip_mk, hskip, if_neg hcurrent, haxis, test.compileNodeTest hz, hc,
      Option.bind_eq_bind, Option.bind_some, if_neg hden.ne_error]
    rfl

/-- The step that `//` adds in front of the others. -/
lemma Yields.wrapSelfDescendant {f g : Calls D → Expression D → Option (ℤ × Expression D)}
    (h : Yields f s rest op)
    (hfg : ∀ c t i t', Denotes t' i op → f c ⟨s, t⟩ = some (i, ⟨rest, t'⟩) →
      g c ⟨w, t⟩ = some (Expression.wrapSelfDescendant ⟨rest, t'⟩ i)) :
    Yields g w rest (selfDescendant op) := by
  intro t
  obtain ⟨i, t', hs, hd, hr⟩ := h t
  have hnode := denotes_nodeTest t' .descendantOrSelf Expression.nodeTestNode
  have hd' := hd.mono (List.suffix_cons
    ⟨.nodeTest Expression.nodeTestNode .descendantOrSelf, parseEnd, parseEnd⟩ t')
  refine ⟨_, _, ?_, denotes_step hnode hd', ?_⟩
  · exact (hs.trans (List.suffix_cons _ _)).trans (List.suffix_cons _ _)
  · exact hr.of_eq fun c hc => hfg c t i t' hd hc

lemma yields_noNext (hz : z.head? ≠ some '/') :
    Yields compileNext z z (.parseEnd : Operation D) := by
  refine Yields.of_forall (fun _ => parseEnd) id (fun _ => List.suffix_rfl) denotes_parseEnd
    fun c t => ?_
  simp [compileNext, hz]

lemma yields_nextStep (hs : s.head? ≠ some '/')
    (h : Yields (fun c => c .relativeLocation) s rest op) :
    Yields compileNext ('/' :: s) rest op := by
  refine h.of_eq fun c t i t' hd hc => ?_
  simp [compileNext, hs, hc]

lemma yields_nextBelow (h : Yields (fun c => c .relativeLocation) s rest op) :
    Yields compileNext ('/' :: '/' :: s) rest (selfDescendant op) := by
  refine h.wrapSelfDescendant fun c t i t' hd hc => ?_
  simp [compileNext, hc, hd.ne_error]

section

variable {axis : Axis} {test : NodeTest} {pred : Operation D} (hs : s ≠ [])
  (hstep : Yields compileStep s w (.step axis test pred .parseEnd))

include hs hstep

lemma yields_steps (hnext : Yields compileNext (skipped w) rest op) (hop : op ≠ .parseEnd) :
    Yields (fun c => c .relativeLocation) s rest (.step axis test pred op) := by
  refine (hstep.push₂ .step hnext (fun place a b => step_operation place) ?_).call
  intro c t i t' j t'' hd hd' hc hc'
  simp [compileBody, compileRelativeLocation, hs, hc, hc', hd.ne_error, hd'.ne_error,
    hd'.ne_end hop]

lemma yields_lastStep (hw : (skipped w).head? ≠ some '/') :
    Yields (fun c => c .relativeLocation) s (skipped w) (.step axis test pred .result) := by
  refine Yields.call fun t => ?_
  obtain ⟨i, t', hsuffix, hd, hr⟩ := hstep t
  have hresult : Denotes (⟨.result, parseEnd, parseEnd⟩ :: t') t'.length
      (.result : Operation D) :=
    denotes_push (denotes_parseEnd t') (denotes_parseEnd t') fun _ _ _ _ => rfl
  have hd' := hd.mono (List.suffix_cons ⟨.result, parseEnd, parseEnd⟩ t')
  refine ⟨_, _, ?_, denotes_step hd' hresult, ?_⟩
  · exact (hsuffix.trans (List.suffix_cons _ _)).trans (List.suffix_cons _ _)
  · refine hr.of_eq fun c hc => ?_
    have hnot : parseEnd ≠ parseError := by decide
    simp [compileBody, compileRelativeLocation, compileNext, hs, hc, hd.ne_error, hw, hnot,
      Expression.push]

end

end Steps

section Paths

variable {D : Type*} [Add D] [Mul D] [Div D] [NatCast D] {s w z rest : Text}
  {op op1 op2 : Operation D}

lemma yields_root :
    Yields compileLocationPath ['/'] [] (.rootNode .parseEnd : Operation D) := by
  have hend : Yields (fun c => c .relativeLocation) [] [] (.parseEnd : Operation D) :=
    (Yields.of_forall (fun _ => parseEnd) id (fun _ => List.suffix_rfl) denotes_parseEnd
      fun c t => rfl).call
  refine hend.push .rootNode ?_ ?_
  · rintro place a b ha -
    rw [erase_eq_parseEnd ha]
    rfl
  · intro c t i t' hd hc
    simp [compileLocationPath, hc, hd.ne_error]

lemma yields_absolute (hs : s.head? ≠ some '/')
    (h : Yields (fun c => c .relativeLocation) s rest op) :
    Yields compileLocationPath ('/' :: s) rest (.rootNode op) := by
  refine h.push .rootNode ?_ ?_
  · rintro place a b rfl -
    rfl
  · intro c t i t' hd hc
    simp [compileLocationPath, hs, hc, hd.ne_error]

lemma yields_descendants (hs : skipped s = s)
    (h : Yields (fun c => c .relativeLocation) s rest op) :
    Yields compileLocationPath ('/' :: '/' :: s) rest (.contextNode (selfDescendant op)) := by
  refine (yields_nextBelow h).push .contextNode ?_ ?_
  · rintro place a b ha -
    simp [Entry.operation, Operation.erase, ha]
  · intro c t i t' hd hc
    simp only [compileNext, next_zero, next_one, List.head?_cons, and_self, if_true, read_two]
      at hc
    cases hrel : c .relativeLocation ⟨s, t⟩ with
    | none => simp [hrel] at hc
    | some r =>
      obtain ⟨j, e⟩ := r
      by_cases hj : j = parseError
      · simp only [hrel, hj, Option.bind_eq_bind, Option.bind_some, if_true] at hc
        exact absurd (congrArg Prod.fst (Option.some.inj hc)).symm hd.ne_error
      · simp only [hrel, hj, Option.bind_eq_bind, Option.bind_some, if_false] at hc
        have hwrap := Option.some.inj hc
        simp [compileLocationPath, hs, hrel, hj, hwrap]

lemma yields_relative (hs : s ≠ []) (hhead : s.head? ≠ some '/')
    (h : Yields (fun c => c .relativeLocation) s rest op) :
    Yields compileLocationPath s rest (.contextNode op) := by
  refine h.push .contextNode ?_ ?_
  · rintro place a b rfl -
    rfl
  · intro c t i t' hd hc
    have hcurrent : (⟨s, t⟩ : Expression D).current ≠ some '/' := hhead
    simp [compileLocationPath, hs, hcurrent, hc, hd.ne_error]

lemma yields_filtered (hfilter : Yields compileFilter s w op1)
    (hnext : Yields compileNext (skipped w) rest op2) :
    Yields compilePathFilter s rest (.pathExpression op1 op2) := by
  refine hfilter.push₂ .pathExpression hnext ?_ ?_
  · rintro place a b rfl rfl
    rfl
  · intro c t i t' j t'' hd hd' hc hc'
    simp [compilePathFilter, hc, hc', hd.ne_error, hd'.ne_error]

end Paths

section Filters

variable {D : Type*} [Add D] [Mul D] [Div D] [NatCast D] {s w z rest : Text}
  {op op1 op2 : Operation D}

lemma yields_paren (h : Yields (fun c => c .orexpr) (s ++ ')' :: z) (')' :: z) op) :
    Yields compileFilter ('(' :: s ++ ')' :: z) z op := by
  refine h.of_eq fun c t i t' hd hc => ?_
  simp [compileFilter, hc, skipped_cons]

lemma yields_literal (l : Literal) :
    Yields compileFilter (l.source ++ z) z (.literal 0 l.text : Operation D) := by
  refine Yields.leaf (.literal l.text) (fun _ => rfl) fun c t => ?_
  have hliteral := l.compileLiteral (D := D) (t := t) (z := z)
  have hcurrent : (⟨l.source ++ z, t⟩ : Expression D).current = some l.del := rfl
  have hparen : l.del ≠ '(' := by
    obtain h | h := l.quote
    · rw [h]
      decide
    · rw [h]
      decide
  simp [compileFilter, hcurrent, hparen, l.quote, hliteral]

lemma yields_number (n : Number) (hz : ∀ c ∈ z.head?, isNameChar c = false) :
    Yields compileFilter (n.source ++ z) z (.number 0 n.value : Operation D) := by
  refine Yields.leaf (.number n.value) (fun _ => rfl) fun c t => ?_
  have hnumber := n.compileNumber (D := D) (t := t) hz
  have hat := n.atNumber z t
  obtain ⟨d, s, hn, hd⟩ := n.cons
  have hcurrent : (⟨n.source ++ z, t⟩ : Expression D).current = some d := by
    rw [hn]
    rfl
  have hne : d ≠ '(' ∧ d ≠ '\'' ∧ d ≠ '"' := by
    obtain hd | ⟨rfl, -⟩ := hd
    · refine ⟨?_, ?_, ?_⟩ <;> rintro rfl <;> exact absurd hd (by decide)
    · decide
  simp [compileFilter, hcurrent, hne, hat, hnumber]

lemma yields_argument (hrest : rest.head? ≠ some ',')
    (h : Yields (fun c => c .orexpr) s rest op) (hskip : skipped rest = rest) :
    Yields (fun c => c .argument) s rest (.argument op .parseEnd) := by
  refine (h.push .argument ?_ ?_).call
  · rintro place a b rfl hb
    simp [Entry.operation, Operation.erase, hb]
  · intro c t i t' hd hc
    have hcurrent : (⟨rest, t'⟩ : Expression D).current ≠ some ',' := hrest
    simp [compileBody, compileArgument, hc, hskip, hcurrent]

/-- A name that is not in front of a number, a literal or a parenthesis. -/
lemma Name.compileFilter (n : Name) (c : Calls D) (t : List (Entry D)) :
    XPath.compileFilter c ⟨n.text ++ z, t⟩ = compileFunctionCall c ⟨n.text ++ z, t⟩ := by
  have hnumber := n.atNumber z t
  simp [XPath.compileFilter, n.current_ne (d := '(') (by decide) z,
    n.current_ne (d := '\'') (by decide) z, n.current_ne (d := '"') (by decide) z, hnumber,
    n.current_ne (d := '$') (by decide) z]

lemma yields_noArgument (name : FunctionName) :
    Yields compileFilter (name.text ++ '(' :: ')' :: z) z
      (.functionCall name.text .parseEnd : Operation D) := by
  refine Yields.leaf (.functionCall name.text) (fun _ => rfl) fun c t => ?_
  have hname := name.toName.compileNcname (D := D) (t := t) (z := '(' :: ')' :: z)
    (apart_cons (c := '(') (by decide) _)
  rw [name.toName.compileFilter, compileFunctionCall, hname]
  simp [skipped_cons]

lemma yields_call (name : FunctionName) (hs : skipped s = s) (hhead : s.head? ≠ some ')')
    (h : Yields (fun c => c .argument) s (')' :: z) op) :
    Yields compileFilter (name.text ++ '(' :: s) z (.functionCall name.text op) := by
  refine h.push (.functionCall name.text) ?_ ?_
  · rintro place a b rfl -
    rfl
  · intro c t i t' hd hc
    have hname := name.toName.compileNcname (D := D) (t := t) (z := '(' :: s)
      (apart_cons (c := '(') (by decide) _)
    have hcurrent : (⟨s, t⟩ : Expression D).current ≠ some ')' := hhead
    rw [name.toName.compileFilter, compileFunctionCall, hname]
    simp [hs, hcurrent, hc]

end Filters

section Dispatch

variable {D : Type*} [Add D] [Mul D] [Div D] [NatCast D] {z : Text} (c : Calls D)
  (t : List (Entry D))

lemma not_startsFilter {d : Char} (hd : isNameStart d = true) : startsFilter d = false := by
  have hne := fun e he => ne_of_isNameStart (d := e) hd he
  simp [startsFilter, hne '$' (by decide), hne '\'' (by decide), hne '"' (by decide),
    hne '(' (by decide)]

lemma pathExpression_of_filter {d : Char} (hd : startsFilter d = true) (s : Text) :
    compilePathExpression c ⟨d :: s, t⟩ = compilePathFilter c ⟨d :: s, t⟩ := by
  rw [compilePathExpression, current_cons, Option.any_some, if_pos hd]

lemma pathExpression_of_number {s : Text} (h : (⟨s, t⟩ : Expression D).atNumber = true) :
    compilePathExpression c ⟨s, t⟩ = compilePathFilter c ⟨s, t⟩ := by
  rw [compilePathExpression, if_pos h, ite_self]

/-- What begins like none of the others is a location path. -/
lemma pathExpression_of_other {d : Char} {s : Text} (hd : startsFilter d = false)
    (hnumber : (⟨d :: s, t⟩ : Expression D).atNumber = false) (hname : isNameStart d = false) :
    compilePathExpression c ⟨d :: s, t⟩ = compileLocationPath c ⟨d :: s, t⟩ := by
  simp [compilePathExpression, hd, hnumber, compileNcname_none hname]

lemma Name.compilePathExpression (n : Name) (hz : ∀ d ∈ z.head?, isNameChar d = false) :
    XPath.compilePathExpression c ⟨n.text ++ z, t⟩ =
      if (skipped z).head? = some '(' ∧ nodeType n.text = none then
        compilePathFilter c ⟨n.text ++ z, t⟩
      else compileLocationPath c ⟨n.text ++ z, t⟩ := by
  have hany : (⟨n.text ++ z, t⟩ : Expression D).current.any startsFilter = false := by
    obtain ⟨d, s, hn, hd⟩ := n.cons
    rw [hn]
    exact not_startsFilter hd
  simp only [XPath.compilePathExpression, hany, n.atNumber z t, n.compileNcname hz,
    Option.bind_eq_bind, Option.bind_some, skip_mk, Bool.false_eq_true, if_false]
  rfl

lemma Expr.filter_dispatch (f : Expr .filter) :
    compilePathExpression c ⟨f.text ++ z, t⟩ = compilePathFilter c ⟨f.text ++ z, t⟩ := by
  cases f with
  | paren e => exact pathExpression_of_filter c t rfl _
  | literal l =>
    refine pathExpression_of_filter c t ?_ _
    obtain h | h := l.quote
    · rw [h]
      rfl
    · rw [h]
      rfl
  | number n => exact pathExpression_of_number c t (n.atNumber z t)
  | call name args =>
    have htext : (Expr.call name args).text ++ z =
        name.text ++ '(' :: (args.text ++ ')' :: z) := by
      simp [Expr.text]
    rw [htext, name.toName.compilePathExpression c t (apart_cons (c := '(') (by decide) _),
      if_pos ⟨by rw [skipped_cons (by decide)]; rfl, name.notType⟩]

lemma not_isDigit_of_apart (hz : ∀ d ∈ z.head?, isNameChar d = false) :
    z.head?.any Char.isDigit = false := by
  cases z with
  | nil => rfl
  | cons d z =>
    have hd := hz d rfl
    simp only [isNameChar, Char.isAlphanum, Bool.or_eq_false_iff] at hd
    simpa using hd.1.1.1.2

lemma Expr.predicates_clear (p : Expr .predicates) (hz : Follows .step z) :
    Clear (p.text ++ z) := by
  cases p with
  | noPredicate => exact hz.toClear
  | predicate e r =>
    refine ⟨apart_cons (c := '[') (by decide) _, ?_⟩
    simp [Expr.text, skipped_cons (show '[' ≠ ' ' by decide)]

lemma Expr.step_dispatch (s : Expr .step) (hz : Follows .step z) :
    compilePathExpression c ⟨s.text ++ z, t⟩ = compileLocationPath c ⟨s.text ++ z, t⟩ := by
  cases s with
  | self =>
    refine pathExpression_of_other c t rfl ?_ (by decide)
    have hz' := not_isDigit_of_apart hz.apart
    simpa [Expression.atNumber] using hz'
  | parent => exact pathExpression_of_other c t rfl (by simp [Expression.atNumber]) (by decide)
  | test axis test p =>
    have hclear := p.predicates_clear hz
    have htext : (Expr.test axis test p).text ++ z =
        axis.source ++ (test.source ++ (p.text ++ z)) := by
      simp [Expr.text]
    rw [htext]
    cases axis with
    | «at» => exact pathExpression_of_other c t rfl (by simp [Expression.atNumber]) (by decide)
    | named axis =>
      have hsource : (AxisSpecifier.named axis).source ++ (test.source ++ (p.text ++ z)) =
          (axisNcname axis).text ++ ':' :: ':' :: (test.source ++ (p.text ++ z)) := by
        simp [AxisSpecifier.source, axisNcname]
      rw [hsource, (axisNcname axis).compilePathExpression c t
        (apart_cons (c := ':') (by decide) _), if_neg]
      simp [skipped_cons (show ':' ≠ ' ' by decide)]
    | nothing =>
      obtain h | ⟨n, w, h, hstands⟩ := test.begins
      · rw [h]
        exact pathExpression_of_other c t rfl (by simp [Expression.atNumber]) (by decide)
      · have hn := hstands _ hclear
        have hsource : AxisSpecifier.nothing.source ++ (test.source ++ (p.text ++ z)) =
            n.text ++ (w ++ (p.text ++ z)) := by
          simp [AxisSpecifier.source, h]
        rw [hsource, n.compilePathExpression c t hn.apart,
          if_neg fun hcall => hn.notCalled hcall.1 hcall.2]

end Dispatch

section Loops

variable {D : Type*} [Add D] [Mul D] [Div D] [NatCast D]
  {f g : Calls D → Expression D → Option (ℤ × Expression D)} {loop : ℤ → Call}
  {s w z rest : Text} {op op1 op2 : Operation D}

lemma YieldsTo.call {call : Call} (h : YieldsTo (fun c => compileBody c call) loop s rest op) :
    YieldsTo (fun c => c call) loop s rest op := by
  intro t
  obtain ⟨i, t', hs, hd, hr⟩ := h t
  exact ⟨i, t', hs, hd, fun r h => (hr r h).call⟩

/-- The first operand, with which the loop begins. -/
lemma Yields.first (h : Yields g s rest op)
    (hfg : ∀ c t i t', Denotes t' i op → g c ⟨s, t⟩ = some (i, ⟨rest, t'⟩) →
      f c ⟨s, t⟩ = c (loop i) ⟨rest, t'⟩) : YieldsTo f loop s rest op := by
  intro t
  obtain ⟨i, t', hs, hd, hr⟩ := h t
  refine ⟨i, t', hs, hd, fun r hloop => hr.of_eq₂ hloop fun c hc hc' => ?_⟩
  rw [hfg c t i t' hd hc, hc']

/-- A round of the loop, with one more operand. -/
lemma YieldsTo.round (opr : OperationType D) (h : YieldsTo f loop s w op1)
    (h' : Yields g z rest op2)
    (hop : ∀ place a b, a.erase = op1 → b.erase = op2 →
      ((⟨opr, 0, 0⟩ : Entry D).operation place (some a) (some b)).map Operation.erase = some op)
    (hround : ∀ c t i j t', Denotes t' j op2 → g c ⟨z, t⟩ = some (j, ⟨rest, t'⟩) →
      compileBody c (loop i) ⟨w, t⟩ = c (loop t'.length) ⟨rest, ⟨opr, i, j⟩ :: t'⟩) :
    YieldsTo f loop s rest op := by
  intro t
  obtain ⟨i, t', hs, hd, hr⟩ := h t
  obtain ⟨j, t'', hs', hd', hr'⟩ := h' t'
  refine ⟨t''.length, ⟨opr, i, j⟩ :: t'', (hs.trans hs').trans (List.suffix_cons _ _), ?_, ?_⟩
  · exact denotes_push (hd.mono hs') hd' fun a b => hop t''.length a b
  · intro r hloop
    refine hr r (Returns.call (hr'.of_eq₂ hloop fun c hc hc' => ?_))
    rw [hround c t' i j t'' hd' hc, hc']

/-- The loop ends. -/
lemma YieldsTo.done (h : YieldsTo f loop s rest op)
    (hend : ∀ c t i, compileBody c (loop i) ⟨rest, t⟩ = some (i, (⟨rest, t⟩ : Expression D))) :
    Yields f s rest op := by
  intro t
  obtain ⟨i, t', hs, hd, hr⟩ := h t
  exact ⟨i, t', hs, hd, hr _ (Returns.call (.of_forall fun c => hend c t' i))⟩

lemma yields_unionTerm (hs : s ≠ []) (hz : (skipped z).head? ≠ some '|')
    (h : Yields compilePathExpression s (skipped z) op) :
    Yields (fun c => c .union) s (skipped z) op := by
  refine Yields.call (h.of_eq fun c t i t' hd hc => ?_)
  have hcurrent : (⟨skipped z, t'⟩ : Expression D).current ≠ some '|' := hz
  simp [compileBody, compileUnion, hs, hc, hd.ne_error, hcurrent]

lemma yields_union (hs : s ≠ []) (hw : skipped w = w)
    (h : Yields compilePathExpression s ('|' :: ' ' :: w) op1)
    (h' : Yields (fun c => c .union) w rest op2) :
    Yields (fun c => c .union) s rest (.union op1 op2) := by
  refine (h.push₂ .union h' ?_ ?_).call
  · rintro place a b rfl rfl
    rfl
  · intro c t i t' j t'' hd hd' hc hc'
    simp [compileBody, compileUnion, hs, hc, hd.ne_error, skipped_cons, hw, hc', hd'.ne_error]

lemma yieldsTo_equalTerm (hs : s ≠ []) (h : Yields (fun c => c .union) s rest op) :
    YieldsTo compileEqualexpr .equalRest s rest op := by
  refine h.first fun c t i t' hd hc => ?_
  simp [compileEqualexpr, hs, hc, hd.ne_error]

lemma yieldsTo_equal (hw : skipped w = w) (hrest : skipped rest = rest)
    (h : YieldsTo compileEqualexpr .equalRest s ('=' :: ' ' :: w) op1)
    (h' : Yields (fun c => c .union) w rest op2) :
    YieldsTo compileEqualexpr .equalRest s rest (.equalExpr op1 op2) := by
  refine h.round .equalExpr h' ?_ ?_
  · rintro place a b rfl rfl
    rfl
  · intro c t i j t' hd hc
    simp [compileBody, equalRest, skipped_cons, hw, hc, hd.ne_error, Expression.push, hrest]

lemma yields_equal (hrest : rest.head? ≠ some '=')
    (h : YieldsTo compileEqualexpr .equalRest s rest op) : Yields compileEqualexpr s rest op := by
  refine h.done fun c t i => ?_
  have hcurrent : (⟨rest, t⟩ : Expression D).current ≠ some '=' := hrest
  simp [compileBody, equalRest, hcurrent]

omit [Add D] [Mul D] [Div D] [NatCast D] in
/-- The loop for `and` never goes round. -/
lemma andRest_eq (c : Calls D) (e : Expression D) (op1 : ℤ) : andRest c e op1 = some (op1, e) := by
  rw [andRest, if_neg]
  rintro ⟨-, hn, hd⟩
  rw [hn] at hd
  exact absurd hd (by decide)

lemma yields_andTerm (hs : s ≠ []) (hrest : skipped rest = rest)
    (h : Yields compileEqualexpr s rest op) : Yields compileAndexpr s rest op := by
  have hfirst : YieldsTo compileAndexpr .andRest s rest op := by
    refine h.first fun c t i t' hd hc => ?_
    simp [compileAndexpr, hs, hc, hd.ne_error, hrest]
  exact hfirst.done fun c t i => andRest_eq c _ i

lemma yieldsTo_orTerm (hs : s ≠ []) (hrest : skipped rest = rest)
    (h : Yields compileAndexpr s rest op) : YieldsTo (fun c => c .orexpr) .orRest s rest op := by
  refine YieldsTo.call (h.first fun c t i t' hd hc => ?_)
  simp [compileBody, compileOrexpr, hs, hc, hd.ne_error, hrest]

lemma yieldsTo_or (hw : skipped w = w) (hrest : skipped rest = rest)
    (h : YieldsTo (fun c => c .orexpr) .orRest s ('o' :: 'r' :: ' ' :: w) op1)
    (h' : Yields compileAndexpr w rest op2) :
    YieldsTo (fun c => c .orexpr) .orRest s rest (.orExpr op1 op2) := by
  refine h.round .orExpr h' ?_ ?_
  · rintro place a b rfl rfl
    rfl
  · intro c t i j t' hd hc
    simp [compileBody, orRest, hw, hc, hd.ne_error, Expression.push, hrest]

lemma yields_or (hrest : ¬ ['o', 'r'] <+: rest)
    (h : YieldsTo (fun c => c .orexpr) .orRest s rest op) :
    Yields (fun c => c .orexpr) s rest op := by
  refine h.done fun c t i => ?_
  have hnot : ¬ ((⟨rest, t⟩ : Expression D).current = some 'o' ∧
      (⟨rest, t⟩ : Expression D).next 1 = some 'r') := by
    rintro ⟨ho, hr⟩
    obtain _ | ⟨a, _ | ⟨b, rest⟩⟩ := rest
    · simp [Expression.current] at ho
    · simp at hr
    · simp_all
  exact if_neg hnot

end Loops

section Expressions

variable {D : Type*} [Add D] [Mul D] [Div D] [NatCast D] {z : Text}

lemma follows_cons {k : Rule} {c : Char} (hname : isNameChar c = false) (hspace : c ≠ ' ')
    (hc : c ∉ k.tokens) (z : Text) : Follows k (c :: z) := by
  refine ⟨apart_cons hname z, ?_, ?_⟩
  · simpa [skipped_cons hspace] using hc
  · rintro - hor
    rw [skipped_cons hspace, List.cons_prefix_cons] at hor
    rw [← hor.1] at hname
    exact absurd hname (by decide)

lemma follows_space {k : Rule} {c : Char} (hspace : c ≠ ' ') (hc : c ∉ k.tokens) (hk : k ≠ .or)
    (z : Text) : Follows k (' ' :: c :: z) := by
  refine ⟨apart_cons (c := ' ') (by decide) _, ?_, fun h => absurd h hk⟩
  simpa [skipped_cons hspace] using hc

namespace Expr

/-- The operations the compiler makes of an expression: a path that begins with `//` starts at
the context node. -/
def compiled {k : Rule} (x : Expr k) : Operation D := x.operationFrom .contextNode

lemma step_operation_eq (s : Expr .step) (lead : Operation D → Operation D) :
    ∃ axis test pred, s.operationFrom lead = .step axis test pred .parseEnd := by
  cases s with
  | self | parent | test axis t p => exact ⟨_, _, _, rfl⟩

lemma steps_operation_ne (s : Expr .steps) (lead : Operation D → Operation D) :
    s.operationFrom lead ≠ .parseEnd := by
  cases s with
  | lastStep s | nextStep s r | nextBelow s r =>
    obtain ⟨axis, test, pred, h⟩ := s.step_operation_eq lead
    simp [operationFrom, h, Operation.followedBy]

lemma step_head (s : Expr .step) : ∃ c w, s.text = c :: w ∧ c ≠ '/' := by
  cases s with
  | self => exact ⟨'.', [], rfl, by decide⟩
  | parent => exact ⟨'.', ['.'], rfl, by decide⟩
  | test axis t p =>
    obtain ⟨c, w, h, hc⟩ := axis.cons t
    refine ⟨c, w ++ p.text, by rw [text, h]; rfl, ?_⟩
    obtain hc | rfl | rfl := hc
    · exact ne_of_isNameStart hc (by decide)
    · decide
    · decide

lemma steps_begins (s : Expr .steps) :
    ∃ (st : Expr .step) (w : Text), s.text = st.text ++ w ∧
      ∀ z, Follows .steps z → Follows .step (w ++ z) := by
  cases s with
  | lastStep s =>
    exact ⟨s, [], (List.append_nil _).symm, fun z hz => hz.mono (by decide) (by decide)⟩
  | nextStep s r =>
    exact ⟨s, '/' :: r.text, rfl, fun z _ => follows_cons (by decide) (by decide) (by decide) _⟩
  | nextBelow s r =>
    exact ⟨s, '/' :: '/' :: r.text, rfl,
      fun z _ => follows_cons (by decide) (by decide) (by decide) _⟩

lemma steps_head (s : Expr .steps) (z : Text) : (s.text ++ z).head? ≠ some '/' := by
  obtain ⟨st, w, h, -⟩ := s.steps_begins
  obtain ⟨c, v, hst, hc⟩ := st.step_head
  rw [h, hst]
  simpa using hc

lemma steps_dispatch (s : Expr .steps) (hz : Follows .steps z) (c : Calls D)
    (t : List (Entry D)) :
    compilePathExpression c ⟨s.text ++ z, t⟩ = compileLocationPath c ⟨s.text ++ z, t⟩ := by
  obtain ⟨st, w, h, hw⟩ := s.steps_begins
  rw [h, List.append_assoc]
  exact st.step_dispatch c t (hw z hz)

def Read (D : Type*) [Add D] [Mul D] [Div D] [NatCast D] : {k : Rule} → Expr k → Prop
  | .or, x => ∀ z, Follows .and z → x.compilable z.isEmpty →
      YieldsTo (fun c => c .orexpr) .orRest (x.text ++ z) (skipped z) (x.compiled : Operation D)
  | .and, x => ∀ z, Follows .and z → x.compilable z.isEmpty →
      Yields compileAndexpr (x.text ++ z) (skipped z) (x.compiled : Operation D)
  | .equal, x => ∀ z, Follows .union z → x.compilable z.isEmpty →
      YieldsTo compileEqualexpr .equalRest (x.text ++ z) (skipped z) (x.compiled : Operation D)
  | .union, x => ∀ z, Follows .union z → x.compilable z.isEmpty →
      Yields (fun c => c .union) (x.text ++ z) (skipped z) (x.compiled : Operation D)
  | .path, x => ∀ z, Follows .path z → x.compilable z.isEmpty →
      Yields compilePathExpression (x.text ++ z) (skipped z) (x.compiled : Operation D)
  | .steps, x => ∀ z, Follows .steps z → x.compilable false →
      Yields (fun c => c .relativeLocation) (x.text ++ z) (skipped z) (x.compiled : Operation D)
  | .step, x => ∀ z, Follows .step z → x.compilable false → ∃ w, skipped w = skipped z ∧
      Yields compileStep (x.text ++ z) w (x.compiled : Operation D)
  | .predicates, x => ∀ z, Follows .step z → x.compilable false →
      Yields (fun c => c .predicate) (x.text ++ z) (skipped z) (x.compiled : Operation D)
  | .filter, x => ∀ z, (∀ c ∈ z.head?, isNameChar c = false) → x.compilable false →
      Yields compileFilter (x.text ++ z) z (x.compiled : Operation D)
  | .arguments, x => ∀ z, x.compilable false → x.isNoArgument = false →
      Yields (fun c => c .argument) (x.text ++ ')' :: z) (')' :: z) (x.compiled : Operation D)

/-- Behind an expression in brackets or parentheses the loop for `or` is at its end. -/
lemma Read.closed {x : Expr .or} (h : x.Read D) {c : Char} (hname : isNameChar c = false)
    (hspace : c ≠ ' ') (hc : c ∉ Rule.or.tokens) (hx : x.compilable false = true) (z : Text) :
    Yields (fun k => k .orexpr) (x.text ++ c :: z) (c :: z) (x.compiled : Operation D) := by
  have hfollows : Follows .or (c :: z) := follows_cons hname hspace hc z
  have hyields := h (c :: z) (hfollows.mono (by decide) (by decide)) hx
  rw [skipped_cons hspace] at hyields
  refine yields_or ?_ hyields
  intro hor
  rw [List.cons_prefix_cons] at hor
  rw [← hor.1] at hname
  exact absurd hname (by decide)

theorem read {k : Rule} (x : Expr k) : x.Read D := by
  induction x with
  | orTerm e ih =>
    intro z hz hx
    exact yieldsTo_orTerm (e.text_append_ne_nil (by simp) (by simp) z) (skipped_skipped z)
      (ih z hz hx)
  | or l r ihl ihr =>
    intro z hz hx
    simp only [compilable, Bool.and_eq_true] at hx
    have hl := ihl (' ' :: 'o' :: 'r' :: ' ' :: (r.text ++ z))
      (follows_space (by decide) (by decide) (by decide) _) hx.1
    rw [skipped_space, skipped_cons (by decide)] at hl
    have hr := ihr z hz hx.2
    have hboth := yieldsTo_or (r.skipped_text (by simp) (by simp) z) (skipped_skipped z) hl hr
    simpa [text, compiled, operationFrom] using hboth
  | andTerm e ih =>
    intro z hz hx
    have hend : (skipped z).head? ≠ some '=' := fun h => hz.clear '=' h (by decide)
    exact yields_andTerm (e.text_append_ne_nil (by simp) (by simp) z) (skipped_skipped z)
      (yields_equal hend (ih z (hz.mono (by decide) (by decide)) hx))
  | and l r ihl ihr =>
    intro z hz hx
    exact absurd hx (by simp [compilable])
  | equalTerm e ih =>
    intro z hz hx
    exact yieldsTo_equalTerm (e.text_append_ne_nil (by simp) (by simp) z) (ih z hz hx)
  | equal l r ihl ihr =>
    intro z hz hx
    simp only [compilable, Bool.and_eq_true] at hx
    have hl := ihl (' ' :: '=' :: ' ' :: (r.text ++ z))
      (follows_space (by decide) (by decide) (by decide) _) hx.1
    rw [skipped_space, skipped_cons (by decide)] at hl
    have hr := ihr z hz hx.2
    have hboth := yieldsTo_equal (r.skipped_text (by simp) (by simp) z) (skipped_skipped z) hl hr
    simpa [text, compiled, operationFrom] using hboth
  | unionTerm e ih =>
    intro z hz hx
    have hend : (skipped z).head? ≠ some '|' := fun h => hz.clear '|' h (by decide)
    exact yields_unionTerm (e.text_append_ne_nil (by simp) (by simp) z) hend
      (ih z (hz.mono (by decide) (by decide)) hx)
  | union l r ihl ihr =>
    intro z hz hx
    simp only [compilable, Bool.and_eq_true] at hx
    have hl := ihl (' ' :: '|' :: ' ' :: (r.text ++ z))
      (follows_space (by decide) (by decide) (by decide) _) hx.1
    rw [skipped_space, skipped_cons (by decide)] at hl
    have hr := ihr z hz hx.2
    have hboth := yields_union (l.text_append_ne_nil (by simp) (by simp) _)
      (r.skipped_text (by simp) (by simp) z) hl hr
    simpa [text, compiled, operationFrom] using hboth
  | root =>
    intro z hz hx
    obtain rfl : z = [] := by simpa [compilable] using hx
    refine yields_root.of_eq fun c t i t' hd hc => ?_
    rw [skipped_nil, ← hc]
    exact pathExpression_of_other c t rfl (by simp [Expression.atNumber]) (by decide)
  | absolute s ih =>
    intro z hz hx
    have hs := yields_absolute (s.steps_head z) (ih z (hz.mono (by decide) (by decide)) hx)
    refine hs.of_eq fun c t i t' hd hc => ?_
    rw [← hc]
    exact pathExpression_of_other c t rfl (by simp [Expression.atNumber]) (by decide)
  | descendants s ih =>
    intro z hz hx
    have hs := yields_descendants (s.skipped_text (by simp) (by simp) z)
      (ih z (hz.mono (by decide) (by decide)) hx)
    refine hs.of_eq fun c t i t' hd hc => ?_
    rw [← hc]
    exact pathExpression_of_other c t rfl (by simp [Expression.atNumber]) (by decide)
  | relative s ih =>
    intro z hz hx
    have hz' : Follows .steps z := hz.mono (by decide) (by decide)
    have hs := yields_relative (s.text_append_ne_nil (by simp) (by simp) z) (s.steps_head z)
      (ih z hz' hx)
    refine hs.of_eq fun c t i t' hd hc => ?_
    rw [← hc]
    exact s.steps_dispatch hz' c t
  | filtered f ih =>
    intro z hz hx
    have hnext : (skipped z).head? ≠ some '/' := fun h => hz.clear '/' h (by decide)
    have hs := yields_filtered (ih z hz.apart hx) (yields_noNext hnext)
    refine hs.of_eq fun c t i t' hd hc => ?_
    rw [← hc]
    exact f.filter_dispatch c t
  | filteredSteps f s ihf ihs =>
    intro z hz hx
    simp only [compilable, Bool.and_eq_true] at hx
    have hf := ihf ('/' :: (s.text ++ z)) (apart_cons (c := '/') (by decide) _) hx.1
    have hnext := yields_nextStep (s.steps_head z)
      (ihs z (hz.mono (by decide) (by decide)) hx.2)
    rw [← skipped_cons (show '/' ≠ ' ' by decide)] at hnext
    have htext : (filteredSteps f s).text ++ z = f.text ++ '/' :: (s.text ++ z) := by
      simp [text]
    rw [htext]
    refine (yields_filtered hf hnext).of_eq fun c t i t' hd hc => ?_
    rw [← hc]
    exact f.filter_dispatch c t
  | filteredDescendants f s ihf ihs =>
    intro z hz hx
    simp only [compilable, Bool.and_eq_true] at hx
    have hf := ihf ('/' :: '/' :: (s.text ++ z)) (apart_cons (c := '/') (by decide) _) hx.1
    have hnext := yields_nextBelow (ihs z (hz.mono (by decide) (by decide)) hx.2)
    rw [← skipped_cons (show '/' ≠ ' ' by decide)] at hnext
    have htext : (filteredDescendants f s).text ++ z = f.text ++ '/' :: '/' :: (s.text ++ z) := by
      simp [text]
    rw [htext]
    refine (yields_filtered hf hnext).of_eq fun c t i t' hd hc => ?_
    rw [← hc]
    exact f.filter_dispatch c t
  | lastStep s ih =>
    intro z hz hx
    obtain ⟨w, hw, hstep⟩ := ih z (hz.mono (by decide) (by decide)) hx
    obtain ⟨axis, test, pred, hop⟩ := s.step_operation_eq (D := D) .contextNode
    have hnext : (skipped w).head? ≠ some '/' := by
      rw [hw]
      exact fun h => hz.clear '/' h (by decide)
    rw [compiled, hop] at hstep
    have hlast := yields_lastStep (s.text_append_ne_nil (by simp) (by simp) z) hstep hnext
    rw [hw] at hlast
    simpa [text, compiled, operationFrom, hop, Operation.followedBy] using hlast
  | nextStep s r ihs ihr =>
    intro z hz hx
    simp only [compilable, Bool.and_eq_true] at hx
    obtain ⟨w, hw, hstep⟩ := ihs ('/' :: (r.text ++ z))
      (follows_cons (by decide) (by decide) (by decide) _) hx.1
    obtain ⟨axis, test, pred, hop⟩ := s.step_operation_eq (D := D) .contextNode
    have hnext := yields_nextStep (r.steps_head z) (ihr z hz hx.2)
    rw [← skipped_cons (show '/' ≠ ' ' by decide), ← hw] at hnext
    rw [compiled, hop] at hstep
    have hboth := yields_steps (s.text_append_ne_nil (by simp) (by simp) _) hstep hnext
      (r.steps_operation_ne _)
    simpa [text, compiled, operationFrom, hop, Operation.followedBy] using hboth
  | nextBelow s r ihs ihr =>
    intro z hz hx
    simp only [compilable, Bool.and_eq_true] at hx
    obtain ⟨w, hw, hstep⟩ := ihs ('/' :: '/' :: (r.text ++ z))
      (follows_cons (by decide) (by decide) (by decide) _) hx.1
    obtain ⟨axis, test, pred, hop⟩ := s.step_operation_eq (D := D) .contextNode
    have hnext := yields_nextBelow (ihr z hz hx.2)
    rw [← skipped_cons (show '/' ≠ ' ' by decide), ← hw] at hnext
    rw [compiled, hop] at hstep
    have hboth := yields_steps (s.text_append_ne_nil (by simp) (by simp) _) hstep hnext
      (by simp [selfDescendant])
    simpa [text, compiled, operationFrom, hop, Operation.followedBy] using hboth
  | self =>
    intro z hz hx
    refine ⟨z, rfl, yields_self fun h => ?_⟩
    exact absurd (hz.apart '.' h) (by decide)
  | parent =>
    intro z hz hx
    exact ⟨z, rfl, yields_parent⟩
  | test axis t p ih =>
    intro z hz hx
    refine ⟨skipped z, skipped_skipped z, ?_⟩
    have hp := yields_test axis t (p.predicates_clear hz) (ih z hz hx)
    simpa [text, compiled, operationFrom] using hp
  | noPredicate =>
    intro z hz hx
    exact yields_noPredicate fun h => hz.clear '[' h (by decide)
  | predicate e r ihe ihr =>
    intro z hz hx
    simp only [compilable, Bool.and_eq_true] at hx
    have he := ihe.closed (c := ']') (by decide) (by decide) (by decide) hx.1 (r.text ++ z)
    have hp := yields_predicate (e.skipped_text (by simp) (by simp) _) he (ihr z hz hx.2)
    simpa [text, compiled, operationFrom] using hp
  | paren e ih =>
    intro z hz hx
    have he := ih.closed (c := ')') (by decide) (by decide) (by decide) hx z
    simpa [text, compiled, operationFrom] using yields_paren he
  | literal l =>
    intro z hz hx
    exact yields_literal l
  | number n =>
    intro z hz hx
    exact yields_number n hz
  | call name args ih =>
    intro z hz hx
    have htext : (Expr.call name args).text ++ z =
        name.text ++ '(' :: (args.text ++ ')' :: z) := by
      simp [text]
    rw [htext]
    cases args with
    | noArgument => exact yields_noArgument name
    | argument e r =>
      have harg := ih z hx rfl
      obtain ⟨c, w, he, hc⟩ := e.cons (by simp) (by simp)
      have hbegin : ∃ v, (argument e r).text ++ ')' :: z = c :: v := by
        simp only [text, he]
        split <;> exact ⟨_, rfl⟩
      obtain ⟨v, hv⟩ := hbegin
      refine yields_call name ?_ ?_ harg
      · rw [hv]
        exact skipped_cons (hc.ne (by decide) (by decide) (by decide)) _
      · rw [hv]
        simpa using hc.ne (d := ')') (by decide) (by decide) (by decide)
  | noArgument =>
    intro z hx hargs
    cases hargs
  | argument e r ihe ihr =>
    intro z hx hargs
    simp only [compilable, Bool.and_eq_true] at hx
    have he := ihe.closed (c := ')') (by decide) (by decide) (by decide) hx.1 z
    have harg := yields_argument (by simp) he (skipped_cons (by decide) _)
    cases r with
    | noArgument => simpa [text, isNoArgument, compiled, operationFrom] using harg
    | argument e' r' => exact absurd hx.2 (by simp [isNoArgument])

end Expr

end Expressions

end Axis2C.XPath
