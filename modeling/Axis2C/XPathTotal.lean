import Axis2C.XPathCalls

/-!
# The compiler on any text

A text is compiled or refused, unless an argument is called for in front of a comma or a name
or a literal does not fit in its buffer. The table that comes out has the error of an argument
as an operand when the argument is no expression.
-/
namespace Axis2C.XPath
open OpenRecursion

section Body

variable {D : Type*} {c : Calls D} {w : Prop} {q q' : Call × Expression D}
  {r : ℤ × Expression D}
variable {e : Expression D}

/-- `axiom_xpath_compile_argument` calls itself in front of a comma without reading it. -/
def AtComma (call : Call) (e : Expression D) : Prop := call = .argument ∧ e.current = some ','

/-- Where a call is that does not come back, the text would end. -/
def ended (_ : Call) (e : Expression D) : ℤ × Expression D := (parseEnd, e)

/-- One call is on less text than the other, or of a lower rank. -/
def Below (q q' : Call × Expression D) : Prop := Smaller q'.2.rest.length (rank q'.1) q

/-- The function reads a name or a literal that does not fit in its buffer. -/
def Overflows : Call × Expression D → Prop
  | (.union, e) => e.TooLong
  | (.relativeLocation, e) => e.skip.StepTooLong
  | _ => False

lemma below_wf : WellFounded (Below (D := D)) := by
  have hlex : WellFounded (InvImage (α := Call × Expression D)
      (Prod.Lex (· < ·) (· < ·)) fun q => (q.2.rest.length, rank q.1)) :=
    InvImage.wf _ (WellFounded.prod_lex wellFounded_lt wellFounded_lt)
  refine Subrelation.wf (fun {q q'} h => ?_) hlex
  rw [InvImage, Prod.lex_def]
  obtain hlt | ⟨hle, hrank⟩ := h
  · exact .inl hlt
  · obtain hlt | heq := Nat.lt_or_eq_of_le hle
    · exact .inl hlt
    · exact .inr ⟨heq, hrank⟩

lemma compileArgument_ne_error (h : compileArgument c e = some r) :
    r.1 ≠ parseError := by
  unfold compileArgument at h
  obtain ⟨⟨op1, e₁⟩, -, h⟩ := Option.bind_eq_some_iff.mp h
  obtain ⟨⟨op2, e₂⟩, -, h⟩ := Option.bind_eq_some_iff.mp h
  obtain rfl := Option.some.inj h
  exact push_ne_error _ _ _ _

lemma compileNcname_refused (h : e.current.any isNameStart = false) :
    compileNcname e = some (none, e) := by
  simp [compileNcname, h]

/-- A step that does not fit begins with a name. -/
lemma Expression.StepTooLong.start {e : Expression D} (h : e.StepTooLong) :
    e.rest ≠ [] ∧ e.current ≠ some '.' := by
  have hfits (hat : e.current ≠ some '@') (hstar : e.current ≠ some '*')
      (hname : e.current.any isNameStart = false) : False := by
    have haxis : compileAxis e = some (some .child, e) := by
      simp [compileAxis, hat, compileNcname_refused hname]
    obtain hnone | ⟨axis, e', hsome, hnone⟩ := h
    · rw [haxis] at hnone
      cases hnone
    · rw [haxis] at hsome
      obtain ⟨-, rfl⟩ := Prod.mk.inj (Option.some.inj hsome)
      simp [compileNodeTest, hstar, compileNcname_refused hname] at hnone
  constructor
  · intro hrest
    have hcurrent : e.current = none := by rw [Expression.current, hrest]; rfl
    exact hfits (by simp [hcurrent]) (by simp [hcurrent]) (by simp [hcurrent])
  · intro hdot
    have hname : isNameStart '.' = false := by decide
    exact hfits (by simp [hdot]) (by simp [hdot]) (by simp [hdot, hname])

lemma compileRelativeLocation_tooLong (h : e.skip.StepTooLong) :
    compileRelativeLocation c e = none := by
  obtain ⟨hrest, hdot⟩ := h.start
  have hne : e.rest ≠ [] := fun hnil => hrest (by rw [Expression.skip, hnil]; rfl)
  have hstep : compileStep c e = none := by
    obtain hnone | ⟨axis, e', haxis, hnone⟩ := h
    · simp [compileStep, hdot, hnone]
    · simp [compileStep, hdot, haxis, hnone]
  simp [compileRelativeLocation, hne, hstep]

variable [Add D] [Mul D] [Div D] [NatCast D]

lemma compileUnion_tooLong {e : Expression D} (h : e.TooLong) : compileUnion c e = none := by
  have hpath {d : Char} (hd : e.current = some d) (hnone : compilePathExpression c e = none) :
      compileUnion c e = none := by
    obtain ⟨s, hs⟩ := exists_of_current hd
    have hne : e.rest ≠ [] := by rw [hs]; simp
    simp [compileUnion, hne, hnone]
  obtain hname | hlit := h
  · cases hcurrent : e.current with
    | none => simp [compileNcname, hcurrent] at hname
    | some d =>
      have hstart : isNameStart d = true := by
        by_contra hno
        simp [compileNcname, hcurrent, hno] at hname
      have hnumber : e.atNumber = false := by
        simp [Expression.atNumber, hcurrent, not_isDigit_of_isNameStart hstart,
          ne_of_isNameStart hstart (show isNameStart '.' = false by decide)]
      refine hpath hcurrent ?_
      simp [compilePathExpression, hcurrent, not_startsFilter hstart, hnumber, hname]
  · have hfilter {d : Char} (hd : e.current = some d) (hquote : d = '"' ∨ d = '\'') :
        compilePathExpression c e = none := by
      have hstarts : startsFilter d = true := by
        obtain rfl | rfl := hquote
        · decide
        · decide
      have hparen : d ≠ '(' := by
        obtain rfl | rfl := hquote
        · decide
        · decide
      simp [compilePathExpression, compilePathFilter, compileFilter, hd, hstarts, hparen, hquote.symm,
        hlit]
    have hquote : e.current = some '"' ∨ e.current = some '\'' := by
      by_contra hno
      rw [not_or] at hno
      simp [compileLiteral, hno] at hlit
    obtain hcurrent | hcurrent := hquote
    · exact hpath hcurrent (hfilter hcurrent (.inl rfl))
    · exact hpath hcurrent (hfilter hcurrent (.inr rfl))

section

variable (hc : ∀ i s r, c i s = some r → Fits w i s r) (hcomma : ¬ AtComma q.1 q.2)
  (hop : q.1 = .argument → w → ∀ r, c .orexpr q.2 = some r → r.1 ≠ parseError)

include hc hcomma hop

/-- What one function does, when its calls do it. -/
lemma compileBody_steps :
    Steps c w (Overflows q) (q.1.operand q.2.operations) q.2.rest.length (rank q.1) q.2
      fun c => compileBody c q.1 q.2 := by
  obtain ⟨call, e⟩ := q
  cases call with
  | orexpr => exact (compileOrexpr_steps hc le_rfl).weaken
  | orRest op1 => exact orRest_steps hc le_rfl op1
  | andRest op1 => exact andRest_steps op1
  | equalRest op1 => exact equalRest_steps hc le_rfl op1
  | union => exact (compileUnion_steps hc le_rfl).weaken
  | relativeLocation => exact (compileRelativeLocation_steps hc le_rfl).weaken
  | argument =>
    exact (compileArgument_steps hc le_rfl (fun hat => hcomma ⟨rfl, hat⟩) (hop rfl)).weaken
  | predicate => exact (compilePredicate_steps hc le_rfl).weaken

lemma compileBody_fits (hr : compileBody c q.1 q.2 = some r) : Fits w q.1 q.2 r := by
  refine ⟨((compileBody_steps hc hcomma hop).result r hr).1, fun hargument => ?_⟩
  rw [hargument] at hr
  exact compileArgument_ne_error hr

end

/-- The compiler is a recursion on the text, but for arguments in front of a comma. -/
lemma compile_regular : Regular compileBody ended (Fits (D := D) False) AtComma Below where
  fallback call e := by
    refine ⟨.ended (.refl e), fun _ => ?_⟩
    simp only [ended]
    decide
  stuck fuel call e hcomma := by
    by_contra hne
    obtain ⟨r, hr⟩ := Option.ne_none_iff_exists'.mp hne
    obtain ⟨rfl, hcurrent⟩ := hcomma
    exact (sound_iterate fuel _ _ _ hr).2 hcurrent
  run c hc call e r hcomma hr := by
    refine ⟨compileBody_fits (q := (call, e)) hc hcomma (fun _ hw => hw.elim) hr, ?_⟩
    obtain ⟨-, calls, hrun, hcalls⟩ :=
      (compileBody_steps (q := (call, e)) hc hcomma fun _ hw => hw.elim).result r hr
    exact ⟨calls, hrun, fun q hq => (hcalls q hq).1⟩
  wf := below_wf

/-- A function whose calls are answered gives nothing exactly when it reads too long a token. -/
lemma overflows_iff (hcomma : ¬ AtComma q.1 q.2) :
    compileBody (answers compileBody ended) q.1 q.2 = none ↔ Overflows q := by
  have hsteps := compileBody_steps (w := False) (q := q)
    (fun _ _ _ => compile_regular.answers_ok) hcomma fun _ hw => hw.elim
  constructor
  · intro h
    obtain ⟨call, e, hnone⟩ | hlong := hsteps.failed h
    · simp [answers] at hnone
    · exact hlong
  · intro h
    obtain ⟨call, e⟩ := q
    cases call with
    | union => exact compileUnion_tooLong h
    | relativeLocation => exact compileRelativeLocation_tooLong h
    | _ => exact h.elim

/-- The calls that a function makes on the way to a result. -/
lemma steps_of_makes (h : Makes compileBody ended q q') (hcomma : ¬ AtComma q.1 q.2)
    (hr : compileBody (answers compileBody ended) q.1 q.2 = some r) :
    q'.2.rest <:+ q.2.rest ∧ ∀ x, answers compileBody ended q'.1 q'.2 = some x →
      x.2.operations <:+ r.2.operations := by
  have hsteps := compileBody_steps (w := False) (q := q)
    (fun _ _ _ => compile_regular.answers_ok) hcomma fun _ hw => hw.elim
  obtain ⟨-, calls, hrun, hcalls⟩ := hsteps.result r hr
  exact (hcalls q' (hrun.mem h.2)).2

end Body

section Results

variable (D : Type*) [Add D] [Mul D] [Div D] [NatCast D]

/-- The text is compiled or refused; every operand of a table that comes out is the end or an
earlier operation. -/
def CompilesSafely (text : Text) : Prop :=
  ∃ r, Returns compileBody (compileExpression (D := D) text) r ∧
    ∀ start e, r = some (start, e) → WellFormed e.operations

variable {D} {text : Text} {q : Call × Expression D}

def CalledFor (text : Text) (q : Call × Expression D) : Prop :=
  Reached compileBody ended (.orexpr, ⟨text, []⟩) q

/-- The expression of an argument is an error. -/
def Refused (q : Call × Expression D) : Prop :=
  q.1 = .argument ∧ (answer compileBody ended .orexpr q.2).1 = parseError

lemma compileExpression_returns :
    (∃ r, Returns compileBody (compileExpression (D := D) text) r) ↔
      ∃ r : ℤ × Expression D, Returns compileBody (fun c => c .orexpr ⟨text, []⟩) r := by
  constructor
  · rintro ⟨r, hr⟩
    obtain ⟨fuel, hfuel⟩ := hr.exists
    obtain ⟨x, hx, -⟩ := Option.map_eq_some_iff.mp hfuel
    exact ⟨x, compile_regular.returns hx⟩
  · rintro ⟨x, hx⟩
    exact ⟨_, hx.of_eq fun c hc => congrArg _ hc⟩

/-- A text is compiled or refused exactly when no argument is called for in front of a comma and
no name or literal overflows. -/
lemma compileExpression_returns_iff :
    (∃ r, Returns compileBody (compileExpression (D := D) text) r) ↔
      ∀ q : Call × Expression D, CalledFor text q → ¬ AtComma q.1 q.2 ∧ ¬ Overflows q := by
  rw [compileExpression_returns, compile_regular.returns_iff_run (q := (.orexpr, ⟨text, []⟩))]
  refine forall₂_congr fun q _ => and_congr_right fun hcomma => ?_
  rw [Ne, overflows_iff hcomma]

section

variable {r₀ : ℤ × Expression D} (h : Returns compileBody (fun c => c .orexpr ⟨text, []⟩) r₀)

include h

/-- As long as no argument is refused, every table is well formed. -/
lemma fits_of_called (hargs : ∀ q : Call × Expression D, CalledFor text q → ¬ Refused q) :
    Fits True .orexpr ⟨text, []⟩ r₀ := by
  have hstart : Reached compileBody ended (.orexpr, ⟨text, []⟩)
      (.orexpr, (⟨text, []⟩ : Expression D)) := .refl
  refine compile_regular.reached_keeps ⟨r₀, h⟩ (fun q hq c hc r hr => ?_) _ hstart r₀ h
  obtain ⟨r', hr'⟩ := compile_regular.returns_of_reached ⟨r₀, h⟩ hq
  refine compileBody_fits (fun i s x hx => (hc i s x hx).1) (compile_regular.not_stuck hr')
    (fun hargument _ x hx => ?_) hr
  intro herror
  refine hargs q hq ⟨hargument, ?_⟩
  rw [← herror]
  exact congrArg Prod.fst (Option.some.inj (hc _ _ _ hx).2)

/-- What a call adds to the table stays there. -/
lemma wellFormed_of_called (hwf : WellFormed r₀.2.operations) (hq : CalledFor text q) :
    ∃ r, Returns compileBody (fun c => c q.1 q.2) r ∧ WellFormed r.2.operations := by
  induction hq with
  | refl => exact ⟨r₀, h, hwf⟩
  | @tail q₁ q₂ _ hmakes ih =>
    obtain ⟨r₁, hr₁, hwf₁⟩ := ih
    obtain ⟨r₂, hr₂⟩ := compile_regular.returns_of_makes hr₁ hmakes
    obtain ⟨calls, hrun, -⟩ := compile_regular.answers_run hr₁
    have hsuffix := (steps_of_makes hmakes (compile_regular.not_stuck hr₁) hrun.result).2 r₂
      (answers_of_returns ended hr₂)
    exact ⟨r₂, hr₂, hwf₁.of_suffix hsuffix⟩

end

/-- The error of a refused argument is in the table. -/
lemma not_refused_of_wellFormed {r : ℤ × Expression D}
    (hr : Returns compileBody (fun c => c q.1 q.2) r) (hwf : WellFormed r.2.operations) :
    ¬ Refused q := by
  obtain ⟨call, e⟩ := q
  rintro ⟨hcall, herror⟩
  obtain rfl : call = .argument := hcall
  obtain ⟨calls, hrun, -⟩ := compile_regular.answers_run hr
  have hresult : compileArgument (answers compileBody ended) e = some r := hrun.result
  unfold compileArgument at hresult
  obtain ⟨⟨op1, e₁⟩, hop1, hresult⟩ := Option.bind_eq_some_iff.mp hresult
  obtain ⟨⟨op2, e₂⟩, -, hresult⟩ := Option.bind_eq_some_iff.mp hresult
  have hanswer : answer compileBody ended .orexpr e = (op1, e₁) := Option.some.inj hop1
  rw [hanswer] at herror
  obtain rfl : op1 = parseError := herror
  obtain rfl := Option.some.inj hresult
  obtain hend | ⟨hle, -⟩ := hwf.1
  · exact absurd hend (show parseError ≠ parseEnd by decide)
  · exact absurd hle (show ¬ 0 ≤ parseError by decide)

variable (D) in
/-- A text is compiled to a table of earlier operands, or refused, exactly when no argument is
called for in front of a comma, no name or literal overflows and, unless the text is refused, no
argument is. -/
theorem compilesSafely_iff (text : Text) :
    CompilesSafely D text ↔
      (∀ q : Call × Expression D, CalledFor text q → ¬ AtComma q.1 q.2 ∧ ¬ Overflows q) ∧
      (Rejected D text ∨ ∀ q : Call × Expression D, CalledFor text q → ¬ Refused q) := by
  constructor
  · rintro ⟨r, hr, hwf⟩
    refine ⟨compileExpression_returns_iff.mp ⟨r, hr⟩, ?_⟩
    cases r with
    | none => exact .inl hr
    | some result =>
      obtain ⟨start, e⟩ := result
      have hcall : Returns compileBody (fun c => c .orexpr ⟨text, []⟩) (start, e) :=
        hr.of_eq fun c hc => compileExpression_eq hc
      refine .inr fun q hq => ?_
      obtain ⟨r', hr', hwf'⟩ := wellFormed_of_called hcall (hwf start e rfl) hq
      exact not_refused_of_wellFormed hr' hwf'
  · rintro ⟨hcalls, hargs⟩
    obtain ⟨r, hr⟩ := compileExpression_returns_iff.mpr hcalls
    refine ⟨r, hr, ?_⟩
    rintro start e rfl
    have hargs := hargs.resolve_left fun hrejected => absurd (hrejected.unique hr) (by simp)
    have hcall : Returns compileBody (fun c => c .orexpr ⟨text, []⟩) (start, e) :=
      hr.of_eq fun c hc => compileExpression_eq hc
    exact (fits_of_called hcall hargs).sane.wellFormed trivial trivial trivial

/-- An expression in which the first operand does not come back. -/
lemma not_compilesSafely_of_union (hne : text ≠ [])
    (h : ∀ fuel, compileUnion (iterate compileBody fuel) (⟨text, []⟩ : Expression D) = none) :
    ¬ CompilesSafely D text := by
  rintro ⟨r, hr, -⟩
  obtain ⟨r', hr'⟩ := compileExpression_returns.mp ⟨r, hr⟩
  obtain ⟨enough, hall⟩ := Filter.eventually_atTop.mp hr'
  have hresult : compileOrexpr (iterate compileBody (enough + 1)) ⟨text, []⟩ = some r' :=
    hall (enough + 2) (by omega)
  have hunion : iterate compileBody (enough + 1) .union (⟨text, []⟩ : Expression D) = none :=
    h enough
  simp [compileOrexpr, compileAndexpr, compileEqualexpr, hne, hunion] at hresult

omit [Add D] [Mul D] [Div D] [NatCast D] in
lemma compileNcname_replicate {n : ℕ} (hn : 255 ≤ n) :
    compileNcname (⟨List.replicate n 'a', []⟩ : Expression D) = none := by
  have hstart : isNameStart 'a' = true := by decide
  have hchar : isNameChar 'a' = true := by decide
  have hpos : n ≠ 0 := by omega
  simp [compileNcname, Expression.current, List.head?_replicate, hstart, hchar, hpos, hn]

/-- `f(,` is never left, `f(a/)` is compiled with the error of its argument as an operand, and a
name of 255 letters is written past its buffer. -/
theorem not_compilesSafely :
    ¬ CompilesSafely ℚ ['f', '(', ','] ∧ ¬ CompilesSafely ℚ ['f', '(', 'a', '/', ')'] ∧
      ¬ CompilesSafely ℚ (List.replicate 255 'a') := by
  have hne : List.replicate 255 'a' ≠ [] := List.ne_nil_of_length_eq_add_one List.length_replicate
  refine ⟨not_compilesSafely_of_union (by simp) fun fuel => ?_, ?_,
    not_compilesSafely_of_union hne fun fuel => compileUnion_tooLong (.inl (compileNcname_replicate le_rfl))⟩
  · have hargument : iterate compileBody fuel .argument (⟨[','], []⟩ : Expression ℚ) = none :=
      compile_regular.stuck fuel _ _ ⟨rfl, rfl⟩
    -- the tests on the text are evaluated, and the calls are not
    generalize he : (⟨['f', '(', ','], []⟩ : Expression ℚ) = e
    have hname : compileNcname e = some (some ['f'], ⟨['(', ','], []⟩) := by
      rw [← he]
      rfl
    have hcall : compileFunctionCall (iterate compileBody fuel) e = none := by
      rw [compileFunctionCall, hname]
      simp [Expression.current, Expression.read, Expression.skip, hargument]
    have hfilter : compileFilter (iterate compileBody fuel) e = none := by
      rw [← hcall, ← he]
      rfl
    have hpath : compilePathExpression (iterate compileBody fuel) e = none := by
      have hstart : compilePathExpression (iterate compileBody fuel) e =
          compilePathFilter (iterate compileBody fuel) e := by
        rw [← he]
        rfl
      simp [hstart, compilePathFilter, hfilter]
    rw [compileUnion, if_neg (by rw [← he]; simp), hpath]
    rfl
  · rintro ⟨r, hr, hwf⟩
    let table : List (Entry ℚ) := [⟨.pathExpression, 2, -1⟩, ⟨.functionCall ['f'], 1, -1⟩,
      ⟨.argument, parseError, -1⟩, ⟨.nodeTest ⟨.standard, none, some ['a'], none⟩ .child, -1, -1⟩]
    have hiterate : iterate compileBody 8 .orexpr ⟨['f', '(', 'a', '/', ')'], []⟩ =
        some (3, (⟨[], table⟩ : Expression ℚ)) := by
      decide +kernel
    have hcompile : Returns compileBody (compileExpression ['f', '(', 'a', '/', ')'])
        (some (3, (⟨[], table⟩ : Expression ℚ))) :=
      (compile_regular.returns hiterate).of_eq fun c hc => by rw [compileExpression, hc]; rfl
    obtain ⟨-, -, -, -, hargument, -⟩ := hwf _ _ (hr.unique hcompile)
    simp [Valid, parseEnd, parseError] at hargument

end Results

end Axis2C.XPath
