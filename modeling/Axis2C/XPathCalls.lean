import Axis2C.OpenRecursionCalls
import Axis2C.XPathRecognise

/-!
# The calls of the compiler

What a function of the compiler leaves is an end of its text, and the table grows. It calls
others on less text, or on as much in the order of `rank`; only an argument in front of a comma
calls itself where it stands. Every operand is the end or an earlier operation, unless an
argument that is no expression is added all the same.
-/
namespace Axis2C.XPath
open OpenRecursion

section Sanity

variable {D : Type*} {t t' : List (Entry D)} {e e' e'' : Expression D} {i j : ℤ} {w p : Prop}

/-- `AXIOM_XPATH_PARSE_END` or the index of an operation of the table. -/
def Valid (t : List (Entry D)) (i : ℤ) : Prop := i = parseEnd ∨ 0 ≤ i ∧ i < t.length

/-- Every operand is the end or an earlier operation. -/
def WellFormed : List (Entry D) → Prop
  | [] => True
  | entry :: t => Valid t entry.op1 ∧ Valid t entry.op2 ∧ WellFormed t

/-- What a function leaves of the text and of the table. -/
structure Within (w p : Prop) (e e' : Expression D) : Prop where
  rest : e'.rest <:+ e.rest
  suffix : e.operations <:+ e'.operations
  wellFormed : w → p → WellFormed e.operations → WellFormed e'.operations

/-- What it returns. -/
structure Sane (w p : Prop) (e : Expression D) (r : ℤ × Expression D) : Prop
    extends Within w p e r.2 where
  valid : p → r.1 ≠ parseError → Valid r.2.operations r.1

/-- A loop goes on with an operand, which has to be one. -/
def Call.operand (t : List (Entry D)) : Call → Prop
  | .orRest op1 => Valid t op1
  | .andRest op1 => Valid t op1
  | .equalRest op1 => Valid t op1
  | _ => True

/-- What a call returns; with `w` no argument that is no expression was added. -/
structure Fits (w : Prop) (call : Call) (e : Expression D) (r : ℤ × Expression D) : Prop where
  sane : Sane w (call.operand e.operations) e r
  argument : call = .argument → r.1 ≠ parseError

lemma Valid.mono (h : Valid t i) (hs : t <:+ t') : Valid t' i := by
  refine h.imp_right fun h => ⟨h.1, h.2.trans_le ?_⟩
  exact_mod_cast hs.length_le

lemma valid_end (t : List (Entry D)) : Valid t parseEnd := .inl rfl

lemma WellFormed.of_suffix (h : WellFormed t') (hs : t <:+ t') : WellFormed t := by
  induction t' with
  | nil =>
    rw [List.suffix_nil.mp hs]
    trivial
  | cons entry t' ih =>
    obtain rfl | hs := List.suffix_cons_iff.mp hs
    · exact h
    · exact ih h.2.2 hs

lemma Within.refl (e : Expression D) : Within w p e e :=
  ⟨List.suffix_rfl, List.suffix_rfl, fun _ _ h => h⟩

lemma Within.trans (h : Within w p e e') (h' : Within w p e' e'') : Within w p e e'' :=
  ⟨h'.rest.trans h.rest, h.suffix.trans h'.suffix,
    fun hw hp ht => h'.wellFormed hw hp (h.wellFormed hw hp ht)⟩

lemma Within.weaken {p' : Prop} (h : Within w p e e') (hp : p' → p) : Within w p' e e' :=
  ⟨h.rest, h.suffix, fun hw hp' => h.wellFormed hw (hp hp')⟩

lemma Within.length_le (h : Within w p e e') : e'.rest.length ≤ e.rest.length :=
  h.rest.length_le

lemma Reads.within (h : Reads e e') : Within w p e e' := by
  refine ⟨h.rest, h.suffix, fun _ _ ht => ?_⟩
  rwa [h.operations]

lemma within_read (n : ℕ) : Within w p e (e.read n) := (reads_read e n).within

lemma within_skip : Within w p e e.skip := (reads_skip e).within

lemma Sane.error (h : Within w p e e') : Sane w p e (parseError, e') :=
  ⟨h, fun _ hne => absurd rfl hne⟩

lemma Sane.ended (h : Within w p e e') : Sane w p e (parseEnd, e') :=
  ⟨h, fun _ _ => valid_end _⟩

lemma Sane.length_le (h : Sane w p e (i, e')) : e'.rest.length ≤ e.rest.length :=
  h.toWithin.length_le

/-- A new operation with operands. -/
lemma Sane.push {opr : OperationType D} (h : Within w p e e')
    (hi : w → p → Valid e'.operations i) (hj : w → p → Valid e'.operations j) :
    Sane w p e (e'.push opr i j) := by
  refine ⟨⟨h.rest, h.suffix.trans (List.suffix_cons _ _), fun hw hp ht => ?_⟩, fun _ _ => ?_⟩
  · exact ⟨hi hw hp, hj hw hp, h.wellFormed hw hp ht⟩
  · refine .inr ⟨?_, ?_⟩
    · simp [Expression.push]
    · simp [Expression.push]

lemma push_ne_error (e : Expression D) (opr : OperationType D) (i j : ℤ) :
    (e.push opr i j).1 ≠ parseError := by
  simp only [Expression.push, parseError]
  omega

lemma Sane.wrapSelfDescendant (h : Within w p e e') (hi : w → p → Valid e'.operations i) :
    Sane w p e (e'.wrapSelfDescendant i) := by
  have htest : Sane w p e (e'.push (.nodeTest Expression.nodeTestNode .descendantOrSelf)
      parseEnd parseEnd) := .push h (fun _ _ => valid_end _) fun _ _ => valid_end _
  exact .push htest.toWithin (fun _ hp => htest.valid hp (push_ne_error _ _ _ _))
    fun hw hp => (hi hw hp).mono (List.suffix_cons _ _)

end Sanity

section Tokens

variable {D : Type*} {e e' : Expression D}

/-- The name or the literal that begins here does not fit in its buffer. -/
def Expression.TooLong (e : Expression D) : Prop :=
  compileNcname e = none ∨ compileLiteral e = none

/-- The axis or the node test of the step that begins here has such a name or literal. -/
def Expression.StepTooLong (e : Expression D) : Prop :=
  compileAxis e = none ∨
    ∃ axis e', compileAxis e = some (some axis, e') ∧ compileNodeTest e' = none

variable [Add D] [Mul D] [Div D] [NatCast D]

lemma numberLoop_rest (s : Text) (res dec : D) (dot : Bool) :
    (numberLoop s res dec dot).2 <:+ s := by
  induction s generalizing res dec dot with
  | nil => exact List.suffix_rfl
  | cons c s ih =>
    unfold numberLoop
    split
    · split
      · exact (ih _ _ _).trans (List.suffix_cons _ _)
      · exact (ih _ _ _).trans (List.suffix_cons _ _)
    · split
      · split
        · exact List.suffix_rfl
        · exact (ih _ _ _).trans (List.suffix_cons _ _)
      · exact List.suffix_rfl

end Tokens

section Steps

variable {D : Type*}
variable {call : Call}

/-- The order of the calls on the same text. -/
def rank : Call → ℕ
  | .predicate => 0
  | .relativeLocation => 1
  | .union => 2
  | .orexpr => 3
  | .argument => 4
  | _ => 0

/-- A call on less than `n` characters, or on as many with a lower rank than `k`. -/
def Smaller (n k : ℕ) (q : Call × Expression D) : Prop :=
  q.2.rest.length < n ∨ q.2.rest.length ≤ n ∧ rank q.1 < k

/-- With these answers a function makes smaller calls and goes on with what they leave. It gives
nothing when a call is not answered or a token is too long, as `long` says. -/
structure Steps (c : Calls D) (w long p : Prop) (n k : ℕ) (e : Expression D)
    (f : Calls D → Option (ℤ × Expression D)) : Prop where
  failed : f c = none → (∃ call e, c call e = none) ∨ long
  result : ∀ r, f c = some r → Sane w p e r ∧ ∃ calls, Run f c calls r ∧ ∀ q ∈ calls,
    Smaller n k q ∧ q.2.rest <:+ e.rest ∧
      ∀ x, c q.1 q.2 = some x → x.2.operations <:+ r.2.operations

variable {c : Calls D} {w long long' p : Prop} {n n' k k' : ℕ} {e e' : Expression D} {r : ℤ × Expression D}
  {f : Calls D → Option (ℤ × Expression D)}

lemma steps_const (h : Sane w p e r) : Steps c w long p n k e fun _ => some r := by
  refine ⟨fun hnone => absurd hnone (by simp), fun r' hr => ?_⟩
  obtain rfl := Option.some.inj hr
  exact ⟨h, [], .const, fun q hq => by simp at hq⟩

lemma Steps.of_within (h : Steps c w long p n k e' f) (hw : Within w p e e') :
    Steps c w long p n k e f := by
  refine ⟨h.failed, fun r hr => ?_⟩
  obtain ⟨hsane, calls, hrun, hcalls⟩ := h.result r hr
  refine ⟨⟨hw.trans hsane.toWithin, hsane.valid⟩, calls, hrun, fun q hq => ?_⟩
  obtain ⟨hsmaller, hrest, hsuffix⟩ := hcalls q hq
  exact ⟨hsmaller, hrest.trans hw.rest, hsuffix⟩

lemma Steps.weaken (h : Steps c w long True n k e f) : Steps c w long p n k e f := by
  refine ⟨h.failed, fun r hr => ?_⟩
  obtain ⟨hsane, hcalls⟩ := h.result r hr
  exact ⟨⟨hsane.toWithin.weaken fun _ => trivial, fun _ => hsane.valid trivial⟩, hcalls⟩

lemma Steps.mono (h : Steps c w long p n' k' e f) (hn : n' < n) : Steps c w long p n k e f := by
  refine ⟨h.failed, fun r hr => ?_⟩
  obtain ⟨hsane, calls, hrun, hcalls⟩ := h.result r hr
  refine ⟨hsane, calls, hrun, fun q hq => ⟨.inl ?_, (hcalls q hq).2⟩⟩
  obtain hlt | ⟨hle, -⟩ := (hcalls q hq).1
  · exact hlt.trans hn
  · exact hle.trans_lt hn

lemma steps_call (hc : ∀ i s r, c i s = some r → Fits w i s r) (hsmaller : Smaller n k (call, e))
    (hoperand : p → call.operand e.operations) :
    Steps c w long p n k e fun c => c call e := by
  refine ⟨fun hnone => .inl ⟨call, e, hnone⟩, fun r hr => ?_⟩
  have hr' : c call e = some r := hr
  have hfits := (hc call e r hr').sane
  refine ⟨⟨hfits.toWithin.weaken hoperand, fun hp => hfits.valid (hoperand hp)⟩, [(call, e)],
    .call hr', fun q hq => ?_⟩
  obtain rfl := List.mem_singleton.mp hq
  refine ⟨hsmaller, List.suffix_rfl, fun x hx => ?_⟩
  obtain rfl := Option.some.inj (hr'.symm.trans hx)
  exact List.suffix_rfl

/-- One function behind the other. -/
lemma Steps.bind {g : ℤ × Expression D → Calls D → Option (ℤ × Expression D)}
    (h : Steps c w long True n k e f)
    (hg : ∀ op e', f c = some (op, e') → Sane w True e (op, e') → Steps c w long p n k e' (g (op, e'))) :
    Steps c w long p n k e fun c => f c >>= fun x => g x c := by
  refine ⟨fun hnone => ?_, fun r hr => ?_⟩
  · obtain hnone | ⟨x, hx, hnone⟩ := none_or_of_bind hnone
    · exact h.failed hnone
    · have hsane := (h.result x hx).1
      exact (hg x.1 x.2 hx hsane).failed hnone
  · obtain ⟨x, hx, hr⟩ := Option.bind_eq_some_iff.mp hr
    obtain ⟨hsane, calls, hrun, hcalls⟩ := h.result x hx
    obtain ⟨hsane', calls', hrun', hcalls'⟩ := (hg x.1 x.2 hx hsane).result r hr
    refine ⟨⟨(hsane.toWithin.weaken fun _ => trivial).trans hsane'.toWithin, hsane'.valid⟩,
      calls ++ calls', hrun.bind hrun', fun q hq => ?_⟩
    obtain hq | hq := List.mem_append.mp hq
    · obtain ⟨hsmaller, hrest, hsuffix⟩ := hcalls q hq
      exact ⟨hsmaller, hrest, fun y hy => (hsuffix y hy).trans hsane'.suffix⟩
    · obtain ⟨hsmaller, hrest, hsuffix⟩ := hcalls' q hq
      exact ⟨hsmaller, hrest.trans hsane.rest, hsuffix⟩

/-- A function that reads a token first. -/
lemma steps_token {X : Type} {token : Option (X × Expression D)}
    {g : X × Expression D → Calls D → Option (ℤ × Expression D)}
    (hlong : token = none → long)
    (hg : ∀ x e', token = some (x, e') → Steps c w long p n k e (g (x, e'))) :
    Steps c w long p n k e fun c => token >>= fun x => g x c := by
  cases htoken : token with
  | none => exact ⟨fun _ => .inr (hlong htoken), fun r hr => by cases hr⟩
  | some x => exact hg x.1 x.2 htoken

lemma steps_ite {cond : Prop} [Decidable cond] {g : Calls D → Option (ℤ × Expression D)}
    (hf : cond → Steps c w long p n k e f) (hg : ¬ cond → Steps c w long p n k e g) :
    Steps c w long p n k e fun c => if cond then f c else g c := by
  by_cases hcond : cond
  · simp only [hcond, if_true]
    exact hf hcond
  · simp only [hcond, if_false]
    exact hg hcond

/-- A call on less than the bound. -/
lemma steps_below (hc : ∀ i s r, c i s = some r → Fits w i s r) (hn : e.rest.length < n)
    (hoperand : call.operand e.operations) :
    Steps c w long p n k e fun c => c call e :=
  steps_call hc (.inl hn) fun _ => hoperand

/-- A call of a lower rank where the function stands. -/
lemma steps_rank (hc : ∀ i s r, c i s = some r → Fits w i s r) (hn : e.rest.length ≤ n)
    (hrank : rank call < k) (hoperand : call.operand e.operations) :
    Steps c w long p n k e fun c => c call e :=
  steps_call hc (.inr ⟨hn, hrank⟩) fun _ => hoperand

lemma length_skip : e.skip.rest.length ≤ e.rest.length :=
  (List.dropWhile_suffix _).length_le

lemma length_read_lt {d : Char} (h : e.current = some d) {m : ℕ} (hm : 0 < m) :
    (e.read m).rest.length < e.rest.length := by
  obtain ⟨s, hs⟩ := exists_of_current h
  rw [hs]
  simp only [Expression.read, List.length_drop, List.length_cons]
  omega

end Steps

section Functions

variable {D : Type*} {c : Calls D} {w long p : Prop} {n k : ℕ} {e : Expression D}

variable (hc : ∀ i s r, c i s = some r → Fits w i s r)

include hc

section

variable (hn : e.rest.length ≤ n)

include hn

lemma compilePredicate_steps : Steps c w long True n k e fun c => compilePredicate c e := by
  unfold compilePredicate
  refine Steps.of_within ?_ within_skip
  refine steps_ite (fun _ => steps_const (.ended (.refl _))) fun hcurrent => ?_
  have hread := (length_read_lt (not_not.mp hcurrent) one_pos).trans_le length_skip
  refine Steps.of_within ?_ ((within_read 1).trans within_skip)
  have hskip := length_skip (e := e.skip.read 1)
  refine Steps.bind (steps_below hc (by omega) trivial) fun op1 e₁ _ hop1 => ?_
  refine steps_ite (fun _ => steps_const (.error (.refl _))) fun hne => ?_
  refine Steps.of_within ?_ within_skip
  refine steps_ite (fun _ => steps_const (.error (.refl _))) fun hcurrent' => ?_
  have hread' := (length_read_lt (not_not.mp hcurrent') one_pos).trans_le length_skip
  have hlength := hop1.length_le
  refine Steps.of_within ?_ (within_read 1)
  refine Steps.bind (steps_below hc (by omega) trivial) fun next e₂ _ hnext => ?_
  refine steps_ite (fun _ => steps_const (.error (.refl _))) fun hne' => ?_
  refine steps_const (.push (.refl _) (fun _ _ => ?_) fun _ _ => hnext.valid trivial hne')
  exact (hop1.valid trivial hne).mono hnext.suffix

lemma compileStep_steps : Steps c w e.skip.StepTooLong True n 1 e fun c => compileStep c e := by
  have hend {e : Expression D} {long : Prop} (i : ℕ) {test : NodeTest} {axis : Axis} :
      Steps c w long True n 1 e fun _ =>
        some ((e.read i).push (.nodeTest test axis) parseEnd parseEnd) :=
    steps_const (.push (within_read i) (fun _ _ => valid_end _) fun _ _ => valid_end _)
  unfold compileStep
  refine Steps.of_within ?_ within_skip
  refine steps_ite (fun _ => steps_ite (fun _ => hend 2) fun _ => hend 1) fun _ => ?_
  refine steps_token .inl fun axis e₁ haxis => ?_
  have haxis' := compileAxis_reads _ _ haxis
  refine Steps.of_within ?_ haxis'.within
  cases axis with
  | none => exact steps_const (.error (.refl _))
  | some axis =>
    refine steps_token (fun hlong => .inr ⟨axis, e₁, haxis, hlong⟩) fun test e₂ htest => ?_
    have htest' := compileNodeTest_reads _ _ htest
    refine Steps.of_within ?_ htest'.within
    cases test with
    | none => exact steps_const (.error (.refl _))
    | some test =>
      have hlength : e₂.rest.length ≤ n :=
        (haxis'.trans htest').rest.length_le.trans (length_skip.trans hn)
      refine Steps.bind (steps_rank hc hlength (by decide) trivial) fun op e₃ _ hop => ?_
      refine steps_ite (fun _ => steps_const (.error (.refl _))) fun hne => ?_
      exact steps_const (.push (.refl _) (fun _ _ => hop.valid trivial hne)
        fun _ _ => valid_end _)

lemma compileNext_steps : Steps c w long True n k e fun c => compileNext c e := by
  have hread (h : e.next 0 = some '/') {m : ℕ} (hm : 0 < m) : (e.read m).rest.length < n :=
    (length_read_lt (List.head?_eq_getElem?.trans h) hm).trans_le hn
  unfold compileNext
  refine steps_ite (fun hslashes => ?_) fun _ => steps_ite (fun hslash => ?_) fun _ => ?_
  · refine Steps.of_within ?_ (within_read 2)
    refine Steps.bind (steps_below hc (hread hslashes.1 two_pos) trivial) fun op e₁ _ hop => ?_
    refine steps_ite (fun _ => steps_const (.error (.refl _))) fun hne => ?_
    exact steps_const (.wrapSelfDescendant (.refl _) fun _ _ => hop.valid trivial hne)
  · exact Steps.of_within (steps_below hc (hread hslash one_pos) trivial) (within_read 1)
  · exact steps_const (.ended (.refl _))

lemma compileRelativeLocation_steps :
    Steps c w e.skip.StepTooLong True n 1 e fun c => compileRelativeLocation c e := by
  unfold compileRelativeLocation
  refine steps_ite (fun _ => steps_const (.ended (.refl _))) fun _ => ?_
  refine Steps.bind (compileStep_steps hc hn) fun step e₁ _ hstep => ?_
  refine steps_ite (fun _ => steps_const (.error (.refl _))) fun hne => ?_
  have hlength := length_skip.trans (hstep.length_le.trans hn)
  refine Steps.of_within ?_ within_skip
  refine Steps.bind (compileNext_steps hc hlength) fun next e₂ _ hnext => ?_
  have hvalid := (hstep.valid trivial hne).mono hnext.suffix
  refine steps_ite (fun _ => steps_const (.error (.refl _))) fun hne' => ?_
  refine steps_ite (fun _ => ?_) fun _ => ?_
  · have hresult : Sane w True e₂ (e₂.push .result parseEnd parseEnd) :=
      .push (.refl _) (fun _ _ => valid_end _) fun _ _ => valid_end _
    exact steps_const (.push hresult.toWithin (fun _ _ => hvalid.mono hresult.suffix)
      fun _ _ => hresult.valid trivial (push_ne_error _ _ _ _))
  · exact steps_const (.push (.refl _) (fun _ _ => hvalid) fun _ _ => hnext.valid trivial hne')

lemma compileLocationPath_steps : Steps c w long True n 2 e fun c => compileLocationPath c e := by
  unfold compileLocationPath
  refine steps_ite (fun _ => steps_const (.ended (.refl _))) fun _ => ?_
  refine steps_ite (fun hslash => ?_) fun _ => ?_
  · refine steps_ite (fun _ => ?_) fun _ => ?_
    · have hread := length_skip.trans_lt ((length_read_lt hslash two_pos).trans_le hn)
      refine Steps.of_within ?_ ((within_read 2).trans within_skip)
      refine Steps.bind (steps_below hc hread trivial) fun op1 e₁ _ hop1 => ?_
      refine steps_ite (fun _ => steps_const (.error (.refl _))) fun hne => ?_
      have hwrap : Sane w True e₁ (e₁.wrapSelfDescendant op1) :=
        .wrapSelfDescendant (.refl _) fun _ _ => hop1.valid trivial hne
      exact steps_const (.push hwrap.toWithin
        (fun _ _ => hwrap.valid trivial (push_ne_error _ _ _ _)) fun _ _ => valid_end _)
    · have hread := (length_read_lt hslash one_pos).trans_le hn
      refine Steps.of_within ?_ (within_read 1)
      refine Steps.bind (steps_below hc hread trivial) fun op1 e₁ _ hop1 => ?_
      refine steps_ite (fun _ => steps_const (.error (.refl _))) fun hne => ?_
      exact steps_const (.push (.refl _) (fun _ _ => hop1.valid trivial hne)
        fun _ _ => valid_end _)
  · refine Steps.bind (steps_rank hc hn (by decide) trivial) fun op1 e₁ _ hop1 => ?_
    refine steps_ite (fun _ => steps_const (.error (.refl _))) fun hne => ?_
    exact steps_const (.push (.refl _) (fun _ _ => hop1.valid trivial hne) fun _ _ => valid_end _)

end

lemma argument_ne_error {cond : Prop} [Decidable cond] {op : ℤ} {e' : Expression D}
    (h : (if cond then c .argument e else some (parseEnd, e)) = some (op, e')) :
    op ≠ parseError := by
  split at h
  · exact (hc _ _ _ h).argument rfl
  · obtain ⟨rfl, -⟩ := Prod.mk.inj (Option.some.inj h)
    decide

lemma compileFunctionCall_steps (hn : e.rest.length ≤ n) :
    Steps c w e.TooLong True n k e fun c => compileFunctionCall c e := by
  unfold compileFunctionCall
  refine steps_token .inl fun name e₁ hname => ?_
  have hname' := compileNcname_reads _ _ hname
  refine Steps.of_within ?_ hname'.within
  cases name with
  | none => exact steps_const (.error (.refl _))
  | some name =>
    refine steps_ite (fun _ => steps_const (.error (.refl _))) fun hcurrent => ?_
    have hread := length_skip.trans_lt ((length_read_lt (not_not.mp hcurrent) one_pos).trans_le
      (hname'.rest.length_le.trans hn))
    refine Steps.of_within ?_ ((within_read 1).trans within_skip)
    refine Steps.bind (steps_ite (fun _ => steps_below hc hread trivial)
      fun _ => steps_const (.ended (.refl _))) fun op1 e₂ hcall hop1 => ?_
    have hne := argument_ne_error hc hcall
    refine steps_ite (fun _ => steps_const (.error (.refl _))) fun _ => ?_
    exact Steps.of_within (steps_const (.push (.refl _) (fun _ _ => hop1.valid trivial hne)
      fun _ _ => valid_end _)) (within_read 1)

end Functions

section Paths

variable {D : Type*} [Add D] [Mul D] [Div D] [NatCast D] {c : Calls D} {w long p : Prop} {n k : ℕ}
  {e : Expression D}

variable (hc : ∀ i s r, c i s = some r → Fits w i s r)

include hc

lemma compileFilter_steps (hn : e.rest.length ≤ n) :
    Steps c w e.TooLong True n k e fun c => compileFilter c e := by
  unfold compileFilter
  refine steps_ite (fun hparen => ?_) fun _ => steps_ite (fun _ => ?_) fun _ =>
    steps_ite (fun _ => ?_) fun _ => steps_ite (fun _ => steps_const (.error (.refl _))) fun _ =>
      compileFunctionCall_steps hc hn
  · have hread := (length_read_lt hparen one_pos).trans_le hn
    refine Steps.of_within ?_ (within_read 1)
    refine Steps.bind (steps_below hc hread trivial) fun op e₁ _ hop => ?_
    refine Steps.of_within ?_ within_skip
    refine steps_ite (fun _ => steps_const ⟨within_read 1, fun _ hne => ?_⟩)
      fun _ => steps_const (.error (.refl _))
    exact hop.valid trivial hne
  · refine steps_token .inr fun lit e₁ hlit => ?_
    refine Steps.of_within ?_ (compileLiteral_reads _ _ hlit).within
    exact steps_const (.push (.refl _) (fun _ _ => valid_end _) fun _ _ => valid_end _)
  · exact steps_const (.push (Reads.within ⟨numberLoop_rest _ _ _ _, rfl⟩)
      (fun _ _ => valid_end _) fun _ _ => valid_end _)

lemma compilePathFilter_steps (hn : e.rest.length ≤ n) :
    Steps c w e.TooLong True n k e fun c => compilePathFilter c e := by
  unfold compilePathFilter
  refine Steps.bind (compileFilter_steps hc hn) fun filter e₁ _ hfilter => ?_
  refine steps_ite (fun _ => steps_const (.error (.refl _))) fun hne => ?_
  have hlength := length_skip.trans (hfilter.length_le.trans hn)
  refine Steps.of_within ?_ within_skip
  refine Steps.bind (compileNext_steps hc hlength) fun next e₂ _ hnext => ?_
  refine steps_ite (fun _ => steps_const (.error (.refl _))) fun hne' => ?_
  exact steps_const (.push (.refl _)
    (fun _ _ => (hfilter.valid trivial hne).mono hnext.suffix) fun _ _ => hnext.valid trivial hne')

lemma compilePathExpression_steps (hn : e.rest.length ≤ n) :
    Steps c w e.TooLong True n 2 e fun c => compilePathExpression c e := by
  have hpath : Steps c w e.TooLong True n 2 e fun c => compileLocationPath c e :=
    compileLocationPath_steps hc hn
  have hfilter : Steps c w e.TooLong True n 2 e fun c => compilePathFilter c e :=
    compilePathFilter_steps hc hn
  unfold compilePathExpression
  refine steps_ite (fun _ => hfilter) fun _ => steps_ite (fun _ => hfilter) fun _ => ?_
  refine steps_token .inl fun name e₁ _ => ?_
  cases name with
  | none => exact hpath
  | some name => exact steps_ite (fun _ => hfilter) fun _ => hpath

lemma compileUnion_steps (hn : e.rest.length ≤ n) :
    Steps c w e.TooLong True n 2 e fun c => compileUnion c e := by
  unfold compileUnion
  refine steps_ite (fun _ => steps_const (.ended (.refl _))) fun _ => ?_
  refine Steps.bind (compilePathExpression_steps hc hn) fun op1 e₁ _ hop1 => ?_
  refine steps_ite (fun _ => steps_const (.error (.refl _))) fun hne => ?_
  refine Steps.of_within ?_ (within_skip (e := e₁))
  refine steps_ite (fun hbar => ?_) fun _ =>
    steps_const ⟨.refl _, fun _ _ => hop1.valid trivial hne⟩
  have hread := length_skip.trans_lt ((length_read_lt hbar one_pos).trans_le
    (length_skip.trans (hop1.length_le.trans hn)))
  refine Steps.of_within ?_ ((within_read 1).trans within_skip)
  refine Steps.bind (steps_below hc hread trivial) fun op2 e₂ _ hop2 => ?_
  refine steps_ite (fun _ => steps_const (.error (.refl _))) fun hne' => ?_
  exact steps_const (.push (.refl _)
    (fun _ _ => (hop1.valid trivial hne).mono hop2.suffix) fun _ _ => hop2.valid trivial hne')

end Paths

section Operators

variable {D : Type*} {c : Calls D} {w long p : Prop} {n k : ℕ} {e : Expression D}

variable (hc : ∀ i s r, c i s = some r → Fits w i s r)

include hc

/-- The new operation of a round is the operand of the next one. -/
lemma steps_round {opr : OperationType D} {op1 op2 : ℤ} {loop : ℤ → Call} {e₁ : Expression D}
    (hloop : ∀ (t : List (Entry D)) op1, (loop op1).operand t = Valid t op1) (hn : e₁.rest.length < n)
    (hop1 : p → Valid e₁.operations op1) (hop2 : Valid e₁.operations op2) :
    Steps c w long p n k e₁ fun c => c (loop (e₁.push opr op1 op2).1) (e₁.push opr op1 op2).2.skip := by
  have hpush : Sane w p e₁ (e₁.push opr op1 op2) := .push (.refl _) (fun _ => hop1) fun _ _ => hop2
  refine Steps.of_within ?_ (hpush.toWithin.trans within_skip)
  refine steps_call hc (.inl (length_skip.trans_lt hn)) fun hp => ?_
  rw [hloop]
  exact hpush.valid hp (push_ne_error _ _ _ _)

lemma equalRest_steps (hn : e.rest.length ≤ n) (op1 : ℤ) :
    Steps c w long (Valid e.operations op1) n k e fun c => equalRest c e op1 := by
  unfold equalRest
  refine steps_ite (fun hequal => ?_) fun _ => steps_const ⟨.refl _, fun h _ => h⟩
  have hskip : e.skip.current = some '=' := by
    obtain ⟨s, hs⟩ := exists_of_current hequal
    rw [hs]
    rfl
  have hread := length_skip.trans_lt ((length_read_lt hskip one_pos).trans_le
    (length_skip.trans hn))
  have hwithin {p : Prop} : Within w p e (e.skip.read 1).skip :=
    within_skip.trans ((within_read 1).trans within_skip)
  have hunion : Steps c w long True n k e fun c => c .union (e.skip.read 1).skip :=
    Steps.of_within (steps_below hc hread trivial) hwithin
  refine Steps.bind hunion fun op2 e₁ hop2' hop2 => ?_
  refine steps_ite (fun _ => steps_const (.error (.refl _))) fun hne => ?_
  have hlength := (hc _ _ _ hop2').sane.length_le.trans_lt hread
  exact steps_round hc (fun _ _ => rfl) hlength (fun h => h.mono hop2.suffix)
    (hop2.valid trivial hne)

lemma compileEqualexpr_steps (hn : e.rest.length ≤ n) :
    Steps c w long True n 3 e fun c => compileEqualexpr c e := by
  unfold compileEqualexpr
  refine steps_ite (fun _ => steps_const (.ended (.refl _))) fun _ => ?_
  refine Steps.bind (steps_rank hc hn (by decide) trivial) fun op1 e₁ _ hop1 => ?_
  refine steps_ite (fun _ => steps_const (.error (.refl _))) fun hne => ?_
  exact steps_rank hc (hop1.length_le.trans hn) three_pos (hop1.valid trivial hne)

omit hc in
lemma andRest_steps (op1 : ℤ) :
    Steps c w long (Valid e.operations op1) n k e fun c => andRest c e op1 := by
  simp only [andRest_eq]
  exact steps_const ⟨.refl _, fun h _ => h⟩

lemma compileAndexpr_steps (hn : e.rest.length ≤ n) :
    Steps c w long True n 3 e fun c => compileAndexpr c e := by
  unfold compileAndexpr
  refine steps_ite (fun _ => steps_const (.ended (.refl _))) fun _ => ?_
  refine Steps.bind (compileEqualexpr_steps hc hn) fun op1 e₁ _ hop1 => ?_
  refine steps_ite (fun _ => steps_const (.error (.refl _))) fun hne => ?_
  have hlength := length_skip.trans (hop1.length_le.trans hn)
  exact Steps.of_within (steps_rank hc hlength three_pos (hop1.valid trivial hne)) within_skip

lemma orRest_steps (hn : e.rest.length ≤ n) (op1 : ℤ) :
    Steps c w long (Valid e.operations op1) n k e fun c => orRest c e op1 := by
  unfold orRest
  refine steps_ite (fun hor => ?_) fun _ => steps_const ⟨.refl _, fun h _ => h⟩
  have hread := length_skip.trans_lt ((length_read_lt hor.1 two_pos).trans_le hn)
  have hand : Steps c w long True n k (e.read 2).skip fun c => compileAndexpr c (e.read 2).skip :=
    (compileAndexpr_steps hc le_rfl).mono hread
  have hwithin {p : Prop} : Within w p e (e.read 2).skip := (within_read 2).trans within_skip
  refine Steps.bind (hand.of_within hwithin) fun op2 e₁ hop2' hop2 => ?_
  refine steps_ite (fun _ => steps_const (.error (.refl _))) fun hne => ?_
  have hlength := (hand.result _ hop2').1.length_le.trans_lt hread
  exact steps_round hc (fun _ _ => rfl) hlength (fun h => h.mono hop2.suffix)
    (hop2.valid trivial hne)

lemma compileOrexpr_steps (hn : e.rest.length ≤ n) :
    Steps c w long True n 3 e fun c => compileOrexpr c e := by
  unfold compileOrexpr
  refine steps_ite (fun _ => steps_const (.ended (.refl _))) fun _ => ?_
  refine Steps.bind (compileAndexpr_steps hc hn) fun op1 e₁ _ hop1 => ?_
  refine steps_ite (fun _ => steps_const (.error (.refl _))) fun hne => ?_
  have hlength := length_skip.trans (hop1.length_le.trans hn)
  exact Steps.of_within (steps_rank hc hlength three_pos (hop1.valid trivial hne)) within_skip

/-- An argument that does not stand in front of a comma; the error of its expression is added
as an operand. -/
lemma compileArgument_steps (hn : e.rest.length ≤ n) (hcomma : e.current ≠ some ',')
    (hop : w → ∀ r, c .orexpr e = some r → r.1 ≠ parseError) :
    Steps c w long True n 4 e fun c => compileArgument c e := by
  unfold compileArgument
  refine Steps.bind (steps_rank hc hn (by decide) trivial) fun op1 e₁ hop1' hop1 => ?_
  refine Steps.of_within ?_ within_skip
  refine Steps.bind (steps_ite (fun hat => ?_) fun _ => steps_const (.ended (.refl _)))
    fun op2 e₂ hcall hop2 => ?_
  · -- the comma is not the character at which the argument began
    have hsuffix : e₁.skip.rest <:+ e.rest := (List.dropWhile_suffix _).trans hop1.rest
    refine steps_below hc (lt_of_le_of_ne (hsuffix.length_le.trans hn) fun hlength => hcomma ?_)
      trivial
    have hsame : e₁.skip.rest = e.rest := hsuffix.eq_of_length_le (by omega)
    rwa [Expression.current, hsame] at hat
  · have hne := argument_ne_error hc hcall
    refine steps_const (.push (.refl _) (fun hw _ => ?_) fun _ _ => hop2.valid trivial hne)
    exact (hop1.valid trivial (hop hw _ hop1')).mono hop2.suffix

end Operators

end Axis2C.XPath
