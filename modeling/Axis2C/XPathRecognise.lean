import Axis2C.XPathAccepts

/-!
# Which expressions the compiler recognises

Of every operation that a run of the compiler adds, and of what it leaves of the text: there is
no `and`, an argument has none behind it, and the root alone stands only where the text ended.
An expression is compiled to its operations exactly when it has this form and no path in it
begins with `//`. What is left of the text behind an expression is not looked at.
-/
namespace Axis2C.XPath
open OpenRecursion

section Made

variable {D : Type*}

/-- What a run can make when the text ends behind it (`last`) or goes on. -/
def Operation.Made : Operation D → Bool → Prop
  | .parseEnd, _ => True
  | .rootNode op1, last => (op1.isEnd = true → last = true) ∧ op1.Made last
  | .contextNode op1, last => op1.Made last
  | .step _ _ pred next, last => pred.Made false ∧ next.Made last
  | .result, _ => True
  | .union op1 op2, last => op1.Made false ∧ op2.Made last
  | .equalExpr op1 op2, last => op1.Made false ∧ op2.Made last
  | .andExpr _ _, _ => False
  | .orExpr op1 op2, last => op1.Made false ∧ op2.Made last
  | .predicate _ op1 next, _ => op1.Made false ∧ next.Made false
  | .literal _ _, _ => True
  | .number _ _, _ => True
  | .pathExpression op1 op2, last => op1.Made false ∧ op2.Made last
  | .functionCall _ op1, _ => op1.Made false
  | .argument op1 op2, last => op1.Made last ∧ op2.isEnd = true

lemma Operation.Made.weaken {op : Operation D} (h : op.Made false) (b : Bool) : op.Made b := by
  cases b with
  | false => exact h
  | true =>
    induction op with
    | rootNode op1 ih => exact ⟨fun _ => rfl, ih h.2⟩
    | contextNode op1 ih => exact ih h
    | step axis test pred next ihp ihn => exact ⟨h.1, ihn h.2⟩
    | union op1 op2 ih1 ih2 | equalExpr op1 op2 ih1 ih2 | orExpr op1 op2 ih1 ih2
    | pathExpression op1 op2 ih1 ih2 => exact ⟨h.1, ih2 h.2⟩
    | argument op1 op2 ih1 ih2 => exact ⟨ih1 h.1, h.2⟩
    | _ => exact h

lemma Operation.isEnd_erase (op : Operation D) : op.erase.isEnd = op.isEnd := by
  cases op <;> rfl

lemma Operation.made_erase (op : Operation D) (last : Bool) :
    op.erase.Made last ↔ op.Made last := by
  induction op generalizing last with
  | rootNode op1 ih => simp [erase, Made, op1.isEnd_erase, ih]
  | contextNode op1 ih => exact ih last
  | step axis test pred next ihp ihn => simp [erase, Made, ihp, ihn]
  | union op1 op2 ih1 ih2 | equalExpr op1 op2 ih1 ih2 | orExpr op1 op2 ih1 ih2
  | predicate place op1 next ih1 ih2 | pathExpression op1 op2 ih1 ih2 =>
    simp [erase, Made, ih1, ih2]
  | functionCall name op1 ih => exact ih false
  | argument op1 op2 ih1 ih2 => simp [erase, Made, op2.isEnd_erase, ih1]
  | _ => exact Iff.rfl

end Made

section Holds

variable {D : Type*} {t t' : List (Entry D)} {i j : ℤ} {b b' : Bool} {e e' : Expression D}
  {r : ℤ × Expression D}

/-- What is at an index, if anything is, can have been made. -/
structure Holds (b : Bool) (t : List (Entry D)) (i : ℤ) : Prop where
  inside : i < t.length
  made : ∀ op, operationAt t i = some op → op.Made b

/-- A run adds to the table and returns something it can have made. -/
structure Keeps (b : Bool) (e : Expression D) (r : ℤ × Expression D) : Prop where
  suffix : e.operations <:+ r.2.operations
  holds : Holds b r.2.operations r.1

lemma Holds.mono (h : Holds b t i) (hs : t <:+ t') : Holds b t' i := by
  refine ⟨h.inside.trans_le (by exact_mod_cast hs.length_le), fun op hop => ?_⟩
  rw [operationAt_of_suffix hs h.inside] at hop
  exact h.made op hop

lemma Holds.weaken (h : Holds false t i) (b : Bool) : Holds b t i :=
  ⟨h.inside, fun op hop => (h.made op hop).weaken b⟩

lemma holds_error (t : List (Entry D)) : Holds b t parseError := by
  refine ⟨by simp [parseError]; omega, fun op hop => ?_⟩
  have := (operationAt_bounds hop).1
  simp [parseError] at this

lemma holds_end (t : List (Entry D)) : Holds b t parseEnd := by
  refine ⟨by simp [parseEnd]; omega, fun op hop => ?_⟩
  rw [operationAt_parseEnd] at hop
  rw [← Option.some.inj hop]
  trivial

lemma holds_push {entry : Entry D}
    (h : ∀ op, entry.operation t.length (operationAt t entry.op1) (operationAt t entry.op2) =
      some op → op.Made b) : Holds b (entry :: t) t.length := by
  refine ⟨by simp, fun op hop => ?_⟩
  rw [operationAt_cons_self] at hop
  exact h op hop

/-- An operation with one operand. -/
lemma holds_unary {opr : OperationType D} (f : ℕ → Operation D → Operation D)
    (hf : ∀ place x y, (⟨opr, i, j⟩ : Entry D).operation place x y = x.map (f place))
    (hi : Holds b' t i)
    (hmade : ∀ place a, operationAt t i = some a → a.Made b' → (f place a).Made b) :
    Holds b (⟨opr, i, j⟩ :: t) t.length := by
  refine holds_push fun op hop => ?_
  rw [hf, Option.map_eq_some_iff] at hop
  obtain ⟨a, ha, rfl⟩ := hop
  exact hmade _ a ha (hi.made a ha)

/-- An operation with two operands. -/
lemma holds_binary {opr : OperationType D} (f : ℕ → Operation D → Operation D → Operation D)
    (hf : ∀ place x y, (⟨opr, i, j⟩ : Entry D).operation place x y =
      x.bind fun a => y.map (f place a))
    {b₁ b₂ : Bool} (hi : Holds b₁ t i) (hj : Holds b₂ t j)
    (hmade : ∀ place a a', operationAt t j = some a' → a.Made b₁ → a'.Made b₂ →
      (f place a a').Made b) :
    Holds b (⟨opr, i, j⟩ :: t) t.length := by
  refine holds_push fun op hop => ?_
  rw [hf, Option.bind_eq_some_iff] at hop
  obtain ⟨a, ha, hop⟩ := hop
  obtain ⟨a', ha', rfl⟩ := Option.map_eq_some_iff.mp hop
  exact hmade _ a a' ha' (hi.made a ha) (hj.made a' ha')

lemma holds_step (hi : Holds b' t i) (hj : Holds b t j) :
    Holds b (⟨.step, i, j⟩ :: t) t.length := by
  refine holds_push fun op hop => ?_
  obtain ⟨a, ha, hop⟩ := Option.bind_eq_some_iff.mp hop
  obtain ⟨next, hnext, hop⟩ := Option.bind_eq_some_iff.mp hop
  have hmade := hi.made a ha
  unfold Operation.withNext at hop
  split at hop
  · obtain rfl := Option.some.inj hop
    exact ⟨hmade.1, hj.made next hnext⟩
  · cases hop

lemma Keeps.error (hs : e.operations <:+ e'.operations) : Keeps b e (parseError, e') :=
  ⟨hs, holds_error _⟩

lemma Keeps.parseEnd (hs : e.operations <:+ e'.operations) : Keeps b e (parseEnd, e') :=
  ⟨hs, holds_end _⟩

lemma Keeps.push {opr : OperationType D} (hs : e.operations <:+ e'.operations)
    (h : Holds b (⟨opr, i, j⟩ :: e'.operations) e'.operations.length) :
    Keeps b e (e'.push opr i j) :=
  ⟨hs.trans (List.suffix_cons _ _), h⟩

lemma Keeps.wrapSelfDescendant (hs : e.operations <:+ e'.operations)
    (h : Holds b e'.operations i) : Keeps b e (e'.wrapSelfDescendant i) := by
  have htest : Holds false
      (⟨.nodeTest Expression.nodeTestNode .descendantOrSelf, XPath.parseEnd, XPath.parseEnd⟩ ::
        e'.operations) e'.operations.length :=
    holds_unary (fun _ pred => .step .descendantOrSelf Expression.nodeTestNode pred .parseEnd)
      (fun _ _ _ => rfl) (holds_end e'.operations) fun _ a _ ha => ⟨ha, trivial⟩
  exact ⟨(hs.trans (List.suffix_cons _ _)).trans (List.suffix_cons _ _),
    holds_step htest (h.mono (List.suffix_cons _ _))⟩

lemma Keeps.trans (h : Keeps b e' r) (hs : e.operations <:+ e'.operations) : Keeps b e r :=
  ⟨hs.trans h.suffix, h.holds⟩

lemma operationAt_eq_end (h : operationAt t i = some .parseEnd) : i = parseEnd := by
  induction t with
  | nil =>
    unfold operationAt at h
    split at h
    · assumption
    · cases h
  | cons entry t ih =>
    unfold operationAt at h
    split at h
    · exfalso
      obtain ⟨opr, op1, op2⟩ := entry
      cases opr with
      | step =>
        obtain ⟨a, -, h⟩ := Option.bind_eq_some_iff.mp h
        obtain ⟨a', -, h⟩ := Option.bind_eq_some_iff.mp h
        unfold Operation.withNext at h
        split at h
        · cases h
        · cases h
      | _ => simp [Entry.operation, Option.bind_eq_some_iff] at h
    · exact ih h

end Holds

section Texts

variable {D : Type*} {e e' : Expression D} {t : List (Entry D)} {i : ℤ}

lemma Holds.skip (h : Holds e.rest.isEmpty t i) : Holds e.skip.rest.isEmpty t i := by
  cases hrest : e.rest with
  | nil => simpa [Expression.skip, hrest] using h
  | cons c s =>
    rw [hrest] at h
    exact h.weaken _

/-- A character that is there. -/
lemma isEmpty_of_current {c : Char} (h : e.current = some c) : e.rest.isEmpty = false := by
  cases hrest : e.rest with
  | nil => simp [Expression.current, hrest] at h
  | cons d s => rfl

lemma isEmpty_of_skip_current {c : Char} (h : e.skip.current = some c) :
    e.rest.isEmpty = false := by
  cases hrest : e.rest with
  | nil => simp [Expression.current, Expression.skip, hrest] at h
  | cons d s => rfl

/-- What only reads leaves an end of the text, and the table as it was. -/
structure Reads (e e' : Expression D) : Prop where
  rest : e'.rest <:+ e.rest
  operations : e'.operations = e.operations

lemma Reads.refl (e : Expression D) : Reads e e := ⟨List.suffix_rfl, rfl⟩

lemma Reads.trans {e'' : Expression D} (h : Reads e e') (h' : Reads e' e'') : Reads e e'' :=
  ⟨h'.rest.trans h.rest, h'.operations.trans h.operations⟩

lemma reads_read (e : Expression D) (n : ℕ) : Reads e (e.read n) := ⟨List.drop_suffix _ _, rfl⟩

lemma reads_skip (e : Expression D) : Reads e e.skip := ⟨List.dropWhile_suffix _, rfl⟩

lemma Reads.suffix (h : Reads e e') : e.operations <:+ e'.operations := by rw [h.operations]

lemma compileNcname_reads (e : Expression D) :
    Ensures (compileNcname e) fun x => Reads e x.2 := by
  unfold compileNcname
  refine ensures_ite (fun _ => ?_) fun _ => ensures_some (.refl e)
  exact ensures_ite (fun _ => ensures_some (reads_read e _)) fun _ => ensures_none

lemma compileLiteral_reads (e : Expression D) :
    Ensures (compileLiteral e) fun x => Reads e x.2 := by
  have hread (del : Char) : Ensures (readLiteral del e) fun x => Reads e x.2 := by
    unfold readLiteral
    refine ensures_ite (fun _ => ensures_some ?_) fun _ => ensures_none
    exact (reads_read e 1).trans (reads_read _ _)
  unfold compileLiteral
  refine ensures_ite (fun _ => hread _) fun _ => ?_
  exact ensures_ite (fun _ => hread _) fun _ => ensures_some (.refl e)

lemma compileNamedTest_reads (name : Text) (e : Expression D) :
    Ensures (compileNamedTest name e) fun x => Reads e x.2 := by
  unfold compileNamedTest
  refine ensures_ite (fun _ => ?_) fun _ => ensures_ite (fun _ => ?_) fun _ =>
    ensures_some (.refl e)
  · refine Ensures.bind (ensures_ite (fun _ => compileLiteral_reads (e.read 1)) fun _ =>
      ensures_some (Reads.refl (e.read 1))) ?_
    rintro ⟨lit, e₁⟩ hlit
    have hafter := ((reads_read e 1).trans hlit).trans (reads_skip e₁)
    dsimp only
    split
    · exact ensures_some hafter
    · exact ensures_ite (fun _ => ensures_some (hafter.trans (reads_read _ 1))) fun _ =>
        ensures_some hafter
  · refine ensures_ite (fun _ => ensures_some ((reads_read e 1).trans (reads_read _ 1))) fun _ => ?_
    refine Ensures.bind (compileNcname_reads _) ?_
    rintro ⟨localname, e₁⟩ hname
    have hname' := (reads_read e 1).trans hname
    cases localname with
    | none | some localname => exact ensures_some hname'

lemma compileNodeTest_reads (e : Expression D) :
    Ensures (compileNodeTest e) fun x => Reads e x.2 := by
  unfold compileNodeTest
  refine ensures_ite (fun _ => ensures_some (reads_read e 1)) fun _ => ?_
  refine Ensures.bind (compileNcname_reads e) ?_
  rintro ⟨name, e₁⟩ hname
  cases name with
  | none => exact ensures_some hname
  | some name => exact (compileNamedTest_reads name e₁).mono fun _ h => hname.trans h

lemma compileAxis_reads (e : Expression D) : Ensures (compileAxis e) fun x => Reads e x.2 := by
  unfold compileAxis
  refine ensures_ite (fun _ => ensures_some ((reads_read e 1).trans (reads_skip _))) fun _ => ?_
  refine Ensures.bind (compileNcname_reads e) ?_
  rintro ⟨name, e₁⟩ hname
  have hskip := hname.trans (reads_skip e₁)
  cases name with
  | none => exact ensures_some (.refl e)
  | some name =>
    refine ensures_ite (fun _ => ?_) fun _ => ensures_some (.refl e)
    split
    · exact ensures_some hskip
    · exact ensures_some ((hskip.trans (reads_read _ 2)).trans (reads_skip _))

end Texts

section Bodies

variable {D : Type*} {c : Calls D} {e e' : Expression D} {b : ℤ × Expression D → Bool}
  {x : Option (ℤ × Expression D)} {opr : OperationType D} {i j : ℤ}

/-- What is known of the result of a call. A call at a comma fails where it stands, and an
argument there is never read. -/
def Post : Call → Expression D → ℤ × Expression D → Prop
  | .orexpr, e, r => Keeps r.2.rest.isEmpty e r ∧ (e.current = some ',' → r = (parseError, e))
  | .union, e, r => Keeps r.2.rest.isEmpty e r ∧ (e.current = some ',' → r = (parseError, e))
  | .relativeLocation, e, r => Keeps r.2.rest.isEmpty e r ∧
      (e.current = some ',' → r = (parseError, e)) ∧ (r.1 = parseEnd → r.2.rest = [])
  | .argument, e, r => Keeps r.2.rest.isEmpty e r ∧ e.current ≠ some ','
  | .predicate, e, r => Keeps false e r
  | .orRest op1, e, r => Holds e.rest.isEmpty e.operations op1 → Keeps r.2.rest.isEmpty e r
  | .andRest op1, e, r => Holds e.rest.isEmpty e.operations op1 → Keeps r.2.rest.isEmpty e r
  | .equalRest op1, e, r => Holds e.rest.isEmpty e.operations op1 → Keeps r.2.rest.isEmpty e r

def Sound (c : Calls D) : Prop := ∀ call e r, c call e = some r → Post call e r

/-- What a function does behind the operations it has added. -/
lemma ensures_from (hs : e.operations <:+ e'.operations)
    (h : Ensures x fun r => Keeps (b r) e' r) : Ensures x fun r => Keeps (b r) e r :=
  h.mono fun _ hr => hr.trans hs

lemma ensures_error (hs : e.operations <:+ e'.operations) :
    Ensures (some (parseError, e')) fun r => Keeps (b r) e r :=
  ensures_some (.error hs)

lemma ensures_end (hs : e.operations <:+ e'.operations) :
    Ensures (some (parseEnd, e')) fun r => Keeps (b r) e r :=
  ensures_some (.parseEnd hs)

/-- The last thing that a function does, unless an operand was in error. -/
lemma ensures_push {cond : Prop} [Decidable cond] (hs : e.operations <:+ e'.operations)
    (h : Holds (b (e'.push opr i j)) (⟨opr, i, j⟩ :: e'.operations) e'.operations.length) :
    Ensures (if cond then some (parseError, e') else some (e'.push opr i j))
      fun r => Keeps (b r) e r :=
  ensures_ite (fun _ => ensures_error hs) fun _ => ensures_some (.push hs h)

lemma compilePredicate_keeps (hc : Sound c) : Ensures (compilePredicate c e) (Keeps false e) := by
  unfold compilePredicate
  refine ensures_ite (fun _ => ensures_end List.suffix_rfl) fun _ => ?_
  refine Ensures.bind (hc _ _) ?_
  rintro ⟨op1, e₁⟩ ⟨hk₁, -⟩
  refine ensures_ite (fun _ => ensures_error hk₁.suffix) fun _ => ?_
  refine ensures_ite (fun _ => ensures_error hk₁.suffix) fun hclose => ?_
  have hop1 := hk₁.holds
  rw [isEmpty_of_skip_current (not_not.mp hclose)] at hop1
  refine Ensures.bind (hc _ _) ?_
  rintro ⟨next, e₂⟩ (hk₂ : Keeps false _ _)
  exact ensures_push (hk₁.suffix.trans hk₂.suffix) (holds_binary .predicate (fun _ _ _ => rfl)
    (hop1.mono hk₂.suffix) hk₂.holds fun _ _ _ _ ha hb => ⟨ha, hb⟩)

lemma exists_of_current {d : Char} (h : e.current = some d) :
    ∃ s, e = ⟨d :: s, e.operations⟩ := by
  obtain ⟨rest, t⟩ := e
  cases rest with
  | nil => cases h
  | cons a s =>
    obtain rfl := Option.some.inj h
    exact ⟨s, rfl⟩

lemma compileArgument_keeps (hc : Sound c) : Ensures (compileArgument c e) fun r =>
    Keeps r.2.rest.isEmpty e r ∧ e.current ≠ some ',' := by
  unfold compileArgument
  refine Ensures.bind (hc _ _) ?_
  rintro ⟨op1, e₁⟩ ⟨hk₁, hcomma⟩
  dsimp only
  split
  · next hcurrent =>
      refine Ensures.bind (hc _ _) ?_
      rintro r ⟨-, hno⟩
      exact absurd hcurrent hno
  · next hcurrent =>
      refine ensures_some ⟨.push hk₁.suffix (holds_binary (fun _ => .argument) (fun _ _ _ => rfl)
        hk₁.holds.skip (holds_end (b := false) _) fun _ a a' ha' ha _ => ⟨ha, ?_⟩), fun hat => ?_⟩
      · rw [operationAt_parseEnd] at ha'
        rw [← Option.some.inj ha']
        rfl
      · obtain ⟨-, rfl⟩ := Prod.mk.inj (hcomma hat)
        obtain ⟨s, hs⟩ := exists_of_current hat
        rw [hs] at hcurrent
        exact hcurrent rfl

lemma compileFunctionCall_keeps (hc : Sound c) :
    Ensures (compileFunctionCall c e) (Keeps false e) := by
  unfold compileFunctionCall
  refine Ensures.bind (compileNcname_reads e) ?_
  rintro ⟨name, e₁⟩ hname
  refine ensures_from hname.suffix ?_
  cases name with
  | none => exact ensures_error List.suffix_rfl
  | some name =>
    refine ensures_ite (fun _ => ensures_error List.suffix_rfl) fun _ => ?_
    have hargument : Ensures (if (e₁.read 1).skip.current ≠ some ')' then
        c .argument (e₁.read 1).skip else some (parseEnd, (e₁.read 1).skip))
        fun r => Keeps r.2.rest.isEmpty e₁ r :=
      ensures_ite (fun _ => (Ensures.mono (hc _ _) fun _ h => h.1.trans List.suffix_rfl))
        fun _ => ensures_end List.suffix_rfl
    refine hargument.bind ?_
    rintro ⟨op1, e₂⟩ hk₂
    refine ensures_ite (fun _ => ensures_error hk₂.suffix) fun hclose => ensures_some ?_
    have hop1 := hk₂.holds
    rw [isEmpty_of_current (not_not.mp hclose)] at hop1
    exact .push hk₂.suffix
      (holds_unary (fun _ => .functionCall _) (fun _ _ _ => rfl) hop1 fun _ _ _ ha => ha)

lemma compileStep_keeps (hc : Sound c) : Ensures (compileStep c e) (Keeps false e) := by
  have htest {e' : Expression D} {axis : Axis} {test : NodeTest} {op : ℤ}
      (hop : Holds false e'.operations op) : Holds false
        (⟨.nodeTest test axis, op, parseEnd⟩ :: e'.operations) e'.operations.length :=
    holds_unary (fun _ pred => .step axis test pred .parseEnd) (fun _ _ _ => rfl) hop
      fun _ _ _ ha => ⟨ha, trivial⟩
  have hleaf (axis : Axis) (n : ℕ) : Ensures (some ((e.skip.read n).push
      (.nodeTest Expression.nodeTestNode axis) parseEnd parseEnd)) (Keeps false e) :=
    ensures_some (.push List.suffix_rfl (htest (holds_end _)))
  unfold compileStep
  refine ensures_ite (fun _ => ensures_ite (fun _ => hleaf .parent 2) fun _ => hleaf .self 1)
    fun _ => ?_
  refine Ensures.bind (compileAxis_reads e.skip) ?_
  rintro ⟨axis, e₁⟩ haxis
  refine ensures_from ((reads_skip e).trans haxis).suffix ?_
  cases axis with
  | none => exact ensures_error List.suffix_rfl
  | some axis =>
    refine Ensures.bind (compileNodeTest_reads e₁) ?_
    rintro ⟨test, e₂⟩ hnode
    refine ensures_from hnode.suffix ?_
    cases test with
    | none => exact ensures_error List.suffix_rfl
    | some test =>
      refine Ensures.bind (hc _ _) ?_
      rintro ⟨op, e₃⟩ (hk₃ : Keeps false _ _)
      exact ensures_push hk₃.suffix (htest hk₃.holds)

lemma compileNext_keeps (hc : Sound c) :
    Ensures (compileNext c e) fun r => Keeps r.2.rest.isEmpty e r := by
  unfold compileNext
  refine ensures_ite (fun _ => ?_) fun _ => ensures_ite (fun _ => ?_) fun _ =>
    ensures_end List.suffix_rfl
  · refine Ensures.bind (hc _ _) ?_
    rintro ⟨op, e₁⟩ ⟨hk₁, -⟩
    refine ensures_ite (fun _ => ensures_error hk₁.suffix) fun _ => ensures_some ?_
    exact .wrapSelfDescendant hk₁.suffix hk₁.holds
  · exact Ensures.mono (hc _ _) fun _ h => h.1.trans List.suffix_rfl

lemma compileRelativeLocation_comma (h : e.current = some ',') :
    compileRelativeLocation c e = some (parseError, e) := by
  obtain ⟨s, hs⟩ := exists_of_current h
  rw [hs]
  rfl

lemma compileRelativeLocation_keeps (hc : Sound c) : Ensures (compileRelativeLocation c e) fun r =>
    Keeps r.2.rest.isEmpty e r ∧ (r.1 = parseEnd → r.2.rest = []) := by
  have hnot {P : Prop} : parseError = parseEnd → P := fun h => absurd h (by decide)
  have hlength {P : Prop} (n : ℕ) (h : (n : ℤ) = parseEnd) : P := by
    unfold parseEnd at h
    omega
  unfold compileRelativeLocation
  refine ensures_ite (fun hrest => ensures_some ⟨.parseEnd List.suffix_rfl, fun _ => hrest⟩)
    fun _ => ?_
  refine Ensures.bind (compileStep_keeps hc) ?_
  rintro ⟨step, e₁⟩ hk₁
  refine ensures_ite (fun _ => ensures_some ⟨.error hk₁.suffix, hnot⟩) fun _ => ?_
  refine Ensures.bind (compileNext_keeps hc) ?_
  rintro ⟨next, e₂⟩ hk₂
  have hs : e.operations <:+ e₂.operations := hk₁.suffix.trans hk₂.suffix
  have hstep := hk₁.holds.mono hk₂.suffix
  refine ensures_ite (fun _ => ensures_some ⟨.error hs, hnot⟩) fun _ => ?_
  refine ensures_ite (fun _ => ensures_some ⟨?_, hlength _⟩) fun _ =>
    ensures_some ⟨.push hs (holds_step hstep hk₂.holds), hlength _⟩
  have hresult : Holds e₂.rest.isEmpty
      (⟨.result, parseEnd, parseEnd⟩ :: e₂.operations) e₂.operations.length :=
    holds_push fun op hop => by
      rw [← Option.some.inj hop]
      trivial
  exact .push (hs.trans (List.suffix_cons _ _))
    (holds_step (hstep.mono (List.suffix_cons _ _)) hresult)

lemma compileLocationPath_keeps (hc : Sound c) :
    Ensures (compileLocationPath c e) fun r => Keeps r.2.rest.isEmpty e r := by
  have hcontext {e₁ : Expression D} {op1 : ℤ} (hk : Keeps e₁.rest.isEmpty e (op1, e₁)) :
      Keeps e₁.rest.isEmpty e (e₁.push .contextNode op1 parseEnd) :=
    .push hk.suffix (holds_unary (fun _ => .contextNode) (fun _ _ _ => rfl) hk.holds
      fun _ _ _ ha => ha)
  unfold compileLocationPath
  refine ensures_ite (fun _ => ensures_end List.suffix_rfl) fun _ =>
    ensures_ite (fun _ => ensures_ite (fun _ => ?_) fun _ => ?_) fun _ => ?_
  · refine Ensures.bind (hc _ _) ?_
    rintro ⟨op1, e₁⟩ ⟨hk₁, -⟩
    refine ensures_ite (fun _ => ensures_error hk₁.suffix) fun _ => ensures_some ?_
    exact hcontext (.wrapSelfDescendant hk₁.suffix hk₁.holds)
  · refine Ensures.bind (hc _ _) ?_
    rintro ⟨op1, e₁⟩ ⟨hk₁, -, hend⟩
    refine ensures_push hk₁.suffix (holds_unary (fun _ => .rootNode) (fun _ _ _ => rfl) hk₁.holds
      fun _ a hat ha => ⟨fun hisEnd => ?_, ha⟩)
    have ha' : a = .parseEnd := by
      cases a <;> first | rfl | cases hisEnd
    rw [ha'] at hat
    exact List.isEmpty_iff.mpr (hend (operationAt_eq_end hat))
  · refine Ensures.bind (hc _ _) ?_
    rintro ⟨op1, e₁⟩ ⟨hk₁, -⟩
    exact ensures_ite (fun _ => ensures_error hk₁.suffix) fun _ => ensures_some (hcontext hk₁)

end Bodies

section Filters

variable {D : Type*} [Add D] [Mul D] [Div D] [NatCast D] {c : Calls D} {e : Expression D}
  {r : ℤ × Expression D}

lemma compileFilter_keeps (hc : Sound c) : Ensures (compileFilter c e) (Keeps false e) := by
  unfold compileFilter
  refine ensures_ite (fun _ => ?_) fun _ => ensures_ite (fun _ => ?_) fun _ =>
    ensures_ite (fun _ => ensures_some ?_) fun _ =>
      ensures_ite (fun _ => ensures_error List.suffix_rfl) fun _ => compileFunctionCall_keeps hc
  · refine Ensures.bind (hc _ _) ?_
    rintro ⟨op, e₁⟩ ⟨hk₁, -⟩
    refine ensures_ite (fun hclose => ensures_some ?_) fun _ => ensures_error hk₁.suffix
    have hop := hk₁.holds
    rw [isEmpty_of_skip_current hclose] at hop
    exact ⟨hk₁.suffix, hop⟩
  · refine Ensures.bind (compileLiteral_reads e) ?_
    rintro ⟨lit, e₁⟩ hlit
    refine ensures_some (.push hlit.suffix (holds_push fun op hop => ?_))
    rw [← Option.some.inj hop]
    trivial
  · refine .push List.suffix_rfl (holds_push fun op hop => ?_)
    rw [← Option.some.inj hop]
    trivial

lemma compilePathFilter_keeps (hc : Sound c) :
    Ensures (compilePathFilter c e) fun r => Keeps r.2.rest.isEmpty e r := by
  unfold compilePathFilter
  refine Ensures.bind (compileFilter_keeps hc) ?_
  rintro ⟨filter, e₁⟩ hk₁
  refine ensures_ite (fun _ => ensures_error hk₁.suffix) fun _ => ?_
  refine Ensures.bind (compileNext_keeps hc) ?_
  rintro ⟨next, e₂⟩ hk₂
  exact ensures_push (hk₁.suffix.trans hk₂.suffix) (holds_binary (fun _ => .pathExpression)
    (fun _ _ _ => rfl) (hk₁.holds.mono hk₂.suffix) hk₂.holds fun _ _ _ _ ha hb => ⟨ha, hb⟩)

lemma compilePathExpression_keeps (hc : Sound c) :
    Ensures (compilePathExpression c e) fun r => Keeps r.2.rest.isEmpty e r := by
  have hfilter := compilePathFilter_keeps (e := e) hc
  have hpath := compileLocationPath_keeps (e := e) hc
  unfold compilePathExpression
  refine ensures_ite (fun _ => hfilter) fun _ => ensures_ite (fun _ => hfilter) fun _ => ?_
  refine Ensures.bind (compileNcname_reads e) ?_
  rintro ⟨name, e₁⟩ -
  cases name with
  | none => exact hpath
  | some name => exact ensures_ite (fun _ => hfilter) fun _ => hpath

lemma compileUnion_comma (hc : Sound c) (h : compileUnion c e = some r)
    (hat : e.current = some ',') : r = (parseError, e) := by
  obtain ⟨s, hs⟩ := exists_of_current hat
  have hpath : compilePathExpression c e = compileLocationPath c e := by
    rw [hs]
    exact pathExpression_of_other c _ rfl (by simp [Expression.atNumber]) (by decide)
  have hrest : e.rest ≠ [] := by
    rw [hs]
    simp
  dsimp only [compileUnion] at h
  rw [if_neg hrest, hpath] at h
  obtain ⟨⟨op1, e₁⟩, h₁, hr⟩ := Option.bind_eq_some_iff.mp h
  have hslash : e.current ≠ some '/' := by
    rw [hat]
    decide
  dsimp only [compileLocationPath] at h₁
  rw [if_neg hrest, if_neg hslash] at h₁
  obtain ⟨⟨op, e₂⟩, h₂, hr₁⟩ := Option.bind_eq_some_iff.mp h₁
  obtain ⟨rfl, rfl⟩ := Prod.mk.inj ((hc _ _ _ h₂).2.1 hat)
  obtain ⟨rfl, rfl⟩ := Prod.mk.inj (Option.some.inj hr₁)
  exact (Option.some.inj hr).symm

lemma compileUnion_keeps (hc : Sound c) :
    Ensures (compileUnion c e) fun r => Keeps r.2.rest.isEmpty e r := by
  unfold compileUnion
  refine ensures_ite (fun _ => ensures_end List.suffix_rfl) fun _ => ?_
  refine Ensures.bind (compilePathExpression_keeps hc) ?_
  rintro ⟨op1, e₁⟩ hk₁
  refine ensures_ite (fun _ => ensures_error hk₁.suffix) fun _ => ?_
  refine ensures_ite (fun hbar => ?_) fun _ => ensures_some ⟨hk₁.suffix, hk₁.holds.skip⟩
  have hop1 := hk₁.holds
  rw [isEmpty_of_skip_current hbar] at hop1
  refine Ensures.bind (hc _ _) ?_
  rintro ⟨op2, e₂⟩ ⟨hk₂, -⟩
  exact ensures_push (hk₁.suffix.trans hk₂.suffix) (holds_binary (fun _ => .union)
    (fun _ _ _ => rfl) (hop1.mono hk₂.suffix) hk₂.holds fun _ _ _ _ ha hb => ⟨ha, hb⟩)

end Filters

section Operators

variable {D : Type*} {c : Calls D} {e e₁ : Expression D} {r : ℤ × Expression D}

/-- A round of a loop leaves an operand behind that can have been made, and the loop goes on
with it. -/
lemma ensures_round (hc : Sound c) {opr : OperationType D}
    (f : Operation D → Operation D → Operation D) {op1 op2 : ℤ}
    (hf : ∀ place x y, (⟨opr, op1, op2⟩ : Entry D).operation place x y =
      x.bind fun a => y.map (f a))
    (hmade : ∀ a a' b, a.Made false → a'.Made b → (f a a').Made b) {loop : ℤ → Call}
    (hloop : ∀ i (e : Expression D) r, Post (loop i) e r =
      (Holds e.rest.isEmpty e.operations i → Keeps r.2.rest.isEmpty e r))
    (hop1 : Holds false e.operations op1) (hk : Keeps e₁.rest.isEmpty e (op2, e₁)) :
    Ensures (c (loop (e₁.push opr op1 op2).1) (e₁.push opr op1 op2).2.skip)
      fun r => Keeps r.2.rest.isEmpty e r := by
  have hround : Holds e₁.rest.isEmpty (⟨opr, op1, op2⟩ :: e₁.operations) e₁.operations.length :=
    holds_binary (fun _ => f) hf (hop1.mono hk.suffix) hk.holds
      fun _ a a' _ ha ha' => hmade a a' _ ha ha'
  refine Ensures.mono (hc _ _) fun r hr => ?_
  rw [hloop] at hr
  exact (hr (Holds.skip (e := (e₁.push opr op1 op2).2) hround)).trans
    (hk.suffix.trans (List.suffix_cons _ _))

lemma equalRest_keeps (hc : Sound c) {op1 : ℤ} (hop1 : Holds e.rest.isEmpty e.operations op1) :
    Ensures (equalRest c e op1) fun r => Keeps r.2.rest.isEmpty e r := by
  unfold equalRest
  refine ensures_ite (fun hequal => ?_) fun _ => ensures_some ⟨List.suffix_rfl, hop1⟩
  rw [isEmpty_of_current hequal] at hop1
  refine Ensures.bind (hc _ _) ?_
  rintro ⟨op2, e₁⟩ ⟨hk₁, -⟩
  refine ensures_ite (fun _ => ensures_error hk₁.suffix) fun _ => ?_
  exact ensures_round hc .equalExpr (fun _ _ _ => rfl) (fun _ _ _ ha hb => ⟨ha, hb⟩)
    (fun _ _ _ => rfl) hop1 (hk₁.trans List.suffix_rfl)

lemma compileEqualexpr_keeps (hc : Sound c) :
    Ensures (compileEqualexpr c e) fun r => Keeps r.2.rest.isEmpty e r := by
  unfold compileEqualexpr
  refine ensures_ite (fun _ => ensures_end List.suffix_rfl) fun _ => ?_
  refine Ensures.bind (hc _ _) ?_
  rintro ⟨op1, e₁⟩ ⟨hk₁, -⟩
  refine ensures_ite (fun _ => ensures_error hk₁.suffix) fun _ => ?_
  exact Ensures.mono (hc _ _) fun _ h => (h hk₁.holds).trans hk₁.suffix

lemma andRest_keeps {op1 : ℤ} (hop1 : Holds e.rest.isEmpty e.operations op1) :
    Ensures (andRest c e op1) fun r => Keeps r.2.rest.isEmpty e r := by
  rw [andRest_eq]
  exact ensures_some ⟨List.suffix_rfl, hop1⟩

lemma compileAndexpr_keeps (hc : Sound c) :
    Ensures (compileAndexpr c e) fun r => Keeps r.2.rest.isEmpty e r := by
  unfold compileAndexpr
  refine ensures_ite (fun _ => ensures_end List.suffix_rfl) fun _ => ?_
  refine Ensures.bind (compileEqualexpr_keeps hc) ?_
  rintro ⟨op1, e₁⟩ hk₁
  refine ensures_ite (fun _ => ensures_error hk₁.suffix) fun _ => ?_
  exact Ensures.mono (hc _ _) fun _ h => (h hk₁.holds.skip).trans hk₁.suffix

lemma orRest_keeps (hc : Sound c) {op1 : ℤ} (hop1 : Holds e.rest.isEmpty e.operations op1) :
    Ensures (orRest c e op1) fun r => Keeps r.2.rest.isEmpty e r := by
  unfold orRest
  refine ensures_ite (fun hor => ?_) fun _ => ensures_some ⟨List.suffix_rfl, hop1⟩
  rw [isEmpty_of_current hor.1] at hop1
  refine Ensures.bind (compileAndexpr_keeps hc) ?_
  rintro ⟨op2, e₁⟩ hk₁
  refine ensures_ite (fun _ => ensures_error hk₁.suffix) fun _ => ?_
  exact ensures_round hc .orExpr (fun _ _ _ => rfl) (fun _ _ _ ha hb => ⟨ha, hb⟩)
    (fun _ _ _ => rfl) hop1 (hk₁.trans List.suffix_rfl)

lemma compileOrexpr_keeps (hc : Sound c) :
    Ensures (compileOrexpr c e) fun r => Keeps r.2.rest.isEmpty e r := by
  unfold compileOrexpr
  refine ensures_ite (fun _ => ensures_end List.suffix_rfl) fun _ => ?_
  refine Ensures.bind (compileAndexpr_keeps hc) ?_
  rintro ⟨op1, e₁⟩ hk₁
  refine ensures_ite (fun _ => ensures_error hk₁.suffix) fun _ => ?_
  exact Ensures.mono (hc _ _) fun _ h => (h hk₁.holds.skip).trans hk₁.suffix

lemma compileOrexpr_comma (hc : Sound c) (h : compileOrexpr c e = some r)
    (hat : e.current = some ',') : r = (parseError, e) := by
  have hrest : e.rest ≠ [] := by
    obtain ⟨s, hs⟩ := exists_of_current hat
    rw [hs]
    simp
  dsimp only [compileOrexpr, compileAndexpr, compileEqualexpr] at h
  rw [if_neg hrest] at h
  obtain ⟨⟨op1, e₁⟩, h₁, hr⟩ := Option.bind_eq_some_iff.mp h
  rw [if_neg hrest] at h₁
  obtain ⟨⟨op2, e₂⟩, h₂, hr₁⟩ := Option.bind_eq_some_iff.mp h₁
  rw [if_neg hrest] at h₂
  obtain ⟨⟨op3, e₃⟩, h₃, hr₂⟩ := Option.bind_eq_some_iff.mp h₂
  obtain ⟨rfl, rfl⟩ := Prod.mk.inj ((hc _ _ _ h₃).2 hat)
  obtain ⟨rfl, rfl⟩ := Prod.mk.inj (Option.some.inj hr₂)
  obtain ⟨rfl, rfl⟩ := Prod.mk.inj (Option.some.inj hr₁)
  exact (Option.some.inj hr).symm

end Operators

section Runs

variable {D : Type*} [Add D] [Mul D] [Div D] [NatCast D]

/-- What one function keeps, when its calls keep it. -/
lemma sound_compileBody {c : Calls D} (hc : Sound c) : Sound (compileBody c) := by
  intro call e r h
  cases call with
  | orexpr => exact ⟨compileOrexpr_keeps hc r h, compileOrexpr_comma hc h⟩
  | orRest op1 => exact fun hop1 => orRest_keeps hc hop1 r h
  | andRest op1 => exact fun hop1 => andRest_keeps hop1 r h
  | equalRest op1 => exact fun hop1 => equalRest_keeps hc hop1 r h
  | union => exact ⟨compileUnion_keeps hc r h, compileUnion_comma hc h⟩
  | relativeLocation =>
    obtain ⟨hk, hend⟩ := compileRelativeLocation_keeps hc r h
    refine ⟨hk, fun hat => ?_, hend⟩
    have hcomma := (compileRelativeLocation_comma hat).symm.trans h
    exact (Option.some.inj hcomma).symm
  | argument => exact compileArgument_keeps hc r h
  | predicate => exact compilePredicate_keeps hc r h

/-- What every run keeps. -/
lemma sound_iterate (fuel : ℕ) : Sound (iterate (compileBody (D := D)) fuel) :=
  iterate_keeps (fun _ hc => sound_compileBody hc) fuel

end Runs

section Expressions

variable {D : Type*} [Add D] [Mul D] [Div D] [NatCast D]

namespace Expr

lemma compilable_steps (s : Expr .steps) (b : Bool) : s.compilable b = s.compilable false := by
  cases s <;> rfl

lemma made_followedBy (s : Expr .step) (lead : Operation D → Operation D) (next : Operation D)
    (last : Bool) :
    ((s.operationFrom lead).followedBy next).Made last ↔
      (s.operationFrom lead).Made false ∧ next.Made last := by
  obtain ⟨axis, test, pred, h⟩ := s.step_operation_eq lead
  rw [h]
  simp [Operation.followedBy, Operation.Made]

/-- An expression whose operations can have been made. -/
lemma compilable_of_made {k : Rule} (x : Expr k) (last : Bool)
    (hk : k = .filter ∨ k = .arguments → last = false)
    (h : (x.operation : Operation D).Made last) : x.compilable last = true := by
  induction x generalizing last with
  | orTerm e ih | andTerm e ih | equalTerm e ih | unionTerm e ih => exact ih last (by simp) h
  | or l r ihl ihr | equal l r ihl ihr | union l r ihl ihr =>
    simp only [compilable, Bool.and_eq_true]
    exact ⟨ihl false (by simp) h.1, ihr last (by simp) h.2⟩
  | and l r ihl ihr => exact absurd h id
  | root => exact h.1 rfl
  | absolute s ih => exact (s.compilable_steps last).symm.trans (ih last (by simp) h.2)
  | descendants s ih => exact (s.compilable_steps last).symm.trans (ih last (by simp) h.2.2)
  | relative s ih => exact (s.compilable_steps last).symm.trans (ih last (by simp) h)
  | filtered f ih => exact ih false (fun _ => rfl) h.1
  | filteredSteps f s ihf ihs =>
    simp only [compilable, Bool.and_eq_true]
    exact ⟨ihf false (fun _ => rfl) h.1,
      (s.compilable_steps last).symm.trans (ihs last (by simp) h.2)⟩
  | filteredDescendants f s ihf ihs =>
    simp only [compilable, Bool.and_eq_true]
    exact ⟨ihf false (fun _ => rfl) h.1,
      (s.compilable_steps last).symm.trans (ihs last (by simp) h.2.2)⟩
  | lastStep s ih =>
    have hs := (made_followedBy s _ _ last).mp h
    exact ih false (by simp) hs.1
  | nextStep s r ihs ihr =>
    have hs := (made_followedBy s _ _ last).mp h
    simp only [compilable, Bool.and_eq_true]
    exact ⟨ihs false (by simp) hs.1,
      (r.compilable_steps last).symm.trans (ihr last (by simp) hs.2)⟩
  | nextBelow s r ihs ihr =>
    have hs := (made_followedBy s _ _ last).mp h
    simp only [compilable, Bool.and_eq_true]
    exact ⟨ihs false (by simp) hs.1,
      (r.compilable_steps last).symm.trans (ihr last (by simp) hs.2.2)⟩
  | self | parent | noPredicate | literal l | number n | noArgument => rfl
  | test axis t p ih => exact ih false (by simp) h.1
  | predicate e r ihe ihr =>
    simp only [compilable, Bool.and_eq_true]
    exact ⟨ihe false (by simp) h.1, ihr false (by simp) h.2⟩
  | paren e ih =>
    obtain rfl := hk (.inl rfl)
    exact ih false (by simp) h
  | call name args ih => exact ih false (fun _ => rfl) h
  | argument e r ihe ihr =>
    obtain rfl := hk (.inr rfl)
    simp only [compilable, Bool.and_eq_true]
    refine ⟨ihe false (by simp) h.1, ?_⟩
    cases r with
    | noArgument => rfl
    | argument e' r' => exact absurd h.2 (by simp [operationFrom, Operation.isEnd])

lemma followedBy_inj (s : Expr .step) {lead lead' : Operation D → Operation D}
    {next next' : Operation D}
    (h : (s.operationFrom lead).followedBy next = (s.operationFrom lead').followedBy next') :
    s.operationFrom lead = s.operationFrom lead' ∧ next = next' := by
  obtain ⟨axis, test, pred, hs⟩ := s.step_operation_eq lead
  obtain ⟨axis', test', pred', hs'⟩ := s.step_operation_eq lead'
  rw [hs, hs'] at h ⊢
  simp only [Operation.followedBy, Operation.step.injEq] at h
  obtain ⟨rfl, rfl, rfl, hnext⟩ := h
  exact ⟨rfl, hnext⟩

/-- The compiler differs from the grammar in the paths that begin with `//`. -/
lemma operation_eq_compiled_iff {k : Rule} (x : Expr k) :
    (x.operation : Operation D) = x.compiled ↔ x.leadFree = true := by
  constructor
  · intro h
    induction x with
    | orTerm e ih | andTerm e ih | equalTerm e ih | unionTerm e ih | paren e ih => exact ih h
    | or l r ihl ihr =>
      obtain ⟨hl, hr⟩ := Operation.orExpr.inj h
      simp only [leadFree, Bool.and_eq_true]
      exact ⟨ihl hl, ihr hr⟩
    | and l r ihl ihr =>
      obtain ⟨hl, hr⟩ := Operation.andExpr.inj h
      simp only [leadFree, Bool.and_eq_true]
      exact ⟨ihl hl, ihr hr⟩
    | equal l r ihl ihr =>
      obtain ⟨hl, hr⟩ := Operation.equalExpr.inj h
      simp only [leadFree, Bool.and_eq_true]
      exact ⟨ihl hl, ihr hr⟩
    | union l r ihl ihr =>
      obtain ⟨hl, hr⟩ := Operation.union.inj h
      simp only [leadFree, Bool.and_eq_true]
      exact ⟨ihl hl, ihr hr⟩
    | root | self | parent | noPredicate | literal l | number n | noArgument => rfl
    | absolute s ih => exact ih (Operation.rootNode.inj h)
    | descendants s ih => cases h
    | relative s ih => exact ih (Operation.contextNode.inj h)
    | filtered f ih => exact ih (Operation.pathExpression.inj h).1
    | filteredSteps f s ihf ihs =>
      obtain ⟨hf, hs⟩ := Operation.pathExpression.inj h
      simp only [leadFree, Bool.and_eq_true]
      exact ⟨ihf hf, ihs hs⟩
    | filteredDescendants f s ihf ihs =>
      obtain ⟨hf, hs⟩ := Operation.pathExpression.inj h
      simp only [leadFree, Bool.and_eq_true]
      exact ⟨ihf hf, ihs (Operation.step.inj hs).2.2.2⟩
    | lastStep s ih => exact ih (followedBy_inj s h).1
    | nextStep s r ihs ihr =>
      obtain ⟨hs, hr⟩ := followedBy_inj s h
      simp only [leadFree, Bool.and_eq_true]
      exact ⟨ihs hs, ihr hr⟩
    | nextBelow s r ihs ihr =>
      obtain ⟨hs, hr⟩ := followedBy_inj s h
      simp only [leadFree, Bool.and_eq_true]
      exact ⟨ihs hs, ihr (Operation.step.inj hr).2.2.2⟩
    | test axis t p ih => exact ih (Operation.step.inj h).2.2.1
    | predicate e r ihe ihr =>
      obtain ⟨-, he, hr⟩ := Operation.predicate.inj h
      simp only [leadFree, Bool.and_eq_true]
      exact ⟨ihe he, ihr hr⟩
    | call name args ih => exact ih (Operation.functionCall.inj h).2
    | argument e r ihe ihr =>
      obtain ⟨he, hr⟩ := Operation.argument.inj h
      simp only [leadFree, Bool.and_eq_true]
      exact ⟨ihe he, ihr hr⟩
  · intro h
    unfold operation compiled
    induction x with
    | descendants s ih => cases h
    | _ => simp_all [operationFrom, leadFree]

end Expr

end Expressions

section Results

variable (D : Type*) [Add D] [Mul D] [Div D] [NatCast D]

/-- The text of the expression is compiled, all of it, to what the expression stands for. -/
def Compiles (x : Expr .or) : Prop :=
  ∃ start table, Returns compileBody (compileExpression x.text)
      (some (start, (⟨[], table⟩ : Expression D))) ∧ Denotes table start x.operation

/-- The text is refused. -/
def Rejected (text : Text) : Prop :=
  Returns compileBody (compileExpression (D := D) text) none

/-- An expression that can be read, and something behind it that does not belong to it. -/
structure Overlong where
  expr : Expr .or
  behind : Text
  readable : expr.compilable false = true
  follows : Follows .or behind
  left : skipped behind ≠ []

variable {D}

omit [Add D] [Mul D] [Div D] [NatCast D] in
lemma compileExpression_eq {text : Text} {c : Calls D} {start : ℤ} {e : Expression D}
    (h : compileExpression text c = some (some (start, e))) :
    c .orexpr ⟨text, []⟩ = some (start, e) := by
  obtain ⟨⟨start', e'⟩, hcall, h⟩ := Option.map_eq_some_iff.mp h
  dsimp only at h
  split at h
  · cases h
  · rw [hcall, Option.some.inj h]

lemma compileExpression_read (x : Expr .or) {z : Text} (hz : Follows .or z)
    (hx : x.compilable z.isEmpty = true) :
    ∃ start table, Returns compileBody (compileExpression (x.text ++ z))
      (some (start, (⟨skipped z, table⟩ : Expression D))) ∧ Denotes table start x.compiled := by
  have hread : x.Read D := x.read
  obtain ⟨start, table, -, hd, hr⟩ :=
    yields_or (hz.noOr rfl) (hread z (hz.mono (by decide) (by decide)) hx) []
  refine ⟨start, table, hr.of_eq fun c hc => ?_, hd⟩
  simp [compileExpression, hc, hd.ne_error]

lemma compilable_of_compiles {x : Expr .or} (h : Compiles D x) : x.compilable true = true := by
  obtain ⟨start, table, hr, hd⟩ := h
  obtain ⟨fuel, hfuel⟩ := hr.exists
  have hkeeps := (sound_iterate fuel _ _ _ (compileExpression_eq hfuel)).1
  obtain ⟨op, hop, herase⟩ := denotes_iff.mp hd
  have hmade : op.Made true := hkeeps.holds.made op hop
  rw [← op.made_erase, herase] at hmade
  exact x.compilable_of_made true (by simp) hmade

variable (D) in
/-- An expression is compiled to what it stands for exactly when it has no `and` and no call
with two arguments, the root alone stands only at the end of the text, and no path begins with
`//`. Whatever is left behind an expression is accepted. -/
theorem compiles_iff :
    (∀ x : Expr .or, Compiles D x ↔ x.compilable true = true ∧ x.leadFree = true) ∧
      ∀ o : Overlong, ¬ Rejected D (o.expr.text ++ o.behind) := by
  refine ⟨fun x => ⟨fun h => ?_, fun h => ?_⟩, fun o hrejected => ?_⟩
  · have hx := compilable_of_compiles h
    refine ⟨hx, ?_⟩
    obtain ⟨start, table, hr, hd⟩ := h
    obtain ⟨start', table', hr', hd'⟩ := compileExpression_read (D := D) x (follows_nil .or) hx
    rw [List.append_nil] at hr'
    obtain ⟨rfl, he⟩ := Prod.mk.inj (Option.some.inj (hr.unique hr'))
    obtain ⟨-, rfl⟩ := Expression.mk.inj he
    have hsame : (x.operation : Operation D) = x.compiled := Option.some.inj (hd.symm.trans hd')
    exact x.operation_eq_compiled_iff.mp hsame
  · obtain ⟨start, table, hr, hd⟩ := compileExpression_read (D := D) x (follows_nil .or) h.1
    rw [List.append_nil] at hr
    refine ⟨start, table, hr, ?_⟩
    rw [x.operation_eq_compiled_iff.mpr h.2]
    exact hd
  · have hne : o.behind.isEmpty = false := by
      cases hb : o.behind with
      | nil => exact absurd (by rw [hb]; rfl) o.left
      | cons c s => rfl
    obtain ⟨start, table, hr, -⟩ :=
      compileExpression_read (D := D) o.expr o.follows (by rw [hne]; exact o.readable)
    exact absurd (hrejected.unique hr) (by simp)

/-- The step `a` of the child axis. -/
def pathOfName (n : Name) : Expr .path :=
  .relative (.lastStep (.test .nothing (.named n) .noPredicate))

/-- `a and b` is not compiled, and `a b` is accepted. -/
theorem and_is_not_read :
    ¬ Compiles ℚ (.orTerm (.and
        (.andTerm (.equalTerm (.unionTerm
          (pathOfName ⟨['a'], rfl, List.all_eq_true.mp rfl, by decide⟩))))
        (.equalTerm (.unionTerm
          (pathOfName ⟨['b'], rfl, List.all_eq_true.mp rfl, by decide⟩))))) ∧
      ¬ Rejected ℚ ['a', ' ', 'b'] := by
  refine ⟨fun h => absurd (compilable_of_compiles h) (by decide), fun h => ?_⟩
  have hskipped : skipped [' ', 'b'] = ['b'] := rfl
  have hfollows : Follows .or [' ', 'b'] :=
    ⟨by simp [isNameChar], by simp [hskipped, Rule.tokens], fun _ => by decide⟩
  obtain ⟨start, table, hr, -⟩ := compileExpression_read (D := ℚ)
    (.orTerm (.andTerm (.equalTerm (.unionTerm
      (pathOfName ⟨['a'], rfl, List.all_eq_true.mp rfl, by decide⟩))))) hfollows rfl
  exact absurd (h.unique hr) (by simp)

end Results

end Axis2C.XPath
