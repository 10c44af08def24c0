import Axis2C.XPathGrammar

/-!
# What the compiler reads of a single token

Names, literals, numbers, axes and node tests of the grammar are read to their end, whatever
follows them as long as it does not run on. What a table denotes stays when operations are
added.
-/
namespace Axis2C.XPath

section Tables

variable {D : Type*} {t t' : List (Entry D)} {i : ℤ} {op : Operation D}

lemma operationAt_cons_self (entry : Entry D) (t : List (Entry D)) :
    operationAt (entry :: t) t.length =
      entry.operation t.length (operationAt t entry.op1) (operationAt t entry.op2) := by
  rw [operationAt, if_pos rfl]

lemma operationAt_cons_of_lt (entry : Entry D) (h : i < t.length) :
    operationAt (entry :: t) i = operationAt t i := by
  rw [operationAt, if_neg h.ne]

lemma operationAt_bounds (h : operationAt t i = some op) : -1 ≤ i ∧ i < t.length := by
  induction t with
  | nil =>
    unfold operationAt at h
    split at h
    · next hi =>
        rw [hi]
        exact ⟨le_rfl, by simp [parseEnd]⟩
    · cases h
  | cons entry t ih =>
    unfold operationAt at h
    split at h
    · next hi =>
        rw [hi]
        simp only [List.length_cons]
        omega
    · have := ih h
      simp only [List.length_cons]
      omega

lemma operationAt_of_suffix (hs : t <:+ t') (hi : i < t.length) :
    operationAt t' i = operationAt t i := by
  obtain ⟨new, rfl⟩ := hs
  induction new with
  | nil => rfl
  | cons entry new ih =>
    rw [List.cons_append, operationAt_cons_of_lt, ih]
    simp only [List.length_append]
    omega

lemma operationAt_parseEnd (t : List (Entry D)) : operationAt t parseEnd = some .parseEnd := by
  induction t with
  | nil => rfl
  | cons entry t ih =>
    rw [operationAt_cons_of_lt entry (by simp [parseEnd]; omega), ih]

lemma denotes_iff : Denotes t i op ↔ ∃ op', operationAt t i = some op' ∧ op'.erase = op :=
  Option.map_eq_some_iff

lemma Denotes.bounds (h : Denotes t i op) : -1 ≤ i ∧ i < t.length := by
  obtain ⟨op', h, -⟩ := denotes_iff.mp h
  exact operationAt_bounds h

lemma Denotes.ne_error (h : Denotes t i op) : i ≠ parseError := by
  have := h.bounds
  unfold parseError
  omega

lemma Denotes.mono (h : Denotes t i op) (hs : t <:+ t') : Denotes t' i op := by
  rw [Denotes, operationAt_of_suffix hs h.bounds.2]
  exact h

lemma denotes_parseEnd (t : List (Entry D)) : Denotes t parseEnd .parseEnd := by
  rw [Denotes, operationAt_parseEnd]
  rfl

lemma Denotes.ne_end (h : Denotes t i op) (hop : op ≠ .parseEnd) : i ≠ parseEnd := by
  rintro rfl
  rw [Denotes, operationAt_parseEnd] at h
  exact hop (Option.some.inj h).symm

/-- An operation is added with two operands that are in the table. -/
lemma denotes_push {opr : OperationType D} {j : ℤ} {a b c : Operation D} (ha : Denotes t i a)
    (hb : Denotes t j b)
    (h : ∀ a' b', a'.erase = a → b'.erase = b →
      ((⟨opr, i, j⟩ : Entry D).operation t.length (some a') (some b')).map Operation.erase =
        some c) :
    Denotes (⟨opr, i, j⟩ :: t) t.length c := by
  obtain ⟨a', ha', hea⟩ := denotes_iff.mp ha
  obtain ⟨b', hb', heb⟩ := denotes_iff.mp hb
  rw [Denotes, operationAt_cons_self, ha', hb']
  exact h a' b' hea heb

/-- A step without predicates. -/
lemma denotes_nodeTest (t : List (Entry D)) (axis : Axis) (test : NodeTest) :
    Denotes (⟨.nodeTest test axis, parseEnd, parseEnd⟩ :: t) t.length
      (.step axis test .parseEnd .parseEnd) := by
  refine denotes_push (denotes_parseEnd t) (denotes_parseEnd t) ?_
  intro a b ha hb
  simp [Entry.operation, Operation.erase, ha]

lemma erase_eq_parseEnd (h : op.erase = .parseEnd) : op = .parseEnd := by
  cases op <;> simp [Operation.erase] at h ⊢

/-- A node test and what is behind it. -/
lemma step_operation {axis : Axis} {test : NodeTest} {pred next : Operation D} (place : ℕ)
    {a b : Operation D} (ha : a.erase = .step axis test pred .parseEnd) (hb : b.erase = next) :
    ((⟨.step, 0, 0⟩ : Entry D).operation place (some a) (some b)).map Operation.erase =
      some (.step axis test pred next) := by
  cases a with
  | step axis' test' pred' next' =>
    simp only [Operation.erase, Operation.step.injEq] at ha
    obtain ⟨rfl, rfl, rfl, hnext⟩ := ha
    rw [erase_eq_parseEnd hnext, ← hb]
    rfl
  | _ => simp [Operation.erase] at ha

lemma denotes_step {j : ℤ} {axis : Axis} {test : NodeTest}
    {pred next : Operation D} (ha : Denotes t i (.step axis test pred .parseEnd))
    (hb : Denotes t j next) :
    Denotes (⟨.step, i, j⟩ :: t) t.length (.step axis test pred next) :=
  denotes_push ha hb fun _ _ => step_operation t.length

end Tables

section Spaces

variable {D : Type*} {t : List (Entry D)}

@[simp] lemma current_cons (c : Char) (s : Text) :
    (⟨c :: s, t⟩ : Expression D).current = some c :=
  rfl

@[simp] lemma next_zero (s : Text) : (⟨s, t⟩ : Expression D).next 0 = s.head? := by
  cases s with
  | nil | cons c s => rfl

@[simp] lemma next_one (c : Char) (s : Text) :
    (⟨c :: s, t⟩ : Expression D).next 1 = s.head? :=
  next_zero (t := t) s

@[simp] lemma read_one (c : Char) (s : Text) : (⟨c :: s, t⟩ : Expression D).read 1 = ⟨s, t⟩ :=
  rfl

@[simp] lemma read_two (c d : Char) (s : Text) :
    (⟨c :: d :: s, t⟩ : Expression D).read 2 = ⟨s, t⟩ :=
  rfl

def skipped (z : Text) : Text := z.dropWhile (· = ' ')

@[simp] lemma skip_mk (z : Text) (t : List (Entry D)) :
    (⟨z, t⟩ : Expression D).skip = ⟨skipped z, t⟩ :=
  rfl

@[simp] lemma skipped_nil : skipped [] = [] := rfl

@[simp] lemma skipped_space (z : Text) : skipped (' ' :: z) = skipped z := rfl

lemma skipped_cons {c : Char} (h : c ≠ ' ') (z : Text) : skipped (c :: z) = c :: z := by
  simp [skipped, h]

@[simp] lemma skipped_skipped (z : Text) : skipped (skipped z) = skipped z := by
  induction z with
  | nil => rfl
  | cons c z ih =>
    by_cases h : c = ' '
    · rw [h, skipped_space, ih]
    · rw [skipped_cons h, skipped_cons h]

end Spaces

section Follow

/-- The characters with which an expression of a rule would go on. -/
def Rule.tokens : Rule → List Char
  | .step => ['(', ':', '[']
  | .union => ['(', ':', '[', '/', '|']
  | .or | .and | .equal => ['(', ':', '[', '/', '|', '=']
  | _ => ['(', ':', '[', '/']

/-- A text behind which an expression of a rule does not go on. -/
structure Follows (k : Rule) (z : Text) : Prop where
  apart : ∀ c ∈ z.head?, isNameChar c = false
  clear : ∀ c ∈ (skipped z).head?, c ∉ k.tokens
  noOr : k = .or → ¬ ['o', 'r'] <+: skipped z

lemma follows_nil (k : Rule) : Follows k [] := by
  constructor
  · simp
  · simp
  · simp

lemma Follows.mono {k k' : Rule} {z : Text} (h : Follows k z) (hk : k'.tokens ⊆ k.tokens)
    (hor : k' ≠ .or) : Follows k' z :=
  ⟨h.apart, fun c hc hmem => h.clear c hc (hk hmem), fun hk' => absurd hk' hor⟩

end Follow

section Names

variable {D : Type*} {t : List (Entry D)} {z : Text}

lemma takeWhile_append_stop {α : Type*} {p : α → Bool} {s z : List α} (hs : ∀ a ∈ s, p a = true)
    (hz : ∀ a ∈ z.head?, p a = false) : (s ++ z).takeWhile p = s := by
  rw [List.takeWhile_append_of_pos hs]
  cases z with
  | nil => simp
  | cons a z => rw [List.takeWhile_cons_of_neg (by simp [hz a rfl]), List.append_nil]

lemma apart_cons {c : Char} (h : isNameChar c = false) (z : Text) :
    ∀ d ∈ (c :: z).head?, isNameChar d = false := by
  simpa using h

lemma compileNcname_append {s : Text} (hstart : s.head?.any isNameStart = true)
    (hs : ∀ c ∈ s, isNameChar c = true) (hshort : s.length < 255)
    (hz : ∀ c ∈ z.head?, isNameChar c = false) :
    compileNcname (⟨s ++ z, t⟩ : Expression D) = some (some s, ⟨z, t⟩) := by
  have hcurrent : (⟨s ++ z, t⟩ : Expression D).current.any isNameStart = true := by
    cases s with
    | nil => simp at hstart
    | cons c s => exact hstart
  simp only [compileNcname, hcurrent, if_true, takeWhile_append_stop hs hz, if_pos hshort]
  simp [Expression.read]

lemma compileNcname_none {c : Char} (hc : isNameStart c = false) :
    compileNcname (⟨c :: z, t⟩ : Expression D) = some (none, ⟨c :: z, t⟩) := by
  simp [compileNcname, Expression.current, hc]

lemma Name.compileNcname (n : Name) (hz : ∀ c ∈ z.head?, isNameChar c = false) :
    compileNcname (⟨n.text ++ z, t⟩ : Expression D) = some (some n.text, ⟨z, t⟩) :=
  compileNcname_append n.start n.chars n.short hz

/-- A name begins with a letter or an underscore. -/
lemma Name.cons (n : Name) : ∃ c s, n.text = c :: s ∧ isNameStart c = true := by
  have hstart := n.start
  cases h : n.text with
  | nil => simp [h] at hstart
  | cons c s => exact ⟨c, s, rfl, by simpa [h] using hstart⟩

end Names

section Literals

variable {D : Type*} {t : List (Entry D)} {z : Text}

lemma readLiteral_append {del : Char} {s : Text} (hs : ∀ c ∈ s, c ≠ del)
    (hshort : s.length < 255) :
    readLiteral del (⟨del :: s ++ del :: z, t⟩ : Expression D) = some (some s, ⟨z, t⟩) := by
  have htake : (s ++ del :: z).takeWhile (· ≠ del) = s :=
    takeWhile_append_stop (by simpa using hs) (by simp)
  simp only [readLiteral, Expression.read, List.cons_append, List.drop_succ_cons, List.drop_zero,
    htake, if_pos hshort]
  simp

lemma Literal.compileLiteral (l : Literal) :
    compileLiteral (⟨l.source ++ z, t⟩ : Expression D) = some (some l.text, ⟨z, t⟩) := by
  have hread := readLiteral_append (D := D) (z := z) (t := t) l.inside l.short
  have hsource : l.source ++ z = l.del :: l.text ++ l.del :: z := by simp [Literal.source]
  rw [hsource]
  obtain h | h := l.quote
  · rw [h] at hread ⊢
    simpa [XPath.compileLiteral, Expression.current] using hread
  · rw [h] at hread ⊢
    simpa [XPath.compileLiteral, Expression.current] using hread

end Literals

section Numbers

variable {D : Type*} [Add D] [Mul D] [Div D] [NatCast D] {t : List (Entry D)} {z : Text}

lemma numberLoop_whole {s : Text} (hs : ∀ c ∈ s, c.isDigit = true) (res dec : D) :
    numberLoop (s ++ z) res dec false =
      numberLoop z (s.foldl (fun res c => res * ((10 : ℕ) : D) + digitValue c) res) dec false := by
  induction s generalizing res with
  | nil => rfl
  | cons c s ih =>
    have hc : c.isDigit = true := hs c List.mem_cons_self
    rw [List.cons_append, numberLoop, if_pos hc, if_neg Bool.false_ne_true,
      ih (fun c hc => hs c (List.mem_cons_of_mem _ hc)), List.foldl_cons]

lemma numberLoop_fraction {s : Text} (hs : ∀ c ∈ s, c.isDigit = true) (res dec : D)
    (hz : ∀ c ∈ z.head?, isNameChar c = false) :
    numberLoop (s ++ z) res dec true =
      ((s.foldl (fun (r : D × D) c => (r.1 + r.2 * digitValue c, r.2 / ((10 : ℕ) : D)))
        (res, dec)).1, z) := by
  induction s generalizing res dec with
  | nil =>
    cases z with
    | nil => rfl
    | cons c z =>
      have hc := hz c rfl
      simp only [isNameChar, Char.isAlphanum, Bool.or_eq_false_iff, decide_eq_false_iff_not]
        at hc
      simp [numberLoop, hc]
  | cons c s ih =>
    have hc : c.isDigit = true := hs c List.mem_cons_self
    rw [List.cons_append, numberLoop, if_pos hc, if_pos rfl,
      ih (fun c hc => hs c (List.mem_cons_of_mem _ hc)), List.foldl_cons]

lemma Number.compileNumber (n : Number) (hz : ∀ c ∈ z.head?, isNameChar c = false) :
    compileNumber (⟨n.source ++ z, t⟩ : Expression D) = (n.value, ⟨z, t⟩) := by
  obtain ⟨whole, fraction, hwhole, hfraction, hbegins⟩ := n
  unfold XPath.compileNumber Number.value Number.source
  cases fraction with
  | none =>
    simp only [Option.elim_none, List.append_nil, numberLoop_whole hwhole, Option.getD_none,
      List.foldl_nil]
    cases z with
    | nil => rfl
    | cons c z =>
      have hc := hz c rfl
      simp only [isNameChar, Char.isAlphanum, Bool.or_eq_false_iff, decide_eq_false_iff_not]
        at hc
      simp [numberLoop, hc]
  | some f =>
    have hf : ∀ c ∈ f, c.isDigit = true := hfraction f rfl
    have hdot : ('.').isDigit = false := by decide
    simp only [Option.elim_some, List.append_assoc, List.cons_append, numberLoop_whole hwhole,
      Option.getD_some]
    rw [numberLoop, hdot]
    simp [numberLoop_fraction hf _ _ hz]

lemma Number.cons (n : Number) :
    ∃ c s, n.source = c :: s ∧ (c.isDigit = true ∨ c = '.' ∧ s.head?.any Char.isDigit = true) := by
  obtain ⟨whole, fraction, hwhole, hfraction, hbegins⟩ := n
  cases whole with
  | cons c whole => exact ⟨c, _, rfl, .inl (hwhole c List.mem_cons_self)⟩
  | nil =>
    obtain h | ⟨c, f, h⟩ := hbegins
    · exact absurd rfl h
    · refine ⟨'.', c :: f, by simp [Number.source, h], .inr ⟨rfl, ?_⟩⟩
      exact hfraction (c :: f) h c List.mem_cons_self

omit [Add D] [Mul D] [Div D] [NatCast D] in
lemma Number.atNumber (n : Number) (z : Text) (t : List (Entry D)) :
    (⟨n.source ++ z, t⟩ : Expression D).atNumber = true := by
  obtain ⟨c, s, hn, hc⟩ := n.cons
  rw [hn, Expression.atNumber]
  obtain hc | ⟨rfl, hs⟩ := hc
  · simp [hc]
  · cases s with
    | nil => simp at hs
    | cons d s => simpa using hs

end Numbers

section Tests

variable {D : Type*} {t : List (Entry D)} {z : Text}

/-- A text behind which a name does not go on, as a name, a qualified one, an axis or a
call. -/
structure Clear (z : Text) : Prop where
  apart : ∀ c ∈ z.head?, isNameChar c = false
  clear : ∀ c ∈ (skipped z).head?, c ≠ '(' ∧ c ≠ ':'

lemma Clear.head {z : Text} (h : Clear z) : ∀ c ∈ z.head?, c ≠ '(' ∧ c ≠ ':' := by
  cases z with
  | nil => simp
  | cons c z =>
    by_cases hc : c = ' '
    · rw [hc]
      simp
    · simpa [skipped_cons hc] using h.clear

lemma Follows.toClear {k : Rule} {z : Text} (h : Follows k z) : Clear z := by
  refine ⟨h.apart, fun c hc => ?_⟩
  have hmem := h.clear c hc
  constructor
  · rintro rfl
    exact hmem (by cases k <;> decide)
  · rintro rfl
    exact hmem (by cases k <;> decide)

lemma getAxis_axisName (axis : Axis) : getAxis (axisName axis) = some axis := by
  cases axis <;> rfl

def axisNcname (axis : Axis) : Name where
  text := axisName axis
  start := by cases axis <;> rfl
  chars := by cases axis <;> exact List.all_eq_true.mp rfl
  short := by cases axis <;> decide

lemma ne_of_isNameStart {c d : Char} (hc : isNameStart c = true) (hd : isNameStart d = false) :
    c ≠ d := by
  rintro rfl
  exact absurd hc (by simp [hd])

lemma Name.current_ne (n : Name) {d : Char} (hd : isNameStart d = false) (z : Text) :
    (⟨n.text ++ z, t⟩ : Expression D).current ≠ some d := by
  obtain ⟨c, s, hn, hc⟩ := n.cons
  rw [hn]
  simpa [Expression.current] using ne_of_isNameStart hc hd

lemma not_isDigit_of_isNameStart {c : Char} (hc : isNameStart c = true) : c.isDigit = false := by
  delta isNameStart Char.isAlpha Char.isUpper Char.isLower at hc
  simp only [Bool.or_eq_true, Bool.and_eq_true, decide_eq_true_eq, UInt32.le_iff_toNat_le,
    ge_iff_le] at hc
  obtain h | rfl := hc
  · simp only [Char.isDigit, Bool.and_eq_false_iff, decide_eq_false_iff_not,
      UInt32.le_iff_toNat_le, ge_iff_le, not_le]
    change (65 ≤ _ ∧ _ ≤ 90) ∨ (97 ≤ _ ∧ _ ≤ 122) at h
    change _ < 48 ∨ 57 < _
    omega
  · decide

lemma Name.atNumber (n : Name) (z : Text) (t : List (Entry D)) :
    (⟨n.text ++ z, t⟩ : Expression D).atNumber = false := by
  obtain ⟨c, s, hn, hc⟩ := n.cons
  rw [hn]
  simp [Expression.atNumber, not_isDigit_of_isNameStart hc,
    ne_of_isNameStart hc (show isNameStart '.' = false by decide)]

lemma Name.compileNodeTest (n : Name) (hz : ∀ c ∈ z.head?, isNameChar c = false) :
    compileNodeTest (⟨n.text ++ z, t⟩ : Expression D) = compileNamedTest n.text ⟨z, t⟩ := by
  have hstar := n.current_ne (D := D) (t := t) (d := '*') (by decide) z
  simp [XPath.compileNodeTest, hstar, n.compileNcname hz]

/-- The name of a node type in front of its parentheses. -/
lemma compileNamedTest_type {name : Text} {type : NodeTestType} (htype : nodeType name = some type)
    {lit : Option Literal} (hlit : type = .pi ∨ lit = none) :
    compileNamedTest name
        (⟨'(' :: lit.elim [] Literal.source ++ ')' :: z, t⟩ : Expression D) =
      some (some ⟨type, none, none, lit.map Literal.text⟩, ⟨z, t⟩) := by
  have hread : (if nodeType name = some .pi then
      compileLiteral (⟨lit.elim [] Literal.source ++ ')' :: z, t⟩ : Expression D)
      else some (none, ⟨lit.elim [] Literal.source ++ ')' :: z, t⟩)) =
      some (lit.map Literal.text, ⟨')' :: z, t⟩) := by
    cases lit with
    | none => simp [compileLiteral, Expression.current]
    | some l =>
      have hpi : type = .pi := hlit.resolve_right (by simp)
      rw [htype, hpi, if_pos rfl]
      exact l.compileLiteral
  simp only [compileNamedTest, Expression.current, Expression.read, List.cons_append,
    List.head?_cons, if_true, List.drop_succ_cons, List.drop_zero, hread, Option.bind_eq_bind,
    Option.bind_some, skip_mk, skipped_cons (show ')' ≠ ' ' by decide)]
  simp only [htype]

lemma Name.compileNodeTest_type (n : Name) {type : NodeTestType}
    (htype : nodeType n.text = some type) (lit : Option Literal) (hlit : type = .pi ∨ lit = none) :
    XPath.compileNodeTest
        (⟨n.text ++ '(' :: lit.elim [] Literal.source ++ ')' :: z, t⟩ : Expression D) =
      some (some ⟨type, none, none, lit.map Literal.text⟩, ⟨z, t⟩) := by
  rw [List.append_assoc]
  have hopen : ∀ d ∈ ('(' :: lit.elim [] Literal.source ++ ')' :: z).head?, isNameChar d = false :=
    apart_cons (c := '(') (by decide) _
  rw [n.compileNodeTest hopen]
  exact compileNamedTest_type htype hlit

lemma Test.compileNodeTest (test : Test) (hz : Clear z) :
    compileNodeTest (⟨test.source ++ z, t⟩ : Expression D) =
      some (some test.nodeTest, ⟨z, t⟩) := by
  have hcolon (w : Text) : ∀ d ∈ (':' :: w).head?, isNameChar d = false :=
    apart_cons (c := ':') (by decide) w
  cases test with
  | all => rfl
  | allOf p =>
    have hsource : (Test.allOf p).source ++ z = p.text ++ ':' :: '*' :: z :=
      List.append_assoc _ _ _
    rw [hsource, p.compileNodeTest (hcolon _)]
    simp [compileNamedTest, Expression.current, Expression.read, Test.nodeTest]
  | named n =>
    have hparen : (⟨z, t⟩ : Expression D).current ≠ some '(' := fun h => (hz.head _ h).1 rfl
    have hnot : (⟨z, t⟩ : Expression D).current ≠ some ':' := fun h => (hz.head _ h).2 rfl
    rw [Test.source, n.compileNodeTest hz.apart, compileNamedTest, if_neg hparen, if_neg hnot,
      Test.nodeTest]
  | qualified p n =>
    have hstar := n.current_ne (D := D) (t := t) (d := '*') (by decide) z
    have hread : (⟨':' :: (n.text ++ z), t⟩ : Expression D).read 1 = ⟨n.text ++ z, t⟩ := rfl
    have hfirst : (⟨':' :: (n.text ++ z), t⟩ : Expression D).current = some ':' := rfl
    rw [Test.source, List.append_assoc, List.cons_append, p.compileNodeTest (hcolon _),
      compileNamedTest, hfirst, hread]
    simp [hstar, n.compileNcname hz.apart, Test.nodeTest]
  | comment => exact commentName.compileNodeTest_type rfl none (.inr rfl)
  | node => exact nodeName.compileNodeTest_type rfl none (.inr rfl)
  | text => exact textName.compileNodeTest_type rfl none (.inr rfl)
  | pi lit =>
    have hsource : (Test.pi lit).source ++ z =
        piName.text ++ '(' :: lit.elim [] Literal.source ++ ')' :: z :=
      List.append_assoc _ _ _
    rw [hsource]
    exact piName.compileNodeTest_type rfl lit (.inl rfl)

/-- A name that is neither an axis nor called, with what is behind it. -/
structure Stands (n : Name) (z : Text) : Prop where
  apart : ∀ c ∈ z.head?, isNameChar c = false
  notAxis : ¬ [':', ':'] <+: skipped z
  notCalled : (skipped z).head? = some '(' → nodeType n.text ≠ none

lemma Clear.stands (hz : Clear z) (n : Name) : Stands n z := by
  refine ⟨hz.apart, ?_, ?_⟩
  · rintro ⟨w, hw⟩
    exact (hz.clear ':' (by rw [← hw]; rfl)).2 rfl
  · intro h
    exact absurd rfl (hz.clear '(' h).1

lemma stands_colon (n : Name) {c : Char} (hc : c ≠ ':') (z : Text) : Stands n (':' :: c :: z) := by
  refine ⟨apart_cons (c := ':') (by decide) _, ?_, ?_⟩
  · simpa [skipped_cons (show ':' ≠ ' ' by decide)] using Ne.symm hc
  · simp [skipped_cons (show ':' ≠ ' ' by decide)]

lemma stands_type {n : Name} (hn : nodeType n.text ≠ none) (z : Text) : Stands n ('(' :: z) := by
  refine ⟨apart_cons (c := '(') (by decide) _, ?_, fun _ => hn⟩
  simp [skipped_cons (show '(' ≠ ' ' by decide)]

lemma Test.begins (test : Test) :
    test.source = ['*'] ∨
      ∃ (n : Name) (w : Text), test.source = n.text ++ w ∧ ∀ z, Clear z → Stands n (w ++ z) := by
  cases test with
  | all => exact .inl rfl
  | allOf p => exact .inr ⟨p, [':', '*'], rfl, fun z _ => stands_colon p (by decide) z⟩
  | named n => exact .inr ⟨n, [], (List.append_nil _).symm, fun z hz => hz.stands n⟩
  | qualified p n =>
    refine .inr ⟨p, ':' :: n.text, rfl, fun z _ => ?_⟩
    obtain ⟨c, s, hn, hc⟩ := n.cons
    rw [hn]
    exact stands_colon p (ne_of_isNameStart hc (by decide)) _
  | comment => exact .inr ⟨commentName, ['(', ')'], rfl, fun z _ => stands_type (by decide) _⟩
  | node => exact .inr ⟨nodeName, ['(', ')'], rfl, fun z _ => stands_type (by decide) _⟩
  | text => exact .inr ⟨textName, ['(', ')'], rfl, fun z _ => stands_type (by decide) _⟩
  | pi lit =>
    exact .inr ⟨piName, '(' :: lit.elim [] Literal.source ++ [')'], List.append_assoc _ _ _,
      fun z _ => stands_type (by decide) _⟩

lemma Test.cons (test : Test) :
    ∃ c s, test.source = c :: s ∧ (c = '*' ∨ isNameStart c = true) := by
  obtain h | ⟨n, w, h, -⟩ := test.begins
  · exact ⟨'*', [], h, .inl rfl⟩
  · obtain ⟨c, s, hn, hc⟩ := n.cons
    exact ⟨c, s ++ w, by rw [h, hn]; rfl, .inr hc⟩

lemma Test.skipped_source (test : Test) (z : Text) :
    skipped (test.source ++ z) = test.source ++ z := by
  obtain ⟨c, s, h, hc⟩ := test.cons
  rw [h]
  refine skipped_cons ?_ _
  obtain rfl | hc := hc
  · decide
  · exact ne_of_isNameStart hc (by decide)

lemma Test.compileAxis (test : Test) (hz : Clear z) :
    XPath.compileAxis (⟨test.source ++ z, t⟩ : Expression D) =
      some (some .child, ⟨test.source ++ z, t⟩) := by
  obtain h | ⟨n, w, h, hstands⟩ := test.begins
  · rw [h]
    rfl
  · obtain ⟨hapart, haxis, -⟩ := hstands z hz
    have hat := n.current_ne (D := D) (t := t) (d := '@') (by decide) (w ++ z)
    have hnot : ¬ ((⟨skipped (w ++ z), t⟩ : Expression D).current = some ':' ∧
        (⟨skipped (w ++ z), t⟩ : Expression D).next 1 = some ':') := by
      rintro ⟨h0, h1⟩
      refine haxis ?_
      cases hs : skipped (w ++ z) with
      | nil => simp [hs, Expression.current] at h0
      | cons c s =>
        cases s with
        | nil => simp [hs, Expression.next] at h1
        | cons d s => simp_all [Expression.current, Expression.next]
    rw [h, List.append_assoc, XPath.compileAxis, if_neg hat, n.compileNcname hapart]
    exact if_neg hnot

/-- The axis of a step, in front of its node test. -/
lemma AxisSpecifier.compileAxis (axis : AxisSpecifier) (test : Test) (hz : Clear z) :
    compileAxis (⟨axis.source ++ test.source ++ z, t⟩ : Expression D) =
      some (some axis.axis, ⟨test.source ++ z, t⟩) := by
  cases axis with
  | nothing => exact test.compileAxis hz
  | «at» =>
    have hskip := test.skipped_source z
    simp [AxisSpecifier.source, XPath.compileAxis, Expression.current, List.head?_cons,
      Expression.read, skip_mk, hskip, AxisSpecifier.axis]
  | named axis =>
    have hat := (axisNcname axis).current_ne (D := D) (t := t) (d := '@') (by decide)
      (':' :: ':' :: (test.source ++ z))
    have hname := (axisNcname axis).compileNcname (D := D) (t := t)
      (z := ':' :: ':' :: (test.source ++ z)) (apart_cons (c := ':') (by decide) _)
    have hsource : (AxisSpecifier.named axis).source ++ test.source ++ z =
        (axisNcname axis).text ++ ':' :: ':' :: (test.source ++ z) := by
      simp [AxisSpecifier.source, axisNcname]
    have haxis : getAxis (axisNcname axis).text = some axis := getAxis_axisName axis
    rw [hsource, XPath.compileAxis, if_neg hat, hname]
    simp only [Option.bind_eq_bind, Option.bind_some, skip_mk,
      skipped_cons (show ':' ≠ ' ' by decide), Expression.current, Expression.next,
      Expression.read, List.head?_cons, haxis, AxisSpecifier.axis]
    simp [test.skipped_source]

end Tests

end Axis2C.XPath
