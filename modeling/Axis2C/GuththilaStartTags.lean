import Axis2C.GuththilaComments
import Axis2C.GuththilaNamespaces

/-!
# The grammar of start tags

What a start tag is in the grammar of XML, against what the parser accepts. It
goes on without a name, takes an attribute without white space in front, takes
the quote of the attribute before where there is no `=`, and takes as a name
whatever stands in front of the next space. On tags where none of that happens
it reports what the grammar says.
-/
namespace Axis2C.Guththila
open StatefulRuns

/-! ### Names -/

/-- The characters that may begin a name without colon, by XML. -/
def ncNameStartRanges : List (ℤ × ℤ) :=
  [(0x41, 0x5A), (0x5F, 0x5F), (0x61, 0x7A), (0xC0, 0xD6), (0xD8, 0xF6), (0xF8, 0x2FF),
    (0x370, 0x37D), (0x37F, 0x1FFF), (0x200C, 0x200D), (0x2070, 0x218F), (0x2C00, 0x2FEF),
    (0x3001, 0xD7FF), (0xF900, 0xFDCF), (0xFDF0, 0xFFFD), (0x10000, 0xEFFFF)]

def ncNameRanges : List (ℤ × ℤ) :=
  ncNameStartRanges ++ [(0x2D, 0x2E), (0x30, 0x39), (0xB7, 0xB7), (0x300, 0x36F), (0x203F, 0x2040)]

def inRanges (ranges : List (ℤ × ℤ)) (c : ℤ) : Bool := ranges.any fun r => r.1 ≤ c ∧ c ≤ r.2

def isNcName : List ℤ → Bool
  | [] => false
  | c :: cs => inRanges ncNameStartRanges c && cs.all (inRanges ncNameRanges)

/-- A name with at most one colon, and its parts. -/
inductive NameText : List Ch → QName → Prop
  | plain {text : List Ch} : isNcName (text.map Ch.code) = true → NameText text ⟨none, bytesOf text⟩
  | prefixed {front text : List Ch} {colon : Ch} : isNcName (front.map Ch.code) = true →
      colon.code = ch ':' → isNcName (text.map Ch.code) = true →
      NameText (front ++ colon :: text) ⟨some (bytesOf front), bytesOf text⟩

lemma inRanges_append (rs ss : List (ℤ × ℤ)) (c : ℤ) :
    inRanges (rs ++ ss) c = (inRanges rs c || inRanges ss c) := by
  simp [inRanges]

/-- The characters of a name are all in the longer table. -/
lemma isNcName_all {cs : List ℤ} (h : isNcName cs = true) :
    ∀ c ∈ cs, inRanges ncNameRanges c = true := by
  cases cs with
  | nil => simp
  | cons c cs =>
    simp only [isNcName, Bool.and_eq_true, List.all_eq_true] at h
    intro d hd
    obtain rfl | hd := List.mem_cons.mp hd
    · rw [ncNameRanges, inRanges_append, h.1]
      rfl
    · exact h.2 d hd

lemma inRanges_stop {c : ℤ} (h : inRanges ncNameRanges c = true) :
    startTagStop c = false ∧ attributeStop c = false ∧ c ≠ ch ':' := by
  refine ⟨?_, ?_, ?_⟩
  · by_contra hstop
    simp only [Bool.not_eq_false, startTagStop, isSpaceChar, decide_eq_true_eq] at hstop
    rcases hstop with (rfl | rfl | rfl | rfl) | rfl | rfl <;> revert h <;> decide
  · by_contra hstop
    simp only [Bool.not_eq_false, attributeStop, isSpaceChar, decide_eq_true_eq] at hstop
    rcases hstop with (rfl | rfl | rfl | rfl) | rfl <;> revert h <;> decide
  · rintro rfl
    revert h
    decide

lemma NameText.inside {text : List Ch} {q : QName} (h : NameText text q) :
    ∀ c ∈ text, startTagStop c.code = false ∧ attributeStop c.code = false := by
  have hpart : ∀ {cs : List Ch}, isNcName (cs.map Ch.code) = true →
      ∀ c ∈ cs, startTagStop c.code = false ∧ attributeStop c.code = false := by
    intro cs hcs c hc
    have hin := inRanges_stop (isNcName_all hcs c.code (List.mem_map_of_mem hc))
    exact ⟨hin.1, hin.2.1⟩
  cases h with
  | plain h => exact hpart h
  | @prefixed front text colon hfront hcolon htext =>
    intro c hc
    rcases List.mem_append.mp hc with hc | hc
    · exact hpart hfront c hc
    · obtain rfl | hc := List.mem_cons.mp hc
      · rw [hcolon]
        decide
      · exact hpart htext c hc

lemma isNcName_noColon {cs : List Ch} (h : isNcName (cs.map Ch.code) = true) :
    ∀ c ∈ cs, c.code ≠ ch ':' :=
  fun c hc => (inRanges_stop (isNcName_all h c.code (List.mem_map_of_mem hc))).2.2

lemma qnameLoop_noColon (pref : Option Token) (part : Token) {cs : List Ch}
    (h : ∀ c ∈ cs, c.code ≠ ch ':') : qnameLoop pref part cs = ⟨pref, part ++ bytesOf cs⟩ := by
  induction cs generalizing part with
  | nil => simp [qnameLoop, bytesOf]
  | cons c cs ih =>
    rw [qnameLoop, if_neg (h c (List.mem_cons_self ..)),
      ih _ fun c hc => h c (List.mem_cons_of_mem _ hc)]
    simp [bytesOf]

lemma qnameLoop_colon (pref : Option Token) (part : Token) {front text : List Ch} {colon : Ch}
    (hfront : ∀ c ∈ front, c.code ≠ ch ':') (hcolon : colon.code = ch ':')
    (htext : ∀ c ∈ text, c.code ≠ ch ':') :
    qnameLoop pref part (front ++ colon :: text) =
      ⟨some (part ++ bytesOf front), bytesOf text⟩ := by
  induction front generalizing part with
  | nil =>
    rw [List.nil_append, qnameLoop, if_pos hcolon, qnameLoop_noColon _ _ htext]
    simp [bytesOf]
  | cons c front ih =>
    rw [List.cons_append, qnameLoop, if_neg (hfront c (List.mem_cons_self ..)),
      ih _ fun c hc => hfront c (List.mem_cons_of_mem _ hc)]
    simp [bytesOf]

/-- The parser cuts a name where the grammar does. -/
lemma NameText.qname {text body : List Ch} {first : Ch} {q : QName} (h : NameText text q)
    (htext : text = first :: body) : Guththila.qname first body = q := by
  cases h with
  | plain h =>
    subst htext
    rw [Guththila.qname, qnameLoop_noColon _ _ fun c hc =>
      isNcName_noColon h c (List.mem_cons_of_mem _ hc)]
    simp [bytesOf]
  | @prefixed front text colon hfront hcolon htext' =>
    cases front with
    | nil => simp [isNcName] at hfront
    | cons c front =>
      rw [List.cons_append] at htext
      obtain ⟨rfl, rfl⟩ := List.cons.inj htext
      rw [Guththila.qname, qnameLoop_colon _ _
        (fun c hc => isNcName_noColon hfront c (List.mem_cons_of_mem _ hc)) hcolon
        (isNcName_noColon htext')]
      simp [bytesOf]

/-! ### Tags -/

/-- A name that begins with a character the parser takes for the first of a name. -/
def Named (text : List Ch) (q : QName) : Prop :=
  NameText text q ∧ ∃ first body, text = first :: body ∧ isValidStartingChar first.code = true

/-- The part of a tag behind its name, or behind the value of an attribute, from the first
character that is no space; the flag says whether there was white space in front. -/
inductive TagRest : Bool → List Ch → List RawAttribute → Event → Prop
  | start {spaced : Bool} {gt : Ch} : gt.code = ch '>' → TagRest spaced [gt] [] .startElement
  | empty {spaced : Bool} {slash gt : Ch} : slash.code = ch '/' → gt.code = ch '>' →
      TagRest spaced [slash, gt] [] .emptyElement
  | attr {name spaces spaces' value spaces'' rest : List Ch} {equ quote close : Ch} {q : QName}
      {attrs : List RawAttribute} {event : Event} : Named name q →
      Spaces spaces → equ.code = ch '=' → Spaces spaces' → IsQuote quote.code →
      (∀ v ∈ value, v.code ≠ quote.code) → close.code = quote.code → Spaces spaces'' →
      TagRest (spaces'' ≠ []) rest attrs event →
      TagRest true
        (name ++ (spaces ++ equ :: (spaces' ++ quote :: (value ++ close :: (spaces'' ++ rest)))))
        (⟨q, bytesOf value⟩ :: attrs) event

/-- `'<' name (S name S? '=' S? quoted)* S? '/'? '>'` -/
inductive TagText : List Ch → QName → List RawAttribute → Event → Prop
  | mk {lt : Ch} {name spaces rest : List Ch} {q : QName} {attrs : List RawAttribute}
      {event : Event} : lt.code = ch '<' → Named name q → Spaces spaces →
      TagRest (spaces ≠ []) rest attrs event →
      TagText (lt :: (name ++ (spaces ++ rest))) q attrs event

section

variable {spaced : Bool} {text : List Ch} {attrs : List RawAttribute} {event : Event}
  (h : TagRest spaced text attrs event)

include h

/-- The parser takes what the grammar calls the rest of a tag. -/
lemma TagRest.attributesText (old : ℤ) : AttributesText old text attrs event := by
  induction h generalizing old with
  | start hgt => exact .start hgt
  | empty hslash hgt => exact .empty hslash hgt
  | @attr name spaces spaces' value spaces'' rest equ quote close q attrs event hname hspaces hequ
      hspaces' hquote hvalue hclose hspaces'' hrest ih =>
      obtain ⟨hname, first, body, rfl, hvalid⟩ := hname
      have hbody : ∀ b ∈ body, attributeStop b.code = false :=
        fun b hb => (hname.inside b (List.mem_cons_of_mem _ hb)).2
      have hequText : EquText old (spaces ++ equ :: (spaces' ++ [quote])) quote.code :=
        .equ hspaces hequ hspaces' hquote
      have htext := AttributesText.attr hvalid hbody hequText hvalue hclose hspaces''
        (ih quote.code)
      rw [hname.qname rfl] at htext
      simpa using htext

lemma TagRest.head :
    ∃ x rest, text = x :: rest ∧ isSpaceChar x.code = false ∧
      (spaced = false → startTagStop x.code = true) := by
  cases h with
  | @start _ gt hgt => exact ⟨gt, [], rfl, by rw [hgt]; decide, fun _ => by rw [hgt]; decide⟩
  | @empty _ slash gt hslash hgt =>
    exact ⟨slash, [gt], rfl, by rw [hslash]; decide, fun _ => by rw [hslash]; decide⟩
  | attr hname =>
    obtain ⟨hname, first, body, rfl, hvalid⟩ := hname
    have hstop := (hname.inside first (List.mem_cons_self ..)).1
    refine ⟨first, _, rfl, ?_, fun h => by cases h⟩
    simp only [startTagStop, decide_eq_false_iff_not, not_or] at hstop
    simpa using hstop.1

end

/-- The text of a tag as the parser reads it, behind the first character of the name. -/
lemma startTagText_of_named {first : Ch} {body spaces rest : List Ch} {q : QName}
    {attrs : List RawAttribute} {event : Event} (hname : Named (first :: body) q)
    (hspaces : Spaces spaces) (hrest : TagRest (spaces ≠ []) rest attrs event) :
    StartTagText first (body ++ (spaces ++ rest)) q attrs event := by
  obtain ⟨hname, first', body', heq, hvalid⟩ := hname
  obtain ⟨rfl, rfl⟩ := List.cons.inj heq
  have hbody : ∀ b ∈ body, startTagStop b.code = false :=
    fun b hb => (hname.inside b (List.mem_cons_of_mem _ hb)).1
  obtain ⟨x, xs, hx, hstop⟩ : ∃ x xs, spaces ++ rest = x :: xs ∧ startTagStop x.code = true := by
    cases spaces with
    | nil =>
      obtain ⟨x, rest', rfl, -, hstop⟩ := hrest.head
      exact ⟨x, rest', rfl, hstop (by simp)⟩
    | cons s spaces =>
      exact ⟨s, spaces ++ rest, rfl, by simp [startTagStop, hspaces s (List.mem_cons_self ..)]⟩
  have htext := StartTagText.mk hvalid hbody hspaces (hrest.attributesText 0) hx hstop
  rwa [hname.qname rfl] at htext

/-! ### Where the parser leaves the grammar -/

instance (c : ℤ) : Decidable (IsQuote c) := inferInstanceAs (Decidable (_ ∨ _))

/-- What is said of the next character, if there is one. -/
def Follows (data : List UInt8) (p : Place) (P : ℤ → Prop) : Prop :=
  ∀ c p', ReadsChar data p c p' → P c.code

/-- An attribute name as the parser reads it: up to a space or an equals sign. -/
structure AttributeRun (data : List UInt8) (p : Place) (name : List Ch) (p' : Place) : Prop where
  reads : Reads data p name p'
  starts : ∃ first body, name = first :: body ∧ isValidStartingChar first.code = true ∧
    ∀ b ∈ body, attributeStop b.code = false

/-- A name, and none that the parser takes for a declaration without need. -/
def AttributeName (name : List Ch) : Prop :=
  ∃ q, NameText name q ∧ (q.name = xmlns → q.pref = none ∨ q.pref = some xmlns)

/-- From `p` on the parser comes to an attribute that is none. The flag says whether there is
white space in front of `p`. -/
inductive OddAttributes (data : List UInt8) : Bool → Place → Prop
  /-- No white space in front of the attribute. -/
  | glued {p p' : Place} {c : Ch} : ReadsChar data p c p' → isValidStartingChar c.code = true →
      OddAttributes data false p
  /-- What stands in front of the next space or equals sign is not the name of an attribute. -/
  | misnamed {spaced : Bool} {p p' p'' : Place} {name : List Ch} {x : Ch} :
      AttributeRun data p name p' → ReadsChar data p' x p'' → attributeStop x.code = true →
      ¬ AttributeName name → OddAttributes data spaced p
  /-- There is no equals sign behind the name. -/
  | noEqual {spaced : Bool} {p p' p'' : Place} {name spaces : List Ch} :
      AttributeRun data p name p' → Reads data p' spaces p'' → Spaces spaces → spaces ≠ [] →
      Follows data p'' (fun c => isSpaceChar c = false ∧ c ≠ ch '=') → OddAttributes data spaced p
  /-- A later attribute is odd. -/
  | next {spaced : Bool} {p p₁ p₂ p₃ p₄ : Place} {name spaces spaces' value spaces'' : List Ch}
      {equ quote close : Ch} : AttributeRun data p name p₁ →
      Reads data p₁ (spaces ++ equ :: (spaces' ++ [quote])) p₂ → Spaces spaces →
      equ.code = ch '=' → Spaces spaces' → IsQuote quote.code →
      Reads data p₂ (value ++ [close]) p₃ → (∀ v ∈ value, v.code ≠ quote.code) →
      close.code = quote.code → Reads data p₃ spaces'' p₄ → Spaces spaces'' →
      Follows data p₄ (fun c => isSpaceChar c = false) → OddAttributes data (spaces'' ≠ []) p₄ →
      OddAttributes data spaced p

/-- The tag behind the `<` at `p` has no name, or one that is none, or an odd attribute. -/
inductive OddTag (data : List UInt8) : Place → Prop
  | unnamed {p : Place} : Follows data p (fun c => isValidStartingChar c = false) → OddTag data p
  | misnamed {p p' : Place} {first x : Ch} {body : List Ch} :
      Reads data p (first :: (body ++ [x])) p' → (∀ b ∈ body, startTagStop b.code = false) →
      startTagStop x.code = true → (∀ q, ¬ Named (first :: body) q) → OddTag data p
  | attributes {p p' p'' : Place} {first : Ch} {body spaces : List Ch} :
      Reads data p (first :: body) p' → isValidStartingChar first.code = true →
      (∀ b ∈ body, startTagStop b.code = false) → Reads data p' spaces p'' → Spaces spaces →
      Follows data p'' (fun c => isSpaceChar c = false ∧ (spaces = [] → startTagStop c = true)) →
      OddAttributes data (spaces ≠ []) p'' → OddTag data p

/-! ### Runs that return -/

section Runs

variable {data : List UInt8} {F : Place → Prop} {p q : Place} {fuel : ℕ} {c d : ℤ}
variable {stop : ℤ → Bool} {m m' : Parser} {event : Event}

/-- What is known of the place of the parser. -/
def Where (data : List UInt8) (F : Place → Prop) (m : Parser) : Prop :=
  OnData data m.input ∧ F m.input.place

/-- The parser is at `p`. -/
def Standing (data : List UInt8) (p : Place) : Parser → Prop :=
  Where data fun q => q = p ∧ p.decoder.Ready

/-- The character behind `p` has been read, if there is one. -/
def Got (data : List UInt8) (p : Place) (c : ℤ) : Parser → Prop :=
  Where data fun q => c = -1 ∧ ReadsNone data p ∨ ∃ x : Ch, x.code = c ∧ ReadsChar data p x q

lemma not_readsNone {x : Ch} (h : ReadsChar data p x q) : ¬ ReadsNone data p := by
  intro hnone
  rw [ReadsNone, h.scan] at hnone
  exact h.found hnone

lemma Got.follows {P : ℤ → Prop} (h : Got data p c m) (hc : P c) : Follows data p P := by
  intro x r hx
  rcases h.2 with ⟨-, hnone⟩ | ⟨y, rfl, hy⟩
  · exact absurd hnone (not_readsNone hx)
  · obtain ⟨rfl, -⟩ := hx.unique hy
    exact hc

lemma Got.char (h : Got data p c m) (hc : c ≠ -1) :
    ∃ x r, x.code = c ∧ ReadsChar data p x r ∧ Standing data r m := by
  rcases h.2 with ⟨rfl, -⟩ | ⟨x, rfl, hx⟩
  · exact absurd rfl hc
  · exact ⟨x, _, rfl, hx, h.1, rfl, hx.ready⟩

lemma nextChar_got : Returns (Standing data p) (reading nextChar) (Got data p) := by
  rintro m ⟨hm, rfl, hready⟩
  rcases readsChar_or_none data (p := m.input.place) hm.2.2 hready with hnone | ⟨x, q, hx⟩
  · obtain ⟨i, hrun, hi⟩ := hnone.run hm
    simp only [reading, hrun]
    exact ⟨hi, .inl ⟨rfl, hnone⟩⟩
  · obtain ⟨i, hrun, hi, rfl⟩ := hx.run hm
    simp only [reading, hrun]
    exact ⟨hi, .inr ⟨x, rfl, hx⟩⟩

lemma tokenOpen_where : Returns (Where data F) tokenOpen fun _ => Where data F :=
  fun _ hm => hm

lemma tokenCloseBack_where {back : ℕ} {type : TokType} :
    Returns (Where data F) (tokenCloseBack back type) fun _ => Where data F := by
  intro m hm
  cases htok : m.state.tempTok with
  | none =>
    have hrun : tokenCloseBack back type m = .error .fault m := by
      refine (bind_ok (getState_run m)).trans ?_
      rw [htok]
      rfl
    rw [hrun]
    trivial
  | some start =>
    obtain ⟨tok, hclose⟩ := closePosition_ok hm.1 start back
    have hread : reading (closePosition start back) m =
        .ok tok ⟨{ m.input with lastStart := none }, m.state⟩ := by
      simp only [reading, hclose]
    have hrun : tokenCloseBack back type m =
        .ok () ⟨{ m.input with lastStart := none }, m.state.close tok type⟩ := by
      refine (bind_ok (getState_run m)).trans ?_
      rw [htok]
      exact bind_ok hread
    rw [hrun]
    exact hm

lemma pushElement_where : Returns (Where data F) pushElement fun _ => Where data F :=
  fun _ hm => hm

/-- A character that was read is behind the place. -/
lemma returns_of_got {α : Type} {P : Parse α} {Q : α → Parser → Prop} (hc : c ≠ -1)
    (h : ∀ x r, x.code = c → ReadsChar data p x r → Returns (Standing data r) P Q) :
    Returns (Got data p c) P Q := by
  intro m hm
  obtain ⟨x, r, hcode, hx, hat⟩ := hm.char hc
  exact h x r hcode hx m hat

lemma Spaces.cons {x : Ch} {spaces : List Ch} (hx : isSpaceChar x.code = true)
    (h : Spaces spaces) : Spaces (x :: spaces) := by
  intro d hd
  obtain rfl | hd := List.mem_cons.mp hd
  · exact hx
  · exact h d hd

/-- White space is passed over. -/
lemma skipSpaces_got : Returns (Got data p c) (skipSpaces fuel c) fun d m =>
    ∃ spaces q, Spaces spaces ∧ Reads data p spaces q ∧ isSpaceChar d = false ∧ Got data q d m := by
  induction fuel generalizing p c with
  | zero => exact Returns.throw _
  | succ fuel ih =>
    apply Returns.ite
    · intro hspace
      apply returns_of_got (by rintro rfl; cases hspace)
      rintro x r rfl hx
      refine Returns.bind nextChar_got fun d => ih.mono ?_
      rintro e m ⟨spaces, q, hspaces, hread, he, hm⟩
      exact ⟨x :: spaces, q, hspaces.cons hspace, .cons hx hread, he, hm⟩
    · intro hspace
      exact Returns.pure fun m hm => ⟨[], p, by simp [Spaces], .nil p, by simpa using hspace, hm⟩

lemma valueLoop_got {quote : ℤ} : Returns (Got data p c) (valueLoop quote fuel c) fun _ m =>
    ∃ value q, (∀ v ∈ value, v.code ≠ quote) ∧ Reads data p value q ∧ Got data q quote m := by
  induction fuel generalizing p c with
  | zero => exact Returns.throw _
  | succ fuel ih =>
    apply Returns.ite
    · rintro rfl
      exact Returns.pure fun m hm => ⟨[], p, by simp, .nil p, hm⟩
    · intro hclose
      apply Returns.ite fun _ => Returns.throw _
      intro hend
      apply returns_of_got hend
      rintro x r rfl hx
      refine Returns.bind nextChar_got fun d => ih.mono ?_
      rintro _ m ⟨value, q, hvalue, hread, hm⟩
      refine ⟨x :: value, q, ?_, .cons hx hread, hm⟩
      intro v hv
      obtain rfl | hv := List.mem_cons.mp hv
      · exact hclose
      · exact hvalue v hv

/-- The characters from `p` on up to one that ends a name. -/
def NameUpTo (data : List UInt8) (stop : ℤ → Bool) (p : Place) (c : ℤ) (m : Parser) : Prop :=
  ∃ body q, (∀ b ∈ body, stop b.code = false) ∧ Reads data p body q ∧ stop c = true ∧
    Got data q c m

lemma nameLoop_got : Returns (Got data p c) (nameLoop stop fuel c) (NameUpTo data stop p) := by
  induction fuel generalizing p c with
  | zero => exact Returns.throw _
  | succ fuel ih =>
    apply Returns.ite
    · intro hstop
      exact Returns.pure fun m hm => ⟨[], p, by simp, .nil p, hstop, hm⟩
    intro hstop
    apply Returns.ite fun _ => Returns.throw _
    intro hend
    -- the next round begins with the character behind this one
    have hround : ∀ {x r d m}, x.code = c → ReadsChar data p x r → NameUpTo data stop r d m →
        NameUpTo data stop p d m := by
      rintro x r d m rfl hx ⟨body, q, hbody, hread, hd, hm⟩
      refine ⟨x :: body, q, ?_, .cons hx hread, hd, hm⟩
      intro b hb
      obtain rfl | hb := List.mem_cons.mp hb
      · simpa using hstop
      · exact hbody b hb
    apply Returns.ite
    · intro _
      apply returns_of_got hend
      intro x r hcode hx
      exact Returns.bind nextChar_got fun d => ih.mono fun e m => hround hcode hx
    · intro _
      apply returns_of_got hend
      intro x r hcode hx
      refine Returns.bind tokenCloseBack_where fun _ => Returns.bind nextChar_got fun d => ?_
      exact Returns.bind tokenOpen_where fun _ => ih.mono fun e m => hround hcode hx

lemma readName_got {type : TokType} :
    Returns (Standing data p) (readName stop type fuel) (NameUpTo data stop p) := by
  refine Returns.bind tokenOpen_where fun _ => Returns.bind nextChar_got fun c => ?_
  refine Returns.bind nameLoop_got fun d => ?_
  rintro m ⟨body, q, hbody, hread, hd, hm⟩
  refine Returns.bind tokenCloseBack_where (fun _ => Returns.pure ?_) m hm
  exact fun m' hm' => ⟨body, q, hbody, hread, hd, hm'⟩

/-- Behind a name: an equals sign and the next character that is no space, or no equals sign. -/
lemma processEqu_got {old : ℤ} : Returns (Got data p c) (processEqu fuel c old) fun quote m =>
    (∃ spaces equ spaces' q, Spaces spaces ∧ equ.code = ch '=' ∧ Spaces spaces' ∧
      Reads data p (spaces ++ equ :: spaces') q ∧ Got data q quote m) ∨
    ∃ spaces q, Spaces spaces ∧ Reads data p spaces q ∧
      Follows data q fun c => isSpaceChar c = false ∧ c ≠ ch '=' := by
  refine Returns.bind skipSpaces_got fun d => ?_
  rintro m ⟨spaces, q, hspaces, hread, hd, hm⟩
  refine Returns.ite ?_ ?_ m hm
  · rintro rfl
    apply returns_of_got (by decide)
    intro equ r hequ hchar
    refine Returns.bind nextChar_got fun e => skipSpaces_got.mono ?_
    rintro quote m' ⟨spaces', q', hspaces', hread', -, hm'⟩
    exact .inl ⟨spaces, equ, spaces', q', hspaces, hequ, hspaces',
      reads_append.mpr ⟨q, hread, .cons hchar hread'⟩, hm'⟩
  · intro hequ
    exact Returns.pure fun m' hm' => .inr ⟨spaces, q, hspaces, hread, hm'.follows ⟨hd, hequ⟩⟩

/-- A value up to its closing quote, and the character behind it that is no space. -/
lemma readValue_got {quote : ℤ} (hquote : quote ≠ -1) :
    Returns (Standing data p) (readValue quote fuel) fun c m =>
      ∃ value close q spaces r, (∀ v ∈ value, v.code ≠ quote) ∧ close.code = quote ∧
        Reads data p (value ++ [close]) q ∧ Spaces spaces ∧ Reads data q spaces r ∧
        isSpaceChar c = false ∧ Got data r c m := by
  refine Returns.bind nextChar_got fun c => Returns.bind tokenOpen_where fun _ => ?_
  refine Returns.bind valueLoop_got fun _ => ?_
  rintro m ⟨value, q, hvalue, hread, hm⟩
  refine Returns.bind tokenCloseBack_where (fun _ => returns_of_got hquote ?_) m hm
  intro close q' hclose hchar
  refine Returns.bind nextChar_got fun d => skipSpaces_got.mono ?_
  rintro e m' ⟨spaces, r, hspaces, hread', he, hm'⟩
  exact ⟨value, close, q', spaces, r, hvalue, hclose,
    reads_append.mpr ⟨q, hread, .cons hchar (.nil _)⟩, hspaces, hread', he, hm'⟩

/-- No attribute is named `xmlns` with a prefix of its own. -/
def PlainNames (attrs : List RawAttribute) : Prop :=
  ∀ a ∈ attrs, a.qname.name = xmlns → a.isDeclaration = true

/-- The rest of a tag stands behind `p`. -/
def RestBehind (data : List UInt8) (spaced : Bool) (p : Place) : Prop :=
  ∃ text attrs event p', Reads data p text p' ∧ TagRest spaced text attrs event ∧ PlainNames attrs

/-- An attribute in front of the rest of a tag. -/
lemma RestBehind.attr {name spaces spaces' value spaces'' : List Ch} {equ quote close : Ch}
    {p₁ p₂ p₃ p₄ : Place} (hname : AttributeName name) (hrun : AttributeRun data p name p₁)
    (hspaces : Spaces spaces) (hequ : equ.code = ch '=') (hspaces' : Spaces spaces')
    (hquote : IsQuote quote.code) (hreadEqu : Reads data p₁ (spaces ++ equ :: (spaces' ++ [quote])) p₂)
    (hvalue : ∀ v ∈ value, v.code ≠ quote.code) (hclose : close.code = quote.code)
    (hreadValue : Reads data p₂ (value ++ [close]) p₃) (hspaces'' : Spaces spaces'')
    (hreadSpaces : Reads data p₃ spaces'' p₄) (h : RestBehind data (spaces'' ≠ []) p₄) :
    RestBehind data true p := by
  obtain ⟨rest, attrs, event, p', hreadRest, htag, hnames⟩ := h
  obtain ⟨q, hqname, hplain⟩ := hname
  obtain ⟨first, body, hfirst, hvalid, -⟩ := hrun.starts
  have hnamed : Named name q := ⟨hqname, first, body, hfirst, hvalid⟩
  have hwhole := TagRest.attr hnamed hspaces hequ hspaces' hquote hvalue hclose hspaces'' htag
  refine ⟨name ++ ((spaces ++ equ :: (spaces' ++ [quote])) ++ ((value ++ [close]) ++
    (spaces'' ++ rest))), ⟨q, bytesOf value⟩ :: attrs, event, p', ?_, ?_, ?_⟩
  · exact reads_append.mpr ⟨_, hrun.reads, reads_append.mpr ⟨_, hreadEqu,
      reads_append.mpr ⟨_, hreadValue, reads_append.mpr ⟨_, hreadSpaces, hreadRest⟩⟩⟩⟩
  · simpa using hwhole
  · intro a ha
    obtain rfl | ha := List.mem_cons.mp ha
    · intro hxmlns
      simp only [RawAttribute.isDeclaration, decide_eq_true_eq]
      exact (hplain hxmlns).elim (fun hpref => .inr ⟨hpref, hxmlns⟩) .inl
    · exact hnames a ha

def Tells (A : Prop) (r : Reply) (_ : Parser) : Prop := ∀ event, r = .event event → A

lemma tells_failed {P : Parser → Prop} {A : Prop} :
    Returns P (pure .failed : Parse Reply) (Tells A) :=
  Returns.pure fun _ _ event h => by cases h

/-- Where nothing is odd, what was taken for the rest of a tag is one. -/
lemma attributes_tell {spaced : Bool} {old : ℤ} (hodd : ¬ OddAttributes data spaced p) :
    Returns (Got data p c) (attributes fuel old c) (Tells (RestBehind data spaced p)) := by
  induction fuel generalizing spaced old c p with
  | zero => exact Returns.throw _
  | succ fuel ih =>
    apply Returns.ite
    · rintro rfl
      apply returns_of_got (by decide)
      intro slash r hslash hchar
      refine Returns.bind nextChar_got fun d => Returns.ite ?_ fun _ => tells_failed
      rintro rfl
      apply returns_of_got (by decide)
      intro gt r' hgt hchar'
      exact Returns.of_post fun _ _ _ _ => ⟨[slash, gt], [], .emptyElement, r',
        .cons hchar (.cons hchar' (.nil _)), .empty hslash hgt, by simp [PlainNames]⟩
    intro _
    apply Returns.ite
    · rintro rfl
      apply returns_of_got (by decide)
      intro gt r hgt hchar
      exact Returns.of_post fun _ _ _ _ => ⟨[gt], [], .startElement, r, .cons hchar (.nil _),
        .start hgt, by simp [PlainNames]⟩
    intro _
    refine Returns.ite (fun hvalid => ?_) fun _ => tells_failed
    apply returns_of_got (by rintro rfl; revert hvalid; decide)
    rintro x r rfl hx
    refine Returns.bind readName_got fun d => ?_
    rintro m ⟨body, p₁, hbody, hreadBody, hd, hm⟩
    have hrun : AttributeRun data p (x :: body) p₁ :=
      ⟨.cons hx hreadBody, x, body, rfl, hvalid, hbody⟩
    obtain rfl : spaced = true := by
      cases spaced with
      | true => rfl
      | false => exact absurd (.glued hx hvalid) hodd
    obtain ⟨y, r₁, rfl, hy, -⟩ := hm.char (by rintro rfl; revert hd; decide)
    have hname : AttributeName (x :: body) := by
      by_contra hname
      exact hodd (.misnamed hrun hy hd hname)
    refine Returns.bind (processEqu_got (p := p₁)) (fun quote => ?_) m hm
    rintro m (⟨spaces, equ, spaces', p₂, hspaces, hequ, hspaces', hreadEqu, hm⟩ |
      ⟨spaces, p₂, hspaces, hread, hfollows⟩)
    · refine Returns.ite (fun hquote => ?_) (fun _ => tells_failed) m hm
      have hne : quote ≠ -1 := by
        rcases hquote with rfl | rfl <;> decide
      apply returns_of_got hne
      rintro z r₂ rfl hz
      refine Returns.bind (readValue_got hne) fun d => ?_
      rintro m ⟨value, close, p₃, spaces'', p₄, hvalue, hclose, hreadValue, hspaces'', hreadSpaces,
        hd, hm⟩
      have hreadQuote : Reads data p₁ (spaces ++ equ :: (spaces' ++ [z])) r₂ := by
        have hread := reads_append.mpr ⟨p₂, hreadEqu, .cons hz (.nil _)⟩
        simpa using hread
      have hodd' : ¬ OddAttributes data (spaces'' ≠ []) p₄ := fun hlater =>
        hodd (.next hrun hreadQuote hspaces hequ hspaces' hquote hreadValue hvalue hclose
          hreadSpaces hspaces'' (hm.follows hd) hlater)
      refine (ih hodd').mono (fun r _ htell event hevent => ?_) m hm
      exact .attr hname hrun hspaces hequ hspaces' hquote hreadQuote hvalue hclose hreadValue
        hspaces'' hreadSpaces (htell event hevent)
    · -- the character behind the spaces is passed over
      have hspace : spaces ≠ [] := by
        rintro rfl
        cases hread
        have hfollow := hfollows y r₁ hy
        simp only [attributeStop, decide_eq_true_eq] at hd
        rcases hd with hd | hd
        · rw [hfollow.1] at hd
          cases hd
        · exact hfollow.2 hd
      exact absurd (.noEqual hrun hread hspaces hspace hfollows) hodd

/-- A tag without its `<` stands behind `p`. -/
def TagBehind (data : List UInt8) (p : Place) : Prop :=
  ∃ name spaces rest q attrs event p', Reads data p (name ++ (spaces ++ rest)) p' ∧
    Named name q ∧ Spaces spaces ∧ TagRest (spaces ≠ []) rest attrs event ∧ PlainNames attrs

lemma startTag_tells (hodd : ¬ OddTag data p) :
    Returns (Got data p c) (startTag fuel c) (Tells (TagBehind data p)) := by
  apply Returns.ite
  · intro hvalid
    apply returns_of_got (by rintro rfl; revert hvalid; decide)
    rintro x r rfl hx
    refine Returns.bind readName_got fun d => ?_
    rintro m ⟨body, p₁, hbody, hreadBody, hd, hm⟩
    obtain ⟨y, r₁, rfl, hy, -⟩ := hm.char (by rintro rfl; revert hd; decide)
    obtain ⟨q, hnamed⟩ : ∃ q, Named (x :: body) q := by
      by_contra hno
      exact hodd (.misnamed (.cons hx (reads_append.mpr ⟨p₁, hreadBody, .cons hy (.nil _)⟩)) hbody
        hd fun q hq => hno ⟨q, hq⟩)
    refine Returns.bind pushElement_where (fun _ => Returns.bind skipSpaces_got fun d => ?_) m hm
    rintro m ⟨spaces, p₂, hspaces, hread, hspace, hm⟩
    have hodd' : ¬ OddAttributes data (spaces ≠ []) p₂ := by
      refine fun hlater => hodd (.attributes (.cons hx hreadBody) hvalid hbody hread hspaces ?_
        hlater)
      intro z r hz
      refine ⟨hm.follows (P := fun c => isSpaceChar c = false) hspace z r hz, ?_⟩
      rintro rfl
      cases hread
      obtain ⟨rfl, -⟩ := hz.unique hy
      exact hd
    refine (attributes_tell hodd').mono (fun r _ htell event hevent => ?_) m hm
    obtain ⟨rest, attrs, event', p', hreadRest, htag, hnames⟩ := htell event hevent
    exact ⟨x :: body, spaces, rest, q, attrs, event', p', .cons hx (reads_append.mpr
      ⟨p₁, hreadBody, reads_append.mpr ⟨p₂, hread, hreadRest⟩⟩), hnamed, hspaces, htag, hnames⟩
  · intro hvalid m hm
    exact absurd (.unnamed (hm.follows (by simpa using hvalid))) hodd

lemma endTag_tells {P : Parser → Prop} :
    Returns P (endTag fuel) fun r _ => ∀ event, r = .event event → event = .endElement := by
  have hfailed : ∀ {P : Parser → Prop}, Returns P (pure .failed : Parse Reply) fun r _ =>
      ∀ event, r = .event event → event = .endElement :=
    Returns.pure fun _ _ event h => by cases h
  have hany : ∀ {P : Parser → Prop} {α : Type} {q : Parse α}, Returns P q fun _ _ => True :=
    Returns.of_post fun _ _ => trivial
  have hfinish : ∀ {c : ℤ}, Returns (fun _ => True) (finishEndTag fuel c) fun r _ =>
      ∀ event, r = .event event → event = .endElement := fun {c} =>
    Returns.bind hany fun d => Returns.ite
      (fun _ => Returns.pure fun _ _ event h => (Reply.event.inj h).symm) fun _ => hfailed
  refine Returns.bind hany fun _ => Returns.bind hany fun c => Returns.ite (fun _ => ?_)
    fun _ => hfailed
  refine Returns.bind hany fun d => Returns.bind hany fun s => ?_
  split
  · exact hfailed
  · refine Returns.bind hany fun _ => Returns.ite (fun _ => ?_) fun _ => hfailed
    exact Returns.ite (fun _ => Returns.bind hany fun _ => hfinish) fun _ => hfinish

def Event.Opens (event : Event) : Prop := event = .startElement ∨ event = .emptyElement

lemma Event.Opens.loud (h : event.Opens) : ¬ (Reply.event event).Quiet := by
  rintro ⟨hstart, hempty, -⟩
  rcases h with rfl | rfl
  · exact hstart rfl
  · exact hempty rfl

/-- Something that leaves the stacks alone does not return such an event. -/
lemma Passes.not_opens {P : Parse Reply} (hp : Passes data m.state.elem m.state.namesp P)
    (hm : OnData data m.input) (hpref : m.state.tempPrefix = none) (hname : m.state.name = none)
    (hevent : event.Opens) (h : P m = .ok (.event event) m') : False := by
  have hrun := hp m ⟨hm, ⟨rfl, rfl, fun _ => hname⟩, hpref⟩
  rw [h] at hrun
  exact hevent.loud hrun.1

/-- A start tag is reported from the character behind `<`. -/
lemma startTag_of_markup (hm : OnData data m.input) (hready : m.input.decoder.Ready)
    (hpref : m.state.tempPrefix = none) (hname : m.state.name = none) (hevent : event.Opens)
    (h : markup fuel m = .ok (.event event) m') :
    ∃ x i, ReadsChar data m.input.place x i.place ∧ OnData data i ∧
      startTag fuel x.code ⟨i, m.state⟩ = .ok (.event event) m' := by
  rcases readsChar_or_none data (p := m.input.place) hm.2.2 hready with hnone | ⟨x, p, hx⟩
  · obtain ⟨i, hrun, hi⟩ := hnone.run hm
    rw [markup_run fuel hrun, run_ite_neg (by decide), run_ite_neg (by decide),
      run_ite_neg (by decide)] at h
    exact (Passes.not_opens (m := ⟨i, m.state⟩) (startTag_passes fuel (by decide) (by decide)
      (by decide) (by decide)) hi hpref hname hevent h).elim
  · obtain ⟨i, hrun, hi, hp⟩ := hx.run hm
    rw [markup_run fuel hrun] at h
    by_cases hslash : x.code = ch '/'
    · rw [run_ite_pos hslash] at h
      have hend := (endTag_tells (P := fun _ => True)).result trivial h event rfl
      rcases hevent with rfl | rfl <;> cases hend
    rw [run_ite_neg hslash] at h
    by_cases hbang : x.code = ch '!'
    · rw [run_ite_pos hbang] at h
      exact (Passes.not_opens (m := ⟨i, m.state⟩) (declaration_passes fuel) hi hpref hname hevent
        h).elim
    rw [run_ite_neg hbang] at h
    by_cases hquestion : x.code = ch '?'
    · rw [run_ite_pos hquestion] at h
      exact (Passes.not_opens (m := ⟨i, m.state⟩) (processXmlDec_passes fuel) hi hpref hname hevent
        h).elim
    rw [run_ite_neg hquestion] at h
    exact ⟨x, i, by rw [hp]; exact hx, hi, h⟩

/-- A call that reports a start tag came to markup. -/
lemma markup_of_nextBody (hm : OnData data m.input) (hpop : m.state.Poppable) (hevent : event.Opens)
    (h : nextBody fuel m = .ok (.event event) m') :
    ∃ i, OnData data i ∧ AtMarkup data m i.place ∧
      markup fuel ⟨i, m.state.atMarkup⟩ = .ok (.event event) m' := by
  rcases nextBody_cases fuel hm hpop with ⟨i, hi, hat, hrun⟩ | ⟨i, c, hi, hrun⟩ | ⟨i, hi, hrun⟩ |
    ⟨i, e, hi, hrun⟩ <;> rw [hrun] at h
  · exact ⟨i, hi, hat, h⟩
  · exact (Passes.not_opens (m := ⟨i, m.state.cleaned⟩) (text_passes fuel c) hi rfl rfl hevent
      h).elim
  · cases h
  · cases h

end Runs

/-! ### Tags of the grammar are not odd -/

section Grammar

variable {data : List UInt8}
variable {x : Ch} {p p' : Place}

lemma follows_of_reads {c : Ch} {P : ℤ → Prop} (h : ReadsChar data p c p') (hc : P c.code) :
    Follows data p P := by
  intro d q hd
  obtain ⟨rfl, -⟩ := hd.unique h
  exact hc

/-- A run of characters up to one of another kind is the same however it is read. -/
lemma reads_run_unique {P : ℤ → Bool} {p q q' : Place} {l l' rest : List Ch} (h : Reads data p l q)
    (hl : ∀ c ∈ l, P c.code = false) (hfollows : Follows data q fun c => P c = true)
    (h' : Reads data p (l' ++ x :: rest) q') (hl' : ∀ c ∈ l', P c.code = false)
    (hx : P x.code = true) :
    l = l' ∧ Reads data q (x :: rest) q' := by
  induction h generalizing l' with
  | nil p =>
    cases l' with
    | nil => exact ⟨rfl, h'⟩
    | cons c l' =>
      obtain ⟨r, hc, -⟩ := reads_cons.mp h'
      have hstop : P c.code = true := hfollows c r hc
      rw [hl' c (List.mem_cons_self ..)] at hstop
      cases hstop
  | @cons p r q c cs hc hcs ih =>
    cases l' with
    | nil =>
      obtain ⟨r', hx', -⟩ := reads_cons.mp h'
      obtain ⟨rfl, -⟩ := hc.unique hx'
      rw [hl c (List.mem_cons_self ..)] at hx
      cases hx
    | cons d l' =>
      obtain ⟨r', hd, hrest⟩ := reads_cons.mp h'
      obtain ⟨rfl, rfl⟩ := hc.unique hd
      obtain ⟨rfl, hq⟩ := ih (fun c hc => hl c (List.mem_cons_of_mem _ hc)) hfollows hrest
        fun c hc => hl' c (List.mem_cons_of_mem _ hc)
      exact ⟨rfl, hq⟩

lemma Spaces.code {spaces : List Ch} (h : Spaces spaces) :
    ∀ c ∈ spaces, (!isSpaceChar c.code) = false := h.notStop

/-- What is read for the name of an attribute is the name, if there is one. -/
lemma AttributeRun.unique {p p₁ q' : Place} {name name' rest : List Ch} {q : QName}
    (h : AttributeRun data p name p₁) (hfollows : Follows data p₁ fun c => attributeStop c = true)
    (hname : NameText name' q) (hx : attributeStop x.code = true)
    (hread : Reads data p (name' ++ x :: rest) q') :
    name = name' ∧ Reads data p₁ (x :: rest) q' := by
  obtain ⟨first, body, rfl, hvalid, hbody⟩ := h.starts
  have hall : ∀ c ∈ first :: body, attributeStop c.code = false := by
    intro c hc
    obtain rfl | hc := List.mem_cons.mp hc
    · by_contra hstop
      simp only [Bool.not_eq_false, attributeStop, isSpaceChar, decide_eq_true_eq] at hstop
      rcases hstop with (h | h | h | h) | h <;> rw [h] at hvalid <;> revert hvalid <;> decide
    · exact hbody c hc
  exact reads_run_unique h.reads hall hfollows hread (fun c hc => (hname.inside c hc).2) hx

lemma AttributeRun.valid {p p₁ p' : Place} {name : List Ch} (h : AttributeRun data p name p₁)
    (hx : ReadsChar data p x p') :
    isValidStartingChar x.code = true := by
  obtain ⟨first, body, rfl, hvalid, -⟩ := h.starts
  obtain ⟨q, hfirst, -⟩ := reads_cons.mp h.reads
  obtain ⟨rfl, -⟩ := hx.unique hfirst
  exact hvalid

lemma OddAttributes.valid {spaced : Bool} (h : OddAttributes data spaced p)
    (hx : ReadsChar data p x p') : isValidStartingChar x.code = true := by
  cases h with
  | glued hc hvalid =>
    obtain ⟨rfl, -⟩ := hx.unique hc
    exact hvalid
  | misnamed hrun _ _ _ | noEqual hrun _ _ _ _ | next hrun _ _ _ _ _ _ _ _ _ _ _ _ =>
    exact hrun.valid hx

lemma spaces_head (rest : List Ch) {spaces : List Ch} (hspaces : Spaces spaces)
    (hx : attributeStop x.code = true) :
    ∃ y ys, spaces ++ x :: rest = y :: ys ∧ attributeStop y.code = true := by
  cases spaces with
  | nil => exact ⟨x, rest, rfl, hx⟩
  | cons s spaces =>
    exact ⟨s, _, rfl, by simp [attributeStop, hspaces s (List.mem_cons_self ..)]⟩

lemma isQuote_noSpace {c : ℤ} (h : IsQuote c) : (!isSpaceChar c) = true := by
  rcases h with rfl | rfl <;> decide

lemma TagRest.not_odd {spaced : Bool} {text : List Ch} {attrs : List RawAttribute} {event : Event}
    (h : TagRest spaced text attrs event) {p p' : Place} (hread : Reads data p text p')
    (hnames : PlainNames attrs) : ¬ OddAttributes data spaced p := by
  induction h generalizing p with
  | @start _ gt hgt =>
    intro hodd
    obtain ⟨q, hchar, -⟩ := reads_cons.mp hread
    have hvalid := hodd.valid hchar
    rw [hgt] at hvalid
    exact absurd hvalid (by decide)
  | @empty _ slash gt hslash _ =>
    intro hodd
    obtain ⟨q, hchar, -⟩ := reads_cons.mp hread
    have hvalid := hodd.valid hchar
    rw [hslash] at hvalid
    exact absurd hvalid (by decide)
  | @attr name spaces spaces' value spaces'' rest equ quote close q attrs event hname hspaces hequ
      hspaces' hquote hvalue hclose hspaces'' hrest ih =>
      have hequStop : attributeStop equ.code = true := by simp [attributeStop, hequ]
      have hequChar : (!isSpaceChar equ.code) = true := by
        rw [hequ]
        decide
      obtain ⟨y, ys, hy, hstop⟩ := spaces_head
        (spaces' ++ quote :: (value ++ close :: (spaces'' ++ rest))) hspaces hequStop
      intro hodd
      cases hodd with
      | @misnamed _ _ p₁ p₂ name' x hrun hx hxstop hodd =>
        rw [hy] at hread
        obtain ⟨rfl, -⟩ := hrun.unique (follows_of_reads hx hxstop) hname.1 hstop hread
        refine hodd ⟨q, hname.1, fun hxmlns => ?_⟩
        have hdecl := hnames _ (List.mem_cons_self ..) hxmlns
        simp only [RawAttribute.isDeclaration, decide_eq_true_eq] at hdecl
        exact hdecl.symm.imp_left And.left
      | @noEqual _ _ p₁ p₂ name' odd hrun hreadOdd hodd hne hfollows =>
        have hnext : Follows data p₁ fun c => attributeStop c = true := by
          obtain ⟨z, zs, rfl⟩ := List.exists_cons_of_ne_nil hne
          obtain ⟨r, hz, -⟩ := reads_cons.mp hreadOdd
          exact follows_of_reads hz (by simp [attributeStop, hodd z (List.mem_cons_self ..)])
        rw [hy] at hread
        obtain ⟨rfl, hbehind⟩ := hrun.unique hnext hname.1 hstop hread
        rw [← hy] at hbehind
        obtain ⟨rfl, hlast⟩ := reads_run_unique (P := fun c => !isSpaceChar c) hreadOdd hodd.code
          (fun c r hc => by simp [(hfollows c r hc).1]) hbehind hspaces.code hequChar
        obtain ⟨r, hchar, -⟩ := reads_cons.mp hlast
        exact (hfollows equ r hchar).2 hequ
      | @next _ _ p₁ p₂ p₃ p₄ name' odd odd' value' odd'' equ' quote' close' hrun hreadEqu hodd
          hequ' hodd' hquote' hreadValue hvalue' hclose' hreadSpaces hodd'' hfollows hlater =>
          have hequStop' : attributeStop equ'.code = true := by simp [attributeStop, hequ']
          have hequChar' : (!isSpaceChar equ'.code) = true := by
            rw [hequ']
            decide
          -- the name
          have hnext : Follows data p₁ fun c => attributeStop c = true := by
            obtain ⟨z, zs, hz, hzstop⟩ := spaces_head (odd' ++ [quote']) hodd hequStop'
            rw [hz] at hreadEqu
            obtain ⟨r, hchar, -⟩ := reads_cons.mp hreadEqu
            exact follows_of_reads hchar hzstop
          rw [hy] at hread
          obtain ⟨rfl, hbehind⟩ := hrun.unique hnext hname.1 hstop hread
          rw [← hy] at hbehind
          -- the spaces and the equals sign
          obtain ⟨r₁, hreadOdd, hreadEqu⟩ := reads_append.mp hreadEqu
          obtain ⟨r₂, hcharEqu, hreadQuote⟩ := reads_cons.mp hreadEqu
          obtain ⟨rfl, hequRead⟩ := reads_run_unique (P := fun c => !isSpaceChar c) hreadOdd
            hodd.code (follows_of_reads hcharEqu hequChar') hbehind hspaces.code hequChar
          obtain ⟨r, hchar, hbehindEqu⟩ := reads_cons.mp hequRead
          obtain ⟨rfl, rfl⟩ := hchar.unique hcharEqu
          -- the spaces and the quote
          obtain ⟨r₃, hreadOdd', hreadQuote⟩ := reads_append.mp hreadQuote
          obtain ⟨r₄, hcharQuote, hnil⟩ := reads_cons.mp hreadQuote
          cases hnil
          obtain ⟨rfl, hquoteRead⟩ := reads_run_unique (P := fun c => !isSpaceChar c) hreadOdd'
            hodd'.code (follows_of_reads hcharQuote (isQuote_noSpace hquote')) hbehindEqu
            hspaces'.code (isQuote_noSpace hquote)
          obtain ⟨r, hchar, hbehindQuote⟩ := reads_cons.mp hquoteRead
          obtain ⟨rfl, rfl⟩ := hchar.unique hcharQuote
          -- the value and its quote
          obtain ⟨r₅, hreadValue, hreadClose⟩ := reads_append.mp hreadValue
          obtain ⟨r₆, hcharClose, hnil⟩ := reads_cons.mp hreadClose
          cases hnil
          obtain ⟨rfl, hcloseRead⟩ := reads_run_unique (P := fun c => c == quote.code) hreadValue
            (fun v hv => by simpa using hvalue' v hv)
            (follows_of_reads hcharClose (by simpa using hclose')) hbehindQuote
            (fun v hv => by simpa using hvalue v hv) (by simpa using hclose)
          obtain ⟨r, hchar, hbehindClose⟩ := reads_cons.mp hcloseRead
          obtain ⟨rfl, rfl⟩ := hchar.unique hcharClose
          -- the spaces in front of what follows
          obtain ⟨x, xs, rfl, hx, -⟩ := hrest.head
          obtain ⟨rfl, hlast⟩ := reads_run_unique (P := fun c => !isSpaceChar c) hreadSpaces
            hodd''.code (fun c r hc => by simpa using hfollows c r hc) hbehindClose hspaces''.code
            (by simpa using hx)
          exact ih hlast (fun a ha => hnames a (List.mem_cons_of_mem _ ha)) hlater

/-- A tag of the grammar is not odd behind its `<`. -/
lemma TagRest.not_oddTag {name spaces rest : List Ch} {q : QName} {attrs : List RawAttribute}
    {event : Event} {p p' : Place} (hname : Named name q) (hspaces : Spaces spaces)
    (hrest : TagRest (spaces ≠ []) rest attrs event)
    (hread : Reads data p (name ++ (spaces ++ rest)) p') (hnames : PlainNames attrs) :
    ¬ OddTag data p := by
  have hinside : ∀ c ∈ name, startTagStop c.code = false := fun c hc => (hname.1.inside c hc).1
  obtain ⟨y, ys, hy, hystop⟩ : ∃ y ys, spaces ++ rest = y :: ys ∧ startTagStop y.code = true := by
    cases spaces with
    | nil =>
      obtain ⟨y, ys, rfl, -, hstop⟩ := hrest.head
      exact ⟨y, ys, rfl, hstop (by simp)⟩
    | cons s spaces =>
      exact ⟨s, spaces ++ rest, rfl, by simp [startTagStop, hspaces s (List.mem_cons_self ..)]⟩
  obtain ⟨-, first, body, hfirst, hvalid⟩ := id hname
  have hstart : ∀ {c : Ch} {r : Place}, ReadsChar data p c r → c = first := by
    intro c r hc
    rw [hfirst] at hread
    obtain ⟨r', hchar, -⟩ := reads_cons.mp hread
    exact (hc.unique hchar).1
  intro hodd
  cases hodd with
  | unnamed hfollows =>
    rw [hfirst] at hread
    obtain ⟨r, hchar, -⟩ := reads_cons.mp hread
    rw [hfollows first r hchar] at hvalid
    cases hvalid
  | @misnamed p' first' x body' hreadOdd hbody hx hno =>
    obtain ⟨r, hchar, hreadOdd⟩ := reads_cons.mp hreadOdd
    obtain ⟨r', hreadBody, hreadX⟩ := reads_append.mp hreadOdd
    obtain ⟨r'', hcharX, -⟩ := reads_cons.mp hreadX
    obtain rfl := hstart hchar
    rw [hy] at hread
    obtain ⟨rfl, -⟩ := reads_run_unique (P := startTagStop) (.cons hchar hreadBody) (by
      intro c hc
      obtain rfl | hc := List.mem_cons.mp hc
      · exact hinside c (by simp [hfirst])
      · exact hbody c hc) (follows_of_reads hcharX hx) hread hinside hystop
    exact hno q hname
  | @attributes p₁ p₂ first' body' odd hreadName hvalid' hbody hreadOdd hodd hfollows hlater =>
    obtain ⟨r, hchar, hreadBody⟩ := reads_cons.mp hreadName
    obtain rfl := hstart hchar
    have hnext : Follows data p₁ fun c => startTagStop c = true := by
      cases odd with
      | nil =>
        cases hreadOdd
        exact fun c r hc => (hfollows c r hc).2 rfl
      | cons z zs =>
        obtain ⟨r, hz, -⟩ := reads_cons.mp hreadOdd
        exact follows_of_reads hz (by simp [startTagStop, hodd z (List.mem_cons_self ..)])
    rw [hy] at hread
    obtain ⟨rfl, hbehind⟩ := reads_run_unique (P := startTagStop) hreadName (by
      intro c hc
      obtain rfl | hc := List.mem_cons.mp hc
      · exact hinside c (by simp [hfirst])
      · exact hbody c hc) hnext hread hinside hystop
    rw [← hy] at hbehind
    obtain ⟨x, xs, rfl, hx, -⟩ := hrest.head
    obtain ⟨rfl, hlast⟩ := reads_run_unique (P := fun c => !isSpaceChar c) hreadOdd hodd.code
      (fun c r hc => by simpa using (hfollows c r hc).1) hbehind hspaces.code (by simpa using hx)
    exact hrest.not_odd hlast hnames hlater

end Grammar

/-! ### The attributes that are reported -/

/-- What the parser keeps of the attributes of a tag. -/
def kept (attrs : List RawAttribute) : List RawAttribute :=
  attrs.filter fun a => decide (¬ (a.qname.pref = some xmlns ∨ a.qname.name = xmlns))

/-- The attributes of a tag that are no declarations, as they are reported. -/
def reported (attrs : List RawAttribute) : List (Option Token × Option Token × Token) :=
  (attrs.filter fun a => !a.isDeclaration).map fun a =>
    (a.qname.pref, some a.qname.name, stringEvaluateReferences a.value)

lemma declare_attrib (s : State) (uri : Token) : (s.declare uri).attrib = s.attrib := by
  unfold State.declare
  split
  · rfl
  · split
    · split <;> rfl
    · rfl

lemma declare_name (s : State) (uri : Token) : (s.declare uri).name = s.name := by
  unfold State.declare
  split
  · rfl
  · split
    · split <;> rfl
    · rfl

lemma addAttribute_attrib (s : State) (a : RawAttribute) :
    (s.addAttribute a).attrib = s.attrib ++
      (kept [a]).map fun a => ⟨a.qname.pref, some a.qname.name, a.value⟩ := by
  by_cases hxmlns : a.qname.pref = some xmlns ∨ a.qname.name = xmlns
  · have hcond : a.qname.pref = some xmlns ∨ some a.qname.name = some xmlns :=
      hxmlns.imp_right (congrArg some)
    have hkept : kept [a] = [] := List.filter_cons_of_neg (by simpa only [decide_not,
      Bool.not_eq_true', decide_eq_false_iff_not, not_not] using hxmlns)
    simp only [State.addAttribute, State.close, if_pos hcond, declare_attrib, hkept,
      List.map_nil, List.append_nil]
  · have hcond : ¬ (a.qname.pref = some xmlns ∨ some a.qname.name = some xmlns) :=
      fun h => hxmlns (h.imp_right Option.some.inj)
    have hkept : kept [a] = [a] := List.filter_cons_of_pos (by simpa using hxmlns)
    simp only [State.addAttribute, State.close, if_neg hcond, hkept, List.map_cons, List.map_nil]

lemma kept_cons (a : RawAttribute) (attrs : List RawAttribute) :
    kept (a :: attrs) = kept [a] ++ kept attrs := by
  simp only [kept, List.filter_cons]
  split <;> rfl

lemma foldl_attrib (attrs : List RawAttribute) (s : State) :
    (attrs.foldl State.addAttribute s).attrib = s.attrib ++
      (kept attrs).map fun a => ⟨a.qname.pref, some a.qname.name, a.value⟩ := by
  induction attrs generalizing s with
  | nil => simp [kept]
  | cons a attrs ih =>
    rw [List.foldl_cons, ih, addAttribute_attrib, kept_cons a attrs]
    simp

lemma foldl_name (attrs : List RawAttribute) (s : State) :
    (attrs.foldl State.addAttribute s).name = s.name := by
  induction attrs generalizing s with
  | nil => rfl
  | cons a attrs ih =>
    rw [List.foldl_cons, ih]
    simp only [State.addAttribute, State.close]
    split
    · exact declare_name _ _
    · rfl

lemma kept_sublist (attrs : List RawAttribute) :
    (kept attrs).Sublist (attrs.filter fun a => !a.isDeclaration) := by
  rw [kept]
  apply List.monotone_filter_right
  intro a ha
  simp only [RawAttribute.isDeclaration, decide_eq_true_eq, Bool.not_eq_true',
    decide_eq_false_iff_not] at ha ⊢
  exact fun h => ha (h.imp_right And.right)

lemma plainNames_of_reported {attrs : List RawAttribute}
    (h : (kept attrs).length = (attrs.filter fun a => !a.isDeclaration).length) :
    PlainNames attrs := by
  have heq := (kept_sublist attrs).eq_of_length h
  intro a ha hxmlns
  by_contra hdecl
  have hmem : a ∈ attrs.filter fun a => !a.isDeclaration :=
    List.mem_filter.mpr ⟨ha, by simpa using hdecl⟩
  rw [← heq, kept] at hmem
  have hkept := (List.mem_filter.mp hmem).2
  simp only [decide_eq_true_eq, not_or] at hkept
  exact hkept.2 hxmlns

/-! ### The call -/

section Call

variable {data : List UInt8}
variable {m m' : Parser} {fuel : ℕ} {event : Event}

/-- What the call consumed is a start tag, and it reports the attributes of this tag. -/
def ReportsTag (data : List UInt8) (m : Parser) (event : Event) (m' : Parser) : Prop :=
  ∃ spaces text q attrs, (m.state.status = .s2 → spaces = []) ∧
    (∀ s ∈ spaces, isspace s.code = true) ∧ TagText text q attrs event ∧
    Reads data m.input.place (spaces ++ text) m'.input.place ∧ m'.state.name ≠ none ∧
    (getStrings m'.state).attributes = reported attrs

/-- A start tag in front of the parser is what a call reports. -/
lemma startTag_read {p p' : Place} {first : Ch} {text : List Ch} {q : QName}
    {attrs : List RawAttribute} {event event' : Event} (h : StartTagText first text q attrs event)
    (hm : OnData data m.input) (hfirst : ReadsChar data p first m.input.place)
    (hread : Reads data m.input.place text p') (hpref : m.state.tempPrefix = none)
    (hrun : startTag fuel first.code m = .ok (.event event') m') :
    event' = event ∧ m'.input.place = p' ∧
      m'.state = (m.state.openTag q).endOfTag attrs event := by
  rcases (startTag_arrives h hm.2.2 hfirst hread hpref fun h => h).result ⟨hm, rfl, rfl⟩ with
    ⟨m₁, hok, -, hp, hstate⟩ | ⟨-, m₀, hshort⟩
  · rw [hrun] at hok
    obtain ⟨hreply, rfl⟩ := EStateM.Result.ok.inj hok
    refine ⟨?_, hp, hstate⟩
    unfold tagReply at hreply
    split at hreply
    · exact Reply.event.inj hreply
    · cases hreply
  · rw [hrun] at hshort
    cases hshort

section

variable (hm : OnData data m.input) (hevent : event.Opens)
  (hnext : next fuel m = .returned (.event event) m')

include hm hevent hnext

/-- A call that reports a start tag read it behind `<`. -/
lemma next_startTag :
    ∃ p x i, AtMarkup data m p ∧ ReadsChar data p x i.place ∧ OnData data i ∧
      startTag fuel x.code ⟨i, m.state.atMarkup⟩ = .ok (.event event) m' := by
  have hpop := (next_settled hm hnext).1
  have hbody : nextBody fuel m = .ok (.event event) m' := by
    unfold next at hnext
    split at hnext
    · next hrun =>
        obtain ⟨rfl, rfl⟩ := Outcome.returned.inj hnext
        exact hrun
    · cases hnext
    · cases hnext
  obtain ⟨i, hi, hat, hmarkup⟩ := markup_of_nextBody hm hpop hevent hbody
  obtain ⟨x, i', hx, hi', hrun⟩ := startTag_of_markup hi hat.ready rfl rfl hevent hmarkup
  exact ⟨i.place, x, i', hat, hx, hi', hrun⟩

lemma reportsTag_of_not_odd (hodd : ∀ p, AtMarkup data m p → ¬ OddTag data p) :
    ReportsTag data m event m' := by
  obtain ⟨p, x, i, hat, hx, hi, hrun⟩ := next_startTag hm hevent hnext
  obtain ⟨name, spaces, rest, q, attrs, event', p', hread, hname, hspaces, hrest, hnames⟩ :=
    (startTag_tells (hodd p hat)).result (s := ⟨i, m.state.atMarkup⟩) ⟨hi, .inr ⟨x, rfl, hx⟩⟩ hrun
      event rfl
  obtain ⟨-, first, body, rfl, -⟩ := id hname
  obtain ⟨r, hfirst, hread⟩ := reads_cons.mp hread
  obtain ⟨rfl, rfl⟩ := hx.unique hfirst
  obtain ⟨rfl, hp, hstate⟩ := startTag_read (m := ⟨i, m.state.atMarkup⟩)
    (startTagText_of_named hname hspaces hrest) hi hx hread rfl hrun
  obtain ⟨front, lt, hs2, hfront, hlt, hreadLt⟩ := hat
  refine ⟨front, _, q, attrs, hs2, hfront, .mk hlt hname hspaces hrest, ?_, ?_, ?_⟩
  · have hwhole := reads_append.mpr ⟨_, hreadLt, .cons hx hread⟩
    rw [hp]
    simpa using hwhole
  · rw [hstate]
    simp [State.endOfTag, foldl_name, State.openTag]
  · have hend := endOfTag_collected (atMarkup_attrib m.state) q hnames event
    rw [hstate, getStrings, hend.attrib]
    simp [plain, reported]

lemma not_odd_of_reportsTag (h : ReportsTag data m event m') (p : Place) (hat : AtMarkup data m p) :
    ¬ OddTag data p := by
  obtain ⟨front, _, q, attrs, hs2, hfront, ⟨hlt, hname, hspaces, hrest⟩, hread, -, hattrs⟩ := h
  rename_i lt name spaces rest
  have hsplit : front ++ lt :: (name ++ (spaces ++ rest)) =
      (front ++ [lt]) ++ (name ++ (spaces ++ rest)) := by simp
  rw [hsplit] at hread
  obtain ⟨p₀, hreadLt, hreadTag⟩ := reads_append.mp hread
  obtain rfl : p = p₀ := hat.unique ⟨front, lt, hs2, hfront, hlt, hreadLt⟩
  refine TagRest.not_oddTag hname hspaces hrest hreadTag ?_
  obtain ⟨p', x, i, hat', hx, hi, hrun⟩ := next_startTag hm hevent hnext
  obtain rfl := hat.unique hat'
  obtain ⟨-, first, body, rfl, -⟩ := id hname
  obtain ⟨r, hfirst, hreadRest⟩ := reads_cons.mp hreadTag
  obtain ⟨rfl, rfl⟩ := hx.unique hfirst
  obtain ⟨-, -, hstate⟩ := startTag_read (m := ⟨i, m.state.atMarkup⟩)
    (startTagText_of_named hname hspaces hrest) hi hx hreadRest rfl hrun
  apply plainNames_of_reported
  have hattrib := foldl_attrib attrs (m.state.atMarkup.openTag q)
  have hnone : (m.state.atMarkup.openTag q).attrib = [] := atMarkup_attrib m.state
  have hlength := congrArg List.length hattrs
  rw [hstate, getStrings, State.endOfTag, hattrib, hnone] at hlength
  simpa [reported] using hlength

end

/-- `<a b="1">` -/
def quotedTag : List UInt8 := [60, 97, 32, 98, 61, 34, 49, 34, 62]

/-- `<a b="1"c="2">` -/
def gluedTag : List UInt8 := [60, 97, 32, 98, 61, 34, 49, 34, 99, 61, 34, 50, 34, 62]

end Call

end Axis2C.Guththila
