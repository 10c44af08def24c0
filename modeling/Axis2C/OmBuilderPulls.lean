import Axis2C.OmBuilderRuns

/-!
# The two pull routines

`axiom_stax_builder_next` and `axiom_stax_builder_next_with_token` switch over the same
events. They are driven side by side to the end of the events.
-/
namespace Axis2C.Om

section Drives

/-- `axiom_stax_builder_next` again and again, until it gives no node. Each call that
gives a node takes an event. -/
def driveNext : ℕ → List Event → Builder → Builder
  | 0, _, b => b
  | fuel + 1, es, b =>
    match next es b with
    | (none, _, b) => b
    | (some _, es, b) => driveNext fuel es b

/-- `axiom_stax_builder_next_with_token` again and again, until the builder is done. -/
def driveToken : ℕ → List Event → Builder → Builder
  | 0, _, b => b
  | fuel + 1, es, b =>
    if b.done then b
    else
      let r := nextWithToken es b
      driveToken fuel r.2.1 r.2.2

def untilDone (take : Builder → Event → Builder) : List Event → Builder → Builder
  | [], b => b
  | e :: es, b => if b.done then b else untilDone take es (take b e)

def takeNext (b : Builder) (e : Event) : Builder := (pull b e).2

def takeToken (b : Builder) (e : Event) : Builder := (pullToken b e).2

/-- The number of open elements after an event, from the start of the root on. -/
def depthAfter : Option ℕ → Event → Option ℕ
  | none, .startElement _ => some 1
  | none, .emptyElement _ => some 0
  | none, _ => none
  | some d, .startElement _ => some (d + 1)
  | some d, .endElement => some (d - 1)
  | some d, _ => some d

/-- After every event from the start of the root on, the level is the number of open
elements. -/
def LevelIsDepth (take : Builder → Event → Builder) :
    Option ℕ → List Event → Builder → Prop
  | _, [], _ => True
  | depth, e :: es, b => b.done = false →
      (∀ d : ℕ, depthAfter depth e = some d → (take b e).elementLevel = d) ∧
        LevelIsDepth take (depthAfter depth e) es (take b e)

/-- The two routines leave the same tree, last node, flag and level, and on the way the
level is the number of open elements. -/
def PullsAgree (es : List Event) (b : Builder) : Prop :=
  let bn := driveNext (es.length + 1) es b
  let bt := driveToken (es.length + 1) es b
  bn.heap = bt.heap ∧ bn.lastNode = bt.lastNode ∧ bn.done = bt.done ∧
    bn.elementLevel = bt.elementLevel ∧ LevelIsDepth takeNext none es b ∧
    LevelIsDepth takeToken none es b

/-- An event that makes no node inside of the root, although it should. -/
def Event.fails : Event → Bool
  | .comment none => true
  | .processingInstruction none _ => true
  | .processingInstruction _ none => true
  | _ => false

/-- The root starts without an end, a comment or a processing instruction in front of
it, and it ends, and what is in it has its values. -/
def Uneventful : Option ℕ → List Event → Bool
  | _, [] => false
  | none, e :: es =>
    match e with
    | .startElement _ => Uneventful (some 1) es
    | .emptyElement _ => true
    | .endElement => false
    | .comment _ => false
    | .processingInstruction _ _ => false
    | _ => Uneventful none es
  | some d, e :: es =>
    !e.fails && (depthAfter (some d) e == some 0 || Uneventful (depthAfter (some d) e) es)

end Drives

section Errors

def SameButError (b b' : Builder) : Prop := ∃ error, b' = { b with error := error }

variable {b b' : Builder}

lemma SameButError.rfl : SameButError b b := ⟨b.error, .refl _⟩

lemma SameButError.foldl {α : Type*} {f : Builder → α → Builder}
    (hf : ∀ b b' a, SameButError b b' → SameButError (f b a) (f b' a)) (hb : SameButError b b')
    (as : List α) : SameButError (as.foldl f b) (as.foldl f b') := by
  induction as generalizing b b' with
  | nil => exact hb
  | cons a as ih => exact ih (hf b b' a hb)

lemma declareOne_sameButError (n : ℕ) (b b' : Builder) (declaration : Option String × String)
    (hb : SameButError b b') :
    SameButError (declareOne n b declaration) (declareOne n b' declaration) := by
  obtain ⟨error, rfl⟩ := hb
  refine ⟨error, ?_⟩
  unfold declareOne
  split
  · rfl
  · rfl

lemma attachAttribute_sameButError (n : ℕ) (b b' : Builder) (a : ReaderAttribute)
    (hb : SameButError b b') : SameButError (attachAttribute n b a) (attachAttribute n b' a) := by
  obtain ⟨error, rfl⟩ := hb
  refine ⟨error, ?_⟩
  unfold attachAttribute
  cases a.namespaceUri with
  | none => rfl
  | some uri => cases hfind : findNamespace b.heap (some uri) a.nsPrefix b.used n <;> simp [hfind]

lemma setOwnNamespace_sameButError (n : ℕ) (nsPrefix : Option String) (hb : SameButError b b') :
    SameButError (setOwnNamespace n b nsPrefix) (setOwnNamespace n b' nsPrefix) := by
  obtain ⟨error, rfl⟩ := hb
  unfold setOwnNamespace
  cases nsPrefix with
  | none => exact ⟨error, rfl⟩
  | some key =>
    cases hget : hashGet b.declaredNamespaces key with
    | none => exact ⟨some .undefinedNamespace, by simp [hget]⟩
    | some ns =>
      cases he : elementAt b.heap n with
      | none | some e => exact ⟨error, by simp [hget]⟩

lemma fillElement_sameButError (n : ℕ) (tag : StartTag) (isEmpty : Bool)
    (hb : SameButError b b') :
    SameButError (fillElement b n tag isEmpty) (fillElement b' n tag isEmpty) := by
  obtain ⟨error, heq⟩ := SameButError.foldl (attachAttribute_sameButError n)
    (setOwnNamespace_sameButError n tag.nsPrefix
      (SameButError.foldl (declareOne_sameButError n) hb tag.namespaces)) tag.attributes
  refine ⟨error, ?_⟩
  unfold fillElement processAttributes processNamespaces
  rw [heq]

lemma placeElement_sameButError (name : String) (hb : SameButError b b') :
    SameButError (placeElement b name) (placeElement b' name) := by
  obtain ⟨error, rfl⟩ := hb
  refine ⟨error, ?_⟩
  unfold placeElement
  cases hlast : b.lastNode with
  | none =>
    simp only [hlast, documentSetRootElement, newNode]
    cases b.documentRoot <;> simp only
  | some last =>
    simp only [hlast, newNode]
    cases isComplete b.heap last <;> simp

lemma createOmElement_sameButError (tag : StartTag) (isEmpty : Bool) (hb : SameButError b b') :
    SameButError (createOmElement b tag isEmpty).2 (createOmElement b' tag isEmpty).2 := by
  obtain ⟨error, rfl⟩ := hb
  exact fillElement_sameButError b.used tag isEmpty
    (placeElement_sameButError tag.name ⟨error, rfl⟩)

lemma createOmText_sameButError (value : Option String) (hb : SameButError b b') :
    SameButError (createOmText b value).2 (createOmText b' value).2 := by
  obtain ⟨error, rfl⟩ := hb
  unfold createOmText
  cases b.lastNode with
  | none => exact ⟨_, rfl⟩
  | some last =>
    cases value with
    | none => exact ⟨_, rfl⟩
    | some value => exact ⟨error, rfl⟩

lemma createOmComment_sameButError (value : Option String) (hb : SameButError b b') :
    SameButError (createOmComment b value).2 (createOmComment b' value).2 := by
  obtain ⟨error, rfl⟩ := hb
  unfold createOmComment
  cases value with
  | none => exact ⟨_, rfl⟩
  | some value =>
    cases hlast : b.lastNode with
    | none => exact ⟨error, by simp only [hlast]⟩
    | some last =>
      refine ⟨error, ?_⟩
      simp only [hlast, newNode]
      cases isComplete b.heap last <;> simp

lemma createOmProcessingInstruction_sameButError (target data : Option String)
    (hb : SameButError b b') :
    SameButError (createOmProcessingInstruction b target data).2
      (createOmProcessingInstruction b' target data).2 := by
  obtain ⟨error, rfl⟩ := hb
  unfold createOmProcessingInstruction
  cases target with
  | none => exact ⟨_, rfl⟩
  | some target =>
    cases hlast : b.lastNode with
    | none => exact ⟨error, by simp only [hlast]⟩
    | some last =>
      cases data with
      | none => exact ⟨some .invalidNullParam, by simp only⟩
      | some data =>
        refine ⟨error, ?_⟩
        simp only [hlast, newNode]
        split
        · rfl
        · rfl

lemma endElement_sameButError (hb : SameButError b b') :
    SameButError (endElement b) (endElement b') := by
  obtain ⟨error, rfl⟩ := hb
  have hclose : closeLast { b with elementLevel := b.elementLevel - 1, error := error } =
      { closeLast { b with elementLevel := b.elementLevel - 1 } with error := error } := by
    unfold closeLast
    cases b.lastNode with
    | none => rfl
    | some last =>
      cases hc : isComplete b.heap last with
      | false => simp [hc]
      | true => cases hp : b.heap.parent last <;> simp [hc, hp]
  refine ⟨error, ?_⟩
  simp only [endElement, hclose]
  split
  · rfl
  · split
    · rfl
    · rfl

/-- No routine of the builder looks at the error. -/
lemma takeNext_sameButError (e : Event) (hb : SameButError b b') :
    SameButError (takeNext b e) (takeNext b' e) := by
  have hlibxml2 : b'.libxml2 = b.libxml2 := by
    obtain ⟨error, rfl⟩ := hb
    rfl
  unfold takeNext
  cases e with
  | startDocument | entityReference | cdata | documentType => exact hb
  | startElement tag => exact createOmElement_sameButError tag false hb
  | emptyElement tag =>
    simp only [pull, hlibxml2]
    exact endElement_sameButError (createOmElement_sameButError tag _ hb)
  | endElement => exact endElement_sameButError hb
  | space value | character value => exact createOmText_sameButError value hb
  | comment value => exact endElement_sameButError (createOmComment_sameButError value hb)
  | processingInstruction target data =>
    exact endElement_sameButError (createOmProcessingInstruction_sameButError target data hb)

end Errors

section Drives

variable {b : Builder} {es : List Event}

lemma untilDone_done (take : Builder → Event → Builder) (hdone : b.done = true) :
    untilDone take es b = b := by
  cases es with
  | nil => rfl
  | cons e es => simp [untilDone, hdone]

lemma untilDone_cons (take : Builder → Event → Builder) (e : Event) (hdone : b.done = false) :
    untilDone take (e :: es) b = untilDone take es (take b e) := by
  simp [untilDone, hdone]

/-- One call of `axiom_stax_builder_next` takes some of the events. -/
lemma untilDone_next :
    (∃ n, (next es b).1 = some n ∧
      untilDone takeNext es b = untilDone takeNext (next es b).2.1 (next es b).2.2) ∨
    (next es b).1 = none ∧ SameButError (untilDone takeNext es b) (next es b).2.2 := by
  induction es generalizing b with
  | nil =>
    right
    unfold next
    split
    · exact ⟨rfl, _, rfl⟩
    · exact ⟨rfl, SameButError.rfl⟩
  | cons e es ih =>
    cases hdone : b.done with
    | true =>
      right
      rw [untilDone_done takeNext hdone, next, if_pos hdone]
      exact ⟨rfl, _, rfl⟩
    | false =>
      rw [untilDone_cons takeNext e hdone, next, if_neg (by simp [hdone])]
      have htake : takeNext b e = (pull b e).2 := rfl
      split
      · rename_i n b' heq
        rw [htake, heq]
        exact .inl ⟨n, rfl, rfl⟩
      · rename_i b' heq
        rw [htake, heq]
        exact ih

/-- The calls of `axiom_stax_builder_next` take the events until the builder is done. -/
lemma driveNext_eq {fuel : ℕ} (hfuel : es.length < fuel) :
    SameButError (untilDone takeNext es b) (driveNext fuel es b) := by
  induction fuel generalizing es b with
  | zero => omega
  | succ fuel ih =>
    unfold driveNext
    obtain ⟨n, hsome, heq⟩ | ⟨hnone, hsame⟩ := @untilDone_next b es
    · have hshorter := next_some hsome
      have hresult : next es b = (some n, (next es b).2.1, (next es b).2.2) := by
        rw [← hsome]
      rw [hresult, heq]
      exact ih (by omega)
    · have hresult : next es b = (none, (next es b).2.1, (next es b).2.2) := by
        rw [← hnone]
      rw [hresult]
      exact hsame

/-- So do those of `axiom_stax_builder_next_with_token`, which is done at the end of the
events in any case. -/
lemma driveToken_eq {fuel : ℕ} (hfuel : es.length < fuel) :
    driveToken fuel es b = { untilDone takeToken es b with done := true } := by
  have hstop {b : Builder} (fuel : ℕ) (es : List Event) (hdone : b.done = true) :
      driveToken fuel es b = { b with done := true } := by
    have hself : ({ b with done := true } : Builder) = b := by rw [← hdone]
    rw [hself]
    cases fuel with
    | zero => rfl
    | succ fuel => rw [driveToken, if_pos hdone]
  induction fuel generalizing es b with
  | zero => omega
  | succ fuel ih =>
    cases hdone : b.done with
    | true =>
      rw [untilDone_done takeToken hdone]
      exact hstop (fuel + 1) es hdone
    | false =>
      cases es with
      | nil =>
        have hlast : nextWithToken [] b = (false, [], { b with done := true }) := by
          simp [nextWithToken, hdone]
        simp only [driveToken, hdone, Bool.false_eq_true, if_false, hlast]
        exact hstop fuel [] rfl
      | cons e es =>
        have htake : nextWithToken (e :: es) b = ((pullToken b e).1, es, takeToken b e) := by
          simp [nextWithToken, hdone, takeToken]
        simp only [driveToken, hdone, Bool.false_eq_true, if_false, htake]
        rw [untilDone_cons takeToken e hdone]
        exact ih (by simpa using hfuel)

lemma levelIsDepth_done (take : Builder → Event → Builder) (depth : Option ℕ)
    (hdone : b.done = true) : LevelIsDepth take depth es b := by
  cases es with
  | nil => trivial
  | cons e es =>
    intro hno
    simp [hdone] at hno

end Drives

section Inside

variable {b b' : Builder} {o : Outline} {es : List Event}
variable {e : Event}

lemma endElement_level (b : Builder) : (endElement b).elementLevel = b.elementLevel - 1 := by
  have hclose (b : Builder) : (closeLast b).elementLevel = b.elementLevel := by
    unfold closeLast
    split
    · rfl
    · split
      · split <;> rfl
      · rfl
  simp only [endElement]
  split
  · exact hclose _
  · split
    · exact hclose _
    · exact hclose _

/-- An event that fails gives a level that is no number of open elements, in one routine
or in the other. -/
lemma level_of_fails (b : Builder) {last : ℕ} (hlast : b'.lastNode = some last)
    (hfails : e.fails = true) (d : ℕ) :
    depthAfter (some d) e = some d ∧ ((takeNext b e).elementLevel = b.elementLevel - 1 ∨
      (takeToken b' e).elementLevel = b'.elementLevel + 1) := by
  cases e with
  | comment value =>
    cases value with
    | some value => simp [Event.fails] at hfails
    | none => exact ⟨rfl, .inl (endElement_level _)⟩
  | processingInstruction target data =>
    refine ⟨rfl, ?_⟩
    cases target with
    | none => exact .inl (endElement_level _)
    | some target =>
      cases data with
      | some data => simp [Event.fails] at hfails
      | none =>
        right
        simp [takeToken, pullToken, createOmProcessingInstruction, hlast]
  | _ => simp [Event.fails] at hfails

lemma Event.valued_of_fails (hfails : e.fails = false) :
    e.Valued ∨ e = .space none ∨ e = .character none := by
  cases e with
  | space value | character value => cases value <;> simp [Event.Valued]
  | comment value => cases value <;> simp [Event.Valued, Event.fails] at hfails ⊢
  | processingInstruction target data =>
    cases target <;> cases data <;> simp [Event.Valued, Event.fails] at hfails ⊢
  | _ => exact .inl trivial

lemma depthAfter_stepWith (o : Outline) (label : Option Label) (e : Event) :
    depthAfter (some o.openNodes.length) e = some (o.stepWith label e).openNodes.length := by
  cases e with
  | startElement tag => rfl
  | endElement => simp [depthAfter, Outline.stepWith, Outline.leave]
  | _ => simp [depthAfter, Outline.stepWith, Outline.addKid_openNodes]

/-- Inside of the root the two routines do the same with every event that does not fail. -/
lemma Tracks.take (ht : Tracks b o) (hopen : o.openNodes ≠ []) (hfails : e.fails = false) :
    ∃ o', Tracks (takeNext b e) o' ∧ takeToken b e = takeNext b e ∧
      depthAfter (some o.openNodes.length) e = some o'.openNodes.length ∧
      (takeNext b e).elementLevel - o'.openNodes.length =
        b.elementLevel - o.openNodes.length := by
  have hvalue : Om.createOmText b none =
      (none, { b with error := some .xmlReaderValueNull }) := by
    unfold Om.createOmText
    simp [ht.lastNode]
  obtain hvalued | rfl | rfl := Event.valued_of_fails hfails
  · obtain ⟨p, rest, hcons⟩ := List.exists_cons_of_ne_nil hopen
    obtain ⟨label, -, hfollows⟩ := ht.follows_with hcons hvalued
    refine ⟨_, hfollows.tracks, ?_, depthAfter_stepWith o label e, hfollows.level⟩
    rw [takeToken, hfollows.token]
    rfl
  · have hnext : takeNext b (.space none) = { b with error := some .xmlReaderValueNull } := by
      simp [takeNext, pull, hvalue]
    refine ⟨o, hnext ▸ ht.setError _, ?_, rfl, by rw [hnext]⟩
    rw [hnext]
    simp [takeToken, pullToken, ht.lastNode, hvalue]
  · have hnext : takeNext b (.character none) = { b with error := some .xmlReaderValueNull } := by
      simp [takeNext, pull, hvalue]
    refine ⟨o, hnext ▸ ht.setError _, ?_, rfl, by rw [hnext]⟩
    rw [hnext]
    simp [takeToken, pullToken, hvalue]

/-- What it means that the two routines agree from a state on. -/
structure AgreeFrom (depth : Option ℕ) (es : List Event) (b b' : Builder) : Prop where
  heap : (untilDone takeNext es b).heap = (untilDone takeToken es b').heap
  lastNode : (untilDone takeNext es b).lastNode = (untilDone takeToken es b').lastNode
  level : (untilDone takeNext es b).elementLevel = (untilDone takeToken es b').elementLevel
  done : (untilDone takeNext es b).done = true
  next : LevelIsDepth takeNext depth es b
  token : LevelIsDepth takeToken depth es b'

lemma SameButError.done (hs : SameButError b b') : b'.done = b.done := by
  obtain ⟨error, rfl⟩ := hs
  rfl

lemma SameButError.elementLevel (hs : SameButError b b') : b'.elementLevel = b.elementLevel := by
  obtain ⟨error, rfl⟩ := hs
  rfl

/-- One event on which the routines do the same. -/
lemma agreeFrom_cons {depth : Option ℕ} (hdone : b.done = false) (hs : SameButError b b')
    (hs' : SameButError (takeNext b e) (takeToken b' e))
    (hlevel : ∀ d : ℕ, depthAfter depth e = some d → (takeNext b e).elementLevel = d) :
    AgreeFrom depth (e :: es) b b' ↔
      AgreeFrom (depthAfter depth e) es (takeNext b e) (takeToken b' e) := by
  have hdone' : b'.done = false := hs.done.trans hdone
  have hnext := @untilDone_cons b es takeNext e hdone
  have htoken := @untilDone_cons b' es takeToken e hdone'
  constructor
  · rintro ⟨hheap, hlast, hlev, hend, h1, h2⟩
    rw [hnext, htoken] at hheap hlast hlev
    rw [hnext] at hend
    exact ⟨hheap, hlast, hlev, hend, (h1 hdone).2, (h2 hdone').2⟩
  · rintro ⟨hheap, hlast, hlev, hend, h1, h2⟩
    rw [← hnext, ← htoken] at hheap hlast hlev
    rw [← hnext] at hend
    refine ⟨hheap, hlast, hlev, hend, fun _ => ⟨hlevel, h1⟩, fun _ => ⟨fun d hd => ?_, h2⟩⟩
    rw [hs'.elementLevel]
    exact hlevel d hd

/-- A builder that is done does nothing more. -/
lemma AgreeFrom.of_done {depth : Option ℕ} (hdone : b.done = true) (hs : SameButError b b') :
    AgreeFrom depth es b b' := by
  have hdone' : b'.done = true := hs.done.trans hdone
  have hnext := @untilDone_done b es takeNext hdone
  have htoken := @untilDone_done b' es takeToken hdone'
  obtain ⟨error, rfl⟩ := hs
  refine ⟨?_, ?_, ?_, ?_, levelIsDepth_done _ _ hdone, levelIsDepth_done _ _ hdone'⟩
  · rw [hnext, htoken]
  · rw [hnext, htoken]
  · rw [hnext, htoken]
  · rw [hnext]
    exact hdone

/-- Inside of the root the routines agree exactly when nothing fails before its end. -/
theorem Tracks.agreeFrom_iff (ht : Tracks b o) (hs : SameButError b b')
    (hopen : o.openNodes ≠ []) (hlevel : b.elementLevel = o.openNodes.length) :
    AgreeFrom (some o.openNodes.length) es b b' ↔
      Uneventful (some o.openNodes.length) es = true := by
  have hdone := ht.open_done hopen
  induction es generalizing b b' o with
  | nil =>
    refine ⟨fun hagree => ?_, fun h => by simp [Uneventful] at h⟩
    have := hagree.done
    simp [untilDone, hdone] at this
  | cons e es ih =>
    cases hfails : e.fails with
    | true =>
      refine ⟨fun hagree => ?_, fun h => by simp [Uneventful, hfails] at h⟩
      exfalso
      obtain ⟨last, hlast⟩ : ∃ last, b'.lastNode = some last := by
        obtain ⟨error, rfl⟩ := hs
        exact ⟨_, ht.lastNode⟩
      obtain ⟨hdepth, hoff⟩ := level_of_fails b hlast hfails o.openNodes.length
      have hnext := (hagree.next hdone).1 _ hdepth
      have htoken := (hagree.token (hs.done.trans hdone)).1 _ hdepth
      rw [hs.elementLevel] at hoff
      omega
    | false =>
      obtain ⟨o', ht', -, hdepth, hlevel'⟩ := ht.take hopen hfails
      have hs' : SameButError (takeNext b e) (takeToken b' e) := by
        have hsame := takeNext_sameButError e hs
        obtain ⟨error, rfl⟩ := hs
        obtain ⟨-, -, htoken, -, -⟩ := (ht.setError error).take hopen hfails
        rwa [htoken]
      have hlevel'' : (takeNext b e).elementLevel = o'.openNodes.length := by omega
      rw [agreeFrom_cons hdone hs hs' fun d hd => by
        rw [hlevel'', Option.some.inj (hdepth.symm.trans hd)]]
      simp only [Uneventful, hfails, Bool.not_false, Bool.true_and, hdepth]
      by_cases hclosed : o'.openNodes = []
      · have hend : (takeNext b e).done = true := by
          rw [ht'.done, hclosed]
          rfl
        simp only [hclosed, List.length_nil, beq_self_eq_true, Bool.true_or, iff_true]
        exact AgreeFrom.of_done hend hs'
      · have hne : (some o'.openNodes.length == some 0) = false := by
          simpa using hclosed
        rw [hne, Bool.false_or]
        exact ih ht' hs' hclosed hlevel'' (ht'.open_done hclosed)

end Inside

section Prolog

variable {b b' : Builder} {es : List Event}

lemma Blank.take_root (hb : Blank b) {root : Event} (hstarts : root.startsElement = true) :
    ∃ o, Tracks (takeNext b root) o ∧ (∀ b' : Builder, takeToken b' root = takeNext b' root) ∧
      depthAfter none root = some o.openNodes.length ∧
      (takeNext b root).elementLevel = b.elementLevel + o.openNodes.length := by
  cases root with
  | startElement tag =>
    obtain ⟨label, -, -, ht, hlevel⟩ := hb.startElement tag false
    exact ⟨_, ht, fun _ => rfl, rfl, hlevel⟩
  | emptyElement tag =>
    obtain ⟨label, -, ht, hlevel⟩ := hb.emptyElement tag !b.libxml2
    refine ⟨_, ht, fun _ => rfl, rfl, hlevel.trans ?_⟩
    simp [Outline.root]
  | _ => simp [Event.startsElement] at hstarts

/-- Before the root an event only changes the error and the level. -/
lemma Blank.take (hb : Blank b) (hs : SameButError b b') {e : Event}
    (hstarts : e.startsElement = false) (hcounts : e.prologLevels = 0) :
    SameButError (takeNext b e) (takeToken b' e) ∧
      (takeNext b e).elementLevel = b.elementLevel := by
  obtain ⟨error, rfl⟩ := hs
  obtain ⟨error', hnext⟩ := hb.pull hstarts
  obtain ⟨ok, error'', htoken⟩ := (hb.setError error).pullToken hstarts
  have hend : e ≠ .endElement := by
    rintro rfl
    simp [Event.prologLevels] at hcounts
  unfold takeNext takeToken
  rw [hnext, htoken]
  simp only [hcounts, hend, if_false, sub_zero]
  exact ⟨⟨error'', rfl⟩, trivial⟩

/-- A level below zero stays wrong. -/
lemma Blank.sunk (hb : Blank b) (hlevel : b.elementLevel < 0)
    (hnext : LevelIsDepth takeNext none es b) : (untilDone takeNext es b).done = false := by
  induction es generalizing b with
  | nil => exact hb.done
  | cons e es ih =>
    rw [untilDone_cons takeNext e hb.done]
    obtain ⟨hdepth, hrest⟩ := hnext hb.done
    cases hstarts : e.startsElement with
    | true =>
      exfalso
      obtain ⟨o, -, -, hd, hlevel'⟩ := hb.take_root hstarts
      have := hdepth _ hd
      omega
    | false =>
      have hlow : (takeNext b e).elementLevel < 0 := by
        obtain ⟨error, hpull⟩ := hb.pull hstarts
        have hcount : 0 ≤ e.prologLevels := by cases e <;> simp [Event.prologLevels]
        rw [takeNext, hpull]
        simp only
        omega
      have hnone : depthAfter none e = none := by
        cases e <;> first | rfl | simp [Event.startsElement] at hstarts
      rw [hnone] at hrest
      exact ih (hb.of_pull hstarts) hlow hrest

/-- From the first event on the routines agree exactly when the events are uneventful. -/
theorem Blank.agreeFrom_iff (hb : Blank b) (hs : SameButError b b')
    (hlevel : b.elementLevel = 0) :
    AgreeFrom none es b b' ↔ Uneventful none es = true := by
  induction es generalizing b b' with
  | nil =>
    refine ⟨fun hagree => ?_, fun h => by simp [Uneventful] at h⟩
    have := hagree.done
    simp [untilDone, hb.done] at this
  | cons e es ih =>
    cases hstarts : e.startsElement with
    | true =>
      obtain ⟨o, ht, htoken, hdepth, hlevel'⟩ := hb.take_root hstarts
      have hs' : SameButError (takeNext b e) (takeToken b' e) := by
        rw [htoken b']
        exact takeNext_sameButError e hs
      have hopen : (takeNext b e).elementLevel = o.openNodes.length := by omega
      rw [agreeFrom_cons hb.done hs hs' fun d hd => by
        rw [hopen, Option.some.inj (hdepth.symm.trans hd)], hdepth]
      cases e with
      | startElement tag =>
        have hone : o.openNodes.length = 1 := (Option.some.inj hdepth).symm
        have hne : o.openNodes ≠ [] := by
          rintro hnil
          simp [hnil] at hone
        have hiff := @Tracks.agreeFrom_iff _ _ _ es ht hs' hne hopen
        rw [hone] at hiff ⊢
        exact hiff
      | emptyElement tag =>
        have hzero : o.openNodes.length = 0 := (Option.some.inj hdepth).symm
        have hend : (takeNext b (.emptyElement tag)).done = true := by
          rw [ht.done, List.length_eq_zero_iff.mp hzero]
          rfl
        simp only [Uneventful, iff_true]
        exact AgreeFrom.of_done hend hs'
      | _ => simp [Event.startsElement] at hstarts
    | false =>
      have hnone : depthAfter none e = none := by
        cases e <;> first | rfl | simp [Event.startsElement] at hstarts
      by_cases hcounts : e.prologLevels = 0
      · obtain ⟨hs', hlevel'⟩ := hb.take hs hstarts hcounts
        have hun : Uneventful none (e :: es) = Uneventful none es := by
          cases e <;> first | rfl | simp [Event.startsElement, Event.prologLevels] at hstarts hcounts
        rw [agreeFrom_cons hb.done hs hs' fun d hd => by simp [hnone] at hd, hnone, hun]
        exact ih (hb.of_pull hstarts) hs' (hlevel'.trans hlevel)
      · have hun : Uneventful none (e :: es) = false := by
          cases e <;> first | rfl | simp [Event.prologLevels] at hcounts
        simp only [hun, Bool.false_eq_true, iff_false]
        intro hagree
        obtain ⟨-, hrest⟩ := hagree.next hb.done
        rw [hnone] at hrest
        have hlow : (takeNext b e).elementLevel < 0 := by
          obtain ⟨error, hpull⟩ := hb.pull hstarts
          have hcount : 0 ≤ e.prologLevels := by cases e <;> simp [Event.prologLevels]
          rw [takeNext, hpull]
          simp only
          omega
        have hend := hagree.done
        have hsunk : (untilDone takeNext es (takeNext b e)).done = false :=
          Blank.sunk (hb.of_pull hstarts) hlow hrest
        rw [untilDone_cons takeNext e hb.done, hsunk] at hend
        simp at hend

end Prolog

section Result

/-- The two pull routines agree exactly on the uneventful sequences. -/
theorem pulls_agree_iff (es : List Event) (libxml2 : Bool) :
    PullsAgree es (builderCreate libxml2) ↔ Uneventful none es = true := by
  rw [← (builderCreate_blank libxml2).agreeFrom_iff SameButError.rfl rfl]
  obtain ⟨error, hnext⟩ := @driveNext_eq (builderCreate libxml2) es _ (Nat.lt_succ_self _)
  have htoken := @driveToken_eq (builderCreate libxml2) es _ (Nat.lt_succ_self _)
  unfold PullsAgree
  simp only [hnext, htoken]
  constructor
  · rintro ⟨hheap, hlast, hdone, hlevel, h1, h2⟩
    exact ⟨hheap, hlast, hlevel, hdone, h1, h2⟩
  · rintro ⟨hheap, hlast, hlevel, hdone, h1, h2⟩
    exact ⟨hheap, hlast, hdone, hlevel, h1, h2⟩

/-- A comment in front of the root: the routine without token ends its level at -1, and
the other one at 0. -/
theorem comment_before_root :
    ¬ PullsAgree [.comment (some "c"), .emptyElement ⟨"r", none, [], []⟩] (builderCreate true) := by
  rintro ⟨-, -, -, hlevel, -⟩
  revert hlevel
  decide

end Result

end Axis2C.Om
