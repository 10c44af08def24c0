import Axis2C.GuththilaFrames
import Mathlib.Tactic

/-!
# What one call does

A call opens one element, closes one, or leaves the stacks as they are, as long
as the markup it finds is not of a kind on which the parser pushes or pops and
then fails.
-/
namespace Axis2C.Guththila
open StatefulRuns

variable {data : List UInt8}

/-! ### The clean up -/

def State.popEmpty (s : State) : State :=
  match s.event, s.elem with
  | some .emptyElement, elem :: rest =>
    { s with elem := rest, namesp := if elem.isNamesp then s.namesp.tail else s.namesp }
  | _, _ => s

def State.cleaned (s : State) : State :=
  { s.popEmpty with
    attrib := [], tempPrefix := none, tempName := none, tempTok := none
    name := none, pref := none, value := none }

lemma cleanUp_run {m : Parser} (h : m.state.event = some .emptyElement → m.state.elem ≠ []) :
    cleanUp m = .ok () ⟨m.input, m.state.cleaned⟩ := by
  refine (bind_ok (getState_run m)).trans ?_
  by_cases hempty : m.state.event = some .emptyElement
  · refine (run_ite_pos hempty).trans ?_
    cases helem : m.state.elem with
    | nil => exact absurd helem (h hempty)
    | cons elem rest =>
      refine (bind_ok (modifyState_run _ m)).trans ?_
      simp only [State.cleaned, State.popEmpty, hempty, helem]
      rfl
  · refine (run_ite_neg hempty).trans ?_
    have hsame : m.state.popEmpty = m.state := by
      unfold State.popEmpty
      split
      · next h _ => exact absurd h hempty
      · rfl
    simp only [State.cleaned, hsame]
    rfl

/-! ### Names that break off -/

/-- The input ends, or is in error, in front of a character that `stop` accepts. -/
def BreaksOff (data : List UInt8) (stop : ℤ → Bool) (p : Place) : Prop :=
  ∃ body p', Reads data p body p' ∧ (∀ b ∈ body, stop b.code = false) ∧ ReadsNone data p'

section Names

variable {T : State → Prop} {stop : ℤ → Bool}

/-- The fields that reading a name changes on the way are free. -/
def IgnoresName (T : State → Prop) : Prop :=
  ∀ s tok pref, T s → T { s with tempTok := tok, tempPrefix := pref }

lemma tokenClose_pref_keeps (hT : IgnoresName T) : Keeps (On data T) (tokenClose .pref) := by
  apply tokenCloseBack_keeps
  exact fun s tok h => hT s none (some tok) h

lemma nameLoop_keeps (hT : IgnoresName T) (fuel : ℕ) (c : ℤ) :
    Keeps (On data T) (nameLoop stop fuel c) := by
  induction fuel generalizing c with
  | zero => exact Keeps.throw _
  | succ fuel ih =>
    apply Keeps.ite (Keeps.pure _)
    apply Keeps.ite (Keeps.throw _)
    apply Keeps.ite
    · exact Keeps.bind nextChar_keeps ih
    · apply Keeps.bind (tokenClose_pref_keeps hT)
      intro _
      apply Keeps.bind nextChar_keeps
      intro c
      apply Keeps.bind (tokenOpen_keeps fun s start h => hT s (some start) s.tempPrefix h)
      exact fun _ => ih c

lemma readName_keeps (hT : IgnoresName T) {type : TokType}
    (hclose : ∀ s tok, T s → T (s.close tok type)) (fuel : ℕ) :
    Keeps (On data T) (readName stop type fuel) := by
  apply Keeps.bind (tokenOpen_keeps fun s start h => hT s (some start) s.tempPrefix h)
  intro _
  apply Keeps.bind nextChar_keeps
  intro c
  apply Keeps.bind (nameLoop_keeps hT fuel c)
  intro c
  exact Keeps.bind (tokenCloseBack_keeps 0 hclose) fun _ => Keeps.pure _

/-- A memory reader at a place. -/
def At (data : List UInt8) (T : State → Prop) (p : Place) (m : Parser) : Prop :=
  On data T m ∧ m.input.place = p

lemma tokenOpen_at (hT : IgnoresName T) (p : Place) :
    Holds (At data T p) tokenOpen (fun _ => At data T p) (On data T) :=
  fun m hm => ⟨⟨hm.1.1, hT m.state _ m.state.tempPrefix hm.1.2⟩, hm.2⟩

lemma tokenClose_at (hT : IgnoresName T) (p : Place) :
    Holds (At data T p) (tokenClose .pref) (fun _ => At data T p) (On data T) := by
  intro m hm
  cases htok : m.state.tempTok with
  | none =>
    have hrun : tokenClose .pref m = .error .fault m := by
      refine (bind_ok (getState_run m)).trans ?_
      rw [htok]
      rfl
    rw [hrun]
    exact hm.1
  | some start =>
    obtain ⟨tok, hclose⟩ := closePosition_ok hm.1.1 start 0
    have hrun : tokenClose .pref m =
        .ok () ⟨{ m.input with lastStart := none }, m.state.close tok .pref⟩ := by
      refine (bind_ok (getState_run m)).trans ?_
      rw [htok]
      have hread : reading (closePosition start 0) m =
          .ok tok ⟨{ m.input with lastStart := none }, m.state⟩ := by
        simp only [reading, hclose]
      exact bind_ok hread
    rw [hrun]
    exact ⟨⟨hm.1.1, hT m.state none (some tok) hm.1.2⟩, hm.2⟩

lemma nextChar_at {p p' : Place} {d : Ch} (hd : ReadsChar data p d p') :
    Holds (At data T p) (reading nextChar) (fun c m => c = d.code ∧ At data T p' m)
      (On data T) := by
  rintro m ⟨hm, rfl⟩
  obtain ⟨i, hrun, hi, hp⟩ := hd.run hm.1
  simp only [reading, hrun]
  exact ⟨trivial, ⟨hi, hm.2⟩, hp⟩

lemma nextChar_none {p : Place} (hnone : ReadsNone data p) :
    Holds (At data T p) (reading nextChar) (fun c m => c = -1 ∧ On data T m) (On data T) := by
  rintro m ⟨hm, rfl⟩
  obtain ⟨i, hrun, hi⟩ := hnone.run hm.1
  simp only [reading, hrun]
  exact ⟨trivial, hi, hm.2⟩

lemma nameLoop_last (hstop : stop (-1) = false) (fuel : ℕ) :
    Holds (On data T) (nameLoop stop fuel (-1)) (fun _ _ => False) (On data T) := by
  cases fuel with
  | zero => exact Holds.throw fun _ hm => hm
  | succ fuel =>
    apply Holds.ite (fun h => by rw [hstop] at h; cases h)
    exact fun _ => Holds.ite (fun _ => Holds.throw fun _ hm => hm) fun h => absurd rfl h

lemma nameLoop_breaks (hT : IgnoresName T) (hstop : stop (-1) = false) (fuel : ℕ) {c : Ch}
    {cs : List Ch} {p p' : Place} (hfound : c.code ≠ -1) (hread : Reads data p cs p')
    (hcs : ∀ b ∈ c :: cs, stop b.code = false) (hnone : ReadsNone data p') :
    Holds (At data T p) (nameLoop stop fuel c.code) (fun _ _ => False) (On data T) := by
  induction fuel generalizing c cs p with
  | zero => exact Holds.throw fun _ hm => hm.1
  | succ fuel ih =>
    apply Holds.ite
    · intro h
      rw [hcs c (List.mem_cons_self ..)] at h
      cases h
    intro _
    apply Holds.ite (fun h => absurd h hfound)
    intro _
    cases hread with
    | nil =>
      apply Holds.ite
      · intro _
        apply Holds.bind (nextChar_none hnone)
        rintro _ m ⟨rfl, hm⟩
        exact nameLoop_last hstop fuel m hm
      · intro _
        apply Holds.bind (tokenClose_at hT p')
        intro _
        apply Holds.bind (nextChar_none hnone)
        rintro _ m ⟨rfl, hm⟩
        exact Holds.bind (tokenOpen_keeps fun s start h => hT s (some start) s.tempPrefix h)
          (fun _ => nameLoop_last hstop fuel) m hm
    | @cons _ q _ d cs hd hread =>
      have hcs' : ∀ b ∈ d :: cs, stop b.code = false :=
        fun b hb => hcs b (List.mem_cons_of_mem _ hb)
      apply Holds.ite
      · intro _
        apply Holds.bind (nextChar_at hd)
        rintro _ m ⟨rfl, hm⟩
        exact ih hd.found hread hcs' m hm
      · intro _
        apply Holds.bind (tokenClose_at hT p)
        intro _
        apply Holds.bind (nextChar_at hd)
        rintro _ m ⟨rfl, hm⟩
        exact Holds.bind (tokenOpen_at hT q) (fun _ => ih hd.found hread hcs') m hm

lemma readName_breaks (hT : IgnoresName T) (hstop : stop (-1) = false) (type : TokType) (fuel : ℕ)
    {p : Place} (h : BreaksOff data stop p) :
    Holds (At data T p) (readName stop type fuel) (fun _ _ => False) (On data T) := by
  obtain ⟨body, p', hread, hbody, hnone⟩ := h
  apply Holds.bind (tokenOpen_at hT p)
  intro _
  cases hread with
  | nil =>
    apply Holds.bind (nextChar_none hnone)
    rintro _ m ⟨rfl, hm⟩
    exact Holds.bind (nameLoop_last hstop fuel) (fun _ _ h => h.elim) m hm
  | @cons _ q _ d cs hd hread =>
    apply Holds.bind (nextChar_at hd)
    rintro _ m ⟨rfl, hm⟩
    exact Holds.bind (nameLoop_breaks hT hstop fuel hd.found hread hbody hnone)
      (fun _ _ h => h.elim) m hm

end Names

/-! ### Markup -/

abbrev TagProp := QName → List RawAttribute → Event → Prop

/-- The prefixes of the tag pass the check of the parser. -/
def Validated (s : State) : TagProp := fun q attrs event =>
  validateNamespaces ((s.openTag q).endOfTag attrs event) = true

lemma Validated.reply {s : State} {q : QName} {attrs : List RawAttribute} {event : Event}
    (h : Validated s q attrs event) :
    tagReply ((s.openTag q).endOfTag attrs event) event = .event event :=
  if_pos h

/-- A complete start tag or empty element behind `first`. -/
def CompleteTag (data : List UInt8) (tag : TagProp) (first : Ch) (p : Place) : Prop :=
  ∃ text q attrs event p', StartTagText first text q attrs event ∧ Reads data p text p' ∧
    tag q attrs event

/-- A complete end tag behind `first` that names the element on top of the stack. -/
def CompleteEndTag (data : List UInt8) (s : State) (first : Ch) (p : Place) : Prop :=
  ∃ body spaces gt p' elem rest, (∀ b ∈ body, endTagStop b.code = false) ∧ Spaces spaces ∧
    gt.code = ch '>' ∧ Reads data p (body ++ (spaces ++ [gt])) p' ∧ s.elem = elem :: rest ∧
    elem.name = some (qname first body).name ∧ elem.pref = (qname first body).pref

/-- What may follow `<`. A tag has a name. A start tag whose name is complete is
complete itself and meets `tag`; an end tag whose name is complete closes the
element on top of the stack. -/
structure MarkupOk (data : List UInt8) (s : State) (tag : TagProp) (p : Place) : Prop where
  named : ∀ c p', ReadsChar data p c p' → isSpaceChar c.code = false ∧ c.code ≠ ch '>'
  startTag : ∀ c p', ReadsChar data p c p' → isValidStartingChar c.code = true →
    BreaksOff data startTagStop p' ∨ CompleteTag data tag c p'
  endTag : ∀ c p', ReadsChar data p c p' → c.code = ch '/' →
    ∀ first p₁, ReadsChar data p' first p₁ → isValidStartingChar first.code = true →
      s.elem = [] ∨ BreaksOff data endTagStop p₁ ∨ CompleteEndTag data s first p₁

lemma MarkupOk.mono {s : State} {tag tag' : TagProp} {p : Place} (h : MarkupOk data s tag p)
    (htag : ∀ first text q attrs event p' p'', ReadsChar data p first p' →
      StartTagText first text q attrs event → Reads data p' text p'' → tag q attrs event →
      tag' q attrs event) : MarkupOk data s tag' p where
  named := h.named
  startTag := by
    intro c p' hc hvalid
    rcases h.startTag c p' hc hvalid with hbreak | ⟨text, q, attrs, event, p'', htext, hread, hq⟩
    · exact Or.inl hbreak
    · exact Or.inr ⟨text, q, attrs, event, p'', htext, hread,
        htag c text q attrs event p' p'' hc htext hread hq⟩
  endTag := h.endTag

/-- What a call does to the stacks, from the fields `s` it starts with. -/
inductive Effect (tag : TagProp) (s : State) : Reply → State → Prop
  | quiet {r : Reply} {s' : State} : r.Quiet → Untouched s.elem s.namesp s' → Effect tag s r s'
  | opens {q : QName} {attrs : List RawAttribute} {event : Event} :
      event = .startElement ∨ event = .emptyElement → tag q attrs event →
      Effect tag s (tagReply ((s.openTag q).endOfTag attrs event) event)
        ((s.openTag q).endOfTag attrs event)
  | closes {q : QName} {elem : Element} {rest : List Element} : s.elem = elem :: rest →
      elem.name = some q.name → elem.pref = q.pref →
      Effect tag s (.event .endElement) (s.closeTag q elem rest)

/-- The end of a call with one of these effects, if it returns. -/
def Does (data : List UInt8) (tag : TagProp) (s : State) : EStateM.Result Exit Parser Reply → Prop
  | .ok reply m => OnData data m.input ∧ Effect tag s reply m.state
  | .error .returned m => OnData data m.input ∧ Effect tag s .failed m.state
  | .error _ _ => True

section Effects

variable {tag : TagProp} {elem : List Element} {namesp : List (List Namespace)}
variable {m : Parser} {s : State} {c : ℤ} {p : Place}

lemma Does.error (h : On data (Untouched s.elem s.namesp) m) (e : Exit) :
    Does data tag s (.error e m) := by
  cases e with
  | returned => exact ⟨h.1, .quiet quiet_failed h.2⟩
  | fault | outsideBuffer | badRequest | outOfFuel => trivial

lemma Does.of_holds {s : State} {P : Parser → Prop} {p : Parse Reply}
    (h : Holds P p (fun r m => r.Quiet ∧ On data (Untouched s.elem s.namesp) m)
      (On data (Untouched s.elem s.namesp))) {m : Parser} (hm : P m) : Does data tag s (p m) := by
  have hrun := h m hm
  cases hpm : p m with
  | ok r m' =>
    rw [hpm] at hrun
    exact ⟨hrun.2.1, .quiet hrun.1 hrun.2.2⟩
  | error e m' =>
    rw [hpm] at hrun
    exact Does.error hrun e

lemma Does.of_arrives {s s' : State} {short : Prop} {r : Parse Reply} {P : Parser → Prop}
    {reply : Reply} (h : Arrives short P r reply (Here data p s')) {m : Parser} (hm : P m)
    (heffect : Effect tag s reply s') : Does data tag s (r m) := by
  rcases h.result hm with ⟨m', hok, hi, -, rfl⟩ | ⟨-, m', hexit⟩
  · rw [hok]
    exact ⟨hi, heffect⟩
  · rw [hexit]
    trivial

lemma untouched_ignoresName : IgnoresName (Untouched elem namesp) :=
  fun _ _ _ h => ⟨h.elem, h.namesp, h.stale⟩

lemma attributes_passes (fuel : ℕ) (old : ℤ) (hstart : isValidStartingChar c = false)
    (hend : c ≠ ch '>') (hslash : c ≠ ch '/') :
    Passes data elem namesp (attributes fuel old c) := by
  cases fuel with
  | zero => exact Passes.throw _
  | succ fuel =>
    apply Holds.ite (fun h => absurd h hslash)
    intro _
    apply Holds.ite (fun h => absurd h hend)
    intro _
    apply Holds.ite (fun h => by rw [hstart] at h; cases h)
    exact fun _ => Passes.pure quiet_failed

lemma startTag_passes (fuel : ℕ) (hstart : isValidStartingChar c = false)
    (hspace : isSpaceChar c = false) (hend : c ≠ ch '>') (hslash : c ≠ ch '/') :
    Passes data elem namesp (startTag fuel c) := by
  apply Holds.ite (fun h => by rw [hstart] at h; cases h)
  intro _
  apply Holds.bind (Q := fun d m => d = c ∧ On data (SameStacks elem namesp) m)
  · cases fuel with
    | zero => exact Holds.throw fun _ hm => hm.untouched
    | succ fuel =>
      apply Holds.ite (fun h => by rw [hspace] at h; cases h)
      exact fun _ => Holds.pure fun _ hm => ⟨rfl, hm⟩
  · rintro _ m ⟨rfl, hm⟩
    exact attributes_passes fuel 0 hstart hend hslash m hm

lemma startTag_breaks (fuel : ℕ) {c : ℤ} (hstart : isValidStartingChar c = true) {p : Place}
    (hbreak : BreaksOff data startTagStop p) :
    Holds (At data (Untouched elem namesp) p) (startTag fuel c)
      (fun r m => r.Quiet ∧ On data (Untouched elem namesp) m) (On data (Untouched elem namesp)) := by
  apply Holds.ite
  · intro _
    exact Holds.bind (readName_breaks untouched_ignoresName (by decide) .name fuel hbreak)
      fun _ _ h => h.elim
  · exact fun h => absurd hstart h

/-- An end tag without an open element. -/
structure NoneOpen (namesp : List (List Namespace)) (s : State) : Prop where
  elem : s.elem = []
  namesp : s.namesp = namesp
  event : s.event = some .endElement

lemma NoneOpen.untouched (h : NoneOpen namesp s) : Untouched [] namesp s :=
  ⟨h.elem, h.namesp, fun hevent => by rw [h.event] at hevent; cases hevent⟩

lemma popElement_none (fuel : ℕ) (c : ℤ) :
    Holds (On data (NoneOpen namesp)) (popElement fuel c)
      (fun r m => r.Quiet ∧ On data (Untouched [] namesp) m) (On data (Untouched [] namesp)) := by
  intro m hm
  have hrun : popElement fuel c m = .ok .failed m := by
    refine (bind_ok (getState_run m)).trans ?_
    rw [hm.2.elem]
    rfl
  rw [hrun]
  exact ⟨quiet_failed, hm.1, hm.2.untouched⟩

lemma readName_noneOpen (fuel : ℕ) :
    Keeps (On data (NoneOpen namesp)) (readName endTagStop .name fuel) :=
  readName_keeps (fun _ _ _ h => ⟨h.elem, h.namesp, h.event⟩)
    (fun _ _ h => ⟨h.elem, h.namesp, h.event⟩) fuel

lemma endTag_run (fuel : ℕ) {m : Parser} {c : ℤ} {i : Input} (h : nextChar m.input = .ok c i) :
    endTag fuel m = (if isValidStartingChar c then readName endTagStop .name fuel >>= popElement fuel
      else return .failed) ⟨i, { m.state with event := some .endElement }⟩ := by
  refine (bind_ok (modifyState_run _ m)).trans (bind_ok ?_)
  simp only [reading, h]

lemma endTag_does (fuel : ℕ) {m : Parser} (hm : OnData data m.input)
    (hready : m.input.decoder.Ready) (hpref : m.state.tempPrefix = none)
    (hok : ∀ first p, ReadsChar data m.input.place first p → isValidStartingChar first.code = true →
      m.state.elem = [] ∨ BreaksOff data endTagStop p ∨ CompleteEndTag data m.state first p) :
    Does data tag m.state (endTag fuel m) := by
  have hends : Untouched m.state.elem m.state.namesp { m.state with event := some .endElement } :=
    ⟨rfl, rfl, fun h => by cases h⟩
  rcases readsChar_or_none data (p := m.input.place) hm.2.2 hready with hnone | ⟨first, p, hfirst⟩
  · obtain ⟨i, hrun, hi⟩ := hnone.run hm
    rw [endTag_run fuel hrun, run_ite_neg (by decide)]
    exact ⟨hi, .quiet quiet_failed hends⟩
  · obtain ⟨i, hrun, hi, hp⟩ := hfirst.run hm
    by_cases hvalid : isValidStartingChar first.code = true
    · rcases hok first p hfirst hvalid with helem | hbreak | hcomplete
      · rw [endTag_run fuel hrun, run_ite_pos hvalid]
        apply Does.of_holds (P := On data (NoneOpen m.state.namesp))
        · rw [helem]
          exact Holds.bind ((readName_noneOpen fuel).mono (fun _ h => h) (fun _ _ h => h)
            fun _ h => ⟨h.1, h.2.untouched⟩) (popElement_none fuel)
        · exact ⟨hi, helem, rfl, rfl⟩
      · rw [endTag_run fuel hrun, run_ite_pos hvalid]
        apply Does.of_holds (Holds.bind (readName_breaks untouched_ignoresName (by decide) .name fuel
          hbreak) fun _ _ h => h.elim)
        exact ⟨⟨hi, hends⟩, hp⟩
      · obtain ⟨body, spaces, gt, p', elem, rest, hbody, hspaces, hgt, hread, helem, hname, hpref'⟩ :=
          hcomplete
        exact Does.of_arrives (endTag_arrives hvalid hbody hspaces hgt hm.2.2
          (reads_cons.mpr ⟨p, hfirst, hread⟩) hpref helem hname hpref' fun h => h)
          ⟨hm, rfl, rfl⟩ (.closes helem hname hpref')
    · rw [endTag_run fuel hrun, run_ite_neg hvalid]
      exact ⟨hi, .quiet quiet_failed hends⟩

lemma startTag_does (fuel : ℕ) {c : Ch} (hm : OnData data m.input)
    (hc : ReadsChar data p c m.input.place) (hpref : m.state.tempPrefix = none)
    (hname : m.state.name = none) (hvalid : isValidStartingChar c.code = true)
    (hok : BreaksOff data startTagStop m.input.place ∨ CompleteTag data tag c m.input.place) :
    Does data tag m.state (startTag fuel c.code m) := by
  rcases hok with hbreak | ⟨text, q, attrs, event, p', htext, hread, htag⟩
  · exact Does.of_holds (startTag_breaks fuel hvalid hbreak) ⟨⟨hm, rfl, rfl, fun _ => hname⟩, rfl⟩
  · exact Does.of_arrives (startTag_arrives htext hm.2.2 hc hread hpref fun h => h)
      ⟨hm, rfl, rfl⟩ (.opens htext.event htag)

lemma markup_run (fuel : ℕ) {i : Input} (h : nextChar m.input = .ok c i) :
    markup fuel m = (if c = ch '/' then endTag fuel
      else if c = ch '!' then declaration fuel
      else if c = ch '?' then processXmlDec fuel
      else startTag fuel c) ⟨i, m.state⟩ := by
  refine bind_ok ?_
  simp only [reading, h]

lemma markup_does (fuel : ℕ) {m : Parser} (hm : OnData data m.input)
    (hready : m.input.decoder.Ready) (hpref : m.state.tempPrefix = none)
    (hname : m.state.name = none) (hok : MarkupOk data m.state tag m.input.place) :
    Does data tag m.state (markup fuel m) := by
  have hstacks : SameStacks m.state.elem m.state.namesp m.state := ⟨⟨rfl, rfl, fun _ => hname⟩, hpref⟩
  rcases readsChar_or_none data (p := m.input.place) hm.2.2 hready with hnone | ⟨c, p, hc⟩
  · obtain ⟨i, hrun, hi⟩ := hnone.run hm
    rw [markup_run fuel hrun, run_ite_neg (by decide), run_ite_neg (by decide),
      run_ite_neg (by decide)]
    exact Does.of_holds (startTag_passes fuel (by decide) (by decide) (by decide) (by decide))
      ⟨hi, hstacks⟩
  · obtain ⟨i, hrun, hi, hp⟩ := hc.run hm
    have hiready : i.decoder.Ready := by
      have hdecoder : i.decoder = p.decoder := congrArg Place.decoder hp
      rw [hdecoder]
      exact hc.ready
    rw [markup_run fuel hrun]
    by_cases hslash : c.code = ch '/'
    · rw [run_ite_pos hslash]
      apply endTag_does fuel (m := ⟨i, m.state⟩) hi hiready hpref
      intro first p₁ hfirst
      exact hok.endTag c p hc hslash first p₁ (hp ▸ hfirst)
    rw [run_ite_neg hslash]
    by_cases hbang : c.code = ch '!'
    · rw [run_ite_pos hbang]
      exact Does.of_holds (declaration_passes fuel) ⟨hi, hstacks⟩
    rw [run_ite_neg hbang]
    by_cases hquestion : c.code = ch '?'
    · rw [run_ite_pos hquestion]
      exact Does.of_holds (processXmlDec_passes fuel) ⟨hi, hstacks⟩
    rw [run_ite_neg hquestion]
    by_cases hvalid : isValidStartingChar c.code = true
    · exact startTag_does fuel (m := ⟨i, m.state⟩) hi (hp ▸ hc) hpref hname hvalid
        (hp ▸ hok.startTag c p hc hvalid)
    · obtain ⟨hspace, hend⟩ := hok.named c p hc
      exact Does.of_holds (startTag_passes fuel (by simpa using hvalid) hspace hend hslash)
        ⟨hi, hstacks⟩

/-! ### Calls -/

/-- `p` is behind the `<` that the call comes to, after white space in front of
the document. -/
def AtMarkup (data : List UInt8) (m : Parser) (p : Place) : Prop :=
  ∃ spaces lt, (m.state.status = .s2 → spaces = []) ∧ (∀ s ∈ spaces, isspace s.code = true) ∧
    lt.code = ch '<' ∧ Reads data m.input.place (spaces ++ [lt]) p

def State.atMarkup (s : State) : State := { s.cleaned with status := .s2 }

lemma atMarkup_of_not_s1 {s : State} (h : ¬ s.cleaned.status = .s1) : s.atMarkup = s.cleaned := by
  have hs2 : s.cleaned.status = .s2 := by
    cases hstatus : s.cleaned.status with
    | s1 => exact absurd hstatus h
    | s2 => rfl
  rw [State.atMarkup, ← hs2]

/-- `c` is the character read last, behind white space from `p` on. -/
def Skipped (data : List UInt8) (s : State) (p : Place) (c : ℤ) (m : Parser) : Prop :=
  On data (fun s' => s' = s) m ∧ (c ≠ -1 → c < 128 → ∃ spaces d,
    (∀ s ∈ spaces, isspace s.code = true) ∧ d.code = c ∧
      Reads data p (spaces ++ [d]) m.input.place)

lemma leadingSpace_skipped (s : State) (p : Place) (fuel : ℕ) (c : ℤ) :
    Holds (Skipped data s p c) (leadingSpace fuel c) (Skipped data s p)
      (On data fun s' => s' = s) := by
  induction fuel generalizing c with
  | zero => exact Holds.throw fun _ hm => hm.1
  | succ fuel ih =>
    apply Holds.ite
    · intro hspace
      apply Holds.bind (Q := Skipped data s p)
      · intro m hm
        have hc : c ≠ -1 ∧ c < 128 := by
          simp only [isspace, decide_eq_true_eq] at hspace
          omega
        obtain ⟨spaces, d, hspaces, hd, hread⟩ := hm.2 hc.1 hc.2
        have hnext := nextChar_ascii m.input.place m ⟨hm.1, rfl⟩
        cases hrun : reading nextChar m with
        | error e m' => rw [hrun] at hnext; exact hnext
        | ok c' m' =>
          rw [hrun] at hnext
          refine ⟨hnext.1, fun hfound hascii => ?_⟩
          obtain ⟨d', hd', hchar, -⟩ := hnext.2 hfound hascii
          refine ⟨spaces ++ [d], d', ?_, hd', ?_⟩
          · intro s hs
            rcases List.mem_append.mp hs with hs | hs
            · exact hspaces s hs
            · rw [List.mem_singleton.mp hs, hd]
              exact hspace
          · exact reads_append.mpr ⟨_, hread, .cons hchar (.nil _)⟩
      · intro c'
        exact Holds.ite (fun _ => Holds.throw fun _ hm => hm.1) fun _ => ih c'
    · exact fun _ => Holds.pure fun _ hm => hm

lemma reads_last_ready {p p' : Place} {cs : List Ch} {d : Ch}
    (h : Reads data p (cs ++ [d]) p') : p'.decoder.Ready := by
  obtain ⟨q, -, hd⟩ := reads_append.mp h
  obtain ⟨r, hchar, hnil⟩ := reads_cons.mp hd
  cases hnil
  exact hchar.ready

lemma AtMarkup.ready {p : Place} (h : AtMarkup data m p) : p.decoder.Ready := by
  obtain ⟨spaces, lt, -, -, -, hread⟩ := h
  exact reads_last_ready hread

/-- What a call does behind its clean-up: it comes to markup or to text, or it ends there. -/
inductive NextBody (data : List UInt8) (fuel : ℕ) (m : Parser) : Prop
  | markup (i : Input) : OnData data i → AtMarkup data m i.place →
      nextBody fuel m = Guththila.markup fuel ⟨i, m.state.atMarkup⟩ → NextBody data fuel m
  | text (i : Input) (c : ℤ) : OnData data i →
      nextBody fuel m = Guththila.text fuel c ⟨i, m.state.cleaned⟩ → NextBody data fuel m
  | failed (i : Input) : OnData data i → nextBody fuel m = .ok .failed ⟨i, m.state.cleaned⟩ →
      NextBody data fuel m
  | exits (i : Input) (e : Exit) : OnData data i →
      nextBody fuel m = .error e ⟨i, m.state.cleaned⟩ → NextBody data fuel m

lemma nextBody_cases (fuel : ℕ) (hm : OnData data m.input)
    (hpop : m.state.event = some .emptyElement → m.state.elem ≠ []) : NextBody data fuel m := by
  have hchar := nextChar_ascii (T := fun s => s = m.state.cleaned) m.input.place
    ⟨m.input, m.state.cleaned⟩ ⟨⟨hm, rfl⟩, rfl⟩
  have hbody := nextBody.eq_1 fuel ▸ bind_ok (cleanUp_run hpop)
  cases hrun : reading nextChar ⟨m.input, m.state.cleaned⟩ with
  | error e m₁ =>
    rw [hrun] at hchar
    obtain ⟨i, s⟩ := m₁
    obtain rfl : s = m.state.cleaned := hchar.2
    exact .exits i e hchar.1 (hbody.trans (bind_error hrun))
  | ok c m₁ =>
    rw [hrun] at hchar
    obtain ⟨⟨hm₁, hstate⟩, hread⟩ := hchar
    obtain ⟨i, s⟩ := m₁
    obtain rfl : s = m.state.cleaned := hstate
    rw [bind_ok hrun, bind_ok (getState_run _)] at hbody
    have hstatus : m.state.cleaned.status = m.state.status := by
      simp only [State.cleaned, State.popEmpty]
      split <;> rfl
    by_cases hs1 : m.state.cleaned.status = .s1
    · rw [run_ite_pos hs1] at hbody
      have hspace := leadingSpace_skipped m.state.cleaned m.input.place fuel c ⟨i, _⟩
        ⟨⟨hm₁, rfl⟩, fun hfound hascii => by
          obtain ⟨d, hd, hchar, -⟩ := hread hfound hascii
          exact ⟨[], d, by simp, hd, .cons hchar (.nil _)⟩⟩
      cases hrun' : leadingSpace fuel c ⟨i, m.state.cleaned⟩ with
      | error e m₂ =>
        rw [hrun'] at hspace
        obtain ⟨i₂, s⟩ := m₂
        obtain rfl : s = m.state.cleaned := hspace.2
        exact .exits i₂ e hspace.1 (hbody.trans (bind_error hrun'))
      | ok c' m₂ =>
        rw [hrun'] at hspace
        obtain ⟨⟨hm₂, hstate⟩, hread⟩ := hspace
        obtain ⟨i₂, s⟩ := m₂
        obtain rfl : s = m.state.cleaned := hstate
        rw [bind_ok hrun'] at hbody
        by_cases hlt : c' = ch '<'
        · rw [run_ite_pos hlt, bind_ok (modifyState_run _ _)] at hbody
          obtain ⟨spaces, d, hspaces, hd, hreads⟩ :=
            hread (by rw [hlt]; decide) (by rw [hlt]; decide)
          refine .markup i₂ hm₂ ⟨spaces, d, fun hs2 => ?_, hspaces, hd.trans hlt, hreads⟩ hbody
          rw [← hstatus, hs1] at hs2
          cases hs2
        · exact .failed i₂ hm₂ (hbody.trans (run_ite_neg hlt))
    · rw [run_ite_neg hs1] at hbody
      by_cases hlt : c = ch '<'
      · rw [run_ite_pos hlt] at hbody
        obtain ⟨d, hd, hchar, -⟩ := hread (by rw [hlt]; decide) (by rw [hlt]; decide)
        rw [← atMarkup_of_not_s1 hs1] at hbody
        exact .markup i hm₁ ⟨[], d, fun _ => rfl, by simp, hd.trans hlt, .cons hchar (.nil _)⟩ hbody
      rw [run_ite_neg hlt] at hbody
      by_cases hend : c = -1
      · exact .failed i hm₁ (hbody.trans (run_ite_pos hend))
      · exact .text i c hm₁ (hbody.trans (run_ite_neg hend))

lemma nextBody_does (fuel : ℕ) (hm : OnData data m.input)
    (hpop : m.state.event = some .emptyElement → m.state.elem ≠ [])
    (hok : ∀ p, AtMarkup data m p → MarkupOk data m.state.atMarkup tag p) :
    Does data tag m.state.atMarkup (nextBody fuel m) := by
  have hquiet : Untouched m.state.atMarkup.elem m.state.atMarkup.namesp m.state.cleaned :=
    ⟨rfl, rfl, fun _ => rfl⟩
  rcases nextBody_cases fuel hm hpop with ⟨i, hi, hat, hrun⟩ | ⟨i, c, hi, hrun⟩ | ⟨i, hi, hrun⟩ |
    ⟨i, e, hi, hrun⟩ <;> rw [hrun]
  · exact markup_does fuel (m := ⟨i, m.state.atMarkup⟩) hi hat.ready rfl rfl (hok _ hat)
  · exact Does.of_holds (text_passes fuel c) ⟨hi, hquiet, rfl⟩
  · exact ⟨hi, .quiet quiet_failed hquiet⟩
  · exact Does.error ⟨hi, hquiet⟩ e

/-! ### Markup that comes next -/

lemma isspace_lt : isspace (ch '<') = false := by decide

/-- The white space ends at the `<`. -/
lemma reads_lt_unique {spaces spaces' : List Ch} {lt lt' : Ch} {p q q' : Place}
    (hspaces : ∀ s ∈ spaces, isspace s.code = true) (hspaces' : ∀ s ∈ spaces', isspace s.code = true)
    (hlt : lt.code = ch '<') (hlt' : lt'.code = ch '<') (h : Reads data p (spaces ++ [lt]) q)
    (h' : Reads data p (spaces' ++ [lt']) q') : q = q' := by
  induction spaces generalizing spaces' p with
  | nil =>
    obtain ⟨r, hchar, hnil⟩ := reads_cons.mp h
    cases hnil
    cases spaces' with
    | nil =>
      obtain ⟨r', hchar', hnil'⟩ := reads_cons.mp h'
      cases hnil'
      exact (hchar.unique hchar').2
    | cons s spaces' =>
      obtain ⟨r', hchar', -⟩ := reads_cons.mp h'
      obtain ⟨rfl, -⟩ := hchar.unique hchar'
      have hspace := hspaces' lt (List.mem_cons_self ..)
      rw [hlt, isspace_lt] at hspace
      cases hspace
  | cons s spaces ih =>
    obtain ⟨r, hchar, hrest⟩ := reads_cons.mp h
    cases spaces' with
    | nil =>
      obtain ⟨r', hchar', -⟩ := reads_cons.mp h'
      obtain ⟨rfl, -⟩ := hchar.unique hchar'
      have hspace := hspaces s (List.mem_cons_self ..)
      rw [hlt', isspace_lt] at hspace
      cases hspace
    | cons s' spaces' =>
      obtain ⟨r', hchar', hrest'⟩ := reads_cons.mp h'
      obtain ⟨-, rfl⟩ := hchar.unique hchar'
      exact ih (fun s hs => hspaces s (List.mem_cons_of_mem _ hs))
        (fun s hs => hspaces' s (List.mem_cons_of_mem _ hs)) hrest hrest'

lemma AtMarkup.unique {p q : Place} (h : AtMarkup data m p) (h' : AtMarkup data m q) :
    p = q := by
  obtain ⟨spaces, lt, -, hspaces, hlt, hread⟩ := h
  obtain ⟨spaces', lt', -, hspaces', hlt', hread'⟩ := h'
  exact reads_lt_unique hspaces hspaces' hlt hlt' hread hread'

lemma atMarkup_of_readsChar {lt : Ch} (hlt : ReadsChar data m.input.place lt p)
    (hcode : lt.code = ch '<') : AtMarkup data m p :=
  ⟨[], lt, fun _ => rfl, by simp, hcode, .cons hlt (.nil p)⟩

lemma markupOk_of_startTag {c : Ch} {p p' : Place} (hc : ReadsChar data p c p')
    (hvalid : isValidStartingChar c.code = true) (h : CompleteTag data tag c p') :
    MarkupOk data s tag p where
  named := by
    intro d q hd
    obtain ⟨rfl, -⟩ := hd.unique hc
    constructor
    · by_contra hspace
      simp only [Bool.not_eq_false, isSpaceChar, decide_eq_true_eq] at hspace
      rcases hspace with h | h | h | h <;> rw [h] at hvalid <;> revert hvalid <;> decide
    · intro hend
      rw [hend] at hvalid
      exact absurd hvalid (by decide)
  startTag := by
    intro d q hd _
    obtain ⟨rfl, rfl⟩ := hd.unique hc
    exact Or.inr h
  endTag := by
    intro d q hd hslash
    obtain ⟨rfl, -⟩ := hd.unique hc
    rw [hslash] at hvalid
    exact absurd hvalid (by decide)

lemma markupOk_of_endTag {c first : Ch} {p p' p₁ : Place} (hc : ReadsChar data p c p')
    (hslash : c.code = ch '/') (hfirst : ReadsChar data p' first p₁)
    (h : CompleteEndTag data s first p₁) : MarkupOk data s tag p where
  named := by
    intro d q hd
    obtain ⟨rfl, -⟩ := hd.unique hc
    rw [hslash]
    decide
  startTag := by
    intro d q hd hvalid
    obtain ⟨rfl, -⟩ := hd.unique hc
    rw [hslash] at hvalid
    exact absurd hvalid (by decide)
  endTag := by
    intro d q hd _ first' q₁ hfirst' _
    obtain ⟨-, rfl⟩ := hd.unique hc
    obtain ⟨rfl, rfl⟩ := hfirst'.unique hfirst
    exact Or.inr (Or.inr h)

theorem next_effect {fuel : ℕ} {m m' : Parser} {reply : Reply} (hm : OnData data m.input)
    (hpop : m.state.event = some .emptyElement → m.state.elem ≠ [])
    (hok : ∀ p, AtMarkup data m p → MarkupOk data m.state.atMarkup tag p)
    (hnext : next fuel m = .returned reply m') :
    OnData data m'.input ∧ Effect tag m.state.atMarkup reply m'.state := by
  have hdoes := nextBody_does fuel hm hpop hok
  unfold next at hnext
  split at hnext
  · next reply' m'' hrun =>
      obtain ⟨rfl, rfl⟩ := Outcome.returned.inj hnext
      rw [hrun] at hdoes
      exact hdoes
  · next m'' hrun =>
      obtain ⟨rfl, rfl⟩ := Outcome.returned.inj hnext
      rw [hrun] at hdoes
      exact hdoes
  · cases hnext

end Effects

end Axis2C.Guththila
