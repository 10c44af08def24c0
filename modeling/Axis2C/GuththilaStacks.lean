import Axis2C.GuththilaCalls
import Mathlib.Tactic

/-!
# The stack of open elements

Runs of `guththila_next` on a document in memory, with calls after a failure
too. The elements on the stack are compared with the ones that the events
returned so far leave open.
-/
namespace Axis2C.Guththila
open StatefulRuns

/-- A prefix and a local name. -/
abbrev Key := Option Token × Option Token

def Element.key (elem : Element) : Key := (elem.pref, elem.name)

/-- What a caller sees of a call: the reply, the prefix and the local name. -/
structure Call where
  reply : Reply
  key : Key
  deriving Repr, DecidableEq

/-- Calls on a document, the last one first. Before each call the parser meets `ok`. -/
inductive Calls (data : List UInt8) (ok : Parser → Prop) : List Call → Parser → Prop
  | init : Calls data ok [] (initMemory data)
  | call {calls : List Call} {m m' : Parser} {fuel : ℕ} {reply : Reply} :
      Calls data ok calls m → ok m → next fuel m = .returned reply m' →
      Calls data ok (⟨reply, m'.state.pref, m'.state.name⟩ :: calls) m'

/-! ### The events as the caller reads them -/

/-- An empty element is closed by the next call. -/
def stillOpen {α : Type} : List Call → List α → List α
  | [], opened => opened
  | c :: _, opened => if c.reply = .event .emptyElement then opened.tail else opened

def openElements : List Call → List Key
  | [] => []
  | c :: calls =>
    match c.reply with
    | .event .startElement => c.key :: stillOpen calls (openElements calls)
    | .event .emptyElement => c.key :: stillOpen calls (openElements calls)
    | .event .endElement => (stillOpen calls (openElements calls)).tail
    | _ => stillOpen calls (openElements calls)

def eventCount (event : Event) (calls : List Call) : ℕ :=
  calls.countP fun c => c.reply = .event event

def eventDepth (calls : List Call) : ℤ :=
  eventCount .startElement calls + eventCount .emptyElement calls -
    eventCount .endElement calls - eventCount .emptyElement calls.tail

/-- Stack and events agree. -/
structure Disciplined (calls : List Call) (m : Parser) : Prop where
  depth : (m.state.elem.length : ℤ) = eventDepth calls
  closes : ∀ later c earlier, calls = later ++ c :: earlier → c.reply = .event .endElement →
    (stillOpen earlier (openElements earlier)).head? = some c.key

/-- The pop with which a call starts finds the empty element that the call before returned. -/
def PopsEmpty (calls : List Call) (m : Parser) : Prop :=
  m.state.event = some .emptyElement →
    ∃ c earlier elem rest, calls = c :: earlier ∧ c.reply = .event .emptyElement ∧
      m.state.elem = elem :: rest ∧ elem.key = c.key

/-! ### Calls that keep the stack -/

/-- What a call needs. An `event` left over from an empty element is the one of
the call before, which set the name; and markup is of the kinds that keep the
stack. -/
structure CallOk (data : List UInt8) (m : Parser) : Prop where
  fresh : m.state.event = some .emptyElement → m.state.name ≠ none
  markup : ∀ p, AtMarkup data m p → MarkupOk data m.state.atMarkup (Validated m.state.atMarkup) p

/-- The invariant of a run. -/
structure StackInv (data : List UInt8) (calls : List Call) (m : Parser) : Prop where
  onData : OnData data m.input
  keys : m.state.elem.map Element.key = openElements calls
  pops : m.state.event = some .emptyElement → m.state.name ≠ none → PopsEmpty calls m
  empty : ∀ c earlier, calls = c :: earlier → c.reply = .event .emptyElement →
    m.state.event = some .emptyElement
  disciplined : Disciplined calls m

lemma stackInv_init (data : List UInt8) : StackInv data [] (initMemory data) where
  onData := ⟨rfl, rfl, sound_create⟩
  keys := rfl
  pops := by intro h; cases h
  empty := by intro c earlier h; cases h
  disciplined := ⟨rfl, by intro later c earlier h; simp at h⟩

/-! ### Declarations and attributes leave the names of elements -/

lemma State.declare_keys (s : State) (uri : Token) :
    (s.declare uri).elem.map Element.key = s.elem.map Element.key ∧
      (s.declare uri).name = s.name ∧ (s.declare uri).pref = s.pref := by
  unfold State.declare
  cases helem : s.elem with
  | nil => simp [helem]
  | cons elem rest =>
    by_cases hnamesp : elem.isNamesp = true
    · simp only [hnamesp, if_true]
      split
      · simp [helem]
      · simp
    · simp [hnamesp, Element.key]

lemma State.addAttribute_keys (s : State) (a : RawAttribute) :
    (s.addAttribute a).elem.map Element.key = s.elem.map Element.key ∧
      (s.addAttribute a).name = s.name ∧ (s.addAttribute a).pref = s.pref := by
  unfold State.addAttribute State.close
  dsimp only
  split_ifs
  · exact State.declare_keys _ _
  · exact ⟨rfl, rfl, rfl⟩

lemma foldl_addAttribute_keys (attrs : List RawAttribute) (s : State) :
    (attrs.foldl State.addAttribute s).elem.map Element.key = s.elem.map Element.key ∧
      (attrs.foldl State.addAttribute s).name = s.name ∧
      (attrs.foldl State.addAttribute s).pref = s.pref := by
  induction attrs generalizing s with
  | nil => exact ⟨rfl, rfl, rfl⟩
  | cons a attrs ih =>
    obtain ⟨helem, hname, hpref⟩ := ih (s.addAttribute a)
    obtain ⟨helem', hname', hpref'⟩ := s.addAttribute_keys a
    exact ⟨helem.trans helem', hname.trans hname', hpref.trans hpref'⟩

/-- A tag that is complete: its element is on top of the stack. -/
lemma endOfTag_keys (s : State) (q : QName) (attrs : List RawAttribute) (event : Event) :
    ((s.openTag q).endOfTag attrs event).elem.map Element.key =
        (q.pref, some q.name) :: s.elem.map Element.key ∧
      ((s.openTag q).endOfTag attrs event).name = some q.name ∧
      ((s.openTag q).endOfTag attrs event).pref = q.pref :=
  foldl_addAttribute_keys attrs (s.openTag q)

/-! ### One call -/

variable {data : List UInt8} {calls : List Call} {m m' : Parser} {reply : Reply}

/-- Empty elements that are not the last call cancel out. -/
lemma eventDepth_cons (c : Call) (calls : List Call) :
    eventDepth (c :: calls) = eventCount .startElement (c :: calls) -
      eventCount .endElement (c :: calls) + if c.reply = .event .emptyElement then 1 else 0 := by
  unfold eventDepth
  rw [List.tail_cons, eventCount, eventCount, eventCount, eventCount]
  simp only [List.countP_cons, decide_eq_true_eq]
  split_ifs <;> push_cast <;> ring

/-- The stack when the call has cleaned up. -/
structure Cleaned (calls : List Call) (s : State) : Prop where
  keys : s.elem.map Element.key = stillOpen calls (openElements calls)
  depth : (s.elem.length : ℤ) = eventCount .startElement calls - eventCount .endElement calls

lemma StackInv.cleaned (h : StackInv data calls m)
    (hfresh : m.state.event = some .emptyElement → m.state.name ≠ none) :
    (m.state.event = some .emptyElement → m.state.elem ≠ []) ∧ Cleaned calls m.state.atMarkup := by
  have hdepth := h.disciplined.depth
  by_cases hevent : m.state.event = some .emptyElement
  · obtain ⟨c, earlier, elem, rest, rfl, hreply, helem, -⟩ := h.pops hevent (hfresh hevent) hevent
    have hcleaned : m.state.atMarkup.elem = rest := by
      simp only [State.atMarkup, State.cleaned, State.popEmpty, hevent, helem]
    refine ⟨fun _ => by rw [helem]; exact List.cons_ne_nil _ _, ?_, ?_⟩
    · rw [hcleaned, stillOpen, if_pos hreply, ← h.keys, helem]
      rfl
    · rw [helem, eventDepth_cons, if_pos hreply, List.length_cons] at hdepth
      rw [hcleaned]
      push_cast at hdepth
      linarith
  · have hcleaned : m.state.atMarkup.elem = m.state.elem := by
      simp only [State.atMarkup, State.cleaned, State.popEmpty]
      split
      · next h _ => exact absurd h hevent
      · rfl
    refine ⟨fun h => absurd h hevent, ?_, ?_⟩
    · rw [hcleaned, h.keys]
      cases calls with
      | nil => rfl
      | cons c earlier =>
        rw [stillOpen, if_neg fun hreply => hevent (h.empty c earlier rfl hreply)]
    · rw [hcleaned, hdepth]
      cases calls with
      | nil => rfl
      | cons c earlier =>
        rw [eventDepth_cons, if_neg fun hreply => hevent (h.empty c earlier rfl hreply), add_zero]

/-- The end events of a longer run. -/
lemma closes_cons {c : Call}
    (h : ∀ later c earlier, calls = later ++ c :: earlier → c.reply = .event .endElement →
      (stillOpen earlier (openElements earlier)).head? = some c.key)
    (hc : c.reply = .event .endElement →
      (stillOpen calls (openElements calls)).head? = some c.key) :
    ∀ later d earlier, c :: calls = later ++ d :: earlier → d.reply = .event .endElement →
      (stillOpen earlier (openElements earlier)).head? = some d.key := by
  intro later d earlier hcalls hd
  cases later with
  | nil =>
    obtain ⟨rfl, rfl⟩ := List.cons.inj hcalls
    exact hc hd
  | cons c' later => exact h later d earlier (List.cons.inj hcalls).2 hd

lemma eventCount_cons (event : Event) (c : Call) (calls : List Call) :
    eventCount event (c :: calls) =
      eventCount event calls + if c.reply = .event event then 1 else 0 := by
  simp [eventCount, List.countP_cons]

section Step

variable (hcleaned : Cleaned calls m.state.atMarkup) (hold : Disciplined calls m)
  (hdata : OnData data m'.input)

include hcleaned hold hdata

lemma stackInv_quiet (hreply : reply.Quiet)
    (hstacks : Untouched m.state.atMarkup.elem m.state.atMarkup.namesp m'.state) :
    StackInv data (⟨reply, m'.state.pref, m'.state.name⟩ :: calls) m' := by
  obtain ⟨hstart, hempty, hend⟩ := hreply
  have hopened : openElements (⟨reply, m'.state.pref, m'.state.name⟩ :: calls) =
      stillOpen calls (openElements calls) := by
    rw [openElements]
    split
    · next h => exact absurd h hstart
    · next h => exact absurd h hempty
    · next h => exact absurd h hend
    · rfl
  refine ⟨hdata, ?_, ?_, ?_, ?_, ?_⟩
  · rw [hstacks.elem, hcleaned.keys, hopened]
  · intro hevent hname
    exact absurd (hstacks.stale hevent) hname
  · intro c earlier hc hreply
    obtain ⟨rfl, -⟩ := List.cons.inj hc
    exact absurd hreply hempty
  · rw [hstacks.elem, hcleaned.depth, eventDepth_cons, eventCount_cons, eventCount_cons,
      if_neg hempty, if_neg hstart, if_neg hend]
    simp
  · exact closes_cons hold.closes fun h => absurd h hend

lemma stackInv_opens {event : Event} {q : QName} {attrs : List RawAttribute}
    (hevent : event = .startElement ∨ event = .emptyElement) (hreply : reply = .event event)
    (hstate : m'.state = (m.state.atMarkup.openTag q).endOfTag attrs event) :
    StackInv data (⟨reply, m'.state.pref, m'.state.name⟩ :: calls) m' := by
  obtain ⟨hkeys, hname, hpref⟩ := endOfTag_keys m.state.atMarkup q attrs event
  rw [← hstate] at hkeys hname hpref
  have hset : m'.state.event = some event := by rw [hstate]; rfl
  have hlength := congrArg List.length hkeys
  rw [List.length_map, List.length_cons, List.length_map] at hlength
  have hdepth := hcleaned.depth
  rw [hpref, hname, hreply]
  have hopened : openElements (⟨.event event, q.pref, some q.name⟩ :: calls) =
      (q.pref, some q.name) :: stillOpen calls (openElements calls) := by
    rcases hevent with rfl | rfl <;> rfl
  refine ⟨hdata, ?_, ?_, ?_, ?_, ?_⟩
  · rw [hkeys, hcleaned.keys, hopened]
  · intro hempty _ _
    obtain rfl : event = .emptyElement := Option.some.inj (hset.symm.trans hempty)
    cases helem : m'.state.elem with
    | nil => rw [helem] at hkeys; cases hkeys
    | cons elem rest =>
      rw [helem] at hkeys
      exact ⟨_, calls, elem, rest, rfl, rfl, rfl, (List.cons.inj hkeys).1⟩
  · intro c earlier hc hreply
    obtain ⟨rfl, -⟩ := List.cons.inj hc
    rw [hset, Reply.event.inj hreply]
  · rw [eventDepth_cons, eventCount_cons, eventCount_cons, hlength]
    rcases hevent with rfl | rfl <;> simp <;> omega
  · apply closes_cons hold.closes
    intro h
    rcases hevent with rfl | rfl <;> cases h

lemma stackInv_closes {q : QName} {elem : Element} {rest : List Element}
    (helem : m.state.atMarkup.elem = elem :: rest) (hname : elem.name = some q.name)
    (hpref : elem.pref = q.pref) (hstate : m'.state = m.state.atMarkup.closeTag q elem rest) :
    StackInv data (⟨.event .endElement, m'.state.pref, m'.state.name⟩ :: calls) m' := by
  have hkeys := hcleaned.keys
  have hdepth := hcleaned.depth
  rw [helem, List.map_cons] at hkeys
  rw [helem, List.length_cons] at hdepth
  have hset : m'.state.event = some .endElement := by rw [hstate]; rfl
  have hrest : m'.state.elem = rest := by rw [hstate]; rfl
  have hkey : elem.key = (m'.state.pref, m'.state.name) := by
    rw [hstate, Element.key, hname, hpref]
    rfl
  refine ⟨hdata, ?_, ?_, ?_, ?_, ?_⟩
  · rw [hrest, openElements, ← hkeys]
    rfl
  · intro hempty
    rw [hset] at hempty
    cases hempty
  · intro c earlier hc hreply
    obtain ⟨rfl, -⟩ := List.cons.inj hc
    cases hreply
  · rw [hrest, eventDepth_cons, eventCount_cons, eventCount_cons]
    simp
    omega
  · apply closes_cons hold.closes
    intro _
    rw [← hkeys, List.head?_cons, hkey]

end Step

lemma StackInv.call (h : StackInv data calls m) (hok : CallOk data m) {fuel : ℕ}
    (hnext : next fuel m = .returned reply m') :
    StackInv data (⟨reply, m'.state.pref, m'.state.name⟩ :: calls) m' := by
  obtain ⟨hpop, hcleaned⟩ := h.cleaned hok.fresh
  obtain ⟨hdata, heffect⟩ := next_effect h.onData hpop hok.markup hnext
  generalize hs : m'.state = s at heffect
  cases heffect with
  | quiet hreply hstacks =>
    rw [← hs] at hstacks ⊢
    exact stackInv_quiet hcleaned h.disciplined hdata hreply hstacks
  | opens hevent hvalid =>
    have hinv := stackInv_opens hcleaned h.disciplined hdata hevent hvalid.reply hs
    rw [hs] at hinv
    exact hinv
  | closes helem hname hpref =>
    have hinv := stackInv_closes hcleaned h.disciplined hdata helem hname hpref hs
    rw [hs] at hinv
    exact hinv

lemma Calls.stackInv (h : Calls data (CallOk data) calls m) : StackInv data calls m := by
  induction h with
  | init => exact stackInv_init data
  | call _ hok hnext ih => exact ih.call hok hnext

/-- `<a></a>`. -/
def startEnd : List UInt8 := [60, 97, 62, 60, 47, 97, 62]

def afterStart : Parser where
  input := { (initMemory startEnd).input with
    next := 3, decoder := ⟨0, 1, 0, [60, 62, 0, 0, 0, 0, 0, 0], 62, 0x3F⟩ }
  state := { initialState with
    status := .s2, event := some .startElement, elem := [⟨some [97], none, false⟩], name := some [97] }

def afterEnd : Parser where
  input := { afterStart.input with next := 7 }
  state := { afterStart.state with event := some .endElement, elem := [] }

lemma startEnd_first : CallOk startEnd (initMemory startEnd) := by
  refine ⟨fun h => absurd h (by decide), fun p hat => ?_⟩
  have hlt : ReadsChar startEnd _ (.ofByte 60) _ := readsChar_byte
    (p := (initMemory startEnd).input.place) ready_create rfl (by decide)
  have ha : ReadsChar startEnd _ (.ofByte 97) _ := readsChar_byte hlt.ready rfl (by decide)
  have hgt : Reads startEnd _ [.ofByte 62] _ := reads_bytes [62] ha.ready rfl (by simp)
  have htag : StartTagText (.ofByte 97) [.ofByte 62] ⟨none, [97]⟩ [] .startElement :=
    @StartTagText.mk _ [] [] [.ofByte 62] [] (.ofByte 62) [] .startElement (by decide) (by simp)
      (by simp [Spaces]) (.start rfl) rfl (by decide)
  rw [hat.unique (atMarkup_of_readsChar hlt rfl)]
  exact markupOk_of_startTag ha (by decide) ⟨_, _, _, _, _, htag, hgt,
    by unfold Validated; decide⟩

lemma startEnd_second : CallOk startEnd afterStart := by
  refine ⟨fun h => absurd h (by decide), fun p hat => ?_⟩
  have hlt : ReadsChar startEnd _ (.ofByte 60) _ := readsChar_byte
    (p := afterStart.input.place) ⟨rfl, by decide⟩ rfl (by decide)
  have hslash : ReadsChar startEnd _ (.ofByte 47) _ := readsChar_byte hlt.ready rfl (by decide)
  have ha : ReadsChar startEnd _ (.ofByte 97) _ := readsChar_byte hslash.ready rfl (by decide)
  have hgt : Reads startEnd _ [.ofByte 62] _ := reads_bytes [62] ha.ready rfl (by simp)
  rw [hat.unique (atMarkup_of_readsChar hlt rfl)]
  exact markupOk_of_endTag hslash rfl ha ⟨[], [], .ofByte 62, _, _, _, by simp, by simp [Spaces],
    rfl, hgt, rfl, by decide, by decide⟩

/-- What the parser is left with by `<a b>`, which it does not accept. -/
def afterFailedTag : Parser where
  input := { (initMemory [60, 97, 32, 98, 62]).input with
    next := 5, lastStart := some 3, decoder := ⟨0, 1, 0, [60, 62, 0, 0, 0, 0, 0, 0], 62, 0x3F⟩ }
  state := { initialState with
    status := .s2, elem := [⟨some [97], none, false⟩], name := some [97], tempTok := some 3 }

end Axis2C.Guththila
