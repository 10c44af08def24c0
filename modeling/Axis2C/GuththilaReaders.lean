import Axis2C.GuththilaParser
import Axis2C.StatefulRuns
import Mathlib.Tactic

/-!
# Independence of the reader

An IO reader and a memory reader over the same bytes are run side by side. The
buffer of the IO reader is a window of the document, followed by the pieces not
delivered yet. As long as the IO reader uses no pointer in front of its buffer
and makes no request the callback cannot serve, both parsers do the same.
-/
namespace Axis2C.Guththila
open StatefulRuns

/-! ### A relation of inputs carries over to the parser -/

/-- What the reading functions do in two related inputs. -/
structure InputSim (R : Input → Input → Prop) (bad good : Exit → Prop) : Prop where
  nextByte : Sim R bad good nextByte nextByte
  openPosition : Sim R bad good openPosition openPosition
  closePosition : ∀ start back, Sim R bad good (closePosition start back) (closePosition start back)
  stepBack : Sim R bad good stepBack stepBack
  decoder : ∀ i j, R i j → i.decoder = j.decoder
  setDecoder : ∀ i j d, R i j → R { i with decoder := d } { j with decoder := d }
  returned : good .returned
  fault : good .fault
  outOfFuel : good .outOfFuel

/-- Related inputs and the same other fields. -/
def Beside (R : Input → Input → Prop) (m m' : Parser) : Prop :=
  R m.input m'.input ∧ m.state = m'.state

section Parser

variable {R : Input → Input → Prop} {bad good : Exit → Prop}

section

variable (h : InputSim R bad good)

include h

lemma InputSim.decode (byte : ℤ) : Sim R bad good (decode byte) (decode byte) := by
  intro i j hij
  have hd := h.decoder i j hij
  simp only [Guththila.decode, hd]
  exact ⟨_, rfl, h.setDecoder i j _ hij⟩

lemma InputSim.decodeLoop (rounds : ℕ) :
    Sim R bad good (decodeLoop rounds) (decodeLoop rounds) := by
  induction rounds with
  | zero => exact Sim.throw h.outOfFuel
  | succ rounds ih =>
    apply Sim.bind h.nextByte
    intro byte
    apply Sim.ite (Sim.pure _)
    apply Sim.bind (h.decode byte)
    intro r
    apply Sim.ite (Sim.pure _)
    apply Sim.ite _ ih
    cases r.codePoint with
    | none => exact Sim.throw h.fault
    | some codePoint => exact Sim.pure _

lemma InputSim.pendingChar : Sim R bad good pendingChar pendingChar := by
  intro i j hij
  have hd := h.decoder i j hij
  by_cases hpending : j.decoder.isError ∧ j.decoder.isCodePoint
  · simp only [Guththila.pendingChar, hd, hpending, and_self, if_true]
    exact ⟨_, rfl, h.setDecoder i j _ hij⟩
  · simp only [Guththila.pendingChar, hd, hpending, if_false]
    exact ⟨_, rfl, hij⟩

lemma InputSim.nextChar : Sim R bad good nextChar nextChar := by
  apply Sim.bind h.pendingChar
  intro pending
  cases pending with
  | none => exact h.decodeLoop 4
  | some codePoint => exact Sim.pure _

lemma InputSim.noCharLoop (no : ℕ) : Sim R bad good (noCharLoop no) (noCharLoop no) := by
  induction no with
  | zero => exact Sim.pure _
  | succ no ih =>
    apply Sim.bind (h.decodeLoop 4)
    intro c
    apply Sim.ite (Sim.pure _)
    apply Sim.bind ih
    intro cs
    cases cs with
    | none | some cs => exact Sim.pure _

lemma InputSim.nextNoChar (no : ℕ) : Sim R bad good (nextNoChar no) (nextNoChar no) := by
  cases no with
  | zero => exact Sim.pure _
  | succ no =>
    apply Sim.bind h.pendingChar
    intro pending
    cases pending with
    | none => exact h.noCharLoop _
    | some codePoint =>
      apply Sim.bind (h.noCharLoop no)
      intro cs
      cases cs with
      | none | some cs => exact Sim.pure _

end

lemma reading_sim {α : Type} {p : Reading α} (hp : Sim R bad good p p) :
    Sim (Beside R) bad good (reading p) (reading p) := by
  intro m m' hm
  obtain ⟨hi, hs⟩ := hm
  have hrun := hp m.input m'.input hi
  cases hpm : p m.input with
  | ok a i =>
    rw [hpm] at hrun
    obtain ⟨i', hpm', hi'⟩ := hrun
    simp only [reading, hpm, hpm']
    exact ⟨_, rfl, hi', hs⟩
  | error e i =>
    rw [hpm] at hrun
    simp only [reading, hpm]
    rcases hrun with hbad | ⟨hgood, i', hpm', hi'⟩
    · exact Or.inl hbad
    · simp only [hpm']
      exact Or.inr ⟨hgood, _, rfl, hi', hs⟩

lemma getState_sim : Sim (Beside R) bad good getState getState := by
  intro m m' hm
  exact ⟨m', by simp only [getState, hm.2], hm⟩

lemma modifyState_sim (f : State → State) :
    Sim (Beside R) bad good (modifyState f) (modifyState f) := by
  intro m m' hm
  exact ⟨_, rfl, hm.1, by simp only [hm.2]⟩

variable (h : InputSim R bad good)
include h

lemma nextChar_sim : Sim (Beside R) bad good (reading nextChar) (reading nextChar) :=
  reading_sim h.nextChar

lemma skipSpaces_sim (fuel : ℕ) (c : ℤ) :
    Sim (Beside R) bad good (skipSpaces fuel c) (skipSpaces fuel c) := by
  induction fuel generalizing c with
  | zero => exact Sim.throw h.outOfFuel
  | succ fuel ih =>
    apply Sim.ite
    · exact Sim.bind (nextChar_sim h) ih
    · exact Sim.pure _

lemma tokenOpen_sim : Sim (Beside R) bad good tokenOpen tokenOpen :=
  Sim.bind (reading_sim h.openPosition) fun _ => modifyState_sim _

lemma tokenCloseBack_sim (back : ℕ) (type : TokType) :
    Sim (Beside R) bad good (tokenCloseBack back type) (tokenCloseBack back type) := by
  apply Sim.bind getState_sim
  intro s
  cases s.tempTok with
  | none => exact Sim.throw h.fault
  | some start =>
    exact Sim.bind (reading_sim (h.closePosition start back)) fun _ => modifyState_sim _

lemma nameLoop_sim (stop : ℤ → Bool) (fuel : ℕ) (c : ℤ) :
    Sim (Beside R) bad good (nameLoop stop fuel c) (nameLoop stop fuel c) := by
  induction fuel generalizing c with
  | zero => exact Sim.throw h.outOfFuel
  | succ fuel ih =>
    apply Sim.ite (Sim.pure _)
    apply Sim.ite (Sim.throw h.returned)
    apply Sim.ite
    · exact Sim.bind (nextChar_sim h) ih
    · apply Sim.bind (tokenCloseBack_sim h 0 .pref)
      intro _
      apply Sim.bind (nextChar_sim h)
      intro c
      exact Sim.bind (tokenOpen_sim h) fun _ => ih c

lemma readName_sim (stop : ℤ → Bool) (type : TokType) (fuel : ℕ) :
    Sim (Beside R) bad good (readName stop type fuel) (readName stop type fuel) := by
  apply Sim.bind (tokenOpen_sim h)
  intro _
  apply Sim.bind (nextChar_sim h)
  intro c
  apply Sim.bind (nameLoop_sim h stop fuel c)
  intro c
  exact Sim.bind (tokenCloseBack_sim h 0 type) fun _ => Sim.pure _

lemma valueLoop_sim (quote : ℤ) (fuel : ℕ) (c : ℤ) :
    Sim (Beside R) bad good (valueLoop quote fuel c) (valueLoop quote fuel c) := by
  induction fuel generalizing c with
  | zero => exact Sim.throw h.outOfFuel
  | succ fuel ih =>
    apply Sim.ite (Sim.pure _)
    apply Sim.ite (Sim.throw h.returned)
    exact Sim.bind (nextChar_sim h) ih

lemma readValue_sim (quote : ℤ) (fuel : ℕ) :
    Sim (Beside R) bad good (readValue quote fuel) (readValue quote fuel) := by
  apply Sim.bind (nextChar_sim h)
  intro c
  apply Sim.bind (tokenOpen_sim h)
  intro _
  apply Sim.bind (valueLoop_sim h quote fuel c)
  intro _
  apply Sim.bind (tokenCloseBack_sim h 0 .attributeValue)
  intro _
  exact Sim.bind (nextChar_sim h) (skipSpaces_sim h fuel)

lemma processEqu_sim (fuel : ℕ) (c quote : ℤ) :
    Sim (Beside R) bad good (processEqu fuel c quote) (processEqu fuel c quote) := by
  apply Sim.bind (skipSpaces_sim h fuel c)
  intro c
  apply Sim.ite _ (Sim.pure _)
  exact Sim.bind (nextChar_sim h) (skipSpaces_sim h fuel)

omit h in
lemma finishTag_sim (event : Event) :
    Sim (Beside R) bad good (finishTag event) (finishTag event) := by
  apply Sim.bind (modifyState_sim _)
  intro _
  apply Sim.bind getState_sim
  intro s
  exact Sim.ite (Sim.pure _) (Sim.pure _)

lemma attributes_sim (fuel : ℕ) (quote c : ℤ) :
    Sim (Beside R) bad good (attributes fuel quote c) (attributes fuel quote c) := by
  induction fuel generalizing quote c with
  | zero => exact Sim.throw h.outOfFuel
  | succ fuel ih =>
    apply Sim.ite
    · apply Sim.bind (nextChar_sim h)
      intro c
      exact Sim.ite (finishTag_sim _) (Sim.pure _)
    apply Sim.ite (finishTag_sim _)
    apply Sim.ite _ (Sim.pure _)
    apply Sim.bind (readName_sim h attributeStop .attributeName fuel)
    intro c
    apply Sim.bind (processEqu_sim h fuel c quote)
    intro quote
    apply Sim.ite _ (Sim.pure _)
    exact Sim.bind (readValue_sim h quote fuel) (ih quote)

lemma startTag_sim (fuel : ℕ) (c : ℤ) :
    Sim (Beside R) bad good (startTag fuel c) (startTag fuel c) := by
  apply Sim.ite
  · apply Sim.bind (readName_sim h startTagStop .name fuel)
    intro c
    apply Sim.bind (modifyState_sim _)
    intro _
    exact Sim.bind (skipSpaces_sim h fuel c) (attributes_sim h fuel 0)
  · exact Sim.bind (skipSpaces_sim h fuel c) (attributes_sim h fuel 0)

lemma finishEndTag_sim (fuel : ℕ) (c : ℤ) :
    Sim (Beside R) bad good (finishEndTag fuel c) (finishEndTag fuel c) := by
  apply Sim.bind (skipSpaces_sim h fuel c)
  intro c
  exact Sim.ite (Sim.pure _) (Sim.pure _)

lemma popElement_sim (fuel : ℕ) (c : ℤ) :
    Sim (Beside R) bad good (popElement fuel c) (popElement fuel c) := by
  apply Sim.bind getState_sim
  intro s
  cases s.elem with
  | nil => exact Sim.pure _
  | cons elem rest =>
    apply Sim.bind (modifyState_sim _)
    intro _
    apply Sim.ite _ (Sim.pure _)
    apply Sim.ite
    · exact Sim.bind (modifyState_sim _) fun _ => finishEndTag_sim h fuel c
    · exact finishEndTag_sim h fuel c

lemma endTag_sim (fuel : ℕ) : Sim (Beside R) bad good (endTag fuel) (endTag fuel) := by
  apply Sim.bind (modifyState_sim _)
  intro _
  apply Sim.bind (nextChar_sim h)
  intro c
  apply Sim.ite _ (Sim.pure _)
  exact Sim.bind (readName_sim h endTagStop .name fuel) (popElement_sim h fuel)

lemma commentLoop_sim (fuel : ℕ) :
    Sim (Beside R) bad good (commentLoop fuel) (commentLoop fuel) := by
  induction fuel with
  | zero => exact Sim.throw h.outOfFuel
  | succ fuel ih =>
    apply Sim.bind (nextChar_sim h)
    intro c
    apply Sim.ite _ ih
    apply Sim.bind (reading_sim (h.nextNoChar 2))
    intro read
    split
    · apply Sim.ite _ ih
      apply Sim.ite _ (Sim.pure _)
      apply Sim.bind (modifyState_sim _)
      intro _
      exact Sim.bind (tokenCloseBack_sim h 2 .charData) fun _ => Sim.pure _
    · exact ih

lemma skipLoop_sim (fuel : ℕ) (c : ℤ) :
    Sim (Beside R) bad good (skipLoop fuel c) (skipLoop fuel c) := by
  induction fuel generalizing c with
  | zero => exact Sim.throw h.outOfFuel
  | succ fuel ih =>
    apply Sim.ite (Sim.pure _)
    apply Sim.ite (Sim.pure _)
    exact Sim.bind (nextChar_sim h) ih

lemma declaration_sim (fuel : ℕ) :
    Sim (Beside R) bad good (declaration fuel) (declaration fuel) := by
  apply Sim.bind (reading_sim (h.nextNoChar 2))
  intro read
  apply Sim.ite
  · apply Sim.bind (nextChar_sim h)
    intro _
    exact Sim.bind (tokenOpen_sim h) fun _ => commentLoop_sim h fuel
  · exact Sim.bind (nextChar_sim h) (skipLoop_sim h fuel)

lemma pseudoAttribute_sim (rest : String) (quote : ℤ) (fuel : ℕ) :
    Sim (Beside R) bad good (pseudoAttribute rest quote fuel)
      (pseudoAttribute rest quote fuel) := by
  apply Sim.bind (tokenOpen_sim h)
  intro _
  apply Sim.bind (reading_sim (h.nextNoChar rest.length))
  intro read
  apply Sim.ite _ (Sim.pure _)
  apply Sim.bind (nextChar_sim h)
  intro c
  apply Sim.bind (tokenCloseBack_sim h 0 .attributeName)
  intro _
  apply Sim.bind (processEqu_sim h fuel c quote)
  intro quote
  exact Sim.bind (readValue_sim h quote fuel) fun _ => Sim.pure _

lemma versionPart_sim (fuel : ℕ) (c quote : ℤ) :
    Sim (Beside R) bad good (versionPart fuel c quote) (versionPart fuel c quote) := by
  apply Sim.ite _ (Sim.pure _)
  apply Sim.bind (pseudoAttribute_sim h "ersion" quote fuel)
  intro r
  cases r with
  | none => exact Sim.throw h.returned
  | some r => exact Sim.pure _

lemma optionalPart_sim (first : Char) (rest : String) (fuel : ℕ) (c quote : ℤ) :
    Sim (Beside R) bad good (optionalPart first rest fuel c quote)
      (optionalPart first rest fuel c quote) := by
  apply Sim.ite _ (Sim.pure _)
  apply Sim.bind (pseudoAttribute_sim h rest quote fuel)
  intro r
  cases r with
  | none | some r => exact Sim.pure _

lemma processXmlDec_sim (fuel : ℕ) :
    Sim (Beside R) bad good (processXmlDec fuel) (processXmlDec fuel) := by
  apply Sim.bind (reading_sim (h.nextNoChar 3))
  intro read
  apply Sim.ite _ (Sim.pure _)
  apply Sim.bind (nextChar_sim h)
  intro c
  apply Sim.bind (skipSpaces_sim h fuel c)
  intro c
  apply Sim.bind (versionPart_sim h fuel c (-1))
  intro r
  apply Sim.bind (optionalPart_sim h 'e' "ncoding" fuel r.1 r.2)
  intro r
  apply Sim.bind (optionalPart_sim h 's' "tandalone" fuel r.1 r.2)
  intro r
  apply Sim.ite
  · apply Sim.bind (nextChar_sim h)
    intro c
    apply Sim.ite _ (Sim.pure _)
    exact Sim.bind (modifyState_sim _) fun _ => Sim.pure _
  · exact Sim.ite (Sim.pure _) (Sim.pure _)

lemma markup_sim (fuel : ℕ) : Sim (Beside R) bad good (markup fuel) (markup fuel) := by
  apply Sim.bind (nextChar_sim h)
  intro c
  apply Sim.ite (endTag_sim h fuel)
  apply Sim.ite (declaration_sim h fuel)
  apply Sim.ite (processXmlDec_sim h fuel)
  exact startTag_sim h fuel c

lemma textLoop_sim (fuel : ℕ) (whiteSpace : Bool) :
    Sim (Beside R) bad good (textLoop fuel whiteSpace) (textLoop fuel whiteSpace) := by
  induction fuel generalizing whiteSpace with
  | zero => exact Sim.throw h.outOfFuel
  | succ fuel ih =>
    apply Sim.bind (nextChar_sim h)
    intro c
    apply Sim.ite (Sim.throw h.returned)
    exact Sim.ite (Sim.pure _) (ih _)

lemma text_sim (fuel : ℕ) (c : ℤ) : Sim (Beside R) bad good (text fuel c) (text fuel c) := by
  apply Sim.bind (modifyState_sim _)
  intro _
  apply Sim.bind (tokenOpen_sim h)
  intro _
  apply Sim.bind (textLoop_sim h fuel _)
  intro whiteSpace
  apply Sim.bind (tokenCloseBack_sim h 0 .textData)
  intro _
  apply Sim.bind (reading_sim h.stepBack)
  intro _
  apply Sim.ite _ (Sim.pure _)
  exact Sim.bind (modifyState_sim _) fun _ => Sim.pure _

lemma cleanUp_sim : Sim (Beside R) bad good cleanUp cleanUp := by
  apply Sim.bind getState_sim
  intro s
  apply Sim.ite
  · cases s.elem with
    | nil => exact Sim.bind (Sim.throw h.fault) fun _ => modifyState_sim _
    | cons elem rest => exact Sim.bind (modifyState_sim _) fun _ => modifyState_sim _
  · exact modifyState_sim _

lemma leadingSpace_sim (fuel : ℕ) (c : ℤ) :
    Sim (Beside R) bad good (leadingSpace fuel c) (leadingSpace fuel c) := by
  induction fuel generalizing c with
  | zero => exact Sim.throw h.outOfFuel
  | succ fuel ih =>
    apply Sim.ite _ (Sim.pure _)
    apply Sim.bind (nextChar_sim h)
    intro c
    exact Sim.ite (Sim.throw h.returned) (ih c)

/-- The whole of `guththila_next` keeps two parsers beside each other. -/
theorem nextBody_sim (fuel : ℕ) :
    Sim (Beside R) bad good (nextBody fuel) (nextBody fuel) := by
  apply Sim.bind (cleanUp_sim h)
  intro _
  apply Sim.bind (nextChar_sim h)
  intro c
  apply Sim.bind getState_sim
  intro s
  apply Sim.ite
  · apply Sim.bind (leadingSpace_sim h fuel c)
    intro c
    apply Sim.ite _ (Sim.pure _)
    exact Sim.bind (modifyState_sim _) fun _ => markup_sim h fuel
  · apply Sim.ite (markup_sim h fuel)
    exact Sim.ite (Sim.pure _) (text_sim h fuel c)

end Parser

/-! ### The window of an IO reader -/

/-- The buffer is the part of the document from `preTotData` on and the pieces
are what follows. Before the first read there is no buffer. -/
def Window (data : List UInt8) (i : Input) (pieces : List (List UInt8)) : Prop :=
  (∀ piece ∈ pieces, piece ≠ []) ∧
    if i.buffer.allocated then
      i.next ≤ i.buffer.preTotData + i.buffer.buff.length ∧
        ∃ before, before.length = i.buffer.preTotData ∧
          data = before ++ i.buffer.buff ++ pieces.flatten
    else i.next = 0 ∧ i.buffer.preTotData = 0 ∧ data = pieces.flatten ∧ pieces ≠ []

/-- An IO reader at the same place of the document as a memory reader. -/
def SamePlace (data : List UInt8) (i j : Input) : Prop :=
  j.reader = .memory ∧ j.buffer = ⟨data, data.length, 0, true⟩ ∧ i.next = j.next ∧
    i.lastStart = j.lastStart ∧ i.decoder = j.decoder ∧
    ∃ pieces garbage, i.reader = .io pieces garbage ∧ Window data i pieces

/-- The exits in which the IO reader fails where a memory reader would not. -/
def IoFailure (e : Exit) : Prop := e = .outsideBuffer ∨ e = .badRequest

lemma readerRead_spec {pieces : List (List UInt8)} {length : ℤ} {got : List UInt8}
    {left : List (List UInt8)} (hne : ∀ piece ∈ pieces, piece ≠ [])
    (h : readerRead pieces length = some (got, left)) :
    got ++ left.flatten = pieces.flatten ∧ (∀ piece ∈ left, piece ≠ []) ∧
      (got = [] ↔ pieces = []) := by
  cases pieces with
  | nil =>
    simp only [readerRead, Option.some.injEq, Prod.mk.injEq] at h
    simp [← h.1, ← h.2]
  | cons piece rest =>
    have hpiece : piece ≠ [] := hne piece (List.mem_cons_self ..)
    have hrest : ∀ p ∈ rest, p ≠ [] := fun p hp => hne p (List.mem_cons_of_mem _ hp)
    simp only [readerRead] at h
    split at h
    · cases h
    · split at h
      · simp only [Option.some.injEq, Prod.mk.injEq] at h
        obtain ⟨rfl, rfl⟩ := h
        exact ⟨by simp, hrest, by simp [hpiece]⟩
      · next hpos hlong =>
        simp only [Option.some.injEq, Prod.mk.injEq] at h
        obtain ⟨rfl, rfl⟩ := h
        refine ⟨by simp [← List.append_assoc], ?_, ?_⟩
        · intro p hp
          rcases List.mem_cons.mp hp with rfl | hp
          · simp only [ne_eq, List.drop_eq_nil_iff, not_le]
            omega
          · exact hrest p hp
        · simp only [List.take_eq_nil_iff, hpiece, or_false, reduceCtorEq, iff_false]
          omega

lemma samePlace_fetch {data : List UInt8} {i j : Input} (h : SamePlace data i j)
    (hnext : i.next < i.buffer.preTotData + i.buffer.buff.length)
    (hallocated : i.buffer.allocated = true) :
    match fetch i with
    | .ok a i' => ∃ j', nextByte j = .ok a j' ∧ SamePlace data i' j'
    | .error e _ => IoFailure e := by
  obtain ⟨hreader, hbuffer, hn, hl, hd, pieces, garbage, hio, hne, hwindow⟩ := h
  rw [if_pos hallocated] at hwindow
  obtain ⟨-, before, hbefore, hdata⟩ := hwindow
  by_cases hpre : i.buffer.preTotData ≤ i.next
  · have hk : i.next - i.buffer.preTotData < i.buffer.buff.length := by omega
    have hbyte : i.buffer.byteAt i.next = some i.buffer.buff[i.next - i.buffer.preTotData] := by
      simp only [Buffer.byteAt, if_pos hpre, List.getElem?_eq_getElem hk]
    have hlt : j.next < j.buffer.buff.length := by
      rw [hbuffer, ← hn, hdata]
      simp only [List.length_append]
      omega
    have hbyte' : j.buffer.byteAt j.next = some i.buffer.buff[i.next - i.buffer.preTotData] := by
      rw [← hbyte, hbuffer, ← hn]
      simp only [Buffer.byteAt, if_pos hpre, Nat.zero_le, if_true, Nat.sub_zero]
      rw [hdata, List.append_assoc, List.getElem?_append_right (by omega), hbefore,
        List.getElem?_append_left hk]
    simp only [fetch, nextByte, hreader, hbyte, hbyte', if_pos hlt]
    refine ⟨_, rfl, rfl, hbuffer, by simp only [hn], hl, hd, pieces, garbage, hio, hne, ?_⟩
    simp only [if_pos hallocated]
    exact ⟨by omega, before, hbefore, hdata⟩
  · have hbyte : i.buffer.byteAt i.next = none := by
      simp only [Buffer.byteAt, if_neg hpre]
    simp only [fetch, hbyte]
    exact Or.inl rfl

/-- The end of the document: the memory reader gives -1 too. -/
lemma samePlace_end {data : List UInt8} {i j : Input} (h : SamePlace data i j)
    (hend : data.length ≤ i.next) : nextByte j = .ok (-1) j := by
  obtain ⟨hreader, hbuffer, hn, -⟩ := h
  have hlt : ¬ j.next < j.buffer.buff.length := by
    rw [hbuffer, ← hn]
    exact Nat.not_lt.mpr hend
  simp only [nextByte, hreader, if_neg hlt]

/-- After the switch to a larger buffer the window starts at the open token. -/
lemma window_switch {data : List UInt8} {i : Input} {pieces left : List (List UInt8)}
    {moved got : List UInt8} (h : Window data i pieces) (hallocated : i.buffer.allocated = true)
    (hmoved : i.buffer.dataMove i.lastStart = some moved)
    (hgot : got ++ left.flatten = pieces.flatten) (hleft : ∀ piece ∈ left, piece ≠ [])
    (reader : Reader) :
    Window data
      { i with
        buffer := { i.buffer.switch moved with buff := moved ++ got }, reader := reader } left := by
  obtain ⟨-, hwindow⟩ := h
  rw [if_pos hallocated] at hwindow
  obtain ⟨hnext, before, hbefore, hdata⟩ := hwindow
  -- what stays behind, and what moves
  obtain ⟨kept, hkept⟩ : ∃ kept, i.buffer.buff = kept ++ moved := by
    unfold Buffer.dataMove at hmoved
    split at hmoved
    · exact ⟨i.buffer.buff, by simp [← Option.some.inj hmoved]⟩
    · split at hmoved
      · exact ⟨_, by rw [← Option.some.inj hmoved, List.take_append_drop]⟩
      · cases hmoved
  have hlen : i.buffer.buff.length = kept.length + moved.length := by simp [hkept]
  refine ⟨hleft, ?_⟩
  simp only [Buffer.switch, if_pos hallocated, List.length_append]
  refine ⟨by omega, before ++ kept, ?_, ?_⟩
  · rw [List.length_append, hbefore]
    omega
  · rw [hdata, hkept, ← hgot]
    simp

section

variable {data : List UInt8} {i j : Input} (h : SamePlace data i j) {pieces : List (List UInt8)}
  {garbage : UInt8} (hio : i.reader = .io pieces garbage)

include h hio

lemma samePlace_refill (hnext : ¬ i.next < i.buffer.preTotData + i.buffer.buff.length)
    (hallocated : i.buffer.allocated = true) :
    match refill pieces garbage i with
    | .ok a i' => ∃ j', nextByte j = .ok a j' ∧ SamePlace data i' j'
    | .error e _ => IoFailure e := by
  have hplace := h
  obtain ⟨hreader, hbuffer, hn, hl, hd, pieces', garbage', hio', hwindow⟩ := h
  obtain ⟨rfl, rfl⟩ : pieces' = pieces ∧ garbage' = garbage := by
    rw [hio] at hio'
    simpa [eq_comm] using hio'
  unfold refill
  cases hmoved : i.buffer.dataMove i.lastStart with
  | none => exact Or.inl rfl
  | some moved =>
    simp only
    cases hread : readerRead pieces' (toInt ((i.buffer.switch moved).buffSize - moved.length)) with
    | none => exact Or.inr rfl
    | some r =>
      obtain ⟨got, left⟩ := r
      obtain ⟨hgot, hleft, hnil⟩ := readerRead_spec hwindow.1 hread
      have hswitch := window_switch hwindow hallocated hmoved hgot hleft (.io left garbage')
      have hplace' : SamePlace data { i with
          buffer := { i.buffer.switch moved with buff := moved ++ got }
          reader := .io left garbage' } j :=
        ⟨hreader, hbuffer, hn, hl, hd, left, garbage', rfl, hswitch⟩
      cases got with
      | nil =>
        have hpieces : pieces' = [] := hnil.mp rfl
        have hend : data.length ≤ i.next := by
          have hw := hwindow.2
          rw [if_pos hallocated, hpieces] at hw
          obtain ⟨-, before, hbefore, hdata⟩ := hw
          simp only [hdata, List.length_append, List.flatten_nil, List.length_nil]
          omega
        refine ⟨j, samePlace_end hplace hend, ?_⟩
        simpa [Buffer.switch] using hplace'
      | cons b got =>
        apply samePlace_fetch hplace' _ hallocated
        have hw := hwindow.2
        have hw' := hswitch.2
        rw [if_pos hallocated] at hw
        simp only [Buffer.switch, List.length_append, List.length_cons]
        simp only [Buffer.switch, if_pos hallocated, List.length_append,
          List.length_cons] at hw'
        obtain ⟨hle, before, hbefore, hdata⟩ := hw
        obtain ⟨hle', before', hbefore', hdata'⟩ := hw'
        have hlen := congrArg List.length (hdata.symm.trans hdata')
        simp only [List.length_append, List.length_cons, ← hgot] at hlen
        omega

lemma samePlace_firstFill (hallocated : i.buffer.allocated = false) :
    match firstFill pieces garbage i with
    | .ok a i' => ∃ j', nextByte j = .ok a j' ∧ SamePlace data i' j'
    | .error e _ => IoFailure e := by
  obtain ⟨hreader, hbuffer, hn, hl, hd, pieces', garbage', hio', hwindow⟩ := h
  obtain ⟨rfl, rfl⟩ : pieces' = pieces ∧ garbage' = garbage := by
    rw [hio] at hio'
    simpa [eq_comm] using hio'
  have hw := hwindow.2
  simp only [hallocated, Bool.false_eq_true, if_false] at hw
  obtain ⟨hzero, -, hdata, hpieces⟩ := hw
  unfold firstFill
  cases hread : readerRead pieces' bufferDefSize with
  | none => exact Or.inr rfl
  | some r =>
    obtain ⟨got, left⟩ := r
    obtain ⟨hgot, hleft, hnil⟩ := readerRead_spec hwindow.1 hread
    cases got with
    | nil => exact absurd (hnil.mp rfl) hpieces
    | cons b got =>
      apply samePlace_fetch (j := j) _ _ rfl
      · refine ⟨hreader, hbuffer, hn, hl, hd, left, garbage', rfl, hleft, ?_⟩
        simp only [if_true]
        exact ⟨by simp [hzero], [], rfl, by rw [hdata, ← hgot]; rfl⟩
      · simp [hzero]

end

lemma nextByte_samePlace (data : List UInt8) :
    Sim (SamePlace data) IoFailure (fun _ => True) nextByte nextByte := by
  intro i j h
  obtain ⟨pieces, garbage, hio, -⟩ := h.2.2.2.2.2
  have hcases : match nextByte i with
      | .ok a i' => ∃ j', nextByte j = .ok a j' ∧ SamePlace data i' j'
      | .error e _ => IoFailure e := by
    simp only [nextByte, hio]
    by_cases hallocated : i.buffer.allocated = true
    · by_cases hnext : i.next < i.buffer.preTotData + i.buffer.buff.length
      · simpa only [if_pos hallocated, if_pos hnext, nextByte] using
          samePlace_fetch h hnext hallocated
      · simpa only [if_pos hallocated, if_neg hnext, nextByte] using
          samePlace_refill h hio hnext hallocated
    · simpa only [if_neg hallocated, nextByte] using
        samePlace_firstFill h hio (by simpa using hallocated)
  cases hbyte : nextByte i with
  | ok a i' => simpa only [hbyte] using hcases
  | error e i' => exact Or.inl (by simpa only [hbyte] using hcases)

lemma window_token {data : List UInt8} {i : Input} {pieces : List (List UInt8)}
    (h : Window data i pieces) {start back : ℕ} (hstart : i.buffer.preTotData ≤ start) :
    (i.buffer.buff.drop (start - i.buffer.preTotData)).take (i.next - back - (start + 1)) =
      (data.drop start).take (i.next - back - (start + 1)) := by
  obtain ⟨-, hwindow⟩ := h
  by_cases hallocated : i.buffer.allocated = true
  · rw [if_pos hallocated] at hwindow
    obtain ⟨hnext, before, hbefore, hdata⟩ := hwindow
    rw [hdata, List.append_assoc, List.drop_append, hbefore,
      List.drop_of_length_le (l := before) (by omega), List.nil_append]
    by_cases hin : start - i.buffer.preTotData ≤ i.buffer.buff.length
    · rw [List.drop_append_of_le_length hin, List.take_append_of_le_length]
      rw [List.length_drop]
      omega
    · have hsize : i.next - back - (start + 1) = 0 := by omega
      simp [hsize]
  · rw [if_neg hallocated] at hwindow
    simp [hwindow.1]

lemma ioReader_sim (data : List UInt8) :
    InputSim (SamePlace data) IoFailure (fun _ => True) where
  nextByte := nextByte_samePlace data
  openPosition := by
    intro i j h
    obtain ⟨hreader, hbuffer, hn, hl, hd, hrest⟩ := h
    refine ⟨{ j with lastStart := some (j.next - j.decoder.usedBytes) }, ?_,
      hreader, hbuffer, hn, ?_, hd, hrest⟩
    · simp only [openPosition, hn, hd]
    · simp only [hn, hd]
  closePosition := by
    intro start back i j h
    obtain ⟨hreader, hbuffer, hn, hl, hd, pieces, garbage, hio, hwindow⟩ := h
    have hplace : SamePlace data { i with lastStart := none } { j with lastStart := none } :=
      ⟨hreader, hbuffer, hn, rfl, hd, pieces, garbage, hio, hwindow⟩
    by_cases hsize : i.next - back - (start + 1) = 0
    · simp only [closePosition, ← hn, if_pos hsize]
      refine ⟨_, rfl, ?_⟩
      simpa only [hn] using hplace
    · by_cases hstart : i.buffer.preTotData ≤ start
      · simp only [closePosition, ← hn, if_neg hsize, if_pos hstart, hbuffer, Nat.zero_le,
          if_true, window_token hwindow hstart, Nat.sub_zero]
        refine ⟨_, rfl, ?_⟩
        simpa only [hbuffer, hn] using hplace
      · simp only [closePosition, if_neg hsize, if_neg hstart]
        exact Or.inl (Or.inl rfl)
  stepBack := by
    intro i j h
    obtain ⟨hreader, hbuffer, hn, hl, hd, pieces, garbage, hio, hne, hwindow⟩ := h
    refine ⟨_, rfl, hreader, hbuffer, by simp only [hn], hl, hd, pieces, garbage, hio, hne, ?_⟩
    simp only
    split
    · next hallocated =>
      rw [if_pos hallocated] at hwindow
      exact ⟨by omega, hwindow.2⟩
    · next hallocated =>
      rw [if_neg hallocated] at hwindow
      exact ⟨by omega, hwindow.2⟩
  decoder := fun i j h => h.2.2.2.2.1
  setDecoder := by
    intro i j d h
    obtain ⟨hreader, hbuffer, hn, hl, -, hrest⟩ := h
    exact ⟨hreader, hbuffer, hn, hl, rfl, hrest⟩
  returned := trivial
  fault := trivial
  outOfFuel := trivial

/-- A memory reader beside itself: it has none of the failures of an IO reader. -/
def Memory (i j : Input) : Prop := i = j ∧ i.reader = .memory ∧ i.buffer.preTotData = 0

lemma memoryReader_sim : InputSim Memory (fun _ => False) (fun e => ¬ IoFailure e) where
  nextByte := by
    rintro i j ⟨rfl, hreader, hpre⟩
    by_cases hnext : i.next < i.buffer.buff.length
    · have hbyte : i.buffer.byteAt i.next = some i.buffer.buff[i.next] := by
        simp [Buffer.byteAt, hpre, List.getElem?_eq_getElem hnext]
      simp only [nextByte, hreader, if_pos hnext, fetch, hbyte]
      exact ⟨_, rfl, rfl, rfl, hpre⟩
    · simp only [nextByte, hreader, if_neg hnext]
      exact ⟨_, rfl, rfl, hreader, hpre⟩
  openPosition := by
    rintro i j ⟨rfl, hreader, hpre⟩
    exact ⟨_, rfl, rfl, hreader, hpre⟩
  closePosition := by
    rintro start back i j ⟨rfl, hreader, hpre⟩
    by_cases hsize : i.next - back - (start + 1) = 0
    · simp only [closePosition, if_pos hsize]
      exact ⟨_, rfl, rfl, hreader, hpre⟩
    · simp only [closePosition, if_neg hsize, hpre, Nat.zero_le, if_true]
      exact ⟨_, rfl, rfl, hreader, hpre⟩
  stepBack := by
    rintro i j ⟨rfl, hreader, hpre⟩
    exact ⟨_, rfl, rfl, hreader, hpre⟩
  decoder := fun i j h => by rw [h.1]
  setDecoder := by
    rintro i j d ⟨rfl, hreader, hpre⟩
    exact ⟨rfl, hreader, hpre⟩
  returned := by simp [IoFailure]
  fault := by simp [IoFailure]
  outOfFuel := by simp [IoFailure]

/-! ### Sequences of results -/

/-- What a caller sees of one call: the reply with the strings the getters
return after it, or how the call ended without a reply. -/
inductive Shown
  | reply (reply : Reply) (strings : Strings)
  | stopped (exit : Exit)
  deriving Repr, DecidableEq

/-- The results of up to `n` calls, the last one being the first -1. -/
def results (fuel : ℕ) : ℕ → Parser → List Shown
  | 0, _ => []
  | n + 1, m =>
    match next fuel m with
    | .returned .failed m => [.reply .failed (getStrings m.state)]
    | .returned reply m => .reply reply (getStrings m.state) :: results fuel n m
    | .stopped exit => [.stopped exit]

/-- One call in two parsers beside each other. -/
lemma next_beside {R : Input → Input → Prop} {bad good : Exit → Prop} (hsim : InputSim R bad good)
    (fuel : ℕ) {m m' : Parser} (h : Beside R m m') :
    (∃ reply n n', next fuel m = .returned reply n ∧ next fuel m' = .returned reply n' ∧
      Beside R n n') ∨
    (∃ e, next fuel m = .stopped e ∧ good e ∧ next fuel m' = .stopped e) ∨
    (∃ e n, nextBody fuel m = .error e n ∧ bad e) := by
  have hrun := nextBody_sim hsim fuel m m' h
  cases hbody : nextBody fuel m with
  | ok reply n =>
    rw [hbody] at hrun
    obtain ⟨n', hbody', hn⟩ := hrun
    exact Or.inl ⟨reply, n, n', by simp only [next, hbody], by simp only [next, hbody'], hn⟩
  | error e n =>
    rw [hbody] at hrun
    rcases hrun with hbad | ⟨hgood, n', hbody', hn⟩
    · exact Or.inr (Or.inr ⟨e, n, rfl, hbad⟩)
    · cases e with
      | returned =>
        exact Or.inl ⟨.failed, n, n', by simp only [next, hbody], by simp only [next, hbody'], hn⟩
      | fault | outsideBuffer | badRequest | outOfFuel =>
        exact Or.inr (Or.inl ⟨_, by simp only [next, hbody], hgood, by simp only [next, hbody']⟩)

/-- No call of the run uses a pointer in front of the current buffer, and none
asks the callback for zero or fewer bytes while there are some left. -/
def StaysInBuffer (fuel n : ℕ) (m : Parser) : Prop :=
  ∀ e, IoFailure e → Shown.stopped e ∉ results fuel n m

lemma results_beside {data : List UInt8} {fuel : ℕ} (n : ℕ) {m m' : Parser}
    (h : Beside (SamePlace data) m m') (hok : StaysInBuffer fuel n m) :
    results fuel n m = results fuel n m' := by
  induction n generalizing m m' with
  | zero => rfl
  | succ n ih =>
    rcases next_beside (ioReader_sim data) fuel h with
      ⟨reply, k, k', hm, hm', hk⟩ | ⟨e, hm, -, hm'⟩ | ⟨e, k, hbody, hbad⟩
    · have hstrings : getStrings k.state = getStrings k'.state := by rw [hk.2]
      cases reply with
      | failed => simp [results, hm, hm', hstrings]
      | event event | char c =>
        have htail : StaysInBuffer fuel n k := by
          intro e he hmem
          apply hok e he
          simp only [results, hm]
          exact List.mem_cons_of_mem _ hmem
        simp [results, hm, hm', hstrings, ih hk htail]
    · simp [results, hm, hm']
    · have hm : next fuel m = .stopped e := by
        rcases hbad with rfl | rfl <;> simp only [next, hbody]
      exact absurd (by simp only [results, hm, List.mem_singleton]) (hok e hbad)

lemma memory_staysInBuffer (fuel n : ℕ) {m : Parser} (h : Beside Memory m m) :
    StaysInBuffer fuel n m := by
  induction n generalizing m with
  | zero => exact fun e _ => List.not_mem_nil
  | succ n ih =>
    intro e he
    rcases next_beside memoryReader_sim fuel h with
      ⟨reply, k, k', hm, hm', hk⟩ | ⟨e', hm, hgood, -⟩ | ⟨-, -, -, hbad⟩
    · rw [hm] at hm'
      cases hm'
      cases reply with
      | failed => simp [results, hm]
      | event event | char c => simpa [results, hm] using ih hk e he
    · simp only [results, hm, List.mem_singleton, Shown.stopped.injEq]
      rintro rfl
      exact hgood he
    · exact absurd hbad id

/-! ### The empty document

The first call returns a byte that was never written, and it must not matter
which one: whatever it starts, the input ends behind it. -/

/-- An IO reader that has nothing left to deliver, between characters. -/
structure Drained (i : Input) : Prop where
  reader : ∃ garbage, i.reader = .io [] garbage
  allocated : i.buffer.allocated = true
  atEnd : i.buffer.preTotData + i.buffer.buff.length ≤ i.next
  noToken : i.lastStart = none
  notPending : ¬ (i.decoder.isError ∧ i.decoder.isCodePoint)

lemma Drained.nextByte {i : Input} (h : Drained i) :
    ∃ i', nextByte i = .ok (-1) i' ∧ Drained i' := by
  obtain ⟨garbage, hreader⟩ := h.reader
  have hnext : ¬ i.next < i.buffer.preTotData + i.buffer.buff.length := Nat.not_lt.mpr h.atEnd
  have hmove : i.buffer.dataMove i.lastStart = some [] := by rw [h.noToken]; rfl
  refine ⟨{ i with buffer := i.buffer.switch [] }, ?_, ⟨garbage, hreader⟩, h.allocated, ?_,
    h.noToken, h.notPending⟩
  · simp only [Guththila.nextByte, hreader, if_pos h.allocated, if_neg hnext, refill, hmove,
      readerRead]
  · simpa [Buffer.switch] using h.atEnd

lemma Drained.decodeLoop {i : Input} (h : Drained i) (rounds : ℕ) :
    ∃ i', decodeLoop (rounds + 1) i = .ok (-1) i' ∧ Drained i' := by
  obtain ⟨i', hbyte, h'⟩ := h.nextByte
  exact ⟨i', decodeLoop_end hbyte rounds, h'⟩

lemma Drained.nextChar {m : Parser} (h : Drained m.input) :
    ∃ i, reading nextChar m = .ok (-1) { m with input := i } ∧ Drained i := by
  obtain ⟨i, hloop, hi⟩ := h.decodeLoop 3
  refine ⟨i, ?_, hi⟩
  simp only [reading, nextChar_ready h.notPending, hloop]

/-- A byte between two characters never leaves a code point behind an error. -/
lemma store_ready_notPending {d : Decoder} (hd : d.remainingBytes = 0) (b : UInt8) :
    ¬ ((d.store b).isError ∧ (d.store b).isCodePoint) := by
  simp only [Decoder.store]
  split_ifs <;>
    simp [Decoder.lead, Decoder.followOn, Decoder.reportError, Decoder.replace, Decoder.isError,
      Decoder.isCodePoint, hd]

lemma store_ready_used {d : Decoder} (hd : d.remainingBytes = 0) {b : UInt8}
    (hdone : (d.store b).remainingBytes = 0) (herror : ¬ (d.store b).isError) :
    0 < (d.store b).usedBytes := by
  revert hdone herror
  simp only [Decoder.store]
  split_ifs <;>
    simp [Decoder.lead, Decoder.followOn, Decoder.reportError, Decoder.replace, Decoder.isError, hd]

lemma firstChar_empty (garbage : UInt8) :
    ∃ c i, nextChar (initIo [] garbage).input = .ok c i ∧ Drained i := by
  let i : Input := ⟨.io [] garbage, ⟨[], bufferDefSize, 0, true⟩, 1, none, utf8DecoderCreate⟩
  have hbyte : nextByte (initIo [] garbage).input = .ok garbage.toNat i := rfl
  let d := i.decoder.store (UInt8.ofNat garbage.toNat)
  have hdrained : Drained { i with decoder := d } :=
    ⟨⟨garbage, rfl⟩, rfl, Nat.zero_le 1, rfl, store_ready_notPending rfl _⟩
  rw [nextChar_ready (by simp [initIo, utf8DecoderCreate, Decoder.isError]), decodeLoop_byte hbyte]
  by_cases herror : d.isError = true
  · exact ⟨-1, _, if_pos herror, hdrained⟩
  by_cases hdone : d.remainingBytes = 0
  · have hused : 0 < d.usedBytes := store_ready_used rfl hdone herror
    exact ⟨_, _, (if_neg herror).trans ((if_pos hdone).trans (if_pos hused)), hdrained⟩
  · obtain ⟨i', hloop, hi'⟩ := hdrained.decodeLoop 2
    exact ⟨-1, i', (if_neg herror).trans ((if_neg hdone).trans hloop), hi'⟩

lemma reading_ok {α : Type} {p : Reading α} {m : Parser} {a : α} {i : Input}
    (h : p m.input = .ok a i) : reading p m = .ok a { m with input := i } := by
  simp only [reading, h]

/-- After `<` and nothing else the call returns -1. -/
lemma markup_drained (fuel : ℕ) {m : Parser} (h : Drained m.input) :
    ∃ i, markup (fuel + 1) m = .ok .failed { m with input := i } := by
  obtain ⟨i, hchar, -⟩ := h.nextChar
  exact ⟨i, (bind_ok hchar).trans rfl⟩

lemma leadingSpace_drained (fuel : ℕ) (c : ℤ) {m : Parser} (h : Drained m.input) :
    (∃ i, leadingSpace (fuel + 1) c m = .error .returned { m with input := i }) ∨
      leadingSpace (fuel + 1) c m = .ok c m := by
  by_cases hspace : isspace c = true
  · left
    obtain ⟨i, hchar, -⟩ := h.nextChar
    exact ⟨i, (run_ite_pos hspace).trans ((bind_ok hchar).trans rfl)⟩
  · exact Or.inr (run_ite_neg hspace)

lemma cleanUp_initIo (garbage : UInt8) :
    cleanUp (initIo [] garbage) = .ok () (initIo [] garbage) := rfl

lemma next_empty (fuel : ℕ) (garbage : UInt8) :
    ∃ m, next (fuel + 1) (initIo [] garbage) = .returned .failed m ∧
      getStrings m.state = getStrings initialState := by
  obtain ⟨c, i, hchar, hi⟩ := firstChar_empty garbage
  have hbody : nextBody (fuel + 1) (initIo [] garbage) =
      (leadingSpace (fuel + 1) c >>= fun c =>
        if c = ch '<' then (do
          modifyState fun s => { s with status := .s2 }
          markup (fuel + 1))
        else return .failed) ⟨i, initialState⟩ :=
    (bind_ok (cleanUp_initIo garbage)).trans ((bind_ok (reading_ok hchar)).trans rfl)
  rcases leadingSpace_drained fuel c (m := ⟨i, initialState⟩) hi with ⟨i', hspace⟩ | hspace
  · exact ⟨_, by rw [next, hbody, bind_error hspace], rfl⟩
  · by_cases hopen : c = ch '<'
    · obtain ⟨i', hmarkup⟩ :=
        markup_drained fuel (m := ⟨i, { initialState with status := .s2 }⟩) hi
      refine ⟨⟨i', { initialState with status := .s2 }⟩, ?_, rfl⟩
      have hrest := (bind_ok (f := fun _ => markup (fuel + 1)) (s := ⟨i, initialState⟩)
        (p := modifyState fun s => { s with status := .s2 }) rfl).trans hmarkup
      rw [next, hbody, bind_ok hspace, run_ite_pos hopen, hrest]
    · exact ⟨_, by rw [next, hbody, bind_ok hspace, run_ite_neg hopen]; rfl, rfl⟩

/-- Both readers return -1 for the empty document and show no strings. -/
lemma results_empty (fuel n : ℕ) (garbage : UInt8) :
    results fuel n (initIo [] garbage) = results fuel n (initMemory []) := by
  cases n with
  | zero => rfl
  | succ n =>
    cases fuel with
    | zero =>
      obtain ⟨c, i, hchar, -⟩ := firstChar_empty garbage
      have hbody : nextBody 0 (initIo [] garbage) = .error .outOfFuel ⟨i, initialState⟩ :=
        (bind_ok (cleanUp_initIo garbage)).trans ((bind_ok (reading_ok hchar)).trans rfl)
      have hnext : next 0 (initIo [] garbage) = .stopped .outOfFuel := by
        simp only [next, hbody]
      simp only [results, hnext]
      rfl
    | succ fuel =>
      obtain ⟨m, hnext, hstrings⟩ := next_empty fuel garbage
      simp only [results, hnext, hstrings]
      rfl

end Axis2C.Guththila
