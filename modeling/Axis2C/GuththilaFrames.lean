import Axis2C.GuththilaTags
import Mathlib.Tactic

/-!
# Calls that leave the stacks alone

Text, comments, skipped markup and XML declarations neither push nor pop an
element and declare no namespace.
-/
namespace Axis2C.Guththila
open StatefulRuns

variable {data : List UInt8}

/-! ### Reading -/

lemma decodeLoop_holds : Holds (OnData data) (decodeLoop 4)
    (fun c i => OnData data i ∧ (c ≠ -1 → i.decoder.Ready)) (OnData data) := by
  intro i hi
  have hrounds : enoughRounds i.decoder 4 := by
    have howed := hi.2.2.owed
    unfold enoughRounds
    split <;> omega
  rw [decodeLoop_scan _ hi rfl 4 hrounds]
  exact ⟨⟨hi.1, hi.2.1, scanLoop_sound hi.2.2 _⟩, scanLoop_ready⟩

lemma pendingChar_holds : Holds (OnData data) pendingChar
    (fun r i => OnData data i ∧ (r ≠ none → i.decoder.Ready)) (OnData data) := by
  intro i hi
  unfold pendingChar
  by_cases hpending : i.decoder.isError ∧ i.decoder.isCodePoint
  · simp only [if_pos hpending]
    exact ⟨⟨hi.1, hi.2.1, sound_clear _⟩, fun _ => ⟨rfl, by simp [utf8DecoderClear, Decoder.isError]⟩⟩
  · simp only [if_neg hpending]
    exact ⟨hi, fun h => absurd rfl h⟩

lemma nextChar_holds : Holds (OnData data) nextChar
    (fun c i => OnData data i ∧ (c ≠ -1 → i.decoder.Ready)) (OnData data) := by
  apply Holds.bind pendingChar_holds
  intro r
  cases r with
  | none => exact decodeLoop_holds.mono (fun i h => h.1) (fun c i h => h) fun i h => h
  | some c => exact Holds.pure fun i h => ⟨h.1, fun _ => h.2 (by simp)⟩

lemma noCharLoop_holds (no : ℕ) : Keeps (OnData data) (noCharLoop no) := by
  induction no with
  | zero => exact Keeps.pure _
  | succ no ih =>
    apply Keeps.bind (decodeLoop_holds.mono (fun i h => h) (fun c i h => h.1) fun i h => h)
    intro c
    apply Keeps.ite (Keeps.pure _)
    apply Keeps.bind ih
    intro r
    cases r with
    | none | some cs => exact Keeps.pure _

lemma nextNoChar_holds (no : ℕ) : Keeps (OnData data) (nextNoChar no) := by
  cases no with
  | zero => exact Keeps.pure _
  | succ no =>
    apply Keeps.bind (pendingChar_holds.mono (fun i h => h) (fun r i h => h.1) fun i h => h)
    intro r
    cases r with
    | none => exact noCharLoop_holds (no + 1)
    | some c =>
      apply Keeps.bind (noCharLoop_holds no)
      intro r
      cases r with
      | none | some cs => exact Keeps.pure _

/-! ### Programs that only read -/

/-- A memory reader, and a property of the other fields. -/
def On (data : List UInt8) (T : State → Prop) (m : Parser) : Prop := OnData data m.input ∧ T m.state

section Reading

variable {T : State → Prop}

lemma reading_keeps {α : Type} {p : Reading α} (hp : Keeps (OnData data) p) :
    Keeps (On data T) (reading p) := by
  intro m hm
  have hrun := hp m.input hm.1
  unfold reading
  cases hpm : p m.input with
  | ok a i | error e i => rw [hpm] at hrun; exact ⟨hrun, hm.2⟩

lemma nextChar_keeps : Keeps (On data T) (reading nextChar) :=
  reading_keeps (nextChar_holds.mono (fun _ h => h) (fun _ _ h => h.1) fun _ h => h)

/-- An ASCII character, with the place in front of it. -/
lemma nextChar_ascii (p : Place) :
    Holds (fun m => On data T m ∧ m.input.place = p) (reading nextChar)
      (fun c m => On data T m ∧ (c ≠ -1 → c < 128 → ∃ d : Ch, d.code = c ∧
        ReadsChar data p d m.input.place ∧ (p.decoder.Ready ∨ d.bytes = [])))
      (On data T) := by
  rintro m ⟨hm, rfl⟩
  obtain ⟨i, hrun, hi, -⟩ := nextChar_scan hm.1
  simp only [reading, hrun]
  refine ⟨⟨hi, hm.2⟩, fun hfound hascii => ?_⟩
  obtain ⟨d, p, hd, hready⟩ := readsChar_ascii (p := m.input.place) hm.1.2.2 hfound hascii
  obtain ⟨i', hrun', -, hp⟩ := hd.run hm.1
  rw [hrun] at hrun'
  obtain ⟨hcode, rfl⟩ := EStateM.Result.ok.inj hrun'
  exact ⟨d, hcode.symm, hp ▸ hd, hready⟩

lemma nextNoChar_keeps (no : ℕ) : Keeps (On data T) (reading (nextNoChar no)) :=
  reading_keeps (nextNoChar_holds no)

lemma getState_keeps : Keeps (On data T) getState := fun _ hm => hm

lemma modifyState_keeps {f : State → State} (hf : ∀ s, T s → T (f s)) :
    Keeps (On data T) (modifyState f) := fun _ hm => ⟨hm.1, hf _ hm.2⟩

lemma skipSpaces_keeps (fuel : ℕ) (c : ℤ) : Keeps (On data T) (skipSpaces fuel c) := by
  induction fuel generalizing c with
  | zero => exact Keeps.throw _
  | succ fuel ih =>
    apply Keeps.ite _ (Keeps.pure _)
    exact Keeps.bind nextChar_keeps ih

lemma processEqu_keeps (fuel : ℕ) (c quote : ℤ) : Keeps (On data T) (processEqu fuel c quote) := by
  apply Keeps.bind (skipSpaces_keeps fuel c)
  intro c
  apply Keeps.ite _ (Keeps.pure _)
  exact Keeps.bind nextChar_keeps (skipSpaces_keeps fuel)

lemma valueLoop_keeps (quote : ℤ) (fuel : ℕ) (c : ℤ) :
    Keeps (On data T) (valueLoop quote fuel c) := by
  induction fuel generalizing c with
  | zero => exact Keeps.throw _
  | succ fuel ih =>
    apply Keeps.ite (Keeps.pure _)
    apply Keeps.ite (Keeps.throw _)
    exact Keeps.bind nextChar_keeps ih

lemma textLoop_keeps (fuel : ℕ) (whiteSpace : Bool) :
    Keeps (On data T) (textLoop fuel whiteSpace) := by
  induction fuel generalizing whiteSpace with
  | zero => exact Keeps.throw _
  | succ fuel ih =>
    apply Keeps.bind nextChar_keeps
    intro c
    apply Keeps.ite (Keeps.throw _)
    exact Keeps.ite (Keeps.pure _) (ih _)

lemma closePosition_ok {i : Input} (hi : OnData data i) (start back : ℕ) :
    ∃ tok, closePosition start back i = .ok tok { i with lastStart := none } := by
  simp only [closePosition, hi.2.1, Nat.zero_le, if_true]
  split_ifs
  · exact ⟨[], rfl⟩
  · exact ⟨_, rfl⟩

lemma closePosition_keeps (start back : ℕ) :
    Keeps (On data T) (reading (closePosition start back)) := by
  apply reading_keeps
  intro i hi
  obtain ⟨tok, hclose⟩ := closePosition_ok hi start back
  rw [hclose]
  exact hi

/-- `tempTok` is free to change. -/
lemma tokenOpen_keeps (hT : ∀ s start, T s → T { s with tempTok := some start }) :
    Keeps (On data T) tokenOpen := fun _ hm => ⟨hm.1, hT _ _ hm.2⟩

lemma tokenCloseBack_holds {T' : State → Prop} (back : ℕ) {type : TokType}
    (hT : ∀ s tok, T s → T' (s.close tok type)) :
    Holds (On data T) (tokenCloseBack back type) (fun _ => On data T') (On data T) := by
  apply Holds.bind getState_keeps
  intro s
  cases s.tempTok with
  | none => exact Holds.throw fun _ hm => hm
  | some start =>
    apply Holds.bind (closePosition_keeps start back)
    exact fun tok m hm => ⟨hm.1, hT m.state tok hm.2⟩

lemma tokenCloseBack_keeps (back : ℕ) {type : TokType} (hT : ∀ s tok, T s → T (s.close tok type)) :
    Keeps (On data T) (tokenCloseBack back type) :=
  tokenCloseBack_holds back hT

end Reading

/-! ### Text and comments -/

/-- Given stacks; an `event` left over from an empty element is not followed by a name. -/
structure Untouched (elem : List Element) (namesp : List (List Namespace)) (s : State) : Prop where
  elem : s.elem = elem
  namesp : s.namesp = namesp
  stale : s.event = some .emptyElement → s.name = none

/-- Also, no prefix has been read for the next name. -/
structure SameStacks (elem : List Element) (namesp : List (List Namespace)) (s : State) : Prop
    extends Untouched elem namesp s where
  noPrefix : s.tempPrefix = none

def Reply.Quiet (r : Reply) : Prop :=
  r ≠ .event .startElement ∧ r ≠ .event .emptyElement ∧ r ≠ .event .endElement

lemma quiet_failed : Reply.failed.Quiet := by simp [Reply.Quiet]

/-- From given stacks to the same stacks, with a quiet reply. -/
def Passes (data : List UInt8) (elem : List Element) (namesp : List (List Namespace))
    (p : Parse Reply) : Prop :=
  Holds (On data (SameStacks elem namesp)) p
    (fun r m => r.Quiet ∧ On data (Untouched elem namesp) m) (On data (Untouched elem namesp))

section Frames

variable {elem : List Element} {namesp : List (List Namespace)}
variable {first : Char} {rest : String}

lemma On.untouched {m : Parser} (h : On data (SameStacks elem namesp) m) :
    On data (Untouched elem namesp) m :=
  ⟨h.1, h.2.toUntouched⟩

lemma Passes.pure {r : Reply} (h : r.Quiet) : Passes data elem namesp (pure r) :=
  Holds.pure fun _ hm => ⟨h, hm.untouched⟩

lemma Passes.throw (e : Exit) : Passes data elem namesp (throw e) :=
  Holds.throw fun _ hm => hm.untouched

lemma Passes.bind {α : Type} {p : Parse α} {f : α → Parse Reply}
    (hp : Keeps (On data (SameStacks elem namesp)) p) (hf : ∀ a, Passes data elem namesp (f a)) :
    Passes data elem namesp (p >>= f) :=
  Holds.bind (hp.mono (fun _ h => h) (fun _ _ h => h) fun _ h => h.untouched) hf

lemma Passes.ite {c : Prop} [Decidable c] {p q : Parse Reply} (hp : Passes data elem namesp p)
    (hq : Passes data elem namesp q) : Passes data elem namesp (if c then p else q) :=
  Holds.ite (fun _ => hp) fun _ => hq

lemma setEvent_keeps {event : Event} (h : event ≠ .emptyElement) :
    Keeps (On data (SameStacks elem namesp)) (modifyState fun s => { s with event := some event }) :=
  modifyState_keeps fun _ hs =>
    ⟨⟨hs.elem, hs.namesp, fun hevent => absurd (Option.some.inj hevent) h⟩, hs.noPrefix⟩

lemma tokenOpen_stacks : Keeps (On data (SameStacks elem namesp)) tokenOpen :=
  tokenOpen_keeps fun _ _ h => ⟨⟨h.elem, h.namesp, h.stale⟩, h.noPrefix⟩

lemma tokenClose_charData (back : ℕ) :
    Keeps (On data (SameStacks elem namesp)) (tokenCloseBack back .charData) :=
  tokenCloseBack_keeps back fun _ _ h => ⟨⟨h.elem, h.namesp, h.stale⟩, h.noPrefix⟩

lemma tokenClose_textData :
    Keeps (On data (SameStacks elem namesp)) (tokenClose .textData) :=
  tokenCloseBack_keeps 0 fun _ _ h => ⟨⟨h.elem, h.namesp, h.stale⟩, h.noPrefix⟩

lemma commentLoop_passes (fuel : ℕ) : Passes data elem namesp (commentLoop fuel) := by
  induction fuel with
  | zero => exact Passes.throw _
  | succ fuel ih =>
    apply Passes.bind nextChar_keeps
    intro c
    apply Passes.ite _ ih
    apply Passes.bind (nextNoChar_keeps 2)
    intro r
    split
    · apply Passes.ite _ ih
      apply Passes.ite _ (Passes.pure quiet_failed)
      apply Passes.bind (setEvent_keeps (by decide))
      intro _
      apply Passes.bind (tokenClose_charData 2)
      exact fun _ => Passes.pure (by simp [Reply.Quiet])
    · exact ih

lemma skipLoop_passes (fuel : ℕ) (c : ℤ) : Passes data elem namesp (skipLoop fuel c) := by
  induction fuel generalizing c with
  | zero => exact Passes.throw _
  | succ fuel ih =>
    apply Passes.ite (Passes.pure (by simp [Reply.Quiet]))
    apply Passes.ite (Passes.pure quiet_failed)
    exact Passes.bind nextChar_keeps ih

lemma declaration_passes (fuel : ℕ) : Passes data elem namesp (declaration fuel) := by
  apply Passes.bind (nextNoChar_keeps 2)
  intro r
  apply Passes.ite
  · apply Passes.bind nextChar_keeps
    intro _
    exact Passes.bind tokenOpen_stacks fun _ => commentLoop_passes fuel
  · exact Passes.bind nextChar_keeps (skipLoop_passes fuel)

lemma stepBack_keeps {T : State → Prop} : Keeps (On data T) (reading stepBack) := fun _ hm => hm

lemma text_passes (fuel : ℕ) (c : ℤ) : Passes data elem namesp (text fuel c) := by
  apply Passes.bind (setEvent_keeps (by decide))
  intro _
  apply Passes.bind tokenOpen_stacks
  intro _
  apply Passes.bind (textLoop_keeps fuel _)
  intro whiteSpace
  apply Passes.bind tokenClose_textData
  intro _
  apply Passes.bind stepBack_keeps
  intro _
  apply Passes.ite _ (Passes.pure (by simp [Reply.Quiet]))
  exact Passes.bind (setEvent_keeps (by decide)) fun _ => Passes.pure (by simp [Reply.Quiet])

/-! ### XML declarations

The parts of an XML declaration are read like attributes. Their names do not
begin with the first letter of `xmlns`, so none of them is a declaration of a
namespace. -/

/-- `c` is the character read last, by its own bytes or out of the decoder. -/
def JustRead (data : List UInt8) (c : ℤ) (p : Place) : Prop :=
  ∃ d q, d.code = c ∧ ReadsChar data q d p ∧ q.decoder.Sound ∧ (q.decoder.Ready ∨ d.bytes = [])

/-- The same stacks, with the character read last if it is ASCII. -/
def FrameAt (data : List UInt8) (elem : List Element) (namesp : List (List Namespace)) (c : ℤ)
    (m : Parser) : Prop :=
  On data (SameStacks elem namesp) m ∧ (c ≠ -1 → c < 128 → JustRead data c m.input.place)

lemma nextChar_frameAt :
    Holds (On data (SameStacks elem namesp)) (reading nextChar) (FrameAt data elem namesp)
      (On data (SameStacks elem namesp)) := by
  intro m hm
  have hread := nextChar_ascii m.input.place m ⟨hm, rfl⟩
  cases hrun : reading nextChar m with
  | error e m' => rw [hrun] at hread; exact hread
  | ok c m' =>
    rw [hrun] at hread
    refine ⟨hread.1, fun hfound hascii => ?_⟩
    obtain ⟨d, hcode, hd, hready⟩ := hread.2 hfound hascii
    exact ⟨d, m.input.place, hcode, hd, hm.1.2.2, hready⟩

lemma skipSpaces_frameAt (fuel : ℕ) (c : ℤ) :
    Holds (FrameAt data elem namesp c) (skipSpaces fuel c) (FrameAt data elem namesp)
      (On data (SameStacks elem namesp)) := by
  induction fuel generalizing c with
  | zero => exact Holds.throw fun _ hm => hm.1
  | succ fuel ih =>
    apply Holds.ite
    · intro _
      exact Holds.bind (nextChar_frameAt.mono (fun _ h => h.1) (fun _ _ h => h) fun _ h => h) ih
    · exact fun _ => Holds.pure fun _ hm => hm

/-- No token that begins at `start` is `xmlns`. -/
def NamedApart (data : List UInt8) (start : ℕ) : Prop := ∀ size, (data.drop start).take size ≠ xmlns

lemma namedApart_of_head {start : ℕ} {b : UInt8} {bs : List UInt8} (h : data.drop start = b :: bs)
    (hb : b ≠ 120) : NamedApart data start := by
  intro size heq
  rw [h] at heq
  cases size with
  | zero => simp [xmlns, textBytes] at heq
  | succ size =>
    have hhead := (List.cons.inj heq).1
    exact hb hhead

/-- A token is open that will not be `xmlns`. -/
def NameOpen (data : List UInt8) (elem : List Element) (namesp : List (List Namespace))
    (s : State) : Prop :=
  SameStacks elem namesp s ∧ ∃ start, s.tempTok = some start ∧ NamedApart data start

/-- A name that is not `xmlns` has been read. -/
def NameRead (elem : List Element) (namesp : List (List Namespace)) (s : State) : Prop :=
  SameStacks elem namesp s ∧ s.tempName ≠ some xmlns

lemma tokenClose_nameRead :
    Holds (On data (NameOpen data elem namesp)) (tokenClose .attributeName)
      (fun _ => On data (NameRead elem namesp)) (On data (SameStacks elem namesp)) := by
  rintro m ⟨hdata, hstacks, start, hstart, hapart⟩
  obtain ⟨tok, htok, hrun⟩ : ∃ tok, tok ≠ xmlns ∧ closePosition start 0 m.input =
      .ok tok { m.input with lastStart := none } := by
    simp only [closePosition, hdata.2.1, Nat.zero_le, if_true, Nat.sub_zero]
    split_ifs
    · exact ⟨[], by simp [xmlns, textBytes], rfl⟩
    · exact ⟨_, hapart _, rfl⟩
  have hclose : tokenClose .attributeName m =
      .ok () ⟨{ m.input with lastStart := none }, m.state.close tok .attributeName⟩ := by
    refine (bind_ok (getState_run m)).trans ?_
    rw [hstart]
    have hread : reading (closePosition start 0) m =
        .ok tok ⟨{ m.input with lastStart := none }, m.state⟩ := by
      simp only [reading, hrun]
    exact bind_ok hread
  rw [hclose]
  exact ⟨hdata, ⟨⟨hstacks.elem, hstacks.namesp, hstacks.stale⟩, hstacks.noPrefix⟩,
    fun h => htok (Option.some.inj h)⟩

/-- The value of a name that is not `xmlns` declares nothing. -/
lemma close_attributeValue {s : State} (h : NameRead elem namesp s) (tok : Token) :
    SameStacks elem namesp (s.close tok .attributeValue) := by
  have hdeclares : ¬ (s.tempPrefix = some xmlns ∨ s.tempName = some xmlns) := by
    rintro (hpref | hname)
    · rw [h.1.noPrefix] at hpref; cases hpref
    · exact h.2 hname
  simp only [State.close, if_neg hdeclares]
  exact ⟨⟨h.1.elem, h.1.namesp, h.1.stale⟩, rfl⟩

/-- A first character that was found is ASCII only if its byte comes next. -/
lemma nextNoChar_head (no : ℕ) {i : Input} (hi : OnData data i) (hready : i.decoder.Ready) {c : ℤ}
    {cs : List ℤ} {i' : Input} (hrun : nextNoChar (no + 1) i = .ok (some (c :: cs)) i')
    (hascii : c < 128) : ∃ bs, data.drop i.next = UInt8.ofNat c.toNat :: bs := by
  have hpending : pendingChar i = .ok none i := by
    simp only [pendingChar, if_neg hready.2]
  have hstart : nextNoChar (no + 1) i = noCharLoop (no + 1) i := bind_ok hpending
  have hrounds : enoughRounds i.decoder 4 := by
    unfold enoughRounds
    rw [if_pos hready.1]
  have hloop := decodeLoop_scan _ hi rfl 4 hrounds
  have hscan : scanChar i.decoder (data.drop i.next) = scanLoop i.decoder (data.drop i.next) :=
    if_neg hready.2
  rw [hstart, noCharLoop, bind_ok hloop] at hrun
  rcases readsChar_or_none data (p := i.place) hi.2.2 hready with hnone | ⟨d, p, hd⟩
  · have hfound : (scanLoop i.decoder (data.drop i.next)).1 = -1 := hscan ▸ hnone
    rw [run_ite_pos hfound] at hrun
    cases hrun
  · have hcode : (scanLoop i.decoder (data.drop i.next)).1 = d.code :=
      hscan ▸ congrArg Prod.fst hd.scan
    have hfound : ¬ (scanLoop i.decoder (data.drop i.next)).1 = -1 := hcode ▸ hd.found
    rw [run_ite_neg hfound] at hrun
    have hc : c = d.code := by
      cases hrest : noCharLoop no
          (i.scanned (scanLoop i.decoder (data.drop i.next)) (data.drop i.next)) with
      | error e i => rw [bind_error hrest] at hrun; cases hrun
      | ok r i =>
        rw [bind_ok hrest] at hrun
        cases r with
        | none => cases hrun
        | some cs' =>
          have hlist := Option.some.inj (EStateM.Result.ok.inj hrun).1
          rw [← (List.cons.inj hlist).1, hcode]
    have hbytes := hd.ascii_bytes hi.2.2 hready (hc ▸ hascii)
    refine ⟨data.drop p.next, ?_⟩
    rw [hc, ← List.singleton_append, ← hbytes]
    exact hd.bytes

/-- The place at which a token is opened behind an ASCII character. -/
lemma openPosition_named {c : ℤ} {p : Place} (hc : JustRead data c p) (hascii : c < 128)
    (hx : UInt8.ofNat c.toNat ≠ 120) :
    NamedApart data (p.next - p.decoder.usedBytes) ∨
      (p.decoder.Ready ∧ p.next - p.decoder.usedBytes = p.next) := by
  obtain ⟨d, q, hcode, hread, hsound, hready⟩ := hc
  have hnext := hread.next
  have hused := hread.used
  rcases hready with hready | hkept
  · left
    have hbytes := hread.ascii_bytes hsound hready (hcode ▸ hascii)
    have hstart : p.next - p.decoder.usedBytes = q.next := by omega
    have hdrop := hread.bytes
    rw [hbytes, hcode, List.singleton_append] at hdrop
    rw [hstart]
    exact namedApart_of_head hdrop hx
  · right
    rw [hkept] at hused
    exact ⟨hread.ready, by rw [hused]; rfl⟩

/-- What is left of a name after its first letter. -/
structure PartName (first : Char) (rest : String) : Prop where
  ascii : ch first < 128
  apart : UInt8.ofNat (ch first).toNat ≠ 120
  second : ∃ c cs, rest.toList.map ch = c :: cs ∧ c < 128 ∧ UInt8.ofNat c.toNat ≠ 120

lemma partName_version : PartName 'v' "ersion" :=
  ⟨by decide, by decide, _, _, rfl, by decide, by decide⟩

lemma partName_encoding : PartName 'e' "ncoding" :=
  ⟨by decide, by decide, _, _, rfl, by decide, by decide⟩

lemma partName_standalone : PartName 's' "tandalone" :=
  ⟨by decide, by decide, _, _, rfl, by decide, by decide⟩

/-- The name of a part of the declaration: its token is not `xmlns`, if it is read to the end. -/
lemma partName_open (hname : PartName first rest) {m : Parser}
    (hm : FrameAt data elem namesp (ch first) m) :
    ∃ m₁, tokenOpen m = .ok () m₁ ∧ On data (SameStacks elem namesp) m₁ ∧
      ∀ m₂, reading (nextNoChar rest.length) m₁ = .ok (some (rest.toList.map ch)) m₂ →
        On data (NameOpen data elem namesp) m₂ := by
  obtain ⟨⟨hdata, hstacks⟩, hread⟩ := hm
  have hread := hread (by unfold ch; omega) hname.ascii
  have hstacks₁ : SameStacks elem namesp { m.state with
      tempTok := some (m.input.next - m.input.decoder.usedBytes) } :=
    ⟨⟨hstacks.elem, hstacks.namesp, hstacks.stale⟩, hstacks.noPrefix⟩
  refine ⟨⟨{ m.input with lastStart := some (m.input.next - m.input.decoder.usedBytes) }, _⟩, rfl,
    ⟨hdata, hstacks₁⟩, ?_⟩
  intro m₂ hrun
  have hkeeps := reading_keeps (T := fun s => s = { m.state with
      tempTok := some (m.input.next - m.input.decoder.usedBytes) })
    (@nextNoChar_holds data rest.length)
    ⟨{ m.input with lastStart := some (m.input.next - m.input.decoder.usedBytes) }, _⟩ ⟨hdata, rfl⟩
  rw [hrun] at hkeeps
  refine ⟨hkeeps.1, ?_⟩
  rw [hkeeps.2]
  refine ⟨hstacks₁, _, rfl, ?_⟩
  rcases openPosition_named hread hname.ascii hname.apart with hapart | ⟨hready, hstart⟩
  · exact hapart
  · obtain ⟨c, cs, hrest, hascii, hx⟩ := hname.second
    have hlength : rest.length = cs.length + 1 := by
      have hlist := congrArg List.length hrest
      rw [List.length_map, String.length_toList] at hlist
      exact hlist
    rw [hrest, hlength] at hrun
    simp only [reading] at hrun
    split at hrun
    · next a i' hinput =>
        obtain ⟨rfl, -⟩ := EStateM.Result.ok.inj hrun
        obtain ⟨bs, hbs⟩ := nextNoChar_head cs.length (i := { m.input with
          lastStart := some (m.input.next - m.input.decoder.usedBytes) }) hdata hready hinput hascii
        have hbs' : data.drop m.input.next = UInt8.ofNat c.toNat :: bs := hbs
        have hstart' : m.input.next - m.input.decoder.usedBytes = m.input.next := hstart
        rw [hstart']
        exact namedApart_of_head hbs' hx
    · cases hrun

lemma nameRead_keeps {α : Type} {p : Parse α} (hp : ∀ T : State → Prop, Keeps (On data T) p) :
    Holds (On data (NameRead elem namesp)) p (fun _ => On data (NameRead elem namesp))
      (On data (SameStacks elem namesp)) :=
  (hp _).mono (fun _ h => h) (fun _ _ h => h) fun _ h => ⟨h.1, h.2.1⟩

lemma nameOpen_keeps {α : Type} {p : Parse α} (hp : ∀ T : State → Prop, Keeps (On data T) p) :
    Holds (On data (NameOpen data elem namesp)) p (fun _ => On data (NameOpen data elem namesp))
      (On data (SameStacks elem namesp)) :=
  (hp _).mono (fun _ h => h) (fun _ _ h => h) fun _ h => ⟨h.1, h.2.1⟩

lemma readValue_frameAt (quote : ℤ) (fuel : ℕ) :
    Holds (On data (NameRead elem namesp)) (readValue quote fuel) (FrameAt data elem namesp)
      (On data (SameStacks elem namesp)) := by
  apply Holds.bind (nameRead_keeps fun T => nextChar_keeps)
  intro c
  have hopen : Keeps (On data (NameRead elem namesp)) tokenOpen :=
    tokenOpen_keeps fun _ _ h => ⟨⟨⟨h.1.elem, h.1.namesp, h.1.stale⟩, h.1.noPrefix⟩, h.2⟩
  apply Holds.bind (hopen.mono (fun _ h => h) (fun _ _ h => h) fun _ h => ⟨h.1, h.2.1⟩)
  intro _
  apply Holds.bind (nameRead_keeps fun T => valueLoop_keeps quote fuel c)
  intro _
  apply Holds.bind ((tokenCloseBack_holds 0 fun s tok h => close_attributeValue h tok).mono
    (fun _ h => h) (fun _ _ h => h) fun _ h => ⟨h.1, h.2.1⟩)
  intro _
  exact Holds.bind nextChar_frameAt (skipSpaces_frameAt fuel)

lemma pseudoAttribute_frameAt (hname : PartName first rest) (quote : ℤ) (fuel : ℕ) :
    Holds (FrameAt data elem namesp (ch first)) (pseudoAttribute rest quote fuel)
      (fun r m => On data (SameStacks elem namesp) m ∧ ∀ c q, r = some (c, q) →
        FrameAt data elem namesp c m)
      (On data (SameStacks elem namesp)) := by
  intro m hm
  obtain ⟨m₁, hopen, hm₁, hread⟩ := partName_open hname hm
  rw [pseudoAttribute, bind_ok hopen]
  have hnext := nextNoChar_keeps rest.length m₁ hm₁
  cases hrun : reading (nextNoChar rest.length) m₁ with
  | error e m₂ =>
    rw [hrun] at hnext
    rw [bind_error hrun]
    exact hnext
  | ok r m₂ =>
    rw [hrun] at hnext
    rw [bind_ok hrun]
    by_cases hr : r = some (rest.toList.map ch)
    · rw [run_ite_pos hr]
      refine Holds.bind (nameOpen_keeps fun T => nextChar_keeps) ?_ m₂ (hread m₂ (hr ▸ hrun))
      intro c
      apply Holds.bind tokenClose_nameRead
      intro _
      apply Holds.bind (nameRead_keeps fun T => processEqu_keeps fuel c quote)
      intro quote
      apply Holds.bind (readValue_frameAt quote fuel)
      intro c
      apply Holds.pure
      intro m hm
      refine ⟨hm.1, ?_⟩
      rintro c' q ⟨⟩
      exact hm
    · rw [run_ite_neg hr]
      exact ⟨hnext, fun c q h => by cases h⟩

lemma versionPart_frameAt (fuel : ℕ) (c quote : ℤ) :
    Holds (FrameAt data elem namesp c) (versionPart fuel c quote)
      (fun r => FrameAt data elem namesp r.1) (On data (SameStacks elem namesp)) := by
  apply Holds.ite
  · rintro rfl
    apply Holds.bind (pseudoAttribute_frameAt partName_version quote fuel)
    intro r
    cases r with
    | none => exact Holds.throw fun _ hm => hm.1
    | some r => exact Holds.pure fun _ hm => hm.2 r.1 r.2 rfl
  · exact fun _ => Holds.pure fun _ hm => hm

/-- A part that is left out leaves its first letter behind: `left` are such letters. -/
lemma optionalPart_frameAt (hname : PartName first rest) (left : List ℤ) (hleft : ch first ∉ left)
    (fuel : ℕ) (c quote : ℤ) :
    Holds (fun m => On data (SameStacks elem namesp) m ∧
        (c ∉ left → FrameAt data elem namesp c m)) (optionalPart first rest fuel c quote)
      (fun r m => On data (SameStacks elem namesp) m ∧
        (r.1 ∉ ch first :: left → FrameAt data elem namesp r.1 m))
      (On data (SameStacks elem namesp)) := by
  apply Holds.ite
  · rintro rfl
    apply Holds.bind ((pseudoAttribute_frameAt hname quote fuel).mono (fun _ h => h.2 hleft)
      (fun _ _ h => h) fun _ h => h)
    intro r
    cases r with
    | none => exact Holds.pure fun _ hm => ⟨hm.1, fun h => absurd (List.mem_cons_self ..) h⟩
    | some r => exact Holds.pure fun _ hm => ⟨hm.1, fun _ => hm.2 r.1 r.2 rfl⟩
  · exact fun _ => Holds.pure fun _ hm =>
      ⟨hm.1, fun h => hm.2 fun hmem => h (List.mem_cons_of_mem _ hmem)⟩

lemma processXmlDec_passes (fuel : ℕ) : Passes data elem namesp (processXmlDec fuel) := by
  apply Passes.bind (nextNoChar_keeps 3)
  intro r
  apply Passes.ite _ (Passes.pure quiet_failed)
  apply Holds.bind (nextChar_frameAt.mono (fun _ h => h) (fun _ _ h => h) fun _ h => h.untouched)
  intro c
  apply Holds.bind ((skipSpaces_frameAt fuel c).mono (fun _ h => h) (fun _ _ h => h)
    fun _ h => h.untouched)
  intro c
  apply Holds.bind ((versionPart_frameAt fuel c (-1)).mono (fun _ h => h) (fun _ _ h => h)
    fun _ h => h.untouched)
  intro r
  apply Holds.bind ((optionalPart_frameAt partName_encoding [] (by simp) fuel r.1 r.2).mono
    (fun _ h => ⟨h.1, fun _ => h⟩) (fun _ _ h => h) fun _ h => h.untouched)
  intro r
  apply Holds.bind ((optionalPart_frameAt partName_standalone [ch 'e'] (by decide) fuel
    r.1 r.2).mono (fun _ h => h) (fun _ _ h => h.1) fun _ h => h.untouched)
  intro r
  change Passes data elem namesp _
  apply Passes.ite
  · apply Passes.bind nextChar_keeps
    intro c
    apply Passes.ite _ (Passes.pure quiet_failed)
    exact Passes.bind (setEvent_keeps (by decide)) fun _ => Passes.pure (by simp [Reply.Quiet])
  · exact Passes.ite (Passes.pure quiet_failed) (Passes.pure (by simp [Reply.Quiet]))

end Frames

end Axis2C.Guththila
