import Axis2C.GuththilaCalls

/-!
# Calls of the pull parser that come to an end

The characters a memory reader has left are a finite list, and after it the reader says -1 for
ever. Every loop of `guththila_next` but one ends when it is given -1. The loop over a comment
goes on reading, so that a call comes back exactly when no comment is open to the end of the
input and the clean up has an element to pop.
-/
namespace Axis2C.Guththila
open StatefulRuns

/-! ### The characters left -/

def Decoder.pending (d : Decoder) : Prop := d.isError = true ∧ d.isCodePoint = true

instance (d : Decoder) : Decidable d.pending := inferInstanceAs (Decidable (_ ∧ _))

def aheadLoop : ℕ → Decoder → List UInt8 → List ℤ
  | 0, _, _ => []
  | rounds + 1, d, bs =>
    if bs = [] ∧ ¬ d.pending then []
    else
      let r := scanChar d bs
      r.1 :: aheadLoop rounds r.2.1 r.2.2

/-- The results of the next calls for a character, up to the end of the input. A byte in error
gives -1 among them. -/
def ahead (d : Decoder) (bs : List UInt8) : List ℤ := aheadLoop (2 * bs.length + 2) d bs

def callsLeft (d : Decoder) (bs : List UInt8) : ℕ := 2 * bs.length + if d.pending then 1 else 0

lemma scanLoop_shorter (d : Decoder) {bs : List UInt8} (h : bs ≠ []) :
    (scanLoop d bs).2.2.length < bs.length := by
  cases bs with
  | nil => exact absurd rfl h
  | cons b bs =>
    simp only [scanLoop]
    split_ifs
    · simp
    · simp
    · exact (scanLoop_length _ bs).trans_lt (by simp)

lemma not_pending_clear (d : Decoder) : ¬ (utf8DecoderClear d).pending := by
  simp [Decoder.pending, utf8DecoderClear, Decoder.isError]

lemma scanChar_pending {d : Decoder} (h : d.pending) (bs : List UInt8) :
    scanChar d bs = ((d.codePoint : ℤ), utf8DecoderClear d, bs) :=
  if_pos h

lemma scanChar_not_pending {d : Decoder} (h : ¬ d.pending) (bs : List UInt8) :
    scanChar d bs = scanLoop d bs :=
  if_neg h

lemma callsLeft_scan {d : Decoder} {bs : List UInt8} (h : ¬ (bs = [] ∧ ¬ d.pending)) :
    callsLeft (scanChar d bs).2.1 (scanChar d bs).2.2 < callsLeft d bs := by
  by_cases hpending : d.pending
  · rw [scanChar_pending hpending]
    simp [callsLeft, hpending, not_pending_clear]
  · have hbs : bs ≠ [] := fun hbs => h ⟨hbs, hpending⟩
    have hshorter := scanLoop_shorter d hbs
    rw [scanChar_not_pending hpending]
    simp only [callsLeft, hpending, if_false]
    split <;> omega

lemma aheadLoop_eq {d : Decoder} {bs : List UInt8} {rounds rounds' : ℕ}
    (h : callsLeft d bs < rounds) (h' : callsLeft d bs < rounds') :
    aheadLoop rounds d bs = aheadLoop rounds' d bs := by
  induction rounds generalizing d bs rounds' with
  | zero => omega
  | succ rounds ih =>
    obtain ⟨rounds', rfl⟩ : ∃ k, rounds' = k + 1 := ⟨rounds' - 1, by omega⟩
    simp only [aheadLoop]
    split_ifs with hend
    · rfl
    · have hless := callsLeft_scan hend
      have htail : aheadLoop rounds (scanChar d bs).2.1 (scanChar d bs).2.2 =
          aheadLoop rounds' (scanChar d bs).2.1 (scanChar d bs).2.2 := ih (by omega) (by omega)
      rw [htail]

lemma callsLeft_le (d : Decoder) (bs : List UInt8) : callsLeft d bs < 2 * bs.length + 2 := by
  unfold callsLeft
  split <;> omega

lemma ahead_end {d : Decoder} (h : ¬ d.pending) : ahead d [] = [] := by
  simp [ahead, aheadLoop, h]

lemma ahead_scan {d : Decoder} {bs : List UInt8} (h : ¬ (bs = [] ∧ ¬ d.pending)) :
    ahead d bs = (scanChar d bs).1 :: ahead (scanChar d bs).2.1 (scanChar d bs).2.2 := by
  have hless := callsLeft_scan h
  have hbound := callsLeft_le d bs
  have hloop : aheadLoop (2 * bs.length + 1) (scanChar d bs).2.1 (scanChar d bs).2.2 =
      ahead (scanChar d bs).2.1 (scanChar d bs).2.2 :=
    aheadLoop_eq (by omega) (callsLeft_le _ _)
  rw [← hloop, ahead, aheadLoop, if_neg h]

/-! ### Reading them -/

section Reading

variable {data : List UInt8}
variable {i : Input}

def Input.ahead (data : List UInt8) (i : Input) : List ℤ :=
  Guththila.ahead i.decoder (data.drop i.next)

/-- A call for a character takes one from the list, or gives -1 at its end. -/
lemma nextChar_ahead (h : OnData data i) :
    ∃ i', nextChar i = .ok ((i.ahead data).headD (-1)) i' ∧ OnData data i' ∧
      i'.ahead data = (i.ahead data).tail := by
  obtain ⟨i', hrun, hi', hscanned, hrest⟩ := nextChar_scan h
  have hdecoder : i'.decoder = (scanChar i.decoder (data.drop i.next)).2.1 := by rw [hscanned]; rfl
  by_cases hend : data.drop i.next = [] ∧ ¬ i.decoder.pending
  · have hscan : scanChar i.decoder (data.drop i.next) = (-1, i.decoder, []) := by
      rw [scanChar_not_pending hend.2, hend.1]
      rfl
    have hahead : i.ahead data = [] := by
      rw [Input.ahead, hend.1]
      exact ahead_end hend.2
    have hahead' : i'.ahead data = [] := by
      rw [Input.ahead, hrest, hdecoder, hscan]
      exact ahead_end hend.2
    refine ⟨i', ?_, hi', ?_⟩
    · rw [hrun, hscan, hahead]
      rfl
    · rw [hahead, hahead']
      rfl
  · have hahead : i.ahead data = _ := ahead_scan hend
    refine ⟨i', ?_, hi', ?_⟩
    · rw [hrun, hahead]
      rfl
    · rw [hahead, Input.ahead, hrest, hdecoder]
      rfl

/-- Several characters of the list at once: nothing when one of them is not there. -/
def takeChars : ℕ → List ℤ → Option (List ℤ) × List ℤ
  | 0, cs => (some [], cs)
  | no + 1, cs =>
    if cs.headD (-1) = -1 then (none, cs.tail)
    else ((takeChars no cs.tail).1.map (cs.headD (-1) :: ·), (takeChars no cs.tail).2)

lemma decodeLoop_ahead (h : OnData data i) (hpending : ¬ i.decoder.pending) :
    ∃ i', decodeLoop 4 i = .ok ((i.ahead data).headD (-1)) i' ∧ OnData data i' ∧
      i'.ahead data = (i.ahead data).tail ∧
      ((i.ahead data).headD (-1) ≠ -1 → ¬ i'.decoder.pending) := by
  obtain ⟨i', hrun, hi', hahead⟩ := nextChar_ahead h
  rw [nextChar_ready hpending] at hrun
  refine ⟨i', hrun, hi', hahead, fun hfound hpending' => ?_⟩
  have hready := decodeLoop_holds i h
  rw [hrun] at hready
  exact (hready.2 hfound).2 hpending'

lemma noCharLoop_ahead (no : ℕ) (h : OnData data i) (hpending : ¬ i.decoder.pending) :
    ∃ i', noCharLoop no i = .ok (takeChars no (i.ahead data)).1 i' ∧ OnData data i' ∧
      i'.ahead data = (takeChars no (i.ahead data)).2 := by
  induction no generalizing i with
  | zero => exact ⟨i, rfl, h, rfl⟩
  | succ no ih =>
    obtain ⟨i₁, hrun, hi₁, hahead, hnot⟩ := decodeLoop_ahead h hpending
    by_cases hc : (i.ahead data).headD (-1) = -1
    · refine ⟨i₁, ?_, hi₁, ?_⟩
      · refine (bind_ok hrun).trans ((run_ite_pos hc).trans ?_)
        simp only [takeChars, if_pos hc]
        rfl
      · rw [hahead, takeChars, if_pos hc]
    · obtain ⟨i₂, hrun₂, hi₂, hahead₂⟩ := ih hi₁ (hnot hc)
      rw [hahead] at hrun₂ hahead₂
      refine ⟨i₂, ?_, hi₂, ?_⟩
      · refine (bind_ok hrun).trans ((run_ite_neg hc).trans ((bind_ok hrun₂).trans ?_))
        simp only [takeChars, if_neg hc]
        cases (takeChars no (i.ahead data).tail).1 with
        | none | some cs => rfl
      · rw [hahead₂, takeChars, if_neg hc]

/-- A call for several characters takes them from the list. -/
lemma nextNoChar_ahead (no : ℕ) (h : OnData data i) :
    ∃ i', nextNoChar no i = .ok (takeChars no (i.ahead data)).1 i' ∧ OnData data i' ∧
      i'.ahead data = (takeChars no (i.ahead data)).2 := by
  cases no with
  | zero => exact ⟨i, rfl, h, rfl⟩
  | succ no =>
    by_cases hpending : i.decoder.pending
    · have hrun : pendingChar i = .ok (some (i.decoder.codePoint : ℤ))
          { i with decoder := utf8DecoderClear i.decoder } := by
        unfold pendingChar
        exact if_pos hpending
      have hi₁ : OnData data { i with decoder := utf8DecoderClear i.decoder } :=
        ⟨h.1, h.2.1, sound_clear _⟩
      have hahead : i.ahead data = (i.decoder.codePoint : ℤ) ::
          Input.ahead data { i with decoder := utf8DecoderClear i.decoder } := by
        have hscan : i.ahead data = _ := ahead_scan (by simp [hpending])
        rw [scanChar_pending hpending] at hscan
        exact hscan
      obtain ⟨i₂, hrun₂, hi₂, hahead₂⟩ := noCharLoop_ahead no hi₁ (not_pending_clear _)
      have hc : (i.decoder.codePoint : ℤ) ≠ -1 := by omega
      refine ⟨i₂, ?_, hi₂, ?_⟩
      · refine (bind_ok hrun).trans ((bind_ok hrun₂).trans ?_)
        simp only [takeChars, hahead, List.headD_cons, if_neg hc, List.tail_cons]
        cases (takeChars no (Input.ahead data { i with decoder := utf8DecoderClear i.decoder })).1
          with
        | none | some cs => rfl
      · simp only [takeChars, hahead, List.headD_cons, if_neg hc, List.tail_cons]
        exact hahead₂
    · have hrun : pendingChar i = .ok none i := by
        unfold pendingChar
        exact if_neg hpending
      obtain ⟨i₂, hrun₂, hi₂, hahead₂⟩ := noCharLoop_ahead (no + 1) h hpending
      exact ⟨i₂, (bind_ok hrun).trans hrun₂, hi₂, hahead₂⟩

lemma takeChars_length (no : ℕ) (cs : List ℤ) : (takeChars no cs).2.length ≤ cs.length := by
  induction no generalizing cs with
  | zero => exact le_rfl
  | succ no ih =>
    have htail : cs.tail.length ≤ cs.length := by simp
    simp only [takeChars]
    split
    · exact htail
    · exact (ih _).trans htail

end Reading

/-! ### Loops that end at -1 -/

section Loops

variable {data : List UInt8} {ample : Prop} {n : ℕ} {T : State → Prop} {X : Exit → Parser → Prop}
variable {fuel : ℕ}

/-- At most `n` characters are left. -/
def Rest (data : List UInt8) (n : ℕ) (T : State → Prop) (m : Parser) : Prop :=
  On data T m ∧ (m.input.ahead data).length ≤ n

/-- A call that ends with -1 from inside a loop, or for lack of fuel when it is not `ample`. -/
def GivesUp (data : List UInt8) (ample : Prop) (e : Exit) (m : Parser) : Prop :=
  (e = .returned ∨ ¬ ample ∧ e = .outOfFuel) ∧ OnData data m.input

lemma Rest.mono {n' : ℕ} {T' : State → Prop} {m : Parser} (h : Rest data n T m) (hn : n ≤ n')
    (hT : ∀ s, T s → T' s) : Rest data n' T' m :=
  ⟨⟨h.1.1, hT _ h.1.2⟩, h.2.trans hn⟩

lemma nextChar_rest : Ends (Rest data n T) (reading nextChar)
    (fun c m => Rest data n T m ∧ (c ≠ -1 → 0 < n ∧ Rest data (n - 1) T m)) X := by
  rintro m ⟨⟨hm, hT⟩, hn⟩
  obtain ⟨i, hrun, hi, hahead⟩ := nextChar_ahead hm
  simp only [reading, hrun]
  have htail : (i.ahead data).length = (m.input.ahead data).length - 1 := by simp [hahead]
  refine ⟨⟨⟨hi, hT⟩, by simp only; omega⟩, fun hfound => ?_⟩
  have hpos : 0 < (m.input.ahead data).length := by
    cases hcs : m.input.ahead data with
    | nil => exact absurd (by rw [hcs]; rfl) hfound
    | cons c cs => simp
  exact ⟨by omega, ⟨hi, hT⟩, by simp only; omega⟩

lemma nextNoChar_rest (no : ℕ) : Ends (Rest data n T) (reading (nextNoChar no))
    (fun _ => Rest data n T) X := by
  rintro m ⟨⟨hm, hT⟩, hn⟩
  obtain ⟨i, hrun, hi, hahead⟩ := nextNoChar_ahead no hm
  have hlength := takeChars_length no (m.input.ahead data)
  simp only [reading, hrun]
  exact ⟨⟨hi, hT⟩, by simp only [hahead]; omega⟩

lemma setState_rest {f : State → State} :
    Ends (Rest data n T) (modifyState f) (fun _ => Rest data n fun _ => True) X :=
  fun _ hm => ⟨⟨hm.1.1, trivial⟩, hm.2⟩

lemma modifyState_rest {T' : State → Prop} {f : State → State} (hf : ∀ s, T s → T' (f s)) :
    Ends (Rest data n T) (modifyState f) (fun _ => Rest data n T') X :=
  fun _ hm => ⟨⟨hm.1.1, hf _ hm.1.2⟩, hm.2⟩

lemma getState_rest :
    Ends (Rest data n T) getState (fun s m => Rest data n T m ∧ s = m.state) X :=
  fun _ hm => ⟨hm, rfl⟩

/-- Enough rounds for a loop that has read `c` and finds at most `n` more. -/
def Enough (fuel : ℕ) (c : ℤ) (n : ℕ) : Prop := 1 ≤ fuel ∧ (c ≠ -1 → n + 2 ≤ fuel)

lemma Enough.of_le (h : ample → n + 2 ≤ fuel) (c : ℤ) (ha : ample) :
    Enough fuel c n :=
  ⟨Nat.one_le_of_lt (h ha), fun _ => h ha⟩

lemma Enough.atEnd {c : ℤ} (h : ample → n + 1 ≤ fuel) (hc : c = -1) (ha : ample) :
    Enough fuel c n :=
  ⟨Nat.one_le_of_lt (h ha), fun hne => absurd hc hne⟩

lemma Enough.less (h : ample → n + 1 ≤ fuel) (c : ℤ) (hpos : 0 < n) (ha : ample) :
    Enough fuel c (n - 1) := by
  have hfuel := h ha
  exact ⟨by omega, fun _ => by omega⟩

lemma outOfFuel_rest {α : Type} {Q : α → Parser → Prop} (h : ¬ ample) :
    Ends (Rest data n T) (throw .outOfFuel) Q (GivesUp data ample) :=
  Ends.throw fun _ hm => ⟨.inr ⟨h, rfl⟩, hm.1.1⟩

/-- A character is read and the loop goes round with it. -/
lemma Ends.round {α : Type} {loop : ℕ → ℤ → Parse α} {fuel : ℕ} {Q : α → Parser → Prop}
    (hn : ample → n + 1 ≤ fuel)
    (hloop : ∀ k c, k ≤ n → (ample → Enough fuel c k) → Ends (Rest data k T) (loop fuel c) Q (GivesUp data ample)) :
    Ends (Rest data n T) (do let c ← reading nextChar; loop fuel c) Q (GivesUp data ample) := by
  apply Ends.bind nextChar_rest
  intro c
  by_cases hc : c = -1
  · exact (hloop n c le_rfl (.atEnd hn hc)).mono (fun _ h => h.1) fun _ _ h => h
  · rintro m ⟨-, hm⟩
    obtain ⟨hpos, hm⟩ := hm hc
    exact hloop (n - 1) c (Nat.sub_le n 1) (.less hn c hpos) m hm

lemma skipSpaces_rest (fuel : ℕ) (c : ℤ) (h : ample → Enough fuel c n) :
    Ends (Rest data n T) (skipSpaces fuel c) (fun _ => Rest data n T) (GivesUp data ample) := by
  induction fuel generalizing n c with
  | zero => exact outOfFuel_rest fun ha => absurd (h ha).1 (by omega)
  | succ fuel ih =>
    apply Ends.ite
    · intro hspace
      have hc : c ≠ -1 := by
        rintro rfl
        exact absurd hspace (by decide)
      have hfuel (ha : ample) : n + 1 ≤ fuel := Nat.le_of_succ_le_succ ((h ha).2 hc)
      refine Ends.round hfuel fun k c hk henough => ?_
      exact (ih c henough).mono (fun _ h => h) fun _ _ h => h.mono hk fun _ h => h
    · exact fun _ => Ends.pure fun _ h => h

def Opened (s : State) : Prop := s.tempTok.isSome = true

lemma tokenOpen_rest :
    Ends (Rest data n T) tokenOpen (fun _ => Rest data n Opened) X := by
  have hposition : Ends (Rest data n T) (reading openPosition) (fun _ => Rest data n T)
      X := fun _ hm => hm
  apply Ends.bind hposition
  exact fun _ => modifyState_rest fun _ _ => rfl

lemma tokenCloseBack_rest (back : ℕ) (type : TokType) :
    Ends (Rest data n Opened) (tokenCloseBack back type) (fun _ => Rest data n fun _ => True)
      X := by
  apply Ends.bind getState_rest
  intro s
  cases htok : s.tempTok with
  | none =>
    rintro m ⟨hm, rfl⟩
    have hopened : m.state.tempTok.isSome = true := hm.1.2
    rw [htok] at hopened
    cases hopened
  | some start =>
    apply Ends.bind (Q := fun _ => Rest data n fun _ => True)
    · rintro m ⟨hm, -⟩
      obtain ⟨tok, hclose⟩ := closePosition_ok hm.1.1 start back
      simp only [reading, hclose]
      exact ⟨⟨hm.1.1, trivial⟩, hm.2⟩
    · exact fun _ => setState_rest

lemma nameLoop_rest {stop : ℤ → Bool} (hstop : stop (-1) = false) (fuel : ℕ) (c : ℤ)
    (h : ample → Enough fuel c n) :
    Ends (Rest data n Opened) (nameLoop stop fuel c)
      (fun _ m => Rest data n Opened m ∧ c ≠ -1) (GivesUp data ample) := by
  induction fuel generalizing n c with
  | zero => exact outOfFuel_rest fun ha => absurd (h ha).1 (by omega)
  | succ fuel ih =>
    have hgo (hc : c ≠ -1) (k : ℕ) (c' : ℤ) (hk : k ≤ n) (henough : ample → Enough fuel c' k) :
        Ends (Rest data k Opened) (nameLoop stop fuel c')
          (fun _ m => Rest data n Opened m ∧ c ≠ -1) (GivesUp data ample) :=
      (ih c' henough).mono (fun _ h => h) fun _ _ h => ⟨h.1.mono hk fun _ h => h, hc⟩
    apply Ends.ite
    · intro hc
      refine Ends.pure fun _ h => ⟨h, ?_⟩
      rintro rfl
      rw [hstop] at hc
      cases hc
    intro _
    apply Ends.ite
    · exact fun _ => Ends.throw fun _ h => ⟨.inl rfl, h.1.1⟩
    intro hc
    have hfuel (ha : ample) : n + 1 ≤ fuel := Nat.le_of_succ_le_succ ((h ha).2 hc)
    apply Ends.ite
    · exact fun _ => Ends.round hfuel (hgo hc)
    · intro _
      apply Ends.bind (tokenCloseBack_rest 0 .pref)
      intro _
      apply Ends.bind nextChar_rest
      intro c'
      by_cases hc' : c' = -1
      · apply Ends.bind (tokenOpen_rest.mono (fun _ h => h.1) fun _ _ h => h)
        exact fun _ => hgo hc n c' le_rfl (.atEnd hfuel hc')
      · by_cases hpos : 0 < n
        · apply Ends.bind (tokenOpen_rest.mono (fun _ h => (h.2 hc').2) fun _ _ h => h)
          exact fun _ => hgo hc (n - 1) c' (Nat.sub_le n 1) (.less hfuel c' hpos)
        · rintro m ⟨-, hm⟩
          exact absurd (hm hc').1 hpos

/-- A name takes at least one character more. -/
lemma readName_rest {stop : ℤ → Bool} (hstop : stop (-1) = false) (type : TokType) (fuel : ℕ)
    (h : ample → n + 1 ≤ fuel) :
    Ends (Rest data n T) (readName stop type fuel)
      (fun _ m => 0 < n ∧ Rest data (n - 1) (fun _ => True) m) (GivesUp data ample) := by
  apply Ends.bind tokenOpen_rest
  intro _
  apply Ends.bind nextChar_rest
  intro c
  by_cases hc : c = -1
  · apply Ends.bind ((nameLoop_rest (n := n) hstop fuel c (.atEnd h hc)).mono
      (fun _ h => h.1) fun _ _ h => h)
    rintro _ m ⟨-, hne⟩
    exact absurd hc hne
  · by_cases hpos : 0 < n
    · apply Ends.bind ((nameLoop_rest (n := n - 1) hstop fuel c (.less h c hpos)).mono
        (fun _ h => (h.2 hc).2) fun _ _ h => h)
      intro _
      apply Ends.bind ((tokenCloseBack_rest 0 type).mono (fun _ h => h.1) fun _ _ h => h)
      exact fun _ => Ends.pure fun _ h => ⟨hpos, h⟩
    · rintro m ⟨-, hm⟩
      exact absurd (hm hc).1 hpos

lemma valueLoop_rest (quote : ℤ) (fuel : ℕ) (c : ℤ) (h : ample → Enough fuel c n) :
    Ends (Rest data n T) (valueLoop quote fuel c) (fun _ => Rest data n T) (GivesUp data ample) := by
  induction fuel generalizing n c with
  | zero => exact outOfFuel_rest fun ha => absurd (h ha).1 (by omega)
  | succ fuel ih =>
    apply Ends.ite
    · exact fun _ => Ends.pure fun _ h => h
    intro _
    apply Ends.ite
    · exact fun _ => Ends.throw fun _ h => ⟨.inl rfl, h.1.1⟩
    intro hc
    have hfuel (ha : ample) : n + 1 ≤ fuel := Nat.le_of_succ_le_succ ((h ha).2 hc)
    refine Ends.round hfuel fun k c hk henough => ?_
    exact (ih c henough).mono (fun _ h => h) fun _ _ h => h.mono hk fun _ h => h

lemma readValue_rest (quote : ℤ) (fuel : ℕ) (h : ample → n + 2 ≤ fuel) :
    Ends (Rest data n T) (readValue quote fuel) (fun _ => Rest data n fun _ => True)
      (GivesUp data ample) := by
  apply Ends.bind (nextChar_rest.mono (fun _ h => h) fun _ _ h => h.1)
  intro c
  apply Ends.bind tokenOpen_rest
  intro _
  apply Ends.bind (valueLoop_rest quote fuel c (.of_le h c))
  intro _
  apply Ends.bind (tokenCloseBack_rest 0 .attributeValue)
  intro _
  apply Ends.bind (nextChar_rest.mono (fun _ h => h) fun _ _ h => h.1)
  exact fun c => skipSpaces_rest fuel c (.of_le h c)

lemma processEqu_rest (fuel : ℕ) (c quote : ℤ) (h : ample → n + 2 ≤ fuel) :
    Ends (Rest data n T) (processEqu fuel c quote) (fun _ => Rest data n T) (GivesUp data ample) := by
  apply Ends.bind (skipSpaces_rest fuel c (.of_le h c))
  intro c
  apply Ends.ite
  · intro _
    apply Ends.bind (nextChar_rest.mono (fun _ h => h) fun _ _ h => h.1)
    exact fun c => skipSpaces_rest fuel c (.of_le h c)
  · exact fun _ => Ends.pure fun _ h => h

end Loops

/-! ### Replies -/

section Replies

variable {data : List UInt8} {ample : Prop} {n : ℕ} {T : State → Prop}

/-- From at most `n` characters on the call returns. -/
def Replies (data : List UInt8) (ample : Prop) (n : ℕ) (T : State → Prop) (p : Parse Reply) : Prop :=
  Ends (Rest data n T) p (fun _ m => OnData data m.input) (GivesUp data ample)

lemma Replies.failed : Replies data ample n T (pure .failed) := Ends.pure fun _ h => h.1.1

lemma finishTag_replies (event : Event) : Replies data ample n T (finishTag event) := by
  apply Ends.bind setState_rest
  intro _
  apply Ends.bind getState_rest
  intro s
  apply Ends.ite
  · exact fun _ => Ends.pure fun _ h => h.1.1.1
  · exact fun _ => Ends.pure fun _ h => h.1.1.1

lemma attributes_replies (fuel : ℕ) (quote c : ℤ) (h : ample → Enough fuel c n) :
    Replies data ample n T (attributes fuel quote c) := by
  induction fuel generalizing n c quote T with
  | zero => exact outOfFuel_rest fun ha => absurd (h ha).1 (by omega)
  | succ fuel ih =>
    apply Ends.ite
    · intro _
      apply Ends.bind (nextChar_rest.mono (fun _ h => h) fun _ _ h => h.1)
      intro c
      apply Ends.ite
      · exact fun _ => finishTag_replies _
      · exact fun _ => Replies.failed
    intro _
    apply Ends.ite
    · exact fun _ => finishTag_replies _
    intro _
    apply Ends.ite
    · intro hvalid
      have hc : c ≠ -1 := by
        rintro rfl
        exact absurd hvalid (by decide)
      have hfuel (ha : ample) : n + 1 ≤ fuel := Nat.le_of_succ_le_succ ((h ha).2 hc)
      apply Ends.bind (readName_rest (by decide) .attributeName fuel hfuel)
      intro c
      by_cases hpos : 0 < n
      · have hless (ha : ample) : n - 1 + 2 ≤ fuel := by
          have := hfuel ha
          omega
        apply Ends.bind ((processEqu_rest (n := n - 1) fuel c quote hless).mono
          (fun _ h => h.2) fun _ _ h => h)
        intro quote
        apply Ends.ite
        · intro _
          apply Ends.bind (readValue_rest quote fuel hless)
          intro c
          exact ih quote c (.of_le hless c)
        · exact fun _ => Replies.failed
      · rintro m ⟨hn, -⟩
        exact absurd hn hpos
    · exact fun _ => Replies.failed

section

variable (fuel : ℕ) (c : ℤ) (h : ample → n + 2 ≤ fuel)

include fuel c h

lemma startTag_replies : Replies data ample n T (startTag fuel c) := by
  have hattributes (T : State → Prop) (c : ℤ) :
      Replies data ample n T (do let c ← skipSpaces fuel c; attributes fuel 0 c) := by
    apply Ends.bind (skipSpaces_rest fuel c (.of_le h c))
    exact fun c => attributes_replies fuel 0 c (.of_le h c)
  apply Ends.ite
  · intro _
    apply Ends.bind (readName_rest (by decide) .name fuel fun ha => Nat.le_of_succ_le (h ha))
    intro c
    apply Ends.bind (Q := fun _ => Rest data n fun _ => True)
    · exact setState_rest.mono
        (fun m hm => hm.2.mono (Nat.sub_le n 1) fun _ h => h) fun _ _ h => h
    · exact fun _ => hattributes _ c
  · exact fun _ => hattributes T c

lemma finishEndTag_replies : Replies data ample n T (finishEndTag fuel c) := by
  apply Ends.bind (skipSpaces_rest fuel c (.of_le h c))
  intro c
  apply Ends.ite
  · exact fun _ => Ends.pure fun _ h => h.1.1
  · exact fun _ => Replies.failed

lemma popElement_replies : Replies data ample n T (popElement fuel c) := by
  apply Ends.bind (getState_rest.mono (fun _ h => h) fun _ _ h => h.1)
  intro s
  cases s.elem with
  | nil => exact Replies.failed
  | cons elem rest =>
    apply Ends.bind setState_rest
    intro _
    apply Ends.ite
    · intro _
      apply Ends.ite
      · intro _
        apply Ends.bind setState_rest
        exact fun _ => finishEndTag_replies fuel c h
      · exact fun _ => finishEndTag_replies fuel c h
    · exact fun _ => Replies.failed

end

lemma endTag_replies (fuel : ℕ) (h : ample → n + 2 ≤ fuel) : Replies data ample n T (endTag fuel) := by
  apply Ends.bind setState_rest
  intro _
  apply Ends.bind (nextChar_rest.mono (fun _ h => h) fun _ _ h => h.1)
  intro c
  apply Ends.ite
  · intro _
    apply Ends.bind (readName_rest (by decide) .name fuel fun ha => Nat.le_of_succ_le (h ha))
    intro c
    exact (popElement_replies fuel c h).mono
      (fun m hm => hm.2.mono (Nat.sub_le n 1) fun _ h => h) fun _ _ h => h
  · exact fun _ => Replies.failed

lemma skipLoop_replies (fuel : ℕ) (c : ℤ) (h : ample → Enough fuel c n) :
    Replies data ample n T (skipLoop fuel c) := by
  induction fuel generalizing n c with
  | zero => exact outOfFuel_rest fun ha => absurd (h ha).1 (by omega)
  | succ fuel ih =>
    apply Ends.ite
    · exact fun _ => Ends.pure fun _ h => h.1.1
    intro _
    apply Ends.ite
    · exact fun _ => Replies.failed
    intro hc
    have hfuel (ha : ample) : n + 1 ≤ fuel := Nat.le_of_succ_le_succ ((h ha).2 hc)
    exact Ends.round hfuel fun k c _ henough => ih c henough

lemma pseudoAttribute_rest (rest : String) (quote : ℤ) (fuel : ℕ) (h : ample → n + 2 ≤ fuel) :
    Ends (Rest data n T) (pseudoAttribute rest quote fuel) (fun _ => Rest data n fun _ => True)
      (GivesUp data ample) := by
  apply Ends.bind tokenOpen_rest
  intro _
  apply Ends.bind (nextNoChar_rest rest.length)
  intro r
  apply Ends.ite
  · intro _
    apply Ends.bind (nextChar_rest.mono (fun _ h => h) fun _ _ h => h.1)
    intro c
    apply Ends.bind (tokenCloseBack_rest 0 .attributeName)
    intro _
    apply Ends.bind (processEqu_rest fuel c quote h)
    intro quote
    apply Ends.bind (readValue_rest quote fuel h)
    exact fun _ => Ends.pure fun _ h => h
  · exact fun _ => Ends.pure fun _ h => h.mono le_rfl fun _ _ => trivial

lemma versionPart_rest (fuel : ℕ) (c quote : ℤ) (h : ample → n + 2 ≤ fuel) :
    Ends (Rest data n fun _ => True) (versionPart fuel c quote)
      (fun _ => Rest data n fun _ => True) (GivesUp data ample) := by
  apply Ends.ite
  · intro _
    apply Ends.bind (pseudoAttribute_rest "ersion" quote fuel h)
    intro r
    cases r with
    | some r => exact Ends.pure fun _ h => h
    | none => exact Ends.throw fun _ h => ⟨.inl rfl, h.1.1⟩
  · exact fun _ => Ends.pure fun _ h => h

lemma optionalPart_rest (first : Char) (rest : String) (fuel : ℕ) (c quote : ℤ)
    (h : ample → n + 2 ≤ fuel) :
    Ends (Rest data n fun _ => True) (optionalPart first rest fuel c quote)
      (fun _ => Rest data n fun _ => True) (GivesUp data ample) := by
  apply Ends.ite
  · intro _
    apply Ends.bind (pseudoAttribute_rest rest quote fuel h)
    intro r
    cases r with
    | some r | none => exact Ends.pure fun _ h => h
  · exact fun _ => Ends.pure fun _ h => h

lemma processXmlDec_replies (fuel : ℕ) (h : ample → n + 2 ≤ fuel) :
    Replies data ample n (fun _ => True) (processXmlDec fuel) := by
  apply Ends.bind (nextNoChar_rest 3)
  intro r
  apply Ends.ite
  · intro _
    apply Ends.bind (nextChar_rest.mono (fun _ h => h) fun _ _ h => h.1)
    intro c
    apply Ends.bind (skipSpaces_rest fuel c (.of_le h c))
    intro c
    apply Ends.bind (versionPart_rest fuel c (-1) h)
    intro r
    apply Ends.bind (optionalPart_rest 'e' "ncoding" fuel r.1 r.2 h)
    intro r
    apply Ends.bind (optionalPart_rest 's' "tandalone" fuel r.1 r.2 h)
    intro r
    apply Ends.ite
    · intro _
      apply Ends.bind (nextChar_rest.mono (fun _ h => h) fun _ _ h => h.1)
      intro c
      apply Ends.ite
      · intro _
        apply Ends.bind setState_rest
        exact fun _ => Ends.pure fun _ h => h.1.1
      · exact fun _ => Replies.failed
    · intro _
      apply Ends.ite
      · exact fun _ => Replies.failed
      · exact fun _ => Ends.pure fun _ h => h.1.1
  · exact fun _ => Replies.failed

lemma textLoop_rest (fuel : ℕ) (whiteSpace : Bool) (h : ample → n + 1 ≤ fuel) :
    Ends (Rest data n T) (textLoop fuel whiteSpace) (fun _ => Rest data n T) (GivesUp data ample) := by
  induction fuel generalizing n whiteSpace with
  | zero => exact outOfFuel_rest fun ha => absurd (h ha) (by omega)
  | succ fuel ih =>
    apply Ends.bind nextChar_rest
    intro c
    apply Ends.ite
    · exact fun _ => Ends.throw fun _ h => ⟨.inl rfl, h.1.1.1⟩
    intro hc
    apply Ends.ite
    · exact fun _ => Ends.pure fun _ h => h.1
    intro _
    rintro m ⟨-, hm⟩
    obtain ⟨hpos, hm⟩ := hm hc
    have hfuel (ha : ample) : n - 1 + 1 ≤ fuel := by
      have := h ha
      omega
    have hloop := ih (whiteSpace && isSpaceChar c) hfuel
    exact hloop.mono (fun _ h => h) (fun _ _ h => h.mono (Nat.sub_le n 1) fun _ h => h) m hm

lemma text_replies (fuel : ℕ) (c : ℤ) (h : ample → n + 1 ≤ fuel) : Replies data ample n T (text fuel c) := by
  apply Ends.bind setState_rest
  intro _
  apply Ends.bind tokenOpen_rest
  intro _
  apply Ends.bind (textLoop_rest fuel _ h)
  intro whiteSpace
  apply Ends.bind (tokenCloseBack_rest 0 .textData)
  intro _ m hm
  cases whiteSpace with
  | true | false => exact hm.1.1

end Replies

/-! ### Comments -/

section Comments

variable {data : List UInt8} {n : ℕ}

/-- The two characters behind a hyphen are read together with it: the loop over a comment ends
when the first of them is a hyphen again. -/
def commentEnds : List ℤ → Bool
  | [] => false
  | c :: cs =>
    if c = ch '-' then
      match cs with
      | [] => false
      | c0 :: cs =>
        if c0 = -1 then commentEnds cs
        else
          match cs with
          | [] => false
          | c1 :: cs =>
            if c1 = -1 then commentEnds cs
            else if c0 = ch '-' then true
            else commentEnds cs
    else commentEnds cs

/-- No comment without an end begins here. The character behind `<!--` is not looked at. -/
def commentsEnd : List ℤ → Bool
  | c0 :: c1 :: c2 :: c3 :: cs =>
    !(c0 = ch '<' && c1 = ch '!' && c2 = ch '-' && c3 = ch '-') || commentEnds cs.tail
  | _ => true

/-- The characters that the next call begins with: white space in front of the document is
passed over. -/
def Parser.upcoming (data : List UInt8) (m : Parser) : List ℤ :=
  if m.state.status = .s1 then (m.input.ahead data).dropWhile isspace else m.input.ahead data

lemma commentEnds_other {c : ℤ} (hc : c ≠ ch '-') (cs : List ℤ) :
    commentEnds (c :: cs) = commentEnds cs := by
  rw [commentEnds.eq_def]
  exact if_neg hc

/-- Behind a hyphen two characters are taken at once. -/
lemma commentEnds_hyphen (cs : List ℤ) :
    commentEnds (ch '-' :: cs) =
      if (takeChars 2 cs).1.bind List.head? = some (ch '-') then true
      else commentEnds (takeChars 2 cs).2 := by
  rw [commentEnds.eq_def]
  simp only [if_true]
  cases cs with
  | nil => simp [commentEnds, takeChars]
  | cons c0 cs =>
    by_cases hc0 : c0 = -1
    · simp [takeChars, hc0]
    cases cs with
    | nil => simp [commentEnds, takeChars, hc0]
    | cons c1 cs =>
      by_cases hc1 : c1 = -1
      · simp [takeChars, hc0, hc1]
      · simp [takeChars, hc0, hc1]

/-- The parser stands before the characters `cs`. -/
def Before (data : List UInt8) (T : State → Prop) (cs : List ℤ) (m : Parser) : Prop :=
  On data T m ∧ m.input.ahead data = cs

lemma Before.rest {T : State → Prop} {cs : List ℤ} {m : Parser} (h : Before data T cs m)
    (hn : cs.length ≤ n) : Rest data n T m :=
  ⟨h.1, by rw [h.2]; exact hn⟩

variable {ample : Prop} {T : State → Prop} {cs : List ℤ} {X : Exit → Parser → Prop}

lemma nextChar_before : Ends (Before data T cs) (reading nextChar)
    (fun c m => c = cs.headD (-1) ∧ Before data T cs.tail m) X := by
  rintro m ⟨⟨hm, hT⟩, rfl⟩
  obtain ⟨i, hrun, hi, hahead⟩ := nextChar_ahead hm
  simp only [reading, hrun]
  exact ⟨trivial, ⟨hi, hT⟩, hahead⟩

lemma nextNoChar_before (no : ℕ) : Ends (Before data T cs) (reading (nextNoChar no))
    (fun r m => r = (takeChars no cs).1 ∧ Before data T (takeChars no cs).2 m) X := by
  rintro m ⟨⟨hm, hT⟩, rfl⟩
  obtain ⟨i, hrun, hi, hahead⟩ := nextNoChar_ahead no hm
  simp only [reading, hrun]
  exact ⟨trivial, ⟨hi, hT⟩, hahead⟩

lemma tokenOpen_before : Ends (Before data T cs) tokenOpen (fun _ => Before data Opened cs) X := by
  have hposition : Ends (Before data T cs) (reading openPosition) (fun _ => Before data T cs) X :=
    fun _ hm => hm
  apply Ends.bind hposition
  exact fun _ _ hm => ⟨⟨hm.1.1, rfl⟩, hm.2⟩

/-- A call that stops, with -1 only when it `ends`, and for lack of fuel only when the fuel is not
`ample` or it never ends. -/
def Stops (data : List UInt8) (ends : Bool) (ample : Prop) (e : Exit) (m : Parser) : Prop :=
  (e = .returned ∧ ends = true ∨ e = .outOfFuel ∧ (ample → ends = false)) ∧ OnData data m.input

/-- With ample fuel the call returns exactly when it `ends`. -/
def Settles (data : List UInt8) (ends : Bool) (ample : Prop) (P : Parser → Prop)
    (p : Parse Reply) : Prop :=
  Ends P p (fun _ m => ends = true ∧ OnData data m.input) (Stops data ends ample)

lemma Replies.settles {p : Parse Reply} {ends : Bool} (h : Replies data ample n T p)
    (hends : ends = true) (hn : cs.length ≤ n) : Settles data ends ample (Before data T cs) p := by
  intro m hm
  have hrun := h m (hm.rest hn)
  cases hp : p m with
  | ok reply m' =>
    rw [hp] at hrun
    exact ⟨hends, hrun⟩
  | error e m' =>
    rw [hp] at hrun
    obtain ⟨rfl | ⟨hample, rfl⟩, hm'⟩ := hrun
    · exact ⟨.inl ⟨rfl, hends⟩, hm'⟩
    · exact ⟨.inr ⟨rfl, fun ha => absurd ha hample⟩, hm'⟩

lemma Settles.congr {p : Parse Reply} {P : Parser → Prop} {ends ends' : Bool}
    (h : Settles data ends ample P p) (heq : ends = ends') : Settles data ends' ample P p :=
  heq ▸ h

lemma takeChars_some {no : ℕ} {cs r : List ℤ} (h : (takeChars no cs).1 = some r) :
    r.length = no := by
  induction no generalizing cs r with
  | zero =>
    obtain rfl : [] = r := Option.some.inj h
    rfl
  | succ no ih =>
    simp only [takeChars] at h
    split at h
    · cases h
    · obtain ⟨r', hr', rfl⟩ := Option.map_eq_some_iff.mp h
      simp [ih hr']

lemma closeComment_settles {ends : Bool} (h : ends = true) :
    Settles data ends ample (Before data Opened cs)
      (do
        modifyState fun s => { s with event := some .comment }
        tokenCloseBack 2 .charData
        return .event .comment) := by
  apply Ends.bind (Q := fun _ => Rest data cs.length Opened)
  · exact fun m hm => hm.rest le_rfl
  intro _
  apply Ends.bind (tokenCloseBack_rest 2 .charData)
  exact fun _ => Ends.pure fun _ hm => ⟨h, hm.1.1⟩

/-- The loop over a comment comes to its end, or runs on for ever at the end of the input. -/
lemma commentLoop_settles (fuel : ℕ) (h : ample → commentEnds cs = true → cs.length + 1 ≤ fuel) :
    Settles data (commentEnds cs) ample (Before data Opened cs) (commentLoop fuel) := by
  induction fuel generalizing cs with
  | zero =>
    refine Ends.throw fun m hm => ⟨.inr ⟨rfl, fun ha => ?_⟩, hm.1.1⟩
    exact Bool.eq_false_iff.mpr fun hends => absurd (h ha hends) (by omega)
  | succ fuel ih =>
    -- the loop goes on before `rest`, which is shorter when there is an end to come
    have hround (rest : List ℤ) (hends : commentEnds rest = commentEnds cs)
        (hless : commentEnds cs = true → rest.length < cs.length) :
        Settles data (commentEnds cs) ample (Before data Opened rest) (commentLoop fuel) := by
      refine (ih fun ha htrue => ?_).congr hends
      rw [hends] at htrue
      have hfuel := h ha htrue
      have hlength := hless htrue
      omega
    apply Ends.bind nextChar_before
    refine fun c => Ends.given fun hc => ?_
    cases cs with
    | nil =>
      obtain rfl : c = -1 := hc
      apply Ends.ite
      · exact fun hhyphen => absurd hhyphen (by decide)
      · exact fun _ => hround [] rfl fun hends => absurd hends (by simp [commentEnds])
    | cons c' cs =>
      obtain rfl : c = c' := hc
      have htail := takeChars_length 2 cs
      apply Ends.ite
      · rintro rfl
        have hends := commentEnds_hyphen cs
        apply Ends.bind (nextNoChar_before 2)
        refine fun r => Ends.given fun hr => ?_
        rw [List.tail_cons] at hr
        rw [← hr] at hends
        have hgo (hhead : r.bind List.head? ≠ some (ch '-')) :
            Settles data (commentEnds (ch '-' :: cs)) ample
              (Before data Opened (takeChars 2 cs).2) (commentLoop fuel) := by
          rw [if_neg hhead] at hends
          exact hround _ hends.symm fun _ => Nat.lt_succ_of_le htail
        cases r with
        | none => exact hgo (by simp)
        | some r =>
          have htwo := takeChars_some hr.symm
          obtain ⟨c0, c1, rfl⟩ := List.length_eq_two.mp htwo
          apply Ends.ite
          · rintro rfl
            have htrue : commentEnds (ch '-' :: cs) = true := by simpa using hends
            apply Ends.ite
            · exact fun _ => closeComment_settles htrue
            · exact fun _ => Ends.pure fun _ hm => ⟨htrue, hm.1.1⟩
          · exact fun hc0 => hgo (by simpa using hc0)
      · intro hc
        exact hround cs (commentEnds_other hc cs).symm fun _ => by simp

lemma commentsEnd_of_ne {c : ℤ} (hc : c ≠ ch '!') (cs : List ℤ) :
    commentsEnd (ch '<' :: c :: cs) = true := by
  match cs with
  | [] | [_] => rfl
  | _ :: _ :: _ => simp [commentsEnd, hc]

lemma commentsEnd_text {c : ℤ} (hc : c ≠ ch '<') (cs : List ℤ) : commentsEnd (c :: cs) = true := by
  match cs with
  | [] | [_] | [_, _] => rfl
  | _ :: _ :: _ :: _ => simp [commentsEnd, hc]

lemma commentsEnd_bang (cs : List ℤ) :
    commentsEnd (ch '<' :: ch '!' :: cs) =
      if (takeChars 2 cs).1 = some [ch '-', ch '-'] then commentEnds (takeChars 2 cs).2.tail
      else true := by
  match cs with
  | [] => simp [commentsEnd, takeChars]
  | [c2] =>
    by_cases hc2 : c2 = -1
    · simp [commentsEnd, takeChars, hc2]
    · simp [commentsEnd, takeChars, hc2]
  | c2 :: c3 :: cs =>
    have hhyphen : ch '-' ≠ -1 := by decide
    by_cases hc2 : c2 = ch '-'
    · by_cases hc3 : c3 = ch '-'
      · simp [commentsEnd, takeChars, hc2, hc3, hhyphen]
      · by_cases hend : c3 = -1
        · simp [commentsEnd, takeChars, hc2, hend, hhyphen, hhyphen.symm]
        · simp [commentsEnd, takeChars, hc2, hc3, hend, hhyphen]
    · by_cases hend : c2 = -1
      · simp [commentsEnd, takeChars, hend, hhyphen.symm]
      · by_cases hend' : c3 = -1
        · simp [commentsEnd, takeChars, hc2, hend, hend']
        · simp [commentsEnd, takeChars, hc2, hend, hend']

lemma declaration_settles (fuel : ℕ) (h : ample → cs.length + 2 ≤ fuel) :
    Settles data (commentsEnd (ch '<' :: ch '!' :: cs)) ample (Before data T cs) (declaration fuel) := by
  have hlength := takeChars_length 2 cs
  rw [commentsEnd_bang]
  apply Ends.bind (nextNoChar_before 2)
  refine fun r => Ends.given ?_
  rintro rfl
  split
  · apply Ends.bind nextChar_before
    refine fun c => Ends.given fun _ => ?_
    apply Ends.bind tokenOpen_before
    refine fun _ => commentLoop_settles fuel fun ha _ => ?_
    have hfuel := h ha
    have htail : (takeChars 2 cs).2.tail.length ≤ (takeChars 2 cs).2.length := by simp
    omega
  · have hskip : Replies data ample cs.length T
        (do let c ← reading nextChar; skipLoop fuel c) := by
      apply Ends.bind (nextChar_rest.mono (fun _ hm => hm) fun _ _ hm => hm.1)
      exact fun c => skipLoop_replies fuel c (.of_le h c)
    exact hskip.settles rfl hlength

lemma markup_settles (fuel : ℕ) (h : ample → cs.length + 2 ≤ fuel) :
    Settles data (commentsEnd (ch '<' :: cs)) ample (Before data (fun _ => True) cs)
      (markup fuel) := by
  have hlength : cs.tail.length ≤ cs.length := by simp
  apply Ends.bind nextChar_before
  refine fun c => Ends.given fun hc => ?_
  by_cases hbang : c = ch '!'
  · cases cs with
    | nil =>
      obtain rfl : c = -1 := hc
      exact absurd hbang (by decide)
    | cons c' cs =>
      obtain rfl : c = c' := hc
      subst hbang
      exact declaration_settles fuel fun ha => (Nat.add_le_add_right hlength 2).trans (h ha)
  · have hends : commentsEnd (ch '<' :: cs) = true := by
      cases cs with
      | nil => rfl
      | cons c' cs =>
        obtain rfl : c = c' := hc
        exact commentsEnd_of_ne hbang cs
    apply Ends.ite
    · exact fun _ => (endTag_replies fuel h).settles hends hlength
    intro _
    apply Ends.ite
    · exact fun hc => absurd hc hbang
    intro _
    apply Ends.ite
    · exact fun _ => (processXmlDec_replies fuel h).settles hends hlength
    · exact fun _ => (startTag_replies fuel c h).settles hends hlength

end Comments

/-! ### Calls -/

section Calls

variable {data : List UInt8} {ample : Prop} {T : State → Prop}
variable {m : Parser}

/-- White space in front of the document is passed over. -/
lemma leadingSpace_before (fuel : ℕ) (c : ℤ) (cs : List ℤ) (h : ample → cs.length + 1 ≤ fuel) :
    Ends (Before data T cs) (leadingSpace fuel c)
      (fun c' m => ∃ cs', (c :: cs).dropWhile isspace = c' :: cs' ∧ cs'.length ≤ cs.length ∧
        Before data T cs' m)
      (Stops data (commentsEnd ((c :: cs).dropWhile isspace)) ample) := by
  induction fuel generalizing c cs with
  | zero =>
    exact Ends.throw fun m hm => ⟨.inr ⟨rfl, fun ha => absurd (h ha) (by omega)⟩, hm.1.1⟩
  | succ fuel ih =>
    apply Ends.ite
    · intro hspace
      rw [List.dropWhile_cons_of_pos hspace]
      apply Ends.bind nextChar_before
      refine fun c' => Ends.given fun hc' => ?_
      apply Ends.ite
      · intro hend
        refine Ends.throw fun m hm => ⟨.inl ⟨rfl, ?_⟩, hm.1.1⟩
        cases cs with
        | nil => rfl
        | cons c cs =>
          obtain rfl : c' = c := hc'
          subst hend
          rw [List.dropWhile_cons_of_neg (by decide)]
          exact commentsEnd_text (by decide) cs
      · intro hfound
        cases cs with
        | nil => exact absurd hc' hfound
        | cons c cs =>
          obtain rfl : c' = c := hc'
          refine (ih c' cs fun ha => Nat.le_of_succ_le_succ (h ha)).mono (fun _ hm => hm) ?_
          rintro c m ⟨cs', hdrop, hless, hm⟩
          exact ⟨cs', hdrop, hless.trans (by simp), hm⟩
    · intro hspace
      exact Ends.pure fun m hm => ⟨cs, List.dropWhile_cons_of_neg hspace, le_rfl, hm⟩

lemma afterCleanUp_settles (fuel : ℕ) (status : Status) (cs : List ℤ)
    (h : ample → cs.length + 2 ≤ fuel) :
    Settles data (commentsEnd (if status = .s1 then cs.dropWhile isspace else cs)) ample
      (Before data (fun s => s.status = status) cs)
      (do
        let c ← reading nextChar
        if (← getState).status = .s1 then
          let c ← leadingSpace fuel c
          if c = ch '<' then
            modifyState fun s => { s with status := .s2 }
            markup fuel
          else return .failed
        else if c = ch '<' then markup fuel
        else if c = -1 then return .failed
        else text fuel c) := by
  apply Ends.bind nextChar_before
  refine fun c => Ends.given fun hc => ?_
  have hlength : cs.tail.length ≤ cs.length := by simp
  have hends : commentsEnd (if status = .s1 then cs.dropWhile isspace else cs) =
      commentsEnd (if status = .s1 then (c :: cs.tail).dropWhile isspace else c :: cs.tail) := by
    cases cs with
    | nil =>
      obtain rfl : c = -1 := hc
      split <;> rfl
    | cons c' cs =>
      obtain rfl : c = c' := hc
      rfl
  rw [hends]
  have hstate : Ends (Before data (fun s => s.status = status) cs.tail) getState
      (fun s m => s.status = status ∧ Before data (fun s => s.status = status) cs.tail m)
      (Stops data (commentsEnd
        (if status = .s1 then (c :: cs.tail).dropWhile isspace else c :: cs.tail)) ample) :=
    fun m hm => ⟨hm.1.2, hm⟩
  apply Ends.bind hstate
  refine fun s => Ends.given fun hs => ?_
  rw [hs]
  apply Ends.ite
  · intro hs1
    simp only [if_pos hs1]
    apply Ends.bind (leadingSpace_before fuel c cs.tail fun ha => by have := h ha; omega)
    rintro c' m ⟨cs', hdrop, hless, hm⟩
    rw [hdrop]
    suffices hrest : Settles data (commentsEnd (c' :: cs')) ample
        (Before data (fun s => s.status = status) cs') _ from hrest m hm
    apply Ends.ite
    · rintro rfl
      apply Ends.bind (Q := fun _ => Before data (fun _ => True) cs')
      · exact fun m hm => ⟨⟨hm.1.1, trivial⟩, hm.2⟩
      · refine fun _ => markup_settles fuel fun ha => ?_
        exact (Nat.add_le_add_right (hless.trans hlength) 2).trans (h ha)
    · exact fun hopen => Ends.pure fun m hm => ⟨commentsEnd_text hopen cs', hm.1.1⟩
  · intro hs1
    simp only [if_neg hs1]
    apply Ends.ite
    · rintro rfl
      refine (markup_settles fuel fun ha => ?_).mono (fun m hm => ⟨⟨hm.1.1, trivial⟩, hm.2⟩)
        fun _ _ hm => hm
      exact (Nat.add_le_add_right hlength 2).trans (h ha)
    intro hopen
    have htrue := commentsEnd_text hopen cs.tail
    apply Ends.ite
    · exact fun _ => Ends.pure fun m hm => ⟨htrue, hm.1.1⟩
    · exact fun _ => (text_replies fuel c fun ha => Nat.le_of_succ_le (h ha)).settles htrue hlength

/-- The clean up has an element to pop when it is to pop one. -/
def State.Poppable (s : State) : Prop := s.event = some .emptyElement → s.elem ≠ []

instance (s : State) : Decidable s.Poppable := inferInstanceAs (Decidable (_ → _))

lemma nextBody_settles (ample : Prop) (hm : OnData data m.input) (hpop : m.state.Poppable)
    (fuel : ℕ) (h : ample → (m.input.ahead data).length + 2 ≤ fuel) :
    Settles data (commentsEnd (m.upcoming data)) ample (· = m) (nextBody fuel) := by
  apply Ends.bind (Q := fun _ =>
    Before data (fun s => s.status = m.state.status) (m.input.ahead data))
  · rintro _ rfl
    rw [cleanUp_run hpop]
    refine ⟨⟨hm, ?_⟩, rfl⟩
    simp only [State.cleaned, State.popEmpty]
    split <;> rfl
  · exact fun _ => afterCleanUp_settles fuel m.state.status (m.input.ahead data) h

/-- An element popped from the empty stack is a NULL pointer that is read. -/
lemma nextBody_fault (hpop : ¬ m.state.Poppable) (fuel : ℕ) :
    nextBody fuel m = .error .fault m := by
  obtain ⟨hevent, helem⟩ : m.state.event = some .emptyElement ∧ m.state.elem = [] := by
    simpa [State.Poppable] using hpop
  have hclean : cleanUp m = .error .fault m := by
    refine (bind_ok (getState_run m)).trans ((run_ite_pos hevent).trans ?_)
    rw [helem]
    rfl
  exact bind_error hclean

/-- The parsers that calls of `guththila_next` lead to from a fresh memory reader over `data`. -/
inductive Reached (data : List UInt8) : Parser → Prop
  | init : Reached data (initMemory data)
  | call {m m' : Parser} {fuel : ℕ} {reply : Reply} (h : Reached data m)
      (hnext : next fuel m = .returned reply m') : Reached data m'

lemma next_returned {m m' : Parser} {fuel : ℕ} {reply : Reply}
    (h : next fuel m = .returned reply m') :
    nextBody fuel m = .ok reply m' ∨ nextBody fuel m = .error .returned m' := by
  unfold next at h
  split at h
  · next hrun =>
      cases h
      exact .inl hrun
  · next hrun =>
      cases h
      exact .inr hrun
  · cases h

/-- What a call that returns says of the state before it. -/
lemma next_settled {m m' : Parser} {fuel : ℕ} {reply : Reply} (hm : OnData data m.input)
    (h : next fuel m = .returned reply m') :
    m.state.Poppable ∧ commentsEnd (m.upcoming data) = true ∧ OnData data m'.input := by
  by_cases hpop : m.state.Poppable
  · have hrun := nextBody_settles False hm hpop fuel False.elim m rfl
    rcases next_returned h with hbody | hbody
    · rw [hbody] at hrun
      exact ⟨hpop, hrun⟩
    · rw [hbody] at hrun
      obtain ⟨⟨-, hends⟩ | ⟨hexit, -⟩, hm'⟩ := hrun
      · exact ⟨hpop, hends, hm'⟩
      · cases hexit
  · rcases next_returned h with hbody | hbody
    · rw [nextBody_fault hpop] at hbody
      cases hbody
    · rw [nextBody_fault hpop] at hbody
      cases hbody

lemma Reached.onData (h : Reached data m) : OnData data m.input := by
  induction h with
  | init => exact ⟨rfl, rfl, sound_create⟩
  | call h hnext ih => exact (next_settled ih hnext).2.2

/-- With as many rounds as there are characters left, the call returns. -/
lemma next_enough (hm : OnData data m.input) (hpop : m.state.Poppable)
    (hends : commentsEnd (m.upcoming data) = true) :
    ∃ reply m', next ((m.input.ahead data).length + 2) m = .returned reply m' := by
  have hrun := nextBody_settles True hm hpop _ (fun _ => le_rfl) m rfl
  unfold next
  cases hbody : nextBody ((m.input.ahead data).length + 2) m with
  | ok reply m' => exact ⟨reply, m', rfl⟩
  | error e m' =>
    rw [hbody] at hrun
    obtain ⟨⟨rfl, -⟩ | ⟨-, hnever⟩, -⟩ := hrun
    · exact ⟨.failed, m', rfl⟩
    · rw [hnever trivial] at hends
      cases hends

/-- `<!-- a -->` -/
def closedComment : List UInt8 := [60, 33, 45, 45, 32, 97, 32, 45, 45, 62]

end Calls

end Axis2C.Guththila
