import Axis2C.GuththilaTermination

/-!
# Comments

What one call makes of a comment that comes next. One character is read in
front of the loop, and with each hyphen the loop meets two more, which are not
pushed back. The end of the comment is found exactly when the text in it falls
into such groups.
-/
namespace Axis2C.Guththila
open StatefulRuns

/-! ### Several characters at once -/

section Reading

variable {data : List UInt8}
variable {cs : List Ch}

lemma noCharLoop_reads {i : Input} {p : Place} (hi : OnData data i) (hready : i.decoder.Ready)
    (hread : Reads data i.place cs p) :
    ∃ i', noCharLoop cs.length i = .ok (some (cs.map Ch.code)) i' ∧ OnData data i' ∧
      i'.place = p := by
  induction cs generalizing i with
  | nil =>
    cases hread
    exact ⟨i, rfl, hi, rfl⟩
  | cons c cs ih =>
    obtain ⟨q, hc, hread⟩ := reads_cons.mp hread
    obtain ⟨i₁, hrun, hi₁, rfl⟩ := hc.run hi
    rw [nextChar_ready hready.2] at hrun
    obtain ⟨i₂, hrun₂, hi₂, hp₂⟩ := ih hi₁ hc.ready hread
    refine ⟨i₂, ?_, hi₂, hp₂⟩
    exact (bind_ok hrun).trans ((run_ite_neg hc.found).trans (bind_ok hrun₂))

/-- Characters that come next, from a place between characters. -/
lemma nextNoChar_arrives {short : Prop} {p p' : Place} {s : State} (no : ℕ) (hno : cs.length = no)
    (hready : p.decoder.Ready) (hread : Reads data p cs p') :
    Arrives short (Here data p s) (reading (nextNoChar no)) (some (cs.map Ch.code))
      (Here data p' s) := by
  rintro m ⟨hm, rfl, rfl⟩
  subst hno
  have hready : m.input.decoder.Ready := hready
  obtain ⟨i, hrun, hi, hp⟩ := noCharLoop_reads hm hready hread
  have hnext : nextNoChar cs.length m.input = .ok (some (cs.map Ch.code)) i := by
    cases cs with
    | nil => exact hrun
    | cons c cs =>
      have hpending : pendingChar m.input = .ok none m.input := by
        simp only [pendingChar, if_neg hready.2]
      exact (bind_ok hpending).trans hrun
  simp only [reading, hnext]
  exact ⟨trivial, hi, hp, rfl⟩

def Place.ahead (data : List UInt8) (p : Place) : List ℤ :=
  Guththila.ahead p.decoder (data.drop p.next)

/-- The characters between two places come first among those left. -/
lemma Reads.ahead {p p' : Place} (h : Reads data p cs p') :
    p.ahead data = cs.map Ch.code ++ p'.ahead data := by
  induction h with
  | nil p => rfl
  | @cons p q p' c cs hc hcs ih =>
    have hmore : ¬ (data.drop p.next = [] ∧ ¬ p.decoder.pending) := by
      rintro ⟨hend, hpending⟩
      have hscan := hc.scan
      rw [hend, scanChar_not_pending hpending] at hscan
      exact hc.found (congrArg Prod.fst hscan).symm
    rw [Place.ahead, ahead_scan hmore, hc.scan]
    exact congrArg (c.code :: ·) ih

end Reading

/-! ### The loop over a comment -/

/-- The characters fall into groups of one that is no hyphen, and of a hyphen
with the two behind it. -/
def grouped : List ℤ → Bool
  | [] => true
  | c :: cs =>
    if c = ch '-' then
      match cs with
      | _ :: _ :: cs => grouped cs
      | _ => false
    else grouped cs

def codes (s : String) : List ℤ := s.toList.map ch

section Loop

variable {data : List UInt8} {short : Prop} {s : State} {p p' : Place}
variable {start : ℕ} {tok : Token}

/-- Not two hyphens in a row, and none at the end. -/
def CommentText (t : List ℤ) : Prop :=
  ¬ [ch '-', ch '-'] <:+: t ∧ t.getLast? ≠ some (ch '-')

instance (t : List ℤ) : Decidable (CommentText t) := inferInstanceAs (Decidable (_ ∧ _))

lemma CommentText.tail {c : ℤ} {t : List ℤ} (h : CommentText (c :: t)) : CommentText t := by
  refine ⟨fun ht => h.1 (List.infix_cons ht), fun ht => h.2 ?_⟩
  cases t with
  | nil => simp at ht
  | cons x t => simpa using ht

/-- Behind a hyphen another character comes. -/
lemma CommentText.behind {t : List ℤ} (h : CommentText (ch '-' :: t)) :
    ∃ c t', t = c :: t' ∧ c ≠ ch '-' := by
  cases t with
  | nil => exact absurd rfl h.2
  | cons c t =>
    refine ⟨c, t, rfl, ?_⟩
    rintro rfl
    exact h.1 ⟨[], t, rfl⟩

/-- ASCII characters take a byte each. -/
lemma Reads.ascii_length {cs : List Ch} {p p' : Place} (h : Reads data p cs p')
    (hsound : p.decoder.Sound) (hready : p.decoder.Ready) (hascii : ∀ c ∈ cs, c.code < 128) :
    p'.next = p.next + cs.length := by
  induction h with
  | nil p => rfl
  | @cons p q p' c cs hc hcs ih =>
    have hone := hc.ascii hsound hready (hascii c (List.mem_cons_self ..))
    rw [ih (hc.sound hsound) hc.ready fun c hc => hascii c (List.mem_cons_of_mem _ hc), hc.next,
      hone, List.length_cons]
    omega

lemma commentLoop_hyphen {fuel : ℕ} {c c0 c1 : Ch} {Q : Reply → Parser → Prop}
    {X : Exit → Parser → Prop} (hc : c.code = ch '-') (hread : Reads data p [c, c0, c1] p')
    (h : Ends (Here data p' s) (if c0.code = ch '-' then
        if c1.code = ch '>' then do
          modifyState fun s => { s with event := some .comment }
          tokenCloseBack 2 .charData
          return .event .comment
        else return .failed
      else commentLoop fuel) Q X) : Ends (Here data p s) (commentLoop (fuel + 1)) Q X := by
  obtain ⟨q, hchar, hrest⟩ := reads_cons.mp hread
  refine (nextChar_here hchar).ends (.ite (fun _ => ?_) fun hne => absurd hc hne)
  exact (nextNoChar_arrives 2 rfl hchar.ready hrest).ends h

/-- A character that is no hyphen. -/
lemma commentLoop_char {fuel : ℕ} {c : Ch} {Q : Reply → Parser → Prop}
    {X : Exit → Parser → Prop} (hc : c.code ≠ ch '-') (hread : ReadsChar data p c p')
    (h : Ends (Here data p' s) (commentLoop fuel) Q X) :
    Ends (Here data p s) (commentLoop (fuel + 1)) Q X :=
  (nextChar_here hread).ends (.ite (fun heq => absurd heq hc) fun _ => h)

lemma codes_closing {back : List Ch} (h : back.map Ch.code = codes "-->") :
    ∃ h1 h2 gt, back = [h1, h2, gt] ∧ h1.code = ch '-' ∧ h2.code = ch '-' ∧ gt.code = ch '>' := by
  obtain ⟨h1, h2, gt, rfl⟩ : ∃ h1 h2 gt, back = [h1, h2, gt] := by
    have hlength := congrArg List.length h
    rw [List.length_map] at hlength
    exact List.length_eq_three.mp hlength
  exact ⟨h1, h2, gt, rfl, by simpa [codes] using h⟩

/-- The end of the comment when the loop comes to it between two groups. -/
lemma closeComment_arrives {back : List Ch} (fuel : ℕ) (hstart : s.tempTok = some start)
    (htok : OpenToken data start tok p) (hsound : p.decoder.Sound) (hready : p.decoder.Ready)
    (hback : back.map Ch.code = codes "-->") (hread : Reads data p back p') :
    Arrives short (Here data p s) (commentLoop (fuel + 1)) (.event .comment) (Here data p'
      { s with event := some .comment, value := some tok, tempTok := none }) := by
  obtain ⟨h1, h2, gt, rfl, hc1, hc2, hc3⟩ := codes_closing hback
  have hlast : p'.next = p.next + 3 :=
    hread.ascii_length hsound hready (by simp [hc1, hc2, hc3, ch])
  refine commentLoop_hyphen hc1 hread (Arrives.pos hc2 (.pos hc3 ?_))
  have hclose : Arrives short (Here data p' { s with event := some .comment })
      (tokenCloseBack 2 .charData) () (Here data p'
        { s with event := some .comment, value := some tok, tempTok := none }) :=
    tokenCloseBack_arrives (s := { s with event := some .comment }) hstart htok hlast .charData
  exact (modifyState_arrives _).bind (hclose.bind (.pure fun _ hm => hm))

lemma grouped_other {c : ℤ} (hc : c ≠ ch '-') (cs : List ℤ) : grouped (c :: cs) = grouped cs := by
  rw [grouped.eq_def]
  exact if_neg hc

lemma bytesOf_cons (c : Ch) (cs : List Ch) : bytesOf (c :: cs) = c.bytes ++ bytesOf cs := by
  simp [bytesOf]

/-- A text in groups is passed over, and the comment closed behind it. -/
lemma commentLoop_arrives (fuel : ℕ) {u back : List Ch} (htext : CommentText (u.map Ch.code))
    (hgroups : grouped (u.map Ch.code) = true) (hback : back.map Ch.code = codes "-->")
    (hstart : s.tempTok = some start) (htok : OpenToken data start tok p)
    (hsound : p.decoder.Sound) (hready : p.decoder.Ready) (hread : Reads data p (u ++ back) p')
    (hshort : fuel ≤ u.length → short) :
    Arrives short (Here data p s) (commentLoop fuel) (.event .comment) (Here data p'
      { s with event := some .comment, value := some (tok ++ bytesOf u), tempTok := none }) := by
  induction fuel generalizing u tok p with
  | zero => exact .outOfFuel (hshort (Nat.zero_le _))
  | succ fuel ih =>
    cases u with
    | nil =>
      simpa [bytesOf] using closeComment_arrives fuel hstart htok hsound hready hback hread
    | cons c u =>
      by_cases hhyphen : c.code = ch '-'
      · rw [List.map_cons, hhyphen] at htext hgroups
        obtain ⟨x, v, hv, hx⟩ := htext.behind
        cases u with
        | nil => cases hv
        | cons c0 u =>
          obtain ⟨rfl, rfl⟩ := List.cons.inj hv
          cases u with
          | nil => simp [grouped] at hgroups
          | cons c1 u =>
            have hsplit : c :: c0 :: c1 :: u ++ back = [c, c0, c1] ++ (u ++ back) := rfl
            rw [hsplit] at hread
            obtain ⟨q, hfront, hrest⟩ := reads_append.mp hread
            have hbytes : bytesOf (c :: c0 :: c1 :: u) = bytesOf [c, c0, c1] ++ bytesOf u :=
              bytesOf_append [c, c0, c1] u
            refine commentLoop_hyphen hhyphen hfront (Arrives.neg hx ?_)
            rw [hbytes, ← List.append_assoc]
            exact ih htext.tail.tail.tail (by simpa [grouped] using hgroups) (htok.reads hfront)
              (hfront.sound hsound) (hfront.ready hready) hrest
              fun hle => hshort (by simp only [List.length_cons]; omega)
      · rw [List.map_cons, grouped_other hhyphen] at hgroups
        obtain ⟨q, hc, hrest⟩ := reads_cons.mp hread
        refine commentLoop_char hhyphen hc ?_
        rw [bytesOf_cons, ← List.append_assoc]
        exact ih htext.tail hgroups (htok.grow hc) (hc.sound hsound) hc.ready hrest
          fun hle => hshort (by simp only [List.length_cons]; omega)

/-! ### An end that is missed -/

variable {cs : List ℤ} {m : Parser}

/-- The loop comes back only after it has read something. -/
lemma commentLoop_consumes (fuel : ℕ) :
    Ends (Before data Opened cs) (commentLoop fuel)
      (fun _ m => (m.input.ahead data).length < cs.length) (fun _ _ => True) := by
  induction fuel generalizing cs with
  | zero => exact Ends.throw fun _ _ => trivial
  | succ fuel ih =>
    have hgo : ∀ rest : List ℤ, rest.length ≤ cs.length →
        Ends (Before data Opened rest) (commentLoop fuel)
          (fun _ m => (m.input.ahead data).length < cs.length) (fun _ _ => True) :=
      fun rest hrest => ih.mono (fun _ h => h) fun _ _ h => h.trans_le hrest
    apply Ends.bind nextChar_before
    refine fun c => Ends.given fun hc => ?_
    have htail : cs.tail.length ≤ cs.length := by simp
    apply Ends.ite
    · intro hhyphen
      have hmore : cs.tail.length < cs.length := by
        cases cs with
        | nil =>
          obtain rfl : c = -1 := hc
          exact absurd hhyphen (by decide)
        | cons c' cs => simp
      have htake := takeChars_length 2 cs.tail
      apply Ends.bind (nextNoChar_before 2)
      refine fun r => Ends.given fun hr => ?_
      have hloop := hgo (takeChars 2 cs.tail).2 (htake.trans htail)
      cases r with
      | none => exact hloop
      | some r =>
        obtain ⟨c0, c1, rfl⟩ := List.length_eq_two.mp (takeChars_some hr.symm)
        apply Ends.ite
        · intro _
          apply Ends.ite
          · intro _
            apply Ends.bind (Q := fun _ => Rest data cs.tail.length Opened)
            · exact fun m hm => Before.rest (T := Opened) hm htake
            intro _
            apply Ends.bind ((tokenCloseBack_rest 2 .charData).mono (fun _ h => h)
              fun _ _ h => h)
            exact fun _ => Ends.pure fun m hm => lt_of_le_of_lt hm.2 hmore
          · exact fun _ => Ends.pure fun m hm => by
              rw [hm.2]
              exact lt_of_le_of_lt htake hmore
        · exact fun _ => hloop
    · exact fun _ => hgo cs.tail htail

lemma takeChars_head {no : ℕ} {c : ℤ} {r : List ℤ} (h : (takeChars (no + 1) (c :: cs)).1 = some r) :
    r.head? = some c := by
  by_cases hc : (c :: cs).headD (-1) = -1
  · simp only [takeChars, if_pos hc] at h
    cases h
  · simp only [takeChars, if_neg hc] at h
    obtain ⟨r', -, rfl⟩ := Option.map_eq_some_iff.mp h
    rfl

/-- From the second hyphen of `-->` on, the loop runs past the `>`. -/
lemma commentLoop_beyond (cs : List ℤ) (fuel : ℕ) :
    Ends (Before data Opened (ch '-' :: ch '>' :: cs)) (commentLoop fuel)
      (fun _ m => (m.input.ahead data).length < cs.length) (fun _ _ => True) := by
  cases fuel with
  | zero => exact Ends.throw fun _ _ => trivial
  | succ fuel =>
    apply Ends.bind nextChar_before
    refine fun c => Ends.given fun hc => ?_
    obtain rfl : c = ch '-' := hc
    apply Ends.ite
    · intro _
      apply Ends.bind (nextNoChar_before 2)
      refine fun r => Ends.given fun hr => ?_
      have hend : ch '>' ≠ -1 := by decide
      have htake : (takeChars 2 (ch '>' :: cs)).2.length ≤ cs.length := by
        simpa [takeChars, hend] using takeChars_length 1 cs
      have hloop : Ends (Before data Opened (takeChars 2 (ch '>' :: cs)).2) (commentLoop fuel)
          (fun _ m => (m.input.ahead data).length < cs.length) (fun _ _ => True) :=
        (commentLoop_consumes fuel).mono (fun _ h => h) fun _ _ h => h.trans_le htake
      rw [List.tail_cons] at hr
      cases r with
      | none => exact hloop
      | some r =>
        obtain ⟨c0, c1, rfl⟩ := List.length_eq_two.mp (takeChars_some hr.symm)
        have hc0 : c0 ≠ ch '-' := by
          have hhead := takeChars_head hr.symm
          obtain rfl : c0 = ch '>' := by simpa using hhead
          decide
        apply Ends.ite
        · exact fun h => absurd h hc0
        · exact fun _ => hloop
    · exact fun h => absurd rfl h

lemma Here.before (h : Here data p s m) (hopen : Opened s) {us : List Ch}
    (hread : Reads data p us p') : Before data Opened (us.map Ch.code ++ p'.ahead data) m := by
  obtain ⟨hm, rfl, rfl⟩ := h
  exact ⟨⟨hm, hopen⟩, hread.ahead⟩

lemma commentLoop_misses (fuel : ℕ) {u back : List Ch} (htext : CommentText (u.map Ch.code))
    (hgroups : grouped (u.map Ch.code) = false) (hback : back.map Ch.code = codes "-->")
    (hopen : Opened s) (hread : Reads data p (u ++ back) p') :
    Ends (Here data p s) (commentLoop fuel)
      (fun _ m => (m.input.ahead data).length < (p'.ahead data).length) (fun _ _ => True) := by
  induction fuel generalizing u p with
  | zero => exact Ends.throw fun _ _ => trivial
  | succ fuel ih =>
    cases u with
    | nil => simp [grouped] at hgroups
    | cons c u =>
      by_cases hhyphen : c.code = ch '-'
      · rw [List.map_cons, hhyphen] at htext hgroups
        obtain ⟨x, v, hv, hx⟩ := htext.behind
        match u, hv with
        | c0 :: u, hv =>
          obtain ⟨rfl, rfl⟩ := List.cons.inj hv
          match u with
          | [] =>
            -- the third character of the group is the first of `-->`
            obtain ⟨h1, h2, gt, rfl, -, hc2, hc3⟩ := codes_closing hback
            have hsplit : [c, c0] ++ [h1, h2, gt] = [c, c0, h1] ++ [h2, gt] := rfl
            rw [hsplit] at hread
            obtain ⟨q, hfront, hrest⟩ := reads_append.mp hread
            refine commentLoop_hyphen hhyphen hfront (.ite (fun heq => absurd heq hx) fun _ => ?_)
            refine (commentLoop_beyond (p'.ahead data) fuel).mono (fun m hm => ?_) fun _ _ h => h
            simpa [hc2, hc3] using hm.before hopen hrest
          | c1 :: u =>
            have hsplit : c :: c0 :: c1 :: u ++ back = [c, c0, c1] ++ (u ++ back) := rfl
            rw [hsplit] at hread
            obtain ⟨q, hfront, hrest⟩ := reads_append.mp hread
            refine commentLoop_hyphen hhyphen hfront (.ite (fun heq => absurd heq hx) fun _ => ?_)
            exact ih htext.tail.tail.tail (by simpa [grouped] using hgroups) hrest
      · rw [List.map_cons, grouped_other hhyphen] at hgroups
        obtain ⟨q, hc, hrest⟩ := reads_cons.mp hread
        exact commentLoop_char hhyphen hc (ih htext.tail hgroups hrest)

end Loop

/-! ### The call -/

section Call

variable {data : List UInt8}
variable {m : Parser}

/-- `<!--`, the text `t` and `-->` come next, up to the place `p'`. -/
def CommentAhead (data : List UInt8) (m : Parser) (t : List Ch) (p' : Place) : Prop :=
  ∃ front back, front.map Ch.code = codes "<!--" ∧ back.map Ch.code = codes "-->" ∧
    Reads data m.input.place (front ++ (t ++ back)) p'

/-- The call returns the comment with the text `t`, its references evaluated, and the next one
goes on at `p'`. -/
def ReadsComment (data : List UInt8) (m : Parser) (t : List Ch) (p' : Place) : Prop :=
  ∃ fuel m', next fuel m = .returned (.event .comment) m' ∧ OnData data m'.input ∧
    m'.input.place = p' ∧ (getStrings m'.state).value = some (stringEvaluateReferences (bytesOf t))

/-- The part of `guththila_next` behind `<!--`. -/
def comment (fuel : ℕ) : Parse Reply := do
  let _ ← reading nextChar
  tokenOpen
  commentLoop fuel

/-- A call that comes to `<!--` is in front of the character behind it. -/
lemma nextBody_declaration {front : List Ch} {p p' : Place} {s : State} {fuel : ℕ}
    {Q : Reply → Parser → Prop} {X : Exit → Parser → Prop} (hpop : s.Poppable)
    (hfront : front.map Ch.code = codes "<!--") (hread : Reads data p front p')
    (hzero : fuel = 0 → ∀ m, X .outOfFuel m)
    (h : Ends (Here data p' s.atMarkup) (comment fuel) Q X) :
    Ends (Here data p s) (nextBody fuel) Q X := by
  obtain ⟨lt, bang, h1, h2, rfl⟩ : ∃ lt bang h1 h2, front = [lt, bang, h1, h2] := by
    have hlength := congrArg List.length hfront
    rw [List.length_map] at hlength
    match front, hlength with
    | [lt, bang, h1, h2], _ => exact ⟨lt, bang, h1, h2, rfl⟩
  obtain ⟨hc1, hc2, hc3, hc4⟩ :
      lt.code = ch '<' ∧ bang.code = ch '!' ∧ h1.code = ch '-' ∧ h2.code = ch '-' := by
    simpa [codes] using hfront
  obtain ⟨q₁, hlt, hread⟩ := reads_cons.mp hread
  obtain ⟨q₂, hbang, hread⟩ := reads_cons.mp hread
  have hmarkup : Ends (Here data q₁ s.atMarkup) (markup fuel) Q X := by
    have hslash : ¬ bang.code = ch '/' := by rw [hc2]; decide
    refine (nextChar_here hbang).ends (.ite (fun heq => absurd heq hslash) fun _ => ?_)
    refine .ite (fun _ => ?_) fun hne => absurd hc2 hne
    refine (nextNoChar_arrives 2 rfl hbang.ready hread).ends (.ite (fun _ => h) fun hne => ?_)
    exact absurd (by simp [hc3, hc4]) hne
  have hclean : Arrives False (Here data p s) cleanUp () (Here data p s.cleaned) := by
    rintro m ⟨hm, hp, rfl⟩
    rw [cleanUp_run hpop]
    exact ⟨rfl, hm, hp, rfl⟩
  refine hclean.ends ((nextChar_here hlt).ends (getState_arrives.ends (.ite (fun _ => ?_) ?_)))
  · cases fuel with
    | zero => exact Ends.bind (Q := fun _ _ => False) (fun m _ => hzero rfl m) fun _ _ hm => hm.elim
    | succ fuel =>
      have hspace : ¬ isspace lt.code = true := by rw [hc1]; decide
      have hleading : Arrives False (Here data q₁ s.cleaned) (leadingSpace (fuel + 1) lt.code)
          lt.code (Here data q₁ s.cleaned) := .neg hspace (.pure fun _ hm => hm)
      refine hleading.ends (.ite (fun _ => ?_) fun hne => absurd hc1 hne)
      exact (modifyState_arrives _).ends hmarkup
  · intro hs1
    refine .ite (fun _ => ?_) fun hne => absurd hc1 hne
    rwa [← atMarkup_of_not_s1 hs1]

lemma readsComment_of_grouped {t : List Ch} {p' : Place} (hm : OnData data m.input)
    (hpop : m.state.Poppable) (hread : CommentAhead data m t p')
    (htext : CommentText (t.map Ch.code)) (hne : t ≠ [])
    (hgroups : grouped (t.map Ch.code).tail = true) : ReadsComment data m t p' := by
  obtain ⟨front, back, hfront, hback, hread⟩ := hread
  obtain ⟨c, u, rfl⟩ := List.exists_cons_of_ne_nil hne
  obtain ⟨q, hread₁, hread₂⟩ := reads_append.mp hread
  rw [List.cons_append] at hread₂
  obtain ⟨q', hc, hread₃⟩ := reads_cons.mp hread₂
  have hsound : q'.decoder.Sound := hc.sound (hread₁.sound hm.2.2)
  have hcomment : Arrives False (Here data q m.state.atMarkup) (comment (u.length + 1))
      (.event .comment) (Here data p' { m.state.atMarkup with
        event := some .comment, value := some (bytesOf (c :: u)), tempTok := none }) := by
    refine (nextChar_arrives hc).bind (tokenOpen_arrives.bind (.seen hc fun _ => ?_))
    rw [bytesOf_cons]
    exact commentLoop_arrives (s := { m.state.atMarkup with tempTok := some q.next }) _ htext.tail
      hgroups hback rfl ((OpenToken.begin q).grow hc) hsound hc.ready hread₃ (by omega)
  have hbody : Arrives False (Here data m.input.place m.state) (nextBody (u.length + 1))
      (.event .comment) _ := nextBody_declaration hpop hfront hread₁ (by omega) hcomment
  rcases hbody.result ⟨hm, rfl, rfl⟩ with ⟨m', hok, hm', hp', hs'⟩ | ⟨hshort, -⟩
  · refine ⟨u.length + 1, m', ?_, hm', hp', by rw [hs']; rfl⟩
    unfold next
    rw [hok]
  · exact hshort.elim

lemma grouped_of_readsComment {t : List Ch} {p' : Place} (hm : OnData data m.input)
    (hread : CommentAhead data m t p') (htext : CommentText (t.map Ch.code))
    (h : ReadsComment data m t p') :
    m.state.Poppable ∧ t ≠ [] ∧ grouped (t.map Ch.code).tail = true := by
  obtain ⟨fuel, m', hnext, hm', hplace, -⟩ := h
  obtain ⟨front, back, hfront, hback, hread⟩ := hread
  have hpop := (next_settled hm hnext).1
  obtain ⟨q, hread₁, hread₂⟩ := reads_append.mp hread
  have hbody : nextBody fuel m = .ok (.event .comment) m' := by
    unfold next at hnext
    split at hnext
    · next hrun =>
        obtain ⟨rfl, rfl⟩ := Outcome.returned.inj hnext
        exact hrun
    · cases hnext
    · cases hnext
  -- the first character behind `<!--` goes to the token without a look at it
  have hmissed {c : Ch} {q' : Place} (hc : ReadsChar data q c q')
      (hloop : Ends (Here data q' { m.state.atMarkup with tempTok := some q.next })
        (commentLoop fuel) (fun _ m => (m.input.ahead data).length < (p'.ahead data).length)
        fun _ _ => True) : False := by
    have hcomment : Ends (Here data q m.state.atMarkup) (comment fuel)
        (fun _ m => (m.input.ahead data).length < (p'.ahead data).length) fun _ _ => True :=
      (nextChar_arrives hc).ends (Arrives.ends (.here hc tokenOpen_arrives) hloop)
    have hrun := nextBody_declaration hpop hfront hread₁ (fun _ _ => trivial) hcomment m
      ⟨hm, rfl, rfl⟩
    rw [hbody] at hrun
    have hahead : m'.input.ahead data = p'.ahead data := congrArg (Place.ahead data) hplace
    exact absurd (congrArg List.length hahead) (Nat.ne_of_lt hrun)
  cases t with
  | nil =>
    obtain ⟨h1, h2, gt, rfl, -, hc2, hc3⟩ := codes_closing hback
    obtain ⟨q', hc, hrest⟩ := reads_cons.mp hread₂
    refine (hmissed hc ((commentLoop_beyond (p'.ahead data) fuel).mono (fun m hm => ?_)
      fun _ _ h => h)).elim
    simpa [hc2, hc3] using hm.before rfl hrest
  | cons c u =>
    refine ⟨hpop, by simp, ?_⟩
    by_contra hgroups
    obtain ⟨q', hc, hrest⟩ := reads_cons.mp hread₂
    exact hmissed hc (commentLoop_misses fuel htext.tail (by simpa using hgroups) hback rfl hrest)

/-- A document of ASCII characters from its beginning. -/
lemma reads_initMemory (bs : List UInt8) (hbs : ∀ b ∈ bs, b.toNat < 128) :
    Reads bs (initMemory bs).input.place (bs.map Ch.ofByte)
      ⟨0 + bs.length, bs.foldl Decoder.store utf8DecoderCreate⟩ :=
  @reads_bytes bs bs [] ⟨0, utf8DecoderCreate⟩ ready_create (by simp) hbs

end Call

end Axis2C.Guththila
