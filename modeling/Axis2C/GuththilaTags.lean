import Axis2C.FirstOccurrence
import Axis2C.GuththilaScan
import Mathlib.Tactic

/-!
# Tags

The text of complete tags as a grammar over characters, and what
`guththila_next` makes of it: names with their prefixes, attributes and
namespace declarations, and the reply.
-/
namespace Axis2C.Guththila
open StatefulRuns

/-! ### Runs that arrive somewhere -/

/-- The parser is at the place `p` with the fields `s`. -/
def Here (data : List UInt8) (p : Place) (s : State) (m : Parser) : Prop :=
  OnData data m.input ∧ m.input.place = p ∧ m.state = s

/-- The character behind `p` has been read. -/
def Seen (data : List UInt8) (p : Place) (c : ℤ) (s : State) (m : Parser) : Prop :=
  ∃ x q, x.code = c ∧ ReadsChar data p x q ∧ Here data q s m

/-- From `P` the run goes on with `a` to `Q`, unless it runs out of fuel, which it does only if
`short`. -/
def Arrives {α : Type} (short : Prop) (P : Parser → Prop) (r : Parse α) (a : α)
    (Q : Parser → Prop) : Prop :=
  Ends P r (fun b m => b = a ∧ Q m) fun e _ => short ∧ e = .outOfFuel

section Arrives

variable {α β : Type} {data : List UInt8} {short : Prop} {P Q R : Parser → Prop}
variable {a : α} {b : β} {r r' : Parse α} {s : State} {p q : Place} {x : Ch} {code : ℤ}

lemma Arrives.result (h : Arrives short P r a Q) {m : Parser} (hm : P m) :
    (∃ m', r m = .ok a m' ∧ Q m') ∨ short ∧ ∃ m', r m = .error .outOfFuel m' := by
  have hrun := h m hm
  cases hr : r m with
  | ok b m' =>
    rw [hr] at hrun
    obtain ⟨rfl, hm'⟩ := hrun
    exact .inl ⟨m', rfl, hm'⟩
  | error e m' =>
    rw [hr] at hrun
    obtain ⟨hshort, rfl⟩ := hrun
    exact .inr ⟨hshort, m', rfl⟩

lemma Arrives.bind {f : α → Parse β} (hr : Arrives short P r a Q)
    (hf : Arrives short Q (f a) b R) : Arrives short P (r >>= f) b R :=
  Ends.bind hr fun c => Ends.given fun hc => by rw [hc]; exact hf

/-- What comes behind a run that cannot run out of fuel. -/
lemma Arrives.ends {f : α → Parse β} {S : β → Parser → Prop} {X : Exit → Parser → Prop}
    (hr : Arrives False P r a Q) (hf : Ends Q (f a) S X) : Ends P (r >>= f) S X := by
  intro m hm
  rcases hr.result hm with ⟨m', hrun, hm'⟩ | ⟨hfalse, -⟩
  · rw [bind_ok hrun]
    exact hf m' hm'
  · exact hfalse.elim

lemma Arrives.pure (h : ∀ m, P m → Q m) : Arrives short P (pure a : Parse α) a Q :=
  Ends.pure fun m hm => ⟨rfl, h m hm⟩

lemma Arrives.outOfFuel (h : short) : Arrives short P (throw .outOfFuel : Parse α) a Q :=
  Ends.throw fun _ _ => ⟨h, rfl⟩

lemma Arrives.pos {c : Prop} [Decidable c] (hc : c) (h : Arrives short P r a Q) :
    Arrives short P (if c then r else r') a Q := by
  rwa [if_pos hc]

lemma Arrives.neg {c : Prop} [Decidable c] (hc : ¬ c) (h : Arrives short P r' a Q) :
    Arrives short P (if c then r else r') a Q := by
  rwa [if_neg hc]

/-- The character that has been read is known. -/
lemma Arrives.seen (hx : ReadsChar data p x q)
    (h : code = x.code → Arrives short (Here data q s) r a Q) :
    Arrives short (Seen data p code s) r a Q := by
  rintro m ⟨y, q', hcode, hy, hm⟩
  obtain ⟨rfl, rfl⟩ := hy.unique hx
  exact h hcode.symm m hm

lemma Arrives.here (hx : ReadsChar data p x q) (h : Arrives short P r a (Seen data p code s)) :
    Arrives short P r a (Here data q s) := by
  refine h.mono (fun _ hm => hm) ?_
  rintro b m ⟨hb, y, q', -, hy, hm⟩
  obtain ⟨rfl, rfl⟩ := hy.unique hx
  exact ⟨hb, hm⟩

lemma modifyState_arrives (f : State → State) :
    Arrives short (Here data p s) (modifyState f) () (Here data p (f s)) := by
  rintro m ⟨hm, hp, rfl⟩
  exact ⟨rfl, hm, hp, rfl⟩

lemma modifyState_run (f : State → State) (m : Parser) :
    modifyState f m = .ok () ⟨m.input, f m.state⟩ := rfl

lemma getState_run (m : Parser) : getState m = .ok m.state m := rfl

lemma getState_arrives : Arrives short (Here data p s) getState s (Here data p s) := by
  rintro m ⟨hm, hp, rfl⟩
  exact ⟨rfl, hm, hp, rfl⟩

lemma nextChar_arrives (hx : ReadsChar data p x q) :
    Arrives short (Here data p s) (reading nextChar) x.code (Seen data p x.code s) := by
  rintro m ⟨hm, rfl, rfl⟩
  obtain ⟨i, hrun, hi, hp⟩ := hx.run hm
  simp only [reading, hrun]
  exact ⟨trivial, x, q, rfl, hx, hi, hp, rfl⟩

lemma nextChar_here (hx : ReadsChar data p x q) :
    Arrives short (Here data p s) (reading nextChar) x.code (Here data q s) :=
  .here hx (nextChar_arrives hx)

end Arrives

/-! ### Spaces and tokens -/

section Evaluation

variable {data : List UInt8} {short : Prop} {s : State} {fuel : ℕ}
variable {cs : List Ch} {p p₀ p₁ p₂ p₃ q' : Place} {attrs : List RawAttribute} {text : List Ch}
  {x : Ch} {c old : ℤ} {start : ℕ} {first : Ch} {q : QName} {part : Token} {elem : Element}

/-- The first of some characters with one behind them. -/
lemma reads_next (h : Reads data p cs p₁) (hx : ReadsChar data p₁ x p₂) :
    ∃ d r, ReadsChar data p d r := by
  cases h with
  | nil => exact ⟨x, p₂, hx⟩
  | cons hd _ => exact ⟨_, _, hd⟩

lemma reads_concat {d : Ch} :
    Reads data p (cs ++ [d]) p₂ ↔ ∃ r, Reads data p cs r ∧ ReadsChar data r d p₂ := by
  rw [reads_append]
  constructor
  · rintro ⟨r, hcs, hd⟩
    cases hd with
    | cons hd hnil => cases hnil; exact ⟨r, hcs, hd⟩
  · rintro ⟨r, hcs, hd⟩
    exact ⟨r, hcs, .cons hd (.nil _)⟩

lemma skipSpaces_arrives {spaces : List Ch} (hspaces : ∀ s ∈ spaces, isSpaceChar s.code)
    (hx : ¬ isSpaceChar x.code) (hread : Reads data p spaces p₁) (hchar : ReadsChar data p₁ x p₂)
    (hshort : fuel ≤ spaces.length → short) :
    Arrives short (Seen data p c s) (skipSpaces fuel c) x.code (Seen data p₁ x.code s) := by
  induction fuel generalizing spaces p c with
  | zero => exact .outOfFuel (hshort (Nat.zero_le _))
  | succ fuel ih =>
    cases hread with
    | nil =>
      refine .seen hchar ?_
      rintro rfl
      exact .neg hx (.pure fun m hm => ⟨x, _, rfl, hchar, hm⟩)
    | cons hd hrest =>
      refine .seen hd ?_
      rintro rfl
      obtain ⟨e, r, he⟩ := reads_next hrest hchar
      refine .pos (hspaces _ (List.mem_cons_self ..)) ((nextChar_arrives he).bind ?_)
      exact ih (fun s hs => hspaces s (List.mem_cons_of_mem _ hs)) hrest fun hle =>
        hshort (Nat.succ_le_succ hle)

/-- The token that is open from `start` on holds `part` at the place `p`. -/
structure OpenToken (data : List UInt8) (start : ℕ) (part : Token) (p : Place) : Prop where
  bytes : data.drop start = part ++ data.drop p.next
  next_eq : p.next = start + part.length

lemma OpenToken.begin (p : Place) : OpenToken data p.next [] p := ⟨rfl, rfl⟩

lemma OpenToken.reads (h : OpenToken data start part p) (hread : Reads data p cs p₁) :
    OpenToken data start (part ++ bytesOf cs) p₁ := by
  obtain ⟨hbytes, hnext⟩ := hread.bytes
  constructor
  · rw [h.bytes, hbytes, List.append_assoc]
  · rw [hnext, h.next_eq, List.length_append, Nat.add_assoc]

lemma OpenToken.grow (h : OpenToken data start part p) (hx : ReadsChar data p x p₁) :
    OpenToken data start (part ++ x.bytes) p₁ := by
  simpa [bytesOf] using h.reads (.cons hx (.nil p₁))

/-- `GUTHTHILA_TOKEN_OPEN` right behind a character. -/
lemma tokenOpen_arrives : Arrives short (Seen data p c s) tokenOpen ()
    (Seen data p c { s with tempTok := some p.next }) := by
  rintro m ⟨x, q, hcode, hx, hm, rfl, rfl⟩
  have hstart : m.input.next - m.input.decoder.usedBytes = p.next := by
    have hused := hx.used
    have hnext := hx.next
    simp only [Input.place] at hused hnext
    omega
  refine ⟨rfl, x, m.input.place, hcode, hx, hm, rfl, ?_⟩
  rw [← hstart]

/-- `guththila_token_close` for a token that ends so many bytes back. -/
lemma tokenCloseBack_arrives {back : ℕ} {tok : Token} (hstart : s.tempTok = some start)
    (htok : OpenToken data start tok p) (hnext : p₁.next = p.next + back + 1) (type : TokType) :
    Arrives short (Here data p₁ s) (tokenCloseBack back type) ()
      (Here data p₁ (s.close tok type)) := by
  rintro m ⟨hm, rfl, rfl⟩
  have hclose : closePosition start back m.input = .ok tok { m.input with lastStart := none } := by
    have hsize : m.input.next - back - (start + 1) = tok.length := by
      have hplace : m.input.place.next = m.input.next := rfl
      have htoken := htok.next_eq
      omega
    simp only [closePosition, hsize, hm.2.1, Nat.zero_le, if_true, Nat.sub_zero]
    split_ifs with hzero
    · rw [List.length_eq_zero_iff.mp hzero]
    · rw [htok.bytes, List.take_left]
  have hread : reading (closePosition start back) m =
      .ok tok { m with input := { m.input with lastStart := none } } := by
    simp only [reading, hclose]
  have hrun : tokenCloseBack back type m =
      .ok () ⟨{ m.input with lastStart := none }, m.state.close tok type⟩ := by
    refine (bind_ok (getState_run m)).trans ?_
    rw [hstart]
    exact bind_ok hread
  rw [hrun]
  exact ⟨rfl, hm, rfl, rfl⟩

/-- `guththila_token_close` behind the one byte that ends the token. -/
lemma tokenClose_arrives {tok : Token} (hstart : s.tempTok = some start)
    (htok : OpenToken data start tok p) (hx : ReadsChar data p x p₁) (hone : x.bytes.length = 1)
    (type : TokType) :
    Arrives short (Seen data p x.code s) (tokenClose type) ()
      (Seen data p x.code (s.close tok type)) := by
  refine .seen hx fun _ => ?_
  refine (tokenCloseBack_arrives hstart htok (by rw [hx.next, hone]) type).mono (fun _ hm => hm) ?_
  exact fun _ m hm => ⟨hm.1, x, p₁, rfl, hx, hm.2⟩

/-! ### Names -/

structure QName where
  pref : Option Token
  name : Token
  deriving Repr, DecidableEq

/-- A name cut at its colons: the last part is the local name and the part
before it the prefix. `part` is the text since the last colon. -/
def qnameLoop (pref : Option Token) (part : Token) : List Ch → QName
  | [] => ⟨pref, part⟩
  | c :: cs =>
    if c.code = ch ':' then qnameLoop (some part) [] cs
    else qnameLoop pref (part ++ c.bytes) cs

/-- The first character of a name is not looked at. -/
def qname (first : Ch) (body : List Ch) : QName := qnameLoop none first.bytes body

lemma nameLoop_arrives {n : ℕ} {stop : ℤ → Bool} {body : List Ch}
    (hread : Reads data p body p₁) (hx : ReadsChar data p₁ x p₂) (hbody : ∀ b ∈ body, stop b.code = false)
    (hstop : stop x.code = true) (hsound : p.decoder.Sound) (hready : p.decoder.Ready)
    (htok : OpenToken data start part p) (htemp : s.tempTok = some start)
    {pref : Option Token} (hpref : s.tempPrefix = pref) (hshort : n ≤ body.length → short) :
    ∃ start', OpenToken data start' (qnameLoop pref part body).name p₁ ∧
      Arrives short (Seen data p c s) (nameLoop stop n c) x.code (Seen data p₁ x.code
        { s with tempPrefix := (qnameLoop pref part body).pref, tempTok := some start' }) := by
  induction body generalizing n p c s start part pref with
  | nil =>
    cases hread
    subst hpref
    refine ⟨start, htok, ?_⟩
    cases n with
    | zero => exact .outOfFuel (hshort (Nat.zero_le _))
    | succ n =>
      refine .seen hx ?_
      rintro rfl
      exact .pos hstop (.pure fun m hm => ⟨x, p₂, rfl, hx, by rw [← htemp]; exact hm⟩)
  | cons b body ih =>
    obtain ⟨r, hb, hread⟩ := reads_cons.mp hread
    obtain ⟨d, r', hd⟩ := reads_next hread hx
    have hgo : ¬ stop b.code = true := by simp [hbody b (List.mem_cons_self ..)]
    have hbody' : ∀ b ∈ body, stop b.code = false :=
      fun c hc => hbody c (List.mem_cons_of_mem _ hc)
    by_cases hcolon : b.code = ch ':'
    · -- the part so far becomes the prefix, and a new token is opened
      have hone : b.bytes.length = 1 := hb.ascii hsound hready (by rw [hcolon]; decide)
      have hname : qnameLoop pref part (b :: body) = qnameLoop (some part) [] body :=
        if_pos hcolon
      obtain ⟨start', htok', hloop⟩ := ih (n := n - 1) (c := d.code)
        (s := { s.close part .pref with tempTok := some r.next }) hread hbody' (hb.sound hsound)
        hb.ready (OpenToken.begin r) rfl rfl (fun hle => hshort (by simp only [List.length_cons]; omega))
      rw [hname]
      refine ⟨start', htok', ?_⟩
      cases n with
      | zero => exact .outOfFuel (hshort (Nat.zero_le _))
      | succ n =>
        intro m hm
        obtain ⟨y, r₁, rfl, hy, -⟩ := id hm
        obtain ⟨rfl, rfl⟩ := hy.unique hb
        refine (Arrives.neg hgo (.neg hb.found (.neg (not_not.mpr hcolon)
          ((tokenClose_arrives htemp htok hb hone .pref).bind (.seen hb fun _ =>
            (nextChar_arrives hd).bind (tokenOpen_arrives.bind hloop)))))) m hm
    · have hname : qnameLoop pref part (b :: body) = qnameLoop pref (part ++ b.bytes) body :=
        if_neg hcolon
      obtain ⟨start', htok', hloop⟩ := ih (n := n - 1) (c := d.code) (s := s) hread hbody'
        (hb.sound hsound) hb.ready (htok.grow hb) htemp hpref
        (fun hle => hshort (by simp only [List.length_cons]; omega))
      rw [hname]
      refine ⟨start', htok', ?_⟩
      cases n with
      | zero => exact .outOfFuel (hshort (Nat.zero_le _))
      | succ n =>
        refine .seen hb ?_
        rintro rfl
        exact .neg hgo (.neg hb.found (.pos hcolon ((nextChar_arrives hd).bind hloop)))

/-- Closing a token leaves none open, whichever it was. -/
lemma State.close_tempTok (s : State) (start : Option ℕ) (tok : Token) (type : TokType) :
    ({ s with tempTok := start }).close tok type = s.close tok type := by
  cases type with
  | attributeValue =>
    simp only [State.close, State.declare]
    split_ifs
    · split
      · rfl
      · split_ifs
        · split <;> rfl
        · rfl
    · rfl
  | name | attributeName | pref | charData | textData => rfl

lemma readName_arrives {stop : ℤ → Bool} {type : TokType} {body : List Ch}
    (hsound : p.decoder.Sound) (hfirst : ReadsChar data p₀ first p) (hread : Reads data p body p₁)
    (hx : ReadsChar data p₁ x p₂) (hbody : ∀ b ∈ body, stop b.code = false)
    (hstop : stop x.code = true) (hascii : x.code < 128) (hpref : s.tempPrefix = none)
    (hshort : fuel ≤ body.length → short) :
    Arrives short (Here data p s) (readName stop type fuel) x.code (Seen data p₁ x.code
      (({ s with tempPrefix := (qname first body).pref }).close (qname first body).name type)) := by
  obtain ⟨d, r, hd⟩ := reads_next hread hx
  have hone : x.bytes.length = 1 := hx.ascii (hread.sound hsound) (hread.ready hfirst.ready) hascii
  obtain ⟨start, htok, hloop⟩ := nameLoop_arrives (c := d.code)
    (s := { s with tempTok := some p₀.next }) hread hx hbody hstop hsound hfirst.ready
    ((OpenToken.begin p₀).grow hfirst) rfl hpref hshort
  have hclose := State.close_tempTok { s with tempPrefix := (qname first body).pref } (some start)
    (qname first body).name type
  rw [← hclose]
  have hseen : Arrives short (Seen data p₀ first.code s) tokenOpen ()
      (Seen data p₀ first.code { s with tempTok := some p₀.next }) := tokenOpen_arrives
  have hopen : Arrives short (Here data p s) tokenOpen ()
      (Here data p { s with tempTok := some p₀.next }) :=
    .here hfirst fun m hm => hseen m ⟨first, p, rfl, hfirst, hm⟩
  exact hopen.bind ((nextChar_arrives hd).bind (hloop.bind
    ((tokenClose_arrives rfl htok hx hone type).bind (.pure fun _ hm => hm))))

/-! ### Values -/

def IsQuote (c : ℤ) : Prop := c = ch '\'' ∨ c = ch '"'

def Spaces (cs : List Ch) : Prop := ∀ c ∈ cs, isSpaceChar c.code = true

/-- The text between an attribute name and its value, up to the opening quote.
The last index is the new quote. Without `=` the quote of the attribute before
is kept and one character is passed over in its place. -/
inductive EquText (old : ℤ) : List Ch → ℤ → Prop
  | equ {spaces spaces' : List Ch} {equ quote : Ch} :
      Spaces spaces → equ.code = ch '=' → Spaces spaces' → IsQuote quote.code →
      EquText old (spaces ++ equ :: (spaces' ++ [quote])) quote.code
  | stale {space : Ch} {spaces : List Ch} {other : Ch} :
      Spaces (space :: spaces) → isSpaceChar other.code = false → other.code ≠ ch '=' →
      IsQuote old → EquText old (space :: (spaces ++ [other])) old

lemma isQuote_notSpace {c : ℤ} (h : IsQuote c) : ¬ isSpaceChar c := by
  rcases h with rfl | rfl <;> decide

lemma isQuote_ascii {c : ℤ} (h : IsQuote c) : c < 128 := by
  rcases h with rfl | rfl <;> decide

lemma EquText.isQuote {old quote : ℤ} (h : EquText old cs quote) :
    IsQuote quote := by
  cases h with
  | equ _ _ _ hq | stale _ _ _ hq => exact hq

lemma EquText.head {old quote : ℤ} (h : EquText old cs quote) :
    ∃ x rest, cs = x :: rest ∧ attributeStop x.code = true ∧ x.code < 128 := by
  have hspace : ∀ c : ℤ, isSpaceChar c = true → attributeStop c = true ∧ c < 128 := by
    intro c hc
    refine ⟨by simp [attributeStop, hc], ?_⟩
    simp only [isSpaceChar, decide_eq_true_eq] at hc
    omega
  cases h with
  | @equ spaces spaces' equ quote hs he _ _ =>
    cases spaces with
    | nil => exact ⟨equ, _, rfl, by simp [attributeStop, he], by rw [he]; decide⟩
    | cons s spaces => exact ⟨s, _, rfl, hspace _ (hs s (List.mem_cons_self ..))⟩
  | @stale space spaces _ hs _ _ _ =>
    exact ⟨space, _, rfl, hspace _ (hs space (List.mem_cons_self ..))⟩

lemma processEqu_arrives {equ : List Ch} {quote : ℤ} (h : EquText old equ quote)
    (hread : Reads data p equ p₁) (hshort : fuel ≤ equ.length → short) :
    Arrives short (Seen data p c s) (processEqu fuel c old) quote (Here data p₁ s) := by
  cases h with
  | @equ spaces spaces' e quote hspaces he hspaces' hquote =>
    obtain ⟨r, hspacesRead, hread⟩ := reads_append.mp hread
    obtain ⟨r', hechar, hread⟩ := reads_cons.mp hread
    obtain ⟨r₂, hread, hquoteChar⟩ := reads_concat.mp hread
    obtain ⟨d, r₃, hd⟩ := reads_next hread hquoteChar
    have hstop : ¬ isSpaceChar e.code = true := by rw [he]; decide
    simp only [List.length_append, List.length_cons] at hshort
    refine (skipSpaces_arrives hspaces hstop hspacesRead hechar (fun _ => hshort (by omega))).bind ?_
    refine .pos he (.seen hechar fun _ => (nextChar_arrives hd).bind ?_)
    exact .here hquoteChar (skipSpaces_arrives hspaces' (isQuote_notSpace hquote) hread hquoteChar
      fun _ => hshort (by omega))
  | @stale space spaces other hspaces hother hne _ =>
    rw [← List.cons_append] at hread hshort
    obtain ⟨r, hread, hchar⟩ := reads_concat.mp hread
    refine (skipSpaces_arrives hspaces (by simp [hother]) hread hchar
      (fun hle => hshort (by simp only [List.length_append]; omega))).bind ?_
    exact .neg hne (.seen hchar fun _ => .pure fun _ hm => hm)

lemma valueLoop_arrives {value : List Ch} {quote : ℤ} {close : Ch}
    (hvalue : ∀ v ∈ value, v.code ≠ quote) (hclose : close.code = quote)
    (hread : Reads data p value p₁) (hchar : ReadsChar data p₁ close p₂)
    (hshort : fuel ≤ value.length → short) :
    Arrives short (Seen data p c s) (valueLoop quote fuel c) () (Seen data p₁ close.code s) := by
  induction fuel generalizing value p c with
  | zero => exact .outOfFuel (hshort (Nat.zero_le _))
  | succ fuel ih =>
    cases hread with
    | nil =>
      refine .seen hchar ?_
      rintro rfl
      exact .pos hclose (.pure fun m hm => ⟨close, _, rfl, hchar, hm⟩)
    | cons hv hrest =>
      refine .seen hv ?_
      rintro rfl
      obtain ⟨d, r, hd⟩ := reads_next hrest hchar
      refine .neg (hvalue _ (List.mem_cons_self ..)) (.neg hv.found ((nextChar_arrives hd).bind ?_))
      exact ih (fun v hv => hvalue v (List.mem_cons_of_mem _ hv)) hrest fun hle =>
        hshort (Nat.succ_le_succ hle)

/-- A value and the spaces behind its closing quote, up to the character `x`. -/
lemma readValue_arrives {quote : ℤ} {value spaces : List Ch} {close : Ch} (hquote : IsQuote quote)
    (hvalue : ∀ v ∈ value, v.code ≠ quote) (hclose : close.code = quote) (hspaces : Spaces spaces)
    (hx : ¬ isSpaceChar x.code) (hsound : p.decoder.Sound) (hready : p.decoder.Ready)
    (hread : Reads data p value p₁) (hchar : ReadsChar data p₁ close p₂)
    (hread' : Reads data p₂ spaces p₃) (hchar' : ReadsChar data p₃ x q')
    (hshort : fuel ≤ value.length + spaces.length → short) :
    Arrives short (Here data p s) (readValue quote fuel) x.code
      (Seen data p₃ x.code (s.close (bytesOf value) .attributeValue)) := by
  obtain ⟨d, r, hd⟩ := reads_next hread hchar
  obtain ⟨e, r', he⟩ := reads_next hread' hchar'
  have hone : close.bytes.length = 1 := hchar.ascii (hread.sound hsound) (hread.ready hready) (by
    rw [hclose]
    exact isQuote_ascii hquote)
  have htok : OpenToken data p.next (bytesOf value) p₁ := (OpenToken.begin p).reads hread
  have hclosed : ({ s with tempTok := some p.next }).close (bytesOf value) .attributeValue =
      s.close (bytesOf value) .attributeValue := State.close_tempTok ..
  rw [← hclosed]
  refine (nextChar_arrives hd).bind (tokenOpen_arrives.bind ?_)
  refine (valueLoop_arrives hvalue hclose hread hchar (fun _ => hshort (by omega))).bind ?_
  refine (tokenClose_arrives rfl htok hchar hone .attributeValue).bind (.seen hchar fun _ => ?_)
  exact (nextChar_arrives he).bind (skipSpaces_arrives hspaces hx hread' hchar'
    fun _ => hshort (by omega))

/-! ### Start tags -/

structure RawAttribute where
  qname : QName
  value : Token
  deriving Repr, DecidableEq

/-- The text of a tag from the first character behind its name that is not a
space, with the attributes and the event it stands for. `old` is the quote of the
attribute before. -/
inductive AttributesText : ℤ → List Ch → List RawAttribute → Event → Prop
  | start {old : ℤ} {c : Ch} : c.code = ch '>' → AttributesText old [c] [] .startElement
  | empty {old : ℤ} {c c' : Ch} :
      c.code = ch '/' → c'.code = ch '>' → AttributesText old [c, c'] [] .emptyElement
  | attr {old quote : ℤ} {first close : Ch} {body equ value spaces rest : List Ch}
      {attrs : List RawAttribute} {event : Event} :
      isValidStartingChar first.code = true → (∀ b ∈ body, attributeStop b.code = false) →
      EquText old equ quote → (∀ v ∈ value, v.code ≠ quote) → close.code = quote →
      Spaces spaces → AttributesText quote rest attrs event →
      AttributesText old (first :: (body ++ (equ ++ (value ++ [close] ++ (spaces ++ rest)))))
        (⟨qname first body, bytesOf value⟩ :: attrs) event

def State.addAttribute (s : State) (a : RawAttribute) : State :=
  ({ s with tempPrefix := a.qname.pref, tempName := some a.qname.name, tempTok := none }).close
    a.value .attributeValue

def State.endOfTag (s : State) (attrs : List RawAttribute) (event : Event) : State :=
  { attrs.foldl State.addAttribute s with event := some event }

def tagReply (s : State) (event : Event) : Reply :=
  if validateNamespaces s then .event event else .failed

lemma finishTag_arrives (event : Event) : Arrives short (Here data p s) (finishTag event)
    (tagReply { s with event := some event } event) (Here data p { s with event := some event }) := by
  refine (modifyState_arrives _).bind (getState_arrives.bind ?_)
  unfold tagReply
  split
  · exact .pure fun _ hm => hm
  · exact .pure fun _ hm => hm

lemma AttributesText.head {event : Event} (h : AttributesText old text attrs event) :
    ∃ x rest, text = x :: rest ∧ ¬ isSpaceChar x.code := by
  cases h with
  | @start _ c hc => exact ⟨c, [], rfl, by rw [hc]; decide⟩
  | @empty _ c c' hc _ => exact ⟨c, [c'], rfl, by rw [hc]; decide⟩
  | @attr _ _ first _ _ _ _ _ _ _ _ hfirst =>
    refine ⟨first, _, rfl, ?_⟩
    intro hspace
    simp only [isSpaceChar, decide_eq_true_eq] at hspace
    rcases hspace with h | h | h | h <;> rw [h] at hfirst <;> revert hfirst <;> decide

lemma AttributesText.event {event : Event} (h : AttributesText old text attrs event) :
    event = .startElement ∨ event = .emptyElement := by
  induction h with
  | start _ => exact Or.inl rfl
  | empty _ _ => exact Or.inr rfl
  | attr _ _ _ _ _ _ _ ih => exact ih

lemma attributes_arrives {event : Event} (h : AttributesText old text attrs event)
    (hread : Reads data p text p₁) (hsound : p.decoder.Sound) (hready : p.decoder.Ready)
    (hpref : s.tempPrefix = none) (hshort : fuel ≤ text.length → short) :
    Arrives short (Seen data p c s) (attributes fuel old c)
      (tagReply (s.endOfTag attrs event) event) (Here data p₁ (s.endOfTag attrs event)) := by
  induction h generalizing fuel p c s with
  | @start old gt hgt =>
    obtain ⟨r, hchar, hnil⟩ := reads_cons.mp hread
    cases hnil
    cases fuel with
    | zero => exact .outOfFuel (hshort (Nat.zero_le _))
    | succ fuel =>
      refine .seen hchar ?_
      rintro rfl
      exact .neg (by rw [hgt]; decide) (.pos hgt (finishTag_arrives _))
  | @empty old slash gt hslash hgt =>
    obtain ⟨r, hchar, hread⟩ := reads_cons.mp hread
    obtain ⟨r', hchar', hnil⟩ := reads_cons.mp hread
    cases hnil
    cases fuel with
    | zero => exact .outOfFuel (hshort (Nat.zero_le _))
    | succ fuel =>
      refine .seen hchar ?_
      rintro rfl
      refine .pos hslash ((nextChar_arrives hchar').bind (.pos hgt ?_))
      exact .seen hchar' fun _ => finishTag_arrives _
  | @attr old quote first close body equ value spaces rest attrs event hfirst hbody hequ
      hvalue hclose hspaces hrest ih =>
      obtain ⟨e, equ', rfl, hestop, hascii⟩ := hequ.head
      obtain ⟨x, rest', rfl, hx⟩ := hrest.head
      obtain ⟨r, hchar, hread⟩ := reads_cons.mp hread
      obtain ⟨r₁, hread₁, hread⟩ := reads_append.mp hread
      obtain ⟨r₂, hread₂, hread⟩ := reads_append.mp hread
      obtain ⟨r₃, hread₃, hread⟩ := reads_append.mp hread
      obtain ⟨r₄, hread₄, hread₅⟩ := reads_append.mp hread
      obtain ⟨v, hvalueRead, hcloseChar⟩ := reads_concat.mp hread₃
      obtain ⟨r₅, hechar, -⟩ := reads_cons.mp hread₂
      obtain ⟨r₆, hxchar, -⟩ := reads_cons.mp hread₅
      have hbehind := hread₁.sound (hchar.sound hsound)
      have hbehindEqu := hread₂.sound hbehind
      have hready₂ := hread₂.ready (hread₁.ready hchar.ready)
      simp only [List.length_cons, List.length_append] at hshort
      cases fuel with
      | zero => exact .outOfFuel (hshort (Nat.zero_le _))
      | succ fuel =>
        refine .seen hchar ?_
        rintro rfl
        have hnotSlash : ¬ first.code = ch '/' := by
          intro h; rw [h] at hfirst; revert hfirst; decide
        have hnotEnd : ¬ first.code = ch '>' := by
          intro h; rw [h] at hfirst; revert hfirst; decide
        refine .neg hnotSlash (.neg hnotEnd (.pos hfirst ?_))
        refine (readName_arrives (hchar.sound hsound) hchar hread₁ hechar hbody hestop hascii hpref
          (fun _ => hshort (by omega))).bind ?_
        refine (processEqu_arrives hequ hread₂
          (fun hle => hshort (by simp only [List.length_cons] at hle; omega))).bind ?_
        refine .pos hequ.isQuote ((readValue_arrives hequ.isQuote hvalue hclose hspaces hx hbehindEqu
          hready₂ hvalueRead hcloseChar hread₄ hxchar (fun _ => hshort (by omega))).bind ?_)
        have hsound₄ := hread₄.sound (hread₃.sound hbehindEqu)
        have hready₄ := hread₄.ready (hread₃.ready hready₂)
        exact ih hread₅ hsound₄ hready₄ rfl
          (fun hle => hshort (by simp only [List.length_cons] at hle; omega))

/-- A complete start tag or empty element behind the first character of its name. -/
inductive StartTagText (first : Ch) : List Ch → QName → List RawAttribute → Event → Prop
  | mk {body spaces rest xs : List Ch} {x : Ch} {attrs : List RawAttribute} {event : Event} :
      isValidStartingChar first.code = true → (∀ b ∈ body, startTagStop b.code = false) →
      Spaces spaces → AttributesText 0 rest attrs event → spaces ++ rest = x :: xs →
      startTagStop x.code = true →
      StartTagText first (body ++ (spaces ++ rest)) (qname first body) attrs event

lemma StartTagText.starts {event : Event} (h : StartTagText first text q attrs event) :
    isValidStartingChar first.code = true := by
  obtain ⟨hvalid, -, -, -, -, -⟩ := h
  exact hvalid

lemma StartTagText.event {event : Event} (h : StartTagText first text q attrs event) :
    event = .startElement ∨ event = .emptyElement := by
  obtain ⟨-, -, -, hrest, -, -⟩ := h
  exact hrest.event

/-- An attribute with `=` and double quotes around its value. -/
lemma AttributesText.quoted (old : ℤ) (first : Ch) (body value spaces : List Ch) {rest : List Ch}
    {event : Event} (hfirst : isValidStartingChar first.code = true)
    (hbody : ∀ b ∈ body, attributeStop b.code = false) (hvalue : ∀ v ∈ value, v.code ≠ ch '"')
    (hspaces : Spaces spaces) (hrest : AttributesText (ch '"') rest attrs event) :
    AttributesText old (first :: (body ++ (.ofByte 61 :: .ofByte 34 :: (value ++
      (.ofByte 34 :: (spaces ++ rest)))))) (⟨qname first body, bytesOf value⟩ :: attrs) event := by
  have hequ : EquText old ([] ++ Ch.ofByte 61 :: ([] ++ [Ch.ofByte 34])) (ch '"') :=
    .equ (by simp [Spaces]) rfl (by simp [Spaces]) (Or.inr rfl)
  have hclose : (Ch.ofByte 34).code = ch '"' := rfl
  have htext := AttributesText.attr hfirst hbody hequ hvalue hclose hspaces hrest
  simpa using htext

/-! ### A text is one tag -/

lemma Spaces.notStop {spaces : List Ch} (h : Spaces spaces) :
    ∀ c ∈ spaces, (!isSpaceChar c.code) = false := by
  intro c hc
  simp [h c hc]

lemma EquText.unique {old quote quote' : ℤ} {equ equ' t t' : List Ch} (h : EquText old equ quote)
    (h' : EquText old equ' quote') (heq : equ ++ t = equ' ++ t') :
    equ = equ' ∧ quote = quote' ∧ t = t' := by
  cases h with
  | @equ spaces behind e q hs he hb hq =>
    have hne : (!isSpaceChar e.code) = true := by rw [he]; decide
    cases h' with
    | @equ spaces' behind' e' q' hs' he' hb' hq' =>
      simp only [List.append_assoc, List.cons_append, List.nil_append] at heq
      obtain ⟨rfl, rfl, hrest⟩ := FirstOccurrence.split_unique hs.notStop hs'.notStop hne
        (by rw [he']; decide) heq
      obtain ⟨rfl, rfl, rfl⟩ := FirstOccurrence.split_unique hb.notStop hb'.notStop
        (by simpa using isQuote_notSpace hq) (by simpa using isQuote_notSpace hq') hrest
      exact ⟨rfl, rfl, rfl⟩
    | @stale space spaces' other hs' hother hcode _ =>
      simp only [List.append_assoc, List.cons_append, List.nil_append] at heq
      rw [← List.cons_append] at heq
      obtain ⟨-, rfl, -⟩ := FirstOccurrence.split_unique hs.notStop hs'.notStop hne
        (by simpa using hother) heq
      exact absurd he hcode
  | @stale space spaces other hs hother hcode _ =>
    have hne : (!isSpaceChar other.code) = true := by simpa using hother
    cases h' with
    | @equ spaces' behind' e' q' hs' he' hb' hq' =>
      simp only [List.append_assoc, List.cons_append, List.nil_append] at heq
      rw [← List.cons_append] at heq
      obtain ⟨-, rfl, -⟩ := FirstOccurrence.split_unique hs.notStop hs'.notStop hne
        (by rw [he']; decide) heq
      exact absurd he' hcode
    | @stale space' spaces' other' hs' hother' hcode' _ =>
      simp only [List.append_assoc, List.cons_append, List.nil_append] at heq
      rw [← List.cons_append, ← List.cons_append] at heq
      obtain ⟨hspaces, rfl, rfl⟩ := FirstOccurrence.split_unique hs.notStop hs'.notStop hne
        (by simpa using hother') heq
      obtain ⟨rfl, rfl⟩ := List.cons.inj hspaces
      exact ⟨rfl, rfl, rfl⟩

lemma AttributesText.unique {text text' t t' : List Ch} {attrs attrs' : List RawAttribute}
    {event event' : Event} (h : AttributesText old text attrs event)
    (h' : AttributesText old text' attrs' event') (heq : text ++ t = text' ++ t') :
    attrs = attrs' ∧ event = event' := by
  induction h generalizing text' t t' attrs' event' with
  | @start old c hc =>
    cases h' with
    | start _ => exact ⟨rfl, rfl⟩
    | empty hslash _ =>
      obtain ⟨rfl, -⟩ := List.cons.inj heq
      rw [hc] at hslash
      exact absurd hslash (by decide)
    | attr hfirst =>
      obtain ⟨rfl, -⟩ := List.cons.inj heq
      rw [hc] at hfirst
      exact absurd hfirst (by decide)
  | @empty old c c' hc _ =>
    cases h' with
    | start hend =>
      obtain ⟨rfl, -⟩ := List.cons.inj heq
      rw [hc] at hend
      exact absurd hend (by decide)
    | empty _ _ => exact ⟨rfl, rfl⟩
    | attr hfirst =>
      obtain ⟨rfl, -⟩ := List.cons.inj heq
      rw [hc] at hfirst
      exact absurd hfirst (by decide)
  | @attr old quote first close body equ value spaces rest attrs event hfirst hbody hequ hvalue
      hclose hspaces hrest ih =>
      cases h' with
      | start hend =>
        obtain ⟨rfl, -⟩ := List.cons.inj heq
        rw [hend] at hfirst
        exact absurd hfirst (by decide)
      | empty hslash _ =>
        obtain ⟨rfl, -⟩ := List.cons.inj heq
        rw [hslash] at hfirst
        exact absurd hfirst (by decide)
      | @attr _ quote' first' close' body' equ' value' spaces' rest' attrs' event' _ hbody' hequ'
          hvalue' hclose' hspaces' hrest' =>
          rw [List.cons_append, List.cons_append] at heq
          obtain ⟨rfl, hcs⟩ := List.cons.inj heq
          obtain ⟨e, equ₁, rfl, hstop, -⟩ := hequ.head
          obtain ⟨e', equ₁', rfl, hstop', -⟩ := hequ'.head
          obtain ⟨x, rest₁, rfl, hx⟩ := hrest.head
          obtain ⟨x', rest₁', rfl, hx'⟩ := hrest'.head
          simp only [List.append_assoc, List.cons_append, List.nil_append] at hcs
          obtain ⟨rfl, rfl, hequs⟩ := FirstOccurrence.split_unique hbody hbody' hstop hstop' hcs
          obtain ⟨-, rfl, hvalues⟩ := hequ.unique hequ' (by simpa using hequs)
          obtain ⟨rfl, rfl, htail⟩ := FirstOccurrence.split_unique (P := fun c => c.code = quote)
            (by simpa using hvalue) (by simpa using hvalue') (by simpa using hclose)
            (by simpa using hclose') hvalues
          obtain ⟨rfl, rfl, hrests⟩ := FirstOccurrence.split_unique hspaces.notStop
            hspaces'.notStop (by simpa using hx) (by simpa using hx') htail
          obtain ⟨rfl, rfl⟩ := ih hrest' (by rw [List.cons_append, hrests]; rfl)
          exact ⟨rfl, rfl⟩

/-- The characters ahead are one complete tag at most. -/
lemma StartTagText.unique {text text' t t' : List Ch} {q q' : QName}
    {attrs attrs' : List RawAttribute} {event event' : Event}
    (h : StartTagText first text q attrs event) (h' : StartTagText first text' q' attrs' event')
    (heq : text ++ t = text' ++ t') : q = q' ∧ attrs = attrs' ∧ event = event' := by
  obtain ⟨-, hbody, hspaces, hrest, hx, hstop⟩ := h
  rename_i body spaces rest xs x
  obtain ⟨-, hbody', hspaces', hrest', hx', hstop'⟩ := h'
  rename_i body' spaces' rest' xs' x'
  rw [hx, hx'] at heq
  simp only [List.append_assoc, List.cons_append] at heq
  obtain ⟨rfl, rfl, hxs⟩ := FirstOccurrence.split_unique hbody hbody' hstop hstop' heq
  obtain ⟨y, ys, rfl, hy⟩ := hrest.head
  obtain ⟨y', ys', rfl, hy'⟩ := hrest'.head
  have htail : spaces ++ y :: (ys ++ t) = spaces' ++ y' :: (ys' ++ t') := by
    calc spaces ++ y :: (ys ++ t) = (spaces ++ y :: ys) ++ t := by simp
      _ = (spaces' ++ y' :: ys') ++ t' := by rw [hx, hx', List.cons_append, List.cons_append, hxs]
      _ = spaces' ++ y' :: (ys' ++ t') := by simp
  obtain ⟨rfl, rfl, hys⟩ := FirstOccurrence.split_unique hspaces.notStop hspaces'.notStop
    (by simpa using hy) (by simpa using hy') htail
  obtain ⟨rfl, rfl⟩ := hrest.unique hrest' (by rw [List.cons_append, hys]; rfl)
  exact ⟨rfl, rfl, rfl⟩

/-- The name of the tag has been read and its element pushed. -/
def State.openTag (s : State) (q : QName) : State :=
  { s with
    pref := q.pref, name := some q.name, tempTok := none, tempPrefix := none
    elem := ⟨some q.name, q.pref, false⟩ :: s.elem }

lemma startTagStop_ascii {c : ℤ} (h : startTagStop c = true) : c < 128 := by
  simp only [startTagStop, isSpaceChar, decide_eq_true_eq] at h
  rcases h with (h | h | h | h) | h | h <;> rw [h] <;> decide

lemma startTag_arrives {event : Event} (h : StartTagText first text q attrs event)
    (hsound : p.decoder.Sound) (hfirst : ReadsChar data p₀ first p) (hread : Reads data p text p₁)
    (hpref : s.tempPrefix = none) (hshort : fuel ≤ text.length → short) :
    Arrives short (Here data p s) (startTag fuel first.code)
      (tagReply ((s.openTag q).endOfTag attrs event) event)
      (Here data p₁ ((s.openTag q).endOfTag attrs event)) := by
  obtain ⟨hvalid, hbody, hspaces, hrest, hx, hstop⟩ := h
  rename_i body spaces rest xs x
  obtain ⟨y, rest', rfl, hy⟩ := hrest.head
  obtain ⟨r₁, hread₁, hread⟩ := reads_append.mp hread
  obtain ⟨r₂, hread₂, hread₃⟩ := reads_append.mp hread
  obtain ⟨r₃, hychar, -⟩ := reads_cons.mp hread₃
  have hread := reads_append.mpr ⟨r₂, hread₂, hread₃⟩
  rw [hx] at hread
  obtain ⟨r₄, hxchar, -⟩ := reads_cons.mp hread
  simp only [List.length_append] at hshort
  refine .pos hvalid ((readName_arrives hsound hfirst hread₁ hxchar hbody hstop
    (startTagStop_ascii hstop) hpref (fun _ => hshort (by omega))).bind ?_)
  have hpush : Arrives short (Seen data r₁ x.code (({ s with tempPrefix := (qname first body).pref
      }).close (qname first body).name .name)) pushElement ()
      (Seen data r₁ x.code (s.openTag (qname first body))) := by
    rintro m ⟨z, r, hz, hzchar, hm, hr, hs⟩
    exact ⟨rfl, z, r, hz, hzchar, hm, hr, by rw [hs]; rfl⟩
  refine hpush.bind ((skipSpaces_arrives hspaces hy hread₂ hychar (fun _ => hshort (by omega))).bind ?_)
  exact attributes_arrives hrest hread₃ (hread₂.sound (hread₁.sound hsound))
    (hread₂.ready (hread₁.ready hfirst.ready)) rfl (fun _ => hshort (by omega))

/-! ### End tags -/

/-- The element popped is closed by an end tag with the name `q`. -/
def State.closeTag (s : State) (q : QName) (elem : Element) (rest : List Element) : State :=
  { s with
    event := some .endElement, pref := q.pref, name := some q.name, tempTok := none
    tempPrefix := none, elem := rest
    namesp := if elem.isNamesp then s.namesp.tail else s.namesp }

lemma endTagStop_ascii {c : ℤ} (h : endTagStop c = true) : c < 128 := by
  simp only [endTagStop, isSpaceChar, decide_eq_true_eq] at h
  rcases h with (h | h | h | h) | h <;> rw [h] <;> decide

lemma closesElement_eq {s : State} (hname : s.name = some q.name) (hpref : s.pref = q.pref)
    (hname' : elem.name = some q.name) (hpref' : elem.pref = q.pref) :
    closesElement s elem = true := by
  rw [closesElement, hname, hpref, hname', hpref']
  cases q.pref <;> simp [tokTokCmp]

lemma finishEndTag_arrives {spaces : List Ch} {gt : Ch} (hspaces : Spaces spaces)
    (hgt : gt.code = ch '>') (hread : Reads data p spaces p₁) (hchar : ReadsChar data p₁ gt p₂)
    (hshort : fuel ≤ spaces.length → short) :
    Arrives short (Seen data p c s) (finishEndTag fuel c) (.event .endElement) (Here data p₂ s) := by
  have hstop : ¬ isSpaceChar gt.code = true := by rw [hgt]; decide
  refine (skipSpaces_arrives hspaces hstop hread hchar hshort).bind ?_
  exact .seen hchar fun _ => .pos hgt (.pure fun _ hm => hm)

lemma endTag_arrives {gt : Ch} {body spaces : List Ch} {rest : List Element}
    (hvalid : isValidStartingChar first.code = true) (hbody : ∀ b ∈ body, endTagStop b.code = false)
    (hspaces : Spaces spaces) (hgt : gt.code = ch '>') (hsound : p.decoder.Sound)
    (hread : Reads data p (first :: (body ++ (spaces ++ [gt]))) p₁)
    (hpref : s.tempPrefix = none) (helem : s.elem = elem :: rest)
    (hname : elem.name = some (qname first body).name)
    (hpref' : elem.pref = (qname first body).pref)
    (hshort : fuel ≤ (body ++ (spaces ++ [gt])).length → short) :
    Arrives short (Here data p s) (endTag fuel) (.event .endElement)
      (Here data p₁ (s.closeTag (qname first body) elem rest)) := by
  obtain ⟨r, hfirst, hread⟩ := reads_cons.mp hread
  obtain ⟨r₁, hread₁, hread⟩ := reads_append.mp hread
  obtain ⟨r₂, hread₂, hgtchar⟩ := reads_concat.mp hread
  obtain ⟨d, r₃, hd, hstop⟩ : ∃ d r, ReadsChar data r₁ d r ∧ endTagStop d.code = true := by
    cases hread₂ with
    | nil => exact ⟨gt, p₁, hgtchar, by simp [endTagStop, hgt]⟩
    | cons hd _ => exact ⟨_, _, hd, by simp [endTagStop, hspaces _ (List.mem_cons_self ..)]⟩
  simp only [List.length_append] at hshort
  refine (modifyState_arrives _).bind ((nextChar_here hfirst).bind ?_)
  refine .pos hvalid ((readName_arrives (s := { s with event := some .endElement })
    (hfirst.sound hsound) hfirst hread₁ hd hbody hstop (endTagStop_ascii hstop) hpref (fun _ => hshort (by omega))).bind
      (.seen hd fun _ => ?_))
  have hlast : Arrives short (Here data r₃ (s.closeTag (qname first body) elem rest))
      (finishEndTag fuel d.code) (.event .endElement)
      (Here data p₁ (s.closeTag (qname first body) elem rest)) := fun m hm =>
    finishEndTag_arrives hspaces hgt hread₂ hgtchar (fun _ => hshort (by omega)) m
      ⟨d, r₃, rfl, hd, hm⟩
  refine getState_arrives.bind ?_
  simp only [State.close, helem]
  refine (modifyState_arrives _).bind (.pos (closesElement_eq rfl rfl hname hpref') ?_)
  by_cases hnamesp : elem.isNamesp = true
  · refine .pos hnamesp ((modifyState_arrives _).bind ?_)
    simpa only [State.closeTag, if_pos hnamesp] using hlast
  · refine .neg hnamesp ?_
    simpa only [State.closeTag, if_neg hnamesp] using hlast

end Evaluation

end Axis2C.Guththila
