import Axis2C.FirstOccurrence

/-!
# The parameters of a Content-Type

`axis2_http_transport_utils_get_value_from_content_type` and
`axis2_http_transport_utils_get_charset_enc`. A pointer into a text is the rest of the text from
there. The first function works on a copy of the text, the second one writes into the text itself.
-/
namespace Axis2C.HttpContentType
open FirstOccurrence

abbrev Text := List Char

section Model

def escNull : Char := '\x00'

/-- `AXIS2_HTTP_CHAR_SET_ENCODING`. -/
def charSetEncoding : Text := "charset".toList

/-- `AXIS2_TRANS_UTIL_DEFAULT_CHAR_ENCODING`. -/
def defaultCharEncoding : Text := "iso-8859-1".toList

/-- What is returned for a key. `undefined` is a read through `NULL` or a write outside of the
copy. -/
inductive Found where
  | null
  | value (text : Text)
  | undefined
  deriving DecidableEq, Repr

/-- Behind a `"` the last character is taken off, whatever it is. -/
def unquote : Text → Option Text
  | '"' :: rest => if rest = [] then none else some rest.dropLast
  | tmp2 => some tmp2

/-- The branch for XOP: two characters in front, three at the end. -/
def handleXop : Text → Option Text
  | '\\' :: '"' :: rest => if rest.length < 3 then none else some (rest.take (rest.length - 3))
  | tmp2 => some tmp2

/-- What is behind the `=`, up to the next `;`. -/
def valueBehind (tmp : Text) : Option Text :=
  (unquote (tmp.tail.takeWhile (· ≠ ';'))).bind handleXop

/-- `axis2_http_transport_utils_get_value_from_content_type`. The `;` is searched for from `tmp`
before `tmp` is compared with `NULL`. -/
def getValueFromContentType (contentType key : Text) : Found :=
  match search key contentType with
  | none => .null
  | some tmp =>
    match search ['='] tmp with
    | none => .undefined
    | some tmp => ((valueBehind tmp).map Found.value).getD .undefined

def isQuote (c : Char) : Bool := c = '\'' || c = '"'

def stringAt (memory : Text) (i : ℕ) : Text := (memory.drop i).takeWhile (· ≠ escNull)

/-- Where the terminator is written: at the next `;` or at the end, or at a quote in front of it. -/
def terminatorAt (contentType tmp : Text) : ℕ :=
  let tmp2 := contentType.length - ((search [';'] tmp).getD []).length
  if isQuote (contentType.getD (tmp2 - 1) escNull) then tmp2 - 1 else tmp2

/-- `axis2_http_transport_utils_get_charset_enc`, with the memory of the text behind the call. -/
def getCharsetEnc (contentType : Text) : Text × Text :=
  match (search charSetEncoding contentType).bind (search ['=']) with
  | none => (defaultCharEncoding, contentType ++ [escNull])
  | some tmp =>
    let memory := (contentType ++ [escNull]).set (terminatorAt contentType tmp) escNull
    let eq := contentType.length - tmp.length
    let first := if isQuote (memory.getD (eq + 1) escNull) then eq + 2 else eq + 1
    (stringAt memory first, memory)

end Model

section Specification

/-- Free of `;`, of quotes and of the terminator. -/
def Plain (text : Text) : Prop := ∀ c ∈ text, c ≠ ';' ∧ isQuote c = false ∧ c ≠ escNull

instance (text : Text) : Decidable (Plain text) := List.decidableBAll _ text

/-- Free of `=` too. -/
def Token (text : Text) : Prop := Plain text ∧ '=' ∉ text

instance (text : Text) : Decidable (Token text) := inferInstanceAs (Decidable (_ ∧ _))

/-- A parameter `name=value`, the value plain or in double quotes. -/
structure Param where
  name : Text
  value : Text
  quoted : Bool
  nameToken : Token name
  valuePlain : Plain value

def Param.written (p : Param) : Text := if p.quoted then '"' :: (p.value ++ ['"']) else p.value

/-- What is between two `;`. -/
def Param.text (p : Param) : Text := ' ' :: (p.name ++ '=' :: p.written)

structure ContentType where
  mediaType : Text
  params : List Param
  mediaToken : Token mediaType

def paramsText (ps : List Param) : Text := ps.flatMap fun p => ';' :: p.text

def ContentType.text (ct : ContentType) : Text := ct.mediaType ++ paramsText ct.params

/-- The text in front of the `=` of a parameter that has `before` in front of it. -/
def ContentType.front (ct : ContentType) (before : List Param) (p : Param) : Text :=
  ct.mediaType ++ paramsText before ++ ';' :: ' ' :: p.name

/-- The value of the parameter with this name, and `NULL` when there is none. -/
def Names (ps : List Param) (key : Text) : Found → Prop
  | .null => ∀ p ∈ ps, p.name ≠ key
  | .value text => ∃ p ∈ ps, p.name = key ∧ p.value = text
  | .undefined => False

/-- The value of the parameter for the encoding, the default when there is none. -/
def Encodes (ps : List Param) (encoding : Text) : Prop :=
  (∃ p ∈ ps, p.name = charSetEncoding ∧ p.value = encoding) ∨
    (∀ p ∈ ps, p.name ≠ charSetEncoding) ∧ encoding = defaultCharEncoding

/-- Both values are those of the parameters, and the text is left as it was, so that what is found
in it later is found in every order of the parameters. -/
structure Right (ct : ContentType) (key : Text) : Prop where
  value : Names ct.params key (getValueFromContentType ct.text key)
  encoding : Encodes ct.params (getCharsetEnc ct.text).1
  unchanged : (getCharsetEnc ct.text).2 = ct.text ++ [escNull]
  later : ∀ ct' : ContentType, ct'.mediaType = ct.mediaType → ct'.params.Perm ct.params →
    ∀ needle, ';' ∉ needle →
      (needle <:+: stringAt (getCharsetEnc ct.text).2 0 ↔ needle <:+: ct'.text)

/-- `x` is the text in front of the first `=` at or behind the first occurrence of the key. -/
def Reaches (key text x : Text) : Prop :=
  ∃ a b rest, x = a ++ b ∧ text = x ++ '=' :: rest ∧ FirstAt key a (b ++ '=' :: rest) ∧ '=' ∉ b

/-- The `=` of the parameter is the one that the key leads to. -/
def OwnSign (ct : ContentType) (key : Text) (p : Param) : Prop :=
  ∃ before after, ct.params = before ++ p :: after ∧ Reaches key ct.text (ct.front before p)

/-- The `=` that the key leads to is within a plain value, with `rest` behind it. -/
def InnerSign (ct : ContentType) (key rest : Text) : Prop :=
  ∃ before p after c, ct.params = before ++ p :: after ∧ p.quoted = false ∧
    p.value = c ++ '=' :: rest ∧ Reaches key ct.text (ct.front before p ++ '=' :: c)

/-- When the value is found: the key does not occur, or it leads to a `=` that has the value of
the parameter with this name behind it. -/
def Served (ct : ContentType) (key : Text) : Prop :=
  ¬ key <:+: ct.text ∨ ∃ q ∈ ct.params, q.name = key ∧
    ((∃ p, p.value = q.value ∧ OwnSign ct key p) ∨ InnerSign ct key q.value)

/-- When the encoding is found and nothing is written: no `=` is behind the first `charset`, or it
leads to its own `=`, in the last parameter, and that one is not quoted. Without a parameter of
this name, the value that it leads to may be the default by chance. -/
def CharsetServed (ct : ContentType) : Prop :=
  (∀ x, ¬ Reaches charSetEncoding ct.text x) ∨
    ∃ before p, ct.params = before ++ [p] ∧ p.quoted = false ∧
      (p.name = charSetEncoding ∧ Reaches charSetEncoding ct.text (ct.front before p) ∨
        (∀ q ∈ ct.params, q.name ≠ charSetEncoding) ∧
          (p.value = defaultCharEncoding ∧ Reaches charSetEncoding ct.text (ct.front before p) ∨
            ∃ c, p.value = c ++ '=' :: defaultCharEncoding ∧
              Reaches charSetEncoding ct.text (ct.front before p ++ '=' :: c)))

end Specification

section Signs

/-- A search for the key and then for a `=` finds what the key leads to. -/
lemma search_eq_iff {key text rest : Text} :
    (search key text).bind (search ['=']) = some ('=' :: rest) ↔
      ∃ x, Reaches key text x ∧ text = x ++ '=' :: rest := by
  constructor
  · intro h
    obtain ⟨t, ht, hsign⟩ := Option.bind_eq_some_iff.mp h
    obtain ⟨a, htext, hfirst⟩ := search_eq_some ht
    obtain ⟨b, r, rfl, heq, hb⟩ := search_singleton_eq_some hsign
    obtain ⟨-, rfl⟩ := List.cons.inj heq
    have hassoc : text = a ++ b ++ '=' :: rest := by rw [htext, List.append_assoc]
    exact ⟨a ++ b, ⟨a, b, rest, rfl, hassoc, hfirst, hb⟩, hassoc⟩
  · rintro ⟨x, ⟨a, b, r, rfl, htext, hfirst, hb⟩, hrest⟩
    have hr : r = rest := by
      rw [htext] at hrest
      exact (List.cons.inj (List.append_cancel_left hrest)).2
    subst hr
    rw [htext, List.append_assoc, search_append hfirst, Option.bind_some,
      search_singleton _ hb]

lemma search_eq_none {key text : Text} (h : (search key text).bind (search ['=']) = none)
    (x : Text) : ¬ Reaches key text x := by
  rintro ⟨a, b, rest, hx, htext, hfirst, hb⟩
  have hsome := search_eq_iff.mpr ⟨x, ⟨a, b, rest, hx, htext, hfirst, hb⟩, htext⟩
  rw [hsome] at h
  cases h

lemma reaches_or_none (key text : Text) :
    (search key text).bind (search ['=']) = none ∨
      ∃ x rest, Reaches key text x ∧ text = x ++ '=' :: rest ∧
        (search key text).bind (search ['=']) = some ('=' :: rest) := by
  cases h : (search key text).bind (search ['=']) with
  | none => exact .inl rfl
  | some tmp =>
    obtain ⟨t, -, hsign⟩ := Option.bind_eq_some_iff.mp h
    obtain ⟨b, rest, -, rfl, -⟩ := search_singleton_eq_some hsign
    obtain ⟨x, hreach, htext⟩ := search_eq_iff.mp h
    exact .inr ⟨x, rest, hreach, htext, rfl⟩

/-- Two splittings of a text at a `=`, the first one at its first `=`. -/
lemma eq_split {a s x r : Text} (ha : '=' ∉ a) (h : a ++ '=' :: s = x ++ '=' :: r) :
    (x = a ∧ r = s) ∨ ∃ y, x = a ++ '=' :: y ∧ s = y ++ '=' :: r := by
  obtain ⟨y, rfl, htail⟩ | ⟨y, rfl, htail⟩ := List.append_eq_append_iff.mp h
  · cases y with
    | nil =>
      obtain ⟨-, rfl⟩ := List.cons.inj htail
      exact .inl ⟨List.append_nil a, rfl⟩
    | cons c y =>
      obtain ⟨rfl, rfl⟩ := List.cons.inj htail
      exact .inr ⟨y, rfl, rfl⟩
  · cases y with
    | nil =>
      obtain ⟨-, rfl⟩ := List.cons.inj htail
      exact .inl ⟨(List.append_nil x).symm, rfl⟩
    | cons c y =>
      obtain ⟨rfl, -⟩ := List.cons.inj htail
      simp at ha

def Param.opening (p : Param) : Text := if p.quoted then ['"'] else []

lemma Param.written_eq (p : Param) : p.written = p.opening ++ p.value ++ p.opening := by
  unfold written opening
  cases p.quoted <;> simp

/-- A `=` in a written value is one in the value. -/
lemma Param.eq_written {p : Param} {y w : Text} (h : p.written = y ++ '=' :: w) :
    ∃ c d, p.value = c ++ '=' :: d ∧ y = p.opening ++ c ∧ w = d ++ p.opening := by
  have hopen : '=' ∉ p.opening := by
    unfold opening
    cases p.quoted <;> decide
  rw [p.written_eq] at h
  obtain ⟨z, hz, htail⟩ | ⟨z, hz, htail⟩ := List.append_eq_append_iff.mp h
  · have hmem : '=' ∈ p.opening := htail ▸ List.mem_append_right z (List.mem_cons_self ..)
    exact absurd hmem hopen
  · cases z with
    | nil =>
      have hmem : '=' ∈ p.opening := by
        rw [List.nil_append] at htail
        exact htail ▸ List.mem_cons_self ..
      exact absurd hmem hopen
    | cons e z =>
      obtain ⟨rfl, rfl⟩ := List.cons.inj htail
      obtain ⟨c, hy, hvalue⟩ | ⟨c, hopening, hvalue⟩ := List.append_eq_append_iff.mp hz
      · exact ⟨c, z, hvalue, hy, rfl⟩
      · cases c with
        | nil =>
          rw [List.append_nil] at hopening
          exact ⟨[], z, hvalue.symm, by rw [hopening, List.append_nil], rfl⟩
        | cons e c =>
          obtain ⟨rfl, -⟩ := List.cons.inj hvalue
          have hmem : '=' ∈ p.opening := by simp [hopening]
          exact absurd hmem hopen

/-- Every `=` of the parameters is the one behind a name, or one within a value. -/
lemma paramsText_sign {ps : List Param} {x rest : Text} (h : paramsText ps = x ++ '=' :: rest) :
    ∃ before p after, ps = before ++ p :: after ∧
      ((x = paramsText before ++ ';' :: ' ' :: p.name ∧ rest = p.written ++ paramsText after) ∨
        ∃ c d, p.value = c ++ '=' :: d ∧
          x = paramsText before ++ ';' :: ' ' :: p.name ++ '=' :: (p.opening ++ c) ∧
          rest = d ++ p.opening ++ paramsText after) := by
  induction ps generalizing x with
  | nil => simp [paramsText] at h
  | cons p ps ih =>
    have hname : '=' ∉ ';' :: ' ' :: p.name := by simp [p.nameToken.2]
    have hcons : (';' :: ' ' :: p.name) ++ '=' :: (p.written ++ paramsText ps) =
        x ++ '=' :: rest := by
      rw [← h]
      simp [paramsText, Param.text]
    obtain ⟨rfl, rfl⟩ | ⟨y, rfl, hy⟩ := eq_split hname hcons
    · exact ⟨[], p, ps, rfl, .inl ⟨by simp [paramsText], rfl⟩⟩
    · obtain ⟨z, rfl, hz⟩ | ⟨z, hz, htail⟩ := List.append_eq_append_iff.mp hy
      · obtain ⟨before, q, after, rfl, hsign⟩ := ih hz
        have hfront (s : Text) : (';' :: ' ' :: p.name) ++ '=' :: (p.written ++ s) =
            paramsText [p] ++ s := by simp [paramsText, Param.text]
        have hbefore : paramsText (p :: before) = paramsText [p] ++ paramsText before := by
          simp [paramsText]
        refine ⟨p :: before, q, after, rfl, ?_⟩
        rw [hfront, hbefore]
        obtain ⟨rfl, hrest⟩ | ⟨c, d, hvalue, rfl, hrest⟩ := hsign
        · exact .inl ⟨by rw [List.append_assoc], hrest⟩
        · exact .inr ⟨c, d, hvalue, by simp only [List.append_assoc], hrest⟩
      · cases z with
        | nil =>
          have hnext : paramsText ps = [] ++ '=' :: rest := htail.symm
          cases ps with
          | nil | cons q ps => simp [paramsText] at hnext
        | cons e z =>
          obtain ⟨rfl, rfl⟩ := List.cons.inj htail
          obtain ⟨c, d, hvalue, rfl, rfl⟩ := p.eq_written hz
          exact ⟨[], p, ps, rfl, .inr ⟨c, d, hvalue, by simp [paramsText], rfl⟩⟩

/-- Every `=` of the text. -/
lemma text_sign {ct : ContentType} {x rest : Text} (h : ct.text = x ++ '=' :: rest) :
    ∃ before p after, ct.params = before ++ p :: after ∧
      ((x = ct.front before p ∧ rest = p.written ++ paramsText after) ∨
        ∃ c d, p.value = c ++ '=' :: d ∧ x = ct.front before p ++ '=' :: (p.opening ++ c) ∧
          rest = d ++ p.opening ++ paramsText after) := by
  obtain ⟨z, rfl, hz⟩ | ⟨z, hz, htail⟩ := List.append_eq_append_iff.mp h
  · obtain ⟨before, p, after, hps, hsign⟩ := paramsText_sign hz
    refine ⟨before, p, after, hps, ?_⟩
    obtain ⟨rfl, hrest⟩ | ⟨c, d, hvalue, rfl, hrest⟩ := hsign
    · exact .inl ⟨by simp [ContentType.front], hrest⟩
    · exact .inr ⟨c, d, hvalue, by simp [ContentType.front], hrest⟩
  · cases z with
    | nil =>
      obtain ⟨before, p, after, hps, hsign⟩ :=
        paramsText_sign (show paramsText ct.params = [] ++ '=' :: rest from htail.symm)
      obtain ⟨hx, -⟩ | ⟨c, d, -, hx, -⟩ := hsign
      · simp at hx
      · simp at hx
    | cons e z =>
      obtain ⟨rfl, -⟩ := List.cons.inj htail
      exact absurd (hz ▸ List.mem_append_right x (List.mem_cons_self ..)) ct.mediaToken.2

end Signs

section Values

variable {ct : ContentType} {key : Text}
variable {text : Text}

lemma Plain.quote (h : Plain text) : '"' ∉ text := by
  intro hmem
  exact absurd (h _ hmem).2.1 (by decide)

lemma Plain.semicolon (h : Plain text) : ';' ∉ text := fun hmem => (h _ hmem).1 rfl

lemma valueBehind_append (htext : ';' ∉ text) (after : List Param) :
    valueBehind ('=' :: (text ++ paramsText after)) = (unquote text).bind handleXop := by
  have htake : (text ++ paramsText after).takeWhile (· ≠ ';') = text := by
    refine takeWhile_upto (fun c hc => ?_) (fun c hc => ?_)
    · have hne : c ≠ ';' := fun h => htext (h ▸ hc)
      simpa using hne
    · cases after with
      | nil => simp [paramsText] at hc
      | cons p after =>
        have hsemi : ';' = c := by simpa [paramsText] using hc
        simp [← hsemi]
  unfold valueBehind
  rw [List.tail_cons, htake]

lemma handleXop_clean (h : '"' ∉ text) : handleXop text = some text := by
  unfold handleXop
  split
  · simp at h
  · rfl

lemma unquote_clean (h : '"' ∉ text) : unquote text = some text := by
  unfold unquote
  split
  · simp at h
  · rfl

/-- Behind a name the value is found. -/
lemma Param.unquote_written (p : Param) : (unquote p.written).bind handleXop = some p.value := by
  have hclean := p.valuePlain.quote
  unfold written
  cases p.quoted with
  | false => rw [if_neg (by simp), unquote_clean hclean, Option.bind_some, handleXop_clean hclean]
  | true =>
    have hunquote : unquote ('"' :: (p.value ++ ['"'])) = some p.value := by simp [unquote]
    rw [if_pos rfl, hunquote, Option.bind_some, handleXop_clean hclean]

/-- Within a quoted value, the last quote stays. -/
lemma inner_quoted {d text : Text} (hd : '"' ∉ d)
    (h : (unquote (d ++ ['"'])).bind handleXop = some text) : '"' ∈ text := by
  cases d with
  | nil => simp [unquote] at h
  | cons c d =>
    simp only [List.mem_cons, not_or] at hd
    have hunquote : unquote (c :: d ++ ['"']) = some (c :: d ++ ['"']) := by
      unfold unquote
      split
      · next heq => exact absurd (List.cons.inj heq).1.symm hd.1
      · rfl
    rw [hunquote, Option.bind_some] at h
    unfold handleXop at h
    split at h
    · next rest heq =>
        cases d with
        | nil =>
          obtain ⟨-, hrest⟩ := List.cons.inj heq
          have hnil : rest = [] := (List.cons.inj hrest).2.symm
          simp [hnil] at h
        | cons e d =>
          obtain ⟨-, hrest⟩ := List.cons.inj heq
          exact (hd.2 ((List.cons.inj hrest).1 ▸ List.mem_cons_self ..)).elim
    · obtain rfl := Option.some.inj h
      simp

lemma getValue_none (h : ¬ key <:+: ct.text) : getValueFromContentType ct.text key = .null := by
  unfold getValueFromContentType
  rw [search_eq_none_iff.mpr h]

/-- Where the key occurs, what is behind the `=` that it leads to is returned. -/
lemma getValue_infix (h : key <:+: ct.text) : getValueFromContentType ct.text key =
    ((((search key ct.text).bind (search ['='])).bind valueBehind).map Found.value).getD
      .undefined := by
  unfold getValueFromContentType
  cases hkey : search key ct.text with
  | none => exact absurd h (search_eq_none_iff.mp hkey)
  | some tmp => cases hsign : search ['='] tmp <;> simp [hsign]

lemma getValue_reaches {x rest : Text} (h : Reaches key ct.text x)
    (htext : ct.text = x ++ '=' :: rest) : getValueFromContentType ct.text key =
      ((valueBehind ('=' :: rest)).map Found.value).getD .undefined := by
  have hinfix : key <:+: ct.text := by
    obtain ⟨a, b, r, rfl, hsplit, hfirst, -⟩ := h
    rw [hsplit, List.append_assoc]
    exact hfirst.1.isInfix.trans (List.suffix_append a _).isInfix
  rw [ getValue_infix hinfix, search_eq_iff.mpr ⟨x, h, htext⟩, Option.bind_some]

lemma front_text {before after : List Param} {p : Param} (h : ct.params = before ++ p :: after) :
    ct.text = ct.front before p ++ '=' :: (p.written ++ paramsText after) := by
  simp [ContentType.text, ContentType.front, h, paramsText, Param.text]

lemma inner_text {before after : List Param} {p : Param} {c d : Text}
    (h : ct.params = before ++ p :: after) (hquoted : p.quoted = false)
    (hvalue : p.value = c ++ '=' :: d) :
    ct.text = ct.front before p ++ '=' :: c ++ '=' :: (d ++ paramsText after) := by
  rw [front_text h]
  simp [Param.written, hquoted, hvalue]

lemma plain_behind {text c d : Text} (h : Plain text) (htext : text = c ++ '=' :: d) : Plain d := by
  subst htext
  exact fun e he => h e (List.mem_append_right c (List.mem_cons_of_mem _ he))

lemma written_semicolon (p : Param) : ';' ∉ p.written := by
  have hvalue := p.valuePlain.semicolon
  unfold Param.written
  split <;> simp [hvalue]

/-- The name of a parameter occurs in the text. -/
lemma name_infix {q : Param} (hq : q ∈ ct.params) : q.name <:+: ct.text := by
  obtain ⟨before, after, hps⟩ := List.append_of_mem hq
  rw [front_text hps]
  exact ⟨ct.mediaType ++ paramsText before ++ [';', ' '], '=' :: (q.written ++ paramsText after),
    by simp [ContentType.front]⟩

/-- The value of the parameter is returned exactly when the key leads to it. -/
lemma names_iff (ct : ContentType) (key : Text) :
    Names ct.params key (getValueFromContentType ct.text key) ↔ Served ct key := by
  by_cases hkey : key <:+: ct.text
  · constructor
    · intro h
      obtain hnone | ⟨x, rest, hreach, htext, hsome⟩ := reaches_or_none key ct.text
      · rw [ getValue_infix hkey, hnone] at h
        exact h.elim
      · rw [getValue_reaches hreach htext] at h
        obtain ⟨before, p, after, hps, hsign⟩ := text_sign htext
        obtain ⟨rfl, rfl⟩ | ⟨c, d, hvalue, rfl, rfl⟩ := hsign
        · rw [valueBehind_append (written_semicolon p), p.unquote_written] at h
          obtain ⟨q, hq, hname, hqp⟩ := h
          exact .inr ⟨q, hq, hname, .inl ⟨p, hqp.symm, before, after, hps, hreach⟩⟩
        · have hd := plain_behind p.valuePlain hvalue
          cases hquoted : p.quoted with
          | false =>
            simp only [Param.opening, hquoted, Bool.false_eq_true, if_false, List.nil_append,
              List.append_nil] at h hreach
            rw [valueBehind_append hd.semicolon, unquote_clean hd.quote, Option.bind_some,
              handleXop_clean hd.quote] at h
            obtain ⟨q, hq, hname, hqd⟩ := h
            have hrest : p.value = c ++ '=' :: q.value := by rw [hvalue, hqd]
            exact .inr ⟨q, hq, hname, .inr ⟨before, p, after, c, hps, hquoted, hrest, hreach⟩⟩
          | true =>
            have hclose : p.opening = ['"'] := by simp [Param.opening, hquoted]
            have hsemi : ';' ∉ d ++ ['"'] := by simp [hd.semicolon]
            rw [hclose, valueBehind_append hsemi] at h
            cases hfound : (unquote (d ++ ['"'])).bind handleXop with
            | none =>
              rw [hfound] at h
              exact h.elim
            | some text =>
              rw [hfound] at h
              obtain ⟨q, -, -, hqtext⟩ := h
              have hmem := inner_quoted hd.quote hfound
              exact absurd (hqtext ▸ hmem) q.valuePlain.quote
    · rintro (hnot | ⟨q, hq, hname, ⟨p, hvalue, before, after, hps, hreach⟩ |
        ⟨before, p, after, c, hps, hquoted, hvalue, hreach⟩⟩)
      · exact absurd hkey hnot
      · rw [getValue_reaches hreach (front_text hps), valueBehind_append (written_semicolon p),
          p.unquote_written]
        exact ⟨q, hq, hname, hvalue.symm⟩
      · have hclean := q.valuePlain
        rw [getValue_reaches hreach (inner_text hps hquoted hvalue),
          valueBehind_append hclean.semicolon, unquote_clean hclean.quote, Option.bind_some,
          handleXop_clean hclean.quote]
        exact ⟨q, hq, hname, rfl⟩
  · rw [getValue_none hkey]
    exact ⟨fun _ => .inl hkey, fun _ p hp hname => hkey (hname ▸ name_infix hp)⟩

end Values

section Writes

variable {ct : ContentType} {key x rest : Text}

lemma text_clean (ct : ContentType) : escNull ∉ ct.text := by
  intro hmem
  obtain hmem | hmem := List.mem_append.mp hmem
  · exact (ct.mediaToken.1 _ hmem).2.2 rfl
  · obtain ⟨p, -, hp⟩ := List.mem_flatMap.mp hmem
    have hname : escNull ∉ p.name := fun h => (p.nameToken.1 _ h).2.2 rfl
    have hvalue : escNull ∉ p.value := fun h => (p.valuePlain _ h).2.2 rfl
    have hopen : escNull ∉ p.opening := by
      unfold Param.opening
      cases p.quoted <;> decide
    have hchars : escNull ≠ ';' ∧ escNull ≠ ' ' ∧ escNull ≠ '=' := by decide
    simp [Param.text, p.written_eq, hname, hvalue, hopen, hchars] at hp

/-- Only the terminator can be written again without a change. -/
lemma set_terminator {text : Text} {i : ℕ} (hclean : escNull ∉ text)
    (h : (text ++ [escNull]).set i escNull = text ++ [escNull]) (hi : i ≤ text.length) :
    i = text.length := by
  by_contra hne
  have hlt : i < text.length := by omega
  have hget : text[i]? = some escNull := by
    rw [← @List.getElem?_append_left _ text [escNull] i hlt, ← h, List.getElem?_set_self]
    rw [List.length_append]
    omega
  exact hclean (List.mem_of_getElem? hget)

lemma terminatorAt_le (text tmp : Text) : terminatorAt text tmp ≤ text.length := by
  dsimp only [terminatorAt]
  split <;> omega

lemma last_getD (x rest : Text) : (x ++ '=' :: rest).getD ((x ++ '=' :: rest).length - 1) escNull =
    (rest.getLast?).getD '=' := by
  have hlast : (x ++ '=' :: rest).getLast? = some ((rest.getLast?).getD '=') := by
    rw [List.getLast?_append, List.getLast?_cons, Option.some_or]
  rw [List.getD_eq_getElem?_getD, ← List.getLast?_eq_getElem?, hlast, Option.getD_some]

/-- The terminator is at the end when no `;` and no last quote is in front of it. -/
lemma terminatorAt_eq (x rest : Text) :
    terminatorAt (x ++ '=' :: rest) ('=' :: rest) = (x ++ '=' :: rest).length ↔
      ';' ∉ rest ∧ ∀ c ∈ rest.getLast?, isQuote c = false := by
  have hpos : 0 < (x ++ '=' :: rest).length := by simp
  by_cases hsemi : ';' ∈ rest
  · have hfound : ∃ t, search [';'] ('=' :: rest) = some (';' :: t) := by
      cases hs : search [';'] ('=' :: rest) with
      | none => exact absurd (List.mem_cons_of_mem _ hsemi) (search_singleton_eq_none_iff.mp hs)
      | some t =>
        obtain ⟨a, r, -, rfl, -⟩ := search_singleton_eq_some hs
        exact ⟨r, rfl⟩
    obtain ⟨t, ht⟩ := hfound
    have hlt : terminatorAt (x ++ '=' :: rest) ('=' :: rest) < (x ++ '=' :: rest).length := by
      dsimp only [terminatorAt]
      rw [ht, Option.getD_some, List.length_cons]
      split <;> omega
    exact ⟨fun h => absurd h hlt.ne, fun h => absurd hsemi h.1⟩
  · have hnone : search [';'] ('=' :: rest) = none :=
      search_singleton_none (by simp [hsemi])
    dsimp only [terminatorAt]
    rw [hnone, Option.getD_none, List.length_nil, Nat.sub_zero, last_getD]
    cases hlast : rest.getLast? with
    | none => simp [hsemi, isQuote]
    | some c =>
      rw [Option.getD_some]
      cases hquote : isQuote c with
      | false => simp [hsemi, hquote]
      | true =>
        rw [if_pos rfl]
        refine ⟨fun h => by omega, fun h => ?_⟩
        rw [h.2 c rfl] at hquote
        cases hquote

/-- Nothing is written when the rest of the text is free of quotes and of `;`. -/
lemma getCharsetEnc_whole (hreach : Reaches charSetEncoding ct.text x)
    (htext : ct.text = x ++ '=' :: rest) (hrest : Plain rest) :
    getCharsetEnc ct.text = (rest, ct.text ++ [escNull]) := by
  have hterm : terminatorAt ct.text ('=' :: rest) = ct.text.length := by
    rw [htext, terminatorAt_eq]
    exact ⟨hrest.semicolon, fun c hc => (hrest c (List.mem_of_getLast? hc)).2.1⟩
  have hmemory : (ct.text ++ [escNull]).set ct.text.length escNull = ct.text ++ [escNull] := by
    simp
  have heq : ct.text.length - ('=' :: rest).length = x.length := by
    rw [htext, List.length_append]
    omega
  have hdrop : (ct.text ++ [escNull]).drop (x.length + 1) = rest ++ [escNull] := by
    rw [htext, ← List.drop_drop]
    simp
  have hhead : isQuote ((ct.text ++ [escNull]).getD (x.length + 1) escNull) = false := by
    have hget : (ct.text ++ [escNull]).getD (x.length + 1) escNull =
        (rest ++ [escNull]).getD 0 escNull := by
      rw [← hdrop, List.getD_eq_getElem?_getD, List.getD_eq_getElem?_getD, List.getElem?_drop,
        Nat.add_zero]
    rw [hget]
    cases rest with
    | nil => decide
    | cons c rest => exact (hrest c (List.mem_cons_self ..)).2.1
  have hstring : stringAt (ct.text ++ [escNull]) (x.length + 1) = rest := by
    unfold stringAt
    rw [hdrop]
    refine takeWhile_upto (fun c hc => ?_) (by simp)
    simpa using (hrest c hc).2.2
  unfold getCharsetEnc
  rw [search_eq_iff.mpr ⟨x, hreach, htext⟩]
  simp only [hterm, hmemory, heq, hhead, hstring, Bool.false_eq_true, if_false]

/-- The text is changed when a `;` or a last quote is behind the sign. -/
lemma unchanged_rest (hreach : Reaches charSetEncoding ct.text x)
    (htext : ct.text = x ++ '=' :: rest)
    (h : (getCharsetEnc ct.text).2 = ct.text ++ [escNull]) :
    ';' ∉ rest ∧ ∀ c ∈ rest.getLast?, isQuote c = false := by
  unfold getCharsetEnc at h
  rw [search_eq_iff.mpr ⟨x, hreach, htext⟩] at h
  have hterm := set_terminator (text_clean ct) h (terminatorAt_le _ _)
  rwa [htext, terminatorAt_eq] at hterm

end Writes

section Charset

variable {ct : ContentType} {key x : Text}

/-- The first occurrence of a name is not behind its parameter. -/
lemma first_le_front {before after : List Param} {q : Param} {a t : Text}
    (hps : ct.params = before ++ q :: after) (hsplit : ct.text = a ++ t)
    (hfirst : FirstAt q.name a t) :
    ∃ f, ct.front before q = a ++ f ∧ t = f ++ '=' :: (q.written ++ paramsText after) := by
  have hocc : a ++ t = (ct.mediaType ++ paramsText before ++ [';', ' ']) ++
      (q.name ++ '=' :: (q.written ++ paramsText after)) := by
    rw [← hsplit, front_text hps]
    simp [ContentType.front]
  have hle := hfirst.2 _ _ hocc (List.prefix_append ..)
  have htext : a ++ t = ct.front before q ++ '=' :: (q.written ++ paramsText after) := by
    rw [← hsplit, front_text hps]
  obtain ⟨f, hf, ht⟩ | ⟨f, hf, ht⟩ := List.append_eq_append_iff.mp htext
  · exact ⟨f, hf, ht⟩
  · have hlen := congrArg List.length hf
    simp only [ContentType.front, List.length_append, List.length_cons, List.length_nil]
      at hlen hle
    have hnil : f = [] := List.length_eq_zero_iff.mp (by omega)
    subst hnil
    exact ⟨[], by rw [hf, List.append_nil, List.append_nil], by simpa using ht.symm⟩

lemma reaches_le {before after : List Param} {q : Param} (hps : ct.params = before ++ q :: after)
    (h : Reaches q.name ct.text x) : x.length ≤ (ct.front before q).length := by
  obtain ⟨a, b, rest, rfl, htext, hfirst, hb⟩ := h
  have hsplit : ct.text = a ++ (b ++ '=' :: rest) := by rw [htext, List.append_assoc]
  obtain ⟨f, hfront, hf⟩ := first_le_front hps hsplit hfirst
  rw [hfront]
  obtain ⟨rfl, -⟩ | ⟨y, rfl, -⟩ := eq_split hb hf
  · rfl
  · simp

/-- The name of a parameter leads to a `=`. -/
lemma reaches_of_mem {q : Param} (hq : q ∈ ct.params) : ∃ x, Reaches q.name ct.text x := by
  obtain hnone | ⟨x, -, hreach, -⟩ := reaches_or_none q.name ct.text
  · obtain ⟨before, after, hps⟩ := List.append_of_mem hq
    cases hkey : search q.name ct.text with
    | none => exact absurd ( name_infix hq) (search_eq_none_iff.mp hkey)
    | some t =>
      obtain ⟨a, hsplit, hfirst⟩ := search_eq_some hkey
      obtain ⟨f, -, rfl⟩ := first_le_front hps hsplit hfirst
      rw [hkey, Option.bind_some, search_singleton_eq_none_iff] at hnone
      exact (hnone (List.mem_append_right f (List.mem_cons_self ..))).elim
  · exact ⟨x, hreach⟩

/-- A parameter that is not the last has its `=` in front of the last one's. -/
lemma last_or_front_lt {before : List Param} {p q : Param} (hps : ct.params = before ++ [p])
    (hq : q ∈ ct.params) : q = p ∨
      ∃ before' after', ct.params = before' ++ q :: after' ∧
        (ct.front before' q).length < (ct.front before p).length := by
  rw [hps] at hq
  obtain hq | hq := List.mem_append.mp hq
  · obtain ⟨before', between, rfl⟩ := List.append_of_mem hq
    refine .inr ⟨before', between ++ [p], by simp [hps], ?_⟩
    simp only [ContentType.front, paramsText, Param.text, List.flatMap_append, List.flatMap_cons,
      List.length_append, List.length_cons]
    omega
  · exact .inl (List.mem_singleton.mp hq)

/-- A sign in the last parameter that the name of a parameter leads to is its own. -/
lemma own_sign {before : List Param} {p q : Param} (hps : ct.params = before ++ [p])
    (hq : q ∈ ct.params) (h : Reaches q.name ct.text x)
    (hx : (ct.front before p).length ≤ x.length) :
    q = p ∧ x.length = (ct.front before p).length := by
  obtain rfl | ⟨before', after', hps', hlt⟩ := last_or_front_lt hps hq
  · exact ⟨rfl, le_antisymm (reaches_le hps h) hx⟩
  · have hle := reaches_le hps' h
    omega

lemma paramsText_semicolon {ps : List Param} (h : ';' ∉ paramsText ps) : ps = [] := by
  cases ps with
  | nil => rfl
  | cons p ps => simp [paramsText] at h

/-- The encoding is that of the parameter and nothing is written, exactly when `charset` leads to
no `=` or to the right one. -/
lemma encodes_iff (ct : ContentType) :
    (Encodes ct.params (getCharsetEnc ct.text).1 ∧
      (getCharsetEnc ct.text).2 = ct.text ++ [escNull]) ↔ CharsetServed ct := by
  constructor
  · rintro ⟨hencodes, hunchanged⟩
    obtain hnone | ⟨x, rest, hreach, htext, -⟩ := reaches_or_none charSetEncoding ct.text
    · exact .inl (search_eq_none hnone)
    · obtain ⟨hsemi, hquote⟩ := unchanged_rest hreach htext hunchanged
      obtain ⟨before, p, after, hps, hsign⟩ := text_sign htext
      have hafter : after = [] := by
        refine paramsText_semicolon fun hmem => hsemi ?_
        obtain ⟨-, rfl⟩ | ⟨c, d, -, -, rfl⟩ := hsign
        · exact List.mem_append_right _ hmem
        · exact List.mem_append_right _ hmem
      subst hafter
      have hplain : p.quoted = false := by
        cases hquoted : p.quoted with
        | false => rfl
        | true =>
          refine absurd (hquote '"' ?_) (by decide)
          obtain ⟨-, rfl⟩ | ⟨c, d, -, -, rfl⟩ := hsign
          · simp [Param.written, hquoted, paramsText, List.getLast?_cons]
          · simp [Param.opening, hquoted, paramsText]
      refine .inr ⟨before, p, hps, hplain, ?_⟩
      obtain ⟨rfl, hrest⟩ | ⟨c, d, hvalue, rfl, hrest⟩ := hsign
      · have hp : rest = p.value := by simp [hrest, Param.written, hplain, paramsText]
        rw [getCharsetEnc_whole hreach htext (hp ▸ p.valuePlain), hp] at hencodes
        obtain ⟨q, hq, hname, -⟩ | ⟨hnames, hdefault⟩ := hencodes
        · obtain ⟨rfl, -⟩ := own_sign hps hq (hname ▸ hreach) le_rfl
          exact .inl ⟨hname, hreach⟩
        · exact .inr ⟨hnames, .inl ⟨hdefault, hreach⟩⟩
      · have hopen : p.opening = [] := by simp [Param.opening, hplain]
        have hd : rest = d := by simp [hrest, hopen, paramsText]
        rw [getCharsetEnc_whole hreach htext (hd ▸ plain_behind p.valuePlain hvalue), hd]
          at hencodes
        rw [hopen, List.nil_append] at hreach
        obtain ⟨q, hq, hname, -⟩ | ⟨hnames, rfl⟩ := hencodes
        · obtain ⟨-, hlen⟩ := own_sign hps hq (hname ▸ hreach) (by simp)
          simp at hlen
        · exact .inr ⟨hnames, .inr ⟨c, hvalue, hreach⟩⟩
  · rintro (hnone | ⟨before, p, hps, hplain, ⟨hname, hreach⟩ |
      ⟨hnames, ⟨hdefault, hreach⟩ | ⟨c, hvalue, hreach⟩⟩⟩)
    · have heq : getCharsetEnc ct.text = (defaultCharEncoding, ct.text ++ [escNull]) := by
        obtain hsearch | ⟨x, -, hreach, -⟩ := reaches_or_none charSetEncoding ct.text
        · unfold getCharsetEnc
          rw [hsearch]
        · exact absurd hreach (hnone x)
      rw [heq]
      refine ⟨.inr ⟨fun q hq hname => ?_, rfl⟩, rfl⟩
      obtain ⟨x, hreach⟩ := reaches_of_mem hq
      exact hnone x (hname ▸ hreach)
    · have hwritten : p.written ++ paramsText [] = p.value := by
        simp [Param.written, hplain, paramsText]
      rw [getCharsetEnc_whole hreach (hwritten ▸ front_text hps) p.valuePlain]
      exact ⟨.inl ⟨p, by simp [hps], hname, rfl⟩, rfl⟩
    · have hwritten : p.written ++ paramsText [] = p.value := by
        simp [Param.written, hplain, paramsText]
      rw [getCharsetEnc_whole hreach (hwritten ▸ front_text hps) p.valuePlain]
      exact ⟨.inr ⟨hnames, hdefault⟩, rfl⟩
    · have hrest : defaultCharEncoding ++ paramsText [] = defaultCharEncoding := by
        simp [paramsText]
      rw [getCharsetEnc_whole hreach (hrest ▸ inner_text hps hplain hvalue)
        (plain_behind p.valuePlain hvalue)]
      exact ⟨.inr ⟨hnames, rfl⟩, rfl⟩

end Charset

section Later

/-- What is free of the separator is found on one side of it. -/
lemma infix_separated {needle x y : Text} (h : ';' ∉ needle) :
    needle <:+: x ++ ';' :: y ↔ needle <:+: x ∨ needle <:+: y := by
  constructor
  · intro hinfix
    obtain hx | hy | ⟨l, r, -, hne, rfl, -, hr⟩ := List.infix_append_iff_ne_nil.mp hinfix
    · exact .inl hx
    · obtain hpre | hy := List.infix_cons_iff.mp hy
      · cases needle with
        | nil => exact .inl (List.nil_infix)
        | cons c needle =>
          obtain ⟨rfl, -⟩ := List.cons_prefix_cons.mp hpre
          simp at h
      · exact .inr hy
    · cases r with
      | nil => exact (hne rfl).elim
      | cons c r =>
        obtain ⟨rfl, -⟩ := List.cons_prefix_cons.mp hr
        simp at h
  · rintro (hx | hy)
    · exact hx.trans (List.prefix_append x _).isInfix
    · exact hy.trans ((List.suffix_cons ';' y).trans (List.suffix_append x _)).isInfix

lemma infix_text {needle : Text} (h : ';' ∉ needle) (mediaType : Text) (ps : List Param) :
    needle <:+: mediaType ++ paramsText ps ↔
      needle <:+: mediaType ∨ ∃ p ∈ ps, needle <:+: p.text := by
  induction ps generalizing mediaType with
  | nil => simp [paramsText]
  | cons p ps ih =>
    have hcons : mediaType ++ paramsText (p :: ps) =
        mediaType ++ ';' :: (p.text ++ paramsText ps) := by simp [paramsText]
    rw [hcons, infix_separated h, ih]
    simp

/-- What is found in the text does not depend on the order of the parameters. -/
lemma infix_perm {ct ct' : ContentType} (hmedia : ct'.mediaType = ct.mediaType)
    (hperm : ct'.params.Perm ct.params) {needle : Text} (h : ';' ∉ needle) :
    needle <:+: ct.text ↔ needle <:+: ct'.text := by
  unfold ContentType.text
  rw [infix_text h, infix_text h, hmedia]
  exact or_congr_right ⟨fun ⟨p, hp, hfound⟩ => ⟨p, hperm.mem_iff.mpr hp, hfound⟩,
    fun ⟨p, hp, hfound⟩ => ⟨p, hperm.mem_iff.mp hp, hfound⟩⟩

lemma stringAt_text (ct : ContentType) : stringAt (ct.text ++ [escNull]) 0 = ct.text := by
  refine takeWhile_upto (fun c hc => ?_) (by simp)
  have hne : c ≠ escNull := fun h => text_clean ct (h ▸ hc)
  simpa using hne

/-- Both functions return the values of the parameters and leave the text alone, exactly when the
key and `charset` lead to the right `=`. -/
theorem right_iff (ct : ContentType) (key : Text) :
    Right ct key ↔ Served ct key ∧ CharsetServed ct := by
  rw [← names_iff, ← encodes_iff]
  constructor
  · intro h
    exact ⟨h.value, h.encoding, h.unchanged⟩
  · rintro ⟨hvalue, hencoding, hunchanged⟩
    refine ⟨hvalue, hencoding, hunchanged, fun ct' hmedia hperm needle hneedle => ?_⟩
    rw [hunchanged, stringAt_text]
    exact infix_perm hmedia hperm hneedle

/-- `multipart/related; charset=utf-8; boundary="b"`. -/
def charsetFirst : ContentType where
  mediaType := "multipart/related".toList
  params := [⟨"charset".toList, "utf-8".toList, false, by decide, by decide⟩,
    ⟨"boundary".toList, "b".toList, true, by decide, by decide⟩]
  mediaToken := by decide

theorem charsetFirst_not_right : ¬ Right charsetFirst "boundary".toList := by
  intro h
  exact absurd h.unchanged (by decide)

end Later

end Axis2C.HttpContentType
