import Axis2C.RestTemplateMatch

/-!
# The loops of REST template matching

`axutil_parse_rest_url_for_params` with its `while` loops as the source runs
them: every loop takes the fuel it is given, and a call terminates when some
fuel is enough. The validation admits braces that are doubled. The loop that
reads a key moves over them, the two loops that look for the constant behind a
parameter do not.
-/
namespace Axis2C.RestTemplate
open FirstOccurrence

section Loops

/-- The loop behind an opening brace: the text behind the closing brace, NULL
when there is none. The pointer does not move. -/
def closeLoop : ℕ → Text → Option (Option Text)
  | 0, _ => none
  | fuel + 1, tmp8 =>
    match strchr tmp8 rbrace with
    | none => some none
    | some tmp6 =>
      if tmp6.tail.head? ≠ some rbrace then some (some tmp6.tail) else closeLoop fuel tmp8

/-- The loop that looks for the next opening brace. The pointer does not move. -/
def openLoop : ℕ → Text → Option (Option Text)
  | 0, _ => none
  | fuel + 1, tmp8 =>
    match strchr tmp8 lbrace with
    | none => some none
    | some tmp6 =>
      if tmp6.tail = [] then some none
      else if tmp6.tail.head? ≠ some lbrace then some (some tmp6)
      else openLoop fuel tmp8

/-- The constant behind the parameter that opens at `tmp4`, NULL when one of the
loops finds no brace. -/
def constantWithin (fuel : ℕ) (tmp4 : Text) : Option (Option Text) :=
  match closeLoop fuel tmp4 with
  | none => none
  | some none => some none
  | some (some tmp8) =>
    if strchr tmp8 lbrace = none then some (some tmp8)
    else
      match openLoop fuel tmp8 with
      | none => none
      | some none => some none
      | some (some tmp7) => some (some (upTo tmp8 tmp7))

/-- The value of the parameter at `tmp4` behind `constant`. -/
def valueWithin (fuel : ℕ) (constant tmp4 url : Text) : Option (Option Text × Option Text) :=
  match strstr url constant with
  | none => some (none, some url)
  | some found =>
    match constantWithin fuel tmp4 with
    | none => none
    | some tmp9 =>
      let (value, urlTmp) := takeValue (found.drop constant.length) tmp9
      some (some value, urlTmp)

/-- The loop that reads the key at `tmp1`, NULL when it is not closed. -/
def keyLoop : ℕ → Text → Option (Option (Text × Text))
  | 0, _ => none
  | fuel + 1, tmp1 =>
    match strchr tmp1 rbrace with
    | none => some none
    | some tmp4 =>
      if tmp4.tail.head? ≠ some rbrace then some (some (upTo tmp1 tmp4, tmp4))
      else keyLoop fuel (tmp4.drop 2)

def loopWithin : ℕ → Text → Option Text → List (Text × Option Text) →
    Option (Bool × List (Text × Option Text))
  | 0, _, _, _ => none
  | fuel + 1, tmp1, urlTmp, ret =>
    match strchr tmp1 lbrace with
    | none => some (true, ret)
    | some tmp4 =>
      if tmp4.tail = [] then some (true, ret)
      else if tmp4.tail.head? = some lbrace then loopWithin fuel (tmp4.drop 2) urlTmp ret
      else
        match urlTmp with
        | none | some [] => some (false, ret)
        | some (u :: url) =>
          match valueWithin fuel (upTo tmp1 tmp4) tmp4 (u :: url) with
          | none => none
          | some (value, urlTmp) =>
            match keyLoop fuel tmp4.tail with
            | none => none
            | some none => some (true, ret)
            | some (some (key, tmp4)) =>
              loopWithin fuel tmp4.tail urlTmp (ret ++ [(key, value)])

/-- `none` when the fuel is used up. -/
def parseWithin (fuel : ℕ) (tmpl url : Text) : Option Outcome :=
  let resource := resourcePart tmpl
  let urlResource := resourcePart url
  if validate false false resource = false then some .rejected
  else if strchr resource lbrace = none then some (.done (resource = urlResource) [])
  else (loopWithin fuel resource (some urlResource) []).map fun p => .done p.1 p.2

/-- Some number of rounds of every loop is enough for the call to return. -/
def Terminates (tmpl url : Text) : Prop := ∃ fuel r, parseWithin fuel tmpl url = some r

end Loops

section Bridge

variable {fuel : ℕ}

/-- A round of the first loop ends it, or none does. -/
lemma closeLoop_eq (fuel : ℕ) (tmp8 : Text) :
    closeLoop (fuel + 1) tmp8 =
      match strchr tmp8 rbrace with
      | none => some none
      | some tmp6 => if tmp6.tail.head? = some rbrace then none else some (some tmp6.tail) := by
  induction fuel with
  | zero =>
    unfold closeLoop
    cases strchr tmp8 rbrace with
    | none => rfl
    | some tmp6 => simp [closeLoop]
  | succ fuel ih =>
    rw [closeLoop]
    cases hs : strchr tmp8 rbrace with
    | none => rfl
    | some tmp6 =>
      rw [hs] at ih
      simp only [ne_eq, ite_not, ih]
      split
      · rfl
      · rfl

lemma openLoop_eq (fuel : ℕ) (tmp8 : Text) :
    openLoop (fuel + 1) tmp8 =
      match strchr tmp8 lbrace with
      | none => some none
      | some tmp6 =>
        if tmp6.tail = [] then some none
        else if tmp6.tail.head? = some lbrace then none else some (some tmp6) := by
  induction fuel with
  | zero =>
    unfold openLoop
    cases strchr tmp8 lbrace with
    | none => rfl
    | some tmp6 => simp [openLoop]
  | succ fuel ih =>
    rw [openLoop]
    cases hs : strchr tmp8 lbrace with
    | none => rfl
    | some tmp6 =>
      rw [hs] at ih
      simp only [ne_eq, ite_not, ih]
      split
      · rfl
      · split
        · rfl
        · rfl

/-- More than one round changes nothing for the constant behind a parameter. -/
lemma constantWithin_succ (fuel : ℕ) (tmp4 : Text) :
    constantWithin (fuel + 1) tmp4 = nextConstant tmp4 := by
  simp only [constantWithin, nextConstant, closeLoop_eq, openLoop_eq]
  cases strchr tmp4 rbrace with
  | none => rfl
  | some tmp6 =>
    by_cases hclose : tmp6.tail.head? = some rbrace
    · simp only [if_pos hclose]
    · simp only [if_neg hclose]
      cases strchr tmp6.tail lbrace with
      | none => rfl
      | some tmp7 =>
        by_cases hend : tmp7.tail = []
        · simp [hend]
        · by_cases hopen : tmp7.tail.head? = some lbrace
          · simp only [reduceCtorEq, if_neg hend, if_pos hopen, if_false]
          · simp only [reduceCtorEq, if_neg hend, if_neg hopen, if_false]

lemma valueWithin_succ (fuel : ℕ) (constant tmp4 url : Text) :
    valueWithin (fuel + 1) constant tmp4 url = matchValue constant tmp4 url := by
  unfold valueWithin matchValue
  cases strstr url constant with
  | none => rfl
  | some found =>
    cases hconstant : nextConstant tmp4 with
    | none | some tmp9 => simp only [constantWithin_succ, hconstant]

lemma strchr_length {s t : Text} {c : Char} (h : strchr s c = some t) :
    0 < t.length ∧ t.length ≤ s.length := by
  obtain ⟨a, rfl, hfirst⟩ := search_eq_some h
  obtain ⟨t', rfl⟩ := hfirst.1
  simp

/-- Every round of the key loop moves over a brace, so the length is enough fuel. -/
lemma keyLoop_eq (fuel : ℕ) (tmp1 : Text) (h : tmp1.length < fuel) :
    keyLoop fuel tmp1 = some (readKey fuel tmp1) := by
  induction fuel generalizing tmp1 with
  | zero => omega
  | succ fuel ih =>
    rw [keyLoop, readKey]
    cases hs : strchr tmp1 rbrace with
    | none => rfl
    | some tmp4 =>
      have hlen := strchr_length hs
      by_cases hclose : tmp4.tail.head? = some rbrace
      · simp only [hclose, ne_eq, not_true, if_false, if_true]
        exact ih _ (by rw [List.length_drop]; omega)
      · simp only [hclose, ne_eq, not_false_eq_true, if_true, if_false]

lemma readKey_length {tmp1 tmp4 key : Text} (h : readKey fuel tmp1 = some (key, tmp4)) :
    0 < tmp4.length ∧ tmp4.length ≤ tmp1.length := by
  induction fuel generalizing tmp1 with
  | zero => simp [readKey] at h
  | succ fuel ih =>
    rw [readKey] at h
    cases hs : strchr tmp1 rbrace with
    | none => simp [hs] at h
    | some t =>
      have hlen := strchr_length hs
      simp only [hs] at h
      split at h
      · have hrec := ih h
        rw [List.length_drop] at hrec
        omega
      · simp only [Option.some.injEq, Prod.mk.injEq] at h
        obtain ⟨-, rfl⟩ := h
        exact hlen

lemma readKey_enough (fuel fuel' : ℕ) (tmp1 : Text) (h : tmp1.length < fuel)
    (h' : tmp1.length < fuel') : readKey fuel tmp1 = readKey fuel' tmp1 := by
  induction fuel generalizing tmp1 fuel' with
  | zero => omega
  | succ fuel ih =>
    obtain ⟨fuel', rfl⟩ : ∃ f, fuel' = f + 1 := ⟨fuel' - 1, by omega⟩
    rw [readKey, readKey]
    cases hs : strchr tmp1 rbrace with
    | none => rfl
    | some tmp4 =>
      have hlen := strchr_length hs
      have hrec := ih fuel' (tmp4.drop 2) (by rw [List.length_drop]; omega)
        (by rw [List.length_drop]; omega)
      simp only [hrec]

/-- The rounds of the outer loop move over a brace as well. -/
lemma matchLoop_enough (fuel fuel' : ℕ) (tmp1 : Text) (urlTmp : Option Text)
    (ret : List (Text × Option Text)) (h : tmp1.length < fuel) (h' : tmp1.length < fuel') :
    matchLoop fuel tmp1 urlTmp ret = matchLoop fuel' tmp1 urlTmp ret := by
  induction fuel generalizing fuel' tmp1 urlTmp ret with
  | zero => omega
  | succ fuel ih =>
    obtain ⟨fuel', rfl⟩ : ∃ f, fuel' = f + 1 := ⟨fuel' - 1, by omega⟩
    rw [matchLoop, matchLoop]
    cases hs : strchr tmp1 lbrace with
    | none => rfl
    | some tmp4 =>
      have hlen := strchr_length hs
      have hskip : ∀ urlTmp ret, matchLoop fuel (tmp4.drop 2) urlTmp ret =
          matchLoop fuel' (tmp4.drop 2) urlTmp ret := fun urlTmp ret =>
        ih fuel' _ urlTmp ret (by rw [List.length_drop]; omega)
          (by rw [List.length_drop]; omega)
      have hnext : ∀ key t urlTmp ret, readKey tmp4.length tmp4.tail = some (key, t) →
          matchLoop fuel t.tail urlTmp ret = matchLoop fuel' t.tail urlTmp ret := by
        intro key t urlTmp ret hkey
        have hkeylen := readKey_length hkey
        rw [List.length_tail] at hkeylen
        exact ih fuel' _ urlTmp ret (by rw [List.length_tail]; omega)
          (by rw [List.length_tail]; omega)
      simp only [hskip]
      split
      · rfl
      · split
        · rfl
        · split
          · rfl
          · rfl
          · cases matchValue (upTo tmp1 tmp4) tmp4 _ with
            | none => rfl
            | some p =>
              cases hkey : readKey tmp4.length tmp4.tail with
              | none => rfl
              | some k => exact hnext k.1 k.2 _ _ hkey

/-- With fuel for the whole text the loops compute what the model of the
matching says. -/
lemma loopWithin_eq (fuel : ℕ) (tmp1 : Text) (urlTmp : Option Text)
    (ret : List (Text × Option Text)) (h : tmp1.length < fuel) :
    loopWithin fuel tmp1 urlTmp ret = matchLoop fuel tmp1 urlTmp ret := by
  induction fuel generalizing tmp1 urlTmp ret with
  | zero => omega
  | succ fuel ih =>
    rw [loopWithin, matchLoop]
    cases hs : strchr tmp1 lbrace with
    | none => rfl
    | some tmp4 =>
      have hlen := strchr_length hs
      obtain ⟨rounds, rfl⟩ : ∃ f, fuel = f + 1 := ⟨fuel - 1, by omega⟩
      have hskip := ih (tmp4.drop 2) urlTmp ret (by rw [List.length_drop]; omega)
      have hkeyLoop :
          keyLoop (rounds + 1) tmp4.tail = some (readKey tmp4.length tmp4.tail) := by
        rw [keyLoop_eq _ _ (by rw [List.length_tail]; omega)]
        rw [readKey_enough _ tmp4.length _ (by rw [List.length_tail]; omega)
          (by rw [List.length_tail]; omega)]
      simp only [hskip]
      split
      · rfl
      · split
        · rfl
        · match urlTmp with
          | none | some [] => rfl
          | some (u :: url) =>
            simp only [valueWithin_succ, hkeyLoop]
            cases matchValue (upTo tmp1 tmp4) tmp4 (u :: url) with
            | none => rfl
            | some p =>
              cases hkey : readKey tmp4.length tmp4.tail with
              | none => rfl
              | some k =>
                have hkeylen := readKey_length hkey
                rw [List.length_tail] at hkeylen
                exact ih k.2.tail _ _ (by rw [List.length_tail]; omega)

lemma keyLoop_mono {tmp1 : Text} {r : Option (Text × Text)} (h : keyLoop fuel tmp1 = some r) :
    keyLoop (fuel + 1) tmp1 = some r := by
  induction fuel generalizing tmp1 with
  | zero => simp [keyLoop] at h
  | succ fuel ih =>
    rw [keyLoop] at h ⊢
    cases hs : strchr tmp1 rbrace with
    | none => simpa [hs] using h
    | some tmp4 =>
      simp only [hs] at h ⊢
      split
      · next hclose => rwa [if_pos hclose] at h
      · next hclose =>
          rw [if_neg hclose] at h
          exact ih h

lemma constantWithin_zero (tmp4 : Text) : constantWithin 0 tmp4 = none := rfl

lemma valueWithin_mono {constant tmp4 url : Text} {r : Option Text × Option Text}
    (h : valueWithin fuel constant tmp4 url = some r) :
    valueWithin (fuel + 1) constant tmp4 url = some r := by
  cases fuel with
  | zero =>
    unfold valueWithin at h ⊢
    cases hs : strstr url constant with
    | none => simpa [hs] using h
    | some found => simp [hs, constantWithin_zero] at h
  | succ fuel => rwa [valueWithin_succ] at h ⊢

lemma loopWithin_mono {tmp1 : Text} {urlTmp : Option Text} {ret : List (Text × Option Text)}
    {r : Bool × List (Text × Option Text)} (h : loopWithin fuel tmp1 urlTmp ret = some r) :
    loopWithin (fuel + 1) tmp1 urlTmp ret = some r := by
  induction fuel generalizing tmp1 urlTmp ret with
  | zero => simp [loopWithin] at h
  | succ fuel ih =>
    rw [loopWithin] at h ⊢
    cases hs : strchr tmp1 lbrace with
    | none => simpa [hs] using h
    | some tmp4 =>
      simp only [hs] at h ⊢
      by_cases hend : tmp4.tail = []
      · rwa [if_pos hend] at h ⊢
      rw [if_neg hend] at h ⊢
      by_cases hopen : tmp4.tail.head? = some lbrace
      · rw [if_pos hopen] at h ⊢
        exact ih h
      rw [if_neg hopen] at h ⊢
      match urlTmp with
      | none | some [] => exact h
      | some (u :: url) =>
        dsimp only at h ⊢
        cases hvalue : valueWithin fuel (upTo tmp1 tmp4) tmp4 (u :: url) with
        | none => simp [hvalue] at h
        | some p =>
          simp only [hvalue, valueWithin_mono hvalue] at h ⊢
          cases hkey : keyLoop fuel tmp4.tail with
          | none => simp [hkey] at h
          | some k =>
            simp only [hkey, keyLoop_mono hkey] at h ⊢
            cases k with
            | none => exact h
            | some k => exact ih h

lemma parseWithin_mono {fuel fuel' : ℕ} (hle : fuel ≤ fuel') {tmpl url : Text} {r : Outcome}
    (h : parseWithin fuel tmpl url = some r) : parseWithin fuel' tmpl url = some r := by
  induction hle with
  | refl => exact h
  | step hle ih =>
    unfold parseWithin at ih ⊢
    dsimp only at ih ⊢
    split at ih
    · next hbad => rwa [if_pos hbad]
    · next hgood =>
        rw [if_neg hgood]
        split at ih
        · next hno => rwa [if_pos hno]
        · next hsome =>
            rw [if_neg hsome]
            obtain ⟨p, hp, rfl⟩ := Option.map_eq_some_iff.mp ih
            rw [loopWithin_mono hp]
            rfl

/-- With fuel for the template the run is what the model of the matching says. -/
theorem parseWithin_eq (fuel : ℕ) (tmpl url : Text) (h : (resourcePart tmpl).length < fuel) :
    parseWithin fuel tmpl url = parseRestUrlForParams tmpl url := by
  simp only [parseWithin, parseRestUrlForParams]
  rw [loopWithin_eq _ _ _ _ h, matchLoop_enough fuel ((resourcePart tmpl).length + 1) _ _ _ h
    (Nat.lt_succ_self _)]

/-- The model of the matching has a result exactly on the calls that return. -/
theorem terminates_iff_parse (tmpl url : Text) :
    Terminates tmpl url ↔ ∃ r, parseRestUrlForParams tmpl url = some r := by
  constructor
  · rintro ⟨fuel, r, hrun⟩
    refine ⟨r, ?_⟩
    rw [← parseWithin_eq (max fuel ((resourcePart tmpl).length + 1)) tmpl url (by omega)]
    exact parseWithin_mono (le_max_left _ _) hrun
  · rintro ⟨r, hr⟩
    exact ⟨(resourcePart tmpl).length + 1, r, by rw [parseWithin_eq _ _ _ (Nat.lt_succ_self _), hr]⟩

end Bridge

section Escapes

/-- Plain texts, two braces of one kind between each and the next. -/
structure Pieces where
  first : Text
  more : List Text
  first_plain : Plain first
  more_plain : ∀ m ∈ more, Plain m

def joinMore (brace : Char) (more : List Text) : Text := more.flatMap fun m => brace :: brace :: m

def Pieces.render (brace : Char) (p : Pieces) : Text := p.first ++ joinMore brace p.more

def Pieces.last (p : Pieces) : Text := p.more.getLastD p.first

/-- A name and the literal behind it, with doubled braces. -/
structure Param where
  key : Pieces
  literal : Pieces
  named : key.first ≠ []

def renderEscaped : List Param → Text
  | [] => []
  | p :: params =>
    lbrace :: (p.key.render rbrace ++ rbrace :: (p.literal.render lbrace ++ renderEscaped params))

/-- A template as the validation admits it: opening braces may be doubled in the
literals and closing braces in the names. -/
structure Escaped where
  lead : Pieces
  params : List Param

def Escaped.render (t : Escaped) : Text := t.lead.render lbrace ++ renderEscaped t.params

/-- Neither the name nor the literal behind it has a doubled brace. -/
def Param.Single (p : Param) : Prop := p.key.more = [] ∧ p.literal.more = []

/-- Read from the left, the URL has the constant in front of a parameter with a
doubled brace in its name or in the literal behind it. A constant that is not in
the URL is passed over; a value ends at the first delimiter. -/
inductive Stuck : Text → List Param → Text → Prop
  | doubled {c u : Text} {p : Param} (params : List Param) (hne : u ≠ []) (hfound : c <:+: u)
      (hdoubled : ¬ p.Single) : Stuck c (p :: params) u
  | missing {c u : Text} {p : Param} {params : List Param} (hne : u ≠ []) (hmissing : ¬ c <:+: u)
      (h : Stuck p.literal.last params u) : Stuck c (p :: params) u
  | next {c a v w : Text} {p : Param} {params : List Param} (hsingle : p.Single)
      (hc : FirstAt c a (c ++ (v ++ w))) (hv : v ≠ [])
      (hd : FirstAt (delimiter p.literal.last) v w) (h : Stuck p.literal.last params w) :
      Stuck c (p :: params) (a ++ (c ++ (v ++ w)))

lemma Pieces.last_plain (p : Pieces) : Plain p.last := by
  unfold Pieces.last
  cases hmore : p.more using List.reverseRecOn with
  | nil => exact p.first_plain
  | append_singleton more m =>
    rw [List.getLastD_concat]
    exact p.more_plain m (by simp [hmore])

lemma Pieces.render_single {p : Pieces} (brace : Char) (h : p.more = []) :
    p.render brace = p.last := by
  simp [Pieces.render, Pieces.last, joinMore, h]

/-- Where the pieces end the rendering starts, or two braces come first. -/
lemma Pieces.render_doubled {p : Pieces} (brace : Char) (h : p.more ≠ []) :
    ∃ rest, p.render brace = p.first ++ brace :: brace :: rest := by
  obtain ⟨m, more, hmore⟩ := List.exists_cons_of_ne_nil h
  exact ⟨m ++ joinMore brace more, by simp [Pieces.render, joinMore, hmore]⟩

section Cons

variable {first m : Text} {more : List Text} (hfirst : Plain first)
  (hmore : ∀ x ∈ m :: more, Plain x) (hm : Plain m) (hrest : ∀ x ∈ more, Plain x)

lemma Pieces.render_cons (brace : Char) :
    Pieces.render brace ⟨first, m :: more, hfirst, hmore⟩ =
      first ++ brace :: brace :: Pieces.render brace ⟨m, more, hm, hrest⟩ := by
  simp [Pieces.render, joinMore]

lemma Pieces.last_cons :
    Pieces.last ⟨first, m :: more, hfirst, hmore⟩ = Pieces.last ⟨m, more, hm, hrest⟩ := by
  cases more with
  | nil => simp [Pieces.last]
  | cons x more => rw [Pieces.last, Pieces.last, List.getLastD_cons, List.getLastD_cons]

end Cons

/-- The text behind the closing brace of a parameter does not start with another. -/
lemma head_behind_literal (p : Pieces) (params : List Param) :
    (p.render lbrace ++ renderEscaped params).head? ≠ some rbrace := by
  obtain ⟨first, more, hfirst, hmore⟩ := p
  cases first with
  | cons x first =>
    have hx : x ≠ rbrace := by
      rintro rfl
      exact hfirst.2 (by simp)
    simpa [Pieces.render] using hx
  | nil =>
    cases more with
    | cons m more => simpa [Pieces.render, joinMore] using lbrace_ne_rbrace
    | nil =>
      cases params with
      | nil => simp [Pieces.render, joinMore, renderEscaped]
      | cons p params =>
        simpa [Pieces.render, joinMore, renderEscaped] using lbrace_ne_rbrace

/-- The key loop moves over the doubled braces of a name. -/
lemma readKey_render (p : Pieces) {t : Text} (ht : t.head? ≠ some rbrace) (fuel : ℕ)
    (hfuel : (p.render rbrace ++ rbrace :: t).length < fuel) :
    readKey fuel (p.render rbrace ++ rbrace :: t) = some (p.last, rbrace :: t) := by
  obtain ⟨first, more, hfirst, hmore⟩ := p
  induction more generalizing first fuel with
  | nil =>
    obtain ⟨fuel, rfl⟩ : ∃ f, fuel = f + 1 := ⟨fuel - 1, by omega⟩
    simp [Pieces.render, joinMore, Pieces.last, List.getLastD_nil, readKey,
      strchr_append t hfirst.2, if_neg ht, upTo_append]
  | cons m more ih =>
    obtain ⟨fuel, rfl⟩ : ∃ f, fuel = f + 1 := ⟨fuel - 1, by omega⟩
    have hm : Plain m := hmore m (by simp)
    have hrest : ∀ x ∈ more, Plain x := fun x hx => hmore x (by simp [hx])
    rw [Pieces.render_cons hfirst hmore hm hrest] at hfuel ⊢
    rw [Pieces.last_cons hfirst hmore hm hrest]
    simp only [List.append_assoc, List.cons_append, List.length_append, List.length_cons] at hfuel
    have hrec := ih fuel m hm hrest
      (by simp only [List.length_append, List.length_cons]; omega)
    simp only [List.append_assoc, List.cons_append, readKey, strchr_append _ hfirst.2,
      List.tail_cons, List.head?_cons, if_true, List.drop_succ_cons, List.drop_zero]
    exact hrec

/-- The outer loop moves over the doubled braces of a literal. -/
lemma matchLoop_literal (p : Pieces) (t : Text) (urlTmp : Option Text)
    (ret : List (Text × Option Text)) (fuel : ℕ)
    (hfuel : (p.render lbrace ++ t).length < fuel) :
    ∃ rounds, (p.last ++ t).length < rounds ∧
      matchLoop fuel (p.render lbrace ++ t) urlTmp ret =
        matchLoop rounds (p.last ++ t) urlTmp ret := by
  obtain ⟨first, more, hfirst, hmore⟩ := p
  induction more generalizing first fuel with
  | nil =>
    refine ⟨fuel, ?_, ?_⟩
    · simpa [Pieces.render, joinMore, Pieces.last] using hfuel
    · simp [Pieces.render, joinMore, Pieces.last]
  | cons m more ih =>
    obtain ⟨fuel, rfl⟩ : ∃ f, fuel = f + 1 := ⟨fuel - 1, by omega⟩
    have hm : Plain m := hmore m (by simp)
    have hrest : ∀ x ∈ more, Plain x := fun x hx => hmore x (by simp [hx])
    rw [Pieces.render_cons hfirst hmore hm hrest] at hfuel ⊢
    rw [Pieces.last_cons hfirst hmore hm hrest]
    simp only [List.append_assoc, List.cons_append, List.length_append, List.length_cons] at hfuel
    obtain ⟨rounds, hrounds, hrec⟩ := ih fuel m hm hrest
      (by simp only [List.length_append]; omega)
    refine ⟨rounds, hrounds, ?_⟩
    rw [← hrec]
    simp [matchLoop, strchr_append _ hfirst.1, List.head?_cons, reduceCtorEq]

lemma Param.opens (p : Param) (t : Text) :
    p.key.render rbrace ++ t ≠ [] ∧ (p.key.render rbrace ++ t).head? ≠ some lbrace := by
  obtain ⟨x, xs, hx⟩ := List.exists_cons_of_ne_nil p.named
  have hne : x ≠ lbrace := by
    rintro rfl
    exact p.key.first_plain.1 (by simp [hx])
  simp [Pieces.render, hx, hne]

/-- The constant behind a parameter is found, or one of the loops never ends. -/
lemma nextConstant_escaped (p : Param) (params : List Param) :
    nextConstant (renderEscaped (p :: params)) =
      if p.key.more = [] ∧ p.literal.more = [] then some (some p.literal.last) else none := by
  have hopen : rbrace ∉ lbrace :: p.key.first := by
    simp [p.key.first_plain.2, Ne.symm lbrace_ne_rbrace]
  by_cases hkey : p.key.more = []
  · -- the name ends at the first closing brace
    have hlast : p.key.first = p.key.last := by simp [Pieces.last, hkey]
    have hclose := strchr_append (p.literal.render lbrace ++ renderEscaped params) hopen
    rw [hlast, ← Pieces.render_single rbrace hkey, List.cons_append] at hclose
    have hhead : ¬ (rbrace :: (p.literal.render lbrace ++ renderEscaped params)).tail.head? =
        some rbrace := head_behind_literal p.literal params
    simp only [renderEscaped, nextConstant, hclose, if_neg hhead]
    rw [List.tail_cons]
    by_cases hliteral : p.literal.more = []
    · rw [if_pos ⟨hkey, hliteral⟩, Pieces.render_single lbrace hliteral]
      cases params with
      | nil => simp [renderEscaped, strchr_none p.literal.last_plain.1]
      | cons q params =>
        obtain ⟨hne, hsingle⟩ := q.opens
          (rbrace :: (q.literal.render lbrace ++ renderEscaped params))
        have hne' : ¬ (lbrace :: (q.key.render rbrace ++
            rbrace :: (q.literal.render lbrace ++ renderEscaped params))).tail = [] := hne
        have hsingle' : ¬ (lbrace :: (q.key.render rbrace ++
            rbrace :: (q.literal.render lbrace ++ renderEscaped params))).tail.head? =
            some lbrace := hsingle
        simp only [renderEscaped, strchr_append _ p.literal.last_plain.1, if_neg hne',
          if_neg hsingle', upTo_append]
    · rw [if_neg (fun h => hliteral h.2)]
      obtain ⟨rest, hrest⟩ := p.literal.render_doubled lbrace hliteral
      rw [hrest, List.append_assoc]
      simp only [List.cons_append, strchr_append _ p.literal.first_plain.1, List.tail_cons,
        reduceCtorEq, if_false, List.head?_cons, if_true]
  · rw [if_neg (fun h => hkey h.1)]
    obtain ⟨rest, hrest⟩ := p.key.render_doubled rbrace hkey
    have hclose := strchr_append
      (rbrace :: (rest ++ rbrace :: (p.literal.render lbrace ++ renderEscaped params))) hopen
    rw [List.cons_append] at hclose
    simp only [renderEscaped, hrest, List.append_assoc, List.cons_append, nextConstant, hclose,
      List.tail_cons, List.head?_cons, if_true]

/-- One parameter, with the URL not used up. -/
lemma matchLoop_param {c : Text} (hc : Plain c) (p : Param) (params : List Param) {u : Text}
    (hne : u ≠ []) (ret : List (Text × Option Text)) (fuel : ℕ) :
    matchLoop (fuel + 1) (c ++ renderEscaped (p :: params)) (some u) ret =
      match matchValue c (renderEscaped (p :: params)) u with
      | none => none
      | some (value, urlTmp) =>
        matchLoop fuel (p.literal.render lbrace ++ renderEscaped params) urlTmp
          (ret ++ [(p.key.last, value)]) := by
  obtain ⟨x, url, rfl⟩ := List.exists_cons_of_ne_nil hne
  have hopen : strchr (c ++ renderEscaped (p :: params)) lbrace =
      some (renderEscaped (p :: params)) := strchr_append _ hc.1
  obtain ⟨hnil, hsingle⟩ := p.opens (rbrace :: (p.literal.render lbrace ++ renderEscaped params))
  have hnil' : ¬ (renderEscaped (p :: params)).tail = [] := hnil
  have hsingle' : ¬ (renderEscaped (p :: params)).tail.head? = some lbrace := hsingle
  have hkey : readKey (renderEscaped (p :: params)).length (renderEscaped (p :: params)).tail =
      some (p.key.last, rbrace :: (p.literal.render lbrace ++ renderEscaped params)) :=
    readKey_render p.key (head_behind_literal p.literal params) _
      (by simp only [renderEscaped, List.length_cons]; omega)
  cases hvalue : matchValue c (renderEscaped (p :: params)) (x :: url) with
  | none => simp only [matchLoop, hopen, if_neg hnil', if_neg hsingle', upTo_append, hvalue]
  | some found =>
    simp only [matchLoop, hopen, if_neg hnil', if_neg hsingle', upTo_append, hvalue, hkey,
      List.tail_cons]

/-- Without a URL the loop ends. -/
lemma matchLoop_none (p : Pieces) (params : List Param) (ret : List (Text × Option Text))
    (fuel : ℕ) (hfuel : (p.render lbrace ++ renderEscaped params).length < fuel) :
    ∃ r, matchLoop fuel (p.render lbrace ++ renderEscaped params) none ret = some r := by
  obtain ⟨rounds, hrounds, heq⟩ := matchLoop_literal p (renderEscaped params) none ret fuel hfuel
  rw [heq]
  obtain ⟨rounds, rfl⟩ : ∃ f, rounds = f + 1 := ⟨rounds - 1, by omega⟩
  cases params with
  | nil => simp [renderEscaped, matchLoop, strchr_none p.last_plain.1]
  | cons q params =>
    have hopen : strchr (p.last ++ renderEscaped (q :: params)) lbrace =
        some (renderEscaped (q :: params)) := strchr_append _ p.last_plain.1
    obtain ⟨hnil, hsingle⟩ :=
      q.opens (rbrace :: (q.literal.render lbrace ++ renderEscaped params))
    have hnil' : ¬ (renderEscaped (q :: params)).tail = [] := hnil
    have hsingle' : ¬ (renderEscaped (q :: params)).tail.head? = some lbrace := hsingle
    exact ⟨(false, ret), by simp only [matchLoop, hopen, if_neg hnil', if_neg hsingle']⟩

/-- The value of a parameter whose constant is in the URL. -/
lemma matchValue_found {c a rest : Text} (hc : FirstAt c a (c ++ rest)) (p : Param)
    (params : List Param) :
    matchValue c (renderEscaped (p :: params)) (a ++ (c ++ rest)) =
      if p.key.more = [] ∧ p.literal.more = [] then
        some (some (takeValue rest (some p.literal.last)).1,
          (takeValue rest (some p.literal.last)).2)
      else none := by
  have hs : strstr (a ++ (c ++ rest)) c = some (c ++ rest) := search_append hc
  by_cases hsingle : p.key.more = [] ∧ p.literal.more = []
  · simp only [matchValue, hs, nextConstant_escaped, List.drop_left, if_pos hsingle]
  · simp only [matchValue, hs, nextConstant_escaped, if_neg hsingle]

lemma matchValue_missing {c u : Text} (hmissing : ¬ c <:+: u) (tmp4 : Text) :
    matchValue c tmp4 u = some (none, some u) := by
  have hs : strstr u c = none := search_eq_none_iff.mpr hmissing
  simp only [matchValue, hs]

/-- The loop goes on behind the literal of a parameter, with fuel for the rest. -/
lemma matchLoop_behind (p : Param) (params : List Param) (c : Text) (urlTmp : Option Text)
    (ret : List (Text × Option Text)) (fuel : ℕ)
    (hfuel : (c ++ renderEscaped (p :: params)).length < fuel + 1) :
    ∃ rounds, (p.literal.last ++ renderEscaped params).length < rounds ∧
      matchLoop fuel (p.literal.render lbrace ++ renderEscaped params) urlTmp ret =
        matchLoop rounds (p.literal.last ++ renderEscaped params) urlTmp ret := by
  simp only [renderEscaped, List.length_append, List.length_cons] at hfuel
  exact matchLoop_literal p.literal (renderEscaped params) urlTmp ret fuel
    (by rw [List.length_append]; omega)

lemma Stuck.matchLoop {params : List Param} {c u : Text} (h : Stuck c params u) (hc : Plain c)
    (ret : List (Text × Option Text)) (fuel : ℕ)
    (hfuel : (c ++ renderEscaped params).length < fuel) :
    RestTemplate.matchLoop fuel (c ++ renderEscaped params) (some u) ret = none := by
  induction h generalizing ret fuel with
  | @doubled c u p params hne hfound hdoubled =>
    obtain ⟨fuel, rfl⟩ : ∃ f, fuel = f + 1 := ⟨fuel - 1, by omega⟩
    rw [matchLoop_param hc p params hne]
    obtain ⟨a, rest, rfl, hfirst⟩ | hmissing := found_or_missing c u
    · have hnot : ¬ (p.key.more = [] ∧ p.literal.more = []) := hdoubled
      rw [matchValue_found hfirst, if_neg hnot]
    · exact absurd hfound hmissing
  | @missing c u p params hne hmissing h ih =>
    obtain ⟨fuel, rfl⟩ : ∃ f, fuel = f + 1 := ⟨fuel - 1, by omega⟩
    rw [matchLoop_param hc p params hne, matchValue_missing hmissing]
    obtain ⟨rounds, hrounds, heq⟩ :=
      matchLoop_behind p params c (some u) (ret ++ [(p.key.last, none)]) fuel hfuel
    exact heq.trans (ih p.literal.last_plain _ rounds hrounds)
  | @next c a v w p params hsingle hfirst hv hd h ih =>
    obtain ⟨fuel, rfl⟩ : ∃ f, fuel = f + 1 := ⟨fuel - 1, by omega⟩
    have hpos : p.key.more = [] ∧ p.literal.more = [] := hsingle
    rw [matchLoop_param hc p params (by simp [hv]), matchValue_found hfirst, if_pos hpos,
      takeValue_of_first hv hd]
    obtain ⟨rounds, hrounds, heq⟩ :=
      matchLoop_behind p params c (some w) (ret ++ [(p.key.last, some v)]) fuel hfuel
    exact heq.trans (ih p.literal.last_plain _ rounds hrounds)

lemma stuck_of_matchLoop (params : List Param) {c : Text} (hc : Plain c) (u : Text)
    (ret : List (Text × Option Text)) (fuel : ℕ)
    (hfuel : (c ++ renderEscaped params).length < fuel)
    (h : matchLoop fuel (c ++ renderEscaped params) (some u) ret = none) : Stuck c params u := by
  induction params generalizing c u ret fuel with
  | nil =>
    obtain ⟨fuel, rfl⟩ : ∃ f, fuel = f + 1 := ⟨fuel - 1, by omega⟩
    simp [matchLoop, renderEscaped, strchr_none hc.1] at h
  | cons p params ih =>
    obtain ⟨fuel, rfl⟩ : ∃ f, fuel = f + 1 := ⟨fuel - 1, by omega⟩
    have hbehind : ∀ w ret, matchLoop fuel (p.literal.render lbrace ++ renderEscaped params)
        (some w) ret = none → Stuck p.literal.last params w := by
      intro w ret hrun
      obtain ⟨rounds, hrounds, heq⟩ := matchLoop_behind p params c (some w) ret fuel hfuel
      exact ih p.literal.last_plain w ret rounds hrounds (heq ▸ hrun)
    by_cases hne : u = []
    · obtain ⟨hnil, hsingle⟩ :=
        p.opens (rbrace :: (p.literal.render lbrace ++ renderEscaped params))
      have hopen : strchr (c ++ renderEscaped (p :: params)) lbrace =
          some (renderEscaped (p :: params)) := strchr_append _ hc.1
      have hnil' : ¬ (renderEscaped (p :: params)).tail = [] := hnil
      have hsingle' : ¬ (renderEscaped (p :: params)).tail.head? = some lbrace := hsingle
      simp only [matchLoop, hopen, if_neg hnil', if_neg hsingle', hne, reduceCtorEq] at h
    rw [matchLoop_param hc p params hne] at h
    obtain ⟨a, rest, rfl, hfirst⟩ | hmissing := found_or_missing c u
    · rw [matchValue_found hfirst] at h
      by_cases hpos : p.key.more = [] ∧ p.literal.more = []
      · rw [if_pos hpos] at h
        obtain ⟨v, w, rfl, hv, hd, htake⟩ | ⟨-, htake⟩ := takeValue_cases rest p.literal.last
        · rw [htake] at h
          exact Stuck.next hpos hfirst hv hd (hbehind w _ h)
        · -- the value took the rest of the URL
          rw [htake] at h
          simp only [renderEscaped, List.length_append, List.length_cons] at hfuel
          obtain ⟨r, hr⟩ := matchLoop_none p.literal params
            (ret ++ [(p.key.last, some rest)]) fuel (by rw [List.length_append]; omega)
          simp [hr] at h
      · exact Stuck.doubled params hne ⟨a, rest, by simp⟩ hpos
    · rw [matchValue_missing hmissing] at h
      exact Stuck.missing hne hmissing (hbehind u _ h)

end Escapes

section Accepted

/-- Behind the opening of a parameter the validation runs to its closing brace. -/
lemma exists_key (n : ℕ) (s : Text) (hn : s.length ≤ n) (h : validate true false s = true) :
    ∃ (p : Pieces) (t : Text), s = p.render rbrace ++ rbrace :: t ∧ t.head? ≠ some rbrace ∧
      validate false false t = true := by
  induction n generalizing s with
  | zero =>
    obtain rfl : s = [] := List.length_eq_zero_iff.mp (Nat.le_zero.mp hn)
    simp [validate] at h
  | succ n ih =>
    obtain hno | ⟨k, rest, rfl, hk⟩ := split_at rbrace s
    · have hend := (validate_inside [] hno (by simpa using h)).2
      simp [validate] at hend
    · obtain ⟨hplain, hclose⟩ := validate_inside _ hk h
      by_cases hhead : rest.head? = some rbrace
      · -- the closing brace is doubled
        obtain ⟨t, rfl⟩ : ∃ t, rest = rbrace :: t := by
          cases rest with
          | nil => simp at hhead
          | cons x t => exact ⟨t, by simpa using hhead⟩
        have hin : validate true false t = true := by
          simpa [validate, Ne.symm lbrace_ne_rbrace] using hclose
        obtain ⟨p, t', rfl, ht', hvalid⟩ := ih t (by simp at hn; omega) hin
        refine ⟨⟨k, p.first :: p.more, ⟨hplain, hk⟩, ?_⟩, t', ?_, ht', hvalid⟩
        · intro m hm
          obtain rfl | hm := List.mem_cons.mp hm
          · exact p.first_plain
          · exact p.more_plain m hm
        · simp [Pieces.render, joinMore]
      · refine ⟨⟨k, [], ⟨hplain, hk⟩, by simp⟩, rest, by simp [Pieces.render, joinMore],
          hhead, ?_⟩
        simpa only [validate, if_neg (Ne.symm lbrace_ne_rbrace), if_true, if_neg hhead]
          using hclose

/-- The validation accepts templates with doubled braces only. -/
lemma exists_escaped (n : ℕ) (s : Text) (hn : s.length ≤ n)
    (hvalid : validate false false s = true) : ∃ t : Escaped, s = t.render := by
  induction n generalizing s with
  | zero =>
    obtain rfl : s = [] := List.length_eq_zero_iff.mp (Nat.le_zero.mp hn)
    exact ⟨⟨⟨[], [], by simp [Plain], by simp⟩, []⟩, rfl⟩
  | succ n ih =>
    obtain hno | ⟨a, rest, rfl, ha⟩ := split_at lbrace s
    · have hplain := (validate_outside [] hno (by simpa using hvalid)).1
      exact ⟨⟨⟨s, [], ⟨hno, hplain⟩, by simp⟩, []⟩,
        by simp [Escaped.render, Pieces.render, joinMore, renderEscaped]⟩
    · obtain ⟨haplain, hopen⟩ := validate_outside _ ha hvalid
      have hbad : ¬ (rest = [] ∨ rest.head? = some rbrace) := by
        intro hbad
        simp [validate, lbrace_ne_rbrace, hbad] at hopen
      by_cases hhead : rest.head? = some lbrace
      · -- the opening brace is doubled
        obtain ⟨t, rfl⟩ : ∃ t, rest = lbrace :: t := by
          cases rest with
          | nil => simp at hhead
          | cons x t => exact ⟨t, by simpa using hhead⟩
        have hout : validate false false t = true := by
          simpa [validate, lbrace_ne_rbrace] using hopen
        obtain ⟨⟨lead, params⟩, rfl⟩ := ih t (by simp at hn; omega) hout
        refine ⟨⟨⟨a, lead.first :: lead.more, ⟨ha, haplain⟩, ?_⟩, params⟩, ?_⟩
        · intro m hm
          obtain rfl | hm := List.mem_cons.mp hm
          · exact lead.first_plain
          · exact lead.more_plain m hm
        · simp [Escaped.render, Pieces.render, joinMore]
      · have hin : validate true false rest = true := by
          simpa only [validate, if_neg lbrace_ne_rbrace, if_true, if_neg hbad, if_neg hhead]
            using hopen
        obtain ⟨key, t, rfl, -, hout⟩ := exists_key _ rest le_rfl hin
        have hnamed : key.first ≠ [] := by
          intro hfirst
          refine hbad (.inr ?_)
          cases hmore : key.more with
          | nil | cons m more => simp [Pieces.render, joinMore, hfirst, hmore]
        obtain ⟨⟨lead, params⟩, rfl⟩ := ih t (by simp at hn; omega) hout
        exact ⟨⟨⟨a, [], ⟨ha, haplain⟩, by simp⟩, ⟨key, lead, hnamed⟩ :: params⟩,
          by simp [Escaped.render, Pieces.render, joinMore, renderEscaped]⟩

end Accepted

lemma not_stuck_of_constant {tmpl : Text} {t : Escaped} (htmpl : resourcePart tmpl = t.render)
    (hno : strchr (resourcePart tmpl) lbrace = none) (u : Text) :
    ¬ Stuck t.lead.last t.params u := by
  intro h
  cases hparams : t.params with
  | nil =>
    rw [hparams] at h
    cases h
  | cons p params =>
    rw [strchr, search_eq_none_iff] at hno
    refine hno ⟨t.lead.render lbrace, (renderEscaped (p :: params)).tail, ?_⟩
    rw [htmpl, Escaped.render, hparams]
    simp [renderEscaped]

/-- An accepted template: the call returns unless the reading of the URL is stuck. -/
lemma terminates_iff_of_escaped {tmpl : Text} {t : Escaped} (htmpl : resourcePart tmpl = t.render)
    (haccepted : validate false false (resourcePart tmpl) = true) (url : Text) :
    Terminates tmpl url ↔ ¬ Stuck t.lead.last t.params (resourcePart url) := by
  rw [terminates_iff_parse]
  simp only [parseRestUrlForParams, haccepted, Bool.true_eq_false, if_false]
  by_cases hno : strchr (resourcePart tmpl) lbrace = none
  · simp only [if_pos hno]
    exact iff_of_true ⟨_, rfl⟩ (not_stuck_of_constant htmpl hno _)
  · simp only [if_neg hno]
    obtain ⟨rounds, hrounds, heq⟩ := matchLoop_literal t.lead (renderEscaped t.params)
      (some (resourcePart url)) [] ((resourcePart tmpl).length + 1)
      (by rw [htmpl, Escaped.render]; omega)
    rw [← Escaped.render, ← htmpl] at heq
    rw [heq]
    constructor
    · rintro ⟨r, hr⟩ hstuck
      rw [hstuck.matchLoop t.lead.last_plain [] rounds hrounds] at hr
      simp at hr
    · intro hfree
      cases hrun : matchLoop rounds (t.lead.last ++ renderEscaped t.params)
          (some (resourcePart url)) [] with
      | none => exact absurd (stuck_of_matchLoop _ t.lead.last_plain _ _ _ hrounds hrun) hfree
      | some p => exact ⟨_, rfl⟩

/-- The call returns exactly on the templates that are rejected and on the URLs
that are not stuck on the template. -/
theorem rest_template_terminates_iff (tmpl url : Text) :
    Terminates tmpl url ↔
      validate false false (resourcePart tmpl) = false ∨
      ∃ t : Escaped, resourcePart tmpl = t.render ∧
        ¬ Stuck t.lead.last t.params (resourcePart url) := by
  cases haccepted : validate false false (resourcePart tmpl) with
  | false =>
    refine iff_of_true ⟨0, .rejected, ?_⟩ (.inl rfl)
    simp [parseWithin, haccepted]
  | true =>
    constructor
    · intro h
      obtain ⟨t, htmpl⟩ := exists_escaped _ _ le_rfl haccepted
      exact .inr ⟨t, htmpl, (terminates_iff_of_escaped htmpl haccepted url).mp h⟩
    · rintro (h | ⟨t, htmpl, hfree⟩)
      · cases h
      · exact (terminates_iff_of_escaped htmpl haccepted url).mpr hfree

/-- `{a}}b}` is accepted, and its key has a doubled brace: the call does not
return on the URL `x`. -/
theorem doubled_brace_never_returns :
    validate false false (resourcePart "\x7ba\x7d\x7db\x7d".toList) = true ∧
      ¬ Terminates "\x7ba\x7d\x7db\x7d".toList "x".toList := by
  refine ⟨by decide, ?_⟩
  rw [terminates_iff_parse]
  rintro ⟨r, hr⟩
  have hnone : parseRestUrlForParams "\x7ba\x7d\x7db\x7d".toList "x".toList = none := by decide
  rw [hnone] at hr
  cases hr

end Axis2C.RestTemplate
