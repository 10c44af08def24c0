import Axis2C.RestTemplate

/-!
# What REST template matching finds

A template without doubled braces is a constant followed by parameters with a
constant behind each. The matcher reads the URL from the left: it looks for the
constant in front of a parameter anywhere in what is left, and ends the value at
the first occurrence of the constant behind it (of a slash, where there is no
such constant). That reading is the template with values filled in exactly when
the URL starts with the first constant and every constant occurs first where
it should.
-/
namespace Axis2C.RestTemplate
open FirstOccurrence

def Plain (s : Text) : Prop := lbrace ∉ s ∧ rbrace ∉ s

def renderParams : List (Text × Text) → Text
  | [] => []
  | (key, constant) :: params =>
    lbrace :: (key ++ rbrace :: (constant ++ renderParams params))

/-- A constant, then parameters with the constant behind each. -/
structure Template where
  lead : Text
  params : List (Text × Text)
  lead_plain : Plain lead
  params_plain : ∀ p ∈ params, Plain p.1 ∧ Plain p.2 ∧ p.1 ≠ []

def Template.render (t : Template) : Text := t.lead ++ renderParams t.params

def fillParams : List (Text × Text) → List Text → Text
  | (_, constant) :: params, value :: values => value ++ (constant ++ fillParams params values)
  | _, _ => []

def Template.fill (t : Template) (values : List Text) : Text :=
  t.lead ++ fillParams t.params values

section Reading

variable {params : List (Text × Text)} {c u : Text}

/-- The text that ends a value in front of the constant `d`. -/
def delimiter (d : Text) : Text := if d = [] then ['/'] else d

/-- The matcher on a template that is already split. -/
def readParams : Text → List (Text × Text) → Option Text → Bool × List (Text × Option Text)
  | _, [], _ => (true, [])
  | _, _ :: _, none => (false, [])
  | _, _ :: _, some [] => (false, [])
  | c, (key, d) :: params, some (u :: url) =>
    match strstr (u :: url) c with
    | none =>
      let r := readParams d params (some (u :: url))
      (r.1, (key, none) :: r.2)
    | some found =>
      let (value, urlTmp) := takeValue (found.drop c.length) (some d)
      let r := readParams d params urlTmp
      (r.1, (key, some value) :: r.2)

lemma strchr_append {a : Text} {c : Char} (t : Text) (h : c ∉ a) :
    strchr (a ++ c :: t) c = some (c :: t) := search_singleton t h

lemma strchr_none {s : Text} {c : Char} (h : c ∉ s) : strchr s c = none := search_singleton_none h

lemma lbrace_ne_rbrace : lbrace ≠ rbrace := by decide

/-- Behind the closing brace of a parameter there is no second one. -/
lemma head_behind {constant : Text} (h : Plain constant) (params : List (Text × Text)) :
    (constant ++ renderParams params).head? ≠ some rbrace := by
  cases constant with
  | nil =>
    cases params with
    | nil => simp [renderParams]
    | cons p params => simpa [renderParams] using lbrace_ne_rbrace
  | cons x constant =>
    have hx : x ≠ rbrace := by
      rintro rfl
      exact h.2 (by simp)
    simpa using hx

section

variable {key constant : Text} (hkey : Plain key) (hconstant : Plain constant)
  (hparams : ∀ p ∈ params, Plain p.1 ∧ Plain p.2 ∧ p.1 ≠ [])

include hkey hconstant hparams

lemma nextConstant_render :
    nextConstant (lbrace :: (key ++ rbrace :: (constant ++ renderParams params))) =
      some (some constant) := by
  have hopen : rbrace ∉ lbrace :: key := by
    simp [hkey.2, Ne.symm lbrace_ne_rbrace]
  have hclose := strchr_append (constant ++ renderParams params) hopen
  rw [List.cons_append] at hclose
  have hnot : ¬ (rbrace :: (constant ++ renderParams params)).tail.head? = some rbrace :=
    head_behind hconstant params
  simp only [nextConstant, hclose, if_neg hnot]
  cases params with
  | nil => simp [renderParams, strchr_none hconstant.1]
  | cons p params =>
    obtain ⟨key', constant'⟩ := p
    obtain ⟨hkey', -, hne⟩ := hparams (key', constant') (by simp)
    obtain ⟨x, xs, rfl⟩ := List.exists_cons_of_ne_nil hne
    have hx : x ≠ lbrace := by
      rintro rfl
      exact hkey'.1 (by simp)
    have hopen' : strchr (rbrace :: (constant ++
        renderParams ((x :: xs, constant') :: params))).tail lbrace =
        some (lbrace :: (x :: xs ++ rbrace :: (constant' ++ renderParams params))) :=
      strchr_append _ hconstant.1
    simp only [hopen']
    simp [renderParams, hx]

lemma matchValue_render (c url : Text) :
    matchValue c (lbrace :: (key ++ rbrace :: (constant ++ renderParams params))) url =
      match strstr url c with
      | none => some (none, some url)
      | some found =>
        some (some (takeValue (found.drop c.length) (some constant)).1,
          (takeValue (found.drop c.length) (some constant)).2) := by
  cases hs : strstr url c with
  | none => simp only [matchValue, hs]
  | some found => simp only [matchValue, hs, nextConstant_render hkey hconstant hparams]

end

/-- The main loop runs through the parameters of a rendered template. -/
lemma matchLoop_render (params : List (Text × Text))
    (hparams : ∀ p ∈ params, Plain p.1 ∧ Plain p.2 ∧ p.1 ≠ []) {c : Text} (hc : Plain c)
    (fuel : ℕ) (hfuel : params.length < fuel) (urlTmp : Option Text)
    (ret : List (Text × Option Text)) :
    matchLoop fuel (c ++ renderParams params) urlTmp ret =
      some ((readParams c params urlTmp).1, ret ++ (readParams c params urlTmp).2) := by
  induction params generalizing c fuel urlTmp ret with
  | nil =>
    obtain ⟨fuel, rfl⟩ : ∃ f, fuel = f + 1 := ⟨fuel - 1, by simp at hfuel; omega⟩
    simp [matchLoop, renderParams, strchr_none hc.1, readParams]
  | cons p params ih =>
    obtain ⟨key, constant⟩ := p
    obtain ⟨fuel, rfl⟩ : ∃ f, fuel = f + 1 := ⟨fuel - 1, by simp at hfuel; omega⟩
    obtain ⟨hkey, hconstant, hne⟩ := hparams (key, constant) (by simp)
    have hrest : ∀ p ∈ params, Plain p.1 ∧ Plain p.2 ∧ p.1 ≠ [] :=
      fun q hq => hparams q (by simp [hq])
    have hopen : strchr (c ++ renderParams ((key, constant) :: params)) lbrace =
        some (lbrace :: (key ++ rbrace :: (constant ++ renderParams params))) :=
      strchr_append _ hc.1
    have hkeyRead : readKey (lbrace :: (key ++ rbrace :: (constant ++ renderParams params))).length
        (key ++ rbrace :: (constant ++ renderParams params)) =
        some (key, rbrace :: (constant ++ renderParams params)) := by
      have hnot : ¬ (rbrace :: (constant ++ renderParams params)).tail.head? = some rbrace :=
        head_behind hconstant params
      simp only [List.length_cons, readKey, strchr_append _ hkey.2, if_neg hnot, upTo_append]
    obtain ⟨x, xs, rfl⟩ := List.exists_cons_of_ne_nil hne
    have hx : ¬ (x :: xs ++ rbrace :: (constant ++ renderParams params)).head? = some lbrace := by
      intro h
      obtain rfl : x = lbrace := by simpa using h
      exact hkey.1 (by simp)
    have hstep := ih hrest hconstant fuel (by simp at hfuel; omega)
    have hne' : ¬ (lbrace :: (x :: xs ++ rbrace :: (constant ++ renderParams params))).tail = [] := by
      simp
    have hx' : ¬ (lbrace :: (x :: xs ++ rbrace :: (constant ++ renderParams params))).tail.head? =
        some lbrace := hx
    simp only [matchLoop, hopen, if_neg hne', if_neg hx']
    match urlTmp with
    | none | some [] => simp [readParams]
    | some (u :: url) =>
      have hc' : upTo (c ++ renderParams ((x :: xs, constant) :: params))
          (lbrace :: (x :: xs ++ rbrace :: (constant ++ renderParams params))) = c :=
        upTo_append c _
      simp only [hc', matchValue_render hkey hconstant hrest, List.tail_cons, readParams]
      cases hs : strstr (u :: url) c with
      | none | some found =>
        simp only [hkeyRead, List.tail_cons, hstep]
        simp

lemma takeValue_eq (tmp5 d : Text) :
    takeValue tmp5 (some d) =
      match search (delimiter d) tmp5 with
      | some t => if t.length ≠ tmp5.length then (upTo tmp5 t, some t) else (tmp5, none)
      | none => (tmp5, none) := by
  cases d with
  | nil | cons x d => rfl

/-- A value ends at the first delimiter, unless there is none or it comes at once. -/
lemma takeValue_cases (tmp5 d : Text) :
    (∃ v w, tmp5 = v ++ w ∧ v ≠ [] ∧ FirstAt (delimiter d) v w ∧
      takeValue tmp5 (some d) = (v, some w)) ∨
    (¬ delimiter d <:+: tmp5 ∨ delimiter d <+: tmp5) ∧ takeValue tmp5 (some d) = (tmp5, none) := by
  rw [takeValue_eq]
  cases hs : search (delimiter d) tmp5 with
  | none => exact .inr ⟨.inl (search_eq_none_iff.mp hs), rfl⟩
  | some t =>
    obtain ⟨v, rfl, hfirst⟩ := search_eq_some hs
    by_cases hv : v = []
    · subst hv
      exact .inr ⟨.inr hfirst.1, by simp⟩
    · refine .inl ⟨v, t, rfl, hv, hfirst, ?_⟩
      have hlen : t.length ≠ (v ++ t).length := by
        have := List.length_pos_iff.mpr hv
        rw [List.length_append]
        omega
      simp only [if_pos hlen, upTo_append]

lemma takeValue_of_first {v w d : Text} (hv : v ≠ []) (h : FirstAt (delimiter d) v w) :
    takeValue (v ++ w) (some d) = (v, some w) := by
  have hlen : w.length ≠ (v ++ w).length := by
    have := List.length_pos_iff.mpr hv
    rw [List.length_append]
    omega
  rw [takeValue_eq, search_append h]
  simp only [if_pos hlen, upTo_append]

lemma takeValue_of_no_delimiter {tmp5 d : Text}
    (h : ¬ delimiter d <:+: tmp5 ∨ delimiter d <+: tmp5) :
    takeValue tmp5 (some d) = (tmp5, none) := by
  rw [takeValue_eq]
  obtain h | h := h
  · rw [search_eq_none_iff.mpr h]
  · rw [search_at_front h]
    simp

/-- The text is the constant `c` and the parameters filled in, with every value
ended by the first occurrence of its delimiter; a value at the very end of the
template may also run to the end of the text. -/
def Fits : Text → List (Text × Text) → Text → Prop
  | c, [], u => u = c
  | c, (_, d) :: params, u =>
    ∃ v w, u = c ++ (v ++ w) ∧ v ≠ [] ∧
      (FirstAt (delimiter d) v w ∧ Fits d params w ∨
        params = [] ∧ d = [] ∧ w = [] ∧ (¬ ['/'] <:+: v ∨ ['/'] <+: v))

/-- The text is used up before the last parameter, each constant taken at its
first occurrence and skipped where there is none. -/
inductive Blocked : Text → List (Text × Text) → Text → Prop
  | usedUp (c : Text) (p : Text × Text) (params : List (Text × Text)) : Blocked c (p :: params) []
  | missing {c key d u : Text} {params : List (Text × Text)} (hne : u ≠ [])
      (hmissing : ¬ c <:+: u) (h : Blocked d params u) : Blocked c ((key, d) :: params) u
  | noDelimiter {c key d a rest : Text} {params : List (Text × Text)} (hmore : params ≠ [])
      (hc : FirstAt c a (c ++ rest)) (hne : a ++ (c ++ rest) ≠ [])
      (hnone : ¬ delimiter d <:+: rest ∨ delimiter d <+: rest) :
      Blocked c ((key, d) :: params) (a ++ (c ++ rest))
  | next {c key d a v w : Text} {params : List (Text × Text)} (hc : FirstAt c a (c ++ (v ++ w)))
      (hv : v ≠ []) (hd : FirstAt (delimiter d) v w) (h : Blocked d params w) :
      Blocked c ((key, d) :: params) (a ++ (c ++ (v ++ w)))

lemma readParams_found (key d : Text) {c a rest : Text} (params : List (Text × Text))
    (hc : FirstAt c a (c ++ rest)) (hne : a ++ (c ++ rest) ≠ []) :
    readParams c ((key, d) :: params) (some (a ++ (c ++ rest))) =
      ((readParams d params (takeValue rest (some d)).2).1,
        (key, some (takeValue rest (some d)).1) ::
          (readParams d params (takeValue rest (some d)).2).2) := by
  obtain ⟨u, url, hu⟩ := List.exists_cons_of_ne_nil hne
  have hs : strstr (u :: url) c = some (c ++ rest) := by
    rw [← hu]
    exact search_append hc
  rw [hu]
  simp only [readParams, hs, List.drop_left]

lemma readParams_missing {c key d u : Text} (params : List (Text × Text)) (hne : u ≠ [])
    (hmissing : ¬ c <:+: u) :
    readParams c ((key, d) :: params) (some u) =
      ((readParams d params (some u)).1, (key, none) :: (readParams d params (some u)).2) := by
  obtain ⟨x, url, rfl⟩ := List.exists_cons_of_ne_nil hne
  have hs : strstr (x :: url) c = none := search_eq_none_iff.mpr hmissing
  simp only [readParams, hs]

lemma readParams_none (d : Text) (params : List (Text × Text)) :
    readParams d params none = (decide (params = []), []) := by
  cases params <;> simp [readParams]

/-- A nonempty text is split at the first occurrence of a constant, or has none. -/
lemma found_or_missing (c u : Text) :
    (∃ a rest, u = a ++ (c ++ rest) ∧ FirstAt c a (c ++ rest)) ∨ ¬ c <:+: u := by
  cases hs : search c u with
  | none => exact .inr (search_eq_none_iff.mp hs)
  | some t =>
    obtain ⟨a, rfl, hfirst⟩ := search_eq_some hs
    obtain ⟨rest, rfl⟩ := hfirst.1
    exact .inl ⟨a, rest, rfl, hfirst⟩

lemma Blocked.fails (h : Blocked c params u) :
    (readParams c params (some u)).1 = false := by
  induction h with
  | usedUp c p params => rfl
  | missing hne hmissing h ih =>
    rw [readParams_missing _ hne hmissing]
    exact ih
  | noDelimiter hmore hc hne hnone =>
    rw [readParams_found _ _ _ hc hne, takeValue_of_no_delimiter hnone, readParams_none]
    simpa using hmore
  | next hc hv hd h ih =>
    rw [readParams_found _ _ _ hc (by simp [hv]), takeValue_of_first hv hd]
    exact ih

/-- The matcher fails exactly on blocked texts. -/
theorem readParams_fails_iff (params : List (Text × Text)) (c u : Text) :
    (readParams c params (some u)).1 = false ↔ Blocked c params u := by
  refine ⟨?_, Blocked.fails⟩
  induction params generalizing c u with
  | nil => simp [readParams]
  | cons p params ih =>
    obtain ⟨key, d⟩ := p
    intro h
    by_cases hne : u = []
    · subst hne
      exact Blocked.usedUp c (key, d) params
    · obtain ⟨a, rest, rfl, hc⟩ | hmissing := found_or_missing c u
      · rw [readParams_found key d params hc hne] at h
        obtain ⟨v, w, rfl, hv, hd, htake⟩ | ⟨hnone, htake⟩ := takeValue_cases rest d
        · rw [htake] at h
          exact Blocked.next hc hv hd (ih d w h)
        · rw [htake, readParams_none] at h
          exact Blocked.noDelimiter (by simpa using h) hc hne hnone
      · rw [readParams_missing params hne hmissing] at h
        exact Blocked.missing hne hmissing (ih d u h)

/-- The values of a list of matches, NULL as the empty text. -/
def valuesOf (found : List (Text × Option Text)) : List Text := found.map fun m => m.2.getD []

/-- Success with values that are there and fill the template to the given text. -/
def Exact (c : Text) (params : List (Text × Text)) (u : Text)
    (r : Bool × List (Text × Option Text)) : Prop :=
  r.1 = true ∧ (∀ m ∈ r.2, ∃ v, m.2 = some v ∧ v ≠ []) ∧
    c ++ fillParams params (valuesOf r.2) = u

lemma FirstAt.at_front (c rest : Text) : FirstAt c [] (c ++ rest) :=
  ⟨List.prefix_append c rest, by simp⟩

/-- A match that fills the template is a fit. -/
lemma Exact.fits (h : Exact c params u (readParams c params (some u))) : Fits c params u := by
  induction params generalizing c u with
  | nil => simpa [Exact, Fits, readParams, fillParams, eq_comm] using h
  | cons p params ih =>
    obtain ⟨key, d⟩ := p
    obtain ⟨hok, hvals, hfill⟩ := h
    by_cases hu : u = []
    · subst hu
      simp [readParams] at hok
    obtain ⟨a, rest, rfl, hc⟩ | hmissing := found_or_missing c u
    · -- the filled template starts with the constant, so nothing was skipped
      obtain rfl : a = [] := by
        have hle := hc.2 [] (a ++ (c ++ rest)) rfl ⟨_, hfill⟩
        exact List.length_eq_zero_iff.mp (Nat.le_zero.mp hle)
      rw [readParams_found key d params hc hu] at hok hvals hfill
      rw [List.nil_append, List.append_cancel_left_eq] at hfill
      obtain ⟨v, w, rfl, hv, hd, htake⟩ | ⟨hnone, htake⟩ := takeValue_cases rest d
      · rw [htake] at hok hvals hfill
        simp only [valuesOf, List.map_cons, Option.getD_some, fillParams,
          List.append_cancel_left_eq] at hfill
        exact ⟨v, w, rfl, hv, .inl ⟨hd, ih ⟨hok, fun m hm => hvals m (by simp [hm]), hfill⟩⟩⟩
      · rw [htake, readParams_none] at hok hvals hfill
        obtain rfl : params = [] := by simpa using hok
        obtain ⟨v, hv, hne⟩ := hvals (key, some rest) (by simp)
        obtain rfl := Option.some.inj hv
        have hd : d = [] := by simpa [valuesOf, fillParams] using hfill
        subst hd
        exact ⟨rest, [], by simp, hne, .inr ⟨rfl, rfl, rfl, hnone⟩⟩
    · rw [readParams_missing params hu hmissing] at hvals
      obtain ⟨v, hv, -⟩ := hvals (key, none) (by simp)
      cases hv

/-- A fit is what the matcher finds. -/
lemma Fits.exact (h : Fits c params u) :
    Exact c params u (readParams c params (some u)) := by
  induction params generalizing c u with
  | nil => simpa [Exact, Fits, readParams, fillParams, eq_comm] using h
  | cons p params ih =>
    obtain ⟨key, d⟩ := p
    obtain ⟨v, w, rfl, hv, hend⟩ := h
    have hfound := readParams_found key d params (FirstAt.at_front c (v ++ w)) (by simp [hv])
    rw [List.nil_append] at hfound
    rw [hfound]
    obtain ⟨hd, hfits⟩ | ⟨rfl, rfl, rfl, hnone⟩ := hend
    · obtain ⟨hok, hvals, hfill⟩ := ih hfits
      rw [takeValue_of_first hv hd]
      refine ⟨hok, ?_, ?_⟩
      · intro m hm
        obtain rfl | hm := List.mem_cons.mp hm
        · exact ⟨v, rfl, hv⟩
        · exact hvals m hm
      · simp only [valuesOf, List.map_cons, Option.getD_some, fillParams] at hfill ⊢
        rw [hfill]
    · have hnone' : ¬ delimiter [] <:+: v ∨ delimiter [] <+: v := hnone
      rw [List.append_nil, takeValue_of_no_delimiter hnone']
      exact ⟨rfl, by simp [readParams, hv], by simp [valuesOf, fillParams, readParams]⟩

lemma readParams_keys (params : List (Text × Text)) (c : Text) (urlTmp : Option Text)
    (h : (readParams c params urlTmp).1 = true) :
    (readParams c params urlTmp).2.map Prod.fst = params.map Prod.fst := by
  induction params generalizing c urlTmp with
  | nil => rfl
  | cons p params ih =>
    obtain ⟨key, d⟩ := p
    match urlTmp with
    | none | some [] => simp [readParams] at h
    | some (u :: url) =>
      simp only [readParams] at h ⊢
      cases hs : strstr (u :: url) c with
      | none | some found =>
        simp only [hs] at h ⊢
        simp [ih _ _ h]

end Reading

section Accepted

/-- No brace of the template is doubled. -/
def SingleBraces (s : Text) : Prop := ¬ [lbrace, lbrace] <:+: s ∧ ¬ [rbrace, rbrace] <:+: s

lemma SingleBraces.suffix {s t : Text} (h : SingleBraces s) (hst : t <:+ s) : SingleBraces t :=
  ⟨fun ht => h.1 (ht.trans hst.isInfix), fun ht => h.2 (ht.trans hst.isInfix)⟩

lemma validate_outside {a : Text} (t : Text) (ha : lbrace ∉ a) (h : validate false false (a ++ t) = true) :
    rbrace ∉ a ∧ validate false false t = true := by
  induction a with
  | nil => exact ⟨by simp, h⟩
  | cons x a ih =>
    simp only [List.mem_cons, not_or] at ha
    by_cases hx : x = rbrace
    · simp [validate, hx] at h
    · have hstep : validate false false (x :: a ++ t) = validate false false (a ++ t) := by
        simp [validate, hx, Ne.symm ha.1]
      obtain ⟨hrest, ht⟩ := ih ha.2 (hstep ▸ h)
      exact ⟨by simp [Ne.symm hx, hrest], ht⟩

lemma validate_inside {k : Text} (t : Text) (hk : rbrace ∉ k) (h : validate true false (k ++ t) = true) :
    lbrace ∉ k ∧ validate true false t = true := by
  induction k with
  | nil => exact ⟨by simp, h⟩
  | cons x k ih =>
    simp only [List.mem_cons, not_or] at hk
    by_cases hx : x = lbrace
    · simp [validate, hx] at h
    · have hstep : validate true false (x :: k ++ t) = validate true false (k ++ t) := by
        simp [validate, hx, Ne.symm hk.1]
      obtain ⟨hrest, ht⟩ := ih hk.2 (hstep ▸ h)
      exact ⟨by simp [Ne.symm hx, hrest], ht⟩

/-- A text is free of a character or split at its first occurrence. -/
lemma split_at (c : Char) (s : Text) : c ∉ s ∨ ∃ a t, s = a ++ c :: t ∧ c ∉ a := by
  by_cases h : c ∈ s
  · obtain ⟨a, t, rfl, ha⟩ := List.eq_append_cons_of_mem h
    exact .inr ⟨a, t, rfl, ha⟩
  · exact .inl h

lemma head_ne_of_single {x : Char} {a t : Text} (h : ¬ [x, x] <:+: a ++ x :: t) :
    t.head? ≠ some x := by
  intro hhead
  cases t with
  | nil => simp at hhead
  | cons y t =>
    obtain rfl : y = x := by simpa using hhead
    exact h ⟨a, t, by simp⟩

lemma exists_template (n : ℕ) (s : Text) (hn : s.length ≤ n) (hs : SingleBraces s)
    (hvalid : validate false false s = true) : ∃ t : Template, s = t.render := by
  induction n generalizing s with
  | zero =>
    obtain rfl : s = [] := List.length_eq_zero_iff.mp (Nat.le_zero.mp hn)
    exact ⟨⟨[], [], by simp [Plain], by simp⟩, rfl⟩
  | succ n ih =>
    obtain hno | ⟨a, rest, rfl, ha⟩ := split_at lbrace s
    · have hplain := (validate_outside [] hno (by simpa using hvalid)).1
      exact ⟨⟨s, [], ⟨hno, hplain⟩, by simp⟩, by simp [Template.render, renderParams]⟩
    · -- a parameter opens
      obtain ⟨haplain, hopen⟩ := validate_outside _ ha hvalid
      have hhead := head_ne_of_single hs.1
      have hbad : ¬ (rest = [] ∨ rest.head? = some rbrace) := by
        intro hbad
        simp [validate, lbrace_ne_rbrace, hbad] at hopen
      have hin : validate true false rest = true := by
        simpa only [validate, if_neg lbrace_ne_rbrace, if_true, if_neg hbad, if_neg hhead]
          using hopen
      obtain hno | ⟨k, rest', rfl, hk⟩ := split_at rbrace rest
      · -- and is never closed
        have hend := (validate_inside [] hno (by simpa using hin)).2
        simp [validate] at hend
      · obtain ⟨hkplain, hclose⟩ := validate_inside _ hk hin
        have hs' : SingleBraces (rbrace :: rest') :=
          hs.suffix ⟨a ++ lbrace :: k, by simp⟩
        have hhead' := head_ne_of_single (a := []) hs'.2
        have hout : validate false false rest' = true := by
          simpa only [validate, if_neg (Ne.symm lbrace_ne_rbrace), if_true, if_neg hhead']
            using hclose
        obtain ⟨t, rfl⟩ := ih rest' (by simp at hn; omega)
          (hs'.suffix (List.suffix_cons rbrace rest')) hout
        have hkne : k ≠ [] := by
          rintro rfl
          exact hbad (.inr rfl)
        refine ⟨⟨a, (k, t.lead) :: t.params, ⟨ha, haplain⟩, ?_⟩, rfl⟩
        intro p hp
        obtain rfl | hp := List.mem_cons.mp hp
        · exact ⟨⟨hkplain, hk⟩, t.lead_plain, hkne⟩
        · exact t.params_plain p hp

end Accepted

/-- The values of some assignment, free of slashes, turn the template into the text. -/
def Assignable (t : Template) (u : Text) : Prop :=
  ∃ values : List Text, values.length = t.params.length ∧
    (∀ v ∈ values, v ≠ [] ∧ '/' ∉ v) ∧ t.fill values = u

/-- Success gives the parameter names with values that turn the template into the
URL, and a URL made from the template is a success. -/
def Faithful (t : Template) (tmpl url : Text) : Prop :=
  (∀ found, parseRestUrlForParams tmpl url = some (.done true found) →
    (∀ m ∈ found, ∃ v, m.2 = some v ∧ v ≠ []) ∧ found.map Prod.fst = t.params.map Prod.fst ∧
      t.fill (valuesOf found) = resourcePart url) ∧
  (Assignable t (resourcePart url) →
    ∃ found, parseRestUrlForParams tmpl url = some (.done true found))

/-- The template has no parameters, or the URL fits it, or the URL is used up
before the last parameter and is no instance of the template. -/
def Readable (t : Template) (u : Text) : Prop :=
  t.params = [] ∨ Fits t.lead t.params u ∨ Blocked t.lead t.params u ∧ ¬ Assignable t u

lemma length_renderParams (params : List (Text × Text)) :
    params.length ≤ (renderParams params).length := by
  induction params with
  | nil => simp
  | cons p params ih =>
    simp only [renderParams, List.length_cons, List.length_append]
    omega

section

variable {t : Template} {tmpl : Text} (htmpl : resourcePart tmpl = t.render)
  (hvalid : validate false false (resourcePart tmpl) = true)

include htmpl hvalid

lemma parse_constant (hparams : t.params = []) (url : Text) :
    parseRestUrlForParams tmpl url = some (.done (t.lead = resourcePart url) []) := by
  have hlead : resourcePart tmpl = t.lead := by
    rw [htmpl, Template.render, hparams]
    simp [renderParams]
  have hno : strchr t.lead lbrace = none := strchr_none t.lead_plain.1
  rw [hlead] at hvalid
  simp [parseRestUrlForParams, hlead, hvalid, hno]

lemma parse_params (hparams : t.params ≠ []) (url : Text) :
    parseRestUrlForParams tmpl url =
      some (.done (readParams t.lead t.params (some (resourcePart url))).1
        (readParams t.lead t.params (some (resourcePart url))).2) := by
  have hopen : strchr (resourcePart tmpl) lbrace ≠ none := by
    obtain ⟨p, params, hp⟩ := List.exists_cons_of_ne_nil hparams
    rw [htmpl, Template.render, hp]
    obtain ⟨key, constant⟩ := p
    simp only [renderParams]
    rw [strchr_append _ t.lead_plain.1]
    simp
  have hlen : t.params.length < (resourcePart tmpl).length + 1 := by
    have := length_renderParams t.params
    rw [htmpl, Template.render, List.length_append]
    omega
  have hloop := matchLoop_render t.params t.params_plain t.lead_plain
    ((resourcePart tmpl).length + 1) hlen (some (resourcePart url)) []
  rw [← Template.render, ← htmpl] at hloop
  simp [parseRestUrlForParams, hvalid, hopen, hloop]

lemma faithful_iff_of_params (hparams : t.params ≠ []) (url : Text) :
    Faithful t tmpl url ↔ Readable t (resourcePart url) := by
  have hparse := parse_params htmpl hvalid hparams url
  set u := resourcePart url with hu
  set r := readParams t.lead t.params (some u) with hr
  have hfail := readParams_fails_iff t.params t.lead u
  constructor
  · rintro ⟨hsound, hcomplete⟩
    cases hok : r.1 with
    | true =>
      rw [hok] at hparse
      obtain ⟨hvals, -, hfill⟩ := hsound r.2 hparse
      exact .inr (.inl (Exact.fits ⟨hok, hvals, hfill⟩))
    | false =>
      refine .inr (.inr ⟨hfail.mp hok, ?_⟩)
      intro hassign
      obtain ⟨found, hfound⟩ := hcomplete hassign
      rw [hparse, hok] at hfound
      simp at hfound
  · rintro (hnil | hfits | ⟨hblocked, hno⟩)
    · exact absurd hnil hparams
    · obtain ⟨hok, hvals, hfill⟩ := hfits.exact
      rw [← hr] at hok hvals hfill
      rw [hok] at hparse
      refine ⟨?_, fun _ => ⟨r.2, hparse⟩⟩
      intro found hfound
      obtain rfl : r.2 = found := by
        rw [hparse] at hfound
        simpa using hfound
      exact ⟨hvals, readParams_keys t.params t.lead (some u) hok, hfill⟩
    · have hok : r.1 = false := hfail.mpr hblocked
      rw [hok] at hparse
      refine ⟨?_, fun hassign => absurd hassign hno⟩
      intro found hfound
      rw [hparse] at hfound
      simp at hfound

/-- The property for templates without parameters. -/
lemma faithful_of_constant (hparams : t.params = []) (url : Text) : Faithful t tmpl url := by
  have hparse := parse_constant htmpl hvalid hparams url
  constructor
  · intro found hfound
    rw [hparse] at hfound
    simp only [Option.some.injEq, Outcome.done.injEq, decide_eq_true_eq] at hfound
    obtain ⟨hlead, rfl⟩ := hfound
    exact ⟨by simp, by simp [hparams], by simp [Template.fill, hparams, fillParams, hlead]⟩
  · rintro ⟨values, -, -, hfill⟩
    have hlead : t.lead = resourcePart url := by
      simpa [Template.fill, hparams, fillParams] using hfill
    exact ⟨[], by rw [hparse]; simp [hlead]⟩

end

end Axis2C.RestTemplate
