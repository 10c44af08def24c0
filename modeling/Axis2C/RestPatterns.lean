import Axis2C.RestDispatch
import Axis2C.RestTemplateMatch

/-!
# What a pattern matches

Dividing a pattern succeeds exactly on the templates with a constant between any
two parameters. On such a template the loop over the URL component reads a value
for each parameter, up to the first place where the constant behind it begins.
-/
namespace Axis2C.RestDispatch
open FirstOccurrence RestTemplate

/-- No parameter without a name. -/
def Named (pattern : Text) : Prop := ¬ [lbrace, rbrace] <:+: pattern

instance (pattern : Text) : Decidable (Named pattern) :=
  inferInstanceAs (Decidable (¬ [lbrace, rbrace] <:+: pattern))

lemma Named.tail {c : Char} {p : Text} (h : Named (c :: p)) : Named p :=
  fun hp => h (hp.trans (List.suffix_cons c p).isInfix)

lemma Named.head {p : Text} (h : Named (lbrace :: p)) : p.head? ≠ some rbrace := by
  intro hp
  obtain ⟨q, rfl⟩ := List.head?_eq_some_iff.mp hp
  exact h ⟨[], q, rfl⟩

/-- A constant between any two parameters. -/
def Gapped : List (Text × Text) → Prop
  | [] | [_] => True
  | p :: q :: params => p.2 ≠ [] ∧ Gapped (q :: params)

def constParts (params : List (Text × Text)) : List Text := (params.map (·.2)).filter (· ≠ [])

def leadPart (lead : Text) : List Text := if lead = [] then [] else [lead]

section Dividing

lemma plain_nil : Plain [] := ⟨by simp, by simp⟩

lemma plain_cons {c : Char} {s : Text} (h : c ≠ lbrace) (h' : c ≠ rbrace) (hs : Plain s) :
    Plain (c :: s) := by
  constructor
  · simpa using ⟨Ne.symm h, hs.1⟩
  · simpa using ⟨Ne.symm h', hs.2⟩

/-- The parameters behind the constant that is read. -/
structure Divided (pattern acc : Text) (consts keys : List Text) (pieces : Pieces) : Prop where
  exists_template : ∃ t : Template, t.render = pattern ∧ Gapped t.params ∧
    pieces.const_components = consts ++ leadPart (acc ++ t.lead) ++ constParts t.params ∧
    pieces.param_keys = keys ++ t.params.map (·.1)

/-- The same inside a parameter whose name so far is `name`. -/
structure DividedInside (pattern name : Text) (consts keys : List Text) (pieces : Pieces) :
    Prop where
  exists_rest : ∃ (name' const : Text) (params : List (Text × Text)),
    pattern = name' ++ rbrace :: (const ++ renderParams params) ∧ Plain name' ∧
    name ++ name' ≠ [] ∧ Plain const ∧ (∀ p ∈ params, Plain p.1 ∧ Plain p.2 ∧ p.1 ≠ []) ∧
    Gapped ((name ++ name', const) :: params) ∧
    pieces.const_components = consts ++ constParts ((name ++ name', const) :: params) ∧
    pieces.param_keys = keys ++ (name ++ name') :: params.map (·.1)

lemma constParts_cons (key const : Text) (params : List (Text × Text)) :
    constParts ((key, const) :: params) = leadPart const ++ constParts params := by
  by_cases h : const = [] <;> simp [constParts, leadPart, h]

lemma gapped_cons {p : Text × Text} {params : List (Text × Text)} :
    Gapped (p :: params) ↔ (params ≠ [] → p.2 ≠ []) ∧ Gapped params := by
  cases params <;> simp [Gapped]

/-- What a division that succeeds has read. -/
lemma divide_inv (pattern : Text) (hnamed : Named pattern) :
    (∀ acc consts keys, (divide pattern (.here acc) none consts keys).status = true →
      Divided pattern acc consts keys (divide pattern (.here acc) none consts keys)) ∧
    (∀ part name consts keys, (name = [] → pattern.head? ≠ some rbrace) →
      (divide pattern part (some name) consts keys).status = true →
      DividedInside pattern name consts keys (divide pattern part (some name) consts keys)) := by
  induction pattern with
  | nil =>
    constructor
    · intro acc consts keys _
      refine ⟨⟨[], [], plain_nil, by simp⟩, rfl, trivial, ?_, by simp [divide]⟩
      by_cases h : acc = [] <;> simp [divide, leadPart, constParts, h, ConstPart.text]
    · intro part name consts keys _ hstatus
      simp [divide] at hstatus
  | cons c rest ih =>
    obtain ⟨ihConst, ihParam⟩ := ih hnamed.tail
    constructor
    · intro acc consts keys hstatus
      unfold divide at hstatus ⊢
      by_cases hl : c = lbrace
      · subst hl
        have hhead : ([] : Text) = [] → rest.head? ≠ some rbrace := fun _ => hnamed.head
        simp only [if_true] at hstatus ⊢
        -- both ways of opening a parameter leave the same constants behind
        have hopen : ∃ part, (if ConstPart.here acc = ConstPart.here [] then
              divide rest ((ConstPart.here acc).push lbrace) (some []) consts keys
            else divide rest (.copy (ConstPart.here acc).text) (some [])
              (consts ++ [(ConstPart.here acc).text]) keys) =
            divide rest part (some []) (consts ++ leadPart acc) keys := by
          by_cases hacc : acc = []
          · exact ⟨(ConstPart.here acc).push lbrace, by simp [hacc, leadPart]⟩
          · exact ⟨.copy acc, by simp [hacc, leadPart, ConstPart.text]⟩
        obtain ⟨part, hopen⟩ := hopen
        rw [hopen] at hstatus ⊢
        obtain ⟨name, const, params, rfl, hname, hne, hconst, hparams, hgap, hcs, hks⟩ :=
          (ihParam part [] _ keys hhead hstatus).exists_rest
        refine ⟨⟨[], (name, const) :: params, plain_nil, ?_⟩, rfl, hgap, ?_, hks⟩
        · simpa using ⟨⟨hname, hconst, hne⟩, fun a b h => hparams (a, b) h⟩
        · simpa using hcs
      · by_cases hr : c = rbrace
        · simp [hr, Ne.symm lbrace_ne_rbrace] at hstatus
        · simp only [if_neg hl, if_neg hr, ConstPart.push] at hstatus ⊢
          obtain ⟨t, ht, hgap, hcs, hks⟩ := (ihConst _ consts keys hstatus).exists_template
          refine ⟨⟨c :: t.lead, t.params, plain_cons hl hr t.lead_plain, t.params_plain⟩, ?_, hgap, ?_,
            hks⟩
          · rw [← ht]
            rfl
          · simpa using hcs
    · intro part name consts keys hhead hstatus
      unfold divide at hstatus ⊢
      by_cases hr : c = rbrace
      · subst hr
        have hne : name ≠ [] := fun h => hhead h rfl
        simp only [if_true] at hstatus ⊢
        by_cases hl : rest.head? = some lbrace
        · simp [hl] at hstatus
        · simp only [if_neg hl, if_neg hne] at hstatus ⊢
          obtain ⟨t, rfl, hgap, hcs, hks⟩ := (ihConst [] consts _ hstatus).exists_template
          refine ⟨[], t.lead, t.params, rfl, plain_nil, by simpa using hne, t.lead_plain,
            t.params_plain, gapped_cons.mpr ⟨?_, hgap⟩, ?_, by simpa using hks⟩
          · -- the check of the character behind the brace
            intro hparams hlead
            obtain ⟨p, params, hp⟩ := List.exists_cons_of_ne_nil hparams
            simp only at hlead
            exact hl (by simp [Template.render, hlead, hp, renderParams])
          · rw [hcs, constParts_cons]
            simp
      · by_cases hl : c = lbrace
        · simp [hl, lbrace_ne_rbrace] at hstatus
        · simp only [if_neg hl, if_neg hr] at hstatus ⊢
          obtain ⟨name', const, params, rfl, hname, hne, hconst, hparams, hgap, hcs, hks⟩ :=
            (ihParam _ (name ++ [c]) consts keys (by simp) hstatus).exists_rest
          exact ⟨c :: name', const, params, rfl, plain_cons hl hr hname, by simp, hconst, hparams,
            by simpa using hgap, by simpa using hcs, by simpa using hks⟩

/-- A text without braces goes to the constant that is read. -/
lemma divide_plain {s : Text} (h : Plain s) (rest acc : Text) (consts keys : List Text) :
    divide (s ++ rest) (.here acc) none consts keys =
      divide rest (.here (acc ++ s)) none consts keys := by
  induction s generalizing acc with
  | nil => simp
  | cons c s ih =>
    have hl : c ≠ lbrace := fun hc => h.1 (by simp [hc])
    have hr : c ≠ rbrace := fun hc => h.2 (by simp [hc])
    have hs : Plain s := ⟨fun hs => h.1 (by simp [hs]), fun hs => h.2 (by simp [hs])⟩
    simp [divide, hl, hr, ConstPart.push, ih hs]

/-- Inside of a parameter it goes to the name. -/
lemma divide_name {s : Text} (h : Plain s) (rest name : Text) (hne : name ++ s ≠ [])
    (hgap : rest.head? ≠ some lbrace) (part : ConstPart) (consts keys : List Text) :
    divide (s ++ rbrace :: rest) part (some name) consts keys =
      divide rest (.here []) none consts (keys ++ [name ++ s]) := by
  induction s generalizing name part with
  | nil =>
    have hname : name ≠ [] := by simpa using hne
    simp [divide, hgap, hname]
  | cons c s ih =>
    have hl : c ≠ lbrace := fun hc => h.1 (by simp [hc])
    have hr : c ≠ rbrace := fun hc => h.2 (by simp [hc])
    have hs : Plain s := ⟨fun hs => h.1 (by simp [hs]), fun hs => h.2 (by simp [hs])⟩
    simp [divide, hl, hr, ih hs (name ++ [c]) (by simp)]

lemma divide_open (rest acc : Text) (consts keys : List Text) :
    ∃ part, divide (lbrace :: rest) (.here acc) none consts keys =
      divide rest part (some []) (consts ++ leadPart acc) keys := by
  by_cases hacc : acc = []
  · exact ⟨.here [lbrace], by simp [divide, hacc, leadPart, ConstPart.push]⟩
  · exact ⟨.copy acc, by simp [divide, hacc, leadPart, ConstPart.text]⟩

/-- The pieces of a template. -/
lemma divide_render {lead : Text} (hlead : Plain lead) (params : List (Text × Text))
    (hparams : ∀ p ∈ params, Plain p.1 ∧ Plain p.2 ∧ p.1 ≠ []) (hgap : Gapped params)
    (acc : Text) (consts keys : List Text) :
    divide (lead ++ renderParams params) (.here acc) none consts keys =
      ⟨true, consts ++ leadPart (acc ++ lead) ++ constParts params, keys ++ params.map (·.1)⟩ := by
  rw [divide_plain hlead]
  generalize acc ++ lead = acc
  induction params generalizing acc consts keys with
  | nil => by_cases h : acc = [] <;> simp [renderParams, divide, leadPart, constParts, h,
      ConstPart.text]
  | cons p params ih =>
    obtain ⟨key, constant⟩ := p
    obtain ⟨hkey, hconstant, hne⟩ := hparams (key, constant) (by simp)
    have hrest : ∀ p ∈ params, Plain p.1 ∧ Plain p.2 ∧ p.1 ≠ [] :=
      fun q hq => hparams q (by simp [hq])
    obtain ⟨hconst, hgap⟩ := gapped_cons.mp hgap
    have hhead : (constant ++ renderParams params).head? ≠ some lbrace := by
      cases constant with
      | nil =>
        cases params with
        | nil => simp [renderParams]
        | cons q params => exact absurd rfl (hconst (by simp))
      | cons x constant =>
        have hx : x ≠ lbrace := by
          rintro rfl
          exact hconstant.1 (by simp)
        simpa using hx
    obtain ⟨part, hopen⟩ := divide_open
      (key ++ rbrace :: (constant ++ renderParams params)) acc consts keys
    rw [renderParams, hopen, divide_name hkey _ [] (by simpa using hne) hhead,
      divide_plain hconstant, ih hrest hgap, constParts_cons]
    simp

end Dividing

section Reading

variable {params : List (Text × Text)}

/-- The values up to the first place where the constant behind each begins. -/
def readValues : List (Text × Text) → Text → Option (List Text)
  | [], url => if url = [] then some [] else none
  | (_, const) :: params, url =>
    if const = [] then some [url]
    else (search const url).bind fun found =>
      (readValues params (found.drop const.length)).map (upTo url found :: ·)

def readTemplate (t : Template) (url : Text) : Option (List Text) :=
  if t.lead <+: url then readValues t.params (url.drop t.lead.length) else none

lemma readValues_fill (hgap : Gapped params) {url : Text} {values : List Text}
    (h : readValues params url = some values) :
    values.length = params.length ∧ fillParams params values = url := by
  induction params generalizing url values with
  | nil =>
    by_cases hurl : url = []
    · simp [readValues, hurl] at h
      simp [← h, hurl, fillParams]
    · simp [readValues, hurl] at h
  | cons p params ih =>
    obtain ⟨key, const⟩ := p
    obtain ⟨hconst, hgap⟩ := gapped_cons.mp hgap
    by_cases hempty : const = []
    · simp only [readValues, if_pos hempty, Option.some.injEq] at h
      have hparams : params = [] := by
        by_contra hne
        exact hconst hne hempty
      simp [← h, hparams, hempty, fillParams]
    · simp only [readValues, if_neg hempty, Option.bind_eq_some_iff, Option.map_eq_some_iff] at h
      obtain ⟨found, hfound, rest, hrest, rfl⟩ := h
      obtain ⟨value, rfl, hat, -⟩ := search_eq_some hfound
      obtain ⟨hlength, hfill⟩ := ih hgap hrest
      obtain ⟨behind, rfl⟩ := hat
      refine ⟨by simp [hlength], ?_⟩
      simp only [fillParams, upTo_append, hfill, List.drop_left]

lemma readTemplate_fill {t : Template} (hgap : Gapped t.params) {url : Text}
    {values : List Text} (h : readTemplate t url = some values) :
    values.length = t.params.length ∧ t.fill values = url := by
  unfold readTemplate at h
  split at h
  · next hlead =>
      obtain ⟨hlength, hfill⟩ := readValues_fill hgap h
      obtain ⟨rest, rfl⟩ := hlead
      refine ⟨hlength, ?_⟩
      rw [Template.fill, hfill, List.drop_left]
  · cases h

def endsWithParam (params : List (Text × Text)) : Bool := params.getLast?.any (·.2 = [])

/-- The last steps of the match. -/
def finish (pattern_ending_with_param : Bool) (fit : Fit) : Bool × List Text :=
  if pattern_ending_with_param then (fit.status, fit.param_values ++ fit.param_value.toList)
  else (fit.status && fit.url_c.isEmpty, fit.param_values)

lemma endsWithParam_cons (p : Text × Text) (h : params ≠ []) :
    endsWithParam (p :: params) = endsWithParam params := by
  obtain ⟨q, params, rfl⟩ := List.exists_cons_of_ne_nil h
  simp [endsWithParam]

lemma fit_params (hne : params ≠ []) (hgap : Gapped params) (url : Text) (values : List Text) :
    (∀ read, readValues params url = some read →
      finish (endsWithParam params) (fitConstants (constParts params) (some url) url values) =
        (true, values ++ read)) ∧
    (readValues params url = none →
      (finish (endsWithParam params)
        (fitConstants (constParts params) (some url) url values)).1 = false) := by
  induction params generalizing url values with
  | nil => exact absurd rfl hne
  | cons p params ih =>
    obtain ⟨key, const⟩ := p
    obtain ⟨hconst, hgap⟩ := gapped_cons.mp hgap
    by_cases hempty : const = []
    · have hparams : params = [] := by
        by_contra hne
        exact hconst hne hempty
      subst hempty hparams
      simp [readValues, constParts, fitConstants, finish, endsWithParam]
    · rw [constParts_cons, leadPart, if_neg hempty, List.singleton_append]
      simp only [readValues, if_neg hempty, fitConstants]
      cases hfound : search const url with
      | none => by_cases hend : endsWithParam ((key, const) :: params) <;> simp [finish, hend]
      | some found =>
        simp only [Option.bind_some, Option.map_eq_some_iff, Option.map_eq_none_iff]
        by_cases hparams : params = []
        · subst hparams
          by_cases hrest : found.drop const.length = [] <;>
            simp [readValues, constParts, fitConstants, finish, endsWithParam, hempty, hrest]
        · rw [endsWithParam_cons _ hparams]
          obtain ⟨hsome, hnone⟩ := ih hparams hgap (found.drop const.length)
            (values ++ [upTo url found])
          refine ⟨?_, hnone⟩
          rintro _ ⟨read, hread, rfl⟩
          rw [hsome read hread]
          simp

lemma renderParams_getLast (t : Template) :
    (t.render.getLast? = some rbrace) ↔ endsWithParam t.params = true := by
  obtain ⟨lead, params, hlead, hparams⟩ := t
  simp only [Template.render]
  induction params generalizing lead with
  | nil =>
    have hlast : lead.getLast? ≠ some rbrace := fun h => hlead.2 (List.mem_of_getLast? h)
    simpa [renderParams, endsWithParam] using hlast
  | cons p params ih =>
    obtain ⟨key, const⟩ := p
    obtain ⟨-, hconst, -⟩ := hparams (key, const) (by simp)
    have hrest : ∀ p ∈ params, Plain p.1 ∧ Plain p.2 ∧ p.1 ≠ [] :=
      fun q hq => hparams q (by simp [hq])
    by_cases hne : params = []
    · subst hne
      cases const using List.reverseRecOn with
      | nil => simp [renderParams, endsWithParam, List.getLast?_append, List.getLast?_cons]
      | append_singleton const c =>
        have hc : c ≠ rbrace := by
          rintro rfl
          exact hconst.2 (by simp)
        simpa [renderParams, endsWithParam, List.getLast?_append, List.getLast?_cons] using hc
    · rw [endsWithParam_cons _ hne, ← ih const hconst hrest]
      obtain ⟨q, params, rfl⟩ := List.exists_cons_of_ne_nil hne
      have htext : renderParams (q :: params) ≠ [] := by simp [renderParams]
      rw [renderParams, List.getLast?_append_of_ne_nil _ (by simp), List.getLast?_cons,
        List.getLast?_append_of_ne_nil _ (by simp), List.getLast?_cons,
        List.getLast?_append_of_ne_nil _ htext]
      obtain ⟨c, hc⟩ := Option.isSome_iff_exists.mp (List.getLast?_isSome.mpr htext)
      simp [hc]

end Reading

section Matching

lemma render_head (t : Template) (h : t.params ≠ []) :
    t.render.head? = some lbrace ↔ t.lead = [] := by
  obtain ⟨lead, params, hlead, hparams⟩ := t
  obtain ⟨p, params, rfl⟩ := List.exists_cons_of_ne_nil h
  cases lead with
  | nil => simp [Template.render, renderParams]
  | cons c lead =>
    have hc : c ≠ lbrace := by
      rintro rfl
      exact hlead.1 (by simp)
    simpa [Template.render] using hc

lemma match_consts {t : Template} {const : Text} {consts keys : List Text}
    (h : divide t.render (.here []) none [] [] = ⟨true, const :: consts, keys⟩) (url : Text) :
    matchUrlComponentWithPattern t.render url =
      let r := finish (endsWithParam t.params) (fitConstants (const :: consts)
        (if t.render.head? = some lbrace then some url else none) url [])
      ⟨r.1, keys, r.2⟩ := by
  unfold matchUrlComponentWithPattern finish
  rw [h]
  by_cases hend : endsWithParam t.params = true
  · simp [hend, (renderParams_getLast t).mpr hend]
  · simp [hend, mt (renderParams_getLast t).mp hend]

/-- How the match of a template with parameters ends, from the loop at its first one. -/
lemma match_of_fit {params : List (Text × Text)} (hne : params ≠ []) (hgap : Gapped params)
    {url : Text} {m : Match} {keys : List Text}
    (hm : m =
      let r := finish (endsWithParam params) (fitConstants (constParts params) (some url) url [])
      ⟨r.1, keys, r.2⟩) :
    (∀ values, readValues params url = some values → m = ⟨true, keys, values⟩) ∧
      (readValues params url = none → m.status = false) := by
  obtain ⟨hsome, hnone⟩ := fit_params hne hgap url []
  subst hm
  refine ⟨fun values hvalues => ?_, hnone⟩
  simp [hsome values hvalues]

/-- The match on a template, in terms of the values that are read. -/
lemma match_render {t : Template} (hgap : Gapped t.params) (hne : t.render ≠ []) (url : Text) :
    (∀ values, readTemplate t url = some values →
      matchUrlComponentWithPattern t.render url = ⟨true, t.params.map (·.1), values⟩) ∧
    (readTemplate t url = none → (matchUrlComponentWithPattern t.render url).status = false) := by
  have hpieces : divide t.render (.here []) none [] [] =
      ⟨true, leadPart t.lead ++ constParts t.params, t.params.map (·.1)⟩ := by
    have h := divide_render t.lead_plain t.params t.params_plain hgap [] [] []
    simpa [Template.render] using h
  by_cases hlead : t.lead = []
  · -- a parameter is open from the start
    have hparams : t.params ≠ [] := by
      intro hparams
      exact hne (by simp [Template.render, hlead, hparams, renderParams])
    have hread : readTemplate t url = readValues t.params url := by simp [readTemplate, hlead]
    rw [hread]
    rw [hlead, leadPart, if_pos rfl, List.nil_append] at hpieces
    by_cases hconsts : constParts t.params = []
    · -- no constant: the component itself is the value
      obtain ⟨⟨key, const⟩, params, hp⟩ := List.exists_cons_of_ne_nil hparams
      have hempty : const = [] := by
        by_contra hconst
        rw [hp, constParts_cons, leadPart, if_neg hconst] at hconsts
        cases hconsts
      rw [hconsts] at hpieces
      simp [matchUrlComponentWithPattern, hpieces, hp, readValues, hempty]
    · obtain ⟨const, consts, hc⟩ := List.exists_cons_of_ne_nil hconsts
      rw [hc] at hpieces
      apply match_of_fit hparams hgap
      rw [match_consts hpieces, if_pos ((render_head t hparams).mpr hlead), hc]
  · -- the lead has to be at the front of the component
    rw [leadPart, if_neg hlead, List.singleton_append] at hpieces
    have hhead : ¬ t.render.head? = some lbrace := by
      obtain ⟨c, lead, hc⟩ := List.exists_cons_of_ne_nil hlead
      have hplain := t.lead_plain.1
      rw [hc] at hplain
      simp only [Template.render, hc, List.cons_append, List.head?_cons, Option.some.injEq]
      rintro rfl
      exact hplain (by simp)
    have hmatch := match_consts hpieces url
    rw [if_neg hhead] at hmatch
    unfold readTemplate
    by_cases hpre : t.lead <+: url
    · rw [if_pos hpre]
      simp only [fitConstants, if_pos hpre] at hmatch
      by_cases hparams : t.params = []
      · rw [hmatch, hparams]
        by_cases hrest : url.drop t.lead.length = [] <;>
          simp [hrest, readValues, constParts, fitConstants, finish, endsWithParam]
      · exact match_of_fit hparams hgap hmatch
    · rw [if_neg hpre, hmatch]
      simp only [fitConstants, if_neg hpre]
      by_cases hend : endsWithParam t.params = true <;> simp [finish, hend]

lemma divided_of_match {pattern url : Text}
    (h : (matchUrlComponentWithPattern pattern url).status = true) :
    (divide pattern (.here []) none [] []).status = true := by
  by_contra hnot
  rw [Bool.not_eq_true] at hnot
  simp [matchUrlComponentWithPattern, hnot] at h

/-- What a pattern that matches is, behind a text without braces. -/
lemma template_of_match (front : Text) {pattern url : Text} (hfront : Plain front) (hnamed : Named pattern)
    (h : (matchUrlComponentWithPattern (front ++ pattern) url).status = true) :
    ∃ t : Template, t.render = pattern ∧ Gapped t.params := by
  have hdivided := divided_of_match h
  rw [divide_plain hfront, List.nil_append] at hdivided
  obtain ⟨t, ht, hgap, -⟩ := ((divide_inv pattern hnamed).1 front [] [] hdivided).exists_template
  exact ⟨t, ht, hgap⟩

def Template.behind (front : Text) (hfront : Plain front) (t : Template) : Template where
  lead := front ++ t.lead
  params := t.params
  lead_plain := ⟨by simp [hfront.1, t.lead_plain.1], by simp [hfront.2, t.lead_plain.2]⟩
  params_plain := t.params_plain

lemma readTemplate_behind {front : Text} (hfront : Plain front) (t : Template) (url : Text) :
    readTemplate (Template.behind front hfront t) (front ++ url) = readTemplate t url := by
  have hdrop : (front ++ url).drop (front ++ t.lead).length = url.drop t.lead.length := by
    rw [List.length_append, ← List.drop_drop, List.drop_left]
  simp [readTemplate, Template.behind, hdrop]

lemma render_behind {front : Text} (hfront : Plain front) (t : Template) :
    (Template.behind front hfront t).render = front ++ t.render := by
  simp [Template.render, Template.behind]

/-- **A match is a reading.** The pattern is a template, the keys are the names of its
parameters, and the values are read for them. -/
theorem match_reads {front pattern url : Text} (hfront : Plain front) (hnamed : Named pattern)
    (hne : front ++ pattern ≠ [])
    (h : (matchUrlComponentWithPattern (front ++ pattern) url).status = true) :
    ∃ t : Template, t.render = front ++ pattern ∧ Gapped t.params ∧
      (matchUrlComponentWithPattern (front ++ pattern) url).param_keys = t.params.map (·.1) ∧
      readTemplate t url =
        some (matchUrlComponentWithPattern (front ++ pattern) url).param_values := by
  obtain ⟨t, rfl, hgap⟩ := template_of_match _ hfront hnamed h
  obtain ⟨hsome, hnone⟩ := match_render (t := Template.behind front hfront t) hgap
    (by rwa [render_behind]) url
  rw [render_behind] at hsome hnone
  cases hread : readTemplate (Template.behind front hfront t) url with
  | none => simp [hnone hread] at h
  | some values =>
    have hmatch := hsome values hread
    exact ⟨_, render_behind hfront t, hgap, by rw [hmatch], by rw [hmatch, hread]⟩

lemma strchr_isSome {s : Text} {c : Char} : (strchr s c).isSome = true ↔ c ∈ s := by
  constructor
  · intro h
    by_contra hc
    rw [strchr_none hc] at h
    cases h
  · intro hc
    obtain ⟨a, b, rfl⟩ := List.append_of_mem hc
    by_contra hnone
    rw [Bool.not_eq_true, Option.isSome_eq_false_iff, Option.isNone_iff_eq_none, strchr,
      search_eq_none_iff] at hnone
    exact hnone ⟨a, b, by simp⟩

lemma isParam_render (t : Template) : isParam t.render = true ↔ t.params ≠ [] := by
  obtain ⟨lead, params, hlead, hparams⟩ := t
  cases params with
  | nil => simp [isParam, Template.render, renderParams, strchr_none hlead.1]
  | cons p params =>
    obtain ⟨key, const⟩ := p
    simp only [isParam, Template.render, renderParams, strchr_append _ hlead.1, ne_eq, reduceCtorEq,
      not_false_eq_true, iff_true]
    rw [strchr_isSome]
    simp

lemma match_constant {front pattern url : Text} (hfront : Plain front) (hnamed : Named pattern)
    (hne : front ++ pattern ≠ []) (hconst : isParam (front ++ pattern) = false)
    (h : (matchUrlComponentWithPattern (front ++ pattern) url).status = true) :
    front ++ pattern = url := by
  obtain ⟨t, ht, hgap, -, hread⟩ := match_reads hfront hnamed hne h
  rw [← ht] at hconst ⊢
  have hparams : t.params = [] := by
    by_contra hp
    rw [(isParam_render t).mpr hp] at hconst
    cases hconst
  obtain ⟨-, hfill⟩ := readTemplate_fill hgap hread
  rw [← hfill, Template.fill, Template.render, hparams]
  simp [fillParams, renderParams]

/-- Behind a text without braces a parameter matches what it matches without that text. -/
lemma match_behind {front pattern : Text} (hfront : Plain front) (hne : pattern ≠ [])
    (hnamed : Named pattern) (url : Text)
    (h : (matchUrlComponentWithPattern (front ++ pattern) (front ++ url)).status = true ∨
      (matchUrlComponentWithPattern pattern url).status = true) :
    matchUrlComponentWithPattern (front ++ pattern) (front ++ url) =
      matchUrlComponentWithPattern pattern url := by
  obtain ⟨t, rfl, hgap⟩ : ∃ t : Template, t.render = pattern ∧ Gapped t.params := by
    rcases h with h | h
    · exact template_of_match _ hfront hnamed h
    · exact template_of_match [] plain_nil hnamed h
  have hrender := render_behind hfront t
  obtain ⟨hsome, hnone⟩ := match_render hgap hne url
  obtain ⟨hsome', hnone'⟩ := match_render (t := Template.behind front hfront t) hgap
    (by simp [hrender, hne]) (front ++ url)
  rw [readTemplate_behind, hrender] at hsome' hnone'
  cases hread : readTemplate t url with
  | none => simp [hnone hread, hnone' hread] at h
  | some values =>
    rw [hsome values hread, hsome' values hread]
    rfl

/-- A pattern behind one text matches nothing behind another, where both end at a
character they do not contain. -/
lemma match_other_front {front front' pattern url : Text} {c : Char} (hc : c ∉ front)
    (hc' : c ∉ front') (hfront : Plain (front ++ [c])) (hnamed : Named pattern)
    (h : (matchUrlComponentWithPattern (front ++ c :: pattern) (front' ++ c :: url)).status = true) :
    front = front' := by
  have hcons : front ++ c :: pattern = (front ++ [c]) ++ pattern := by simp
  rw [hcons] at h
  obtain ⟨t, rfl, hgap⟩ := template_of_match _ hfront hnamed h
  have hrender := render_behind hfront t
  obtain ⟨-, hnone⟩ := match_render (t := Template.behind (front ++ [c]) hfront t) hgap
    (by simp [hrender]) (front' ++ c :: url)
  rw [hrender] at hnone
  by_contra hne
  have hpre : ¬ (front ++ [c]) ++ t.lead <+: front' ++ c :: url := by
    rintro ⟨rest, hrest⟩
    have hsplit : front ++ c :: (t.lead ++ rest) = front' ++ c :: url := by simpa using hrest
    exact hne (split_at_first hc hc' hsplit).1
  have hread : readTemplate (Template.behind (front ++ [c]) hfront t) (front' ++ c :: url) = none :=
    if_neg hpre
  rw [hnone hread] at h
  cases h

end Matching

end Axis2C.RestDispatch
