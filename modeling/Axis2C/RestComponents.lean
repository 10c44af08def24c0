import Axis2C.RestPatterns

/-!
# URL components and their patterns

A component that some values turn a pattern into is matched unless the pattern ends with a
constant that also begins earlier in what is left for the last parameter: the loop takes the
first place of every constant and does not come back.
-/
namespace Axis2C.RestDispatch
open FirstOccurrence RestTemplate

section Last

variable {p : Text × Text} {params : List (Text × Text)} {url rest : Text}

/-- What is left for the last parameter, with each constant in front at its first place. -/
def leftForLast : List (Text × Text) → Text → Option Text
  | [], _ => none
  | [_], url => some url
  | (_, const) :: p :: params, url =>
    (search const url).bind fun found => leftForLast (p :: params) (found.drop const.length)

def lastConst (params : List (Text × Text)) : Text := (params.getLast?.map (·.2)).getD []

def OnlyAtEnd (const rest : Text) : Prop := ∀ behind, const ++ behind <:+ rest → behind = []

/-- A text that ends with the constant is read to its end exactly when this is its first place. -/
lemma search_at_end_iff {const : Text} :
    search const rest = some const ↔ const <:+ rest ∧ OnlyAtEnd const rest := by
  constructor
  · intro h
    obtain ⟨a, rfl, -, hfirst⟩ := search_eq_some h
    refine ⟨List.suffix_append a const, fun behind ⟨b, hb⟩ => ?_⟩
    have hle := hfirst b (const ++ behind) hb.symm (List.prefix_append _ _)
    have hlength := congrArg List.length hb
    simp only [List.length_append] at hlength
    exact List.eq_nil_of_length_eq_zero (by omega)
  · rintro ⟨⟨a, rfl⟩, honly⟩
    refine search_append ⟨List.prefix_rfl, fun b u hbu hu => ?_⟩
    obtain ⟨behind, rfl⟩ := hu
    have hend := honly behind ⟨b, hbu.symm⟩
    have hlength := congrArg List.length hbu
    simp only [List.length_append, hend, List.length_nil] at hlength
    omega

lemma lastConst_cons (q : Text × Text) : lastConst (q :: p :: params) = lastConst (p :: params) := by
  simp [lastConst]

lemma readValues_isSome_iff (hgap : Gapped (p :: params)) :
    (∃ values, readValues (p :: params) url = some values) ↔
      ∃ rest ∈ leftForLast (p :: params) url, lastConst (p :: params) ≠ [] →
        search (lastConst (p :: params)) rest = some (lastConst (p :: params)) := by
  induction params generalizing p url with
  | nil =>
    obtain ⟨key, const⟩ := p
    by_cases hempty : const = []
    · simp [readValues, leftForLast, lastConst, hempty]
    · have hread : readValues [(key, const)] url = (search const url).bind fun found =>
          (readValues [] (found.drop const.length)).map (upTo url found :: ·) := by
        rw [readValues, if_neg hempty]
      rw [hread]
      constructor
      · rintro ⟨values, hvalues⟩
        obtain ⟨found, hfound, hvalues⟩ := Option.bind_eq_some_iff.mp hvalues
        obtain ⟨rest, hrest, -⟩ := Option.map_eq_some_iff.mp hvalues
        obtain ⟨-, -, ⟨behind, rfl⟩, -⟩ := search_eq_some hfound
        have hbehind : behind = [] := by
          by_contra hne
          simp [readValues, hne] at hrest
        refine ⟨url, rfl, fun _ => ?_⟩
        rw [hbehind, List.append_nil] at hfound
        exact hfound
      · rintro ⟨rest, hrest, hfound⟩
        obtain rfl : url = rest := Option.some.inj hrest
        have hfound : search const url = some const := hfound hempty
        exact ⟨[upTo url const], by simp [hfound, readValues]⟩
  | cons q params ih =>
    obtain ⟨key, const⟩ := p
    obtain ⟨hconst, hgap⟩ := gapped_cons.mp hgap
    have hne : const ≠ [] := hconst (by simp)
    rw [lastConst_cons, readValues, if_neg hne, leftForLast]
    cases hfound : search const url with
    | none => simp
    | some found =>
      simp only [Option.bind_some, Option.map_eq_some_iff]
      rw [← ih hgap]
      constructor
      · rintro ⟨values, rest, hrest, -⟩
        exact ⟨rest, hrest⟩
      · rintro ⟨rest, hrest⟩
        exact ⟨_, rest, hrest, rfl⟩

/-- Where some values turn the pattern into an end of the text, the text ends with the last
constant behind the first places of the others. -/
lemma leftForLast_of_fill {values : List Text} (hlength : values.length = params.length + 1)
    (hfill : fillParams (p :: params) values <:+ url) :
    ∃ rest ∈ leftForLast (p :: params) url, lastConst (p :: params) <:+ rest := by
  induction params generalizing p url values with
  | nil =>
    obtain ⟨value, rfl⟩ := List.length_eq_one_iff.mp hlength
    refine ⟨url, rfl, (List.suffix_append value _).trans (?_ : value ++ p.2 <:+ url)⟩
    simpa [fillParams] using hfill
  | cons q params ih =>
    obtain ⟨key, const⟩ := p
    obtain ⟨value, values, rfl⟩ := List.exists_cons_of_length_eq_add_one hlength
    obtain ⟨front, rfl⟩ := hfill
    rw [lastConst_cons, leftForLast]
    have hat : const <:+: front ++ fillParams ((key, const) :: q :: params) (value :: values) :=
      ⟨front ++ value, fillParams (q :: params) values, by simp [fillParams]⟩
    cases hfound : search const (front ++ fillParams ((key, const) :: q :: params) (value :: values))
      with
    | none => exact absurd hat (search_eq_none_iff.mp hfound)
    | some found =>
      obtain ⟨a, hurl, ⟨behind, rfl⟩, hfirst⟩ := search_eq_some hfound
      have hle := hfirst (front ++ value) (const ++ fillParams (q :: params) values)
        (by rw [← hurl]; simp [fillParams]) (List.prefix_append _ _)
      -- the first place is not behind the one that the values leave
      have hsuffix : fillParams (q :: params) values <:+ behind := by
        have hsplit : (front ++ value) ++ (const ++ fillParams (q :: params) values) =
            a ++ (const ++ behind) := by rw [← hurl]; simp [fillParams]
        have htotal := congrArg List.length hsplit
        simp only [List.length_append] at htotal hle
        have hvalues : fillParams (q :: params) values <:+ a ++ (const ++ behind) := by
          rw [← hsplit, ← List.append_assoc]
          exact List.suffix_append _ _
        have hbehind : behind <:+ a ++ (const ++ behind) := by
          rw [← List.append_assoc]
          exact List.suffix_append _ _
        exact List.suffix_of_suffix_length_le hvalues hbehind (by omega)
      rw [Option.bind_some, List.drop_left]
      exact ih (by simpa using hlength) hsuffix

/-- A text that is left with the last constant at its end comes from values. -/
lemma fill_of_leftForLast (h : rest ∈ leftForLast (p :: params) url)
    (hend : lastConst (p :: params) <:+ rest) :
    ∃ values, values.length = params.length + 1 ∧ fillParams (p :: params) values = url := by
  induction params generalizing p url with
  | nil =>
    obtain rfl : url = rest := Option.some.inj h
    obtain ⟨value, rfl⟩ := hend
    exact ⟨[value], rfl, by simp [fillParams, lastConst]⟩
  | cons q params ih =>
    obtain ⟨key, const⟩ := p
    obtain ⟨found, hfound, hrest⟩ := Option.bind_eq_some_iff.mp h
    obtain ⟨value, rfl, ⟨behind, rfl⟩, -⟩ := search_eq_some hfound
    rw [lastConst_cons] at hend
    rw [List.drop_left] at hrest
    obtain ⟨values, hlength, hfill⟩ := ih hrest hend
    exact ⟨value :: values, by simp [hlength], by simp [fillParams, hfill]⟩

end Last

section Components

/-- A pattern component: a template with a constant between any two parameters. -/
structure Pattern extends Template where
  gapped : Gapped params

variable (p : Pattern) (url : Text)

/-- How a component should be matched. Without parameters only the component that is equal to
the pattern is. -/
structure MatchedRight : Prop where
  constant : p.params = [] →
    (matchUrlComponentWithPattern p.render url).status = true → p.render = url
  succeeds_iff : p.params ≠ [] → ((matchUrlComponentWithPattern p.render url).status = true ↔
    ∃ values : List Text, values.length = p.params.length ∧ p.fill values = url)
  result : p.params ≠ [] → ∀ m, m = matchUrlComponentWithPattern p.render url → m.status = true →
    m.param_keys = p.params.map (·.1) ∧ m.param_values.length = m.param_keys.length ∧
      p.fill m.param_values = url

/-- The pattern is not empty, or the component is empty too; and no earlier place for the constant
at the end of the pattern, in what is left for the last parameter of a component that ends with
it. -/
structure Unambiguous : Prop where
  empty : p.render = [] → url = []
  last : p.params ≠ [] → lastConst p.params ≠ [] → ∀ behind, url = p.lead ++ behind →
    ∀ rest ∈ leftForLast p.params behind, lastConst p.params <:+ rest →
      OnlyAtEnd (lastConst p.params) rest

variable {p url}

lemma Pattern.render_ne_nil (h : p.params ≠ []) : p.render ≠ [] := by
  obtain ⟨q, params, hp⟩ := List.exists_cons_of_ne_nil h
  simp [Template.render, hp, renderParams]

/-- A match with parameters is a reading of the component. -/
lemma status_iff (hne : p.render ≠ []) : (matchUrlComponentWithPattern p.render url).status = true ↔
    ∃ values, readTemplate p.toTemplate url = some values := by
  obtain ⟨hsome, hnone⟩ := match_render p.gapped hne url
  cases hread : readTemplate p.toTemplate url with
  | none => simp [hnone hread]
  | some values => simp [hsome values hread]

lemma result_of_status (hne : p.render ≠ [])
    (h : (matchUrlComponentWithPattern p.render url).status = true) :
    matchUrlComponentWithPattern p.render url = ⟨true, p.params.map (·.1),
      (matchUrlComponentWithPattern p.render url).param_values⟩ ∧
      (matchUrlComponentWithPattern p.render url).param_values.length = p.params.length ∧
      p.fill (matchUrlComponentWithPattern p.render url).param_values = url := by
  obtain ⟨values, hvalues⟩ := (status_iff hne).mp h
  have hmatch := (match_render p.gapped hne url).1 values hvalues
  obtain ⟨hlength, hfill⟩ := readTemplate_fill p.gapped hvalues
  rw [hmatch]
  exact ⟨rfl, hlength, hfill⟩

lemma readTemplate_append (lead : Text) (t : Template) (h : t.lead = lead) (behind : Text) :
    readTemplate t (lead ++ behind) = readValues t.params behind := by
  rw [readTemplate, h, if_pos (List.prefix_append _ _), List.drop_left]

/-- **Matching components.** A component is matched as it should be exactly when the pattern is
not empty where the component is not, and its last constant does not begin too early. -/
theorem matchedRight_iff (p : Pattern) (url : Text) : MatchedRight p url ↔ Unambiguous p url := by
  constructor
  · intro h
    refine ⟨fun hrender => ?_, fun hparams hlast behind hurl rest hrest hend => ?_⟩
    · have hparams : p.params = [] := by
        by_contra hne
        exact Pattern.render_ne_nil hne hrender
      have hempty := h.constant hparams
      rw [hrender] at hempty
      exact (hempty rfl).symm
    · obtain ⟨q, params, hp⟩ := List.exists_cons_of_ne_nil hparams
      have hgap := p.gapped
      rw [hp] at hrest hend hlast hgap ⊢
      obtain ⟨values, hlength, hfill⟩ := fill_of_leftForLast hrest hend
      have hstatus := (h.succeeds_iff hparams).mpr
        ⟨values, by rw [hp, hlength, List.length_cons], by rw [Template.fill, hp, hfill, hurl]⟩
      rw [status_iff (Pattern.render_ne_nil hparams), hurl, readTemplate_append _ _ rfl, hp,
        readValues_isSome_iff hgap] at hstatus
      obtain ⟨rest', hrest', hfound⟩ := hstatus
      obtain rfl : rest' = rest := Option.some.inj (hrest'.symm.trans hrest)
      exact (search_at_end_iff.mp (hfound hlast)).2
  · intro h
    refine ⟨fun hparams hstatus => ?_, fun hparams => ⟨fun hstatus => ?_, ?_⟩, ?_⟩
    · by_cases hrender : p.render = []
      · rw [hrender, h.empty hrender]
      · obtain ⟨-, -, hfill⟩ := result_of_status hrender hstatus
        rw [← hfill]
        simp [Template.render, Template.fill, hparams, renderParams, fillParams]
    · obtain ⟨-, hlength, hfill⟩ := result_of_status (Pattern.render_ne_nil hparams) hstatus
      exact ⟨_, hlength, hfill⟩
    · rintro ⟨values, hlength, rfl⟩
      obtain ⟨q, params, hp⟩ := List.exists_cons_of_ne_nil hparams
      have hgap := p.gapped
      rw [hp] at hgap hlength
      rw [status_iff (Pattern.render_ne_nil hparams), Template.fill, readTemplate_append _ _ rfl, hp,
        readValues_isSome_iff hgap]
      obtain ⟨rest, hrest, hend⟩ := leftForLast_of_fill hlength List.suffix_rfl
      have hlast := h.last hparams
      rw [Template.fill, hp] at hlast
      exact ⟨rest, hrest, fun hne => search_at_end_iff.mpr ⟨hend, hlast hne _ rfl rest hrest hend⟩⟩
    · rintro hparams m rfl hstatus
      obtain ⟨hkeys, hlength, hfill⟩ := result_of_status (Pattern.render_ne_nil hparams) hstatus
      refine ⟨congrArg Match.param_keys hkeys, ?_, hfill⟩
      rw [hlength, congrArg Match.param_keys hkeys, List.length_map]

/-- The pattern `{a}.x` with the component `b.x.x`. -/
theorem doubled_end_not_matched : ¬ MatchedRight
    ⟨⟨[], [(['a'], ['.', 'x'])], plain_nil, by simp [Plain, lbrace, rbrace]⟩, trivial⟩
    ['b', '.', 'x', '.', 'x'] := by
  intro h
  have hmatched := (h.succeeds_iff (by simp)).mpr ⟨[['b', '.', 'x']], rfl, rfl⟩
  exact absurd hmatched (by decide)

end Components

end Axis2C.RestDispatch
