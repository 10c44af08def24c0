import Axis2C.RestLookup

/-!
# REST dispatch finds the right operation

After any sequence of insertions the lookup answers with a template that was inserted
and matches, constants before parameters, and with what its parameters take from the
URL. The one exception: in the table of the first components a template is also found
by its own text, and then the parameters of that component are left out.
-/
namespace Axis2C.RestDispatch
open FirstOccurrence RestTemplate

variable {Op : Type}

section Calls

/-- An HTTP method. -/
structure Method where
  text : Text
  plain : Plain text
  no_slash : '/' ∉ text
  no_colon : ':' ∉ text

instance : DecidableEq Method := fun m m' =>
  decidable_of_iff (m.text = m'.text) ⟨fun h => by cases m; cases m'; simpa using h, fun h => h ▸ rfl⟩

/-- A call of `axis2_core_utils_prepare_rest_mapping`. -/
structure Call (Op : Type) where
  method : Method
  template : Text
  op : Op
  named : Named template

namespace Call

/-- `METHOD:` and the template. -/
def key (c : Call Op) : Text := c.method.text ++ ':' :: c.template

def path (c : Call Op) : List Text := (components c.template).1 :: (components c.template).2

end Call

/-- The calls that succeed, and the map after all of them. -/
def prepareAll : List (Call Op) → List (Text × Mapping Op) →
    List (Call Op) × List (Text × Mapping Op)
  | [], rest_map => ([], rest_map)
  | c :: calls, rest_map =>
    let prepared := prepareRestMapping c.key rest_map c.op
    let all := prepareAll calls prepared.2
    (if prepared.1 then c :: all.1 else all.1, all.2)

def inserted (calls : List (Call Op)) : List (Call Op) := (prepareAll calls []).1

def restMap (calls : List (Call Op)) : List (Text × Mapping Op) := (prepareAll calls []).2

def urlPath (location : Text) : List Text :=
  (components (adjustedUrl location)).1 :: (components (adjustedUrl location)).2

/-- A template for the method has these components. -/
def Stored (calls : List (Call Op)) (method : Method) (path : List Text) : Prop :=
  ∃ c ∈ inserted calls, c.method = method ∧ c.path = path

/-- The operation belongs to a template for the method that matches, with constants where
they lead to a match, and the arrays hold what its parameters take from the URL. -/
def AnswersRight (calls : List (Call Op)) (method : Method) (url : List Text) (op_desc : Op)
    (params : Params) : Prop :=
  ∃ c ∈ inserted calls, c.method = method ∧ c.op = op_desc ∧
    (∃ pairs, AllCapture c.path url pairs ∧ params = Params.ofPairs pairs) ∧
    Prefers (Stored calls method) c.path url

/-- An operation is returned if and only if a template inserted for the method matches,
and then it is a right one. A call that fails changes no path of the map. -/
def DispatchesRight (hash : HashOrder Op) (calls : List (Call Op)) (method : Method)
    (location : Text) : Prop :=
  ∃ op_desc params,
    getRestOpWithMethodAndLocation hash (restMap calls) method.text location =
      some (op_desc, params) ∧
    (op_desc.isSome = true ↔ ∃ c ∈ inserted calls, c.method = method ∧
      List.Forall₂ ComponentMatches c.path (urlPath location)) ∧
    (op_desc = none → params = .none) ∧
    (∀ op, op_desc = some op → AnswersRight calls method (urlPath location) op params) ∧
    ∀ c : Call Op, (prepareRestMapping c.key (restMap calls) c.op).1 = false →
      tableOpAt (prepareRestMapping c.key (restMap calls) c.op).2 = tableOpAt (restMap calls)

/-- The first component of the URL is, letter by letter, the first component of a template
that has a parameter there, and the others match. -/
def TakenLiterally (calls : List (Call Op)) (method : Method) (location : Text) : Prop :=
  ∃ c ∈ inserted calls, c.method = method ∧ isParam (components c.template).1 = true ∧
    (components c.template).1 = (components (adjustedUrl location)).1 ∧
    List.Forall₂ ComponentMatches (components c.template).2
      (components (adjustedUrl location)).2

end Calls

section Runs

lemma Method.front_plain (m : Method) : Plain (m.text ++ [':']) := by
  refine ⟨?_, ?_⟩
  · simpa using ⟨m.plain.1, by decide⟩
  · simpa using ⟨m.plain.2, by decide⟩

lemma components_front {front : Text} (h : '/' ∉ front) (url : Text) :
    components (front ++ url) = (front ++ (components url).1, (components url).2) := by
  induction front with
  | nil => simp
  | cons c front ih =>
    have hc : c ≠ '/' := fun hc => h (by simp [hc])
    simp [components, hc, ih fun hs => h (by simp [hs])]

lemma isParam_front {front : Text} (h : lbrace ∉ front) (s : Text) :
    isParam (front ++ s) = isParam s := by
  have hstrchr : strchr (front ++ s) lbrace = strchr s lbrace := by
    induction front with
    | nil => rfl
    | cons c front ih =>
      have hc : lbrace ≠ c := fun hc => h (by simp [hc])
      rw [← ih fun hs => h (by simp [hs])]
      simp [strchr, search, hc]
  rw [isParam, hstrchr]
  rfl

lemma Method.eq_of_text {m m' : Method} (h : m.text = m'.text) : m = m' := by
  cases m
  cases m'
  simpa using h

def Method.key (m : Method) (first : Text) : Text := (m.text ++ [':']) ++ first

lemma Method.key_inj {m m' : Method} {first first' : Text} (h : m.key first = m'.key first') :
    m = m' ∧ first = first' := by
  have hsplit : m.text ++ ':' :: first = m'.text ++ ':' :: first' := by simpa [key] using h
  obtain ⟨htext, hfirst⟩ := split_at_first m.no_colon m'.no_colon hsplit
  exact ⟨Method.eq_of_text htext, hfirst⟩

lemma Method.isParam_key (m : Method) (first : Text) : isParam (m.key first) = isParam first :=
  isParam_front m.front_plain.1 first

lemma Method.components_key (m : Method) (url : Text) :
    components (m.text ++ ':' :: url) = (m.key (components url).1, (components url).2) := by
  have hslash : '/' ∉ m.text ++ [':'] := by simpa using m.no_slash
  have h := components_front hslash url
  simpa [key] using h

def Call.keyPath (c : Call Op) : List Text :=
  c.method.key (components c.template).1 :: (components c.template).2

lemma Call.components_key (c : Call Op) : components c.key = (c.method.key (components c.template).1,
    (components c.template).2) := c.method.components_key c.template

lemma components_infix (url : Text) :
    (components url).1 <+: url ∧ ∀ component ∈ (components url).2, component <:+: url := by
  induction url with
  | nil => simp [components]
  | cons c url ih =>
    by_cases hc : c = '/'
    · simp only [components, if_pos hc, List.nil_prefix, List.mem_cons, true_and]
      rintro component (rfl | hmem)
      · exact ih.1.isInfix.trans (List.suffix_cons c url).isInfix
      · exact (ih.2 component hmem).trans (List.suffix_cons c url).isInfix
    · simp only [components, if_neg hc]
      refine ⟨List.cons_prefix_cons.mpr ⟨rfl, ih.1⟩, ?_⟩
      intro component hmem
      exact (ih.2 component hmem).trans (List.suffix_cons c url).isInfix

lemma Call.named_path (c : Call Op) : ∀ key ∈ c.path, Named key := by
  intro key hmem hwithin
  obtain ⟨hfirst, hrest⟩ := components_infix c.template
  rcases List.mem_cons.mp hmem with rfl | hmem
  · exact c.named (hwithin.trans hfirst.isInfix)
  · exact c.named (hwithin.trans (hrest key hmem))

/-- The operations of the map are those of the calls that succeeded. -/
lemma prepareAll_ops (calls : List (Call Op)) (rest_map : List (Text × Mapping Op))
    (path : List Text) (op_desc : Op) :
    tableOpAt (prepareAll calls rest_map).2 path = some op_desc ↔
      tableOpAt rest_map path = some op_desc ∨
        ∃ c ∈ (prepareAll calls rest_map).1, c.keyPath = path ∧ c.op = op_desc := by
  induction calls generalizing rest_map with
  | nil => simp [prepareAll]
  | cons c calls ih =>
    have hinsert := prepareRestMapping_inserts c.key rest_map c.op
    rw [c.components_key] at hinsert
    obtain ⟨hopAt, hfree⟩ := hinsert
    simp only [prepareAll, ih, hopAt]
    by_cases hstatus : (prepareRestMapping c.key rest_map c.op).1 = true
    · have hnone := hfree hstatus
      simp only [hstatus, if_true, true_and, List.exists_mem_cons_iff]
      by_cases hpath : path = c.keyPath
      · have hpath' : path = c.method.key (components c.template).1 :: (components c.template).2 :=
          hpath
        rw [← hpath'] at hnone
        simp [← hpath', ← hpath, hnone]
      · have hne : ¬ path = c.method.key (components c.template).1 :: (components c.template).2 :=
          hpath
        simp [hne, Ne.symm hpath]
    · simp [hstatus]

lemma restMap_ops {calls : List (Call Op)} {path : List Text} {op_desc : Op} :
    tableOpAt (restMap calls) path = some op_desc ↔
      ∃ c ∈ inserted calls, c.keyPath = path ∧ c.op = op_desc := by
  have h := prepareAll_ops calls [] path op_desc
  have hnone : tableOpAt ([] : List (Text × Mapping Op)) path = none := by
    cases path <;> rfl
  simpa [hnone, restMap, inserted] using h

lemma restMap_shaped (calls : List (Call Op)) : ShapedMap (restMap calls) := by
  have h : ∀ rest_map, ShapedMap rest_map → ShapedMap (prepareAll calls rest_map).2 := by
    induction calls with
    | nil => exact fun _ h => h
    | cons c calls ih => exact fun _ h => ih _ (prepareRestMapping_shaped c.key c.op h)
  exact h [] ⟨by simp, by simp⟩

/-- The components of a call that succeeded were checked. -/
lemma inserted_valid {calls : List (Call Op)} {c : Call Op} (h : c ∈ inserted calls) :
    ∀ key ∈ c.path, lbrace ∈ key → isParam key = true := by
  have hvalid : ∀ rest_map, c ∈ (prepareAll calls rest_map).1 →
      ∀ key ∈ c.keyPath, validKey key = true := by
    clear h
    induction calls with
    | nil => simp [prepareAll]
    | cons c' calls ih =>
      intro rest_map hmem
      simp only [prepareAll] at hmem
      split at hmem
      case isFalse => exact ih _ hmem
      case isTrue hstatus =>
          rcases List.mem_cons.mp hmem with rfl | hmem
          · have hkeys := prepareRestMapping_valid hstatus
            rwa [c.components_key] at hkeys
          · exact ih _ hmem
  intro key hmem hbrace
  rcases List.mem_cons.mp hmem with rfl | hmem
  · have hkey := hvalid [] h _ List.mem_cons_self
    have hin : lbrace ∈ c.method.key (components c.template).1 := by
      simpa [Method.key] using Or.inr (Or.inr hbrace)
    rw [← c.method.isParam_key]
    simpa [validKey, hin] using (Bool.and_eq_true_iff.mp hkey).1
  · have hkey := hvalid [] h key (List.mem_cons_of_mem _ hmem)
    simpa [validKey, hbrace] using (Bool.and_eq_true_iff.mp hkey).1

end Runs

section Result

variable {calls : List (Call Op)} {method : Method} {child : Mapping Op} {first : Text}

def searchMap (hash : HashOrder Op) (calls : List (Call Op)) (method : Method) (url : Text) :
    Option (Op × Params) :=
  searchTables (searchBelow hash (components url).2) (method.key (components url).1)
    (restMap calls) (hash.order (restMap calls))

lemma getRestOp_eq (hash : HashOrder Op) (calls : List (Call Op)) (method : Method)
    {location : Text} (hquery : '?' ∉ location) :
    getRestOpWithMethodAndLocation hash (restMap calls) method.text location =
      some (match searchMap hash calls method (adjustedUrl location) with
        | some (op_desc, params) => (some op_desc, params)
        | none => (none, .none)) := by
  unfold getRestOpWithMethodAndLocation
  rw [strchr_none hquery]
  dsimp only
  rw [inferOpFromParentRestMap_eq, method.components_key]
  unfold searchMap
  cases searchTables (searchBelow hash (components (adjustedUrl location)).2)
    (method.key (components (adjustedUrl location)).1) (restMap calls)
    (hash.order (restMap calls)) <;> simp [addQuery]

lemma restMap_below {key : Text} (h : getEntry key (restMap calls) = some child) :
    Shaped child ∧ NamedPaths child.opAt ∧
      ∀ path op_desc, child.opAt path = some op_desc ↔
        ∃ c ∈ inserted calls, c.keyPath = key :: path ∧ c.op = op_desc := by
  have hops : ∀ path op_desc, child.opAt path = some op_desc ↔
      ∃ c ∈ inserted calls, c.keyPath = key :: path ∧ c.op = op_desc := by
    intro path op_desc
    rw [← restMap_ops]
    simp [tableOpAt, h]
  refine ⟨(restMap_shaped calls).below _ (mem_of_getEntry h), ?_, hops⟩
  intro path op_desc hop key' hmem
  obtain ⟨c, -, hpath, -⟩ := (hops path op_desc).mp hop
  refine c.named_path key' (List.mem_cons_of_mem _ ?_)
  have hrest := (List.cons.inj hpath).2
  rwa [hrest]

/-- The templates for the method below a first component. -/
lemma stored_below {calls : List (Call Op)} {method : Method} {first : Text} {child : Mapping Op}
    (h : getEntry (method.key first) (restMap calls) = some child) (path : List Text) :
    Stored calls method (first :: path) ↔ (child.opAt path).isSome = true := by
  obtain ⟨-, -, hops⟩ := restMap_below h
  rw [Option.isSome_iff_exists]
  constructor
  · rintro ⟨c, hc, rfl, hpath⟩
    obtain ⟨hfirst, hrest⟩ := List.cons.inj hpath
    exact ⟨c.op, (hops path c.op).mpr ⟨c, hc, by rw [Call.keyPath, hfirst, hrest], rfl⟩⟩
  · rintro ⟨op_desc, hop⟩
    obtain ⟨c, hc, hpath, -⟩ := (hops path op_desc).mp hop
    obtain ⟨hkey, hrest⟩ := List.cons.inj hpath
    obtain ⟨hmethod, hfirst⟩ := Method.key_inj hkey
    exact ⟨c, hc, hmethod, by rw [Call.path, hfirst, hrest]⟩

lemma getEntry_of_stored {path : List Text} (h : Stored calls method (first :: path)) :
    ∃ child, getEntry (method.key first) (restMap calls) = some child := by
  obtain ⟨c, hc, rfl, hpath⟩ := h
  obtain ⟨hfirst, hrest⟩ := List.cons.inj hpath
  have hop : tableOpAt (restMap calls) c.keyPath = some c.op := restMap_ops.mpr ⟨c, hc, rfl, rfl⟩
  obtain ⟨child, hchild, -⟩ := Option.bind_eq_some_iff.mp hop
  exact ⟨child, by rwa [← hfirst]⟩

/-- Below the text of the component itself no stored template matches, when the search
there finds nothing. -/
lemma not_stored_of_none {hash : HashOrder Op} {url : List Text}
    (h : (getEntry (method.key first) (restMap calls)).bind (searchBelow hash url) = none)
    {path : List Text} (hstored : Stored calls method (first :: path))
    (hmatch : List.Forall₂ ComponentMatches path url) : False := by
  obtain ⟨child, hchild⟩ := getEntry_of_stored hstored
  obtain ⟨op_desc, hop⟩ := Option.isSome_iff_exists.mp ((stored_below hchild path).mp hstored)
  have hsome := searchBelow_complete hash hop hmatch
  rw [hchild, Option.bind_some] at h
  simp [h] at hsome

/-- The first component matches behind the method as it does alone. -/
lemma match_key {method : Method} {first : Text} (hnamed : Named first)
    (hparam : isParam first = true) (url : Text)
    (h : (matchUrlComponentWithPattern (method.key first) (method.key url)).status = true ∨
      (matchUrlComponentWithPattern first url).status = true) :
    matchUrlComponentWithPattern (method.key first) (method.key url) =
      matchUrlComponentWithPattern first url := by
  have hne : first ≠ [] := by
    rintro rfl
    cases hparam
  exact match_behind method.front_plain hne hnamed url h

/-- A template that matches is found. -/
lemma searchMap_complete (hash : HashOrder Op) {c : Call Op} (hc : c ∈ inserted calls) {url : Text}
    (hmatch : List.Forall₂ ComponentMatches c.path ((components url).1 :: (components url).2)) :
    (searchMap hash calls c.method url).isSome = true := by
  obtain ⟨hfirst, hrest⟩ := List.forall₂_cons.mp hmatch
  have hstored : Stored calls c.method c.path := ⟨c, hc, rfl, rfl⟩
  obtain ⟨child, hchild⟩ := getEntry_of_stored hstored
  obtain ⟨op_desc, hop⟩ := Option.isSome_iff_exists.mp ((stored_below hchild _).mp hstored)
  have hbelow := searchBelow_complete hash hop hrest
  unfold searchMap searchTables
  rw [Option.isSome_or, Bool.or_eq_true]
  by_cases hparam : isParam (components c.template).1 = true
  · rw [ComponentMatches, if_pos hparam] at hfirst
    have hmatch := @match_key c.method _ (c.named_path _ List.mem_cons_self) hparam
      (components url).1 (.inr hfirst)
    exact .inr (findSome_isSome (mem_of_getEntry hchild) (by rw [hmatch, hfirst]) hbelow)
  · rw [ComponentMatches, if_neg hparam] at hfirst
    rw [← hfirst, hchild, Option.bind_some]
    exact .inl hbelow

/-- A path below an entry of the map, with what the first component captures. -/
lemma answersRight_of_found {calls : List (Call Op)} {method : Method} {first url_first : Text}
    {child : Mapping Op} (hchild : getEntry (method.key first) (restMap calls) = some child)
    {pairs : List (Text × Text)} (hcapture : Captures first url_first pairs) {url : List Text}
    (hconst : isParam first = true → ¬ ∃ q, Stored calls method (url_first :: q) ∧
      isParam url_first = false ∧ List.Forall₂ ComponentMatches q url)
    {op_desc : Op} {params : Params} (h : FoundPath child.opAt url op_desc params) :
    AnswersRight calls method (url_first :: url) op_desc ((Params.ofPairs pairs).append params) := by
  obtain ⟨path, rest, hop, hrest, rfl, hprefers⟩ := h.exists_path
  obtain ⟨-, -, hops⟩ := restMap_below hchild
  obtain ⟨c, hc, hpath, hcop⟩ := (hops path op_desc).mp hop
  obtain ⟨hkey, htail⟩ := List.cons.inj hpath
  obtain ⟨hmethod, hfirst⟩ := Method.key_inj hkey
  have hcpath : c.path = first :: path := by rw [Call.path, hfirst, htail]
  refine ⟨c, hc, hmethod, hcop, ⟨pairs ++ rest, ?_, Params.ofPairs_append pairs rest⟩, ?_⟩
  · rw [hcpath]
    exact .cons hcapture hrest
  · rw [hcpath]
    refine ⟨hconst, ?_⟩
    have hstored : (fun q => Stored calls method (first :: q)) =
        fun q => (child.opAt q).isSome = true := funext fun q => propext (stored_below hchild q)
    rw [hstored]
    exact hprefers

/-- What is found is right, unless a template is taken literally. -/
lemma searchMap_sound {hash : HashOrder Op} {calls : List (Call Op)} {method : Method} {url : Text}
    {op_desc : Op} {params : Params}
    (hliteral : ¬ ∃ c ∈ inserted calls, c.method = method ∧
      isParam (components c.template).1 = true ∧
      (components c.template).1 = (components url).1 ∧
      List.Forall₂ ComponentMatches (components c.template).2 (components url).2)
    (h : searchMap hash calls method url = some (op_desc, params)) :
    AnswersRight calls method ((components url).1 :: (components url).2) op_desc params := by
  unfold searchMap searchTables at h
  generalize (components url).1 = first at h hliteral ⊢
  generalize (components url).2 = rest at h hliteral ⊢
  cases hconst : (getEntry (method.key first) (restMap calls)).bind (searchBelow hash rest) with
  | some r =>
    rw [hconst, Option.some_or, Option.some.injEq] at h
    subst h
    obtain ⟨child, hchild, hfound⟩ := Option.bind_eq_some_iff.mp hconst
    obtain ⟨hshaped, hnamed, hops⟩ := restMap_below hchild
    have hpath := searchBelow_sound hash hshaped hnamed hfound
    obtain ⟨path, pairs, hop, hcapture, -, -⟩ := hpath.exists_path
    -- the template of this entry has a constant here
    have hkey : isParam first = false := by
      by_contra hparam
      rw [Bool.not_eq_false] at hparam
      obtain ⟨c, hc, hcpath, -⟩ := (hops path op_desc).mp hop
      obtain ⟨hkey, htail⟩ := List.cons.inj hcpath
      obtain ⟨hmethod, hfirst⟩ := Method.key_inj hkey
      exact hliteral ⟨c, hc, hmethod, by rwa [hfirst], hfirst, by rw [htail]; exact hcapture.matches⟩
    have hright := answersRight_of_found hchild (.constant hkey) (by simp [hkey]) hpath
    simpa [Params.ofPairs, Params.append] using hright
  | none =>
    rw [hconst, Option.none_or] at h
    obtain ⟨key, child, found, hmem, hstatus, hfound, rfl⟩ := findSome_eq_some h
    have hchild := getEntry_of_mem (restMap_shaped calls).distinct hmem
    obtain ⟨hshaped, hnamed, hops⟩ := restMap_below hchild
    have hpath := searchBelow_sound hash hshaped hnamed hfound
    obtain ⟨path, rest', hop, hcapture, hrest, -⟩ := hpath.exists_path
    obtain ⟨c, hc, hcpath, -⟩ := (hops path op_desc).mp hop
    obtain ⟨rfl, -⟩ := List.cons.inj hcpath
    have hname : Named (components c.template).1 := c.named_path _ List.mem_cons_self
    obtain rfl : c.method = method := by
      have hboth : (matchUrlComponentWithPattern
          (c.method.text ++ ':' :: (components c.template).1)
          (method.text ++ ':' :: first)).status = true := by
        simpa [Method.key] using hstatus
      exact Method.eq_of_text (match_other_front c.method.no_colon method.no_colon
        c.method.front_plain hname hboth)
    have hparam : isParam (components c.template).1 = true := by
      by_contra hnot
      rw [Bool.not_eq_true, ← c.method.isParam_key] at hnot
      have hkey := match_constant c.method.front_plain hname (by simp) hnot hstatus
      have hentry : getEntry (c.method.key first) (restMap calls) = some child := by
        rw [← hkey]
        exact hchild
      rw [hentry, Option.bind_some] at hconst
      simp [hconst] at hfound
    have hmatched := match_key hname hparam first (.inl hstatus)
    rw [hmatched] at hstatus ⊢
    obtain ⟨pairs, hcaptured, hparams⟩ := captures_of_match hname hparam hstatus
    rw [hparams, hrest, Params.ofPairs_append, Params.merge_ofPairs, ← Params.ofPairs_append,
      ← hrest]
    refine answersRight_of_found hchild hcaptured ?_ hpath
    rintro - ⟨q, hstored, -, hmatch⟩
    exact not_stored_of_none hconst hstored hmatch

end Result

section Literal

def braces (pairs : List (Text × Text)) : ℕ := (pairs.map fun p => p.2.count lbrace).sum

lemma braces_append (ps qs : List (Text × Text)) : braces (ps ++ qs) = braces ps + braces qs := by
  simp [braces]

lemma count_fillParams {params : List (Text × Text)} {values : List Text}
    (hplain : ∀ p ∈ params, Plain p.1 ∧ Plain p.2 ∧ p.1 ≠ []) (h : values.length = params.length) :
    (fillParams params values).count lbrace = (values.map fun v => v.count lbrace).sum := by
  induction params generalizing values with
  | nil =>
    obtain rfl := List.eq_nil_of_length_eq_zero h
    rfl
  | cons p params ih =>
    obtain ⟨key, const⟩ := p
    obtain ⟨value, values, rfl⟩ := List.exists_cons_of_length_eq_add_one h
    have hconst : const.count lbrace = 0 :=
      List.count_eq_zero.mpr (hplain (key, const) List.mem_cons_self).2.1.1
    have hrest := ih (fun p hp => hplain p (List.mem_cons_of_mem _ hp)) (by simpa using h)
    simp [fillParams, hconst, hrest]

/-- The parameters of a component take all opening braces of the URL. -/
lemma Captures.braces_eq {key url_component : Text} {pairs : List (Text × Text)}
    (hkey : lbrace ∈ key → isParam key = true) (h : Captures key url_component pairs) :
    braces pairs = url_component.count lbrace := by
  cases h with
  | constant hconst =>
    have hnot : lbrace ∉ key := fun hin => by simp [hkey hin] at hconst
    simp [braces, List.count_eq_zero.mpr hnot]
  | params hparams hlength hfill hmatch =>
    rename_i t values
    have hlead : t.lead.count lbrace = 0 := List.count_eq_zero.mpr t.lead_plain.1
    have hsnd : ((t.params.map (·.1)).zip values).map (·.2) = values :=
      List.map_snd_zip (by simp [hlength])
    have hcount := congrArg (List.map fun v => v.count lbrace) hsnd
    rw [List.map_map] at hcount
    rw [← hfill, Template.fill, List.count_append, hlead, count_fillParams t.params_plain hlength,
      Nat.zero_add, ← hcount]
    rfl

lemma AllCapture.braces_eq {path url : List Text} {pairs : List (Text × Text)}
    (h : AllCapture path url pairs) (hpath : ∀ key ∈ path, lbrace ∈ key → isParam key = true) :
    braces pairs = (url.map fun u => u.count lbrace).sum := by
  induction h with
  | nil => rfl
  | cons h hrest ih =>
    rw [braces_append, h.braces_eq (hpath _ List.mem_cons_self),
      ih fun key hkey => hpath key (List.mem_cons_of_mem _ hkey)]
    simp

lemma braces_of_ofPairs {ps qs : List (Text × Text)} (h : Params.ofPairs ps = Params.ofPairs qs) :
    braces ps = braces qs := by
  have hvalues := congrArg (fun p => (p.values.map fun v => (v.getD []).count lbrace).sum) h
  simpa [Params.ofPairs, braces, Function.comp_def] using hvalues

lemma count_pos_of_isParam {s : Text} (h : isParam s = true) : 0 < s.count lbrace := by
  rw [List.count_pos_iff]
  by_contra hnot
  simp [isParam, strchr_none hnot] at h

/-- A template that is taken literally leaves out the parameters of its first component. -/
lemma searchMap_of_literal (hash : HashOrder Op) {calls : List (Call Op)} {method : Method}
    {location : Text} (h : TakenLiterally calls method location) :
    ∃ op_desc found, searchMap hash calls method (adjustedUrl location) =
        some (op_desc, Params.ofPairs found) ∧
      ∀ c ∈ inserted calls, ∀ pairs, AllCapture c.path (urlPath location) pairs →
        braces found ≠ braces pairs := by
  obtain ⟨c, hc, rfl, hparam, hfirst, hmatch⟩ := h
  -- the entry of the component is found by its text
  have hstored : Stored calls c.method c.path := ⟨c, hc, rfl, rfl⟩
  obtain ⟨child, hchild⟩ := getEntry_of_stored hstored
  obtain ⟨op_desc, hop⟩ := Option.isSome_iff_exists.mp ((stored_below hchild _).mp hstored)
  obtain ⟨⟨op', found⟩, hfound⟩ :=
    Option.isSome_iff_exists.mp (searchBelow_complete hash hop hmatch)
  obtain ⟨hshaped, hnamed, hops⟩ := restMap_below hchild
  obtain ⟨path, pairs, hpath, hcapture, rfl, -⟩ :=
    (searchBelow_sound hash hshaped hnamed hfound).exists_path
  have hsearch : searchMap hash calls c.method (adjustedUrl location) =
      some (op', Params.ofPairs pairs) := by
    rw [searchMap, searchTables, ← hfirst, hchild, Option.bind_some, hfound, Option.some_or]
  have hbraces : braces pairs =
      ((components (adjustedUrl location)).2.map fun u => u.count lbrace).sum := by
    refine hcapture.braces_eq ?_
    obtain ⟨c', hc', hcpath, -⟩ := (hops path op').mp hpath
    obtain ⟨-, htail⟩ := List.cons.inj hcpath
    intro key hkey
    exact inserted_valid hc' key (List.mem_cons_of_mem _ (by rwa [htail]))
  refine ⟨op', pairs, hsearch, fun c' hc' pairs' hcapture' hequal => ?_⟩
  have hbraces' := hcapture'.braces_eq (inserted_valid hc')
  rw [← hequal, hbraces, urlPath, ← hfirst] at hbraces'
  have hpos := count_pos_of_isParam hparam
  simp only [List.map_cons, List.sum_cons] at hbraces'
  omega

lemma not_right_of_literal (hash : HashOrder Op) {calls : List (Call Op)} {method : Method}
    {location : Text} (hquery : '?' ∉ location) (h : TakenLiterally calls method location) :
    ¬ DispatchesRight hash calls method location := by
  obtain ⟨op', found, hsearch, hnot⟩ := searchMap_of_literal hash h
  rintro ⟨answer, params, hget, -, -, hright, -⟩
  rw [getRestOp_eq hash calls method hquery, hsearch] at hget
  obtain ⟨rfl, rfl⟩ := Prod.mk.inj (Option.some.inj hget)
  obtain ⟨c, hc, -, -, ⟨pairs, hcapture, hparams⟩, -⟩ := hright op' rfl
  exact hnot c hc pairs hcapture (braces_of_ofPairs hparams)

end Literal

/-- **REST dispatch.** The lookup answers right after any sequence of insertions, except
where a template is taken literally. -/
theorem dispatches_right_iff (hash : HashOrder Op) (calls : List (Call Op)) (method : Method)
    {location : Text} (hquery : '?' ∉ location) :
    DispatchesRight hash calls method location ↔ ¬ TakenLiterally calls method location := by
  constructor
  · exact fun hright hliteral => not_right_of_literal hash hquery hliteral hright
  · intro hliteral
    have hget := getRestOp_eq hash calls method hquery
    have hfailed : ∀ c : Call Op, (prepareRestMapping c.key (restMap calls) c.op).1 = false →
        tableOpAt (prepareRestMapping c.key (restMap calls) c.op).2 =
          tableOpAt (restMap calls) := by
      intro c hstatus
      funext path
      rw [(prepareRestMapping_inserts c.key (restMap calls) c.op).opAt path]
      simp [hstatus]
    cases hsearch : searchMap hash calls method (adjustedUrl location) with
    | none =>
      rw [hsearch] at hget
      refine ⟨none, .none, hget, ?_, fun _ => rfl, by simp, hfailed⟩
      simp only [Option.isSome_none, Bool.false_eq_true, false_iff]
      rintro ⟨c, hc, rfl, hmatch⟩
      have hsome := searchMap_complete hash hc hmatch
      simp [hsearch] at hsome
    | some r =>
      obtain ⟨op_desc, params⟩ := r
      rw [hsearch] at hget
      have hright := searchMap_sound hliteral hsearch
      refine ⟨some op_desc, params, hget, ?_, by simp, ?_, hfailed⟩
      · simp only [Option.isSome_some, true_iff]
        obtain ⟨c, hc, hmethod, -, ⟨pairs, hcapture, -⟩, -⟩ := hright
        exact ⟨c, hc, hmethod, hcapture.matches⟩
      · rintro _ ⟨⟩
        exact hright

section Orders

def insertionOrder : HashOrder Op := ⟨id, fun _ => .refl _⟩

def get : Method := ⟨['G', 'E', 'T'], ⟨by decide, by decide⟩, by decide, by decide⟩

/-- `orders/{id}/items` and `orders/last`. -/
def orderCalls : List (Call ℕ) :=
  [⟨get, "orders/{id}/items".toList, 1, by decide⟩, ⟨get, "orders/last".toList, 2, by decide⟩]

/-- The constant `last` leads nowhere, and the parameter is tried. -/
theorem orders_dispatch :
    DispatchesRight insertionOrder orderCalls get "/orders/last/items".toList :=
  (dispatches_right_iff insertionOrder orderCalls get (by decide)).mpr (by
    rintro ⟨c, -, -, hparam, hfirst, -⟩
    rw [hfirst] at hparam
    exact absurd hparam (by decide))

/-- `{id}` as a template. -/
def idCalls : List (Call ℕ) := [⟨get, "{id}".toList, 1, by decide⟩]

/-- The location `/{id}` is answered without the parameter `id`. -/
theorem own_text_loses_parameter :
    ¬ DispatchesRight insertionOrder idCalls get "/{id}".toList := by
  refine not_right_of_literal insertionOrder (by decide) ?_
  exact ⟨⟨get, "{id}".toList, 1, by decide⟩, List.mem_singleton.mpr rfl, rfl, by decide,
    by decide, by decide⟩

end Orders

end Axis2C.RestDispatch
