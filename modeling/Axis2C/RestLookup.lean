import Axis2C.RestMapping

/-!
# What the lookup finds

Every call of the lookup that finds nothing gives the URL back as it was and adds
nothing to the arrays. The lookup is therefore a search over the components of the
URL, and this search finds an operation exactly when there is a path that matches.
-/
namespace Axis2C.RestDispatch
open FirstOccurrence RestTemplate

variable {Op : Type}

section Search

namespace Params

def append (p q : Params) : Params := ⟨p.keys ++ q.keys, p.values ++ q.values⟩

@[simp] lemma append_none (p : Params) : p.append none = p := by simp [append, none]

@[simp] lemma none_append (p : Params) : none.append p = p := by simp [append, none]

lemma merge_eq (params tmp : Params) : params.merge tmp = params.append (none.merge tmp) := by
  simp [merge, append, none]

end Params

def Match.params (m : Match) : Params := ⟨m.param_keys, m.param_values.map some⟩

def tryEntry (below : Mapping Op → Option (Op × Params)) (url_component : Text)
    (e : Text × Mapping Op) : Option (Op × Params) :=
  let matched := matchUrlComponentWithPattern e.1 url_component
  if matched.status then
    (below e.2).map fun r => (r.1, Params.none.merge (matched.params.append r.2))
  else none

/-- The constant first, then the patterns in their order. -/
def searchTables (below : Mapping Op → Option (Op × Params)) (url_component : Text)
    (consts patterns : List (Text × Mapping Op)) : Option (Op × Params) :=
  ((getEntry url_component consts).bind below).or
    (patterns.findSome? (tryEntry below url_component))

def searchBelow (hash : HashOrder Op) : List Text → Mapping Op → Option (Op × Params)
  | [], m => m.op_desc.map (·, Params.none)
  | url_component :: rest, m =>
    searchTables (searchBelow hash rest) url_component m.consts_map (hash.order m.params_map)

end Search

section Refinement

def urlCells : Text → List Text → Buffer
  | url_component, [] => url_component.map some
  | url_component, next :: rest => url_component.map some ++ some '/' :: urlCells next rest

def nextLevel : List Text → Option Buffer
  | [] => none
  | next :: rest => some (urlCells next rest)

lemma rejoin_nextLevel (url_component : Text) (rest : List Text) :
    rejoin url_component (some '/') (nextLevel rest) = urlCells url_component rest := by
  cases rest <;> simp [nextLevel, rejoin, urlCells]

lemma cutAtSlash_urlCells {url_component : Text} (h : '/' ∉ url_component) (rest : List Text) :
    cutAtSlash (urlCells url_component rest) = (url_component, nextLevel rest) := by
  induction url_component with
  | nil => cases rest <;> simp [urlCells, cutAtSlash, nextLevel]
  | cons c url_component ih =>
    have hc : c ≠ '/' := fun hc => h (by simp [hc])
    have hrest := ih fun hs => h (by simp [hs])
    cases rest <;> simp_all [urlCells, cutAtSlash]

lemma components_slash (url : Text) :
    ∀ component ∈ (components url).1 :: (components url).2, '/' ∉ component := by
  induction url with
  | nil => simp [components]
  | cons c url ih =>
    by_cases hc : c = '/'
    · subst hc
      intro component hmem
      simp only [components, if_true, List.mem_cons] at hmem
      rcases hmem with rfl | hmem
      · simp
      · exact ih component (by simpa using hmem)
    · intro component hmem
      simp only [components, if_neg hc, List.mem_cons] at hmem
      rcases hmem with rfl | hmem
      · simpa [Ne.symm hc] using ih _ List.mem_cons_self
      · exact ih component (by simp [hmem])

lemma urlCells_components (url : Text) :
    urlCells (components url).1 (components url).2 = url.map some := by
  induction url with
  | nil => simp [components, urlCells]
  | cons c url ih =>
    by_cases hc : c = '/'
    · subst hc
      simp [components, urlCells, ih]
    · rw [List.map_cons, ← ih]
      simp only [components, if_neg hc]
      cases (components url).2 <;> simp [urlCells]

lemma length_le_urlCells (url_component : Text) (rest : List Text) :
    rest.length ≤ (urlCells url_component rest).length := by
  induction rest generalizing url_component with
  | nil => simp
  | cons next rest ih =>
    have := ih next
    simp only [urlCells, List.length_cons, List.length_append, List.length_map]
    omega

/-- A call answers as the search does; what finds nothing leaves the URL and the
arrays as they were. -/
def Answers {Url : Type} (url : Url) (params : Params) (r : Option (Found Op Url)) :
    Option (Op × Params) → Prop
  | some (op_desc, found) => ∃ url', r = some ⟨some op_desc, url', params.append found⟩
  | none => r = some ⟨none, url, params⟩

section

variable {recursively : Mapping Op → Buffer → Params → Option (Found Op Buffer)}
  {below : Mapping Op → Option (Op × Params)} {next_level_url : Option Buffer}
  (h : ∀ m params, Answers next_level_url params (lookIn recursively m next_level_url params) (below m))

include h

lemma tryPatterns_answers (url_component : Text) (entries : List (Text × Mapping Op))
    (params : Params) :
    Answers next_level_url params
      (tryPatterns recursively url_component entries next_level_url params)
      (entries.findSome? (tryEntry below url_component)) := by
  induction entries with
  | nil => rfl
  | cons e entries ih =>
    obtain ⟨hash_key, val⟩ := e
    rw [List.findSome?_cons]
    unfold tryPatterns
    by_cases hstatus : (matchUrlComponentWithPattern hash_key url_component).status = true
    · have htry : tryEntry below url_component (hash_key, val) = (below val).map fun r =>
          (r.1, Params.none.merge
            ((matchUrlComponentWithPattern hash_key url_component).params.append r.2)) := by
        simp [tryEntry, hstatus]
      have hval := h val (matchUrlComponentWithPattern hash_key url_component).params
      rw [htry]
      simp only [hstatus, if_true]
      cases hbelow : below val with
      | none =>
        rw [hbelow, Answers] at hval
        simp only [Match.params] at hval
        simpa [hval] using ih
      | some r =>
        obtain ⟨op_desc, found⟩ := r
        rw [hbelow] at hval
        obtain ⟨url', hval⟩ := hval
        simp only [Match.params] at hval
        refine ⟨url', ?_⟩
        simp only [hval, Match.params]
        rw [Params.merge_eq]
    · have htry : tryEntry below url_component (hash_key, val) = none := by
        simp [tryEntry, hstatus]
      simpa [hstatus, htry] using ih

lemma tryConstant_answers (child : Option (Mapping Op)) (params : Params) :
    Answers next_level_url params (tryConstant recursively child next_level_url params)
      (child.bind below) := by
  cases child with
  | none => rfl
  | some child => exact h child params

end

/-- A level answers as the search, if the levels below do. -/
lemma lookIn_answers {hash : HashOrder Op} {fuel : ℕ} {rest : List Text}
    (h : ∀ next rest', rest = next :: rest' → ∀ m params, Answers (urlCells next rest') params
      (inferOpFromRestMapRecursively hash fuel m (urlCells next rest') params)
      (searchBelow hash rest m)) (m : Mapping Op) (params : Params) :
    Answers (nextLevel rest) params
      (lookIn (inferOpFromRestMapRecursively hash fuel) m (nextLevel rest) params)
      (searchBelow hash rest m) := by
  cases rest with
  | nil => cases hop : m.op_desc <;> simp [searchBelow, hop, Answers, lookIn, nextLevel]
  | cons next rest' =>
    have hrec := h next rest' rfl m params
    unfold lookIn nextLevel
    cases hsearch : searchBelow hash (next :: rest') m with
    | none =>
      rw [hsearch, Answers] at hrec
      simp [Answers, hrec]
    | some r =>
      rw [hsearch] at hrec
      obtain ⟨url', hrec⟩ := hrec
      exact ⟨some url', by simp [hrec]⟩

/-- Both kinds of tables are tried in turn. -/
lemma searchTables_answers {recursively : Mapping Op → Buffer → Params → Option (Found Op Buffer)}
    {below : Mapping Op → Option (Op × Params)} {next_level_url : Option Buffer}
    (h : ∀ m params, Answers next_level_url params
      (lookIn recursively m next_level_url params) (below m))
    (url_component : Text) (consts patterns : List (Text × Mapping Op)) (params : Params) :
    match searchTables below url_component consts patterns with
    | some (op_desc, found) =>
      (∃ url', tryConstant recursively (getEntry url_component consts) next_level_url params =
        some ⟨some op_desc, url', params.append found⟩) ∨
      (tryConstant recursively (getEntry url_component consts) next_level_url params =
        some ⟨none, next_level_url, params⟩ ∧
      ∃ url', tryPatterns recursively url_component patterns next_level_url params =
        some ⟨some op_desc, url', params.append found⟩)
    | none =>
      tryConstant recursively (getEntry url_component consts) next_level_url params =
        some ⟨none, next_level_url, params⟩ ∧
      tryPatterns recursively url_component patterns next_level_url params =
        some ⟨none, next_level_url, params⟩ := by
  have hconst := tryConstant_answers h (getEntry url_component consts) params
  have hpatterns := tryPatterns_answers h url_component patterns params
  unfold searchTables
  cases hc : (getEntry url_component consts).bind below with
  | some r =>
    rw [hc] at hconst
    exact .inl hconst
  | none =>
    rw [hc, Answers] at hconst
    rw [Option.none_or]
    cases hp : patterns.findSome? (tryEntry below url_component) with
    | some r =>
      rw [hp] at hpatterns
      exact .inr ⟨hconst, hpatterns⟩
    | none =>
      rw [hp, Answers] at hpatterns
      exact ⟨hconst, hpatterns⟩

lemma level_answers {hash : HashOrder Op} {fuel : ℕ} {rest : List Text}
    (h : ∀ m params, Answers (nextLevel rest) params
      (lookIn (inferOpFromRestMapRecursively hash fuel) m (nextLevel rest) params)
      (searchBelow hash rest m)) (url_component : Text) (hslash : '/' ∉ url_component)
    (m : Mapping Op) (params : Params) :
    Answers (urlCells url_component rest) params
      (inferOpFromRestMapRecursively hash (fuel + 1) m (urlCells url_component rest) params)
      (searchBelow hash (url_component :: rest) m) := by
  have htables := searchTables_answers h url_component m.consts_map (hash.order m.params_map)
    params
  unfold inferOpFromRestMapRecursively searchBelow
  rw [cutAtSlash_urlCells hslash]
  cases hsearch : searchTables (searchBelow hash rest) url_component m.consts_map
      (hash.order m.params_map) with
  | none =>
    rw [hsearch] at htables
    simp [Answers, htables.1, htables.2, rejoin_nextLevel]
  | some r =>
    rw [hsearch] at htables
    rcases htables with ⟨url', hconst⟩ | ⟨hconst, url', hpatterns⟩
    · exact ⟨rejoin url_component none url', by simp [hconst]⟩
    · exact ⟨rejoin url_component none url', by simp [hconst, hpatterns]⟩

/-- **The lookup on the buffer is the search over the components.** -/
theorem inferOpFromRestMapRecursively_answers (hash : HashOrder Op) (rest : List Text)
    (url_component : Text) (hslash : ∀ c ∈ url_component :: rest, '/' ∉ c) (fuel : ℕ)
    (hfuel : rest.length < fuel) (m : Mapping Op) (params : Params) :
    Answers (urlCells url_component rest) params
      (inferOpFromRestMapRecursively hash fuel m (urlCells url_component rest) params)
      (searchBelow hash (url_component :: rest) m) := by
  induction rest generalizing url_component fuel m params with
  | nil =>
    obtain ⟨fuel, rfl⟩ : ∃ f, fuel = f + 1 := ⟨fuel - 1, by simp at hfuel; omega⟩
    exact level_answers (lookIn_answers (by simp)) url_component (hslash _ List.mem_cons_self) m params
  | cons next rest ih =>
    obtain ⟨fuel, rfl⟩ : ∃ f, fuel = f + 1 := ⟨fuel - 1, by simp at hfuel; omega⟩
    refine level_answers (lookIn_answers ?_) url_component (hslash _ List.mem_cons_self) m params
    rintro _ _ ⟨rfl, rfl⟩ m params
    exact ih next (fun c hc => hslash c (List.mem_cons_of_mem _ hc)) fuel
      (by simp at hfuel; omega) m params
theorem inferOpFromParentRestMap_eq (hash : HashOrder Op) (rest_map : List (Text × Mapping Op))
    (url : Text) :
    inferOpFromParentRestMap hash rest_map (url.map some) .none =
      some (match searchTables (searchBelow hash (components url).2) (components url).1 rest_map
          (hash.order rest_map) with
        | some (op_desc, params) => (some op_desc, params)
        | none => (none, .none)) := by
  have hslash := components_slash url
  rw [← urlCells_components url]
  generalize (components url).1 = url_component at hslash ⊢
  generalize (components url).2 = rest at hslash ⊢
  have hlength := length_le_urlCells url_component rest
  have hlook : ∀ m params, Answers (nextLevel rest) params
      (lookIn (inferOpFromRestMapRecursively hash (urlCells url_component rest).length) m
        (nextLevel rest) params) (searchBelow hash rest m) := by
    refine lookIn_answers ?_
    rintro next rest' rfl m params
    exact inferOpFromRestMapRecursively_answers hash rest' next
      (fun c hc => hslash c (List.mem_cons_of_mem _ hc)) _ (by simp at hlength; omega) m params
  have htables := searchTables_answers hlook url_component rest_map (hash.order rest_map) .none
  unfold inferOpFromParentRestMap
  rw [cutAtSlash_urlCells (hslash _ List.mem_cons_self)]
  cases hsearch : searchTables (searchBelow hash rest) url_component rest_map
      (hash.order rest_map) with
  | none =>
    rw [hsearch] at htables
    simp [htables.1, htables.2]
  | some r =>
    rw [hsearch] at htables
    rcases htables with ⟨url', hconst⟩ | ⟨hconst, url', hpatterns⟩
    · simp [hconst]
    · simp [hconst, hpatterns]

end Refinement

section Captures

/-- What a component of a template takes from the component of the URL: the names of
its parameters, each with its text. -/
inductive Captures : Text → Text → List (Text × Text) → Prop where
  | constant {key : Text} (hkey : isParam key = false) : Captures key key []
  | params {t : Template} {values : List Text} {url_component : Text} (hparams : t.params ≠ [])
      (hlength : values.length = t.params.length) (hfill : t.fill values = url_component)
      (hmatch : (matchUrlComponentWithPattern t.render url_component).status = true) :
      Captures t.render url_component ((t.params.map (·.1)).zip values)

/-- The components one by one. -/
inductive AllCapture : List Text → List Text → List (Text × Text) → Prop where
  | nil : AllCapture [] [] []
  | cons {key url_component : Text} {path url : List Text} {pairs rest : List (Text × Text)}
      (h : Captures key url_component pairs) (hrest : AllCapture path url rest) :
      AllCapture (key :: path) (url_component :: url) (pairs ++ rest)

/-- A constant is equal, a component with a parameter matches as a pattern. -/
def ComponentMatches (key url_component : Text) : Prop :=
  if isParam key then (matchUrlComponentWithPattern key url_component).status = true
  else key = url_component

instance (key url_component : Text) : Decidable (ComponentMatches key url_component) := by
  unfold ComponentMatches
  infer_instance

/-- The path takes no parameter where a constant leads to a match. -/
def Prefers : (List Text → Prop) → List Text → List Text → Prop
  | stored, key :: path, url_component :: url =>
    (isParam key = true → ¬ ∃ q, stored (url_component :: q) ∧ isParam url_component = false ∧
      List.Forall₂ ComponentMatches q url) ∧
    Prefers (fun q => stored (key :: q)) path url
  | _, _, _ => True

def Params.ofPairs (pairs : List (Text × Text)) : Params :=
  ⟨pairs.map (·.1), pairs.map fun p => some p.2⟩

lemma Params.ofPairs_append (ps qs : List (Text × Text)) :
    (Params.ofPairs ps).append (Params.ofPairs qs) = Params.ofPairs (ps ++ qs) := by
  simp [Params.ofPairs, Params.append]

/-- As many keys as values: nothing is lost when the arrays are merged. -/
lemma Params.merge_ofPairs (pairs : List (Text × Text)) :
    Params.none.merge (Params.ofPairs pairs) = Params.ofPairs pairs := by
  simp only [merge, ofPairs, none, List.nil_append, List.length_map, Params.mk.injEq, true_and]
  apply List.ext_getElem
  · simp
  · intro i hi hj
    have hlt : i < pairs.length := by simpa using hj
    simp [hlt]

lemma Captures.matches {key url_component : Text} {pairs : List (Text × Text)}
    (h : Captures key url_component pairs) : ComponentMatches key url_component := by
  cases h with
  | constant hkey => simp [ComponentMatches, hkey]
  | params hparams hlength hfill hmatch =>
    simpa [ComponentMatches, (isParam_render _).mpr hparams] using hmatch

lemma AllCapture.matches {path url : List Text} {pairs : List (Text × Text)}
    (h : AllCapture path url pairs) : List.Forall₂ ComponentMatches path url := by
  induction h with
  | nil => exact .nil
  | cons h hrest ih => exact .cons h.matches ih

/-- What a match adds to the arrays is what the component captures. -/
lemma captures_of_match {key url_component : Text} (hnamed : Named key)
    (hkey : isParam key = true)
    (h : (matchUrlComponentWithPattern key url_component).status = true) :
    ∃ pairs, Captures key url_component pairs ∧
      (matchUrlComponentWithPattern key url_component).params = Params.ofPairs pairs := by
  have hne : [] ++ key ≠ [] := by
    rintro rfl
    cases hkey
  obtain ⟨t, ht, hgap, hkeys, hread⟩ := match_reads plain_nil hnamed hne h
  rw [List.nil_append] at ht hkeys hread
  subst ht
  obtain ⟨hlength, hfill⟩ := readTemplate_fill hgap hread
  refine ⟨_, .params ((isParam_render t).mp hkey) hlength hfill h, ?_⟩
  simp only [Match.params, Params.ofPairs, hkeys, Params.mk.injEq]
  constructor
  · rw [List.map_fst_zip (by simp [hlength])]
  · have hle : (matchUrlComponentWithPattern t.render url_component).param_values.length ≤
        (t.params.map (·.1)).length := by simp [hlength]
    conv_lhs => rw [← List.map_snd_zip hle]
    simp

end Captures

section Paths

variable {op_desc : Op} {params : Params} {key : Text} {url : List Text}

def NamedPaths (opAt : List Text → Option Op) : Prop :=
  ∀ path op_desc, opAt path = some op_desc → ∀ key ∈ path, Named key

lemma opAt_consts {m child : Mapping Op} (hkey : isParam key = false)
    (h : getEntry key m.consts_map = some child) (path : List Text) :
    m.opAt (key :: path) = child.opAt path := by
  simp [Mapping.opAt, Mapping.table, hkey, h]

lemma opAt_params {m child : Mapping Op} (hkey : isParam key = true)
    (h : getEntry key m.params_map = some child) (path : List Text) :
    m.opAt (key :: path) = child.opAt path := by
  simp [Mapping.opAt, Mapping.table, hkey, h]

/-- An entry of an enumerated table whose pattern matches gives an operation. -/
lemma findSome_isSome {hash : HashOrder Op} {entries : List (Text × Mapping Op)}
    {below : Mapping Op → Option (Op × Params)} {key url_component : Text} {child : Mapping Op}
    (hmem : (key, child) ∈ entries)
    (hmatch : (matchUrlComponentWithPattern key url_component).status = true)
    (hbelow : (below child).isSome = true) :
    ((hash.order entries).findSome? (tryEntry below url_component)).isSome = true := by
  rw [List.findSome?_isSome_iff]
  refine ⟨(key, child), (hash.perm entries).mem_iff.mpr hmem, ?_⟩
  simpa [tryEntry, hmatch] using hbelow

/-- What an enumerated table gives is found below an entry whose pattern matches. -/
lemma findSome_eq_some {hash : HashOrder Op} {entries : List (Text × Mapping Op)}
    {below : Mapping Op → Option (Op × Params)} {url_component : Text}
    (h : (hash.order entries).findSome? (tryEntry below url_component) = some (op_desc, params)) :
    ∃ key child found, (key, child) ∈ entries ∧
      (matchUrlComponentWithPattern key url_component).status = true ∧
      below child = some (op_desc, found) ∧
      params = Params.none.merge
        ((matchUrlComponentWithPattern key url_component).params.append found) := by
  obtain ⟨⟨key, child⟩, hmem, htry⟩ := List.exists_of_findSome?_eq_some h
  have hmem := (hash.perm entries).mem_iff.mp hmem
  unfold tryEntry at htry
  dsimp only at htry
  split at htry
  case isFalse => cases htry
  case isTrue hstatus =>
      obtain ⟨⟨op', found⟩, hfound, heq⟩ := Option.map_eq_some_iff.mp htry
      obtain ⟨rfl, rfl⟩ := Prod.mk.inj heq
      exact ⟨key, child, found, hmem, hstatus, hfound, rfl⟩

/-- **A path that matches is found.** -/
theorem searchBelow_complete (hash : HashOrder Op) {path url : List Text} {m : Mapping Op}
    (hop : m.opAt path = some op_desc) (hmatch : List.Forall₂ ComponentMatches path url) :
    (searchBelow hash url m).isSome = true := by
  induction hmatch generalizing m with
  | nil =>
    have : m.op_desc = some op_desc := hop
    simp [searchBelow, this]
  | @cons key url_component path url h hrest ih =>
    obtain ⟨child, hchild, hop⟩ := Option.bind_eq_some_iff.mp hop
    have hbelow := ih hop
    unfold searchBelow searchTables
    rw [Option.isSome_or, Bool.or_eq_true]
    by_cases hkey : isParam key = true
    · rw [Mapping.table, if_pos hkey] at hchild
      rw [ComponentMatches, if_pos hkey] at h
      exact .inr (findSome_isSome (mem_of_getEntry hchild) h hbelow)
    · rw [Mapping.table, if_neg hkey] at hchild
      rw [ComponentMatches, if_neg hkey] at h
      subst h
      exact .inl (by simpa [hchild] using hbelow)

/-- What the search has found, as a path. -/
structure FoundPath (opAt : List Text → Option Op) (url : List Text) (op_desc : Op)
    (params : Params) : Prop where
  exists_path : ∃ path pairs, opAt path = some op_desc ∧ AllCapture path url pairs ∧
    params = Params.ofPairs pairs ∧ Prefers (fun q => (opAt q).isSome = true) path url

lemma FoundPath.constant {opAt below : List Text → Option Op} (hkey : isParam key = false)
    (hopAt : ∀ q, opAt (key :: q) = below q) (h : FoundPath below url op_desc params) :
    FoundPath opAt (key :: url) op_desc params := by
  obtain ⟨path, pairs, hop, hcapture, hparams, hprefers⟩ := h.exists_path
  refine ⟨key :: path, [] ++ pairs, by rw [hopAt, hop], .cons (.constant hkey) hcapture, hparams,
    ?_, ?_⟩
  · simp [hkey]
  · simpa only [hopAt] using hprefers

lemma FoundPath.param {opAt below : List Text → Option Op} {key url_component : Text}
    {url : List Text} {op_desc : Op} {params : Params} {pairs : List (Text × Text)}
    (hcapture : Captures key url_component pairs) (hopAt : ∀ q, opAt (key :: q) = below q)
    (hconst : ¬ ∃ q, (opAt (url_component :: q)).isSome = true ∧ isParam url_component = false ∧
      List.Forall₂ ComponentMatches q url)
    (h : FoundPath below url op_desc params) :
    FoundPath opAt (url_component :: url) op_desc ((Params.ofPairs pairs).append params) := by
  obtain ⟨path, rest, hop, hrest, rfl, hprefers⟩ := h.exists_path
  refine ⟨key :: path, pairs ++ rest, by rw [hopAt, hop], .cons hcapture hrest,
    Params.ofPairs_append pairs rest, ?_, ?_⟩
  · exact fun _ => hconst
  · simpa only [hopAt] using hprefers

/-- **What is found is a path that matches.** -/
theorem searchBelow_sound (hash : HashOrder Op) {m : Mapping Op} (hm : Shaped m)
    (hnamed : NamedPaths m.opAt) (h : searchBelow hash url m = some (op_desc, params)) :
    FoundPath m.opAt url op_desc params := by
  induction url generalizing m op_desc params with
  | nil =>
    obtain ⟨op, hop, heq⟩ := Option.map_eq_some_iff.mp h
    obtain ⟨rfl, rfl⟩ := Prod.mk.inj heq
    exact ⟨[], [], hop, .nil, rfl, trivial⟩
  | cons url_component url ih =>
    obtain ⟨hconsts, hparams, hdistinct, hbelow, hbelow'⟩ := hm
    rename_i op consts_map params_map
    unfold searchBelow searchTables at h
    simp only [Mapping.consts_map, Mapping.params_map] at h
    cases hc : (getEntry url_component consts_map).bind (searchBelow hash url) with
    | some r =>
      rw [hc, Option.some_or, Option.some.injEq] at h
      subst h
      obtain ⟨child, hchild, hfound⟩ := Option.bind_eq_some_iff.mp hc
      have hmem := mem_of_getEntry hchild
      have hkey := hconsts _ hmem
      have hopAt := opAt_consts (m := .mk op consts_map params_map) hkey hchild
      refine .constant hkey hopAt (ih (hbelow _ hmem) ?_ hfound)
      intro path op' hop key hkey'
      exact hnamed (url_component :: path) op' (by rw [hopAt, hop]) key
        (List.mem_cons_of_mem _ hkey')
    | none =>
      rw [hc, Option.none_or] at h
      obtain ⟨key, child, found, hmem, hstatus, hfound, rfl⟩ := findSome_eq_some h
      have hkey := hparams _ hmem
      have hchild := getEntry_of_mem hdistinct hmem
      have hopAt := opAt_params (m := .mk op consts_map params_map) hkey hchild
      have hpath := ih (hbelow' _ hmem) (by
        intro path op' hop key' hkey'
        exact hnamed (key :: path) op' (by rw [hopAt, hop]) key'
          (List.mem_cons_of_mem _ hkey')) hfound
      obtain ⟨path, rest, hop, -, hrest, -⟩ := hpath.exists_path
      have hname : Named key :=
        hnamed (key :: path) op_desc (by rw [hopAt, hop]) key List.mem_cons_self
      obtain ⟨pairs, hcapture, hmatched⟩ := captures_of_match hname hkey hstatus
      rw [hmatched, hrest, Params.ofPairs_append, Params.merge_ofPairs,
        ← Params.ofPairs_append, ← hrest]
      refine .param hcapture hopAt ?_ hpath
      rintro ⟨q, hq, hconst, hmatch⟩
      obtain ⟨op'', hq⟩ := Option.isSome_iff_exists.mp hq
      obtain ⟨child', hchild', hq⟩ := Option.bind_eq_some_iff.mp hq
      rw [Mapping.table, hconst] at hchild'
      have hsome := searchBelow_complete hash hq hmatch
      rw [show getEntry url_component consts_map = some child' from hchild',
        Option.bind_some] at hc
      simp [hc] at hsome

end Paths

end Axis2C.RestDispatch
