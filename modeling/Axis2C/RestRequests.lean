import Axis2C.RestDispatchRight

/-!
# Parameters of REST requests

`axis2_rest_disp_find_op`: the location is found in the address behind the first place of the
service, and the names and values of the parameters are in two arrays, of which a parameter
without `=` gets into the first only.
-/
namespace Axis2C.RestDispatch
open FirstOccurrence RestTemplate

variable {Op : Type}

section Source

/-- `axis2_request_url_prefix`. -/
def requestUrlPrefix : Text := "services".toList

/-- `axutil_parse_request_url_for_svc_and_op`. -/
def parseRequestUrlForSvcAndOp (request : Text) : Option Text × Option Text :=
  match strstr request requestUrlPrefix with
  | none => (none, none)
  | some tmp =>
    match tmp.drop requestUrlPrefix.length with
    | [] => (none, none)
    | c :: rest =>
      let service_str := if c = '/' then rest else c :: rest
      match strchr service_str '/' with
      | none => (some service_str, none)
      | some tmp =>
        (some (upTo service_str tmp), match strchr tmp.tail '?' with
          | none => some tmp.tail
          | some query => some (upTo tmp.tail query))

/-- The part of the address that the operation is looked up with. -/
def locationOf (address : Text) : Option Text :=
  match (parseRequestUrlForSvcAndOp address).1 with
  | none => none
  | some svc => (strstr address svc).map (·.drop svc.length)

/-- The first child of the body. -/
structure BodyChild where
  localname : Text
  children : List (Text × Text)

structure MsgCtx where
  doing_rest : Bool
  to_address : Option Text
  rest_http_method : Method
  /-- The envelope, its body, and the first child of that, each where it is there. -/
  soap_envelope : Option (Option (Option BodyChild))

def MsgCtx.children (msg_ctx : MsgCtx) : List (Text × Text) :=
  ((msg_ctx.soap_envelope.join.join).map (·.children)).getD []

/-- One element for every key; the text is set where there is a value. -/
def Params.elements (params : Params) : List (Text × Text) :=
  params.keys.mapIdx fun i key => (key, (params.values[i]?).join.getD [])

/-- The operation with the location it was looked up with, the arrays and the child of the
body. -/
structure Dispatched (Op : Type) where
  op : Op
  location : Text
  params : Params
  body_child : BodyChild

/-- `axis2_rest_disp_find_op`. Without an envelope a default one is made; a child of the body
that is made gets the name of the operation. -/
def findOp (hash : HashOrder Op) (rest_map : List (Text × Mapping Op)) (qname : Op → Text)
    (msg_ctx : MsgCtx) : Option (Dispatched Op) :=
  if msg_ctx.doing_rest = false then none
  else
    match msg_ctx.to_address.bind locationOf with
    | none => none
    | some location =>
      match getRestOpWithMethodAndLocation hash rest_map msg_ctx.rest_http_method.text location with
      | some (some op, params) =>
        (msg_ctx.soap_envelope.getD (some none)).map fun body_child =>
          ⟨op, location, params, (body_child.map (·.localname)).getD (qname op),
            (body_child.map (·.children)).getD [] ++ params.elements⟩
      | _ => none

end Source

section Requests

/-- `name=value` or `name`. -/
structure QueryParam where
  name : Text
  value : Option Text
  name_plain : '&' ∉ name ∧ '=' ∉ name
  value_plain : ∀ v ∈ value, '&' ∉ v
  not_empty : value = none → name ≠ []

def QueryParam.text (p : QueryParam) : Text :=
  match p.value with
  | none => p.name
  | some value => p.name ++ '=' :: value

def QueryParam.pair (p : QueryParam) : Text × Text := (p.name, p.value.getD [])

def queryString : List QueryParam → Text
  | [] => []
  | [p] => p.text
  | p :: q :: params => p.text ++ '&' :: queryString (q :: params)

/-- `front`, `/services/`, the service and the location. -/
structure Request where
  front : Text
  svc : Text
  path : Text
  query : Option (List QueryParam)
  front_free : ¬ '/' :: requestUrlPrefix <:+: front
  svc_plain : '/' ∉ svc ∧ '?' ∉ svc
  svc_not_empty : svc ≠ []
  path_plain : '?' ∉ path

namespace Request

def queryParams (r : Request) : List QueryParam := r.query.getD []

def location (r : Request) : Text :=
  r.path ++ (r.query.map fun params => '?' :: queryString params).getD []

/-- What is in front of the service. -/
def lead (r : Request) : Text := r.front ++ '/' :: requestUrlPrefix ++ ['/']

def address (r : Request) : Text := r.lead ++ (r.svc ++ r.location)

end Request

/-- The location is the one of the request, and the children that are added are the parameters
of the template and those of the query, with their own values. -/
structure ReachesService (calls : List (Call Op)) (msg_ctx : MsgCtx) (r : Request)
    (d : Dispatched Op) : Prop where
  location : d.location = r.location
  children : ∃ pairs, AnswersRight calls msg_ctx.rest_http_method (urlPath r.path) d.op
      (Params.ofPairs pairs) ∧
    d.body_child.children = msg_ctx.children ++ (pairs ++ r.queryParams.map QueryParam.pair)
  lengths : d.params.keys.length = d.params.values.length

/-- The text `services` is not in front of its place, nor the service in front of its own; the
location is empty or begins with a slash; every parameter has a value; and no template is taken
literally. -/
structure PassesThrough (calls : List (Call Op)) (method : Method) (r : Request) : Prop where
  services_first : ¬ requestUrlPrefix <:+: r.front
  svc_first : ¬ r.svc <:+: r.lead
  separate : r.location = [] ∨ r.location.head? = some '/'
  valued : ∀ p ∈ r.queryParams, p.value.isSome = true
  not_literal : ¬ TakenLiterally calls method r.path

end Requests

section Location

/-- A text without the character lies in front of one of its places or behind it. -/
lemma in_front_or_behind {c : Char} {a m b p q : Text} (hc : c ∉ m)
    (h : a ++ (m ++ b) = p ++ c :: q) : a.length + m.length ≤ p.length ∨ p.length < a.length := by
  rcases List.append_eq_append_iff.mp h with ⟨s, rfl, hs⟩ | ⟨s, rfl, hs⟩
  · rcases List.append_eq_append_iff.mp hs with ⟨t, rfl, -⟩ | ⟨t, rfl, ht⟩
    · simp
    · cases t with
      | nil => simp
      | cons x t =>
        obtain ⟨rfl, -⟩ := List.cons.inj ht
        simp at hc
  · cases s with
    | nil =>
      cases m with
      | nil => simp
      | cons x m =>
        obtain ⟨rfl, -⟩ := List.cons.inj hs
        simp at hc
    | cons x s => simp

/-- Behind a text that is free of the needle and a character that is not in it. -/
lemma firstAt_behind {c : Char} {needle front t : Text} (hc : c ∉ needle)
    (hfront : ¬ needle <:+: front) (ht : needle <+: t) : FirstAt needle (front ++ [c]) t := by
  refine ⟨ht, ?_⟩
  rintro b _ hbu ⟨behind, rfl⟩
  have hsplit : b ++ (needle ++ behind) = front ++ c :: t := by simpa using hbu.symm
  rcases in_front_or_behind hc hsplit with hle | hlt
  · refine absurd ?_ hfront
    have hb : b ++ needle <+: front := by
      refine @List.prefix_of_prefix_length_le _ _ front (front ++ c :: t) ?_ (List.prefix_append _ _) ?_
      · rw [← hsplit, ← List.append_assoc]
        exact List.prefix_append _ _
      · simpa using hle
    exact (List.suffix_append b needle).isInfix.trans hb.isInfix
  · simpa using hlt

/-- The service is taken up to the next slash, and the location begins behind its first place. -/
lemma locationOf_spec {address front rest : Text} {c : Char}
    (h : address = front ++ (requestUrlPrefix ++ c :: rest))
    (hfirst : FirstAt requestUrlPrefix front (requestUrlPrefix ++ c :: rest)) :
    ∃ token y a l,
      address = (front ++ requestUrlPrefix ++ if c = '/' then ['/'] else []) ++ (token ++ y) ∧
      '/' ∉ token ∧ (y = [] ∨ y.head? = some '/') ∧ locationOf address = some l ∧
      address = a ++ (token ++ l) ∧ FirstAt token a (token ++ l) := by
  obtain ⟨token, y, hsplit, hslash, hy, hparse⟩ : ∃ token y,
      (if c = '/' then rest else c :: rest) = token ++ y ∧ '/' ∉ token ∧
        (y = [] ∨ y.head? = some '/') ∧ (parseRequestUrlForSvcAndOp address).1 = some token := by
    unfold parseRequestUrlForSvcAndOp strstr
    simp only [h, search_append hfirst, List.drop_left]
    generalize (if c = '/' then rest else c :: rest) = service_str
    by_cases hmem : '/' ∈ service_str
    · obtain ⟨token, behind, rfl, hslash⟩ := List.eq_append_cons_of_mem hmem
      exact ⟨token, '/' :: behind, rfl, hslash, .inr rfl, by rw [strchr_append _ hslash]; simp⟩
    · exact ⟨service_str, [], by simp, hmem, .inl rfl, by rw [strchr_none hmem]⟩
  have hplace : address =
      (front ++ requestUrlPrefix ++ if c = '/' then ['/'] else []) ++ (token ++ y) := by
    rw [h, ← hsplit]
    by_cases hc : c = '/' <;> simp [hc]
  have hat : token <:+: address :=
    ⟨front ++ requestUrlPrefix ++ if c = '/' then ['/'] else [], y, by
      rw [hplace, List.append_assoc]⟩
  cases hfound : search token address with
  | none => exact absurd hat (search_eq_none_iff.mp hfound)
  | some found =>
    obtain ⟨a, haddress, ⟨l, rfl⟩, hfirst⟩ := search_eq_some hfound
    refine ⟨token, y, a, l, hplace, hslash, hy, ?_, haddress, ⟨List.prefix_append _ _, hfirst⟩⟩
    simp [locationOf, hparse, strstr, hfound]

variable {r : Request}

/-- The address with the slash in front of the service. -/
lemma Request.address_eq (r : Request) :
    r.address = (r.front ++ '/' :: requestUrlPrefix) ++ '/' :: (r.svc ++ r.location) := by
  simp [address, lead]

/-- Where the text `services` is in front of its place, the location is too long. -/
lemma locationOf_too_early (h : requestUrlPrefix <:+: r.front) :
    locationOf r.address ≠ some r.location := by
  obtain ⟨b, behind, hfront⟩ := h
  have hbegin : r.address = b ++ (requestUrlPrefix ++ (behind ++ '/' :: requestUrlPrefix ++
      '/' :: (r.svc ++ r.location))) := by
    rw [r.address_eq, ← hfront]
    simp
  obtain ⟨found, hfound⟩ : ∃ found, search requestUrlPrefix r.address = some found := by
    rw [← Option.isSome_iff_exists, Option.isSome_iff_ne_none, Ne, search_eq_none_iff, not_not]
    exact ⟨b, _, by rw [hbegin, List.append_assoc]⟩
  obtain ⟨front, haddress, ⟨s, rfl⟩, hfirst⟩ := search_eq_some hfound
  have hle := hfirst b _ (haddress.symm.trans hbegin) (List.prefix_append _ _)
  have hlength := congrArg List.length (haddress.symm.trans hbegin)
  have hfront := congrArg List.length hfront
  simp only [List.length_append, List.length_cons] at hlength hfront
  cases s with
  | nil => simp at hlength; omega
  | cons c rest =>
    obtain ⟨token, y, a, l, hplace, hslash, -, hl, hat, -, hearly⟩ :=
      locationOf_spec haddress ⟨List.prefix_append _ _, hfirst⟩
    have hstart := hearly _ _ (hat.symm.trans hplace) (List.prefix_append _ _)
    rw [hl, Ne, Option.some.injEq]
    rintro rfl
    have hend := congrArg List.length (hat.symm.trans r.address_eq)
    simp only [List.length_append, List.length_cons] at hstart hend
    -- the token ends in front of the slash of the service
    rcases in_front_or_behind hslash (hplace.symm.trans r.address_eq) with hle' | hlt
    · simp only [List.length_append, List.length_cons] at hle'
      omega
    · simp only [List.length_append, List.length_cons] at hlt
      have hone : (if c = '/' then ['/'] else []).length ≤ 1 := by split <;> simp
      omega

/-- The operation is looked up with the location of the request exactly then. -/
lemma locationOf_eq_iff : locationOf r.address = some r.location ↔
    ¬ requestUrlPrefix <:+: r.front ∧ ¬ r.svc <:+: r.lead ∧
      (r.location = [] ∨ r.location.head? = some '/') := by
  by_cases hservices : requestUrlPrefix <:+: r.front
  · simp [hservices, locationOf_too_early hservices]
  · have hfirst := firstAt_behind (t := requestUrlPrefix ++ '/' :: (r.svc ++ r.location))
      (c := '/') (by decide) hservices (List.prefix_append _ _)
    have haddress : r.address =
        (r.front ++ ['/']) ++ (requestUrlPrefix ++ '/' :: (r.svc ++ r.location)) := by
      rw [r.address_eq]
      simp
    obtain ⟨token, y, a, l, hplace, hslash, hy, hl, hat, htoken, hearly⟩ :=
      locationOf_spec haddress hfirst
    rw [if_pos rfl] at hplace
    have hlead : r.address = r.lead ++ (r.svc ++ r.location) := rfl
    have hsame : r.svc ++ r.location = token ++ y := by
      rw [hlead, Request.lead] at hplace
      simpa using hplace
    obtain ⟨x, rfl, hlocation⟩ : ∃ x, token = r.svc ++ x ∧ r.location = x ++ y := by
      rcases List.append_eq_append_iff.mp hsame with h | ⟨s, hsvc, rfl⟩
      · exact h
      · cases s with
        | nil => exact ⟨[], by simp [hsvc], rfl⟩
        | cons d s =>
          obtain rfl : d = '/' := by simpa using hy
          exact absurd (by simp [hsvc]) r.svc_plain.1
    have hlength := congrArg List.length (hat.symm.trans hlead)
    have hlast : r.lead.length = (r.front ++ '/' :: requestUrlPrefix).length + 1 := by
      simp [Request.lead]
      omega
    have hpos := List.length_pos_iff.mpr r.svc_not_empty
    simp only [List.length_append] at hlength
    rw [hl, Option.some.injEq]
    constructor
    · rintro rfl
      have hx : x.length = 0 ∧ a.length = r.lead.length := by
        rcases in_front_or_behind hslash (hat.symm.trans r.address_eq) with hle | hlt
        · rw [List.length_append] at hle
          omega
        · omega
      refine ⟨hservices, ?_, ?_⟩
      · rintro ⟨b, behind, hb⟩
        have hle := hearly b (r.svc ++ (behind ++ (r.svc ++ r.location)))
          (by rw [← hat, hlead, ← hb]; simp) (by
            rw [List.eq_nil_of_length_eq_zero hx.1]
            simp)
        have hlengths := congrArg List.length hb
        simp only [List.length_append] at hlengths
        omega
      · rwa [hlocation, List.eq_nil_of_length_eq_zero hx.1, List.nil_append]
    · rintro ⟨-, hsvc, hseparate⟩
      obtain rfl : x = [] := by
        cases x with
        | nil => rfl
        | cons d x =>
          rw [hlocation] at hseparate
          obtain rfl : d = '/' := by simpa using hseparate
          simp at hslash
      rw [List.append_nil] at hat hearly
      have hplace := firstAt_behind (t := r.svc ++ r.location) r.svc_plain.1
        (fun h => hsvc (h.trans ⟨[], ['/'], rfl⟩)) (List.prefix_append _ _)
      have hle := hplace.2 a (r.svc ++ l)
        (hlead.symm.trans hat) (List.prefix_append _ _)
      have hge := hearly _ _ (hat.symm.trans hlead) (List.prefix_append _ _)
      refine (List.append_inj (List.append_inj (hat.symm.trans hlead) ?_).2 rfl).2
      exact le_antisymm hge (by simpa [Request.lead] using hle)

end Location

section Query

variable {hash : HashOrder Op} {calls : List (Call Op)} {method : Method} {path : Text}
  {op : Op} {params : Params}

/-- Every name, and the values that are there. -/
def Params.withQuery (params : Params) (query : List QueryParam) : Params :=
  ⟨params.keys ++ query.map QueryParam.name,
    params.values ++ (query.filterMap QueryParam.value).map some⟩

lemma QueryParam.text_plain (p : QueryParam) : '&' ∉ p.text ∧ p.text ≠ [] := by
  obtain ⟨name, value, hname, hvalue, hempty⟩ := p
  cases value with
  | none => exact ⟨hname.1, hempty rfl⟩
  | some value => exact ⟨by simp [text, hname.1, hvalue value rfl], by simp [text]⟩

/-- One parameter of the query, and what follows it. -/
lemma addQuery_step (p : QueryParam) (fuel : ℕ) :
    addQuery (fuel + 1) p.text params = params.withQuery [p] ∧
    ∀ rest, addQuery (fuel + 1) (p.text ++ '&' :: rest) params =
      addQuery fuel rest (params.withQuery [p]) := by
  obtain ⟨hplain, hne⟩ := p.text_plain
  obtain ⟨c, text, htext⟩ := List.exists_cons_of_ne_nil hne
  have hlast : strchr (c :: text) '&' = none := htext ▸ strchr_none hplain
  have hnext : ∀ rest, strchr (c :: (text ++ '&' :: rest)) '&' = some ('&' :: rest) := by
    intro rest
    rw [← List.cons_append, ← htext]
    exact strchr_append rest hplain
  have hcut : ∀ rest, upTo (c :: (text ++ '&' :: rest)) ('&' :: rest) = c :: text :=
    fun rest => upTo_append (c :: text) ('&' :: rest)
  rw [htext]
  cases hvalue : p.value with
  | none =>
    have hname : p.name = c :: text := by simpa [QueryParam.text, hvalue] using htext
    have hequals : strchr (c :: text) '=' = none := hname ▸ strchr_none p.name_plain.2
    simp [addQuery, hlast, hnext, hcut, hequals, Params.withQuery, hname, hvalue]
  | some value =>
    have hsplit : c :: text = p.name ++ '=' :: value := by
      simpa [QueryParam.text, hvalue] using htext.symm
    have hequals : strchr (c :: text) '=' = some ('=' :: value) :=
      hsplit ▸ strchr_append value p.name_plain.2
    have hkey : upTo (c :: text) ('=' :: value) = p.name :=
      hsplit ▸ upTo_append p.name ('=' :: value)
    simp [addQuery, hlast, hnext, hcut, hequals, hkey, Params.withQuery, hvalue]

lemma Params.withQuery_append (params : Params) (ps qs : List QueryParam) :
    (params.withQuery ps).withQuery qs = params.withQuery (ps ++ qs) := by
  simp [withQuery]

lemma addQuery_queryString (query : List QueryParam) (params : Params) {fuel : ℕ}
    (hfuel : (queryString query).length < fuel) :
    addQuery fuel (queryString query) params = params.withQuery query := by
  induction query generalizing params fuel with
  | nil =>
    obtain ⟨fuel, rfl⟩ := Nat.exists_eq_succ_of_ne_zero (by omega : fuel ≠ 0)
    simp [queryString, addQuery, Params.withQuery]
  | cons p query ih =>
    obtain ⟨fuel, rfl⟩ := Nat.exists_eq_succ_of_ne_zero (by omega : fuel ≠ 0)
    obtain ⟨hlast, hnext⟩ := @addQuery_step params p fuel
    cases query with
    | nil => exact hlast
    | cons q query =>
      rw [queryString, hnext, ih, Params.withQuery_append, List.singleton_append]
      simp only [queryString, List.length_append, List.length_cons] at hfuel
      omega

/-- What the lookup gives before the query is added. -/
lemma search_of_map {query : Text}
    (h : ((inferOpFromParentRestMap hash (restMap calls)
      ((method.text ++ ':' :: adjustedUrl path).map some) .none).map fun r =>
        (r.1, if r.1.isSome then addQuery (query.length + 1) query r.2 else r.2)) =
          some (some op, params)) :
    ∃ found, searchMap hash calls method (adjustedUrl path) = some (op, found) ∧
      params = addQuery (query.length + 1) query found := by
  rw [inferOpFromParentRestMap_eq, method.components_key] at h
  unfold searchMap
  cases hfound : searchTables (searchBelow hash (components (adjustedUrl path)).2)
      (method.key (components (adjustedUrl path)).1) (restMap calls)
      (hash.order (restMap calls)) with
  | none => simp [hfound] at h
  | some r =>
    obtain ⟨op', found⟩ := r
    simp only [hfound, Option.map_some, Option.isSome_some, if_true, Option.some.injEq,
      Prod.mk.injEq] at h
    obtain ⟨rfl, hparams⟩ := h
    exact ⟨found, rfl, hparams.symm⟩

/-- What is added to the arrays behind the search. -/
lemma getRestOp_query (hpath : '?' ∉ path) (query : Option (List QueryParam))
    (h : getRestOpWithMethodAndLocation hash (restMap calls) method.text
      (path ++ (query.map fun params => '?' :: queryString params).getD []) =
        some (some op, params)) :
    ∃ found, searchMap hash calls method (adjustedUrl path) = some (op, found) ∧
      params = found.withQuery (query.getD []) := by
  unfold getRestOpWithMethodAndLocation at h
  cases query with
  | none =>
    simp only [Option.map_none, Option.getD_none, List.append_nil, strchr_none hpath] at h
    obtain ⟨found, hsearch, hparams⟩ := search_of_map h
    exact ⟨found, hsearch, hparams.trans (addQuery_queryString [] found (Nat.lt_succ_self _))⟩
  | some query =>
    simp only [Option.map_some, Option.getD_some, strchr_append _ hpath, upTo_append,
      List.tail_cons] at h
    obtain ⟨found, hsearch, hparams⟩ := search_of_map h
    exact ⟨found, hsearch, hparams.trans (addQuery_queryString query found (Nat.lt_succ_self _))⟩

end Query

section Result

variable {hash : HashOrder Op} {calls : List (Call Op)} {qname : Op → Text} {msg_ctx : MsgCtx}
  {r : Request} {d : Dispatched Op}

lemma Params.elements_ofPairs (pairs : List (Text × Text)) :
    (Params.ofPairs pairs).elements = pairs := by
  apply List.ext_getElem
  · simp [elements, ofPairs]
  · intro i hi hj
    simp [elements, ofPairs, hj]

lemma Params.withQuery_ofPairs (pairs : List (Text × Text)) {query : List QueryParam}
    (h : ∀ p ∈ query, p.value.isSome = true) :
    (Params.ofPairs pairs).withQuery query =
      Params.ofPairs (pairs ++ query.map QueryParam.pair) := by
  have hvalues : (query.filterMap QueryParam.value).map some =
      query.map fun p => some p.pair.2 := by
    induction query with
    | nil => rfl
    | cons p query ih =>
      obtain ⟨value, hvalue⟩ := Option.isSome_iff_exists.mp (h p List.mem_cons_self)
      simp [hvalue, QueryParam.pair, ih fun q hq => h q (List.mem_cons_of_mem _ hq)]
  simp [withQuery, ofPairs, hvalues, QueryParam.pair]

lemma valued_of_length {query : List QueryParam}
    (h : query.length ≤ (query.filterMap QueryParam.value).length) :
    ∀ p ∈ query, p.value.isSome = true := by
  induction query with
  | nil => simp
  | cons p query ih =>
    have hle := List.length_filterMap_le QueryParam.value query
    cases hvalue : p.value with
    | none =>
      simp [hvalue] at h
      omega
    | some value =>
      simp only [List.filterMap_cons, hvalue, List.length_cons, Nat.add_le_add_iff_right] at h
      simpa [hvalue] using ih h

/-- What the search gives is what some parameters capture. -/
lemma searchMap_ofPairs {method : Method} {path : Text} {op : Op} {found : Params}
    (h : searchMap hash calls method (adjustedUrl path) = some (op, found)) :
    ∃ pairs, found = Params.ofPairs pairs ∧
      (TakenLiterally calls method path → ∀ c ∈ inserted calls, ∀ pairs',
        AllCapture c.path (urlPath path) pairs' → braces pairs ≠ braces pairs') ∧
      (¬ TakenLiterally calls method path →
        AnswersRight calls method (urlPath path) op (Params.ofPairs pairs)) := by
  by_cases hliteral : TakenLiterally calls method path
  · obtain ⟨op', pairs, hsearch, hne⟩ := searchMap_of_literal hash hliteral
    obtain ⟨-, rfl⟩ := Prod.mk.inj (Option.some.inj (hsearch.symm.trans h))
    exact ⟨pairs, rfl, fun _ => hne, fun hnot => absurd hliteral hnot⟩
  · have hright := searchMap_sound hliteral h
    obtain ⟨-, -, -, -, ⟨pairs, -, rfl⟩, -⟩ := id hright
    exact ⟨pairs, rfl, fun htaken => absurd htaken hliteral, fun _ => hright⟩

/-- What a request that reaches an operation has been looked up with. -/
lemma findOp_spec (haddress : msg_ctx.to_address = some r.address)
    (h : findOp hash (restMap calls) qname msg_ctx = some d) :
    locationOf r.address = some d.location ∧
      getRestOpWithMethodAndLocation hash (restMap calls) msg_ctx.rest_http_method.text d.location =
        some (some d.op, d.params) ∧
      d.body_child.children = msg_ctx.children ++ d.params.elements := by
  unfold findOp at h
  rw [haddress, Option.bind_some] at h
  split at h
  · cases h
  · cases hlocation : locationOf r.address with
    | none => simp [hlocation] at h
    | some location =>
      simp only [hlocation] at h
      split at h
      · next op params hget =>
          obtain ⟨body_child, henvelope, rfl⟩ := Option.map_eq_some_iff.mp h
          refine ⟨rfl, hget, ?_⟩
          unfold MsgCtx.children
          cases hsoap : msg_ctx.soap_envelope with
          | none =>
            rw [hsoap] at henvelope
            obtain rfl := Option.some.inj henvelope
            rfl
          | some soap_body =>
            rw [hsoap, Option.getD_some] at henvelope
            rw [henvelope]
            rfl
      · cases h

/-- **REST requests.** Where an operation is found, the parameters reach the service under their
own names exactly when nothing in front of the service or its location is taken for them, every
parameter of the query has a value, and no template is taken literally. -/
theorem reachesService_iff (hash : HashOrder Op) (calls : List (Call Op)) (qname : Op → Text)
    (msg_ctx : MsgCtx) (r : Request) (haddress : msg_ctx.to_address = some r.address)
    (d : Dispatched Op) (h : findOp hash (restMap calls) qname msg_ctx = some d) :
    ReachesService calls msg_ctx r d ↔ PassesThrough calls msg_ctx.rest_http_method r := by
  obtain ⟨hlocation, hget, hchildren⟩ := findOp_spec haddress h
  have hiff := @locationOf_eq_iff r
  rw [hlocation, Option.some.injEq] at hiff
  constructor
  · intro hreach
    obtain ⟨hservices, hsvc, hseparate⟩ := hiff.mp hreach.location
    rw [hreach.location] at hget
    obtain ⟨found, hsearch, hparams⟩ := getRestOp_query r.path_plain r.query hget
    have hparams : d.params = found.withQuery r.queryParams := hparams
    obtain ⟨pairs, rfl, hliteral, -⟩ := searchMap_ofPairs hsearch
    have hvalued : ∀ p ∈ r.queryParams, p.value.isSome = true := by
      apply valued_of_length
      have hlengths := hreach.lengths
      simp only [hparams, Params.withQuery, Params.ofPairs, List.length_append,
        List.length_map] at hlengths
      exact le_of_eq (Nat.add_left_cancel hlengths)
    refine ⟨hservices, hsvc, hseparate, hvalued, fun htaken => ?_⟩
    obtain ⟨pairs', ⟨c, hc, -, -, ⟨captured, hcapture, hequal⟩, -⟩, hadded⟩ := hreach.children
    have hpairs : pairs = pairs' := by
      rw [hparams, Params.withQuery_ofPairs pairs hvalued, Params.elements_ofPairs] at hchildren
      exact List.append_cancel_right (List.append_cancel_left (hchildren.symm.trans hadded))
    exact hliteral htaken c hc captured hcapture (by rw [hpairs, braces_of_ofPairs hequal])
  · rintro ⟨hservices, hsvc, hseparate, hvalued, hnot⟩
    have hsame := hiff.mpr ⟨hservices, hsvc, hseparate⟩
    rw [hsame] at hget
    obtain ⟨found, hsearch, hparams⟩ := getRestOp_query r.path_plain r.query hget
    have hparams : d.params = found.withQuery r.queryParams := hparams
    obtain ⟨pairs, rfl, -, hright⟩ := searchMap_ofPairs hsearch
    have hofPairs := hparams.trans (Params.withQuery_ofPairs pairs hvalued)
    refine ⟨hsame, ⟨pairs, hright hnot, ?_⟩, ?_⟩
    · rw [hchildren, hofPairs, Params.elements_ofPairs]
    · rw [hofPairs]
      simp [Params.ofPairs]

/-- The request `GET http://h/services/sh/orders/last` with a query. -/
def lastOrder (query : QueryParam) : Request :=
  ⟨"http://h".toList, ['s', 'h'], "/orders/last".toList, some [query], by decide, by decide,
    by decide, by decide⟩

def toShop (query : QueryParam) : MsgCtx := ⟨true, some (lastOrder query).address, get, none⟩

/-- `n=1` -/
def numbered : QueryParam := ⟨['n'], some ['1'], by decide, by decide, by decide⟩

/-- `n` -/
def flag : QueryParam := ⟨['n'], none, by decide, by decide, by decide⟩

theorem numbered_reaches : ∃ d, findOp insertionOrder (restMap orderCalls) (fun _ => ['o'])
    (toShop numbered) = some d ∧
      ReachesService orderCalls (toShop numbered) (lastOrder numbered) d := by
  obtain ⟨d, hd⟩ := Option.isSome_iff_exists.mp (by decide +kernel : (findOp insertionOrder
    (restMap orderCalls) (fun _ => ['o']) (toShop numbered)).isSome = true)
  refine ⟨d, hd, (reachesService_iff insertionOrder orderCalls _ (toShop numbered)
    (lastOrder numbered) rfl d hd).mpr ⟨by decide, by decide, by decide, by decide, ?_⟩⟩
  rintro ⟨c, -, -, hparam, hfirst, -⟩
  rw [hfirst] at hparam
  exact absurd hparam (by decide)

/-- A parameter without `=` has no value. -/
theorem flag_shortens_values : ∃ d, findOp insertionOrder (restMap orderCalls) (fun _ => ['o'])
    (toShop flag) = some d ∧ ¬ ReachesService orderCalls (toShop flag) (lastOrder flag) d := by
  obtain ⟨d, hd, hlengths⟩ := Option.map_eq_some_iff.mp (by decide +kernel : (findOp insertionOrder
    (restMap orderCalls) (fun _ => ['o']) (toShop flag)).map (fun d =>
      (d.params.keys.length, d.params.values.length)) = some (1, 0))
  obtain ⟨hkeys, hvalues⟩ := Prod.mk.inj hlengths
  exact ⟨d, hd, fun h => by simpa [hkeys, hvalues] using h.lengths⟩

end Result

end Axis2C.RestDispatch
