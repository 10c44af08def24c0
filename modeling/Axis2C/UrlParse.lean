import Axis2C.HttpFrontEnds
import Axis2C.Uri
import Mathlib.Data.List.TakeWhile

/-!
# The URLs of axutil

`axutil_url_parse_string`, `axutil_url_to_external_form`, `axutil_url_clone` and
`axutil_url_get_port`. The parser looks for a colon, a slash and a question mark in all
that follows the protocol, before it knows where the host ends. The result is right
where none of them stands in a later part. The copy has no query and no fragment, and the
external form no default port.
-/
namespace Axis2C.Urls
open FirstOccurrence HttpServer
open Uris (strcasecmp)

section Urls

/-- `AXIS2_ATOI`. -/
def axutilAtoi (s : Text) : ℕ := Nat.ofDigitChars 10 (s.takeWhile Char.isDigit) 0

/-- What stands in front of the path, and the path: at the first slash, where the slash is
skipped, else at the query, else the root. -/
def splitPath (text : Text) : Text × Text :=
  match search ['/'] text with
  | some path => (upTo text path, path.tail)
  | none =>
    match queryPart text with
    | some path => (upTo text path, path)
    | none => (text, ['/'])

/-- `axutil_url_parse_string`. -/
def parseString (strUrl : Text) : Option Url :=
  match search "://".toList strUrl with
  | none => none
  | some mark =>
    let protocol := upTo strUrl mark
    let host := mark.drop 3
    if host = [] then none
    else if strcasecmp protocol "file".toList then urlCreate protocol none 0 (some host)
    else
      match search [':'] host with
      | none =>
        let split := splitPath host
        urlCreate protocol (some split.1) 0 (some split.2)
      | some portStr =>
        let split := splitPath portStr.tail
        urlCreate protocol (some (upTo host portStr)) (axutilAtoi split.1)
          (some (if split.2 = [] then ['/'] else split.2))

/-- `axutil_url_to_external_form`. -/
def toExternalForm (url : Url) : Text :=
  let printPort := url.port ≠ 0 ∧ url.port ≠ Uris.portOfScheme (some url.protocol)
  url.protocol ++ "://".toList ++ url.host.getD [] ++
    (if printPort then ':' :: formatPort url.port else []) ++ url.path.getD [] ++
    url.query.getD []

/-- `axutil_url_clone`. The path and the query are put together and then not used. -/
def clone (url : Url) : Option Url := urlCreate url.protocol url.host url.port url.path

/-- `axutil_url_get_port`. -/
def getPort (url : Url) : ℕ :=
  if url.port = 0 then Uris.portOfScheme (some url.protocol) else url.port

end Urls

/-- The parts a URL is put together from. A query or a fragment that is left out is empty. -/
structure Parts where
  protocol : Text
  host : Text
  port : Option ℕ
  path : Text
  query : Text
  fragment : Text
  protocol_ne : protocol ≠ []
  protocol_mark : ¬ "://".toList <:+: protocol
  protocol_file : protocol ≠ "file".toList
  host_ne : host ≠ []
  host_colon : ':' ∉ host
  host_slash : '/' ∉ host
  host_question : '?' ∉ host
  host_hash : '#' ∉ host
  port_range : ∀ n ∈ port, 1 ≤ n ∧ n ≤ 65535
  path_head : path = [] ∨ path.head? = some '/'
  path_question : '?' ∉ path
  path_hash : '#' ∉ path
  query_head : query = [] ∨ query.head? = some '?'
  fragment_head : fragment = [] ∨ fragment.head? = some '#'

namespace Parts

variable (x : Parts)

def portText : Text :=
  match x.port with
  | none => []
  | some n => ':' :: formatPort n

/-- What follows the authority. -/
def rest : Text := x.path ++ (x.query ++ x.fragment)

/-- The URL as a string. -/
def text : Text := x.protocol ++ "://".toList ++ (x.host ++ (x.portText ++ x.rest))

def rootPath : Text := if x.path = [] then ['/'] else x.path

def queryText : Option Text :=
  if x.query ++ x.fragment = [] then none else some (x.query ++ x.fragment)

def url : Url :=
  { protocol := x.protocol
    host := some x.host
    port := x.port.getD 0
    path := some x.rootPath
    query := x.queryText }

end Parts

/-- Two URLs lead to the same place. -/
structure SameUrl (v u : Url) : Prop where
  protocol : v.protocol = u.protocol
  host : v.host = u.host
  port : getPort v = getPort u
  path : v.path = u.path
  query : v.query = u.query

/-- The string is parsed into its parts, and the external form and the copy of the result
lead to the same place. -/
structure RoundTrips (x : Parts) : Prop where
  parse : parseString x.text = some x.url
  external : ∃ v, parseString (toExternalForm x.url) = some v ∧ SameUrl v x.url
  clone : ∃ v, Urls.clone x.url = some v ∧ SameUrl v x.url

/-- No delimiter stands where the parser takes it for one of an earlier part. -/
structure Separable (x : Parts) : Prop where
  file : ¬ strcasecmp x.protocol "file".toList = true
  colon : x.port = none → ':' ∉ x.rest
  slashes : ¬ "//".toList <+: x.path
  slash : x.path = [] → '/' ∉ x.query ++ x.fragment
  question : x.query = [] → '?' ∉ x.fragment

section Create

variable {protocol host path : Text} {port : ℕ} {v : Url}

lemma urlCreate_eq_some (h : urlCreate protocol (some host) port (some path) = some v) :
    v = ⟨protocol, some host, port, some (pathOf path), queryPart (rooted path)⟩ := by
  by_cases hbad : protocol = [] ∨ (search "://".toList protocol).isSome ∨
      ((some host).bind (search ['/'])).isSome
  · rw [urlCreate, if_pos hbad] at h
    cases h
  · rw [urlCreate, if_neg hbad] at h
    simpa [pathOf] using h.symm

lemma urlCreate_some (x : Parts) (port : ℕ) (path : Text) :
    urlCreate x.protocol (some x.host) port (some path) =
      some ⟨x.protocol, some x.host, port, some (pathOf path), queryPart (rooted path)⟩ := by
  unfold urlCreate
  rw [if_neg]
  · simp [pathOf]
  · rw [search_eq_none_iff.mpr x.protocol_mark, Option.bind_some,
      search_singleton_none x.host_slash]
    simp [x.protocol_ne]

end Create

section Pieces

variable {x : Parts}

lemma head_query (x : Parts) : ∀ c ∈ (x.query ++ x.fragment).head?, c = '?' ∨ c = '#' := by
  intro c hc
  rcases x.query_head with hq | hq
  · rcases x.fragment_head with hf | hf
    · simp [hq, hf] at hc
    · rw [hq, List.nil_append, hf] at hc
      exact Or.inr (Option.some.inj hc).symm
  · rw [List.head?_append, hq] at hc
    exact Or.inl (Option.some.inj hc).symm

/-- The query begins where it was put, unless there is none and a question mark stands in
the fragment. -/
lemma queryPart_front {front : Text} (hquestion : '?' ∉ front) (hhash : '#' ∉ front)
    (hmark : x.query = [] → '?' ∉ x.fragment) :
    queryPart (front ++ (x.query ++ x.fragment)) = x.queryText := by
  unfold queryPart Parts.queryText
  cases hq : x.query with
  | cons c q =>
    have hc : c = '?' := by simpa [hq] using x.query_head
    subst hc
    rw [List.cons_append, search_singleton _ hquestion]
    simp
  | nil =>
    have hnone : '?' ∉ front ++ ([] ++ x.fragment) := by simp [hquestion, hmark hq]
    rw [search_singleton_none hnone]
    cases hf : x.fragment with
    | nil => simpa using search_singleton_none hhash
    | cons c f =>
      have hc : c = '#' := by simpa [hf] using x.fragment_head
      subst hc
      rw [List.nil_append, search_singleton _ hhash]
      simp

lemma rootPath_question (x : Parts) : '?' ∉ x.rootPath := by
  unfold Parts.rootPath
  split_ifs
  · decide
  · exact x.path_question

lemma rootPath_hash (x : Parts) : '#' ∉ x.rootPath := by
  unfold Parts.rootPath
  split_ifs
  · decide
  · exact x.path_hash

lemma rootPath_head (x : Parts) : x.rootPath.head? = some '/' := by
  unfold Parts.rootPath
  split_ifs with hp
  · rfl
  · exact x.path_head.resolve_left hp

lemma getD_queryText (x : Parts) : x.queryText.getD [] = x.query ++ x.fragment := by
  unfold Parts.queryText
  split_ifs with h
  · simp [h]
  · rfl

/-- The path that is passed on is right if a slash in front of it gives all that follows
the authority. -/
lemma pathOf_eq {path : Text} (hrooted : rooted path = x.rootPath ++ (x.query ++ x.fragment))
    (hmark : x.query = [] → '?' ∉ x.fragment) :
    queryPart (rooted path) = x.queryText ∧ pathOf path = x.rootPath := by
  have hquery : queryPart (rooted path) = x.queryText := by
    rw [hrooted, queryPart_front (rootPath_question x) (rootPath_hash x) hmark]
  have hwhole := path_query path
  rw [hquery, getD_queryText, hrooted] at hwhole
  exact ⟨hquery, List.append_cancel_right hwhole⟩

lemma rooted_default (path : Text) : rooted (if path = [] then ['/'] else path) = rooted path := by
  by_cases h : path = []
  · rw [if_pos h, h]
    rfl
  · rw [if_neg h]

lemma pathOf_default (path : Text) : pathOf (if path = [] then ['/'] else path) = pathOf path := by
  unfold pathOf
  rw [rooted_default]

variable {front : Text}

lemma splitPath_front (hslash : '/' ∉ front) (hquestion : '?' ∉ front) (hhash : '#' ∉ front)
    (h : Separable x) : ∃ path, splitPath (front ++ x.rest) = (front, path) ∧
      rooted path = x.rootPath ++ (x.query ++ x.fragment) := by
  unfold splitPath Parts.rest Parts.rootPath
  cases hp : x.path with
  | cons c p =>
    have hc : c = '/' := by simpa [hp] using x.path_head
    subst hc
    refine ⟨p ++ (x.query ++ x.fragment), ?_, ?_⟩
    · rw [List.cons_append, search_singleton _ hslash]
      simp
    · have hsecond : (p ++ (x.query ++ x.fragment)).head? ≠ some '/' := by
        intro hhead
        cases p with
        | nil => simpa using head_query x _ hhead
        | cons d p =>
          have hd : d = '/' := by simpa using hhead
          exact h.slashes (by simp [hp, hd])
      rw [rooted, if_neg hsecond]
      simp
  | nil =>
    have hnone : '/' ∉ front ++ ([] ++ (x.query ++ x.fragment)) := by
      simpa [hslash] using h.slash hp
    rw [search_singleton_none hnone, List.nil_append,
      queryPart_front hquestion hhash h.question]
    by_cases hw : x.query ++ x.fragment = []
    · exact ⟨['/'], by simp [Parts.queryText, hw], by simp [hw, rooted]⟩
    · have hhead : (x.query ++ x.fragment).head? ≠ some '/' := by
        intro hhead
        simpa using head_query x _ hhead
      refine ⟨x.query ++ x.fragment, by simp [Parts.queryText, hw], ?_⟩
      rw [rooted, if_neg hhead, if_pos rfl]
      rfl

lemma question_of_queryPart
    (hquery : queryPart (x.rootPath ++ (x.query ++ x.fragment)) = x.queryText) :
    x.query = [] → '?' ∉ x.fragment := by
  intro hq hf
  cases hs : search ['?'] (x.rootPath ++ (x.query ++ x.fragment)) with
  | none =>
    have hnone := search_singleton_eq_none_iff.mp hs
    simp [hf] at hnone
  | some t =>
    obtain ⟨a, r, -, rfl, -⟩ := search_singleton_eq_some hs
    have htext : x.queryText = some ('?' :: r) := by rw [← hquery, queryPart, hs]
    have hfragment : x.fragment = '?' :: r := by
      have hget := getD_queryText x
      rw [htext, hq] at hget
      exact hget.symm
    have hhead := x.fragment_head
    rw [hfragment] at hhead
    simp at hhead

lemma length_rooted_le (path : Text) : (rooted path).length ≤ path.length + 1 := by
  unfold rooted
  split_ifs <;> simp

lemma slash_of_splitPath (hslash : '/' ∉ front)
    (hrooted : rooted (splitPath (front ++ x.rest)).2 = x.rootPath ++ (x.query ++ x.fragment)) :
    ¬ "//".toList <+: x.path ∧ (x.path = [] → '/' ∉ x.query ++ x.fragment) := by
  unfold splitPath Parts.rest at hrooted
  cases hp : x.path with
  | cons c p =>
    have hc : c = '/' := by simpa [hp] using x.path_head
    subst hc
    rw [hp, List.cons_append, search_singleton _ hslash] at hrooted
    refine ⟨fun hslashes => ?_, by simp⟩
    cases p with
    | nil => simp at hslashes
    | cons d p =>
      have hd : '/' = d := by simpa using hslashes
      subst hd
      have hlen := congrArg List.length hrooted
      simp [rooted, Parts.rootPath, hp] at hlen
  | nil =>
    refine ⟨by simp, fun _ hmem => ?_⟩
    cases hs : search ['/'] (x.query ++ x.fragment) with
    | none => exact search_singleton_eq_none_iff.mp hs hmem
    | some t =>
      obtain ⟨a, r, hsplit, -, ha⟩ := search_singleton_eq_some hs
      have hne : a ≠ [] := by
        rintro rfl
        have hhead := head_query x '/' (by simp [hsplit])
        simp at hhead
      have hfront : '/' ∉ front ++ a := by simp [hslash, ha]
      rw [hp, List.nil_append, hsplit, ← List.append_assoc, search_singleton _ hfront]
        at hrooted
      -- the text in front of the slash is missing from the path
      have hlen := congrArg List.length hrooted
      have hle := length_rooted_le r
      have hpos : 0 < a.length := List.length_pos_of_ne_nil hne
      simp only [Parts.rootPath, hp, if_pos, List.tail_cons, List.length_append,
        List.length_cons, List.length_nil] at hlen hle
      omega

end Pieces

section Parse

variable {x : Parts} {v : Url}

/-- The first "://" is the one behind the protocol. -/
lemma search_mark (x : Parts) (more : Text) :
    search "://".toList (x.protocol ++ ("://".toList ++ more)) = some ("://".toList ++ more) := by
  refine search_append ⟨List.prefix_append _ _, ?_⟩
  intro b u hsplit hu
  by_contra hlt
  obtain ⟨w, hprotocol, -⟩ | ⟨w, hprotocol, rfl⟩ := List.append_eq_append_iff.mp hsplit
  · simp [hprotocol] at hlt
  · have hw : ¬ "://".toList <:+: w := by
      intro hinfix
      apply x.protocol_mark
      rw [hprotocol]
      exact hinfix.trans (List.suffix_append b w).isInfix
    match w with
    | [] => simp [hprotocol] at hlt
    | [_] | [_, _] => simp at hu
    | c :: d :: e :: w =>
      obtain ⟨rfl, rfl, rfl⟩ : ':' = c ∧ '/' = d ∧ '/' = e := by simpa using hu
      exact hw (List.IsPrefix.isInfix (by simp))

lemma formatPort_digits (n : ℕ) : ∀ c ∈ formatPort n, c.isDigit = true :=
  fun _ hc => Nat.isDigit_of_mem_toDigits (by decide) (by decide) hc

lemma not_mem_formatPort {c : Char} (n : ℕ) (hc : c.isDigit = false) : c ∉ formatPort n := by
  intro hmem
  rw [formatPort_digits n c hmem] at hc
  cases hc

lemma axutilAtoi_formatPort (n : ℕ) : axutilAtoi (formatPort n) = n := by
  rw [axutilAtoi, List.takeWhile_eq_self_iff.mpr (formatPort_digits n)]
  exact Nat.ofDigitChars_ten_toDigits

lemma parseString_eq (x : Parts) {more : Text} (hne : more ≠ [])
    (hfile : ¬ strcasecmp x.protocol "file".toList = true) :
    parseString (x.protocol ++ ("://".toList ++ more)) =
      match search [':'] more with
      | none => urlCreate x.protocol (some (splitPath more).1) 0 (some (splitPath more).2)
      | some portStr =>
        urlCreate x.protocol (some (upTo more portStr)) (axutilAtoi (splitPath portStr.tail).1)
          (some (if (splitPath portStr.tail).2 = [] then ['/']
            else (splitPath portStr.tail).2)) := by
  have hdrop : ("://".toList ++ more).drop 3 = more := by simp
  unfold parseString
  simp only [search_mark, upTo_append, hdrop]
  rw [if_neg hne, if_neg hfile]

/-- The parts of a URL are found if nothing is in the way. -/
lemma parse_of_separable (h : Separable x) : parseString x.text = some x.url := by
  have hne {more : Text} : x.host ++ more ≠ [] := by simp [x.host_ne]
  unfold Parts.text Parts.portText
  rw [List.append_assoc]
  cases hport : x.port with
  | none =>
    have hcolon : ':' ∉ x.host ++ x.rest := by simp [x.host_colon, h.colon hport]
    obtain ⟨path, hsplit, hrooted⟩ :=
      splitPath_front x.host_slash x.host_question x.host_hash h
    obtain ⟨hquery, hpath⟩ := pathOf_eq hrooted h.question
    rw [List.nil_append, parseString_eq x hne h.file, search_singleton_none hcolon]
    simp only [hsplit, urlCreate_some, hquery, hpath]
    simp [Parts.url, hport]
  | some n =>
    obtain ⟨path, hsplit, hrooted⟩ := splitPath_front (not_mem_formatPort n (by decide))
      (not_mem_formatPort n (by decide)) (not_mem_formatPort n (by decide)) h
    obtain ⟨hquery, hpath⟩ := pathOf_eq hrooted h.question
    rw [List.cons_append, parseString_eq x hne h.file, search_singleton _ x.host_colon]
    simp only [List.tail_cons, hsplit, upTo_append, urlCreate_some, rooted_default,
      pathOf_default, hquery, hpath, axutilAtoi_formatPort]
    simp [Parts.url, hport]

lemma parse_file {more : Text} (hne : more ≠ [])
    (hfile : strcasecmp x.protocol "file".toList = true)
    (h : parseString (x.protocol ++ ("://".toList ++ more)) = some v) : v.host = none := by
  have hdrop : ("://".toList ++ more).drop 3 = more := by simp
  unfold parseString at h
  simp only [search_mark, upTo_append, hdrop] at h
  rw [if_neg hne, if_pos hfile] at h
  by_cases hbad : x.protocol = [] ∨ (search "://".toList x.protocol).isSome ∨
      (none.bind (search ['/'])).isSome
  · rw [urlCreate, if_pos hbad] at h
    cases h
  · rw [urlCreate, if_neg hbad] at h
    rw [← Option.some.inj h]

lemma rest_head (x : Parts) : x.rest.head? ≠ some ':' := by
  intro hhead
  unfold Parts.rest at hhead
  rcases x.path_head with hp | hp
  · rw [hp, List.nil_append] at hhead
    simpa using head_query x ':' hhead
  · rw [List.head?_append, hp] at hhead
    simp at hhead

/-- The path and the query that a URL is made with give back what they were cut from. -/
lemma rooted_of_url {path : Text} (hpath : pathOf path = x.rootPath)
    (hquery : queryPart (rooted path) = x.queryText) :
    rooted path = x.rootPath ++ (x.query ++ x.fragment) := by
  have hwhole := path_query path
  rw [hquery, hpath, getD_queryText] at hwhole
  exact hwhole.symm

/-- The host, the path and the query are right only if nothing was in the way. -/
lemma separable_of_parse (h : parseString x.text = some v) (hhost : v.host = some x.host)
    (hpath : v.path = some x.rootPath) (hquery : v.query = x.queryText) : Separable x := by
  have hne {more : Text} : x.host ++ more ≠ [] := by simp [x.host_ne]
  unfold Parts.text Parts.portText at h
  rw [List.append_assoc] at h
  have hfile : ¬ strcasecmp x.protocol "file".toList = true := by
    intro hfile
    rw [parse_file hne hfile h] at hhost
    cases hhost
  rw [parseString_eq x hne hfile] at h
  cases hport : x.port with
  | none =>
    rw [hport, List.nil_append] at h
    cases hs : search [':'] (x.host ++ x.rest) with
    | none =>
      rw [hs] at h
      obtain rfl := urlCreate_eq_some h
      have hrooted := rooted_of_url (Option.some.inj hpath) hquery
      have hcolon := search_singleton_eq_none_iff.mp hs
      obtain ⟨hslashes, hslash⟩ := slash_of_splitPath x.host_slash hrooted
      exact
        { file := hfile
          colon := fun _ hmem => hcolon (List.mem_append_right _ hmem)
          slashes := hslashes
          slash := hslash
          question := question_of_queryPart (hrooted ▸ hquery) }
    | some portStr =>
      obtain ⟨a, r, hsplit, rfl, -⟩ := search_singleton_eq_some hs
      rw [hs] at h
      obtain rfl := urlCreate_eq_some h
      have hfront : a = x.host := by simpa [hsplit] using hhost
      rw [hfront, List.append_cancel_left_eq] at hsplit
      exact absurd (by simp [hsplit]) (rest_head x)
  | some n =>
    rw [hport, List.cons_append, search_singleton _ x.host_colon] at h
    obtain rfl := urlCreate_eq_some h
    have hrooted := rooted_of_url (Option.some.inj hpath) hquery
    have hquestion := question_of_queryPart (hrooted ▸ hquery)
    rw [rooted_default] at hrooted
    obtain ⟨hslashes, hslash⟩ := slash_of_splitPath (not_mem_formatPort n (by decide)) hrooted
    exact
      { file := hfile
        colon := fun hnone => absurd hnone (by simp [hport])
        slashes := hslashes
        slash := hslash
        question := hquestion }

end Parse

section Keep

variable {x : Parts}

def Parts.external (x : Parts) : Parts :=
  { x with
    port := x.port.bind fun n =>
      if n = Uris.portOfScheme (some x.protocol) then none else some n
    path := x.rootPath
    port_range := by
      intro n hn
      obtain ⟨m, hm, hsome⟩ := Option.bind_eq_some_iff.mp hn
      split_ifs at hsome
      obtain rfl := Option.some.inj hsome
      exact x.port_range m hm
    path_head := Or.inr (rootPath_head x)
    path_question := rootPath_question x
    path_hash := rootPath_hash x }

lemma rootPath_external (x : Parts) : x.external.rootPath = x.rootPath := by
  have hne : x.rootPath ≠ [] := by
    intro hnil
    have hhead := rootPath_head x
    rw [hnil] at hhead
    cases hhead
  exact if_neg hne

lemma toExternalForm_url (hquery : x.query = []) (hfragment : x.fragment = []) :
    toExternalForm x.url = x.external.text := by
  have htext : x.queryText = none := by simp [Parts.queryText, hquery, hfragment]
  have hport : (if (x.port.getD 0 ≠ 0 ∧ x.port.getD 0 ≠ Uris.portOfScheme (some x.protocol)) then
      ':' :: formatPort (x.port.getD 0) else []) = x.external.portText := by
    cases hport : x.port with
    | none => simp [Parts.portText, Parts.external, hport]
    | some n =>
      have hpos : n ≠ 0 := by
        have := (x.port_range n hport).1
        omega
      by_cases hn : n = Uris.portOfScheme (some x.protocol)
      · simp [Parts.portText, Parts.external, hport, ← hn]
      · simp [Parts.portText, Parts.external, hport, hn, hpos]
  unfold toExternalForm Parts.text Parts.rest
  simp only [Parts.url, hport, htext, Option.getD_some, Option.getD_none]
  simp [Parts.external, hquery, hfragment]

lemma getPort_external (x : Parts) : getPort x.external.url = getPort x.url := by
  cases hport : x.port with
  | none => simp [getPort, Parts.url, Parts.external, hport]
  | some n =>
    by_cases hn : n = Uris.portOfScheme (some x.protocol)
    · simp [getPort, Parts.url, Parts.external, hport, ← hn]
    · simp [getPort, Parts.url, Parts.external, hport, hn]

lemma sameUrl_external (x : Parts) : SameUrl x.external.url x.url :=
  { protocol := rfl
    host := rfl
    port := getPort_external x
    path := congrArg some (rootPath_external x)
    query := rfl }

/-- The copy has no query. -/
lemma clone_url (x : Parts) : Urls.clone x.url = some { x.url with query := none } := by
  have hrooted : rooted x.rootPath = x.rootPath := by
    rw [rooted, if_pos (rootPath_head x)]
  have hnone : queryPart (rooted x.rootPath) = none := by
    rw [hrooted, queryPart, search_singleton_none (rootPath_question x)]
    exact search_singleton_none (rootPath_hash x)
  have hpath : pathOf x.rootPath = x.rootPath := by
    rw [pathOf, hnone, hrooted]
  rw [Urls.clone, Parts.url, urlCreate_some, hnone, hpath]

lemma separable_external_iff (h : Separable x) (hquery : x.query = [])
    (hfragment : x.fragment = []) :
    Separable x.external ↔
      (x.port = some (Uris.portOfScheme (some x.protocol)) → ':' ∉ x.path) := by
  have hrest : ':' ∈ x.external.rest ↔ ':' ∈ x.path := by
    unfold Parts.rest
    by_cases hp : x.path = []
    · simp [Parts.external, Parts.rootPath, hquery, hfragment, hp]
    · simp [Parts.external, Parts.rootPath, hquery, hfragment, hp]
  have hslashes : ¬ "//".toList <+: x.external.path := by
    change ¬ "//".toList <+: x.rootPath
    unfold Parts.rootPath
    split_ifs
    · decide
    · exact h.slashes
  constructor
  · intro hexternal hport hmem
    exact hexternal.colon (by simp [Parts.external, hport]) (hrest.mpr hmem)
  · intro hcolon
    exact
      { file := h.file
        colon := by
          intro hnone hmem
          rw [hrest] at hmem
          cases hport : x.port with
          | none => exact h.colon hport (List.mem_append_left _ hmem)
          | some n =>
            have hn : n = Uris.portOfScheme (some x.protocol) := by
              simpa [Parts.external, hport] using hnone
            exact hcolon (hn ▸ hport) hmem
        slashes := hslashes
        slash := fun _ => by simp [Parts.external, hquery, hfragment]
        question := fun _ => by simp [Parts.external, hfragment] }

end Keep

/-- A URL is parsed into its parts exactly if no delimiter is in the way, and then kept by
the external form and the copy exactly if it has no query and no fragment, and no colon in
the path behind a default port. -/
theorem url_round_trips_iff (x : Parts) :
    (parseString x.text = some x.url ↔ Separable x) ∧
      (RoundTrips x ↔ Separable x ∧ x.query = [] ∧ x.fragment = [] ∧
        (x.port = some (Uris.portOfScheme (some x.protocol)) → ':' ∉ x.path)) := by
  have hparse : parseString x.text = some x.url ↔ Separable x :=
    ⟨fun h => separable_of_parse h rfl rfl rfl, parse_of_separable⟩
  refine ⟨hparse, ?_⟩
  constructor
  · intro h
    have hseparable := hparse.mp h.parse
    obtain ⟨v, hv, hsame⟩ := h.clone
    have hempty : x.query ++ x.fragment = [] := by
      have hnone := hsame.query
      rw [clone_url] at hv
      rw [← Option.some.inj hv] at hnone
      rw [← getD_queryText]
      exact (congrArg (·.getD []) hnone).symm
    obtain ⟨hquery, hfragment⟩ := List.append_eq_nil_iff.mp hempty
    obtain ⟨w, hw, hsame⟩ := h.external
    rw [toExternalForm_url hquery hfragment] at hw
    have hexternal := separable_of_parse hw hsame.host
      (hsame.path.trans (sameUrl_external x).path.symm) hsame.query
    exact ⟨hseparable, hquery, hfragment,
      (separable_external_iff hseparable hquery hfragment).mp hexternal⟩
  · rintro ⟨hseparable, hquery, hfragment, hcolon⟩
    have hexternal := (separable_external_iff hseparable hquery hfragment).mpr hcolon
    have htext : x.queryText = none := by simp [Parts.queryText, hquery, hfragment]
    exact
      { parse := hparse.mpr hseparable
        external := ⟨x.external.url, by
          rw [toExternalForm_url hquery hfragment]
          exact parse_of_separable hexternal, sameUrl_external x⟩
        clone := ⟨_, clone_url x,
          { protocol := rfl, host := rfl, port := rfl, path := rfl, query := htext.symm }⟩ }

/-- A colon in the path ends the host, which then has a slash in it. -/
theorem colon_in_path_rejected :
    ∃ x : Parts, x.text = "http://h/a:b".toList ∧ parseString x.text = none ∧ ¬ RoundTrips x := by
  have hnone : parseString "http://h/a:b".toList = none := by decide
  refine ⟨⟨"http".toList, "h".toList, none, "/a:b".toList, [], [], by decide, by decide, by decide,
    by decide, by decide, by decide, by decide, by decide, by simp, by decide, by decide, by decide,
    by decide, by decide⟩, rfl, hnone, fun h => ?_⟩
  exact absurd (h.parse.symm.trans hnone) (by simp)

end Axis2C.Urls
