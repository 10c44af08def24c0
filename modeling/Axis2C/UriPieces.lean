import Axis2C.Uri
import Mathlib.Data.List.TakeWhile

/-!
# What the URI parser reads

The pieces of a URI with the conditions under which the parser takes them for what
they are. A string is accepted exactly when it is put together from such pieces, apart
from one slip: behind the bracket of an IPv6 address anything but a colon is skipped,
and the address then runs up to the last character but one.
-/
namespace Axis2C.Uris
open FirstOccurrence

section Tails

def prefixed (c : Char) : Option Text → Text
  | none => []
  | some s => c :: s

def Tail.text (t : Tail) : Text := t.path.getD [] ++ prefixed '?' t.query ++ prefixed '#' t.fragment

def Uri.tail (u : Uri) : Tail := ⟨u.path, u.query, u.fragment⟩

structure Tail.Ok (t : Tail) : Prop where
  path_ne : t.path ≠ some []
  path : ∀ c ∈ t.path.getD [], endsPath c = false
  query : '#' ∉ t.query.getD []

/-- The path stops at a question mark or a hash. -/
lemma Tail.head_behind (query fragment : Option Text) :
    ∀ c ∈ (prefixed '?' query ++ prefixed '#' fragment).head?, endsPath c = true := by
  intro c hc
  cases query <;> cases fragment <;> simp_all [prefixed] <;> subst hc <;> decide

lemma readTail_text {t : Tail} (h : t.Ok) : readTail t.text = t := by
  obtain ⟨path, query, fragment⟩ := t
  have hscan : ∀ c ∈ path.getD [], (!endsPath c) = true := by simpa using h.path
  have hstop : ∀ c ∈ (prefixed '?' query ++ prefixed '#' fragment).head?,
      (!endsPath c) = false := by
    simpa using Tail.head_behind query fragment
  have htext : Tail.text ⟨path, query, fragment⟩ =
      path.getD [] ++ (prefixed '?' query ++ prefixed '#' fragment) := by
    simp [Tail.text]
  have hpath : (if path.getD [] = [] then none else some (path.getD [])) = path := by
    cases path with
    | none => rfl
    | some p => simpa using h.path_ne
  simp only [readTail, htext, takeWhile_upto hscan hstop, dropWhile_upto hscan hstop, hpath]
  cases query with
  | none => cases fragment <;> rfl
  | some q =>
    cases fragment with
    | none =>
      have hnone : search ['#'] q = none := search_singleton_none h.query
      simp [prefixed, hnone]
    | some f =>
      have hsome : search ['#'] (q ++ '#' :: f) = some ('#' :: f) :=
        search_singleton f h.query
      simp [prefixed, hsome]

/-- Every text is that of some path, query and fragment. -/
lemma exists_tail (s : Text) : ∃ t : Tail, t.Ok ∧ t.text = s := by
  have hsplit : s.takeWhile (!endsPath ·) ++ s.dropWhile (!endsPath ·) = s :=
    List.takeWhile_append_dropWhile
  have hscan : ∀ c ∈ s.takeWhile (!endsPath ·), endsPath c = false := by
    intro c hc
    simpa using List.mem_takeWhile_imp hc
  have hstop := head_dropWhile_false (p := (!endsPath ·)) s
  generalize s.takeWhile (!endsPath ·) = path at hsplit hscan
  generalize s.dropWhile (!endsPath ·) = rest at hsplit hstop
  -- what is left is a query and a fragment
  have hrest : ∃ query fragment : Option Text, '#' ∉ query.getD [] ∧
      prefixed '?' query ++ prefixed '#' fragment = rest := by
    cases rest with
    | nil => exact ⟨none, none, by simp, rfl⟩
    | cons c r =>
      have hc : c = '?' ∨ c = '#' := by
        have hends := hstop c rfl
        simpa [endsPath, or_iff_not_imp_left] using hends
      rcases hc with rfl | rfl
      · by_cases hash : '#' ∈ r
        · obtain ⟨q, f, rfl, hq⟩ := List.eq_append_cons_of_mem hash
          exact ⟨some q, some f, hq, by simp [prefixed]⟩
        · exact ⟨some r, none, hash, by simp [prefixed]⟩
      · exact ⟨none, some r, by simp, by simp [prefixed]⟩
  obtain ⟨query, fragment, hquery, rfl⟩ := hrest
  by_cases hp : path = []
  · refine ⟨⟨none, query, fragment⟩, ⟨by simp, by simp, hquery⟩, ?_⟩
    simpa [Tail.text, hp] using hsplit
  · refine ⟨⟨some path, query, fragment⟩, ⟨by simpa using hp, hscan, hquery⟩, ?_⟩
    simpa [Tail.text] using hsplit

lemma text_readTail (s : Text) : (readTail s).text = s := by
  obtain ⟨t, ht, rfl⟩ := exists_tail s
  rw [readTail_text ht]

end Tails

section Hosts

/-- What may follow the bracket of an IPv6 address. -/
def StartsAddress (x : Text) : Prop :=
  x[0]?.any isAlnum ∨ (x[0]? = some ':' ∧ x[1]? = some ':')

def StartsName (h : Text) : Prop := h.head?.all isAlnum

/-- The host text is read as a host name, with the flag of an IPv6 address, and a port. -/
inductive HostReads : Text → Bool → Text → Option Text → Prop
  | address {x y : Text} (hx : ']' ∉ x) (hstart : StartsAddress x) (hy : y.head? ≠ some ':') :
      HostReads ('[' :: (x ++ ']' :: y)) true (x ++ ']' :: y).dropLast none
  | addressPort {x : Text} (p : Text) (hx : ']' ∉ x) (hstart : StartsAddress x) :
      HostReads ('[' :: (x ++ ']' :: ':' :: p)) true x (some p)
  | name {h : Text} (hh : ':' ∉ h) (hstart : StartsName h) : HostReads h false h none
  | namePort {h : Text} (p : Text) (hh : ':' ∉ h) (hne : h ≠ []) (hstart : StartsName h) :
      HostReads (h ++ ':' :: p) false h (some p)

def PortReads (scheme : Option Text) : Option Text → ℕ → Prop
  | none, port => port = 0
  | some [], port => port = portOfScheme scheme
  | some (c :: p), port => (strtol (c :: p)).2 = [] ∧ port = toPort (strtol (c :: p)).1

/-- A text that can stand behind an authority. -/
def Behind (uriStr : Text) : Prop := ∀ c ∈ uriStr.head?, endsHostinfo c = true

lemma Behind.getElem_zero {uriStr : Text} (h : Behind uriStr) {c : Char}
    (hc : endsHostinfo c = false) : uriStr[0]? ≠ some c := by
  intro hhead
  rw [← List.head?_eq_getElem?] at hhead
  simpa [hc] using h c hhead

variable {uri u : Uri} {uriStr hostinfo : Text}

section

variable (hinfo : uri.hostinfo ≠ none) (h : Behind uriStr)

include hinfo h

lemma dealWithPath_behind : dealWithPath uri uriStr = some (uri.withTail (readTail uriStr)) := by
  have hcolon := h.getElem_zero (c := ':') (by decide)
  simp [dealWithPath, hinfo, hcolon]

lemma dealWithPort_none (o₁ o₂ : ℕ) :
    dealWithPort uri hostinfo none o₁ o₂ uriStr =
      some ({ uri with
        hostname := some ((hostinfo.drop o₁).take (hostinfo.length - o₂)) }.withTail
          (readTail uriStr)) := by
  exact dealWithPath_behind hinfo h

lemma dealWithPort_some (p : Text) (o₁ o₂ : ℕ) :
    dealWithPort uri hostinfo (some (':' :: p)) o₁ o₂ uriStr = some u ↔
      ∃ port, PortReads uri.scheme (some p) port ∧
        u = ({ uri with
          hostname := some ((hostinfo.drop o₁).take (hostinfo.length - (p.length + 1) - o₂))
          portStr := some p
          port := port }).withTail (readTail uriStr) := by
  cases p with
  | nil =>
    simp [dealWithPort, dealWithPath_behind, hinfo, h, PortReads, eq_comm]
  | cons c p =>
    by_cases hend : (strtol (c :: p)).2 = []
    · simp [dealWithPort, dealWithPath_behind, hinfo, h, PortReads, hend, eq_comm]
    · simp [dealWithPort, PortReads, hend]

end

/-- The result of `deal_with_host` for a host with these parts. -/
def Uri.withHost (uri : Uri) (isIpv6 : Bool) (hostname : Text) (portStr : Option Text) (port : ℕ) :
    Uri :=
  { uri with isIpv6 := isIpv6, hostname := some hostname, portStr := portStr, port := port }

/-- The characters that the source looks at behind an opening bracket are those of the
address, as a delimiter behind the host is no such character. -/
lemma address_tests {x : Text} (hx : ']' ∉ x) (y uriStr : Text) :
    let s := '[' :: (x ++ ']' :: y) ++ uriStr
    (s[1]? ≠ some ']' ∧ (s[1]?.any isAlnum ∨ (s[1]? = some ':' ∧ s[2]? = some ':'))) ↔
      StartsAddress x := by
  match x with
  | [] => simp [StartsAddress, isAlnum]
  | [a] =>
    have ha : a ≠ ']' := by simpa [eq_comm] using hx
    simp [StartsAddress, ha]
  | a :: b :: x =>
    have ha : a ≠ ']' := by
      rintro rfl
      simp at hx
    simp [StartsAddress, ha]

lemma ne_bracket_of_isAlnum {c : Char} (h : isAlnum c = true) : c ≠ '[' := by
  rintro rfl
  revert h
  decide

/-- A host name passes the test on its first character, and an empty one passes it on the
delimiter behind it. -/
lemma name_tests {h : Text} (more : Text) (hbehind : Behind uriStr) (hstart : StartsName h)
    (hmore : h = [] → more = []) :
    let s := h ++ more ++ uriStr
    s[0]? ≠ some '[' ∧ s[0]?.all (fun c => isAlnum c || endsHostinfo c) := by
  cases h with
  | nil =>
    rw [hmore rfl]
    refine ⟨hbehind.getElem_zero (by decide), ?_⟩
    rw [← List.head?_eq_getElem?]
    cases hhead : ([] ++ [] ++ uriStr : Text).head? with
    | none => rfl
    | some c => simp [hbehind c hhead]
  | cons c h =>
    have hc : isAlnum c = true := by simpa [StartsName] using hstart
    simp [hc, ne_bracket_of_isAlnum hc]

section Fresh

variable (hinfo : uri.hostinfo ≠ none) (hdelim : ∀ c ∈ hostinfo, endsHostinfo c = false)
  (hbehind : Behind uriStr)
include hinfo hdelim hbehind

omit hdelim in
lemma dealWithHost_of_reads (hport : uri.port = 0) (hportStr : uri.portStr = none)
    (hv6 : uri.isIpv6 = false) {isIpv6 : Bool} {hostname : Text} {portStr : Option Text} {port : ℕ}
    (h : HostReads hostinfo isIpv6 hostname portStr) (hp : PortReads uri.scheme portStr port) :
    dealWithHost uri hostinfo uriStr =
      some ((uri.withHost isIpv6 hostname portStr port).withTail (readTail uriStr)) := by
  cases h with
  | @address x y hx hstart hy =>
    have htests := (address_tests hx y uriStr).mpr hstart
    have hsearch : search [']'] ('[' :: (x ++ ']' :: y)) = some (']' :: y) :=
      search_singleton (a := '[' :: x) y (by simp [hx])
    have hcolon : (']' :: y)[1]? ≠ some ':' := by
      simpa [← List.head?_eq_getElem?] using hy
    obtain rfl : port = 0 := hp
    rw [dealWithHost, if_pos (by simp), if_neg htests.1, if_pos htests.2, hsearch]
    simp only [if_neg hcolon]
    rw [dealWithPort_none (by simpa using hinfo) hbehind]
    simp [Uri.withHost, Uri.withTail, hport, hportStr, List.dropLast_eq_take]
  | addressPort p hx hstart =>
    have htests := (address_tests hx (':' :: p) uriStr).mpr hstart
    have hsearch : search [']'] ('[' :: (hostname ++ ']' :: ':' :: p)) = some (']' :: ':' :: p) :=
      search_singleton (a := '[' :: hostname) _ (by simp [hx])
    rw [dealWithHost, if_pos (by simp), if_neg htests.1, if_pos htests.2, hsearch]
    simp only [List.getElem?_cons_succ, List.getElem?_cons_zero, if_true, List.tail_cons]
    rw [dealWithPort_some (by simpa using hinfo) hbehind]
    refine ⟨port, hp, ?_⟩
    have hlength : ('[' :: (hostname ++ ']' :: ':' :: p)).length - (p.length + 1) - 2 =
        hostname.length := by
      simp
      omega
    rw [hlength]
    simp [Uri.withHost, Uri.withTail]
  | name hh hstart =>
    have htests := name_tests [] hbehind hstart (by simp)
    obtain rfl : port = 0 := hp
    rw [List.append_nil] at htests
    rw [dealWithHost, if_neg htests.1, if_pos htests.2, search_singleton_none hh,
      dealWithPort_none hinfo hbehind]
    simp [Uri.withHost, Uri.withTail, hport, hportStr, hv6]
  | namePort p hh hne hstart =>
    have htests := name_tests (':' :: p) hbehind hstart (by simp [hne])
    rw [dealWithHost, if_neg htests.1, if_pos htests.2, search_singleton _ hh,
      dealWithPort_some hinfo hbehind]
    refine ⟨port, hp, ?_⟩
    have hlength : hostname.length + (p.length + 1) - (p.length + 1) = hostname.length := by omega
    simp [Uri.withHost, Uri.withTail, hv6, hlength]

lemma reads_of_dealWithHost (h : dealWithHost uri hostinfo uriStr = some u) :
    ∃ isIpv6 hostname portStr port, HostReads hostinfo isIpv6 hostname portStr ∧
      PortReads uri.scheme portStr port := by
  by_cases hbracket : (hostinfo ++ uriStr)[0]? = some '['
  · obtain ⟨inside, rfl⟩ : ∃ inside, hostinfo = '[' :: inside := by
      cases hostinfo with
      | nil => exact absurd hbracket (hbehind.getElem_zero (by decide))
      | cons c inside => exact ⟨inside, by simpa using hbracket⟩
    rw [dealWithHost, if_pos hbracket] at h
    split_ifs at h with hempty hstart
    cases hrsb : search [']'] ('[' :: inside) with
    | none => simp [hrsb] at h
    | some rsb =>
      obtain ⟨a, y, hsplit, rfl, ha⟩ := search_singleton_eq_some hrsb
      obtain ⟨x, rfl⟩ : ∃ x, a = '[' :: x := by
        cases a with
        | nil => simp at hsplit
        | cons c x => exact ⟨x, by simp_all⟩
      obtain rfl : inside = x ++ ']' :: y := by simpa using hsplit
      have hx : ']' ∉ x := by simpa using ha
      have haddress : StartsAddress x := (address_tests hx _ _).mp ⟨hempty, hstart⟩
      by_cases hcolon : y.head? = some ':'
      · obtain ⟨p, rfl⟩ : ∃ p, y = ':' :: p := by
          cases y with
          | nil => simp at hcolon
          | cons c p => exact ⟨p, by simpa using hcolon⟩
        simp only [hrsb, List.getElem?_cons_succ, List.getElem?_cons_zero, if_true,
          List.tail_cons] at h
        rw [dealWithPort_some (by simpa using hinfo) hbehind] at h
        obtain ⟨port, hp, -⟩ := h
        exact ⟨true, x, some p, port, .addressPort p hx haddress, hp⟩
      · exact ⟨true, _, none, 0, .address hx haddress hcolon, rfl⟩
  · rw [dealWithHost, if_neg hbracket] at h
    split_ifs at h with hname
    have hstart : StartsName hostinfo := by
      cases hostinfo with
      | nil => simp [StartsName]
      | cons c inside => simpa [StartsName, hdelim c (by simp)] using hname
    cases hs : search [':'] hostinfo with
    | none =>
      exact ⟨false, hostinfo, none, 0, .name (search_singleton_eq_none_iff.mp hs) hstart, rfl⟩
    | some s =>
      obtain ⟨name, p, rfl, rfl, hcolon⟩ := search_singleton_eq_some hs
      rw [hs, dealWithPort_some hinfo hbehind] at h
      obtain ⟨port, hp, -⟩ := h
      have hne : name ≠ [] := by
        rintro rfl
        simp [StartsName, isAlnum] at hstart
      refine ⟨false, name, some p, port, .namePort p hcolon hne ?_, hp⟩
      cases name with
      | nil => exact absurd rfl hne
      | cons c name => simpa [StartsName] using hstart

end Fresh

end Hosts

section Authorities

/-- The parts of a host information. -/
structure Site where
  user : Option Text
  password : Option Text
  isIpv6 : Bool
  hostname : Text
  portStr : Option Text
  port : ℕ

def userText (user password : Option Text) : Text :=
  match user with
  | none => []
  | some user => user ++ prefixed ':' password ++ ['@']

@[simp] lemma userText_none (password : Option Text) : userText none password = [] := rfl

@[simp] lemma userText_some (user : Text) (password : Option Text) :
    userText (some user) password = user ++ prefixed ':' password ++ ['@'] := rfl

def hostText (isIpv6 : Bool) (hostname : Text) : Text :=
  if isIpv6 then '[' :: hostname ++ [']'] else hostname

/-- The host information is read as these parts. -/
structure Site.Reads (site : Site) (scheme : Option Text) (hostinfo : Text) : Prop where
  delim : ∀ c ∈ hostinfo, endsHostinfo c = false
  host : ∃ host, hostinfo = userText site.user site.password ++ host ∧ '@' ∉ host ∧
    HostReads host site.isIpv6 site.hostname site.portStr
  user : ':' ∉ site.user.getD []
  password : site.user = none → site.password = none
  port : PortReads scheme site.portStr site.port

def Site.uri (site : Site) (scheme : Option Text) (hostinfo : Text) (t : Tail) : Uri where
  scheme := scheme
  hostinfo := some hostinfo
  user := site.user
  password := site.password
  hostname := some site.hostname
  portStr := site.portStr
  path := t.path
  query := t.query
  fragment := t.fragment
  hostent := none
  port := site.port
  isInitialized := true
  isIpv6 := site.isIpv6

variable {scheme : Option Text} {site : Site} {hostinfo rest : Text}

@[simp] lemma scheme_uri (t : Tail) : (site.uri scheme hostinfo t).scheme = scheme := rfl

@[simp] lemma hostinfo_uri (t : Tail) : (site.uri scheme hostinfo t).hostinfo = some hostinfo := rfl

@[simp] lemma tail_uri (t : Tail) : (site.uri scheme hostinfo t).tail = t := rfl

lemma scan_hostinfo (hdelim : ∀ c ∈ hostinfo, endsHostinfo c = false) (hbehind : Behind rest) :
    (hostinfo ++ rest).takeWhile (!endsHostinfo ·) = hostinfo ∧
      (hostinfo ++ rest).dropWhile (!endsHostinfo ·) = rest := by
  have hscan : ∀ c ∈ hostinfo, (!endsHostinfo c) = true := by simpa using hdelim
  have hstop : ∀ c ∈ rest.head?, (!endsHostinfo c) = false := by
    simpa [Behind] using hbehind
  exact ⟨takeWhile_upto hscan hstop, dropWhile_upto hscan hstop⟩

lemma Site.Reads.parse (h : site.Reads scheme hostinfo) (hbehind : Behind rest) :
    dealWithAuthority { scheme := scheme, isInitialized := true } (hostinfo ++ rest) =
      some (site.uri scheme hostinfo (readTail rest)) := by
  obtain ⟨htake, hdrop⟩ := scan_hostinfo h.delim hbehind
  obtain ⟨host, hsplit, hat, hhost⟩ := h.host
  have hdelim : ∀ c ∈ host, endsHostinfo c = false := by
    intro c hc
    exact h.delim c (by simp [hsplit, hc])
  unfold dealWithAuthority
  simp only [htake, hdrop]
  cases huser : site.user with
  | none =>
    have hpassword := h.password huser
    obtain rfl : hostinfo = host := by simpa [huser] using hsplit
    rw [searchBack_none hat]
    simp only
    rw [dealWithHost_of_reads (by simp) hbehind rfl rfl rfl hhost h.port]
    simp [Site.uri, Uri.withHost, Uri.withTail, huser, hpassword]
  | some user =>
    have hcolon : ':' ∉ user := by simpa [huser] using h.user
    have hback : searchBack '@' hostinfo = some ('@' :: host) := by
      rw [hsplit, huser]
      simpa using searchBack_append hat (user ++ prefixed ':' site.password)
    have huserinfo : upTo hostinfo ('@' :: host) = user ++ prefixed ':' site.password := by
      rw [hsplit, huser]
      simpa using upTo_append (user ++ prefixed ':' site.password) ('@' :: host)
    simp only [hback, huserinfo, List.tail_cons]
    cases hpassword : site.password with
    | none =>
      have hnone : search [':'] (user ++ prefixed ':' none) = none := by
        simpa [prefixed] using search_singleton_none hcolon
      simp only [hnone]
      rw [dealWithHost_of_reads (by simp) hbehind rfl rfl rfl hhost h.port]
      simp [Site.uri, Uri.withHost, Uri.withTail, huser, hpassword, prefixed]
    | some password =>
      have hsome : search [':'] (user ++ prefixed ':' (some password)) =
          some (':' :: password) := search_singleton password hcolon
      simp only [hsome]
      rw [dealWithHost_of_reads (by simp) hbehind rfl rfl rfl hhost h.port]
      simp [Site.uri, Uri.withHost, Uri.withTail, huser, hpassword, prefixed]

lemma exists_site {u : Uri} {s : Text}
    (h : dealWithAuthority { scheme := scheme, isInitialized := true } s = some u) :
    ∃ site hostinfo rest, s = hostinfo ++ rest ∧ Behind rest ∧ Site.Reads site scheme hostinfo := by
  have hsplit : s.takeWhile (!endsHostinfo ·) ++ s.dropWhile (!endsHostinfo ·) = s :=
    List.takeWhile_append_dropWhile
  have hdelim : ∀ c ∈ s.takeWhile (!endsHostinfo ·), endsHostinfo c = false := by
    intro c hc
    simpa using List.mem_takeWhile_imp hc
  have hbehind : Behind (s.dropWhile (!endsHostinfo ·)) := by
    intro c hc
    simpa using head_dropWhile_false (p := (!endsHostinfo ·)) s c hc
  unfold dealWithAuthority at h
  generalize s.takeWhile (!endsHostinfo ·) = hostinfo at hsplit hdelim h
  generalize s.dropWhile (!endsHostinfo ·) = rest at hsplit hbehind h
  -- whatever stands in front of the host, the rest is what the host gives
  have hsite : ∀ user password host (uri : Uri), uri.hostinfo ≠ none → uri.scheme = scheme →
      hostinfo = userText user password ++ host → '@' ∉ host → ':' ∉ user.getD [] →
      (user = none → password = none) → dealWithHost uri host rest = some u →
      ∃ site, Site.Reads site scheme hostinfo := by
    intro user password host uri hinfo hscheme hhostinfo hat huser hpassword hdeal
    have hdelim' : ∀ c ∈ host, endsHostinfo c = false := by
      intro c hc
      exact hdelim c (by simp [hhostinfo, hc])
    obtain ⟨isIpv6, hostname, portStr, port, hreads, hport⟩ :=
      reads_of_dealWithHost hinfo hdelim' hbehind hdeal
    exact ⟨⟨user, password, isIpv6, hostname, portStr, port⟩, hdelim,
      ⟨host, hhostinfo, hat, hreads⟩, huser, hpassword, hscheme ▸ hport⟩
  rcases searchBack_cases '@' hostinfo with ⟨hat, hnone⟩ | ⟨userinfo, host, rfl, hat, hsome⟩
  · simp only [hnone] at h
    obtain ⟨site, hreads⟩ :=
      hsite none none hostinfo _ (by simp) rfl (by simp) hat (by simp) (by simp) h
    exact ⟨site, hostinfo, rest, hsplit.symm, hbehind, hreads⟩
  · simp only [hsome, upTo_append] at h
    cases hs : search [':'] userinfo with
    | none =>
      simp only [hs] at h
      obtain ⟨site, hreads⟩ := hsite (some userinfo) none host _ (by simp) rfl
        (by simp [prefixed]) hat (by simpa [search_singleton_eq_none_iff] using hs) (by simp) h
      exact ⟨site, _, rest, hsplit.symm, hbehind, hreads⟩
    | some s1 =>
      obtain ⟨user, password, rfl, rfl, hcolon⟩ := search_singleton_eq_some hs
      simp only [hs] at h
      obtain ⟨site, hreads⟩ := hsite (some user) (some password) host _ (by simp) rfl
        (by simp [prefixed]) hat hcolon (by simp) h
      exact ⟨site, _, rest, hsplit.symm, hbehind, hreads⟩

end Authorities

section Starts

/-- In front of an authority stands the scheme, or two slashes or nothing. -/
inductive Leads : Option Text → Text → Prop
  | scheme {scheme : Text} (hne : scheme ≠ []) (h : ∀ c ∈ scheme, endsScheme c = false) :
      Leads (some scheme) (scheme ++ "://".toList)
  | slashes : Leads none "//".toList
  | nothing : Leads none []

lemma start_scheme {scheme : Text} (hne : scheme ≠ []) (h : ∀ c ∈ scheme, endsScheme c = false)
    (s : Text) : start (scheme ++ "://".toList ++ s) = .authority (some scheme) s := by
  have hscan : ∀ c ∈ scheme, (!endsScheme c) = true := by simpa using h
  have hstop : ∀ c ∈ ("://".toList ++ s).head?, (!endsScheme c) = false := by
    intro c hc
    obtain rfl : ':' = c := by simpa using hc
    rfl
  have hslash : (scheme ++ "://".toList ++ s)[0]? ≠ some '/' := by
    cases scheme with
    | nil => exact absurd rfl hne
    | cons c scheme =>
      intro hc
      obtain rfl : c = '/' := by simpa using hc
      exact absurd (h '/' (by simp)) (by decide)
  rw [start, if_neg hslash, List.append_assoc, takeWhile_upto hscan hstop,
    dropWhile_upto hscan hstop]
  simp [hne]

/-- Without a slash in front and without a scheme the string begins with the authority. -/
lemma start_plain {s : Text} (hslash : s.head? ≠ some '/')
    (hscheme : ¬ "://".toList <+: s.dropWhile (!endsScheme ·)) : start s = .authority none s := by
  rw [start, if_neg (by simpa [← List.head?_eq_getElem?] using hslash)]
  have htests : s.takeWhile (!endsScheme ·) = [] ∨ (s.dropWhile (!endsScheme ·))[0]? ≠ some ':' ∨
      (s.dropWhile (!endsScheme ·))[1]? ≠ some '/' ∨
      (s.dropWhile (!endsScheme ·))[2]? ≠ some '/' := by
    by_contra hall
    simp only [not_or, not_not] at hall
    obtain ⟨-, h0, h1, h2⟩ := hall
    apply hscheme
    generalize s.dropWhile (!endsScheme ·) = t at h0 h1 h2
    match t with
    | [] => simp at h0
    | [a] => simp at h1
    | [a, b] => simp at h2
    | a :: b :: c :: t => simp_all
  exact if_pos htests

lemma start_cases (s : Text) :
    (start s = .path ∧ s.head? = some '/' ∧ (s[1]? = some '/' → s[2]? = some '/')) ∨
      ∃ scheme lead t, start s = .authority scheme t ∧ s = lead ++ t ∧ Leads scheme lead ∧
        (scheme = none → t.head? ≠ some '/') := by
  by_cases hslash : s[0]? = some '/'
  · have hhead : s.head? = some '/' := by simpa [List.head?_eq_getElem?] using hslash
    by_cases htwo : s[1]? = some '/' ∧ s[2]? ≠ some '/'
    · right
      refine ⟨none, _, s.drop 2, by rw [start, if_pos hslash, if_pos htwo], ?_, .slashes, ?_⟩
      · match s with
        | [] => simp at hslash
        | [a] => simp at htwo
        | a :: b :: t => simp_all
      · simpa [List.head?_drop] using htwo.2
    · left
      exact ⟨by rw [start, if_pos hslash, if_neg htwo], hhead, by simpa using htwo⟩
  · right
    have hsplit : s.takeWhile (!endsScheme ·) ++ s.dropWhile (!endsScheme ·) = s :=
      List.takeWhile_append_dropWhile
    have hscan : ∀ c ∈ s.takeWhile (!endsScheme ·), endsScheme c = false := by
      intro c hc
      simpa using List.mem_takeWhile_imp hc
    by_cases hplain : "://".toList <+: s.dropWhile (!endsScheme ·) ∧
        s.takeWhile (!endsScheme ·) ≠ []
    · obtain ⟨⟨t, ht⟩, hne⟩ := hplain
      rw [← ht, ← List.append_assoc] at hsplit
      refine ⟨some (s.takeWhile (!endsScheme ·)), _, t, ?_, hsplit.symm, .scheme hne hscan, by simp⟩
      conv_lhs => rw [← hsplit]
      exact start_scheme hne hscan t
    · refine ⟨none, [], s, ?_, rfl, .nothing, ?_⟩
      · by_cases hne : s.takeWhile (!endsScheme ·) = []
        · rw [start, if_neg hslash]
          exact if_pos (Or.inl hne)
        · exact start_plain (by simpa [List.head?_eq_getElem?] using hslash)
            fun hbegins => hplain ⟨hbegins, hne⟩
      · simpa [List.head?_eq_getElem?] using hslash

end Starts

section Accepted

def pathUri (t : Tail) : Uri := Uri.withTail { isInitialized := true } t

/-- An accepted string is a path, or an authority with a path behind it. -/
theorem parseString_cases {s : Text} {u : Uri} (h : parseString s = some u) :
    (start s = .path ∧ s.head? = some '/' ∧ s[1]? ≠ some '/' ∧ u = pathUri (readTail s)) ∨
      ∃ scheme lead hostinfo rest site, s = lead ++ (hostinfo ++ rest) ∧ Leads scheme lead ∧
        start s = .authority scheme (hostinfo ++ rest) ∧
        (scheme = none → (hostinfo ++ rest).head? ≠ some '/') ∧ Behind rest ∧
        Site.Reads site scheme hostinfo ∧ u = site.uri scheme hostinfo (readTail rest) := by
  rcases start_cases s with ⟨hstart, hhead, -⟩ | ⟨scheme, lead, t, hstart, rfl, hlead, hslash⟩
  · left
    have hzero : s[0]? = some '/' := by simpa [List.head?_eq_getElem?] using hhead
    simp only [parseString, hstart, dealWithPath] at h
    split_ifs at h with hdouble
    have hone : s[1]? ≠ some '/' := by
      intro hone
      exact hdouble (Or.inl ⟨trivial, hzero, hone⟩)
    exact ⟨hstart, hhead, hone, (Option.some.inj h).symm⟩
  · right
    simp only [parseString, hstart] at h
    obtain ⟨site, hostinfo, rest, rfl, hbehind, hreads⟩ := exists_site h
    rw [hreads.parse hbehind] at h
    exact ⟨scheme, lead, hostinfo, rest, site, rfl, hlead, hstart, hslash, hbehind, hreads,
      (Option.some.inj h).symm⟩

end Accepted

end Axis2C.Uris
