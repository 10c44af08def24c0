import Axis2C.UriPieces

/-!
# Printing a URI and reading it again

`axutil_uri_to_string` drops the two slashes of a URI without a scheme, and a port that
is 0 or the default. What it prints for a parsed URI is read as the same URI.
-/
namespace Axis2C.Uris
open FirstOccurrence

/-- The port that is used: the default of the scheme if there is none. -/
def effectivePort (u : Uri) : ℕ := if u.port = 0 then portOfScheme u.scheme else u.port

/-- Two URIs name the same resource in the same way. -/
structure SameUri (v u : Uri) : Prop where
  scheme : v.scheme = u.scheme
  user : v.user = u.user
  password : v.password = u.password
  hostname : v.hostname = u.hostname
  isIpv6 : v.isIpv6 = u.isIpv6
  path : v.path = u.path
  query : v.query = u.query
  fragment : v.fragment = u.fragment
  port : effectivePort v = effectivePort u

section Hosts

variable {host name : Text} {isIpv6 : Bool} {portStr : Option Text}

lemma HostReads.mem_name (h : HostReads host isIpv6 name portStr) {c : Char} (hc : c ∈ name) :
    c ∈ host := by
  cases h with
  | address hx hstart hy => exact List.mem_cons_of_mem _ (List.mem_of_mem_dropLast hc)
  | addressPort p hx hstart | namePort p hh hne hstart => simp [hc]
  | name hh hstart => exact hc

lemma HostReads.mem_port (h : HostReads host isIpv6 name portStr) {c : Char}
    (hc : c ∈ portStr.getD []) : c ∈ host := by
  cases h with
  | address hx hstart hy | name hh hstart => simp at hc
  | addressPort p hx hstart | namePort p hh hne hstart => simp_all

lemma HostReads.printed (h : HostReads host isIpv6 name portStr) {printedPort : Option Text}
    (hport : printedPort = none ∨ printedPort = portStr) :
    HostReads (hostText isIpv6 name ++ prefixed ':' printedPort) isIpv6 name printedPort := by
  cases h with
  | @address x y hx hstart hy =>
    obtain rfl : printedPort = none := by simpa using hport
    cases y using List.reverseRecOn with
    | nil => simpa [hostText, prefixed] using HostReads.address (y := []) hx hstart (by simp)
    | append_singleton y z =>
      -- the bracket takes the place of the last character
      have hhead : (y ++ [']']).head? ≠ some ':' := by
        cases y with
        | nil => simp
        | cons c y => simpa using hy
      have hlast : ∀ w : Char, (x ++ ']' :: (y ++ [w])).dropLast = x ++ ']' :: y := by
        intro w
        rw [← List.cons_append, ← List.append_assoc, List.dropLast_concat]
      have hreads := HostReads.address hx hstart hhead
      rw [hlast] at hreads ⊢
      simpa [hostText, prefixed] using hreads
  | addressPort p hx hstart =>
    rcases hport with rfl | rfl
    · simpa [hostText, prefixed] using HostReads.address (y := []) hx hstart (by simp)
    · simpa [hostText, prefixed] using HostReads.addressPort p hx hstart
  | name hh hstart =>
    obtain rfl : printedPort = none := by simpa using hport
    simpa [hostText, prefixed] using HostReads.name hh hstart
  | namePort p hh hne hstart =>
    rcases hport with rfl | rfl
    · simpa [hostText, prefixed] using HostReads.name hh hstart
    · simpa [hostText, prefixed] using HostReads.namePort p hh hne hstart

end Hosts

section Printed

variable {scheme : Option Text} {site : Site} {hostinfo rest : Text}

/-- Whether the port is left out. -/
def DefaultPort (scheme : Option Text) (site : Site) : Prop :=
  site.portStr = none ∨ site.port = 0 ∨ site.port = portOfScheme scheme

instance : Decidable (DefaultPort scheme site) := inferInstanceAs (Decidable (_ ∨ _))

/-- What is read from a printed URI: without the port, if that is left out. -/
def Site.printed (scheme : Option Text) (site : Site) : Site :=
  if DefaultPort scheme site then { site with portStr := none, port := 0 } else site

def Site.text (site : Site) : Text :=
  userText site.user site.password ++ hostText site.isIpv6 site.hostname ++ prefixed ':' site.portStr

def schemeText : Option Text → Text
  | none => []
  | some scheme => scheme ++ "://".toList

lemma toString_uri (hpassword : site.user = none → site.password = none) (t : Tail) :
    toString (site.uri scheme hostinfo t) unpRevealPassword =
      schemeText scheme ++ ((site.printed scheme).text ++ t.text) := by
  have huser : userPart (site.uri scheme hostinfo t) unpRevealPassword =
      userText site.user site.password := by
    cases huser : site.user with
    | none => simp [userPart, Site.uri, huser, hpassword huser, unpRevealPassword, unpOmitUser]
    | some user =>
      cases hp : site.password <;>
        simp [userPart, Site.uri, huser, hp, unpRevealPassword, unpOmitUser, unpOmitPassword,
          prefixed]
  have hpath : pathPart (site.uri scheme hostinfo t) unpRevealPassword = t.text := by
    obtain ⟨path, query, fragment⟩ := t
    cases query <;> cases fragment <;>
      simp [pathPart, Site.uri, Tail.text, prefixed, unpRevealPassword, unpOmitQueryOnly,
        unpOmitFragmentOnly]
  have hsite : sitePart (site.uri scheme hostinfo t) unpRevealPassword =
      schemeText scheme ++ (site.printed scheme).text := by
    rw [sitePart, huser]
    by_cases hdefault : DefaultPort scheme site
    · have hprinted : site.printed scheme = { site with portStr := none, port := 0 } :=
        if_pos hdefault
      have htest : site.portStr = none ∨ site.port = 0 ∨ site.port = portOfScheme scheme := hdefault
      rw [hprinted]
      cases scheme <;> cases hv6 : site.isIpv6 <;>
        simp [Site.uri, Site.text, hostText, prefixed, schemeText, htest, hv6]
    · have hprinted : site.printed scheme = site := if_neg hdefault
      have htest : ¬ (site.portStr = none ∨ site.port = 0 ∨ site.port = portOfScheme scheme) :=
        hdefault
      obtain ⟨p, hp⟩ : ∃ p, site.portStr = some p :=
        Option.ne_none_iff_exists'.mp fun hnone => htest (Or.inl hnone)
      rw [hprinted]
      cases scheme <;> cases hv6 : site.isIpv6 <;>
        simp_all [Site.uri, Site.text, hostText, prefixed, schemeText]
  rw [toString, hsite, hpath, if_pos (by decide), if_pos (by decide), List.append_assoc]

/-- A host information and what is printed for it have the same parts but for the port. -/
lemma printed_fields (scheme : Option Text) (site : Site) :
    (site.printed scheme).user = site.user ∧ (site.printed scheme).password = site.password ∧
      (site.printed scheme).isIpv6 = site.isIpv6 ∧
      (site.printed scheme).hostname = site.hostname := by
  unfold Site.printed
  split <;> simp

lemma printed_port (scheme : Option Text) (site : Site) :
    (DefaultPort scheme site ∧ (site.printed scheme).portStr = none ∧
        (site.printed scheme).port = 0) ∨
      (¬ DefaultPort scheme site ∧ (site.printed scheme).portStr = site.portStr ∧
        (site.printed scheme).port = site.port) := by
  unfold Site.printed
  by_cases hdefault : DefaultPort scheme site <;> simp [hdefault]

lemma mem_printed_port {c : Char} (hc : c ∈ ((site.printed scheme).portStr).getD []) :
    c ∈ site.portStr.getD [] := by
  rcases printed_port scheme site with ⟨-, hport, -⟩ | ⟨-, hport, -⟩
  · simp [hport] at hc
  · rwa [hport] at hc

lemma HostReads.mem_printed {host : Text}
    (h : HostReads host site.isIpv6 site.hostname site.portStr) {c : Char}
    (hc : c ∈ hostText site.isIpv6 site.hostname ++
      prefixed ':' (site.printed scheme).portStr) :
    c = '[' ∨ c = ']' ∨ c = ':' ∨ c ∈ host := by
  have hport : c ∈ prefixed ':' (site.printed scheme).portStr → c = ':' ∨ c ∈ host := by
    cases hp : (site.printed scheme).portStr with
    | none => simp [prefixed]
    | some p =>
      intro hc
      rcases List.mem_cons.mp hc with rfl | hc
      · exact Or.inl rfl
      · have hread : c ∈ site.portStr.getD [] :=
          @mem_printed_port scheme site c (by simp [hp, hc])
        exact Or.inr (h.mem_port hread)
  have hname : c ∈ hostText site.isIpv6 site.hostname → c = '[' ∨ c = ']' ∨ c ∈ host := by
    unfold hostText
    split
    · simp only [List.cons_append, List.mem_cons, List.mem_append, List.not_mem_nil, or_false]
      rintro (rfl | hc | rfl)
      · exact Or.inl rfl
      · exact Or.inr (Or.inr (h.mem_name hc))
      · exact Or.inr (Or.inl rfl)
    · exact fun hc => Or.inr (Or.inr (h.mem_name hc))
  rcases List.mem_append.mp hc with hc | hc
  · have := hname hc
    tauto
  · have := hport hc
    tauto

lemma Site.Reads.printed (h : site.Reads scheme hostinfo) :
    (site.printed scheme).Reads scheme (site.printed scheme).text := by
  obtain ⟨host, hhostinfo, hat, hhost⟩ := h.host
  obtain ⟨huser, hpassword, hv6, hname⟩ := printed_fields scheme site
  have htext : (site.printed scheme).text = userText site.user site.password ++
      (hostText site.isIpv6 site.hostname ++ prefixed ':' (site.printed scheme).portStr) := by
    simp [Site.text, huser, hpassword, hv6, hname]
  have hport : (site.printed scheme).portStr = none ∨
      (site.printed scheme).portStr = site.portStr := by
    rcases printed_port scheme site with ⟨-, hport, -⟩ | ⟨-, hport, -⟩
    · exact Or.inl hport
    · exact Or.inr hport
  have hreads : HostReads (hostText site.isIpv6 site.hostname ++
      prefixed ':' (site.printed scheme).portStr) (site.printed scheme).isIpv6
      (site.printed scheme).hostname (site.printed scheme).portStr := by
    rw [hv6, hname]
    exact hhost.printed hport
  have hnoat : '@' ∉ hostText site.isIpv6 site.hostname ++
      prefixed ':' (site.printed scheme).portStr := by
    intro hc
    rcases hhost.mem_printed hc with hc | hc | hc | hc
    · exact absurd hc (by decide)
    · exact absurd hc (by decide)
    · exact absurd hc (by decide)
    · exact hat hc
  have hdelim : ∀ c ∈ (site.printed scheme).text, endsHostinfo c = false := by
    intro c hc
    rw [htext, List.mem_append] at hc
    rcases hc with hc | hc
    · exact h.delim c (by simp [hhostinfo, hc])
    · rcases hhost.mem_printed hc with rfl | rfl | rfl | hc
      · rfl
      · rfl
      · rfl
      · exact h.delim c (by simp [hhostinfo, hc])
  have hportReads : PortReads scheme (site.printed scheme).portStr (site.printed scheme).port := by
    rcases printed_port scheme site with ⟨-, hnone, hzero⟩ | ⟨-, hsame, hvalue⟩
    · rw [hnone, hzero]
      rfl
    · rw [hsame, hvalue]
      exact h.port
  exact
    { delim := hdelim
      host := ⟨_, by rw [htext, huser, hpassword], hnoat, hreads⟩
      user := huser ▸ h.user
      password := by rw [huser, hpassword]; exact h.password
      port := hportReads }

lemma HostReads.no_colon {host name : Text} {portStr : Option Text}
    (h : HostReads host false name portStr) : ':' ∉ name := by
  cases h with
  | name hh hstart | namePort p hh hne hstart => exact hh

/-- The last character of what is printed is no colon that could end a scheme. -/
lemma Site.Reads.colon_before (h : site.Reads scheme hostinfo) {front : Text}
    (hfront : (site.printed scheme).text = front ++ [':']) : ':' ∈ front := by
  obtain ⟨host, -, -, hhost⟩ := h.printed.host
  have hlast : (site.printed scheme).text.getLast? = some ':' := by simp [hfront]
  rw [Site.text] at hlast hfront
  cases hport : (site.printed scheme).portStr with
  | some p =>
    -- a port that is printed is not empty, and its colon stands in front of it
    have hne : p ≠ [] := by
      rintro rfl
      rcases printed_port scheme site with ⟨-, hnone, -⟩ | ⟨hdefault, hsame, -⟩
      · simp [hport] at hnone
      · have hread := h.port
        rw [← hsame, hport] at hread
        exact hdefault (Or.inr (Or.inr hread))
    obtain ⟨q, z, rfl⟩ := List.eq_nil_or_concat p |>.resolve_left hne
    rw [hport, prefixed, List.concat_eq_append, ← List.cons_append, ← List.append_assoc] at hfront
    have hsplit := List.append_inj_left' hfront rfl
    rw [← hsplit]
    simp
  | none =>
    exfalso
    rw [hport, prefixed, List.append_nil] at hlast
    cases hv6 : (site.printed scheme).isIpv6 with
    | true =>
      rw [hostText, hv6, if_pos rfl, ← List.append_assoc, List.getLast?_concat] at hlast
      exact absurd hlast (by decide)
    | false =>
      rw [hv6] at hhost
      simp only [hostText, hv6, Bool.false_eq_true, if_false] at hlast
      cases hname : (site.printed scheme).hostname using List.reverseRecOn with
      | nil => cases huser : (site.printed scheme).user <;> simp [hname, huser] at hlast
      | append_singleton name z =>
        have hcolon := hhost.no_colon
        simp [hname] at hlast hcolon
        exact hcolon.2 hlast.symm

lemma Site.Reads.no_scheme (h : site.Reads scheme hostinfo) (hbehind : Behind rest) :
    ¬ "://".toList <+: ((site.printed scheme).text ++ rest).dropWhile (!endsScheme ·) := by
  rintro ⟨more, hmore⟩
  have hdelim := h.printed.delim
  have hsplit : ((site.printed scheme).text ++ rest).takeWhile (!endsScheme ·) ++
      ("://".toList ++ more) = (site.printed scheme).text ++ rest := by
    rw [hmore]
    exact List.takeWhile_append_dropWhile
  have hscan : ∀ c ∈ ((site.printed scheme).text ++ rest).takeWhile (!endsScheme ·),
      endsScheme c = false := by
    intro c hc
    simpa using List.mem_takeWhile_imp hc
  generalize ((site.printed scheme).text ++ rest).takeWhile (!endsScheme ·) = front at hsplit hscan
  rcases List.append_eq_append_iff.mp hsplit with ⟨a, htext, hrest⟩ | ⟨a, hfront, hrest⟩
  · -- the colon is in what is printed, and the slash behind it cannot be
    match a with
    | [] =>
      rw [List.nil_append] at hrest
      exact absurd (hbehind ':' (by simp [← hrest])) (by decide)
    | [c] =>
      obtain ⟨rfl, -⟩ : ':' = c ∧ _ := by simpa using hrest
      exact absurd (hscan ':' (h.colon_before htext)) (by decide)
    | c :: d :: a =>
      obtain ⟨-, rfl, -⟩ : ':' = c ∧ '/' = d ∧ _ := by simpa using hrest
      exact absurd (hdelim '/' (by simp [htext])) (by decide)
  · cases a with
    | nil =>
      rw [List.nil_append] at hrest
      exact absurd (hbehind ':' (by simp [hrest])) (by decide)
    | cons c a =>
      have hends : endsHostinfo c = true := hbehind c (by simp [hrest])
      have hkeep := hscan c (by simp [hfront])
      simp [endsScheme, hends] at hkeep

lemma Site.Reads.start_printed (h : site.Reads scheme hostinfo) (hlead : ∀ s ∈ scheme,
      s ≠ [] ∧ ∀ c ∈ s, endsScheme c = false) (hbehind : Behind rest)
    (hslash : scheme = none → (hostinfo ++ rest).head? ≠ some '/') :
    start (schemeText scheme ++ ((site.printed scheme).text ++ rest)) =
      .authority scheme ((site.printed scheme).text ++ rest) := by
  cases hscheme : scheme with
  | some s =>
    obtain ⟨hne, hs⟩ := hlead s hscheme
    exact start_scheme hne hs _
  | none =>
    rw [hscheme] at h hslash
    rw [schemeText, List.nil_append]
    refine start_plain ?_ (h.no_scheme hbehind)
    cases htext : (site.printed none).text with
    | cons c text =>
      have hc := h.printed.delim c (by simp [htext])
      intro hhead
      obtain rfl : c = '/' := by simpa using hhead
      exact absurd hc (by decide)
    | nil =>
      -- nothing is printed only where nothing was read
      obtain ⟨huser, hpassword, hv6, hname⟩ := printed_fields none site
      obtain ⟨host, hhostinfo, -, hhost⟩ := h.host
      rw [Site.text, huser, hv6, hname, List.append_eq_nil_iff, List.append_eq_nil_iff] at htext
      obtain ⟨⟨huserText, hhostText⟩, -⟩ := htext
      have hnone : site.user = none := by
        cases hu : site.user with
        | none => rfl
        | some user => simp [hu] at huserText
      have hempty : site.isIpv6 = false ∧ site.hostname = [] := by
        cases hv : site.isIpv6 <;> simp_all [hostText]
      rw [hempty.1, hempty.2] at hhost
      have hhostNil : host = [] := by
        generalize site.portStr = portStr at hhost
        cases hhost with
        | name hh hstart => rfl
        | namePort p hh hne hstart => exact absurd rfl hne
      rw [hhostinfo, hhostNil, hnone] at hslash
      simpa using hslash rfl

lemma effectivePort_uri (t : Tail) : effectivePort (site.uri scheme hostinfo t) =
    if site.port = 0 then portOfScheme scheme else site.port := rfl

/-- The port is left out only where the default is used. -/
lemma Site.Reads.printed_effectivePort (h : site.Reads scheme hostinfo) (t : Tail) :
    effectivePort ((site.printed scheme).uri scheme (site.printed scheme).text t) =
      effectivePort (site.uri scheme hostinfo t) := by
  rw [effectivePort_uri, effectivePort_uri]
  rcases printed_port scheme site with ⟨hdefault, -, hzero⟩ | ⟨-, -, hsame⟩
  · have hport : site.port = 0 ∨ site.port = portOfScheme scheme := by
      rcases hdefault with hnone | hport
      · have hread := h.port
        rw [hnone] at hread
        exact Or.inl hread
      · exact hport
    rw [hzero, if_pos rfl]
    by_cases h0 : site.port = 0
    · rw [if_pos h0]
    · rw [if_neg h0, hport.resolve_left h0]
  · rw [hsame]

end Printed

end Axis2C.Uris
