import Axis2C.UriPieces

/-!
# A URI and its parts

Whether an accepted string is what its parsed fields spell. It is not where an IPv6
address has text behind its bracket that the parser skips, and the port is not the
number of the port text where that is too large or not a plain number.
-/
namespace Axis2C.Uris
open FirstOccurrence

/-- The number that a text of digits spells. -/
def decimalValue (p : Text) : Option ℕ :=
  if p ≠ [] ∧ p.all Char.isDigit then some (Nat.ofDigitChars 10 p 0) else none

/-- The fields of a URI give back the string it was parsed from. -/
structure Decomposes (s : Text) (u : Uri) : Prop where
  whole : ∃ lead, Leads u.scheme lead ∧
    s = lead ++ u.hostinfo.getD [] ++ u.tail.text
  hostinfo : u.hostinfo.getD [] =
    userText u.user u.password ++ hostText u.isIpv6 (u.hostname.getD []) ++ prefixed ':' u.portStr
  password : u.user = none → u.password = none
  port : ∀ p, u.portStr = some p → p ≠ [] → decimalValue p = some u.port

/-- The host of a string, with the port behind it: what follows the last at sign of the
authority. -/
def hostOf (s : Text) : Option Text :=
  match start s with
  | .path => none
  | .authority _ s =>
    let hostinfo := s.takeWhile (!endsHostinfo ·)
    match searchBack '@' hostinfo with
    | none => some hostinfo
    | some s => some s.tail

/-- Behind the bracket that closes an address stands nothing, a port, or something that
ends in one more bracket. -/
def Closed (host : Text) : Prop :=
  ∀ x y, host = '[' :: (x ++ ']' :: y) → ']' ∉ x →
    y = [] ∨ y.head? = some ':' ∨ y.getLast? = some ']'

/-- The host ends with a colon and this port text. -/
inductive HasPort : Text → Text → Prop
  | address {x : Text} (p : Text) (hx : ']' ∉ x) : HasPort ('[' :: (x ++ ']' :: ':' :: p)) p
  | name {h : Text} (p : Text) (hh : ':' ∉ h) (hbracket : h.head? ≠ some '[') :
      HasPort (h ++ ':' :: p) p

/-- The port is left out, empty, or the digits of a number below 2^16. -/
def PortFits (host : Text) : Prop :=
  ∀ p, HasPort host p → p = [] ∨ ∃ v < 2 ^ 16, decimalValue p = some v

section Ports

lemma strtol_decimal {p : Text} {v : ℕ} (h : decimalValue p = some v) (hv : v < 2 ^ 16) :
    strtol p = ((v : ℤ), []) := by
  unfold decimalValue at h
  split_ifs at h with hp
  obtain ⟨hne, hdigits⟩ := hp
  have hall : ∀ c ∈ p, c.isDigit = true := by simpa using hdigits
  cases p with
  | nil => exact absurd rfl hne
  | cons c p =>
  have hc : c.isDigit = true := hall c (by simp)
  have hspace : (c :: p).dropWhile isSpace = c :: p := by
    rw [List.dropWhile_cons_of_neg (by simp [isSpace_of_isDigit hc])]
  have hsign : takeSign (c :: p) = (false, c :: p) := takeSign_digit hc p
  have htake : (c :: p).takeWhile Char.isDigit = c :: p := List.takeWhile_eq_self_iff.mpr hall
  have hdrop : (c :: p).dropWhile Char.isDigit = [] := List.dropWhile_eq_nil_iff.mpr hall
  have hvalue : Nat.ofDigitChars 10 (c :: p) 0 = v := Option.some.inj h
  simp only [strtol, hspace, hsign, htake, hdrop, hvalue]
  simp
  omega

lemma toPort_natCast {v : ℕ} (hv : v < 2 ^ 16) : toPort v = v := by
  unfold toPort
  omega

lemma toPort_lt (v : ℤ) : toPort v < 2 ^ 16 := by
  unfold toPort
  omega

lemma PortReads.lt {scheme : Option Text} {c : Char} {p : Text} {port : ℕ}
    (h : PortReads scheme (some (c :: p)) port) : port < 2 ^ 16 := by
  rw [h.2]
  exact toPort_lt _

lemma PortReads.decimal_iff {scheme : Option Text} {p : Text} {port : ℕ} (hne : p ≠ [])
    (h : PortReads scheme (some p) port) :
    decimalValue p = some port ↔ ∃ v < 2 ^ 16, decimalValue p = some v := by
  cases p with
  | nil => exact absurd rfl hne
  | cons c p =>
    constructor
    · intro hvalue
      exact ⟨port, h.lt, hvalue⟩
    · rintro ⟨v, hv, hvalue⟩
      rw [hvalue, h.2, strtol_decimal hvalue hv, toPort_natCast hv]

end Ports

section Hosts

variable {host name : Text} {isIpv6 : Bool} {portStr : Option Text}

lemma StartsName.no_bracket {h : Text} (hstart : StartsName h) (more : Text)
    (hmore : h = [] → more = []) : (h ++ more).head? ≠ some '[' := by
  cases h with
  | nil => simp [hmore rfl]
  | cons c h =>
    have hc : isAlnum c = true := by simpa [StartsName] using hstart
    simpa using ne_bracket_of_isAlnum hc

lemma closed_address {x y : Text} (hx : ']' ∉ x) :
    Closed ('[' :: (x ++ ']' :: y)) ↔
      (y = [] ∨ y.head? = some ':' ∨ y.getLast? = some ']') := by
  constructor
  · intro h
    exact h x y rfl hx
  · intro h x' y' heq hx'
    obtain ⟨rfl, rfl⟩ := split_at_first hx hx' (List.cons.inj heq).2
    exact h

lemma closed_of_head (h : host.head? ≠ some '[') : Closed host := by
  rintro x y rfl
  simp at h

/-- The fields give back the host text exactly if nothing behind the bracket is lost. -/
lemma HostReads.text_iff (h : HostReads host isIpv6 name portStr) :
    host = hostText isIpv6 name ++ prefixed ':' portStr ↔ Closed host := by
  cases h with
  | @address x y hx hstart hy =>
    have hne : x ++ ']' :: y ≠ [] := by simp
    have hlast : (x ++ ']' :: y).getLast? = some ']' ↔ y = [] ∨ y.getLast? = some ']' := by
      cases y with
      | nil => simp
      | cons c y => simp [List.getLast?_append]
    have hspell : x ++ ']' :: y = (x ++ ']' :: y).dropLast ++ [']'] ↔
        (x ++ ']' :: y).getLast? = some ']' := by
      rw [List.getLast?_eq_some_iff]
      constructor
      · intro heq
        exact ⟨_, heq⟩
      · rintro ⟨front, heq⟩
        rw [heq, List.dropLast_concat]
    rw [closed_address hx, hostText, if_pos rfl, prefixed, List.append_nil, List.cons_append,
      List.cons_inj_right, hspell, hlast]
    simp [hy]
  | addressPort p hx hstart =>
    rw [closed_address hx]
    simp [hostText, prefixed]
  | name hh hstart =>
    have hhead := hstart.no_bracket [] (by simp)
    rw [List.append_nil] at hhead
    simp [hostText, prefixed, closed_of_head hhead]
  | namePort p hh hne hstart =>
    have hhead := hstart.no_bracket (':' :: p) (by simp [hne])
    simp [hostText, prefixed, closed_of_head hhead]

lemma HostReads.hasPort_iff (h : HostReads host isIpv6 name portStr) (p : Text) :
    HasPort host p ↔ portStr = some p := by
  constructor
  · intro hport
    cases hport with
    | @address x _ hx =>
      generalize hhost : '[' :: (x ++ ']' :: ':' :: p) = host at h
      cases h with
      | @address x' y hx' hstart hy =>
        obtain ⟨-, rfl⟩ := split_at_first hx hx' (List.cons.inj hhost).2
        simp at hy
      | addressPort p' hx' hstart =>
        obtain ⟨-, hp⟩ := split_at_first hx hx' (List.cons.inj hhost).2
        rw [(List.cons.inj hp).2]
      | name hh hstart =>
        rw [← hhost] at hstart
        exact absurd hstart (by simp [StartsName, isAlnum])
      | namePort p' hh hne hstart =>
        have hhead := hstart.no_bracket (':' :: p') (by simp [hne])
        simp [← hhost] at hhead
    | @name front _ hh hbracket =>
      have hfront : (front ++ ':' :: p).head? ≠ some '[' := by
        cases front with
        | nil => simp
        | cons c front => simpa using hbracket
      generalize hhost : front ++ ':' :: p = host at h
      cases h with
      | address hx hstart hy | addressPort p' hx' hstart => simp [hhost] at hfront
      | name hh' hstart => simp [← hhost] at hh'
      | namePort p' hh' hne hstart =>
        obtain ⟨-, rfl⟩ := split_at_first hh hh' hhost
        rfl
  · rintro rfl
    cases h with
    | addressPort _ hx hstart => exact .address p hx
    | namePort _ hh hne hstart =>
      have hhead := hstart.no_bracket [] (by simp)
      rw [List.append_nil] at hhead
      exact .name p hh hhead

lemma HostReads.port_iff (h : HostReads host isIpv6 name portStr) {scheme : Option Text} {port : ℕ}
    (hp : PortReads scheme portStr port) :
    (∀ p, portStr = some p → p ≠ [] → decimalValue p = some port) ↔ PortFits host := by
  unfold PortFits
  constructor
  · intro hall p hport
    obtain rfl := (h.hasPort_iff p).mp hport
    by_cases hne : p = []
    · exact Or.inl hne
    · exact Or.inr ((hp.decimal_iff hne).mp (hall p rfl hne))
  · rintro hall p rfl hne
    have hfits := hall p ((h.hasPort_iff p).mpr rfl)
    exact (hp.decimal_iff hne).mpr (hfits.resolve_left hne)

end Hosts

/-- The host of a string is the one whose parts are read. -/
lemma hostOf_eq {s hostinfo rest host : Text} {scheme user password : Option Text}
    (hstart : start s = .authority scheme (hostinfo ++ rest))
    (hdelim : ∀ c ∈ hostinfo, endsHostinfo c = false) (hbehind : Behind rest)
    (hhostinfo : hostinfo = userText user password ++ host) (hat : '@' ∉ host) :
    hostOf s = some host := by
  obtain ⟨htake, -⟩ := scan_hostinfo hdelim hbehind
  simp only [hostOf, hstart, htake]
  cases user with
  | none =>
    obtain rfl : hostinfo = host := by simpa using hhostinfo
    rw [searchBack_none hat]
  | some user =>
    have hback : searchBack '@' hostinfo = some ('@' :: host) := by
      rw [hhostinfo]
      simpa using searchBack_append hat (user ++ prefixed ':' password)
    rw [hback]
    rfl

/-- An accepted string is what its fields spell exactly if nothing is lost behind an
address and the port text is empty or a number below 2^16. -/
theorem uri_decomposes_iff (s : Text) (u : Uri) (h : parseString s = some u) :
    Decomposes s u ↔ ∀ host, hostOf s = some host → Closed host ∧ PortFits host := by
  rcases parseString_cases h with ⟨hstart, -, -, rfl⟩ |
    ⟨scheme, lead, hostinfo, rest, site, rfl, hlead, hstart, -, hbehind, hreads, rfl⟩
  · have hnone : hostOf s = none := by simp [hostOf, hstart]
    have hdecomposes : Decomposes s (pathUri (readTail s)) :=
      { whole := ⟨[], .nothing, (text_readTail s).symm⟩
        hostinfo := rfl
        password := by simp [pathUri, Uri.withTail]
        port := by simp [pathUri, Uri.withTail] }
    simp [hnone, hdecomposes]
  · obtain ⟨host, hhostinfo, hat, hhost⟩ := hreads.host
    have hsome := hostOf_eq hstart hreads.delim hbehind hhostinfo hat
    constructor
    · rintro hdec host' hhost'
      obtain rfl : host = host' := Option.some.inj (hsome.symm.trans hhost')
      have hspell := hdec.hostinfo
      simp only [Site.uri, Option.getD_some] at hspell
      rw [hhostinfo, List.append_assoc, List.append_cancel_left_eq] at hspell
      exact ⟨hhost.text_iff.mp hspell, (hhost.port_iff hreads.port).mp hdec.port⟩
    · intro hall
      obtain ⟨hclosed, hfits⟩ := hall host hsome
      have hspell := hhost.text_iff.mpr hclosed
      exact
        { whole := ⟨lead, hlead, by
            simp [text_readTail]⟩
          hostinfo := by
            simp only [Site.uri, Option.getD_some, List.append_assoc]
            rw [← hspell, ← hhostinfo]
          password := hreads.password
          port := (hhost.port_iff hreads.port).mpr hfits }

/-- A URI with a user, an address and a port is what its fields spell. -/
theorem uri_decomposes_address :
    ∃ u, parseString "http://u:p@[::1]:88/a?b#c".toList = some u ∧
      (Decomposes "http://u:p@[::1]:88/a?b#c".toList u ↔
        ∀ host, hostOf "http://u:p@[::1]:88/a?b#c".toList = some host →
          Closed host ∧ PortFits host) := by
  obtain ⟨u, hu⟩ := Option.isSome_iff_exists.mp
    (by decide : (parseString "http://u:p@[::1]:88/a?b#c".toList).isSome)
  exact ⟨u, hu, uri_decomposes_iff _ _ hu⟩

/-- The last character of the host is lost here. -/
theorem address_tail_is_lost :
    ∃ u, parseString "http://[::1]abc/".toList = some u ∧
      ¬ Decomposes "http://[::1]abc/".toList u := by
  have hlost : ((parseString "http://[::1]abc/".toList).any fun u =>
      decide (u.hostinfo.getD [] ≠ userText u.user u.password ++
        hostText u.isIpv6 (u.hostname.getD []) ++ prefixed ':' u.portStr)) = true := by decide
  cases hu : parseString "http://[::1]abc/".toList with
  | none =>
    rw [hu] at hlost
    cases hlost
  | some u =>
    rw [hu] at hlost
    exact ⟨u, rfl, fun h => of_decide_eq_true hlost h.hostinfo⟩

end Axis2C.Uris
