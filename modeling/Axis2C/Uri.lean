import Axis2C.FirstOccurrence
import Mathlib.Data.Nat.Digits.Defs

/-!
# The URIs of axutil

`axutil_uri_parse_string`, `axutil_uri_to_string`, `axutil_uri_port_of_scheme` and
`axutil_uri_resolve_relative`. A pointer into the string is the text behind it, and a
NULL string is `none`. Memory allocation succeeds. The two flags about DNS are left
out, as none of these functions looks at them.
-/
namespace Axis2C.Uris
open FirstOccurrence

abbrev Text := List Char

/-- `axutil_uri_t`. The host entry is known by its address. -/
structure Uri where
  scheme : Option Text := none
  hostinfo : Option Text := none
  user : Option Text := none
  password : Option Text := none
  hostname : Option Text := none
  portStr : Option Text := none
  path : Option Text := none
  query : Option Text := none
  fragment : Option Text := none
  hostent : Option ℕ := none
  port : ℕ := 0
  isInitialized : Bool := false
  isIpv6 : Bool := false
  deriving DecidableEq, Repr

section Schemes

/-- Whether `axutil_strcasecmp` gives 0. Only ASCII letters are compared without case. -/
def strcasecmp (s t : Text) : Bool := s.map Char.toLower = t.map Char.toLower

def schemes : List (Text × ℕ) :=
  [("http".toList, 80), ("ftp".toList, 21), ("https".toList, 443), ("gopher".toList, 70),
    ("ldap".toList, 389), ("nntp".toList, 119), ("snews".toList, 563), ("imap".toList, 143),
    ("pop".toList, 110), ("sip".toList, 5060), ("rtsp".toList, 554), ("wais".toList, 210),
    ("z39.50r".toList, 210), ("z39.50s".toList, 210), ("prospero".toList, 191),
    ("nfs".toList, 2049), ("tip".toList, 3372), ("acap".toList, 674), ("telnet".toList, 23),
    ("ssh".toList, 22)]

def portOfScheme (schemeStr : Option Text) : ℕ :=
  match schemeStr with
  | none => 0
  | some s => ((schemes.find? fun scheme => strcasecmp s scheme.1).map Prod.snd).getD 0

end Schemes

section Strtol

def isSpace (c : Char) : Bool := c = ' ' || ('\t' ≤ c && c ≤ '\r')

lemma isSpace_of_isDigit {c : Char} (h : c.isDigit = true) : isSpace c = false := by
  by_contra hspace
  simp only [isSpace, Bool.not_eq_false, Bool.or_eq_true, Bool.and_eq_true, decide_eq_true_eq,
    Char.le_def, UInt32.le_iff_toNat_le] at hspace
  simp only [Char.isDigit, Bool.and_eq_true, decide_eq_true_eq, ge_iff_le,
    UInt32.le_iff_toNat_le] at h
  rcases hspace with rfl | ⟨-, hr⟩
  · exact absurd h.1 (by decide)
  · have hzero : ('0'.val.toNat : ℕ) = 48 := rfl
    have hreturn : ('\r'.val.toNat : ℕ) = 13 := rfl
    omega

def takeSign : Text → Bool × Text
  | '-' :: s => (true, s)
  | '+' :: s => (false, s)
  | s => (false, s)

lemma takeSign_digit {c : Char} (h : c.isDigit = true) (s : Text) :
    takeSign (c :: s) = (false, c :: s) := by
  unfold takeSign
  split <;> simp_all [Char.isDigit]

/-- `strtol` to the base 10 with a 64-bit `long`: the number and the text at `endptr`. -/
def strtol (s : Text) : ℤ × Text :=
  let signed := takeSign (s.dropWhile isSpace)
  let digits := signed.2.takeWhile Char.isDigit
  if digits = [] then (0, s)
  else
    let n : ℤ := Nat.ofDigitChars 10 digits 0
    (if signed.1 then max (-n) (-2 ^ 63) else min n (2 ^ 63 - 1),
      signed.2.dropWhile Char.isDigit)

/-- The conversion to `axis2_port_t`, an `unsigned short`. -/
def toPort (v : ℤ) : ℕ := (v % 2 ^ 16).toNat

end Strtol

section Parse

def endsPath (c : Char) : Bool := c = '?' || c = '#'

def endsHostinfo (c : Char) : Bool := c = '/' || endsPath c

def endsScheme (c : Char) : Bool := c = ':' || endsHostinfo c

/-- A digit or a letter, as the comparisons of the source have it. -/
def isAlnum (c : Char) : Bool :=
  ('0' ≤ c && c ≤ '9') || ('a' ≤ c && c ≤ 'z') || ('A' ≤ c && c ≤ 'Z')

/-- Path, query and fragment, which are read last. -/
structure Tail where
  path : Option Text
  query : Option Text
  fragment : Option Text
  deriving DecidableEq, Repr

def readTail (uriStr : Text) : Tail :=
  let path := uriStr.takeWhile (!endsPath ·)
  let path := if path = [] then none else some path
  match uriStr.dropWhile (!endsPath ·) with
  | [] => ⟨path, none, none⟩
  | '?' :: s =>
    match search ['#'] s with
    | some s1 => ⟨path, some (upTo s s1), some s1.tail⟩
    | none => ⟨path, some s, none⟩
  | _ :: s => ⟨path, none, some s⟩

def Uri.withTail (uri : Uri) (t : Tail) : Uri :=
  { uri with path := t.path, query := t.query, fragment := t.fragment }

def dealWithPath (uri : Uri) (uriStr : Text) : Option Uri :=
  if (uri.hostinfo = none ∧ uriStr[0]? = some '/' ∧ uriStr[1]? = some '/') ∨
      (uri.scheme = none ∧ uriStr[0]? = some ':') then none
  else some (uri.withTail (readTail uriStr))

/-- The end of `deal_with_host`, from `if (!s)` on. The host begins at `hostinfo`, `s` is
the colon in front of the port, and `uriStr` follows the host. -/
def dealWithPort (uri : Uri) (hostinfo : Text) (s : Option Text) (v6Offset1 v6Offset2 : ℕ)
    (uriStr : Text) : Option Uri :=
  match s with
  | none =>
    dealWithPath { uri with
      hostname := some ((hostinfo.drop v6Offset1).take (hostinfo.length - v6Offset2)) } uriStr
  | some s =>
    let uri := { uri with
      hostname :=
        some ((hostinfo.drop v6Offset1).take (hostinfo.length - s.length - v6Offset2))
      portStr := some s.tail }
    if s.tail ≠ [] then
      let port := strtol s.tail
      if port.2 = [] then dealWithPath { uri with port := toPort port.1 } uriStr else none
    else dealWithPath { uri with port := portOfScheme uri.scheme } uriStr

def dealWithHost (uri : Uri) (hostinfo uriStr : Text) : Option Uri :=
  let s := hostinfo ++ uriStr
  if s[0]? = some '[' then
    if s[1]? = some ']' then none
    else if s[1]?.any isAlnum ∨ (s[1]? = some ':' ∧ s[2]? = some ':') then
      match search [']'] hostinfo with
      | none => none
      | some rsb =>
        let colon := if rsb[1]? = some ':' then some rsb.tail else none
        dealWithPort { uri with isIpv6 := true } hostinfo colon 1 2 uriStr
    else none
  else if s[0]?.all (fun c => isAlnum c || endsHostinfo c) then
    dealWithPort uri hostinfo (search [':'] hostinfo) 0 0 uriStr
  else none

def dealWithAuthority (uri : Uri) (s : Text) : Option Uri :=
  let hostinfo := s.takeWhile (!endsHostinfo ·)
  let uriStr := s.dropWhile (!endsHostinfo ·)
  let uri := { uri with hostinfo := some hostinfo }
  match searchBack '@' hostinfo with
  | none => dealWithHost uri hostinfo uriStr
  | some s =>
    let userinfo := upTo hostinfo s
    match search [':'] userinfo with
    | some s1 =>
      dealWithHost { uri with user := some (upTo userinfo s1), password := some s1.tail }
        s.tail uriStr
    | none => dealWithHost { uri with user := some userinfo } s.tail uriStr

/-- Where the first characters of the string send the parser. -/
inductive Start
  | path
  | authority (scheme : Option Text) (s : Text)
  deriving DecidableEq, Repr

def start (uriStr : Text) : Start :=
  if uriStr[0]? = some '/' then
    if uriStr[1]? = some '/' ∧ uriStr[2]? ≠ some '/' then .authority none (uriStr.drop 2)
    else .path
  else
    let scheme := uriStr.takeWhile (!endsScheme ·)
    let s := uriStr.dropWhile (!endsScheme ·)
    if scheme = [] ∨ s[0]? ≠ some ':' ∨ s[1]? ≠ some '/' ∨ s[2]? ≠ some '/' then
      .authority none uriStr
    else .authority (some scheme) (s.drop 3)

/-- `axutil_uri_parse_string`. -/
def parseString (uriStr : Text) : Option Uri :=
  match start uriStr with
  | .path => dealWithPath { isInitialized := true } uriStr
  | .authority scheme s => dealWithAuthority { scheme := scheme, isInitialized := true } s

end Parse

section Unparse

def unpOmitSitePart : ℕ := 1
def unpOmitUser : ℕ := 2
def unpOmitPassword : ℕ := 4
def unpRevealPassword : ℕ := 8
def unpOmitPathInfo : ℕ := 16
def unpOmitQueryOnly : ℕ := 32
def unpOmitFragmentOnly : ℕ := 64

variable (uri : Uri) (flags : ℕ)

def userPart : Text :=
  let user := if flags &&& unpOmitUser = 0 then uri.user else none
  let password := if flags &&& unpOmitPassword = 0 then uri.password else none
  let shown := if flags &&& unpRevealPassword ≠ 0 then password.getD [] else "XXXXXXXX".toList
  user.getD [] ++ (if password.isSome then ':' :: shown else []) ++
    (if user.isSome ∨ password.isSome then ['@'] else [])

/-- The site with the user in front of it. Without a scheme the "//" is omitted too. -/
def sitePart : Text :=
  match uri.hostname with
  | none => userPart uri flags
  | some hostname =>
    let isDefaultPort := uri.portStr = none ∨ uri.port = 0 ∨ uri.port = portOfScheme uri.scheme
    (match uri.scheme with
      | some scheme => scheme ++ "://".toList
      | none => []) ++ userPart uri flags ++
      (if uri.isIpv6 then ['['] else []) ++ hostname ++ (if uri.isIpv6 then [']'] else []) ++
      (if isDefaultPort then [] else ':' :: uri.portStr.getD [])

def pathPart : Text :=
  let query := if flags &&& unpOmitQueryOnly = 0 then uri.query else none
  let fragment := if flags &&& unpOmitFragmentOnly = 0 then uri.fragment else none
  uri.path.getD [] ++ (match query with
    | some query => '?' :: query
    | none => []) ++
    (match fragment with
    | some fragment => '#' :: fragment
    | none => [])

/-- `axutil_uri_to_string`. -/
def toString : Text :=
  (if flags &&& unpOmitSitePart = 0 then sitePart uri flags else []) ++
    (if flags &&& unpOmitPathInfo = 0 then pathPart uri flags else [])

end Unparse

section Resolve

/-- `munch "up" components`: the last slash of the base path that is left, by its index,
and the path behind the components. -/
def munchUp (basepath : Text) : ℕ → Text → ℕ × Text
  | baseEnd, '.' :: '.' :: '/' :: path =>
    munchUp basepath
      (baseEnd - 1 - ((basepath.take baseEnd).reverse.takeWhile (· ≠ '/')).length) path
  | baseEnd, path => (baseEnd, path)

/-- `munch "here" components`. -/
def munchHere : Text → Text
  | '.' :: '/' :: path => munchHere path
  | path => path

def resolvePath (base uri : Uri) : Option Text :=
  match uri.path with
  | none => some (if uri.hostname = none then base.path.getD ['/'] else ['/'])
  | some path =>
    if path[0]? = some '/' then some path
    else
      let basepath := base.path.getD ['/']
      if basepath[0]? ≠ some '/' then none
      else
        let baseEnd := basepath.length - 1 - (basepath.reverse.takeWhile (· ≠ '/')).length
        let munched := munchUp basepath baseEnd path
        some (basepath.take (munched.1 + 1) ++ munchHere munched.2)

/-- `axutil_uri_resolve_relative`. -/
def resolveRelative (base uri : Uri) : Option Uri :=
  if !base.isInitialized || !uri.isInitialized then none
  else
    (resolvePath base uri).map fun path =>
      { uri with
        path := some path
        scheme := uri.scheme <|> base.scheme
        hostinfo := uri.hostinfo <|> base.hostinfo
        user := uri.user <|> base.user
        password := uri.password <|> base.password
        hostname := uri.hostname <|> base.hostname
        portStr := uri.portStr <|> base.portStr
        hostent := uri.hostent <|> base.hostent
        port := if uri.port = 0 then base.port else uri.port
        isIpv6 := base.isIpv6 }

end Resolve

end Axis2C.Uris
