import Axis2C.Uri

/-!
# Resolving a reference that has a host

`axutil_uri_resolve_relative` takes each missing field of the reference from the base
by itself, and the address family always. A reference with a host of its own can so get
the user, the password and the port of another one.
-/
namespace Axis2C.Uris

/-- The fields about where a URI leads. -/
structure SameAuthority (r u : Uri) : Prop where
  hostname : r.hostname = u.hostname
  hostinfo : r.hostinfo = u.hostinfo
  user : r.user = u.user
  password : r.password = u.password
  port : r.port = u.port
  portStr : r.portStr = u.portStr
  isIpv6 : r.isIpv6 = u.isIpv6

/-- The other fields, those of the two bases alike. -/
structure SameElsewhere (base base' : Uri) : Prop where
  scheme : base.scheme = base'.scheme
  path : base.path = base'.path
  query : base.query = base'.query
  fragment : base.fragment = base'.fragment
  hostent : base.hostent = base'.hostent
  isInitialized : base.isInitialized = base'.isInitialized

/-- Both URIs were parsed, and the base has a path that a relative one can be put to. -/
def Resolvable (base ref : Uri) : Prop :=
  base.isInitialized = true ∧ ref.isInitialized = true ∧
    ∀ path, ref.path = some path → path[0]? ≠ some '/' → (base.path.getD ['/'])[0]? = some '/'

/-- The base has nothing where the reference has nothing, and its address family. -/
structure HandsNothingDown (base ref : Uri) : Prop where
  hostinfo : ref.hostinfo = none → base.hostinfo = none
  user : ref.user = none → base.user = none
  password : ref.password = none → base.password = none
  port : ref.port = 0 → base.port = 0
  portStr : ref.portStr = none → base.portStr = none
  isIpv6 : base.isIpv6 = ref.isIpv6

/-- Two bases are the same where the reference has nothing, and of one address family. -/
structure HandSameDown (base base' ref : Uri) : Prop where
  hostinfo : ref.hostinfo = none → base.hostinfo = base'.hostinfo
  user : ref.user = none → base.user = base'.user
  password : ref.password = none → base.password = base'.password
  port : ref.port = 0 → base.port = base'.port
  portStr : ref.portStr = none → base.portStr = base'.portStr
  isIpv6 : base.isIpv6 = base'.isIpv6

section Fields

variable {α : Type*} {a b b' : Option α}

lemma orElse_eq_self_iff : (a <|> b) = a ↔ (a = none → b = none) := by
  cases a <;> simp

lemma orElse_congr_iff : (a <|> b) = (a <|> b') ↔ (a = none → b = b') := by
  cases a <;> simp

lemma ite_zero_eq_self_iff {p q : ℕ} : (if p = 0 then q else p) = p ↔ (p = 0 → q = 0) := by
  by_cases hp : p = 0 <;> simp [hp]

lemma ite_zero_congr_iff {p q q' : ℕ} :
    (if p = 0 then q else p) = (if p = 0 then q' else p) ↔ (p = 0 → q = q') := by
  by_cases hp : p = 0 <;> simp [hp]

end Fields

variable {base base' ref : Uri}

/-- The reference with this path and what it takes from the base. -/
def inherit (base ref : Uri) (path : Text) : Uri :=
  { ref with
    path := some path
    scheme := ref.scheme <|> base.scheme
    hostinfo := ref.hostinfo <|> base.hostinfo
    user := ref.user <|> base.user
    password := ref.password <|> base.password
    hostname := ref.hostname <|> base.hostname
    portStr := ref.portStr <|> base.portStr
    hostent := ref.hostent <|> base.hostent
    port := if ref.port = 0 then base.port else ref.port
    isIpv6 := base.isIpv6 }

/-- A path is found unless it is relative to a base path that does not begin with a slash. -/
lemma resolvePath_isSome_iff : (resolvePath base ref).isSome ↔
    ∀ path, ref.path = some path → path[0]? ≠ some '/' →
      (base.path.getD ['/'])[0]? = some '/' := by
  unfold resolvePath
  cases hpath : ref.path with
  | none => simp
  | some path =>
    by_cases hslash : path[0]? = some '/'
    · simp [hslash]
    · by_cases hbase : (base.path.getD ['/'])[0]? = some '/'
      · simp [hslash, hbase]
      · simp [hslash, hbase]

lemma resolveRelative_eq (h : Resolvable base ref) :
    ∃ path, resolvePath base ref = some path ∧
      resolveRelative base ref = some (inherit base ref path) := by
  obtain ⟨hbase, href, hpath⟩ := h
  obtain ⟨path, hsome⟩ := Option.isSome_iff_exists.mp (resolvePath_isSome_iff.mpr hpath)
  refine ⟨path, hsome, ?_⟩
  simp [resolveRelative, hbase, href, hsome, inherit]

lemma resolveRelative_eq_none (h : ¬ Resolvable base ref) : resolveRelative base ref = none := by
  by_cases hinit : (!base.isInitialized || !ref.isInitialized) = true
  · rw [resolveRelative, if_pos hinit]
  · have hpath : resolvePath base ref = none := by
      rw [← Option.not_isSome_iff_eq_none, resolvePath_isSome_iff]
      intro hall
      apply h
      have hboth : base.isInitialized = true ∧ ref.isInitialized = true := by
        simpa [not_or] using hinit
      exact ⟨hboth.1, hboth.2, hall⟩
    rw [resolveRelative, if_neg hinit, hpath]
    rfl

lemma SameElsewhere.resolvePath_eq (h : SameElsewhere base base') :
    resolvePath base ref = resolvePath base' ref := by
  simp only [resolvePath, h.path]

lemma SameElsewhere.resolvable (h : SameElsewhere base base') (hr : Resolvable base ref) :
    Resolvable base' ref := by
  unfold Resolvable at hr ⊢
  rwa [← h.isInitialized, ← h.path]

lemma sameAuthority_inherit_iff (hhost : ref.hostname ≠ none) (path : Text) :
    SameAuthority (inherit base ref path) ref ↔ HandsNothingDown base ref := by
  constructor
  · intro h
    exact
      { hostinfo := orElse_eq_self_iff.mp h.hostinfo
        user := orElse_eq_self_iff.mp h.user
        password := orElse_eq_self_iff.mp h.password
        port := ite_zero_eq_self_iff.mp h.port
        portStr := orElse_eq_self_iff.mp h.portStr
        isIpv6 := h.isIpv6 }
  · intro h
    exact
      { hostname := orElse_eq_self_iff.mpr fun hnone => absurd hnone hhost
        hostinfo := orElse_eq_self_iff.mpr h.hostinfo
        user := orElse_eq_self_iff.mpr h.user
        password := orElse_eq_self_iff.mpr h.password
        port := ite_zero_eq_self_iff.mpr h.port
        portStr := orElse_eq_self_iff.mpr h.portStr
        isIpv6 := h.isIpv6 }

lemma inherit_congr_iff (hhost : ref.hostname ≠ none) (helse : SameElsewhere base base')
    (path : Text) :
    inherit base ref path = inherit base' ref path ↔ HandSameDown base base' ref := by
  have hname : (ref.hostname <|> base.hostname) = (ref.hostname <|> base'.hostname) :=
    orElse_congr_iff.mpr fun hnone => absurd hnone hhost
  simp only [inherit, Uri.mk.injEq, helse.scheme, helse.hostent, hname, orElse_congr_iff,
    ite_zero_congr_iff, true_and]
  constructor
  · rintro ⟨hostinfo, user, password, portStr, port, isIpv6⟩
    exact ⟨hostinfo, user, password, port, portStr, isIpv6⟩
  · intro h
    exact ⟨h.hostinfo, h.user, h.password, h.portStr, h.port, h.isIpv6⟩

/-- A reference with a host keeps its authority exactly if the base has nothing to hand
down to it, and does not tell two bases apart exactly if they hand down the same. -/
theorem resolve_keeps_authority_iff (base ref : Uri) (hhost : ref.hostname ≠ none) :
    ((∀ r, resolveRelative base ref = some r → SameAuthority r ref) ↔
        (Resolvable base ref → HandsNothingDown base ref)) ∧
      ∀ base', SameElsewhere base base' →
        (resolveRelative base ref = resolveRelative base' ref ↔
          (Resolvable base ref → HandSameDown base base' ref)) := by
  by_cases hr : Resolvable base ref
  · obtain ⟨path, hpath, heq⟩ := resolveRelative_eq hr
    constructor
    · simp only [heq, Option.some.injEq, forall_eq', hr, true_imp_iff]
      exact sameAuthority_inherit_iff hhost path
    · intro base' helse
      obtain ⟨path', hpath', heq'⟩ := resolveRelative_eq (helse.resolvable hr)
      obtain rfl : path = path' :=
        Option.some.inj (hpath.symm.trans (helse.resolvePath_eq.trans hpath'))
      simp only [heq, heq', Option.some.injEq, hr, true_imp_iff]
      exact inherit_congr_iff hhost helse path
  · have hnone := resolveRelative_eq_none hr
    constructor
    · simp [hnone, hr]
    · intro base' helse
      have helse' : SameElsewhere base' base :=
        ⟨helse.scheme.symm, helse.path.symm, helse.query.symm, helse.fragment.symm,
          helse.hostent.symm, helse.isInitialized.symm⟩
      have hnone' := resolveRelative_eq_none fun hr' => hr (helse'.resolvable hr')
      simp [hnone, hnone', hr]

/-- The relative reference "//other/x" keeps its authority if the base is "http://host/a". -/
theorem resolve_keeps_authority_other :
    ∃ base ref, parseString "http://host/a".toList = some base ∧
      parseString "//other/x".toList = some ref ∧
      ((∀ r, resolveRelative base ref = some r → SameAuthority r ref) ↔
          (Resolvable base ref → HandsNothingDown base ref)) ∧
        ∀ base', SameElsewhere base base' →
          (resolveRelative base ref = resolveRelative base' ref ↔
            (Resolvable base ref → HandSameDown base base' ref)) := by
  obtain ⟨base, hbase⟩ := Option.isSome_iff_exists.mp
    (by decide : (parseString "http://host/a".toList).isSome)
  have hhost : (parseString "//other/x".toList).any (fun ref => ref.hostname.isSome) = true := by
    decide
  cases href : parseString "//other/x".toList with
  | none =>
    rw [href] at hhost
    cases hhost
  | some ref =>
    rw [href] at hhost
    exact ⟨base, ref, hbase, rfl,
      resolve_keeps_authority_iff base ref (Option.isSome_iff_ne_none.mp hhost)⟩

/-- The host "other" gets the password, the port and the brackets of the base. -/
theorem password_is_handed_down :
    ∃ base ref r, parseString "http://user:secret@[::1]:8080/".toList = some base ∧
      parseString "http://other/x".toList = some ref ∧ resolveRelative base ref = some r ∧
      ref.hostname = some "other".toList ∧ r.hostname = some "other".toList ∧
      r.password = some "secret".toList ∧ r.port = 8080 ∧ r.isIpv6 = true ∧
      ¬ SameAuthority r ref := by
  have hresult : ((parseString "http://user:secret@[::1]:8080/".toList).any fun base =>
      (parseString "http://other/x".toList).any fun ref =>
        (resolveRelative base ref).any fun r => decide
          (ref.hostname = some "other".toList ∧ r.hostname = some "other".toList ∧
            r.password = some "secret".toList ∧ r.port = 8080 ∧ r.isIpv6 = true ∧
            ref.isIpv6 = false)) = true := by decide
  simp only [Option.any_eq_true, decide_eq_true_eq] at hresult
  obtain ⟨base, hbase, ref, href, r, hr, hname, hother, hpassword, hport, hv6, hplain⟩ := hresult
  refine ⟨base, ref, r, hbase, href, hr, hname, hother, hpassword, hport, hv6, fun h => ?_⟩
  have hsame := h.isIpv6
  rw [hv6, hplain] at hsame
  cases hsame

end Axis2C.Uris
