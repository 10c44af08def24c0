import Axis2C.FirstOccurrence

/-!
# Qualified names and their keys

`qname.c`. A name is printed as `localpart`, `localpart|uri` or `localpart|uri|prefix`, and
the text is kept in the name from then on; it serves as its key in hash tables. Two names
are equal if their localparts and URIs are, whatever the prefixes.
-/
namespace Axis2C.Qnames
open FirstOccurrence (search upTo search_singleton search_singleton_none split_at_first)

abbrev Text := List UInt8

/-- The separator `'|'`. -/
def bar : UInt8 := 124

def keyText (localpart : Text) (namespaceUri nsPrefix : Option Text) : Text :=
  if namespaceUri.getD [] = [] then localpart
  else if nsPrefix.getD [] = [] then (localpart ++ [bar]) ++ namespaceUri.getD []
  else ((localpart ++ [bar]) ++ namespaceUri.getD [] ++ [bar]) ++ nsPrefix.getD []

/-- `axutil_qname_t`. Only `axutil_qname_to_string` sets `qname_string`, and nothing changes
the other fields. -/
structure Qname where
  localpart : Text
  namespaceUri : Option Text
  nsPrefix : Option Text
  qnameString : Option Text
  cached : ∀ s ∈ qnameString, s = keyText localpart namespaceUri nsPrefix

lemma none_cached (localpart : Text) (namespaceUri nsPrefix : Option Text) :
    ∀ s ∈ (none : Option Text), s = keyText localpart namespaceUri nsPrefix := by simp

lemma some_cached (localpart : Text) (namespaceUri nsPrefix : Option Text) :
    ∀ s ∈ some (keyText localpart namespaceUri nsPrefix),
      s = keyText localpart namespaceUri nsPrefix := by simp

/-- A name that has not been printed yet. -/
def fresh (localpart : Text) (namespaceUri nsPrefix : Option Text) : Qname :=
  ⟨localpart, namespaceUri, nsPrefix, none, none_cached localpart namespaceUri nsPrefix⟩

/-- `axutil_qname_create`, which refuses a NULL localpart. -/
def create : Option Text → Option Text → Option Text → Option Qname
  | none, _, _ => none
  | some localpart, namespaceUri, nsPrefix => some (fresh localpart namespaceUri nsPrefix)

/-- `axutil_qname_equals`; a missing URI is not an empty one. -/
def equals (qname : Qname) : Option Qname → Bool
  | none => false
  | some qname2 =>
    let localpartsDiffer := decide (qname.localpart ≠ qname2.localpart)
    let urisDiffer :=
      match qname.namespaceUri, qname2.namespaceUri with
      | some uri, some uri2 => decide (uri ≠ uri2)
      | uri, uri2 => uri.isSome || uri2.isSome
    !urisDiffer && !localpartsDiffer

/-- `axutil_qname_to_string`, with the name as it is left. -/
def toString (qname : Qname) : Text × Qname :=
  match qname.qnameString with
  | some s => (s, qname)
  | none =>
    let s := keyText qname.localpart qname.namespaceUri qname.nsPrefix
    (s, ⟨qname.localpart, qname.namespaceUri, qname.nsPrefix, some s,
      some_cached qname.localpart qname.namespaceUri qname.nsPrefix⟩)

/-- `axutil_qname_create_from_string`. -/
def createFromString : Option Text → Option Qname
  | none => none
  | some qstring =>
    if qstring = [] then none
    else
      match search [bar] qstring with
      | none => create (some qstring) none none
      | some index =>
        let next := index.drop 1
        match search [bar] next with
        | some index2 =>
          create (some (upTo qstring index)) (some (upTo next index2))
            (some (index2.drop 1))
        | none => create (some (upTo qstring index)) (some next) none

section Keys

variable {q q2 : Qname}

def Qname.uriText (q : Qname) : Text := q.namespaceUri.getD []

def Qname.prefixText (q : Qname) : Text := q.nsPrefix.getD []

def Qname.BarFree (q : Qname) : Prop := bar ∉ q.localpart ∧ bar ∉ q.uriText

lemma toString_text (q : Qname) :
    (toString q).1 = keyText q.localpart q.namespaceUri q.nsPrefix := by
  unfold toString
  split
  · next s hs => exact q.cached s hs
  · rfl

lemma equals_iff : equals q (some q2) = true ↔
    q.localpart = q2.localpart ∧ q.namespaceUri = q2.namespaceUri := by
  unfold equals
  cases q.namespaceUri <;> cases h2 : q2.namespaceUri <;> simp [h2, and_comm]

lemma toString_of_no_uri (h : q.uriText = []) :
    (toString q).1 = q.localpart := by
  rw [toString_text]
  exact if_pos h

/-- Behind the localpart of a name with a URI there is the separator, the URI and, if there
is a prefix, the separator and the prefix. -/
lemma toString_of_uri (h : q.uriText ≠ []) :
    (toString q).1 = q.localpart ++ bar :: (q.uriText ++
      if q.prefixText = [] then [] else bar :: q.prefixText) := by
  have hkey : (toString q).1 = if q.uriText = [] then q.localpart
      else if q.prefixText = [] then (q.localpart ++ [bar]) ++ q.uriText
      else ((q.localpart ++ [bar]) ++ q.uriText ++ [bar]) ++ q.prefixText := toString_text q
  rw [hkey, if_neg h]
  split <;> simp

def SameKey (q q2 : Qname) : Prop :=
  q.localpart = q2.localpart ∧ q.uriText = q2.uriText ∧
    (q.uriText = [] ∨ q.prefixText = q2.prefixText)

/-- A separator inside the key shows that there is a URI. -/
lemma bar_mem_toString_iff (h : q.BarFree) : bar ∈ (toString q).1 ↔ q.uriText ≠ [] := by
  by_cases huri : q.uriText = []
  · rw [toString_of_no_uri huri]
    exact iff_of_false h.1 (fun hne => hne huri)
  · rw [toString_of_uri huri]
    exact iff_of_true (by simp) huri

/-- Behind a URI either nothing follows, or a separator and a prefix that is not empty. -/
lemma uri_and_prefix_unique {u u2 p p2 : Text} (hu : bar ∉ u) (hu2 : bar ∉ u2)
    (h : (u ++ if p = [] then [] else bar :: p) = u2 ++ if p2 = [] then [] else bar :: p2) :
    u = u2 ∧ p = p2 := by
  by_cases hp : p = [] <;> by_cases hp2 : p2 = []
  · simp only [hp, hp2, if_true, List.append_nil] at h
    exact ⟨h, by rw [hp, hp2]⟩
  · simp only [hp, hp2, if_true, if_false, List.append_nil] at h
    exact absurd (by simp [h]) hu
  · simp only [hp, hp2, if_true, if_false, List.append_nil] at h
    exact absurd (by simp [← h]) hu2
  · simp only [hp, hp2, if_false] at h
    exact split_at_first hu hu2 h

/-- Two keys are the same text exactly if localparts and URIs agree, a missing URI counting
as empty, and behind a URI the prefixes too. -/
theorem toString_eq_iff (h : q.BarFree) (h2 : q2.BarFree) :
    (toString q).1 = (toString q2).1 ↔ SameKey q q2 := by
  by_cases huri : q.uriText = [] <;> by_cases huri2 : q2.uriText = []
  · rw [toString_of_no_uri huri, toString_of_no_uri huri2]
    simp [SameKey, huri, huri2]
  · refine iff_of_false (fun heq => ?_) (fun hsame => huri2 (hsame.2.1 ▸ huri))
    exact (bar_mem_toString_iff h).mp (heq ▸ (bar_mem_toString_iff h2).mpr huri2) huri
  · refine iff_of_false (fun heq => ?_) (fun hsame => huri (hsame.2.1 ▸ huri2))
    exact (bar_mem_toString_iff h2).mp (heq ▸ (bar_mem_toString_iff h).mpr huri) huri2
  · rw [toString_of_uri huri, toString_of_uri huri2]
    constructor
    · intro heq
      obtain ⟨hlocal, hrest⟩ := split_at_first h.1 h2.1 heq
      obtain ⟨hu, hp⟩ := uri_and_prefix_unique h.2 h2.2 hrest
      exact ⟨hlocal, hu, Or.inr hp⟩
    · intro hsame
      have hp : q.prefixText = q2.prefixText := hsame.2.2.resolve_left huri
      rw [hsame.1, hsame.2.1, hp]

end Keys

section ReadingBack

variable {q : Qname}

/-- A key without a URI is read as a localpart, unless it is empty. -/
lemma read_no_uri (h : q.BarFree) (huri : q.uriText = []) :
    createFromString (some (toString q).1) =
      if q.localpart = [] then none else create (some q.localpart) none none := by
  rw [toString_of_no_uri huri]
  simp [createFromString, search_singleton_none h.1]

lemma read_uri (h : q.BarFree) (huri : q.uriText ≠ []) :
    createFromString (some (toString q).1) = create (some q.localpart) (some q.uriText)
      (if q.prefixText = [] then none else some q.prefixText) := by
  rw [toString_of_uri huri]
  unfold createFromString
  simp only [List.append_eq_nil_iff, reduceCtorEq, and_false, if_false,
    search_singleton _ h.1, List.drop_one, List.tail_cons, FirstOccurrence.upTo_append]
  by_cases hp : q.prefixText = []
  · simp [hp, search_singleton_none h.2]
  · simp [hp, search_singleton _ h.2]

def ReadsBack (q : Qname) : Prop :=
  ∃ r, createFromString (some (toString q).1) = some r ∧ equals r (some q) = true

lemma readsBack_iff (h : q.BarFree) :
    ReadsBack q ↔ q.uriText ≠ [] ∨ (q.namespaceUri = none ∧ q.localpart ≠ []) := by
  unfold ReadsBack
  by_cases huri : q.uriText = []
  · rw [read_no_uri h huri]
    by_cases hlocal : q.localpart = []
    · simp [hlocal, huri]
    · have hread : create (some q.localpart) none none = some (fresh q.localpart none none) := rfl
      simp only [hlocal, if_false, hread, Option.some.injEq, exists_eq_left', equals_iff]
      simp [fresh, hlocal, huri, eq_comm]
  · have huri' : some q.uriText = q.namespaceUri := by
      cases hq : q.namespaceUri with
      | none => exact absurd (by simp [Qname.uriText, hq]) huri
      | some uri => simp [Qname.uriText, hq]
    refine iff_of_true ⟨_, read_uri h huri, ?_⟩ (Or.inl huri)
    exact equals_iff.mpr ⟨rfl, huri'⟩

end ReadingBack

/-- For names free of the separator: equality and equality of the keys go together, except
for two names with the same localpart and the same URI, a missing one counting as empty,
of which one has no URI and the other an empty one, or which have a URI and different
prefixes. A name is read back from its key if it has a URI that is not empty, or none at
all and a localpart that is not empty. -/
theorem qname_keys_iff (q q2 : Qname) (h : q.BarFree) (h2 : q2.BarFree) :
    ((equals q (some q2) = true ↔ (toString q).1 = (toString q2).1) ↔
      (q.localpart = q2.localpart → q.uriText = q2.uriText →
        q.namespaceUri = q2.namespaceUri ∧ (q.uriText = [] ∨ q.prefixText = q2.prefixText))) ∧
    (ReadsBack q ↔ q.uriText ≠ [] ∨ (q.namespaceUri = none ∧ q.localpart ≠ [])) := by
  refine ⟨?_, readsBack_iff h⟩
  rw [toString_eq_iff h h2, equals_iff]
  have huri : q.namespaceUri = q2.namespaceUri → q.uriText = q2.uriText := by
    intro heq
    rw [Qname.uriText, Qname.uriText, heq]
  -- two names without a URI text have one key, two with the same URI are equal
  have hempty : q.uriText = q2.uriText → q.uriText ≠ [] → q.namespaceUri = q2.namespaceUri := by
    intro heq hne
    unfold Qname.uriText at heq hne
    cases hq : q.namespaceUri <;> cases hq2 : q2.namespaceUri <;> simp_all
  unfold SameKey
  tauto

theorem qname_keys_of_two_prefixes :
    (equals (fresh [97] (some [117]) (some [112])) (some (fresh [98] (some [117]) none)) = true ↔
      (toString (fresh [97] (some [117]) (some [112]))).1 =
        (toString (fresh [98] (some [117]) none)).1) ∧
    ReadsBack (fresh [97] (some [117]) (some [112])) := by
  have hkeys := qname_keys_iff (fresh [97] (some [117]) (some [112]))
    (fresh [98] (some [117]) none) (by constructor <;> decide) (by constructor <;> decide)
  exact ⟨hkeys.1.mpr (fun hlocal => absurd hlocal (by decide)), hkeys.2.mpr (Or.inl (by decide))⟩

/-- The names `a` of the URI `u`, with the prefix `p` and without one, are equal, but
`a|u|p` and `a|u` are two keys. -/
theorem equal_names_have_two_keys :
    equals (fresh [97] (some [117]) (some [112])) (some (fresh [97] (some [117]) none)) = true ∧
      (toString (fresh [97] (some [117]) (some [112]))).1 = [97, 124, 117, 124, 112] ∧
      (toString (fresh [97] (some [117]) none)).1 = [97, 124, 117] ∧
      ¬ ∀ q q2 : Qname, q.BarFree → q2.BarFree →
        ((equals q (some q2) = true ↔ (toString q).1 = (toString q2).1) ∧ ReadsBack q) := by
  refine ⟨by decide, by decide, by decide, fun hclaim => ?_⟩
  have hkeys := (hclaim (fresh [97] (some [117]) (some [112])) (fresh [97] (some [117]) none)
    (by constructor <;> decide) (by constructor <;> decide)).1
  exact absurd (hkeys.mp (by decide)) (by decide)

end Axis2C.Qnames
