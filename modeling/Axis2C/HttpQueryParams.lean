import Axis2C.UrlEncode

/-!
# The parameters of a query

`axis2_http_transport_utils_get_request_params` and `axis2_http_transport_utils_strdecode`.
The hash is the list of the calls that set an entry in it; the last one with a key counts.
A copy of a piece of the query is kept with the place that it was copied from: the number of
the parameter and of the piece within it, which say what delimiters are in front of it.
-/
namespace Axis2C.HttpQuery
open UrlEncode

abbrev Text := List UInt8

/-- `AXIS2_EQ`, `AXIS2_AND` and `AXIS2_Q_MARK`. -/
def eqMark : UInt8 := 61
def andMark : UInt8 := 38
def qMark : UInt8 := 63

section Model

/-- `axis2_http_transport_utils_strdecode`, with what it leaves as a string. -/
def strdecode (src : Text) : Text := (urlDecode src).takeWhile (· ≠ 0)

structure Place where
  param : ℕ
  piece : ℕ
  deriving DecidableEq, Repr

structure Piece where
  place : Place
  text : Text
  deriving DecidableEq, Repr

/-- A call of `axutil_hash_set`. -/
structure Binding where
  name : Piece
  value : Piece
  deriving DecidableEq, Repr

/-- The variables of the loop: the place of `tmp2`, what is between it and `tmp`, `tmp_name`,
`tmp_value` and the calls so far. -/
structure State where
  place : Place
  segment : Text
  tmpName : Option Piece
  tmpValue : Option Piece
  ret : List Binding
  deriving DecidableEq, Repr

/-- The copy of what is in front of a delimiter. -/
def State.copied (s : State) : Piece := ⟨s.place, strdecode s.segment⟩

/-- What a character does to the pointers. -/
def State.read (s : State) (c : UInt8) : State :=
  if c = eqMark then
    { s with tmpName := some s.copied, place := ⟨s.place.param, s.place.piece + 1⟩, segment := [] }
  else if c = andMark then
    { s with tmpValue := some s.copied, place := ⟨s.place.param + 1, 0⟩, segment := [] }
  else { s with segment := s.segment ++ [c] }

/-- `if (tmp_name && NULL != tmp_value)`. -/
def State.bind (s : State) : State :=
  match s.tmpName, s.tmpValue with
  | some name, some value =>
    { s with tmpName := none, tmpValue := none, ret := s.ret ++ [⟨name, value⟩] }
  | _, _ => s

def State.step (s : State) (c : UInt8) : State := (s.read c).bind

/-- What is done behind the loop. -/
def State.finish (s : State) : List Binding :=
  match s.tmpName with
  | some name => if s.segment = [] then s.ret else s.ret ++ [⟨name, s.copied⟩]
  | none => s.ret

def start : State := ⟨⟨0, 0⟩, [], none, none, []⟩

/-- `axis2_http_transport_utils_get_request_params`. The hash is made with its first entry. -/
def getRequestParams (requestUri : Text) : Option (List Binding) :=
  match requestUri.dropWhile (· ≠ qMark) with
  | [] => none
  | _ :: query =>
    if query = [] then none
    else
      let ret := (query.foldl State.step start).finish
      if ret = [] then none else some ret

/-- The value a map has for a name. -/
def lookup (pairs : List (Text × Text)) (name : Text) : Option Text :=
  (pairs.reverse.find? (·.1 = name)).map Prod.snd

def Binding.pair (b : Binding) : Text × Text := (b.name.text, b.value.text)

end Model

section Specification

/-- A name, or a name and a value. -/
structure Param where
  name : Text
  value : Option Text
  nonempty : name ≠ []
  nameClean : ∀ c ∈ name, c ≠ eqMark ∧ c ≠ andMark ∧ c ≠ 35 ∧ c ≠ qMark ∧ c ≠ 0
  valueClean : ∀ v, value = some v → ∀ c ∈ v, c ≠ andMark ∧ c ≠ 35 ∧ c ≠ 0

def Param.text (p : Param) : Text := p.name ++ (p.value.map (eqMark :: ·)).getD []

def Param.pair (p : Param) : Option (Text × Text) :=
  p.value.map fun v => (strdecode p.name, strdecode v)

def pairs (ps : List Param) : List (Text × Text) := ps.filterMap Param.pair

def query (ps : List Param) : Text := [andMark].intercalate (ps.map Param.text)

/-- A name is the first piece of a parameter, and the value is of the same parameter. -/
def Binding.Own (b : Binding) : Prop :=
  b.name.place.piece = 0 ∧ b.value.place.param = b.name.place.param

/-- The map has the last value of each name that has one, and no value was bound to a name of
another parameter. -/
structure Bound (ps : List Param) (ret : Option (List Binding)) : Prop where
  map : ∀ name, lookup ((ret.getD []).map Binding.pair) name = lookup (pairs ps) name
  own : ∀ b ∈ ret.getD [], b.Own

/-- The value is empty, or ends with `=`: nothing is left of it behind the last `=`. -/
def EndsEmpty (v : Text) : Prop := v = [] ∨ v.getLast? = some eqMark

instance (v : Text) : Decidable (EndsEmpty v) := inferInstanceAs (Decidable (_ ∨ _))

/-- When the pieces are paired rightly: no parameter without a value is in front of one with a
value, and no value has a `=` in it. A last value with nothing behind its last `=` is not bound,
so that the name must have it already. -/
structure Paired (ps : List Param) : Prop where
  valueless : ps.Pairwise fun p q => p.value = none → q.value = none
  whole : ∀ p ∈ ps.dropLast, ∀ v, p.value = some v → eqMark ∉ v
  last : ∀ p ∈ ps.getLast?, ∀ v, p.value = some v →
    if EndsEmpty v then lookup (pairs ps.dropLast) (strdecode p.name) = some (strdecode v)
    else eqMark ∉ v

end Specification

section Pieces

def atParam (i : ℕ) (pending : Option Piece) (ret : List Binding) : State :=
  ⟨⟨i, 0⟩, [], none, pending, ret⟩

lemma step_other {s : State} {c : UInt8} (heq : c ≠ eqMark) (hand : c ≠ andMark)
    (h : s.tmpName = none ∨ s.tmpValue = none) :
    s.step c = { s with segment := s.segment ++ [c] } := by
  obtain ⟨place, segment, tmpName, tmpValue, ret⟩ := s
  simp only [State.step, State.read, if_neg heq, if_neg hand, State.bind]
  rcases h with h | h
  · cases h
    rfl
  · cases h
    cases tmpName <;> rfl

/-- Characters without meaning are collected. -/
lemma foldl_step_other {text : Text} (htext : ∀ c ∈ text, c ≠ eqMark ∧ c ≠ andMark) (s : State)
    (h : s.tmpName = none ∨ s.tmpValue = none) :
    text.foldl State.step s = { s with segment := s.segment ++ text } := by
  induction text generalizing s with
  | nil => simp
  | cons c text ih =>
    obtain ⟨⟨heq, hand⟩, hrest⟩ := List.forall_mem_cons.mp htext
    rw [List.foldl_cons, step_other heq hand h,
      ih hrest { s with segment := s.segment ++ [c] } h]
    simp

lemma Param.name_plain (p : Param) : ∀ c ∈ p.name, c ≠ eqMark ∧ c ≠ andMark :=
  fun c hc => ⟨(p.nameClean c hc).1, (p.nameClean c hc).2.1⟩

/-- The name of a parameter in front of its `=`. -/
lemma foldl_step_name (p : Param) (i : ℕ) (pending : Option Piece) (ret : List Binding) :
    p.name.foldl State.step (atParam i pending ret) =
      ⟨⟨i, 0⟩, p.name, none, pending, ret⟩ :=
  foldl_step_other p.name_plain (atParam i pending ret) (Or.inl rfl)

/-- Bindings are never taken back. -/
lemma ret_prefix_step (s : State) (c : UInt8) : s.ret <+: (s.step c).ret := by
  have hread : (s.read c).ret = s.ret := by
    unfold State.read
    split_ifs <;> rfl
  rw [State.step, State.bind]
  split
  · rw [hread]
    exact List.prefix_append _ _
  · rw [hread]

lemma ret_prefix_finish (s : State) : s.ret <+: s.finish := by
  unfold State.finish
  split
  · split_ifs
    · exact List.prefix_rfl
    · exact List.prefix_append _ _
  · exact List.prefix_rfl

lemma ret_prefix_foldl (text : Text) (s : State) : s.ret <+: (text.foldl State.step s).finish := by
  induction text generalizing s with
  | nil => exact ret_prefix_finish s
  | cons c text ih => exact (ret_prefix_step s c).trans (ih (s.step c))

end Pieces

section Params

variable {i : ℕ} {ret : List Binding}
variable {ps : List Param} {v : Text} {p : Param}

/-- The pieces of a value: the name in front of it stays as long as there is no `=`. -/
lemma foldl_step_value (hv : ∀ c ∈ v, c ≠ andMark) (i : ℕ) (name : Piece) (ret : List Binding) :
    ∃ k segment last, v.foldl State.step ⟨⟨i, 1⟩, [], some name, none, ret⟩ =
        ⟨⟨i, k + 1⟩, segment, some last, none, ret⟩ ∧ (segment = [] ↔ EndsEmpty v) ∧
      (eqMark ∉ v → last = name ∧ segment = v) ∧ (eqMark ∈ v → last.place.piece ≠ 0) := by
  induction v using List.reverseRecOn with
  | nil => exact ⟨0, [], name, rfl, by simp [EndsEmpty], by simp, by simp⟩
  | append_singleton v c ih =>
    have hfront : ∀ c ∈ v, c ≠ andMark := fun d hd => hv d (List.mem_append_left _ hd)
    have hand : c ≠ andMark := hv c (by simp)
    obtain ⟨k, segment, last, hrun, -, hplain, hmarked⟩ := ih hfront
    rw [List.foldl_append, hrun, List.foldl_cons, List.foldl_nil]
    by_cases heq : c = eqMark
    · subst heq
      refine ⟨k + 1, [], ⟨⟨i, k + 1⟩, strdecode segment⟩, rfl, ?_, ?_, ?_⟩
      · simp [EndsEmpty]
      · simp
      · exact fun _ => Nat.succ_ne_zero k
    · refine ⟨k, segment ++ [c], last, step_other heq hand (Or.inr rfl), ?_, ?_, ?_⟩
      · simp [EndsEmpty, heq]
      · intro hnot
        have hv' : eqMark ∉ v := fun h => hnot (List.mem_append_left _ h)
        obtain ⟨rfl, rfl⟩ := hplain hv'
        exact ⟨rfl, rfl⟩
      · intro hmem
        rcases List.mem_append.mp hmem with hmem | hmem
        · exact hmarked hmem
        · exact absurd (List.mem_singleton.mp hmem).symm heq

lemma Param.value_plain (p : Param) (h : p.value = some v) :
    ∀ c ∈ v, c ≠ andMark :=
  fun c hc => (p.valueClean v h c hc).1

/-- A parameter without a value. -/
lemma foldl_text_none (h : p.value = none) (i : ℕ) (pending : Option Piece) (ret : List Binding) :
    p.text.foldl State.step (atParam i pending ret) =
      ⟨⟨i, 0⟩, p.name, none, pending, ret⟩ := by
  rw [Param.text, h, Option.map_none, Option.getD_none, List.append_nil, foldl_step_name]

/-- A parameter with a value, when no value is pending. -/
lemma foldl_text_some (h : p.value = some v) (i : ℕ) (ret : List Binding) :
    p.text.foldl State.step (atParam i none ret) =
      v.foldl State.step ⟨⟨i, 1⟩, [], some ⟨⟨i, 0⟩, strdecode p.name⟩, none, ret⟩ := by
  rw [Param.text, h, Option.map_some, Option.getD_some, List.foldl_append, foldl_step_name,
    List.foldl_cons]
  rfl

/-- The `=` of a parameter binds a pending value. -/
lemma foldl_text_pending (h : p.value = some v) (i : ℕ) (pending : Piece) (ret : List Binding)
    (more : Text) :
    ret ++ [⟨⟨⟨i, 0⟩, strdecode p.name⟩, pending⟩] <+:
      ((p.text ++ more).foldl State.step (atParam i (some pending) ret)).finish := by
  rw [Param.text, h, Option.map_some, Option.getD_some, List.append_assoc, List.foldl_append,
    foldl_step_name, List.cons_append, List.foldl_cons]
  have hprefix := ret_prefix_foldl (v ++ more)
    (State.step ⟨⟨i, 0⟩, p.name, none, some pending, ret⟩ eqMark)
  exact hprefix

lemma query_singleton (p : Param) : query [p] = p.text := by
  simp [query]

lemma query_cons (p q : Param) (ps : List Param) :
    query (p :: q :: ps) = p.text ++ andMark :: query (q :: ps) := by
  simp [query, List.intercalate_cons_cons]

/-- What the parameters make of the bindings so far. -/
def result (i : ℕ) (pending : Option Piece) (ret : List Binding) (ps : List Param) :
    List Binding :=
  ((query ps).foldl State.step (atParam i pending ret)).finish

lemma result_none {p q : Param} (h : p.value = none) (i : ℕ) (pending : Option Piece)
    (ret : List Binding) :
    result i pending ret (p :: q :: ps) =
      result (i + 1) (some ⟨⟨i, 0⟩, strdecode p.name⟩) ret (q :: ps) := by
  rw [result, query_cons, List.foldl_append, foldl_text_none h, List.foldl_cons]
  rfl

/-- Parameters without values bind nothing. -/
lemma result_valueless (hne : ps ≠ []) (h : ∀ p ∈ ps, p.value = none) (i : ℕ)
    (pending : Option Piece) (ret : List Binding) : result i pending ret ps = ret := by
  induction ps generalizing i pending with
  | nil => exact absurd rfl hne
  | cons p ps ih =>
    obtain ⟨hp, hps⟩ := List.forall_mem_cons.mp h
    cases ps with
    | nil =>
      rw [result, query_singleton, foldl_text_none hp]
      rfl
    | cons q ps =>
      rw [result_none hp]
      exact ih (List.cons_ne_nil q ps) hps (i + 1) _

/-- A pending value is bound to the name of a later parameter. -/
lemma result_pending (h : ∃ p ∈ ps, p.value ≠ none) {i : ℕ} {pending : Piece}
    (hplace : pending.place.param < i) (ret : List Binding) :
    ∃ b ∈ result i (some pending) ret ps, ¬ b.Own := by
  induction ps generalizing i pending with
  | nil => simp at h
  | cons p ps ih =>
    cases hp : p.value with
    | some v =>
      have hprefix : ret ++ [⟨⟨⟨i, 0⟩, strdecode p.name⟩, pending⟩] <+:
          result i (some pending) ret (p :: ps) := by
        rw [result]
        cases ps with
        | nil =>
          have hrun := foldl_text_pending hp i pending ret []
          rwa [List.append_nil, ← query_singleton] at hrun
        | cons q ps =>
          rw [query_cons]
          exact foldl_text_pending hp i pending ret _
      refine ⟨_, hprefix.subset (List.mem_append_right _ (List.mem_singleton_self _)), ?_⟩
      intro hown
      have hsame : pending.place.param = i := hown.2
      omega
    | none =>
      obtain ⟨q, hq, hvalue⟩ := h
      rcases List.mem_cons.mp hq with rfl | hq
      · exact absurd hp hvalue
      cases ps with
      | nil => simp at hq
      | cons r ps =>
        rw [result_none hp]
        exact ih ⟨q, hq, hvalue⟩ (Nat.lt_succ_self i)

/-- Behind a parameter with a value, what is in front of its last `=` is bound to what follows. -/
lemma result_some {p q : Param} {ps : List Param} {v : Text} (h : p.value = some v) (i : ℕ)
    (ret : List Binding) :
    ∃ b : Binding, result i none ret (p :: q :: ps) =
        result (i + 1) none (ret ++ [b]) (q :: ps) ∧
      (eqMark ∉ v → b.Own ∧ b.pair = (strdecode p.name, strdecode v)) ∧
      (eqMark ∈ v → ¬ b.Own) := by
  obtain ⟨k, segment, last, hrun, -, hplain, hmarked⟩ :=
    foldl_step_value (p.value_plain h) i ⟨⟨i, 0⟩, strdecode p.name⟩ ret
  refine ⟨⟨last, ⟨⟨i, k + 1⟩, strdecode segment⟩⟩, ?_, ?_, ?_⟩
  · rw [result, query_cons, List.foldl_append, foldl_text_some h, hrun, List.foldl_cons]
    rfl
  · intro hv
    obtain ⟨rfl, rfl⟩ := hplain hv
    exact ⟨⟨rfl, rfl⟩, rfl⟩
  · exact fun hv hown => hmarked hv hown.1

/-- The last parameter is bound in the same way, unless nothing follows its last `=`. -/
lemma result_last (h : p.value = some v) (i : ℕ) (ret : List Binding) :
    (EndsEmpty v → result i none ret [p] = ret) ∧
      (¬ EndsEmpty v → ∃ b : Binding, result i none ret [p] = ret ++ [b] ∧
        (eqMark ∉ v → b.Own ∧ b.pair = (strdecode p.name, strdecode v)) ∧
        (eqMark ∈ v → ¬ b.Own)) := by
  obtain ⟨k, segment, last, hrun, hempty, hplain, hmarked⟩ :=
    foldl_step_value (p.value_plain h) i ⟨⟨i, 0⟩, strdecode p.name⟩ ret
  have hresult : result i none ret [p] =
      if segment = [] then ret else ret ++ [⟨last, ⟨⟨i, k + 1⟩, strdecode segment⟩⟩] := by
    rw [result, query_singleton, foldl_text_some h, hrun]
    rfl
  constructor
  · intro hv
    rw [hresult, if_pos (hempty.mpr hv)]
  · intro hv
    refine ⟨⟨last, ⟨⟨i, k + 1⟩, strdecode segment⟩⟩, ?_, ?_, ?_⟩
    · rw [hresult, if_neg (fun h => hv (hempty.mp h))]
    · intro hplainValue
      obtain ⟨rfl, rfl⟩ := hplain hplainValue
      exact ⟨⟨rfl, rfl⟩, rfl⟩
    · exact fun hmark hown => hmarked hmark hown.1

/-- The parameters whose pieces are paired rightly, whatever the map has at the end. -/
structure Clean (ps : List Param) : Prop where
  valueless : ps.Pairwise fun p q => p.value = none → q.value = none
  whole : ∀ p ∈ ps.dropLast, ∀ v, p.value = some v → eqMark ∉ v
  last : ∀ p ∈ ps.getLast?, ∀ v, p.value = some v → EndsEmpty v ∨ eqMark ∉ v

lemma clean_singleton_iff (p : Param) :
    Clean [p] ↔ ∀ v, p.value = some v → EndsEmpty v ∨ eqMark ∉ v := by
  refine ⟨fun h => h.last p rfl, fun h => ⟨List.pairwise_singleton _ p, by simp, ?_⟩⟩
  intro q hq
  obtain rfl := Option.some.inj hq
  exact h

lemma clean_cons_some_iff {p q : Param} (h : p.value = some v) :
    Clean (p :: q :: ps) ↔ eqMark ∉ v ∧ Clean (q :: ps) := by
  constructor
  · intro hclean
    have hwhole := List.forall_mem_cons.mp (List.dropLast_cons_cons ▸ hclean.whole)
    refine ⟨hwhole.1 v h, (List.pairwise_cons.mp hclean.valueless).2, hwhole.2, ?_⟩
    exact List.getLast?_cons_cons ▸ hclean.last
  · rintro ⟨hv, hclean⟩
    refine ⟨List.pairwise_cons.mpr ⟨fun r _ hp => ?_, hclean.valueless⟩, ?_, ?_⟩
    · rw [h] at hp
      cases hp
    · rw [List.dropLast_cons_cons, List.forall_mem_cons]
      refine ⟨fun u hu => ?_, hclean.whole⟩
      obtain rfl := Option.some.inj (h.symm.trans hu)
      exact hv
    · rw [List.getLast?_cons_cons]
      exact hclean.last

lemma clean_of_valueless (h : ∀ p ∈ ps, p.value = none) : Clean ps := by
  refine ⟨List.pairwise_of_forall_mem_list fun p _ q hq _ => h q hq, ?_, ?_⟩
  · intro p hp v hv
    rw [h p (List.dropLast_subset ps hp)] at hv
    cases hv
  · intro p hp v hv
    rw [h p (List.mem_of_getLast? hp)] at hv
    cases hv

lemma clean_cons_none_iff {p q : Param} (h : p.value = none) :
    Clean (p :: q :: ps) ↔ ∀ r ∈ q :: ps, r.value = none := by
  constructor
  · intro hclean r hr
    exact (List.pairwise_cons.mp hclean.valueless).1 r hr h
  · intro hnone
    exact clean_of_valueless (List.forall_mem_cons.mpr ⟨h, hnone⟩)

/-- What is bound of the parameters when their pieces are paired rightly. -/
def made (ps : List Param) : List (Text × Text) :=
  pairs ps.dropLast ++
    pairs (ps.getLast?.toList.filter fun p => !decide (EndsEmpty (p.value.getD [])))

lemma pairs_valueless {ps : List Param} (h : ∀ p ∈ ps, p.value = none) : pairs ps = [] := by
  rw [pairs, List.filterMap_eq_nil_iff]
  intro p hp
  rw [Param.pair, h p hp, Option.map_none]

lemma made_valueless (h : ∀ p ∈ ps, p.value = none) : made ps = [] := by
  rw [made, pairs_valueless fun p hp => h p (List.dropLast_subset ps hp), List.nil_append]
  refine pairs_valueless fun p hp => h p ?_
  exact List.mem_of_getLast? (Option.mem_toList.mp (List.mem_filter.mp hp).1)

lemma made_cons_some {p q : Param} (h : p.value = some v) :
    made (p :: q :: ps) = (strdecode p.name, strdecode v) :: made (q :: ps) := by
  have hpair : p.pair = some (strdecode p.name, strdecode v) := by
    rw [Param.pair, h, Option.map_some]
  rw [made, made, List.dropLast_cons_cons, List.getLast?_cons_cons, pairs,
    List.filterMap_cons_some hpair, List.cons_append]
  rfl

/-- The last parameter of those that are made is left out when nothing follows its `=`. -/
lemma made_concat (ps : List Param) (p : Param) :
    made (ps ++ [p]) = pairs ps ++ if EndsEmpty (p.value.getD []) then [] else pairs [p] := by
  rw [made, List.dropLast_concat, List.getLast?_concat, Option.toList_some]
  split_ifs with h
  · rw [List.filter_cons_of_neg (by simp [h])]
    rfl
  · rw [List.filter_cons_of_pos (by simp [h])]
    rfl

/-- A run over clean parameters, by induction on them. -/
lemma result_clean (hne : ps ≠ []) (h : Clean ps) (i : ℕ) (ret : List Binding) :
    ∃ bs, result i none ret ps = ret ++ bs ∧ bs.map Binding.pair = made ps ∧
      ∀ b ∈ bs, b.Own := by
  induction ps generalizing i ret with
  | nil => exact absurd rfl hne
  | cons p ps ih =>
    cases ps with
    | nil =>
      have hmade := made_concat [] p
      rw [List.nil_append] at hmade
      cases hp : p.value with
      | none =>
        have hnone : ∀ r ∈ [p], r.value = none := by simpa using hp
        refine ⟨[], ?_, (made_valueless hnone).symm, by simp⟩
        rw [result_valueless (List.cons_ne_nil p []) hnone, List.append_nil]
      | some v =>
        obtain ⟨hempty, hfull⟩ := result_last hp i ret
        rw [hp, Option.getD_some] at hmade
        by_cases hends : EndsEmpty v
        · refine ⟨[], by rw [hempty hends, List.append_nil], ?_, by simp⟩
          rw [hmade, if_pos hends]
          rfl
        · have hv := ((clean_singleton_iff p).mp h v hp).resolve_left hends
          obtain ⟨b, hrun, hown, -⟩ := hfull hends
          refine ⟨[b], hrun, ?_, by simpa using (hown hv).1⟩
          rw [hmade, if_neg hends, List.map_singleton, (hown hv).2]
          simp [pairs, Param.pair, hp]
    | cons q ps =>
      cases hp : p.value with
      | none =>
        have hnone : ∀ r ∈ p :: q :: ps, r.value = none :=
          List.forall_mem_cons.mpr ⟨hp, (clean_cons_none_iff hp).mp h⟩
        refine ⟨[], ?_, (made_valueless hnone).symm, by simp⟩
        rw [result_valueless (List.cons_ne_nil p _) hnone, List.append_nil]
      | some v =>
        obtain ⟨hv, hclean⟩ := (clean_cons_some_iff hp).mp h
        obtain ⟨b, hrun, hown, -⟩ := @result_some p q ps v hp i ret
        obtain ⟨bs, hrest, hpairs, howns⟩ :=
          ih (List.cons_ne_nil q ps) hclean (i + 1) (ret ++ [b])
        refine ⟨b :: bs, ?_, ?_, List.forall_mem_cons.mpr ⟨(hown hv).1, howns⟩⟩
        · rw [hrun, hrest, List.append_assoc, List.singleton_append]
        · rw [List.map_cons, (hown hv).2, hpairs, made_cons_some hp]

lemma ret_prefix_result (i : ℕ) (pending : Option Piece) (ret : List Binding) (ps : List Param) :
    ret <+: result i pending ret ps :=
  ret_prefix_foldl (query ps) (atParam i pending ret)

/-- A run over other parameters binds something that does not belong together. -/
lemma result_unclean (hne : ps ≠ []) (h : ¬ Clean ps) (i : ℕ) (ret : List Binding) :
    ∃ b ∈ result i none ret ps, ¬ b.Own := by
  induction ps generalizing i ret with
  | nil => exact absurd rfl hne
  | cons p ps ih =>
    cases ps with
    | nil =>
      rw [clean_singleton_iff] at h
      obtain ⟨v, hv⟩ := not_forall.mp h
      obtain ⟨hp, hboth⟩ := Classical.not_imp.mp hv
      obtain ⟨hends, hmark⟩ := not_or.mp hboth
      obtain ⟨b, hrun, -, hforeign⟩ := (result_last hp i ret).2 hends
      exact ⟨b, by rw [hrun]; simp, hforeign (not_not.mp hmark)⟩
    | cons q ps =>
      cases hp : p.value with
      | none =>
        rw [clean_cons_none_iff hp] at h
        obtain ⟨r, hr⟩ := not_forall.mp h
        obtain ⟨hmem, hvalue⟩ := Classical.not_imp.mp hr
        rw [result_none hp]
        exact result_pending ⟨r, hmem, hvalue⟩ (Nat.lt_succ_self i) ret
      | some v =>
        rw [clean_cons_some_iff hp] at h
        obtain ⟨b, hrun, -, hforeign⟩ := @result_some p q ps v hp i ret
        rw [hrun]
        by_cases hv : eqMark ∈ v
        · have hprefix := ret_prefix_result (i + 1) none (ret ++ [b]) (q :: ps)
          exact ⟨b, hprefix.subset (by simp), hforeign hv⟩
        · exact ih (List.cons_ne_nil q ps) (fun hclean => h ⟨hv, hclean⟩) (i + 1) _

end Params

section Maps

/-- What a further pair does to a map. -/
lemma lookup_concat (pairs : List (Text × Text)) (n v name : Text) :
    lookup (pairs ++ [(n, v)]) name = if n = name then some v else lookup pairs name := by
  rw [lookup, List.reverse_append, List.reverse_singleton, List.singleton_append,
    List.find?_cons]
  by_cases h : n = name
  · simp [h]
  · simp [h, lookup]

lemma pairs_concat (ps : List Param) (p : Param) : pairs (ps ++ [p]) = pairs ps ++ pairs [p] := by
  simp [pairs]

lemma pairs_singleton {p : Param} {v : Text} (h : p.value = some v) :
    pairs [p] = [(strdecode p.name, strdecode v)] := by
  simp [pairs, Param.pair, h]

/-- The condition says that the pieces are paired rightly and that the map that is made has all
values. -/
lemma paired_iff (ps : List Param) :
    Paired ps ↔ Clean ps ∧ ∀ name, lookup (made ps) name = lookup (pairs ps) name := by
  rcases List.eq_nil_or_concat ps with rfl | ⟨front, p, rfl⟩
  · refine ⟨fun h => ⟨⟨h.valueless, h.whole, by simp⟩, fun _ => rfl⟩, fun h => ?_⟩
    exact ⟨h.1.valueless, h.1.whole, by simp⟩
  rw [List.concat_eq_append]
  cases hp : p.value with
  | none =>
    have hends : EndsEmpty (p.value.getD []) := by
      rw [hp]
      exact Or.inl rfl
    have hsame : made (front ++ [p]) = pairs (front ++ [p]) := by
      rw [made_concat, if_pos hends, pairs_concat,
        @pairs_valueless [p] (by simpa using hp)]
    have hlast {P : Param → Text → Prop} :
        ∀ q ∈ (front ++ [p]).getLast?, ∀ v, q.value = some v → P q v := by
      intro q hq v hv
      rw [List.getLast?_concat] at hq
      obtain rfl := Option.some.inj hq
      rw [hp] at hv
      cases hv
    refine ⟨fun h => ⟨⟨h.valueless, h.whole, hlast⟩, fun _ => by rw [hsame]⟩, fun h => ?_⟩
    exact ⟨h.1.valueless, h.1.whole, hlast⟩
  | some v =>
    have hmade := made_concat front p
    rw [hp, Option.getD_some] at hmade
    have hpairs := pairs_concat front p
    rw [pairs_singleton hp] at hpairs hmade
    have hat {P : Param → Text → Prop} (h : P p v) :
        ∀ q ∈ (front ++ [p]).getLast?, ∀ u, q.value = some u → P q u := by
      intro q hq u hu
      rw [List.getLast?_concat] at hq
      obtain rfl := Option.some.inj hq
      obtain rfl := Option.some.inj (hp.symm.trans hu)
      exact h
    have hmem : p ∈ (front ++ [p]).getLast? := by simp
    by_cases hends : EndsEmpty v
    · rw [if_pos hends, List.append_nil] at hmade
      constructor
      · intro h
        have hlast := h.last p hmem v hp
        rw [if_pos hends, List.dropLast_concat] at hlast
        refine ⟨⟨h.valueless, h.whole, hat (Or.inl hends)⟩, fun name => ?_⟩
        rw [hmade, hpairs, lookup_concat]
        split_ifs with hname
        · rw [← hname, hlast]
        · rfl
      · rintro ⟨hclean, hmap⟩
        refine ⟨hclean.valueless, hclean.whole, hat ?_⟩
        have hlast := hmap (strdecode p.name)
        rw [hmade, hpairs, lookup_concat, if_pos rfl] at hlast
        rw [if_pos hends, List.dropLast_concat]
        exact hlast
    · rw [if_neg hends] at hmade
      constructor
      · intro h
        have hlast := h.last p hmem v hp
        rw [if_neg hends] at hlast
        exact ⟨⟨h.valueless, h.whole, hat (Or.inr hlast)⟩, fun _ => by rw [hmade, hpairs]⟩
      · rintro ⟨hclean, -⟩
        refine ⟨hclean.valueless, hclean.whole, hat ?_⟩
        rw [if_neg hends]
        exact (hclean.last p hmem v hp).resolve_left hends

/-- The part of a URI in front of the first `?`. -/
abbrev Path := { path : Text // ∀ c ∈ path, c ≠ qMark ∧ c ≠ 0 }

lemma query_ne_nil {ps : List Param} (h : ps ≠ []) : query ps ≠ [] := by
  obtain ⟨p, ps, rfl⟩ := List.exists_cons_of_ne_nil h
  have hname : p.text ≠ [] := by simp [Param.text, p.nonempty]
  cases ps with
  | nil =>
    rw [query_singleton]
    exact hname
  | cons q ps =>
    rw [query_cons]
    simp

/-- The entries that the call sets. -/
lemma getRequestParams_eq (path : Path) {ps : List Param} (h : ps ≠ []) :
    (getRequestParams (path.val ++ qMark :: query ps)).getD [] = result 0 none [] ps := by
  have hpath : (path.val ++ qMark :: query ps).dropWhile (· ≠ qMark) = qMark :: query ps := by
    rw [List.dropWhile_append_of_pos (fun c hc => by simpa using (path.property c hc).1)]
    simp
  simp only [getRequestParams, hpath, if_neg (query_ne_nil h)]
  change (if result 0 none [] ps = [] then none else some (result 0 none [] ps)).getD [] = _
  split_ifs with hempty
  · exact hempty.symm
  · rfl

/-- The hash has the last value of every name and no value of another name, exactly when the
pieces of the query are paired rightly. -/
theorem bound_iff (path : Path) (ps : List Param) :
    Bound ps (getRequestParams (path.val ++ qMark :: query ps)) ↔ Paired ps := by
  rw [paired_iff]
  by_cases hne : ps = []
  · subst hne
    have hnone : (getRequestParams (path.val ++ qMark :: query [])).getD [] = [] := by
      have hpath : (path.val ++ qMark :: query []).dropWhile (· ≠ qMark) = [qMark] := by
        rw [List.dropWhile_append_of_pos (fun c hc => by simpa using (path.property c hc).1)]
        rfl
      simp only [getRequestParams, hpath]
      rfl
    refine ⟨fun _ => ⟨⟨.nil, by simp, by simp⟩, fun _ => rfl⟩, fun _ => ⟨?_, ?_⟩⟩
    · rw [hnone]
      exact fun _ => rfl
    · rw [hnone]
      simp
  · have hret := getRequestParams_eq path hne
    constructor
    · intro h
      have hclean : Clean ps := by
        by_contra hunclean
        obtain ⟨b, hb, hforeign⟩ := result_unclean hne hunclean 0 []
        exact hforeign (h.own b (hret ▸ hb))
      obtain ⟨bs, hrun, hpairs, -⟩ := result_clean hne hclean 0 []
      refine ⟨hclean, fun name => ?_⟩
      have hmap := h.map name
      rw [hret, hrun, List.nil_append, hpairs] at hmap
      exact hmap
    · rintro ⟨hclean, hmap⟩
      obtain ⟨bs, hrun, hpairs, howns⟩ := result_clean hne hclean 0 []
      rw [List.nil_append] at hrun
      refine ⟨fun name => ?_, ?_⟩
      · rw [hret, hrun, hpairs, hmap name]
      · rw [hret, hrun]
        exact howns

/-- The query `a&b=1`. -/
def valuelessFirst : List Param :=
  [⟨[97], none, by decide, by simp [eqMark, andMark, qMark], by simp⟩,
    ⟨[98], some [49], by decide, by simp [eqMark, andMark, qMark], by simp [andMark]⟩]

theorem valuelessFirst_not_bound :
    ¬ Bound valuelessFirst (getRequestParams (qMark :: query valuelessFirst)) := by
  intro h
  exact absurd (h.map [98]) (by decide)

end Maps

end Axis2C.HttpQuery
