import Axis2C.HttpQueryParams

/-!
# Parameters sent by GET

`axis2_http_sender_get_param_string` writes the child elements of the payload behind the path,
and `axis2_http_transport_utils_get_request_params` reads them on the server.
-/
namespace Axis2C.HttpQuery
open UrlEncode
open HttpChunked (formatHex_eq hexDigit)

/-- A child element: its local name and its text. -/
abbrev Child := Text × Option Text

section Model

/-- The loop over the child elements. One without a text is passed over. -/
def paramList : List Child → Except Fault (List Text)
  | [] => .ok []
  | (_, none) :: children => paramList children
  | (name, some value) :: children => do
    let encoded ← urlEncode [] value value.length
    let pairs ← paramList children
    return (name ++ eqMark :: encoded.text) :: pairs

/-- `axis2_http_sender_get_param_string`. -/
def getParamString (children : List Child) : Except Fault (Option Text) := do
  match ← paramList children with
  | [] => return none
  | first :: pairs => return some (pairs.foldl (fun s pair => s ++ andMark :: pair) first)

/-- The path of the request line. -/
def requestPath (path : Text) (requestParams : Option Text) : Text :=
  path ++ (requestParams.map (qMark :: ·)).getD []

end Model

/-- The parameters that are sent. -/
def sent (children : List Child) : List (Text × Text) :=
  children.filterMap fun c => c.2.map (c.1, ·)

/-- A name without a delimiter and without an escape, and a text that is not empty, of ASCII
characters with two digits. A single one needs no escape. -/
structure Sendable (c : Child) : Prop where
  nonempty : c.1 ≠ []
  name : ∀ b ∈ c.1, b ∉ [eqMark, andMark, 35, qMark, 37, 0]
  text : ∀ v ∈ c.2, v ≠ []
  range : ∀ v ∈ c.2, ∀ b ∈ v, 16 ≤ b ∧ b < 128
  single : ∀ v ∈ c.2, v.length = 1 → ∀ b ∈ v, IsPlain b
  length : ∀ v ∈ c.2, v.length < 2 ^ 29

section Encoded

lemma mem_charText {c d : UInt8} (h : d ∈ charText c) : d = 37 ∨ IsPlain d := by
  by_cases hplain : IsPlain c
  · rw [charText_plain hplain, List.mem_singleton] at h
    exact .inr (h ▸ hplain)
  · obtain ⟨ds, -, hds, hfmt, -⟩ := formatHex_eq (signExtended c)
    have hdigit : ∀ n < 16, IsPlain (hexDigit n) := by
      unfold IsPlain
      decide
    rw [charText_not_plain hplain, hfmt] at h
    refine (List.mem_cons.mp h).imp_right fun hmem => ?_
    obtain ⟨n, hn, rfl⟩ := List.mem_map.mp hmem
    exact hdigit n (hds n hn)

lemma encodeChar_text {dest dest' : Dest} {c : UInt8} (h : encodeChar dest c = .ok dest') :
    dest'.text = dest.text ++ charText c := by
  have hgrown {grown : Dest} (hgrow : expandBuffer dest = .ok grown) : grown.text = dest.text := by
    unfold expandBuffer at hgrow
    split_ifs at hgrow <;> cases hgrow <;> rfl
  unfold encodeChar at h
  split_ifs at h
  cases hgrow : expandBuffer dest with
  | error f =>
    rw [hgrow] at h
    cases h
  | ok grown =>
    rw [hgrow] at h
    change strcat grown (charText c) = .ok dest' at h
    unfold strcat at h
    split_ifs at h
    obtain rfl := Except.ok.inj h
    rw [hgrown hgrow]

lemma mem_encodeLoop {buff : List UInt8} {i : ℕ} {dest dest' : Dest} {d : UInt8}
    (h : encodeLoop buff i dest = .ok dest') (hd : d ∈ dest'.text) :
    d ∈ dest.text ∨ d = 37 ∨ IsPlain d := by
  induction buff generalizing i dest with
  | nil =>
    obtain rfl := Except.ok.inj h
    exact .inl hd
  | cons c buff ih =>
    unfold encodeLoop at h
    split_ifs at h
    · cases hchar : encodeChar dest c with
      | error f =>
        rw [hchar] at h
        cases h
      | ok next =>
        rw [hchar] at h
        rcases ih h with hnext | hplain
        · rw [encodeChar_text hchar] at hnext
          exact (List.mem_append.mp hnext).imp_right mem_charText
        · exact .inr hplain
    · obtain rfl := Except.ok.inj h
      exact .inl hd

lemma length_encoded_le {s : Text} (h : ∀ b ∈ s, b < 128) :
    (encoded s).length ≤ 3 * s.length := by
  induction s with
  | nil => simp [encoded]
  | cons b s ih =>
    have hb := length_charText_le (h b (by simp))
    have hs := ih fun c hc => h c (List.mem_cons_of_mem _ hc)
    simp only [encoded, List.flatMap_cons, List.length_append, List.length_cons] at hs ⊢
    omega

/-- Four times the length is room enough. -/
lemma roundTrips_of_range {s : Text} (hrange : ∀ b ∈ s, 16 ≤ b ∧ b < 128) (hnul : 0 ∉ s)
    (hsingle : s.length = 1 → ∀ b ∈ s, IsPlain b) (hlen : s.length < 2 ^ 29) :
    RoundTrips s := by
  match s with
  | [] => exact ⟨⟨[], 0⟩, rfl, by simp [urlDecode]⟩
  | [b] =>
    have hplain : IsPlain b := hsingle rfl b (by simp)
    have hb : b ≠ 0 := fun h => hnul (by simp [h])
    refine ⟨⟨[b], 2⟩, (urlEncode_single b hb _).mpr ⟨hplain, rfl⟩, ?_⟩
    rw [urlDecode_cons (plain_range hplain).2.2, urlDecode]
  | b :: c :: s =>
    have hroom : Room ⟨[], (b :: c :: s).length⟩ :=
      { text := by simp
        len := Or.inr ⟨rfl, by simp⟩ }
    have hinit : (encoded (b :: c :: s).dropLast).length ≤ 3 * (s.length + 1) := by
      simpa using length_encoded_le (s := (b :: c :: s).dropLast) fun e he =>
        (hrange e (List.dropLast_subset _ he)).2
    simp only [List.length_cons] at hlen
    obtain ⟨dest, hencode⟩ := encodeLoop_ok (i := 0) (k := 2) hnul (by simp) hroom
      (fun e he => (hrange e he).2)
      (fun _ => by
        simp only [List.nil_append, List.length_cons]
        omega)
      (by
        simp only [List.length_cons]
        omega)
    have htext : dest.text = encoded (b :: c :: s) :=
      (written_of_encodeLoop hnul (by simp) hroom (by simp only [List.length_cons]; omega)
        hencode).text
    exact ⟨dest, hencode, htext ▸ urlDecode_encoded hrange⟩

end Encoded

section Round

lemma strdecode_plain {t : Text} (h : ∀ b ∈ t, b ≠ 37 ∧ b ≠ 0) : strdecode t = t := by
  have hdecode : urlDecode t = t := by
    induction t with
    | nil => rfl
    | cons b t ih =>
      rw [urlDecode_cons (h b (by simp)).1, ih fun c hc => h c (List.mem_cons_of_mem _ hc)]
  rw [strdecode, hdecode]
  exact List.takeWhile_eq_self_iff.mpr fun b hb => by simpa using (h b hb).2

/-- What is sent is the text of parameters with values. -/
lemma paramList_eq {children : List Child} (h : ∀ c ∈ children, Sendable c) :
    ∃ ps : List Param, paramList children = .ok (ps.map Param.text) ∧ pairs ps = sent children ∧
      ∀ p ∈ ps, ∃ v, p.value = some v ∧ v ≠ [] ∧ eqMark ∉ v := by
  induction children with
  | nil => exact ⟨[], rfl, rfl, by simp⟩
  | cons c children ih =>
    obtain ⟨hc, hrest⟩ := List.forall_mem_cons.mp h
    obtain ⟨ps, hlist, hpairs, hvalues⟩ := ih hrest
    obtain ⟨name, value⟩ := c
    cases value with
    | none => exact ⟨ps, hlist, hpairs, hvalues⟩
    | some v =>
      have hne : v ≠ [] := hc.text v rfl
      have hnul : 0 ∉ v := fun h0 => absurd (hc.range v rfl 0 h0).1 (by decide)
      obtain ⟨dest, hencode, hdecode⟩ :=
        roundTrips_of_range (hc.range v rfl) hnul (hc.single v rfl) (hc.length v rfl)
      have hplain (d : UInt8) (hd : d ∈ dest.text) :
          d ≠ eqMark ∧ d ≠ andMark ∧ d ≠ 35 ∧ d ≠ 0 := by
        rcases mem_encodeLoop hencode hd with hnil | rfl | hd
        · cases hnil
        · decide
        · refine ⟨?_, ?_, ?_, ?_⟩
          all_goals
            rintro rfl
            revert hd
            unfold IsPlain
            decide
      have hname (d : UInt8) (hd : d ∈ name) := by simpa using hc.name d hd
      let p : Param := ⟨name, some dest.text, hc.nonempty, fun d hd => by
        have := hname d hd
        tauto, fun u hu d hd => by
        obtain rfl := Option.some.inj hu
        exact (hplain d hd).2⟩
      have hpair : p.pair = some (name, v) := by
        have hv : v.takeWhile (· ≠ 0) = v := List.takeWhile_eq_self_iff.mpr fun b hb => by
          simpa using fun hzero : b = 0 => hnul (hzero ▸ hb)
        have hplus : strdecode name = name := strdecode_plain fun d hd =>
          ⟨(hname d hd).2.2.2.2.1, (hname d hd).2.2.2.2.2⟩
        simp only [Param.pair, p, Option.map_some, hplus]
        rw [strdecode, hdecode, hv]
      refine ⟨p :: ps, ?_, ?_, ?_⟩
      · simp only [paramList, hencode, hlist]
        rfl
      · rw [pairs, List.filterMap_cons_some hpair, ← pairs, hpairs]
        rfl
      · refine List.forall_mem_cons.mpr
          ⟨⟨dest.text, rfl, ?_, fun hd => (hplain _ hd).1 rfl⟩, hvalues⟩
        intro hnil
        rw [hnil] at hdecode
        exact hne hdecode.symm

lemma foldl_and (a : Text) (ps : List Param) :
    (ps.map Param.text).foldl (fun s pair => s ++ andMark :: pair) a =
      a ++ ps.flatMap fun p => andMark :: p.text := by
  induction ps generalizing a with
  | nil => simp
  | cons p ps ih => simp [ih]

lemma query_eq (p : Param) (ps : List Param) :
    query (p :: ps) = p.text ++ ps.flatMap fun p => andMark :: p.text := by
  induction ps generalizing p with
  | nil => simp [query_singleton]
  | cons q ps ih => rw [query_cons, ih, List.flatMap_cons, List.cons_append]

lemma paired_of_values {ps : List Param}
    (h : ∀ p ∈ ps, ∃ v, p.value = some v ∧ v ≠ [] ∧ eqMark ∉ v) : Paired ps := by
  have hvalue (p : Param) (hp : p ∈ ps) (v : Text) (hv : p.value = some v) :
      v ≠ [] ∧ eqMark ∉ v := by
    obtain ⟨u, hu, hclean⟩ := h p hp
    rw [hv] at hu
    exact Option.some.inj hu ▸ hclean
  refine ⟨List.pairwise_of_forall_mem_list fun p hp q _ hnone => ?_, ?_, ?_⟩
  · obtain ⟨v, hv, -⟩ := h p hp
    rw [hv] at hnone
    cases hnone
  · exact fun p hp v hv => (hvalue p (List.dropLast_subset _ hp) v hv).2
  · intro p hp v hv
    obtain ⟨hne, hmark⟩ := hvalue p (List.mem_of_getLast? hp) v hv
    have hends : ¬ EndsEmpty v := fun hends =>
      hends.elim hne fun hlast => hmark (List.mem_of_getLast? hlast)
    rwa [if_neg hends]

/-- The server gets every parameter that a client sends by GET: the map has the last text of
each name and nothing else. -/
theorem get_params_reach_server (path : Path) (children : List Child)
    (h : ∀ c ∈ children, Sendable c) :
    ∃ params, getParamString children = .ok params ∧ ∀ name,
      lookup (((getRequestParams (requestPath path.val params)).getD []).map Binding.pair) name =
        lookup (sent children) name := by
  obtain ⟨ps, hlist, hpairs, hvalues⟩ := paramList_eq h
  cases ps with
  | nil =>
    refine ⟨none, by simp only [getParamString, hlist]; rfl, fun name => ?_⟩
    have hpath : path.val.dropWhile (· ≠ qMark) = [] :=
      List.dropWhile_eq_nil_iff.mpr fun b hb => by simpa using (path.property b hb).1
    simp only [requestPath, Option.map_none, Option.getD_none, List.append_nil, getRequestParams,
      hpath]
    rw [← hpairs]
    rfl
  | cons p ps =>
    refine ⟨some (query (p :: ps)), ?_, fun name => ?_⟩
    · simp only [getParamString, hlist]
      rw [query_eq, ← foldl_and]
      rfl
    · obtain ⟨hclean, hmade⟩ := (paired_iff _).mp (paired_of_values hvalues)
      obtain ⟨bs, hrun, hbs, -⟩ := result_clean (by simp) hclean 0 []
      rw [requestPath, Option.map_some, Option.getD_some,
        getRequestParams_eq path (by simp), hrun, List.nil_append, hbs, hmade, hpairs]

theorem get_params_reach_server_two :
    ∃ params, getParamString [([97], some [49, 38]), ([98], none)] = .ok params ∧ ∀ name,
      lookup (((getRequestParams (requestPath [47] params)).getD []).map Binding.pair) name =
        lookup (sent [([97], some [49, 38]), ([98], none)]) name := by
  refine get_params_reach_server ⟨[47], by simp [qMark]⟩ [([97], some [49, 38]), ([98], none)] ?_
  simp only [List.forall_mem_cons, List.not_mem_nil, false_imp_iff, implies_true, and_true]
  exact ⟨⟨by simp, by simp [eqMark, andMark, qMark], by simp, by simp, by simp, by simp⟩,
    ⟨by simp, by simp [eqMark, andMark, qMark], by simp, by simp, by simp, by simp⟩⟩

end Round

end Axis2C.HttpQuery
