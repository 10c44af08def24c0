import Axis2C.FirstOccurrence

/-!
# Searching in raw memory

An allocation is the list of its cells, and a pointer into it an offset, which may have left it.
A function that reads a cell outside of the allocation has no result. Texts end at the cell `z`.
-/
namespace RawMemory

open FirstOccurrence

variable {α : Type*} [DecidableEq α]

omit [DecidableEq α] in
/-- The cell at an offset. -/
def readAt (m : List α) (i : ℤ) : Option α := if 0 ≤ i then m[i.toNat]? else none

/-- The first of `n` cells from `i` on that holds `c`. -/
def memchr (m : List α) (c : α) : ℕ → ℤ → Option (Option ℤ)
  | 0, _ => some none
  | n + 1, i => (readAt m i).bind fun a =>
    if a = c then some (some i) else memchr m c n (i + 1)

/-- Whether the cells from `i` on are these. -/
def memcmp (m : List α) (i : ℤ) (s : List α) : Option Bool :=
  if 0 ≤ i ∧ i.toNat + s.length ≤ m.length then some (decide (s <+: m.drop i.toNat)) else none

def strstrText (z : α) (needle : List α) : List α → Option (Option ℕ)
  | [] => none
  | a :: m =>
    if needle <+: a :: m then some (some 0)
    else if a = z then some none
    else (strstrText z needle m).map fun found => found.map (· + 1)

/-- The first offset from `i` on at which the needle begins in the text there. -/
def strstr (z : α) (needle : List α) (m : List α) (i : ℤ) : Option (Option ℤ) :=
  if 0 ≤ i then
    (strstrText z needle (m.drop i.toNat)).map (Option.map fun k : ℕ => i + (k : ℤ))
  else none

/-- The first cell `c` in front of the limit at which a check finds something. -/
def scanFor {β : Type*} (m : List α) (c : α) (limit : ℤ) (check : ℤ → Option (Option β)) :
    ℕ → ℤ → Option (Option β)
  | 0, _ => none
  | fuel + 1, i =>
    if limit - i < 0 then some none
    else (memchr m c (limit - i).toNat i).bind fun
      | none => some none
      | some pos => (check pos).bind fun
          | some b => some (some b)
          | none => scanFor m c limit check fuel (pos + 1)

section Memchr

variable {m : List α} {c : α}

omit [DecidableEq α] in
lemma readAt_natCast (m : List α) (i : ℕ) : readAt m i = m[i]? := by
  simp [readAt]

lemma memchr_before (m : List α) (c : α) {n : ℕ} {i : ℤ} (hn : 0 < n) (hi : i < 0) :
    memchr m c n i = none := by
  obtain ⟨n, rfl⟩ := Nat.exists_eq_succ_of_ne_zero hn.ne'
  rw [memchr, readAt, if_neg (by omega), Option.bind_none]

/-- Inside of the allocation the first cell is found, or there is none. -/
lemma memchr_cases (m : List α) (c : α) {n i : ℕ} (h : i + n ≤ m.length) :
    (memchr m c n i = some none ∧ ∀ p, i ≤ p → p < i + n → m[p]? ≠ some c) ∨
      ∃ p, i ≤ p ∧ p < i + n ∧ memchr m c n i = some (some (p : ℤ)) ∧ m[p]? = some c ∧
        ∀ q, i ≤ q → q < p → m[q]? ≠ some c := by
  induction n generalizing i with
  | zero => exact .inl ⟨rfl, fun p hip hp => by omega⟩
  | succ n ih =>
    have hi : i < m.length := by omega
    have hget : m[i]? = some m[i] := List.getElem?_eq_getElem hi
    have hcast : (i : ℤ) + 1 = ((i + 1 : ℕ) : ℤ) := by push_cast; rfl
    rw [memchr, readAt_natCast, hget, Option.bind_some]
    by_cases hc : m[i] = c
    · refine .inr ⟨i, le_rfl, by omega, if_pos hc, by rw [hget, hc], fun q hiq hq => ?_⟩
      omega
    · have hfirst : ∀ q, i ≤ q → q < i + 1 → m[q]? ≠ some c := by
        intro q hiq hq
        obtain rfl : q = i := by omega
        rw [hget]
        exact fun h => hc (Option.some.inj h)
      rw [if_neg hc, hcast]
      obtain ⟨hnone, hall⟩ | ⟨p, hip, hp, hsome, hpc, hall⟩ := ih (i := i + 1) (by omega)
      · refine .inl ⟨hnone, fun q hiq hq => ?_⟩
        rcases Nat.lt_or_ge q (i + 1) with hqi | hqi
        · exact hfirst q hiq hqi
        · exact hall q hqi (by omega)
      · refine .inr ⟨p, by omega, by omega, hsome, hpc, fun q hiq hq => ?_⟩
        rcases Nat.lt_or_ge q (i + 1) with hqi | hqi
        · exact hfirst q hiq hqi
        · exact hall q hqi hq

end Memchr

section Memcmp

variable {m s : List α} {i : ℕ}

lemma memcmp_inside (h : i + s.length ≤ m.length) :
    memcmp m i s = some (decide (s <+: m.drop i)) := by
  simp [memcmp, h]

end Memcmp

section Strstr

variable {z : α} {needle : List α}

/-- Nothing is found in a text exactly when it ends and the needle is not in it. -/
lemma strstrText_none_iff (hne : needle ≠ []) (hz : z ∉ needle) (m : List α) :
    strstrText z needle m = some none ↔ z ∈ m ∧ ¬ needle <:+: m.takeWhile (· ≠ z) := by
  induction m with
  | nil => simp [strstrText]
  | cons a m ih =>
    rw [strstrText]
    by_cases hprefix : needle <+: a :: m
    · -- the needle ends in front of the end of the text
      obtain ⟨t, ht⟩ := hprefix
      have hinfix : needle <:+: (a :: m).takeWhile (· ≠ z) := by
        rw [← ht, List.takeWhile_append_of_pos fun b hb => by
          simpa using fun h : b = z => hz (h ▸ hb)]
        exact (List.prefix_append _ _).isInfix
      rw [if_pos ⟨t, ht⟩]
      exact ⟨nofun, fun h => absurd hinfix h.2⟩
    · rw [if_neg hprefix]
      by_cases ha : a = z
      · subst ha
        simp [hne]
      · have htake : (a :: m).takeWhile (· ≠ z) = a :: m.takeWhile (· ≠ z) :=
          List.takeWhile_cons_of_pos (by simpa using ha)
        have hshort : ¬ needle <+: a :: m.takeWhile (· ≠ z) := by
          intro h
          refine hprefix (h.trans ?_)
          rw [← htake]
          exact List.takeWhile_prefix _
        have hmap : (strstrText z needle m).map (Option.map (· + 1)) = some none ↔
            strstrText z needle m = some none := by
          rcases strstrText z needle m with _ | _ | k <;> simp
        rw [if_neg ha, hmap, ih, htake, List.infix_cons_iff, List.mem_cons]
        constructor
        · rintro ⟨hmem, hno⟩
          exact ⟨.inr hmem, not_or.mpr ⟨hshort, hno⟩⟩
        · rintro ⟨hmem, hno⟩
          exact ⟨hmem.resolve_left (Ne.symm ha), (not_or.mp hno).2⟩

/-- A first occurrence is found, unless the text ends in front of it. -/
lemma strstrText_first {a t : List α} (hne : needle ≠ []) (hfirst : FirstAt needle a t) :
    strstrText z needle (a ++ t) = if z ∈ a then some none else some (some a.length) := by
  induction a with
  | nil =>
    have hprefix : needle <+: t := hfirst.1
    cases t with
    | nil => exact absurd (List.prefix_nil.mp hprefix) hne
    | cons b t => simp [strstrText, hprefix]
  | cons b a ih =>
    have hlater : ¬ needle <+: b :: (a ++ t) := by
      intro h
      simpa using hfirst.2 [] (b :: (a ++ t)) rfl h
    have htail : FirstAt needle a t := by
      refine ⟨hfirst.1, fun x u hxu hu => ?_⟩
      simpa using hfirst.2 (b :: x) u (by rw [List.cons_append, hxu, List.cons_append]) hu
    rw [List.cons_append, strstrText, if_neg hlater, ih htail]
    by_cases hb : b = z
    · rw [if_pos hb, if_pos (List.mem_cons.mpr (.inl hb.symm))]
    · rw [if_neg hb]
      by_cases ha : z ∈ a
      · simp [ha]
      · simp [ha, Ne.symm hb]

lemma strstr_none_iff (hne : needle ≠ []) (hz : z ∉ needle) (m : List α) (i : ℕ) :
    strstr z needle m i = some none ↔
      z ∈ m.drop i ∧ ¬ needle <:+: (m.drop i).takeWhile (· ≠ z) := by
  rw [← strstrText_none_iff hne hz, strstr, if_pos (Int.natCast_nonneg i), Int.toNat_natCast]
  rcases strstrText z needle (m.drop i) with _ | _ | k <;> simp

/-- From in front of a first occurrence on it is found, or nothing. -/
lemma strstr_first {m : List α} {i q : ℕ} (hne : needle ≠ []) (hq : FirstIndex needle m q)
    (hi : i ≤ q) :
    strstr z needle m i =
      if z ∈ (m.drop i).take (q - i) then some none else some (some (q : ℤ)) := by
  have hroom := room_of_prefix_drop hne hq.1
  have hm : m.drop i = (m.drop i).take (q - i) ++ m.drop q := by
    conv_lhs => rw [← List.take_append_drop (q - i) (m.drop i)]
    rw [List.drop_drop, Nat.add_sub_cancel' hi]
  have hlen : ((m.drop i).take (q - i)).length = q - i := by
    rw [List.length_take, List.length_drop]
    omega
  have hfirst : FirstAt needle ((m.drop i).take (q - i)) (m.drop q) := by
    refine ⟨hq.1, fun x u hxu hu => ?_⟩
    by_contra hlt
    refine hq.2 (i + x.length) (by omega) ?_
    rw [← List.drop_drop, hm, hxu, List.drop_left]
    exact hu
  have htext := strstrText_first (z := z) hne hfirst
  rw [← hm, hlen] at htext
  rw [strstr, if_pos (Int.natCast_nonneg i), Int.toNat_natCast, htext]
  split
  · rfl
  · rw [Option.map_some, Option.map_some, ← Nat.cast_add, Nat.add_sub_cancel' hi]

end Strstr

section Scan

variable {β : Type*}

/-- The scan ends with what the check says at the first cell where it does not pass on. -/
lemma scanFor_cases (m : List α) (c : α) (check : ℤ → Option (Option β)) (limit fuel i : ℕ)
    (hm : limit ≤ m.length) (hi : i ≤ limit) (hfuel : limit - i < fuel) :
    (scanFor m c limit check fuel i = some none ∧
        ∀ p : ℕ, i ≤ p → p < limit → m[p]? = some c → check p = some none) ∨
      ∃ p : ℕ, i ≤ p ∧ p < limit ∧ m[p]? = some c ∧ check p ≠ some none ∧
        scanFor m c limit check fuel i = check p ∧
          ∀ q : ℕ, i ≤ q → q < p → m[q]? = some c → check q = some none := by
  induction fuel generalizing i with
  | zero => exact absurd hfuel (Nat.not_lt_zero _)
  | succ fuel ih =>
    have hlen : ((limit : ℤ) - i).toNat = limit - i := by omega
    rw [scanFor, if_neg (by omega), hlen]
    obtain ⟨hnone, hall⟩ | ⟨p, hip, hp, hsome, hpc, hall⟩ :=
      memchr_cases m c (n := limit - i) (i := i) (by omega)
    · rw [hnone]
      exact .inl ⟨rfl, fun p hip hp hpc => absurd hpc (hall p hip (by omega))⟩
    · rw [hsome, Option.bind_some]
      by_cases hcheck : check p = some none
      · -- nothing at the candidate, the scan goes on behind it
        have hcast : (p : ℤ) + 1 = ((p + 1 : ℕ) : ℤ) := by push_cast; rfl
        have hpassed : ∀ q : ℕ, i ≤ q → q < p + 1 → m[q]? = some c → check q = some none := by
          intro q hiq hqp hqc
          rcases Nat.lt_or_ge q p with hlt | hge
          · exact absurd hqc (hall q hiq hlt)
          · obtain rfl : q = p := by omega
            exact hcheck
        simp only [hcheck, Option.bind_some, hcast]
        obtain ⟨hrest, hnext⟩ | ⟨r, hpr, hr, hrc, hfound, hrest, hnext⟩ :=
          ih (p + 1) (by omega) (by omega)
        · refine .inl ⟨hrest, fun q hiq hq hqc => ?_⟩
          rcases Nat.lt_or_ge q (p + 1) with hlt | hge
          · exact hpassed q hiq hlt hqc
          · exact hnext q hge hq hqc
        · refine .inr ⟨r, by omega, hr, hrc, hfound, hrest, fun q hiq hq hqc => ?_⟩
          rcases Nat.lt_or_ge q (p + 1) with hlt | hge
          · exact hpassed q hiq hlt hqc
          · exact hnext q hge hq hqc
      · refine .inr ⟨p, hip, by omega, hpc, hcheck, ?_, fun q hiq hq hqc => ?_⟩
        · rcases hp' : check p with _ | _ | b
          · simp [hp']
          · exact absurd hp' hcheck
          · simp [hp']
        · exact absurd hqc (hall q hiq hq)

end Scan

end RawMemory
