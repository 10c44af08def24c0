import Mathlib.Data.List.Infix
import Mathlib.Tactic

/-!
# First occurrences in a text

A position in a text is the suffix that starts there, as with a pointer into a
string. `search` gives the first position at which a needle is found.
-/
namespace FirstOccurrence

variable {α : Type*} [DecidableEq α]

/-- The first suffix of the text that begins with `needle`. -/
def search (needle : List α) : List α → Option (List α)
  | [] => if needle = [] then some [] else none
  | a :: s => if needle <+: a :: s then some (a :: s) else search needle s

/-- The text between two positions, the second behind the first. -/
def upTo (s t : List α) : List α := s.take (s.length - t.length)

omit [DecidableEq α] in
@[simp] lemma upTo_append (a t : List α) : upTo (a ++ t) t = a := by
  simp [upTo]

lemma search_at_front {needle s : List α} (h : needle <+: s) : search needle s = some s := by
  cases s with
  | nil => simp [search, List.prefix_nil.mp h]
  | cons a s => simp [search, h]

omit [DecidableEq α] in
/-- Behind `a` the text `a ++ t` begins with the needle, and nowhere before. -/
def FirstAt (needle a t : List α) : Prop :=
  needle <+: t ∧ ∀ b u, a ++ t = b ++ u → needle <+: u → a.length ≤ b.length

lemma search_eq_some {needle s t : List α} (h : search needle s = some t) :
    ∃ a, s = a ++ t ∧ FirstAt needle a t := by
  induction s with
  | nil =>
    unfold search at h
    split at h
    · next hn =>
        obtain rfl := Option.some.inj h
        exact ⟨[], rfl, by simp [hn], by simp⟩
    · cases h
  | cons x s ih =>
    unfold search at h
    split at h
    · next hp =>
        obtain rfl := Option.some.inj h
        exact ⟨[], rfl, hp, by simp⟩
    · next hp =>
        obtain ⟨a, rfl, ht, hfirst⟩ := ih h
        refine ⟨x :: a, rfl, ht, ?_⟩
        intro b u hbu hu
        cases b with
        | nil =>
          obtain rfl : x :: (a ++ t) = u := hbu
          exact absurd hu hp
        | cons y b =>
          simp only [List.cons_append, List.cons.injEq] at hbu
          simpa using hfirst b u hbu.2 hu

lemma search_eq_none_iff {needle s : List α} : search needle s = none ↔ ¬ needle <:+: s := by
  induction s with
  | nil => simp [search]
  | cons x s ih =>
    unfold search
    rw [List.infix_cons_iff]
    by_cases hp : needle <+: x :: s
    · simp [hp]
    · simp [hp, ih]

/-- An occurrence in front of which there is none is the one that is found. -/
lemma search_append {needle a t : List α} (h : FirstAt needle a t) :
    search needle (a ++ t) = some t := by
  cases hs : search needle (a ++ t) with
  | none =>
    rw [search_eq_none_iff] at hs
    exact absurd (h.1.isInfix.trans (List.suffix_append a t).isInfix) hs
  | some t' =>
    obtain ⟨a', heq, ht', hfirst'⟩ := search_eq_some hs
    have hlen : a.length = a'.length :=
      le_antisymm (h.2 a' t' heq ht') (hfirst' a t heq.symm h.1)
    rw [(List.append_inj heq hlen).2]

section Index

omit [DecidableEq α]

variable {needle s : List α} {i j : ℕ}

/-- The needle begins at this index, and at none before. -/
def FirstIndex (needle s : List α) (i : ℕ) : Prop :=
  needle <+: s.drop i ∧ ∀ j < i, ¬ needle <+: s.drop j

lemma infix_iff_drop : needle <:+: s ↔ ∃ i, needle <+: s.drop i := by
  constructor
  · rintro ⟨a, t, rfl⟩
    exact ⟨a.length, t, by simp⟩
  · rintro ⟨i, h⟩
    exact h.isInfix.trans (List.drop_suffix i s).isInfix

lemma infix_iff_firstIndex : needle <:+: s ↔ ∃ i, FirstIndex needle s i := by
  classical
  rw [infix_iff_drop]
  constructor
  · intro h
    exact ⟨Nat.find h, Nat.find_spec h, fun j hj => Nat.find_min h hj⟩
  · rintro ⟨i, hi⟩
    exact ⟨i, hi.1⟩

lemma room_of_prefix_drop (hne : needle ≠ []) (h : needle <+: s.drop i) :
    i + needle.length ≤ s.length := by
  have hlen := h.length_le
  have hpos := List.length_pos_iff.mpr hne
  rw [List.length_drop] at hlen
  omega

/-- What follows does not matter to an occurrence that ends in front of it. -/
lemma prefix_drop_append (t : List α) (h : i + needle.length ≤ s.length) :
    needle <+: (s ++ t).drop i ↔ needle <+: s.drop i := by
  rw [List.drop_append_of_le_length (by omega)]
  constructor
  · intro hp
    refine List.prefix_of_prefix_length_le hp (List.prefix_append _ t) ?_
    rw [List.length_drop]
    omega
  · exact fun hp => hp.trans (List.prefix_append _ t)

lemma FirstIndex.append (hne : needle ≠ []) (h : FirstIndex needle s i) (t : List α) :
    FirstIndex needle (s ++ t) i := by
  have hroom := room_of_prefix_drop hne h.1
  refine ⟨(prefix_drop_append t hroom).mpr h.1, fun j hj hp => h.2 j hj ?_⟩
  exact (prefix_drop_append t (by omega)).mp hp

/-- A text begins in two pieces when it begins in the first and goes on in the second. -/
lemma prefix_append_iff {a b : List α} (h : a.length ≤ s.length) :
    s <+: a ++ b ↔ s.take a.length = a ∧ s.drop a.length <+: b := by
  constructor
  · rintro ⟨t, ht⟩
    have hsplit : s.take a.length ++ (s.drop a.length ++ t) = a ++ b := by
      rw [← List.append_assoc, List.take_append_drop, ht]
    obtain ⟨hfront, hback⟩ := List.append_inj hsplit (by rw [List.length_take]; omega)
    exact ⟨hfront, t, hback⟩
  · rintro ⟨hfront, t, hback⟩
    refine ⟨t, ?_⟩
    calc s ++ t = s.take a.length ++ (s.drop a.length ++ t) := by
          rw [← List.append_assoc, List.take_append_drop]
      _ = a ++ b := by rw [hfront, hback]

end Index

section Char

variable {c : α}

lemma search_singleton {a : List α} (t : List α) (h : c ∉ a) :
    search [c] (a ++ c :: t) = some (c :: t) := by
  induction a with
  | nil => simp [search]
  | cons x a ih =>
    simp only [List.mem_cons, not_or] at h
    simp [search, h.1, ih h.2]

lemma search_singleton_none {s : List α} (h : c ∉ s) : search [c] s = none := by
  induction s with
  | nil => simp [search]
  | cons x s ih =>
    simp only [List.mem_cons, not_or] at h
    simp [search, h.1, ih h.2]

/-- A character that is found is the first of its kind. -/
lemma search_singleton_eq_some {s t : List α} (h : search [c] s = some t) :
    ∃ a r, s = a ++ c :: r ∧ t = c :: r ∧ c ∉ a := by
  induction s with
  | nil => simp [search] at h
  | cons x s ih =>
    by_cases hx : c = x
    · subst hx
      have ht : c :: s = t := by simpa [search] using h
      exact ⟨[], s, rfl, ht.symm, by simp⟩
    · have hs : search [c] s = some t := by simpa [search, hx] using h
      obtain ⟨a, r, rfl, rfl, ha⟩ := ih hs
      exact ⟨x :: a, r, rfl, rfl, by simp [hx, ha]⟩

lemma search_singleton_eq_none_iff {s : List α} : search [c] s = none ↔ c ∉ s := by
  rw [search_eq_none_iff, List.singleton_infix_iff]

/-- The last suffix of the text that begins with `c`. -/
def searchBack (c : α) : List α → Option (List α)
  | [] => none
  | a :: s =>
    match searchBack c s with
    | some t => some t
    | none => if a = c then some (a :: s) else none

lemma searchBack_none {s : List α} (h : c ∉ s) : searchBack c s = none := by
  induction s with
  | nil => rfl
  | cons x s ih =>
    simp only [List.mem_cons, not_or] at h
    simp [searchBack, ih h.2, Ne.symm h.1]

lemma searchBack_append {r : List α} (h : c ∉ r) (a : List α) :
    searchBack c (a ++ c :: r) = some (c :: r) := by
  induction a with
  | nil => simp [searchBack, searchBack_none h]
  | cons x a ih => simp [searchBack, ih]

/-- What is found from behind has none of its kind behind it. -/
lemma searchBack_cases (c : α) (s : List α) :
    (c ∉ s ∧ searchBack c s = none) ∨
      ∃ a r, s = a ++ c :: r ∧ c ∉ r ∧ searchBack c s = some (c :: r) := by
  induction s with
  | nil => exact Or.inl ⟨by simp, rfl⟩
  | cons x s ih =>
    rcases ih with ⟨hs, hnone⟩ | ⟨a, r, rfl, hr, hsome⟩
    · by_cases hx : x = c
      · subst hx
        exact Or.inr ⟨[], s, rfl, hs, by simp [searchBack, hnone]⟩
      · exact Or.inl ⟨by simp [Ne.symm hx, hs], by simp [searchBack, hnone, hx]⟩
    · exact Or.inr ⟨x :: a, r, rfl, hr, by simp [searchBack, hsome]⟩

end Char

section Scan

omit [DecidableEq α]

variable {p : α → Bool} {a b : List α}

/-- A scan stops where its predicate first fails. -/
lemma takeWhile_upto (ha : ∀ c ∈ a, p c = true) (hb : ∀ c ∈ b.head?, p c = false) :
    (a ++ b).takeWhile p = a := by
  rw [List.takeWhile_append_of_pos ha]
  cases b with
  | nil => simp
  | cons c b => rw [List.takeWhile_cons_of_neg (by simp [hb c rfl]), List.append_nil]

lemma dropWhile_upto (ha : ∀ c ∈ a, p c = true) (hb : ∀ c ∈ b.head?, p c = false) :
    (a ++ b).dropWhile p = b := by
  rw [List.dropWhile_append_of_pos ha]
  cases b with
  | nil => simp
  | cons c b => rw [List.dropWhile_cons_of_neg (by simp [hb c rfl])]

lemma head_dropWhile_false (s : List α) : ∀ c ∈ (s.dropWhile p).head?, p c = false := by
  intro c hc
  have hhead := List.head?_dropWhile_not p s
  rw [Option.mem_def.mp hc] at hhead
  simpa using hhead

end Scan

/-- A list is split in one way at the first element with a property. -/
lemma split_unique {β : Type*} {P : β → Bool} {l l' r r' : List β} {x x' : β}
    (hl : ∀ a ∈ l, P a = false) (hl' : ∀ a ∈ l', P a = false) (hx : P x = true) (hx' : P x' = true)
    (h : l ++ x :: r = l' ++ x' :: r') : l = l' ∧ x = x' ∧ r = r' := by
  induction l generalizing l' with
  | nil =>
    cases l' with
    | nil => exact ⟨rfl, List.cons.inj h⟩
    | cons a l' =>
      obtain ⟨rfl, -⟩ := List.cons.inj h
      rw [hl' x (List.mem_cons_self ..)] at hx
      cases hx
  | cons a l ih =>
    cases l' with
    | nil =>
      obtain ⟨rfl, -⟩ := List.cons.inj h
      rw [hl a (List.mem_cons_self ..)] at hx'
      cases hx'
    | cons b l' =>
      obtain ⟨rfl, hrest⟩ := List.cons.inj h
      obtain ⟨rfl, hx, hr⟩ := ih (fun a ha => hl a (List.mem_cons_of_mem _ ha))
        (fun a ha => hl' a (List.mem_cons_of_mem _ ha)) hrest
      exact ⟨rfl, hx, hr⟩

lemma split_at_first {c : α} {l l' r r' : List α} (hl : c ∉ l) (hl' : c ∉ l')
    (h : l ++ c :: r = l' ++ c :: r') : l = l' ∧ r = r' := by
  have hne : ∀ {l : List α}, c ∉ l → ∀ a ∈ l, decide (a = c) = false := by
    intro l hl a ha
    exact decide_eq_false fun hac => hl (hac ▸ ha)
  obtain ⟨hll, -, hrr⟩ := split_unique (hne hl) (hne hl') (by simp) (by simp) h
  exact ⟨hll, hrr⟩

end FirstOccurrence
