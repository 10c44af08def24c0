import Mathlib.Data.List.Nodup
import Mathlib.Tactic

/-!
# Doubly linked segments

A heap of cells with two links is seen through its functions `next` and `prev`.
A segment is the list of its cells, with the link in front of the first one and
the link behind the last one. Two segments are joined by one equation, and the
two outer links of a segment can be redirected without touching the inner ones.
-/
namespace DoublyLinked

variable {ι : Type*} {next prev next' prev' : ι → Option ι}

/-- The cells are linked in both directions, with `before` and `after` outside. -/
def Linked (next prev : ι → Option ι) : Option ι → List ι → Option ι → Prop
  | _, [], _ => True
  | before, c :: cs, after =>
    prev c = before ∧ next c = cs.head?.or after ∧ Linked next prev (some c) cs after

@[simp] theorem linked_nil {before after : Option ι} : Linked next prev before [] after := trivial

@[simp] theorem linked_cons {before after : Option ι} {c : ι} {cs : List ι} :
    Linked next prev before (c :: cs) after ↔
      prev c = before ∧ next c = cs.head?.or after ∧ Linked next prev (some c) cs after := Iff.rfl

theorem linked_append {before after : Option ι} {xs ys : List ι} :
    Linked next prev before (xs ++ ys) after ↔
      Linked next prev before xs (ys.head?.or after) ∧
        Linked next prev (xs.getLast?.or before) ys after := by
  induction xs generalizing before with
  | nil => simp
  | cons x xs ih =>
    have hhead : (xs ++ ys).head?.or after = xs.head?.or (ys.head?.or after) := by
      cases xs <;> simp
    have hlast : (x :: xs).getLast?.or before = xs.getLast?.or (some x) := by
      cases xs <;> simp [List.getLast?_cons]
    rw [List.cons_append, linked_cons, linked_cons, ih, hhead, hlast]
    tauto

theorem Linked.congr {before after : Option ι} {cs : List ι}
    (h : Linked next prev before cs after) (hnext : ∀ c ∈ cs, next' c = next c)
    (hprev : ∀ c ∈ cs, prev' c = prev c) : Linked next' prev' before cs after := by
  induction cs generalizing before with
  | nil => trivial
  | cons c cs ih =>
    obtain ⟨h1, h2, h3⟩ := h
    refine ⟨by rw [hprev c (by simp), h1], by rw [hnext c (by simp), h2], ?_⟩
    exact ih h3 (fun d hd => hnext d (by simp [hd])) (fun d hd => hprev d (by simp [hd]))

theorem Linked.redirect_after {before after after' : Option ι} {cs : List ι}
    (h : Linked next prev before cs after) (hprev : ∀ c ∈ cs, prev' c = prev c)
    (hnext : ∀ c ∈ cs, cs.getLast? ≠ some c → next' c = next c)
    (hlast : ∀ c, cs.getLast? = some c → next' c = after') (hnodup : cs.Nodup) :
    Linked next' prev' before cs after' := by
  induction cs generalizing before with
  | nil => trivial
  | cons c cs ih =>
    obtain ⟨h1, h2, h3⟩ := h
    obtain ⟨hc, hnodup⟩ := List.nodup_cons.mp hnodup
    refine ⟨by rw [hprev c (by simp), h1], ?_, ?_⟩
    · cases cs with
      | nil => simpa using hlast c (by simp)
      | cons d cs =>
        rw [hnext c (by simp), h2]
        · simp
        · intro hl
          rw [List.getLast?_cons_cons] at hl
          exact hc (List.mem_of_getLast? hl)
    · refine ih h3 (fun d hd => hprev d (by simp [hd])) ?_ ?_ hnodup
      · intro d hd hl
        refine hnext d (by simp [hd]) ?_
        cases cs with
        | nil => simp at hd
        | cons e cs => rwa [List.getLast?_cons_cons]
      · intro d hd
        refine hlast d ?_
        cases cs with
        | nil => simp at hd
        | cons e cs => rwa [List.getLast?_cons_cons]

theorem Linked.redirect_before {before before' after : Option ι} {cs : List ι}
    (h : Linked next prev before cs after) (hnext : ∀ c ∈ cs, next' c = next c)
    (hprev : ∀ c ∈ cs, cs.head? ≠ some c → prev' c = prev c)
    (hhead : ∀ c, cs.head? = some c → prev' c = before') (hnodup : cs.Nodup) :
    Linked next' prev' before' cs after := by
  cases cs with
  | nil => trivial
  | cons c cs =>
    obtain ⟨-, h2, h3⟩ := h
    obtain ⟨hc, -⟩ := List.nodup_cons.mp hnodup
    refine ⟨hhead c rfl, by rw [hnext c (by simp), h2], ?_⟩
    refine h3.congr (fun d hd => hnext d (by simp [hd])) fun d hd => ?_
    refine hprev d (by simp [hd]) ?_
    simp only [List.head?_cons, ne_eq, Option.some.injEq]
    rintro rfl
    exact hc hd

/-- The links of a cell inside a segment. -/
theorem Linked.at_split {before after : Option ι} {xs ys : List ι} {c : ι}
    (h : Linked next prev before (xs ++ c :: ys) after) :
    prev c = xs.getLast?.or before ∧ next c = ys.head?.or after := by
  obtain ⟨-, h1, h2, -⟩ := linked_append.mp h
  exact ⟨h1, h2⟩

theorem Linked.reverse {before after : Option ι} {cs : List ι}
    (h : Linked next prev before cs after) : Linked prev next after cs.reverse before := by
  induction cs generalizing before with
  | nil => trivial
  | cons c cs ih =>
    obtain ⟨h1, h2, h3⟩ := h
    rw [List.reverse_cons, linked_append, List.getLast?_reverse]
    exact ⟨ih h3, h2, by simpa using h1, trivial⟩

/-- A cell is taken out of a whole list: the links of its neighbours are redirected. -/
theorem Linked.remove {xs ys : List ι} {c : ι} [DecidableEq ι]
    (h : Linked next prev none (xs ++ c :: ys) none) (hnodup : (xs ++ ys).Nodup)
    (hnext : ∀ d ∈ xs ++ ys, next' d = if xs.getLast? = some d then ys.head? else next d)
    (hprev : ∀ d ∈ xs ++ ys, prev' d = if ys.head? = some d then xs.getLast? else prev d) :
    Linked next' prev' none (xs ++ ys) none := by
  obtain ⟨hx, hy, hdisj⟩ := List.nodup_append.mp hnodup
  obtain ⟨hl1, -, -, hl2⟩ := linked_append.mp h
  rw [linked_append, Option.or_none, Option.or_none]
  constructor
  · refine hl1.redirect_after (fun d hd => ?_) (fun d hd hl => ?_) (fun d hl => ?_) hx
    · rw [hprev d (by simp [hd]), if_neg]
      intro hh
      exact hdisj d hd d (List.mem_of_mem_head? hh) rfl
    · rw [hnext d (by simp [hd]), if_neg hl]
    · rw [hnext d (by simp [List.mem_of_getLast? hl]), if_pos hl]
  · refine hl2.redirect_before (fun d hd => ?_) (fun d hd hh => ?_) (fun d hh => ?_) hy
    · rw [hnext d (by simp [hd]), if_neg]
      intro hl
      exact hdisj d (List.mem_of_getLast? hl) d hd rfl
    · rw [hprev d (by simp [hd]), if_neg hh]
    · rw [hprev d (by simp [List.mem_of_mem_head? hh]), if_pos hh]

/-- A cell is put into a whole list. -/
theorem Linked.insert {xs ys : List ι} {c : ι} [DecidableEq ι]
    (h : Linked next prev none (xs ++ ys) none) (hnodup : (xs ++ ys).Nodup) (hc : c ∉ xs ++ ys)
    (hnext : ∀ d, next' d =
      if d = c then ys.head? else if xs.getLast? = some d then some c else next d)
    (hprev : ∀ d, prev' d =
      if d = c then xs.getLast? else if ys.head? = some d then some c else prev d) :
    Linked next' prev' none (xs ++ c :: ys) none := by
  have hne {d : ι} (hd : d ∈ xs ++ ys) : d ≠ c := fun he => hc (he ▸ hd)
  obtain ⟨hx, hy, hdisj⟩ := List.nodup_append.mp hnodup
  obtain ⟨hl1, hl2⟩ := linked_append.mp h
  rw [linked_append, linked_cons, Option.or_none, Option.or_none]
  refine ⟨?_, ?_, ?_, ?_⟩
  · refine hl1.redirect_after (fun d hd => ?_) (fun d hd hl => ?_) (fun d hl => ?_) hx
    · rw [hprev, if_neg (hne (by simp [hd])), if_neg]
      intro hh
      exact hdisj d hd d (List.mem_of_mem_head? hh) rfl
    · rw [hnext, if_neg (hne (by simp [hd])), if_neg hl]
    · rw [hnext, if_neg (hne (by simp [List.mem_of_getLast? hl])), if_pos hl]
      rfl
  · rw [hprev, if_pos rfl]
  · rw [hnext, if_pos rfl, Option.or_none]
  · refine hl2.redirect_before (fun d hd => ?_) (fun d hd hh => ?_) (fun d hh => ?_) hy
    · rw [hnext, if_neg (hne (by simp [hd])), if_neg]
      intro hl
      exact hdisj d (List.mem_of_getLast? hl) d hd rfl
    · rw [hprev, if_neg (hne (by simp [hd])), if_neg hh]
    · rw [hprev, if_neg (hne (by simp [List.mem_of_mem_head? hh])), if_pos hh]

/-- The cells that are reached along a link, as long as the fuel lasts. -/
def follow (link : ι → Option ι) : ℕ → Option ι → Option (List ι)
  | _, none => some []
  | 0, some _ => none
  | fuel + 1, some c => (follow link fuel (link c)).map (c :: ·)

/-- Following the links of a segment up to its end gives its cells. -/
theorem Linked.follow_next {before : Option ι} {cs : List ι}
    (h : Linked next prev before cs none) {fuel : ℕ} (hfuel : cs.length ≤ fuel) :
    follow next fuel cs.head? = some cs := by
  induction cs generalizing before fuel with
  | nil => cases fuel <;> rfl
  | cons c cs ih =>
    obtain ⟨-, h2, h3⟩ := h
    obtain ⟨fuel, rfl⟩ : ∃ k, fuel = k + 1 :=
      Nat.exists_eq_add_one_of_ne_zero (by simp at hfuel; omega)
    rw [Option.or_none] at h2
    rw [List.head?_cons, follow, h2, ih h3 (by simpa using hfuel)]
    rfl

theorem Linked.follow_prev {after : Option ι} {cs : List ι}
    (h : Linked next prev none cs after) {fuel : ℕ} (hfuel : cs.length ≤ fuel) :
    follow prev fuel cs.getLast? = some cs.reverse := by
  have hreverse : follow prev fuel cs.reverse.head? = some cs.reverse :=
    h.reverse.follow_next (by simpa using hfuel)
  rwa [List.head?_reverse] at hreverse

/-- The place after some steps along a link, none if the way ends before. -/
def walk (link : ι → Option ι) : ℕ → Option ι → Option (Option ι)
  | 0, e => some e
  | _ + 1, none => none
  | k + 1, some c => walk link k (link c)

theorem Linked.walk_next {before : Option ι} {cs : List ι}
    (h : Linked next prev before cs none) {k : ℕ} (hk : k ≤ cs.length) :
    walk next k cs.head? = some cs[k]? := by
  induction cs generalizing before k with
  | nil =>
    obtain rfl : k = 0 := by simpa using hk
    rfl
  | cons c cs ih =>
    obtain ⟨-, h2, h3⟩ := h
    rw [Option.or_none] at h2
    cases k with
    | zero => rfl
    | succ k =>
      rw [List.head?_cons, walk, h2, ih h3 (by simpa using hk), List.getElem?_cons_succ]

theorem Linked.walk_prev {after : Option ι} {cs : List ι}
    (h : Linked next prev none cs after) {k : ℕ} (hk : k ≤ cs.length) :
    walk prev k cs.getLast? = some cs.reverse[k]? := by
  rw [← List.head?_reverse]
  exact h.reverse.walk_next (by simpa using hk)

end DoublyLinked
