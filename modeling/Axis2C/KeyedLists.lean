import Mathlib.Data.List.Nodup

/-!
# Lists whose entries have keys

What a removal or a replacement does that stops at its first match: it does the whole
work exactly when at most one entry matches, and in a list without two entries of one
key this is always so.
-/
namespace KeyedLists

variable {α κ : Type*}

section FirstMatch

variable {p : α → Bool} {l : List α}

lemma filter_not_eraseP (p : α → Bool) (l : List α) :
    (l.eraseP p).filter (fun a => !p a) = l.filter (fun a => !p a) := by
  induction l with
  | nil => rfl
  | cons a l ih =>
    by_cases h : p a = true
    · simp [List.eraseP_cons_of_pos h, h]
    · simp [List.eraseP_cons_of_neg h, h, ih]

/-- The removal of the first match leaves no other exactly when there was none. -/
lemma forall_mem_eraseP_iff : (∀ a ∈ l.eraseP p, p a = false) ↔ l.countP p ≤ 1 := by
  induction l with
  | nil => simp
  | cons a l ih =>
    by_cases h : p a = true
    · rw [List.eraseP_cons_of_pos h, List.countP_cons_of_pos h]
      have hnone : (∀ b ∈ l, p b = false) ↔ l.countP p = 0 := by
        simp [List.countP_eq_zero]
      rw [hnone]
      omega
    · rw [List.eraseP_cons_of_neg h, List.countP_cons_of_neg h, ← ih]
      simp [Bool.eq_false_iff.mpr h]

lemma filter_eraseP_eq_nil (h : l.countP p ≤ 1) : (l.eraseP p).filter p = [] := by
  rw [List.filter_eq_nil_iff]
  intro a ha
  simp [forall_mem_eraseP_iff.mpr h a ha]

end FirstMatch

section Keys

variable (key : α → κ)

/-- No two entries have one key. -/
def Distinct (l : List α) : Prop := (l.map key).Nodup

variable {key} {l : List α}

lemma Distinct.eraseP (h : Distinct key l) (p : α → Bool) : Distinct key (l.eraseP p) :=
  List.Nodup.sublist (List.eraseP_sublist.map key) h

variable [DecidableEq κ]

lemma Distinct.countP_le (h : Distinct key l) (k : κ) :
    l.countP (fun a => decide (k = key a)) ≤ 1 := by
  have hcount := List.nodup_iff_count_le_one.mp h k
  rw [List.count, List.countP_map] at hcount
  have hsame : l.countP (fun a => decide (k = key a)) = l.countP ((· == k) ∘ key) := by
    apply List.countP_congr
    intro a _
    simp only [decide_eq_true_eq, Function.comp_apply, beq_iff_eq]
    exact eq_comm
  rw [hsame]
  exact hcount

/-- An entry that replaces the first one with its key keeps the keys distinct. -/
lemma Distinct.replace (h : Distinct key l) (a : α) :
    Distinct key (l.eraseP (fun b => decide (key a = key b)) ++ [a]) := by
  rw [Distinct, List.map_append, List.map_singleton, List.nodup_append]
  refine ⟨h.eraseP _, List.nodup_singleton _, ?_⟩
  intro k hk k' hk' heq
  obtain ⟨b, hb, rfl⟩ := List.mem_map.mp hk
  rw [List.mem_singleton] at hk'
  have hfree := forall_mem_eraseP_iff.mpr (h.countP_le (key a)) b hb
  rw [decide_eq_false_iff_not] at hfree
  exact hfree (hk'.symm.trans heq.symm)

end Keys

end KeyedLists
