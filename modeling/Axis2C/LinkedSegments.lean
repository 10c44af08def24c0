import Mathlib.Data.List.Nodup
import Mathlib.Logic.Function.Basic
import Mathlib.Tactic

/-!
# Segments of singly linked lists

A heap of linked cells is seen through its successor function alone. A segment
is the list of cells passed on the way from one link to another; a complete list
is a segment that arrives at the null link. Segments depend only on the
successors of the cells they pass, which is the frame rule used everywhere.
-/
namespace LinkedSegments

variable {ι : Type*} {succ succ' : ι → Option ι}

/-- Following `succ` from the link `a` passes exactly the cells listed and arrives at `b`. -/
def Seg (succ : ι → Option ι) : Option ι → List ι → Option ι → Prop
  | a, [], b => a = b
  | a, r :: rs, b => a = some r ∧ Seg succ (succ r) rs b

@[simp] theorem seg_nil {a b : Option ι} : Seg succ a [] b ↔ a = b := Iff.rfl

@[simp] theorem seg_cons {a b : Option ι} {r : ι} {rs : List ι} :
    Seg succ a (r :: rs) b ↔ a = some r ∧ Seg succ (succ r) rs b := Iff.rfl

theorem seg_append {a b : Option ι} {rs ss : List ι} :
    Seg succ a (rs ++ ss) b ↔ ∃ m, Seg succ a rs m ∧ Seg succ m ss b := by
  induction rs generalizing a with
  | nil => simp
  | cons r rs ih =>
    simp only [List.cons_append, seg_cons, ih]
    constructor
    · rintro ⟨ha, m, h1, h2⟩
      exact ⟨m, ⟨ha, h1⟩, h2⟩
    · rintro ⟨m, ⟨ha, h1⟩, h2⟩
      exact ⟨ha, m, h1, h2⟩

theorem Seg.congr {a b : Option ι} {rs : List ι} (h : Seg succ a rs b)
    (hs : ∀ r ∈ rs, succ' r = succ r) : Seg succ' a rs b := by
  induction rs generalizing a with
  | nil => exact h
  | cons r rs ih =>
    refine ⟨h.1, ?_⟩
    rw [hs r (by simp)]
    exact ih h.2 (fun s hs' => hs s (by simp [hs']))

theorem Seg.update [DecidableEq ι] {a b v : Option ι} {rs : List ι} {c : ι}
    (h : Seg succ a rs b) (hc : c ∉ rs) : Seg (Function.update succ c v) a rs b := by
  refine h.congr (fun r hr => ?_)
  have hne : r ≠ c := fun he => hc (he ▸ hr)
  simp [hne]

/-- Redirecting the last link of a segment. -/
theorem Seg.redirect [DecidableEq ι] {a b v : Option ι} {rs : List ι} {c : ι}
    (h : Seg succ a (rs ++ [c]) b) (hc : c ∉ rs) :
    Seg (Function.update succ c v) a (rs ++ [c]) v := by
  obtain ⟨m, h1, h2⟩ := seg_append.mp h
  exact seg_append.mpr ⟨m, h1.update hc, h2.1, by simp⟩

end LinkedSegments
