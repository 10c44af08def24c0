import Mathlib.Data.List.Range
import Mathlib.Tactic

/-!
# Blocks of memory

A block is the function of its cells. A slice of it is the list of some cells in a row, and
a copy into the block replaces such a slice.
-/
namespace MemoryBlocks

variable {α : Type*} {m m' : ℕ → α}

/-- The `n` cells from `start` on. -/
def slice (m : ℕ → α) (start n : ℕ) : List α := (List.range n).map fun i => m (start + i)

@[simp] lemma length_slice (start n : ℕ) : (slice m start n).length = n := by simp [slice]

lemma slice_add (start n k : ℕ) :
    slice m start (n + k) = slice m start n ++ slice m (start + n) k := by
  simp [slice, List.range_add, Function.comp_def, add_assoc]

lemma slice_congr {start start' n : ℕ} (h : ∀ i < n, m (start + i) = m' (start' + i)) :
    slice m start n = slice m' start' n :=
  List.map_congr_left fun i hi => h i (List.mem_range.mp hi)

/-- The block after `data` is copied to the cells from `start` on. -/
def copyTo (m : ℕ → α) (start : ℕ) (data : List α) : ℕ → α :=
  fun i => if start ≤ i then (data[i - start]?).getD (m i) else m i

lemma copyTo_before (start : ℕ) (data : List α) {i : ℕ} (h : i < start) :
    copyTo m start data i = m i := if_neg (by omega)

/-- What was copied is read again. -/
lemma slice_copyTo (start : ℕ) (data : List α) :
    slice (copyTo m start data) start data.length = data := by
  refine List.ext_getElem (by simp) fun i hi hi' => ?_
  simp [slice, copyTo, hi']

/-- The cells in front of a copy stay. -/
lemma slice_copyTo_before (data : List α) {start from' n : ℕ} (h : from' + n ≤ start) :
    slice (copyTo m start data) from' n = slice m from' n :=
  slice_congr fun i hi => copyTo_before start data (by omega)

end MemoryBlocks
