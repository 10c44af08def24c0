import Mathlib.Tactic

/-!
# C integers

The value of a 32-bit `int` after a conversion or after arithmetic in two's complement.
-/
namespace MachineInts

/-- What an `int` holds of a value. -/
def int32 (v : ℤ) : ℤ := Int.bmod v (2 ^ 32)

lemma int32_range (v : ℤ) : -2 ^ 31 ≤ int32 v ∧ int32 v < 2 ^ 31 := by
  rw [int32, Int.bmod_def]
  omega

lemma int32_eq_self_iff {v : ℤ} : int32 v = v ↔ -2 ^ 31 ≤ v ∧ v < 2 ^ 31 := by
  rw [int32, Int.bmod_def]
  omega

lemma int32_eq_self {v : ℤ} (hlow : -2 ^ 31 ≤ v) (hhigh : v < 2 ^ 31) : int32 v = v :=
  int32_eq_self_iff.mpr ⟨hlow, hhigh⟩

/-- A value and what an `int` holds of it differ by a multiple of `2 ^ 32`. -/
lemma int32_eq (v : ℤ) : ∃ k, v = int32 v + 2 ^ 32 * k := by
  rw [int32, Int.bmod_def]
  split
  · exact ⟨v / 2 ^ 32, by omega⟩
  · exact ⟨v / 2 ^ 32 + 1, by omega⟩

lemma int32_sub (a b : ℤ) : int32 (int32 a - b) = int32 (a - b) := Int.bmod_sub_bmod

/-- A natural number is at least what an `int` holds of it. -/
lemma int32_natCast_le (n : ℕ) : int32 n ≤ n := by
  rw [int32, Int.bmod_def]
  omega

end MachineInts
