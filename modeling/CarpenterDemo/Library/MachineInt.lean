import Mathlib.Algebra.Order.Ring.Int
import Mathlib.Tactic.Common

/-!
# Signed machine integers

A signed integer of `w` bits is an integer that `Fits w`.  `wrap w` is what such a type makes of the
exact result of an operation, and `clamp` is the usual clamp to an interval.
-/

namespace MachineInt

/-- The value that is congruent to `x` modulo `2 ^ w` and fits. -/
def wrap (w : ℕ) (x : ℤ) : ℤ := Int.bmod x (2 ^ w)

/-- `x` is a value of the type of signed integers of `w` bits. -/
def Fits (w : ℕ) (x : ℤ) : Prop := -2 ^ (w - 1) ≤ x ∧ x < 2 ^ (w - 1)

/-- A result wraps to itself just when it fits. -/
theorem wrap_eq_self_iff {w : ℕ} (hw : 0 < w) {x : ℤ} : wrap w x = x ↔ Fits w x := by
  obtain ⟨n, rfl⟩ := Nat.exists_eq_add_of_lt hw
  rw [Nat.zero_add, wrap, Fits, Nat.add_sub_cancel]
  have half : ((2 ^ (n + 1) : ℕ) : ℤ) = 2 * 2 ^ n := by
    push_cast
    rw [Int.pow_succ, Int.mul_comm]
  have positive : 0 < 2 ^ (n + 1) := Nat.two_pow_pos _
  constructor
  · intro same
    have lower := Int.le_bmod (x := x) positive
    have upper := Int.bmod_lt (x := x) positive
    rw [same, half] at lower upper
    omega
  · intro fits
    apply Int.bmod_eq_of_le <;> rw [half] <;> omega

def clamp (x min max : ℤ) : ℤ := if x < min then min else if x < max then x else max

/-- Below the upper end, clamping is taking the maximum with the lower end. -/
theorem clamp_eq_max {x lo hi : ℤ} (h : x ≤ hi) : clamp x lo hi = max x lo := by
  unfold clamp
  split_ifs <;> omega

end MachineInt
