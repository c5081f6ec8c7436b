import Mathlib.Data.Nat.Init
import Mathlib.Tactic.Common

/-!
# Numbered items

Items that travel with consecutive numbers (`numberFrom`), possibly several times.  `reach` is the
greatest number so far, and a list is `Gapless` above a number when no item skips a number: each of
them is at most one above everything before it.
-/

namespace Numbered

variable {α : Type*}

def numberFrom : ℕ → List α → List (ℕ × α)
  | _, [] => []
  | n, a :: as => (n, a) :: numberFrom (n + 1) as

/-- The greatest number among `r` and those of the items. -/
def reach : ℕ → List (ℕ × α) → ℕ
  | r, [] => r
  | r, p :: ps => reach (max r p.1) ps

def Gapless : ℕ → List (ℕ × α) → Prop
  | _, [] => True
  | r, p :: ps => p.1 ≤ r + 1 ∧ Gapless (max r p.1) ps

theorem reach_append (r : ℕ) (ps qs : List (ℕ × α)) :
    reach r (ps ++ qs) = reach (reach r ps) qs := by
  induction ps generalizing r with
  | nil => rfl
  | cons p ps ih => exact ih (max r p.1)

theorem le_reach (r : ℕ) (ps : List (ℕ × α)) : r ≤ reach r ps := by
  induction ps generalizing r with
  | nil => exact Nat.le_refl r
  | cons p ps ih => exact Nat.le_trans (Nat.le_max_left r p.1) (ih (max r p.1))

theorem gapless_append {r : ℕ} {ps qs : List (ℕ × α)} :
    Gapless r (ps ++ qs) ↔ Gapless r ps ∧ Gapless (reach r ps) qs := by
  induction ps generalizing r with
  | nil => exact (and_iff_right trivial).symm
  | cons p ps ih =>
    rw [List.cons_append, Gapless, Gapless, ih, and_assoc]
    rfl

theorem Gapless.take {r : ℕ} {ps : List (ℕ × α)} (h : Gapless r ps) (n : ℕ) :
    Gapless r (ps.take n) := by
  rw [← List.take_append_drop n ps, gapless_append] at h
  exact h.1

theorem gapless_numberFrom {r n : ℕ} (h : n ≤ r + 1) (as : List α) :
    Gapless r (numberFrom n as) := by
  induction as generalizing r n with
  | nil => trivial
  | cons a as ih => exact ⟨h, ih (Nat.succ_le_succ (Nat.le_max_right r n))⟩

/-- The items reach as far as there are numbers for them. -/
theorem length_le_reach {r n : ℕ} (h : n ≤ r + 1) (as : List α) :
    n + as.length ≤ reach r (numberFrom n as) + 1 := by
  induction as generalizing r n with
  | nil => exact h
  | cons a as ih =>
    have := @ih (max r n) (n + 1) (by omega)
    simp only [numberFrom, reach, List.length_cons]
    omega

/-- Each number names its item. -/
theorem getElem?_of_mem_numberFrom {n : ℕ} {as : List α} {p : ℕ × α} (h : p ∈ numberFrom n as) :
    ∃ i, p.1 = n + i ∧ as[i]? = some p.2 := by
  induction as generalizing n with
  | nil => cases h
  | cons a as ih =>
    rcases List.mem_cons.1 h with rfl | h
    · exact ⟨0, rfl, rfl⟩
    · obtain ⟨i, number, item⟩ := ih h
      exact ⟨i + 1, by omega, item⟩

end Numbered
