import Mathlib.Algebra.BigOperators.Group.List.Basic
import Mathlib.Algebra.Order.Group.MinMax
import Mathlib.Data.List.Induction

/-!
# Sums that are kept from falling below zero

An account that starts at `b` and goes through the changes `ds`, but is raised to zero whenever a
change takes it below (`clamped`), beside the account without the clamp (`partials`).

`clamped_eq`: the clamp has raised the account by exactly the depth to which the other one has
fallen (`lowest`).  `clamped_of_nonpos`: of changes that are all negative or zero, only the
total counts.
-/

namespace ClampedSum

variable {G : Type*} [AddCommGroup G] [LinearOrder G]

/-- The account that starts at `b`, raised to zero whenever a change takes it below. -/
def clamped (b : G) (ds : List G) : G := ds.foldl (fun x d => max (x + d) 0) b

/-- The account without the clamp, at the start and after each change. -/
def partials {G : Type*} [Add G] (b : G) (ds : List G) : List G := ds.scanl (· + ·) b

/-- The lowest value of the account without the clamp, or zero if it never falls below. -/
def lowest (b : G) (ds : List G) : G := (partials b ds).foldr min 0

theorem clamped_append (b : G) (ds ds' : List G) :
    clamped b (ds ++ ds') = clamped (clamped b ds) ds' := List.foldl_append

theorem clamped_snoc (b : G) (ds : List G) (d : G) :
    clamped b (ds ++ [d]) = max (clamped b ds + d) 0 := clamped_append b ds [d]

theorem partials_snoc {G : Type*} [AddCommGroup G] (b : G) (ds : List G) (d : G) :
    partials b (ds ++ [d]) = partials b ds ++ [b + (ds ++ [d]).sum] := by
  induction ds generalizing b with
  | nil => simp [partials]
  | cons x ds ih =>
    have tail := ih (b + x)
    unfold partials at tail ⊢
    rw [List.cons_append, List.scanl_cons, List.scanl_cons, tail, List.sum_cons, add_assoc,
      List.cons_append]

theorem foldr_min_snoc {G : Type*} [LinearOrder G] (l : List G) (a c : G) :
    (l ++ [a]).foldr min c = min (l.foldr min c) a := by
  induction l with
  | nil => exact min_comm a c
  | cons x l ih => rw [List.cons_append, List.foldr_cons, List.foldr_cons, ih, min_assoc]

theorem lowest_snoc (b : G) (ds : List G) (d : G) :
    lowest b (ds ++ [d]) = min (lowest b ds) (b + (ds ++ [d]).sum) := by
  rw [lowest, partials_snoc, foldr_min_snoc, lowest]

variable [IsOrderedAddMonoid G]

theorem clamped_eq {b : G} (h : 0 ≤ b) (ds : List G) :
    clamped b ds = b + ds.sum - lowest b ds := by
  induction ds using List.reverseRecOn with
  | nil =>
    show b = b + 0 - min b 0
    rw [min_eq_right h, add_zero, sub_zero]
  | append_singleton ds d ih =>
    have total : b + (ds ++ [d]).sum = b + ds.sum + d := by
      rw [List.sum_append, List.sum_singleton, add_assoc]
    calc clamped b (ds ++ [d])
        = max (b + ds.sum - lowest b ds + d) 0 := by rw [clamped_snoc, ih]
      _ = max (b + ds.sum + d - lowest b ds) (b + ds.sum + d - (b + ds.sum + d)) := by
          rw [sub_self, sub_add_eq_add_sub]
      _ = b + ds.sum + d - min (lowest b ds) (b + ds.sum + d) := max_sub_sub_left _ _ _
      _ = b + (ds ++ [d]).sum - lowest b (ds ++ [d]) := by rw [lowest_snoc, total]

/-- Of changes that are all negative or zero, only the total counts. -/
theorem clamped_of_nonpos {b : G} (h : 0 ≤ b) {ds : List G} (nonpos : ∀ d ∈ ds, d ≤ 0) :
    clamped b ds = max (b + ds.sum) 0 := by
  induction ds using List.reverseRecOn with
  | nil =>
    show b = max (b + 0) 0
    rw [add_zero, max_eq_left h]
  | append_singleton ds d ih =>
    have last : d ≤ 0 := nonpos d (by simp)
    rw [clamped_snoc, ih fun x hx => nonpos x (List.mem_append_left _ hx), List.sum_append,
      List.sum_singleton, ← add_assoc, max_add, zero_add, max_assoc, max_eq_right last]

end ClampedSum
