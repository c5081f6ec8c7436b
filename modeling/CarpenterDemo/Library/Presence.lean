import Mathlib.Data.List.Basic
import Mathlib.Tactic.Common

/-!
# What comes and goes

A `Presence` is what is present, with the history of all arrivals.  `latest q` is the last arrival
that satisfies `q`, present or not, and `focus q` is the latest one as long as it is present.

An arrival that satisfies `q` takes the focus, the departure of the focus clears it, and nothing
else moves it.  In particular the focus does not fall back to what is still present: whether
something of interest may be left without it (`Attended`) is decided at each departure by
`Attended.depart_iff`.
-/

structure Presence (α : Type*) where
  present : List α := []
  /-- All arrivals so far, oldest first. -/
  arrivals : List α := []

namespace Presence

variable {α : Type*} [DecidableEq α] (p : Presence α) (q : α → Bool)

def arrive {α : Type*} (p : Presence α) (a : α) : Presence α where
  present := p.present ++ [a]
  arrivals := p.arrivals ++ [a]

def depart (a : α) : Presence α := { p with present := p.present.filter (· ≠ a) }

/-- The last arrival that satisfies `q`. -/
def latest {α : Type*} (p : Presence α) (q : α → Bool) : Option α :=
  (p.arrivals.filter q).getLast?

/-- The last arrival that satisfies `q`, if it is present. -/
def focus : Option α := (p.latest q).filter (· ∈ p.present)

theorem mem_arrive {α : Type*} (p : Presence α) {a b : α} :
    b ∈ (p.arrive a).present ↔ b ∈ p.present ∨ b = a := by
  simp [arrive]

theorem mem_depart {a b : α} : b ∈ (p.depart a).present ↔ b ∈ p.present ∧ b ≠ a := by
  simp [depart]

/-! ## The latest arrival -/

section Latest

variable {α : Type*} {p : Presence α} {q : α → Bool} {a : α}

theorem of_latest (h : p.latest q = some a) : q a = true := by
  have member := List.mem_of_getLast? h
  exact (List.mem_filter.1 member).2

theorem latest_arrive_of_pos (h : q a = true) : (p.arrive a).latest q = some a := by
  simp [latest, arrive, h]

theorem latest_arrive_of_neg (h : q a = false) : (p.arrive a).latest q = p.latest q := by
  simp [latest, arrive, h]

end Latest

/-! ## The focus -/

variable {p q} {a : α}

theorem focus_eq_some_iff : p.focus q = some a ↔ p.latest q = some a ∧ a ∈ p.present := by
  simp [focus]

theorem focus_eq_some_iff_of_mem (h : a ∈ p.present) :
    p.focus q = some a ↔ p.latest q = some a := by
  rw [focus_eq_some_iff, and_iff_left h]

theorem focus_arrive_of_pos (h : q a = true) : (p.arrive a).focus q = some a := by
  rw [focus_eq_some_iff]
  exact ⟨latest_arrive_of_pos h, p.mem_arrive.2 (Or.inr rfl)⟩

theorem focus_arrive_of_neg (h : q a = false) : (p.arrive a).focus q = p.focus q := by
  ext b
  rw [focus_eq_some_iff, focus_eq_some_iff, latest_arrive_of_neg h, mem_arrive]
  refine and_congr_right fun latest => or_iff_left ?_
  rintro rfl
  rw [of_latest latest] at h
  cases h

theorem focus_depart_self (h : p.focus q = some a) : (p.depart a).focus q = none := by
  rw [Option.eq_none_iff_forall_ne_some]
  intro b hb
  obtain ⟨latest, present⟩ := focus_eq_some_iff.1 hb
  have same : p.latest q = some b := latest
  rw [(focus_eq_some_iff.1 h).1] at same
  exact (p.mem_depart.1 present).2 (Option.some.inj same).symm

theorem focus_depart_of_ne (h : p.focus q ≠ some a) : (p.depart a).focus q = p.focus q := by
  ext b
  rw [focus_eq_some_iff, focus_eq_some_iff, mem_depart]
  show p.latest q = some b ∧ _ ↔ _
  refine and_congr_right fun latest => and_iff_left_of_imp fun present => ?_
  rintro rfl
  exact h (focus_eq_some_iff.2 ⟨latest, present⟩)

/-! ## Attention -/

variable (p q) in
/-- If something that satisfies `q` is present, something has the focus. -/
def Attended : Prop := ∀ a ∈ p.present, q a = true → p.focus q ≠ none

theorem Attended.arrive (h : p.Attended q) (a : α) : (p.arrive a).Attended q := by
  intro b hb interest
  cases new : q a with
  | true =>
    rw [focus_arrive_of_pos new]
    exact Option.some_ne_none a
  | false =>
    rw [focus_arrive_of_neg new]
    rcases p.mem_arrive.1 hb with hb | rfl
    · exact h b hb interest
    · rw [new] at interest
      cases interest

/-- A departure leaves something of interest without the focus just when it takes the focus away and
something else of interest is present. -/
theorem Attended.depart_iff (h : p.Attended q) (a : α) :
    (p.depart a).Attended q ↔ (p.focus q = some a → ∀ b ∈ p.present, q b = true → b = a) := by
  by_cases focused : p.focus q = some a
  · constructor
    · intro attended _ b hb interest
      by_contra other
      exact attended b (p.mem_depart.2 ⟨hb, other⟩) interest (focus_depart_self focused)
    · intro alone b hb interest
      obtain ⟨present, other⟩ := p.mem_depart.1 hb
      exact absurd (alone focused b present interest) other
  · refine iff_of_true ?_ fun hf => absurd hf focused
    intro b hb interest
    rw [focus_depart_of_ne focused]
    exact h b (p.mem_depart.1 hb).1 interest

end Presence
