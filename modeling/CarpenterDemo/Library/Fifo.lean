import Mathlib.Data.List.Basic

/-!
# First in, first out

A `Fifo` remembers everything that was ever pushed and how much of it has been taken from the front;
what it holds is the rest.  `push` and `pop` keep the number taken within the history, and
`length_contents` is the conservation law: everything pushed is either taken or still held.
-/

/-- A queue with its history. -/
structure Fifo (α : Type*) where
  /-- Everything ever pushed, oldest first. -/
  history : List α
  /-- How many elements have been taken from the front. -/
  taken : ℕ
  taken_le : taken ≤ history.length

namespace Fifo

variable {α : Type*} (q : Fifo α)

def empty (α : Type*) : Fifo α := ⟨[], 0, Nat.le_refl 0⟩

/-- What has been pushed and not taken. -/
def contents : List α := q.history.drop q.taken

theorem length_contents : q.contents.length + q.taken = q.history.length := by
  rw [contents, List.length_drop]
  exact Nat.sub_add_cancel q.taken_le

theorem taken_lt {a : α} {rest : List α} (h : q.contents = a :: rest) :
    q.taken < q.history.length := by
  have length := q.length_contents
  rw [h, List.length_cons] at length
  omega

def push (a : α) : Fifo α where
  history := q.history ++ [a]
  taken := q.taken
  taken_le := by
    rw [List.length_append]
    exact Nat.le_add_right_of_le q.taken_le

theorem contents_push (a : α) : (q.push a).contents = q.contents ++ [a] :=
  List.drop_append_of_le_length q.taken_le

def pop {a : α} {rest : List α} (h : q.contents = a :: rest) : Fifo α where
  history := q.history
  taken := q.taken + 1
  taken_le := q.taken_lt h

theorem contents_pop {a : α} {rest : List α} (h : q.contents = a :: rest) :
    (q.pop h).contents = rest := by
  rw [contents, pop, ← List.tail_drop]
  exact congrArg List.tail h

/-- The element at the front is the one that was pushed when as many had been pushed as are now
taken. -/
theorem getElem?_taken {a : α} {rest : List α} (h : q.contents = a :: rest) :
    q.history[q.taken]? = some a := by
  rw [← List.head?_drop]
  exact congrArg List.head? h

end Fifo
