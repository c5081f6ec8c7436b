import Mathlib.Data.List.Count

/-!
# Replicated values on their way

A replicated value is sent when it has changed (`send`) and received in order, but a receiver may be
handed a later value and never see those before it (`receive q n` skips the `n` oldest values of the
queue `q`).  Nothing is received that was not sent, and nothing more often than it was sent
(`count_receive`).

A `Channel` also remembers the value last sent, which the newest value on its way always is.  Once
nothing is on its way any more, the last value received is the one last sent (`Channel.settled`).
`Channel.Follows` relates what a receiver has seen to all the values that the sender has had.
-/

namespace Replication

variable {α : Type*}

section Send

variable [DecidableEq α]

/-- The queue after the value has changed from `old` to `new`. -/
def send (old new : α) (queue : List α) : List α :=
  if new = old then queue else queue ++ [new]

theorem send_self (a : α) (queue : List α) : send a a queue = queue := if_pos rfl

theorem send_of_ne {old new : α} (h : new ≠ old) (queue : List α) :
    send old new queue = queue ++ [new] := if_neg h

theorem mem_send {a old new : α} {queue : List α} (h : a ∈ send old new queue) :
    a ∈ queue ∨ a = new ∧ new ≠ old := by
  by_cases e : new = old
  · rw [e, send_self] at h
    exact Or.inl h
  · rw [send_of_ne e, List.mem_append, List.mem_singleton] at h
    exact h.imp_right fun ha => ⟨ha, e⟩

variable [BEq α]

theorem count_send_le (a old new : α) (queue : List α) :
    (send old new queue).count a ≤ queue.count a + 1 := by
  by_cases e : new = old
  · rw [e, send_self]
    omega
  · rw [send_of_ne e, List.count_append, List.count_singleton]
    split <;> omega

variable [LawfulBEq α]

/-- A value that the change does not bring about is in the queue as often as before. -/
theorem count_send_of_ne {a old new : α} (h : new = a → old = a) (queue : List α) :
    (send old new queue).count a = queue.count a := by
  by_cases e : new = old
  · rw [e, send_self]
  · have other : new ≠ a := fun ha => e (ha.trans (h ha).symm)
    rw [send_of_ne e, List.count_append, List.count_singleton, if_neg (by simpa using other),
      Nat.add_zero]

end Send

/-- The next value received after skipping `n`, with the queue that is left. -/
def receive (queue : List α) (n : ℕ) : Option (α × List α) :=
  match queue.drop n with
  | [] => none
  | a :: rest => some (a, rest)

theorem receive_eq_some_iff {queue rest : List α} {n : ℕ} {a : α} :
    receive queue n = some (a, rest) ↔ queue.drop n = a :: rest := by
  unfold receive
  cases queue.drop n with
  | nil => simp
  | cons b l => simp

theorem mem_of_receive {queue rest : List α} {n : ℕ} {a : α}
    (h : receive queue n = some (a, rest)) : a ∈ queue :=
  List.mem_of_mem_drop (receive_eq_some_iff.1 h ▸ List.mem_cons_self)

theorem mem_of_mem_rest {queue rest : List α} {n : ℕ} {a b : α}
    (h : receive queue n = some (a, rest)) (hb : b ∈ rest) : b ∈ queue :=
  List.mem_of_mem_drop (receive_eq_some_iff.1 h ▸ List.mem_cons_of_mem a hb)

theorem count_receive [DecidableEq α] [BEq α] [LawfulBEq α] {queue rest : List α} {n : ℕ} {a : α}
    (h : receive queue n = some (a, rest)) (b : α) :
    rest.count b + (if a = b then 1 else 0) ≤ queue.count b := by
  have split := List.take_append_drop n queue
  rw [receive_eq_some_iff.1 h] at split
  have total := congrArg (List.count b) split
  rw [List.count_append, List.count_cons] at total
  simp only [beq_iff_eq] at total
  omega

/-- The value that a receiver will show once all that is on its way has arrived. -/
def latest (own : α) (queue : List α) : α := queue.getLast?.getD own

theorem latest_send [DecidableEq α] {own old : α} {queue : List α} (h : latest own queue = old)
    (new : α) : latest own (send old new queue) = new := by
  by_cases e : new = old
  · rw [e, send_self, h]
  · rw [send_of_ne e, latest]
    simp

theorem latest_receive {queue rest : List α} {n : ℕ} {a : α}
    (h : receive queue n = some (a, rest)) (own : α) : latest a rest = latest own queue := by
  have split := List.take_append_drop n queue
  rw [receive_eq_some_iff.1 h] at split
  rw [← split, latest, latest]
  simp [List.getLast?_append, List.getLast?_cons]

/-! ## Channels -/

/-- The value last sent to a receiver and the values on their way to it, oldest first. -/
structure Channel (α : Type*) where
  sent : α
  inFlight : List α
  newest : ∀ a ∈ inFlight.getLast?, a = sent

namespace Channel

variable (c : Channel α)

/-- A receiver that has been sent nothing and starts with the value `a`. -/
def idle (a : α) : Channel α := ⟨a, [], by simp⟩

def send (a : α) : Channel α := ⟨a, c.inFlight ++ [a], by simp⟩

/-- What is left on its way after a value of `c` has been received. -/
def rest {n : ℕ} {a : α} {queue : List α} (h : Replication.receive c.inFlight n = some (a, queue)) :
    Channel α where
  sent := c.sent
  inFlight := queue
  newest b hb := by
    refine c.newest b ?_
    have split := List.take_append_drop n c.inFlight
    rw [receive_eq_some_iff.1 h] at split
    rw [← split, List.getLast?_append, List.getLast?_cons, hb]
    simp

/-- The next value received after skipping `n`, with the channel that is left. -/
def receive (n : ℕ) : Option (α × Channel α) :=
  match h : Replication.receive c.inFlight n with
  | none => none
  | some (a, _) => some (a, c.rest h)

variable {c}

theorem sent_of_receive {c' : Channel α} {n : ℕ} {a : α} (h : c.receive n = some (a, c')) :
    c'.sent = c.sent := by
  unfold receive at h
  split at h <;> cases h
  rfl

/-- The last value received is the one last sent. -/
theorem settled {c' : Channel α} {n : ℕ} {a : α} (h : c.receive n = some (a, c'))
    (empty : c'.inFlight = []) : a = c.sent := by
  unfold receive at h
  split at h
  · cases h
  · rename_i b queue received
    cases h
    obtain rfl : queue = [] := empty
    have split := List.take_append_drop n c.inFlight
    rw [receive_eq_some_iff.1 received] at split
    exact c.newest a (by rw [← split]; simp)

theorem drop_of_receive {c' : Channel α} {n : ℕ} {a : α} (h : c.receive n = some (a, c')) :
    c.inFlight.drop n = a :: c'.inFlight := by
  unfold receive at h
  split at h
  · cases h
  · rename_i received
    cases h
    exact receive_eq_some_iff.1 received

/-- The sender has had the values `past`, oldest first, and has `current` now; the receiver started
with `start` and has received `seen`.  What is received and on its way comes from the sender in its
order, and the current value is sent only if it is not the one last sent. -/
structure Follows (c : Channel α) (start : α) (seen past : List α) (current : α) : Prop where
  order : c.sent = current ∧ (seen ++ c.inFlight).Sublist (past ++ [current]) ∨
    (seen ++ c.inFlight).Sublist past
  sent : c.sent = (seen ++ c.inFlight).getLast?.getD start

namespace Follows

variable {start current : α} {seen past : List α}

theorem idle (start current : α) : (Channel.idle start).Follows start [] [] current :=
  ⟨Or.inr (List.Sublist.refl _), rfl⟩

/-- The sender's value changes. -/
theorem moved (h : c.Follows start seen past current) (next : α) :
    c.Follows start seen (past ++ [current]) next := by
  refine ⟨Or.inr ?_, h.sent⟩
  rcases h.order with ⟨-, order⟩ | order
  · exact order
  · exact order.trans (List.sublist_append_left _ _)

theorem send (h : c.Follows start seen past current) (changed : current ≠ c.sent) :
    (c.send current).Follows start seen past current := by
  have order := h.order.resolve_left fun same => changed same.1.symm
  refine ⟨Or.inl ⟨rfl, ?_⟩, ?_⟩
  · show (seen ++ (c.inFlight ++ [current])).Sublist _
    rw [← List.append_assoc]
    exact order.append (List.Sublist.refl _)
  · show current = (seen ++ (c.inFlight ++ [current])).getLast?.getD start
    simp

theorem receive (h : c.Follows start seen past current) {c' : Channel α} {n : ℕ} {a : α}
    (received : c.receive n = some (a, c')) : c'.Follows start (seen ++ [a]) past current := by
  have split := List.take_append_drop n c.inFlight
  rw [drop_of_receive received] at split
  have later : (seen ++ [a] ++ c'.inFlight).Sublist (seen ++ c.inFlight) := by
    rw [← split, List.append_assoc]
    exact (List.Sublist.refl seen).append (List.sublist_append_right _ _)
  constructor
  · rw [sent_of_receive received]
    exact h.order.imp (And.imp_right later.trans) later.trans
  · rw [sent_of_receive received, h.sent, ← split]
    simp [List.getLast?_append, List.getLast?_cons]

theorem seen_sublist (h : c.Follows start seen past current) :
    seen.Sublist (past ++ [current]) := by
  have received : seen.Sublist (seen ++ c.inFlight) := List.sublist_append_left _ _
  rcases h.order with ⟨-, order⟩ | order
  · exact received.trans order
  · exact (received.trans order).trans (List.sublist_append_left _ _)

/-- Once all has arrived, the value received last is the current one. -/
theorem converged (h : c.Follows start seen past current) (arrived : c.inFlight = [])
    (upToDate : c.sent = current) : seen.getLast?.getD start = current := by
  rw [← upToDate, h.sent, arrived, List.append_nil]

end Follows

end Channel

end Replication
