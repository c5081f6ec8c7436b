import CarpenterDemo.Library.Numbered

/-!
# `ByteBufferAsyncProcessor`: the queue of a wire

Messages are put into `data`.  The sending thread takes them over into `queue` while it is not
paused, and then sends them from the front of the queue under consecutive sequence numbers until one
cannot be sent; what has been sent waits in `pendingQueue` for its acknowledgement.  `resume` drops
what has been acknowledged and sends the rest once more.

The thread releases its lock between the two halves of a round, so it can be found `fetched`: it has
taken messages over and has not begun to send them.  Stopping and terminating are left out.

`Numbers puts` ties every field to the list `puts` of everything that was ever put: the message with
the number `k` is the `k`-th of them.
-/

namespace CarpenterDemo.Rd

inductive ThreadPhase
  | waiting
  | fetched
  | processing
  deriving DecidableEq, Repr

structure ByteBufferAsyncProcessor (α : Type*) where
  data : List α := []
  queue : List α := []
  pendingQueue : List α := []
  maxSentSeqn : ℕ := 0
  currentSeqn : ℕ := 1
  acknowledgedSeqn : ℕ := 0
  interruptBalance : ℤ := 0
  phase : ThreadPhase := .waiting
  deriving DecidableEq, Repr

namespace ByteBufferAsyncProcessor

variable {α : Type*} (self : ByteBufferAsyncProcessor α)

def put (newData : α) : ByteBufferAsyncProcessor α := { self with data := self.data ++ [newData] }

/-- The first half of a round of `ThreadProc`. -/
def fetch : Option (ByteBufferAsyncProcessor α) :=
  if self.phase = .waiting ∧ self.data ≠ [] ∧ self.interruptBalance = 0 then
    some { self with data := [], queue := self.queue ++ self.data, phase := .fetched }
  else none

/-- `process` gets its locks. -/
def startProcess : Option (ByteBufferAsyncProcessor α) :=
  if self.phase = .fetched then some { self with phase := .processing } else none

/-- One round of the loop of `process`; `sends` says whether the message could be sent. -/
def processOne (sends : Bool) : Option (ByteBufferAsyncProcessor α × List (ℕ × α)) :=
  if self.phase = .processing then
    match self.queue with
    | [] => some ({ self with phase := .waiting }, [])
    | item :: queue =>
      if sends then
        some ({ self with
          maxSentSeqn := self.maxSentSeqn + 1
          pendingQueue := self.pendingQueue ++ [item]
          queue := queue }, [(self.maxSentSeqn + 1, item)])
      else some ({ self with phase := .waiting }, [])
  else none

/-- Pausing from another thread waits until the thread is not processing. -/
def pause : Option (ByteBufferAsyncProcessor α) :=
  if self.phase = .processing then none
  else some { self with interruptBalance := self.interruptBalance + 1 }

/-- The first loop of `reprocess`, which takes messages that were acknowledged off the front; `none`
when it runs out of messages. -/
def popAcknowledged (acknowledged : ℕ) : List α → ℕ → Option (List α × ℕ)
  | [], current => if current ≤ acknowledged then none else some ([], current)
  | item :: pending, current =>
    if current ≤ acknowledged then popAcknowledged acknowledged pending (current + 1)
    else some (item :: pending, current)

/-- What is to be sent once more, with its numbers. -/
def resent : List (ℕ × α) := Numbered.numberFrom self.currentSeqn self.pendingQueue

/-- `resume`, up to the sending of what is `resent`. -/
def resume : Option (ByteBufferAsyncProcessor α) :=
  (popAcknowledged self.acknowledgedSeqn self.pendingQueue self.currentSeqn).map
    fun (pending, current) =>
      { self with
        pendingQueue := pending
        currentSeqn := current
        interruptBalance := self.interruptBalance - 1 }

/-- A number that is not new is reported and ignored. -/
def acknowledge (seqn : ℕ) : ByteBufferAsyncProcessor α :=
  if self.acknowledgedSeqn < seqn then { self with acknowledgedSeqn := seqn } else self

/-- The numbers that have been sent and acknowledged are the same. -/
def SameNumbers (self' : ByteBufferAsyncProcessor α) : Prop :=
  self'.maxSentSeqn = self.maxSentSeqn ∧ self'.acknowledgedSeqn = self.acknowledgedSeqn

section Frame

variable {self} {self' : ByteBufferAsyncProcessor α}

theorem sameNumbers_fetch (fetches : self.fetch = some self') : self.SameNumbers self' := by
  obtain ⟨-, ⟨⟩⟩ := Option.ite_none_right_eq_some.1 fetches
  exact ⟨rfl, rfl⟩

theorem sameNumbers_startProcess (starts : self.startProcess = some self') :
    self.SameNumbers self' := by
  obtain ⟨-, ⟨⟩⟩ := Option.ite_none_right_eq_some.1 starts
  exact ⟨rfl, rfl⟩

theorem sameNumbers_pause (pauses : self.pause = some self') : self.SameNumbers self' := by
  obtain ⟨-, ⟨⟩⟩ := Option.ite_none_left_eq_some.1 pauses
  exact ⟨rfl, rfl⟩

variable (self) in
theorem acknowledge_spec (seqn : ℕ) : (self.acknowledge seqn).maxSentSeqn = self.maxSentSeqn ∧
    (self.acknowledge seqn).acknowledgedSeqn = max self.acknowledgedSeqn seqn := by
  unfold acknowledge
  split_ifs with newer
  · exact ⟨rfl, (Nat.max_eq_right (Nat.le_of_lt newer)).symm⟩
  · exact ⟨rfl, (Nat.max_eq_left (Nat.le_of_not_lt newer)).symm⟩

end Frame

/-! ## Numbers name messages -/

/-- How the fields depend on everything that was ever put. -/
structure Numbers {α : Type*} (p : ByteBufferAsyncProcessor α) (puts : List α) : Prop where
  sent : p.maxSentSeqn ≤ puts.length
  unsent : p.queue ++ p.data = puts.drop p.maxSentSeqn
  pending : p.pendingQueue = (puts.take p.maxSentSeqn).drop (p.currentSeqn - 1)
  positive : 1 ≤ p.currentSeqn
  current : p.currentSeqn ≤ p.acknowledgedSeqn + 1
  acknowledged : p.acknowledgedSeqn ≤ p.maxSentSeqn

/-- `p` is the message that its number names. -/
def Named (puts : List α) (p : ℕ × α) : Prop := 1 ≤ p.1 ∧ puts[p.1 - 1]? = some p.2

theorem Named.append {puts : List α} {p : ℕ × α} (h : Named puts p) (more : List α) :
    Named (puts ++ more) p := by
  refine ⟨h.1, ?_⟩
  rw [List.getElem?_append_left (List.getElem?_eq_some_iff.1 h.2).1]
  exact h.2

theorem Named.le {puts : List α} {p : ℕ × α} (h : Named puts p) : p.1 ≤ puts.length := by
  have inside := (List.getElem?_eq_some_iff.1 h.2).1
  have := h.1
  omega

namespace Numbers

variable {self} {self' : ByteBufferAsyncProcessor α} {puts : List α}

theorem put (h : self.Numbers puts) (m : α) : (self.put m).Numbers (puts ++ [m]) := by
  refine ⟨?_, ?_, ?_, h.positive, h.current, h.acknowledged⟩
  · rw [List.length_append]
    exact Nat.le_add_right_of_le h.sent
  · show self.queue ++ (self.data ++ [m]) = _
    rw [← List.append_assoc, h.unsent]
    exact (List.drop_append_of_le_length h.sent).symm
  · show self.pendingQueue = (List.take self.maxSentSeqn _).drop _
    rw [List.take_append_of_le_length h.sent]
    exact h.pending

theorem fetch (h : self.Numbers puts) (fetches : self.fetch = some self') :
    self'.Numbers puts := by
  obtain ⟨-, ⟨⟩⟩ := Option.ite_none_right_eq_some.1 fetches
  exact ⟨h.sent, (List.append_nil _).trans h.unsent, h.pending, h.positive, h.current,
    h.acknowledged⟩

theorem startProcess (h : self.Numbers puts) (starts : self.startProcess = some self') :
    self'.Numbers puts := by
  obtain ⟨-, ⟨⟩⟩ := Option.ite_none_right_eq_some.1 starts
  exact ⟨h.sent, h.unsent, h.pending, h.positive, h.current, h.acknowledged⟩

/-- What a round of `process` can do: end, or send the next message. -/
theorem processOne (h : self.Numbers puts) {sends : Bool} {sent : List (ℕ × α)}
    (processes : self.processOne sends = some (self', sent)) : self'.Numbers puts ∧
    self'.acknowledgedSeqn = self.acknowledgedSeqn ∧
    ((sent = [] ∧ self'.maxSentSeqn = self.maxSentSeqn) ∨
      ∃ item, sends = true ∧ sent = [(self.maxSentSeqn + 1, item)] ∧
        puts[self.maxSentSeqn]? = some item ∧ self'.maxSentSeqn = self.maxSentSeqn + 1 ∧
        self.queue ≠ []) := by
  unfold ByteBufferAsyncProcessor.processOne at processes
  obtain ⟨-, processes⟩ := Option.ite_none_right_eq_some.1 processes
  have unsent := h.unsent
  split at processes
  · obtain ⟨rfl, rfl⟩ := Prod.ext_iff.1 (Option.some.inj processes)
    exact ⟨⟨h.sent, unsent, h.pending, h.positive, h.current, h.acknowledged⟩, rfl,
      Or.inl ⟨rfl, rfl⟩⟩
  · rename_i item queue queued
    split_ifs at processes with sendable
    · obtain ⟨rfl, rfl⟩ := Prod.ext_iff.1 (Option.some.inj processes)
      rw [queued, List.cons_append] at unsent
      have inside : self.maxSentSeqn < puts.length := by
        by_contra beyond
        rw [List.drop_of_length_le (Nat.le_of_not_lt beyond)] at unsent
        cases unsent
      rw [List.drop_eq_getElem_cons inside] at unsent
      obtain ⟨rfl, rest⟩ := List.cons.inj unsent
      refine ⟨⟨inside, rest, ?_, h.positive, h.current, Nat.le_succ_of_le h.acknowledged⟩,
        rfl, Or.inr ⟨puts[self.maxSentSeqn], sendable, rfl, List.getElem?_eq_getElem inside, rfl,
          queued ▸ List.cons_ne_nil _ _⟩⟩
      have room : self.currentSeqn - 1 ≤ self.maxSentSeqn := by
        have := h.current
        have := h.acknowledged
        omega
      show self.pendingQueue ++ [_] = (puts.take (self.maxSentSeqn + 1)).drop (self.currentSeqn - 1)
      rw [h.pending, List.take_succ_eq_append_getElem inside, List.drop_append_of_le_length]
      rwa [List.length_take_of_le h.sent]
    · obtain ⟨rfl, rfl⟩ := Prod.ext_iff.1 (Option.some.inj processes)
      exact ⟨⟨h.sent, unsent, h.pending, h.positive, h.current, h.acknowledged⟩, rfl,
      Or.inl ⟨rfl, rfl⟩⟩

theorem pause (h : self.Numbers puts) (pauses : self.pause = some self') : self'.Numbers puts := by
  obtain ⟨-, ⟨⟩⟩ := Option.ite_none_left_eq_some.1 pauses
  exact ⟨h.sent, h.unsent, h.pending, h.positive, h.current, h.acknowledged⟩

theorem acknowledge (h : self.Numbers puts) {seqn : ℕ} (seen : seqn ≤ self.maxSentSeqn) :
    (self.acknowledge seqn).Numbers puts := by
  unfold ByteBufferAsyncProcessor.acknowledge
  split_ifs with newer
  · refine ⟨h.sent, h.unsent, h.pending, h.positive, ?_, seen⟩
    exact Nat.le_trans h.current (Nat.succ_le_succ (Nat.le_of_lt newer))
  · exact h

theorem length_pendingQueue (h : self.Numbers puts) :
    self.pendingQueue.length + self.currentSeqn = self.maxSentSeqn + 1 := by
  rw [h.pending, List.length_drop, List.length_take_of_le h.sent]
  have := h.positive
  have := h.current
  have := h.acknowledged
  omega

end Numbers

/-- As long as enough messages are pending, popping stops behind the last acknowledged one. -/
theorem popAcknowledged_eq {acknowledged : ℕ} (pending : List α) {current : ℕ}
    (le : current ≤ acknowledged + 1) (enough : acknowledged + 1 ≤ current + pending.length) :
    popAcknowledged acknowledged pending current =
      some (pending.drop (acknowledged + 1 - current), acknowledged + 1) := by
  induction pending generalizing current with
  | nil =>
    obtain rfl : current = acknowledged + 1 := Nat.le_antisymm le enough
    rw [popAcknowledged, if_neg (Nat.not_succ_le_self acknowledged), List.drop_nil]
  | cons item pending ih =>
    rw [List.length_cons] at enough
    rw [popAcknowledged]
    split_ifs with more
    · have count : acknowledged + 1 - current = acknowledged + 1 - (current + 1) + 1 := by omega
      rw [ih (Nat.succ_le_succ more) (by omega), count, List.drop_succ_cons]
    · obtain rfl : current = acknowledged + 1 := by omega
      rw [Nat.sub_self, List.drop_zero]

/-- `resume` finds all the messages that were acknowledged, and what it sends once more are the
messages after the last acknowledged one, under the numbers they had. -/
theorem Numbers.resume {self : ByteBufferAsyncProcessor α} {puts : List α}
    (h : self.Numbers puts) : ∃ self', self.resume = some self' ∧ self'.Numbers puts ∧
    self'.acknowledgedSeqn = self.acknowledgedSeqn ∧
    self'.currentSeqn = self.acknowledgedSeqn + 1 ∧ self'.maxSentSeqn = self.maxSentSeqn ∧
    ∀ p ∈ self'.resent, Named puts p ∧ p.1 ≤ self.maxSentSeqn := by
  have length := h.length_pendingQueue
  have acknowledged := h.acknowledged
  have popped := popAcknowledged_eq self.pendingQueue h.current (by omega)
  have dropped : self.pendingQueue.drop (self.acknowledgedSeqn + 1 - self.currentSeqn) =
      (puts.take self.maxSentSeqn).drop self.acknowledgedSeqn := by
    rw [h.pending, List.drop_drop]
    congr 1
    have := h.positive
    have := h.current
    omega
  refine ⟨_, congrArg _ popped, ⟨h.sent, h.unsent, dropped, Nat.le_add_left 1 _, Nat.le_refl _,
    acknowledged⟩, rfl, rfl, rfl, fun p hp => ?_⟩
  obtain ⟨i, number, item⟩ := Numbered.getElem?_of_mem_numberFrom hp
  have number : p.1 = self.acknowledgedSeqn + 1 + i := number
  simp only [dropped, List.getElem?_drop] at item
  rw [List.getElem?_take, Option.ite_none_right_eq_some] at item
  have position : p.1 - 1 = self.acknowledgedSeqn + i := by omega
  have inside : p.1 ≤ self.maxSentSeqn := by omega
  refine ⟨⟨by omega, ?_⟩, inside⟩
  rw [position]
  exact item.2

end ByteBufferAsyncProcessor

end CarpenterDemo.Rd
