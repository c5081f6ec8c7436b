import CarpenterDemo.Library.Machine

/-!
# Two parties and the messages between them

Two parties send each other messages, which arrive once each and in the order in which they were
sent.  A party reacts to a local operation and to an arriving message with a new state and messages
of its own (`Party`).  `Duplex.machine` interleaves the operations of both parties with arrivals on
both sides in every way, and `Duplex.Step` lists what one step can do.

The run is `Settled` when nothing is on its way.
-/

/-- One party.  It sends messages of the type `μ`, oldest first, and receives messages of the type
`ν`. -/
structure Party (σ α μ ν : Type*) where
  init : σ
  act : σ → α → Option (σ × List μ)
  receive : σ → ν → Option (σ × List μ)

/-- Two parties with the messages on their way, oldest first. -/
structure Duplex (σ τ μ ν : Type*) where
  left : σ
  right : τ
  toRight : List μ
  toLeft : List ν
  deriving DecidableEq, Repr

inductive DuplexEvent (α β : Type*)
  | left (op : α)
  | right (op : β)
  | arriveRight
  | arriveLeft
  deriving DecidableEq, Repr

/-- An operation of the left party. -/
def DuplexEvent.isLeft {α β : Type*} : DuplexEvent α β → Bool
  | .left _ => true
  | _ => false

namespace Duplex

variable {σ τ μ ν α β : Type*} (A : Party σ α μ ν) (B : Party τ β ν μ) (s : Duplex σ τ μ ν)

def step (s : Duplex σ τ μ ν) : DuplexEvent α β → Option (Duplex σ τ μ ν)
  | .left op => (A.act s.left op).map fun (a, sent) =>
    { s with left := a, toRight := s.toRight ++ sent }
  | .right op => (B.act s.right op).map fun (b, sent) =>
    { s with right := b, toLeft := s.toLeft ++ sent }
  | .arriveRight =>
    match s.toRight with
    | [] => none
    | m :: rest => (B.receive s.right m).map fun (b, sent) =>
      { s with right := b, toRight := rest, toLeft := s.toLeft ++ sent }
  | .arriveLeft =>
    match s.toLeft with
    | [] => none
    | m :: rest => (A.receive s.left m).map fun (a, sent) =>
      { s with left := a, toLeft := rest, toRight := s.toRight ++ sent }

def machine : Machine (Duplex σ τ μ ν) (DuplexEvent α β) := ⟨⟨A.init, B.init, [], []⟩, step A B⟩

/-- Nothing is on its way. -/
def Settled : Prop := s.toRight = [] ∧ s.toLeft = []

instance [DecidableEq μ] [DecidableEq ν] : Decidable s.Settled :=
  inferInstanceAs (Decidable (_ ∧ _))

/-- What one step can do. -/
inductive Step : DuplexEvent α β → Duplex σ τ μ ν → Prop
  | left {op : α} {a : σ} {sent : List μ} (acts : A.act s.left op = some (a, sent)) :
      Step (.left op) { s with left := a, toRight := s.toRight ++ sent }
  | right {op : β} {b : τ} {sent : List ν} (acts : B.act s.right op = some (b, sent)) :
      Step (.right op) { s with right := b, toLeft := s.toLeft ++ sent }
  | arriveRight {m : μ} {rest : List μ} {b : τ} {sent : List ν} (oldest : s.toRight = m :: rest)
      (receives : B.receive s.right m = some (b, sent)) :
      Step .arriveRight { s with right := b, toRight := rest, toLeft := s.toLeft ++ sent }
  | arriveLeft {m : ν} {rest : List ν} {a : σ} {sent : List μ} (oldest : s.toLeft = m :: rest)
      (receives : A.receive s.left m = some (a, sent)) :
      Step .arriveLeft { s with left := a, toLeft := rest, toRight := s.toRight ++ sent }

variable {A B s}

theorem step_sound {s' : Duplex σ τ μ ν} {e : DuplexEvent α β} (h : step A B s e = some s') :
    Step A B s e s' := by
  cases e with
  | left op =>
    obtain ⟨⟨a, sent⟩, acts, rfl⟩ := Option.map_eq_some_iff.1 h
    exact .left acts
  | right op =>
    obtain ⟨⟨b, sent⟩, acts, rfl⟩ := Option.map_eq_some_iff.1 h
    exact .right acts
  | arriveRight =>
    simp only [step] at h
    split at h
    · cases h
    · rename_i m rest oldest
      obtain ⟨⟨b, sent⟩, receives, rfl⟩ := Option.map_eq_some_iff.1 h
      exact .arriveRight oldest receives
  | arriveLeft =>
    simp only [step] at h
    split at h
    · cases h
    · rename_i m rest oldest
      obtain ⟨⟨a, sent⟩, receives, rfl⟩ := Option.map_eq_some_iff.1 h
      exact .arriveLeft oldest receives

end Duplex
