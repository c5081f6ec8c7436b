import Mathlib.Tactic.Common

/-!
# The interacting part of a character

`CurrentInteractableActor` of `ACarpenterDemoCharacter`, with `CheckInteract`,
`NotifyActorBeginOverlap` and `NotifyActorEndOverlap`.  `α` names the actors around the character,
and `interactable` says which of them implement `UInteractableInterface`.  The calls that the
character makes on them through the interface are logged.
-/

namespace CarpenterDemo

/-- A call through `IInteractableInterface`, with the character as the interactor. -/
inductive InteractCall (α : Type*)
  | onInteract (a : α)
  | onInteractEnd (a : α)
  deriving DecidableEq, Repr

def InteractCall.actor {α : Type*} : InteractCall α → α
  | .onInteract a => a
  | .onInteractEnd a => a

structure Interactor (α : Type*) where
  currentInteractableActor : Option α := none
  /-- The calls made so far, oldest first. -/
  calls : List (InteractCall α) := []
  deriving DecidableEq, Repr

namespace Interactor

variable {α : Type*} (self : Interactor α)

def execute (call : InteractCall α) : Interactor α := { self with calls := self.calls ++ [call] }

def checkInteract : Interactor α :=
  match self.currentInteractableActor with
  | none => self
  | some a => self.execute (.onInteract a)

def notifyActorBeginOverlap (interactable : α → Bool) (otherActor : α) : Interactor α :=
  if interactable otherActor then { self with currentInteractableActor := some otherActor }
  else self

def notifyActorEndOverlap [DecidableEq α] (otherActor : α) : Interactor α :=
  if some otherActor = self.currentInteractableActor then
    { self.execute (.onInteractEnd otherActor) with currentInteractableActor := none }
  else self

/-! ## What each function does -/

variable {self} {a : α}

theorem checkInteract_of_some (h : self.currentInteractableActor = some a) :
    self.checkInteract = self.execute (.onInteract a) := by
  rw [checkInteract, h]

theorem checkInteract_of_none (h : self.currentInteractableActor = none) :
    self.checkInteract = self := by
  rw [checkInteract, h]

@[simp] theorem currentInteractableActor_checkInteract :
    self.checkInteract.currentInteractableActor = self.currentInteractableActor := by
  unfold checkInteract
  split <;> rfl

@[simp] theorem calls_notifyActorBeginOverlap (interactable : α → Bool) :
    (self.notifyActorBeginOverlap interactable a).calls = self.calls := by
  unfold notifyActorBeginOverlap
  split_ifs <;> rfl

/-- The end of the current actor's overlap ends the interaction with it. -/
theorem notifyActorEndOverlap_current [DecidableEq α] (h : self.currentInteractableActor = some a) :
    self.notifyActorEndOverlap a =
      { currentInteractableActor := none, calls := self.calls ++ [.onInteractEnd a] } := by
  rw [notifyActorEndOverlap, if_pos h.symm, execute]

theorem notifyActorEndOverlap_of_ne [DecidableEq α] (h : self.currentInteractableActor ≠ some a) :
    self.notifyActorEndOverlap a = self := if_neg h.symm

end Interactor

end CarpenterDemo
