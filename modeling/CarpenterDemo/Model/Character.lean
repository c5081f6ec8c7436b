import CarpenterDemo.Model.Item
import Mathlib.Logic.Function.Basic

/-!
# Characters and the world of one machine

`ACarpenterDemoCharacter` with the pickup functions of `CarpenterDemoCharacter.cpp` and
`AItem::OnInteract_Implementation`.  These functions reach from a character to the item it carries
and back, so they act on a `World`: one machine's copies of all characters and items.  The same
functions run on the server and on every client, each on its own `World`.

A null pointer is `none`.  `deliveredItem` is partial: it dereferences `CarriedItem` unchecked.
Camera, movement and input binding are left out.
-/

namespace CarpenterDemo

/-- One machine's copy of a character, as far as carrying goes. -/
structure ACarpenterDemoCharacter (ι : Type*) where
  carriedItem : Option ι := none
  life : ActorLife := .unspawned
  deriving DecidableEq, Repr

/-- One machine's copies of all actors; `κ` names the characters and `ι` the items. -/
structure World (κ ι : Type*) where
  characters : κ → ACarpenterDemoCharacter ι
  items : ι → AItem κ

/-- A call of `Server_PickupItem` on its way to the server. -/
structure PickupCall (κ ι : Type*) where
  character : κ
  item : ι
  deriving DecidableEq, Repr

namespace World

section Functions

variable {κ ι : Type*} [DecidableEq κ] [DecidableEq ι] (w : World κ ι)

/-- The world in which no actor has been spawned. -/
def empty (κ ι : Type*) : World κ ι := ⟨fun _ => {}, fun _ => {}⟩

def modifyItem (i : ι) (f : AItem κ → AItem κ) : World κ ι :=
  { w with items := Function.update w.items i (f (w.items i)) }

def modifyCharacter (c : κ) (f : ACarpenterDemoCharacter ι → ACarpenterDemoCharacter ι) :
    World κ ι :=
  { w with characters := Function.update w.characters c (f (w.characters c)) }

def setCarriedItem (c : κ) (item : Option ι) : World κ ι :=
  w.modifyCharacter c fun x => { x with carriedItem := item }

/-! ## The functions of the character -/

def getItem (c : κ) : Option ι := (w.characters c).carriedItem

def hasItem (c : κ) : Bool := (w.characters c).carriedItem.isSome

def onRepCarriedItem (c : κ) : World κ ι :=
  match (w.characters c).carriedItem with
  | some i => w.modifyItem i fun x => (x.attachToComponent c).pickedUp
  | none => w

def serverPickupItemValidate (c : κ) (item : Option ι) : Bool :=
  match item with
  | some i => !(w.items i).isPickedUp && !w.hasItem c
  | none => false

def serverPickupItemImplementation (c : κ) (item : Option ι) : World κ ι :=
  (w.setCarriedItem c item).onRepCarriedItem c

def deliveredItem (c : κ) : Option (World κ ι) :=
  match (w.characters c).carriedItem with
  | some i => some (((w.modifyItem i AItem.destroy).setCarriedItem c none).onRepCarriedItem c)
  | none => none

/-- The engine's `AActor::Destroy` on a character: actors attached to it are detached. -/
def destroyCharacter (c : κ) : World κ ι :=
  let detached := { w with
    items := fun i =>
      if (w.items i).attachParent = some c then { w.items i with attachParent := none }
      else w.items i }
  detached.modifyCharacter c fun x => { x with life := .pendingKill }

/-- `AItem::OnInteract_Implementation` of the item `i`.  The argument is the interactor after the
cast to a character; the result is the remote call that is made, if any. -/
def onInteractImplementation (i : ι) (interactor : Option κ) : Option (PickupCall κ ι) :=
  match interactor with
  | some c =>
    if (w.getItem c).isSome || (w.items i).bPickedUp then none
    else some ⟨c, i⟩
  | none => none

end Functions

/-! ## Lookups after an update -/

section Items

variable {κ ι : Type*} [DecidableEq ι] (w : World κ ι)

@[simp] theorem items_modifyItem_self (i : ι) (f : AItem κ → AItem κ) :
    (w.modifyItem i f).items i = f (w.items i) := by simp [modifyItem]

theorem items_modifyItem_of_ne {i j : ι} (h : j ≠ i) (f : AItem κ → AItem κ) :
    (w.modifyItem i f).items j = w.items j := by simp [modifyItem, h]

@[simp] theorem characters_modifyItem (i : ι) (f : AItem κ → AItem κ) :
    (w.modifyItem i f).characters = w.characters := rfl

@[simp] theorem characters_onRepCarriedItem (c : κ) :
    (w.onRepCarriedItem c).characters = w.characters := by
  unfold onRepCarriedItem
  split <;> rfl

theorem onRepCarriedItem_of_none {c : κ} (h : (w.characters c).carriedItem = none) :
    w.onRepCarriedItem c = w := by
  unfold onRepCarriedItem
  rw [h]

theorem onRepCarriedItem_of_some {c : κ} {i : ι} (h : (w.characters c).carriedItem = some i) :
    w.onRepCarriedItem c = w.modifyItem i fun x => (x.attachToComponent c).pickedUp := by
  unfold onRepCarriedItem
  rw [h]

end Items

section Characters

variable {κ ι : Type*} [DecidableEq κ] (w : World κ ι)

@[simp] theorem items_modifyCharacter (c : κ)
    (f : ACarpenterDemoCharacter ι → ACarpenterDemoCharacter ι) :
    (w.modifyCharacter c f).items = w.items := rfl

@[simp] theorem characters_modifyCharacter_self (c : κ)
    (f : ACarpenterDemoCharacter ι → ACarpenterDemoCharacter ι) :
    (w.modifyCharacter c f).characters c = f (w.characters c) := by simp [modifyCharacter]

theorem characters_modifyCharacter_of_ne {c d : κ} (h : d ≠ c)
    (f : ACarpenterDemoCharacter ι → ACarpenterDemoCharacter ι) :
    (w.modifyCharacter c f).characters d = w.characters d := by simp [modifyCharacter, h]

@[simp] theorem items_setCarriedItem (c : κ) (item : Option ι) :
    (w.setCarriedItem c item).items = w.items := rfl

@[simp] theorem carriedItem_setCarriedItem_self (c : κ) (item : Option ι) :
    ((w.setCarriedItem c item).characters c).carriedItem = item := by simp [setCarriedItem]

theorem characters_setCarriedItem_of_ne {c d : κ} (h : d ≠ c) (item : Option ι) :
    (w.setCarriedItem c item).characters d = w.characters d :=
  w.characters_modifyCharacter_of_ne h _

@[simp] theorem life_setCarriedItem (c d : κ) (item : Option ι) :
    ((w.setCarriedItem c item).characters d).life = (w.characters d).life := by
  by_cases h : d = c
  · subst h; simp [setCarriedItem]
  · rw [characters_setCarriedItem_of_ne _ h]

theorem items_destroyCharacter (c : κ) (i : ι) :
    (w.destroyCharacter c).items i =
      if (w.items i).attachParent = some c then { w.items i with attachParent := none }
      else w.items i := rfl

theorem characters_destroyCharacter_self (c : κ) :
    (w.destroyCharacter c).characters c = { w.characters c with life := .pendingKill } := by
  simp [destroyCharacter]

theorem characters_destroyCharacter_of_ne {c d : κ} (h : d ≠ c) :
    (w.destroyCharacter c).characters d = w.characters d := by
  rw [destroyCharacter, characters_modifyCharacter_of_ne _ h]

end Characters

/-! ## What each function does -/

theorem serverPickupItemValidate_iff {κ ι : Type*} (w : World κ ι) (c : κ) (item : Option ι) :
    w.serverPickupItemValidate c item = true ↔
      ∃ i, item = some i ∧ (w.items i).bPickedUp = false ∧ (w.characters c).carriedItem = none := by
  cases item with
  | none => simp [serverPickupItemValidate]
  | some i => simp [serverPickupItemValidate, AItem.isPickedUp, hasItem]

theorem onInteractImplementation_eq_some_iff {κ ι : Type*} (w : World κ ι) (i : ι)
    (interactor : Option κ) (call : PickupCall κ ι) :
    w.onInteractImplementation i interactor = some call ↔
      interactor = some call.character ∧ call.item = i ∧
        (w.characters call.character).carriedItem = none ∧ (w.items i).bPickedUp = false := by
  cases interactor with
  | none => simp [onInteractImplementation]
  | some c =>
    have guard : ((w.getItem c).isSome || (w.items i).bPickedUp) = false ↔
        (w.characters c).carriedItem = none ∧ (w.items i).bPickedUp = false := by
      simp [getItem]
    simp only [onInteractImplementation]
    by_cases h : ((w.getItem c).isSome || (w.items i).bPickedUp) = true
    · rw [if_pos h]
      refine iff_of_false (by simp) ?_
      rintro ⟨hc, -, free⟩
      obtain rfl := Option.some.inj hc
      rw [guard.2 free] at h
      cases h
    · rw [if_neg h, Option.some.injEq]
      constructor
      · rintro rfl
        exact ⟨rfl, rfl, guard.1 (eq_false_of_ne_true h)⟩
      · rintro ⟨hc, rfl, -⟩
        rw [Option.some.inj hc]

variable {κ ι : Type*} [DecidableEq κ] [DecidableEq ι] (w : World κ ι)

/-- An accepted pickup assigns the item and marks and attaches it. -/
theorem serverPickupItemImplementation_some (c : κ) (i : ι) :
    w.serverPickupItemImplementation c (some i) =
      (w.setCarriedItem c (some i)).modifyItem i fun x => (x.attachToComponent c).pickedUp :=
  onRepCarriedItem_of_some _ (by simp)

/-- A delivery needs a carried item, which it destroys and lets go of. -/
theorem deliveredItem_eq_some_iff (c : κ) (w' : World κ ι) :
    w.deliveredItem c = some w' ↔ ∃ i, (w.characters c).carriedItem = some i ∧
      w' = (w.modifyItem i AItem.destroy).setCarriedItem c none := by
  unfold deliveredItem
  split <;> rename_i h
  · rename_i i
    rw [h, onRepCarriedItem_of_none _ (by simp)]
    simp [eq_comm]
  · simp [h]

end World

end CarpenterDemo
