import Mathlib.Tactic.Common

/-!
# Items

`AItem` with the functions of `Item.cpp`.  A value of `AItem κ` is one machine's copy of the actor;
`κ` names the characters an item can be attached to.  The engine's part of the state is the place
in the actor's life (`ActorLife`), the attachment parent and the number of times the delegate
`OnPickedUp` has been broadcast on this machine.  The mesh and the interaction sphere are left out.
-/

namespace CarpenterDemo

/-- Where an actor is in its life.  `AActor::Destroy` marks it pending kill; it is never revived. -/
inductive ActorLife
  | unspawned
  | alive
  | pendingKill
  deriving DecidableEq, Repr

/-- `EItemShapes`.  `none` is only the default of a struct that has not been filled in. -/
inductive EItemShapes
  | none
  | sphere
  | cube
  deriving DecidableEq, Repr

structure FColor where
  r : UInt8
  g : UInt8
  b : UInt8
  a : UInt8 := 255
  deriving DecidableEq, Repr

/-- The engine constant `FColor::Silver`. -/
def FColor.silver : FColor := { r := 189, g := 195, b := 199 }

structure FItemInfo where
  itemColor : FColor := FColor.silver
  itemShape : EItemShapes := .none
  deriving DecidableEq, Repr

/-- A dynamic material instance, with the value last given to its vector parameter "Color". -/
structure UMaterialInstanceDynamic where
  color : Option FColor := none
  deriving DecidableEq, Repr

def UMaterialInstanceDynamic.setColor (_ : UMaterialInstanceDynamic) (c : FColor) :
    UMaterialInstanceDynamic :=
  { color := some c }

/-- One machine's copy of an item. -/
structure AItem (κ : Type*) where
  itemInfo : FItemInfo := {}
  materialInstanceDynamic : Option UMaterialInstanceDynamic := none
  bPickedUp : Bool := false
  /-- How often the delegate `OnPickedUp` has been broadcast. -/
  onPickedUp : ℕ := 0
  /-- The character whose `ItemPickupAttachSceneComponent` the item is attached to. -/
  attachParent : Option κ := none
  life : ActorLife := .unspawned
  deriving DecidableEq, Repr

namespace AItem

variable {κ : Type*} (self : AItem κ)

def getItemInfo : FItemInfo := self.itemInfo

def isPickedUp : Bool := self.bPickedUp

/-! ## Color -/

def updateColor : AItem κ :=
  -- the instance is created on the first call and kept
  let material := self.materialInstanceDynamic.getD {}
  { self with materialInstanceDynamic := some (material.setColor self.itemInfo.itemColor) }

def onRepItemInfo : AItem κ := self.updateColor

def setItemInfo (newItemInfo : FItemInfo) : AItem κ :=
  { self with itemInfo := newItemInfo }.onRepItemInfo

def setColor (newColor : FColor) : AItem κ :=
  { self with itemInfo := { self.itemInfo with itemColor := newColor } }.onRepItemInfo

/-! ## Being picked up -/

def onRepBPickedUp : AItem κ :=
  if !self.bPickedUp then self
  else { self with onPickedUp := self.onPickedUp + 1 }

def pickedUp : AItem κ := { self with bPickedUp := true }.onRepBPickedUp

/-! ## The engine's operations on an item -/

/-- `AttachToComponent` with the attach component of the character `c`. -/
def attachToComponent (c : κ) : AItem κ := { self with attachParent := some c }

/-- `AActor::Destroy`, which also detaches the actor from its parent. -/
def destroy : AItem κ := { self with life := .pendingKill, attachParent := none }

/-! ## What each operation does to the pickup state -/

theorem pickedUp_eq :
    self.pickedUp = { self with bPickedUp := true, onPickedUp := self.onPickedUp + 1 } := rfl

/-- The two copies agree on everything but their looks. -/
structure PickupFrame (x y : AItem κ) : Prop where
  bPickedUp : y.bPickedUp = x.bPickedUp
  onPickedUp : y.onPickedUp = x.onPickedUp
  attachParent : y.attachParent = x.attachParent
  life : y.life = x.life

theorem PickupFrame.refl : PickupFrame self self := ⟨rfl, rfl, rfl, rfl⟩

theorem pickupFrame_setItemInfo (info : FItemInfo) : PickupFrame self (self.setItemInfo info) :=
  ⟨rfl, rfl, rfl, rfl⟩

theorem pickupFrame_setColor (c : FColor) : PickupFrame self (self.setColor c) :=
  ⟨rfl, rfl, rfl, rfl⟩

end AItem

end CarpenterDemo
