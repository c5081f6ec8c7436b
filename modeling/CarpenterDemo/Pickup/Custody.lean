import CarpenterDemo.Model.Character

/-!
# Custody: what the pickup code is for

The abstract life of one item: it is spawned, lies free, is carried by one character, and ends
either delivered or abandoned.  `Custody.Next` lists the moves.  Custody never moves back, so an
item is carried in one stretch only; it is abandoned by a character that leaves, and stays
abandoned.

`AItem.custody` reads the custody off an item of the model.  It looks at the item alone:
`CarpenterDemo.Pickup.Invariant` proves that the characters agree with it.
-/

namespace CarpenterDemo

/-- Who has an item. -/
inductive Custody (κ : Type*)
  | unspawned
  | free
  | carried (c : κ)
  | delivered
  | abandoned
  deriving DecidableEq, Repr

/-- What can be done about items. -/
inductive CustodyAction (κ : Type*)
  | spawn
  | pickUp (c : κ)
  | deliver (c : κ)
  | leave (c : κ)
  | other
  deriving DecidableEq, Repr

namespace Custody

variable {κ : Type*}

/-- The moves of one item's custody under an action, which may be about another item. -/
inductive Next : CustodyAction κ → Custody κ → Custody κ → Prop
  | stay (α : CustodyAction κ) (a : Custody κ) : Next α a a
  | spawn : Next .spawn unspawned free
  | pickUp (c : κ) : Next (.pickUp c) free (carried c)
  | deliver (c : κ) : Next (.deliver c) (carried c) delivered
  | abandon (c : κ) : Next (.leave c) (carried c) abandoned

/-- An abandoned item stays abandoned. -/
theorem Next.eq_abandoned {α : CustodyAction κ} {b : Custody κ} (h : Next α abandoned b) :
    b = abandoned := by
  cases h with
  | stay => rfl

/-- An item is abandoned only by a character that leaves with it. -/
theorem Next.abandoned_cases {α : CustodyAction κ} {a : Custody κ} (h : Next α a abandoned) :
    a = abandoned ∨ ∃ c, α = .leave c ∧ a = carried c := by
  cases h with
  | stay => exact Or.inl rfl
  | abandon c => exact Or.inr ⟨c, rfl, rfl⟩

end Custody

namespace AItem

variable {κ : Type*} (x : AItem κ)

/-- The custody that an item's own fields record. -/
def custody : Custody κ :=
  match x.life with
  | .unspawned => .unspawned
  | .pendingKill => .delivered
  | .alive =>
    if x.bPickedUp then
      match x.attachParent with
      | some c => .carried c
      | none => .abandoned
    else .free

theorem custody_eq_carried_iff (c : κ) :
    x.custody = .carried c ↔ x.life = .alive ∧ x.bPickedUp = true ∧ x.attachParent = some c := by
  unfold custody
  cases x.life <;> cases x.bPickedUp <;> cases x.attachParent <;> simp

theorem custody_eq_free_iff : x.custody = .free ↔ x.life = .alive ∧ x.bPickedUp = false := by
  unfold custody
  cases x.life <;> cases x.bPickedUp <;> cases x.attachParent <;> simp

theorem custody_eq_abandoned_iff :
    x.custody = .abandoned ↔ x.life = .alive ∧ x.bPickedUp = true ∧ x.attachParent = none := by
  unfold custody
  cases x.life <;> cases x.bPickedUp <;> cases x.attachParent <;> simp

theorem custody_of_unspawned (h : x.life = .unspawned) : x.custody = .unspawned := by
  simp [custody, h]

theorem custody_destroy : x.destroy.custody = .delivered := rfl

variable {x}

theorem custody_pickedUp (c : κ) (alive : x.life = .alive) :
    (x.attachToComponent c).pickedUp.custody = .carried c :=
  (custody_eq_carried_iff _ c).2 ⟨alive, rfl, rfl⟩

/-- Detaching an item takes it out of the custody of its carrier. -/
theorem custody_detach [DecidableEq κ] {c : κ} (attached : x.attachParent = some c) :
    { x with attachParent := none }.custody =
      if x.custody = .carried c then .abandoned else x.custody := by
  unfold custody
  cases x.life <;> cases x.bPickedUp <;> simp [attached]

theorem PickupFrame.custody_eq {y : AItem κ} (h : PickupFrame x y) : y.custody = x.custody := by
  simp only [custody, h.life, h.bPickedUp, h.attachParent]

end AItem

namespace World

variable {κ ι : Type*} (w : World κ ι)

/-- A living character whose `CarriedItem` is `i`. -/
def Carries (c : κ) (i : ι) : Prop :=
  (w.characters c).life = .alive ∧ (w.characters c).carriedItem = some i

instance [DecidableEq ι] (c : κ) (i : ι) : Decidable (w.Carries c i) :=
  inferInstanceAs (Decidable (_ ∧ _))

variable {w}

theorem Carries.item_unique {c : κ} {i j : ι} (hi : w.Carries c i) (hj : w.Carries c j) : i = j :=
  Option.some.inj (hi.2.symm.trans hj.2)

/-- A character's destruction takes the item in its custody out of it and touches no other. -/
theorem custody_destroyCharacter [DecidableEq κ] (w : World κ ι) (c : κ) (i : ι) :
    ((w.destroyCharacter c).items i).custody =
      if (w.items i).custody = .carried c then .abandoned else (w.items i).custody := by
  rw [items_destroyCharacter]
  by_cases attached : (w.items i).attachParent = some c
  · rw [if_pos attached]
    exact AItem.custody_detach attached
  · rw [if_neg attached, if_neg]
    exact fun e => attached ((AItem.custody_eq_carried_iff _ c).1 e).2.2

end World

end CarpenterDemo
