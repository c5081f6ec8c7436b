import CarpenterDemo.Pickup.Server
import Mathlib.Data.List.Count

/-!
# The invariant of the server

`AItem.Consistent` relates the fields of one item to the number of times it has been assigned, and
`Server.Inv` adds that the characters' pointers agree with the items' custody.  Every step preserves
it (`Inv.step`), and every step moves the custody of each item along `Custody.Next` (`Inv.next`).
-/

namespace CarpenterDemo

namespace AItem

variable {κ : Type*}

/-- An item that has been assigned `n` times has announced it `n` times, and `n` is 1 or 0 as the
item is marked or not; it is not marked before it is spawned and marked when it is destroyed. -/
structure Consistent (x : AItem κ) (n : ℕ) : Prop where
  assigned : n = x.onPickedUp
  announced : x.onPickedUp = if x.bPickedUp then 1 else 0
  unspawned : x.life = .unspawned → x.bPickedUp = false
  destroyed : x.life = .pendingKill → x.bPickedUp = true

theorem consistent_of_unmarked {x : AItem κ} (unmarked : x.bPickedUp = false)
    (silent : x.onPickedUp = 0) (notDestroyed : x.life ≠ .pendingKill) : x.Consistent 0 :=
  ⟨silent.symm, by simp [unmarked, silent], fun _ => unmarked, fun h => absurd h notDestroyed⟩

namespace Consistent

variable {x : AItem κ} {n : ℕ}

theorem eq_zero (h : x.Consistent n) (unmarked : x.bPickedUp = false) : n = 0 := by
  rw [h.assigned, h.announced, unmarked]
  rfl

theorem le_one (h : x.Consistent n) : n ≤ 1 := by
  rw [h.assigned, h.announced]
  split <;> omega

theorem frame {y : AItem κ} (h : x.Consistent n) (hy : x.PickupFrame y) : y.Consistent n := by
  obtain ⟨h1, h2, h3, h4⟩ := h
  constructor <;> simpa only [hy.bPickedUp, hy.onPickedUp, hy.life]

/-- An unmarked item that has been spawned is alive. -/
theorem alive (h : x.Consistent n) (spawned : x.life ≠ .unspawned)
    (unmarked : x.bPickedUp = false) : x.life = .alive := by
  cases life : x.life with
  | unspawned => exact absurd life spawned
  | alive => rfl
  | pendingKill =>
    have marked := h.destroyed life
    rw [unmarked] at marked
    cases marked

theorem pickedUp (h : x.Consistent n) (spawned : x.life ≠ .unspawned)
    (unmarked : x.bPickedUp = false) (c : κ) :
    (x.attachToComponent c).pickedUp.Consistent (n + 1) := by
  obtain rfl := h.eq_zero unmarked
  have silent := h.assigned
  refine ⟨?_, ?_, fun e => absurd e spawned, fun _ => rfl⟩
  · rw [pickedUp_eq]
    simp [attachToComponent, ← silent]
  · rw [pickedUp_eq]
    simp [attachToComponent, ← silent]

theorem destroy (h : x.Consistent n) (marked : x.bPickedUp = true) : x.destroy.Consistent n :=
  ⟨h.assigned, h.announced, fun e => (by cases e), fun _ => marked⟩

theorem detach (h : x.Consistent n) (p : Option κ) : { x with attachParent := p }.Consistent n :=
  ⟨h.assigned, h.announced, h.unspawned, h.destroyed⟩

end Consistent

end AItem

namespace Server

/-- How often an item has been assigned to a `CarriedItem`. -/
def assignments {κ ι : Type*} [DecidableEq ι] (s : Server κ ι) (i : ι) : ℕ :=
  (s.assigned.map PickupCall.item).count i

structure Inv {κ ι : Type*} [DecidableEq ι] (s : Server κ ι) : Prop where
  /-- A living character points at an item exactly when the item is in its custody. -/
  carries : ∀ c i, s.world.Carries c i ↔ (s.world.items i).custody = .carried c
  items : ∀ i, (s.world.items i).Consistent (s.assignments i)

theorem inv_init {κ ι : Type*} [DecidableEq κ] [DecidableEq ι] : Inv (machine κ ι).init where
  carries c i := by simp [machine, World.empty, World.Carries, AItem.custody]
  items i := AItem.consistent_of_unmarked rfl rfl (by simp [machine, World.empty])

namespace Inv

variable {κ ι : Type*} [DecidableEq ι] {s : Server κ ι}

/-- Who carries an item can be read off the item. -/
theorem carrier_unique (h : s.Inv) {c d : κ} {i : ι} (hc : s.world.Carries c i)
    (hd : s.world.Carries d i) : c = d := by
  have e := ((h.carries c i).1 hc).symm.trans ((h.carries d i).1 hd)
  simpa using e

theorem not_carries_of_unmarked (h : s.Inv) {i : ι} (unmarked : (s.world.items i).bPickedUp = false)
    (c : κ) : ¬ s.world.Carries c i := by
  rw [h.carries c i, AItem.custody_eq_carried_iff, unmarked]
  simp

/-- To show the invariant after only the item `i` has changed. -/
theorem of_item (h : s.Inv) {s' : Server κ ι} (i : ι)
    (other : ∀ j, j ≠ i → s'.world.items j = s.world.items j)
    (count : ∀ j, j ≠ i → s'.assignments j = s.assignments j)
    (self : (s'.world.items i).Consistent (s'.assignments i))
    (carries : ∀ c j, s'.world.Carries c j ↔ (s'.world.items j).custody = .carried c) :
    s'.Inv := by
  refine ⟨carries, fun j => ?_⟩
  by_cases hj : j = i
  · rw [hj]
    exact self
  · rw [other j hj, count j hj]
    exact h.items j

/-- Changing the looks of an item. -/
theorem repaint (h : s.Inv) (i : ι) {f : AItem κ → AItem κ}
    (frame : ∀ x : AItem κ, x.PickupFrame (f x)) : (s.modifyItem i f).Inv := by
  have same : ∀ j, (s.world.items j).PickupFrame ((s.modifyItem i f).world.items j) := by
    intro j
    by_cases hj : j = i
    · subst hj
      rw [items_modifyItem_self]
      exact frame _
    · rw [items_modifyItem_of_ne _ hj]
      exact AItem.PickupFrame.refl _
  constructor
  · intro c j
    rw [(same j).custody_eq]
    exact h.carries c j
  · exact fun j => (h.items j).frame (same j)

theorem spawnItem (h : s.Inv) {i : ι} (fresh : (s.world.items i).life = .unspawned) :
    (s.modifyItem i fun _ => { life := .alive }).Inv := by
  have unmarked := (h.items i).unspawned fresh
  refine h.of_item i (fun j hj => items_modifyItem_of_ne _ hj _) (fun _ _ => rfl) ?_ fun c j => ?_
  · have never : (s.modifyItem i fun _ => { life := .alive }).assignments i = 0 :=
      (h.items i).eq_zero unmarked
    rw [items_modifyItem_self, never]
    exact AItem.consistent_of_unmarked rfl rfl (by simp)
  · by_cases hj : j = i
    · rw [hj, items_modifyItem_self]
      exact iff_of_false (h.not_carries_of_unmarked unmarked c) (by simp [AItem.custody])
    · rw [items_modifyItem_of_ne _ hj]
      exact h.carries c j

variable [DecidableEq κ]

theorem spawnCharacter (h : s.Inv) {c : κ} (fresh : (s.world.characters c).life = .unspawned) :
    Inv { s with world := s.world.modifyCharacter c fun _ => { life := .alive } } where
  carries d i := by
    refine Iff.trans ?_ (h.carries d i)
    by_cases hd : d = c
    · subst hd
      simp [World.Carries, fresh]
    · simp only [World.Carries, World.characters_modifyCharacter_of_ne _ hd]
  items := h.items

theorem accept (h : s.Inv) {c : κ} {i : ι} (living : (s.world.characters c).life = .alive)
    (emptyHanded : (s.world.characters c).carriedItem = none)
    (spawned : (s.world.items i).life ≠ .unspawned) (free : (s.world.items i).bPickedUp = false) :
    (s.accept c i).Inv := by
  have alive := (h.items i).alive spawned free
  have taken : ((s.accept c i).world.items i).custody = .carried c := by
    rw [items_accept_self]
    exact AItem.custody_pickedUp c alive
  have logged : ∀ j, (s.accept c i).assignments j = s.assignments j + if i = j then 1 else 0 := by
    intro j
    simp [Server.accept, assignments, List.count_singleton]
  refine h.of_item i (fun j hj => items_accept_of_ne _ _ _ hj) (fun j hj => ?_) ?_ fun d j => ?_
  · rw [logged j, if_neg (Ne.symm hj), Nat.add_zero]
  · rw [items_accept_self, logged i, if_pos rfl]
    exact (h.items i).pickedUp spawned free c
  · by_cases hd : d = c
    · subst hd
      have mine : (s.accept d i).world.Carries d j ↔ j = i := by
        simp [World.Carries, life_accept, carriedItem_accept_self, living, eq_comm]
      rw [mine]
      by_cases hj : j = i
      · rw [hj]
        exact iff_of_true rfl taken
      · -- the character's hands were empty, so nothing else was in its custody
        rw [items_accept_of_ne _ _ _ hj, ← h.carries d j]
        exact iff_of_false hj fun hc => by simp [hc.2] at emptyHanded
    · have theirs : (s.accept c i).world.Carries d j ↔ s.world.Carries d j := by
        simp only [World.Carries, characters_accept_of_ne _ _ _ hd]
      rw [theirs]
      by_cases hj : j = i
      · rw [hj, taken]
        exact iff_of_false (h.not_carries_of_unmarked free d) (by simpa using Ne.symm hd)
      · rw [items_accept_of_ne _ _ _ hj]
        exact h.carries d j

theorem deliver (h : s.Inv) {c : κ} {i : ι} (carries : s.world.Carries c i) :
    (s.deliver c i).Inv := by
  obtain ⟨-, marked, -⟩ := (AItem.custody_eq_carried_iff _ c).1 ((h.carries c i).1 carries)
  have gone : ∀ d, ((s.deliver c i).world.items i).custody ≠ .carried d := by
    intro d
    rw [items_deliver_self, AItem.custody_destroy]
    simp
  refine h.of_item i (fun j hj => items_deliver_of_ne _ _ _ hj) (fun _ _ => rfl) ?_ fun d j => ?_
  · rw [items_deliver_self]
    exact (h.items i).destroy marked
  · by_cases hd : d = c
    · subst hd
      have mine : ¬ (s.deliver d i).world.Carries d j := by
        simp [World.Carries, carriedItem_deliver_self]
      refine iff_of_false mine ?_
      by_cases hj : j = i
      · rw [hj]
        exact gone d
      · rw [items_deliver_of_ne _ _ _ hj, ← h.carries d j]
        exact fun hc => hj (hc.item_unique carries)
    · have theirs : (s.deliver c i).world.Carries d j ↔ s.world.Carries d j := by
        simp only [World.Carries, characters_deliver_of_ne _ _ _ hd]
      rw [theirs]
      by_cases hj : j = i
      · rw [hj]
        exact iff_of_false (fun hc => hd (h.carrier_unique hc carries)) (gone d)
      · rw [items_deliver_of_ne _ _ _ hj]
        exact h.carries d j

theorem leave (h : s.Inv) (c : κ) : Inv { s with world := s.world.destroyCharacter c } where
  carries d i := by
    rw [World.custody_destroyCharacter _ c i]
    by_cases hd : d = c
    · subst hd
      have gone : ¬ (s.world.destroyCharacter d).Carries d i := by
        simp [World.destroyCharacter, World.Carries]
      refine iff_of_false gone ?_
      split_ifs with e
      · simp
      · exact e
    · have stays : (s.world.destroyCharacter c).Carries d i ↔ s.world.Carries d i := by
        simp only [World.destroyCharacter, World.Carries,
          World.characters_modifyCharacter_of_ne _ hd]
      rw [stays, h.carries d i]
      split_ifs with e
      · rw [e]
        exact iff_of_false (by simpa using Ne.symm hd) (by simp)
      · exact Iff.rfl
  items i := by
    change ((s.world.destroyCharacter c).items i).Consistent (s.assignments i)
    rw [World.items_destroyCharacter]
    split_ifs
    · exact (h.items i).detach none
    · exact h.items i

/-- Every step preserves the invariant. -/
theorem step (h : s.Inv) {e : ServerEvent κ ι} {s' : Server κ ι} (hs : s.step e = some s') :
    s'.Inv := by
  cases step_sound hs with
  | repaint other frame => exact h.repaint _ frame
  | spawnItem fresh => exact h.spawnItem fresh
  | spawnCharacter fresh => exact h.spawnCharacter fresh
  | dropped invalid => exact h
  | accepted living emptyHanded spawned free => exact h.accept living emptyHanded spawned free
  | delivered carries => exact h.deliver carries
  | left living => exact h.leave _

/-- Every step moves the custody of every item along `Custody.Next`. -/
theorem next (h : s.Inv) {e : ServerEvent κ ι} {s' : Server κ ι} (hs : s.step e = some s') (i : ι) :
    Custody.Next e.action (s.world.items i).custody (s'.world.items i).custody := by
  have step := item_step hs i
  generalize s'.world.items i = x at step
  cases step with
  | framed frame =>
    rw [frame.custody_eq]
    exact .stay _ _
  | spawned fresh =>
    rw [AItem.custody_of_unspawned _ fresh]
    exact .spawn
  | @accepted c spawned free =>
    have alive := (h.items i).alive spawned free
    rw [(AItem.custody_eq_free_iff _).2 ⟨alive, free⟩, AItem.custody_pickedUp c alive]
    exact .pickUp c
  | @delivered c carries =>
    rw [AItem.custody_destroy, (h.carries c i).1 carries]
    exact .deliver c
  | @detached c attached =>
    rw [AItem.custody_detach attached]
    split_ifs with carried
    · rw [carried]
      exact .abandon c
    · exact .stay _ _

end Inv

theorem inv_of_run {κ ι : Type*} [DecidableEq κ] [DecidableEq ι] {s : Server κ ι}
    {es : List (ServerEvent κ ι)} (h : (machine κ ι).Run es s) :
    s.Inv :=
  h.invariant inv_init fun hi hs => hi.step hs

end Server

end CarpenterDemo
