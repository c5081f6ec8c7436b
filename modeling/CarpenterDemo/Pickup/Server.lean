import CarpenterDemo.Library.Machine
import CarpenterDemo.Pickup.Custody

/-!
# The server's runs

`Server.machine` interleaves everything that touches the actors on the server: spawning, painting,
`Server_PickupItem` calls with any argument from any player, deliveries and players leaving.  A call
that fails `Server_PickupItem_Validate` is dropped.

`Server.Step` lists what one step can do.  `Server.ItemStep` and `Server.CharacterStep` list what it
can make of one item and of one character.
-/

namespace CarpenterDemo

/-- What can happen on the server. -/
inductive ServerEvent (κ ι : Type*)
  | spawnItem (i : ι)
  | spawnCharacter (c : κ)
  | setItemInfo (i : ι) (info : FItemInfo)
  | setColor (i : ι) (color : FColor)
  | serverPickupItem (c : κ) (item : Option ι)
  | deliveredItem (c : κ)
  | leave (c : κ)
  deriving DecidableEq, Repr

/-- What an event does about items, abstractly. -/
def ServerEvent.action {κ ι : Type*} : ServerEvent κ ι → CustodyAction κ
  | .spawnItem _ => .spawn
  | .serverPickupItem c _ => .pickUp c
  | .deliveredItem c => .deliver c
  | .leave c => .leave c
  | _ => .other

/-- The server's world, with the log of all assignments of an item to a `CarriedItem`. -/
structure Server (κ ι : Type*) where
  world : World κ ι
  assigned : List (PickupCall κ ι)

namespace Server

variable {κ ι : Type*} [DecidableEq κ] [DecidableEq ι]

/-- A pointer to an item can only be null or name an item that has been spawned. -/
def namesSpawned (s : Server κ ι) (item : Option ι) : Bool :=
  item.all fun i => decide ((s.world.items i).life ≠ .unspawned)

/-- A `Server_PickupItem` call that has reached the server: validated, then executed or dropped. -/
def receivePickup (s : Server κ ι) (c : κ) (item : Option ι) : Server κ ι :=
  if s.world.serverPickupItemValidate c item then
    { world := s.world.serverPickupItemImplementation c item
      assigned := s.assigned ++ item.toList.map (PickupCall.mk c) }
  else s

def modifyItem (s : Server κ ι) (i : ι) (f : AItem κ → AItem κ) : Server κ ι :=
  { s with world := s.world.modifyItem i f }

def step (s : Server κ ι) : ServerEvent κ ι → Option (Server κ ι)
  | .spawnItem i =>
    if (s.world.items i).life = .unspawned then
      some (s.modifyItem i fun _ => { life := .alive })
    else none
  | .spawnCharacter c =>
    if (s.world.characters c).life = .unspawned then
      some { s with world := s.world.modifyCharacter c fun _ => { life := .alive } }
    else none
  | .setItemInfo i info =>
    if (s.world.items i).life = .alive then some (s.modifyItem i fun x => x.setItemInfo info)
    else none
  | .setColor i color =>
    if (s.world.items i).life = .alive then some (s.modifyItem i fun x => x.setColor color)
    else none
  | .serverPickupItem c item =>
    if (s.world.characters c).life = .alive ∧ s.namesSpawned item then
      some (s.receivePickup c item)
    else none
  | .deliveredItem c =>
    if (s.world.characters c).life = .alive then
      (s.world.deliveredItem c).map fun w => { s with world := w }
    else none
  | .leave c =>
    if (s.world.characters c).life = .alive then
      some { s with world := s.world.destroyCharacter c }
    else none

variable (κ ι) in
/-- The server from the start of the level. -/
def machine : Machine (Server κ ι) (ServerEvent κ ι) := ⟨⟨World.empty κ ι, []⟩, step⟩

/-! ## What one step can do -/

/-- The server after `c` has been given `i`. -/
def accept (s : Server κ ι) (c : κ) (i : ι) : Server κ ι :=
  { world := (s.world.setCarriedItem c (some i)).modifyItem i fun x =>
      (x.attachToComponent c).pickedUp
    assigned := s.assigned ++ [⟨c, i⟩] }

/-- The server after `c` has delivered `i`. -/
def deliver (s : Server κ ι) (c : κ) (i : ι) : Server κ ι :=
  { s with world := (s.world.modifyItem i AItem.destroy).setCarriedItem c none }

theorem items_modifyItem_self {κ ι : Type*} [DecidableEq ι] (s : Server κ ι) (i : ι)
    (f : AItem κ → AItem κ) : (s.modifyItem i f).world.items i = f (s.world.items i) :=
  s.world.items_modifyItem_self i f

theorem items_modifyItem_of_ne {κ ι : Type*} [DecidableEq ι] (s : Server κ ι) {i j : ι}
    (h : j ≠ i) (f : AItem κ → AItem κ) :
    (s.modifyItem i f).world.items j = s.world.items j :=
  s.world.items_modifyItem_of_ne h f

section Lookup

variable (s : Server κ ι) (c : κ) (i : ι)

theorem items_accept_self :
    (s.accept c i).world.items i = ((s.world.items i).attachToComponent c).pickedUp := by
  simp [accept]

theorem items_accept_of_ne {j : ι} (h : j ≠ i) :
    (s.accept c i).world.items j = s.world.items j := by
  simp [accept, World.items_modifyItem_of_ne _ h]

theorem characters_accept_self :
    (s.accept c i).world.characters c =
      { s.world.characters c with carriedItem := some i } := by
  simp [accept, World.setCarriedItem]

theorem carriedItem_accept_self :
    ((s.accept c i).world.characters c).carriedItem = some i := by
  rw [characters_accept_self]

theorem characters_accept_of_ne {d : κ} (h : d ≠ c) :
    (s.accept c i).world.characters d = s.world.characters d := by
  simp [accept, World.characters_setCarriedItem_of_ne _ h]

theorem life_accept (d : κ) :
    ((s.accept c i).world.characters d).life = (s.world.characters d).life := by
  simp [accept]

theorem items_deliver_self : (s.deliver c i).world.items i = (s.world.items i).destroy := by
  simp [deliver]

theorem items_deliver_of_ne {j : ι} (h : j ≠ i) :
    (s.deliver c i).world.items j = s.world.items j := by
  simp [deliver, World.items_modifyItem_of_ne _ h]

theorem characters_deliver_self :
    (s.deliver c i).world.characters c = { s.world.characters c with carriedItem := none } := by
  simp [deliver, World.setCarriedItem]

theorem carriedItem_deliver_self :
    ((s.deliver c i).world.characters c).carriedItem = none := by
  rw [characters_deliver_self]

theorem characters_deliver_of_ne {d : κ} (h : d ≠ c) :
    (s.deliver c i).world.characters d = s.world.characters d := by
  simp [deliver, World.characters_setCarriedItem_of_ne _ h]

end Lookup

inductive Step (s : Server κ ι) : ServerEvent κ ι → Server κ ι → Prop
  | repaint {e : ServerEvent κ ι} {i : ι} {f : AItem κ → AItem κ} (other : e.action = .other)
      (frame : ∀ x : AItem κ, x.PickupFrame (f x)) : Step s e (s.modifyItem i f)
  | spawnItem {i : ι} (fresh : (s.world.items i).life = .unspawned) :
      Step s (.spawnItem i) (s.modifyItem i fun _ => { life := .alive })
  | spawnCharacter {c : κ} (fresh : (s.world.characters c).life = .unspawned) :
      Step s (.spawnCharacter c)
        { s with world := s.world.modifyCharacter c fun _ => { life := .alive } }
  | dropped {c : κ} {item : Option ι} (invalid : s.world.serverPickupItemValidate c item = false) :
      Step s (.serverPickupItem c item) s
  | accepted {c : κ} {i : ι} (living : (s.world.characters c).life = .alive)
      (emptyHanded : (s.world.characters c).carriedItem = none)
      (spawned : (s.world.items i).life ≠ .unspawned) (free : (s.world.items i).bPickedUp = false) :
      Step s (.serverPickupItem c (some i)) (s.accept c i)
  | delivered {c : κ} {i : ι} (carries : s.world.Carries c i) :
      Step s (.deliveredItem c) (s.deliver c i)
  | left {c : κ} (living : (s.world.characters c).life = .alive) :
      Step s (.leave c) { s with world := s.world.destroyCharacter c }

theorem receivePickup_some_of_valid {s : Server κ ι} {c : κ} {i : ι}
    (h : s.world.serverPickupItemValidate c (some i) = true) :
    s.receivePickup c (some i) = s.accept c i := by
  rw [receivePickup, if_pos h, World.serverPickupItemImplementation_some]
  rfl

theorem step_sound {s s' : Server κ ι} {e : ServerEvent κ ι} (h : s.step e = some s') :
    s.Step e s' := by
  cases e with
  | spawnItem i =>
    simp only [step] at h
    split_ifs at h with fresh
    cases h
    exact .spawnItem fresh
  | spawnCharacter c =>
    simp only [step] at h
    split_ifs at h with fresh
    cases h
    exact .spawnCharacter fresh
  | setItemInfo i info =>
    simp only [step] at h
    split_ifs at h
    cases h
    exact .repaint rfl fun x => x.pickupFrame_setItemInfo info
  | setColor i color =>
    simp only [step] at h
    split_ifs at h
    cases h
    exact .repaint rfl fun x => x.pickupFrame_setColor color
  | serverPickupItem c item =>
    simp only [step] at h
    split_ifs at h with guard
    cases h
    by_cases valid : s.world.serverPickupItemValidate c item = true
    · obtain ⟨i, rfl, free, emptyHanded⟩ := (s.world.serverPickupItemValidate_iff c item).1 valid
      rw [receivePickup_some_of_valid valid]
      exact .accepted guard.1 emptyHanded (by simpa [namesSpawned] using guard.2) free
    · rw [receivePickup, if_neg valid]
      exact .dropped (eq_false_of_ne_true valid)
  | deliveredItem c =>
    simp only [step] at h
    split_ifs at h with living
    obtain ⟨w, hw, rfl⟩ := Option.map_eq_some_iff.1 h
    obtain ⟨i, hi, rfl⟩ := (s.world.deliveredItem_eq_some_iff c w).1 hw
    exact .delivered ⟨living, hi⟩
  | leave c =>
    simp only [step] at h
    split_ifs at h with living
    cases h
    exact .left living

/-! ## What one step does to one actor -/

/-- What a step can make of the item `j`. -/
inductive ItemStep (s : Server κ ι) (j : ι) : ServerEvent κ ι → AItem κ → Prop
  | framed {e : ServerEvent κ ι} {x : AItem κ} (frame : (s.world.items j).PickupFrame x) :
      ItemStep s j e x
  | spawned (fresh : (s.world.items j).life = .unspawned) :
      ItemStep s j (.spawnItem j) { life := .alive }
  | accepted {c : κ} (spawned : (s.world.items j).life ≠ .unspawned)
      (free : (s.world.items j).bPickedUp = false) :
      ItemStep s j (.serverPickupItem c (some j))
        ((s.world.items j).attachToComponent c).pickedUp
  | delivered {c : κ} (carries : s.world.Carries c j) :
      ItemStep s j (.deliveredItem c) (s.world.items j).destroy
  | detached {c : κ} (attached : (s.world.items j).attachParent = some c) :
      ItemStep s j (.leave c) { s.world.items j with attachParent := none }

theorem item_step {s s' : Server κ ι} {e : ServerEvent κ ι} (hs : s.step e = some s') (j : ι) :
    s.ItemStep j e (s'.world.items j) := by
  have unchanged {x : AItem κ} (h : x = s.world.items j) : s.ItemStep j e x :=
    h ▸ .framed (AItem.PickupFrame.refl _)
  cases step_sound hs with
  | @repaint _ i f other frame =>
    by_cases hj : j = i
    · subst hj
      rw [items_modifyItem_self]
      exact .framed (frame _)
    · exact unchanged (items_modifyItem_of_ne _ hj _)
  | @spawnItem i fresh =>
    by_cases hj : j = i
    · subst hj
      rw [items_modifyItem_self]
      exact .spawned fresh
    · exact unchanged (items_modifyItem_of_ne _ hj _)
  | spawnCharacter | dropped => exact unchanged rfl
  | @accepted c i living emptyHanded spawned free =>
    by_cases hj : j = i
    · subst hj
      rw [items_accept_self]
      exact .accepted spawned free
    · exact unchanged (items_accept_of_ne _ _ _ hj)
  | @delivered c i carries =>
    by_cases hj : j = i
    · subst hj
      rw [items_deliver_self]
      exact .delivered carries
    · exact unchanged (items_deliver_of_ne _ _ _ hj)
  | @left c living =>
    rw [World.items_destroyCharacter]
    split_ifs with attached
    · exact .detached attached
    · exact .framed (AItem.PickupFrame.refl _)

/-- What a step can make of the character `d`. -/
inductive CharacterStep (s : Server κ ι) (d : κ) :
    ServerEvent κ ι → ACarpenterDemoCharacter ι → Prop
  | same {e : ServerEvent κ ι} : CharacterStep s d e (s.world.characters d)
  | spawned (fresh : (s.world.characters d).life = .unspawned) :
      CharacterStep s d (.spawnCharacter d) { life := .alive }
  | accepted {i : ι} (emptyHanded : (s.world.characters d).carriedItem = none)
      (free : (s.world.items i).bPickedUp = false) :
      CharacterStep s d (.serverPickupItem d (some i))
        { s.world.characters d with carriedItem := some i }
  | delivered {i : ι} (carries : s.world.Carries d i) :
      CharacterStep s d (.deliveredItem d) { s.world.characters d with carriedItem := none }
  | left : CharacterStep s d (.leave d) { s.world.characters d with life := .pendingKill }

theorem character_step {s s' : Server κ ι} {e : ServerEvent κ ι} (hs : s.step e = some s')
    (d : κ) : s.CharacterStep d e (s'.world.characters d) := by
  have unchanged {x : ACarpenterDemoCharacter ι} (h : x = s.world.characters d) :
      s.CharacterStep d e x := h ▸ .same
  cases step_sound hs with
  | repaint | spawnItem | dropped => exact .same
  | @spawnCharacter c fresh =>
    by_cases hd : d = c
    · subst hd
      rw [World.characters_modifyCharacter_self]
      exact .spawned fresh
    · exact unchanged (s.world.characters_modifyCharacter_of_ne hd fun _ => { life := .alive })
  | @accepted c i living emptyHanded spawned free =>
    by_cases hd : d = c
    · subst hd
      rw [characters_accept_self]
      exact .accepted emptyHanded free
    · exact unchanged (characters_accept_of_ne _ _ _ hd)
  | @delivered c i carries =>
    by_cases hd : d = c
    · subst hd
      rw [characters_deliver_self]
      exact .delivered carries
    · exact unchanged (characters_deliver_of_ne _ _ _ hd)
  | @left c living =>
    by_cases hd : d = c
    · subst hd
      rw [World.characters_destroyCharacter_self]
      exact .left
    · exact unchanged (s.world.characters_destroyCharacter_of_ne hd)

/-! ## The assignment log -/

theorem assigned_of_pickup {s s' : Server κ ι} {c : κ} {i : ι}
    (hs : s.step (.serverPickupItem c (some i)) = some s')
    (valid : s.world.serverPickupItemValidate c (some i) = true) :
    s'.assigned = s.assigned ++ [⟨c, i⟩] := by
  cases step_sound hs with
  | repaint other => cases other
  | dropped invalid =>
    rw [valid] at invalid
    cases invalid
  | accepted => rfl

end Server

end CarpenterDemo
