import CarpenterDemo.Pickup.Ownership
import Mathlib.Data.List.Nodup

/-!
# What becomes of the items a player is given

`items_accounted_for`: every player delivers the items in the order in which they were assigned, one
at a time, so that what has been assigned and not been delivered is the item in the player's hands.
An item is delivered once, by the player it was assigned to.
-/

namespace CarpenterDemo

namespace Server

variable {κ ι : Type*} [DecidableEq κ] [DecidableEq ι]

/-- The item that a step delivers for the player `c`. -/
def handedOver (c : κ) (s : Server κ ι) : ServerEvent κ ι → List ι
  | .deliveredItem d => if d = c then (s.world.characters c).carriedItem.toList else []
  | _ => []

/-- The items that the player `c` delivers in a run, oldest first. -/
def deliveries (c : κ) (es : List (ServerEvent κ ι)) : List ι :=
  (machine κ ι).emitted (handedOver c) (machine κ ι).init es

/-- The items that have been assigned to the player `c`, oldest first. -/
def given (s : Server κ ι) (c : κ) : List ι :=
  (s.assigned.filter fun call => call.character = c).map PickupCall.item

variable {s s' : Server κ ι} {e : ServerEvent κ ι} {c : κ}

theorem handedOver_of_action {κ ι : Type*} [DecidableEq κ] {s : Server κ ι} {e : ServerEvent κ ι}
    (other : ∀ d, e.action ≠ .deliver d) (c : κ) : handedOver c s e = [] := by
  cases e with
  | deliveredItem d => exact absurd rfl (other d)
  | _ => rfl

theorem handedOver_of_carries {κ ι : Type*} [DecidableEq κ] {s : Server κ ι} {c : κ} {i : ι}
    (carries : s.world.Carries c i) :
    handedOver c s (.deliveredItem c) = [i] := by
  simp [handedOver, carries.2]

theorem handedOver_of_ne {κ ι : Type*} [DecidableEq κ] (s : Server κ ι) {c d : κ} (h : d ≠ c) :
    handedOver c s (.deliveredItem d) = [] := if_neg h

theorem given_accept_self (s : Server κ ι) (c : κ) (i : ι) :
    (s.accept c i).given c = s.given c ++ [i] := by
  simp [given, accept]

theorem given_accept_of_ne (s : Server κ ι) {c d : κ} (h : d ≠ c) (i : ι) :
    (s.accept d i).given c = s.given c := by
  simp [given, accept, h]

/-- The player `c` has delivered the items `delivered`, in this order. -/
structure Ledger (c : κ) (delivered : List ι) (s : Server κ ι) : Prop where
  balance : s.given c = delivered ++ (s.world.characters c).carriedItem.toList
  /-- A character that has not been spawned holds nothing. -/
  fresh : (s.world.characters c).life = .unspawned → (s.world.characters c).carriedItem = none

/-- A step that touches neither the log nor the character. -/
theorem Ledger.frame {κ ι : Type*} [DecidableEq κ] {s s' : Server κ ι} {c : κ}
    {delivered : List ι} (h : Ledger c delivered s)
    (assigned : s'.assigned = s.assigned)
    (same : s'.world.characters c = s.world.characters c) : Ledger c (delivered ++ []) s' := by
  constructor
  · rw [given, assigned, same, List.append_nil]
    exact h.balance
  · rw [same]
    exact h.fresh

theorem Ledger.step {delivered : List ι} (h : Ledger c delivered s) (hs : s.step e = some s') :
    Ledger c (delivered ++ handedOver c s e) s' := by
  cases step_sound hs with
  | repaint other frame =>
    rw [handedOver_of_action (by simp [other])]
    exact h.frame rfl rfl
  | spawnItem fresh => exact h.frame rfl rfl
  | @spawnCharacter d fresh =>
    by_cases hd : c = d
    · subst hd
      have balance := h.balance
      rw [h.fresh fresh] at balance
      refine ⟨?_, fun unspawned => ?_⟩
      · rw [World.characters_modifyCharacter_self]
        simpa [given, handedOver] using balance
      · rw [World.characters_modifyCharacter_self]
    · exact h.frame rfl (s.world.characters_modifyCharacter_of_ne hd fun _ => { life := .alive })
  | dropped invalid => exact h.frame rfl rfl
  | @accepted d i living emptyHanded spawned free =>
    by_cases hd : d = c
    · subst hd
      have balance := h.balance
      rw [emptyHanded] at balance
      refine ⟨?_, fun unspawned => ?_⟩
      · rw [given_accept_self, carriedItem_accept_self, balance]
        simp [handedOver]
      · rw [life_accept, living] at unspawned
        cases unspawned
    · refine ⟨?_, ?_⟩
      · rw [given_accept_of_ne s hd, characters_accept_of_ne _ _ _ (Ne.symm hd), h.balance]
        simp [handedOver]
      · rw [characters_accept_of_ne _ _ _ (Ne.symm hd)]
        exact h.fresh
  | @delivered d i carries =>
    by_cases hd : d = c
    · subst hd
      have balance := h.balance
      rw [carries.2] at balance
      refine ⟨?_, fun _ => carriedItem_deliver_self s d i⟩
      rw [handedOver_of_carries carries, carriedItem_deliver_self, Option.toList_none,
        List.append_nil]
      exact balance
    · rw [handedOver_of_ne _ hd]
      exact h.frame rfl (characters_deliver_of_ne _ _ _ (Ne.symm hd))
  | @left d living =>
    by_cases hd : c = d
    · subst hd
      refine ⟨?_, fun unspawned => ?_⟩
      · rw [World.characters_destroyCharacter_self]
        simpa [given, handedOver] using h.balance
      · rw [World.characters_destroyCharacter_self] at unspawned
        cases unspawned
    · exact h.frame rfl (s.world.characters_destroyCharacter_of_ne hd)

theorem ledger_of_run {es : List (ServerEvent κ ι)} (h : (machine κ ι).Run es s) (c : κ) :
    Ledger c (deliveries c es) s := by
  induction h with
  | nil => exact ⟨rfl, fun _ => rfl⟩
  | snoc hr hs ih =>
    rw [deliveries, Machine.emitted_snoc (handedOver c) (Machine.run_iff_exec.1 hr) hs]
    exact ih.step hs

/-- What a character held that has left is abandoned. -/
theorem abandoned_of_left {es : List (ServerEvent κ ι)} (h : (machine κ ι).Run es s) {i : ι}
    (left : (s.world.characters c).life = .pendingKill)
    (held : (s.world.characters c).carriedItem = some i) :
    (s.world.items i).custody = .abandoned := by
  induction h with
  | nil => cases left
  | @snoc es s s' e hr hs ih =>
    have inv := inv_of_run hr
    have before : (s.world.characters c).life = .pendingKill →
        (s.world.characters c).carriedItem = some i → (s'.world.items i).custody = .abandoned := by
      intro left held
      have moved := inv.next hs i
      rw [ih left held] at moved
      exact moved.eq_abandoned
    cases step_sound hs with
    | repaint | spawnItem | dropped => exact before left held
    | @spawnCharacter d fresh =>
      by_cases hd : c = d
      · subst hd
        rw [World.characters_modifyCharacter_self] at left
        cases left
      · rw [s.world.characters_modifyCharacter_of_ne hd] at left held
        exact before left held
    | @accepted d j living emptyHanded spawned free =>
      by_cases hd : c = d
      · subst hd
        rw [life_accept, living] at left
        cases left
      · rw [characters_accept_of_ne _ _ _ hd] at left held
        exact before left held
    | @delivered d j carries =>
      by_cases hd : c = d
      · subst hd
        rw [carriedItem_deliver_self] at held
        cases held
      · rw [characters_deliver_of_ne _ _ _ hd] at left held
        exact before left held
    | @left d living =>
      by_cases hd : c = d
      · subst hd
        rw [World.characters_destroyCharacter_self] at held
        have custody := (inv.carries c i).1 ⟨living, held⟩
        rw [World.custody_destroyCharacter, if_pos custody]
      · rw [s.world.characters_destroyCharacter_of_ne hd] at left held
        exact before left held

/-- An item is destroyed just when a step hands it over. -/
theorem Inv.delivered_step (h : s.Inv) (hs : s.step e = some s') (i : ι) :
    (s'.world.items i).custody = .delivered ↔
      (s.world.items i).custody = .delivered ∨ ∃ c, i ∈ handedOver c s e := by
  constructor
  · intro delivered
    have moved := h.next hs i
    rw [delivered] at moved
    generalize before : (s.world.items i).custody = a at moved
    generalize acts : e.action = α at moved
    cases moved with
    | stay => exact Or.inl rfl
    | deliver c =>
      have event : e = .deliveredItem c := by
        cases e <;> simp [ServerEvent.action] at acts
        rw [acts]
      have carries := (h.carries c i).2 before
      exact Or.inr ⟨c, by rw [event, handedOver_of_carries carries]; exact List.mem_cons_self⟩
  · rintro (delivered | ⟨c, hi⟩)
    · have moved := h.next hs i
      rw [delivered] at moved
      generalize (s'.world.items i).custody = b at moved
      generalize e.action = α at moved
      cases moved
      rfl
    · cases step_sound hs with
      | @delivered d j carries =>
        by_cases hd : d = c
        · subst hd
          rw [handedOver_of_carries carries, List.mem_singleton] at hi
          rw [hi, items_deliver_self, AItem.custody_destroy]
        · rw [handedOver_of_ne _ hd] at hi
          cases hi
      | repaint other frame =>
        rw [handedOver_of_action (by simp [other])] at hi
        cases hi
      | _ => cases hi

/-- In every reachable state, for every player: the items assigned to the player are those that the
player has delivered, in the order of the deliveries, followed by the one in the player's hands, if
any.  The items delivered by anybody are those whose custody says so, and none is delivered twice.
What a living player holds is in the player's custody, and what a player held who has left is
abandoned. -/
theorem items_accounted_for {es : List (ServerEvent κ ι)} (h : (machine κ ι).Run es s) :
    (∀ c, s.given c = deliveries c es ++ (s.world.characters c).carriedItem.toList) ∧
      (∀ i, (s.world.items i).custody = .delivered ↔ ∃ c, i ∈ deliveries c es) ∧
      (∀ c, (deliveries c es).Nodup) ∧
      (∀ c d i, i ∈ deliveries c es → i ∈ deliveries d es → c = d) ∧
      ∀ c i, (s.world.characters c).carriedItem = some i → (s.world.items i).custody =
        if (s.world.characters c).life = .alive then .carried c else .abandoned := by
  have inv := inv_of_run h
  have balance := fun c => (ledger_of_run h c).balance
  have assigned : ∀ c i, i ∈ deliveries c es → PickupCall.mk c i ∈ s.assigned := by
    intro c i hi
    have listed : i ∈ s.given c := by
      rw [balance c]
      exact List.mem_append_left _ hi
    obtain ⟨⟨d, j⟩, hd, rfl⟩ := List.mem_map.1 listed
    obtain ⟨hd, who⟩ := List.mem_filter.1 hd
    rw [← of_decide_eq_true who]
    exact hd
  refine ⟨balance, fun i => ?_, fun c => ?_, ?_, fun c i held => ?_⟩
  · clear balance assigned inv
    induction h with
    | nil =>
      refine iff_of_false ?_ ?_
      · simp [machine, World.empty, AItem.custody]
      · rintro ⟨c, hc⟩
        cases hc
    | snoc hr hs ih =>
      rw [(inv_of_run hr).delivered_step hs, ih, ← exists_or]
      refine exists_congr fun c => ?_
      rw [deliveries, deliveries, Machine.emitted_snoc (handedOver c)
        (Machine.run_iff_exec.1 hr) hs, List.mem_append]
  · have once : (s.assigned.map PickupCall.item).Nodup :=
      List.nodup_iff_count_le_one.2 fun i => (inv.items i).le_one
    have mine : (s.given c).Nodup := once.sublist (List.filter_sublist.map _)
    rw [balance c] at mine
    exact (List.nodup_append.1 mine).1
  · exact fun c d i hc hd => inv.assigned_unique (assigned c i hc) (assigned d i hd)
  · split_ifs with living
    · exact (inv.carries c i).1 ⟨living, held⟩
    · cases life : (s.world.characters c).life with
      | unspawned =>
        rw [(ledger_of_run h c).fresh life] at held
        cases held
      | alive => exact absurd life living
      | pendingKill => exact abandoned_of_left h life held

/-- The player 0 delivers two items and holds a third, while the player 1 leaves with one. -/
def threeGiven : List (ServerEvent ℕ ℕ) :=
  [.spawnCharacter 0, .spawnCharacter 1, .spawnItem 5, .spawnItem 6, .spawnItem 7, .spawnItem 8,
    .serverPickupItem 0 (some 6), .serverPickupItem 1 (some 5), .deliveredItem 0,
    .serverPickupItem 0 (some 5), .serverPickupItem 0 (some 8), .leave 1, .deliveredItem 0,
    .serverPickupItem 0 (some 7)]

theorem items_accounted_for_threeGiven : ∃ s, (machine ℕ ℕ).Run threeGiven s ∧
    s.given 0 = [6, 8, 7] ∧ deliveries 0 threeGiven = [6, 8] ∧
    s.given 0 = deliveries 0 threeGiven ++ (s.world.characters 0).carriedItem.toList := by
  have run := (machine ℕ ℕ).run_of_isSome threeGiven (by decide)
  exact ⟨_, run, by decide, by decide, (items_accounted_for run).1 0⟩

end Server

end CarpenterDemo
