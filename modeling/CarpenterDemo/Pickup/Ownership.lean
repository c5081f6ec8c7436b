import CarpenterDemo.Pickup.Invariant

/-!
# Who can have an item

* `carried_at_most_once`: whatever the players send, each item is assigned to a `CarriedItem` at
  most once, and pointers, flags, attachments and broadcasts agree.
* `noneLost_iff_leave_emptyHanded`: every item that has not been destroyed can be picked up or is
  being carried if and only if nobody has left while carrying.
-/

namespace CarpenterDemo

namespace Server

variable {κ ι : Type*} [DecidableEq κ] [DecidableEq ι]

/-! ## Exclusive carrying -/

/-- A pointer that changes to an item is logged as an assignment. -/
theorem assigned_of_change {s s' : Server κ ι} {e : ServerEvent κ ι} (hs : s.step e = some s')
    {c : κ} {i : ι} (before : (s.world.characters c).carriedItem ≠ some i)
    (after : (s'.world.characters c).carriedItem = some i) :
    s'.assigned = s.assigned ++ [⟨c, i⟩] := by
  have step := character_step hs c
  generalize s'.world.characters c = x at step after
  cases step with
  | same => exact absurd after before
  | spawned fresh => cases after
  | @accepted j emptyHanded free =>
    obtain rfl := Option.some.inj after
    exact assigned_of_pickup hs
      ((s.world.serverPickupItemValidate_iff c _).2 ⟨j, rfl, free, emptyHanded⟩)
  | delivered carries => cases after
  | left => exact absurd after before

/-- No step replaces the item that a character carries by another. -/
theorem carriedItem_step {s s' : Server κ ι} {e : ServerEvent κ ι} (hs : s.step e = some s')
    {c : κ} {i : ι} (h : s.world.Carries c i) :
    (s'.world.characters c).carriedItem = some i ∨ (s'.world.characters c).carriedItem = none := by
  have step := character_step hs c
  generalize s'.world.characters c = x at step
  cases step with
  | same => exact Or.inl h.2
  | spawned fresh => exact Or.inr rfl
  | accepted emptyHanded free =>
    rw [h.2] at emptyHanded
    cases emptyHanded
  | delivered carries => exact Or.inr rfl
  | left => exact Or.inl h.2

/-- In every reachable state, whatever calls the players have sent: each item has been assigned at
most once, where each change of a `CarriedItem` to an item counts; no two characters carry one item;
a carried item is alive, marked and attached to its carrier; it has been announced once for each
assignment; and the next step does not put another item in the place of a carried one. -/
theorem carried_at_most_once {es : List (ServerEvent κ ι)} {s : Server κ ι}
    (h : (machine κ ι).Run es s) :
    (∀ i, s.assignments i ≤ 1) ∧
      (∀ e s' c i, s.step e = some s' → (s.world.characters c).carriedItem ≠ some i →
        (s'.world.characters c).carriedItem = some i → s'.assignments i = s.assignments i + 1) ∧
      (∀ c d i, s.world.Carries c i → s.world.Carries d i → c = d) ∧
      (∀ c i, s.world.Carries c i → (s.world.items i).life = .alive ∧
        (s.world.items i).bPickedUp = true ∧ (s.world.items i).attachParent = some c) ∧
      (∀ i, (s.world.items i).onPickedUp = s.assignments i) ∧
      ∀ e s' c i, s.step e = some s' → s.world.Carries c i →
        (s'.world.characters c).carriedItem = some i ∨
          (s'.world.characters c).carriedItem = none := by
  have inv := inv_of_run h
  refine ⟨fun i => (inv.items i).le_one, ?_, ?_, ?_, fun i => (inv.items i).assigned.symm, ?_⟩
  · intro e s' c i hs before after
    rw [assignments, assigned_of_change hs before after]
    simp [assignments]
  · exact fun c d i hc hd => inv.carrier_unique hc hd
  · exact fun c i hc => (AItem.custody_eq_carried_iff _ c).1 ((inv.carries c i).1 hc)
  · exact fun e s' c i hs hc => carriedItem_step hs hc

/-- Two players ask for the item 5; the first of them gets it. -/
def contestedRun : List (ServerEvent ℕ ℕ) :=
  [.spawnCharacter 0, .spawnCharacter 1, .spawnItem 5, .serverPickupItem 0 (some 5),
    .serverPickupItem 1 (some 5)]

theorem carried_at_most_once_contested :
    ∃ s, (machine ℕ ℕ).Run contestedRun s ∧ s.world.Carries 0 5 ∧ s.assignments 5 ≤ 1 ∧
      (s.world.items 5).onPickedUp = s.assignments 5 := by
  have run := (machine ℕ ℕ).run_of_isSome contestedRun (by decide)
  have once := carried_at_most_once run
  exact ⟨_, run, by decide, once.1 5, once.2.2.2.2.1 5⟩

/-! ## The assignment log -/

section Log

variable {s s' : Server κ ι} {e : ServerEvent κ ι}

theorem assigned_subset_of_step (hs : s.step e = some s') : s.assigned ⊆ s'.assigned := by
  cases step_sound hs with
  | accepted => exact List.subset_append_left _ _
  | repaint | spawnItem | spawnCharacter | dropped | delivered | left => exact List.Subset.refl _

theorem Inv.assignments_eq {κ ι : Type*} [DecidableEq ι] {s : Server κ ι} (h : s.Inv) (i : ι) :
    s.assignments i = if (s.world.items i).bPickedUp then 1 else 0 :=
  (h.items i).assigned.trans (h.items i).announced

theorem Inv.bPickedUp_iff {κ ι : Type*} [DecidableEq ι] {s : Server κ ι} (h : s.Inv) (i : ι) :
    (s.world.items i).bPickedUp = true ↔ ∃ c, PickupCall.mk c i ∈ s.assigned := by
  have count := h.assignments_eq i
  constructor
  · intro marked
    rw [marked, if_pos rfl] at count
    have positive : 0 < (s.assigned.map PickupCall.item).count i := by
      rw [← assignments, count]
      omega
    obtain ⟨⟨c, j⟩, hc, rfl⟩ := List.mem_map.1 (List.count_pos_iff.1 positive)
    exact ⟨c, hc⟩
  · rintro ⟨c, hc⟩
    by_contra unmarked
    rw [if_neg unmarked] at count
    have absent := List.count_eq_zero.1 count
    exact absent (List.mem_map.2 ⟨⟨c, i⟩, hc, rfl⟩)

/-- An item is assigned to one character only. -/
theorem Inv.assigned_unique {κ ι : Type*} [DecidableEq ι] {s : Server κ ι} (h : s.Inv) {c d : κ}
    {i : ι} (hc : PickupCall.mk c i ∈ s.assigned) (hd : PickupCall.mk d i ∈ s.assigned) :
    c = d := by
  have single : (s.assigned.filter fun call => call.item = i).length ≤ 1 := by
    have once := (h.items i).le_one
    rwa [assignments, List.count_eq_countP, List.countP_map, List.countP_eq_length_filter] at once
  have mc : PickupCall.mk c i ∈ s.assigned.filter fun call => call.item = i := by simp [hc]
  have md : PickupCall.mk d i ∈ s.assigned.filter fun call => call.item = i := by simp [hd]
  obtain ⟨a, ha⟩ := List.length_eq_one_iff.1 (Nat.le_antisymm single (List.length_pos_of_mem mc))
  rw [ha, List.mem_singleton] at mc md
  exact congrArg PickupCall.character (mc.trans md.symm)

/-- A pointer changes to an item only if the item has never been assigned. -/
theorem Inv.fresh_of_change (h : s.Inv) (hs : s.step e = some s') {c : κ} {i : ι}
    (before : (s.world.characters c).carriedItem ≠ some i)
    (after : (s'.world.characters c).carriedItem = some i) (d : κ) :
    PickupCall.mk d i ∉ s.assigned := by
  intro hd
  have once := ((h.step hs).items i).le_one
  rw [assignments, assigned_of_change hs before after, List.map_append, List.count_append] at once
  have earlier : 0 < (s.assigned.map PickupCall.item).count i :=
    List.count_pos_iff.2 (List.mem_map.2 ⟨⟨d, i⟩, hd, rfl⟩)
  simp only [List.map_cons, List.map_nil, List.count_singleton_self] at once
  omega

/-- A mark is never taken back. -/
theorem Inv.bPickedUp_mono (h : s.Inv) (hs : s.step e = some s') {i : ι}
    (marked : (s.world.items i).bPickedUp = true) : (s'.world.items i).bPickedUp = true := by
  obtain ⟨c, hc⟩ := (h.bPickedUp_iff i).1 marked
  exact ((h.step hs).bPickedUp_iff i).2 ⟨c, assigned_subset_of_step hs hc⟩

/-- An item stays free for a character with empty hands until one of the two takes part in a
pickup. -/
theorem free_of_step (hs : s.step e = some s') {d : κ} {j : ι}
    (free : (s.world.items j).bPickedUp = false)
    (empty : (s.world.characters d).carriedItem = none)
    (other : ∀ c i, e = .serverPickupItem c (some i) → d ≠ c ∧ j ≠ i) :
    (s'.world.items j).bPickedUp = false ∧ (s'.world.characters d).carriedItem = none := by
  constructor
  · have step := item_step hs j
    generalize s'.world.items j = x at step
    cases step with
    | framed frame => exact frame.bPickedUp.trans free
    | spawned fresh => rfl
    | accepted spawned unmarked => exact absurd rfl (other _ _ rfl).2
    | delivered carries => exact free
    | detached attached => exact free
  · have step := character_step hs d
    generalize s'.world.characters d = x at step
    cases step with
    | same => exact empty
    | spawned fresh => rfl
    | accepted emptyHanded unmarked => exact absurd rfl (other _ _ rfl).1
    | delivered carries => rfl
    | left => exact empty

/-- A character lives until it leaves. -/
theorem living_of_step (hs : s.step e = some s') {d : κ}
    (living : (s.world.characters d).life = .alive) (stays : e ≠ .leave d) :
    (s'.world.characters d).life = .alive := by
  have step := character_step hs d
  generalize s'.world.characters d = x at step
  cases step with
  | same => exact living
  | spawned fresh => rfl
  | accepted emptyHanded free => exact living
  | delivered carries => exact living
  | left => exact absurd rfl stays

/-- An item that has been spawned is never unspawned again. -/
theorem spawned_of_step (hs : s.step e = some s') {j : ι}
    (spawned : (s.world.items j).life ≠ .unspawned) : (s'.world.items j).life ≠ .unspawned := by
  have step := item_step hs j
  generalize s'.world.items j = x at step
  cases step with
  | framed frame => exact fun e => spawned (frame.life.symm.trans e)
  | spawned fresh => exact absurd fresh spawned
  | accepted before free => exact before
  | delivered carries => exact ActorLife.noConfusion
  | detached attached => exact spawned

end Log

/-! ## Lost items -/

/-- Each item that has not been destroyed is free, so that any character with empty hands can pick
it up, or is carried by exactly one living character. -/
def NoneLost (s : Server κ ι) : Prop :=
  ∀ i, (s.world.items i).life = .alive →
    ((s.world.items i).bPickedUp = false ∧ ∀ c, (s.world.characters c).carriedItem = none →
      s.world.serverPickupItemValidate c (some i) = true) ∨
    ∃! c, s.world.Carries c i

/-- Nobody leaves while carrying. -/
def LeaveEmptyHanded (s : Server κ ι) (e : ServerEvent κ ι) : Prop :=
  ∀ c, e = .leave c → (s.world.characters c).carriedItem = none

instance (s : Server κ ι) (e : ServerEvent κ ι) : Decidable (LeaveEmptyHanded s e) :=
  match e with
  | .leave c => decidable_of_iff ((s.world.characters c).carriedItem = none) (by
      simp [LeaveEmptyHanded])
  | .spawnItem _ | .spawnCharacter _ | .setItemInfo .. | .setColor .. | .serverPickupItem ..
  | .deliveredItem _ => isTrue fun _ h => nomatch h

theorem Inv.noneLost_iff {κ ι : Type*} [DecidableEq ι] {s : Server κ ι} (h : s.Inv) :
    s.NoneLost ↔ ∀ i, (s.world.items i).custody ≠ .abandoned := by
  constructor
  · intro none i lost
    obtain ⟨alive, marked, detached⟩ := (AItem.custody_eq_abandoned_iff _).1 lost
    rcases none i alive with ⟨unmarked, -⟩ | ⟨c, hc, -⟩
    · rw [marked] at unmarked
      cases unmarked
    · rw [h.carries c i, lost] at hc
      cases hc
  · intro none i alive
    cases marked : (s.world.items i).bPickedUp with
    | false =>
      refine Or.inl ⟨rfl, fun c empty => ?_⟩
      exact (s.world.serverPickupItemValidate_iff c _).2 ⟨i, rfl, marked, empty⟩
    | true =>
      right
      cases attached : (s.world.items i).attachParent with
      | none =>
        have lost := (AItem.custody_eq_abandoned_iff _).2 ⟨alive, marked, attached⟩
        exact absurd lost (none i)
      | some c =>
        have hc : s.world.Carries c i :=
          (h.carries c i).2 ((AItem.custody_eq_carried_iff _ c).2 ⟨alive, marked, attached⟩)
        exact ⟨c, hc, fun d hd => h.carrier_unique hd hc⟩

/-- One step keeps all items from being abandoned just when nobody leaves with one. -/
theorem Inv.abandoned_step {s s' : Server κ ι} (h : s.Inv) {e : ServerEvent κ ι}
    (hs : s.step e = some s') :
    (∀ i, (s'.world.items i).custody ≠ .abandoned) ↔
      (∀ i, (s.world.items i).custody ≠ .abandoned) ∧ LeaveEmptyHanded s e := by
  constructor
  · intro none
    refine ⟨fun i lost => ?_, ?_⟩
    · have moved := h.next hs i
      rw [lost] at moved
      exact none i moved.eq_abandoned
    · rintro c rfl
      cases step_sound hs with
      | repaint other frame => cases other
      | left living =>
        cases held : (s.world.characters c).carriedItem with
        | none => rfl
        | some i =>
          have custody := (h.carries c i).1 ⟨living, held⟩
          refine absurd ?_ (none i)
          rw [World.custody_destroyCharacter, if_pos custody]
  · rintro ⟨none, leave⟩ i lost
    have moved := h.next hs i
    rw [lost] at moved
    rcases moved.abandoned_cases with lost | ⟨c, left, custody⟩
    · exact none i lost
    · have departs : e = .leave c := by
        cases e <;> simp [ServerEvent.action] at left
        rw [left]
      have held := (h.carries c i).2 custody
      rw [World.Carries, leave c departs] at held
      cases held.2

/-- After any run, no item is lost if and only if every player who left did so empty-handed. -/
theorem noneLost_iff_leave_emptyHanded {es : List (ServerEvent κ ι)} {s : Server κ ι}
    (h : (machine κ ι).Run es s) :
    s.NoneLost ↔ (machine κ ι).Along es LeaveEmptyHanded := by
  rw [(inv_of_run h).noneLost_iff]
  induction h with
  | nil =>
    refine iff_of_true (fun i => ?_) (Machine.along_nil _)
    simp [machine, World.empty, AItem.custody]
  | snoc hr hs ih =>
    rw [Machine.along_snoc_iff hr, ← ih]
    exact (inv_of_run hr).abandoned_step hs

/-- The player 0 picks up the item 5 and leaves. -/
def abandoningRun : List (ServerEvent ℕ ℕ) :=
  [.spawnCharacter 0, .spawnCharacter 1, .spawnItem 5, .serverPickupItem 0 (some 5), .leave 0]

theorem abandoningRun_loses_item : ∃ s, (machine ℕ ℕ).Run abandoningRun s ∧ ¬ s.NoneLost := by
  have run := (machine ℕ ℕ).run_of_isSome abandoningRun (by decide)
  refine ⟨_, run, fun none => ?_⟩
  have kept := (inv_of_run run).noneLost_iff.1 none 5
  exact kept (by decide)

/-- The player 0 delivers the item 5 before leaving, and the item 6 is left for the player 1. -/
def deliveringRun : List (ServerEvent ℕ ℕ) :=
  [.spawnCharacter 0, .spawnCharacter 1, .spawnItem 5, .spawnItem 6, .serverPickupItem 0 (some 5),
    .deliveredItem 0, .leave 0, .serverPickupItem 1 (some 6)]

theorem noneLost_iff_leave_emptyHanded_delivering :
    ∃ s, (machine ℕ ℕ).Run deliveringRun s ∧ s.NoneLost :=
  have run := (machine ℕ ℕ).run_of_isSome deliveringRun (by decide)
  have leave := (machine ℕ ℕ).along_of_check LeaveEmptyHanded deliveringRun (by decide)
  ⟨_, run, (noneLost_iff_leave_emptyHanded run).2 leave⟩

end Server

end CarpenterDemo
