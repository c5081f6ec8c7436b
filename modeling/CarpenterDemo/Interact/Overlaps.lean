import CarpenterDemo.Library.Machine
import CarpenterDemo.Library.Presence
import CarpenterDemo.Model.Interactor

/-!
# Overlaps and the interact key

`Surroundings.machine` is one character with the actors around it.  Actors begin and end to overlap
the character in any order, any number at once, and the interact key is pressed in between; begin
and end alternate for each actor.

`Inv.current`: `CurrentInteractableActor` is the focus of the overlapping actors, the last
interactable one to have begun as long as it overlaps.  What follows from it:

* `calls_in_reach`: the character only ever calls an interactable actor that overlaps it.
* `key_works_iff_leaves_alone`: the key works whenever something is in reach just when the focus
  only ever leaves as the last interactable actor.
* `interactions_end_iff_still_latest`: every interaction is ended with its overlap just when the
  actor is then still the last interactable one to have begun.
-/

namespace CarpenterDemo

inductive OverlapEvent (α : Type*)
  | beginOverlap (a : α)
  | endOverlap (a : α)
  | interact
  deriving DecidableEq, Repr

/-- One character and the actors around it. -/
structure Surroundings (α : Type*) where
  character : Interactor α := {}
  /-- The actors that overlap the character, and all that have ever begun to. -/
  overlaps : Presence α := {}
  /-- The actors that have received `OnInteract` since they began to overlap. -/
  interacted : List α := []

namespace Surroundings

variable {α : Type*} [DecidableEq α] {interactable : α → Bool}

def step (interactable : α → Bool) (s : Surroundings α) :
    OverlapEvent α → Option (Surroundings α)
  | .beginOverlap a =>
    if a ∈ s.overlaps.present then none
    else some { s with
      character := s.character.notifyActorBeginOverlap interactable a
      overlaps := s.overlaps.arrive a }
  | .endOverlap a =>
    if a ∈ s.overlaps.present then
      some {
        character := s.character.notifyActorEndOverlap a
        overlaps := s.overlaps.depart a
        interacted := s.interacted.filter (· ≠ a) }
    else none
  | .interact =>
    some { s with
      character := s.character.checkInteract
      interacted := s.interacted ++ s.character.currentInteractableActor.toList }

def machine (interactable : α → Bool) : Machine (Surroundings α) (OverlapEvent α) :=
  ⟨{}, step interactable⟩

/-! ## What one step can do -/

inductive Step (interactable : α → Bool) (s : Surroundings α) :
    OverlapEvent α → Surroundings α → Prop
  | began {a : α} : Step interactable s (.beginOverlap a) { s with
      character := s.character.notifyActorBeginOverlap interactable a
      overlaps := s.overlaps.arrive a }
  | ended {a : α} (present : a ∈ s.overlaps.present) : Step interactable s (.endOverlap a) {
      character := s.character.notifyActorEndOverlap a
      overlaps := s.overlaps.depart a
      interacted := s.interacted.filter (· ≠ a) }
  | pressed : Step interactable s .interact { s with
      character := s.character.checkInteract
      interacted := s.interacted ++ s.character.currentInteractableActor.toList }

theorem step_sound {s s' : Surroundings α} {e : OverlapEvent α}
    (h : s.step interactable e = some s') : s.Step interactable e s' := by
  cases e with
  | beginOverlap a =>
    simp only [step] at h
    split_ifs at h
    cases h
    exact .began
  | endOverlap a =>
    simp only [step] at h
    split_ifs at h with present
    cases h
    exact .ended present
  | interact =>
    cases h
    exact .pressed

/-- The calls that an event makes. -/
def made (s : Surroundings α) : OverlapEvent α → List (InteractCall α)
  | .beginOverlap _ => []
  | .endOverlap a =>
    if s.character.currentInteractableActor = some a then [.onInteractEnd a] else []
  | .interact => s.character.currentInteractableActor.toList.map .onInteract

theorem calls_of_step {s s' : Surroundings α} {e : OverlapEvent α}
    (hs : s.step interactable e = some s') :
    s'.character.calls = s.character.calls ++ s.made e := by
  cases step_sound hs with
  | began => simp [made]
  | @ended a present =>
    by_cases current : s.character.currentInteractableActor = some a
    · simp [made, current, Interactor.notifyActorEndOverlap_current current]
    · simp [made, current, Interactor.notifyActorEndOverlap_of_ne current]
  | pressed =>
    cases current : s.character.currentInteractableActor with
    | none => simp [made, current, Interactor.checkInteract_of_none current]
    | some a => simp [made, current, Interactor.checkInteract_of_some current, Interactor.execute]

/-- Every call is made on the current actor. -/
theorem current_of_made {α : Type*} [DecidableEq α] {s : Surroundings α} {e : OverlapEvent α}
    {call : InteractCall α} (h : call ∈ s.made e) :
    s.character.currentInteractableActor = some call.actor := by
  cases e with
  | beginOverlap a => cases h
  | endOverlap a =>
    simp only [made] at h
    split_ifs at h with current
    · rw [List.mem_singleton.1 h]
      exact current
    · cases h
  | interact =>
    obtain ⟨a, current, rfl⟩ := List.mem_map.1 h
    exact Option.mem_toList.1 current

/-! ## The invariant -/

structure Inv (interactable : α → Bool) (s : Surroundings α) : Prop where
  current : s.character.currentInteractableActor = s.overlaps.focus interactable
  interacted : ∀ a ∈ s.interacted, a ∈ s.overlaps.present

theorem inv_init : (machine interactable).init.Inv interactable where
  current := rfl
  interacted _ ha := nomatch ha

namespace Inv

variable {s s' : Surroundings α}

theorem beginOverlap (h : s.Inv interactable) (a : α) :
    Inv interactable { s with
      character := s.character.notifyActorBeginOverlap interactable a
      overlaps := s.overlaps.arrive a } := by
  refine ⟨?_, fun b hb => s.overlaps.mem_arrive.2 (Or.inl (h.interacted b hb))⟩
  show (s.character.notifyActorBeginOverlap interactable a).currentInteractableActor =
    (s.overlaps.arrive a).focus interactable
  unfold Interactor.notifyActorBeginOverlap
  split_ifs with interest
  · exact (Presence.focus_arrive_of_pos interest).symm
  · rw [Presence.focus_arrive_of_neg (eq_false_of_ne_true interest)]
    exact h.current

theorem endOverlap (h : s.Inv interactable) (a : α) :
    Inv interactable {
      character := s.character.notifyActorEndOverlap a
      overlaps := s.overlaps.depart a
      interacted := s.interacted.filter (· ≠ a) } := by
  constructor
  · show (s.character.notifyActorEndOverlap a).currentInteractableActor =
      (s.overlaps.depart a).focus interactable
    by_cases current : s.character.currentInteractableActor = some a
    · -- the pointer is cleared, whoever else overlaps, and so is the focus
      rw [Interactor.notifyActorEndOverlap_current current,
        Presence.focus_depart_self (h.current ▸ current)]
    · rw [Interactor.notifyActorEndOverlap_of_ne current,
        Presence.focus_depart_of_ne (h.current ▸ current)]
      exact h.current
  · intro b hb
    obtain ⟨hb, other⟩ := List.mem_filter.1 hb
    exact s.overlaps.mem_depart.2 ⟨h.interacted b hb, of_decide_eq_true other⟩

theorem step (h : s.Inv interactable) {e : OverlapEvent α} (hs : s.step interactable e = some s') :
    s'.Inv interactable := by
  cases step_sound hs with
  | @began a => exact h.beginOverlap a
  | @ended a present => exact h.endOverlap a
  | pressed =>
    refine ⟨Interactor.currentInteractableActor_checkInteract.trans h.current, fun a ha => ?_⟩
    rcases List.mem_append.1 ha with ha | ha
    · exact h.interacted a ha
    · have current := Option.mem_toList.1 ha
      rw [h.current] at current
      exact (Presence.focus_eq_some_iff.1 current).2

end Inv

theorem inv_of_run {es : List (OverlapEvent α)} {s : Surroundings α}
    (h : (machine interactable).Run es s) : s.Inv interactable :=
  h.invariant inv_init fun hi hs => hi.step hs

/-! ## What is reached -/

/-- In every reachable state `CurrentInteractableActor` is null or an interactable actor that
overlaps the character, the last interactable one to have begun.  So no event makes a call on an
actor that is not interactable or does not overlap the character before the event. -/
theorem calls_in_reach {es : List (OverlapEvent α)} {s : Surroundings α}
    (h : (machine interactable).Run es s) :
    (∀ a, s.character.currentInteractableActor = some a →
      interactable a = true ∧ a ∈ s.overlaps.present ∧ s.overlaps.latest interactable = some a) ∧
    ∀ e s', s.step interactable e = some s' →
      ∃ calls, s'.character.calls = s.character.calls ++ calls ∧
        ∀ call ∈ calls, interactable call.actor = true ∧ call.actor ∈ s.overlaps.present := by
  have inv := inv_of_run h
  have reach : ∀ a, s.character.currentInteractableActor = some a →
      interactable a = true ∧ a ∈ s.overlaps.present ∧
        s.overlaps.latest interactable = some a := by
    intro a current
    rw [inv.current] at current
    obtain ⟨latest, present⟩ := Presence.focus_eq_some_iff.1 current
    exact ⟨Presence.of_latest latest, present, latest⟩
  refine ⟨reach, fun e s' hs => ⟨s.made e, calls_of_step hs, fun call hcall => ?_⟩⟩
  obtain ⟨interest, present, -⟩ := reach call.actor (current_of_made hcall)
  exact ⟨interest, present⟩

/-- The actor 7 is a wall.  The key is pressed next to the tables 0 and 1. -/
def pastTheWall : List (OverlapEvent ℕ) :=
  [.beginOverlap 0, .beginOverlap 7, .beginOverlap 1, .interact]

theorem calls_in_reach_pastTheWall :
    ∃ s, (machine fun a : ℕ => a < 5).Run pastTheWall s ∧
      s.character.calls = [.onInteract 1] ∧ s.overlaps.latest (fun a => a < 5) = some 1 := by
  have run := (machine fun a : ℕ => a < 5).run_of_isSome pastTheWall (by decide)
  exact ⟨_, run, by decide, ((calls_in_reach run).1 1 (by decide)).2.2⟩

/-! ## Whether the key works -/

/-- If an interactable actor overlaps the character, pressing the key calls `OnInteract` on some
actor. -/
def Responds (interactable : α → Bool) (s : Surroundings α) : Prop :=
  (∃ a ∈ s.overlaps.present, interactable a = true) →
    ∃ a, s.character.currentInteractableActor = some a ∧
      s.character.checkInteract.calls = s.character.calls ++ [.onInteract a]

def RespondsAfter (interactable : α → Bool) (s : Surroundings α) (e : OverlapEvent α) : Prop :=
  ∀ s', s.step interactable e = some s' → s'.Responds interactable

/-- If the last interactable actor to have begun to overlap ends to, no other one overlaps. -/
def LeavesAlone (interactable : α → Bool) (s : Surroundings α) : OverlapEvent α → Prop
  | .endOverlap a => s.overlaps.latest interactable = some a →
      ∀ b ∈ s.overlaps.present, interactable b = true → b = a
  | _ => True

instance (s : Surroundings α) (e : OverlapEvent α) : Decidable (LeavesAlone interactable s e) :=
  match e with
  | .endOverlap a => inferInstanceAs (Decidable (s.overlaps.latest interactable = some a →
      ∀ b ∈ s.overlaps.present, interactable b = true → b = a))
  | .beginOverlap _ | .interact => isTrue trivial

theorem Inv.responds_iff {s : Surroundings α} (h : s.Inv interactable) :
    s.Responds interactable ↔ s.overlaps.Attended interactable := by
  constructor
  · intro responds a ha interest lost
    obtain ⟨b, current, -⟩ := responds ⟨a, ha, interest⟩
    rw [h.current, lost] at current
    cases current
  · rintro attended ⟨a, ha, interest⟩
    obtain ⟨b, focus⟩ := Option.ne_none_iff_exists'.1 (attended a ha interest)
    have current := h.current.trans focus
    refine ⟨b, current, ?_⟩
    rw [Interactor.checkInteract_of_some current]
    rfl

/-- From a state in which the key works, it works after a step just when the step does not take away
the focus from other interactable actors in reach. -/
theorem Inv.respondsAfter_iff {s s' : Surroundings α} (h : s.Inv interactable)
    (responds : s.Responds interactable) {e : OverlapEvent α}
    (hs : s.step interactable e = some s') :
    RespondsAfter interactable s e ↔ LeavesAlone interactable s e := by
  have attended := h.responds_iff.1 responds
  simp only [RespondsAfter, hs, Option.some.injEq, forall_eq']
  rw [(h.step hs).responds_iff]
  cases step_sound hs with
  | @began a => exact iff_of_true (attended.arrive a) trivial
  | @ended a present =>
    rw [attended.depart_iff, Presence.focus_eq_some_iff_of_mem present]
    rfl
  | pressed => exact iff_of_true attended trivial

/-- In every run, pressing the key after any event reaches an actor if an interactable one overlaps,
if and only if the last interactable actor to have begun to overlap never ends to while another one
overlaps. -/
theorem key_works_iff_leaves_alone {es : List (OverlapEvent α)} {s : Surroundings α}
    (h : (machine interactable).Run es s) :
    (machine interactable).Along es (RespondsAfter interactable) ↔
      (machine interactable).Along es (LeavesAlone interactable) := by
  apply Machine.along_congr (I := fun s => s.Inv interactable ∧ s.Responds interactable) ?_ ?_ ?_ h
  · refine ⟨inv_init, ?_⟩
    rintro ⟨a, ha, -⟩
    cases ha
  · intro s s' e hs after step
    exact ⟨hs.1.step step, after s' step⟩
  · intro s s' e hs step
    exact hs.1.respondsAfter_iff hs.2 step

/-- The character passes the item 1 while it stands at the table 0. -/
def passingBy : List (OverlapEvent ℕ) := [.beginOverlap 0, .beginOverlap 1, .endOverlap 1]

/-- The key does nothing at the table any more. -/
theorem passingBy_leaves_key_dead : ∃ s, (machine fun _ : ℕ => true).Run passingBy s ∧
    0 ∈ s.overlaps.present ∧ s.character.currentInteractableActor = none ∧
    ¬ s.Responds fun _ => true := by
  have run := (machine fun _ : ℕ => true).run_of_isSome passingBy (by decide)
  refine ⟨_, run, by decide, by decide, fun responds => ?_⟩
  obtain ⟨a, current, -⟩ := responds ⟨0, by decide, rfl⟩
  cases current

/-- The character walks from the table 0 to the table 1, which it reaches before leaving the other,
and leaves. -/
def walkingOn : List (OverlapEvent ℕ) :=
  [.beginOverlap 0, .interact, .beginOverlap 1, .endOverlap 0, .interact, .endOverlap 1]

theorem key_works_iff_leaves_alone_walkingOn :
    (machine fun _ : ℕ => true).Along walkingOn (RespondsAfter fun _ => true) := by
  have run := (machine fun _ : ℕ => true).run_of_isSome walkingOn (by decide)
  have alone := (machine fun _ : ℕ => true).along_of_check (LeavesAlone fun _ => true) walkingOn
    (by decide)
  exact (key_works_iff_leaves_alone run).2 alone

/-! ## Whether interactions are ended -/

/-- If the actor whose overlap ends has received `OnInteract` during it, the event makes one call,
`OnInteractEnd` on that actor. -/
def EndsInteraction (interactable : α → Bool) (s : Surroundings α) : OverlapEvent α → Prop
  | .endOverlap a => a ∈ s.interacted → ∀ s', s.step interactable (.endOverlap a) = some s' →
      s'.character.calls = s.character.calls ++ [.onInteractEnd a]
  | _ => True

/-- If the actor whose overlap ends has received `OnInteract` during it, no other interactable actor
has begun to overlap since. -/
def StillLatest (interactable : α → Bool) (s : Surroundings α) : OverlapEvent α → Prop
  | .endOverlap a => a ∈ s.interacted → s.overlaps.latest interactable = some a
  | _ => True

instance (s : Surroundings α) (e : OverlapEvent α) : Decidable (StillLatest interactable s e) :=
  match e with
  | .endOverlap a =>
    inferInstanceAs (Decidable (a ∈ s.interacted → s.overlaps.latest interactable = some a))
  | .beginOverlap _ | .interact => isTrue trivial

theorem Inv.endsInteraction_iff {s s' : Surroundings α} (h : s.Inv interactable)
    {e : OverlapEvent α} (hs : s.step interactable e = some s') :
    EndsInteraction interactable s e ↔ StillLatest interactable s e := by
  cases e with
  | beginOverlap | interact => exact Iff.rfl
  | endOverlap a =>
    refine imp_congr_right fun received => ?_
    have calls := calls_of_step hs
    rw [← Presence.focus_eq_some_iff_of_mem (h.interacted a received), ← h.current]
    simp only [hs, Option.some.injEq, forall_eq', calls, List.append_cancel_left_eq, made]
    split_ifs with current
    · exact iff_of_true rfl current
    · exact iff_of_false not_false current

/-- In every run, the end of an overlap during which the actor received `OnInteract` calls
`OnInteractEnd` on it exactly once, if and only if at every such end no other interactable actor has
begun to overlap since. -/
theorem interactions_end_iff_still_latest {es : List (OverlapEvent α)} {s : Surroundings α}
    (h : (machine interactable).Run es s) :
    (machine interactable).Along es (EndsInteraction interactable) ↔
      (machine interactable).Along es (StillLatest interactable) := by
  apply Machine.along_congr (I := Inv interactable) inv_init ?_ ?_ h
  · intro s s' e hs _ step
    exact hs.step step
  · intro s s' e hs step
    exact hs.endsInteraction_iff step

/-- The character interacts with the table 0, reaches the table 1 and then leaves the first one. -/
def crossing : List (OverlapEvent ℕ) :=
  [.beginOverlap 0, .interact, .beginOverlap 1, .endOverlap 0]

/-- The interaction with the table 0 is never ended. -/
theorem crossing_leaves_interaction_open :
    ∃ s, (machine fun _ : ℕ => true).Run crossing s ∧ s.character.calls = [.onInteract 0] ∧
      0 ∉ s.overlaps.present ∧
      ¬ (machine fun _ : ℕ => true).Along crossing (EndsInteraction fun _ => true) := by
  have run := (machine fun _ : ℕ => true).run_of_isSome crossing (by decide)
  refine ⟨_, run, by decide, by decide, fun ends => ?_⟩
  have before := (machine fun _ : ℕ => true).run_of_isSome
    [.beginOverlap 0, .interact, .beginOverlap 1] (by decide)
  have ended := ends _ _ [] _ rfl before (by decide) _ rfl
  exact absurd ended (by decide)

/-- The character leaves the table 0 before it reaches the table 1. -/
def oneByOne : List (OverlapEvent ℕ) :=
  [.beginOverlap 0, .interact, .endOverlap 0, .beginOverlap 1, .interact, .interact, .endOverlap 1]

theorem interactions_end_iff_still_latest_oneByOne :
    (machine fun _ : ℕ => true).Along oneByOne (EndsInteraction fun _ => true) := by
  have run := (machine fun _ : ℕ => true).run_of_isSome oneByOne (by decide)
  have latest := (machine fun _ : ℕ => true).along_of_check (StillLatest fun _ => true) oneByOne
    (by decide)
  exact (interactions_end_iff_still_latest run).2 latest

end Surroundings

end CarpenterDemo
