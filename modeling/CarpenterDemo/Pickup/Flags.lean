import CarpenterDemo.Pickup.NetInvariant

/-!
# The client's copy of `bPickedUp`

A client sets its copy of an item's `bPickedUp` on two occasions: when it receives the flag, and
early, when it receives a `CarriedItem` that names the item.  `flag_follows_server`: either way its
copy is never set before the server's, and once the flag's values have all arrived the copies agree.

The invariant behind the second part is `Client.Pending`: what is set on the server is set on the
client or on its way to it.
-/

namespace CarpenterDemo

namespace World

/-- What a client's copy shows stays shown when it receives another value. -/
theorem Shows.bPickedUp_mono {κ ι : Type*} [DecidableEq ι] {w w' : World κ ι}
    {received : List (Update κ ι)} {u : Update κ ι} (h : w.Shows received)
    (h' : w'.Shows (received ++ [u])) {i : ι} (marked : (w.items i).bPickedUp = true) :
    (w'.items i).bPickedUp = true := by
  rw [h.flag] at marked
  rw [h'.flag, Update.heard_snoc]
  split_ifs
  · simp
  · exact marked

end World

namespace Client

variable {κ ι : Type*} [DecidableEq κ] [DecidableEq ι]

/-- Every flag that is set on the server is set on the client or on its way to it. -/
def Pending (s : Server κ ι) (cl : Client κ ι) : Prop :=
  ∀ i, (s.world.items i).bPickedUp = true →
    (cl.world.items i).bPickedUp = true ∨ true ∈ cl.pickedUps i

variable {s s' : Server κ ι} {cl cl' : Client κ ι}

theorem Pending.send {κ ι : Type*} [DecidableEq ι] {s : Server κ ι} {cl : Client κ ι}
    (h : cl.Pending s) (s' : Server κ ι) : (cl.send s.world s'.world).Pending s' := by
  intro i marked
  rw [pickedUps_send]
  cases before : (s.world.items i).bPickedUp with
  | true =>
    rw [marked, Replication.send_self]
    exact h i before
  | false =>
    rw [marked, Replication.send_of_ne (by decide)]
    exact Or.inr (by simp)

theorem Pending.receiveCarriedItem (h : cl.Pending s) (inv : cl.Inv s) {c : κ} {skipped : ℕ}
    (hr : cl.receiveCarriedItem c skipped = some cl') : cl'.Pending s := by
  have inv' := inv.receiveCarriedItem hr
  obtain ⟨⟨value, rest⟩, hv, rfl⟩ := Option.map_eq_some_iff.1 hr
  intro i marked
  exact (h i marked).imp_left fun shown => inv.shows.bPickedUp_mono inv'.shows shown

theorem Pending.receiveBPickedUp (h : cl.Pending s) (inv : cl.Inv s) {i : ι} {skipped : ℕ}
    (hr : cl.receiveBPickedUp i skipped = some cl') : cl'.Pending s := by
  have inv' := inv.receiveBPickedUp hr
  obtain ⟨⟨value, rest⟩, hv, rfl⟩ := Option.map_eq_some_iff.1 hr
  obtain rfl := inv.marks i value (Replication.mem_of_receive hv)
  intro j marked
  by_cases e : j = i
  · -- the flag that arrives is set: an item's flag is only ever sent as `true`
    subst e
    left
    rw [inv'.shows.flag, Update.heard_snoc]
    simp [Update.about]
  · refine (h j marked).imp (inv.shows.bPickedUp_mono inv'.shows) fun waiting => ?_
    show true ∈ Function.update cl.pickedUps i rest j
    rwa [Function.update_of_ne e]

theorem Pending.step (h : cl.Pending s) (inv : cl.Inv s) (hs : Net.ClientStep s cl s' cl') :
    cl'.Pending s' := by
  cases hs with
  | same => exact h
  | server move => exact h.send s'
  | carriedItem received => exact h.receiveCarriedItem inv received
  | bPickedUp received => exact h.receiveBPickedUp inv received

/-- The client's copy of a flag is not set before the server's. -/
theorem Inv.bPickedUp_of_client (h : cl.Inv s) (hi : s.Inv) {i : ι}
    (shown : (cl.world.items i).bPickedUp = true) : (s.world.items i).bPickedUp = true := by
  rw [h.shows.flag, Bool.not_eq_true', List.isEmpty_eq_false_iff] at shown
  obtain ⟨u, hu⟩ := List.exists_mem_of_ne_nil _ shown
  obtain ⟨received, about⟩ := List.mem_filter.1 hu
  cases u with
  | carriedItem c value =>
    obtain rfl : value = some i := by simpa [Update.about] using about
    exact (hi.bPickedUp_iff i).2 ⟨c, h.assigned c i received⟩
  | bPickedUp j value =>
    obtain ⟨rfl, rfl⟩ : j = i ∧ value = true := by simpa [Update.about] using about
    have counted := List.count_pos_iff.2 received
    have marked := h.marked j
    by_contra unmarked
    rw [if_neg unmarked] at marked
    omega

end Client

namespace Net

variable {κ ι μ : Type*} [DecidableEq κ] [DecidableEq ι] [DecidableEq μ]

theorem pending_of_run {es : List (NetEvent κ ι μ)} {n : Net κ ι μ} (h : (machine κ ι μ).Run es n)
    (m : μ) : (n.clients m).Pending n.server := by
  induction h with
  | nil =>
    intro i marked
    cases marked
  | snoc hr hs ih => exact ih.step ((inv_of_run hr).client m) (client_step hs m)

/-- In every reachable state, for every item, live or not: if a client's copy of the item is picked
up, so is the server's; so `OnInteract_Implementation` on the client refuses an item that is free on
the server only to a character whose hands are full there; and once no value of the item's flag is
on its way to the client any more, the two copies of the flag are equal. -/
theorem flag_follows_server {es : List (NetEvent κ ι μ)} {n : Net κ ι μ}
    (h : (machine κ ι μ).Run es n) (m : μ) (i : ι) :
    (((n.clients m).world.items i).bPickedUp = true →
      (n.server.world.items i).bPickedUp = true) ∧
    ((n.server.world.items i).isPickedUp = false → ∀ c,
      (n.clients m).world.onInteractImplementation i (some c) = none →
        ((n.clients m).world.getItem c).isSome = true) ∧
    ((n.clients m).pickedUps i = [] →
      ((n.clients m).world.items i).bPickedUp = (n.server.world.items i).bPickedUp) := by
  have inv := inv_of_run h
  have behind := (inv.client m).bPickedUp_of_client inv.server (i := i)
  refine ⟨behind, ?_, ?_⟩
  · intro free c refused
    have unmarked : ((n.clients m).world.items i).bPickedUp = false := by
      cases shown : ((n.clients m).world.items i).bPickedUp with
      | false => rfl
      | true => exact absurd (behind shown) (by rw [← AItem.isPickedUp, free]; decide)
    by_contra empty
    simp [World.onInteractImplementation, unmarked, empty] at refused
  · intro settled
    cases marked : (n.server.world.items i).bPickedUp with
    | false =>
      exact eq_false_of_ne_true fun shown => by
        rw [behind shown] at marked
        cases marked
    | true =>
      rcases pending_of_run h m i marked with shown | waiting
      · exact shown
      · rw [settled] at waiting
        cases waiting

/-- The player 0 picks up the item 5, and client 0 has only been told of the `CarriedItem`.  The
item 6 is free. -/
def markedEarly : List (NetEvent ℕ ℕ ℕ) :=
  [.server (.spawnCharacter 0), .server (.spawnItem 5), .server (.spawnItem 6),
    .server (.serverPickupItem 0 (some 5)), .receiveCarriedItem 0 0 0]

theorem flag_follows_server_markedEarly :
    ∃ n, (machine ℕ ℕ ℕ).Run markedEarly n ∧ (n.clients 0).pickedUps 5 = [true] ∧
      ((n.clients 0).world.items 5).bPickedUp = true ∧
      (n.server.world.items 5).bPickedUp = true ∧
      ((n.clients 0).world.items 6).bPickedUp = (n.server.world.items 6).bPickedUp := by
  have run := (machine ℕ ℕ ℕ).run_of_isSome markedEarly (by decide)
  refine ⟨_, run, by decide, by decide, ?_, ?_⟩
  · exact (flag_follows_server run 0 5).1 (by decide)
  · exact (flag_follows_server run 0 6).2.2 (by decide)

end Net

end CarpenterDemo
