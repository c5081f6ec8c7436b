import CarpenterDemo.Library.Lists
import CarpenterDemo.Pickup.NetInvariant

/-!
# How often a client announces a pickup

A client is told of an accepted pickup twice: by the new `CarriedItem` of the character and by the
new `bPickedUp` of the item.  `announced_once_iff_carried_first`: its copy of the item announces the
pickup once if the former comes first, and twice if the latter does.
-/

namespace CarpenterDemo

namespace Client

variable {κ ι : Type*} [DecidableEq κ] [DecidableEq ι] {s : Server κ ι} {cl : Client κ ι}

/-- Once both values about a pickup have been received, they are all that has been heard about the
item, in one order or the other. -/
theorem Inv.heard_cases (h : cl.Inv s) (hi : s.Inv) {c : κ} {i : ι}
    (carried : Update.carriedItem c (some i) ∈ cl.received)
    (marked : Update.bPickedUp i true ∈ cl.received) :
    Update.heard cl.received i = [.carriedItem c (some i), .bPickedUp i true] ∨
      Update.heard cl.received i = [.bPickedUp i true, .carriedItem c (some i)] := by
  have carriedOnce : cl.received.count (.carriedItem c (some i)) = 1 := by
    have positive := List.count_pos_iff.2 carried
    have once := h.once c i
    omega
  have markedOnce : cl.received.count (.bPickedUp i true) = 1 := by
    have positive := List.count_pos_iff.2 marked
    have once := h.marked i
    split at once <;> omega
  apply Lists.eq_pair_or_eq_pair (by simp)
  · intro u hu
    obtain ⟨hu, about⟩ := List.mem_filter.1 hu
    cases u with
    | carriedItem d value =>
      obtain rfl : value = some i := by simpa [Update.about] using about
      rw [hi.assigned_unique (h.assigned d i hu) (h.assigned c i carried)]
      exact Or.inl rfl
    | bPickedUp j value =>
      obtain ⟨rfl, rfl⟩ : j = i ∧ value = true := by simpa [Update.about] using about
      exact Or.inr rfl
  · rw [Update.heard, List.count_filter (by simp [Update.about])]
    exact carriedOnce
  · rw [Update.heard, List.count_filter (by simp [Update.about])]
    exact markedOnce

end Client

namespace Net

variable {κ ι μ : Type*} [DecidableEq κ] [DecidableEq ι] [DecidableEq μ]

/-- Once a client has been handed both values about a pickup, in a run of any length, its copy of
the item has announced the pickup exactly once, as the server's copy has, if and only if the value
of `CarriedItem` came before the value of `bPickedUp`. -/
theorem announced_once_iff_carried_first {es : List (NetEvent κ ι μ)} {n : Net κ ι μ}
    (h : (machine κ ι μ).Run es n) (m : μ) {c : κ} {i : ι}
    (carried : Update.carriedItem c (some i) ∈ (n.clients m).received)
    (marked : Update.bPickedUp i true ∈ (n.clients m).received) :
    (n.server.world.items i).onPickedUp = 1 ∧
      (((n.clients m).world.items i).onPickedUp = 1 ↔
        [.carriedItem c (some i), .bPickedUp i true].Sublist (n.clients m).received) := by
  have inv := inv_of_run h
  have hc := inv.client m
  constructor
  · have assigned := (inv.server.bPickedUp_iff i).2 ⟨c, hc.assigned c i carried⟩
    rw [(inv.server.items i).announced, if_pos assigned]
  · rw [hc.shows.announced i]
    have part : (Update.heard (n.clients m).received i).Sublist (n.clients m).received :=
      List.filter_sublist
    rcases hc.heard_cases inv.server carried marked with order | order
    · rw [order] at part ⊢
      exact iff_of_true rfl part
    · rw [order]
      refine iff_of_false (by simp [Update.announcements, Update.isCarriedItem]) fun first => ?_
      have filtered := first.filter (Update.about i)
      change List.Sublist _ (Update.heard (n.clients m).received i) at filtered
      rw [order] at filtered
      have swapped := filtered.eq_of_length (by simp [Update.about])
      simp [Update.about] at swapped

/-- The player 0 picks up the item 5, and client 0 is told of it in the given order. -/
def pickupSeen (order : List (NetEvent ℕ ℕ ℕ)) : List (NetEvent ℕ ℕ ℕ) :=
  [.server (.spawnCharacter 0), .server (.spawnItem 5),
    .server (.serverPickupItem 0 (some 5))] ++ order

theorem announced_once_iff_carried_first_seen :
    ∃ n, (machine ℕ ℕ ℕ).Run
        (pickupSeen [.receiveCarriedItem 0 0 0, .receiveBPickedUp 0 5 0]) n ∧
      (n.server.world.items 5).onPickedUp = 1 ∧ ((n.clients 0).world.items 5).onPickedUp = 1 := by
  have run := (machine ℕ ℕ ℕ).run_of_isSome
    (pickupSeen [.receiveCarriedItem 0 0 0, .receiveBPickedUp 0 5 0]) (by decide)
  have both := announced_once_iff_carried_first run 0 (c := 0) (i := 5) (by decide) (by decide)
  exact ⟨_, run, both.1, both.2.2 (by decide)⟩

/-- The mark arrives before the pointer: the client announces the pickup twice. -/
theorem mark_first_announces_twice :
    ∃ n, (machine ℕ ℕ ℕ).Run
        (pickupSeen [.receiveBPickedUp 0 5 0, .receiveCarriedItem 0 0 0]) n ∧
      Update.carriedItem 0 (some 5) ∈ (n.clients 0).received ∧
      Update.bPickedUp 5 true ∈ (n.clients 0).received ∧
      (n.server.world.items 5).onPickedUp = 1 ∧ ((n.clients 0).world.items 5).onPickedUp = 2 := by
  have run := (machine ℕ ℕ ℕ).run_of_isSome
    (pickupSeen [.receiveBPickedUp 0 5 0, .receiveCarriedItem 0 0 0]) (by decide)
  exact ⟨_, run, by decide, by decide, by decide, by decide⟩

end Net

end CarpenterDemo
