import CarpenterDemo.Pickup.NetInvariant

/-!
# The carriers that a client shows

A client attaches an item to a character when it receives a `CarriedItem` that names the item, and
detaches none.  `carriers_shown`: in whatever order the properties of the characters and of the
items arrive, the client shows no item in the hands of a character that was not given it, and no
item in two hands; and once the values of a character's `CarriedItem` have arrived, the client shows
what the character holds.
-/

namespace CarpenterDemo

namespace Client

variable {κ ι : Type*} [DecidableEq κ] [DecidableEq ι]

/-- The client's copies of the characters will show what the server's show, and the items are
attached to the characters that they have been received for. -/
structure Arriving {κ ι : Type*} (s : Server κ ι) (cl : Client κ ι) : Prop where
  latest : ∀ c, Replication.latest (cl.world.characters c).carriedItem (cl.carriedItems c) =
    (s.world.characters c).carriedItem
  attached : ∀ c i,
    (cl.world.items i).attachParent = some c ↔ Update.carriedItem c (some i) ∈ cl.received

variable {s s' : Server κ ι} {cl cl' : Client κ ι}

theorem Arriving.send {κ ι : Type*} [DecidableEq ι] {s : Server κ ι} {cl : Client κ ι}
    (h : cl.Arriving s) (s' : Server κ ι) :
    (cl.send s.world s'.world).Arriving s' :=
  ⟨fun c => Replication.latest_send (h.latest c) _, h.attached⟩

theorem Arriving.receiveCarriedItem (h : cl.Arriving s) (inv : cl.Inv s) (hi : s.Inv) {c : κ}
    {skipped : ℕ} (hr : cl.receiveCarriedItem c skipped = some cl') : cl'.Arriving s := by
  obtain ⟨⟨value, rest⟩, hv, rfl⟩ := Option.map_eq_some_iff.1 hr
  have here := Replication.mem_of_receive hv
  constructor
  · intro d
    show Replication.latest ((cl.world.replicateCarriedItem c value).characters d).carriedItem
      (Function.update cl.carriedItems c rest d) = _
    by_cases hd : d = c
    · subst hd
      rw [World.carriedItem_replicateCarriedItem_self, Function.update_self,
        Replication.latest_receive hv (cl.world.characters d).carriedItem]
      exact h.latest d
    · rw [World.characters_replicateCarriedItem_of_ne _ hd, Function.update_of_ne hd]
      exact h.latest d
  · intro d i
    show ((cl.world.replicateCarriedItem c value).items i).attachParent = some d ↔
      Update.carriedItem d (some i) ∈ cl.received ++ [.carriedItem c value]
    rw [List.mem_append, List.mem_singleton, ← h.attached d i]
    cases value with
    | none =>
      rw [World.items_replicateCarriedItem_none]
      simp
    | some j =>
      rw [World.items_replicateCarriedItem_some (h := inv.notified here)]
      by_cases hj : i = j
      · subst hj
        rw [if_pos rfl]
        have given := inv.queued c i here
        constructor
        · intro attached
          obtain rfl : c = d := Option.some.inj attached
          exact Or.inr rfl
        · rintro (attached | same)
          · -- it was assigned to one character only
            have mine := inv.assigned d i ((h.attached d i).1 attached)
            rw [hi.assigned_unique mine given]
            rfl
          · cases same
            rfl
      · rw [if_neg hj]
        refine (or_iff_left fun same => hj ?_).symm
        cases same
        rfl

theorem Arriving.receiveBPickedUp {κ ι : Type*} [DecidableEq ι] {s : Server κ ι}
    {cl cl' : Client κ ι} (h : cl.Arriving s) {i : ι} {skipped : ℕ}
    (hr : cl.receiveBPickedUp i skipped = some cl') : cl'.Arriving s := by
  obtain ⟨⟨value, rest⟩, hv, rfl⟩ := Option.map_eq_some_iff.1 hr
  constructor
  · intro c
    show Replication.latest ((cl.world.replicateBPickedUp i value).characters c).carriedItem _ = _
    rw [World.characters_replicateBPickedUp]
    exact h.latest c
  · intro c j
    have same : ((cl.world.replicateBPickedUp i value).items j).attachParent =
        (cl.world.items j).attachParent := by
      unfold World.replicateBPickedUp
      split_ifs
      · rfl
      · by_cases hj : j = i
        · subst hj
          rw [World.items_modifyItem_self, AItem.onRepBPickedUp]
          split_ifs <;> rfl
        · rw [World.items_modifyItem_of_ne _ hj]
    show ((cl.world.replicateBPickedUp i value).items j).attachParent = some c ↔
      Update.carriedItem c (some j) ∈ cl.received ++ [.bPickedUp i value]
    rw [same, h.attached c j]
    simp

theorem Arriving.step (h : cl.Arriving s) (inv : cl.Inv s) (hi : s.Inv)
    (hs : Net.ClientStep s cl s' cl') : cl'.Arriving s' := by
  cases hs with
  | same => exact h
  | server move => exact h.send _
  | carriedItem received => exact h.receiveCarriedItem inv hi received
  | bPickedUp received => exact h.receiveBPickedUp received

end Client

namespace Net

variable {κ ι μ : Type*} [DecidableEq κ] [DecidableEq ι] [DecidableEq μ]

theorem arriving_of_run {es : List (NetEvent κ ι μ)} {n : Net κ ι μ}
    (h : (machine κ ι μ).Run es n) (m : μ) : (n.clients m).Arriving n.server := by
  induction h with
  | nil =>
    refine ⟨fun c => rfl, fun c i => iff_of_false nofun ?_⟩
    exact List.not_mem_nil
  | snoc hr hs ih =>
    have inv := inv_of_run hr
    exact ih.step (inv.client m) inv.server (client_step hs m)

/-- In every reachable state, for every client: what it shows attached to a character was assigned
to that character on the server; what a character holds on the client is attached to it there,
marked as picked up, and held by no other character; and once no value of the `CarriedItem` of a
character is on its way, the client shows the character's item, with what the server has the
character carry attached to it. -/
theorem carriers_shown {es : List (NetEvent κ ι μ)} {n : Net κ ι μ}
    (h : (machine κ ι μ).Run es n) (m : μ) :
    (∀ c i, ((n.clients m).world.items i).attachParent = some c →
      PickupCall.mk c i ∈ n.server.assigned) ∧
    (∀ c i, ((n.clients m).world.characters c).carriedItem = some i →
      ((n.clients m).world.items i).attachParent = some c ∧
        ((n.clients m).world.items i).bPickedUp = true ∧
        ∀ d, ((n.clients m).world.characters d).carriedItem = some i → d = c) ∧
    ∀ c, (n.clients m).carriedItems c = [] →
      ((n.clients m).world.characters c).carriedItem =
          (n.server.world.characters c).carriedItem ∧
        ∀ i, n.server.world.Carries c i →
          ((n.clients m).world.items i).attachParent = some c := by
  have inv := inv_of_run h
  have client := inv.client m
  have arriving := arriving_of_run h m
  have attached : ∀ c i, ((n.clients m).world.characters c).carriedItem = some i →
      ((n.clients m).world.items i).attachParent = some c :=
    fun c i held => (arriving.attached c i).2 (client.shows.held c i held)
  refine ⟨fun c i shown => client.assigned c i ((arriving.attached c i).1 shown), ?_, ?_⟩
  · intro c i held
    refine ⟨attached c i held, ?_, fun d held' => ?_⟩
    · rw [client.shows.flag, Bool.not_eq_true', List.isEmpty_eq_false_iff]
      refine List.ne_nil_of_mem (List.mem_filter.2 ⟨client.shows.held c i held, ?_⟩)
      simp [Update.about]
    · have both := (attached d i held').symm.trans (attached c i held)
      exact Option.some.inj both
  · intro c arrived
    have shown := arriving.latest c
    rw [arrived] at shown
    refine ⟨shown, fun i carries => attached c i ?_⟩
    exact shown.trans carries.2

/-- The player 0 delivers the item 5 and picks up the item 6.  Client 0 skips the delivery. -/
def skipsDelivery : List (NetEvent ℕ ℕ ℕ) :=
  [.server (.spawnCharacter 0), .server (.spawnItem 5), .server (.spawnItem 6),
    .server (.serverPickupItem 0 (some 5)), .receiveCarriedItem 0 0 0,
    .server (.deliveredItem 0), .server (.serverPickupItem 0 (some 6)),
    .receiveBPickedUp 0 6 0, .receiveCarriedItem 0 0 1]

theorem carriers_shown_skipsDelivery : ∃ n, (machine ℕ ℕ ℕ).Run skipsDelivery n ∧
    n.server.world.Carries 0 6 ∧ ((n.clients 0).world.characters 0).carriedItem = some 6 ∧
    ((n.clients 0).world.items 6).attachParent = some 0 := by
  have run := (machine ℕ ℕ ℕ).run_of_isSome skipsDelivery (by decide)
  have shown := (carriers_shown run 0).2.2 0 (by decide)
  exact ⟨_, run, by decide, shown.1, shown.2 6 (by decide)⟩

end Net

end CarpenterDemo
