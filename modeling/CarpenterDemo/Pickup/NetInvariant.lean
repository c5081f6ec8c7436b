import CarpenterDemo.Pickup.Net
import CarpenterDemo.Pickup.Ownership

/-!
# The invariant of a client

Each item is assigned once and marked once on the server, so each client is sent each of the two
values about it at most once (`once`, `marked`).  What the client's copy of the item shows is a
function of the values about the item that the client has been handed, in their order (`flag`,
`announced`): every `CarriedItem` value announces the pickup, and the `bPickedUp` value announces it
too unless something about the item was heard before.
-/

namespace CarpenterDemo

/-! ## What a client has heard about an item -/

namespace Update

/-- The values that say the item `i` has been picked up. -/
def about {κ ι : Type*} [DecidableEq ι] (i : ι) : Update κ ι → Bool
  | .carriedItem _ value => decide (value = some i)
  | .bPickedUp j value => decide (j = i) && value

/-- The received values about `i`, oldest first. -/
def heard {κ ι : Type*} [DecidableEq ι] (received : List (Update κ ι)) (i : ι) :
    List (Update κ ι) :=
  received.filter (about i)

theorem heard_snoc {κ ι : Type*} [DecidableEq ι] (received : List (Update κ ι)) (u : Update κ ι)
    (i : ι) : heard (received ++ [u]) i =
      if u.about i then heard received i ++ [u] else heard received i := by
  simp only [heard, List.filter_append, List.filter_cons, List.filter_nil]
  split <;> simp

variable {κ ι : Type*}

def isCarriedItem : Update κ ι → Bool
  | .carriedItem _ _ => true
  | .bPickedUp _ _ => false

/-- How often the pickup of an item is announced to a client that hears these values about it. -/
def announcements (heard : List (Update κ ι)) : ℕ :=
  heard.countP isCarriedItem + (heard.head?.elim 0 fun u => if u.isCarriedItem then 0 else 1)

theorem announcements_snoc_carriedItem (heard : List (Update κ ι)) (c : κ) (value : Option ι) :
    announcements (heard ++ [.carriedItem c value]) = announcements heard + 1 := by
  cases heard with
  | nil => rfl
  | cons u l =>
    simp only [announcements, List.cons_append, List.head?_cons]
    rw [← List.cons_append, List.countP_append]
    simp [isCarriedItem]
    omega

theorem announcements_snoc_bPickedUp (heard : List (Update κ ι)) (i : ι) (value : Bool) :
    announcements (heard ++ [.bPickedUp i value]) =
      if heard.isEmpty then 1 else announcements heard := by
  cases heard with
  | nil => rfl
  | cons u l =>
    simp only [announcements, List.cons_append, List.head?_cons]
    rw [← List.cons_append, List.countP_append]
    simp [isCarriedItem]

end Update

namespace World

section

variable {κ ι : Type*} [DecidableEq ι]

/-- A client's copies show what the values it has received imply. -/
structure Shows (w : World κ ι) (received : List (Update κ ι)) : Prop where
  held : ∀ c i, (w.characters c).carriedItem = some i → Update.carriedItem c (some i) ∈ received
  flag : ∀ i, (w.items i).bPickedUp = !(Update.heard received i).isEmpty
  announced : ∀ i, (w.items i).onPickedUp = Update.announcements (Update.heard received i)

theorem shows_empty : (World.empty κ ι).Shows [] := by
  constructor <;> simp [World.empty, Update.heard, Update.announcements]

variable {w : World κ ι} {received : List (Update κ ι)}

/-- Receiving the mark of an item announces it unless something was heard about it before. -/
theorem Shows.bPickedUp (h : w.Shows received) (i : ι) :
    (w.replicateBPickedUp i true).Shows (received ++ [.bPickedUp i true]) := by
  have items : ∀ j, (w.replicateBPickedUp i true).items j =
      if j = i ∧ (w.items i).bPickedUp = false then (w.items i).pickedUp else w.items j := by
    intro j
    unfold World.replicateBPickedUp
    cases flag : (w.items i).bPickedUp with
    | true => simp
    | false =>
      by_cases e : j = i
      · subst e
        simp [AItem.pickedUp]
      · simp [e, items_modifyItem_of_ne]
  have about : ∀ j, (Update.bPickedUp i true : Update κ ι).about j = decide (i = j) := by
    intro j
    simp [Update.about]
  constructor
  · intro c j hc
    rw [characters_replicateBPickedUp] at hc
    exact List.mem_append_left _ (h.held c j hc)
  · intro j
    rw [items j, Update.heard_snoc, about j]
    by_cases e : i = j
    · subst e
      cases flag : (w.items i).bPickedUp <;> simp [flag, AItem.pickedUp_eq]
    · simpa [e, Ne.symm e] using h.flag j
  · intro j
    rw [items j, Update.heard_snoc, about j]
    by_cases e : i = j
    · subst e
      have flag := h.flag i
      rw [if_pos (decide_eq_true rfl), Update.announcements_snoc_bPickedUp]
      cases empty : (Update.heard received i).isEmpty with
      | true =>
        have silent := h.announced i
        rw [List.isEmpty_iff.1 empty] at silent
        rw [empty] at flag
        rw [if_pos ⟨rfl, flag⟩, AItem.pickedUp_eq, silent]
        rfl
      | false =>
        rw [empty] at flag
        rw [if_neg fun he => by simp [flag] at he, if_neg Bool.false_ne_true]
        exact h.announced i
    · simpa [e, Ne.symm e] using h.announced j

end

variable {κ ι : Type*} [DecidableEq κ] [DecidableEq ι] {w : World κ ι}
  {received : List (Update κ ι)}

/-- Receiving a `CarriedItem` value announces the item it names. -/
theorem Shows.carriedItem (h : w.Shows received) (c : κ) (value : Option ι)
    (notified : ∀ i, value = some i → (w.characters c).carriedItem ≠ some i) :
    (w.replicateCarriedItem c value).Shows (received ++ [.carriedItem c value]) := by
  have items : ∀ i, (w.replicateCarriedItem c value).items i =
      if value = some i then ((w.items i).attachToComponent c).pickedUp else w.items i := by
    intro i
    cases value with
    | none => rw [items_replicateCarriedItem_none, if_neg (by simp)]
    | some j =>
      rw [items_replicateCarriedItem_some (h := notified j rfl)]
      by_cases e : i = j
      · subst e
        rw [if_pos rfl, if_pos rfl]
      · rw [if_neg e, if_neg (by simpa using Ne.symm e)]
  constructor
  · intro d i hd
    by_cases e : d = c
    · subst e
      rw [carriedItem_replicateCarriedItem_self] at hd
      rw [hd]
      exact List.mem_append_right _ List.mem_cons_self
    · rw [characters_replicateCarriedItem_of_ne _ e] at hd
      exact List.mem_append_left _ (h.held d i hd)
  · intro i
    rw [items i, Update.heard_snoc]
    by_cases e : value = some i
    · simp [e, Update.about, AItem.pickedUp_eq]
    · simpa [e, Update.about] using h.flag i
  · intro i
    rw [items i, Update.heard_snoc]
    by_cases e : value = some i
    · rw [if_pos e, if_pos (by simp [e, Update.about]), Update.announcements_snoc_carriedItem,
        ← h.announced i]
      rfl
    · rw [if_neg e, if_neg (by simp [e, Update.about])]
      exact h.announced i

end World

/-! ## The invariant -/

namespace Client

variable {κ ι : Type*} [DecidableEq κ] [DecidableEq ι]

/-- The invariant of a client of the server `s`. -/
structure Inv (s : Server κ ι) (cl : Client κ ι) : Prop where
  queued : ∀ c i, some i ∈ cl.carriedItems c → PickupCall.mk c i ∈ s.assigned
  assigned : ∀ c i, Update.carriedItem c (some i) ∈ cl.received → PickupCall.mk c i ∈ s.assigned
  once : ∀ c i,
    (cl.carriedItems c).count (some i) + cl.received.count (.carriedItem c (some i)) ≤ 1
  marks : ∀ i value, value ∈ cl.pickedUps i → value = true
  marked : ∀ i, (cl.pickedUps i).count true + cl.received.count (.bPickedUp i true) ≤
    if (s.world.items i).bPickedUp then 1 else 0
  shows : cl.world.Shows cl.received

theorem inv_empty : (Client.empty κ ι).Inv (Server.machine κ ι).init where
  queued c i h := by simp [Client.empty] at h
  assigned c i h := by simp [Client.empty] at h
  once c i := by simp [Client.empty]
  marks i value h := by simp [Client.empty] at h
  marked i := by simp [Client.empty]
  shows := World.shows_empty

namespace Inv

variable {s s' : Server κ ι} {cl : Client κ ι}

/-- An assignment is sent once: before it, nothing about the item had been sent. -/
theorem once_send (h : cl.Inv s) (hi : s.Inv) {e : ServerEvent κ ι} (hs : s.step e = some s')
    (c : κ) (i : ι) :
    ((cl.send s.world s'.world).carriedItems c).count (some i) +
      cl.received.count (.carriedItem c (some i)) ≤ 1 := by
  rw [carriedItems_send]
  by_cases before : (s.world.characters c).carriedItem = some i
  · rw [Replication.count_send_of_ne fun _ => before]
    exact h.once c i
  · by_cases after : (s'.world.characters c).carriedItem = some i
    · have fresh := hi.fresh_of_change hs before after c
      have queued : (cl.carriedItems c).count (some i) = 0 :=
        List.count_eq_zero.2 fun hc => fresh (h.queued c i hc)
      have received : cl.received.count (.carriedItem c (some i)) = 0 :=
        List.count_eq_zero.2 fun hc => fresh (h.assigned c i hc)
      have sent := Replication.count_send_le (some i) (s.world.characters c).carriedItem
        (s'.world.characters c).carriedItem (cl.carriedItems c)
      omega
    · rw [Replication.count_send_of_ne fun e => absurd e after]
      exact h.once c i

/-- The mark of an item is sent at most once, and only when the item is marked. -/
theorem marked_send (h : cl.Inv s) (hi : s.Inv) {e : ServerEvent κ ι} (hs : s.step e = some s')
    (i : ι) :
    ((cl.send s.world s'.world).pickedUps i).count true + cl.received.count (.bPickedUp i true) ≤
      if (s'.world.items i).bPickedUp then 1 else 0 := by
  rw [pickedUps_send]
  have known := h.marked i
  cases marked : (s.world.items i).bPickedUp with
  | true =>
    rw [marked] at known
    rw [Replication.count_send_of_ne fun _ => rfl, hi.bPickedUp_mono hs marked]
    exact known
  | false =>
    rw [marked, if_neg Bool.false_ne_true] at known
    have sent := Replication.count_send_le true false (s'.world.items i).bPickedUp (cl.pickedUps i)
    cases after : (s'.world.items i).bPickedUp with
    | false =>
      rw [Replication.send_self, if_neg Bool.false_ne_true]
      exact known
    | true =>
      rw [after] at sent
      rw [if_pos rfl]
      omega

/-- The server takes a step and sends what has changed. -/
theorem send (h : cl.Inv s) (hi : s.Inv) {e : ServerEvent κ ι} (hs : s.step e = some s') :
    (cl.send s.world s'.world).Inv s' := by
  have grow := Server.assigned_subset_of_step hs
  refine ⟨?_, fun c i hc => grow (h.assigned c i hc), h.once_send hi hs, ?_, h.marked_send hi hs,
    h.shows⟩
  · intro c i hc
    rcases Replication.mem_send hc with hc | ⟨after, change⟩
    · exact grow (h.queued c i hc)
    · rw [Server.assigned_of_change hs (fun before => change (after ▸ before.symm)) after.symm]
      exact List.mem_append_right _ List.mem_cons_self
  · intro i value hv
    rcases Replication.mem_send hv with hv | ⟨rfl, change⟩
    · exact h.marks i value hv
    · cases marked : (s.world.items i).bPickedUp with
      | false => simpa [marked] using change
      | true => exact hi.bPickedUp_mono hs marked

/-- A value of a `CarriedItem` on its way that names an item differs from the client's own. -/
theorem notified (h : cl.Inv s) {c : κ} {i : ι} (queued : some i ∈ cl.carriedItems c) :
    (cl.world.characters c).carriedItem ≠ some i := by
  intro held
  have received := List.count_pos_iff.2 (h.shows.held c i held)
  have waiting := List.count_pos_iff.2 queued
  have once := h.once c i
  omega

theorem receiveCarriedItem (h : cl.Inv s) {c : κ} {skipped : ℕ} {cl' : Client κ ι}
    (hr : cl.receiveCarriedItem c skipped = some cl') : cl'.Inv s := by
  obtain ⟨⟨value, rest⟩, hv, rfl⟩ := Option.map_eq_some_iff.1 hr
  have here := Replication.mem_of_receive hv
  refine ⟨?_, ?_, ?_, h.marks, ?_, ?_⟩
  · intro d i hd
    by_cases e : d = c
    · subst e
      simp only [Function.update_self] at hd
      exact h.queued d i (Replication.mem_of_mem_rest hv hd)
    · simp only [Function.update_of_ne e] at hd
      exact h.queued d i hd
  · intro d i hd
    simp only [List.mem_append, List.mem_singleton, Update.carriedItem.injEq] at hd
    rcases hd with hd | ⟨rfl, rfl⟩
    · exact h.assigned d i hd
    · exact h.queued d i here
  · intro d i
    have once := h.once d i
    by_cases e : d = c
    · subst e
      have received := Replication.count_receive hv (some i)
      simp only [Function.update_self, List.count_append, List.count_singleton, beq_iff_eq,
        Update.carriedItem.injEq, true_and]
      omega
    · have other : Update.carriedItem c value ≠ Update.carriedItem d (some i) := by
        simp [Ne.symm e]
      simpa [Function.update_of_ne e, List.count_append, List.count_singleton, other] using once
  · intro i
    simpa [List.count_append, List.count_singleton] using h.marked i
  · exact h.shows.carriedItem c value fun i e => h.notified (e ▸ here)

theorem receiveBPickedUp (h : cl.Inv s) {i : ι} {skipped : ℕ} {cl' : Client κ ι}
    (hr : cl.receiveBPickedUp i skipped = some cl') : cl'.Inv s := by
  obtain ⟨⟨value, rest⟩, hv, rfl⟩ := Option.map_eq_some_iff.1 hr
  obtain rfl := h.marks i value (Replication.mem_of_receive hv)
  refine ⟨h.queued, ?_, ?_, ?_, ?_, h.shows.bPickedUp i⟩
  · intro c j hc
    simp only [List.mem_append, List.mem_singleton, reduceCtorEq, or_false] at hc
    exact h.assigned c j hc
  · intro c j
    simpa [List.count_append, List.count_singleton] using h.once c j
  · intro j v hj
    by_cases e : j = i
    · subst e
      simp only [Function.update_self] at hj
      exact h.marks j v (Replication.mem_of_mem_rest hv hj)
    · simp only [Function.update_of_ne e] at hj
      exact h.marks j v hj
  · intro j
    have marked := h.marked j
    by_cases e : j = i
    · subst e
      have received := Replication.count_receive hv true
      simp only [if_true] at received
      simp only [Function.update_self, List.count_append, List.count_singleton, beq_self_eq_true,
        if_true]
      omega
    · have other : Update.bPickedUp i true ≠ (Update.bPickedUp j true : Update κ ι) := by
        simp [Ne.symm e]
      simpa [Function.update_of_ne e, List.count_append, List.count_singleton, other] using marked

/-- Every step that a client sees keeps its invariant. -/
theorem step {cl' : Client κ ι} (h : cl.Inv s) (hi : s.Inv) (hs : Net.ClientStep s cl s' cl') :
    cl'.Inv s' := by
  cases hs with
  | same => exact h
  | server move => exact h.send hi move
  | carriedItem received => exact h.receiveCarriedItem received
  | bPickedUp received => exact h.receiveBPickedUp received

end Inv

end Client

namespace Net

variable {κ ι μ : Type*} [DecidableEq κ] [DecidableEq ι] [DecidableEq μ]

structure Inv (n : Net κ ι μ) : Prop where
  server : n.server.Inv
  client : ∀ m, (n.clients m).Inv n.server

theorem inv_of_run {es : List (NetEvent κ ι μ)} {n : Net κ ι μ} (h : (machine κ ι μ).Run es n) :
    n.Inv := by
  refine ⟨Server.inv_of_run (simulates_server.run h), fun m => ?_⟩
  induction h with
  | nil => exact Client.inv_empty
  | snoc hr hs ih =>
    exact ih.step (Server.inv_of_run (simulates_server.run hr)) (client_step hs m)

end Net

end CarpenterDemo
