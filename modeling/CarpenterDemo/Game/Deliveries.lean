import CarpenterDemo.Library.Lists
import CarpenterDemo.Pickup.Invariant
import CarpenterDemo.Store.Timers
import Mathlib.Data.List.Nodup

/-!
# Deliveries

`Game` is one server with its players, its items and its store.  An accepted pickup calls
`OnConstructedItemPickedUp`, which draws a positive wait time, and every item that was accepted may
once be passed to `CollectOrder`, at any later time.

* `conserved`: active orders, collected items and pending timers make up one more than the accepted
  pickups.
* `order_available_iff`: a call of `CollectOrder` finds an order just when no more timers are
  pending than accepted items have not been collected.
-/

namespace CarpenterDemo

/-- One server with its store, and the items passed to `CollectOrder` so far. -/
structure Game (κ ι : Type*) where
  server : Server κ ι
  store : AStore
  collected : List ι

inductive GameEvent (κ ι : Type*)
  | server (e : ServerEvent κ ι)
  | pickup (c : κ) (i : ι) (wait : ℚ)
  | fireTimer (n color shape : ℕ)
  | collectOrder (i : ι)
  | spendBudget (amount : ℤ)
  deriving DecidableEq, Repr

/-- The event is a pickup that passes `Server_PickupItem_Validate`. -/
def Server.accepts {κ ι : Type*} (s : Server κ ι) : ServerEvent κ ι → Bool
  | .serverPickupItem c item => s.world.serverPickupItemValidate c item
  | _ => false

theorem Server.assigned_of_not_accepts {κ ι : Type*} [DecidableEq κ] [DecidableEq ι]
    {s s' : Server κ ι} {e : ServerEvent κ ι} (hs : s.step e = some s')
    (h : ¬ s.accepts e = true) : s'.assigned = s.assigned := by
  cases step_sound hs with
  | repaint | spawnItem | spawnCharacter | dropped | delivered | left => rfl
  | @accepted c i living emptyHanded spawned free =>
    refine absurd ?_ h
    exact (s.world.serverPickupItemValidate_iff c _).2 ⟨i, rfl, free, emptyHanded⟩

namespace Game

variable {κ ι : Type*} [DecidableEq κ] [DecidableEq ι] {wrap : ℤ → ℤ} {p : StoreSettings}

/-- The items of the accepted pickups, oldest first. -/
def accepted {κ ι : Type*} (s : Game κ ι) : List ι := s.server.assigned.map PickupCall.item

/-- The accepted items that have not been passed to `CollectOrder`. -/
def uncollected {κ ι : Type*} [DecidableEq ι] (s : Game κ ι) : List ι :=
  s.accepted.filter fun i => i ∉ s.collected

def step (wrap : ℤ → ℤ) (s : Game κ ι) : GameEvent κ ι → Option (Game κ ι)
  | .server e =>
    if s.server.accepts e then none
    else (s.server.step e).map fun server => { s with server := server }
  | .pickup c i wait =>
    if s.server.world.serverPickupItemValidate c (some i) ∧ 0 < wait then
      (s.server.step (.serverPickupItem c (some i))).bind fun server =>
        (s.store.timedStep wrap (.onConstructedItemPickedUp wait : TimedEvent κ)).map
          fun store => { s with server := server, store := store }
    else none
  | .fireTimer n color shape =>
    (s.store.timedStep wrap (.fireTimer n color shape : TimedEvent κ)).map
      fun store => { s with store := store }
  | .collectOrder i =>
    if i ∈ s.uncollected then
      (s.store.timedStep wrap (.collectOrder (s.server.world.items i))).map
        fun store => { s with store := store, collected := s.collected ++ [i] }
    else none
  | .spendBudget amount =>
    (s.store.timedStep wrap (.spendBudget amount : TimedEvent κ)).map
      fun store => { s with store := store }

variable (κ ι) in
/-- The server from the start of the level, just after the store's `BeginPlay`. -/
def machine (wrap : ℤ → ℤ) (p : StoreSettings) : Machine (Game κ ι) (GameEvent κ ι) :=
  ⟨⟨(Server.machine κ ι).init, (AStore.timedMachine κ wrap p).init, []⟩, step wrap⟩

/-! ## Conservation -/

structure Inv (s : Game κ ι) : Prop where
  server : s.server.Inv
  /-- Every order that is active, collected or due belongs to a pickup, but for the first one. -/
  conserved : s.store.activeOrders.length + s.collected.length + s.store.timers.length =
    1 + s.server.assigned.length
  once : s.collected.Nodup
  collected_subset : s.collected ⊆ s.accepted

theorem inv_init : (machine κ ι wrap p).init.Inv where
  server := Server.inv_init
  conserved := rfl
  once := List.nodup_nil
  collected_subset := List.nil_subset _

variable {s s' : Game κ ι}

theorem Inv.accept (h : s.Inv) {c : κ} {i : ι} {server : Server κ ι}
    (accepted : s.server.step (.serverPickupItem c (some i)) = some server)
    (valid : s.server.world.serverPickupItemValidate c (some i) = true) {wait : ℚ}
    (positive : 0 < wait) :
    Inv { s with server := server, store := s.store.onConstructedItemPickedUp wait } := by
  have conserved := h.conserved
  have assigned := Server.assigned_of_pickup accepted valid
  refine ⟨h.server.step accepted, ?_, h.once, ?_⟩
  · rw [assigned, AStore.onConstructedItemPickedUp, AStore.setTimer_of_pos _ positive]
    simp only [List.length_append, List.length_singleton]
    omega
  · rw [Game.accepted, assigned, List.map_append]
    exact List.subset_append_of_subset_left _ h.collected_subset

theorem Inv.request {κ ι : Type*} [DecidableEq ι] {wrap : ℤ → ℤ} {s : Game κ ι} {store : AStore}
    (h : s.Inv) {n color shape : ℕ} (pending : n < s.store.timers.length)
    (requests : (s.store.withTimers (s.store.timers.eraseIdx n)).step wrap
      (.requestOrder color shape : StoreEvent κ) = some store) :
    Inv { s with store := store } := by
  have conserved := h.conserved
  have orders : store.activeOrders.length = s.store.activeOrders.length + 1 :=
    AStore.length_activeOrders_of_step requests
  have timers : store.timers.length = s.store.timers.length - 1 := by
    rw [AStore.timers_of_step requests]
    exact List.length_eraseIdx_of_lt pending
  refine ⟨h.server, ?_, h.once, h.collected_subset⟩
  simp only [orders, timers]
  omega

theorem Inv.collect {κ ι : Type*} [DecidableEq ι] {wrap : ℤ → ℤ} {s : Game κ ι} {store : AStore}
    (h : s.Inv) {i : ι} (here : i ∈ s.uncollected) {item : AItem κ}
    (collects : s.store.step wrap (.collectOrder item) = some store) :
    Inv { s with store := store, collected := s.collected ++ [i] } := by
  have conserved := h.conserved
  have orders : store.activeOrders.length + 1 = s.store.activeOrders.length :=
    AStore.length_activeOrders_of_step collects
  have timers := AStore.timers_of_step collects
  obtain ⟨accepted, fresh⟩ := List.mem_filter.1 here
  refine ⟨h.server, ?_, ?_, ?_⟩
  · simp only [timers, List.length_append, List.length_singleton]
    omega
  · refine List.nodup_append.2 ⟨h.once, List.nodup_singleton i, ?_⟩
    intro a ha b hb
    rw [List.mem_singleton.1 hb]
    rintro rfl
    exact absurd ha (of_decide_eq_true fresh)
  · refine List.append_subset.2 ⟨h.collected_subset, fun a ha => ?_⟩
    rw [List.mem_singleton.1 ha]
    exact accepted

theorem Inv.step {e : GameEvent κ ι} (h : s.Inv) (hs : s.step wrap e = some s') : s'.Inv := by
  cases e with
  | server e =>
    simp only [Game.step] at hs
    split_ifs at hs with accepts
    obtain ⟨server, hserver, rfl⟩ := Option.map_eq_some_iff.1 hs
    have assigned := Server.assigned_of_not_accepts hserver accepts
    refine ⟨h.server.step hserver, ?_, h.once, ?_⟩
    · rw [assigned]
      exact h.conserved
    · rw [accepted, assigned]
      exact h.collected_subset
  | pickup c i wait =>
    simp only [Game.step] at hs
    split_ifs at hs with guard
    obtain ⟨server, hserver, hs⟩ := Option.bind_eq_some_iff.1 hs
    obtain ⟨store, hstore, rfl⟩ := Option.map_eq_some_iff.1 hs
    cases AStore.timedStep_sound hstore with
    | pickedUp => exact h.accept hserver guard.1 guard.2
    | operated isOp => cases isOp
  | fireTimer n color shape =>
    obtain ⟨store, hstore, rfl⟩ := Option.map_eq_some_iff.1 hs
    cases AStore.timedStep_sound hstore with
    | fired pending requests => exact h.request pending requests
    | operated isOp noFiring => cases noFiring
  | collectOrder i =>
    simp only [Game.step] at hs
    split_ifs at hs with here
    obtain ⟨store, hstore, rfl⟩ := Option.map_eq_some_iff.1 hs
    exact h.collect here hstore
  | spendBudget amount =>
    obtain ⟨store, hstore, rfl⟩ := Option.map_eq_some_iff.1 hs
    have spent : s.store.step wrap (.spendBudget amount : StoreEvent κ) = some store := hstore
    refine ⟨h.server, ?_, h.once, h.collected_subset⟩
    rw [AStore.length_activeOrders_of_step spent, AStore.timers_of_step spent]
    exact h.conserved

theorem inv_of_run {es : List (GameEvent κ ι)} (h : (machine κ ι wrap p).Run es s) : s.Inv :=
  h.invariant inv_init fun hi hs => hi.step hs

theorem Inv.length_uncollected {κ ι : Type*} [DecidableEq ι] {s : Game κ ι} (h : s.Inv) :
    s.uncollected.length + s.collected.length = s.server.assigned.length := by
  have nodup : s.accepted.Nodup := by
    refine List.nodup_iff_count_le_one.2 fun i => ?_
    exact (h.server.items i).le_one
  rw [uncollected, Lists.length_filter_notMem_add nodup h.once h.collected_subset, accepted,
    List.length_map]

/-! ## Collections -/

/-- After every run, any `CollectOrder` call that may come next finds an active order just when at
most as many timers are pending as accepted items have not been collected. -/
theorem order_available_iff {es : List (GameEvent κ ι)} (h : (machine κ ι wrap p).Run es s) :
    (∀ i ∈ s.uncollected, s.store.activeOrders ≠ []) ↔
      (s.uncollected ≠ [] → s.store.timers.length ≤ s.uncollected.length) := by
  have inv := inv_of_run h
  have conserved := inv.conserved
  have split := inv.length_uncollected
  have enough : s.store.activeOrders ≠ [] ↔
      s.store.timers.length ≤ s.uncollected.length := by
    rw [← List.length_pos_iff]
    constructor <;> intro <;> omega
  rw [enough]
  constructor
  · intro found waiting
    obtain ⟨i, hi⟩ := List.exists_mem_of_ne_nil _ waiting
    exact found i hi
  · intro covered i hi
    exact covered (List.ne_nil_of_mem hi)

/-- The initial order is out.  Two players pick up one item each; the first delivery comes before
either new order. -/
def twoDeliveries : List (GameEvent ℕ ℕ) :=
  [.fireTimer 0 0 0, .server (.spawnCharacter 0), .server (.spawnCharacter 1),
    .server (.spawnItem 5), .server (.spawnItem 6), .pickup 0 5 2, .pickup 1 6 2,
    .server (.deliveredItem 0), .collectOrder 5, .server (.deliveredItem 1)]

/-- The second delivery finds no order. -/
theorem twoDeliveries_run_out : ∃ s, (machine ℕ ℕ id AStore.twoByTwo).Run twoDeliveries s ∧
    6 ∈ s.uncollected ∧ s.store.activeOrders = [] ∧
    s.step id (.collectOrder 6) = none := by
  have run := (machine ℕ ℕ id AStore.twoByTwo).run_of_isSome twoDeliveries (by decide +kernel)
  refine ⟨_, run, by decide +kernel, by decide +kernel, ?_⟩
  exact Option.isNone_iff_eq_none.1 (by decide +kernel)

/-- The first of the two new orders is out before the second delivery. -/
def spacedDeliveries : List (GameEvent ℕ ℕ) := twoDeliveries ++ [.fireTimer 0 1 1]

theorem order_available_iff_spacedDeliveries :
    ∃ s, (machine ℕ ℕ id AStore.twoByTwo).Run spacedDeliveries s ∧
      ∀ i ∈ s.uncollected, s.store.activeOrders ≠ [] := by
  have run := (machine ℕ ℕ id AStore.twoByTwo).run_of_isSome spacedDeliveries (by decide +kernel)
  exact ⟨_, run, (order_available_iff run).2 fun _ => by decide +kernel⟩

end Game

end CarpenterDemo
