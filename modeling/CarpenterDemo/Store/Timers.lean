import CarpenterDemo.Store.Orders

/-!
# Delayed requests

`AStore.timedMachine` is the server's store after `BeginPlay` with the timers that call
`RequestOrder`: the one set for the next tick, and one for each `OnConstructedItemPickedUp`.
Pending timers fire in any order.

* `simulates_machine`: without its timers, the timed store runs as `AStore.machine`.
* `timers_of_run`: every pickup has led to a request, is pending, or drew a wait time of zero or
  less.
* `no_request_lost_iff`: nothing is lost just when every wait time drawn is positive.
-/

namespace CarpenterDemo

/-- What can happen to the server's store and its timers. -/
inductive TimedEvent (κ : Type*)
  | fireTimer (n : ℕ) (color shape : ℕ)
  | onConstructedItemPickedUp (wait : ℚ)
  | collectOrder (item : AItem κ)
  | spendBudget (amount : ℤ)
  deriving DecidableEq, Repr

namespace TimedEvent

variable {κ : Type*}

/-- The operation of the store that an event executes. -/
def op : TimedEvent κ → Option (StoreEvent κ)
  | .fireTimer _ color shape => some (.requestOrder color shape)
  | .onConstructedItemPickedUp _ => none
  | .collectOrder item => some (.collectOrder item)
  | .spendBudget amount => some (.spendBudget amount)

def fires : TimedEvent κ → Bool
  | .fireTimer .. => true
  | _ => false

/-- The wait time that an event draws. -/
def wait : TimedEvent κ → Option ℚ
  | .onConstructedItemPickedUp wait => some wait
  | _ => none

end TimedEvent

section Counts

variable {κ : Type*}

/-- The operations of the store in a run. -/
def ops (es : List (TimedEvent κ)) : List (StoreEvent κ) := es.flatMap fun e => e.op.toList

/-- The number of `RequestOrder` executions in a run. -/
def firings (es : List (TimedEvent κ)) : ℕ := es.countP TimedEvent.fires

/-- The wait times drawn in a run, one for each `OnConstructedItemPickedUp`. -/
def waits (es : List (TimedEvent κ)) : List ℚ := es.filterMap TimedEvent.wait

theorem ops_snoc (es : List (TimedEvent κ)) (e : TimedEvent κ) :
    ops (es ++ [e]) = ops es ++ e.op.toList := by
  rw [ops, List.flatMap_append, List.flatMap_singleton, ops]

theorem firings_snoc (es : List (TimedEvent κ)) (e : TimedEvent κ) :
    firings (es ++ [e]) = firings es + if e.fires then 1 else 0 := by
  rw [firings, List.countP_append, List.countP_singleton, firings]

theorem waits_snoc (es : List (TimedEvent κ)) (e : TimedEvent κ) :
    waits (es ++ [e]) = waits es ++ e.wait.toList := by
  rw [waits, List.filterMap_append, waits]
  cases h : e.wait <;> simp [h]

end Counts

namespace AStore

variable {κ : Type*} {wrap : ℤ → ℤ} {p : StoreSettings} {s s' : AStore} {e : TimedEvent κ}
  {es : List (TimedEvent κ)}

def timedStep (wrap : ℤ → ℤ) (s : AStore) : TimedEvent κ → Option AStore
  | .fireTimer n color shape =>
    if n < s.timers.length then
      { s with timers := s.timers.eraseIdx n }.requestOrder color shape
    else none
  | .onConstructedItemPickedUp wait =>
    -- `FMath::RandRange` draws between its arguments, whichever is the larger
    if min s.newOrderWaitTimeMin s.newOrderWaitTimeMax ≤ wait ∧
        wait ≤ max s.newOrderWaitTimeMin s.newOrderWaitTimeMax then
      some (s.onConstructedItemPickedUp wait)
    else none
  | .collectOrder item => s.step wrap (.collectOrder item)
  | .spendBudget amount => s.step wrap (.spendBudget amount : StoreEvent κ)

variable (κ) in
/-- The server's store and its timers after `BeginPlay`. -/
def timedMachine (wrap : ℤ → ℤ) (p : StoreSettings) : Machine AStore (TimedEvent κ) :=
  ⟨(machine κ wrap p).init, timedStep wrap⟩

/-! ## What one step can do -/

def withTimers (s : AStore) (timers : List StoreTimer) : AStore := { s with timers := timers }

inductive TimedStep (wrap : ℤ → ℤ) (s : AStore) : TimedEvent κ → AStore → Prop
  | fired {n color shape : ℕ} {s' : AStore} (pending : n < s.timers.length)
      (requests : (s.withTimers (s.timers.eraseIdx n)).step wrap
        (.requestOrder color shape : StoreEvent κ) = some s') :
      TimedStep wrap s (.fireTimer n color shape) s'
  | pickedUp {wait : ℚ} :
      TimedStep wrap s (.onConstructedItemPickedUp wait) (s.onConstructedItemPickedUp wait)
  | operated {e : TimedEvent κ} {op : StoreEvent κ} {s' : AStore} (isOp : e.op = some op)
      (noFiring : e.fires = false) (noRequest : ∀ p, op.requested p = none)
      (noWait : e.wait = none) (runs : s.step wrap op = some s') : TimedStep wrap s e s'

theorem timedStep_sound (h : s.timedStep wrap e = some s') : s.TimedStep wrap e s' := by
  cases e with
  | fireTimer n color shape =>
    simp only [timedStep] at h
    split_ifs at h with pending
    exact .fired pending h
  | onConstructedItemPickedUp wait =>
    simp only [timedStep] at h
    split_ifs at h
    cases h
    exact .pickedUp
  | collectOrder item => exact .operated rfl rfl (fun _ => rfl) rfl h
  | spendBudget amount => exact .operated rfl rfl (fun _ => rfl) rfl h

/-! ## The store without its timers -/

section WithTimers

variable (timers : List StoreTimer)

theorem onRepActiveOrders_withTimers :
    (s.withTimers timers).onRepActiveOrders = s.onRepActiveOrders.withTimers timers := by
  rw [onRepActiveOrders_eq, onRepActiveOrders_eq]
  rfl

theorem requestOrder_withTimers (color shape : ℕ) :
    (s.withTimers timers).requestOrder color shape =
      (s.requestOrder color shape).map fun t => t.withTimers timers := by
  ext t
  rw [requestOrder_eq_some_iff, Option.map_eq_some_iff]
  simp only [requestOrder_eq_some_iff]
  constructor
  · rintro ⟨order, drawn, rfl⟩
    exact ⟨_, ⟨order, drawn, rfl⟩, (onRepActiveOrders_withTimers timers).symm⟩
  · rintro ⟨_, ⟨order, drawn, rfl⟩, rfl⟩
    exact ⟨order, drawn, (onRepActiveOrders_withTimers timers).symm⟩

theorem collectOrder_withTimers (item : AItem κ) :
    (s.withTimers timers).collectOrder wrap item =
      (s.collectOrder wrap item).map fun t => t.withTimers timers := by
  have front : (s.withTimers timers).activeOrders = s.activeOrders := rfl
  unfold collectOrder
  rw [front]
  cases s.activeOrders with
  | nil => rfl
  | cons order rest =>
    have taken : ({ s.withTimers timers with activeOrders := rest } : AStore).onRepActiveOrders =
        ({ s with activeOrders := rest } : AStore).onRepActiveOrders.withTimers timers :=
      onRepActiveOrders_withTimers (s := { s with activeOrders := rest }) timers
    simp only [taken]
    cases order.itemShapeDataAsset with
    | none => rfl
    | some shape =>
      simp only [Option.bind_eq_bind, Option.bind_some]
      split_ifs with other
      · rfl
      · cases order.itemColorDataAsset with
        | none => rfl
        | some color => rfl

theorem step_withTimers (wrap : ℤ → ℤ) (e : StoreEvent κ) :
    (s.withTimers timers).step wrap e = (s.step wrap e).map fun t => t.withTimers timers := by
  cases e with
  | requestOrder color shape => exact requestOrder_withTimers timers color shape
  | collectOrder item => exact collectOrder_withTimers timers item
  | spendBudget amount =>
    simp only [step]
    split_ifs <;> rfl

theorem setTimer_withTimers (wait : ℚ) :
    (s.setTimer wait).withTimers timers = s.withTimers timers := by
  unfold setTimer
  split_ifs <;> rfl

end WithTimers

/-- Without its timers, the timed store runs as the store does. -/
theorem simulates_machine :
    (timedMachine κ wrap p).Simulates (machine κ wrap p)
      (fun s => s.withTimers (machine κ wrap p).init.timers) fun e => e.op.toList where
  init := rfl
  step {s s' e} hs := by
    cases timedStep_sound hs with
    | @fired n color shape _ pending requests =>
      have moved := step_withTimers (machine κ wrap p).init.timers wrap
        (s := s.withTimers (s.timers.eraseIdx n))
        (.requestOrder color shape : StoreEvent κ)
      rw [requests] at moved
      exact (Machine.exec_singleton _ _).trans moved
    | @pickedUp wait => exact congrArg some (setTimer_withTimers _ wait).symm
    | @operated _ op _ isOp noFiring noRequest noWait runs =>
      have moved := step_withTimers (machine κ wrap p).init.timers wrap (s := s) op
      rw [runs] at moved
      rw [isOp]
      exact (Machine.exec_singleton _ _).trans moved

/-! ## Counting timers -/

theorem timers_of_step {e : StoreEvent κ} (h : s.step wrap e = some s') :
    s'.timers = s.timers := by
  cases step_sound h with
  | requested => exact timers_onRepActiveOrders _
  | collected => exact timers_onRepActiveOrders _
  | spent => rfl

theorem toStoreSettings_of_timedRun (h : (timedMachine κ wrap p).Run es s) :
    s.toStoreSettings = p :=
  (toStoreSettings_of_run (simulates_machine.run h) :)

/-- Every firing requests an order. -/
theorem length_requests_ops (h : (timedMachine κ wrap p).Run es s) :
    (requests p (ops es)).length = firings es := by
  induction h with
  | nil => rfl
  | @snoc es s s' e hr hs ih =>
    have settings := toStoreSettings_of_timedRun hr
    rw [ops_snoc, firings_snoc, requests_append, List.length_append, ih]
    congr 1
    cases timedStep_sound hs with
    | @fired n color shape _ pending requested =>
      obtain ⟨order, drawn, -⟩ := (requestOrder_eq_some_iff _ color shape s').1 requested
      have order' : p.order color shape = some order := settings ▸ drawn
      simp [requests, TimedEvent.op, StoreEvent.requested, order', TimedEvent.fires]
    | pickedUp => rfl
    | operated isOp noFiring noRequest noWait runs =>
      rw [isOp, noFiring]
      simp [requests, noRequest p]

/-- Each pickup leads to a firing, is pending, or drew a wait time of zero or less. -/
theorem timers_of_run (h : (timedMachine κ wrap p).Run es s) :
    firings es + s.timers.length + (waits es).countP (· ≤ 0) = 1 + (waits es).length := by
  induction h with
  | nil => rfl
  | @snoc es s s' e hr hs ih =>
    rw [firings_snoc, waits_snoc, List.countP_append, List.length_append]
    cases timedStep_sound hs with
    | @fired n color shape _ pending requested =>
      have timers : s'.timers.length = s.timers.length - 1 := by
        rw [timers_of_step requested]
        exact List.length_eraseIdx_of_lt pending
      have fires : (if (.fireTimer n color shape : TimedEvent κ).fires then 1 else 0) = 1 := rfl
      have noWait : (.fireTimer n color shape : TimedEvent κ).wait.toList = [] := rfl
      rw [timers, fires, noWait, List.countP_nil, List.length_nil]
      omega
    | @pickedUp wait =>
      have noFiring :
          (if (.onConstructedItemPickedUp wait : TimedEvent κ).fires then 1 else 0) = 0 := rfl
      have drawn : (.onConstructedItemPickedUp wait : TimedEvent κ).wait.toList = [wait] := rfl
      rw [onConstructedItemPickedUp, noFiring, drawn, List.countP_singleton, List.length_singleton]
      by_cases lost : wait ≤ 0
      · rw [setTimer_of_nonpos _ lost, if_pos (decide_eq_true lost)]
        omega
      · rw [setTimer_of_pos _ (not_le.1 lost), if_neg (by simpa using lost)]
        simp only [List.length_append, List.length_singleton]
        omega
    | operated isOp noFiring noRequest noWait runs =>
      rw [timers_of_step runs, noFiring, noWait]
      simpa using ih

/-- No request is lost just when every wait time drawn is positive; then the store has an active or
a pending order as long as no more orders are collected than items were picked up. -/
theorem no_request_lost_iff (h : (timedMachine κ wrap p).Run es s) :
    (firings es + s.timers.length = 1 + (waits es).length ↔ ∀ wait ∈ waits es, 0 < wait) ∧
      ((∀ wait ∈ waits es, 0 < wait) → (collections (ops es)).length ≤ (waits es).length →
        1 ≤ s.activeOrders.length + s.timers.length) := by
  have timers := timers_of_run h
  have none : (waits es).countP (· ≤ 0) = 0 ↔ ∀ wait ∈ waits es, 0 < wait := by
    simp [List.countP_eq_zero]
  have book : s.activeOrders.length + (collections (ops es)).length = firings es :=
    (length_activeOrders_of_run (simulates_machine.run h)).trans (length_requests_ops h)
  refine ⟨⟨fun kept => none.1 (by omega), fun positive => ?_⟩, fun positive collected => ?_⟩
  · have lost := none.2 positive
    omega
  · have lost := none.2 positive
    omega

/-- Both ends of the wait time are zero, which the editor admits. -/
def impatient : StoreSettings :=
  { twoByTwo with newOrderWaitTimeMin := 0, newOrderWaitTimeMax := 0 }

/-- The initial order is collected, and the pickup of its item requests no other. -/
def runDry : List (TimedEvent ℕ) :=
  [.fireTimer 0 0 0, .onConstructedItemPickedUp 0,
    .collectOrder { itemInfo := ⟨FColor.silver, .sphere⟩ }]

/-- One order was requested for one pickup, none is active and none is pending. -/
theorem runDry_loses_request : ∃ s, (timedMachine ℕ id impatient).Run runDry s ∧
    firings runDry + s.timers.length ≠ 1 + (waits runDry).length ∧
    (collections (ops runDry)).length ≤ (waits runDry).length ∧
    s.activeOrders = [] ∧ s.timers = [] :=
  ⟨_, (timedMachine ℕ id impatient).run_of_isSome runDry (by decide +kernel), by decide +kernel,
    by decide +kernel, by decide +kernel, by decide +kernel⟩

/-- Two pickups overlap, and the later timer fires first. -/
def overlapping : List (TimedEvent ℕ) :=
  [.fireTimer 0 0 0, .onConstructedItemPickedUp 2, .onConstructedItemPickedUp 3, .fireTimer 1 1 1]

theorem no_request_lost_iff_overlapping : ∃ s, (timedMachine ℕ id twoByTwo).Run overlapping s ∧
    firings overlapping + s.timers.length = 1 + (waits overlapping).length ∧
    1 ≤ s.activeOrders.length + s.timers.length :=
  have run := (timedMachine ℕ id twoByTwo).run_of_isSome overlapping (by decide +kernel)
  have kept := no_request_lost_iff run
  ⟨_, run, kept.1.2 (by decide +kernel), kept.2 (by decide +kernel) (by decide +kernel)⟩

end AStore

end CarpenterDemo
