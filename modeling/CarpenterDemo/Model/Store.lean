import CarpenterDemo.Library.MachineInt
import CarpenterDemo.Model.Item
import Mathlib.Algebra.Order.Ring.Rat

/-!
# The store

`AStore` with the functions of `Store.cpp`.  A value of `AStore` is one machine's copy of the actor.
Besides its properties it holds what the engine keeps for it: the broadcasts of `OnOrderRequested`
and `OnOrderCollected` so far, and the timers that will call `RequestOrder`.

* Asset pointers are `Option`s; reading through a null pointer, or an array out of its range, is a
  failed call (`none`).
* The results of `FMath::RandRange` are arguments of the functions that draw them.
* `wrap` is what the integer type makes of the exact result of an addition or a subtraction:
  `id` for unbounded integers, `int32` for the type of the source.
-/

namespace CarpenterDemo

/-- A color asset.  `path` tells assets with the same content apart. -/
structure UItemColorDataAsset where
  path : ℕ
  color : FColor
  deriving DecidableEq, Repr

/-- A shape asset.  `path` tells assets with the same content apart. -/
structure UItemShapeDataAsset where
  path : ℕ
  itemShape : EItemShapes := .sphere
  deriving DecidableEq, Repr

structure FOrderInfo where
  itemColorDataAsset : Option UItemColorDataAsset := none
  itemShapeDataAsset : Option UItemShapeDataAsset := none
  deriving DecidableEq, Repr

/-- A broadcast of `OnOrderRequested` or of `OnOrderCollected`. -/
inductive StoreBroadcast
  | orderRequested (orderInfo : FOrderInfo)
  | orderCollected
  deriving DecidableEq, Repr

/-- A pending timer that will call `RequestOrder`. -/
inductive StoreTimer
  | nextTick
  | after (rate : ℚ)
  deriving DecidableEq, Repr

/-- The properties of the store that are set in the editor. -/
structure StoreSettings where
  newOrderWaitTimeMin : ℚ := 2
  newOrderWaitTimeMax : ℚ := 4
  orderableColorDataAssets : List (Option UItemColorDataAsset) := []
  orderableShapeDataAssets : List (Option UItemShapeDataAsset) := []
  orderReward : ℤ := 100
  startingBudget : ℤ := 500
  deriving DecidableEq, Repr

/-- The order that a pair of drawn indices makes. -/
def StoreSettings.order (p : StoreSettings) (color shape : ℕ) : Option FOrderInfo :=
  (p.orderableColorDataAssets[color]?).bind fun c =>
    (p.orderableShapeDataAssets[shape]?).map fun s => ⟨c, s⟩

/-- What an item earns against the order. -/
def FOrderInfo.earned (order : FOrderInfo) (orderReward : ℤ) (itemInfo : FItemInfo) : ℤ :=
  if order.itemShapeDataAsset.map (·.itemShape) ≠ some itemInfo.itemShape then 0
  else if order.itemColorDataAsset.map (·.color) ≠ some itemInfo.itemColor then orderReward.tdiv 2
  else orderReward

/-- One machine's copy of the store. -/
structure AStore extends StoreSettings where
  activeOrders : List FOrderInfo := []
  localActiveOrders : List FOrderInfo := []
  currentBudget : ℤ := 0
  broadcasts : List StoreBroadcast := []
  timers : List StoreTimer := []
  deriving DecidableEq, Repr

/-- The engine constant `INT_MAX`. -/
def intMax : ℤ := 2 ^ 31 - 1

/-- The value of the type `int32` that an exact result wraps to. -/
def int32 : ℤ → ℤ := MachineInt.wrap 32

namespace AStore

variable (s : AStore)

/-! ## The engine's timers -/

def setTimerForNextTick : AStore := { s with timers := s.timers ++ [.nextTick] }

/-- `SetTimer` with a fresh handle and without looping.  A rate of zero or less sets no timer. -/
def setTimer (rate : ℚ) : AStore :=
  if rate ≤ 0 then s else { s with timers := s.timers ++ [.after rate] }

/-! ## The functions of the store -/

def beginPlay (hasAuthority : Bool) : AStore :=
  let s := { s with currentBudget := s.startingBudget }
  if !hasAuthority then s
  else s.setTimerForNextTick

/-- The first loop of `OnRep_ActiveOrders`, from the index `i` on. -/
def requestedLoop (s : AStore) (i : ℕ) : AStore :=
  if h : i < s.activeOrders.length then
    let orderInfo := s.activeOrders[i]
    if i < s.localActiveOrders.length then requestedLoop s (i + 1)
    else
      requestedLoop
        { s with
          localActiveOrders := s.localActiveOrders ++ [orderInfo]
          broadcasts := s.broadcasts ++ [.orderRequested orderInfo] } (i + 1)
  else s
termination_by s.activeOrders.length - i

/-- The second loop of `OnRep_ActiveOrders`, from the index `i` on. -/
def collectedLoop (s : AStore) (i : ℕ) : AStore :=
  if i < s.localActiveOrders.length then
    if i < s.activeOrders.length then collectedLoop s (i + 1)
    else collectedLoop { s with broadcasts := s.broadcasts ++ [.orderCollected] } (i + 1)
  else s
termination_by s.localActiveOrders.length - i

def onRepActiveOrders : AStore :=
  let s := (s.requestedLoop 0).collectedLoop 0
  { s with localActiveOrders := s.activeOrders }

/-- `RequestOrder` with the two indices it draws. -/
def requestOrder (color shape : ℕ) : Option AStore := do
  let randomColorDataAsset ← s.orderableColorDataAssets[color]?
  let randomShapeAsset ← s.orderableShapeDataAssets[shape]?
  let requestedOrderInfo := ⟨randomColorDataAsset, randomShapeAsset⟩
  return { s with activeOrders := s.activeOrders ++ [requestedOrderInfo] }.onRepActiveOrders

/-- `OnConstructedItemPickedUp` with the wait time it draws. -/
def onConstructedItemPickedUp (wait : ℚ) : AStore := s.setTimer wait

def collectOrder {κ : Type*} (wrap : ℤ → ℤ) (item : AItem κ) : Option AStore :=
  match s.activeOrders with
  | [] => none
  | orderInfo :: rest => do
    let s := { s with activeOrders := rest }.onRepActiveOrders
    let itemInfo := item.getItemInfo
    let itemShapeDataAsset ← orderInfo.itemShapeDataAsset
    if itemInfo.itemShape ≠ itemShapeDataAsset.itemShape then
      return s
    let itemColorDataAsset ← orderInfo.itemColorDataAsset
    let reward :=
      if itemInfo.itemColor ≠ itemColorDataAsset.color then s.orderReward.tdiv 2
      else s.orderReward
    return { s with currentBudget := wrap (s.currentBudget + reward) }

def spendBudget (wrap : ℤ → ℤ) (amount : ℤ) : AStore :=
  let s := { s with currentBudget := wrap (s.currentBudget - amount) }
  { s with currentBudget := MachineInt.clamp s.currentBudget 0 intMax }

/-! ## What `OnRep_ActiveOrders` does -/

/-- The first loop appends what the mirror list is too short for, and announces it. -/
theorem requestedLoop_eq (s : AStore) (i : ℕ) (h : i ≤ s.localActiveOrders.length) :
    s.requestedLoop i = { s with
      localActiveOrders :=
        s.localActiveOrders ++ s.activeOrders.drop s.localActiveOrders.length
      broadcasts := s.broadcasts ++
        (s.activeOrders.drop s.localActiveOrders.length).map .orderRequested } := by
  fun_induction requestedLoop s i with
  | case1 s i inRange known ih => exact ih known
  | case2 s i inRange orderInfo unknown ih =>
    have last : s.localActiveOrders.length = i := by omega
    have next : s.activeOrders.drop i = orderInfo :: s.activeOrders.drop (i + 1) :=
      List.drop_eq_getElem_cons inRange
    rw [ih (by simp [last])]
    simp only [List.length_append, List.length_singleton, last, next, List.map_cons,
      List.append_assoc, List.singleton_append]
  | case3 s i outOfRange =>
    have none : s.activeOrders.drop s.localActiveOrders.length = [] :=
      List.drop_eq_nil_of_le (by omega)
    simp [none]

/-- The second loop announces one collected order for each index past the end of the list. -/
theorem collectedLoop_eq (s : AStore) (i : ℕ) :
    s.collectedLoop i = { s with
      broadcasts := s.broadcasts ++ List.replicate
        (s.localActiveOrders.length - max i s.activeOrders.length) .orderCollected } := by
  fun_induction collectedLoop s i with
  | case1 s i inRange kept ih =>
    rw [ih, Nat.max_eq_right (by omega), Nat.max_eq_right (by omega)]
  | case2 s i inRange gone ih =>
    have split : s.localActiveOrders.length - max i s.activeOrders.length =
        s.localActiveOrders.length - max (i + 1) s.activeOrders.length + 1 := by omega
    rw [ih, split, List.replicate_succ]
    simp
  | case3 s i outOfRange =>
    have none : s.localActiveOrders.length - max i s.activeOrders.length = 0 := by omega
    simp [none]

theorem onRepActiveOrders_eq :
    s.onRepActiveOrders = { s with
      localActiveOrders := s.activeOrders
      broadcasts := s.broadcasts ++
        (s.activeOrders.drop s.localActiveOrders.length).map .orderRequested ++
        List.replicate (s.localActiveOrders.length - s.activeOrders.length) .orderCollected } := by
  have length : (s.localActiveOrders ++ s.activeOrders.drop s.localActiveOrders.length).length -
      max 0 s.activeOrders.length = s.localActiveOrders.length - s.activeOrders.length := by
    rw [List.length_append, List.length_drop]
    omega
  rw [onRepActiveOrders, requestedLoop_eq s 0 (Nat.zero_le _), collectedLoop_eq]
  simp only [length]

@[simp] theorem activeOrders_onRepActiveOrders :
    s.onRepActiveOrders.activeOrders = s.activeOrders := by rw [onRepActiveOrders_eq]

@[simp] theorem localActiveOrders_onRepActiveOrders :
    s.onRepActiveOrders.localActiveOrders = s.activeOrders := by rw [onRepActiveOrders_eq]

@[simp] theorem currentBudget_onRepActiveOrders :
    s.onRepActiveOrders.currentBudget = s.currentBudget := by rw [onRepActiveOrders_eq]

@[simp] theorem timers_onRepActiveOrders : s.onRepActiveOrders.timers = s.timers := by
  rw [onRepActiveOrders_eq]

@[simp] theorem toStoreSettings_onRepActiveOrders :
    s.onRepActiveOrders.toStoreSettings = s.toStoreSettings := by rw [onRepActiveOrders_eq]

theorem broadcasts_onRepActiveOrders :
    s.onRepActiveOrders.broadcasts = s.broadcasts ++
      (s.activeOrders.drop s.localActiveOrders.length).map .orderRequested ++
      List.replicate (s.localActiveOrders.length - s.activeOrders.length) .orderCollected := by
  rw [onRepActiveOrders_eq]

/-! ## What each operation does -/

/-- `c` is the budget `b` after `earned` has been added to it, or left out because it is zero. -/
def Paid (wrap : ℤ → ℤ) (b earned c : ℤ) : Prop := c = wrap (b + earned) ∨ earned = 0 ∧ c = b

theorem requestOrder_eq_some_iff (color shape : ℕ) (s' : AStore) :
    s.requestOrder color shape = some s' ↔ ∃ order, s.order color shape = some order ∧
      s' = { s with activeOrders := s.activeOrders ++ [order] }.onRepActiveOrders := by
  unfold requestOrder StoreSettings.order
  cases s.orderableColorDataAssets[color]? with
  | none => simp
  | some c =>
    cases s.orderableShapeDataAssets[shape]? with
    | none => simp
    | some sh => simp [eq_comm]

/-- A collection takes the order at the front and pays what the item earns against it. -/
theorem collectOrder_sound {κ : Type*} {wrap : ℤ → ℤ} {item : AItem κ} {s s' : AStore}
    (h : s.collectOrder wrap item = some s') :
    ∃ order rest budget, s.activeOrders = order :: rest ∧
      Paid wrap s.currentBudget (order.earned s.orderReward item.getItemInfo) budget ∧
      s' = { { s with activeOrders := rest }.onRepActiveOrders with currentBudget := budget } := by
  unfold collectOrder at h
  split at h
  · cases h
  · rename_i order rest front
    obtain ⟨t, ht⟩ : ∃ t, t = { s with activeOrders := rest }.onRepActiveOrders := ⟨_, rfl⟩
    have budget : t.currentBudget = s.currentBudget := by rw [ht, currentBudget_onRepActiveOrders]
    have reward : t.orderReward = s.orderReward := by rw [ht, toStoreSettings_onRepActiveOrders]
    rw [← ht, Option.bind_eq_bind, Option.bind_eq_some_iff] at h
    obtain ⟨shape, hshape, h⟩ := h
    refine ⟨order, rest, s'.currentBudget, front, ?_⟩
    rw [← ht, FOrderInfo.earned, hshape, Option.map_some]
    split_ifs at h with other
    · -- the wrong shape: nothing is paid
      cases h
      rw [if_pos fun same => other (Option.some.inj same).symm]
      exact ⟨Or.inr ⟨rfl, budget⟩, rfl⟩
    · rw [Option.bind_eq_bind, Option.bind_eq_some_iff] at h
      obtain ⟨color, hcolor, h⟩ := h
      cases h
      rw [if_neg (not_not.2 (congrArg some (not_not.1 other).symm)), hcolor, Option.map_some]
      refine ⟨Or.inl ?_, rfl⟩
      simp only [budget, reward, ne_eq, Option.some.injEq, eq_comm]

theorem setTimer_of_pos {rate : ℚ} (h : 0 < rate) :
    s.setTimer rate = { s with timers := s.timers ++ [.after rate] } := if_neg (not_le.2 h)

theorem setTimer_of_nonpos {rate : ℚ} (h : rate ≤ 0) : s.setTimer rate = s := if_pos h

end AStore

end CarpenterDemo
