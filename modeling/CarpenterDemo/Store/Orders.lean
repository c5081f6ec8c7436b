import CarpenterDemo.Library.Fifo
import CarpenterDemo.Library.Machine
import CarpenterDemo.Model.Store

/-!
# The order book

`AStore.machine` is the server's store after `BeginPlay`, with any sequence of `RequestOrder`,
`CollectOrder` and `SpendBudget`.

* `requests` and `collections` read the requested orders and the collected items off a run.
* `book_of_run`: the active orders are what is left in a queue into which every requested order is
  pushed and from which every collection takes one.
* `returns_of_run`: which operations return rather than fail on an index or a null asset.
* `orderBook_fifo`: the active orders after a run, and what each further operation announces and
  pays.
-/

namespace CarpenterDemo

/-- What can happen to the server's store. -/
inductive StoreEvent (κ : Type*)
  | requestOrder (color shape : ℕ)
  | collectOrder (item : AItem κ)
  | spendBudget (amount : ℤ)
  deriving DecidableEq, Repr

/-- The order that an event requests. -/
def StoreEvent.requested {κ : Type*} (p : StoreSettings) : StoreEvent κ → Option FOrderInfo
  | .requestOrder color shape => p.order color shape
  | _ => none

/-- The item that an event collects. -/
def StoreEvent.collected {κ : Type*} : StoreEvent κ → Option (AItem κ)
  | .collectOrder item => some item
  | _ => none

/-- The orders requested in a run, oldest first. -/
def requests {κ : Type*} (p : StoreSettings) (es : List (StoreEvent κ)) : List FOrderInfo :=
  es.filterMap (StoreEvent.requested p)

/-- The items collected in a run, oldest first. -/
def collections {κ : Type*} (es : List (StoreEvent κ)) : List (AItem κ) :=
  es.filterMap StoreEvent.collected

/-- What an item is worth against an order. -/
def FOrderInfo.grade (order : FOrderInfo) (orderReward : ℤ) (itemInfo : FItemInfo) : ℤ :=
  if order.itemShapeDataAsset.map (·.itemShape) ≠ some itemInfo.itemShape then 0
  else if order.itemColorDataAsset.map (·.color) = some itemInfo.itemColor then orderReward
  else orderReward / 2

theorem FOrderInfo.earned_eq_grade (order : FOrderInfo) {orderReward : ℤ} (h : 0 ≤ orderReward)
    (itemInfo : FItemInfo) :
    order.earned orderReward itemInfo = order.grade orderReward itemInfo := by
  rw [earned, grade, Int.tdiv_eq_ediv_of_nonneg h]
  simp only [ite_not]

namespace AStore

variable {κ : Type*} {wrap : ℤ → ℤ} {p : StoreSettings} {s s' : AStore} {e : StoreEvent κ}
  {es : List (StoreEvent κ)}

def step (wrap : ℤ → ℤ) (s : AStore) : StoreEvent κ → Option AStore
  | .requestOrder color shape => s.requestOrder color shape
  | .collectOrder item => s.collectOrder wrap item
  | .spendBudget amount =>
    -- an argument is a value of the integer type
    if wrap amount = amount then some (s.spendBudget wrap amount) else none

variable (κ) in
/-- The server's store after `BeginPlay`. -/
def machine (wrap : ℤ → ℤ) (p : StoreSettings) : Machine AStore (StoreEvent κ) :=
  ⟨beginPlay { toStoreSettings := p } true, step wrap⟩

/-! ## What one step can do -/

inductive Step (wrap : ℤ → ℤ) (s : AStore) : StoreEvent κ → AStore → Prop
  | requested {color shape : ℕ} {order : FOrderInfo} (drawn : s.order color shape = some order) :
      Step wrap s (.requestOrder color shape)
        { s with activeOrders := s.activeOrders ++ [order] }.onRepActiveOrders
  | collected {item : AItem κ} {order : FOrderInfo} {rest : List FOrderInfo} {budget : ℤ}
      (front : s.activeOrders = order :: rest)
      (paid : Paid wrap s.currentBudget (order.earned s.orderReward item.getItemInfo) budget) :
      Step wrap s (.collectOrder item)
        { { s with activeOrders := rest }.onRepActiveOrders with currentBudget := budget }
  | spent {amount : ℤ} (fits : wrap amount = amount) :
      Step wrap s (.spendBudget amount) (s.spendBudget wrap amount)

theorem step_sound (h : s.step wrap e = some s') : s.Step wrap e s' := by
  cases e with
  | requestOrder color shape =>
    obtain ⟨order, drawn, rfl⟩ := (s.requestOrder_eq_some_iff color shape s').1 h
    exact .requested drawn
  | collectOrder item =>
    obtain ⟨order, rest, budget, front, paid, rfl⟩ := collectOrder_sound h
    exact .collected front paid
  | spendBudget amount =>
    simp only [step] at h
    split_ifs at h with fits
    cases h
    exact .spent fits

theorem toStoreSettings_of_step (h : s.step wrap e = some s') :
    s'.toStoreSettings = s.toStoreSettings := by
  cases step_sound h with
  | requested => exact toStoreSettings_onRepActiveOrders _
  | collected => exact toStoreSettings_onRepActiveOrders _
  | spent => rfl

theorem toStoreSettings_of_run (h : (machine κ wrap p).Run es s) : s.toStoreSettings = p :=
  h.invariant (I := fun t => t.toStoreSettings = p) rfl
    fun hp hs => (toStoreSettings_of_step hs).trans hp

/-- On the server the mirror list is up to date after every operation. -/
theorem localActiveOrders_of_step (synced : s.localActiveOrders = s.activeOrders)
    (h : s.step wrap e = some s') : s'.localActiveOrders = s'.activeOrders := by
  cases step_sound h with
  | requested => simp
  | collected => simp
  | spent => exact synced

theorem localActiveOrders_of_run (h : (machine κ wrap p).Run es s) :
    s.localActiveOrders = s.activeOrders :=
  h.invariant (I := fun t => t.localActiveOrders = t.activeOrders) rfl
    localActiveOrders_of_step

theorem length_activeOrders_of_step (h : s.step wrap e = some s') :
    match e with
    | .requestOrder .. => s'.activeOrders.length = s.activeOrders.length + 1
    | .collectOrder _ => s'.activeOrders.length + 1 = s.activeOrders.length
    | .spendBudget _ => s'.activeOrders.length = s.activeOrders.length := by
  cases step_sound h with
  | requested => simp
  | collected front => simp [front]
  | spent => rfl

/-! ## The queue of orders -/

theorem requests_append (es fs : List (StoreEvent κ)) :
    requests p (es ++ fs) = requests p es ++ requests p fs := List.filterMap_append

theorem collections_append (es fs : List (StoreEvent κ)) :
    collections (es ++ fs) = collections es ++ collections fs := List.filterMap_append

/-- The active orders are the contents of the queue of all requests. -/
theorem book_of_run (h : (machine κ wrap p).Run es s) :
    ∃ q : Fifo FOrderInfo, q.history = requests p es ∧ q.taken = (collections es).length ∧
      q.contents = s.activeOrders := by
  induction h with
  | nil => exact ⟨Fifo.empty _, rfl, rfl, rfl⟩
  | @snoc es s s' e hr hs ih =>
    obtain ⟨q, history, taken, contents⟩ := ih
    rw [requests_append, collections_append, ← history, List.length_append, ← taken]
    have settings := toStoreSettings_of_run hr
    cases step_sound hs with
    | @requested color shape order drawn =>
      rw [settings] at drawn
      refine ⟨q.push order, ?_, rfl, ?_⟩
      · simp [requests, StoreEvent.requested, drawn, Fifo.push]
      · rw [q.contents_push, contents, activeOrders_onRepActiveOrders]
    | @collected item order rest budget front paid =>
      refine ⟨q.pop (contents.trans front), ?_, rfl, ?_⟩
      · exact (List.append_nil _).symm
      · rw [q.contents_pop, activeOrders_onRepActiveOrders]
    | spent => exact ⟨q, (List.append_nil _).symm, rfl, contents⟩

theorem activeOrders_of_run (h : (machine κ wrap p).Run es s) :
    s.activeOrders = (requests p es).drop (collections es).length := by
  obtain ⟨q, history, taken, contents⟩ := book_of_run h
  rw [← history, ← taken, ← contents]
  rfl

/-- Every requested order is active or has been collected. -/
theorem length_activeOrders_of_run (h : (machine κ wrap p).Run es s) :
    s.activeOrders.length + (collections es).length = (requests p es).length := by
  obtain ⟨q, history, taken, contents⟩ := book_of_run h
  rw [← history, ← taken, ← contents]
  exact q.length_contents

/-- While nothing is collected, the active orders grow at their end. -/
theorem activeOrders_grow {fs : List (StoreEvent κ)} (h : (machine κ wrap p).Run es s)
    (h' : (machine κ wrap p).Run (es ++ fs) s') (noCollection : collections fs = []) :
    s.activeOrders <+: s'.activeOrders := by
  have length := length_activeOrders_of_run h
  rw [activeOrders_of_run h, activeOrders_of_run h', requests_append, collections_append,
    noCollection, List.append_nil, List.drop_append_of_le_length (by omega)]
  exact List.prefix_append _ _

/-- While nothing is requested, the active orders shrink at their front. -/
theorem activeOrders_shrink {fs : List (StoreEvent κ)} (h : (machine κ wrap p).Run es s)
    (h' : (machine κ wrap p).Run (es ++ fs) s') (noRequest : requests p fs = []) :
    s'.activeOrders <:+ s.activeOrders := by
  rw [activeOrders_of_run h, activeOrders_of_run h', requests_append, collections_append,
    noRequest, List.append_nil, List.length_append, ← List.drop_drop]
  exact List.drop_suffix _ _

/-! ## Which operations return -/

/-- None of the assets to order is null. -/
def AssetsSet (p : StoreSettings) : Prop :=
  none ∉ p.orderableColorDataAssets ∧ none ∉ p.orderableShapeDataAssets

theorem assets_of_order (assets : AssetsSet p) {color shape : ℕ} {order : FOrderInfo}
    (drawn : p.order color shape = some order) :
    order.itemColorDataAsset ≠ none ∧ order.itemShapeDataAsset ≠ none := by
  obtain ⟨c, colorDrawn, drawn⟩ := Option.bind_eq_some_iff.1 drawn
  obtain ⟨d, shapeDrawn, rfl⟩ := Option.map_eq_some_iff.1 drawn
  constructor
  · rintro rfl
    exact assets.1 (List.mem_of_getElem? colorDrawn)
  · rintro rfl
    exact assets.2 (List.mem_of_getElem? shapeDrawn)

/-- Every order that waits names a color and a shape. -/
theorem assets_of_run (assets : AssetsSet p) (h : (machine κ wrap p).Run es s)
    (order : FOrderInfo) (active : order ∈ s.activeOrders) :
    order.itemColorDataAsset ≠ none ∧ order.itemShapeDataAsset ≠ none := by
  rw [activeOrders_of_run h] at active
  obtain ⟨e, -, requested⟩ := List.mem_filterMap.1 (List.mem_of_mem_drop active)
  cases e with
  | requestOrder color shape => exact assets_of_order assets requested
  | collectOrder item => cases requested
  | spendBudget amount => cases requested

theorem collectOrder_isSome {order : FOrderInfo} {rest : List FOrderInfo}
    (front : s.activeOrders = order :: rest) (color : order.itemColorDataAsset ≠ none)
    (shape : order.itemShapeDataAsset ≠ none) (item : AItem κ) :
    (s.collectOrder wrap item).isSome := by
  obtain ⟨c, hasColor⟩ := Option.ne_none_iff_exists'.1 color
  obtain ⟨d, hasShape⟩ := Option.ne_none_iff_exists'.1 shape
  rw [collectOrder, front]
  simp only [hasColor, hasShape, Option.bind_eq_bind, Option.bind_some, Option.pure_def]
  split_ifs <;> rfl

/-- `RequestOrder` returns whenever it draws from the lists of assets, and `CollectOrder` whenever
there is an order. -/
theorem returns_of_run (assets : AssetsSet p) (h : (machine κ wrap p).Run es s) :
    (∀ color shape, color < p.orderableColorDataAssets.length →
      shape < p.orderableShapeDataAssets.length → (s.requestOrder color shape).isSome) ∧
    (s.activeOrders ≠ [] → ∀ item : AItem κ, (s.collectOrder wrap item).isSome) := by
  constructor
  · intro color shape colorInside shapeInside
    rw [← toStoreSettings_of_run h] at colorInside shapeInside
    rw [requestOrder, List.getElem?_eq_getElem colorInside, List.getElem?_eq_getElem shapeInside]
    rfl
  · intro nonempty item
    obtain ⟨order, rest, front⟩ := List.exists_cons_of_ne_nil nonempty
    obtain ⟨color, shape⟩ := assets_of_run assets h order (front ▸ List.mem_cons_self)
    exact collectOrder_isSome front color shape item

/-! ## What is announced and paid -/

/-- What the event `e` announces and pays when it takes the store from `s` to `s'` after the run
`es`. -/
def Effect (p : StoreSettings) (es : List (StoreEvent κ)) (s s' : AStore) : StoreEvent κ → Prop
  | .requestOrder color shape => ∃ order, p.order color shape = some order ∧
      s'.broadcasts = s.broadcasts ++ [.orderRequested order] ∧
      s'.currentBudget = s.currentBudget
  | .collectOrder item => ∃ order, (requests p es)[(collections es).length]? = some order ∧
      s'.broadcasts = s.broadcasts ++ [.orderCollected] ∧
      s'.currentBudget = s.currentBudget + order.grade p.orderReward item.getItemInfo
  | .spendBudget _ => s'.broadcasts = s.broadcasts

theorem broadcasts_push (synced : s.localActiveOrders = s.activeOrders) (order : FOrderInfo) :
    ({ s with activeOrders := s.activeOrders ++ [order] } : AStore).onRepActiveOrders.broadcasts =
      s.broadcasts ++ [.orderRequested order] := by
  simp [broadcasts_onRepActiveOrders, synced]

theorem broadcasts_pop (synced : s.localActiveOrders = s.activeOrders) {order : FOrderInfo}
    {rest : List FOrderInfo} (front : s.activeOrders = order :: rest) :
    ({ s with activeOrders := rest } : AStore).onRepActiveOrders.broadcasts =
      s.broadcasts ++ [.orderCollected] := by
  simp [broadcasts_onRepActiveOrders, synced, front]

theorem effect_of_step (reward : 0 ≤ p.orderReward) (h : (machine κ id p).Run es s)
    (hs : s.step id e = some s') : Effect p es s s' e := by
  have settings := toStoreSettings_of_run h
  have synced := localActiveOrders_of_run h
  cases step_sound hs with
  | @requested color shape order drawn =>
    rw [settings] at drawn
    exact ⟨order, drawn, broadcasts_push synced order, currentBudget_onRepActiveOrders _⟩
  | @collected item order rest budget front paid =>
    obtain ⟨q, history, taken, contents⟩ := book_of_run h
    rw [settings, order.earned_eq_grade reward] at paid
    refine ⟨order, ?_, broadcasts_pop synced front, ?_⟩
    · rw [← history, ← taken]
      exact q.getElem?_taken (contents.trans front)
    · rcases paid with paid | ⟨nothing, same⟩
      · exact paid
      · rw [nothing, Int.add_zero]
        exact same
  | spent => exact rfl

/-- In unbounded integers: after any run the active orders are the requested ones less as many from
the front as were collected, the mirror list equals them, and any further operation announces
exactly its own event and pays exactly the grade of the order it takes. -/
theorem orderBook_fifo (reward : 0 ≤ p.orderReward) (h : (machine κ id p).Run es s) :
    s.activeOrders = (requests p es).drop (collections es).length ∧
      s.localActiveOrders = s.activeOrders ∧
      ∀ e s', s.step id e = some s' → Effect p es s s' e :=
  ⟨activeOrders_of_run h, localActiveOrders_of_run h, fun _ _ hs => effect_of_step reward h hs⟩

/-- A store that offers spheres and cubes, in silver and in black. -/
def twoByTwo : StoreSettings where
  orderableColorDataAssets := [some ⟨0, FColor.silver⟩, some ⟨1, ⟨0, 0, 0, 255⟩⟩]
  orderableShapeDataAssets := [some ⟨2, .sphere⟩, some ⟨3, .cube⟩]

/-- A silver sphere and a black cube are ordered, and a black sphere is delivered for the former. -/
def twoRequests : List (StoreEvent ℕ) :=
  [.requestOrder 0 0, .requestOrder 1 1, .collectOrder { itemInfo := ⟨⟨0, 0, 0, 255⟩, .sphere⟩ }]

theorem orderBook_fifo_twoRequests : ∃ s, (machine ℕ id twoByTwo).Run twoRequests s ∧
    s.currentBudget = 550 ∧ s.activeOrders = (requests twoByTwo twoRequests).drop 1 :=
  have run := (machine ℕ id twoByTwo).run_of_isSome twoRequests (by decide +kernel)
  ⟨_, run, by decide +kernel, (orderBook_fifo (by decide) run).1⟩

end AStore

end CarpenterDemo
