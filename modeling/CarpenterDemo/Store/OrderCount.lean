import CarpenterDemo.Store.Listeners

/-!
# Counting the order events

`outstanding` is the number of `OnOrderRequested` broadcasts of a machine less the number of its
`OnOrderCollected` broadcasts.  A call of `OnRep_ActiveOrders` changes it by the difference of the
lengths of the two lists, whatever they hold, so it telescopes: it is the number of active orders
after every sequence of calls (`onRepActiveOrders_counts`), and with it on the server and on every
client of a run (`StoreNet.countExact_of_run`).
-/

namespace CarpenterDemo

def StoreBroadcast.isRequested : StoreBroadcast → Bool
  | .orderRequested _ => true
  | .orderCollected => false

namespace AStore

/-- The `OnOrderRequested` broadcasts so far less the `OnOrderCollected` broadcasts. -/
def outstanding (s : AStore) : ℤ :=
  s.broadcasts.countP StoreBroadcast.isRequested - s.broadcasts.count .orderCollected

/-- `ActiveOrders` is replaced, and `OnRep_ActiveOrders` called. -/
def updateActiveOrders (s : AStore) (orders : List FOrderInfo) : AStore :=
  { s with activeOrders := orders }.onRepActiveOrders

theorem outstanding_onRepActiveOrders (s : AStore) :
    s.onRepActiveOrders.outstanding =
      s.outstanding + s.activeOrders.length - s.localActiveOrders.length := by
  have requested : ∀ orders : List FOrderInfo,
      (orders.map StoreBroadcast.orderRequested).countP StoreBroadcast.isRequested =
        orders.length := by
    intro orders
    rw [List.countP_map]
    exact List.countP_eq_length.2 fun _ _ => rfl
  have collected : ∀ orders : List FOrderInfo,
      (orders.map StoreBroadcast.orderRequested).count .orderCollected = 0 := by
    intro orders
    apply List.count_eq_zero.2
    simp
  have uncounted : ∀ n : ℕ,
      (List.replicate n StoreBroadcast.orderCollected).countP StoreBroadcast.isRequested = 0 := by
    intro n
    simp [List.countP_replicate, StoreBroadcast.isRequested]
  simp only [outstanding, broadcasts_onRepActiveOrders, List.countP_append, List.count_append,
    requested, collected, uncounted, List.count_replicate_self, List.length_drop]
  omega

/-- The mirror list is up to date and the events count the active orders. -/
structure CountExact (s : AStore) : Prop where
  localActiveOrders : s.localActiveOrders = s.activeOrders
  outstanding : s.outstanding = s.activeOrders.length

theorem CountExact.of_sameOrders {s t : AStore} (hs : s.CountExact) (h : s.SameOrders t) :
    t.CountExact where
  localActiveOrders := by rw [h.localActiveOrders, h.activeOrders, hs.localActiveOrders]
  outstanding := by
    have counted := hs.outstanding
    rw [AStore.outstanding] at counted ⊢
    rw [h.broadcasts, h.activeOrders]
    exact counted

theorem CountExact.updateActiveOrders {s : AStore} (h : s.CountExact) (orders : List FOrderInfo) :
    (s.updateActiveOrders orders).CountExact := by
  have counted := h.outstanding
  constructor
  · rw [AStore.updateActiveOrders, localActiveOrders_onRepActiveOrders,
      activeOrders_onRepActiveOrders]
  · rw [AStore.updateActiveOrders, outstanding_onRepActiveOrders, activeOrders_onRepActiveOrders]
    show s.outstanding + orders.length - s.localActiveOrders.length = orders.length
    rw [h.localActiveOrders]
    omega

theorem CountExact.foldl {s : AStore} (h : s.CountExact) (updates : List (List FOrderInfo)) :
    (updates.foldl AStore.updateActiveOrders s).CountExact := by
  induction updates generalizing s with
  | nil => exact h
  | cons orders updates ih => exact ih (h.updateActiveOrders orders)

theorem onRepActiveOrders_onRepActiveOrders (s : AStore) :
    s.onRepActiveOrders.onRepActiveOrders = s.onRepActiveOrders := by
  rw [onRepActiveOrders_eq s.onRepActiveOrders, activeOrders_onRepActiveOrders,
    localActiveOrders_onRepActiveOrders, List.drop_length, Nat.sub_self]
  simp [onRepActiveOrders_eq]

/-- Whatever the two lists hold, `OnRep_ActiveOrders` makes the mirror list equal to `ActiveOrders`,
announces as requested the orders past the length of the mirror list, in their order, and then
announces as many collections as the mirror list was longer, and changes nothing else.  So after
every sequence of calls that starts with an empty list the events count the active orders, and a
call with an unchanged list announces nothing. -/
theorem onRepActiveOrders_counts (p : StoreSettings) :
    (∀ s : AStore, s.onRepActiveOrders = { s with
      localActiveOrders := s.activeOrders
      broadcasts := s.broadcasts ++
        (s.activeOrders.drop s.localActiveOrders.length).map .orderRequested ++
        List.replicate (s.localActiveOrders.length - s.activeOrders.length) .orderCollected }) ∧
    (∀ updates : List (List FOrderInfo),
      (updates.foldl updateActiveOrders { toStoreSettings := p }).outstanding =
        (updates.foldl updateActiveOrders { toStoreSettings := p }).activeOrders.length) ∧
    ∀ s : AStore, s.onRepActiveOrders.onRepActiveOrders = s.onRepActiveOrders := by
  have fresh : CountExact { toStoreSettings := p } := ⟨rfl, rfl⟩
  refine ⟨onRepActiveOrders_eq, fun updates => ?_, onRepActiveOrders_onRepActiveOrders⟩
  exact (fresh.foldl updates).outstanding

/-! ## On all machines of a run -/

theorem CountExact.replicateActiveOrders {s : AStore} (h : s.CountExact) (value : List FOrderInfo) :
    (s.replicateActiveOrders value).CountExact := by
  unfold AStore.replicateActiveOrders
  split_ifs
  · exact h
  · exact h.updateActiveOrders value

theorem CountExact.step {κ : Type*} {wrap : ℤ → ℤ} {s s' : AStore} {e : StoreEvent κ}
    (h : s.CountExact) (hs : s.step wrap e = some s') : s'.CountExact := by
  cases step_sound hs with
  | @requested color shape order drawn => exact h.updateActiveOrders (s.activeOrders ++ [order])
  | @collected item order rest budget front paid =>
    exact (h.updateActiveOrders rest).of_sameOrders ⟨rfl, rfl, rfl⟩
  | spent => exact h.of_sameOrders ⟨rfl, rfl, rfl⟩

end AStore

namespace StoreNet

variable {κ μ : Type*} [DecidableEq μ] {wrap : ℤ → ℤ} {p : StoreSettings} {s s' : StoreNet μ}

theorem server_of_step {e : StoreNetEvent κ μ} (hs : s.step wrap e = some s') :
    s'.server = s.server ∨ ∃ se : StoreEvent κ, s.server.step wrap se = some s'.server := by
  cases e with
  | server se =>
    obtain ⟨server, hserver, rfl⟩ := Option.map_eq_some_iff.1 hs
    exact Or.inr ⟨se, hserver⟩
  | client m ce =>
    obtain ⟨cl, -, rfl⟩ := Option.map_eq_some_iff.1 hs
    exact Or.inl rfl

/-- In every run the events count the active orders on the server and on every client. -/
theorem countExact_of_run {es : List (StoreNetEvent κ μ)} (h : (machine κ μ wrap p).Run es s) :
    s.server.CountExact ∧ ∀ m, (s.clients m).store.CountExact := by
  apply h.invariant (I := fun s => s.server.CountExact ∧ ∀ m, (s.clients m).store.CountExact)
  · exact ⟨⟨rfl, rfl⟩, fun _ => ⟨rfl, rfl⟩⟩
  · rintro s s' e ⟨server, clients⟩ hs
    constructor
    · rcases server_of_step hs with same | ⟨se, step⟩
      · rw [same]
        exact server
      · exact server.step step
    · intro m
      rcases orders_cases hs m with ⟨value, -, store⟩ | ⟨-, same⟩
      · rw [store]
        exact (clients m).replicateActiveOrders value
      · exact (clients m).of_sameOrders same

end StoreNet

end CarpenterDemo
