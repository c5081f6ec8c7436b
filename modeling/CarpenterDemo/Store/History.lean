import CarpenterDemo.Store.Listeners

/-!
# What a client sees of the orders and of the budget

`shown_in_order`: the lists of orders that a client is handed are, in this order, lists that the
server has had, and so are the budgets.  A client may miss some, but it sees none that the server
has not had and never goes back to an older one.  The list it shows is the last one it was handed,
and once it is up to date it is the server's.
-/

namespace CarpenterDemo

theorem AStore.activeOrders_replicateActiveOrders (s : AStore) (value : List FOrderInfo) :
    (s.replicateActiveOrders value).activeOrders = value := by
  unfold replicateActiveOrders
  split_ifs with same
  · exact same.symm
  · simp

namespace StoreNet

variable {κ μ : Type*} [DecidableEq μ] {wrap : ℤ → ℤ} {p : StoreSettings}
  {es : List (StoreNetEvent κ μ)} {s s' : StoreNet μ} {e : StoreNetEvent κ μ} {m : μ}

/-- The value that a step of the server replaces. -/
def replaced {α : Type*} (value : AStore → α) (s : StoreNet μ) : StoreNetEvent κ μ → List α
  | .server _ => [value s.server]
  | .client _ _ => []

/-- The budget that the step hands to the client `m`. -/
def handedBudget (m : μ) (s : StoreNet μ) : StoreNetEvent κ μ → Option ℤ
  | .client n (.receiveCurrentBudget skipped) =>
    if n = m then ((s.clients n).budgets.receive skipped).map Prod.fst else none
  | _ => none

/-- All values of a property that the server has had, oldest first. -/
def versions {α : Type*} (wrap : ℤ → ℤ) (p : StoreSettings) (value : AStore → α)
    (es : List (StoreNetEvent κ μ)) (s : StoreNet μ) : List α :=
  (machine κ μ wrap p).emitted (replaced value) (machine κ μ wrap p).init es ++ [value s.server]

/-- The lists of orders that the client `m` has been handed, oldest first. -/
def seenOrders (wrap : ℤ → ℤ) (p : StoreSettings) (m : μ) (es : List (StoreNetEvent κ μ)) :
    List (List FOrderInfo) :=
  (machine κ μ wrap p).emitted (fun s e => (s.handed m e).toList) (machine κ μ wrap p).init es

/-- The budgets that the client `m` has been handed, oldest first. -/
def seenBudgets (wrap : ℤ → ℤ) (p : StoreSettings) (m : μ) (es : List (StoreNetEvent κ μ)) :
    List ℤ :=
  (machine κ μ wrap p).emitted (fun s e => (s.handedBudget m e).toList)
    (machine κ μ wrap p).init es

/-- The client has been handed `orders` and `budgets`, and the server has had `pastOrders` and
`pastBudgets` before its present values. -/
structure Watches (orders pastOrders : List (List FOrderInfo)) (budgets pastBudgets : List ℤ)
    (cl : StoreClient) (server : AStore) : Prop where
  ordersFollow : cl.orders.Follows [] orders pastOrders server.activeOrders
  budgetsFollow : cl.budgets.Follows 0 budgets pastBudgets server.currentBudget
  shown : cl.store.activeOrders = orders.getLast?.getD []
  mirror : cl.store.localActiveOrders = cl.store.activeOrders

theorem Watches.client {orders pastOrders : List (List FOrderInfo)} {budgets pastBudgets : List ℤ}
    (h : Watches orders pastOrders budgets pastBudgets (s.clients m) s.server)
    {ce : StoreClientEvent} {cl : StoreClient} (hs : (s.clients m).step s.server ce = some cl) :
    Watches (orders ++ (s.handed m (.client m ce : StoreNetEvent κ μ)).toList) pastOrders
      (budgets ++ (s.handedBudget m (.client m ce : StoreNetEvent κ μ)).toList) pastBudgets cl
      s.server := by
  cases ce with
  | receiveActiveOrders skipped =>
    obtain ⟨⟨value, rest⟩, received, rfl⟩ := Option.map_eq_some_iff.1 hs
    simp only [handed, handedBudget, received, if_true, Option.map_some, Option.toList_some,
      Option.toList_none, List.append_nil]
    refine ⟨h.ordersFollow.receive received, h.budgetsFollow, ?_, ?_⟩
    · rw [AStore.activeOrders_replicateActiveOrders]
      simp
    · exact AStore.localActiveOrders_replicateActiveOrders h.mirror value
  | receiveCurrentBudget skipped =>
    obtain ⟨⟨value, rest⟩, received, rfl⟩ := Option.map_eq_some_iff.1 hs
    simp only [handed, handedBudget, received, if_true, Option.map_some, Option.toList_some,
      Option.toList_none, List.append_nil]
    exact ⟨h.ordersFollow, h.budgetsFollow.receive received, h.shown, h.mirror⟩
  | join =>
    obtain ⟨-, ⟨⟩⟩ := Option.ite_none_left_eq_some.1 hs
    simpa [handed, handedBudget] using ⟨h.ordersFollow, h.budgetsFollow, h.shown, h.mirror⟩
  | beginPlay =>
    obtain ⟨-, ⟨⟩⟩ := Option.ite_none_right_eq_some.1 hs
    simpa [handed, handedBudget] using ⟨h.ordersFollow, h.budgetsFollow, h.shown, h.mirror⟩
  | sendCurrentBudget =>
    obtain ⟨⟨-, changed⟩, ⟨⟩⟩ := Option.ite_none_right_eq_some.1 hs
    simpa [handed, handedBudget] using
      ⟨h.ordersFollow, h.budgetsFollow.send changed, h.shown, h.mirror⟩
  | sendActiveOrders =>
    obtain ⟨⟨-, changed⟩, ⟨⟩⟩ := Option.ite_none_right_eq_some.1 hs
    simpa [handed, handedBudget] using
      ⟨h.ordersFollow.send changed, h.budgetsFollow, h.shown, h.mirror⟩

/-- A step leaves a client alone whose event it is not. -/
theorem Watches.step {orders pastOrders : List (List FOrderInfo)} {budgets pastBudgets : List ℤ}
    (h : Watches orders pastOrders budgets pastBudgets (s.clients m) s.server)
    (hs : s.step wrap e = some s') :
    Watches (orders ++ (s.handed m e).toList) (pastOrders ++ replaced AStore.activeOrders s e)
      (budgets ++ (s.handedBudget m e).toList) (pastBudgets ++ replaced AStore.currentBudget s e)
      (s'.clients m) s'.server := by
  cases e with
  | server e =>
    obtain ⟨server, -, rfl⟩ := Option.map_eq_some_iff.1 hs
    simp only [handed, handedBudget, replaced, Option.toList_none, List.append_nil]
    exact ⟨h.ordersFollow.moved _, h.budgetsFollow.moved _, h.shown, h.mirror⟩
  | client n ce =>
    obtain ⟨cl, hcl, rfl⟩ := Option.map_eq_some_iff.1 hs
    simp only [replaced, List.append_nil]
    by_cases hn : n = m
    · subst hn
      rw [clients_setClient_self]
      exact h.client hcl
    · rw [clients_setClient_of_ne _ (Ne.symm hn)]
      have noOrders : s.handed m (.client n ce : StoreNetEvent κ μ) = none := by
        cases ce with
        | receiveActiveOrders skipped => exact if_neg hn
        | _ => rfl
      have noBudget : s.handedBudget m (.client n ce : StoreNetEvent κ μ) = none := by
        cases ce with
        | receiveCurrentBudget skipped => exact if_neg hn
        | _ => rfl
      simp only [noOrders, noBudget, Option.toList_none, List.append_nil]
      exact h

theorem watches_of_run (h : (machine κ μ wrap p).Run es s) (m : μ) :
    Watches (seenOrders wrap p m es)
      ((machine κ μ wrap p).emitted (replaced AStore.activeOrders) (machine κ μ wrap p).init es)
      (seenBudgets wrap p m es)
      ((machine κ μ wrap p).emitted (replaced AStore.currentBudget) (machine κ μ wrap p).init es)
      (s.clients m) s.server := by
  induction h with
  | nil => exact ⟨.idle _ _, .idle _ _, rfl, rfl⟩
  | snoc hr hs ih =>
    have run := Machine.run_iff_exec.1 hr
    rw [seenOrders, seenBudgets, Machine.emitted_snoc _ run hs, Machine.emitted_snoc _ run hs,
      Machine.emitted_snoc _ run hs, Machine.emitted_snoc _ run hs]
    exact ih.step hs

/-- After every run and for every client: the lists of orders and the budgets that it has been
handed are, in this order, among those the server has had; it shows the last of these lists; and
once all that was sent has arrived and nothing is left to be sent, its orders and their mirror are
the server's orders, and the last budget it was handed is the server's. -/
theorem shown_in_order (h : (machine κ μ wrap p).Run es s) (m : μ) :
    (seenOrders wrap p m es).Sublist (versions wrap p AStore.activeOrders es s) ∧
      (seenBudgets wrap p m es).Sublist (versions wrap p AStore.currentBudget es s) ∧
      (s.clients m).store.activeOrders = (seenOrders wrap p m es).getLast?.getD [] ∧
      ((s.clients m).orders.inFlight = [] →
        (s.clients m).orders.sent = s.server.activeOrders →
        (s.clients m).store.activeOrders = s.server.activeOrders ∧
          (s.clients m).store.localActiveOrders = s.server.activeOrders) ∧
      ((s.clients m).budgets.inFlight = [] →
        (s.clients m).budgets.sent = s.server.currentBudget →
        (seenBudgets wrap p m es).getLast?.getD 0 = s.server.currentBudget) := by
  have watches := watches_of_run h m
  refine ⟨watches.ordersFollow.seen_sublist, watches.budgetsFollow.seen_sublist, watches.shown,
    fun arrived upToDate => ?_, watches.budgetsFollow.converged⟩
  have converged := watches.ordersFollow.converged arrived upToDate
  rw [← watches.shown] at converged
  exact ⟨converged, watches.mirror.trans converged⟩

/-- The client 0 joins late, misses the first order and is handed the last list after another
one. -/
def joinsLate : List (StoreNetEvent ℕ ℕ) :=
  [.server (.requestOrder 0 0), .client 0 .join, .client 0 .beginPlay, .client 0 .sendActiveOrders,
    .server (.requestOrder 1 1), .client 0 .sendActiveOrders, .client 0 (.receiveActiveOrders 1),
    .server (.collectOrder { itemInfo := ⟨FColor.silver, .sphere⟩ }), .client 0 .sendActiveOrders,
    .client 0 (.receiveActiveOrders 0)]

theorem shown_in_order_joinsLate : ∃ s, (machine ℕ ℕ id AStore.twoByTwo).Run joinsLate s ∧
    (seenOrders id AStore.twoByTwo 0 joinsLate).length = 2 ∧
    s.server.activeOrders.length = 1 ∧
    (s.clients 0).store.activeOrders = s.server.activeOrders := by
  have run := (machine ℕ ℕ id AStore.twoByTwo).run_of_isSome joinsLate (by decide +kernel)
  refine ⟨_, run, by decide +kernel, by decide +kernel, ?_⟩
  exact ((shown_in_order run 0).2.2.2.1 (by decide +kernel) (by decide +kernel)).1

end StoreNet

end CarpenterDemo
