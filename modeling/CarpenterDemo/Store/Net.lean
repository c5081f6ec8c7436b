import CarpenterDemo.Library.Replication
import CarpenterDemo.Store.Orders

/-!
# The store and its clients

`StoreNet` is the server's store with the clients' copies of it.  A client joins at any time, runs
`BeginPlay` without authority, and is sent `CurrentBudget` and `ActiveOrders` whenever the server's
value differs from the one last sent to it.  It receives the values of each property in order, may
skip some, and may receive some before its `BeginPlay`.

`OnRep_ActiveOrders` runs exactly when the received list differs from the client's own;
`CurrentBudget` has no such function.
-/

namespace CarpenterDemo

open Replication (Channel)

/-- A client's copy of the store, with the values on their way to it. -/
structure StoreClient where
  joined : Bool
  begunPlay : Bool
  store : AStore
  budgets : Channel ℤ
  orders : Channel (List FOrderInfo)

/-- What can happen between the server and one client. -/
inductive StoreClientEvent
  | join
  | beginPlay
  | sendCurrentBudget
  | sendActiveOrders
  | receiveCurrentBudget (skipped : ℕ)
  | receiveActiveOrders (skipped : ℕ)
  deriving DecidableEq, Repr

/-- The server's store and its clients, named by `μ`. -/
structure StoreNet (μ : Type*) where
  server : AStore
  clients : μ → StoreClient

inductive StoreNetEvent (κ μ : Type*)
  | server (e : StoreEvent κ)
  | client (m : μ) (e : StoreClientEvent)
  deriving DecidableEq, Repr

/-- The engine hands over a value of `ActiveOrders`. -/
def AStore.replicateActiveOrders (s : AStore) (value : List FOrderInfo) : AStore :=
  if value = s.activeOrders then s else { s with activeOrders := value }.onRepActiveOrders

namespace AStore

theorem toStoreSettings_replicateActiveOrders (s : AStore) (value : List FOrderInfo) :
    (s.replicateActiveOrders value).toStoreSettings = s.toStoreSettings := by
  unfold replicateActiveOrders
  split_ifs <;> simp

theorem currentBudget_replicateActiveOrders (s : AStore) (value : List FOrderInfo) :
    (s.replicateActiveOrders value).currentBudget = s.currentBudget := by
  unfold replicateActiveOrders
  split_ifs <;> simp

end AStore

namespace StoreClient

variable (cl : StoreClient) (server : AStore)

/-- A client that has not joined; its copies have the class defaults. -/
def absent (p : StoreSettings) : StoreClient where
  joined := false
  begunPlay := false
  store := { toStoreSettings := p }
  budgets := .idle 0
  orders := .idle []

def step : StoreClientEvent → Option StoreClient
  | .join => if cl.joined then none else some { cl with joined := true }
  | .beginPlay =>
    if cl.joined ∧ ¬ cl.begunPlay then
      some { cl with begunPlay := true, store := cl.store.beginPlay false }
    else none
  | .sendCurrentBudget =>
    if cl.joined ∧ server.currentBudget ≠ cl.budgets.sent then
      some { cl with budgets := cl.budgets.send server.currentBudget }
    else none
  | .sendActiveOrders =>
    if cl.joined ∧ server.activeOrders ≠ cl.orders.sent then
      some { cl with orders := cl.orders.send server.activeOrders }
    else none
  | .receiveCurrentBudget skipped => (cl.budgets.receive skipped).map fun (value, rest) =>
    { cl with store := { cl.store with currentBudget := value }, budgets := rest }
  | .receiveActiveOrders skipped => (cl.orders.receive skipped).map fun (value, rest) =>
    { cl with store := cl.store.replicateActiveOrders value, orders := rest }

end StoreClient

namespace StoreNet

variable {κ μ : Type*} [DecidableEq μ]

def setClient (s : StoreNet μ) (m : μ) (cl : StoreClient) : StoreNet μ :=
  { s with clients := Function.update s.clients m cl }

def step (wrap : ℤ → ℤ) (s : StoreNet μ) : StoreNetEvent κ μ → Option (StoreNet μ)
  | .server e => (s.server.step wrap e).map fun server => { s with server := server }
  | .client m e => ((s.clients m).step s.server e).map (s.setClient m)

variable (κ μ) in
def machine (wrap : ℤ → ℤ) (p : StoreSettings) : Machine (StoreNet μ) (StoreNetEvent κ μ) :=
  ⟨⟨(AStore.machine κ wrap p).init, fun _ => StoreClient.absent p⟩, step wrap⟩

theorem clients_setClient_self (s : StoreNet μ) (m : μ) (cl : StoreClient) :
    (s.setClient m cl).clients m = cl := by simp [setClient]

theorem clients_setClient_of_ne (s : StoreNet μ) {m n : μ} (h : n ≠ m) (cl : StoreClient) :
    (s.setClient m cl).clients n = s.clients n := by simp [setClient, h]

/-- What a step does, as the client `m` sees it. -/
theorem step_cases {wrap : ℤ → ℤ} {s s' : StoreNet μ} {e : StoreNetEvent κ μ}
    (h : s.step wrap e = some s') (m : μ) :
    (s'.clients m = s.clients m ∧ ∀ ce, e ≠ .client m ce) ∨
    ∃ ce, e = .client m ce ∧ (s.clients m).step s.server ce = some (s'.clients m) := by
  cases e with
  | server e =>
    obtain ⟨server, -, rfl⟩ := Option.map_eq_some_iff.1 h
    exact Or.inl ⟨rfl, by simp⟩
  | client n ce =>
    obtain ⟨cl, hcl, rfl⟩ := Option.map_eq_some_iff.1 h
    by_cases hm : m = n
    · subst hm
      exact Or.inr ⟨ce, rfl, hcl.trans (congrArg some (s.clients_setClient_self m cl).symm)⟩
    · refine Or.inl ⟨s.clients_setClient_of_ne hm cl, fun ce' he => ?_⟩
      cases he
      exact hm rfl

end StoreNet

end CarpenterDemo
