import CarpenterDemo.Library.Lists
import CarpenterDemo.Store.Net

/-!
# Listeners to the order events

A listener keeps its own list of orders: it appends the order of each `OnOrderRequested` and drops
its oldest at each `OnOrderCollected`.  `AStore.heard` is the list of a listener that has heard all
broadcasts of a machine.

`listener_in_sync_iff_unmixed`: on a client the listener's list is `ActiveOrders` throughout just
when no received list mixes requests with collections (`Unmixed`): it extends the client's own list
at its end, or is what is left of it after dropping from its front.  `AStore.unmixed_of_run`: so it
is if the server only requested or only collected in between.
-/

namespace CarpenterDemo

/-- What a listener does at a broadcast. -/
def listen (orders : List FOrderInfo) : StoreBroadcast → List FOrderInfo
  | .orderRequested orderInfo => orders ++ [orderInfo]
  | .orderCollected => orders.tail

namespace AStore

/-- The list of a listener that has heard every broadcast. -/
def heard (s : AStore) : List FOrderInfo := s.broadcasts.foldl listen []

theorem foldl_listen_requested (orders requested : List FOrderInfo) :
    (requested.map .orderRequested).foldl listen orders = orders ++ requested := by
  induction requested generalizing orders with
  | nil => simp
  | cons orderInfo requested ih =>
    rw [List.map_cons, List.foldl_cons, ih, listen, List.append_assoc, List.singleton_append]

theorem foldl_listen_collected (orders : List FOrderInfo) (n : ℕ) :
    (List.replicate n .orderCollected).foldl listen orders = orders.drop n := by
  induction n generalizing orders with
  | zero => rfl
  | succ n ih => rw [List.replicate_succ, List.foldl_cons, ih, listen, List.drop_tail]

theorem heard_onRepActiveOrders (s : AStore) :
    s.onRepActiveOrders.heard =
      (s.heard ++ s.activeOrders.drop s.localActiveOrders.length).drop
        (s.localActiveOrders.length - s.activeOrders.length) := by
  rw [heard, broadcasts_onRepActiveOrders, List.foldl_append, List.foldl_append,
    foldl_listen_requested, foldl_listen_collected]
  rfl

/-- The mirror list and the listener's list are the active orders. -/
structure InSync (s : AStore) : Prop where
  localActiveOrders : s.localActiveOrders = s.activeOrders
  heard : s.heard = s.activeOrders

/-- The two copies agree on everything about orders. -/
structure SameOrders (s t : AStore) : Prop where
  activeOrders : t.activeOrders = s.activeOrders
  localActiveOrders : t.localActiveOrders = s.localActiveOrders
  broadcasts : t.broadcasts = s.broadcasts

theorem SameOrders.heard {s t : AStore} (h : s.SameOrders t) : t.heard = s.heard :=
  congrArg (List.foldl listen []) h.broadcasts

theorem InSync.of_sameOrders {s t : AStore} (hs : s.InSync) (h : s.SameOrders t) : t.InSync where
  localActiveOrders := by rw [h.localActiveOrders, h.activeOrders, hs.localActiveOrders]
  heard := by rw [h.heard, h.activeOrders, hs.heard]

theorem localActiveOrders_replicateActiveOrders {s : AStore}
    (h : s.localActiveOrders = s.activeOrders) (value : List FOrderInfo) :
    (s.replicateActiveOrders value).localActiveOrders =
      (s.replicateActiveOrders value).activeOrders := by
  unfold replicateActiveOrders
  split_ifs
  · exact h
  · simp

/-- A received list leaves the listener in sync just when it is not mixed. -/
theorem InSync.heard_replicateActiveOrders_iff {s : AStore} (h : s.InSync)
    (value : List FOrderInfo) :
    (s.replicateActiveOrders value).heard = (s.replicateActiveOrders value).activeOrders ↔
      s.activeOrders <+: value ∨ value <:+ s.activeOrders := by
  unfold replicateActiveOrders
  split_ifs with same
  · subst same
    exact iff_of_true h.heard (Or.inl (List.prefix_refl _))
  · rw [heard_onRepActiveOrders, activeOrders_onRepActiveOrders, ← Lists.append_drop_drop_eq_iff]
    show (s.heard ++ _).drop (s.localActiveOrders.length - _) = value ↔ _
    rw [h.heard, h.localActiveOrders]

/-- Between two states of the server with only requests or only collections, the later list is not
mixed. -/
theorem unmixed_of_run {κ : Type*} {wrap : ℤ → ℤ} {p : StoreSettings}
    {es fs : List (StoreEvent κ)} {s s' : AStore} (h : (machine κ wrap p).Run es s)
    (h' : (machine κ wrap p).Run (es ++ fs) s')
    (oneKind : collections fs = [] ∨ requests p fs = []) :
    s.activeOrders <+: s'.activeOrders ∨ s'.activeOrders <:+ s.activeOrders :=
  oneKind.imp (activeOrders_grow h h') (activeOrders_shrink h h')

end AStore

namespace StoreNet

variable {κ μ : Type*} [DecidableEq μ] {wrap : ℤ → ℤ} {p : StoreSettings}

/-- After the step the listener of the client `m` holds the client's active orders. -/
def ListenerInSync (wrap : ℤ → ℤ) (m : μ) (s : StoreNet μ) (e : StoreNetEvent κ μ) : Prop :=
  ∀ s', s.step wrap e = some s' →
    (s'.clients m).store.heard = (s'.clients m).store.activeOrders

/-- The list of orders that the step hands to the client `m`. -/
def handed (m : μ) (s : StoreNet μ) : StoreNetEvent κ μ → Option (List FOrderInfo)
  | .client n (.receiveActiveOrders skipped) =>
    if n = m then ((s.clients n).orders.receive skipped).map Prod.fst else none
  | _ => none

/-- If the step hands the client `m` a list, the list extends the client's own at its end or is an
end of it. -/
def Unmixed (m : μ) (s : StoreNet μ) (e : StoreNetEvent κ μ) : Prop :=
  ∀ value ∈ s.handed m e,
    (s.clients m).store.activeOrders <+: value ∨ value <:+ (s.clients m).store.activeOrders

instance (m : μ) (s : StoreNet μ) (e : StoreNetEvent κ μ) : Decidable (Unmixed m s e) :=
  inferInstanceAs (Decidable (∀ value ∈ s.handed m e, _))

/-- A step hands the client a list, or leaves its orders as they are. -/
theorem orders_cases {s s' : StoreNet μ} {e : StoreNetEvent κ μ} (h : s.step wrap e = some s')
    (m : μ) :
    (∃ value, s.handed m e = some value ∧
      (s'.clients m).store = (s.clients m).store.replicateActiveOrders value) ∨
    s.handed m e = none ∧ (s.clients m).store.SameOrders (s'.clients m).store := by
  rcases step_cases h m with ⟨same, other⟩ | ⟨ce, rfl, hce⟩
  · refine Or.inr ⟨?_, by rw [same]; exact ⟨rfl, rfl, rfl⟩⟩
    unfold handed
    split
    · rename_i n skipped
      exact if_neg fun hn => other (.receiveActiveOrders skipped) (by rw [hn])
    · rfl
  · cases ce with
    | receiveActiveOrders skipped =>
      obtain ⟨⟨value, rest⟩, received, hcl⟩ := Option.map_eq_some_iff.1 hce
      exact Or.inl ⟨value, by simp [handed, received], by rw [← hcl]⟩
    | receiveCurrentBudget skipped =>
      obtain ⟨⟨value, rest⟩, -, hcl⟩ := Option.map_eq_some_iff.1 hce
      exact Or.inr ⟨rfl, by rw [← hcl]; exact ⟨rfl, rfl, rfl⟩⟩
    | join | beginPlay | sendCurrentBudget | sendActiveOrders =>
      simp only [StoreClient.step] at hce
      split_ifs at hce
      have hcl := Option.some.inj hce
      exact Or.inr ⟨rfl, by rw [← hcl]; exact ⟨rfl, rfl, rfl⟩⟩

theorem inSync_of_step {s s' : StoreNet μ} {e : StoreNetEvent κ μ} {m : μ}
    (h : (s.clients m).store.InSync) (after : ListenerInSync wrap m s e)
    (hs : s.step wrap e = some s') : (s'.clients m).store.InSync := by
  rcases orders_cases hs m with ⟨value, -, hstore⟩ | ⟨-, same⟩
  · refine ⟨?_, after s' hs⟩
    rw [hstore]
    exact AStore.localActiveOrders_replicateActiveOrders h.localActiveOrders value
  · exact h.of_sameOrders same

theorem listenerInSync_iff_unmixed {s s' : StoreNet μ} {e : StoreNetEvent κ μ} {m : μ}
    (h : (s.clients m).store.InSync) (hs : s.step wrap e = some s') :
    ListenerInSync wrap m s e ↔ Unmixed m s e := by
  simp only [ListenerInSync, hs, Option.some.injEq, forall_eq']
  rcases orders_cases hs m with ⟨value, handed, hstore⟩ | ⟨handed, same⟩
  · rw [hstore, h.heard_replicateActiveOrders_iff value, Unmixed, handed]
    simp
  · refine iff_of_true (h.of_sameOrders same).heard fun value hv => ?_
    rw [handed] at hv
    cases hv

/-- In every run, the listener of a client holds its active orders after every step just when every
list handed to the client is unmixed. -/
theorem listener_in_sync_iff_unmixed {es : List (StoreNetEvent κ μ)} {s : StoreNet μ}
    (h : (machine κ μ wrap p).Run es s) (m : μ) :
    (machine κ μ wrap p).Along es (ListenerInSync wrap m) ↔
      (machine κ μ wrap p).Along es (Unmixed m) :=
  Machine.along_congr (I := fun s => (s.clients m).store.InSync) ⟨rfl, rfl⟩ inSync_of_step
    listenerInSync_iff_unmixed h

/-- The client 0 joins and is shown one order.  Another is requested and the first one collected
before the client is sent the list again. -/
def mixedUpdate : List (StoreNetEvent ℕ ℕ) :=
  [.client 0 .join, .server (.requestOrder 0 0), .client 0 .sendActiveOrders,
    .client 0 (.receiveActiveOrders 0), .server (.requestOrder 1 1),
    .server (.collectOrder { itemInfo := ⟨FColor.silver, .sphere⟩ }), .client 0 .sendActiveOrders,
    .client 0 (.receiveActiveOrders 0)]

/-- The listener of the client still holds the first order. -/
theorem mixedUpdate_misleads : ∃ s, (machine ℕ ℕ id AStore.twoByTwo).Run mixedUpdate s ∧
    (s.clients 0).store.heard ≠ (s.clients 0).store.activeOrders :=
  ⟨_, (machine ℕ ℕ id AStore.twoByTwo).run_of_isSome mixedUpdate (by decide +kernel),
    by decide +kernel⟩

/-- The client 0 is shown two orders at once and then the collection of the first one. -/
def unmixedUpdates : List (StoreNetEvent ℕ ℕ) :=
  [.client 0 .join, .server (.requestOrder 0 0), .server (.requestOrder 1 1),
    .client 0 .sendActiveOrders, .client 0 (.receiveActiveOrders 0),
    .server (.collectOrder { itemInfo := ⟨FColor.silver, .sphere⟩ }), .client 0 .sendActiveOrders,
    .client 0 (.receiveActiveOrders 0)]

theorem listener_in_sync_iff_unmixed_updates :
    (machine ℕ ℕ id AStore.twoByTwo).Along unmixedUpdates (ListenerInSync id 0) :=
  have run := (machine ℕ ℕ id AStore.twoByTwo).run_of_isSome unmixedUpdates (by decide +kernel)
  have unmixed := (machine ℕ ℕ id AStore.twoByTwo).along_of_check (Unmixed 0) unmixedUpdates
    (by decide +kernel)
  (listener_in_sync_iff_unmixed run 0).2 unmixed

end StoreNet

end CarpenterDemo
