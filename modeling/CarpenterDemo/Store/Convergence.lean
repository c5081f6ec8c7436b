import CarpenterDemo.Library.Lists
import CarpenterDemo.Store.Net

/-!
# Convergence of the budget

A client's `CurrentBudget` is written by replication and by its own `BeginPlay`, which sets it to
`StartingBudget`.  Once all updates have been delivered (`Settled`), the client shows the value
received last if one came after its `BeginPlay` (`Refreshed`), and `StartingBudget` otherwise.

`converged_iff` reads off when that is the server's budget.
-/

namespace CarpenterDemo

namespace StoreNet

variable {κ μ : Type*} [DecidableEq μ] {wrap : ℤ → ℤ} {p : StoreSettings} {m : μ}
  {es : List (StoreNetEvent κ μ)} {s s' : StoreNet μ} {e : StoreNetEvent κ μ}

/-- The client `m` received a budget after its `BeginPlay`. -/
def Refreshed (m : μ) (es : List (StoreNetEvent κ μ)) : Prop :=
  ∃ skipped, [.client m .beginPlay, .client m (.receiveCurrentBudget skipped)].Sublist es

/-- The client `m` has begun to play, has received every update sent, and is due no further one. -/
structure Settled (m : μ) (s : StoreNet μ) : Prop where
  begunPlay : (s.clients m).begunPlay = true
  received : (s.clients m).budgets.inFlight = []
  sent : (s.clients m).budgets.sent = s.server.currentBudget

theorem refreshed_snoc_iff {κ μ : Type*} {m : μ} {es : List (StoreNetEvent κ μ)}
    {e : StoreNetEvent κ μ} : Refreshed m (es ++ [e]) ↔ Refreshed m es ∨
      .client m .beginPlay ∈ es ∧ ∃ skipped, e = .client m (.receiveCurrentBudget skipped) := by
  simp only [Refreshed, Lists.pair_sublist_snoc_iff, exists_or, exists_and_left]

theorem Refreshed.begun {κ μ : Type*} {m : μ} {es : List (StoreNetEvent κ μ)}
    (h : Refreshed m es) : .client m .beginPlay ∈ es := by
  obtain ⟨skipped, order⟩ := h
  exact order.subset List.mem_cons_self

/-- What the budget of the client `m` is after the run `es`. -/
structure BudgetInv (p : StoreSettings) (m : μ) (es : List (StoreNetEvent κ μ))
    (cl : StoreClient) : Prop where
  settings : cl.store.toStoreSettings = p
  begun : cl.begunPlay = true ↔ .client m .beginPlay ∈ es
  refreshed : Refreshed m es → cl.budgets.inFlight = [] → cl.store.currentBudget = cl.budgets.sent
  stale : cl.begunPlay = true → ¬ Refreshed m es → cl.store.currentBudget = p.startingBudget

/-- An event that is neither a `BeginPlay` nor a received budget of the client keeps what is known,
if the client's budget is as before and the channel is, or has something on its way. -/
theorem BudgetInv.idle {κ μ : Type*} {p : StoreSettings} {m : μ} {es : List (StoreNetEvent κ μ)}
    {e : StoreNetEvent κ μ} {cl cl' : StoreClient} (h : BudgetInv p m es cl)
    (noBegin : e ≠ .client m .beginPlay)
    (noReceive : ∀ skipped, e ≠ .client m (.receiveCurrentBudget skipped))
    (settings : cl'.store.toStoreSettings = cl.store.toStoreSettings)
    (begunPlay : cl'.begunPlay = cl.begunPlay)
    (budget : cl'.store.currentBudget = cl.store.currentBudget)
    (channel : cl'.budgets = cl.budgets ∨ cl'.budgets.inFlight ≠ []) :
    BudgetInv p m (es ++ [e]) cl' := by
  have refreshed : Refreshed m (es ++ [e]) ↔ Refreshed m es := by
    rw [refreshed_snoc_iff]
    refine or_iff_left fun h => ?_
    obtain ⟨-, skipped, he⟩ := h
    exact noReceive skipped he
  refine ⟨settings.trans h.settings, ?_, fun hr empty => ?_, fun hb hr => ?_⟩
  · rw [begunPlay, h.begun, List.mem_append, List.mem_singleton]
    exact (or_iff_left fun he => noBegin he.symm).symm
  · rcases channel with same | busy
    · rw [same] at empty ⊢
      exact budget.trans (h.refreshed (refreshed.1 hr) empty)
    · exact absurd empty busy
  · exact budget.trans (h.stale (begunPlay ▸ hb) fun hr' => hr (refreshed.2 hr'))

theorem budgetInv_of_step (h : BudgetInv p m es (s.clients m)) (hs : s.step wrap e = some s') :
    BudgetInv p m (es ++ [e]) (s'.clients m) := by
  rcases step_cases hs m with ⟨same, other⟩ | ⟨ce, rfl, hce⟩
  · rw [same]
    exact h.idle (other _) (fun _ => other _) rfl rfl rfl (Or.inl rfl)
  · cases ce with
    | receiveCurrentBudget skipped =>
      obtain ⟨⟨value, rest⟩, received, hcl⟩ := Option.map_eq_some_iff.1 hce
      rw [← hcl]
      refine ⟨h.settings, ?_, fun _ empty => ?_, fun hb hr => ?_⟩
      · simp [h.begun]
      · -- nothing is left on its way: this was the value last sent
        exact (Replication.Channel.settled received empty).trans
          (Replication.Channel.sent_of_receive received).symm
      · exact absurd (refreshed_snoc_iff.2 (Or.inr ⟨h.begun.1 hb, skipped, rfl⟩)) hr
    | beginPlay =>
      simp only [StoreClient.step] at hce
      split_ifs at hce with guard
      have hcl := Option.some.inj hce
      rw [← hcl]
      refine ⟨h.settings, by simp, fun hr => ?_, fun _ _ => ?_⟩
      · -- no update has been received after a `BeginPlay` that happens only now
        have before : Refreshed m es := by
          rcases refreshed_snoc_iff.1 hr with hr | ⟨-, skipped, he⟩
          · exact hr
          · cases he
        exact absurd (h.begun.2 before.begun) guard.2
      · exact congrArg StoreSettings.startingBudget h.settings
    | receiveActiveOrders skipped =>
      obtain ⟨⟨value, rest⟩, -, hcl⟩ := Option.map_eq_some_iff.1 hce
      rw [← hcl]
      refine h.idle (by simp) (by simp) ?_ rfl ?_ (Or.inl rfl)
      · exact AStore.toStoreSettings_replicateActiveOrders _ value
      · exact AStore.currentBudget_replicateActiveOrders _ value
    | sendCurrentBudget =>
      simp only [StoreClient.step] at hce
      split_ifs at hce
      have hcl := Option.some.inj hce
      rw [← hcl]
      exact h.idle (by simp) (by simp) rfl rfl rfl
        (Or.inr (by simp [Replication.Channel.send]))
    | join | sendActiveOrders =>
      simp only [StoreClient.step] at hce
      split_ifs at hce
      have hcl := Option.some.inj hce
      rw [← hcl]
      exact h.idle (by simp) (by simp) rfl rfl rfl (Or.inl rfl)

theorem budgetInv_of_run (h : (machine κ μ wrap p).Run es s) (m : μ) :
    BudgetInv p m es (s.clients m) := by
  induction h with
  | nil => exact ⟨rfl, by simp [machine, StoreClient.absent], by simp [Refreshed],
      by simp [machine, StoreClient.absent]⟩
  | snoc _ hs ih => exact budgetInv_of_step ih hs

/-- A settled client shows the server's budget just when it received an update after its `BeginPlay`
or the server's budget is the starting one. -/
theorem converged_iff (h : (machine κ μ wrap p).Run es s) (settled : s.Settled m) :
    (s.clients m).store.currentBudget = s.server.currentBudget ↔
      Refreshed m es ∨ s.server.currentBudget = p.startingBudget := by
  have inv := budgetInv_of_run h m
  by_cases hr : Refreshed m es
  · have shown := inv.refreshed hr settled.received
    exact iff_of_true (shown.trans settled.sent) (Or.inl hr)
  · rw [inv.stale settled.begunPlay hr, or_iff_right hr, eq_comm]

/-- The server spends 100, and the client 0 hears of it before its own `BeginPlay`. -/
def earlyUpdate : List (StoreNetEvent ℕ ℕ) :=
  [.server (.spendBudget 100), .client 0 .join, .client 0 .sendCurrentBudget,
    .client 0 (.receiveCurrentBudget 0), .client 0 .beginPlay]

/-- The client shows 500 for good, while the server has 400. -/
theorem earlyUpdate_is_overwritten : ∃ s, (machine ℕ ℕ id {}).Run earlyUpdate s ∧ s.Settled 0 ∧
    (s.clients 0).store.currentBudget = 500 ∧ s.server.currentBudget = 400 :=
  ⟨_, (machine ℕ ℕ id {}).run_of_isSome earlyUpdate (by decide +kernel),
    ⟨by decide +kernel, by decide +kernel, by decide +kernel⟩, by decide +kernel, by decide +kernel⟩

/-- The same update arrives after the client's `BeginPlay`. -/
def lateUpdate : List (StoreNetEvent ℕ ℕ) :=
  [.server (.spendBudget 100), .client 0 .join, .client 0 .sendCurrentBudget, .client 0 .beginPlay,
    .client 0 (.receiveCurrentBudget 0)]

theorem converged_iff_lateUpdate : ∃ s, (machine ℕ ℕ id {}).Run lateUpdate s ∧
    (s.clients 0).store.currentBudget = s.server.currentBudget := by
  have run := (machine ℕ ℕ id {}).run_of_isSome lateUpdate (by decide +kernel)
  refine ⟨_, run, (converged_iff run ?_).2 (Or.inl ⟨0, ?_⟩)⟩
  · exact ⟨by decide +kernel, by decide +kernel, by decide +kernel⟩
  · decide

end StoreNet

end CarpenterDemo
