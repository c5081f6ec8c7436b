import CarpenterDemo.Store.Orders

/-!
# The range of the budget

The store with its 32-bit budget.  A step is sound (`SoundStep`) if no exact result leaves the range
of `int32`, the budget stays in `[0, INT_MAX]`, a collection does not lower it and spending does
not raise it.

`sound_iff_bounded`: all steps of a run are sound just when all are `Bounded`: no `Amount` is
negative, and no collection earns more than the budget has room for.
-/

namespace CarpenterDemo

namespace AStore

variable {κ : Type*} {p : StoreSettings} {s s' : AStore} {e : StoreEvent κ}

/-- The exact result of the addition or subtraction that an event makes. -/
def exactBudget (s : AStore) : StoreEvent κ → Option ℤ
  | .requestOrder .. => none
  | .collectOrder item =>
    s.activeOrders.head?.map fun order =>
      s.currentBudget + order.earned s.orderReward item.getItemInfo
  | .spendBudget amount => some (s.currentBudget - amount)

def SoundStep (s : AStore) (e : StoreEvent κ) : Prop :=
  (∀ exact ∈ s.exactBudget e, MachineInt.Fits 32 exact) ∧
    ∀ s', s.step int32 e = some s' →
      (0 ≤ s'.currentBudget ∧ s'.currentBudget ≤ intMax) ∧
      (∀ item, e = .collectOrder item → s.currentBudget ≤ s'.currentBudget) ∧
      ∀ amount, e = .spendBudget amount → s'.currentBudget ≤ s.currentBudget

/-- The amount spent is not negative; the order at the front earns no more than fits. -/
def Bounded (s : AStore) : StoreEvent κ → Prop
  | .requestOrder .. => True
  | .collectOrder item => ∀ order ∈ s.activeOrders.head?,
      order.earned s.orderReward item.getItemInfo ≤ intMax - s.currentBudget
  | .spendBudget amount => 0 ≤ amount

instance (s : AStore) (e : StoreEvent κ) : Decidable (Bounded s e) :=
  match e with
  | .requestOrder .. => isTrue trivial
  | .collectOrder _ => inferInstanceAs (Decidable (∀ order ∈ s.activeOrders.head?, _))
  | .spendBudget amount => inferInstanceAs (Decidable (0 ≤ amount))

/-- The budget is in `[0, INT_MAX]`, and rewards are not negative. -/
structure InRange (s : AStore) : Prop where
  nonneg : 0 ≤ s.currentBudget
  le_intMax : s.currentBudget ≤ intMax
  reward : 0 ≤ s.orderReward

theorem earned_nonneg (order : FOrderInfo) {orderReward : ℤ} (h : 0 ≤ orderReward)
    (itemInfo : FItemInfo) : 0 ≤ order.earned orderReward itemInfo := by
  unfold FOrderInfo.earned
  split_ifs
  · exact le_rfl
  · exact Int.tdiv_nonneg h (by decide)
  · exact h

theorem fits_iff (x : ℤ) : MachineInt.Fits 32 x ↔ -2 ^ 31 ≤ x ∧ x ≤ intMax := by
  simp only [MachineInt.Fits, intMax]
  omega

theorem int32_eq_self_iff {x : ℤ} : int32 x = x ↔ MachineInt.Fits 32 x :=
  MachineInt.wrap_eq_self_iff (by decide)

theorem currentBudget_spendBudget {amount : ℤ} (h : MachineInt.Fits 32 (s.currentBudget - amount)) :
    (s.spendBudget int32 amount).currentBudget = max (s.currentBudget - amount) 0 := by
  have top := ((fits_iff _).1 h).2
  simp only [spendBudget, int32_eq_self_iff.2 h]
  exact MachineInt.clamp_eq_max top

/-- The condition at one step, in terms of the state it leads to. -/
theorem soundStep_iff (hs : s.step int32 e = some s') :
    SoundStep s e ↔ (∀ exact ∈ s.exactBudget e, MachineInt.Fits 32 exact) ∧
      (0 ≤ s'.currentBudget ∧ s'.currentBudget ≤ intMax) ∧
      (∀ item, e = .collectOrder item → s.currentBudget ≤ s'.currentBudget) ∧
      ∀ amount, e = .spendBudget amount → s'.currentBudget ≤ s.currentBudget := by
  simp only [SoundStep, hs, Option.some.injEq, forall_eq']

/-- Under the condition no exact result leaves the range of `int32`. -/
theorem fits_of_bounded (h : s.InRange) (bounded : Bounded s e) (hs : s.step int32 e = some s') :
    ∀ exact ∈ s.exactBudget e, MachineInt.Fits 32 exact := by
  obtain ⟨nonneg, top, reward⟩ := h
  cases step_sound hs with
  | requested => simp [exactBudget]
  | @collected item order rest budget front paid =>
    have gain := earned_nonneg order reward item.getItemInfo
    simp only [Bounded, exactBudget, front, List.head?_cons, Option.map_some, Option.mem_some_iff,
      forall_eq', fits_iff] at bounded ⊢
    omega
  | @spent amount isInt32 =>
    obtain ⟨low, high⟩ := (fits_iff _).1 (int32_eq_self_iff.1 isInt32)
    have value : intMax = 2 ^ 31 - 1 := rfl
    simp only [Bounded, exactBudget, Option.mem_some_iff, forall_eq', fits_iff] at bounded ⊢
    omega

/-- Under the condition the budget becomes the exact result, raised to zero. -/
theorem currentBudget_of_bounded (h : s.InRange) (bounded : Bounded s e)
    (hs : s.step int32 e = some s') :
    s'.currentBudget = max ((s.exactBudget e).getD s.currentBudget) 0 := by
  have fits := fits_of_bounded h bounded hs
  obtain ⟨nonneg, top, reward⟩ := h
  cases step_sound hs with
  | requested =>
    rw [currentBudget_onRepActiveOrders]
    exact (max_eq_left nonneg).symm
  | @collected item order rest budget front paid =>
    have gain := earned_nonneg order reward item.getItemInfo
    simp only [exactBudget, front, List.head?_cons, Option.map_some, Option.mem_some_iff,
      forall_eq', Option.getD_some] at fits ⊢
    have sum : budget = s.currentBudget + order.earned s.orderReward item.getItemInfo := by
      rcases paid with paid | ⟨nothing, same⟩
      · exact paid.trans (int32_eq_self_iff.2 fits)
      · omega
    omega
  | spent => exact currentBudget_spendBudget (fits _ rfl)

theorem soundStep_iff_bounded (h : s.InRange) (hs : s.step int32 e = some s') :
    SoundStep s e ↔ Bounded s e := by
  rw [soundStep_iff hs]
  constructor
  · rintro ⟨fits, -, -, lowers⟩
    cases step_sound hs with
    | requested => trivial
    | @collected item order rest budget front paid =>
      simp only [exactBudget, Bounded, front, List.head?_cons, Option.map_some,
        Option.mem_some_iff, forall_eq', fits_iff] at fits ⊢
      omega
    | @spent amount isInt32 =>
      have lower := lowers amount rfl
      rw [currentBudget_spendBudget (fits _ rfl)] at lower
      show 0 ≤ amount
      omega
  · intro bounded
    have fits := fits_of_bounded h bounded hs
    have result := currentBudget_of_bounded h bounded hs
    obtain ⟨nonneg, top, reward⟩ := h
    cases step_sound hs with
    | requested =>
      refine ⟨fits, ?_, by simp, by simp⟩
      rw [currentBudget_onRepActiveOrders]
      exact ⟨nonneg, top⟩
    | @collected item order rest budget front paid =>
      have gain := earned_nonneg order reward item.getItemInfo
      simp only [exactBudget, front, List.head?_cons, Option.map_some, Option.mem_some_iff,
        forall_eq', Option.getD_some] at fits result ⊢
      obtain ⟨low, high⟩ := (fits_iff _).1 fits
      refine ⟨fits, by omega, fun _ _ => ?_, by simp⟩
      omega
    | @spent amount isInt32 =>
      have positive : 0 ≤ amount := bounded
      simp only [exactBudget, Option.getD_some] at result
      refine ⟨fits, by omega, by simp, fun _ _ => ?_⟩
      omega

theorem InRange.step (h : s.InRange) (sound : SoundStep s e) (hs : s.step int32 e = some s') :
    s'.InRange := by
  obtain ⟨-, ⟨nonneg, top⟩, -⟩ := (soundStep_iff hs).1 sound
  refine ⟨nonneg, top, ?_⟩
  rw [toStoreSettings_of_step hs]
  exact h.reward

/-- In every run from a starting budget in range, all steps are sound just when all are bounded. -/
theorem sound_iff_bounded (budget : 0 ≤ p.startingBudget) (isInt32 : p.startingBudget ≤ intMax)
    (reward : 0 ≤ p.orderReward) {es : List (StoreEvent κ)} {s : AStore}
    (h : (machine κ int32 p).Run es s) :
    (machine κ int32 p).Along es SoundStep ↔ (machine κ int32 p).Along es Bounded :=
  Machine.along_congr (I := InRange) ⟨budget, isInt32, reward⟩ InRange.step soundStep_iff_bounded h

/-- A store that starts with the largest budget. -/
def richStart : StoreSettings := { twoByTwo with startingBudget := intMax }

/-- A silver sphere is ordered and delivered. -/
def perfectDelivery : List (StoreEvent ℕ) :=
  [.requestOrder 0 0, .collectOrder { itemInfo := ⟨FColor.silver, .sphere⟩ }]

/-- Spending a negative amount raises the budget, and a payment can wrap it below zero. -/
theorem budget_raised_and_wrapped :
    (∃ s, (machine ℕ int32 twoByTwo).Run [.spendBudget (-1)] s ∧ s.currentBudget = 501) ∧
      ∃ s, (machine ℕ int32 richStart).Run perfectDelivery s ∧ s.currentBudget = -2147483549 :=
  ⟨⟨_, (machine ℕ int32 twoByTwo).run_of_isSome [.spendBudget (-1)] (by decide +kernel),
      by decide +kernel⟩,
    _, (machine ℕ int32 richStart).run_of_isSome perfectDelivery (by decide +kernel),
    by decide +kernel⟩

/-- The default budget, a perfect delivery, and more spent than there is. -/
def overspending : List (StoreEvent ℕ) := perfectDelivery ++ [.spendBudget 1000]

theorem sound_iff_bounded_overspending :
    (machine ℕ int32 twoByTwo).Along overspending SoundStep :=
  have run := (machine ℕ int32 twoByTwo).run_of_isSome overspending (by decide +kernel)
  have bounded := (machine ℕ int32 twoByTwo).along_of_check Bounded overspending (by decide +kernel)
  (sound_iff_bounded (by decide) (by decide) (by decide) run).2 bounded

end AStore

end CarpenterDemo
