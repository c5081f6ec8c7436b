import CarpenterDemo.Library.ClampedSum
import CarpenterDemo.Store.BudgetRange

/-!
# The account behind the budget

Beside the budget, which `SpendBudget` clamps at zero, there is the account that the same payments
and purchases would leave without the clamp (`account`).  `changes` reads it off a run: a collection
adds the grade of the item against the order it takes, spending subtracts the amount asked.

`currentBudget_closed_form`: the budget is the account less the lowest value it has reached, if that
is negative.  So the clamp has forgiven the deepest deficit, and between two collections only the
total spent counts.
-/

namespace CarpenterDemo

/-- The amount that an event spends. -/
def StoreEvent.spent {κ : Type*} : StoreEvent κ → Option ℤ
  | .spendBudget amount => some amount
  | _ => none

/-- The amounts spent in a run, oldest first. -/
def spends {κ : Type*} (es : List (StoreEvent κ)) : List ℤ := es.filterMap StoreEvent.spent

/-- What an event after the run `past` changes the account by. -/
def change {κ : Type*} (p : StoreSettings) (past : List (StoreEvent κ)) : StoreEvent κ → ℤ
  | .requestOrder .. => 0
  | .collectOrder item => ((requests p past)[(collections past).length]?).elim 0 fun order =>
    order.grade p.orderReward item.getItemInfo
  | .spendBudget amount => -amount

/-- The changes of the account by the events `es` after the run `past`. -/
def changesFrom {κ : Type*} (p : StoreSettings) :
    List (StoreEvent κ) → List (StoreEvent κ) → List ℤ
  | _, [] => []
  | past, e :: es => change p past e :: changesFrom p (past ++ [e]) es

/-- The changes of the account in a run. -/
def changes {κ : Type*} (p : StoreSettings) (es : List (StoreEvent κ)) : List ℤ :=
  changesFrom p [] es

/-- The account after a run. -/
def account {κ : Type*} (p : StoreSettings) (es : List (StoreEvent κ)) : ℤ :=
  p.startingBudget + (changes p es).sum

/-- The lowest value of the account from the start to the end of a run, or zero if it is never
negative. -/
def lowestAccount {κ : Type*} (p : StoreSettings) (es : List (StoreEvent κ)) : ℤ :=
  ClampedSum.lowest p.startingBudget (changes p es)

namespace AStore

variable {κ : Type*} {p : StoreSettings} {s s' : AStore} {e : StoreEvent κ}
  {es : List (StoreEvent κ)}

/-- What the clamp leaves unpaid of the amount that a step spends. -/
def forgiven (s : AStore) (e : StoreEvent κ) (s' : AStore) : ℤ :=
  match e with
  | .spendBudget amount => amount - (s.currentBudget - s'.currentBudget)
  | _ => 0

/-! ## The changes of a run -/

theorem changesFrom_append (past es fs : List (StoreEvent κ)) :
    changesFrom p past (es ++ fs) = changesFrom p past es ++ changesFrom p (past ++ es) fs := by
  induction es generalizing past with
  | nil => simp [changesFrom]
  | cons e es ih => simp [changesFrom, ih]

theorem changes_append (es fs : List (StoreEvent κ)) :
    changes p (es ++ fs) = changes p es ++ changesFrom p es fs := changesFrom_append [] es fs

theorem changes_snoc (es : List (StoreEvent κ)) (e : StoreEvent κ) :
    changes p (es ++ [e]) = changes p es ++ [change p es e] := changes_append es [e]

/-- Without collections, the changes are the amounts spent. -/
theorem changesFrom_of_uncollected (past : List (StoreEvent κ)) {fs : List (StoreEvent κ)}
    (none : collections fs = []) (nonneg : ∀ amount ∈ spends fs, 0 ≤ amount) :
    (∀ d ∈ changesFrom p past fs, d ≤ 0) ∧
      (changesFrom p past fs).sum = -(spends fs).sum := by
  induction fs generalizing past with
  | nil => simp [changesFrom, spends]
  | cons e fs ih =>
    cases e with
    | requestOrder color shape =>
      obtain ⟨nonpos, sum⟩ := ih (past ++ [.requestOrder color shape]) none nonneg
      refine ⟨List.forall_mem_cons.2 ⟨le_rfl, nonpos⟩, ?_⟩
      rw [changesFrom, List.sum_cons, sum]
      exact Int.zero_add _
    | collectOrder item => cases none
    | spendBudget amount =>
      obtain ⟨first, rest⟩ := List.forall_mem_cons.1 nonneg
      obtain ⟨nonpos, sum⟩ := ih (past ++ [.spendBudget amount]) none rest
      refine ⟨List.forall_mem_cons.2 ⟨?_, nonpos⟩, ?_⟩
      · show -amount ≤ 0
        omega
      · have spent : spends (.spendBudget amount :: fs) = amount :: spends fs := rfl
        rw [changesFrom, List.sum_cons, sum, spent, List.sum_cons, change]
        omega

/-! ## The budget and the account -/

/-- The exact result of a step is the budget with the change of the account. -/
theorem exactBudget_eq (reward : 0 ≤ p.orderReward) {wrap : ℤ → ℤ}
    (h : (machine κ wrap p).Run es s) (hs : s.step wrap e = some s') :
    (s.exactBudget e).getD s.currentBudget = s.currentBudget + change p es e := by
  cases step_sound hs with
  | requested => exact (Int.add_zero _).symm
  | @collected item order rest budget front paid =>
    have oldest : (requests p es)[(collections es).length]? = some order := by
      rw [← List.head?_drop, ← activeOrders_of_run h, front, List.head?_cons]
    simp only [exactBudget, change, front, oldest, List.head?_cons, Option.map_some,
      Option.getD_some, Option.elim_some]
    rw [toStoreSettings_of_run h, order.earned_eq_grade reward]
  | spent => exact sub_eq_add_neg _ _

theorem change_nonneg_of_collect (reward : 0 ≤ p.orderReward) (es : List (StoreEvent κ))
    (item : AItem κ) : 0 ≤ change p es (.collectOrder item) := by
  simp only [change]
  cases (requests p es)[(collections es).length]? with
  | none => exact le_rfl
  | some order =>
    rw [Option.elim_some, ← order.earned_eq_grade reward]
    exact earned_nonneg order reward _

section Bounded

variable (budget : 0 ≤ p.startingBudget) (isInt32 : p.startingBudget ≤ intMax)
  (reward : 0 ≤ p.orderReward)

include budget isInt32 reward

theorem inRange_of_run (h : (machine κ int32 p).Run es s)
    (bounded : (machine κ int32 p).Along es Bounded) : s.InRange := by
  apply h.invariant_along (I := InRange) ⟨budget, isInt32, reward⟩ ?_ bounded
  intro s s' e inRange bounded hs
  exact inRange.step ((soundStep_iff_bounded inRange hs).2 bounded) hs

theorem currentBudget_of_step (h : (machine κ int32 p).Run es s)
    (bounded : (machine κ int32 p).Along (es ++ [e]) Bounded) (hs : s.step int32 e = some s') :
    s'.currentBudget = max (s.currentBudget + change p es e) 0 := by
  obtain ⟨earlier, last⟩ := (Machine.along_snoc_iff h).1 bounded
  have inRange := inRange_of_run budget isInt32 reward h earlier
  rw [currentBudget_of_bounded inRange last hs, exactBudget_eq reward h hs]

theorem currentBudget_eq_clamped (h : (machine κ int32 p).Run es s)
    (bounded : (machine κ int32 p).Along es Bounded) :
    s.currentBudget = ClampedSum.clamped p.startingBudget (changes p es) := by
  induction h with
  | nil => rfl
  | @snoc es s s' e hr hs ih =>
    have last := currentBudget_of_step budget isInt32 reward hr bounded hs
    rw [last, ih ((Machine.along_snoc_iff hr).1 bounded).1, changes_snoc, ClampedSum.clamped_snoc]

/-- The budget is the account with what has been forgiven. -/
theorem currentBudget_eq_account_add (h : (machine κ int32 p).Run es s)
    (bounded : (machine κ int32 p).Along es Bounded) :
    s.currentBudget =
      account p es + (machine κ int32 p).total forgiven (machine κ int32 p).init es := by
  induction h with
  | nil =>
    show p.startingBudget = p.startingBudget + 0 + 0
    omega
  | @snoc es s s' e hr hs ih =>
    obtain ⟨earlier, last⟩ := (Machine.along_snoc_iff hr).1 bounded
    have nonneg := (inRange_of_run budget isInt32 reward hr earlier).nonneg
    have result := currentBudget_of_step budget isInt32 reward hr bounded hs
    have before := ih earlier
    rw [Machine.total_snoc forgiven (Machine.run_iff_exec.1 hr) hs]
    have account_snoc : account p (es ++ [e]) = account p es + change p es e := by
      rw [account, account, changes_snoc, List.sum_append, List.sum_singleton, add_assoc]
    rw [account_snoc]
    cases e with
    | requestOrder color shape =>
      simp only [change, forgiven] at result ⊢
      omega
    | collectOrder item =>
      -- a payment never meets the clamp
      have gain := change_nonneg_of_collect reward es item
      simp only [forgiven]
      omega
    | spendBudget amount =>
      simp only [change, forgiven] at result ⊢
      omega

/-- Without further collections, only the total spent counts. -/
theorem currentBudget_of_uncollected (h : (machine κ int32 p).Run es s)
    (bounded : (machine κ int32 p).Along es Bounded) {fs : List (StoreEvent κ)} {t : AStore}
    (ht : (machine κ int32 p).Run (es ++ fs) t) (none : collections fs = [])
    (nonneg : ∀ amount ∈ spends fs, 0 ≤ amount) :
    t.currentBudget = max (s.currentBudget - (spends fs).sum) 0 := by
  have further : (machine κ int32 p).Along (es ++ fs) Bounded := by
    refine bounded.append fun e he u => ?_
    cases e with
    | requestOrder => trivial
    | collectOrder item =>
      have collected : item ∈ collections fs := List.mem_filterMap.2 ⟨_, he, rfl⟩
      rw [none] at collected
      cases collected
    | spendBudget amount => exact nonneg amount (List.mem_filterMap.2 ⟨_, he, rfl⟩)
  have start := (inRange_of_run budget isInt32 reward h bounded).nonneg
  obtain ⟨nonpos, sum⟩ := changesFrom_of_uncollected es none nonneg
  calc t.currentBudget
      = ClampedSum.clamped p.startingBudget (changes p (es ++ fs)) :=
        currentBudget_eq_clamped budget isInt32 reward ht further
    _ = ClampedSum.clamped s.currentBudget (changesFrom p es fs) := by
        rw [changes_append, ClampedSum.clamped_append,
          currentBudget_eq_clamped budget isInt32 reward h bounded]
    _ = max (s.currentBudget - (spends fs).sum) 0 := by
        rw [ClampedSum.clamped_of_nonpos start nonpos, sum, sub_eq_add_neg]

end Bounded

/-! ## Between two collections -/

/-- Without collections, the events request orders and change the budget. -/
theorem exec_of_uncollected {wrap : ℤ → ℤ} {fs : List (StoreEvent κ)}
    (none : collections fs = []) (settings : s.toStoreSettings = p)
    (synced : s.localActiveOrders = s.activeOrders)
    (h : (machine κ wrap p).exec s fs = some s') :
    ∃ budget, s' = { s with
      activeOrders := s.activeOrders ++ requests p fs
      localActiveOrders := s.activeOrders ++ requests p fs
      broadcasts := s.broadcasts ++ (requests p fs).map .orderRequested
      currentBudget := budget } := by
  induction fs generalizing s with
  | nil =>
    obtain rfl : s = s' := Option.some.inj h
    refine ⟨s.currentBudget, ?_⟩
    cases s
    cases synced
    simp [requests]
  | cons e fs ih =>
    rw [Machine.exec, List.foldlM_cons, Option.bind_eq_bind, Option.bind_eq_some_iff] at h
    obtain ⟨t, ht, h⟩ := h
    have settings' : t.toStoreSettings = p := (toStoreSettings_of_step ht).trans settings
    have synced' := localActiveOrders_of_step synced ht
    cases step_sound ht with
    | @requested color shape order drawn =>
      obtain ⟨budget, rfl⟩ := ih none settings' synced' h
      have asked : requests p (.requestOrder color shape :: fs) = order :: requests p fs := by
        rw [settings] at drawn
        exact List.filterMap_cons_some drawn
      refine ⟨budget, ?_⟩
      simp [asked, onRepActiveOrders_eq, synced]
    | collected => cases none
    | spent fits =>
      obtain ⟨budget, rfl⟩ := ih none settings' synced' h
      exact ⟨budget, rfl⟩

/-- In every run in which nothing negative is spent and no sum exceeds `INT_MAX`: the budget is the
account less the lowest value that the account has reached, if that is negative; the clamp has
forgiven that deficit; and two sequences of events without collections that request the same orders
and spend the same in total lead to the same state. -/
theorem currentBudget_closed_form (budget : 0 ≤ p.startingBudget)
    (isInt32 : p.startingBudget ≤ intMax) (reward : 0 ≤ p.orderReward)
    (h : (machine κ int32 p).Run es s) (bounded : (machine κ int32 p).Along es Bounded) :
    s.currentBudget = account p es - lowestAccount p es ∧
      (machine κ int32 p).total forgiven (machine κ int32 p).init es = -lowestAccount p es ∧
      ∀ fs fs' t t', (machine κ int32 p).Run (es ++ fs) t →
        (machine κ int32 p).Run (es ++ fs') t' →
        collections fs = [] → collections fs' = [] → requests p fs = requests p fs' →
        (∀ amount ∈ spends fs, 0 ≤ amount) → (∀ amount ∈ spends fs', 0 ≤ amount) →
        (spends fs).sum = (spends fs').sum → t = t' := by
  have closed : s.currentBudget = account p es - lowestAccount p es := by
    rw [currentBudget_eq_clamped budget isInt32 reward h bounded, ClampedSum.clamped_eq budget]
    rfl
  have left := currentBudget_eq_account_add budget isInt32 reward h bounded
  refine ⟨closed, by omega, ?_⟩
  intro fs fs' t t' ht ht' none none' same nonneg nonneg' total
  have synced := localActiveOrders_of_run h
  have settings := toStoreSettings_of_run h
  obtain ⟨b, rfl⟩ := exec_of_uncollected none settings synced (h.exec_of_append ht)
  obtain ⟨b', rfl⟩ := exec_of_uncollected none' settings synced (h.exec_of_append ht')
  have hb : b = max (s.currentBudget - (spends fs).sum) 0 :=
    currentBudget_of_uncollected budget isInt32 reward h bounded ht none nonneg
  have hb' : b' = max (s.currentBudget - (spends fs').sum) 0 :=
    currentBudget_of_uncollected budget isInt32 reward h bounded ht' none' nonneg'
  rw [same, hb, hb', total]

/-- More is spent than there is, then a silver sphere is delivered, then a little is spent. -/
def inDebt : List (StoreEvent ℕ) :=
  [.spendBudget 700, .requestOrder 0 0, .collectOrder { itemInfo := ⟨FColor.silver, .sphere⟩ },
    .spendBudget 30]

/-- The account is at -130 and has been at -200. -/
theorem currentBudget_closed_form_inDebt :
    ∃ s, (machine ℕ int32 twoByTwo).Run inDebt s ∧ s.currentBudget = 70 ∧
      account twoByTwo inDebt = -130 ∧
      s.currentBudget = account twoByTwo inDebt - lowestAccount twoByTwo inDebt := by
  have run := (machine ℕ int32 twoByTwo).run_of_isSome inDebt (by decide +kernel)
  have bounded := (machine ℕ int32 twoByTwo).along_of_check Bounded inDebt (by decide +kernel)
  refine ⟨_, run, by decide +kernel, by decide +kernel, ?_⟩
  exact (currentBudget_closed_form (by decide) (by decide) (by decide) run bounded).1

end AStore

end CarpenterDemo
