import Mathlib.Algebra.Group.Defs
import Mathlib.Data.List.Induction
import Mathlib.Tactic.Common

/-!
# Machines and their runs

A machine is an initial state with a partial step function: `step s e = none` says that the event
`e` cannot happen in the state `s`.  A run is a list of events that leads from the initial state to
a state (`Run`), and `exec` computes where it leads.

* `Run.invariant` is the invariant rule.
* `Along es P` says that every step of the run `es` satisfies `P`, a predicate on the state before
  the step and its event; `along_snoc_iff` unfolds it at the last step.
* `checkAlong` tests such a predicate on a run, and `along_of_check` is its soundness.
* `along_congr` compares two such predicates under an invariant that the first of them maintains.
* `total f` adds up a quantity over the steps of a run, `emitted f` lists what they emit;
  `total_snoc` and `emitted_snoc` unfold them at the last step.
* `Simulates.run` carries runs of one machine to another along an abstraction function.
-/

/-- An initial state and a partial step function. -/
structure Machine (σ ε : Type*) where
  init : σ
  step : σ → ε → Option σ

namespace Machine

variable {σ ε : Type*} (M : Machine σ ε)

/-- The events `es`, oldest first, lead from the initial state to the given state. -/
inductive Run : List ε → σ → Prop
  | nil : Run [] M.init
  | snoc {es : List ε} {s s' : σ} {e : ε} : Run es s → M.step s e = some s' → Run (es ++ [e]) s'

/-- The state that the events `es` lead to from `s`, if they can all happen. -/
def exec (s : σ) (es : List ε) : Option σ := es.foldlM M.step s

variable {M}

theorem exec_singleton (s : σ) (e : ε) : M.exec s [e] = M.step s e := by
  simp [exec]

theorem exec_snoc (s : σ) (es : List ε) (e : ε) :
    M.exec s (es ++ [e]) = (M.exec s es).bind fun t => M.step t e := by
  simp [exec, List.foldlM_append]

theorem run_iff_exec {es : List ε} {s : σ} : M.Run es s ↔ M.exec M.init es = some s := by
  constructor
  · intro h
    induction h with
    | nil => rfl
    | snoc _ hs ih => rw [exec_snoc, ih]; exact hs
  · induction es using List.reverseRecOn generalizing s with
    | nil =>
      intro h
      obtain rfl : M.init = s := Option.some.inj h
      exact Run.nil
    | append_singleton es e ih =>
      intro h
      rw [exec_snoc, Option.bind_eq_some_iff] at h
      obtain ⟨t, ht, hs⟩ := h
      exact Run.snoc (ih ht) hs

variable (M) in
/-- A list of events that can all happen is a run. -/
theorem run_of_isSome (es : List ε) (h : (M.exec M.init es).isSome) :
    M.Run es ((M.exec M.init es).get h) :=
  run_iff_exec.2 (Option.some_get h).symm

theorem Run.unique {es : List ε} {s t : σ} (hs : M.Run es s) (ht : M.Run es t) : s = t :=
  Option.some.inj ((run_iff_exec.1 hs).symm.trans (run_iff_exec.1 ht))

/-- What holds initially and is preserved by every step holds in every state reached. -/
theorem Run.invariant {I : σ → Prop} (init : I M.init)
    (step : ∀ {s s' : σ} {e : ε}, I s → M.step s e = some s' → I s') {es : List ε} {s : σ}
    (h : M.Run es s) : I s := by
  induction h with
  | nil => exact init
  | snoc _ hs ih => exact step ih hs

/-! ## Predicates on every step of a run -/

variable (M) in
/-- Every step of `es` satisfies `P`, which sees the state before the step and its event. -/
def Along (es : List ε) (P : σ → ε → Prop) : Prop :=
  ∀ fs e gs s, es = fs ++ e :: gs → M.Run fs s → P s e

theorem along_nil (P : σ → ε → Prop) : M.Along [] P := by
  intro fs e gs s h
  simp at h

theorem along_snoc_iff {P : σ → ε → Prop} {es : List ε} {e : ε} {s : σ} (hs : M.Run es s) :
    M.Along (es ++ [e]) P ↔ M.Along es P ∧ P s e := by
  constructor
  · intro h
    refine ⟨fun fs a gs t hes ht => h fs a (gs ++ [e]) t (by simp [hes]) ht, ?_⟩
    exact h es e [] s rfl hs
  · rintro ⟨h, he⟩ fs a gs t hes ht
    rcases List.eq_nil_or_concat gs with rfl | ⟨gs', b, rfl⟩
    · obtain ⟨rfl, hae⟩ := List.append_inj' hes rfl
      obtain rfl : e = a := by simpa using hae
      rwa [ht.unique hs]
    · have hes' : es ++ [e] = (fs ++ a :: gs') ++ [b] := by simpa using hes
      exact h fs a gs' t (List.append_inj' hes' rfl).1 ht

/-- Whether every step of `es`, started in `s`, satisfies `P`. -/
def checkAlong (M : Machine σ ε) (P : σ → ε → Prop) [∀ s e, Decidable (P s e)] : σ → List ε → Bool
  | _, [] => true
  | s, e :: es => decide (P s e) && (M.step s e).all fun s' => M.checkAlong P s' es

theorem of_checkAlong {P : σ → ε → Prop} [∀ s e, Decidable (P s e)] {s : σ} {es : List ε}
    (h : M.checkAlong P s es = true) {fs gs : List ε} {e : ε} {t : σ} (hes : es = fs ++ e :: gs)
    (ht : M.exec s fs = some t) : P t e := by
  induction fs generalizing s es with
  | nil =>
    obtain rfl : s = t := Option.some.inj ht
    rw [hes, List.nil_append, checkAlong, Bool.and_eq_true] at h
    exact of_decide_eq_true h.1
  | cons a fs ih =>
    rw [hes, List.cons_append, checkAlong, Bool.and_eq_true] at h
    rw [exec, List.foldlM_cons, Option.bind_eq_bind, Option.bind_eq_some_iff] at ht
    obtain ⟨s', hs', ht⟩ := ht
    rw [hs', Option.all_some] at h
    exact ih h.2 rfl ht

variable (M) in
theorem along_of_check (P : σ → ε → Prop) [∀ s e, Decidable (P s e)] (es : List ε)
    (h : M.checkAlong P M.init es = true) : M.Along es P :=
  fun _ _ _ _ hes hs => of_checkAlong h hes (run_iff_exec.1 hs)

/-- The invariant rule for runs whose steps all satisfy `P`. -/
theorem Run.invariant_along {P : σ → ε → Prop} {I : σ → Prop} (init : I M.init)
    (step : ∀ {s s' : σ} {e : ε}, I s → P s e → M.step s e = some s' → I s') {es : List ε} {s : σ}
    (h : M.Run es s) (hP : M.Along es P) : I s := by
  induction h with
  | nil => exact init
  | snoc hr hs ih =>
    obtain ⟨hP, he⟩ := (along_snoc_iff hr).1 hP
    exact step (ih hP) he hs

theorem run_snoc_iff {es : List ε} {e : ε} {s' : σ} :
    M.Run (es ++ [e]) s' ↔ ∃ s, M.Run es s ∧ M.step s e = some s' := by
  simp only [run_iff_exec, exec_snoc, Option.bind_eq_some_iff]

/-- The invariant rule from a state of the run on. -/
theorem Run.invariant_from {P : σ → ε → Prop} {I : σ → Prop} {es fs : List ε} {s s' : σ}
    (hs : M.Run es s) (start : I s)
    (step : ∀ {s s' : σ} {e : ε}, I s → P s e → M.step s e = some s' → I s')
    (h : M.Run (es ++ fs) s') (hP : M.Along (es ++ fs) P) : I s' := by
  induction fs using List.reverseRecOn generalizing s' with
  | nil =>
    rw [List.append_nil] at h
    rwa [h.unique hs]
  | append_singleton fs e ih =>
    rw [← List.append_assoc] at h hP
    obtain ⟨t, ht, hs'⟩ := run_snoc_iff.1 h
    obtain ⟨hP, he⟩ := (along_snoc_iff ht).1 hP
    exact step (ih ht hP) he hs'

/-- Two step predicates that agree under an invariant, which the steps satisfying the first of
them preserve, hold along the same runs. -/
theorem along_congr {P Q : σ → ε → Prop} {I : σ → Prop} (init : I M.init)
    (step : ∀ {s s' : σ} {e : ε}, I s → P s e → M.step s e = some s' → I s')
    (agree : ∀ {s s' : σ} {e : ε}, I s → M.step s e = some s' → (P s e ↔ Q s e))
    {es : List ε} {s : σ} (h : M.Run es s) : M.Along es P ↔ M.Along es Q := by
  induction h with
  | nil => exact iff_of_true (along_nil P) (along_nil Q)
  | @snoc es s s' e hr hs ih =>
    rw [along_snoc_iff hr, along_snoc_iff hr, ← ih]
    refine and_congr_right fun hP => ?_
    exact agree (hr.invariant_along init step hP) hs

theorem Along.append {P : σ → ε → Prop} {es fs : List ε} (h : M.Along es P)
    (always : ∀ e ∈ fs, ∀ s, P s e) : M.Along (es ++ fs) P := by
  intro as e bs s split hs
  rcases List.append_eq_append_iff.1 split with ⟨l, -, hfs⟩ | ⟨l, hes, rest⟩
  · exact always e (by rw [hfs]; simp) s
  · cases l with
    | nil => exact always e (by rw [← List.nil_append fs, ← rest]; simp) s
    | cons a l =>
      obtain ⟨rfl, -⟩ := List.cons.inj rest
      exact h as e l s hes hs

theorem Along.of_append {P : σ → ε → Prop} {es fs : List ε} (h : M.Along (es ++ fs) P) :
    M.Along es P := fun as e bs s split hs =>
  h as e (bs ++ fs) s (by rw [split, List.append_assoc, List.cons_append]) hs

/-! ## Quantities that add up along a run -/

/-- The sum over the steps of `es`, started in `s`, of `f`, which sees the state before a step, its
event and the state after it. -/
def total {β : Type*} [AddMonoid β] (M : Machine σ ε) (f : σ → ε → σ → β) : σ → List ε → β
  | _, [] => 0
  | s, e :: es => (M.step s e).elim 0 fun s' => f s e s' + M.total f s' es

theorem total_snoc {β : Type*} [AddMonoid β] (f : σ → ε → σ → β) {s t t' : σ} {es : List ε}
    {e : ε} (ht : M.exec s es = some t) (hs : M.step t e = some t') :
    M.total f s (es ++ [e]) = M.total f s es + f t e t' := by
  induction es generalizing s with
  | nil =>
    obtain rfl : s = t := Option.some.inj ht
    simp [total, hs]
  | cons a es ih =>
    rw [exec, List.foldlM_cons, Option.bind_eq_bind, Option.bind_eq_some_iff] at ht
    obtain ⟨s', hs', ht⟩ := ht
    rw [List.cons_append, total, total, hs', Option.elim_some, Option.elim_some, ih ht, add_assoc]

/-- What `f` makes of the steps of `es`, started in `s`, one after the other; it sees the state
before a step and its event. -/
def emitted {β : Type*} (M : Machine σ ε) (f : σ → ε → List β) : σ → List ε → List β
  | _, [] => []
  | s, e :: es => (M.step s e).elim [] fun s' => f s e ++ M.emitted f s' es

theorem emitted_snoc {β : Type*} (f : σ → ε → List β) {s t t' : σ} {es : List ε} {e : ε}
    (ht : M.exec s es = some t) (hs : M.step t e = some t') :
    M.emitted f s (es ++ [e]) = M.emitted f s es ++ f t e := by
  induction es generalizing s with
  | nil =>
    obtain rfl : s = t := Option.some.inj ht
    simp [emitted, hs]
  | cons a es ih =>
    rw [exec, List.foldlM_cons, Option.bind_eq_bind, Option.bind_eq_some_iff] at ht
    obtain ⟨s', hs', ht⟩ := ht
    rw [List.cons_append, emitted, emitted, hs', Option.elim_some, Option.elim_some, ih ht,
      List.append_assoc]

/-! ## Simulation -/

/-- `f` abstracts the states of `M` to those of `N`; a step of `M` becomes the listed steps of
`N`. -/
structure Simulates {τ δ : Type*} (M : Machine σ ε) (N : Machine τ δ) (f : σ → τ)
    (label : ε → List δ) : Prop where
  init : f M.init = N.init
  step : ∀ {s s' : σ} {e : ε}, M.step s e = some s' → N.exec (f s) (label e) = some (f s')

theorem exec_append (s : σ) (es fs : List ε) :
    M.exec s (es ++ fs) = (M.exec s es).bind fun t => M.exec t fs := by
  simp only [exec, List.foldlM_append]
  rfl

theorem Run.exec_of_append {es fs : List ε} {s t : σ} (hs : M.Run es s) (ht : M.Run (es ++ fs) t) :
    M.exec s fs = some t := by
  have whole := run_iff_exec.1 ht
  rwa [exec_append, run_iff_exec.1 hs] at whole

/-- A run of the simulating machine abstracts to a run. -/
theorem Simulates.run {τ δ : Type*} {N : Machine τ δ} {f : σ → τ} {label : ε → List δ}
    (h : M.Simulates N f label) {es : List ε} {s : σ} (hr : M.Run es s) :
    N.Run (es.flatMap label) (f s) := by
  rw [run_iff_exec]
  induction hr with
  | nil => rw [h.init]; rfl
  | snoc _ hs ih =>
    rw [List.flatMap_append, exec_append, ih, List.flatMap_singleton]
    exact h.step hs

end Machine
