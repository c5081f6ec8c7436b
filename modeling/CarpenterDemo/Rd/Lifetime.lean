import CarpenterDemo.Library.Lists
import CarpenterDemo.Library.Machine
import CarpenterDemo.Library.MachineInt
import CarpenterDemo.Library.OrderedMap
import Mathlib.Data.List.Flatten

/-!
# Lifetimes and their termination

A lifetime keeps the actions that will run when it is terminated.  It is nested in another one by an
action of that other lifetime, which terminates it, and by an action of its own, which takes the
first one back.  `runCalls` runs actions with everything that they call; its argument is what the
call stack still has to do, and an action that throws drops it.

The actions that users add call no lifetime, and a lifetime is not destroyed before those that are
nested in it have been terminated: their actions hold a plain pointer to it.  `log`, `registered`,
`removed` and `nestedIn` are additions of the model.

`Careful` is what the two results ask of every step of a run: no counter overflows, and no action
that throws is added.

* `terminate_unwinds`: terminating a lifetime runs its actions in the reverse of the order in which
  they were added, with all that is nested in it.
* `runs_once`: every action that has been added runs once, is removed, or still waits for its
  lifetime, and no lifetime outlives one that it is nested in.
-/

namespace CarpenterDemo.Rd

inductive LifetimeAction (α : Type*)
  | user (a : α)
  | terminateNested (nested : ℕ)
  | eraseAction (parent : ℕ) (id : ℤ)
  deriving DecidableEq, Repr

structure LifetimeImpl (α : Type*) where
  eternaled : Bool := false
  terminated : Bool := false
  /-- an `int32_t` -/
  actionIdInMap : ℤ := 0
  actions : OrderedMap ℤ (LifetimeAction α) := OrderedMap.empty
  nestedIn : Option ℕ := none
  deriving DecidableEq, Repr

inductive LifetimeEvent (α : Type*)
  | ran (a : α)
  | terminated (lifetime : ℕ)
  deriving DecidableEq, Repr

/-- All lifetimes; the id of a lifetime is its place in the list. -/
structure Lifetimes (α : Type*) where
  impls : List (LifetimeImpl α) := []
  log : List (LifetimeEvent α) := []
  registered : List α := []
  removed : List α := []
  deriving DecidableEq, Repr

inductive LifetimeOp (α : Type*)
  | create (eternal : Bool)
  | createNested (parent : ℕ)
  | addAction (lifetime : ℕ) (a : α)
  | removeAction (lifetime : ℕ) (id : ℤ)
  | terminate (lifetime : ℕ)
  deriving DecidableEq, Repr

namespace LifetimeImpl

variable {α : Type*} (self : LifetimeImpl α)

/-- `actions[action_id_in_map] = action`, and `action_id_in_map++` -/
def push (action : LifetimeAction α) : LifetimeImpl α :=
  { self with
    actions := self.actions.set self.actionIdInMap action
    actionIdInMap := MachineInt.wrap 32 (self.actionIdInMap + 1) }

/-- `actions.erase` -/
def erase (id : ℤ) : LifetimeImpl α := { self with actions := self.actions.erase id }

/-- The actions in the order in which they were added. -/
def calls : List (LifetimeAction α) := self.actions.entries.map Prod.snd

/-- The first part of `terminate`, which moves the actions out. -/
def clear : LifetimeImpl α := { self with terminated := true, actions := OrderedMap.empty }

/-- The next id has not been given to an action that waits. -/
def Numbered : Prop :=
  0 ≤ self.actionIdInMap ∧ ∀ action ∈ self.actions.entries, action.1 < self.actionIdInMap

section Numbered

variable {self} (numbered : self.Numbered) (action : LifetimeAction α)

include numbered

theorem entries_push :
    (self.push action).actions.entries =
      self.actions.entries ++ [(self.actionIdInMap, action)] := by
  have absent : self.actionIdInMap ∉ self.actions.keys := by
    intro present
    obtain ⟨call, waits, same⟩ := List.mem_map.1 present
    have smaller := numbered.2 call waits
    omega
  rw [push, OrderedMap.set, dif_neg absent]

theorem calls_push : (self.push action).calls = self.calls ++ [action] := by
  rw [calls, entries_push numbered, List.map_append]
  rfl

variable (room : self.actionIdInMap < 2 ^ 31 - 1)

include room

theorem actionIdInMap_push : (self.push action).actionIdInMap = self.actionIdInMap + 1 := by
  refine (MachineInt.wrap_eq_self_iff (by omega)).2 ⟨?_, ?_⟩
  · have positive := numbered.1
    omega
  · omega

theorem numbered_push : (self.push action).Numbered := by
  rw [Numbered, actionIdInMap_push numbered action room, entries_push numbered action]
  refine ⟨Int.le_add_one numbered.1, fun call waits => ?_⟩
  obtain waits | last := List.mem_append.1 waits
  · exact Int.lt_add_one_of_le (Int.le_of_lt (numbered.2 call waits))
  · rw [List.mem_singleton.1 last]
    exact Int.lt_succ _

end Numbered

end LifetimeImpl

namespace Lifetimes

variable {α : Type*} (s : Lifetimes α)

def modify (n : ℕ) (f : LifetimeImpl α → LifetimeImpl α) : Lifetimes α :=
  { s with impls := s.impls.modify n f }

/-- How many actions wait. -/
def size : ℕ := (s.impls.flatMap fun impl => impl.actions.entries).length

/-- `LifetimeImpl::terminate` up to its loop, and what the loop will call. -/
def begin (n : ℕ) : List (LifetimeAction α) × Lifetimes α :=
  match s.impls[n]? with
  | none => ([], s)
  | some impl =>
    if impl.eternaled then ([], s)
    else
      (impl.calls.reverse,
        { s.modify n LifetimeImpl.clear with
          log := if impl.terminated then s.log else s.log ++ [.terminated n] })

theorem size_modify {n : ℕ} {impl : LifetimeImpl α} (h : s.impls[n]? = some impl)
    (f : LifetimeImpl α → LifetimeImpl α) :
    (s.modify n f).size + impl.actions.entries.length =
      s.size + (f impl).actions.entries.length := by
  have moved := (Lists.flatMap_modify_perm (fun impl => impl.actions.entries) f h).length_eq
  simpa [size, modify] using moved

theorem size_begin (n : ℕ) : (s.begin n).1.length + (s.begin n).2.size ≤ s.size := by
  unfold begin
  split
  · simp
  · rename_i impl found
    split
    · simp
    · have moved := s.size_modify found LifetimeImpl.clear
      simp only [LifetimeImpl.clear, OrderedMap.empty, List.length_nil, Nat.add_zero] at moved
      rw [List.length_reverse, LifetimeImpl.calls, List.length_map, Nat.add_comm]
      exact Nat.le_of_eq moved

theorem size_erase_le (n : ℕ) (id : ℤ) : (s.modify n fun impl => impl.erase id).size ≤ s.size := by
  cases found : s.impls[n]? with
  | none =>
    have same : (s.modify n fun impl => impl.erase id) = s := by
      rw [modify, List.modify_eq_self (List.getElem?_eq_none_iff.1 found)]
    exact Nat.le_of_eq (congrArg size same)
  | some impl =>
    have moved := s.size_modify found fun impl => impl.erase id
    have fewer : (impl.erase id).actions.entries.length ≤ impl.actions.entries.length :=
      List.length_filter_le _ _
    omega

/-- Runs the calls, the first one first, with everything that they call. -/
def runCalls (throws : α → Bool) : List (LifetimeAction α) → Lifetimes α → Lifetimes α
  | [], s => s
  | .user a :: calls, s =>
    let s := { s with log := s.log ++ [.ran a] }
    -- an exception leaves every loop that is running
    if throws a then s else runCalls throws calls s
  | .terminateNested n :: calls, s => runCalls throws ((s.begin n).1 ++ calls) (s.begin n).2
  | .eraseAction parent id :: calls, s =>
    runCalls throws calls (s.modify parent fun impl => impl.erase id)
termination_by calls s => calls.length + s.size
decreasing_by
  · show calls.length + s.size < calls.length + 1 + s.size
    omega
  · have shrinks := s.size_begin n
    simp only [List.length_append, List.length_cons]
    omega
  · have shrinks := s.size_erase_le parent id
    simp only [List.length_cons]
    omega

def terminate (throws : α → Bool) (n : ℕ) : Lifetimes α :=
  s.runCalls throws [.terminateNested n]

/-- `add_action` on a lifetime that is neither eternal nor terminated. -/
def addAction (n : ℕ) (action : LifetimeAction α) : Lifetimes α :=
  s.modify n fun impl => impl.push action

/-- `create_nested` in a lifetime that has not been terminated. -/
def createNested (parent : ℕ) (impl : LifetimeImpl α) : Lifetimes α :=
  let nested := s.impls.length
  if impl.eternaled then { s with impls := s.impls ++ [{}] }
  else
    let impls := s.impls ++ [({ nestedIn := some parent } : LifetimeImpl α)]
    let s := { s with impls := impls }
    let s := s.addAction parent (.terminateNested nested)
    s.addAction nested (.eraseAction parent impl.actionIdInMap)

/-- `none` where the source throws. -/
def step (throws : α → Bool) (s : Lifetimes α) : LifetimeOp α → Option (Lifetimes α)
  | .create eternal => some { s with impls := s.impls ++ [{ eternaled := eternal }] }
  | .createNested parent =>
    match s.impls[parent]? with
    | none => none
    | some impl => if impl.terminated then none else some (s.createNested parent impl)
  | .addAction n a =>
    match s.impls[n]? with
    | none => none
    | some impl =>
      if impl.eternaled then some s
      else if impl.terminated then none
      else some { s.addAction n (.user a) with registered := s.registered ++ [a] }
  | .removeAction n id =>
    match s.impls[n]? with
    | none => none
    | some impl =>
      match impl.actions.get? id with
      | some (.user a) =>
        some { s.modify n (fun impl => impl.erase id) with removed := s.removed ++ [a] }
      | some _ => none
      | none => some s
  | .terminate n => if n < s.impls.length then some (s.terminate throws n) else none

def machine (throws : α → Bool) : Machine (Lifetimes α) (LifetimeOp α) := ⟨{}, step throws⟩

/-- The counter of the lifetime, if there is one, does not overflow. -/
def HasRoom (n : ℕ) : Prop := ∀ impl ∈ s.impls[n]?, impl.actionIdInMap < 2 ^ 31 - 1

instance (n : ℕ) : Decidable (s.HasRoom n) :=
  inferInstanceAs (Decidable (∀ impl ∈ s.impls[n]?, impl.actionIdInMap < 2 ^ 31 - 1))

def Careful (throws : α → Bool) (s : Lifetimes α) : LifetimeOp α → Prop
  | .createNested parent => s.HasRoom parent
  | .addAction n a => s.HasRoom n ∧ throws a = false
  | _ => True

instance (throws : α → Bool) (s : Lifetimes α) : ∀ op, Decidable (s.Careful throws op)
  | .createNested parent => inferInstanceAs (Decidable (s.HasRoom parent))
  | .addAction n a => inferInstanceAs (Decidable (s.HasRoom n ∧ throws a = false))
  | .create _ | .removeAction .. | .terminate _ => .isTrue trivial

/-! ## What terminating a lifetime comes to -/

/-- The events of a call, where nesting is followed to the given depth. -/
def unwind (impls : List (LifetimeImpl α)) : ℕ → LifetimeAction α → List (LifetimeEvent α)
  | _, .user a => [.ran a]
  | _, .eraseAction _ _ => []
  | 0, .terminateNested _ => []
  | depth + 1, .terminateNested n =>
    match impls[n]? with
    | none => []
    | some impl =>
      if impl.eternaled ∨ impl.terminated then []
      else .terminated n :: impl.calls.reverse.flatMap (unwind impls depth)

section Unwind

variable {impls : List (LifetimeImpl α)}

/-- Who is nested comes after the lifetime that it is nested in. -/
def Deeper (impls : List (LifetimeImpl α)) : Prop :=
  ∀ parent nested (impl : LifetimeImpl α), impls[parent]? = some impl →
    .terminateNested nested ∈ impl.calls → parent < nested

/-- Greater depths than that of the list are all the same. -/
theorem unwind_succ (deeper : Deeper impls) {depth n : ℕ} (enough : impls.length ≤ depth + n) :
    unwind impls (depth + 1) (.terminateNested n) = unwind impls depth (.terminateNested n) := by
  induction depth generalizing n with
  | zero =>
    have none : impls[n]? = none := List.getElem?_eq_none_iff.2 (by omega)
    simp [unwind, none]
  | succ depth ih =>
    rw [unwind, unwind]
    cases found : impls[n]? with
    | none => rfl
    | some impl =>
      simp only
      split_ifs
      · rfl
      · congr 1
        refine List.flatMap_congr fun action called => ?_
        cases action with
        | user a => rw [unwind, unwind]
        | eraseAction parent id => rw [unwind, unwind]
        | terminateNested nested =>
          have later := deeper n nested impl found (List.mem_reverse.1 called)
          exact ih (by omega)

/-- Clearing a lifetime changes nothing for calls that do not reach it. -/
theorem unwind_clear {n : ℕ} {P : LifetimeAction α → Prop} (other : ¬ P (.terminateNested n))
    (closed : ∀ (m : ℕ) impl, P (.terminateNested m) → impls[m]? = some impl →
      ∀ action ∈ impl.calls, P action) (depth : ℕ) {action : LifetimeAction α} (h : P action) :
    unwind (impls.modify n LifetimeImpl.clear) depth action = unwind impls depth action := by
  induction depth generalizing action with
  | zero => cases action <;> simp [unwind]
  | succ depth ih =>
    cases action with
    | user a => simp [unwind]
    | eraseAction parent id => simp [unwind]
    | terminateNested m =>
      have different : n ≠ m := fun same => other (same ▸ h)
      rw [unwind, unwind, List.getElem?_modify_ne _ _ different]
      cases found : impls[m]? with
      | none => rfl
      | some impl =>
        simp only
        split_ifs
        · rfl
        · congr 1
          refine List.flatMap_congr fun action called => ih ?_
          exact closed m impl h found action (List.mem_reverse.1 called)

/-- Neither does erasing an action that does nothing any more. -/
theorem unwind_erase {parent : ℕ} {id : ℤ} (dead : ∀ impl action, impls[parent]? = some impl →
      (id, action) ∈ impl.actions.entries → ∀ depth, unwind impls depth action = [])
    (depth : ℕ) (action : LifetimeAction α) :
    unwind (impls.modify parent fun impl => impl.erase id) depth action =
      unwind impls depth action := by
  induction depth generalizing action with
  | zero => cases action <;> simp [unwind]
  | succ depth ih =>
    have same : unwind (impls.modify parent fun impl => impl.erase id) depth = unwind impls depth :=
      funext ih
    cases action with
    | user a => simp [unwind]
    | eraseAction parent id => simp [unwind]
    | terminateNested m =>
      rw [unwind, unwind, same]
      by_cases here : parent = m
      · subst here
        rw [List.getElem?_modify_eq]
        cases found : impls[parent]? with
        | none => rfl
        | some impl =>
          have skips : (impl.erase id).calls.reverse.flatMap (unwind impls depth) =
              impl.calls.reverse.flatMap (unwind impls depth) := by
            rw [LifetimeImpl.calls, LifetimeImpl.calls, ← List.map_reverse, ← List.map_reverse,
              LifetimeImpl.erase, OrderedMap.erase, ← List.filter_reverse, List.flatMap_map,
              List.flatMap_map]
            refine Lists.flatMap_filter_eq _ _ fun action waits erased => ?_
            have erased : action.1 = id := by simpa using erased
            exact dead impl action.2 found (erased ▸ List.mem_reverse.1 waits) depth
          show (if impl.eternaled ∨ impl.terminated then []
            else .terminated parent ::
              (impl.erase id).calls.reverse.flatMap (unwind impls depth)) = _
          rw [skips]
      · rw [List.getElem?_modify_ne _ _ here]

end Unwind

/-! ## The invariant -/

/-- The lifetimes that the calls terminate. -/
def targets (calls : List (LifetimeAction α)) : List ℕ :=
  calls.flatMap fun
    | .terminateNested n => [n]
    | _ => []

/-- The actions of users among the calls. -/
def users (calls : List (LifetimeAction α)) : List α :=
  calls.flatMap fun
    | .user a => [a]
    | _ => []

/-- The user actions that have run. -/
def ran (log : List (LifetimeEvent α)) : List α :=
  log.flatMap fun
    | .ran a => [a]
    | .terminated _ => []

/-- The invariant while `calls` still have to be run. -/
structure Inv (calls : List (LifetimeAction α)) (s : Lifetimes α) : Prop where
  cleared : ∀ (n : ℕ) impl, s.impls[n]? = some impl → impl.terminated = true →
    impl.actions = OrderedMap.empty
  eternal : ∀ (n : ℕ) impl, s.impls[n]? = some impl → impl.eternaled = true →
    impl.terminated = false ∧ impl.nestedIn = none
  deeper : Deeper s.impls
  /-- A lifetime is nested in one other at most, and is not terminated twice by it. -/
  once : (targets calls ++ s.impls.flatMap fun impl => targets impl.calls).Nodup
  known : ∀ n ∈ targets calls ++ s.impls.flatMap fun impl => targets impl.calls, n < s.impls.length
  numbered : ∀ (n : ℕ) impl, s.impls[n]? = some impl → impl.Numbered
  /-- What a lifetime takes back is the action that terminates it. -/
  links : ∀ (n : ℕ) impl parent id, s.impls[n]? = some impl → .eraseAction parent id ∈ impl.calls →
    ∃ parentImpl : LifetimeImpl α, s.impls[parent]? = some parentImpl ∧
      id < parentImpl.actionIdInMap ∧
      ∀ action, (id, action) ∈ parentImpl.actions.entries → action = .terminateNested n
  /-- What is being taken back terminates a lifetime that has been terminated. -/
  erasing : ∀ parent id, .eraseAction parent id ∈ calls →
    ∀ (parentImpl : LifetimeImpl α) action, s.impls[parent]? = some parentImpl →
      (id, action) ∈ parentImpl.actions.entries → ∃ (n : ℕ) (impl : LifetimeImpl α),
        action = .terminateNested n ∧ s.impls[n]? = some impl ∧ impl.terminated = true
  marked : ∀ n, .terminated n ∈ s.log ↔
    ∃ impl : LifetimeImpl α, s.impls[n]? = some impl ∧ impl.terminated = true
  nested : ∀ (n : ℕ) impl parent, s.impls[n]? = some impl → impl.nestedIn = some parent →
    impl.terminated = true ∨ n ∈ targets calls ∨ ∃ parentImpl : LifetimeImpl α,
      s.impls[parent]? = some parentImpl ∧ n ∈ targets parentImpl.calls
  registered : (ran s.log ++ s.removed ++ users calls ++
    s.impls.flatMap fun impl => users impl.calls).Perm s.registered

section Inv

variable {s} {calls rest : List (LifetimeAction α)} {n m : ℕ} {impl : LifetimeImpl α}

@[simp] theorem targets_append : targets (calls ++ rest) = targets calls ++ targets rest :=
  List.flatMap_append

@[simp] theorem users_append : users (calls ++ rest) = users calls ++ users rest :=
  List.flatMap_append

@[simp] theorem ran_append (log events : List (LifetimeEvent α)) :
    ran (log ++ events) = ran log ++ ran events := List.flatMap_append

@[simp] theorem targets_cons_terminate :
    targets (.terminateNested n :: calls) = n :: targets calls := rfl

theorem mem_targets : n ∈ targets calls ↔ .terminateNested n ∈ calls := by
  constructor
  · intro h
    obtain ⟨action, called, here⟩ := List.mem_flatMap.1 h
    cases action with
    | terminateNested m =>
      rw [List.mem_singleton.1 here]
      exact called
    | _ => cases here
  · intro called
    exact List.mem_flatMap.2 ⟨_, called, List.mem_singleton.2 rfl⟩

theorem mem_calls {action : LifetimeAction α} :
    action ∈ impl.calls ↔ ∃ id, (id, action) ∈ impl.actions.entries := by
  simp [LifetimeImpl.calls]

theorem found_modify {f : LifetimeImpl α → LifetimeImpl α} :
    (s.modify n f).impls[m]? = some impl ↔
      ∃ old, s.impls[m]? = some old ∧ impl = if n = m then f old else old := by
  rw [modify, List.getElem?_modify]
  cases s.impls[m]? with
  | none => simp
  | some old => simp [eq_comm]

theorem mem_targets_calls : n ∈ targets impl.calls ↔
    ∃ id, (id, .terminateNested n) ∈ impl.actions.entries :=
  mem_targets.trans mem_calls

theorem targets_reverse_perm (calls : List (LifetimeAction α)) :
    (targets calls.reverse).Perm (targets calls) := (List.reverse_perm calls).flatMap_right _

theorem users_terminating {pre : List (LifetimeAction α)}
    (only : ∀ action ∈ pre, action = .terminateNested n) : users pre = [] := by
  refine List.flatMap_eq_nil_iff.2 fun action called => ?_
  rw [only action called]

theorem found_modify_cases (found : s.impls[n]? = some impl) {f : LifetimeImpl α → LifetimeImpl α}
    {new : LifetimeImpl α} (h : (s.modify n f).impls[m]? = some new) :
    (m = n ∧ new = f impl) ∨ (m ≠ n ∧ s.impls[m]? = some new) := by
  obtain ⟨old, here, rfl⟩ := found_modify.1 h
  by_cases same : n = m
  · subst same
    obtain rfl : impl = old := Option.some.inj (found.symm.trans here)
    rw [if_pos rfl]
    exact Or.inl ⟨rfl, rfl⟩
  · rw [if_neg same]
    exact Or.inr ⟨Ne.symm same, here⟩

/-! What an operation on one lifetime does to any of them. -/

theorem clear_of_found (n : ℕ) (found : s.impls[m]? = some impl) :
    ∃ new, (s.modify n LifetimeImpl.clear).impls[m]? = some new ∧
      (impl.terminated = true → new.terminated = true) := by
  refine ⟨_, found_modify.2 ⟨impl, found, rfl⟩, fun ended => ?_⟩
  split_ifs
  · rfl
  · exact ended

section Erase

variable {parent : ℕ} {id : ℤ}

theorem found_of_erase {new : LifetimeImpl α}
    (found : (s.modify parent fun impl => impl.erase id).impls[m]? = some new) :
    ∃ old : LifetimeImpl α, s.impls[m]? = some old ∧
      new.actions.entries.Sublist old.actions.entries ∧
      new.terminated = old.terminated ∧ new.eternaled = old.eternaled ∧
      new.nestedIn = old.nestedIn ∧ new.actionIdInMap = old.actionIdInMap := by
  obtain ⟨old, here, rfl⟩ := found_modify.1 found
  refine ⟨old, here, ?_⟩
  split_ifs
  · exact ⟨List.filter_sublist, rfl, rfl, rfl, rfl⟩
  · exact ⟨List.Sublist.refl _, rfl, rfl, rfl, rfl⟩

variable (parent id) in
theorem erase_of_found (found : s.impls[m]? = some impl) :
    ∃ new : LifetimeImpl α, (s.modify parent fun impl => impl.erase id).impls[m]? = some new ∧
      new.terminated = impl.terminated ∧ new.actionIdInMap = impl.actionIdInMap ∧
      ∀ action ∈ impl.actions.entries,
        action ∈ new.actions.entries ∨ parent = m ∧ action.1 = id := by
  refine ⟨_, found_modify.2 ⟨impl, found, rfl⟩, ?_⟩
  split_ifs with here
  · refine ⟨rfl, rfl, fun action waits => ?_⟩
    by_cases erased : action.1 = id
    · exact Or.inr ⟨here, erased⟩
    · exact Or.inl (List.mem_filter.2 ⟨waits, decide_eq_true erased⟩)
  · exact ⟨rfl, rfl, fun action waits => Or.inl waits⟩

theorem mem_calls_of_sublist {old : LifetimeImpl α}
    (fewer : impl.actions.entries.Sublist old.actions.entries) {action : LifetimeAction α}
    (waits : action ∈ impl.calls) : action ∈ old.calls := (fewer.map Prod.snd).mem waits

end Erase

theorem push_of_found (found : s.impls[n]? = some impl) (numbered : impl.Numbered)
    (room : impl.actionIdInMap < 2 ^ 31 - 1) (action : LifetimeAction α) {old : LifetimeImpl α}
    (here : s.impls[m]? = some old) :
    ∃ new : LifetimeImpl α, (s.addAction n action).impls[m]? = some new ∧
      new.terminated = old.terminated ∧ old.actionIdInMap ≤ new.actionIdInMap ∧
      (∀ call ∈ new.actions.entries, call ∈ old.actions.entries ∨ call.1 = old.actionIdInMap) ∧
      ∀ call ∈ old.actions.entries, call ∈ new.actions.entries := by
  refine ⟨_, found_modify.2 ⟨old, here, rfl⟩, ?_⟩
  split_ifs with same
  · subst same
    obtain rfl := Option.some.inj (found.symm.trans here)
    rw [LifetimeImpl.actionIdInMap_push numbered action room, LifetimeImpl.entries_push numbered]
    refine ⟨rfl, by omega, fun call waits => ?_, fun call => List.mem_append_left _⟩
    obtain waits | last := List.mem_append.1 waits
    · exact Or.inl waits
    · rw [List.mem_singleton.1 last]
      exact Or.inr rfl
  · exact ⟨rfl, Int.le_refl _, fun call waits => Or.inl waits, fun call waits => waits⟩

/-! What the invariant keeps. -/

/-- A call about a lifetime that does not end is dropped. -/
theorem Inv.drop {pre : List (LifetimeAction α)} (h : Inv (pre ++ calls) s)
    (only : ∀ action ∈ pre, action = .terminateNested n)
    (immortal : ∀ impl, s.impls[n]? = some impl → impl.eternaled = true) : Inv calls s where
  cleared := h.cleared
  eternal := h.eternal
  deeper := h.deeper
  once := by
    have once := h.once
    rw [targets_append, List.append_assoc] at once
    exact once.sublist (List.sublist_append_right _ _)
  known := by
    intro m called
    refine h.known m ?_
    rw [targets_append, List.append_assoc]
    exact List.mem_append_right _ called
  numbered := h.numbered
  links := h.links
  erasing := fun parent id called => h.erasing parent id (List.mem_append_right pre called)
  marked := h.marked
  nested := by
    intro m impl parent found isNested
    obtain ended | called | waits := h.nested m impl parent found isNested
    · exact Or.inl ended
    · rw [targets_append, List.mem_append] at called
      obtain here | called := called
      · obtain ⟨⟩ := only _ (mem_targets.1 here)
        have unnested := (h.eternal n impl found (immortal impl found)).2
        rw [unnested] at isNested
        cases isNested
      · exact Or.inr (Or.inl called)
    · exact Or.inr (Or.inr waits)
  registered := by
    have registered := h.registered
    rwa [users_append, users_terminating only, List.nil_append] at registered

/-- Clearing a lifetime moves its actions to what is called. -/
theorem clear_perm {β : Type*} (f : LifetimeAction α → List β) (found : s.impls[n]? = some impl)
    (calls : List (LifetimeAction α)) :
    ((impl.calls.reverse ++ calls).flatMap f ++
        (s.modify n LifetimeImpl.clear).impls.flatMap fun impl => impl.calls.flatMap f).Perm
      (calls.flatMap f ++ s.impls.flatMap fun impl => impl.calls.flatMap f) := by
  have moved := Lists.flatMap_modify_perm (fun impl => impl.calls.flatMap f) LifetimeImpl.clear
    found
  have none : impl.clear.calls.flatMap f = [] := rfl
  rw [none, List.append_nil] at moved
  have turned := (List.reverse_perm impl.calls).flatMap_right f
  rw [List.flatMap_append, List.append_assoc]
  refine (turned.append_right _).trans (List.perm_append_comm.trans ?_)
  rw [List.append_assoc]
  exact moved.append_left _

/-- What a call about the lifetime `n`, or none, leaves of the invariant when it begins to terminate
the lifetime. -/
theorem Inv.clear {pre : List (LifetimeAction α)} (h : Inv (pre ++ calls) s)
    (only : ∀ action ∈ pre, action = .terminateNested n) (found : s.impls[n]? = some impl)
    (mortal : impl.eternaled = false) :
    Inv (impl.calls.reverse ++ calls)
      { s.modify n LifetimeImpl.clear with
        log := if impl.terminated then s.log else s.log ++ [.terminated n] } := by
  have cleared : (s.modify n LifetimeImpl.clear).impls[n]? = some impl.clear :=
    found_modify.2 ⟨impl, found, (if_pos rfl).symm⟩
  refine ⟨?_, ?_, ?_, ?_, ?_, ?_, ?_, ?_, ?_, ?_, ?_⟩
  · intro m new here ended
    obtain ⟨rfl, rfl⟩ | ⟨-, here⟩ := found_modify_cases found here
    · rfl
    · exact h.cleared m new here ended
  · intro m new here eternal
    obtain ⟨rfl, rfl⟩ | ⟨-, here⟩ := found_modify_cases found here
    · rw [LifetimeImpl.clear, mortal] at eternal
      cases eternal
    · exact h.eternal m new here eternal
  · intro m nested new here waits
    obtain ⟨rfl, rfl⟩ | ⟨-, here⟩ := found_modify_cases found here
    · cases waits
    · exact h.deeper m nested new here waits
  · have once := h.once
    rw [targets_append, List.append_assoc] at once
    exact (clear_perm _ found calls).nodup_iff.2 (once.sublist (List.sublist_append_right _ _))
  · intro m called
    have called := (clear_perm _ found calls).mem_iff.1 called
    rw [modify, List.length_modify]
    refine h.known m ?_
    rw [targets_append, List.append_assoc]
    exact List.mem_append_right _ called
  · intro m new here
    obtain ⟨rfl, rfl⟩ | ⟨-, here⟩ := found_modify_cases found here
    · exact ⟨(h.numbered _ impl found).1, nofun⟩
    · exact h.numbered m new here
  · intro m new parent id here waits
    obtain ⟨rfl, rfl⟩ | ⟨-, here⟩ := found_modify_cases found here
    · cases waits
    · obtain ⟨parentImpl, foundParent, smaller, link⟩ := h.links m new parent id here waits
      refine ⟨_, found_modify.2 ⟨parentImpl, foundParent, rfl⟩, ?_, ?_⟩
      · split_ifs <;> exact smaller
      · intro action waits
        split_ifs at waits
        · cases waits
        · exact link action waits
  · intro parent id called parentImpl action foundParent waits
    obtain ⟨rfl, rfl⟩ | ⟨-, foundParent⟩ := found_modify_cases found foundParent
    · cases waits
    · rw [List.mem_append, List.mem_reverse] at called
      obtain here | called := called
      · obtain ⟨first, same, -, link⟩ := h.links n impl parent id found here
        obtain rfl := Option.some.inj (foundParent.symm.trans same)
        exact ⟨n, _, link action waits, cleared, rfl⟩
      · obtain ⟨m, old, rfl, foundOld, ended⟩ :=
          h.erasing parent id (List.mem_append_right pre called) parentImpl action foundParent waits
        obtain ⟨new, foundNew, still⟩ := clear_of_found n foundOld
        exact ⟨m, new, rfl, foundNew, still ended⟩
  · intro m
    have logged : .terminated m ∈ (if impl.terminated then s.log else s.log ++ [.terminated n]) ↔
        .terminated m ∈ s.log ∨ m = n := by
      split_ifs with ended
      · refine ⟨Or.inl, ?_⟩
        rintro (here | rfl)
        · exact here
        · exact (h.marked m).2 ⟨impl, found, ended⟩
      · simp
    rw [logged, h.marked m]
    constructor
    · rintro (⟨old, here, ended⟩ | rfl)
      · obtain ⟨new, foundNew, still⟩ := clear_of_found n here
        exact ⟨new, foundNew, still ended⟩
      · exact ⟨_, cleared, rfl⟩
    · rintro ⟨new, here, ended⟩
      obtain ⟨rfl, -⟩ | ⟨-, here⟩ := found_modify_cases found here
      · exact Or.inr rfl
      · exact Or.inl ⟨new, here, ended⟩
  · intro m new parent here isNested
    obtain ⟨rfl, rfl⟩ | ⟨other, here⟩ := found_modify_cases found here
    · exact Or.inl rfl
    · obtain ended | called | ⟨parentImpl, foundParent, waits⟩ :=
        h.nested m new parent here isNested
      · exact Or.inl ended
      · rw [targets_append, List.mem_append] at called
        obtain called | called := called
        · obtain ⟨⟩ := only _ (mem_targets.1 called)
          exact absurd rfl other
        · exact Or.inr (Or.inl (by simp [called]))
      · by_cases same : parent = n
        · subst same
          obtain rfl := Option.some.inj (foundParent.symm.trans found)
          have waits := (targets_reverse_perm parentImpl.calls).mem_iff.2 waits
          exact Or.inr (Or.inl (by simp [waits]))
        · refine Or.inr (Or.inr ⟨parentImpl, found_modify.2 ⟨parentImpl, foundParent, ?_⟩, waits⟩)
          rw [if_neg (Ne.symm same)]
  · have registered := h.registered
    rw [users_append, users_terminating only, List.nil_append, List.append_assoc] at registered
    have same : ran (if impl.terminated then s.log else s.log ++ [.terminated n]) = ran s.log := by
      split_ifs
      · rfl
      · rw [ran_append]
        exact List.append_nil _
    show (ran (if impl.terminated then s.log else s.log ++ [.terminated n]) ++ s.removed ++
      users (impl.calls.reverse ++ calls) ++ _).Perm s.registered
    rw [same, List.append_assoc]
    exact ((clear_perm _ found calls).append_left _).trans registered

theorem Inv.begin {pre : List (LifetimeAction α)} (h : Inv (pre ++ calls) s)
    (only : ∀ action ∈ pre, action = .terminateNested n) :
    Inv ((s.begin n).1 ++ calls) (s.begin n).2 := by
  unfold Lifetimes.begin
  split
  · rename_i none
    refine h.drop only fun impl found => ?_
    rw [none] at found
    cases found
  · rename_i impl found
    split
    · rename_i eternal
      refine h.drop only fun other same => ?_
      obtain rfl := Option.some.inj (found.symm.trans same)
      exact eternal
    · rename_i mortal
      exact h.clear only found (eq_false_of_ne_true mortal)

theorem Inv.user {a : α} (h : Inv (.user a :: calls) s) :
    Inv calls { s with log := s.log ++ [.ran a] } :=
  { h with
    erasing := fun parent id called => h.erasing parent id (List.mem_cons_of_mem _ called)
    marked := fun n => by simpa using h.marked n
    registered := by
      refine List.Perm.trans ?_ h.registered
      show (ran (s.log ++ [LifetimeEvent.ran a]) ++ s.removed ++ users calls ++ _).Perm
        (ran s.log ++ s.removed ++ a :: users calls ++ _)
      rw [ran_append]
      refine List.Perm.append_right _ ?_
      show (ran s.log ++ [a] ++ s.removed ++ users calls).Perm _
      rw [List.append_assoc, List.append_assoc, List.append_assoc]
      refine List.Perm.append_left _ ?_
      show (a :: (s.removed ++ users calls)).Perm (s.removed ++ a :: users calls)
      exact List.perm_middle.symm }

/-- Erasing an action that terminates nothing any more, or one that a user has added. -/
theorem Inv.erase {pre : List (LifetimeAction α)} {parent : ℕ} {id : ℤ} {removed : List α}
    (h : Inv (pre ++ calls) s) (silent : targets pre = [])
    (dead : ∀ (n : ℕ) impl, s.impls[parent]? = some impl →
      (id, .terminateNested n) ∈ impl.actions.entries →
      ∃ ended : LifetimeImpl α, s.impls[n]? = some ended ∧ ended.terminated = true)
    (registered : (ran s.log ++ removed ++ users calls ++
      (s.modify parent fun impl => impl.erase id).impls.flatMap fun impl =>
        users impl.calls).Perm s.registered) :
    Inv calls { s.modify parent fun impl => impl.erase id with removed := removed } := by
  have fewer : (targets calls ++ (s.modify parent fun impl => impl.erase id).impls.flatMap
      fun impl => targets impl.calls).Sublist
      (targets (pre ++ calls) ++ s.impls.flatMap fun impl => targets impl.calls) := by
    rw [targets_append, silent, List.nil_append]
    refine (List.Sublist.refl _).append ?_
    refine Lists.flatMap_modify_sublist _ (fun impl => ?_) _ _
    exact (List.filter_sublist.map Prod.snd).flatMap _
  refine ⟨?_, ?_, ?_, h.once.sublist fewer, ?_, ?_, ?_, ?_, ?_, ?_, registered⟩
  · intro m new found ended
    obtain ⟨old, here, fewer, same, -⟩ := found_of_erase found
    rw [same] at ended
    rw [h.cleared m old here ended] at fewer
    exact OrderedMap.ext (List.sublist_nil.1 fewer)
  · intro m new found eternal
    obtain ⟨old, here, -, same, eternaled, nestedIn, -⟩ := found_of_erase found
    rw [same, nestedIn]
    exact h.eternal m old here (eternaled ▸ eternal)
  · intro m nested new found waits
    obtain ⟨old, here, fewer, -⟩ := found_of_erase found
    exact h.deeper m nested old here (mem_calls_of_sublist fewer waits)
  · intro m called
    rw [modify, List.length_modify]
    exact h.known m (fewer.mem called)
  · intro m new found
    obtain ⟨old, here, fewer, -, -, -, same⟩ := found_of_erase found
    obtain ⟨positive, smaller⟩ := h.numbered m old here
    rw [LifetimeImpl.Numbered, same]
    exact ⟨positive, fun action waits => smaller action (fewer.mem waits)⟩
  · intro m new other key found waits
    obtain ⟨old, here, fewer, -⟩ := found_of_erase found
    obtain ⟨parentImpl, foundParent, smaller, link⟩ :=
      h.links m old other key here (mem_calls_of_sublist fewer waits)
    obtain ⟨newParent, foundNew, -, same, -⟩ := erase_of_found parent id foundParent
    refine ⟨newParent, foundNew, same ▸ smaller, fun action waits => ?_⟩
    obtain ⟨oldParent, foundOld, fewer, -⟩ := found_of_erase foundNew
    obtain rfl := Option.some.inj (foundParent.symm.trans foundOld)
    exact link action (fewer.mem waits)
  · intro other key called newParent action found waits
    obtain ⟨oldParent, foundOld, fewer, -⟩ := found_of_erase found
    obtain ⟨m, old, rfl, here, ended⟩ := h.erasing other key (List.mem_append_right pre called)
      oldParent action foundOld (fewer.mem waits)
    obtain ⟨new, foundNew, same, -⟩ := erase_of_found parent id here
    exact ⟨m, new, rfl, foundNew, same ▸ ended⟩
  · intro m
    rw [show (s.modify parent fun impl => impl.erase id).log = s.log from rfl, h.marked m]
    constructor
    · rintro ⟨old, here, ended⟩
      obtain ⟨new, foundNew, same, -⟩ := erase_of_found parent id here
      exact ⟨new, foundNew, same ▸ ended⟩
    · rintro ⟨new, found, ended⟩
      obtain ⟨old, here, -, same, -⟩ := found_of_erase found
      exact ⟨old, here, same ▸ ended⟩
  · intro m new other found isNested
    obtain ⟨old, here, -, ended, -, nestedIn, -⟩ := found_of_erase found
    rw [nestedIn] at isNested
    rw [ended]
    obtain finished | called | ⟨parentImpl, foundParent, waits⟩ :=
      h.nested m old other here isNested
    · exact Or.inl finished
    · rw [targets_append, silent, List.nil_append] at called
      exact Or.inr (Or.inl called)
    · obtain ⟨key, waits⟩ := mem_targets_calls.1 waits
      obtain ⟨newParent, foundNew, -, -, kept⟩ := erase_of_found parent id foundParent
      obtain waits | ⟨rfl, rfl⟩ := kept _ waits
      · exact Or.inr (Or.inr ⟨newParent, foundNew, mem_targets_calls.2 ⟨key, waits⟩⟩)
      · obtain ⟨finished, found, ended⟩ := dead m parentImpl foundParent waits
        obtain rfl := Option.some.inj (here.symm.trans found)
        exact Or.inl ended

theorem erase_calls_flatMap {β : Type*} (f : LifetimeAction α → List β) (id : ℤ)
    (nothing : ∀ action, (id, action) ∈ impl.actions.entries → f action = []) :
    (impl.erase id).calls.flatMap f = impl.calls.flatMap f := by
  rw [LifetimeImpl.calls, LifetimeImpl.calls, List.flatMap_map, List.flatMap_map]
  refine Lists.flatMap_filter_eq _ _ fun action waits erased => ?_
  have erased : action.1 = id := by simpa using erased
  exact nothing action.2 (erased ▸ waits)

theorem Inv.eraseAction {parent : ℕ} {id : ℤ} (h : Inv (.eraseAction parent id :: calls) s) :
    Inv calls (s.modify parent fun impl => impl.erase id) := by
  have dead := h.erasing parent id List.mem_cons_self
  have h : Inv ([.eraseAction parent id] ++ calls) s := h
  refine h.erase rfl ?_ ?_
  · intro n impl found waits
    obtain ⟨m, ended, same, here⟩ := dead impl _ found waits
    obtain ⟨⟩ := same
    exact ⟨ended, here⟩
  · refine List.Perm.trans (List.Perm.append_left _ ?_) h.registered
    cases found : s.impls[parent]? with
    | none =>
      rw [modify, List.modify_eq_self (List.getElem?_eq_none_iff.1 found)]
    | some impl =>
      have moved := Lists.flatMap_modify_perm (fun impl => users impl.calls)
        (fun impl => impl.erase id) found
      have same : users (impl.erase id).calls = users impl.calls :=
        erase_calls_flatMap _ id fun action waits => by
          obtain ⟨m, -, rfl, -⟩ := dead impl action found waits
          rfl
      rw [same] at moved
      exact (List.perm_append_right_iff _).1 moved

theorem Inv.begin_cons (h : Inv (.terminateNested n :: calls) s) :
    Inv ((s.begin n).1 ++ calls) (s.begin n).2 := by
  have h : Inv ([.terminateNested n] ++ calls) s := h
  exact h.begin fun action called => List.mem_singleton.1 called

/-- What has been called and what is still to be called are the same when a lifetime begins to be
terminated that nothing else called reaches. -/
theorem begin_unwind {P : LifetimeAction α → Prop} (other : ¬ P (.terminateNested n))
    (closed : ∀ (m : ℕ) impl, P (.terminateNested m) → s.impls[m]? = some impl →
      ∀ action ∈ impl.calls, P action)
    (h : Inv rest s) (called : ∀ action ∈ calls, P action)
    (own : ∀ impl, s.impls[n]? = some impl → ∀ action ∈ impl.calls, P action) :
    (s.begin n).2.log ++ ((s.begin n).1 ++ calls).flatMap
        (unwind (s.begin n).2.impls (s.begin n).2.impls.length) =
      s.log ++ (.terminateNested n :: calls).flatMap (unwind s.impls s.impls.length) := by
  have deep : unwind s.impls s.impls.length (.terminateNested n) =
      unwind s.impls (s.impls.length + 1) (.terminateNested n) :=
    (unwind_succ h.deeper (Nat.le_add_right _ _)).symm
  rw [List.flatMap_cons, deep, unwind]
  unfold Lifetimes.begin
  cases found : s.impls[n]? with
  | none => rfl
  | some impl =>
    simp only
    by_cases eternal : impl.eternaled = true
    · simp [eternal]
    · have same : (impl.calls.reverse ++ calls).flatMap
          (unwind (s.modify n LifetimeImpl.clear).impls
            (s.modify n LifetimeImpl.clear).impls.length) =
          (impl.calls.reverse ++ calls).flatMap (unwind s.impls s.impls.length) := by
        refine List.flatMap_congr fun action here => ?_
        rw [modify, List.length_modify]
        refine unwind_clear other closed _ ?_
        rw [List.mem_append, List.mem_reverse] at here
        exact here.elim (own impl found action) (called action)
      rw [if_neg eternal, same]
      cases ended : impl.terminated with
      | false => simp [eternal]
      | true => simp [LifetimeImpl.calls, h.cleared n impl found ended, OrderedMap.empty]

/-- No action of a user throws. -/
def Quiet (throws : α → Bool) (s : Lifetimes α) : Prop := ∀ a ∈ s.registered, throws a = false

variable {throws : α → Bool}

theorem registered_begin (n : ℕ) : (s.begin n).2.registered = s.registered := by
  unfold Lifetimes.begin
  split
  · rfl
  · split_ifs <;> rfl

theorem Inv.throws_user {a : α} (h : Inv (.user a :: calls) s) (quiet : s.Quiet throws) :
    throws a = false := by
  refine quiet a (h.registered.mem_iff.1 ?_)
  exact List.mem_append_left _ (List.mem_append_right _ List.mem_cons_self)

theorem Inv.runCalls (h : Inv calls s) (quiet : s.Quiet throws) :
    (Lifetimes.runCalls throws calls s).registered = s.registered ∧
      Inv [] (Lifetimes.runCalls throws calls s) ∧
      (Lifetimes.runCalls throws calls s).log =
        s.log ++ calls.flatMap (unwind s.impls s.impls.length) := by
  fun_induction Lifetimes.runCalls throws calls s with
  | case1 s => exact ⟨rfl, h, (List.append_nil _).symm⟩
  | case2 a calls s ran throwing =>
    rw [h.throws_user quiet] at throwing
    cases throwing
  | case3 a calls s ran returning ih =>
    obtain ⟨same, inv, log⟩ := ih h.user quiet
    refine ⟨same, inv, ?_⟩
    rw [log, List.flatMap_cons, unwind, List.append_assoc]
  | case4 n calls s ih =>
    have still : (s.begin n).2.Quiet throws := by
      rw [Quiet, registered_begin]
      exact quiet
    obtain ⟨same, inv, log⟩ := ih h.begin_cons still
    refine ⟨same.trans (registered_begin n), inv, ?_⟩
    have once := h.once
    simp only [targets_cons_terminate, List.cons_append, List.nodup_cons] at once
    have called (action) (here : action ∈ calls) : action ≠ .terminateNested n := by
      rintro rfl
      exact once.1 (List.mem_append_left _ (mem_targets.2 here))
    have own (m : ℕ) (impl) (found : s.impls[m]? = some impl) (action)
        (here : action ∈ impl.calls) : action ≠ .terminateNested n := by
      rintro rfl
      refine once.1 (List.mem_append_right _ (List.mem_flatMap.2 ⟨impl, ?_, mem_targets.2 here⟩))
      exact List.mem_of_getElem? found
    rw [log]
    exact begin_unwind (P := fun action => action ≠ .terminateNested n) (fun h => h rfl)
      (fun m impl _ => own m impl) h called (own n)
  | case5 parent id calls s ih =>
    obtain ⟨same, inv, log⟩ := ih h.eraseAction quiet
    refine ⟨same, inv, ?_⟩
    have dead (impl action) (found : s.impls[parent]? = some impl)
        (waits : (id, action) ∈ impl.actions.entries) (depth) :
        unwind s.impls depth action = [] := by
      obtain ⟨n, old, rfl, here, ended⟩ :=
        h.erasing parent id List.mem_cons_self impl action found waits
      cases depth with
      | zero => rfl
      | succ depth => simp [unwind, here, ended]
    have same := funext (unwind_erase dead s.impls.length)
    rw [log, modify, List.length_modify, same, List.flatMap_cons, unwind, List.nil_append]

theorem Inv.terminate (h : Inv [] s) (quiet : s.Quiet throws) (n : ℕ) :
    (s.terminate throws n).registered = s.registered ∧ Inv [] (s.terminate throws n) ∧
      (s.terminate throws n).log =
        s.log ++ unwind s.impls s.impls.length (.terminateNested n) := by
  have started : Inv ((s.begin n).1 ++ []) (s.begin n).2 := by
    have h : Inv ([] ++ []) s := h
    exact h.begin nofun
  have later (m : ℕ) (impl) (h' : n ≤ m) (found : s.impls[m]? = some impl) (action)
      (here : action ∈ impl.calls) (k : ℕ) (same : action = .terminateNested k) : n < k := by
    rw [same] at here
    exact Nat.lt_of_le_of_lt h' (h.deeper m k impl found here)
  rw [Lifetimes.terminate, Lifetimes.runCalls]
  have still : (s.begin n).2.Quiet throws := by
    rw [Quiet, registered_begin]
    exact quiet
  obtain ⟨same, inv, log⟩ := started.runCalls still
  refine ⟨same.trans (registered_begin n), inv, ?_⟩
  rw [log, begin_unwind (P := fun action => ∀ k, action = .terminateNested k → n < k)
    (fun h => Nat.lt_irrefl n (h n rfl)) (fun m impl h' => later m impl (Nat.le_of_lt (h' m rfl))) h
    (List.forall_mem_nil _) (fun impl => later n impl (Nat.le_refl n))]
  rw [List.flatMap_singleton]

theorem append_flatMap {β : Type*} (f : LifetimeAction α → List β) (silent : impl.calls = []) :
    ((s.impls ++ [impl]).flatMap fun impl => impl.calls.flatMap f) =
      s.impls.flatMap fun impl => impl.calls.flatMap f := by
  rw [List.flatMap_append, List.flatMap_singleton, silent]
  exact List.append_nil _

/-- A new lifetime, which may be going to be nested. -/
theorem Inv.append {pre : List (LifetimeAction α)} (h : Inv [] s) (impl : LifetimeImpl α)
    (empty : impl.actions = OrderedMap.empty) (positive : 0 ≤ impl.actionIdInMap)
    (fresh : impl.terminated = false)
    (only : pre = [] ∨ pre = [.terminateNested s.impls.length])
    (pending : ∀ parent, impl.nestedIn = some parent →
      impl.eternaled = false ∧ pre = [.terminateNested s.impls.length]) :
    Inv pre { s with impls := s.impls ++ [impl] } := by
  have of_old {m : ℕ} {old : LifetimeImpl α} (found : s.impls[m]? = some old) :
      (s.impls ++ [impl])[m]? = some old := Lists.getElem?_append_of_some found _
  have silent : impl.calls = [] := by
    rw [LifetimeImpl.calls, empty]
    rfl
  refine ⟨?_, ?_, ?_, ?_, ?_, ?_, ?_, ?_, ?_, ?_, ?_⟩
  · intro m new found ended
    obtain found | ⟨rfl, rfl⟩ := Lists.getElem?_concat_cases found
    · exact h.cleared m new found ended
    · exact empty
  · intro m new found eternal
    obtain found | ⟨rfl, rfl⟩ := Lists.getElem?_concat_cases found
    · exact h.eternal m new found eternal
    · refine ⟨fresh, Option.eq_none_iff_forall_ne_some.2 fun parent isNested => ?_⟩
      rw [(pending parent isNested).1] at eternal
      cases eternal
  · intro m nested new found waits
    obtain found | ⟨rfl, rfl⟩ := Lists.getElem?_concat_cases found
    · exact h.deeper m nested new found waits
    · rw [silent] at waits
      cases waits
  · have none : s.impls.length ∉ s.impls.flatMap fun impl => targets impl.calls :=
      fun called => Nat.lt_irrefl _ (h.known _ called)
    obtain rfl | rfl := only
    · exact (append_flatMap _ silent).symm ▸ h.once
    · exact (append_flatMap _ silent).symm ▸ List.nodup_cons.2 ⟨none, h.once⟩
  · intro m called
    have called : m ∈ targets pre ++ s.impls.flatMap fun impl => targets impl.calls :=
      append_flatMap _ silent ▸ called
    rw [List.length_append, List.length_singleton]
    obtain here | called := List.mem_append.1 called
    · obtain rfl | rfl := only
      · cases here
      · obtain rfl := List.mem_singleton.1 here
        exact Nat.lt_succ_self _
    · exact Nat.lt_succ_of_lt (h.known m called)
  · intro m new found
    obtain found | ⟨rfl, rfl⟩ := Lists.getElem?_concat_cases found
    · exact h.numbered m new found
    · rw [LifetimeImpl.Numbered, empty]
      exact ⟨positive, List.forall_mem_nil _⟩
  · intro m new parent id found waits
    obtain found | ⟨rfl, rfl⟩ := Lists.getElem?_concat_cases found
    · obtain ⟨parentImpl, foundParent, link⟩ := h.links m new parent id found waits
      exact ⟨parentImpl, of_old foundParent, link⟩
    · rw [silent] at waits
      cases waits
  · intro parent id called
    obtain rfl | rfl := only <;> simp at called
  · intro m
    refine (h.marked m).trans ⟨?_, ?_⟩
    · rintro ⟨old, found, ended⟩
      exact ⟨old, of_old found, ended⟩
    · rintro ⟨new, found, ended⟩
      obtain found | ⟨rfl, rfl⟩ := Lists.getElem?_concat_cases found
      · exact ⟨new, found, ended⟩
      · rw [fresh] at ended
        cases ended
  · intro m new parent found isNested
    obtain found | ⟨rfl, rfl⟩ := Lists.getElem?_concat_cases found
    · obtain ended | called | ⟨parentImpl, foundParent, waits⟩ :=
        h.nested m new parent found isNested
      · exact Or.inl ended
      · cases called
      · exact Or.inr (Or.inr ⟨parentImpl, of_old foundParent, waits⟩)
    · obtain ⟨-, rfl⟩ := pending parent isNested
      exact Or.inr (Or.inl List.mem_cons_self)
  · have none : users pre = [] := by
      obtain rfl | rfl := only <;> rfl
    have registered := h.registered
    show (ran s.log ++ s.removed ++ users pre ++
      (s.impls ++ [impl]).flatMap fun impl => users impl.calls).Perm s.registered
    rw [none]
    exact (append_flatMap _ silent).symm ▸ registered

theorem push_perm {β : Type*} (f : LifetimeAction α → List β) (found : s.impls[n]? = some impl)
    (numbered : impl.Numbered) (action : LifetimeAction α) :
    ((s.addAction n action).impls.flatMap fun impl => impl.calls.flatMap f).Perm
      ([action].flatMap f ++ s.impls.flatMap fun impl => impl.calls.flatMap f) := by
  have moved := Lists.flatMap_modify_perm (fun impl => impl.calls.flatMap f)
    (fun impl => impl.push action) found
  rw [LifetimeImpl.calls_push numbered, List.flatMap_append, ← List.append_assoc] at moved
  have moved := moved.trans List.perm_append_comm
  rw [← List.append_assoc] at moved
  exact (List.perm_append_right_iff _).1 moved

/-- A call that becomes an action. -/
theorem Inv.push {pre : List (LifetimeAction α)} {action : LifetimeAction α} (h : Inv pre s)
    (found : s.impls[n]? = some impl) (fresh : impl.terminated = false)
    (room : impl.actionIdInMap < 2 ^ 31 - 1) (sameTargets : targets pre = targets [action])
    (sameUsers : users pre = users [action])
    (inner : ∀ m, action = .terminateNested m →
      n < m ∧ ∀ nested, s.impls[m]? = some nested → nested.nestedIn = some n)
    (link : ∀ parent id, action = .eraseAction parent id →
      ∃ parentImpl : LifetimeImpl α, s.impls[parent]? = some parentImpl ∧
        id < parentImpl.actionIdInMap ∧
        ∀ action, (id, action) ∈ parentImpl.actions.entries → action = .terminateNested n) :
    Inv [] (s.addAction n action) := by
  have numbered := h.numbered n impl found
  have of_old {m : ℕ} {old : LifetimeImpl α} (here : s.impls[m]? = some old) :=
    push_of_found found numbered room action here
  have moved : (targets ([] : List (LifetimeAction α)) ++
      (s.addAction n action).impls.flatMap fun impl => targets impl.calls).Perm
        (targets pre ++ s.impls.flatMap fun impl => targets impl.calls) := by
    rw [sameTargets]
    exact push_perm _ found numbered action
  refine ⟨?_, ?_, ?_, ?_, ?_, ?_, ?_, nofun, ?_, ?_, ?_⟩
  · intro m new here ended
    obtain ⟨rfl, rfl⟩ | ⟨-, here⟩ := found_modify_cases found here
    · have ended : impl.terminated = true := ended
      rw [fresh] at ended
      cases ended
    · exact h.cleared m new here ended
  · intro m new here eternal
    obtain ⟨rfl, rfl⟩ | ⟨-, here⟩ := found_modify_cases found here
    · exact h.eternal m impl found eternal
    · exact h.eternal m new here eternal
  · intro m nested new here waits
    obtain ⟨rfl, rfl⟩ | ⟨-, here⟩ := found_modify_cases found here
    · rw [LifetimeImpl.calls_push numbered, List.mem_append, List.mem_singleton] at waits
      obtain waits | last := waits
      · exact h.deeper m nested impl found waits
      · exact (inner nested last.symm).1
    · exact h.deeper m nested new here waits
  · exact moved.nodup_iff.2 h.once
  · intro m called
    rw [addAction, modify, List.length_modify]
    exact h.known m (moved.mem_iff.1 called)
  · intro m new here
    obtain ⟨rfl, rfl⟩ | ⟨-, here⟩ := found_modify_cases found here
    · exact LifetimeImpl.numbered_push numbered action room
    · exact h.numbered m new here
  · intro m new parent id here waits
    have linked : ∃ parentImpl : LifetimeImpl α, s.impls[parent]? = some parentImpl ∧
        id < parentImpl.actionIdInMap ∧
        ∀ action, (id, action) ∈ parentImpl.actions.entries → action = .terminateNested m := by
      obtain ⟨rfl, rfl⟩ | ⟨-, here⟩ := found_modify_cases found here
      · rw [LifetimeImpl.calls_push numbered, List.mem_append, List.mem_singleton] at waits
        exact waits.elim (h.links m impl parent id found) fun last => link parent id last.symm
      · exact h.links m new parent id here waits
    obtain ⟨oldParent, foundOld, smaller, only⟩ := linked
    obtain ⟨newParent, foundNew, -, grows, added, -⟩ := of_old foundOld
    refine ⟨newParent, foundNew, Int.lt_of_lt_of_le smaller grows, fun call waits => ?_⟩
    obtain waits | last := added _ waits
    · exact only call waits
    · exact absurd last (Int.ne_of_lt smaller)
  · intro m
    refine (h.marked m).trans ⟨?_, ?_⟩
    · rintro ⟨old, here, ended⟩
      obtain ⟨new, foundNew, same, -⟩ := of_old here
      exact ⟨new, foundNew, same.trans ended⟩
    · rintro ⟨new, here, ended⟩
      obtain ⟨rfl, rfl⟩ | ⟨-, here⟩ := found_modify_cases found here
      · exact ⟨impl, found, ended⟩
      · exact ⟨new, here, ended⟩
  · intro m new parent here isNested
    have before : ∃ old : LifetimeImpl α, s.impls[m]? = some old ∧
        new.terminated = old.terminated ∧ new.nestedIn = old.nestedIn := by
      obtain ⟨rfl, rfl⟩ | ⟨-, here⟩ := found_modify_cases found here
      · exact ⟨impl, found, rfl, rfl⟩
      · exact ⟨new, here, rfl, rfl⟩
    obtain ⟨old, foundOld, sameEnd, sameParent⟩ := before
    rw [sameParent] at isNested
    rw [sameEnd]
    obtain ended | called | ⟨parentImpl, foundParent, waits⟩ :=
      h.nested m old parent foundOld isNested
    · exact Or.inl ended
    · rw [sameTargets] at called
      have same := List.mem_singleton.1 (mem_targets.1 called)
      have own := (inner m same.symm).2 old foundOld
      obtain rfl := Option.some.inj (own.symm.trans isNested)
      refine Or.inr (Or.inr ⟨_, found_modify.2 ⟨impl, found, (if_pos rfl).symm⟩, ?_⟩)
      simp [LifetimeImpl.calls_push numbered, mem_targets, same]
    · obtain ⟨newParent, foundNew, -, -, -, keeps⟩ := of_old foundParent
      obtain ⟨id, waits⟩ := mem_targets_calls.1 waits
      exact Or.inr (Or.inr ⟨newParent, foundNew, mem_targets_calls.2 ⟨id, keeps _ waits⟩⟩)
  · have moved : (users ([] : List (LifetimeAction α)) ++
        (s.addAction n action).impls.flatMap fun impl => users impl.calls).Perm
          (users pre ++ s.impls.flatMap fun impl => users impl.calls) := by
      rw [sameUsers]
      exact push_perm _ found numbered action
    have registered := h.registered
    rw [List.append_assoc] at registered ⊢
    exact (moved.append_left _).trans registered

theorem Inv.createNested (h : Inv [] s) (found : s.impls[n]? = some impl)
    (fresh : impl.terminated = false) (room : impl.actionIdInMap < 2 ^ 31 - 1) :
    Inv [] (s.createNested n impl) := by
  unfold Lifetimes.createNested
  split_ifs with eternal
  · exact h.append {} rfl (Int.le_refl 0) rfl (Or.inl rfl) nofun
  · have bound := (List.getElem?_eq_some_iff.1 found).1
    have first := h.append { nestedIn := some n } rfl (Int.le_refl 0) rfl (Or.inr rfl)
      fun _ _ => ⟨rfl, rfl⟩
    set t : Lifetimes α := { s with impls := s.impls ++ [{ nestedIn := some n }] }
    have still : t.impls[n]? = some impl := Lists.getElem?_append_of_some found _
    have last : t.impls[s.impls.length]? = some { nestedIn := some n } :=
      List.getElem?_concat_length
    have second : Inv [] (t.addAction n (.terminateNested s.impls.length)) := by
      refine first.push still fresh room rfl rfl ?_ nofun
      rintro m ⟨⟩
      refine ⟨bound, fun nested here => ?_⟩
      rw [← Option.some.inj (last.symm.trans here)]
    have nested : (t.addAction n (.terminateNested s.impls.length)).impls[s.impls.length]? =
        some { nestedIn := some n } :=
      found_modify.2 ⟨_, last, (if_neg (Nat.ne_of_lt bound)).symm⟩
    have young : (0 : ℤ) < 2 ^ 31 - 1 := by decide
    refine second.push nested rfl young rfl rfl nofun ?_
    rintro parent id ⟨⟩
    have numbered := h.numbered n impl found
    refine ⟨_, found_modify.2 ⟨impl, still, (if_pos rfl).symm⟩, ?_, ?_⟩
    · rw [LifetimeImpl.actionIdInMap_push numbered _ room]
      exact Int.lt_succ _
    · intro action waits
      rw [LifetimeImpl.entries_push numbered] at waits
      obtain waits | here := List.mem_append.1 waits
      · exact absurd (numbered.2 _ waits) (Int.lt_irrefl _)
      · exact (Prod.ext_iff.1 (List.mem_singleton.1 here)).2

theorem Inv.addUser (h : Inv [] s) (a : α) (found : s.impls[n]? = some impl)
    (fresh : impl.terminated = false) (room : impl.actionIdInMap < 2 ^ 31 - 1) :
    Inv [] { s.addAction n (.user a) with registered := s.registered ++ [a] } := by
  have called : Inv [.user a] { s with registered := s.registered ++ [a] } :=
    { h with
      erasing := by simp
      registered := by
        show (ran s.log ++ s.removed ++ [a] ++ s.impls.flatMap fun impl => users impl.calls).Perm
          (s.registered ++ [a])
        rw [List.append_assoc]
        refine List.Perm.trans ?_ (h.registered.append_right [a])
        show (_ ++ ([a] ++ _)).Perm (_ ++ [] ++ _ ++ [a])
        rw [List.append_nil, List.append_assoc, List.append_assoc, List.append_assoc]
        exact (List.perm_append_comm.append_left _).append_left _ }
  exact called.push found fresh room rfl rfl nofun nofun

theorem erase_split {id : ℤ} {action : LifetimeAction α}
    (waits : (id, action) ∈ impl.actions.entries) :
    ∃ before after, impl.actions.entries = before ++ (id, action) :: after ∧
      (impl.erase id).actions.entries = before ++ after := by
  obtain ⟨before, after, split⟩ := List.append_of_mem waits
  have different := impl.actions.nodup
  rw [split, List.map_append, List.map_cons, List.nodup_append, List.nodup_cons] at different
  obtain ⟨-, ⟨notAfter, -⟩, notBefore⟩ := different
  refine ⟨before, after, split, ?_⟩
  show impl.actions.entries.filter (fun action => action.1 ≠ id) = before ++ after
  rw [split, List.filter_append, List.filter_cons_of_neg (by simp)]
  congr 1
  · refine List.filter_eq_self.2 fun call here => decide_eq_true ?_
    exact notBefore _ (List.mem_map_of_mem here) _ List.mem_cons_self
  · refine List.filter_eq_self.2 fun call here => decide_eq_true ?_
    rintro rfl
    exact notAfter (List.mem_map.2 ⟨call, here, rfl⟩)

theorem Inv.removeUser {id : ℤ} {a : α} (h : Inv [] s) (found : s.impls[n]? = some impl)
    (waits : (id, .user a) ∈ impl.actions.entries) :
    Inv [] { s.modify n fun impl => impl.erase id with removed := s.removed ++ [a] } := by
  obtain ⟨before, after, split, erased⟩ := erase_split waits
  have h : Inv ([] ++ []) s := h
  refine h.erase rfl ?_ ?_
  · intro m other same nested
    obtain rfl := Option.some.inj (found.symm.trans same)
    have equal := List.inj_on_of_nodup_map impl.actions.nodup nested waits rfl
    cases equal
  · have moved := Lists.flatMap_modify_perm (fun impl => users impl.calls)
      (fun impl => impl.erase id) found
    have all : users impl.calls =
        users (before.map Prod.snd) ++ a :: users (after.map Prod.snd) := by
      rw [LifetimeImpl.calls, split, List.map_append, users_append]
      rfl
    have rest : users (impl.erase id).calls =
        users (before.map Prod.snd) ++ users (after.map Prod.snd) := by
      rw [LifetimeImpl.calls, erased, List.map_append, users_append]
    rw [all, rest] at moved
    have moved := ((List.perm_middle.symm.append_left _).trans moved)
    rw [List.append_cons] at moved
    have moved := (List.perm_append_right_iff _).1 moved
    refine List.Perm.trans ?_ h.registered
    show (ran s.log ++ (s.removed ++ [a]) ++ [] ++ _).Perm (ran s.log ++ s.removed ++ [] ++ _)
    rw [List.append_nil, List.append_nil, ← List.append_assoc, List.append_assoc _ [a]]
    exact (List.perm_append_comm.trans moved).append_left _

theorem Inv.step {s' : Lifetimes α} {op : LifetimeOp α} (h : Inv [] s) (quiet : s.Quiet throws)
    (careful : s.Careful throws op) (hs : s.step throws op = some s') :
    Inv [] s' ∧ s'.Quiet throws := by
  cases op with
  | create eternal =>
    obtain rfl := Option.some.inj hs
    exact ⟨h.append { eternaled := eternal } rfl (Int.le_refl 0) rfl (Or.inl rfl) nofun, quiet⟩
  | createNested parent =>
    simp only [Lifetimes.step] at hs
    split at hs
    · cases hs
    · rename_i impl found
      split_ifs at hs with ended
      obtain rfl := Option.some.inj hs
      refine ⟨h.createNested found (eq_false_of_ne_true ended) (careful impl found), ?_⟩
      unfold Lifetimes.createNested
      split_ifs <;> exact quiet
  | addAction n a =>
    obtain ⟨room, returns⟩ := careful
    simp only [Lifetimes.step] at hs
    split at hs
    · cases hs
    · rename_i impl found
      split_ifs at hs with eternal ended
      · obtain rfl := Option.some.inj hs
        exact ⟨h, quiet⟩
      · obtain rfl := Option.some.inj hs
        refine ⟨h.addUser a found (eq_false_of_ne_true ended) (room impl found), ?_⟩
        intro b added
        obtain before | new := List.mem_append.1 added
        · exact quiet b before
        · rw [List.mem_singleton.1 new]
          exact returns
  | removeAction n id =>
    simp only [Lifetimes.step] at hs
    split at hs
    · cases hs
    · rename_i impl found
      split at hs
      · rename_i a first
        obtain rfl := Option.some.inj hs
        exact ⟨h.removeUser found (impl.actions.get?_eq_some_iff.1 first), quiet⟩
      · cases hs
      · obtain rfl := Option.some.inj hs
        exact ⟨h, quiet⟩
  | terminate n =>
    simp only [Lifetimes.step] at hs
    split_ifs at hs
    obtain rfl := Option.some.inj hs
    obtain ⟨same, inv, -⟩ := h.terminate quiet n
    refine ⟨inv, ?_⟩
    rw [Quiet, same]
    exact quiet

theorem inv_of_run {ops : List (LifetimeOp α)} (h : (machine throws).Run ops s)
    (careful : (machine throws).Along ops (Careful throws)) : Inv [] s ∧ s.Quiet throws := by
  have step {s s' : Lifetimes α} {op : LifetimeOp α} (inv : Inv [] s ∧ s.Quiet throws)
      (careful : s.Careful throws op) (hs : s.step throws op = some s') :
      Inv [] s' ∧ s'.Quiet throws := inv.1.step inv.2 careful hs
  refine h.invariant_along ⟨?_, ?_⟩ step careful
  · exact ⟨by simp [machine], by simp [machine], by simp [Deeper, machine], List.nodup_nil, nofun,
      by simp [machine], by simp [machine], nofun, by simp [machine], by simp [machine],
      List.Perm.refl _⟩
  · exact List.forall_mem_nil _

end Inv

/-- After any run, terminating a lifetime does just what `unwind` lists: each lifetime that has not
been terminated is, and then its actions run, the last one first, with a whole nested lifetime at
the place of the action that terminates it. -/
theorem terminate_unwinds {throws : α → Bool} {ops : List (LifetimeOp α)} {s s' : Lifetimes α}
    {n : ℕ} (h : (machine throws).Run ops s)
    (careful : (machine throws).Along ops (Careful throws))
    (hs : s.step throws (.terminate n) = some s') :
    s'.log = s.log ++ unwind s.impls s.impls.length (.terminateNested n) ∧
      ∀ m, LifetimeEvent.terminated m ∈ s'.log ↔
        ∃ impl, s'.impls[m]? = some impl ∧ impl.terminated = true := by
  simp only [step] at hs
  split_ifs at hs
  obtain rfl := Option.some.inj hs
  obtain ⟨before, quiet⟩ := inv_of_run h careful
  obtain ⟨-, inv, log⟩ := before.terminate quiet n
  exact ⟨log, inv.marked⟩

/-- The root has two nested lifetimes; the first of them has one as well, and the second one is
terminated before the root. -/
def nestedTwice : List (LifetimeOp ℕ) :=
  [.create false, .addAction 0 10, .createNested 0, .addAction 1 11, .createNested 1,
    .addAction 2 12, .addAction 1 13, .createNested 0, .addAction 3 14, .addAction 0 15,
    .removeAction 0 0, .terminate 3]

/-- Only the action 0 throws, which nobody adds. -/
def zeroThrows (a : ℕ) : Bool := a = 0

theorem terminate_unwinds_nestedTwice : ∃ s s', (machine zeroThrows).Run nestedTwice s ∧
    s.step zeroThrows (.terminate 0) = some s' ∧
    s.log = [.terminated 3, .ran 14] ∧
    s'.log = s.log ++
      [.terminated 0, .ran 15, .terminated 1, .ran 13, .terminated 2, .ran 12, .ran 11] := by
  have run := (machine zeroThrows).run_of_isSome nestedTwice (by decide +kernel)
  have careful := (machine zeroThrows).along_of_check (Careful zeroThrows) nestedTwice
    (by decide +kernel)
  have acts : (((machine zeroThrows).exec {} nestedTwice).get (by decide +kernel)).step
    zeroThrows (.terminate 0) = some _ := if_pos (by decide +kernel)
  refine ⟨_, _, run, acts, by decide +kernel, ?_⟩
  rw [(terminate_unwinds run careful acts).1]
  decide +kernel

/-- The user actions that wait for their lifetime to be terminated. -/
def waiting (s : Lifetimes α) : List α := s.impls.flatMap fun impl => users impl.calls

/-- After any run: every action that has been added has run once, has been removed or waits; none
waits for a lifetime that has been terminated, nor for one whose parent has been. -/
theorem runs_once {throws : α → Bool} {ops : List (LifetimeOp α)} {s : Lifetimes α}
    (h : (machine throws).Run ops s) (careful : (machine throws).Along ops (Careful throws)) :
    (ran s.log ++ s.removed ++ s.waiting).Perm s.registered ∧
      (∀ (n : ℕ) impl, s.impls[n]? = some impl → impl.terminated = true → users impl.calls = []) ∧
      ∀ (n parent : ℕ) impl parentImpl, s.impls[n]? = some impl → impl.nestedIn = some parent →
        s.impls[parent]? = some parentImpl → parentImpl.terminated = true →
        impl.terminated = true := by
  have inv := (inv_of_run h careful).1
  refine ⟨?_, ?_, ?_⟩
  · have registered := inv.registered
    rwa [show users ([] : List (LifetimeAction α)) = [] from rfl, List.append_nil] at registered
  · intro n impl found ended
    rw [LifetimeImpl.calls, inv.cleared n impl found ended]
    rfl
  · intro n parent impl parentImpl found isNested foundParent ended
    obtain finished | called | ⟨other, same, waits⟩ := inv.nested n impl parent found isNested
    · exact finished
    · cases called
    · obtain rfl := Option.some.inj (foundParent.symm.trans same)
      rw [LifetimeImpl.calls, inv.cleared parent parentImpl foundParent ended] at waits
      cases waits

theorem runs_once_nestedTwice : ∃ s, (machine zeroThrows).Run nestedTwice s ∧
    s.registered = [10, 11, 12, 13, 14, 15] ∧ ran s.log = [14] ∧ s.removed = [10] ∧
    (ran s.log ++ s.removed ++ s.waiting).Perm s.registered := by
  have run := (machine zeroThrows).run_of_isSome nestedTwice (by decide +kernel)
  have careful := (machine zeroThrows).along_of_check (Careful zeroThrows) nestedTwice
    (by decide +kernel)
  exact ⟨_, run, by decide +kernel, by decide +kernel, by decide +kernel,
    (runs_once run careful).1⟩

end Lifetimes

end CarpenterDemo.Rd
