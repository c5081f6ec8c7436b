import CarpenterDemo.Library.Machine
import Mathlib.Data.List.Basic

/-!
# `ViewableList` and its listeners

The operations of `ViewableList` with the events they fire.  An operation whose index is out of
range is a failed call; the return values are left out.

`ListEvent.applyTo` replays an event on a copy of the list, checking that the event fits the copy:
the index is in range and the old value is the one that stands there.  `replay_run` proves that the
events of every operation fit the list before it and turn it into the list after it.
-/

namespace CarpenterDemo.Rd

/-- An event of `ViewableList`; an update also carries the old value. -/
inductive ListEvent (T : Type*)
  | add (index : ℕ) (newValue : T)
  | update (index : ℕ) (oldValue newValue : T)
  | remove (index : ℕ) (oldValue : T)
  deriving DecidableEq, Repr

namespace ListEvent

variable {T : Type*}

def getIndex : ListEvent T → ℕ
  | .add index _ => index
  | .update index _ _ => index
  | .remove index _ => index

def getNewValue : ListEvent T → Option T
  | .add _ newValue => some newValue
  | .update _ _ newValue => some newValue
  | .remove _ _ => none

variable [DecidableEq T]

/-- Replays the event on a copy of the list, if it fits the copy. -/
def applyTo (copy : List T) : ListEvent T → Option (List T)
  | .add index newValue =>
    if index ≤ copy.length then some (copy.insertIdx index newValue) else none
  | .update index oldValue newValue =>
    if copy[index]? = some oldValue then some (copy.set index newValue) else none
  | .remove index oldValue =>
    if copy[index]? = some oldValue then some (copy.eraseIdx index) else none

/-- Replays events, oldest first. -/
def replay (copy : List T) (events : List (ListEvent T)) : Option (List T) :=
  events.foldlM applyTo copy

theorem replay_cons (copy : List T) (e : ListEvent T) (es : List (ListEvent T)) :
    replay copy (e :: es) = (applyTo copy e).bind fun l => replay l es := by
  simp [replay]

theorem replay_append (copy : List T) (es fs : List (ListEvent T)) :
    replay copy (es ++ fs) = (replay copy es).bind fun l => replay l fs := by
  simp only [replay, List.foldlM_append]
  rfl

theorem replay_singleton (copy : List T) (e : ListEvent T) : replay copy [e] = applyTo copy e := by
  simp [replay]

end ListEvent

/-- An operation on a list. -/
inductive ListOp (T : Type*)
  | add (element : T)
  | addAt (index : ℕ) (element : T)
  | removeAt (index : ℕ)
  | remove (element : T)
  | set (index : ℕ) (element : T)
  | addAll (elements : List T)
  | addAllAt (index : ℕ) (elements : List T)
  | removeAll (elements : List T)
  | clear
  deriving DecidableEq, Repr

/-- `ViewableList`: each operation with the events it fires. -/
abbrev ViewableList (T : Type*) := List T

namespace ViewableList

variable {T : Type*} (list : ViewableList T)

def add (element : T) : ViewableList T × List (ListEvent T) :=
  (list ++ [element], [.add list.length element])

def addAt (index : ℕ) (element : T) : Option (ViewableList T × List (ListEvent T)) :=
  if index ≤ list.length then some (list.insertIdx index element, [.add index element]) else none

def removeAt (index : ℕ) : Option (ViewableList T × List (ListEvent T)) :=
  list[index]?.map fun oldValue => (list.eraseIdx index, [.remove index oldValue])

def set (index : ℕ) (element : T) : Option (ViewableList T × List (ListEvent T)) :=
  list[index]?.map fun oldValue => (List.set list index element, [.update index oldValue element])

def remove [DecidableEq T] (element : T) : Option (ViewableList T × List (ListEvent T)) :=
  match list.findIdx? fun x => decide (x = element) with
  | none => some (list, [])
  | some index => list.removeAt index

/-- One operation after another, with the events of both. -/
def andThen (first : Option (ViewableList T × List (ListEvent T)))
    (second : ViewableList T → Option (ViewableList T × List (ListEvent T))) :
    Option (ViewableList T × List (ListEvent T)) :=
  first.bind fun (list, es) => (second list).map fun (list, fs) => (list, es ++ fs)

def addAll : ViewableList T → List T → ViewableList T × List (ListEvent T)
  | list, [] => (list, [])
  | list, element :: elements =>
    let (list, es) := add list element
    let (list, fs) := addAll list elements
    (list, es ++ fs)

def addAllAt : ViewableList T → ℕ → List T → Option (ViewableList T × List (ListEvent T))
  | list, _, [] => some (list, [])
  | list, index, element :: elements =>
    andThen (list.addAt index element) fun list => addAllAt list (index + 1) elements

/-- The loop of `removeAll`, with `i` positions from the front still to be visited. -/
def removeAllLoop [DecidableEq T] (elements : List T) :
    ℕ → ViewableList T → Option (ViewableList T × List (ListEvent T))
  | 0, list => some (list, [])
  | i + 1, list =>
    match list[i]? with
    | none => none
    | some x =>
      if x ∈ elements then andThen (list.removeAt i) (removeAllLoop elements i)
      else removeAllLoop elements i list

def removeAll [DecidableEq T] (elements : List T) :
    Option (ViewableList T × List (ListEvent T)) :=
  removeAllLoop elements list.length list

/-- All events are fired, last element first, before the list is emptied. -/
def clear : ViewableList T × List (ListEvent T) :=
  ([], list.zipIdx.reverse.map fun (oldValue, index) => .remove index oldValue)

variable [DecidableEq T]

def run : ListOp T → Option (ViewableList T × List (ListEvent T))
  | .add element => some (list.add element)
  | .addAt index element => list.addAt index element
  | .removeAt index => list.removeAt index
  | .remove element => list.remove element
  | .set index element => list.set index element
  | .addAll elements => some (list.addAll elements)
  | .addAllAt index elements => list.addAllAt index elements
  | .removeAll elements => list.removeAll elements
  | .clear => some list.clear

/-! ## The events of an operation replay it -/

/-- The events turn a copy of `list` into the result. -/
def Replays (result : ViewableList T × List (ListEvent T)) : Prop :=
  ListEvent.replay list result.2 = some result.1

variable {list}

theorem replays_add (element : T) : list.Replays (list.add element) := by
  rw [Replays, add, ListEvent.replay_singleton, ListEvent.applyTo, if_pos (Nat.le_refl _),
    List.insertIdx_length_self]

theorem replays_addAt {index : ℕ} {element : T} {result : ViewableList T × List (ListEvent T)}
    (h : list.addAt index element = some result) : list.Replays result := by
  unfold addAt at h
  split_ifs at h with inRange
  cases h
  rw [Replays, ListEvent.replay_singleton, ListEvent.applyTo, if_pos inRange]

theorem replays_removeAt {index : ℕ} {result : ViewableList T × List (ListEvent T)}
    (h : list.removeAt index = some result) : list.Replays result := by
  obtain ⟨oldValue, found, rfl⟩ := Option.map_eq_some_iff.1 h
  rw [Replays, ListEvent.replay_singleton, ListEvent.applyTo, if_pos found]

theorem replays_set {index : ℕ} {element : T} {result : ViewableList T × List (ListEvent T)}
    (h : list.set index element = some result) : list.Replays result := by
  obtain ⟨oldValue, found, rfl⟩ := Option.map_eq_some_iff.1 h
  rw [Replays, ListEvent.replay_singleton, ListEvent.applyTo, if_pos found]

theorem replays_nil : list.Replays (list, []) := rfl

theorem Replays.append {mid : ViewableList T} {result : ViewableList T × List (ListEvent T)}
    {es : List (ListEvent T)} (first : list.Replays (mid, es)) (second : mid.Replays result) :
    list.Replays (result.1, es ++ result.2) := by
  rw [Replays, ListEvent.replay_append, first]
  exact second

theorem replays_andThen {first : Option (ViewableList T × List (ListEvent T))}
    {second : ViewableList T → Option (ViewableList T × List (ListEvent T))}
    {result : ViewableList T × List (ListEvent T)}
    (h : andThen first second = some result)
    (replays₁ : ∀ r, first = some r → list.Replays r)
    (replays₂ : ∀ (mid : ViewableList T) r, second mid = some r → mid.Replays r) :
    list.Replays result := by
  obtain ⟨⟨mid, es⟩, h₁, h₂⟩ := Option.bind_eq_some_iff.1 h
  obtain ⟨r, hr, rfl⟩ := Option.map_eq_some_iff.1 h₂
  exact (replays₁ _ h₁).append (replays₂ mid r hr)

theorem replays_remove {element : T} {result : ViewableList T × List (ListEvent T)}
    (h : list.remove element = some result) : list.Replays result := by
  unfold remove at h
  split at h
  · cases h
    exact replays_nil
  · exact replays_removeAt h

theorem replays_addAll (list : ViewableList T) (elements : List T) :
    list.Replays (list.addAll elements) := by
  induction elements generalizing list with
  | nil => exact replays_nil
  | cons element elements ih => exact (replays_add element).append (ih _)

theorem replays_addAllAt {index : ℕ} {elements : List T}
    {result : ViewableList T × List (ListEvent T)}
    (h : list.addAllAt index elements = some result) : list.Replays result := by
  induction elements generalizing list index result with
  | nil =>
    cases h
    exact replays_nil
  | cons element elements ih =>
    exact replays_andThen h (fun r hr => replays_addAt hr) fun mid r hr => ih hr

theorem replays_removeAllLoop {elements : List T} {i : ℕ}
    {result : ViewableList T × List (ListEvent T)}
    (h : removeAllLoop elements i list = some result) : list.Replays result := by
  induction i generalizing list result with
  | zero =>
    cases h
    exact replays_nil
  | succ i ih =>
    rw [removeAllLoop] at h
    split at h
    · cases h
    · split_ifs at h
      · exact replays_andThen h (fun r hr => replays_removeAt hr) fun mid r hr => ih hr
      · exact ih h

/-- Removing the last element again and again empties the list. -/
theorem replays_clear (list : ViewableList T) : list.Replays list.clear := by
  induction list using List.reverseRecOn with
  | nil => exact replays_nil
  | append_singleton list last ih =>
    have shrinks : ListEvent.applyTo (list ++ [last]) (.remove list.length last) = some list := by
      rw [ListEvent.applyTo, if_pos (by simp)]
      simp [List.eraseIdx_append_of_length_le]
    simp only [Replays, clear, List.zipIdx_append, List.reverse_append, List.map_append]
    rw [ListEvent.replay_append, Nat.zero_add]
    simp only [List.zipIdx_singleton, List.reverse_singleton, List.map_singleton,
      ListEvent.replay_singleton, shrinks, Option.bind_some]
    exact ih

/-- The events of an operation fit the list before it and turn it into the list after it. -/
theorem replay_run {op : ListOp T} {result : ViewableList T × List (ListEvent T)}
    (h : list.run op = some result) : list.Replays result := by
  cases op with
  | add element =>
    cases h
    exact replays_add element
  | addAt => exact replays_addAt h
  | removeAt => exact replays_removeAt h
  | remove => exact replays_remove h
  | set => exact replays_set h
  | addAll elements =>
    cases h
    exact replays_addAll list elements
  | addAllAt => exact replays_addAllAt h
  | removeAll => exact replays_removeAllLoop h
  | clear =>
    cases h
    exact replays_clear list

end ViewableList

end CarpenterDemo.Rd
