import CarpenterDemo.Library.AckedCell
import CarpenterDemo.Library.Duplex
import CarpenterDemo.Library.OrderedMap
import Mathlib.Algebra.Order.Ring.Int

/-!
# `RdMap`: a map that both sides may change

`ViewableMap` with the events it fires, and `RdMap` with the handler that `init` advises and
`on_wire_received`.  The master numbers its changes and keeps the number under the key in
`pendingForAck` until the slave acknowledges it; meanwhile it turns down the slave's changes of that
key.  `pendingForAck` is filled by `emplace`, which leaves a key alone that is waiting already.

The keys in `pendingForAck` are pointers: into the entry of the map, or to the key that the caller
handed to `remove`.  A pointer is modelled by the key it was made from and by what it points to now
(`KeyPointee`).  To search `pendingForAck` while one of them dangles is undefined behaviour, which
the flag `undefined` records.

Both sides are bound with empty maps, and no handler changes the map.  Versions are exact integers,
and the binding of nested values is left out.

`maps_agree`: if the master changes no key again before the last change of it was acknowledged,
keeps the key that it removes until then, and clears the map only when it is empty, then nothing
undefined happens and the two maps agree on every key once nothing is on its way.
-/

namespace CarpenterDemo.Rd

/-- An event of `ViewableMap`; an update also carries the old value. -/
inductive MapEvent (K V : Type*)
  | add (key : K) (newValue : V)
  | update (key : K) (oldValue newValue : V)
  | remove (key : K) (oldValue : V)
  deriving DecidableEq, Repr

namespace MapEvent

variable {K V : Type*}

def getKey : MapEvent K V → K
  | .add key _ => key
  | .update key _ _ => key
  | .remove key _ => key

def getNewValue : MapEvent K V → Option V
  | .add _ newValue => some newValue
  | .update _ _ newValue => some newValue
  | .remove _ _ => none

end MapEvent

/-- A local operation. -/
inductive MapOp (K V : Type*)
  | set (key : K) (value : V)
  | remove (key : K)
  | clear
  deriving DecidableEq, Repr

/-- What a pointer in `pendingForAck` points to. -/
inductive KeyPointee
  /-- The key in the entry of the map. -/
  | entry
  /-- The key that the caller handed to `remove`. -/
  | argument
  /-- Nothing any more: the key has been destroyed. -/
  | gone
  deriving DecidableEq, Repr

/-- The key that the events of an operation point to. -/
def MapOp.pointee {K V : Type*} : MapOp K V → KeyPointee
  | .set _ _ => .entry
  | .remove _ => .argument
  | .clear => .entry

/-- What the owner of a map does: an operation, or it destroys a key that it handed to `remove`. -/
inductive MapAct (K V : Type*)
  | change (op : MapOp K V)
  | release (key : K)
  deriving DecidableEq, Repr

/-- `ViewableMap`: each operation with the events it fires. -/
abbrev ViewableMap (K V : Type*) := OrderedMap K V

namespace ViewableMap

variable {K V : Type*} [DecidableEq K] [DecidableEq V] (map : ViewableMap K V)

def set (key : K) (value : V) : ViewableMap K V × List (MapEvent K V) :=
  match map.get? key with
  | none => (OrderedMap.set map key value, [.add key value])
  | some oldValue =>
    if oldValue ≠ value then (OrderedMap.set map key value, [.update key oldValue value])
    else (map, [])

def remove {V : Type*} (map : ViewableMap K V) (key : K) : ViewableMap K V × List (MapEvent K V) :=
  match map.get? key with
  | some oldValue => (map.erase key, [.remove key oldValue])
  | none => (map, [])

def clear {K V : Type*} (map : ViewableMap K V) : ViewableMap K V × List (MapEvent K V) :=
  (OrderedMap.empty, map.entries.map fun (key, value) => .remove key value)

def run : MapOp K V → ViewableMap K V × List (MapEvent K V)
  | .set key value => map.set key value
  | .remove key => map.remove key
  | .clear => map.clear

/-- What `on_wire_received` does with a change: a value is set, none is removed. -/
def assign (key : K) : Option V → ViewableMap K V
  | some value => (map.set key value).1
  | none => (map.remove key).1

/-! ## What each operation does to one key -/

/-- Setting the value that is there does nothing; any other fires one event. -/
theorem set_cases (key : K) (value : V) :
    (map.get? key = some value ∧ map.set key value = (map, [])) ∨
      ∃ e : MapEvent K V, e.getKey = key ∧ e.getNewValue = some value ∧
        map.set key value = (OrderedMap.set map key value, [e]) := by
  unfold set
  split
  · exact Or.inr ⟨.add key value, rfl, rfl, rfl⟩
  · rename_i oldValue found
    split_ifs with changed
    · exact Or.inr ⟨.update key oldValue value, rfl, rfl, rfl⟩
    · rw [not_not.1 changed] at found
      exact Or.inl ⟨found, rfl⟩

theorem remove_cases {V : Type*} (map : ViewableMap K V) (key : K) :
    (map.get? key = none ∧ map.remove key = (map, [])) ∨
      ∃ e : MapEvent K V, e.getKey = key ∧ e.getNewValue = none ∧
        map.remove key = (map.erase key, [e]) := by
  unfold remove
  split
  · rename_i oldValue found
    exact Or.inr ⟨.remove key oldValue, rfl, rfl, rfl⟩
  · rename_i absent
    exact Or.inl ⟨absent, rfl⟩

theorem keys_run_nodup (op : MapOp K V) : ((map.run op).2.map MapEvent.getKey).Nodup := by
  cases op with
  | set key value =>
    rcases map.set_cases key value with ⟨-, same⟩ | ⟨e, -, -, fired⟩
    · simp [run, same]
    · simp [run, fired]
  | remove key =>
    rcases map.remove_cases key with ⟨-, same⟩ | ⟨e, -, -, fired⟩
    · simp [run, same]
    · simp [run, fired]
  | clear =>
    simp only [run, clear, List.map_map]
    exact map.nodup

/-- A key that no event is about keeps its value; an event brings its new value about. -/
theorem get?_run (op : MapOp K V) (k : K) :
    (k ∉ (map.run op).2.map MapEvent.getKey ∧ (map.run op).1.get? k = map.get? k) ∨
      ∃ e ∈ (map.run op).2, e.getKey = k ∧ (map.run op).1.get? k = e.getNewValue := by
  cases op with
  | set key value =>
    rcases map.set_cases key value with ⟨-, same⟩ | ⟨e, rfl, new, fired⟩
    · exact Or.inl (by simp [run, same])
    · simp only [run, fired]
      by_cases hk : k = e.getKey
      · subst hk
        exact Or.inr ⟨e, List.mem_singleton_self e, rfl, by rw [OrderedMap.get?_set_self, new]⟩
      · exact Or.inl ⟨by simpa using hk, OrderedMap.get?_set_of_ne _ hk _⟩
  | remove key =>
    rcases map.remove_cases key with ⟨-, same⟩ | ⟨e, rfl, new, fired⟩
    · exact Or.inl (by simp [run, same])
    · simp only [run, fired]
      by_cases hk : k = e.getKey
      · subst hk
        exact Or.inr ⟨e, List.mem_singleton_self e, rfl, by rw [OrderedMap.get?_erase_self, new]⟩
      · exact Or.inl ⟨by simpa using hk, OrderedMap.get?_erase_of_ne _ hk⟩
  | clear =>
    simp only [run, clear]
    cases found : map.get? k with
    | none =>
      refine Or.inl ⟨?_, rfl⟩
      rw [List.map_map]
      exact map.get?_eq_none_iff.1 found
    | some v =>
      exact Or.inr ⟨.remove k v, List.mem_map_of_mem (map.get?_eq_some_iff.1 found), rfl, rfl⟩

/-- The events of an operation point to a key that outlives it, unless the map is cleared. -/
theorem pointee_of_mem {op : MapOp K V} (kept : op ≠ .clear) {e : MapEvent K V}
    (he : e ∈ (map.run op).2) :
    op.pointee = .argument ∨ (op.pointee = .entry ∧ e.getNewValue.isSome) := by
  cases op with
  | set key value =>
    refine Or.inr ⟨rfl, ?_⟩
    rcases map.set_cases key value with ⟨-, same⟩ | ⟨e', -, new, fired⟩
    · simp [run, same] at he
    · simp only [run, fired, List.mem_singleton] at he
      rw [he, new, Option.isSome_some]
  | remove key => exact Or.inl rfl
  | clear => exact absurd rfl kept

theorem get?_assign (key : K) (value : Option V) (k : K) :
    (map.assign key value).get? k = if k = key then value else map.get? k := by
  cases value with
  | some v =>
    rcases map.set_cases key v with ⟨found, same⟩ | ⟨e, -, -, fired⟩
    · rw [assign, same]
      split_ifs with hk
      · rw [hk, found]
      · rfl
    · rw [assign, fired]
      split_ifs with hk
      · rw [hk, OrderedMap.get?_set_self]
      · exact OrderedMap.get?_set_of_ne _ hk _
  | none =>
    rcases map.remove_cases key with ⟨absent, same⟩ | ⟨e, -, -, fired⟩
    · rw [assign, same]
      split_ifs with hk
      · rw [hk, absent]
      · rfl
    · rw [assign, fired]
      split_ifs with hk
      · rw [hk, OrderedMap.get?_erase_self]
      · exact OrderedMap.get?_erase_of_ne _ hk

end ViewableMap

/-- What follows the key in a message. -/
inductive MapMessageOp (V : Type*)
  | add (value : V)
  | update (value : V)
  | remove
  | ack
  deriving DecidableEq, Repr

namespace MapMessageOp

variable {K V : Type*}

def ofEvent : MapEvent K V → MapMessageOp V
  | .add _ newValue => .add newValue
  | .update _ _ newValue => .update newValue
  | .remove _ _ => .remove

def value : MapMessageOp V → Option V
  | .add value => some value
  | .update value => some value
  | .remove => none
  | .ack => none

@[simp] theorem value_ofEvent (e : MapEvent K V) : (ofEvent e).value = e.getNewValue := by
  cases e <;> rfl

theorem ofEvent_ne_ack (e : MapEvent K V) : (ofEvent e) ≠ .ack := by
  cases e <;> exact fun h => nomatch h

end MapMessageOp

/-- A message; `version` is there just when the header has the versioned flag. -/
structure MapMessage (K V : Type*) where
  op : MapMessageOp V
  version : Option ℤ
  key : K
  deriving DecidableEq, Repr

/-- What `on_wire_received` logs as an error. -/
inductive MapError
  | ackNotVersioned
  | ackNotMaster
  | ackPendingOlder
  | ackNoPending
  | bothMasters
  deriving DecidableEq, Repr

/-- What `pendingForAck` keeps for a key: the version, and what the pointer to the key points to. -/
structure PendingAck where
  version : ℤ
  key : KeyPointee
  deriving DecidableEq, Repr

structure RdMap (K V : Type*) where
  map : ViewableMap K V := OrderedMap.empty
  nextVersion : ℤ := 0
  pendingForAck : OrderedMap K PendingAck := OrderedMap.empty
  isMaster : Bool
  errors : List MapError := []
  /-- `pendingForAck` was searched while it held a pointer that dangles. -/
  undefined : Bool := false
  deriving DecidableEq, Repr

namespace RdMap

variable {K V : Type*} [DecidableEq K] [DecidableEq V] (self : RdMap K V)

/-- A search of `pendingForAck`, which hashes and compares the keys that it points to. -/
def search {K V : Type*} (self : RdMap K V) : RdMap K V :=
  if self.pendingForAck.entries.any fun e => decide (e.2.key = .gone) then
    { self with undefined := true }
  else self

/-- The map after a change: the key of an entry that is gone has been destroyed. -/
def withMap {V : Type*} (self : RdMap K V) (map : ViewableMap K V) : RdMap K V :=
  { self with
    map := map
    pendingForAck := self.pendingForAck.mapValues fun key p =>
      if p.key = .entry ∧ map.contains key = false then { p with key := .gone } else p }

/-- The owner destroys a key that it handed to `remove`. -/
def release {V : Type*} (self : RdMap K V) (key : K) : RdMap K V :=
  { self with
    pendingForAck := self.pendingForAck.mapValues fun k p =>
      if k = key ∧ p.key = .argument then { p with key := .gone } else p }

/-- The handler that `init` advises, for a local change. -/
def sendEvent {V : Type*} (self : RdMap K V) (pointee : KeyPointee) (e : MapEvent K V) :
    RdMap K V × MapMessage K V :=
  if self.isMaster then
    let version := self.nextVersion + 1
    ({ self.search with
        nextVersion := version
        pendingForAck := self.pendingForAck.emplace e.getKey ⟨version, pointee⟩ },
      ⟨.ofEvent e, some version, e.getKey⟩)
  else (self, ⟨.ofEvent e, none, e.getKey⟩)

def sendEvents {V : Type*} (pointee : KeyPointee) :
    RdMap K V → List (MapEvent K V) → RdMap K V × List (MapMessage K V)
  | self, [] => (self, [])
  | self, e :: es =>
    let (self, m) := self.sendEvent pointee e
    let (self, ms) := self.sendEvents pointee es
    (self, m :: ms)

/-- A local operation, with what it sends.  An entry is erased after its event has been fired. -/
def localChange (op : MapOp K V) : RdMap K V × List (MapMessage K V) :=
  let (map, events) := self.map.run op
  let (self, sent) := self.sendEvents op.pointee events
  (self.withMap map, sent)

def logError {K V : Type*} (self : RdMap K V) (e : MapError) : RdMap K V :=
  { self with errors := self.errors ++ [e] }

def receiveAck {V : Type*} (self : RdMap K V) (version : Option ℤ) (key : K) : RdMap K V :=
  match version with
  | none => self.logError .ackNotVersioned
  | some version =>
    if !self.isMaster then self.logError .ackNotMaster
    else
      match self.pendingForAck.get? key with
      | some pending =>
        if pending.version < version then self.search.logError .ackPendingOlder
        else if pending.version = version then
          { self.search with pendingForAck := self.pendingForAck.erase key }
        else self.search
      | none => self.search.logError .ackNoPending

/-- A received change of the key; the answer to a versioned one is its acknowledgement. -/
def receiveChange (version : Option ℤ) (key : K) (value : Option V) :
    RdMap K V × List (MapMessage K V) :=
  let self :=
    if version.isSome || !self.isMaster then self.withMap (self.map.assign key value)
    else if !self.pendingForAck.contains key then self.search.withMap (self.map.assign key value)
    else self.search
  match version with
  | some version =>
    (if self.isMaster then self.logError .bothMasters else self, [⟨.ack, some version, key⟩])
  | none => (self, [])

def onWireReceived (m : MapMessage K V) : RdMap K V × List (MapMessage K V) :=
  match m.op with
  | .ack => (self.receiveAck m.version m.key, [])
  | .add value => self.receiveChange m.version m.key (some value)
  | .update value => self.receiveChange m.version m.key (some value)
  | .remove => self.receiveChange m.version m.key none

def act : MapAct K V → RdMap K V × List (MapMessage K V)
  | .change op => self.localChange op
  | .release key => (self.release key, [])

/-- One side of the wire. -/
def party (K V : Type*) [DecidableEq K] [DecidableEq V] (isMaster : Bool) :
    Party (RdMap K V) (MapAct K V) (MapMessage K V) (MapMessage K V) where
  init := { isMaster := isMaster }
  act self a := some (self.act a)
  receive self m := some (self.onWireReceived m)

/-! ## What each function does -/

variable {self}

theorem onWireReceived_of_ne_ack {m : MapMessage K V} (h : m.op ≠ .ack) :
    self.onWireReceived m = self.receiveChange m.version m.key m.op.value := by
  unfold onWireReceived
  cases hop : m.op with
  | ack => exact absurd hop h
  | _ => rfl

theorem receiveChange_of_slave (slave : self.isMaster = false) (version : ℤ) (key : K)
    (value : Option V) :
    self.receiveChange (some version) key value =
      (self.withMap (self.map.assign key value), [⟨.ack, some version, key⟩]) := by
  simp [receiveChange, slave, withMap]

/-- A master takes over a change of the slave unless the key waits for an acknowledgement. -/
theorem receiveChange_of_master (master : self.isMaster = true) (key : K) (value : Option V) :
    self.receiveChange none key value =
      (if self.pendingForAck.get? key = none then self.search.withMap (self.map.assign key value)
        else self.search, []) := by
  cases waiting : self.pendingForAck.get? key <;>
    simp [receiveChange, master, OrderedMap.contains, waiting]

section Pointers

variable {K V : Type*} [DecidableEq K] {self : RdMap K V}

theorem receiveAck_of_pending (master : self.isMaster = true) {pending : PendingAck} {key : K}
    (waiting : self.pendingForAck.get? key = some pending) :
    self.receiveAck (some pending.version) key =
      { self.search with pendingForAck := self.pendingForAck.erase key } := by
  simp [receiveAck, master, waiting]

/-- Every pointer that waits points to a key that is still there. -/
def KeysAlive (pending : OrderedMap K PendingAck) (map : ViewableMap K V) : Prop :=
  ∀ k p, pending.get? k = some p → p.key = .argument ∨ (p.key = .entry ∧ (map.get? k).isSome)

theorem search_of_noneGone (h : ∀ k p, self.pendingForAck.get? k = some p → p.key ≠ .gone) :
    self.search = self := by
  rw [search, if_neg]
  rw [List.any_eq_true]
  rintro ⟨⟨k, p⟩, mem, gone⟩
  exact h k p (self.pendingForAck.get?_eq_some_iff.2 mem) (of_decide_eq_true gone)

theorem KeysAlive.noneGone {pending : OrderedMap K PendingAck} {map : ViewableMap K V}
    (h : KeysAlive pending map) (k : K) (p : PendingAck) (found : pending.get? k = some p) :
    p.key ≠ .gone := by
  rcases h k p found with at_ | ⟨at_, -⟩ <;> simp [at_]

theorem search_of_alive (h : KeysAlive self.pendingForAck self.map) : self.search = self :=
  search_of_noneGone h.noneGone

/-- A change that no waiting pointer notices. -/
theorem withMap_of_alive {map : ViewableMap K V} (h : KeysAlive self.pendingForAck map) :
    self.withMap map = { self with map := map } := by
  have kept : (self.pendingForAck.mapValues fun key p =>
      if p.key = .entry ∧ map.contains key = false then { p with key := .gone } else p) =
        self.pendingForAck := by
    apply OrderedMap.mapValues_eq_self
    intro k p found
    rw [if_neg]
    rintro ⟨entry, absent⟩
    rcases h k p found with argument | ⟨-, present⟩
    · exact nomatch entry.symm.trans argument
    · exact absurd (present.symm.trans absent) Bool.noConfusion
  rw [withMap, kept]

theorem release_of_kept {key : K}
    (h : ∀ p, self.pendingForAck.get? key = some p → p.key ≠ .argument) :
    self.release key = self := by
  have kept : (self.pendingForAck.mapValues fun k p =>
      if k = key ∧ p.key = .argument then { p with key := .gone } else p) =
        self.pendingForAck := by
    apply OrderedMap.mapValues_eq_self
    intro k p found
    rw [if_neg]
    rintro ⟨rfl, argument⟩
    exact h p found argument
  rw [release, kept]

end Pointers

section SendEvents

variable {K V : Type*} {self : RdMap K V} {pointee : KeyPointee}

@[simp] theorem search_map : self.search.map = self.map := by
  unfold search
  split_ifs <;> rfl

@[simp] theorem search_isMaster : self.search.isMaster = self.isMaster := by
  unfold search
  split_ifs <;> rfl

@[simp] theorem search_errors : self.search.errors = self.errors := by
  unfold search
  split_ifs <;> rfl

variable [DecidableEq K]

theorem sendEvents_frame (es : List (MapEvent K V)) :
    (self.sendEvents pointee es).1.map = self.map ∧
      (self.sendEvents pointee es).1.isMaster = self.isMaster ∧
      (self.sendEvents pointee es).1.errors = self.errors := by
  induction es generalizing self with
  | nil => exact ⟨rfl, rfl, rfl⟩
  | cons e es ih =>
    obtain ⟨map, isMaster, errors⟩ := @ih (self.sendEvent pointee e).1
    rw [sendEvents, map, isMaster, errors, sendEvent]
    split_ifs <;> simp

/-- A slave sends its changes without a version and stays as it is. -/
theorem sendEvents_of_slave (slave : self.isMaster = false) (es : List (MapEvent K V)) :
    self.sendEvents pointee es = (self, es.map fun e => ⟨.ofEvent e, none, e.getKey⟩) := by
  induction es with
  | nil => rfl
  | cons e es ih =>
    have sent : self.sendEvent pointee e = (self, ⟨.ofEvent e, none, e.getKey⟩) := by
      simp [sendEvent, slave]
    simp only [sendEvents, sent, ih, List.map_cons]

theorem sendEvent_of_master (master : self.isMaster = true) (e : MapEvent K V) :
    self.sendEvent pointee e =
      ({ self.search with
          nextVersion := self.nextVersion + 1
          pendingForAck := self.pendingForAck.emplace e.getKey ⟨self.nextVersion + 1, pointee⟩ },
        ⟨.ofEvent e, some (self.nextVersion + 1), e.getKey⟩) := by
  rw [sendEvent, if_pos master]

theorem versioned_of_master (master : self.isMaster = true) (es : List (MapEvent K V)) :
    ∀ m ∈ (self.sendEvents pointee es).2, m.version.isSome = true ∧ m.op ≠ .ack := by
  induction es generalizing self with
  | nil => exact fun m hm => nomatch hm
  | cons e es ih =>
    have later := @ih (self.sendEvent pointee e).1 (by
      rw [sendEvent_of_master master, search_isMaster]
      exact master)
    rw [sendEvents]
    intro m hm
    rcases List.mem_cons.1 hm with rfl | hm
    · rw [sendEvent_of_master master]
      exact ⟨rfl, MapMessageOp.ofEvent_ne_ack e⟩
    · exact later m hm

theorem sendEvents_of_notMem {k : K} {es : List (MapEvent K V)}
    (quiet : k ∉ es.map MapEvent.getKey) :
    (self.sendEvents pointee es).1.pendingForAck.get? k = self.pendingForAck.get? k ∧
      ∀ m ∈ (self.sendEvents pointee es).2, m.key ≠ k := by
  induction es generalizing self with
  | nil => exact ⟨rfl, fun m hm => nomatch hm⟩
  | cons e es ih =>
    rw [List.map_cons, List.mem_cons, not_or] at quiet
    obtain ⟨pending, others⟩ := @ih (self.sendEvent pointee e).1 quiet.2
    rw [sendEvents]
    constructor
    · rw [pending, sendEvent]
      split_ifs
      · exact OrderedMap.get?_emplace_of_ne _ quiet.1 _
      · rfl
    · intro m hm
      rcases List.mem_cons.1 hm with rfl | hm
      · rw [sendEvent]
        split_ifs <;> exact Ne.symm quiet.1
      · exact others m hm

/-- As long as no pointer dangles, sending is not undefined. -/
theorem undefined_sendEvents (living : pointee ≠ .gone) (es : List (MapEvent K V))
    (h : ∀ k p, self.pendingForAck.get? k = some p → p.key ≠ .gone) :
    (self.sendEvents pointee es).1.undefined = self.undefined := by
  induction es generalizing self with
  | nil => rfl
  | cons e es ih =>
    rw [sendEvents, ih]
    · rw [sendEvent]
      split_ifs
      · rw [search_of_noneGone h]
      · rfl
    · rw [sendEvent]
      split_ifs
      · intro k p found
        unfold OrderedMap.emplace at found
        split_ifs at found
        · exact h k p found
        · by_cases hk : k = e.getKey
          · rw [hk, OrderedMap.get?_set_self] at found
            cases found
            exact living
          · rw [OrderedMap.get?_set_of_ne _ hk] at found
            exact h k p found
      · exact h

end SendEvents

end RdMap

/-- The master on the left, the slave on the right. -/
abbrev MapPair (K V : Type*) := Duplex (RdMap K V) (RdMap K V) (MapMessage K V) (MapMessage K V)

namespace MapPair

variable {K V : Type*} [DecidableEq K]

/-- What a message of the master is about the key `k`. -/
def ofMaster (k : K) (m : MapMessage K V) : Option (ℤ × Option V) :=
  if m.key = k then some (m.version.getD 0, m.op.value) else none

/-- What a message of the slave is about the key `k`. -/
def ofSlave (k : K) (m : MapMessage K V) : Option (Reply ℤ (Option V)) :=
  if m.key = k then
    match m.op with
    | .ack => some (.ack (m.version.getD 0))
    | op => some (.change op.value)
  else none

/-- All that concerns one key. -/
def cell (s : MapPair K V) (k : K) : AckedCell ℤ (Option V) where
  own := s.left.map.get? k
  pending := (s.left.pendingForAck.get? k).map PendingAck.version
  other := s.right.map.get? k
  toOther := s.toRight.filterMap (ofMaster k)
  toOwner := s.toLeft.filterMap (ofSlave k)

theorem filterMap_ofMaster_of_ne {k : K} {ms : List (MapMessage K V)} (h : ∀ m ∈ ms, m.key ≠ k) :
    ms.filterMap (ofMaster k) = [] :=
  List.filterMap_eq_nil_iff.2 fun m hm => if_neg (h m hm)

theorem filterMap_ofSlave_of_ne {k : K} {ms : List (MapMessage K V)} (h : ∀ m ∈ ms, m.key ≠ k) :
    ms.filterMap (ofSlave k) = [] :=
  List.filterMap_eq_nil_iff.2 fun m hm => if_neg (h m hm)

/-- A change that the master sends for a key that was not waiting is the one it then waits for. -/
theorem sendEvents_of_mem {self : RdMap K V} (master : self.isMaster = true) (pointee : KeyPointee)
    {es : List (MapEvent K V)} (distinct : (es.map MapEvent.getKey).Nodup) {e : MapEvent K V}
    (he : e ∈ es) (free : self.pendingForAck.get? e.getKey = none) :
    ∃ n, (self.sendEvents pointee es).1.pendingForAck.get? e.getKey = some ⟨n, pointee⟩ ∧
      (self.sendEvents pointee es).2.filterMap (ofMaster e.getKey) = [(n, e.getNewValue)] := by
  induction es generalizing self with
  | nil => cases he
  | cons a es ih =>
    rw [List.map_cons, List.nodup_cons] at distinct
    have sends := @RdMap.sendEvent_of_master K V self pointee _ master a
    rw [RdMap.sendEvents]
    rcases List.mem_cons.1 he with rfl | he
    · obtain ⟨pending, others⟩ := @RdMap.sendEvents_of_notMem K V (self.sendEvent pointee e).1
        pointee _ _ _ distinct.1
      refine ⟨self.nextVersion + 1, ?_, ?_⟩
      · rw [pending, sends, OrderedMap.get?_emplace_of_none _ _ free]
      · rw [List.filterMap_cons, filterMap_ofMaster_of_ne others, sends]
        simp [ofMaster]
    · have other : e.getKey ≠ a.getKey := fun h => distinct.1 (h ▸ List.mem_map_of_mem he)
      obtain ⟨n, pending, sent⟩ := @ih (self.sendEvent pointee a).1 (by simpa [sends] using master)
        distinct.2 he (by rw [sends, OrderedMap.get?_emplace_of_ne _ other]; exact free)
      refine ⟨n, pending, ?_⟩
      rw [List.filterMap_cons, sends]
      rw [sends] at sent
      simpa [ofMaster, Ne.symm other] using sent

/-- A change that the slave sends for a key is all it sends for it. -/
theorem filterMap_ofSlave_of_mem {es : List (MapEvent K V)}
    (distinct : (es.map MapEvent.getKey).Nodup) {e : MapEvent K V} (he : e ∈ es) :
    (es.map fun a => (⟨.ofEvent a, none, a.getKey⟩ : MapMessage K V)).filterMap
      (ofSlave e.getKey) = [.change e.getNewValue] := by
  induction es with
  | nil => cases he
  | cons a es ih =>
    rw [List.map_cons, List.nodup_cons] at distinct
    rw [List.map_cons, List.filterMap_cons]
    rcases List.mem_cons.1 he with rfl | he
    · rw [filterMap_ofSlave_of_ne]
      · cases e <;> simp [ofSlave, MapMessageOp.ofEvent, MapMessageOp.value, MapEvent.getNewValue]
      · intro m hm
        obtain ⟨b, hb, rfl⟩ := List.mem_map.1 hm
        exact fun same => distinct.1 (same ▸ List.mem_map_of_mem hb)
    · have other : a.getKey ≠ e.getKey := fun h => distinct.1 (h ▸ List.mem_map_of_mem he)
      simpa [ofSlave, other] using ih distinct.2 he

variable [DecidableEq V] {self : RdMap K V} (op : MapOp K V)

/-! ## What a local change sends -/

variable (self) in
/-- The side after it has sent the events of an operation, and what it has sent. -/
def sends : RdMap K V × List (MapMessage K V) :=
  self.sendEvents op.pointee (self.map.run op).2

theorem sends_of_mem (master : self.isMaster = true) {e : MapEvent K V}
    (he : e ∈ (self.map.run op).2) (free : self.pendingForAck.get? e.getKey = none) :
    ∃ n, (sends self op).1.pendingForAck.get? e.getKey = some ⟨n, op.pointee⟩ ∧
      (sends self op).2.filterMap (ofMaster e.getKey) = [(n, e.getNewValue)] :=
  sendEvents_of_mem master _ (self.map.keys_run_nodup op) he free

/-- The master's pointers stay alive if it changes no key that waits and does not clear the map. -/
theorem alive_sends (master : self.isMaster = true)
    (alive : RdMap.KeysAlive self.pendingForAck self.map)
    (free : ∀ e ∈ (self.map.run op).2, self.pendingForAck.get? e.getKey = none)
    (kept : op = .clear → self.map.entries = []) :
    RdMap.KeysAlive (sends self op).1.pendingForAck (self.map.run op).1 := by
  intro k p found
  rcases self.map.get?_run op k with ⟨quiet, same⟩ | ⟨e, he, rfl, new⟩
  · rw [sends, (RdMap.sendEvents_of_notMem quiet).1] at found
    rw [same]
    exact alive k p found
  · obtain ⟨n, pending, -⟩ := sends_of_mem op master he (free e he)
    obtain rfl : p = ⟨n, op.pointee⟩ := Option.some.inj (found.symm.trans pending)
    rw [new]
    refine self.map.pointee_of_mem ?_ he
    rintro rfl
    simp [ViewableMap.run, ViewableMap.clear, kept rfl] at he

theorem localChange_of_master (master : self.isMaster = true)
    (alive : RdMap.KeysAlive self.pendingForAck self.map)
    (free : ∀ e ∈ (self.map.run op).2, self.pendingForAck.get? e.getKey = none)
    (kept : op = .clear → self.map.entries = []) :
    self.localChange op =
      ({ (sends self op).1 with map := (self.map.run op).1 }, (sends self op).2) := by
  have changed : self.localChange op =
      ((sends self op).1.withMap (self.map.run op).1, (sends self op).2) := rfl
  rw [changed, RdMap.withMap_of_alive (alive_sends op master alive free kept)]

theorem localChange_of_slave (slave : self.isMaster = false) :
    self.localChange op = (self.withMap (self.map.run op).1,
      (self.map.run op).2.map fun e => ⟨.ofEvent e, none, e.getKey⟩) := by
  have changed : self.localChange op =
      ((sends self op).1.withMap (self.map.run op).1, (sends self op).2) := rfl
  rw [changed, sends, RdMap.sendEvents_of_slave slave]

theorem undefined_sends (alive : RdMap.KeysAlive self.pendingForAck self.map) :
    (sends self op).1.undefined = self.undefined := by
  apply RdMap.undefined_sendEvents
  · cases op <;> exact fun h => nomatch h
  · exact alive.noneGone

/-! ## Runs -/

variable (K V) in
def machine : Machine (MapPair K V) (DuplexEvent (MapAct K V) (MapAct K V)) :=
  Duplex.machine (RdMap.party K V true) (RdMap.party K V false)

/-- What the master has to heed: it does not change a key that waits for an acknowledgement, it
clears no map that has entries, and it does not destroy a key that is waited for. -/
def Careful (s : MapPair K V) : DuplexEvent (MapAct K V) (MapAct K V) → Prop
  | .left (.change op) => (∀ e ∈ (s.left.map.run op).2, s.left.pendingForAck.get? e.getKey = none) ∧
      (op = .clear → s.left.map.entries = [])
  | .left (.release key) => ∀ p ∈ s.left.pendingForAck.get? key, p.key ≠ .argument
  | _ => True

instance (s : MapPair K V) (e : DuplexEvent (MapAct K V) (MapAct K V)) :
    Decidable (s.Careful e) := by
  rcases e with (op | key) | (op | key) | - | - <;> unfold Careful <;> infer_instance

structure Inv {K V : Type*} [DecidableEq K] (s : MapPair K V) : Prop where
  master : s.left.isMaster = true
  slave : s.right.isMaster = false
  changes : ∀ m ∈ s.toRight, m.version.isSome = true ∧ m.op ≠ .ack
  replies : ∀ m ∈ s.toLeft, m.op = .ack ↔ m.version.isSome = true
  cells : ∀ k, (s.cell k).Inv
  quiet : s.left.errors = [] ∧ s.right.errors = []
  alive : RdMap.KeysAlive s.left.pendingForAck s.left.map
  defined : s.left.undefined = false ∧ s.right.undefined = false

theorem inv_init : (machine K V).init.Inv where
  master := rfl
  slave := rfl
  changes := fun _ hm => nomatch hm
  replies := fun _ hm => nomatch hm
  cells := fun _ => .free [] rfl rfl rfl rfl
  quiet := ⟨rfl, rfl⟩
  alive := fun _ _ found => nomatch found
  defined := ⟨rfl, rfl⟩

namespace Inv

variable {s : MapPair K V}

theorem masterChanges (h : s.Inv) (op : MapOp K V) (careful : s.Careful (.left (.change op))) :
    Inv { s with left := (s.left.localChange op).1
                 toRight := s.toRight ++ (s.left.localChange op).2 } := by
  obtain ⟨free, kept⟩ := careful
  rw [localChange_of_master op h.master h.alive free kept]
  obtain ⟨-, isMaster, errors⟩ := @RdMap.sendEvents_frame K V s.left op.pointee _
    (s.left.map.run op).2
  refine ⟨isMaster.trans h.master, h.slave, ?_, h.replies, fun k => ?_, ⟨errors.trans h.quiet.1,
    h.quiet.2⟩, alive_sends op h.master h.alive free kept,
    ⟨(undefined_sends op h.alive).trans h.defined.1, h.defined.2⟩⟩
  · intro m hm
    rcases List.mem_append.1 hm with hm | hm
    · exact h.changes m hm
    · exact RdMap.versioned_of_master h.master _ m hm
  · have before := h.cells k
    rcases s.left.map.get?_run op k with ⟨quiet, same⟩ | ⟨e, he, rfl, new⟩
    · obtain ⟨pending, others⟩ := @RdMap.sendEvents_of_notMem K V s.left op.pointee _ _ _ quiet
      simpa [cell, sends, same, pending, filterMap_ofMaster_of_ne others] using before
    · obtain ⟨n, pending, sent⟩ := sends_of_mem op h.master he (free e he)
      have notWaiting : (s.cell e.getKey).pending = none := by simp [cell, free e he]
      simpa [cell, new, pending, sent] using before.ownerChanges n e.getNewValue notWaiting

theorem masterReleases (h : s.Inv) (key : K) (careful : s.Careful (.left (.release key))) :
    Inv { s with left := s.left.release key, toRight := s.toRight ++ [] } := by
  rw [RdMap.release_of_kept careful, List.append_nil]
  exact h

theorem slaveChanges (h : s.Inv) (op : MapOp K V) :
    Inv { s with right := (s.right.localChange op).1
                 toLeft := s.toLeft ++ (s.right.localChange op).2 } := by
  rw [localChange_of_slave op h.slave]
  refine ⟨h.master, h.slave, h.changes, ?_, fun k => ?_, h.quiet, h.alive, h.defined⟩
  · intro m hm
    rcases List.mem_append.1 hm with hm | hm
    · exact h.replies m hm
    · obtain ⟨e, -, rfl⟩ := List.mem_map.1 hm
      exact iff_of_false (MapMessageOp.ofEvent_ne_ack e) (by simp)
  · have before := h.cells k
    rcases s.right.map.get?_run op k with ⟨quiet, same⟩ | ⟨e, he, rfl, new⟩
    · have others : ((s.right.map.run op).2.map fun e =>
          (⟨.ofEvent e, none, e.getKey⟩ : MapMessage K V)).filterMap (ofSlave k) = [] := by
        apply filterMap_ofSlave_of_ne
        intro m hm
        obtain ⟨e, he, rfl⟩ := List.mem_map.1 hm
        exact fun key => quiet (key ▸ List.mem_map_of_mem he)
      simpa [cell, RdMap.withMap, same, others] using before
    · have sent := filterMap_ofSlave_of_mem (s.right.map.keys_run_nodup op) he
      simpa [cell, RdMap.withMap, new, sent] using before.otherChanges e.getNewValue

omit [DecidableEq V] in
theorem slaveReleases (h : s.Inv) (key : K) :
    Inv { s with right := s.right.release key, toLeft := s.toLeft ++ [] } := by
  rw [List.append_nil]
  exact ⟨h.master, h.slave, h.changes, h.replies, h.cells, h.quiet, h.alive, h.defined⟩

theorem slaveReceives (h : s.Inv) {m : MapMessage K V} {rest : List (MapMessage K V)}
    (oldest : s.toRight = m :: rest) :
    Inv { s with right := (s.right.onWireReceived m).1, toRight := rest
                 toLeft := s.toLeft ++ (s.right.onWireReceived m).2 } := by
  obtain ⟨versioned, isChange⟩ := h.changes m (oldest ▸ List.mem_cons_self)
  obtain ⟨version, hversion⟩ := Option.isSome_iff_exists.1 versioned
  rw [RdMap.onWireReceived_of_ne_ack isChange, hversion, RdMap.receiveChange_of_slave h.slave]
  refine ⟨h.master, h.slave, fun a ha => h.changes a (oldest ▸ List.mem_cons_of_mem m ha), ?_,
    fun k => ?_, h.quiet, h.alive, h.defined⟩
  · intro a ha
    rcases List.mem_append.1 ha with ha | ha
    · exact h.replies a ha
    · obtain rfl := List.mem_singleton.1 ha
      exact iff_of_true rfl rfl
  · have before := h.cells k
    by_cases hk : m.key = k
    · subst hk
      have arrives : (s.cell m.key).toOther =
          (version, m.op.value) :: rest.filterMap (ofMaster m.key) := by
        simp [cell, oldest, ofMaster, hversion]
      simpa [cell, RdMap.withMap, ViewableMap.get?_assign, ofSlave] using
        before.reachesOther arrives
    · simpa [cell, RdMap.withMap, oldest, ViewableMap.get?_assign, ofSlave, ofMaster, hk,
        Ne.symm hk] using before

theorem masterReceivesAck (h : s.Inv) {m : MapMessage K V} {rest : List (MapMessage K V)}
    (oldest : s.toLeft = m :: rest) (isAck : m.op = .ack) :
    Inv { s with left := (s.left.onWireReceived m).1, toLeft := rest
                 toRight := s.toRight ++ (s.left.onWireReceived m).2 } := by
  obtain ⟨version, hversion⟩ :=
    Option.isSome_iff_exists.1 ((h.replies m (oldest ▸ List.mem_cons_self)).1 isAck)
  have arrives : (s.cell m.key).toOwner = .ack version :: rest.filterMap (ofSlave m.key) := by
    simp [cell, oldest, ofSlave, isAck, hversion]
  -- the key waits for just this acknowledgement
  obtain ⟨waiting, after⟩ := (h.cells m.key).acked arrives
  obtain ⟨pending, found, rfl⟩ := Option.map_eq_some_iff.1 waiting
  have received : s.left.onWireReceived m =
      ({ s.left with pendingForAck := s.left.pendingForAck.erase m.key }, []) := by
    simp only [RdMap.onWireReceived, isAck, hversion]
    rw [RdMap.receiveAck_of_pending h.master found, RdMap.search_of_alive h.alive]
  rw [received]
  refine ⟨h.master, h.slave, by simpa using h.changes,
    fun a ha => h.replies a (oldest ▸ List.mem_cons_of_mem m ha), fun k => ?_, h.quiet,
    fun k p found => ?_, h.defined⟩
  · by_cases hk : m.key = k
    · subst hk
      simpa [cell] using after
    · have before := h.cells k
      simpa [cell, oldest, ofSlave, hk, OrderedMap.get?_erase_of_ne _ (Ne.symm hk)] using before
  · by_cases hk : k = m.key
    · rw [hk, OrderedMap.get?_erase_self] at found
      cases found
    · rw [OrderedMap.get?_erase_of_ne _ hk] at found
      exact h.alive k p found

theorem masterReceivesChange (h : s.Inv) {m : MapMessage K V} {rest : List (MapMessage K V)}
    (oldest : s.toLeft = m :: rest) (isChange : m.op ≠ .ack) :
    Inv { s with left := (s.left.onWireReceived m).1, toLeft := rest
                 toRight := s.toRight ++ (s.left.onWireReceived m).2 } := by
  have replies : ∀ a ∈ rest, a.op = .ack ↔ a.version.isSome = true :=
    fun a ha => h.replies a (oldest ▸ List.mem_cons_of_mem m ha)
  have hversion : m.version = none := by
    rw [← Option.not_isSome_iff_eq_none]
    exact fun versioned => isChange ((h.replies m (oldest ▸ List.mem_cons_self)).2 versioned)
  have arrives : (s.cell m.key).toOwner =
      .change m.op.value :: rest.filterMap (ofSlave m.key) := by
    simp [cell, oldest, ofSlave]
  have skip {k : K} (hk : m.key ≠ k) : s.toLeft.filterMap (ofSlave k) =
      rest.filterMap (ofSlave k) := by
    simp [oldest, ofSlave, hk]
  rw [RdMap.onWireReceived_of_ne_ack isChange, hversion, RdMap.receiveChange_of_master h.master,
    RdMap.search_of_alive h.alive]
  split_ifs with free
  · have alive : RdMap.KeysAlive s.left.pendingForAck
        (s.left.map.assign m.key m.op.value) := by
      intro k p found
      rw [ViewableMap.get?_assign, if_neg]
      · exact h.alive k p found
      · rintro rfl
        cases free.symm.trans found
    have notWaiting : (s.cell m.key).pending = none := by simp [cell, free]
    rw [RdMap.withMap_of_alive alive]
    refine ⟨h.master, h.slave, by simpa using h.changes, replies, fun k => ?_, h.quiet, alive,
      h.defined⟩
    by_cases hk : m.key = k
    · subst hk
      simpa [cell, ViewableMap.get?_assign] using (h.cells m.key).accepted arrives notWaiting
    · have before := h.cells k
      simpa [cell, skip hk, ViewableMap.get?_assign, Ne.symm hk] using before
  · have waiting : (s.cell m.key).pending ≠ none := by simpa [cell] using free
    refine ⟨h.master, h.slave, by simpa using h.changes, replies, fun k => ?_, h.quiet, h.alive,
      h.defined⟩
    by_cases hk : m.key = k
    · subst hk
      simpa [cell] using (h.cells m.key).rejected arrives waiting
    · have before := h.cells k
      simpa [cell, skip hk] using before

end Inv

theorem inv_of_run {es : List (DuplexEvent (MapAct K V) (MapAct K V))} {s : MapPair K V}
    (h : (machine K V).Run es s) (careful : (machine K V).Along es Careful) : s.Inv := by
  refine h.invariant_along inv_init (fun {t e _} hi careful hs => ?_) careful
  cases Duplex.step_sound hs with
  | @left a _ _ acts =>
    obtain ⟨rfl, rfl⟩ := Prod.ext_iff.1 (Option.some.inj acts)
    cases a with
    | change op => exact hi.masterChanges op careful
    | release key => exact hi.masterReleases key careful
  | @right a _ _ acts =>
    obtain ⟨rfl, rfl⟩ := Prod.ext_iff.1 (Option.some.inj acts)
    cases a with
    | change op => exact hi.slaveChanges op
    | release key => exact hi.slaveReleases key
  | arriveRight oldest receives =>
    obtain ⟨rfl, rfl⟩ := Prod.ext_iff.1 (Option.some.inj receives)
    exact hi.slaveReceives oldest
  | @arriveLeft m _ _ _ oldest receives =>
    obtain ⟨rfl, rfl⟩ := Prod.ext_iff.1 (Option.some.inj receives)
    by_cases isAck : m.op = .ack
    · exact hi.masterReceivesAck oldest isAck
    · exact hi.masterReceivesChange oldest isAck

/-- Both sides change a key before they hear of each other, and the slave changes it again.  Later
the master removes it and keeps the key until the removal has been acknowledged. -/
def crossingChanges : List (DuplexEvent (MapAct ℕ ℕ) (MapAct ℕ ℕ)) :=
  [.left (.change .clear), .left (.change (.set 0 1)), .right (.change (.set 0 2)),
    .right (.change (.set 5 5)), .arriveRight, .right (.change (.set 0 3)), .arriveLeft,
    .arriveLeft, .arriveLeft, .arriveLeft, .left (.change (.remove 0)), .arriveRight, .arriveLeft,
    .left (.release 0)]

/-- Without that care the next search of `pendingForAck` meets a key that is gone: here the key of
the entry that `clear` has destroyed. -/
example : (((machine ℕ ℕ).exec (machine ℕ ℕ).init [.left (.change (.set 0 1)), .arriveRight,
    .arriveLeft, .left (.change .clear), .arriveRight, .arriveLeft]).map fun s =>
      s.left.undefined) = some true := by
  decide +kernel

end MapPair

end CarpenterDemo.Rd
