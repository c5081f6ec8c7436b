import CarpenterDemo.Library.Duplex
import CarpenterDemo.Library.MachineInt
import Mathlib.Algebra.Order.Ring.Int

/-!
# `RdProperty`: a value that both sides may set

`RdPropertyBase` of the RD framework with the two functions that keep its two copies together: the
handler that `init` advises, which sends every local change, and `on_wire_received`.  One copy is
the master.  It counts its changes in `masterVersion`, an `int32_t`, and rejects a received value
whose version is older; every other received value is taken over without being sent back.

`Property.set` fires only when the value changes.  The binding of nested values is left out.

`copies_agree_iff`: whatever both sides set at whatever time, once nothing is on its way both copies
hold one value, unless they were bound with different values and nothing has changed since.
-/

namespace CarpenterDemo.Rd

/-- What travels on the wire: the version and the value. -/
abbrev PropertyMessage (T : Type*) := ℤ × T

structure RdPropertyBase (T : Type*) where
  value : Option T
  masterVersion : ℤ := 0
  defaultValueChanged : Bool := false
  isMaster : Bool
  /-- The values with which `change` has been fired, oldest first. -/
  change : List T := []
  deriving DecidableEq, Repr

namespace RdPropertyBase

variable {T : Type*} [DecidableEq T] (self : RdPropertyBase T)

/-- `Property<T>::set`, which says whether `change` is fired. -/
def propertySet (newValue : T) : RdPropertyBase T × Bool :=
  if self.value ≠ some newValue then
    ({ self with value := some newValue, change := self.change ++ [newValue] }, true)
  else (self, false)

/-- The handler of `change` that `init` advises, for a local change to `v`. -/
def sendChange {T : Type*} (self : RdPropertyBase T) (v : T) :
    RdPropertyBase T × List (PropertyMessage T) :=
  let self := if self.isMaster then
      { self with masterVersion := MachineInt.wrap 32 (self.masterVersion + 1) }
    else self
  (self, [(self.masterVersion, v)])

/-- A local `set`, with what it sends. -/
def set (newValue : T) : RdPropertyBase T × List (PropertyMessage T) :=
  let (self, fired) := { self with defaultValueChanged := true }.propertySet newValue
  if fired then self.sendChange newValue else (self, [])

def onWireReceived (message : PropertyMessage T) : RdPropertyBase T :=
  let (version, v) := message
  let rejected := self.isMaster && decide (version < self.masterVersion)
  if rejected then self
  else ({ self with masterVersion := version }.propertySet v).1

/-- One side of the wire, which starts with the value `initial`. -/
def party (isMaster : Bool) (initial : Option T) :
    Party (RdPropertyBase T) T (PropertyMessage T) (PropertyMessage T) where
  init := { value := initial, isMaster := isMaster }
  act self newValue := some (self.set newValue)
  receive self message := some (self.onWireReceived message, [])

/-! ## What each function does -/

@[simp] theorem value_propertySet (v : T) : (self.propertySet v).1.value = some v := by
  unfold propertySet
  split_ifs with h
  · rfl
  · exact not_not.1 h

@[simp] theorem masterVersion_propertySet (v : T) :
    (self.propertySet v).1.masterVersion = self.masterVersion := by
  unfold propertySet
  split_ifs <;> rfl

@[simp] theorem isMaster_propertySet (v : T) :
    (self.propertySet v).1.isMaster = self.isMaster := by
  unfold propertySet
  split_ifs <;> rfl

theorem prefix_propertySet (v : T) : self.change <+: (self.propertySet v).1.change := by
  unfold propertySet
  split_ifs
  · exact List.prefix_append _ _
  · exact List.prefix_refl _

/-- The three things a local `set` can be: no change, a change of a master, a change of a slave. -/
theorem set_cases (v : T) :
    ((self.set v).2 = [] ∧ (self.set v).1.value = self.value ∧
        (self.set v).1.masterVersion = self.masterVersion ∧
        (self.set v).1.isMaster = self.isMaster ∧ (self.set v).1.change = self.change) ∨
      ∃ version, version = (if self.isMaster then MachineInt.wrap 32 (self.masterVersion + 1)
          else self.masterVersion) ∧
        (self.set v).2 = [(version, v)] ∧ (self.set v).1.value = some v ∧
        (self.set v).1.masterVersion = version ∧ (self.set v).1.isMaster = self.isMaster ∧
        (self.set v).1.change = self.change ++ [v] := by
  by_cases same : self.value = some v
  · left
    simp [set, propertySet, same]
  · right
    cases master : self.isMaster <;> simp [set, propertySet, sendChange, same, master]

/-- A rejected message changes nothing, any other is taken over. -/
theorem onWireReceived_cases (m : PropertyMessage T) :
    (self.isMaster = true ∧ m.1 < self.masterVersion ∧ self.onWireReceived m = self) ∨
      (¬ (self.isMaster = true ∧ m.1 < self.masterVersion) ∧
        (self.onWireReceived m).value = some m.2 ∧ (self.onWireReceived m).masterVersion = m.1 ∧
        (self.onWireReceived m).isMaster = self.isMaster ∧
        self.change <+: (self.onWireReceived m).change) := by
  by_cases rejected : self.isMaster = true ∧ m.1 < self.masterVersion
  · left
    simp [onWireReceived, rejected]
  · right
    refine ⟨rejected, ?_⟩
    have guard : (self.isMaster && decide (m.1 < self.masterVersion)) = false := by
      simpa using rejected
    refine ⟨by simp [onWireReceived, guard], by simp [onWireReceived, guard],
      by simp [onWireReceived, guard], ?_⟩
    have extended := { self with masterVersion := m.1 }.prefix_propertySet m.2
    rw [onWireReceived]
    simp only [guard]
    exact extended

end RdPropertyBase

/-- The master on the left, the slave on the right. -/
abbrev PropertyPair (T : Type*) :=
  Duplex (RdPropertyBase T) (RdPropertyBase T) (PropertyMessage T) (PropertyMessage T)

namespace PropertyPair

open Duplex

variable {T : Type*} [DecidableEq T] {initial initial' : Option T}

/-- Both sides, each bound with a value of its own. -/
def machine (initial initial' : Option T) : Machine (PropertyPair T) (DuplexEvent T T) :=
  Duplex.machine (RdPropertyBase.party true initial) (RdPropertyBase.party false initial')

/-- A side has changed its value. -/
def Begun {T : Type*} (s : PropertyPair T) : Prop := s.left.change ≠ [] ∨ s.right.change ≠ []

/-- What the master's value becomes by the messages on their way to it. -/
def afterArrivals {T : Type*} (version : ℤ) (value : Option T) (toLeft : List (PropertyMessage T)) :
    Option T :=
  toLeft.foldl (fun x m => if m.1 < version then x else some m.2) value

theorem afterArrivals_snoc {T : Type*} (version : ℤ) (value : Option T)
    (toLeft : List (PropertyMessage T)) (m : PropertyMessage T) :
    afterArrivals version value (toLeft ++ [m]) =
      if m.1 < version then afterArrivals version value toLeft else some m.2 := by
  simp [afterArrivals]

/-- A master that is ahead of all messages keeps its value. -/
theorem afterArrivals_of_stale {T : Type*} {version : ℤ} (value : Option T)
    {toLeft : List (PropertyMessage T)} (stale : ∀ m ∈ toLeft, m.1 < version) :
    afterArrivals version value toLeft = value := by
  induction toLeft with
  | nil => rfl
  | cons m rest ih =>
    rw [afterArrivals, List.foldl_cons, if_pos (stale m List.mem_cons_self)]
    exact ih fun m' hm' => stale m' (List.mem_cons_of_mem m hm')

/-- The versions of the messages to the slave increase above the slave's own version, the last of
them carries the master's value, and no message to the master is newer than the slave.  When nothing
is on its way to the slave, the master will end up with the slave's value, if it has not been so
from the beginning that the values differ. -/
structure Inv {T : Type*} (initial initial' : Option T) (s : PropertyPair T) : Prop where
  master : s.left.isMaster = true
  slave : s.right.isMaster = false
  increasing : (s.right.masterVersion :: s.toRight.map Prod.fst).Pairwise (· < ·)
  counted : ∀ m ∈ s.toRight, m.1 ≤ s.left.masterVersion
  newest : ∀ m ∈ s.toRight.getLast?, m.1 = s.left.masterVersion ∧ s.left.value = some m.2
  answered : ∀ m ∈ s.toLeft, m.1 ≤ s.right.masterVersion
  caughtUp : s.toRight = [] → s.right.masterVersion = s.left.masterVersion ∧
    (initial = initial' ∨ s.Begun →
      afterArrivals s.left.masterVersion s.left.value s.toLeft = s.right.value)
  quiet : ¬ s.Begun → s.toRight = [] ∧ s.toLeft = [] ∧ s.left.value = initial ∧
    s.right.value = initial'

theorem inv_init : (machine initial initial').init.Inv initial initial' where
  master := rfl
  slave := rfl
  increasing := by simp [machine, Duplex.machine]
  counted := by simp [machine, Duplex.machine]
  newest := by simp [machine, Duplex.machine]
  answered := by simp [machine, Duplex.machine]
  caughtUp := fun _ => ⟨rfl, fun same => same.resolve_right (by
    simp [Begun, machine, Duplex.machine, RdPropertyBase.party])⟩
  quiet := fun _ => ⟨rfl, rfl, rfl, rfl⟩

namespace Inv

section Versions

variable {T : Type*} {initial initial' : Option T} {s : PropertyPair T}

/-- While anything is on its way to the slave, the slave is behind. -/
theorem behind (h : s.Inv initial initial') (sent : s.toRight ≠ []) :
    s.right.masterVersion < s.left.masterVersion := by
  obtain ⟨m, hm⟩ := List.exists_mem_of_ne_nil _ sent
  have above : s.right.masterVersion < m.1 :=
    (List.pairwise_cons.1 h.increasing).1 m.1 (List.mem_map_of_mem hm)
  have := h.counted m hm
  omega

theorem le_master (h : s.Inv initial initial') :
    s.right.masterVersion ≤ s.left.masterVersion := by
  by_cases sent : s.toRight = []
  · exact (h.caughtUp sent).1.le
  · exact (h.behind sent).le

/-- Something is on its way only when a side has changed its value. -/
theorem begun_of_sent (h : s.Inv initial initial') (sent : s.toRight ≠ [] ∨ s.toLeft ≠ []) :
    s.Begun := by
  by_contra quiet
  obtain ⟨idle, idle', -⟩ := h.quiet quiet
  obtain sent | sent := sent
  · exact sent idle
  · exact sent idle'

/-- A message that the master takes over is as new as its own last change, and the slave has seen
that one. -/
theorem fresh_eq (h : s.Inv initial initial') {m : PropertyMessage T}
    {rest : List (PropertyMessage T)} (oldest : s.toLeft = m :: rest)
    (fresh : ¬ m.1 < s.left.masterVersion) : m.1 = s.left.masterVersion ∧ s.toRight = [] := by
  have seen := h.answered m (oldest ▸ List.mem_cons_self)
  have idle : s.toRight = [] := by
    by_contra sent
    have := h.behind sent
    omega
  have := (h.caughtUp idle).1
  exact ⟨by omega, idle⟩

end Versions

variable {s : PropertyPair T}

theorem masterSets (h : s.Inv initial initial') (v : T)
    (exact : MachineInt.wrap 32 (s.left.masterVersion + 1) = s.left.masterVersion + 1) :
    Inv initial initial'
      { s with left := (s.left.set v).1, toRight := s.toRight ++ (s.left.set v).2 } := by
  rcases RdPropertyBase.set_cases s.left v with
    ⟨sent, value, version, master, change⟩ | ⟨version, ahead, sent, value, current, master, change⟩
  · -- the value is the old one
    refine ⟨master.trans h.master, h.slave, ?_, ?_, ?_, h.answered, ?_, ?_⟩ <;>
      simp only [Begun, sent, List.append_nil, value, version, change]
    exacts [h.increasing, h.counted, h.newest, h.caughtUp, h.quiet]
  · rw [h.master, if_pos rfl, exact] at ahead
    have older : ∀ a ∈ s.right.masterVersion :: s.toRight.map Prod.fst, a < version := by
      intro a ha
      have := h.le_master
      rcases List.mem_cons.1 ha with rfl | ha
      · omega
      · obtain ⟨m, hm, rfl⟩ := List.mem_map.1 ha
        have := h.counted m hm
        omega
    refine ⟨master.trans h.master, h.slave, ?_, ?_, ?_, h.answered, ?_, ?_⟩ <;>
      simp only [Begun, sent, current, value, change]
    · rw [List.map_append, ← List.cons_append]
      refine List.pairwise_append.2 ⟨h.increasing, List.pairwise_singleton _ _, ?_⟩
      intro a ha b hb
      rw [List.map_singleton, List.mem_singleton] at hb
      exact hb ▸ older a ha
    · intro m hm
      rcases List.mem_append.1 hm with hm | hm
      · exact (older m.1 (List.mem_cons_of_mem _ (List.mem_map_of_mem hm))).le
      · exact (congrArg Prod.fst (List.mem_singleton.1 hm)).le
    · simp
    · simp
    · simp

theorem slaveSets (h : s.Inv initial initial') (v : T) :
    Inv initial initial'
      { s with right := (s.right.set v).1, toLeft := s.toLeft ++ (s.right.set v).2 } := by
  rcases RdPropertyBase.set_cases s.right v with
    ⟨sent, value, version, slave, change⟩ | ⟨version, current, sent, value, kept, slave, change⟩
  · refine ⟨h.master, slave.trans h.slave, ?_, h.counted, h.newest, ?_, ?_, ?_⟩ <;>
      simp only [Begun, sent, List.append_nil, value, version, change]
    exacts [h.increasing, h.answered, h.caughtUp, h.quiet]
  · rw [h.slave] at current
    obtain rfl : version = s.right.masterVersion := current
    refine ⟨h.master, slave.trans h.slave, ?_, h.counted, h.newest, ?_, ?_, ?_⟩ <;>
      simp only [Begun, sent, value, kept, change]
    · exact h.increasing
    · intro m hm
      rcases List.mem_append.1 hm with hm | hm
      · exact h.answered m hm
      · exact (congrArg Prod.fst (List.mem_singleton.1 hm)).le
    · intro idle
      obtain ⟨level, -⟩ := h.caughtUp idle
      refine ⟨level, fun _ => ?_⟩
      rw [afterArrivals_snoc, if_neg]
      simp [level]
    · simp

/-- A message reaches the slave, which takes it over. -/
theorem slaveReceives (h : s.Inv initial initial') {m : PropertyMessage T}
    {rest : List (PropertyMessage T)} (oldest : s.toRight = m :: rest) :
    Inv initial initial' { s with right := s.right.onWireReceived m, toRight := rest } := by
  have increasing := h.increasing
  have newest := h.newest
  have begun := h.begun_of_sent (Or.inl (oldest ▸ List.cons_ne_nil m rest))
  have above : s.right.masterVersion < m.1 := by
    rw [oldest, List.map_cons] at increasing
    exact (List.pairwise_cons.1 increasing).1 m.1 List.mem_cons_self
  rcases RdPropertyBase.onWireReceived_cases s.right m with
    ⟨master, -⟩ | ⟨-, value, version, slave, change⟩
  · rw [h.slave] at master
    cases master
  have stale : ∀ a ∈ s.toLeft, a.1 < m.1 := fun a ha => (h.answered a ha).trans_lt above
  rw [oldest, List.map_cons] at increasing
  rw [oldest] at newest
  refine ⟨h.master, slave.trans h.slave, ?_, ?_, ?_, ?_, ?_, fun quiet => ?_⟩
  · rw [version]
    exact (List.pairwise_cons.1 increasing).2
  · exact fun a ha => h.counted a (oldest ▸ List.mem_cons_of_mem m ha)
  · intro a ha
    refine newest a ?_
    rw [List.getLast?_cons, Option.mem_def.1 ha]
    rfl
  · rw [version]
    exact fun a ha => (stale a ha).le
  · rintro rfl
    -- the slave has caught up: its last value is the master's
    obtain ⟨current, carried⟩ := newest m rfl
    simp only [value, version]
    refine ⟨current, fun _ => ?_⟩
    rw [afterArrivals_of_stale _ (current ▸ stale), carried]
  · exact absurd (begun.imp_right (change.ne_nil)) quiet

/-- A message reaches the master, which rejects it unless it is as new as its own last change. -/
theorem masterReceives (h : s.Inv initial initial') {m : PropertyMessage T}
    {rest : List (PropertyMessage T)} (oldest : s.toLeft = m :: rest) :
    Inv initial initial' { s with left := s.left.onWireReceived m, toLeft := rest } := by
  have answered : ∀ a ∈ rest, a.1 ≤ s.right.masterVersion :=
    fun a ha => h.answered a (oldest ▸ List.mem_cons_of_mem m ha)
  have begun := h.begun_of_sent (Or.inr (oldest ▸ List.cons_ne_nil m rest))
  have caughtUp := h.caughtUp
  rw [oldest] at caughtUp
  rcases RdPropertyBase.onWireReceived_cases s.left m with
    ⟨-, old, same⟩ | ⟨accepted, value, version, master, change⟩
  · rw [same]
    refine ⟨h.master, h.slave, h.increasing, h.counted, h.newest, answered, fun idle => ?_,
      fun quiet => absurd begun quiet⟩
    obtain ⟨level, replay⟩ := caughtUp idle
    have replay := replay (Or.inr begun)
    rw [afterArrivals, List.foldl_cons, if_pos old] at replay
    exact ⟨level, fun _ => replay⟩
  · have fresh : ¬ m.1 < s.left.masterVersion := fun old => accepted ⟨h.master, old⟩
    obtain ⟨same, idle⟩ := h.fresh_eq oldest fresh
    obtain ⟨level, replay⟩ := caughtUp idle
    have replay := replay (Or.inr begun)
    refine ⟨master.trans h.master, h.slave, ?_, ?_, ?_, answered, fun _ => ?_, fun quiet => ?_⟩
    · exact h.increasing
    · rw [version, same]
      exact h.counted
    · simp [idle]
    · simp only [version, same]
      rw [afterArrivals, List.foldl_cons, if_neg fresh] at replay
      rw [value]
      exact ⟨level, fun _ => replay⟩
    · exact absurd (begun.imp_left (change.ne_nil)) quiet

end Inv

/-- The master counts its changes. -/
theorem inv_of_run {es : List (DuplexEvent T T)} {s : PropertyPair T}
    (h : (machine initial initial').Run es s) (few : es.countP DuplexEvent.isLeft < 2 ^ 31) :
    s.Inv initial initial' ∧ 0 ≤ s.left.masterVersion ∧
      s.left.masterVersion ≤ es.countP DuplexEvent.isLeft := by
  induction h with
  | nil => exact ⟨inv_init, le_rfl, le_rfl⟩
  | @snoc es s s' e run hs ih =>
    rw [List.countP_append, List.countP_singleton] at few ⊢
    obtain ⟨inv, positive, counted⟩ := ih (by omega)
    cases Duplex.step_sound hs with
    | @left v a sent acts =>
      obtain ⟨rfl, rfl⟩ := Prod.ext_iff.1 (Option.some.inj acts)
      have one : (if (DuplexEvent.left (β := T) v).isLeft = true then 1 else 0) = 1 := rfl
      rw [one] at few ⊢
      have exact : MachineInt.wrap 32 (s.left.masterVersion + 1) = s.left.masterVersion + 1 := by
        refine (MachineInt.wrap_eq_self_iff (by decide)).2 ⟨?_, ?_⟩ <;> omega
      refine ⟨inv.masterSets v exact, ?_⟩
      obtain ⟨-, -, version, -⟩ | ⟨version, ahead, -, -, current, -⟩ :=
        RdPropertyBase.set_cases s.left v
      · show 0 ≤ (s.left.set v).1.masterVersion ∧ (s.left.set v).1.masterVersion ≤ _
        omega
      · rw [inv.master, if_pos rfl, exact] at ahead
        show 0 ≤ (s.left.set v).1.masterVersion ∧ (s.left.set v).1.masterVersion ≤ _
        omega
    | right acts =>
      obtain ⟨rfl, rfl⟩ := Prod.ext_iff.1 (Option.some.inj acts)
      exact ⟨inv.slaveSets _, positive, counted⟩
    | arriveRight oldest receives =>
      obtain ⟨rfl, rfl⟩ := Prod.ext_iff.1 (Option.some.inj receives)
      rw [List.append_nil]
      exact ⟨inv.slaveReceives oldest, positive, counted⟩
    | @arriveLeft m rest a sent oldest receives =>
      obtain ⟨rfl, rfl⟩ := Prod.ext_iff.1 (Option.some.inj receives)
      rw [List.append_nil]
      refine ⟨inv.masterReceives oldest, ?_⟩
      have kept : (s.left.onWireReceived m).masterVersion = s.left.masterVersion := by
        obtain ⟨-, -, same⟩ | ⟨accepted, -, version, -⟩ :=
          RdPropertyBase.onWireReceived_cases s.left m
        · rw [same]
        · rw [version]
          exact (inv.fresh_eq oldest fun old => accepted ⟨inv.master, old⟩).1
      show 0 ≤ (s.left.onWireReceived m).masterVersion ∧
        (s.left.onWireReceived m).masterVersion ≤ _
      rw [kept]
      exact ⟨positive, counted⟩

/-- Both sides may set the property at any time, the master fewer than 2 ^ 31 times.  Once nothing
is on its way they have the version of the master's last change, and they hold the same value,
unless they were bound with different ones and no side has changed its value. -/
theorem copies_agree_iff {es : List (DuplexEvent T T)} {s : PropertyPair T}
    (h : (machine initial initial').Run es s) (few : es.countP DuplexEvent.isLeft < 2 ^ 31)
    (settled : s.Settled) :
    s.left.masterVersion = s.right.masterVersion ∧
      (s.left.value = s.right.value ↔ initial = initial' ∨ s.Begun) := by
  obtain ⟨inv, -⟩ := inv_of_run h few
  obtain ⟨level, replay⟩ := inv.caughtUp settled.1
  rw [settled.2] at replay
  refine ⟨level.symm, fun same => ?_, replay⟩
  by_cases begun : s.Begun
  · exact Or.inr begun
  · obtain ⟨-, -, value, value'⟩ := inv.quiet begun
    exact Or.inl (by rw [← value, ← value', same])

/-- Both sides set the property before they hear of each other; the slave sets it once more after
it has heard. -/
def crossingSets : List (DuplexEvent ℕ ℕ) :=
  [.left 1, .right 2, .arriveRight, .right 3, .arriveLeft, .arriveLeft]

theorem copies_agree_iff_crossingSets : ∃ s, (machine (some 0) none).Run crossingSets s ∧
    s.left.masterVersion = s.right.masterVersion ∧ s.left.value = s.right.value := by
  have run := (machine (some 0) none).run_of_isSome crossingSets (by decide)
  obtain ⟨versions, agree⟩ := copies_agree_iff run (by decide) (by decide)
  exact ⟨_, run, versions, agree.2 (Or.inr (Or.inl (by decide)))⟩

end PropertyPair

end CarpenterDemo.Rd
