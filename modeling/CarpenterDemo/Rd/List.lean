import CarpenterDemo.Library.Duplex
import CarpenterDemo.Rd.ViewableList
import Mathlib.Data.Nat.Bitwise

/-!
# `RdList`: a list that one side changes at a time

`RdList` sends every event of a local change with a version and replays what it receives.  The
version counts sent and received events alike, and a received version that is not the expected one
is reported ("Are you modifying a list from two sides?") while the message is carried out all the
same.  The header packs the kind of the event into the lowest two bits, under the version.

Versions and indices are exact integers.  A message that cannot be carried out (an index that is out
of range, a missing value) is marked `broken`.

`agree_iff_uncrossed` says exactly when the report is made: in a run that has settled, there is no
report on either side if and only if neither side changed the list while changes of the other side
were on their way to it, and then the two lists are equal.
-/

namespace CarpenterDemo.Rd

inductive Op
  | ADD
  | UPDATE
  | REMOVE
  | ACK
  deriving DecidableEq, Repr

namespace Op

/-- The position in the enumeration, and of the kind of an event among the events. -/
def index : Op → ℕ
  | ADD => 0
  | UPDATE => 1
  | REMOVE => 2
  | ACK => 3

def ofIndex : ℕ → Op
  | 0 => ADD
  | 1 => UPDATE
  | 2 => REMOVE
  | _ => ACK

@[simp] theorem ofIndex_index (op : Op) : ofIndex op.index = op := by
  cases op <;> rfl

theorem index_lt (op : Op) : op.index < 2 ^ 2 := by
  cases op <;> decide

end Op

def ListEvent.op {T : Type*} : ListEvent T → Op
  | .add _ _ => .ADD
  | .update _ _ _ => .UPDATE
  | .remove _ _ => .REMOVE

def versionedFlagShift : ℕ := 2

structure ListMessage (T : Type*) where
  header : ℕ
  index : ℤ
  value : Option T
  deriving DecidableEq, Repr

namespace ListMessage

variable {T : Type*} (message : ListMessage T)

def version : ℕ := message.header >>> versionedFlagShift

def op : Op := .ofIndex (message.header &&& ((1 <<< versionedFlagShift) - 1))

/-- The message for an event. -/
def ofEvent (e : ListEvent T) (version : ℕ) : ListMessage T where
  header := e.op.index ||| (version <<< versionedFlagShift)
  index := e.getIndex
  value := e.getNewValue

theorem header_ofEvent (e : ListEvent T) (version : ℕ) :
    (ofEvent e version).header = version * 2 ^ 2 + e.op.index := by
  rw [ofEvent, versionedFlagShift, Nat.or_comm, ← Nat.shiftLeft_add_eq_or_of_lt e.op.index_lt,
    Nat.shiftLeft_eq]

@[simp] theorem version_ofEvent (e : ListEvent T) (version : ℕ) :
    (ofEvent e version).version = version := by
  have := e.op.index_lt
  rw [ListMessage.version, header_ofEvent, versionedFlagShift, Nat.shiftRight_eq_div_pow]
  omega

@[simp] theorem op_ofEvent (e : ListEvent T) (version : ℕ) : (ofEvent e version).op = e.op := by
  have := e.op.index_lt
  have mask : (1 <<< versionedFlagShift) - 1 = 2 ^ 2 - 1 := rfl
  rw [ListMessage.op, header_ofEvent, mask, Nat.and_two_pow_sub_one_eq_mod]
  have low : (version * 2 ^ 2 + e.op.index) % 2 ^ 2 = e.op.index := by omega
  rw [low, Op.ofIndex_index]

end ListMessage

structure RdList (T : Type*) where
  list : ViewableList T := []
  nextVersion : ℕ := 1
  /-- The reported conflicts, each with the expected and the received version. -/
  conflicts : List (ℕ × ℕ) := []
  broken : Bool := false
  deriving DecidableEq, Repr

namespace RdList

variable {T : Type*} [DecidableEq T] (self : RdList T)

/-- The handler that `init` advises, for an event of a local change. -/
def sendEvent {T : Type*} (self : RdList T) (e : ListEvent T) : RdList T × ListMessage T :=
  ({ self with nextVersion := self.nextVersion + 1 }, .ofEvent e self.nextVersion)

def sendEvents {T : Type*} : RdList T → List (ListEvent T) → RdList T × List (ListMessage T)
  | self, [] => (self, [])
  | self, e :: es =>
    let (self, message) := self.sendEvent e
    let (self, messages) := self.sendEvents es
    (self, message :: messages)

def localChange (op : ListOp T) : Option (RdList T × List (ListMessage T)) :=
  (self.list.run op).map fun (list, es) => { self with list := list }.sendEvents es

/-- The check of the version. -/
def checkVersion {T : Type*} (self : RdList T) (version : ℕ) : RdList T :=
  { self with
    conflicts :=
      if version = self.nextVersion then self.conflicts
      else self.conflicts ++ [(self.nextVersion, version)]
    nextVersion := self.nextVersion + 1 }

/-- The change that a message asks for. -/
def change {T : Type*} (self : RdList T) (message : ListMessage T) :
    Option (ViewableList T × List (ListEvent T)) :=
  match message.op with
  | .ADD => message.value.bind fun value =>
    if message.index < 0 then some (self.list.add value)
    else self.list.addAt message.index.toNat value
  | .UPDATE => message.value.bind fun value => self.list.set message.index.toNat value
  | .REMOVE => self.list.removeAt message.index.toNat
  | .ACK => some (self.list, [])

def onWireReceived {T : Type*} (self : RdList T) (message : ListMessage T) : RdList T :=
  let self := self.checkVersion message.version
  match self.change message with
  | some (list, _) => { self with list := list }
  | none => { self with broken := true }

def party : Party (RdList T) (ListOp T) (ListMessage T) (ListMessage T) where
  init := {}
  act self op := self.localChange op
  receive self message := some (self.onWireReceived message, [])

/-! ## What each function does -/

section Frame

variable {T : Type*} (self : RdList T)

/-- Events in the versions that follow `version`. -/
def messagesFrom : ℕ → List (ListEvent T) → List (ListMessage T)
  | _, [] => []
  | version, e :: es => .ofEvent e version :: messagesFrom (version + 1) es

theorem messagesFrom_append (version : ℕ) (es fs : List (ListEvent T)) :
    messagesFrom version (es ++ fs) =
      messagesFrom version es ++ messagesFrom (version + es.length) fs := by
  induction es generalizing version with
  | nil => rfl
  | cons e es ih =>
    rw [List.cons_append, messagesFrom, ih, messagesFrom, List.cons_append, List.length_cons,
      Nat.add_right_comm, Nat.add_assoc]

theorem sendEvents_eq (es : List (ListEvent T)) : self.sendEvents es =
    ({ self with nextVersion := self.nextVersion + es.length },
      messagesFrom self.nextVersion es) := by
  induction es generalizing self with
  | nil => rfl
  | cons e es ih =>
    simp only [sendEvents, sendEvent, ih, messagesFrom, List.length_cons]
    rw [Nat.add_right_comm, Nat.add_assoc]

theorem onWireReceived_conflicts (message : ListMessage T) :
    (self.onWireReceived message).conflicts =
      if message.version = self.nextVersion then self.conflicts
      else self.conflicts ++ [(self.nextVersion, message.version)] := by
  simp only [onWireReceived]
  split <;> rfl

end Frame

variable {self}

/-- An event that fits the list is replayed. -/
theorem onWireReceived_ofEvent {e : ListEvent T} {l : List T}
    (fits : ListEvent.applyTo self.list e = some l) :
    self.onWireReceived (.ofEvent e self.nextVersion) =
      { self with list := l, nextVersion := self.nextVersion + 1 } := by
  have changed : ∃ fired, (self.checkVersion self.nextVersion).change
      (.ofEvent e self.nextVersion) = some (l, fired) := by
    rw [change, ListMessage.op_ofEvent]
    cases e with
    | add index newValue =>
      obtain ⟨inside, ⟨⟩⟩ := Option.ite_none_right_eq_some.1 fits
      refine ⟨[.add index newValue], ?_⟩
      show (if (index : ℤ) < 0 then some (ViewableList.add self.list newValue)
        else ViewableList.addAt self.list index newValue) = _
      rw [if_neg (Int.not_lt.2 (Int.natCast_nonneg index)), ViewableList.addAt, if_pos inside]
    | update index oldValue newValue =>
      obtain ⟨found, ⟨⟩⟩ := Option.ite_none_right_eq_some.1 fits
      refine ⟨[.update index oldValue newValue], ?_⟩
      show ViewableList.set self.list index newValue = _
      rw [ViewableList.set, found, Option.map_some]
    | remove index oldValue =>
      obtain ⟨found, ⟨⟩⟩ := Option.ite_none_right_eq_some.1 fits
      refine ⟨[.remove index oldValue], ?_⟩
      show ViewableList.removeAt self.list index = _
      rw [ViewableList.removeAt, found, Option.map_some]
  obtain ⟨fired, changed⟩ := changed
  simp only [onWireReceived, ListMessage.version_ofEvent, changed]
  simp [checkVersion]

theorem localChange_spec {op : ListOp T} {self' : RdList T} {sent : List (ListMessage T)}
    (h : self.localChange op = some (self', sent)) : ∃ list es,
    ListEvent.replay self.list es = some list ∧
    self' = { self with list := list, nextVersion := self.nextVersion + es.length } ∧
    sent = messagesFrom self.nextVersion es := by
  obtain ⟨⟨list, es⟩, ran, changed⟩ := Option.map_eq_some_iff.1 h
  simp only [sendEvents_eq] at changed
  obtain ⟨rfl, rfl⟩ := Prod.ext_iff.1 changed
  exact ⟨list, es, ViewableList.replay_run ran, rfl, rfl⟩

end RdList

/-! ## One side changes the list -/

section OneSide

variable {T : Type*} [DecidableEq T] {x y : RdList T} {toY toX : List (ListMessage T)}

/-- Nothing is on its way to `x`, and what is on its way to `y` turns its list into that of `x`. -/
structure Follows (x y : RdList T) (toY toX : List (ListMessage T)) : Prop where
  idle : toX = []
  clean : (x.conflicts = [] ∧ y.conflicts = []) ∧ x.broken = false ∧ y.broken = false
  replays : ∃ es, toY = RdList.messagesFrom y.nextVersion es ∧
    ListEvent.replay y.list es = some x.list ∧ x.nextVersion = y.nextVersion + es.length

namespace Follows

/-- When `y` has heard everything, `x` follows `y` just as well. -/
theorem swap (h : Follows x y [] toX) : Follows y x toX [] := by
  obtain ⟨es, sent, replayed, versions⟩ := h.replays
  have none : es = [] := by
    cases es with
    | nil => rfl
    | cons e es => cases sent
  subst none
  refine ⟨rfl, ⟨h.clean.1.symm, h.clean.2.symm⟩, [], ?_, ?_, ?_⟩
  · exact h.idle
  · exact congrArg some (Option.some.inj replayed).symm
  · exact versions.symm

theorem leaderChanges (h : Follows x y toY toX) {op : ListOp T} {x' : RdList T}
    {sent : List (ListMessage T)} (acts : x.localChange op = some (x', sent)) :
    Follows x' y (toY ++ sent) toX := by
  obtain ⟨es, onWay, replayed, versions⟩ := h.replays
  obtain ⟨list, fs, replayed', rfl, rfl⟩ := RdList.localChange_spec acts
  refine ⟨h.idle, h.clean, es ++ fs, ?_, ?_, ?_⟩
  · rw [RdList.messagesFrom_append, onWay, versions]
  · rw [ListEvent.replay_append, replayed]
    exact replayed'
  · simp only [versions, List.length_append, Nat.add_assoc]

theorem followerReceives (h : Follows x y toY toX) {m : ListMessage T} {rest : List (ListMessage T)}
    (oldest : toY = m :: rest) : Follows x (y.onWireReceived m) rest toX := by
  obtain ⟨es, onWay, replayed, versions⟩ := h.replays
  rw [oldest] at onWay
  cases es with
  | nil => cases onWay
  | cons e es =>
    obtain ⟨rfl, rfl⟩ := List.cons.inj onWay
    rw [ListEvent.replay_cons, Option.bind_eq_some_iff] at replayed
    obtain ⟨l, first, replayed⟩ := replayed
    rw [RdList.onWireReceived_ofEvent first]
    refine ⟨h.idle, h.clean, es, rfl, replayed, ?_⟩
    show x.nextVersion = y.nextVersion + 1 + es.length
    rw [versions, List.length_cons]
    omega

/-- A follower's change that fires nothing changes nothing. -/
theorem followerSilent (h : Follows x y toY toX) {op : ListOp T} {y' : RdList T}
    (acts : y.localChange op = some (y', [])) : Follows x y' toY toX := by
  obtain ⟨list, es, replayed, rfl, sent⟩ := RdList.localChange_spec acts
  cases es with
  | cons e es => cases sent
  | nil =>
    obtain rfl : y.list = list := Option.some.inj replayed
    exact h

end Follows

/-- On both sides there is a report, or what is on its way to either side is out of date. -/
def Doomed (x y : RdList T) (toY toX : List (ListMessage T)) : Prop :=
  (x.conflicts ≠ [] ∨ y.conflicts ≠ []) ∨
    (∃ m ∈ toY.head?, m.version < y.nextVersion) ∧ ∃ m ∈ toX.head?, m.version < x.nextVersion

namespace Doomed

theorem symm {T : Type*} {x y : RdList T} {toY toX : List (ListMessage T)}
    (h : Doomed x y toY toX) : Doomed y x toX toY :=
  h.imp Or.symm And.symm

/-- A follower that changes the list before it has heard everything. -/
theorem of_crossing (h : Follows x y toY toX) {op : ListOp T} {y' : RdList T}
    {sent : List (ListMessage T)} (acts : y.localChange op = some (y', sent)) (onWay : toY ≠ [])
    (sends : sent ≠ []) : Doomed x y' toY (toX ++ sent) := by
  obtain ⟨es, rfl, -, versions⟩ := h.replays
  obtain ⟨list, fs, -, rfl, rfl⟩ := RdList.localChange_spec acts
  rw [h.idle]
  cases es with
  | nil => exact absurd rfl onWay
  | cons e es =>
    cases fs with
    | nil => exact absurd rfl sends
    | cons f fs =>
      refine Or.inr ⟨⟨_, rfl, ?_⟩, ⟨_, rfl, ?_⟩⟩
      · simp
      · simp [versions]

theorem change (h : Doomed x y toY toX) {op : ListOp T} {x' : RdList T}
    {sent : List (ListMessage T)} (acts : x.localChange op = some (x', sent)) :
    Doomed x' y (toY ++ sent) toX := by
  obtain ⟨list, es, -, rfl, rfl⟩ := RdList.localChange_spec acts
  refine h.imp id ?_
  rintro ⟨⟨m, first, stale⟩, m', first', stale'⟩
  refine ⟨⟨m, ?_, stale⟩, m', first', Nat.lt_add_right _ stale'⟩
  rw [List.head?_append, Option.mem_def.1 first]
  rfl

theorem receive {T : Type*} {x y : RdList T} {toY toX : List (ListMessage T)}
    (h : Doomed x y toY toX) {m : ListMessage T} {rest : List (ListMessage T)}
    (oldest : toY = m :: rest) : Doomed x (y.onWireReceived m) rest toX := by
  refine Or.inl ?_
  rcases h with (reported | reported) | ⟨⟨m', first, stale⟩, -⟩
  · exact Or.inl reported
  · refine Or.inr ?_
    rw [RdList.onWireReceived_conflicts]
    split_ifs
    · exact reported
    · simp
  · -- the oldest message is out of date
    obtain rfl : m = m' := by simpa [oldest] using first
    refine Or.inr ?_
    rw [RdList.onWireReceived_conflicts, if_neg (Nat.ne_of_lt stale)]
    simp

end Doomed

/-- One of the two sides follows the other. -/
def InStep (x y : RdList T) (toY toX : List (ListMessage T)) : Prop :=
  Follows x y toY toX ∨ Follows y x toX toY

namespace InStep

theorem symm (h : InStep x y toY toX) : InStep y x toX toY := h.elim Or.inr Or.inl

theorem change (h : InStep x y toY toX) {op : ListOp T} {x' : RdList T}
    {sent : List (ListMessage T)} (acts : x.localChange op = some (x', sent))
    (free : toX = [] ∨ sent = []) : InStep x' y (toY ++ sent) toX := by
  rcases h with h | h
  · exact Or.inl (h.leaderChanges acts)
  · rcases free with rfl | rfl
    · exact Or.inl (h.swap.leaderChanges acts)
    · rw [List.append_nil]
      exact Or.inr (h.followerSilent acts)

theorem receive (h : InStep x y toY toX) {m : ListMessage T} {rest : List (ListMessage T)}
    (oldest : toY = m :: rest) : InStep x (y.onWireReceived m) rest toX := by
  rcases h with h | h
  · exact Or.inl (h.followerReceives oldest)
  · exact absurd (h.idle.symm.trans oldest) (List.cons_ne_nil m rest).symm

theorem crosses (h : InStep x y toY toX) {op : ListOp T} {x' : RdList T}
    {sent : List (ListMessage T)} (acts : x.localChange op = some (x', sent))
    (crossed : ¬ (toX = [] ∨ sent = [])) : Doomed x' y (toY ++ sent) toX := by
  rw [not_or] at crossed
  rcases h with h | h
  · exact absurd h.idle crossed.1
  · exact (Doomed.of_crossing h acts crossed.1 crossed.2).symm

end InStep

end OneSide

/-- The two sides of a list. -/
abbrev ListPair (T : Type*) := Duplex (RdList T) (RdList T) (ListMessage T) (ListMessage T)

namespace ListPair

open Duplex

variable {T : Type*} [DecidableEq T] {s s' : ListPair T}

def machine : Machine (ListPair T) (DuplexEvent (ListOp T) (ListOp T)) :=
  Duplex.machine RdList.party RdList.party

/-- A side changes the list only when no changes of the other side are on their way to it. -/
def Uncrossed (s : ListPair T) : DuplexEvent (ListOp T) (ListOp T) → Prop
  | .left op => s.toLeft = [] ∨ (s.left.localChange op).map Prod.snd = some []
  | .right op => s.toRight = [] ∨ (s.right.localChange op).map Prod.snd = some []
  | .arriveRight => True
  | .arriveLeft => True

instance (s : ListPair T) : DecidablePred s.Uncrossed := fun e => by
  cases e <;> unfold Uncrossed <;> infer_instance

theorem silent_iff {x x' : RdList T} {op : ListOp T} {sent : List (ListMessage T)}
    (acts : x.localChange op = some (x', sent)) :
    (x.localChange op).map Prod.snd = some [] ↔ sent = [] := by
  rw [acts, Option.map_some, Option.some_inj]

theorem inStep_step {e : DuplexEvent (ListOp T) (ListOp T)}
    (h : InStep s.left s.right s.toRight s.toLeft) (free : s.Uncrossed e)
    (hs : machine.step s e = some s') : InStep s'.left s'.right s'.toRight s'.toLeft := by
  cases Duplex.step_sound hs with
  | left acts => exact h.change acts (free.imp_right (silent_iff acts).1)
  | right acts => exact (h.symm.change acts (free.imp_right (silent_iff acts).1)).symm
  | arriveRight oldest receives =>
    obtain ⟨rfl, rfl⟩ := Prod.ext_iff.1 (Option.some.inj receives)
    simpa using h.receive oldest
  | arriveLeft oldest receives =>
    obtain ⟨rfl, rfl⟩ := Prod.ext_iff.1 (Option.some.inj receives)
    simpa using (h.symm.receive oldest).symm

theorem doomed_of_crossed {e : DuplexEvent (ListOp T) (ListOp T)}
    (h : InStep s.left s.right s.toRight s.toLeft) (crossed : ¬ s.Uncrossed e)
    (hs : machine.step s e = some s') : Doomed s'.left s'.right s'.toRight s'.toLeft := by
  cases Duplex.step_sound hs with
  | left acts => exact h.crosses acts fun free => crossed (free.imp_right (silent_iff acts).2)
  | right acts =>
    exact (h.symm.crosses acts fun free => crossed (free.imp_right (silent_iff acts).2)).symm
  | arriveRight => exact absurd trivial crossed
  | arriveLeft => exact absurd trivial crossed

theorem doomed_step {e : DuplexEvent (ListOp T) (ListOp T)}
    (h : Doomed s.left s.right s.toRight s.toLeft) (hs : machine.step s e = some s') :
    Doomed s'.left s'.right s'.toRight s'.toLeft := by
  cases Duplex.step_sound hs with
  | left acts => exact h.change acts
  | right acts => exact (h.symm.change acts).symm
  | arriveRight oldest receives =>
    obtain ⟨rfl, rfl⟩ := Prod.ext_iff.1 (Option.some.inj receives)
    simpa using h.receive oldest
  | arriveLeft oldest receives =>
    obtain ⟨rfl, rfl⟩ := Prod.ext_iff.1 (Option.some.inj receives)
    simpa using (h.symm.receive oldest).symm

/-- Until the first crossing one side follows the other; from then on a report is unavoidable. -/
theorem inStep_or_doomed {es : List (DuplexEvent (ListOp T) (ListOp T))} {s : ListPair T}
    (h : machine.Run es s) :
    (machine.Along es Uncrossed → InStep s.left s.right s.toRight s.toLeft) ∧
      (¬ machine.Along es Uncrossed → Doomed s.left s.right s.toRight s.toLeft) := by
  induction h with
  | nil =>
    refine ⟨fun _ => Or.inl ⟨rfl, ⟨⟨rfl, rfl⟩, rfl, rfl⟩, [], rfl, rfl, rfl⟩, fun crossed => ?_⟩
    exact absurd (Machine.along_nil Uncrossed) crossed
  | @snoc es s s' e hr hs ih =>
    rw [Machine.along_snoc_iff hr]
    refine ⟨fun free => inStep_step (ih.1 free.1) free.2 hs, fun crossed => ?_⟩
    by_cases before : machine.Along es Uncrossed
    · exact doomed_of_crossed (ih.1 before) (fun free => crossed ⟨before, free⟩) hs
    · exact doomed_step (ih.2 before) hs

/-- In a run that has settled, no conflict is reported on either side exactly when no side changed
the list while changes of the other side were on their way to it.  Then both lists are the same, and
every message could be carried out. -/
theorem agree_iff_uncrossed {es : List (DuplexEvent (ListOp T) (ListOp T))} {s : ListPair T}
    (h : machine.Run es s) (settled : s.Settled) :
    (s.left.conflicts = [] ∧ s.right.conflicts = [] ↔ machine.Along es Uncrossed) ∧
      (machine.Along es Uncrossed → s.left.list = s.right.list ∧
        s.left.nextVersion = s.right.nextVersion ∧ s.left.broken = false ∧
        s.right.broken = false) := by
  obtain ⟨inStep, doomed⟩ := inStep_or_doomed h
  have follows : machine.Along es Uncrossed → Follows s.left s.right [] [] := fun free => by
    have := inStep free
    rw [settled.1, settled.2] at this
    exact this.elim id Follows.swap
  refine ⟨⟨fun clean => ?_, fun free => (follows free).clean.1⟩, fun free => ?_⟩
  · by_contra crossed
    rcases doomed crossed with (reported | reported) | ⟨⟨m, first, -⟩, -⟩
    · exact reported clean.1
    · exact reported clean.2
    · simp [settled.1] at first
  · obtain ⟨-, ⟨-, left, right⟩, es, sent, replayed, versions⟩ := follows free
    cases es with
    | cons e es => cases sent
    | nil => exact ⟨(Option.some.inj replayed).symm, versions, left, right⟩

/-- Both sides change the list in turn, each after it has heard of the other's changes. -/
def takingTurns : List (DuplexEvent (ListOp ℕ) (ListOp ℕ)) :=
  [.left (.addAll [4, 5]), .arriveRight, .arriveRight, .right (.set 0 6), .right (.addAt 1 7),
    .arriveLeft, .arriveLeft, .left (.remove 5), .arriveRight]

theorem agree_iff_uncrossed_takingTurns : ∃ s : ListPair ℕ, machine.Run takingTurns s ∧
    s.left.list = [6, 7] ∧ s.left.conflicts = [] ∧ s.right.conflicts = [] ∧
      s.left.list = s.right.list ∧ s.left.nextVersion = s.right.nextVersion ∧
      s.left.broken = false ∧ s.right.broken = false := by
  have run := machine.run_of_isSome takingTurns (by decide)
  have free := machine.along_of_check Uncrossed takingTurns (by decide)
  obtain ⟨unmixed, agree⟩ := agree_iff_uncrossed run (by decide)
  obtain ⟨left, right⟩ := unmixed.2 free
  exact ⟨_, run, by decide, left, right, agree free⟩

end ListPair

end CarpenterDemo.Rd
