import CarpenterDemo.Library.Duplex
import Mathlib.Data.List.Basic

/-!
# `RdExtBase` and its `ExtWire`: nothing is sent before the counterpart is there

Both sides of an extension bind it when they like.  What the extension sends is held back in `sendQ`
until the counterpart has said that it is there: each side says `Ready` when it is bound and answers
the other's `Ready` with `ReceivedCounterpart`.  A state that arrives at a side that has not been
bound is lost.  `connected` is reset by the counterpart's `Disconnected` only.

`ExtWire::send` holds its lock while it runs the writer of a message that it holds back.  The lock
is not recursive: if the writer sends through the extension itself, the thread waits for itself.

On each side one thread sends, and what arrives is handled in the order of the wire.  `sent`,
`arrived` and `early` are additions of the model: what the extension has been told to send, what has
arrived for it, and whether any of it came before it was bound.

`arrives_after_binding`: if each side binds at most once, and no writer of a message that is held
back sends anything itself, nothing arrives at a side that has not been bound, what arrives is what
was sent, in its order, and once both sides are bound and nothing is on its way, all of it has
arrived.
-/

namespace CarpenterDemo.Rd

inductive ExtState
  | ready
  | receivedCounterpart
  | disconnected
  deriving DecidableEq, Repr

/-- A state of the counterpart with its serialization hash, or what `ExtWire` passes on. -/
inductive ExtMessage (M : Type*)
  | state (remoteState : ExtState) (counterpartSerializationHash : ℤ)
  | payload (message : M)
  deriving DecidableEq, Repr

inductive Binding
  | never
  | bound
  | ended
  deriving DecidableEq, Repr

/-- A function that writes a message; `inner` is what it sends through the extension itself while it
runs. -/
structure Writer (M : Type*) where
  inner : List M := []
  message : M
  deriving DecidableEq, Repr

/-- An extension with its `ExtWire`. -/
structure RdExtBase (M : Type*) where
  serializationHash : ℤ
  binding : Binding := .never
  connected : Bool := false
  sendQ : List M := []
  /-- The assertion on the serialization hashes has failed. -/
  asserted : Bool := false
  /-- A thread that holds the lock has asked for it again. -/
  deadlocked : Bool := false
  sent : List M := []
  arrived : List M := []
  early : Bool := false
  deriving DecidableEq, Repr

inductive ExtOp (M : Type*)
  | init
  | send (writer : Writer M)
  /-- The lifetime of the binding ends. -/
  | terminate
  deriving DecidableEq, Repr

namespace RdExtBase

variable {M : Type*} (self : RdExtBase M)

def sendState (state : ExtState) : List (ExtMessage M) := [.state state self.serializationHash]

/-- `connected.set(true)`, with what the handler of `connected` takes out of `sendQ`. -/
def connect : RdExtBase M × List (ExtMessage M) :=
  if self.connected then (self, [])
  else ({ self with connected := true, sendQ := [] }, self.sendQ.map .payload)

/-- `ExtWire::send` -/
def send (writer : Writer M) : RdExtBase M × List (ExtMessage M) :=
  if self.sendQ ≠ [] ∨ ¬ self.connected then
    match writer.inner with
    | [] =>
      ({ self with
          sendQ := self.sendQ ++ [writer.message]
          sent := self.sent ++ [writer.message] }, [])
    | _ :: _ => ({ self with deadlocked := true }, [])
  else
    let messages := writer.inner ++ [writer.message]
    ({ self with sent := self.sent ++ messages }, messages.map .payload)

def onWireReceived (remoteState : ExtState) (counterpartSerializationHash : ℤ) :
    RdExtBase M × List (ExtMessage M) :=
  let (self, sent) :=
    match remoteState with
    | .ready =>
      let (connected, flushed) := self.connect
      (connected, self.sendState .receivedCounterpart ++ flushed)
    | .receivedCounterpart => self.connect
    | .disconnected => ({ self with connected := false }, [])
  ({ self with
      asserted :=
        self.asserted || decide (self.serializationHash ≠ counterpartSerializationHash) }, sent)

def act : ExtOp M → Option (RdExtBase M × List (ExtMessage M))
  | .init =>
    if self.binding ≠ .bound then some ({ self with binding := .bound }, self.sendState .ready)
    else none
  | .send writer => some (self.send writer)
  | .terminate =>
    if self.binding = .bound then
      some ({ self with binding := .ended }, self.sendState .disconnected)
    else none

def receive : ExtMessage M → RdExtBase M × List (ExtMessage M)
  | .state remoteState hash =>
    if self.binding = .bound then self.onWireReceived remoteState hash else (self, [])
  | .payload message =>
    ({ self with
        arrived := self.arrived ++ [message]
        early := self.early || decide (self.binding = .never) }, [])

def party (serializationHash : ℤ) :
    Party (RdExtBase M) (ExtOp M) (ExtMessage M) (ExtMessage M) where
  init := { serializationHash := serializationHash }
  act := act
  receive self message := some (self.receive message)

/-! ## One direction -/

variable {self}

/-- What is on the way to be passed on. -/
def payloads (queue : List (ExtMessage M)) : List M :=
  queue.filterMap fun
    | .payload message => some message
    | .state _ _ => none

@[simp] theorem payloads_append (queue rest : List (ExtMessage M)) :
    payloads (queue ++ rest) = payloads queue ++ payloads rest := List.filterMap_append

@[simp] theorem payloads_map_payload (messages : List M) :
    payloads (messages.map .payload) = messages := by
  simp [payloads, List.filterMap_map]

@[simp] theorem payloads_sendState (state : ExtState) : payloads (self.sendState state) = [] := rfl

/-- `queue` is on the way from `a` to `b`, and `back` on the way back. -/
structure Toward (a b : RdExtBase M) (queue back : List (ExtMessage M)) : Prop where
  all : a.sent = b.arrived ++ payloads queue ++ a.sendQ
  emptied : a.connected = true → a.sendQ = []
  began : a.connected = true → a.binding ≠ .never
  /-- Who is connected has heard from the other side. -/
  heard : a.connected = true → b.binding ≠ .never
  bound : queue ≠ [] → a.binding ≠ .never
  addressed : payloads queue ≠ [] → b.binding ≠ .never
  early : b.early = false
  free : a.deadlocked = false
  ended : ∀ hash, .state .disconnected hash ∈ queue → a.binding = .ended
  /-- Two bound sides are connected or will hear of each other. -/
  greeted : a.binding = .bound → b.binding = .bound → a.connected = true ∨
    (∃ hash, .state .ready hash ∈ queue) ∨
      ∃ state hash, .state state hash ∈ back ∧ state ≠ .disconnected
  hashes : ∀ state hash, .state state hash ∈ queue → hash = a.serializationHash
  asserted : b.asserted = true → a.serializationHash ≠ b.serializationHash

theorem Toward.connect_eq {a b : RdExtBase M} {queue back : List (ExtMessage M)}
    (h : Toward a b queue back) :
    a.connect = ({ a with connected := true, sendQ := [] }, a.sendQ.map .payload) := by
  unfold connect
  split_ifs with connected
  · have emptied := h.emptied connected
    obtain ⟨_, _, _, _, _, _, _, _⟩ := a
    simp only at emptied connected
    simp [emptied, connected]
  · rfl

section Steps

variable {a b : RdExtBase M} {queue back : List (ExtMessage M)}

theorem Toward.init (ab : Toward a b queue back) (ba : Toward b a back queue)
    (never : a.binding = .never) :
    Toward { a with binding := .bound } b (queue ++ a.sendState .ready) back ∧
      Toward b { a with binding := .bound } back (queue ++ a.sendState .ready) := by
  obtain rfl : queue = [] := by
    by_contra sent
    exact ab.bound sent never
  constructor
  · refine ⟨ab.all, ab.emptied, nofun, ab.heard, nofun, ab.addressed, ab.early, ab.free, ?_,
      fun _ _ => ?_, ?_, ab.asserted⟩
    · simp [sendState]
    · exact Or.inr (Or.inl ⟨a.serializationHash, List.mem_singleton.2 rfl⟩)
    · simp [sendState]
  · refine ⟨ba.all, ba.emptied, ba.began, nofun, ba.bound, nofun, ba.early, ba.free, ba.ended,
      fun _ _ => ?_, ba.hashes, ba.asserted⟩
    exact Or.inr (Or.inr ⟨.ready, a.serializationHash, List.mem_singleton.2 rfl, nofun⟩)

theorem Toward.send (ab : Toward a b queue back) (ba : Toward b a back queue) {writer : Writer M}
    (plain : writer.inner = [] ∨ (a.connected = true ∧ a.sendQ = [])) :
    Toward (a.send writer).1 b (queue ++ (a.send writer).2) back ∧
      Toward b (a.send writer).1 back (queue ++ (a.send writer).2) := by
  by_cases held : a.sendQ ≠ [] ∨ ¬ a.connected = true
  · have alone : writer.inner = [] := by
      rcases plain with alone | ⟨connected, empty⟩
      · exact alone
      · rcases held with held | held
        · exact absurd empty held
        · exact absurd connected held
    have waits : a.send writer =
        ({ a with
            sendQ := a.sendQ ++ [writer.message]
            sent := a.sent ++ [writer.message] }, []) := by
      simp only [RdExtBase.send, alone]
      rw [if_pos held]
    have notYet : a.connected ≠ true := by
      rcases held with held | held
      · exact fun connected => held (ab.emptied connected)
      · exact held
    rw [waits, List.append_nil]
    constructor
    · refine ⟨?_, fun connected => absurd connected notYet, ab.began, ab.heard, ab.bound,
        ab.addressed, ab.early, ab.free, ab.ended, ab.greeted, ab.hashes, ab.asserted⟩
      show a.sent ++ [writer.message] = _
      rw [ab.all, List.append_assoc]
    · exact ⟨ba.all, ba.emptied, ba.began, ba.heard, ba.bound, ba.addressed, ba.early, ba.free,
        ba.ended, ba.greeted, ba.hashes, ba.asserted⟩
  · obtain ⟨empty, connected⟩ : a.sendQ = [] ∧ a.connected = true := by simpa using held
    have passes : a.send writer =
        ({ a with sent := a.sent ++ (writer.inner ++ [writer.message]) },
          (writer.inner ++ [writer.message]).map .payload) := by
      simp only [RdExtBase.send]
      rw [if_neg held]
    rw [passes]
    generalize writer.inner ++ [writer.message] = messages
    constructor
    · refine ⟨?_, ab.emptied, ab.began, ab.heard, fun _ => ab.began connected,
        fun _ => ab.heard connected, ab.early, ab.free, ?_, fun _ _ => Or.inl connected, ?_,
        ab.asserted⟩
      · show a.sent ++ messages = _
        rw [ab.all, empty]
        simp
      · simpa using ab.ended
      · simpa using ab.hashes
    · refine ⟨ba.all, ba.emptied, ba.began, ba.heard, ba.bound, ba.addressed, ba.early, ba.free,
        ba.ended, ?_, ba.hashes, ba.asserted⟩
      simpa using ba.greeted

theorem Toward.terminate (ab : Toward a b queue back) (ba : Toward b a back queue) :
    Toward { a with binding := .ended } b (queue ++ a.sendState .disconnected) back ∧
      Toward b { a with binding := .ended } back (queue ++ a.sendState .disconnected) := by
  constructor
  · refine ⟨?_, ab.emptied, nofun, ab.heard, nofun, ?_, ab.early, ab.free, fun _ _ => rfl, nofun,
      ?_, ab.asserted⟩
    · simpa using ab.all
    · simpa using ab.addressed
    · intro state hash h
      rcases List.mem_append.1 h with h | h
      · exact ab.hashes state hash h
      · simp only [sendState, List.mem_singleton, ExtMessage.state.injEq] at h
        exact h.2
  · exact ⟨ba.all, ba.emptied, ba.began, nofun, ba.bound, nofun, ba.early, ba.free, ba.ended,
      fun _ => nofun, ba.hashes, ba.asserted⟩

/-- The side binds once, and the writer of a message that is held back sends nothing itself. -/
def Steady (a : RdExtBase M) : ExtOp M → Prop
  | .init => a.binding = .never
  | .send writer => writer.inner = [] ∨ (a.connected = true ∧ a.sendQ = [])
  | .terminate => True

theorem Toward.act (ab : Toward a b queue back) (ba : Toward b a back queue) {op : ExtOp M}
    (steady : a.Steady op) {a' : RdExtBase M} {sent : List (ExtMessage M)}
    (acts : a.act op = some (a', sent)) :
    Toward a' b (queue ++ sent) back ∧ Toward b a' back (queue ++ sent) := by
  cases op with
  | init =>
    obtain ⟨-, ⟨⟩⟩ := Option.ite_none_right_eq_some.1 acts
    exact ab.init ba steady
  | send writer =>
    obtain ⟨rfl, rfl⟩ := Prod.ext_iff.1 (Option.some.inj acts)
    exact ab.send ba steady
  | terminate =>
    obtain ⟨-, ⟨⟩⟩ := Option.ite_none_right_eq_some.1 acts
    exact ab.terminate ba

theorem Toward.arrive {message : M} (ab : Toward a b (.payload message :: queue) back)
    (ba : Toward b a back (.payload message :: queue)) :
    Toward a (b.receive (.payload message)).1 queue back ∧
      Toward (b.receive (.payload message)).1 a back queue := by
  have there : b.binding ≠ .never := ab.addressed nofun
  constructor
  · refine ⟨?_, ab.emptied, ab.began, ab.heard, fun _ => ab.bound nofun, fun _ => there, ?_,
      ab.free, ?_, ?_, ?_, ab.asserted⟩
    · rw [ab.all]
      simp [receive, payloads]
    · simp [receive, ab.early, there]
    · simpa using ab.ended
    · simpa [receive] using ab.greeted
    · simpa using ab.hashes
  · refine ⟨ba.all, ba.emptied, ba.began, ba.heard, ba.bound, ba.addressed, ba.early, ba.free,
      ba.ended, ?_, ba.hashes, ba.asserted⟩
    simpa [receive] using ba.greeted

/-- A side that is not bound hears nothing. -/
theorem Toward.lost {state : ExtState} {hash : ℤ}
    (ab : Toward a b (.state state hash :: queue) back)
    (ba : Toward b a back (.state state hash :: queue)) (deaf : b.binding ≠ .bound) :
    Toward a b queue back ∧ Toward b a back queue :=
  ⟨⟨ab.all, ab.emptied, ab.began, ab.heard, fun _ => ab.bound nofun, ab.addressed, ab.early,
      ab.free, fun hash h => ab.ended hash (List.mem_cons_of_mem _ h),
      fun _ bound => absurd bound deaf,
      fun state hash h => ab.hashes state hash (List.mem_cons_of_mem _ h), ab.asserted⟩,
    ⟨ba.all, ba.emptied, ba.began, ba.heard, ba.bound, ba.addressed, ba.early, ba.free, ba.ended,
      fun bound => absurd bound deaf, ba.hashes, ba.asserted⟩⟩

/-- The side `b` after it has connected. -/
def joined (b : RdExtBase M) (hash : ℤ) : RdExtBase M :=
  { b with
    connected := true
    sendQ := []
    asserted := b.asserted || decide (b.serializationHash ≠ hash) }

/-- A bound side connects and passes on what it has held back, perhaps after an answer. -/
theorem Toward.connect {state : ExtState} {hash : ℤ} {answer : List (ExtMessage M)}
    (ab : Toward a b (.state state hash :: queue) back)
    (ba : Toward b a back (.state state hash :: queue)) (bound : b.binding = .bound)
    (states : payloads answer = [])
    (replies : ∀ state hash, .state state hash ∈ answer →
      state = .receivedCounterpart ∧ hash = b.serializationHash)
    (answered : state = .ready → ∃ state hash, .state state hash ∈ answer) :
    Toward a (b.joined hash) queue (back ++ (answer ++ b.sendQ.map .payload)) ∧
      Toward (b.joined hash) a (back ++ (answer ++ b.sendQ.map .payload)) queue := by
  have here : b.binding ≠ .never := by rw [bound]; nofun
  constructor
  · refine ⟨ab.all, ab.emptied, ab.began, ab.heard, fun _ => ab.bound nofun, fun _ => here,
      ab.early, ab.free, fun hash h => ab.ended hash (List.mem_cons_of_mem _ h), fun alive _ => ?_,
      fun state hash h => ab.hashes state hash (List.mem_cons_of_mem _ h), fun asserted => ?_⟩
    · have old := ab.greeted alive bound
      rcases old with connected | ⟨h, hello⟩ | ⟨state', h, hello, other⟩
      · exact Or.inl connected
      · rcases List.mem_cons.1 hello with this | later
        · cases this
          obtain ⟨state', h', hello⟩ := answered rfl
          obtain ⟨rfl, -⟩ := replies state' h' hello
          refine Or.inr (Or.inr ⟨.receivedCounterpart, h', ?_, nofun⟩)
          exact List.mem_append_right _ (List.mem_append_left _ hello)
        · exact Or.inr (Or.inl ⟨h, later⟩)
      · exact Or.inr (Or.inr ⟨state', h, List.mem_append_left _ hello, other⟩)
    · obtain old | new := (Bool.or_eq_true _ _).mp asserted
      · exact ab.asserted old
      · have same := ab.hashes state hash List.mem_cons_self
        rw [← same]
        exact Ne.symm (of_decide_eq_true new)
  · refine ⟨?_, fun _ => rfl, fun _ => here, fun _ => ab.bound nofun, fun _ => here,
      fun _ => ab.bound nofun, ba.early, ba.free, fun hash h => ?_, fun _ _ => Or.inl rfl,
      fun state hash h => ?_, ba.asserted⟩
    · show b.sent = a.arrived ++ payloads (back ++ (answer ++ b.sendQ.map .payload)) ++ []
      rw [ba.all]
      simp [states]
    · rcases List.mem_append.1 h with h | h
      · exact ba.ended hash h
      · rcases List.mem_append.1 h with h | h
        · cases (replies _ _ h).1
        · simp at h
    · rcases List.mem_append.1 h with h | h
      · exact ba.hashes state hash h
      · rcases List.mem_append.1 h with h | h
        · exact (replies _ _ h).2
        · simp at h

theorem Toward.disconnect {hash : ℤ} (ab : Toward a b (.state .disconnected hash :: queue) back)
    (ba : Toward b a back (.state .disconnected hash :: queue)) {asserted : Bool}
    (differ : asserted = true → a.serializationHash ≠ b.serializationHash) :
    Toward a { b with connected := false, asserted := asserted } queue back ∧
      Toward { b with connected := false, asserted := asserted } a back queue := by
  have ended : a.binding = .ended := ab.ended hash List.mem_cons_self
  constructor
  · refine ⟨ab.all, ab.emptied, ab.began, ab.heard, fun _ => ab.bound nofun, ab.addressed, ab.early,
      ab.free, fun _ _ => ended, ?_,
      fun state hash h => ab.hashes state hash (List.mem_cons_of_mem _ h), differ⟩
    rw [ended]
    nofun
  · refine ⟨ba.all, nofun, nofun, nofun, ba.bound, ba.addressed, ba.early, ba.free, ba.ended, ?_,
      ba.hashes, ba.asserted⟩
    rw [ended]
    nofun

theorem Toward.receive {m : ExtMessage M} (ab : Toward a b (m :: queue) back)
    (ba : Toward b a back (m :: queue)) :
    Toward a (b.receive m).1 queue (back ++ (b.receive m).2) ∧
      Toward (b.receive m).1 a (back ++ (b.receive m).2) queue := by
  cases m with
  | payload message =>
    rw [RdExtBase.receive, List.append_nil]
    exact ab.arrive ba
  | state state hash =>
    by_cases bound : b.binding = .bound
    · rw [RdExtBase.receive, if_pos bound]
      cases state with
      | ready =>
        have answers : b.onWireReceived .ready hash =
            (b.joined hash, b.sendState .receivedCounterpart ++ b.sendQ.map .payload) := by
          simp only [onWireReceived, ba.connect_eq]
          rfl
        rw [answers]
        exact ab.connect ba bound rfl (by simp [sendState])
          fun _ => ⟨_, _, List.mem_singleton.2 rfl⟩
      | receivedCounterpart =>
        have hears : b.onWireReceived .receivedCounterpart hash =
            (b.joined hash, [] ++ b.sendQ.map .payload) := by
          simp only [onWireReceived, ba.connect_eq]
          rfl
        rw [hears]
        exact ab.connect ba bound rfl nofun nofun
      | disconnected =>
        rw [onWireReceived, List.append_nil]
        refine ab.disconnect ba fun asserted => ?_
        obtain old | new := (Bool.or_eq_true _ _).mp asserted
        · exact ab.asserted old
        · rw [← ab.hashes _ hash List.mem_cons_self]
          exact Ne.symm (of_decide_eq_true new)
    · rw [RdExtBase.receive, if_neg bound, List.append_nil]
      exact ab.lost ba bound

end Steps

end RdExtBase

/-- The two sides of an extension. -/
abbrev ExtPair (M : Type*) := Duplex (RdExtBase M) (RdExtBase M) (ExtMessage M) (ExtMessage M)

namespace ExtPair

variable {M : Type*}

variable (M) in
def machine (left right : ℤ) : Machine (ExtPair M) (DuplexEvent (ExtOp M) (ExtOp M)) :=
  Duplex.machine (RdExtBase.party left) (RdExtBase.party right)

/-- Each side is steady. -/
def Steady (s : ExtPair M) : DuplexEvent (ExtOp M) (ExtOp M) → Prop
  | .left op => s.left.Steady op
  | .right op => s.right.Steady op
  | _ => True

instance [DecidableEq M] (s : ExtPair M) (e : DuplexEvent (ExtOp M) (ExtOp M)) :
    Decidable (s.Steady e) := by
  rcases e with (_ | _ | _) | (_ | _ | _) | - | - <;> unfold Steady <;>
    first | infer_instance | (unfold RdExtBase.Steady; infer_instance)

structure Inv (s : ExtPair M) : Prop where
  toRight : RdExtBase.Toward s.left s.right s.toRight s.toLeft
  toLeft : RdExtBase.Toward s.right s.left s.toLeft s.toRight

theorem inv_init (left right : ℤ) : (machine M left right).init.Inv := by
  have idle : ∀ hash hash', RdExtBase.Toward (M := M) { serializationHash := hash }
      { serializationHash := hash' } [] [] :=
    fun _ _ => ⟨rfl, nofun, nofun, nofun, fun h => absurd rfl h, fun h => absurd rfl h, rfl, rfl,
      nofun, nofun, nofun, nofun⟩
  exact ⟨idle left right, idle right left⟩

theorem inv_of_run {left right : ℤ} {es : List (DuplexEvent (ExtOp M) (ExtOp M))} {s : ExtPair M}
    (h : (machine M left right).Run es s) (steady : (machine M left right).Along es Steady) :
    s.Inv := by
  refine h.invariant_along (inv_init left right) (fun {s s' e} hi steady hs => ?_) steady
  cases Duplex.step_sound hs with
  | left acts =>
    obtain ⟨toRight, toLeft⟩ := hi.toRight.act hi.toLeft steady acts
    exact ⟨toRight, toLeft⟩
  | right acts =>
    obtain ⟨toLeft, toRight⟩ := hi.toLeft.act hi.toRight steady acts
    exact ⟨toRight, toLeft⟩
  | arriveRight oldest receives =>
    obtain ⟨rfl, rfl⟩ := Prod.ext_iff.1 (Option.some.inj receives)
    have toRight := hi.toRight
    have toLeft := hi.toLeft
    rw [oldest] at toRight toLeft
    obtain ⟨toRight, toLeft⟩ := toRight.receive toLeft
    exact ⟨toRight, toLeft⟩
  | arriveLeft oldest receives =>
    obtain ⟨rfl, rfl⟩ := Prod.ext_iff.1 (Option.some.inj receives)
    have toRight := hi.toRight
    have toLeft := hi.toLeft
    rw [oldest] at toRight toLeft
    obtain ⟨toLeft, toRight⟩ := toLeft.receive toRight
    exact ⟨toRight, toLeft⟩

/-- Whenever the two sides bind and end their extension and whatever they send: no thread waits for
itself; nothing arrives at a side before it has been bound; what has arrived, what is on the way and
what is held back make up what was sent, in its order; the assertion on the hashes fails only if
they differ; and once both sides are bound and nothing is on its way, all that was sent has
arrived. -/
theorem arrives_after_binding {left right : ℤ} {es : List (DuplexEvent (ExtOp M) (ExtOp M))}
    {s : ExtPair M} (h : (machine M left right).Run es s)
    (steady : (machine M left right).Along es Steady) :
    (s.left.deadlocked = false ∧ s.right.deadlocked = false) ∧
      (s.left.early = false ∧ s.right.early = false) ∧
      s.left.sent = s.right.arrived ++ RdExtBase.payloads s.toRight ++ s.left.sendQ ∧
      s.right.sent = s.left.arrived ++ RdExtBase.payloads s.toLeft ++ s.right.sendQ ∧
      (s.left.asserted = true ∨ s.right.asserted = true →
        s.left.serializationHash ≠ s.right.serializationHash) ∧
      (s.left.binding = .bound → s.right.binding = .bound → s.Settled →
        s.right.arrived = s.left.sent ∧ s.left.arrived = s.right.sent) := by
  have inv := inv_of_run h steady
  have complete : ∀ {a b : RdExtBase M}, RdExtBase.Toward a b [] [] → a.binding = .bound →
      b.binding = .bound → b.arrived = a.sent := by
    intro a b settled alive alive'
    have connected : a.connected = true := by
      rcases settled.greeted alive alive' with connected | ⟨_, ⟨⟩⟩ | ⟨_, _, ⟨⟩, _⟩
      exact connected
    rw [settled.all, settled.emptied connected]
    simp [RdExtBase.payloads]
  refine ⟨⟨inv.toRight.free, inv.toLeft.free⟩, ⟨inv.toLeft.early, inv.toRight.early⟩,
    inv.toRight.all, inv.toLeft.all, ?_, ?_⟩
  · rintro (asserted | asserted)
    · exact (inv.toLeft.asserted asserted).symm
    · exact inv.toRight.asserted asserted
  · rintro alive alive' ⟨toRight, toLeft⟩
    obtain ⟨ab, ba⟩ := inv
    rw [toRight, toLeft] at ab ba
    exact ⟨complete ab alive alive', complete ba alive' alive⟩

/-- The left side is bound first, and its greeting is lost.  Its last message is written by a writer
that sends another one. -/
def greetingLost : List (DuplexEvent (ExtOp ℕ) (ExtOp ℕ)) :=
  [.left (.send ⟨[], 1⟩), .left .init, .arriveRight, .left (.send ⟨[], 2⟩), .right .init,
    .right (.send ⟨[], 3⟩), .arriveLeft, .left (.send ⟨[4], 5⟩), .arriveRight, .arriveRight,
    .arriveRight, .arriveRight, .arriveRight, .arriveLeft]

theorem arrives_after_binding_greetingLost : ∃ s, (machine ℕ 5 5).Run greetingLost s ∧
    s.right.arrived = [1, 2, 4, 5] ∧ s.left.arrived = [3] ∧
    s.right.arrived = s.left.sent ∧ s.left.arrived = s.right.sent := by
  have run := (machine ℕ 5 5).run_of_isSome greetingLost (by decide)
  have steady := (machine ℕ 5 5).along_of_check Steady greetingLost (by decide)
  refine ⟨_, run, by decide, by decide, ?_⟩
  exact (arrives_after_binding run steady).2.2.2.2.2 (by decide) (by decide) (by decide)

/-- A side that is bound again takes itself for connected and sends at once, to a counterpart that
has ended. -/
example : ((machine ℕ 5 5).exec (machine ℕ 5 5).init
    [.left .init, .right .init, .arriveRight, .arriveLeft, .arriveLeft, .left .terminate,
      .right .terminate, .arriveLeft, .left .init, .left (.send ⟨[], 1⟩)]).map
        (fun s => (s.left.sendQ, RdExtBase.payloads s.toRight, s.right.binding)) =
          some ([], [1], .ended) := by
  decide

end ExtPair

end CarpenterDemo.Rd
