import CarpenterDemo.Library.Machine
import CarpenterDemo.Rd.AsyncProcessor

/-!
# `SocketWire`: packages across connections

One direction of a wire: the queue of the sender, the packages and the acknowledgements on their
way, and `read_package` of the receiver.  A connection can break at any time; what is on its way is
then lost from some point on, and what is not is still read before anything of the next connection.
The thread of the sender's socket goes round: connect, `resume`, read until the connection is gone,
`pause`.  A message can be sent exactly while the socket is connected.

Pings, and the stopping of a wire, are left out.  `puts`, the list of everything that was ever put,
is an addition of the model.

* `seqn_names_message`: in every run the package with the number `k` is the `k`-th message put.
* `accepted_eq_take`: what the receiver takes for new packages are the messages in the order in
  which they were put, each once and without a gap, as long as nothing new is sent between `connect`
  and `resume` and the first package does not arrive twice.
* `unsent_until_put`: a message that could not be sent is not sent before another one is put.
-/

namespace CarpenterDemo.Rd

/-- What the thread of the sender's socket has got to. -/
inductive Session
  | down
  | connected
  | live
  deriving DecidableEq, Repr

/-- What `read_package` makes of a package. -/
inductive Delivery (α : Type*)
  | fresh (package : ℕ × α)
  | repeated (package : ℕ × α)
  deriving DecidableEq, Repr

namespace Delivery

variable {α : Type*}

def package : Delivery α → ℕ × α
  | fresh p => p
  | repeated p => p

def isFresh : Delivery α → Bool
  | fresh _ => true
  | repeated _ => false

def accepted? : Delivery α → Option α
  | fresh p => some p.2
  | repeated _ => none

end Delivery

structure SocketWire (α : Type*) where
  asyncSendBuffer : ByteBufferAsyncProcessor α := { interruptBalance := 1 }
  session : Session := .down
  /-- Sending succeeds. -/
  isSocketValid : Bool := false
  /-- The packages on their way, oldest first. -/
  packages : List (ℕ × α) := []
  /-- How many of them, from the front, were sent over connections that are gone. -/
  stale : ℕ := 0
  acks : List ℕ := []
  maxReceivedSeqn : ℕ := 0
  deliveries : List (Delivery α) := []
  puts : List α := []
  /-- `reprocess` has popped from an empty queue. -/
  emptyPop : Bool := false
  deriving DecidableEq, Repr

inductive WireEvent (α : Type*)
  | put (newData : α)
  | fetch
  | startProcess
  | processOne
  | connect
  /-- The connection lasts for `sent` messages of those that are sent once more. -/
  | resume (sent : ℕ)
  /-- What is kept of the packages and of the acknowledgements arrives all the same. -/
  | disconnect (kept keptAcks : ℕ)
  | pause
  | readPackage
  | readAck
  deriving DecidableEq, Repr

namespace SocketWire

variable {α : Type*} (s : SocketWire α)

/-- The packages that the receiver has taken for new ones. -/
def accepted : List α := s.deliveries.filterMap Delivery.accepted?

def resume (sent : ℕ) : SocketWire α :=
  match s.asyncSendBuffer.resume with
  | none => { s with emptyPop := true }
  | some buffer =>
    { s with
      asyncSendBuffer := buffer
      session := .live
      isSocketValid := s.isSocketValid && decide (buffer.resent.length ≤ sent)
      packages := s.packages ++ if s.isSocketValid then buffer.resent.take sent else [] }

/-- A package is new when its number is above all others, or when it is the first of a peer that has
started again. -/
def readPackage (package : ℕ × α) : SocketWire α :=
  if package.1 ≤ s.maxReceivedSeqn ∧ package.1 ≠ 1 then
    { s with deliveries := s.deliveries ++ [.repeated package] }
  else
    { s with
      maxReceivedSeqn := package.1
      deliveries := s.deliveries ++ [.fresh package] }

def step (s : SocketWire α) : WireEvent α → Option (SocketWire α)
  | .put newData =>
    some { s with asyncSendBuffer := s.asyncSendBuffer.put newData, puts := s.puts ++ [newData] }
  | .fetch => s.asyncSendBuffer.fetch.map fun buffer => { s with asyncSendBuffer := buffer }
  | .startProcess =>
    s.asyncSendBuffer.startProcess.map fun buffer => { s with asyncSendBuffer := buffer }
  | .processOne => (s.asyncSendBuffer.processOne s.isSocketValid).map fun (buffer, sent) =>
    { s with asyncSendBuffer := buffer, packages := s.packages ++ sent }
  | .connect =>
    if s.session = .down ∧ s.isSocketValid = false then
      some { s with session := .connected, isSocketValid := true, acks := [] }
    else none
  | .resume sent =>
    if s.session = .connected ∧ s.asyncSendBuffer.phase ≠ .processing then some (s.resume sent)
    else none
  | .disconnect kept keptAcks =>
    if s.isSocketValid then
      some { s with
        isSocketValid := false
        packages := s.packages.take kept
        stale := (s.packages.take kept).length
        acks := s.acks.take keptAcks }
    else none
  | .pause =>
    if s.session = .live then
      s.asyncSendBuffer.pause.map fun buffer =>
        { s with asyncSendBuffer := buffer, session := .down }
    else none
  | .readPackage =>
    match s.packages with
    | [] => none
    | p :: rest =>
      some { s.readPackage p with
        packages := rest
        stale := s.stale - 1
        acks := if s.stale = 0 then s.acks ++ [p.1] else s.acks }
  | .readAck =>
    if s.session = .live then
      match s.acks with
      | [] => none
      | seqn :: rest =>
        some { s with asyncSendBuffer := s.asyncSendBuffer.acknowledge seqn, acks := rest }
    else none

def machine : Machine (SocketWire α) (WireEvent α) := ⟨{}, step⟩

/-! ## What one step can do -/

open ByteBufferAsyncProcessor

/-- What one step can do. -/
inductive Step : WireEvent α → SocketWire α → Prop
  | put (m : α) : Step (.put m)
      { s with asyncSendBuffer := s.asyncSendBuffer.put m, puts := s.puts ++ [m] }
  | fetch {buffer : ByteBufferAsyncProcessor α} (fetches : s.asyncSendBuffer.fetch = some buffer) :
      Step .fetch { s with asyncSendBuffer := buffer }
  | startProcess {buffer : ByteBufferAsyncProcessor α}
      (starts : s.asyncSendBuffer.startProcess = some buffer) :
      Step .startProcess { s with asyncSendBuffer := buffer }
  | processOne {buffer : ByteBufferAsyncProcessor α} {sent : List (ℕ × α)}
      (processes : s.asyncSendBuffer.processOne s.isSocketValid = some (buffer, sent)) :
      Step .processOne { s with asyncSendBuffer := buffer, packages := s.packages ++ sent }
  | connect (down : s.session = .down) : Step .connect
      { s with session := .connected, isSocketValid := true, acks := [] }
  | resume (sent : ℕ) (connected : s.session = .connected) : Step (.resume sent) (s.resume sent)
  | disconnect (kept keptAcks : ℕ) : Step (.disconnect kept keptAcks)
      { s with
        isSocketValid := false
        packages := s.packages.take kept
        stale := (s.packages.take kept).length
        acks := s.acks.take keptAcks }
  | pause {buffer : ByteBufferAsyncProcessor α} (live : s.session = .live)
      (pauses : s.asyncSendBuffer.pause = some buffer) :
      Step .pause { s with asyncSendBuffer := buffer, session := .down }
  | readPackage {p : ℕ × α} {rest : List (ℕ × α)} (oldest : s.packages = p :: rest) :
      Step .readPackage { s.readPackage p with
        packages := rest
        stale := s.stale - 1
        acks := if s.stale = 0 then s.acks ++ [p.1] else s.acks }
  | readAck {seqn : ℕ} {rest : List ℕ} (live : s.session = .live) (oldest : s.acks = seqn :: rest) :
      Step .readAck { s with asyncSendBuffer := s.asyncSendBuffer.acknowledge seqn, acks := rest }

variable {s} {s' : SocketWire α} {e : WireEvent α}

theorem step_sound (h : machine.step s e = some s') : Step s e s' := by
  cases e with
  | put m =>
    cases h
    exact .put m
  | fetch =>
    obtain ⟨buffer, fetches, rfl⟩ := Option.map_eq_some_iff.1 h
    exact .fetch fetches
  | startProcess =>
    obtain ⟨buffer, starts, rfl⟩ := Option.map_eq_some_iff.1 h
    exact .startProcess starts
  | processOne =>
    obtain ⟨⟨buffer, sent⟩, processes, rfl⟩ := Option.map_eq_some_iff.1 h
    exact .processOne processes
  | connect =>
    obtain ⟨⟨down, -⟩, ⟨⟩⟩ := Option.ite_none_right_eq_some.1 h
    exact .connect down
  | resume sent =>
    obtain ⟨⟨connected, -⟩, ⟨⟩⟩ := Option.ite_none_right_eq_some.1 h
    exact .resume sent connected
  | disconnect kept keptAcks =>
    obtain ⟨-, ⟨⟩⟩ := Option.ite_none_right_eq_some.1 h
    exact .disconnect kept keptAcks
  | pause =>
    obtain ⟨live, h⟩ := Option.ite_none_right_eq_some.1 h
    obtain ⟨buffer, pauses, rfl⟩ := Option.map_eq_some_iff.1 h
    exact .pause live pauses
  | readPackage =>
    simp only [machine, step] at h
    split at h
    · cases h
    · rename_i p rest oldest
      cases h
      exact .readPackage oldest
  | readAck =>
    obtain ⟨live, h⟩ := Option.ite_none_right_eq_some.1 h
    split at h
    · cases h
    · rename_i seqn rest oldest
      cases h
      exact .readAck live oldest

/-! ## Numbers name messages -/

structure Inv (s : SocketWire α) : Prop where
  numbers : s.asyncSendBuffer.Numbers s.puts
  packages : ∀ p ∈ s.packages, Named s.puts p ∧ p.1 ≤ s.asyncSendBuffer.maxSentSeqn
  acks : ∀ seqn ∈ s.acks, seqn ≤ s.asyncSendBuffer.maxSentSeqn
  deliveries : ∀ d ∈ s.deliveries, Named s.puts d.package
  emptyPop : s.emptyPop = false

theorem inv_init : (machine (α := α)).init.Inv where
  numbers := ⟨Nat.le_refl 0, rfl, rfl, Nat.le_refl 1, Nat.le_refl 1, Nat.le_refl 0⟩
  packages := nofun
  acks := nofun
  deliveries := nofun
  emptyPop := rfl

/-- `resume` never pops from an empty queue. -/
theorem Inv.resume_eq (h : s.Inv) (sent : ℕ) : ∃ buffer, buffer.Numbers s.puts ∧
    buffer.acknowledgedSeqn = s.asyncSendBuffer.acknowledgedSeqn ∧
    buffer.currentSeqn = s.asyncSendBuffer.acknowledgedSeqn + 1 ∧
    buffer.maxSentSeqn = s.asyncSendBuffer.maxSentSeqn ∧
    (∀ p ∈ buffer.resent, Named s.puts p ∧ p.1 ≤ s.asyncSendBuffer.maxSentSeqn) ∧
    s.resume sent = { s with
      asyncSendBuffer := buffer
      session := .live
      isSocketValid := s.isSocketValid && decide (buffer.resent.length ≤ sent)
      packages := s.packages ++ if s.isSocketValid then buffer.resent.take sent else [] } := by
  obtain ⟨buffer, resumes, numbers, acked, current, sentSeqn, named⟩ := h.numbers.resume
  refine ⟨buffer, numbers, acked, current, sentSeqn, named, ?_⟩
  rw [SocketWire.resume, resumes]

theorem package_readPackage (p : ℕ × α) : ∃ d : Delivery α, d.package = p ∧
    (s.readPackage p).deliveries = s.deliveries ++ [d] := by
  unfold readPackage
  split_ifs
  · exact ⟨.repeated p, rfl, rfl⟩
  · exact ⟨.fresh p, rfl, rfl⟩

theorem frame_readPackage (p : ℕ × α) :
    (s.readPackage p).asyncSendBuffer = s.asyncSendBuffer ∧
      (s.readPackage p).puts = s.puts ∧ (s.readPackage p).emptyPop = s.emptyPop ∧
      (s.readPackage p).session = s.session ∧
      (s.readPackage p).isSocketValid = s.isSocketValid := by
  unfold readPackage
  split_ifs <;> exact ⟨rfl, rfl, rfl, rfl, rfl⟩

theorem Inv.withBuffer (h : s.Inv) {buffer : ByteBufferAsyncProcessor α}
    (numbers : buffer.Numbers s.puts) (same : s.asyncSendBuffer.SameNumbers buffer) :
    Inv { s with asyncSendBuffer := buffer } := by
  refine ⟨numbers, fun p hp => ?_, fun a ha => ?_, h.deliveries, h.emptyPop⟩
  · exact same.1 ▸ h.packages p hp
  · exact same.1 ▸ h.acks a ha

theorem Inv.step (h : s.Inv) (hs : Step s e s') : s'.Inv := by
  cases hs with
  | put m =>
    refine ⟨h.numbers.put m, fun p hp => ?_, h.acks, fun d hd => ?_, h.emptyPop⟩
    · exact (h.packages p hp).imp_left fun named => named.append [m]
    · exact (h.deliveries d hd).append [m]
  | fetch fetches => exact h.withBuffer (h.numbers.fetch fetches) (sameNumbers_fetch fetches)
  | startProcess starts =>
    exact h.withBuffer (h.numbers.startProcess starts) (sameNumbers_startProcess starts)
  | processOne processes =>
    obtain ⟨numbers, -, ⟨rfl, seqn⟩ | ⟨item, -, rfl, named, seqn, -⟩⟩ :=
      h.numbers.processOne processes
    · refine ⟨numbers, fun p hp => ?_, fun a ha => seqn ▸ h.acks a ha, h.deliveries, h.emptyPop⟩
      rw [List.append_nil] at hp
      exact seqn ▸ h.packages p hp
    · refine ⟨numbers, fun p hp => ?_, fun a ha => ?_, h.deliveries, h.emptyPop⟩
      · rw [seqn]
        rcases List.mem_append.1 hp with hp | hp
        · exact (h.packages p hp).imp_right Nat.le_succ_of_le
        · rw [List.mem_singleton.1 hp]
          exact ⟨⟨Nat.le_add_left 1 _, named⟩, Nat.le_refl _⟩
      · rw [seqn]
        exact Nat.le_succ_of_le (h.acks a ha)
  | connect => exact ⟨h.numbers, h.packages, nofun, h.deliveries, h.emptyPop⟩
  | resume sent =>
    obtain ⟨buffer, numbers, -, -, sentSeqn, named, eq⟩ := h.resume_eq sent
    rw [eq]
    refine ⟨numbers, fun p hp => ?_, fun seqn hs => sentSeqn ▸ h.acks seqn hs, h.deliveries,
      h.emptyPop⟩
    rw [sentSeqn]
    rcases List.mem_append.1 hp with hp | hp
    · exact h.packages p hp
    · split_ifs at hp
      · exact named p (List.mem_of_mem_take hp)
      · cases hp
  | disconnect kept keptAcks =>
    exact ⟨h.numbers, fun p hp => h.packages p (List.mem_of_mem_take hp),
      fun seqn hs => h.acks seqn (List.mem_of_mem_take hs), h.deliveries, h.emptyPop⟩
  | pause live pauses =>
    have paused := h.withBuffer (h.numbers.pause pauses) (sameNumbers_pause pauses)
    exact ⟨paused.numbers, paused.packages, paused.acks, paused.deliveries, paused.emptyPop⟩
  | @readPackage p rest oldest =>
    obtain ⟨buffer, puts, emptyPop, -⟩ := frame_readPackage (s := s) p
    obtain ⟨d, rfl, deliveries⟩ := package_readPackage (s := s) p
    have first := h.packages d.package (oldest ▸ List.mem_cons_self)
    refine ⟨?_, fun p hp => ?_, fun a ha => ?_, fun d' hd => ?_, ?_⟩
    · rw [buffer, puts]
      exact h.numbers
    · rw [buffer, puts]
      exact h.packages p (oldest ▸ List.mem_cons_of_mem _ hp)
    · rw [buffer]
      replace ha : a ∈ if s.stale = 0 then s.acks ++ [d.package.1] else s.acks := ha
      split_ifs at ha
      · rcases List.mem_append.1 ha with ha | ha
        · exact h.acks a ha
        · rw [List.mem_singleton.1 ha]
          exact first.2
      · exact h.acks a ha
    · rw [puts]
      replace hd : d' ∈ (s.readPackage d.package).deliveries := hd
      rw [deliveries] at hd
      rcases List.mem_append.1 hd with hd | hd
      · exact h.deliveries d' hd
      · rw [List.mem_singleton.1 hd]
        exact first.1
    · exact emptyPop.trans h.emptyPop
  | @readAck seqn rest live oldest =>
    have seen := h.acks seqn (oldest ▸ List.mem_cons_self)
    have same := (acknowledge_spec s.asyncSendBuffer seqn).1
    refine ⟨h.numbers.acknowledge seen, fun p hp => ?_, fun a ha => ?_, h.deliveries, h.emptyPop⟩
    · rw [same]
      exact h.packages p hp
    · rw [same]
      exact h.acks a (oldest ▸ List.mem_cons_of_mem seqn ha)

theorem inv_of_run {es : List (WireEvent α)} {s : SocketWire α} (h : machine.Run es s) : s.Inv :=
  h.invariant inv_init fun hi hs => hi.step (step_sound hs)

/-- However connections break and threads interleave, the package with the number `k` is the `k`-th
message that was put, every time it arrives, and `reprocess` never pops from an empty queue. -/
theorem seqn_names_message {es : List (WireEvent α)} {s : SocketWire α} (h : machine.Run es s) :
    s.emptyPop = false ∧ ∀ d ∈ s.deliveries, 1 ≤ d.package.1 ∧
      s.puts[d.package.1 - 1]? = some d.package.2 :=
  ⟨(inv_of_run h).emptyPop, (inv_of_run h).deliveries⟩

/-! ## New packages arrive in order -/

/-- Nothing new is sent between `connect` and `resume`, and the first package does not arrive when
another one has been taken before. -/
def InOrder (s : SocketWire α) : WireEvent α → Prop
  | .processOne => s.session = .connected → s.isSocketValid = true → s.asyncSendBuffer.queue = []
  | .readPackage => ∀ p ∈ s.packages.head?, p.1 = 1 → s.maxReceivedSeqn = 0
  | _ => True

instance (s : SocketWire α) : DecidablePred s.InOrder := fun e => by
  cases e <;> unfold InOrder <;> infer_instance

open Numbered

/-- What is on its way leaves no gap, and while the sender is not about to send anything once more
it covers all that has been sent. -/
structure OrderInv (s : SocketWire α) : Prop extends s.Inv where
  accepted : s.accepted = s.puts.take s.maxReceivedSeqn
  received : s.maxReceivedSeqn ≤ s.puts.length
  acknowledged : s.asyncSendBuffer.acknowledgedSeqn ≤ s.maxReceivedSeqn
  acksReceived : ∀ seqn ∈ s.acks, seqn ≤ s.maxReceivedSeqn
  gapless : Gapless s.maxReceivedSeqn s.packages
  covered : s.isSocketValid = true → s.session ≠ .connected →
    s.asyncSendBuffer.maxSentSeqn ≤ reach s.maxReceivedSeqn s.packages

/-- In order, a package that is not repeated has the next number. -/
theorem OrderInv.readPackage_eq (h : s.OrderInv) {p : ℕ × α} {rest : List (ℕ × α)}
    (oldest : s.packages = p :: rest) (first : p.1 = 1 → s.maxReceivedSeqn = 0) :
    (s.readPackage p).maxReceivedSeqn = max s.maxReceivedSeqn p.1 ∧
      (s.readPackage p).accepted = s.puts.take (max s.maxReceivedSeqn p.1) := by
  obtain ⟨named, -⟩ := h.packages p (oldest ▸ List.mem_cons_self)
  have next : p.1 ≤ s.maxReceivedSeqn + 1 := by
    have := h.gapless
    rw [oldest] at this
    exact this.1
  unfold readPackage
  split_ifs with again
  · rw [Nat.max_eq_left again.1]
    refine ⟨rfl, ?_⟩
    rw [SocketWire.accepted, List.filterMap_append]
    exact (List.append_nil _).trans h.accepted
  · have new : p.1 = s.maxReceivedSeqn + 1 := by
      have := named.1
      by_contra other
      have le : p.1 ≤ s.maxReceivedSeqn := by omega
      have one : p.1 = 1 := by
        by_contra later
        exact again ⟨le, later⟩
      have := first one
      omega
    rw [Nat.max_eq_right (by omega)]
    refine ⟨rfl, ?_⟩
    rw [SocketWire.accepted, List.filterMap_append]
    show s.accepted ++ [p.2] = _
    have item := named.2
    rw [new, Nat.add_sub_cancel] at item
    rw [h.accepted, new, List.take_add_one, item]
    rfl

theorem OrderInv.withBuffer (h : s.OrderInv) {buffer : ByteBufferAsyncProcessor α}
    (base : Inv { s with asyncSendBuffer := buffer })
    (same : s.asyncSendBuffer.SameNumbers buffer) :
    OrderInv { s with asyncSendBuffer := buffer } := by
  refine ⟨base, h.accepted, h.received, ?_, h.acksReceived, h.gapless, fun valid other => ?_⟩
  · exact same.2 ▸ h.acknowledged
  · exact same.1 ▸ h.covered valid other

/-- What `resume` sends goes on from something that has been received. -/
theorem OrderInv.resume (h : s.OrderInv) (sent : ℕ) (base : (s.resume sent).Inv) :
    (s.resume sent).OrderInv := by
  obtain ⟨buffer, numbers, acked, current, sentSeqn, -, eq⟩ := h.resume_eq sent
  rw [eq] at base ⊢
  have start : buffer.currentSeqn ≤ reach s.maxReceivedSeqn s.packages + 1 := by
    have := h.acknowledged
    have := le_reach s.maxReceivedSeqn s.packages
    omega
  refine ⟨base, h.accepted, h.received, acked ▸ h.acknowledged, h.acksReceived, ?_, ?_⟩
  · refine gapless_append.2 ⟨h.gapless, ?_⟩
    split_ifs
    · exact (gapless_numberFrom start buffer.pendingQueue).take sent
    · trivial
  · intro valid _
    obtain ⟨valid, whole⟩ := (Bool.and_eq_true _ _).mp valid
    simp only [valid, if_true, List.take_of_length_le (of_decide_eq_true whole), reach_append]
    have := length_le_reach start buffer.pendingQueue
    have := numbers.length_pendingQueue
    show buffer.maxSentSeqn ≤ reach _ (numberFrom buffer.currentSeqn buffer.pendingQueue)
    omega

theorem OrderInv.readPackage (h : s.OrderInv) {p : ℕ × α} {rest : List (ℕ × α)}
    (oldest : s.packages = p :: rest) (first : p.1 = 1 → s.maxReceivedSeqn = 0)
    (base : Inv { s.readPackage p with
      packages := rest
      stale := s.stale - 1
      acks := if s.stale = 0 then s.acks ++ [p.1] else s.acks }) :
    OrderInv { s.readPackage p with
      packages := rest
      stale := s.stale - 1
      acks := if s.stale = 0 then s.acks ++ [p.1] else s.acks } := by
  obtain ⟨number, accepted⟩ := h.readPackage_eq oldest first
  obtain ⟨buffer, puts, -, session, valid⟩ := frame_readPackage (s := s) p
  obtain ⟨named, -⟩ := h.packages p (oldest ▸ List.mem_cons_self)
  have gapless := h.gapless
  have covered := h.covered
  rw [oldest] at gapless covered
  refine ⟨base, ?_, ?_, ?_, fun a ha => ?_, ?_, ?_⟩
  · show (s.readPackage p).accepted = (s.readPackage p).puts.take (s.readPackage p).maxReceivedSeqn
    rw [accepted, puts, number]
  · show (s.readPackage p).maxReceivedSeqn ≤ (s.readPackage p).puts.length
    rw [number, puts]
    exact Nat.max_le.2 ⟨h.received, named.le⟩
  · show (s.readPackage p).asyncSendBuffer.acknowledgedSeqn ≤ (s.readPackage p).maxReceivedSeqn
    rw [buffer, number]
    exact Nat.le_trans h.acknowledged (Nat.le_max_left _ _)
  · show a ≤ (s.readPackage p).maxReceivedSeqn
    rw [number]
    replace ha : a ∈ if s.stale = 0 then s.acks ++ [p.1] else s.acks := ha
    split_ifs at ha
    · rcases List.mem_append.1 ha with ha | ha
      · exact Nat.le_trans (h.acksReceived a ha) (Nat.le_max_left _ _)
      · rw [List.mem_singleton.1 ha]
        exact Nat.le_max_right _ _
    · exact Nat.le_trans (h.acksReceived a ha) (Nat.le_max_left _ _)
  · show Gapless (s.readPackage p).maxReceivedSeqn rest
    rw [number]
    exact gapless.2
  · show (s.readPackage p).isSocketValid = true → (s.readPackage p).session ≠ .connected →
      (s.readPackage p).asyncSendBuffer.maxSentSeqn ≤ reach (s.readPackage p).maxReceivedSeqn rest
    rw [valid, session, buffer, number]
    exact covered

theorem OrderInv.step (h : s.OrderInv) (order : s.InOrder e) (hs : Step s e s') :
    s'.OrderInv := by
  have base := h.toInv.step hs
  cases hs with
  | put m =>
    refine ⟨base, ?_, ?_, h.acknowledged, h.acksReceived, h.gapless, h.covered⟩
    · exact h.accepted.trans (List.take_append_of_le_length h.received).symm
    · rw [List.length_append]
      exact Nat.le_add_right_of_le h.received
  | fetch fetches => exact h.withBuffer base (sameNumbers_fetch fetches)
  | startProcess starts => exact h.withBuffer base (sameNumbers_startProcess starts)
  | processOne processes =>
    obtain ⟨-, acked, ⟨rfl, seqn⟩ | ⟨item, valid, rfl, -, seqn, queued⟩⟩ :=
      h.numbers.processOne processes
    · refine ⟨base, h.accepted, h.received, acked ▸ h.acknowledged, h.acksReceived, ?_, ?_⟩
      · rw [List.append_nil]
        exact h.gapless
      · rw [List.append_nil, seqn]
        exact h.covered
    · -- the sender has caught up before it sends anything new
      have other : s.session ≠ .connected := fun connected => queued (order connected valid)
      have covered := h.covered valid other
      refine ⟨base, h.accepted, h.received, acked ▸ h.acknowledged, h.acksReceived, ?_, ?_⟩
      · exact gapless_append.2 ⟨h.gapless, Nat.succ_le_succ covered, trivial⟩
      · intro _ _
        rw [seqn, reach_append]
        exact Nat.le_max_right _ _
  | connect down =>
    exact ⟨base, h.accepted, h.received, h.acknowledged, nofun, h.gapless,
      fun _ other => absurd rfl other⟩
  | resume sent connected => exact h.resume sent base
  | disconnect kept keptAcks =>
    refine ⟨base, h.accepted, h.received, h.acknowledged, fun a ha => ?_, h.gapless.take kept,
      nofun⟩
    exact h.acksReceived a (List.mem_of_mem_take ha)
  | pause live pauses =>
    have same := sameNumbers_pause pauses
    refine ⟨base, h.accepted, h.received, same.2 ▸ h.acknowledged, h.acksReceived, h.gapless,
      fun valid _ => same.1 ▸ h.covered valid ?_⟩
    rw [live]
    decide
  | @readPackage p rest oldest =>
    exact h.readPackage oldest (order p (by rw [oldest]; rfl)) base
  | @readAck seqn rest live oldest =>
    obtain ⟨sentSeqn, acked⟩ := acknowledge_spec s.asyncSendBuffer seqn
    refine ⟨base, h.accepted, h.received, ?_, fun a ha => ?_, h.gapless, ?_⟩
    · rw [acked]
      exact Nat.max_le.2 ⟨h.acknowledged, h.acksReceived seqn (oldest ▸ List.mem_cons_self)⟩
    · exact h.acksReceived a (oldest ▸ List.mem_cons_of_mem seqn ha)
    · rw [sentSeqn]
      exact h.covered

theorem orderInv_of_run {es : List (WireEvent α)} {s : SocketWire α} (h : machine.Run es s)
    (order : machine.Along es InOrder) : s.OrderInv := by
  refine h.invariant_along (I := OrderInv) ?_ (fun hi hp hs => hi.step hp (step_sound hs)) order
  exact ⟨inv_init, rfl, Nat.le_refl 0, Nat.le_refl 0, nofun, trivial, nofun⟩

/-- In order, the packages that the receiver takes for new are the first messages that were put,
each once and none left out, whatever was lost, repeated or sent once more on the way. -/
theorem accepted_eq_take {es : List (WireEvent α)} {s : SocketWire α} (h : machine.Run es s)
    (order : machine.Along es InOrder) :
    s.accepted = s.puts.take s.maxReceivedSeqn ∧ s.maxReceivedSeqn ≤ s.puts.length :=
  ⟨(orderInv_of_run h order).accepted, (orderInv_of_run h order).received⟩

/-- The connection breaks before the second package is acknowledged and before the third arrives. -/
def reconnecting : List (WireEvent ℕ) :=
  [.put 10, .connect, .resume 0, .fetch, .startProcess, .processOne, .processOne, .readPackage,
    .readAck, .put 20, .put 30, .fetch, .startProcess, .processOne, .processOne, .readPackage,
    .disconnect 0 0, .processOne, .pause, .connect, .resume 2, .readPackage, .readPackage]

theorem accepted_eq_take_reconnecting : ∃ s, machine.Run reconnecting s ∧
    s.accepted = s.puts.take s.maxReceivedSeqn ∧ s.maxReceivedSeqn ≤ s.puts.length := by
  have run := machine.run_of_isSome reconnecting (by decide)
  have order := machine.along_of_check InOrder reconnecting (by decide)
  exact ⟨_, run, accepted_eq_take run order⟩

/-- The thread has fetched a message when the connection breaks, and begins to send it when the next
connection has been made and not been resumed.  The message before it is lost. -/
example : (machine.exec {} [.put 10, .connect, .resume 0, .fetch, .startProcess, .processOne,
    .processOne, .readPackage, .readAck, .put 20, .fetch, .startProcess, .processOne,
    .disconnect 0 0, .processOne, .put 30, .fetch, .pause, .connect, .startProcess, .processOne,
    .processOne, .resume 2, .readPackage, .readPackage, .readPackage]).map
    (fun s => (s.accepted, s.packages)) = some ([10, 30], []) := by
  decide

/-! ## A message that could not be sent -/

/-- The thread waits and there is nothing to wake it up. -/
def Asleep (s : SocketWire α) : Prop :=
  s.asyncSendBuffer.phase = .waiting ∧ s.asyncSendBuffer.data = []

instance [DecidableEq α] (s : SocketWire α) : Decidable s.Asleep :=
  inferInstanceAs (Decidable (_ ∧ _))

/-- Nothing but `put` wakes the thread up. -/
theorem Asleep.step (h : s.Asleep) (quiet : ∀ m, e ≠ .put m) (hs : Step s e s') : s'.Asleep ∧
    s'.asyncSendBuffer.queue = s.asyncSendBuffer.queue ∧
    s'.asyncSendBuffer.maxSentSeqn = s.asyncSendBuffer.maxSentSeqn := by
  cases hs with
  | put m => exact absurd rfl (quiet m)
  | fetch fetches =>
    obtain ⟨⟨-, something, -⟩, -⟩ := Option.ite_none_right_eq_some.1 fetches
    exact absurd h.2 something
  | startProcess starts =>
    obtain ⟨fetched, -⟩ := Option.ite_none_right_eq_some.1 starts
    rw [h.1] at fetched
    cases fetched
  | processOne processes =>
    obtain ⟨processing, -⟩ := Option.ite_none_right_eq_some.1 processes
    rw [h.1] at processing
    cases processing
  | connect => exact ⟨h, rfl, rfl⟩
  | resume sent =>
    unfold SocketWire.resume
    split
    · exact ⟨h, rfl, rfl⟩
    · rename_i buffer resumes
      obtain ⟨⟨pending, current⟩, -, rfl⟩ := Option.map_eq_some_iff.1 resumes
      exact ⟨h, rfl, rfl⟩
  | disconnect => exact ⟨h, rfl, rfl⟩
  | pause live pauses =>
    obtain ⟨-, ⟨⟩⟩ := Option.ite_none_left_eq_some.1 pauses
    exact ⟨h, rfl, rfl⟩
  | @readPackage p rest oldest =>
    obtain ⟨buffer, -⟩ := frame_readPackage (s := s) p
    refine ⟨⟨?_, ?_⟩, ?_, ?_⟩ <;> simp only [buffer]
    exacts [h.1, h.2]
  | @readAck seqn rest live oldest =>
    unfold Asleep ByteBufferAsyncProcessor.acknowledge
    split_ifs <;> exact ⟨h, rfl, rfl⟩

/-- Once the thread sleeps, what is left in its queue is not sent before another message is put,
however many connections are made and resumed in between. -/
theorem unsent_until_put {es fs : List (WireEvent α)} {s s' : SocketWire α}
    (h : machine.Run es s) (asleep : s.Asleep) (h' : machine.Run (es ++ fs) s')
    (quiet : ∀ m, .put m ∉ fs) :
    s'.asyncSendBuffer.queue = s.asyncSendBuffer.queue ∧
      s'.asyncSendBuffer.maxSentSeqn = s.asyncSendBuffer.maxSentSeqn := by
  suffices s'.Asleep ∧ s'.asyncSendBuffer.queue = s.asyncSendBuffer.queue ∧
      s'.asyncSendBuffer.maxSentSeqn = s.asyncSendBuffer.maxSentSeqn from this.2
  have later := h.exec_of_append h'
  clear h'
  induction fs using List.reverseRecOn generalizing s' with
  | nil =>
    obtain rfl : s = s' := Option.some.inj later
    exact ⟨asleep, rfl, rfl⟩
  | append_singleton fs e ih =>
    rw [Machine.exec_snoc, Option.bind_eq_some_iff] at later
    obtain ⟨t, before, hs⟩ := later
    obtain ⟨asleep, queue, seqn⟩ := ih (fun m hm => quiet m (List.mem_append_left _ hm)) before
    have noPut : ∀ m, e ≠ .put m := fun m same => quiet m (by simp [same])
    obtain ⟨asleep', queue', seqn'⟩ := asleep.step noPut (step_sound hs)
    exact ⟨asleep', queue'.trans queue, seqn'.trans seqn⟩

/-- The connection breaks while the thread is sending. -/
def interrupted : List (WireEvent ℕ) :=
  [.put 10, .put 20, .connect, .resume 0, .fetch, .startProcess, .processOne, .readPackage,
    .readAck, .disconnect 0 0, .processOne]

/-- Another connection, on which all is well. -/
def reconnected : List (WireEvent ℕ) := [.pause, .connect, .resume 0]

theorem unsent_until_put_reconnected : ∃ s s', machine.Run interrupted s ∧
    machine.Run (interrupted ++ reconnected) s' ∧ s.asyncSendBuffer.queue = [20] ∧
    s'.isSocketValid = true ∧ s'.asyncSendBuffer.queue = s.asyncSendBuffer.queue ∧
      s'.asyncSendBuffer.maxSentSeqn = s.asyncSendBuffer.maxSentSeqn := by
  have run := machine.run_of_isSome interrupted (by decide)
  have run' := machine.run_of_isSome (interrupted ++ reconnected) (by decide)
  refine ⟨_, _, run, run', by decide, by decide, unsent_until_put run (by decide) run' ?_⟩
  intro m hm
  simp [reconnected] at hm

end SocketWire

end CarpenterDemo.Rd
