import CarpenterDemo.Library.Machine

/-!
# `MessageBroker`: from the wire to an entity

The messages of one entity on their way through the broker.  A message that arrives before the
entity has been advised waits in the broker for a task of the default scheduler.  Afterwards
messages go to the scheduler of the entity, and if that is another one than the default scheduler
they queue up behind those that still wait in the broker.  The tasks of other entities pass through
the same schedulers without touching any of this and are left out.

`dispatch` holds the lock of the broker from its beginning to its end.  The action that it queues
holds it only while it takes a message: what the action does before and after (`Running`) may
interleave with `dispatch` and with the entity's own scheduler.

`dispatched`, `handled` and `lost` are additions of the model: the messages that `dispatch` got,
those that the entity got, and those for which there was no handler.

`handled_in_order`: from the moment an entity is advised it gets every message that is not lost by
then, and gets them in the order in which they came, if its scheduler keeps the order of its tasks
and nothing is dispatched while an action of `dispatch` is under way.
-/

namespace CarpenterDemo.Rd

/-- The scheduler of an entity: the default scheduler or one of its own. -/
inductive WireScheduler
  | default
  | custom (outOfOrderExecution : Bool)
  deriving DecidableEq, Repr

/-- The entry of `subscriptions`; looking up an absent one makes it null. -/
inductive Subscription
  | absent
  | null
  | entity (scheduler : WireScheduler)
  deriving DecidableEq, Repr

structure Mq (μ : Type*) where
  defaultSchedulerMessages : List μ := []
  customSchedulerMessages : List μ := []
  deriving DecidableEq, Repr

/-- A task of the default scheduler: the action of `dispatch`, or that of `invoke`. -/
inductive Task (μ : Type*)
  | brokered
  | execute (message : μ)
  deriving DecidableEq, Repr

/-- How far the default scheduler has got in the action of `dispatch`, with what the action has read
by then. -/
inductive Running (μ : Type*)
  | idle
  /-- The subscription has been looked up, without the lock. -/
  | lookedUp (subscription : Subscription)
  /-- A message has been taken, under the lock. -/
  | popped (subscription : Subscription) (message : Option μ)
  | invoked (subscription : Subscription)
  /-- The entry has been erased; what waited behind it is still to be invoked. -/
  | erased (subscription : Subscription) (customSchedulerMessages : List μ)
  deriving DecidableEq, Repr

structure MessageBroker (μ : Type*) where
  subscription : Subscription := .absent
  broker : Option (Mq μ) := none
  defaultQueue : List (Task μ) := []
  running : Running μ := .idle
  /-- The messages for which there is a task of the entity's own scheduler. -/
  customQueue : List μ := []
  dispatched : List μ := []
  handled : List μ := []
  lost : List μ := []
  /-- A null pointer or an erased entry has been used. -/
  crashed : Bool := false
  deriving DecidableEq, Repr

inductive BrokerEvent (μ : Type*)
  | dispatch (message : μ)
  | advise (scheduler : WireScheduler)
  /-- The lifetime of the subscription ends. -/
  | terminate
  /-- The default scheduler begins its next task. -/
  | runDefault
  /-- The default scheduler goes on with the action of `dispatch`. -/
  | continueDefault
  | runCustom
  deriving DecidableEq, Repr

namespace MessageBroker

variable {μ : Type*} (s : MessageBroker μ)

/-- `invoke`, when it queues a task. -/
def invoke (scheduler : WireScheduler) (message : μ) : MessageBroker μ :=
  match scheduler with
  | .default => { s with defaultQueue := s.defaultQueue ++ [.execute message] }
  | .custom _ => { s with customQueue := s.customQueue ++ [message] }

/-- The task of `invoke`: an entry that is null is taken for a handler. -/
def execute (message : μ) : MessageBroker μ :=
  if s.subscription = .absent then { s with lost := s.lost ++ [message] }
  else { s with handled := s.handled ++ [message] }

def touchSubscription : Subscription :=
  if s.subscription = .absent then .null else s.subscription

def dispatch (message : μ) : MessageBroker μ :=
  let s := { s with dispatched := s.dispatched ++ [message] }
  match s.subscription with
  | .entity scheduler =>
    if scheduler = .default ∨ scheduler = .custom true then s.invoke scheduler message
    else
      match s.broker with
      | none => s.invoke scheduler message
      | some mq =>
        { s with
          broker := some { mq with
            customSchedulerMessages := mq.customSchedulerMessages ++ [message] } }
  | _ =>
    let mq := s.broker.getD {}
    { s with
      subscription := s.touchSubscription
      broker := some { mq with
        defaultSchedulerMessages := mq.defaultSchedulerMessages ++ [message] }
      defaultQueue := s.defaultQueue ++ [.brokered] }

/-! The action of `dispatch`: each function is one step, and says how the action goes on. -/

def lookUp : MessageBroker μ :=
  { s with subscription := s.touchSubscription, running := .lookedUp s.touchSubscription }

def pop (subscription : Subscription) : MessageBroker μ :=
  match s.broker with
  | none => { s with crashed := true, running := .idle }
  | some mq =>
    { s with
      broker := some { mq with defaultSchedulerMessages := mq.defaultSchedulerMessages.tail }
      running := .popped subscription mq.defaultSchedulerMessages.head? }

/-- The message goes to the entity that was looked up; one of the default scheduler gets it at
once. -/
def pass (subscription : Subscription) (message : Option μ) : MessageBroker μ :=
  let s := { s with running := .invoked subscription }
  match message with
  | none => s
  | some message =>
    match subscription with
    | .entity .default => { s with handled := s.handled ++ [message] }
    | .entity (.custom outOfOrderExecution) => s.invoke (.custom outOfOrderExecution) message
    | _ => { s with lost := s.lost ++ [message] }

def erase (subscription : Subscription) : MessageBroker μ :=
  match s.broker with
  | none => { s with crashed := true, running := .idle }
  | some mq =>
    if mq.defaultSchedulerMessages = [] then
      { s with broker := none, running := .erased subscription mq.customSchedulerMessages }
    else { s with running := .idle }

def flush (subscription : Subscription) : List μ → MessageBroker μ
  | [] => { s with running := .idle }
  | message :: rest =>
    match subscription with
    | .entity scheduler =>
      { s with running := .erased subscription rest }.invoke scheduler message
    | _ => { s with crashed := true, running := .idle }

/-- The next step of the action that is under way. -/
def continueAction : Option (MessageBroker μ) :=
  match s.running with
  | .idle => none
  | .lookedUp subscription => some (s.pop subscription)
  | .popped subscription message => some (s.pass subscription message)
  | .invoked subscription => some (s.erase subscription)
  | .erased subscription messages => some (s.flush subscription messages)

def step (s : MessageBroker μ) : BrokerEvent μ → Option (MessageBroker μ)
  | .dispatch message => some (s.dispatch message)
  | .advise scheduler => some { s with subscription := .entity scheduler }
  | .terminate => some { s with subscription := .absent }
  | .runDefault =>
    match s.running, s.defaultQueue with
    | .idle, .brokered :: rest => some { s with defaultQueue := rest }.lookUp
    | .idle, .execute message :: rest => some ({ s with defaultQueue := rest }.execute message)
    | _, _ => none
  | .continueDefault => s.continueAction
  | .runCustom =>
    match s.customQueue with
    | [] => none
    | message :: rest => some ({ s with customQueue := rest }.execute message)

def machine : Machine (MessageBroker μ) (BrokerEvent μ) := ⟨{}, step⟩

/-! ## One entity that stays -/

def isEntity : Subscription → Bool
  | .entity _ => true
  | _ => false

/-- The entity is advised once, for a scheduler that keeps the order, and stays.  The wire hands
over no message while the default scheduler is in an action of `dispatch`. -/
def Stays (s : MessageBroker μ) : BrokerEvent μ → Prop
  | .dispatch _ => s.running = .idle
  | .advise scheduler =>
    s.running = .idle ∧ isEntity s.subscription = false ∧ scheduler ≠ .custom true
  | .terminate => False
  | _ => True

instance [DecidableEq μ] (s : MessageBroker μ) : DecidablePred s.Stays := fun e => by
  cases e <;> unfold Stays <;> infer_instance

/-- What the entity's scheduler rules out: `custom` and `behind` are empty for the default
scheduler, `tasks` for another one, and all of them before the entity is advised. -/
def Fits (handled custom tasks behind : List μ) : Subscription → Prop
  | .entity .default => custom = [] ∧ behind = []
  | .entity (.custom false) => tasks = []
  | .entity (.custom true) => False
  | _ => handled = [] ∧ custom = [] ∧ tasks = [] ∧ behind = []

/-- The broker with its messages in the order in which they came: `lost` and `handled`, and of the
others those at the entity's own scheduler, the one that an action of `dispatch` has in hand, those
in the broker with a task for each of them, those at the default scheduler and those behind the
broker. -/
def laidOut (subscription : Subscription) (running : Running μ) (broker : Option (Mq μ))
    (lost handled custom taken brokered tasks behind : List μ) : MessageBroker μ where
  subscription := subscription
  broker := broker
  defaultQueue := List.replicate brokered.length .brokered ++ tasks.map .execute
  running := running
  customQueue := custom
  dispatched := lost ++ handled ++ (custom ++ taken ++ brokered ++ tasks ++ behind)
  handled := handled
  lost := lost

/-- What there is in the broker's entry, and which message is in hand, in each phase of the
action. -/
inductive Phase (subscription : Subscription) :
    Running μ → Option (Mq μ) → List μ → List μ → List μ → Prop
  | idle {brokered behind : List μ} (last : brokered = [] → behind = []) :
      Phase subscription .idle (if brokered = [] then none else some ⟨brokered, behind⟩) [] brokered
        behind
  | lookedUp (m : μ) (brokered behind : List μ) :
      Phase subscription (.lookedUp subscription) (some ⟨m :: brokered, behind⟩) [m] brokered behind
  | popped (m : μ) (brokered behind : List μ) :
      Phase subscription (.popped subscription (some m)) (some ⟨brokered, behind⟩) [m] brokered
        behind
  | invoked (brokered behind : List μ) :
      Phase subscription (.invoked subscription) (some ⟨brokered, behind⟩) [] brokered behind
  | erased (behind : List μ) : Phase subscription (.erased subscription behind) none [] [] behind

def Inv (s : MessageBroker μ) : Prop :=
  ∃ subscription running broker lost handled custom taken brokered tasks behind,
    s = laidOut subscription running broker lost handled custom taken brokered tasks behind ∧
      Phase subscription running broker taken brokered behind ∧
      Fits handled custom tasks behind subscription

/-- The broker between two actions of `dispatch`. -/
def atRest (subscription : Subscription) (lost handled custom brokered tasks behind : List μ) :
    MessageBroker μ :=
  laidOut subscription .idle (if brokered = [] then none else some ⟨brokered, behind⟩) lost handled
    custom [] brokered tasks behind

variable {s}

theorem inv_atRest {subscription : Subscription}
    {lost handled custom brokered tasks behind : List μ} (last : brokered = [] → behind = [])
    (fits : Fits handled custom tasks behind subscription) :
    Inv (atRest subscription lost handled custom brokered tasks behind) :=
  ⟨_, _, _, _, _, _, _, _, _, _, rfl, .idle last, fits⟩

theorem Inv.eq_atRest (h : s.Inv) (idle : s.running = .idle) :
    ∃ subscription lost handled custom brokered tasks behind,
      s = atRest subscription lost handled custom brokered tasks behind ∧
        (brokered = [] → behind = []) ∧ Fits handled custom tasks behind subscription := by
  obtain ⟨subscription, running, broker, lost, handled, custom, taken, brokered, tasks, behind, rfl,
    phase, fits⟩ := h
  obtain rfl : running = .idle := idle
  cases phase with
  | idle last => exact ⟨_, _, _, _, _, _, _, rfl, last, fits⟩

theorem inv_init : (machine (μ := μ)).init.Inv :=
  @inv_atRest μ .absent [] [] [] [] [] [] (fun _ => rfl) ⟨rfl, rfl, rfl, rfl⟩

theorem fits_of_notYet {subscription : Subscription} (notYet : isEntity subscription = false)
    {handled custom tasks behind : List μ} : Fits handled custom tasks behind subscription ↔
      handled = [] ∧ custom = [] ∧ tasks = [] ∧ behind = [] := by
  cases subscription with
  | entity => cases notYet
  | _ => exact Iff.rfl

/-! ## What the wire and the advising thread do -/

theorem dispatch_of_notYet {subscription : Subscription} (notYet : isEntity subscription = false)
    (lost brokered : List μ) (m : μ) :
    (atRest subscription lost [] [] brokered [] []).dispatch m =
      atRest .null lost [] [] (brokered ++ [m]) [] [] := by
  rcases subscription with _ | _ | _
  · by_cases none : brokered = [] <;>
      simp [dispatch, atRest, laidOut, touchSubscription, none, List.replicate_succ']
  · by_cases none : brokered = [] <;>
      simp [dispatch, atRest, laidOut, touchSubscription, none, List.replicate_succ']
  · cases notYet

theorem Inv.dispatch (h : s.Inv) {m : μ} (stays : s.Stays (.dispatch m)) : (s.dispatch m).Inv := by
  obtain ⟨subscription, lost, handled, custom, brokered, tasks, behind, rfl, last, fits⟩ :=
    h.eq_atRest stays
  by_cases entity : isEntity subscription = false
  · obtain ⟨rfl, rfl, rfl, rfl⟩ := (fits_of_notYet entity).1 fits
    rw [dispatch_of_notYet entity]
    exact inv_atRest (fun _ => rfl) ⟨rfl, rfl, rfl, rfl⟩
  rcases subscription with _ | _ | (_ | (_ | _))
  · exact absurd rfl entity
  · exact absurd rfl entity
  · -- the task goes to the default scheduler
    obtain ⟨rfl, rfl⟩ := fits
    have sent : (atRest (.entity .default) lost handled [] brokered tasks []).dispatch m =
        atRest (.entity .default) lost handled [] brokered (tasks ++ [m]) [] := by
      simp [MessageBroker.dispatch, atRest, laidOut, invoke]
    exact sent ▸ inv_atRest (fun _ => rfl) ⟨rfl, rfl⟩
  · obtain rfl : tasks = [] := fits
    by_cases none : brokered = []
    · obtain rfl := last none
      subst none
      have sent : (atRest (.entity (.custom false)) lost handled custom [] [] []).dispatch m =
          atRest (.entity (.custom false)) lost handled (custom ++ [m]) [] [] [] := by
        simp [MessageBroker.dispatch, atRest, laidOut, invoke]
      exact sent ▸ inv_atRest (fun _ => rfl) rfl
    · have sent : (atRest (.entity (.custom false)) lost handled custom brokered [] behind).dispatch
          m = atRest (.entity (.custom false)) lost handled custom brokered [] (behind ++ [m]) := by
        simp [MessageBroker.dispatch, atRest, laidOut, none]
      exact sent ▸ inv_atRest (absurd · none) rfl
  · exact fits.elim

theorem Inv.advise (h : s.Inv) {scheduler : WireScheduler}
    (stays : s.Stays (.advise scheduler)) : Inv { s with subscription := .entity scheduler } := by
  obtain ⟨idle, notYet, ordered⟩ := stays
  obtain ⟨subscription, lost, handled, custom, brokered, tasks, behind, rfl, last, fits⟩ :=
    h.eq_atRest idle
  obtain ⟨rfl, rfl, rfl, rfl⟩ := (fits_of_notYet notYet).1 fits
  refine @inv_atRest μ (.entity scheduler) lost [] [] brokered [] [] last ?_
  rcases scheduler with _ | (_ | _)
  · exact ⟨rfl, rfl⟩
  · exact rfl
  · exact absurd rfl ordered

/-! ## What the schedulers do -/

theorem Inv.lookUp {subscription : Subscription} {lost handled custom tasks behind : List μ} {m : μ}
    {brokered : List μ} (fits : Fits handled custom tasks behind subscription) :
    Inv ({ atRest subscription lost handled custom (m :: brokered) tasks behind with
      defaultQueue := List.replicate brokered.length .brokered ++ tasks.map .execute } :
        MessageBroker μ).lookUp := by
  by_cases absent : subscription = .absent
  · subst absent
    refine ⟨.null, _, _, lost, handled, custom, [m], brokered, tasks, behind, ?_,
      .lookedUp m brokered behind, fits⟩
    simp [MessageBroker.lookUp, atRest, laidOut, touchSubscription]
  · refine ⟨subscription, _, _, lost, handled, custom, [m], brokered, tasks, behind, ?_,
      .lookedUp m brokered behind, fits⟩
    simp [MessageBroker.lookUp, atRest, laidOut, touchSubscription, absent]

theorem Inv.runDefault (h : s.Inv) {s' : MessageBroker μ}
    (ran : step s .runDefault = some s') : s'.Inv := by
  have idle : s.running = .idle := by
    simp only [step] at ran
    split at ran <;> first | assumption | cases ran
  obtain ⟨subscription, lost, handled, custom, brokered, tasks, behind, rfl, last, fits⟩ :=
    h.eq_atRest idle
  cases brokered with
  | cons m brokered =>
    obtain rfl := Option.some.inj ran
    exact Inv.lookUp fits
  | nil =>
    obtain rfl := last rfl
    cases tasks with
    | nil => cases ran
    | cons m tasks =>
      obtain rfl := Option.some.inj ran
      rcases subscription with _ | _ | (_ | (_ | _))
      · cases fits.2.2.1
      · cases fits.2.2.1
      · obtain ⟨rfl, -⟩ := fits
        refine ⟨.entity .default, _, _, lost, handled ++ [m], [], [], [], tasks, [], ?_,
          .idle fun _ => rfl, ⟨rfl, rfl⟩⟩
        simp [atRest, laidOut, execute]
      · cases fits
      · exact fits.elim

/-- The message in hand goes to the entity, to its scheduler, or nowhere. -/
theorem Inv.pass {subscription : Subscription} {lost handled custom brokered tasks behind : List μ}
    {m : μ} (fits : Fits handled custom tasks behind subscription) :
    Inv ((laidOut subscription (.popped subscription (some m)) (some ⟨brokered, behind⟩) lost
      handled custom [m] brokered tasks behind).pass subscription (some m)) := by
  rcases subscription with _ | _ | (_ | (_ | _))
  · obtain ⟨rfl, rfl, rfl, rfl⟩ := fits
    refine ⟨.absent, _, _, lost ++ [m], [], [], [], brokered, [], [], ?_, .invoked brokered [],
      ⟨rfl, rfl, rfl, rfl⟩⟩
    simp [MessageBroker.pass, laidOut]
  · obtain ⟨rfl, rfl, rfl, rfl⟩ := fits
    refine ⟨.null, _, _, lost ++ [m], [], [], [], brokered, [], [], ?_, .invoked brokered [],
      ⟨rfl, rfl, rfl, rfl⟩⟩
    simp [MessageBroker.pass, laidOut]
  · obtain ⟨rfl, rfl⟩ := fits
    refine ⟨.entity .default, _, _, lost, handled ++ [m], [], [], brokered, tasks, [], ?_,
      .invoked brokered [], ⟨rfl, rfl⟩⟩
    simp [MessageBroker.pass, laidOut]
  · refine ⟨.entity (.custom false), _, _, lost, handled, custom ++ [m], [], brokered, tasks,
      behind, ?_, .invoked brokered behind, fits⟩
    simp [MessageBroker.pass, laidOut, invoke]
  · exact fits.elim

/-- What is behind the broker goes on when the broker is empty. -/
theorem Inv.erase {subscription : Subscription} {lost handled custom brokered tasks behind : List μ}
    (fits : Fits handled custom tasks behind subscription) :
    Inv ((laidOut subscription (.invoked subscription) (some ⟨brokered, behind⟩) lost handled custom
      [] brokered tasks behind).erase subscription) := by
  by_cases none : brokered = []
  · subst none
    exact ⟨subscription, _, _, lost, handled, custom, [], [], tasks, behind, rfl, .erased behind,
      fits⟩
  · have goes : (laidOut subscription (.invoked subscription) (some ⟨brokered, behind⟩) lost handled
        custom [] brokered tasks behind).erase subscription =
          atRest subscription lost handled custom brokered tasks behind := by
      simp [MessageBroker.erase, atRest, laidOut, none]
    exact goes ▸ inv_atRest (absurd · none) fits

theorem Inv.flush {subscription : Subscription} {lost handled custom tasks behind : List μ}
    (fits : Fits handled custom tasks behind subscription) :
    Inv ((laidOut subscription (.erased subscription behind) none lost handled custom [] [] tasks
      behind).flush subscription behind) := by
  cases behind with
  | nil => exact @inv_atRest μ subscription lost handled custom [] tasks [] (fun _ => rfl) fits
  | cons m behind =>
    rcases subscription with _ | _ | (_ | (_ | _))
    · cases fits.2.2.2
    · cases fits.2.2.2
    · cases fits.2
    · obtain rfl : tasks = [] := fits
      refine ⟨.entity (.custom false), _, _, lost, handled, custom ++ [m], [], [], [], behind, ?_,
        .erased behind, rfl⟩
      simp [MessageBroker.flush, laidOut, invoke]
    · exact fits.elim

theorem Inv.continueAction (h : s.Inv) {s' : MessageBroker μ}
    (continues : s.continueAction = some s') : s'.Inv := by
  obtain ⟨subscription, running, broker, lost, handled, custom, taken, brokered, tasks, behind, rfl,
    phase, fits⟩ := h
  cases phase with
  | idle => cases continues
  | lookedUp m =>
    obtain rfl := Option.some.inj continues
    exact ⟨subscription, _, _, lost, handled, custom, [m], brokered, tasks, behind, rfl,
      .popped m brokered behind, fits⟩
  | popped m =>
    obtain rfl := Option.some.inj continues
    exact Inv.pass fits
  | invoked =>
    obtain rfl := Option.some.inj continues
    exact Inv.erase fits
  | erased =>
    obtain rfl := Option.some.inj continues
    exact Inv.flush fits

theorem Inv.runCustom (h : s.Inv) {s' : MessageBroker μ}
    (ran : step s .runCustom = some s') : s'.Inv := by
  obtain ⟨subscription, running, broker, lost, handled, custom, taken, brokered, tasks, behind, rfl,
    phase, fits⟩ := h
  cases custom with
  | nil => cases ran
  | cons m custom =>
    obtain rfl := Option.some.inj ran
    rcases subscription with _ | _ | (_ | (_ | _))
    · cases fits.2.1
    · cases fits.2.1
    · cases fits.1
    · refine ⟨.entity (.custom false), running, broker, lost, handled ++ [m], custom, taken,
        brokered, tasks, behind, ?_, phase, fits⟩
      simp [laidOut, execute]
    · exact fits.elim

theorem Inv.step {s' : MessageBroker μ} {e : BrokerEvent μ} (h : s.Inv) (stays : s.Stays e)
    (hs : step s e = some s') : s'.Inv := by
  cases e with
  | dispatch m =>
    obtain rfl := Option.some.inj hs
    exact h.dispatch stays
  | advise scheduler =>
    obtain rfl := Option.some.inj hs
    exact h.advise stays
  | terminate => exact stays.elim
  | runDefault => exact h.runDefault hs
  | continueDefault => exact h.continueAction hs
  | runCustom => exact h.runCustom hs

theorem inv_of_run {es : List (BrokerEvent μ)} (h : machine.Run es s)
    (stays : machine.Along es Stays) : s.Inv :=
  h.invariant_along inv_init Inv.step stays

/-! ## What happens to the messages after the entity has been advised -/

section Entity

variable {scheduler : WireScheduler} (entity : s.subscription = .entity scheduler)
include entity

theorem dispatch_eq (m : μ) :
    (s.dispatch m).subscription = .entity scheduler ∧ (s.dispatch m).lost = s.lost := by
  unfold dispatch
  simp only [entity]
  split_ifs
  · cases scheduler <;> exact ⟨rfl, rfl⟩
  · cases s.broker with
    | none => cases scheduler <;> exact ⟨rfl, rfl⟩
    | some mq => exact ⟨rfl, rfl⟩

theorem execute_eq (m : μ) :
    (s.execute m).subscription = .entity scheduler ∧ (s.execute m).lost = s.lost := by
  unfold execute
  rw [if_neg (by rw [entity]; exact nofun)]
  exact ⟨entity, rfl⟩

theorem pass_eq (message : Option μ) :
    (s.pass (.entity scheduler) message).subscription = .entity scheduler ∧
      (s.pass (.entity scheduler) message).lost = s.lost := by
  cases message with
  | none => exact ⟨entity, rfl⟩
  | some m => cases scheduler <;> exact ⟨entity, rfl⟩

theorem flush_eq (messages : List μ) :
    (s.flush (.entity scheduler) messages).subscription = .entity scheduler ∧
      (s.flush (.entity scheduler) messages).lost = s.lost := by
  cases messages with
  | nil => exact ⟨entity, rfl⟩
  | cons m rest => cases scheduler <;> exact ⟨entity, rfl⟩

theorem continueAction_eq (h : s.Inv) {s' : MessageBroker μ}
    (continues : s.continueAction = some s') :
    s'.subscription = .entity scheduler ∧ s'.lost = s.lost := by
  obtain ⟨subscription, running, broker, lost, handled, custom, taken, brokered, tasks, behind, rfl,
    phase, fits⟩ := h
  obtain rfl : subscription = .entity scheduler := entity
  cases phase with
  | idle => cases continues
  | lookedUp m =>
    obtain rfl := Option.some.inj continues
    exact ⟨rfl, rfl⟩
  | popped m =>
    obtain rfl := Option.some.inj continues
    exact pass_eq rfl _
  | invoked =>
    obtain rfl := Option.some.inj continues
    simp only [erase, laidOut]
    split_ifs <;> exact ⟨rfl, rfl⟩
  | erased =>
    obtain rfl := Option.some.inj continues
    exact flush_eq rfl _

/-- No message is lost while there is an entity. -/
theorem lost_of_step (h : s.Inv) {s' : MessageBroker μ} {e : BrokerEvent μ} (stays : s.Stays e)
    (hs : step s e = some s') : s'.subscription = .entity scheduler ∧ s'.lost = s.lost := by
  cases e with
  | dispatch m =>
    obtain rfl := Option.some.inj hs
    exact dispatch_eq entity m
  | advise =>
    have notYet := stays.2.1
    rw [entity] at notYet
    cases notYet
  | terminate => exact stays.elim
  | runDefault =>
    simp only [step] at hs
    split at hs
    · obtain rfl := Option.some.inj hs
      simp [lookUp, touchSubscription, entity]
    · rename_i m rest _ _
      obtain rfl := Option.some.inj hs
      exact execute_eq (s := { s with defaultQueue := rest }) entity m
    · cases hs
  | continueDefault => exact continueAction_eq entity h hs
  | runCustom =>
    simp only [step] at hs
    split at hs
    · cases hs
    · rename_i m rest _
      obtain rfl := Option.some.inj hs
      exact execute_eq (s := { s with customQueue := rest }) entity m

end Entity

/-- A message is lost before the entity is advised, the next one is still in the broker then. -/
def early : List (BrokerEvent ℕ) :=
  [.dispatch 10, .dispatch 20, .runDefault, .continueDefault, .continueDefault, .continueDefault,
    .advise (.custom false)]

/-- A message queues up behind the broker, and another one behind the entity's scheduler. -/
def overtaking : List (BrokerEvent ℕ) :=
  [.dispatch 30, .runDefault, .continueDefault, .continueDefault, .continueDefault, .runCustom,
    .continueDefault, .continueDefault, .dispatch 40, .runCustom, .runCustom]

/-- A message that is dispatched after the entry has been erased overtakes one that waited behind
it. -/
example : (machine.exec machine.init
    [.dispatch 10, .advise (.custom false), .dispatch 20, .runDefault, .continueDefault,
      .continueDefault, .continueDefault, .dispatch 30, .continueDefault, .runCustom, .runCustom,
      .runCustom]).map handled = some [10, 30, 20] := by
  decide

/-- A message that comes after the end of the subscription brings its entry back as a null pointer,
and the one before it still reaches the entity. -/
example : (machine.exec machine.init
    [.advise .default, .dispatch 10, .terminate, .dispatch 20, .runDefault]).map handled =
      some [10] := by
  decide

/-- What waits behind the broker for an entity that is gone is passed to a null pointer. -/
example : (machine.exec machine.init
    [.dispatch 10, .advise (.custom false), .dispatch 20, .terminate, .runDefault, .continueDefault,
      .continueDefault, .continueDefault, .continueDefault]).map crashed = some true := by
  decide

end MessageBroker

end CarpenterDemo.Rd
