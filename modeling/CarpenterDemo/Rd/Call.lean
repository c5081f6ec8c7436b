import CarpenterDemo.Library.Duplex
import CarpenterDemo.Library.Lists
import CarpenterDemo.Rd.Identities

/-!
# Calls

The left side has an `RdCall`, the right side the `RdEndpoint` with the same id.  A call makes an id
for its task, subscribes the task under that id and sends the request; the endpoint sends the result
that its handler's task has when the handler returns.  A task keeps the first result that it gets.

Both sides keep plain references to what may be gone.  The wire keeps the subscription of a task
that has been destroyed, as a `sync` that throws destroys its own; and the endpoint's subscription
to the handler's task refers to a variable of `on_wire_received`, so that any later result of the
task is reported to a variable that is gone.  `undefined` says that one of these has happened.

A task of `sync` gets its result when the response arrives, any other when the scheduler runs, the
same one for all of them.  The end of the call does not overlap a `sync`, and the handler does not
end the endpoint.  A `sync` that throws because there is one already leaves a subscription behind
under an id that no message has; it is left out.

`undefined`, `destroyed`, `request` and `outcomes` are additions of the model.

* `answered_by_own_request`: the result of a task is what the endpoint's handler returned for the
  same request, or the call has ended.
* `sync_works_iff`: `sync` sends no request any more once it has thrown.
-/

namespace CarpenterDemo.Rd

inductive RdTaskResult (Res : Type*)
  | success (value : Res)
  | cancelled
  | fault (reasonTypeFqn reasonMessage reasonAsText : String)
  deriving DecidableEq, Repr

def RdTaskResult.isSucceeded {Res : Type*} : RdTaskResult Res → Bool
  | .success _ => true
  | _ => false

structure WiredRdTask (Req Res : Type*) where
  id : RdId
  sync : Bool
  request : Req
  result : Option (RdTaskResult Res) := none
  destroyed : Bool := false
  deriving DecidableEq, Repr

structure RdCall (Req Res : Type*) where
  rdid : RdId
  identity : Identities
  terminated : Bool := false
  tasks : List (WiredRdTask Req Res) := []
  /-- The ids under which tasks are subscribed, the last one first. -/
  subscriptions : List (RdId × ℕ) := []
  /-- The responses that wait for the scheduler. -/
  queue : List (ℕ × RdTaskResult Res) := []
  syncTaskId : Option RdId := none
  /-- The task that a thread in `sync` waits for. -/
  awaited : Option ℕ := none
  /-- What the tasks of `sync` held when it stopped waiting for them. -/
  outcomes : List (Option (RdTaskResult Res)) := []
  /-- Something was done to a task that has been destroyed. -/
  undefined : Bool := false
  deriving DecidableEq, Repr

structure EndpointTask (Req Res : Type*) where
  taskId : RdId
  request : Req
  /-- What the handler's task had when the handler returned. -/
  answer : Option (RdTaskResult Res)
  deriving DecidableEq, Repr

structure RdEndpoint (Req Res : Type*) where
  terminated : Bool := false
  tasks : List (EndpointTask Req Res) := []
  /-- A task has been given a result that is reported to a variable that is gone. -/
  undefined : Bool := false
  deriving DecidableEq, Repr

inductive CallOp (Req : Type*)
  | start (request : Req)
  | sync (request : Req)
  /-- The thread in `sync` stops waiting, with a result or without one. -/
  | syncEnd
  /-- The last copy of the `k`-th task goes out of scope. -/
  | drop (k : ℕ)
  /-- The scheduler runs the oldest response. -/
  | run
  /-- Another entity makes an id. -/
  | next (parent : RdId)
  | terminate
  deriving DecidableEq, Repr

inductive EndpointOp (Res : Type*)
  /-- The task that the handler returned for the `k`-th request is given a result. -/
  | set (k : ℕ) (result : RdTaskResult Res)
  | terminate
  deriving DecidableEq, Repr

abbrev Request (Req : Type*) := RdId × Req

abbrev Response (Res : Type*) := RdId × RdTaskResult Res

variable {Req Res : Type*}

def WiredRdTask.setIfEmpty (self : WiredRdTask Req Res) (result : RdTaskResult Res) :
    WiredRdTask Req Res :=
  if self.result.isSome then self else { self with result := some result }

section SetIfEmpty

variable (task : WiredRdTask Req Res) (result : RdTaskResult Res)

@[simp] theorem id_setIfEmpty : (task.setIfEmpty result).id = task.id := by
  unfold WiredRdTask.setIfEmpty
  split_ifs <;> rfl

@[simp] theorem sync_setIfEmpty : (task.setIfEmpty result).sync = task.sync := by
  unfold WiredRdTask.setIfEmpty
  split_ifs <;> rfl

@[simp] theorem request_setIfEmpty : (task.setIfEmpty result).request = task.request := by
  unfold WiredRdTask.setIfEmpty
  split_ifs <;> rfl

@[simp] theorem destroyed_setIfEmpty : (task.setIfEmpty result).destroyed = task.destroyed := by
  unfold WiredRdTask.setIfEmpty
  split_ifs <;> rfl

@[simp] theorem result_setIfEmpty :
    (task.setIfEmpty result).result = some (task.result.getD result) := by
  unfold WiredRdTask.setIfEmpty
  cases held : task.result <;> simp [held]

end SetIfEmpty

namespace RdCall

variable (self : RdCall Req Res)

def setIfEmpty (k : ℕ) (result : RdTaskResult Res) : RdCall Req Res :=
  { self with tasks := self.tasks.modify k fun task => task.setIfEmpty result }

def isDestroyed (k : ℕ) : Bool := self.tasks[k]?.any WiredRdTask.destroyed

/-- `~WiredRdTaskImpl`, which takes back the task's action at the end of the call, but not its
subscription. -/
def destroy (k : ℕ) : RdCall Req Res :=
  { self with tasks := self.tasks.modify k fun task => { task with destroyed := true } }

/-- The new task of `start_internal`, which is subscribed before its request is sent. -/
def startInternal (request : Req) (sync : Bool) : RdCall Req Res × List (Request Req) :=
  let (taskId, identity) := self.identity.next self.rdid
  ({ self with
      identity := identity
      tasks := self.tasks ++ [{ id := taskId, sync := sync, request := request }]
      subscriptions := (taskId, self.tasks.length) :: self.subscriptions },
    [(taskId, request)])

/-- `sync` up to its loop; the id is made even if it throws. -/
def beginSync (request : Req) : RdCall Req Res × List (Request Req) :=
  if self.syncTaskId.isSome then
    ({ self with identity := (self.identity.next self.rdid).2 }, [])
  else
    let (call, sent) := self.startInternal request true
    ({ call with
        syncTaskId := some (self.identity.next self.rdid).1
        awaited := some self.tasks.length }, sent)

/-- `sync` after its loop.  `value_or_throw` and `unwrap` may throw, which destroys the task. -/
def endSync (k : ℕ) : RdCall Req Res :=
  let outcome := self.tasks[k]?.bind WiredRdTask.result
  let self := { self with awaited := none, outcomes := self.outcomes ++ [outcome] }
  match outcome with
  | some (.success _) => { self with syncTaskId := none }
  | _ => self.destroy k

/-- The end of the lifetime cancels the tasks and their subscriptions. -/
def terminate : RdCall Req Res :=
  { self with
    terminated := true
    tasks := self.tasks.map fun task =>
      if task.destroyed then task else task.setIfEmpty .cancelled
    subscriptions := [] }

def act : CallOp Req → Option (RdCall Req Res × List (Request Req))
  | .start request => if self.terminated then none else some (self.startInternal request false)
  | .sync request => if self.terminated then none else some (self.beginSync request)
  | .syncEnd => self.awaited.map fun k => (self.endSync k, [])
  | .drop k => if self.awaited = some k then none else some (self.destroy k, [])
  | .run =>
    match self.queue with
    | [] => none
    | (k, result) :: rest =>
      let self := { self with queue := rest }
      if self.isDestroyed k then some ({ self with undefined := true }, [])
      else some (self.setIfEmpty k result, [])
  | .next parent => some ({ self with identity := (self.identity.next parent).2 }, [])
  | .terminate =>
    if self.terminated ∨ self.awaited.isSome then none else some (self.terminate, [])

/-- `WiredRdTaskImpl::on_wire_received`, if a task is subscribed under the id. -/
def receive (response : Response Res) : RdCall Req Res :=
  match self.subscriptions.lookup response.1 with
  | none => self
  | some k =>
    if self.isDestroyed k then { self with undefined := true }
    else if (self.tasks[k]?.map WiredRdTask.sync) = some true then self.setIfEmpty k response.2
    else { self with queue := self.queue ++ [(k, response.2)] }

def party (rdid : RdId) (kind : IdKind) :
    Party (RdCall Req Res) (CallOp Req) (Request Req) (Response Res) where
  init := { rdid := rdid, identity := .ofKind kind }
  act := act
  receive self response := some (self.receive response, [])

end RdCall

namespace RdEndpoint

variable (handler : ℕ → Req → Option (RdTaskResult Res)) (self : RdEndpoint Req Res)

def act : EndpointOp Res → Option (RdEndpoint Req Res × List (Response Res))
  | .set k _ =>
    match self.tasks[k]? with
    | none => none
    -- the lifetime of the endpoint has ended the subscription to the task
    | some _ =>
      if self.terminated then some (self, []) else some ({ self with undefined := true }, [])
  | .terminate => some ({ self with terminated := true }, [])

/-- `RdEndpoint::on_wire_received`, while the endpoint is subscribed.  A handler that throws an
exception has a fault as its answer. -/
def receive (request : Request Req) : RdEndpoint Req Res × List (Response Res) :=
  if self.terminated then (self, [])
  else
    let answer := handler self.tasks.length request.2
    let task := { taskId := request.1, request := request.2, answer := answer }
    ({ self with tasks := self.tasks ++ [task] },
      answer.toList.map fun answer => (request.1, answer))

def party : Party (RdEndpoint Req Res) (EndpointOp Res) (Response Res) (Request Req) where
  init := {}
  act := act
  receive self request := some (self.receive handler request)

end RdEndpoint

abbrev CallPair (Req Res : Type*) :=
  Duplex (RdCall Req Res) (RdEndpoint Req Res) (Request Req) (Response Res)

namespace CallPair

variable (rdid : RdId) (kind : IdKind) (handler : ℕ → Req → Option (RdTaskResult Res))

def machine : Machine (CallPair Req Res) (DuplexEvent (CallOp Req) (EndpointOp Res)) :=
  Duplex.machine (RdCall.party rdid kind) (RdEndpoint.party handler)

/-- Nothing undefined has happened on either side. -/
def Defined (s : CallPair Req Res) : Prop :=
  s.left.undefined = false ∧ s.right.undefined = false

/-! ## What a task gets -/

/-- What the endpoint sends for the `k`-th request, once it has come. -/
def answers (right : RdEndpoint Req Res) (k : ℕ) : List (RdTaskResult Res) :=
  (right.tasks[k]?.bind EndpointTask.answer).toList

/-- The results for the `k`-th task that wait for the scheduler. -/
def queued (left : RdCall Req Res) (k : ℕ) : List (RdTaskResult Res) :=
  (left.queue.filter fun response => response.1 = k).map Prod.snd

/-- The results that are on their way to an id. -/
def inFlight (toLeft : List (Response Res)) (id : RdId) : List (RdTaskResult Res) :=
  (toLeft.filter fun response => response.1 = id).map Prod.snd

/-- What the `k`-th task holds, compared to what the endpoint has answered. -/
structure Served (s : CallPair Req Res) (k : ℕ) (task : WiredRdTask Req Res) : Prop where
  cancelled : task.result = none → task.destroyed = false → s.left.terminated = false
  /-- A task without a result gets all that the endpoint answers. -/
  pending : task.result = none → s.left.terminated = false →
    answers s.right k = queued s.left k ++ inFlight s.toLeft task.id
  done : ∀ r, task.result = some r →
    (r = .cancelled ∧ s.left.terminated = true) ∨ (answers s.right k).head? = some r
  subscribed : s.left.terminated = false → s.left.subscriptions.lookup task.id = some k
  sync : task.sync = true → queued s.left k = []

structure Inv (s : CallPair Req Res) : Prop where
  sameId : s.left.rdid = rdid
  counts : s.left.identity.Counts kind
  ids : (s.left.tasks.map WiredRdTask.id).Sublist
    ((List.range s.left.identity.drawn).map (Identities.id kind rdid))
  served : ∀ (k : ℕ) task, s.left.tasks[k]? = some task → s.Served k task
  lookup : ∀ id k, s.left.subscriptions.lookup id = some k →
    ∃ task, s.left.tasks[k]? = some task ∧ task.id = id
  queue : ∀ response ∈ s.left.queue, response.1 < s.left.tasks.length
  responses : ∀ response ∈ s.toLeft, response.1 ∈ s.left.tasks.map WiredRdTask.id
  requests : ∃ dropped, s.left.tasks.map (fun task => (task.id, task.request)) =
    s.right.tasks.map (fun task => (task.taskId, task.request)) ++ dropped ++ s.toRight ∧
      (s.right.terminated = false → dropped = [])
  handled : ∀ (k : ℕ) task, s.right.tasks[k]? = some task → task.answer = handler k task.request

section Inv

variable {rdid kind handler} {s : CallPair Req Res} {k : ℕ}

theorem Inv.nodup (h : s.Inv rdid kind handler) (few : s.left.identity.drawn ≤ 2 ^ 31) :
    (s.left.tasks.map WiredRdTask.id).Nodup :=
  (Identities.nodup_ids kind rdid few).sublist h.ids

@[simp] theorem inFlight_append (toLeft rest : List (Response Res)) (id : RdId) :
    inFlight (toLeft ++ rest) id = inFlight toLeft id ++ inFlight rest id := by
  simp [inFlight]

/-- The endpoint's tasks are those of the call, in the same order. -/
theorem Inv.task_of_endpointTask (h : s.Inv rdid kind handler) {answered : EndpointTask Req Res}
    (found : s.right.tasks[k]? = some answered) : ∃ task, s.left.tasks[k]? = some task ∧
      task.id = answered.taskId ∧ task.request = answered.request := by
  obtain ⟨dropped, requests, -⟩ := h.requests
  have there : (s.right.tasks.map fun task => (task.taskId, task.request))[k]? =
      some (answered.taskId, answered.request) := by
    rw [List.getElem?_map, found, Option.map_some]
  have here := Lists.getElem?_append_of_some there (dropped ++ s.toRight)
  rw [← List.append_assoc, ← requests, List.getElem?_map, Option.map_eq_some_iff] at here
  obtain ⟨task, found, same⟩ := here
  exact ⟨task, found, Prod.ext_iff.1 same⟩

theorem Inv.length_le (h : s.Inv rdid kind handler) :
    s.right.tasks.length ≤ s.left.tasks.length := by
  obtain ⟨dropped, requests, -⟩ := h.requests
  have lengths := congrArg List.length requests
  rw [List.length_append, List.length_append, List.length_map, List.length_map] at lengths
  omega

theorem answers_of_length_le {right : RdEndpoint Req Res} (after : right.tasks.length ≤ k) :
    answers right k = [] := by
  rw [answers, List.getElem?_eq_none_iff.2 after]
  rfl

/-- Two tasks have different ids. -/
theorem Inv.id_inj (h : s.Inv rdid kind handler) (few : s.left.identity.drawn ≤ 2 ^ 31) {j : ℕ}
    {task other : WiredRdTask Req Res} (found : s.left.tasks[k]? = some task)
    (found' : s.left.tasks[j]? = some other) (same : task.id = other.id) : k = j := by
  have bound := (List.getElem?_eq_some_iff.1 found).1
  refine (List.getElem?_inj (by rwa [List.length_map]) (h.nodup few)).1 ?_
  rw [List.getElem?_map, List.getElem?_map, found, found', Option.map_some, Option.map_some, same]

/-- What a change of one task leaves of the invariant. -/
theorem served_modify {s s' : CallPair Req Res} {j : ℕ}
    {f : WiredRdTask Req Res → WiredRdTask Req Res}
    (tasks : s'.left.tasks = s.left.tasks.modify j f)
    (changed : ∀ task, s.left.tasks[j]? = some task → s'.Served j (f task))
    (others : ∀ (k : ℕ) task, k ≠ j → s.left.tasks[k]? = some task → s'.Served k task) (k : ℕ)
    (task : WiredRdTask Req Res) (found : s'.left.tasks[k]? = some task) : s'.Served k task := by
  rw [tasks, List.getElem?_modify] at found
  obtain ⟨old, here, rfl⟩ := Option.map_eq_some_iff.1 found
  by_cases same : j = k
  · subst same
    rw [if_pos rfl]
    exact changed old here
  · rw [if_neg same]
    exact others k old (Ne.symm same) here

theorem Inv.withSync (h : s.Inv rdid kind handler) (syncTaskId : Option RdId) (awaited : Option ℕ)
    (outcomes : List (Option (RdTaskResult Res))) :
    Inv rdid kind handler { s with
      left := { s.left with
        syncTaskId := syncTaskId
        awaited := awaited
        outcomes := outcomes } } :=
  ⟨h.sameId, h.counts, h.ids, fun k task found =>
    have served := h.served k task found
    ⟨served.cancelled, served.pending, served.done, served.subscribed, served.sync⟩,
    h.lookup, h.queue, h.responses, h.requests, h.handled⟩

theorem Inv.next (h : s.Inv rdid kind handler) (parent : RdId) :
    Inv rdid kind handler { s with
      left := { s.left with identity := (s.left.identity.next parent).2 } } := by
  refine ⟨h.sameId, (h.counts.next parent).2, ?_, fun k task found => ?_, h.lookup, h.queue,
    h.responses, h.requests, h.handled⟩
  · show List.Sublist _ ((List.range (s.left.identity.drawn + 1)).map _)
    rw [List.range_succ, List.map_append]
    exact h.ids.trans (List.sublist_append_left _ _)
  · have served := h.served k task found
    exact ⟨served.cancelled, served.pending, served.done, served.subscribed, served.sync⟩

theorem Inv.start (h : s.Inv rdid kind handler) (few : s.left.identity.drawn + 1 ≤ 2 ^ 31)
    (alive : s.left.terminated = false) (request : Req) (sync : Bool) :
    Inv rdid kind handler { s with
      left := (s.left.startInternal request sync).1
      toRight := s.toRight ++ (s.left.startInternal request sync).2 } := by
  obtain ⟨made, counts⟩ := h.counts.next s.left.rdid
  set taskId := Identities.id kind rdid s.left.identity.drawn
  have made : (s.left.identity.next s.left.rdid).1 = taskId := by rw [made, h.sameId]
  have started : s.left.startInternal request sync = ({ s.left with
      identity := (s.left.identity.next s.left.rdid).2
      tasks := s.left.tasks ++ [{ id := taskId, sync := sync, request := request }]
      subscriptions := (taskId, s.left.tasks.length) :: s.left.subscriptions },
      [(taskId, request)]) := by
    rw [RdCall.startInternal, ← made]
  have ids : (s.left.tasks.map WiredRdTask.id ++ [taskId]).Sublist
      ((List.range (s.left.identity.drawn + 1)).map (Identities.id kind rdid)) := by
    rw [List.range_succ, List.map_append]
    exact h.ids.append (List.Sublist.refl _)
  have fresh : taskId ∉ s.left.tasks.map WiredRdTask.id := by
    have nodup := (Identities.nodup_ids kind rdid few).sublist ids
    exact fun here => List.disjoint_of_nodup_append nodup here List.mem_cons_self
  rw [started]
  refine ⟨h.sameId, counts, ?_, fun k task found => ?_, fun id k found => ?_,
    fun response waits => ?_, fun response waits => ?_, ?_, h.handled⟩
  · rw [List.map_append]
    exact ids
  · obtain found | ⟨rfl, rfl⟩ := Lists.getElem?_concat_cases found
    · have served := h.served k task found
      refine ⟨served.cancelled, served.pending, served.done, fun alive => ?_, served.sync⟩
      have other : task.id ≠ taskId := by
        intro same
        exact fresh (same ▸ List.mem_map_of_mem (List.mem_of_getElem? found))
      rw [List.lookup_cons, beq_false_of_ne other]
      exact served.subscribed alive
    · have noQueue : queued s.left s.left.tasks.length = [] := by
        rw [queued, List.filter_eq_nil_iff.2 ?_, List.map_nil]
        intro response waits
        simpa using Nat.ne_of_lt (h.queue response waits)
      have noFlight : inFlight s.toLeft taskId = [] := by
        rw [inFlight, List.filter_eq_nil_iff.2 ?_, List.map_nil]
        intro response waits
        have other : response.1 ≠ taskId := fun same => fresh (same ▸ h.responses response waits)
        simpa using other
      refine ⟨fun _ _ => alive, fun _ _ => ?_, nofun, fun _ => ?_, fun _ => noQueue⟩
      · show answers s.right _ = queued s.left _ ++ inFlight s.toLeft taskId
        rw [answers_of_length_le h.length_le, noQueue, noFlight]
        rfl
      · exact List.lookup_cons_self
  · rw [List.lookup_cons] at found
    split at found
    · rename_i here
      obtain rfl := Option.some.inj found
      exact ⟨_, List.getElem?_concat_length, (beq_iff_eq.1 here).symm⟩
    · obtain ⟨task, found, same⟩ := h.lookup id k found
      exact ⟨task, Lists.getElem?_append_of_some found _, same⟩
  · rw [List.length_append, List.length_singleton]
    exact Nat.lt_succ_of_lt (h.queue response waits)
  · rw [List.map_append]
    exact List.mem_append_left _ (h.responses response waits)
  · obtain ⟨dropped, requests, none⟩ := h.requests
    refine ⟨dropped, ?_, none⟩
    rw [List.map_append, requests, List.append_assoc _ s.toRight]
    rfl

/-- A response that is the first one for its task, unless the task has a result. -/
theorem Inv.setIfEmpty (h : s.Inv rdid kind handler) {j : ℕ} {r : RdTaskResult Res}
    {queue : List (ℕ × RdTaskResult Res)} {toLeft : List (Response Res)}
    (queueKnown : ∀ response ∈ queue, response ∈ s.left.queue)
    (toLeftKnown : ∀ response ∈ toLeft, response ∈ s.toLeft)
    (others : ∀ (k : ℕ) task, k ≠ j → s.left.tasks[k]? = some task →
      (queue.filter fun response => response.1 = k) =
          (s.left.queue.filter fun response => response.1 = k) ∧
        inFlight toLeft task.id = inFlight s.toLeft task.id)
    (own : ∀ task, s.left.tasks[j]? = some task →
      task.destroyed = false ∧
        (task.result = none → s.left.terminated = false → (answers s.right j).head? = some r) ∧
        (task.sync = true → (queue.filter fun response => response.1 = j) = [])) :
    Inv rdid kind handler { s with
      left := { s.left with queue := queue }.setIfEmpty j r
      toLeft := toLeft } := by
  have ids : ((s.left.tasks.modify j fun task => task.setIfEmpty r).map WiredRdTask.id) =
      s.left.tasks.map WiredRdTask.id := Lists.map_modify_of_eq (fun _ => id_setIfEmpty _ _) _ _
  refine ⟨h.sameId, h.counts, ?_, ?_, ?_, ?_, ?_, ?_, h.handled⟩
  · show List.Sublist ((s.left.tasks.modify j _).map _) _
    rw [ids]
    exact h.ids
  · refine served_modify rfl (fun task found => ?_) fun k task other found => ?_
    · have served := h.served j task found
      obtain ⟨live, first, none⟩ := own task found
      refine ⟨by simp, by simp, fun result done => ?_, fun alive => ?_, fun sync => ?_⟩
      · rw [result_setIfEmpty, Option.some_inj] at done
        cases held : task.result with
        | none =>
          rw [held] at done
          obtain rfl : r = result := done
          exact Or.inr (first held (served.cancelled held live))
        | some before =>
          rw [held] at done
          obtain rfl : before = result := done
          exact served.done before held
      · rw [id_setIfEmpty]
        exact served.subscribed alive
      · rw [sync_setIfEmpty] at sync
        exact List.map_eq_nil_iff.2 (none sync)
    · have served := h.served k task found
      obtain ⟨sameQueue, sameFlight⟩ := others k task other found
      have sameQueued :
          queued ({ s.left with queue := queue }.setIfEmpty j r) k = queued s.left k :=
        congrArg _ sameQueue
      refine ⟨served.cancelled, fun none alive => ?_, served.done, served.subscribed,
        fun sync => ?_⟩
      · rw [sameQueued]
        show answers s.right k = _ ++ inFlight toLeft task.id
        rw [sameFlight]
        exact served.pending none alive
      · rw [sameQueued]
        exact served.sync sync
  · intro id k found
    obtain ⟨task, found, same⟩ := h.lookup id k found
    show ∃ task, (s.left.tasks.modify j _)[k]? = some task ∧ task.id = id
    rw [List.getElem?_modify, found]
    refine ⟨_, rfl, ?_⟩
    split_ifs
    · rw [id_setIfEmpty, same]
    · exact same
  · intro response waits
    show response.1 < (s.left.tasks.modify j _).length
    rw [List.length_modify]
    exact h.queue response (queueKnown response waits)
  · intro response waits
    show response.1 ∈ (s.left.tasks.modify j _).map _
    rw [ids]
    exact h.responses response (toLeftKnown response waits)
  · obtain ⟨dropped, requests, none⟩ := h.requests
    refine ⟨dropped, ?_, none⟩
    show (s.left.tasks.modify j _).map _ = _
    rw [Lists.map_modify_of_eq (fun _ => by simp), requests]

theorem live_of_isDestroyed {call : RdCall Req Res} {task : WiredRdTask Req Res}
    (live : call.isDestroyed k = false) (found : call.tasks[k]? = some task) :
    task.destroyed = false := by
  rwa [RdCall.isDestroyed, found, Option.any_some] at live

theorem Inv.run (h : s.Inv rdid kind handler) {r : RdTaskResult Res}
    {rest : List (ℕ × RdTaskResult Res)} (oldest : s.left.queue = (k, r) :: rest)
    (live : s.left.isDestroyed k = false) :
    Inv rdid kind handler { s with left := { s.left with queue := rest }.setIfEmpty k r } := by
  have here : queued s.left k = r :: (rest.filter fun response => response.1 = k).map Prod.snd := by
    rw [queued, oldest, List.filter_cons_of_pos (by simp)]
    rfl
  refine h.setIfEmpty (fun response waits => ?_) (fun _ waits => waits)
    (fun j task other found => ?_) fun task found => ?_
  · rw [oldest]
    exact List.mem_cons_of_mem _ waits
  · rw [oldest, List.filter_cons_of_neg (by simpa using Ne.symm other)]
    exact ⟨rfl, rfl⟩
  · have served := h.served k task found
    refine ⟨live_of_isDestroyed live found, fun none alive => ?_, fun sync => ?_⟩
    · rw [served.pending none alive, here]
      rfl
    · rw [served.sync sync] at here
      cases here

theorem Inv.destroy (h : s.Inv rdid kind handler) (j : ℕ) :
    Inv rdid kind handler { s with left := s.left.destroy j } := by
  have ids : (s.left.destroy j).tasks.map WiredRdTask.id = s.left.tasks.map WiredRdTask.id := by
    refine Lists.map_modify_of_eq (fun task => ?_) _ _
    rfl
  refine ⟨h.sameId, h.counts, ?_, ?_, fun id k found => ?_, fun response waits => ?_,
    fun response waits => ?_, ?_, h.handled⟩
  · show List.Sublist ((s.left.destroy j).tasks.map _) _
    rw [ids]
    exact h.ids
  · refine served_modify rfl (fun task found => ?_) fun k task other found => ?_
    · have served := h.served j task found
      exact ⟨nofun, served.pending, served.done, served.subscribed, served.sync⟩
    · have served := h.served k task found
      exact ⟨served.cancelled, served.pending, served.done, served.subscribed, served.sync⟩
  · obtain ⟨task, found, same⟩ := h.lookup id k found
    show ∃ task, (s.left.tasks.modify j _)[k]? = some task ∧ task.id = id
    rw [List.getElem?_modify, found]
    refine ⟨_, rfl, ?_⟩
    split_ifs <;> exact same
  · show response.1 < (s.left.tasks.modify j _).length
    rw [List.length_modify]
    exact h.queue response waits
  · show response.1 ∈ (s.left.destroy j).tasks.map _
    rw [ids]
    exact h.responses response waits
  · obtain ⟨dropped, requests, none⟩ := h.requests
    have same : ((s.left.destroy j).tasks.map fun task => (task.id, task.request)) =
        s.left.tasks.map fun task => (task.id, task.request) := by
      refine Lists.map_modify_of_eq (fun task => ?_) _ _
      rfl
    exact ⟨dropped, same.trans requests, none⟩

/-- What the end of the call does to a task. -/
theorem cancel_spec (task : WiredRdTask Req Res) {f : WiredRdTask Req Res → WiredRdTask Req Res}
    (cancels : f = fun task => if task.destroyed then task else task.setIfEmpty .cancelled) :
    (f task).id = task.id ∧ (f task).request = task.request ∧ (f task).sync = task.sync ∧
      ((f task).result = task.result ∨
        task.result = none ∧ (f task).result = some .cancelled) ∧
      ((f task).result = none → (f task).destroyed = true) := by
  rw [cancels]
  dsimp only
  split_ifs with gone
  · exact ⟨rfl, rfl, rfl, Or.inl rfl, fun _ => gone⟩
  · refine ⟨id_setIfEmpty _ _, request_setIfEmpty _ _, sync_setIfEmpty _ _, ?_, by simp⟩
    rw [result_setIfEmpty]
    cases task.result with
    | none => exact Or.inr ⟨rfl, rfl⟩
    | some r => exact Or.inl rfl

theorem Inv.terminate (h : s.Inv rdid kind handler) :
    Inv rdid kind handler { s with left := s.left.terminate } := by
  have ids : s.left.terminate.tasks.map WiredRdTask.id = s.left.tasks.map WiredRdTask.id := by
    rw [RdCall.terminate, List.map_map]
    exact List.map_congr_left fun task _ => (cancel_spec task rfl).1
  refine ⟨h.sameId, h.counts, ?_, fun k task found => ?_, nofun, fun response waits => ?_,
    fun response waits => ?_, ?_, h.handled⟩
  · show List.Sublist (s.left.terminate.tasks.map _) _
    rw [ids]
    exact h.ids
  · obtain ⟨old, here, same⟩ := Option.map_eq_some_iff.1 ((List.getElem?_map ..).symm.trans found)
    have served := h.served k old here
    obtain ⟨-, -, sameSync, result, gone⟩ := cancel_spec old rfl
    rw [same] at sameSync result gone
    refine ⟨fun none live => ?_, nofun, fun r done => ?_, nofun, fun sync => ?_⟩
    · rw [gone none] at live
      cases live
    · obtain kept | ⟨-, cancelled⟩ := result
      · obtain ⟨cancelled, -⟩ | first := served.done r (kept.symm.trans done)
        · exact Or.inl ⟨cancelled, rfl⟩
        · exact Or.inr first
      · exact Or.inl ⟨Option.some.inj (done.symm.trans cancelled), rfl⟩
    · exact served.sync (sameSync.symm.trans sync)
  · show response.1 < (s.left.tasks.map _).length
    rw [List.length_map]
    exact h.queue response waits
  · show response.1 ∈ s.left.terminate.tasks.map _
    rw [ids]
    exact h.responses response waits
  · obtain ⟨dropped, requests, none⟩ := h.requests
    refine ⟨dropped, ?_, none⟩
    show (s.left.tasks.map _).map _ = _
    rw [List.map_map, ← requests]
    refine List.map_congr_left fun task _ => ?_
    obtain ⟨sameId, sameRequest, -⟩ := cancel_spec task rfl
    exact Prod.ext sameId sameRequest

theorem inFlight_cons_self (response : Response Res) (rest : List (Response Res)) :
    inFlight (response :: rest) response.1 = response.2 :: inFlight rest response.1 := by
  rw [inFlight, List.filter_cons_of_pos (by simp)]
  rfl

theorem inFlight_cons_of_ne {response : Response Res} {id : RdId} (other : id ≠ response.1)
    (rest : List (Response Res)) : inFlight (response :: rest) id = inFlight rest id := by
  rw [inFlight, List.filter_cons_of_neg (by simpa using Ne.symm other)]
  rfl

/-- A response without a subscriber comes after the end of the call. -/
theorem Inv.unheard (h : s.Inv rdid kind handler) {response : Response Res}
    {rest : List (Response Res)} (oldest : s.toLeft = response :: rest)
    (unsubscribed : s.left.subscriptions.lookup response.1 = none) :
    Inv rdid kind handler { s with toLeft := rest } := by
  have ended : s.left.terminated ≠ false := by
    intro alive
    obtain ⟨task, here, same⟩ := List.mem_map.1 (h.responses response (oldest ▸ List.mem_cons_self))
    obtain ⟨k, found⟩ := List.getElem?_of_mem here
    have subscribed := (h.served k task found).subscribed alive
    rw [same, unsubscribed] at subscribed
    cases subscribed
  refine ⟨h.sameId, h.counts, h.ids, fun k task found => ?_, h.lookup, h.queue,
    fun other waits => ?_, h.requests, h.handled⟩
  · have served := h.served k task found
    exact ⟨served.cancelled, fun _ alive => absurd alive ended, served.done, served.subscribed,
      served.sync⟩
  · exact h.responses other (oldest ▸ List.mem_cons_of_mem _ waits)

/-- A response that has to wait for the scheduler. -/
theorem Inv.enqueue (h : s.Inv rdid kind handler) (few : s.left.identity.drawn ≤ 2 ^ 31)
    {response : Response Res} {rest : List (Response Res)} {task : WiredRdTask Req Res}
    (oldest : s.toLeft = response :: rest) (found : s.left.tasks[k]? = some task)
    (same : task.id = response.1) (async : task.sync ≠ true) :
    Inv rdid kind handler { s with
      left := { s.left with queue := s.left.queue ++ [(k, response.2)] }
      toLeft := rest } := by
  have now (j : ℕ) : queued { s.left with queue := s.left.queue ++ [(k, response.2)] } j =
      queued s.left j ++ if k = j then [response.2] else [] := by
    rw [queued, List.filter_append, List.map_append]
    congr 1
    by_cases here : k = j <;> simp [here]
  refine ⟨h.sameId, h.counts, h.ids, fun j other found' => ?_, h.lookup, fun waiting waits => ?_,
    fun other waits => ?_, h.requests, h.handled⟩
  · have served := h.served j other found'
    refine ⟨served.cancelled, fun none alive => ?_, served.done, served.subscribed,
      fun sync => ?_⟩
    · refine (served.pending none alive).trans ?_
      rw [now, oldest]
      show _ = _ ++ inFlight rest other.id
      by_cases here : k = j
      · subst here
        obtain rfl := Option.some.inj (found.symm.trans found')
        rw [if_pos rfl, same, inFlight_cons_self, List.append_assoc]
        rfl
      · have different : other.id ≠ response.1 := fun equal =>
          here (h.id_inj few found found' (same.trans equal.symm))
        rw [if_neg here, inFlight_cons_of_ne different, List.append_nil]
    · have different : k ≠ j := by
        rintro rfl
        obtain rfl := Option.some.inj (found.symm.trans found')
        exact async sync
      rw [now, if_neg different, served.sync sync]
      rfl
  · obtain waits | last := List.mem_append.1 waits
    · exact h.queue waiting waits
    · rw [List.mem_singleton.1 last]
      exact (List.getElem?_eq_some_iff.1 found).1
  · exact h.responses other (oldest ▸ List.mem_cons_of_mem _ waits)

theorem Inv.receive (h : s.Inv rdid kind handler) (few : s.left.identity.drawn ≤ 2 ^ 31)
    {response : Response Res} {rest : List (Response Res)} (oldest : s.toLeft = response :: rest)
    (defined : (s.left.receive response).undefined = false) :
    Inv rdid kind handler { s with left := s.left.receive response, toLeft := rest } := by
  revert defined
  unfold RdCall.receive
  split
  · rename_i unsubscribed
    exact fun _ => h.unheard oldest unsubscribed
  · rename_i k subscribed
    obtain ⟨task, found, same⟩ := h.lookup _ k subscribed
    rw [found]
    split_ifs with gone sync
    · nofun
    · intro _
      have sync : task.sync = true := Option.some.inj sync
      have served := h.served k task found
      refine h.setIfEmpty (fun _ waits => waits) (fun other waits => ?_)
        (fun j other different found' => ?_) fun other found' => ?_
      · exact oldest ▸ List.mem_cons_of_mem _ waits
      · refine ⟨rfl, ?_⟩
        rw [oldest, inFlight_cons_of_ne]
        exact fun equal => different (h.id_inj few found' found (equal.trans same.symm))
      · obtain rfl := Option.some.inj (found.symm.trans found')
        refine ⟨live_of_isDestroyed (eq_false_of_ne_true gone) found, fun none alive => ?_,
          fun _ => List.map_eq_nil_iff.1 (served.sync sync)⟩
        rw [served.pending none alive, served.sync sync, oldest, same, inFlight_cons_self]
        rfl
    · intro _
      exact h.enqueue few oldest found same fun async => sync (congrArg some async)

/-- What the endpoint answers to the `k`-th request is sent. -/
theorem Inv.answer (h : s.Inv rdid kind handler) (few : s.left.identity.drawn ≤ 2 ^ 31)
    {right : RdEndpoint Req Res} {toRight : List (Request Req)} {task : WiredRdTask Req Res}
    (found : s.left.tasks[k]? = some task)
    (results : List (RdTaskResult Res)) (own : answers right k = answers s.right k ++ results)
    (others : ∀ j, j ≠ k → answers right j = answers s.right j) (j : ℕ)
    (other : WiredRdTask Req Res) (found' : s.left.tasks[j]? = some other) :
    Served { s with
      right := right
      toRight := toRight
      toLeft := s.toLeft ++ results.map fun result => (task.id, result) } j other := by
  have served := h.served j other found'
  have sent : inFlight (results.map fun result => (task.id, result)) other.id =
      if j = k then results else [] := by
    split_ifs with here
    · subst here
      obtain rfl := Option.some.inj (found.symm.trans found')
      simp [inFlight, List.filter_map, Function.comp_def]
    · have different : task.id ≠ other.id := fun equal =>
        here (h.id_inj few found' found equal.symm)
      simp [inFlight, different]
  refine ⟨served.cancelled, fun none alive => ?_, fun r done => ?_, served.subscribed,
    served.sync⟩
  · show answers right j = queued s.left j ++ inFlight (s.toLeft ++ _) other.id
    rw [inFlight_append, sent, ← List.append_assoc, ← served.pending none alive]
    split_ifs with here
    · rw [here, own]
    · rw [others j here, List.append_nil]
  · obtain cancelled | first := served.done r done
    · exact Or.inl cancelled
    · refine Or.inr ?_
      show (answers right j).head? = some r
      by_cases here : j = k
      · rw [here] at first ⊢
        rw [own, List.head?_append, first]
        rfl
      · rw [others j here, first]

theorem Inv.arrive (h : s.Inv rdid kind handler) (few : s.left.identity.drawn ≤ 2 ^ 31)
    {request : Request Req} {rest : List (Request Req)} (oldest : s.toRight = request :: rest) :
    Inv rdid kind handler { s with
      right := (s.right.receive handler request).1
      toRight := rest
      toLeft := s.toLeft ++ (s.right.receive handler request).2 } := by
  obtain ⟨dropped, requests, none⟩ := h.requests
  rw [oldest, List.append_cons] at requests
  unfold RdEndpoint.receive
  split_ifs with ended
  · rw [List.append_nil]
    refine ⟨h.sameId, h.counts, h.ids, fun k task found => ?_, h.lookup, h.queue, h.responses,
      ⟨dropped ++ [request], ?_, fun alive => ?_⟩, h.handled⟩
    · have served := h.served k task found
      exact ⟨served.cancelled, served.pending, served.done, served.subscribed, served.sync⟩
    · rwa [List.append_assoc (s.right.tasks.map _)] at requests
    · rw [alive] at ended
      cases ended
  · obtain rfl := none (eq_false_of_ne_true ended)
    rw [List.append_nil] at requests
    have there := Lists.getElem?_append_of_some
      (l := s.right.tasks.map (fun task => (task.taskId, task.request)) ++ [request])
      (n := s.right.tasks.length) (a := request) (by simp) rest
    rw [← requests, List.getElem?_map, Option.map_eq_some_iff] at there
    obtain ⟨task, found, same⟩ := there
    obtain ⟨sameId, -⟩ := Prod.ext_iff.1 same
    refine ⟨h.sameId, h.counts, h.ids, ?_, h.lookup, h.queue, fun response waits => ?_,
      ⟨[], ?_, fun _ => rfl⟩, fun k other here => ?_⟩
    · show ∀ (k : ℕ) other, s.left.tasks[k]? = some other → _
      rw [← sameId]
      refine h.answer few found (handler s.right.tasks.length request.2).toList ?_
        fun j other => ?_
      · rw [answers_of_length_le (Nat.le_refl _)]
        simp [answers]
      · obtain before | after := Nat.lt_or_gt_of_ne other
        · rw [answers, List.getElem?_append_left before]
          rfl
        · rw [answers_of_length_le (Nat.le_of_lt after), answers_of_length_le]
          rw [List.length_append]
          exact after
    · obtain waits | new := List.mem_append.1 waits
      · exact h.responses response waits
      · obtain ⟨result, -, rfl⟩ := List.mem_map.1 new
        rw [← sameId]
        exact List.mem_map_of_mem (List.mem_of_getElem? found)
    · rw [requests, List.map_append, List.append_nil]
      rfl
    · obtain here | ⟨rfl, rfl⟩ := Lists.getElem?_concat_cases here
      · exact h.handled k other here
      · rfl

theorem inv_init : (machine rdid kind handler).init.Inv rdid kind handler := by
  refine ⟨rfl, Identities.counts_ofKind kind, List.Sublist.refl _, nofun, nofun, nofun, nofun,
    ⟨[], rfl, fun _ => rfl⟩, nofun⟩

theorem act_spec {op : CallOp Req} {call : RdCall Req Res} {sent : List (Request Req)}
    (acts : s.left.act op = some (call, sent)) : s.left.identity.drawn ≤ call.identity.drawn ∧
      (call.undefined = false → s.left.undefined = false) ∧
      (s.Inv rdid kind handler → call.identity.drawn ≤ 2 ^ 31 → call.undefined = false →
        Inv rdid kind handler { s with left := call, toRight := s.toRight ++ sent }) := by
  cases op with
  | start request =>
    simp only [RdCall.act] at acts
    split_ifs at acts with ended
    obtain ⟨rfl, rfl⟩ := Prod.ext_iff.1 (Option.some.inj acts)
    exact ⟨Nat.le_succ _, id,
      fun h few _ => h.start few (eq_false_of_ne_true ended) request false⟩
  | sync request =>
    simp only [RdCall.act] at acts
    split_ifs at acts with ended
    obtain ⟨rfl, rfl⟩ := Prod.ext_iff.1 (Option.some.inj acts)
    unfold RdCall.beginSync
    split_ifs with exists_
    · refine ⟨Nat.le_succ _, id, fun h _ _ => ?_⟩
      rw [List.append_nil]
      exact h.next _
    · exact ⟨Nat.le_succ _, id,
        fun h few _ => (h.start few (eq_false_of_ne_true ended) request true).withSync _ _ _⟩
  | syncEnd =>
    obtain ⟨k, -, same⟩ := Option.map_eq_some_iff.1 acts
    obtain ⟨rfl, rfl⟩ := Prod.ext_iff.1 same
    unfold RdCall.endSync
    rw [List.append_nil]
    dsimp only
    split
    · exact ⟨Nat.le_refl _, id, fun h _ _ => h.withSync _ _ _⟩
    · exact ⟨Nat.le_refl _, id, fun h _ _ => (h.withSync _ _ _).destroy k⟩
  | drop k =>
    simp only [RdCall.act] at acts
    split_ifs at acts
    obtain ⟨rfl, rfl⟩ := Prod.ext_iff.1 (Option.some.inj acts)
    rw [List.append_nil]
    exact ⟨Nat.le_refl _, id, fun h _ _ => h.destroy k⟩
  | run =>
    simp only [RdCall.act] at acts
    split at acts
    · cases acts
    · rename_i k result rest oldest
      split_ifs at acts with gone
      · obtain ⟨rfl, rfl⟩ := Prod.ext_iff.1 (Option.some.inj acts)
        exact ⟨Nat.le_refl _, nofun, nofun⟩
      · obtain ⟨rfl, rfl⟩ := Prod.ext_iff.1 (Option.some.inj acts)
        rw [List.append_nil]
        exact ⟨Nat.le_refl _, id, fun h _ _ => h.run oldest (eq_false_of_ne_true gone)⟩
  | next parent =>
    obtain ⟨rfl, rfl⟩ := Prod.ext_iff.1 (Option.some.inj acts)
    rw [List.append_nil]
    exact ⟨Nat.le_succ _, id, fun h _ _ => h.next parent⟩
  | terminate =>
    simp only [RdCall.act] at acts
    split_ifs at acts
    obtain ⟨rfl, rfl⟩ := Prod.ext_iff.1 (Option.some.inj acts)
    rw [List.append_nil]
    exact ⟨Nat.le_refl _, id, fun h _ _ => h.terminate⟩

theorem receive_spec (call : RdCall Req Res) (response : Response Res) :
    (call.receive response).identity = call.identity ∧
      ((call.receive response).undefined = false → call.undefined = false) := by
  unfold RdCall.receive
  split
  · exact ⟨rfl, id⟩
  · split_ifs
    · exact ⟨rfl, nofun⟩
    · exact ⟨rfl, id⟩
    · exact ⟨rfl, id⟩

/-- The invariant, as long as not more than 2 ^ 31 ids have been made and nothing undefined has
happened. -/
theorem inv_of_run {es : List (DuplexEvent (CallOp Req) (EndpointOp Res))}
    (run : (machine rdid kind handler).Run es s) (few : s.left.identity.drawn ≤ 2 ^ 31)
    (defined : s.Defined) : s.Inv rdid kind handler := by
  revert few defined
  refine run.invariant (I := fun s : CallPair Req Res =>
    s.left.identity.drawn ≤ 2 ^ 31 → s.Defined → s.Inv rdid kind handler)
    (fun _ _ => inv_init) ?_
  intro s s' e inv hs few defined
  cases Duplex.step_sound hs with
  | left acts =>
    obtain ⟨grows, sticky, keeps⟩ := act_spec acts
    exact keeps (inv (grows.trans few) ⟨sticky defined.1, defined.2⟩) few defined.1
  | right acts =>
    rename_i op right sent
    cases op with
    | set k result =>
      simp only [RdEndpoint.party, RdEndpoint.act] at acts
      split at acts
      · cases acts
      · split_ifs at acts
        · obtain ⟨rfl, rfl⟩ := Prod.ext_iff.1 (Option.some.inj acts)
          rw [List.append_nil]
          exact inv few defined
        · obtain ⟨rfl, rfl⟩ := Prod.ext_iff.1 (Option.some.inj acts)
          obtain ⟨-, gone⟩ := defined
          cases gone
    | terminate =>
      obtain ⟨rfl, rfl⟩ := Prod.ext_iff.1 (Option.some.inj acts)
      have h := inv few defined
      rw [List.append_nil]
      obtain ⟨dropped, requests, -⟩ := h.requests
      refine ⟨h.sameId, h.counts, h.ids, fun k task found => ?_, h.lookup, h.queue, h.responses,
        ⟨dropped, requests, nofun⟩, h.handled⟩
      have served := h.served k task found
      exact ⟨served.cancelled, served.pending, served.done, served.subscribed, served.sync⟩
  | arriveRight oldest receives =>
    obtain ⟨rfl, rfl⟩ := Prod.ext_iff.1 (Option.some.inj receives)
    refine (inv few ⟨defined.1, ?_⟩).arrive few oldest
    obtain ⟨-, still⟩ := defined
    simp only [RdEndpoint.receive] at still
    split_ifs at still <;> exact still
  | arriveLeft oldest receives =>
    obtain ⟨rfl, rfl⟩ := Prod.ext_iff.1 (Option.some.inj receives)
    rename_i response rest
    obtain ⟨same, sticky⟩ := receive_spec s.left response
    have few : (s.left.receive response).identity.drawn ≤ 2 ^ 31 := few
    rw [same] at few
    rw [List.append_nil]
    exact (inv few ⟨sticky defined.1, defined.2⟩).receive few oldest defined.1

end Inv

/-- Half of an even number, no answer for 5, and an exception for any other odd number. -/
def halves (_ n : ℕ) : Option (RdTaskResult ℕ) :=
  if n % 2 = 0 then some (.success (n / 2))
  else if n = 5 then none else some (.fault "invalid_argument" "odd" "odd")

/-- Three calls, the last of them a `sync`.  The response for the first request arrives before the
scheduler runs, and its task is destroyed when it has its result. -/
def threeCalls : List (DuplexEvent (CallOp ℕ) (EndpointOp ℕ)) :=
  [.left (.start 4), .left (.next 7), .left (.start 7), .arriveRight, .left (.sync 6), .arriveLeft,
    .arriveRight, .arriveRight, .arriveLeft, .left .run, .left (.drop 0), .arriveLeft,
    .left .syncEnd, .left .run]

/-- When `sync_task_id` is empty. -/
structure SyncInv (call : RdCall Req Res) : Prop where
  free : call.syncTaskId = none ↔
    call.awaited = none ∧ ∀ o ∈ call.outcomes, o.any RdTaskResult.isSucceeded = true
  before : call.awaited ≠ none → ∀ o ∈ call.outcomes, o.any RdTaskResult.isSucceeded = true

section SyncInv

variable {call : RdCall Req Res}

theorem SyncInv.beginSync (h : SyncInv call) (request : Req) :
    SyncInv (call.beginSync request).1 := by
  unfold RdCall.beginSync
  split_ifs with taken
  · exact ⟨h.free, h.before⟩
  · have free := h.free.1 (Option.not_isSome_iff_eq_none.1 taken)
    exact ⟨iff_of_false nofun fun idle => Option.some_ne_none _ idle.1, fun _ => free.2⟩

theorem SyncInv.endSync (h : SyncInv call) {k : ℕ} (waits : call.awaited = some k) :
    SyncInv (call.endSync k) := by
  have before : ∀ o ∈ call.outcomes, o.any RdTaskResult.isSucceeded = true :=
    h.before (by rw [waits]; nofun)
  have taken : call.syncTaskId ≠ none := by
    intro free
    have idle := (h.free.1 free).1
    rw [waits] at idle
    cases idle
  unfold RdCall.endSync
  dsimp only
  split
  · rename_i value succeeded
    refine ⟨iff_of_true rfl ⟨rfl, ?_⟩, fun waits => absurd rfl waits⟩
    rw [succeeded]
    exact List.forall_mem_append.2 ⟨before, List.forall_mem_singleton.2 rfl⟩
  · rename_i failed
    refine ⟨iff_of_false taken fun free => ?_, fun waits => absurd rfl waits⟩
    have last := free.2 _ (List.mem_append_right _ (List.mem_singleton.2 rfl))
    cases outcome : call.tasks[k]?.bind WiredRdTask.result with
    | none =>
      rw [outcome] at last
      cases last
    | some result =>
      rw [outcome] at last
      cases result with
      | success value => exact failed value outcome
      | _ => cases last

theorem SyncInv.act {call' : RdCall Req Res} {op : CallOp Req} {sent : List (Request Req)}
    (h : SyncInv call) (acts : call.act op = some (call', sent)) : SyncInv call' := by
  cases op with
  | start request =>
    obtain ⟨-, same⟩ := Option.ite_none_left_eq_some.1 acts
    obtain ⟨rfl, -⟩ := Prod.ext_iff.1 (Option.some.inj same)
    exact ⟨h.free, h.before⟩
  | sync request =>
    obtain ⟨-, same⟩ := Option.ite_none_left_eq_some.1 acts
    obtain ⟨rfl, -⟩ := Prod.ext_iff.1 (Option.some.inj same)
    exact h.beginSync request
  | syncEnd =>
    obtain ⟨k, waits, same⟩ := Option.map_eq_some_iff.1 acts
    obtain ⟨rfl, -⟩ := Prod.ext_iff.1 same
    exact h.endSync waits
  | drop k =>
    obtain ⟨-, same⟩ := Option.ite_none_left_eq_some.1 acts
    obtain ⟨rfl, -⟩ := Prod.ext_iff.1 (Option.some.inj same)
    exact ⟨h.free, h.before⟩
  | run =>
    simp only [RdCall.act] at acts
    split at acts
    · cases acts
    · split_ifs at acts
      · obtain ⟨rfl, -⟩ := Prod.ext_iff.1 (Option.some.inj acts)
        exact ⟨h.free, h.before⟩
      · obtain ⟨rfl, -⟩ := Prod.ext_iff.1 (Option.some.inj acts)
        exact ⟨h.free, h.before⟩
  | next parent =>
    obtain ⟨rfl, -⟩ := Prod.ext_iff.1 (Option.some.inj acts)
    exact ⟨h.free, h.before⟩
  | terminate =>
    obtain ⟨-, same⟩ := Option.ite_none_left_eq_some.1 acts
    obtain ⟨rfl, -⟩ := Prod.ext_iff.1 (Option.some.inj same)
    exact ⟨h.free, h.before⟩

theorem SyncInv.receive (h : SyncInv call) (response : Response Res) :
    SyncInv (call.receive response) := by
  unfold RdCall.receive
  split
  · exact h
  · split_ifs <;> exact ⟨h.free, h.before⟩

end SyncInv

/-- The invariant of `sync`, as long as nothing undefined has happened. -/
theorem syncInv_of_run {rdid : RdId} {kind : IdKind} {handler : ℕ → Req → Option (RdTaskResult Res)}
    {es : List (DuplexEvent (CallOp Req) (EndpointOp Res))} {s : CallPair Req Res}
    (run : (machine rdid kind handler).Run es s) (defined : s.left.undefined = false) :
    SyncInv s.left := by
  revert defined
  refine run.invariant (I := fun s : CallPair Req Res => s.left.undefined = false → SyncInv s.left)
    ?_ ?_
  · exact fun _ => ⟨iff_of_true rfl ⟨rfl, List.forall_mem_nil _⟩, fun waits => absurd rfl waits⟩
  · intro s s' e inv hs defined
    cases Duplex.step_sound hs with
    | left acts =>
      obtain ⟨-, sticky, -⟩ := @act_spec _ _ rdid kind handler _ _ _ _ acts
      exact (inv (sticky defined)).act acts
    | right acts => exact inv defined
    | arriveRight oldest receives => exact inv defined
    | arriveLeft oldest receives =>
      obtain ⟨rfl, rfl⟩ := Prod.ext_iff.1 (Option.some.inj receives)
      exact (inv ((receive_spec _ _).2 defined)).receive _

/-- The second `sync` gets no response in time. -/
def timedOut : List (DuplexEvent (CallOp ℕ) (EndpointOp ℕ)) :=
  [.left (.sync 4), .arriveRight, .arriveLeft, .left .syncEnd, .left (.sync 5), .arriveRight,
    .left .syncEnd]

end CallPair

end CarpenterDemo.Rd
