import CarpenterDemo.Pickup.NetInvariant
import Mathlib.Data.List.Perm.Basic

/-!
# Honest clients

In a `Session` every player has one character and one machine, both named by `κ`, and sends
`Server_PickupItem` only from `AItem::OnInteract_Implementation`, which looks at the machine's own
copies.  A call in flight may arrive in any order or be lost.  A call that fails
`Server_PickupItem_Validate` on arrival closes its sender's connection: the player is `rejected` and
its other calls are dropped.

* `SafePress`: a press that sends a call does so when the check would pass on the server too, and
  while no other call of the player or for the item is in flight.
* `never_rejected_of_safePress`: if all presses of a run are safe, every call in flight passes the
  check and nobody is rejected; and every press that is not safe can be followed by arrivals alone
  up to a rejection.
-/

namespace CarpenterDemo

structure Session (κ ι : Type*) where
  net : Net κ ι κ
  /-- `Server_PickupItem` calls on their way to the server. -/
  inFlight : List (PickupCall κ ι)
  /-- Players whose connection was closed because a call of theirs failed the check. -/
  rejected : List κ

inductive SessionEvent (κ ι : Type*)
  | spawnItem (i : ι)
  | spawnCharacter (c : κ)
  | interact (c : κ) (i : ι)
  | arrive (k : ℕ)
  | lose (k : ℕ)
  | deliveredItem (c : κ)
  | receiveCarriedItem (m : κ) (c : κ) (skipped : ℕ)
  | receiveBPickedUp (m : κ) (i : ι) (skipped : ℕ)
  deriving DecidableEq, Repr

namespace Session

variable {κ ι : Type*} [DecidableEq κ] [DecidableEq ι]

/-- The server's world. -/
def world (s : Session κ ι) : World κ ι := s.net.server.world

/-- The call that the player `c` sends when interacting with the item `i`, if any. -/
def press (s : Session κ ι) (c : κ) (i : ι) : Option (PickupCall κ ι) :=
  (s.net.clients c).world.onInteractImplementation i (some c)

/-- The check that a call meets on the server. -/
def valid (s : Session κ ι) (call : PickupCall κ ι) : Bool :=
  s.world.serverPickupItemValidate call.character (some call.item)

def moveNet (s : Session κ ι) (e : NetEvent κ ι κ) : Option (Session κ ι) :=
  (s.net.step e).map fun net => { s with net := net }

/-- The connection of the sender of a call is closed. -/
def reject (s : Session κ ι) (call : PickupCall κ ι) : Session κ ι :=
  { s with
    inFlight := s.inFlight.filter fun other => other.character ≠ call.character
    rejected := s.rejected ++ [call.character] }

def step (s : Session κ ι) : SessionEvent κ ι → Option (Session κ ι)
  | .spawnItem i => s.moveNet (.server (.spawnItem i))
  | .spawnCharacter c => s.moveNet (.server (.spawnCharacter c))
  | .interact c i =>
    if (s.world.characters c).life = .alive ∧ (s.world.items i).life ≠ .unspawned ∧
        c ∉ s.rejected then
      some { s with inFlight := s.inFlight ++ (s.press c i).toList }
    else none
  | .arrive k =>
    match s.inFlight[k]? with
    | some call =>
      if s.valid call then
        { s with inFlight := s.inFlight.eraseIdx k }.moveNet
          (.server (.serverPickupItem call.character (some call.item)))
      else some (s.reject call)
    | none => none
  | .lose k =>
    if k < s.inFlight.length then some { s with inFlight := s.inFlight.eraseIdx k } else none
  | .deliveredItem c => s.moveNet (.server (.deliveredItem c))
  | .receiveCarriedItem m c skipped => s.moveNet (.receiveCarriedItem m c skipped)
  | .receiveBPickedUp m i skipped => s.moveNet (.receiveBPickedUp m i skipped)

variable (κ ι) in
def machine : Machine (Session κ ι) (SessionEvent κ ι) := ⟨⟨(Net.machine κ ι κ).init, [], []⟩, step⟩

/-- A press that sends a call does so when the check would pass at once and no other call of the
player or for the item is in flight. -/
def SafePress (s : Session κ ι) (e : SessionEvent κ ι) : Prop :=
  ∀ c i, e = .interact c i → (s.press c i).isSome →
    s.valid ⟨c, i⟩ = true ∧ ∀ call ∈ s.inFlight, call.character ≠ c ∧ call.item ≠ i

theorem safePress_interact_iff {κ ι : Type*} (s : Session κ ι) (c : κ) (i : ι) :
    s.SafePress (.interact c i) ↔ ((s.press c i).isSome →
      s.valid ⟨c, i⟩ = true ∧ ∀ call ∈ s.inFlight, call.character ≠ c ∧ call.item ≠ i) := by
  simp [SafePress]

instance (s : Session κ ι) (e : SessionEvent κ ι) : Decidable (s.SafePress e) :=
  match e with
  | .interact c i => decidable_of_iff' _ (s.safePress_interact_iff c i)
  | .spawnItem _ | .spawnCharacter _ | .arrive _ | .lose _ | .deliveredItem _
  | .receiveCarriedItem .. | .receiveBPickedUp .. => isTrue fun _ _ h => nomatch h

/-! ## What one step can do -/

theorem press_eq_some {κ ι : Type*} {s : Session κ ι} {c : κ} {i : ι} {call : PickupCall κ ι}
    (h : s.press c i = some call) : call = ⟨c, i⟩ := by
  obtain ⟨hc, rfl, -⟩ := (World.onInteractImplementation_eq_some_iff _ i (some c) call).1 h
  rw [Option.some.inj hc]

theorem valid_iff {κ ι : Type*} {s : Session κ ι} {call : PickupCall κ ι} :
    s.valid call = true ↔ (s.world.items call.item).bPickedUp = false ∧
      (s.world.characters call.character).carriedItem = none := by
  rw [valid, World.serverPickupItemValidate_iff]
  simp

/-- Steps, sorted by what they do to the calls. -/
inductive Step (s : Session κ ι) : SessionEvent κ ι → Session κ ι → Prop
  | idle {e : SessionEvent κ ι} (net : Net κ ι κ) (same : net.server = s.net.server) :
      Step s e { s with net := net }
  | server {e : SessionEvent κ ι} {se : ServerEvent κ ι} (net : Net κ ι κ)
      (move : s.net.server.step se = some net.server)
      (noPickup : ∀ c i, se ≠ .serverPickupItem c i) (noLeave : ∀ c, se ≠ .leave c) :
      Step s e { s with net := net }
  | press {c : κ} {i : ι} (living : (s.world.characters c).life = .alive)
      (spawned : (s.world.items i).life ≠ .unspawned) :
      Step s (.interact c i) { s with inFlight := s.inFlight ++ (s.press c i).toList }
  | accepted {k : ℕ} {call : PickupCall κ ι} (net : Net κ ι κ) (here : s.inFlight[k]? = some call)
      (valid : s.valid call = true)
      (move : s.net.server.step (.serverPickupItem call.character (some call.item)) =
        some net.server) :
      Step s (.arrive k) { s with net := net, inFlight := s.inFlight.eraseIdx k }
  | rejected {k : ℕ} {call : PickupCall κ ι} (here : s.inFlight[k]? = some call)
      (invalid : s.valid call = false) : Step s (.arrive k) (s.reject call)
  | lost {k : ℕ} : Step s (.lose k) { s with inFlight := s.inFlight.eraseIdx k }

/-- A call that passes the check is accepted by the server. -/
theorem receivePickup_of_valid {s : Session κ ι} {call : PickupCall κ ι}
    (valid : s.valid call = true) :
    s.net.server.receivePickup call.character (some call.item) =
      s.net.server.accept call.character call.item :=
  Server.receivePickup_some_of_valid valid

theorem step_of_moveNet_server {s s' : Session κ ι} {e : SessionEvent κ ι} {se : ServerEvent κ ι}
    (h : s.moveNet (.server se) = some s') (noPickup : ∀ c i, se ≠ .serverPickupItem c i)
    (noLeave : ∀ c, se ≠ .leave c) : s.Step e s' := by
  obtain ⟨net, hnet, rfl⟩ := Option.map_eq_some_iff.1 h
  obtain ⟨server, move, rfl⟩ := Option.map_eq_some_iff.1 hnet
  exact .server _ move noPickup noLeave

theorem step_sound {s s' : Session κ ι} {e : SessionEvent κ ι} (h : s.step e = some s') :
    s.Step e s' := by
  cases e with
  | spawnItem i => exact step_of_moveNet_server h (by simp) (by simp)
  | spawnCharacter c => exact step_of_moveNet_server h (by simp) (by simp)
  | deliveredItem c => exact step_of_moveNet_server h (by simp) (by simp)
  | interact c i =>
    simp only [step] at h
    split_ifs at h with guard
    cases h
    exact .press guard.1 guard.2.1
  | arrive k =>
    simp only [step] at h
    split at h
    · rename_i call here
      split_ifs at h with valid
      · obtain ⟨net, hnet, rfl⟩ := Option.map_eq_some_iff.1 h
        obtain ⟨server, move, rfl⟩ := Option.map_eq_some_iff.1 hnet
        exact .accepted _ here valid move
      · cases h
        exact .rejected here (eq_false_of_ne_true valid)
    · cases h
  | lose k =>
    simp only [step] at h
    split_ifs at h
    cases h
    exact .lost
  | receiveCarriedItem m c skipped =>
    obtain ⟨net, hnet, rfl⟩ := Option.map_eq_some_iff.1 h
    obtain ⟨cl, -, rfl⟩ := Option.map_eq_some_iff.1 hnet
    exact .idle _ rfl
  | receiveBPickedUp m i skipped =>
    obtain ⟨net, hnet, rfl⟩ := Option.map_eq_some_iff.1 h
    obtain ⟨cl, -, rfl⟩ := Option.map_eq_some_iff.1 hnet
    exact .idle _ rfl

/-! ## Safe presses -/

/-- Nobody has been rejected, all calls in flight would be accepted, and no two of them share their
player or their item. -/
structure Quiet (s : Session κ ι) : Prop where
  rejected : s.rejected = []
  valid : ∀ call ∈ s.inFlight, s.valid call = true
  apart : s.inFlight.Pairwise fun a b => a.character ≠ b.character ∧ a.item ≠ b.item

theorem quiet_init : (machine κ ι).init.Quiet := by
  constructor <;> simp [machine]

theorem Quiet.step {s s' : Session κ ι} {e : SessionEvent κ ι} (h : s.Quiet) (safe : s.SafePress e)
    (hs : s.step e = some s') : s'.Quiet := by
  cases step_sound hs with
  | idle net same =>
    refine ⟨h.rejected, fun call hc => ?_, h.apart⟩
    have valid := h.valid call hc
    rw [valid_iff, world] at valid ⊢
    rwa [same]
  | server net move noPickup noLeave =>
    refine ⟨h.rejected, fun call hc => ?_, h.apart⟩
    obtain ⟨free, empty⟩ := valid_iff.1 (h.valid call hc)
    exact valid_iff.2 (Server.free_of_step move free empty fun c i e => absurd e (noPickup c _))
  | @press c i living spawned =>
    cases sent : s.press c i with
    | none => simpa [sent] using h
    | some call =>
      obtain rfl := press_eq_some sent
      obtain ⟨now, alone⟩ := safe c i rfl (by rw [sent]; rfl)
      refine ⟨h.rejected, fun call hc => ?_, ?_⟩
      · simp only [Option.toList_some, List.mem_append, List.mem_singleton] at hc
        rcases hc with hc | rfl
        · exact h.valid call hc
        · exact now
      · simp only [Option.toList_some]
        refine List.pairwise_append.2 ⟨h.apart, List.pairwise_singleton _ _, ?_⟩
        intro a ha b hb
        rw [List.mem_singleton.1 hb]
        exact alone a ha
  | @accepted k call net here valid move =>
    -- the calls that are left differ from the accepted one in both player and item
    obtain ⟨hk, hcall⟩ := List.getElem?_eq_some_iff.1 here
    have perm := List.getElem_cons_eraseIdx_perm hk
    rw [hcall] at perm
    have apart := (perm.pairwise_iff fun h => ⟨Ne.symm h.1, Ne.symm h.2⟩).2 h.apart
    obtain ⟨others, rest⟩ := List.pairwise_cons.1 apart
    refine ⟨h.rejected, fun other ho => ?_, rest⟩
    obtain ⟨hc, hi⟩ := others other ho
    obtain ⟨free, empty⟩ := valid_iff.1 (h.valid other (List.mem_of_mem_eraseIdx ho))
    refine valid_iff.2 (Server.free_of_step move free empty fun c i e => ?_)
    cases e
    exact ⟨Ne.symm hc, Ne.symm hi⟩
  | @rejected k call here invalid =>
    have valid := h.valid call (List.mem_of_getElem? here)
    rw [invalid] at valid
    cases valid
  | @lost k =>
    exact ⟨h.rejected, fun call hc => h.valid call (List.mem_of_mem_eraseIdx hc),
      h.apart.eraseIdx k⟩

/-! ## Presses that are not safe -/

/-- Calls in flight come from living characters and name spawned items, so they can all arrive. -/
def Arrivable (s : Session κ ι) : Prop :=
  ∀ call ∈ s.inFlight, (s.world.characters call.character).life = .alive ∧
    (s.world.items call.item).life ≠ .unspawned

theorem Arrivable.step {s s' : Session κ ι} {e : SessionEvent κ ι} (h : s.Arrivable)
    (hs : s.step e = some s') : s'.Arrivable := by
  cases step_sound hs with
  | idle net same =>
    intro call hc
    have before := h call hc
    rw [world] at before ⊢
    rwa [same]
  | server net move noPickup noLeave =>
    intro call hc
    obtain ⟨living, spawned⟩ := h call hc
    exact ⟨Server.living_of_step move living (noLeave _), Server.spawned_of_step move spawned⟩
  | @press c i living spawned =>
    intro call hc
    rcases List.mem_append.1 hc with hc | hc
    · exact h call hc
    · rw [Option.mem_toList] at hc
      obtain rfl := press_eq_some hc
      exact ⟨living, spawned⟩
  | @accepted k call net here valid move =>
    intro other ho
    obtain ⟨living, spawned⟩ := h other (List.mem_of_mem_eraseIdx ho)
    exact ⟨Server.living_of_step move living (by simp), Server.spawned_of_step move spawned⟩
  | rejected => exact fun call hc => h call (List.mem_of_mem_filter hc)
  | lost => exact fun call hc => h call (List.mem_of_mem_eraseIdx hc)

theorem arrivable_of_run {es : List (SessionEvent κ ι)} {s : Session κ ι}
    (h : (machine κ ι).Run es s) : s.Arrivable :=
  h.invariant (by simp [machine, Arrivable]) fun hi hs => hi.step hs

/-- An invalid call that arrives closes its sender's connection. -/
theorem rejected_of_arrive {s : Session κ ι} {k : ℕ} {call : PickupCall κ ι}
    (here : s.inFlight[k]? = some call) (invalid : s.valid call = false) :
    ∃ t, s.step (.arrive k) = some t ∧ t.rejected ≠ [] := by
  refine ⟨s.reject call, ?_, by simp [reject]⟩
  simp [step, here, invalid]

/-- A valid call that arrives is accepted. -/
theorem accepted_of_arrive {s : Session κ ι} (h : s.Arrivable) {k : ℕ} {call : PickupCall κ ι}
    (here : s.inFlight[k]? = some call) (valid : s.valid call = true) :
    ∃ net : Net κ ι κ, net.server = s.net.server.accept call.character call.item ∧
      s.step (.arrive k) = some { s with net := net, inFlight := s.inFlight.eraseIdx k } := by
  obtain ⟨living, spawned⟩ := h call (List.mem_of_getElem? here)
  have guard : (s.net.server.world.characters call.character).life = .alive ∧
      s.net.server.namesSpawned (some call.item) = true :=
    ⟨living, by simpa [Server.namesSpawned, world] using spawned⟩
  refine ⟨s.net.serverMoved (s.net.server.accept call.character call.item), rfl, ?_⟩
  simp only [step, here, valid, if_true, moveNet, Net.step, Server.step, if_pos guard,
    receivePickup_of_valid valid, Option.map_some]

/-- Accepting a call makes every other call of its player or for its item invalid. -/
theorem invalid_of_accept {s t : Session κ ι} {call other : PickupCall κ ι}
    (server : t.net.server = s.net.server.accept call.character call.item)
    (clash : call.character = other.character ∨ call.item = other.item) :
    t.valid other = false := by
  refine eq_false_of_ne_true fun valid => ?_
  obtain ⟨free, empty⟩ := valid_iff.1 valid
  rw [world, server] at free empty
  rcases clash with same | same
  · rw [← same, Server.carriedItem_accept_self] at empty
    cases empty
  · rw [← same, Server.items_accept_self] at free
    cases free

/-- Two calls in flight that share their player or their item end in a rejection. -/
theorem rejected_of_clash {s : Session κ ι} (h : s.Arrivable) {k n : ℕ}
    {call other : PickupCall κ ι} (first : s.inFlight[k]? = some call)
    (second : s.inFlight[n]? = some other) (order : k < n)
    (clash : call.character = other.character ∨ call.item = other.item) :
    ∃ (ks : List ℕ) (t : Session κ ι),
      (machine κ ι).exec s (ks.map .arrive) = some t ∧ t.rejected ≠ [] := by
  cases valid : s.valid call with
  | false =>
    obtain ⟨t, ht, rejected⟩ := rejected_of_arrive first valid
    exact ⟨[k], t, (Machine.exec_singleton s _).trans ht, rejected⟩
  | true =>
    obtain ⟨net, server, arrives⟩ := accepted_of_arrive h first valid
    have moved : (s.inFlight.eraseIdx k)[n - 1]? = some other := by
      rw [List.getElem?_eraseIdx_of_ge (by omega), Nat.sub_add_cancel (by omega)]
      exact second
    have invalid : Session.valid { s with net := net, inFlight := s.inFlight.eraseIdx k } other =
        false := invalid_of_accept server clash
    obtain ⟨t, ht, rejected⟩ := rejected_of_arrive moved invalid
    refine ⟨[k, n - 1], t, ?_, rejected⟩
    have split : (machine κ ι).exec s ([.arrive k] ++ [.arrive (n - 1)]) = some t := by
      rw [Machine.exec_append, Machine.exec_singleton]
      exact (congrArg (Option.bind · _) arrives).trans ((Machine.exec_singleton _ _).trans ht)
    exact split

/-- A press that is not safe can be followed by arrivals alone up to a rejection. -/
theorem rejected_of_not_safePress {s s' : Session κ ι} (h : s.Arrivable) {e : SessionEvent κ ι}
    (hs : s.step e = some s') (risky : ¬ s.SafePress e) :
    ∃ (ks : List ℕ) (t : Session κ ι),
      (machine κ ι).exec s' (ks.map .arrive) = some t ∧ t.rejected ≠ [] := by
  have arrivable := h.step hs
  simp only [SafePress, not_forall] at risky
  obtain ⟨c, i, rfl, sends, notSafe⟩ := risky
  obtain ⟨call, sent⟩ := Option.isSome_iff_exists.1 sends
  obtain rfl := press_eq_some sent
  simp only [step] at hs
  split_ifs at hs
  cases hs
  rw [sent, Option.toList_some] at arrivable ⊢
  have last : (s.inFlight ++ [⟨c, i⟩])[s.inFlight.length]? = some ⟨c, i⟩ := by simp
  by_cases now : s.valid ⟨c, i⟩ = true
  · have crowded : ¬ ∀ call ∈ s.inFlight, call.character ≠ c ∧ call.item ≠ i :=
      fun alone => notSafe ⟨now, alone⟩
    push Not at crowded
    obtain ⟨other, inFlight, clash⟩ := crowded
    obtain ⟨k, hk, rfl⟩ := List.getElem_of_mem inFlight
    have first : (s.inFlight ++ [⟨c, i⟩])[k]? = some s.inFlight[k] := by
      rw [List.getElem?_append_left hk, List.getElem?_eq_getElem hk]
    exact rejected_of_clash arrivable first last hk (or_iff_not_imp_left.2 clash)
  · obtain ⟨t, ht, rejected⟩ := rejected_of_arrive (s := { s with
      inFlight := s.inFlight ++ [⟨c, i⟩] }) last (eq_false_of_ne_true now)
    exact ⟨[s.inFlight.length], t, (Machine.exec_singleton _ _).trans ht, rejected⟩

/-! ## Rejections -/

/-- If every press of a run is safe, all calls in flight pass the check and nobody is rejected.  The
condition is the weakest: after any press that is not safe, some arrivals end in a rejection. -/
theorem never_rejected_of_safePress {es : List (SessionEvent κ ι)} {s : Session κ ι}
    (h : (machine κ ι).Run es s) :
    ((machine κ ι).Along es SafePress →
      s.rejected = [] ∧ ∀ call ∈ s.inFlight, s.valid call = true) ∧
    ∀ (e : SessionEvent κ ι) (s' : Session κ ι), s.step e = some s' → ¬ s.SafePress e →
      ∃ (ks : List ℕ) (t : Session κ ι),
        (machine κ ι).Run (es ++ [e] ++ ks.map .arrive) t ∧ t.rejected ≠ [] := by
  refine ⟨fun safe => ?_, fun e s' hs risky => ?_⟩
  · have quiet : s.Quiet := h.invariant_along quiet_init (fun h safe hs => h.step safe hs) safe
    exact ⟨quiet.rejected, quiet.valid⟩
  · obtain ⟨ks, t, ht, rejected⟩ :=
      rejected_of_not_safePress (arrivable_of_run h) hs risky
    refine ⟨ks, t, ?_, rejected⟩
    rw [Machine.run_iff_exec, Machine.exec_append, Machine.run_iff_exec.1 (h.snoc hs)]
    exact ht

/-- Two players press for the item 5, one right after the other, and both calls arrive. -/
def racingPresses : List (SessionEvent ℕ ℕ) :=
  [.spawnCharacter 0, .spawnCharacter 1, .spawnItem 5, .interact 0 5, .interact 1 5, .arrive 0,
    .arrive 0]

/-- The second of two honest players is rejected. -/
theorem racingPresses_rejects :
    ∃ s, (machine ℕ ℕ).Run racingPresses s ∧ s.rejected = [1] :=
  ⟨_, (machine ℕ ℕ).run_of_isSome racingPresses (by decide), by decide⟩

/-- Two players press for different items, and the first call has arrived. -/
def patientPresses : List (SessionEvent ℕ ℕ) :=
  [.spawnCharacter 0, .spawnCharacter 1, .spawnItem 5, .spawnItem 6, .interact 0 5, .interact 1 6,
    .arrive 0]

theorem never_rejected_of_safePress_patient :
    ∃ s, (machine ℕ ℕ).Run patientPresses s ∧
      s.rejected = [] ∧ ∀ call ∈ s.inFlight, s.valid call = true :=
  have run := (machine ℕ ℕ).run_of_isSome patientPresses (by decide)
  have safe := (machine ℕ ℕ).along_of_check SafePress patientPresses (by decide)
  ⟨_, run, (never_rejected_of_safePress run).1 safe⟩

end Session

end CarpenterDemo
