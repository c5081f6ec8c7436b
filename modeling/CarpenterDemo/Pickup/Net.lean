import CarpenterDemo.Library.Replication
import CarpenterDemo.Pickup.Server

/-!
# The server and its clients

`Net` is the server with its clients, each holding its own copies of all actors and, for each
replicated property, the values that have been sent to it and not received.  After every step of the
server the changed values of `CarriedItem` and `bPickedUp` are sent to every client.  A client
receives the values of one property in order and may skip some; the properties of different actors
are received in any order.

A RepNotify function runs exactly when the received value differs from the client's own.  `received`
logs what a client has been handed.
-/

namespace CarpenterDemo

/-- A replicated value handed to a client. -/
inductive Update (κ ι : Type*)
  | carriedItem (c : κ) (value : Option ι)
  | bPickedUp (i : ι) (value : Bool)
  deriving DecidableEq, Repr

/-- One client. -/
structure Client (κ ι : Type*) where
  world : World κ ι
  /-- Values of each `CarriedItem` on their way to the client, oldest first. -/
  carriedItems : κ → List (Option ι)
  /-- Values of each `bPickedUp` on their way to the client, oldest first. -/
  pickedUps : ι → List Bool
  received : List (Update κ ι)

/-- The server with its clients, named by `μ`. -/
structure Net (κ ι μ : Type*) where
  server : Server κ ι
  clients : μ → Client κ ι

inductive NetEvent (κ ι μ : Type*)
  | server (e : ServerEvent κ ι)
  | receiveCarriedItem (m : μ) (c : κ) (skipped : ℕ)
  | receiveBPickedUp (m : μ) (i : ι) (skipped : ℕ)
  deriving DecidableEq, Repr

namespace World

variable {κ ι : Type*} [DecidableEq κ] [DecidableEq ι] (w : World κ ι)

/-- The engine hands over a value of a character's `CarriedItem`. -/
def replicateCarriedItem (c : κ) (value : Option ι) : World κ ι :=
  if value = (w.characters c).carriedItem then w
  else (w.setCarriedItem c value).onRepCarriedItem c

/-- The engine hands over a value of an item's `bPickedUp`. -/
def replicateBPickedUp (i : ι) (value : Bool) : World κ ι :=
  if value = (w.items i).bPickedUp then w
  else w.modifyItem i fun x => { x with bPickedUp := value }.onRepBPickedUp

theorem characters_replicateBPickedUp {κ ι : Type*} [DecidableEq ι] (w : World κ ι) (i : ι)
    (value : Bool) : (w.replicateBPickedUp i value).characters = w.characters := by
  unfold replicateBPickedUp
  split_ifs <;> rfl

theorem carriedItem_replicateCarriedItem_self (c : κ) (value : Option ι) :
    ((w.replicateCarriedItem c value).characters c).carriedItem = value := by
  unfold replicateCarriedItem
  split_ifs with h
  · exact h.symm
  · simp

theorem characters_replicateCarriedItem_of_ne {c d : κ} (h : d ≠ c) (value : Option ι) :
    (w.replicateCarriedItem c value).characters d = w.characters d := by
  unfold replicateCarriedItem
  split_ifs
  · rfl
  · rw [characters_onRepCarriedItem, characters_setCarriedItem_of_ne _ h]

theorem items_replicateCarriedItem_none (c : κ) :
    (w.replicateCarriedItem c none).items = w.items := by
  unfold replicateCarriedItem
  split_ifs
  · rfl
  · rw [onRepCarriedItem_of_none _ (by simp), items_setCarriedItem]

theorem items_replicateCarriedItem_some {c : κ} {i : ι}
    (h : (w.characters c).carriedItem ≠ some i) (j : ι) :
    (w.replicateCarriedItem c (some i)).items j =
      if j = i then ((w.items i).attachToComponent c).pickedUp else w.items j := by
  rw [replicateCarriedItem, if_neg (Ne.symm h),
    ← serverPickupItemImplementation, serverPickupItemImplementation_some]
  split_ifs with e
  · rw [e, items_modifyItem_self, items_setCarriedItem]
  · rw [items_modifyItem_of_ne _ e, items_setCarriedItem]

end World

namespace Client

variable {κ ι : Type*} [DecidableEq κ] [DecidableEq ι] (cl : Client κ ι)

def empty (κ ι : Type*) : Client κ ι := ⟨World.empty κ ι, fun _ => [], fun _ => [], []⟩

/-- The server's world has changed from `w` to `w'`. -/
def send (w w' : World κ ι) : Client κ ι :=
  { cl with
    carriedItems := fun c => Replication.send (w.characters c).carriedItem
      (w'.characters c).carriedItem (cl.carriedItems c)
    pickedUps := fun i => Replication.send (w.items i).bPickedUp (w'.items i).bPickedUp
      (cl.pickedUps i) }

def receiveCarriedItem (c : κ) (skipped : ℕ) : Option (Client κ ι) :=
  (Replication.receive (cl.carriedItems c) skipped).map fun (value, rest) =>
    { cl with
      world := cl.world.replicateCarriedItem c value
      carriedItems := Function.update cl.carriedItems c rest
      received := cl.received ++ [.carriedItem c value] }

def receiveBPickedUp (i : ι) (skipped : ℕ) : Option (Client κ ι) :=
  (Replication.receive (cl.pickedUps i) skipped).map fun (value, rest) =>
    { cl with
      world := cl.world.replicateBPickedUp i value
      pickedUps := Function.update cl.pickedUps i rest
      received := cl.received ++ [.bPickedUp i value] }

section Lookup

variable {κ ι : Type*} [DecidableEq ι] (cl : Client κ ι) (w w' : World κ ι)

theorem carriedItems_send (c : κ) :
    (cl.send w w').carriedItems c = Replication.send (w.characters c).carriedItem
      (w'.characters c).carriedItem (cl.carriedItems c) := rfl

theorem pickedUps_send (i : ι) :
    (cl.send w w').pickedUps i =
      Replication.send (w.items i).bPickedUp (w'.items i).bPickedUp (cl.pickedUps i) := rfl

end Lookup

end Client

namespace Net

variable {κ ι μ : Type*} [DecidableEq κ] [DecidableEq ι] [DecidableEq μ]

/-- The server has moved to `s'`. -/
def serverMoved (n : Net κ ι μ) (s' : Server κ ι) : Net κ ι μ :=
  { server := s'
    clients := fun m => (n.clients m).send n.server.world s'.world }

def setClient (n : Net κ ι μ) (m : μ) (cl : Client κ ι) : Net κ ι μ :=
  { n with clients := Function.update n.clients m cl }

def step (n : Net κ ι μ) : NetEvent κ ι μ → Option (Net κ ι μ)
  | .server e => (n.server.step e).map n.serverMoved
  | .receiveCarriedItem m c skipped =>
    ((n.clients m).receiveCarriedItem c skipped).map (n.setClient m)
  | .receiveBPickedUp m i skipped =>
    ((n.clients m).receiveBPickedUp i skipped).map (n.setClient m)

variable (κ ι μ) in
def machine : Machine (Net κ ι μ) (NetEvent κ ι μ) :=
  ⟨⟨(Server.machine κ ι).init, fun _ => Client.empty κ ι⟩, step⟩

theorem clients_setClient_self {κ ι : Type*} (n : Net κ ι μ) (m : μ) (cl : Client κ ι) :
    (n.setClient m cl).clients m = cl := by simp [setClient]

theorem clients_setClient_of_ne {κ ι : Type*} (n : Net κ ι μ) {m m' : μ} (h : m' ≠ m)
    (cl : Client κ ι) : (n.setClient m cl).clients m' = n.clients m' := by simp [setClient, h]

/-- What a step can make of the server and one client. -/
inductive ClientStep (s : Server κ ι) (cl : Client κ ι) : Server κ ι → Client κ ι → Prop
  | same : ClientStep s cl s cl
  | server {e : ServerEvent κ ι} {s' : Server κ ι} (move : s.step e = some s') :
      ClientStep s cl s' (cl.send s.world s'.world)
  | carriedItem {c : κ} {skipped : ℕ} {cl' : Client κ ι}
      (received : cl.receiveCarriedItem c skipped = some cl') : ClientStep s cl s cl'
  | bPickedUp {i : ι} {skipped : ℕ} {cl' : Client κ ι}
      (received : cl.receiveBPickedUp i skipped = some cl') : ClientStep s cl s cl'

theorem client_step {n n' : Net κ ι μ} {e : NetEvent κ ι μ} (hs : n.step e = some n') (m : μ) :
    ClientStep n.server (n.clients m) n'.server (n'.clients m) := by
  have unchanged {cl : Client κ ι} (h : cl = n.clients m) :
      ClientStep n.server (n.clients m) n.server cl := h ▸ .same
  cases e with
  | server e =>
    obtain ⟨s', move, rfl⟩ := Option.map_eq_some_iff.1 hs
    exact .server move
  | receiveCarriedItem m' c skipped =>
    obtain ⟨cl, received, rfl⟩ := Option.map_eq_some_iff.1 hs
    by_cases hm : m = m'
    · subst hm
      rw [clients_setClient_self]
      exact .carriedItem received
    · exact unchanged (n.clients_setClient_of_ne hm cl)
  | receiveBPickedUp m' i skipped =>
    obtain ⟨cl, received, rfl⟩ := Option.map_eq_some_iff.1 hs
    by_cases hm : m = m'
    · subst hm
      rw [clients_setClient_self]
      exact .bPickedUp received
    · exact unchanged (n.clients_setClient_of_ne hm cl)

/-- The server inside the network runs as it does alone. -/
theorem simulates_server :
    (machine κ ι μ).Simulates (Server.machine κ ι) Net.server fun e =>
      match e with
      | .server e => [e]
      | _ => [] where
  init := rfl
  step {n n' e} hs := by
    cases e with
    | server e =>
      obtain ⟨s', hs', rfl⟩ := Option.map_eq_some_iff.1 hs
      rw [Machine.exec_singleton]
      exact hs'
    | receiveCarriedItem m c skipped =>
      obtain ⟨cl, -, rfl⟩ := Option.map_eq_some_iff.1 hs
      rfl
    | receiveBPickedUp m i skipped =>
      obtain ⟨cl, -, rfl⟩ := Option.map_eq_some_iff.1 hs
      rfl

end Net

end CarpenterDemo
