import CarpenterDemo.Library.Machine
import CarpenterDemo.Library.Replication
import CarpenterDemo.Model.Item
import Mathlib.Logic.Function.Basic

/-!
# The color shown

`Painting.machine` is one item on the server and its copies on the clients.  The server calls
`SetItemInfo` and `SetColor`; the value of `ItemInfo` after each call is on its way to every client,
which receives the values in order and may skip some.  `OnRep_ItemInfo` runs exactly when the
received value differs from the client's own.

A client repaints only at such a difference, and creates the material only then.  What makes it show
every color, the default one too, is that no value on its way has the shape of the default
`FItemInfo` (`PaintingClient.Inv.shaped`).  `color_shown`: so it shows the color of the value it has
last been handed.
-/

namespace CarpenterDemo

namespace AItem

variable {κ : Type*} (self : AItem κ)

/-- The engine hands over a value of the item's `ItemInfo`. -/
def replicateItemInfo (value : FItemInfo) : AItem κ :=
  if value = self.itemInfo then self else { self with itemInfo := value }.onRepItemInfo

/-- The material instance exists, and its parameter "Color" is the given color. -/
def ShowsColor (color : FColor) : Prop :=
  ∃ material, self.materialInstanceDynamic = some material ∧ material.color = some color

theorem showsColor_onRepItemInfo : self.onRepItemInfo.ShowsColor self.itemInfo.itemColor :=
  ⟨_, rfl, rfl⟩

end AItem

/-- A client's copy of the item. -/
structure PaintingClient (κ : Type*) where
  item : AItem κ := {}
  /-- Values of `ItemInfo` on their way to the client, oldest first. -/
  itemInfos : List FItemInfo := []
  /-- The values that the client has been handed. -/
  received : List FItemInfo := []

/-- The server's copy of the item and the clients, named by `μ`. -/
structure Painting (κ μ : Type*) where
  item : AItem κ := {}
  clients : μ → PaintingClient κ := fun _ => {}

inductive PaintingEvent (μ : Type*)
  | setItemInfo (newItemInfo : FItemInfo)
  | setColor (newColor : FColor)
  | receiveItemInfo (m : μ) (skipped : ℕ)
  deriving DecidableEq, Repr

/-- The first call is a `SetItemInfo`, and no `SetItemInfo` passes the shape `None`. -/
structure PaintingEvent.Proper {μ : Type*} (es : List (PaintingEvent μ)) : Prop where
  first : ∀ e ∈ es.head?, ∃ newItemInfo, e = .setItemInfo newItemInfo
  shaped : ∀ newItemInfo, .setItemInfo newItemInfo ∈ es → newItemInfo.itemShape ≠ .none

namespace PaintingEvent.Proper

variable {μ : Type*} {es fs : List (PaintingEvent μ)} {e : PaintingEvent μ}

theorem of_append (h : Proper (es ++ fs)) : Proper es where
  first a ha := h.first a (by
    rw [List.head?_append, ha]
    rfl)
  shaped newItemInfo ha := h.shaped newItemInfo (List.mem_append_left fs ha)

/-- A call that is not a `SetItemInfo` is not the first. -/
theorem ne_nil_of_snoc (h : Proper (es ++ [e]))
    (other : ∀ newItemInfo, e ≠ .setItemInfo newItemInfo) : es ≠ [] := by
  rintro rfl
  obtain ⟨newItemInfo, he⟩ := h.first e rfl
  exact other newItemInfo he

end PaintingEvent.Proper

/-- A value is on its way to the client. -/
def PaintingClient.send {κ : Type*} (cl : PaintingClient κ) (value : FItemInfo) :
    PaintingClient κ :=
  { cl with itemInfos := cl.itemInfos ++ [value] }

/-- The client receives the next value after skipping some. -/
def PaintingClient.receiveItemInfo {κ : Type*} (cl : PaintingClient κ) (skipped : ℕ) :
    Option (PaintingClient κ) :=
  (Replication.receive cl.itemInfos skipped).map fun (value, rest) =>
    { item := cl.item.replicateItemInfo value
      itemInfos := rest
      received := cl.received ++ [value] }

namespace Painting

variable {κ μ : Type*} [DecidableEq μ]

/-- A call has made the server's item `item`, and sends its `ItemInfo`. -/
def called {κ μ : Type*} (s : Painting κ μ) (item : AItem κ) : Painting κ μ where
  item := item
  clients m := (s.clients m).send item.itemInfo

def setClient (s : Painting κ μ) (m : μ) (cl : PaintingClient κ) : Painting κ μ :=
  { s with clients := Function.update s.clients m cl }

def step (s : Painting κ μ) : PaintingEvent μ → Option (Painting κ μ)
  | .setItemInfo newItemInfo => some (s.called (s.item.setItemInfo newItemInfo))
  | .setColor newColor => some (s.called (s.item.setColor newColor))
  | .receiveItemInfo m skipped => ((s.clients m).receiveItemInfo skipped).map (s.setClient m)

variable (κ μ) in
def machine : Machine (Painting κ μ) (PaintingEvent μ) := ⟨{}, step⟩

end Painting

/-! ## A client -/

namespace PaintingClient

variable {κ : Type*} {cl cl' : PaintingClient κ}

structure Inv (cl : PaintingClient κ) : Prop where
  /-- No value on its way has the shape of the default. -/
  shaped : ∀ value ∈ cl.itemInfos, value.itemShape ≠ .none
  fresh : cl.received = [] → cl.item.itemInfo = {}
  shown : ∀ value ∈ cl.received.getLast?,
    cl.item.itemInfo = value ∧ cl.item.ShowsColor value.itemColor

theorem inv_init : Inv ({} : PaintingClient κ) where
  shaped _ h := nomatch h
  fresh _ := rfl
  shown _ h := nomatch h

theorem Inv.send (h : cl.Inv) {value : FItemInfo} (shape : value.itemShape ≠ .none) :
    (cl.send value).Inv where
  shaped other ho := by
    rcases List.mem_append.1 ho with ho | ho
    · exact h.shaped other ho
    · rw [List.mem_singleton.1 ho]
      exact shape
  fresh := h.fresh
  shown := h.shown

/-- A received value that equals the client's own has been shown before: it is not the default. -/
theorem Inv.shows_replicateItemInfo (h : cl.Inv) {value : FItemInfo}
    (shape : value.itemShape ≠ .none) :
    (cl.item.replicateItemInfo value).itemInfo = value ∧
      (cl.item.replicateItemInfo value).ShowsColor value.itemColor := by
  unfold AItem.replicateItemInfo
  split_ifs with same
  · cases last : cl.received.getLast? with
    | none =>
      rw [same, h.fresh (List.getLast?_eq_none_iff.1 last)] at shape
      exact absurd rfl shape
    | some earlier =>
      obtain ⟨own, shows⟩ := h.shown earlier last
      obtain rfl : value = earlier := same.trans own
      exact ⟨own, shows⟩
  · exact ⟨rfl, AItem.showsColor_onRepItemInfo { cl.item with itemInfo := value }⟩

theorem Inv.receiveItemInfo (h : cl.Inv) {skipped : ℕ}
    (hr : cl.receiveItemInfo skipped = some cl') : cl'.Inv := by
  obtain ⟨⟨value, rest⟩, hv, rfl⟩ := Option.map_eq_some_iff.1 hr
  have shape := h.shaped value (Replication.mem_of_receive hv)
  refine ⟨fun other ho => h.shaped other (Replication.mem_of_mem_rest hv ho), ?_, ?_⟩
  · intro empty
    simp at empty
  · intro last hlast
    obtain rfl : value = last := by simpa using hlast
    exact h.shows_replicateItemInfo shape

end PaintingClient

/-! ## The server with its clients -/

namespace Painting

variable {κ μ : Type*} [DecidableEq μ]

/-- The server's item has a shape and shows its color, and the clients are in order. -/
structure Inv {κ μ : Type*} (s : Painting κ μ) : Prop where
  shape : s.item.itemInfo.itemShape ≠ .none
  shown : s.item.ShowsColor s.item.itemInfo.itemColor
  clients : ∀ m, (s.clients m).Inv

theorem inv_called {κ μ : Type*} {s : Painting κ μ} (clients : ∀ m, (s.clients m).Inv)
    {item : AItem κ} (shape : item.itemInfo.itemShape ≠ .none)
    (shown : item.ShowsColor item.itemInfo.itemColor) : (s.called item).Inv where
  shape := shape
  shown := shown
  clients m := (clients m).send shape

theorem Inv.receiveItemInfo {s : Painting κ μ} (h : s.Inv) {m : μ} {skipped : ℕ}
    {cl : PaintingClient κ} (hr : (s.clients m).receiveItemInfo skipped = some cl) :
    (s.setClient m cl).Inv := by
  refine ⟨h.shape, h.shown, fun m' => ?_⟩
  by_cases e : m' = m
  · subst e
    simpa [setClient] using (h.clients m').receiveItemInfo hr
  · simpa [setClient, e] using h.clients m'

/-- After the first call of a proper run the invariant holds. -/
theorem inv_of_run {es : List (PaintingEvent μ)} {s : Painting κ μ}
    (h : (machine κ μ).Run es s) (proper : PaintingEvent.Proper es) :
    es = [] ∧ s = {} ∨ s.Inv := by
  induction h with
  | nil => exact Or.inl ⟨rfl, rfl⟩
  | @snoc es s s' e hr hs ih =>
    right
    have clients : (es = [] ∧ s = {} ∨ s.Inv) → ∀ m, (s.clients m).Inv := by
      rintro (⟨-, rfl⟩ | inv) m
      · exact PaintingClient.inv_init
      · exact inv.clients m
    have before := ih (proper.of_append)
    cases e with
    | setItemInfo newItemInfo =>
      cases hs
      have shape := proper.shaped newItemInfo (by simp)
      exact inv_called (clients before) shape
        (AItem.showsColor_onRepItemInfo { s.item with itemInfo := newItemInfo })
    | setColor newColor =>
      cases hs
      have later : es ≠ [] := proper.ne_nil_of_snoc (by simp)
      have inv := before.resolve_left fun start => later start.1
      exact inv_called inv.clients inv.shape
        (AItem.showsColor_onRepItemInfo
          { s.item with itemInfo := { s.item.itemInfo with itemColor := newColor } })
    | receiveItemInfo m skipped =>
      obtain ⟨cl, hcl, rfl⟩ := Option.map_eq_some_iff.1 hs
      have later : es ≠ [] := proper.ne_nil_of_snoc (by simp)
      have inv := before.resolve_left fun start => later start.1
      exact inv.receiveItemInfo hcl

/-- In every run that starts with a `SetItemInfo` and in which no `SetItemInfo` passes the shape
`None`: after the first call the server's material shows the color of the server's `ItemInfo`, and
the material of a client that has been handed a value shows the color of the last one. -/
theorem color_shown {es : List (PaintingEvent μ)} {s : Painting κ μ} (h : (machine κ μ).Run es s)
    (proper : PaintingEvent.Proper es) :
    (es ≠ [] → s.item.ShowsColor s.item.itemInfo.itemColor) ∧
      ∀ m, ∀ value ∈ (s.clients m).received.getLast?,
        (s.clients m).item.ShowsColor value.itemColor := by
  rcases inv_of_run h proper with ⟨rfl, rfl⟩ | inv
  · refine ⟨fun some => absurd rfl some, fun m value hv => ?_⟩
    cases hv
  · exact ⟨fun _ => inv.shown, fun m value hv => ((inv.clients m).shown value hv).2⟩

/-- A sphere in the default color is repainted black and then silver again.  The client 0 misses the
black value. -/
def repainted : List (PaintingEvent ℕ) :=
  [.setItemInfo ⟨FColor.silver, .sphere⟩, .receiveItemInfo 0 0, .setColor ⟨0, 0, 0, 255⟩,
    .setColor FColor.silver, .receiveItemInfo 0 1]

theorem color_shown_repainted : ∃ s, (machine ℕ ℕ).Run repainted s ∧
    s.item.ShowsColor FColor.silver ∧ (s.clients 0).item.ShowsColor FColor.silver := by
  have run := (machine ℕ ℕ).run_of_isSome repainted (by decide)
  have proper : PaintingEvent.Proper repainted := by
    constructor
    · rintro e ⟨rfl⟩
      exact ⟨_, rfl⟩
    · intro newItemInfo member
      simp only [repainted, List.mem_cons, PaintingEvent.setItemInfo.injEq, reduceCtorEq,
        List.not_mem_nil, or_false] at member
      rw [member]
      decide
  have shown := color_shown run proper
  exact ⟨_, run, shown.1 (by decide), shown.2 0 _ rfl⟩

end Painting

end CarpenterDemo
