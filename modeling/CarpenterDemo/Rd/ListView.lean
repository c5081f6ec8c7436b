import CarpenterDemo.Library.MachineInt
import CarpenterDemo.Rd.ViewableList
import Mathlib.Data.List.InsertIdx
import Mathlib.Data.List.Nodup
import Mathlib.Data.List.Perm.Basic
import Mathlib.Data.List.Sort
import Mathlib.Logic.Function.Basic

/-!
# `IViewableList::view`: one lifetime for each element

A view of a list is a handler that gets every element together with a lifetime of its own, which is
terminated when the element leaves the list.  The definitions of these lifetimes stand in
`lifetimes`, a map from the lifetime of the view to a vector, and each of them is attached to the
lifetime of the view, which terminates what is attached to it in reverse order.

The handlers wait in two maps of the signal, under a counter of 32 bits that both maps share; those
of a priority section come first.  Lifetimes of elements are numbered in the order in which they are
made.  Handlers do not throw, and neither they nor the actions of a lifetime that ends change the
list or its views while they run.

`view_tracks`: as long as every view has a lifetime of its own and the counter does not overflow,
the vector of each view lists, element by element, the lifetimes that its handler got with the
elements of the list.
-/

namespace CarpenterDemo.Rd

/-- A call of the handler of a view. -/
structure HandlerCall (κ T : Type*) where
  view : κ
  lifetime : ℕ
  index : ℕ
  value : T
  deriving DecidableEq, Repr

/-- A list with its views. -/
structure ListView (κ T : Type*) where
  list : ViewableList T := []
  lifetimes : κ → List ℕ := fun _ => []
  /-- The actions that `attach_nested` adds to the lifetime of a view, oldest first. -/
  nested : κ → List ℕ := fun _ => []
  adviseId : ℤ := 0
  /-- The lifetimes under which handlers have been advised, by the number of the handler. -/
  listeners : List (ℤ × κ) := []
  priorityListeners : List (ℤ × κ) := []
  /-- The lifetimes among those of the views that have been terminated. -/
  ended : List κ := []
  nextId : ℕ := 0
  terminated : List ℕ := []
  calls : List (HandlerCall κ T) := []
  /-- A vector was accessed out of its range. -/
  outOfRange : Bool := false

inductive ViewEvent (κ T : Type*)
  | op (o : ListOp T)
  | view (lifetime : κ) (priority : Bool)
  | terminate (lifetime : κ)
  deriving DecidableEq, Repr

namespace ListView

variable {κ T : Type*} [DecidableEq κ] (s : ListView κ T)

/-- `AddRemove::ADD` in the view with the given lifetime. -/
def addLifetime (lifetime : κ) (idx : ℕ) (value : T) : ListView κ T :=
  let v := s.lifetimes lifetime
  if idx ≤ v.length then
    { s with
      lifetimes := Function.update s.lifetimes lifetime (v.insertIdx idx s.nextId)
      nested := Function.update s.nested lifetime (s.nested lifetime ++ [s.nextId])
      nextId := s.nextId + 1
      calls := s.calls ++ [⟨lifetime, s.nextId, idx, value⟩] }
  else { s with outOfRange := true }

/-- `AddRemove::REMOVE` in the view with the given lifetime. -/
def removeLifetime (lifetime : κ) (idx : ℕ) : ListView κ T :=
  let v := s.lifetimes lifetime
  match v[idx]? with
  | some d =>
    { s with
      lifetimes := Function.update s.lifetimes lifetime (v.eraseIdx idx)
      nested := Function.update s.nested lifetime ((s.nested lifetime).erase d)
      terminated := s.terminated ++ [d] }
  | none => { s with outOfRange := true }

/-- `advise_add_remove`: an update is a removal and an addition. -/
def notify (lifetime : κ) : ListEvent T → ListView κ T
  | .add index newValue => s.addLifetime lifetime index newValue
  | .update index _ newValue =>
    (s.removeLifetime lifetime index).addLifetime lifetime index newValue
  | .remove index _ => s.removeLifetime lifetime index

/-- `execute_if_alive` for the handler of one view. -/
def executeIfAlive (e : ListEvent T) (s : ListView κ T) (lifetime : κ) : ListView κ T :=
  if lifetime ∈ s.ended then s else s.notify lifetime e

/-- The lifetimes of the views, in the order in which their handlers are called. -/
def views {κ T : Type*} (s : ListView κ T) : List κ :=
  (s.priorityListeners ++ s.listeners).map Prod.snd

def fire (e : ListEvent T) : ListView κ T := s.views.foldl (executeIfAlive e) s

/-- The events with which `advise` tells a new handler of the elements there are. -/
def additions (list : ViewableList T) : List (ListEvent T) :=
  list.zipIdx.map fun (value, i) => .add i value

/-- `std::map::emplace`: the map is sorted by number, and a number that is taken stays taken. -/
def emplace {κ : Type*} (id : ℤ) (lifetime : κ) (queue : List (ℤ × κ)) : List (ℤ × κ) :=
  if queue.any fun l => decide (l.1 = id) then queue
  else queue.orderedInsert (fun l l' => l.1 ≤ l'.1) (id, lifetime)

/-- `Signal::advise0`; the handlers of a priority section have a map of their own. -/
def advise {κ T : Type*} (s : ListView κ T) (lifetime : κ) : Bool → ListView κ T
  | true => { s with
      priorityListeners := emplace s.adviseId lifetime s.priorityListeners
      adviseId := MachineInt.wrap 32 (s.adviseId + 1) }
  | false => { s with
      listeners := emplace s.adviseId lifetime s.listeners
      adviseId := MachineInt.wrap 32 (s.adviseId + 1) }

def view (lifetime : κ) (priority : Bool) : ListView κ T :=
  if lifetime ∈ s.ended then s
  else (additions s.list).foldl (fun s e => s.notify lifetime e) (s.advise lifetime priority)

/-- `LifetimeImpl::terminate` for the lifetime of a view. -/
def terminate (lifetime : κ) : ListView κ T :=
  { s with
    ended := s.ended ++ [lifetime]
    terminated := s.terminated ++ (s.nested lifetime).reverse
    nested := Function.update s.nested lifetime [] }

variable [DecidableEq T]

def step (s : ListView κ T) : ViewEvent κ T → Option (ListView κ T)
  | .op o => (s.list.run o).map fun (list, es) => es.foldl fire { s with list := list }
  | .view lifetime priority => some (s.view lifetime priority)
  | .terminate lifetime => some (s.terminate lifetime)

def machine : Machine (ListView κ T) (ViewEvent κ T) := ⟨{}, step⟩

/-- No view is made under the lifetime of an earlier one, and none makes the counter overflow. -/
def OwnLifetime (s : ListView κ T) : ViewEvent κ T → Prop
  | .view lifetime _ => lifetime ∉ s.views ∧ s.adviseId < 2 ^ 31 - 1
  | _ => True

instance (s : ListView κ T) : DecidablePred s.OwnLifetime := fun e => by
  cases e <;> unfold OwnLifetime <;> infer_instance

/-! ## What a view keeps -/

section Views

variable {κ T : Type*} [DecidableEq κ] (s : ListView κ T)

/-- The calls of the handler of one view. -/
def callsOf (lifetime : κ) : List (HandlerCall κ T) :=
  s.calls.filter fun c => decide (c.view = lifetime)

/-- The calls of the handler are those for elements that have left and those for the elements of
`list`.  The vector of the view holds the lifetimes of the latter in the order of the elements;
these lifetimes go on, and those of the elements that have left are terminated. -/
def Tracks (lifetime : κ) (list : List T) : Prop :=
  ∃ live dead : List (HandlerCall κ T),
    s.lifetimes lifetime = live.map (·.lifetime) ∧ list = live.map (·.value) ∧
    (s.callsOf lifetime).Perm (dead ++ live) ∧
    (∀ c ∈ dead, c.lifetime ∈ s.terminated) ∧ ∀ c ∈ live, c.lifetime ∉ s.terminated

/-- Each view tracks a list.  The lists of two views differ while an event is being delivered. -/
structure Inv (lists : κ → List T) : Prop where
  own : s.views.Nodup
  unseen : ∀ k ∉ s.views, s.lifetimes k = [] ∧ s.callsOf k = [] ∧ s.nested k = []
  numbered : s.calls.map (·.lifetime) = List.range s.nextId
  handed : ∀ d ∈ s.terminated, d < s.nextId
  once : s.terminated.Nodup
  inRange : s.outOfRange = false
  alive : ∀ k ∈ s.views, k ∉ s.ended →
    s.Tracks k (lists k) ∧ (s.nested k).Perm (s.lifetimes k)
  gone : ∀ k ∈ s.ended, s.nested k = [] ∧ ∀ c ∈ s.callsOf k, c.lifetime ∈ s.terminated
  counted : 0 ≤ s.adviseId ∧ ∀ l ∈ s.priorityListeners ++ s.listeners, l.1 < s.adviseId

variable {s} {lists : κ → List T} {k k' : κ}

theorem mem_callsOf {c : HandlerCall κ T} : c ∈ s.callsOf k ↔ c ∈ s.calls ∧ c.view = k := by
  simp [callsOf]

theorem callsOf_snoc_self {s' : ListView κ T} {c : HandlerCall κ T}
    (calls : s'.calls = s.calls ++ [c]) : s'.callsOf c.view = s.callsOf c.view ++ [c] := by
  simp [callsOf, calls]

theorem callsOf_snoc_of_ne {s' : ListView κ T} {c : HandlerCall κ T}
    (calls : s'.calls = s.calls ++ [c]) (other : k ≠ c.view) : s'.callsOf k = s.callsOf k := by
  simp [callsOf, calls, Ne.symm other]

/-- A view goes on tracking its list while nothing happens to its lifetimes. -/
theorem Tracks.frame {s' : ListView κ T} {list : List T} (h : s.Tracks k list)
    (lifetimes : s'.lifetimes k = s.lifetimes k) (calls : s'.callsOf k = s.callsOf k)
    (grows : ∀ d ∈ s.terminated, d ∈ s'.terminated)
    (others : ∀ c ∈ s.callsOf k, c.lifetime ∈ s'.terminated → c.lifetime ∈ s.terminated) :
    s'.Tracks k list := by
  obtain ⟨live, dead, vector, elements, parts, finished, on⟩ := h
  refine ⟨live, dead, lifetimes.trans vector, elements, calls ▸ parts, ?_, ?_⟩
  · exact fun c hc => grows _ (finished c hc)
  · intro c hc ended
    have called : c ∈ s.callsOf k := parts.symm.subset (List.mem_append_right dead hc)
    exact on c hc (others c called ended)

namespace Inv

theorem init (lists : κ → List T) : ({} : ListView κ T).Inv lists where
  own := List.nodup_nil
  unseen := fun _ _ => ⟨rfl, rfl, rfl⟩
  numbered := rfl
  handed := nofun
  once := List.nodup_nil
  inRange := rfl
  alive := nofun
  gone := nofun
  counted := ⟨Int.le_refl 0, nofun⟩

/-- Only the lists of the views that are alive matter. -/
theorem congr {lists' : κ → List T} (h : s.Inv lists)
    (same : ∀ k ∈ s.views, k ∉ s.ended → lists' k = lists k) : s.Inv lists' where
  own := h.own
  unseen := h.unseen
  numbered := h.numbered
  handed := h.handed
  once := h.once
  inRange := h.inRange
  alive := fun k hk on => by
    rw [same k hk on]
    exact h.alive k hk on
  gone := h.gone
  counted := h.counted

/-- The views hear of a change of the list by its events only. -/
theorem withList (h : s.Inv lists) (list : List T) : Inv { s with list := list } lists :=
  ⟨h.own, h.unseen, h.numbered, h.handed, h.once, h.inRange, h.alive, h.gone, h.counted⟩

/-- No lifetime is handed out twice. -/
theorem unique (h : s.Inv lists) {c c' : HandlerCall κ T} (hc : c ∈ s.calls) (hc' : c' ∈ s.calls)
    (same : c.lifetime = c'.lifetime) : c = c' := by
  have distinct : (s.calls.map (·.lifetime)).Nodup := h.numbered ▸ List.nodup_range
  exact List.inj_on_of_nodup_map distinct hc hc' same

theorem fresh (h : s.Inv lists) {c : HandlerCall κ T} (hc : c ∈ s.calls) :
    c.lifetime < s.nextId := by
  rw [← List.mem_range, ← h.numbered]
  exact List.mem_map_of_mem hc

theorem nodup_callsOf (h : s.Inv lists) (k : κ) : ((s.callsOf k).map (·.lifetime)).Nodup := by
  have distinct : (s.calls.map (·.lifetime)).Nodup := h.numbered ▸ List.nodup_range
  exact distinct.sublist (List.filter_sublist.map _)

theorem length_lifetimes (h : s.Inv lists) (hk : k ∈ s.views) (on : k ∉ s.ended) :
    (s.lifetimes k).length = (lists k).length := by
  obtain ⟨⟨live, dead, vector, elements, -⟩, -⟩ := h.alive k hk on
  rw [vector, elements, List.length_map, List.length_map]

theorem addLifetime (h : s.Inv lists) (hk : k ∈ s.views) (on : k ∉ s.ended) {idx : ℕ} {value : T}
    (inside : idx ≤ (lists k).length) :
    (s.addLifetime k idx value).Inv
      (Function.update lists k ((lists k).insertIdx idx value)) := by
  have fits : idx ≤ (s.lifetimes k).length := h.length_lifetimes hk on ▸ inside
  have new : s.nextId ∉ s.terminated := fun ended => absurd (h.handed _ ended) (Nat.lt_irrefl _)
  let c : HandlerCall κ T := ⟨k, s.nextId, idx, value⟩
  rw [ListView.addLifetime, if_pos fits]
  refine ⟨h.own, ?_, ?_, ?_, h.once, h.inRange, ?_, ?_, h.counted⟩
  · intro k' hk'
    have other : k' ≠ k := fun e => hk' (e ▸ hk)
    obtain ⟨vector, called, actions⟩ := h.unseen k' hk'
    refine ⟨?_, ?_, ?_⟩
    · exact (Function.update_of_ne other _ _).trans vector
    · exact (callsOf_snoc_of_ne rfl other).trans called
    · exact (Function.update_of_ne other _ _).trans actions
  · rw [List.map_append, h.numbered, List.range_succ, List.map_singleton]
  · exact fun d hd => Nat.lt_succ_of_lt (h.handed d hd)
  · intro k' hk' on'
    obtain ⟨tracks, actions⟩ := h.alive k' hk' on'
    by_cases same : k' = k
    · subst same
      obtain ⟨live, dead, vector, elements, parts, finished, going⟩ := tracks
      have within : idx ≤ live.length := by rwa [vector, List.length_map] at fits
      simp only [Function.update_self]
      refine ⟨⟨live.insertIdx idx c, dead, ?_, ?_, ?_, finished, ?_⟩, ?_⟩
      · rw [List.map_insertIdx, ← vector]
        exact Function.update_self ..
      · rw [List.map_insertIdx, ← elements]
      · refine (List.Perm.of_eq (callsOf_snoc_self (c := c) rfl)).trans ?_
        refine (parts.append_right _).trans ?_
        rw [List.append_assoc]
        refine List.Perm.append_left dead ?_
        exact (List.perm_append_singleton _ live).trans (List.perm_insertIdx _ live within).symm
      · intro c hc
        rcases List.mem_cons.1 ((List.perm_insertIdx _ live within).subset hc) with rfl | hc
        · exact new
        · exact going c hc
      · refine (List.perm_append_singleton _ _).trans ?_
        exact (actions.cons _).trans (List.perm_insertIdx _ _ fits).symm
    · simp only [Function.update_of_ne same]
      refine ⟨tracks.frame ?_ ?_ (fun d hd => hd) (fun c _ ended => ended), actions⟩
      · exact Function.update_of_ne same _ _
      · exact callsOf_snoc_of_ne rfl same
  · intro k' hk'
    have other : k' ≠ k := fun e => on (e ▸ hk')
    obtain ⟨actions, finished⟩ := h.gone k' hk'
    refine ⟨?_, ?_⟩
    · exact (Function.update_of_ne other _ _).trans actions
    · intro c' hc'
      refine finished c' ((congrArg (c' ∈ ·) ?_).mp hc')
      exact callsOf_snoc_of_ne (c := c) rfl other

theorem removeLifetime (h : s.Inv lists) (hk : k ∈ s.views) (on : k ∉ s.ended) {idx : ℕ}
    (inside : idx < (lists k).length) :
    (s.removeLifetime k idx).Inv (Function.update lists k ((lists k).eraseIdx idx)) := by
  obtain ⟨⟨live, dead, vector, elements, parts, finished, going⟩, actions⟩ := h.alive k hk on
  have within : idx < live.length := by rwa [elements, List.length_map] at inside
  have found : (s.lifetimes k)[idx]? = some live[idx].lifetime := by
    rw [vector, List.getElem?_map, List.getElem?_eq_getElem within]
    rfl
  have perm : (live[idx] :: live.eraseIdx idx).Perm live := List.getElem_cons_eraseIdx_perm within
  generalize live[idx] = c at found perm
  have called : ∀ c' ∈ live, c' ∈ s.callsOf k := fun c' hc' =>
    parts.symm.subset (List.mem_append_right dead hc')
  have hc : c ∈ s.callsOf k := called c (perm.subset List.mem_cons_self)
  have running : c.lifetime ∉ s.terminated := going c (perm.subset List.mem_cons_self)
  have rest : ∀ c' ∈ live.eraseIdx idx, c'.lifetime ≠ c.lifetime := by
    intro c' hc' same
    have distinct := h.nodup_callsOf k
    rw [(parts.map _).nodup_iff, List.map_append] at distinct
    have := (perm.map HandlerCall.lifetime).nodup_iff.2 (List.nodup_append.1 distinct).2.1
    rw [List.map_cons, List.nodup_cons] at this
    exact this.1 (same ▸ List.mem_map_of_mem hc')
  rw [ListView.removeLifetime]
  simp only [found]
  refine ⟨h.own, ?_, h.numbered, ?_, ?_, h.inRange, ?_, ?_, h.counted⟩
  · intro k' hk'
    have other : k' ≠ k := fun e => hk' (e ▸ hk)
    obtain ⟨vector, called, actions⟩ := h.unseen k' hk'
    refine ⟨?_, called, ?_⟩
    · exact (Function.update_of_ne other _ _).trans vector
    · exact (Function.update_of_ne other _ _).trans actions
  · intro d hd
    rcases List.mem_append.1 hd with hd | hd
    · exact h.handed d hd
    · rw [List.mem_singleton.1 hd]
      exact h.fresh (mem_callsOf.1 hc).1
  · refine List.nodup_append.2 ⟨h.once, List.nodup_singleton _, ?_⟩
    rintro d hd d' hd' rfl
    exact running (List.mem_singleton.1 hd' ▸ hd)
  · intro k' hk' on'
    by_cases same : k' = k
    · subst same
      simp only [Function.update_self]
      refine ⟨⟨live.eraseIdx idx, c :: dead, ?_, ?_, ?_, ?_, ?_⟩, ?_⟩
      · rw [← List.eraseIdx_map, ← vector]
        exact Function.update_self ..
      · rw [← List.eraseIdx_map, ← elements]
      · refine parts.trans ?_
        exact (perm.symm.append_left dead).trans List.perm_middle
      · intro c' hc'
        rcases List.mem_cons.1 hc' with rfl | hc'
        · exact List.mem_append_right _ (List.mem_singleton_self _)
        · exact List.mem_append_left _ (finished c' hc')
      · intro c' hc' ended
        rcases List.mem_append.1 ended with ended | ended
        · exact going c' (perm.subset (List.mem_cons_of_mem c hc')) ended
        · exact rest c' hc' (List.mem_singleton.1 ended)
      · have vectors := perm.map HandlerCall.lifetime
        rw [List.map_cons, ← List.eraseIdx_map, ← vector] at vectors
        have erased := (actions.trans vectors.symm).erase c.lifetime
        rwa [List.erase_cons_head] at erased
    · simp only [Function.update_of_ne same]
      obtain ⟨tracks, actions⟩ := h.alive k' hk' on'
      refine ⟨tracks.frame ?_ rfl (fun d hd => List.mem_append_left _ hd) ?_, actions⟩
      · exact Function.update_of_ne same _ _
      · intro c' hc' ended
        rcases List.mem_append.1 ended with ended | ended
        · exact ended
        · obtain ⟨mem', viewed'⟩ := mem_callsOf.1 hc'
          obtain ⟨mem, viewed⟩ := mem_callsOf.1 hc
          obtain rfl := h.unique mem' mem (List.mem_singleton.1 ended)
          exact absurd (viewed'.symm.trans viewed) same
  · intro k' hk'
    have other : k' ≠ k := fun e => on (e ▸ hk')
    obtain ⟨actions, finished⟩ := h.gone k' hk'
    refine ⟨?_, fun c' hc' => List.mem_append_left _ (finished c' hc')⟩
    exact (Function.update_of_ne other _ _).trans actions

end Inv

/-! ## What a delivery leaves alone -/

/-- The list, the views and the lifetimes that have ended are the same. -/
def Frame (s s' : ListView κ T) : Prop :=
  s'.list = s.list ∧ s'.views = s.views ∧ s'.ended = s.ended

theorem Frame.trans {κ T : Type*} {s₁ s₂ s₃ : ListView κ T} (h : s₁.Frame s₂) (h' : s₂.Frame s₃) :
    s₁.Frame s₃ :=
  ⟨h'.1.trans h.1, h'.2.1.trans h.2.1, h'.2.2.trans h.2.2⟩

theorem frame_addLifetime (s : ListView κ T) (k : κ) (idx : ℕ) (value : T) :
    s.Frame (s.addLifetime k idx value) := by
  simp only [addLifetime]
  split_ifs <;> exact ⟨rfl, rfl, rfl⟩

theorem frame_removeLifetime (s : ListView κ T) (k : κ) (idx : ℕ) :
    s.Frame (s.removeLifetime k idx) := by
  simp only [removeLifetime]
  split <;> exact ⟨rfl, rfl, rfl⟩

theorem frame_notify (s : ListView κ T) (k : κ) (e : ListEvent T) : s.Frame (s.notify k e) := by
  cases e with
  | add index newValue => exact frame_addLifetime s k index newValue
  | update index oldValue newValue =>
    exact (frame_removeLifetime s k index).trans (frame_addLifetime _ k index newValue)
  | remove index oldValue => exact frame_removeLifetime s k index

theorem frame_executeIfAlive (e : ListEvent T) (s : ListView κ T) (k : κ) :
    s.Frame (executeIfAlive e s k) := by
  unfold executeIfAlive
  split_ifs
  · exact ⟨rfl, rfl, rfl⟩
  · exact frame_notify s k e

theorem frame_foldl {κ T α : Type*} {f : ListView κ T → α → ListView κ T}
    (each : ∀ s a, Frame s (f s a)) (as : List α) (s : ListView κ T) : s.Frame (as.foldl f s) := by
  induction as generalizing s with
  | nil => exact ⟨rfl, rfl, rfl⟩
  | cons a as ih => exact (each s a).trans (ih (f s a))

theorem frame_fire (s : ListView κ T) (e : ListEvent T) : s.Frame (s.fire e) :=
  frame_foldl (frame_executeIfAlive e) s.views s

/-! ## Events keep every view in step with the list -/

section Events

variable [DecidableEq T] {l l' : List T} {e : ListEvent T} {es : List (ListEvent T)}

theorem Inv.notify (h : s.Inv lists) (hk : k ∈ s.views) (on : k ∉ s.ended)
    (fits : ListEvent.applyTo (lists k) e = some l') :
    (s.notify k e).Inv (Function.update lists k l') := by
  cases e with
  | add index newValue =>
    obtain ⟨inside, ⟨⟩⟩ := Option.ite_none_right_eq_some.1 fits
    exact h.addLifetime hk on inside
  | remove index oldValue =>
    obtain ⟨found, ⟨⟩⟩ := Option.ite_none_right_eq_some.1 fits
    exact h.removeLifetime hk on (List.getElem?_eq_some_iff.1 found).1
  | update index oldValue newValue =>
    obtain ⟨found, ⟨⟩⟩ := Option.ite_none_right_eq_some.1 fits
    have inside := (List.getElem?_eq_some_iff.1 found).1
    have removed := h.removeLifetime hk on inside
    obtain ⟨-, views, ended⟩ := frame_removeLifetime s k index
    have shorter : index ≤ (Function.update lists k ((lists k).eraseIdx index) k).length := by
      rw [Function.update_self, List.length_eraseIdx_of_lt inside]
      omega
    have added := @Inv.addLifetime _ _ _ _ _ _ removed (views ▸ hk) (ended ▸ on) _ newValue shorter
    rw [Function.update_self, Function.update_idem,
      List.insertIdx_eraseIdx_self (Nat.ne_of_lt inside)] at added
    exact added

theorem Inv.executeIfAlive (h : s.Inv lists) (hk : k ∈ s.views)
    (fits : ListEvent.applyTo (lists k) e = some l') :
    (ListView.executeIfAlive e s k).Inv (Function.update lists k l') := by
  unfold ListView.executeIfAlive
  split_ifs with off
  · refine h.congr fun k' _ on => ?_
    exact Function.update_of_ne (fun same : k' = k => on (same ▸ off)) _ _
  · exact h.notify hk off fits

/-- An event goes from handler to handler; those that have had it are ahead of the others. -/
theorem Inv.foldl_executeIfAlive (fits : ListEvent.applyTo l e = some l') {ks : List κ}
    (distinct : ks.Nodup) (h : s.Inv lists) (viewed : ∀ k ∈ ks, k ∈ s.views)
    (behind : ∀ k ∈ ks, lists k = l) :
    (ks.foldl (ListView.executeIfAlive e) s).Inv fun k => if k ∈ ks then l' else lists k := by
  induction ks generalizing s lists with
  | nil => simpa using h
  | cons k ks ih =>
    obtain ⟨new, distinct⟩ := List.nodup_cons.1 distinct
    have hk := viewed k List.mem_cons_self
    have first := h.executeIfAlive hk (behind k List.mem_cons_self ▸ fits)
    obtain ⟨-, views, -⟩ := frame_executeIfAlive e s k
    refine (ih distinct first ?_ ?_).congr ?_
    · exact fun k' hk' => views ▸ viewed k' (List.mem_cons_of_mem k hk')
    · intro k' hk'
      rw [Function.update_of_ne fun same : k' = k => new (same ▸ hk')]
      exact behind k' (List.mem_cons_of_mem k hk')
    · intro k' _ _
      by_cases same : k' = k
      · simp [same, new]
      · simp [same]

theorem Inv.fire (h : s.Inv fun _ => l) (fits : ListEvent.applyTo l e = some l') :
    (s.fire e).Inv fun _ => l' := by
  refine (h.foldl_executeIfAlive fits h.own (fun _ hk => hk) fun _ _ => rfl).congr ?_
  obtain ⟨-, views, -⟩ := frame_fire s e
  intro k hk _
  rw [if_pos (views ▸ hk)]

theorem Inv.foldl_fire (h : s.Inv fun _ => l) (fits : ListEvent.replay l es = some l') :
    (es.foldl ListView.fire s).Inv fun _ => l' := by
  induction es generalizing s l with
  | nil =>
    obtain rfl : l = l' := Option.some.inj fits
    exact h
  | cons e es ih =>
    rw [ListEvent.replay_cons, Option.bind_eq_some_iff] at fits
    obtain ⟨mid, first, rest⟩ := fits
    exact ih (h.fire first) rest

theorem Inv.foldl_notify (h : s.Inv lists) (hk : k ∈ s.views) (on : k ∉ s.ended)
    (fits : ListEvent.replay (lists k) es = some l') :
    (es.foldl (fun s e => s.notify k e) s).Inv (Function.update lists k l') := by
  induction es generalizing s lists with
  | nil =>
    obtain rfl : lists k = l' := Option.some.inj fits
    rwa [List.foldl_nil, Function.update_eq_self]
  | cons e es ih =>
    rw [ListEvent.replay_cons, Option.bind_eq_some_iff] at fits
    obtain ⟨mid, first, rest⟩ := fits
    obtain ⟨-, views, ended⟩ := frame_notify s k e
    have after := ih (h.notify hk on first) (views ▸ hk) (ended ▸ on) (by
      rwa [Function.update_self])
    rwa [Function.update_idem] at after

theorem replay_additions (list : ViewableList T) :
    ListEvent.replay [] (additions list) = some list := by
  induction list using List.reverseRecOn with
  | nil => rfl
  | append_singleton list last ih =>
    rw [additions, List.zipIdx_append, List.map_append, ListEvent.replay_append]
    rw [additions] at ih
    rw [ih, Option.bind_some, List.zipIdx_singleton, List.map_singleton,
      ListEvent.replay_singleton, ListEvent.applyTo, Nat.zero_add, if_pos (Nat.le_refl _),
      List.insertIdx_length_self]

omit [DecidableEq T] in
/-- A new number is not taken, so the handler is called from now on. -/
theorem Inv.views_advise (h : s.Inv lists) (k : κ) (priority : Bool) :
    (s.advise k priority).views.Perm (k :: s.views) ∧
      ∀ l ∈ (s.advise k priority).priorityListeners ++ (s.advise k priority).listeners,
        l.1 ≤ s.adviseId := by
  have inserted {queue : List (ℤ × κ)}
      (among : ∀ l ∈ queue, l ∈ s.priorityListeners ++ s.listeners) :
      (emplace s.adviseId k queue).Perm ((s.adviseId, k) :: queue) := by
    rw [emplace, if_neg]
    · exact List.perm_orderedInsert _ _ queue
    · rw [List.any_eq_true]
      rintro ⟨l, hl, taken⟩
      exact absurd (of_decide_eq_true taken) (Int.ne_of_lt (h.counted.2 l (among l hl)))
  have queues : ((s.advise k priority).priorityListeners ++ (s.advise k priority).listeners).Perm
      ((s.adviseId, k) :: (s.priorityListeners ++ s.listeners)) := by
    cases priority with
    | true =>
      exact (inserted fun l hl => List.mem_append_left _ hl).append_right _
    | false =>
      refine ((inserted fun l hl => List.mem_append_right _ hl).append_left _).trans ?_
      exact List.perm_middle
  refine ⟨queues.map Prod.snd, fun l hl => ?_⟩
  rcases List.mem_cons.1 (queues.subset hl) with rfl | hl
  · exact Int.le_refl _
  · exact Int.le_of_lt (h.counted.2 l hl)

theorem Inv.view (h : s.Inv fun _ => s.list) {priority : Bool}
    (free : s.OwnLifetime (.view k priority)) :
    (s.view k priority).Inv fun _ => (s.view k priority).list := by
  unfold ListView.view
  split_ifs with on
  · exact h
  obtain ⟨new, below⟩ := free
  obtain ⟨views, ids⟩ := h.views_advise k priority
  have next : (s.advise k priority).adviseId = s.adviseId + 1 := by
    have fits : MachineInt.Fits 32 (s.adviseId + 1) := by
      have := h.counted.1
      constructor <;> omega
    cases priority <;> exact (MachineInt.wrap_eq_self_iff (by decide)).2 fits
  have start : (s.advise k priority).Inv (Function.update (fun _ => s.list) k []) := by
    obtain ⟨vector, called, actions⟩ := h.unseen k new
    have old : ∀ k' ∉ (s.advise k priority).views, k' ∉ s.views :=
      fun k' hk' seen => hk' (views.symm.subset (List.mem_cons_of_mem k seen))
    have alive : ∀ k' ∈ (s.advise k priority).views, k' ∉ s.ended →
        s.Tracks k' (Function.update (fun _ => s.list) k [] k') ∧
          (s.nested k').Perm (s.lifetimes k') := by
      intro k' hk' on'
      rcases List.mem_cons.1 (views.subset hk') with rfl | seen
      · rw [Function.update_self]
        refine ⟨⟨[], [], vector, rfl, ?_, nofun, nofun⟩, ?_⟩
        · exact List.Perm.of_eq called
        · exact List.Perm.of_eq (actions.trans vector.symm)
      · rw [Function.update_of_ne fun same : k' = k => new (same ▸ seen)]
        exact h.alive k' seen on'
    have counted : 0 ≤ (s.advise k priority).adviseId ∧
        ∀ l ∈ (s.advise k priority).priorityListeners ++ (s.advise k priority).listeners,
          l.1 < (s.advise k priority).adviseId := by
      rw [next]
      exact ⟨by have := h.counted.1; omega, fun l hl => Int.lt_add_one_of_le (ids l hl)⟩
    have own : (s.advise k priority).views.Nodup :=
      views.nodup_iff.2 (List.nodup_cons.2 ⟨new, h.own⟩)
    cases priority <;>
      exact ⟨own, fun k' hk' => h.unseen k' (old k' hk'), h.numbered, h.handed, h.once, h.inRange,
        alive, h.gone, counted⟩
  have list : (s.advise k priority).list = s.list := by cases priority <;> rfl
  have ended : (s.advise k priority).ended = s.ended := by cases priority <;> rfl
  have fits : ListEvent.replay (Function.update (fun _ => s.list) k [] k) (additions s.list) =
      some s.list := by
    rw [Function.update_self, replay_additions]
  have told := start.foldl_notify (views.symm.subset List.mem_cons_self) (ended ▸ on) fits
  obtain ⟨same, -⟩ := frame_foldl (fun s e => frame_notify s k e) (additions s.list)
    (s.advise k priority)
  refine told.congr fun k' _ _ => (same.trans list).trans ?_
  rw [Function.update_idem]
  by_cases other : k' = k
  · rw [other, Function.update_self]
  · rw [Function.update_of_ne other]

end Events

/-- What is attached to the lifetime of a view are the lifetimes of its elements that go on. -/
theorem Inv.nested_spec (h : s.Inv lists) (k : κ) : (s.nested k).Nodup ∧
    (∀ d ∈ s.nested k, d ∉ s.terminated ∧ ∃ c ∈ s.callsOf k, c.lifetime = d) ∧
    ∀ c ∈ s.callsOf k, c.lifetime ∈ s.terminated ∨ c.lifetime ∈ s.nested k := by
  by_cases hk : k ∈ s.views
  · by_cases on : k ∈ s.ended
    · obtain ⟨actions, finished⟩ := h.gone k on
      rw [actions]
      exact ⟨List.nodup_nil, nofun, fun c hc => Or.inl (finished c hc)⟩
    · obtain ⟨⟨live, dead, vector, -, parts, finished, going⟩, actions⟩ := h.alive k hk on
      have ids := (parts.map HandlerCall.lifetime).nodup_iff.1 (h.nodup_callsOf k)
      rw [List.map_append] at ids
      rw [vector] at actions
      refine ⟨actions.nodup_iff.2 (List.nodup_append.1 ids).2.1, ?_, ?_⟩
      · intro d hd
        obtain ⟨c, hc, rfl⟩ := List.mem_map.1 (actions.subset hd)
        exact ⟨going c hc, c, parts.symm.subset (List.mem_append_right dead hc), rfl⟩
      · intro c hc
        rcases List.mem_append.1 (parts.subset hc) with hc | hc
        · exact Or.inl (finished c hc)
        · exact Or.inr (actions.symm.subset (List.mem_map_of_mem hc))
  · obtain ⟨-, called, actions⟩ := h.unseen k hk
    rw [actions, called]
    exact ⟨List.nodup_nil, nofun, nofun⟩

theorem Inv.terminate (h : s.Inv lists) (k : κ) : (s.terminate k).Inv lists := by
  obtain ⟨distinct, attached, covered⟩ := h.nested_spec k
  refine ⟨h.own, ?_, h.numbered, ?_, ?_, h.inRange, ?_, ?_, h.counted⟩
  · intro k' hk'
    obtain ⟨vector, called, actions⟩ := h.unseen k' hk'
    refine ⟨vector, called, ?_⟩
    by_cases same : k' = k
    · rw [same]
      exact Function.update_self ..
    · exact (Function.update_of_ne same _ _).trans actions
  · intro d hd
    rcases List.mem_append.1 hd with hd | hd
    · exact h.handed d hd
    · obtain ⟨-, c, hc, rfl⟩ := attached d (List.mem_reverse.1 hd)
      exact h.fresh (mem_callsOf.1 hc).1
  · refine List.nodup_append.2 ⟨h.once, List.nodup_reverse.2 distinct, ?_⟩
    rintro d hd d' hd' rfl
    exact (attached d (List.mem_reverse.1 hd')).1 hd
  · intro k' hk' on'
    have same : k' ≠ k := fun e => on' (e ▸ List.mem_append_right _ (List.mem_singleton_self k'))
    obtain ⟨tracks, actions⟩ := h.alive k' hk' fun off => on' (List.mem_append_left _ off)
    refine ⟨tracks.frame rfl rfl (fun d hd => List.mem_append_left _ hd) ?_, ?_⟩
    · intro c hc ended
      rcases List.mem_append.1 ended with ended | ended
      · exact ended
      · obtain ⟨-, c', hc', ids⟩ := attached c.lifetime (List.mem_reverse.1 ended)
        obtain ⟨mem, viewed⟩ := mem_callsOf.1 hc
        obtain ⟨mem', viewed'⟩ := mem_callsOf.1 hc'
        obtain rfl := h.unique mem' mem ids
        exact absurd (viewed.symm.trans viewed') same
    · exact (List.Perm.of_eq (Function.update_of_ne same _ _)).trans actions
  · intro k' hk'
    by_cases same : k' = k
    · refine ⟨?_, fun c hc => ?_⟩
      · rw [same]
        exact Function.update_self ..
      · rw [same] at hc
        rcases covered c hc with finished | finished
        · exact List.mem_append_left _ finished
        · exact List.mem_append_right _ (List.mem_reverse.2 finished)
    · obtain old | old := List.mem_append.1 hk'
      · obtain ⟨actions, finished⟩ := h.gone k' old
        refine ⟨(Function.update_of_ne same _ _).trans actions, fun c hc => ?_⟩
        exact List.mem_append_left _ (finished c hc)
      · exact absurd (List.mem_singleton.1 old) same

end Views

/-! ## Whole runs -/

theorem inv_of_run {es : List (ViewEvent κ T)} {s : ListView κ T} (h : machine.Run es s)
    (own : machine.Along es OwnLifetime) : s.Inv fun _ => s.list := by
  refine h.invariant_along (I := fun s => s.Inv fun _ => s.list) (Inv.init _) ?_ own
  intro s s' e hi hp hs
  cases e with
  | op o =>
    obtain ⟨⟨list, fired⟩, ran, rfl⟩ := Option.map_eq_some_iff.1 hs
    have start : Inv { s with list := list } fun _ => s.list := hi.withList list
    have told := start.foldl_fire (ViewableList.replay_run ran)
    obtain ⟨same, -⟩ := frame_foldl frame_fire fired { s with list := list }
    exact told.congr fun _ _ _ => same
  | view k priority =>
    obtain rfl := Option.some.inj hs
    exact hi.view hp
  | terminate k =>
    obtain rfl := Option.some.inj hs
    exact hi.terminate k

/-- If every view has a lifetime of its own and the counter of the handlers does not overflow, no
vector is accessed out of its range, every view that goes on tracks the list, and no lifetime of an
element is terminated twice.  A view that has ended leaves no lifetime behind. -/
theorem view_tracks {es : List (ViewEvent κ T)} {s : ListView κ T} (h : machine.Run es s)
    (own : machine.Along es OwnLifetime) :
    s.outOfRange = false ∧ s.terminated.Nodup ∧
      (∀ k ∈ s.views, k ∉ s.ended → s.Tracks k s.list) ∧
      ∀ c ∈ s.calls, c.view ∈ s.ended → c.lifetime ∈ s.terminated := by
  have hi := inv_of_run h own
  refine ⟨hi.inRange, hi.once, fun k hk on => (hi.alive k hk on).1, fun c hc ended => ?_⟩
  exact (hi.gone c.view ended).2 c (mem_callsOf.2 ⟨hc, rfl⟩)

/-- Two views of a list that grows, shrinks and is updated; the first of them ends. -/
def twoViews : List (ViewEvent Bool ℕ) :=
  [.op (.addAll [5, 6]), .view false false, .op (.addAt 0 4), .view true true, .op (.set 1 7),
    .op (.remove 4), .terminate false, .op (.addAll [8, 9]), .op (.removeAll [6, 8])]

/-- The list is `[7, 9]` now; the view that goes on has a lifetime for each of the two elements. -/
theorem view_tracks_twoViews : ∃ s : ListView Bool ℕ, machine.Run twoViews s ∧
    s.list = [7, 9] ∧ s.outOfRange = false ∧ s.terminated.Nodup ∧ s.Tracks true [7, 9] ∧
      ∀ c ∈ s.calls, c.view = false → c.lifetime ∈ s.terminated := by
  have run := machine.run_of_isSome twoViews (by decide +kernel)
  have own := machine.along_of_check OwnLifetime twoViews (by decide +kernel)
  obtain ⟨inRange, once, tracks, left⟩ := view_tracks run own
  refine ⟨_, run, by decide +kernel, inRange, once, ?_, ?_⟩
  · exact tracks true (by decide +kernel) (by decide +kernel)
  · intro c hc viewed
    apply left c hc
    rw [viewed]
    decide +kernel

/-- The values whose lifetimes have been terminated, oldest first. -/
def terminatedValues {κ T : Type*} (s : ListView κ T) : List T :=
  s.terminated.filterMap fun d => (s.calls.find? fun c => decide (c.lifetime = d)).map (·.value)

/-- Two views under one lifetime share a vector.  When the first of two elements leaves, a lifetime
of the second is terminated as well. -/
example : ((@machine Unit ℕ _ _).exec {} [.op (.addAll [5, 6]), .view () false, .view () false,
    .op (.removeAt 0)]).map (fun s => (s.list, s.terminatedValues)) = some ([6], [5, 6]) := by
  decide

end ListView

end CarpenterDemo.Rd
