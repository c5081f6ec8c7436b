import CarpenterDemo.Library.Duplex
import CarpenterDemo.Library.Lists
import Mathlib.Data.List.Nodup
import Mathlib.Data.Nat.Bitwise
import Mathlib.Order.Defs.Unbundled

/-!
# `InternRoot`: values that are sent once

A value that is written through an intern root is sent once, with an index, and from then on only
the index is.  Each side numbers its own values with even indices and knows those of the other side
by odd ones; on the way an index changes its last bit.  Either side may write a value that the other
one is just sending.

Values are found by `equals`, which the values themselves define and which their hash codes agree
with.  `inverseMap` is what a search finds.  To bind a root clears it; a value that reaches a root
that has not been bound is dropped, and a root that has not been bound cannot send.  The values
arrive through `InternScheduler`, at once and in the order of the wire.  To write a value interns no
other one, and a reference is read when it arrives.

`resolved` is an addition of the model: what the references that have arrived were read as, with the
values they were written for.

`references_resolve`: if `equals` is an equivalence, and both roots are bound once, before anything
is written, then as long as the indices fit into 32 bits every reference is read as a value that is
equal to the one it was written for, and neither side sends two equal values.
-/

namespace CarpenterDemo.Rd

/-- A value on the wire of the root, or an index inside any other message. -/
inductive InternMessage (V : Type*)
  | interned (value : V) (remoteId : BitVec 32)
  | reference (index : BitVec 32) (written : V)
  deriving DecidableEq, Repr

/-- What happens to a root: it is bound, or a value is written. -/
inductive InternAct (V : Type*)
  | bind
  | write (value : V)
  deriving DecidableEq, Repr

structure InternRoot (V : Type*) where
  myItemsLis : List V := []
  otherItemsList : ℤ → Option V := fun _ => none
  /-- The index that a search for a value finds. -/
  inverseMap : V → Option (BitVec 32) := fun _ => none
  isBound : Bool := false
  resolved : List (Option V × V) := []
  /-- An assertion has failed. -/
  asserted : Bool := false

namespace InternRoot

variable {V : Type*}

def isIndexOwned (id : BitVec 32) : Bool := id &&& 1 = 0

/-- `id / 2`. -/
def half (id : BitVec 32) : ℤ := id.toInt.tdiv 2

def unInternValue (self : InternRoot V) (id : BitVec 32) : Option V :=
  if isIndexOwned id then
    if half id < 0 then none else self.myItemsLis[(half id).toNat]?
  else self.otherItemsList (half id)

section Functions

variable (equals : V → V → Bool) (self : InternRoot V)

/-- `inverse_map[value] = id`. -/
def setIndex (value : V) (id : BitVec 32) : V → Option (BitVec 32) :=
  fun v => if equals value v then some id else self.inverseMap v

/-- `intern_value`, with what it sends. -/
def internValue (value : V) : InternRoot V × BitVec 32 × List (InternMessage V) :=
  match self.inverseMap value with
  | some index => (self, index, [])
  | none =>
    let index := BitVec.ofNat 32 self.myItemsLis.length * 2
    ({ self with
        myItemsLis := self.myItemsLis ++ [value]
        inverseMap := self.setIndex equals value index },
      index, [.interned value index])

/-- `writeInterned` into a message that is sent then. -/
def writeInterned (value : V) : InternRoot V × List (InternMessage V) :=
  let (self, index, sent) := self.internValue equals value
  (self, sent ++ [.reference index value])

def setInternedCorrespondence (id : BitVec 32) (value : V) : InternRoot V :=
  { self with
    otherItemsList := Function.update self.otherItemsList (half id) (some value)
    inverseMap := self.setIndex equals value id
    asserted := self.asserted || isIndexOwned id }

def onWireReceived (value : V) (remoteId : BitVec 32) : InternRoot V :=
  let self := self.setInternedCorrespondence equals (remoteId ^^^ 1) value
  { self with asserted := self.asserted || decide (remoteId &&& 1 ≠ 0) }

/-- `readInterned` from a message that has arrived. -/
def readInterned (index : BitVec 32) (written : V) : InternRoot V :=
  { self with resolved := self.resolved ++ [(self.unInternValue (index ^^^ 1), written)] }

def bind : InternRoot V :=
  { self with
    myItemsLis := []
    otherItemsList := fun _ => none
    inverseMap := fun _ => none
    isBound := true
    asserted := self.asserted || self.isBound }

/-- A root that has not been bound has no protocol to send through. -/
def act : InternAct V → Option (InternRoot V × List (InternMessage V))
  | .bind => some (self.bind, [])
  | .write value => if self.isBound then some (self.writeInterned equals value) else none

def receive : InternMessage V → InternRoot V
  | .interned value remoteId =>
    if self.isBound then self.onWireReceived equals value remoteId else self
  | .reference index written => self.readInterned index written

/-- One side. -/
def party : Party (InternRoot V) (InternAct V) (InternMessage V) (InternMessage V) where
  init := {}
  act self a := self.act equals a
  receive self message := some (self.receive equals message, [])

end Functions

theorem isBound_writeInterned (equals : V → V → Bool) (self : InternRoot V) (value : V) :
    (self.writeInterned equals value).1.isBound = self.isBound := by
  simp only [writeInterned, internValue]
  cases self.inverseMap value <;> rfl

theorem isBound_receive (equals : V → V → Bool) (self : InternRoot V) (m : InternMessage V) :
    (self.receive equals m).isBound = self.isBound := by
  cases m with
  | interned value remoteId =>
    simp only [receive]
    split_ifs <;> rfl
  | reference index written => rfl

/-! ## Indices -/

/-- The index of the value number `k` on the side that has interned it. -/
def own (k : ℕ) : BitVec 32 := BitVec.ofNat 32 k * 2

/-- The same value on the other side. -/
def foreign (k : ℕ) : BitVec 32 := own k ^^^ 1

theorem own_xor (k : ℕ) : own k ^^^ 1 = foreign k := rfl

theorem foreign_xor (k : ℕ) : foreign k ^^^ 1 = own k := by
  rw [foreign, BitVec.xor_assoc, BitVec.xor_self, BitVec.xor_zero]

theorem toNat_own {k : ℕ} (fits : k < 2 ^ 30) : (own k).toNat = k * 2 := by
  have two : (2 : BitVec 32).toNat = 2 := rfl
  rw [own, BitVec.toNat_mul, BitVec.toNat_ofNat, two]
  omega

theorem toNat_foreign {k : ℕ} (fits : k < 2 ^ 30) : (foreign k).toNat = k * 2 + 1 := by
  rw [foreign, BitVec.toNat_xor, toNat_own fits]
  exact Nat.xor_one_of_even ⟨k, by omega⟩

theorem isIndexOwned_eq (id : BitVec 32) : isIndexOwned id = decide (id.toNat % 2 = 0) := by
  have one : (1 : BitVec 32).toNat = 1 := rfl
  rw [isIndexOwned, decide_eq_decide, ← BitVec.toNat_inj, BitVec.toNat_and, one, Nat.and_one_is_mod]
  rfl

theorem half_eq {id : BitVec 32} (small : id.toNat < 2 ^ 31) : half id = id.toNat / 2 := by
  rw [half, BitVec.toInt_eq_toNat_cond, if_pos (by omega), Int.tdiv_eq_ediv_of_nonneg (by omega)]

section Indices

variable {k : ℕ} (fits : k < 2 ^ 30)
include fits

theorem isIndexOwned_own : isIndexOwned (own k) = true := by
  rw [isIndexOwned_eq, toNat_own fits]
  exact decide_eq_true (Nat.mul_mod_left k 2)

theorem isIndexOwned_foreign : isIndexOwned (foreign k) = false := by
  rw [isIndexOwned_eq, toNat_foreign fits]
  exact decide_eq_false (by omega)

theorem half_own : half (own k) = k := by
  rw [half_eq (by rw [toNat_own fits]; omega), toNat_own fits]
  omega

theorem half_foreign : half (foreign k) = k := by
  rw [half_eq (by rw [toNat_foreign fits]; omega), toNat_foreign fits]
  omega

theorem unInternValue_own (self : InternRoot V) :
    self.unInternValue (own k) = self.myItemsLis[k]? := by
  rw [unInternValue, isIndexOwned_own fits, if_pos rfl, half_own fits, if_neg (by omega),
    Int.toNat_natCast]

theorem unInternValue_foreign (self : InternRoot V) :
    self.unInternValue (foreign k) = self.otherItemsList k := by
  rw [unInternValue, isIndexOwned_foreign fits, if_neg Bool.false_ne_true, half_foreign fits]

end Indices

/-! ## What is on the way -/

section OnTheWay

variable (equals : V → V → Bool)

/-- The value number `k` is equal to `value`. -/
def Stands (items : List V) (k : ℕ) (value : V) : Prop :=
  ∃ v, items[k]? = some v ∧ equals v value = true

/-- The sender has interned `mine` and the receiver `theirs`.  The first `n` values of the sender
have arrived, the others are on the way in their order, and every reference is to a value that will
have arrived before it. -/
def Announces (mine theirs : List V) : ℕ → List (InternMessage V) → Prop
  | n, [] => n = mine.length
  | n, .interned value remoteId :: rest =>
    remoteId = own n ∧ mine[n]? = some value ∧ Announces mine theirs (n + 1) rest
  | n, .reference index written :: rest =>
    ((∃ k < n, index = own k ∧ Stands equals mine k written) ∨
      ∃ k, index = foreign k ∧ Stands equals theirs k written) ∧ Announces mine theirs n rest

/-- The index stands for the value on the side that sends it. -/
def Names (self : InternRoot V) (index : BitVec 32) (value : V) : Prop :=
  (∃ k, index = own k ∧ Stands equals self.myItemsLis k value) ∨
    ∃ k : ℕ, index = foreign k ∧
      ∃ v, self.otherItemsList k = some v ∧ equals v value = true

variable {equals} {mine theirs : List V} {n : ℕ} {queue : List (InternMessage V)}

theorem Stands.append {items : List V} {k : ℕ} {value : V} (h : Stands equals items k value)
    (more : List V) : Stands equals (items ++ more) k value := by
  obtain ⟨v, found, same⟩ := h
  exact ⟨v, Lists.getElem?_append_of_some found _, same⟩

theorem Stands.lt_length {items : List V} {k : ℕ} {value : V} (h : Stands equals items k value) :
    k < items.length := by
  obtain ⟨v, found, -⟩ := h
  exact (List.getElem?_eq_some_iff.1 found).1

theorem Announces.le (h : Announces equals mine theirs n queue) : n ≤ mine.length := by
  induction queue generalizing n with
  | nil => exact Nat.le_of_eq h
  | cons m rest ih =>
    cases m with
    | interned value remoteId => exact Nat.le_of_succ_le (ih h.2.2)
    | reference index written => exact ih h.2

/-- The receiver may intern further values. -/
theorem Announces.mono (h : Announces equals mine theirs n queue) (value : V) :
    Announces equals mine (theirs ++ [value]) n queue := by
  induction queue generalizing n with
  | nil => exact h
  | cons m rest ih =>
    cases m with
    | interned v remoteId => exact ⟨h.1, h.2.1, ih h.2.2⟩
    | reference index written =>
      refine ⟨h.1.imp_right fun there => ?_, ih h.2⟩
      obtain ⟨k, same, stands⟩ := there
      exact ⟨k, same, stands.append _⟩

theorem Announces.interned (h : Announces equals mine theirs n queue) (value : V) :
    Announces equals (mine ++ [value]) theirs n (queue ++ [.interned value (own mine.length)]) := by
  induction queue generalizing n with
  | nil =>
    obtain rfl : n = mine.length := h
    exact ⟨rfl, by simp, by simp [Announces]⟩
  | cons m rest ih =>
    cases m with
    | interned v remoteId =>
      exact ⟨h.1, Lists.getElem?_append_of_some h.2.1 _, ih h.2.2⟩
    | reference index written =>
      refine ⟨h.1.imp_left fun there => ?_, ih h.2⟩
      obtain ⟨k, known, same, stands⟩ := there
      exact ⟨k, known, same, stands.append _⟩

theorem Announces.reference (h : Announces equals mine theirs n queue) {index : BitVec 32}
    {written : V} (named : (∃ k, index = own k ∧ Stands equals mine k written) ∨
      ∃ k, index = foreign k ∧ Stands equals theirs k written) :
    Announces equals mine theirs n (queue ++ [.reference index written]) := by
  induction queue generalizing n with
  | nil =>
    obtain rfl : n = mine.length := h
    refine ⟨named.imp_left fun there => ?_, rfl⟩
    obtain ⟨k, same, stands⟩ := there
    exact ⟨k, stands.lt_length, same, stands⟩
  | cons m rest ih =>
    cases m with
    | interned v remoteId => exact ⟨h.1, h.2.1, ih h.2.2⟩
    | reference i w => exact ⟨h.1, ih h.2⟩

variable (equals) in
/-- The messages in `queue` are on the way from `a` to `b`. -/
def Toward (a b : InternRoot V) (queue : List (InternMessage V)) : Prop :=
  ∃ n, Announces equals a.myItemsLis b.myItemsLis n queue ∧
    ∀ k : ℕ, b.otherItemsList k = if k < n then a.myItemsLis[k]? else none

variable (equals) in
/-- What one side has on its own. -/
structure Sound (a : InternRoot V) : Prop where
  named : ∀ value index, a.inverseMap value = some index → a.Names equals index value
  known : ∀ value ∈ a.myItemsLis, a.inverseMap value ≠ none
  respects : ∀ v w, equals v w = true → a.inverseMap v = a.inverseMap w
  once : a.myItemsLis.Pairwise fun v w => equals v w = false
  room : a.myItemsLis.length ≤ 2 ^ 30
  resolved : ∀ r ∈ a.resolved, ∃ v, r.1 = some v ∧ equals v r.2 = true
  asserted : a.asserted = false

theorem Names.mono {a : InternRoot V} {index : BitVec 32} {value : V}
    (h : a.Names equals index value) (v : V) :
    Names equals { a with myItemsLis := a.myItemsLis ++ [v] } index value := by
  refine h.imp_left fun there => ?_
  obtain ⟨k, same, stands⟩ := there
  exact ⟨k, same, stands.append _⟩

/-- What a side takes for the name of a value will be understood by the other side. -/
theorem Toward.reference {a b : InternRoot V} {queue back : List (InternMessage V)}
    (ab : Toward equals a b queue) (ba : Toward equals b a back) {index : BitVec 32} {value : V}
    (named : a.Names equals index value) :
    Toward equals a b (queue ++ [.reference index value]) := by
  obtain ⟨n, announced, arrived⟩ := ab
  obtain ⟨_, -, arrived'⟩ := ba
  refine ⟨n, announced.reference (named.imp_right fun there => ?_), arrived⟩
  obtain ⟨k, same, v, found, equal⟩ := there
  rw [arrived'] at found
  exact ⟨k, same, v, (Option.ite_none_right_eq_some.1 found).2, equal⟩

end OnTheWay

section Steps

variable {equals : V → V → Bool} {a b : InternRoot V} {queue back : List (InternMessage V)}
  (equiv : Equivalence fun v w => equals v w = true)
include equiv

/-- To set an index does not tell equal values apart. -/
theorem respects_setIndex (respects : ∀ v w, equals v w = true → a.inverseMap v = a.inverseMap w)
    (value : V) (id : BitVec 32) (v w : V) (same : equals v w = true) :
    a.setIndex equals value id v = a.setIndex equals value id w := by
  have agree : equals value v = true ↔ equals value w = true :=
    ⟨fun h => equiv.trans h same, fun h => equiv.trans h (equiv.symm same)⟩
  simp only [setIndex, agree, respects v w same]

/-- A value that is new to both sides is interned. -/
theorem intern_spec (ab : Toward equals a b queue) (ba : Toward equals b a back)
    (sound : a.Sound equals) (room : a.myItemsLis.length < 2 ^ 30) {value : V}
    (new : a.inverseMap value = none) :
    Toward equals (a.internValue equals value).1 b
        (queue ++ [.interned value (own a.myItemsLis.length)]) ∧
      Toward equals b (a.internValue equals value).1 back ∧
      (a.internValue equals value).1.Sound equals := by
  obtain ⟨n, announced, arrived⟩ := ab
  obtain ⟨n', announced', arrived'⟩ := ba
  have interned : (a.internValue equals value).1 =
      { a with
        myItemsLis := a.myItemsLis ++ [value]
        inverseMap := a.setIndex equals value (own a.myItemsLis.length) } := by
    simp [internValue, new, own]
  rw [interned]
  refine ⟨⟨n, announced.interned value, fun k => ?_⟩, ⟨n', announced'.mono value, arrived'⟩, ?_⟩
  · rw [arrived k]
    split_ifs with known
    · exact (List.getElem?_append_left (Nat.lt_of_lt_of_le known announced.le)).symm
    · rfl
  · refine ⟨fun v index h => ?_, fun v hv => ?_, respects_setIndex equiv sound.respects _ _, ?_, ?_,
      sound.resolved, sound.asserted⟩
    · simp only [setIndex] at h
      split_ifs at h with same
      · obtain rfl := Option.some.inj h
        exact Or.inl ⟨_, rfl, value, by simp, same⟩
      · exact (sound.named v index h).mono value
    · simp only [setIndex]
      split_ifs with same
      · exact Option.some_ne_none _
      · rcases List.mem_append.1 hv with hv | hv
        · exact sound.known v hv
        · rw [List.mem_singleton.1 hv] at same
          exact absurd (equiv.refl value) same
    · refine List.pairwise_append.2 ⟨sound.once, List.pairwise_singleton _ _, ?_⟩
      intro v hv w hw
      rw [List.mem_singleton.1 hw, ← Bool.not_eq_true]
      exact fun same => sound.known v hv ((sound.respects v value same).trans new)
    · rw [List.length_append, List.length_singleton]
      exact room

theorem write_spec (ab : Toward equals a b queue) (ba : Toward equals b a back)
    (sound : a.Sound equals) (room : a.myItemsLis.length < 2 ^ 30) (value : V) :
    Toward equals (a.writeInterned equals value).1 b (queue ++ (a.writeInterned equals value).2) ∧
      Toward equals b (a.writeInterned equals value).1 back ∧
      (a.writeInterned equals value).1.Sound equals := by
  cases new : a.inverseMap value with
  | some index =>
    have written : a.writeInterned equals value = (a, [.reference index value]) := by
      simp [writeInterned, internValue, new]
    rw [written]
    exact ⟨ab.reference ba (sound.named value index new), ba, sound⟩
  | none =>
    obtain ⟨ab, ba, sound⟩ := intern_spec equiv ab ba sound room new
    have written : a.writeInterned equals value = ((a.internValue equals value).1,
        [.interned value (own a.myItemsLis.length)] ++
          [.reference (own a.myItemsLis.length) value]) := by
      simp [writeInterned, internValue, new, own]
    rw [written, ← List.append_assoc]
    refine ⟨ab.reference ba (sound.named value _ ?_), ba, sound⟩
    have self : equals value value = true := equiv.refl value
    simp [internValue, new, setIndex, self, own]

/-- The oldest message arrives. -/
theorem receive_spec {m : InternMessage V} (ab : Toward equals a b (m :: queue))
    (ba : Toward equals b a back) (sound : b.Sound equals) (room : a.myItemsLis.length ≤ 2 ^ 30)
    (bound : b.isBound = true) :
    Toward equals a (b.receive equals m) queue ∧ Toward equals (b.receive equals m) a back ∧
      (b.receive equals m).Sound equals := by
  obtain ⟨n, announced, arrived⟩ := ab
  cases m with
  | interned value remoteId =>
    obtain ⟨rfl, found, announced⟩ := announced
    have fits : n < 2 ^ 30 := Nat.lt_of_lt_of_le (List.getElem?_eq_some_iff.1 found).1 room
    have received : b.receive equals (.interned value (own n)) =
        { b with
          otherItemsList := Function.update b.otherItemsList n (some value)
          inverseMap := b.setIndex equals value (foreign n) } := by
      have even : own n &&& 1 = 0 := of_decide_eq_true (isIndexOwned_own fits)
      simp only [receive, bound, if_true, onWireReceived, setInternedCorrespondence, own_xor,
        half_foreign fits, isIndexOwned_foreign fits, even, ne_eq, not_true, decide_false,
        Bool.or_false]
    rw [received]
    refine ⟨⟨n + 1, announced, fun k => ?_⟩, ba, ?_, ?_,
      respects_setIndex equiv sound.respects _ _, sound.once, sound.room, sound.resolved,
      sound.asserted⟩
    · by_cases same : k = n
      · subst same
        simp [found]
      · have other : (k : ℤ) ≠ n := fun h => same (Int.ofNat.inj h)
        have next : k < n + 1 ↔ k < n := by omega
        simp only [Function.update_of_ne other, arrived k, next]
    · intro v index h
      simp only [setIndex] at h
      split_ifs at h with same
      · obtain rfl := Option.some.inj h
        exact Or.inr ⟨n, rfl, value, by simp, same⟩
      · refine (sound.named v index h).imp_right fun there => ?_
        obtain ⟨k, index, w, found, equal⟩ := there
        -- what it has heard of before has a smaller number
        have known := found
        rw [arrived k] at known
        have less := (Option.ite_none_right_eq_some.1 known).1
        have other : (k : ℤ) ≠ n := fun h => Nat.ne_of_lt less (Int.ofNat.inj h)
        exact ⟨k, index, w, (Function.update_of_ne other _ _).trans found, equal⟩
    · intro v hv
      simp only [setIndex]
      split_ifs
      · exact Option.some_ne_none _
      · exact sound.known v hv
  | reference index written =>
    obtain ⟨named, announced⟩ := announced
    have read : ∃ v, b.unInternValue (index ^^^ 1) = some v ∧ equals v written = true := by
      rcases named with ⟨k, known, rfl, v, found, equal⟩ | ⟨k, rfl, v, found, equal⟩
      · have fits : k < 2 ^ 30 := Nat.lt_of_lt_of_le (List.getElem?_eq_some_iff.1 found).1 room
        refine ⟨v, ?_, equal⟩
        rw [own_xor, unInternValue_foreign fits, arrived k, if_pos known, found]
      · have fits : k < 2 ^ 30 :=
          Nat.lt_of_lt_of_le (List.getElem?_eq_some_iff.1 found).1 sound.room
        refine ⟨v, ?_, equal⟩
        rw [foreign_xor, unInternValue_own fits, found]
    refine ⟨⟨n, announced, arrived⟩, ba, sound.named, sound.known, sound.respects, sound.once,
      sound.room, ?_, sound.asserted⟩
    intro r hr
    rcases List.mem_append.1 hr with hr | hr
    · exact sound.resolved r hr
    · rw [List.mem_singleton.1 hr]
      exact read

end Steps

end InternRoot

/-- Two sides of one root. -/
abbrev InternPair (V : Type*) :=
  Duplex (InternRoot V) (InternRoot V) (InternMessage V) (InternMessage V)

namespace InternPair

variable {V : Type*}

def machine (equals : V → V → Bool) :
    Machine (InternPair V) (DuplexEvent (InternAct V) (InternAct V)) :=
  Duplex.machine (InternRoot.party equals) (InternRoot.party equals)

/-- Each root is bound once; a value is written when both have been bound, and when there is an
index for it. -/
def Ready (s : InternPair V) : DuplexEvent (InternAct V) (InternAct V) → Prop
  | .left .bind => s.left.isBound = false
  | .right .bind => s.right.isBound = false
  | .left (.write _) => s.right.isBound = true ∧ s.left.myItemsLis.length < 2 ^ 30
  | .right (.write _) => s.left.isBound = true ∧ s.right.myItemsLis.length < 2 ^ 30
  | _ => True

instance (s : InternPair V) (e : DuplexEvent (InternAct V) (InternAct V)) :
    Decidable (s.Ready e) := by
  rcases e with (_ | _) | (_ | _) | - | - <;> unfold Ready <;> infer_instance

structure Inv (equals : V → V → Bool) (s : InternPair V) : Prop where
  toRight : InternRoot.Toward equals s.left s.right s.toRight
  toLeft : InternRoot.Toward equals s.right s.left s.toLeft
  left : s.left.Sound equals
  right : s.right.Sound equals
  /-- Nothing has happened before both are bound. -/
  fresh : s.left.isBound = false ∨ s.right.isBound = false →
    s = ⟨{ isBound := s.left.isBound }, { isBound := s.right.isBound }, [], []⟩

variable {equals : V → V → Bool}

theorem inv_fresh (l r : Bool) : Inv equals ⟨{ isBound := l }, { isBound := r }, [], []⟩ where
  toRight := ⟨0, rfl, fun _ => rfl⟩
  toLeft := ⟨0, rfl, fun _ => rfl⟩
  left := ⟨nofun, nofun, fun _ _ _ => rfl, .nil, Nat.zero_le _, nofun, rfl⟩
  right := ⟨nofun, nofun, fun _ _ _ => rfl, .nil, Nat.zero_le _, nofun, rfl⟩
  fresh := fun _ => rfl

namespace Inv

variable {s : InternPair V}

/-- Once both roots are bound they stay so. -/
theorem ofBound (toRight : InternRoot.Toward equals s.left s.right s.toRight)
    (toLeft : InternRoot.Toward equals s.right s.left s.toLeft) (left : s.left.Sound equals)
    (right : s.right.Sound equals) (bound : s.left.isBound = true ∧ s.right.isBound = true) :
    s.Inv equals := by
  refine ⟨toRight, toLeft, left, right, fun unbound => ?_⟩
  rw [bound.1, bound.2] at unbound
  exact absurd unbound (by decide)

/-- A message is on its way only when both roots are bound. -/
theorem bound (h : s.Inv equals) (some : s.toRight ≠ [] ∨ s.toLeft ≠ []) :
    s.left.isBound = true ∧ s.right.isBound = true := by
  by_contra unbound
  rw [not_and_or, Bool.not_eq_true, Bool.not_eq_true] at unbound
  have start := h.fresh unbound
  rcases some with some | some
  · exact some (congrArg Duplex.toRight start)
  · exact some (congrArg Duplex.toLeft start)

theorem bindLeft (h : s.Inv equals) (unbound : s.left.isBound = false) :
    Inv equals { s with left := s.left.bind } := by
  have start := h.fresh (Or.inl unbound)
  rw [unbound] at start
  rw [start]
  exact inv_fresh true _

theorem bindRight (h : s.Inv equals) (unbound : s.right.isBound = false) :
    Inv equals { s with right := s.right.bind } := by
  have start := h.fresh (Or.inr unbound)
  rw [unbound] at start
  rw [start]
  exact inv_fresh _ true

end Inv

theorem inv_of_run (equiv : Equivalence fun v w => equals v w = true)
    {es : List (DuplexEvent (InternAct V) (InternAct V))} {s : InternPair V}
    (h : (machine equals).Run es s) (ready : (machine equals).Along es Ready) : s.Inv equals := by
  refine h.invariant_along (inv_fresh false false) (fun {s s' e} hi ready hs => ?_) ready
  cases Duplex.step_sound hs with
  | @left a _ _ acts =>
    cases a with
    | bind =>
      obtain ⟨rfl, rfl⟩ := Prod.ext_iff.1 (Option.some.inj acts)
      simpa using hi.bindLeft ready
    | write value =>
      obtain ⟨bound, e⟩ := Option.ite_none_right_eq_some.1 acts
      obtain ⟨rfl, rfl⟩ := Prod.ext_iff.1 (Option.some.inj e)
      obtain ⟨toRight, toLeft, left⟩ :=
        InternRoot.write_spec equiv hi.toRight hi.toLeft hi.left ready.2 value
      exact .ofBound toRight toLeft left hi.right
        ⟨(InternRoot.isBound_writeInterned equals _ value).trans bound, ready.1⟩
  | @right a _ _ acts =>
    cases a with
    | bind =>
      obtain ⟨rfl, rfl⟩ := Prod.ext_iff.1 (Option.some.inj acts)
      simpa using hi.bindRight ready
    | write value =>
      obtain ⟨bound, e⟩ := Option.ite_none_right_eq_some.1 acts
      obtain ⟨rfl, rfl⟩ := Prod.ext_iff.1 (Option.some.inj e)
      obtain ⟨toLeft, toRight, right⟩ :=
        InternRoot.write_spec equiv hi.toLeft hi.toRight hi.right ready.2 value
      exact .ofBound toRight toLeft hi.left right
        ⟨ready.1, (InternRoot.isBound_writeInterned equals _ value).trans bound⟩
  | @arriveRight m rest _ _ oldest receives =>
    obtain ⟨rfl, rfl⟩ := Prod.ext_iff.1 (Option.some.inj receives)
    obtain ⟨left, right⟩ := hi.bound (Or.inl (oldest ▸ List.cons_ne_nil m rest))
    obtain ⟨toRight, toLeft, sound⟩ := InternRoot.receive_spec equiv (oldest ▸ hi.toRight)
      hi.toLeft hi.right hi.left.room right
    exact .ofBound toRight (by simpa using toLeft) hi.left sound
      ⟨left, (InternRoot.isBound_receive equals _ m).trans right⟩
  | @arriveLeft m rest _ _ oldest receives =>
    obtain ⟨rfl, rfl⟩ := Prod.ext_iff.1 (Option.some.inj receives)
    obtain ⟨left, right⟩ := hi.bound (Or.inr (oldest ▸ List.cons_ne_nil m rest))
    obtain ⟨toLeft, toRight, sound⟩ := InternRoot.receive_spec equiv (oldest ▸ hi.toLeft)
      hi.toRight hi.left hi.right.room left
    exact .ofBound (by simpa using toRight) toLeft sound hi.right
      ⟨(InternRoot.isBound_receive equals _ m).trans left, right⟩

/-- Both sides intern one value at a time; afterwards each of them refers to it by the other's
index.  Values are equal here when they differ by a multiple of ten. -/
def sameValue : List (DuplexEvent (InternAct ℕ) (InternAct ℕ)) :=
  [.left .bind, .right .bind, .left (.write 7), .right (.write 17), .right (.write 8), .arriveRight,
    .arriveLeft, .left (.write 27), .right (.write 7), .arriveRight, .arriveRight, .arriveLeft,
    .arriveLeft, .arriveLeft, .arriveLeft, .left (.write 8), .arriveRight]

/-- A value that arrives before the root is bound is dropped, and the reference behind it is read as
nothing. -/
example : ((machine fun v w : ℕ => decide (v = w)).exec (machine fun v w => decide (v = w)).init
    [.left .bind, .left (.write 7), .arriveRight, .right .bind, .arriveRight]).map
      (fun s => s.right.resolved) = some [(none, 7)] := by
  decide +kernel

end InternPair

end CarpenterDemo.Rd
