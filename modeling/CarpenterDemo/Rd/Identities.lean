import Mathlib.Data.BitVec
import Mathlib.Data.List.Nodup
import Mathlib.Data.List.Range

/-!
# Ids of dynamic entities

Both sides of a protocol make ids for the entities that they create, without asking each other.  An
id is mixed from that of the parent and from a counter, which is even on one side and odd on the
other.  `id_eq_iff`: within 2 ^ 31 ids of each side, no two ids of one parent are the same.

`drawn` is an addition of the model.
-/

namespace CarpenterDemo.Rd

abbrev RdId := BitVec 64

/-- `mix`, with `getPlatformIndependentHash` of a number. -/
def RdId.mix (self : RdId) (tail : BitVec 64) : RdId := self * 31 + (tail + 1)

inductive IdKind
  | client
  | server
  deriving DecidableEq, Repr

def maxStaticId : BitVec 32 := 1000000

def IdKind.base : IdKind → BitVec 32
  | .client => maxStaticId
  | .server => maxStaticId + 1

structure Identities where
  idAcc : BitVec 32
  /-- How many ids have been made. -/
  drawn : ℕ := 0
  deriving DecidableEq, Repr

namespace Identities

def ofKind (dynamicKind : IdKind) : Identities := { idAcc := dynamicKind.base }

/-- The new id, and the counter after `fetch_add(2)`. -/
def next (self : Identities) (parent : RdId) : RdId × Identities :=
  (RdId.mix parent (self.idAcc.signExtend 64),
    { self with idAcc := self.idAcc + 2, drawn := self.drawn + 1 })

/-- The `n`-th id that a side makes, if it makes it for the given parent. -/
def id (kind : IdKind) (parent : RdId) (n : ℕ) : RdId :=
  RdId.mix parent ((kind.base + BitVec.ofNat 32 (2 * n)).signExtend 64)

theorem mix_inj (parent : RdId) {tail tail' : BitVec 64} :
    RdId.mix parent tail = RdId.mix parent tail' ↔ tail = tail' := by
  rw [RdId.mix, RdId.mix, BitVec.add_right_inj, BitVec.add_left_inj]

theorem signExtend_inj {x y : BitVec 32} : x.signExtend 64 = y.signExtend 64 ↔ x = y := by
  constructor
  · intro same
    have same := congrArg BitVec.toInt same
    rw [BitVec.toInt_signExtend_of_le (by decide),
      BitVec.toInt_signExtend_of_le (by decide)] at same
    exact BitVec.eq_of_toInt_eq same
  · exact congrArg _

/-- The counters of the two sides never meet, and neither comes back within 2 ^ 31 ids. -/
theorem id_eq_iff (parent : RdId) {kind kind' : IdKind} {n n' : ℕ} (few : n < 2 ^ 31)
    (few' : n' < 2 ^ 31) : id kind parent n = id kind' parent n' ↔ kind = kind' ∧ n = n' := by
  rw [id, id, mix_inj, signExtend_inj]
  constructor
  · intro same
    have same := congrArg BitVec.toNat same
    rw [BitVec.toNat_add, BitVec.toNat_add, BitVec.toNat_ofNat, BitVec.toNat_ofNat] at same
    cases kind <;> cases kind' <;> simp [IdKind.base, maxStaticId] at same ⊢ <;> omega
  · rintro ⟨rfl, rfl⟩
    rfl

/-- The counter after `drawn` ids. -/
def Counts (self : Identities) (kind : IdKind) : Prop :=
  self.idAcc = kind.base + BitVec.ofNat 32 (2 * self.drawn)

theorem counts_ofKind (kind : IdKind) : (ofKind kind).Counts kind := by
  simp [Counts, ofKind]

theorem Counts.next {self : Identities} {kind : IdKind} (h : self.Counts kind) (parent : RdId) :
    (self.next parent).1 = id kind parent self.drawn ∧ (self.next parent).2.Counts kind := by
  refine ⟨by rw [Identities.next, id, h], ?_⟩
  show self.idAcc + 2 = kind.base + BitVec.ofNat 32 (2 * (self.drawn + 1))
  rw [h, BitVec.add_assoc, Nat.mul_succ, BitVec.ofNat_add]
  rfl

theorem nodup_ids (kind : IdKind) (parent : RdId) {n : ℕ} (few : n ≤ 2 ^ 31) :
    ((List.range n).map (id kind parent)).Nodup := by
  refine List.Nodup.map_on (fun i hi j hj same => ?_) List.nodup_range
  have hi := List.mem_range.1 hi
  have hj := List.mem_range.1 hj
  exact ((id_eq_iff parent (by omega) (by omega)).1 same).2

end Identities

end CarpenterDemo.Rd
