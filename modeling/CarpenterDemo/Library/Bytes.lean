import Mathlib.Data.BitVec
import Mathlib.Tactic.Common

/-!
# Little-endian bytes

The bytes of a word of `n` bytes, least significant first (`toBytes`), and back (`ofBytes`).
`chunks` cuts the bytes of an array into its elements.
-/

namespace Bytes

def toBytes : ℕ → ℕ → List UInt8
  | 0, _ => []
  | n + 1, v => UInt8.ofNat v :: toBytes n (v / 256)

def ofBytes : List UInt8 → ℕ
  | [] => 0
  | b :: bs => b.toNat + 256 * ofBytes bs

@[simp] theorem length_toBytes (n v : ℕ) : (toBytes n v).length = n := by
  induction n generalizing v with
  | zero => rfl
  | succ n ih => rw [toBytes, List.length_cons, ih]

theorem ofBytes_toBytes {n v : ℕ} (h : v < 256 ^ n) : ofBytes (toBytes n v) = v := by
  induction n generalizing v with
  | zero => exact (Nat.lt_one_iff.1 h).symm
  | succ n ih =>
    have high : v / 256 < 256 ^ n := by
      rw [Nat.pow_succ] at h
      omega
    rw [toBytes, ofBytes, ih high, UInt8.toNat_ofNat']
    omega

/-! ## Words -/

variable {n : ℕ}

/-- The bytes of a word. -/
def ofWord (x : BitVec (8 * n)) : List UInt8 := toBytes n x.toNat

def toWord (n : ℕ) (bytes : List UInt8) : BitVec (8 * n) := BitVec.ofNat (8 * n) (ofBytes bytes)

@[simp] theorem length_ofWord (x : BitVec (8 * n)) : (ofWord x).length = n := length_toBytes n _

@[simp] theorem toWord_ofWord (x : BitVec (8 * n)) : toWord n (ofWord x) = x := by
  have bound : x.toNat < 256 ^ n := by
    rw [show 256 = 2 ^ 8 from rfl, ← Nat.pow_mul]
    exact x.isLt
  rw [toWord, ofWord, ofBytes_toBytes bound, BitVec.ofNat_toNat, BitVec.setWidth_eq]

/-! ## Arrays of words -/

/-- The first `count` elements of `n` bytes each. -/
def chunks (n : ℕ) : ℕ → List UInt8 → List (BitVec (8 * n))
  | 0, _ => []
  | count + 1, bytes => toWord n (bytes.take n) :: chunks n count (bytes.drop n)

theorem chunks_flatMap (xs : List (BitVec (8 * n))) :
    chunks n xs.length (xs.flatMap ofWord) = xs := by
  induction xs with
  | nil => rfl
  | cons x xs ih =>
    rw [List.length_cons, List.flatMap_cons, chunks, List.take_left' (length_ofWord x),
      List.drop_left' (length_ofWord x), toWord_ofWord, ih]

theorem length_flatMap_ofWord (xs : List (BitVec (8 * n))) :
    (xs.flatMap ofWord).length = n * xs.length := by
  induction xs with
  | nil => rfl
  | cons x xs ih =>
    rw [List.flatMap_cons, List.length_append, ih, length_ofWord, List.length_cons, Nat.mul_succ,
      Nat.add_comm]

end Bytes
