import Mathlib.Data.List.Nodup
import Mathlib.Tactic.Common

/-!
# Maps in insertion order

A finite map that keeps its entries in the order in which their keys were first inserted, with no
key twice.  Setting a present key replaces its value in place, erasing a key closes the gap, and
`emplace` leaves a present key alone.  `get?_eq_some_iff` relates lookups to the entries; the `get?`
lemmas below it say what each operation does to each key.
-/

structure OrderedMap (K V : Type*) where
  entries : List (K × V)
  nodup : (entries.map Prod.fst).Nodup
  deriving DecidableEq, Repr

namespace OrderedMap

variable {K V : Type*}

@[ext]
theorem ext {m n : OrderedMap K V} (h : m.entries = n.entries) : m = n := by
  cases m
  cases n
  congr

def empty : OrderedMap K V := ⟨[], List.nodup_nil⟩

def keys (m : OrderedMap K V) : List K := m.entries.map Prod.fst

variable [DecidableEq K] (m : OrderedMap K V)

def get? (k : K) : Option V := (m.entries.find? fun e => decide (e.1 = k)).map Prod.snd

def contains (k : K) : Bool := (m.get? k).isSome

theorem get?_eq_some_iff {k : K} {v : V} : m.get? k = some v ↔ (k, v) ∈ m.entries := by
  rw [get?, Option.map_eq_some_iff]
  constructor
  · rintro ⟨⟨k', v'⟩, found, rfl⟩
    obtain rfl : k' = k := by simpa using List.find?_some found
    exact List.mem_of_find?_eq_some found
  · intro h
    cases found : m.entries.find? fun e => decide (e.1 = k) with
    | none =>
      have absent := List.find?_eq_none.1 found (k, v) h
      simp at absent
    | some e =>
      have key : e.1 = k := by simpa using List.find?_some found
      have mem : e ∈ m.entries := List.mem_of_find?_eq_some found
      refine ⟨e, rfl, ?_⟩
      rw [List.inj_on_of_nodup_map m.nodup mem h key]

theorem get?_eq_none_iff {k : K} : m.get? k = none ↔ k ∉ m.keys := by
  rw [Option.eq_none_iff_forall_ne_some]
  simp only [ne_eq, get?_eq_some_iff, keys, List.mem_map, not_exists, not_and]
  constructor
  · rintro h ⟨k', v⟩ mem rfl
    exact h v mem
  · intro h v mem
    exact h (k, v) mem rfl

/-! ## Operations -/

/-- Replaces the value in place, or appends a new entry. -/
def set (k : K) (v : V) : OrderedMap K V :=
  if h : k ∈ m.keys then
    { entries := m.entries.map fun e => if e.1 = k then (e.1, v) else e
      nodup := by
        rw [List.map_map, List.map_congr_left (g := Prod.fst) fun e _ => by
          simp only [Function.comp_apply]; split_ifs <;> rfl]
        exact m.nodup }
  else
    { entries := m.entries ++ [(k, v)]
      nodup := by
        rw [List.map_append]
        refine List.nodup_append.2 ⟨m.nodup, List.nodup_singleton k, ?_⟩
        rintro a ha b hb rfl
        obtain rfl : a = k := List.mem_singleton.1 hb
        exact h ha }

/-- Appends a new entry; a present key keeps its value. -/
def emplace (k : K) (v : V) : OrderedMap K V := if k ∈ m.keys then m else m.set k v

def erase (k : K) : OrderedMap K V where
  entries := m.entries.filter fun e => decide (e.1 ≠ k)
  nodup := m.nodup.sublist (List.filter_sublist.map Prod.fst)

/-- Replaces every value. -/
def mapValues {K V : Type*} (f : K → V → V) (m : OrderedMap K V) : OrderedMap K V where
  entries := m.entries.map fun e => (e.1, f e.1 e.2)
  nodup := by
    rw [List.map_map]
    exact m.nodup

theorem mem_entries_set {k k' : K} {v v' : V} :
    (k', v') ∈ (m.set k v).entries ↔ (k' = k ∧ v' = v) ∨ (k' ≠ k ∧ (k', v') ∈ m.entries) := by
  unfold set
  split_ifs with h
  · simp only [List.mem_map]
    constructor
    · rintro ⟨⟨a, b⟩, mem, e⟩
      by_cases ha : a = k
      · rw [if_pos ha] at e
        cases e
        exact Or.inl ⟨ha, rfl⟩
      · rw [if_neg ha] at e
        cases e
        exact Or.inr ⟨ha, mem⟩
    · rintro (⟨rfl, rfl⟩ | ⟨other, mem⟩)
      · obtain ⟨e, mem, rfl⟩ := List.mem_map.1 h
        exact ⟨e, mem, if_pos rfl⟩
      · exact ⟨(k', v'), mem, if_neg other⟩
  · rw [List.mem_append, List.mem_singleton, Prod.mk.injEq]
    constructor
    · rintro (mem | same)
      · refine Or.inr ⟨?_, mem⟩
        rintro rfl
        exact h (List.mem_map_of_mem mem)
      · exact Or.inl same
    · rintro (same | ⟨-, mem⟩)
      · exact Or.inr same
      · exact Or.inl mem

@[simp] theorem get?_set_self (k : K) (v : V) : (m.set k v).get? k = some v := by
  rw [get?_eq_some_iff, mem_entries_set]
  exact Or.inl ⟨rfl, rfl⟩

theorem get?_set_of_ne {k k' : K} (h : k' ≠ k) (v : V) : (m.set k v).get? k' = m.get? k' := by
  apply Option.ext
  intro v'
  rw [get?_eq_some_iff, get?_eq_some_iff, mem_entries_set]
  simp [h]

@[simp] theorem get?_erase_self (k : K) : (m.erase k).get? k = none := by
  rw [get?_eq_none_iff, erase, keys]
  simp

theorem get?_erase_of_ne {k k' : K} (h : k' ≠ k) : (m.erase k).get? k' = m.get? k' := by
  apply Option.ext
  intro v'
  rw [get?_eq_some_iff, get?_eq_some_iff, erase, List.mem_filter]
  simp [h]

theorem get?_emplace_of_none {k : K} (v : V) (h : m.get? k = none) :
    (m.emplace k v).get? k = some v := by
  rw [emplace, if_neg (m.get?_eq_none_iff.1 h), get?_set_self]

theorem get?_emplace_of_ne {k k' : K} (h : k' ≠ k) (v : V) :
    (m.emplace k v).get? k' = m.get? k' := by
  unfold emplace
  split_ifs
  · rfl
  · exact m.get?_set_of_ne h v

theorem mapValues_eq_self {f : K → V → V} (same : ∀ k v, m.get? k = some v → f k v = v) :
    m.mapValues f = m := by
  apply ext
  refine (List.map_congr_left fun e he => ?_).trans (List.map_id _)
  rw [same e.1 e.2 (m.get?_eq_some_iff.2 he), id]

end OrderedMap
