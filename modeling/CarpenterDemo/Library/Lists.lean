import Mathlib.Data.List.Basic
import Mathlib.Data.List.Count

/-! Facts about lists. -/

namespace Lists

/-- A list whose only elements are two different ones, each once, has them in one order or the
other. -/
theorem eq_pair_or_eq_pair {α : Type*} [DecidableEq α] {l : List α} {a b : α} (different : a ≠ b)
    (only : ∀ x ∈ l, x = a ∨ x = b) (ha : l.count a = 1) (hb : l.count b = 1) :
    l = [a, b] ∨ l = [b, a] := by
  have perm : l.Perm [a, b] := by
    rw [List.perm_iff_count]
    intro x
    by_cases hx : x ∈ l
    · rcases only x hx with rfl | rfl
      · simp [ha, Ne.symm different]
      · simp [hb, different]
    · have xa : a ≠ x := fun e => hx (e ▸ List.count_pos_iff.1 (by omega))
      have xb : b ≠ x := fun e => hx (e ▸ List.count_pos_iff.1 (by omega))
      simp [List.count_eq_zero.2 hx, xa, xb]
  obtain ⟨x, y, rfl⟩ := List.length_eq_two.1 perm.length_eq
  have hx := only x List.mem_cons_self
  have hy := only y (by simp)
  rcases hx with rfl | rfl <;> rcases hy with rfl | rfl
  · simp at ha
  · exact Or.inl rfl
  · exact Or.inr rfl
  · simp at hb

/-- Replacing `l` by `l'` in two steps, appending what `l` is too short for and then dropping from
the front what `l'` is too short for, gives `l'` just when `l'` extends `l` or is an end of it. -/
theorem append_drop_drop_eq_iff {α : Type*} (l l' : List α) :
    (l ++ l'.drop l.length).drop (l.length - l'.length) = l' ↔ l <+: l' ∨ l' <:+ l := by
  rcases Nat.le_total l.length l'.length with longer | shorter
  · rw [Nat.sub_eq_zero_of_le longer, List.drop_zero, ← List.prefix_iff_eq_append]
    refine ⟨Or.inl, ?_⟩
    rintro (h | h)
    · exact h
    · exact h.eq_of_length_le longer ▸ List.prefix_refl l'
  · rw [List.drop_eq_nil_of_le shorter, List.append_nil, eq_comm, ← List.suffix_iff_eq_drop]
    refine ⟨Or.inr, ?_⟩
    rintro (h | h)
    · exact h.eq_of_length_le shorter ▸ List.suffix_refl l
    · exact h

/-- A list without repetitions splits into a part of it and the rest. -/
theorem length_filter_notMem_add {α : Type*} [DecidableEq α] {l part : List α} (hl : l.Nodup)
    (hpart : part.Nodup) (subset : part ⊆ l) :
    (l.filter fun a => a ∉ part).length + part.length = l.length := by
  have perm : (l.filter fun a => a ∈ part).Perm part := by
    refine (List.perm_ext_iff_of_nodup (hl.filter _) hpart).2 fun a => ?_
    simp only [List.mem_filter, decide_eq_true_eq, and_iff_right_iff_imp]
    exact fun ha => subset ha
  have split := l.length_eq_length_filter_add fun a => decide (a ∈ part)
  rw [perm.length_eq] at split
  simp only [decide_not]
  omega

/-- Two events happen in this order in a list that grows at its end. -/
theorem pair_sublist_snoc_iff {α : Type*} (a b e : α) (es : List α) :
    [a, b].Sublist (es ++ [e]) ↔ [a, b].Sublist es ∨ a ∈ es ∧ e = b := by
  constructor
  · intro h
    obtain ⟨l, l', split, hl, hl'⟩ := List.sublist_append_iff.1 h
    rcases List.sublist_singleton.1 hl' with rfl | rfl
    · rw [split, List.append_nil]
      exact Or.inl hl
    · have split : [a] ++ [b] = l ++ [e] := split
      obtain ⟨rfl, last⟩ := List.append_inj' split rfl
      exact Or.inr ⟨List.singleton_sublist.1 hl, (List.singleton_inj.1 last).symm⟩
  · rintro (h | ⟨h, rfl⟩)
    · exact h.trans (List.sublist_append_left es [e])
    · exact (List.singleton_sublist.2 h).append (List.Sublist.refl [e])

/-- A beginning of two lists in a row is a proper beginning of the first, or the whole first and a
beginning of the second. -/
theorem prefix_append_cases {α : Type*} {l a b : List α} (h : l <+: a ++ b) :
    (l <+: a ∧ l ≠ a) ∨ ∃ q, l = a ++ q ∧ q <+: b := by
  by_cases cut : l <+: a ∧ l ≠ a
  · exact Or.inl cut
  · right
    have whole : a <+: l := by
      rcases List.prefix_or_prefix_of_prefix h (List.prefix_append a b) with before | after
      · by_contra longer
        exact cut ⟨before, fun same => longer (same ▸ List.prefix_refl l)⟩
      · exact after
    obtain ⟨q, rfl⟩ := whole
    exact ⟨q, rfl, (List.prefix_append_right_inj a).1 h⟩

theorem length_lt_of_prefix {α : Type*} {l l' : List α} (h : l <+: l') (proper : l ≠ l') :
    l.length < l'.length :=
  Nat.lt_of_le_of_ne h.length_le fun same => proper (h.eq_of_length same)

theorem getElem?_append_of_some {α : Type*} {l : List α} {n : ℕ} {a : α} (h : l[n]? = some a)
    (l' : List α) : (l ++ l')[n]? = some a := by
  rw [List.getElem?_append_left (List.getElem?_eq_some_iff.1 h).1, h]

theorem getElem?_concat_cases {α : Type*} {l : List α} {a b : α} {n : ℕ}
    (h : (l ++ [a])[n]? = some b) : l[n]? = some b ∨ n = l.length ∧ b = a := by
  obtain before | rfl | after := Nat.lt_trichotomy n l.length
  · rw [List.getElem?_append_left before] at h
    exact Or.inl h
  · rw [List.getElem?_concat_length] at h
    exact Or.inr ⟨rfl, (Option.some.inj h).symm⟩
  · have beyond : (l ++ [a]).length ≤ n := by rwa [List.length_append]
    rw [List.getElem?_eq_none_iff.2 beyond] at h
    cases h

theorem map_modify_of_eq {α β : Type*} {f : α → β} {g : α → α} (same : ∀ a, f (g a) = f a)
    (l : List α) (n : ℕ) : (l.modify n g).map f = l.map f := by
  induction l generalizing n with
  | nil => simp
  | cons a l ih =>
    cases n with
    | zero => simp [same]
    | succ n => simp [ih]

/-- What changes about the parts of a list when one of its elements does. -/
theorem flatMap_modify_perm {α β : Type*} (f : α → List β) (g : α → α) {l : List α} {n : ℕ} {a : α}
    (h : l[n]? = some a) : ((l.modify n g).flatMap f ++ f a).Perm (l.flatMap f ++ f (g a)) := by
  induction l generalizing n with
  | nil => cases h
  | cons b l ih =>
    cases n with
    | zero =>
      obtain rfl : b = a := Option.some.inj h
      rw [List.modify_zero_cons, List.flatMap_cons, List.flatMap_cons, List.append_assoc (f b)]
      exact List.perm_append_comm.trans (List.perm_append_comm.append_left (f b))
    | succ n =>
      rw [List.modify_succ_cons, List.flatMap_cons, List.flatMap_cons, List.append_assoc,
        List.append_assoc]
      exact (ih h).append_left (f b)

theorem flatMap_modify_sublist {α β : Type*} (f : α → List β) {g : α → α}
    (fewer : ∀ a, (f (g a)).Sublist (f a)) (l : List α) (n : ℕ) :
    ((l.modify n g).flatMap f).Sublist (l.flatMap f) := by
  induction l generalizing n with
  | nil => simp
  | cons a l ih =>
    cases n with
    | zero => exact (fewer a).append (List.Sublist.refl _)
    | succ n => exact (List.Sublist.refl _).append (ih n)

/-- Dropping elements that contribute nothing. -/
theorem flatMap_filter_eq {α β : Type*} (f : α → List β) (p : α → Bool) {l : List α}
    (nothing : ∀ a ∈ l, p a = false → f a = []) : (l.filter p).flatMap f = l.flatMap f := by
  induction l with
  | nil => rfl
  | cons a l ih =>
    have ih := ih fun b hb => nothing b (List.mem_cons_of_mem a hb)
    by_cases kept : p a = true
    · rw [List.filter_cons_of_pos kept, List.flatMap_cons, List.flatMap_cons, ih]
    · have empty := nothing a List.mem_cons_self (eq_false_of_ne_true kept)
      rw [List.filter_cons_of_neg kept, List.flatMap_cons, empty, ih, List.nil_append]

end Lists
