import Mathlib.Data.List.Basic
import Mathlib.Tactic.Common

/-!
# A cell with acknowledged changes

Two parties keep copies of one cell.  The owner numbers its changes, waits for the acknowledgement
of each before the next, and turns down every change of the other party that arrives meanwhile.  The
other party takes over every change of the owner and acknowledges it.

`Inv` is what holds in between: every step keeps it, and every acknowledgement finds the change it
is for (`Inv.acked`).  Once nothing is on its way, the two copies are equal
(`Inv.agree_of_settled`).
-/

/-- What the other party sends. -/
inductive Reply (ν α : Type*)
  | change (a : α)
  | ack (version : ν)
  deriving DecidableEq, Repr

structure AckedCell (ν α : Type*) where
  own : α
  /-- The version of the owner's change that has not been acknowledged. -/
  pending : Option ν
  other : α
  toOther : List (ν × α)
  toOwner : List (Reply ν α)

namespace AckedCell

variable {ν α : Type*} {c : AckedCell ν α}

/-- Either the owner waits for nothing and will end up with the other party's value; or its change
has not arrived; or it has been acknowledged, and what the other party has changed since then comes
after the acknowledgement. -/
inductive Inv (c : AckedCell ν α) : Prop
  | free (changes : List α) (pending : c.pending = none) (sent : c.toOther = [])
      (replies : c.toOwner = changes.map .change) (agree : changes.getLastD c.own = c.other)
  | sent (n : ν) (changes : List α) (pending : c.pending = some n)
      (sent : c.toOther = [(n, c.own)]) (replies : c.toOwner = changes.map .change)
  | answered (n : ν) (before after : List α) (pending : c.pending = some n) (sent : c.toOther = [])
      (replies : c.toOwner = before.map .change ++ .ack n :: after.map .change)
      (agree : after.getLastD c.own = c.other)

namespace Inv

theorem ownerChanges (h : c.Inv) (n : ν) (a : α) (free : c.pending = none) :
    Inv { c with own := a, pending := some n, toOther := c.toOther ++ [(n, a)] } := by
  cases h with
  | free changes pending sent replies agree =>
    exact .sent n changes rfl (by simp [sent]) replies
  | sent m _ pending => exact absurd (free.symm.trans pending) (Option.some_ne_none m).symm
  | answered m _ _ pending => exact absurd (free.symm.trans pending) (Option.some_ne_none m).symm

theorem otherChanges (h : c.Inv) (a : α) :
    Inv { c with other := a, toOwner := c.toOwner ++ [.change a] } := by
  cases h with
  | free changes pending sent replies agree =>
    exact .free (changes ++ [a]) pending sent (by simp [replies]) List.getLastD_concat
  | sent n changes pending sent replies =>
    exact .sent n (changes ++ [a]) pending sent (by simp [replies])
  | answered n before after pending sent replies agree =>
    exact .answered n before (after ++ [a]) pending sent (by simp [replies]) List.getLastD_concat

/-- The change that arrives is the owner's current value. -/
theorem reachesOther (h : c.Inv) {n : ν} {a : α} {rest : List (ν × α)}
    (oldest : c.toOther = (n, a) :: rest) :
    Inv { c with other := a, toOther := rest, toOwner := c.toOwner ++ [.ack n] } := by
  cases h with
  | free _ _ sent => exact absurd (sent.symm.trans oldest) (List.cons_ne_nil _ _).symm
  | sent m changes pending sent replies =>
    obtain ⟨e, rfl⟩ := List.cons.inj (sent.symm.trans oldest)
    cases e
    exact .answered n changes [] pending rfl (by simp [replies]) rfl
  | answered _ _ _ _ sent => exact absurd (sent.symm.trans oldest) (List.cons_ne_nil _ _).symm

theorem accepted (h : c.Inv) {a : α} {rest : List (Reply ν α)}
    (oldest : c.toOwner = .change a :: rest) (free : c.pending = none) :
    Inv { c with own := a, toOwner := rest } := by
  cases h with
  | free changes pending sent replies agree =>
    cases changes with
    | nil => exact absurd (replies.symm.trans oldest) (List.cons_ne_nil _ _).symm
    | cons b changes =>
      obtain ⟨e, rfl⟩ := List.cons.inj (replies.symm.trans oldest)
      cases e
      exact .free changes pending sent rfl (by rwa [List.getLastD_cons] at agree)
  | sent m _ pending => exact absurd (free.symm.trans pending) (Option.some_ne_none m).symm
  | answered m _ _ pending => exact absurd (free.symm.trans pending) (Option.some_ne_none m).symm

theorem rejected (h : c.Inv) {a : α} {rest : List (Reply ν α)}
    (oldest : c.toOwner = .change a :: rest) (waiting : c.pending ≠ none) :
    Inv { c with toOwner := rest } := by
  cases h with
  | free _ pending => exact absurd pending waiting
  | sent n changes pending sent replies =>
    cases changes with
    | nil => exact absurd (replies.symm.trans oldest) (List.cons_ne_nil _ _).symm
    | cons b changes =>
      exact .sent n changes pending sent (List.cons.inj (replies.symm.trans oldest)).2.symm
  | answered n before after pending sent replies agree =>
    cases before with
    | nil => cases (List.cons.inj (replies.symm.trans oldest)).1
    | cons b before =>
      exact .answered n before after pending sent (List.cons.inj (replies.symm.trans oldest)).2.symm
        agree

theorem acked (h : c.Inv) {n : ν} {rest : List (Reply ν α)} (oldest : c.toOwner = .ack n :: rest) :
    c.pending = some n ∧ Inv { c with pending := none, toOwner := rest } := by
  cases h with
  | free changes pending sent replies agree =>
    have mem : Reply.ack n ∈ changes.map Reply.change := by
      rw [← replies, oldest]
      exact List.mem_cons_self
    simp at mem
  | sent m changes pending sent replies =>
    have mem : Reply.ack n ∈ changes.map Reply.change := by
      rw [← replies, oldest]
      exact List.mem_cons_self
    simp at mem
  | answered m before after pending sent replies agree =>
    cases before with
    | nil =>
      obtain ⟨e, rfl⟩ := List.cons.inj (replies.symm.trans oldest)
      cases e
      exact ⟨pending, .free after rfl sent rfl agree⟩
    | cons b before => cases (List.cons.inj (replies.symm.trans oldest)).1

theorem agree_of_settled (h : c.Inv) (sent : c.toOther = []) (replied : c.toOwner = []) :
    c.own = c.other ∧ c.pending = none := by
  cases h with
  | free changes pending _ replies agree =>
    obtain rfl : changes = [] := List.map_eq_nil_iff.1 (replies.symm.trans replied)
    exact ⟨agree, pending⟩
  | sent _ _ _ sent' => exact absurd (sent'.symm.trans sent) (List.cons_ne_nil _ _)
  | answered _ _ _ _ _ replies => simp [replied] at replies

end Inv

end AckedCell
