import NetworkLayers.Lib.Transition
import Mathlib.Algebra.Order.Group.Nat
import Mathlib.Data.List.Infix
import Mathlib.Data.Nat.ModEq

/-!
# Bounded queues

A queue of a number of places, first in first out, as what it is for: what has gone in, what has come out of it, in order, and room
for so many in between. Beside it the places of a ring, and the threads of a list of which one takes a step.
-/

/-- What has gone into a queue of `n` places and what has come out of it. -/
structure Fifo (n : Nat) (α : Type*) where
  inserted : List α
  removed : List α
  removed_prefix : removed <+: inserted
  length_le : inserted.length ≤ removed.length + n

/-- What can happen to a queue. -/
inductive FifoOp (α : Type*) where
  | insert (a : α)
  | remove

namespace Fifo

variable {n : Nat} {α : Type*} {q : Fifo n α} {a : α}

/-- The queue at the start. -/
def empty : Fifo n α where
  inserted := []
  removed := []
  removed_prefix := List.prefix_refl []
  length_le := Nat.zero_le _

/-- Something goes in while there is room. -/
def insert (q : Fifo n α) (a : α) (h : q.inserted.length < q.removed.length + n) : Fifo n α where
  inserted := q.inserted ++ [a]
  removed := q.removed
  removed_prefix := q.removed_prefix.trans (List.prefix_append _ _)
  length_le := by
    rw [List.length_append]
    exact h

/-- The first of what is left comes out. -/
def remove (q : Fifo n α) (h : q.removed.length < q.inserted.length) : Fifo n α where
  inserted := q.inserted
  removed := q.removed ++ [q.inserted[q.removed.length]]
  removed_prefix := by
    obtain ⟨rest, heq⟩ := q.removed_prefix
    cases rest with
    | nil =>
      rw [← heq, List.append_nil] at h
      exact absurd h (lt_irrefl _)
    | cons b rest => exact ⟨rest, by simp [← heq]⟩
  length_le := by
    rw [List.length_append]
    exact q.length_le.trans (by omega)

/-- A full queue takes nothing, an empty one gives nothing. -/
def step (q : Fifo n α) : FifoOp α → Option (Fifo n α)
  | .insert a => if h : q.inserted.length < q.removed.length + n then some (q.insert a h) else none
  | .remove => if h : q.removed.length < q.inserted.length then some (q.remove h) else none

theorem step_insert (h : q.inserted.length < q.removed.length + n) : q.step (.insert a) = some (q.insert a h) :=
  dif_pos h

theorem step_remove (h : q.removed.length < q.inserted.length) : q.step .remove = some (q.remove h) :=
  dif_pos h

/-! ## A ring and the threads around it -/

/-- Two numbers less than a round of the ring apart are in different places of it. -/
theorem mod_ne_mod_of_lt {j k : Nat} (hlt : j < k) (hround : k < j + n) : j % n ≠ k % n := by
  intro heq
  have hdvd : n ∣ k - j := (Nat.modEq_iff_dvd' hlt.le).1 heq
  have := Nat.le_of_dvd (Nat.sub_pos_of_lt hlt) hdvd
  omega

/-- The place after the place of a number is the place of the next. -/
theorem mod_succ_mod (k : Nat) : (k % n + 1) % n = (k + 1) % n := Nat.mod_add_mod k n 1

/-- How many threads there are of a kind, after one of them took a step. -/
theorem countP_set_add {β : Type*} {l : List β} {i : Nat} {b b' : β} (p : β → Bool) (h : l[i]? = some b) :
    (l.set i b').countP p + (if p b then 1 else 0) = l.countP p + (if p b' then 1 else 0) := by
  induction l generalizing i with
  | nil => cases h
  | cons c l ih =>
    cases i with
    | zero =>
      obtain rfl : c = b := Option.some.inj h
      simp only [List.set_cons_zero, List.countP_cons]
      omega
    | succ i =>
      simp only [List.set_cons_succ, List.countP_cons]
      have := ih h
      omega

/-- What holds of each thread of a list after one of them took a step. -/
theorem forall_set {β : Type*} {l : List β} {i : Nat} {b' : β} {P : Nat → β → Prop} (hself : P i b')
    (hother : ∀ j b, j ≠ i → l[j]? = some b → P j b) : ∀ j b, (l.set i b')[j]? = some b → P j b := by
  intro j b hj
  by_cases hij : j = i
  · subst hij
    obtain ⟨_, rfl⟩ : j < l.length ∧ b' = b := by simpa [List.getElem?_set] using hj
    exact hself
  · rw [List.getElem?_set_ne (Ne.symm hij)] at hj
    exact hother j b hij hj

/-- What holds of each thread of a list after one more has started. -/
theorem forall_concat {β : Type*} {l : List β} {b' : β} {P : Nat → β → Prop} (hold : ∀ j b, l[j]? = some b → P j b)
    (hlast : P l.length b') : ∀ j b, (l ++ [b'])[j]? = some b → P j b := by
  intro j b hj
  rcases Nat.lt_trichotomy j l.length with hlt | rfl | hgt
  · rw [List.getElem?_append_left hlt] at hj
    exact hold j b hj
  · obtain rfl : b' = b := by simpa using hj
    exact hlast
  · rw [List.getElem?_eq_none (by rw [List.length_append]; exact hgt)] at hj
    cases hj

end Fifo
