import Mathlib.Data.List.Basic
import Mathlib.Data.List.Forall2

/-!
# Channels that lose and repeat

What comes out of a channel that keeps the order, loses some of what went in and repeats some of it, each item so many times at
most.
-/

namespace FaultyChannel

variable {α : Type*} {k k' : Nat} {l l' m m' : List α} {a : α}

/-- `m` is `l` with each item, in its place, left out or repeated, `k` times at most. -/
inductive Copies (k : Nat) : List α → List α → Prop where
  | nil : Copies k [] []
  | cons {l m : List α} (a : α) (n : Nat) : n ≤ k → Copies k l m → Copies k (a :: l) (List.replicate n a ++ m)

theorem Copies.append (h : Copies k l m) (h' : Copies k l' m') : Copies k (l ++ l') (m ++ m') := by
  induction h with
  | nil => exact h'
  | cons a n hn _ ih =>
    rw [List.cons_append, List.append_assoc]
    exact Copies.cons a n hn ih

/-- One more item goes in, and comes out so many times. -/
theorem Copies.concat (h : Copies k l m) (a : α) {n : Nat} (hn : n ≤ k) : Copies k (l ++ [a]) (m ++ List.replicate n a) := by
  have hone := Copies.cons a n hn (Copies.nil (k := k))
  rw [List.append_nil] at hone
  exact h.append hone

/-- More may be lost. -/
theorem Copies.of_sublist (h : Copies k l m) (hsub : m'.Sublist m) : Copies k l m' := by
  induction h generalizing m' with
  | nil =>
    rw [List.sublist_nil.1 hsub]
    exact Copies.nil
  | cons a n hn _ ih =>
    obtain ⟨m₁, m₂, rfl, h₁, h₂⟩ := List.sublist_append_iff.1 hsub
    obtain ⟨n', hn', rfl⟩ := List.sublist_replicate_iff.1 h₁
    exact Copies.cons a n' (Nat.le_trans hn' hn) (ih h₂)

end FaultyChannel
