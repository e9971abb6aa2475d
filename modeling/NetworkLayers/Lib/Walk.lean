import Mathlib.Data.Nat.Basic

/-!
# Walks to a destination

`Within adj d k n` says that `d` is at most `k` steps of a relation away from `n`. Where every point names a next one and a cost
that the next one undercuts, following the next points comes to the destination, and in no more steps than the cost says.
-/

namespace Walk

variable {V : Type*} {adj adj' next : V → V → Prop} {d m n : V} {k k' : Nat}

/-- The destination `d` is at most `k` steps away from a point. -/
inductive Within (adj : V → V → Prop) (d : V) : Nat → V → Prop where
  | here (k : Nat) : Within adj d k d
  | step {k : Nat} {n m : V} : adj n m → Within adj d k m → Within adj d (k + 1) n

theorem Within.mono (h : Within adj d k n) (hle : k ≤ k') : Within adj d k' n := by
  induction h generalizing k' with
  | here k => exact Within.here k'
  | step hnm _ ih =>
    obtain ⟨j, rfl⟩ : ∃ j, k' = j + 1 := ⟨k' - 1, by omega⟩
    exact Within.step hnm (ih (by omega))

/-- Following `next` from a point comes to `d` after `k` steps, and not before. -/
inductive Follows (next : V → V → Prop) (d : V) : Nat → V → Prop where
  | here : Follows next d 0 d
  | step {k : Nat} {n m : V} : n ≠ d → next n m → Follows next d k m → Follows next d (k + 1) n

/-- Where every point that has a cost leads to the destination or to a point of a smaller cost, following the points comes to the
destination in no more steps than the cost. -/
theorem follows_of_decreasing (cost : V → Nat)
    (h : ∀ n, n ≠ d → cost n ≠ 0 → ∃ m, next n m ∧ (m = d ∨ cost m ≠ 0 ∧ cost m < cost n)) (hn : cost n ≠ 0) :
    ∃ k ≤ cost n, Follows next d k n := by
  induction hc : cost n using Nat.strong_induction_on generalizing n with
  | _ c ih =>
    by_cases hnd : n = d
    · rw [hnd]
      exact ⟨0, Nat.zero_le _, Follows.here⟩
    · obtain ⟨m, hnm, hm⟩ := h n hnd hn
      rcases hm with rfl | ⟨hm0, hlt⟩
      · exact ⟨1, by omega, Follows.step hnd hnm Follows.here⟩
      · obtain ⟨k, hk, hf⟩ := ih (cost m) (hc ▸ hlt) hm0 rfl
        exact ⟨k + 1, by omega, Follows.step hnd hnm hf⟩

end Walk
