import NetworkLayers.Lib.Walk
import Mathlib.Order.Bounds.Basic
import Mathlib.Order.Filter.AtTopBot.Basic
import Mathlib.Order.Filter.Finite

/-!
# Costs that spread along edges

Points that keep a cost of reaching a destination, 0 while they know none, and never a worse one than before. Where the destination
and its neighbours come to a cost of 1, and every point hears again and again what its neighbours can do, the costs come down to
the distances and stay there.
-/

namespace DistanceVector

open Walk

variable {V : Type*} {adj : V → V → Prop} {cost : Nat → V → Nat} {d n : V} {c c' k t t' : Nat}

/-- A cost that is known stays known, and does not go up. -/
def Improving (cost : Nat → V → Nat) : Prop := ∀ t n, cost t n ≠ 0 → cost (t + 1) n ≠ 0 ∧ cost (t + 1) n ≤ cost t n

/-- At a time a point knows a cost of at most `c`. -/
def Knows (cost : Nat → V → Nat) (t : Nat) (n : V) (c : Nat) : Prop := cost t n ≠ 0 ∧ cost t n ≤ c

theorem Knows.mono (h : Knows cost t n c) (hle : c ≤ c') : Knows cost t n c' := ⟨h.1, h.2.trans hle⟩

theorem Knows.later (himp : Improving cost) (h : Knows cost t n c) (hle : t ≤ t') : Knows cost t' n c := by
  induction t', hle using Nat.le_induction with
  | base => exact h
  | succ t' _ ih =>
    obtain ⟨h0, hc⟩ := himp t' n ih.1
    exact ⟨h0, hc.trans ih.2⟩

/-- The cost of a point is the length of a shortest walk, 1 at the destination itself, and 0 where there is none. -/
def Exact (adj : V → V → Prop) (d : V) (c : Nat) (n : V) : Prop :=
  c = 0 ∧ (∀ k, ¬Within adj d k n) ∨ IsLeast {k | 0 < k ∧ Within adj d k n} c

/-- What is asked of the costs: the destination and its neighbours come to a cost of 1, and a point comes to one more than any
cost that a neighbour has. -/
structure Spreads (adj : V → V → Prop) (d : V) (cost : Nat → V → Nat) : Prop where
  improving : Improving cost
  starts : ∀ n, n = d ∨ adj n d → ∃ t, Knows cost t n 1
  hears : ∀ t n m, adj n m → cost t m ≠ 0 → ∃ t', Knows cost t' n (cost t m + 1)

/-- A point that is so many steps away comes to a cost of no more than that. -/
theorem Spreads.knows (h : Spreads adj d cost) (hw : Within adj d k n) : ∃ t, Knows cost t n (max 1 k) := by
  induction hw with
  | here k =>
    obtain ⟨t, ht⟩ := h.starts d (Or.inl rfl)
    exact ⟨t, ht.mono (le_max_left 1 k)⟩
  | @step k n m hnm hm ih =>
    cases hm with
    | here =>
      obtain ⟨t, ht⟩ := h.starts n (Or.inr hnm)
      exact ⟨t, ht.mono (le_max_left 1 _)⟩
    | step hml hl =>
      obtain ⟨t, h0, hc⟩ := ih
      obtain ⟨t', ht'⟩ := h.hears t n m hnm h0
      exact ⟨t', ht'.mono (by omega)⟩

/-- Costs that stand for walks and spread are exact from some time on. -/
theorem Spreads.settles [Finite V] (h : Spreads adj d cost) (hsound : ∀ t n, cost t n ≠ 0 → Within adj d (cost t n) n) :
    ∃ T, ∀ t, T ≤ t → ∀ n, Exact adj d (cost t n) n := by
  have hpoint (n : V) : ∃ T, ∀ t, T ≤ t → Exact adj d (cost t n) n := by
    by_cases hreach : ∃ k, Within adj d k n
    · -- the least of the walks bounds the cost from below at every time, and from above in the end
      have hne : ∃ k, 0 < k ∧ Within adj d k n := by
        obtain ⟨k, hk⟩ := hreach
        exact ⟨k + 1, Nat.succ_pos k, hk.mono (Nat.le_succ k)⟩
      classical
      obtain ⟨hpos, hw⟩ := Nat.find_spec hne
      have hleast : ∀ j, 0 < j → Within adj d j n → Nat.find hne ≤ j := fun j hj hwj => Nat.find_min' hne ⟨hj, hwj⟩
      obtain ⟨T, hT⟩ := h.knows hw
      refine ⟨T, fun t ht => Or.inr ?_⟩
      obtain ⟨h0, hc⟩ := hT.later h.improving ht
      have heq : cost t n = Nat.find hne := by
        have := hleast (cost t n) (Nat.pos_of_ne_zero h0) (hsound t n h0)
        omega
      rw [heq]
      exact ⟨⟨hpos, hw⟩, fun j hj => hleast j hj.1 hj.2⟩
    · have hno : ∀ k, ¬Within adj d k n := fun k hk => hreach ⟨k, hk⟩
      refine ⟨0, fun t _ => Or.inl ⟨?_, hno⟩⟩
      by_contra h0
      exact hno _ (hsound t n h0)
  have hall : ∀ᶠ t in Filter.atTop, ∀ n, Exact adj d (cost t n) n :=
    Filter.eventually_all.2 fun n => Filter.eventually_atTop.2 (hpoint n)
  exact Filter.eventually_atTop.1 hall

/-- Where costs are exact, following points of smaller cost is a shortest way. -/
theorem follows_of_exact {next : V → V → Prop} {cost : V → Nat} (hexact : ∀ n, Exact adj d (cost n) n)
    (hnext : ∀ n, n ≠ d → cost n ≠ 0 → ∃ m, next n m ∧ adj n m ∧ (m = d ∨ cost m ≠ 0 ∧ cost m < cost n)) (hn : n ≠ d)
    (hc : cost n ≠ 0) : Follows next d (cost n) n := by
  have hleast : ∀ m k, 0 < k → Within adj d k m → cost m ≤ k := by
    intro m k hk hw
    rcases hexact m with ⟨h0, -⟩ | hm
    · rw [h0]
      exact Nat.zero_le k
    · exact hm.2 ⟨hk, hw⟩
  induction hk : cost n using Nat.strong_induction_on generalizing n with
  | _ c ih =>
    obtain ⟨m, hnm, hadj, hm⟩ := hnext n hn hc
    by_cases hmd : m = d
    · -- a neighbour of the destination costs 1
      subst hmd
      have hone : c = 1 := by
        have := hleast n 1 Nat.one_pos (Within.step hadj (Within.here 0))
        omega
      rw [hone]
      exact Follows.step hn hnm Follows.here
    · obtain ⟨hm0, hlt⟩ := hm.resolve_left hmd
      have hwm : Within adj d (cost m) m := by
        rcases hexact m with ⟨h0, -⟩ | hmin
        · exact absurd h0 hm0
        · exact hmin.1.2
      have hle := hleast n (cost m + 1) (Nat.succ_pos _) (Within.step hadj hwm)
      have heq : c = cost m + 1 := by omega
      rw [heq]
      exact Follows.step hn hnm (ih (cost m) (hk ▸ hlt) hmd hm0 rfl)

end DistanceVector
