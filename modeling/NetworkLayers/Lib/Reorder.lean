import Mathlib.Data.List.Nodup

/-!
# A reorder buffer

The pieces of a stream arrive in any order and more than once. A receiver that has taken the pieces below `next` holds those that came
too early; when the next one comes, it takes it and what it holds behind it. What it has taken is always the longest start of the
stream that the pieces received so far make up.
-/

namespace Reorder

/-- Takes the next piece out of those held, again and again. -/
def advance : Nat → Nat → List Nat → Nat × List Nat
  | 0, next, held => (next, held)
  | rounds + 1, next, held => if next ∈ held then advance rounds (next + 1) (held.erase next) else (next, held)

/-- A piece arrives: the next one is taken with what follows it, another one is held unless it is held already. -/
def arrive (next : Nat) (held : List Nat) (k : Nat) : Nat × List Nat :=
  if k = next then advance held.length (next + 1) held
  else if k ∈ held then (next, held)
  else (next, held ++ [k])

/-- The first `j` pieces have been received and the one after them has not. -/
structure Covers (received : List Nat) (j : Nat) : Prop where
  below : ∀ i < j, i ∈ received
  missing : j ∉ received

/-- The receiver has taken the longest start that is covered, and holds each other piece received once. -/
structure Keeps (received : List Nat) (next : Nat) (held : List Nat) : Prop where
  covers : Covers received next
  nodup : held.Nodup
  mem : ∀ k, k ∈ held ↔ k ∈ received ∧ next ≤ k

/-- What has been taken and held after the next pieces have been taken out. -/
structure Advanced (next : Nat) (held : List Nat) (a : Nat × List Nat) : Prop where
  le : next ≤ a.1
  taken : ∀ i, next ≤ i → i < a.1 → i ∈ held
  stops : a.1 ∉ held
  nodup : a.2.Nodup
  mem : ∀ k, k ∈ a.2 ↔ k ∈ held ∧ a.1 ≤ k

theorem advance_advanced {rounds next : Nat} {held : List Nat} (hlen : held.length ≤ rounds) (hnodup : held.Nodup)
    (hle : ∀ k ∈ held, next ≤ k) : Advanced next held (advance rounds next held) := by
  induction rounds generalizing next held with
  | zero =>
    obtain rfl := List.eq_nil_of_length_eq_zero (Nat.le_zero.1 hlen)
    exact ⟨Nat.le_refl _, fun i h1 h2 => absurd h2 (Nat.not_lt.2 h1), List.not_mem_nil, hnodup, by simp [advance]⟩
  | succ rounds ih =>
    unfold advance
    split
    · rename_i hmem
      have hlen' : (held.erase next).length ≤ rounds := by
        rw [List.length_erase_of_mem hmem]
        omega
      have hmem' : ∀ k, k ∈ held.erase next ↔ k ≠ next ∧ k ∈ held := fun k => hnodup.mem_erase_iff
      have hle' : ∀ k ∈ held.erase next, next + 1 ≤ k := by
        intro k hk
        obtain ⟨hne, hk⟩ := (hmem' k).1 hk
        have := hle k hk
        omega
      have h := ih hlen' (hnodup.erase next) hle'
      have hnext := h.le
      refine ⟨by omega, ?_, ?_, h.nodup, ?_⟩
      · intro i h1 h2
        rcases Nat.eq_or_lt_of_le h1 with rfl | hlt
        · exact hmem
        · exact ((hmem' i).1 (h.taken i hlt h2)).2
      · intro hstop
        exact h.stops ((hmem' _).2 ⟨by omega, hstop⟩)
      · intro k
        rw [h.mem k, hmem' k]
        constructor
        · rintro ⟨⟨-, hk⟩, hk'⟩
          exact ⟨hk, hk'⟩
        · rintro ⟨hk, hk'⟩
          exact ⟨⟨by omega, hk⟩, hk'⟩
    · rename_i hmem
      exact ⟨Nat.le_refl _, fun i h1 h2 => absurd h2 (Nat.not_lt.2 h1), hmem, hnodup, fun k => ⟨fun hk => ⟨hk, hle k hk⟩, And.left⟩⟩

theorem keeps_nil : Keeps [] 0 [] where
  covers := ⟨fun i hi => absurd hi (Nat.not_lt_zero i), List.not_mem_nil⟩
  nodup := List.nodup_nil
  mem := by simp

/-- A piece that has not been taken yet arrives. -/
theorem Keeps.arrive {received : List Nat} {next : Nat} {held : List Nat} (h : Keeps received next held) {k : Nat} (hk : next ≤ k) :
    Keeps (k :: received) (arrive next held k).1 (arrive next held k).2 := by
  unfold Reorder.arrive
  split
  · rename_i heq
    subst heq
    have hnot : k ∉ held := fun hmem => h.covers.missing ((h.mem k).1 hmem).1
    have hle : ∀ i ∈ held, k + 1 ≤ i := by
      intro i hi
      have hki := ((h.mem i).1 hi).2
      have hne : i ≠ k := fun heq => hnot (heq ▸ hi)
      omega
    have ha := advance_advanced (Nat.le_refl held.length) h.nodup hle
    have hnext := ha.le
    refine ⟨⟨?_, ?_⟩, ha.nodup, ?_⟩
    · intro i hi
      rcases Nat.lt_trichotomy i k with hlt | rfl | hgt
      · exact List.mem_cons_of_mem _ (h.covers.below i hlt)
      · exact List.mem_cons_self
      · exact List.mem_cons_of_mem _ ((h.mem i).1 (ha.taken i hgt hi)).1
    · intro hmem
      rcases List.mem_cons.1 hmem with heq | hmem
      · omega
      · exact ha.stops ((h.mem _).2 ⟨hmem, by omega⟩)
    · intro i
      rw [ha.mem i, h.mem i, List.mem_cons]
      constructor
      · rintro ⟨⟨hi, -⟩, hi'⟩
        exact ⟨Or.inr hi, hi'⟩
      · rintro ⟨hi | hi, hi'⟩
        · omega
        · exact ⟨⟨hi, by omega⟩, hi'⟩
  · rename_i hne
    have hmissing : next ∉ k :: received := by
      intro hmem
      rcases List.mem_cons.1 hmem with heq | hmem
      · exact hne heq.symm
      · exact h.covers.missing hmem
    have hcovers : Covers (k :: received) next := ⟨fun i hi => List.mem_cons_of_mem _ (h.covers.below i hi), hmissing⟩
    split
    · rename_i hheld
      refine ⟨hcovers, h.nodup, fun i => ?_⟩
      rw [h.mem i, List.mem_cons]
      constructor
      · rintro ⟨hi, hi'⟩
        exact ⟨Or.inr hi, hi'⟩
      · rintro ⟨rfl | hi, hi'⟩
        · exact (h.mem i).1 hheld
        · exact ⟨hi, hi'⟩
    · rename_i hnot
      refine ⟨hcovers, ?_, fun i => ?_⟩
      · refine List.nodup_append.2 ⟨h.nodup, List.nodup_singleton k, ?_⟩
        rintro i hi j hj rfl
        obtain rfl := List.mem_singleton.1 hj
        exact hnot hi
      · rw [List.mem_append, h.mem i, List.mem_singleton, List.mem_cons]
        constructor
        · rintro (⟨hi, hi'⟩ | rfl)
          · exact ⟨Or.inr hi, hi'⟩
          · exact ⟨Or.inl rfl, hk⟩
        · rintro ⟨rfl | hi, hi'⟩
          · exact Or.inr rfl
          · exact Or.inl ⟨hi, hi'⟩

end Reorder
