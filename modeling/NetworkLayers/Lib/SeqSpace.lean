import Mathlib.Algebra.BigOperators.Group.List.Basic
import Mathlib.Algebra.GroupWithZero.Nat
import Mathlib.Data.List.Infix

/-!
# Sequence numbers that wrap unevenly

The number after a piece of a stream is the sum of its number and its size, cut to a word that has one value more than the
modulus, modulo the modulus. Such a numbering loses a value where a piece runs past the end of the word, and none where a piece
ends on it; still, two places of a stream that is shorter than the modulus never have the same number.
-/

namespace SeqSpace

variable {M q : Nat}

/-- The number `n` after `s`. -/
def next (M s n : Nat) : Nat := (s + n) % (M + 1) % M

/-- The number after pieces of the given sizes, the first of them at `q`. -/
def seqAt (M q : Nat) (sizes : List Nat) : Nat := sizes.foldl (next M) q

@[simp] theorem seqAt_nil : seqAt M q [] = q := rfl

@[simp] theorem seqAt_cons (n : Nat) (l : List Nat) : seqAt M q (n :: l) = seqAt M (next M q n) l := rfl

theorem seqAt_append (l l' : List Nat) : seqAt M q (l ++ l') = seqAt M (seqAt M q l) l' := List.foldl_append

theorem seqAt_concat (l : List Nat) (n : Nat) : seqAt M q (l ++ [n]) = next M (seqAt M q l) n := by
  rw [seqAt_append]
  rfl

theorem next_of_lt {s n : Nat} (h : s + n < M) : next M s n = s + n := by
  unfold next
  rw [Nat.mod_eq_of_lt (Nat.lt_succ_of_lt h), Nat.mod_eq_of_lt h]

/-- Past the end of the word the number is less than the sum by the modulus at least. -/
theorem next_add_le {s n : Nat} (hs : s < M) (hn : n < M) (h : M ≤ s + n) : next M s n + M ≤ s + n := by
  unfold next
  rcases Nat.eq_or_lt_of_le h with heq | hlt
  · rw [← heq, Nat.mod_eq_of_lt (Nat.lt_succ_self M), Nat.mod_self]
    omega
  · have hmod : (s + n) % (M + 1) = s + n - (M + 1) := by
      rw [Nat.mod_eq_sub_mod hlt, Nat.mod_eq_of_lt (by omega)]
    rw [hmod, Nat.mod_eq_of_lt (by omega)]
    omega

/-- Before the end of the word, numbers are sums. -/
theorem seqAt_of_lt {l : List Nat} (h : q + l.sum < M) : seqAt M q l = q + l.sum := by
  induction l generalizing q with
  | nil => rfl
  | cons n l ih =>
    rw [List.sum_cons] at h ⊢
    rw [seqAt_cons, next_of_lt (by omega), ih (by omega)]
    omega

/-- Past it, they are below the first number. -/
theorem seqAt_add_le {l : List Nat} (hq : q < M) (hl : l.sum < M) (h : M ≤ q + l.sum) : seqAt M q l + M ≤ q + l.sum := by
  induction l generalizing q with
  | nil =>
    rw [List.sum_nil] at h
    omega
  | cons n l ih =>
    rw [List.sum_cons] at hl h ⊢
    rw [seqAt_cons]
    by_cases hn : q + n < M
    · rw [next_of_lt hn]
      have := ih hn (by omega) (by omega)
      omega
    · have hnext := next_add_le hq (by omega) (Nat.le_of_not_lt hn)
      rw [seqAt_of_lt (by omega)]
      omega

theorem seqAt_lt {l : List Nat} (hq : q < M) (hl : l.sum < M) : seqAt M q l < M := by
  by_cases h : q + l.sum < M
  · rw [seqAt_of_lt h]
    exact h
  · have := seqAt_add_le hq hl (Nat.le_of_not_lt h)
    omega

/-- Past the end of the word, numbers are sums again. -/
theorem seqAt_append_of_le {l l' : List Nat} (hq : q < M) (hl : (l ++ l').sum < M) (h : M ≤ q + l.sum) :
    seqAt M q (l ++ l') = seqAt M q l + l'.sum := by
  rw [List.sum_append] at hl
  have hle := seqAt_add_le hq (by omega) h
  rw [seqAt_append, seqAt_of_lt (by omega)]

/-- Two places of a stream shorter than the modulus have different numbers. -/
theorem seqAt_append_ne {l l' : List Nat} (hq : q < M) (hl : (l ++ l').sum < M) (hpos : 0 < l'.sum) :
    seqAt M q (l ++ l') ≠ seqAt M q l := by
  by_cases h : M ≤ q + l.sum
  · rw [seqAt_append_of_le hq hl h]
    omega
  · have hlt : q + l.sum < M := Nat.lt_of_not_le h
    rw [seqAt_of_lt hlt]
    by_cases h' : q + (l ++ l').sum < M
    · rw [seqAt_of_lt h', List.sum_append]
      omega
    · have := seqAt_add_le hq hl (Nat.le_of_not_lt h')
      rw [List.sum_append] at this hl
      omega

/-- Several pieces at once: the sum of their sizes gives the same number, when only the last of them runs past the word. -/
theorem seqAt_eq_next {l : List Nat} (hq : q < M) (h : q + l.dropLast.sum < M) : seqAt M q l = next M q l.sum := by
  rcases List.eq_nil_or_concat l with rfl | ⟨l', n, rfl⟩
  · rw [List.sum_nil, next_of_lt (by omega)]
    rfl
  · rw [List.concat_eq_append, List.dropLast_concat] at h
    rw [List.concat_eq_append, seqAt_concat, seqAt_of_lt h, List.sum_append, List.sum_singleton]
    unfold next
    rw [Nat.add_assoc]

variable {α : Type*} {size : α → Nat} {ks l l' : List α}

/-- A part of a stream of pieces that are not empty has bytes. -/
theorem sum_pos (hpos : ∀ k ∈ ks, 0 < size k) (hne : ks ≠ []) : 0 < (ks.map size).sum := by
  cases ks with
  | nil => exact absurd rfl hne
  | cons k ks =>
    have := hpos k List.mem_cons_self
    rw [List.map_cons, List.sum_cons]
    omega

/-- The sum over a prefix is at most the sum over the whole. -/
theorem sum_map_mono (h : l <+: ks) : (l.map size).sum ≤ (ks.map size).sum := by
  obtain ⟨r, rfl⟩ := h
  rw [List.map_append, List.sum_append]
  omega

/-- The start of a stream is known by the number after it. -/
theorem prefix_eq_of_seqAt_eq (hq : q < M) (hpos : ∀ k ∈ ks, 0 < size k) (hsum : (ks.map size).sum < M) (hl : l <+: ks)
    (hl' : l' <+: ks) (h : seqAt M q (l.map size) = seqAt M q (l'.map size)) : l = l' := by
  -- one of two prefixes is a prefix of the other
  wlog hle : l.length ≤ l'.length generalizing l l'
  · exact (this hl' hl h.symm (Nat.le_of_not_le hle)).symm
  obtain ⟨d, rfl⟩ := List.prefix_of_prefix_length_le hl hl' hle
  by_contra hne
  have hd : d ≠ [] := by
    rintro rfl
    exact hne (List.append_nil l).symm
  have hdpos : 0 < (d.map size).sum :=
    sum_pos (fun k hk => hpos k (hl'.subset (List.mem_append_right _ hk))) hd
  have hsum' : ((l.map size) ++ (d.map size)).sum < M := by
    rw [← List.map_append]
    exact Nat.lt_of_le_of_lt (sum_map_mono hl') hsum
  rw [List.map_append] at h
  exact seqAt_append_ne hq hsum' hdpos h.symm

/-! ## Going round -/

/-- How far a number is after `p`, going round the modulus. -/
def dist (M p x : Nat) : Nat := (x + (M - p)) % M

theorem dist_eq {p x : Nat} (hp : p < M) (hx : x < M) : dist M p x = if p ≤ x then x - p else x + M - p := by
  unfold dist
  split
  · rw [show x + (M - p) = x - p + M by omega, Nat.add_mod_right, Nat.mod_eq_of_lt (by omega)]
  · rw [Nat.mod_eq_of_lt (by omega)]
    omega

/-- The number after a piece, in which part of the word or past it the piece ends. -/
theorem next_eq {s n : Nat} (hs : s ≤ M) (hn : n < M) :
    next M s n = if s + n < M then s + n else if s + n = M then 0 else s + n - (M + 1) := by
  split
  · rename_i hlt
    exact next_of_lt hlt
  · unfold next
    split
    · rename_i heq
      rw [heq, Nat.mod_eq_of_lt (Nat.lt_succ_self M), Nat.mod_self]
    · have hmod : (s + n) % (M + 1) = s + n - (M + 1) := by
        rw [Nat.mod_eq_sub_mod (by omega), Nat.mod_eq_of_lt (by omega)]
      rw [hmod, Nat.mod_eq_of_lt (by omega)]

end SeqSpace
