import Mathlib.Data.Nat.Digits.Lemmas
import Mathlib.Data.List.TakeWhile

/-!
# Scanning text

What loops over the characters of a text do that stop at the first one of a kind and at nothing else: one that looks for it, and one that
copies what comes before it to a place of limited room. A text that ends too early is overrun. And the number that digits stand for.
-/

namespace Scan

variable {α : Type*} {p : α → Bool} {l pre rest c : List α} {x : α} {room : Nat}

/-- What is said of all elements of a list is decided one by one, also where the type has finitely many. -/
scoped instance decidableForallMem (q : α → Prop) [DecidablePred q] (l : List α) : Decidable (∀ x ∈ l, q x) :=
  List.decidableBAll q l

/-- The first element of a kind, and what is behind it; `none` is a loop that runs beyond the end. -/
def seek (p : α → Bool) : List α → Option (α × List α)
  | [] => none
  | x :: l => if p x then some (x, l) else seek p l

/-- What comes before the first element of a kind, copied, and what is left from there on; `none` is a loop that runs beyond the end, or
that copies more than there is room for. -/
def copyTo (p : α → Bool) : Nat → List α → Option (List α × List α)
  | _, [] => none
  | 0, x :: l => if p x then some ([], x :: l) else none
  | room + 1, x :: l => if p x then some ([], x :: l) else (copyTo p room l).map fun r => (x :: r.1, r.2)

theorem seek_eq_some_iff : seek p l = some (x, rest) ↔ ∃ pre, l = pre ++ x :: rest ∧ (∀ y ∈ pre, p y = false) ∧ p x = true := by
  induction l with
  | nil => simp [seek]
  | cons y l ih =>
    unfold seek
    split
    · rename_i hy
      constructor
      · rintro ⟨⟩
        exact ⟨[], rfl, by simp, hy⟩
      · rintro ⟨pre, hl, hpre, -⟩
        cases pre with
        | nil =>
          obtain ⟨rfl, rfl⟩ := List.cons.inj hl
          rfl
        | cons z pre =>
          obtain ⟨rfl, -⟩ := List.cons.inj hl
          rw [hpre y List.mem_cons_self] at hy
          cases hy
    · rename_i hy
      rw [ih]
      constructor
      · rintro ⟨pre, rfl, hpre, hx⟩
        exact ⟨y :: pre, rfl, List.forall_mem_cons.2 ⟨by simpa using hy, hpre⟩, hx⟩
      · rintro ⟨pre, hl, hpre, hx⟩
        cases pre with
        | nil =>
          obtain ⟨rfl, -⟩ := List.cons.inj hl
          exact absurd hx hy
        | cons z pre =>
          obtain ⟨rfl, rfl⟩ := List.cons.inj hl
          exact ⟨pre, rfl, (List.forall_mem_cons.1 hpre).2, hx⟩

theorem copyTo_eq_some_iff : copyTo p room l = some (c, rest) ↔
    l = c ++ rest ∧ (∀ y ∈ c, p y = false) ∧ c.length ≤ room ∧ ∃ x t, rest = x :: t ∧ p x = true := by
  induction l generalizing room c with
  | nil =>
    refine iff_of_false (by cases room <;> simp [copyTo]) ?_
    rintro ⟨hl, -, -, x, t, rfl, -⟩
    simp at hl
  | cons y l ih =>
    by_cases hy : p y = true
    · have hcopy : copyTo p room (y :: l) = some ([], y :: l) := by cases room <;> simp [copyTo, hy]
      rw [hcopy]
      constructor
      · rintro ⟨⟩
        exact ⟨rfl, by simp, Nat.zero_le _, y, l, rfl, hy⟩
      · rintro ⟨hl, hc, -, -⟩
        cases c with
        | nil => rw [hl, List.nil_append]
        | cons z c =>
          obtain ⟨rfl, -⟩ := List.cons.inj hl
          rw [hc y List.mem_cons_self] at hy
          cases hy
    · cases room with
      | zero =>
        refine iff_of_false (by simp [copyTo, hy]) ?_
        rintro ⟨hl, -, hlen, x, t, rfl, hx⟩
        obtain rfl := List.eq_nil_of_length_eq_zero (Nat.le_zero.1 hlen)
        obtain ⟨rfl, -⟩ := List.cons.inj hl
        exact hy hx
      | succ room =>
        simp only [copyTo, hy, Bool.false_eq_true, if_false, Option.map_eq_some_iff, Prod.exists, Prod.mk.injEq]
        constructor
        · rintro ⟨c', r', hcopy, rfl, rfl⟩
          obtain ⟨rfl, hc, hlen, hstop⟩ := ih.1 hcopy
          exact ⟨rfl, List.forall_mem_cons.2 ⟨by simpa using hy, hc⟩, Nat.succ_le_succ hlen, hstop⟩
        · rintro ⟨hl, hc, hlen, hstop⟩
          cases c with
          | nil =>
            obtain ⟨x, t, rfl, hx⟩ := hstop
            obtain ⟨rfl, -⟩ := List.cons.inj hl
            exact absurd hx hy
          | cons z c =>
            obtain ⟨rfl, rfl⟩ := List.cons.inj hl
            exact ⟨c, rest, ih.2 ⟨rfl, (List.forall_mem_cons.1 hc).2, Nat.le_of_succ_le_succ hlen, hstop⟩, rfl, rfl⟩

/-- Memory after something has been written at its start. -/
def overwrite (memory new : List α) : List α := new ++ memory.drop new.length

/-- The elements of a kind at the start of memory: those written, and those that were behind them before. -/
theorem takeWhile_overwrite (memory : List α) {new : List α} (h : ∀ y ∈ new, p y = true) :
    (overwrite memory new).takeWhile p = new ++ (memory.drop new.length).takeWhile p :=
  List.takeWhile_append_of_pos h

/-! ## Numbers -/

/-- The number that digits stand for, the first one the highest. -/
def decimal (digits : List UInt8) : Nat := Nat.ofDigits 10 (digits.reverse.map fun c => c.toNat - 48)

theorem decimal_append (l m : List UInt8) : decimal (l ++ m) = decimal m + 10 ^ m.length * decimal l := by
  simp [decimal, Nat.ofDigits_append]

theorem decimal_le_append (l m : List UInt8) : decimal l ≤ decimal (l ++ m) := by
  rw [decimal_append]
  exact (Nat.le_mul_of_pos_left _ (Nat.pow_pos (by decide))).trans (Nat.le_add_left _ _)

theorem decimal_lt {digits : List UInt8} (h : ∀ c ∈ digits, c.toNat ≤ 57) : decimal digits < 10 ^ digits.length := by
  have hlt := Nat.ofDigits_lt_base_pow_length (b := 10) (l := digits.reverse.map fun c => c.toNat - 48) (by decide) ?_
  · simpa [decimal] using hlt
  · intro x hx
    obtain ⟨c, hc, rfl⟩ := List.mem_map.1 hx
    have := h c (List.mem_reverse.1 hc)
    omega

end Scan
