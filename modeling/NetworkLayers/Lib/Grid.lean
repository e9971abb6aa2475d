import Mathlib.Logic.Function.Basic
import Mathlib.Data.Fin.Basic

/-!
# Square arrays with checked indices

A square array of `n` rows is read and written at two integers, which are checked against its bounds: what a program that does not
check them reads and writes, as long as it stays within.
-/

namespace Grid

variable {n : Nat} {α : Type*} {g g' : Fin n → Fin n → α} {i j : Int} {x y : Fin n} {a : α}

/-- The place of an array of `n` that an index stands for. -/
def place (n : Nat) (i : Int) : Option (Fin n) :=
  if h : 0 ≤ i ∧ i < n then some ⟨i.toNat, (Int.toNat_lt h.1).2 h.2⟩ else none

theorem place_eq_some_iff : place n i = some x ↔ i = x.val := by
  unfold place
  split
  · rename_i h
    rw [Option.some.injEq, Fin.ext_iff]
    show i.toNat = x.val ↔ i = x.val
    omega
  · rename_i h
    refine iff_of_false (by simp) ?_
    rintro rfl
    exact h ⟨Int.natCast_nonneg _, Int.ofNat_lt.2 x.isLt⟩

@[simp] theorem place_val (x : Fin n) : place n (x.val : Int) = some x := place_eq_some_iff.2 rfl

/-- What stands at two indices; `none` is a read beyond the array. -/
def read (g : Fin n → Fin n → α) (i j : Int) : Option α := (place n i).bind fun x => (place n j).map fun y => g x y

/-- The array with another value at two indices; `none` is a write beyond the array. -/
def write (g : Fin n → Fin n → α) (i j : Int) (a : α) : Option (Fin n → Fin n → α) :=
  (place n i).bind fun x => (place n j).map fun y => Function.update g x (Function.update (g x) y a)

/-- The value at two indices and at the same two the other way round. -/
def writeBoth (g : Fin n → Fin n → α) (i j : Int) (a : α) : Option (Fin n → Fin n → α) :=
  (write g i j a).bind fun g' => write g' j i a

theorem read_val (g : Fin n → Fin n → α) (x y : Fin n) : read g x.val y.val = some (g x y) := by
  simp [read]

/-- A read that succeeds is within the array. -/
theorem read_eq_some_iff : read g i j = some a ↔ ∃ x y : Fin n, i = x.val ∧ j = y.val ∧ g x y = a := by
  simp only [read, Option.bind_eq_some_iff, Option.map_eq_some_iff, place_eq_some_iff]
  constructor
  · rintro ⟨x, hx, y, hy, h⟩
    exact ⟨x, y, hx, hy, h⟩
  · rintro ⟨x, y, hx, hy, h⟩
    exact ⟨x, hx, y, hy, h⟩

/-- The array that two places the same way and the other way round have been written in. -/
def setBoth (g : Fin n → Fin n → α) (x y : Fin n) (a : α) : Fin n → Fin n → α :=
  fun p q => if (p = x ∧ q = y) ∨ (p = y ∧ q = x) then a else g p q

theorem writeBoth_val (g : Fin n → Fin n → α) (x y : Fin n) (a : α) :
    writeBoth g x.val y.val a = some (setBoth g x y a) := by
  simp only [writeBoth, write, place_val, Option.bind_some, Option.map_some, Option.some.injEq]
  funext p q
  unfold setBoth
  by_cases hpy : p = y
  · subst hpy
    rw [Function.update_self]
    by_cases hqx : q = x
    · subst hqx
      rw [Function.update_self, if_pos (Or.inr ⟨rfl, rfl⟩)]
    · rw [Function.update_of_ne hqx]
      by_cases hpx : p = x
      · subst hpx
        rw [Function.update_self, Function.update_of_ne hqx, if_neg (by simp [hqx])]
      · rw [Function.update_of_ne hpx, if_neg (by simp [hpx, hqx])]
  · rw [Function.update_of_ne hpy]
    by_cases hpx : p = x
    · subst hpx
      rw [Function.update_self]
      by_cases hqy : q = y
      · subst hqy
        rw [Function.update_self, if_pos (Or.inl ⟨rfl, rfl⟩)]
      · rw [Function.update_of_ne hqy, if_neg (by simp [hpy, hqy])]
    · rw [Function.update_of_ne hpx, if_neg (by simp [hpx, hpy])]

/-- A double write that succeeds is within the array. -/
theorem writeBoth_eq_some_iff :
    writeBoth g i j a = some g' ↔ ∃ x y : Fin n, i = x.val ∧ j = y.val ∧ g' = setBoth g x y a := by
  constructor
  · intro h
    have hwrite := h
    simp only [writeBoth, write, Option.bind_eq_some_iff, Option.map_eq_some_iff, place_eq_some_iff] at hwrite
    obtain ⟨_, ⟨x, rfl, y, rfl, -⟩, -⟩ := hwrite
    rw [writeBoth_val] at h
    exact ⟨x, y, rfl, rfl, (Option.some.inj h).symm⟩
  · rintro ⟨x, y, rfl, rfl, rfl⟩
    exact writeBoth_val g x y a

theorem setBoth_of_ne {p q : Fin n} (h : ¬(p = x ∧ q = y)) (h' : ¬(p = y ∧ q = x)) : setBoth g x y a p q = g p q :=
  if_neg (not_or.2 ⟨h, h'⟩)

theorem setBoth_self : setBoth g x y a x y = a ∧ setBoth g x y a y x = a :=
  ⟨if_pos (Or.inl ⟨rfl, rfl⟩), if_pos (Or.inr ⟨rfl, rfl⟩)⟩

/-- Writing what is there changes nothing. -/
theorem setBoth_eq_self (h : g x y = a) (h' : g y x = a) : setBoth g x y a = g := by
  funext p q
  unfold setBoth
  split
  · rename_i hpq
    rcases hpq with ⟨rfl, rfl⟩ | ⟨rfl, rfl⟩
    · exact h.symm
    · exact h'.symm
  · rfl

end Grid
