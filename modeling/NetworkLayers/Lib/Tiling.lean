import Mathlib.Data.List.Basic
import Mathlib.Algebra.BigOperators.Group.List.Basic
import Mathlib.Algebra.GroupWithZero.Nat

/-!
# Pieces that follow each other

`Tiles here len a l` says that the pieces of `l` lie one behind the other from the position `a` on: `here b x` is that the piece
`x` may lie at `b`, `len x` is how far it reaches.
-/

namespace Tiling

variable {β γ : Type*} {here here' : Nat → β → Prop} {len : β → Nat} {a : Nat} {l l' : List β}

/-- How far the pieces of a list reach together. -/
def total (len : β → Nat) (l : List β) : Nat := (l.map len).sum

@[simp] theorem total_nil : total len [] = 0 := rfl

@[simp] theorem total_cons (x : β) (l : List β) : total len (x :: l) = len x + total len l := by
  simp [total]

@[simp] theorem total_append (l l' : List β) : total len (l ++ l') = total len l + total len l' := by
  simp [total]

theorem total_le_of_sublist (h : l.Sublist l') : total len l ≤ total len l' := by
  induction h with
  | slnil => exact Nat.le_refl _
  | cons x _ ih =>
    rw [total_cons]
    exact Nat.le_trans ih (Nat.le_add_left _ _)
  | cons_cons x _ ih =>
    rw [total_cons, total_cons]
    exact Nat.add_le_add_left ih _

/-- Pieces that are not empty are all there when they reach as far together. -/
theorem eq_of_sublist_of_total (h : l.Sublist l') (hpos : ∀ x ∈ l', 0 < len x) (htotal : total len l = total len l') : l = l' := by
  induction h with
  | slnil => rfl
  | cons x hl _ =>
    have hx := hpos x List.mem_cons_self
    have hle : total len _ ≤ total len _ := total_le_of_sublist hl
    rw [total_cons] at htotal
    omega
  | cons_cons x _ ih =>
    rw [total_cons, total_cons] at htotal
    rw [ih (List.forall_mem_cons.1 hpos).2 (by omega)]

/-- The pieces of the list lie one behind the other from `a` on. -/
def Tiles (here : Nat → β → Prop) (len : β → Nat) : Nat → List β → Prop
  | _, [] => True
  | a, x :: l => here a x ∧ Tiles here len (a + len x) l

@[simp] theorem tiles_nil : Tiles here len a [] := trivial

@[simp] theorem tiles_cons {x : β} : Tiles here len a (x :: l) ↔ here a x ∧ Tiles here len (a + len x) l := Iff.rfl

theorem tiles_append : Tiles here len a (l ++ l') ↔ Tiles here len a l ∧ Tiles here len (a + total len l) l' := by
  induction l generalizing a with
  | nil => simp
  | cons x l ih => simp only [List.cons_append, tiles_cons, ih, total_cons, and_assoc, Nat.add_assoc]

/-- A piece of the list lies as far behind `a` as the pieces before it reach. -/
theorem Tiles.here_of_append {x : β} (h : Tiles here len a (l ++ x :: l')) : here (a + total len l) x :=
  (tiles_append.1 h).2.1

theorem Tiles.imp (himp : ∀ b x, x ∈ l → here b x → here' b x) (h : Tiles here len a l) : Tiles here' len a l := by
  induction l generalizing a with
  | nil => trivial
  | cons x l ih =>
    exact ⟨himp a x List.mem_cons_self h.1, ih (fun b y hy => himp b y (List.mem_cons_of_mem _ hy)) h.2⟩

/-- Pieces that are not empty lie at increasing positions. -/
theorem Tiles.pairwise_lt {pos : β → Nat} (h : Tiles (fun b x => pos x = b) len a l) (hpos : ∀ x ∈ l, 0 < len x) :
    l.Pairwise fun x y => pos x < pos y := by
  have hle : ∀ {a l}, Tiles (fun b x => pos x = b) len a l → ∀ y ∈ l, a ≤ pos y := by
    intro a l h y hy
    obtain ⟨l₁, l₂, rfl⟩ := List.append_of_mem hy
    have := h.here_of_append
    omega
  induction l generalizing a with
  | nil => exact List.Pairwise.nil
  | cons x l ih =>
    obtain ⟨hx, hl⟩ := h
    obtain ⟨hxpos, hlpos⟩ := List.forall_mem_cons.1 hpos
    refine List.pairwise_cons.2 ⟨?_, ih hl hlpos⟩
    intro y hy
    have := hle hl y hy
    omega

/-- Cutting every piece into pieces that lie in its place leaves pieces that follow each other. -/
theorem Tiles.flatMap {here' : Nat → γ → Prop} {len' : γ → Nat} {f : β → List γ} (h : Tiles here len a l)
    (hf : ∀ b x, x ∈ l → here b x → Tiles here' len' b (f x)) (hlen : ∀ x ∈ l, total len' (f x) = len x) :
    Tiles here' len' a (l.flatMap f) := by
  induction l generalizing a with
  | nil => trivial
  | cons x l ih =>
    rw [List.flatMap_cons, tiles_append]
    refine ⟨hf a x List.mem_cons_self h.1, ?_⟩
    rw [hlen x List.mem_cons_self]
    exact ih h.2 (fun b y hy => hf b y (List.mem_cons_of_mem _ hy)) fun y hy => hlen y (List.mem_cons_of_mem _ hy)

end Tiling
