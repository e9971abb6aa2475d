import Mathlib.Data.List.Basic
import Mathlib.Data.List.Nodup
import Mathlib.Data.Finset.Card
import Mathlib.Data.Fintype.Card

/-!
# Linked cells

A store of cells that are linked by the addresses they hold, as a C program links the nodes it allocates. A pointer is an optional
address. `Chain` says that a pointer heads a finite list that ends in a null pointer; `Endless` that following it never meets one.
A cell is allocated at the end of the store, so its address is new, and the cells of a store are only relinked, never removed.
-/

namespace Cells

/-- A cell: a value and the pointer to the next cell. -/
structure Cell (β : Type*) where
  val : β
  next : Option Nat
  deriving DecidableEq, Repr

/-- A store: the cell at an address is the one at that place. -/
abbrev Store (β : Type*) := List (Cell β)

variable {β : Type*} {st st' : Store β} {p q : Option Nat} {a b : Nat} {c : Cell β}

/-- Redirect the pointer a cell holds. -/
def setNext (st : Store β) (a : Nat) (n : Option Nat) : Store β :=
  st.modify a fun c => { c with next := n }

@[simp] theorem length_setNext (st : Store β) (a : Nat) (n : Option Nat) : (setNext st a n).length = st.length := by
  simp [setNext]

theorem get_setNext (st : Store β) (a : Nat) (n : Option Nat) (b : Nat) :
    (setNext st a n)[b]? = if b = a then st[b]?.map fun c => { c with next := n } else st[b]? := by
  by_cases h : b = a
  · subst h
    simp [setNext]
  · simp [setNext, h, Ne.symm h]

@[simp] theorem map_val_setNext (st : Store β) (a : Nat) (n : Option Nat) :
    (setNext st a n).map Cell.val = st.map Cell.val := by
  refine List.ext_getElem? fun b => ?_
  rw [List.getElem?_map, List.getElem?_map, get_setNext]
  split
  · rw [Option.map_map]
    rfl
  · rfl

/-- An address that holds a cell is within the store. -/
theorem lt_of_get (h : st[a]? = some c) : a < st.length := (List.getElem?_eq_some_iff.1 h).1

/-- Allocating a cell puts it at a new address and leaves the others. -/
theorem get_alloc (st : Store β) (x : Cell β) (b : Nat) :
    (st ++ [x])[b]? = if b = st.length then some x else st[b]? := by
  by_cases h : b = st.length
  · simp [h]
  · by_cases hlt : b < st.length
    · simp [h, List.getElem?_append_left hlt]
    · rw [if_neg h, List.getElem?_eq_none (by simp; omega), List.getElem?_eq_none (by omega)]

/-! ## Addresses reached from a pointer -/

/-- `Reaches st p a`: following the links from the pointer `p` comes to the address `a`. -/
inductive Reaches (st : Store β) : Option Nat → Nat → Prop where
  | here (a : Nat) : Reaches st (some a) a
  | next {a b : Nat} {c : Cell β} : st[a]? = some c → Reaches st c.next b → Reaches st (some a) b

theorem not_reaches_none : ¬Reaches st none a := by
  intro h
  cases h

/-- One more link can be followed at the far end. -/
theorem Reaches.snoc (h : Reaches st p a) (hc : st[a]? = some c) (hb : c.next = some b) : Reaches st p b := by
  induction h with
  | here a => exact Reaches.next hc (hb ▸ Reaches.here b)
  | next h1 _ ih => exact Reaches.next h1 (ih hc)

/-- A set of addresses that the links do not leave holds everything reached from any of them. -/
theorem Reaches.of_linked {R : Nat → Prop} (h : Reaches st p b) (hp : ∀ x, p = some x → R x)
    (hR : ∀ a, R a → ∀ c d, st[a]? = some c → c.next = some d → R d) : R b := by
  induction h with
  | here x => exact hp x rfl
  | @next x y c hc _ ih => exact ih fun z hz => hR x (hp x rfl) c z hc hz

/-- What is reached does not change when the cells reached do not. -/
theorem Reaches.frame (h : Reaches st' p b) (heq : ∀ a, Reaches st p a → st'[a]? = st[a]?) : Reaches st p b := by
  induction h with
  | here a => exact Reaches.here a
  | @next a b c hc _ ih =>
    have hca : st[a]? = some c := by rw [← heq a (Reaches.here a)]; exact hc
    exact Reaches.next hca (ih fun x hx => heq x (Reaches.next hca hx))

/-! ## The values read along the links -/

/-- The values of the first `n` cells met from a pointer. -/
def unroll (st : Store β) : Nat → Option Nat → List β
  | n + 1, some a =>
    match st[a]? with
    | some c => c.val :: unroll st n c.next
    | none => []
  | _, _ => []

/-- What is read does not change when the cells reached do not. -/
theorem unroll_frame (heq : ∀ a, Reaches st p a → st'[a]? = st[a]?) (n : Nat) : unroll st' n p = unroll st n p := by
  induction n generalizing p with
  | zero => rfl
  | succ n ih =>
    cases p with
    | none => rfl
    | some a =>
      simp only [unroll, heq a (Reaches.here a)]
      cases hc : st[a]? with
      | none => rfl
      | some c => simp only [ih fun x hx => heq x (Reaches.next hc hx)]

/-! ## Finite lists -/

/-- `Chain st p l`: the pointer `p` heads a list that ends in a null pointer; `l` is its addresses and values. -/
inductive Chain (st : Store β) : Option Nat → List (Nat × β) → Prop where
  | nil : Chain st none []
  | cons {a : Nat} {c : Cell β} {l : List (Nat × β)} :
      st[a]? = some c → Chain st c.next l → Chain st (some a) ((a, c.val) :: l)

/-- A pointer heads at most one list. -/
theorem Chain.unique {l l' : List (Nat × β)} (h : Chain st p l) (h' : Chain st p l') : l = l' := by
  induction h generalizing l' with
  | nil => cases h'; rfl
  | @cons a c l hc _ ih =>
    cases h' with
    | cons hc' h' =>
      rw [hc] at hc'
      cases hc'
      rw [ih h']

/-- The addresses of a list are the addresses reached from its head. -/
theorem Chain.reaches_iff {l : List (Nat × β)} (h : Chain st p l) : Reaches st p a ↔ a ∈ l.map Prod.fst := by
  induction h with
  | nil => simp [not_reaches_none]
  | @cons b c l hc _ ih =>
    simp only [List.map_cons, List.mem_cons]
    constructor
    · intro hr
      cases hr with
      | here => exact Or.inl rfl
      | next hc' hr =>
        rw [hc] at hc'
        cases hc'
        exact Or.inr (ih.1 hr)
    · rintro (rfl | hm)
      · exact Reaches.here a
      · exact Reaches.next hc (ih.2 hm)

/-- The list from a cell of a list on is the rest of it. -/
theorem Chain.suffix {l : List (Nat × β)} (h : Chain st p l) (hr : Reaches st p a) :
    ∃ l₁ l₂, l = l₁ ++ l₂ ∧ Chain st (some a) l₂ := by
  induction h with
  | nil => exact absurd hr not_reaches_none
  | @cons b c l hc hl ih =>
    cases hr with
    | here => exact ⟨[], _, rfl, Chain.cons hc hl⟩
    | next hc' hr =>
      rw [hc] at hc'
      cases hc'
      obtain ⟨l₁, l₂, rfl, h2⟩ := ih hr
      exact ⟨(b, c.val) :: l₁, l₂, rfl, h2⟩

/-- A list that ends in a null pointer meets no address twice. -/
theorem Chain.nodup {l : List (Nat × β)} (h : Chain st p l) : (l.map Prod.fst).Nodup := by
  induction h with
  | nil => simp
  | @cons a c l hc hl ih =>
    refine List.nodup_cons.2 ⟨?_, ih⟩
    intro hm
    obtain ⟨l₁, l₂, hl12, h2⟩ := hl.suffix (hl.reaches_iff.2 hm)
    have := congrArg List.length (h2.unique (Chain.cons hc hl))
    simp only [hl12, List.length_cons, List.length_append] at this
    omega

/-- The pointer to a list that is not empty is the address of its first cell, whose pointer heads the rest. -/
theorem Chain.head {l : List (Nat × β)} {x : Nat × β} (h : Chain st p (x :: l)) :
    p = some x.1 ∧ ∃ c, st[x.1]? = some c ∧ c.val = x.2 ∧ Chain st c.next l := by
  cases h with
  | cons hc hl => exact ⟨rfl, _, hc, rfl, hl⟩

/-- A place in a list is a cell whose pointer heads the rest. -/
theorem Chain.get_of_append {l₁ l₂ : List (Nat × β)} {x : Nat × β} (h : Chain st p (l₁ ++ x :: l₂)) :
    ∃ c, st[x.1]? = some c ∧ c.val = x.2 ∧ Chain st c.next l₂ := by
  induction l₁ generalizing p with
  | nil => exact h.head.2
  | cons hd l₁ ih =>
    obtain ⟨-, c, -, -, hl⟩ := h.head
    exact ih hl

/-- A list stays when none of its cells changes. -/
theorem Chain.frame {l : List (Nat × β)} (h : Chain st p l) (heq : ∀ a ∈ l.map Prod.fst, st'[a]? = st[a]?) :
    Chain st' p l := by
  induction h with
  | nil => exact Chain.nil
  | @cons a c l hc _ ih =>
    simp only [List.map_cons, List.mem_cons, forall_eq_or_imp] at heq
    exact Chain.cons (heq.1.trans hc) (ih heq.2)

/-- The addresses of a list are within the store. -/
theorem Chain.lt_length {l : List (Nat × β)} (h : Chain st p l) (ha : a ∈ l.map Prod.fst) : a < st.length := by
  induction h with
  | nil => simp at ha
  | cons hc _ ih =>
    rcases List.mem_cons.1 ha with rfl | ha
    · exact lt_of_get hc
    · exact ih ha

/-- A list is no longer than the store. -/
theorem Chain.length_le {l : List (Nat × β)} (h : Chain st p l) : l.length ≤ st.length := by
  have hsub : (l.map Prod.fst).toFinset ⊆ Finset.range st.length := by
    intro a ha
    exact Finset.mem_range.2 (h.lt_length (List.mem_toFinset.1 ha))
  have hcard := Finset.card_le_card hsub
  rw [List.toFinset_card_of_nodup h.nodup, Finset.card_range, List.length_map] at hcard
  exact hcard

/-- Linking a new cell behind the last one makes the list one longer. -/
theorem Chain.snoc {l : List (Nat × β)} {last : Nat × β} (x : β) (h : Chain st p (l ++ [last])) :
    Chain (setNext st last.1 (some st.length) ++ [⟨x, none⟩]) p (l ++ [last, (st.length, x)]) := by
  induction l generalizing p with
  | nil =>
    cases h with
    | @cons a c _ hc hl =>
      refine Chain.cons (c := ⟨c.val, some st.length⟩) ?_ (Chain.cons (c := ⟨x, none⟩) ?_ Chain.nil)
      · rw [get_alloc, if_neg (by simpa using (lt_of_get hc).ne), get_setNext, if_pos rfl, hc]
        rfl
      · rw [get_alloc, if_pos (by simp)]
  | cons hd l ih =>
    have hnd := h.nodup
    cases h with
    | @cons a c _ hc hl =>
      have hne : a ≠ last.1 := by
        intro he
        simp [he] at hnd
      refine Chain.cons ?_ (ih hl)
      rw [get_alloc, if_neg (by simpa using (lt_of_get hc).ne), get_setNext, if_neg hne]
      exact hc

/-! ## Lists that never end -/

/-- Every cell met from the pointer holds a further one: following the links never comes to a null pointer. -/
def Endless (st : Store β) (p : Option Nat) : Prop :=
  p ≠ none ∧ ∀ a, Reaches st p a → ∃ c, st[a]? = some c ∧ c.next ≠ none

/-- What an endless pointer leads to is endless. -/
theorem Endless.next (h : Endless st (some a)) (hc : st[a]? = some c) : Endless st c.next := by
  obtain ⟨c', hc', hn⟩ := h.2 a (Reaches.here a)
  rw [hc] at hc'
  cases hc'
  exact ⟨hn, fun b hb => h.2 b (Reaches.next hc hb)⟩

/-- A cell that leads to an endless pointer is endless. -/
theorem Endless.cons (hc : st[a]? = some c) (h : Endless st c.next) : Endless st (some a) := by
  refine ⟨by simp, ?_⟩
  intro b hb
  cases hb with
  | here => exact ⟨c, hc, h.1⟩
  | next hc' hr =>
    rw [hc] at hc'
    cases hc'
    exact h.2 b hr

/-- A list that comes to an end is not endless. -/
theorem Chain.not_endless {l : List (Nat × β)} (h : Chain st p l) : ¬Endless st p := by
  induction h with
  | nil => exact fun hend => hend.1 rfl
  | cons hc _ ih => exact fun hend => ih (hend.next hc)

/-- A pointer from which a last cell is reached heads a finite list. -/
theorem Reaches.chain (h : Reaches st p a) (hc : st[a]? = some c) (hlast : c.next = none) : ∃ l, Chain st p l := by
  induction h with
  | here a => exact ⟨_, Chain.cons hc (hlast ▸ Chain.nil)⟩
  | next hc' _ ih =>
    obtain ⟨l, hl⟩ := ih hc
    exact ⟨_, Chain.cons hc' hl⟩

/-- Following the links comes to an end or goes on for good. -/
theorem chain_or_endless (hcl : ∀ a, Reaches st p a → ∃ c, st[a]? = some c) : (∃ l, Chain st p l) ∨ Endless st p := by
  by_cases hend : Endless st p
  · exact Or.inr hend
  · left
    cases p with
    | none => exact ⟨[], Chain.nil⟩
    | some b =>
      have hnot : ¬∀ a, Reaches st (some b) a → ∃ c, st[a]? = some c ∧ c.next ≠ none := fun hall => hend ⟨by simp, hall⟩
      push Not at hnot
      obtain ⟨a, ha, hlast⟩ := hnot
      obtain ⟨c, hc⟩ := hcl a ha
      exact ha.chain hc (hlast c hc)

/-- Linking a new cell in front of a cell that is made to point to the new one closes a circle. -/
theorem Chain.loop {l₁ l₂ : List (Nat × β)} {q x : Nat × β} (v : β) (h : Chain st p (l₁ ++ q :: x :: l₂)) :
    Endless (setNext (setNext st x.1 (some st.length) ++ [⟨v, some x.1⟩]) q.1 (some st.length)) p := by
  have hnd := h.nodup
  simp only [List.map_append, List.map_cons, List.nodup_append, List.nodup_cons, List.mem_cons, not_or] at hnd
  obtain ⟨-, ⟨⟨hqx, -⟩, -⟩, hl₁⟩ := hnd
  induction l₁ generalizing p with
  | nil =>
    obtain ⟨hp, cq, hcq, -, hrest⟩ := h.head
    obtain ⟨-, cx, hcx, -, -⟩ := hrest.head
    have hqlt := lt_of_get hcq
    have hxlt := lt_of_get hcx
    -- the two cells of the circle and the cell before it
    refine ⟨by simp [hp], ?_⟩
    intro b hb
    have hmem : b = q.1 ∨ b = x.1 ∨ b = st.length := by
      refine hb.of_linked (R := fun b => b = q.1 ∨ b = x.1 ∨ b = st.length) ?_ ?_
      · intro y hy
        rw [hp] at hy
        cases hy
        exact Or.inl rfl
      · rintro a ha c d hc hd
        rw [get_setNext] at hc
        split at hc
        · obtain ⟨c', -, rfl⟩ := Option.map_eq_some_iff.1 hc
          cases hd
          exact Or.inr (Or.inr rfl)
        · rename_i hne
          rw [get_alloc, length_setNext] at hc
          split at hc
          · cases hc
            cases hd
            exact Or.inr (Or.inl rfl)
          · rename_i hne'
            have hax : a = x.1 := by
              rcases ha with ha | ha | ha
              · exact absurd ha hne
              · exact ha
              · exact absurd ha hne'
            rw [get_setNext, if_pos hax] at hc
            obtain ⟨c', -, rfl⟩ := Option.map_eq_some_iff.1 hc
            cases hd
            exact Or.inr (Or.inr rfl)
    rcases hmem with rfl | rfl | rfl
    · refine ⟨{ cq with next := some st.length }, ?_, by simp⟩
      rw [get_setNext, if_pos rfl, get_alloc, if_neg (by simpa using hqlt.ne), get_setNext, if_neg hqx, hcq]
      rfl
    · refine ⟨{ cx with next := some st.length }, ?_, by simp⟩
      rw [get_setNext, if_neg (Ne.symm hqx), get_alloc, if_neg (by simpa using hxlt.ne), get_setNext, if_pos rfl, hcx]
      rfl
    · refine ⟨⟨v, some x.1⟩, ?_, by simp⟩
      rw [get_setNext, if_neg hqlt.ne', get_alloc, if_pos (by simp)]
  | cons hd l₁ ih =>
    obtain ⟨hp, c, hc, -, hrest⟩ := h.head
    have hne := hl₁ hd.1 (by simp)
    have hget : (setNext (setNext st x.1 (some st.length) ++ [⟨v, some x.1⟩]) q.1 (some st.length))[hd.1]? = some c := by
      rw [get_setNext, if_neg (hne q.1 (by simp)), get_alloc, if_neg (by simpa using (lt_of_get hc).ne), get_setNext,
        if_neg (hne x.1 (by simp)), hc]
    rw [hp]
    exact Endless.cons hget (ih hrest fun a ha b hb => hl₁ a (by simp [ha]) b hb)

/-! ## Walking along the links -/

/-- Walk from the address `a`, at most `n` cells, to the first cell that is the last one or whose value stops the walk; `prev`
is the cell passed before. `none` when the walk is still going after `n` cells or meets an address that holds none. -/
def seek (stop : β → Bool) (st : Store β) : Nat → Option Nat → Nat → Option (Option Nat × Nat)
  | 0, _, _ => none
  | n + 1, prev, a =>
    match st[a]? with
    | none => none
    | some c =>
      match c.next with
      | none => some (prev, a)
      | some b => if stop c.val then some (prev, a) else seek stop st n (some a) b

variable {stop : β → Bool} {prev : Option Nat} {n : Nat}

/-- Every address reached from the pointer holds a cell. -/
def Closed (st : Store β) (p : Option Nat) : Prop := ∀ a, Reaches st p a → ∃ c, st[a]? = some c

theorem Closed.next (h : Closed st (some a)) (hc : st[a]? = some c) : Closed st c.next :=
  fun b hb => h b (Reaches.next hc hb)

/-- The walk along a finite list passes the cells that do not stop it and comes to the first that does, or to the last. -/
theorem seek_chain {l : List (Nat × β)} (h : Chain st (some a) l) (hn : l.length ≤ n) :
    ∃ l₁ x l₂, l = l₁ ++ x :: l₂ ∧ seek stop st n prev a = some ((l₁.getLast?.map Prod.fst).or prev, x.1) ∧
      (∀ y ∈ l₁, stop y.2 = false) ∧ (l₂ = [] ∨ stop x.2 = true) := by
  induction l generalizing a n prev with
  | nil => cases h
  | cons hd l ih =>
    cases n with
    | zero => simp at hn
    | succ n =>
      cases h with
      | @cons _ c _ hc hl =>
        cases hnext : c.next with
        | none =>
          rw [hnext] at hl
          cases hl
          exact ⟨[], (a, c.val), [], rfl, by simp [seek, hc, hnext], by simp, Or.inl rfl⟩
        | some b =>
          by_cases hs : stop c.val = true
          · exact ⟨[], (a, c.val), l, rfl, by simp [seek, hc, hnext, hs], by simp, Or.inr hs⟩
          · rw [hnext] at hl
            obtain ⟨l₁, x, l₂, rfl, hseek, hpass, hend⟩ := @ih b (some a) n hl (by simpa using hn)
            refine ⟨(a, c.val) :: l₁, x, l₂, rfl, ?_, ?_, hend⟩
            · simp only [seek, hc, hnext, hs, hseek]
              cases hlast : l₁.getLast? <;> simp [List.getLast?_cons, hlast]
            · intro y hy
              rcases List.mem_cons.1 hy with rfl | hy
              · simpa using hs
              · exact hpass y hy

/-- The cell a walk ends at is reached, and it is the last one or stops the walk; the cell before it, where there is one, is
reached and points to it. -/
theorem seek_spec {p : Option Nat} (h : seek stop st n prev a = some (p, b)) :
    Reaches st (some a) b ∧ (∃ c, st[b]? = some c ∧ (c.next = none ∨ stop c.val = true)) ∧
      (p = prev ∧ b = a ∨ ∃ q c, p = some q ∧ Reaches st (some a) q ∧ st[q]? = some c ∧ c.next = some b) := by
  induction n generalizing a prev with
  | zero => cases h
  | succ n ih =>
    simp only [seek] at h
    split at h
    · cases h
    · rename_i c hc
      split at h
      · rename_i hnext
        cases h
        exact ⟨Reaches.here b, ⟨c, hc, Or.inl hnext⟩, Or.inl ⟨rfl, rfl⟩⟩
      · rename_i d hnext
        split at h
        · rename_i hs
          cases h
          exact ⟨Reaches.here b, ⟨c, hc, Or.inr hs⟩, Or.inl ⟨rfl, rfl⟩⟩
        · obtain ⟨h1, h2, h3⟩ := ih h
          refine ⟨Reaches.next hc (hnext ▸ h1), h2, Or.inr ?_⟩
          rcases h3 with ⟨rfl, rfl⟩ | ⟨q, c', rfl, hq, hc', hb⟩
          · exact ⟨a, c, rfl, Reaches.here a, hc, hnext⟩
          · exact ⟨q, c', rfl, Reaches.next hc (hnext ▸ hq), hc', hb⟩

/-- A walk that starts with a cell passed does not end without one before it. -/
theorem seek_prev_ne_none {q : Nat} {p : Option Nat} (h : seek stop st n (some q) a = some (p, b)) : p ≠ none := by
  obtain ⟨-, -, h⟩ := seek_spec h
  rcases h with ⟨rfl, -⟩ | ⟨_, _, rfl, -⟩ <;> simp

/-- A walk ends with no cell before it only at the cell it starts from. -/
theorem seek_none_eq {p : Option Nat} (h : seek stop st n p a = some (none, b)) : b = a := by
  obtain ⟨-, -, h⟩ := seek_spec h
  rcases h with ⟨-, hb⟩ | ⟨_, _, hq, -⟩
  · exact hb
  · cases hq

/-- A walk from a cell that has another behind it ends there, with none before it, exactly when the cell stops it. -/
theorem seek_first_iff (hc : st[a]? = some c) (hnext : c.next ≠ none) (hn : 0 < n) :
    seek stop st n none a = some (none, a) ↔ stop c.val = true := by
  obtain ⟨n, rfl⟩ := Nat.exists_eq_succ_of_ne_zero (Nat.pos_iff_ne_zero.1 hn)
  obtain ⟨d, hd⟩ := Option.ne_none_iff_exists'.1 hnext
  simp only [seek, hc, hd]
  constructor
  · intro h
    split at h
    · assumption
    · exact absurd rfl (seek_prev_ne_none h)
  · intro hs
    rw [if_pos hs]

/-- What holds of a cell the walk goes past. -/
def Passed (stop : β → Bool) (st : Store β) (a : Nat) : Prop :=
  ∃ c, st[a]? = some c ∧ c.next ≠ none ∧ stop c.val = false

/-- A walk that comes back to a cell it passed goes round for ever. `V` holds the cells passed. -/
theorem passed_of_mem {V : Finset Nat} (ha : a ∈ V) (hpass : ∀ v ∈ V, Passed stop st v)
    (hV : ∀ v ∈ V, ∀ c d, st[v]? = some c → c.next = some d → d ∈ insert a V) :
    ∀ b, Reaches st (some a) b → Passed stop st b := by
  intro b hb
  refine hpass b (hb.of_linked (R := (· ∈ V)) (fun x hx => by cases hx; exact ha) fun v hv c d hc hd => ?_)
  exact (Finset.mem_insert.1 (hV v hv c d hc hd)).elim (fun he => he ▸ ha) id

/-- A walk that is still going after as many cells as the store has goes past every cell it meets. `V` holds the cells passed so
far: either the walk is back at one of them, or there is one more of them. -/
theorem seek_none_aux {V : Finset Nat} (hcard : st.length ≤ n + V.card) (hpass : ∀ v ∈ V, Passed stop st v)
    (hV : ∀ v ∈ V, ∀ c d, st[v]? = some c → c.next = some d → d ∈ insert a V)
    (hcl : Closed st (some a)) (h : seek stop st n prev a = none) :
    ∀ b, Reaches st (some a) b → Passed stop st b := by
  induction n generalizing a prev V with
  | zero =>
    obtain ⟨ca, hca⟩ := hcl a (Reaches.here a)
    have hsub : V ⊆ Finset.range st.length := by
      intro v hv
      obtain ⟨c, hc, -, -⟩ := hpass v hv
      exact Finset.mem_range.2 (lt_of_get hc)
    have hVeq : V = Finset.range st.length :=
      Finset.eq_of_subset_of_card_le hsub (by rw [Finset.card_range]; omega)
    exact passed_of_mem (by rw [hVeq, Finset.mem_range]; exact lt_of_get hca) hpass hV
  | succ n ih =>
    by_cases haV : a ∈ V
    · exact passed_of_mem haV hpass hV
    · obtain ⟨ca, hca⟩ := hcl a (Reaches.here a)
      simp only [seek, hca] at h
      split at h
      · cases h
      · rename_i d hd
        split at h
        · cases h
        · rename_i hs
          have hpa : Passed stop st a := ⟨ca, hca, by simp [hd], by simpa using hs⟩
          have hrest : ∀ b, Reaches st (some d) b → Passed stop st b := by
            refine ih (V := insert a V) ?_ ?_ ?_ (hd ▸ hcl.next hca) h
            · rw [Finset.card_insert_of_notMem haV]
              omega
            · intro v hv
              rcases Finset.mem_insert.1 hv with rfl | hv
              · exact hpa
              · exact hpass v hv
            · intro v hv c e hc he
              rcases Finset.mem_insert.1 hv with rfl | hv
              · rw [hca] at hc
                cases hc
                rw [hd] at he
                cases he
                exact Finset.mem_insert_self _ _
              · exact Finset.mem_insert_of_mem (hV v hv c e hc he)
          intro b hb
          cases hb with
          | here => exact hpa
          | next hc' hr =>
            rw [hca] at hc'
            cases hc'
            exact hrest b (hd ▸ hr)

/-- A walk past cells that all link on and never stop it does not come to an end. -/
theorem seek_of_passed (h : ∀ b, Reaches st (some a) b → Passed stop st b) (n : Nat) (prev : Option Nat) :
    seek stop st n prev a = none := by
  induction n generalizing a prev with
  | zero => rfl
  | succ n ih =>
    obtain ⟨c, hc, hn, hs⟩ := h a (Reaches.here a)
    cases hd : c.next with
    | none => exact absurd hd hn
    | some d =>
      simp only [seek, hc, hd, hs, Bool.false_eq_true, if_false]
      exact ih (fun b hb => h b (Reaches.next hc (hd ▸ hb))) _

/-- As many cells as the store has are enough for every walk that comes to an end: one that does not end by then goes past every
cell it meets. -/
theorem seek_eq_none_iff (hcl : Closed st (some a)) :
    seek stop st st.length prev a = none ↔ ∀ b, Reaches st (some a) b → Passed stop st b :=
  ⟨fun h => seek_none_aux (V := ∅) (by simp) (by simp) (by simp) hcl h, fun h => seek_of_passed h _ _⟩

end Cells
