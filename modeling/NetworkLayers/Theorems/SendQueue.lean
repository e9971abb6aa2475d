import NetworkLayers.Net.SendQueue
import NetworkLayers.Lib.Fifo
import Mathlib.Tactic.IntervalCases

/-!
# The send queue loses, duplicates and reorders nothing

Each unit of a semaphore stands for a place of the ring or for an item in it, in the semaphore itself or with a call that is between
its two operations. So the call that writes is less than a round ahead of the one that reads, and the one that reads is behind all
that is written, though the calls may signal in another order than the one they took their places in.
-/

namespace NetworkLayers

open Transition

/-- The place of the `k`th item inserted, counted from 0. -/
def placeOf (k : Nat) : Nat := k % maxSendWaiting

/-- A call of `wait_list_insert` is between the lock and the unlock of `prod_insert`. -/
def InsertPc.Inserts : InsertPc → Prop
  | .index | .assign _ | .unlock => True
  | .semProd | .lock | .semCons | .done => False

/-- `wait_list_remove` copies an item, or has copied it. -/
def RemovePc.Removes : RemovePc → Prop
  | .copy _ | .index => True
  | .semCons | .semProd => False

instance InsertPc.decidableInserts : ∀ pc : InsertPc, Decidable pc.Inserts
  | .index | .assign _ | .unlock => inferInstanceAs (Decidable True)
  | .semProd | .lock | .semCons | .done => inferInstanceAs (Decidable False)

instance RemovePc.decidableRemoves : ∀ pc : RemovePc, Decidable pc.Removes
  | .copy _ | .index => inferInstanceAs (Decidable True)
  | .semCons | .semProd => inferInstanceAs (Decidable False)

namespace SendQueueAux

/-- The first `k` fields are those of `head`, in the order the assignments set them. -/
structure Assigned (k : Nat) (head e : WaitListItem) : Prop where
  lt : k < waitListAssigns.length
  dest : 0 < k → e.dest = head.dest
  src : 1 < k → e.src = head.src
  data : 2 < k → e.data = head.data
  size : 3 < k → e.size = head.size
  protocol : 4 < k → e.protocol = head.protocol
  firstDestLink : 5 < k → e.firstDestLink = head.firstDestLink
  offset : 6 < k → e.offset = head.offset
  ttl : 7 < k → e.ttl = head.ttl

theorem assigned_zero (head e : WaitListItem) : Assigned 0 head e := by
  constructor <;> simp [waitListAssigns]

/-- One assignment more: there are others to make, or every field is set. -/
theorem Assigned.next {k : Nat} {head e : WaitListItem} (h : Assigned k head e) :
    if k + 1 = waitListAssigns.length then assignField k head e = head else Assigned (k + 1) head (assignField k head e) := by
  obtain ⟨hlt, h0, h1, h2, h3, h4, h5, h6, h7⟩ := h
  rw [show waitListAssigns.length = 9 from rfl] at hlt ⊢
  split
  · obtain rfl : k = 8 := by omega
    obtain ⟨dest, src, data, offset, ttl, size, protocol, id, first⟩ := head
    simp_all [assignField, waitListAssigns]
  · have hk : k < 8 := by omega
    clear hlt
    constructor <;> interval_cases k <;> simp_all [assignField, waitListAssigns]

/-- A call waits for `prod_insert`, its place reserved. -/
def reserved (p : InsertCall) : Bool := p.pc = .lock

/-- A call has its item in the queue and has not said so yet. -/
def signals (p : InsertCall) : Bool := p.pc = .semCons

/-- One for the call that has `prod_insert` locked. -/
def inserting : Option Nat → Nat
  | some _ => 1
  | none => 0

/-- One for the item that is being removed. -/
def removing : RemovePc → Nat
  | .copy _ | .index => 1
  | .semCons | .semProd => 0

/-- One for the place that is not given back yet. -/
def emptied : RemovePc → Nat
  | .semProd => 1
  | .semCons | .copy _ | .index => 0

/-- What a call that has `prod_insert` locked has done: which place it writes, and what is written there. -/
def Writing (q : SendQueue) (p : InsertCall) : Prop :=
  match p.pc with
  | .index => (q.prodVector + 1) % maxSendWaiting = placeOf (q.inserted.length - 1)
  | .assign k => q.prodVector = placeOf (q.inserted.length - 1) ∧ Assigned k p.head (q.waitList q.prodVector)
  | .unlock => q.prodVector = placeOf (q.inserted.length - 1) ∧ q.waitList q.prodVector = p.head
  | .semProd | .lock | .semCons | .done => True

/-- What `wait_list_remove` has copied. -/
def Copied (q : SendQueue) : Prop :=
  match q.removePc with
  | .copy k => Assigned k (q.waitList q.consVector) q.tmp
  | .index => q.tmp = q.waitList q.consVector
  | .semCons | .semProd => True

/-- What holds between two steps. -/
structure Inv (q : SendQueue) : Prop where
  /-- the places: in the semaphore, reserved, with an item, or emptied and not given back -/
  places : q.semProd + q.inserts.countP reserved + q.inserted.length + emptied q.removePc = maxSendWaiting + q.removed.length
  /-- the items written: in the semaphore, not signalled, being removed, or removed -/
  items : q.semCons + q.inserts.countP signals + q.removed.length + removing q.removePc + inserting q.prodInsert = q.inserted.length
  locked : ∀ (i : Nat) (p : InsertCall), q.inserts[i]? = some p → (p.pc.Inserts ↔ q.prodInsert = some i)
  holder : ∀ i, q.prodInsert = some i → i < q.inserts.length
  last : ∀ (i : Nat) (p : InsertCall), q.inserts[i]? = some p → p.pc.Inserts → q.inserted.getLast? = some p.head ∧ Writing q p
  prodIndex : q.prodInsert = none → (q.prodVector + 1) % maxSendWaiting = placeOf q.inserted.length
  consIndex : q.consVector = placeOf q.removed.length
  /-- what is written and not removed is in its place -/
  stored : ∀ j, q.removed.length ≤ j → j + inserting q.prodInsert < q.inserted.length →
    q.inserted[j]? = some (q.waitList (placeOf j))
  copied : Copied q

variable {q q' : SendQueue} {i : Nat} {p : InsertCall}

theorem inv_init : Inv SendQueue.init where
  places := rfl
  items := rfl
  locked := by
    intro i p hp
    cases hp
  holder := by
    intro i hlock
    cases hlock
  last := by
    intro i p hp
    cases hp
  prodIndex := fun _ => rfl
  consIndex := rfl
  stored := by
    intro j _ hj
    exact absurd hj (Nat.not_lt_zero _)
  copied := trivial

/-! ### The steps of a call of wait_list_insert -/

/-- How many calls are of a kind, after one went to its next step. -/
theorem countP_goto (hp : q.inserts[i]? = some p) (pc : InsertPc) (f : InsertCall → Bool) :
    (q.goto i p pc).inserts.countP f + (if f p then 1 else 0) = q.inserts.countP f + (if f { p with pc := pc } then 1 else 0) :=
  Fifo.countP_set_add f hp

/-- As many as before, when it is of the kind there as it was here. -/
theorem countP_goto_same (hp : q.inserts[i]? = some p) {pc : InsertPc} {f : InsertCall → Bool}
    (hf : f { p with pc := pc } = f p) : (q.goto i p pc).inserts.countP f = q.inserts.countP f := by
  have hcount := countP_goto hp pc f
  rw [hf] at hcount
  omega

/-- A call that does not have `prod_insert` goes to its next step without getting it. -/
theorem Inv.outside (hi : Inv q) (hp : q.inserts[i]? = some p) (pc : InsertPc) (semProd semCons : Nat)
    (hpc : ¬p.pc.Inserts) (hpc' : ¬pc.Inserts)
    (hplaces : semProd + (if reserved { p with pc := pc } then 1 else 0) = q.semProd + (if reserved p then 1 else 0))
    (hitems : semCons + (if signals { p with pc := pc } then 1 else 0) = q.semCons + (if signals p then 1 else 0)) :
    Inv ({ q with semProd := semProd, semCons := semCons }.goto i p pc) where
  places := by
    have h := hi.places
    have hcount := countP_goto hp pc reserved
    simp only [SendQueue.goto] at h hcount ⊢
    omega
  items := by
    have h := hi.items
    have hcount := countP_goto hp pc signals
    simp only [SendQueue.goto] at h hcount ⊢
    omega
  locked := Fifo.forall_set (iff_of_false hpc' fun h => hpc ((hi.locked i p hp).2 h)) fun j b _ hb => hi.locked j b hb
  holder := by
    intro j hj
    rw [SendQueue.goto, List.length_set]
    exact hi.holder j hj
  last := Fifo.forall_set (fun h => absurd h hpc') fun j b _ hb => hi.last j b hb
  prodIndex := hi.prodIndex
  consIndex := hi.consIndex
  stored := hi.stored
  copied := hi.copied

/-- The call that has `prod_insert` is the only one. -/
theorem Inv.not_inserts (hi : Inv q) (hp : q.inserts[i]? = some p) (hpc : p.pc.Inserts) {j : Nat} {b : InsertCall}
    (hj : j ≠ i) (hb : q.inserts[j]? = some b) : ¬b.pc.Inserts := by
  intro hins
  have hself := (hi.locked i p hp).1 hpc
  have hother := (hi.locked j b hb).1 hins
  exact hj (Option.some.inj (hother.symm.trans hself))

/-- `prod_insert` is locked. -/
theorem inv_lock (hi : Inv q) (hp : q.inserts[i]? = some p) (hpc : p.pc = .lock) (hfree : q.prodInsert = none) :
    Inv ({ q with prodInsert := some i, inserted := q.inserted ++ [p.head] }.goto i p .index) := by
  have hnot : ∀ (j : Nat) (b : InsertCall), q.inserts[j]? = some b → ¬b.pc.Inserts := by
    intro j b hb hins
    have := (hi.locked j b hb).1 hins
    rw [hfree] at this
    cases this
  have hidle : inserting q.prodInsert = 0 := by rw [hfree]; rfl
  refine ⟨?_, ?_, ?_, ?_, ?_, ?_, hi.consIndex, ?_, hi.copied⟩
  · have h := hi.places
    have hcount := countP_goto hp .index reserved
    simp only [SendQueue.goto, reserved, hpc, decide_true, if_true, List.length_append, List.length_singleton,
      reduceCtorEq, decide_false, Bool.false_eq_true, if_false] at h hcount ⊢
    omega
  · have h := hi.items
    have hcount : (q.goto i p .index).inserts.countP signals = q.inserts.countP signals :=
      countP_goto_same hp (by simp [signals, hpc])
    simp only [SendQueue.goto, hfree, inserting, List.length_append, List.length_singleton] at h hcount ⊢
    omega
  · refine Fifo.forall_set (iff_of_true trivial rfl) fun j b hj hb => iff_of_false (hnot j b hb) ?_
    intro h
    exact hj (Option.some.inj h).symm
  · intro j hj
    obtain rfl := Option.some.inj hj
    rw [SendQueue.goto, List.length_set]
    exact (List.getElem?_eq_some_iff.1 hp).1
  · refine Fifo.forall_set ?_ fun j b _ hb hins => absurd hins (hnot j b hb)
    intro _
    refine ⟨by simp [SendQueue.goto], ?_⟩
    have h := hi.prodIndex hfree
    simpa [Writing, SendQueue.goto] using h
  · intro h
    cases h
  · intro j hle hlt
    have hj : j < q.inserted.length := by
      simpa [SendQueue.goto, inserting] using hlt
    have h := hi.stored j hle (by omega)
    exact (List.getElem?_append_left hj).trans h

/-- The index goes on. -/
theorem inv_index (hi : Inv q) (hp : q.inserts[i]? = some p) (hpc : p.pc = .index) :
    Inv ({ q with prodVector := (q.prodVector + 1) % maxSendWaiting }.goto i p (.assign 0)) := by
  have hins : p.pc.Inserts := by
    rw [hpc]
    trivial
  have hlock := (hi.locked i p hp).1 hins
  obtain ⟨hlast, hwriting⟩ := hi.last i p hp hins
  refine ⟨?_, ?_, ?_, ?_, ?_, ?_, hi.consIndex, hi.stored, hi.copied⟩
  · have h := hi.places
    have hcount : (q.goto i p (.assign 0)).inserts.countP reserved = q.inserts.countP reserved :=
      countP_goto_same hp (by simp [reserved, hpc])
    simp only [SendQueue.goto] at hcount ⊢
    omega
  · have h := hi.items
    have hcount : (q.goto i p (.assign 0)).inserts.countP signals = q.inserts.countP signals :=
      countP_goto_same hp (by simp [signals, hpc])
    simp only [SendQueue.goto] at hcount ⊢
    omega
  · exact Fifo.forall_set (iff_of_true trivial hlock) fun j b _ hb => hi.locked j b hb
  · intro j hj
    rw [SendQueue.goto, List.length_set]
    exact hi.holder j hj
  · refine Fifo.forall_set ?_ fun j b hj hb hother => absurd hother (hi.not_inserts hp hins hj hb)
    intro _
    simp only [Writing, hpc] at hwriting
    exact ⟨hlast, hwriting, assigned_zero _ _⟩
  · intro h
    exact absurd (h.symm.trans hlock) (by simp)

/-- What went in and has not come out has room in the ring. -/
theorem Inv.length_le (hi : Inv q) : q.inserted.length ≤ q.removed.length + maxSendWaiting := by
  have h := hi.places
  omega

/-- The place that is written is not the place of an item that is written and not removed. -/
theorem Inv.placeOf_ne (hi : Inv q) {j : Nat} (hle : q.removed.length ≤ j) (hlt : j + 1 < q.inserted.length) :
    placeOf j ≠ placeOf (q.inserted.length - 1) := by
  have hroom := hi.length_le
  exact Fifo.mod_ne_mod_of_lt (by omega) (by omega)

/-- An item that is being removed is written. -/
theorem Inv.removed_lt (hi : Inv q) (h : q.removePc.Removes) :
    q.removed.length + inserting q.prodInsert < q.inserted.length := by
  have hitems := hi.items
  have hone : removing q.removePc = 1 := by
    cases hpc : q.removePc with
    | copy k => rfl
    | index => rfl
    | semCons | semProd =>
      rw [hpc] at h
      exact h.elim
  omega

/-- A field is set. -/
theorem inv_assign (hi : Inv q) (hp : q.inserts[i]? = some p) {k : Nat} (hpc : p.pc = .assign k) :
    Inv ({ q with waitList := Function.update q.waitList q.prodVector (assignField k p.head (q.waitList q.prodVector)) }.goto
      i p (if k + 1 = waitListAssigns.length then .unlock else .assign (k + 1))) := by
  have hins : p.pc.Inserts := by
    rw [hpc]
    trivial
  have hlock := (hi.locked i p hp).1 hins
  have hone : inserting q.prodInsert = 1 := by
    rw [hlock]
    rfl
  obtain ⟨hlast, hwriting⟩ := hi.last i p hp hins
  simp only [Writing, hpc] at hwriting
  obtain ⟨hplace, hassigned⟩ := hwriting
  have hnext := hassigned.next
  refine ⟨?_, ?_, ?_, ?_, ?_, ?_, hi.consIndex, ?_, ?_⟩
  · have h := hi.places
    have hcount : (q.goto i p (if k + 1 = waitListAssigns.length then .unlock else .assign (k + 1))).inserts.countP reserved =
        q.inserts.countP reserved := by
      refine countP_goto_same hp ?_
      split <;> simp [reserved, hpc]
    simp only [SendQueue.goto] at hcount ⊢
    omega
  · have h := hi.items
    have hcount : (q.goto i p (if k + 1 = waitListAssigns.length then .unlock else .assign (k + 1))).inserts.countP signals =
        q.inserts.countP signals := by
      refine countP_goto_same hp ?_
      split <;> simp [signals, hpc]
    simp only [SendQueue.goto] at hcount ⊢
    omega
  · refine Fifo.forall_set (iff_of_true ?_ hlock) fun j b _ hb => hi.locked j b hb
    split <;> trivial
  · intro j hj
    rw [SendQueue.goto, List.length_set]
    exact hi.holder j hj
  · refine Fifo.forall_set ?_ fun j b hj hb hother => absurd hother (hi.not_inserts hp hins hj hb)
    intro _
    refine ⟨hlast, ?_⟩
    split at hnext
    · rename_i hend
      simp only [if_pos hend, Writing]
      refine ⟨hplace, ?_⟩
      simpa [SendQueue.goto] using hnext
    · rename_i hmore
      simp only [if_neg hmore, Writing]
      refine ⟨hplace, ?_⟩
      simpa [SendQueue.goto] using hnext
  · intro h
    exact absurd (h.symm.trans hlock) (by simp)
  · intro j hle hlt
    have hlt' : j + 1 < q.inserted.length := by
      simpa only [SendQueue.goto, hone] using hlt
    have hne : placeOf j ≠ q.prodVector := by
      rw [hplace]
      exact hi.placeOf_ne hle hlt'
    simp only [SendQueue.goto, Function.update_of_ne hne]
    exact hi.stored j hle hlt
  · have hcopied := hi.copied
    by_cases hrem : q.removePc.Removes
    · have hlt := hi.removed_lt hrem
      have hne : q.consVector ≠ q.prodVector := by
        rw [hplace, hi.consIndex]
        exact hi.placeOf_ne le_rfl (by omega)
      simpa only [Copied, SendQueue.goto, Function.update_of_ne hne] using hcopied
    · simp only [Copied, SendQueue.goto]
      split
      · rename_i hr
        rw [hr] at hrem
        exact absurd trivial hrem
      · rename_i hr
        rw [hr] at hrem
        exact absurd trivial hrem
      · trivial
      · trivial

/-- `prod_insert` is unlocked, the item in its place. -/
theorem inv_unlock (hi : Inv q) (hp : q.inserts[i]? = some p) (hpc : p.pc = .unlock) :
    Inv ({ q with prodInsert := none }.goto i p .semCons) := by
  have hins : p.pc.Inserts := by
    rw [hpc]
    trivial
  have hlock := (hi.locked i p hp).1 hins
  obtain ⟨hlast, hwriting⟩ := hi.last i p hp hins
  simp only [Writing, hpc] at hwriting
  obtain ⟨hplace, hwritten⟩ := hwriting
  have hpos : 0 < q.inserted.length := by
    rw [List.length_pos_iff]
    rintro hnil
    simp [hnil] at hlast
  refine ⟨?_, ?_, ?_, ?_, ?_, ?_, hi.consIndex, ?_, hi.copied⟩
  · have h := hi.places
    have hcount : (q.goto i p .semCons).inserts.countP reserved = q.inserts.countP reserved :=
      countP_goto_same hp (by simp [reserved, hpc])
    simp only [SendQueue.goto] at hcount ⊢
    omega
  · have h := hi.items
    have hcount := countP_goto hp .semCons signals
    simp only [SendQueue.goto, signals, hpc, hlock, inserting, reduceCtorEq, decide_false, decide_true, Bool.false_eq_true,
      if_false, if_true] at h hcount ⊢
    omega
  · refine Fifo.forall_set (iff_of_false not_false (by simp [SendQueue.goto])) fun j b hj hb => ?_
    exact iff_of_false (hi.not_inserts hp hins hj hb) (by simp [SendQueue.goto])
  · intro j hj
    cases hj
  · exact Fifo.forall_set (fun h => h.elim) fun j b hj hb hother => absurd hother (hi.not_inserts hp hins hj hb)
  · intro _
    simp only [SendQueue.goto]
    rw [hplace, placeOf, Fifo.mod_succ_mod, Nat.sub_add_cancel hpos, placeOf]
  · intro j hle hlt
    have hlt' : j < q.inserted.length := hlt
    by_cases hj : j + 1 < q.inserted.length
    · exact hi.stored j hle (by rw [hlock]; exact hj)
    · obtain rfl : j = q.inserted.length - 1 := by omega
      simp only [SendQueue.goto]
      rw [← hplace, hwritten, ← List.getLast?_eq_getElem?]
      exact hlast

/-! ### The steps of wait_list_remove -/

theorem inv_remove_semCons (hi : Inv q) (hpc : q.removePc = .semCons) (hpos : q.semCons ≠ 0) :
    Inv { q with semCons := q.semCons - 1, removePc := .copy 0 } where
  places := by simpa only [hpc, emptied] using hi.places
  items := by
    have h := hi.items
    simp only [hpc, removing] at h ⊢
    omega
  locked := hi.locked
  holder := hi.holder
  last := hi.last
  prodIndex := hi.prodIndex
  consIndex := hi.consIndex
  stored := hi.stored
  copied := assigned_zero _ _

theorem inv_remove_copy (hi : Inv q) {k : Nat} (hpc : q.removePc = .copy k) :
    Inv { q with
      tmp := assignField k (q.waitList q.consVector) q.tmp
      removePc := if k + 1 = waitListAssigns.length then .index else .copy (k + 1) } where
  places := by
    have h := hi.places
    simp only [hpc, emptied] at h
    split <;> exact h
  items := by
    have h := hi.items
    simp only [hpc, removing] at h
    split <;> exact h
  locked := hi.locked
  holder := hi.holder
  last := hi.last
  prodIndex := hi.prodIndex
  consIndex := hi.consIndex
  stored := hi.stored
  copied := by
    have h := hi.copied
    simp only [Copied, hpc] at h
    have hnext := h.next
    split at hnext
    · rename_i hend
      simpa only [Copied, if_pos hend] using hnext
    · rename_i hmore
      simpa only [Copied, if_neg hmore] using hnext

theorem inv_remove_index (hi : Inv q) (hpc : q.removePc = .index) :
    Inv { q with
      consVector := (q.consVector + 1) % maxSendWaiting
      removed := q.removed ++ [q.tmp]
      removePc := .semProd } where
  places := by
    have h := hi.places
    simp only [hpc, emptied, List.length_append, List.length_singleton] at h ⊢
    omega
  items := by
    have h := hi.items
    simp only [hpc, removing, List.length_append, List.length_singleton] at h ⊢
    omega
  locked := hi.locked
  holder := hi.holder
  last := hi.last
  prodIndex := hi.prodIndex
  consIndex := by
    simp only [List.length_append, List.length_singleton]
    rw [hi.consIndex, placeOf, Fifo.mod_succ_mod, placeOf]
  stored := by
    intro j hle hlt
    rw [List.length_append] at hle
    exact hi.stored j (by omega) hlt
  copied := trivial

theorem inv_remove_semProd (hi : Inv q) (hpc : q.removePc = .semProd) :
    Inv { q with semProd := q.semProd + 1, removePc := .semCons } where
  places := by
    have h := hi.places
    simp only [hpc, emptied] at h ⊢
    omega
  items := by simpa only [hpc, removing] using hi.items
  locked := hi.locked
  holder := hi.holder
  last := hi.last
  prodIndex := hi.prodIndex
  consIndex := hi.consIndex
  stored := hi.stored
  copied := trivial

/-! ### A step -/

/-- A new call has no place yet. -/
theorem inv_call (hi : Inv q) (head : WaitListItem) :
    Inv { q with inserts := q.inserts ++ [{ pc := .semProd, head := head }] } := by
  refine ⟨?_, ?_, ?_, ?_, ?_, hi.prodIndex, hi.consIndex, hi.stored, hi.copied⟩
  · simpa [List.countP_append, reserved] using hi.places
  · simpa [List.countP_append, signals] using hi.items
  · refine Fifo.forall_concat hi.locked (iff_of_false not_false fun h => ?_)
    exact absurd (hi.holder _ h) (lt_irrefl _)
  · intro i h
    rw [List.length_append]
    exact Nat.lt_succ_of_lt (hi.holder i h)
  · exact Fifo.forall_concat hi.last fun h => h.elim

theorem inv_insert (hi : Inv q) (hp : q.inserts[i]? = some p) (hs : q.waitListInsert i p = some q') : Inv q' := by
  unfold SendQueue.waitListInsert at hs
  cases hpc : p.pc with
  | semProd =>
    simp only [hpc] at hs
    split at hs
    · cases hs
    · obtain rfl := Option.some.inj hs
      refine hi.outside hp .lock (q.semProd - 1) q.semCons ?_ not_false ?_ ?_
      · rw [hpc]
        exact not_false
      · simp only [reserved, hpc, decide_true, if_true, reduceCtorEq, decide_false, Bool.false_eq_true, if_false]
        omega
      · simp only [signals, hpc, reduceCtorEq, decide_false]
  | lock =>
    simp only [hpc] at hs
    split at hs
    · cases hs
    · rename_i hfree
      obtain rfl := Option.some.inj hs
      exact inv_lock hi hp hpc (by simpa using hfree)
  | index =>
    simp only [hpc] at hs
    obtain rfl := Option.some.inj hs
    exact inv_index hi hp hpc
  | assign k =>
    simp only [hpc] at hs
    obtain rfl := Option.some.inj hs
    exact inv_assign hi hp hpc
  | unlock =>
    simp only [hpc] at hs
    obtain rfl := Option.some.inj hs
    exact inv_unlock hi hp hpc
  | semCons =>
    simp only [hpc] at hs
    obtain rfl := Option.some.inj hs
    refine hi.outside hp .done q.semProd (q.semCons + 1) ?_ not_false ?_ ?_
    · rw [hpc]
      exact not_false
    · simp only [reserved, hpc, reduceCtorEq, decide_false]
    · simp only [signals, hpc, decide_true, if_true, reduceCtorEq, decide_false, Bool.false_eq_true, if_false]
  | done =>
    simp only [hpc] at hs
    cases hs

theorem inv_remove (hi : Inv q) (hs : q.waitListRemove = some q') : Inv q' := by
  unfold SendQueue.waitListRemove at hs
  cases hpc : q.removePc with
  | semCons =>
    simp only [hpc] at hs
    split at hs
    · cases hs
    · rename_i hpos
      obtain rfl := Option.some.inj hs
      exact inv_remove_semCons hi hpc hpos
  | copy k =>
    simp only [hpc] at hs
    obtain rfl := Option.some.inj hs
    exact inv_remove_copy hi hpc
  | index =>
    simp only [hpc] at hs
    obtain rfl := Option.some.inj hs
    exact inv_remove_index hi hpc
  | semProd =>
    simp only [hpc] at hs
    obtain rfl := Option.some.inj hs
    exact inv_remove_semProd hi hpc

theorem inv_step {act : QueueAction} (hi : Inv q) (hs : q.step act = some q') : Inv q' := by
  cases act with
  | call head =>
    obtain rfl := Option.some.inj hs
    exact inv_call hi head
  | insert i =>
    obtain ⟨p, hp, hs⟩ := Option.bind_eq_some_iff.1 hs
    exact inv_insert hi hp hs
  | remove => exact inv_remove hi hs

theorem inv_reach (h : Reach SendQueue.step anyStep SendQueue.init q) : Inv q :=
  h.invariant inv_init fun _ _ _ hi _ hs => inv_step hi hs

/-! ### The queue it is -/

/-- The next item to come out is the one that was copied. -/
theorem Inv.removed_getElem (hi : Inv q) (h : q.removePc.Removes) :
    q.inserted[q.removed.length]? = some (q.waitList q.consVector) := by
  rw [hi.consIndex]
  exact hi.stored _ le_rfl (hi.removed_lt h)

/-- The queue of so many places that has taken in and given out what the send queue has. -/
def Shows (q : SendQueue) (f : Fifo maxSendWaiting WaitListItem) : Prop :=
  Inv q ∧ f.inserted = q.inserted ∧ f.removed = q.removed

/-- Locking `prod_insert` puts an item in, moving `cons_vector` takes one out, and nothing else does. -/
theorem shows_step {act : QueueAction} {f : Fifo maxSendWaiting WaitListItem} (h : Shows q f) (hs : q.step act = some q') :
    Shows q' f ∨ ∃ op f', f.step op = some f' ∧ Shows q' f' := by
  obtain ⟨hi, hins, hrem⟩ := h
  have hi' := inv_step hi hs
  cases act with
  | call head =>
    obtain rfl := Option.some.inj hs
    exact Or.inl ⟨hi', hins, hrem⟩
  | insert i =>
    obtain ⟨p, hp, hs⟩ := Option.bind_eq_some_iff.1 hs
    unfold SendQueue.waitListInsert at hs
    cases hpc : p.pc with
    | lock =>
      simp only [hpc] at hs
      split at hs
      · cases hs
      · obtain rfl := Option.some.inj hs
        have hcount : 0 < q.inserts.countP reserved :=
          List.countP_pos_iff.2 ⟨p, List.mem_of_getElem? hp, by simp [reserved, hpc]⟩
        have hroom : f.inserted.length < f.removed.length + maxSendWaiting := by
          have h := hi.places
          rw [hins, hrem]
          omega
        refine Or.inr ⟨.insert p.head, f.insert p.head hroom, Fifo.step_insert hroom, hi', ?_, hrem⟩
        simp [Fifo.insert, SendQueue.goto, hins]
    | semProd =>
      simp only [hpc] at hs
      split at hs
      · cases hs
      · obtain rfl := Option.some.inj hs
        exact Or.inl ⟨hi', hins, hrem⟩
    | index | assign k | unlock | semCons =>
      simp only [hpc] at hs
      obtain rfl := Option.some.inj hs
      exact Or.inl ⟨hi', hins, hrem⟩
    | done =>
      simp only [hpc] at hs
      cases hs
  | remove =>
    replace hs : q.waitListRemove = some q' := hs
    unfold SendQueue.waitListRemove at hs
    cases hpc : q.removePc with
    | semCons =>
      simp only [hpc] at hs
      split at hs
      · cases hs
      · obtain rfl := Option.some.inj hs
        exact Or.inl ⟨hi', hins, hrem⟩
    | copy k =>
      simp only [hpc] at hs
      obtain rfl := Option.some.inj hs
      exact Or.inl ⟨hi', hins, hrem⟩
    | index =>
      simp only [hpc] at hs
      obtain rfl := Option.some.inj hs
      have hremoves : q.removePc.Removes := by
        rw [hpc]
        trivial
      have hcopied : q.tmp = q.waitList q.consVector := by
        simpa only [Copied, hpc] using hi.copied
      have hnext : f.inserted[f.removed.length]? = some q.tmp := by
        rw [hins, hrem, hcopied]
        exact hi.removed_getElem hremoves
      obtain ⟨hlt, hget⟩ := List.getElem?_eq_some_iff.1 hnext
      refine Or.inr ⟨.remove, f.remove hlt, Fifo.step_remove hlt, hi', hins, ?_⟩
      change f.removed ++ [f.inserted[f.removed.length]] = q.removed ++ [q.tmp]
      rw [hget, hrem]
    | semProd =>
      simp only [hpc] at hs
      obtain rfl := Option.some.inj hs
      exact Or.inl ⟨hi', hins, hrem⟩

end SendQueueAux

/-- The send queue is a queue of `MAX_SEND_WAITING` places: every run of the threads is a run of such a queue. -/
theorem send_queue_refines {q : SendQueue} (h : Reach SendQueue.step anyStep SendQueue.init q) :
    ∃ f : Fifo maxSendWaiting WaitListItem, Reach Fifo.step anyStep Fifo.empty f ∧ f.inserted = q.inserted ∧
      f.removed = q.removed := by
  have h0 : SendQueueAux.Shows SendQueue.init Fifo.empty := ⟨SendQueueAux.inv_init, rfl, rfl⟩
  obtain ⟨f, hf, _, hins, hrem⟩ := h.simulate h0 fun _ _ _ _ hrel _ hs => SendQueueAux.shows_step hrel hs
  exact ⟨f, hf, hins, hrem⟩

/-- What a send queue owes to the threads around it. -/
structure SendQueue.Exact (q : SendQueue) : Prop where
  /-- nothing is lost, duplicated or reordered -/
  order : q.removed <+: q.inserted
  present : q.inserted.length ≤ q.removed.length + maxSendWaiting
  /-- the place a call writes is the one of its own item, the last one in, and of no item still to come out -/
  writes : ∀ (i : Nat) (p : InsertCall) (k : Nat), q.inserts[i]? = some p → p.pc = .assign k →
    q.inserted.getLast? = some p.head ∧ q.prodVector = placeOf (q.inserted.length - 1) ∧
      ∀ j, q.removed.length ≤ j → j + 1 < q.inserted.length → placeOf j ≠ q.prodVector
  /-- the place that is read holds the next item to come out, whole, and nobody writes it -/
  reads : q.removePc.Removes → q.inserted[q.removed.length]? = some (q.waitList q.consVector) ∧
    ∀ (i : Nat) (p : InsertCall) (k : Nat), q.inserts[i]? = some p → p.pc = .assign k → q.prodVector ≠ q.consVector
  /-- an item still to come out is in its place, but for the one that is being written -/
  stored : ∀ j, q.removed.length ≤ j → (q.prodInsert.isSome → j + 1 < q.inserted.length) → j < q.inserted.length →
    q.inserted[j]? = some (q.waitList (placeOf j))

/-- Over every interleaving of any number of calls of `wait_list_insert` with `wait_list_remove`, the send queue loses, duplicates
and reorders nothing. -/
theorem send_queue_exact {q : SendQueue} (h : Reach SendQueue.step anyStep SendQueue.init q) : q.Exact := by
  have hi := SendQueueAux.inv_reach h
  obtain ⟨f, _, hins, hrem⟩ := send_queue_refines h
  have hwrites : ∀ (i : Nat) (p : InsertCall) (k : Nat), q.inserts[i]? = some p → p.pc = .assign k →
      q.inserted.getLast? = some p.head ∧ q.prodVector = placeOf (q.inserted.length - 1) := by
    intro i p k hp hpc
    obtain ⟨hlast, hwriting⟩ := hi.last i p hp (by rw [hpc]; trivial)
    simp only [SendQueueAux.Writing, hpc] at hwriting
    exact ⟨hlast, hwriting.1⟩
  refine ⟨?_, hi.length_le, ?_, ?_, ?_⟩
  · rw [← hins, ← hrem]
    exact f.removed_prefix
  · intro i p k hp hpc
    obtain ⟨hlast, hplace⟩ := hwrites i p k hp hpc
    refine ⟨hlast, hplace, fun j hle hlt => ?_⟩
    rw [hplace]
    exact hi.placeOf_ne hle hlt
  · intro hremoves
    refine ⟨hi.removed_getElem hremoves, fun i p k hp hpc => ?_⟩
    have hlock := (hi.locked i p hp).1 (by rw [hpc]; trivial)
    have hlt := hi.removed_lt hremoves
    rw [hlock, SendQueueAux.inserting] at hlt
    rw [(hwrites i p k hp hpc).2, hi.consIndex]
    exact (hi.placeOf_ne le_rfl hlt).symm
  · intro j hle hnot hlt
    refine hi.stored j hle ?_
    cases hm : q.prodInsert with
    | none => exact hlt
    | some i => exact hnot (by rw [hm]; rfl)

/-- Two calls, of which the second is the first to lock `prod_insert` and the first is the first to signal; one item is removed. -/
def crossedCalls : List QueueAction :=
  [.call { emptyItem with dest := 1 }, .call { emptyItem with dest := 2 }] ++ [.insert 0, .insert 1] ++
    List.replicate 12 (.insert 1) ++ List.replicate 13 (.insert 0) ++ List.replicate 11 .remove

/-- The item of the call that locked `prod_insert` first comes out, on the signal of the other. -/
theorem crossed_calls_exact : ∃ q, exec SendQueue.step SendQueue.init crossedCalls = some q ∧
    q.removed.map WaitListItem.dest = [2] ∧ q.Exact := by
  have hrun : (exec SendQueue.step SendQueue.init crossedCalls).map (fun q => q.removed.map WaitListItem.dest) = some [2] := by
    decide +kernel
  obtain ⟨q, hq, hremoved⟩ := Option.map_eq_some_iff.1 hrun
  exact ⟨q, hq, hremoved, send_queue_exact (reach_anyStep_of_exec hq)⟩

end NetworkLayers
