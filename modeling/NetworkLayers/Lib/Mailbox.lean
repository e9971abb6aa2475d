import NetworkLayers.Lib.Fifo

/-!
# A slot that is handed over through two locks

The one that writes waits for the first lock and unlocks the second, the one that reads waits for the second and unlocks the first:
no lock is unlocked by the one that locked it. At any time the slot is nobody's to write, somebody's, the reader's to take, or the
reader's.
-/

/-- A slot, whether its two locks are locked, and beside them what was written in it and what was read from it. -/
structure Mailbox (α β : Type*) where
  prod : Bool
  cons : Bool
  slot : α
  written : List α
  read : List β

namespace Mailbox

variable {α β ι : Type*}

/-- The lock of the one that writes is free, the lock of the one that reads is locked. -/
def init (a : α) : Mailbox α β := { prod := false, cons := true, slot := a, written := [], read := [] }

def lockProd (m : Mailbox α β) : Option (Mailbox α β) := if m.prod then none else some { m with prod := true }

/-- A part of the slot is set. -/
def put (m : Mailbox α β) (f : α → α) : Mailbox α β := { m with slot := f m.slot }

/-- The message `a` is written. -/
def unlockCons (m : Mailbox α β) (a : α) : Mailbox α β := { m with cons := false, written := m.written ++ [a] }

def lockCons (m : Mailbox α β) : Option (Mailbox α β) := if m.cons then none else some { m with cons := true }

/-- What was read of a message is `b`. -/
def unlockProd (m : Mailbox α β) (b : β) : Mailbox α β := { m with prod := false, read := m.read ++ [b] }

/-- What comes out of a mailbox is what was written, in order, as far as it was read. -/
def Passes (view : α → β) (m : Mailbox α β) : Prop := m.read <+: m.written.map view

/-- The slot is the same after a step, or all that was written was read before. -/
def Keeps (view : α → β) (m m' : Mailbox α β) : Prop := m'.slot = m.slot ∨ m.read = m.written.map view

/-- Whose the slot is, of those that write and the one that reads, and what is in it. `view` is what is read of a message. -/
inductive Owned (view : α → β) (m : Mailbox α β) (writes : ι → Prop) (reads : Prop) : Prop where
  | free (hprod : m.prod = false) (hcons : m.cons = true) (hw : ∀ i, ¬writes i) (hr : ¬reads)
      (hread : m.read = m.written.map view)
  | writing (i : ι) (hprod : m.prod = true) (hcons : m.cons = true) (hw : ∀ j, writes j ↔ j = i) (hr : ¬reads)
      (hread : m.read = m.written.map view)
  | full (rest : List α) (hprod : m.prod = true) (hcons : m.cons = false) (hw : ∀ i, ¬writes i) (hr : ¬reads)
      (hwritten : m.written = rest ++ [m.slot]) (hread : m.read = rest.map view)
  | reading (rest : List α) (hprod : m.prod = true) (hcons : m.cons = true) (hw : ∀ i, ¬writes i) (hr : reads)
      (hwritten : m.written = rest ++ [m.slot]) (hread : m.read = rest.map view)

/-- Locking leaves all but the lock. -/
theorem eq_of_lockCons {m m' : Mailbox α β} (h : m.lockCons = some m') : m' = { m with cons := true } := by
  unfold Mailbox.lockCons at h
  split at h
  · cases h
  · exact (Option.some.inj h).symm

theorem eq_of_lockProd {m m' : Mailbox α β} (h : m.lockProd = some m') : m' = { m with prod := true } := by
  unfold Mailbox.lockProd at h
  split at h
  · cases h
  · exact (Option.some.inj h).symm

theorem slot_of_lockProd {m m' : Mailbox α β} (h : m.lockProd = some m') : m'.slot = m.slot := by
  rw [eq_of_lockProd h]

theorem slot_of_lockCons {m m' : Mailbox α β} (h : m.lockCons = some m') : m'.slot = m.slot := by
  rw [eq_of_lockCons h]

variable {view : α → β} {m m' : Mailbox α β} {writes writes' : ι → Prop} {reads reads' : Prop} {i : ι}

theorem owned_init {a : α} (hw : ∀ i, ¬writes i) (hr : ¬reads) : Owned view (init a) writes reads :=
  .free rfl rfl hw hr rfl

theorem Owned.congr (h : Owned view m writes reads) (hw' : ∀ i, writes' i ↔ writes i) (hr' : reads' ↔ reads) :
    Owned view m writes' reads' := by
  obtain rfl : writes' = writes := funext fun i => propext (hw' i)
  obtain rfl : reads' = reads := propext hr'
  exact h

/-- Nobody writes while the lock of the ones that write is free. -/
theorem Owned.of_lockProd (h : Owned view m writes reads) (hs : m.lockProd = some m') :
    m' = { m with prod := true } ∧ m.cons = true ∧ (∀ i, ¬writes i) ∧ ¬reads ∧ m.read = m.written.map view := by
  unfold Mailbox.lockProd at hs
  split at hs
  · cases hs
  · rename_i hfree
    obtain rfl := Option.some.inj hs
    cases h with
    | free hprod hcons hw hr hread => exact ⟨rfl, hcons, hw, hr, hread⟩
    | writing _ hprod | full _ hprod | reading _ hprod => exact absurd hprod hfree

/-- The lock of the ones that write goes to one of them. -/
theorem Owned.lockProd (h : Owned view m writes reads) (hs : m.lockProd = some m') (i : ι) (hw' : ∀ j, writes' j ↔ j = i) :
    Owned view m' writes' reads := by
  obtain ⟨rfl, hcons, -, hr, hread⟩ := h.of_lockProd hs
  exact .writing i rfl hcons hw' hr hread

/-- What is written is written while nothing is unread. -/
theorem Owned.of_writes (h : Owned view m writes reads) (hi : writes i) :
    m.prod = true ∧ m.cons = true ∧ (∀ j, writes j ↔ j = i) ∧ ¬reads ∧ m.read = m.written.map view := by
  cases h with
  | writing j hprod hcons hw hr hread =>
    obtain rfl := (hw i).1 hi
    exact ⟨hprod, hcons, hw, hr, hread⟩
  | free _ _ hw | full _ _ _ hw | reading _ _ _ hw => exact absurd hi (hw i)

/-- What is read is the last that was written, and nobody writes. -/
theorem Owned.of_reads (h : Owned view m writes reads) (hr : reads) :
    m.prod = true ∧ m.cons = true ∧ (∀ i, ¬writes i) ∧
      ∃ rest, m.written = rest ++ [m.slot] ∧ m.read = rest.map view := by
  cases h with
  | reading rest hprod hcons hw _ hwritten hread => exact ⟨hprod, hcons, hw, rest, hwritten, hread⟩
  | free _ _ _ hno | writing _ _ _ _ hno | full _ _ _ _ hno => exact absurd hr hno

theorem Owned.put (h : Owned view m writes reads) (hi : writes i) (f : α → α) : Owned view (m.put f) writes reads := by
  obtain ⟨hprod, hcons, hw, hr, hread⟩ := h.of_writes hi
  exact .writing i hprod hcons hw hr hread

/-- The message is complete and is left to the one that reads. -/
theorem Owned.unlockCons (h : Owned view m writes reads) (hi : writes i) {a : α} (ha : m.slot = a)
    (hw' : ∀ j, ¬writes' j) : Owned view (m.unlockCons a) writes' reads := by
  obtain ⟨hprod, -, -, hr, hread⟩ := h.of_writes hi
  subst ha
  exact .full m.written hprod rfl hw' hr rfl hread

theorem Owned.lockCons (h : Owned view m writes reads) (hs : m.lockCons = some m') (hr' : reads') :
    Owned view m' writes reads' := by
  unfold Mailbox.lockCons at hs
  split at hs
  · cases hs
  · rename_i hfree
    obtain rfl := Option.some.inj hs
    cases h with
    | full rest hprod hcons hw hr hwritten hread => exact .reading rest hprod rfl hw hr' hwritten hread
    | free _ hcons | writing _ _ hcons | reading _ _ hcons => exact absurd hcons hfree

/-- The message is read and the slot is left to those that write. -/
theorem Owned.unlockProd (h : Owned view m writes reads) (hr : reads) {b : β} (hb : b = view m.slot) (hr' : ¬reads') :
    Owned view (m.unlockProd b) writes reads' := by
  obtain ⟨-, hcons, hw, rest, hwritten, hread⟩ := h.of_reads hr
  refine .free rfl hcons hw hr' ?_
  simp [Mailbox.unlockProd, hwritten, hread, hb]

/-- The slot is a queue of one place. -/
theorem Owned.fifo (h : Owned view m writes reads) :
    ∃ f : Fifo 1 β, f.inserted = m.written.map view ∧ f.removed = m.read := by
  have hlast : ∀ rest : List α, m.written = rest ++ [m.slot] → m.read = rest.map view →
      ∃ f : Fifo 1 β, f.inserted = m.written.map view ∧ f.removed = m.read := by
    intro rest hwritten hread
    refine ⟨⟨m.written.map view, m.read, ?_, ?_⟩, rfl, rfl⟩
    · rw [hwritten, hread, List.map_append]
      exact List.prefix_append _ _
    · simp [hwritten, hread]
  have hall : m.read = m.written.map view → ∃ f : Fifo 1 β, f.inserted = m.written.map view ∧ f.removed = m.read := by
    intro hread
    refine ⟨⟨m.written.map view, m.read, ?_, ?_⟩, rfl, rfl⟩
    · rw [hread]
    · rw [hread]
      exact Nat.le_succ _
  cases h with
  | free _ _ _ _ hread => exact hall hread
  | writing _ _ _ _ _ hread => exact hall hread
  | full rest _ _ _ _ hwritten hread => exact hlast rest hwritten hread
  | reading rest _ _ _ _ hwritten hread => exact hlast rest hwritten hread

/-- It passes what is written on. -/
theorem Owned.passes (h : Owned view m writes reads) : m.Passes view := by
  obtain ⟨f, hins, hrem⟩ := h.fifo
  rw [Passes, ← hins, ← hrem]
  exact f.removed_prefix

/-- A slot that only changes while it is written keeps what is unread. -/
theorem Owned.keeps (h : Owned view m writes reads) (i : ι) (hslot : ¬writes i → m'.slot = m.slot) : m.Keeps view m' := by
  by_cases hw : writes i
  · exact Or.inr (h.of_writes hw).2.2.2.2
  · exact Or.inl (hslot hw)

end Mailbox
