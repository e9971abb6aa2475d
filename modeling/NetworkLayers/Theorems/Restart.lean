import NetworkLayers.Theorems.SendQueue

/-!
# The semaphores of the send queue outlive the process

`net_init` gets the two semaphores of the queue by their key and adds `MAX_SEND_WAITING` to the first. Neither is set to a value and
none is ever removed, so that a node which is started again on the same machine finds what the last process has left in them, and an
empty `wait_list`.
-/

namespace NetworkLayers

open Transition

/-- The queue after `net_init` of a process that finds the semaphores as the one before has left them. -/
def SendQueue.restart (q : SendQueue) : SendQueue :=
  { SendQueue.init with semProd := q.semProd + maxSendWaiting, semCons := q.semCons }

namespace RestartAux

variable {q q' : SendQueue} {i : Nat} {head : WaitListItem}

/-- What a call leaves as it is on its way from one step to another. -/
structure Going (i : Nat) (head : WaitListItem) (pc : InsertPc) (q q' : SendQueue) : Prop where
  reach : Reach SendQueue.step anyStep q q'
  call : q'.inserts[i]? = some { pc := pc, head := head }
  semProd : q'.semProd = q.semProd
  inserted : q'.inserted = q.inserted
  removed : q'.removed = q.removed

/-- A step of a call that is there. -/
theorem reach_insert {pc : InsertPc} (hp : q.inserts[i]? = some { pc := pc, head := head })
    (hs : q.waitListInsert i { pc := pc, head := head } = some q') : Reach SendQueue.step anyStep q q' := by
  refine Reach.step (.insert i) Reach.refl trivial ?_
  rw [SendQueue.step, hp]
  exact hs

theorem goto_getElem? {p : InsertCall} (hp : q.inserts[i]? = some p) (pc : InsertPc) :
    (q.goto i p pc).inserts[i]? = some { pc := pc, head := p.head } := by
  have hlt := (List.getElem?_eq_some_iff.1 hp).1
  simp [SendQueue.goto, hlt]

/-- The assignments, from the `k`th on. -/
theorem going_assign (n k : Nat) (hk : k + n + 1 = waitListAssigns.length)
    (hp : q.inserts[i]? = some { pc := .assign k, head := head }) : ∃ q', Going i head .unlock q q' := by
  induction n generalizing q k with
  | zero =>
    have hlast : k + 1 = waitListAssigns.length := hk
    refine ⟨_, reach_insert hp rfl, ?_, rfl, rfl, rfl⟩
    rw [goto_getElem? (by exact hp), if_pos hlast]
  | succ n ih =>
    have hmore : k + 1 ≠ waitListAssigns.length := by omega
    obtain ⟨q', hgo⟩ := ih (q := { q with
        waitList := Function.update q.waitList q.prodVector (assignField k head (q.waitList q.prodVector)) }.goto i
          { pc := .assign k, head := head } (.assign (k + 1))) (k + 1) (by omega) (goto_getElem? (by exact hp) _)
    refine ⟨q', (reach_insert hp ?_).trans hgo.reach, hgo.call, hgo.semProd, hgo.inserted, hgo.removed⟩
    simp only [SendQueue.waitListInsert, if_neg hmore]

/-- While there is a unit in `g_sem_prod`, a call puts its item in the queue. -/
theorem insert_one (hprod : 0 < q.semProd) (hlock : q.prodInsert = none) (head : WaitListItem) :
    ∃ q', Reach SendQueue.step anyStep q q' ∧ q'.semProd = q.semProd - 1 ∧ q'.prodInsert = none ∧
      q'.inserted.length = q.inserted.length + 1 ∧ q'.removed = q.removed := by
  let i := q.inserts.length
  let q₁ : SendQueue := { q with inserts := q.inserts ++ [{ pc := .semProd, head := head }] }
  let q₂ : SendQueue := { q₁ with semProd := q.semProd - 1 }.goto i { pc := .semProd, head := head } .lock
  let q₃ : SendQueue :=
    { q₂ with prodInsert := some i, inserted := q.inserted ++ [head] }.goto i { pc := .lock, head := head } .index
  let q₄ : SendQueue :=
    { q₃ with prodVector := (q.prodVector + 1) % maxSendWaiting }.goto i { pc := .index, head := head } (.assign 0)
  have hp₁ : q₁.inserts[i]? = some { pc := .semProd, head := head } := List.getElem?_concat_length
  have hp₂ : q₂.inserts[i]? = some { pc := .lock, head := head } := goto_getElem? (by exact hp₁) _
  have hp₃ : q₃.inserts[i]? = some { pc := .index, head := head } := goto_getElem? (by exact hp₂) _
  have hp₄ : q₄.inserts[i]? = some { pc := .assign 0, head := head } := goto_getElem? (by exact hp₃) _
  have h₁ : Reach SendQueue.step anyStep q q₁ := Reach.step (.call head) Reach.refl trivial rfl
  have h₂ : Reach SendQueue.step anyStep q₁ q₂ := reach_insert hp₁ (if_neg hprod.ne')
  have h₃ : Reach SendQueue.step anyStep q₂ q₃ := reach_insert hp₂ (by
    have hnone : q₂.prodInsert.isSome = false := by
      show q.prodInsert.isSome = false
      rw [hlock]
      rfl
    simp only [SendQueue.waitListInsert, hnone]
    rfl)
  have h₄ : Reach SendQueue.step anyStep q₃ q₄ := reach_insert hp₃ rfl
  obtain ⟨q₅, hgo⟩ := going_assign 8 0 rfl hp₄
  refine ⟨{ q₅ with prodInsert := none }.goto i { pc := .unlock, head := head } .semCons, ?_, hgo.semProd, rfl, ?_, hgo.removed⟩
  · exact ((((h₁.trans h₂).trans h₃).trans h₄).trans hgo.reach).trans (reach_insert hgo.call rfl)
  · show q₅.inserted.length = _
    rw [hgo.inserted]
    exact List.length_append

/-- While there are units in it, as many items as there are units. -/
theorem insert_many (n : Nat) (hprod : n ≤ q.semProd) (hlock : q.prodInsert = none) :
    ∃ q', Reach SendQueue.step anyStep q q' ∧ q'.inserted.length = q.inserted.length + n ∧ q'.removed = q.removed := by
  induction n generalizing q with
  | zero => exact ⟨q, Reach.refl, rfl, rfl⟩
  | succ n ih =>
    have hpos : 0 < q.semProd := Nat.lt_of_lt_of_le (Nat.succ_pos n) hprod
    obtain ⟨q₁, hreach₁, hprod₁, hlock₁, hins₁, hrem₁⟩ := insert_one hpos hlock emptyItem
    obtain ⟨q₂, hreach₂, hins₂, hrem₂⟩ := ih (by omega) hlock₁
    exact ⟨q₂, hreach₁.trans hreach₂, by omega, hrem₂.trans hrem₁⟩

/-- A unit in `g_sem_cons` is enough for an item to come out. -/
theorem remove_one (hcons : 0 < q.semCons) (hpc : q.removePc = .semCons) :
    ∃ q', Reach SendQueue.step anyStep q q' ∧ q'.inserted = q.inserted ∧ q'.removed.length = q.removed.length + 1 := by
  have he : ∃ q', exec SendQueue.step q (List.replicate 11 .remove) = some q' ∧ q'.inserted = q.inserted ∧
      q'.removed.length = q.removed.length + 1 := by
    simp [exec, List.replicate, SendQueue.step, SendQueue.waitListRemove, hpc, hcons.ne', waitListAssigns]
  obtain ⟨q', hexec, hins, hrem⟩ := he
  exact ⟨q', reach_anyStep_of_exec hexec, hins, hrem⟩

end RestartAux

/-- After another process on the same machine, every run of the threads is a run of a queue of `MAX_SEND_WAITING` places
exactly if that process has left both semaphores at 0: no place of its queue free, and nothing signalled that was not taken out. -/
theorem restart_refines_iff (q : SendQueue) :
    (∀ q', Reach SendQueue.step anyStep q.restart q' → ∃ f : Fifo maxSendWaiting WaitListItem,
        Reach Fifo.step anyStep Fifo.empty f ∧ f.inserted = q'.inserted ∧ f.removed = q'.removed) ↔
      q.semProd = 0 ∧ q.semCons = 0 := by
  constructor
  · intro hfifo
    constructor
    · by_contra hprod
      have hroom : maxSendWaiting + 1 ≤ q.restart.semProd := by
        show maxSendWaiting + 1 ≤ q.semProd + maxSendWaiting
        omega
      obtain ⟨q', hreach, hins, hrem⟩ := RestartAux.insert_many (maxSendWaiting + 1) hroom rfl
      obtain ⟨f, -, hfins, hfrem⟩ := hfifo q' hreach
      have hfits := f.length_le
      rw [hfins, hfrem, hins, hrem] at hfits
      exact absurd hfits (Nat.not_le.2 (Nat.lt_succ_self maxSendWaiting))
    · by_contra hcons
      obtain ⟨q', hreach, hins, hrem⟩ := RestartAux.remove_one (q := q.restart) (Nat.pos_of_ne_zero hcons) rfl
      obtain ⟨f, -, hfins, hfrem⟩ := hfifo q' hreach
      have hprefix := f.removed_prefix.length_le
      rw [hfins, hfrem, hins, hrem] at hprefix
      exact absurd hprefix (Nat.not_succ_le_zero 0)
  · rintro ⟨hprod, hcons⟩ q' hreach
    have hinit : q.restart = SendQueue.init := by
      simp only [SendQueue.restart, hprod, hcons]
      rfl
    rw [hinit] at hreach
    exact send_queue_refines hreach

end NetworkLayers
