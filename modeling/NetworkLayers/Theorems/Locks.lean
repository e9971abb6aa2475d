import NetworkLayers.Transport.Locks
import NetworkLayers.Lemmas.Session

/-!
# The mutexes recv_thread gives back

Each branch of `recv_thread` unlocks what it has locked, but one: on data outside a connection it leaves the `switch` with
`mutex_con` locked. As long as no data arrives outside a connection, no mutex is locked between two steps and no call waits for
`mutex_con`; the first such data locks it for good.
-/

namespace NetworkLayers

open Transition

/-- The actions that ask for `mutex_con` on behalf of the application or of a SYN. -/
def PointAction.AsksCon : PointAction → Prop
  | .connectPoint .. | .closeConn | .sendPoint _ => True
  | .recvThread pkt _ => pkt.segment.flags = .sync
  | .sendPut _ | .recvPoint _ | .sendThread | .segSendThread _ => False

/-- No mutex is locked, and whoever asks for `mutex_con` gets it. -/
structure LockedPoint.Free (here : Addr) (s : LockedPoint) : Prop where
  held : s.held = []
  asks : ∀ act : PointAction, act.AsksCon → (s.step here act).isSome

/-- Data is received in a connection only. -/
def DataInConnection (s : LockedPoint) : PointAction → Prop
  | .recvThread pkt _ => pkt.segment.flags = .dados → s.point.sp.flagCon = .comConexao
  | _ => True

instance DataInConnection.decidable (s : LockedPoint) : ∀ act, Decidable (DataInConnection s act)
  | .recvThread pkt _ => inferInstanceAs (Decidable (pkt.segment.flags = .dados → s.point.sp.flagCon = .comConexao))
  | .connectPoint .. | .closeConn | .sendPoint _ | .sendPut _ | .recvPoint _ | .sendThread | .segSendThread _ =>
    inferInstanceAs (Decidable True)

namespace LocksAux

variable {here : Addr} {s s' : LockedPoint} {act : PointAction}

/-- Each branch of the comparisons unlocks `mutex_r`. -/
theorem exec_dadosLocks (sp : ServicePoint) (seqNum : Nat) : exec LockOp.run [.r] (sp.dadosLocks seqNum) = some [] := by
  have hadd : exec LockOp.run [.r] addDadosLocks = some [] := by decide
  have hunlock : exec LockOp.run [.r] [.unlock .r] = some [] := by decide
  unfold ServicePoint.dadosLocks
  split
  · split
    · split
      · exact hunlock
      · exact hadd
    · exact hunlock
  · split
    · exact hunlock
    · split
      · split
        · exact hunlock
        · exact hadd
      · split
        · exact hadd
        · exact hunlock

/-- `recv_thread` gives back what it locks for a segment other than data outside a connection. -/
theorem exec_recvThreadLocks {sp : ServicePoint} {segment : Segment} (h : segment.flags = .dados → sp.flagCon = .comConexao) :
    exec LockOp.run [] (sp.recvThreadLocks segment) = some [] := by
  unfold ServicePoint.recvThreadLocks
  cases hflags : segment.flags with
  | dados =>
    simp only [if_pos (h hflags)]
    rw [exec_append]
    exact exec_dadosLocks sp segment.seqNum
  | sync =>
    simp only [ServicePoint.syncThreadLocks]
    split <;> rfl
  | syncAck => rfl
  | ack => rfl
  | fin =>
    simp only [ServicePoint.closeConnAuxLocks]
    split <;> rfl

/-- Whatever is not `recv_thread` gives back what it locks. -/
theorem exec_locks (p : Endpoint) (hact : ∀ pkt rnd, act ≠ .recvThread pkt rnd) : exec LockOp.run [] (p.locks act) = some [] := by
  cases act with
  | connectPoint dest destPoint windowSize rnd =>
    simp only [Endpoint.locks, ServicePoint.connectPointLocks]
    split <;> rfl
  | closeConn =>
    simp only [Endpoint.locks, ServicePoint.closeConnLocks]
    split <;> rfl
  | sendPoint buffer => rfl
  | sendPut i => rfl
  | recvPoint size => rfl
  | sendThread =>
    simp only [Endpoint.locks, SendThread.locks]
    split
    · rfl
    · split <;> rfl
    · rfl
  | segSendThread i =>
    simp only [Endpoint.locks]
    cases p.segSends[i]? with
    | none => rfl
    | some t =>
      simp only [Option.map_some, Option.getD_some, SegSend.locks]
      split <;> rfl
  | recvThread pkt rnd => exact absurd rfl (hact pkt rnd)

/-- But for data outside a connection, all is given back. -/
theorem exec_locks_of_ok (hok : DataInConnection s act) : exec LockOp.run [] (s.point.locks act) = some [] := by
  cases act with
  | recvThread pkt rnd => exact exec_recvThreadLocks hok
  | _ => exact exec_locks s.point (by simp)

/-- On that, `recv_thread` locks `mutex_con` and nothing else. -/
theorem locks_stray (hok : ¬DataInConnection s act) : s.point.locks act = [.lock .con] := by
  cases act with
  | recvThread pkt rnd =>
    obtain ⟨hflags, hf⟩ := Classical.not_imp.1 hok
    simp only [Endpoint.locks, ServicePoint.recvThreadLocks, hflags, if_neg hf]
  | _ => exact absurd trivial hok

/-- What `Free` comes to: no mutex is locked, in either of the two accounts of `mutex_con`. -/
def Unlocked (s : LockedPoint) : Prop := s.held = [] ∧ s.point.sp.mutexCon = false ∧ s.point.recvBlocked = false

/-- An action that asks for `mutex_con` and finds it free is taken. -/
theorem isSome_act {p : Endpoint} (hm : p.sp.mutexCon = false) (hb : p.recvBlocked = false) (hact : act.AsksCon) :
    (p.act here act).isSome := by
  cases act with
  | connectPoint dest destPoint windowSize rnd =>
    simp only [Endpoint.act, Endpoint.connectPoint, hm, Bool.false_eq_true, if_false]
    split <;> rfl
  | closeConn =>
    simp only [Endpoint.act, Endpoint.closeConn, hm, Bool.false_eq_true, if_false]
    split <;> rfl
  | sendPoint buffer =>
    simp only [Endpoint.act, Endpoint.sendPoint, hm, Bool.false_eq_true, if_false]
    split <;> rfl
  | recvThread pkt rnd =>
    have hflags : pkt.segment.flags = .sync := hact
    simp [Endpoint.act, Endpoint.recvThread, hb, hflags, hm]
  | sendPut i => exact hact.elim
  | recvPoint size => exact hact.elim
  | sendThread => exact hact.elim
  | segSendThread i => exact hact.elim

theorem free_iff (s : LockedPoint) : s.Free here ↔ Unlocked s := by
  constructor
  · intro h
    refine ⟨h.held, ?_, ?_⟩
    · have hclose := h.asks .closeConn trivial
      by_contra hm
      simp [LockedPoint.step, Endpoint.step, Endpoint.act, Endpoint.closeConn, (Bool.not_eq_false _).mp hm] at hclose
    · have hsync := h.asks (.recvThread (SessionAux.packet 2 1 .sync 15 0 [115] 0) 0) rfl
      by_contra hb
      simp [LockedPoint.step, Endpoint.step, Endpoint.act, Endpoint.recvThread, (Bool.not_eq_false _).mp hb] at hsync
  · rintro ⟨hheld, hm, hb⟩
    refine ⟨hheld, fun act hact => ?_⟩
    have hlocks : exec LockOp.run s.held (s.point.locks act) = some [] := by
      rw [hheld]
      cases act with
      | recvThread pkt rnd =>
        have hflags : pkt.segment.flags = .sync := hact
        exact exec_recvThreadLocks fun h => absurd (hflags.symm.trans h) (by decide)
      | _ => exact exec_locks s.point (by simp)
    simp [LockedPoint.step, hlocks, Endpoint.step, isSome_act hm hb hact]

/-- A step from a state without locked mutexes leads to one exactly when it is not data outside a connection. -/
theorem unlocked_step (h : Unlocked s) (hs : s.step here act = some s') : Unlocked s' ↔ DataInConnection s act := by
  obtain ⟨hheld, hm, hb⟩ := h
  obtain ⟨held, hlocks, hpoint⟩ := Option.bind_eq_some_iff.1 hs
  obtain ⟨p, hp, rfl⟩ := Option.map_eq_some_iff.1 hpoint
  obtain ⟨⟨_, out⟩, hact, rfl⟩ := Option.map_eq_some_iff.1 hp
  rw [hheld] at hlocks
  constructor
  · rintro ⟨hfree, -, -⟩
    by_contra hok
    rw [locks_stray hok] at hlocks
    obtain rfl := Option.some.inj hlocks
    cases hfree
  · intro hok
    refine ⟨(Option.some.inj ((exec_locks_of_ok hok).symm.trans hlocks)).symm, ?_⟩
    cases act_does hact with
    | block pkt rnd hlocked => exact absurd (hm.symm.trans hlocked) (by decide)
    | lock pkt rnd hflags hf => exact absurd (hok hflags) hf
    | _ => exact ⟨hm, hb⟩

/-! ## A mutex that stays locked -/

/-- Operations on other mutexes leave `mutex_con` as it is. -/
theorem exec_frame {held held' : List Mutex} {ops : List LockOp} (he : exec LockOp.run held ops = some held')
    (hops : ∀ op ∈ ops, op ≠ .lock .con ∧ op ≠ .unlock .con) :
    exec LockOp.run (held ++ [.con]) ops = some (held' ++ [.con]) := by
  induction ops generalizing held with
  | nil =>
    cases he
    rfl
  | cons op ops ih =>
    obtain ⟨held₁, hrun, hrest⟩ := Option.bind_eq_some_iff.1 he
    have hop := hops op List.mem_cons_self
    have hrun' : LockOp.run (held ++ [.con]) op = some (held₁ ++ [.con]) := by
      cases op with
      | lock m =>
        have hne : m ≠ .con := by
          rintro rfl
          exact hop.1 rfl
        by_cases hm : m ∈ held
        · simp [LockOp.run, hm] at hrun
        · simp only [LockOp.run, if_neg hm, Option.some.injEq] at hrun
          simp [LockOp.run, hm, hne, ← hrun]
      | unlock m =>
        have hne : Mutex.con ≠ m := by
          rintro rfl
          exact hop.2 rfl
        obtain rfl := Option.some.inj hrun
        by_cases hm : m ∈ held
        · simp [LockOp.run, List.erase_append, hm]
        · simp [LockOp.run, hm, List.erase_of_not_mem, hne.symm]
    rw [exec, hrun']
    exact ih hrest fun op hmem => hops op (List.mem_cons_of_mem _ hmem)

/-- What asks for `mutex_con` does so first. -/
theorem asksCon_locks (p : Endpoint) (hact : act.AsksCon) : ∃ ops, p.locks act = .lock .con :: ops := by
  cases act with
  | connectPoint dest destPoint windowSize rnd =>
    simp only [Endpoint.locks, ServicePoint.connectPointLocks]
    split <;> exact ⟨_, rfl⟩
  | closeConn =>
    simp only [Endpoint.locks, ServicePoint.closeConnLocks]
    split <;> exact ⟨_, rfl⟩
  | sendPoint buffer => exact ⟨_, rfl⟩
  | recvThread pkt rnd =>
    have hflags : pkt.segment.flags = .sync := hact
    simp only [Endpoint.locks, ServicePoint.recvThreadLocks, hflags, ServicePoint.syncThreadLocks]
    split <;> exact ⟨_, rfl⟩
  | sendPut i => exact hact.elim
  | recvPoint size => exact hact.elim
  | sendThread => exact hact.elim
  | segSendThread i => exact hact.elim

/-- So does `recv_thread`, but for an ACK; nothing else touches it. -/
theorem locks_con (p : Endpoint) (act : PointAction) :
    (∃ ops, p.locks act = .lock .con :: ops) ∨ ∀ op ∈ p.locks act, op ≠ .lock .con ∧ op ≠ .unlock .con := by
  cases act with
  | connectPoint dest destPoint windowSize rnd => exact Or.inl (asksCon_locks p trivial)
  | closeConn => exact Or.inl (asksCon_locks p trivial)
  | sendPoint buffer => exact Or.inl (asksCon_locks p trivial)
  | sendPut i => exact Or.inr (by simp [Endpoint.locks])
  | recvPoint size => exact Or.inr (by simp [Endpoint.locks, recvPointLocks])
  | sendThread =>
    refine Or.inr ?_
    simp only [Endpoint.locks, SendThread.locks]
    split
    · decide
    · split <;> decide
    · decide
  | segSendThread i =>
    refine Or.inr ?_
    simp only [Endpoint.locks]
    cases p.segSends[i]? with
    | none => decide
    | some t =>
      simp only [Option.map_some, Option.getD_some, SegSend.locks]
      split <;> decide
  | recvThread pkt rnd =>
    simp only [Endpoint.locks, ServicePoint.recvThreadLocks]
    cases hflags : pkt.segment.flags with
    | dados =>
      refine Or.inl ?_
      dsimp only
      split <;> exact ⟨_, rfl⟩
    | sync =>
      refine Or.inl ?_
      simp only [ServicePoint.syncThreadLocks]
      split <;> exact ⟨_, rfl⟩
    | syncAck => exact Or.inl ⟨_, rfl⟩
    | ack => exact Or.inr (by simp)
    | fin => exact Or.inl ⟨_, rfl⟩

/-- Of the segments, only an ACK is handled without `mutex_con`. -/
theorem flags_of_no_con {p : Endpoint} {pkt : Packet} {rnd : Nat}
    (hops : ∀ op ∈ p.locks (.recvThread pkt rnd), op ≠ .lock .con ∧ op ≠ .unlock .con) : pkt.segment.flags = .ack := by
  by_contra hflags
  have hmem : LockOp.lock .con ∈ p.locks (.recvThread pkt rnd) := by
    simp only [Endpoint.locks, ServicePoint.recvThreadLocks]
    cases hf : pkt.segment.flags with
    | dados =>
      dsimp only
      split <;> exact List.mem_cons_self
    | sync =>
      simp only [ServicePoint.syncThreadLocks]
      split <;> exact List.mem_cons_self
    | syncAck => exact List.mem_cons_self
    | ack => exact absurd hf hflags
    | fin => exact List.mem_cons_self
  exact (hops _ hmem).1 rfl

/-- An action that begins by asking for `mutex_con` waits while it is locked. -/
theorem step_eq_none {ops : List LockOp} (h : Mutex.con ∈ s.held) (hops : s.point.locks act = .lock .con :: ops) :
    s.step here act = none := by
  simp only [LockedPoint.step, hops, exec, LockOp.run, if_pos h, Option.bind_none]

/-- Once `mutex_con` is the one mutex locked, it stays so. -/
theorem held_con_step (h : s.held = [.con]) (hs : s.step here act = some s') : s'.held = [.con] := by
  have hcon : Mutex.con ∈ s.held := by rw [h]; exact List.mem_cons_self
  rcases locks_con s.point act with ⟨ops, hops⟩ | hops
  · rw [step_eq_none hcon hops] at hs
    cases hs
  · obtain ⟨held, hlocks, hpoint⟩ := Option.bind_eq_some_iff.1 hs
    obtain ⟨p, -, rfl⟩ := Option.map_eq_some_iff.1 hpoint
    have hok : DataInConnection s act := by
      by_contra hok
      rw [locks_stray hok] at hops
      exact (hops _ List.mem_cons_self).1 rfl
    have hframe := exec_frame (exec_locks_of_ok hok) hops
    rw [h] at hlocks
    exact (Option.some.inj (hframe.symm.trans hlocks)).symm

/-- The mutexes locked between two steps are what the point says of `mutex_con`. -/
def HeldIsCon (s : LockedPoint) : Prop :=
  s.point.recvBlocked = false ∧ s.held = if s.point.sp.mutexCon then [.con] else []

theorem heldIsCon_step (h : HeldIsCon s) (hs : s.step here act = some s') : HeldIsCon s' := by
  obtain ⟨hb, hheld⟩ := h
  have hpoint := hs
  obtain ⟨held, hlocks, hpoint⟩ := Option.bind_eq_some_iff.1 hpoint
  obtain ⟨p, hp, hs'⟩ := Option.map_eq_some_iff.1 hpoint
  obtain ⟨⟨_, out⟩, hact, rfl⟩ := Option.map_eq_some_iff.1 hp
  cases hm : s.point.sp.mutexCon with
  | false =>
    have hunlocked : Unlocked s := ⟨by rw [hheld, hm]; rfl, hm, hb⟩
    by_cases hok : DataInConnection s act
    · obtain ⟨hheld', hm', hb'⟩ := (unlocked_step hunlocked hs).2 hok
      exact ⟨hb', by rw [hheld', hm']; rfl⟩
    · rw [hunlocked.1, locks_stray hok] at hlocks
      obtain rfl := Option.some.inj hlocks
      subst hs'
      cases act with
      | recvThread pkt rnd =>
        obtain ⟨hflags, hf⟩ := Classical.not_imp.1 hok
        simp only [Endpoint.act, Endpoint.recvThread, hb, hflags, hm, if_neg hf, Bool.false_eq_true, if_false] at hact
        obtain ⟨rfl, -⟩ := Prod.mk.inj (Option.some.inj hact)
        exact ⟨rfl, rfl⟩
      | _ => exact absurd trivial hok
  | true =>
    have hcon : s.held = [.con] := by rw [hheld, hm]; rfl
    have hheld' := held_con_step hcon hs
    subst hs'
    rcases locks_con s.point act with ⟨ops, hops⟩ | hops
    · rw [step_eq_none (by rw [hcon]; exact List.mem_cons_self) hops] at hs
      cases hs
    · cases act_does hact with
      | block pkt rnd _ =>
        have hack := flags_of_no_con hops
        simp only [Endpoint.act, Endpoint.recvThread, hb, hack, Bool.false_eq_true, if_false, Option.some.injEq] at hact
        exact absurd (congrArg (fun r => r.1.recvBlocked) hact) (by simp)
      | lock pkt rnd _ _ => exact ⟨hb, hheld'⟩
      | _ => exact ⟨hb, hheld'.trans (if_pos hm).symm⟩

/-- So it is in every state that is reached. -/
theorem heldIsCon_of_reach (h : Reach (LockedPoint.step here) anyStep LockedPoint.start s) : HeldIsCon s :=
  h.invariant ⟨rfl, rfl⟩ fun _ _ _ h _ hs => heldIsCon_step h hs

end LocksAux

open LocksAux in
/-- Along a run, no mutex is ever locked between two steps and whoever asks for `mutex_con` gets it, exactly when data arrives in a
connection only. -/
theorem locks_given_back_iff {here : Addr} {acts : List PointAction} {s : LockedPoint}
    (he : exec (LockedPoint.step here) LockedPoint.start acts = some s) :
    (∀ acts', acts' <+: acts → ∀ t, exec (LockedPoint.step here) LockedPoint.start acts' = some t → t.Free here) ↔
      Along (LockedPoint.step here) DataInConnection LockedPoint.start acts := by
  have hstart : LockedPoint.start.Free here := (free_iff _).2 ⟨rfl, rfl, rfl⟩
  refine along_iff hstart (fun s act s' h hs => ?_) he
  rw [free_iff] at h ⊢
  exact unlocked_step h hs

namespace LocksAux

/-- A point connects to the one at node 2, and closes the connection. -/
def closing : List PointAction := [.connectPoint 2 0 5 10, .recvThread SessionAux.syncAck 0, .closeConn]

/-- Data the other end sent before it heard of that. -/
def lateDados : PointAction := .recvThread (SessionAux.packet 2 1 .dados 106 0 [7] 0) 0

end LocksAux

open LocksAux in
/-- Data in the connection leaves no mutex locked. -/
theorem early_data_gives_back :
    ∃ s, exec (LockedPoint.step ⟨1, 0⟩) LockedPoint.start (closing.take 2 ++ [lateDados]) = some s ∧ s.Free ⟨1, 0⟩ := by
  have hruns : (exec (LockedPoint.step ⟨1, 0⟩) LockedPoint.start (closing.take 2 ++ [lateDados])).isSome := by decide
  obtain ⟨s, hs⟩ := Option.isSome_iff_exists.1 hruns
  refine ⟨s, hs, ?_⟩
  refine (locks_given_back_iff hs).2 ?_ _ (List.prefix_refl _) s hs
  decide

open LocksAux in
/-- Data after `close_conn` leaves `mutex_con` locked for good: whatever happens then, every call and every SYN waits for it. -/
theorem late_data_keeps_lock :
    ∃ s, exec (LockedPoint.step ⟨1, 0⟩) LockedPoint.start (closing ++ [lateDados]) = some s ∧ s.held = [.con] ∧
      ¬s.Free ⟨1, 0⟩ ∧ ∀ t, Reach (LockedPoint.step ⟨1, 0⟩) anyStep s t →
        ∀ act : PointAction, act.AsksCon → t.step ⟨1, 0⟩ act = none := by
  obtain ⟨s, hs, hheld⟩ :
      ∃ s ∈ exec (LockedPoint.step ⟨1, 0⟩) LockedPoint.start (closing ++ [lateDados]), s.held = [.con] := by decide
  refine ⟨s, hs, hheld, ?_, ?_⟩
  · intro hfree
    have hempty := hfree.held
    rw [hheld] at hempty
    cases hempty
  · intro t ht act hact
    have hcont : t.held = [.con] := ht.invariant hheld fun _ _ _ h _ hs => held_con_step h hs
    obtain ⟨ops, hops⟩ := asksCon_locks t.point hact
    exact step_eq_none (by rw [hcont]; exact List.mem_cons_self) hops

end NetworkLayers
