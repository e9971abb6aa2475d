import NetworkLayers.Lemmas.HostThreads

/-!
# No deadlock among the threads of a host

What the threads of a host wait for can be ranked so that each takes it in that order, the loops that serve a slot or the queue only
what is ranked above it. So as long as no `recv_thread` gets data outside a connection, every call returns, whatever the order in
which the threads go on, and all mutexes are free again. This is said for every bound on how often `send_thread` looks whether its
window has moved while it gets through a buffer: its loop has none of its own. The first data outside a connection ends it: the
`mutex_con` it leaves locked is missing from then on, and a few segments more for the same service point stop the host from receiving
anything at all.
-/

namespace NetworkLayers

open Transition Workers

open HostThreadsAux

/-- The threads of a host as a system of workers: `n` calls at once, `k` frames for an item of the queue and rounds for a buffer. -/
def hostSystem (n k : Nat) : System (HostThread n) Resource where
  worker := Resource.worker n
  rank := Resource.rank
  credit := Resource.credit
  cost := Resource.cost k
  serves := HostServes k
  calls := HostCalls n
  worker_inj := by
    intro r r' t h h'
    cases r <;> cases r' <;> simp only [Resource.worker, Option.some.injEq, reduceCtorEq] at h h' <;> subst h <;>
      simp_all
  exists_serves := fun _ h => exists_serves h
  serves_nested := fun _ _ h => nested_serves h
  serves_cost := fun _ _ h => size_serves h
  calls_nested := by
    intro t p h
    cases h with
    | linkRecv => exact ⟨fun r => by cases r <;> simp [Resource.worker], Or.inr ⟨.recvFrame, rfl, rfl, rfl⟩⟩
    | call i c => exact ⟨fun r => by cases r <;> simp [Resource.worker], Or.inl (nested_call c)⟩

/-- A step of the threads. -/
abbrev hostStep (n : Nat) (s : State (HostThread n) Resource) (a : Action (HostThread n) Resource) :
    Option (State (HostThread n) Resource) :=
  s.step (Resource.worker n) a

namespace HostThreadsAux

theorem total_of_atRest {n : Nat} {s : State (HostThread n) Resource} (h : s.AtRest) (r : Resource) : s.total r = s.free r := by
  rw [State.total, h.2 r, Finset.sum_eq_zero fun t _ => by rw [h.1 t, net_nil]]
  simp

theorem total_hostInit (n : Nat) (r : Resource) : (hostInit n).total r = r.credit := by
  have hsum : ∑ t, net r ((hostInit n).todo t) = if r = .recvFrame then -1 else 0 := by
    rw [Finset.sum_eq_single HostThread.linkRecv]
    · simp only [hostInit, if_true, net_cons, net_nil, Op.net, eq_comm (a := r)]
      split <;> rfl
    · intro t _ ht
      simp [hostInit, ht]
    · intro h
      exact absurd (Finset.mem_univ _) h
  rw [State.total, hsum]
  by_cases hr : r = .recvFrame
  · subst hr
    rfl
  · simp [hostInit, hr]

theorem sound_hostInit (n k : Nat) : Sound (hostSystem n k) (hostInit n) := by
  refine ⟨total_hostInit n, fun t => ?_, fun t r r' hr hr' => ?_, fun t r hr => ?_, fun r hr => absurd hr (lt_irrefl 0)⟩ <;>
    by_cases ht : t = .linkRecv
  · subst ht
    exact ⟨⟨by simp, by simp [owed]⟩, trivial⟩
  · simp [hostInit, ht, Ordered]
  · subst ht
    cases r <;> simp [hostSystem, Resource.worker] at hr
  · simp [hostInit, ht] at hr'
  · subst ht
    simp [hostInit] at hr
  · simp [hostInit, ht] at hr

theorem sound_reach {n k : Nat} {s : State (HostThread n) Resource}
    (h : Reach (hostStep n) (hostSystem n k).Allowed (hostInit n) s) : Sound (hostSystem n k) s :=
  h.invariant (sound_hostInit n k) fun _ _ _ hs ha hstep => hs.step ha hstep

end HostThreadsAux

/-- `recv_thread` begins to handle data that has come outside a connection. -/
def StrayAt {n : Nat} (slot : Slot) (a : Action (HostThread n) Resource) : Prop :=
  ∃ (sp : ServicePoint) (segment : Segment) (node : Nat), segment.flags = .dados ∧ sp.flagCon ≠ .comConexao ∧
    a = .serve (.waitBuff slot) (sp.recvThreadOps slot segment node)

/-- Any step of the threads, whatever has come. -/
def AnySegment (n k : Nat) (s : State (HostThread n) Resource) (a : Action (HostThread n) Resource) : Prop :=
  (hostSystem n k).Allowed s a ∨ ∃ slot, StrayAt slot a

namespace HostThreadsAux

variable {n k : Nat} {s s' : State (HostThread n) Resource} {a : Action (HostThread n) Resource}

theorem strayAt_eq {slot : Slot} (h : StrayAt slot a) :
    a = .serve (.waitBuff slot) [.give (.waitBuff slot), .take (.mutex slot .con)] := by
  obtain ⟨sp, segment, node, hflags, hf, rfl⟩ := h
  simp [ServicePoint.recvThreadOps, ServicePoint.switchOps, hflags, hf, lockOps, LockOp.hostOp]

/-- A step adds nothing to a resource, but for the `mutex_con` that data outside a connection takes away. -/
theorem adds_anySegment (h : AnySegment n k s a) (r : Resource) :
    a.adds r ≤ 0 ∧ ((∀ slot, r ≠ .mutex slot .con) → a.adds r = 0) := by
  rcases h with hallowed | ⟨slot, hstray⟩
  · have hzero : a.adds r = 0 := by
      cases a with
      | run t => rfl
      | serve r' p => rw [Action.adds, (System.serves_does hallowed).2.1 r, sub_self]
      | call t p => exact (System.calls_does hallowed).2.1 r
    exact ⟨hzero.le, fun _ => hzero⟩
  · rw [strayAt_eq hstray]
    simp only [Action.adds, net_cons, net_nil, Op.net, eq_comm (a := r)]
    constructor
    · split_ifs <;> decide
    · intro hr
      rw [if_neg (hr slot).symm]
      split <;> rfl

theorem adds_strayAt {slot : Slot} (h : StrayAt slot a) : a.adds (.mutex slot .con) = -1 := by
  rw [strayAt_eq h]
  simp [Action.adds, Op.net]

/-- No resource gains places in a run, and only a `mutex_con` loses one. -/
theorem total_run {as : List (Action (HostThread n) Resource)} (hok : Along (hostStep n) (AnySegment n k) s as)
    (he : exec (hostStep n) s as = some s') (r : Resource) :
    s'.total r ≤ s.total r ∧ ((∀ slot, r ≠ .mutex slot .con) → s'.total r = s.total r) := by
  induction as generalizing s with
  | nil =>
    cases he
    exact ⟨le_refl _, fun _ => rfl⟩
  | cons a as ih =>
    obtain ⟨ha, hrest⟩ := hok
    obtain ⟨s₁, hs₁, he⟩ := Option.bind_eq_some_iff.1 he
    obtain ⟨hle, heq⟩ := ih (hrest s₁ hs₁) he
    obtain ⟨hadds, hzero⟩ := adds_anySegment ha r
    rw [total_step hs₁ r] at hle heq
    exact ⟨hle.trans (by omega), fun hr => (heq hr).trans (by rw [hzero hr, add_zero])⟩

theorem total_reach (h : Reach (hostStep n) (AnySegment n k) s s') (r : Resource) : s'.total r ≤ s.total r := by
  induction h with
  | refl => exact le_refl _
  | step a _ ha hstep ih =>
    have hadds := (adds_anySegment ha r).1
    rw [total_step hstep]
    omega

/-- After data outside a connection the `mutex_con` of the service point is missing. -/
theorem total_con {as : List (Action (HostThread n) Resource)} {slot : Slot} (hok : Along (hostStep n) (AnySegment n k) s as)
    (he : exec (hostStep n) s as = some s') (ha : a ∈ as) (hstray : StrayAt slot a) :
    s'.total (.mutex slot .con) < s.total (.mutex slot .con) := by
  obtain ⟨as₁, as₂, rfl⟩ := List.append_of_mem ha
  rw [exec_append] at he
  obtain ⟨s₁, hs₁, he⟩ := Option.bind_eq_some_iff.1 he
  obtain ⟨s₂, hs₂, hlast⟩ := Option.bind_eq_some_iff.1 he
  have hok₁ := hok.after hs₁
  have hbefore := (total_run (k := k) hok.before hs₁ (.mutex slot .con)).1
  have hafter := (total_run (hok₁.2 s₂ hs₂) hlast (.mutex slot .con)).1
  rw [total_step hs₂, adds_strayAt hstray] at hafter
  omega

/-- Only the loop of the link layer rests with a place. -/
theorem spares_anySegment (h : AnySegment n k s a) (r : Resource) (hr : r ≠ .recvFrame) : a.Spares r := by
  have hserve : ∀ r' p, a = .serve r' p → owed p = [r'] → a.Spares r := by
    rintro r' p rfl howed x hx rfl
    rw [howed] at hx
    exact List.mem_singleton.1 hx
  rcases h with hallowed | ⟨slot, hstray⟩
  · cases a with
    | run t => trivial
    | serve r' p => exact hserve r' p rfl (System.serves_does hallowed).2.2.1
    | call t p =>
      intro hmem
      have hcredit : r.credit = 0 := (System.calls_does hallowed).2.2.1 r hmem
      cases r <;> simp [Resource.credit, maxSendWaiting] at hcredit hr
  · exact hserve _ _ (strayAt_eq hstray) (by simp [owed])

/-- Where the `mutex_con` of a service point is missing and all is at rest, `close_conn` waits for good. -/
theorem closeConn_waits {slot : Slot} (hrest : s.AtRest) (hfree : s.free (.mutex slot .con) = 0) (i : Fin n) :
    ∃ s', Reach (hostStep n) (hostSystem n k).Allowed s s' ∧
      ∀ s'', Reach (hostStep n) (AnySegment n k) s' s'' → s''.todo (.call i) ≠ [] := by
  let c : HostCall := .closeConn slot allocServicePoint.sp
  have hops : c.ops = .take (.mutex slot .con) :: [.give (.mutex slot .con)] := rfl
  have hstep : hostStep n s (.call (.call i) c.ops) = some { s with todo := Function.update s.todo (.call i) c.ops } := by
    simp [hostStep, State.step, State.start, hrest.1]
  have hallowed : (hostSystem n k).Allowed s (.call (.call i) c.ops) := HostCalls.call i c
  refine ⟨_, Reach.step _ Reach.refl hallowed hstep, fun s'' hreach => ?_⟩
  have hdead : Dead (· = .recvFrame) (Resource.worker n) { s with todo := Function.update s.todo (.call i) c.ops }
      (.mutex slot .con) := by
    refine .lost _ (by simp) hfree (fun t => ?_) (hrest.2 _)
    by_cases ht : t = .call i
    · subst ht
      simp [hops, owed]
    · simp [Function.update_of_ne ht, hrest.1, owed]
  have htodo : Function.update s.todo (.call i) c.ops (.call i) = .take (.mutex slot .con) :: [.give (.mutex slot .con)] := by
    rw [Function.update_self, hops]
  rw [hdead.run (fun _ _ ha => spares_anySegment ha) htodo hreach]
  exact List.cons_ne_nil _ _

end HostThreadsAux

/-- A host with any number of calls at once, at least one, and any bound `k` on the rounds of `send_thread` for one buffer and on the
frames of one packet, can come to rest from whatever state the threads reach later without data outside a connection exactly if no
`recv_thread` has had such data yet. -/
theorem host_settles_iff {n k : Nat} {s : State (HostThread (n + 1)) Resource} {as : List (Action (HostThread (n + 1)) Resource)}
    (hok : Along (hostStep (n + 1)) (AnySegment (n + 1) k) (hostInit (n + 1)) as)
    (he : exec (hostStep (n + 1)) (hostInit (n + 1)) as = some s) :
    (∀ s', Reach (hostStep (n + 1)) (hostSystem (n + 1) k).Allowed s s' →
        ∃ s'', Reach (hostStep (n + 1)) (hostSystem (n + 1) k).Inner s' s'' ∧ s''.AtRest) ↔
      ∀ a ∈ as, ∀ slot, ¬StrayAt slot a := by
  constructor
  · intro hsettles a ha slot hstray
    obtain ⟨s₁, hreach₁, hrest₁⟩ := hsettles s Reach.refl
    have htotal := total_con hok he ha hstray
    have hle : s₁.total (.mutex slot .con) ≤ s.total (.mutex slot .con) := by
      refine total_reach (k := k) (hreach₁.mono fun _ _ ha => Or.inl ha.allowed) _
    rw [total_of_atRest hrest₁] at hle
    rw [total_hostInit] at htotal
    have hfree : s₁.free (.mutex slot .con) = 0 := by
      simp only [Resource.credit] at htotal
      omega
    obtain ⟨s₂, hreach₂, hwaits⟩ := closeConn_waits (k := k) hrest₁ hfree 0
    obtain ⟨s₃, hreach₃, hrest₃⟩ := hsettles s₂ ((hreach₁.mono fun _ _ ha => ha.allowed).trans hreach₂)
    exact hwaits s₃ (hreach₃.mono fun _ _ ha => Or.inl ha.allowed) (hrest₃.1 _)
  · intro hclean s' hreach
    have hallowed : Along (hostStep (n + 1)) (hostSystem (n + 1) k).Allowed (hostInit (n + 1)) as := by
      refine hok.mono fun a ha t hany => hany.resolve_right ?_
      rintro ⟨slot, hstray⟩
      exact hclean a ha slot hstray
    have hsound : Sound (hostSystem (n + 1) k) s' := sound_reach ((reach_of_exec hallowed he).trans hreach)
    exact hsound.settles

/-- The first service point of a host. -/
def firstPoint : Slot := ⟨0, by decide⟩

/-- Data comes for it, to which nobody has connected. -/
def strayDataRun : List (Action (HostThread 1) Resource) :=
  [.run .linkRecv, .call .linkRecv linkInternalrecvOps, .run .linkRecv, .serve .recvFrame (netRecvOps .transport), .run .netRecv,
   .run .linkRecv, .run .netRecv, .run .netRecv, .serve .recvDatagram (transpInternalrecvOps (some firstPoint)), .run .transpRecv,
   .run .transpRecv, .run .transpRecv,
   .serve (.waitBuff firstPoint) (allocServicePoint.sp.recvThreadOps firstPoint
     { src := 2, dest := 0, seqNum := 7, ackNum := 0, flags := .dados, windowSize := 4, data := [1] } 0),
   .run (.recvThread firstPoint), .run (.recvThread firstPoint)]

namespace HostThreadsAux

theorem strayAt_strayDataRun : ∃ a ∈ strayDataRun, StrayAt firstPoint a :=
  ⟨strayDataRun.get ⟨12, by decide⟩, List.get_mem _ _, _, _, _, rfl, by decide, rfl⟩

theorem along_strayDataRun : Along (hostStep 1) (AnySegment 1 2) (hostInit 1) strayDataRun := by
  have hrun : ∀ s t, AnySegment 1 2 s (.run t) := fun _ _ => Or.inl trivial
  refine ⟨hrun _ _, fun _ _ => ⟨Or.inl HostCalls.linkRecv, fun _ _ => ⟨hrun _ _, fun _ _ => ⟨Or.inl (HostServes.recvFrame _),
    fun _ _ => ⟨hrun _ _, fun _ _ => ⟨hrun _ _, fun _ _ => ⟨hrun _ _, fun _ _ => ⟨hrun _ _, fun _ _ =>
    ⟨Or.inl (HostServes.recvDatagram _), fun _ _ => ⟨hrun _ _, fun _ _ => ⟨hrun _ _, fun _ _ => ⟨hrun _ _, fun _ _ =>
    ⟨Or.inr ⟨firstPoint, _, _, _, rfl, by decide, rfl⟩, fun _ _ => ⟨hrun _ _, fun _ _ => ⟨hrun _ _,
      fun _ _ => trivial⟩⟩⟩⟩⟩⟩⟩⟩⟩⟩⟩⟩⟩⟩⟩

/-- After it the host is at rest. -/
theorem exec_strayDataRun : ∃ s, exec (hostStep 1) (hostInit 1) strayDataRun = some s ∧ s.AtRest := by
  have h : ((exec (hostStep 1) (hostInit 1) strayDataRun).map fun s => decide s.AtRest) = some true := by decide +kernel
  obtain ⟨s, hs, hrest⟩ := Option.map_eq_some_iff.1 h
  exact ⟨s, hs, of_decide_eq_true hrest⟩

end HostThreadsAux

/-- From there the host cannot always come to rest any more. -/
theorem stray_host_settles_iff : ∃ s, exec (hostStep 1) (hostInit 1) strayDataRun = some s ∧
    ((∀ s', Reach (hostStep 1) (hostSystem 1 2).Allowed s s' →
        ∃ s'', Reach (hostStep 1) (hostSystem 1 2).Inner s' s'' ∧ s''.AtRest) ↔
      ∀ a ∈ strayDataRun, ∀ slot, ¬StrayAt slot a) := by
  obtain ⟨s, hs, -⟩ := exec_strayDataRun
  exact ⟨s, hs, host_settles_iff along_strayDataRun hs⟩

namespace HostThreadsAux

/-- A host at rest but for the way of what it receives: what the `recv_thread` of a service point and the `internalrecv`s of the
transport and network layers have to do yet, and whether a segment waits for the first and a datagram for the second. -/
def receivePath (n : Nat) (f : Resource → Nat) (slot : Slot) (recv transp net : List HostOp) (wait datagram : Nat) :
    State (HostThread n) Resource where
  todo
    | .recvThread i => if i = slot then recv else []
    | .transpRecv => transp
    | .netRecv => net
    | _ => []
  free
    | .waitBuff i => if i = slot then 1 - wait else f (.waitBuff i)
    | .recvDatagram => 1 - datagram
    | r => f r
  full
    | .waitBuff i => if i = slot then wait else 0
    | .recvDatagram => datagram
    | _ => 0

/-- What `internalrecv` of the network layer does to hand data on. -/
def handOn : List HostOp := [.take .recvDatagram, .post .recvDatagram]

/-- What `internalrecv` of the transport layer does to hand a segment on. -/
def handOnTo (slot : Slot) : List HostOp := [.take (.waitBuff slot), .post (.waitBuff slot)]

end HostThreadsAux

/-- A frame with a segment comes, and `internalrecv` of the network layer is to hand it to the transport layer. -/
def frameComes (n : Nat) : List (Action (HostThread n) Resource) :=
  [.call .linkRecv linkInternalrecvOps, .run .linkRecv, .serve .recvFrame (netRecvOps .transport), .run .netRecv, .run .linkRecv]

/-- It puts the segment where the transport layer takes it. -/
def netHandsOn (n : Nat) : List (Action (HostThread n) Resource) := [.run .netRecv, .run .netRecv]

/-- `internalrecv` of the transport layer takes a segment for the service point whose checksum is right. -/
def transpTakes (n : Nat) (slot : Slot) : List (Action (HostThread n) Resource) :=
  [.serve .recvDatagram (transpInternalrecvOps (some slot)), .run .transpRecv]

/-- It puts the segment in `wait_buff`. -/
def transpHandsOn (n : Nat) : List (Action (HostThread n) Resource) := [.run .transpRecv, .run .transpRecv]

/-- `recv_thread` takes it from there; `ops` is what it does then. -/
def recvThreadTakes (n : Nat) (slot : Slot) (ops : List HostOp) : List (Action (HostThread n) Resource) :=
  [.serve (.waitBuff slot) ops, .run (.recvThread slot)]

/-- Five segments come for a service point one after the other, and each goes as far as it can: the first to `recv_thread`, the second
to `wait_buff`, the third to the transport layer, the fourth to `recv_datagram` and the fifth to the network layer. `ops` is what
`recv_thread` does with the first. -/
def fiveSegments (n : Nat) (slot : Slot) (ops : List HostOp) : List (Action (HostThread n) Resource) :=
  (frameComes n ++ netHandsOn n ++ transpTakes n slot ++ transpHandsOn n ++ recvThreadTakes n slot ops) ++
    (frameComes n ++ netHandsOn n ++ transpTakes n slot ++ transpHandsOn n) ++
    (frameComes n ++ netHandsOn n ++ transpTakes n slot) ++ (frameComes n ++ netHandsOn n) ++ frameComes n

namespace HostThreadsAux

variable {n k : Nat} {f : Resource → Nat} {slot : Slot} {recv transp net : List HostOp} {wait datagram : Nat}

theorem exec_frameComes (hfree : f .recvFrame = 0) :
    exec (hostStep n) (receivePath n f slot recv transp [] wait datagram) (frameComes n) =
      some (receivePath n f slot recv transp handOn wait datagram) := by
  simp only [frameComes, exec, hostStep, State.step, State.start, receivePath, ↓reduceIte, linkInternalrecvOps, State.run,
    Resource.worker, netRecvOps, handOn, Option.bind_some, Option.bind_fun_some, Function.update_self, Function.update_idem, zero_add,
    one_ne_zero, ne_eq, reduceCtorEq, not_false_eq_true, Function.update_of_ne, Nat.sub_self, Function.update_eq_self, hfree,
    Option.some.injEq, State.mk.injEq, Function.update_eq_self_iff, and_self, and_true]
  funext t
  cases t <;> simp [Function.update]

theorem exec_netHandsOn :
    exec (hostStep n) (receivePath n f slot recv transp handOn wait 0) (netHandsOn n) =
      some (receivePath n f slot recv transp [] wait 1) := by
  simp only [netHandsOn, exec, hostStep, State.step, State.run, receivePath, handOn, tsub_zero, one_ne_zero, ↓reduceIte, Nat.sub_self,
    Option.bind_fun_some, Option.bind_some, Function.update_self, Function.update_idem, zero_add, Option.some.injEq,
    State.mk.injEq]
  refine ⟨?_, ?_, ?_⟩ <;> funext x <;> cases x <;> simp [Function.update]

theorem exec_transpTakes :
    exec (hostStep n) (receivePath n f slot recv [] net wait 1) (transpTakes n slot) =
      some (receivePath n f slot recv (handOnTo slot) net wait 0) := by
  simp only [transpTakes, exec, hostStep, State.step, receivePath, handOnTo, Nat.sub_self, one_ne_zero, ↓reduceIte, Resource.worker,
    State.start, transpInternalrecvOps, Option.bind_some, State.run, Option.bind_fun_some, Function.update_self,
    Function.update_idem, zero_add, tsub_zero, Option.some.injEq, State.mk.injEq]
  refine ⟨?_, ?_, ?_⟩ <;> funext x <;> cases x <;> simp [Function.update]

theorem exec_transpHandsOn :
    exec (hostStep n) (receivePath n f slot recv (handOnTo slot) net 0 datagram) (transpHandsOn n) =
      some (receivePath n f slot recv [] net 1 datagram) := by
  simp only [transpHandsOn, exec, hostStep, State.step, State.run, receivePath, handOnTo, tsub_zero, ite_self, ↓reduceIte, one_ne_zero,
    Nat.sub_self, Option.bind_fun_some, Option.bind_some, Function.update_self, Function.update_idem, zero_add,
    Option.some.injEq, State.mk.injEq]
  refine ⟨?_, ?_, ?_⟩ <;> funext x <;> cases x <;> simp [Function.update]
  split_ifs <;> rfl

theorem exec_recvThreadTakes :
    exec (hostStep n) (receivePath n f slot [] transp net 1 datagram) (recvThreadTakes n slot (.give (.waitBuff slot) :: recv)) =
      some (receivePath n f slot recv transp net 0 datagram) := by
  simp only [recvThreadTakes, exec, hostStep, State.step, receivePath, ite_self, Nat.sub_self, ↓reduceIte, one_ne_zero, Resource.worker,
    State.start, Option.bind_some, State.run, Option.bind_fun_some, Function.update_self, Function.update_idem, zero_add,
    tsub_zero, Option.some.injEq, State.mk.injEq]
  refine ⟨?_, ?_, ?_⟩ <;> funext x <;> cases x <;> simp [Function.update]
  split_ifs <;> rfl

/-- `recv_thread` gets done with none of the five segments. -/
theorem exec_fiveSegments (hfree : f .recvFrame = 0) :
    exec (hostStep n) (receivePath n f slot [] [] [] 0 0) (fiveSegments n slot (.give (.waitBuff slot) :: recv)) =
      some (receivePath n f slot recv (handOnTo slot) handOn 1 1) := by
  simp only [fiveSegments, exec_append, exec_frameComes hfree, exec_netHandsOn, exec_transpTakes, exec_transpHandsOn,
    exec_recvThreadTakes, Option.bind_some]

/-- With data or a FIN, `recv_thread` first locks `mutex_con`. -/
theorem recvThreadOps_con (sp : ServicePoint) (slot : Slot) {segment : Segment} (node : Nat)
    (hflags : segment.flags = .dados ∨ segment.flags = .fin) :
    ∃ rest, sp.recvThreadOps slot segment node = .give (.waitBuff slot) :: .take (.mutex slot .con) :: rest ∧
      owed (.take (.mutex slot .con) :: rest) = [] := by
  by_cases hstray : segment.flags = .dados ∧ sp.flagCon ≠ .comConexao
  · refine ⟨[], ?_, rfl⟩
    simp [ServicePoint.recvThreadOps, ServicePoint.switchOps, hstray.1, hstray.2, lockOps, LockOp.hostOp]
  · have hserve : HostServes 0 (.waitBuff slot) (sp.recvThreadOps slot segment node) :=
      .waitBuff slot sp segment node fun hdados => not_not.1 fun hf => hstray ⟨hdados, hf⟩
    obtain ⟨rest, hops⟩ : ∃ rest, sp.recvThreadOps slot segment node =
        .give (.waitBuff slot) :: .take (.mutex slot .con) :: rest := by
      unfold ServicePoint.recvThreadOps ServicePoint.switchOps
      rcases hflags with hflags | hflags <;> rw [hflags]
      · dsimp only
        split
        · exact ⟨_, rfl⟩
        · exact ⟨_, rfl⟩
      · exact ⟨_, rfl⟩
    have howed := (System.serves_does (S := hostSystem 0 0) hserve).2.2.1
    rw [hops, owed] at howed
    exact ⟨rest, hops, (List.cons.inj howed).2⟩

/-- The steps of the five segments are steps of the threads. -/
theorem along_fiveSegments {s : State (HostThread n) Resource} (sp : ServicePoint) (segment : Segment) (node : Nat) :
    Along (hostStep n) (AnySegment n k) s (fiveSegments n slot (sp.recvThreadOps slot segment node)) := by
  have hframe : ∀ a ∈ frameComes n, ∀ t, AnySegment n k t a := by
    simp only [frameComes, List.forall_mem_cons]
    exact ⟨fun _ => Or.inl HostCalls.linkRecv, fun _ => Or.inl trivial, fun _ => Or.inl (HostServes.recvFrame _),
      fun _ => Or.inl trivial, fun _ => Or.inl trivial, by simp⟩
  have hnet : ∀ a ∈ netHandsOn n, ∀ t, AnySegment n k t a := by
    simp only [netHandsOn, List.forall_mem_cons]
    exact ⟨fun _ => Or.inl trivial, fun _ => Or.inl trivial, by simp⟩
  have htakes : ∀ a ∈ transpTakes n slot, ∀ t, AnySegment n k t a := by
    simp only [transpTakes, List.forall_mem_cons]
    exact ⟨fun _ => Or.inl (HostServes.recvDatagram _), fun _ => Or.inl trivial, by simp⟩
  have htransp : ∀ a ∈ transpHandsOn n, ∀ t, AnySegment n k t a := by
    simp only [transpHandsOn, List.forall_mem_cons]
    exact ⟨fun _ => Or.inl trivial, fun _ => Or.inl trivial, by simp⟩
  have hrecv : ∀ a ∈ recvThreadTakes n slot (sp.recvThreadOps slot segment node), ∀ t, AnySegment n k t a := by
    simp only [recvThreadTakes, List.forall_mem_cons]
    refine ⟨fun _ => ?_, fun _ => Or.inl trivial, by simp⟩
    by_cases hstray : segment.flags = .dados ∧ sp.flagCon ≠ .comConexao
    · exact Or.inr ⟨slot, sp, segment, node, hstray.1, hstray.2, rfl⟩
    · exact Or.inl (HostServes.waitBuff slot sp segment node fun hdados => not_not.1 fun hf => hstray ⟨hdados, hf⟩)
  have hall : ∀ a ∈ fiveSegments n slot (sp.recvThreadOps slot segment node), ∀ t, AnySegment n k t a := by
    simp only [fiveSegments, List.forall_mem_append]
    exact ⟨⟨⟨⟨⟨⟨⟨⟨hframe, hnet⟩, htakes⟩, htransp⟩, hrecv⟩, ⟨⟨hframe, hnet⟩, htakes⟩, htransp⟩, ⟨hframe, hnet⟩, htakes⟩,
      hframe, hnet⟩, hframe⟩
  have hany : Along (hostStep n) (fun _ _ => True) s (fiveSegments n slot (sp.recvThreadOps slot segment node)) :=
    along_of_forall fun _ _ => trivial
  exact hany.mono fun a ha t _ => hall a ha t

/-- From there no thread on the way goes on. -/
theorem dead_receivePath {rest : List HostOp} (hcon : f (.mutex slot .con) = 0)
    (hrest : owed (.take (.mutex slot .con) :: rest) = []) :
    Dead (· = .recvFrame) (Resource.worker n)
        (receivePath n f slot (.take (.mutex slot .con) :: rest) (handOnTo slot) handOn 1 1) .recvDatagram ∧
      Dead (· = .recvFrame) (Resource.worker n)
        (receivePath n f slot (.take (.mutex slot .con) :: rest) (handOnTo slot) handOn 1 1) (.waitBuff slot) := by
  have howed : ∀ r, r ≠ .recvFrame → ∀ t,
      r ∉ owed ((receivePath n f slot (.take (.mutex slot .con) :: rest) (handOnTo slot) handOn 1 1).todo t) := by
    intro r _ t
    cases t with
    | recvThread i =>
      simp only [receivePath]
      split_ifs
      · simp [hrest]
      · simp [owed]
    | _ => simp [receivePath, owed, handOn, handOnTo]
  have hwait : Dead (· = .recvFrame) (Resource.worker n)
      (receivePath n f slot (.take (.mutex slot .con) :: rest) (handOnTo slot) handOn 1 1) (.waitBuff slot) := by
    refine .stuck _ (.mutex slot .con) (.recvThread slot) rest (by simp) (by simp [receivePath]) (howed _ (by simp)) rfl
      (by simp [receivePath]) ?_
    exact .lost _ (by simp) hcon (howed _ (by simp)) rfl
  exact ⟨.stuck _ (.waitBuff slot) .transpRecv [.post (.waitBuff slot)] (by simp) rfl (howed _ (by simp)) rfl rfl hwait, hwait⟩

end HostThreadsAux

/-- Whenever a host is at rest after a `recv_thread` has had data outside a connection, five more segments for that service point, the
first of them data or a FIN, stop it once each has gone as far as it can: from then on, whatever comes and whatever is called,
`internalrecv` of the network layer waits for the one of the transport layer and that for the `recv_thread`, so that nothing is received
any more for any service point, nor forwarded. -/
theorem stray_data_stops_host {n k : Nat} {s : State (HostThread n) Resource} {as : List (Action (HostThread n) Resource)}
    {a : Action (HostThread n) Resource} {slot : Slot} (hok : Along (hostStep n) (AnySegment n k) (hostInit n) as)
    (he : exec (hostStep n) (hostInit n) as = some s) (ha : a ∈ as) (hstray : StrayAt slot a) (hrest : s.AtRest)
    (sp : ServicePoint) (segment : Segment) (node : Nat) (hflags : segment.flags = .dados ∨ segment.flags = .fin) :
    Along (hostStep n) (AnySegment n k) s (fiveSegments n slot (sp.recvThreadOps slot segment node)) ∧
    ∃ s', exec (hostStep n) s (fiveSegments n slot (sp.recvThreadOps slot segment node)) = some s' ∧
      ∀ s'', Reach (hostStep n) (AnySegment n k) s' s'' → s''.todo .netRecv = [.take .recvDatagram, .post .recvDatagram] ∧
        s''.todo .transpRecv = [.take (.waitBuff slot), .post (.waitBuff slot)] := by
  have hcredit : ∀ r, (∀ i, r ≠ .mutex i .con) → s.free r = r.credit := by
    intro r hr
    have htotal := (total_run hok he r).2 hr
    rw [total_of_atRest hrest, total_hostInit] at htotal
    exact_mod_cast htotal
  have hcon : s.free (.mutex slot .con) = 0 := by
    have htotal := total_con hok he ha hstray
    rw [total_of_atRest hrest, total_hostInit] at htotal
    simp only [Resource.credit] at htotal
    omega
  have hpath : s = receivePath n s.free slot [] [] [] 0 0 := by
    obtain ⟨todo, free, full⟩ := s
    have htodo : ∀ t, todo t = [] := hrest.1
    have hfull : ∀ r, full r = 0 := hrest.2
    simp only [receivePath, State.mk.injEq]
    refine ⟨?_, ?_, ?_⟩
    · funext t
      cases t <;> simp [htodo]
    · funext r
      cases r with
      | waitBuff i =>
        show free (.waitBuff i) = if i = slot then 1 else free (.waitBuff i)
        split_ifs
        · exact hcredit (.waitBuff i) (by simp)
        · rfl
      | recvDatagram => exact hcredit .recvDatagram (by simp)
      | _ => rfl
    · funext r
      cases r <;> simp [hfull]
  obtain ⟨rest, hops, howed⟩ := recvThreadOps_con sp slot node hflags
  have hfive : exec (hostStep n) (receivePath n s.free slot [] [] [] 0 0)
      (fiveSegments n slot (.give (.waitBuff slot) :: .take (.mutex slot .con) :: rest)) =
      some (receivePath n s.free slot (.take (.mutex slot .con) :: rest) (handOnTo slot) handOn 1 1) :=
    exec_fiveSegments (hcredit .recvFrame (by simp))
  rw [← hops, ← hpath] at hfive
  obtain ⟨hdatagram, hwait⟩ := dead_receivePath (n := n) hcon howed
  refine ⟨along_fiveSegments sp segment node, _, hfive, fun s'' hany => ⟨?_, ?_⟩⟩
  · exact hdatagram.run (fun _ _ h => spares_anySegment h) rfl hany
  · exact hwait.run (fun _ _ h => spares_anySegment h) rfl hany

/-- A FIN for the first service point. -/
def strayFin : Segment := { src := 2, dest := 0, seqNum := 8, ackNum := 0, flags := .fin, windowSize := 4, data := [] }

/-- It comes, and four segments more for the same point. -/
theorem first_point_stops_host : ∃ s s', exec (hostStep 1) (hostInit 1) strayDataRun = some s ∧
    exec (hostStep 1) s (fiveSegments 1 firstPoint (allocServicePoint.sp.recvThreadOps firstPoint strayFin 0)) = some s' ∧
    ∀ s'', Reach (hostStep 1) (AnySegment 1 2) s' s'' → s''.todo .netRecv = [.take .recvDatagram, .post .recvDatagram] ∧
      s''.todo .transpRecv = [.take (.waitBuff firstPoint), .post (.waitBuff firstPoint)] := by
  obtain ⟨s, hs, hrest⟩ := exec_strayDataRun
  obtain ⟨a, ha, hstray⟩ := strayAt_strayDataRun
  obtain ⟨-, s', hfive, hstop⟩ := stray_data_stops_host along_strayDataRun hs ha hstray hrest
    allocServicePoint.sp strayFin 0 (Or.inr rfl)
  exact ⟨s, s', hs, hfive, hstop⟩

end NetworkLayers
