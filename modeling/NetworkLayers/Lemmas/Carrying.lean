import NetworkLayers.Theorems.Connection
import NetworkLayers.Lemmas.Progress
import NetworkLayers.Theorems.StackDelivery

/-!
# What the threads can carry

The threads of the hosts can bring a segment of one of two service points to the other by themselves, however much of other packets
is on its way: the queues are emptied, and where the transport layers have taken what they were given, a round of `Lemmas.Progress` is a
run of the whole.
-/

namespace NetworkLayers

open Transition StackAux OutgoingAux

/-- The step is one of the threads that build, send, forward and receive segments. No application calls anything in it, and no link,
garbler or route is changed. -/
def ConnectionAction.Works : ConnectionAction → Prop
  | .point _ .sendThread | .point _ (.segSendThread _) | .internalrecv _ | .recvThread .. => True
  | .below (.internalsend ..) | .below (.internalrecv ..) => True
  | _ => False

/-- What the transport layer of a host has been given and its `internalrecv` has not taken yet. -/
def Connection.untaken (s : Connection) (n : HostIndex) : List Delivered :=
  (s.stack.delivered.filter fun d => d.host = n).drop (s.received n)

/-- The two points and the transport layers of their hosts have taken all they have been given. -/
structure Connection.Quiet (e : Ends) (s : Connection) : Prop where
  waitBuff : ∀ y, s.waitBuff y = none
  untaken : ∀ y, s.untaken (e.host y) = []

namespace CarryingAux

open ConnectionAux ProgressAux

variable {t : Topology} {e : Ends} {s s' : Connection} {r : SwitchNet} {x y : Side} {q : Nat} {n : HostIndex}

/-- A step of a thread. -/
def Works (t : Topology) (e : Ends) (s s' : Connection) : Prop := ∃ a : ConnectionAction, a.Works ∧ s.step t e a = some s'

/-! ## What a thread leaves alone -/

theorem netSends_leaves {stack stack' : Stack} {out : List Packet}
    (hs : out.foldlM (fun stack pkt => Stack.step t stack (.netSend n pkt.dest pkt.bytes)) stack = some stack') :
    (∀ m, (stack'.hosts m).garbler = (stack.hosts m).garbler) ∧ stack'.delivered = stack.delivered := by
  induction out generalizing stack with
  | nil =>
    obtain rfl : stack = stack' := Option.some.inj hs
    exact ⟨fun _ => rfl, rfl⟩
  | cons pkt out ih =>
    rw [List.foldlM_cons] at hs
    obtain ⟨stack₁, hs₁, hs⟩ := Option.bind_eq_some_iff.1 hs
    obtain ⟨hgarbler₁, hdelivered₁, -⟩ := netSend_leaves hs₁
    obtain ⟨hgarbler, hdelivered⟩ := ih hs
    exact ⟨fun m => (hgarbler m).trans (hgarbler₁ m), hdelivered.trans hdelivered₁⟩

/-- What `send` does to the rest. -/
theorem send_spec {o : Endpoint × List Packet} (hs : s.send t e x o = some s') :
    s'.received = s.received ∧ s'.waitBuff = s.waitBuff ∧ s'.stack.delivered = s.stack.delivered ∧
      s'.session = { point := Function.update s.point x o.1, packets := s.packets ++ o.2 } := by
  obtain ⟨stack, hstack, rfl⟩ := Option.map_eq_some_iff.1 hs
  exact ⟨rfl, rfl, (netSends_leaves hstack).2, rfl⟩

/-- A packet that was written is within the C types. -/
theorem typed_of_onWire {pkt : Packet} (h : pkt.OnWire) (rnd : Nat) : (PointAction.recvThread pkt rnd).Typed := by
  have hfields := h.fits.fields
  exact ⟨hfields (2, pkt.segment.src) (by simp [RawSegment.header, Segment.raw]),
    hfields (2, pkt.segment.windowSize) (by simp [RawSegment.header, Segment.raw])⟩

/-- What `recv_thread` is given is within its C types. -/
theorem typed_of_arrived {pkt : Packet} (h : s.Arrived e x pkt) (rnd : Nat) : (PointAction.recvThread pkt rnd).Typed := by
  obtain ⟨sent, -, hwire, rfl⟩ := h
  exact typed_of_onWire hwire rnd

/-- `internalrecv` takes one, and leaves the rest to others. -/
theorem internalrecv_spec (hs : s.internalrecv e n = some s') :
    s'.stack = s.stack ∧ s'.session = s.session ∧ s'.received = Function.update s.received n (s.received n + 1) ∧
      (s.next n).isSome := by
  unfold Connection.internalrecv at hs
  split at hs
  · cases hs
  · rename_i d hnext
    rw [hnext]
    split at hs
    · cases hs
    · simp only at hs
      split at hs
      · unfold Connection.dispatch Connection.put at hs
        split at hs
        · cases hs
        · split at hs
          · split at hs
            · obtain rfl := Option.some.inj hs
              exact ⟨rfl, rfl, rfl, rfl⟩
            · cases hs
          · obtain rfl := Option.some.inj hs
            exact ⟨rfl, rfl, rfl, rfl⟩
      · obtain rfl := Option.some.inj hs
        exact ⟨rfl, rfl, rfl, rfl⟩

/-- What a step is to the layers below: a point passes on what an action makes of it, `internalrecv` takes what a host has been given,
they take a step themselves, or nothing. -/
inductive OnStack (t : Topology) (e : Ends) (s s' : Connection) : ConnectionAction → Prop where
  | send {a : ConnectionAction} {s₁ : Connection} {x : Side} {act : PointAction} {o : Endpoint × List Packet} :
      s₁.stack = s.stack → s₁.received = s.received → (s.point x).act (e.places.addr x) act = some o → act.Typed →
      s₁.send t e x o = some s' → OnStack t e s s' a
  | read {a : ConnectionAction} {n : HostIndex} : s'.stack = s.stack →
      s'.received = Function.update s.received n (s.received n + 1) → (s.next n).isSome → OnStack t e s s' a
  | below {b : StackAction} : s.stack.step t b = some s'.stack → s'.received = s.received → OnStack t e s s' (.below b)
  | none {a : ConnectionAction} : s'.stack = s.stack → s'.received = s.received → OnStack t e s s' a

theorem onStack (htracks : Tracks t e s) {a : ConnectionAction} (hfits : a.Fits t e) (hs : s.step t e a = some s') :
    OnStack t e s s' a := by
  cases a with
  | point x act =>
    have hact : ∀ pkt rnd, act ≠ .recvThread pkt rnd := by
      rintro pkt rnd rfl
      cases hs
    have htyped : act.Typed := by
      cases act with
      | connectPoint dest destPoint windowSize rnd => exact hfits
      | recvThread pkt rnd => exact absurd rfl (hact pkt rnd)
      | _ => trivial
    have hs : ((s.point x).act (e.places.addr x) act).bind (s.send t e x) = some s' := by
      cases act with
      | recvThread pkt rnd => exact absurd rfl (hact pkt rnd)
      | _ => exact hs
    obtain ⟨o, ho, hsend⟩ := Option.bind_eq_some_iff.1 hs
    exact .send rfl rfl ho htyped hsend
  | internalrecv n =>
    obtain ⟨hstack, -, hreceived, hnext⟩ := internalrecv_spec hs
    exact .read hstack hreceived hnext
  | recvThread x rnd =>
    simp only [Connection.step, Connection.recvThread] at hs
    split at hs
    · cases hs
    · rename_i pkt hpkt
      split at hs
      · cases hs
      · split at hs
        · obtain rfl := Option.some.inj hs
          exact .none rfl rfl
        · obtain ⟨o, ho, hsend⟩ := Option.bind_eq_some_iff.1 hs
          have ho' : (s.point x).act (e.places.addr x) (.recvThread pkt rnd) = some o := ho
          have hsend' : (cleared s x).send t e x o = some s' := hsend
          generalize hs₁ : cleared s x = s₁ at hsend'
          exact .send (hs₁ ▸ rfl) (hs₁ ▸ rfl) ho' (typed_of_arrived (htracks.waitBuff x pkt hpkt) rnd) hsend'
  | syncThread x i rnd =>
    simp only [Connection.step, Connection.syncThread] at hs
    split at hs
    · cases hs
    · rename_i pkt hpkt
      obtain ⟨o, ho, hsend⟩ := Option.bind_eq_some_iff.1 hs
      have ho' : (s.point x).act (e.places.addr x) (.recvThread pkt rnd) = some o := ho
      generalize hs₁ : ({ s with syncs := Function.update s.syncs x ((s.syncs x).eraseIdx i) } : Connection) = s₁ at hsend
      exact .send (hs₁ ▸ rfl) (hs₁ ▸ rfl) ho' (typed_of_arrived (htracks.syncs x pkt (List.mem_of_getElem? hpkt)) rnd) hsend
  | below a =>
    obtain ⟨stack, hstack, rfl⟩ := Option.map_eq_some_iff.1 hs
    exact .below hstack rfl

/-- The layers below follow the same nodes when a point has passed on its packets. -/
theorem refines_send (hlinks : FitsLinks t (maxSegmentSize + transportHeaderSize)) (htracks : Tracks t e s)
    (hr : Refines t s.stack r) {s₁ : Connection} (hstack : s₁.stack = s.stack) {act : PointAction} {o : Endpoint × List Packet}
    (hact : (s.point x).act (e.places.addr x) act = some o) (htyped : act.Typed) (hs : s₁.send t e x o = some s') :
    Refines t s'.stack r := by
  obtain ⟨stack, hsends, rfl⟩ := Option.map_eq_some_iff.1 hs
  rw [hstack] at hsends
  exact (exists_netSends hlinks ((htracks.sendable x).outgoing (slot_lt e x) (act_does hact) htyped) hr hsends).1

theorem refines_works (hlinks : FitsLinks t (maxSegmentSize + transportHeaderSize)) (htracks : Tracks t e s)
    (hr : Refines t s.stack r) {a : ConnectionAction} (ha : a.Works) (h : OnStack t e s s' a) :
    Refines t s'.stack r ∧ ∀ m, (s'.stack.hosts m).garbler = (s.stack.hosts m).garbler := by
  cases h with
  | send hstack _ hact htyped hs =>
    refine ⟨refines_send hlinks htracks hr hstack hact htyped hs, fun m => ?_⟩
    obtain ⟨stack, hsends, rfl⟩ := Option.map_eq_some_iff.1 hs
    rw [hstack] at hsends
    exact (netSends_leaves hsends).1 m
  | read hstack | none hstack => exact ⟨hstack ▸ hr, fun m => by rw [hstack]⟩
  | @below b hb =>
    cases b with
    | internalsend n draws => exact ⟨refines_internalsend hr hb, (leaves_step (a := .internalsend n draws) trivial hb).garbler⟩
    | internalrecv n datagram => exact ⟨refines_internalrecv hr hb, (leaves_step (a := .internalrecv n datagram) trivial hb).garbler⟩
    | _ => exact ha.elim

theorem fits_of_works {a : ConnectionAction} (ha : a.Works) : a.Fits t e ∧ a.KeepsOpen := by
  cases a with
  | internalrecv n | recvThread x rnd => exact ⟨trivial, trivial⟩
  | syncThread x i rnd => exact ha.elim
  | point x act =>
    cases act with
    | sendThread | segSendThread i => exact ⟨trivial, trivial⟩
    | _ => exact ha.elim
  | below a =>
    cases a with
    | internalsend n draws | internalrecv n datagram => exact ⟨trivial, trivial⟩
    | _ => exact ha.elim

theorem noPut_of_matches {a : ConnectionAction} (ha : a.Works) {m : Side × PointAction} (h : Matches a m) :
    ∀ i, m.2 ≠ .sendPut i := by
  cases a with
  | point x act =>
    obtain rfl := h
    intro i hact
    obtain rfl : act = .sendPut i := hact
    exact ha
  | recvThread x rnd =>
    obtain ⟨pkt, rfl⟩ := h
    exact fun i hact => by cases hact
  | syncThread x i rnd => exact ha.elim
  | internalrecv n | below a => exact h.elim

/-- `internalrecv` of the transport layers has taken no more than they were given. -/
def Counted (s : Connection) : Prop := ∀ n, s.received n ≤ (s.stack.delivered.filter fun d => d.host = n).length

theorem Counted.of_more (h : Counted s) (hreceived : s'.received = s.received) (hmore : s.stack.delivered <+: s'.stack.delivered) :
    Counted s' := by
  intro m
  rw [hreceived]
  exact (h m).trans (hmore.filter _).length_le

theorem counted_step (h : Counted s) {a : ConnectionAction} (hs : OnStack t e s s' a) : Counted s' := by
  cases hs with
  | send hstack hreceived _ _ hsend =>
    obtain ⟨hreceived', -, hdelivered, -⟩ := send_spec hsend
    refine h.of_more (hreceived'.trans hreceived) ?_
    rw [hdelivered, hstack]
  | @read _ n hstack hreceived hnext =>
    intro m
    rw [hstack, hreceived]
    by_cases hm : m = n
    · subst hm
      rw [Function.update_self]
      obtain ⟨d, hd⟩ := Option.isSome_iff_exists.1 hnext
      exact (List.getElem?_eq_some_iff.1 hd).1
    · rw [Function.update_of_ne hm]
      exact h m
  | below hb hreceived => exact h.of_more hreceived (StackAux.accepted_step hb).1
  | none hstack hreceived => exact h.of_more hreceived (hstack ▸ List.prefix_rfl)

/-- What holds while the threads of an open connection go on by themselves. -/
structure Going (t : Topology) (e : Ends) (x : Side) (q : Nat) (r : SwitchNet) (s : Connection) : Prop where
  tracks : Tracks t e s
  refines : Refines t s.stack r
  garbler : ∀ m, LetsThrough (s.stack.hosts m).garbler
  counted : Counted s
  ready : Ready e.places x q s.session

/-- The packets of the two points stay while a thread works. -/
theorem noneFreed_before (hlinks : FitsLinks t (maxSegmentSize + transportHeaderSize)) (htracks : Tracks t e s) (hs : Works t e s s') :
    Tracks t e s' ∧ (s'.session.NoneFreed e.places x → s.session.NoneFreed e.places x) := by
  obtain ⟨a, ha, hs⟩ := hs
  obtain ⟨htracks', hsame | ⟨m, -, hstep⟩⟩ := tracks_step hlinks htracks (fits_of_works (t := t) (e := e) ha).1 hs
  · exact ⟨htracks', fun hread => hsame ▸ hread⟩
  · exact ⟨htracks', fun hread => NoWrapAux.NoneFreed.before hread hstep⟩

theorem going_works (hlinks : FitsLinks t (maxSegmentSize + transportHeaderSize)) (h : Going t e x q r s)
    (hread : s'.session.NoneFreed e.places x) (hs : Works t e s s') :
    Going t e x q r s' ∧ (s'.point x).history.accepted = (s.point x).history.accepted := by
  obtain ⟨a, ha, hs⟩ := hs
  obtain ⟨hfits, hopen⟩ := fits_of_works (t := t) (e := e) ha
  have hon := onStack h.tracks hfits hs
  obtain ⟨hrefines, hset⟩ := refines_works hlinks h.tracks h.refines ha hon
  have hgarbler : ∀ m, LetsThrough (s'.stack.hosts m).garbler := by
    intro m
    rw [hset m]
    exact h.garbler m
  have hcounted := counted_step h.counted hon
  obtain ⟨htracks, hsame | ⟨m, hm, hstep⟩⟩ := tracks_step hlinks h.tracks hfits hs
  · refine ⟨⟨htracks, hrefines, hgarbler, hcounted, hsame ▸ h.ready⟩, ?_⟩
    exact congrArg (fun session => (session.point x).history.accepted) hsame
  · have hput := noPut_of_matches ha hm
    exact ⟨⟨htracks, hrefines, hgarbler, hcounted, ready_step h.ready hread (noClose_of_matches hopen hm s.session) hput hstep⟩,
      accepted_step hput hstep⟩

theorem tracks_moves (hlinks : FitsLinks t (maxSegmentSize + transportHeaderSize)) (htracks : Tracks t e s)
    (hs : Relation.ReflTransGen (Works t e) s s') : Tracks t e s' := by
  induction hs with
  | refl => exact htracks
  | tail _ hstep ih => exact (noneFreed_before (x := .a) hlinks ih hstep).1

theorem going_moves (hlinks : FitsLinks t (maxSegmentSize + transportHeaderSize)) (h : Going t e x q r s)
    (hs : Relation.ReflTransGen (Works t e) s s') (hread : s'.session.NoneFreed e.places x) :
    Going t e x q r s' ∧ (s'.point x).history.accepted = (s.point x).history.accepted := by
  induction hs with
  | refl => exact ⟨h, rfl⟩
  | tail hmoves hstep ih =>
    obtain ⟨hgoing, hsame⟩ := ih ((noneFreed_before hlinks (tracks_moves hlinks h.tracks hmoves) hstep).2 hread)
    obtain ⟨h', haccepted⟩ := going_works hlinks hgoing hread hstep
    exact ⟨h', haccepted.trans hsame⟩

/-! ## What a thread can do next -/

/-- What the layers below do by themselves. -/
theorem works_of_goes {stack' : Stack} (h : Goes t s.stack stack') :
    Relation.ReflTransGen (Works t e) s { s with stack := stack' } := by
  obtain ⟨as, has, hmoves⟩ := h.run
  clear h
  induction as generalizing s with
  | nil =>
    obtain rfl : s.stack = stack' := Option.some.inj has
    exact .refl
  | cons a as ih =>
    obtain ⟨stack₁, hs₁, has⟩ := Option.bind_eq_some_iff.1 has
    obtain ⟨ha, hrest⟩ := List.forall_mem_cons.1 hmoves
    have hworks : (ConnectionAction.below a).Works := by
      cases a with
      | internalsend n draws | internalrecv n datagram => trivial
      | _ => exact ha.elim
    have hstep : s.step t e (.below a) = some { s with stack := stack₁ } := by rw [Connection.step, hs₁, Option.map_some]
    have hlast := ih (s := { s with stack := stack₁ }) has hrest
    exact hlast.head ⟨_, hworks, hstep⟩

/-- The send queue of a host is emptied. -/
theorem exists_idle (h : Refines t s.stack r) (n : HostIndex) :
    ∃ stack', Relation.ReflTransGen (Works t e) s { s with stack := stack' } ∧ (stack'.hosts n).waitList = [] ∧
      stack'.delivered = s.stack.delivered := by
  obtain ⟨stack', hgoes, -, hempty, hdelivered, -⟩ := exists_drained h n
  exact ⟨stack', works_of_goes hgoes, hempty, hdelivered⟩

/-- Neither point waits for a mutex. -/
theorem Going.free (h : Going t e x q r s) (y : Side) : (s.point y).sp.mutexCon = false ∧ (s.point y).recvBlocked = false := by
  have hf : (s.point y).sp.flagCon = .comConexao := by
    rcases Side.eq_or_eq_other x y with rfl | rfl
    · exact h.ready.live.opened.flagCon
    · exact h.ready.live.inv.reliable.streaming.receiver
  have hm := (h.ready.live.unlocked y).1 hf
  refine ⟨hm, ?_⟩
  by_contra hb
  have hlocked := (h.ready.live.unlocked y).2 (eq_true_of_ne_false hb)
  exact absurd (hm.symm.trans hlocked) (by decide)

/-! ## What is left to take -/

theorem next_eq (s : Connection) (n : HostIndex) : s.next n = (s.untaken n).head? := by
  unfold Connection.next Connection.untaken
  rw [List.head?_drop]

/-- A host whose `internalrecv` has taken one is left with the others. -/
theorem untaken_taken (hstack : s'.stack = s.stack) (hreceived : s'.received = Function.update s.received n (s.received n + 1))
    (m : HostIndex) : s'.untaken m = if m = n then (s.untaken n).tail else s.untaken m := by
  unfold Connection.untaken
  rw [hstack, hreceived]
  split
  · rename_i hm
    rw [hm, Function.update_self, List.tail_drop]
  · rename_i hm
    rw [Function.update_of_ne hm]

theorem untaken_same (hdelivered : s'.stack.delivered = s.stack.delivered) (hreceived : s'.received = s.received) (m : HostIndex) :
    s'.untaken m = s.untaken m := by
  unfold Connection.untaken
  rw [hdelivered, hreceived]

/-- Where the service point is. -/
theorem side_host (e : Ends) (y : Side) : e.side (e.host y) (e.slot y).val = some y := by
  cases y with
  | a => simp [Ends.side]
  | b =>
    have hne : ¬(e.host .a = e.host .b ∧ (e.slot .a).val = (e.slot .b).val) := fun h =>
      e.distinct (Prod.ext h.1 (Fin.ext h.2))
    rw [Ends.side, if_neg hne, if_pos ⟨rfl, rfl⟩]

/-- One of the points is about to handle a packet, and nothing else is left to take. -/
structure Laden (e : Ends) (s : Connection) (y : Side) (pkt : Packet) : Prop where
  waitBuff : s.waitBuff y = some pkt.plain
  other : s.waitBuff y.other = none
  untaken : ∀ z, s.untaken (e.host z) = []

/-- A packet from one of the points to the other. -/
structure Between (e : Ends) (y : Side) (pkt : Packet) : Prop where
  onWire : pkt.OnWire
  src : pkt.src = hostNum (e.host y)
  dest : pkt.dest = hostNum (e.host y.other)
  point : pkt.segment.dest = (e.slot y.other).val

theorem host_ne (hhosts : e.host .a ≠ e.host .b) (y : Side) : e.host y.other ≠ e.host y := by
  cases y with
  | a => exact hhosts.symm
  | b => exact hhosts

/-- What its host is given with a packet for a point comes to `wait_buff`. -/
theorem exists_laden (hhosts : e.host .a ≠ e.host .b) (hwait : ∀ z, s.waitBuff z = none) {pkt : Packet} (hpkt : Between e y pkt)
    (huntaken : s.untaken (e.host y.other) = [⟨e.host y.other, hostNum (e.host y), pkt.bytes.map some⟩])
    (hrest : s.untaken (e.host y) = []) :
    ∃ s', Works t e s s' ∧ s'.session = s.session ∧ Laden e s' y.other pkt := by
  have hnext : s.next (e.host y.other) = some ⟨e.host y.other, hostNum (e.host y), pkt.bytes.map some⟩ := by
    rw [next_eq, huntaken, List.head?_cons]
  generalize hd : (⟨e.host y.other, hostNum (e.host y), pkt.bytes.map some⟩ : Delivered) = d at huntaken hnext
  have hhost : d.host = e.host y.other := by rw [← hd]
  have hlen : d.data.length = pkt.bytes.length := by rw [← hd, List.length_map]
  have hbytes : d.bytes = pkt.bytes := bytes_map_some (by rw [← hd])
  obtain ⟨c, hc⟩ := rcvSegment_bytes hpkt.onWire
  have hrecv : d.recv { pkt.segment.raw with checksum := c } = some pkt.plain := by
    rw [Delivered.recv, segment_raw, Option.map_some, Packet.plain, hlen, length_bytes hpkt.onWire, hhost, ← hpkt.dest, hpkt.src,
      ← hd]
  generalize hseg : ({ pkt.segment.raw with checksum := c } : RawSegment) = newSeg at hc hrecv
  have hdest : newSeg.dest = (e.slot y.other).val := by
    rw [← hpkt.point, ← hseg]
    rfl
  have hside : e.side d.host newSeg.dest = some y.other := by rw [hhost, hdest, side_host]
  have hslot : ¬maxServicePoints ≤ newSeg.dest := by
    rw [hdest, Nat.not_le]
    exact (e.slot y.other).isLt
  generalize hs₁ : ({ s with received := Function.update s.received (e.host y.other) (s.received (e.host y.other) + 1) } : Connection) = s₁
  obtain ⟨hsession, hstack, hreceived, hwait₁⟩ : s₁.session = s.session ∧ s₁.stack = s.stack ∧
      s₁.received = Function.update s.received (e.host y.other) (s.received (e.host y.other) + 1) ∧ s₁.waitBuff = s.waitBuff := by
    rw [← hs₁]
    exact ⟨rfl, rfl, rfl, rfl⟩
  have hnone : (s₁.waitBuff y.other).isNone := by rw [hwait₁, hwait]; rfl
  have hstep : s.step t e (.internalrecv (e.host y.other)) =
      some { s₁ with waitBuff := Function.update s₁.waitBuff y.other (some pkt.plain) } := by
    simp only [Connection.step, Connection.internalrecv, hnext, hbytes, hlen, hc, hs₁, if_true]
    simp only [Connection.dispatch, hrecv, hside, if_neg hslot, Connection.put, if_pos hnone]
  have hall := untaken_taken hstack hreceived
  refine ⟨_, ⟨.internalrecv (e.host y.other), trivial, hstep⟩, hsession, Function.update_self .., ?_, fun z => ?_⟩
  · show Function.update s₁.waitBuff y.other (some pkt.plain) y.other.other = none
    rw [Function.update_of_ne (Side.other_ne y.other), hwait₁, hwait]
  · show s₁.untaken (e.host z) = []
    rcases Side.eq_or_eq_other y z with rfl | rfl
    · rw [hall, if_neg (host_ne hhosts z).symm, hrest]
    · rw [hall, if_pos rfl, huntaken, List.tail_cons]

/-- What a point sends, while nothing else is left to take, comes to the other. -/
theorem exists_carried (hlinks : FitsLinks t (maxSegmentSize + transportHeaderSize)) (hhosts : e.host .a ≠ e.host .b)
    (hsound : SoundSwitch t r) (hcost : r.net.cost (e.host y) (e.host y.other) ≠ 0) (h : Refines t s.stack r)
    (hgarbler : ∀ m, LetsThrough (s.stack.hosts m).garbler) (hcounted : Counted s) (hquiet : s.Quiet e)
    (hempty : (s.stack.hosts (e.host y)).waitList = []) {p : Endpoint} {pkt : Packet} (hpkt : Between e y pkt) :
    ∃ s₁, s.send t e y (p, [pkt]) = some s₁ ∧ ∃ s', Relation.ReflTransGen (Works t e) s₁ s' ∧ s'.session = s₁.session ∧
      Laden e s' y.other pkt := by
  have hsmall := hpkt.onWire.small
  have hlength : pkt.bytes.length = pkt.dataSize + transportHeaderSize := (length_bytes hpkt.onWire).trans hpkt.onWire.size
  have hudp : pkt.bytes.length + 32 ≤ maxUdpSize := by
    rw [hlength]
    unfold maxSegmentSize at hsmall
    unfold transportHeaderSize maxUdpSize
    omega
  have hfit : FitsLinks t pkt.bytes.length := by
    intro i j
    have hle := hlinks i j
    omega
  obtain ⟨item, stack₁, hstep, -, hdelivered₁, hlist, hgo, hsrc, hdata⟩ :=
    exists_passed_on h hsound hempty hgarbler (host_ne hhosts y) hcost hudp
  obtain ⟨stack₂, hgoes, hdelivered₂⟩ := exists_delivered hsound (refines_netSend h hfit hstep) hlist hgo
  rw [hdelivered₁, hsrc, hdata] at hdelivered₂
  generalize hs₁ : ({ s with stack := stack₁, point := Function.update s.point y p, packets := s.packets ++ [pkt] } : Connection) = s₁
  have hsend : s.send t e y (p, [pkt]) = some s₁ := by
    rw [Connection.send, List.foldlM_cons, hpkt.dest, hstep, ← hs₁]
    rfl
  obtain ⟨hstack, hreceived, hwait⟩ : s₁.stack = stack₁ ∧ s₁.received = s.received ∧ s₁.waitBuff = s.waitBuff := by
    rw [← hs₁]
    exact ⟨rfl, rfl, rfl⟩
  rw [← hstack] at hgoes
  -- the host of the other point has been given one more
  have huntaken : ∀ m, ({ s₁ with stack := stack₂ } : Connection).untaken m =
      ((s.stack.delivered.filter fun d => d.host = m) ++
        ([⟨e.host y.other, hostNum (e.host y), pkt.bytes.map some⟩] : List Delivered).filter fun d => d.host = m).drop
          (s.received m) := by
    intro m
    show (stack₂.delivered.filter _).drop (s₁.received m) = _
    rw [hdelivered₂, List.filter_append, hreceived]
  have hfull : ∀ z, (s.stack.delivered.filter fun d => d.host = e.host z).length = s.received (e.host z) := by
    intro z
    have hlen := congrArg List.length (hquiet.untaken z)
    rw [Connection.untaken, List.length_drop, List.length_nil] at hlen
    have hle := hcounted (e.host z)
    omega
  have hown : ({ s₁ with stack := stack₂ } : Connection).untaken (e.host y.other) =
      [⟨e.host y.other, hostNum (e.host y), pkt.bytes.map some⟩] := by
    rw [huntaken, ← hfull, List.drop_left]
    simp
  have hrest : ({ s₁ with stack := stack₂ } : Connection).untaken (e.host y) = [] := by
    rw [huntaken, ← hfull, List.drop_left]
    simp [host_ne hhosts y]
  obtain ⟨s', hlast, hsession, hladen⟩ := exists_laden (t := t) (s := { s₁ with stack := stack₂ }) hhosts
    (fun z => by rw [show ({ s₁ with stack := stack₂ } : Connection).waitBuff = s₁.waitBuff from rfl, hwait]; exact hquiet.waitBuff z)
    hpkt hown hrest
  exact ⟨s₁, hsend, s', (works_of_goes hgoes).tail hlast, hsession, hladen⟩

/-! ## A round is carried -/

theorem Quiet.of_same (h : s.Quiet e) (hdelivered : s'.stack.delivered = s.stack.delivered) (hreceived : s'.received = s.received)
    (hwait : s'.waitBuff = s.waitBuff) : s'.Quiet e where
  waitBuff z := by rw [hwait, h.waitBuff]
  untaken z := by rw [untaken_same hdelivered hreceived, h.untaken]

theorem Laden.of_same {pkt : Packet} (h : Laden e s y pkt) (hdelivered : s'.stack.delivered = s.stack.delivered)
    (hreceived : s'.received = s.received) (hwait : s'.waitBuff = s.waitBuff) : Laden e s' y pkt where
  waitBuff := by rw [hwait, h.waitBuff]
  other := by rw [hwait, h.other]
  untaken z := by rw [untaken_same hdelivered hreceived, h.untaken]

theorem Laden.cleared {pkt : Packet} (h : Laden e s y pkt) : (cleared s y).Quiet e where
  waitBuff z := by
    unfold ConnectionAux.cleared
    rcases Side.eq_or_eq_other y z with rfl | rfl
    · exact Function.update_self ..
    · exact (Function.update_of_ne (Side.other_ne y) ..).trans h.other
  untaken z := h.untaken z

section Rounds

variable (hlinks : FitsLinks t (maxSegmentSize + transportHeaderSize)) (hhosts : e.host .a ≠ e.host .b) (hsound : SoundSwitch t r)
  (hcost : ∀ y, r.net.cost (e.host y) (e.host y.other) ≠ 0)

include hlinks

include hhosts hsound hcost

/-- A thread of a point sends a packet, and it comes to the other point. -/
theorem exists_sent (h : Going t e x q r s) (hquiet : s.Quiet e) {i : Nat} {p : Endpoint} {pkt : Packet}
    (hact : (s.point y).act (e.places.addr y) (.segSendThread i) = some (p, [pkt])) (hpkt : Between e y pkt) :
    ∃ s', Relation.ReflTransGen (Works t e) s s' ∧
      s'.session = { point := Function.update s.point y p, packets := s.packets ++ [pkt] } ∧ Laden e s' y.other pkt := by
  obtain ⟨stack', hmoves, hempty, hdelivered⟩ := exists_idle (e := e) h.refines (e.host y)
  obtain ⟨h₁, -⟩ := going_moves hlinks h hmoves h.ready.noneFreed
  have hquiet₁ : ({ s with stack := stack' } : Connection).Quiet e := Quiet.of_same hquiet hdelivered rfl rfl
  obtain ⟨s₂, hsend, s', hmoves', hsession, hladen⟩ :=
    exists_carried hlinks hhosts hsound (hcost y) h₁.refines h₁.garbler h₁.counted hquiet₁ hempty (p := p) hpkt
  have hstep : ({ s with stack := stack' } : Connection).step t e (.point y (.segSendThread i)) = some s₂ := by
    simp only [Connection.step]
    rw [hact]
    exact hsend
  exact ⟨s', (hmoves.tail ⟨.point y (.segSendThread i), trivial, hstep⟩).trans hmoves', hsession.trans (send_spec hsend).2.2.2, hladen⟩

end Rounds

end CarryingAux

end NetworkLayers
