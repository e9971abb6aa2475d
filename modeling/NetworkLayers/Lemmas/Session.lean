import NetworkLayers.Transport.Session

/-!
# What a step of a service point can do

`act_does` lists, with their guards, the effects an action can have on a service point; what the other modules say about a step
they read off that list. From it follows where the packets in the network come from.
-/

namespace NetworkLayers

open Transition

/-- In a connection, or while it is closed, none is opened. -/
theorem FlagCon.ne_of_inConnection {f : FlagCon} (h : f = .comConexao ∨ f = .encerrando) :
    f ≠ .semConexao ∧ f ≠ .estabelecendo := by
  rcases h with rfl | rfl <;> decide

/-- The effects of an action on a service point, and the packets handed to the network. -/
inductive Endpoint.Does (here : Addr) (p : Endpoint) : PointAction → Endpoint → List Packet → Prop where
  /-- The call is refused, or what arrives is dropped. -/
  | idle (act : PointAction) : p.Does here act p []
  | sync (dest destPoint windowSize rnd : Nat) : p.sp.mutexCon = false → p.sp.flagCon = .semConexao →
      p.Does here (.connectPoint dest destPoint windowSize rnd) (p.sendSync here dest destPoint windowSize rnd) []
  | close : p.sp.mutexCon = false → p.sp.flagCon = .comConexao →
      p.Does here .closeConn
        ({ p with history := { p.history with closing := some p.history.accepted } }.sendFin here .encerrando) []
  | send (buffer : List Byte) : p.sp.flagCon = .comConexao →
      p.Does here (.sendPoint buffer) { p with waiting := p.waiting ++ [buffer.take maxSendSize] } []
  | deposit (i : Nat) (buf : List Byte) : p.sp.mutexProd = false →
      p.Does here (.sendPut i) (p.deposit i buf) []
  | recv (size : Nat) : p.Does here (.recvPoint size) (p.recvPoint size) []
  | takeBuffer : p.sendThread.pc = .cons → p.sp.mutexCons = false → p.Does here .sendThread p.takeBuffer []
  | segment : p.sendThread.pc = .segment → p.sendThread.sendSize ≠ 0 → p.sp.windowSize ≠ 0 →
      p.Does here .sendThread (p.sendSegment here) []
  | bufferSent : p.sendThread.pc = .segment → p.sendThread.sendSize = 0 → p.Does here .sendThread p.bufferSent []
  | window : p.sendThread.pc = .window → p.Does here .sendThread p.sendThreadWindow []
  | firstSend (i : Nat) (t : SegSend) : p.segSends[i]? = some t →
      p.Does here (.segSendThread i) { p with segSends := p.segSends.set i { t with started := true } } [t.pack.packet here p.sp]
  | acked (i : Nat) (t : SegSend) : p.segSends[i]? = some t → t.started = true → isSet p.sp.acks t.pack.lookup = true →
      p.Does here (.segSendThread i) { p with segSends := p.segSends.set i { t with stopped := true } } []
  | resend (i : Nat) (t : SegSend) : p.segSends[i]? = some t →
      p.Does here (.segSendThread i) p [t.pack.packet here p.sp]
  /-- `recv_thread` waits for `mutex_con`. -/
  | block (pkt : Packet) (rnd : Nat) : p.sp.mutexCon = true → p.Does here (.recvThread pkt rnd) { p with recvBlocked := true } []
  /-- `recv_thread` leaves `mutex_con` locked. -/
  | lock (pkt : Packet) (rnd : Nat) : pkt.segment.flags = .dados → p.sp.flagCon ≠ .comConexao →
      p.Does here (.recvThread pkt rnd) { p with sp := { p.sp with mutexCon := true } } []
  | reack (pkt : Packet) (rnd : Nat) : pkt.segment.flags = .dados → p.sp.mutexCon = false → p.sp.flagCon = .comConexao →
      p.sp.verdict pkt.segment.seqNum = .reenviaAck → p.Does here (.recvThread pkt rnd) p [p.sp.ackPacket here pkt]
  | add (pkt : Packet) (rnd : Nat) : pkt.segment.flags = .dados → p.sp.mutexCon = false → p.sp.flagCon = .comConexao →
      p.sp.verdict pkt.segment.seqNum = .addDados →
      p.Does here (.recvThread pkt rnd)
        ({ p with sp := p.sp.addDados pkt, history := { p.history with touched := true } }.took pkt.segment)
        [p.sp.dadosAck here pkt rnd]
  | acceptSync (pkt : Packet) (rnd : Nat) : pkt.segment.flags = .sync → p.sp.mutexCon = false → p.sp.flagCon = .semConexao →
      p.Does here (.recvThread pkt rnd) (p.acceptSync here pkt rnd) []
  | acceptSyncAck (pkt : Packet) (rnd : Nat) : pkt.segment.flags = .syncAck → p.sp.mutexCon = false →
      p.sp.flagCon = .estabelecendo →
      p.Does here (.recvThread pkt rnd) (p.acceptSyncAck pkt) [p.sp.syncAckPacket here pkt]
  | ack (pkt : Packet) (rnd : Nat) : pkt.segment.flags = .ack →
      p.Does here (.recvThread pkt rnd) { p with sp := { p.sp with acks := setAck p.sp.acks pkt.segment.ackNum } } []
  | finInConnection (pkt : Packet) (rnd : Nat) : pkt.segment.flags = .fin → p.sp.mutexCon = false → p.sp.flagCon = .comConexao →
      p.Does here (.recvThread pkt rnd) ((p.took pkt.segment).sendFin here .semConexao) [p.sp.ackPacket here pkt]
  | finWhileClosing (pkt : Packet) (rnd : Nat) : pkt.segment.flags = .fin → p.sp.mutexCon = false →
      p.sp.flagCon = .encerrando →
      p.Does here (.recvThread pkt rnd) { p.took pkt.segment with sp := { p.sp with flagCon := .semConexao } }
        [p.sp.ackPacket here pkt]

namespace SessionAux

variable {here : Addr} {p p' : Endpoint} {out : List Packet}

/-- A call that the application makes does what the list says. -/
theorem call_does {act : PointAction} (h : p.act here act = some (p', out)) (hact : ∀ pkt rnd, act ≠ .recvThread pkt rnd) :
    p.Does here act p' out := by
  cases act with
  | connectPoint dest destPoint windowSize rnd =>
    simp only [Endpoint.act, Endpoint.connectPoint] at h
    split at h
    · cases h
    · rename_i hm
      split at h
      · rename_i hf
        cases h
        exact .sync _ _ _ _ (Bool.eq_false_iff.2 hm) hf
      · cases h
        exact .idle _
  | closeConn =>
    simp only [Endpoint.act, Endpoint.closeConn] at h
    split at h
    · cases h
    · rename_i hm
      split at h
      · rename_i hf
        cases h
        exact .close (Bool.eq_false_iff.2 hm) hf
      · cases h
        exact .idle _
  | sendPoint buffer =>
    simp only [Endpoint.act, Endpoint.sendPoint] at h
    split at h
    · cases h
    · split at h
      · rename_i hf
        cases h
        exact .send _ hf
      · cases h
        exact .idle _
  | sendPut i =>
    simp only [Endpoint.act, Endpoint.sendPut] at h
    split at h
    · cases h
    · split at h
      · cases h
      · rename_i hm
        cases h
        exact .deposit _ _ (Bool.eq_false_iff.2 hm)
  | recvPoint size =>
    cases h
    exact .recv _
  | sendThread =>
    simp only [Endpoint.act, Endpoint.sendThreadStep] at h
    split at h
    · rename_i hpc
      split at h
      · cases h
      · rename_i hm
        cases h
        exact .takeBuffer hpc (Bool.eq_false_iff.2 hm)
    · rename_i hpc
      split at h
      · rename_i hsize
        cases h
        exact .bufferSent hpc hsize
      · rename_i hsize
        split at h
        · cases h
        · rename_i hw
          cases h
          exact .segment hpc hsize hw
    · rename_i hpc
      cases h
      exact .window hpc
  | segSendThread i =>
    simp only [Endpoint.act, Endpoint.segSendThread] at h
    split at h
    · cases h
    · rename_i t ht
      split at h
      · cases h
      · split at h
        · cases h
          exact .firstSend i t ht
        · rename_i hstarted
          split at h
          · rename_i hset
            cases h
            exact .acked i t ht (by simpa using hstarted) hset
          · cases h
            exact .resend i t ht
  | recvThread pkt rnd => exact absurd rfl (hact pkt rnd)

/-- `recv_thread` does with a packet what the list says. -/
theorem recvThread_does {pkt : Packet} {rnd : Nat} (h : p.recvThread here pkt rnd = some (p', out)) :
    p.Does here (.recvThread pkt rnd) p' out := by
  unfold Endpoint.recvThread at h
  split at h
  · cases h
  · split at h
    · rename_i hflags
      split at h
      · rename_i hm
        cases h
        exact .block _ _ hm
      · rename_i hm
        have hm' : p.sp.mutexCon = false := Bool.eq_false_iff.2 hm
        split at h
        · rename_i hf
          simp only [Endpoint.recvDados] at h
          split at h
          · cases h
            exact .idle _
          · rename_i hv
            cases h
            exact .reack _ _ hflags hm' hf hv
          · rename_i hv
            cases h
            exact .add _ _ hflags hm' hf hv
        · rename_i hf
          cases h
          exact .lock _ _ hflags hf
    · rename_i hflags
      split at h
      · cases h
      · rename_i hm
        unfold Endpoint.syncThread at h
        split at h
        · rename_i hf
          cases h
          exact .acceptSync _ _ hflags (Bool.eq_false_iff.2 hm) hf
        · cases h
          exact .idle _
    · rename_i hflags
      split at h
      · cases h
      · rename_i hm
        unfold Endpoint.syncAckThread at h
        split at h
        · rename_i hf
          cases h
          exact .acceptSyncAck _ _ hflags (Bool.eq_false_iff.2 hm) hf
        · cases h
          exact .idle _
    · rename_i hflags
      cases h
      exact .ack _ _ hflags
    · rename_i hflags
      split at h
      · rename_i hm
        cases h
        exact .block _ _ hm
      · rename_i hm
        unfold Endpoint.closeConnAux at h
        split at h
        · rename_i hf
          cases h
          exact .finInConnection _ _ hflags (Bool.eq_false_iff.2 hm) hf
        · rename_i hf
          cases h
          exact .finWhileClosing _ _ hflags (Bool.eq_false_iff.2 hm) hf
        · cases h
          exact .idle _
        · cases h
          exact .idle _

end SessionAux

/-- An action does one of the things on the list. -/
theorem act_does {here : Addr} {p p' : Endpoint} {act : PointAction} {out : List Packet} (h : p.act here act = some (p', out)) :
    p.Does here act p' out := by
  by_cases hact : ∃ pkt rnd, act = .recvThread pkt rnd
  · obtain ⟨pkt, rnd, rfl⟩ := hact
    exact SessionAux.recvThread_does h
  · exact SessionAux.call_does h fun pkt rnd heq => hact ⟨pkt, rnd, heq⟩

/-- A segment is at most `segment_send_size` long. -/
theorem SendThread.size_le (t : SendThread) : t.size ≤ t.segmentSendSize := by
  unfold SendThread.size
  split <;> omega

/-! ## Where packets come from -/

/-- The packs of a point's `seg_send_thread`s, in the order they were built. -/
def Endpoint.packs (p : Endpoint) : List SendSegment := p.segSends.map (·.pack)

theorem mem_packs_spawn {p : Endpoint} {segment : Segment} {size : Nat} {k : SendSegment} :
    k ∈ (p.spawn segment size).packs ↔ k ∈ p.packs ∨ k = { segment := segment, size := size, epoch := p.history.epoch } := by
  simp [Endpoint.packs, Endpoint.spawn]

/-- A thread that changes its own state leaves the packs as they are. -/
theorem packs_set {p : Endpoint} {i : Nat} {t t' : SegSend} (ht : p.segSends[i]? = some t) (hpack : t'.pack = t.pack) :
    (p.segSends.set i t').map (·.pack) = p.packs := by
  rw [List.map_set, hpack]
  refine List.ext_getElem? ?_
  intro j
  rw [List.getElem?_set]
  split
  · rename_i hij
    subst hij
    simpa [Endpoint.packs, ht] using (List.getElem?_eq_some_iff.1 ht).1
  · rfl

/-- The packs a step adds are the point's own, of its epoch after the step, and no ACKs. -/
theorem Endpoint.Does.packs {here : Addr} {p p' : Endpoint} {act : PointAction} {out : List Packet}
    (h : p.Does here act p' out) :
    ∃ new, p'.packs = p.packs ++ new ∧
      ∀ k ∈ new, k.segment.src = here.point ∧ k.epoch = p'.history.epoch ∧ k.segment.flags ≠ .ack := by
  cases h with
  | sync | close | segment | finInConnection =>
    exact ⟨[_], List.map_append, fun k hk => by obtain rfl := List.mem_singleton.1 hk; exact ⟨rfl, rfl, by simp⟩⟩
  | acceptSync =>
    exact ⟨[_], List.map_append, fun k hk => by obtain rfl := List.mem_singleton.1 hk; exact ⟨rfl, rfl, by simp⟩⟩
  | firstSend i t ht | acked i t ht => exact ⟨[], by rw [List.append_nil]; exact packs_set ht rfl, by simp⟩
  | _ => exact ⟨[], (List.append_nil _).symm, by simp⟩

/-- A packet a step hands to the network carries a pack of the point, or is an ACK. -/
theorem Endpoint.Does.out {here : Addr} {p p' : Endpoint} {act : PointAction} {out : List Packet}
    (h : p.Does here act p' out) {pkt : Packet} (hpkt : pkt ∈ out) :
    (∃ k ∈ p.packs, pkt = k.packet here p.sp) ∨ pkt.segment.flags = .ack := by
  cases h with
  | firstSend i t ht | resend i t ht =>
    obtain rfl := List.mem_singleton.1 hpkt
    exact Or.inl ⟨t.pack, List.mem_map_of_mem (List.mem_of_getElem? ht), rfl⟩
  | add pkt rnd =>
    obtain rfl := List.mem_singleton.1 hpkt
    exact Or.inr (p.sp.dadosAck_flags here pkt rnd)
  | reack | acceptSyncAck | finInConnection | finWhileClosing =>
    obtain rfl := List.mem_singleton.1 hpkt
    exact Or.inr rfl
  | _ => cases hpkt

/-- The packets in the network that are no ACKs carry packs of the two points. -/
structure Session.Traced (e : Places) (s : Session) : Prop where
  src : ∀ x, ∀ k ∈ (s.point x).packs, k.segment.src = (e.addr x).point
  packets : ∀ pkt ∈ s.packets, pkt.segment.flags ≠ .ack →
    ∃ x, ∃ k ∈ (s.point x).packs, pkt.src = (e.addr x).node ∧ pkt.segment = k.segment ∧ pkt.size = k.size + transportHeaderSize ∧
      pkt.epoch = k.epoch

/-- Packs stay. -/
theorem packs_subset_of_step {e : Places} {s s' : Session} {m : Side × PointAction} (hs : s.step e m = some s') (y : Side) :
    (s.point y).packs ⊆ (s'.point y).packs := by
  obtain ⟨x, act⟩ := m
  obtain ⟨p, out, -, hact, hx, hother, -⟩ := Session.step_cases hs
  rcases Side.eq_or_eq_other x y with rfl | rfl
  · obtain ⟨new, hnew, -⟩ := (act_does hact).packs
    rw [hx, hnew]
    exact List.subset_append_left _ _
  · rw [hother]
    exact List.Subset.refl _

theorem Session.Traced.step {e : Places} {s s' : Session} {m : Side × PointAction} (h : s.Traced e)
    (hs : s.step e m = some s') : s'.Traced e := by
  have hsub := packs_subset_of_step hs
  obtain ⟨x, act⟩ := m
  obtain ⟨p, out, -, hact, hx, hother, hpackets⟩ := Session.step_cases hs
  have hdoes := act_does hact
  refine ⟨?_, ?_⟩
  · intro y k hk
    rcases Side.eq_or_eq_other x y with rfl | rfl
    · obtain ⟨new, hnew, hsrc⟩ := hdoes.packs
      rw [hx, hnew] at hk
      rcases List.mem_append.1 hk with hk | hk
      · exact h.src _ k hk
      · exact (hsrc k hk).1
    · rw [hother] at hk
      exact h.src _ k hk
  · intro pkt hpkt hflags
    rw [hpackets] at hpkt
    rcases List.mem_append.1 hpkt with hpkt | hpkt
    · obtain ⟨y, k, hk, hfields⟩ := h.packets pkt hpkt hflags
      exact ⟨y, k, hsub y hk, hfields⟩
    · rcases hdoes.out hpkt with ⟨k, hk, rfl⟩ | hack
      · exact ⟨x, k, hsub x hk, rfl, rfl, rfl, rfl⟩
      · exact absurd hack hflags

theorem traced_start (e : Places) : Session.start.Traced e where
  src := by intro x k hk; cases hk
  packets := by intro pkt hpkt; cases hpkt

/-! ## A handshake -/

namespace SessionAux

/-- Point 0 of node 1 and point 0 of node 2. -/
def places : Places where
  addr := fun x => match x with
    | .a => ⟨1, 0⟩
    | .b => ⟨2, 0⟩
  distinct := by decide

/-- A packet between the two points, with a window of 5. -/
def packet (src dest : Nat) (flags : Flags) (seqNum ackNum : Nat) (data : List Byte) (epoch : Nat) : Packet where
  src := src
  dest := dest
  segment := { src := 0, dest := 0, seqNum := seqNum, ackNum := ackNum, flags := flags, windowSize := 5, data := data }
  size := data.length + transportHeaderSize
  epoch := epoch
  answers := 0

/-- The SYN+ACK of the first connection. -/
def syncAck : Packet := packet 2 1 .syncAck 105 16 [115] 1

/-- The first point connects to the second. -/
def handshake : List (Side × PointAction) :=
  [(.a, .connectPoint 2 0 5 10), (.a, .segSendThread 0), (.b, .recvThread (packet 1 2 .sync 15 0 [115] 0) 100),
    (.b, .segSendThread 0), (.a, .recvThread syncAck 0)]

end SessionAux

end NetworkLayers
