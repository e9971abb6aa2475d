import NetworkLayers.Lemmas.Outgoing
import NetworkLayers.Theorems.Stack

/-!
# What holds of two service points and all that is between them

Whatever is on its way for one of the points was passed on by one of them, and is read as it was written: `Tracks` says so, and every
step of the whole is one of `Transport.Session` or none.
-/

namespace NetworkLayers

open Transition StackAux OutgoingAux

/-- The condition on a step: an argument is within its C type, and what another service point passes on goes over every link in one
piece and is no segment for one of the two. -/
def ConnectionAction.Fits (t : Topology) (e : Ends) : ConnectionAction → Prop
  | .point _ (.connectPoint _ destPoint _ _) => destPoint < 65536
  | .below (.netSend n dest data) => (StackAction.netSend n dest data).Fits t ∧ ForOthers e dest data
  | .below a => a.Fits t
  | _ => True

instance ConnectionAction.Fits.decidable (t : Topology) (e : Ends) : ∀ a, Decidable (ConnectionAction.Fits t e a)
  | .point _ (.connectPoint _ destPoint _ _) => inferInstanceAs (Decidable (destPoint < 65536))
  | .below (.netSend n dest data) =>
    inferInstanceAs (Decidable ((StackAction.netSend n dest data).Fits t ∧ ForOthers e dest data))
  | .below (.advertise n numberhost) => inferInstanceAs (Decidable ((StackAction.advertise n numberhost).Fits t))
  | .below (.configGarbler ..) | .below (.start _) | .below (.neighbor ..) | .below (.internalsend ..) | .below (.internalrecv ..)
  | .below (.internalhandleroute ..) | .below (.enableRoute ..) | .below (.disableRoute ..) => inferInstanceAs (Decidable True)
  | .point _ .closeConn | .point _ (.sendPoint _) | .point _ (.sendPut _) | .point _ (.recvPoint _) | .point _ .sendThread
  | .point _ (.segSendThread _) | .point _ (.recvThread ..) | .internalrecv _ | .recvThread .. | .syncThread .. =>
    inferInstanceAs (Decidable True)

/-- The step is no call of `close_conn` at one of the points. -/
def ConnectionAction.KeepsOpen : ConnectionAction → Prop
  | .point _ .closeConn => False
  | _ => True

instance ConnectionAction.KeepsOpen.decidable : ∀ a, Decidable (ConnectionAction.KeepsOpen a)
  | .point _ .closeConn => inferInstanceAs (Decidable False)
  | .point _ (.connectPoint ..) | .point _ (.sendPoint _) | .point _ (.sendPut _) | .point _ (.recvPoint _) | .point _ .sendThread
  | .point _ (.segSendThread _) | .point _ (.recvThread ..) | .internalrecv _ | .recvThread .. | .syncThread .. | .below _ =>
    inferInstanceAs (Decidable True)

/-- A packet that is read at a point is one that was sent to it. -/
def Connection.Arrived (e : Ends) (s : Connection) (x : Side) (pkt : Packet) : Prop :=
  ∃ sent, s.session.Arrives (e.places.addr x) sent ∧ sent.OnWire ∧ pkt = sent.plain

/-- The layers below follow the nodes of `Net.RouteSwitch`, what they have accepted is of the two points or no concern of theirs, and
what the points are given was sent to them. -/
structure Tracks (t : Topology) (e : Ends) (s : Connection) : Prop where
  stack : ∃ r, Refines t s.stack r
  sendable : ∀ x, Sendable (s.point x)
  accepted : ∀ a ∈ s.stack.accepted, ForOthers e a.dest a.data ∨
    ∃ pkt ∈ s.packets, pkt.OnWire ∧ pkt.src = hostNum a.host ∧ pkt.dest = a.dest ∧ a.data = pkt.bytes
  waitBuff : ∀ x, ∀ pkt ∈ s.waitBuff x, s.Arrived e x pkt
  syncs : ∀ x, ∀ pkt ∈ s.syncs x, s.Arrived e x pkt

namespace ConnectionAux

variable {t : Topology} {e : Ends} {s s' : Connection} {r : SwitchNet} {stack stack' : Stack} {x : Side} {n : HostIndex}

/-! ## What is accepted -/

/-- What the layers below hold of the segments that a point passes on, one after the other. -/
theorem exists_netSends (hlinks : FitsLinks t (maxSegmentSize + transportHeaderSize)) {out : List Packet}
    (hout : ∀ pkt ∈ out, pkt.OnWire ∧ pkt.src = hostNum n) (h : Refines t stack r)
    (hs : out.foldlM (fun stack pkt => Stack.step t stack (.netSend n pkt.dest pkt.bytes)) stack = some stack') :
    Refines t stack' r ∧ ∀ a ∈ stack'.accepted, a ∈ stack.accepted ∨
      ∃ pkt ∈ out, pkt.OnWire ∧ pkt.src = hostNum a.host ∧ pkt.dest = a.dest ∧ a.data = pkt.bytes := by
  induction out generalizing stack with
  | nil =>
    obtain rfl : stack = stack' := Option.some.inj hs
    exact ⟨h, fun a ha => Or.inl ha⟩
  | cons pkt out ih =>
    rw [List.foldlM_cons] at hs
    obtain ⟨stack₁, hs₁, hs⟩ := Option.bind_eq_some_iff.1 hs
    obtain ⟨⟨hwire, hsrc⟩, hrest⟩ := List.forall_mem_cons.1 hout
    have hfit : FitsLinks t pkt.bytes.length := by
      intro i j
      have hle := hlinks i j
      have hsmall := hwire.small
      rw [length_bytes hwire, hwire.size]
      omega
    obtain ⟨h', hacc⟩ := ih hrest (refines_netSend h hfit hs₁) hs
    refine ⟨h', fun a ha => ?_⟩
    rcases hacc a ha with hold | ⟨pkt', hpkt', hfound⟩
    · obtain ⟨-, -, hsame | hgrown⟩ := netSend_leaves hs₁
      · exact Or.inl (hsame ▸ hold)
      · rw [hgrown] at hold
        rcases List.mem_append.1 hold with hold | hnew
        · exact Or.inl hold
        · obtain rfl := List.mem_singleton.1 hnew
          exact Or.inr ⟨pkt, List.mem_cons_self, hwire, hsrc, rfl, rfl⟩
    · exact Or.inr ⟨pkt', List.mem_cons_of_mem _ hpkt', hfound⟩

/-! ## What the points do -/

theorem slot_lt (e : Ends) (x : Side) : (e.places.addr x).point < 65536 :=
  Nat.lt_trans (e.slot x).isLt (by decide)

/-- Whatever has been sent to a point stays so. -/
theorem Arrived.mono {pkt : Packet} (h : s.Arrived e x pkt) (hsub : s.packets ⊆ s'.packets) : s'.Arrived e x pkt := by
  obtain ⟨sent, ⟨hmem, hplace⟩, hwire, heq⟩ := h
  exact ⟨sent, ⟨hsub hmem, hplace⟩, hwire, heq⟩

/-- A step of a point is one of `Transport.Session`, and what it passes on is accounted for. -/
theorem tracks_send (hlinks : FitsLinks t (maxSegmentSize + transportHeaderSize)) (h : Tracks t e s) {act : PointAction}
    {q : Endpoint × List Packet} (hact : (s.point x).act (e.places.addr x) act = some q) (htyped : act.Typed)
    (hen : s.session.Enabled e.places x act) (hs : s.send t e x q = some s') :
    Tracks t e s' ∧ s.session.step e.places (x, act) = some s'.session := by
  obtain ⟨stack, hstack, rfl⟩ := Option.map_eq_some_iff.1 hs
  obtain ⟨r, hr⟩ := h.stack
  have hdoes := act_does hact
  have hout := (h.sendable x).outgoing (slot_lt e x) hdoes htyped
  obtain ⟨hr', hacc⟩ := exists_netSends hlinks hout hr hstack
  have hsub : s.packets ⊆ s.packets ++ q.2 := List.subset_append_left _ _
  refine ⟨⟨⟨r, hr'⟩, fun y => ?_, fun a ha => ?_, fun y pkt hpkt => ?_, fun y pkt hpkt => ?_⟩, ?_⟩
  · rcases Side.eq_or_eq_other x y with rfl | rfl
    · simp only [Function.update_self]
      exact (h.sendable y).step (slot_lt e y) hdoes htyped
    · simp only [Function.update_of_ne (Side.other_ne x)]
      exact h.sendable x.other
  · rcases hacc a ha with hold | ⟨pkt, hpkt, hfound⟩
    · rcases h.accepted a hold with hothers | ⟨pkt, hpkt, hfound⟩
      · exact Or.inl hothers
      · exact Or.inr ⟨pkt, hsub hpkt, hfound⟩
    · exact Or.inr ⟨pkt, List.mem_append_right _ hpkt, hfound⟩
  · exact Arrived.mono (h.waitBuff y pkt hpkt) hsub
  · exact Arrived.mono (h.syncs y pkt hpkt) hsub
  · have hact' : (s.session.point x).act (e.places.addr x) act = some q := hact
    rw [Session.step, if_pos hen, hact']
    rfl

/-- A point handles what has been read for it as if it had come straight from the other. -/
theorem tracks_receive (hlinks : FitsLinks t (maxSegmentSize + transportHeaderSize)) (h : Tracks t e s) {pkt : Packet} {rnd : Nat}
    (harrived : s.Arrived e x pkt) (hs : ((s.point x).recvThread (e.places.addr x) pkt rnd).bind (s.send t e x) = some s') :
    Tracks t e s' ∧ ∃ sent, pkt = sent.plain ∧ s.session.step e.places (x, .recvThread sent rnd) = some s'.session := by
  obtain ⟨q, hq, hsend⟩ := Option.bind_eq_some_iff.1 hs
  obtain ⟨sent, harr, hwire, rfl⟩ := harrived
  rw [recvThread_plain] at hq
  have hfields := hwire.fits.fields
  have htyped : sent.segment.src < 65536 ∧ sent.segment.windowSize < 65536 :=
    ⟨hfields (2, sent.segment.src) (by simp [RawSegment.header, Segment.raw]),
      hfields (2, sent.segment.windowSize) (by simp [RawSegment.header, Segment.raw])⟩
  have hact : (s.point x).act (e.places.addr x) (.recvThread sent rnd) = some q := hq
  obtain ⟨h', hstep⟩ := tracks_send hlinks h hact htyped harr hsend
  exact ⟨h', sent, rfl, hstep⟩

/-! ## What the points are given -/

/-- Where a service point is, it is one of the two. -/
theorem side_eq {m : HostIndex} {point : Nat} (h : e.side m point = some x) : e.host x = m ∧ (e.slot x).val = point := by
  unfold Ends.side at h
  split at h
  · obtain rfl := Option.some.inj h
    assumption
  · split at h
    · obtain rfl := Option.some.inj h
      assumption
    · cases h

/-- Data on their way to a host that are a segment for one of the points: they are one it was sent. -/
theorem arrived_of_delivered (h : Tracks t e s) {d : Delivered} (hd : d ∈ s.stack.delivered) {newSeg : RawSegment}
    (hread : rcvSegment d.bytes d.data.length = .ok (newSeg, 0)) (hx : e.side d.host newSeg.dest = some x) {pkt : Packet}
    (hpkt : d.recv newSeg = some pkt) : s.Arrived e x pkt := by
  obtain ⟨r, hr⟩ := h.stack
  obtain ⟨m, data, hsrc, hdata, hmem⟩ := hr.delivered d hd
  obtain ⟨hhost, hslot⟩ := side_eq hx
  rw [bytes_map_some hdata, hdata, List.length_map] at hread
  rcases h.accepted _ hmem with hothers | ⟨sent, hsent, hwire, hfrom, hto, rfl⟩
  · have hnone := hothers d.host rfl (newSeg, 0) (by rw [hread]; rfl) rfl
    rw [hx] at hnone
    cases hnone
  · obtain ⟨c, hc⟩ := rcvSegment_bytes hwire
    obtain ⟨rfl, -⟩ := Prod.mk.inj (Except.ok.inj (hc.symm.trans hread))
    obtain ⟨segment, hsegment, rfl⟩ := Option.map_eq_some_iff.1 hpkt
    obtain rfl := Option.some.inj ((segment_raw sent.segment c).symm.trans hsegment)
    have hto : sent.dest = hostNum d.host := hto
    refine ⟨sent, ⟨hsent, ?_, hslot.symm⟩, hwire, ?_⟩
    · rw [hto, ← hhost]
      rfl
    · have hlength : d.data.length = sent.size := by rw [hdata, List.length_map, length_bytes hwire]
      rw [Packet.plain, hlength, hsrc, ← hfrom, ← hto]

/-- A packet that is put into `wait_buff`. -/
theorem tracks_put (h : Tracks t e s) {pkt : Packet} (hpkt : s.Arrived e x pkt) (hs : s.put x pkt = some s') :
    Tracks t e s' ∧ s'.session = s.session := by
  unfold Connection.put at hs
  split at hs
  · obtain rfl := Option.some.inj hs
    refine ⟨{ h with waitBuff := fun y pkt' hpkt' => ?_ }, rfl⟩
    rcases Side.eq_or_eq_other x y with rfl | rfl
    · simp only [Function.update_self, Option.mem_def, Option.some.injEq] at hpkt'
      exact hpkt' ▸ hpkt
    · simp only [Function.update_of_ne (Side.other_ne x)] at hpkt'
      exact h.waitBuff x.other pkt' hpkt'
  · cases hs

theorem tracks_internalrecv (h : Tracks t e s) (hs : s.internalrecv e n = some s') : Tracks t e s' ∧ s'.session = s.session := by
  unfold Connection.internalrecv at hs
  split at hs
  · cases hs
  · rename_i d hnext
    have hd : d ∈ s.stack.delivered := (List.mem_filter.1 (List.mem_of_getElem? hnext)).1
    split at hs
    · cases hs
    · rename_i newSeg rcvChecksum hread
      have h' : Tracks t e { s with received := Function.update s.received n (s.received n + 1) } := { h with }
      simp only at hs
      split at hs
      · rename_i hzero
        rw [hzero] at hread
        unfold Connection.dispatch at hs
        split at hs
        · cases hs
        · split at hs
          · rename_i x pkt hside hpkt
            obtain ⟨h'', hsame⟩ := tracks_put h' (arrived_of_delivered h' hd hread hside hpkt) hs
            exact ⟨h'', hsame⟩
          · obtain rfl := Option.some.inj hs
            exact ⟨h', rfl⟩
      · obtain rfl := Option.some.inj hs
        exact ⟨h', rfl⟩

/-- `recv_thread` has taken what was in `wait_buff`. -/
def cleared (s : Connection) (x : Side) : Connection := { s with waitBuff := Function.update s.waitBuff x none }

theorem tracks_cleared (h : Tracks t e s) (x : Side) : Tracks t e (cleared s x) := by
  refine { h with waitBuff := fun y pkt hpkt => ?_ }
  unfold cleared at hpkt
  rcases Side.eq_or_eq_other x y with rfl | rfl
  · simp only [Function.update_self] at hpkt
    cases hpkt
  · simp only [Function.update_of_ne (Side.other_ne x)] at hpkt
    exact h.waitBuff x.other pkt hpkt

/-! ## Every step -/

/-- Where a step of the whole is one of `Transport.Session`: the side, and whether it is a call of `close_conn`. -/
def Matches : ConnectionAction → Side × PointAction → Prop
  | .point x act, m => m = (x, act)
  | .recvThread x rnd, m | .syncThread x _ rnd, m => ∃ pkt, m = (x, .recvThread pkt rnd)
  | _, _ => False

/-- A step of the whole leaves the two points as they are with what they have sent, or is one of `Transport.Session`. -/
theorem tracks_step (hlinks : FitsLinks t (maxSegmentSize + transportHeaderSize)) (h : Tracks t e s) {a : ConnectionAction}
    (hok : a.Fits t e) (hs : s.step t e a = some s') :
    Tracks t e s' ∧ (s'.session = s.session ∨ ∃ m, Matches a m ∧ s.session.step e.places m = some s'.session) := by
  cases a with
  | point x act =>
    have hact : ∀ pkt rnd, act ≠ .recvThread pkt rnd := by
      rintro pkt rnd rfl
      cases hs
    have htyped : act.Typed := by
      cases act with
      | connectPoint dest destPoint windowSize rnd => exact hok
      | recvThread pkt rnd => exact absurd rfl (hact pkt rnd)
      | _ => trivial
    have hen : s.session.Enabled e.places x act := by
      cases act with
      | recvThread pkt rnd => exact absurd rfl (hact pkt rnd)
      | _ => trivial
    have hs : ((s.point x).act (e.places.addr x) act).bind (s.send t e x) = some s' := by
      cases act with
      | recvThread pkt rnd => exact absurd rfl (hact pkt rnd)
      | _ => exact hs
    obtain ⟨q, hq, hsend⟩ := Option.bind_eq_some_iff.1 hs
    obtain ⟨h', hstep⟩ := tracks_send hlinks h hq htyped hen hsend
    exact ⟨h', Or.inr ⟨_, rfl, hstep⟩⟩
  | internalrecv n =>
    obtain ⟨h', hsame⟩ := tracks_internalrecv h hs
    exact ⟨h', Or.inl hsame⟩
  | recvThread x rnd =>
    simp only [Connection.step, Connection.recvThread] at hs
    split at hs
    · cases hs
    · rename_i pkt hpkt
      have harrived := h.waitBuff x pkt hpkt
      have h' := tracks_cleared h x
      split at hs
      · cases hs
      · split at hs
        · obtain rfl := Option.some.inj hs
          refine ⟨{ h' with syncs := fun y pkt' hpkt' => ?_ }, Or.inl rfl⟩
          rcases Side.eq_or_eq_other x y with rfl | rfl
          · simp only [Function.update_self] at hpkt'
            rcases List.mem_append.1 hpkt' with hold | hnew
            · exact h.syncs y pkt' hold
            · exact List.mem_singleton.1 hnew ▸ harrived
          · simp only [Function.update_of_ne (Side.other_ne x)] at hpkt'
            exact h.syncs x.other pkt' hpkt'
        · obtain ⟨h'', sent, -, hstep⟩ := tracks_receive hlinks h' (Arrived.mono harrived (List.Subset.refl _)) hs
          exact ⟨h'', Or.inr ⟨_, ⟨sent, rfl⟩, hstep⟩⟩
  | syncThread x i rnd =>
    simp only [Connection.step, Connection.syncThread] at hs
    split at hs
    · cases hs
    · rename_i pkt hpkt
      have harrived := h.syncs x pkt (List.mem_of_getElem? hpkt)
      have h' : Tracks t e { s with syncs := Function.update s.syncs x ((s.syncs x).eraseIdx i) } := by
        refine { h with syncs := fun y pkt' hpkt' => ?_ }
        rcases Side.eq_or_eq_other x y with rfl | rfl
        · simp only [Function.update_self] at hpkt'
          exact h.syncs y pkt' ((List.eraseIdx_sublist ..).subset hpkt')
        · simp only [Function.update_of_ne (Side.other_ne x)] at hpkt'
          exact h.syncs x.other pkt' hpkt'
      obtain ⟨h'', sent, -, hstep⟩ := tracks_receive hlinks h' (Arrived.mono harrived (List.Subset.refl _)) hs
      exact ⟨h'', Or.inr ⟨_, ⟨sent, rfl⟩, hstep⟩⟩
  | below a =>
    obtain ⟨stack, hstack, rfl⟩ := Option.map_eq_some_iff.1 hs
    obtain ⟨r, hr⟩ := h.stack
    have hfits : a.Fits t := by
      cases a with
      | netSend n dest data => exact hok.1
      | _ => exact hok
    refine ⟨{ h with stack := ?_, accepted := fun d hd => ?_ }, Or.inl rfl⟩
    · rcases refines_step hr hfits hstack with hsame | ⟨b, r', -, hr', -⟩
      · exact ⟨r, hsame⟩
      · exact ⟨r', hr'⟩
    · obtain ⟨-, hsame | ⟨m, dest, data, rfl, hgrown⟩⟩ := accepted_step hstack
      · exact h.accepted d (hsame ▸ hd)
      · have hd' : d ∈ s.stack.accepted ++ [⟨m, dest, data⟩] := hgrown ▸ hd
        rcases List.mem_append.1 hd' with hold | hnew
        · exact h.accepted d hold
        · obtain rfl := List.mem_singleton.1 hnew
          exact Or.inl hok.2

theorem tracks_init {bufRcv : HostIndex → List Byte} (hbuf : ∀ n, (bufRcv n).length = t.getMaxMtu.toNat) :
    Tracks t e (Connection.init t bufRcv) where
  stack := ⟨_, refines_init hbuf⟩
  sendable _ := sendable_alloc
  accepted _ ha := (List.not_mem_nil ha).elim
  waitBuff _ _ hpkt := by cases hpkt
  syncs _ _ hpkt := (List.not_mem_nil hpkt).elim

end ConnectionAux

end NetworkLayers
