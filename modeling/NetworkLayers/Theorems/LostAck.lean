import NetworkLayers.Lemmas.Progress

/-!
# The last ACK of a handshake

`sync_ack_thread` answers a SYN+ACK once, when it opens the connection. If that ACK is lost, the entry for it stays at the front of
`acks` for good, and `in_seq` never moves the window of the other point.
-/

namespace NetworkLayers

open Transition SeqSpace

/-- The step hands the point no ACK that there was in the other state. -/
def Session.Loses (s₀ : Session) (x : Side) : Side × PointAction → Prop
  | (w, .recvThread pkt _) => w = x → pkt.segment.flags = .ack → pkt ∉ s₀.packets
  | _ => True

instance Session.Loses.decidable (s₀ : Session) (x : Side) : ∀ m, Decidable (s₀.Loses x m)
  | (w, .recvThread pkt _) => inferInstanceAs (Decidable (w = x → pkt.segment.flags = .ack → pkt ∉ s₀.packets))
  | (_, .connectPoint ..) | (_, .closeConn) | (_, .sendPoint _) | (_, .sendPut _) | (_, .recvPoint _) | (_, .sendThread)
  | (_, .segSendThread _) => inferInstanceAs (Decidable True)

namespace LostAckAux

variable {e : Places} {x : Side} {q : Nat} {s₀ s s' : Session}

/-- The entry of the handshake is first in `acks` and not set, and no other has been taken off. -/
def Held (q : Nat) (p : Endpoint) : Prop :=
  ∃ es, p.sp.acks = { seqNum := q, flag := false, size := 0 } :: es ∧ es.length = p.stream.length

theorem Held.isSet {p : Endpoint} (h : Held q p) : isSet p.sp.acks q = false := by
  obtain ⟨es, hacks, -⟩ := h
  rw [hacks, NetworkLayers.isSet, if_pos rfl]

theorem held_step {here : Addr} {p p' : Endpoint} {act : PointAction} {out : List Packet} (h : Held q p)
    (hdoes : p.Does here act p' out) (hf : p.sp.flagCon = .comConexao) (hclose : act ≠ .closeConn)
    (hfin : ∀ pkt rnd, act = .recvThread pkt rnd → pkt.segment.flags ≠ .fin)
    (hack : ∀ pkt rnd, act = .recvThread pkt rnd → pkt.segment.flags = .ack → pkt.segment.ackNum ≠ q) : Held q p' := by
  obtain ⟨es, hacks, hlen⟩ := h
  have hnotOpening := FlagCon.ne_of_inConnection (Or.inl hf)
  cases hdoes with
  | sync _ _ _ _ _ hf' => exact absurd hf' hnotOpening.1
  | acceptSync _ _ _ _ hf' => exact absurd hf' hnotOpening.1
  | acceptSyncAck _ _ _ _ hf' => exact absurd hf' hnotOpening.2
  | close => exact absurd rfl hclose
  | finInConnection pkt rnd hflags | finWhileClosing pkt rnd hflags => exact absurd hflags (hfin pkt rnd rfl)
  | segment =>
    obtain ⟨k, -, hstream, hacks', -⟩ := AcksAux.sendSegment_spec here p
    refine ⟨es ++ [{ seqNum := k.entryNum, flag := false, size := k.size }], by rw [hacks', hacks, List.cons_append], ?_⟩
    rw [hstream, List.length_append, List.length_append, hlen]
    rfl
  | window =>
    refine ⟨es, ?_, hlen⟩
    show (inSeq p.sp.acks).2 = _
    rw [hacks]
    rfl
  | ack pkt rnd hflags =>
    refine ⟨setAck es pkt.segment.ackNum, ?_, (length_setAck _ _).trans hlen⟩
    show setAck p.sp.acks _ = _
    rw [hacks, setAck, if_neg (hack pkt rnd rfl hflags).symm]
  | firstSend i t ht | acked i t ht =>
    refine ⟨es, hacks, hlen.trans (congrArg List.length (Eq.symm ?_))⟩
    exact stream_set ht rfl
  | _ => exact ⟨es, hacks, hlen⟩

/-- What holds while the ACKs that there were at the start are lost. -/
structure Stalled (e : Places) (x : Side) (q : Nat) (s₀ s : Session) : Prop where
  opened : NoWrapAux.Opened e x q s
  inv : NoWrapAux.Inv e x q s
  held : Held q (s.point x)
  acks : ∀ pkt ∈ s.packets, pkt.segment.flags = .ack → pkt.dest = (e.addr x).node → pkt.segment.dest = (e.addr x).point →
    pkt.segment.ackNum = q → pkt ∈ s₀.packets

theorem stalled_established (h : s.Established e x) (hunset : isSet (s.point x).sp.acks (s.point x).sp.seqNumS = false) :
    Stalled e x (s.point x).sp.seqNumS s s where
  opened := NoWrapAux.opened_established h
  inv := NoWrapAux.inv_established h
  held := by
    rcases h.acks with hnone | ⟨flag, hacks⟩
    · rw [hnone] at hunset
      cases hunset
    · rw [hacks, isSet, if_pos rfl] at hunset
      obtain rfl : flag = false := hunset
      exact ⟨[], hacks, (congrArg List.length h.stream.1).symm⟩
  acks pkt hpkt _ _ _ _ := hpkt

/-- An ACK that a step adds is for data, and so has another number. -/
theorem acks_step (h : Stalled e x q s₀ s) (hwrap : s.NoWrap x q) (hread : s'.NoneFreed e x) {m : Side × PointAction}
    (hs : s.step e m = some s') :
    ∀ pkt ∈ s'.packets, pkt.segment.flags = .ack → pkt.dest = (e.addr x).node → pkt.segment.dest = (e.addr x).point →
      pkt.segment.ackNum = q → pkt ∈ s₀.packets := by
  obtain ⟨w, act⟩ := m
  obtain ⟨p, out, hen, hact, -, -, hpackets⟩ := Session.step_cases hs
  have hstreaming := h.inv.reliable.streaming
  intro ack hack hflags hnode hpoint hnum
  have hfreed := hread ack hack hnode hpoint
  rw [hpackets] at hack
  rcases List.mem_append.1 hack with hack | hack
  · exact h.acks ack hack hflags hnode hpoint hnum
  · obtain ⟨pkt, rnd, rfl, rfl, hwhy⟩ := hstreaming.ack_out_of_not_freed (act_does hact) hack hflags hfreed
    rcases Side.eq_or_eq_other x w with rfl | rfl
    · exact absurd ⟨hnode, hpoint⟩ (hstreaming.faces w).not_self
    · have hdata : pkt.segment.flags = .dados ∨ pkt.segment.flags = .fin := by
        rcases hwhy with hfin | ⟨hdados, -⟩
        · exact Or.inr hfin
        · exact Or.inl hdados
      obtain ⟨k, hk, hsegment, hsize⟩ := hstreaming.arrives hen hdata
      rw [Side.other_other] at hk
      obtain ⟨l, r, hsplit⟩ := List.append_of_mem hk
      obtain ⟨hseq, hle⟩ := NoWrapAux.seqNum_eq h.inv hwrap hsplit
      have hsum := NoWrapAux.packSize_lt h.inv hwrap
      unfold Session.NoWrap at hwrap
      have hentry : pkt.ackNum = k.entryNum :=
        ackNum_eq_entryNum hsegment (by rw [Packet.dataSize, hsize, Nat.add_sub_cancel]) (by omega)
      exact absurd (hentry.symm.trans hnum) (h.inv.reliable.sends.numbered.entryNum_ne (by omega) hsum hk)

theorem stalled_step (h : Stalled e x q s₀ s) (hwrap : s'.NoWrap x q) (hread : s'.NoneFreed e x) {m : Side × PointAction}
    (hclose : NoClose s m) (hloses : s₀.Loses x m) (hs : s.step e m = some s') : Stalled e x q s₀ s' := by
  have hwrap' := NoWrapAux.NoWrap.before hwrap hs
  have hq : q < maxSeqNum := by
    unfold Session.NoWrap at hwrap
    omega
  refine ⟨NoWrapAux.opened_step h.opened hq hclose hs, NoWrapAux.inv_step h.inv hwrap hread hclose hs, ?_,
    acks_step h hwrap' hread hs⟩
  obtain ⟨w, act⟩ := m
  obtain ⟨p, out, hen, hact, hw, hother, -⟩ := Session.step_cases hs
  rcases Side.eq_or_eq_other w x with rfl | rfl
  · rw [hw]
    refine held_step h.held (act_does hact) h.opened.flagCon hclose ?_ ?_
    · rintro pkt rnd rfl
      exact h.opened.ne_fin hen
    · rintro pkt rnd rfl hflags hnum
      obtain ⟨hmem, hnode, hpoint⟩ := hen
      exact hloses rfl hflags (h.acks pkt hmem hflags hnode hpoint hnum)
  · rw [hother]
    exact h.held

/-- Nothing has been taken off `acks`, so all that was ever built is in one window. -/
theorem packSize_le_window (h : Stalled e x q s₀ s) (hwrap : s.NoWrap x q) :
    packSize (s.point x).stream ≤ (s.point x).sp.windowSize := by
  obtain ⟨c, hs, d, u, -, hacked, -⟩ := h.inv.reliable.delivering (NoWrapAux.packSize_lt h.inv hwrap)
  obtain ⟨es, hacks, hlen⟩ := h.held
  obtain ⟨es', hacks', hentries⟩ := hacked.entries
  have hone : hs.length ≤ 1 := by
    rcases hacked.handshake with rfl | ⟨flag, rfl⟩
    · exact Nat.zero_le _
    · exact Nat.le_refl _
  have htotal : hs.length + u.length = d.length + u.length + 1 := by
    calc hs.length + u.length = hs.length + es'.length := by rw [hentries.length_eq]
      _ = (s.point x).sp.acks.length := by rw [hacks', List.length_append]
      _ = (s.point x).stream.length + 1 := by rw [hacks, List.length_cons, hlen]
      _ = d.length + u.length + 1 := by rw [hacked.stream, List.length_append]
  obtain rfl : d = [] := List.length_eq_zero_iff.1 (by omega)
  rw [hacked.stream, List.nil_append]
  rcases hacked.window with ⟨-, -, -, hzero⟩ | ⟨-, -, ⟨-, hptr, hle⟩ | ⟨-, hfull⟩⟩
  · omega
  · omega
  · omega

end LostAckAux

open LostAckAux in
/-- Where the ACKs of its SYN+ACK that there are when the connection is established are lost, a point sends no more than one window of
bytes: however often it sends the SYN+ACK or these bytes again and whatever else arrives, no other ACK has that number unless it was
read from a freed segment, and the point at the other end never has more than a window. -/
theorem lost_ack_stalls {e : Places} {x : Side} {s₀ s : Session} (h0 : s₀.Established e x)
    (hunset : isSet (s₀.point x).sp.acks (s₀.point x).sp.seqNumS = false)
    (h : Reach (Session.step e) (fun s m => NoClose s m ∧ s₀.Loses x m) s₀ s)
    (hwrap : s.NoWrap x (s₀.point x).sp.seqNumS) (hread : s.NoneFreed e x) :
    packSize (s.point x).stream ≤ (s.point x).sp.windowSize ∧
      ((s.point x.other).history.returned ++ segBytes (s.point x.other).sp.segs).length ≤ (s.point x).sp.windowSize ∧
      isSet (s.point x).sp.acks (s₀.point x).sp.seqNumS = false := by
  have hinv : s.NoWrap x (s₀.point x).sp.seqNumS → s.NoneFreed e x → Stalled e x (s₀.point x).sp.seqNumS s₀ s :=
    h.invariant (fun _ _ => stalled_established h0 hunset) fun _ _ _ hi hok hs hwrap hread =>
      stalled_step (hi (NoWrapAux.NoWrap.before hwrap hs) (NoWrapAux.NoneFreed.before hread hs)) hwrap hread hok.1 hok.2 hs
  have hstalled := hinv hwrap hread
  have hwindow := packSize_le_window hstalled hwrap
  obtain ⟨c, -, -, -, hassembles, -, -⟩ := hstalled.inv.reliable.delivering (NoWrapAux.packSize_lt hstalled.inv hwrap)
  have hlength : ∀ k ∈ c, k.segment.data.length = k.size := fun k hk =>
    hstalled.inv.reliable.sends.numbered.length k (hassembles.start.subset hk)
  refine ⟨hwindow, ?_, hstalled.held.isSet⟩
  rw [hassembles.bytes, length_packBytes hlength]
  exact (packSize_mono hassembles.start).trans hwindow

namespace LostAckAux

/-- The second point sends seven bytes, and the SYN+ACK again; no ACK for it reaches it. -/
def sevenBytes : List (Side × PointAction) :=
  [(.b, .sendPoint [1, 2, 3, 4, 5, 6, 7]), (.b, .sendPut 0), (.b, .sendThread), (.b, .sendThread), (.b, .segSendThread 1),
    (.a, .recvThread (SessionAux.packet 2 1 .dados 106 0 [1, 2, 3, 4, 5] 1) 0), (.b, .segSendThread 0),
    (.a, .recvThread SessionAux.syncAck 0), (.b, .recvThread { SessionAux.packet 1 2 .ack 0 111 [] 0 with answers := 111 } 0),
    (.b, .sendThread)]

end LostAckAux

open LostAckAux in
/-- Five of them, a window, are with the first point, and have been acknowledged. -/
theorem lost_ack_stalls_seven :
    ∃ s₀ s : Session, s₀.Established SessionAux.places .b ∧ exec (Session.step SessionAux.places) s₀ sevenBytes = some s ∧
      segBytes (s.point .a).sp.segs = [1, 2, 3, 4, 5] ∧ packSize (s.point .b).stream ≤ (s.point .b).sp.windowSize ∧
      isSet (s.point .b).sp.acks 106 = false := by
  obtain ⟨s₀, -, h0, hunset, hok, s, hs, hsegs, hwrap, hread, hq⟩ :
      ∃ s₀ ∈ exec (Session.step SessionAux.places) Session.start SessionAux.handshake, s₀.Established SessionAux.places .b ∧
        isSet (s₀.point .b).sp.acks (s₀.point .b).sp.seqNumS = false ∧
        Along (Session.step SessionAux.places) (fun s m => NoClose s m ∧ s₀.Loses .b m) s₀ sevenBytes ∧
        ∃ s ∈ exec (Session.step SessionAux.places) s₀ sevenBytes, segBytes (s.point .a).sp.segs = [1, 2, 3, 4, 5] ∧
          s.NoWrap .b (s₀.point .b).sp.seqNumS ∧ s.NoneFreed SessionAux.places .b ∧ (s₀.point .b).sp.seqNumS = 106 := by
    decide
  obtain ⟨hwindow, -, hheld⟩ := lost_ack_stalls h0 hunset (reach_of_exec hok hs) hwrap hread
  exact ⟨s₀, s, h0, hs, hsegs, hwindow, hq ▸ hheld⟩

end NetworkLayers
