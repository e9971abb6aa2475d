import NetworkLayers.Theorems.Close
import NetworkLayers.Theorems.Reliable

/-!
# A connection whose numbers stay below MAX_SEQ_NUM

Most connections are over long before their numbers reach `MAX_SEQ_NUM`. Every number is then compared as it was computed, and what
`Theorems.Reliable` says of a run holds of all of them that do not close and in which no ACK has a number read from a freed segment.
-/

namespace NetworkLayers

open Transition SeqSpace

/-- From the first number on, what has been accepted and the largest window stay below `MAX_SEQ_NUM`. -/
def Session.NoWrap (x : Side) (q : Nat) (s : Session) : Prop :=
  q + (s.point x).history.accepted.length + 65535 < maxSeqNum

instance (x : Side) (q : Nat) (s : Session) : Decidable (s.NoWrap x q) := inferInstanceAs (Decidable (_ < _))

/-- No packet for the point has a number that was read from a freed segment. -/
def Session.NoneFreed (e : Places) (x : Side) (s : Session) : Prop :=
  ∀ pkt ∈ s.packets, pkt.dest = (e.addr x).node → pkt.segment.dest = (e.addr x).point → pkt.freed = false

instance (e : Places) (x : Side) (s : Session) : Decidable (s.NoneFreed e x) := inferInstanceAs (Decidable (∀ pkt ∈ _, _))

namespace NoWrapAux

variable {e : Places} {x : Side} {q : Nat} {s s' : Session}

/-! ## Without close_conn -/

/-- What holds of every run without `close_conn`: both points are in the connection, and all that the sender builds is data. -/
structure Opened (e : Places) (x : Side) (q : Nat) (s : Session) : Prop where
  inv : CloseAux.Inv e x q s
  closing : (s.point x).history.closing = none
  flagCon : (s.point x).sp.flagCon = .comConexao

theorem Opened.dados (h : Opened e x q s) : ∀ k ∈ (s.point x).stream, k.segment.flags = .dados := h.inv.closing.data h.closing

/-- No FIN reaches either point. -/
theorem Opened.ne_fin (h : Opened e x q s) {w : Side} {pkt : Packet} (harr : s.Arrives (e.addr w) pkt) :
    pkt.segment.flags ≠ .fin := by
  intro hfin
  obtain ⟨k, hk, hsegment, -⟩ := h.inv.streaming.arrives harr (Or.inr hfin)
  rw [hsegment] at hfin
  rcases Side.eq_or_eq_other x w with rfl | rfl
  · exact h.inv.streaming.noFin k hk hfin
  · rw [Side.other_other] at hk
    rw [h.dados k hk] at hfin
    cases hfin

theorem opened_established (h : s.Established e x) : Opened e x (s.point x).sp.seqNumS s :=
  ⟨CloseAux.inv_established h, h.history.2.1, h.flagCon.1⟩

/-- A point that is not closed stays in the connection. -/
theorem Opened.flagCon_step (h : Opened e x q s) {w : Side} {act : PointAction} {p : Endpoint} {out : List Packet}
    (hen : s.Enabled e w act) (hdoes : (s.point w).Does (e.addr w) act p out) (hclose : act ≠ .closeConn) :
    p.sp.flagCon = (s.point w).sp.flagCon := by
  obtain ⟨-, -, hsame | ⟨hact, -⟩ | ⟨pkt, rnd, rfl, hfin⟩⟩ := does_inConnection hdoes (h.inv.streaming.inConnection w)
  · exact hsame
  · exact absurd hact hclose
  · exact absurd hfin (h.ne_fin hen)

theorem opened_step (h : Opened e x q s) (hq : q < maxSeqNum) {m : Side × PointAction} (hclose : NoClose s m) (hs : s.step e m = some s') :
    Opened e x q s' := by
  obtain ⟨w, act⟩ := m
  obtain ⟨p, out, hen, hact, hw, hother, -⟩ := Session.step_cases hs
  have hdoes := act_does hact
  have hflag := h.flagCon_step hen hdoes hclose
  have hfin : ∀ pkt rnd, act = .recvThread pkt rnd → pkt.segment.flags ≠ .fin := by
    rintro pkt rnd rfl
    exact h.ne_fin hen
  have horder : CloseInOrder x s (w, act) := by
    cases act with
    | closeConn => exact absurd rfl hclose
    | recvThread pkt rnd => exact fun _ hflags => absurd hflags (h.ne_fin hen)
    | _ => trivial
  rcases Side.eq_or_eq_other x w with rfl | rfl
  · refine ⟨CloseAux.inv_step h.inv hq horder hs (by rw [hother]; exact h.inv.streaming.receiver), ?_,
      by rw [hw, hflag]; exact h.flagCon⟩
    rcases CloseAux.does_closing hdoes h.inv.streaming.sender hfin with ⟨hact', -⟩ | ⟨hsame, -⟩
    · exact absurd hact' hclose
    · rw [hw, hsame]
      exact h.closing
  · rw [Side.other_other] at hother
    refine ⟨CloseAux.inv_step h.inv hq horder hs (by rw [hw, hflag]; exact h.inv.streaming.receiver), ?_,
      by rw [hother]; exact h.flagCon⟩
    rw [hother]
    exact h.closing

/-- What the receiver has is the start of what was accepted. -/
theorem Opened.start_of (h : Opened e x q s) (hlen : (s.point x).history.accepted.length + 1 < maxSeqNum) :
    (s.point x.other).history.returned ++ segBytes (s.point x.other).sp.segs <+: (s.point x).history.accepted := by
  obtain ⟨c, hc⟩ := h.inv.assembles hlen
  rw [hc.bytes, h.inv.sends.accepted, dataPacks_of_dados h.dados]
  exact (packBytes_mono hc.start).trans (List.prefix_append _ _)

/-- What was accepted before a step is the start of what is accepted after it. -/
theorem accepted_mono {m : Side × PointAction} (hs : s.step e m = some s') :
    (s.point x).history.accepted <+: (s'.point x).history.accepted := by
  obtain ⟨w, act⟩ := m
  obtain ⟨p, out, -, hact, hw, hother, -⟩ := Session.step_cases hs
  rcases Side.eq_or_eq_other w x with rfl | rfl
  · rw [hw]
    exact CloseAux.accepted_grows (act_does hact)
  · rw [hother]

/-! ## Below MAX_SEQ_NUM -/

/-- Where the receiver's window does not span the wrap, its lower bound is below `seq_num_r` or the comparisons take it for one
behind the wrap. -/
def Low (sp : ServicePoint) : Prop :=
  sp.seqNumR + sp.windowSize < maxSeqNum → sp.endSeqNumR ≤ sp.prevSeqNumR → sp.seqNumR ≤ sp.prevSeqNumR

/-- What holds of a run whose numbers do not wrap: what `Theorems.Reliable` says, and that no ACK was computed from the number of a
segment past `MAX_SEQ_NUM`. -/
structure Inv (e : Places) (x : Side) (q : Nat) (s : Session) : Prop where
  reliable : ReliableAux.Inv e x q s
  low : Low (s.point x.other).sp
  answers : ∀ pkt ∈ s.packets, pkt.segment.flags = .ack → pkt.dest = (e.addr x).node → pkt.segment.dest = (e.addr x).point →
    pkt.freed = false → pkt.answers ≤ maxSeqNum

theorem low_established (h : s.Established e x) : Low (s.point x.other).sp := by
  obtain ⟨hw, hpos, hlt⟩ := h.window
  have hR : (s.point x.other).sp.seqNumR < maxSeqNum := by
    rw [← h.seqNum.1]
    exact h.seqNum.2
  have hprev := h.prevSeqNumR
  have hend := h.endSeqNumR
  rw [hw] at hpos hlt
  generalize (s.point x.other).sp = sp at *
  unfold Low
  unfold nextSeqNum u32 maxSeqNum at *
  omega

theorem low_addDados {sp : ServicePoint} (hw : sp.windowSize < 65536) (pkt : Packet) : Low (sp.addDados pkt) := by
  have hlt : (sp.addDados pkt).seqNumR < maxSeqNum := Nat.mod_lt _ (by decide)
  have hprev : (sp.addDados pkt).prevSeqNumR = ((sp.addDados pkt).seqNumR + (maxSeqNum - sp.windowSize)) % maxSeqNum := rfl
  have hend : (sp.addDados pkt).endSeqNumR = nextSeqNum (sp.addDados pkt).seqNumR sp.windowSize := rfl
  have hwindow : (sp.addDados pkt).windowSize = sp.windowSize := rfl
  generalize sp.addDados pkt = sp' at *
  unfold Low
  unfold nextSeqNum u32 maxSeqNum at *
  omega

theorem low_step {here : Addr} {p p' : Endpoint} {act : PointAction} {out : List Packet} (h : Low p.sp)
    (hdoes : p.Does here act p' out) (hf : p.sp.flagCon = .comConexao) (hw : p.sp.windowSize < 65536) : Low p'.sp := by
  cases hdoes with
  | sync _ _ _ _ _ hf' => exact absurd hf' (FlagCon.ne_of_inConnection (Or.inl hf)).1
  | acceptSync _ _ _ _ hf' => exact absurd hf' (FlagCon.ne_of_inConnection (Or.inl hf)).1
  | acceptSyncAck _ _ _ _ hf' => exact absurd hf' (FlagCon.ne_of_inConnection (Or.inl hf)).2
  | add pkt => exact low_addDados hw pkt
  | _ => exact h

/-- The numbers of the stream below the wrap. -/
theorem seqNum_eq (h : Inv e x q s) (hwrap : s.NoWrap x q) {l r : List SendSegment} {k : SendSegment}
    (hsplit : (s.point x).stream = l ++ k :: r) :
    k.segment.seqNum = q + packSize l ∧ q + packSize l + k.size ≤ q + (s.point x).history.accepted.length := by
  have hsum := ReliableAux.packSize_le h.reliable
  rw [hsplit, packSize_append, packSize_cons] at hsum
  unfold Session.NoWrap at hwrap
  have hl : seqNumAfter q l = q + packSize l := by
    have hlt : q + packSize l < maxSeqNum := by omega
    exact seqAt_of_lt hlt
  rw [h.reliable.sends.numbered.seqNum l k r hsplit, hl]
  omega

theorem packSize_lt (h : Inv e x q s) (hwrap : s.NoWrap x q) : packSize (s.point x).stream < maxSeqNum := by
  have hle := ReliableAux.packSize_le h.reliable
  unfold Session.NoWrap at hwrap
  omega

/-- Every number is compared as it was computed. -/
theorem acksInOrder (h : Inv e x q s) (hwrap : s.NoWrap x q) (hread : s.NoneFreed e x) {m : Side × PointAction}
    (hen : s.Enabled e m.1 m.2) : AcksInOrder x s m := by
  obtain ⟨w, act⟩ := m
  cases act with
  | recvThread pkt rnd =>
    constructor
    · rintro rfl - ⟨hend, hprev, -⟩
      obtain ⟨c, hs, d, u, hassembles, -⟩ := h.reliable.delivering (packSize_lt h hwrap)
      have hle := ReliableAux.packSize_le h.reliable
      have hc := packSize_mono hassembles.start
      have hw := h.reliable.sends.window.2
      rw [h.reliable.window] at hw
      unfold Session.NoWrap at hwrap
      have hR : (s.point x.other).sp.seqNumR = q + packSize c := by
        have hlt : q + packSize c < maxSeqNum := by omega
        exact hassembles.seqNumR.trans (seqAt_of_lt hlt)
      have hlow := h.low (by omega) hend
      omega
    · rintro rfl hflags hor
      obtain ⟨hmem, hnode, hpoint⟩ := hen
      have hfreed := hread pkt hmem hnode hpoint
      rcases hor with hlt | htrue
      · exact absurd (h.answers pkt hmem hflags hnode hpoint hfreed) (Nat.not_le.2 hlt)
      · rw [hfreed] at htrue
        cases htrue
  | segSendThread i =>
    rintro rfl t ht - hflags hend
    obtain ⟨l, r, hsplit⟩ := List.append_of_mem (mem_stream_of_mem (List.mem_of_getElem? ht) hflags)
    obtain ⟨hseq, hle⟩ := seqNum_eq h hwrap hsplit
    unfold Session.NoWrap at hwrap
    omega
  | _ => trivial

/-- The ACKs that a step adds were computed from numbers of the stream. -/
theorem answers_step (h : Inv e x q s) (hwrap : s.NoWrap x q) {m : Side × PointAction} (hs : s.step e m = some s') :
    ∀ pkt ∈ s'.packets, pkt.segment.flags = .ack → pkt.dest = (e.addr x).node → pkt.segment.dest = (e.addr x).point →
      pkt.freed = false → pkt.answers ≤ maxSeqNum := by
  obtain ⟨w, act⟩ := m
  obtain ⟨p, out, hen, hact, -, -, hpackets⟩ := Session.step_cases hs
  intro ack hack hflags hnode hpoint hfreed
  rw [hpackets] at hack
  rcases List.mem_append.1 hack with hack | hack
  · exact h.answers ack hack hflags hnode hpoint hfreed
  · obtain ⟨pkt, rnd, rfl, rfl, hwhy⟩ := h.reliable.streaming.ack_out_of_not_freed (act_does hact) hack hflags hfreed
    rcases Side.eq_or_eq_other x w with rfl | rfl
    · exact absurd ⟨hnode, hpoint⟩ (h.reliable.streaming.faces w).not_self
    · have hdata : pkt.segment.flags = .dados ∨ pkt.segment.flags = .fin := by
        rcases hwhy with hfin | ⟨hdados, -⟩
        · exact Or.inr hfin
        · exact Or.inl hdados
      obtain ⟨k, hk, hsegment, hsize⟩ := h.reliable.streaming.arrives hen hdata
      rw [Side.other_other] at hk
      obtain ⟨l, r, hsplit⟩ := List.append_of_mem hk
      obtain ⟨hseq, hle⟩ := seqNum_eq h hwrap hsplit
      have hanswers : pkt.segment.seqNum + pkt.dataSize = k.segment.seqNum + k.size := by
        rw [hsegment, Packet.dataSize, hsize, Nat.add_sub_cancel]
      unfold Session.NoWrap at hwrap
      show pkt.segment.seqNum + pkt.dataSize ≤ maxSeqNum
      omega

theorem inv_established (h : s.Established e x) : Inv e x (s.point x).sp.seqNumS s :=
  ⟨ReliableAux.inv_established h, low_established h, fun pkt hpkt hflags hnode hpoint _ =>
    (h.ackPackets pkt hpkt hflags hnode hpoint).2⟩

theorem NoWrap.before (hwrap : s'.NoWrap x q) {m : Side × PointAction} (hs : s.step e m = some s') : s.NoWrap x q := by
  have hle := (accepted_mono (x := x) hs).length_le
  unfold Session.NoWrap at hwrap ⊢
  omega

theorem NoneFreed.of_append (hread : s'.NoneFreed e x) {out : List Packet} (hpackets : s'.packets = s.packets ++ out) :
    s.NoneFreed e x := fun pkt hpkt => hread pkt (by rw [hpackets]; exact List.mem_append_left _ hpkt)

theorem NoneFreed.append (hread : s.NoneFreed e x) {out : List Packet} (hpackets : s'.packets = s.packets ++ out)
    (hout : ∀ pkt ∈ out, pkt.freed = false) : s'.NoneFreed e x := by
  intro pkt hpkt hnode hpoint
  rw [hpackets] at hpkt
  rcases List.mem_append.1 hpkt with hpkt | hpkt
  · exact hread pkt hpkt hnode hpoint
  · exact hout pkt hpkt

theorem NoneFreed.before (hread : s'.NoneFreed e x) {m : Side × PointAction} (hs : s.step e m = some s') : s.NoneFreed e x := by
  obtain ⟨w, act⟩ := m
  obtain ⟨p, out, -, -, -, -, hpackets⟩ := Session.step_cases hs
  exact NoneFreed.of_append hread hpackets

theorem inv_step (h : Inv e x q s) (hwrap : s'.NoWrap x q) (hread : s'.NoneFreed e x) {m : Side × PointAction} (hclose : NoClose s m)
    (hs : s.step e m = some s') : Inv e x q s' := by
  have hwrap' := NoWrap.before hwrap hs
  have hq : q < maxSeqNum := by
    unfold Session.NoWrap at hwrap'
    omega
  have hanswers := answers_step h hwrap' hs
  obtain ⟨w, act⟩ := m
  obtain ⟨p, out, hen, hact, hw, hother, -⟩ := Session.step_cases hs
  refine ⟨ReliableAux.inv_step h.reliable hq hclose (acksInOrder h hwrap' (NoneFreed.before hread hs) hen) hs, ?_,
    hanswers⟩
  rcases Side.eq_or_eq_other x w with rfl | rfl
  · rw [hother]
    exact h.low
  · rw [hw]
    refine low_step h.low (act_does hact) h.reliable.streaming.receiver ?_
    rw [← h.reliable.window]
    exact h.reliable.sends.window.2

end NoWrapAux

end NetworkLayers
