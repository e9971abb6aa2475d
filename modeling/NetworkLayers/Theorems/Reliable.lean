import NetworkLayers.Lemmas.Acks

/-!
# A connection is reliable

In a connection that is not closed, what the receiver has is always the start of what the sender accepted. A byte whose segment
the sender no longer sends, or no longer keeps an entry for, is with the receiver, as long as the sequence numbers of the
segments concerned do not run past `MAX_SEQ_NUM` in one of three ways: each takes a number computed at one place with another
modulus, or with none, than at the place it is compared with. The number of one more ACK may be anything: for a copy of a segment that
is in `segs_aux`, `recv_thread` reads it from a segment that `insert_seg_lst` has freed.
-/

namespace NetworkLayers

open Transition SeqSpace

/-- The number a pack's ACK must have is compared as it was computed: the receiver gets no data from past the wrap while its
window spans the wrap and `seq_num_r` is before it; a thread whose segment ends at `MAX_SEQ_NUM` checks for its ACK only when 0
is set or gone; and an ACK for a segment that runs past `MAX_SEQ_NUM`, or one whose number was read from a freed segment, comes only
when its number is set or gone. -/
def AcksInOrder (x : Side) (s : Session) (m : Side × PointAction) : Prop :=
  match m.2 with
  | .recvThread pkt _ =>
    (m.1 = x.other → pkt.segment.flags = .dados →
      ¬ ((s.point x.other).sp.endSeqNumR ≤ (s.point x.other).sp.prevSeqNumR ∧
        (s.point x.other).sp.prevSeqNumR < (s.point x.other).sp.seqNumR ∧
        pkt.segment.seqNum ≤ (s.point x.other).sp.endSeqNumR)) ∧
    (m.1 = x → pkt.segment.flags = .ack → maxSeqNum < pkt.answers ∨ pkt.freed = true →
      isSet (s.point x).sp.acks pkt.segment.ackNum = true)
  | .segSendThread i => m.1 = x → ∀ t ∈ (s.point x).segSends[i]?, t.started = true → t.pack.segment.flags = .dados →
      t.pack.segment.seqNum + t.pack.size = maxSeqNum → isSet (s.point x).sp.acks 0 = true
  | _ => True

instance AcksInOrder.decidable (x : Side) (s : Session) : ∀ m, Decidable (AcksInOrder x s m)
  | (_, .recvThread _ _) => inferInstanceAs (Decidable ((_ → _ → ¬ (_ ∧ _ ∧ _)) ∧ (_ → _ → _ → _)))
  | (_, .segSendThread _) => inferInstanceAs (Decidable (_ → ∀ t ∈ _, _ → _ → _ → _))
  | (_, .connectPoint ..) | (_, .closeConn) | (_, .sendPoint _) | (_, .sendPut _) | (_, .recvPoint _) | (_, .sendThread) =>
    inferInstanceAs (Decidable True)

/-- No call of `close_conn`. -/
def NoClose (_ : Session) (m : Side × PointAction) : Prop := m.2 ≠ .closeConn

instance (s : Session) (m : Side × PointAction) : Decidable (NoClose s m) := inferInstanceAs (Decidable (_ ≠ _))

/-- The bytes of a pack of `x` are with the other point: the stream up to it is the start of what was returned and is in `segs`,
or the segment is in `segs_aux`. -/
def Session.AtReceiver (x : Side) (s : Session) (k : SendSegment) : Prop :=
  (∃ l r, (s.point x).stream = l ++ k :: r ∧
    packBytes (l ++ [k]) <+: (s.point x.other).history.returned ++ segBytes (s.point x.other).sp.segs) ∨
  ∃ e ∈ (s.point x.other).sp.segsAux, e.segm = k.segment ∧ e.size = k.size

namespace ReliableAux

/-- What the comparisons of `recv_thread` say of a segment that is only acknowledged again. -/
theorem of_verdict_reenviaAck {sp : ServicePoint} {seqNum : Nat} (h : sp.verdict seqNum = .reenviaAck) :
    seqNum < sp.seqNumR ∧
      ((sp.prevSeqNumR < sp.endSeqNumR ∧ sp.prevSeqNumR ≤ seqNum) ∨
        (sp.endSeqNumR ≤ sp.prevSeqNumR ∧ (sp.prevSeqNumR ≤ seqNum ∨ seqNum ≤ sp.endSeqNumR))) := by
  unfold ServicePoint.verdict at h
  grind

/-- Where the receiver's window spans the wrap, its lower bound is right before `seq_num_r`: `sync_thread` leaves it at most two
lower than it should be. -/
def Bound (sp : ServicePoint) : Prop :=
  maxSeqNum ≤ sp.seqNumR + sp.windowSize → sp.seqNumR ≤ sp.prevSeqNumR + sp.windowSize + 2 ∧ sp.prevSeqNumR < sp.seqNumR

theorem bound_addDados {sp : ServicePoint} (hw : sp.windowSize < 65536) (pkt : Packet) : Bound (sp.addDados pkt) := by
  have hlt : (sp.addDados pkt).seqNumR < maxSeqNum := Nat.mod_lt _ (by decide)
  have hprev : (sp.addDados pkt).prevSeqNumR = ((sp.addDados pkt).seqNumR + (maxSeqNum - sp.windowSize)) % maxSeqNum := rfl
  have hwindow : (sp.addDados pkt).windowSize = sp.windowSize := rfl
  generalize sp.addDados pkt = sp' at *
  unfold Bound
  unfold maxSeqNum at *
  omega

variable {e : Places} {x : Side} {q : Nat} {s s' : Session}

theorem bound_established (h : s.Established e x) : Bound (s.point x.other).sp := by
  obtain ⟨hw, hpos, hlt⟩ := h.window
  have hR : (s.point x.other).sp.seqNumR < maxSeqNum := by
    rw [← h.seqNum.1]
    exact h.seqNum.2
  have hprev := h.prevSeqNumR
  rw [hw] at hpos hlt
  unfold Bound
  unfold u32 maxSeqNum at *
  omega

/-- The packs that are off the list are among those the receiver has taken. -/
theorem packSize_removed_le {ks c d : List SendSegment} {sp : ServicePoint} {returned : List Byte}
    (h : Assembles q ks sp returned c) (hq : q < maxSeqNum) (hnum : Numbered q ks) (hsum : packSize ks < maxSeqNum)
    (hd : d <+: ks) (harrived : ∀ k ∈ d, HasArrived sp c k.segment) : packSize d ≤ packSize c := by
  by_contra hlt
  have hlen : c.length ≤ d.length := by
    by_contra hlen
    exact hlt (packSize_mono (List.prefix_of_prefix_length_le hd h.start (by omega)))
  obtain ⟨r, rfl⟩ := List.prefix_of_prefix_length_le h.start hd hlen
  cases r with
  | nil => simp at hlt
  | cons k r =>
    have hnext : c ++ [k] <+: ks := List.IsPrefix.trans ⟨r, by simp⟩ hd
    exact h.not_hasArrived hq hnum hsum hnext (harrived k (by simp))

/-- A segment that the receiver only acknowledges again has arrived, unless it is from past the wrap and the window spans the
wrap. -/
theorem arrived_of_reenviaAck {ks c d u : List SendSegment} {sp : ServicePoint} {returned : List Byte}
    (h : Assembles q ks sp returned c) (hq : q < maxSeqNum) (hnum : Numbered q ks) (hsum : packSize ks < maxSeqNum)
    (hbound : Bound sp) (hw : sp.windowSize < 65536) (hks : ks = d ++ u) (harrived : ∀ k ∈ d, HasArrived sp c k.segment)
    (hu : packSize u ≤ sp.windowSize) {k : SendSegment} (hk : k ∈ ks) (hverdict : sp.verdict k.segment.seqNum = .reenviaAck)
    (hok : ¬ (sp.endSeqNumR ≤ sp.prevSeqNumR ∧ sp.prevSeqNumR < sp.seqNumR ∧ k.segment.seqNum ≤ sp.endSeqNumR)) :
    HasArrived sp c k.segment := by
  obtain ⟨hlt, hwindow⟩ := of_verdict_reenviaAck hverdict
  obtain ⟨l, r, hsplit⟩ := List.append_of_mem hk
  have hl : l <+: ks := ⟨k :: r, hsplit.symm⟩
  have hseq := hnum.seqNum l k r hsplit
  have hpos := hnum.pos k hk
  by_cases hlen : l.length < c.length
  · -- the pack is one of those taken
    obtain ⟨m, rfl⟩ := List.prefix_of_prefix_length_le hl h.start (Nat.le_of_lt hlen)
    cases m with
    | nil => simp at hlen
    | cons k' m =>
      obtain ⟨r', hr'⟩ := h.start
      have heq : l ++ k' :: (m ++ r') = l ++ k :: r := by
        rw [← hsplit, ← hr', List.append_assoc, List.cons_append]
      obtain rfl : k' = k := (List.cons.inj (List.append_cancel_left heq)).1
      exact Or.inl ⟨k', by simp, rfl⟩
  · exfalso
    obtain ⟨m, rfl⟩ := List.prefix_of_prefix_length_le h.start hl (Nat.le_of_not_lt hlen)
    have hR := h.seqNumR
    by_cases hc : q + packSize c < maxSeqNum
    · have hRc : seqNumAfter q c = q + packSize c := seqAt_of_lt hc
      have hlsum : packSize (c ++ m) < maxSeqNum := Nat.lt_of_le_of_lt (packSize_mono hl) hsum
      by_cases hlwrap : q + packSize (c ++ m) < maxSeqNum
      · have hseq' : seqNumAfter q (c ++ m) = q + packSize (c ++ m) := seqAt_of_lt hlwrap
        rw [packSize_append] at hseq'
        omega
      · -- past the wrap, at most a window ahead of `seq_num_r`
        have hseq' : seqNumAfter q (c ++ m) + maxSeqNum ≤ q + packSize (c ++ m) :=
          seqAt_add_le hq hlsum (Nat.le_of_not_lt hlwrap)
        have hd : packSize d ≤ packSize c := packSize_removed_le h hq hnum hsum ⟨u, hks.symm⟩ harrived
        have htotal : packSize ((c ++ m) ++ k :: r) = packSize d + packSize u := by rw [← hsplit, hks, packSize_append]
        rw [packSize_append, packSize_cons] at htotal
        obtain ⟨hlow, hprev⟩ := hbound (by omega)
        unfold maxSeqNum at *
        omega
    · have hle : (c.map (·.size) ++ m.map (·.size)).sum < maxSeqNum := by
        rw [← List.map_append]
        exact Nat.lt_of_le_of_lt (packSize_mono hl) hsum
      have hseq' : seqNumAfter q (c ++ m) = seqNumAfter q c + packSize m := by
        unfold seqNumAfter
        rw [List.map_append]
        exact seqAt_append_of_le hq hle (Nat.le_of_not_lt hc)
      omega

/-- The bounds of the receiver change only when it adds data. -/
theorem bound_step {here : Addr} {p p' : Endpoint} {act : PointAction} {out : List Packet} (h : Bound p.sp)
    (hdoes : p.Does here act p' out) (hf : p.sp.flagCon = .comConexao) (hw : p.sp.windowSize < 65536) : Bound p'.sp := by
  cases hdoes with
  | sync _ _ _ _ _ hf' => exact absurd hf' (FlagCon.ne_of_inConnection (Or.inl hf)).1
  | acceptSync _ _ _ _ hf' => exact absurd hf' (FlagCon.ne_of_inConnection (Or.inl hf)).1
  | acceptSyncAck _ _ _ _ hf' => exact absurd hf' (FlagCon.ne_of_inConnection (Or.inl hf)).2
  | add pkt => exact bound_addDados hw pkt
  | _ => exact h

/-- The ACKs on their way to the sender: each is the one of the handshake, is for a segment that has arrived or for one that runs past
`MAX_SEQ_NUM`, or has a number read from a freed segment. -/
def AcksSent (e : Places) (x : Side) (q : Nat) (s : Session) (c : List SendSegment) : Prop :=
  ∀ pkt ∈ s.packets, pkt.segment.flags = .ack → pkt.dest = (e.addr x).node → pkt.segment.dest = (e.addr x).point →
    pkt.answers ≤ maxSeqNum → pkt.freed = false → pkt.segment.ackNum = q ∨
      ∃ k ∈ (s.point x).stream, pkt.segment.ackNum = k.entryNum ∧ HasArrived (s.point x.other).sp c k.segment

/-- What holds of the packs taken, acknowledged and waiting. -/
def Delivering (e : Places) (x : Side) (q : Nat) (s : Session) : Prop :=
  ∃ c hs d u, Assembles q (s.point x).stream (s.point x.other).sp (s.point x.other).history.returned c ∧
    Acked q (s.point x) (HasArrived (s.point x.other).sp c) hs d u ∧ AcksSent e x q s c

/-- What holds all along a run without `close_conn`. -/
structure Inv (e : Places) (x : Side) (q : Nat) (s : Session) : Prop where
  streaming : Streaming e x s
  flagCon : (s.point x).sp.flagCon = .comConexao
  dados : ∀ k ∈ (s.point x).stream, k.segment.flags = .dados
  sends : Sends q (s.point x)
  window : (s.point x).sp.windowSize = (s.point x.other).sp.windowSize
  bound : Bound (s.point x.other).sp
  delivering : packSize (s.point x).stream < maxSeqNum → Delivering e x q s

theorem inv_established (h : s.Established e x) : Inv e x (s.point x).sp.seqNumS s where
  streaming := h.streaming
  flagCon := h.flagCon.1
  dados := by
    rw [h.stream.1]
    simp
  sends := h.sends
  window := h.window.1
  bound := bound_established h
  delivering := by
    intro _
    obtain ⟨hpc, hdone, hptr⟩ := h.sendThread
    have hstopped : ∀ t ∈ (s.point x).segSends, t.pack.segment.flags ≠ .dados := by
      intro t ht hdados
      rcases h.packs t.pack (List.mem_append_left _ (List.mem_map_of_mem ht)) with hflags | hflags <;>
        rw [hdados] at hflags <;> cases hflags
    refine ⟨[], (s.point x).sp.acks, [], [], h.assembles,
      ⟨h.stream.1, ⟨[], (List.append_nil _).symm, .nil⟩, h.acks, by simp, ?_, ?_⟩, ?_⟩
    · intro t ht _ hflags
      exact absurd hflags (hstopped t ht)
    · exact Or.inl ⟨hdone, hpc, hptr, rfl⟩
    · intro pkt hpkt hflags hnode hpoint _ _
      exact Or.inl (h.ackPackets pkt hpkt hflags hnode hpoint).1

/-- A point whose peer sends no FIN and that does not close stays in the connection. -/
theorem flagCon_step {w : Side} {p : Endpoint} {act : PointAction} {out : List Packet} (h : Inv e x q s)
    (hen : s.Enabled e w act) (hdoes : (s.point w).Does (e.addr w) act p out) (hclose : act ≠ .closeConn) :
    p.sp.flagCon = (s.point w).sp.flagCon := by
  obtain ⟨-, -, hflag⟩ := does_inConnection hdoes (h.streaming.inConnection w)
  rcases hflag with hsame | ⟨hact, -⟩ | ⟨pkt, rnd, rfl, hfin⟩
  · exact hsame
  · exact absurd hact hclose
  · obtain ⟨k, hk, hsegment, -⟩ := h.streaming.arrives hen (Or.inr hfin)
    rw [hsegment] at hfin
    rcases Side.eq_or_eq_other x w with rfl | rfl
    · exact absurd hfin (h.streaming.noFin k hk)
    · rw [Side.other_other] at hk
      rw [h.dados k hk] at hfin
      cases hfin

/-- A step of the sender. -/
theorem delivering_sender {p : Endpoint} {act : PointAction} {out : List Packet} (h : Inv e x q s) (hq : q < maxSeqNum)
    (hok : AcksInOrder x s (x, act)) (hclose : act ≠ .closeConn) (hen : s.Enabled e x act)
    (hdoes : (s.point x).Does (e.addr x) act p out) (hx : s'.point x = p) (hother : s'.point x.other = s.point x.other)
    (hpackets : s'.packets = s.packets ++ out) (hgrows : (s.point x).stream <+: p.stream)
    (hsum : packSize (s.point x).stream < maxSeqNum) : Delivering e x q s' := by
  obtain ⟨c, hs, d, u, hassembles, hacked, hsent⟩ := h.delivering hsum
  have hack : ∀ pkt rnd, act = .recvThread pkt rnd → pkt.segment.flags = .ack →
      isSet (s.point x).sp.acks pkt.segment.ackNum = true ∨ pkt.segment.ackNum = q ∨
        ∃ k ∈ (s.point x).stream, pkt.segment.ackNum = k.entryNum ∧ HasArrived (s.point x.other).sp c k.segment := by
    rintro pkt rnd rfl hflags
    obtain ⟨hmem, hnode, hpoint⟩ := hen
    by_cases hread : maxSeqNum < pkt.answers ∨ pkt.freed = true
    · exact Or.inl (hok.2 rfl hflags hread)
    · obtain ⟨hle, hfreed⟩ := not_or.1 hread
      exact Or.inr (hsent pkt hmem hflags hnode hpoint (Nat.le_of_not_lt hle) (Bool.eq_false_iff.2 hfreed))
  have hstop : ∀ i t, act = .segSendThread i → (s.point x).segSends[i]? = some t → t.started = true →
      t.pack.segment.flags = .dados → t.pack.segment.seqNum + t.pack.size = maxSeqNum → isSet (s.point x).sp.acks 0 = true := by
    rintro i t rfl ht hstarted hflags hend
    exact hok rfl t ht hstarted hflags hend
  obtain ⟨hs', d', u', hacked'⟩ := hacked.step h.sends hq hsum hdoes h.streaming.sender hclose
    (fun _ _ hact => h.streaming.ne_fin hen hact) hack hstop
  refine ⟨c, hs', d', u', ?_, ?_, ?_⟩
  · rw [hx, hother]
    exact hassembles.mono hgrows
  · rw [hx, hother]
    exact hacked'
  · intro pkt hpkt hflags hnode hpoint hle hfreed
    rw [hpackets] at hpkt
    rw [hx, hother]
    rcases List.mem_append.1 hpkt with hpkt | hpkt
    · rcases hsent pkt hpkt hflags hnode hpoint hle hfreed with hnum | ⟨k, hk, hfound⟩
      · exact Or.inl hnum
      · exact Or.inr ⟨k, hgrows.subset hk, hfound⟩
    · -- its own ACKs go to the other place
      exact absurd ⟨hnode, hpoint⟩ (h.streaming.ack_out_ne_self hdoes hpkt hflags)

/-- A step of the receiver. -/
theorem delivering_receiver {p : Endpoint} {act : PointAction} {out : List Packet} (h : Inv e x q s) (hq : q < maxSeqNum)
    (hs : s.step e (x.other, act) = some s') (hok : AcksInOrder x s (x.other, act)) (hen : s.Enabled e x.other act)
    (hdoes : (s.point x.other).Does (e.addr x.other) act p out) (hy : s'.point x.other = p) (hother : s'.point x = s.point x)
    (hpackets : s'.packets = s.packets ++ out) (hsum : packSize (s.point x).stream < maxSeqNum) : Delivering e x q s' := by
  obtain ⟨c, hs', d, u, hassembles, hacked, hsent⟩ := h.delivering hsum
  obtain ⟨c', hassembles', hmono⟩ := h.streaming.assembles_step hs hq h.sends.numbered hsum hassembles
  refine ⟨c', hs', d, u, hassembles', ?_, ?_⟩
  · rw [hother]
    exact hacked.mono hmono
  · intro ack hack hflags hnode hpoint hle hfreed
    rw [hother]
    rw [hpackets] at hack
    rcases List.mem_append.1 hack with hack | hack
    · rcases hsent ack hack hflags hnode hpoint hle hfreed with hnum | ⟨k, hk, hnum, harrived⟩
      · exact Or.inl hnum
      · exact Or.inr ⟨k, hk, hnum, hmono _ harrived⟩
    · obtain ⟨pkt, rnd, rfl, rfl, hwhy⟩ := h.streaming.ack_out_of_not_freed hdoes hack hflags hfreed
      have hstream : ∃ k ∈ (s.point x.other.other).stream, pkt.segment = k.segment ∧ pkt.size = k.size + transportHeaderSize := by
        refine h.streaming.arrives hen ?_
        rcases hwhy with hfin | ⟨hdados, -⟩
        · exact Or.inr hfin
        · exact Or.inl hdados
      rw [Side.other_other] at hstream
      obtain ⟨k, hk, hsegment, hsize⟩ := hstream
      have hdata : pkt.dataSize = k.size := by rw [Packet.dataSize, hsize, Nat.add_sub_cancel]
      have hle' : k.segment.seqNum + k.size ≤ maxSeqNum := by
        rw [← hsegment, ← hdata]
        exact hle
      refine Or.inr ⟨k, hk, ackNum_eq_entryNum hsegment hdata hle', ?_⟩
      have hkdados := h.dados k hk
      rcases hwhy with hfin | ⟨hdados, ⟨hverdict, rfl⟩ | ⟨hverdict, hsp, hreturned⟩⟩
      · rw [hsegment, hkdados] at hfin
        cases hfin
      · -- the ACK is sent again
        have hnot := hok.1 rfl hdados
        rw [hsegment] at hverdict hnot
        refine hmono _ (arrived_of_reenviaAck hassembles hq h.sends.numbered hsum h.bound ?_ hacked.stream hacked.removed ?_ hk
          hverdict hnot)
        · rw [← h.window]
          exact h.sends.window.2
        · rw [← h.window]
          rcases hacked.window with ⟨-, -, -, hzero⟩ | ⟨-, -, ⟨-, hptr, hle⟩ | ⟨-, hfull⟩⟩ <;> omega
      · -- the data is added
        rw [hsegment] at hverdict
        obtain ⟨c'', hassembles'', harrived, -⟩ := hassembles.addDados hq h.sends.numbered hsum hk hkdados hsegment hdata
          (le_of_verdict_addDados hverdict)
        rw [hother, hy, hsp, hreturned] at hassembles'
        rw [hy, hsp, hassembles'.unique hassembles'' hq h.sends.numbered hsum]
        exact harrived

theorem inv_step (h : Inv e x q s) (hq : q < maxSeqNum) {m : Side × PointAction} (hclose : NoClose s m) (hok : AcksInOrder x s m)
    (hs : s.step e m = some s') : Inv e x q s' := by
  obtain ⟨w, act⟩ := m
  obtain ⟨p, out, hen, hact, hw, hother, hpackets⟩ := Session.step_cases hs
  have hdoes := act_does hact
  have hflag := flagCon_step h hen hdoes hclose
  obtain ⟨⟨-, -, hwindow⟩, ⟨new, hnew, hnewSpec⟩, -⟩ := does_inConnection hdoes (h.streaming.inConnection w)
  rcases Side.eq_or_eq_other x w with rfl | rfl
  · have hreceiver : (s'.point w.other).sp.flagCon = .comConexao := by
      rw [hother]
      exact h.streaming.receiver
    have hcon : p.sp.flagCon = .comConexao := hflag.trans h.flagCon
    have hgrows : (s.point w).stream <+: p.stream := by
      rw [hnew]
      exact List.prefix_append _ _
    refine ⟨h.streaming.step hs hreceiver, by rw [hw]; exact hcon, ?_, ?_, ?_, ?_, ?_⟩
    · intro k hk
      have hkind := of_decide_eq_true (List.mem_filter.1 hk).2
      rw [hw, hnew] at hk
      rcases List.mem_append.1 hk with hk | hk
      · exact h.dados k hk
      · exact hkind.resolve_right fun hfin => (hnewSpec k hk).2 hfin hcon
    · rw [hw]
      exact h.sends.step hdoes h.streaming.sender fun _ _ hact' => h.streaming.ne_fin hen hact'
    · rw [hw, hother, hwindow]
      exact h.window
    · rw [hother]
      exact h.bound
    · intro hsum
      rw [hw] at hsum
      exact delivering_sender h hq hok hclose hen hdoes hw hother hpackets hgrows
        (Nat.lt_of_le_of_lt (packSize_mono hgrows) hsum)
  · rw [Side.other_other] at hother
    have hreceiver : (s'.point x.other).sp.flagCon = .comConexao := by
      rw [hw, hflag]
      exact h.streaming.receiver
    refine ⟨h.streaming.step hs hreceiver, by rw [hother]; exact h.flagCon, by rw [hother]; exact h.dados,
      by rw [hother]; exact h.sends, by rw [hother, hw, hwindow]; exact h.window, ?_, ?_⟩
    · rw [hw]
      exact bound_step h.bound hdoes h.streaming.receiver (by rw [← h.window]; exact h.sends.window.2)
    · intro hsum
      rw [hother] at hsum
      exact delivering_receiver h hq hs hok hen hdoes hw hother hpackets hsum

/-- The sizes of the packs add up to at most what was accepted. -/
theorem packSize_le (h : Inv e x q s) : packSize (s.point x).stream ≤ (s.point x).history.accepted.length := by
  rw [h.sends.accepted, dataPacks_of_dados h.dados, List.length_append, length_packBytes h.sends.numbered.length]
  omega

/-- A segment that has arrived is with the receiver. -/
theorem atReceiver_of_hasArrived {c : List SendSegment} {k : SendSegment} (hq : q < maxSeqNum)
    (hnum : Numbered q (s.point x).stream) (hsum : packSize (s.point x).stream < maxSeqNum)
    (hassembles : Assembles q (s.point x).stream (s.point x.other).sp (s.point x.other).history.returned c)
    (hk : k ∈ (s.point x).stream) (harrived : HasArrived (s.point x.other).sp c k.segment) : s.AtReceiver x k := by
  rcases harrived with ⟨k', hk', hsegment⟩ | ⟨e, he, hsegm⟩
  · obtain rfl : k' = k :=
      hnum.eq_of_seqNum_eq hq hsum (hassembles.start.subset hk') hk (by rw [hsegment])
    obtain ⟨l, r, rfl⟩ := List.append_of_mem hk'
    obtain ⟨r', hr'⟩ := hassembles.start
    refine Or.inl ⟨l, r ++ r', by rw [← hr', List.append_assoc, List.cons_append], ?_⟩
    rw [hassembles.bytes]
    exact packBytes_mono ⟨r, by simp⟩
  · obtain ⟨k', hk', -, hsegm', hsize⟩ := hassembles.aux e he
    obtain rfl : k' = k := hnum.eq_of_seqNum_eq hq hsum hk' hk (by rw [← hsegm', hsegm])
    exact Or.inr ⟨e, he, hsegm, hsize⟩

end ReliableAux

/-- Along a run without `close_conn` from an established connection, whose numbers are compared as they were computed, with
fewer than `MAX_SEQ_NUM` bytes accepted: what `recv_point` returned and what is in `segs` is the start of what was accepted, and
the bytes of every segment whose thread has stopped, or whose entry is off `acks`, are with the receiver. -/
theorem stream_reliable {e : Places} {x : Side} {s₀ s : Session} (h0 : s₀.Established e x)
    (h : Reach (Session.step e) (fun s m => NoClose s m ∧ AcksInOrder x s m) s₀ s)
    (hlen : (s.point x).history.accepted.length < maxSeqNum) :
    (s.point x.other).history.returned ++ segBytes (s.point x.other).sp.segs <+: (s.point x).history.accepted ∧
      ∀ t ∈ (s.point x).segSends, t.pack.segment.flags = .dados →
        t.stopped = true ∨ (∀ a ∈ (s.point x).sp.acks, a.seqNum ≠ t.pack.entryNum) → s.AtReceiver x t.pack := by
  have hq := h0.seqNum.2
  have hinv : ReliableAux.Inv e x (s₀.point x).sp.seqNumS s :=
    h.invariant (ReliableAux.inv_established h0) fun _ _ _ hi hok hs => ReliableAux.inv_step hi hq hok.1 hok.2 hs
  have hsum : packSize (s.point x).stream < maxSeqNum := Nat.lt_of_le_of_lt (ReliableAux.packSize_le hinv) hlen
  obtain ⟨c, hs, d, u, hassembles, hacked, -⟩ := hinv.delivering hsum
  constructor
  · rw [hassembles.bytes, hinv.sends.accepted, dataPacks_of_dados hinv.dados]
    exact (packBytes_mono hassembles.start).trans (List.prefix_append _ _)
  · intro t ht hdados hdone
    have hk : t.pack ∈ (s.point x).stream := mem_stream_of_mem ht hdados
    refine ReliableAux.atReceiver_of_hasArrived hq hinv.sends.numbered hsum hassembles hk ?_
    rcases hdone with hstopped | hgone
    · exact hacked.stopped t ht hstopped hdados
    · have hsplit := hk
      rw [hacked.stream] at hsplit
      rcases List.mem_append.1 hsplit with hd | hu
      · exact hacked.removed _ hd
      · obtain ⟨es, hacks, hes⟩ := hacked.entries
        obtain ⟨a, ha, hseq⟩ := exists_entry hes hu
        exact absurd hseq (hgone a (by rw [hacks]; exact List.mem_append_right _ ha))

namespace ReliableAux

/-- The first point sends a byte, the second takes it, and its ACK arrives. -/
def sendOne : List (Side × PointAction) :=
  [(.a, .sendPoint [7]), (.a, .sendPut 0), (.a, .sendThread), (.a, .sendThread), (.a, .segSendThread 1),
    (.b, .recvThread (SessionAux.packet 1 2 .dados 16 0 [7] 1) 0),
    (.a, .recvThread { SessionAux.packet 2 1 .ack 0 17 [] 0 with answers := 17 } 0), (.a, .segSendThread 1)]

/-- The thread of that byte. -/
def sentThread : SegSend where
  pack := { segment := (SessionAux.packet 1 2 .dados 16 0 [7] 1).segment, size := 1, epoch := 1 }
  started := true
  stopped := true

/-- A connection in which the numbers of the first point's stream begin at `MAX_SEQ_NUM` - 1. -/
def lastSeqNum (s : Session) : Session :=
  { s with point := fun x => match x with
    | .a => { s.point .a with sp := { (s.point .a).sp with seqNumS := 4294967294, acks := [] } }
    | .b => { s.point .b with sp := { (s.point .b).sp with seqNumR := 4294967294, prevSeqNumR := 4294967288, endSeqNumR := 2 } } }

/-- The first point sends a byte, which is lost, and after the timeout looks for its ACK. -/
def loseOne : List (Side × PointAction) :=
  [(.a, .sendPoint [7]), (.a, .sendPut 0), (.a, .sendThread), (.a, .sendThread), (.a, .segSendThread 1), (.a, .segSendThread 1)]

/-- The thread of the byte that is lost. -/
def lostThread : SegSend where
  pack := { segment := (SessionAux.packet 1 2 .dados 4294967294 0 [7] 1).segment, size := 1, epoch := 1 }
  started := true
  stopped := true

/-- The first point sends two segments. The first one is lost and the second comes twice; for the copy the number in the freed memory
is 17, so that its ACK has the number of the first one. -/
def copyAhead : List (Side × PointAction) :=
  [(.a, .sendPoint [7, 8, 9]), (.a, .sendPut 0), (.a, .sendThread), (.a, .sendThread), (.a, .segSendThread 1), (.a, .sendThread),
    (.a, .sendPoint [10, 11]), (.a, .sendPut 0), (.a, .sendThread), (.a, .sendThread), (.a, .segSendThread 2),
    (.b, .recvThread (SessionAux.packet 1 2 .dados 19 0 [10, 11] 1) 0),
    (.b, .recvThread (SessionAux.packet 1 2 .dados 19 0 [10, 11] 1) 17),
    (.a, .recvThread { SessionAux.packet 2 1 .ack 0 19 [] 0 with answers := 19, freed := true } 0), (.a, .segSendThread 1)]

/-- The thread of the first one. -/
def firstThread : SegSend where
  pack := { segment := (SessionAux.packet 1 2 .dados 16 0 [7, 8, 9] 1).segment, size := 3, epoch := 1 }
  started := true
  stopped := true

/-- Where the other point has nothing in order, only its `segs_aux` can have the segment. -/
theorem not_atReceiver {x : Side} {s : Session} {k : SendSegment}
    (hnothing : (s.point x.other).history.returned ++ segBytes (s.point x.other).sp.segs = [])
    (hk : packBytes [k] ≠ []) (haux : ∀ e ∈ (s.point x.other).sp.segsAux, e.segm ≠ k.segment) : ¬ s.AtReceiver x k := by
  rintro (⟨l, r, -, hbytes⟩ | ⟨e, he, hsegm, -⟩)
  · rw [hnothing, packBytes_append] at hbytes
    exact hk (List.append_eq_nil_iff.1 (List.prefix_nil.1 hbytes)).2
  · exact haux e he hsegm

end ReliableAux

open ReliableAux in
/-- A byte that is sent, taken and acknowledged. -/
theorem stream_reliable_one :
    ∃ s₀ s : Session, s₀.Established SessionAux.places .a ∧ sentThread ∈ (s.point .a).segSends ∧
      (s.point .b).history.returned ++ segBytes (s.point .b).sp.segs <+: (s.point .a).history.accepted ∧
      s.AtReceiver .a sentThread.pack := by
  obtain ⟨s₀, -, h0, hok, s, hs, hlen, hmem⟩ :
      ∃ s₀ ∈ exec (Session.step SessionAux.places) Session.start SessionAux.handshake, s₀.Established SessionAux.places .a ∧
        Along (Session.step SessionAux.places) (fun s m => NoClose s m ∧ AcksInOrder .a s m) s₀ sendOne ∧
        ∃ s ∈ exec (Session.step SessionAux.places) s₀ sendOne,
          (s.point .a).history.accepted.length < maxSeqNum ∧ sentThread ∈ (s.point .a).segSends := by
    decide
  obtain ⟨hbytes, hall⟩ := stream_reliable h0 (reach_of_exec hok hs) hlen
  exact ⟨s₀, s, h0, hmem, hbytes, hall sentThread hmem rfl (Or.inl rfl)⟩

open ReliableAux in
/-- A lost byte whose segment ends at `MAX_SEQ_NUM`: its thread looks for the number `MAX_SEQ_NUM`, which no entry has, and
stops. -/
theorem stream_unreliable_at_wrap :
    ∃ s₀ s : Session, s₀.Established SessionAux.places .a ∧ Reach (Session.step SessionAux.places) NoClose s₀ s ∧
      (s.point .a).history.accepted.length < maxSeqNum ∧ lostThread ∈ (s.point .a).segSends ∧ ¬ s.AtReceiver .a lostThread.pack := by
  obtain ⟨s₀, -, h0, hok, s, hs, hlen, hmem, hnothing, haux⟩ :
      ∃ s₀ ∈ (exec (Session.step SessionAux.places) Session.start SessionAux.handshake).map lastSeqNum,
        s₀.Established SessionAux.places .a ∧ Along (Session.step SessionAux.places) NoClose s₀ loseOne ∧
        ∃ s ∈ exec (Session.step SessionAux.places) s₀ loseOne,
          (s.point .a).history.accepted.length < maxSeqNum ∧ lostThread ∈ (s.point .a).segSends ∧
            (s.point .b).history.returned ++ segBytes (s.point .b).sp.segs = [] ∧
            ∀ e ∈ (s.point .b).sp.segsAux, e.segm ≠ lostThread.pack.segment := by
    decide
  exact ⟨s₀, s, h0, reach_of_exec hok hs, hlen, hmem, not_atReceiver hnothing (by decide) haux⟩

open ReliableAux in
/-- A lost segment whose thread stops although no number comes near `MAX_SEQ_NUM`: the ACK of a copy of the next one, which `segs_aux`
holds, was computed from freed memory. -/
theorem stream_unreliable_after_copy :
    ∃ s₀ s : Session, s₀.Established SessionAux.places .a ∧ Reach (Session.step SessionAux.places) NoClose s₀ s ∧
      (s.point .a).history.accepted.length < maxSeqNum ∧ firstThread ∈ (s.point .a).segSends ∧
      ¬ s.AtReceiver .a firstThread.pack := by
  obtain ⟨s₀, -, h0, hok, s, hs, hlen, hmem, hnothing, haux⟩ :
      ∃ s₀ ∈ exec (Session.step SessionAux.places) Session.start SessionAux.handshake, s₀.Established SessionAux.places .a ∧
        Along (Session.step SessionAux.places) NoClose s₀ copyAhead ∧
        ∃ s ∈ exec (Session.step SessionAux.places) s₀ copyAhead,
          (s.point .a).history.accepted.length < maxSeqNum ∧ firstThread ∈ (s.point .a).segSends ∧
            (s.point .b).history.returned ++ segBytes (s.point .b).sp.segs = [] ∧
            ∀ e ∈ (s.point .b).sp.segsAux, e.segm ≠ firstThread.pack.segment := by
    decide
  exact ⟨s₀, s, h0, reach_of_exec hok hs, hlen, hmem, not_atReceiver hnothing (by decide) haux⟩

end NetworkLayers
