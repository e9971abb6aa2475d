import NetworkLayers.Lemmas.Stream

/-!
# Closing a connection

`close_conn` takes a sequence number for its FIN at once, whether or not `send_thread` has still data to put into segments, and
`close_conn_aux` acts on a FIN whenever it arrives, whether or not the data before it has. When neither happens, the point that
processes the FIN has all that the other one accepted before `close_conn`.
-/

namespace NetworkLayers

open Transition SeqSpace

/-- `close_conn` at the sender finds all that was accepted in segments, and the receiver gets the FIN when it is the next in its
sequence. -/
def CloseInOrder (x : Side) (s : Session) (m : Side × PointAction) : Prop :=
  match m.2 with
  | .closeConn => m.1 = x → (s.point x).sp.flagCon = .comConexao → (s.point x).unsent = []
  | .recvThread pkt _ => m.1 = x.other → pkt.segment.flags = .fin → pkt.segment.seqNum = (s.point x.other).sp.seqNumR
  | _ => True

instance CloseInOrder.decidable (x : Side) (s : Session) : ∀ m, Decidable (CloseInOrder x s m)
  | (_, .closeConn) => inferInstanceAs (Decidable (_ → _ → _))
  | (_, .recvThread _ _) => inferInstanceAs (Decidable (_ → _ → _))
  | (_, .connectPoint ..) | (_, .sendPoint _) | (_, .sendPut _) | (_, .recvPoint _) | (_, .sendThread)
  | (_, .segSendThread _) => inferInstanceAs (Decidable True)

/-- The receiver is still in the connection. -/
def ReceiverConnected (x : Side) (s : Session) (_ : Side × PointAction) : Prop :=
  (s.point x.other).sp.flagCon = .comConexao

instance (x : Side) (s : Session) (m : Side × PointAction) : Decidable (ReceiverConnected x s m) :=
  inferInstanceAs (Decidable (_ = _))

/-- The receiver leaves the connection because it processes a FIN. -/
def Session.LeavesByFin (e : Places) (x : Side) (s s' : Session) (pkt : Packet) (rnd : Nat) : Prop :=
  s.step e (x.other, .recvThread pkt rnd) = some s' ∧ pkt.segment.flags = .fin ∧
    (s.point x.other).sp.flagCon = .comConexao ∧ (s'.point x.other).sp.flagCon ≠ .comConexao

/-- What was accepted before `close_conn` is with the receiver, and the FIN has the number after the data packs that carry it. -/
def Session.ClosedWithAll (x : Side) (q : Nat) (s : Session) (fin : Packet) : Prop :=
  ∃ before, (s.point x).history.closing = some before ∧
    before <+: (s.point x.other).history.returned ++ segBytes (s.point x.other).sp.segs ∧
    ∃ l, l <+: dataPacks (s.point x).stream ∧ packBytes l = before ∧ fin.segment.seqNum = seqNumAfter q l

namespace CloseAux

/-- The stream of a point and its closing: before `close_conn` only data; after it, the FIN behind the packs of what had been
accepted, and data behind the FIN. -/
structure Closing (p : Endpoint) : Prop where
  opened : p.sp.flagCon = .comConexao → p.history.closing = none
  data : p.history.closing = none → ∀ k ∈ p.stream, k.segment.flags = .dados
  closed : ∀ before, p.history.closing = some before → ∃ l f r, p.stream = l ++ f :: r ∧ f.segment.flags = .fin ∧ f.size = 1 ∧
    (∀ k ∈ l, k.segment.flags = .dados) ∧ (∀ k ∈ r, k.segment.flags = .dados) ∧ packBytes l = before

/-- In a connection to which no FIN comes, a point closes, or its closing and flag_con are as before and its stream has at most
data more. -/
theorem does_closing {here : Addr} {p p' : Endpoint} {act : PointAction} {out : List Packet} (h : p.Does here act p' out)
    (hf : p.sp.flagCon = .comConexao ∨ p.sp.flagCon = .encerrando)
    (hfin : ∀ pkt rnd, act = .recvThread pkt rnd → pkt.segment.flags ≠ .fin) :
    (act = .closeConn ∧ p.sp.flagCon = .comConexao ∧ p'.sp.flagCon ≠ .comConexao ∧
      p'.history.closing = some p.history.accepted ∧ ∃ f, p'.stream = p.stream ++ [f] ∧ f.segment.flags = .fin ∧ f.size = 1) ∨
    (p'.history.closing = p.history.closing ∧ p'.sp.flagCon = p.sp.flagCon ∧
      ∃ new, p'.stream = p.stream ++ new ∧ ∀ k ∈ new, k.segment.flags = .dados) := by
  cases h with
  | sync _ _ _ _ _ hf' => exact absurd hf' (FlagCon.ne_of_inConnection hf).1
  | acceptSync _ _ _ _ hf' => exact absurd hf' (FlagCon.ne_of_inConnection hf).1
  | acceptSyncAck _ _ _ _ hf' => exact absurd hf' (FlagCon.ne_of_inConnection hf).2
  | finInConnection pkt rnd hflags => exact absurd hflags (hfin pkt rnd rfl)
  | finWhileClosing pkt rnd hflags => exact absurd hflags (hfin pkt rnd rfl)
  | close _ hcon =>
    exact Or.inl ⟨rfl, hcon, by simp [Endpoint.sendFin, Endpoint.spawn], rfl, _, stream_spawn (Or.inr rfl), rfl, rfl⟩
  | segment =>
    refine Or.inr ⟨rfl, rfl, _, stream_spawn (Or.inl rfl), ?_⟩
    intro k hk
    obtain rfl := List.mem_singleton.1 hk
    rfl
  | firstSend i t ht | acked i t ht =>
    exact Or.inr ⟨rfl, rfl, [], by rw [List.append_nil]; exact stream_set ht rfl, by simp⟩
  | _ => exact Or.inr ⟨rfl, rfl, [], (List.append_nil _).symm, by simp⟩

theorem closing_step {q : Nat} {here : Addr} {p p' : Endpoint} {act : PointAction} {out : List Packet} (h : Closing p)
    (hsends : Sends q p) (hdoes : p.Does here act p' out) (hf : p.sp.flagCon = .comConexao ∨ p.sp.flagCon = .encerrando)
    (hfin : ∀ pkt rnd, act = .recvThread pkt rnd → pkt.segment.flags ≠ .fin)
    (hclose : act = .closeConn → p.sp.flagCon = .comConexao → p.unsent = []) : Closing p' := by
  rcases does_closing hdoes hf hfin with
    ⟨hact, hcon, hflag, hclosing, f, hstream, hflags, hsize⟩ | ⟨hclosing, hflag, new, hstream, hnew⟩
  · -- the packs before the FIN carry all that was accepted
    have hdata := h.data (h.opened hcon)
    have haccepted : p.history.accepted = packBytes p.stream := by
      rw [hsends.accepted, hclose hact hcon, List.append_nil, dataPacks_of_dados hdata]
    refine ⟨fun hcon' => absurd hcon' hflag, ?_, ?_⟩
    · intro hnone
      rw [hclosing] at hnone
      cases hnone
    · intro before hbefore
      rw [hclosing] at hbefore
      obtain rfl := Option.some.inj hbefore
      exact ⟨p.stream, f, [], hstream, hflags, hsize, hdata, by simp, haccepted.symm⟩
  · refine ⟨?_, ?_, ?_⟩
    · intro hcon
      rw [hclosing]
      exact h.opened (by rw [← hflag]; exact hcon)
    · intro hnone k hk
      rw [hclosing] at hnone
      rw [hstream] at hk
      rcases List.mem_append.1 hk with hk | hk
      · exact h.data hnone k hk
      · exact hnew k hk
    · intro before hbefore
      rw [hclosing] at hbefore
      obtain ⟨l, f, r, hsplit, hflags, hsize, hl, hr, hbytes⟩ := h.closed before hbefore
      refine ⟨l, f, r ++ new, by rw [hstream, hsplit, List.append_assoc, List.cons_append], hflags, hsize, hl, ?_, hbytes⟩
      intro k hk
      rcases List.mem_append.1 hk with hk | hk
      · exact hr k hk
      · exact hnew k hk

/-- The stream is at most the FIN longer than what was accepted. -/
theorem packSize_le {q : Nat} {p : Endpoint} (hsends : Sends q p) (h : Closing p) :
    packSize p.stream ≤ p.history.accepted.length + 1 := by
  have hlength : (packBytes (dataPacks p.stream)).length = packSize (dataPacks p.stream) :=
    length_packBytes fun k hk => hsends.numbered.length k (List.mem_of_mem_filter hk)
  have hdata : packSize (dataPacks p.stream) ≤ p.history.accepted.length := by
    rw [hsends.accepted, List.length_append, hlength]
    omega
  cases hc : p.history.closing with
  | none =>
    rw [dataPacks_of_dados (h.data hc)] at hdata
    omega
  | some before =>
    obtain ⟨l, f, r, hsplit, hflags, hsize, hl, hr, -⟩ := h.closed before hc
    have hf : dataPacks (f :: r) = r := by
      rw [dataPacks, List.filter_cons_of_neg (by simp [hflags])]
      exact dataPacks_of_dados hr
    rw [hsplit, dataPacks_append, dataPacks_of_dados hl, hf, packSize_append] at hdata
    rw [hsplit, packSize_append, packSize_cons]
    omega

/-- What has been accepted only grows. -/
theorem accepted_grows {here : Addr} {p p' : Endpoint} {act : PointAction} {out : List Packet} (h : p.Does here act p' out) :
    p.history.accepted <+: p'.history.accepted := by
  cases h with
  | deposit => exact List.prefix_append _ _
  | _ => exact List.prefix_refl _

/-- What holds as long as the receiver is in the connection. -/
structure Inv (e : Places) (x : Side) (q : Nat) (s : Session) : Prop where
  streaming : Streaming e x s
  sends : Sends q (s.point x)
  closing : Closing (s.point x)
  assembles : (s.point x).history.accepted.length + 1 < maxSeqNum →
    ∃ c, Assembles q (s.point x).stream (s.point x.other).sp (s.point x.other).history.returned c

variable {e : Places} {x : Side} {q : Nat} {s s' : Session}

theorem inv_established (h : s.Established e x) : Inv e x (s.point x).sp.seqNumS s where
  streaming := h.streaming
  sends := h.sends
  closing := by
    refine ⟨fun _ => h.history.2.1, ?_, ?_⟩
    · intro _
      rw [h.stream.1]
      simp
    · intro before hbefore
      rw [h.history.2.1] at hbefore
      cases hbefore
  assembles := fun _ => ⟨[], h.assembles⟩

theorem inv_step (h : Inv e x q s) (hq : q < maxSeqNum) {m : Side × PointAction} (hok : CloseInOrder x s m)
    (hs : s.step e m = some s') (hreceiver : (s'.point x.other).sp.flagCon = .comConexao) : Inv e x q s' := by
  have hstreaming := h.streaming.step hs hreceiver
  obtain ⟨w, act⟩ := m
  obtain ⟨p, out, hen, hact, hw, hother, -⟩ := Session.step_cases hs
  have hdoes := act_does hact
  -- the receiver changes nothing at the sender
  have hsender : Sends q (s'.point x) ∧ Closing (s'.point x) ∧
      (s.point x).history.accepted <+: (s'.point x).history.accepted := by
    rcases Side.eq_or_eq_other x w with rfl | rfl
    · rw [hw]
      have hfin : ∀ pkt rnd, act = .recvThread pkt rnd → pkt.segment.flags ≠ .fin := fun _ _ hact' => h.streaming.ne_fin hen hact'
      have hclose : act = .closeConn → (s.point w).sp.flagCon = .comConexao → (s.point w).unsent = [] := by
        intro hact'
        subst hact'
        exact hok rfl
      exact ⟨h.sends.step hdoes h.streaming.sender hfin, closing_step h.closing h.sends hdoes h.streaming.sender hfin hclose,
        accepted_grows hdoes⟩
    · rw [Side.other_other] at hother
      rw [hother]
      exact ⟨h.sends, h.closing, List.prefix_refl _⟩
  obtain ⟨hsends, hclosing, haccepted⟩ := hsender
  refine ⟨hstreaming, hsends, hclosing, ?_⟩
  intro hlen
  have hlen' : (s.point x).history.accepted.length + 1 < maxSeqNum := by
    have := haccepted.length_le
    omega
  obtain ⟨c, hc⟩ := h.assembles hlen'
  obtain ⟨c', hc', -⟩ := h.streaming.assembles_step hs hq h.sends.numbered
    (Nat.lt_of_le_of_lt (packSize_le h.sends h.closing) hlen') hc
  exact ⟨c', hc'⟩

/-- Along a run from an established connection, whose steps are in order and start with the receiver in the connection, the
invariant holds until the receiver leaves. -/
theorem inv_reach {s₀ : Session} (h0 : s₀.Established e x)
    (h : Reach (Session.step e) (fun s m => ReceiverConnected x s m ∧ CloseInOrder x s m) s₀ s) :
    (s.point x.other).sp.flagCon = .comConexao → Inv e x (s₀.point x).sp.seqNumS s := by
  have h0' : (s₀.point x.other).sp.flagCon = .comConexao → Inv e x (s₀.point x).sp.seqNumS s₀ := fun _ => inv_established h0
  exact h.invariant h0' fun s m s' hi hok hs hreceiver => inv_step (hi hok.1) h0.seqNum.2 hok.2 hs hreceiver

/-- A FIN changes nothing about the data the receiver has. -/
theorem fin_keeps_data {here : Addr} {p p' : Endpoint} {pkt : Packet} {rnd : Nat} {out : List Packet}
    (h : p.Does here (.recvThread pkt rnd) p' out) (hfin : pkt.segment.flags = .fin) :
    p'.history.returned = p.history.returned ∧ p'.sp.segs = p.sp.segs := by
  generalize hact : PointAction.recvThread pkt rnd = act at h
  cases h with
  | recv => cases hact
  | add pkt' rnd' hflags =>
    obtain ⟨rfl, -⟩ := PointAction.recvThread.inj hact
    rw [hfin] at hflags
    cases hflags
  | _ => exact ⟨rfl, rfl⟩

end CloseAux

/-- Along a run from an established connection whose steps are in order, with fewer than `MAX_SEQ_NUM` - 1 bytes accepted: when
the receiver leaves because it processes the sender's FIN, it has all that was accepted before `close_conn`. -/
theorem close_loses_nothing {e : Places} {x : Side} {s₀ s s' : Session} {fin : Packet} {rnd : Nat} (h0 : s₀.Established e x)
    (h : Reach (Session.step e) (fun s m => ReceiverConnected x s m ∧ CloseInOrder x s m) s₀ s)
    (hlen : (s.point x).history.accepted.length + 1 < maxSeqNum) (hleaves : s.LeavesByFin e x s' fin rnd)
    (hok : CloseInOrder x s (x.other, .recvThread fin rnd)) :
    s'.ClosedWithAll x (s₀.point x).sp.seqNumS fin := by
  obtain ⟨hs, hfin, hreceiver, -⟩ := hleaves
  have hinv := CloseAux.inv_reach h0 h hreceiver
  obtain ⟨c, hc⟩ := hinv.assembles hlen
  obtain ⟨p, out, hen, hact, hy, hother, -⟩ := Session.step_cases hs
  rw [Side.other_other] at hother
  obtain ⟨hreturned, hsegs⟩ := CloseAux.fin_keeps_data (act_does hact) hfin
  -- the FIN is the one of the sender's stream
  obtain ⟨k, hk, hsegment, -⟩ := hinv.streaming.arrives hen (Or.inr hfin)
  rw [Side.other_other] at hk
  have hkfin : k.segment.flags = .fin := by rw [← hsegment]; exact hfin
  cases hclosing : (s.point x).history.closing with
  | none =>
    have := hinv.closing.data hclosing k hk
    rw [hkfin] at this
    cases this
  | some before =>
    obtain ⟨l, f, r, hsplit, hffin, -, hl, hr, hbytes⟩ := hinv.closing.closed before hclosing
    obtain rfl : k = f := by
      rw [hsplit] at hk
      rcases List.mem_append.1 hk with hk | hk
      · rw [hl k hk] at hkfin
        cases hkfin
      · rcases List.mem_cons.1 hk with rfl | hk
        · rfl
        · rw [hr k hk] at hkfin
          cases hkfin
    have hlPrefix : l <+: (s.point x).stream := ⟨k :: r, hsplit.symm⟩
    have hseq : fin.segment.seqNum = seqNumAfter (s₀.point x).sp.seqNumS l := by
      rw [hsegment]
      exact hinv.sends.numbered.seqNum l k r hsplit
    -- it is next in sequence, so what the receiver has taken is what is before it
    have hsum : packSize (s.point x).stream < maxSeqNum :=
      Nat.lt_of_le_of_lt (CloseAux.packSize_le hinv.sends hinv.closing) hlen
    obtain rfl : l = c := by
      refine prefix_eq_of_seqAt_eq h0.seqNum.2 hinv.sends.numbered.pos hsum hlPrefix hc.start ?_
      calc seqNumAfter (s₀.point x).sp.seqNumS l = fin.segment.seqNum := hseq.symm
        _ = (s.point x.other).sp.seqNumR := hok rfl hfin
        _ = seqNumAfter (s₀.point x).sp.seqNumS c := hc.seqNumR
    refine ⟨before, by rw [hother]; exact hclosing, ?_, l, ?_, hbytes, hseq⟩
    · rw [hy, hreturned, hsegs, hc.bytes, hbytes]
    · rw [hother, hsplit, dataPacks_append, dataPacks_of_dados hl]
      exact List.prefix_append _ _

namespace CloseAux

/-- The first point sends two bytes and closes the connection after `send_thread` is done with them. -/
def sendAndClose : List (Side × PointAction) :=
  [(.a, .sendPoint [7, 8]), (.a, .sendPut 0), (.a, .sendThread), (.a, .sendThread), (.a, .sendThread), (.a, .segSendThread 1),
    (.a, .closeConn), (.a, .segSendThread 2)]

/-- The same, and the second point takes the bytes. -/
def sendReceiveAndClose : List (Side × PointAction) :=
  sendAndClose ++ [(.b, .recvThread (SessionAux.packet 1 2 .dados 16 0 [7, 8] 1) 0)]

/-- The FIN of the first point. -/
def fin : Packet := SessionAux.packet 1 2 .fin 18 0 [102] 1

end CloseAux

open CloseAux in
/-- The bytes arrive before the FIN. -/
theorem close_loses_nothing_in_order :
    ∃ s₀ s s' : Session, s₀.Established SessionAux.places .a ∧ s.LeavesByFin SessionAux.places .a s' fin 0 ∧
      s'.ClosedWithAll .a (s₀.point .a).sp.seqNumS fin := by
  obtain ⟨s₀, -, h0, hok, s, hs, hlen, hfin, s', hs', hcon, hleft⟩ :
      ∃ s₀ ∈ exec (Session.step SessionAux.places) Session.start SessionAux.handshake, s₀.Established SessionAux.places .a ∧
        Along (Session.step SessionAux.places) (fun s m => ReceiverConnected .a s m ∧ CloseInOrder .a s m) s₀
          sendReceiveAndClose ∧
        ∃ s ∈ exec (Session.step SessionAux.places) s₀ sendReceiveAndClose,
          (s.point .a).history.accepted.length + 1 < maxSeqNum ∧ CloseInOrder .a s (.b, .recvThread fin 0) ∧
          ∃ s' ∈ s.step SessionAux.places (.b, .recvThread fin 0),
            (s.point .b).sp.flagCon = .comConexao ∧ (s'.point .b).sp.flagCon ≠ .comConexao := by
    decide
  have hleaves : s.LeavesByFin SessionAux.places .a s' fin 0 := ⟨hs', rfl, hcon, hleft⟩
  exact ⟨s₀, s, s', h0, hleaves, close_loses_nothing h0 (reach_of_exec hok hs) hlen hleaves hfin⟩

open CloseAux in
/-- The FIN overtakes the bytes: the second point leaves the connection without them. -/
theorem close_loses_data :
    ∃ s₀ s s' : Session, s₀.Established SessionAux.places .a ∧ Reach (Session.step SessionAux.places) (ReceiverConnected .a) s₀ s ∧
      s.LeavesByFin SessionAux.places .a s' fin 0 ∧ ¬ s'.ClosedWithAll .a (s₀.point .a).sp.seqNumS fin := by
  obtain ⟨s₀, -, h0, hok, s, hs, s', hs', hcon, hleft, hclosing, hdata⟩ :
      ∃ s₀ ∈ exec (Session.step SessionAux.places) Session.start SessionAux.handshake, s₀.Established SessionAux.places .a ∧
        Along (Session.step SessionAux.places) (ReceiverConnected .a) s₀ sendAndClose ∧
        ∃ s ∈ exec (Session.step SessionAux.places) s₀ sendAndClose,
          ∃ s' ∈ s.step SessionAux.places (.b, .recvThread fin 0),
            (s.point .b).sp.flagCon = .comConexao ∧ (s'.point .b).sp.flagCon ≠ .comConexao ∧
              (s'.point .a).history.closing = some [7, 8] ∧
              (s'.point .b).history.returned ++ segBytes (s'.point .b).sp.segs = [] := by
    decide
  refine ⟨s₀, s, s', h0, reach_of_exec hok hs, ⟨hs', rfl, hcon, hleft⟩, ?_⟩
  rintro ⟨before, hbefore, hgrows, -⟩
  obtain rfl : [7, 8] = before := Option.some.inj (hclosing.symm.trans hbefore)
  rw [show Side.a.other = Side.b from rfl, hdata] at hgrows
  exact absurd (List.prefix_nil.1 hgrows) (by decide)

end NetworkLayers
