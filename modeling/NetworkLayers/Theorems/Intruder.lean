import NetworkLayers.Transport.Point
import NetworkLayers.Lemmas.Session
import NetworkLayers.Lemmas.Lists
import Mathlib.Data.Prod.Lex

/-!
# Segments from somewhere else

`recv_thread`, `sync_ack_thread` and `close_conn_aux` never compare where a segment comes from with the point's `dest` and `dest_sp`.
A segment from anywhere acts as one from the other end of the connection does; when it changes nothing, it is because
`recv_thread` would make nothing of it whoever had sent it.
-/

namespace NetworkLayers

open Transition

/-- What a segment finds when nothing is made of it. -/
def UnheededAs (p : Endpoint) (segment : Segment) : Flags → Prop
  | .sync => p.sp.mutexCon = true ∨ p.sp.flagCon ≠ .semConexao
  | .syncAck => p.sp.mutexCon = true ∨ p.sp.flagCon ≠ .estabelecendo
  | .ack => isSet p.sp.acks segment.ackNum = true
  | .fin => p.sp.mutexCon = true ∨ p.sp.flagCon = .semConexao ∨ p.sp.flagCon = .estabelecendo
  | .dados => p.sp.mutexCon = true ∨ p.sp.flagCon ≠ .comConexao ∨ p.sp.verdict segment.seqNum ≠ .addDados ∨
      segment.seqNum ≠ p.sp.seqNumR ∧ ∃ e ∈ p.sp.segsAux, e.segm.seqNum = segment.seqNum

instance UnheededAs.decidable (p : Endpoint) (segment : Segment) : ∀ f, Decidable (UnheededAs p segment f)
  | .sync | .syncAck | .fin => inferInstanceAs (Decidable (_ ∨ _))
  | .ack => inferInstanceAs (Decidable (_ = _))
  | .dados => inferInstanceAs (Decidable (_ ∨ _ ∨ _ ∨ _ ∧ ∃ e ∈ p.sp.segsAux, _))

/-- `recv_thread`, or the thread it starts, makes nothing of the packet: it waits for a mutex, or the packet is
* a SYN, in a connection or while one is opened or closed;
* a SYN+ACK, unless one is opened;
* an ACK for a number that is set already, or that is not in the list;
* a FIN, unless the point is in a connection or closing it;
* data, outside a connection, or out of the window or in front of `seq_num_r`, or not the next and in `segs_aux` already. -/
def Unheeded (p : Endpoint) (x : Packet × Nat) : Prop := p.recvBlocked = true ∨ UnheededAs p x.1.segment x.1.segment.flags

instance (p : Endpoint) (x : Packet × Nat) : Decidable (Unheeded p x) := inferInstanceAs (Decidable (_ ∨ _))

namespace IntruderAux

variable {here : Addr} {p : Endpoint} {pkt : Packet} {rnd : Nat}

/-! ## What a packet does, by its flags -/

theorem receive_blocked (hblocked : p.recvBlocked = true) : p.receive here (pkt, rnd) = p := by
  unfold Endpoint.receive Endpoint.recvThread
  rw [if_pos hblocked]
  rfl

theorem receive_dados (hblocked : p.recvBlocked = false) (hflags : pkt.segment.flags = .dados) :
    p.receive here (pkt, rnd) =
      if p.sp.mutexCon then { p with recvBlocked := true }
      else if p.sp.flagCon = .comConexao then (p.recvDados here pkt rnd).1
      else { p with sp := { p.sp with mutexCon := true } } := by
  unfold Endpoint.receive Endpoint.recvThread
  rw [if_neg (by simp [hblocked]), hflags]
  dsimp only
  split
  · rfl
  · split <;> rfl

theorem receive_sync (hblocked : p.recvBlocked = false) (hflags : pkt.segment.flags = .sync) :
    p.receive here (pkt, rnd) = if p.sp.mutexCon then p else p.syncThread here pkt rnd := by
  unfold Endpoint.receive Endpoint.recvThread
  rw [if_neg (by simp [hblocked]), hflags]
  dsimp only
  split <;> rfl

theorem receive_syncAck (hblocked : p.recvBlocked = false) (hflags : pkt.segment.flags = .syncAck) :
    p.receive here (pkt, rnd) = if p.sp.mutexCon then p else (p.syncAckThread here pkt).1 := by
  unfold Endpoint.receive Endpoint.recvThread
  rw [if_neg (by simp [hblocked]), hflags]
  dsimp only
  split <;> rfl

theorem receive_ack (hblocked : p.recvBlocked = false) (hflags : pkt.segment.flags = .ack) :
    p.receive here (pkt, rnd) = { p with sp := { p.sp with acks := setAck p.sp.acks pkt.segment.ackNum } } := by
  unfold Endpoint.receive Endpoint.recvThread
  rw [if_neg (by simp [hblocked]), hflags]
  rfl

theorem receive_fin (hblocked : p.recvBlocked = false) (hflags : pkt.segment.flags = .fin) :
    p.receive here (pkt, rnd) = if p.sp.mutexCon then { p with recvBlocked := true } else (p.closeConnAux here pkt).1 := by
  unfold Endpoint.receive Endpoint.recvThread
  rw [if_neg (by simp [hblocked]), hflags]
  dsimp only
  split <;> rfl

/-! ## The source of a segment does not matter -/

/-- A point but for where its segments came from, where it sends to, and what `recv_thread` does not read. -/
def bare (p : Endpoint) : Endpoint :=
  { allocServicePoint with
    recvBlocked := p.recvBlocked
    sp := { p.sp with
      dest := 0, destSp := 0, segs := p.sp.segs.map SegLst.anonymous, segsAux := p.sp.segsAux.map SegLst.anonymous } }

theorem conn_anonymous (p : Endpoint) : p.sp.conn.anonymous = (bare p).sp.conn := rfl

/-- A segment but for its source. -/
def nameless (pkt : Packet) : Packet := pkt.setSource ⟨0, 0⟩

/-- `is_next` looks at sequence numbers only. -/
theorem isNext_anonymous (l : List SegLst) (base : Nat) :
    isNext (l.map SegLst.anonymous) base = (isNext l base).map fun r => (r.1.anonymous, r.2.map SegLst.anonymous) := by
  induction l with
  | nil => rfl
  | cons e l ih =>
    have hseq : e.anonymous.segm.seqNum = e.segm.seqNum := rfl
    rw [List.map_cons, isNext, isNext, hseq]
    split
    · rfl
    · rw [ih]
      cases isNext l base <;> rfl

/-- So does the loop of `insert_seg`. -/
theorem moveNext_anonymous (rounds : Nat) (l : List SegLst) (count ret : Nat) :
    moveNext rounds (l.map SegLst.anonymous) count ret =
      ((moveNext rounds l count ret).1.map SegLst.anonymous, (moveNext rounds l count ret).2.1.map SegLst.anonymous,
        (moveNext rounds l count ret).2.2) := by
  induction rounds generalizing l count ret with
  | zero => rfl
  | succ rounds ih =>
    rw [moveNext, moveNext, isNext_anonymous]
    cases isNext l count with
    | none => rfl
    | some r =>
      have hsize : r.1.anonymous.size = r.1.size := rfl
      simp only [Option.map_some, hsize, ih, List.map_cons]

/-- And `insert_seg_lst`. -/
theorem insertSegLst_anonymous (l : List SegLst) (seg : Segment) (size : Nat) :
    insertSegLst (l.map SegLst.anonymous) { seg with src := 0 } size = (insertSegLst l seg size).map SegLst.anonymous := by
  have hany : (l.map SegLst.anonymous).any (fun e => e.segm.seqNum = seg.seqNum) = l.any fun e => e.segm.seqNum = seg.seqNum := by
    rw [List.any_map]
    rfl
  unfold insertSegLst
  simp only [hany]
  split
  · rfl
  · rw [List.map_append]
    rfl

/-- And `insert_seg`. -/
theorem insertSeg_anonymous (lst lstAux : List SegLst) (seg : Segment) (size base : Nat) :
    insertSeg (lst.map SegLst.anonymous) (lstAux.map SegLst.anonymous) { seg with src := 0 } size base =
      ((insertSeg lst lstAux seg size base).1.map SegLst.anonymous, (insertSeg lst lstAux seg size base).2.1.map SegLst.anonymous,
        (insertSeg lst lstAux seg size base).2.2) := by
  unfold insertSeg
  by_cases hseq : seg.seqNum = base
  · simp only [if_pos hseq, List.length_map, moveNext_anonymous, List.map_append, List.map_cons, SegLst.anonymous]
  · simp only [if_neg hseq, insertSegLst_anonymous]

/-- What is added does not depend on where it came from. -/
theorem bare_addDados (p : Endpoint) (pkt : Packet) :
    bare { p with sp := p.sp.addDados pkt } = bare { bare p with sp := (bare p).sp.addDados (nameless pkt) } := by
  have hinsert := insertSeg_anonymous p.sp.segs p.sp.segsAux pkt.segment pkt.dataSize p.sp.seqNumR
  have hsame : insertSeg (bare p).sp.segs (bare p).sp.segsAux (nameless pkt).segment (nameless pkt).dataSize (bare p).sp.seqNumR =
      ((insertSeg p.sp.segs p.sp.segsAux pkt.segment pkt.dataSize p.sp.seqNumR).1.map SegLst.anonymous,
        (insertSeg p.sp.segs p.sp.segsAux pkt.segment pkt.dataSize p.sp.seqNumR).2.1.map SegLst.anonymous,
        (insertSeg p.sp.segs p.sp.segsAux pkt.segment pkt.dataSize p.sp.seqNumR).2.2) := hinsert
  have hid : SegLst.anonymous ∘ SegLst.anonymous = SegLst.anonymous := rfl
  unfold ServicePoint.addDados
  rw [hsame]
  simp only [bare, List.map_map, hid]

theorem bare_bare (p : Endpoint) : bare (bare p) = bare p := by
  have hid : SegLst.anonymous ∘ SegLst.anonymous = SegLst.anonymous := rfl
  simp only [bare, List.map_map, hid]

/-- A packet does to a point what it does, without its source, to the bare point. -/
theorem bare_receive (p : Endpoint) (pkt : Packet) (rnd : Nat) :
    bare (p.receive here (pkt, rnd)) = bare ((bare p).receive here (nameless pkt, rnd)) := by
  have hid : SegLst.anonymous ∘ SegLst.anonymous = SegLst.anonymous := rfl
  cases hblocked : p.recvBlocked with
  | true => rw [receive_blocked hblocked, receive_blocked (p := bare p) hblocked, bare_bare]
  | false =>
    have hblocked' : (bare p).recvBlocked = false := hblocked
    have hsame : (nameless pkt).segment.flags = pkt.segment.flags := rfl
    cases hflags : pkt.segment.flags with
    | dados =>
      have hflags' := hsame.trans hflags
      rw [receive_dados hblocked hflags, receive_dados hblocked' hflags']
      by_cases hm : p.sp.mutexCon = true
      · rw [if_pos hm, if_pos (show (bare p).sp.mutexCon = true from hm)]
        simp only [bare, List.map_map, hid]
      · rw [if_neg hm, if_neg (show ¬(bare p).sp.mutexCon = true from hm)]
        by_cases hf : p.sp.flagCon = .comConexao
        · rw [if_pos hf, if_pos (show (bare p).sp.flagCon = .comConexao from hf)]
          have hverdict : (bare p).sp.verdict (nameless pkt).segment.seqNum = p.sp.verdict pkt.segment.seqNum := rfl
          unfold Endpoint.recvDados
          rw [hverdict]
          cases p.sp.verdict pkt.segment.seqNum with
          | descarta => exact (bare_bare p).symm
          | reenviaAck => exact (bare_bare p).symm
          | addDados => exact bare_addDados p pkt
        · rw [if_neg hf, if_neg (show ¬(bare p).sp.flagCon = .comConexao from hf)]
          simp only [bare, List.map_map, hid]
    | sync =>
      have hflags' := hsame.trans hflags
      rw [receive_sync hblocked hflags, receive_sync hblocked' hflags']
      by_cases hm : p.sp.mutexCon = true
      · rw [if_pos hm, if_pos (show (bare p).sp.mutexCon = true from hm), bare_bare]
      · rw [if_neg hm, if_neg (show ¬(bare p).sp.mutexCon = true from hm)]
        unfold Endpoint.syncThread
        by_cases hf : p.sp.flagCon = .semConexao
        · rw [if_pos hf, if_pos (show (bare p).sp.flagCon = .semConexao from hf)]
          simp only [bare, List.map_map, hid, Endpoint.acceptSync, Endpoint.connected, Endpoint.spawn, nameless, Packet.setSource]
        · rw [if_neg hf, if_neg (show ¬(bare p).sp.flagCon = .semConexao from hf), bare_bare]
    | syncAck =>
      have hflags' := hsame.trans hflags
      rw [receive_syncAck hblocked hflags, receive_syncAck hblocked' hflags']
      by_cases hm : p.sp.mutexCon = true
      · rw [if_pos hm, if_pos (show (bare p).sp.mutexCon = true from hm), bare_bare]
      · rw [if_neg hm, if_neg (show ¬(bare p).sp.mutexCon = true from hm)]
        unfold Endpoint.syncAckThread
        by_cases hf : p.sp.flagCon = .estabelecendo
        · rw [if_pos hf, if_pos (show (bare p).sp.flagCon = .estabelecendo from hf)]
          simp only [bare, List.map_map, hid, Endpoint.acceptSyncAck, Endpoint.connected, Endpoint.took, nameless, Packet.setSource]
        · rw [if_neg hf, if_neg (show ¬(bare p).sp.flagCon = .estabelecendo from hf), bare_bare]
    | ack =>
      have hflags' := hsame.trans hflags
      rw [receive_ack hblocked hflags, receive_ack hblocked' hflags']
      simp only [bare, List.map_map, hid, nameless, Packet.setSource]
    | fin =>
      have hflags' := hsame.trans hflags
      rw [receive_fin hblocked hflags, receive_fin hblocked' hflags']
      by_cases hm : p.sp.mutexCon = true
      · rw [if_pos hm, if_pos (show (bare p).sp.mutexCon = true from hm)]
        simp only [bare, List.map_map, hid]
      · rw [if_neg hm, if_neg (show ¬(bare p).sp.mutexCon = true from hm)]
        have hflag : (bare p).sp.flagCon = p.sp.flagCon := rfl
        unfold Endpoint.closeConnAux
        rw [hflag]
        cases hf : p.sp.flagCon with
        | semConexao => exact (bare_bare p).symm
        | estabelecendo => exact (bare_bare p).symm
        | comConexao => simp only [bare, List.map_map, hid, Endpoint.sendFin, Endpoint.spawn, Endpoint.took]
        | encerrando => simp only [bare, List.map_map, hid, Endpoint.took]

/-- So do several packets. -/
theorem bare_receiveAll {p q : Endpoint} (hpq : bare p = bare q) (a : Addr) (l : List (Packet × Nat)) :
    bare (p.receiveAll here l) = bare (q.receiveAll here (l.map fun x => (x.1.setSource a, x.2))) := by
  induction l generalizing p q with
  | nil => exact hpq
  | cons x l ih =>
    refine ih ?_
    have hname : nameless (x.1.setSource a) = nameless x.1 := rfl
    rw [bare_receive p x.1 x.2, bare_receive q (x.1.setSource a) x.2, hname, hpq]

/-! ## What a packet changes is not changed back -/

/-- How far a connection is: opening, open or closing, closed. -/
def phase : FlagCon → Nat
  | .estabelecendo => 0
  | .comConexao | .encerrando => 1
  | .semConexao => 2

/-- What grows when something is made of a packet, the first of these that changes: the acknowledgements waited for, how far the
connection is, the acknowledgements that have come, and the segments received. -/
def rank (c : ConnState) : ℕ ×ₗ ℕ ×ₗ ℕ ×ₗ ℕ ×ₗ ℕ :=
  toLex (c.acks.length, toLex (phase c.flagCon, toLex ((c.acks.filter AckLst.flag).length,
    toLex (c.segs.length, c.segsAux.length))))

theorem rank_lt_of_acks {c c' : ConnState} (h : c.acks.length < c'.acks.length) : rank c < rank c' :=
  Prod.Lex.toLex_lt_toLex.2 (Or.inl h)

theorem rank_lt_of_phase {c c' : ConnState} (hacks : c.acks.length = c'.acks.length) (h : phase c.flagCon < phase c'.flagCon) :
    rank c < rank c' :=
  Prod.Lex.toLex_lt_toLex.2 (Or.inr ⟨hacks, Prod.Lex.toLex_lt_toLex.2 (Or.inl h)⟩)

theorem rank_lt_of_set {c c' : ConnState} (hacks : c.acks.length = c'.acks.length) (hflag : c.flagCon = c'.flagCon)
    (h : (c.acks.filter AckLst.flag).length < (c'.acks.filter AckLst.flag).length) : rank c < rank c' :=
  Prod.Lex.toLex_lt_toLex.2 (Or.inr ⟨hacks, Prod.Lex.toLex_lt_toLex.2
    (Or.inr ⟨congrArg phase hflag, Prod.Lex.toLex_lt_toLex.2 (Or.inl h)⟩)⟩)

theorem rank_lt_of_segs {c c' : ConnState} (hacks : c.acks = c'.acks) (hflag : c.flagCon = c'.flagCon)
    (h : c.segs.length < c'.segs.length ∨ c.segs.length = c'.segs.length ∧ c.segsAux.length < c'.segsAux.length) :
    rank c < rank c' := by
  have hset : (c.acks.filter AckLst.flag).length = (c'.acks.filter AckLst.flag).length := by rw [hacks]
  refine Prod.Lex.toLex_lt_toLex.2 (Or.inr ⟨congrArg List.length hacks, ?_⟩)
  refine Prod.Lex.toLex_lt_toLex.2 (Or.inr ⟨congrArg phase hflag, ?_⟩)
  refine Prod.Lex.toLex_lt_toLex.2 (Or.inr ⟨hset, ?_⟩)
  exact Prod.Lex.toLex_lt_toLex.2 h

/-- Data that is added is longer in `segs` or in `segs_aux`, unless it is not the next and waits in `segs_aux` already. -/
theorem conn_addDados (sp : ServicePoint) (pkt : Packet) (hlt : sp.seqNumR < maxSeqNum) :
    (pkt.segment.seqNum ≠ sp.seqNumR ∧ ∃ e ∈ sp.segsAux, e.segm.seqNum = pkt.segment.seqNum) ∧
        (sp.addDados pkt).conn = sp.conn ∨
      ¬(pkt.segment.seqNum ≠ sp.seqNumR ∧ ∃ e ∈ sp.segsAux, e.segm.seqNum = pkt.segment.seqNum) ∧
        rank sp.conn < rank (sp.addDados pkt).conn := by
  have hnext : nextSeqNum sp.seqNumR 0 = sp.seqNumR := by
    unfold nextSeqNum u32
    unfold maxSeqNum at hlt ⊢
    omega
  by_cases hseq : pkt.segment.seqNum = sp.seqNumR
  · refine Or.inr ⟨fun h => h.1 hseq, rank_lt_of_segs rfl rfl (Or.inl ?_)⟩
    simp only [ServicePoint.addDados, ServicePoint.conn, insertSeg, if_pos hseq, List.length_append, List.length_cons]
    exact Nat.lt_add_of_pos_right (Nat.succ_pos _)
  · by_cases hany : ∃ e ∈ sp.segsAux, e.segm.seqNum = pkt.segment.seqNum
    · refine Or.inl ⟨⟨hseq, hany⟩, ?_⟩
      have hany' : sp.segsAux.any (fun e => e.segm.seqNum = pkt.segment.seqNum) = true := by simpa using hany
      simp only [ServicePoint.addDados, ServicePoint.conn, insertSeg, if_neg hseq, insertSegLst, if_pos hany', hnext]
    · refine Or.inr ⟨fun h => hany h.2, rank_lt_of_segs rfl rfl (Or.inr ?_)⟩
      have hany' : ¬sp.segsAux.any (fun e => e.segm.seqNum = pkt.segment.seqNum) = true := by simpa using hany
      simp only [ServicePoint.addDados, ServicePoint.conn, insertSeg, if_neg hseq, insertSegLst, if_neg hany',
        List.length_append, List.length_singleton]
      exact ⟨trivial, Nat.lt_succ_self _⟩

/-- A point is left as it is when nothing is made of a packet, and otherwise taken further. -/
def Further (unheeded : Prop) (p p' : Endpoint) : Prop :=
  unheeded ∧ p'.sp.conn = p.sp.conn ∨ ¬unheeded ∧ rank p.sp.conn < rank p'.sp.conn

theorem further_recvDados (hlt : p.sp.seqNumR < maxSeqNum) (hm : p.sp.mutexCon ≠ true) (hf : p.sp.flagCon = .comConexao) :
    Further (UnheededAs p pkt.segment .dados) p (p.recvDados here pkt rnd).1 := by
  unfold Endpoint.recvDados
  cases hv : p.sp.verdict pkt.segment.seqNum with
  | descarta => exact Or.inl ⟨Or.inr (Or.inr (Or.inl (by simp [hv]))), rfl⟩
  | reenviaAck => exact Or.inl ⟨Or.inr (Or.inr (Or.inl (by simp [hv]))), rfl⟩
  | addDados =>
    rcases conn_addDados p.sp pkt hlt with ⟨hthere, hsame⟩ | ⟨hnew, hrank⟩
    · exact Or.inl ⟨Or.inr (Or.inr (Or.inr hthere)), hsame⟩
    · refine Or.inr ⟨?_, hrank⟩
      rintro (h | h | h | h)
      · exact hm h
      · exact h hf
      · exact h hv
      · exact hnew h

theorem further_syncThread (hm : p.sp.mutexCon ≠ true) :
    Further (UnheededAs p pkt.segment .sync) p (p.syncThread here pkt rnd) := by
  unfold Endpoint.syncThread
  by_cases hf : p.sp.flagCon = .semConexao
  · rw [if_pos hf]
    refine Or.inr ⟨fun h => h.elim hm fun h => h hf, rank_lt_of_acks ?_⟩
    simp [ServicePoint.conn, Endpoint.acceptSync, Endpoint.connected, Endpoint.spawn, insertAck]
  · rw [if_neg hf]
    exact Or.inl ⟨Or.inr hf, rfl⟩

theorem further_syncAckThread (hm : p.sp.mutexCon ≠ true) :
    Further (UnheededAs p pkt.segment .syncAck) p (p.syncAckThread here pkt).1 := by
  unfold Endpoint.syncAckThread
  by_cases hf : p.sp.flagCon = .estabelecendo
  · rw [if_pos hf]
    refine Or.inr ⟨fun h => h.elim hm fun h => h hf, rank_lt_of_phase (length_setAck _ _).symm ?_⟩
    simp [ServicePoint.conn, Endpoint.acceptSyncAck, Endpoint.connected, Endpoint.took, hf, phase]
  · rw [if_neg hf]
    exact Or.inl ⟨Or.inr hf, rfl⟩

theorem further_setAck :
    Further (UnheededAs p pkt.segment .ack) p { p with sp := { p.sp with acks := setAck p.sp.acks pkt.segment.ackNum } } := by
  cases hset : isSet p.sp.acks pkt.segment.ackNum with
  | true =>
    rw [setAck_of_isSet hset]
    exact Or.inl ⟨hset, rfl⟩
  | false =>
    refine Or.inr ⟨fun h => ?_, rank_lt_of_set (length_setAck _ _).symm rfl (filter_setAck_of_not_isSet hset)⟩
    exact Bool.false_ne_true (hset.symm.trans h)

theorem further_closeConnAux (hm : p.sp.mutexCon ≠ true) :
    Further (UnheededAs p pkt.segment .fin) p (p.closeConnAux here pkt).1 := by
  unfold Endpoint.closeConnAux
  cases hf : p.sp.flagCon with
  | semConexao => exact Or.inl ⟨Or.inr (Or.inl hf), rfl⟩
  | estabelecendo => exact Or.inl ⟨Or.inr (Or.inr hf), rfl⟩
  | comConexao =>
    refine Or.inr ⟨by simp [UnheededAs, hm, hf], rank_lt_of_acks ?_⟩
    simp [ServicePoint.conn, Endpoint.sendFin, Endpoint.spawn, Endpoint.took, insertAck]
  | encerrando =>
    refine Or.inr ⟨by simp [UnheededAs, hm, hf], rank_lt_of_phase rfl ?_⟩
    simp [ServicePoint.conn, hf, phase]

/-- A packet leaves the connection state if nothing is made of it, and otherwise takes it further. -/
theorem conn_receive (here : Addr) (hlt : p.sp.seqNumR < maxSeqNum) (pkt : Packet) (rnd : Nat) :
    Further (Unheeded p (pkt, rnd)) p (p.receive here (pkt, rnd)) := by
  cases hblocked : p.recvBlocked with
  | true =>
    rw [receive_blocked hblocked]
    exact Or.inl ⟨Or.inl hblocked, rfl⟩
  | false =>
    have hiff : Unheeded p (pkt, rnd) ↔ UnheededAs p pkt.segment pkt.segment.flags := by simp [Unheeded, hblocked]
    rw [hiff]
    cases hflags : pkt.segment.flags with
    | dados =>
      rw [receive_dados hblocked hflags]
      by_cases hm : p.sp.mutexCon = true
      · rw [if_pos hm]
        exact Or.inl ⟨Or.inl hm, rfl⟩
      · rw [if_neg hm]
        by_cases hf : p.sp.flagCon = .comConexao
        · rw [if_pos hf]
          exact further_recvDados hlt hm hf
        · rw [if_neg hf]
          exact Or.inl ⟨Or.inr (Or.inl hf), rfl⟩
    | sync =>
      rw [receive_sync hblocked hflags]
      by_cases hm : p.sp.mutexCon = true
      · rw [if_pos hm]
        exact Or.inl ⟨Or.inl hm, rfl⟩
      · rw [if_neg hm]
        exact further_syncThread hm
    | syncAck =>
      rw [receive_syncAck hblocked hflags]
      by_cases hm : p.sp.mutexCon = true
      · rw [if_pos hm]
        exact Or.inl ⟨Or.inl hm, rfl⟩
      · rw [if_neg hm]
        exact further_syncAckThread hm
    | ack =>
      rw [receive_ack hblocked hflags]
      exact further_setAck
    | fin =>
      rw [receive_fin hblocked hflags]
      by_cases hm : p.sp.mutexCon = true
      · rw [if_pos hm]
        exact Or.inl ⟨Or.inl hm, rfl⟩
      · rw [if_neg hm]
        exact further_closeConnAux hm

/-! ## The sequence number -/

/-- `seq_num_r` is a sequence number. -/
theorem seqNumR_step {p' : Endpoint} {act : PointAction} (hlt : p.sp.seqNumR < maxSeqNum) (hs : p.step here act = some p') :
    p'.sp.seqNumR < maxSeqNum := by
  have hnext (s n : Nat) : nextSeqNum s n < maxSeqNum := Nat.mod_lt _ (by decide)
  obtain ⟨⟨_, out⟩, hact, rfl⟩ := Option.map_eq_some_iff.1 hs
  cases act_does hact with
  | add => exact hnext _ _
  | acceptSync => exact hnext _ _
  | acceptSyncAck => exact hnext _ _
  | _ => exact hlt

theorem seqNumR_receive (here : Addr) (hlt : p.sp.seqNumR < maxSeqNum) (x : Packet × Nat) :
    (p.receive here x).sp.seqNumR < maxSeqNum := by
  unfold Endpoint.receive
  cases hr : p.recvThread here x.1 x.2 with
  | none => exact hlt
  | some r =>
    have hstep : p.step here (.recvThread x.1 x.2) = some r.1 := congrArg (Option.map Prod.fst) hr
    exact seqNumR_step hlt hstep

/-! ## Several packets -/

theorem rank_receiveAll (here : Addr) (hlt : p.sp.seqNumR < maxSeqNum) (l : List (Packet × Nat)) :
    rank p.sp.conn ≤ rank (p.receiveAll here l).sp.conn := by
  induction l generalizing p with
  | nil => exact le_refl _
  | cons x l ih =>
    have hrest := ih (seqNumR_receive here hlt x)
    rcases conn_receive here hlt x.1 x.2 with ⟨-, hsame⟩ | ⟨-, hrank⟩
    · rw [hsame] at hrest
      exact hrest
    · exact hrank.le.trans hrest

theorem conn_receiveAll (hlt : p.sp.seqNumR < maxSeqNum) (l : List (Packet × Nat)) :
    (p.receiveAll here l).sp.conn = p.sp.conn ↔ Along (fun p x => some (p.receive here x)) Unheeded p l := by
  induction l generalizing p with
  | nil => exact iff_of_true rfl trivial
  | cons x l ih =>
    have hlt' := seqNumR_receive here hlt x
    have hcons : p.receiveAll here (x :: l) = (p.receive here x).receiveAll here l := rfl
    rw [hcons]
    rcases conn_receive here hlt x.1 x.2 with ⟨hnothing, hsame⟩ | ⟨hsome, hrank⟩
    · rw [← hsame, ih hlt']
      constructor
      · intro h
        exact ⟨hnothing, fun p' hp' => Option.some.inj hp' ▸ h⟩
      · intro h
        exact h.2 _ rfl
    · refine iff_of_false ?_ fun h => hsome h.1
      intro heq
      have hle := rank_receiveAll here hlt' l
      rw [heq] at hle
      exact absurd hrank hle.not_gt

end IntruderAux

open IntruderAux in
/-- What a sequence of packets does to the connection state of a point is what the same packets do when they come from the other
end of its connection, but for the sources kept with the segments; and it is nothing exactly when nothing is made of each packet. -/
theorem source_unchecked {here : Addr} {p : Endpoint} (h : Reach (Endpoint.step here) anyStep allocServicePoint p)
    (l : List (Packet × Nat)) :
    (p.receiveAll here l).sp.conn.anonymous =
        (p.receiveAll here (l.map fun x => (x.1.setSource p.sp.peer, x.2))).sp.conn.anonymous ∧
      ((p.receiveAll here l).sp.conn = p.sp.conn ↔ Along (fun p x => some (p.receive here x)) Unheeded p l) := by
  have hlt : p.sp.seqNumR < maxSeqNum :=
    h.invariant (by decide) fun _ _ _ hlt _ hs => seqNumR_step hlt hs
  refine ⟨?_, conn_receiveAll hlt l⟩
  rw [conn_anonymous, conn_anonymous, bare_receiveAll rfl p.sp.peer l]

namespace IntruderAux

/-- A point connects to the one at node 2. -/
def connects : List PointAction := [.connectPoint 2 0 5 10, .recvThread SessionAux.syncAck 0]

/-- Data, and a FIN, from node 3. -/
def strayDados : Packet := SessionAux.packet 3 1 .dados 106 0 [7] 0

def strayFin : Packet := SessionAux.packet 3 1 .fin 0 0 [102] 0

end IntruderAux

open IntruderAux in
/-- The data of node 3 is taken as that of node 2 would be. -/
theorem stray_data_taken :
    ∃ p, exec (Endpoint.step ⟨1, 0⟩) allocServicePoint connects = some p ∧
      (p.receiveAll ⟨1, 0⟩ [(strayDados, 0)]).sp.conn.anonymous =
        (p.receiveAll ⟨1, 0⟩ [(strayDados.setSource p.sp.peer, 0)]).sp.conn.anonymous ∧
      (p.receiveAll ⟨1, 0⟩ [(strayDados, 0)]).sp.conn ≠ p.sp.conn := by
  obtain ⟨p, hp, hnew⟩ :
      ∃ p ∈ exec (Endpoint.step ⟨1, 0⟩) allocServicePoint connects, ¬Unheeded p (strayDados, 0) := by decide
  have hsource := source_unchecked (reach_anyStep_of_exec hp) [(strayDados, 0)]
  refine ⟨p, hp, hsource.1, fun h => hnew ?_⟩
  exact (hsource.2.1 h).1

open IntruderAux in
/-- A FIN of node 3 closes the connection to node 2. -/
theorem stray_fin_closes :
    ∃ p, Reach (Endpoint.step ⟨1, 0⟩) anyStep allocServicePoint p ∧ p.sp.flagCon = .comConexao ∧
      strayFin.source ≠ p.sp.peer ∧ (p.receiveAll ⟨1, 0⟩ [(strayFin, 0)]).sp.flagCon = .semConexao ∧
      (p.receiveAll ⟨1, 0⟩ [(strayFin, 0)]).sp.conn ≠ p.sp.conn := by
  obtain ⟨p, hp, hclosed⟩ :
      ∃ p ∈ exec (Endpoint.step ⟨1, 0⟩) allocServicePoint connects, p.sp.flagCon = .comConexao ∧
        strayFin.source ≠ p.sp.peer ∧ (p.receiveAll ⟨1, 0⟩ [(strayFin, 0)]).sp.flagCon = .semConexao ∧
        (p.receiveAll ⟨1, 0⟩ [(strayFin, 0)]).sp.conn ≠ p.sp.conn := by decide
  exact ⟨p, reach_anyStep_of_exec hp, hclosed⟩

end NetworkLayers
