import NetworkLayers.Transport.ServicePoint

/-!
# The threads of a service point (transport_layer.c)

`send_thread` cuts the send buffer into segments, a `seg_send_thread` sends one segment until its ACK has come, and `recv_thread`
handles what arrives. It handles one packet in one step: no `recv_point` takes a segment between its insertion and its ACK.
-/

namespace NetworkLayers

/-! ## send_thread -/

/-- `send_thread` takes the buffer: the sizes (the first time) and the length of the buffer. -/
def Endpoint.takeBuffer (p : Endpoint) : Endpoint :=
  let t := p.sendThread
  let first := if p.sp.windowSize < maxSegmentSize then p.sp.windowSize else maxSegmentSize
  { p with
    sp := { p.sp with mutexCons := true }
    sendThread := { t with
      pc := .segment, done := true
      segmentSize := if t.done then t.segmentSize else first
      segmentSendSize := if t.done then t.segmentSendSize else first
      sendPtr := 0, sendSize := p.sp.sendBuff.length } }

/-- The segment of the next bytes of the buffer, `seq_num_s` after it, and the entry for its ACK. -/
def Endpoint.sendData (here : Addr) (p : Endpoint) (size : Nat) : Endpoint :=
  let segment : Segment := { src := here.point, dest := p.sp.destSp, seqNum := p.sp.seqNumS, ackNum := 0, flags := .dados,
                             windowSize := p.sp.windowSize, data := (p.sp.sendBuff.drop p.sendThread.sendPtr).take size }
  let seqNumS := nextSeqNum p.sp.seqNumS size
  let sp := { p.sp with seqNumS := seqNumS, acks := insertAck p.sp.acks { seqNum := seqNumS, flag := false, size := size } }
  { p with sp := sp, history := { p.history with touched := true } }.spawn segment size

/-- The size of the segment after one: what is left of the window, `segment_size` at most. -/
def SendThread.nextSize (t : SendThread) (windowSize windowPtr : Nat) : Nat :=
  if windowSize < windowPtr + t.segmentSize then u16 (windowSize + 65536 - windowPtr) else t.segmentSize

/-- The size of the next segment: `segment_send_size`, or what is left of the buffer. -/
def SendThread.size (t : SendThread) : Nat := if t.sendSize < t.segmentSendSize then t.sendSize else t.segmentSendSize

/-- `send_thread` builds the next segment and moves the pointer of the window; at the end of the window it waits for ACKs. -/
def Endpoint.sendSegment (here : Addr) (p : Endpoint) : Endpoint :=
  let t := p.sendThread
  let windowPtr := (t.windowPtr + t.size) % p.sp.windowSize
  let t' := { t with sendPtr := t.sendPtr + t.size, sendSize := t.sendSize - t.size, windowPtr := windowPtr }
  { p.sendData here t.size with
    sendThread :=
      if windowPtr = 0 then { t' with pc := .window, segmentSendSize := t.size }
      else { t' with segmentSendSize := t.nextSize p.sp.windowSize windowPtr } }

/-- `send_thread` has cut the whole buffer: `mutex_prod` is freed. -/
def Endpoint.bufferSent (p : Endpoint) : Endpoint :=
  { p with sp := { p.sp with mutexProd := false }, sendThread := { p.sendThread with pc := .cons } }

/-- `send_thread` in the loop that waits for the window to move: one call of `in_seq`. -/
def Endpoint.sendThreadWindow (p : Endpoint) : Endpoint :=
  let t := p.sendThread
  let r := inSeq p.sp.acks
  let sizeMove := r.1
  { p with
    sp := { p.sp with acks := r.2 }
    sendThread :=
      if sizeMove = 0 then t
      else { t with
        pc := .segment, windowPtr := u16 (p.sp.windowSize + 65536 - u16 sizeMove),
        segmentSendSize := if t.segmentSize < sizeMove then t.segmentSize else u16 sizeMove } }

/-- A step of `send_thread`. With a window of no bytes, the remainder by `window_size` is the end of the program. -/
def Endpoint.sendThreadStep (here : Addr) (p : Endpoint) : Option Endpoint :=
  match p.sendThread.pc with
  | .cons => if p.sp.mutexCons then none else some p.takeBuffer
  | .segment =>
    if p.sendThread.sendSize = 0 then some p.bufferSent
    else if p.sp.windowSize = 0 then none
    else some (p.sendSegment here)
  | .window => some p.sendThreadWindow

/-! ## seg_send_thread -/

/-- The number `seg_send_thread` looks up: the sum as a `uint32_t`, with no modulus. -/
def SendSegment.lookup (pack : SendSegment) : Nat := u32 (pack.segment.seqNum + pack.size)

/-- What `seg_send_thread` hands to `net_send`, for the node the point has as its `dest` now. -/
def SendSegment.packet (here : Addr) (sp : ServicePoint) (pack : SendSegment) : Packet where
  src := here.node
  dest := sp.dest
  segment := pack.segment
  size := pack.size + transportHeaderSize
  epoch := pack.epoch
  answers := 0

/-- A step of the `i`-th `seg_send_thread`: it sends the segment the first time, and after each timeout again unless its ACK has
come. -/
def Endpoint.segSendThread (here : Addr) (p : Endpoint) (i : Nat) : Option (Endpoint × List Packet) :=
  match p.segSends[i]? with
  | none => none
  | some t =>
    if t.stopped then none
    else if !t.started then
      some ({ p with segSends := p.segSends.set i { t with started := true } }, [t.pack.packet here p.sp])
    else if isSet p.sp.acks t.pack.lookup then some ({ p with segSends := p.segSends.set i { t with stopped := true } }, [])
    else some (p, [t.pack.packet here p.sp])

/-! ## recv_thread -/

/-- The number of the ACK for a segment: the sum modulo `MAX_SEQ_NUM`, in 64 bits. -/
def Packet.ackNum (pkt : Packet) : Nat := (pkt.segment.seqNum + pkt.dataSize) % maxSeqNum

/-- The ACK `recv_thread` and `close_conn_aux` send for what arrived, to the other end of the point's connection. -/
def ServicePoint.ackPacket (here : Addr) (sp : ServicePoint) (pkt : Packet) : Packet where
  src := here.node
  dest := sp.dest
  segment := { src := here.point, dest := sp.destSp, seqNum := 0, ackNum := pkt.ackNum, flags := .ack,
               windowSize := sp.windowSize, data := [] }
  size := transportHeaderSize
  epoch := 0
  answers := pkt.segment.seqNum + pkt.dataSize

/-- What `recv_thread` does with data: drop it, only send its ACK again, or add it and send its ACK. -/
inductive Verdict where
  | descarta
  | reenviaAck
  | addDados
  deriving DecidableEq, Repr

/-- The comparisons of `recv_thread` with `prev_seq_num_r`, `seq_num_r` and `end_seq_num_r`. -/
def ServicePoint.verdict (sp : ServicePoint) (seqNum : Nat) : Verdict :=
  if sp.prevSeqNumR < sp.endSeqNumR then
    if sp.prevSeqNumR ≤ seqNum ∧ seqNum ≤ sp.endSeqNumR then
      if seqNum < sp.seqNumR then .reenviaAck else .addDados
    else .descarta
  else if seqNum < sp.prevSeqNumR ∧ sp.endSeqNumR < seqNum then .descarta
  else if sp.prevSeqNumR < sp.seqNumR then
    if seqNum < sp.seqNumR then .reenviaAck else .addDados
  else
    if sp.seqNumR ≤ seqNum then .addDados else .reenviaAck

/-- `recv_thread` adds the data and moves `seq_num_r` and its window. -/
def ServicePoint.addDados (sp : ServicePoint) (pkt : Packet) : ServicePoint :=
  let r := insertSeg sp.segs sp.segsAux pkt.segment pkt.dataSize sp.seqNumR
  let seqNumR := nextSeqNum sp.seqNumR r.2.2
  { sp with
    segs := r.1, segsAux := r.2.1, seqNumR := seqNumR,
    endSeqNumR := nextSeqNum seqNumR sp.windowSize,
    prevSeqNumR := (seqNumR + (maxSeqNum - sp.windowSize)) % maxSeqNum }

/-- `insert_seg_lst` frees a segment with this number: it is not the next one, and `segs_aux` has one with the number already. -/
def ServicePoint.Frees (sp : ServicePoint) (seqNum : Nat) : Prop := seqNum ≠ sp.seqNumR ∧ ∃ e ∈ sp.segsAux, e.segm.seqNum = seqNum

instance (sp : ServicePoint) (seqNum : Nat) : Decidable (sp.Frees seqNum) := inferInstanceAs (Decidable (_ ∧ ∃ e ∈ _, _))

/-- The ACK `recv_thread` sends for data it has added. It reads the number of the segment after `insert_seg`: of one that has been freed
it finds what is in the freed memory, `mem`, which can be any number. -/
def ServicePoint.dadosAck (here : Addr) (sp : ServicePoint) (pkt : Packet) (mem : Nat) : Packet :=
  if sp.Frees pkt.segment.seqNum then
    { sp.ackPacket here { pkt with segment := { pkt.segment with seqNum := u32 mem } } with freed := true }
  else sp.ackPacket here pkt

theorem ServicePoint.dadosAck_of_not_frees {sp : ServicePoint} {pkt : Packet} (h : ¬ sp.Frees pkt.segment.seqNum) (here : Addr)
    (mem : Nat) : sp.dadosAck here pkt mem = sp.ackPacket here pkt := if_neg h

theorem ServicePoint.dadosAck_freed {sp : ServicePoint} {pkt : Packet} (h : sp.Frees pkt.segment.seqNum) (here : Addr)
    (mem : Nat) : (sp.dadosAck here pkt mem).freed = true := by
  rw [ServicePoint.dadosAck, if_pos h]

@[simp] theorem ServicePoint.dadosAck_flags (here : Addr) (sp : ServicePoint) (pkt : Packet) (mem : Nat) :
    (sp.dadosAck here pkt mem).segment.flags = .ack := by
  unfold ServicePoint.dadosAck
  split <;> rfl

/-- It goes to the other end of the point's connection all the same. -/
theorem ServicePoint.dadosAck_addr (here : Addr) (sp : ServicePoint) (pkt : Packet) (mem : Nat) :
    (sp.dadosAck here pkt mem).src = here.node ∧ (sp.dadosAck here pkt mem).dest = sp.dest ∧
      (sp.dadosAck here pkt mem).segment.dest = sp.destSp := by
  unfold ServicePoint.dadosAck
  split <;> exact ⟨rfl, rfl, rfl⟩

/-- The point has taken the segment: it acts on it, other than to send an ACK again. -/
def Endpoint.took (p : Endpoint) (segment : Segment) : Endpoint :=
  { p with history := { p.history with taken := p.history.taken ++ [segment] } }

/-- `recv_thread` on data in a connection. -/
def Endpoint.recvDados (here : Addr) (p : Endpoint) (pkt : Packet) (mem : Nat) : Endpoint × List Packet :=
  match p.sp.verdict pkt.segment.seqNum with
  | .descarta => (p, [])
  | .reenviaAck => (p, [p.sp.ackPacket here pkt])
  | .addDados =>
    ({ p with sp := p.sp.addDados pkt, history := { p.history with touched := true } }.took pkt.segment,
      [p.sp.dadosAck here pkt mem])

/-- `sync_thread` in a point without a connection: it takes the SYN, sends SYN+ACK and is in flag_con 2. -/
def Endpoint.acceptSync (here : Addr) (p : Endpoint) (syn : Packet) (rnd : Nat) : Endpoint :=
  let w := syn.segment.windowSize
  let sq := nextSeqNum (rnd % maxSeqNum) w
  let sp := { p.sp with
    dest := syn.src, destSp := syn.segment.src, windowSize := w,
    seqNumR := nextSeqNum syn.segment.seqNum 1,
    prevSeqNumR := u32 (syn.segment.seqNum + (maxSeqNum - w) % maxSeqNum),
    endSeqNumR := nextSeqNum syn.segment.seqNum w,
    seqNumS := nextSeqNum sq 1,
    acks := insertAck p.sp.acks { seqNum := nextSeqNum sq 1, flag := false, size := 0 } }
  let segment : Segment := { src := here.point, dest := syn.segment.src, seqNum := sq, ackNum := sp.seqNumR, flags := .syncAck,
                             windowSize := w, data := [115] }
  { p with sp := sp }.connected.spawn segment 1

/-- `sync_thread`. -/
def Endpoint.syncThread (here : Addr) (p : Endpoint) (syn : Packet) (rnd : Nat) : Endpoint :=
  if p.sp.flagCon = .semConexao then p.acceptSync here syn rnd else p

/-- The ACK of `sync_ack_thread`. -/
def ServicePoint.syncAckPacket (here : Addr) (sp : ServicePoint) (syn : Packet) : Packet where
  src := here.node
  dest := sp.dest
  segment := { src := here.point, dest := syn.segment.src, seqNum := 0, ackNum := nextSeqNum syn.segment.seqNum 1, flags := .ack,
               windowSize := sp.windowSize, data := [] }
  size := transportHeaderSize
  epoch := 0
  answers := syn.segment.seqNum + 1

/-- `sync_ack_thread` in a point that is opening a connection: it takes any SYN+ACK and is in flag_con 2. -/
def Endpoint.acceptSyncAck (p : Endpoint) (syn : Packet) : Endpoint :=
  let w := syn.segment.windowSize
  let sp := { p.sp with
    acks := setAck p.sp.acks syn.segment.ackNum,
    seqNumR := nextSeqNum syn.segment.seqNum 1,
    prevSeqNumR := (syn.segment.seqNum + (maxSeqNum - w)) % maxSeqNum,
    endSeqNumR := nextSeqNum syn.segment.seqNum w }
  ({ p with sp := sp }.took syn.segment).connected

/-- `sync_ack_thread`. -/
def Endpoint.syncAckThread (here : Addr) (p : Endpoint) (syn : Packet) : Endpoint × List Packet :=
  if p.sp.flagCon = .estabelecendo then (p.acceptSyncAck syn, [p.sp.syncAckPacket here syn]) else (p, [])

/-- `close_conn_aux`: in a connection the ACK and the point's own FIN, while closing one the ACK, and flag_con 0 after both. -/
def Endpoint.closeConnAux (here : Addr) (p : Endpoint) (pkt : Packet) : Endpoint × List Packet :=
  match p.sp.flagCon with
  | .comConexao => ((p.took pkt.segment).sendFin here .semConexao, [p.sp.ackPacket here pkt])
  | .encerrando => ({ p.took pkt.segment with sp := { p.sp with flagCon := .semConexao } }, [p.sp.ackPacket here pkt])
  | .semConexao | .estabelecendo => (p, [])

/-- `recv_thread` on one packet. Data that finds the point outside a connection is dropped with `mutex_con` still locked; from
then on data and FINs block the thread, and the threads for SYN and SYN+ACK get no further. `rnd` is what the step finds that nobody
has chosen: for a SYN what `rand` returns, for data what the memory of a freed segment holds. -/
def Endpoint.recvThread (here : Addr) (p : Endpoint) (pkt : Packet) (rnd : Nat) : Option (Endpoint × List Packet) :=
  if p.recvBlocked then none
  else match pkt.segment.flags with
    | .dados =>
      if p.sp.mutexCon then some ({ p with recvBlocked := true }, [])
      else if p.sp.flagCon = .comConexao then some (p.recvDados here pkt rnd)
      else some ({ p with sp := { p.sp with mutexCon := true } }, [])
    | .sync => if p.sp.mutexCon then none else some (p.syncThread here pkt rnd, [])
    | .syncAck => if p.sp.mutexCon then none else some (p.syncAckThread here pkt)
    | .ack => some ({ p with sp := { p.sp with acks := setAck p.sp.acks pkt.segment.ackNum } }, [])
    | .fin =>
      if p.sp.mutexCon then some ({ p with recvBlocked := true }, [])
      else some (p.closeConnAux here pkt)

end NetworkLayers
