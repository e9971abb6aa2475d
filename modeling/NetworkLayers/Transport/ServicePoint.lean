import NetworkLayers.Transport.Lists

/-!
# Service points (transport_layer.c)

A service point with the threads that work for it, and the calls of the application: `connect_point`, `close_conn`, `send_point`
and `recv_point`. A critical section is one step; where a thread lets go of its mutexes in between, so does the model. What a
section does to the point is given with the packets it hands to `net_send`. `none` is a thread that waits for a mutex.
-/

namespace NetworkLayers

/-- `flag_con`: no connection, opening one, in one, closing it. -/
inductive FlagCon where
  | semConexao
  | estabelecendo
  | comConexao
  | encerrando
  deriving DecidableEq, Repr

/-- A service point's place: the node and the slot in its table of service points. -/
structure Addr where
  node : Nat
  point : Nat
  deriving DecidableEq, Repr

/-- `servicepoint_t`. A mutex is `true` when it is locked; `mutex_cons` and `mutex_prod` pass the send buffer to `send_thread` and
back. The other mutexes are free between any two steps. -/
structure ServicePoint where
  dest : Nat
  destSp : Nat
  windowSize : Nat
  flagCon : FlagCon
  mutexCon : Bool
  seqNumS : Nat
  seqNumR : Nat
  prevSeqNumR : Nat
  endSeqNumR : Nat
  acks : List AckLst
  segs : List SegLst
  segsAux : List SegLst
  sendBuff : List Byte
  mutexProd : Bool
  mutexCons : Bool
  deriving DecidableEq, Repr

/-- Where `send_thread` is: waiting for a buffer, in the loop over the buffer, in the loop that waits for the window to move. -/
inductive SendPc where
  | cons
  | segment
  | window
  deriving DecidableEq, Repr

/-- The variables of `send_thread`. -/
structure SendThread where
  pc : SendPc
  done : Bool
  windowPtr : Nat
  segmentSize : Nat
  segmentSendSize : Nat
  sendPtr : Nat
  sendSize : Nat
  deriving DecidableEq, Repr

/-- `send_segment_t`: a segment the point has built, with the size of its data. `epoch` is the point's epoch at that time. -/
structure SendSegment where
  segment : Segment
  size : Nat
  epoch : Nat
  deriving DecidableEq, Repr

/-- A `seg_send_thread`: its pack, whether it has sent it once, and whether it found the ACK and left its loop. -/
structure SegSend where
  pack : SendSegment
  started : Bool
  stopped : Bool
  deriving DecidableEq, Repr

/-- What properties speak about and the code does not store: how many connections the point has entered, whether it has sent or
accepted data in the last one, the segments it has taken, what `send_point` accepted and `recv_point` returned, and what had been
accepted when `close_conn` closed the connection. -/
structure History where
  epoch : Nat
  touched : Bool
  taken : List Segment
  accepted : List Byte
  returned : List Byte
  closing : Option (List Byte)
  deriving DecidableEq, Repr

/-- A service point, its `send_thread`, the `seg_send_thread` of every segment it has sent, the `send_point` calls that wait for
`mutex_prod`, and whether its `recv_thread` waits for a `mutex_con` that nobody will free. -/
structure Endpoint where
  sp : ServicePoint
  sendThread : SendThread
  segSends : List SegSend
  waiting : List (List Byte)
  recvBlocked : Bool
  history : History
  deriving DecidableEq, Repr

/-- A datagram of the transport layer: the nodes it goes between, the segment and the size with the header. Of the segment it
carries, `epoch` is the one it was built in, and of an ACK, `answers` is the sum it was computed from, before the modulus, and `freed`
whether the number in that sum was read from a segment that had been freed. -/
structure Packet where
  src : Nat
  dest : Nat
  segment : Segment
  size : Nat
  epoch : Nat
  answers : Nat
  freed : Bool := false
  deriving DecidableEq, Repr

/-- The size of the data of a packet. -/
def Packet.dataSize (pkt : Packet) : Nat := pkt.size - transportHeaderSize

/-- The service point at `alloc_service_point`, with its threads at their start. -/
def allocServicePoint : Endpoint where
  sp := { dest := 0, destSp := 0, windowSize := 0, flagCon := .semConexao, mutexCon := false, seqNumS := 0, seqNumR := 0,
          prevSeqNumR := 0, endSeqNumR := 0, acks := [], segs := [], segsAux := [], sendBuff := [], mutexProd := false,
          mutexCons := true }
  sendThread := { pc := .cons, done := false, windowPtr := 0, segmentSize := 0, segmentSendSize := 0, sendPtr := 0, sendSize := 0 }
  segSends := []
  waiting := []
  recvBlocked := false
  history := { epoch := 0, touched := false, taken := [], accepted := [], returned := [], closing := none }

/-- The sequence number after `n` bytes: the sum as a `uint32_t`, modulo `MAX_SEQ_NUM`. -/
def nextSeqNum (seqNum n : Nat) : Nat := u32 (seqNum + n) % maxSeqNum

/-- A thread for a segment the point has built: `pthread_create` of `seg_send_thread`. -/
def Endpoint.spawn (p : Endpoint) (segment : Segment) (size : Nat) : Endpoint :=
  let pack : SendSegment := { segment := segment, size := size, epoch := p.history.epoch }
  { p with segSends := p.segSends ++ [{ pack := pack, started := false, stopped := false }] }

/-- The step of a point into flag_con 2. -/
def Endpoint.connected (p : Endpoint) : Endpoint :=
  { p with sp := { p.sp with flagCon := .comConexao }, history := { p.history with epoch := p.history.epoch + 1, touched := false } }

/-- The connection `connect_point` opens: the SYN, the entry for its ACK, and flag_con 1. `rnd` is what `rand` returned. -/
def Endpoint.sendSync (here : Addr) (p : Endpoint) (dest destPoint windowSize rnd : Nat) : Endpoint :=
  let numSeq := u64 (rnd % maxSeqNum + windowSize) % maxSeqNum
  let segment : Segment := { src := here.point, dest := destPoint, seqNum := numSeq, ackNum := 0, flags := .sync,
                             windowSize := u16 windowSize, data := [115] }
  let sp := { p.sp with
    dest := dest, destSp := destPoint, windowSize := u16 windowSize, seqNumS := nextSeqNum numSeq 1,
    acks := insertAck p.sp.acks { seqNum := nextSeqNum numSeq 1, flag := false, size := 0 },
    flagCon := .estabelecendo }
  { p with sp := sp }.spawn segment 1

/-- `connect_point`. -/
def Endpoint.connectPoint (here : Addr) (p : Endpoint) (dest destPoint windowSize rnd : Nat) : Option Endpoint :=
  if p.sp.mutexCon then none
  else if p.sp.flagCon = .semConexao then some (p.sendSync here dest destPoint windowSize rnd)
  else some p

/-- The FIN of `close_conn` and `close_conn_aux` with the entry for its ACK, and the flag_con after it. -/
def Endpoint.sendFin (here : Addr) (p : Endpoint) (flagCon : FlagCon) : Endpoint :=
  let segment : Segment := { src := here.point, dest := p.sp.destSp, seqNum := p.sp.seqNumS, ackNum := 0, flags := .fin,
                             windowSize := p.sp.windowSize, data := [102] }
  let seqNumS := nextSeqNum p.sp.seqNumS 1
  let sp := { p.sp with
    seqNumS := seqNumS, acks := insertAck p.sp.acks { seqNum := seqNumS, flag := false, size := 1 }, flagCon := flagCon }
  { p with sp := sp }.spawn segment 1

/-- `close_conn`: in a connection, the FIN and flag_con 3. -/
def Endpoint.closeConn (here : Addr) (p : Endpoint) : Option Endpoint :=
  if p.sp.mutexCon then none
  else if p.sp.flagCon = .comConexao then
    some ({ p with history := { p.history with closing := some p.history.accepted } }.sendFin here .encerrando)
  else some p

/-- The most bytes `send_point` takes: 32768 less the header. -/
def maxSendSize : Nat := 32768 - transportHeaderSize

/-- `send_point` up to `mutex_prod`: in a connection, the copy of the buffer. -/
def Endpoint.sendPoint (p : Endpoint) (buffer : List Byte) : Option Endpoint :=
  if p.sp.mutexCon then none
  else if p.sp.flagCon = .comConexao then some { p with waiting := p.waiting ++ [buffer.take maxSendSize] }
  else some p

/-- The `i`-th call of `send_point` that waits puts its copy where `send_thread` takes it. -/
def Endpoint.deposit (p : Endpoint) (i : Nat) (buf : List Byte) : Endpoint :=
  { p with
    sp := { p.sp with mutexProd := true, sendBuff := buf, mutexCons := false }
    waiting := p.waiting.eraseIdx i
    history := { p.history with accepted := p.history.accepted ++ buf } }

/-- `send_point` from `mutex_prod` on. -/
def Endpoint.sendPut (p : Endpoint) (i : Nat) : Option Endpoint :=
  match p.waiting[i]? with
  | none => none
  | some buf => if p.sp.mutexProd then none else some (p.deposit i buf)

/-- `recv_point`. -/
def Endpoint.recvPoint (p : Endpoint) (size : Nat) : Endpoint :=
  let r := recvSeg p.sp.segs size
  { p with sp := { p.sp with segs := r.1 }, history := { p.history with returned := p.history.returned ++ r.2 } }

end NetworkLayers
