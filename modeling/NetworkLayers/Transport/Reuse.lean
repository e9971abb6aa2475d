import NetworkLayers.Transport.Point

/-!
# A service point used again

A service point that opens one connection after another without `dalloc_service_point` between them: what of the last connection
`connect_point` and `sync_thread` find there, and what of it is to be gone. The lists are those of the service point, `window_ptr`,
`segment_send_size` and `done` are variables of the one `send_thread`, and a `seg_send_thread` outlives the connection it was made in.
-/

namespace NetworkLayers

/-- A service point over its connections: how many it has opened, how many segments it had built and had taken before it opened the
last one, and the `seg_send_thread`s that have sent something since. -/
structure Reuse where
  point : Endpoint
  opened : Nat
  builtBefore : Nat
  takenBefore : Nat
  senders : List Nat
  deriving DecidableEq, Repr

/-- A header has 16 bits for `window_size`. -/
def PointAction.Fits : PointAction → Prop
  | .recvThread pkt _ => pkt.segment.windowSize < 65536
  | _ => True

instance : ∀ act, Decidable (PointAction.Fits act)
  | .recvThread pkt _ => inferInstanceAs (Decidable (pkt.segment.windowSize < 65536))
  | .connectPoint .. | .closeConn | .sendPoint _ | .sendPut _ | .recvPoint _ | .sendThread | .segSendThread _ =>
    inferInstanceAs (Decidable True)

/-- The `seg_send_thread` that has sent something. -/
def PointAction.sender : PointAction → List Packet → List Nat
  | .segSendThread i, _ :: _ => [i]
  | _, _ => []

/-- A step of the service point. It opens a connection when it leaves flag_con 0. -/
def Reuse.step (here : Addr) (s : Reuse) (act : PointAction) : Option Reuse :=
  if act.Fits then
    (s.point.act here act).map fun r =>
      if s.point.sp.flagCon = .semConexao ∧ r.1.sp.flagCon ≠ .semConexao then
        { point := r.1, opened := s.opened + 1, builtBefore := s.point.segSends.length,
          takenBefore := s.point.history.taken.length, senders := [] }
      else { s with point := r.1, senders := s.senders ++ act.sender r.2 }
  else none

/-- The service point at `alloc_service_point`. -/
def Reuse.start : Reuse := { point := allocServicePoint, opened := 0, builtBefore := 0, takenBefore := 0, senders := [] }

/-! ## What is to be of the new connection -/

/-- The segments the point has built since it opened the connection. -/
def Reuse.built (s : Reuse) : List SendSegment := (s.point.segSends.drop s.builtBefore).map (·.pack)

/-- The segments it has taken since then. -/
def Reuse.taken (s : Reuse) : List Segment := s.point.history.taken.drop s.takenBefore

/-- What an entry of `acks` says but for its flag. -/
def AckLst.entry (a : AckLst) : Nat × Nat := (a.seqNum, a.size)

/-- The entry of a segment: SYN and SYN+ACK stand for no bytes. -/
def SendSegment.entry (k : SendSegment) : Nat × Nat :=
  (nextSeqNum k.segment.seqNum k.size, if k.segment.flags = .sync ∨ k.segment.flags = .syncAck then 0 else k.size)

/-- An entry of `segs` or `segs_aux` holds a segment, or what `recv_seg` has left of it. -/
def SegLst.RestOf (e : SegLst) (m : Segment) : Prop := e.segm.seqNum = m.seqNum ∧ e.segm.data <:+ m.data

/-- The bytes the entries of `acks` stand for: those that `in_seq` has not yet taken. -/
def ServicePoint.inFlight (sp : ServicePoint) : Nat := (sp.acks.map (·.size)).sum

/-- Nothing in the point is of a connection before the last one: the entries of `acks` are those of the last segments it has built,
`segs` and `segs_aux` hold data it has taken, the data segments and the bytes in flight fit in the window, and what has been sent was
built in this connection. -/
structure Reuse.FreshConnection (s : Reuse) : Prop where
  acks : s.point.sp.acks.map AckLst.entry <:+ s.built.map SendSegment.entry
  segs : ∀ e ∈ s.point.sp.segs ++ s.point.sp.segsAux, ∃ m ∈ s.taken, m.flags = .dados ∧ e.RestOf m
  sizes : ∀ k ∈ s.built, k.segment.flags = .dados → k.size ≤ min s.point.sp.windowSize maxSegmentSize
  flight : s.point.sp.inFlight ≤ s.point.sp.windowSize
  senders : ∀ i ∈ s.senders, s.builtBefore ≤ i

/-! ## The condition on a run -/

/-- The next segment of `send_thread` fits in the window, where `window_ptr` has it start. -/
def SendThread.FitsWindow (t : SendThread) (windowSize : Nat) : Prop :=
  t.segmentSendSize ≤ min windowSize maxSegmentSize ∧ t.windowPtr % windowSize + t.segmentSendSize ≤ windowSize

instance (t : SendThread) (windowSize : Nat) : Decidable (t.FitsWindow windowSize) := inferInstanceAs (Decidable (_ ∧ _))

/-- The point holds nothing that a connection with this window would find: its lists are empty, and `send_thread`, if it has sent
before and is not held up by the old window, goes on with a segment that fits in the new one. -/
def Endpoint.ReadyFor (p : Endpoint) (windowSize : Nat) : Prop :=
  p.sp.acks = [] ∧ p.sp.segs = [] ∧ p.sp.segsAux = [] ∧
    (p.sendThread.done = true → p.sendThread.pc ≠ .window → windowSize ≠ 0 → p.sendThread.FitsWindow windowSize)

instance (p : Endpoint) (windowSize : Nat) : Decidable (p.ReadyFor windowSize) :=
  inferInstanceAs (Decidable (_ ∧ _ ∧ _ ∧ (_ → _ → _ → _)))

/-- The bytes that `send_point` has accepted or will, and `send_thread` has not yet put into segments. -/
def Endpoint.toSend (p : Endpoint) : Nat :=
  p.sendThread.sendSize + (if p.sp.mutexCons then 0 else p.sp.sendBuff.length) + (p.waiting.map List.length).sum

/-- What is in flight, what is still to be sent and the byte of a FIN fit in the window. -/
def Endpoint.RoomForFin (p : Endpoint) : Prop := p.sp.inFlight + p.toSend + 1 ≤ p.sp.windowSize

instance (p : Endpoint) : Decidable p.RoomForFin := inferInstanceAs (Decidable (_ ≤ _))

/-- The `i`-th `seg_send_thread` has sent its segment once and finds no ACK to wait for. -/
def Endpoint.Finished (p : Endpoint) (i : Nat) : Prop :=
  ∀ t ∈ p.segSends[i]?, t.started = true ∧ isSet p.sp.acks t.pack.lookup = true

instance (p : Endpoint) (i : Nat) : Decidable (p.Finished i) := inferInstanceAs (Decidable (∀ t ∈ p.segSends[i]?, _))

/-- The condition on a step: a further connection is opened in a point that is ready for it and closed with room for the FIN, and
a thread of an earlier one has nothing more to send. -/
def CleanReuse (s : Reuse) : PointAction → Prop
  | .connectPoint _ _ windowSize _ => s.opened ≠ 0 → s.point.sp.flagCon = .semConexao → s.point.ReadyFor (u16 windowSize)
  | .closeConn => 2 ≤ s.opened → s.point.sp.flagCon = .comConexao → s.point.RoomForFin
  | .segSendThread i => 2 ≤ s.opened → i < s.builtBefore → s.point.Finished i
  | .recvThread pkt _ =>
    (pkt.segment.flags = .sync → s.opened ≠ 0 → s.point.sp.flagCon = .semConexao → s.point.ReadyFor pkt.segment.windowSize) ∧
      (pkt.segment.flags = .fin → 2 ≤ s.opened → s.point.sp.flagCon = .comConexao → s.point.RoomForFin)
  | _ => True

instance (s : Reuse) : ∀ act, Decidable (CleanReuse s act)
  | .connectPoint _ _ windowSize _ => inferInstanceAs (Decidable (_ → _ → s.point.ReadyFor (u16 windowSize)))
  | .closeConn => inferInstanceAs (Decidable (_ → _ → s.point.RoomForFin))
  | .segSendThread i => inferInstanceAs (Decidable (_ → i < s.builtBefore → s.point.Finished i))
  | .recvThread pkt _ =>
    inferInstanceAs (Decidable ((pkt.segment.flags = .sync → _ → _ → s.point.ReadyFor pkt.segment.windowSize) ∧
      (pkt.segment.flags = .fin → _ → _ → s.point.RoomForFin)))
  | .sendPoint _ | .sendPut _ | .recvPoint _ | .sendThread => inferInstanceAs (Decidable True)

end NetworkLayers
