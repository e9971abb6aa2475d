import NetworkLayers.Transport.Point

/-!
# The mutexes of a service point

The `pthread_mutex_lock` and `pthread_mutex_unlock` of the calls and threads of a service point, in the order the source makes them,
branch by branch. Left out are the mutexes that hand a buffer from one thread to another: `mutex_prod` and `mutex_cons`,
`mutex_pack_prod` and `mutex_pack_cons`.
-/

namespace NetworkLayers

open Transition

/-- The mutexes that guard the fields of a service point. -/
inductive Mutex where
  | con
  | s
  | r
  | seg
  | ack
  deriving DecidableEq, Repr

/-- `pthread_mutex_lock` and `pthread_mutex_unlock`. -/
inductive LockOp where
  | lock (m : Mutex)
  | unlock (m : Mutex)
  deriving DecidableEq, Repr

/-- The mutexes that are locked after an operation. None of them is recursive: a thread waits for a mutex that is locked, itself
having locked it or not. -/
def LockOp.run (held : List Mutex) : LockOp → Option (List Mutex)
  | .lock m => if m ∈ held then none else some (m :: held)
  | .unlock m => some (held.erase m)

/-- `connect_point`. -/
def ServicePoint.connectPointLocks (sp : ServicePoint) : List LockOp :=
  if sp.flagCon = .semConexao then [.lock .con, .lock .ack, .unlock .ack, .unlock .con] else [.lock .con, .unlock .con]

/-- The number and the entry of a segment: `mutex_ack` inside `mutex_s`. -/
def seqNumLocks : List LockOp := [.lock .s, .lock .ack, .unlock .ack, .unlock .s]

/-- `close_conn`. -/
def ServicePoint.closeConnLocks (sp : ServicePoint) : List LockOp :=
  if sp.flagCon = .comConexao then .lock .con :: seqNumLocks ++ [.unlock .con] else [.lock .con, .unlock .con]

/-- `send_point`, which lets go of `mutex_con` before it waits for `mutex_prod`. -/
def sendPointLocks : List LockOp := [.lock .con, .unlock .con]

/-- `recv_point`. -/
def recvPointLocks : List LockOp := [.lock .seg, .unlock .seg]

/-- `send_thread`, one step of it. -/
def SendThread.locks (t : SendThread) : List LockOp :=
  match t.pc with
  | .cons => []
  | .segment => if t.sendSize = 0 then [] else seqNumLocks
  | .window => [.lock .ack, .unlock .ack]

/-- `seg_send_thread`, which looks for its ACK after a timeout, not before it sends the first time. -/
def SegSend.locks (t : SegSend) : List LockOp := if t.started then [.lock .ack, .unlock .ack] else []

/-- `recv_thread` adds data: `mutex_seg` inside `mutex_r`, which is locked when it gets here. -/
def addDadosLocks : List LockOp := [.lock .seg, .unlock .seg, .unlock .r]

/-- `recv_thread` on data in a connection, from where `mutex_r` is locked: each branch of the comparisons unlocks it. -/
def ServicePoint.dadosLocks (sp : ServicePoint) (seqNum : Nat) : List LockOp :=
  if sp.prevSeqNumR < sp.endSeqNumR then
    if sp.prevSeqNumR ≤ seqNum ∧ seqNum ≤ sp.endSeqNumR then
      if seqNum < sp.seqNumR then [.unlock .r] else addDadosLocks
    else [.unlock .r]
  else if seqNum < sp.prevSeqNumR ∧ sp.endSeqNumR < seqNum then [.unlock .r]
  else if sp.prevSeqNumR < sp.seqNumR then
    if seqNum < sp.seqNumR then [.unlock .r] else addDadosLocks
  else
    if sp.seqNumR ≤ seqNum then addDadosLocks else [.unlock .r]

/-- `sync_thread`. -/
def ServicePoint.syncThreadLocks (sp : ServicePoint) : List LockOp :=
  if sp.flagCon = .semConexao then
    [.lock .con, .lock .ack, .unlock .ack, .lock .s, .unlock .s, .unlock .con]
  else [.lock .con, .unlock .con]

/-- `sync_ack_thread`, which sets the ACK without `mutex_ack`. -/
def syncAckThreadLocks : List LockOp := [.lock .con, .unlock .con]

/-- `close_conn_aux`. -/
def ServicePoint.closeConnAuxLocks (sp : ServicePoint) : List LockOp :=
  if sp.flagCon = .comConexao then seqNumLocks else []

/-- `recv_thread` on one segment, with the thread it starts for a SYN or a SYN+ACK. Data outside a connection leaves the `switch`
by a `break` with `mutex_con` locked. -/
def ServicePoint.recvThreadLocks (sp : ServicePoint) (segment : Segment) : List LockOp :=
  match segment.flags with
  | .dados =>
    if sp.flagCon = .comConexao then [.lock .con, .unlock .con, .lock .r] ++ sp.dadosLocks segment.seqNum
    else [.lock .con]
  | .sync => sp.syncThreadLocks
  | .syncAck => syncAckThreadLocks
  | .ack => [.lock .ack, .unlock .ack]
  | .fin => .lock .con :: sp.closeConnAuxLocks ++ [.unlock .con]

/-- The operations of an action. -/
def Endpoint.locks (p : Endpoint) : PointAction → List LockOp
  | .connectPoint .. => p.sp.connectPointLocks
  | .closeConn => p.sp.closeConnLocks
  | .sendPoint _ => sendPointLocks
  | .sendPut _ => []
  | .recvPoint _ => recvPointLocks
  | .sendThread => p.sendThread.locks
  | .segSendThread i => (p.segSends[i]?.map SegSend.locks).getD []
  | .recvThread pkt _ => p.sp.recvThreadLocks pkt.segment

/-- A service point and the mutexes that are locked between its steps. -/
structure LockedPoint where
  point : Endpoint
  held : List Mutex
  deriving DecidableEq, Repr

/-- An action that gets all the mutexes it asks for. -/
def LockedPoint.step (here : Addr) (s : LockedPoint) (act : PointAction) : Option LockedPoint :=
  (exec LockOp.run s.held (s.point.locks act)).bind fun held =>
    (s.point.step here act).map fun p => { point := p, held := held }

/-- The service point at `alloc_service_point`, with all of them free. -/
def LockedPoint.start : LockedPoint := { point := allocServicePoint, held := [] }

end NetworkLayers
