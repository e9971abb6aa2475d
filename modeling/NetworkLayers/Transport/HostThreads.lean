import NetworkLayers.Transport.Locks
import NetworkLayers.Transport.Node
import NetworkLayers.Net.SendQueue
import NetworkLayers.Lib.Workers
import Mathlib.Data.Fintype.Sigma
import Mathlib.Data.Fintype.Sum
import Mathlib.Tactic.DeriveFintype

/-!
# The threads of a host and what they wait for

All threads of a host and the calls of its application, as the operations on mutexes and semaphores that they make, in the order the
source makes them: the mutexes of the service points, `route_table_mutex` and `prod_insert`, the semaphores of the send queue and the
two mutexes of each slot a message is handed over in. A call stands for one from its beginning to where it returns; a
`seg_send_thread` is one for each time it sends, and the loop of `internalsendroute` one for each route it tells.
-/

namespace NetworkLayers

open Workers

instance Mutex.fintype : Fintype Mutex := ⟨{.con, .s, .r, .seg, .ack}, fun m => by cases m <;> decide⟩

/-- What the threads wait for. -/
inductive Resource where
  /-- `recv_frame`: `link_recv_mutex` and `net_recv_mutex` -/
  | recvFrame
  /-- `recv_datagram`: `net2_recv_mutex` and `transp_recv_mutex` -/
  | recvDatagram
  /-- `wait_buff` of a service point: `mutex_pack_prod` and `mutex_pack_cons` -/
  | waitBuff (slot : Slot)
  /-- `send_buff` of a service point: `mutex_prod` and `mutex_cons` -/
  | sendBuff (slot : Slot)
  /-- a mutex of a service point -/
  | mutex (slot : Slot) (m : Mutex)
  /-- `route_table_mutex` -/
  | routeTable
  /-- `wait_list`: `g_sem_prod` and `g_sem_cons` -/
  | waitList
  /-- `prod_insert` -/
  | prodInsert
  /-- `send_frame`: `intersend_mutex` and `send_mutex` of the link layer -/
  | sendFrame
  deriving DecidableEq, Repr, Fintype

/-- The threads of a host: the loops of the layers and of the service points, and places for `n` calls at once, by the
application or by threads that are started for one purpose. -/
inductive HostThread (n : Nat) where
  | linkRecv
  | linkSend
  | netRecv
  | netSend
  | transpRecv
  | recvThread (slot : Slot)
  | sendThread (slot : Slot)
  | call (i : Fin n)
  deriving DecidableEq, Repr, Fintype

/-- An operation on a mutex or a semaphore. -/
abbrev HostOp := Op Resource

/-- A mutex of a service point is locked or unlocked. -/
def LockOp.hostOp (slot : Slot) : LockOp → HostOp
  | .lock m => .take (.mutex slot m)
  | .unlock m => .give (.mutex slot m)

/-- The mutexes of a service point in the order a call locks and unlocks them. -/
def lockOps (slot : Slot) (ops : List LockOp) : List HostOp := ops.map (LockOp.hostOp slot)

/-! ## net_layer.c -/

/-- `internalhandleroute`, `enable_route`, `disable_route`, `dislpay_routes`, and what `internalsendroute` does before its loop. -/
def routeTableOps : List HostOp := [.take .routeTable, .give .routeTable]

/-- `hostreachable`, which looks at the destination before it locks the table. -/
def hostreachableOps (dest : Nat) : List HostOp := if dest = 0 ∨ maxHosts ≤ dest - 1 then [] else routeTableOps

/-- `wait_list_insert`. -/
def waitListInsertOps : List HostOp := [.take .waitList, .take .prodInsert, .give .prodInsert, .post .waitList]

/-- `net_send` and `net_resend` from where they have the node to send to; none is 0. -/
def insertForOps (node : Nat) : List HostOp := if node ≠ 0 then waitListInsertOps else []

/-- `net_send`; `node` is what `hostreachable` has returned. -/
def netSendOps (dest protocol node : Nat) : List HostOp :=
  if protocol = 0 then insertForOps dest else hostreachableOps dest ++ insertForOps node

/-- `net_resend`. -/
def netResendOps (dest node : Nat) : List HostOp := hostreachableOps dest ++ insertForOps node

/-- `internalsendroute` about one host to one neighbour: it tells a route whose cost is not 0. -/
def sendRouteOps (neighbour cost : Nat) : List HostOp :=
  routeTableOps ++ if cost ≠ 0 then netSendOps neighbour 0 0 else []

/-- What `internalrecv` of the network layer makes of a datagram: nothing (it is dropped, a fragment, or a route for a thread), it is
sent on, or it goes to the transport layer. -/
inductive NetPass where
  | nothing
  | resend (dest node : Nat)
  | transport
  deriving DecidableEq, Repr

/-- `internalrecv` of the network layer, from where `net_recv_mutex` is locked. -/
def netRecvOps : NetPass → List HostOp
  | .nothing => [.give .recvFrame]
  | .resend dest node => .give .recvFrame :: netResendOps dest node
  | .transport => [.give .recvFrame, .take .recvDatagram, .post .recvDatagram]

/-! ## link.c -/

/-- `link_send`, which returns before it locks anything for a host that is no neighbour and data beyond the MTU. -/
def linkSendOps (accepted : Bool) : List HostOp := if accepted then [.take .sendFrame, .post .sendFrame] else []

/-- `internalsend` of the network layer, from where an item is taken from the queue: a `link_send` for each datagram of it. -/
def netInternalsendOps (accepted : List Bool) : List HostOp := .give .waitList :: accepted.flatMap linkSendOps

/-- `internalsend` of the link layer, from where `send_mutex` is locked. -/
def linkInternalsendOps : List HostOp := [.give .sendFrame]

/-- `internalrecv` of the link layer, from where a frame with a right checksum has come to where it waits for the next one, with
`link_recv_mutex` locked. -/
def linkInternalrecvOps : List HostOp := [.post .recvFrame, .take .recvFrame]

/-! ## transport_layer.c -/

/-- `internalrecv` of the transport layer, from where `transp_recv_mutex` is locked, with the slot the segment goes to, if to any. -/
def transpInternalrecvOps : Option Slot → List HostOp
  | none => [.give .recvDatagram]
  | some slot => [.give .recvDatagram, .take (.waitBuff slot), .post (.waitBuff slot)]

/-- The branches of `recv_thread` for data that send an ACK. -/
def ServicePoint.AcksDados (sp : ServicePoint) (seqNum : Nat) : Prop :=
  if sp.prevSeqNumR < sp.endSeqNumR then sp.prevSeqNumR ≤ seqNum ∧ seqNum ≤ sp.endSeqNumR
  else ¬(seqNum < sp.prevSeqNumR ∧ sp.endSeqNumR < seqNum)

instance (sp : ServicePoint) (seqNum : Nat) : Decidable (sp.AcksDados seqNum) := by
  unfold ServicePoint.AcksDados
  infer_instance

/-- `close_conn_aux`, which sends the ACK with `mutex_con` locked. -/
def ServicePoint.closeConnAuxOps (sp : ServicePoint) (slot : Slot) (node : Nat) : List HostOp :=
  match sp.flagCon with
  | .comConexao => netSendOps sp.dest 1 node ++ lockOps slot seqNumLocks
  | .encerrando => netSendOps sp.dest 1 node
  | .semConexao | .estabelecendo => []

/-- The `switch` of `recv_thread`. A SYN or a SYN+ACK gets a thread. -/
def ServicePoint.switchOps (sp : ServicePoint) (slot : Slot) (segment : Segment) (node : Nat) : List HostOp :=
  match segment.flags with
  | .dados =>
    if sp.flagCon = .comConexao then
      lockOps slot ([.lock .con, .unlock .con, .lock .r] ++ sp.dadosLocks segment.seqNum) ++
        if sp.AcksDados segment.seqNum then netSendOps sp.dest 1 node else []
    else lockOps slot [.lock .con]
  | .sync | .syncAck => []
  | .ack => lockOps slot [.lock .ack, .unlock .ack]
  | .fin => .take (.mutex slot .con) :: sp.closeConnAuxOps slot node ++ [.give (.mutex slot .con)]

/-- `recv_thread`, from where `mutex_pack_cons` is locked. -/
def ServicePoint.recvThreadOps (sp : ServicePoint) (slot : Slot) (segment : Segment) (node : Nat) : List HostOp :=
  .give (.waitBuff slot) :: sp.switchOps slot segment node

/-- `send_thread`, from where `mutex_cons` is locked: for each segment how often it looks whether the window moves. -/
def sendThreadOps (slot : Slot) (polls : List Nat) : List HostOp :=
  (polls.flatMap fun k => lockOps slot (seqNumLocks ++ (List.replicate k [.lock .ack, .unlock .ack]).flatten)) ++
    [.give (.sendBuff slot)]

/-- `seg_send_thread`, once: the first time it sends, later if the ACK has not come. -/
def segSendThreadOps (slot : Slot) (started acked : Bool) (dest node : Nat) : List HostOp :=
  (if started then lockOps slot [.lock .ack, .unlock .ack] else []) ++
    if started ∧ acked then [] else netSendOps dest 1 node

/-- `send_point`. -/
def ServicePoint.sendPointOps (sp : ServicePoint) (slot : Slot) : List HostOp :=
  lockOps slot sendPointLocks ++
    if sp.flagCon = .comConexao then [.take (.sendBuff slot), .post (.sendBuff slot)] else []

/-- `sync_ack_thread`, which sends the ACK with `mutex_con` locked. -/
def ServicePoint.syncAckThreadOps (sp : ServicePoint) (slot : Slot) (node : Nat) : List HostOp :=
  .take (.mutex slot .con) :: (if sp.flagCon = .estabelecendo then netSendOps sp.dest 1 node else []) ++ [.give (.mutex slot .con)]

/-! ## The host -/

/-- What is called or started, with what it finds. -/
inductive HostCall where
  | connectPoint (slot : Slot) (sp : ServicePoint)
  | closeConn (slot : Slot) (sp : ServicePoint)
  | sendPoint (slot : Slot) (sp : ServicePoint)
  | recvPoint (slot : Slot)
  | segSendThread (slot : Slot) (started acked : Bool) (dest node : Nat)
  | syncThread (slot : Slot) (sp : ServicePoint)
  | syncAckThread (slot : Slot) (sp : ServicePoint) (node : Nat)
  | routeTable
  | sendRoute (neighbour cost : Nat)
  deriving DecidableEq, Repr

/-- The operations of a call. -/
def HostCall.ops : HostCall → List HostOp
  | .connectPoint slot sp => lockOps slot sp.connectPointLocks
  | .closeConn slot sp => lockOps slot sp.closeConnLocks
  | .sendPoint slot sp => sp.sendPointOps slot
  | .recvPoint slot => lockOps slot recvPointLocks
  | .segSendThread slot started acked dest node => segSendThreadOps slot started acked dest node
  | .syncThread slot sp => lockOps slot sp.syncThreadLocks
  | .syncAckThread slot sp node => sp.syncAckThreadOps slot node
  | .routeTable => routeTableOps
  | .sendRoute neighbour cost => sendRouteOps neighbour cost

/-- What a host's loops do with a message, but for data outside a connection. An item of the queue makes at most `k` frames, and
`send_thread` gets through a buffer in as many rounds: its segments and how often it looks whether the window has moved, which the loop
itself repeats until an ACK comes. -/
inductive HostServes (k : Nat) : Resource → List HostOp → Prop where
  | recvFrame (pass : NetPass) : HostServes k .recvFrame (netRecvOps pass)
  | recvDatagram (o : Option Slot) : HostServes k .recvDatagram (transpInternalrecvOps o)
  | waitBuff (slot : Slot) (sp : ServicePoint) (segment : Segment) (node : Nat)
    (h : segment.flags = .dados → sp.flagCon = .comConexao) :
    HostServes k (.waitBuff slot) (sp.recvThreadOps slot segment node)
  | sendBuff (slot : Slot) (polls : List Nat) (h : (polls.map (· + 1)).sum ≤ k) :
    HostServes k (.sendBuff slot) (sendThreadOps slot polls)
  | waitList (accepted : List Bool) (h : accepted.length ≤ k) : HostServes k .waitList (netInternalsendOps accepted)
  | sendFrame : HostServes k .sendFrame linkInternalsendOps

/-- What the threads are called for. -/
inductive HostCalls (n : Nat) : HostThread n → List HostOp → Prop where
  | linkRecv : HostCalls n .linkRecv linkInternalrecvOps
  | call (i : Fin n) (c : HostCall) : HostCalls n (.call i) c.ops

/-- Which loop serves which resource. -/
def Resource.worker (n : Nat) : Resource → Option (HostThread n)
  | .recvFrame => some .netRecv
  | .recvDatagram => some .transpRecv
  | .waitBuff slot => some (.recvThread slot)
  | .sendBuff slot => some (.sendThread slot)
  | .waitList => some .netSend
  | .sendFrame => some .linkSend
  | .mutex .. | .routeTable | .prodInsert => none

/-- The places that are free while nothing is to be done: the loop of the link layer waits for a frame with
`link_recv_mutex` locked. -/
def Resource.credit : Resource → Nat
  | .recvFrame => 0
  | .waitList => maxSendWaiting
  | _ => 1

/-- The threads of a host when all layers are initialised. -/
def hostInit (n : Nat) : State (HostThread n) Resource where
  todo := fun t => if t = .linkRecv then [.take .recvFrame] else []
  free := fun r => if r = .recvFrame then 1 else r.credit
  full := fun _ => 0

end NetworkLayers
