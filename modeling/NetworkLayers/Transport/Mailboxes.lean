import NetworkLayers.Transport.ServicePoint
import NetworkLayers.Link.Frame
import NetworkLayers.Lib.Mailbox
import NetworkLayers.Lib.Transition

/-!
# The mailboxes between the layers

The four slots a message is handed over in, each with its two mutexes, and the loops of the threads around them: `internalrecv` of
the link, network and transport layers, `recv_thread` and `send_thread` of each service point, and the calls of `send_point`. A
step is the lock or unlock of a mutex, or one field set or read. What a thread makes of a message before it hands it on, and whether
it does, is left open, as are the messages themselves.
-/

namespace NetworkLayers

/-- `netdata_t`. -/
structure NetData where
  data : List Byte
  size : Nat
  src : Nat
  deriving DecidableEq, Repr

/-- `recv_segment_t`. -/
structure RecvSegment where
  segment : Segment
  src : Nat
  size : Nat
  deriving DecidableEq, Repr

/-- `send_buff` and `send_size` of a service point. -/
structure SendBuff where
  sendBuff : List Byte
  sendSize : Nat
  deriving DecidableEq, Repr

/-- The step `internalrecv` of the link layer takes next. -/
inductive LinkRecv where
  /-- `pthread_mutex_lock(&link_recv_mutex)` -/
  | lock
  /-- `recvfrom` and the checksum, as often as it takes -/
  | recvfrom
  /-- `getrecvframe`, for the frame that arrived: `recv_frame.dest` -/
  | dest (f : LinkFrame)
  | size (f : LinkFrame)
  | data (f : LinkFrame)
  /-- `pthread_mutex_unlock(&net_recv_mutex)` -/
  | unlock (f : LinkFrame)
  deriving DecidableEq, Repr

/-- The step `internalrecv` of the network layer takes next, with what it has read or is to hand on. -/
inductive NetRecv where
  /-- `pthread_mutex_lock(&net_recv_mutex)` -/
  | lock
  /-- `buf = recv_frame.data` -/
  | data
  /-- `size = recv_frame.size` -/
  | size (buf : List Byte)
  /-- `pthread_mutex_unlock(&link_recv_mutex)` -/
  | unlock (buf : List Byte) (size : Nat)
  /-- the datagram -/
  | datagram
  /-- `pthread_mutex_lock(&net2_recv_mutex)` -/
  | lockNext (d : NetData)
  /-- `recv_datagram.data`, and so on -/
  | nextData (d : NetData)
  | nextSize (d : NetData)
  | nextSrc (d : NetData)
  /-- `pthread_mutex_unlock(&transp_recv_mutex)` -/
  | unlockNext (d : NetData)
  deriving DecidableEq, Repr

/-- The step `internalrecv` of the transport layer takes next. -/
inductive TranspRecv where
  /-- `pthread_mutex_lock(&transp_recv_mutex)` -/
  | lock
  /-- `recv.data = recv_datagram.data`, and so on -/
  | data
  | size (data : List Byte)
  | src (data : List Byte) (size : Nat)
  /-- `pthread_mutex_unlock(&net2_recv_mutex)` -/
  | unlock (recv : NetData)
  /-- the segment -/
  | segment
  /-- `pthread_mutex_lock(&service_points[sp]->mutex_pack_prod)` -/
  | lockPack (sp : Nat) (newRecv : RecvSegment)
  /-- `service_points[sp]->wait_buff = new_recv`, field by field -/
  | packSegment (sp : Nat) (newRecv : RecvSegment)
  | packSrc (sp : Nat) (newRecv : RecvSegment)
  | packSize (sp : Nat) (newRecv : RecvSegment)
  /-- `pthread_mutex_unlock(&service_points[sp]->mutex_pack_cons)` -/
  | unlockPack (sp : Nat) (newRecv : RecvSegment)
  deriving DecidableEq, Repr

/-- The step the `recv_thread` of a service point takes next. -/
inductive RecvLoop where
  /-- `pthread_mutex_lock(&service_points[sp]->mutex_pack_cons)` -/
  | lock
  /-- `new_recv = service_points[sp]->wait_buff`, field by field -/
  | segment
  | src (segment : Segment)
  | size (segment : Segment) (src : Nat)
  /-- `pthread_mutex_unlock(&service_points[sp]->mutex_pack_prod)` -/
  | unlock (newRecv : RecvSegment)
  /-- the `switch` -/
  | switch
  deriving DecidableEq, Repr

/-- The step the `send_thread` of a service point takes next. `sent` is what it has copied out of the buffer. -/
inductive SendLoop where
  /-- `pthread_mutex_lock(&service_points[sp]->mutex_cons)` -/
  | lock
  /-- `send_size = service_points[sp]->send_size` -/
  | size
  /-- `while(send_size != 0)`, and after it `pthread_mutex_unlock(&service_points[sp]->mutex_prod)` -/
  | segments (size sendPtr sendSize : Nat) (sent : List Byte)
  deriving DecidableEq, Repr

/-- The step a call of `send_point` takes next. -/
inductive SendPointPc where
  /-- `pthread_mutex_lock(&service_points[sp]->mutex_prod)` -/
  | lock
  /-- `service_points[sp]->send_buff = buf` -/
  | sendBuff
  /-- `service_points[sp]->send_size = tam` -/
  | sendSize
  /-- `pthread_mutex_unlock(&service_points[sp]->mutex_cons)` -/
  | unlock
  | done
  deriving DecidableEq, Repr

/-- A call of `send_point` that has copied the data. -/
structure SendPointCall where
  sp : Nat
  buf : List Byte
  pc : SendPointPc
  deriving DecidableEq, Repr

/-- The mailboxes and the threads. -/
structure Mailboxes where
  /-- `link_recv_mutex`, `net_recv_mutex` and `recv_frame` -/
  recvFrame : Mailbox LinkFrame (List Byte × Nat)
  /-- `net2_recv_mutex`, `transp_recv_mutex` and `recv_datagram` -/
  recvDatagram : Mailbox NetData NetData
  /-- `mutex_pack_prod`, `mutex_pack_cons` and `wait_buff` of a service point -/
  waitBuff : Nat → Mailbox RecvSegment RecvSegment
  /-- `mutex_prod`, `mutex_cons` and `send_buff` of a service point -/
  sendBuff : Nat → Mailbox SendBuff (List Byte × Nat)
  link : LinkRecv
  net : NetRecv
  transp : TranspRecv
  recvThread : Nat → RecvLoop
  sendThread : Nat → SendLoop
  calls : List SendPointCall

/-- A segment of a service point nobody has written to. -/
def emptySegment : RecvSegment :=
  { segment := { src := 0, dest := 0, seqNum := 0, ackNum := 0, flags := .dados, windowSize := 0, data := [] }, src := 0, size := 0 }

/-- The mutexes and threads at the start. -/
def Mailboxes.init : Mailboxes where
  recvFrame := Mailbox.init { dest := 0, size := 0, data := [], checksum := 0 }
  recvDatagram := Mailbox.init { data := [], size := 0, src := 0 }
  waitBuff := fun _ => Mailbox.init emptySegment
  sendBuff := fun _ => Mailbox.init { sendBuff := [], sendSize := 0 }
  link := .lock
  net := .lock
  transp := .lock
  recvThread := fun _ => .lock
  sendThread := fun _ => .lock
  calls := []

/-- Which thread takes its next step, with what is left open. -/
inductive MailAction where
  /-- the frame of the UDP datagram that arrives next, and whether its checksum is right -/
  | link (f : LinkFrame) (right : Bool)
  /-- what goes to the transport layer, if anything -/
  | net (d : Option NetData)
  /-- the service point a segment goes to, if to any -/
  | transp (r : Option (Nat × RecvSegment))
  | recvThread (sp : Nat)
  /-- the size of the next segment the window allows -/
  | sendThread (sp segmentSendSize : Nat)
  /-- the application calls `send_point` -/
  | call (sp : Nat) (buffer : List Byte)
  /-- a call of `send_point` goes on -/
  | sendPoint (i : Nat)
  deriving DecidableEq, Repr

namespace Mailboxes

/-- `internalrecv` of the link layer. -/
def linkStep (s : Mailboxes) (f : LinkFrame) (right : Bool) : Option Mailboxes :=
  match s.link with
  | .lock => s.recvFrame.lockProd.map fun m => { s with recvFrame := m, link := .recvfrom }
  | .recvfrom => some { s with
      recvFrame := s.recvFrame.put fun r => { r with checksum := f.checksum }
      link := if right then .dest f else .recvfrom }
  | .dest f => some { s with recvFrame := s.recvFrame.put fun r => { r with dest := f.dest }, link := .size f }
  | .size f => some { s with recvFrame := s.recvFrame.put fun r => { r with size := f.size }, link := .data f }
  | .data f => some { s with recvFrame := s.recvFrame.put fun r => { r with data := f.data }, link := .unlock f }
  | .unlock f => some { s with recvFrame := s.recvFrame.unlockCons f, link := .lock }

/-- `internalrecv` of the network layer. -/
def netStep (s : Mailboxes) (pass : Option NetData) : Option Mailboxes :=
  match s.net with
  | .lock => s.recvFrame.lockCons.map fun m => { s with recvFrame := m, net := .data }
  | .data => some { s with net := .size s.recvFrame.slot.data }
  | .size buf => some { s with net := .unlock buf s.recvFrame.slot.size }
  | .unlock buf size => some { s with recvFrame := s.recvFrame.unlockProd (buf, size), net := .datagram }
  | .datagram => match pass with
    | none => some { s with net := .lock }
    | some d => some { s with net := .lockNext d }
  | .lockNext d => s.recvDatagram.lockProd.map fun m => { s with recvDatagram := m, net := .nextData d }
  | .nextData d => some { s with recvDatagram := s.recvDatagram.put fun r => { r with data := d.data }, net := .nextSize d }
  | .nextSize d => some { s with recvDatagram := s.recvDatagram.put fun r => { r with size := d.size }, net := .nextSrc d }
  | .nextSrc d => some { s with recvDatagram := s.recvDatagram.put fun r => { r with src := d.src }, net := .unlockNext d }
  | .unlockNext d => some { s with recvDatagram := s.recvDatagram.unlockCons d, net := .lock }

/-- The mailbox of a service point for segments is changed. -/
def setWaitBuff (s : Mailboxes) (sp : Nat) (m : Mailbox RecvSegment RecvSegment) : Mailboxes :=
  { s with waitBuff := Function.update s.waitBuff sp m }

/-- The mailbox of a service point for data to send is changed. -/
def setSendBuff (s : Mailboxes) (sp : Nat) (m : Mailbox SendBuff (List Byte × Nat)) : Mailboxes :=
  { s with sendBuff := Function.update s.sendBuff sp m }

/-- `internalrecv` of the transport layer. -/
def transpStep (s : Mailboxes) (pass : Option (Nat × RecvSegment)) : Option Mailboxes :=
  match s.transp with
  | .lock => s.recvDatagram.lockCons.map fun m => { s with recvDatagram := m, transp := .data }
  | .data => some { s with transp := .size s.recvDatagram.slot.data }
  | .size data => some { s with transp := .src data s.recvDatagram.slot.size }
  | .src data size => some { s with transp := .unlock { data := data, size := size, src := s.recvDatagram.slot.src } }
  | .unlock recv => some { s with recvDatagram := s.recvDatagram.unlockProd recv, transp := .segment }
  | .segment => match pass with
    | none => some { s with transp := .lock }
    | some (sp, newRecv) => some { s with transp := .lockPack sp newRecv }
  | .lockPack sp newRecv =>
    (s.waitBuff sp).lockProd.map fun m => { s with transp := .packSegment sp newRecv }.setWaitBuff sp m
  | .packSegment sp newRecv =>
    some ({ s with transp := .packSrc sp newRecv }.setWaitBuff sp
      ((s.waitBuff sp).put fun r => { r with segment := newRecv.segment }))
  | .packSrc sp newRecv =>
    some ({ s with transp := .packSize sp newRecv }.setWaitBuff sp ((s.waitBuff sp).put fun r => { r with src := newRecv.src }))
  | .packSize sp newRecv =>
    some ({ s with transp := .unlockPack sp newRecv }.setWaitBuff sp
      ((s.waitBuff sp).put fun r => { r with size := newRecv.size }))
  | .unlockPack sp newRecv => some ({ s with transp := .lock }.setWaitBuff sp ((s.waitBuff sp).unlockCons newRecv))

/-- A `recv_thread` goes to its next step. -/
def gotoRecv (s : Mailboxes) (sp : Nat) (pc : RecvLoop) : Mailboxes :=
  { s with recvThread := Function.update s.recvThread sp pc }

/-- `recv_thread`. -/
def recvStep (s : Mailboxes) (sp : Nat) : Option Mailboxes :=
  match s.recvThread sp with
  | .lock => (s.waitBuff sp).lockCons.map fun m => (s.setWaitBuff sp m).gotoRecv sp .segment
  | .segment => some (s.gotoRecv sp (.src (s.waitBuff sp).slot.segment))
  | .src segment => some (s.gotoRecv sp (.size segment (s.waitBuff sp).slot.src))
  | .size segment src =>
    some (s.gotoRecv sp (.unlock { segment := segment, src := src, size := (s.waitBuff sp).slot.size }))
  | .unlock newRecv => some ((s.setWaitBuff sp ((s.waitBuff sp).unlockProd newRecv)).gotoRecv sp .switch)
  | .switch => some (s.gotoRecv sp .lock)

/-- A `send_thread` goes to its next step. -/
def gotoSend (s : Mailboxes) (sp : Nat) (pc : SendLoop) : Mailboxes :=
  { s with sendThread := Function.update s.sendThread sp pc }

/-- `send_thread`, which copies the buffer out segment by segment. -/
def sendStep (s : Mailboxes) (sp segmentSendSize : Nat) : Option Mailboxes :=
  match s.sendThread sp with
  | .lock => (s.sendBuff sp).lockCons.map fun m => (s.setSendBuff sp m).gotoSend sp .size
  | .size =>
    let sendSize := (s.sendBuff sp).slot.sendSize
    some (s.gotoSend sp (.segments sendSize 0 sendSize []))
  | .segments size sendPtr sendSize sent =>
    if sendSize = 0 then some ((s.setSendBuff sp ((s.sendBuff sp).unlockProd (sent, size))).gotoSend sp .lock)
    else
      let n := if sendSize < segmentSendSize then sendSize else segmentSendSize
      some (s.gotoSend sp (.segments size (sendPtr + n) (sendSize - n)
        (sent ++ ((s.sendBuff sp).slot.sendBuff.drop sendPtr).take n)))

/-- A call of `send_point` goes to its next step. -/
def gotoCall (s : Mailboxes) (i : Nat) (c : SendPointCall) (pc : SendPointPc) : Mailboxes :=
  { s with calls := s.calls.set i { c with pc := pc } }

/-- `send_point`, from where it has copied the data. -/
def callStep (s : Mailboxes) (i : Nat) (c : SendPointCall) : Option Mailboxes :=
  match c.pc with
  | .lock => (s.sendBuff c.sp).lockProd.map fun m => (s.setSendBuff c.sp m).gotoCall i c .sendBuff
  | .sendBuff =>
    some ((s.setSendBuff c.sp ((s.sendBuff c.sp).put fun r => { r with sendBuff := c.buf })).gotoCall i c .sendSize)
  | .sendSize =>
    some ((s.setSendBuff c.sp ((s.sendBuff c.sp).put fun r => { r with sendSize := c.buf.length })).gotoCall i c .unlock)
  | .unlock =>
    some ((s.setSendBuff c.sp ((s.sendBuff c.sp).unlockCons { sendBuff := c.buf, sendSize := c.buf.length })).gotoCall i c .done)
  | .done => none

/-- A step of any of the threads. -/
def step (s : Mailboxes) : MailAction → Option Mailboxes
  | .link f right => s.linkStep f right
  | .net d => s.netStep d
  | .transp r => s.transpStep r
  | .recvThread sp => s.recvStep sp
  | .sendThread sp segmentSendSize => s.sendStep sp segmentSendSize
  | .call sp buffer => some { s with calls := s.calls ++ [{ sp := sp, buf := buffer.take maxSendSize, pc := .lock }] }
  | .sendPoint i => (s.calls[i]?).bind fun c => s.callStep i c

end Mailboxes

end NetworkLayers
