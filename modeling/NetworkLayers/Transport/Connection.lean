import NetworkLayers.Net.Stack
import NetworkLayers.Transport.Node
import NetworkLayers.Transport.Wire

/-!
# Two service points and the hosts between them

Two service points of two hosts, with all that the hosts have below them. What a point sends is written to memory and passed to
`net_send`, goes from host to host in frames, and is read out of what `internalrecv` of the transport layer is given. The other
service points of all hosts pass on what they like.
-/

namespace NetworkLayers

/-- The hosts and the slots of two different service points. -/
structure Ends where
  host : Side → HostIndex
  slot : Side → Slot
  distinct : (host .a, slot .a) ≠ (host .b, slot .b)

/-- Their places. -/
def Ends.places (e : Ends) : Places where
  addr x := ⟨hostNum (e.host x), (e.slot x).val⟩
  distinct h := e.distinct (Prod.ext (hostNum_injective (congrArg Addr.node h)) (Fin.ext (congrArg Addr.point h)))

/-- The one of the two that is a host's service point with a number. -/
def Ends.side (e : Ends) (n : HostIndex) (point : Nat) : Option Side :=
  if e.host .a = n ∧ (e.slot .a).val = point then some .a
  else if e.host .b = n ∧ (e.slot .b).val = point then some .b
  else none

/-! ## What is passed on and what is read -/

/-- The flags that `recv_thread` has a case for. -/
def Flags.ofCode : Nat → Option Flags
  | 0 => some .dados
  | 1 => some .sync
  | 2 => some .syncAck
  | 3 => some .ack
  | 4 => some .fin
  | _ => none

/-- The segment that is handled, if `recv_thread` has a case for its flags. -/
def RawSegment.segment (s : RawSegment) : Option Segment :=
  (Flags.ofCode s.flags).map fun flags =>
    { src := s.src, dest := s.dest, seqNum := s.seqNum, ackNum := s.ackNum, flags := flags, windowSize := s.windowSize,
      data := s.data }

/-- The buffer that `net_send` is given with a packet. -/
def Packet.bytes (pkt : Packet) : List Byte := buildsendsegment pkt.segment.raw pkt.dataSize

/-- A packet as it is read out of its bytes: nothing says of which connection it is, or where its numbers were read. -/
def Packet.plain (pkt : Packet) : Packet := { pkt with epoch := 0, answers := 0, freed := false }

/-- `recv.data`, as far as its bytes have been written. -/
def Delivered.bytes (d : Delivered) : List Byte := (d.data.takeWhile Option.isSome).filterMap id

/-- `new_recv` for a segment that has been read. -/
def Delivered.recv (d : Delivered) (newSeg : RawSegment) : Option Packet :=
  newSeg.segment.map fun segment =>
    { src := d.src, dest := hostNum d.host, segment := segment, size := d.data.length, epoch := 0, answers := 0,
      freed := false }

/-! ## The two points -/

/-- The hosts below the transport layer, the two points, how many of its datagrams `internalrecv` of each host has taken, and for each
point what is in `wait_buff` and the `sync_thread`s and `sync_ack_thread`s at work. `packets` is what properties speak about and
nothing stores: the packets the two points have passed to `net_send`. -/
structure Connection where
  stack : Stack
  point : Side → Endpoint
  received : HostIndex → Nat
  waitBuff : Side → Option Packet
  syncs : Side → List Packet
  packets : List Packet

/-- The two points when they have been allocated. -/
def Connection.init (t : Topology) (bufRcv : HostIndex → List Byte) : Connection where
  stack := Stack.init t bufRcv
  point _ := allocServicePoint
  received _ := 0
  waitBuff _ := none
  syncs _ := []
  packets := []

/-- What can happen next: a call or a thread of one of the points, `internalrecv` of the transport layer of a host, or anything below
it and anything that another service point passes on. -/
inductive ConnectionAction where
  | point (x : Side) (act : PointAction)
  | internalrecv (n : HostIndex)
  | recvThread (x : Side) (rnd : Nat)
  | syncThread (x : Side) (i rnd : Nat)
  | below (a : StackAction)
  deriving DecidableEq, Repr

/-- A point has changed and passes packets to `net_send`. -/
def Connection.send (t : Topology) (e : Ends) (s : Connection) (x : Side) (r : Endpoint × List Packet) : Option Connection :=
  (r.2.foldlM (fun stack pkt => Stack.step t stack (.netSend (e.host x) pkt.dest pkt.bytes)) s.stack).map fun stack =>
    { s with stack := stack, point := Function.update s.point x r.1, packets := s.packets ++ r.2 }

/-- What `internalrecv` of a host takes next. -/
def Connection.next (s : Connection) (n : HostIndex) : Option Delivered :=
  (s.stack.delivered.filter fun d => d.host = n)[s.received n]?

/-- A segment is put into `wait_buff`, where the last one has been taken. -/
def Connection.put (s : Connection) (x : Side) (pkt : Packet) : Option Connection :=
  if (s.waitBuff x).isNone then some { s with waitBuff := Function.update s.waitBuff x (some pkt) } else none

/-- `internalrecv` of the transport layer with a segment whose checksum is right. One for another point goes there, and one with
flags that `recv_thread` has no case for to nobody. -/
def Connection.dispatch (e : Ends) (s : Connection) (d : Delivered) (newSeg : RawSegment) : Option Connection :=
  if maxServicePoints ≤ newSeg.dest then none
  else
    match e.side d.host newSeg.dest, d.recv newSeg with
    | some x, some pkt => s.put x pkt
    | _, _ => some s

/-- `internalrecv` of the transport layer of a host. -/
def Connection.internalrecv (e : Ends) (s : Connection) (n : HostIndex) : Option Connection :=
  match s.next n with
  | none => none
  | some d =>
    match rcvSegment d.bytes d.data.length with
    | .error _ => none
    | .ok (newSeg, rcvChecksum) =>
      let s := { s with received := Function.update s.received n (s.received n + 1) }
      if rcvChecksum = 0 then s.dispatch e d newSeg else some s

/-- `recv_thread` with what is in `wait_buff`: a SYN or a SYN+ACK gets a thread of its own. -/
def Connection.recvThread (t : Topology) (e : Ends) (s : Connection) (x : Side) (rnd : Nat) : Option Connection :=
  match s.waitBuff x with
  | none => none
  | some pkt =>
    if (s.point x).recvBlocked then none
    else
      let s := { s with waitBuff := Function.update s.waitBuff x none }
      if pkt.segment.flags = .sync ∨ pkt.segment.flags = .syncAck then
        some { s with syncs := Function.update s.syncs x (s.syncs x ++ [pkt]) }
      else ((s.point x).recvThread (e.places.addr x) pkt rnd).bind (s.send t e x)

/-- `sync_thread` or `sync_ack_thread`. -/
def Connection.syncThread (t : Topology) (e : Ends) (s : Connection) (x : Side) (i rnd : Nat) : Option Connection :=
  match (s.syncs x)[i]? with
  | none => none
  | some pkt =>
    let s := { s with syncs := Function.update s.syncs x ((s.syncs x).eraseIdx i) }
    ((s.point x).recvThread (e.places.addr x) pkt rnd).bind (s.send t e x)

/-- One step. An access beyond a buffer or a table is `none`, and so is a step of a thread that waits. -/
def Connection.step (t : Topology) (e : Ends) (s : Connection) : ConnectionAction → Option Connection
  | .point _ (.recvThread ..) => none
  | .point x act => ((s.point x).act (e.places.addr x) act).bind (s.send t e x)
  | .internalrecv n => s.internalrecv e n
  | .recvThread x rnd => s.recvThread t e x rnd
  | .syncThread x i rnd => s.syncThread t e x i rnd
  | .below a => (s.stack.step t a).map fun stack => { s with stack := stack }

/-- The two points with the packets they have sent, as if there were nothing else between them. -/
def Connection.session (s : Connection) : Session := { point := s.point, packets := s.packets }

/-- Data that are no segment for one of the points when they come to the host `dest`. -/
def ForOthers (e : Ends) (dest : Nat) (data : List Byte) : Prop :=
  ∀ n, dest = hostNum n → ∀ r ∈ (rcvSegment data data.length).toOption, r.2 = 0 → e.side n r.1.dest = none

instance (e : Ends) (dest : Nat) (data : List Byte) : Decidable (ForOthers e dest data) :=
  inferInstanceAs (Decidable (∀ _ : HostIndex, _ → ∀ r ∈ (rcvSegment data data.length).toOption, _ → _))

end NetworkLayers
