import NetworkLayers.Transport.Point
import NetworkLayers.Net.Routes

/-!
# A node and its tables (transport_layer.c, net_layer.c)

All service points of a node with their threads, and its table of routes. Every access to `service_points` or `routes` is at an index
that a step takes from a call, from a thread's parameter or from what has been received (`neighbors` has as many entries as `routes` and
is read and written at the same indices), and is checked here: a step that would read or
write beyond a table is `none`. A thread that waits leaves the node as it is, and so does one that finds a point gone without having
asked: a null pointer is no matter of the index.
-/

namespace NetworkLayers

/-- `MAX_SERVICE_POINTS`. -/
def maxServicePoints : Nat := 16

/-- A place of `service_points`. -/
abbrev Slot := Fin maxServicePoints

/-- What `alloc_service_point` returns when no slot is free: `ERROR` as a `uint16_t`. -/
def errorPoint : Nat := u16 (65536 - 1)

/-- A node: its service points, the parameters of their `send_thread`s and `recv_thread`s, the segments in their `wait_buff`s, the
`seg_send_thread`s left by points that were freed, the `sync_thread`s and `sync_ack_thread`s at work, and its routes. `given` is what
properties speak about and the node does not store: the values `alloc_service_point` has returned. -/
structure Node where
  servicePoints : Slot → Option Endpoint
  threads : List Nat
  waitBuff : Slot → Option Packet
  segSends : List SegSend
  syncs : List Packet
  router : Router
  given : List Nat

/-- The node when `transport_init` and `net_init` have returned. -/
def Node.init (num : Nat) (way : HostIndex → Int) : Node :=
  { servicePoints := fun _ => none, threads := [], waitBuff := fun _ => none, segSends := [], syncs := [],
    router := Router.init num way, given := [] }

/-- `service_points[point]` and what is done with it; `none` is an index beyond the table. -/
def Node.atPoint (s : Node) (point : Nat) (f : Slot → Option Endpoint → Node) : Option Node :=
  if h : point < maxServicePoints then some (f ⟨point, h⟩ (s.servicePoints ⟨point, h⟩)) else none

/-- The node after a service point has changed. -/
def Node.setPoint (s : Node) (i : Slot) (p : Option Endpoint) : Node :=
  { s with servicePoints := Function.update s.servicePoints i p }

/-- An action of a service point, where there is one and it need not wait. -/
def Node.act (s : Node) (point : Nat) (act : PointAction) : Option Node :=
  s.atPoint point fun i p =>
    match p.bind fun p => p.act ⟨s.router.num, i⟩ act with
    | none => s
    | some (p', _) => s.setPoint i (some p')

/-- `getfreeslot`. -/
def Node.getfreeslot (s : Node) : Option Slot := (List.finRange maxServicePoints).find? fun i => (s.servicePoints i).isNone

/-- `alloc_service_point`. -/
def Node.allocServicePoint (s : Node) : Node :=
  match s.getfreeslot with
  | none => { s with given := s.given ++ [errorPoint] }
  | some i =>
    { s.setPoint i (some NetworkLayers.allocServicePoint) with
      threads := s.threads ++ [i.val], waitBuff := Function.update s.waitBuff i none, given := s.given ++ [i.val] }

/-- `dalloc_service_point`: the point and its two threads are gone, its `seg_send_thread`s go on. -/
def Node.dallocServicePoint (s : Node) (point : Nat) : Option Node :=
  s.atPoint point fun i p =>
    match p with
    | none => s
    | some p =>
      { s.setPoint i none with
        threads := s.threads.erase i.val, waitBuff := Function.update s.waitBuff i none, segSends := s.segSends ++ p.segSends }

/-- `internalrecv` of the transport layer on a segment whose checksum is right. -/
def Node.internalrecv (s : Node) (pkt : Packet) : Option Node :=
  s.atPoint pkt.segment.dest fun i p =>
    match p, s.waitBuff i with
    | some _, none => { s with waitBuff := Function.update s.waitBuff i (some pkt) }
    | _, _ => s

/-- `recv_thread` with what is in `wait_buff`: a SYN or a SYN+ACK gets a thread of its own. -/
def Node.recvThread (s : Node) (point rnd : Nat) : Option Node :=
  s.atPoint point fun i p =>
    match p, s.waitBuff i with
    | some p, some pkt =>
      if p.recvBlocked then s
      else
        let s' := { s with waitBuff := Function.update s.waitBuff i none }
        if pkt.segment.flags = .sync ∨ pkt.segment.flags = .syncAck then { s' with syncs := s.syncs ++ [pkt] }
        else
          match p.recvThread ⟨s.router.num, i⟩ pkt rnd with
          | none => s'
          | some (p', _) => s'.setPoint i (some p')
    | _, _ => s

/-- `sync_thread` or `sync_ack_thread`, at the point the segment is for. -/
def Node.syncThread (s : Node) (i rnd : Nat) : Option Node :=
  match s.syncs[i]? with
  | none => some s
  | some pkt =>
    s.atPoint pkt.segment.dest fun slot p =>
      match p.bind fun p => p.recvThread ⟨s.router.num, slot⟩ pkt rnd with
      | none => s
      | some (p', _) => { s.setPoint slot (some p') with syncs := s.syncs.eraseIdx i }

/-- The `i`-th `seg_send_thread` of a service point, at the point that is the `src` of its segment. -/
def Node.segSendThread (s : Node) (slot : Slot) (i : Nat) : Option Node :=
  match (s.servicePoints slot).bind fun p => p.segSends[i]? with
  | none => some s
  | some t => s.act t.pack.segment.src (.segSendThread i)

/-- A `seg_send_thread` whose service point was freed: it stops when there is none, or when the one there has its ACK. -/
def SegSend.orphaned (t : SegSend) (p : Option Endpoint) : SegSend :=
  if !t.started then { t with started := true }
  else
    match p with
    | none => { t with stopped := true }
    | some p => if isSet p.sp.acks t.pack.lookup then { t with stopped := true } else t

/-- The `i`-th of them. -/
def Node.orphanThread (s : Node) (i : Nat) : Option Node :=
  match s.segSends[i]? with
  | none => some s
  | some t => s.atPoint t.pack.segment.src fun _ p => { s with segSends := s.segSends.set i (t.orphaned p) }

/-- `hostreachable`, which looks at the destination before it looks it up. -/
def Node.hostreachable (s : Node) (dest : Nat) : Option Node :=
  if dest = 0 ∨ maxHosts ≤ dest - 1 then some s else (hostIndex dest).map fun _ => s

/-- `enable_route` or `disable_route`, which use `host - 1` as it is. -/
def Node.switchRoute (s : Node) (host : Nat) (switch : Router → HostIndex → Router) : Option Node :=
  (hostIndex host).map fun i => { s with router := switch s.router i }

/-- What happens next at the node: a call of the application or the rest of a `send_point` that waits at a slot, a thread, or something
received. The `point` of a call is what the application gives, and the `host` of `enable_route` and `disable_route` what the menu has
read; the `point` of a thread is its parameter. -/
inductive NodeAction where
  | allocServicePoint
  | dallocServicePoint (point : Nat)
  | connectPoint (point dest destPoint windowSize rnd : Nat)
  | closeConn (point : Nat)
  | sendPoint (point : Nat) (buffer : List Byte)
  | sendPut (slot : Slot) (i : Nat)
  | recvPoint (point size : Nat)
  | sendThread (point : Nat)
  | segSendThread (slot : Slot) (i : Nat)
  | orphanThread (i : Nat)
  | internalrecv (pkt : Packet)
  | recvThread (point rnd : Nat)
  | syncThread (i rnd : Nat)
  | internalhandleroute (msg : RouteTable)
  | internalsendroute
  | advertise (numberhost : HostIndex)
  | hostreachable (dest : Nat)
  | enableRoute (host : Nat)
  | disableRoute (host : Nat)
  deriving DecidableEq, Repr

/-- One step. `none` is an access beyond `service_points` or `routes`. -/
def Node.step (s : Node) : NodeAction → Option Node
  | .allocServicePoint => some s.allocServicePoint
  | .dallocServicePoint point => s.dallocServicePoint point
  | .connectPoint point dest destPoint windowSize rnd => s.act point (.connectPoint dest destPoint windowSize rnd)
  | .closeConn point => s.act point .closeConn
  | .sendPoint point buffer => s.act point (.sendPoint buffer)
  | .sendPut slot i => s.act slot.val (.sendPut i)
  | .recvPoint point size => s.act point (.recvPoint size)
  | .sendThread point => if point ∈ s.threads then s.act point .sendThread else some s
  | .segSendThread slot i => s.segSendThread slot i
  | .orphanThread i => s.orphanThread i
  | .internalrecv pkt => s.internalrecv pkt
  | .recvThread point rnd => if point ∈ s.threads then s.recvThread point rnd else some s
  | .syncThread i rnd => s.syncThread i rnd
  | .internalhandleroute msg => (s.router.internalhandleroute msg).map fun router => { s with router := router }
  | .internalsendroute => some { s with router := s.router.startRoutes }
  | .advertise _ => some s
  | .hostreachable dest => s.hostreachable dest
  | .enableRoute host => s.switchRoute host Router.enableRoute
  | .disableRoute host => s.switchRoute host Router.disableRoute

/-- The value a call gives for its service point. -/
def NodeAction.point : NodeAction → Option Nat
  | .dallocServicePoint point | .connectPoint point .. | .closeConn point | .sendPoint point _ | .recvPoint point _ => some point
  | _ => none

/-- The application uses only what `alloc_service_point` has returned. -/
def Node.UsesGiven (s : Node) (a : NodeAction) : Prop := ∀ point ∈ a.point, point ∈ s.given

instance (s : Node) (a : NodeAction) : Decidable (s.UsesGiven a) := inferInstanceAs (Decidable (∀ point ∈ a.point, _))

/-- The condition on a step: a call does not use the value returned for an error, a segment is for one of the slots, and an
advertisement, `enable_route` and `disable_route` are about one of the hosts. -/
def NodeAction.InRange : NodeAction → Prop
  | .dallocServicePoint point | .connectPoint point .. | .closeConn point | .sendPoint point _ | .recvPoint point _ =>
    point ≠ errorPoint
  | .internalrecv pkt => pkt.segment.dest < maxServicePoints
  | .internalhandleroute msg => 1 ≤ msg.dest ∧ msg.dest ≤ maxHosts
  | .enableRoute host | .disableRoute host => 1 ≤ host ∧ host ≤ maxHosts
  | _ => True

instance : ∀ a : NodeAction, Decidable a.InRange
  | .dallocServicePoint point | .connectPoint point .. | .closeConn point | .sendPoint point _ | .recvPoint point _ =>
    inferInstanceAs (Decidable (point ≠ errorPoint))
  | .internalrecv pkt => inferInstanceAs (Decidable (pkt.segment.dest < maxServicePoints))
  | .internalhandleroute msg => inferInstanceAs (Decidable (1 ≤ msg.dest ∧ msg.dest ≤ maxHosts))
  | .enableRoute host | .disableRoute host => inferInstanceAs (Decidable (1 ≤ host ∧ host ≤ maxHosts))
  | .allocServicePoint | .sendPut .. | .sendThread _ | .segSendThread .. | .orphanThread _ | .recvThread .. | .syncThread ..
  | .internalsendroute | .advertise _ | .hostreachable _ => inferInstanceAs (Decidable True)

end NetworkLayers
