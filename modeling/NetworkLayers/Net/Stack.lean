import NetworkLayers.Link.Garbler
import NetworkLayers.Net.Receive
import NetworkLayers.Net.RouteSwitch
import NetworkLayers.Net.RouteWire

/-!
# The hosts with all that is below the transport layer

Routing, the send queue, the packets under reassembly, the link layer and the garbler of every host, and the datagrams of UDP
between them, as bytes. A datagram that UDP has taken may arrive at any time, more than once, or never. A call of `net_send`, a round
of `internalsend` and one of each `internalrecv` is a step: what the threads do to each other within these is in `Net.SendQueue` and
`Transport.Mailboxes`. One thing they do is left out: `net_send` fills `wait_item`, one for the whole host and without a mutex, so it is
assumed that the calls of `net_send` of one host do not overlap. The MTUs stay as they were configured: `enable_route` and
`disable_route` are steps, the `config_link` that the menu calls after them is in `Application.LinkMenu`.
-/

namespace NetworkLayers

/-- What the threads of a host share below the transport layer: its routes, the neighbour whose turn it is in `internalsendroute`,
the send queue, `count_id`, the fractions of the garbler, the buffer of the link layer, the packets under reassembly, and what the
threads of `internalhandleroute` that have not run yet were given. -/
structure StackHost where
  router : Router
  started : Bool
  current : Option HostIndex
  waitList : List WaitListItem
  countId : Nat
  garbler : Garbler
  bufRcv : List Byte
  list : RecvList
  routeThreads : List (List (Option Byte))

/-- Data that the network layer has accepted from the transport layer of a host for another. -/
structure Accepted where
  host : HostIndex
  dest : Nat
  data : List Byte
  deriving DecidableEq, Repr

/-- `recv_datagram` as the transport layer of a host is given it, its size the number of its bytes. -/
structure Delivered where
  host : HostIndex
  src : Nat
  data : List (Option Byte)
  deriving DecidableEq, Repr

/-- The hosts, and the datagrams UDP has taken, with the host each is for. No step looks at what has been accepted and delivered. -/
structure Stack where
  hosts : HostIndex → StackHost
  udp : List (HostIndex × List Byte)
  accepted : List Accepted
  delivered : List Delivered

/-- What happens next at a host. The draws are what `rand` returns for each of the frames that a round of `internalsend` hands to the
garbler. -/
inductive StackAction where
  | configGarbler (n : HostIndex) (l c d : Int)
  | start (n : HostIndex)
  | neighbor (n current : HostIndex)
  | advertise (n numberhost : HostIndex)
  | netSend (n : HostIndex) (dest : Nat) (data : List Byte)
  | internalsend (n : HostIndex) (draws : List (Nat × Nat))
  | internalrecv (n : HostIndex) (datagram : List Byte)
  | internalhandleroute (n : HostIndex) (param : List (Option Byte))
  | enableRoute (n host : HostIndex)
  | disableRoute (n host : HostIndex)
  deriving DecidableEq, Repr

/-- The hosts when `link_init` and `net_init` have returned at each; each `buf_rcv` is as `malloc` left it. -/
def Stack.init (t : Topology) (bufRcv : HostIndex → List Byte) : Stack where
  hosts n :=
    { router := Router.init (hostNum n) (t.links n), started := false, current := none, waitList := [], countId := 0,
      garbler := Garbler.init, bufRcv := bufRcv n, list := RecvList.empty, routeThreads := [] }
  udp := []
  accepted := []
  delivered := []

/-- Another state of a host. -/
def Stack.setHost (s : Stack) (n : HostIndex) (h : StackHost) : Stack := { s with hosts := Function.update s.hosts n h }

/-- `getmtu`: the MTU of the link from a host to another, -1 where there is none. -/
def Topology.getmtu (t : Topology) (n : HostIndex) (host : Nat) : Int :=
  match hostIndex host with
  | some j => t.links n j
  | none => -1

/-- `wait_list_insert`, blocked while the queue is full. -/
def Stack.insert (s : Stack) (n : HostIndex) (item : WaitListItem) : Option Stack :=
  if (s.hosts n).waitList.length < maxSendWaiting then
    some (s.setHost n { s.hosts n with waitList := (s.hosts n).waitList ++ [item] })
  else none

/-- `link_send` and `internalsend` (link.c) of the host `n` on a datagram for its neighbour `node`: what UDP takes. -/
def StackHost.linkSends (h : StackHost) (t : Topology) (n : HostIndex) (node : Nat) (d : Datagram) (draw : Nat × Nat) :
    List (HostIndex × List Byte) :=
  match hostIndex node with
  | none => []
  | some j =>
    if linkSend (t.links n j) (u64 (d.size + netHeaderSize)) then
      (h.garbler.sendtoGarbled (buildsendframe (sendFrame node (buildsenddatagram d))) draw.1 draw.2).map (j, ·)
    else []

/-- What UDP takes of the datagrams of an item. -/
def StackHost.sends (h : StackHost) (t : Topology) (n : HostIndex) (item : WaitListItem) (ds : List Datagram)
    (draws : List (Nat × Nat)) : List (HostIndex × List Byte) :=
  ds.zipIdx.flatMap fun (d, k) => h.linkSends t n item.firstDestLink d (draws.getD k (0, 0))

/-- `internalrecv` (net_layer.c) on a frame: a datagram for another host is queued again, one that completes its packet goes with it
to a new thread of `internalhandleroute` or to the transport layer. A protocol that is none of the three has no case. -/
def Stack.netRecv (s : Stack) (n : HostIndex) (f : LinkFrame) : Option Stack :=
  match rcvDatagram f.data f.size with
  | .error _ => none
  | .ok (recv, rcvChecksum) =>
    if rcvChecksum = 0 ∧ recv.dest ≠ (s.hosts n).router.num then
      match (s.hosts n).router.netResend (forwarded recv) with
      | none => some s
      | some item => s.insert n item
    else
      match netInternalrecv (s.hosts n).router.num (s.hosts n).list f with
      | .error _ => none
      | .ok (list, none) => some (s.setHost n { s.hosts n with list := list })
      | .ok (list, some (recv, data, _)) =>
        let s := s.setHost n { s.hosts n with list := list }
        if recv.protocol = 0 then
          some (s.setHost n { s.hosts n with routeThreads := (s.hosts n).routeThreads ++ [data] })
        else if recv.forTransport then
          some { s with delivered := s.delivered ++ [{ host := n, src := recv.src, data := data }] }
        else some s

/-- One step of a host. An access beyond a buffer or a table is `none`, and so is a step that is blocked. `netSend` and `advertise` put
the item that they have built in the queue: no other call of `net_send` fills `wait_item` in between. -/
def Stack.step (t : Topology) (s : Stack) : StackAction → Option Stack
  | .configGarbler n l c d => some (s.setHost n { s.hosts n with garbler := (s.hosts n).garbler.configGarbler l c d })
  | .start n =>
    if (s.hosts n).started then none
    else some (s.setHost n { s.hosts n with router := (s.hosts n).router.startRoutes, started := true })
  | .neighbor n current =>
    if (s.hosts n).started = true ∧ (s.hosts n).router.neighbors current = 1 then
      some (s.setHost n { s.hosts n with current := some current })
    else none
  | .advertise n numberhost =>
    match (s.hosts n).current with
    | none => none
    | some current =>
      match (s.hosts n).router.advertise numberhost with
      | none => none
      | some packcomunication =>
        match (s.hosts n).router.netSend (hostNum current) packcomunication.bytes packcomunication.bytes.length 0 with
        | none => some s
        | some item => s.insert n item
  | .netSend n dest data =>
    match (s.hosts n).router.netSend dest data data.length 1 with
    | none => some s
    | some item =>
      (s.insert n item).map fun s => { s with accepted := s.accepted ++ [{ host := n, dest := dest, data := data }] }
  | .internalsend n draws =>
    match (s.hosts n).waitList with
    | [] => none
    | item :: waitList =>
      match NetworkLayers.internalsend (t.getmtu n item.firstDestLink) (s.hosts n).countId item with
      | none => none
      | some (ds, countId) =>
        some { s.setHost n { s.hosts n with waitList := waitList, countId := countId } with
               udp := s.udp ++ (s.hosts n).sends t n item ds draws }
  | .internalrecv n datagram =>
    if (n, datagram) ∈ s.udp then
      let received := s.setHost n { s.hosts n with bufRcv := (recvfrom (s.hosts n).bufRcv datagram).1 }
      match linkRecv (s.hosts n).bufRcv datagram with
      | .error _ => none
      | .ok none => some received
      | .ok (some f) => received.netRecv n f
    else none
  | .internalhandleroute n param =>
    if param ∈ (s.hosts n).routeThreads then
      match routereceived param with
      | .error _ => none
      | .ok msg =>
        ((s.hosts n).router.internalhandleroute msg).map fun router =>
          s.setHost n { s.hosts n with router := router, routeThreads := (s.hosts n).routeThreads.erase param }
    else none
  | .enableRoute n host => some (s.setHost n { s.hosts n with router := (s.hosts n).router.enableRoute host })
  | .disableRoute n host => some (s.setHost n { s.hosts n with router := (s.hosts n).router.disableRoute host })

end NetworkLayers
