import NetworkLayers.Net.Send
import NetworkLayers.Net.RouteNet

/-!
# The nodes that forward datagrams

Each node has its send queue. `internalsend` takes the first item, cuts it for its link and hands the pieces to the link layer;
`internalrecv` queues a datagram for another host again. A frame that was sent stays on its link: it may arrive at any time, more
than once, or never. Beside each item and frame stands the number of links its data has crossed, which the nodes do not know.
-/

namespace NetworkLayers

/-- `MAX_SEND_WAITING` (net_layer.h), the places of the send queue. -/
def maxSendWaiting : Nat := 100

/-- An item of a send queue and the links its data has crossed. -/
structure Queued where
  item : WaitListItem
  links : Nat
  deriving DecidableEq, Repr

/-- A datagram in a frame to the host at a place, and the links its data has crossed, this one included. -/
structure Frame where
  dest : HostIndex
  datagram : Datagram
  links : Nat
  deriving DecidableEq, Repr

/-- The nodes with their routes, send queues and counters of packets, and every frame sent. -/
structure ForwardNet where
  way : HostIndex → HostIndex → Int
  routes : RouteNet
  queues : HostIndex → List Queued
  countIds : HostIndex → Nat
  frames : List Frame

/-- What happens next at a node. -/
inductive ForwardAction where
  | route (a : RouteAction)
  | disableRoute (n host : HostIndex)
  | enableRoute (n host : HostIndex)
  | netSend (n : HostIndex) (dest : Nat) (data : List Byte) (protocol : Nat)
  | internalsend (n : HostIndex)
  | internalrecv (f : Frame)
  deriving DecidableEq, Repr

/-- The nodes when `net_init` has returned at each. -/
def ForwardNet.init (way : HostIndex → HostIndex → Int) : ForwardNet :=
  { way := way, routes := RouteNet.init way, queues := fun _ => [], countIds := fun _ => 0, frames := [] }

/-- `getmtu`: the MTU of the link from a node to a host, -1 where there is none. -/
def ForwardNet.getmtu (s : ForwardNet) (n : HostIndex) (host : Nat) : Int :=
  match hostIndex host with
  | some j => s.way n j
  | none => -1

/-- `link_send` accepts a frame of so many bytes: the host is linked, and not `mtu <= size`, compared as a `size_t`. -/
def linkSend (mtu : Int) (size : Nat) : Bool := mtu ≠ -1 ∧ ¬(mtu % 18446744073709551616).toNat ≤ size

/-- `wait_list_insert`: a new item behind the queue, blocked while the queue is full. -/
def ForwardNet.insert (s : ForwardNet) (n : HostIndex) (q : Queued) : Option ForwardNet :=
  if (s.queues n).length < maxSendWaiting then
    some { s with queues := Function.update s.queues n (s.queues n ++ [q]) }
  else none

/-- The network with another router at a node. -/
def ForwardNet.setRouter (s : ForwardNet) (n : HostIndex) (r : Router) : ForwardNet :=
  { s with routes := s.routes.setRouter n r }

/-- The frames the link layer sends for the datagrams of an item. -/
def ForwardNet.framesOf (s : ForwardNet) (n : HostIndex) (q : Queued) (ds : List Datagram) : List Frame :=
  match hostIndex q.item.firstDestLink with
  | none => []
  | some dest =>
    (ds.filter fun d => linkSend (s.way n dest) (d.size + netHeaderSize)).map fun d =>
      { dest := dest, datagram := d, links := q.links + 1 }

/-- One step of a node. A datagram for the host itself is delivered there and goes no further. -/
def ForwardNet.step (s : ForwardNet) : ForwardAction → Option ForwardNet
  | .route a => (s.routes.step a).map fun routes => { s with routes := routes }
  | .disableRoute n host => some (s.setRouter n ((s.routes.routers n).disableRoute host))
  | .enableRoute n host => some (s.setRouter n ((s.routes.routers n).enableRoute host))
  | .netSend n dest data protocol =>
    match (s.routes.routers n).netSend dest data data.length protocol with
    | none => some s
    | some item => s.insert n { item := item, links := 0 }
  | .internalsend n =>
    match s.queues n with
    | [] => none
    | q :: queue =>
      (internalsend (s.getmtu n q.item.firstDestLink) (s.countIds n) q.item).map fun r =>
        { s with queues := Function.update s.queues n queue, countIds := Function.update s.countIds n r.2,
                 frames := s.frames ++ s.framesOf n q r.1 }
  | .internalrecv f =>
    if f ∈ s.frames then
      if f.datagram.dest = (s.routes.routers f.dest).num then some s
      else
        match (s.routes.routers f.dest).netResend (forwarded f.datagram) with
        | none => some s
        | some item => s.insert f.dest { item := item, links := f.links }
    else none

end NetworkLayers
