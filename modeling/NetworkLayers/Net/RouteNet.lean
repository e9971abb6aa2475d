import NetworkLayers.Net.Routes
import NetworkLayers.Lib.Transition

/-!
# The nodes that exchange routes

Every node runs `internalsendroute`, which fills in its neighbours once and then advertises its table to them again and again, and
takes what it receives with `internalhandleroute`. A message that was sent stays on the wire: it may arrive at any time, more than
once, or never.
-/

namespace NetworkLayers

/-- The nodes, which of them have filled in their neighbours, and every message sent, with the node it was sent to. -/
structure RouteNet where
  routers : HostIndex → Router
  started : HostIndex → Bool
  wire : List (HostIndex × RouteTable)

/-- What happens next at a node. -/
inductive RouteAction where
  | start (n : HostIndex)
  | advertise (n neighbor dest : HostIndex)
  | handle (n : HostIndex) (msg : RouteTable)
  deriving DecidableEq, Repr

/-- The nodes when `net_init` has returned at each; `way i j` is the MTU of the link from `i` to `j`, -1 where there is none. -/
def RouteNet.init (way : HostIndex → HostIndex → Int) : RouteNet :=
  { routers := fun i => Router.init (hostNum i) (way i), started := fun _ => false, wire := [] }

/-- The network with another router at a node. -/
def RouteNet.setRouter (s : RouteNet) (n : HostIndex) (r : Router) : RouteNet :=
  { s with routers := Function.update s.routers n r }

/-- One step of a node. -/
def RouteNet.step (s : RouteNet) : RouteAction → Option RouteNet
  | .start n =>
    if s.started n then none
    else some { s.setRouter n (s.routers n).startRoutes with started := Function.update s.started n true }
  | .advertise n neighbor dest =>
    if s.started n = true ∧ (s.routers n).neighbors neighbor = 1 then
      ((s.routers n).advertise dest).map fun msg => { s with wire := (neighbor, msg) :: s.wire }
    else none
  | .handle n msg =>
    if (n, msg) ∈ s.wire then ((s.routers n).internalhandleroute msg).map (s.setRouter n) else none

/-- The cost of reaching `d` at `n`. -/
def RouteNet.cost (s : RouteNet) (n d : HostIndex) : Nat := ((s.routers n).routes d).cost

/-! ## One node -/

/-- A node whose links are enabled and disabled: its router, and whether it has filled in its neighbours. -/
structure RouteNode where
  router : Router
  started : Bool

/-- What happens next at the node. A message may be any: of a host that is a neighbour, was one or never was. -/
inductive RouteEvent where
  | start
  | enableRoute (host : HostIndex)
  | disableRoute (host : HostIndex)
  | handle (msg : RouteTable)
  deriving DecidableEq, Repr

/-- The node `n` when `net_init` has returned. -/
def RouteNode.init (n : HostIndex) (way : HostIndex → Int) : RouteNode :=
  { router := Router.init (hostNum n) way, started := false }

/-- One step of the node. -/
def RouteNode.step (s : RouteNode) : RouteEvent → Option RouteNode
  | .start => if s.started then none else some { router := s.router.startRoutes, started := true }
  | .enableRoute host => some { s with router := s.router.enableRoute host }
  | .disableRoute host => some { s with router := s.router.disableRoute host }
  | .handle msg => (s.router.internalhandleroute msg).map fun r => { s with router := r }

end NetworkLayers
