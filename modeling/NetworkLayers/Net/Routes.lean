import NetworkLayers.Common

/-!
# Routing (net_layer.c)

The table of a node: for each host the cost of reaching it (0 when it cannot be reached) and the gateway its traffic goes through,
the node's own number for a host that is linked to it. Hosts are numbered from 1, the arrays from 0.
-/

namespace NetworkLayers

/-- A place of an array of `MAX_HOSTS`. -/
abbrev HostIndex := Fin maxHosts

instance : NeZero maxHosts := ⟨by decide⟩

/-- The number of the host at a place: `current + 1`. -/
def hostNum (i : HostIndex) : Nat := i.val + 1

/-- The place of a host's number, `host - 1`, when it is within the arrays. -/
def hostIndex (host : Nat) : Option HostIndex :=
  if h : 1 ≤ host ∧ host ≤ maxHosts then some ⟨host - 1, by omega⟩ else none

@[simp] theorem hostIndex_hostNum (i : HostIndex) : hostIndex (hostNum i) = some i := by
  have : 1 ≤ i.val + 1 ∧ i.val + 1 ≤ maxHosts := ⟨by omega, i.isLt⟩
  simp [hostIndex, hostNum, this]

theorem hostNum_injective {i j : HostIndex} (h : hostNum i = hostNum j) : i = j := by
  simp only [hostNum] at h
  exact Fin.ext (by omega)

theorem hostNum_pos (i : HostIndex) : 0 < hostNum i := Nat.succ_pos _

/-- `routetable_t`: an entry of the table, and the message that advertises one. -/
structure RouteTable where
  dest : Nat
  cost : Nat
  gateway : Nat
  deriving DecidableEq, Repr

/-- What routing keeps on a node: its number (`num_global`), its neighbours and its table. -/
structure Router where
  num : Nat
  neighbors : HostIndex → Nat
  routes : HostIndex → RouteTable

/-- `neighbors_init`: the hosts with a link, of which `way` holds the MTU. -/
def neighborsInit (way : HostIndex → Int) : HostIndex → Nat := fun i => if way i ≠ -1 then 1 else 0

/-- `fillallroutes`: no host can be reached. -/
def fillallroutes : HostIndex → RouteTable :=
  fun i => { dest := hostNum i, cost := infiniteRoute, gateway := infiniteRoute }

/-- The router of a node when `net_init` returns. -/
def Router.init (num : Nat) (way : HostIndex → Int) : Router :=
  { num := num, neighbors := neighborsInit way, routes := fillallroutes }

/-- Write one entry of the table. -/
def Router.setRoute (r : Router) (i : HostIndex) (cost gateway : Nat) : Router :=
  { r with routes := Function.update r.routes i { r.routes i with cost := cost, gateway := gateway } }

/-- The start of `internalsendroute`: the neighbours and the node itself cost 1, through the node itself. -/
def Router.startRoutes (r : Router) : Router :=
  { r with routes := fun i =>
      if r.neighbors i = 1 ∨ hostNum i = r.num then { r.routes i with gateway := r.num, cost := 1 } else r.routes i }

/-- The message `internalsendroute` sends about a host, when the table reaches it. -/
def Router.advertise (r : Router) (i : HostIndex) : Option RouteTable :=
  if (r.routes i).cost ≠ 0 then
    some { dest := (r.routes i).dest, cost := u8 ((r.routes i).cost + 1), gateway := r.num }
  else none

/-- `internalhandleroute`: take the route received when none is known or it costs less. `none` when the destination is not within
the table. -/
def Router.internalhandleroute (r : Router) (received : RouteTable) : Option Router :=
  (hostIndex received.dest).map fun i =>
    if (r.routes i).cost = infiniteRoute ∨ received.cost < (r.routes i).cost then
      r.setRoute i received.cost received.gateway
    else r

/-- `disable_route`: forget the link to `host` and every route through it. -/
def Router.disableRoute (r : Router) (host : HostIndex) : Router :=
  let r := { r.setRoute host infiniteRoute infiniteRoute with neighbors := Function.update r.neighbors host 0 }
  { r with routes := fun i =>
      if (r.routes i).gateway = hostNum host then { r.routes i with cost := infiniteRoute, gateway := infiniteRoute }
      else r.routes i }

/-- `enable_route`: the host is linked to the node, at cost 1 through itself. -/
def Router.enableRoute (r : Router) (host : HostIndex) : Router :=
  { r.setRoute host 1 (hostNum host) with neighbors := Function.update r.neighbors host 1 }

/-- `hostreachable`: the neighbour through which a host is reached, 0 when there is none. -/
def Router.hostreachable (r : Router) (dest : Nat) : Nat :=
  match hostIndex dest with
  | none => 0
  | some i =>
    if (r.routes i).gateway ≠ infiniteRoute then
      if (r.routes i).gateway = r.num then dest else (r.routes i).gateway
    else 0

end NetworkLayers
