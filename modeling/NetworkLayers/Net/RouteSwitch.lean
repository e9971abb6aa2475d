import NetworkLayers.Net.RouteNet

/-!
# Nodes whose links are enabled and disabled

The nodes of `Net.RouteNet` while their users switch links. `internalsendroute` finds a neighbour, and advertises to it one host after
the other, also when the link to it is disabled in between. As there, a message that was sent stays on the wire.
-/

namespace NetworkLayers

/-- The nodes and the messages, with the neighbour whose turn it is in `internalsendroute` at each node. What properties speak about
and the nodes do not store: for each message of the wire, the cost its sender held when it built it. -/
structure SwitchNet where
  net : RouteNet
  current : HostIndex → Option HostIndex
  held : List Nat

/-- What happens next at a node. -/
inductive SwitchAction where
  | start (n : HostIndex)
  | neighbor (n current : HostIndex)
  | advertise (n numberhost : HostIndex)
  | handle (n : HostIndex) (msg : RouteTable)
  | enableRoute (n host : HostIndex)
  | disableRoute (n host : HostIndex)
  deriving DecidableEq, Repr

/-- The nodes when `net_init` has returned at each. -/
def SwitchNet.init (way : HostIndex → HostIndex → Int) : SwitchNet :=
  { net := RouteNet.init way, current := fun _ => none, held := [] }

/-- What `n` knows of `d`. -/
def SwitchNet.route (s : SwitchNet) (n d : HostIndex) : RouteTable := (s.net.routers n).routes d

/-- One step of a node. -/
def SwitchNet.step (s : SwitchNet) : SwitchAction → Option SwitchNet
  | .start n => (s.net.step (.start n)).map fun net => { s with net := net }
  | .neighbor n current =>
    if s.net.started n = true ∧ (s.net.routers n).neighbors current = 1 then
      some { s with current := Function.update s.current n (some current) }
    else none
  | .advertise n numberhost =>
    match s.current n with
    | none => none
    | some current =>
      ((s.net.routers n).advertise numberhost).map fun msg =>
        { s with net := { s.net with wire := (current, msg) :: s.net.wire }, held := (s.route n numberhost).cost :: s.held }
  | .handle n msg => (s.net.step (.handle n msg)).map fun net => { s with net := net }
  | .enableRoute n host => some { s with net := s.net.setRouter n ((s.net.routers n).enableRoute host) }
  | .disableRoute n host => some { s with net := s.net.setRouter n ((s.net.routers n).disableRoute host) }

/-- Cost and gateway of an entry say the same about whether there is a route. -/
def RouteTable.Consistent (e : RouteTable) : Prop := e.cost = infiniteRoute ↔ e.gateway = infiniteRoute

instance (e : RouteTable) : Decidable e.Consistent := inferInstanceAs (Decidable (_ ↔ _))

/-- Every entry of every table is consistent, and every message on the wire carries a cost one above the one its sender held, and
never 0. -/
structure SwitchNet.EncodingsAgree (s : SwitchNet) : Prop where
  tables : ∀ n d, (s.route n d).Consistent
  inFlight : List.Forall₂ (fun m held => m.2.cost = held + 1 ∧ m.2.cost ≠ infiniteRoute) s.net.wire s.held

/-- The largest value of the 8-bit cost. -/
def maxCost : Nat := 255

/-- The condition on a step: no route is advertised whose cost cannot be increased any more. -/
def SwitchNet.BelowMaxCost (s : SwitchNet) : SwitchAction → Prop
  | .advertise n numberhost => (s.route n numberhost).cost ≠ maxCost
  | _ => True

instance (s : SwitchNet) : ∀ a, Decidable (s.BelowMaxCost a)
  | .advertise n numberhost => inferInstanceAs (Decidable ((s.route n numberhost).cost ≠ maxCost))
  | .start _ | .neighbor .. | .handle .. | .enableRoute .. | .disableRoute .. => inferInstanceAs (Decidable True)

end NetworkLayers
