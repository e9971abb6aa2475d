import NetworkLayers.Config.Tables
import NetworkLayers.Lib.Transition

/-!
# Switching links from the menu (application_layer.c)

Cases 11 and 12 of the menu: `disable_route` or `enable_route` with the number of the other host, and then `config_link` with both
numbers. The neighbours, the routes and the MTUs are written by different functions.
-/

namespace NetworkLayers

/-- What the menu does with the link to a host. -/
inductive LinkOp where
  | disable (host : HostIndex)
  | enable (host : HostIndex) (mtu : Int)
  deriving DecidableEq, Repr

/-- The other host. -/
def LinkOp.host : LinkOp → HostIndex
  | .disable host | .enable host _ => host

/-- The MTU the link is to have, -1 for none. -/
def LinkOp.mtu : LinkOp → Int
  | .disable _ => -1
  | .enable _ mtu => mtu

/-- The host is another one, and an MTU is positive. -/
def LinkOp.Valid (n : HostIndex) : LinkOp → Prop
  | .disable host => host ≠ n
  | .enable host mtu => host ≠ n ∧ 0 < mtu

instance (n : HostIndex) : ∀ op, Decidable (LinkOp.Valid n op)
  | .disable host => inferInstanceAs (Decidable (host ≠ n))
  | .enable host mtu => inferInstanceAs (Decidable (host ≠ n ∧ 0 < mtu))

/-- What a node keeps of its links. What properties speak about and the code does not store: the MTU last given for each host named so
far. -/
structure LinkMenu where
  links : Links
  router : Router
  given : HostIndex → Option Int

/-- The node `n` when the program has started, with the links its configuration gave it. -/
def LinkMenu.init (n : HostIndex) (links : Links) : LinkMenu :=
  { links := links, router := Router.init (hostNum n) (links n), given := fun _ => none }

/-- `disable_route` or `enable_route`. -/
def LinkOp.switchRoute (r : Router) : LinkOp → Router
  | .disable host => r.disableRoute host
  | .enable host _ => r.enableRoute host

/-- One choice of the menu at the node `n`. `none` is a write beyond `links`. -/
def LinkMenu.step (n : HostIndex) (s : LinkMenu) (op : LinkOp) : Option LinkMenu :=
  (configLink s.links (hostNum n) (hostNum op.host) op.mtu).map fun links =>
    { links := links, router := op.switchRoute s.router, given := Function.update s.given op.host (some op.mtu) }

/-- The pair of hosts has been named: one is the node, the other was given an MTU. -/
def LinkMenu.Named (n : HostIndex) (s : LinkMenu) (i j : HostIndex) : Prop :=
  (i = n ∧ s.given j ≠ none) ∨ (j = n ∧ s.given i ≠ none)

/-- The tables say the same: a host named so far is a neighbour if and only if there is an MTU for it, which is the one last given for
it, both ways, and of every other pair the MTU is the one of the configuration. -/
structure LinkMenu.Consistent (n : HostIndex) (links : Links) (s : LinkMenu) : Prop where
  neighbors : ∀ h, s.given h ≠ none → (s.router.neighbors h = 1 ↔ getmtu s.links (hostNum n) (hostNum h) ≠ some (-1))
  given : ∀ h m, s.given h = some m →
    getmtu s.links (hostNum n) (hostNum h) = some m ∧ getmtu s.links (hostNum h) (hostNum n) = some m
  others : ∀ i j, ¬s.Named n i j → getmtu s.links (hostNum i) (hostNum j) = getmtu links (hostNum i) (hostNum j)

/-- The condition on a choice: the link has the MTU already, and so has the one at the places that are written, which are the numbers of
the two hosts: the link between the hosts after them. -/
def LinkMenu.AlreadySet (n : HostIndex) (s : LinkMenu) (op : LinkOp) : Prop :=
  getmtu s.links (hostNum n) (hostNum op.host) = some op.mtu ∧ getmtu s.links (hostNum op.host) (hostNum n) = some op.mtu ∧
    getmtu s.links (hostNum n + 1) (hostNum op.host + 1) = some op.mtu ∧
    getmtu s.links (hostNum op.host + 1) (hostNum n + 1) = some op.mtu

instance (n : HostIndex) (s : LinkMenu) (op : LinkOp) : Decidable (s.AlreadySet n op) :=
  inferInstanceAs (Decidable (_ ∧ _ ∧ _ ∧ _))

end NetworkLayers
