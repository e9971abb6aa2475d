import NetworkLayers.Link.Frame
import NetworkLayers.Lib.Transition

/-!
# The garbler (garbler/garbler.c) and one direction of a link

`sendto_garbled` stands between the link layer and UDP: it loses a frame, overwrites a byte of it, sends it twice or sends it as it
is, in fractions that the user sets with `set_garbler`. Behind it UDP keeps the order of what it does not lose.
-/

namespace NetworkLayers

/-- `GBLR_loss_fraction`, `GBLR_corruption_fraction` and `GBLR_duplication_fraction`. -/
structure Garbler where
  loss : Int
  corruption : Int
  duplication : Int
  deriving DecidableEq, Repr

/-- All defaults are zero. -/
def Garbler.init : Garbler := { loss := 0, corruption := 0, duplication := 0 }

/-- `set_garbler`: the fractions afterwards and what it returns, 1 or the number of the check that failed. -/
def Garbler.setGarbler (g : Garbler) (l c d : Int) : Garbler × Int :=
  if l < 0 ∨ 100 < l then (g, -1)
  else if c < 0 ∨ 100 < c then (g, -2)
  else if d < 0 ∨ 100 < d then (g, -3)
  else if 100 < l + c + d then (g, -4)
  else ({ loss := l, corruption := c, duplication := d }, 1)

/-- `config_garbler` (link.c), as `application_layer_init` calls it. -/
def Garbler.configGarbler (g : Garbler) (l c d : Int) : Garbler := (g.setGarbler l c d).1

/-- The most bytes that a datagram of UDP holds. -/
def maxUdpSize : Nat := 65507

/-- `sendto`: what UDP takes. -/
def sendto (msg : List Byte) : List (List Byte) := if msg.length ≤ maxUdpSize then [msg] else []

/-- `sendto_garbled`: the datagrams UDP takes. `rnd` is what `rand` returns the first time, and `rnd'` what it returns when it is
called again for the place and the value of the byte. -/
def Garbler.sendtoGarbled (g : Garbler) (msg : List Byte) (rnd rnd' : Nat) : List (List Byte) :=
  let randomvalue : Int := rnd % 100
  if randomvalue < g.loss then []
  else if randomvalue < g.loss + g.corruption then
    sendto (garbled msg (rnd' % msg.length) (UInt8.ofNat (rnd' % 256)))
  else if randomvalue < g.loss + g.corruption + g.duplication then sendto msg ++ sendto msg
  else sendto msg

/-! ## One direction of a link -/

/-- The garbler of the host that sends, the datagrams on their way, and the buffer of the host that receives. The rest is not known
to the hosts: the data that `link_send` has accepted, and the data of the frames handed to the network layer. -/
structure LinkStream where
  garbler : Garbler
  udp : List (List Byte)
  bufRcv : List Byte
  sent : List (List Byte)
  received : List (List Byte)
  deriving DecidableEq, Repr

/-- What happens next: the user sets the fractions, `link_send` is called and `internalsend` sends what it accepts, UDP loses a
datagram, or `internalrecv` takes one. -/
inductive LinkAction where
  | configGarbler (l c d : Int)
  | linkSend (data : List Byte) (rnd rnd' : Nat)
  | lose (i : Nat)
  | internalrecv
  deriving DecidableEq, Repr

/-- Nothing has been sent; `buf_rcv` is as `malloc` left it. -/
def LinkStream.init (bufRcv : List Byte) : LinkStream :=
  { garbler := Garbler.init, udp := [], bufRcv := bufRcv, sent := [], received := [] }

/-- One step of the link from `a` to `b`. An access beyond a buffer is `none`. -/
def LinkStream.step (t : Topology) (a b : HostIndex) (s : LinkStream) : LinkAction → Option LinkStream
  | .configGarbler l c d => some { s with garbler := s.garbler.configGarbler l c d }
  | .linkSend data rnd rnd' =>
    if linkSend (t.links a b) data.length then
      some { s with
        udp := s.udp ++ s.garbler.sendtoGarbled (buildsendframe (sendFrame (hostNum b) data)) rnd rnd'
        sent := s.sent ++ [data] }
    else some s
  | .lose i => if i < s.udp.length then some { s with udp := s.udp.eraseIdx i } else none
  | .internalrecv =>
    match s.udp with
    | [] => none
    | datagram :: udp =>
      match linkRecv s.bufRcv datagram with
      | .error _ => none
      | .ok f =>
        some { s with
          udp := udp
          bufRcv := (recvfrom s.bufRcv datagram).1
          received := s.received ++ (f.map LinkFrame.data).toList }

end NetworkLayers
