import NetworkLayers.Net.Send
import NetworkLayers.Net.NetList
import NetworkLayers.Lib.Transition

/-!
# The packets of one host to another

A host sends packets to another one over a network that may lose a datagram anywhere on the way and keeps the others in order. The
path of a packet, and so the sizes of its fragments, may differ from one to the next. The packets are sent one after the other: two
calls of `net_send` at a time would share `wait_item`. The destination inserts each datagram that
arrives in its list, and takes a packet out as soon as it is reported complete, as `internalrecv` does.
-/

namespace NetworkLayers

/-- A packet that was sent: the `id` of its datagrams, what it holds, and the datagrams in front of the destination. -/
structure SentPacket where
  id : Nat
  payload : List Byte
  pieces : List Datagram
  deriving DecidableEq, Repr

/-- The source and the destination, the source's `count_id`, the datagrams on the way, each with the place of its packet among those
sent, and the destination's list. The rest is not known to the hosts: the packets sent, the one of which a datagram arrived last,
and what `getpack` has returned. -/
structure PacketStream where
  src : Nat
  dest : Nat
  countId : Nat
  wire : List (Nat × Datagram)
  recv : RecvList
  sent : List SentPacket
  current : Option Nat
  returned : List (List (Option Byte) × Nat)

/-- What happens next. A packet is sent with the routes of the time, over links of these MTUs. -/
inductive StreamAction where
  | netSend (r : Router) (payload : List Byte) (mtu : Nat) (hops : List Hop)
  | lose (i : Nat)
  | arrive

/-- Nothing has been sent. -/
def PacketStream.init (src dest : Nat) : PacketStream :=
  { src := src, dest := dest, countId := 0, wire := [], recv := RecvList.empty, sent := [], current := none, returned := [] }

/-- The packet is sent whose datagrams are `ds` in front of the destination. -/
def PacketStream.send (s : PacketStream) (payload : List Byte) (countId : Nat) (ds : List Datagram) : PacketStream :=
  { s with
    countId := countId
    wire := s.wire ++ ds.map fun d => (s.sent.length, d)
    sent := s.sent ++ [{ id := s.countId, payload := payload, pieces := ds }] }

/-- One step. -/
def PacketStream.step (s : PacketStream) : StreamAction → Option PacketStream
  | .netSend r payload mtu hops =>
    if r.num = s.src ∧ (28 ≤ mtu ∧ mtu ≤ 65535) ∧ ∀ h ∈ hops, 28 ≤ h.mtu ∧ h.mtu ≤ 65535 then
      match r.netSend s.dest payload payload.length 1 with
      | none => some s
      | some item =>
        (internalsend mtu s.countId item).bind fun r => (crossHops hops r.1).map (s.send payload r.2)
    else none
  | .lose i => if i < s.wire.length then some { s with wire := s.wire.eraseIdx i } else none
  | .arrive =>
    match s.wire with
    | [] => none
    | (k, d) :: wire =>
      match insertoffset s.recv d with
      | .error _ => none
      | .ok (recv, false) => some { s with wire := wire, recv := recv, current := some k }
      | .ok (recv, true) =>
        match getpack recv d.id d.src with
        | .error _ => none
        | .ok (recv, data) =>
          some { s with wire := wire, recv := recv, current := some k, returned := s.returned ++ data.toList }

end NetworkLayers
