import NetworkLayers.Net.Frag
import NetworkLayers.Net.Routes

/-!
# Sending and forwarding (net_layer.c)

What goes into the send queue (`net_send`, `net_resend`), what the sending thread makes of an item of the queue
(`internalsend`), and what the receiving thread does with a datagram for another host (`internalrecv`).
-/

namespace NetworkLayers

/-- `wait_list_item_t`, an item of the send queue. -/
structure WaitListItem where
  dest : Nat
  src : Nat
  data : List Byte
  offset : Nat
  ttl : Nat
  size : Nat
  protocol : Nat
  id : Nat
  firstDestLink : Nat
  deriving DecidableEq, Repr

/-- `net_send`: the item queued for data of the host itself, when the destination can be reached. A route message, protocol 0,
goes to a neighbour and is not looked up. The item's `id` is the one of the shared `wait_item`, which nothing sets. -/
def Router.netSend (r : Router) (dest : Nat) (data : List Byte) (size protocol : Nat) : Option WaitListItem :=
  let node := if protocol = 0 then dest else r.hostreachable dest
  if node ≠ 0 then
    some { dest := dest, src := r.num, data := data, offset := 0, ttl := ttlInit, size := size, protocol := protocol,
           id := 0, firstDestLink := node }
  else none

/-- The item `net_resend` queues for a datagram that goes on to the neighbour `node`. -/
def resendItem (node : Nat) (d : Datagram) : WaitListItem :=
  { dest := d.dest, src := d.src, data := d.data, offset := d.frag, ttl := d.ttl, size := d.size, protocol := d.protocol,
    id := d.id, firstDestLink := node }

/-- `net_resend`: the item queued for a datagram of another host, when its destination can be reached. -/
def Router.netResend (r : Router) (d : Datagram) : Option WaitListItem :=
  let node := r.hostreachable d.dest
  if node ≠ 0 then some (resendItem node d) else none

/-- What `internalrecv` makes of a datagram for another host before it hands it to `net_resend`: protocol 2, one less of `ttl`. -/
def forwarded (d : Datagram) : Datagram := { d with protocol := 2, ttl := u8 (d.ttl + 255) }

/-- The argument `mtu` of `fragpack` and `fragpack2`: an `int` cut to 16 bits. -/
def mtuArg (mtu : Int) : Nat := (mtu % 65536).toNat

/-- The datagram `internalsend` fills in for a piece of an item, without the checksum over its bytes on the wire. -/
def WaitListItem.piece (item : WaitListItem) (id size frag : Nat) (data : List Byte) : Datagram :=
  { size := size, id := id, frag := frag, protocol := item.protocol, ttl := item.ttl, dest := item.dest, src := item.src,
    data := data.take size }

/-- The datagrams `internalsend` makes of an item from what the fragmentation returned: the item whole after a 0, else the
fragments. -/
def WaitListItem.pieces (item : WaitListItem) (id : Nat) (r : Nat × List Datagram) : List Datagram :=
  if r.1 = 0 then [item.piece id item.size item.offset item.data]
  else r.2.map fun f => item.piece id f.size f.frag f.data

/-- One round of `internalsend` on an item, for a link of the given MTU: the datagrams handed to the link layer and the next
`count_id`. `none` when the fragmentation never returns. -/
def internalsend (mtu : Int) (countId : Nat) (item : WaitListItem) : Option (List Datagram × Nat) :=
  if item.protocol = 1 ∨ item.protocol = 0 then
    (fragpack item.data item.size (mtuArg mtu) item.offset).map fun r => (item.pieces countId r, u16 (countId + 1))
  else if item.protocol = 2 then
    (fragpack2 item.data item.size (mtuArg mtu) item.offset).map fun r => (item.pieces item.id r, countId)
  else some ([], countId)

/-! ## A path -/

/-- A link that a packet crosses: the neighbour at its end, its MTU and what the sending thread of the node before it holds in
`count_id`. -/
structure Hop where
  node : Nat
  mtu : Nat
  countId : Nat
  deriving DecidableEq, Repr

/-- What a node puts on the link of a hop for a datagram of another host: `internalrecv` forwards it, `net_resend` queues it and
`internalsend` cuts it. -/
def Hop.forward (h : Hop) (d : Datagram) : Option (List Datagram) :=
  (internalsend h.mtu h.countId (resendItem h.node (forwarded d))).map Prod.fst

/-- The datagrams on the link of a hop, when the ones given arrive in front of it one after the other. -/
def Hop.cross (h : Hop) : List Datagram → Option (List Datagram)
  | [] => some []
  | d :: ds => (h.forward d).bind fun l => (h.cross ds).map (l ++ ·)

/-- The datagrams on the last link, when the ones given arrive in front of the first of the hops. -/
def crossHops : List Hop → List Datagram → Option (List Datagram)
  | [], ds => some ds
  | h :: hs, ds => (h.cross ds).bind (crossHops hs)

/-- The datagrams on the last link of a path for an item of the host itself: the first hop is the one the host sends on. -/
def sendAlong (item : WaitListItem) (first : Hop) (hops : List Hop) : Option (List Datagram) :=
  (internalsend first.mtu first.countId item).bind fun r => crossHops hops r.1

end NetworkLayers
