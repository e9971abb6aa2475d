import NetworkLayers.Transport.Session

/-!
# One service point

A service point among any number of others: whoever they are, the packets that reach it can be anything. `internalrecv` hands them
to `recv_thread` one after the other.
-/

namespace NetworkLayers

/-- A step of one service point. -/
def Endpoint.step (here : Addr) (p : Endpoint) (act : PointAction) : Option Endpoint := (p.act here act).map Prod.fst

/-- The point after a packet has been handed to `recv_thread`. A thread that waits for a mutex which nobody frees leaves it as it
is: `recv_thread` itself, or the thread it has started for a SYN or a SYN+ACK. -/
def Endpoint.receive (here : Addr) (p : Endpoint) (x : Packet × Nat) : Endpoint :=
  ((p.recvThread here x.1 x.2).map Prod.fst).getD p

/-- The point after several packets. -/
def Endpoint.receiveAll (here : Addr) (p : Endpoint) (l : List (Packet × Nat)) : Endpoint := l.foldl (Endpoint.receive here) p

/-- The other end of the point's connection: `dest` and `dest_sp`. -/
def ServicePoint.peer (sp : ServicePoint) : Addr := ⟨sp.dest, sp.destSp⟩

/-- Where a packet says it comes from: the source of the datagram and the `src` of the segment. -/
def Packet.source (pkt : Packet) : Addr := ⟨pkt.src, pkt.segment.src⟩

/-- The packet as it would come from somewhere else. -/
def Packet.setSource (pkt : Packet) (a : Addr) : Packet :=
  { pkt with src := a.node, segment := { pkt.segment with src := a.point } }

/-- What a service point keeps of what it has received on a connection. -/
structure ConnState where
  flagCon : FlagCon
  seqNumR : Nat
  segs : List SegLst
  segsAux : List SegLst
  acks : List AckLst
  deriving DecidableEq, Repr

/-- The connection state of a service point. -/
def ServicePoint.conn (sp : ServicePoint) : ConnState :=
  { flagCon := sp.flagCon, seqNumR := sp.seqNumR, segs := sp.segs, segsAux := sp.segsAux, acks := sp.acks }

/-- An entry but for the `src` of its segment. -/
def SegLst.anonymous (e : SegLst) : SegLst := { e with segm := { e.segm with src := 0 } }

/-- A connection state but for the `src` of the segments in it. -/
def ConnState.anonymous (c : ConnState) : ConnState :=
  { c with segs := c.segs.map SegLst.anonymous, segsAux := c.segsAux.map SegLst.anonymous }

end NetworkLayers
