import NetworkLayers.Lemmas.Connection
import NetworkLayers.Lemmas.NoWrap
import NetworkLayers.Theorems.LinkMenu

/-!
# Two service points over all that is below them

To the two points of a connection, the routing, the queues, the frames, the garblers and UDP are a network that loses, repeats and
reorders their packets and does nothing else to them, where no link cuts a packet. What one of them reads is the start of what the
other was given to send.
-/

namespace NetworkLayers

open Transition

namespace ConnectionAux

variable {t : Topology} {e : Ends} {s s' : Connection} {x : Side} {q : Nat}

theorem noClose_of_matches {a : ConnectionAction} (hopen : a.KeepsOpen) {m : Side × PointAction} (h : Matches a m)
    (session : Session) : NoClose session m := by
  cases a with
  | point x act =>
    obtain rfl := h
    rintro rfl
    exact hopen
  | recvThread x rnd | syncThread x i rnd =>
    obtain ⟨pkt, rfl⟩ := h
    exact fun hact => by cases hact
  | internalrecv n | below a => exact h.elim

/-- What holds along a run from an established connection that is not closed. -/
structure Streams (t : Topology) (e : Ends) (x : Side) (q : Nat) (s : Connection) : Prop where
  tracks : Tracks t e s
  opened : NoWrapAux.Opened e.places x q s.session
  inv : s.session.NoWrap x q → s.session.NoneFreed e.places x → NoWrapAux.Inv e.places x q s.session

theorem streams_step (hlinks : FitsLinks t (maxSegmentSize + transportHeaderSize)) (h : Streams t e x q s) (hq : q < maxSeqNum)
    {a : ConnectionAction} (hok : a.Fits t e) (hopen : a.KeepsOpen) (hs : s.step t e a = some s') : Streams t e x q s' := by
  obtain ⟨htracks, hsame | ⟨m, hm, hstep⟩⟩ := tracks_step hlinks h.tracks hok hs
  · exact ⟨htracks, hsame ▸ h.opened, hsame ▸ h.inv⟩
  · have hclose := noClose_of_matches hopen hm s.session
    refine ⟨htracks, NoWrapAux.opened_step h.opened hq hclose hstep, fun hwrap hread => ?_⟩
    exact NoWrapAux.inv_step (h.inv (NoWrapAux.NoWrap.before hwrap hstep) (NoWrapAux.NoneFreed.before hread hstep)) hwrap hread
      hclose hstep

theorem streams_reach {bufRcv : HostIndex → List Byte} (hlinks : FitsLinks t (maxSegmentSize + transportHeaderSize))
    (hbuf : ∀ n, (bufRcv n).length = t.getMaxMtu.toNat) {s₀ : Connection}
    (h0 : Reach (Connection.step t e) (fun _ a => a.Fits t e) (Connection.init t bufRcv) s₀)
    (hest : s₀.session.Established e.places x)
    (h : Reach (Connection.step t e) (fun _ a => a.Fits t e ∧ a.KeepsOpen) s₀ s) :
    Streams t e x (s₀.point x).sp.seqNumS s := by
  have htracks : Tracks t e s₀ := h0.invariant (tracks_init hbuf) fun _ _ _ ht hok hs => (tracks_step hlinks ht hok hs).1
  have hstart : Streams t e x (s₀.point x).sp.seqNumS s₀ :=
    ⟨htracks, NoWrapAux.opened_established hest, fun _ _ => NoWrapAux.inv_established hest⟩
  exact h.invariant hstart fun _ _ _ hi hok hs => streams_step hlinks hi hest.seqNum.2 hok.1 hok.2 hs

end ConnectionAux

/-- Along every run of the hosts from a connection that has just been established and is not closed, through whatever garblers, links
that are switched and routes that change, where every link takes the largest segment in one piece: while fewer than `MAX_SEQ_NUM` - 1
bytes have been accepted, what the second point has read or can read is the start of what the first has accepted. While the numbers do
not wrap and no ACK for the first point has a number read from a freed segment, no thread stops before its segment is at the other
point. -/
theorem connection_keeps_stream {t : Topology} {e : Ends} {bufRcv : HostIndex → List Byte}
    (hlinks : FitsLinks t (maxSegmentSize + transportHeaderSize)) (hbuf : ∀ n, (bufRcv n).length = t.getMaxMtu.toNat)
    {x : Side} {s₀ s : Connection} (h0 : Reach (Connection.step t e) (fun _ a => a.Fits t e) (Connection.init t bufRcv) s₀)
    (hest : s₀.session.Established e.places x)
    (h : Reach (Connection.step t e) (fun _ a => a.Fits t e ∧ a.KeepsOpen) s₀ s) :
    ((s.point x).history.accepted.length + 1 < maxSeqNum →
      (s.point x.other).history.returned ++ segBytes (s.point x.other).sp.segs <+: (s.point x).history.accepted) ∧
      (s.session.NoWrap x (s₀.point x).sp.seqNumS → s.session.NoneFreed e.places x →
        ∀ k ∈ (s.point x).segSends, k.pack.segment.flags = .dados → k.stopped = true → s.session.AtReceiver x k.pack) := by
  have hstreams := ConnectionAux.streams_reach hlinks hbuf h0 hest h
  refine ⟨hstreams.opened.start_of, fun hwrap hread k hk hdados hstopped => ?_⟩
  have hinv := hstreams.inv hwrap hread
  have hsum := NoWrapAux.packSize_lt hinv hwrap
  obtain ⟨c, hs, d, u, hassembles, hacked, -⟩ := hinv.reliable.delivering hsum
  exact ReliableAux.atReceiver_of_hasArrived hest.seqNum.2 hinv.reliable.sends.numbered hsum hassembles (mem_stream_of_mem hk hdados)
    (hacked.stopped k hk hstopped hdados)

namespace ConnectionAux

/-! ## A handshake between two hosts -/

/-- The topology of topology.cnf with its links both ways. -/
def shippedTopology : Topology where
  links := shippedLinks
  symm := by decide
  range := by decide

theorem maxServicePoints_pos : 0 < maxServicePoints := by decide

/-- The first service points of host 1 and host 2. -/
def firstEnds : Ends where
  host x := if x = .a then 0 else 1
  slot _ := ⟨0, maxServicePoints_pos⟩
  distinct h := Nat.zero_ne_one (congrArg (fun x => x.1.val) h)

/-- The state when the buffers are all zeros. -/
def firstInit : Connection := Connection.init shippedTopology fun _ => List.replicate 3000 0

/-- The UDP datagram with a segment from a host to its neighbour. -/
def segmentDatagram (src dest id : Nat) (pkt : Packet) : List Byte :=
  buildsendframe (sendFrame dest (buildsenddatagram
    { size := pkt.bytes.length, id := id, frag := 0, protocol := 1, ttl := ttlInit, dest := dest, src := src, data := pkt.bytes }))

/-- A segment goes from one of the two hosts to the other: `internalsend` of the one, which the garbler does not touch, and
`internalrecv` of each layer of the other, up to `recv_thread`. -/
def carry (x : Side) (id : Nat) (pkt : Packet) : List ConnectionAction :=
  let n := firstEnds.host x
  let m := firstEnds.host x.other
  [.below (.internalsend n [(50, 0)]), .below (.internalrecv m (segmentDatagram (hostNum n) (hostNum m) id pkt)),
    .internalrecv m, .recvThread x.other 0]

/-- A point of host 1 connects to one of host 2. -/
def connectRun : List ConnectionAction :=
  [.below (.start 0), .below (.start 1), .point .a (.connectPoint 2 0 5 10), .point .a (.segSendThread 0)] ++
    carry .a 0 (SessionAux.packet 1 2 .sync 15 0 [115] 0) ++ [.syncThread .b 0 100, .point .b (.segSendThread 0)] ++
    carry .b 0 SessionAux.syncAck ++ [.syncThread .a 0 0]

/-- It sends a byte, the other takes it, and its ACK comes back. -/
def byteRun : List ConnectionAction :=
  [.below (.internalsend 0 [(50, 0)]), .point .a (.sendPoint [7]), .point .a (.sendPut 0), .point .a .sendThread,
    .point .a .sendThread, .point .a (.segSendThread 1)] ++ carry .a 2 (SessionAux.packet 1 2 .dados 16 0 [7] 1) ++
    carry .b 1 (SessionAux.packet 2 1 .ack 0 17 [] 0) ++ [.point .a (.segSendThread 1)]

end ConnectionAux

open ConnectionAux in
/-- A byte has been sent and acknowledged over the links of topology.cnf. -/
theorem byte_over_datagrams :
    ∃ s₀ s, exec (Connection.step shippedTopology firstEnds) firstInit connectRun = some s₀ ∧
      s₀.session.Established firstEnds.places .a ∧
      exec (Connection.step shippedTopology firstEnds) s₀ byteRun = some s ∧
      segBytes (s.point .b).sp.segs = [7] ∧
      (s.point .b).history.returned ++ segBytes (s.point .b).sp.segs <+: (s.point .a).history.accepted ∧
      ∃ k ∈ (s.point .a).segSends, k.stopped = true ∧ s.session.AtReceiver .a k.pack := by
  obtain ⟨s₀, hs₀, hest, s, hs, hbytes, hlen, hwrap, hread, k, hk, hdados, hstopped⟩ :
      ∃ s₀ ∈ exec (Connection.step shippedTopology firstEnds) firstInit connectRun, s₀.session.Established firstEnds.places .a ∧
        ∃ s ∈ exec (Connection.step shippedTopology firstEnds) s₀ byteRun, segBytes (s.point .b).sp.segs = [7] ∧
          (s.point .a).history.accepted.length + 1 < maxSeqNum ∧ s.session.NoWrap .a (s₀.point .a).sp.seqNumS ∧
          s.session.NoneFreed firstEnds.places .a ∧ ∃ k ∈ (s.point .a).segSends, k.pack.segment.flags = .dados ∧ k.stopped = true := by
    decide +kernel
  obtain ⟨hbytesStart, hstop⟩ := connection_keeps_stream (by decide +kernel)
    (fun _ => by rw [List.length_replicate]; decide +kernel) (reach_of_exec (along_of_forall (by decide +kernel)) hs₀) hest
    (reach_of_exec (along_of_forall (by decide +kernel)) hs)
  exact ⟨s₀, s, hs₀, hest, hs, hbytes, hbytesStart hlen, k, hk, hstopped, hstop hwrap hread k hk hdados hstopped⟩

end NetworkLayers
