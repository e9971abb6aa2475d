import NetworkLayers.Net.Wire
import NetworkLayers.Transport.Lists

/-!
# Segments in memory (transport_layer/transport_layer.c)

`buildsendsegment` writes a segment as the network layer sends a datagram, but the size of its data is not among the fields:
`buildrecvsegment` takes it from the size of the packet that `getpack` reports.
-/

namespace NetworkLayers

open Bytes

/-- `segment_t`, its flags any `uint8_t` and its checksum as it is stored. -/
structure RawSegment where
  src : Nat
  dest : Nat
  seqNum : Nat
  ackNum : Nat
  flags : Nat
  windowSize : Nat
  data : List Byte
  checksum : Nat := 0
  deriving DecidableEq, Repr

/-- The number that stands for the flags of a segment. -/
def Flags.code : Flags → Nat
  | .dados => 0
  | .sync => 1
  | .syncAck => 2
  | .ack => 3
  | .fin => 4

/-- A segment as it is stored. -/
def Segment.raw (s : Segment) : RawSegment :=
  { src := s.src, dest := s.dest, seqNum := s.seqNum, ackNum := s.ackNum, flags := s.flags.code, windowSize := s.windowSize,
    data := s.data }

/-- The fields in front of the data, each with its size. -/
def RawSegment.header (s : RawSegment) : List (Nat × Nat) :=
  [(2, s.src), (2, s.dest), (4, s.seqNum), (4, s.ackNum), (1, s.flags), (2, s.windowSize)]

/-- The bytes of a segment with `size` bytes of data, up to the checksum. Nothing is copied when `size` is 0. -/
def RawSegment.body (s : RawSegment) (size : Nat) : List Byte :=
  encode s.header ++ if size ≠ 0 then s.data.take size else []

/-- `buildsendsegment`. -/
def buildsendsegment (s : RawSegment) (size : Nat) : List Byte :=
  s.body size ++ leBytes checksumSize (checksum (s.body size) (u64 (15 + size)))

/-- `buildrecvsegment`. A packet that is no larger than the header has no data, and the checksum is read behind the fields. -/
def buildrecvsegment (buf : List Byte) (size : Nat) : Except Fault RawSegment := do
  let src ← numAt buf 0 2
  let dest ← numAt buf 2 2
  let seqNum ← numAt buf 4 4
  let ackNum ← numAt buf 8 4
  let flags ← numAt buf 12 1
  let windowSize ← numAt buf 13 2
  let data ← (if transportHeaderSize < size then bytesAt buf 15 (size - transportHeaderSize) else .ok [])
  let checksum ← numAt buf (15 + data.length) checksumSize
  return { src := src, dest := dest, seqNum := seqNum, ackNum := ackNum, flags := flags, windowSize := windowSize, data := data,
           checksum := checksum }

/-- What `internalrecv` makes of a packet: the segment and `rcv_checksum`, which is 0 when it is accepted. -/
def rcvSegment (data : List Byte) (size : Nat) : Except Fault (RawSegment × Nat) := do
  let newSeg ← buildrecvsegment data size
  let sum ← checksumOf data (subSize size checksumSize)
  return (newSeg, u16 (sum + (65536 - newSeg.checksum)))

end NetworkLayers
