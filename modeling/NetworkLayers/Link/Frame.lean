import NetworkLayers.Net.Forward
import NetworkLayers.Net.NetList
import NetworkLayers.Lib.Bytes

/-!
# The link layer (link_layer/link.c, project.c)

`link_send` takes data for a linked host, `buildsendframe` writes the frame it goes in, and `internalrecv` takes a frame out of
the UDP datagram that arrives: into a buffer as large as the largest MTU of the topology, from which `getrecvframe` reads it.
-/

namespace NetworkLayers

open Bytes

/-- `LINK_HEADER_SIZE` (link.h): a `size_t` and a `uint16_t`. -/
def linkHeaderSize : Nat := 10

/-- `CHECKSUM_SIZE` (checksum.h): a `uint16_t`. -/
def checksumSize : Nat := 2

/-- `frame_t`. -/
structure LinkFrame where
  dest : Nat
  size : Nat
  data : List Byte
  checksum : Nat
  deriving DecidableEq, Repr

/-! ## The topology (project.c) -/

/-- `links` as the configuration leaves it: -1 where there is no link, and else the MTU, the same both ways. -/
structure Topology where
  links : HostIndex → HostIndex → Int
  symm : ∀ i j, links i j = links j i
  range : ∀ i j, links i j = -1 ∨ 0 ≤ links i j ∧ links i j ≤ 2147483647

/-- The inner loop of `get_max_mtu`, over the links of a host. -/
def Topology.maxOfHost (t : Topology) (i : HostIndex) (max : Int) : Int :=
  (List.finRange maxHosts).foldl (fun max j => if max < t.links i j then t.links i j else max) max

/-- `get_max_mtu`: the largest MTU, 0 without a link. -/
def Topology.getMaxMtu (t : Topology) : Int :=
  (List.finRange maxHosts).foldl (fun max i => t.maxOfHost i max) 0

/-! ## Sending -/

/-- What `link_send` fills `send_frame` with. Its checksum is computed when the frame is built. -/
def sendFrame (dest : Nat) (data : List Byte) : LinkFrame :=
  { dest := dest, size := data.length, data := data, checksum := 0 }

/-- The bytes of a frame up to the checksum. -/
def LinkFrame.body (f : LinkFrame) : List Byte := leBytes 2 f.dest ++ leBytes 8 f.size ++ f.data.take f.size

/-- `buildsendframe`. -/
def buildsendframe (f : LinkFrame) : List Byte :=
  f.body ++ leBytes checksumSize (checksum f.body (u64 (f.size + linkHeaderSize)))

/-! ## Receiving -/

/-- `recvfrom` into `buf_rcv`: as many bytes of the datagram as the buffer holds, in front of what it held there before, and how
many they are. -/
def recvfrom (bufRcv sent : List Byte) : List Byte × Nat :=
  (sent.take bufRcv.length ++ bufRcv.drop sent.length, min sent.length bufRcv.length)

/-- The checksum at the end of the `size` bytes received. -/
def storedChecksum (buf : List Byte) (size : Nat) : Nat := ofLe ((buf.drop (size - checksumSize)).take checksumSize)

/-- `rcv_checksum` of `internalrecv`: the checksum computed less the one stored, as a `uint16_t`. 0 accepts the frame. -/
def rcvChecksum (buf : List Byte) (size : Nat) : Nat :=
  u16 (checksum buf (size - checksumSize) + (65536 - storedChecksum buf size))

/-- `getrecvframe`. `LINK_HEADER_SIZE` is a sum without brackets, so that the `size - LINK_HEADER_SIZE - CHECKSUM_SIZE` bytes
allocated are `size - 8`. -/
def getrecvframe (buf : List Byte) (size : Nat) : Except Fault LinkFrame :=
  if buf.length < linkHeaderSize then .error .outOfBounds
  else
    let recvSize := ofLe ((buf.drop 2).take 8)
    -- `malloc` has no block of the size that the difference wraps to
    if size < 8 ∧ 0 < recvSize then .error .nullDeref
    else if size - 8 < recvSize ∨ buf.length < linkHeaderSize + recvSize then .error .outOfBounds
    else .ok { dest := ofLe (buf.take 2), size := recvSize, data := (buf.drop linkHeaderSize).take recvSize,
               checksum := storedChecksum buf size }

/-- `internalrecv` on one datagram: the frame for the network layer, or `none` when the checksum is wrong and the datagram is
dropped. -/
def linkRecv (bufRcv sent : List Byte) : Except Fault (Option LinkFrame) :=
  let r := recvfrom bufRcv sent
  if r.2 < checksumSize then .error .outOfBounds
  else if rcvChecksum r.1 r.2 = 0 then (getrecvframe r.1 r.2).map some
  else .ok none

/-- The frame with the byte at a place overwritten, as `sendto_garbled` does (garbler/garbler.c). -/
def garbled (frame : List Byte) (errorPos : Nat) (errorValue : Byte) : List Byte := frame.set errorPos errorValue

end NetworkLayers
