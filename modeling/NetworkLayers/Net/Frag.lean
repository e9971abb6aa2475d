import NetworkLayers.Common

/-!
# Datagrams and their fragmentation (net_layer.h, frag/frag.c)

The field `frag` of a datagram packs the more-fragments bit above a 15-bit offset. `fragpack` splits what the host itself sends,
`fragpack2` what it forwards, where the last piece keeps the more-fragments bit of the datagram it is cut from.
-/

namespace NetworkLayers

/-- `datagram_t`. A field the source leaves unset is 0. -/
structure Datagram where
  size : Nat
  id : Nat := 0
  frag : Nat
  protocol : Nat := 0
  ttl : Nat := 0
  dest : Nat := 0
  src : Nat := 0
  data : List Byte
  checksum : Nat := 0
  deriving DecidableEq, Repr

/-- `OFFSET_FIELD_LENGTH`. -/
def offsetFieldLength : Nat := 15

/-- `MORE_FRAGS`. -/
def moreFrags : Nat := 1 <<< offsetFieldLength

/-- The low 15 bits: `x & OFFSET_FIELD_MASK` for a 16-bit `x`. -/
def offsetField (x : Nat) : Nat := x % 32768

/-- The offset of a datagram in its packet. -/
def Datagram.offset (d : Datagram) : Nat := offsetField d.frag

/-- The more-fragments bit, `datagram->frag >> OFFSET_FIELD_LENGTH`. -/
def Datagram.more (d : Datagram) : Nat := d.frag >>> offsetFieldLength

/-- `addheader`: the datagram that holds a piece, its field `frag` cut to 16 bits. -/
def addheader (data : List Byte) (size flagOffset : Nat) : Datagram :=
  { size := size, frag := u16 flagOffset, data := data.take size, checksum := checksum (data.take size) size }

/-- The loop of `fragpack` and `fragpack2`: pieces of `fragSize` bytes from `off` on, each with the more-fragments bit, and the
rest with `last` in its place. `none` when the loop has not come to the last piece after `fuel` rounds. -/
def fragLoop (data : List Byte) (size fragSize packOff last : Nat) : Nat → Nat → Option (List Datagram)
  | 0, _ => none
  | fuel + 1, off =>
    if subSize size off ≤ fragSize then
      some [addheader ((data.drop off).take (subSize size off)) (subSize size off) ((off + packOff) ||| last)]
    else
      (fragLoop data size fragSize packOff last fuel (u64 (off + fragSize))).map
        (addheader ((data.drop off).take fragSize) fragSize ((off + packOff) ||| moreFrags) :: ·)

/-- The size of the pieces for an MTU: what the header leaves of it, rounded down to a multiple of 8. -/
def fragSize (mtu : Nat) : Nat := subSize mtu netHeaderSize - subSize mtu netHeaderSize % 8

/-- The body `fragpack` and `fragpack2` share: return 0 and the whole when it fits the MTU, else 1 and the pieces, the last of
which carries the bit `last`. The rounds are bounded by the size: each takes at least one byte, unless the pieces are empty and
the loop never ends. -/
def fragpackWith (last : Nat) (data : List Byte) (size mtu offset : Nat) : Option (Nat × List Datagram) :=
  if u64 (size + netHeaderSize) ≤ mtu then
    some (0, [addheader data size offset])
  else
    (fragLoop data size (fragSize mtu) (offsetField offset) last (size + 1) 0).map (1, ·)

/-- `fragpack`: the last piece has no more fragments behind it. `none` when it never returns. -/
def fragpack (data : List Byte) (size mtu offset : Nat) : Option (Nat × List Datagram) :=
  fragpackWith 0 data size mtu offset

/-- `fragpack2`: the last piece carries the more-fragments bit that was given. `none` when it never returns. -/
def fragpack2 (data : List Byte) (size mtu offset : Nat) : Option (Nat × List Datagram) :=
  fragpackWith (if offset >>> offsetFieldLength = 1 then moreFrags else 0) data size mtu offset

end NetworkLayers
