import NetworkLayers.Net.Wire
import NetworkLayers.Transport.Wire
import NetworkLayers.Lib.Transition

/-!
# What a node makes of the bytes that arrive (link_layer/link.c, net_layer/net_layer.c)

The link layer's `internalrecv` hands a frame to the one of the network layer, which takes the datagram out of it, inserts it in
the list and hands a complete packet on. Here the buffer of the link layer ends with the bytes that `recvfrom` returned, so that
an access beyond what was received is one beyond the buffer.
-/

namespace NetworkLayers

open Bytes Transition

/-- `internalrecv` (link.c) on the bytes received and nothing behind them. -/
def linkDecode (recv : List Byte) : Except Fault (Option LinkFrame) := linkRecv recv recv

/-- `internalrecv` (net_layer.c) of the host `num` on a frame: the list afterwards and, when the datagram completes its packet, the
datagram with what `getpack` returns. A datagram for another host is queued again and leaves the list alone. -/
def netInternalrecv (num : Nat) (list : RecvList) (f : LinkFrame) :
    Except Fault (RecvList × Option (Datagram × List (Option Byte) × Nat)) := do
  let (recv, rcvChecksum) ← rcvDatagram f.data f.size
  if rcvChecksum = 0 ∧ recv.dest = num then
    let (list, complete) ← insertoffset list recv
    if complete then
      let (list, pack) ← getpack list recv.id recv.src
      return (list, pack.map (recv, ·))
    else return (list, none)
  else return (list, none)

/-- The list after bytes that were received and processed without a fault. -/
def receiveStep (num : Nat) (list : RecvList) (recv : List Byte) : Option RecvList :=
  match linkDecode recv with
  | .error _ => none
  | .ok none => some list
  | .ok (some f) => ((netInternalrecv num list f).toOption).map Prod.fst

/-- The lists a node holds after it has received what it has. -/
def Receives (num : Nat) (list : RecvList) : Prop := Reach (receiveStep num) anyStep RecvList.empty list

/-- Whether a datagram belongs to the transport layer: `case 1` and `case 2` of `internalrecv`. -/
def Datagram.forTransport (d : Datagram) : Prop := d.protocol = 1 ∨ d.protocol = 2

instance (d : Datagram) : Decidable d.forTransport := inferInstanceAs (Decidable (_ ∨ _))

/-! ## The fields as they stand in the bytes -/

/-- The number that stands in `len` bytes, wherever the buffer ends. -/
def numIn (buf : List Byte) (off len : Nat) : Nat := ofLe ((buf.drop off).take len)

/-- The size of its data that a frame declares. -/
def frameSize (recv : List Byte) : Nat := numIn recv 2 8

/-- The data of a frame, of the size that it declares. -/
def frameData (recv : List Byte) : List Byte := (recv.drop linkHeaderSize).take (frameSize recv)

/-- The datagram that stands in the data of a frame. -/
def datagramIn (buf : List Byte) : Datagram :=
  { size := numIn buf 0 8, id := numIn buf 8 2, frag := numIn buf 10 2, protocol := numIn buf 12 1, ttl := numIn buf 13 1,
    dest := numIn buf 14 2, src := numIn buf 16 2, data := (buf.drop 18).take (numIn buf 0 8),
    checksum := numIn buf (18 + numIn buf 0 8) checksumSize }

/-- The checksum over the data of a frame but for the last two bytes, less the one the datagram carries. -/
def datagramChecksum (buf : List Byte) : Nat :=
  u16 (checksum buf (subSize buf.length checksumSize) + (65536 - (datagramIn buf).checksum))

theorem numAt_ok {buf : List Byte} {off len v : Nat} (h : numAt buf off len = .ok v) :
    off + len ≤ buf.length ∧ v = numIn buf off len := by
  rcases Nat.lt_or_ge buf.length (off + len) with hlt | hle
  · rw [numAt_of_lt hlt] at h
    cases h
  · rw [numAt_of_le hle] at h
    cases h
    exact ⟨hle, rfl⟩

/-- What is left of a length less the size of a checksum is within it. -/
theorem subSize_le {n : Nat} (h : checksumSize ≤ n) : subSize n checksumSize ≤ n := by
  have hwrap : n + (18446744073709551616 - u64 checksumSize) = n - checksumSize + 18446744073709551616 := by
    unfold checksumSize u64 at *
    omega
  rw [subSize, hwrap, u64, Nat.add_mod_right]
  exact Nat.le_trans (Nat.mod_le _ _) (Nat.sub_le _ _)

theorem checksumOf_of_le {buf : List Byte} {size : Nat} (h : size ≤ buf.length) :
    checksumOf buf size = .ok (checksum buf size) := if_pos h

/-- A datagram whose declared size leaves room for its checksum is read within the bytes there are. -/
theorem rcvDatagram_of_le {buf : List Byte} (h : netHeaderSize + (datagramIn buf).size ≤ buf.length) :
    rcvDatagram buf buf.length = .ok (datagramIn buf, datagramChecksum buf) := by
  have hroom : 20 + numIn buf 0 8 ≤ buf.length := h
  have hnum : ∀ off len : Nat, off + len ≤ 18 → numAt buf off len = .ok (numIn buf off len) := by
    intro off len hle
    exact numAt_of_le (by omega)
  have hdata : bytesAt buf 18 (numIn buf 0 8) = .ok ((buf.drop 18).take (numIn buf 0 8)) := bytesAt_of_le (by omega)
  have hsum : numAt buf (18 + numIn buf 0 8) checksumSize = .ok (numIn buf (18 + numIn buf 0 8) checksumSize) :=
    numAt_of_le (by rw [checksumSize]; omega)
  have hbuild : buildrecvdatagram buf = .ok (datagramIn buf) := by
    simp only [buildrecvdatagram, hnum 0 8 (by decide), hnum 8 2 (by decide), hnum 10 2 (by decide), hnum 12 1 (by decide),
      hnum 13 1 (by decide), hnum 14 2 (by decide), hnum 16 2 (by decide), hdata, hsum, ok_bind]
    rfl
  have hle : checksumSize ≤ buf.length := by
    rw [checksumSize]
    omega
  rw [rcvDatagram, hbuild, ok_bind, checksumOf_of_le (subSize_le hle), ok_bind]
  rfl

/-- Reading a datagram needs the size it declares and the size of a header. -/
theorem le_of_rcvDatagram {buf : List Byte} {size : Nat} {r : Datagram × Nat} (h : rcvDatagram buf size = .ok r) :
    netHeaderSize + (datagramIn buf).size ≤ buf.length := by
  obtain ⟨recv, hrecv, -⟩ := bind_eq_ok_iff.1 h
  simp only [buildrecvdatagram, bind_eq_ok_iff] at hrecv
  obtain ⟨size', hsize, id, -, frag, -, protocol, -, ttl, -, dest, -, src, -, data, -, c, hsum, -⟩ := hrecv
  obtain ⟨-, rfl⟩ := numAt_ok hsize
  obtain ⟨hle, -⟩ := numAt_ok hsum
  have hsize' : (datagramIn buf).size = numIn buf 0 8 := rfl
  rw [hsize', netHeaderSize]
  rw [checksumSize] at hle
  omega

/-- A segment is read within the bytes of its packet exactly when they are as many as a header. -/
theorem rcvSegment_ok_iff (data : List Byte) :
    (∃ r, rcvSegment data data.length = .ok r) ↔ transportHeaderSize ≤ data.length := by
  constructor
  · rintro ⟨r, h⟩
    obtain ⟨newSeg, hseg, -⟩ := bind_eq_ok_iff.1 h
    simp only [buildrecvsegment, bind_eq_ok_iff] at hseg
    obtain ⟨src, -, dest, -, seqNum, -, ackNum, -, flags, -, windowSize, -, bs, -, c, hsum, -⟩ := hseg
    obtain ⟨hle, -⟩ := numAt_ok hsum
    rw [checksumSize] at hle
    rw [transportHeaderSize]
    omega
  · intro h
    rw [transportHeaderSize] at h
    have hnum : ∀ off len : Nat, off + len ≤ 17 → numAt data off len = .ok (numIn data off len) := by
      intro off len hle
      exact numAt_of_le (by omega)
    have hdata : ∃ bs : List Byte, (if transportHeaderSize < data.length then
        bytesAt data 15 (data.length - transportHeaderSize) else .ok []) = .ok bs ∧
          15 + bs.length + checksumSize ≤ data.length := by
      rw [transportHeaderSize, checksumSize]
      split
      · rw [bytesAt_of_le (by omega)]
        refine ⟨_, rfl, ?_⟩
        rw [List.length_take, List.length_drop]
        omega
      · exact ⟨[], rfl, h⟩
    obtain ⟨bs, hbs, hle⟩ := hdata
    have hsum : numAt data (15 + bs.length) checksumSize = .ok (numIn data (15 + bs.length) checksumSize) := numAt_of_le hle
    have htwo : checksumSize ≤ data.length := by
      rw [checksumSize]
      omega
    obtain ⟨newSeg, hbuild⟩ : ∃ newSeg, buildrecvsegment data data.length = .ok newSeg := by
      simp only [buildrecvsegment, hnum 0 2 (by decide), hnum 2 2 (by decide), hnum 4 4 (by decide), hnum 8 4 (by decide),
        hnum 12 1 (by decide), hnum 13 2 (by decide), hbs, hsum, ok_bind]
      exact ⟨_, rfl⟩
    rw [rcvSegment, hbuild, ok_bind, checksumOf_of_le (subSize_le htwo), ok_bind]
    exact ⟨_, rfl⟩

end NetworkLayers
