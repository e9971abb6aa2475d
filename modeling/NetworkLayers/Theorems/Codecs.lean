import NetworkLayers.Transport.Wire
import NetworkLayers.Lemmas.Checksum

/-!
# What is built is read back

Datagrams and segments come back from their bytes with every field and the data as they were, and the receiver's comparison of the
checksums passes: it leaves out the last two bytes, which is where the sender put the checksum.
-/

namespace NetworkLayers

open Bytes

/-- A datagram the source can hold: its fields are within their C types, the data are `size` bytes, and a buffer can be
allocated for all of it. -/
structure Datagram.Fits (d : Datagram) : Prop where
  fields : FieldsFit d.header
  data : d.data.length = d.size
  room : d.size + netHeaderSize < 18446744073709551616

/-- A segment with `size` bytes of data that the source can hold. -/
structure RawSegment.Fits (s : RawSegment) (size : Nat) : Prop where
  fields : FieldsFit s.header
  data : s.data.length = size
  room : size + transportHeaderSize < 18446744073709551616

namespace CodecAux

theorem length_datagram_body {d : Datagram} (h : d.Fits) : d.body.length = 18 + d.size := by
  simp [Datagram.body, Datagram.header, widthOf, h.data]

/-- The checksum is computed over everything in front of it. -/
theorem buildsenddatagram_eq {d : Datagram} (h : d.Fits) :
    buildsenddatagram d = d.body ++ leBytes checksumSize (checksum d.body d.body.length) := by
  have hroom := h.room
  rw [netHeaderSize] at hroom
  rw [buildsenddatagram, u64_of_lt (by omega), length_datagram_body h]

/-- The fields and the data of a datagram are read back, whatever its checksum. -/
theorem buildrecvdatagram_eq {d : Datagram} (h : d.Fits) {tail : List Byte} {c : Nat}
    (hc : numAt (d.body ++ tail) d.body.length checksumSize = .ok c) :
    buildrecvdatagram (d.body ++ tail) = .ok { d with checksum := c } := by
  have hbody : d.body ++ tail = encode d.header ++ (d.data ++ tail) := by
    rw [Datagram.body, ← h.data, List.take_length, List.append_assoc]
  have hnum : ∀ {i off w v : Nat}, d.header[i]? = some (w, v) → widthOf (d.header.take i) = off →
      numAt (d.body ++ tail) off w = .ok v := by
    intro i off w v hfield hoff
    rw [hbody]
    exact numAt_field h.fields hfield hoff _
  have hdata : bytesAt (d.body ++ tail) 18 d.size = .ok d.data := by
    rw [hbody, ← List.append_assoc, ← h.data]
    exact bytesAt_behind (by rfl) d.data tail
  have hsize : numAt (d.body ++ tail) 0 8 = .ok d.size := hnum (i := 0) rfl rfl
  have hid : numAt (d.body ++ tail) 8 2 = .ok d.id := hnum (i := 1) rfl rfl
  have hfrag : numAt (d.body ++ tail) 10 2 = .ok d.frag := hnum (i := 2) rfl rfl
  have hprotocol : numAt (d.body ++ tail) 12 1 = .ok d.protocol := hnum (i := 3) rfl rfl
  have httl : numAt (d.body ++ tail) 13 1 = .ok d.ttl := hnum (i := 4) rfl rfl
  have hdest : numAt (d.body ++ tail) 14 2 = .ok d.dest := hnum (i := 5) rfl rfl
  have hsrc : numAt (d.body ++ tail) 16 2 = .ok d.src := hnum (i := 6) rfl rfl
  rw [length_datagram_body h] at hc
  simp only [buildrecvdatagram, hsize, hid, hfrag, hprotocol, httl, hdest, hsrc, hdata, hc, ok_bind]
  rfl

/-- A datagram whose checksum is the one computed is accepted. -/
theorem rcvDatagram_of {buf : List Byte} {size : Nat} {recv : Datagram} (hrecv : buildrecvdatagram buf = .ok recv)
    (hsum : checksumOf buf (subSize size checksumSize) = .ok recv.checksum) (hlt : recv.checksum < 65536) :
    rcvDatagram buf size = .ok (recv, 0) := by
  rw [rcvDatagram, hrecv, ok_bind, hsum, ok_bind, u16_sub_self hlt]
  rfl

/-- A datagram that was built is taken out of its bytes, and the comparison of its checksum passes. -/
theorem rcvDatagram_build {d : Datagram} (h : d.Fits) :
    rcvDatagram (buildsenddatagram d) (d.size + netHeaderSize) =
      .ok ({ d with checksum := checksum d.body d.body.length }, 0) := by
  have hlen := length_datagram_body h
  have hsub : subSize (d.size + netHeaderSize) checksumSize = d.body.length := by
    rw [subSize_of_le h.room (by unfold netHeaderSize checksumSize; omega), hlen, netHeaderSize, checksumSize]
    omega
  obtain ⟨hread, hsum⟩ := checksum_behind d.body
  rw [buildsenddatagram_eq h]
  refine rcvDatagram_of (buildrecvdatagram_eq h hread) ?_ (checksum_lt _ _)
  rw [hsub]
  exact hsum

/-- The data of a segment with a size that may be 0. -/
theorem segment_body_eq {s : RawSegment} {size : Nat} (h : s.Fits size) : s.body size = encode s.header ++ s.data := by
  rw [RawSegment.body, ← h.data]
  split
  · rw [List.take_length]
  · rename_i hzero
    rw [List.eq_nil_of_length_eq_zero (not_not.1 hzero)]

theorem length_segment_body {s : RawSegment} {size : Nat} (h : s.Fits size) : (s.body size).length = 15 + size := by
  rw [segment_body_eq h]
  simp [RawSegment.header, widthOf, h.data]

/-- The checksum is computed over everything in front of it. -/
theorem buildsendsegment_eq {s : RawSegment} {size : Nat} (h : s.Fits size) :
    buildsendsegment s size = s.body size ++ leBytes checksumSize (checksum (s.body size) (s.body size).length) := by
  have hroom := h.room
  rw [transportHeaderSize] at hroom
  rw [buildsendsegment, u64_of_lt (by omega), length_segment_body h]

/-- The fields and the data of a segment are read back, whatever its checksum. -/
theorem buildrecvsegment_eq {s : RawSegment} {size : Nat} (h : s.Fits size) {tail : List Byte} {c : Nat}
    (hc : numAt (s.body size ++ tail) (s.body size).length checksumSize = .ok c) :
    buildrecvsegment (s.body size ++ tail) (size + transportHeaderSize) = .ok { s with checksum := c } := by
  have hbody : s.body size ++ tail = encode s.header ++ (s.data ++ tail) := by
    rw [segment_body_eq h, List.append_assoc]
  have hnum : ∀ {i off w v : Nat}, s.header[i]? = some (w, v) → widthOf (s.header.take i) = off →
      numAt (s.body size ++ tail) off w = .ok v := by
    intro i off w v hfield hoff
    rw [hbody]
    exact numAt_field h.fields hfield hoff _
  have hdata : (if transportHeaderSize < size + transportHeaderSize then
      bytesAt (s.body size ++ tail) 15 (size + transportHeaderSize - transportHeaderSize) else .ok []) = .ok s.data := by
    split
    · rw [Nat.add_sub_cancel, hbody, ← List.append_assoc, ← h.data]
      exact bytesAt_behind (by rfl) s.data tail
    · -- no data were sent
      rename_i hsize
      have hzero : s.data.length = 0 := by
        rw [h.data]
        omega
      rw [List.eq_nil_of_length_eq_zero hzero]
  have hsrc : numAt (s.body size ++ tail) 0 2 = .ok s.src := hnum (i := 0) rfl rfl
  have hdest : numAt (s.body size ++ tail) 2 2 = .ok s.dest := hnum (i := 1) rfl rfl
  have hseq : numAt (s.body size ++ tail) 4 4 = .ok s.seqNum := hnum (i := 2) rfl rfl
  have hack : numAt (s.body size ++ tail) 8 4 = .ok s.ackNum := hnum (i := 3) rfl rfl
  have hflags : numAt (s.body size ++ tail) 12 1 = .ok s.flags := hnum (i := 4) rfl rfl
  have hwindow : numAt (s.body size ++ tail) 13 2 = .ok s.windowSize := hnum (i := 5) rfl rfl
  have hc' : numAt (s.body size ++ tail) (15 + s.data.length) checksumSize = .ok c := by
    rw [h.data, ← length_segment_body h]
    exact hc
  simp only [buildrecvsegment, hsrc, hdest, hseq, hack, hflags, hwindow, hdata, hc', ok_bind]
  rfl

/-- A segment whose checksum is the one computed is accepted. -/
theorem rcvSegment_of {data : List Byte} {size : Nat} {newSeg : RawSegment} (hseg : buildrecvsegment data size = .ok newSeg)
    (hsum : checksumOf data (subSize size checksumSize) = .ok newSeg.checksum) (hlt : newSeg.checksum < 65536) :
    rcvSegment data size = .ok (newSeg, 0) := by
  rw [rcvSegment, hseg, ok_bind, hsum, ok_bind, u16_sub_self hlt]
  rfl

/-- A segment that was built is taken out of its bytes, and the comparison of its checksum passes. -/
theorem rcvSegment_build {s : RawSegment} {size : Nat} (h : s.Fits size) :
    rcvSegment (buildsendsegment s size) (size + transportHeaderSize) =
      .ok ({ s with checksum := checksum (s.body size) (s.body size).length }, 0) := by
  have hlen := length_segment_body h
  have hsub : subSize (size + transportHeaderSize) checksumSize = (s.body size).length := by
    rw [subSize_of_le h.room (by unfold transportHeaderSize checksumSize; omega), hlen, transportHeaderSize, checksumSize]
    omega
  obtain ⟨hread, hsum⟩ := checksum_behind (s.body size)
  rw [buildsendsegment_eq h]
  refine rcvSegment_of (buildrecvsegment_eq h hread) ?_ (checksum_lt _ _)
  rw [hsub]
  exact hsum

/-- The segments of the service points are among those that come back. -/
theorem rcvSegment_raw {s : Segment} (h : s.raw.Fits s.data.length) :
    ∃ c, rcvSegment (buildsendsegment s.raw s.data.length) (s.data.length + transportHeaderSize) =
      .ok ({ s.raw with checksum := c }, 0) :=
  ⟨_, rcvSegment_build h⟩

end CodecAux

/-- A datagram and a segment that were built come back with their fields and data, the checksum now in its field, and the
receiver's comparison leaves 0. -/
theorem codecs_round_trip {d : Datagram} {s : RawSegment} {size : Nat} (hd : d.Fits) (hs : s.Fits size) :
    (∃ c, buildrecvdatagram (buildsenddatagram d) = .ok { d with checksum := c } ∧
        rcvDatagram (buildsenddatagram d) (d.size + netHeaderSize) = .ok ({ d with checksum := c }, 0)) ∧
      ∃ c, buildrecvsegment (buildsendsegment s size) (size + transportHeaderSize) = .ok { s with checksum := c } ∧
        rcvSegment (buildsendsegment s size) (size + transportHeaderSize) = .ok ({ s with checksum := c }, 0) := by
  refine ⟨⟨checksum d.body d.body.length, ?_, CodecAux.rcvDatagram_build hd⟩,
    ⟨checksum (s.body size) (s.body size).length, ?_, CodecAux.rcvSegment_build hs⟩⟩
  · rw [CodecAux.buildsenddatagram_eq hd]
    exact CodecAux.buildrecvdatagram_eq hd (checksum_behind d.body).1
  · rw [CodecAux.buildsendsegment_eq hs]
    exact CodecAux.buildrecvsegment_eq hs (checksum_behind (s.body size)).1

/-- The last fragment of a packet. -/
def lastFragment : Datagram :=
  { size := 3, id := 65535, frag := 8, protocol := 1, ttl := 6, dest := 2, src := 1, data := [7, 8, 9] }

/-- A segment without data. -/
def bareSegment : RawSegment :=
  { src := 0, dest := 15, seqNum := 4294967294, ackNum := 7, flags := 3, windowSize := 10, data := [] }

/-- Both come back: the checksum of the datagram, at an odd place in front of which the last byte is summed alone, and that of the
segment right behind its fields. -/
theorem last_fragment_and_bare_segment_round_trip :
    (∃ c, rcvDatagram (buildsenddatagram lastFragment) 23 = .ok ({ lastFragment with checksum := c }, 0)) ∧
      ∃ c, rcvSegment (buildsendsegment bareSegment 0) 17 = .ok ({ bareSegment with checksum := c }, 0) := by
  have hfits : lastFragment.Fits := ⟨by decide, by decide, by decide⟩
  have hfits' : bareSegment.Fits 0 := ⟨by decide, by decide, by decide⟩
  obtain ⟨⟨c, -, hd⟩, ⟨c', -, hs⟩⟩ := codecs_round_trip hfits hfits'
  exact ⟨⟨c, hd⟩, ⟨c', hs⟩⟩

end NetworkLayers
