import NetworkLayers.Transport.Connection
import NetworkLayers.Theorems.Codecs
import NetworkLayers.Theorems.Reuse

/-!
# What a service point passes to net_send

Every segment that a service point ever builds can be written to memory, holds as many bytes as it says and no more than
`MAX_SEGMENT_SIZE`, whatever has arrived and however often the point was used before. It is read back as it was.
-/

namespace NetworkLayers

open Bytes

/-- A packet that can be written: its fields are within their C types, and its data as long as its size says, `MAX_SEGMENT_SIZE` at
most. -/
structure Packet.OnWire (pkt : Packet) : Prop where
  fits : pkt.segment.raw.Fits pkt.dataSize
  size : pkt.size = pkt.dataSize + transportHeaderSize
  small : pkt.dataSize ≤ maxSegmentSize

namespace OutgoingAux

/-! ## Reading a packet back -/

@[simp] theorem ofCode_code (flags : Flags) : Flags.ofCode flags.code = some flags := by
  cases flags <;> rfl

theorem segment_raw (s : Segment) (c : Nat) : ({ s.raw with checksum := c } : RawSegment).segment = some s := by
  simp [RawSegment.segment, Segment.raw]

theorem length_bytes {pkt : Packet} (h : pkt.OnWire) : pkt.bytes.length = pkt.size := by
  rw [Packet.bytes, CodecAux.buildsendsegment_eq h.fits, List.length_append, length_leBytes, CodecAux.length_segment_body h.fits,
    h.size, checksumSize, transportHeaderSize]
  omega

/-- What `internalrecv` makes of a packet that was written. -/
theorem rcvSegment_bytes {pkt : Packet} (h : pkt.OnWire) :
    ∃ c, rcvSegment pkt.bytes pkt.bytes.length = .ok ({ pkt.segment.raw with checksum := c }, 0) := by
  rw [length_bytes h, h.size]
  exact ⟨_, CodecAux.rcvSegment_build h.fits⟩

/-- Bytes that have all been written are read. -/
theorem bytes_map_some {d : Delivered} {data : List Byte} (h : d.data = data.map some) : d.bytes = data := by
  have hall : data.takeWhile (Option.isSome ∘ some) = data := List.takeWhile_eq_self_iff.2 fun _ _ => rfl
  rw [Delivered.bytes, h, List.takeWhile_map, hall, List.filterMap_map]
  exact List.filterMap_some

/-- `recv_thread` looks at nothing but what is read. -/
theorem recvThread_plain (here : Addr) (p : Endpoint) (pkt : Packet) (rnd : Nat) :
    p.recvThread here pkt.plain rnd = p.recvThread here pkt rnd := rfl

end OutgoingAux

/-! ## What a service point builds -/

/-- What holds of a service point all its life: its fields are within their C types, `send_thread` takes no more from the buffer than
there is, and each segment it has built can be written. -/
structure Sendable (p : Endpoint) : Prop where
  steady : ReuseAux.Steady p
  destSp : p.sp.destSp < 65536
  seqNumS : p.sp.seqNumS < maxSeqNum
  segmentSendSize : p.sendThread.segmentSendSize ≤ maxSegmentSize
  sendSize : p.sendThread.pc ≠ .cons → p.sendThread.sendSize = (p.sp.sendBuff.drop p.sendThread.sendPtr).length
  packs : ∀ k ∈ p.packs, k.segment.raw.Fits k.size ∧ k.size ≤ maxSegmentSize

/-- The arguments and fields of an action are within their C types. -/
def PointAction.Typed : PointAction → Prop
  | .connectPoint _ destPoint _ _ => destPoint < 65536
  | .recvThread pkt _ => pkt.segment.src < 65536 ∧ pkt.segment.windowSize < 65536
  | _ => True

namespace OutgoingAux

variable {here : Addr} {p p' : Endpoint} {act : PointAction} {out : List Packet}

/-- A segment whose numbers are within their types. -/
theorem fits_raw {s : Segment} {size : Nat} (hsrc : s.src < 65536) (hdest : s.dest < 65536) (hseq : s.seqNum < maxSeqNum)
    (hack : s.ackNum < maxSeqNum) (hw : s.windowSize < 65536) (hdata : s.data.length = size) (hsize : size ≤ maxSegmentSize) :
    s.raw.Fits size := by
  refine ⟨?_, hdata, ?_⟩
  · have hcode : s.flags.code < 256 := by cases s.flags <;> decide
    unfold maxSeqNum at hseq hack
    simp only [FieldsFit, RawSegment.header, Segment.raw, List.forall_mem_cons, List.not_mem_nil, false_implies, implies_true,
      and_true]
    omega
  · unfold maxSegmentSize at hsize
    unfold transportHeaderSize
    omega

theorem nextSeqNum_lt (seqNum n : Nat) : nextSeqNum seqNum n < maxSeqNum := Nat.mod_lt _ (by decide)

theorem zero_lt : 0 < maxSeqNum := by decide

theorem sendable_alloc : Sendable allocServicePoint where
  steady := ReuseAux.steady_alloc
  destSp := by decide
  seqNumS := by decide
  segmentSendSize := by decide
  sendSize := fun h => absurd rfl h
  packs := by simp [allocServicePoint, Endpoint.packs]

/-- One more segment that can be written. -/
theorem packs_spawn {segment : Segment} {size : Nat} (h : ∀ k ∈ p.packs, k.segment.raw.Fits k.size ∧ k.size ≤ maxSegmentSize)
    (hsegment : segment.raw.Fits size ∧ size ≤ maxSegmentSize) :
    ∀ k ∈ (p.spawn segment size).packs, k.segment.raw.Fits k.size ∧ k.size ≤ maxSegmentSize := by
  intro k hk
  rcases mem_packs_spawn.1 hk with hk | rfl
  · exact h k hk
  · exact hsegment

/-- `send_thread` after a segment. -/
theorem sendable_segment (h : Sendable p) (hpoint : here.point < 65536) (hpc : p.sendThread.pc = .segment)
    (hw : p.sp.windowSize ≠ 0) (hsteady : ReuseAux.Steady (p.sendSegment here)) : Sendable (p.sendSegment here) := by
  have hncons : p.sendThread.pc ≠ .cons := by rw [hpc]; decide
  have hlen := h.sendSize hncons
  have hsize : p.sendThread.size ≤ maxSegmentSize := p.sendThread.size_le.trans h.segmentSendSize
  have hle := ReuseAux.size_le_sendSize p.sendThread
  have hnext := (ReuseAux.nextSize_le h.steady.segmentSize
    (Nat.mod_lt (p.sendThread.windowPtr + p.sendThread.size) (Nat.pos_of_ne_zero hw)) h.steady.windowSize).1
  have hrest : p.sendThread.sendSize - p.sendThread.size =
      (p.sp.sendBuff.drop (p.sendThread.sendPtr + p.sendThread.size)).length := by
    rw [hlen, List.length_drop, List.length_drop]
    omega
  refine ⟨hsteady, h.destSp, nextSeqNum_lt _ _, ?_, fun _ => ?_, ?_⟩
  · simp only [Endpoint.sendSegment]
    split
    · exact hsize
    · exact hnext
  · simp only [Endpoint.sendSegment]
    split <;> exact hrest
  · refine packs_spawn h.packs ⟨fits_raw hpoint h.destSp h.seqNumS zero_lt h.steady.windowSize ?_ hsize, hsize⟩
    rw [List.length_take, ← hlen]
    exact Nat.min_eq_left hle

/-- The FIN of a point, whatever properties then say of it. -/
theorem sendable_fin (h : Sendable p) (hpoint : here.point < 65536) {history : History} {flagCon : FlagCon}
    (hsteady : ReuseAux.Steady ({ p with history := history }.sendFin here flagCon)) :
    Sendable ({ p with history := history }.sendFin here flagCon) where
  steady := hsteady
  destSp := h.destSp
  seqNumS := nextSeqNum_lt _ _
  segmentSendSize := h.segmentSendSize
  sendSize := h.sendSize
  packs := packs_spawn h.packs ⟨fits_raw hpoint h.destSp h.seqNumS zero_lt h.steady.windowSize rfl (by decide), by decide⟩

/-- An ACK without data. -/
theorem onWire_ack {pkt : Packet} (hsize : pkt.size = transportHeaderSize) (hfits : pkt.segment.raw.Fits 0) : pkt.OnWire := by
  have hdata : pkt.dataSize = 0 := by rw [Packet.dataSize, hsize, Nat.sub_self]
  exact ⟨hdata ▸ hfits, by rw [hdata, hsize, Nat.zero_add], by rw [hdata]; decide⟩

theorem onWire_ackPacket (h : Sendable p) (hpoint : here.point < 65536) (pkt : Packet) : (p.sp.ackPacket here pkt).OnWire :=
  onWire_ack rfl (fits_raw hpoint h.destSp zero_lt (Nat.mod_lt _ (by decide)) h.steady.windowSize rfl (by decide))

theorem onWire_dadosAck (h : Sendable p) (hpoint : here.point < 65536) (pkt : Packet) (mem : Nat) :
    (p.sp.dadosAck here pkt mem).OnWire := by
  unfold ServicePoint.dadosAck
  split
  · exact onWire_ack rfl (fits_raw hpoint h.destSp zero_lt (Nat.mod_lt _ (by decide)) h.steady.windowSize rfl (by decide))
  · exact onWire_ackPacket h hpoint pkt

theorem onWire_pack (h : Sendable p) {k : SendSegment} (hk : k ∈ p.packs) : (k.packet here p.sp).OnWire := by
  have hdata : (k.packet here p.sp).dataSize = k.size := Nat.add_sub_cancel ..
  obtain ⟨hfits, hsmall⟩ := h.packs k hk
  exact ⟨hdata.symm ▸ hfits, by rw [hdata]; rfl, hdata.symm ▸ hsmall⟩

end OutgoingAux

open OutgoingAux

variable {here : Addr} {p p' : Endpoint} {act : PointAction} {out : List Packet}

/-- What holds of a service point is kept by all it does. -/
theorem Sendable.step (h : Sendable p) (hpoint : here.point < 65536) (hdoes : p.Does here act p' out) (htyped : act.Typed) :
    Sendable p' := by
  have hsteady : ReuseAux.Steady p' := by
    refine ReuseAux.steady_step h.steady hdoes ?_
    rintro pkt rnd rfl - -
    exact htyped.2
  cases hdoes with
  | sync dest destPoint windowSize rnd =>
    have hnum : u64 (rnd % maxSeqNum + windowSize) % maxSeqNum < maxSeqNum := Nat.mod_lt _ (by decide)
    exact ⟨hsteady, htyped, nextSeqNum_lt _ _, h.segmentSendSize, h.sendSize, packs_spawn h.packs
      ⟨fits_raw hpoint htyped hnum zero_lt (Nat.mod_lt _ (by decide)) rfl (by decide), by decide⟩⟩
  | acceptSync pkt rnd =>
    exact ⟨hsteady, htyped.1, nextSeqNum_lt _ _, h.segmentSendSize, h.sendSize, packs_spawn h.packs
      ⟨fits_raw hpoint htyped.1 (nextSeqNum_lt _ _) (nextSeqNum_lt _ _) htyped.2 rfl (by decide), by decide⟩⟩
  | close => exact sendable_fin h hpoint hsteady
  | finInConnection => exact sendable_fin h hpoint hsteady
  | segment hpc _ hw => exact sendable_segment h hpoint hpc hw hsteady
  | deposit i buf hfree =>
    refine ⟨hsteady, h.destSp, h.seqNumS, h.segmentSendSize, fun hpc => ?_, h.packs⟩
    have hbusy := (h.steady.busy hpc).2.1
    rw [hfree] at hbusy
    cases hbusy
  | takeBuffer hpc =>
    refine ⟨hsteady, h.destSp, h.seqNumS, ?_, fun _ => rfl, h.packs⟩
    have hfirst := (ReuseAux.first_le p.sp.windowSize).trans (min_le_right _ _)
    simp only [Endpoint.takeBuffer]
    split
    · exact h.segmentSendSize
    · exact hfirst
  | bufferSent => exact ⟨hsteady, h.destSp, h.seqNumS, h.segmentSendSize, fun hne => absurd rfl hne, h.packs⟩
  | window hpc =>
    have hncons : p.sendThread.pc ≠ .cons := by rw [hpc]; decide
    have hseg := h.steady.segmentSize
    refine ⟨hsteady, h.destSp, h.seqNumS, ?_, fun _ => ?_, h.packs⟩
    · simp only [Endpoint.sendThreadWindow]
      split
      · exact h.segmentSendSize
      · have hmove : (if p.sendThread.segmentSize < (inSeq p.sp.acks).1 then p.sendThread.segmentSize
            else u16 (inSeq p.sp.acks).1) ≤ maxSegmentSize := by
          unfold u16
          split <;> omega
        exact hmove
    · have hrest := h.sendSize hncons
      simp only [Endpoint.sendThreadWindow]
      split <;> exact hrest
  | firstSend i t ht | acked i t ht =>
    refine ⟨hsteady, h.destSp, h.seqNumS, h.segmentSendSize, h.sendSize, ?_⟩
    have hpacks : (p.segSends.set i { t with started := true }).map (·.pack) = p.packs := packs_set ht rfl
    have hpacks' : (p.segSends.set i { t with stopped := true }).map (·.pack) = p.packs := packs_set ht rfl
    simp only [Endpoint.packs, hpacks, hpacks']
    exact h.packs
  | _ => exact ⟨hsteady, h.destSp, h.seqNumS, h.segmentSendSize, h.sendSize, h.packs⟩

/-- What it passes to `net_send` can be written, and is from its host. -/
theorem Sendable.outgoing (h : Sendable p) (hpoint : here.point < 65536) (hdoes : p.Does here act p' out) (htyped : act.Typed) :
    ∀ pkt ∈ out, pkt.OnWire ∧ pkt.src = here.node := by
  cases hdoes with
  | firstSend i t ht | resend i t ht =>
    exact List.forall_mem_singleton.2 ⟨onWire_pack h (List.mem_map_of_mem (List.mem_of_getElem? ht)), rfl⟩
  | add pkt rnd => exact List.forall_mem_singleton.2 ⟨onWire_dadosAck h hpoint pkt rnd, (p.sp.dadosAck_addr here pkt rnd).1⟩
  | reack pkt | finInConnection pkt | finWhileClosing pkt =>
    exact List.forall_mem_singleton.2 ⟨onWire_ackPacket h hpoint pkt, rfl⟩
  | acceptSyncAck pkt =>
    exact List.forall_mem_singleton.2 ⟨onWire_ack rfl
      (fits_raw hpoint htyped.1 zero_lt (nextSeqNum_lt _ _) h.steady.windowSize rfl (by decide)), rfl⟩
  | _ => exact fun _ hpkt => (List.not_mem_nil hpkt).elim

end NetworkLayers
