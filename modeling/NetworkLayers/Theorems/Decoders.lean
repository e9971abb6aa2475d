import NetworkLayers.Lemmas.Completion
import NetworkLayers.Theorems.Link

/-!
# What the decoders read of the bytes that arrive

No layer compares the sizes it is told with the bytes it has. Bytes are processed within what was received exactly when each size
fits: the frame's in the datagram of UDP, the datagram's in the frame, the fragments' in their packet, a header in the packet for
the transport layer.
-/

namespace NetworkLayers

open Bytes Cells Tiling Transition

/-- The bytes are rejected, or the sizes they declare fit what was received: the frame is read within the bytes received, the
datagram within the frame, and a packet that is reported complete is made of bytes that arrived and of no others. Where
`insertoffset` itself does not return, it has read nothing but the datagram and its list. -/
structure InBounds (num : Nat) (list : RecvList) (recv : List Byte) : Prop where
  frame : ∃ r, linkDecode recv = .ok r
  datagram : ∀ f, linkDecode recv = .ok (some f) → ∃ r, rcvDatagram f.data f.size = .ok r
  packet : ∀ f d list', linkDecode recv = .ok (some f) → rcvDatagram f.data f.size = .ok (d, 0) → d.dest = num →
    insertoffset list d = .ok (list', true) → PackInBounds list' d

/-- The sizes fit: there is room for the checksum, in a frame that passes the comparison for the data declared, in these for the
datagram declared, and where this one passes too, is for the host and completes its packet, the fragments add up to the packet. -/
structure WellSized (num : Nat) (list : RecvList) (recv : List Byte) : Prop where
  received : checksumSize ≤ recv.length
  frame : rcvChecksum recv recv.length = 0 → linkHeaderSize + frameSize recv ≤ recv.length
  datagram : rcvChecksum recv recv.length = 0 → netHeaderSize + (datagramIn (frameData recv)).size ≤ frameSize recv
  packet : rcvChecksum recv recv.length = 0 → datagramChecksum (frameData recv) = 0 →
    (datagramIn (frameData recv)).dest = num → Completes list (datagramIn (frameData recv)) →
      AddsUp list (datagramIn (frameData recv))

namespace DecoderAux

/-! ### The list stays sound -/

theorem sound_empty : RecvList.empty.Sound := by
  refine ⟨reachable_separate Reach.refl, ?_, ?_⟩
  · intro e he
    cases he
  · intro c hc
    cases hc

/-- A datagram with as many bytes as its size says leaves the list sound. -/
theorem sound_insertoffset {s s' : RecvList} {d : Datagram} {b : Bool} (h : s.Sound) (hd : d.data.length = d.size)
    (hins : insertoffset s d = .ok (s', b)) : s'.Sound := by
  obtain ⟨offs, offs', added, hadd, -, hpacks, -⟩ := insertoffset_effect h.separate hins
  refine ⟨separate_insertoffset h.separate hins, ?_, ?_⟩
  · intro x hx
    rcases hpacks x hx with ⟨-, hxo⟩ | ⟨hx, -⟩
    · rw [hxo]
      rcases addoffset_head hadd with ⟨h1, -⟩ | ⟨h1, h2⟩
      · simp [h1]
      · rwa [h1]
    · exact h.heads x hx
  · intro c hc
    have hmem : c.val ∈ s'.cells.map Cell.val := List.mem_map_of_mem hc
    have hold : c.val ∈ s.cells.map Cell.val → c.val.data.length = c.val.size := by
      intro hm
      obtain ⟨c', hc', hval⟩ := List.mem_map.1 hm
      rw [← hval]
      exact h.sized c' hc'
    rcases addoffset_vals hadd with heq | heq
    · exact hold (heq ▸ hmem)
    · rw [heq, List.mem_append, List.mem_singleton] at hmem
      rcases hmem with hm | hm
      · exact hold hm
      · rw [hm]
        exact hd

/-- Taking a packet out leaves the list sound. -/
theorem sound_getpack {s s' : RecvList} {id src : Nat} {r : Option (List (Option Byte) × Nat)} (h : s.Sound)
    (hget : getpack s id src = .ok (s', r)) : s'.Sound := by
  obtain ⟨hcells, hsub⟩ := getpack_sublist hget
  refine ⟨h.separate.sublist hcells hsub, fun e he => h.heads e (hsub.subset he), ?_⟩
  rw [hcells]
  exact h.sized

/-! ### The frame -/

theorem linkDecode_eq (recv : List Byte) :
    linkDecode recv = if recv.length < checksumSize then .error .outOfBounds
      else if rcvChecksum recv recv.length = 0 then (getrecvframe recv recv.length).map some else .ok none := by
  simp [linkDecode, linkRecv, recvfrom]

/-- A frame whose declared size fits the buffer and what is allocated for it is read as it stands there. -/
theorem getrecvframe_of_le {buf : List Byte} {size : Nat} (hbuf : linkHeaderSize + frameSize buf ≤ buf.length)
    (hsize : 8 + frameSize buf ≤ size) :
    getrecvframe buf size = .ok { dest := ofLe (buf.take 2), size := frameSize buf, data := frameData buf,
                                  checksum := storedChecksum buf size } := by
  have hdeclared : ofLe ((buf.drop 2).take 8) = frameSize buf := rfl
  rw [getrecvframe, if_neg (by omega), hdeclared, if_neg (by omega), if_neg (by omega)]
  rfl

/-- Reading a frame needs the size it declares. -/
theorem le_of_getrecvframe {recv : List Byte} {f : LinkFrame} (h : getrecvframe recv recv.length = .ok f) :
    linkHeaderSize + frameSize recv ≤ recv.length := by
  have hle := LinkAux.getrecvframe_ok h
  have hsize : f.size = frameSize recv := by
    simp only [getrecvframe] at h
    split at h
    · cases h
    · split at h
      · cases h
      · split at h
        · cases h
        · cases h
          rfl
  rwa [hsize] at hle

theorem length_frameData {recv : List Byte} (h : linkHeaderSize + frameSize recv ≤ recv.length) :
    (frameData recv).length = frameSize recv := by
  rw [frameData, List.length_take, List.length_drop]
  omega

/-- A frame was taken out: its comparison passed, and it is the one that stands in the bytes. -/
theorem of_linkDecode_some {recv : List Byte} {f : LinkFrame} (h : linkDecode recv = .ok (some f)) :
    rcvChecksum recv recv.length = 0 ∧ linkHeaderSize + frameSize recv ≤ recv.length ∧ f.size = (frameData recv).length ∧
      f.data = frameData recv := by
  rw [linkDecode_eq] at h
  split at h
  · cases h
  · split at h
    · rename_i hzero
      cases hget : getrecvframe recv recv.length with
      | error e =>
        rw [hget] at h
        cases h
      | ok f' =>
        rw [hget] at h
        cases h
        have hle := le_of_getrecvframe hget
        rw [getrecvframe_of_le hle (by rw [linkHeaderSize] at hle; omega)] at hget
        cases hget
        exact ⟨hzero, hle, (length_frameData hle).symm, rfl⟩
    · cases h

/-- Where the comparison passes, the frame is read exactly when its declared size fits. -/
theorem linkDecode_of_zero {recv : List Byte} (htwo : checksumSize ≤ recv.length) (hzero : rcvChecksum recv recv.length = 0)
    (hle : linkHeaderSize + frameSize recv ≤ recv.length) : ∃ f, linkDecode recv = .ok (some f) := by
  rw [linkDecode_eq, if_neg (Nat.not_lt.2 htwo), if_pos hzero, getrecvframe_of_le hle (by rw [linkHeaderSize] at hle; omega)]
  exact ⟨_, rfl⟩

/-- The link layer reads a frame within the bytes received exactly when there is room for the checksum and, where the comparison
passes, for the size declared. -/
theorem linkDecode_ok_iff (recv : List Byte) :
    (∃ r, linkDecode recv = .ok r) ↔ checksumSize ≤ recv.length ∧
      (rcvChecksum recv recv.length = 0 → linkHeaderSize + frameSize recv ≤ recv.length) := by
  constructor
  · rintro ⟨r, h⟩
    rw [linkDecode_eq] at h
    split at h
    · cases h
    · rename_i htwo
      refine ⟨Nat.not_lt.1 htwo, fun hzero => ?_⟩
      rw [if_pos hzero] at h
      cases hget : getrecvframe recv recv.length with
      | error e =>
        rw [hget] at h
        cases h
      | ok f => exact le_of_getrecvframe hget
  · rintro ⟨htwo, hframe⟩
    by_cases hzero : rcvChecksum recv recv.length = 0
    · obtain ⟨f, hf⟩ := linkDecode_of_zero htwo hzero (hframe hzero)
      exact ⟨_, hf⟩
    · rw [linkDecode_eq, if_neg (Nat.not_lt.2 htwo), if_neg hzero]
      exact ⟨_, rfl⟩

/-- Bytes within the first part of a buffer do not depend on the rest. -/
theorem take_drop_append {recv : List Byte} {off len : Nat} (h : off + len ≤ recv.length) (rest : List Byte) :
    ((recv ++ rest).drop off).take len = (recv.drop off).take len := by
  rw [List.drop_append_of_le_length (by omega), List.take_append_of_le_length (by rw [List.length_drop]; omega)]

theorem storedChecksum_append {recv : List Byte} (h : checksumSize ≤ recv.length) (rest : List Byte) :
    storedChecksum (recv ++ rest) recv.length = storedChecksum recv recv.length := by
  rw [storedChecksum, storedChecksum, take_drop_append (by omega)]

/-- What the link layer takes out of a datagram without an access beyond it, it takes out of its own buffer, whatever stands there
behind the datagram. -/
theorem linkRecv_of_linkDecode {bufRcv sent : List Byte} {r : Option LinkFrame}
    (h : linkDecode (sent.take bufRcv.length) = .ok r) : linkRecv bufRcv sent = .ok r := by
  have hrecv : recvfrom bufRcv sent = (sent.take bufRcv.length ++ bufRcv.drop sent.length, (sent.take bufRcv.length).length) := by
    rw [recvfrom, List.length_take, Nat.min_comm]
  generalize sent.take bufRcv.length = recv at h hrecv
  generalize bufRcv.drop sent.length = rest at hrecv
  obtain ⟨htwo, hframe⟩ := (linkDecode_ok_iff recv).1 ⟨r, h⟩
  have hzero : rcvChecksum (recv ++ rest) recv.length = rcvChecksum recv recv.length := by
    rw [rcvChecksum, rcvChecksum, storedChecksum_append htwo, checksum, checksum,
      List.take_append_of_le_length (Nat.sub_le _ _)]
  have hget : rcvChecksum recv recv.length = 0 →
      getrecvframe (recv ++ rest) recv.length = getrecvframe recv recv.length := by
    intro hz
    have hle := hframe hz
    have hsize : frameSize (recv ++ rest) = frameSize recv := by
      rw [frameSize, frameSize, numIn, numIn, take_drop_append (by rw [linkHeaderSize] at hle; omega)]
    have hdata : frameData (recv ++ rest) = frameData recv := by
      rw [frameData, frameData, hsize, take_drop_append hle]
    have halloc : 8 + frameSize recv ≤ recv.length := by
      rw [linkHeaderSize] at hle
      omega
    rw [getrecvframe_of_le hle halloc, getrecvframe_of_le (by rw [hsize, List.length_append]; omega) (hsize ▸ halloc), hsize,
      hdata, storedChecksum_append htwo, List.take_append_of_le_length (by omega)]
  rw [linkDecode_eq, if_neg (Nat.not_lt.2 htwo)] at h
  simp only [linkRecv, hrecv, Nat.not_lt.2 htwo, if_false, hzero]
  split at h
  · rename_i hz
    rw [if_pos hz, hget hz]
    exact h
  · rename_i hz
    rw [if_neg hz]
    exact h

/-! ### The datagram -/

/-- The data of a datagram that fits its frame are as many bytes as its size says. -/
theorem length_datagramIn {buf : List Byte} (h : netHeaderSize + (datagramIn buf).size ≤ buf.length) :
    (datagramIn buf).data.length = (datagramIn buf).size := by
  have hsize : (datagramIn buf).size = numIn buf 0 8 := rfl
  have hdata : (datagramIn buf).data = (buf.drop 18).take (numIn buf 0 8) := rfl
  rw [netHeaderSize, hsize] at h
  rw [hdata, hsize, List.length_take, List.length_drop]
  omega

/-- A datagram that was taken out of a frame is the one that stands in it. -/
theorem of_rcvDatagram {buf : List Byte} {d : Datagram} {c : Nat} (h : rcvDatagram buf buf.length = .ok (d, c)) :
    d = datagramIn buf ∧ c = datagramChecksum buf ∧ d.data.length = d.size := by
  have hle := le_of_rcvDatagram h
  rw [rcvDatagram_of_le hle] at h
  obtain ⟨rfl, rfl⟩ := Prod.mk.inj (Except.ok.inj h)
  exact ⟨rfl, rfl, length_datagramIn hle⟩

/-- A step leaves the list sound. -/
theorem sound_receiveStep {num : Nat} {s s' : RecvList} {recv : List Byte} (h : s.Sound)
    (hstep : receiveStep num s recv = some s') : s'.Sound := by
  unfold receiveStep at hstep
  split at hstep
  · cases hstep
  · cases hstep
    exact h
  · rename_i f hf
    obtain ⟨-, -, hsize, hdata⟩ := of_linkDecode_some hf
    rw [← hdata] at hsize
    cases hnet : netInternalrecv num s f with
    | error e =>
      rw [hnet] at hstep
      cases hstep
    | ok r =>
      rw [hnet] at hstep
      cases hstep
      obtain ⟨⟨d, c⟩, hd, hnet⟩ := bind_eq_ok_iff.1 hnet
      rw [hsize] at hd
      obtain ⟨-, -, hsized⟩ := of_rcvDatagram hd
      simp only at hnet
      split at hnet
      · obtain ⟨⟨t, b⟩, hins, hnet⟩ := bind_eq_ok_iff.1 hnet
        have ht := sound_insertoffset h hsized hins
        cases b with
        | false =>
          cases hnet
          exact ht
        | true =>
          obtain ⟨⟨u, p⟩, hget, hnet⟩ := bind_eq_ok_iff.1 hnet
          cases hnet
          exact sound_getpack ht hget
      · cases hnet
        exact h

theorem sound_of_receives {num : Nat} {s : RecvList} (h : Receives num s) : s.Sound :=
  h.invariant sound_empty fun _ _ _ hs _ hstep => sound_receiveStep hs hstep

/-- What is in bounds is processed by `internalrecv` to its end, unless `insertoffset` does not return. -/
theorem netInternalrecv_of_inBounds {num : Nat} {list : RecvList} {recv : List Byte} (h : InBounds num list recv) {f : LinkFrame}
    (hf : linkDecode recv = .ok (some f)) :
    (∃ r, netInternalrecv num list f = .ok r) ∨
      ∃ d e, rcvDatagram f.data f.size = .ok (d, 0) ∧ insertoffset list d = .error e := by
  obtain ⟨⟨d, c⟩, hd⟩ := h.datagram f hf
  rw [netInternalrecv, hd, ok_bind]
  by_cases hmine : c = 0 ∧ d.dest = num
  · obtain ⟨rfl, hdest⟩ := hmine
    cases hins : insertoffset list d with
    | error e => exact Or.inr ⟨d, e, rfl, hins⟩
    | ok r =>
      left
      obtain ⟨list', b⟩ := r
      simp only [hdest, and_self, if_true, hins, ok_bind]
      cases b with
      | false => exact ⟨_, rfl⟩
      | true =>
        obtain ⟨list'', data, hget, -⟩ := h.packet f d list' hf hd hdest hins
        simp only [if_true, hget, ok_bind]
        exact ⟨_, rfl⟩
  · left
    simp only [hmine, if_false]
    exact ⟨_, rfl⟩

end DecoderAux

/-- For every list a node can hold and all bytes that can arrive: they are processed within what was received exactly when the sizes
fit. -/
theorem decoders_in_bounds_iff {num : Nat} {list : RecvList} (h : Receives num list) (recv : List Byte) :
    InBounds num list recv ↔ WellSized num list recv := by
  have hsound := DecoderAux.sound_of_receives h
  constructor
  · intro hin
    obtain ⟨htwo, hframe⟩ := (DecoderAux.linkDecode_ok_iff recv).1 hin.frame
    have hdatagram : rcvChecksum recv recv.length = 0 → ∃ f, linkDecode recv = .ok (some f) ∧
        f.size = (frameData recv).length ∧ f.data = frameData recv ∧
        netHeaderSize + (datagramIn (frameData recv)).size ≤ (frameData recv).length := by
      intro hzero
      obtain ⟨f, hf⟩ := DecoderAux.linkDecode_of_zero htwo hzero (hframe hzero)
      obtain ⟨-, -, hsize, hdata⟩ := DecoderAux.of_linkDecode_some hf
      obtain ⟨r, hr⟩ := hin.datagram f hf
      rw [hdata] at hr
      exact ⟨f, hf, hsize, hdata, le_of_rcvDatagram hr⟩
    refine ⟨htwo, hframe, ?_, ?_⟩
    · intro hzero
      obtain ⟨f, -, -, -, hle⟩ := hdatagram hzero
      rwa [DecoderAux.length_frameData (hframe hzero)] at hle
    · intro hzero hsum hdest hcomplete
      obtain ⟨f, hf, hsize, hdata, hle⟩ := hdatagram hzero
      have hrcv := rcvDatagram_of_le hle
      rw [hsum, ← hsize] at hrcv
      obtain ⟨list', hins⟩ := (completes_iff hsound _).2 hcomplete
      exact (addsUp_iff hsound (DecoderAux.length_datagramIn hle) hins).1 (hin.packet f _ list' hf (hdata ▸ hrcv) hdest hins)
  · intro hw
    refine ⟨(DecoderAux.linkDecode_ok_iff recv).2 ⟨hw.received, hw.frame⟩, ?_, ?_⟩
    · intro f hf
      obtain ⟨hzero, hle, hsize, hdata⟩ := DecoderAux.of_linkDecode_some hf
      have hfit := hw.datagram hzero
      rw [← DecoderAux.length_frameData hle] at hfit
      rw [hsize, hdata]
      exact ⟨_, rcvDatagram_of_le hfit⟩
    · intro f d list' hf hrcv hdest hins
      obtain ⟨hzero, hle, hsize, hdata⟩ := DecoderAux.of_linkDecode_some hf
      rw [hsize, hdata] at hrcv
      obtain ⟨rfl, hsum, hsized⟩ := DecoderAux.of_rcvDatagram hrcv
      refine (addsUp_iff hsound hsized hins).2 ?_
      exact hw.packet hzero hsum.symm hdest ((completes_iff hsound _).1 ⟨list', hins⟩)

/-- A frame with a datagram of 17 bytes for the transport layer stays in bounds. -/
theorem seventeen_bytes_in_bounds :
    InBounds 2 RecvList.empty (buildsendframe (sendFrame 2 (buildsenddatagram
      { size := 17, frag := 0, protocol := 1, ttl := 6, dest := 2, src := 1, data := List.replicate 17 7 }))) :=
  (decoders_in_bounds_iff Reach.refl _).2 ⟨by decide, fun _ => by decide, fun _ => by decide, fun _ _ _ _ _ => by decide⟩

/-- A frame of 12 bytes whose checksum matches and which declares 100 bytes of data. -/
def forgedFrame : List Byte := [0, 0, 100, 0, 0, 0, 0, 0, 0, 0, 155, 255]

/-- The link layer passes the comparison on it and copies bytes that were never received. -/
theorem forged_frame_not_in_bounds :
    ¬∀ (num : Nat) (list : RecvList), Receives num list → ∀ recv : List Byte, InBounds num list recv := by
  intro h
  have hzero : rcvChecksum forgedFrame forgedFrame.length = 0 := by decide +kernel
  have hle := ((DecoderAux.linkDecode_ok_iff forgedFrame).1 (h 1 RecvList.empty Reach.refl forgedFrame).frame).2 hzero
  exact absurd hle (by decide)

end NetworkLayers
