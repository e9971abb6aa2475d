import NetworkLayers.Link.Frame
import NetworkLayers.Lemmas.Checksum

/-!
# What the link layer catches and what it delivers

The checksum at the end of a frame fails on any one byte that is overwritten. A frame that `link_send` accepts reaches the other
side as it is when it fits the receiver's buffer, which is sized by the largest MTU although a frame has 12 bytes more than the
data that the MTU was compared with.
-/

namespace NetworkLayers

open Bytes

namespace LinkAux

theorem storedChecksum_lt (buf : List Byte) (size : Nat) : storedChecksum buf size < 65536 := by
  refine Nat.lt_of_lt_of_le (ofLe_lt _) ?_
  calc 256 ^ ((buf.drop (size - checksumSize)).take checksumSize).length
      ≤ 256 ^ checksumSize := Nat.pow_le_pow_right (by decide) (List.length_take_le _ _)
    _ = 65536 := by decide

theorem rcvChecksum_eq_zero_iff (buf : List Byte) (size : Nat) :
    rcvChecksum buf size = 0 ↔ checksum buf (size - checksumSize) = storedChecksum buf size := by
  have hc := checksum_lt buf (size - checksumSize)
  have hs := storedChecksum_lt buf size
  unfold rcvChecksum u16
  omega

/-- The comparison on bytes that end in two bytes for the checksum, whatever stands behind them in the buffer. -/
theorem rcvChecksum_append {body tail : List Byte} (htail : tail.length = checksumSize) (rest : List Byte) :
    rcvChecksum (body ++ tail ++ rest) (body.length + checksumSize) = 0 ↔ checksum body body.length = ofLe tail := by
  rw [rcvChecksum_eq_zero_iff, storedChecksum, Nat.add_sub_cancel, List.append_assoc, List.drop_left, ← htail, List.take_left]
  simp [checksum]

theorem length_body (dest : Nat) (data : List Byte) : (sendFrame dest data).body.length = data.length + linkHeaderSize := by
  simp only [LinkFrame.body, sendFrame, List.length_append, length_leBytes, List.take_length, linkHeaderSize]
  omega

/-- The bytes of a frame, its checksum computed over all of those before it. -/
theorem buildsendframe_eq (dest : Nat) {data : List Byte} (hlen : data.length + linkHeaderSize < 18446744073709551616) :
    buildsendframe (sendFrame dest data) =
      (sendFrame dest data).body ++ leBytes 2 (checksum (sendFrame dest data).body (sendFrame dest data).body.length) := by
  have hsize : u64 ((sendFrame dest data).size + linkHeaderSize) = (sendFrame dest data).body.length := by
    rw [length_body]
    exact u64_of_lt hlen
  rw [buildsendframe, hsize]
  rfl

theorem ofLe_checksum (l : List Byte) (n : Nat) : ofLe (leBytes 2 (checksum l n)) = checksum l n :=
  ofLe_leBytes_of_lt (checksum_lt l n)

end LinkAux

open LinkAux in
/-- A frame passes the comparison of `internalrecv`, and fails it with any one byte overwritten by another. -/
theorem single_byte_corruption_caught {dest : Nat} {data : List Byte}
    (hlen : data.length + linkHeaderSize + checksumSize ≤ 65507) :
    rcvChecksum (buildsendframe (sendFrame dest data)) (buildsendframe (sendFrame dest data)).length = 0 ∧
      ∀ (i : Nat) (hi : i < (buildsendframe (sendFrame dest data)).length) (v : Byte),
        v ≠ (buildsendframe (sendFrame dest data))[i] →
          rcvChecksum (garbled (buildsendframe (sendFrame dest data)) i v) (buildsendframe (sendFrame dest data)).length ≠ 0 := by
  have hbody := length_body dest data
  unfold linkHeaderSize checksumSize at hlen
  rw [buildsendframe_eq dest (by unfold linkHeaderSize; omega)]
  generalize (sendFrame dest data).body = body at hbody ⊢
  have hbound : body.length ≤ 65507 := by
    rw [hbody, linkHeaderSize]
    omega
  have htail : ∀ n, (leBytes 2 n).length = checksumSize := length_leBytes 2
  have hframe : (body ++ leBytes 2 (checksum body body.length)).length = body.length + checksumSize := by simp [checksumSize]
  have hcompare : ∀ b t : List Byte, b.length = body.length → t.length = checksumSize →
      (rcvChecksum (b ++ t) (body.length + checksumSize) = 0 ↔ checksum b body.length = ofLe t) := by
    intro b t hb ht
    have hrest : rcvChecksum (b ++ t ++ []) (b.length + checksumSize) = 0 ↔ checksum b b.length = ofLe t :=
      rcvChecksum_append ht []
    rwa [List.append_nil, hb] at hrest
  refine ⟨by rw [hframe]; exact (hcompare _ _ rfl (htail _)).2 (ofLe_checksum _ _).symm, ?_⟩
  intro i hi v hv
  rw [hframe]
  rcases Nat.lt_or_ge i body.length with hlt | hge
  · -- a byte that the checksum covers
    rw [List.getElem_append_left hlt] at hv
    rw [garbled, List.set_append_left _ _ hlt, Ne, hcompare _ _ List.length_set (htail _), ofLe_checksum]
    exact checksum_set_ne hbound hlt hv
  · -- a byte of the checksum
    rw [List.getElem_append_right hge] at hv
    have hlt : i - body.length < (leBytes 2 (checksum body body.length)).length := by
      rw [List.length_append] at hi
      omega
    rw [garbled, List.set_append_right _ _ hge, Ne, hcompare _ _ rfl (by rw [List.length_set]; exact htail _)]
    intro h
    have hset := ofLe_injective List.length_set (h.symm.trans (ofLe_checksum _ _).symm)
    have hget := congrArg (fun l => l[i - body.length]?) hset
    simp only [List.getElem?_set_self hlt, List.getElem?_eq_getElem hlt, Option.some.injEq] at hget
    exact hv hget

/-- Three bytes for host 2, of which the second is overwritten. -/
theorem three_bytes_corruption_caught :
    rcvChecksum (buildsendframe (sendFrame 2 [7, 8, 9])) (buildsendframe (sendFrame 2 [7, 8, 9])).length = 0 ∧
      rcvChecksum (garbled (buildsendframe (sendFrame 2 [7, 8, 9])) 11 0) (buildsendframe (sendFrame 2 [7, 8, 9])).length ≠ 0 :=
  have h := single_byte_corruption_caught (by decide : [7, 8, 9].length + linkHeaderSize + checksumSize ≤ 65507)
  ⟨h.1, h.2 11 (by decide) 0 (by decide)⟩

/-! ## What arrives -/

/-- `internalrecv` takes the frame of the data out of what UDP delivers, with the destination, the size and the data that were
sent. -/
def LinkDelivers (bufRcv : List Byte) (dest : Nat) (data : List Byte) : Prop :=
  ∃ f, linkRecv bufRcv (buildsendframe (sendFrame dest data)) = .ok (some f) ∧
    f.dest = dest ∧ f.size = data.length ∧ f.data = data

namespace LinkAux

/-- The fields of a frame are read back from a buffer that holds its header and its data. -/
theorem getrecvframe_eq {dest size : Nat} {data : List Byte} (hdest : dest < 65536)
    (hlen : data.length < 18446744073709551616) (hsize : data.length + 8 ≤ size) (rest : List Byte) :
    getrecvframe ((sendFrame dest data).body ++ rest) size =
      .ok { dest := dest, size := data.length, data := data,
            checksum := storedChecksum ((sendFrame dest data).body ++ rest) size } := by
  have hbody : (sendFrame dest data).body = leBytes 2 dest ++ (leBytes 8 data.length ++ data) := by
    simp [LinkFrame.body, sendFrame]
  have hread : ofLe ((((sendFrame dest data).body ++ rest).drop 2).take 8) = data.length := by
    rw [hbody, List.append_assoc, List.drop_left' (length_leBytes 2 dest), List.append_assoc,
      List.take_left' (length_leBytes 8 data.length)]
    exact ofLe_leBytes_of_lt (Nat.lt_of_lt_of_eq hlen (by decide))
  have hdata : (((sendFrame dest data).body ++ rest).drop linkHeaderSize).take data.length = data := by
    rw [hbody, ← List.append_assoc, List.append_assoc, List.drop_left' (by simp [linkHeaderSize]), List.take_left]
  have hto : ofLe (((sendFrame dest data).body ++ rest).take 2) = dest := by
    rw [hbody, List.append_assoc, List.take_left' (length_leBytes 2 dest)]
    exact ofLe_leBytes_of_lt hdest
  have hbuf : ((sendFrame dest data).body ++ rest).length = data.length + linkHeaderSize + rest.length := by
    rw [List.length_append, length_body]
  rw [getrecvframe, if_neg (by omega), hread, if_neg (by omega), if_neg (by omega), hto, hdata]

/-- A frame that is read lies within the buffer. -/
theorem getrecvframe_ok {buf : List Byte} {size : Nat} {f : LinkFrame} (h : getrecvframe buf size = .ok f) :
    linkHeaderSize + f.size ≤ buf.length := by
  simp only [getrecvframe] at h
  split at h
  · cases h
  · split at h
    · cases h
    · split at h
      · cases h
      · rename_i hin
        cases h
        exact Nat.le_of_not_lt fun hlt => hin (Or.inr hlt)

/-- A frame that fits the buffer is taken out as it was sent. -/
theorem linkDelivers_of_le {bufRcv : List Byte} {dest : Nat} {data : List Byte} (hdest : dest < 65536)
    (hlen : data.length + linkHeaderSize < 18446744073709551616)
    (hfit : data.length + linkHeaderSize + checksumSize ≤ bufRcv.length) : LinkDelivers bufRcv dest data := by
  have hframe := buildsendframe_eq dest hlen
  have hbody := length_body dest data
  generalize hb : (sendFrame dest data).body = body at hframe hbody
  have hlength : (buildsendframe (sendFrame dest data)).length = body.length + checksumSize := by
    rw [hframe, List.length_append, length_leBytes, checksumSize]
  have hrecv : recvfrom bufRcv (buildsendframe (sendFrame dest data)) =
      (body ++ leBytes 2 (checksum body body.length) ++ bufRcv.drop (body.length + checksumSize),
        body.length + checksumSize) := by
    unfold recvfrom
    have hle : body.length + checksumSize ≤ bufRcv.length := by omega
    rw [hlength, Nat.min_eq_left hle, List.take_of_length_le (hlength ▸ hle), hframe]
  have hzero := (rcvChecksum_append (length_leBytes 2 _) (bufRcv.drop (body.length + checksumSize))).2
    (ofLe_checksum body body.length).symm
  have hsize : data.length + 8 ≤ body.length + checksumSize := by
    rw [hbody, linkHeaderSize]
    omega
  have hget := getrecvframe_eq hdest (by omega) hsize (leBytes 2 (checksum body body.length) ++
    bufRcv.drop (body.length + checksumSize))
  rw [hb, ← List.append_assoc] at hget
  have hshort : ¬body.length + checksumSize < checksumSize := by omega
  have hrun : linkRecv bufRcv (buildsendframe (sendFrame dest data)) =
      (getrecvframe (body ++ leBytes 2 (checksum body body.length) ++ bufRcv.drop (body.length + checksumSize))
        (body.length + checksumSize)).map some := by
    simp only [linkRecv, hrecv, hshort, if_false, hzero, if_true]
  rw [hget] at hrun
  exact ⟨_, hrun, rfl, rfl, rfl⟩

/-- The comparison does not read past the end of the buffer. -/
theorem rcvChecksum_take {frame : List Byte} {n : Nat} (hn : checksumSize ≤ n) :
    rcvChecksum (frame.take n) n = 0 ↔ checksum frame (n - checksumSize) = storedChecksum frame n := by
  have hsum : checksum (frame.take n) (n - checksumSize) = checksum frame (n - checksumSize) := by
    rw [checksum, checksum, List.take_take, Nat.min_eq_left (Nat.sub_le _ _)]
  have hstored : storedChecksum (frame.take n) n = storedChecksum frame n := by
    have hsub : n - (n - checksumSize) = checksumSize := by omega
    rw [storedChecksum, storedChecksum, List.drop_take, hsub, List.take_take, Nat.min_self]
  rw [rcvChecksum_eq_zero_iff, hsum, hstored]

/-- A frame that is larger than the buffer is taken out as it was sent only when its data fit, and the comparison passes by
chance on the bytes before the end of the buffer. -/
theorem linkDelivers_cut_iff {bufRcv : List Byte} {dest : Nat} {data : List Byte} (hdest : dest < 65536)
    (hlen : data.length + linkHeaderSize < 18446744073709551616)
    (hcut : bufRcv.length < data.length + linkHeaderSize + checksumSize) :
    LinkDelivers bufRcv dest data ↔ data.length + linkHeaderSize ≤ bufRcv.length ∧
      checksum (buildsendframe (sendFrame dest data)) (bufRcv.length - checksumSize) =
        storedChecksum (buildsendframe (sendFrame dest data)) bufRcv.length := by
  have hframe := buildsendframe_eq dest hlen
  have hbody := length_body dest data
  unfold LinkDelivers
  generalize buildsendframe (sendFrame dest data) = frame at hframe ⊢
  have hlength : frame.length = data.length + linkHeaderSize + checksumSize := by
    rw [hframe, List.length_append, length_leBytes, hbody, checksumSize]
  have hrecv : recvfrom bufRcv frame = (frame.take bufRcv.length, bufRcv.length) := by
    unfold recvfrom
    rw [Nat.min_eq_right (by omega), List.drop_of_length_le (by omega), List.append_nil]
  have htake : (frame.take bufRcv.length).length = bufRcv.length := by
    rw [List.length_take, hlength, Nat.min_eq_left (by omega)]
  have hrun : linkRecv bufRcv frame =
      if bufRcv.length < checksumSize then .error .outOfBounds
      else if rcvChecksum (frame.take bufRcv.length) bufRcv.length = 0 then
        (getrecvframe (frame.take bufRcv.length) bufRcv.length).map some
      else .ok none := by
    rw [linkRecv, hrecv]
  rw [hrun]
  constructor
  · rintro ⟨f, hf, -, hsize, -⟩
    split at hf
    · cases hf
    · rename_i htwo
      split at hf
      · rename_i hzero
        cases hget : getrecvframe (frame.take bufRcv.length) bufRcv.length with
        | error e =>
          rw [hget] at hf
          cases hf
        | ok f' =>
          rw [hget] at hf
          cases hf
          have hin := getrecvframe_ok hget
          rw [htake, hsize, Nat.add_comm] at hin
          exact ⟨hin, (rcvChecksum_take (Nat.le_of_not_lt htwo)).1 hzero⟩
      · cases hf
  · rintro ⟨hin, hsum⟩
    have hten : linkHeaderSize ≤ bufRcv.length := by omega
    have htwo : checksumSize ≤ bufRcv.length := Nat.le_trans (by decide) hten
    have hsize : data.length + 8 ≤ bufRcv.length := Nat.le_trans (Nat.add_le_add_left (by decide) _) hin
    have hcutframe : frame.take bufRcv.length = (sendFrame dest data).body ++ (leBytes 2 (checksum
        (sendFrame dest data).body (sendFrame dest data).body.length)).take
          (bufRcv.length - (sendFrame dest data).body.length) := by
      rw [hframe, List.take_append, List.take_of_length_le (hbody ▸ hin)]
    rw [if_neg (Nat.not_lt.2 htwo), if_pos ((rcvChecksum_take htwo).2 hsum), hcutframe, getrecvframe_eq hdest (by omega) hsize]
    exact ⟨_, rfl, rfl, rfl, rfl⟩

/-- Data that `link_send` accepts are smaller than the MTU of the link. -/
theorem lt_of_linkSend {t : Topology} {a b : HostIndex} {size : Nat} (h : linkSend (t.links a b) size = true) :
    (size : Int) < t.links a b ∧ t.links a b ≤ 2147483647 := by
  have hrange := t.range a b
  unfold linkSend at h
  rw [decide_eq_true_iff] at h
  omega

end LinkAux

open LinkAux in
/-- Data that `link_send` accepts arrive as they are exactly when their frame with its header and its checksum fits the largest
MTU, or when only bytes of the checksum are cut off and the comparison passes by chance on the two bytes at the end of the
buffer. -/
theorem link_delivers_iff {t : Topology} {a b : HostIndex} {data : List Byte}
    (hsend : linkSend (t.links a b) data.length = true) {bufRcv : List Byte} (hbuf : bufRcv.length = t.getMaxMtu.toNat) :
    LinkDelivers bufRcv (hostNum b) data ↔
      data.length + linkHeaderSize + checksumSize ≤ t.getMaxMtu.toNat ∨
        (data.length + linkHeaderSize ≤ t.getMaxMtu.toNat ∧
          checksum (buildsendframe (sendFrame (hostNum b) data)) (t.getMaxMtu.toNat - checksumSize) =
            storedChecksum (buildsendframe (sendFrame (hostNum b) data)) t.getMaxMtu.toNat) := by
  obtain ⟨hlt, hmax⟩ := lt_of_linkSend hsend
  have hdest : hostNum b < 65536 := by
    have := b.isLt
    simp only [maxHosts] at this
    simp only [hostNum]
    omega
  have hlen : data.length + linkHeaderSize < 18446744073709551616 := by
    rw [linkHeaderSize]
    omega
  rw [← hbuf]
  rcases Nat.lt_or_ge bufRcv.length (data.length + linkHeaderSize + checksumSize) with hcut | hfit
  · rw [linkDelivers_cut_iff hdest hlen hcut]
    exact ⟨Or.inr, fun h => h.resolve_left (Nat.not_le.2 hcut)⟩
  · exact ⟨fun _ => Or.inl hfit, fun _ => linkDelivers_of_le hdest hlen hfit⟩

/-- One link of MTU 1500, between the first two hosts. -/
def oneLink : Topology where
  links i j := if (i = 0 ∧ j = 1) ∨ (i = 1 ∧ j = 0) then 1500 else -1
  symm := by decide
  range := by decide

/-- Data whose frame fills the buffer arrive. -/
theorem full_frame_delivered : LinkDelivers (List.replicate 1500 0) (hostNum 1) (List.replicate 1488 7) :=
  (link_delivers_iff (t := oneLink) (a := 0) (b := 1) (by rw [List.length_replicate]; decide)
    (by rw [List.length_replicate]; decide +kernel)).2 (Or.inl (by rw [List.length_replicate]; decide +kernel))

open LinkAux in
/-- The largest data that `link_send` accepts for the link do not arrive: the buffer ends within them. -/
theorem accepted_frame_lost :
    ¬∀ (t : Topology) (a b : HostIndex) (data : List Byte), linkSend (t.links a b) data.length = true →
      ∀ bufRcv : List Byte, bufRcv.length = t.getMaxMtu.toNat → LinkDelivers bufRcv (hostNum b) data := by
  intro h
  have hlost := h oneLink 0 1 (List.replicate 1499 7) (by rw [List.length_replicate]; decide) (List.replicate 1500 0)
    (by rw [List.length_replicate]; decide +kernel)
  rw [linkDelivers_cut_iff (by decide) (by rw [List.length_replicate]; decide)
    (by rw [List.length_replicate, List.length_replicate]; decide)] at hlost
  have hin := hlost.1
  rw [List.length_replicate, List.length_replicate] at hin
  exact absurd hin (by decide)

end NetworkLayers
