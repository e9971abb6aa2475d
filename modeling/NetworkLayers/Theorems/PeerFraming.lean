import NetworkLayers.Lemmas.Listener
import NetworkLayers.Theorems.Transfer

/-!
# What a peer can make a side do

The length of a message is whatever its first bytes say. `recv_ips` neither looks whether it counts its own bytes nor whether the message
has room, `upload` copies as many bytes to the file name, and `download` counts a piece of the file as written without asking `fwrite`.
-/

namespace NetworkLayers

open Transition Bytes Framing

namespace PeerFramingAux

variable {fwrite : List Byte → List Byte → Nat} {x y y' z : Listener} {n k : Nat} {r r' : RecvIps} {s m : List Byte} {buf : Buffer}
  {program : Program}

/-! ## Messages -/

theorem lengthField_lt (s : List Byte) : lengthField s < 4294967296 := by
  have hlt := ofLe_lt (s.take intSize)
  have hlen : (s.take intSize).length ≤ 4 := List.length_take_le _ _
  exact lt_of_lt_of_le hlt (Nat.pow_le_pow_right (by decide) hlen)

/-- The length is in the first bytes. -/
theorem lengthField_take (h : intSize ≤ k) : lengthField (s.take k) = lengthField s := by
  rw [lengthField, List.take_take, min_eq_left h, lengthField]

theorem length_message (harrives : Arrives s) : (s.take (lengthField s)).length = lengthField s := by
  rw [List.length_take, min_eq_left harrives.2]

theorem framed_message (hlength : intSize ≤ lengthField s) (harrives : Arrives s) : Framed intSize (s.take (lengthField s)) where
  header_le := by rwa [length_message harrives]
  header := by
    rw [length_message harrives]
    exact lengthField_take hlength

/-- What remains to be received once the length is there. -/
theorem u32_length {l : Nat} (hlength : intSize ≤ l) (hlt : l < 4294967296) : u32 (l + (4294967296 - intSize)) = l - intSize := by
  unfold intSize at *
  unfold u32
  omega

/-- The program keeps to its bounds exactly when the message is one for it. -/
theorem effects_bounded_iff (hm : Framed intSize m) (hfits : m.length ≤ maxBufLength) (hbuf : buf.read 0 m.length = m) :
    (∀ e ∈ program.effects fwrite buf, e.Bounded) ↔ program.Takes fwrite m := by
  have hlength := Buffer.read_length hbuf hm hfits
  have hle : 4 ≤ m.length := hm.header_le
  have hmax : m.length ≤ 1024 := hfits
  cases program with
  | upload u =>
    obtain ⟨pc, files, file⟩ := u
    cases pc with
    | request =>
      have hcopy : ((m.length : Int) - (intSize + 1 : Nat)) % 18446744073709551616 =
          if m.length = 4 then 18446744073709551615 else (m.length : Int) - 5 := by
        unfold intSize
        split <;> omega
      show (∀ e ∈ [_], _) ↔ (_ = _ → _)
      rw [List.forall_mem_singleton, hlength, hcopy, forall_prop_of_true rfl]
      unfold Effect.Bounded fileNameSize intSize
      dsimp only
      split <;> omega
    | size | sending | done => simp [Program.effects, Program.Takes]
  | download d =>
    obtain ⟨pc, canCreate, file⟩ := d
    cases pc with
    | receiving fileSize =>
      have hbody : buf.read intSize (m.length - intSize) = m.drop intSize := by
        rw [buf.read_eq hbuf (by unfold intSize; omega), List.take_of_length_le (by simp)]
      have hsize : ((m.length : Int) - intSize).toNat = m.length - intSize := by
        unfold intSize
        omega
      show (∀ e ∈ [_], _) ↔ _ ≤ _
      rw [List.forall_mem_singleton, hlength, hsize, hbody]
      unfold Effect.Bounded
      dsimp only
      rw [List.length_drop]
      unfold intSize
      omega
    | request | size | done => simp [Program.effects, Program.Takes]

/-! ## A message that does not keep to the bounds -/

/-- The length of a message is taken off the stream. -/
theorem exists_length (fwrite : List Byte → List Byte → Nat) (hcall : x.peer.call = .recvIps .start)
    (h4 : intSize ≤ x.stream.length) :
    ∃ y, x.step intSize = some y ∧ y.stream = x.stream.drop intSize ∧ y.peer.program = x.peer.program ∧
      y.peer.recvbuf.read 0 intSize = x.stream.take intSize ∧
      y.peer.call = .recvIps { ptr := intSize, buflen := u32 (lengthField x.stream + (4294967296 - intSize)), tail := true } ∧
      .subtract (lengthField x.stream) intSize ∈ x.effects fwrite intSize := by
  obtain ⟨y, hy⟩ := x.exists_step_recvIps hcall (le_refl _) h4
  have hlen : (x.stream.take intSize).length = intSize := by simp [h4]
  obtain ⟨buf, hwrite⟩ := x.peer.recvbuf.exists_write 0 (x.stream.take intSize) (by rw [hlen]; decide)
  have hread : buf.read 0 intSize = x.stream.take intSize := by
    have hread := Buffer.read_write hwrite
    rw [hlen, Nat.zero_add] at hread
    simpa [Buffer.read] using hread
  refine ⟨y, hy, ?_⟩
  have heffects : .subtract (lengthField x.stream) intSize ∈ x.effects fwrite intSize := by
    unfold Listener.effects Peer.effects
    simp only [hcall, RecvIps.start, hwrite, hlen]
    simp [hread, lengthField]
  cases Listener.stepped hy with
  | send h | sent h => cases hcall.symm.trans h
  | beyond h _ _ hlt =>
    obtain rfl := Call.recvIps.inj (hcall.symm.trans h)
    exact absurd hlt (by decide)
  | more h hlt =>
    obtain rfl := Call.recvIps.inj (hcall.symm.trans h)
    exact absurd hlt (lt_irrefl _)
  | message h _ _ htail =>
    obtain rfl := Call.recvIps.inj (hcall.symm.trans h)
    cases htail
  | length h _ _ _ hbuf =>
    obtain rfl := Call.recvIps.inj (hcall.symm.trans h)
    obtain rfl := Option.some.inj (hwrite.symm.trans hbuf)
    refine ⟨rfl, rfl, hread, ?_, heffects⟩
    simp only [hread, lengthField, RecvIps.start, Nat.zero_add]

/-- Where a side that keeps to its bounds begins to receive, the length counts its own bytes, and the message has room. -/
theorem fitsBuffer_of_bounded (hbounded : x.Bounded fwrite) (hreach : Reach Listener.step anyStep x y)
    (hcall : y.peer.call = .recvIps .start) : FitsBuffer y.stream := by
  intro h4
  obtain ⟨z, hz, hstream, -, -, hz', hsub⟩ := exists_length fwrite hcall h4
  have hlength : intSize ≤ lengthField y.stream := hbounded y hreach intSize z hz _ hsub
  refine ⟨hlength, ?_⟩
  by_contra hlong
  -- one byte more than there is room for comes at once
  rw [u32_length hlength (lengthField_lt _)] at hz'
  have hmore : 1021 ≤ lengthField y.stream - intSize ∧ 1021 ≤ z.stream.length := by
    rw [hstream, List.length_drop]
    unfold maxBufLength intSize at *
    omega
  obtain ⟨w, hw⟩ := z.exists_step_recvIps hz' hmore.1 hmore.2
  have hmem : .write intSize (z.stream.take 1021).length ∈ z.effects fwrite 1021 := by
    unfold Listener.effects Peer.effects
    simp only [hz']
    exact List.mem_cons_self
  have hwrite := hbounded z (Reach.step intSize hreach trivial hz) 1021 w hw _ hmem
  rw [List.length_take, min_eq_left hmore.2] at hwrite
  exact absurd hwrite (by decide)

/-- And if the message comes, it is one for the program. -/
theorem takes_of_bounded (hbounded : x.Bounded fwrite) (hreach : Reach Listener.step anyStep x y)
    (hcall : y.peer.call = .recvIps .start) (harrives : Arrives y.stream) :
    y.peer.program.Takes fwrite (y.stream.take (lengthField y.stream)) := by
  obtain ⟨hlength, hroom⟩ := fitsBuffer_of_bounded hbounded hreach hcall harrives.1
  have hle := harrives.2
  have hmax : lengthField y.stream ≤ maxBufLength := by omega
  obtain ⟨z, hz, hstream, hprogram, hhead, hz', -⟩ := exists_length fwrite hcall harrives.1
  rw [u32_length hlength (lengthField_lt _)] at hz'
  -- the rest of the message comes at once
  have hrest : lengthField y.stream - intSize ≤ z.stream.length := by
    rw [hstream, List.length_drop]
    omega
  obtain ⟨w, hw⟩ := z.exists_step_recvIps hz' (le_refl _) hrest
  have hlen : (z.stream.take (lengthField y.stream - intSize)).length = lengthField y.stream - intSize := by simp [hrest]
  obtain ⟨buf, hbuf⟩ := z.peer.recvbuf.exists_write intSize (z.stream.take (lengthField y.stream - intSize)) (by omega)
  have hread : buf.read 0 (lengthField y.stream) = y.stream.take (lengthField y.stream) := by
    have hread := Buffer.read_write hbuf
    rw [hlen, hhead, hstream, Nat.add_sub_cancel' hlength] at hread
    rw [hread, ← List.take_add, Nat.add_sub_cancel' hlength]
  have hmessage := length_message harrives
  rw [← effects_bounded_iff (framed_message hlength harrives) (by rwa [hmessage]) (by rwa [hmessage] : buf.read 0 _ = _)]
  intro e he
  refine hbounded z (Reach.step intSize hreach trivial hz) _ w hw e ?_
  unfold Listener.effects Peer.effects
  simp only [hz', hbuf, hlen, Nat.sub_self, ne_eq, not_true_eq_false, if_false, if_true, hprogram]
  exact List.mem_cons_of_mem _ he

/-- A side that keeps to its bounds, whatever comes and in whatever pieces, gets what it can take wherever it begins to receive. -/
theorem framed_of_bounded (hbounded : x.Bounded fwrite) (hreach : Reach Listener.step anyStep x y)
    (hcall : y.peer.call = .recvIps .start) : y.Framed fwrite :=
  ⟨fitsBuffer_of_bounded hbounded hreach hcall, takes_of_bounded hbounded hreach hcall⟩

/-! ## Messages that do -/

/-- A `recv_ips` that began at `z` has come to `r`. -/
structure Midway (z y : Listener) (r : RecvIps) : Prop where
  call : z.peer.call = .recvIps .start
  program : z.peer.program = y.peer.program
  stream : z.stream = y.peer.recvbuf.read 0 r.ptr ++ y.stream
  ptr_le : r.ptr ≤ maxBufLength
  header : r.tail = false → r.ptr + r.buflen = intSize
  tail : r.tail = true → intSize ≤ r.ptr ∧ r.ptr + r.buflen = lengthField z.stream

theorem Midway.start (hcall : y.peer.call = .recvIps .start) : Midway y y .start where
  call := hcall
  program := rfl
  stream := by simp [RecvIps.start, Buffer.read]
  ptr_le := by decide
  header := fun _ => rfl
  tail := nofun

/-- What stands in `recvbuf` once `recv_point` has returned some bytes is the front of the stream. -/
theorem Midway.written (h : Midway z y r) (hn : n ≤ y.stream.length)
    (hwrite : y.peer.recvbuf.write r.ptr (y.stream.take n) = some buf) :
    r.ptr + n ≤ maxBufLength ∧ r.ptr + n ≤ z.stream.length ∧ buf.read 0 (r.ptr + n) = z.stream.take (r.ptr + n) ∧
      z.stream = buf.read 0 (r.ptr + n) ++ y.stream.drop n := by
  have hlen : (y.stream.take n).length = n := by simp [hn]
  have hle := Buffer.le_of_write hwrite
  rw [hlen] at hle
  have hread := Buffer.read_write hwrite
  rw [hlen] at hread
  have hstream : z.stream = buf.read 0 (r.ptr + n) ++ y.stream.drop n := by
    rw [hread, List.append_assoc, List.take_append_drop]
    exact h.stream
  have hbuf := buf.length_read hle
  refine ⟨hle, ?_, ?_, hstream⟩
  · rw [hstream, List.length_append, hbuf]
    exact Nat.le_add_right _ _
  · rw [hstream, List.take_append_of_le_length hbuf.ge, List.take_of_length_le hbuf.le]

/-- The length that stands in `recvbuf`. -/
theorem Midway.ofLe_read (h : Midway z y r) (hn : n ≤ y.stream.length)
    (hwrite : y.peer.recvbuf.write r.ptr (y.stream.take n) = some buf) (h4 : r.ptr + n = intSize) :
    intSize ≤ z.stream.length ∧ ofLe (buf.read 0 intSize) = lengthField z.stream := by
  obtain ⟨-, hlen, hread, -⟩ := h.written hn hwrite
  rw [h4] at hlen hread
  exact ⟨hlen, by rw [hread, lengthField]⟩

/-- A call takes a `recv_ips` on through its message, or the next one begins after the program has gone on. -/
theorem Midway.step (h : Midway z y r) (hfits : FitsBuffer z.stream) (hcall : y.peer.call = .recvIps r) (hs : y.step n = some y')
    (hcall' : y'.peer.call = .recvIps r') :
    Midway z y' r' ∨ (r' = .start ∧ ∃ recvbuf read, y'.peer = { y.peer with recvbuf := recvbuf, read := read }.resume) := by
  cases Listener.stepped hs with
  | send hsend | sent hsend => cases hcall.symm.trans hsend
  | beyond => cases hcall'
  | message => exact Or.inr ⟨Peer.start_of_resume hcall', _, _, rfl⟩
  | more hrecv hlt hn hwrite =>
    obtain rfl := Call.recvIps.inj (hcall.symm.trans hrecv)
    obtain ⟨hle, -, -, hstream⟩ := h.written hn hwrite
    obtain rfl := Call.recvIps.inj hcall'
    refine Or.inl ⟨h.call, h.program, hstream, hle, fun htail => ?_, fun htail => ?_⟩
    · have hheader := h.header htail
      dsimp only
      omega
    · have htail := h.tail htail
      dsimp only
      omega
  | length hrecv hlast hn htail hwrite =>
    obtain rfl := Call.recvIps.inj (hcall.symm.trans hrecv)
    have h4 : r.ptr + n = intSize := hlast ▸ h.header htail
    obtain ⟨hle, -, -, hstream⟩ := h.written hn hwrite
    obtain ⟨hlen, hfield⟩ := h.ofLe_read hn hwrite h4
    obtain rfl := Call.recvIps.inj hcall'
    refine Or.inl ⟨h.call, h.program, hstream, hle, nofun, fun _ => ⟨h4.ge, ?_⟩⟩
    have hlength := (hfits hlen).1
    dsimp only
    rw [hfield, u32_length hlength (lengthField_lt _), h4, Nat.add_sub_cancel' hlength]

/-- Where what comes fits, every `recv_ips` is on its way through a message. -/
theorem exists_midway (hbegins : x.Begins)
    (hfits : ∀ z, Reach Listener.step anyStep x z → z.peer.call = .recvIps .start → FitsBuffer z.stream)
    (hreach : Reach Listener.step anyStep x y) (hcall : y.peer.call = .recvIps r) :
    ∃ z, Reach Listener.step anyStep x z ∧ Midway z y r := by
  induction hreach generalizing r with
  | refl =>
    rcases hbegins with ⟨data, hsend⟩ | hstart
    · cases hcall.symm.trans hsend
    · obtain rfl := Call.recvIps.inj (hcall.symm.trans hstart)
      exact ⟨x, .refl, .start hstart⟩
  | @step y y' n hreach _ hs ih =>
    have hreach' : Reach Listener.step anyStep x y' := .step n hreach trivial hs
    rcases Listener.calls_of_step hs with ⟨rest, hcall₀⟩ | ⟨r₀, hcall₀⟩
    · have hresume := hcall
      rw [Listener.peer_of_sendIps hcall₀ hs hcall] at hresume
      obtain rfl := Peer.start_of_resume hresume
      exact ⟨y', hreach', .start hcall⟩
    · obtain ⟨z, hz, hmid⟩ := ih hcall₀
      rcases hmid.step (hfits z hz hmid.call) hcall₀ hs hcall with hmid' | ⟨rfl, -⟩
      · exact ⟨z, hz, hmid'⟩
      · exact ⟨y', hreach', .start hcall⟩

/-- What `recv_point` returns has room. -/
theorem Midway.le_maxBufLength (h : Midway z y r) (hfits : FitsBuffer z.stream) (hn : n ≤ r.buflen) (hstream : n ≤ y.stream.length) :
    r.ptr + n ≤ maxBufLength := by
  cases htail : r.tail with
  | false =>
    have hheader := h.header htail
    exact le_trans (by omega) (by decide : intSize ≤ maxBufLength)
  | true =>
    obtain ⟨hptr, hlength⟩ := h.tail htail
    have hall : r.ptr + n ≤ z.stream.length := by
      rw [h.stream, List.length_append, y.peer.recvbuf.length_read h.ptr_le]
      omega
    have hmax := (hfits (by omega)).2
    omega

/-- What the program does with a message that has come whole is within its bounds. -/
theorem Midway.bounded_of_message (h : Midway z y r) (hframed : z.Framed fwrite) (hstream : r.buflen ≤ y.stream.length)
    (hwrite : y.peer.recvbuf.write r.ptr (y.stream.take r.buflen) = some buf) (htail : r.tail = true) :
    ∀ e ∈ y.peer.program.effects fwrite buf, e.Bounded := by
  obtain ⟨hfits, htakes⟩ := hframed
  obtain ⟨hroom, hle, hread, -⟩ := h.written hstream hwrite
  obtain ⟨hptr, hlength⟩ := h.tail htail
  have harrives : Arrives z.stream := ⟨by omega, by omega⟩
  have hmessage := length_message harrives
  rw [hlength] at hread hroom
  rw [← h.program, effects_bounded_iff (framed_message (hfits harrives.1).1 harrives) (by rwa [hmessage]) (by rwa [hmessage])]
  exact htakes harrives

/-- A side that gets what it can take wherever it begins to receive keeps to its bounds. -/
theorem bounded_of_framed (hbegins : x.Begins)
    (hframed : ∀ y, Reach Listener.step anyStep x y → y.peer.call = .recvIps .start → y.Framed fwrite) : x.Bounded fwrite := by
  intro y hreach n y' hs e he
  cases hcall : y.peer.call with
  | sendIps | returned | fault => simp [Listener.effects, hcall] at he
  | recvIps r =>
    obtain ⟨z, hz, hmid⟩ := exists_midway hbegins (fun z hz hcall => (hframed z hz hcall).1) hreach hcall
    obtain ⟨hn, hstream⟩ := Listener.le_of_step_recvIps hcall hs
    have hlen : (y.stream.take n).length = n := by simp [hstream]
    have hroom := hmid.le_maxBufLength (hframed z hz hmid.call).1 hn hstream
    obtain ⟨buf, hwrite⟩ := y.peer.recvbuf.exists_write r.ptr (y.stream.take n) (by omega)
    unfold Listener.effects Peer.effects at he
    simp only [hcall, hwrite, hlen] at he
    rcases List.mem_cons.1 he with rfl | hrest
    · exact hroom
    · by_cases hmore : r.buflen - n ≠ 0
      · rw [if_pos hmore] at hrest
        cases hrest
      · rw [if_neg hmore] at hrest
        obtain rfl : n = r.buflen := by omega
        cases htail : r.tail with
        | true =>
          rw [if_pos htail] at hrest
          exact hmid.bounded_of_message (hframed z hz hmid.call) hstream hwrite htail e hrest
        | false =>
          rw [if_neg (Bool.eq_false_iff.1 htail), List.mem_singleton] at hrest
          obtain ⟨h4, hfield⟩ := hmid.ofLe_read hstream hwrite (hmid.header htail)
          rw [hrest, hfield]
          exact ((hframed z hz hmid.call).1 h4).1

/-! ## upload receives one message -/

/-- The program of a side stays the one it is. -/
theorem exists_upload (hreach : Reach Listener.step anyStep x y) (hx : ∃ u, x.peer.program = .upload u) :
    ∃ u, y.peer.program = .upload u := by
  have hresume (p : Peer) (hp : ∃ u, p.program = .upload u) : ∃ u, p.resume.program = .upload u := by
    obtain ⟨u, hu⟩ := hp
    exact ⟨(u.resume p.recvbuf).2, by rw [Peer.resume, hu]; rfl⟩
  induction hreach with
  | refl => exact hx
  | step n _ _ hs ih =>
    cases Listener.stepped hs with
    | send | beyond | more | length => exact ih
    | sent | message => exact hresume _ ih

/-- Its `recv_ips` is on its way through the message it began with. -/
theorem upload_midway (hx : ∃ u, x.peer.program = .upload u) (hstart : x.peer.call = .recvIps .start) (hfits : FitsBuffer x.stream)
    (hreach : Reach Listener.step anyStep x y) (hcall : y.peer.call = .recvIps r) : Midway x y r := by
  have hnever (p : Peer) (hp : ∃ u, p.program = .upload u) (r : RecvIps) : p.resume.call ≠ .recvIps r := by
    obtain ⟨u, hu⟩ := hp
    rw [Peer.resume, hu]
    exact u.resume_ne_recvIps _ r
  induction hreach generalizing r with
  | refl =>
    obtain rfl := Call.recvIps.inj (hcall.symm.trans hstart)
    exact .start hstart
  | @step y y' n hreach _ hs ih =>
    have hy := exists_upload hreach hx
    rcases Listener.calls_of_step hs with ⟨rest, hcall₀⟩ | ⟨r₀, hcall₀⟩
    · have hresume := hcall
      rw [Listener.peer_of_sendIps hcall₀ hs hcall] at hresume
      exact absurd hresume (hnever _ hy r)
    · rcases (ih hcall₀).step hfits hcall₀ hs hcall with hmid | ⟨-, recvbuf, read, hy'⟩
      · exact hmid
      · rw [hy'] at hcall
        exact absurd hcall (hnever { y.peer with recvbuf := recvbuf, read := read } hy r)

/-- At the beginning of its `recv_ips` nothing has come yet. -/
theorem Midway.framed (h : Midway x y .start) (hframed : x.Framed fwrite) : y.Framed fwrite := by
  have hstream : x.stream = y.stream := h.stream.trans (by simp [RecvIps.start, Buffer.read])
  unfold Listener.Framed at *
  rwa [← hstream, ← h.program]

end PeerFramingAux

open PeerFramingAux in
/-- For whatever comes to a side and in whatever pieces, and whatever `fwrite` can write: `download` keeps to all its bounds exactly when
wherever it begins to receive, what comes from there on has fewer bytes than a length or begins with a length of at least 4 of a message
that has room in the buffer, or of which no more comes than has room, and of a piece that comes whole all can be written; and `upload`
when this holds of its request, whose length is from 5 to 55 if it comes whole. -/
theorem framing_bounded_iff (fwrite : List Byte → List Byte → Nat) :
    (∀ (fileName : List Byte) (canCreate : Bool) (recvbuf : Buffer) (s : List Byte),
      (⟨Download.start fileName canCreate recvbuf, s⟩ : Listener).Bounded fwrite ↔
        ∀ y, Reach Listener.step anyStep ⟨Download.start fileName canCreate recvbuf, s⟩ y → y.peer.call = .recvIps .start →
          y.Framed fwrite) ∧
    ∀ (files : List Byte → Option (List Byte)) (recvbuf : Buffer) (s : List Byte),
      (⟨Upload.start files recvbuf, s⟩ : Listener).Bounded fwrite ↔
        FitsBuffer s ∧ (Arrives s → intSize + 1 ≤ lengthField s ∧ lengthField s ≤ intSize + 1 + fileNameSize) := by
  refine ⟨fun fileName canCreate recvbuf s => ?_, fun files recvbuf s => ?_⟩
  · exact ⟨fun h y => framed_of_bounded h, bounded_of_framed (Or.inl ⟨_, rfl⟩)⟩
  · have hframed : (⟨Upload.start files recvbuf, s⟩ : Listener).Framed fwrite ↔
        FitsBuffer s ∧ (Arrives s → intSize + 1 ≤ lengthField s ∧ lengthField s ≤ intSize + 1 + fileNameSize) := by
      refine and_congr_right fun _ => forall_congr' fun harrives => ?_
      show (_ = _ → _) ↔ _
      rw [forall_prop_of_true rfl, length_message harrives]
    rw [← hframed]
    constructor
    · intro h
      exact framed_of_bounded h .refl rfl
    · intro h
      refine bounded_of_framed (Or.inr rfl) fun y hreach hcall => ?_
      exact (upload_midway ⟨_, rfl⟩ rfl h.1 hreach hcall).framed h

namespace PeerFramingAux

/-- Some of what the next call does is beyond its bound. -/
def breaks (fwrite : List Byte → List Byte → Nat) (n : Nat) (y : Listener) : Bool :=
  (y.step n).isSome && (y.effects fwrite n).any fun e => !decide e.Bounded

theorem not_bounded_of_breaks (ns : List Nat) (n : Nat) (h : (exec Listener.step x ns).any (breaks fwrite n) = true) :
    ¬x.Bounded fwrite := by
  intro hbounded
  obtain ⟨y, hy, hbreaks⟩ := (Option.any_eq_true _ _).1 h
  obtain ⟨hstep, heffects⟩ := Bool.and_eq_true_iff.1 hbreaks
  obtain ⟨z, hz⟩ := Option.isSome_iff_exists.1 hstep
  obtain ⟨e, he, hnot⟩ := List.any_eq_true.1 heffects
  have hyes := hbounded y (reach_anyStep_of_exec hy) n z hz e he
  simp [hyes] at hnot

/-- `upload` waiting for a request from a peer that sends these bytes. -/
def uploadFrom (s : List Byte) : Listener := ⟨Upload.start (fun _ => none) TransferAux.zeros, s⟩

/-- `download` of a file from a peer that sends these bytes. -/
def downloadFrom (s : List Byte) : Listener := ⟨Download.start [65] true TransferAux.zeros, s⟩

/-- `fwrite` when there is room for everything. -/
def wholeFile (_ bs : List Byte) : Nat := bs.length

/-- And when the disk is full: what stdio's buffer takes. -/
def fullDisk (file bs : List Byte) : Nat := min bs.length (4096 - file.length)

/-- A piece of the file as long as `upload` sends it. -/
def piece : List Byte := frame intSize (List.replicate chunkSize 65)

end PeerFramingAux

open PeerFramingAux in
/-- A length of 3, of which 4 cannot be taken off; a message of 1025 bytes; a request of 56, with 51 bytes for the name; and the fifth
piece of a file when the disk is full. -/
theorem framing_not_bounded :
    ¬(uploadFrom (leBytes intSize 3)).Bounded wholeFile ∧
      ¬(uploadFrom (frame intSize (List.replicate 1021 65))).Bounded wholeFile ∧
      ¬(uploadFrom (frame intSize (2 :: List.replicate 50 65 ++ [0]))).Bounded wholeFile ∧
      ¬(downloadFrom (sizeMessage 5100 ++ (List.replicate 5 piece).flatten)).Bounded fullDisk := by
  refine ⟨?_, ?_, ?_, ?_⟩
  · exact not_bounded_of_breaks [] 4 (by decide +kernel)
  · exact not_bounded_of_breaks [4] 1021 (by decide +kernel)
  · exact not_bounded_of_breaks [4] 52 (by decide +kernel)
  · exact not_bounded_of_breaks [7, 4, 4, 4, 1020, 4, 1020, 4, 1020, 4, 1020, 4] 1020 (by decide +kernel)

end NetworkLayers
