import NetworkLayers.Application.Transfer

/-!
# What send_ips and recv_ips do

Whatever the programs are, as long as they send messages that begin with their length and fit into `recvbuf`: the bytes a side has
read, those on their way and those it has still to send are the messages it was given, and what `recv_ips` leaves in `recvbuf` is the
next of them.
-/

namespace NetworkLayers

open Bytes Framing

/-! ## Buffers -/

/-- What is written stands behind what stood in front of it. -/
theorem Buffer.read_write {b b' : Buffer} {pos : Nat} {bs : List Byte} (h : b.write pos bs = some b') :
    b'.read 0 (pos + bs.length) = b.read 0 pos ++ bs := by
  unfold Buffer.write at h
  split at h
  · rename_i hle
    obtain rfl := Option.some.inj h
    have hlen := b.length_eq
    have htake : (b.bytes.take pos).length = pos := by
      rw [List.length_take, hlen]
      omega
    simp only [Buffer.read, List.drop_zero]
    rw [List.take_append_of_le_length (by simp [htake]), List.take_of_length_le (by simp [htake])]
  · cases h

/-- A write within the buffer goes well. -/
theorem Buffer.exists_write (b : Buffer) (pos : Nat) (bs : List Byte) (h : pos + bs.length ≤ maxBufLength) :
    ∃ b', b.write pos bs = some b' := by
  unfold Buffer.write
  rw [dif_pos h]
  exact ⟨_, rfl⟩

/-- The bytes at the front of the buffer, or some of them. -/
theorem Buffer.read_eq {b : Buffer} {m : List Byte} (h : b.read 0 m.length = m) {pos n : Nat} (hle : pos + n ≤ m.length) :
    b.read pos n = (m.drop pos).take n := by
  have hm : b.bytes.take m.length = m := h
  rw [Buffer.read, ← hm, List.drop_take, List.take_take, min_eq_left (by omega)]

theorem Buffer.length_read (b : Buffer) {n : Nat} (h : n ≤ maxBufLength) : (b.read 0 n).length = n := by
  have hlen := b.length_eq
  simp only [Buffer.read, List.drop_zero, List.length_take, hlen]
  omega

theorem toInt_of_lt {n : Nat} (h : n < 2147483648) : toInt n = n := by
  have hu : u32 n = n := u32_of_lt (by omega)
  unfold toInt
  rw [hu, if_pos h]

/-! ## Messages -/

/-- The length of a message is read back. -/
theorem Buffer.read_length {recvbuf : Buffer} {m : List Byte} (h : recvbuf.read 0 m.length = m) (hm : Framed intSize m)
    (hfits : m.length ≤ maxBufLength) : toInt (ofLe (recvbuf.read 0 intSize)) = m.length := by
  have hlt : m.length < 2147483648 := lt_of_le_of_lt hfits (by decide)
  rw [recvbuf.read_eq h (by simpa using hm.header_le), List.drop_zero, hm.header, toInt_of_lt hlt]

/-- A message that begins with its length, has something behind it and fits into `recvbuf`. -/
structure Message (m : List Byte) : Prop where
  framed : Framed intSize m
  pos : intSize < m.length
  fits : m.length ≤ maxBufLength

theorem message_frame {body : List Byte} (hpos : body ≠ []) (hfits : intSize + body.length ≤ maxBufLength) :
    Message (frame intSize body) where
  framed := framed_frame (lt_of_le_of_lt hfits (by decide))
  pos := by
    have hlen := List.length_pos_of_ne_nil hpos
    rw [length_frame]
    omega
  fits := by
    rw [length_frame]
    exact hfits

/-- The calls a program makes: a message is sent, or a `recv_ips` begins. -/
def Call.Fresh : Call → Prop
  | .sendIps m => Message m
  | .recvIps r => r = .start
  | .returned => True
  | .fault => False

/-- The bytes a side has still to send. -/
def Peer.rest (p : Peer) : List Byte :=
  match p.call with
  | .sendIps rest => rest
  | _ => []

/-- The bytes of the next message a side has. -/
def Peer.part (p : Peer) : List Byte :=
  match p.call with
  | .recvIps r => p.recvbuf.read 0 r.ptr
  | _ => []

/-- What a side is after the return of a call. -/
theorem Peer.program_resume {p : Peer} {c : Call} {program : Program} (h : p.program.resume p.recvbuf = (c, program)) :
    p.resume.program = program := by
  rw [Peer.resume, h]

theorem Peer.call_resume {p : Peer} {c : Call} {program : Program} (h : p.program.resume p.recvbuf = (c, program)) :
    p.resume.call = c := by
  rw [Peer.resume, h]

theorem Peer.sent_resume {p : Peer} {c : Call} {program : Program} (h : p.program.resume p.recvbuf = (c, program)) :
    p.resume.sent = p.sent ++ c.messages := by
  rw [Peer.resume, h]

/-- The loops of `recv_ips`: there are bytes to come, of the length or of the message that has it. -/
structure Reading (sent read : List (List Byte)) (r : RecvIps) : Prop where
  pos : 0 < r.buflen
  header : r.tail = false → r.ptr + r.buflen = intSize
  tail : r.tail = true → intSize ≤ r.ptr ∧ ∃ m later, sent = read ++ m :: later ∧ r.ptr + r.buflen = m.length

/-- The bytes on their way from one side to the other. -/
structure Channel (p q : Peer) (wire : List Byte) : Prop where
  carried : Carried p.sent p.rest wire q.part q.read
  messages : ∀ m ∈ p.sent, Message m
  reading : ∀ r, q.call = .recvIps r → Reading p.sent q.read r

theorem Reading.start (sent read : List (List Byte)) : Reading sent read .start where
  pos := by decide
  header := fun _ => rfl
  tail := nofun

theorem Reading.mono {sent sent' read : List (List Byte)} {r : RecvIps} (h : Reading sent read r) (hle : sent <+: sent') :
    Reading sent' read r where
  pos := h.pos
  header := h.header
  tail htail := by
    obtain ⟨hptr, m, later, hsent, hlen⟩ := h.tail htail
    obtain ⟨more, rfl⟩ := hle
    exact ⟨hptr, m, later ++ more, by simp [hsent], hlen⟩

namespace Channel

variable {p q : Peer} {wire : List Byte} {n : Nat}

/-- Of the next message, the reader has and waits for no more than there is. -/
theorem ptr_add_le (h : Channel p q wire) {r : RecvIps} (hcall : q.call = .recvIps r) :
    r.ptr + r.buflen ≤ maxBufLength := by
  have hr := h.reading r hcall
  cases htail : r.tail with
  | false =>
    rw [hr.header htail]
    decide
  | true =>
    obtain ⟨-, m, later, hsent, hlen⟩ := hr.tail htail
    rw [hlen]
    exact (h.messages m (by simp [hsent])).fits

theorem length_part (h : Channel p q wire) {r : RecvIps} (hcall : q.call = .recvIps r) : q.part.length = r.ptr := by
  have hle := h.ptr_add_le hcall
  simp only [Peer.part, hcall]
  exact q.recvbuf.length_read (by omega)

/-- The side that sends makes its next call. -/
theorem sender_resume (h : Carried p.sent [] wire q.part q.read) (hmessages : ∀ m ∈ p.sent, Message m)
    (hreading : ∀ r, q.call = .recvIps r → Reading p.sent q.read r)
    (hfresh : (p.program.resume p.recvbuf).1.Fresh) : Channel p.resume q wire := by
  cases hcall : (p.program.resume p.recvbuf).1 with
  | sendIps m =>
    have hsent : p.resume.sent = p.sent ++ [m] := by simp [Peer.resume, hcall, Call.messages]
    have hrest : p.resume.rest = m := by simp [Peer.rest, Peer.resume, hcall]
    rw [hcall] at hfresh
    refine ⟨?_, ?_, ?_⟩
    · rw [hsent, hrest]
      exact h.send m
    · intro m' hm'
      rw [hsent, List.mem_append, List.mem_singleton] at hm'
      rcases hm' with hm' | rfl
      · exact hmessages m' hm'
      · exact hfresh
    · intro r hr
      rw [hsent]
      exact (hreading r hr).mono (List.prefix_append _ _)
  | recvIps | returned =>
    have hsent : p.resume.sent = p.sent := by simp [Peer.resume, hcall, Call.messages]
    have hrest : p.resume.rest = [] := by simp [Peer.rest, Peer.resume, hcall]
    exact ⟨by rw [hsent, hrest]; exact h, by rw [hsent]; exact hmessages, by rw [hsent]; exact hreading⟩
  | fault =>
    rw [hcall] at hfresh
    exact hfresh.elim

/-- The side that reads makes its next call. -/
theorem receiver_resume (h : Carried p.sent p.rest wire [] q.read) (hmessages : ∀ m ∈ p.sent, Message m)
    (hfresh : (q.program.resume q.recvbuf).1.Fresh) : Channel p q.resume wire := by
  have hpart : q.resume.part = [] := by
    cases hcall : (q.program.resume q.recvbuf).1 with
    | recvIps r =>
      rw [hcall] at hfresh
      obtain rfl : r = .start := hfresh
      simp [Peer.part, Peer.resume, hcall, RecvIps.start, Buffer.read]
    | sendIps | returned | fault => simp [Peer.part, Peer.resume, hcall]
  refine ⟨?_, hmessages, ?_⟩
  · rw [hpart]
    exact h
  · intro r hr
    have hcall : (q.program.resume q.recvbuf).1 = .recvIps r := hr
    rw [hcall] at hfresh
    obtain rfl : r = .start := hfresh
    exact Reading.start _ _

/-- `send_ips` goes on, or returns with the stream having taken all of its message. -/
theorem sendIps_cases (h : Channel p q wire) {rest : List Byte} (hcall : p.call = .sendIps rest) (hn : n ≤ rest.length) :
    (n < rest.length ∧ p.sendIps rest n = { p with call := .sendIps (rest.drop n) } ∧
        Channel { p with call := .sendIps (rest.drop n) } q (wire ++ rest.take n)) ∨
      (n = rest.length ∧ p.sendIps rest n = p.resume ∧ Carried p.sent [] (wire ++ rest.take n) q.part q.read) := by
  have hrest : p.rest = rest := by simp [Peer.rest, hcall]
  have haccept := h.carried.accept n
  rw [hrest] at haccept
  rcases Nat.lt_or_ge n rest.length with hlt | hge
  · refine Or.inl ⟨hlt, ?_, haccept, h.messages, h.reading⟩
    rw [Peer.sendIps, if_neg (by omega)]
  · have heq : n = rest.length := by omega
    refine Or.inr ⟨heq, ?_, ?_⟩
    · rw [Peer.sendIps, if_pos heq.symm]
    · rw [List.drop_of_length_le hge] at haccept
      exact haccept

/-- What stands in `recvbuf` once `recv_point` has returned some bytes. -/
theorem read_written (h : Channel p q wire) {r : RecvIps} (hcall : q.call = .recvIps r) (hwire : n ≤ wire.length) {buf : Buffer}
    (hbuf : q.recvbuf.write r.ptr (wire.take n) = some buf) :
    buf.read 0 (r.ptr + n) = q.part ++ wire.take n ∧ (q.part ++ wire.take n).length = r.ptr + n ∧
      Carried p.sent p.rest (wire.drop n) (buf.read 0 (r.ptr + n)) q.read := by
  have hlen : (wire.take n).length = n := by simp [hwire]
  have hpart : q.part = q.recvbuf.read 0 r.ptr := by simp [Peer.part, hcall]
  have hread : buf.read 0 (r.ptr + n) = q.part ++ wire.take n := by
    rw [hpart, ← Buffer.read_write hbuf, hlen]
  refine ⟨hread, ?_, ?_⟩
  · rw [List.length_append, h.length_part hcall, hlen]
  · rw [hread]
    exact h.carried.take n

/-- There are still bytes to come in the loop. -/
theorem recvIps_more (h : Channel p q wire) {r : RecvIps} (hcall : q.call = .recvIps r) (hwire : n ≤ wire.length) {buf : Buffer}
    (hbuf : q.recvbuf.write r.ptr (wire.take n) = some buf) (hmore : n < r.buflen) :
    Channel p { q with recvbuf := buf, call := .recvIps { r with ptr := r.ptr + n, buflen := r.buflen - n } } (wire.drop n) := by
  have hr := h.reading r hcall
  refine ⟨(h.read_written hcall hwire hbuf).2.2, h.messages, ?_⟩
  intro r' hr'
  obtain rfl := Call.recvIps.inj hr'
  refine ⟨Nat.sub_pos_of_lt hmore, ?_, ?_⟩
  · intro htail
    have hheader := hr.header htail
    dsimp only
    omega
  · intro htail
    obtain ⟨hptr, m, later, hsent, hm⟩ := hr.tail htail
    refine ⟨?_, m, later, hsent, ?_⟩
    · dsimp only
      omega
    · dsimp only
      omega

/-- The message is there. -/
theorem recvIps_message (h : Channel p q wire) {r : RecvIps} (hcall : q.call = .recvIps r) (hwire : r.buflen ≤ wire.length)
    {buf : Buffer} (hbuf : q.recvbuf.write r.ptr (wire.take r.buflen) = some buf) (htail : r.tail = true) :
    ∃ m later, p.sent = q.read ++ m :: later ∧ m.length = r.ptr + r.buflen ∧ buf.read 0 (r.ptr + r.buflen) = m ∧
      Carried p.sent p.rest (wire.drop r.buflen) [] (q.read ++ [m]) := by
  obtain ⟨-, m, later, hsent, hm⟩ := (h.reading r hcall).tail htail
  obtain ⟨hread, hlen, hcarried⟩ := h.read_written hcall hwire hbuf
  have hprefix := h.carried.next_prefix hsent (n := r.buflen) (by omega)
  have heq : q.part ++ wire.take r.buflen = m := hprefix.eq_of_length (by omega)
  rw [heq] at hread
  rw [hread] at hcarried
  exact ⟨m, later, hsent, hm.symm, hread, hcarried.read_next hsent⟩

/-- The length of the message is there. -/
theorem recvIps_length (h : Channel p q wire) {r : RecvIps} (hcall : q.call = .recvIps r) (hwire : r.buflen ≤ wire.length)
    {buf : Buffer} (hbuf : q.recvbuf.write r.ptr (wire.take r.buflen) = some buf) (htail : r.tail = false) :
    Channel p
      { q with
        recvbuf := buf
        call := .recvIps { ptr := r.ptr + r.buflen, buflen := u32 (ofLe (buf.read 0 intSize) + (4294967296 - intSize)),
                           tail := true } }
      (wire.drop r.buflen) := by
  have hfour : r.ptr + r.buflen = intSize := (h.reading r hcall).header htail
  obtain ⟨hread, hlen, hcarried⟩ := h.read_written hcall hwire hbuf
  have hne : q.part ++ wire ++ p.rest ≠ [] := by
    intro hnil
    obtain ⟨hleft, -⟩ := List.append_eq_nil_iff.1 hnil
    obtain ⟨hpart, hnil'⟩ := List.append_eq_nil_iff.1 hleft
    rw [hpart, hnil', List.take_nil, hfour] at hlen
    cases hlen
  obtain ⟨m, later, hsent⟩ := h.carried.exists_next hne
  have hmsg := h.messages m (by simp [hsent])
  have hpos := hmsg.pos
  have hprefix := h.carried.next_prefix hsent (n := r.buflen) (by omega)
  have hheader : buf.read 0 intSize = m.take intSize := by
    have heq := List.prefix_iff_eq_take.1 hprefix
    rw [hlen, hfour] at heq
    rw [← hfour, hread, heq, hfour]
  have hbuflen : u32 (ofLe (buf.read 0 intSize) + (4294967296 - intSize)) = m.length - intSize := by
    rw [hheader, hmsg.framed.header]
    have hlast := hmsg.fits
    unfold intSize at hpos ⊢
    unfold maxBufLength at hlast
    unfold u32
    omega
  refine ⟨hcarried, h.messages, ?_⟩
  intro r' hr'
  obtain rfl := Call.recvIps.inj hr'
  refine ⟨?_, nofun, fun _ => ⟨hfour.ge, m, later, hsent, ?_⟩⟩
  · dsimp only
    omega
  · dsimp only
    omega

/-- `recv_ips` goes on, or returns with the next message in `recvbuf`. -/
theorem recvIps_cases (h : Channel p q wire) {r : RecvIps} (hcall : q.call = .recvIps r) (hn : n ≤ r.buflen)
    (hwire : n ≤ wire.length) :
    (∃ buf r', q.recvIps r (wire.take n) = { q with recvbuf := buf, call := .recvIps r' } ∧
        Channel p { q with recvbuf := buf, call := .recvIps r' } (wire.drop n)) ∨
      (∃ buf m later, p.sent = q.read ++ m :: later ∧ buf.read 0 m.length = m ∧
        q.recvIps r (wire.take n) = { q with recvbuf := buf, read := q.read ++ [m] }.resume ∧
        Carried p.sent p.rest (wire.drop n) [] (q.read ++ [m])) := by
  have hfits := h.ptr_add_le hcall
  have hlen : (wire.take n).length = n := by simp [hwire]
  obtain ⟨buf, hbuf⟩ := q.recvbuf.exists_write r.ptr (wire.take n) (by omega)
  unfold Peer.recvIps
  simp only [hbuf, hlen]
  rcases Nat.lt_or_eq_of_le hn with hmore | rfl
  · rw [if_pos (by omega)]
    exact Or.inl ⟨buf, _, rfl, h.recvIps_more hcall hwire hbuf hmore⟩
  · rw [if_neg (by omega)]
    cases htail : r.tail with
    | true =>
      obtain ⟨m, later, hsent, hm, hread, hcarried⟩ := h.recvIps_message hcall hwire hbuf htail
      refine Or.inr ⟨buf, m, later, hsent, by rw [hm, hread], ?_, hcarried⟩
      rw [if_pos rfl, hread]
    | false =>
      rw [if_neg Bool.false_ne_true]
      exact Or.inl ⟨buf, _, rfl, h.recvIps_length hcall hwire hbuf htail⟩

/-- A step of `send_ips`, and what it leaves of the bytes on their way in both directions. -/
theorem step_sendIps {back : List Byte} (h : Channel p q wire) (hback : Channel q p back) {rest : List Byte}
    (hcall : p.call = .sendIps rest) (hn : n ≤ rest.length) :
    (∃ rest', rest' ≠ [] ∧ p.sendIps rest n = { p with call := .sendIps rest' } ∧
        Channel { p with call := .sendIps rest' } q (wire ++ rest.take n) ∧ Channel q { p with call := .sendIps rest' } back) ∨
      (p.sendIps rest n = p.resume ∧ ((p.program.resume p.recvbuf).1.Fresh →
        Channel p.resume q (wire ++ rest.take n) ∧ Channel q p.resume back)) := by
  have hpart : p.part = [] := by simp [Peer.part, hcall]
  have hcarried := hback.carried
  rw [hpart] at hcarried
  rcases h.sendIps_cases hcall hn with ⟨hlt, heq, hchannel⟩ | ⟨-, heq, hall⟩
  · refine Or.inl ⟨_, ?_, heq, hchannel, hcarried, hback.messages, nofun⟩
    rw [Ne, List.drop_eq_nil_iff]
    omega
  · refine Or.inr ⟨heq, fun hfresh => ⟨?_, ?_⟩⟩
    · exact sender_resume hall h.messages h.reading hfresh
    · exact receiver_resume hcarried hback.messages hfresh

/-- A step of `recv_ips`. -/
theorem step_recvIps {back : List Byte} (h : Channel p q wire) (hback : Channel q p back) {r : RecvIps}
    (hcall : q.call = .recvIps r) (hn : n ≤ r.buflen) (hwire : n ≤ wire.length) :
    (∃ buf r', q.recvIps r (wire.take n) = { q with recvbuf := buf, call := .recvIps r' } ∧
        Channel p { q with recvbuf := buf, call := .recvIps r' } (wire.drop n) ∧
        Channel { q with recvbuf := buf, call := .recvIps r' } p back) ∨
      (∃ buf m later, p.sent = q.read ++ m :: later ∧ buf.read 0 m.length = m ∧
        q.recvIps r (wire.take n) = { q with recvbuf := buf, read := q.read ++ [m] }.resume ∧
        ((q.program.resume buf).1.Fresh →
          Channel p { q with recvbuf := buf, read := q.read ++ [m] }.resume (wire.drop n) ∧
          Channel { q with recvbuf := buf, read := q.read ++ [m] }.resume p back)) := by
  have hrest : q.rest = [] := by simp [Peer.rest, hcall]
  have hcarried := hback.carried
  rw [hrest] at hcarried
  rcases h.recvIps_cases hcall hn hwire with ⟨buf, r', heq, hchannel⟩ | ⟨buf, m, later, hsent, hread, heq, hall⟩
  · exact Or.inl ⟨buf, r', heq, hchannel, hcarried, hback.messages, hback.reading⟩
  · refine Or.inr ⟨buf, m, later, hsent, hread, heq, fun hfresh => ⟨?_, ?_⟩⟩
    · exact receiver_resume hall h.messages hfresh
    · exact sender_resume hcarried hback.messages hback.reading hfresh

/-- Something is on its way to a side that waits, when there is a message it has not read and nothing to be sent. -/
theorem wire_ne_nil (h : Channel p q wire) {r : RecvIps} (hcall : q.call = .recvIps r) (hrest : p.rest = [])
    (hmore : p.sent ≠ q.read) : wire ≠ [] := by
  rintro rfl
  have hcarried := h.carried
  rw [hrest] at hcarried
  have hr := h.reading r hcall
  obtain ⟨later, hlater⟩ := hcarried.read_prefix
  cases later with
  | nil =>
    rw [List.append_nil] at hlater
    exact hmore hlater.symm
  | cons m later =>
    have hle := hcarried.length_part hlater.symm
    rw [h.length_part hcall] at hle
    have hpos := hr.pos
    cases htail : r.tail with
    | false =>
      have hheader := hr.header htail
      have hm := (h.messages m (by simp [← hlater])).pos
      omega
    | true =>
      obtain ⟨-, m', later', hsent, hlen⟩ := hr.tail htail
      rw [hsent, List.append_cancel_left_eq] at hlater
      obtain ⟨rfl, -⟩ := List.cons.inj hlater
      omega

/-- The bytes a side has taken and those on their way to it are the ones the other has sent. -/
theorem count (h : Channel p q wire) :
    q.read.flatten.length + q.part.length + wire.length + p.rest.length = p.sent.flatten.length := by
  have hlen := congrArg List.length h.carried.bytes
  simpa only [List.length_append] using hlen

end Channel

/-- What a step is made of. -/
theorem Transfer.step_cases {s s' : Transfer} {x : Side} {n : Nat} (hs : s.step (x, n) = some s') :
    (∃ rest, (s.peer x).call = .sendIps rest ∧ n ≤ rest.length ∧
      s' = { peer := Function.update s.peer x ((s.peer x).sendIps rest n)
             stream := Function.update s.stream x.other (s.stream x.other ++ rest.take n) }) ∨
    ∃ r, (s.peer x).call = .recvIps r ∧ n ≤ r.buflen ∧ n ≤ (s.stream x).length ∧
      s' = { peer := Function.update s.peer x ((s.peer x).recvIps r ((s.stream x).take n))
             stream := Function.update s.stream x ((s.stream x).drop n) } := by
  unfold Transfer.step at hs
  cases hcall : (s.peer x).call with
  | sendIps rest =>
    simp only [hcall] at hs
    split at hs
    · rename_i hn
      exact Or.inl ⟨rest, rfl, hn, (Option.some.inj hs).symm⟩
    · cases hs
  | recvIps r =>
    simp only [hcall] at hs
    split at hs
    · rename_i hn
      exact Or.inr ⟨r, rfl, hn.1, hn.2, (Option.some.inj hs).symm⟩
    · cases hs
  | returned => rw [hcall] at hs; cases hs
  | fault => rw [hcall] at hs; cases hs

end NetworkLayers
