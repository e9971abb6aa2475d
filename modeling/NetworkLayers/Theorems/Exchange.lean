import NetworkLayers.Application.Exchange
import NetworkLayers.Theorems.Connection
import NetworkLayers.Theorems.Transfer

/-!
# A file is transferred over everything below

`download` and `upload` over two service points, with all layers of their hosts, the garblers and UDP below them, do what they do over
two streams that lose nothing: `Application.Exchange` refines `Application.Transfer`.
-/

namespace NetworkLayers

open Transition Bytes Framing

namespace ExchangeAux

open TransferAux

variable {fileName file : List Byte} {canCreate : Bool} {files : List Byte → Option (List Byte)} {p : Peer} {rest : List Byte}
  {r : RecvIps}

/-! ## What the programs have sent -/

/-- The next message is sent. -/
theorem flatten_resume (p : Peer) : p.resume.sent.flatten = p.sent.flatten ++ p.resume.rest := by
  have hcall : p.resume.call = (p.program.resume p.recvbuf).1 := rfl
  have hsent : p.resume.sent = p.sent ++ (p.program.resume p.recvbuf).1.messages := rfl
  rw [hsent, List.flatten_append, Peer.rest, hcall]
  cases (p.program.resume p.recvbuf).1 <;> simp [Call.messages]

/-- A `send_ips` goes on with the rest, or the program with the next call. -/
theorem sendIps_sent (p : Peer) (rest : List Byte) (n : Nat) : ∃ more,
    (p.sendIps rest n).sent.flatten = p.sent.flatten ++ more ∧ (p.sendIps rest n).rest = rest.drop n ++ more := by
  unfold Peer.sendIps
  split
  · rename_i hlen
    refine ⟨p.resume.rest, flatten_resume p, ?_⟩
    rw [List.drop_of_length_le (by omega), List.nil_append]
  · exact ⟨[], (List.append_nil _).symm, (List.append_nil _).symm⟩

theorem recvIps_sent (p : Peer) (r : RecvIps) (bs : List Byte) :
    (p.recvIps r bs).sent.flatten = p.sent.flatten ++ (p.recvIps r bs).rest := by
  unfold Peer.recvIps
  split
  · exact (List.append_nil _).symm
  · dsimp only
    split
    · exact (List.append_nil _).symm
    · split
      · exact flatten_resume _
      · exact (List.append_nil _).symm

/-- What `upload` has sent of the file in pieces, and what is left: every piece but the last is as long as it can be. -/
structure Pieces (file : List Byte) (sent cs : List (List Byte)) (left : List Byte) : Prop where
  sent : sent = sizeMessage file.length :: cs.map (frame intSize)
  file : cs.flatten ++ left = file
  full : chunkSize * cs.length ≤ cs.flatten.length + if left = [] then chunkSize - 1 else 0

/-- `upload` has sent nothing, or the size and pieces of the file. -/
def Filled (file : List Byte) (sent : List (List Byte)) : Prop := sent = [] ∨ ∃ cs left, Pieces file sent cs left

theorem filled_loop {u : Upload} {cs : List (List Byte)} {left : List Byte} (h : Pieces file p.sent cs left)
    (hresume : p.program.resume p.recvbuf = ((u.loop left.length left).1, .upload (u.loop left.length left).2)) :
    Filled file p.resume.sent := by
  have hsent := Peer.sent_resume hresume
  by_cases hleft : left = []
  · subst hleft
    exact Or.inr ⟨cs, [], by rw [hsent, h.sent]; exact List.append_nil _, h.file, h.full⟩
  · have hpos : 0 < left.length := List.length_pos_of_ne_nil hleft
    have hcall : (u.loop left.length left).1 = .sendIps (frame intSize (left.take chunkSize)) := by
      rw [Upload.loop, if_pos (by exact_mod_cast hpos)]
    rw [hcall] at hsent
    refine Or.inr ⟨cs ++ [left.take chunkSize], left.drop chunkSize, ?_, ?_, ?_⟩
    · rw [hsent, h.sent, List.map_append]
      rfl
    · rw [List.flatten_append, List.flatten_singleton, List.append_assoc, List.take_append_drop, h.file]
    · have hfull := h.full
      rw [if_neg hleft] at hfull
      simp only [List.length_append, List.length_singleton, List.flatten_append, List.flatten_singleton, List.length_take,
        Nat.mul_add, Nat.mul_one, List.drop_eq_nil_iff]
      split <;> omega

/-- `upload` has sent a message. -/
theorem filled_sent (h : Filled file p.sent) (hat : UploadAt file files p) (hcall : p.call = .sendIps rest) :
    Filled file p.resume.sent := by
  cases hat with
  | request _ _ hrecv => cases hcall.symm.trans hrecv
  | size _ hprogram _ _ hsent =>
    have hpieces : Pieces file p.sent [] file := ⟨hsent, rfl, Nat.zero_le _⟩
    refine filled_loop (u := { pc := .size file.length, files := files, file := some file }) hpieces ?_
    rw [hprogram]
    rfl
  | sending _ cs left hprogram _ _ hsent hfile =>
    have hpieces : Pieces file p.sent cs left := by
      rcases h with hnone | ⟨cs', left', hpieces⟩
      · rw [hsent] at hnone
        cases hnone
      · have hmap := (List.cons.inj (hpieces.sent.symm.trans hsent)).2
        obtain rfl := List.map_injective_iff.2 (frame_injective intSize) hmap
        obtain rfl : left' = left := List.append_cancel_left (hpieces.file.trans hfile.symm)
        exact hpieces
    refine filled_loop (u := { pc := .sending left.length, files := files, file := some left }) hpieces ?_
    rw [hprogram]
    rfl
  | done _ _ _ hdone => cases hcall.symm.trans hdone

/-- `upload` has read the request. -/
theorem filled_read {buf : Buffer} {read : List (List Byte)} (hat : UploadAt file files p) (hcall : p.call = .recvIps r)
    (hat' : UploadAt file files { p with recvbuf := buf, read := read }.resume) :
    Filled file ({ p with recvbuf := buf, read := read } : Peer).resume.sent := by
  cases hat with
  | request _ _ _ hsent =>
    have hlen : ({ p with recvbuf := buf, read := read } : Peer).resume.sent.length ≤ 1 := by
      show (p.sent ++ (p.program.resume buf).1.messages).length ≤ 1
      rw [hsent, List.nil_append]
      cases (p.program.resume buf).1 <;> simp [Call.messages]
    have hnone : ∀ cs : List (List Byte), ({ p with recvbuf := buf, read := read } : Peer).resume.sent =
        sizeMessage file.length :: cs.map (frame intSize) → cs = [] := by
      intro cs hcs
      rw [hcs, List.length_cons, List.length_map] at hlen
      exact List.length_eq_zero_iff.1 (by omega)
    cases hat' with
    | request _ _ _ hsent' => exact Or.inl hsent'
    | size _ _ _ _ hsent' => exact Or.inr ⟨[], file, hsent', rfl, Nat.zero_le _⟩
    | sending _ cs left _ _ _ hsent' hfile =>
      obtain rfl := hnone cs hsent'
      exact Or.inr ⟨[], left, hsent', hfile, Nat.zero_le _⟩
    | done _ cs _ _ hsent' hfile =>
      obtain rfl := hnone cs hsent'
      exact Or.inr ⟨[], [], hsent', hfile, Nat.zero_le _⟩
  | size _ _ hsend => cases hcall.symm.trans hsend
  | sending _ _ _ _ hsend => cases hcall.symm.trans hsend
  | done _ _ _ hdone => cases hcall.symm.trans hdone

theorem filled_step {T T' : Transfer} {x : Side} {n : Nat} (hf : Filled file (T.peer .b).sent)
    (h : Transfers fileName file canCreate files T) (h' : Transfers fileName file canCreate files T')
    (hs : T.step (x, n) = some T') : Filled file (T'.peer .b).sent := by
  have hat' := h'.upload
  rcases Transfer.step_cases hs with ⟨rest, hcall, -, rfl⟩ | ⟨r, hcall, -, -, rfl⟩
  · cases x with
    | a => exact hf
    | b =>
      simp only [Function.update_self]
      unfold Peer.sendIps
      split
      · exact filled_sent hf h.upload hcall
      · exact hf
  · cases x with
    | a => exact hf
    | b =>
      simp only [Function.update_self] at hat' ⊢
      unfold Peer.recvIps at hat' ⊢
      split
      · exact hf
      · rename_i buf hwrite
        rw [hwrite] at hat'
        dsimp only at hat' ⊢
        split
        · exact hf
        · rename_i hbuflen
          rw [if_neg hbuflen] at hat'
          split
          · rename_i htail
            rw [if_pos htail] at hat'
            exact filled_read h.upload hcall hat'
          · exact hf

theorem length_frames (cs : List (List Byte)) :
    (cs.map (frame intSize)).flatten.length = intSize * cs.length + cs.flatten.length := by
  induction cs with
  | nil => rfl
  | cons c cs ih =>
    simp only [List.map_cons, List.flatten_cons, List.length_append, length_frame, List.length_cons, ih, Nat.mul_add, Nat.mul_one]
    omega

/-- The programs send fewer bytes than there are sequence numbers. -/
theorem sent_lt {T : Transfer} (h : Transfers fileName file canCreate files T) (hf : Filled file (T.peer .b).sent)
    (hname : fileName.length < fileNameSize) (hmax : file.length < 2147483648) (x : Side) :
    (T.peer x).sent.flatten.length + 1 < maxSeqNum := by
  cases x with
  | a =>
    rw [h.download.sent_eq, List.flatten_singleton, requestMessage, length_frame]
    unfold fileNameSize at hname
    simp only [List.length_append, List.length_cons, List.length_nil, intSize, maxSeqNum]
    omega
  | b =>
    rcases hf with hnone | ⟨cs, left, hpieces⟩
    · rw [hnone]
      decide
    · have hfull := hpieces.full
      have hfile := congrArg List.length hpieces.file
      rw [hpieces.sent, List.flatten_cons, List.length_append, length_frames, sizeMessage, length_frame, length_leBytes]
      rw [List.length_append] at hfile
      unfold chunkSize maxBufLength intSize at *
      unfold maxSeqNum
      split at hfull <;> omega

/-! ## What the points do -/

section Points

open ConnectionAux

variable {t : Topology} {e : Ends} {c c' : Connection} {x : Side}

/-- No application has called anything at a point. -/
structure SameCalls (p p' : Endpoint) : Prop where
  accepted : p'.history.accepted = p.history.accepted
  returned : p'.history.returned = p.history.returned
  waiting : p'.waiting = p.waiting

theorem same_does {here : Addr} {p p' : Endpoint} {act : PointAction} {out : List Packet} (hdoes : p.Does here act p' out)
    (hf : p.sp.flagCon = .comConexao) (hcall : ¬(ConnectionAction.point x act).IsCall) : SameCalls p p' := by
  have hnotOpening := FlagCon.ne_of_inConnection (Or.inl hf)
  cases hdoes with
  | sync | close | send | deposit | recv => exact absurd trivial hcall
  | acceptSync _ _ _ _ hf' => exact absurd hf' hnotOpening.1
  | acceptSyncAck _ _ _ _ hf' => exact absurd hf' hnotOpening.2
  | _ => exact ⟨rfl, rfl, rfl⟩

theorem same_rest (hlinks : FitsLinks t (maxSegmentSize + transportHeaderSize)) (htracks : Tracks t e c)
    (hf : ∀ y, (c.point y).sp.flagCon = .comConexao) {a : ConnectionAction} (hfits : a.Fits t e) (hcall : ¬a.IsCall)
    (hs : c.step t e a = some c') (y : Side) : SameCalls (c.point y) (c'.point y) := by
  obtain ⟨-, hsame | ⟨⟨w, act⟩, hm, hstep⟩⟩ := tracks_step hlinks htracks hfits hs
  · have hpoint : c'.point = c.point := congrArg Session.point hsame
    rw [hpoint]
    exact ⟨rfl, rfl, rfl⟩
  · have hcall' : ¬(ConnectionAction.point w act).IsCall := by
      cases a with
      | point x act' =>
        obtain ⟨rfl, rfl⟩ := Prod.mk.inj hm
        exact hcall
      | recvThread x rnd | syncThread x i rnd =>
        obtain ⟨pkt, hpkt⟩ := hm
        obtain ⟨rfl, rfl⟩ := Prod.mk.inj hpkt
        exact id
      | internalrecv n | below b => exact hm.elim
    obtain ⟨p, out, -, hact, hw, hother, -⟩ := Session.step_cases hstep
    have hw' : c'.point w = p := hw
    have hother' : c'.point w.other = c.point w.other := hother
    rcases Side.eq_or_eq_other w y with rfl | rfl
    · rw [hw']
      exact same_does (act_does hact) (hf y) hcall'
    · rw [hother']
      exact ⟨rfl, rfl, rfl⟩

/-- A call at a point leaves the other point. -/
theorem point_call {act : PointAction} (hcall : (ConnectionAction.point x act).IsCall) (hs : c.step t e (.point x act) = some c') :
    (∃ out, (c.point x).act (e.places.addr x) act = some (c'.point x, out)) ∧ c'.point x.other = c.point x.other := by
  have hs : ((c.point x).act (e.places.addr x) act).bind (c.send t e x) = some c' := by
    cases act with
    | recvThread pkt rnd => exact hcall.elim
    | _ => exact hs
  obtain ⟨⟨p, out⟩, hact, hsend⟩ := Option.bind_eq_some_iff.1 hs
  obtain ⟨stack, -, rfl⟩ := Option.map_eq_some_iff.1 hsend
  exact ⟨⟨out, by simp only [hact, Function.update_self]⟩, Function.update_of_ne (Side.other_ne x) ..⟩

/-- `recv_point` returns no more than it is asked for. -/
theorem length_recvSeg_le (l : List SegLst) (size : Nat) : (recvSeg l size).2.length ≤ size := by
  induction l generalizing size with
  | nil => exact Nat.zero_le _
  | cons e l ih =>
    unfold recvSeg
    split
    · exact Nat.zero_le _
    · split
      · have hrest := ih (size - e.size)
        simp only [List.length_append, List.length_take]
        omega
      · exact List.length_take_le _ _

end Points

/-! ## The streams that the points are -/

section Streams

variable {t : Topology} {e : Ends} {s s' : Exchange} {T T' : Transfer} {x : Side}

/-- What one point has accepted and the other not returned is the stream between them, and a program that is in a `send_point` waits
for its copy to be taken. -/
structure Follows (s : Exchange) (T : Transfer) : Prop where
  peer : T.peer = s.peer
  stream : ∀ x, (s.connection.point x).history.returned ++ T.stream x = (s.connection.point x.other).history.accepted
  sent : ∀ x, (s.connection.point x).history.accepted ++ (s.peer x).rest = (s.peer x).sent.flatten
  waiting : ∀ x, (s.connection.point x).waiting = [] ∨
    ∃ rest, (s.peer x).call = .sendIps rest ∧ (s.connection.point x).waiting = [rest.take maxSendSize]

/-- What has to be shown where one side has changed. -/
theorem Follows.of_side (h : Follows s T) {p : Peer} (hother : s'.connection.point x.other = s.connection.point x.other)
    (hpeer : s'.peer = Function.update s.peer x p) (hpeer' : T'.peer = Function.update T.peer x p)
    (hin : (s'.connection.point x).history.returned ++ T'.stream x = (s.connection.point x.other).history.accepted)
    (hout : (s.connection.point x.other).history.returned ++ T'.stream x.other = (s'.connection.point x).history.accepted)
    (hsent : (s'.connection.point x).history.accepted ++ p.rest = p.sent.flatten)
    (hwaiting : (s'.connection.point x).waiting = [] ∨
      ∃ rest, p.call = .sendIps rest ∧ (s'.connection.point x).waiting = [rest.take maxSendSize]) : Follows s' T' := by
  have hpeerOther : s'.peer x.other = s.peer x.other := by rw [hpeer, Function.update_of_ne (Side.other_ne x)]
  have hpeerSelf : s'.peer x = p := by rw [hpeer, Function.update_self]
  refine ⟨by rw [hpeer', hpeer, h.peer], fun y => ?_, fun y => ?_, fun y => ?_⟩
  · rcases Side.eq_or_eq_other x y with rfl | rfl
    · rw [hother]
      exact hin
    · rw [Side.other_other, hother]
      exact hout
  · rcases Side.eq_or_eq_other x y with rfl | rfl
    · rw [hpeerSelf]
      exact hsent
    · rw [hpeerOther, hother]
      exact h.sent x.other
  · rcases Side.eq_or_eq_other x y with rfl | rfl
    · rw [hpeerSelf]
      exact hwaiting
    · rw [hpeerOther, hother]
      exact h.waiting x.other

/-- The threads leave the streams as they are. -/
theorem follows_rest (h : Follows s T) {c : Connection} (hsame : ∀ y, SameCalls (s.connection.point y) (c.point y)) :
    Follows { s with connection := c } T where
  peer := h.peer
  stream y := by rw [(hsame y).returned, (hsame y.other).accepted, h.stream y]
  sent y := by rw [(hsame y).accepted, h.sent y]
  waiting y := by rw [(hsame y).waiting]; exact h.waiting y

/-- A call of `send_point` begins, and waits with its copy. -/
theorem follows_begin (h : Follows s T) (hf : (s.connection.point x).sp.flagCon = .comConexao)
    (hwaiting : (s.connection.point x).waiting = []) {rest : List Byte} (hcall : (s.peer x).call = .sendIps rest) {c : Connection}
    (hc : s.connection.step t e (.point x (.sendPoint rest)) = some c) : Follows { s with connection := c } T := by
  have hsend : (ConnectionAction.point x (.sendPoint rest)).IsCall := trivial
  obtain ⟨⟨out, hact⟩, hother⟩ := point_call hsend hc
  obtain ⟨p, hp, heq⟩ := Option.map_eq_some_iff.1 hact
  obtain rfl : p = c.point x := congrArg Prod.fst heq
  rw [Endpoint.sendPoint, if_pos hf] at hp
  split at hp
  · cases hp
  have hpoint := Option.some.inj hp
  refine h.of_side (x := x) (p := s.peer x) hother (Function.update_eq_self ..).symm
    (by rw [h.peer]; exact (Function.update_eq_self ..).symm) ?_ ?_ ?_ (Or.inr ⟨rest, hcall, ?_⟩)
  · rw [← hpoint]
    exact h.stream x
  · rw [← hpoint]
    have hback := h.stream x.other
    rwa [Side.other_other] at hback
  · rw [← hpoint]
    exact h.sent x
  · rw [← hpoint, hwaiting]
    rfl

/-- A call of `recv_point` returns what is in `segs`, the start of the stream. -/
theorem follows_recv (h : Follows s T) (hstart : (s.connection.point x).history.returned ++ segBytes (s.connection.point x).sp.segs <+:
      (s.connection.point x.other).history.accepted) (hwaiting : (s.connection.point x).waiting = []) {r : RecvIps}
    (hcall : (s.peer x).call = .recvIps r) {c : Connection}
    (hc : s.connection.step t e (.point x (.recvPoint r.buflen)) = some c) :
    ∃ m T', T.step m = some T' ∧ Follows
      { connection := c
        peer := Function.update s.peer x ((s.peer x).recvIps r (recvSeg (s.connection.point x).sp.segs r.buflen).2) } T' := by
  have hrecv : (ConnectionAction.point x (.recvPoint r.buflen)).IsCall := trivial
  obtain ⟨⟨out, hact⟩, hother⟩ := point_call hrecv hc
  have hpoint : (s.connection.point x).recvPoint r.buflen = c.point x := congrArg Prod.fst (Option.some.inj hact)
  generalize hbs : (recvSeg (s.connection.point x).sp.segs r.buflen).2 = bs
  have hreturned : (c.point x).history.returned = (s.connection.point x).history.returned ++ bs := by
    rw [← hpoint, ← hbs]
    rfl
  have hstream := h.stream x
  have hbytes : segBytes (s.connection.point x).sp.segs <+: T.stream x := by
    rw [← hstream] at hstart
    exact (List.prefix_append_right_inj _).1 hstart
  have hle : bs <+: T.stream x := by
    refine List.IsPrefix.trans ?_ hbytes
    rw [← recvSeg_bytes _ r.buflen, hbs]
    exact List.prefix_append _ _
  have htake : (T.stream x).take bs.length = bs := (List.prefix_iff_eq_take.1 hle).symm
  have hn : bs.length ≤ r.buflen := hbs ▸ length_recvSeg_le _ _
  have hcall' : (T.peer x).call = .recvIps r := by rw [h.peer, hcall]
  have hstep : T.step (x, bs.length) = some
      { peer := Function.update T.peer x ((T.peer x).recvIps r ((T.stream x).take bs.length))
        stream := Function.update T.stream x ((T.stream x).drop bs.length) } := by
    simp only [Transfer.step, hcall', if_pos (And.intro hn hle.length_le)]
  refine ⟨_, _, hstep, ?_⟩
  refine h.of_side (x := x) (p := (s.peer x).recvIps r bs) hother rfl (by rw [htake, h.peer]) ?_ ?_ ?_ (Or.inl ?_)
  · simp only [Function.update_self]
    rw [hreturned, ← hstream, List.append_assoc]
    conv_lhs => rw [← htake]
    rw [List.length_take_of_le hle.length_le, List.take_append_drop]
  · simp only [Function.update_of_ne (Side.other_ne x)]
    rw [← hpoint]
    have hback := h.stream x.other
    rwa [Side.other_other] at hback
  · rw [recvIps_sent, ← h.sent x, ← hpoint]
    have hrest : (s.peer x).rest = [] := by rw [Peer.rest, hcall]
    rw [hrest, List.append_nil]
    rfl
  · rw [← hpoint]
    exact hwaiting

/-- A call begins, of `send_point` or of `recv_point`. -/
theorem follows_call (h : Follows s T) (hf : ∀ y, (s.connection.point y).sp.flagCon = .comConexao)
    (hstart : ∀ y, (s.connection.point y).history.returned ++ segBytes (s.connection.point y).sp.segs <+:
      (s.connection.point y.other).history.accepted) (hs : s.call t e x = some s') :
    Follows s' T ∨ ∃ m T', T.step m = some T' ∧ Follows s' T' := by
  unfold Exchange.call at hs
  split at hs
  · cases hs
  rename_i hwaiting
  cases hcall : (s.peer x).call with
  | returned | fault =>
    simp only [hcall] at hs
    cases hs
  | sendIps rest =>
    simp only [hcall, if_pos (hf x)] at hs
    obtain ⟨c, hc, rfl⟩ := Option.map_eq_some_iff.1 hs
    exact Or.inl (follows_begin h (hf x) (not_not.1 hwaiting) hcall hc)
  | recvIps r =>
    simp only [hcall] at hs
    obtain ⟨c, hc, rfl⟩ := Option.map_eq_some_iff.1 hs
    exact Or.inr (follows_recv h (hstart x) (not_not.1 hwaiting) hcall hc)

/-- A call of `send_point` returns. -/
theorem follows_sent (h : Follows s T) (hs : s.sent t e x = some s') : ∃ m T', T.step m = some T' ∧ Follows s' T' := by
  unfold Exchange.sent at hs
  split at hs
  · rename_i rest buf more hcall hwaiting
    obtain ⟨c, hc, rfl⟩ := Option.map_eq_some_iff.1 hs
    have hput : (ConnectionAction.point x (.sendPut 0)).IsCall := trivial
    obtain ⟨⟨out, hact⟩, hother⟩ := point_call hput hc
    obtain ⟨p, hp, heq⟩ := Option.map_eq_some_iff.1 hact
    obtain rfl : p = c.point x := congrArg Prod.fst heq
    -- the call has a copy of the first bytes of the rest
    obtain ⟨rfl, rfl⟩ : buf = rest.take maxSendSize ∧ more = [] := by
      rcases h.waiting x with hnone | ⟨rest', hcall', hwaiting'⟩
      · rw [hnone] at hwaiting
        cases hwaiting
      · obtain rfl := Call.sendIps.inj (hcall.symm.trans hcall')
        exact List.cons.inj (hwaiting.symm.trans hwaiting')
    unfold Endpoint.sendPut at hp
    rw [hwaiting] at hp
    simp only [List.getElem?_cons_zero] at hp
    split at hp
    · cases hp
    have hpoint := Option.some.inj hp
    generalize hbuf : rest.take maxSendSize = buf at hpoint hwaiting
    have hn : buf.length ≤ rest.length := by
      rw [← hbuf]
      exact List.length_take_le' _ _
    have htake : rest.take buf.length = buf := by
      have hle : buf <+: rest := hbuf ▸ List.take_prefix _ _
      exact (List.prefix_iff_eq_take.1 hle).symm
    have haccepted : (c.point x).history.accepted = (s.connection.point x).history.accepted ++ buf := by
      rw [← hpoint]
      rfl
    have hcall' : (T.peer x).call = .sendIps rest := by rw [h.peer, hcall]
    obtain ⟨message, hsent, hrest⟩ := sendIps_sent (s.peer x) rest buf.length
    have hstep : T.step (x, buf.length) = some
        { peer := Function.update T.peer x ((T.peer x).sendIps rest buf.length)
          stream := Function.update T.stream x.other (T.stream x.other ++ rest.take buf.length) } := by
      simp only [Transfer.step, hcall', if_pos hn]
    refine ⟨_, _, hstep, ?_⟩
    refine h.of_side (x := x) (p := (s.peer x).sendIps rest buf.length) hother rfl (by rw [h.peer]) ?_ ?_ ?_ (Or.inl ?_)
    · simp only [Function.update_of_ne (Side.ne_other x)]
      rw [← hpoint]
      exact h.stream x
    · have hback := h.stream x.other
      rw [Side.other_other] at hback
      simp only [Function.update_self]
      rw [haccepted, ← hback, htake, List.append_assoc]
    · have hold := h.sent x
      rw [Peer.rest, hcall] at hold
      rw [hsent, hrest, haccepted, ← hold]
      conv_rhs => rw [← List.take_append_drop buf.length rest, htake]
      simp only [List.append_assoc]
    · rw [← hpoint]
      show (s.connection.point x).waiting.eraseIdx 0 = []
      rw [hwaiting]
      rfl
  · cases hs

end Streams

end ExchangeAux

/-- The condition on a step: one of the rest is within its types, as below the two points. -/
def ExchangeAction.Fits (t : Topology) (e : Ends) : ExchangeAction → Prop
  | .call _ | .sent _ => True
  | .rest a => a.Fits t e

instance ExchangeAction.Fits.decidable (t : Topology) (e : Ends) : ∀ a, Decidable (ExchangeAction.Fits t e a)
  | .call _ | .sent _ => inferInstanceAs (Decidable True)
  | .rest a => inferInstanceAs (Decidable (a.Fits t e))

namespace ExchangeAux

open TransferAux ConnectionAux

variable {t : Topology} {e : Ends} {q : Side → Nat} {fileName file : List Byte} {canCreate : Bool}
  {files : List Byte → Option (List Byte)} {s s' : Exchange} {T T' : Transfer}

/-! ## The whole exchange -/

/-- A step of the threads is one of the connection. -/
theorem rest_eq_some {a : ConnectionAction} (hs : s.step t e (.rest a) = some s') :
    ¬a.IsCall ∧ ∃ c, s.connection.step t e a = some c ∧ { s with connection := c } = s' := by
  have hs : (if a.IsCall then none else (s.connection.step t e a).map fun c => { s with connection := c }) = some s' := hs
  split at hs
  · cases hs
  · rename_i hcall
    exact ⟨hcall, Option.map_eq_some_iff.1 hs⟩

/-- What a step of the exchange is to the connection. -/
theorem exists_connection_step {a : ExchangeAction} (hfits : a.Fits t e) (hs : s.step t e a = some s') :
    ∃ b : ConnectionAction, b.Fits t e ∧ b.KeepsOpen ∧ s.connection.step t e b = some s'.connection := by
  cases a with
  | call x =>
    have hs : s.call t e x = some s' := hs
    unfold Exchange.call at hs
    split at hs
    · cases hs
    cases hcall : (s.peer x).call with
    | returned | fault =>
      simp only [hcall] at hs
      cases hs
    | sendIps rest =>
      simp only [hcall] at hs
      obtain ⟨c, hc, rfl⟩ := Option.map_eq_some_iff.1 hs
      refine ⟨.point x (.sendPoint rest), trivial, trivial, hc.trans ?_⟩
      split <;> rfl
    | recvIps r =>
      simp only [hcall] at hs
      obtain ⟨c, hc, rfl⟩ := Option.map_eq_some_iff.1 hs
      exact ⟨.point x (.recvPoint r.buflen), trivial, trivial, hc⟩
  | sent x =>
    have hs : s.sent t e x = some s' := hs
    unfold Exchange.sent at hs
    split at hs
    · obtain ⟨c, hc, rfl⟩ := Option.map_eq_some_iff.1 hs
      exact ⟨.point x (.sendPut 0), trivial, trivial, hc⟩
    · cases hs
  | rest a =>
    obtain ⟨hcall, c, hc, rfl⟩ := rest_eq_some hs
    refine ⟨a, hfits, ?_, hc⟩
    -- what is no call does not close the connection
    cases a with
    | point x act =>
      cases act with
      | closeConn => exact (hcall trivial).elim
      | _ => trivial
    | _ => trivial

/-- What holds along every run, with the two streams that the connection is. -/
structure Carries (t : Topology) (e : Ends) (q : Side → Nat) (fileName file : List Byte) (canCreate : Bool)
    (files : List Byte → Option (List Byte)) (s : Exchange) (T : Transfer) : Prop where
  streams : ∀ x, Streams t e x (q x) s.connection
  follows : Follows s T
  transfers : Transfers fileName file canCreate files T
  filled : Filled file (T.peer .b).sent

theorem Carries.flagCon (h : Carries t e q fileName file canCreate files s T) (x : Side) :
    (s.connection.point x).sp.flagCon = .comConexao := (h.streams x).opened.flagCon

/-- The numbers of the connection last for both programs. -/
theorem Carries.start_of (h : Carries t e q fileName file canCreate files s T) (hname : fileName.length < fileNameSize)
    (hmax : file.length < 2147483648) (x : Side) :
    (s.connection.point x).history.returned ++ segBytes (s.connection.point x).sp.segs <+:
      (s.connection.point x.other).history.accepted := by
  have hlen : (s.connection.point x.other).history.accepted.length + 1 < maxSeqNum := by
    have hsent := congrArg List.length (h.follows.sent x.other)
    have hlt := sent_lt h.transfers h.filled hname hmax x.other
    rw [h.follows.peer] at hlt
    rw [List.length_append] at hsent
    omega
  have hstart := (h.streams x.other).opened.start_of hlen
  rwa [Side.other_other] at hstart

theorem carries_step (hlinks : FitsLinks t (maxSegmentSize + transportHeaderSize)) (hq : ∀ x, q x < maxSeqNum)
    (hname : fileName.length < fileNameSize) (hnul : (0 : Byte) ∉ fileName) (hfile : files fileName = some file)
    (hmax : file.length < 2147483648) (h : Carries t e q fileName file canCreate files s T) {a : ExchangeAction} (hfits : a.Fits t e)
    (hs : s.step t e a = some s') :
    Carries t e q fileName file canCreate files s' T ∨
      ∃ m T', T.step m = some T' ∧ Carries t e q fileName file canCreate files s' T' := by
  obtain ⟨b, hb, hopen, hconnection⟩ := exists_connection_step hfits hs
  have hstreams : ∀ x, Streams t e x (q x) s'.connection := fun x => streams_step hlinks (h.streams x) (hq x) hb hopen hconnection
  have hstep : ∀ m T', T.step m = some T' → Follows s' T' → Carries t e q fileName file canCreate files s' T' := by
    rintro ⟨x, n⟩ T' hT hfollows
    have htransfers := h.transfers.step hname hnul hfile hmax hT
    exact ⟨hstreams, hfollows, htransfers, filled_step h.filled h.transfers htransfers hT⟩
  cases a with
  | call x =>
    rcases follows_call h.follows h.flagCon (h.start_of hname hmax) hs with hfollows | ⟨m, T', hT, hfollows⟩
    · exact Or.inl ⟨hstreams, hfollows, h.transfers, h.filled⟩
    · exact Or.inr ⟨m, T', hT, hstep m T' hT hfollows⟩
  | sent x =>
    obtain ⟨m, T', hT, hfollows⟩ := follows_sent h.follows hs
    exact Or.inr ⟨m, T', hT, hstep m T' hT hfollows⟩
  | rest a =>
    obtain ⟨hcall, c, hc, rfl⟩ := rest_eq_some hs
    have hsame := same_rest hlinks (h.streams .a).tracks h.flagCon hfits hcall hc
    exact Or.inl ⟨hstreams, follows_rest h.follows hsame, h.transfers, h.filled⟩

/-- Two programs that begin on a connection that has just been established. -/
theorem carries_start {s₀ : Connection} {buf : Side → Buffer} (hname : fileName.length < fileNameSize)
    (hstreams : ∀ x, Streams t e x (q x) s₀) (hest : ∀ x, s₀.session.Established e.places x)
    (hidle : ∀ x, (s₀.point x).waiting = []) :
    Carries t e q fileName file canCreate files (Exchange.start s₀ fileName canCreate files buf)
      (Transfer.start fileName canCreate files buf) where
  streams := hstreams
  follows := by
    have haccepted : ∀ x, (s₀.point x).history.accepted = [] := fun x => (hest x).history.1
    have hreturned : ∀ x : Side, (s₀.point x.other).history.returned = [] := fun x => (hest x).history.2.2
    refine ⟨rfl, fun x => ?_, fun x => ?_, fun x => Or.inl (hidle x)⟩
    · have hback := hreturned x.other
      rw [Side.other_other] at hback
      show (s₀.point x).history.returned ++ [] = (s₀.point x.other).history.accepted
      rw [hback, haccepted]
      rfl
    · show (s₀.point x).history.accepted ++ _ = _
      rw [haccepted]
      cases x with
      | a => exact (List.append_nil _).symm
      | b => rfl
  transfers := transfers_start hname canCreate buf
  filled := Or.inl rfl

/-! ## What has been written -/

/-- What `download` has written is the start of the file. -/
theorem downloaded_prefix (h : Transfers fileName file canCreate files T) {bs : List Byte} (hbs : T.downloaded = some bs) :
    bs <+: file := by
  unfold Transfer.downloaded at hbs
  cases h.download with
  | request _ hprogram | size _ hprogram =>
    rw [hprogram] at hbs
    cases hbs
  | receiving _ cs _ hprogram _ _ hread =>
    rw [hprogram] at hbs
    obtain rfl := Option.some.inj hbs
    -- the pieces it has read are the first that `upload` has sent
    have hprefix := h.down.carried.read_prefix
    rcases h.upload.sent_cases with hnone | ⟨cs', hsent, hstart, -⟩
    · rw [hread, hnone] at hprefix
      cases List.prefix_nil.1 hprefix
    · rw [hread, hsent] at hprefix
      obtain ⟨more, hmore⟩ := (List.cons_prefix_cons.1 hprefix).2
      obtain ⟨l₁, l₂, rfl, hl₁, -⟩ := List.map_eq_append_iff.1 hmore.symm
      obtain rfl := List.map_injective_iff.2 (frame_injective intSize) hl₁
      rw [List.flatten_append] at hstart
      exact (List.prefix_append _ _).trans hstart
  | done d hprogram hd =>
    rw [hprogram] at hbs
    have hbs : d.file = some bs := hbs
    rw [hd] at hbs
    split at hbs
    · rw [Option.some.inj hbs]
    · cases hbs

/-- Neither program goes beyond a buffer. -/
theorem call_ne_fault (h : Transfers fileName file canCreate files T) (x : Side) : (T.peer x).call ≠ .fault := by
  intro hfault
  cases x with
  | a =>
    cases h.download with
    | request _ _ hcall | size _ _ hcall | receiving _ _ _ _ hcall | done _ _ _ hcall => cases hcall.symm.trans hfault
  | b =>
    cases h.upload with
    | request _ _ hcall | size _ _ hcall | sending _ _ _ _ hcall | done _ _ _ hcall => cases hcall.symm.trans hfault

theorem downloaded_of_returned (h : Transfers fileName file canCreate files T) (hreturned : (T.peer .a).call = .returned) :
    T.downloaded = if canCreate = true ∧ file ≠ [] then some file else none := by
  cases h.download with
  | request _ _ hcall | size _ _ hcall | receiving _ _ _ _ hcall => cases hcall.symm.trans hreturned
  | done d hprogram hd =>
    rw [Transfer.downloaded, hprogram]
    exact hd

end ExchangeAux

open ExchangeAux ConnectionAux in
/-- Over a connection that has just been established, with everything that goes wrong below the two points and every link taking the
largest segment in one piece: neither program goes beyond a buffer, what `recv_ips` has read on one side are the first messages of
`send_ips` on the other, what `download` has written is the start of the file, and when it returns the whole of it, if it could create
it. -/
theorem exchange_reproduces {t : Topology} {e : Ends} {bufRcv : HostIndex → List Byte}
    (hlinks : FitsLinks t (maxSegmentSize + transportHeaderSize)) (hbuf : ∀ n, (bufRcv n).length = t.getMaxMtu.toNat)
    {s₀ : Connection} (h0 : Reach (Connection.step t e) (fun _ a => a.Fits t e) (Connection.init t bufRcv) s₀)
    (hest : ∀ x, s₀.session.Established e.places x) (hidle : ∀ x, (s₀.point x).waiting = [])
    {fileName file : List Byte} {canCreate : Bool} {files : List Byte → Option (List Byte)} {buf : Side → Buffer}
    (hname : fileName.length < fileNameSize) (hnul : (0 : Byte) ∉ fileName) (hfile : files fileName = some file)
    (hmax : file.length ≤ 2147483647) {s : Exchange}
    (h : Reach (Exchange.step t e) (fun _ a => a.Fits t e) (Exchange.start s₀ fileName canCreate files buf) s) :
    (∀ x, (s.peer x).call ≠ .fault ∧ (s.peer x).read <+: (s.peer x.other).sent) ∧
      (∀ bs, s.downloaded = some bs → bs <+: file) ∧
      ((s.peer .a).call = .returned → s.downloaded = if canCreate = true ∧ file ≠ [] then some file else none) := by
  have hmax' : file.length < 2147483648 := Nat.lt_succ_of_le hmax
  have hstreams : ∀ x, Streams t e x (s₀.point x).sp.seqNumS s₀ := fun x => streams_reach hlinks hbuf h0 (hest x) Reach.refl
  obtain ⟨T, -, hcarries⟩ := h.simulate (carries_start hname hstreams hest hidle)
    fun s a s' T hi hfits hs => carries_step hlinks (fun x => (hest x).seqNum.2) hname hnul hfile hmax' hi hfits hs
  have htransfers := hcarries.transfers
  have hpeer : T.peer = s.peer := hcarries.follows.peer
  have hdownloaded : T.downloaded = s.downloaded := by
    cases hprogram : (s.peer .a).program <;> simp [Transfer.downloaded, Exchange.downloaded, hpeer, hprogram]
  refine ⟨fun x => ⟨?_, ?_⟩, fun bs hbs => ?_, fun hreturned => ?_⟩
  · rw [← hpeer]
    exact call_ne_fault htransfers x
  · rw [← hpeer]
    cases x with
    | a => exact htransfers.down.carried.read_prefix
    | b => exact htransfers.up.carried.read_prefix
  · exact downloaded_prefix htransfers (hdownloaded.trans hbs)
  · rw [← hpeer] at hreturned
    rw [← hdownloaded]
    exact downloaded_of_returned htransfers hreturned

namespace ExchangeAux

open TransferAux ConnectionAux Framing

/-! ## A file of two messages between two hosts -/

/-- A packet of a connection whose window takes the whole file. -/
def widePacket (src dest : Nat) (flags : Flags) (seqNum ackNum : Nat) (data : List Byte) : Packet :=
  let pkt := SessionAux.packet src dest flags seqNum ackNum data 1
  { pkt with segment := { pkt.segment with windowSize := 2000 } }

/-- A point of host 1 connects to one of host 2 with that window. -/
def wideRun : List ConnectionAction :=
  [.below (.start 0), .below (.start 1), .point .a (.connectPoint 2 0 2000 10), .point .a (.segSendThread 0)] ++
    carry .a 0 (widePacket 1 2 .sync 2010 0 [115]) ++ [.syncThread .b 0 100, .point .b (.segSendThread 0)] ++
    carry .b 0 (widePacket 2 1 .syncAck 2100 2011 [115]) ++ [.syncThread .a 0 0]

/-- A message is cut into as many segments as are listed, with their threads and the numbers of their datagrams. They go to the other
side, where their ACKs are lost, and the message is read there: first its length, then the rest. -/
def messageRun (x : Side) (segments : List (Nat × Nat × Packet)) : List ExchangeAction :=
  [.call x, .sent x] ++ List.replicate (segments.length + 1) (.rest (.point x .sendThread)) ++
    (segments.flatMap fun k => .rest (.point x (.segSendThread k.1)) :: (carry x k.2.1 k.2.2).map .rest ++
      [.rest (.below (.internalsend (firstEnds.host x.other) [(50, 0)]))]) ++ [.call x.other, .call x.other]

/-- The first 1020 bytes of the file as a message. -/
def firstPiece : List Byte := frame intSize (longBytes.take 1020)

/-- The request, the size and the two pieces of the file, the first in two segments. -/
def fileRun : List ExchangeAction :=
  [.rest (.below (.internalsend 0 [(50, 0)]))] ++
    messageRun .a [(1, 2, widePacket 1 2 .dados 2011 0 (requestMessage [65]))] ++
    messageRun .b [(1, 2, widePacket 2 1 .dados 2101 0 (sizeMessage 1030))] ++ [.rest (.point .b .sendThread)] ++
    messageRun .b [(2, 3, widePacket 2 1 .dados 2109 0 (firstPiece.take 512)),
      (3, 4, widePacket 2 1 .dados 2621 0 (firstPiece.drop 512))] ++ [.rest (.point .b .sendThread)] ++
    messageRun .b [(4, 5, widePacket 2 1 .dados 3133 0 (frame intSize (longBytes.drop 1020)))]

end ExchangeAux

open TransferAux ConnectionAux ExchangeAux in
/-- The file has gone over the links of topology.cnf. -/
theorem long_file_exchanged :
    ∃ s₀ s, exec (Connection.step shippedTopology firstEnds) firstInit wideRun = some s₀ ∧
      exec (Exchange.step shippedTopology firstEnds) (Exchange.start s₀ [65] true longFile fun _ => zeros) fileRun = some s ∧
      (∀ x, (s.peer x).read <+: (s.peer x.other).sent) ∧ s.downloaded = some longBytes := by
  obtain ⟨s₀, hs₀, hestA, hestB, hidleA, hidleB, s, hs, hreturned⟩ :
      ∃ s₀ ∈ exec (Connection.step shippedTopology firstEnds) firstInit wideRun,
        s₀.session.Established firstEnds.places .a ∧ s₀.session.Established firstEnds.places .b ∧
        (s₀.point .a).waiting = [] ∧ (s₀.point .b).waiting = [] ∧
        ∃ s ∈ exec (Exchange.step shippedTopology firstEnds) (Exchange.start s₀ [65] true longFile fun _ => zeros) fileRun,
          (s.peer .a).call = .returned := by
    decide +kernel
  have hest : ∀ x, s₀.session.Established firstEnds.places x := by
    intro x
    cases x
    · exact hestA
    · exact hestB
  have hidle : ∀ x, (s₀.point x).waiting = [] := by
    intro x
    cases x
    · exact hidleA
    · exact hidleB
  have hfile : longFile [65] = some longBytes := if_pos rfl
  obtain ⟨hpeers, -, hdownloaded⟩ := exchange_reproduces (by decide +kernel)
    (fun _ => by rw [List.length_replicate]; decide +kernel) (reach_of_exec (along_of_forall (by decide +kernel)) hs₀) hest hidle
    (by decide) (by decide) hfile (by decide +kernel) (reach_of_exec (along_of_forall (by decide +kernel)) hs)
  exact ⟨s₀, s, hs₀, hs, fun x => (hpeers x).2, hdownloaded hreturned⟩

end NetworkLayers
