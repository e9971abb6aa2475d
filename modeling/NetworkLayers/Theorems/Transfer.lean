import NetworkLayers.Lemmas.Transfer
import NetworkLayers.Lib.Transition

/-!
# A file is transferred as it is

`download` and `upload` with any number of bytes taken and returned by each call: what `recv_ips` reads on one side are the messages of
the other side's `send_ips`, and once everything that can be taken or returned is, `download` has written the file.
-/

namespace NetworkLayers

open Transition Bytes Framing

/-- The next call of a side can do something: it sends, something has arrived for it, or it asks for nothing. -/
def Transfer.Ready (s : Transfer) (x : Side) : Prop :=
  match (s.peer x).call with
  | .sendIps _ => True
  | .recvIps r => r.buflen = 0 ∨ s.stream x ≠ []
  | .returned | .fault => False

instance (s : Transfer) (x : Side) : Decidable (s.Ready x) := by
  unfold Transfer.Ready
  cases (s.peer x).call <;> infer_instance

/-- Every byte is taken and returned eventually: a side whose next call can do something makes a call that does, sooner or later. A
call does nothing if it takes or returns no byte, unless it is given or asks for none. -/
def Fair (run : Nat → Transfer) : Prop :=
  ∀ t x, (run t).Ready x →
    ∃ t', t ≤ t' ∧ ∃ n, (run t').step (x, n) = some (run (t' + 1)) ∧ (n = 0 → ((run t').peer x).call.size = 0)

/-- The file `download` has written, once it has created it. -/
def Transfer.downloaded (s : Transfer) : Option (List Byte) :=
  match (s.peer .a).program with
  | .download d => d.file
  | .upload _ => none

/-- Both programs are at their end. -/
def Transfer.Done (s : Transfer) : Prop := ∀ x, (s.peer x).call = .returned

namespace TransferAux

variable {fileName file : List Byte} {canCreate : Bool} {files : List Byte → Option (List Byte)}

/-! ## What the programs send -/

theorem message_request (hname : fileName.length < fileNameSize) : Message (requestMessage fileName) := by
  refine message_frame (by simp) ?_
  unfold fileNameSize at hname
  simp only [List.length_append, List.length_cons, List.length_nil, intSize, maxBufLength]
  omega

theorem message_size (n : Nat) : Message (sizeMessage n) :=
  message_frame (by simp [leBytes, intSize]) (by rw [length_leBytes]; decide)

theorem message_chunk {c : List Byte} (hne : c ≠ []) (hc : c.length ≤ chunkSize) : Message (frame intSize c) := by
  refine message_frame hne ?_
  unfold chunkSize at hc
  have hle : intSize ≤ maxBufLength := by decide
  omega

/-- The message with the size is read back. -/
theorem read_size {recvbuf : Buffer} {n : Nat} (h : recvbuf.read 0 (sizeMessage n).length = sizeMessage n)
    (hn : n < 2147483648) : toInt (ofLe (recvbuf.read intSize intSize)) = n := by
  have hbody : (sizeMessage n).drop intSize = leBytes intSize n := drop_frame _ _
  rw [recvbuf.read_eq h (by simp [sizeMessage]), hbody, List.take_of_length_le (by simp),
    ofLe_leBytes_of_lt (lt_trans hn (by decide)), toInt_of_lt hn]

/-- So is what it holds. -/
theorem read_body {recvbuf : Buffer} {body : List Byte}
    (h : recvbuf.read 0 (frame intSize body).length = frame intSize body) : recvbuf.read intSize body.length = body := by
  rw [recvbuf.read_eq h (by simp), drop_frame, List.take_of_length_le (le_refl _)]

/-- A file name is read up to its terminator. -/
theorem cString_name (hnul : (0 : Byte) ∉ fileName) : cString (fileName ++ [0]) = some fileName := by
  have hmem : (0 : Byte) ∈ fileName ++ [0] := by simp
  have hname : ∀ b ∈ fileName, (b ≠ 0) := fun b hb h0 => hnul (h0 ▸ hb)
  rw [cString, if_pos hmem, List.takeWhile_append_of_pos (by simpa using hname)]
  simp

/-! ## Where the programs are -/

/-- Where `download` is, with what it has sent and read: the size, then the bytes of the file it has written, in pieces. -/
inductive DownloadAt (fileName file : List Byte) (canCreate : Bool) (p : Peer) : Prop where
  | request (rest : List Byte) : p.program = .download { pc := .request, canCreate := canCreate, file := none } →
      p.call = .sendIps rest → rest ≠ [] → p.sent = [requestMessage fileName] → p.read = [] → DownloadAt fileName file canCreate p
  | size (r : RecvIps) : p.program = .download { pc := .size, canCreate := canCreate, file := none } →
      p.call = .recvIps r → p.sent = [requestMessage fileName] → p.read = [] → DownloadAt fileName file canCreate p
  | receiving (r : RecvIps) (cs : List (List Byte)) : canCreate = true →
      p.program = .download { pc := .receiving ((file.length : Int) - cs.flatten.length), canCreate := canCreate,
                              file := some cs.flatten } →
      p.call = .recvIps r → p.sent = [requestMessage fileName] → p.read = sizeMessage file.length :: cs.map (frame intSize) →
      cs.flatten.length < file.length → DownloadAt fileName file canCreate p
  | done (d : Download) : p.program = .download d → d.file = (if canCreate = true ∧ file ≠ [] then some file else none) →
      p.call = .returned → p.sent = [requestMessage fileName] → DownloadAt fileName file canCreate p

/-- Where `upload` is, with what it has sent: the size, then bytes of the file in pieces, none of them empty. -/
inductive UploadAt (file : List Byte) (files : List Byte → Option (List Byte)) (p : Peer) : Prop where
  | request (r : RecvIps) : p.program = .upload { pc := .request, files := files, file := none } → p.call = .recvIps r →
      p.sent = [] → p.read = [] → UploadAt file files p
  | size (rest : List Byte) : p.program = .upload { pc := .size file.length, files := files, file := some file } →
      p.call = .sendIps rest → rest ≠ [] → p.sent = [sizeMessage file.length] → UploadAt file files p
  | sending (rest : List Byte) (cs : List (List Byte)) (left : List Byte) :
      p.program = .upload { pc := .sending left.length, files := files, file := some left } → p.call = .sendIps rest → rest ≠ [] →
      p.sent = sizeMessage file.length :: cs.map (frame intSize) → cs.flatten ++ left = file → (∀ c ∈ cs, c ≠ []) →
      UploadAt file files p
  | done (u : Upload) (cs : List (List Byte)) : p.program = .upload u → p.call = .returned →
      p.sent = sizeMessage file.length :: cs.map (frame intSize) → cs.flatten = file → (∀ c ∈ cs, c ≠ []) → UploadAt file files p

variable {p q : Peer} {r r' : RecvIps} {rest rest' m : List Byte} {later : List (List Byte)} {buf : Buffer}

/-! ### A call goes on -/

theorem DownloadAt.sendIps (h : DownloadAt fileName file canCreate p) (hcall : p.call = .sendIps rest) (hne : rest' ≠ []) :
    DownloadAt fileName file canCreate { p with call := .sendIps rest' } := by
  cases h with
  | request _ hprogram _ _ hsent hread => exact .request rest' hprogram rfl hne hsent hread
  | size _ _ hrecv => cases hcall.symm.trans hrecv
  | receiving _ _ _ _ hrecv => cases hcall.symm.trans hrecv
  | done _ _ _ hdone => cases hcall.symm.trans hdone

theorem DownloadAt.recvIps (h : DownloadAt fileName file canCreate p) (hcall : p.call = .recvIps r) :
    DownloadAt fileName file canCreate { p with recvbuf := buf, call := .recvIps r' } := by
  cases h with
  | request _ _ hsend => cases hcall.symm.trans hsend
  | size _ hprogram _ hsent hread => exact .size r' hprogram rfl hsent hread
  | receiving _ cs hcreate hprogram _ hsent hread hlt => exact .receiving r' cs hcreate hprogram rfl hsent hread hlt
  | done _ _ _ hdone => cases hcall.symm.trans hdone

theorem UploadAt.sendIps (h : UploadAt file files p) (hcall : p.call = .sendIps rest) (hne : rest' ≠ []) :
    UploadAt file files { p with call := .sendIps rest' } := by
  cases h with
  | request _ _ hrecv => cases hcall.symm.trans hrecv
  | size _ hprogram _ _ hsent => exact .size rest' hprogram rfl hne hsent
  | sending _ cs left hprogram _ _ hsent hfile hcs => exact .sending rest' cs left hprogram rfl hne hsent hfile hcs
  | done _ _ _ hdone => cases hcall.symm.trans hdone

theorem UploadAt.recvIps (h : UploadAt file files p) (hcall : p.call = .recvIps r) :
    UploadAt file files { p with recvbuf := buf, call := .recvIps r' } := by
  cases h with
  | request _ hprogram _ hsent hread => exact .request r' hprogram rfl hsent hread
  | size _ _ hsend => cases hcall.symm.trans hsend
  | sending _ _ _ _ hsend => cases hcall.symm.trans hsend
  | done _ _ _ hdone => cases hcall.symm.trans hdone

/-! ### A call returns -/

/-- The loop of `upload` sends the next piece, or ends with the whole file sent. -/
theorem UploadAt.loop (u : Upload) (cs : List (List Byte)) (left : List Byte) (hfiles : u.files = files)
    (hresume : p.program.resume p.recvbuf = ((u.loop left.length left).1, .upload (u.loop left.length left).2))
    (hsent : p.sent = sizeMessage file.length :: cs.map (frame intSize)) (hfile : cs.flatten ++ left = file)
    (hcs : ∀ c ∈ cs, c ≠ []) : UploadAt file files p.resume ∧ (p.program.resume p.recvbuf).1.Fresh := by
  by_cases hleft : left = []
  · subst hleft
    have hloop : u.loop ([] : List Byte).length [] = (.returned, { u with pc := .done }) := rfl
    rw [hloop] at hresume
    refine ⟨.done { u with pc := .done } cs (Peer.program_resume hresume) (Peer.call_resume hresume) ?_ (by simpa using hfile) hcs, ?_⟩
    · rw [Peer.sent_resume hresume, hsent]
      exact List.append_nil _
    · rw [hresume]
      trivial
  · have hpos : 0 < left.length := List.length_pos_of_ne_nil hleft
    have hchunk : left.take chunkSize ≠ [] := by
      rw [Ne, List.take_eq_nil_iff, not_or]
      exact ⟨by decide, hleft⟩
    have hloop : u.loop left.length left = (.sendIps (frame intSize (left.take chunkSize)),
        { u with pc := .sending (left.drop chunkSize).length, file := some (left.drop chunkSize) }) := by
      have hrest : (left.length : Int) - (left.take chunkSize).length = (left.drop chunkSize).length := by
        rw [List.length_take, List.length_drop]
        omega
      rw [Upload.loop, if_pos (by exact_mod_cast hpos)]
      dsimp only
      rw [hrest]
    rw [hloop] at hresume
    have hmsg := message_chunk hchunk (List.length_take_le _ _)
    subst hfiles
    refine ⟨.sending (frame intSize (left.take chunkSize)) (cs ++ [left.take chunkSize]) (left.drop chunkSize)
      (Peer.program_resume hresume) (Peer.call_resume hresume) ?_ ?_ ?_ ?_, ?_⟩
    · exact List.ne_nil_of_length_pos (lt_trans (by decide) hmsg.pos)
    · rw [Peer.sent_resume hresume, hsent, List.map_append]
      rfl
    · rw [List.flatten_append, List.flatten_singleton, List.append_assoc, List.take_append_drop, hfile]
    · intro c hc
      rcases List.mem_append.1 hc with hc | hc
      · exact hcs c hc
      · rw [List.mem_singleton.1 hc]
        exact hchunk
    · rw [hresume]
      exact hmsg

/-- `upload` has sent the size, or a piece. -/
theorem UploadAt.resume_sent (h : UploadAt file files p) (hcall : p.call = .sendIps rest) :
    UploadAt file files p.resume ∧ (p.program.resume p.recvbuf).1.Fresh := by
  cases h with
  | request _ _ hrecv => cases hcall.symm.trans hrecv
  | size _ hprogram _ _ hsent =>
    refine UploadAt.loop { pc := .size file.length, files := files, file := some file } [] file rfl ?_ hsent rfl (by simp)
    rw [hprogram]
    rfl
  | sending _ cs left hprogram _ _ hsent hfile hcs =>
    refine UploadAt.loop { pc := .sending left.length, files := files, file := some left } cs left rfl ?_ hsent hfile hcs
    rw [hprogram]
    rfl
  | done _ _ _ hdone => cases hcall.symm.trans hdone

/-- `download` has sent its request. -/
theorem DownloadAt.resume_sent (h : DownloadAt fileName file canCreate p) (hcall : p.call = .sendIps rest) :
    DownloadAt fileName file canCreate p.resume ∧ (p.program.resume p.recvbuf).1.Fresh := by
  cases h with
  | request _ hprogram _ _ hsent hread =>
    have hresume : p.program.resume p.recvbuf =
        (.recvIps .start, .download { pc := .size, canCreate := canCreate, file := none }) := by
      rw [hprogram]
      rfl
    refine ⟨.size .start (Peer.program_resume hresume) (Peer.call_resume hresume) ?_ hread, ?_⟩
    · rw [Peer.sent_resume hresume, hsent]
      rfl
    · rw [hresume]
      rfl
  | size _ _ hrecv => cases hcall.symm.trans hrecv
  | receiving _ _ _ _ hrecv => cases hcall.symm.trans hrecv
  | done _ _ _ hdone => cases hcall.symm.trans hdone

/-- What `upload` has sent: nothing, or the size and bytes of the file in pieces. -/
theorem UploadAt.sent_cases (h : UploadAt file files p) :
    p.sent = [] ∨ ∃ cs : List (List Byte), p.sent = sizeMessage file.length :: cs.map (frame intSize) ∧
      cs.flatten <+: file ∧ ∀ c ∈ cs, c ≠ [] := by
  cases h with
  | request _ _ _ hsent => exact Or.inl hsent
  | size _ _ _ _ hsent => exact Or.inr ⟨[], hsent, List.nil_prefix, by simp⟩
  | sending _ cs left _ _ _ hsent hfile hcs => exact Or.inr ⟨cs, hsent, ⟨left, hfile⟩, hcs⟩
  | done _ cs _ _ hsent hfile hcs => exact Or.inr ⟨cs, hsent, ⟨[], by simpa using hfile⟩, hcs⟩

theorem frame_injective (k : Nat) : Function.Injective (frame k) := by
  intro a b h
  rw [← drop_frame k a, h, drop_frame]

/-- The next message for a `download` that has read some pieces is the next piece. -/
theorem next_piece {cs : List (List Byte)} (h : UploadAt file files q)
    (hsent : q.sent = sizeMessage file.length :: cs.map (frame intSize) ++ m :: later) :
    ∃ c, m = frame intSize c ∧ (cs ++ [c]).flatten <+: file ∧ c ≠ [] := by
  rcases h.sent_cases with hnone | ⟨cs', hsent', hfile, hcs⟩
  · rw [hnone] at hsent
    cases hsent
  · rw [hsent', List.cons_append, List.cons.injEq] at hsent
    obtain ⟨l₁, l₂, rfl, hl₁, hl₂⟩ := List.map_eq_append_iff.1 hsent.2
    obtain ⟨c, l₃, rfl, rfl, -⟩ := List.map_eq_cons_iff.1 hl₂
    obtain rfl := (List.map_injective_iff.2 (frame_injective intSize)) hl₁
    refine ⟨c, rfl, ?_, hcs c (by simp)⟩
    refine List.IsPrefix.trans ?_ hfile
    simp only [List.flatten_append, List.flatten_cons, List.flatten_nil, List.append_nil]
    exact ⟨l₃.flatten, by simp⟩

/-- The loop of `download` waits for the next piece, or ends with the whole file written. -/
theorem DownloadAt.loop (d : Download) (cs : List (List Byte)) (hcreate : d.canCreate = canCreate) (hcan : canCreate = true)
    (hne : file ≠ [])
    (hresume : p.program.resume p.recvbuf = ((d.loop ((file.length : Int) - cs.flatten.length) cs.flatten).1,
      .download (d.loop ((file.length : Int) - cs.flatten.length) cs.flatten).2))
    (hsent : p.sent = [requestMessage fileName]) (hread : p.read = sizeMessage file.length :: cs.map (frame intSize))
    (hfile : cs.flatten <+: file) : DownloadAt fileName file canCreate p.resume ∧ (p.program.resume p.recvbuf).1.Fresh := by
  rcases hfile.length_le.lt_or_eq with hlt | heq
  · have hloop : d.loop ((file.length : Int) - cs.flatten.length) cs.flatten =
        (.recvIps .start, { d with pc := .receiving ((file.length : Int) - cs.flatten.length), file := some cs.flatten }) := by
      rw [Download.loop, if_pos (by omega)]
    rw [hloop] at hresume
    subst hcreate
    refine ⟨.receiving .start cs hcan (Peer.program_resume hresume) (Peer.call_resume hresume) ?_ hread hlt, ?_⟩
    · rw [Peer.sent_resume hresume, hsent]
      rfl
    · rw [hresume]
      rfl
  · have hall : cs.flatten = file := hfile.eq_of_length heq
    have hloop : d.loop ((file.length : Int) - cs.flatten.length) cs.flatten =
        (.returned, { d with pc := .done, file := some cs.flatten }) := by
      rw [Download.loop, if_neg (by omega)]
    rw [hloop] at hresume
    refine ⟨.done { d with pc := .done, file := some cs.flatten } (Peer.program_resume hresume) ?_ (Peer.call_resume hresume) ?_, ?_⟩
    · rw [if_pos ⟨hcan, hne⟩, hall]
    · rw [Peer.sent_resume hresume, hsent]
      rfl
    · rw [hresume]
      trivial

/-- `download` has read the size. -/
theorem DownloadAt.resume_size
    (hprogram : p.program = .download { pc := .size, canCreate := canCreate, file := none })
    (hsent : p.sent = [requestMessage fileName]) (hread : p.read = []) (hmax : file.length < 2147483648)
    (hbuf : buf.read 0 (sizeMessage file.length).length = sizeMessage file.length) :
    DownloadAt fileName file canCreate { p with recvbuf := buf, read := p.read ++ [sizeMessage file.length] }.resume ∧
      (p.program.resume buf).1.Fresh := by
  have hsize := read_size hbuf hmax
  have hresume : p.program.resume buf =
      if (file.length : Int) = 0 ∨ !canCreate then
        (.returned, .download { pc := .done, canCreate := canCreate, file := none })
      else
        ((Download.loop { pc := .size, canCreate := canCreate, file := none } file.length []).1,
          .download (Download.loop { pc := .size, canCreate := canCreate, file := none } file.length []).2) := by
    rw [hprogram]
    simp only [Program.resume, Download.resume, hsize]
    split <;> rfl
  by_cases hend : (file.length : Int) = 0 ∨ !canCreate
  · rw [if_pos hend] at hresume
    refine ⟨.done { pc := .done, canCreate := canCreate, file := none } ?_ ?_ ?_ ?_, ?_⟩
    · exact Peer.program_resume hresume
    · rw [if_neg]
      rintro ⟨hcan, hne⟩
      rcases hend with hzero | hcannot
      · exact hne (List.eq_nil_of_length_eq_zero (by exact_mod_cast hzero))
      · simp [hcan] at hcannot
    · exact Peer.call_resume hresume
    · refine (Peer.sent_resume hresume).trans ?_
      exact (List.append_nil _).trans hsent
    · rw [hresume]
      trivial
  · rw [if_neg hend] at hresume
    obtain ⟨hzero, hcan⟩ := not_or.1 hend
    have hne : file ≠ [] := by
      rintro rfl
      exact hzero rfl
    refine DownloadAt.loop { pc := .size, canCreate := canCreate, file := none } [] rfl (by simpa using hcan) hne ?_ hsent ?_
      List.nil_prefix
    · simpa using hresume
    · simp [hread]

/-- `download` has read the next piece. -/
theorem DownloadAt.resume_piece {cs : List (List Byte)} {c : List Byte} (hcreate : canCreate = true)
    (hprogram : p.program = .download { pc := .receiving ((file.length : Int) - cs.flatten.length), canCreate := canCreate,
                                        file := some cs.flatten })
    (hsent : p.sent = [requestMessage fileName]) (hread : p.read = sizeMessage file.length :: cs.map (frame intSize))
    (hfile : (cs ++ [c]).flatten <+: file) (hc : c ≠ []) (hmsg : Message (frame intSize c))
    (hbuf : buf.read 0 (frame intSize c).length = frame intSize c) :
    DownloadAt fileName file canCreate { p with recvbuf := buf, read := p.read ++ [frame intSize c] }.resume ∧
      (p.program.resume buf).1.Fresh := by
  have hflat : (cs ++ [c]).flatten = cs.flatten ++ c := by simp
  have hle := hfile.length_le
  rw [hflat, List.length_append] at hle
  have hpos := List.length_pos_of_ne_nil hc
  have hlength := Buffer.read_length hbuf hmsg.framed hmsg.fits
  rw [length_frame, Nat.cast_add] at hlength
  have hbody := read_body hbuf
  have hfits := hmsg.fits
  rw [length_frame] at hfits
  have hne : file ≠ [] := List.ne_nil_of_length_pos (by omega)
  obtain ⟨d, hd⟩ : ∃ d : Download, d = { pc := .receiving ((file.length : Int) - cs.flatten.length),
                                         canCreate := canCreate, file := some cs.flatten } := ⟨_, rfl⟩
  have hresume : d.resume buf = d.loop ((file.length : Int) - (cs ++ [c]).flatten.length) (cs ++ [c]).flatten := by
    have hbuflen : toInt (ofLe (buf.read 0 intSize)) - intSize = c.length := by omega
    have hrange : ¬((c.length : Int) < 0 ∨ (maxBufLength : Int) < intSize + c.length) := by omega
    have hleft : (file.length : Int) - cs.flatten.length - c.length = file.length - (cs ++ [c]).flatten.length := by
      rw [hflat, List.length_append]
      omega
    subst hd
    simp only [Download.resume, hbuflen, if_neg hrange, hleft, Int.toNat_natCast, hbody, Option.getD_some, hflat]
  refine DownloadAt.loop d (cs ++ [c]) (by rw [hd]) hcreate hne ?_ hsent ?_ hfile
  · change p.program.resume buf = _
    rw [hprogram, ← hd, Program.resume, hresume]
  · simp [hread]

/-- `download` has read a message. -/
theorem DownloadAt.resume_read (h : DownloadAt fileName file canCreate p) (hcall : p.call = .recvIps r)
    (hupload : UploadAt file files q) (hmessages : ∀ m ∈ q.sent, Message m) (hmax : file.length < 2147483648)
    (hsent : q.sent = p.read ++ m :: later) (hbuf : buf.read 0 m.length = m) :
    DownloadAt fileName file canCreate { p with recvbuf := buf, read := p.read ++ [m] }.resume ∧
      (p.program.resume buf).1.Fresh := by
  have hmsg := hmessages m (by simp [hsent])
  cases h with
  | request _ _ hsend => cases hcall.symm.trans hsend
  | size _ hprogram _ hsent' hread =>
    rw [hread] at hsent
    have hm : m = sizeMessage file.length := by
      rcases hupload.sent_cases with hnone | ⟨cs, hcs, -⟩
      · rw [hnone] at hsent
        cases hsent
      · exact (List.cons.inj (hcs.symm.trans hsent)).1.symm
    subst hm
    exact DownloadAt.resume_size hprogram hsent' hread hmax hbuf
  | receiving _ cs hcreate hprogram _ hsent' hread =>
    rw [hread] at hsent
    obtain ⟨c, rfl, hfile, hc⟩ := next_piece hupload hsent
    exact DownloadAt.resume_piece hcreate hprogram hsent' hread hfile hc hmsg hbuf
  | done _ _ _ hdone => cases hcall.symm.trans hdone

/-- `upload` has read the request. -/
theorem UploadAt.resume_read (h : UploadAt file files p) (hcall : p.call = .recvIps r)
    (hdownload : q.sent = [requestMessage fileName]) (hname : fileName.length < fileNameSize) (hnul : (0 : Byte) ∉ fileName)
    (hfile : files fileName = some file) (hmax : file.length < 2147483648) (hsent : q.sent = p.read ++ m :: later)
    (hbuf : buf.read 0 m.length = m) :
    UploadAt file files { p with recvbuf := buf, read := p.read ++ [m] }.resume ∧ (p.program.resume buf).1.Fresh := by
  cases h with
  | request _ hprogram _ hsent' hread =>
    rw [hdownload, hread] at hsent
    obtain rfl : requestMessage fileName = m := (List.cons.inj hsent).1
    have hlen : (requestMessage fileName).length = intSize + 1 + (fileName.length + 1) := by
      simp only [requestMessage, length_frame, List.length_append, List.length_cons, List.length_nil]
      omega
    have hlength := Buffer.read_length hbuf (message_request hname).framed (message_request hname).fits
    have hfield : buf.read (intSize + 1) (fileName.length + 1) = fileName ++ [0] := by
      rw [buf.read_eq hbuf hlen.ge, ← List.drop_drop, requestMessage, drop_frame]
      exact List.take_of_length_le (by simp)
    have hresume : p.program.resume buf = (.sendIps (sizeMessage file.length),
        .upload { pc := .size file.length, files := files, file := some file }) := by
      have hrange : ¬(((requestMessage fileName).length : Int) < intSize + 1 ∨
          (intSize : Int) + 1 + fileNameSize < (requestMessage fileName).length) := by
        rw [hlen]
        push_cast
        omega
      have hrest : (((requestMessage fileName).length : Int) - (intSize + 1)).toNat = fileName.length + 1 := by
        rw [hlen]
        push_cast
        omega
      rw [hprogram]
      simp only [Program.resume, Upload.resume, hlength, if_neg hrange, hrest, hfield, cString_name hnul, hfile, Option.map_some,
        Option.getD_some, toInt_of_lt hmax]
    refine ⟨.size (sizeMessage file.length) (Peer.program_resume hresume) (Peer.call_resume hresume) ?_ ?_, ?_⟩
    · exact List.ne_nil_of_length_pos (lt_trans (by decide) (message_size file.length).pos)
    · exact (Peer.sent_resume hresume).trans (congrArg (· ++ [sizeMessage file.length]) hsent')
    · rw [hresume]
      exact message_size _
  | size _ _ hsend => cases hcall.symm.trans hsend
  | sending _ _ _ _ hsend => cases hcall.symm.trans hsend
  | done _ _ _ hdone => cases hcall.symm.trans hdone

theorem DownloadAt.sent_eq (h : DownloadAt fileName file canCreate p) : p.sent = [requestMessage fileName] := by
  cases h with
  | request _ _ _ _ hsent => exact hsent
  | size _ _ _ hsent => exact hsent
  | receiving _ _ _ _ _ hsent => exact hsent
  | done _ _ _ _ hsent => exact hsent

/-! ## Both sides -/

/-- Where both programs are, and the bytes on their way in both directions. -/
structure Transfers (fileName file : List Byte) (canCreate : Bool) (files : List Byte → Option (List Byte)) (s : Transfer) :
    Prop where
  up : Channel (s.peer .a) (s.peer .b) (s.stream .b)
  down : Channel (s.peer .b) (s.peer .a) (s.stream .a)
  download : DownloadAt fileName file canCreate (s.peer .a)
  upload : UploadAt file files (s.peer .b)

theorem transfers_start (hname : fileName.length < fileNameSize) (canCreate : Bool) (b : Side → Buffer) :
    Transfers fileName file canCreate files (Transfer.start fileName canCreate files b) where
  up := by
    refine ⟨?_, ?_, ?_⟩
    · exact Carried.nil.send _
    · intro m hm
      rw [List.mem_singleton.1 hm]
      exact message_request hname
    · intro r hr
      obtain rfl := Call.recvIps.inj hr
      exact Reading.start _ _
  down := ⟨Carried.nil, nofun, nofun⟩
  download := .request _ rfl rfl (List.ne_nil_of_length_pos (lt_trans (by decide) (message_request hname).pos)) rfl rfl
  upload := .request _ rfl rfl rfl rfl

/-- A step keeps it. -/
theorem Transfers.step {s s' : Transfer} {x : Side} {n : Nat} (h : Transfers fileName file canCreate files s)
    (hname : fileName.length < fileNameSize) (hnul : (0 : Byte) ∉ fileName) (hfile : files fileName = some file)
    (hmax : file.length < 2147483648) (hs : s.step (x, n) = some s') : Transfers fileName file canCreate files s' := by
  rcases Transfer.step_cases hs with ⟨rest, hcall, hn, rfl⟩ | ⟨r, hcall, hn, hwire, rfl⟩
  · cases x with
    | a =>
      have hnext := h.download.resume_sent hcall
      rcases h.up.step_sendIps h.down hcall hn with ⟨rest', hne, heq, hup, hdown⟩ | ⟨heq, hchannels⟩
      · rw [heq]
        exact ⟨hup, hdown, h.download.sendIps hcall hne, h.upload⟩
      · rw [heq]
        exact ⟨(hchannels hnext.2).1, (hchannels hnext.2).2, hnext.1, h.upload⟩
    | b =>
      have hnext := h.upload.resume_sent hcall
      rcases h.down.step_sendIps h.up hcall hn with ⟨rest', hne, heq, hdown, hup⟩ | ⟨heq, hchannels⟩
      · rw [heq]
        exact ⟨hup, hdown, h.download, h.upload.sendIps hcall hne⟩
      · rw [heq]
        exact ⟨(hchannels hnext.2).2, (hchannels hnext.2).1, h.download, hnext.1⟩
  · cases x with
    | a =>
      rcases h.down.step_recvIps h.up hcall hn hwire with
        ⟨buf, r', heq, hdown, hup⟩ | ⟨buf, m, later, hsent, hbuf, heq, hchannels⟩
      · rw [heq]
        exact ⟨hup, hdown, h.download.recvIps hcall, h.upload⟩
      · have hnext := h.download.resume_read hcall h.upload h.down.messages hmax hsent hbuf
        rw [heq]
        exact ⟨(hchannels hnext.2).2, (hchannels hnext.2).1, hnext.1, h.upload⟩
    | b =>
      rcases h.up.step_recvIps h.down hcall hn hwire with
        ⟨buf, r', heq, hup, hdown⟩ | ⟨buf, m, later, hsent, hbuf, heq, hchannels⟩
      · rw [heq]
        exact ⟨hup, hdown, h.download, h.upload.recvIps hcall⟩
      · have hnext := h.upload.resume_read hcall h.download.sent_eq hname hnul hfile hmax hsent hbuf
        rw [heq]
        exact ⟨(hchannels hnext.2).1, (hchannels hnext.2).2, h.download, hnext.1⟩

/-! ## Something can always be done -/

/-- As long as one of the programs is not at its end, one of them can do something. -/
theorem Transfers.ready {s : Transfer} (h : Transfers fileName file canCreate files s) (hdone : ¬s.Done) : ∃ x, s.Ready x := by
  have hsends (x : Side) (rest : List Byte) (hcall : (s.peer x).call = .sendIps rest) : s.Ready x := by
    simp [Transfer.Ready, hcall]
  have hgets (x : Side) (r : RecvIps) (hcall : (s.peer x).call = .recvIps r) (hwire : s.stream x ≠ []) : s.Ready x := by
    simp [Transfer.Ready, hcall, hwire]
  have hdown := h.download
  have hup := h.upload
  cases hup with
  | size rest _ hcall => exact ⟨.b, hsends .b rest hcall⟩
  | sending rest _ _ _ hcall => exact ⟨.b, hsends .b rest hcall⟩
  | request r _ hcall hsent hread =>
    have hmore : (s.peer .a).sent ≠ (s.peer .b).read := by
      rw [h.download.sent_eq, hread]
      exact List.cons_ne_nil _ _
    have hsilent (hrest : (s.peer .a).rest = []) : s.Ready .b := hgets .b r hcall (h.up.wire_ne_nil hcall hrest hmore)
    cases hdown with
    | request rest _ hsend => exact ⟨.a, hsends .a rest hsend⟩
    | size _ _ hrecv => exact ⟨.b, hsilent (by simp [Peer.rest, hrecv])⟩
    | receiving _ _ _ _ hrecv => exact ⟨.b, hsilent (by simp [Peer.rest, hrecv])⟩
    | done _ _ _ hend => exact ⟨.b, hsilent (by simp [Peer.rest, hend])⟩
  | done u cs _ hcall hsent hall =>
    have hrest : (s.peer .b).rest = [] := by simp [Peer.rest, hcall]
    cases hdown with
    | request rest _ hsend => exact ⟨.a, hsends .a rest hsend⟩
    | size r _ hrecv _ hread =>
      refine ⟨.a, hgets .a r hrecv (h.down.wire_ne_nil hrecv hrest ?_)⟩
      rw [hsent, hread]
      exact List.cons_ne_nil _ _
    | receiving r cs' _ _ hrecv _ hread hlt =>
      refine ⟨.a, hgets .a r hrecv (h.down.wire_ne_nil hrecv hrest ?_)⟩
      rw [hsent, hread]
      intro heq
      have hcs := List.map_injective_iff.2 (frame_injective intSize) (List.cons.inj heq).2
      rw [← hcs, hall] at hlt
      exact lt_irrefl _ hlt
    | done _ _ _ hend =>
      refine absurd ?_ hdone
      intro x
      cases x
      · exact hend
      · exact hcall

/-- The bytes the sides have taken, twice, and those on their way. -/
def count (s : Transfer) : Nat :=
  2 * ((s.peer .a).read.flatten.length + (s.peer .a).part.length) + (s.stream .a).length +
    (2 * ((s.peer .b).read.flatten.length + (s.peer .b).part.length) + (s.stream .b).length)

/-- A step at one side leaves the other, and puts bytes on the stream to it or takes bytes off its own. -/
theorem step_streams {s s' : Transfer} {x : Side} {n : Nat} (hs : s.step (x, n) = some s') :
    s'.peer x.other = s.peer x.other ∧
      (s'.stream x = s.stream x ∧ (s'.stream x.other).length = (s.stream x.other).length + n ∨
        (s'.stream x).length + n = (s.stream x).length ∧ s'.stream x.other = s.stream x.other) := by
  rcases Transfer.step_cases hs with ⟨rest, -, hn, rfl⟩ | ⟨r, -, -, hwire, rfl⟩
  · refine ⟨by simp, Or.inl ⟨by simp, ?_⟩⟩
    simp [hn]
  · refine ⟨by simp, Or.inr ⟨?_, by simp⟩⟩
    simp only [Function.update_self, List.length_drop]
    omega

/-- A call adds the bytes it takes or returns. -/
theorem count_step {s s' : Transfer} {x : Side} {n : Nat} (h : Transfers fileName file canCreate files s)
    (h' : Transfers fileName file canCreate files s') (hs : s.step (x, n) = some s') : count s' = count s + n := by
  have hup := h.up.count
  have hup' := h'.up.count
  have hdown := h.down.count
  have hdown' := h'.down.count
  obtain ⟨hother, hstreams⟩ := step_streams hs
  unfold count
  cases x with
  | a =>
    simp only [Side.other] at hother hstreams
    rw [hother] at hup' hdown' ⊢
    rcases hstreams with ⟨hsame, hlen⟩ | ⟨hlen, hsame⟩
    · rw [hsame] at hdown' ⊢
      omega
    · rw [hsame] at hup' ⊢
      omega
  | b =>
    simp only [Side.other] at hother hstreams
    rw [hother] at hup' hdown' ⊢
    rcases hstreams with ⟨hsame, hlen⟩ | ⟨hlen, hsame⟩
    · rw [hsame] at hup' ⊢
      omega
    · rw [hsame] at hdown' ⊢
      omega

theorem length_flatten_frames {cs : List (List Byte)} (hcs : ∀ c ∈ cs, c ≠ []) :
    (cs.map (frame intSize)).flatten.length ≤ 5 * cs.flatten.length := by
  induction cs with
  | nil => simp
  | cons c cs ih =>
    have hc := List.length_pos_of_ne_nil (hcs c (by simp))
    have hrest := ih fun c' hc' => hcs c' (by simp [hc'])
    simp only [List.map_cons, List.flatten_cons, List.length_append, length_frame]
    unfold intSize at hrest ⊢
    omega

/-- There are only so many bytes to take and return. -/
theorem count_le {s : Transfer} (h : Transfers fileName file canCreate files s) :
    count s ≤ 2 * (requestMessage fileName).length + 2 * ((sizeMessage file.length).length + 5 * file.length) := by
  have hup := h.up.count
  have hdown := h.down.count
  have hrequest : (s.peer .a).sent.flatten.length = (requestMessage fileName).length := by
    rw [h.download.sent_eq]
    simp
  have hfile : (s.peer .b).sent.flatten.length ≤ (sizeMessage file.length).length + 5 * file.length := by
    rcases h.upload.sent_cases with hnone | ⟨cs, hsent, hprefix, hcs⟩
    · rw [hnone]
      exact Nat.zero_le _
    · rw [hsent, List.flatten_cons, List.length_append]
      have hframes := length_flatten_frames hcs
      have hle := hprefix.length_le
      omega
  unfold count
  omega

/-- A `send_ips` has bytes left. -/
theorem Transfers.rest_ne_nil {s : Transfer} {x : Side} {rest : List Byte} (h : Transfers fileName file canCreate files s)
    (hcall : (s.peer x).call = .sendIps rest) : rest ≠ [] := by
  cases x with
  | a =>
    cases h.download with
    | request rest' _ hsend hne => exact Call.sendIps.inj (hsend.symm.trans hcall) ▸ hne
    | size _ _ hrecv => cases hrecv.symm.trans hcall
    | receiving _ _ _ _ hrecv => cases hrecv.symm.trans hcall
    | done _ _ _ hend => cases hend.symm.trans hcall
  | b =>
    cases h.upload with
    | request _ _ hrecv => cases hrecv.symm.trans hcall
    | size _ _ hsend hne => exact Call.sendIps.inj (hsend.symm.trans hcall) ▸ hne
    | sending _ _ _ _ hsend hne => exact Call.sendIps.inj (hsend.symm.trans hcall) ▸ hne
    | done _ _ _ hend => cases hend.symm.trans hcall

/-- A call that is made is given bytes or asks for some. -/
theorem Transfers.size_ne_zero {s s' : Transfer} {x : Side} {n : Nat} (h : Transfers fileName file canCreate files s)
    (hs : s.step (x, n) = some s') : (s.peer x).call.size ≠ 0 := by
  rcases Transfer.step_cases hs with ⟨rest, hcall, -, -⟩ | ⟨r, hcall, -, -, -⟩
  · have hne := h.rest_ne_nil hcall
    rw [hcall]
    simpa [Call.size] using hne
  · have hreading : 0 < r.buflen := by
      cases x with
      | a => exact (h.down.reading r hcall).pos
      | b => exact (h.up.reading r hcall).pos
    rw [hcall]
    exact hreading.ne'

/-- At the end nothing more is done. -/
theorem step_of_done {s : Transfer} (hdone : s.Done) (m : Side × Nat) : s.step m = none := by
  simp only [Transfer.step, hdone m.1]

theorem Transfers.downloaded_of_done {s : Transfer} (h : Transfers fileName file canCreate files s) (hdone : s.Done)
    (hne : file ≠ []) : s.downloaded = if canCreate then some file else none := by
  have hend := hdone .a
  cases h.download with
  | request _ _ hsend => cases hsend.symm.trans hend
  | size _ _ hrecv => cases hrecv.symm.trans hend
  | receiving _ _ _ _ hrecv => cases hrecv.symm.trans hend
  | done d hprogram hfile =>
    simp only [Transfer.downloaded, hprogram, hfile, hne, ne_eq, not_false_eq_true, and_true]

end TransferAux

open TransferAux in
/-- `download` ends with exactly the bytes of the file written, if it could create it, and every message `recv_ips` has read on one
side is, in order, a message `send_ips` was called with on the other. -/
theorem transfer_reproduces {fileName file : List Byte} {canCreate : Bool} {files : List Byte → Option (List Byte)}
    {b : Side → Buffer} {run : Nat → Transfer} (hname : fileName.length < fileNameSize) (hnul : (0 : Byte) ∉ fileName)
    (hfile : files fileName = some file) (hne : file ≠ []) (hmax : file.length ≤ 2147483647)
    (hstart : run 0 = Transfer.start fileName canCreate files b) (hrun : Run Transfer.step run) (hfair : Fair run) :
    (∃ t, (run t).Done ∧ ∀ t', t ≤ t' → run t' = run t ∧ (run t').downloaded = if canCreate then some file else none) ∧
      ∀ t x, ((run t).peer x).read <+: ((run t).peer x.other).sent := by
  have hmax' : file.length < 2147483648 := Nat.lt_succ_of_le hmax
  have hinv (t : Nat) : Transfers fileName file canCreate files (run t) := by
    refine (hrun.reach t).invariant ?_ fun _ m _ h _ hs => h.step (x := m.1) (n := m.2) hname hnul hfile hmax' hs
    rw [hstart]
    exact transfers_start hname canCreate b
  have hsame (t : Nat) (hdone : (run t).Done) : run (t + 1) = run t := by
    rcases hrun t with h | ⟨m, hm⟩
    · exact h
    · rw [step_of_done hdone m] at hm
      cases hm
  have hmono (t : Nat) : count (run t) ≤ count (run (t + 1)) := by
    rcases hrun t with h | ⟨⟨x, n⟩, hm⟩
    · rw [h]
    · rw [count_step (hinv t) (hinv (t + 1)) hm]
      exact Nat.le_add_right _ _
  -- a side that can do something does it, and the count rises
  have hrise (t : Nat) (hdone : ¬(run t).Done) : ∃ t', t ≤ t' ∧ count (run t') < count (run (t' + 1)) := by
    obtain ⟨x, hready⟩ := (hinv t).ready hdone
    obtain ⟨t', hle, n, hs, hzero⟩ := hfair t x hready
    refine ⟨t', hle, ?_⟩
    have hn : n ≠ 0 := fun h0 => (hinv t').size_ne_zero hs (hzero h0)
    rw [count_step (hinv t') (hinv (t' + 1)) hs]
    exact Nat.lt_add_of_pos_right (Nat.pos_of_ne_zero hn)
  obtain ⟨t, hdone⟩ := eventually_of_bounded hmono (fun t => count_le (hinv t)) hrise
  refine ⟨⟨t, hdone, ?_⟩, ?_⟩
  · intro t' hle
    have hstays : run t' = run t := by
      induction t', hle using Nat.le_induction with
      | base => rfl
      | succ t' _ ih => exact (hsame t' (ih ▸ hdone)).trans ih
    rw [hstays]
    exact ⟨rfl, (hinv t).downloaded_of_done hdone hne⟩
  · intro t x
    cases x with
    | a => exact (hinv t).down.carried.read_prefix
    | b => exact (hinv t).up.carried.read_prefix

namespace TransferAux

/-- The bytes of a file of more than one message. -/
def longBytes : List Byte := List.replicate 1030 7

/-- That file, and its name. -/
def longFile : List Byte → Option (List Byte) := fun fileName => if fileName = [65] then some longBytes else none

/-- A `recvbuf` of zeros. -/
def zeros : Buffer := ⟨List.replicate maxBufLength 0, List.length_replicate⟩

/-- The calls of its transfer: the request in two parts, the size, and a message of 1020 bytes and one of 10. -/
def calls (t : Nat) : Side × Nat :=
  [(Side.a, 3), (.a, 4), (.b, 4), (.b, 3), (.b, 8), (.a, 4), (.a, 4), (.b, 1024), (.a, 4), (.a, 1020), (.b, 14), (.a, 4),
    (.a, 10)].getD t (.a, 0)

/-- The states they go through, and stay in. -/
def states : Nat → Transfer
  | 0 => Transfer.start [65] true longFile fun _ => zeros
  | t + 1 => ((states t).step (calls t)).getD (states t)

theorem states_step {t : Nat} (ht : t < 13) : (states t).step (calls t) = some (states (t + 1)) := by
  have hall : ∀ t < 13, ((states t).step (calls t)).isSome := by decide +kernel
  obtain ⟨s, hs⟩ := Option.isSome_iff_exists.1 (hall t ht)
  rw [states, hs]
  rfl

theorem states_end {t : Nat} (ht : 13 ≤ t) : (states t).Done := by
  induction t, ht using Nat.le_induction with
  | base =>
    intro x
    cases x <;> decide +kernel
  | succ t _ ih =>
    rw [states, step_of_done ih]
    exact ih

theorem states_run : Run Transfer.step states := by
  intro t
  rcases Nat.lt_or_ge t 13 with ht | ht
  · exact Or.inr ⟨_, states_step ht⟩
  · refine Or.inl ?_
    rw [states, step_of_done (states_end ht)]
    rfl

theorem states_fair : Fair states := by
  have ha : ∀ t < 13, (states t).Ready .a → ∃ t' < 13, t ≤ t' ∧ (calls t').1 = .a ∧ (calls t').2 ≠ 0 := by decide +kernel
  have hb : ∀ t < 13, (states t).Ready .b → ∃ t' < 13, t ≤ t' ∧ (calls t').1 = .b ∧ (calls t').2 ≠ 0 := by decide +kernel
  intro t x hready
  rcases Nat.lt_or_ge t 13 with ht | ht
  · obtain ⟨t', ht', hle, hx, hn⟩ : ∃ t' < 13, t ≤ t' ∧ (calls t').1 = x ∧ (calls t').2 ≠ 0 := by
      cases x
      · exact ha t ht hready
      · exact hb t ht hready
    refine ⟨t', hle, (calls t').2, ?_, fun h0 => absurd h0 hn⟩
    rw [← hx]
    exact states_step ht'
  · have hend := states_end ht x
    simp [Transfer.Ready, hend] at hready

end TransferAux

open TransferAux in
/-- A file of two messages is transferred. -/
theorem long_file_transferred :
    (∃ t, (states t).Done ∧ ∀ t', t ≤ t' → states t' = states t ∧ (states t').downloaded = some longBytes) ∧
      ∀ t x, ((states t).peer x).read <+: ((states t).peer x.other).sent := by
  have hname : ([65] : List Byte).length < fileNameSize := by decide
  have hfile : longFile [65] = some longBytes := if_pos rfl
  have hstart : states 0 = Transfer.start [65] true longFile fun _ => zeros := rfl
  exact transfer_reproduces hname (by decide) hfile (List.cons_ne_nil _ _) (by decide +kernel) hstart states_run states_fair

end NetworkLayers
