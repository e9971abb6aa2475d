import NetworkLayers.Theorems.PeerFraming

/-!
# The loops of send_ips and recv_ips on an error

`send_point` and `recv_point` return 0 when the point is not allocated or not connected, and the loops ask whether an unsigned number is
at least 0. From then on they go round for good, unless nothing is left to send or to receive.
-/

namespace NetworkLayers

namespace ErrorLoopsAux

variable {x y : Listener} {c : PointState} {conn : Nat → PointState} {n t T : Nat}

theorem answer_of_silent (hsilent : c.Silent) : x.answer c = 0 := by
  obtain ⟨hnot, hnone⟩ := hsilent
  unfold Listener.answer
  split
  · rw [PointState.sendPoint, if_neg fun h => hnot h.1]
  · unfold PointState.recvPoint
    rcases hnone with hnone | hsegs
    · simp [hnone]
    · simp [hsegs]
  · rfl
  · rfl

/-! ## What holds in the loops -/

/-- The loop for the length has bytes to come, and what has come has room. -/
def InLoop (x : Listener) : Prop :=
  ∀ r, x.peer.call = .recvIps r → (r.tail = false → 0 < r.buflen) ∧ r.ptr ≤ maxBufLength

theorem inLoop_begins (hbegins : x.Begins) : InLoop x := by
  intro r hcall
  rcases hbegins with ⟨data, hsend⟩ | hstart
  · cases hcall.symm.trans hsend
  · obtain rfl := Call.recvIps.inj (hcall.symm.trans hstart)
    exact ⟨fun _ => by decide, by decide⟩

theorem inLoop_resume (p : Peer) (stream : List Byte) : InLoop ⟨p.resume, stream⟩ := by
  intro r hcall
  obtain rfl := Peer.start_of_resume hcall
  exact ⟨fun _ => by decide, by decide⟩

theorem inLoop_step (hs : x.step n = some y) : InLoop y := by
  cases Listener.stepped hs with
  | send | beyond => exact nofun
  | sent | message => exact inLoop_resume _ _
  | more hcall hlt hn hwrite =>
    intro r' hcall'
    obtain rfl := Call.recvIps.inj hcall'
    have hroom := Buffer.le_of_write hwrite
    rw [List.length_take, min_eq_left hn] at hroom
    exact ⟨fun _ => Nat.sub_pos_of_lt hlt, hroom⟩
  | length hcall _ hn _ hwrite =>
    intro r' hcall'
    obtain rfl := Call.recvIps.inj hcall'
    have hroom := Buffer.le_of_write hwrite
    rw [List.length_take, min_eq_left hn] at hroom
    exact ⟨nofun, hroom⟩

theorem inLoop_run (hbegins : x.Begins) (conn : Nat → PointState) (t : Nat) : InLoop (x.run conn t) := by
  induction t with
  | zero => exact inLoop_begins hbegins
  | succ t ih =>
    rw [Listener.run]
    cases hs : (x.run conn t).step ((x.run conn t).answer (conn t)) with
    | none => exact ih
    | some y => exact inLoop_step hs

/-- A call of which nothing is left returns when 0 is returned to it. -/
theorem returns_zero_iff (call : Call) : call.Returns 0 ↔ call.NothingLeft := by
  cases call with
  | sendIps rest => exact List.length_eq_zero_iff
  | recvIps | returned | fault => exact Iff.rfl

/-! ## Going round for good -/

/-- There is something left, or the program has gone beyond a buffer. -/
def Stuck (x : Listener) : Prop := x.peer.call ≠ .returned ∧ ¬x.peer.call.NothingLeft

/-- A program that has just gone on has something left, unless it has returned. -/
theorem stuck_resume (p : Peer) (stream : List Byte) (hnot : p.resume.call ≠ .returned) : Stuck ⟨p.resume, stream⟩ := by
  refine ⟨hnot, fun hleft => ?_⟩
  have hnext := p.next_resume
  dsimp only at hleft
  cases hcall : p.resume.call with
  | sendIps m =>
    rw [hcall] at hnext hleft
    cases hnext with
    | sendIps hne => exact hne hleft
  | recvIps r =>
    rw [hcall] at hnext hleft
    cases hnext
    cases hleft.1
  | returned | fault =>
    rw [hcall] at hleft
    exact hleft

/-- A call that returns 0 leaves it so. -/
theorem stuck_step (h : Stuck x) (hloop : InLoop x) (hs : x.step 0 = some y) : Stuck y := by
  obtain ⟨hnot, hleft⟩ := h
  cases Listener.stepped hs with
  | @send rest hcall => exact ⟨nofun, fun hnil => hleft (by rw [hcall]; exact hnil)⟩
  | sent hcall hlen => exact absurd (by rw [hcall]; exact List.length_eq_zero_iff.1 hlen) hleft
  | beyond => exact ⟨nofun, id⟩
  | @more r _ hcall hlt =>
    refine ⟨nofun, fun hzero => ?_⟩
    have hbuflen : r.buflen - 0 = 0 := hzero.2
    omega
  | length hcall hlast _ htail =>
    have hpos := (hloop _ hcall).1 htail
    omega
  | message hcall hlast _ htail => exact absurd (by rw [hcall]; exact ⟨htail, hlast⟩) hleft

/-- From where the calls return 0 on, it stays so. -/
theorem stuck_run (hbegins : x.Begins) (hzero : ∀ t, T ≤ t → (x.run conn t).answer (conn t) = 0) (h : Stuck (x.run conn T))
    (ht : T ≤ t) : Stuck (x.run conn t) := by
  induction t, ht using Nat.le_induction with
  | base => exact h
  | succ t ht ih =>
    rw [Listener.run, hzero t ht]
    cases hs : (x.run conn t).step 0 with
    | none => exact ih
    | some y => exact stuck_step ih (inLoop_run hbegins conn t) hs

/-! ## Nothing left -/

/-- The program goes on after a call that returns 0. -/
theorem call_of_nothingLeft (hleft : x.peer.call.NothingLeft) (hloop : InLoop x) :
    ∃ p : Peer, x.step 0 = some ⟨p.resume, x.stream⟩ ∧ p.resume.call = x.peer.resume.call := by
  unfold Listener.step
  cases hcall : x.peer.call with
  | sendIps rest =>
    rw [hcall] at hleft
    obtain rfl : rest = [] := hleft
    exact ⟨x.peer, rfl, rfl⟩
  | recvIps r =>
    rw [hcall] at hleft
    obtain ⟨htail, hbuflen⟩ := hleft
    have hwrite := x.peer.recvbuf.write_nil (hloop r hcall).2
    refine ⟨{ x.peer with recvbuf := x.peer.recvbuf, read := x.peer.read ++ [x.peer.recvbuf.read 0 r.ptr] }, ?_, rfl⟩
    simp [Peer.recvIps, hwrite, hbuflen, htail]
  | returned | fault =>
    rw [hcall] at hleft
    exact hleft.elim

/-- A program that has returned makes no more calls. -/
theorem returned_run (h : (x.run conn T).peer.call = .returned) (ht : T ≤ t) : (x.run conn t).peer.call = .returned := by
  induction t, ht using Nat.le_induction with
  | base => exact h
  | succ t ht ih =>
    have hnone : (x.run conn t).step ((x.run conn t).answer (conn t)) = none := by
      unfold Listener.step
      simp only [ih]
    rw [Listener.run, hnone]
    exact ih

/-- A program that is stuck has not returned and never will. -/
theorem not_returned (hbegins : x.Begins) (hzero : ∀ t, T ≤ t → (x.run conn t).answer (conn t) = 0) (h : Stuck (x.run conn T))
    (t : Nat) : (x.run conn t).peer.call ≠ .returned := by
  intro hend
  rcases Nat.le_total t T with hle | hle
  · exact h.1 (returned_run hend hle)
  · exact (stuck_run hbegins hzero h hle).1 hend

end ErrorLoopsAux

open ErrorLoopsAux in
/-- For every program at the beginning of a `send_ips` or a `recv_ips`, every sequence of states of the point, and from whatever call on
`send_point` and `recv_point` return 0 to it: the `send_ips` or `recv_ips` of that call returns exactly when it has nothing left, and
the program exactly when it has returned before or has nothing left in that call and nothing to do after it. -/
theorem loops_end_iff {x : Listener} (hbegins : x.Begins) {conn : Nat → PointState} {T : Nat}
    (hzero : ∀ t, T ≤ t → (x.run conn t).answer (conn t) = 0) :
    ((∃ t, T ≤ t ∧ (x.run conn t).peer.call.Returns ((x.run conn t).answer (conn t))) ↔ (x.run conn T).peer.call.NothingLeft) ∧
      ((∃ t, (x.run conn t).peer.call = .returned) ↔ (x.run conn T).peer.NothingLeft) := by
  constructor
  · constructor
    · rintro ⟨t, ht, hreturns⟩
      rw [hzero t ht, returns_zero_iff] at hreturns
      by_contra hleft
      refine (stuck_run hbegins hzero ⟨fun hend => ?_, hleft⟩ ht).2 hreturns
      rw [returned_run hend ht] at hreturns
      exact hreturns
    · intro hleft
      refine ⟨T, le_refl T, ?_⟩
      rwa [hzero T (le_refl T), returns_zero_iff]
  · have hafter (hleft : (x.run conn T).peer.call.NothingLeft) :
        ∃ p : Peer, x.run conn (T + 1) = ⟨p.resume, (x.run conn T).stream⟩ ∧ p.resume.call = (x.run conn T).peer.resume.call := by
      obtain ⟨p, hs, hcall⟩ := call_of_nothingLeft hleft (inLoop_run hbegins conn T)
      refine ⟨p, ?_, hcall⟩
      rw [Listener.run, hzero T (le_refl T), hs]
      rfl
    constructor
    · rintro ⟨t, hend⟩
      by_cases hdone : (x.run conn T).peer.call = .returned
      · exact Or.inl hdone
      · by_cases hleft : (x.run conn T).peer.call.NothingLeft
        · refine Or.inr ⟨hleft, ?_⟩
          obtain ⟨p, hrun, hcall⟩ := hafter hleft
          by_contra hnot
          have hstuck : Stuck (x.run conn (T + 1)) := hrun ▸ stuck_resume p _ (hcall ▸ hnot)
          exact not_returned hbegins (fun t ht => hzero t (Nat.le_of_succ_le ht)) hstuck t hend
        · exact absurd hend (not_returned hbegins hzero ⟨hdone, hleft⟩ t)
    · rintro (hdone | ⟨hleft, hcall⟩)
      · exact ⟨T, hdone⟩
      · obtain ⟨p, hrun, heq⟩ := hafter hleft
        exact ⟨T + 1, by rw [hrun]; exact heq.trans hcall⟩

namespace ErrorLoopsAux

/-- The point is in a connection for some calls, and then it is not allocated any more. -/
def allocatedFor (calls t : Nat) : PointState :=
  if t < calls then { flagCon := some .comConexao, alloc := true, segs := 8 } else { flagCon := none, alloc := true, segs := 0 }

theorem silent_allocatedFor {calls : Nat} (ht : calls ≤ t) : (allocatedFor calls t).Silent := by
  rw [allocatedFor, if_neg (Nat.not_lt.2 ht)]
  exact ⟨nofun, Or.inl rfl⟩

theorem answer_allocatedFor {x : Listener} {calls : Nat} (ht : calls ≤ t) : x.answer (allocatedFor calls t) = 0 :=
  answer_of_silent (silent_allocatedFor ht)

end ErrorLoopsAux

open PeerFramingAux ErrorLoopsAux in
/-- A `download` that has been told there is no such file when the point goes. -/
theorem refused_download_ends :
    ∃ t, ((downloadFrom (sizeMessage 0)).run (allocatedFor 3) t).peer.call = .returned :=
  ((loops_end_iff (Or.inl ⟨_, rfl⟩) fun _ => answer_allocatedFor).2).2 (Or.inl (by decide +kernel))

open PeerFramingAux ErrorLoopsAux in
/-- An `upload` at a point that is not allocated waits for its request for good, and so does a `download` for the file when the point goes
after the size. -/
theorem error_loops_for_ever :
    (∀ t, ((uploadFrom []).run (allocatedFor 0) t).peer.call ≠ .returned) ∧
      (∀ t, ((downloadFrom (sizeMessage 1)).run (allocatedFor 3) t).peer.call ≠ .returned) ∧
      ¬∀ (x : Listener) (conn : Nat → PointState) (T : Nat), x.Begins → (∀ t, T ≤ t → (conn t).Silent) →
        ∃ t, (x.run conn t).peer.call = .returned := by
  have hupload : ∀ t, ((uploadFrom []).run (allocatedFor 0) t).peer.call ≠ .returned :=
    not_returned (Or.inr rfl) (fun _ => answer_allocatedFor) ⟨nofun, nofun⟩
  refine ⟨hupload, ?_, fun h => ?_⟩
  · have hcall : ((downloadFrom (sizeMessage 1)).run (allocatedFor 3) 3).peer.call = .recvIps .start := by decide +kernel
    refine not_returned (Or.inl ⟨_, rfl⟩) (fun _ => answer_allocatedFor) ⟨?_, ?_⟩
    · rw [hcall]
      exact nofun
    · rw [hcall]
      exact nofun
  · obtain ⟨t, ht⟩ := h (uploadFrom []) (allocatedFor 0) 0 (Or.inr rfl) fun _ => silent_allocatedFor
    exact hupload t ht

end NetworkLayers
