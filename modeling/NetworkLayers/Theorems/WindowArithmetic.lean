import NetworkLayers.Theorems.Reuse
import NetworkLayers.Transport.Point

/-!
# The arithmetic of the window

`send_thread` takes remainders by `window_size`, takes from it what `in_seq` returns, and fills what is left of it. It does not look at
what a window of a new connection is, nor at what is in flight besides its own segments: a FIN takes a byte, too. The bytes in flight
stay behind the pointer of the window, or, after a close, fit in the window with all that is still to be sent.
-/

namespace NetworkLayers

open Transition

/-- The next step of `send_thread` is defined: a window to take the remainder by and a segment that is not empty, or a window that is
not less than what `in_seq` returns. -/
structure Endpoint.WindowDefined (p : Endpoint) : Prop where
  segment : p.sendThread.pc = .segment → p.sendThread.sendSize ≠ 0 → p.sp.windowSize ≠ 0 ∧ p.sendThread.size ≠ 0
  window : p.sendThread.pc = .window → (inSeq p.sp.acks).1 ≤ p.sp.windowSize

/-! ## The condition on a step -/

/-- A new window is one, what is in flight is behind the pointer or, at the end of the window, not more than it, and the next segment
fits behind the pointer. -/
def Endpoint.TakesWindow (p : Endpoint) (windowSize : Nat) : Prop :=
  windowSize ≠ 0 ∧ (p.sendThread.pc = .window → p.sp.inFlight ≤ windowSize) ∧
    (p.sendThread.pc ≠ .window → p.sp.inFlight ≤ p.sendThread.windowPtr % windowSize ∧
      (p.sendThread.done = true → p.sendThread.windowPtr % windowSize + p.sendThread.segmentSendSize ≤ windowSize))

instance (p : Endpoint) (windowSize : Nat) : Decidable (p.TakesWindow windowSize) :=
  inferInstanceAs (Decidable (_ ∧ (_ → _) ∧ (_ → _ ∧ (_ → _))))

/-- There is a byte between what is in flight and the pointer of the window, or its end when `send_thread` is there. -/
def Endpoint.Slack (p : Endpoint) : Prop :=
  p.sp.inFlight < if p.sendThread.pc = .window then p.sp.windowSize else p.sendThread.windowPtr % p.sp.windowSize

instance (p : Endpoint) : Decidable p.Slack := inferInstanceAs (Decidable (_ < _))

/-- The condition on a step: a connection is opened with a window that the point fits, and closed, from either side, with a byte for the
FIN. -/
def KeepsWindow (p : Endpoint) : PointAction → Prop
  | .connectPoint _ _ windowSize _ => p.sp.flagCon = .semConexao → p.TakesWindow (u16 windowSize)
  | .closeConn => p.sp.flagCon = .comConexao → p.Slack ∨ p.RoomForFin
  | .recvThread pkt rnd =>
    (PointAction.recvThread pkt rnd).Fits ∧
      (pkt.segment.flags = .sync → p.sp.flagCon = .semConexao → p.TakesWindow pkt.segment.windowSize) ∧
      (pkt.segment.flags = .fin → p.sp.flagCon = .comConexao → p.Slack ∨ p.RoomForFin)
  | _ => True

instance (p : Endpoint) : ∀ act, Decidable (KeepsWindow p act)
  | .connectPoint _ _ windowSize _ => inferInstanceAs (Decidable (_ → p.TakesWindow (u16 windowSize)))
  | .closeConn => inferInstanceAs (Decidable (_ → _ ∨ _))
  | .recvThread pkt rnd =>
    inferInstanceAs (Decidable ((PointAction.recvThread pkt rnd).Fits ∧
      (pkt.segment.flags = .sync → _ → p.TakesWindow pkt.segment.windowSize) ∧ (pkt.segment.flags = .fin → _ → _ ∨ _)))
  | .sendPoint _ | .sendPut _ | .recvPoint _ | .sendThread | .segSendThread _ => inferInstanceAs (Decidable True)

namespace WindowArithmeticAux

open ReuseAux

variable {here : Addr} {p p' : Endpoint} {act : PointAction} {out : List Packet}

/-- The invariant. Before the first connection there is nothing to send; from then on there is a window, what is in flight at its end is
not more than it, and before its end is behind the pointer or, in a closed connection, leaves room for all that is still to be sent. -/
structure Sound (p : Endpoint) : Prop where
  unopened : p.sp.windowSize = 0 →
    p.sp.flagCon = .semConexao ∧ p.waiting = [] ∧ p.sp.mutexCons = true ∧ p.sendThread.pc = .cons
  sizes : p.sendThread.done = true → p.sendThread.segmentSize ≠ 0 ∧ p.sendThread.segmentSendSize ≠ 0
  ended : p.sendThread.pc = .window → p.sp.inFlight ≤ p.sp.windowSize
  flight : p.sendThread.pc ≠ .window → p.sp.windowSize ≠ 0 → p.sp.inFlight ≤ p.sendThread.windowPtr % p.sp.windowSize ∨
    ((p.sp.flagCon = .semConexao ∨ p.sp.flagCon = .encerrando) ∧ p.sp.inFlight + p.toSend ≤ p.sp.windowSize)
  fits : p.sendThread.pc ≠ .window → p.sendThread.done = true → p.sp.windowSize ≠ 0 →
    p.sendThread.windowPtr % p.sp.windowSize + p.sendThread.segmentSendSize ≤ p.sp.windowSize

theorem sound_alloc : Sound allocServicePoint :=
  ⟨fun _ => ⟨rfl, rfl, rfl, rfl⟩, fun hdone => (by cases hdone), fun hpc => (by cases hpc), fun _ hw => absurd rfl hw,
    fun _ hdone => (by cases hdone)⟩

/-- In a connection there is a window, and what is in flight is behind its pointer. -/
theorem Sound.inConnection (h : Sound p) (hf : p.sp.flagCon = .estabelecendo ∨ p.sp.flagCon = .comConexao) :
    p.sp.windowSize ≠ 0 ∧ (p.sendThread.pc ≠ .window → p.sp.inFlight ≤ p.sendThread.windowPtr % p.sp.windowSize) := by
  have hw : p.sp.windowSize ≠ 0 := by
    intro h0
    rw [(h.unopened h0).1] at hf
    rcases hf with hf | hf <;> cases hf
  refine ⟨hw, fun hpc => (h.flight hpc hw).resolve_right ?_⟩
  rintro ⟨hclosed, -⟩
  rcases hf with hf | hf <;> rcases hclosed with hclosed | hclosed <;> exact absurd (hf.symm.trans hclosed) (by decide)

/-! ## One step -/

/-- A connection opened in a point that fits its window. -/
theorem sound_opened {w : Nat} {t : SegSend} {a : AckLst} (h : Sound p) (ho : Opened p p' w t a) (hfits : p.TakesWindow w) :
    Sound p' := by
  obtain ⟨hw, hended, hopen⟩ := hfits
  have hin : p'.sp.inFlight = p.sp.inFlight := by
    rw [ServicePoint.inFlight, ho.acks, List.map_append, List.sum_append, List.map_singleton, List.sum_singleton, ho.size]
    rfl
  refine ⟨?_, ?_, ?_, ?_, ?_⟩
  · rw [ho.windowSize]
    exact fun h0 => absurd h0 hw
  · rw [ho.sendThread]
    exact h.sizes
  · rw [ho.sendThread, ho.windowSize, hin]
    exact hended
  · rw [ho.sendThread, ho.windowSize, hin]
    exact fun hpc _ => Or.inl (hopen hpc).1
  · rw [ho.sendThread, ho.windowSize]
    exact fun hpc hdone _ => (hopen hpc).2 hdone

/-- The FIN of `close_conn` or `close_conn_aux`. -/
theorem sound_sendFin (h : Sound p) (hf : p.sp.flagCon = .comConexao) (hroom : p.Slack ∨ p.RoomForFin) {flagCon : FlagCon}
    (hf' : flagCon = .semConexao ∨ flagCon = .encerrando) (history : History) :
    Sound ({ p with history := history }.sendFin here flagCon) := by
  obtain ⟨hw, hopen⟩ := h.inConnection (Or.inr hf)
  have hin : ({ p with history := history }.sendFin here flagCon).sp.inFlight = p.sp.inFlight + 1 := inFlight_insertAck _ _
  refine ⟨fun h0 => absurd h0 hw, h.sizes, ?_, ?_, h.fits⟩
  · intro hpc
    rw [hin]
    rcases hroom with hslack | hroom
    · unfold Endpoint.Slack at hslack
      rw [if_pos (show p.sendThread.pc = .window from hpc)] at hslack
      exact hslack
    · unfold Endpoint.RoomForFin at hroom
      exact (by omega : p.sp.inFlight + 1 ≤ p.sp.windowSize)
  · intro hpc _
    rw [hin]
    rcases hroom with hslack | hroom
    · unfold Endpoint.Slack at hslack
      rw [if_neg (show p.sendThread.pc ≠ .window from hpc)] at hslack
      exact Or.inl hslack
    · unfold Endpoint.RoomForFin at hroom
      exact Or.inr ⟨hf', (by omega : p.sp.inFlight + 1 + p.toSend ≤ p.sp.windowSize)⟩

/-- `send_thread` starts on a buffer. -/
theorem sound_takeBuffer (h : Sound p) (hsteady : Steady p) (hpc : p.sendThread.pc = .cons) (hcons : p.sp.mutexCons = false) :
    Sound p.takeBuffer := by
  have hw : p.sp.windowSize ≠ 0 := by
    intro h0
    rw [(h.unopened h0).2.2.1] at hcons
    cases hcons
  have hne : p.sendThread.pc ≠ .window := by rw [hpc]; decide
  have hfirst := first_le p.sp.windowSize
  have hpos : (if p.sp.windowSize < maxSegmentSize then p.sp.windowSize else maxSegmentSize) ≠ 0 := by
    split
    · exact hw
    · decide
  refine ⟨fun h0 => absurd h0 hw, ?_, fun hpc' => (by cases hpc'), ?_, ?_⟩
  · intro _
    simp only [Endpoint.takeBuffer]
    split
    · rename_i hdone
      exact h.sizes hdone
    · exact ⟨hpos, hpos⟩
  · intro _ _
    rw [toSend_takeBuffer hsteady hpc hcons]
    exact h.flight hne hw
  · intro _ _ _
    simp only [Endpoint.takeBuffer]
    split
    · rename_i hdone
      exact h.fits hne hdone hw
    · rename_i hdone
      rw [hsteady.undone (by simpa using hdone), Nat.zero_mod, Nat.zero_add]
      exact hfirst.trans (min_le_left _ _)

theorem size_ne_zero (h : Sound p) (hdone : p.sendThread.done = true) (hsize : p.sendThread.sendSize ≠ 0) :
    p.sendThread.size ≠ 0 := by
  have hsend := (h.sizes hdone).2
  unfold SendThread.size
  split <;> assumption

theorem nextSize_ne_zero {t : SendThread} {w ptr : Nat} (hseg : t.segmentSize ≠ 0) (hptr : ptr < w) (hw : w < 65536) :
    t.nextSize w ptr ≠ 0 := by
  unfold SendThread.nextSize u16
  split <;> omega

/-- `send_thread` builds a segment. -/
theorem sound_segment (h : Sound p) (hsteady : Steady p) (hpc : p.sendThread.pc = .segment) (hsize : p.sendThread.sendSize ≠ 0)
    (hw : p.sp.windowSize ≠ 0) : Sound (p.sendSegment here) := by
  have hne : p.sendThread.pc ≠ .window := by rw [hpc]; decide
  have hdone : p.sendThread.done = true := (hsteady.busy (by rw [hpc]; decide)).1
  have hseg := h.sizes hdone
  have hfits := h.fits hne hdone hw
  have hle := p.sendThread.size_le
  have hwin : (p.sendSegment here).sp.windowSize = p.sp.windowSize := rfl
  have hlt : (p.sendThread.windowPtr + p.sendThread.size) % p.sp.windowSize < p.sp.windowSize :=
    Nat.mod_lt _ (Nat.pos_of_ne_zero hw)
  have hin := inFlight_sendSegment here p
  have hrest := toSend_sendSegment here p
  refine ⟨fun h0 => absurd h0 hw, ?_, ?_, ?_, ?_⟩
  · intro _
    simp only [Endpoint.sendSegment]
    split
    · exact ⟨hseg.1, size_ne_zero h hdone hsize⟩
    · exact ⟨hseg.1, nextSize_ne_zero hseg.1 hlt hsteady.windowSize⟩
  · intro _
    rw [hin, hwin]
    rcases h.flight hne hw with hopen | ⟨-, hroom⟩ <;> omega
  · intro hpc' _
    obtain ⟨ptr, hptr, hne', hwindowPtr, -⟩ := thread_sendSegment hpc'
    rw [hwindowPtr, hin, hwin]
    rcases h.flight hne hw with hopen | ⟨hf, hroom⟩
    · have hmove : ptr = p.sendThread.windowPtr % p.sp.windowSize + p.sendThread.size := by
        rw [hptr]
        exact move_ptr ((Nat.add_le_add_left hle _).trans hfits) (by rw [← hptr]; exact hne')
      rw [Nat.mod_eq_of_lt (hptr.trans_lt hlt), hmove]
      exact Or.inl (Nat.add_le_add_right hopen _)
    · exact Or.inr ⟨hf, by omega⟩
  · intro hpc' _ _
    obtain ⟨ptr, hptr, -, hwindowPtr, hnext⟩ := thread_sendSegment hpc'
    rw [hwindowPtr, hnext, hwin, Nat.mod_eq_of_lt (hptr.trans_lt hlt)]
    exact (nextSize_le hsteady.segmentSize (hptr.trans_lt hlt) hsteady.windowSize).2

/-- `in_seq` moves the window. -/
theorem sound_window (h : Sound p) (hsteady : Steady p) (hpc : p.sendThread.pc = .window) : Sound p.sendThreadWindow := by
  have hw : p.sp.windowSize ≠ 0 := by
    intro h0
    rw [(h.unopened h0).2.2.2] at hpc
    cases hpc
  have hdone : p.sendThread.done = true := (hsteady.busy (by rw [hpc]; decide)).1
  have hseg := h.sizes hdone
  have hended := h.ended hpc
  have hmax := hsteady.windowSize
  have hin : p.sendThreadWindow.sp.inFlight + (inSeq p.sp.acks).1 = p.sp.inFlight :=
    (Nat.add_comm _ _).trans (inSeq_add_sum p.sp.acks)
  have hwin : p.sendThreadWindow.sp.windowSize = p.sp.windowSize := rfl
  have hcut : ∀ move, move ≠ 0 → move ≤ p.sp.windowSize →
      u16 (p.sp.windowSize + 65536 - u16 move) % p.sp.windowSize = p.sp.windowSize - move := by
    intro move hmove hle
    have hcut' : u16 (p.sp.windowSize + 65536 - move) = p.sp.windowSize - move := by
      unfold u16
      omega
    rw [u16_of_lt (n := move) (by omega), hcut', Nat.mod_eq_of_lt (by omega)]
  refine ⟨fun h0 => absurd h0 hw, ?_, ?_, ?_, ?_⟩
  · intro _
    by_cases hmove : (inSeq p.sp.acks).1 = 0
    · simp only [Endpoint.sendThreadWindow, if_pos hmove]
      exact hseg
    · simp only [Endpoint.sendThreadWindow, if_neg hmove]
      rw [u16_of_lt (by omega)]
      refine ⟨hseg.1, ?_⟩
      split
      · exact hseg.1
      · exact hmove
  · intro _
    rw [hwin]
    omega
  · intro hpc' _
    obtain ⟨move, hmove, hne, hptr, -⟩ := thread_sendThreadWindow hpc hpc'
    rw [hptr, hwin, hcut move hne (by omega)]
    exact Or.inl (by omega)
  · intro hpc' _ _
    obtain ⟨move, hmove, hne, hptr, hsize⟩ := thread_sendThreadWindow hpc hpc'
    rw [hptr, hsize, hwin, hcut move hne (by omega), u16_of_lt (n := move) (by omega)]
    split <;> omega

/-- A step keeps the invariant. -/
theorem sound_step (h : Sound p) (hsteady : Steady p) (hok : KeepsWindow p act) (hact : p.act here act = some (p', out)) :
    Sound p' := by
  cases act_does hact with
  | sync dest destPoint windowSize rnd _ hf =>
    exact sound_opened h ⟨rfl, rfl, by simp, rfl, rfl, rfl, rfl, rfl, rfl, Or.inl rfl⟩ (hok hf)
  | acceptSync pkt rnd hflags _ hf =>
    exact sound_opened h ⟨rfl, rfl, by simp, rfl, rfl, rfl, rfl, rfl, rfl, Or.inr rfl⟩ (hok.2.1 hflags hf)
  | close _ hf => exact sound_sendFin h hf (hok hf) (Or.inr rfl) _
  | finInConnection pkt _ hflags _ hf => exact sound_sendFin h hf (hok.2.2 hflags hf) (Or.inl rfl) _
  | finWhileClosing _ _ _ _ hf =>
    refine ⟨fun h0 => ⟨rfl, (h.unopened h0).2⟩, h.sizes, h.ended, fun hpc hw => ?_, h.fits⟩
    exact (h.flight hpc hw).imp id fun hroom => ⟨Or.inl rfl, hroom.2⟩
  | send buffer hf =>
    obtain ⟨hw, hopen⟩ := h.inConnection (Or.inr hf)
    exact ⟨fun h0 => absurd h0 hw, h.sizes, h.ended, fun hpc _ => Or.inl (hopen hpc), h.fits⟩
  | deposit i buf hfree =>
    obtain ⟨buf', hbuf, -, heq⟩ := act_sendPut hact
    rw [heq]
    have hw : p.sp.windowSize ≠ 0 := by
      intro h0
      rw [(h.unopened h0).2.1] at hbuf
      cases hbuf
    refine ⟨fun h0 => absurd h0 hw, h.sizes, h.ended, fun hpc _ => ?_, h.fits⟩
    rw [toSend_deposit hsteady hbuf hfree]
    exact h.flight hpc hw
  | takeBuffer hpc hcons => exact sound_takeBuffer h hsteady hpc hcons
  | segment hpc hsize hw => exact sound_segment h hsteady hpc hsize hw
  | bufferSent hpc =>
    have hne : p.sendThread.pc ≠ .window := by rw [hpc]; decide
    refine ⟨fun h0 => ?_, h.sizes, fun hpc' => (by cases hpc'), fun _ => h.flight hne, fun _ => h.fits hne⟩
    rw [(h.unopened h0).2.2.2] at hpc
    cases hpc
  | window hpc => exact sound_window h hsteady hpc
  | ack pkt =>
    have hin : ({ p.sp with acks := setAck p.sp.acks pkt.segment.ackNum } : ServicePoint).inFlight = p.sp.inFlight :=
      inFlight_setAck _ _
    refine ⟨h.unopened, h.sizes, ?_, ?_, h.fits⟩
    · rw [hin]
      exact h.ended
    · rw [hin]
      exact h.flight
  | acceptSyncAck pkt _ _ _ hf =>
    obtain ⟨hw, hopen⟩ := h.inConnection (Or.inl hf)
    have hin : (p.acceptSyncAck pkt).sp.inFlight = p.sp.inFlight := inFlight_setAck _ _
    refine ⟨fun h0 => absurd h0 hw, h.sizes, ?_, fun hpc _ => Or.inl ?_, h.fits⟩
    · rw [hin]
      exact h.ended
    · rw [hin]
      exact hopen hpc
  | _ => exact ⟨h.unopened, h.sizes, h.ended, h.flight, h.fits⟩

/-- In a sound state the next step of `send_thread` is defined. -/
theorem Sound.windowDefined (h : Sound p) (hsteady : Steady p) : p.WindowDefined := by
  refine ⟨fun hpc hsize => ⟨?_, size_ne_zero h (hsteady.busy (by rw [hpc]; decide)).1 hsize⟩, fun hpc => ?_⟩
  · intro h0
    rw [(h.unopened h0).2.2.2] at hpc
    cases hpc
  · have hle := inSeq_add_sum p.sp.acks
    have hended := h.ended hpc
    unfold ServicePoint.inFlight at hended
    omega

end WindowArithmeticAux

open WindowArithmeticAux ReuseAux in
/-- For every run of a service point, through any number of connections with any windows, any calls and anything received, in which
connections are opened with windows the point fits and closed with a byte for the FIN: what `send_thread` does next is defined in every
state reached. -/
theorem window_arithmetic_defined {here : Addr} {p : Endpoint}
    (h : Reach (Endpoint.step here) KeepsWindow allocServicePoint p) : p.WindowDefined := by
  have hstep : ∀ s act s', Sound s ∧ Steady s → KeepsWindow s act → Endpoint.step here s act = some s' →
      Sound s' ∧ Steady s' := by
    rintro s act s' ⟨hsound, hsteady⟩ hok hs
    obtain ⟨⟨p', out⟩, hact, rfl⟩ := Option.map_eq_some_iff.1 hs
    refine ⟨sound_step hsound hsteady hok hact, steady_step hsteady (act_does hact) ?_⟩
    rintro pkt rnd rfl - -
    exact hok.1
  have hinv : Sound p ∧ Steady p := h.invariant ⟨sound_alloc, steady_alloc⟩ hstep
  exact hinv.1.windowDefined hinv.2

namespace WindowArithmeticAux

open ReuseAux

/-- A connection to node 2 with a window, and bytes handed to its `send_thread`. -/
def connectAndSend (windowSize : Nat) (buffer : List Byte) : List PointAction :=
  [.connectPoint 2 0 windowSize 10, arrives 2 .syncAck 105 16 [115], .sendPoint buffer, .sendPut 0, .sendThread]

/-- The window is full, the point is closed, and the ACKs of the five bytes come, and that of the FIN. -/
def closeAtEnd : List PointAction :=
  [.sendThread, .closeConn, arrives 2 .ack 0 21 [], arrives 2 .ack 0 22 []]

end WindowArithmeticAux

open WindowArithmeticAux in
/-- Four of five bytes are in flight when the point is closed. -/
theorem close_with_room_defined :
    ∃ p ∈ exec (Endpoint.step ⟨1, 0⟩) allocServicePoint (connectAndSend 5 [1, 2, 3, 4] ++ [.sendThread, .closeConn]),
      p.sp.flagCon = .encerrando ∧ p.sp.inFlight = 5 ∧ p.WindowDefined := by
  obtain ⟨p, hp, hf, hin⟩ :
      ∃ p ∈ exec (Endpoint.step ⟨1, 0⟩) allocServicePoint (connectAndSend 5 [1, 2, 3, 4] ++ [.sendThread, .closeConn]),
        p.sp.flagCon = .encerrando ∧ p.sp.inFlight = 5 := by
    decide
  have hok : Along (Endpoint.step ⟨1, 0⟩) KeepsWindow allocServicePoint
      (connectAndSend 5 [1, 2, 3, 4] ++ [.sendThread, .closeConn]) := by
    decide
  exact ⟨p, hp, hf, hin, window_arithmetic_defined (reach_of_exec hok hp)⟩

open WindowArithmeticAux in
/-- A window of 65536 bytes is one of none as the service point keeps it, and the remainder is by 0; and a point closed while its
`send_thread` waits at the end of a window of 5 bytes finds 6 that are acknowledged. -/
theorem window_arithmetic_undefined :
    (∃ p ∈ exec (Endpoint.step ⟨1, 0⟩) allocServicePoint (connectAndSend 65536 [1]),
      p.sendThread.pc = .segment ∧ p.sendThread.sendSize = 1 ∧ p.sp.windowSize = 0 ∧ p.sendThread.size = 0) ∧
    (∃ p ∈ exec (Endpoint.step ⟨1, 0⟩) allocServicePoint (connectAndSend 5 (List.replicate 10 7) ++ closeAtEnd),
      p.sendThread.pc = .window ∧ p.sp.windowSize = 5 ∧ (inSeq p.sp.acks).1 = 6) ∧
    ¬∀ p, Reach (Endpoint.step ⟨1, 0⟩) anyStep allocServicePoint p → p.WindowDefined := by
  have hzero : ∃ p ∈ exec (Endpoint.step ⟨1, 0⟩) allocServicePoint (connectAndSend 65536 [1]),
      p.sendThread.pc = .segment ∧ p.sendThread.sendSize = 1 ∧ p.sp.windowSize = 0 ∧ p.sendThread.size = 0 := by
    decide
  refine ⟨hzero, by decide, fun h => ?_⟩
  obtain ⟨p, hp, hpc, hsize, hw, -⟩ := hzero
  exact ((h p (reach_anyStep_of_exec hp)).segment hpc (by rw [hsize]; decide)).1 hw

end NetworkLayers
