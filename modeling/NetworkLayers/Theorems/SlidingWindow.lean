import NetworkLayers.Theorems.Reuse
import NetworkLayers.Lemmas.Stream

/-!
# The sliding window of a sender

A service point on its first connection, up to any close, with the buffers that its calls of `send_point` have handed to
`send_thread`: what `send_thread` makes of them, and what is in its window.
-/

namespace NetworkLayers

open Transition

/-! ## A sender and its buffers -/

/-- A service point and the buffers handed to its `send_thread`, in order. -/
structure Sender where
  point : Endpoint
  buffers : List (List Byte)
  deriving DecidableEq, Repr

/-- The buffer that an action hands over: the copy a call of `send_point` waits with. -/
def Endpoint.handsOver (p : Endpoint) : PointAction → List (List Byte)
  | .sendPut i => p.waiting[i]?.toList
  | _ => []

/-- A step of the service point. -/
def Sender.step (here : Addr) (s : Sender) (act : PointAction) : Option Sender :=
  (s.point.step here act).map fun p => { point := p, buffers := s.buffers ++ s.point.handsOver act }

/-- The service point at `alloc_service_point`. -/
def Sender.start : Sender := { point := allocServicePoint, buffers := [] }

/-- The connection is opened with a window of 1 to 65535 bytes, from either side, and neither side closes it. -/
def FirstConnection (s : Sender) : PointAction → Prop
  | .connectPoint _ _ windowSize _ => s.point.sp.flagCon = .semConexao → 1 ≤ windowSize ∧ windowSize ≤ 65535
  | .closeConn => s.point.sp.flagCon ≠ .comConexao
  | .recvThread pkt _ =>
    (pkt.segment.flags = .sync → s.point.sp.flagCon = .semConexao →
      1 ≤ pkt.segment.windowSize ∧ pkt.segment.windowSize ≤ 65535) ∧
    (pkt.segment.flags = .fin → s.point.sp.flagCon ≠ .comConexao)
  | _ => True

instance (s : Sender) : ∀ act, Decidable (FirstConnection s act)
  | .connectPoint .. => inferInstanceAs (Decidable (_ → _ ∧ _))
  | .closeConn => inferInstanceAs (Decidable (_ ≠ _))
  | .recvThread _ _ => inferInstanceAs (Decidable ((_ → _ → _ ∧ _) ∧ (_ → _ ≠ _)))
  | .sendPoint _ | .sendPut _ | .recvPoint _ | .sendThread | .segSendThread _ => inferInstanceAs (Decidable True)

/-- The segments are the buffers cut up, each buffer into segments of its own, in order; of the last one `unsent` is still to be
cut. -/
def Sender.Partitions (s : Sender) : Prop :=
  ∃ cuts : List (List SendSegment), s.point.stream = cuts.flatten ∧
    (s.buffers = [] ∧ cuts = [] ∧ s.point.unsent = [] ∨
      ∃ cs c, cuts = cs ++ [c] ∧ s.buffers = cs.map packBytes ++ [packBytes c ++ s.point.unsent])

/-- The segments partition the buffers, each has a byte at least and fits in the window and in `MAX_SEGMENT_SIZE`; what is in flight
fits in the window, and `window_ptr` is behind it when `send_thread` is about to build a segment. -/
structure Sender.SlidingWindow (s : Sender) : Prop where
  partitions : s.Partitions
  sizes : ∀ k ∈ s.point.stream,
    1 ≤ k.size ∧ k.size ≤ min s.point.sp.windowSize maxSegmentSize ∧ k.segment.data.length = k.size
  inFlight : s.point.sp.inFlight ≤ s.point.sp.windowSize
  windowPtr : s.point.sendThread.pc = .segment → s.point.sp.inFlight = s.point.sendThread.windowPtr

/-- What a step takes off `acks` are the first entries, all of them set, and only a call of `in_seq` takes them; the other entries
stay where they are. -/
def Sender.RemovesInOrder (s : Sender) (act : PointAction) (s' : Sender) : Prop :=
  ∃ removed rest, s.point.sp.acks = removed ++ rest ∧ (∀ a ∈ removed, a.flag = true) ∧
    rest.map AckLst.entry <+: s'.point.sp.acks.map AckLst.entry ∧
    (removed ≠ [] → act = .sendThread ∧ s'.point.sp.acks = (inSeq s.point.sp.acks).2)

namespace SlidingWindowAux

variable {here : Addr} {p p' : Endpoint} {act : PointAction} {out : List Packet}

/-! ## The window -/

/-- The accounting of the window. Before the connection nothing is waiting or in flight; in it `window_ptr` is behind what is in
flight, which fills the window while `send_thread` waits for it to move. -/
structure Slides (p : Endpoint) : Prop where
  waits : p.sp.flagCon ≠ .comConexao →
    p.waiting = [] ∧ p.sp.mutexProd = false ∧ p.sendThread.done = false ∧ p.sp.inFlight = 0 ∧ p.stream = []
  opened : p.sp.flagCon ≠ .encerrando
  pos : p.sp.flagCon ≠ .semConexao → 0 < p.sp.windowSize
  segmentSize : p.sendThread.done = true → 0 < p.sendThread.segmentSize ∧ p.sendThread.segmentSize ≤ p.sp.windowSize
  next : p.sendThread.done = true → p.sendThread.pc ≠ .window → 0 < p.sendThread.segmentSendSize ∧
    p.sendThread.segmentSendSize ≤ p.sendThread.segmentSize ∧
    p.sendThread.windowPtr + p.sendThread.segmentSendSize ≤ p.sp.windowSize
  flight : p.sp.inFlight = if p.sendThread.pc = .window then p.sp.windowSize else p.sendThread.windowPtr
  buffer : p.sendThread.pc ≠ .cons → p.sendThread.sendSize = (p.sp.sendBuff.drop p.sendThread.sendPtr).length
  packs : ∀ k ∈ p.stream,
    1 ≤ k.size ∧ k.size ≤ min p.sp.windowSize maxSegmentSize ∧ k.segment.data.length = k.size

theorem slides_alloc : Slides allocServicePoint where
  waits := fun _ => ⟨rfl, rfl, rfl, rfl, rfl⟩
  opened := by decide
  pos := fun h => absurd rfl h
  segmentSize := fun h => by cases h
  next := fun h => by cases h
  flight := rfl
  buffer := fun h => absurd rfl h
  packs := fun k hk => by cases hk

/-- A SYN or SYN+ACK is not in the stream. -/
theorem stream_spawn_sync {segment : Segment} {size : Nat} (h : segment.flags = .sync ∨ segment.flags = .syncAck) :
    (p.spawn segment size).stream = p.stream := by
  have hnot : ¬(segment.flags = .dados ∨ segment.flags = .fin) := by
    rcases h with h | h <;> simp [h]
  simp [Endpoint.stream, Endpoint.packs, Endpoint.spawn, List.filter_append, hnot]

/-- A connection is opened or entered: the entry of the SYN or SYN+ACK stands for no bytes. -/
theorem slides_open (h : Slides p) (hsteady : ReuseAux.Steady p) (hf : p.sp.flagCon ≠ .comConexao)
    (hf' : p'.sp.flagCon = .estabelecendo ∨ p'.sp.flagCon = .comConexao) (hw : 0 < p'.sp.windowSize)
    (hacks : p'.sp.inFlight = p.sp.inFlight) (hstream : p'.stream = p.stream) (hthread : p'.sendThread = p.sendThread)
    (hwaiting : p'.waiting = p.waiting) (hprod : p'.sp.mutexProd = p.sp.mutexProd) : Slides p' := by
  obtain ⟨h1, h2, hdone, hzero, hnil⟩ := h.waits hf
  have hpc : p.sendThread.pc = .cons := by
    by_contra hpc
    exact absurd (hdone.symm.trans (hsteady.busy hpc).1) (by decide)
  refine ⟨fun _ => ?_, ?_, fun _ => hw, ?_, ?_, ?_, ?_, ?_⟩
  · rw [hwaiting, hprod, hthread, hacks, hstream]
    exact ⟨h1, h2, hdone, hzero, hnil⟩
  · rcases hf' with hf' | hf' <;> rw [hf'] <;> decide
  · rw [hthread, hdone]
    exact fun h => by cases h
  · rw [hthread, hdone]
    exact fun h => by cases h
  · rw [hacks, hthread, hzero, hpc, hsteady.undone hdone]
    rfl
  · rw [hthread]
    exact fun h => absurd hpc h
  · rw [hstream, hnil]
    exact fun k hk => by cases hk

/-- What the accounting is about stays as it is. -/
theorem Slides.congr (h : Slides p) (hf : p'.sp.flagCon = p.sp.flagCon) (hw : p'.sp.windowSize = p.sp.windowSize)
    (hacks : p'.sp.inFlight = p.sp.inFlight) (hstream : p'.stream = p.stream) (hthread : p'.sendThread = p.sendThread)
    (hwaiting : p'.waiting = p.waiting) (hprod : p'.sp.mutexProd = p.sp.mutexProd) (hbuff : p'.sp.sendBuff = p.sp.sendBuff) :
    Slides p' := by
  refine ⟨?_, ?_, ?_, ?_, ?_, ?_, ?_, ?_⟩
  · rw [hf, hwaiting, hprod, hthread, hacks, hstream]
    exact h.waits
  · rw [hf]
    exact h.opened
  · rw [hf, hw]
    exact h.pos
  · rw [hthread, hw]
    exact h.segmentSize
  · rw [hthread, hw]
    exact h.next
  · rw [hacks, hthread, hw]
    exact h.flight
  · rw [hthread, hbuff]
    exact h.buffer
  · rw [hstream, hw]
    exact h.packs

/-- With a buffer to cut the point is in the connection. -/
theorem inConnection_of_prod (h : Slides p) (hprod : p.sp.mutexProd = true) : p.sp.flagCon = .comConexao := by
  by_contra hf
  obtain ⟨-, hfree, -⟩ := h.waits hf
  rw [hprod] at hfree
  cases hfree

/-- `send_thread` starts on a buffer. -/
theorem slides_takeBuffer (h : Slides p) (hsteady : ReuseAux.Steady p) (hpc : p.sendThread.pc = .cons)
    (hcons : p.sp.mutexCons = false) : Slides p.takeBuffer := by
  have hprod : p.sp.mutexProd = true := by
    by_contra hfree
    rw [hsteady.handed (by simpa using hfree)] at hcons
    cases hcons
  have hf := inConnection_of_prod h hprod
  have hw : 0 < p.sp.windowSize := h.pos (by rw [hf]; decide)
  have hne : p.sendThread.pc ≠ .window := by rw [hpc]; decide
  have hfirst : 0 < (if p.sp.windowSize < maxSegmentSize then p.sp.windowSize else maxSegmentSize) := by
    unfold maxSegmentSize
    split <;> omega
  have hfirst' := (ReuseAux.first_le p.sp.windowSize).trans (min_le_left _ _)
  refine ⟨fun hf' => absurd hf hf', h.opened, h.pos, ?_, ?_, ?_, fun _ => rfl, h.packs⟩
  · intro _
    simp only [Endpoint.takeBuffer]
    split
    · rename_i hdone
      exact h.segmentSize hdone
    · exact ⟨hfirst, hfirst'⟩
  · intro _ _
    simp only [Endpoint.takeBuffer]
    split
    · rename_i hdone
      exact h.next hdone hne
    · rename_i hdone
      have hptr := hsteady.undone (by simpa using hdone)
      exact ⟨hfirst, le_refl _, by rw [hptr, Nat.zero_add]; exact hfirst'⟩
  · have hold := h.flight
    rw [if_neg hne] at hold
    exact hold

/-- The pack of the segment that `send_thread` builds, and its size. -/
theorem size_spec (h : Slides p) (hsteady : ReuseAux.Steady p) (hpc : p.sendThread.pc = .segment)
    (hsize : p.sendThread.sendSize ≠ 0) :
    0 < p.sendThread.size ∧ p.sendThread.size ≤ p.sendThread.segmentSendSize ∧
      p.sendThread.size ≤ min p.sp.windowSize maxSegmentSize ∧
      ((p.sp.sendBuff.drop p.sendThread.sendPtr).take p.sendThread.size).length = p.sendThread.size := by
  have hdone := (hsteady.busy (by rw [hpc]; decide)).1
  obtain ⟨hpos, hle, -⟩ := h.next hdone (by rw [hpc]; decide)
  obtain ⟨-, hseg⟩ := h.segmentSize hdone
  have hmax := hsteady.segmentSize
  have hsend := p.sendThread.size_le
  have hlen := h.buffer (by rw [hpc]; decide)
  have hrest := ReuseAux.size_le_sendSize p.sendThread
  refine ⟨?_, hsend, le_min (by omega) (by omega), ?_⟩
  · unfold SendThread.size
    split <;> omega
  · rw [List.length_take]
    omega

/-- `send_thread` builds a segment. -/
theorem slides_segment (h : Slides p) (hsteady : ReuseAux.Steady p) (here : Addr) (hpc : p.sendThread.pc = .segment)
    (hsize : p.sendThread.sendSize ≠ 0) : Slides (p.sendSegment here) := by
  obtain ⟨hdone, hprod, -⟩ := hsteady.busy (by rw [hpc]; decide)
  have hne : p.sendThread.pc ≠ .window := by rw [hpc]; decide
  have hf := inConnection_of_prod h hprod
  have hw : 0 < p.sp.windowSize := h.pos (by rw [hf]; decide)
  obtain ⟨hpos, hsend, hmin, hlength⟩ := size_spec h hsteady hpc hsize
  obtain ⟨hnext, hnext', hroom⟩ := h.next hdone hne
  obtain ⟨hseg, hsegW⟩ := h.segmentSize hdone
  have hin := ReuseAux.inFlight_sendSegment here p
  have hold := h.flight
  rw [if_neg hne] at hold
  have hthread : (p.sendSegment here).sendThread.segmentSize = p.sendThread.segmentSize := by
    simp only [Endpoint.sendSegment]
    split <;> rfl
  have hsendSize : (p.sendSegment here).sendThread.sendSize = p.sendThread.sendSize - p.sendThread.size := by
    simp only [Endpoint.sendSegment]
    split <;> rfl
  have hptr : (p.sendSegment here).sendThread.sendPtr = p.sendThread.sendPtr + p.sendThread.size := by
    simp only [Endpoint.sendSegment]
    split <;> rfl
  have hstream : (p.sendSegment here).stream = p.stream ++ [_] := stream_spawn (Or.inl rfl)
  have hsum : p.sendThread.windowPtr + p.sendThread.size ≤ p.sp.windowSize := by omega
  refine ⟨fun hf' => absurd hf hf', h.opened, h.pos, ?_, ?_, ?_, ?_, ?_⟩
  · rw [hthread]
    exact fun _ => ⟨hseg, hsegW⟩
  · intro _ hpc'
    obtain ⟨ptr, hmod, hne', hwindowPtr, hsize'⟩ := ReuseAux.thread_sendSegment hpc'
    have hlt : ptr < p.sp.windowSize := hmod.trans_lt (Nat.mod_lt _ hw)
    have hroom' := (ReuseAux.nextSize_le (t := p.sendThread) hsteady.segmentSize hlt hsteady.windowSize).2
    rw [hwindowPtr, hsize', hthread]
    refine ⟨StreamAux.nextSize_pos hseg hlt hsteady.windowSize, ?_, hroom'⟩
    unfold SendThread.nextSize u16
    split <;> omega
  · rw [hin, hold]
    split
    · rename_i hpc'
      -- the window is full
      have hzero : (p.sendThread.windowPtr + p.sendThread.size) % p.sp.windowSize = 0 := by
        by_contra hmod
        simp only [Endpoint.sendSegment, if_neg hmod] at hpc'
        exact hne hpc'
      have hdvd : p.sp.windowSize ≤ p.sendThread.windowPtr + p.sendThread.size :=
        Nat.le_of_dvd (by omega) (Nat.dvd_of_mod_eq_zero hzero)
      exact le_antisymm hsum hdvd
    · rename_i hpc'
      obtain ⟨ptr, hmod, hne', hwindowPtr, -⟩ := ReuseAux.thread_sendSegment hpc'
      have hlt : p.sendThread.windowPtr + p.sendThread.size < p.sp.windowSize := by
        refine lt_of_le_of_ne hsum fun heq => hne' ?_
        rw [hmod, heq, Nat.mod_self]
      rw [hwindowPtr, hmod, Nat.mod_eq_of_lt hlt]
  · intro _
    rw [hsendSize, hptr, h.buffer (by rw [hpc]; decide), List.length_drop, Nat.sub_sub]
    exact (List.length_drop ..).symm
  · intro k hk
    rw [hstream] at hk
    rcases List.mem_append.1 hk with hk | hk
    · exact h.packs k hk
    · obtain rfl := List.mem_singleton.1 hk
      exact ⟨hpos, hmin, hlength⟩

/-- `in_seq` moves the window by the bytes of the entries it takes off. -/
theorem slides_window (h : Slides p) (hsteady : ReuseAux.Steady p) (hpc : p.sendThread.pc = .window) :
    Slides p.sendThreadWindow := by
  obtain ⟨hdone, hprod, -⟩ := hsteady.busy (by rw [hpc]; decide)
  have hf := inConnection_of_prod h hprod
  have hsum : p.sendThreadWindow.sp.inFlight + (inSeq p.sp.acks).1 = p.sp.inFlight :=
    (Nat.add_comm _ _).trans (inSeq_add_sum p.sp.acks)
  have hold := h.flight
  rw [if_pos hpc] at hold
  have hwin := hsteady.windowSize
  obtain ⟨hseg, hsegW⟩ := h.segmentSize hdone
  have hwindow : p.sendThreadWindow.sp.windowSize = p.sp.windowSize := rfl
  have hsegment : p.sendThreadWindow.sendThread.segmentSize = p.sendThread.segmentSize := by
    simp only [Endpoint.sendThreadWindow]
    split <;> rfl
  refine ⟨fun hf' => absurd hf hf', h.opened, h.pos, ?_, ?_, ?_, ?_, h.packs⟩
  · rw [hsegment]
    exact fun _ => ⟨hseg, hsegW⟩
  · intro _ hpc'
    obtain ⟨move, hmove, hne, hptr, hsize⟩ := ReuseAux.thread_sendThreadWindow hpc hpc'
    rw [hptr, hsize, hsegment, hwindow]
    unfold u16
    split <;> omega
  · split
    · rename_i hpc'
      have hzero : (inSeq p.sp.acks).1 = 0 := by
        by_contra hne
        simp only [Endpoint.sendThreadWindow, if_neg hne] at hpc'
        cases hpc'
      omega
    · rename_i hpc'
      obtain ⟨move, hmove, hne, hptr, -⟩ := ReuseAux.thread_sendThreadWindow hpc hpc'
      rw [hptr]
      unfold u16
      omega
  · intro _
    have hbuffer := h.buffer (by rw [hpc]; decide)
    simp only [Endpoint.sendThreadWindow]
    split <;> exact hbuffer

/-- A call of `send_point` that waits is in the connection. -/
theorem inConnection_of_waiting (h : Slides p) {i : Nat} {buf : List Byte} (hbuf : p.waiting[i]? = some buf) :
    p.sp.flagCon = .comConexao := by
  by_contra hf
  obtain ⟨hnil, -⟩ := h.waits hf
  rw [hnil] at hbuf
  cases hbuf

/-- `send_thread` has no buffer while `mutex_prod` is free. -/
theorem cons_of_free (hsteady : ReuseAux.Steady p) (hfree : p.sp.mutexProd = false) : p.sendThread.pc = .cons := by
  by_contra hpc
  rw [(hsteady.busy hpc).2.1] at hfree
  cases hfree

/-- A step keeps the accounting. -/
theorem slides_step (h : Slides p) (hsteady : ReuseAux.Steady p) (hact : p.act here act = some (p', out)) {s : Sender}
    (hs : s.point = p) (hok : FirstConnection s act) : Slides p' := by
  subst hs
  cases act_does hact with
  | sync dest destPoint windowSize rnd _ hf =>
    obtain ⟨hw, hw'⟩ := hok hf
    refine slides_open h hsteady (by rw [hf]; decide) (Or.inl rfl) ?_ (ReuseAux.inFlight_insertAck _ _)
      (stream_spawn_sync (Or.inl rfl)) rfl rfl rfl
    show 0 < u16 windowSize
    rw [u16_of_lt (by omega)]
    exact hw
  | close _ hf => exact absurd hf hok
  | send buffer hf =>
    exact ⟨fun hf' => absurd hf hf', h.opened, h.pos, h.segmentSize, h.next, h.flight, h.buffer, h.packs⟩
  | deposit i buf =>
    obtain ⟨buf', hbuf, hfree, heq⟩ := ReuseAux.act_sendPut hact
    have hf := inConnection_of_waiting h hbuf
    have hpc := cons_of_free hsteady hfree
    exact ⟨fun hf' => absurd hf hf', h.opened, h.pos, h.segmentSize, h.next, h.flight, fun hne => absurd hpc hne, h.packs⟩
  | takeBuffer hpc hcons => exact slides_takeBuffer h hsteady hpc hcons
  | segment hpc hsize => exact slides_segment h hsteady here hpc hsize
  | bufferSent hpc =>
    have hf := inConnection_of_prod h (hsteady.busy (by rw [hpc]; decide)).2.1
    have hne : s.point.sendThread.pc ≠ .window := by rw [hpc]; decide
    have hold := h.flight
    rw [if_neg hne] at hold
    exact ⟨fun hf' => absurd hf hf', h.opened, h.pos, h.segmentSize, fun hdone _ => h.next hdone hne, hold,
      fun hne' => absurd rfl hne', h.packs⟩
  | window hpc => exact slides_window h hsteady hpc
  | firstSend i t ht | acked i t ht =>
    exact h.congr rfl rfl rfl (stream_set ht rfl) rfl rfl rfl rfl
  | acceptSync pkt rnd hflags _ hf =>
    exact slides_open h hsteady (by rw [hf]; decide) (Or.inr rfl) (hok.1 hflags hf).1 (ReuseAux.inFlight_insertAck _ _)
      (stream_spawn_sync (Or.inr rfl)) rfl rfl rfl
  | acceptSyncAck pkt rnd _ _ hf =>
    exact slides_open h hsteady (by rw [hf]; decide) (Or.inr rfl) (h.pos (by rw [hf]; decide)) (ReuseAux.inFlight_setAck _ _)
      rfl rfl rfl rfl
  | ack pkt => exact h.congr rfl rfl (ReuseAux.inFlight_setAck _ _) rfl rfl rfl rfl rfl
  | finInConnection pkt rnd hflags _ hf => exact absurd hf (hok.2 hflags)
  | finWhileClosing pkt rnd _ _ hf => exact absurd hf h.opened
  | _ => exact ⟨h.waits, h.opened, h.pos, h.segmentSize, h.next, h.flight, h.buffer, h.packs⟩

/-! ## The buffers -/

/-- A call of `send_point` that gets `mutex_prod` apart, a step puts a piece of what was not sent into segments, or none. -/
theorem does_cut (h : Slides p) (hsteady : ReuseAux.Steady p) (hdoes : p.Does here act p' out) (hput : ∀ i, act ≠ .sendPut i)
    {s : Sender} (hs : s.point = p) (hok : FirstConnection s act) :
    ∃ new, p'.stream = p.stream ++ new ∧ p.unsent = packBytes new ++ p'.unsent ∧ (new ≠ [] → p.unsent ≠ []) := by
  subst hs
  have hnone : ∀ p' : Endpoint, p'.stream = s.point.stream → p'.unsent = s.point.unsent → ∃ new,
      p'.stream = s.point.stream ++ new ∧ s.point.unsent = packBytes new ++ p'.unsent ∧ (new ≠ [] → s.point.unsent ≠ []) :=
    fun p' hstream hunsent => ⟨[], by rw [hstream, List.append_nil], hunsent.symm, fun hne => absurd rfl hne⟩
  cases hdoes with
  | sync => exact hnone _ (stream_spawn_sync (Or.inl rfl)) rfl
  | acceptSync => exact hnone _ (stream_spawn_sync (Or.inr rfl)) rfl
  | close _ hf => exact absurd hf hok
  | finInConnection pkt rnd hflags _ hf => exact absurd hf (hok.2 hflags)
  | deposit i => exact absurd rfl (hput i)
  | takeBuffer hpc hcons =>
    refine hnone _ rfl ?_
    have hnew : s.point.takeBuffer.unsent = s.point.sp.sendBuff := rfl
    rw [hnew, Endpoint.unsent, if_pos hpc, if_neg (by rw [hcons]; decide)]
  | segment hpc hsize =>
    obtain ⟨hpos, -, -, hlength⟩ := size_spec h hsteady hpc hsize
    have hncons : s.point.sendThread.pc ≠ .cons := by rw [hpc]; decide
    have hnot : (s.point.sendSegment here).sendThread.pc ≠ .cons := by
      simp only [Endpoint.sendSegment]
      split
      · exact SendPc.noConfusion
      · exact hncons
    have hptr : (s.point.sendSegment here).sendThread.sendPtr = s.point.sendThread.sendPtr + s.point.sendThread.size := by
      simp only [Endpoint.sendSegment]
      split <;> rfl
    have hunsent : s.point.unsent = s.point.sp.sendBuff.drop s.point.sendThread.sendPtr := if_neg hncons
    have hunsent' : (s.point.sendSegment here).unsent =
        (s.point.sp.sendBuff.drop s.point.sendThread.sendPtr).drop s.point.sendThread.size := by
      rw [Endpoint.unsent, if_neg hnot, hptr, List.drop_drop]
      rfl
    refine ⟨[_], stream_spawn (Or.inl rfl), ?_, fun _ => ?_⟩
    · rw [hunsent, hunsent']
      simp [packBytes]
    · rw [hunsent]
      intro hnil
      rw [hnil, List.take_nil, List.length_nil] at hlength
      omega
  | bufferSent hpc hsize =>
    have hncons : s.point.sendThread.pc ≠ .cons := by rw [hpc]; decide
    have hlen := h.buffer hncons
    have hcons := (hsteady.busy hncons).2.2
    have hnew : s.point.bufferSent.unsent = [] := if_pos hcons
    have hold : s.point.unsent = [] := by
      rw [Endpoint.unsent, if_neg hncons]
      exact List.eq_nil_of_length_eq_zero (by omega)
    exact hnone _ rfl (hnew.trans hold.symm)
  | window hpc =>
    refine hnone _ rfl ?_
    have hncons : s.point.sendThread.pc ≠ .cons := by rw [hpc]; decide
    have hnot : s.point.sendThreadWindow.sendThread.pc ≠ .cons := by
      simp only [Endpoint.sendThreadWindow]
      split
      · exact hncons
      · exact SendPc.noConfusion
    have hptr : s.point.sendThreadWindow.sendThread.sendPtr = s.point.sendThread.sendPtr := by
      simp only [Endpoint.sendThreadWindow]
      split <;> rfl
    rw [Endpoint.unsent, if_neg hnot, hptr, Endpoint.unsent, if_neg hncons]
    rfl
  | firstSend i t ht | acked i t ht => exact hnone _ (stream_set ht rfl) rfl
  | _ => exact hnone _ rfl rfl

/-- A step keeps the partition of the buffers. -/
theorem partitions_step {s s' : Sender} (h : s.Partitions) (hslides : Slides s.point) (hsteady : ReuseAux.Steady s.point)
    (hact : s.point.act here act = some (p', out)) (hs' : s' = { point := p', buffers := s.buffers ++ s.point.handsOver act })
    (hok : FirstConnection s act) : s'.Partitions := by
  subst hs'
  obtain ⟨cuts, hstream, hcuts⟩ := h
  by_cases hput : ∃ i, act = .sendPut i
  · obtain ⟨i, rfl⟩ := hput
    obtain ⟨buf, hbuf, hfree, rfl⟩ := ReuseAux.act_sendPut hact
    have hpc := cons_of_free hsteady hfree
    have hold : s.point.unsent = [] := by rw [Endpoint.unsent, if_pos hpc, if_pos (hsteady.handed hfree)]
    have hnew : (s.point.deposit i buf).unsent = buf := if_pos hpc
    have hover : s.point.handsOver (.sendPut i) = [buf] := congrArg Option.toList hbuf
    refine ⟨cuts ++ [[]], ?_, Or.inr ⟨cuts, [], rfl, ?_⟩⟩
    · rw [List.flatten_concat, List.append_nil]
      exact hstream
    · show s.buffers ++ s.point.handsOver (.sendPut i) = _
      rw [hover, hnew]
      rcases hcuts with ⟨hnil, rfl, -⟩ | ⟨cs, c, rfl, hbuffers⟩
      · rw [hnil]
        rfl
      · rw [hbuffers, hold, List.append_nil, List.map_append]
        rfl
  · have hput' : ∀ i, act ≠ .sendPut i := fun i heq => hput ⟨i, heq⟩
    obtain ⟨new, hnew, hunsent, hempty⟩ := does_cut hslides hsteady (act_does hact) hput' rfl hok
    have hover : s.point.handsOver act = [] := by
      unfold Endpoint.handsOver
      split
      · exact absurd rfl (hput' _)
      · rfl
    rcases hcuts with ⟨hnil, rfl, hnone⟩ | ⟨cs, c, rfl, hbuffers⟩
    · obtain rfl : new = [] := by
        by_contra hne
        exact hempty hne hnone
      refine ⟨[], ?_, Or.inl ⟨?_, rfl, hunsent.symm.trans hnone⟩⟩
      · rw [hnew, List.append_nil]
        exact hstream
      · show s.buffers ++ s.point.handsOver act = []
        rw [hnil, hover]
        rfl
    · refine ⟨cs ++ [c ++ new], ?_, Or.inr ⟨cs, c ++ new, rfl, ?_⟩⟩
      · rw [hnew, hstream, List.flatten_concat, List.flatten_concat, List.append_assoc]
      · show s.buffers ++ s.point.handsOver act = _
        rw [hover, List.append_nil, hbuffers, hunsent, packBytes_append, List.append_assoc]

/-! ## The entries -/

/-- `in_seq` takes entries that are set off the front of the list. -/
theorem inSeq_split (l : List AckLst) : ∃ removed, l = removed ++ (inSeq l).2 ∧ ∀ a ∈ removed, a.flag = true := by
  induction l with
  | nil => exact ⟨[], rfl, by simp⟩
  | cons a l ih =>
    unfold inSeq
    split
    · rename_i hflag
      obtain ⟨removed, hsplit, hset⟩ := ih
      refine ⟨a :: removed, congrArg (a :: ·) hsplit, ?_⟩
      intro b hb
      rcases List.mem_cons.1 hb with rfl | hb
      · exact hflag
      · exact hset b hb
    · exact ⟨[], rfl, by simp⟩

/-- Entries go off the list only by `in_seq`. -/
theorem does_removes (hdoes : p.Does here act p' out) : ∃ removed rest, p.sp.acks = removed ++ rest ∧
    (∀ a ∈ removed, a.flag = true) ∧ rest.map AckLst.entry <+: p'.sp.acks.map AckLst.entry ∧
    (removed ≠ [] → act = .sendThread ∧ p'.sp.acks = (inSeq p.sp.acks).2) := by
  have hkeeps : ∀ p' : Endpoint, p.sp.acks.map AckLst.entry <+: p'.sp.acks.map AckLst.entry → ∃ removed rest,
      p.sp.acks = removed ++ rest ∧ (∀ a ∈ removed, a.flag = true) ∧
      rest.map AckLst.entry <+: p'.sp.acks.map AckLst.entry ∧
      (removed ≠ [] → act = .sendThread ∧ p'.sp.acks = (inSeq p.sp.acks).2) :=
    fun p' hprefix => ⟨[], p.sp.acks, rfl, by simp, hprefix, fun hne => absurd rfl hne⟩
  cases hdoes with
  | window =>
    obtain ⟨removed, hsplit, hset⟩ := inSeq_split p.sp.acks
    exact ⟨removed, (inSeq p.sp.acks).2, hsplit, hset, List.prefix_refl _, fun _ => ⟨rfl, rfl⟩⟩
  | sync | acceptSync | close | finInConnection | segment => exact hkeeps _ ((List.prefix_append _ _).map _)
  | ack pkt | acceptSyncAck pkt =>
    refine hkeeps _ ?_
    have hsame := map_setAck (f := AckLst.entry) (fun _ => rfl) p.sp.acks pkt.segment.ackNum
    exact ⟨[], (List.append_nil _).trans hsame.symm⟩
  | _ => exact hkeeps _ (List.prefix_refl _)

/-! ## Runs -/

/-- What holds in every state of a run. -/
structure Inv (s : Sender) : Prop where
  steady : ReuseAux.Steady s.point
  slides : Slides s.point
  partitions : s.Partitions

theorem inv_start : Inv Sender.start where
  steady := ReuseAux.steady_alloc
  slides := slides_alloc
  partitions := ⟨[], rfl, Or.inl ⟨rfl, rfl, rfl⟩⟩

theorem exists_act {s s' : Sender} (h : s.step here act = some s') : ∃ p out, s.point.act here act = some (p, out) ∧
    s' = { point := p, buffers := s.buffers ++ s.point.handsOver act } := by
  simp only [Sender.step, Endpoint.step, Option.map_map, Option.map_eq_some_iff] at h
  obtain ⟨⟨p, out⟩, hact, rfl⟩ := h
  exact ⟨p, out, hact, rfl⟩

theorem inv_step {s s' : Sender} (h : Inv s) (hok : FirstConnection s act) (hs : s.step here act = some s') : Inv s' := by
  obtain ⟨p, out, hact, hs'⟩ := exists_act hs
  have hpoint : s'.point = p := by rw [hs']
  refine ⟨?_, ?_, partitions_step h.partitions h.slides h.steady hact hs' hok⟩
  · rw [hpoint]
    refine ReuseAux.steady_step h.steady (act_does hact) ?_
    rintro pkt rnd rfl hflags hf
    exact Nat.lt_succ_of_le (hok.1 hflags hf).2
  · rw [hpoint]
    exact slides_step h.slides h.steady hact rfl hok

/-- The bounds of the window follow. -/
theorem Inv.slidingWindow {s : Sender} (h : Inv s) : s.SlidingWindow where
  partitions := h.partitions
  sizes := h.slides.packs
  inFlight := by
    rw [h.slides.flight]
    split
    · exact le_refl _
    · rename_i hpc
      cases hdone : s.point.sendThread.done with
      | false =>
        rw [h.steady.undone hdone]
        exact Nat.zero_le _
      | true =>
        have := (h.slides.next hdone hpc).2.2
        omega
  windowPtr := by
    intro hpc
    rw [h.slides.flight, if_neg (by rw [hpc]; decide)]

end SlidingWindowAux

/-- On a first connection with a window of 1 to 65535 bytes, up to any close, whatever is handed over and whatever arrives: the
segments partition the buffers and fit in the window, what is in flight never exceeds the window and is `window_ptr` when a segment is
built, and `in_seq` takes entries only when they and all before them are set. -/
theorem sliding_window {here : Addr} {s : Sender} (h : Reach (Sender.step here) FirstConnection Sender.start s) :
    s.SlidingWindow ∧ ∀ act s', s.step here act = some s' → s.RemovesInOrder act s' := by
  have hinv : SlidingWindowAux.Inv s :=
    h.invariant SlidingWindowAux.inv_start fun _ _ _ hi hok hs => SlidingWindowAux.inv_step hi hok hs
  refine ⟨hinv.slidingWindow, ?_⟩
  intro act s' hs
  obtain ⟨p, out, hact, rfl⟩ := SlidingWindowAux.exists_act hs
  exact SlidingWindowAux.does_removes (act_does hact)

namespace SlidingWindowAux

/-- A connection with a window of 5: a buffer that ends inside the window and a second one that fills it, an ACK nobody waits for and
one that comes twice, and the window has moved by three bytes. -/
def windowRun : List PointAction :=
  [.connectPoint 2 0 5 10, .segSendThread 0, ReuseAux.arrives 2 .syncAck 105 16 [115], .sendPoint [1, 2, 3], .sendPoint [4, 5, 6, 7],
    .sendPut 0, .sendThread, .sendThread, .sendThread, .sendPut 0, .sendThread, .sendThread, ReuseAux.arrives 2 .ack 0 77 [],
    .sendThread, ReuseAux.arrives 2 .ack 0 19 [], ReuseAux.arrives 2 .ack 0 19 [], .sendThread]

end SlidingWindowAux

open SlidingWindowAux in
/-- A run in which the window fills up and moves: of its two segments the second is in flight, and two of the bytes handed over are
still to be cut. -/
theorem sliding_window_moves :
    ∃ s, exec (Sender.step ⟨1, 0⟩) Sender.start windowRun = some s ∧ s.buffers = [[1, 2, 3], [4, 5, 6, 7]] ∧
      s.point.stream.map (·.segment.data) = [[1, 2, 3], [4, 5]] ∧ s.point.unsent = [6, 7] ∧
      s.point.sp.acks = [{ seqNum := 21, flag := false, size := 2 }] ∧ s.SlidingWindow ∧
      ∀ act s', s.step ⟨1, 0⟩ act = some s' → s.RemovesInOrder act s' := by
  have hok : Along (Sender.step ⟨1, 0⟩) FirstConnection Sender.start windowRun := by decide +kernel
  obtain ⟨s, hs, hbuffers, hstream, hunsent, hacks⟩ : ∃ s ∈ exec (Sender.step ⟨1, 0⟩) Sender.start windowRun,
      s.buffers = [[1, 2, 3], [4, 5, 6, 7]] ∧ s.point.stream.map (·.segment.data) = [[1, 2, 3], [4, 5]] ∧
        s.point.unsent = [6, 7] ∧ s.point.sp.acks = [{ seqNum := 21, flag := false, size := 2 }] := by
    decide +kernel
  obtain ⟨hwindow, hremoves⟩ := sliding_window (reach_of_exec hok hs)
  exact ⟨s, hs, hbuffers, hstream, hunsent, hacks, hwindow, hremoves⟩

end NetworkLayers
