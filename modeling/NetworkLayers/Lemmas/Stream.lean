import NetworkLayers.Lemmas.Assembly
import Mathlib.Tactic.MkIffOfInductiveProp

/-!
# A connection and its stream

A run from an established connection, up to the point where the receiver leaves it: what the sender builds is a stream of what was
accepted, and the data and FINs in the network are of the two streams, each for the other point.
-/

namespace NetworkLayers

open SeqSpace

/-! ## An established connection -/

/-- The two points have just connected with each other, and data is to flow from `x`: their numbers match, they have one window,
the receiver's bounds are as `sync_thread` or `sync_ack_thread` leaves them, neither has sent anything but SYNs and SYN+ACKs,
and `send_thread` of the sender has not had a buffer yet. The entry for the handshake's own ACK may still be there. -/
@[mk_iff]
structure Session.Established (e : Places) (x : Side) (s : Session) : Prop where
  flagCon : (s.point x).sp.flagCon = .comConexao ∧ (s.point x.other).sp.flagCon = .comConexao
  faces : s.Faces e x ∧ s.Faces e x.other
  seqNum : (s.point x).sp.seqNumS = (s.point x.other).sp.seqNumR ∧ (s.point x).sp.seqNumS < maxSeqNum
  window : (s.point x).sp.windowSize = (s.point x.other).sp.windowSize ∧ 0 < (s.point x).sp.windowSize ∧
    (s.point x).sp.windowSize < 65536
  prevSeqNumR : (s.point x.other).sp.prevSeqNumR =
      u32 (((s.point x.other).sp.seqNumR + (maxSeqNum - 1)) % maxSeqNum + (maxSeqNum - (s.point x.other).sp.windowSize) % maxSeqNum) ∨
    (s.point x.other).sp.prevSeqNumR =
      (((s.point x.other).sp.seqNumR + (maxSeqNum - 1)) % maxSeqNum + (maxSeqNum - (s.point x.other).sp.windowSize)) % maxSeqNum
  endSeqNumR : (s.point x.other).sp.endSeqNumR =
    nextSeqNum (((s.point x.other).sp.seqNumR + (maxSeqNum - 1)) % maxSeqNum) (s.point x.other).sp.windowSize
  acks : (s.point x).sp.acks = [] ∨ ∃ flag, (s.point x).sp.acks = [{ seqNum := (s.point x).sp.seqNumS, flag := flag, size := 0 }]
  segs : (s.point x.other).sp.segs = [] ∧ (s.point x.other).sp.segsAux = []
  sendThread : (s.point x).sendThread.pc = .cons ∧ (s.point x).sendThread.done = false ∧ (s.point x).sendThread.windowPtr = 0
  mutexes : (s.point x).sp.mutexProd = false ∧ (s.point x).sp.mutexCons = true
  packs : ∀ k ∈ (s.point x).packs ++ (s.point x.other).packs, k.segment.flags = .sync ∨ k.segment.flags = .syncAck
  history : (s.point x).history.accepted = [] ∧ (s.point x).history.closing = none ∧ (s.point x.other).history.returned = []
  packets : ∀ pkt ∈ s.packets, pkt.segment.flags ≠ .dados ∧ pkt.segment.flags ≠ .fin
  ackPackets : ∀ pkt ∈ s.packets, pkt.segment.flags = .ack → pkt.dest = (e.addr x).node → pkt.segment.dest = (e.addr x).point →
    pkt.segment.ackNum = (s.point x).sp.seqNumS ∧ pkt.answers ≤ maxSeqNum

instance (e : Places) (x : Side) (s : Session) : Decidable (s.Established e x) :=
  decidable_of_iff' _ (Session.established_iff e x s)

/-- There is no data yet. -/
theorem Session.Established.stream {e : Places} {x : Side} {s : Session} (h : s.Established e x) :
    (s.point x).stream = [] ∧ (s.point x.other).stream = [] := by
  constructor
  · refine List.filter_eq_nil_iff.2 ?_
    intro k hk
    rcases h.packs k (List.mem_append_left _ hk) with hflags | hflags <;> simp [hflags]
  · refine List.filter_eq_nil_iff.2 ?_
    intro k hk
    rcases h.packs k (List.mem_append_right _ hk) with hflags | hflags <;> simp [hflags]

/-! ## One step of a point in a connection -/

/-- A segment that is data or a FIN joins the stream. -/
theorem stream_spawn {p : Endpoint} {segment : Segment} {size : Nat} (h : segment.flags = .dados ∨ segment.flags = .fin) :
    (p.spawn segment size).stream = p.stream ++ [{ segment := segment, size := size, epoch := p.history.epoch }] := by
  simp [Endpoint.stream, Endpoint.packs, Endpoint.spawn, List.filter_append, h]

theorem stream_set {p : Endpoint} {i : Nat} {t t' : SegSend} (ht : p.segSends[i]? = some t) (hpack : t'.pack = t.pack) :
    ({ p with segSends := p.segSends.set i t' } : Endpoint).stream = p.stream :=
  congrArg (List.filter _) (packs_set ht hpack)

/-- In a connection a step keeps the destination and the window, and adds to the stream; a FIN it adds ends flag_con 2, and
nothing but a call of `close_conn` or a FIN that arrives changes flag_con. -/
theorem does_inConnection {here : Addr} {p p' : Endpoint} {act : PointAction} {out : List Packet} (h : p.Does here act p' out)
    (hf : p.sp.flagCon = .comConexao ∨ p.sp.flagCon = .encerrando) :
    (p'.sp.dest = p.sp.dest ∧ p'.sp.destSp = p.sp.destSp ∧ p'.sp.windowSize = p.sp.windowSize) ∧
      (∃ new, p'.stream = p.stream ++ new ∧
        ∀ k ∈ new, k.segment.dest = p.sp.destSp ∧ (k.segment.flags = .fin → p'.sp.flagCon ≠ .comConexao)) ∧
      (p'.sp.flagCon = p.sp.flagCon ∨ (act = .closeConn ∧ p'.sp.flagCon = .encerrando) ∨
        ∃ pkt rnd, act = .recvThread pkt rnd ∧ pkt.segment.flags = .fin) := by
  cases h with
  | sync _ _ _ _ _ hf' => exact absurd hf' (FlagCon.ne_of_inConnection hf).1
  | acceptSync _ _ _ _ hf' => exact absurd hf' (FlagCon.ne_of_inConnection hf).1
  | acceptSyncAck _ _ _ _ hf' => exact absurd hf' (FlagCon.ne_of_inConnection hf).2
  | close =>
    refine ⟨⟨rfl, rfl, rfl⟩, ⟨_, stream_spawn (Or.inr rfl), ?_⟩, Or.inr (Or.inl ⟨rfl, rfl⟩)⟩
    intro k hk
    obtain rfl := List.mem_singleton.1 hk
    exact ⟨rfl, fun _ => by simp [Endpoint.sendFin, Endpoint.spawn]⟩
  | segment =>
    refine ⟨⟨rfl, rfl, rfl⟩, ⟨_, stream_spawn (Or.inl rfl), ?_⟩, Or.inl rfl⟩
    intro k hk
    obtain rfl := List.mem_singleton.1 hk
    exact ⟨rfl, fun h => by cases h⟩
  | finInConnection pkt rnd hflags =>
    refine ⟨⟨rfl, rfl, rfl⟩, ⟨_, stream_spawn (Or.inr rfl), ?_⟩, Or.inr (Or.inr ⟨pkt, rnd, rfl, hflags⟩)⟩
    intro k hk
    obtain rfl := List.mem_singleton.1 hk
    exact ⟨rfl, fun _ => by simp [Endpoint.sendFin, Endpoint.spawn]⟩
  | finWhileClosing pkt rnd hflags =>
    exact ⟨⟨rfl, rfl, rfl⟩, ⟨[], (List.append_nil _).symm, by simp⟩, Or.inr (Or.inr ⟨pkt, rnd, rfl, hflags⟩)⟩
  | firstSend i t ht | acked i t ht =>
    exact ⟨⟨rfl, rfl, rfl⟩, ⟨[], by rw [List.append_nil]; exact stream_set ht rfl, by simp⟩, Or.inl rfl⟩
  | _ => exact ⟨⟨rfl, rfl, rfl⟩, ⟨[], (List.append_nil _).symm, by simp⟩, Or.inl rfl⟩

/-! ## The sender -/

/-- What has been accepted and not yet put into segments: the buffer that waits for `send_thread`, or the rest of the one it
cuts. -/
def Endpoint.unsent (p : Endpoint) : List Byte :=
  if p.sendThread.pc = .cons then (if p.sp.mutexCons then [] else p.sp.sendBuff) else p.sp.sendBuff.drop p.sendThread.sendPtr

/-- The data packs of a stream. -/
def dataPacks (ks : List SendSegment) : List SendSegment := ks.filter fun k => k.segment.flags = .dados

theorem dataPacks_append (ks ks' : List SendSegment) : dataPacks (ks ++ ks') = dataPacks ks ++ dataPacks ks' :=
  List.filter_append ..

theorem dataPacks_of_dados {ks : List SendSegment} (h : ∀ k ∈ ks, k.segment.flags = .dados) : dataPacks ks = ks :=
  List.filter_eq_self.2 fun k hk => decide_eq_true (h k hk)

/-- The sender's stream is numbered from `q`, and with what has not been sent yet it is what was accepted; `send_thread` never
builds an empty segment. -/
structure Sends (q : Nat) (p : Endpoint) : Prop where
  numbered : Numbered q p.stream
  seqNumS : p.sp.seqNumS = seqNumAfter q p.stream
  accepted : p.history.accepted = packBytes (dataPacks p.stream) ++ p.unsent
  sizes : (p.sendThread.done = false ∧ p.sendThread.pc = .cons) ∨
    (0 < p.sendThread.segmentSize ∧ p.sendThread.segmentSize < 65536 ∧
      (p.sendThread.pc ≠ .window → 0 < p.sendThread.segmentSendSize))
  window : 0 < p.sp.windowSize ∧ p.sp.windowSize < 65536
  idle : p.sp.mutexProd = false → p.sendThread.pc = .cons ∧ p.sp.mutexCons = true
  busy : p.sendThread.pc ≠ .cons →
    p.sp.mutexProd = true ∧ p.sp.mutexCons = true ∧ p.sendThread.sendSize = (p.sp.sendBuff.drop p.sendThread.sendPtr).length

namespace StreamAux

variable {q : Nat} {p : Endpoint}

/-- The size of a segment that `send_thread` is about to build. -/
theorem size_spec (h : Sends q p) (hpc : p.sendThread.pc = .segment) (hsize : p.sendThread.sendSize ≠ 0) :
    0 < p.sendThread.size ∧ p.sendThread.size ≤ p.sendThread.sendSize := by
  have hpos : 0 < p.sendThread.segmentSendSize := by
    rcases h.sizes with ⟨-, hcons⟩ | ⟨-, -, hpos⟩
    · rw [hpc] at hcons
      cases hcons
    · exact hpos (by rw [hpc]; decide)
  unfold SendThread.size
  split <;> omega

/-- Inside the window the next size is not 0. -/
theorem nextSize_pos {t : SendThread} {windowSize windowPtr : Nat} (hseg : 0 < t.segmentSize) (hptr : windowPtr < windowSize)
    (hw : windowSize < 65536) : 0 < t.nextSize windowSize windowPtr := by
  unfold SendThread.nextSize u16
  split <;> omega

theorem sends_set (h : Sends q p) {i : Nat} {t t' : SegSend} (ht : p.segSends[i]? = some t) (hpack : t'.pack = t.pack) :
    Sends q { p with segSends := p.segSends.set i t' } := by
  have hstream := stream_set ht hpack
  refine ⟨?_, ?_, ?_, h.sizes, h.window, h.idle, h.busy⟩
  · rw [hstream]
    exact h.numbered
  · rw [hstream]
    exact h.seqNumS
  · rw [hstream]
    exact h.accepted

theorem sends_close (h : Sends q p) (here : Addr) (closing : Option (List Byte)) (flagCon : FlagCon) :
    Sends q ({ p with history := { p.history with closing := closing } }.sendFin here flagCon) := by
  have hstream : ({ p with history := { p.history with closing := closing } }.sendFin here flagCon).stream = p.stream ++ [_] :=
    stream_spawn (Or.inr rfl)
  refine ⟨?_, ?_, ?_, h.sizes, h.window, h.idle, h.busy⟩
  · rw [hstream]
    exact h.numbered.concat h.seqNumS Nat.one_pos rfl
  · rw [hstream, seqNumAfter_concat, ← h.seqNumS]
    rfl
  · rw [hstream, dataPacks_append]
    have hfin : ∀ k : SendSegment, k.segment.flags = .fin → dataPacks [k] = [] := by
      intro k hk
      simp [dataPacks, hk]
    rw [hfin _ rfl, List.append_nil]
    exact h.accepted

theorem sends_segment (h : Sends q p) (here : Addr) (hpc : p.sendThread.pc = .segment) (hsize : p.sendThread.sendSize ≠ 0) :
    Sends q (p.sendSegment here) := by
  obtain ⟨hpos, hle⟩ := size_spec h hpc hsize
  have hncons : p.sendThread.pc ≠ .cons := by rw [hpc]; decide
  obtain ⟨hprod, hcons, hlen⟩ := h.busy hncons
  obtain ⟨hseg, hseg', -⟩ : 0 < p.sendThread.segmentSize ∧ p.sendThread.segmentSize < 65536 ∧
      (p.sendThread.pc ≠ .window → 0 < p.sendThread.segmentSendSize) := by
    rcases h.sizes with ⟨-, h1⟩ | h1
    · exact absurd h1 hncons
    · exact h1
  have hstream : (p.sendSegment here).stream = p.stream ++ [_] := stream_spawn (Or.inl rfl)
  have hdata : ((p.sp.sendBuff.drop p.sendThread.sendPtr).take p.sendThread.size).length = p.sendThread.size := by
    rw [List.length_take]
    omega
  have hptr : (p.sendSegment here).sendThread.sendPtr = p.sendThread.sendPtr + p.sendThread.size := by
    simp only [Endpoint.sendSegment]
    split <;> rfl
  have hnot : (p.sendSegment here).sendThread.pc ≠ .cons := by
    simp only [Endpoint.sendSegment]
    split
    · simp
    · exact hncons
  refine ⟨?_, ?_, ?_, Or.inr ⟨?_, ?_, ?_⟩, h.window, ?_, fun _ => ⟨hprod, hcons, ?_⟩⟩
  · rw [hstream]
    exact h.numbered.concat h.seqNumS hpos hdata
  · rw [hstream, seqNumAfter_concat, ← h.seqNumS]
    rfl
  · rw [hstream, dataPacks_append]
    have hdados : ∀ k : SendSegment, k.segment.flags = .dados → dataPacks [k] = [k] := by
      intro k hk
      simp [dataPacks, hk]
    have hunsent : p.unsent = p.sp.sendBuff.drop p.sendThread.sendPtr := if_neg hncons
    have hunsent' : (p.sendSegment here).unsent = p.sp.sendBuff.drop (p.sendThread.sendPtr + p.sendThread.size) := by
      rw [Endpoint.unsent, if_neg hnot, hptr]
      rfl
    have hsplit := List.take_append_drop p.sendThread.size (p.sp.sendBuff.drop p.sendThread.sendPtr)
    rw [List.drop_drop] at hsplit
    rw [hdados _ rfl, packBytes_append, hunsent', List.append_assoc]
    refine h.accepted.trans ?_
    rw [hunsent, ← hsplit]
    simp [packBytes]
  · simp only [Endpoint.sendSegment]
    split <;> exact hseg
  · simp only [Endpoint.sendSegment]
    split <;> exact hseg'
  · simp only [Endpoint.sendSegment]
    split
    · exact fun hw => absurd rfl hw
    · exact fun _ => nextSize_pos hseg (Nat.mod_lt _ h.window.1) h.window.2
  · intro hfree
    have hfalse : p.sp.mutexProd = false := hfree
    rw [hprod] at hfalse
    cases hfalse
  · have hsend : (p.sendSegment here).sendThread.sendSize = p.sendThread.sendSize - p.sendThread.size := by
      simp only [Endpoint.sendSegment]
      split <;> rfl
    have hbuff : (p.sendSegment here).sp.sendBuff = p.sp.sendBuff := rfl
    rw [hsend, hptr, hbuff, List.length_drop, hlen, List.length_drop]
    omega

theorem sends_window (h : Sends q p) (hpc : p.sendThread.pc = .window) : Sends q p.sendThreadWindow := by
  have hncons : p.sendThread.pc ≠ .cons := by rw [hpc]; decide
  obtain ⟨hseg, hseg', hpos⟩ : 0 < p.sendThread.segmentSize ∧ p.sendThread.segmentSize < 65536 ∧
      (p.sendThread.pc ≠ .window → 0 < p.sendThread.segmentSendSize) := by
    rcases h.sizes with ⟨-, h1⟩ | h1
    · exact absurd h1 hncons
    · exact h1
  by_cases hmove : (inSeq p.sp.acks).1 = 0
  · have hthread : p.sendThreadWindow.sendThread = p.sendThread := by
      simp only [Endpoint.sendThreadWindow, hmove, if_true]
    refine ⟨h.numbered, h.seqNumS, ?_, ?_, h.window, ?_, ?_⟩
    · rw [Endpoint.unsent, hthread]
      exact h.accepted
    · rw [hthread]
      exact h.sizes
    · rw [hthread]
      exact h.idle
    · rw [hthread]
      exact h.busy
  · have hthread : p.sendThreadWindow.sendThread.pc = .segment := by
      simp only [Endpoint.sendThreadWindow, hmove, if_false]
    have hptr : p.sendThreadWindow.sendThread.sendPtr = p.sendThread.sendPtr := by
      simp only [Endpoint.sendThreadWindow, hmove, if_false]
    refine ⟨h.numbered, h.seqNumS, ?_, Or.inr ?_, h.window, ?_, ?_⟩
    · rw [Endpoint.unsent, if_neg (by rw [hthread]; decide), hptr]
      refine h.accepted.trans ?_
      rw [Endpoint.unsent, if_neg hncons]
      rfl
    · simp only [Endpoint.sendThreadWindow, hmove, if_false]
      refine ⟨hseg, hseg', ?_⟩
      intro _
      unfold u16
      split <;> omega
    · intro hfree
      exact absurd (h.idle hfree).1 hncons
    · intro _
      obtain ⟨hprod, hcons, hlen⟩ := h.busy hncons
      refine ⟨hprod, hcons, ?_⟩
      simp only [Endpoint.sendThreadWindow, hmove, if_false]
      exact hlen

end StreamAux

/-- In a connection to which no FIN comes, a step keeps what is said of the sender. -/
theorem Sends.step {q : Nat} {here : Addr} {p p' : Endpoint} {act : PointAction} {out : List Packet} (h : Sends q p)
    (hdoes : p.Does here act p' out) (hf : p.sp.flagCon = .comConexao ∨ p.sp.flagCon = .encerrando)
    (hfin : ∀ pkt rnd, act = .recvThread pkt rnd → pkt.segment.flags ≠ .fin) : Sends q p' := by
  cases hdoes with
  | sync _ _ _ _ _ hf' => exact absurd hf' (FlagCon.ne_of_inConnection hf).1
  | acceptSync _ _ _ _ hf' => exact absurd hf' (FlagCon.ne_of_inConnection hf).1
  | acceptSyncAck _ _ _ _ hf' => exact absurd hf' (FlagCon.ne_of_inConnection hf).2
  | finInConnection pkt rnd hflags => exact absurd hflags (hfin pkt rnd rfl)
  | finWhileClosing pkt rnd hflags => exact absurd hflags (hfin pkt rnd rfl)
  | close => exact StreamAux.sends_close h here _ _
  | segment hpc hsize => exact StreamAux.sends_segment h here hpc hsize
  | window hpc => exact StreamAux.sends_window h hpc
  | deposit i buf hfree =>
    obtain ⟨hpc, hcons⟩ := h.idle hfree
    refine ⟨h.numbered, h.seqNumS, ?_, h.sizes, h.window, fun hlocked => (by cases hlocked), fun hncons => absurd hpc hncons⟩
    have hold : p.unsent = [] := by rw [Endpoint.unsent, if_pos hpc, if_pos hcons]
    have hnew : (p.deposit i buf).unsent = buf := if_pos hpc
    have haccepted : p.history.accepted = packBytes (dataPacks p.stream) := by rw [h.accepted, hold, List.append_nil]
    rw [hnew]
    exact congrArg (· ++ buf) haccepted
  | takeBuffer hpc hcons =>
    have hlocked : p.sp.mutexProd = true := by
      by_contra hfree
      rw [(h.idle (by simpa using hfree)).2] at hcons
      cases hcons
    refine ⟨h.numbered, h.seqNumS, ?_, Or.inr ?_, h.window, ?_, fun _ => ⟨hlocked, rfl, rfl⟩⟩
    · refine h.accepted.trans ?_
      rw [Endpoint.unsent, if_pos hpc, if_neg (by rw [hcons]; decide)]
      rfl
    · have hfirst : 0 < (if p.sp.windowSize < maxSegmentSize then p.sp.windowSize else maxSegmentSize) ∧
          (if p.sp.windowSize < maxSegmentSize then p.sp.windowSize else maxSegmentSize) < 65536 := by
        have := h.window
        unfold maxSegmentSize
        split <;> omega
      simp only [Endpoint.takeBuffer]
      generalize (if p.sp.windowSize < maxSegmentSize then p.sp.windowSize else maxSegmentSize) = first at hfirst ⊢
      rcases h.sizes with ⟨hdone, -⟩ | ⟨h1, h2, h3⟩
      · rw [if_neg (by rw [hdone]; decide), if_neg (by rw [hdone]; decide)]
        exact ⟨hfirst.1, hfirst.2, fun _ => hfirst.1⟩
      · split
        · exact ⟨h1, h2, fun _ => h3 (by rw [hpc]; decide)⟩
        · exact ⟨hfirst.1, hfirst.2, fun _ => hfirst.1⟩
    · intro hfree
      have hfree' : p.sp.mutexProd = false := hfree
      rw [hlocked] at hfree'
      cases hfree'
  | bufferSent hpc hsize =>
    have hncons : p.sendThread.pc ≠ .cons := by rw [hpc]; decide
    obtain ⟨-, hcons, hlen⟩ := h.busy hncons
    have hold : p.unsent = [] := by
      rw [Endpoint.unsent, if_neg hncons]
      exact List.eq_nil_of_length_eq_zero (by omega)
    have hnew : p.bufferSent.unsent = [] := if_pos hcons
    refine ⟨h.numbered, h.seqNumS, ?_, ?_, h.window, fun _ => ⟨rfl, hcons⟩, fun hne => absurd rfl hne⟩
    · rw [hnew, ← hold]
      exact h.accepted
    · rcases h.sizes with ⟨-, h1⟩ | ⟨h1, h2, h3⟩
      · exact absurd h1 hncons
      · exact Or.inr ⟨h1, h2, fun _ => h3 (by rw [hpc]; decide)⟩
  | firstSend i t ht | acked i t ht =>
    exact StreamAux.sends_set h ht rfl
  | _ => exact ⟨h.numbered, h.seqNumS, h.accepted, h.sizes, h.window, h.idle, h.busy⟩

/-- The sender of an established connection. -/
theorem Session.Established.sends {e : Places} {x : Side} {s : Session} (h : s.Established e x) :
    Sends (s.point x).sp.seqNumS (s.point x) := by
  obtain ⟨hpc, hdone, -⟩ := h.sendThread
  refine ⟨?_, ?_, ?_, Or.inl ⟨hdone, hpc⟩, h.window.2, fun _ => ⟨hpc, h.mutexes.2⟩, fun hncons => absurd hpc hncons⟩
  · rw [h.stream.1]
    exact ⟨fun l k r hsplit => by simp at hsplit, by simp, by simp⟩
  · rw [h.stream.1]
    rfl
  · rw [h.stream.1, h.history.1, Endpoint.unsent, if_pos hpc, if_pos h.mutexes.2]
    rfl

/-! ## The two points -/

/-- The receiver is in the connection and the sender is in it or closing it, each the other's destination; data and FINs are of
the stream of the point they do not go to, and the receiver has sent no FIN. -/
structure Streaming (e : Places) (x : Side) (s : Session) : Prop where
  sender : (s.point x).sp.flagCon = .comConexao ∨ (s.point x).sp.flagCon = .encerrando
  receiver : (s.point x.other).sp.flagCon = .comConexao
  faces : ∀ z, s.Faces e z
  addressed : ∀ z, ∀ k ∈ (s.point z).stream, k.segment.dest = (e.addr z.other).point
  packets : ∀ pkt ∈ s.packets, pkt.segment.flags = .dados ∨ pkt.segment.flags = .fin →
    ∃ z, pkt.dest = (e.addr z.other).node ∧
      ∃ k ∈ (s.point z).stream, pkt.segment = k.segment ∧ pkt.size = k.size + transportHeaderSize
  noFin : ∀ k ∈ (s.point x.other).stream, k.segment.flags ≠ .fin
  noAck : ∀ z, ∀ k ∈ (s.point z).packs, k.segment.flags ≠ .ack

section Streaming

variable {e : Places} {x : Side} {s s' : Session}

theorem Session.Established.streaming (h : s.Established e x) : Streaming e x s where
  sender := Or.inl h.flagCon.1
  receiver := h.flagCon.2
  faces := by
    intro z
    rcases Side.eq_or_eq_other x z with rfl | rfl
    · exact h.faces.1
    · exact h.faces.2
  addressed := by
    intro z k hk
    rcases Side.eq_or_eq_other x z with rfl | rfl
    · rw [h.stream.1] at hk
      cases hk
    · rw [h.stream.2] at hk
      cases hk
  packets := by
    intro pkt hpkt hflags
    obtain ⟨h1, h2⟩ := h.packets pkt hpkt
    rcases hflags with hflags | hflags
    · exact absurd hflags h1
    · exact absurd hflags h2
  noFin := by
    intro k hk
    rw [h.stream.2] at hk
    cases hk
  noAck := by
    intro z k hk hack
    have hmem : k ∈ (s.point x).packs ++ (s.point x.other).packs := by
      rcases Side.eq_or_eq_other x z with rfl | rfl
      · exact List.mem_append_left _ hk
      · exact List.mem_append_right _ hk
    rcases h.packs k hmem with hflags | hflags <;> rw [hack] at hflags <;> cases hflags

/-- Data or a FIN that reaches a point is of the other one's stream. -/
theorem Streaming.arrives (h : Streaming e x s) {w : Side} {pkt : Packet} (harr : s.Arrives (e.addr w) pkt)
    (hflags : pkt.segment.flags = .dados ∨ pkt.segment.flags = .fin) :
    ∃ k ∈ (s.point w.other).stream, pkt.segment = k.segment ∧ pkt.size = k.size + transportHeaderSize := by
  obtain ⟨hmem, hnode, hpoint⟩ := harr
  obtain ⟨z, hdest, k, hk, hsegment, hsize⟩ := h.packets pkt hmem hflags
  rcases Side.eq_or_eq_other w z with rfl | rfl
  · -- a point's own stream goes to the other place
    have haddressed := h.addressed z k hk
    refine absurd ?_ (e.addr_ne z)
    calc e.addr z = ⟨pkt.dest, pkt.segment.dest⟩ := by rw [hnode, hpoint]
      _ = e.addr z.other := by rw [hdest, hsegment, haddressed]
  · exact ⟨k, hk, hsegment, hsize⟩

/-- No FIN reaches the sender. -/
theorem Streaming.ne_fin (h : Streaming e x s) {act : PointAction} (hen : s.Enabled e x act) {pkt : Packet} {rnd : Nat}
    (hact : act = .recvThread pkt rnd) : pkt.segment.flags ≠ .fin := by
  intro hfin
  subst hact
  obtain ⟨k, hk, hsegment, -⟩ := h.arrives hen (Or.inr hfin)
  exact h.noFin k hk (by rw [← hsegment]; exact hfin)

/-- Each of the two points is in the connection or closing it. -/
theorem Streaming.inConnection (h : Streaming e x s) (z : Side) :
    (s.point z).sp.flagCon = .comConexao ∨ (s.point z).sp.flagCon = .encerrando := by
  rcases Side.eq_or_eq_other x z with rfl | rfl
  · exact h.sender
  · exact Or.inl h.receiver

/-- A stream only grows. -/
theorem Streaming.stream_grows (h : Streaming e x s) {m : Side × PointAction} (hs : s.step e m = some s') (z : Side) :
    (s.point z).stream <+: (s'.point z).stream := by
  obtain ⟨w, act⟩ := m
  obtain ⟨p, out, -, hact, hw, hother, -⟩ := Session.step_cases hs
  rcases Side.eq_or_eq_other w z with rfl | rfl
  · obtain ⟨-, ⟨new, hnew, -⟩, -⟩ := does_inConnection (act_does hact) (h.inConnection _)
    rw [hw, hnew]
    exact List.prefix_append _ _
  · rw [hother]

/-- What is said of the two points is kept as long as the receiver stays in the connection. -/
theorem Streaming.step (h : Streaming e x s) {m : Side × PointAction} (hs : s.step e m = some s')
    (hreceiver : (s'.point x.other).sp.flagCon = .comConexao) : Streaming e x s' := by
  have hgrows := h.stream_grows hs
  obtain ⟨w, act⟩ := m
  obtain ⟨p, out, hen, hact, hw, hother, hpackets⟩ := Session.step_cases hs
  have hdoes := act_does hact
  obtain ⟨⟨hdest, hdestSp, -⟩, ⟨new, hnew, hnewSpec⟩, hflag⟩ := does_inConnection hdoes (h.inConnection w)
  refine ⟨?_, hreceiver, ?_, ?_, ?_, ?_,
    ?_⟩
  · rcases Side.eq_or_eq_other w x with rfl | rfl
    · rw [hw]
      rcases hflag with hsame | ⟨-, hclose⟩ | ⟨pkt, rnd, hact', hfin⟩
      · rw [hsame]
        exact h.sender
      · exact Or.inr hclose
      · exact absurd hfin (h.ne_fin hen hact')
    · rw [hother]
      exact h.sender
  · intro z
    rcases Side.eq_or_eq_other w z with rfl | rfl
    · unfold Session.Faces
      rw [hw, hdest, hdestSp]
      exact h.faces z
    · unfold Session.Faces
      rw [hother]
      exact h.faces w.other
  · intro z k hk
    rcases Side.eq_or_eq_other w z with rfl | rfl
    · rw [hw, hnew] at hk
      rcases List.mem_append.1 hk with hk | hk
      · exact h.addressed z k hk
      · rw [(hnewSpec k hk).1]
        exact (h.faces z).2
    · rw [hother] at hk
      exact h.addressed _ k hk
  · intro pkt hpkt hflags
    rw [hpackets] at hpkt
    rcases List.mem_append.1 hpkt with hpkt | hpkt
    · obtain ⟨z, hnode, k, hk, hfields⟩ := h.packets pkt hpkt hflags
      exact ⟨z, hnode, k, (hgrows z).subset hk, hfields⟩
    · rcases hdoes.out hpkt with ⟨k, hk, rfl⟩ | hack
      · have hstream : k ∈ (s.point w).stream := List.mem_filter.2 ⟨hk, decide_eq_true hflags⟩
        exact ⟨w, (h.faces w).1, k, (hgrows w).subset hstream, rfl, rfl⟩
      · rw [hack] at hflags
        rcases hflags with hflags | hflags <;> cases hflags
  · intro k hk
    rcases Side.eq_or_eq_other x w with rfl | rfl
    · rw [hother] at hk
      exact h.noFin k hk
    · rw [hw, hnew] at hk
      rw [hw] at hreceiver
      rcases List.mem_append.1 hk with hk | hk
      · exact h.noFin k hk
      · exact fun hfin => (hnewSpec k hk).2 hfin hreceiver
  · intro z k hk
    rcases Side.eq_or_eq_other w z with rfl | rfl
    · obtain ⟨packs, hpacks, hflags⟩ := hdoes.packs
      rw [hw, hpacks] at hk
      rcases List.mem_append.1 hk with hk | hk
      · exact h.noAck _ k hk
      · exact (hflags k hk).2.2
    · rw [hother] at hk
      exact h.noAck _ k hk

/-- Data that is added is not before `seq_num_r`. -/
theorem le_of_verdict_addDados {sp : ServicePoint} {seqNum : Nat} (h : sp.verdict seqNum = .addDados) : sp.seqNumR ≤ seqNum := by
  unfold ServicePoint.verdict at h
  grind

/-- The receiver of an established connection has nothing yet. -/
theorem Session.Established.assembles (h : s.Established e x) :
    Assembles (s.point x).sp.seqNumS (s.point x).stream (s.point x.other).sp (s.point x.other).history.returned [] where
  start := List.nil_prefix
  dados := by simp
  bytes := by rw [h.history.2.2, h.segs.1]; rfl
  seqNumR := h.seqNum.1.symm
  aux := by rw [h.segs.2]; simp
  auxNext := by rw [h.segs.2]; simp
  auxWrap := by rw [h.segs.2]; simp

/-- An ACK that a point in the connection sends answers data or a FIN that arrives. Only for data that `insert_seg_lst` has freed it is
not the one of that segment. -/
theorem Streaming.ack_out (h : Streaming e x s) {w : Side} {p : Endpoint} {act : PointAction} {out : List Packet}
    (hdoes : (s.point w).Does (e.addr w) act p out) {ack : Packet} (hmem : ack ∈ out) (hflags : ack.segment.flags = .ack) :
    ∃ pkt rnd, act = .recvThread pkt rnd ∧
      (ack = (s.point w).sp.ackPacket (e.addr w) pkt ∨ ack.freed = true ∧ (s.point w).sp.Frees pkt.segment.seqNum) ∧
      ack.src = (e.addr w).node ∧ ack.dest = (s.point w).sp.dest ∧ ack.segment.dest = (s.point w).sp.destSp ∧
      (pkt.segment.flags = .fin ∨ (pkt.segment.flags = .dados ∧
        ((s.point w).sp.verdict pkt.segment.seqNum = .reenviaAck ∧ p = s.point w ∨
          (s.point w).sp.verdict pkt.segment.seqNum = .addDados ∧ p.sp = (s.point w).sp.addDados pkt ∧
            p.history.returned = (s.point w).history.returned))) := by
  have hf := h.inConnection w
  cases hdoes with
  | firstSend i t ht | resend i t ht =>
    obtain rfl := List.mem_singleton.1 hmem
    exact absurd hflags (h.noAck w t.pack (List.mem_map_of_mem (List.mem_of_getElem? ht)))
  | acceptSyncAck _ _ _ _ hf' => exact absurd hf' (FlagCon.ne_of_inConnection hf).2
  | reack pkt rnd hdados _ _ hv =>
    obtain rfl := List.mem_singleton.1 hmem
    exact ⟨pkt, rnd, rfl, Or.inl rfl, rfl, rfl, rfl, Or.inr ⟨hdados, Or.inl ⟨hv, rfl⟩⟩⟩
  | add pkt rnd hdados _ _ hv =>
    obtain rfl := List.mem_singleton.1 hmem
    obtain ⟨hnode, hdest, hpoint⟩ := (s.point w).sp.dadosAck_addr (e.addr w) pkt rnd
    refine ⟨pkt, rnd, rfl, ?_, hnode, hdest, hpoint, Or.inr ⟨hdados, Or.inr ⟨hv, rfl, rfl⟩⟩⟩
    by_cases hfrees : (s.point w).sp.Frees pkt.segment.seqNum
    · exact Or.inr ⟨ServicePoint.dadosAck_freed hfrees _ _, hfrees⟩
    · exact Or.inl (ServicePoint.dadosAck_of_not_frees hfrees _ _)
  | finInConnection pkt rnd hfin | finWhileClosing pkt rnd hfin =>
    obtain rfl := List.mem_singleton.1 hmem
    exact ⟨pkt, rnd, rfl, Or.inl rfl, rfl, rfl, rfl, Or.inl hfin⟩
  | _ => cases hmem

/-- The ACKs a point sends are not for itself. -/
theorem Streaming.ack_out_ne_self (h : Streaming e x s) {w : Side} {p : Endpoint} {act : PointAction} {out : List Packet}
    (hdoes : (s.point w).Does (e.addr w) act p out) {ack : Packet} (hmem : ack ∈ out) (hflags : ack.segment.flags = .ack) :
    ¬ (ack.dest = (e.addr w).node ∧ ack.segment.dest = (e.addr w).point) := by
  obtain ⟨_, _, -, -, -, hdest, hpoint, -⟩ := h.ack_out hdoes hmem hflags
  rw [hdest, hpoint]
  exact (h.faces w).not_self

/-- An ACK whose number was not read from a freed segment is the one of the segment that arrived. -/
theorem Streaming.ack_out_of_not_freed (h : Streaming e x s) {w : Side} {p : Endpoint} {act : PointAction} {out : List Packet}
    (hdoes : (s.point w).Does (e.addr w) act p out) {ack : Packet} (hmem : ack ∈ out) (hflags : ack.segment.flags = .ack)
    (hfreed : ack.freed = false) :
    ∃ pkt rnd, act = .recvThread pkt rnd ∧ ack = (s.point w).sp.ackPacket (e.addr w) pkt ∧
      (pkt.segment.flags = .fin ∨ (pkt.segment.flags = .dados ∧
        ((s.point w).sp.verdict pkt.segment.seqNum = .reenviaAck ∧ p = s.point w ∨
          (s.point w).sp.verdict pkt.segment.seqNum = .addDados ∧ p.sp = (s.point w).sp.addDados pkt ∧
            p.history.returned = (s.point w).history.returned))) := by
  obtain ⟨pkt, rnd, hact, hack | ⟨htrue, -⟩, -, -, -, hwhy⟩ := h.ack_out hdoes hmem hflags
  · exact ⟨pkt, rnd, hact, hack, hwhy⟩
  · rw [hfreed] at htrue
    cases htrue

/-- A step keeps what is said of the receiver, and what has arrived stays. -/
theorem Streaming.assembles_step {q : Nat} {c : List SendSegment} (h : Streaming e x s) {m : Side × PointAction}
    (hs : s.step e m = some s') (hq : q < maxSeqNum) (hnum : Numbered q (s.point x).stream)
    (hsum : packSize (s.point x).stream < maxSeqNum)
    (hrecv : Assembles q (s.point x).stream (s.point x.other).sp (s.point x.other).history.returned c) :
    ∃ c', Assembles q (s'.point x).stream (s'.point x.other).sp (s'.point x.other).history.returned c' ∧
      ∀ segment, HasArrived (s.point x.other).sp c segment → HasArrived (s'.point x.other).sp c' segment := by
  have hgrows := h.stream_grows hs x
  obtain ⟨w, act⟩ := m
  obtain ⟨p, out, hen, hact, hw, hother, -⟩ := Session.step_cases hs
  rcases Side.eq_or_eq_other x w with rfl | rfl
  · rw [hother]
    exact ⟨c, hrecv.mono hgrows, fun _ h => h⟩
  · rw [Side.other_other] at hother
    rw [hother, hw]
    have hcon := h.receiver
    generalize hp : s.point x.other = r at *
    cases act_does hact with
    | sync _ _ _ _ _ hf => exact absurd hf (FlagCon.ne_of_inConnection (Or.inl hcon)).1
    | acceptSync _ _ _ _ hf => exact absurd hf (FlagCon.ne_of_inConnection (Or.inl hcon)).1
    | acceptSyncAck _ _ _ _ hf => exact absurd hf (FlagCon.ne_of_inConnection (Or.inl hcon)).2
    | recv size => exact ⟨c, hrecv.recvSeg size rfl rfl rfl, fun _ h => h⟩
    | add pkt rnd hflags _ _ hverdict =>
      obtain ⟨k, hk, hsegment, hsize⟩ := h.arrives hen (Or.inl hflags)
      rw [Side.other_other] at hk
      have hdata : pkt.dataSize = k.size := by rw [Packet.dataSize, hsize, Nat.add_sub_cancel]
      rw [hsegment] at hflags hverdict
      obtain ⟨c', hc', hk', hmono⟩ := hrecv.addDados hq hnum hsum hk hflags hsegment hdata (le_of_verdict_addDados hverdict)
      exact ⟨c', hc', hmono⟩
    | _ => exact ⟨c, hrecv.congr rfl rfl rfl, fun _ h => h⟩

end Streaming

end NetworkLayers
