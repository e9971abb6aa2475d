import NetworkLayers.Lemmas.Lists
import NetworkLayers.Lemmas.Session
import Mathlib.Tactic.MkIffOfInductiveProp

/-!
# Lost acknowledgements

A `seg_send_thread` sends its segment again until the entry for its ACK is set. When the other point has taken the segment and
the ACK was lost, a copy is of use only if the handler it reaches still answers, and answers with the number that the entry has. For a
copy of data that is still in `segs_aux` the handler answers with a number read from the segment after `insert_seg_lst` has freed it.
-/

namespace NetworkLayers

open Transition

/-- The ACK of a SYN+ACK, data or FIN that a `seg_send_thread` of the point still sends has not come, though the other point has
taken the segment, and a copy of it can reach that point. -/
@[mk_iff]
structure Session.LostAck (e : Places) (s : Session) (x : Side) (t : SegSend) (pkt : Packet) : Prop where
  thread : t ∈ (s.point x).segSends
  running : t.stopped = false
  kind : t.pack.segment.flags = .syncAck ∨ t.pack.segment.flags = .dados ∨ t.pack.segment.flags = .fin
  pending : isSet (s.point x).sp.acks t.pack.lookup = false
  taken : t.pack.segment ∈ (s.point x.other).history.taken
  arrives : s.Arrives (e.addr x.other) pkt
  src : pkt.src = (e.addr x).node
  segment : pkt.segment = t.pack.segment
  size : pkt.size = t.pack.size + transportHeaderSize

instance (e : Places) (s : Session) (x : Side) (t : SegSend) (pkt : Packet) : Decidable (s.LostAck e x t pkt) :=
  decidable_of_iff' _ (Session.lostAck_iff e s x t pkt)

/-- When the other point processes the copy, whatever freed memory holds, it sends the point an ACK whose number sets the entry that the
thread looks at. -/
def Session.Answers (e : Places) (s : Session) (x : Side) (pack : SendSegment) (pkt : Packet) : Prop :=
  ∀ rnd, ∃ p out, (s.point x.other).act (e.addr x.other) (.recvThread pkt rnd) = some (p, out) ∧
    ∃ ack ∈ out, ack.segment.flags = .ack ∧ ack.dest = (e.addr x).node ∧ ack.segment.dest = (e.addr x).point ∧
      isSet (setAck (s.point x).sp.acks ack.segment.ackNum) pack.lookup = true

/-- The other point is still where the segment finds it: no earlier data has left `mutex_con` locked, the point is its
destination, and it is in flag_con 1 for a SYN+ACK, in 2 or 3 for a FIN and in 2 for data, which is in its window, is not added and
freed for a copy that `segs_aux` holds, and ends by `MAX_SEQ_NUM`. -/
def Session.CanAnswer (e : Places) (s : Session) (x : Side) (pack : SendSegment) : Prop :=
  let sp := (s.point x.other).sp
  sp.mutexCon = false ∧ sp.dest = (e.addr x).node ∧
    match pack.segment.flags with
    | .syncAck => sp.flagCon = .estabelecendo
    | .fin => sp.destSp = (e.addr x).point ∧ (sp.flagCon = .comConexao ∨ sp.flagCon = .encerrando)
    | _ => sp.destSp = (e.addr x).point ∧ sp.flagCon = .comConexao ∧ sp.verdict pack.segment.seqNum ≠ .descarta ∧
        ¬ (sp.verdict pack.segment.seqNum = .addDados ∧ sp.Frees pack.segment.seqNum) ∧
        pack.segment.seqNum + pack.size ≤ maxSeqNum

namespace AckRecoveryAux

theorem nextSeqNum_lt (seqNum n : Nat) : nextSeqNum seqNum n < maxSeqNum := Nat.mod_lt _ (by decide)

/-- The numbers of a point and of what it sends, and a blocked `recv_thread`. -/
structure Bounded (p : Endpoint) : Prop where
  blocked : p.recvBlocked = true → p.sp.mutexCon = true
  seqNumS : p.sp.seqNumS < maxSeqNum
  acks : ∀ num ∈ p.sp.acks.map (·.seqNum), num < maxSeqNum
  packs : ∀ k ∈ p.packs, k.segment.seqNum < maxSeqNum ∧ k.size < 65536 ∧ (k.segment.flags ≠ .dados → k.size = 1)
  segmentSize : p.sendThread.segmentSize < 65536
  segmentSendSize : p.sendThread.segmentSendSize < 65536

/-- A new entry at the end of the list has a number of the range. -/
theorem acks_insertAck {l : List AckLst} {a : AckLst} (hl : ∀ num ∈ l.map (·.seqNum), num < maxSeqNum)
    (ha : a.seqNum < maxSeqNum) : ∀ num ∈ (insertAck l a).map (·.seqNum), num < maxSeqNum := by
  intro num hnum
  rw [insertAck, List.map_append, List.mem_append] at hnum
  rcases hnum with hnum | hnum
  · exact hl num hnum
  · obtain rfl := List.mem_singleton.1 hnum
    exact ha

/-- So has a new pack. -/
theorem packs_spawn {p : Endpoint} {segment : Segment} {size : Nat}
    (hp : ∀ k ∈ p.packs, k.segment.seqNum < maxSeqNum ∧ k.size < 65536 ∧ (k.segment.flags ≠ .dados → k.size = 1))
    (hseq : segment.seqNum < maxSeqNum) (hsize : size < 65536) (hone : segment.flags ≠ .dados → size = 1) :
    ∀ k ∈ (p.spawn segment size).packs,
      k.segment.seqNum < maxSeqNum ∧ k.size < 65536 ∧ (k.segment.flags ≠ .dados → k.size = 1) := by
  intro k hk
  rcases mem_packs_spawn.1 hk with hk | rfl
  · exact hp k hk
  · exact ⟨hseq, hsize, hone⟩

theorem u16_lt (n : Nat) : u16 n < 65536 := Nat.mod_lt _ (by decide)

theorem nextSize_lt {t : SendThread} (h : t.segmentSize < 65536) (windowSize windowPtr : Nat) :
    t.nextSize windowSize windowPtr < 65536 := by
  unfold SendThread.nextSize
  split
  · exact u16_lt _
  · exact h

theorem bounded_step {here : Addr} {p p' : Endpoint} {act : PointAction} {out : List Packet} (hp : Bounded p)
    (h : p.Does here act p' out) : Bounded p' := by
  have hsize : p.sendThread.size < 65536 := Nat.lt_of_le_of_lt (SendThread.size_le _) hp.segmentSendSize
  cases h with
  | idle | recv | resend | reack | send | deposit | bufferSent =>
    exact ⟨hp.blocked, hp.seqNumS, hp.acks, hp.packs, hp.segmentSize, hp.segmentSendSize⟩
  | sync =>
    exact ⟨hp.blocked, nextSeqNum_lt _ _, acks_insertAck hp.acks (nextSeqNum_lt _ _),
      packs_spawn hp.packs (Nat.mod_lt _ (by decide)) (by decide) fun _ => rfl, hp.segmentSize, hp.segmentSendSize⟩
  | close | finInConnection =>
    exact ⟨hp.blocked, nextSeqNum_lt _ _, acks_insertAck hp.acks (nextSeqNum_lt _ _),
      packs_spawn hp.packs hp.seqNumS (by decide) fun _ => rfl, hp.segmentSize, hp.segmentSendSize⟩
  | takeBuffer =>
    have hfirst : (if p.sp.windowSize < maxSegmentSize then p.sp.windowSize else maxSegmentSize) < 65536 := by
      unfold maxSegmentSize
      split <;> omega
    refine ⟨hp.blocked, hp.seqNumS, hp.acks, hp.packs, ?_, ?_⟩
    · simp only [Endpoint.takeBuffer]
      split
      · exact hp.segmentSize
      · exact hfirst
    · simp only [Endpoint.takeBuffer]
      split
      · exact hp.segmentSendSize
      · exact hfirst
  | segment =>
    refine ⟨hp.blocked, nextSeqNum_lt _ _, acks_insertAck hp.acks (nextSeqNum_lt _ _),
      packs_spawn hp.packs hp.seqNumS hsize fun h => absurd rfl h, ?_, ?_⟩
    · simp only [Endpoint.sendSegment]
      split <;> exact hp.segmentSize
    · simp only [Endpoint.sendSegment]
      split
      · exact hsize
      · exact nextSize_lt hp.segmentSize _ _
  | window =>
    refine ⟨hp.blocked, hp.seqNumS, ?_, hp.packs, ?_, ?_⟩
    · intro num hnum
      exact hp.acks num (((inSeq_suffix p.sp.acks).map _).subset hnum)
    · simp only [Endpoint.sendThreadWindow]
      split <;> exact hp.segmentSize
    · simp only [Endpoint.sendThreadWindow]
      split
      · exact hp.segmentSendSize
      · split
        · exact hp.segmentSize
        · exact u16_lt _
  | firstSend i t ht | acked i t ht =>
    refine ⟨hp.blocked, hp.seqNumS, hp.acks, ?_, hp.segmentSize, hp.segmentSendSize⟩
    intro k hk
    exact hp.packs k (by rw [← packs_set ht]; exacts [hk, rfl])
  | block pkt rnd hm => exact ⟨fun _ => hm, hp.seqNumS, hp.acks, hp.packs, hp.segmentSize, hp.segmentSendSize⟩
  | lock => exact ⟨fun _ => rfl, hp.seqNumS, hp.acks, hp.packs, hp.segmentSize, hp.segmentSendSize⟩
  | add | finWhileClosing =>
    exact ⟨hp.blocked, hp.seqNumS, hp.acks, hp.packs, hp.segmentSize, hp.segmentSendSize⟩
  | acceptSync =>
    exact ⟨hp.blocked, nextSeqNum_lt _ _, acks_insertAck hp.acks (nextSeqNum_lt _ _),
      packs_spawn hp.packs (nextSeqNum_lt _ _) (by decide) fun _ => rfl, hp.segmentSize, hp.segmentSendSize⟩
  | acceptSyncAck | ack =>
    refine ⟨hp.blocked, hp.seqNumS, fun num hnum => hp.acks num ?_, hp.packs, hp.segmentSize, hp.segmentSendSize⟩
    rwa [← map_seqNum_setAck]

/-- What holds all along a run of fresh points: the numbers stay in range, and packets carry packs. -/
structure Inv (e : Places) (s : Session) : Prop where
  traced : s.Traced e
  bounded : ∀ x, Bounded (s.point x)

theorem bounded_alloc : Bounded allocServicePoint where
  blocked := by intro h; cases h
  seqNumS := by decide
  acks := by intro num hnum; cases hnum
  packs := by intro k hk; cases hk
  segmentSize := by decide
  segmentSendSize := by decide

theorem inv_start (e : Places) : Inv e Session.start where
  traced := traced_start e
  bounded := fun _ => bounded_alloc

theorem inv_step {e : Places} {s s' : Session} {m : Side × PointAction} (h : Inv e s) (hs : s.step e m = some s') : Inv e s' where
  traced := h.traced.step hs
  bounded := by
    intro y
    obtain ⟨x, act⟩ := m
    obtain ⟨p, out, -, hact, hx, hother, -⟩ := Session.step_cases hs
    rcases Side.eq_or_eq_other x y with rfl | rfl
    · rw [hx]
      exact bounded_step (h.bounded _) (act_does hact)
    · rw [hother]
      exact h.bounded _

/-- An ACK sets an entry that is not set exactly when it has its number. -/
theorem setAck_sets_iff {l : List AckLst} {num key : Nat} (h : isSet l key = false) :
    isSet (setAck l num) key = true ↔ num = key := by
  rw [isSet_setAck, h, Bool.or_false, decide_eq_true_iff]

/-- The number of the ACK for a segment is the one its thread looks up exactly when the segment ends by `MAX_SEQ_NUM`. -/
theorem ackNum_eq_lookup_iff {k : SendSegment} {pkt : Packet} (hseq : k.segment.seqNum < maxSeqNum) (hsize : k.size < 65536)
    (hkey : k.lookup < maxSeqNum) (hsegment : pkt.segment = k.segment) (hpkt : pkt.size = k.size + transportHeaderSize) :
    pkt.ackNum = k.lookup ↔ k.segment.seqNum + k.size ≤ maxSeqNum := by
  have hdata : pkt.dataSize = k.size := by rw [Packet.dataSize, hpkt, Nat.add_sub_cancel]
  unfold Packet.ackNum
  unfold SendSegment.lookup u32 maxSeqNum at hkey ⊢
  unfold maxSeqNum at hseq
  rw [hdata, hsegment]
  omega

/-- The ACK of a segment of one byte is the number after it, which is the one its thread looks up. -/
theorem lookup_of_size_one {k : SendSegment} (hone : k.size = 1) (hkey : k.lookup < maxSeqNum) :
    nextSeqNum k.segment.seqNum 1 = k.lookup := by
  unfold SendSegment.lookup at hkey ⊢
  rw [hone] at hkey ⊢
  exact Nat.mod_eq_of_lt hkey

/-- The number of an ACK that is read from freed memory is not one and the same for all that the memory can hold. -/
theorem exists_dadosAck_ne {sp : ServicePoint} {pkt : Packet} (hfrees : sp.Frees pkt.segment.seqNum) (here : Addr)
    (hsize : pkt.dataSize < 65536) (num : Nat) : ∃ mem, (sp.dadosAck here pkt mem).segment.ackNum ≠ num := by
  have hnum : ∀ mem < 2, (sp.dadosAck here pkt mem).segment.ackNum = mem + pkt.dataSize := by
    intro mem hmem
    rw [ServicePoint.dadosAck, if_pos hfrees]
    show (u32 mem + pkt.dataSize) % maxSeqNum = mem + pkt.dataSize
    unfold u32 maxSeqNum
    omega
  by_cases h0 : pkt.dataSize = num
  · exact ⟨1, by rw [hnum 1 (by decide)]; omega⟩
  · exact ⟨0, by rw [hnum 0 (by decide)]; omega⟩

/-- What `recv_thread` finds when it sends an ACK. -/
theorem ack_of_recvThread {here : Addr} {p p' : Endpoint} {pkt ack : Packet} {rnd : Nat} {out : List Packet}
    (h : p.Does here (.recvThread pkt rnd) p' out) (hack : ack ∈ out) :
    p.sp.mutexCon = false ∧ ack.dest = p.sp.dest ∧
      (pkt.segment.flags = .syncAck ∧ p.sp.flagCon = .estabelecendo ∨
        ack.segment.dest = p.sp.destSp ∧
          (pkt.segment.flags = .dados ∧ p.sp.flagCon = .comConexao ∧ p.sp.verdict pkt.segment.seqNum ≠ .descarta ∧
              (ack = p.sp.ackPacket here pkt ∨ p.sp.verdict pkt.segment.seqNum = .addDados ∧ ack = p.sp.dadosAck here pkt rnd) ∨
            pkt.segment.flags = .fin ∧ (p.sp.flagCon = .comConexao ∨ p.sp.flagCon = .encerrando))) := by
  cases h with
  | reack _ _ hflags hm hf hv =>
    obtain rfl := List.mem_singleton.1 hack
    exact ⟨hm, rfl, Or.inr ⟨rfl, Or.inl ⟨hflags, hf, by rw [hv]; decide, Or.inl rfl⟩⟩⟩
  | add _ _ hflags hm hf hv =>
    obtain rfl := List.mem_singleton.1 hack
    obtain ⟨-, hdest, hpoint⟩ := p.sp.dadosAck_addr here pkt rnd
    exact ⟨hm, hdest, Or.inr ⟨hpoint, Or.inl ⟨hflags, hf, by rw [hv]; decide, Or.inr ⟨hv, rfl⟩⟩⟩⟩
  | acceptSyncAck _ _ hflags hm hf =>
    obtain rfl := List.mem_singleton.1 hack
    exact ⟨hm, rfl, Or.inl ⟨hflags, hf⟩⟩
  | finInConnection _ _ hflags hm hf =>
    obtain rfl := List.mem_singleton.1 hack
    exact ⟨hm, rfl, Or.inr ⟨rfl, Or.inr ⟨hflags, Or.inl hf⟩⟩⟩
  | finWhileClosing _ _ hflags hm hf =>
    obtain rfl := List.mem_singleton.1 hack
    exact ⟨hm, rfl, Or.inr ⟨rfl, Or.inr ⟨hflags, Or.inr hf⟩⟩⟩
  | idle | block | lock | acceptSync | ack => cases hack

/-- Data that is added and freed is not answered for every content of the freed memory. -/
theorem not_answers_of_frees {e : Places} {s : Session} {x : Side} {pack : SendSegment} {pkt : Packet}
    (hans : s.Answers e x pack pkt) (hdados : pkt.segment.flags = .dados)
    (hadd : (s.point x.other).sp.verdict pkt.segment.seqNum = .addDados) (hsize : pkt.dataSize < 65536)
    (hsets : ∀ num, isSet (setAck (s.point x).sp.acks num) pack.lookup = true → num = pack.lookup) :
    ¬ (s.point x.other).sp.Frees pkt.segment.seqNum := by
  intro hfrees
  obtain ⟨mem, hne⟩ := exists_dadosAck_ne hfrees (e.addr x.other) hsize pack.lookup
  obtain ⟨p, out, hact, ack, hack, -, -, -, hset⟩ := hans mem
  have hflags : ∀ f : Flags, f ≠ .dados → pkt.segment.flags ≠ f := fun f hf heq => hf (heq ▸ hdados)
  cases act_does hact with
  | reack _ _ _ _ _ hv =>
    rw [hv] at hadd
    cases hadd
  | add =>
    obtain rfl := List.mem_singleton.1 hack
    exact hne (hsets _ hset)
  | acceptSyncAck _ _ heq => exact hflags _ (by decide) heq
  | finInConnection _ _ heq => exact hflags _ (by decide) heq
  | finWhileClosing _ _ heq => exact hflags _ (by decide) heq
  | _ => cases hack

end AckRecoveryAux

open AckRecoveryAux in
/-- In every reachable state, a copy of a segment whose ACK was lost has it acknowledged exactly when the other point is still
where the segment finds it. -/
theorem lost_ack_answered_iff {e : Places} {s : Session} {x : Side} {t : SegSend} {pkt : Packet}
    (h : Reach (Session.step e) anyStep Session.start s) (hlost : s.LostAck e x t pkt) :
    s.Answers e x t.pack pkt ↔ s.CanAnswer e x t.pack := by
  obtain ⟨htraced, hbounded⟩ : Inv e s := h.invariant (inv_start e) fun _ _ _ hi _ hs => inv_step hi hs
  have hpack : t.pack ∈ (s.point x).packs := List.mem_map_of_mem hlost.thread
  obtain ⟨hseq, hsize, hone⟩ := (hbounded x).packs _ hpack
  have hsrc : pkt.segment.src = (e.addr x).point := by rw [hlost.segment, htraced.src x _ hpack]
  have hkey : t.pack.lookup < maxSeqNum := by
    obtain ⟨a, ha, hnum⟩ := exists_of_isSet_eq_false hlost.pending
    rw [← hnum]
    exact (hbounded x).acks _ (List.mem_map_of_mem ha)
  have hnum := ackNum_eq_lookup_iff hseq hsize hkey hlost.segment hlost.size
  have hsets : ∀ num, isSet (setAck (s.point x).sp.acks num) t.pack.lookup = true ↔ num = t.pack.lookup :=
    fun num => setAck_sets_iff hlost.pending
  have hdata : pkt.dataSize = t.pack.size := by rw [Packet.dataSize, hlost.size, Nat.add_sub_cancel]
  constructor
  · intro hans
    obtain ⟨p, out, hact, ack, hack, -, hdest, hpoint, hset⟩ := hans 0
    rw [hsets] at hset
    obtain ⟨hm, hd, ⟨hflags, hf⟩ | ⟨hp, ⟨hflags, hf, hv, hwhich⟩ | ⟨hflags, hf⟩⟩⟩ := ack_of_recvThread (act_does hact) hack
    · rw [hlost.segment] at hflags
      simp only [Session.CanAnswer, hflags]
      exact ⟨hm, hd.symm.trans hdest, hf⟩
    · have hfree : (s.point x.other).sp.verdict pkt.segment.seqNum = .addDados →
          ¬ (s.point x.other).sp.Frees pkt.segment.seqNum := fun hadd =>
        not_answers_of_frees hans hflags hadd (by rw [hdata]; exact hsize) fun num => (hsets num).1
      have hack' : ack = (s.point x.other).sp.ackPacket (e.addr x.other) pkt := by
        rcases hwhich with hack' | ⟨hadd, rfl⟩
        · exact hack'
        · exact ServicePoint.dadosAck_of_not_frees (hfree hadd) _ _
      have hle := hnum.1 ((congrArg (·.segment.ackNum) hack').symm.trans hset)
      rw [hlost.segment] at hflags hv hfree
      simp only [Session.CanAnswer, hflags]
      exact ⟨hm, hd.symm.trans hdest, hp.symm.trans hpoint, hf, hv, fun ⟨hadd, hfrees⟩ => hfree hadd hfrees, hle⟩
    · rw [hlost.segment] at hflags
      simp only [Session.CanAnswer, hflags]
      exact ⟨hm, hd.symm.trans hdest, hp.symm.trans hpoint, hf⟩
  · intro hcan rnd
    obtain ⟨hm, hdest, hrest⟩ := hcan
    have hblocked : (s.point x.other).recvBlocked = false := by
      by_contra hb
      have := (hbounded x.other).blocked (by simpa using hb)
      rw [hm] at this
      cases this
    simp only [Endpoint.act, Endpoint.recvThread, hblocked, hm, hlost.segment, Bool.false_eq_true, if_false]
    rcases hlost.kind with hk | hk | hk <;> simp only [hk] at hrest ⊢
    · have hack : nextSeqNum pkt.segment.seqNum 1 = t.pack.lookup := by
        rw [hlost.segment]
        exact lookup_of_size_one (hone (by simp [hk])) hkey
      simp only [Endpoint.syncAckThread, hrest, if_true]
      exact ⟨_, _, rfl, _, List.mem_singleton_self _, rfl, hdest, hsrc, (hsets _).2 hack⟩
    · obtain ⟨hpoint, hf, hv, hfree, hle⟩ := hrest
      simp only [hf, if_true, Endpoint.recvDados, hlost.segment]
      split
      · rename_i hdrop
        exact absurd hdrop hv
      · exact ⟨_, _, rfl, _, List.mem_singleton_self _, rfl, hdest, hpoint, (hsets _).2 (hnum.2 hle)⟩
      · rename_i hadd
        have hnot : ¬ (s.point x.other).sp.Frees pkt.segment.seqNum := by
          rw [hlost.segment]
          exact fun hfrees => hfree ⟨hadd, hfrees⟩
        rw [ServicePoint.dadosAck_of_not_frees hnot]
        exact ⟨_, _, rfl, _, List.mem_singleton_self _, rfl, hdest, hpoint, (hsets _).2 (hnum.2 hle)⟩
    · obtain ⟨hpoint, hf⟩ := hrest
      have hle : t.pack.segment.seqNum + t.pack.size ≤ maxSeqNum := by rw [hone (by simp [hk])]; omega
      rcases hf with hf | hf <;> simp only [Endpoint.closeConnAux, hf]
      · exact ⟨_, _, rfl, _, List.mem_singleton_self _, rfl, hdest, hpoint, (hsets _).2 (hnum.2 hle)⟩
      · exact ⟨_, _, rfl, _, List.mem_singleton_self _, rfl, hdest, hpoint, (hsets _).2 (hnum.2 hle)⟩

namespace AckRecoveryAux

/-- The `seg_send_thread` of the SYN+ACK of the handshake. -/
def syncAckThread : SegSend where
  pack := { segment := SessionAux.syncAck.segment, size := 1, epoch := 1 }
  started := true
  stopped := false

/-- After the handshake, the first point sends a byte, which the second takes. -/
def oneByte : List (Side × PointAction) :=
  SessionAux.handshake ++
  [(.a, .sendPoint [7]), (.a, .sendPut 0), (.a, .sendThread), (.a, .sendThread), (.a, .segSendThread 1),
    (.b, .recvThread (SessionAux.packet 1 2 .dados 16 0 [7] 1) 0)]

/-- The `seg_send_thread` of that byte. -/
def byteThread : SegSend where
  pack := { segment := (SessionAux.packet 1 2 .dados 16 0 [7] 1).segment, size := 1, epoch := 1 }
  started := true
  stopped := false

/-- After the handshake, the first point sends two segments, and the second takes the second of them. -/
def dataAhead : List (Side × PointAction) :=
  SessionAux.handshake ++
  [(.a, .sendPoint [7, 8, 9]), (.a, .sendPut 0), (.a, .sendThread), (.a, .sendThread), (.a, .sendThread),
    (.a, .sendPoint [10, 11]), (.a, .sendPut 0), (.a, .sendThread), (.a, .sendThread), (.a, .segSendThread 2),
    (.b, .recvThread (SessionAux.packet 1 2 .dados 19 0 [10, 11] 1) 0)]

/-- The `seg_send_thread` of the second segment. -/
def aheadThread : SegSend where
  pack := { segment := (SessionAux.packet 1 2 .dados 19 0 [10, 11] 1).segment, size := 2, epoch := 1 }
  started := true
  stopped := false

end AckRecoveryAux

open AckRecoveryAux in
/-- A byte whose ACK is lost: a copy has it acknowledged. -/
theorem lost_ack_answered_iff_byte :
    ∃ s : Session, ∃ pkt, s.LostAck SessionAux.places .a byteThread pkt ∧ s.Answers SessionAux.places .a byteThread.pack pkt := by
  obtain ⟨s, hs, hlost, hm, hdest, hpoint, hf, hv⟩ : ∃ s ∈ exec (Session.step SessionAux.places) Session.start oneByte,
      s.LostAck SessionAux.places .a byteThread (SessionAux.packet 1 2 .dados 16 0 [7] 1) ∧
        (s.point .b).sp.mutexCon = false ∧ (s.point .b).sp.dest = 1 ∧ (s.point .b).sp.destSp = 0 ∧
        (s.point .b).sp.flagCon = .comConexao ∧ (s.point .b).sp.verdict 16 = .reenviaAck := by
    decide
  refine ⟨s, _, hlost, (lost_ack_answered_iff (reach_anyStep_of_exec hs) hlost).2 ⟨hm, hdest, hpoint, hf, ?_, ?_, by decide⟩⟩
  · exact fun hdrop => absurd (hv.symm.trans hdrop) (by decide)
  · exact fun hadd => absurd (hv.symm.trans hadd.1) (by decide)

open AckRecoveryAux in
/-- The ACK of the SYN+ACK is lost. A copy finds the first point in flag_con 2, where it is dropped. -/
theorem lost_ack_of_syncAck_unanswered :
    ∃ s, Reach (Session.step SessionAux.places) anyStep Session.start s ∧
      s.LostAck SessionAux.places .b syncAckThread SessionAux.syncAck ∧
      ¬ s.Answers SessionAux.places .b syncAckThread.pack SessionAux.syncAck := by
  obtain ⟨s, hs, hlost, hout⟩ : ∃ s ∈ exec (Session.step SessionAux.places) Session.start SessionAux.handshake,
      s.LostAck SessionAux.places .b syncAckThread SessionAux.syncAck ∧
        ((s.point .a).act (SessionAux.places.addr .a) (.recvThread SessionAux.syncAck 0)).map (·.2) = some [] := by
    decide
  refine ⟨s, reach_anyStep_of_exec hs, hlost, ?_⟩
  intro hans
  obtain ⟨p, out, hact, ack, hack, -⟩ := hans 0
  rw [show Side.b.other = Side.a from rfl] at hact
  rw [hact] at hout
  obtain rfl : out = [] := Option.some.inj hout
  cases hack

open AckRecoveryAux in
/-- The ACK of data that came before its turn is lost. A copy finds it in `segs_aux` and is freed, and where the freed memory holds 0
the ACK has the number 2 in place of 21. -/
theorem lost_ack_of_data_ahead_unanswered :
    ∃ s, Reach (Session.step SessionAux.places) anyStep Session.start s ∧
      s.LostAck SessionAux.places .a aheadThread (SessionAux.packet 1 2 .dados 19 0 [10, 11] 1) ∧
      ¬ s.Answers SessionAux.places .a aheadThread.pack (SessionAux.packet 1 2 .dados 19 0 [10, 11] 1) := by
  obtain ⟨s, hs, hlost, hout⟩ : ∃ s ∈ exec (Session.step SessionAux.places) Session.start dataAhead,
      s.LostAck SessionAux.places .a aheadThread (SessionAux.packet 1 2 .dados 19 0 [10, 11] 1) ∧
        ∃ out ∈ ((s.point .b).act (SessionAux.places.addr .b)
            (.recvThread (SessionAux.packet 1 2 .dados 19 0 [10, 11] 1) 0)).map (·.2),
          ∀ ack ∈ out, isSet (setAck (s.point .a).sp.acks ack.segment.ackNum) aheadThread.pack.lookup = false := by
    decide
  refine ⟨s, reach_anyStep_of_exec hs, hlost, ?_⟩
  intro hans
  obtain ⟨out, hout, hunset⟩ := hout
  obtain ⟨p, out', hact, ack, hack, -, -, -, hset⟩ := hans 0
  rw [show Side.a.other = Side.b from rfl] at hact
  rw [hact] at hout
  obtain rfl : out' = out := Option.some.inj hout
  rw [hunset ack hack] at hset
  cases hset

end NetworkLayers
