import NetworkLayers.Lemmas.Stream
import Mathlib.Data.List.Forall2

/-!
# The sender's acknowledgements and window

The entries of `acks` stand for the packs of the stream from some place on, in order; an entry that is set, or taken off the
list, is one whose segment has arrived, as long as the ACKs that come are for segments that have. The window bounds the packs
not yet taken off.
-/

namespace NetworkLayers

open SeqSpace

/-- The entry for a pack; it is set only when the segment has arrived. -/
structure EntryOf (arrived : Segment → Prop) (k : SendSegment) (a : AckLst) : Prop where
  seqNum : a.seqNum = k.entryNum
  size : a.size = k.size
  flag : a.flag = true → arrived k.segment

section Entries

variable {arrived arrived' : Segment → Prop} {u : List SendSegment} {es : List AckLst}

theorem EntryOf.mono {k : SendSegment} {a : AckLst} (h : EntryOf arrived k a)
    (hmono : ∀ segment, arrived segment → arrived' segment) : EntryOf arrived' k a where
  seqNum := h.seqNum
  size := h.size
  flag := fun hflag => hmono _ (h.flag hflag)

/-- `in_seq` takes off entries of packs that have arrived, and returns their size. -/
theorem inSeq_entries (h : List.Forall₂ (EntryOf arrived) u es) :
    ∃ u₁ u₂, u = u₁ ++ u₂ ∧ List.Forall₂ (EntryOf arrived) u₂ (inSeq es).2 ∧ (inSeq es).1 = packSize u₁ ∧
      ∀ k ∈ u₁, arrived k.segment := by
  induction h with
  | nil => exact ⟨[], [], rfl, .nil, rfl, by simp⟩
  | @cons k a u es hka hrest ih =>
    unfold inSeq
    split
    · rename_i hflag
      obtain ⟨u₁, u₂, rfl, hu₂, hsize, harrived⟩ := ih
      refine ⟨k :: u₁, u₂, rfl, hu₂, by rw [packSize_cons, hsize, hka.size], ?_⟩
      intro k' hk'
      rcases List.mem_cons.1 hk' with rfl | hk'
      · exact hka.flag hflag
      · exact harrived k' hk'
    · exact ⟨[], k :: u, rfl, .cons hka hrest, rfl, by simp⟩

/-- `set_ack` for a number that only packs which have arrived wait for. -/
theorem setAck_entries {num : Nat} (h : List.Forall₂ (EntryOf arrived) u es)
    (hnum : ∀ k ∈ u, k.entryNum = num → arrived k.segment) : List.Forall₂ (EntryOf arrived) u (setAck es num) := by
  induction h with
  | nil => exact .nil
  | @cons k a u es hka hrest ih =>
    unfold setAck
    split
    · rename_i ha
      refine .cons ⟨hka.seqNum, hka.size, ?_⟩ hrest
      intro _
      exact hnum k List.mem_cons_self (by rw [← hka.seqNum, ha])
    · exact .cons hka (ih fun k' hk' => hnum k' (List.mem_cons_of_mem _ hk'))

/-- When `is_set` finds an entry set, a pack with its number has arrived. -/
theorem isSet_entries {k : SendSegment} (h : List.Forall₂ (EntryOf arrived) u es) (hset : isSet es k.entryNum = true)
    (hk : k ∈ u) : ∃ k' ∈ u, k'.entryNum = k.entryNum ∧ arrived k'.segment := by
  induction h with
  | nil => cases hk
  | @cons k₁ a u es hka hrest ih =>
    unfold isSet at hset
    split at hset
    · rename_i ha
      exact ⟨k₁, List.mem_cons_self, by rw [← hka.seqNum, ha], hka.flag hset⟩
    · rename_i ha
      rcases List.mem_cons.1 hk with rfl | hk
      · exact absurd hka.seqNum ha
      · obtain ⟨k', hk', hfound⟩ := ih hset hk
        exact ⟨k', List.mem_cons_of_mem _ hk', hfound⟩

/-- A pack that waits has its entry. -/
theorem exists_entry {k : SendSegment} (h : List.Forall₂ (EntryOf arrived) u es) (hk : k ∈ u) :
    ∃ a ∈ es, a.seqNum = k.entryNum := by
  induction h with
  | nil => cases hk
  | @cons k₁ a u es hka hrest ih =>
    rcases List.mem_cons.1 hk with rfl | hk
    · exact ⟨a, List.mem_cons_self, hka.seqNum⟩
    · obtain ⟨b, hb, hseq⟩ := ih hk
      exact ⟨b, List.mem_cons_of_mem _ hb, hseq⟩

end Entries

/-- The number a `seg_send_thread` looks up is the one its pack waits for, unless the segment ends at `MAX_SEQ_NUM`; then the
pack waits for 0. -/
theorem lookup_cases {k : SendSegment} (hseq : k.segment.seqNum < maxSeqNum) (hsize : k.size < maxSeqNum) :
    (k.segment.seqNum + k.size ≠ maxSeqNum ∧ k.lookup = k.entryNum) ∨
      (k.segment.seqNum + k.size = maxSeqNum ∧ k.entryNum = 0) := by
  unfold SendSegment.lookup SendSegment.entryNum nextSeqNum u32 maxSeqNum at *
  omega

/-- The number of the ACK for a segment that ends by `MAX_SEQ_NUM` is the one its pack waits for. -/
theorem ackNum_eq_entryNum {k : SendSegment} {pkt : Packet} (hsegment : pkt.segment = k.segment) (hdata : pkt.dataSize = k.size)
    (hle : k.segment.seqNum + k.size ≤ maxSeqNum) : pkt.ackNum = k.entryNum := by
  unfold Packet.ackNum SendSegment.entryNum nextSeqNum
  rw [hsegment, hdata, u32_of_lt (Nat.lt_of_le_of_lt hle (by decide))]

/-- The packs `d` of the stream are acknowledged and taken off `acks`, the packs `u` still have their entries, after the one of
the handshake `hs` that may still be there; what is set, taken off, or no longer sent has arrived; and `send_thread` keeps `u`
in the window. -/
structure Acked (q : Nat) (p : Endpoint) (arrived : Segment → Prop) (hs : List AckLst) (d u : List SendSegment) : Prop where
  stream : p.stream = d ++ u
  entries : ∃ es, p.sp.acks = hs ++ es ∧ List.Forall₂ (EntryOf arrived) u es
  handshake : hs = [] ∨ ∃ flag, hs = [{ seqNum := q, flag := flag, size := 0 }]
  removed : ∀ k ∈ d, arrived k.segment
  stopped : ∀ t ∈ p.segSends, t.stopped = true → t.pack.segment.flags = .dados → arrived t.pack.segment
  window : (p.sendThread.done = false ∧ p.sendThread.pc = .cons ∧ p.sendThread.windowPtr = 0 ∧ packSize u = 0) ∨
    (p.sendThread.done = true ∧ p.sendThread.segmentSize ≤ p.sp.windowSize ∧
      ((p.sendThread.pc ≠ .window ∧ packSize u = p.sendThread.windowPtr ∧
          p.sendThread.windowPtr + p.sendThread.segmentSendSize ≤ p.sp.windowSize) ∨
        (p.sendThread.pc = .window ∧ packSize u = p.sp.windowSize)))

theorem Acked.mono {q : Nat} {p : Endpoint} {arrived arrived' : Segment → Prop} {hs : List AckLst} {d u : List SendSegment}
    (h : Acked q p arrived hs d u) (hmono : ∀ segment, arrived segment → arrived' segment) : Acked q p arrived' hs d u where
  stream := h.stream
  entries := by
    obtain ⟨es, hacks, hes⟩ := h.entries
    exact ⟨es, hacks, hes.imp fun _ _ hka => hka.mono hmono⟩
  handshake := h.handshake
  removed := fun k hk => hmono _ (h.removed k hk)
  stopped := fun t ht hstopped hflags => hmono _ (h.stopped t ht hstopped hflags)
  window := h.window

namespace AcksAux

variable {q : Nat} {p : Endpoint} {arrived : Segment → Prop} {hs : List AckLst} {d u : List SendSegment}

/-- `in_seq`, with the entry of the handshake in front. -/
theorem inSeq_acks {es : List AckLst} (hhs : hs = [] ∨ ∃ flag, hs = [{ seqNum := q, flag := flag, size := 0 }])
    (hes : List.Forall₂ (EntryOf arrived) u es) :
    ∃ hs' u₁ u₂ es', (hs' = [] ∨ ∃ flag, hs' = [{ seqNum := q, flag := flag, size := 0 }]) ∧ u = u₁ ++ u₂ ∧
      (inSeq (hs ++ es)).2 = hs' ++ es' ∧ List.Forall₂ (EntryOf arrived) u₂ es' ∧ (inSeq (hs ++ es)).1 = packSize u₁ ∧
      ∀ k ∈ u₁, arrived k.segment := by
  obtain ⟨u₁, u₂, hu, hu₂, hsize, harrived⟩ := inSeq_entries hes
  rcases hhs with rfl | ⟨flag, rfl⟩
  · exact ⟨[], u₁, u₂, _, Or.inl rfl, hu, rfl, hu₂, hsize, harrived⟩
  · cases flag with
    | false => exact ⟨_, [], u, es, Or.inr ⟨false, rfl⟩, rfl, rfl, hes, rfl, by simp⟩
    | true => exact ⟨[], u₁, u₂, _, Or.inl rfl, hu, rfl, hu₂, by simpa [inSeq] using hsize, harrived⟩

/-- `set_ack`, with the entry of the handshake in front. -/
theorem setAck_acks {es : List AckLst} {num : Nat} (hhs : hs = [] ∨ ∃ flag, hs = [{ seqNum := q, flag := flag, size := 0 }])
    (hes : List.Forall₂ (EntryOf arrived) u es) (hnum : ∀ k ∈ u, k.entryNum = num → arrived k.segment) :
    ∃ hs' es', (hs' = [] ∨ ∃ flag, hs' = [{ seqNum := q, flag := flag, size := 0 }]) ∧
      setAck (hs ++ es) num = hs' ++ es' ∧ List.Forall₂ (EntryOf arrived) u es' := by
  rcases hhs with rfl | ⟨flag, rfl⟩
  · exact ⟨[], _, Or.inl rfl, rfl, setAck_entries hes hnum⟩
  · by_cases hq : q = num
    · exact ⟨_, es, Or.inr ⟨true, rfl⟩, by simp [setAck, hq], hes⟩
    · exact ⟨_, _, Or.inr ⟨flag, rfl⟩, by simp [setAck, hq], setAck_entries hes hnum⟩

/-- When `is_set` finds the entry of a pack set, or does not find it, the segment has arrived. -/
theorem arrived_of_isSet (h : Acked q p arrived hs d u) (hq : q < maxSeqNum) (hnum : Numbered q p.stream)
    (hsum : packSize p.stream < maxSeqNum) {k : SendSegment} (hk : k ∈ p.stream) (hset : isSet p.sp.acks k.entryNum = true) :
    arrived k.segment := by
  have hne := hnum.entryNum_ne hq hsum hk
  obtain ⟨es, hacks, hes⟩ := h.entries
  have hset' : isSet es k.entryNum = true := by
    rw [hacks] at hset
    rcases h.handshake with rfl | ⟨flag, rfl⟩
    · exact hset
    · simpa [isSet, hne.symm] using hset
  have hsplit := hk
  rw [h.stream] at hsplit
  rcases List.mem_append.1 hsplit with hd | hu
  · exact h.removed k hd
  · obtain ⟨k', hk', heq, harrived⟩ := isSet_entries hes hset' hu
    have hk'' : k' ∈ p.stream := by
      rw [h.stream]
      exact List.mem_append_right _ hk'
    rwa [hnum.eq_of_entryNum_eq hq hsum hk'' hk heq] at harrived

/-- When a thread that sends a pack of the stream stops, the segment has arrived. -/
theorem arrived_of_lookup (h : Acked q p arrived hs d u) (hq : q < maxSeqNum) (hnum : Numbered q p.stream)
    (hsum : packSize p.stream < maxSeqNum) {k : SendSegment} (hk : k ∈ p.stream) (hset : isSet p.sp.acks k.lookup = true)
    (hstop : k.segment.seqNum + k.size = maxSeqNum → isSet p.sp.acks 0 = true) : arrived k.segment := by
  obtain ⟨hseq, hsize⟩ := hnum.lt hq hsum hk
  refine arrived_of_isSet h hq hnum hsum hk ?_
  rcases lookup_cases hseq hsize with ⟨-, heq⟩ | ⟨hend, hzero⟩
  · rw [← heq]
    exact hset
  · rw [hzero]
    exact hstop hend

/-- The ACK of the handshake, or one for a segment that has arrived. -/
theorem acked_setAck (h : Acked q p arrived hs d u) (hq : q < maxSeqNum) (hnum : Numbered q p.stream)
    (hsum : packSize p.stream < maxSeqNum) {num : Nat}
    (hack : num = q ∨ ∃ k ∈ p.stream, num = k.entryNum ∧ arrived k.segment) :
    ∃ hs', Acked q { p with sp := { p.sp with acks := setAck p.sp.acks num } } arrived hs' d u := by
  have harrived : ∀ k ∈ u, k.entryNum = num → arrived k.segment := by
    intro k hk heq
    have hk' : k ∈ p.stream := by
      rw [h.stream]
      exact List.mem_append_right _ hk
    rcases hack with hhandshake | ⟨k', hmem, hentry, harrived⟩
    · exact absurd (heq.trans hhandshake) (hnum.entryNum_ne hq hsum hk')
    · rwa [hnum.eq_of_entryNum_eq hq hsum hk' hmem (heq.trans hentry)]
  obtain ⟨es, hacks, hes⟩ := h.entries
  obtain ⟨hs', es', hhs', hset, hes'⟩ := setAck_acks h.handshake hes harrived
  exact ⟨hs', h.stream, ⟨es', by rw [← hset, ← hacks], hes'⟩, hhs', h.removed, h.stopped, h.window⟩

/-- What the window says inside the loop over the buffer. -/
theorem window_of_segment (h : Acked q p arrived hs d u) (hpc : p.sendThread.pc = .segment) :
    p.sendThread.done = true ∧ p.sendThread.segmentSize ≤ p.sp.windowSize ∧ packSize u = p.sendThread.windowPtr ∧
      p.sendThread.windowPtr + p.sendThread.segmentSendSize ≤ p.sp.windowSize := by
  rcases h.window with ⟨-, hcons, -⟩ | ⟨hdone, hseg, ⟨-, hptr, hle⟩ | ⟨hwindow, -⟩⟩
  · rw [hpc] at hcons
    cases hcons
  · exact ⟨hdone, hseg, hptr, hle⟩
  · rw [hpc] at hwindow
    cases hwindow

/-- The next size stays in the window. -/
theorem add_nextSize_le {t : SendThread} {windowSize windowPtr : Nat} (hptr : windowPtr < windowSize) (hw : windowSize < 65536)
    (hpos : 0 < windowPtr) : windowPtr + t.nextSize windowSize windowPtr ≤ windowSize := by
  unfold SendThread.nextSize u16
  split <;> omega

/-- The pack `send_thread` builds, its entry and its thread. -/
theorem sendSegment_spec (here : Addr) (p : Endpoint) : ∃ k : SendSegment, k.size = p.sendThread.size ∧
    (p.sendSegment here).stream = p.stream ++ [k] ∧
    (p.sendSegment here).sp.acks = p.sp.acks ++ [{ seqNum := k.entryNum, flag := false, size := k.size }] ∧
    (p.sendSegment here).segSends = p.segSends ++ [{ pack := k, started := false, stopped := false }] :=
  ⟨_, rfl, stream_spawn (Or.inl rfl), rfl, rfl⟩

theorem acked_segment (h : Acked q p arrived hs d u) (hsends : Sends q p) (here : Addr) (hpc : p.sendThread.pc = .segment)
    (hsize : p.sendThread.sendSize ≠ 0) : ∃ u', Acked q (p.sendSegment here) arrived hs d u' := by
  obtain ⟨hpos, -⟩ := StreamAux.size_spec hsends hpc hsize
  have hle := SendThread.size_le p.sendThread
  obtain ⟨hW, hW'⟩ := hsends.window
  obtain ⟨hdone, hseg, hptr, hroom⟩ := window_of_segment h hpc
  obtain ⟨es, hacks, hes⟩ := h.entries
  obtain ⟨k, hk, hstream, hacks', hsegSends⟩ := sendSegment_spec here p
  have hentry : EntryOf arrived k { seqNum := k.entryNum, flag := false, size := k.size } :=
    ⟨rfl, rfl, fun hflag => by cases hflag⟩
  have hes' := List.rel_append hes (.cons hentry .nil)
  refine ⟨u ++ [k], ?_, ⟨es ++ [{ seqNum := k.entryNum, flag := false, size := k.size }], ?_, hes'⟩, h.handshake,
    h.removed, ?_, Or.inr ⟨?_, ?_, ?_⟩⟩
  · rw [hstream, h.stream, List.append_assoc]
  · rw [hacks', hacks, List.append_assoc]
  · intro t ht hstopped hflags
    rw [hsegSends] at ht
    rcases List.mem_append.1 ht with ht | ht
    · exact h.stopped t ht hstopped hflags
    · obtain rfl := List.mem_singleton.1 ht
      cases hstopped
  · simp only [Endpoint.sendSegment]
    split <;> exact hdone
  · simp only [Endpoint.sendSegment]
    split <;> exact hseg
  · rw [packSize_append, packSize_cons, packSize_nil, hptr, hk]
    by_cases hfull : p.sendThread.windowPtr + p.sendThread.size = p.sp.windowSize
    · -- the window is full
      have hzero : (p.sendThread.windowPtr + p.sendThread.size) % p.sp.windowSize = 0 := by rw [hfull, Nat.mod_self]
      simp only [Endpoint.sendSegment, hzero, if_true]
      exact Or.inr ⟨trivial, hfull⟩
    · have hmod : (p.sendThread.windowPtr + p.sendThread.size) % p.sp.windowSize = p.sendThread.windowPtr + p.sendThread.size :=
        Nat.mod_eq_of_lt (by omega)
      have hne : p.sendThread.windowPtr + p.sendThread.size ≠ 0 := by omega
      simp only [Endpoint.sendSegment, hmod, if_neg hne]
      exact Or.inl ⟨by rw [hpc]; decide, rfl, add_nextSize_le (by omega) hW' (by omega)⟩

theorem acked_window (h : Acked q p arrived hs d u) (hsends : Sends q p) (hpc : p.sendThread.pc = .window) :
    ∃ hs' d' u', Acked q p.sendThreadWindow arrived hs' d' u' := by
  obtain ⟨hW, hW'⟩ := hsends.window
  obtain ⟨es, hacks, hes⟩ := h.entries
  obtain ⟨hs', u₁, u₂, es', hhs', hu, hrest, hes', hmove, harrived⟩ := inSeq_acks h.handshake hes
  rw [← hacks] at hrest hmove
  obtain ⟨hdone, hseg, hfull⟩ : p.sendThread.done = true ∧ p.sendThread.segmentSize ≤ p.sp.windowSize ∧
      packSize u = p.sp.windowSize := by
    rcases h.window with ⟨-, hcons, -⟩ | ⟨hdone, hseg, ⟨hne, -⟩ | ⟨-, hfull⟩⟩
    · rw [hpc] at hcons
      cases hcons
    · exact absurd hpc hne
    · exact ⟨hdone, hseg, hfull⟩
  rw [hu, packSize_append] at hfull
  refine ⟨hs', d ++ u₁, u₂, ?_, ⟨es', hrest, hes'⟩, hhs', ?_, h.stopped, Or.inr ?_⟩
  · show p.stream = _
    rw [h.stream, hu, List.append_assoc]
  · intro k hk
    rcases List.mem_append.1 hk with hk | hk
    · exact h.removed k hk
    · exact harrived k hk
  · simp only [Endpoint.sendThreadWindow, hmove]
    by_cases hzero : packSize u₁ = 0
    · simp only [hzero, if_true]
      exact ⟨hdone, hseg, Or.inr ⟨hpc, by omega⟩⟩
    · simp only [if_neg hzero]
      refine ⟨hdone, hseg, Or.inl ⟨by simp, ?_, ?_⟩⟩
      · unfold u16
        omega
      · unfold u16
        split <;> omega

theorem acked_set (h : Acked q p arrived hs d u) {i : Nat} {t t' : SegSend} (ht : p.segSends[i]? = some t)
    (hpack : t'.pack = t.pack) (hstopped : t'.stopped = true → t.stopped = false → t.pack.segment.flags = .dados →
      arrived t.pack.segment) : Acked q { p with segSends := p.segSends.set i t' } arrived hs d u := by
  refine ⟨(stream_set ht hpack).trans h.stream, h.entries, h.handshake, h.removed, ?_, h.window⟩
  intro a ha hstop hflags
  rcases List.mem_or_eq_of_mem_set ha with ha | rfl
  · exact h.stopped a ha hstop hflags
  · rw [hpack] at hflags ⊢
    cases hold : t.stopped with
    | true => exact h.stopped t (List.mem_of_getElem? ht) hold hflags
    | false => exact hstopped hstop hold hflags

theorem acked_takeBuffer (h : Acked q p arrived hs d u) (hpc : p.sendThread.pc = .cons) :
    Acked q p.takeBuffer arrived hs d u := by
  refine ⟨h.stream, h.entries, h.handshake, h.removed, h.stopped, Or.inr ⟨rfl, ?_⟩⟩
  rcases h.window with ⟨hdone, -, hptr, hsize⟩ | ⟨hdone, hseg, ⟨-, hptr, hle⟩ | ⟨hwindow, -⟩⟩
  · have hfirst : (if p.sp.windowSize < maxSegmentSize then p.sp.windowSize else maxSegmentSize) ≤ p.sp.windowSize := by
      split <;> omega
    simp only [Endpoint.takeBuffer, hdone, Bool.false_eq_true, if_false, hptr, hsize, Nat.zero_add]
    exact ⟨hfirst, Or.inl ⟨by simp, trivial, hfirst⟩⟩
  · simp only [Endpoint.takeBuffer, hdone, if_true]
    exact ⟨hseg, Or.inl ⟨by simp, hptr, hle⟩⟩
  · rw [hpc] at hwindow
    cases hwindow

end AcksAux

/-- In a connection that is not closed, a step of the sender keeps what is said of its acknowledgements, when an ACK that
arrives changes nothing, is the one of the handshake, or is for a segment that has arrived, and when a thread whose segment ends
at `MAX_SEQ_NUM` stops only once 0 is set. -/
theorem Acked.step {q : Nat} {here : Addr} {p p' : Endpoint} {act : PointAction} {out : List Packet} {arrived : Segment → Prop}
    {hs : List AckLst} {d u : List SendSegment} (h : Acked q p arrived hs d u) (hsends : Sends q p) (hq : q < maxSeqNum)
    (hsum : packSize p.stream < maxSeqNum) (hdoes : p.Does here act p' out)
    (hf : p.sp.flagCon = .comConexao ∨ p.sp.flagCon = .encerrando) (hclose : act ≠ .closeConn)
    (hfin : ∀ pkt rnd, act = .recvThread pkt rnd → pkt.segment.flags ≠ .fin)
    (hack : ∀ pkt rnd, act = .recvThread pkt rnd → pkt.segment.flags = .ack →
      isSet p.sp.acks pkt.segment.ackNum = true ∨ pkt.segment.ackNum = q ∨
        ∃ k ∈ p.stream, pkt.segment.ackNum = k.entryNum ∧ arrived k.segment)
    (hstop : ∀ i t, act = .segSendThread i → p.segSends[i]? = some t → t.started = true → t.pack.segment.flags = .dados →
      t.pack.segment.seqNum + t.pack.size = maxSeqNum → isSet p.sp.acks 0 = true) :
    ∃ hs' d' u', Acked q p' arrived hs' d' u' := by
  cases hdoes with
  | sync _ _ _ _ _ hf' => exact absurd hf' (FlagCon.ne_of_inConnection hf).1
  | acceptSync _ _ _ _ hf' => exact absurd hf' (FlagCon.ne_of_inConnection hf).1
  | acceptSyncAck _ _ _ _ hf' => exact absurd hf' (FlagCon.ne_of_inConnection hf).2
  | finInConnection pkt rnd hflags => exact absurd hflags (hfin pkt rnd rfl)
  | finWhileClosing pkt rnd hflags => exact absurd hflags (hfin pkt rnd rfl)
  | close => exact absurd rfl hclose
  | segment hpc hsize =>
    obtain ⟨u', hu'⟩ := AcksAux.acked_segment h hsends here hpc hsize
    exact ⟨hs, d, u', hu'⟩
  | window hpc => exact AcksAux.acked_window h hsends hpc
  | takeBuffer hpc => exact ⟨hs, d, u, AcksAux.acked_takeBuffer h hpc⟩
  | bufferSent hpc =>
    obtain ⟨hdone, hseg, hptr, hle⟩ := AcksAux.window_of_segment h hpc
    exact ⟨hs, d, u, h.stream, h.entries, h.handshake, h.removed, h.stopped,
      Or.inr ⟨hdone, hseg, Or.inl ⟨by simp [Endpoint.bufferSent], hptr, hle⟩⟩⟩
  | firstSend i t ht => exact ⟨hs, d, u, AcksAux.acked_set h ht rfl fun hnew hold _ => absurd hnew (by simp [hold])⟩
  | acked i t ht hstarted hset =>
    refine ⟨hs, d, u, AcksAux.acked_set h ht rfl ?_⟩
    intro _ _ hflags
    exact AcksAux.arrived_of_lookup h hq hsends.numbered hsum (mem_stream_of_mem (List.mem_of_getElem? ht) hflags) hset
      (hstop i t rfl ht hstarted hflags)
  | ack pkt rnd hflags =>
    rcases hack pkt rnd rfl hflags with hset | hnum
    · rw [setAck_of_isSet hset]
      exact ⟨hs, d, u, h⟩
    · obtain ⟨hs', hacked⟩ := AcksAux.acked_setAck h hq hsends.numbered hsum hnum
      exact ⟨hs', d, u, hacked⟩
  | _ => exact ⟨hs, d, u, h.stream, h.entries, h.handshake, h.removed, h.stopped, h.window⟩

end NetworkLayers
