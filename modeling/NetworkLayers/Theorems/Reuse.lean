import NetworkLayers.Transport.Reuse
import NetworkLayers.Lemmas.Lists
import NetworkLayers.Lemmas.Session
import Mathlib.Data.List.Perm.Basic

/-!
# What a service point keeps of an old connection

A service point whose connections are each opened in a point that is ready for it, and closed with room for the FIN, sends and holds
nothing of an old one. What a step adds to the lists is followed first, then the window of `send_thread`, and both are put together
over a run of any number of connections.
-/

namespace NetworkLayers

open Transition

namespace ReuseAux

variable {here : Addr} {p p' : Endpoint} {act : PointAction} {out : List Packet}

/-! ## Lists -/

/-- What is added behind a list is behind the end of another one as well. -/
theorem suffix_append_right {α : Type*} {l m : List α} (h : l <:+ m) (new : List α) : l ++ new <:+ m ++ new := by
  obtain ⟨t, rfl⟩ := h
  exact ⟨t, (List.append_assoc t l new).symm⟩

/-- A part of a list taken out counts no longer. -/
theorem sum_eraseIdx {α : Type*} {l : List α} {i : Nat} {a : α} (f : α → Nat) (ha : l[i]? = some a) :
    f a + ((l.eraseIdx i).map f).sum = (l.map f).sum := by
  obtain ⟨hi, rfl⟩ := List.getElem?_eq_some_iff.1 ha
  exact ((List.getElem_cons_eraseIdx_perm hi).map f).sum_nat

theorem restOf_of_eq {e : SegLst} {m : Segment} (h : e.segm = m) : e.RestOf m := by
  subst h
  exact ⟨rfl, List.suffix_refl _⟩

theorem restOf_trans {e e' : SegLst} {m : Segment} (h : e.RestOf e'.segm) (h' : e'.RestOf m) : e.RestOf m :=
  ⟨h.1.trans h'.1, h.2.trans h'.2⟩

/-- An entry that `recv_seg` leaves is one of the list, or the rest of one. -/
theorem restOf_recvSeg {l : List SegLst} {size : Nat} {e : SegLst} (he : e ∈ (recvSeg l size).1) :
    ∃ e' ∈ l, e.RestOf e'.segm := by
  induction l generalizing size with
  | nil => cases he
  | cons a l ih =>
    unfold recvSeg at he
    split at he
    · exact ⟨e, he, restOf_of_eq rfl⟩
    · split at he
      · obtain ⟨e', he', hrest⟩ := ih he
        exact ⟨e', List.mem_cons_of_mem _ he', hrest⟩
      · rcases List.mem_cons.1 he with rfl | he
        · exact ⟨a, List.mem_cons_self, rfl, List.drop_suffix _ _⟩
        · exact ⟨e, List.mem_cons_of_mem _ he, restOf_of_eq rfl⟩

/-! ## What a step adds -/

/-- A step opens a connection. -/
def Opens (p p' : Endpoint) : Prop := p.sp.flagCon = .semConexao ∧ p'.sp.flagCon ≠ .semConexao

/-- What opening a connection with a window does: the one segment it builds carries no data, and its entry stands for no bytes. -/
structure Opened (p p' : Endpoint) (windowSize : Nat) (t : SegSend) (a : AckLst) : Prop where
  windowSize : p'.sp.windowSize = windowSize
  segSends : p'.segSends = p.segSends ++ [t]
  flags : t.pack.segment.flags ≠ .dados
  acks : p'.sp.acks = p.sp.acks ++ [a]
  entry : a.entry = t.pack.entry
  size : a.size = 0
  segs : p'.sp.segs ++ p'.sp.segsAux = p.sp.segs ++ p.sp.segsAux
  taken : p'.history.taken = p.history.taken
  sendThread : p'.sendThread = p.sendThread
  flagCon : p'.sp.flagCon = .estabelecendo ∨ p'.sp.flagCon = .comConexao

/-- Only `connect_point` and `sync_thread` open one, and a further one only in a point that is ready for it. -/
theorem does_opens (h : p.Does here act p' out) (hopens : Opens p p') :
    ∃ windowSize t a, Opened p p' windowSize t a ∧
      ∀ s : Reuse, s.point = p → CleanReuse s act → s.opened ≠ 0 → p.ReadyFor windowSize := by
  obtain ⟨hf, hf'⟩ := hopens
  cases h with
  | sync dest destPoint windowSize rnd =>
    refine ⟨u16 windowSize, _, _, ⟨rfl, rfl, ?_, rfl, rfl, rfl, rfl, rfl, rfl, Or.inl rfl⟩, ?_⟩
    · simp
    · rintro s rfl hok hne
      exact hok hne hf
  | acceptSync pkt rnd hflags =>
    refine ⟨pkt.segment.windowSize, _, _, ⟨rfl, rfl, ?_, rfl, rfl, rfl, rfl, rfl, rfl, Or.inr rfl⟩, ?_⟩
    · simp
    · rintro s rfl hok hne
      exact hok.1 hflags hne hf
  | close _ hcon | finInConnection _ _ _ _ hcon => rw [hf] at hcon; cases hcon
  | acceptSyncAck _ _ _ _ hcon => rw [hf] at hcon; cases hcon
  | finWhileClosing _ _ _ _ hcon => rw [hf] at hcon; cases hcon
  | _ => exact absurd hf hf'

/-- A step within a connection adds to `acks` the entries of the segments it builds, of which data is the next segment of
`send_thread`. -/
theorem does_entries (h : p.Does here act p' out) (hopens : ¬Opens p p') :
    p'.sp.windowSize = p.sp.windowSize ∧ ∃ new, p'.packs = p.packs ++ new ∧
      p'.sp.acks.map AckLst.entry <:+ p.sp.acks.map AckLst.entry ++ new.map SendSegment.entry ∧
      ∀ k ∈ new, k.segment.flags = .dados →
        k.size = p.sendThread.size ∧ p.sendThread.pc = .segment ∧ p.sp.windowSize ≠ 0 := by
  have hsame : p.sp.acks.map AckLst.entry <:+ p.sp.acks.map AckLst.entry ++ List.map SendSegment.entry [] := by
    simp
  cases h with
  | sync _ _ _ _ _ hf => exact absurd ⟨hf, by simp [Endpoint.sendSync, Endpoint.spawn]⟩ hopens
  | acceptSync _ _ _ _ hf =>
    exact absurd ⟨hf, by simp [Endpoint.acceptSync, Endpoint.connected, Endpoint.spawn]⟩ hopens
  | close | finInConnection =>
    refine ⟨rfl, [_], List.map_append, ?_, ?_⟩
    · exact ⟨[], List.map_append⟩
    · intro k hk hdados
      obtain rfl := List.mem_singleton.1 hk
      cases hdados
  | segment hpc _ hw =>
    refine ⟨rfl, [_], List.map_append, ?_, ?_⟩
    · exact ⟨[], List.map_append⟩
    · intro k hk _
      obtain rfl := List.mem_singleton.1 hk
      exact ⟨rfl, hpc, hw⟩
  | window =>
    refine ⟨rfl, [], (List.append_nil _).symm, ?_, by simp⟩
    rw [List.map_nil, List.append_nil]
    exact (inSeq_suffix _).map _
  | ack pkt | acceptSyncAck pkt =>
    refine ⟨rfl, [], (List.append_nil _).symm, ?_, by simp⟩
    rw [List.map_nil, List.append_nil]
    exact ⟨[], map_setAck (fun _ => rfl) _ _⟩
  | firstSend i t ht | acked i t ht =>
    exact ⟨rfl, [], by rw [List.append_nil]; exact packs_set ht rfl, hsame, by simp⟩
  | _ => exact ⟨rfl, [], (List.append_nil _).symm, hsame, by simp⟩

/-- What is in `segs` and `segs_aux` after a step was there before, or is data that the step has taken. -/
theorem does_segs (h : p.Does here act p' out) :
    ∃ new, p'.history.taken = p.history.taken ++ new ∧ ∀ e ∈ p'.sp.segs ++ p'.sp.segsAux,
      (∃ e' ∈ p.sp.segs ++ p.sp.segsAux, e.RestOf e'.segm) ∨ ∃ m ∈ new, m.flags = .dados ∧ e.RestOf m := by
  have hsame : ∀ e ∈ p.sp.segs ++ p.sp.segsAux, ∀ new : List Segment,
      (∃ e' ∈ p.sp.segs ++ p.sp.segsAux, e.RestOf e'.segm) ∨ ∃ m ∈ new, m.flags = .dados ∧ e.RestOf m :=
    fun e he _ => Or.inl ⟨e, he, restOf_of_eq rfl⟩
  cases h with
  | recv size =>
    refine ⟨[], (List.append_nil _).symm, ?_⟩
    intro e he
    rcases List.mem_append.1 he with he | he
    · obtain ⟨e', he', hrest⟩ := restOf_recvSeg he
      exact Or.inl ⟨e', List.mem_append_left _ he', hrest⟩
    · exact hsame e (List.mem_append_right _ he) []
  | add pkt _ hflags =>
    refine ⟨[pkt.segment], rfl, ?_⟩
    intro e he
    rcases mem_insertSeg he with he | heq
    · exact hsame e he _
    · exact Or.inr ⟨_, List.mem_singleton_self _, hflags, restOf_of_eq heq⟩
  | acceptSyncAck pkt => exact ⟨[pkt.segment], rfl, fun e he => hsame e he _⟩
  | finInConnection pkt | finWhileClosing pkt => exact ⟨[pkt.segment], rfl, fun e he => hsame e he _⟩
  | _ => exact ⟨[], (List.append_nil _).symm, fun e he => hsame e he _⟩

/-! ## The window of send_thread -/

/-- What is true of `send_thread` in every connection: its segments are no longer than `MAX_SEGMENT_SIZE`, before it has sent anything
it is at its start, and the buffer is in one place only. -/
structure Steady (p : Endpoint) : Prop where
  segmentSize : p.sendThread.segmentSize ≤ maxSegmentSize
  windowSize : p.sp.windowSize < 65536
  undone : p.sendThread.done = false → p.sendThread.windowPtr = 0
  busy : p.sendThread.pc ≠ .cons → p.sendThread.done = true ∧ p.sp.mutexProd = true ∧ p.sp.mutexCons = true
  idle : p.sendThread.pc = .cons → p.sendThread.sendSize = 0
  handed : p.sp.mutexProd = false → p.sp.mutexCons = true

theorem first_le (w : Nat) : (if w < maxSegmentSize then w else maxSegmentSize) ≤ min w maxSegmentSize := by
  split <;> omega

theorem steady_alloc : Steady allocServicePoint :=
  ⟨by decide, by decide, fun _ => rfl, fun hpc => absurd rfl hpc, fun _ => rfl, fun _ => rfl⟩

theorem steady_step (h : Steady p) (hdoes : p.Does here act p' out)
    (hfits : ∀ pkt rnd, act = .recvThread pkt rnd → pkt.segment.flags = .sync → p.sp.flagCon = .semConexao →
      pkt.segment.windowSize < 65536) : Steady p' := by
  cases hdoes with
  | sync => exact ⟨h.segmentSize, Nat.mod_lt _ (by decide), h.undone, h.busy, h.idle, h.handed⟩
  | acceptSync pkt rnd hflags _ hf => exact ⟨h.segmentSize, hfits pkt rnd rfl hflags hf, h.undone, h.busy, h.idle, h.handed⟩
  | deposit i buf hfree =>
    have hcons : p.sendThread.pc = .cons := by
      by_contra hpc
      rw [(h.busy hpc).2.1] at hfree
      cases hfree
    exact ⟨h.segmentSize, h.windowSize, h.undone, fun hpc => absurd hcons hpc, h.idle, fun hlocked => by cases hlocked⟩
  | takeBuffer hpc hcons =>
    have hprod : p.sp.mutexProd = true := by
      by_contra hfree
      rw [h.handed (by simpa using hfree)] at hcons
      cases hcons
    refine ⟨?_, h.windowSize, fun hdone => (by cases hdone), fun _ => ⟨rfl, hprod, rfl⟩, fun hcons' => (by cases hcons'),
      fun _ => rfl⟩
    have hfirst := first_le p.sp.windowSize
    have hold := h.segmentSize
    simp only [Endpoint.takeBuffer]
    split
    · exact hold
    · exact hfirst.trans (min_le_right _ _)
  | segment hpc =>
    have hbusy := h.busy (by rw [hpc]; decide)
    simp only [Endpoint.sendSegment]
    refine ⟨?_, h.windowSize, ?_, ?_, ?_, h.handed⟩
    · split <;> exact h.segmentSize
    · intro hdone
      split at hdone <;> exact absurd (hbusy.1.symm.trans hdone) (by decide)
    · intro _
      split <;> exact hbusy
    · intro hcons
      split at hcons
      · cases hcons
      · exact absurd (hpc.symm.trans hcons) (by decide)
  | bufferSent hpc hsize =>
    have hbusy := h.busy (by rw [hpc]; decide)
    exact ⟨h.segmentSize, h.windowSize, h.undone, fun hne => absurd rfl hne, fun _ => hsize, fun _ => hbusy.2.2⟩
  | window hpc =>
    have hbusy := h.busy (by rw [hpc]; decide)
    simp only [Endpoint.sendThreadWindow]
    refine ⟨?_, h.windowSize, ?_, ?_, ?_, h.handed⟩
    · split <;> exact h.segmentSize
    · intro hdone
      split at hdone <;> exact absurd (hbusy.1.symm.trans hdone) (by decide)
    · intro _
      split <;> exact hbusy
    · intro hcons
      split at hcons
      · exact absurd (hpc.symm.trans hcons) (by decide)
      · cases hcons
  | _ => exact ⟨h.segmentSize, h.windowSize, h.undone, h.busy, h.idle, h.handed⟩

/-- The bytes in flight and the pointer of the window. While a connection is open, the pointer is behind what is in flight and the
next segment fits between it and the end of the window; once it is closed, what is still to be sent fits in the window as well. -/
structure Flows (p : Endpoint) : Prop where
  flight : p.sp.inFlight ≤ p.sp.windowSize
  next : p.sendThread.pc ≠ .window → p.sendThread.done = true → p.sp.windowSize ≠ 0 →
    p.sendThread.segmentSendSize ≤ min p.sp.windowSize maxSegmentSize
  opened : p.sp.flagCon = .estabelecendo ∨ p.sp.flagCon = .comConexao → p.sendThread.pc ≠ .window → p.sp.windowSize ≠ 0 →
    p.sp.inFlight ≤ p.sendThread.windowPtr % p.sp.windowSize ∧
      (p.sendThread.done = true → p.sendThread.windowPtr % p.sp.windowSize + p.sendThread.segmentSendSize ≤ p.sp.windowSize)
  closed : p.sp.flagCon = .semConexao ∨ p.sp.flagCon = .encerrando → p.sp.inFlight + p.toSend ≤ p.sp.windowSize

theorem inFlight_insertAck (l : List AckLst) (a : AckLst) :
    ((insertAck l a).map (·.size)).sum = (l.map (·.size)).sum + a.size := by
  rw [insertAck, List.map_append, List.sum_append]
  rfl

/-- `set_ack` takes nothing out of flight. -/
theorem inFlight_setAck (l : List AckLst) (num : Nat) : ((setAck l num).map (·.size)).sum = (l.map (·.size)).sum := by
  rw [map_setAck fun _ => rfl]

/-- The segment after the next fits between the pointer and the end of the window, too. -/
theorem nextSize_le {t : SendThread} {w ptr : Nat} (hseg : t.segmentSize ≤ maxSegmentSize) (hptr : ptr < w) (hw : w < 65536) :
    t.nextSize w ptr ≤ maxSegmentSize ∧ ptr + t.nextSize w ptr ≤ w := by
  unfold SendThread.nextSize u16
  split <;> omega

/-- A segment moves the pointer on, or to the end of the window. -/
theorem move_ptr {w ptr size : Nat} (hle : ptr % w + size ≤ w) (hne : (ptr + size) % w ≠ 0) :
    (ptr + size) % w = ptr % w + size := by
  have hmod : (ptr + size) % w = (ptr % w + size) % w := by rw [Nat.mod_add_mod]
  rcases Nat.lt_or_eq_of_le hle with hlt | heq
  · rw [hmod, Nat.mod_eq_of_lt hlt]
  · rw [hmod, heq, Nat.mod_self] at hne
    exact absurd rfl hne

/-- `send_thread` takes what is to be sent, and no more. -/
theorem toSend_takeBuffer (hsteady : Steady p) (hpc : p.sendThread.pc = .cons) (hcons : p.sp.mutexCons = false) :
    p.takeBuffer.toSend = p.toSend := by
  simp only [Endpoint.toSend, Endpoint.takeBuffer, hsteady.idle hpc, hcons]
  simp

theorem toSend_sendThreadWindow (p : Endpoint) : p.sendThreadWindow.toSend = p.toSend := by
  simp only [Endpoint.toSend, Endpoint.sendThreadWindow]
  split <;> rfl

/-- What a call of `send_point` puts into the buffer was waiting before. -/
theorem toSend_deposit (hsteady : Steady p) {i : Nat} {buf : List Byte} (hbuf : p.waiting[i]? = some buf)
    (hfree : p.sp.mutexProd = false) : (p.deposit i buf).toSend = p.toSend := by
  have hsum := sum_eraseIdx List.length hbuf
  simp only [Endpoint.toSend, Endpoint.deposit, hsteady.handed hfree, if_true, ← hsum]
  simp
  omega

/-- `send_thread` starts on a buffer. -/
theorem flows_takeBuffer (h : Flows p) (hsteady : Steady p) (hpc : p.sendThread.pc = .cons) (hcons : p.sp.mutexCons = false) :
    Flows p.takeBuffer := by
  have hne : p.sendThread.pc ≠ .window := by rw [hpc]; decide
  have hfirst := first_le p.sp.windowSize
  refine ⟨h.flight, ?_, ?_, ?_⟩
  · intro _ _ hw
    simp only [Endpoint.takeBuffer]
    split
    · rename_i hdone
      exact h.next hne hdone hw
    · exact hfirst
  · intro hf _ hw
    obtain ⟨hin, hroom⟩ := h.opened hf hne hw
    refine ⟨hin, fun _ => ?_⟩
    simp only [Endpoint.takeBuffer]
    split
    · rename_i hdone
      exact hroom hdone
    · rename_i hdone
      rw [hsteady.undone (by simpa using hdone), Nat.zero_mod, Nat.zero_add]
      exact hfirst.trans (min_le_left _ _)
  · intro hf
    rw [toSend_takeBuffer hsteady hpc hcons]
    exact h.closed hf

/-- Where `send_thread` is after a segment that does not end the window. -/
theorem thread_sendSegment (hpc : (p.sendSegment here).sendThread.pc ≠ .window) :
    ∃ ptr, ptr = (p.sendThread.windowPtr + p.sendThread.size) % p.sp.windowSize ∧ ptr ≠ 0 ∧
      (p.sendSegment here).sendThread.windowPtr = ptr ∧
      (p.sendSegment here).sendThread.segmentSendSize = p.sendThread.nextSize p.sp.windowSize ptr := by
  simp only [Endpoint.sendSegment] at hpc ⊢
  split at hpc
  · exact absurd rfl hpc
  · rename_i hptr
    rw [if_neg hptr]
    exact ⟨_, rfl, hptr, rfl, rfl⟩

theorem size_le_sendSize (t : SendThread) : t.size ≤ t.sendSize := by
  unfold SendThread.size
  split <;> omega

theorem inFlight_sendSegment (here : Addr) (p : Endpoint) :
    (p.sendSegment here).sp.inFlight = p.sp.inFlight + p.sendThread.size :=
  inFlight_insertAck _ _

/-- What a segment puts in flight is no longer to be sent. -/
theorem toSend_sendSegment (here : Addr) (p : Endpoint) : (p.sendSegment here).toSend + p.sendThread.size = p.toSend := by
  have hle := size_le_sendSize p.sendThread
  have hthread : (p.sendSegment here).sendThread.sendSize = p.sendThread.sendSize - p.sendThread.size := by
    simp only [Endpoint.sendSegment]
    split <;> rfl
  unfold Endpoint.toSend
  rw [hthread]
  simp only [Endpoint.sendSegment, Endpoint.sendData, Endpoint.spawn]
  omega

/-- `send_thread` builds a segment. -/
theorem flows_segment (h : Flows p) (hsteady : Steady p) (hpc : p.sendThread.pc = .segment) (hw : p.sp.windowSize ≠ 0) :
    Flows (p.sendSegment here) := by
  have hne : p.sendThread.pc ≠ .window := by rw [hpc]; decide
  have hdone : p.sendThread.done = true := (hsteady.busy (by rw [hpc]; decide)).1
  have hsize := p.sendThread.size_le
  have hlt : (p.sendThread.windowPtr + p.sendThread.size) % p.sp.windowSize < p.sp.windowSize :=
    Nat.mod_lt _ (Nat.pos_of_ne_zero hw)
  have hin := inFlight_sendSegment here p
  have hrest := toSend_sendSegment here p
  refine ⟨?_, ?_, ?_, ?_⟩
  · rw [hin]
    have hwin : (p.sendSegment here).sp.windowSize = p.sp.windowSize := rfl
    rw [hwin]
    cases hf : p.sp.flagCon with
    | estabelecendo =>
      have := h.opened (Or.inl hf) hne hw
      have := this.2 hdone
      omega
    | comConexao =>
      have := h.opened (Or.inr hf) hne hw
      have := this.2 hdone
      omega
    | semConexao =>
      have := h.closed (Or.inl hf)
      omega
    | encerrando =>
      have := h.closed (Or.inr hf)
      omega
  · intro hpc' _ _
    obtain ⟨ptr, hptr, -, -, hnext⟩ := thread_sendSegment hpc'
    obtain ⟨hmax, hroom⟩ := nextSize_le (t := p.sendThread) hsteady.segmentSize (hptr.trans_lt hlt) hsteady.windowSize
    rw [hnext]
    exact le_min ((Nat.le_add_left _ _).trans hroom) hmax
  · intro hf hpc' _
    obtain ⟨hold, hroom⟩ := h.opened hf hne hw
    obtain ⟨ptr, hptr, hne', hwindowPtr, hnext⟩ := thread_sendSegment hpc'
    have hlt' : ptr < p.sp.windowSize := hptr.trans_lt hlt
    have hmove : ptr = p.sendThread.windowPtr % p.sp.windowSize + p.sendThread.size := by
      rw [hptr]
      exact move_ptr ((Nat.add_le_add_left hsize _).trans (hroom hdone)) (by rw [← hptr]; exact hne')
    have hmod : ptr % (p.sendSegment here).sp.windowSize = ptr := Nat.mod_eq_of_lt hlt'
    rw [hin, hwindowPtr, hnext, hmod]
    refine ⟨?_, fun _ => (nextSize_le hsteady.segmentSize hlt' hsteady.windowSize).2⟩
    rw [hmove]
    exact Nat.add_le_add_right hold _
  · intro hf
    have hclosed := h.closed hf
    rw [hin]
    exact (by omega : p.sp.inFlight + p.sendThread.size + (p.sendSegment here).toSend ≤ p.sp.windowSize)

/-- Where `send_thread` is after the window has moved. -/
theorem thread_sendThreadWindow (hpc : p.sendThread.pc = .window) (hpc' : p.sendThreadWindow.sendThread.pc ≠ .window) :
    ∃ move, move = (inSeq p.sp.acks).1 ∧ move ≠ 0 ∧
      p.sendThreadWindow.sendThread.windowPtr = u16 (p.sp.windowSize + 65536 - u16 move) ∧
      p.sendThreadWindow.sendThread.segmentSendSize =
        if p.sendThread.segmentSize < move then p.sendThread.segmentSize else u16 move := by
  simp only [Endpoint.sendThreadWindow] at hpc' ⊢
  split at hpc'
  · exact absurd hpc hpc'
  · rename_i hmove
    rw [if_neg hmove]
    exact ⟨_, rfl, hmove, rfl, rfl⟩

/-- `in_seq` moves the window. -/
theorem flows_window (h : Flows p) (hsteady : Steady p) (hpc : p.sendThread.pc = .window) : Flows p.sendThreadWindow := by
  have hin : p.sendThreadWindow.sp.inFlight + (inSeq p.sp.acks).1 = p.sp.inFlight :=
    (Nat.add_comm _ _).trans (inSeq_add_sum p.sp.acks)
  have hflight := h.flight
  have hseg := hsteady.segmentSize
  have hwin := hsteady.windowSize
  refine ⟨?_, ?_, ?_, ?_⟩
  · exact (by omega : p.sendThreadWindow.sp.inFlight ≤ p.sp.windowSize)
  · intro hpc' _ _
    obtain ⟨move, hmove, -, -, hsize⟩ := thread_sendThreadWindow hpc hpc'
    have hwindow : p.sendThreadWindow.sp.windowSize = p.sp.windowSize := rfl
    rw [hsize, hwindow, u16_of_lt (by omega)]
    split <;> omega
  · intro _ hpc' _
    obtain ⟨move, hmove, hne, hptr, hsize⟩ := thread_sendThreadWindow hpc hpc'
    have hcut : u16 (p.sp.windowSize + 65536 - move) % p.sp.windowSize = p.sp.windowSize - move := by
      have hcut' : u16 (p.sp.windowSize + 65536 - move) = p.sp.windowSize - move := by
        unfold u16
        omega
      rw [hcut', Nat.mod_eq_of_lt (by omega)]
    have hwindow : p.sendThreadWindow.sp.windowSize = p.sp.windowSize := rfl
    rw [hptr, hsize, hwindow, u16_of_lt (n := move) (by omega), hcut]
    refine ⟨by omega, fun _ => ?_⟩
    split <;> omega
  · intro hf
    have hclosed := h.closed hf
    rw [toSend_sendThreadWindow]
    exact (by omega : p.sendThreadWindow.sp.inFlight + p.toSend ≤ p.sp.windowSize)

/-- The FIN of `close_conn` or `close_conn_aux`. -/
theorem flows_sendFin (h : Flows p) (hroom : p.RoomForFin) {flagCon : FlagCon} (hf : flagCon = .semConexao ∨ flagCon = .encerrando)
    (history : History) : Flows ({ p with history := history }.sendFin here flagCon) := by
  have hin : ({ p with history := history }.sendFin here flagCon).sp.inFlight = p.sp.inFlight + 1 := inFlight_insertAck _ _
  have hle : p.sp.inFlight + p.toSend + 1 ≤ p.sp.windowSize := hroom
  refine ⟨?_, h.next, ?_, ?_⟩
  · rw [hin]
    exact (by omega : p.sp.inFlight + 1 ≤ p.sp.windowSize)
  · intro hopen
    rcases hf with rfl | rfl <;> rcases hopen with hopen | hopen <;> cases hopen
  · intro _
    rw [hin]
    exact (by omega : p.sp.inFlight + 1 + p.toSend ≤ p.sp.windowSize)

/-- What a call of `send_point` does that gets `mutex_prod`. -/
theorem act_sendPut {i : Nat} (h : p.act here (.sendPut i) = some (p', out)) :
    ∃ buf, p.waiting[i]? = some buf ∧ p.sp.mutexProd = false ∧ p' = p.deposit i buf := by
  simp only [Endpoint.act, Endpoint.sendPut] at h
  split at h
  · cases h
  · rename_i buf hbuf
    split at h
    · cases h
    · rename_i hfree
      obtain ⟨heq, -⟩ := Prod.mk.inj (Option.some.inj h)
      exact ⟨buf, hbuf, by simpa using hfree, heq.symm⟩

/-- A call of `send_point` that has waited puts its bytes into the buffer. -/
theorem flows_deposit (h : Flows p) (hsteady : Steady p) {i : Nat} {buf : List Byte} (hbuf : p.waiting[i]? = some buf)
    (hfree : p.sp.mutexProd = false) : Flows (p.deposit i buf) := by
  refine ⟨h.flight, h.next, h.opened, ?_⟩
  intro hf
  rw [toSend_deposit hsteady hbuf hfree]
  exact h.closed hf

theorem flows_setAck (h : Flows p) (num : Nat) : Flows { p with sp := { p.sp with acks := setAck p.sp.acks num } } := by
  have hin : ({ p.sp with acks := setAck p.sp.acks num } : ServicePoint).inFlight = p.sp.inFlight := inFlight_setAck _ _
  refine ⟨?_, h.next, ?_, ?_⟩
  · rw [hin]
    exact h.flight
  · rw [hin]
    exact h.opened
  · rw [hin]
    exact h.closed

/-- A step within a connection. -/
theorem flows_step (h : Flows p) (hsteady : Steady p) (hact : p.act here act = some (p', out)) (hopens : ¬Opens p p')
    (hclose : p.sp.flagCon = .comConexao → p'.sp.flagCon ≠ .comConexao → p.RoomForFin) : Flows p' := by
  cases act_does hact with
  | sync _ _ _ _ _ hf => exact absurd ⟨hf, by simp [Endpoint.sendSync, Endpoint.spawn]⟩ hopens
  | acceptSync _ _ _ _ hf =>
    exact absurd ⟨hf, by simp [Endpoint.acceptSync, Endpoint.connected, Endpoint.spawn]⟩ hopens
  | close _ hf => exact flows_sendFin h (hclose hf (by simp [Endpoint.sendFin, Endpoint.spawn])) (Or.inr rfl) _
  | finInConnection pkt _ _ _ hf =>
    exact flows_sendFin h (hclose hf (by simp [Endpoint.sendFin, Endpoint.spawn])) (Or.inl rfl) _
  | finWhileClosing _ _ _ _ hf =>
    refine ⟨h.flight, h.next, ?_, fun _ => h.closed (Or.inr hf)⟩
    intro hopen
    rcases hopen with hopen | hopen <;> cases hopen
  | send buffer hf =>
    refine ⟨h.flight, h.next, h.opened, ?_⟩
    intro hclosed
    rcases hclosed with hclosed | hclosed <;> exact absurd (hf.symm.trans hclosed) (by decide)
  | deposit i buf hfree =>
    obtain ⟨buf', hbuf, -, heq⟩ := act_sendPut hact
    rw [heq]
    exact flows_deposit h hsteady hbuf hfree
  | takeBuffer hpc hcons => exact flows_takeBuffer h hsteady hpc hcons
  | segment hpc _ hw => exact flows_segment h hsteady hpc hw
  | bufferSent hpc =>
    have hne : p.sendThread.pc ≠ .window := by rw [hpc]; decide
    exact ⟨h.flight, fun _ => h.next hne, fun hf _ => h.opened hf hne, h.closed⟩
  | window hpc => exact flows_window h hsteady hpc
  | ack pkt => exact flows_setAck h _
  | acceptSyncAck pkt _ _ _ hf =>
    have hset := flows_setAck h pkt.segment.ackNum
    refine ⟨hset.flight, hset.next, fun _ => hset.opened (Or.inl hf), ?_⟩
    intro hclosed
    rcases hclosed with hclosed | hclosed <;> cases hclosed
  | _ => exact ⟨h.flight, h.next, h.opened, h.closed⟩

/-! ## Runs -/

/-- A thread of an old connection that is finished sends nothing. -/
theorem le_of_mem_sender {n : Nat} (hact : p.act here act = some (p', out))
    (hfinished : ∀ i, act = .segSendThread i → i < n → p.Finished i) : ∀ i ∈ act.sender out, n ≤ i := by
  intro i hi
  cases act with
  | segSendThread j =>
    cases out with
    | nil => cases hi
    | cons pkt out =>
      obtain rfl := List.mem_singleton.1 hi
      by_contra hlt
      have hdone := hfinished i rfl (Nat.lt_of_not_le hlt)
      simp only [Endpoint.act, Endpoint.segSendThread] at hact
      split at hact
      · cases hact
      · rename_i t ht
        obtain ⟨hstarted, hset⟩ := hdone t ht
        rw [hstarted, hset] at hact
        split at hact <;> simp at hact
  | _ => cases hi

/-- What is kept of the second connection and every later one. -/
structure Clean (s : Reuse) : Prop where
  fresh : s.FreshConnection
  flows : Flows s.point
  built : s.builtBefore ≤ s.point.segSends.length
  taken : s.takenBefore ≤ s.point.history.taken.length

/-- A connection opened in a point that is ready for it. -/
theorem clean_opened {w n : Nat} {t : SegSend} {a : AckLst} (h : Opened p p' w t a) (hready : p.ReadyFor w) :
    Clean { point := p', opened := n, builtBefore := p.segSends.length, takenBefore := p.history.taken.length, senders := [] } := by
  obtain ⟨hacks, hsegs, hsegsAux, hfits⟩ := hready
  have hacks' : p'.sp.acks = [a] := by rw [h.acks, hacks, List.nil_append]
  have hsegs' : p'.sp.segs ++ p'.sp.segsAux = [] := by rw [h.segs, hsegs, hsegsAux, List.append_nil]
  have hbuilt : (p'.segSends.drop p.segSends.length).map (·.pack) = [t.pack] := by
    rw [h.segSends, List.drop_left]
    rfl
  have hin : p'.sp.inFlight = 0 := by
    rw [ServicePoint.inFlight, hacks', List.map_singleton, List.sum_singleton, h.size]
  refine ⟨⟨?_, ?_, ?_, ?_, by simp⟩, ⟨?_, ?_, ?_, ?_⟩, ?_, ?_⟩
  · refine ⟨[], ?_⟩
    rw [Reuse.built, hbuilt, hacks', List.map_singleton, List.map_singleton, h.entry, List.nil_append]
  · intro e he
    rw [hsegs'] at he
    cases he
  · intro k hk hdados
    rw [Reuse.built, hbuilt] at hk
    obtain rfl := List.mem_singleton.1 hk
    exact absurd hdados h.flags
  · rw [hin]
    exact Nat.zero_le _
  · rw [hin]
    exact Nat.zero_le _
  · rw [h.sendThread, h.windowSize]
    exact fun hpc hdone hw => (hfits hdone hpc hw).1
  · rw [h.sendThread, h.windowSize, hin]
    exact fun _ hpc hw => ⟨Nat.zero_le _, fun hdone => (hfits hdone hpc hw).2⟩
  · intro hclosed
    rcases h.flagCon with hf | hf <;> rcases hclosed with hclosed | hclosed <;> exact absurd (hf.symm.trans hclosed) (by decide)
  · rw [h.segSends, List.length_append]
    exact Nat.le_add_right _ _
  · rw [h.taken]

/-- A step within a connection. -/
theorem clean_step {s : Reuse} (h : Clean s) (hsteady : Steady s.point) (hopened : 2 ≤ s.opened) (hok : CleanReuse s act)
    (hact : s.point.act here act = some (p', out)) (hopens : ¬Opens s.point p') :
    Clean { s with point := p', senders := s.senders ++ act.sender out } := by
  have hdoes := act_does hact
  obtain ⟨hwindow, new, hpacks, hacks, hdados⟩ := does_entries hdoes hopens
  obtain ⟨newTaken, htaken, hsegs⟩ := does_segs hdoes
  have hclose : s.point.sp.flagCon = .comConexao → p'.sp.flagCon ≠ .comConexao → s.point.RoomForFin := by
    intro hf hf'
    cases hdoes with
    | close => exact hok hopened hf
    | finInConnection _ _ hflags => exact hok.2 hflags hopened hf
    | sync _ _ _ _ _ hcon | acceptSync _ _ _ _ hcon => rw [hf] at hcon; cases hcon
    | acceptSyncAck _ _ _ _ hcon | finWhileClosing _ _ _ _ hcon => rw [hf] at hcon; cases hcon
    | _ => exact absurd hf hf'
  have hflows := flows_step h.flows hsteady hact hopens hclose
  have hbuilt : (p'.segSends.drop s.builtBefore).map (·.pack) = s.built ++ new := by
    have hle : s.builtBefore ≤ s.point.packs.length := by
      rw [Endpoint.packs, List.length_map]
      exact h.built
    calc (p'.segSends.drop s.builtBefore).map (·.pack) = p'.packs.drop s.builtBefore := List.map_drop ..
      _ = s.point.packs.drop s.builtBefore ++ new := by rw [hpacks, List.drop_append_of_le_length hle]
      _ = s.built ++ new := by rw [Reuse.built, List.map_drop]; rfl
  have htaken' : p'.history.taken.drop s.takenBefore = s.taken ++ newTaken := by
    rw [htaken, List.drop_append_of_le_length h.taken]
    rfl
  refine ⟨⟨?_, ?_, ?_, hflows.flight, ?_⟩, hflows, ?_, ?_⟩
  · rw [Reuse.built, hbuilt, List.map_append]
    exact hacks.trans (suffix_append_right h.fresh.acks _)
  · intro e he
    rw [Reuse.taken, htaken']
    rcases hsegs e he with ⟨e', he', hrest⟩ | ⟨m, hm, hrest⟩
    · obtain ⟨m, hm, hflags, hrest'⟩ := h.fresh.segs e' he'
      exact ⟨m, List.mem_append_left _ hm, hflags, restOf_trans hrest hrest'⟩
    · exact ⟨m, List.mem_append_right _ hm, hrest⟩
  · intro k hk hflags
    rw [Reuse.built, hbuilt] at hk
    rw [hwindow]
    rcases List.mem_append.1 hk with hk | hk
    · exact h.fresh.sizes k hk hflags
    · obtain ⟨hsize, hpc, hw⟩ := hdados k hk hflags
      have hdone := (hsteady.busy (by rw [hpc]; decide)).1
      rw [hsize]
      exact (SendThread.size_le _).trans (h.flows.next (by rw [hpc]; decide) hdone hw)
  · intro i hi
    rcases List.mem_append.1 hi with hi | hi
    · exact h.fresh.senders i hi
    · refine le_of_mem_sender hact ?_ i hi
      rintro j rfl hlt
      exact hok hopened hlt
  · have hlen := congrArg List.length hpacks
    rw [List.length_append, Endpoint.packs, Endpoint.packs, List.length_map, List.length_map] at hlen
    exact h.built.trans (hlen ▸ Nat.le_add_right _ _)
  · rw [htaken, List.length_append]
    exact h.taken.trans (Nat.le_add_right _ _)

/-- The invariant of a run. -/
def Inv (s : Reuse) : Prop := Steady s.point ∧ (2 ≤ s.opened → Clean s)

theorem inv_start : Inv Reuse.start :=
  ⟨steady_alloc, fun hopened => by cases hopened⟩

theorem inv_step {s s' : Reuse} (h : Inv s) (hok : CleanReuse s act) (hs : s.step here act = some s') : Inv s' := by
  obtain ⟨hsteady, hclean⟩ := h
  unfold Reuse.step at hs
  split at hs
  · rename_i hfits
    obtain ⟨⟨p', out⟩, hact, rfl⟩ := Option.map_eq_some_iff.1 hs
    have hdoes := act_does hact
    have hsteady' : Steady p' := by
      refine steady_step hsteady hdoes ?_
      rintro pkt rnd rfl - -
      exact hfits
    split
    · rename_i hopens
      refine ⟨hsteady', fun hopened => ?_⟩
      have hne : s.opened ≠ 0 := Nat.pos_iff_ne_zero.1 (Nat.le_of_succ_le_succ hopened)
      obtain ⟨w, t, a, hspec, hready⟩ := does_opens hdoes hopens
      exact clean_opened hspec (hready s rfl hok hne)
    · rename_i hopens
      exact ⟨hsteady', fun hopened => clean_step (hclean hopened) hsteady hopened hok hact hopens⟩
  · cases hs

end ReuseAux

/-- In a run of any number of connections, each opened in a point that is ready for it and closed with room for the FIN, while the
threads of earlier ones have nothing more to send, the second connection and every later one has only its own segments. Bytes that
`send_thread` still holds from an earlier one go into segments of the new one. -/
theorem reuse_clean (here : Addr) {s : Reuse} (h : Reach (Reuse.step here) CleanReuse Reuse.start s) (hopened : 2 ≤ s.opened) :
    s.FreshConnection :=
  ((h.invariant ReuseAux.inv_start fun _ _ _ hinv hok hs => ReuseAux.inv_step hinv hok hs).2 hopened).fresh

namespace ReuseAux

/-- A packet of node 2 or 3 for the point. -/
def arrives (src : Nat) (flags : Flags) (seqNum ackNum : Nat) (data : List Byte) : PointAction :=
  .recvThread (SessionAux.packet src 1 flags seqNum ackNum data 1) 0

/-- A connection to node 2 with a window of 5: data comes, five bytes are sent, and node 2 closes it. -/
def first : List PointAction :=
  [.connectPoint 2 0 5 10, .segSendThread 0, arrives 2 .syncAck 105 16 [115], arrives 2 .dados 106 0 [7],
    .sendPoint [1, 2, 3, 4, 5], .sendPut 0, .sendThread, .sendThread, .segSendThread 1, arrives 2 .fin 107 0 [102],
    .segSendThread 2]

/-- The data is read, the ACKs come, and `send_thread` and the threads of the segments see them. -/
def settle : List PointAction :=
  [.recvPoint 1, arrives 2 .ack 0 21 [], arrives 2 .ack 0 22 [], .sendThread, .sendThread, .segSendThread 1, .segSendThread 2]

/-- A connection to node 3, in which five bytes are sent. `num` is the number after the SYN. -/
def second (windowSize num : Nat) : List PointAction :=
  [.connectPoint 3 0 windowSize 20, .segSendThread 3, arrives 3 .syncAck 55 num [115], .sendPoint [6, 7, 8, 9, 10], .sendPut 0,
    .sendThread, .sendThread, .segSendThread 4]

/-- The connection to node 3 with nothing settled. The thread of the old data sends it again, and its ACK lets `send_thread` go
on before the new data is cut. -/
def unsettled : List PointAction :=
  (second 2 23).take 3 ++ [.segSendThread 1, arrives 2 .ack 0 21 [], .sendThread, .sendThread] ++ (second 2 23).drop 3

end ReuseAux

open ReuseAux in
/-- A point that has settled its first connection has nothing of it in the second. -/
theorem second_connection_clean :
    ∃ s, exec (Reuse.step ⟨1, 0⟩) Reuse.start (first ++ settle ++ second 5 26) = some s ∧ s.opened = 2 ∧ s.senders = [3, 4] ∧
      s.FreshConnection := by
  obtain ⟨s, hs, hopened, hsenders⟩ :
      ∃ s ∈ exec (Reuse.step ⟨1, 0⟩) Reuse.start (first ++ settle ++ second 5 26), s.opened = 2 ∧ s.senders = [3, 4] := by
    decide
  have hok : Along (Reuse.step ⟨1, 0⟩) CleanReuse Reuse.start (first ++ settle ++ second 5 26) := by decide
  exact ⟨s, hs, hopened, hsenders, reuse_clean _ (reach_of_exec hok hs) hopened.ge⟩

open ReuseAux in
/-- A point that has not: an old ACK and old data in its lists, a segment of five bytes in a window of two, more bytes in flight than
the window has, and old data on its way to node 3. -/
theorem second_connection_unclean :
    ∃ s, exec (Reuse.step ⟨1, 0⟩) Reuse.start (first ++ unsettled) = some s ∧ s.opened = 2 ∧ s.point.sp.dest = 3 ∧
      ¬s.point.sp.acks.map AckLst.entry <:+ s.built.map SendSegment.entry ∧
      (s.point.sp.segs ≠ [] ∧ ∀ m ∈ s.taken, m.flags ≠ .dados) ∧
      (∃ k ∈ s.built, k.segment.flags = .dados ∧ k.size = 5) ∧ s.point.sp.windowSize = 2 ∧ 2 < s.point.sp.inFlight ∧
      (∃ i ∈ s.senders, i < s.builtBefore) ∧ ¬s.FreshConnection := by
  obtain ⟨s, hs, hopened, hdest, hacks, hsegs, hsizes, hw, hflight, hsenders⟩ :
      ∃ s ∈ exec (Reuse.step ⟨1, 0⟩) Reuse.start (first ++ unsettled), s.opened = 2 ∧ s.point.sp.dest = 3 ∧
        ¬s.point.sp.acks.map AckLst.entry <:+ s.built.map SendSegment.entry ∧
        (s.point.sp.segs ≠ [] ∧ ∀ m ∈ s.taken, m.flags ≠ .dados) ∧
        (∃ k ∈ s.built, k.segment.flags = .dados ∧ k.size = 5) ∧ s.point.sp.windowSize = 2 ∧ 2 < s.point.sp.inFlight ∧
        ∃ i ∈ s.senders, i < s.builtBefore := by
    decide
  exact ⟨s, hs, hopened, hdest, hacks, hsegs, hsizes, hw, hflight, hsenders, fun hfresh => hacks hfresh.acks⟩

end NetworkLayers
