import NetworkLayers.Lemmas.Acks

/-!
# The number after a segment

The expressions by which the sender, the thread of a segment, `insert_seg` and the receiver compute the number after a segment: two
cut the sum to a `uint32_t`, one of them without a modulus, and two take the modulus of the whole sum.
-/

namespace NetworkLayers

open SeqSpace

/-! ## The sites -/

/-- The count at which `insert_seg` looks for what follows a segment of the given size at `base`. -/
def insertSegCount (base size : Nat) : Nat := (base + size) % maxSeqNum

/-- The pack of the segment `send_thread` builds of the next `size` bytes. -/
def Endpoint.dataPack (here : Addr) (p : Endpoint) (size : Nat) : SendSegment where
  segment := { src := here.point, dest := p.sp.destSp, seqNum := p.sp.seqNumS, ackNum := 0, flags := .dados,
               windowSize := p.sp.windowSize, data := (p.sp.sendBuff.drop p.sendThread.sendPtr).take size }
  size := size
  epoch := p.history.epoch

/-- The `seg_send_thread` it starts has that pack. -/
theorem segSends_sendData (here : Addr) (p : Endpoint) (size : Nat) :
    (p.sendData here size).segSends = p.segSends ++ [{ pack := p.dataPack here size, started := false, stopped := false }] := rfl

/-- After a segment that is in place `insert_seg` goes on with the segment at the count. -/
theorem insertSeg_base (lst lstAux : List SegLst) (seg : Segment) (size : Nat) :
    insertSeg lst lstAux seg size seg.seqNum =
      (lst ++ { segm := seg, size := size } :: (moveNext lstAux.length lstAux (insertSegCount seg.seqNum size) (u32 size)).1,
        (moveNext lstAux.length lstAux (insertSegCount seg.seqNum size) (u32 size)).2) := if_pos rfl

/-- Every site computes the number that `send_thread` stores as the next one. -/
structure NextSeqNumAgrees (here : Addr) (p : Endpoint) (size : Nat) : Prop where
  /-- The number `send_thread` inserts in `acks`. -/
  key : (p.sendData here size).sp.acks =
    insertAck p.sp.acks { seqNum := (p.sendData here size).sp.seqNumS, flag := false, size := size }
  /-- The number `seg_send_thread` looks up. -/
  lookup : (p.dataPack here size).lookup = (p.sendData here size).sp.seqNumS
  /-- The number of the ACK that `recv_thread` sends for the segment. -/
  ackNum : ∀ sp : ServicePoint, ((p.dataPack here size).packet here sp).ackNum = (p.sendData here size).sp.seqNumS
  count : insertSegCount p.sp.seqNumS size = (p.sendData here size).sp.seqNumS
  /-- The `seq_num_r` of a receiver that waits for the segment and holds none that follows it. -/
  seqNumR : ∀ sp r : ServicePoint, r.seqNumR = p.sp.seqNumS → isNext r.segsAux (insertSegCount p.sp.seqNumS size) = none →
    (r.addDados ((p.dataPack here size).packet here sp)).seqNumR = (p.sendData here size).sp.seqNumS

/-- The entry with a number is set, or no entry has it. -/
def SetOrRemoved (acks : List AckLst) (num : Nat) : Prop := ∀ a ∈ acks.find? (·.seqNum = num), a.flag = true

/-- The `i`-th `seg_send_thread` leaves its loop. -/
def Endpoint.Stops (here : Addr) (p : Endpoint) (i : Nat) : Prop :=
  ∃ t, p.segSends[i]? = some t ∧
    p.segSendThread here i = some ({ p with segSends := p.segSends.set i { t with stopped := true } }, [])

/-- The ACK for the segment sets the entry the sender has inserted for it, and the thread of the segment stops exactly when that entry
is set or was removed. -/
structure AckMeetsEntry (here : Addr) (p : Endpoint) (size : Nat) : Prop where
  /-- `sp` is the sender's service point as the segment is sent, `there` the place of the receiver `r`. -/
  set : ∀ (sp r : ServicePoint) (there : Addr) (e : Endpoint) (rnd : Nat) (l : List AckLst) (a : AckLst) (l' : List AckLst),
    e.recvBlocked = false → e.sp.acks = l ++ a :: l' → a.seqNum = (p.sendData here size).sp.seqNumS →
    (∀ b ∈ l, b.seqNum ≠ (p.sendData here size).sp.seqNumS) →
    e.recvThread here (r.ackPacket there ((p.dataPack here size).packet here sp)) rnd =
      some ({ e with sp := { e.sp with acks := l ++ { a with flag := true } :: l' } }, [])
  stops : ∀ (e : Endpoint) (i : Nat),
    e.segSends[i]? = some { pack := p.dataPack here size, started := true, stopped := false } →
    (e.Stops here i ↔ SetOrRemoved e.sp.acks (p.sendData here size).sp.seqNumS)

namespace NextSeqNumAux

/-! ## The lists -/

/-- `set_ack` sets the first entry with the number. -/
theorem setAck_append {l l' : List AckLst} {a : AckLst} {num : Nat} (ha : a.seqNum = num) (hl : ∀ b ∈ l, b.seqNum ≠ num) :
    setAck (l ++ a :: l') num = l ++ { a with flag := true } :: l' := by
  induction l with
  | nil => exact if_pos ha
  | cons b l ih =>
    have hb : b.seqNum ≠ num := hl b List.mem_cons_self
    have htail := ih fun c hc => hl c (List.mem_cons_of_mem _ hc)
    rw [List.cons_append, setAck, if_neg hb, htail, List.cons_append]

/-- `is_set` is 1 when the first entry with the number is set, and when there is none. -/
theorem isSet_iff (acks : List AckLst) (num : Nat) : isSet acks num = true ↔ SetOrRemoved acks num := by
  unfold SetOrRemoved
  induction acks with
  | nil => simp [isSet]
  | cons a acks ih =>
    unfold isSet
    split
    · rename_i ha
      simp [ha]
    · rename_i ha
      rw [ih, List.find?_cons_of_neg (by simpa using ha)]

variable {here : Addr} {p : Endpoint} {n : Nat}

/-- A thread that has sent its segment stops when `is_set` finds the number it looks up. -/
theorem stops_iff {e : Endpoint} {i : Nat} {k : SendSegment}
    (ht : e.segSends[i]? = some { pack := k, started := true, stopped := false }) :
    e.Stops here i ↔ isSet e.sp.acks k.lookup = true := by
  have hstep : e.segSendThread here i = if isSet e.sp.acks k.lookup then
      some ({ e with segSends := e.segSends.set i { pack := k, started := true, stopped := true } }, [])
    else some (e, [k.packet here e.sp]) := by
    simp only [Endpoint.segSendThread, ht, Bool.false_eq_true, if_false, Bool.not_true]
  constructor
  · rintro ⟨t, -, hstop⟩
    rw [hstep] at hstop
    by_contra hset
    rw [if_neg hset] at hstop
    simp at hstop
  · intro hset
    exact ⟨_, ht, by rw [hstep, if_pos hset]⟩

/-! ## The numbers -/

/-- Before `MAX_SEQ_NUM` every expression is the sum. -/
theorem agrees_of_lt (h : p.sp.seqNumS + n < maxSeqNum) : NextSeqNumAgrees here p n := by
  have hnext : (p.sendData here n).sp.seqNumS = p.sp.seqNumS + n := next_of_lt h
  have hdata : ∀ sp : ServicePoint, ((p.dataPack here n).packet here sp).dataSize = n := fun _ => Nat.add_sub_cancel ..
  refine ⟨rfl, ?_, ?_, ?_, ?_⟩
  · show u32 (p.sp.seqNumS + n) = (p.sendData here n).sp.seqNumS
    rw [hnext, u32_of_lt (Nat.lt_succ_of_lt h)]
  · intro sp
    rw [hnext, Packet.ackNum, hdata]
    exact Nat.mod_eq_of_lt h
  · rw [hnext]
    exact Nat.mod_eq_of_lt h
  · intro sp r hr hnone
    have hseq : ((p.dataPack here n).packet here sp).segment.seqNum = r.seqNumR := hr.symm
    have hmove : ∀ rounds ret, moveNext rounds r.segsAux (insertSegCount p.sp.seqNumS n) ret = ([], r.segsAux, ret) := by
      intro rounds ret
      cases rounds with
      | zero => rfl
      | succ rounds => rw [moveNext, hnone]
    have hret : (insertSeg r.segs r.segsAux ((p.dataPack here n).packet here sp).segment
        ((p.dataPack here n).packet here sp).dataSize r.seqNumR).2.2 = u32 n := by
      rw [← hseq, insertSeg_base, hdata]
      exact congrArg (fun x => x.2.2) (hmove _ _)
    have hn : u32 n = n := u32_of_lt (Nat.lt_of_le_of_lt (Nat.le_add_left n _) (Nat.lt_succ_of_lt h))
    show nextSeqNum r.seqNumR _ = nextSeqNum p.sp.seqNumS n
    rw [hret, hn, hr]

/-- At `MAX_SEQ_NUM` the thread of the segment looks up another number than `send_thread` stores, and past it the receiver
acknowledges another one. -/
theorem lt_of_agrees (hq : p.sp.seqNumS < maxSeqNum) (hn : n ≤ maxSegmentSize) (h : NextSeqNumAgrees here p n) :
    p.sp.seqNumS + n < maxSeqNum := by
  by_contra hge
  have hnM : n < maxSeqNum := Nat.lt_of_le_of_lt hn (by decide)
  have hnext : (p.sendData here n).sp.seqNumS =
      if p.sp.seqNumS + n < maxSeqNum then p.sp.seqNumS + n
      else if p.sp.seqNumS + n = maxSeqNum then 0 else p.sp.seqNumS + n - (maxSeqNum + 1) := next_eq hq.le hnM
  rw [if_neg hge] at hnext
  by_cases hmax : p.sp.seqNumS + n = maxSeqNum
  · have hlookup : (p.dataPack here n).lookup = maxSeqNum := by
      show u32 (p.sp.seqNumS + n) = maxSeqNum
      rw [hmax]
      rfl
    rw [if_pos hmax, ← h.lookup, hlookup] at hnext
    exact absurd hnext (by decide)
  · have hcount : insertSegCount p.sp.seqNumS n = p.sp.seqNumS + n - maxSeqNum := by
      unfold insertSegCount
      rw [Nat.mod_eq_sub_mod (by omega), Nat.mod_eq_of_lt (by omega)]
    rw [if_neg hmax, ← h.count, hcount] at hnext
    omega

/-- Where the numbers agree, the ACK finds the entry and so does the thread. -/
theorem meets_of_agrees (h : NextSeqNumAgrees here p n) : AckMeetsEntry here p n := by
  refine ⟨?_, ?_⟩
  · intro sp r there e rnd l a l' hfree hacks ha hl
    have hset : setAck e.sp.acks ((p.dataPack here n).packet here sp).ackNum = l ++ { a with flag := true } :: l' := by
      rw [h.ackNum, hacks]
      exact setAck_append ha hl
    have hrecv : e.recvThread here (r.ackPacket there ((p.dataPack here n).packet here sp)) rnd =
        some ({ e with sp := { e.sp with acks := setAck e.sp.acks ((p.dataPack here n).packet here sp).ackNum } }, []) := by
      simp only [Endpoint.recvThread, hfree, Bool.false_eq_true, if_false, ServicePoint.ackPacket]
    rw [hrecv, hset]
  · intro e i ht
    rw [stops_iff ht, h.lookup, isSet_iff]

end NextSeqNumAux

/-- The sites agree, the ACK sets the sender's entry and the thread stops exactly when it is set or was removed, if and only if the
segment ends before `MAX_SEQ_NUM`. -/
theorem next_seq_num_agrees_iff {here : Addr} {p : Endpoint} {n : Nat} (hq : p.sp.seqNumS < maxSeqNum)
    (hn : n ≤ maxSegmentSize) : NextSeqNumAgrees here p n ∧ AckMeetsEntry here p n ↔ p.sp.seqNumS + n < maxSeqNum := by
  constructor
  · rintro ⟨hagrees, -⟩
    exact NextSeqNumAux.lt_of_agrees hq hn hagrees
  · intro hlt
    have hagrees : NextSeqNumAgrees here p n := NextSeqNumAux.agrees_of_lt hlt
    exact ⟨hagrees, NextSeqNumAux.meets_of_agrees hagrees⟩

namespace NextSeqNumAux

/-- A point in a connection whose next byte has the given number. -/
def pointAt (seqNum : Nat) : Endpoint :=
  { allocServicePoint with sp := { allocServicePoint.sp with
      windowSize := 16, flagCon := .comConexao, seqNumS := seqNum, sendBuff := [7, 8, 9], mutexProd := true } }

end NextSeqNumAux

open NextSeqNumAux

/-- Two bytes up to the last number but one. -/
theorem next_seq_num_agrees_before :
    NextSeqNumAgrees ⟨1, 0⟩ (pointAt 4294967292) 2 ∧ AckMeetsEntry ⟨1, 0⟩ (pointAt 4294967292) 2 :=
  (next_seq_num_agrees_iff (by decide) (by decide)).2 (by decide)

/-- The last byte before `MAX_SEQ_NUM`: the entry has the number 0, and the thread of the segment looks up another one. -/
theorem next_seq_num_not_agrees : ¬∀ (here : Addr) (p : Endpoint) (n : Nat), p.sp.seqNumS < maxSeqNum → 1 ≤ n →
    n ≤ maxSegmentSize → NextSeqNumAgrees here p n ∧ AckMeetsEntry here p n := by
  intro h
  have hlookup := (h ⟨1, 0⟩ (pointAt 4294967294) 1 (by decide) (by decide) (by decide)).1.lookup
  revert hlookup
  decide

end NetworkLayers
