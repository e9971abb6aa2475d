import NetworkLayers.Lemmas.NoWrap
import Mathlib.Data.List.Count
import Mathlib.Data.List.Nodup

/-!
# What a connection can still do

A connection that is not closed, whose numbers stay below `MAX_SEQ_NUM` and that has had the ACK of its handshake, can always go on:
the first segment that has no ACK yet is taken when it comes, or acknowledged again, and when none is left the window moves.
-/

namespace NetworkLayers

open Transition SeqSpace

/-! ## The entries for ACKs -/

namespace ProgressAux

section Entries

variable {acks : List AckLst} {num : Nat}

/-- Where the numbers differ, `is_set` looks at all there is. -/
theorem isSet_iff_forall (hnodup : (acks.map (·.seqNum)).Nodup) :
    isSet acks num = true ↔ ∀ a ∈ acks, a.seqNum = num → a.flag = true := by
  induction acks with
  | nil => simp [isSet]
  | cons a acks ih =>
    rw [List.map_cons, List.nodup_cons] at hnodup
    rw [List.forall_mem_cons, ← ih hnodup.2, isSet]
    split
    · rename_i ha
      have hnone : ∀ b ∈ acks, b.seqNum ≠ num := fun b hb hnum => hnodup.1 (List.mem_map.2 ⟨b, hb, hnum.trans ha.symm⟩)
      have hrest : isSet acks num = true := (ih hnodup.2).2 fun b hb hnum => absurd hnum (hnone b hb)
      simp [ha, hrest]
    · rename_i ha
      simp [ha]

/-- `in_seq` takes no ACK back. -/
theorem isSet_inSeq (hnodup : (acks.map (·.seqNum)).Nodup) (h : isSet acks num = true) : isSet (inSeq acks).2 num = true := by
  have hsuffix := inSeq_suffix acks
  have hnodup' : ((inSeq acks).2.map (·.seqNum)).Nodup := hnodup.sublist (hsuffix.sublist.map _)
  exact (isSet_iff_forall hnodup').2 fun a ha => (isSet_iff_forall hnodup).1 h a (hsuffix.subset ha)

theorem isSet_insertAck (h : isSet acks num = true) {a : AckLst} (hne : a.seqNum ≠ num) : isSet (insertAck acks a) num = true := by
  unfold insertAck
  induction acks with
  | nil => simp [isSet, hne]
  | cons b acks ih =>
    rw [List.cons_append, isSet]
    rw [isSet] at h
    split
    · rename_i hb
      rwa [if_pos hb] at h
    · rename_i hb
      rw [if_neg hb] at h
      exact ih h

end Entries

/-! ## The numbers differ -/

/-- The packs of a stream wait for different numbers. -/
theorem nodup_entryNums {q : Nat} {ks : List SendSegment} (hq : q < maxSeqNum) (hnum : Numbered q ks)
    (hsum : packSize ks < maxSeqNum) : (ks.map (·.entryNum)).Nodup := by
  rw [List.nodup_iff_injective_getElem]
  have hentry : ∀ (i : Nat) (hi : i < ks.length), ks[i].entryNum = seqNumAfter q (ks.take (i + 1)) := by
    intro i hi
    rw [← List.take_append_getElem hi]
    refine hnum.entryNum_eq (r := ks.drop (i + 1)) ?_
    rw [← List.drop_eq_getElem_cons hi, List.take_append_drop]
  rintro ⟨i, hi⟩ ⟨j, hj⟩ heq
  rw [List.length_map] at hi hj
  simp only [List.getElem_map, hentry i hi, hentry j hj] at heq
  have htake := prefix_eq_of_seqAt_eq hq hnum.pos hsum (List.take_prefix ..) (List.take_prefix ..) heq
  have hlen := congrArg List.length htake
  rw [List.length_take, List.length_take] at hlen
  have hij : i = j := by omega
  exact Fin.ext hij

section Acked

variable {q : Nat} {p : Endpoint} {arrived : Segment → Prop} {hs : List AckLst} {d u : List SendSegment}

/-- The entries stand for the packs in order. -/
theorem seqNums_entries {es : List AckLst} (h : List.Forall₂ (EntryOf arrived) u es) :
    es.map (·.seqNum) = u.map (·.entryNum) := by
  induction h with
  | nil => rfl
  | cons hka _ ih => rw [List.map_cons, List.map_cons, ih, hka.seqNum]

/-- The packs that have their entries wait for different numbers, and none for the first. -/
theorem nodup_acks (h : Acked q p arrived hs d u) (hq : q < maxSeqNum) (hnum : Numbered q p.stream)
    (hsum : packSize p.stream < maxSeqNum) : (p.sp.acks.map (·.seqNum)).Nodup := by
  obtain ⟨es, hacks, hes⟩ := h.entries
  have hnodup := nodup_entryNums hq hnum hsum
  rw [h.stream, List.map_append] at hnodup
  have hu : (u.map (·.entryNum)).Nodup := hnodup.sublist (List.sublist_append_right ..)
  rw [hacks, List.map_append, seqNums_entries hes]
  rcases h.handshake with rfl | ⟨flag, rfl⟩
  · exact hu
  · refine List.nodup_cons.2 ⟨fun hmem => ?_, hu⟩
    obtain ⟨k, hk, hentry⟩ := List.mem_map.1 hmem
    exact hnum.entryNum_ne hq hsum (h.stream ▸ List.mem_append_right _ hk) hentry

end Acked

/-! ## The mutexes -/

/-- `mutex_con` of a point in a connection is free, and its `recv_thread` waits for no mutex that is free. -/
def Unlocked (p : Endpoint) : Prop :=
  (p.sp.flagCon = .comConexao → p.sp.mutexCon = false) ∧ (p.recvBlocked = true → p.sp.mutexCon = true)

theorem unlocked_step {here : Addr} {p p' : Endpoint} {act : PointAction} {out : List Packet} (h : Unlocked p)
    (hdoes : p.Does here act p' out) : Unlocked p' := by
  cases hdoes with
  | sync _ _ _ _ hm | close hm | acceptSync _ _ _ hm | acceptSyncAck _ _ _ hm | finInConnection _ _ _ hm
  | finWhileClosing _ _ _ hm =>
    exact ⟨fun _ => hm, h.2⟩
  | block _ _ hm => exact ⟨h.1, fun _ => hm⟩
  | lock _ _ _ hf => exact ⟨fun hf' => absurd hf' hf, fun _ => rfl⟩
  | _ => exact h

/-! ## What the threads find -/

/-- The bounds of a receiver whose numbers do not wrap: `seq_num_r` is within them, and so is what is at most a window before it. -/
def Spans (sp : ServicePoint) : Prop :=
  sp.seqNumR + sp.windowSize < maxSeqNum →
    sp.seqNumR ≤ sp.endSeqNumR ∧ (sp.prevSeqNumR < sp.endSeqNumR → sp.prevSeqNumR + sp.windowSize ≤ sp.seqNumR)

variable {e : Places} {x : Side} {q : Nat} {s s' : Session}

theorem spans_addDados {sp : ServicePoint} (hw : sp.windowSize < 65536) (pkt : Packet) : Spans (sp.addDados pkt) := by
  have hprev : (sp.addDados pkt).prevSeqNumR = ((sp.addDados pkt).seqNumR + (maxSeqNum - sp.windowSize)) % maxSeqNum := rfl
  have hend : (sp.addDados pkt).endSeqNumR = nextSeqNum (sp.addDados pkt).seqNumR sp.windowSize := rfl
  have hwindow : (sp.addDados pkt).windowSize = sp.windowSize := rfl
  generalize sp.addDados pkt = sp' at *
  intro hsmall
  rw [hwindow] at hsmall ⊢
  rw [nextSeqNum, u32_of_lt (Nat.lt_trans hsmall (by decide)), Nat.mod_eq_of_lt hsmall] at hend
  unfold maxSeqNum at *
  omega

theorem spans_step {here : Addr} {p p' : Endpoint} {act : PointAction} {out : List Packet} (h : Spans p.sp)
    (hdoes : p.Does here act p' out) (hf : p.sp.flagCon = .comConexao) (hw : p.sp.windowSize < 65536) : Spans p'.sp := by
  cases hdoes with
  | sync _ _ _ _ _ hf' => exact absurd hf' (FlagCon.ne_of_inConnection (Or.inl hf)).1
  | acceptSync _ _ _ _ hf' => exact absurd hf' (FlagCon.ne_of_inConnection (Or.inl hf)).1
  | acceptSyncAck _ _ _ _ hf' => exact absurd hf' (FlagCon.ne_of_inConnection (Or.inl hf)).2
  | add pkt => exact spans_addDados hw pkt
  | _ => exact h

/-- What holds of a connection that is not closed and whose numbers do not wrap, with all its threads go by: a thread that has
stopped has had its ACK. -/
structure Live (e : Places) (x : Side) (q : Nat) (s : Session) : Prop where
  opened : NoWrapAux.Opened e x q s
  inv : NoWrapAux.Inv e x q s
  unlocked : ∀ y, Unlocked (s.point y)
  spans : Spans (s.point x.other).sp
  stopped : ∀ k ∈ (s.point x).segSends, k.stopped = true → k.pack.segment.flags = .dados →
    isSet (s.point x).sp.acks k.pack.entryNum = true

/-- The number a thread looks up is the one its pack waits for. -/
theorem lookup_eq (h : NoWrapAux.Inv e x q s) (hwrap : s.NoWrap x q) {k : SendSegment} (hk : k ∈ (s.point x).stream) :
    k.lookup = k.entryNum := by
  obtain ⟨l, r, hsplit⟩ := List.append_of_mem hk
  obtain ⟨hseq, hle⟩ := NoWrapAux.seqNum_eq h hwrap hsplit
  unfold Session.NoWrap at hwrap
  rcases lookup_cases (k := k) (by omega) (by omega) with ⟨-, heq⟩ | ⟨hend, -⟩
  · exact heq
  · omega

/-- The entries of the sender have different numbers. -/
theorem nodup_sender (h : Live e x q s) (hwrap : s.NoWrap x q) : ((s.point x).sp.acks.map (·.seqNum)).Nodup := by
  have hsum := NoWrapAux.packSize_lt h.inv hwrap
  have hq : q < maxSeqNum := by
    unfold Session.NoWrap at hwrap
    omega
  obtain ⟨c, hs, d, u, -, hacked, -⟩ := h.inv.reliable.delivering hsum
  exact nodup_acks hacked hq h.inv.reliable.sends.numbered hsum

/-- A step of a point in a connection takes no ACK back. -/
theorem isSet_step {here : Addr} {p p' : Endpoint} {act : PointAction} {out : List Packet} (hdoes : p.Does here act p' out)
    (hf : p.sp.flagCon = .comConexao) (hclose : act ≠ .closeConn)
    (hfin : ∀ pkt rnd, act = .recvThread pkt rnd → pkt.segment.flags ≠ .fin) (hnodup : (p.sp.acks.map (·.seqNum)).Nodup) {num : Nat}
    (hset : isSet p.sp.acks num = true) (hnew : ∀ k, p'.stream = p.stream ++ [k] → k.entryNum ≠ num) :
    isSet p'.sp.acks num = true := by
  have hnotOpening := FlagCon.ne_of_inConnection (Or.inl hf)
  cases hdoes with
  | sync _ _ _ _ _ hf' => exact absurd hf' hnotOpening.1
  | acceptSync _ _ _ _ hf' => exact absurd hf' hnotOpening.1
  | acceptSyncAck _ _ _ _ hf' => exact absurd hf' hnotOpening.2
  | close => exact absurd rfl hclose
  | finInConnection pkt rnd hflags | finWhileClosing pkt rnd hflags => exact absurd hflags (hfin pkt rnd rfl)
  | segment =>
    obtain ⟨k, -, hstream, hacks, -⟩ := AcksAux.sendSegment_spec here p
    rw [hacks]
    exact isSet_insertAck hset (hnew k hstream)
  | window => exact isSet_inSeq hnodup hset
  | ack pkt =>
    show isSet (setAck _ _) _ = true
    rw [isSet_setAck, hset, Bool.or_true]
  | _ => exact hset

/-- What a step of the sender leaves a thread that has stopped with. -/
theorem stopped_step {p' : Endpoint} {act : PointAction} {out : List Packet} (h : Live e x q s) (hwrap : s.NoWrap x q)
    (hdoes : (s.point x).Does (e.addr x) act p' out) (hclose : act ≠ .closeConn)
    (hfin : ∀ pkt rnd, act = .recvThread pkt rnd → pkt.segment.flags ≠ .fin) (hnum : Numbered q p'.stream)
    (hsum : packSize p'.stream < maxSeqNum) :
    ∀ k ∈ p'.segSends, k.stopped = true → k.pack.segment.flags = .dados → isSet p'.sp.acks k.pack.entryNum = true := by
  have hq : q < maxSeqNum := by
    unfold Session.NoWrap at hwrap
    omega
  have hkeep : ∀ k ∈ (s.point x).segSends, isSet (s.point x).sp.acks k.pack.entryNum = true →
      k.pack.segment.flags = .dados → isSet p'.sp.acks k.pack.entryNum = true := by
    intro k hk hset hdados
    refine isSet_step hdoes h.opened.flagCon hclose hfin (nodup_sender h hwrap) hset fun k' hstream heq => ?_
    -- a new pack has a number of its own
    have hnodup := nodup_entryNums hq hnum hsum
    rw [hstream, List.map_append] at hnodup
    have hmem : k.pack.entryNum ∈ (s.point x).stream.map (·.entryNum) := List.mem_map_of_mem (mem_stream_of_mem hk hdados)
    exact List.disjoint_of_nodup_append hnodup hmem (by simp [← heq])
  have hold : ∀ k ∈ (s.point x).segSends, k.stopped = true → k.pack.segment.flags = .dados →
      isSet p'.sp.acks k.pack.entryNum = true := fun k hk hstop hdados => hkeep k hk (h.stopped k hk hstop hdados) hdados
  have hnotOpening := FlagCon.ne_of_inConnection (Or.inl h.opened.flagCon)
  cases hdoes with
  | sync _ _ _ _ _ hf => exact absurd hf hnotOpening.1
  | acceptSync _ _ _ _ hf => exact absurd hf hnotOpening.1
  | acceptSyncAck _ _ _ _ hf => exact absurd hf hnotOpening.2
  | close => exact absurd rfl hclose
  | finInConnection pkt rnd hflags | finWhileClosing pkt rnd hflags => exact absurd hflags (hfin pkt rnd rfl)
  | segment =>
    obtain ⟨k, -, -, -, hsegSends⟩ := AcksAux.sendSegment_spec (e.addr x) (s.point x)
    intro k' hk' hstop hdados
    rw [hsegSends] at hk'
    rcases List.mem_append.1 hk' with hk' | hk'
    · exact hold k' hk' hstop hdados
    · obtain rfl := List.mem_singleton.1 hk'
      cases hstop
  | firstSend i t ht =>
    intro k hk hstop hdados
    rcases List.mem_or_eq_of_mem_set hk with hk | rfl
    · exact hold k hk hstop hdados
    · exact hold t (List.mem_of_getElem? ht) hstop hdados
  | acked i t ht _ hset =>
    intro k hk hstop hdados
    rcases List.mem_or_eq_of_mem_set hk with hk | rfl
    · exact hold k hk hstop hdados
    · have hmem := List.mem_of_getElem? ht
      rw [lookup_eq h.inv hwrap (mem_stream_of_mem hmem hdados)] at hset
      exact hkeep t hmem hset hdados
  | _ => exact hold

theorem live_step (h : Live e x q s) (hwrap : s'.NoWrap x q) (hread : s'.NoneFreed e x) {m : Side × PointAction}
    (hclose : NoClose s m) (hs : s.step e m = some s') : Live e x q s' := by
  have hwrap' := NoWrapAux.NoWrap.before hwrap hs
  have hq : q < maxSeqNum := by
    unfold Session.NoWrap at hwrap
    omega
  have hopened := NoWrapAux.opened_step h.opened hq hclose hs
  have hinv := NoWrapAux.inv_step h.inv hwrap hread hclose hs
  have hsum := NoWrapAux.packSize_lt hinv hwrap
  have hnum := hinv.reliable.sends.numbered
  obtain ⟨w, act⟩ := m
  obtain ⟨p, out, hen, hact, hw, hother, -⟩ := Session.step_cases hs
  have hdoes := act_does hact
  have hunlocked : ∀ y, Unlocked (s'.point y) := by
    intro y
    rcases Side.eq_or_eq_other w y with rfl | rfl
    · rw [hw]
      exact unlocked_step (h.unlocked y) hdoes
    · rw [hother]
      exact h.unlocked w.other
  rcases Side.eq_or_eq_other x w with rfl | rfl
  · refine ⟨hopened, hinv, hunlocked, by rw [hother]; exact h.spans, ?_⟩
    rw [hw] at hnum hsum ⊢
    refine stopped_step h hwrap' hdoes hclose ?_ hnum hsum
    rintro pkt rnd rfl
    exact h.opened.ne_fin hen
  · rw [Side.other_other] at hother
    refine ⟨hopened, hinv, hunlocked, ?_, by rw [hother]; exact h.stopped⟩
    rw [hw]
    refine spans_step h.spans hdoes h.inv.reliable.streaming.receiver ?_
    rw [← h.inv.reliable.window]
    exact h.inv.reliable.sends.window.2

end ProgressAux

/-! ## A round of a segment -/

namespace ProgressAux

variable {e : Places} {x : Side} {q : Nat} {s s' : Session}

/-- Only `send_point` accepts. -/
theorem accepted_step {m : Side × PointAction} (hact : ∀ i, m.2 ≠ .sendPut i) (hs : s.step e m = some s') :
    (s'.point x).history.accepted = (s.point x).history.accepted := by
  obtain ⟨w, act⟩ := m
  obtain ⟨p, out, -, hstep, hw, hother, -⟩ := Session.step_cases hs
  rcases Side.eq_or_eq_other w x with rfl | rfl
  · rw [hw]
    cases act_does hstep with
    | deposit i => exact absurd rfl (hact i)
    | _ => rfl
  · rw [hother]

theorem noWrap_step {m : Side × PointAction} (hwrap : s.NoWrap x q) (hact : ∀ i, m.2 ≠ .sendPut i) (hs : s.step e m = some s') :
    s'.NoWrap x q := by
  unfold Session.NoWrap at hwrap ⊢
  rwa [accepted_step hact hs]

/-- A connection that goes on: it lives, its numbers stay below `MAX_SEQ_NUM`, none was read from a freed segment, and the handshake
has its ACK. -/
structure Ready (e : Places) (x : Side) (q : Nat) (s : Session) : Prop where
  live : Live e x q s
  noWrap : s.NoWrap x q
  noneFreed : s.NoneFreed e x
  first : isSet (s.point x).sp.acks q = true

theorem Ready.lt (h : Ready e x q s) : q < maxSeqNum := by
  have hwrap := h.noWrap
  unfold Session.NoWrap at hwrap
  omega

theorem ready_step (h : Ready e x q s) (hread : s'.NoneFreed e x) {m : Side × PointAction} (hclose : NoClose s m)
    (hput : ∀ i, m.2 ≠ .sendPut i) (hs : s.step e m = some s') : Ready e x q s' := by
  have hwrap := noWrap_step h.noWrap hput hs
  have hlive := live_step h.live hwrap hread hclose hs
  refine ⟨hlive, hwrap, hread, ?_⟩
  have hnum := hlive.inv.reliable.sends.numbered
  have hsum := NoWrapAux.packSize_lt hlive.inv hwrap
  obtain ⟨w, act⟩ := m
  obtain ⟨p, out, hen, hact, hw, hother, -⟩ := Session.step_cases hs
  rcases Side.eq_or_eq_other w x with rfl | rfl
  · rw [hw] at hnum hsum ⊢
    refine isSet_step (act_does hact) h.live.opened.flagCon hclose ?_ (nodup_sender h.live h.noWrap) h.first fun k hk => ?_
    · rintro pkt rnd rfl
      exact h.live.opened.ne_fin hen
    · exact hnum.entryNum_ne h.lt hsum (by rw [hk]; simp)
  · rw [hother]
    exact h.first

end ProgressAux

end NetworkLayers
