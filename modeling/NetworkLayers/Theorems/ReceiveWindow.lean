import NetworkLayers.Transport.Point
import NetworkLayers.Lemmas.Session
import NetworkLayers.Lib.SeqSpace
import Mathlib.Data.Nat.ModEq
import Mathlib.Tactic.SplitIfs

/-!
# The receive window

The comparisons by which `recv_thread` places a segment in its window, against the distances from `prev_seq_num_r` modulo
`MAX_SEQ_NUM`, and the three numbers of the window as the handshake and every segment that is accepted leave them.
-/

namespace NetworkLayers

open Transition SeqSpace

/-! ## The test of the window -/

/-- The distance of a sequence number from `prev_seq_num_r`. -/
def ServicePoint.dist (sp : ServicePoint) (seqNum : Nat) : Nat := SeqSpace.dist maxSeqNum sp.prevSeqNumR seqNum

/-- `recv_thread` does with a segment what its place in the window, taken as a circle, says. -/
structure ServicePoint.CircularTest (sp : ServicePoint) (seqNum : Nat) : Prop where
  addDados : sp.verdict seqNum = .addDados ↔ sp.dist sp.seqNumR ≤ sp.dist seqNum ∧ sp.dist seqNum ≤ sp.dist sp.endSeqNumR
  reenviaAck : sp.verdict seqNum = .reenviaAck ↔ sp.dist seqNum < sp.dist sp.seqNumR
  descarta : sp.verdict seqNum = .descarta ↔ sp.dist sp.endSeqNumR < sp.dist seqNum

/-- The window does not span the wrap, or the number is on the side of it that `seq_num_r` is on, or outside the window. -/
def ServicePoint.SameSide (sp : ServicePoint) (seqNum : Nat) : Prop :=
  sp.prevSeqNumR < sp.endSeqNumR ∨ (sp.prevSeqNumR ≤ seqNum ↔ sp.prevSeqNumR ≤ sp.seqNumR) ∨
    (sp.endSeqNumR < seqNum ∧ seqNum < sp.prevSeqNumR)

instance (sp : ServicePoint) (seqNum : Nat) : Decidable (sp.SameSide seqNum) := inferInstanceAs (Decidable (_ ∨ _ ∨ _))

/-- A SYN or SYN+ACK carries a window, and a header has 32 bits for the sequence number and 16 for the window. -/
def OpensWindow (_ : Endpoint) : PointAction → Prop
  | .recvThread pkt _ => pkt.segment.seqNum < 4294967296 ∧ pkt.segment.windowSize < 65536 ∧
      (pkt.segment.flags = .sync ∨ pkt.segment.flags = .syncAck → 0 < pkt.segment.windowSize)
  | _ => True

instance (p : Endpoint) : ∀ act, Decidable (OpensWindow p act)
  | .recvThread _ _ => inferInstanceAs (Decidable (_ ∧ _ ∧ (_ → _)))
  | .connectPoint .. | .closeConn | .sendPoint _ | .sendPut _ | .recvPoint _ | .sendThread | .segSendThread _ =>
    inferInstanceAs (Decidable True)

namespace ReceiveWindowAux

/-- `seq_num_r` is in the window, and the window is not empty. -/
structure Spans (sp : ServicePoint) : Prop where
  seqNumR : sp.seqNumR < maxSeqNum
  endSeqNumR : sp.endSeqNumR < maxSeqNum
  inside : sp.prevSeqNumR < maxSeqNum → sp.dist sp.seqNumR ≤ sp.dist sp.endSeqNumR
  pos : sp.prevSeqNumR < maxSeqNum → 0 < sp.dist sp.endSeqNumR

/-- The numbers of a window as the handshake and `recv_thread` compute them, without remainders. -/
theorem nextSeqNum_eq {q n : Nat} (hq : q ≤ maxSeqNum) (hn : n < maxSeqNum) :
    nextSeqNum q n = if q + n < maxSeqNum then q + n else if q + n = maxSeqNum then 0 else q + n - (maxSeqNum + 1) :=
  next_eq hq hn

/-- `prev_seq_num_r` as `sync_thread` computes it. -/
theorem syncPrev_eq {q w : Nat} (hq : q ≤ maxSeqNum) (hw : 0 < w) (hw' : w < 65536) :
    u32 (q + (maxSeqNum - w) % maxSeqNum) = if q ≤ w then q + maxSeqNum - w else q - w - 1 := by
  have hmod : (maxSeqNum - w) % maxSeqNum = maxSeqNum - w := Nat.mod_eq_of_lt (by unfold maxSeqNum; omega)
  rw [hmod]
  unfold u32 maxSeqNum at *
  split
  · rw [Nat.mod_eq_of_lt (by omega)]
    omega
  · rw [Nat.mod_eq_sub_mod (by omega), Nat.mod_eq_of_lt (by omega)]
    omega

/-- `prev_seq_num_r` as `sync_ack_thread` and `recv_thread` compute it. -/
theorem prev_eq {q w : Nat} (hq : q < maxSeqNum) (hw' : w < maxSeqNum) :
    (q + (maxSeqNum - w)) % maxSeqNum = if w ≤ q then q - w else q + maxSeqNum - w :=
  dist_eq hw' hq

/-- `prev_seq_num_r` after `sync_ack_thread`, whatever the sequence number. -/
theorem syncAckPrev_eq {q w : Nat} (hq : q ≤ maxSeqNum) (hw : 0 < w) (hw' : w < 65536) :
    (q + (maxSeqNum - w)) % maxSeqNum = if w ≤ q then q - w else q + maxSeqNum - w := by
  rcases Nat.eq_or_lt_of_le hq with rfl | hlt
  · rw [if_pos (by unfold maxSeqNum; omega), Nat.add_mod_left, Nat.mod_eq_of_lt (by unfold maxSeqNum; omega)]
  · exact prev_eq hlt (by unfold maxSeqNum; omega)

/-- A window of `w` numbers laid around `q`, with `seq_num_r` at `q` or right behind it, by either formula for its beginning. -/
theorem spans_of_window {sp : ServicePoint} {q n w : Nat} (hq : q ≤ maxSeqNum) (hn : n ≤ 1) (hw : 0 < w) (hw' : w < 65536)
    (hseq : sp.seqNumR = nextSeqNum q n) (hend : sp.endSeqNumR = nextSeqNum q w)
    (hprev : sp.prevSeqNumR = (q + (maxSeqNum - w)) % maxSeqNum ∨
      n = 1 ∧ sp.prevSeqNumR = u32 (q + (maxSeqNum - w) % maxSeqNum)) : Spans sp := by
  have hseqM : sp.seqNumR < maxSeqNum := by
    rw [hseq]
    exact Nat.mod_lt _ (by decide)
  have hendM : sp.endSeqNumR < maxSeqNum := by
    rw [hend]
    exact Nat.mod_lt _ (by decide)
  rw [syncAckPrev_eq hq hw hw', syncPrev_eq hq hw hw'] at hprev
  rw [nextSeqNum_eq hq (by unfold maxSeqNum; omega)] at hseq hend
  have hdist : sp.prevSeqNumR < maxSeqNum → sp.dist sp.seqNumR ≤ sp.dist sp.endSeqNumR ∧ 0 < sp.dist sp.endSeqNumR := by
    intro hP
    rw [ServicePoint.dist, ServicePoint.dist, dist_eq hP hseqM, dist_eq hP hendM]
    unfold maxSeqNum at *
    rcases hprev with hprev | ⟨rfl, hprev⟩
    · split_ifs at * <;> omega
    · split_ifs at * <;> omega
  exact ⟨hseqM, hendM, fun hP => (hdist hP).1, fun hP => (hdist hP).2⟩

/-- The window after a segment was accepted. -/
theorem spans_addDados {sp : ServicePoint} (hw : 0 < sp.windowSize) (hw' : sp.windowSize < 65536) (pkt : Packet) :
    Spans (sp.addDados pkt) := by
  have hseq : (sp.addDados pkt).seqNumR < maxSeqNum := Nat.mod_lt _ (by decide)
  have hsame : (sp.addDados pkt).seqNumR = nextSeqNum (sp.addDados pkt).seqNumR 0 := by
    rw [nextSeqNum_eq hseq.le (by decide), Nat.add_zero, if_pos hseq]
  exact spans_of_window hseq.le (Nat.zero_le _) hw hw' hsame rfl (Or.inl rfl)

/-- In a connection with a window, `seq_num_r` is in the window. -/
structure Inv (sp : ServicePoint) : Prop where
  window : sp.windowSize < 65536
  spans : sp.flagCon = .comConexao → 0 < sp.windowSize → Spans sp

theorem inv_alloc : Inv allocServicePoint.sp where
  window := by decide
  spans := by
    intro h
    cases h

/-- What the invariant is about stays as it is. -/
theorem Inv.congr {sp sp' : ServicePoint} (hi : Inv sp) (hw : sp'.windowSize = sp.windowSize) (hf : sp'.flagCon = sp.flagCon)
    (hseq : sp'.seqNumR = sp.seqNumR) (hprev : sp'.prevSeqNumR = sp.prevSeqNumR) (hend : sp'.endSeqNumR = sp.endSeqNumR) :
    Inv sp' := by
  refine ⟨hw ▸ hi.window, fun hcon hpos => ?_⟩
  obtain ⟨h1, h2, h3, h4⟩ := hi.spans (hf ▸ hcon) (hw ▸ hpos)
  refine ⟨hseq ▸ h1, hend ▸ h2, ?_, ?_⟩
  · simpa only [ServicePoint.dist, hseq, hprev, hend] using h3
  · simpa only [ServicePoint.dist, hseq, hprev, hend] using h4

theorem inv_step {here : Addr} {p p' : Endpoint} {act : PointAction} (hi : Inv p.sp) (hok : OpensWindow p act)
    (hs : Endpoint.step here p act = some p') : Inv p'.sp := by
  obtain ⟨⟨p'', out⟩, hact, rfl⟩ := Option.map_eq_some_iff.1 hs
  cases act_does hact with
  | sync dest destPoint windowSize rnd =>
    refine ⟨Nat.mod_lt _ (by decide), ?_⟩
    intro h
    cases h
  | close | finInConnection | finWhileClosing =>
    refine ⟨hi.window, ?_⟩
    intro h
    cases h
  | add pkt rnd hflags hm hf hv =>
    exact ⟨hi.window, fun _ hpos => spans_addDados (show 0 < p.sp.windowSize from hpos) hi.window pkt⟩
  | acceptSync pkt rnd hflags hm hf =>
    obtain ⟨hseq, hw, hpos⟩ := hok
    refine ⟨hw, fun _ _ => ?_⟩
    exact spans_of_window (Nat.lt_succ_iff.1 hseq) le_rfl (hpos (Or.inl hflags)) hw rfl rfl (Or.inr ⟨rfl, rfl⟩)
  | acceptSyncAck pkt rnd hflags hm hf =>
    obtain ⟨hseq, hw, hpos⟩ := hok
    refine ⟨hi.window, fun _ _ => ?_⟩
    exact spans_of_window (Nat.lt_succ_iff.1 hseq) le_rfl (hpos (Or.inr hflags)) hw rfl rfl (Or.inl rfl)
  | _ => exact hi.congr rfl rfl rfl rfl rfl

/-- The number is outside the window, by the comparisons. -/
def Outside (sp : ServicePoint) (seqNum : Nat) : Prop :=
  (sp.prevSeqNumR < sp.endSeqNumR ∧ (seqNum < sp.prevSeqNumR ∨ sp.endSeqNumR < seqNum)) ∨
    (sp.endSeqNumR ≤ sp.prevSeqNumR ∧ seqNum < sp.prevSeqNumR ∧ sp.endSeqNumR < seqNum)

instance (sp : ServicePoint) (seqNum : Nat) : Decidable (Outside sp seqNum) := inferInstanceAs (Decidable (_ ∨ _))

/-- Inside the window all branches compare with `seq_num_r` in the same way. -/
theorem verdict_eq (sp : ServicePoint) (seqNum : Nat) : sp.verdict seqNum =
    if Outside sp seqNum then .descarta else if seqNum < sp.seqNumR then .reenviaAck else .addDados := by
  by_cases hout : Outside sp seqNum
  · rw [if_pos hout]
    unfold Outside at hout
    unfold ServicePoint.verdict
    split_ifs <;> first | rfl | omega
  · rw [if_neg hout]
    unfold Outside at hout
    unfold ServicePoint.verdict
    split_ifs <;> first | rfl | omega

/-- What is outside by the comparisons is farther from `prev_seq_num_r` than `end_seq_num_r`. -/
theorem outside_iff {sp : ServicePoint} (hspans : Spans sp) (hprev : sp.prevSeqNumR < maxSeqNum) {seqNum : Nat}
    (hs : seqNum < maxSeqNum) : Outside sp seqNum ↔ sp.dist sp.endSeqNumR < sp.dist seqNum := by
  have hpos := hspans.pos hprev
  have hend := hspans.endSeqNumR
  unfold ServicePoint.dist at *
  rw [dist_eq hprev hend] at *
  rw [dist_eq hprev hs]
  unfold Outside
  split_ifs at * <;> omega

/-- Inside the window the comparison with `seq_num_r` is that of the distances on the same side of the wrap. -/
theorem sameSide_iff {sp : ServicePoint} (hspans : Spans sp) (hprev : sp.prevSeqNumR < maxSeqNum) {seqNum : Nat}
    (hs : seqNum < maxSeqNum) (hin : ¬Outside sp seqNum) :
    sp.SameSide seqNum ↔ (seqNum < sp.seqNumR ↔ sp.dist seqNum < sp.dist sp.seqNumR) := by
  have hinside := hspans.inside hprev
  have hend := hspans.endSeqNumR
  have hseq := hspans.seqNumR
  unfold ServicePoint.dist at *
  rw [dist_eq hprev hend] at hinside
  rw [dist_eq hprev hseq] at *
  rw [dist_eq hprev hs]
  unfold ServicePoint.SameSide
  unfold Outside at hin
  split_ifs at * <;> omega

/-- The verdict by the distances, when `seq_num_r` is in the window. -/
theorem circular_iff {sp : ServicePoint} (hspans : Spans sp) (hprev : sp.prevSeqNumR < maxSeqNum) {seqNum : Nat}
    (hs : seqNum < maxSeqNum) : sp.CircularTest seqNum ↔ sp.SameSide seqNum := by
  have hinside := hspans.inside hprev
  have houtside := outside_iff hspans hprev hs
  by_cases hout : Outside sp seqNum
  · have hfar := houtside.1 hout
    have hverdict : sp.verdict seqNum = .descarta := by rw [verdict_eq, if_pos hout]
    refine iff_of_true ⟨?_, ?_, ?_⟩ ?_
    · rw [hverdict]
      exact iff_of_false Verdict.noConfusion (by omega)
    · rw [hverdict]
      exact iff_of_false Verdict.noConfusion (by omega)
    · exact iff_of_true hverdict hfar
    · rcases hout with h | h
      · exact Or.inl h.1
      · exact Or.inr (Or.inr ⟨h.2.2, h.2.1⟩)
  · have hnear : ¬sp.dist sp.endSeqNumR < sp.dist seqNum := fun h => hout (houtside.2 h)
    rw [sameSide_iff hspans hprev hs hout]
    have hverdict : sp.verdict seqNum = if seqNum < sp.seqNumR then .reenviaAck else .addDados := by
      rw [verdict_eq, if_neg hout]
    constructor
    · rintro ⟨-, hreack, -⟩
      rw [← hreack, hverdict]
      split <;> simp_all
    · intro hside
      have hcases : ∀ v : Verdict, sp.verdict seqNum = v ↔
          (if sp.dist seqNum < sp.dist sp.seqNumR then .reenviaAck else .addDados) = v := by
        intro v
        rw [hverdict, if_congr hside rfl rfl]
      refine ⟨?_, ?_, ?_⟩
      · rw [hcases]
        split
        · exact iff_of_false Verdict.noConfusion (by omega)
        · exact iff_of_true rfl (by omega)
      · rw [hcases]
        split
        · exact iff_of_true rfl (by omega)
        · exact iff_of_false Verdict.noConfusion (by omega)
      · rw [hcases]
        split <;> exact iff_of_false Verdict.noConfusion hnear

end ReceiveWindowAux

/-- In a connection with a window, the comparisons of `recv_thread` are the circular test of the window exactly for the segments
that are on the side of the wrap that `seq_num_r` is on. -/
theorem window_test_circular_iff {here : Addr} {p : Endpoint}
    (h : Reach (Endpoint.step here) OpensWindow allocServicePoint p) (hcon : p.sp.flagCon = .comConexao)
    (hwindow : 0 < p.sp.windowSize) (hprev : p.sp.prevSeqNumR < maxSeqNum) {seqNum : Nat} (hseq : seqNum < maxSeqNum) :
    p.sp.CircularTest seqNum ↔ p.sp.SameSide seqNum := by
  have hi : (fun p : Endpoint => ReceiveWindowAux.Inv p.sp) p :=
    h.invariant ReceiveWindowAux.inv_alloc fun _ _ _ hi hok hs => ReceiveWindowAux.inv_step hi hok hs
  exact ReceiveWindowAux.circular_iff (hi.spans hcon hwindow) hprev hseq

namespace ReceiveWindowAux

/-- A SYN for a window of 10 that spans the wrap. -/
def wrapSyn : Packet where
  src := 1
  dest := 2
  segment := { src := 0, dest := 0, seqNum := 4294967290, ackNum := 0, flags := .sync, windowSize := 10, data := [115] }
  size := 18
  epoch := 0
  answers := 0

/-- The service point that has accepted it. -/
def wrapPoint : Endpoint := allocServicePoint.acceptSync ⟨2, 0⟩ wrapSyn 0

theorem reach_wrapPoint : Reach (Endpoint.step ⟨2, 0⟩) OpensWindow allocServicePoint wrapPoint :=
  Reach.step (.recvThread wrapSyn 0) Reach.refl (by decide) rfl

end ReceiveWindowAux

/-- Before the wrap the test is the circular one. -/
theorem window_test_circular_before_wrap : ReceiveWindowAux.wrapPoint.sp.CircularTest 4294967292 :=
  (window_test_circular_iff ReceiveWindowAux.reach_wrapPoint rfl (by decide) (by decide) (by decide)).2 (by decide)

/-- Past the wrap a segment of the window is acknowledged and not stored. -/
theorem window_test_not_circular : ¬∀ (here : Addr) (p : Endpoint) (seqNum : Nat),
    Reach (Endpoint.step here) OpensWindow allocServicePoint p → p.sp.flagCon = .comConexao →
    p.sp.seqNumR < maxSeqNum → p.sp.prevSeqNumR < maxSeqNum → p.sp.endSeqNumR < maxSeqNum →
    0 < 2 * p.sp.windowSize → 2 * p.sp.windowSize < maxSeqNum → seqNum < maxSeqNum → p.sp.CircularTest seqNum := by
  intro h
  have htest := h ⟨2, 0⟩ ReceiveWindowAux.wrapPoint 2 ReceiveWindowAux.reach_wrapPoint rfl (by decide) (by decide) (by decide)
    (by decide) (by decide) (by decide)
  exact absurd (htest.addDados.2 (by decide)) (by decide)

/-! ## The numbers of the window -/

/-- `seq_num_r`, `prev_seq_num_r` and `end_seq_num_r`. -/
def ServicePoint.recvWindow (sp : ServicePoint) : Nat × Nat × Nat := (sp.seqNumR, sp.prevSeqNumR, sp.endSeqNumR)

/-- All three are below `MAX_SEQ_NUM`. -/
def ServicePoint.BelowMax (sp : ServicePoint) : Prop :=
  sp.seqNumR < maxSeqNum ∧ sp.prevSeqNumR < maxSeqNum ∧ sp.endSeqNumR < maxSeqNum

/-- The window lies around `seq_num_r`, `window_size` to each side. -/
structure ServicePoint.Centred (sp : ServicePoint) : Prop where
  below : sp.BelowMax
  after : sp.endSeqNumR ≡ sp.seqNumR + sp.windowSize [MOD maxSeqNum]
  before : sp.seqNumR ≡ sp.prevSeqNumR + sp.windowSize [MOD maxSeqNum]

/-- What moves the data of a connection: `recv_thread` accepts a segment, `recv_point` reads. -/
inductive ReceiveAction where
  | addDados (pkt : Packet)
  | recvPoint (size : Nat)
  deriving DecidableEq, Repr

/-- A segment is added when the verdict is to add it. -/
def ServicePoint.receiveStep (sp : ServicePoint) : ReceiveAction → Option ServicePoint
  | .addDados pkt => if sp.verdict pkt.segment.seqNum = .addDados then some (sp.addDados pkt) else none
  | .recvPoint size => some { sp with segs := (recvSeg sp.segs size).1 }

/-- After a segment is accepted the window lies around `seq_num_r`. -/
def ReceiveAction.Centres : ReceiveAction → ServicePoint → Prop
  | .addDados _, sp => sp.Centred
  | .recvPoint _, _ => True

/-- The window lies around `seq_num_r` after each segment that is accepted. -/
def ServicePoint.StaysCentred (sp : ServicePoint) (as : List ReceiveAction) : Prop :=
  ∀ bs a, bs ++ [a] <+: as → ∀ t, exec ServicePoint.receiveStep sp (bs ++ [a]) = some t → a.Centres t

/-- A segment with which `seq_num_r` gets no nearer to 2^32 than the window is wide. -/
def WindowBelowWrap (sp : ServicePoint) : ReceiveAction → Prop
  | .addDados pkt =>
    u32 (sp.seqNumR + (insertSeg sp.segs sp.segsAux pkt.segment pkt.dataSize sp.seqNumR).2.2) % maxSeqNum + sp.windowSize <
      4294967296
  | .recvPoint _ => True

instance (sp : ServicePoint) : ∀ a, Decidable (WindowBelowWrap sp a)
  | .addDados _ => inferInstanceAs (Decidable (_ < _))
  | .recvPoint _ => inferInstanceAs (Decidable True)

namespace ReceiveWindowAux

/-- A sum of two numbers below the modulus. -/
theorem add_mod_eq {s w : Nat} (hs : s < maxSeqNum) (hw : w < maxSeqNum) :
    (s + w) % maxSeqNum = if s + w < maxSeqNum then s + w else s + w - maxSeqNum := by
  split
  · rename_i h
    exact Nat.mod_eq_of_lt h
  · rw [Nat.mod_eq_sub_mod (by omega), Nat.mod_eq_of_lt (by omega)]

/-- The window after a segment is accepted lies around `seq_num_r`, unless its end runs past 2^32. -/
theorem centred_addDados_iff {sp : ServicePoint} (hw' : sp.windowSize < 65536) (pkt : Packet) :
    (sp.addDados pkt).Centred ↔ WindowBelowWrap sp (.addDados pkt) := by
  have hseq : (sp.addDados pkt).seqNumR < maxSeqNum := Nat.mod_lt _ (by decide)
  have hprev : (sp.addDados pkt).prevSeqNumR = ((sp.addDados pkt).seqNumR + (maxSeqNum - sp.windowSize)) % maxSeqNum := rfl
  have hend : (sp.addDados pkt).endSeqNumR = nextSeqNum (sp.addDados pkt).seqNumR sp.windowSize := rfl
  have hwindow : (sp.addDados pkt).windowSize = sp.windowSize := rfl
  have hbelow : WindowBelowWrap sp (.addDados pkt) ↔ (sp.addDados pkt).seqNumR + sp.windowSize < 4294967296 := Iff.rfl
  have hwM : sp.windowSize < maxSeqNum := by
    unfold maxSeqNum
    omega
  rw [hbelow]
  generalize sp.addDados pkt = sp' at *
  have hprevM : sp'.prevSeqNumR < maxSeqNum := by
    rw [hprev]
    exact Nat.mod_lt _ (by decide)
  have hendM : sp'.endSeqNumR < maxSeqNum := by
    rw [hend]
    exact Nat.mod_lt _ (by decide)
  rw [prev_eq hseq hwM] at hprev
  rw [nextSeqNum_eq hseq.le hwM] at hend
  have hbefore : sp'.seqNumR ≡ sp'.prevSeqNumR + sp'.windowSize [MOD maxSeqNum] := by
    rw [Nat.ModEq, hwindow, Nat.mod_eq_of_lt hseq, add_mod_eq hprevM hwM]
    split_ifs at * <;> omega
  have hafter : sp'.endSeqNumR ≡ sp'.seqNumR + sp'.windowSize [MOD maxSeqNum] ↔
      sp'.seqNumR + sp.windowSize < 4294967296 := by
    rw [Nat.ModEq, hwindow, Nat.mod_eq_of_lt hendM, add_mod_eq hseq hwM]
    unfold maxSeqNum at *
    split_ifs at * <;> omega
  exact ⟨fun h => hafter.1 h.after, fun h => ⟨⟨hseq, hprevM, hendM⟩, hafter.2 h, hbefore⟩⟩

theorem receiveStep_windowSize {sp sp' : ServicePoint} {a : ReceiveAction} (h : sp.receiveStep a = some sp') :
    sp'.windowSize = sp.windowSize := by
  cases a with
  | addDados pkt =>
    simp only [ServicePoint.receiveStep] at h
    split at h
    · obtain rfl := Option.some.inj h
      rfl
    · cases h
  | recvPoint size =>
    obtain rfl := Option.some.inj h
    rfl

theorem receiveStep_centres_iff {sp sp' : ServicePoint} (hw : sp.windowSize < 65536) {a : ReceiveAction}
    (h : sp.receiveStep a = some sp') : a.Centres sp' ↔ WindowBelowWrap sp a := by
  cases a with
  | addDados pkt =>
    simp only [ServicePoint.receiveStep] at h
    split at h
    · obtain rfl := Option.some.inj h
      exact centred_addDados_iff hw pkt
    · cases h
  | recvPoint size => exact Iff.rfl

/-- A run of accepted segments keeps the window around `seq_num_r` exactly when none brings it too near to 2^32. -/
theorem staysCentred_iff {sp t : ServicePoint} (hw : sp.windowSize < 65536) {as : List ReceiveAction}
    (h : exec ServicePoint.receiveStep sp as = some t) :
    sp.StaysCentred as ↔ Along ServicePoint.receiveStep WindowBelowWrap sp as := by
  have hinv : ∀ (sp : ServicePoint) (a : ReceiveAction) (sp' : ServicePoint), sp.windowSize < 65536 →
      sp.receiveStep a = some sp' → sp'.windowSize < 65536 := by
    intro sp a sp' hw hs
    rw [receiveStep_windowSize hs]
    exact hw
  exact along_iff_after (fun sp => sp.windowSize < 65536) ReceiveAction.Centres hw hinv
    (fun _ _ _ hw hs => receiveStep_centres_iff hw hs) h

/-- `sync_thread` and `sync_ack_thread` agree on `prev_seq_num_r` exactly before the first window of the numbers is over. -/
theorem syncPrev_eq_iff {q w : Nat} (hq : q < maxSeqNum) (hw : 0 < w) (hw' : w < 65536) :
    u32 (q + (maxSeqNum - w) % maxSeqNum) = (q + (maxSeqNum - w)) % maxSeqNum ↔ q < w := by
  rw [syncPrev_eq hq.le hw hw', prev_eq hq (by unfold maxSeqNum; omega)]
  unfold maxSeqNum at *
  split_ifs <;> omega

end ReceiveWindowAux

/-- The two sides of a handshake store the same window, all of it below `MAX_SEQ_NUM`, and it stays around `seq_num_r` with every
segment accepted on either side, exactly when the sequence number is less than the window and no segment brings `seq_num_r` nearer
to 2^32 than the window is wide. -/
theorem handshake_windows_iff {here : Addr} {p p' : Endpoint} {syn synAck : Packet} {rnd : Nat}
    (hq : syn.segment.seqNum < maxSeqNum) (hw : 0 < syn.segment.windowSize) (hw' : syn.segment.windowSize ≤ 65535)
    (hseq : synAck.segment.seqNum = syn.segment.seqNum) (hwindow : synAck.segment.windowSize = syn.segment.windowSize)
    (hown : p'.sp.windowSize = syn.segment.windowSize) {as bs : List ReceiveAction} {t t' : ServicePoint}
    (has : exec ServicePoint.receiveStep (p.acceptSync here syn rnd).sp as = some t)
    (hbs : exec ServicePoint.receiveStep (p'.acceptSyncAck synAck).sp bs = some t') :
    ((p.acceptSync here syn rnd).sp.recvWindow = (p'.acceptSyncAck synAck).sp.recvWindow ∧
      (p.acceptSync here syn rnd).sp.BelowMax ∧ (p'.acceptSyncAck synAck).sp.BelowMax ∧
      (p.acceptSync here syn rnd).sp.StaysCentred as ∧ (p'.acceptSyncAck synAck).sp.StaysCentred bs) ↔
    (syn.segment.seqNum < syn.segment.windowSize ∧
      Along ServicePoint.receiveStep WindowBelowWrap (p.acceptSync here syn rnd).sp as ∧
      Along ServicePoint.receiveStep WindowBelowWrap (p'.acceptSyncAck synAck).sp bs) := by
  have hlt : syn.segment.windowSize < 65536 := Nat.lt_succ_of_le hw'
  have hwindows : (p.acceptSync here syn rnd).sp.recvWindow = (p'.acceptSyncAck synAck).sp.recvWindow ↔
      syn.segment.seqNum < syn.segment.windowSize := by
    have hsyn : (p.acceptSync here syn rnd).sp.recvWindow = (nextSeqNum syn.segment.seqNum 1,
      u32 (syn.segment.seqNum + (maxSeqNum - syn.segment.windowSize) % maxSeqNum),
      nextSeqNum syn.segment.seqNum syn.segment.windowSize) := rfl
    have hsynAck : (p'.acceptSyncAck synAck).sp.recvWindow = (nextSeqNum synAck.segment.seqNum 1,
      (synAck.segment.seqNum + (maxSeqNum - synAck.segment.windowSize)) % maxSeqNum,
      nextSeqNum synAck.segment.seqNum synAck.segment.windowSize) := rfl
    rw [hsyn, hsynAck, hseq, hwindow]
    simp only [Prod.mk.injEq, true_and, and_true]
    exact ReceiveWindowAux.syncPrev_eq_iff hq hw hlt
  have hbelow' : (p'.acceptSyncAck synAck).sp.BelowMax :=
    ⟨Nat.mod_lt _ (by decide), Nat.mod_lt _ (by decide), Nat.mod_lt _ (by decide)⟩
  have hlt' : (p'.acceptSyncAck synAck).sp.windowSize < 65536 := by
    change p'.sp.windowSize < 65536
    rw [hown]
    exact hlt
  rw [hwindows, ReceiveWindowAux.staysCentred_iff hlt has, ReceiveWindowAux.staysCentred_iff hlt' hbs]
  constructor
  · rintro ⟨hfirst, -, -, hal, hal'⟩
    exact ⟨hfirst, hal, hal'⟩
  · rintro ⟨hfirst, hal, hal'⟩
    refine ⟨hfirst, ?_, hbelow', hal, hal'⟩
    have heq := hwindows.2 hfirst
    simp only [ServicePoint.recvWindow, Prod.mk.injEq] at heq
    obtain ⟨h1, h2, h3⟩ := heq
    exact ⟨h1 ▸ hbelow'.1, h2 ▸ hbelow'.2.1, h3 ▸ hbelow'.2.2⟩

namespace ReceiveWindowAux

/-- A packet between two points with a window of 10. -/
def windowPacket (flags : Flags) (seqNum : Nat) (data : List Byte) : Packet where
  src := 1
  dest := 2
  segment := { src := 0, dest := 0, seqNum := seqNum, ackNum := 0, flags := flags, windowSize := 10, data := data }
  size := data.length + transportHeaderSize
  epoch := 0
  answers := 0

/-- A point that opens a connection with a window of 10. -/
def opening : Endpoint := allocServicePoint.sendSync ⟨1, 0⟩ 2 0 10 5

/-- Two segments in the wrong order, with a read between them. -/
def twoSegments (seqNum : Nat) : List ReceiveAction :=
  [.addDados (windowPacket .dados (seqNum + 2) [7, 8, 9]), .recvPoint 4, .addDados (windowPacket .dados seqNum [5, 6])]

end ReceiveWindowAux

open ReceiveWindowAux

/-- A sequence number below the window gives both sides the same window. -/
theorem handshake_windows_agree :
    (allocServicePoint.acceptSync ⟨2, 0⟩ (windowPacket .sync 3 [115]) 0).sp.recvWindow =
        (opening.acceptSyncAck (windowPacket .syncAck 3 [115])).sp.recvWindow ∧
      (allocServicePoint.acceptSync ⟨2, 0⟩ (windowPacket .sync 3 [115]) 0).sp.BelowMax ∧
      (opening.acceptSyncAck (windowPacket .syncAck 3 [115])).sp.BelowMax ∧
      (allocServicePoint.acceptSync ⟨2, 0⟩ (windowPacket .sync 3 [115]) 0).sp.StaysCentred (twoSegments 4) ∧
      (opening.acceptSyncAck (windowPacket .syncAck 3 [115])).sp.StaysCentred (twoSegments 4) :=
  (handshake_windows_iff (by decide) (by decide) (by decide) rfl rfl rfl rfl rfl).2 ⟨by decide, by decide, by decide⟩

/-- From the window on, they do not get the same one. -/
theorem handshake_windows_differ : ¬∀ (here : Addr) (p p' : Endpoint) (syn synAck : Packet) (rnd : Nat),
    syn.segment.seqNum < maxSeqNum → 0 < syn.segment.windowSize → syn.segment.windowSize ≤ 65535 →
    synAck.segment.seqNum = syn.segment.seqNum → synAck.segment.windowSize = syn.segment.windowSize →
    p'.sp.windowSize = syn.segment.windowSize →
    (p.acceptSync here syn rnd).sp.recvWindow = (p'.acceptSyncAck synAck).sp.recvWindow := by
  intro h
  have heq := h ⟨2, 0⟩ allocServicePoint opening (windowPacket .sync 100 [115]) (windowPacket .syncAck 100 [115]) 0
    (by decide) (by decide) (by decide) rfl rfl rfl
  revert heq
  decide

end NetworkLayers
